/-
`store/conversations.rs`: the four ways to what was said in a thread: `read`,
`get_message`, `receipts` and the audited `recover_history`.

Each of them decides by the caller's seat, or by the seats of the caller's agent,
where the caller's history begins, and returns nothing from before. The first
three look at the pool several times without a transaction; every look is an
argument of its own (`admitted` is the database the caller was let in by). The
last one reads inside a transaction, on `db`, and fetches the bodies afterwards.

A body that is not in its row is asked of the backend that holds it. What the
backend answers is the parameter `fetched`.
-/
import CrewSync.Conversations

set_option autoImplicit false

namespace CrewSync.History

open Error Schema Rows Sessions Conversations

/-! ## Bodies -/

/-- What came of asking a backend for a body. -/
inductive Fetched where
  /-- `Backends::for_message` failed. -/
  | unopened
  /-- `MessagingBackend::fetch` failed. -/
  | unreadable
  | found (body : String)
  | gone
  deriving DecidableEq, Repr

/-- `BodyState`. -/
inductive BodyState where
  | Present (body : String)
  | Missing (publication : String) (why : BusError)
  | Unreachable (why : BusError)
  deriving DecidableEq, Repr

/-- `BodyRow`. -/
structure BodyRow where
  body : String
  state : PublicationState
  locator : Option Locator
  backend : Backend
  tombstoned : Bool
  tombstone_reason : Option String
  deriving DecidableEq, Repr

/-- `publication_state`, as it is written. -/
def state_text : PublicationState → String
  | .stored => "stored"
  | .pending_publication => "pending_publication"
  | .failed => "failed"

/-- `resolve_body`. A body its backend no longer has is also given a tombstone,
which is a statement of its own. -/
def resolve_body (fetched : Backend → Locator → Uuid → Fetched) (message_id : Uuid) (row : BodyRow) :
    BodyState :=
  let reason := row.tombstone_reason.getD "retention"
  if row.tombstoned then
    .Missing "tombstoned" (.NotFound
      (s!"this message's body is no longer held by its backend ({reason}). Its place in " ++
        "the thread, its recipients and its receipts remain."))
  else if row.backend = .postgres ∨ row.body ≠ "" then .Present row.body
  else
    match row.state, row.locator with
    | .pending_publication, _ => .Missing "pending_publication" (.Conflict
      ("this message has been accepted but its backend has not confirmed it yet. " ++
        "It is not lost; read it again in a moment."))
    | .failed, _ => .Missing "failed" (.NotFound
      ("this message was never stored by its backend. Its slot is kept so the gap " ++
        "is visible rather than silent."))
    | .stored, none => .Missing "failed" (.NotFound
      "this message has no body and no locator; there is nothing to read")
    | .stored, some locator =>
      match fetched row.backend locator message_id with
      | .unopened => .Unreachable (.Conflict
        ("the backend holding this body cannot be reached right now. The " ++
          "message is not lost: its place in the thread, its recipients and " ++
          "its receipts are here, and the body comes back when the backend does."))
      | .unreadable => .Unreachable (.Conflict
        ("this body could not be read from its backend right now. It is not " ++
          "lost: its place in the thread, its recipients and its receipts are " ++
          "here, and the body comes back when the backend does."))
      | .found body => .Present body
      | .gone => .Missing "tombstoned" (.NotFound
        ("this message's body is no longer held by its backend. Its place " ++
          "in the thread, its recipients and its receipts remain."))

/-- The columns of a message that resolving its body needs. -/
def body_row (m : ConversationMessage) : BodyRow :=
  { body := m.body, state := m.publication_state, locator := m.canonical_locator,
    backend := m.backend, tombstoned := m.tombstoned_at.isSome,
    tombstone_reason := m.tombstone_reason }

/-! ## What a reader is handed -/

/-- A message as it is handed out (`model::ConversationMessage`). -/
structure Served where
  message_id : Uuid
  seq : ℕ
  sender_agent : Uuid
  sender_session : String
  body : String
  reply_to : Option Uuid
  created_at : ℕ
  my_receipt : Option MessageReceipt
  publication : String
  unavailable : Option BusError
  deriving DecidableEq, Repr

/-- One row, with the body that was found for it or the reason there is none. -/
def serve (m : ConversationMessage) (state : PublicationState) (b : BodyState)
    (my_receipt : Option MessageReceipt) : Served :=
  let shown : String × String × Option BusError :=
    match b with
    | .Present body => (body, state_text state, none)
    | .Missing publication why => ("", publication, some why)
    | .Unreachable why => ("", state_text state, some why)
  { message_id := m.id, seq := m.seq, sender_agent := m.sender_agent,
    sender_session := m.sender_session, body := shown.1, reply_to := m.reply_to,
    created_at := m.created_at, my_receipt := my_receipt, publication := shown.2.1,
    unavailable := shown.2.2 }

/-- `ConversationRead`. -/
structure ConversationRead where
  conversation_id : Uuid
  messages : List Served
  next_after_seq : Option ℤ
  history_from_seq : Option ℕ
  deriving DecidableEq, Repr

/-- `limit.unwrap_or(DEFAULT_PAGE).clamp(1, MAX_PAGE)`. -/
def page_limit (limit : Option ℤ) : ℕ := clamp (limit.getD DEFAULT_PAGE) MAX_PAGE

/-- `receipt_of`, and one row of `receipts_for`. -/
def receipt_of (message_id membership_id : Uuid) (db : Db) : Option MessageReceipt :=
  one (fun r => r.message_id == message_id && r.membership_id == membership_id) db.message_receipts

/-- `history_from_seq` of the caller's seat. -/
def Access.floor (a : Access) : Option ℕ := a.membership.bind fun m => m.history_from_seq

section Reads

variable (fetched : Backend → Locator → Uuid → Fetched)

/-- The page `read` selects. -/
def page_rows (id : Uuid) (after : ℤ) (limit : ℕ) (db : Db) : List ConversationMessage :=
  (select (fun m => m.conversation_id == id && decide (after < m.seq) && m.deleted_at.isNone)
    (fun m => m.seq) db.conversation_messages).take limit

/-- Where the next page begins: at the first message still awaiting publication,
if the page holds one. -/
def next_after (messages : List Served) (last_seq : ℕ) : Option ℤ :=
  let pending := (messages.find? fun m => m.publication == "pending_publication").map fun m => m.seq
  let last := messages.getLast?.map fun m =>
    match pending with
    | some p => min (m.seq : ℤ) (p - 1)
    | none => (m.seq : ℤ)
  last.filter fun s => s < last_seq && 0 < s

/-- `read`. -/
def read (admitted paged served : Db) (auth : AuthCtx) (id : Uuid) (after_seq limit : Option ℤ) :
    BusResult ConversationRead := do
  require_capability auth admitted
  let a ← readable auth id admitted
  require_accepted a
  let after : ℤ := max (after_seq.getD 0) ((Access.floor a).getD 0)
  let rows := page_rows id after (page_limit limit) paged
  -- access is checked again once the rows are in hand
  let b ← readable auth id served
  require_accepted b
  let messages := rows.map fun m =>
    serve m m.publication_state (resolve_body fetched m.id (body_row m))
      (b.membership.bind fun s => receipt_of m.id s.id served)
  pure ⟨id, messages, next_after messages b.last_seq, Access.floor b⟩

/-- A seat whose history begins at `floor` or later does not reach `seq`. -/
def before_seat (a : Access) (seq : ℕ) : Bool := (Access.floor a).any fun floor => seq ≤ floor

/-- `get_message`. -/
def get_message (found admitted served : Db) (auth : AuthCtx) (message_id : Uuid) :
    BusResult Served := do
  require_capability auth found
  let m ← fetch (one (fun m => m.id == message_id && m.deleted_at.isNone) found.conversation_messages)
    (.NotFound "no such message")
  let a ← readable auth m.conversation_id admitted
  require_accepted a
  ensure (!before_seat a m.seq) (.Forbidden
    "this message is before the point your membership starts")
  pure (serve m m.publication_state (resolve_body fetched message_id (body_row m))
    (a.membership.bind fun s => receipt_of message_id s.id served))

/-- `MessageReceipts`. -/
structure MessageReceipts where
  message_id : Uuid
  seq : ℕ
  total : ℕ
  acknowledged : ℕ
  resolved : ℕ
  receipts : List MessageReceipt
  deriving DecidableEq, Repr

/-- `receipts`. -/
def receipts (found admitted served : Db) (auth : AuthCtx) (message_id : Uuid) :
    BusResult MessageReceipts := do
  require_capability auth found
  let m ← fetch (one (fun m => m.id == message_id) found.conversation_messages)
    (.NotFound "no such message")
  let a ← readable auth m.conversation_id admitted
  require_accepted a
  ensure (!before_seat a m.seq) (.Forbidden
    ("this message is before the point your membership starts, so its receipts are not yours " ++
      "to read either"))
  let rows := served.message_receipts.filter fun r => r.message_id == message_id
  pure {
    message_id := message_id
    seq := m.seq
    total := rows.length
    acknowledged := (rows.filter fun r => r.acknowledged_at.isSome).length
    resolved := (rows.filter fun r => r.resolved_at.isSome).length
    receipts := rows }

/-- A seat through which its agent recovers message `seq`: taken once, and not
taken away. -/
def recovers (id agent_id : Uuid) (seq : ℕ) (me : ConversationMembership) : Bool :=
  me.conversation_id == id && me.agent_id == agent_id && me.state != .removed &&
    me.accepted_at.isSome && decide (me.history_from_seq.getD 0 < seq)

/-- The rows `recover_history` selects. -/
def recovered_rows (auth : AuthCtx) (id : Uuid) (after : ℤ) (limit : ℕ) (db : Db) :
    List ConversationMessage :=
  (select (fun m => m.conversation_id == id &&
      db.conversations.any (fun c => c.id == id && c.team_id == auth.team_id &&
        (c.visibility == .private || granted c auth.agent_id db)) &&
      decide (after < m.seq) && m.deleted_at.isNone &&
      db.conversation_memberships.any (recovers id auth.agent_id m.seq))
    (fun m => m.seq) db.conversation_messages).take limit

/-- `recover_history`. `served` is the pool after the commit, where the state of
each body is looked up again. -/
def recover_history (now : ℕ) (seen db served : Db) (auth : AuthCtx) (id : Uuid)
    (after_seq limit : Option ℤ) : BusResult ConversationRead := do
  require_capability auth seen
  ensure (!auth.session_is_authenticated) (.Forbidden
    ("recovery is an owner-agent operation: call it with your agent token, not with " ++
      "a window's session credential."))
  let _ ← agent_row auth db
  let alive := db.agent_sessions.filter fun s => s.agent_id == auth.agent_id && live now db.api_tokens s
  ensure alive.isEmpty (.Conflict
    (s!"{alive.length} of your sessions are still live. Recovery is for windows that are gone: " ++
      "ask that window to read the thread, or revoke_session it first."))
  let rows := recovered_rows auth id (after_seq.getD 0) (page_limit limit) db
  ensure (!rows.isEmpty) (.NotFound
    ("nothing to recover here: no non-revoked membership of yours covers this " ++
      "conversation"))
  let next : Option ℤ := if rows.length = page_limit limit then rows.getLast?.map fun m => m.seq else none
  let messages ← rows.mapM fun m => do
    let row ← fetch (one (fun x => x.id == m.id) served.conversation_messages)
      (.Db "no rows returned")
    pure (serve m row.publication_state
      (resolve_body fetched m.id { body_row row with body := m.body }) none)
  pure ⟨id, messages, next, none⟩

end Reads

/-! ## What they return -/

variable {fetched : Backend → Locator → Uuid → Fetched} {auth : AuthCtx} {admitted served : Db} {id message_id : Uuid}
  {after_seq limit : Option ℤ} {r : ConversationRead} {a : Access} {found seen db : Db} {now : ℕ}

/-- However a body was resolved, the message keeps its place. -/
@[simp] theorem serve_seq (m : ConversationMessage) (st : PublicationState) (b : BodyState)
    (r : Option MessageReceipt) : (serve m st b r).seq = m.seq := rfl

theorem require_accepted_ok {u : Unit} (h : require_accepted a = .ok u) :
    a.can_read_messages = true :=
  ensure_eq_ok.mp h

/-- Everything on a page lies after where the caller's history begins. -/
theorem read_ok {paged : Db} (h : read fetched admitted paged served auth id after_seq limit = .ok r) :
    ∃ a, readable auth id admitted = .ok a ∧ a.can_read_messages = true ∧
      ∀ m ∈ r.messages, (Access.floor a).getD 0 < m.seq := by
  simp only [read, bind_eq_ok, pure_eq_ok] at h
  obtain ⟨_, -, a, ha, _, hacc, b, -, _, -, rfl⟩ := h
  refine ⟨a, ha, require_accepted_ok hacc, fun m hm => ?_⟩
  obtain ⟨x, hx, rfl⟩ := List.mem_map.mp hm
  have hpage := mem_select.mp (List.mem_of_mem_take hx)
  simp only [Bool.and_eq_true, decide_eq_true_eq] at hpage
  have := hpage.2.1.2
  rw [serve_seq]
  omega

/-- A seat's window holds what lies after its floor. -/
theorem before_seat_eq_false {seq : ℕ} (h : before_seat a seq = false) (hpos : 0 < seq) :
    (Access.floor a).getD 0 < seq := by
  unfold before_seat at h
  cases hf : Access.floor a with
  | none => simpa using hpos
  | some f =>
    rw [hf] at h
    simpa using h

/-- A message is shown only to who may read its thread, and only from the window of the seat. -/
theorem get_message_ok {r : Served} (h : get_message fetched found admitted served auth message_id = .ok r) :
    ∃ m ∈ found.conversation_messages, m.id = message_id ∧ r.seq = m.seq ∧
      ∃ a, readable auth m.conversation_id admitted = .ok a ∧ a.can_read_messages = true ∧
        before_seat a m.seq = false := by
  simp only [get_message, bind_eq_ok, ensure_eq_ok, fetch_eq_ok, pure_eq_ok] at h
  obtain ⟨_, -, m, hm, a, ha, _, hacc, _, hfloor, rfl⟩ := h
  have hid := pos_of_one hm
  simp only [Bool.and_eq_true, beq_iff_eq] at hid
  exact ⟨m, mem_of_one hm, hid.1, rfl, a, ha, require_accepted_ok hacc, by simpa using hfloor⟩

/-- Its receipts are shown under the same terms. -/
theorem receipts_ok {r : MessageReceipts} (h : receipts found admitted served auth message_id = .ok r) :
    ∃ m ∈ found.conversation_messages, m.id = message_id ∧ r.seq = m.seq ∧
      ∃ a, readable auth m.conversation_id admitted = .ok a ∧ a.can_read_messages = true ∧
        before_seat a m.seq = false := by
  simp only [receipts, bind_eq_ok, ensure_eq_ok, fetch_eq_ok, pure_eq_ok] at h
  obtain ⟨_, -, m, hm, a, ha, _, hacc, _, hfloor, rfl⟩ := h
  have hid := pos_of_one hm
  exact ⟨m, mem_of_one hm, by simpa using hid, rfl, a, ha, require_accepted_ok hacc,
    by simpa using hfloor⟩

/-- What a recovery returns is a message of the thread, reached through a seat. -/
theorem recover_history_rows (h : recover_history fetched now seen db served auth id after_seq limit = .ok r) :
    ∀ m ∈ r.messages, ∃ x ∈ db.conversation_messages, x.conversation_id = id ∧ m.seq = x.seq ∧
      ∃ me ∈ db.conversation_memberships, recovers id auth.agent_id x.seq me = true := by
  simp only [recover_history, bind_eq_ok, ensure_eq_ok, pure_eq_ok] at h
  obtain ⟨_, -, _, -, _, -, _, -, _, -, messages, hmap, rfl⟩ := h
  intro m hm
  obtain ⟨x, hx, hserved⟩ := mem_of_mapM_ok hmap m hm
  simp only [bind_eq_ok, fetch_eq_ok, pure_eq_ok] at hserved
  obtain ⟨row, -, rfl⟩ := hserved
  obtain ⟨hin, hrow⟩ := mem_select.mp (List.mem_of_mem_take hx)
  simp only [Bool.and_eq_true, beq_iff_eq] at hrow
  obtain ⟨me, hme, hcovers⟩ := List.any_eq_true.mp hrow.2
  exact ⟨x, hin, hrow.1.1.1.1, rfl, me, hme, by simpa using hcovers⟩

/-- Recovery shows a message only where an ended seat of the agent covers it. -/
theorem recover_history_ok (h : recover_history fetched now seen db served auth id after_seq limit = .ok r) :
    ∀ m ∈ r.messages, ∃ me ∈ db.conversation_memberships, recovers id auth.agent_id m.seq me = true := by
  intro m hm
  obtain ⟨x, -, -, hseq, me, hme, hrec⟩ := recover_history_rows h m hm
  exact ⟨me, hme, hseq ▸ hrec⟩

end CrewSync.History
