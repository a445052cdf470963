/-
`store/conversations.rs`: `send`.

One transaction under the thread's row lock: the sequence, the body, who the
message was addressed to, their receipts, and on a thread with an outbox the slot
it waits in. A repeat of a `request_id` answers with the message it made the first
time, recognised by the digest of its body, and writes nothing.
-/
import CrewSync.Conversations
import CrewSync.Outbox

set_option autoImplicit false

namespace CrewSync.Send

open Error Schema Rows Auth Sessions
open Conversations Outbox

/-- `MAX_BODY_BYTES`. -/
def MAX_BODY_BYTES : ℕ := 1048576

/-- `store::check_text`. The raw input counts, and then the trimmed one. -/
def check_text (field value : String) (max : ℕ) : BusResult String := do
  ensure (value.utf8ByteSize ≤ max) (.Invalid
    s!"{field} is {value.utf8ByteSize} bytes; the limit is {max}")
  let trimmed := trim value
  ensure (trimmed.utf8ByteSize ≤ max) (.Invalid
    s!"{field} is {trimmed.utf8ByteSize} bytes; the limit is {max}")
  pure trimmed

/-- `SendInput`. -/
structure SendInput where
  body : String
  request_id : Uuid
  reply_to : Option Uuid
  deriving DecidableEq, Repr

/-- `SentMessage`. -/
structure SentMessage where
  message_id : Uuid
  conversation_id : Uuid
  seq : ℕ
  stored : Bool
  publication : PublicationState
  recipients : List (Uuid × String)
  created_at : ℕ
  deriving DecidableEq, Repr

/-- A seat that can post: active, and not an observer's. -/
def posts (m : ConversationMembership) : Bool :=
  m.state == .active && (m.role == .owner || m.role == .moderator || m.role == .participant)

/-- `recipients_of`. -/
def recipients_of (message_id : Uuid) (db : Db) : List (Uuid × String) :=
  (db.message_recipients.filter fun r => r.message_id == message_id).map fun r =>
    (r.agent_id, r.session)

section Send

variable (sha256 : String → String)

/-- `body_digest`. -/
def body_digest (body : String) : String := sha256 body

/-- The message, as it is inserted. -/
def sent_row (now : ℕ) (auth : AuthCtx) (c : Conversation) (input : SendInput) (body : String)
    (message_id : Uuid) : ConversationMessage :=
  { id := message_id, conversation_id := c.id, seq := c.last_seq + 1, sender_agent := auth.agent_id,
    sender_session := auth.session, body := body, reply_to := input.reply_to,
    request_id := input.request_id, created_at := now, deleted_at := none,
    publication_state := .stored, canonical_locator := none, uncertain_at := none,
    tombstoned_at := none, tombstone_reason := none, body_sha256 := some (body_digest sha256 body),
    backend := c.backend }

/-- Who a message is addressed to: every active seat but the sender's, and in a
project thread only those that still have the project. -/
def addressed (auth : AuthCtx) (c : Conversation) (db : Db) : List ConversationMembership :=
  db.conversation_memberships.filter fun m =>
    m.conversation_id == c.id && m.state == .active &&
      !(m.agent_id == auth.agent_id && m.session == auth.session) &&
      (c.visibility != .project || granted c m.agent_id db)

/-- The receipt of one recipient. On the outbox path nothing is stored yet. -/
def receipt_row (now : ℕ) (asynchronous : Bool) (message_id membership_id : Uuid) : MessageReceipt :=
  { message_id := message_id, membership_id := membership_id,
    stored_at := if asynchronous then none else some now, delivered_at := none, presented_at := none,
    acknowledged_at := none, resolved_at := none, note := none }

/-- The message in its thread, before its slot is queued. -/
def with_message (now : ℕ) (auth : AuthCtx) (c : Conversation) (input : SendInput) (body : String)
    (message_id : Uuid) (db : Db) : Db :=
  let seats := addressed auth c db
  { db with
    conversations := update (fun x => x.id == c.id) (fun x => { x with last_seq := x.last_seq + 1 })
      db.conversations
    conversation_messages := insert_into (sent_row sha256 now auth c input body message_id)
      db.conversation_messages
    message_recipients := db.message_recipients ++
      seats.map fun m => ⟨message_id, m.id, m.agent_id, m.session⟩
    message_receipts := db.message_receipts ++
      seats.map fun m => receipt_row now (c.publication == .outbox) message_id m.id }

/-- `send`. `message_id` and `publish_key` are fresh `gen_random_uuid()`s. -/
def send (now : ℕ) (seen : Db) (auth : AuthCtx) (id : Uuid) (input : SendInput)
    (message_id publish_key : Uuid) (db : Db) : BusResult (SentMessage × Db) := do
  require_capability auth seen
  let a ← readable auth id seen
  ensure a.can_send (.Forbidden
    ("you cannot post in this conversation: accept your invitation first, and note " ++
      "that an observer reads and acknowledges but does not write"))
  ensure (!a.archived) (.Conflict "this conversation is archived; its history stays readable")
  let body ← check_text "message body" input.body MAX_BODY_BYTES
  ensure (body ≠ "") (.Invalid "a message body is required")
  guard now auth db
  let c ← fetch (one (fun c => c.id == id) db.conversations) (.Db "no rows returned")
  ensure (c.archived_at.isNone) (.Conflict
    "this conversation is archived; its history stays readable")
  let paused := (now - c.write_paused_at.getD now) / 1000000
  ensure (c.write_paused_at.isNone) (.Conflict
    ("this conversation's storage is being moved by an operator and writes are " ++
      s!"paused (for {paused}s so far). Reading still works. Try again in a moment; " ++
      "nothing you have sent was lost."))
  require_project_open auth id db
  ensure ((one (is_callers auth id) db.conversation_memberships).any posts) (.Forbidden
    "your membership of this conversation is no longer one that can post. Nothing was written.")
  match one (fun m => m.conversation_id == id && m.request_id == input.request_id)
      db.conversation_messages with
  | some m => do
    ensure (m.body_sha256 = some (body_digest sha256 body)) (.Conflict
      ("this request_id already sent a different message. Use a fresh UUID for a " ++
        "new message; reusing one is how a retry is recognised."))
    pure (⟨m.id, id, m.seq, m.publication_state == .stored, m.publication_state,
      recipients_of m.id db, m.created_at⟩, db)
  | none => do
    ensure (input.reply_to.all fun r => db.conversation_messages.any fun m =>
        m.id == r && m.conversation_id == id) (.NotFound
      "reply_to is not a message of this conversation")
    ensure (db.conversation_messages.all fun m => m.id != message_id) (.Db "duplicate key value: id")
    let sent := with_message sha256 now auth c input body message_id db
    if c.publication = .outbox then do
      let queued ← enqueue now message_id id auth.team_id c.backend body publish_key sent
      pure (⟨message_id, id, c.last_seq + 1, false, .pending_publication,
        recipients_of message_id sent, now⟩, queued)
    else
      pure (⟨message_id, id, c.last_seq + 1, true, .stored, recipients_of message_id sent, now⟩, sent)

end Send

/-! ## What it did -/

variable {sha256 : String → String}

theorem check_text_ok {field value body : String} {max : ℕ}
    (h : check_text field value max = .ok body) : body = trim value := by
  simp only [check_text, bind_eq_ok, pure_eq_ok] at h
  obtain ⟨_, -, _, -, h⟩ := h
  exact h.symm

theorem enqueue_ok {now : ℕ} {message_id conversation_id team_id key : Uuid} {backend : Backend}
    {payload : String} {db db' : Db}
    (h : enqueue now message_id conversation_id team_id backend payload key db = .ok db') :
    db' = { db with
      conversation_outbox :=
        if db.conversation_outbox.any fun o => o.message_id == message_id then
          db.conversation_outbox
        else insert_into (slot_row now message_id conversation_id team_id backend payload key)
          db.conversation_outbox
      conversation_messages := set_state .pending_publication message_id
        db.conversation_messages } := by
  simp only [enqueue, bind_eq_ok, pure_eq_ok] at h
  obtain ⟨_, -, rfl⟩ := h
  rfl

/-- A message that was just inserted, and is marked. -/
theorem set_state_insert (st : PublicationState) (row : ConversationMessage)
    {t : List ConversationMessage} (hfresh : ∀ m ∈ t, m.id ≠ row.id) :
    set_state st row.id (insert_into row t) = insert_into { row with publication_state := st } t := by
  unfold set_state insert_into update
  rw [List.map_append]
  refine congrArg₂ _ ?_ (by simp)
  refine (List.map_congr_left fun m hm => ?_).trans (List.map_id t)
  have hne : (m.id == row.id) = false := by simpa using hfresh m hm
  simp [hne]

/-- A send writes nothing, or adds one message to a thread that is not paused,
and on the outbox path its slot. -/
theorem send_ok {now : ℕ} {seen db db' : Db} {auth : AuthCtx} {id message_id key : Uuid}
    {input : SendInput} {r : SentMessage} (h : send sha256 now seen auth id input message_id key db = .ok (r, db')) :
    db' = db ∨ ∃ c body, one (fun c => c.id == id) db.conversations = some c ∧
      c.write_paused_at = none ∧ body ≠ "" ∧
      (∀ m ∈ db.conversation_messages, m.id ≠ message_id) ∧
      (c.publication = .sync ∧ db' = with_message sha256 now auth c input body message_id db ∨
        c.publication = .outbox ∧ enqueue now message_id id auth.team_id c.backend body key
          (with_message sha256 now auth c input body message_id db) = .ok db') := by
  simp only [send, bind_eq_ok, ensure_eq_ok, fetch_eq_ok] at h
  obtain ⟨_, -, a, -, _, -, _, -, body, -, _, hbody, _, -, c, hc, _, -, _, hpaused, _, -, _, -, h⟩ := h
  split at h
  · simp only [bind_eq_ok, pure_eq_ok, Prod.mk.injEq] at h
    obtain ⟨_, -, -, rfl⟩ := h
    exact Or.inl rfl
  · simp only [bind_eq_ok, ensure_eq_ok] at h
    obtain ⟨_, -, _, hfresh, h⟩ := h
    refine Or.inr ⟨c, body, hc, by simpa using hpaused, hbody, by simpa using hfresh, ?_⟩
    split at h
    · rename_i hpub
      simp only [bind_eq_ok, pure_eq_ok, Prod.mk.injEq] at h
      obtain ⟨queued, hq, -, rfl⟩ := h
      exact Or.inr ⟨hpub, hq⟩
    · rename_i hpub
      simp only [pure_eq_ok, Prod.mk.injEq] at h
      refine Or.inl ⟨?_, h.2.symm⟩
      cases hp : c.publication with
      | sync => rfl
      | outbox => exact absurd hp hpub

end CrewSync.Send
