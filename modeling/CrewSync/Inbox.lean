/-
`store/inbox.rs`: references, as they are published, handed out and confirmed.

A window's inbox has two sides. The broker holds references that were published to
the window's subject; `inbox_deliveries` records what was handed over and not yet
confirmed. `fetch` asks the broker first and then tops up from Postgres: messages
from the receipts that say they were not delivered, receipt notifications from the
events themselves. Whatever is out is not offered again for five minutes, except
by the broker, which decides on its own when to redeliver.

`fetch` and `confirm` are one transaction each, read at their commit; what they
read from the pool before it they read in `seen`. `publish_pending` runs outside
any: its batch is read once, and each row is updated as its answer comes in.
-/
import CrewSync.Conversations
import CrewSync.Outbox
import CrewSync.Routing

set_option autoImplicit false

namespace CrewSync.Inbox

open Error Schema Rows Sessions
open Conversations References Outbox Routing

/-- `MAX_BATCH` and `DEFAULT_BATCH`. -/
def MAX_BATCH : ℤ := 50

def DEFAULT_BATCH : ℤ := 20

/-- `limit.unwrap_or(DEFAULT_BATCH).clamp(1, MAX_BATCH)`. -/
def batch_size (limit : Option ℤ) : ℕ := clamp (limit.getD DEFAULT_BATCH) MAX_BATCH

/-- `interval '5 minutes'`. -/
def GRACE : ℕ := secs 300

/-- `caller_key`. -/
def caller_key (auth : AuthCtx) : String := recipient_key auth.agent_id auth.session

/-! ## Publishing -/

/-- The batch of one pass. -/
def due_events (now : ℕ) (team_id : Uuid) (limit : ℕ) (db : Db) : List InboxEvent :=
  (select (fun e => e.team_id == team_id && e.state == .pending && e.next_attempt_at ≤ now)
    (fun e => e.created_at) db.inbox_events).take limit

/-- `SET …` of an event by what the broker answered. `attempts` is what the pass
read. -/
def answered_row (now : ℕ) (attempts : ℕ) (answer : Published) (e : InboxEvent) : InboxEvent :=
  match answer with
  | .Confirmed _ => { e with state := .published }
  | .Retryable why =>
    { e with
      attempts := e.attempts + 1, state := if MAX_ATTEMPTS ≤ attempts + 1 then .failed else .pending,
      next_attempt_at := now + secs (1 <<< min attempts 6), last_error := some why }
  | .Fatal why => { e with state := .failed, last_error := some why }

/-- The update of one event, `e` as the pass read it. -/
def answer_event (now : ℕ) (e : InboxEvent) (answer : Published) (db : Db) : Db :=
  { db with
    inbox_events := update (fun x => x.id == e.id) (answered_row now e.attempts answer)
      db.inbox_events }

/-- `publish_pending`: what was asked, and what it left. `answer` is what the broker
answers for each. -/
def publish_pending (now : ℕ) (answer : InboxEvent → Published) (team_id : Uuid) (limit : ℕ)
    (db : Db) : List Call × Db :=
  let rows := due_events now team_id limit db
  (rows.map fun e => .publish_reference team_id e.recipient_key e.id,
    rows.foldl (fun db e => answer_event now e (answer e) db) db)

/-! ## Handing out -/

/-- The payload of a reference, as far as it could be read. -/
structure Payload where
  kind : Option String
  message_id : Option Uuid
  dedup : Option String
  deriving DecidableEq, Repr

/-- `InboxRef`: a reference as the broker hands it over. No payload is one that is
not JSON. -/
structure InboxRef where
  payload : Option Payload
  ack_subject : String
  stream_seq : ℕ
  deliveries : ℕ
  deriving DecidableEq, Repr

/-- `InboxReference`. -/
structure InboxReference where
  delivery_id : Uuid
  message_id : Uuid
  conversation_id : Uuid
  seq : ℕ
  «from» : String
  from_address : String
  created_at : ℕ
  redelivered : Bool
  source : String
  kind : String
  deriving DecidableEq, Repr

/-- `InboxBatch`. -/
structure InboxBatch where
  references : List InboxReference
  from_broker : ℕ
  more : Bool
  note : Option String
  deriving DecidableEq, Repr

/-- `from_address`. -/
def from_address (sender session : String) : String :=
  if session.isEmpty then sender else s!"{sender}/{session}"

/-- The reference to a message, under the delivery it is handed out by. -/
def reference_to (m : ConversationMessage) (sender source kind : String) (redelivered : Bool)
    (delivery_id : Uuid) : InboxReference :=
  { delivery_id := delivery_id, message_id := m.id, conversation_id := m.conversation_id,
    seq := m.seq, «from» := sender, from_address := from_address sender m.sender_session,
    created_at := m.created_at, redelivered := redelivered, source := source, kind := kind }

/-- `c.visibility <> 'project' OR EXISTS (…)`. -/
def open_to (agent_id : Uuid) (db : Db) (c : Conversation) : Bool :=
  c.visibility != .project || granted c agent_id db

/-- The row a hand-out of this reference is in, while it is not confirmed. -/
def out_as (key : String) (message_id : Uuid) (dedup : String) (d : InboxDelivery) : Bool :=
  d.recipient_key == key && d.message_id == message_id && d.event_dedup == dedup &&
    d.confirmed_at.isNone

/-- The row of a first hand-out. -/
def delivery_row (now : ℕ) (auth : AuthCtx) (key : String) (message_id : Uuid)
    (membership_id : Option Uuid) (dedup ack_subject : String) (stream_seq : Option ℕ) (id : Uuid) :
    InboxDelivery :=
  { id := id, team_id := auth.team_id, recipient_key := key, session_id := auth.session_id,
    epoch := auth.session_epoch, message_id := message_id, membership_id := membership_id,
    ack_subject := ack_subject, stream_seq := stream_seq, event_dedup := dedup, handed_at := now,
    confirmed_at := none }

/-- `DO UPDATE SET …` of a repeated one. A hand-out from Postgres leaves what the
broker offered it on alone. -/
def handed_again (now : ℕ) (auth : AuthCtx) (offer : Option (String × ℕ)) (d : InboxDelivery) :
    InboxDelivery :=
  { d with
    ack_subject := (offer.map fun o => o.1).getD d.ack_subject
    stream_seq := (offer.map fun o => some o.2).getD d.stream_seq
    session_id := auth.session_id, epoch := auth.session_epoch, handed_at := now }

/-- `INSERT INTO inbox_deliveries … ON CONFLICT … DO UPDATE … WHERE COALESCE(
EXCLUDED.epoch, 0) >= COALESCE(inbox_deliveries.epoch, 0) RETURNING id`. -/
def place (now : ℕ) (auth : AuthCtx) (key : String) (message_id : Uuid) (membership_id : Option Uuid)
    (dedup : String) (offer : Option (String × ℕ)) (db : Db) : Option Uuid × Db :=
  match one (out_as key message_id dedup) db.inbox_deliveries with
  | none =>
    let id := fresh_id (db.inbox_deliveries.map fun d => d.id)
    (some id, { db with
      inbox_deliveries := insert_into
        (delivery_row now auth key message_id membership_id dedup
          ((offer.map fun o => o.1).getD "") (offer.map fun o => o.2) id) db.inbox_deliveries })
  | some d =>
    if d.epoch.getD 0 ≤ auth.session_epoch.getD 0 then
      (some d.id, { db with
        inbox_deliveries := update (out_as key message_id dedup) (handed_again now auth offer)
          db.inbox_deliveries })
    else (none, db)

/-! ### From the broker -/

/-- The caller's active seat among a message's recipients. -/
def recipient_seat (auth : AuthCtx) (message_id : Uuid) (db : Db) : Option Uuid := do
  let r ← one (fun r => r.message_id == message_id &&
    db.conversation_memberships.any fun m => m.id == r.membership_id &&
      m.agent_id == auth.agent_id && m.session == auth.session && m.state == .active)
    db.message_recipients
  pure r.membership_id

/-- The message a reference names, and its sender's name. -/
def named_message (message_id : Uuid) (db : Db) : Option (ConversationMessage × String) := do
  let m ← one (fun m => m.id == message_id && m.deleted_at.isNone) db.conversation_messages
  let ag ← one (fun a => a.id == m.sender_agent) db.agents
  pure (m, ag.name)

/-- `record_broker_reference`. No reference means: acknowledge it. -/
def record_broker_reference (now : ℕ) (auth : AuthCtx) (key : String) (r : InboxRef) (db : Db) :
    BusResult (Option InboxReference × Db) := do
  let payload ← Error.fetch r.payload
    (.Invalid "the broker held a reference this build cannot read")
  let message_id ← Error.fetch payload.message_id (.Invalid "a reference without a message id")
  let dedup := payload.dedup.getD ""
  if db.inbox_deliveries.any fun d => d.recipient_key == key && d.message_id == message_id &&
      d.event_dedup == dedup && d.confirmed_at.isSome then pure (none, db)
  else
    match named_message message_id db with
    | none => pure (none, db)
    | some (m, sender) => do
      let c ← Error.fetch (one (fun c => c.id == m.conversation_id) db.conversations)
        (.Db "no rows returned")
      let membership := recipient_seat auth message_id db
      if !open_to auth.agent_id db c || (membership.isNone && dedup.isEmpty) then pure (none, db)
      else
        let (delivery, db') := place now auth key message_id membership dedup
          (some (r.ack_subject, r.stream_seq)) db
        pure (delivery.map (reference_to m sender "broker" (payload.kind.getD "message")
          (1 < r.deliveries)), db')

/-- The references the broker answered with, one by one: those that were handed
out, and the subjects of those to acknowledge. -/
def record_all (now : ℕ) (auth : AuthCtx) (key : String) :
    List InboxRef → Db → BusResult (List InboxReference × List String × Db)
  | [], db => pure ([], [], db)
  | r :: rs, db => do
    let (o, db') ← record_broker_reference now auth key r db
    let (refs, acks, db'') ← record_all now auth key rs db'
    match o with
    | some x => pure (x :: refs, acks, db'')
    | none => pure (refs, r.ack_subject :: acks, db'')

/-- `broker_unreadable_note`. -/
def broker_unreadable_note : String :=
  "The broker could not be read, so these references come from the bus's own records, which are " ++
    "the authority: this page is complete and nothing is missing from it. There is nothing for " ++
    "you to do about it and nothing to retry for it; an operator has the detail. Pagination is " ++
    "unaffected: if `more` is true, call again for the next page."

/-- The note of a team that is not routed to a broker. -/
def bus_records_note : String :=
  "These references come from the bus's own records, which are the authority for this team. " ++
    "Nothing is pushed to you: wait_for_conversation_updates is how you hear about new ones " ++
    "without polling."

/-- The broker's part of a fetch. `answer` is what `fetch_references` answers. -/
def consult (now : ℕ) (b : Backends) (answer : BusResult (List InboxRef)) (auth : AuthCtx)
    (key : String) (limit : ℕ) (db : Db) :
    BusResult (List InboxReference × List Call × Option String × Db) :=
  match for_team b auth.team_id db with
  | .ok (.JetStream team) =>
    match answer with
    | .ok rs => do
      let (refs, acks, db') ← record_all now auth key rs db
      pure (refs, .fetch_references team key limit ::
        (acks.filter fun s => !s.isEmpty).map (.ack_reference team), none, db')
    | .error _ => pure ([], [.fetch_references team key limit], some broker_unreadable_note, db)
  | .ok .Postgres => pure ([], [], some bus_records_note, db)
  | .error _ => pure ([], [], some broker_unreadable_note, db)

/-! ### From Postgres -/

/-- A row of `reconcile_from_postgres`. -/
structure OwedMessage where
  membership_id : Uuid
  message : ConversationMessage
  sender : String
  deriving DecidableEq, Repr

/-- A row of `reconcile_receipt_events`. -/
structure OwedReceipt where
  event : InboxEvent
  message : ConversationMessage
  sender : String
  deriving DecidableEq, Repr

/-- `handed_at > now() - interval '5 minutes'`. -/
def just_handed (now : ℕ) (d : InboxDelivery) : Bool := now < d.handed_at + GRACE

/-- What a receipt is about: its seat, its message, the thread and the sender. -/
def receipt_join (db : Db) (r : MessageReceipt) :
    Option (ConversationMembership × ConversationMessage × Conversation × Agent) := do
  let cm ← one (fun m => m.id == r.membership_id) db.conversation_memberships
  let m ← one (fun m => m.id == r.message_id) db.conversation_messages
  let c ← one (fun c => c.id == m.conversation_id) db.conversations
  let ag ← one (fun a => a.id == m.sender_agent) db.agents
  pure (cm, m, c, ag)

/-- The `WHERE` clause of `reconcile_from_postgres`, but for the grace period. -/
def undelivered (auth : AuthCtx) (db : Db) (r : MessageReceipt) (cm : ConversationMembership)
    (m : ConversationMessage) (c : Conversation) : Bool :=
  cm.agent_id == auth.agent_id && cm.session == auth.session && cm.state == .active &&
    r.delivered_at.isNone && open_to cm.agent_id db c && m.deleted_at.isNone &&
    m.publication_state == .stored

/-- A hand-out of this message is in flight. -/
def message_in_flight (now : ℕ) (key : String) (message_id : Uuid) (db : Db) : Bool :=
  db.inbox_deliveries.any fun d => d.recipient_key == key && d.message_id == message_id &&
    d.confirmed_at.isNone && just_handed now d

/-- The rows of `reconcile_from_postgres`, in order. -/
def owed_messages (now : ℕ) (auth : AuthCtx) (key : String) (db : Db) : List OwedMessage :=
  select (fun o => !message_in_flight now key o.message.id db) (fun o => o.message.created_at)
    (db.message_receipts.filterMap fun r => do
      let (cm, m, c, ag) ← receipt_join db r
      if undelivered auth db r cm m c then some ⟨r.membership_id, m, ag.name⟩ else none)

/-- What an event is about. -/
def event_join (db : Db) (e : InboxEvent) : Option (ConversationMessage × Conversation × Agent) := do
  let m ← one (fun m => m.id == e.message_id) db.conversation_messages
  let c ← one (fun c => c.id == m.conversation_id) db.conversations
  let ag ← one (fun a => a.id == m.sender_agent) db.agents
  pure (m, c, ag)

/-- The `WHERE` clause of `reconcile_receipt_events`, but for the deliveries. -/
def collectable (auth : AuthCtx) (key : String) (db : Db) (e : InboxEvent) (m : ConversationMessage)
    (c : Conversation) : Bool :=
  e.recipient_key == key && e.kind == .receipt && e.state == .published && m.deleted_at.isNone &&
    open_to auth.agent_id db c

/-- This notification is confirmed, or a hand-out of it is in flight. -/
def receipt_in_flight (now : ℕ) (key : String) (message_id : Uuid) (dedup : String) (db : Db) : Bool :=
  db.inbox_deliveries.any fun d => d.recipient_key == key && d.message_id == message_id &&
    d.event_dedup == dedup && (d.confirmed_at.isSome || just_handed now d)

/-- The rows of `reconcile_receipt_events`, in order. -/
def owed_receipts (now : ℕ) (auth : AuthCtx) (key : String) (db : Db) : List OwedReceipt :=
  select (fun o => !receipt_in_flight now key o.event.message_id o.event.dedup db)
    (fun o => o.event.created_at)
    (db.inbox_events.filterMap fun e => do
      let (m, c, ag) ← event_join db e
      if collectable auth key db e m c then some ⟨e, m, ag.name⟩ else none)

/-- `hand_out_message`, and the same insert of a receipt: only into a thread the
caller still has. -/
def hand_out (now : ℕ) (auth : AuthCtx) (key : String) (message_id : Uuid)
    (membership_id : Option Uuid) (dedup : String) (conversation_id : Uuid) (db : Db) :
    Option Uuid × Db :=
  if db.conversations.any fun c => c.id == conversation_id && open_to auth.agent_id db c then
    place now auth key message_id membership_id dedup none db
  else (none, db)

/-- The rows of a query, handed out one by one: what was placed is offered. -/
def hand_out_all {ρ : Type} (offer : ρ → Db → Option Uuid × Db) (reference : ρ → Uuid → InboxReference) :
    List ρ → Db → List InboxReference × Db
  | [], db => ([], db)
  | x :: xs, db =>
    let (delivery, db') := offer x db
    let (refs, db'') := hand_out_all offer reference xs db'
    (match delivery with
      | some id => reference x id :: refs
      | none => refs, db'')

/-- `hand_out_message`. -/
def hand_out_message (now : ℕ) (auth : AuthCtx) (key : String) (o : OwedMessage) (db : Db) :
    Option Uuid × Db :=
  hand_out now auth key o.message.id (some o.membership_id) "" o.message.conversation_id db

/-- `reconcile_from_postgres`. -/
def reconcile_from_postgres (now : ℕ) (auth : AuthCtx) (key : String) (limit : ℕ) (db : Db) :
    List InboxReference × Db :=
  hand_out_all (hand_out_message now auth key)
    (fun o => reference_to o.message o.sender "bus" "message" false)
    ((owed_messages now auth key db).take limit) db

/-- The insert of `reconcile_receipt_events`. -/
def hand_out_receipt (now : ℕ) (auth : AuthCtx) (key : String) (o : OwedReceipt) (db : Db) :
    Option Uuid × Db :=
  hand_out now auth key o.event.message_id none o.event.dedup o.message.conversation_id db

/-- `reconcile_receipt_events`. -/
def reconcile_receipt_events (now : ℕ) (auth : AuthCtx) (key : String) (limit : ℕ) (db : Db) :
    List InboxReference × Db :=
  hand_out_all (hand_out_receipt now auth key)
    (fun o => reference_to o.message o.sender "bus" "receipt" false)
    ((owed_receipts now auth key db).take limit) db

/-- `fetch`, with what it asked of the broker. -/
def fetch (now : ℕ) (seen : Db) (b : Backends) (answer : BusResult (List InboxRef)) (auth : AuthCtx)
    (limit : Option ℤ) (db : Db) : BusResult (InboxBatch × List Call × Db) := do
  require_capability auth seen
  require_window auth seen
  guard now auth db
  let limit := batch_size limit
  let key := caller_key auth
  let (refs, asked, note, db₁) ← consult now b answer auth key limit db
  let (messages, db₂) :=
    if refs.length < limit then reconcile_from_postgres now auth key (limit - refs.length) db₁
    else ([], db₁)
  let refs' := refs ++ messages
  let (receipts, db₃) :=
    if refs'.length < limit then reconcile_receipt_events now auth key (limit - refs'.length) db₂
    else ([], db₂)
  let references := refs' ++ receipts
  pure (⟨references, refs.length, decide (limit ≤ references.length), note⟩, asked, db₃)

/-! ## Confirming -/

/-- `Confirmed`. -/
structure Confirmed where
  confirmed : List Uuid
  already_confirmed : List Uuid
  deriving DecidableEq, Repr

/-- The caller's own deliveries among `ids`. -/
def is_own (auth : AuthCtx) (ids : List Uuid) (d : InboxDelivery) : Bool :=
  ids.contains d.id && d.recipient_key == caller_key auth && d.team_id == auth.team_id

/-- The `WHERE` clause of a confirmation. -/
def confirmable (auth : AuthCtx) (ids : List Uuid) (d : InboxDelivery) : Bool :=
  is_own auth ids d && d.confirmed_at.isNone &&
    (d.epoch.isNone || auth.session_epoch.isNone || d.epoch == auth.session_epoch) &&
    (d.session_id.isNone || auth.session_id.isSome)

/-- `confirm`. `none` is an id that does not parse. -/
def confirm (now : ℕ) (seen : Db) (b : Backends) (auth : AuthCtx) (delivery_ids : List (Option Uuid))
    (db : Db) : BusResult (Confirmed × List Call × Db) := do
  require_capability auth seen
  require_window auth seen
  ensure (delivery_ids ≠ []) (.Invalid
    "nothing to confirm: pass the delivery_id of each reference you hold")
  let ids ← delivery_ids.mapM fun i => Error.fetch i
    (.Invalid "delivery_id must be an id the bus returned")
  guard now auth db
  let rows := db.inbox_deliveries.filter (confirmable auth ids)
  let confirmed := rows.map fun d => d.id
  let already := ((db.inbox_deliveries.filter fun d => is_own auth ids d &&
    d.confirmed_at.isSome).map fun d => d.id).filter fun id => !confirmed.contains id
  let asked := match named b .jetstream auth.team_id with
    | .ok (.JetStream team) =>
      (rows.filter fun d => !d.ack_subject.isEmpty).map fun d => .ack_reference team d.ack_subject
    | _ => []
  pure (⟨confirmed, already⟩, asked, { db with
    inbox_deliveries := update (confirmable auth ids) (fun d => { d with confirmed_at := some now })
      db.inbox_deliveries
    message_receipts := update
      (fun r => rows.any fun d => d.membership_id == some r.membership_id && d.message_id == r.message_id)
      (fun r => { r with delivered_at := some (r.delivered_at.getD now) }) db.message_receipts })

/-! ## What a fetch writes -/

/-- Only deliveries were written. -/
def Delivers (db db' : Db) : Prop := ∃ l, db' = { db with inbox_deliveries := l }

/-- A database that was left alone. -/
theorem Delivers.refl (db : Db) : Delivers db db := ⟨db.inbox_deliveries, rfl⟩

/-- One delivery after another. -/
theorem Delivers.trans {a b c : Db} (h : Delivers a b) (h' : Delivers b c) : Delivers a c := by
  obtain ⟨l, rfl⟩ := h
  obtain ⟨l', rfl⟩ := h'
  exact ⟨l', rfl⟩

section Writes

variable {now : ℕ} {auth : AuthCtx} {key : String} {db db' : Db} {b : Backends} {answer : BusResult (List InboxRef)}
  {asked : List Call}

/-- Handing out leaves the seats. -/
theorem Delivers.seats (h : Delivers db db') :
    db'.conversation_memberships = db.conversation_memberships := by
  obtain ⟨l, rfl⟩ := h
  rfl

/-- And the receipts. -/
theorem Delivers.receipts (h : Delivers db db') : db'.message_receipts = db.message_receipts := by
  obtain ⟨l, rfl⟩ := h
  rfl

/-- Placing a delivery writes `inbox_deliveries` alone. -/
theorem place_delivers (message_id : Uuid) (membership_id : Option Uuid) (dedup : String)
    (offer : Option (String × ℕ)) (db : Db) :
    Delivers db (place now auth key message_id membership_id dedup offer db).2 := by
  unfold place
  split
  · exact ⟨_, rfl⟩
  · split
    · exact ⟨_, rfl⟩
    · exact Delivers.refl db

/-- So does recording what the broker offers. -/
theorem record_broker_reference_delivers {r : InboxRef} {o : Option InboxReference}
    (h : record_broker_reference now auth key r db = .ok (o, db')) : Delivers db db' := by
  simp only [record_broker_reference, bind_eq_ok, fetch_eq_ok] at h
  obtain ⟨payload, -, message_id, -, h⟩ := h
  split at h
  · simp only [pure_eq_ok, Prod.mk.injEq] at h
    rw [← h.2]
    exact Delivers.refl db
  split at h
  · simp only [pure_eq_ok, Prod.mk.injEq] at h
    rw [← h.2]
    exact Delivers.refl db
  simp only [bind_eq_ok, fetch_eq_ok] at h
  obtain ⟨c, -, h⟩ := h
  split at h
  · simp only [pure_eq_ok, Prod.mk.injEq] at h
    rw [← h.2]
    exact Delivers.refl db
  · simp only [pure_eq_ok, Prod.mk.injEq] at h
    rw [← h.2]
    exact place_delivers _ _ _ _ db

/-- Or all of it. -/
theorem record_all_delivers {rs : List InboxRef} : ∀ {db db' : Db} {refs : List InboxReference}
    {acks : List String}, record_all now auth key rs db = .ok (refs, acks, db') → Delivers db db' := by
  induction rs with
  | nil =>
    intro db db' refs acks h
    simp only [record_all, pure_eq_ok, Prod.mk.injEq] at h
    rw [← h.2.2]
    exact Delivers.refl db
  | cons r rs ih =>
    intro db db' refs acks h
    simp only [record_all, bind_eq_ok] at h
    obtain ⟨⟨o, db₁⟩, h1, ⟨refs₁, acks₁, db₂⟩, h2, h⟩ := h
    have hdel := (record_broker_reference_delivers h1).trans (ih h2)
    cases o with
    | none | some x =>
      simp only [pure_eq_ok, Prod.mk.injEq] at h
      rw [← h.2.2]
      exact hdel

/-- So does asking the broker for more. -/
theorem consult_delivers {limit : ℕ} {refs : List InboxReference} {note : Option String}
    (h : consult now b answer auth key limit db = .ok (refs, asked, note, db')) : Delivers db db' := by
  unfold consult at h
  split at h
  · split at h
    · simp only [bind_eq_ok, pure_eq_ok, Prod.mk.injEq] at h
      obtain ⟨⟨refs₁, acks, db₁⟩, h1, -, -, -, rfl⟩ := h
      exact record_all_delivers h1
    · simp only [pure_eq_ok, Prod.mk.injEq] at h
      rw [← h.2.2.2]
      exact Delivers.refl db
  · simp only [pure_eq_ok, Prod.mk.injEq] at h
    rw [← h.2.2.2]
    exact Delivers.refl db
  · simp only [pure_eq_ok, Prod.mk.injEq] at h
    rw [← h.2.2.2]
    exact Delivers.refl db

/-- So does handing one out from Postgres. -/
theorem hand_out_delivers (message_id : Uuid) (membership_id : Option Uuid) (dedup : String)
    (conversation_id : Uuid) (db : Db) :
    Delivers db (hand_out now auth key message_id membership_id dedup conversation_id db).2 := by
  unfold hand_out
  split
  · exact place_delivers _ _ _ _ db
  · exact Delivers.refl db

/-- Or a list of them. -/
theorem hand_out_all_delivers {ρ : Type} {offer : ρ → Db → Option Uuid × Db}
    {reference : ρ → Uuid → InboxReference} (ho : ∀ x db, Delivers db (offer x db).2)
    (l : List ρ) : ∀ db, Delivers db (hand_out_all offer reference l db).2 := by
  induction l with
  | nil => exact fun db => Delivers.refl db
  | cons x l ih => exact fun db => (ho x db).trans (ih (offer x db).2)

/-- A fetch writes deliveries, and nothing else. -/
theorem fetch_delivers {seen : Db} {limit : Option ℤ} {batch : InboxBatch}
    (h : fetch now seen b answer auth limit db = .ok (batch, asked, db')) : Delivers db db' := by
  simp only [fetch, bind_eq_ok] at h
  obtain ⟨_, -, _, -, _, -, ⟨refs, calls, note, db₁⟩, h1, h⟩ := h
  have hmessages : ∀ (c : Prop) [Decidable c] (n : ℕ) (d : Db), Delivers d
      (if c then reconcile_from_postgres now auth (caller_key auth) n d else ([], d)).2 := by
    intro c _ n d
    split
    · exact hand_out_all_delivers (fun o d => hand_out_delivers _ _ _ _ d) _ d
    · exact Delivers.refl d
  have hreceipts : ∀ (c : Prop) [Decidable c] (n : ℕ) (d : Db), Delivers d
      (if c then reconcile_receipt_events now auth (caller_key auth) n d else ([], d)).2 := by
    intro c _ n d
    split
    · exact hand_out_all_delivers (fun o d => hand_out_delivers _ _ _ _ d) _ d
    · exact Delivers.refl d
  simp only [pure_eq_ok, Prod.mk.injEq] at h
  rw [← h.2.2]
  exact ((consult_delivers h1).trans (hmessages _ _ db₁)).trans (hreceipts _ _ _)

end Writes

end CrewSync.Inbox
