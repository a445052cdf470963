/-
`store/outbox.rs`: accept now, publish later.

A message of a thread on a broker is committed with a **slot** in
`conversation_outbox`. A worker leases the slot, which raises its generation;
publishes with nothing held; and settles, fenced by the generation its lease was
taken at. Each function here is one transaction, read at its commit; `now` is when
it began.

Four fences are in use, and they are not the same. `lease` and `lease_one` look at
the state and the lease's expiry; `settle` at the generation and the expiry;
`release`, `unlease` and `mark_uncertain` at the generation alone.

`status` is left out, which only counts, and so is `set_publication`, which nothing
but tests calls.
-/
import CrewSync.Error
import CrewSync.References

set_option autoImplicit false

namespace CrewSync.Outbox

open Error Schema Rows References

/-- `LEASE_SECS`, `MAX_ATTEMPTS` and `MAX_PAYLOAD_BYTES`. -/
def LEASE_SECS : ℕ := 60

def MAX_ATTEMPTS : ℕ := 8

def MAX_PAYLOAD_BYTES : ℕ := 1048576

/-- `Lease`: a slot as it was when it was leased. -/
structure Lease where
  message_id : Uuid
  conversation_id : Uuid
  team_id : Uuid
  backend : Backend
  payload : String
  publish_key : Uuid
  generation : ℕ
  attempts : ℕ
  deriving DecidableEq, Repr

/-- `Published`: what came of one attempt. -/
inductive Published where
  | Confirmed (locator : Locator)
  | Retryable (why : String)
  | Fatal (why : String)
  deriving DecidableEq, Repr

/-- `Settled`. -/
inductive Settled where
  | Stored
  | Retrying (attempts : ℕ)
  | Failed
  | Fenced
  deriving DecidableEq, Repr

/-! ## Queueing -/

/-- The slot of a message, as it is queued. -/
def slot_row (now : ℕ) (message_id conversation_id team_id : Uuid) (backend : Backend)
    (payload : String) (publish_key : Uuid) : ConversationOutbox :=
  { message_id := message_id, conversation_id := conversation_id, team_id := team_id,
    backend := backend, payload := payload, payload_bytes := payload.utf8ByteSize,
    publish_key := publish_key, state := .pending, attempts := 0, generation := 0,
    leased_by := none, lease_expires_at := none, next_attempt_at := now, last_error := none,
    created_at := now, updated_at := now }

/-- `UPDATE conversation_messages SET publication_state = … WHERE id = …`. -/
def set_state (st : PublicationState) (message_id : Uuid) (t : List ConversationMessage) :
    List ConversationMessage :=
  update (fun m => m.id == message_id) (fun m => { m with publication_state := st }) t

/-- `enqueue`, inside the sending transaction. `publish_key` is `Uuid::new_v4()`. -/
def enqueue (now : ℕ) (message_id conversation_id team_id : Uuid) (backend : Backend)
    (payload : String) (publish_key : Uuid) (db : Db) : BusResult Db := do
  let bytes := payload.utf8ByteSize
  ensure (bytes ≤ MAX_PAYLOAD_BYTES) (.Invalid
    s!"message body is {bytes} bytes; the outbox holds at most {MAX_PAYLOAD_BYTES}")
  pure { db with
    conversation_outbox :=
      if db.conversation_outbox.any fun o => o.message_id == message_id then db.conversation_outbox
      else insert_into (slot_row now message_id conversation_id team_id backend payload publish_key)
        db.conversation_outbox
    conversation_messages := set_state .pending_publication message_id db.conversation_messages }

/-! ## Leasing -/

/-- `state IN ('pending', 'leased')`. -/
def in_flight (o : ConversationOutbox) : Bool := o.state == .pending || o.state == .leased

/-- `lease_expires_at IS NULL OR lease_expires_at < now()`. -/
def unheld (now : ℕ) (o : ConversationOutbox) : Bool := o.lease_expires_at.all fun t => t < now

/-- `SET state = 'leased', …`. `attempt` is 1 where the lease counts as one. -/
def leased_row (now : ℕ) (worker : String) (attempt : ℕ) (o : ConversationOutbox) :
    ConversationOutbox :=
  { o with
    state := .leased, leased_by := some worker, lease_expires_at := some (now + secs LEASE_SECS),
    generation := o.generation + 1, attempts := o.attempts + attempt, updated_at := now }

/-- `RETURNING …`. -/
def lease_of (o : ConversationOutbox) : Lease :=
  ⟨o.message_id, o.conversation_id, o.team_id, o.backend, o.payload, o.publish_key, o.generation,
    o.attempts⟩

/-- `ORDER BY next_attempt_at, created_at`. -/
def before (a b : ConversationOutbox) : Prop :=
  a.next_attempt_at < b.next_attempt_at ∨
    a.next_attempt_at = b.next_attempt_at ∧ a.created_at ≤ b.created_at

instance (a b : ConversationOutbox) : Decidable (before a b) :=
  inferInstanceAs (Decidable (_ ∨ _))

/-- What `lease` picks from. `locked` says which slots another transaction holds
at that moment: they are skipped. -/
def due (now : ℕ) (locked : Uuid → Bool) (o : ConversationOutbox) : Bool :=
  in_flight o && o.next_attempt_at ≤ now && unheld now o && !locked o.message_id

/-- `lease`. -/
def lease (now : ℕ) (worker : String) (locked : Uuid → Bool) (db : Db) : Option (Lease × Db) := do
  let o ← ((db.conversation_outbox.filter (due now locked)).insertionSort before).head?
  pure (lease_of (leased_row now worker 1 o), { db with
    conversation_outbox := update (fun x => x.message_id == o.message_id) (leased_row now worker 1)
      db.conversation_outbox })

/-- The slot `lease_one` takes. -/
def takeable (now : ℕ) (message_id : Uuid) (o : ConversationOutbox) : Bool :=
  o.message_id == message_id && in_flight o && unheld now o

/-- `lease_one`, which does not count an attempt. -/
def lease_one (now : ℕ) (worker : String) (message_id : Uuid) (db : Db) : Option (Lease × Db) := do
  let o ← one (takeable now message_id) db.conversation_outbox
  pure (lease_of (leased_row now worker 0 o), { db with
    conversation_outbox := update (takeable now message_id) (leased_row now worker 0)
      db.conversation_outbox })

/-! ## Settling -/

/-- `WHERE message_id = $1 AND generation = $2 AND lease_expires_at IS NOT NULL AND
lease_expires_at > now()`. -/
def holds (now : ℕ) (l : Lease) (o : ConversationOutbox) : Bool :=
  o.message_id == l.message_id && o.generation == l.generation &&
    o.lease_expires_at.any fun t => now < t

/-- `WHERE message_id = $1 AND generation = $2`. -/
def at_generation (l : Lease) (o : ConversationOutbox) : Bool :=
  o.message_id == l.message_id && o.generation == l.generation

/-- The slot without its holder. -/
def let_go (now : ℕ) (o : ConversationOutbox) : ConversationOutbox :=
  { o with leased_by := none, lease_expires_at := none, updated_at := now }

/-- `SET …` of an attempt that may be made again: `state` says whether it will. -/
def retried_row (now : ℕ) (state : SlotState) (backoff : ℕ) (why : String) (o : ConversationOutbox) :
    ConversationOutbox :=
  { let_go now o with
    state := state, next_attempt_at := now + secs backoff, last_error := some why }

/-- `SET …` of an attempt that will not. -/
def failed_row (now : ℕ) (why : String) (o : ConversationOutbox) : ConversationOutbox :=
  { let_go now o with state := .failed, last_error := some why }

/-- `settle`. -/
def settle (now : ℕ) (l : Lease) (outcome : Published) (db : Db) : Settled × Db :=
  if db.conversation_outbox.any (holds now l) then
    match outcome with
    | .Confirmed locator =>
      (.Stored, enqueue_message_references now l.message_id { db with
        conversation_outbox := delete (holds now l) db.conversation_outbox
        conversation_messages := update (fun m => m.id == l.message_id)
          (fun m => { m with publication_state := .stored, canonical_locator := some locator })
          db.conversation_messages
        message_receipts := update (fun r => r.message_id == l.message_id)
          (fun r => { r with stored_at := some (r.stored_at.getD now) }) db.message_receipts })
    | .Retryable why =>
      let give_up := MAX_ATTEMPTS ≤ l.attempts
      let backoff := 1 <<< min l.attempts 6
      let slots := update (holds now l)
        (retried_row now (if give_up then .failed else .pending) backoff why) db.conversation_outbox
      if give_up then
        (.Failed, { db with
          conversation_outbox := slots
          conversation_messages := set_state .failed l.message_id db.conversation_messages })
      else (.Retrying l.attempts, { db with conversation_outbox := slots })
    | .Fatal why =>
      (.Failed, { db with
        conversation_outbox := update (holds now l) (failed_row now why) db.conversation_outbox
        conversation_messages := set_state .failed l.message_id db.conversation_messages })
  else (.Fenced, db)

/-- What `publish_leased` settles with: the attempt's outcome, or on the last
attempt what the backend says it holds after all. -/
def outcome_of (l : Lease) (published : Published) (reconciled : Option Locator) : Published :=
  match published, reconciled with
  | .Retryable why, some locator =>
    if MAX_ATTEMPTS ≤ l.attempts then .Confirmed locator else .Retryable why
  | _, _ => published

/-! ## Giving a slot back -/

/-- `SET …` of a release. -/
def released_row (now : ℕ) (why : String) (o : ConversationOutbox) : ConversationOutbox :=
  { let_go now o with state := .pending, attempts := o.attempts - 1, last_error := some why }

/-- `release`. -/
def release (now : ℕ) (l : Lease) (why : String) (db : Db) : Db :=
  { db with
    conversation_outbox := update (at_generation l) (released_row now why) db.conversation_outbox }

/-- `SET …` of what the reconciler puts back. -/
def unleased_row (now : ℕ) (o : ConversationOutbox) : ConversationOutbox :=
  { let_go now o with state := .pending }

/-- `unlease`. -/
def unlease (now : ℕ) (l : Lease) (db : Db) : Db :=
  { db with
    conversation_outbox := update (at_generation l) (unleased_row now) db.conversation_outbox }

/-- `SET state = 'pending', …` of an attempt that did not answer. -/
def uncertain_row (now : ℕ) (why : String) (o : ConversationOutbox) : ConversationOutbox :=
  { let_go now o with
    state := .pending, next_attempt_at := now + secs 5, last_error := some why }

/-- `mark_uncertain`. -/
def mark_uncertain (now : ℕ) (l : Lease) (why : String) (db : Db) : Settled × Db :=
  if db.conversation_outbox.any (at_generation l) then
    (.Retrying l.attempts, { db with
      conversation_outbox := update (at_generation l) (uncertain_row now why) db.conversation_outbox
      conversation_messages := update (fun m => m.id == l.message_id)
        (fun m => { m with uncertain_at := some (m.uncertain_at.getD now) }) db.conversation_messages })
  else (.Fenced, db)

/-- The last statement of `resolve_uncertain`: what is stored is uncertain no
longer. -/
def clear_uncertain (team_id : Uuid) (db : Db) : Db :=
  { db with
    conversation_messages := update
      (fun m => m.uncertain_at.isSome && m.publication_state == .stored &&
        db.conversations.any fun c => c.id == m.conversation_id && c.team_id == team_id)
      (fun m => { m with uncertain_at := none }) db.conversation_messages }

end CrewSync.Outbox
