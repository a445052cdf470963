/-
`store/conversations.rs`: `ack`.

A window records its own observation of a message it was asked about. The receipt
it writes is that of the seat the caller was admitted through, looked up again by
its id: the update takes the row only while the seat is active. The sender of the
message is told to look again, in the same transaction.
-/
import CrewSync.Send
import CrewSync.References

set_option autoImplicit false

namespace CrewSync.Receipts

open Error Schema Rows Sessions
open Conversations References

/-- The receipt `ack` updates: of this message and this seat, while the seat is
active. -/
def is_asked (message_id membership_id : Uuid) (db : Db) (r : MessageReceipt) : Bool :=
  r.message_id == message_id && r.membership_id == membership_id &&
    db.conversation_memberships.any fun m => m.id == r.membership_id && m.state == .active

/-- `SET acknowledged_at = COALESCE(acknowledged_at, now()), …`. -/
def observed (now : ℕ) (resolved : Bool) (note : Option String) (r : MessageReceipt) :
    MessageReceipt :=
  { r with
    acknowledged_at := some (r.acknowledged_at.getD now)
    resolved_at := if resolved then some (r.resolved_at.getD now) else r.resolved_at
    note := note.or r.note }

/-- The note of an acknowledgement, if there is one. -/
def check_note (note : Option String) : BusResult (Option String) :=
  match note with
  | none => .ok none
  | some n => do
    let n ← Send.check_text "note" n 2000
    pure (some n)

/-- What the sender is told was observed. -/
def observation (resolved : Bool) : String := if resolved then "resolved" else "acknowledged"

/-- `ack`. Answers with the seat whose receipt it wrote. -/
def ack (now : ℕ) (seen : Db) (auth : AuthCtx) (message_id : Uuid) (resolved : Bool)
    (note : Option String) (db : Db) : BusResult (Uuid × Db) := do
  require_capability auth seen
  let m ← fetch (one (fun m => m.id == message_id) seen.conversation_messages)
    (.NotFound "no such message")
  let a ← readable auth m.conversation_id seen
  let mine ← fetch (a.membership.filter fun m => m.state == .active) (.Forbidden
    "only an active member of this conversation can acknowledge its messages")
  let note ← check_note note
  guard now auth db
  require_project_open auth m.conversation_id db
  ensure (db.message_receipts.any (is_asked message_id mine.id db)) (.Forbidden
    ("this message was not addressed to your window, so there is nothing for you to " ++
      "acknowledge. You can read it, which is not the same observation."))
  pure (mine.id, enqueue_receipt_reference now message_id mine.id (observation resolved)
    { db with
      message_receipts := update (is_asked message_id mine.id db) (observed now resolved note)
        db.message_receipts })

section Specs

variable {now : ℕ} {seen db db' : Db} {auth : AuthCtx} {message_id k : Uuid} {resolved : Bool}
  {note : Option String}

/-- A note to the sender is all that is queued. -/
theorem enqueue_receipt_reference_eq (now : ℕ) (message_id membership_id : Uuid) (what : String) (db : Db) :
    ∃ events, enqueue_receipt_reference now message_id membership_id what db =
      { db with inbox_events := events } := by
  unfold enqueue_receipt_reference
  simp only
  split
  · exact ⟨db.inbox_events, rfl⟩
  · exact ⟨_, rfl⟩

/-- An acknowledgement writes the receipt of the seat the caller was let in by. -/
theorem ack_ok (h : ack now seen auth message_id resolved note db = .ok (k, db')) :
    ∃ m a mine text events, one (fun m => m.id == message_id) seen.conversation_messages = some m ∧
      readable auth m.conversation_id seen = .ok a ∧ a.membership = some mine ∧
      mine.state = .active ∧ k = mine.id ∧ guard now auth db = .ok () ∧
      require_project_open auth m.conversation_id db = .ok () ∧
      db.message_receipts.any (is_asked message_id mine.id db) = true ∧
      db' = { db with
        message_receipts := update (is_asked message_id mine.id db) (observed now resolved text)
          db.message_receipts
        inbox_events := events } := by
  simp only [ack, bind_eq_ok, ensure_eq_ok, fetch_eq_ok, pure_eq_ok, Prod.mk.injEq] at h
  obtain ⟨_, -, m, hm, a, ha, mine, hmine, text, -, _, hguard, _, hopen, _, hasked, rfl, hdb⟩ := h
  obtain ⟨hmem, hactive⟩ := Option.filter_eq_some_iff.mp hmine
  obtain ⟨events, hevents⟩ := enqueue_receipt_reference_eq now message_id mine.id
    (observation resolved) { db with
      message_receipts := update (is_asked message_id mine.id db) (observed now resolved text)
        db.message_receipts }
  refine ⟨m, a, mine, text, events, hm, ha, hmem, by simpa using hactive, rfl, hguard, hopen,
    hasked, ?_⟩
  rw [← hdb, hevents]

end Specs

end CrewSync.Receipts
