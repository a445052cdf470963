/-
`store/outbox.rs`: `release_published_bodies` and `tombstone`; and the part of
`store/conversations.rs` that decides about a tombstone.

The sweep drops the local body of a message its broker confirms it holds. It reads
pages of candidates, asks the broker about each of them with nothing held, and at the
end clears what was confirmed, with most of the predicate read again. It is a process,
like a move: what it has read may be out of date when it clears.

A reader that is told by a broker that a body is gone leaves a mark on the message,
in a statement of its own.
-/
import CrewSync.History
import CrewSync.Migrate

set_option autoImplicit false

namespace CrewSync.Release

open Error Schema Rows History Migrate

/-- `RELEASE_BATCH`, `SCAN_LIMIT` and `PAGE`. -/
def RELEASE_BATCH : ℕ := 200

def SCAN_LIMIT : ℕ := 1000

def PAGE : ℕ := 200

/-- A move touches the message: one that is open, or one that was cut over. -/
def in_a_move (db : Db) (m : ConversationMessage) : Bool :=
  db.conversation_migration_items.any fun i => i.message_id == m.id &&
    db.conversation_migrations.any fun g => g.id == i.migration_id &&
      (is_open g || g.state == .cut_over)

/-- What the page and the last statement of a sweep both ask of a message, but for its
digest and its age. -/
def is_releasable (db : Db) (m : ConversationMessage) (c : Conversation) : Bool :=
  c.id == m.conversation_id && c.backend != .postgres && m.publication_state == .stored &&
    m.canonical_locator.isSome && m.body != "" && !in_a_move db m

/-- A row of a page. -/
structure Candidate where
  message_id : Uuid
  team_id : Uuid
  backend : Backend
  locator : Locator
  digest : String
  created_at : ℕ
  deriving DecidableEq, Repr

/-- The message as a candidate, if it is one. -/
def candidate (db : Db) (m : ConversationMessage) : Option Candidate := do
  let c ← one (is_releasable db m) db.conversations
  let locator ← m.canonical_locator
  let digest ← m.body_sha256
  pure ⟨m.id, c.team_id, c.backend, locator, digest, m.created_at⟩

/-- `ORDER BY m.created_at, m.id`. -/
def earlier (a b : Candidate) : Prop :=
  a.created_at < b.created_at ∨ a.created_at = b.created_at ∧ a.message_id ≤ b.message_id

instance (a b : Candidate) : Decidable (earlier a b) := inferInstanceAs (Decidable (_ ∨ _))

/-- A sweep under way. -/
structure Sweep where
  conversation : Option Uuid
  min_age_secs : ℤ
  cursor : Option (ℕ × Uuid)
  examined : ℕ
  confirmed : List Uuid
  unusable : List (Backend × Uuid)
  page : List Candidate
  /-- It has left the scan. -/
  scanned : Bool
  deriving DecidableEq, Repr

/-- The sweep, before its first page. -/
def Sweep.new (conversation : Option Uuid) (min_age_secs : ℤ) : Sweep :=
  ⟨conversation, min_age_secs, none, 0, [], [], [], false⟩

/-- `(m.created_at, m.id) > cursor`. -/
def after_cursor (cursor : Option (ℕ × Uuid)) (m : ConversationMessage) : Bool :=
  cursor.all fun k => k.1 < m.created_at || (k.1 == m.created_at && k.2 < m.id)

/-- The rows a page is taken from. -/
def in_scope (now : ℕ) (s : Sweep) (m : ConversationMessage) : Bool :=
  (s.conversation.all fun id => m.conversation_id == id) &&
    decide ((m.created_at : ℤ) + 1000000 * s.min_age_secs ≤ now) && after_cursor s.cursor m

/-- The next page. -/
def page (now : ℕ) (s : Sweep) (db : Db) : List Candidate :=
  (((db.conversation_messages.filter (in_scope now s)).filterMap (candidate db)).insertionSort
    earlier).take PAGE

/-- Whether the loop goes on. -/
def Sweep.scanning (s : Sweep) : Bool :=
  !s.scanned && s.examined < SCAN_LIMIT && s.confirmed.length < RELEASE_BATCH

/-- A page is read. -/
def scan (now : ℕ) (db : Db) (s : Sweep) : Option Sweep :=
  if s.page.isEmpty && s.scanning then
    let rows := page now s db
    some { s with page := rows, scanned := rows.isEmpty }
  else none

/-- The candidate at hand is done with, and with it perhaps the scan. -/
def Sweep.next (s : Sweep) : Sweep :=
  if RELEASE_BATCH ≤ s.confirmed.length ∨ SCAN_LIMIT ≤ s.examined then
    { s with page := [], scanned := true }
  else s

variable (sha256 : String → String)

/-- The candidate at hand, with what its backend answers. A backend that failed is not
asked again in this pass. -/
def told (f : Fetched) (s : Sweep) : Option Sweep :=
  match s.page with
  | [] => none
  | c :: rows =>
    let s := { s with
      cursor := some (c.created_at, c.message_id), examined := s.examined + 1, page := rows }
    if s.unusable.contains (c.backend, c.team_id) then some s
    else
      match f with
      | .unopened => some { s with unusable := (c.backend, c.team_id) :: s.unusable }
      | .unreadable => some ({ s with unusable := (c.backend, c.team_id) :: s.unusable }).next
      | .gone => some s.next
      | .found body =>
        if sha256 body = c.digest then some ({ s with confirmed := s.confirmed ++ [c.message_id] }).next
        else some s.next

/-- The rows the last statement clears. -/
def is_cleared (confirmed : List Uuid) (db : Db) (m : ConversationMessage) : Bool :=
  confirmed.contains m.id && db.conversations.any (is_releasable db m)

/-- The last statement. -/
def clear (s : Sweep) (db : Db) : Option Db :=
  if s.page.isEmpty && !s.scanning then
    some { db with
      conversation_messages := update (is_cleared s.confirmed db) (fun m => { m with body := "" })
        db.conversation_messages }
  else none

/-! ## Tombstones -/

/-- `outbox::tombstone`. -/
def tombstone (now : ℕ) (message_id : Uuid) (reason : String) (db : Db) : Db :=
  { db with
    conversation_messages := update (fun m => m.id == message_id)
      (fun m => { m with
        tombstoned_at := some (m.tombstoned_at.getD now), tombstone_reason := some reason })
      db.conversation_messages }

/-- Where `resolve_body` asks for the body, if it asks. -/
def asks (row : BodyRow) : Option Locator :=
  if row.tombstoned || row.backend == .postgres || row.body != "" || row.state != .stored then none
  else row.locator

/-- What a backend answered, as `resolve_body` sees it. -/
def fetched_of (r : BusResult (Option String)) : Fetched :=
  match r with
  | .error _ => .unreadable
  | .ok none => .gone
  | .ok (some body) => .found body

end CrewSync.Release
