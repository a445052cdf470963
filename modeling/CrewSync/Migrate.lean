/-
`store/migrate.rs`: moving one thread's bodies between backends, under supervision.

The first half is what a move does to the database, one transaction at a time:
open a run or join the one that is open, pause the thread, note and copy one body,
cut over, give up. The second half is the operator's process that runs them. It
holds no transaction from one to the next, and between two of them it may wait for
the broker, so what it has read may be out of date when it writes.

A process is a `Mover`: `statement` is the next statement it runs, `asks` what it
waits for from the broker, and `told` how it goes on with the answer. One that
crashes takes no further step; the same command run again is another mover.

Left out: `plan`, which only reports, and the figures a report shows.
-/
import CrewSync.Outbox

set_option autoImplicit false

namespace CrewSync.Migrate

open Error Schema Rows Outbox

/-! ## Directions and runs -/

/-- `Direction::target`. -/
def target : Direction → Backend
  | .to_jetstream => .jetstream
  | .to_postgres => .postgres

/-- `Direction::source`. -/
def source : Direction → Backend
  | .to_jetstream => .postgres
  | .to_postgres => .jetstream

/-- The name a backend is shown under. -/
def backend_text : Backend → String
  | .postgres => "postgres"
  | .jetstream => "jetstream"

/-- `state IN ('planned', 'copying', 'verified')`. -/
def is_open (g : ConversationMigration) : Bool :=
  g.state == .planned || g.state == .copying || g.state == .verified

/-- The run, while it is open. -/
def run_open (migration_id : Uuid) (db : Db) : Bool :=
  db.conversation_migrations.any fun g => g.id == migration_id && is_open g

/-- `SELECT … WHERE conversation_id = $1 AND state IN (…) ORDER BY started_at DESC LIMIT 1`. -/
def open_run_of (conversation_id : Uuid) (db : Db) : Option ConversationMigration :=
  (select (fun g => g.conversation_id == conversation_id && is_open g) (fun g => g.started_at)
    db.conversation_migrations).getLast?

/-- `SELECT id FROM conversations WHERE id = $1 FOR UPDATE`. -/
def thread_row (conversation_id : Uuid) (db : Db) : BusResult Conversation :=
  fetch (one (fun c => c.id == conversation_id) db.conversations) (.Db "no rows returned")

/-- The run, as it is inserted. -/
def migration_row (now : ℕ) (team_id conversation_id : Uuid) (direction : Direction) (id : Uuid) :
    ConversationMigration :=
  { id := id, team_id := team_id, conversation_id := conversation_id, direction := direction,
    state := .copying, messages := 0, bytes := 0, started_at := now, finished_at := none,
    last_error := none }

/-- `open_run`. `id` is the fresh `gen_random_uuid()` of an insert. -/
def open_run (now : ℕ) (team_id conversation_id : Uuid) (direction : Direction) (id : Uuid) (db : Db) :
    BusResult (Uuid × Db) := do
  let _ ← thread_row conversation_id db
  match open_run_of conversation_id db with
  | some g => do
    ensure (g.direction = direction) (.Conflict
      (s!"a move of this conversation to {backend_text (target g.direction)} is already open. Let " ++
        "it finish or fail before moving it the other way."))
    pure (g.id, db)
  | none => do
    ensure (db.conversation_migrations.all fun g => g.id != id) (.Db "duplicate key value: id")
    pure (id, { db with
      conversation_migrations :=
        insert_into (migration_row now team_id conversation_id direction id)
          db.conversation_migrations })

/-- The second transaction of `run`: sends are refused from here on. -/
def pause (now : ℕ) (conversation_id : Uuid) (db : Db) : BusResult Db := do
  let _ ← thread_row conversation_id db
  pure { db with
    conversations := update (fun c => c.id == conversation_id)
      (fun c => { c with write_paused_at := some now }) db.conversations }

/-! ## One body -/

/-- One row of the list a copy works through. -/
structure CopyRow where
  message_id : Uuid
  local_body : String
  locator : Option Locator
  backend : Backend
  deriving DecidableEq, Repr

/-- The columns of a message that are copied by. -/
def copy_row (m : ConversationMessage) : CopyRow :=
  ⟨m.id, m.body, m.canonical_locator, m.backend⟩

/-- `WHERE conversation_id = $1 AND deleted_at IS NULL AND tombstoned_at IS NULL`. -/
def is_copied (conversation_id : Uuid) (m : ConversationMessage) : Bool :=
  m.conversation_id == conversation_id && m.deleted_at.isNone && m.tombstoned_at.isNone

/-- The list a copy works through. -/
def copy_rows (conversation_id : Uuid) (db : Db) : List CopyRow :=
  (select (is_copied conversation_id) (fun m => m.seq) db.conversation_messages).map copy_row

/-- `WHERE migration_id = $1 AND message_id = $2`. -/
def is_item (migration_id message_id : Uuid) (i : ConversationMigrationItem) : Bool :=
  i.migration_id == migration_id && i.message_id == message_id

/-- One message's part in a run. -/
def item_of (migration_id message_id : Uuid) (db : Db) : Option ConversationMigrationItem :=
  one (is_item migration_id message_id) db.conversation_migration_items

variable (sha256 : String → String)

/-- `checksum`. -/
def checksum (body : String) : String := sha256 body

/-- The item, as it is inserted. -/
def item_row (migration_id message_id : Uuid) (body : String) : ConversationMigrationItem :=
  { migration_id := migration_id, message_id := message_id, checksum := checksum sha256 body,
    bytes := body.utf8ByteSize, target_locator := none, state := .planned, last_error := none }

/-- `INSERT … 'planned' ON CONFLICT … DO UPDATE SET checksum, bytes`. What state a
resumed item is in, and where it said its copy is, stay. -/
def plan_item (migration_id message_id : Uuid) (body : String) (db : Db) : Db :=
  { db with
    conversation_migration_items := upsert (is_item migration_id message_id)
      (fun i => { i with checksum := checksum sha256 body, bytes := body.utf8ByteSize })
      (item_row sha256 migration_id message_id body) db.conversation_migration_items }

/-- `UPDATE conversation_migration_items SET … WHERE migration_id = $1 AND message_id = $2`. -/
def set_item (migration_id message_id : Uuid)
    (f : ConversationMigrationItem → ConversationMigrationItem) (db : Db) : Db :=
  { db with
    conversation_migration_items := update (is_item migration_id message_id) f
      db.conversation_migration_items }

/-- `SET state = 'verified'`. -/
def verified_item (i : ConversationMigrationItem) : ConversationMigrationItem :=
  { i with state := .verified }

/-- `SET state = 'copied', target_locator = $3`. -/
def copied_item (l : Locator) (i : ConversationMigrationItem) : ConversationMigrationItem :=
  { i with state := .copied, target_locator := some l }

/-- `SET state = 'failed', last_error = 'checksum mismatch'`. -/
def mismatched_item (i : ConversationMigrationItem) : ConversationMigrationItem :=
  { i with state := .failed, last_error := some "checksum mismatch" }

/-- `UPDATE conversation_messages SET body = $2 WHERE id = $1`. -/
def write_back (message_id : Uuid) (body : String) (db : Db) : Db :=
  { db with
    conversation_messages := update (fun m => m.id == message_id)
      (fun m => { m with body := body }) db.conversation_messages }

/-- `PostgresBackend::fetch`, without a team. -/
def postgres_fetch (l : Locator) (message_id : Uuid) (db : Db) : BusResult (Option String) :=
  match l with
  | .jetstream _ _ => .error (.Invalid "not a locator this backend issued")
  | .postgres id => do
    ensure (id = message_id) (.Forbidden "that locator names another message")
    pure ((one (fun m => m.id == id && db.conversations.any fun c => c.id == m.conversation_id)
      db.conversation_messages).map fun m => m.body)

/-! ## Cutting over, and giving up -/

/-- The verified part of a message in a run. -/
def verified_part (migration_id : Uuid) (db : Db) (m : ConversationMessage) :
    Option ConversationMigrationItem :=
  one (fun i => i.migration_id == migration_id && i.state == .verified && i.message_id == m.id)
    db.conversation_migration_items

/-- The first `UPDATE` of a cutover: what is verified is authoritative at its target. -/
def moved (migration_id conversation_id : Uuid) (direction : Direction) (db : Db)
    (m : ConversationMessage) : ConversationMessage :=
  if m.conversation_id = conversation_id then
    match verified_part migration_id db m with
    | some i => { m with backend := target direction, canonical_locator := i.target_locator }
    | none => m
  else m

/-- The second, of a move to Postgres: the row is the storage again. -/
def settled_row (conversation_id : Uuid) (direction : Direction) (m : ConversationMessage) :
    ConversationMessage :=
  if direction = .to_postgres ∧ m.conversation_id = conversation_id ∧ m.backend = .postgres then
    { m with canonical_locator := none, publication_state := .stored }
  else m

/-- The third: the thread's routing, and the pause. -/
def routed (conversation_id : Uuid) (direction : Direction) (c : Conversation) : Conversation :=
  if c.id = conversation_id then
    { c with
      backend := target direction
      publication := if target direction = .postgres then .sync else .outbox
      write_paused_at := none }
  else c

/-- The fourth: `WHERE id = $1`, whatever state the run is in. -/
def finished (now : ℕ) (migration_id : Uuid) (copied bytes : ℕ) (g : ConversationMigration) :
    ConversationMigration :=
  if g.id = migration_id then
    { g with state := .cut_over, finished_at := some now, messages := copied, bytes := bytes }
  else g

/-- The cutover, the last transaction of `copy_and_verify`. -/
def cutover (now : ℕ) (migration_id conversation_id : Uuid) (direction : Direction)
    (copied bytes : ℕ) (db : Db) : BusResult Db := do
  let _ ← thread_row conversation_id db
  pure { db with
    conversation_messages := db.conversation_messages.map fun m =>
      settled_row conversation_id direction (moved migration_id conversation_id direction db m)
    conversations := db.conversations.map (routed conversation_id direction)
    conversation_migrations := db.conversation_migrations.map (finished now migration_id copied bytes) }

/-- `SET state = 'failed', finished_at = now(), last_error = $2`. -/
def given_up (now : ℕ) (why : String) (g : ConversationMigration) : ConversationMigration :=
  { g with state := .failed, finished_at := some now, last_error := some why }

/-- The written-back copies an `abort` clears: those that were never verified. -/
def is_unverified_copy (migration_id : Uuid) (db : Db) (m : ConversationMessage) : Bool :=
  m.backend != .postgres && db.conversation_migration_items.any fun i =>
    i.migration_id == migration_id && i.message_id == m.id && i.state != .verified

/-- `abort`. A run that is not open any more is left alone. -/
def abort (now : ℕ) (migration_id : Uuid) (why : String) (db : Db) : Db :=
  match one (fun g => g.id == migration_id && is_open g) db.conversation_migrations with
  | none => db
  | some g =>
    let runs := update (fun x => x.id == migration_id && is_open x) (given_up now why)
      db.conversation_migrations
    { db with
      conversation_migrations := runs
      conversation_messages :=
        if g.direction = .to_postgres then
          update (is_unverified_copy migration_id db) (fun m => { m with body := "" })
            db.conversation_messages
        else db.conversation_messages
      conversations := update
        (fun c => c.id == g.conversation_id &&
          !runs.any fun x => x.conversation_id == c.id && is_open x)
        (fun c => { c with write_paused_at := none }) db.conversations }

/-! ## Dropping source copies -/

/-- The last move of a thread that was cut over: `ORDER BY finished_at DESC LIMIT 1`. -/
def last_move (conversation_id : Uuid) (db : Db) : Option ConversationMigration :=
  (select (fun g => g.conversation_id == conversation_id && g.state == .cut_over)
    (fun g => g.finished_at.getD 0) db.conversation_migrations).getLast?

/-- The source copies `cleanup` drops. -/
def is_source_copy (now : ℕ) (team_id window : ℕ) (db : Db) (m : ConversationMessage) : Bool :=
  m.backend == .jetstream && m.body != "" && m.canonical_locator.isSome &&
    db.conversations.any fun c => c.id == m.conversation_id && c.team_id == team_id &&
      (last_move c.id db).any fun g => g.direction == .to_jetstream &&
        g.finished_at.any fun t => t + window < now

/-- `cleanup`, with `apply`. -/
def cleanup (now : ℕ) (team_id : Uuid) (rollback_window_hours : ℤ) (db : Db) : BusResult (ℕ × Db) := do
  ensure (0 ≤ rollback_window_hours) (.Invalid
    ("the rollback window cannot be negative; it is how long a completed move must have been " ++
      "finished before its source bodies may be dropped"))
  let window := secs (rollback_window_hours.toNat * 3600)
  pure ((db.conversation_messages.filter (is_source_copy now team_id window db)).length, { db with
    conversation_messages := update (is_source_copy now team_id window db)
      (fun m => { m with body := "" }) db.conversation_messages })

/-! ## The process -/

/-- `Envelope`: one publication attempt's input. -/
structure Envelope where
  message_id : Uuid
  conversation_id : Uuid
  team_id : Uuid
  body : String
  publish_key : Uuid
  deriving DecidableEq, Repr

/-- What a copy has counted. -/
structure Tally where
  copied : ℕ
  skipped : ℕ
  bytes : ℕ
  deriving DecidableEq, Repr

/-- `Outcome`. -/
structure Outcome where
  migration_id : Uuid
  conversation_id : Uuid
  copied : ℕ
  verified : ℕ
  skipped : ℕ
  bytes : ℕ
  state : String
  deriving DecidableEq, Repr

/-- The message a copy has in hand, its body, and the rows still to come. -/
structure Hand where
  row : CopyRow
  body : String
  rows : List CopyRow
  tally : Tally
  deriving DecidableEq, Repr

/-- Where a copy stands with the message in hand. -/
inductive Spot where
  /-- About to note the message in the run. -/
  | planning
  /-- About to look whether an earlier attempt recorded a copy. -/
  | recalling
  /-- Asking the broker for the recorded copy. -/
  | probing (l : Locator)
  /-- The recorded copy is there. -/
  | confirming
  /-- About to write the body to the target. -/
  | writing
  | recording (l : Locator)
  | reading_back (l : Locator)
  | verifying
  | mismatched
  deriving DecidableEq, Repr

/-- Where a process stands. -/
inductive Phase where
  | opening
  | pausing (run : Uuid)
  | reading (run : Uuid)
  | looping (run : Uuid) (rows : List CopyRow) (t : Tally)
  /-- Asking the broker for the body of `row`. -/
  | fetching (run : Uuid) (l : Locator) (row : CopyRow) (rows : List CopyRow) (t : Tally)
  | holding (run : Uuid) (at_ : Spot) (h : Hand)
  /-- About to give the run up. -/
  | failing (run : Uuid) (why : BusError)
  | ended (res : BusResult Outcome)
  deriving DecidableEq

/-- `run`, as a process. -/
structure Mover where
  team_id : Uuid
  conversation_id : Uuid
  direction : Direction
  phase : Phase
  deriving DecidableEq

/-- `BusError`'s `Display`. -/
def error_text : BusError → String
  | .NotFound msg => "not found: " ++ msg
  | .Invalid msg => "invalid input: " ++ msg
  | .Conflict msg => "conflict: " ++ msg
  | .Unauthenticated msg => "unauthenticated: " ++ msg
  | .Forbidden msg => "forbidden: " ++ msg
  | .Db msg => "database error: " ++ msg

/-- The process, one step on. -/
def Mover.at_phase (m : Mover) (ph : Phase) : Mover := { m with phase := ph }

/-- The first row of the list, if it is to be copied: what is at the target, or was
verified by this run, is skipped. -/
def Mover.begin_row (m : Mover) (run : Uuid) (row : CopyRow) (rows : List CopyRow) (t : Tally)
    (db : Db) : Mover :=
  if row.backend = target m.direction then
    m.at_phase (.looping run rows { t with skipped := t.skipped + 1 })
  else if (item_of run row.message_id db).any fun i => i.state == .verified then
    m.at_phase (.looping run rows { t with skipped := t.skipped + 1 })
  else
    match m.direction, row.locator with
    | .to_jetstream, _ =>
      m.at_phase (.holding run .planning ⟨row, row.local_body, rows, t⟩)
    | .to_postgres, some l => m.at_phase (.fetching run l row rows t)
    | .to_postgres, none =>
      m.at_phase (.failing run (.Invalid
        (s!"message {row.message_id} has no locator on {backend_text (source m.direction)}; it " ++
          "cannot be copied back")))

/-- The message in hand is done with. -/
def Hand.next (h : Hand) : List CopyRow × Tally := (h.rows, { h.tally with copied := h.tally.copied + 1 })

/-- The body read back from the target, against the one that was written. -/
def Mover.compare (m : Mover) (run : Uuid) (h : Hand) (back : BusResult (Option String)) : Mover :=
  match back with
  | .error e => m.at_phase (.failing run e)
  | .ok none => m.at_phase (.failing run (.Conflict
      (s!"{h.row.message_id} was written to {backend_text (target m.direction)} and could not be " ++
        "read back")))
  | .ok (some back) =>
    m.at_phase (.holding run
      (if checksum sha256 back = checksum sha256 h.body then .verifying else .mismatched) h)

/-- The next statement. `id` is the fresh id of a run that is inserted. -/
def statement (now : ℕ) (id : Uuid) (db : Db) (m : Mover) : Option (Db × Mover) :=
  match m.phase with
  | .opening =>
    match open_run now m.team_id m.conversation_id m.direction id db with
    | .error e => some (db, m.at_phase (.ended (.error e)))
    | .ok (run, db') => some (db', m.at_phase (.pausing run))
  | .pausing run =>
    match pause now m.conversation_id db with
    | .error e => some (db, m.at_phase (.ended (.error e)))
    | .ok db' => some (db', m.at_phase (.reading run))
  | .reading run => some (db, m.at_phase (.looping run (copy_rows m.conversation_id db) ⟨0, 0, 0⟩))
  | .looping run [] t =>
    match cutover now run m.conversation_id m.direction t.copied t.bytes db with
    | .error e => some (db, m.at_phase (.failing run e))
    | .ok db' => some (db', m.at_phase (.ended (.ok
        ⟨run, m.conversation_id, t.copied, t.copied, t.skipped, t.bytes, "cut_over"⟩)))
  | .looping run (row :: rows) t => some (db, m.begin_row run row rows t db)
  | .fetching _ _ _ _ _ => none
  | .holding run .planning h =>
    some (plan_item sha256 run h.row.message_id h.body db, m.at_phase (.holding run .recalling
      { h with tally := { h.tally with bytes := h.tally.bytes + h.body.utf8ByteSize } }))
  | .holding run .recalling h =>
    match m.direction, (item_of run h.row.message_id db).bind fun i => i.target_locator with
    | .to_jetstream, some l => some (db, m.at_phase (.holding run (.probing l) h))
    | _, _ => some (db, m.at_phase (.holding run .writing h))
  | .holding _ (.probing _) _ => none
  | .holding run .confirming h =>
    some (set_item run h.row.message_id verified_item db,
      m.at_phase (.looping run h.next.1 h.next.2))
  | .holding run .writing h =>
    match m.direction with
    | .to_jetstream => none
    | .to_postgres => some (write_back h.row.message_id h.body db,
        m.at_phase (.holding run (.recording (.postgres h.row.message_id)) h))
  | .holding run (.recording l) h =>
    some (set_item run h.row.message_id (copied_item l) db,
      m.at_phase (.holding run (.reading_back l) h))
  | .holding run (.reading_back l) h =>
    match m.direction with
    | .to_jetstream => none
    | .to_postgres => some (db, m.compare sha256 run h (postgres_fetch l h.row.message_id db))
  | .holding run .verifying h =>
    some (set_item run h.row.message_id verified_item db,
      m.at_phase (.looping run h.next.1 h.next.2))
  | .holding run .mismatched h =>
    some (set_item run h.row.message_id mismatched_item db, m.at_phase (.failing run (.Conflict
      (s!"the body of {h.row.message_id} came back different from " ++
        s!"{backend_text (target m.direction)}. Nothing was cut over."))))
  | .failing run why =>
    some (abort now run (error_text why) db, m.at_phase (.ended (.error why)))
  | .ended _ => none

/-- What a process waits for from the broker. -/
inductive Ask where
  | fetch (l : Locator) (message_id : Uuid)
  | publish (e : Envelope)
  deriving DecidableEq, Repr

/-- What the broker answers. -/
inductive Answer where
  | fetched (r : BusResult (Option String))
  | published (p : Published)
  deriving DecidableEq

/-- What a process waits for. A copy is published under the message's own id, so that
a resumed run presents the same key. -/
def asks (m : Mover) : Option Ask :=
  match m.phase with
  | .fetching _ l row _ _ => some (.fetch l row.message_id)
  | .holding _ (.probing l) h => some (.fetch l h.row.message_id)
  | .holding _ .writing h =>
    match m.direction with
    | .to_jetstream => some (.publish
        ⟨h.row.message_id, m.conversation_id, m.team_id, h.body, h.row.message_id⟩)
    | .to_postgres => none
  | .holding _ (.reading_back l) h =>
    match m.direction with
    | .to_jetstream => some (.fetch l h.row.message_id)
    | .to_postgres => none
  | _ => none

/-- How a process goes on with the broker's answer. -/
def told (a : Answer) (m : Mover) : Option Mover :=
  match m.phase, a with
  | .fetching run _ _ _ _, .fetched (.error e) => some (m.at_phase (.failing run e))
  | .fetching run _ row _ _, .fetched (.ok none) => some (m.at_phase (.failing run (.NotFound
      (s!"the broker no longer holds the body of {row.message_id}. A body that is gone cannot be " ++
        "copied back; tombstone it deliberately or restore the stream first."))))
  | .fetching run _ row rows t, .fetched (.ok (some body)) =>
    some (m.at_phase (.holding run .planning ⟨row, body, rows, t⟩))
  | .holding run (.probing _) h, .fetched (.ok (some there)) =>
    some (m.at_phase (.holding run
      (if checksum sha256 there = checksum sha256 h.body then .confirming else .writing) h))
  | .holding run (.probing _) h, .fetched _ => some (m.at_phase (.holding run .writing h))
  | .holding run .writing h, .published (.Confirmed l) =>
    some (m.at_phase (.holding run (.recording l) h))
  | .holding run .writing h, .published (.Retryable why)
  | .holding run .writing h, .published (.Fatal why) =>
    some (m.at_phase (.failing run (.Conflict s!"copying {h.row.message_id} failed: {why}")))
  | .holding run (.reading_back _) h, .fetched r => some (m.compare sha256 run h r)
  | _, _ => none

/-- A statement the database did not answer. Before the copy there is nothing to give
up. -/
def broken (why : String) (m : Mover) : Option Mover :=
  match m.phase with
  | .opening | .pausing _ | .failing _ _ => some (m.at_phase (.ended (.error (.Db why))))
  | .reading run | .looping run _ _ | .fetching run _ _ _ _ | .holding run _ _ =>
    some (m.at_phase (.failing run (.Db why)))
  | .ended _ => none

/-! ## What a process did -/

/-- What one statement of a process did, and where it stands afterwards. -/
inductive Ran (now : ℕ) (id : Uuid) (db : Db) (m : Mover) : Db → Phase → Prop
  | refused {e : BusError} : Ran now id db m db (.ended (.error e))
  | joined {g : ConversationMigration} : m.phase = .opening →
      open_run_of m.conversation_id db = some g → g.direction = m.direction →
      Ran now id db m db (.pausing g.id)
  | opened {c : Conversation} : m.phase = .opening → thread_row m.conversation_id db = .ok c →
      open_run_of m.conversation_id db = none → (∀ g ∈ db.conversation_migrations, g.id ≠ id) →
      Ran now id db m { db with
        conversation_migrations :=
          insert_into (migration_row now m.team_id m.conversation_id m.direction id)
            db.conversation_migrations } (.pausing id)
  | paused {run : Uuid} : m.phase = .pausing run →
      Ran now id db m { db with
        conversations := update (fun c => c.id == m.conversation_id)
          (fun c => { c with write_paused_at := some now }) db.conversations } (.reading run)
  | listed {run : Uuid} : m.phase = .reading run →
      Ran now id db m db (.looping run (copy_rows m.conversation_id db) ⟨0, 0, 0⟩)
  | cut_over {run : Uuid} {t : Tally} {db' : Db} {o : Outcome} : m.phase = .looping run [] t →
      cutover now run m.conversation_id m.direction t.copied t.bytes db = .ok db' →
      Ran now id db m db' (.ended (.ok o))
  | skipped {run : Uuid} {row : CopyRow} {rows : List CopyRow} {t t' : Tally} :
      m.phase = .looping run (row :: rows) t →
      row.backend = target m.direction ∨
        ((item_of run row.message_id db).any fun i => i.state == .verified) = true →
      Ran now id db m db (.looping run rows t')
  | taken {run : Uuid} {row : CopyRow} {rows : List CopyRow} {t : Tally} :
      m.phase = .looping run (row :: rows) t → m.direction = .to_jetstream →
      row.backend = .postgres →
      Ran now id db m db (.holding run .planning ⟨row, row.local_body, rows, t⟩)
  | asked {run : Uuid} {row : CopyRow} {rows : List CopyRow} {t : Tally} {l : Locator} :
      m.phase = .looping run (row :: rows) t → m.direction = .to_postgres →
      row.backend = .jetstream → row.locator = some l →
      Ran now id db m db (.fetching run l row rows t)
  | stopped {run : Uuid} {why : BusError} : Ran now id db m db (.failing run why)
  | planned {run : Uuid} {h : Hand} {t : Tally} : m.phase = .holding run .planning h →
      Ran now id db m (plan_item sha256 run h.row.message_id h.body db)
        (.holding run .recalling { h with tally := t })
  | recalled {run : Uuid} {h : Hand} {l : Locator} : m.phase = .holding run .recalling h →
      m.direction = .to_jetstream →
      (item_of run h.row.message_id db).bind (fun i => i.target_locator) = some l →
      Ran now id db m db (.holding run (.probing l) h)
  | writes {run : Uuid} {h : Hand} : m.phase = .holding run .recalling h →
      Ran now id db m db (.holding run .writing h)
  | verified {run : Uuid} {h : Hand} {at_ : Spot} : m.phase = .holding run at_ h →
      at_ = .confirming ∨ at_ = .verifying →
      Ran now id db m (set_item run h.row.message_id verified_item db)
        (.looping run h.next.1 h.next.2)
  | wrote {run : Uuid} {h : Hand} : m.phase = .holding run .writing h → m.direction = .to_postgres →
      Ran now id db m (write_back h.row.message_id h.body db)
        (.holding run (.recording (.postgres h.row.message_id)) h)
  | recorded {run : Uuid} {h : Hand} {l : Locator} : m.phase = .holding run (.recording l) h →
      Ran now id db m (set_item run h.row.message_id (copied_item l) db)
        (.holding run (.reading_back l) h)
  | compared {run : Uuid} {h : Hand} {l : Locator} {at_ : Spot} :
      m.phase = .holding run (.reading_back l) h → m.direction = .to_postgres →
      at_ = .verifying ∨ at_ = .mismatched →
      Ran now id db m db (.holding run at_ h)
  | differed {run : Uuid} {h : Hand} {why : BusError} : m.phase = .holding run .mismatched h →
      Ran now id db m (set_item run h.row.message_id mismatched_item db) (.failing run why)
  | given_up {run : Uuid} {why : BusError} : m.phase = .failing run why →
      Ran now id db m (abort now run (error_text why) db) (.ended (.error why))

/-- How a process went on with an answer. -/
inductive Heard (a : Answer) (m : Mover) : Phase → Prop
  | stopped {run : Uuid} {why : BusError} : Heard a m (.failing run why)
  | got {run : Uuid} {l : Locator} {row : CopyRow} {rows : List CopyRow} {t : Tally} {body : String} :
      m.phase = .fetching run l row rows t → a = .fetched (.ok (some body)) →
      Heard a m (.holding run .planning ⟨row, body, rows, t⟩)
  | recognised {run : Uuid} {l : Locator} {h : Hand} {body : String} :
      m.phase = .holding run (.probing l) h → a = .fetched (.ok (some body)) →
      sha256 body = sha256 h.body → Heard a m (.holding run .confirming h)
  | not_there {run : Uuid} {l : Locator} {h : Hand} : m.phase = .holding run (.probing l) h →
      Heard a m (.holding run .writing h)
  | published {run : Uuid} {l : Locator} {h : Hand} : m.phase = .holding run .writing h →
      a = .published (.Confirmed l) → Heard a m (.holding run (.recording l) h)
  | compared {run : Uuid} {l : Locator} {h : Hand} {at_ : Spot} :
      m.phase = .holding run (.reading_back l) h → at_ = .verifying ∨ at_ = .mismatched →
      Heard a m (.holding run at_ h)

section Statements

variable {sha256} {now : ℕ} {id : Uuid} {db db' : Db} {m m' : Mover} {conversation_id run : Uuid}
  {direction : Direction}

theorem open_run_ok {team_id : Uuid} (h : open_run now team_id conversation_id direction id db = .ok (run, db')) :
    ∃ c, thread_row conversation_id db = .ok c ∧
      ((∃ g, open_run_of conversation_id db = some g ∧ g.direction = direction ∧ run = g.id ∧
          db' = db) ∨
        open_run_of conversation_id db = none ∧ run = id ∧
          (∀ g ∈ db.conversation_migrations, g.id ≠ id) ∧
          db' = { db with
            conversation_migrations :=
              insert_into (migration_row now team_id conversation_id direction id)
                db.conversation_migrations }) := by
  simp only [open_run, bind_eq_ok] at h
  obtain ⟨c, hc, h⟩ := h
  refine ⟨c, hc, ?_⟩
  cases hg : open_run_of conversation_id db with
  | some g =>
    simp only [hg, bind_eq_ok, ensure_eq_ok, pure_eq_ok, Prod.mk.injEq] at h
    obtain ⟨_, hdir, rfl, rfl⟩ := h
    exact Or.inl ⟨g, rfl, hdir, rfl, rfl⟩
  | none =>
    simp only [hg, bind_eq_ok, ensure_eq_ok, pure_eq_ok, Prod.mk.injEq] at h
    obtain ⟨_, hfresh, rfl, rfl⟩ := h
    exact Or.inr ⟨rfl, rfl, by simpa using hfresh, rfl⟩

theorem pause_ok (h : pause now conversation_id db = .ok db') :
    db' = { db with
      conversations := update (fun c => c.id == conversation_id)
        (fun c => { c with write_paused_at := some now }) db.conversations } := by
  simp only [pause, bind_eq_ok, pure_eq_ok] at h
  obtain ⟨_, -, rfl⟩ := h
  rfl

theorem compare_cases (sha256 : String → String) (m : Mover) (run : Uuid) (h : Hand) (back : BusResult (Option String)) :
    (∃ why, m.compare sha256 run h back = m.at_phase (.failing run why)) ∨
      ∃ body, back = .ok (some body) ∧
        (sha256 body = sha256 h.body ∧
            m.compare sha256 run h back = m.at_phase (.holding run .verifying h) ∨
          m.compare sha256 run h back = m.at_phase (.holding run .mismatched h)) := by
  cases back with
  | error e => exact Or.inl ⟨e, rfl⟩
  | ok o =>
    cases o with
    | none => exact Or.inl ⟨_, rfl⟩
    | some body =>
      refine Or.inr ⟨body, rfl, ?_⟩
      by_cases hsum : sha256 body = sha256 h.body
      · refine Or.inl ⟨hsum, ?_⟩
        simp only [Mover.compare, checksum, hsum, if_true]
      · refine Or.inr ?_
        simp only [Mover.compare, checksum, hsum, if_false]

theorem begin_row_ran {row : CopyRow} {rows : List CopyRow} {t : Tally} (hph : m.phase = .looping run (row :: rows) t) :
    ∃ ph, m.begin_row run row rows t db = m.at_phase ph ∧ Ran sha256 now id db m db ph := by
  unfold Mover.begin_row
  by_cases hthere : row.backend = target m.direction
  · rw [if_pos hthere]
    exact ⟨_, rfl, .skipped hph (Or.inl hthere)⟩
  by_cases hdone : ((item_of run row.message_id db).any fun i => i.state == .verified) = true
  · rw [if_neg hthere, if_pos hdone]
    exact ⟨_, rfl, .skipped hph (Or.inr hdone)⟩
  · rw [if_neg hthere, if_neg hdone]
    cases hdir : m.direction with
    | to_jetstream =>
      refine ⟨_, rfl, .taken hph hdir ?_⟩
      rw [hdir] at hthere
      cases hb : row.backend with
      | postgres => rfl
      | jetstream => exact absurd hb hthere
    | to_postgres =>
      cases hl : row.locator with
      | none => exact ⟨_, rfl, .stopped⟩
      | some l =>
        refine ⟨_, rfl, .asked hph hdir ?_ hl⟩
        rw [hdir] at hthere
        cases hb : row.backend with
        | jetstream => rfl
        | postgres => exact absurd hb hthere

/-- What one statement of a process did. -/
theorem statement_ran (h : statement sha256 now id db m = some (db', m')) :
    ∃ ph, m' = m.at_phase ph ∧ Ran sha256 now id db m db' ph := by
  unfold statement at h
  cases hph : m.phase with
  | opening =>
    simp only [hph] at h
    split at h <;> obtain ⟨rfl, rfl⟩ := Prod.mk.inj (Option.some.inj h)
    · exact ⟨_, rfl, .refused⟩
    · rename_i hok
      obtain ⟨c, hc, ⟨g, hg, hdir, rfl, rfl⟩ | ⟨hnone, rfl, hfresh, rfl⟩⟩ := open_run_ok hok
      · exact ⟨_, rfl, .joined hph hg hdir⟩
      · exact ⟨_, rfl, .opened hph hc hnone hfresh⟩
  | pausing run =>
    simp only [hph] at h
    split at h <;> obtain ⟨rfl, rfl⟩ := Prod.mk.inj (Option.some.inj h)
    · exact ⟨_, rfl, .refused⟩
    · rename_i hok
      rw [pause_ok hok]
      exact ⟨_, rfl, .paused hph⟩
  | reading run =>
    simp only [hph] at h
    obtain ⟨rfl, rfl⟩ := Prod.mk.inj (Option.some.inj h)
    exact ⟨_, rfl, .listed hph⟩
  | looping run rows t =>
    cases rows with
    | nil =>
      simp only [hph] at h
      split at h <;> obtain ⟨rfl, rfl⟩ := Prod.mk.inj (Option.some.inj h)
      · exact ⟨_, rfl, .stopped⟩
      · rename_i hok
        exact ⟨_, rfl, .cut_over hph hok⟩
    | cons row rows =>
      simp only [hph] at h
      obtain ⟨rfl, rfl⟩ := Prod.mk.inj (Option.some.inj h)
      exact begin_row_ran hph
  | fetching run l row rows t | ended res =>
    simp only [hph] at h
    cases h
  | holding run at_ hand =>
    cases at_ with
    | planning =>
      simp only [hph] at h
      obtain ⟨rfl, rfl⟩ := Prod.mk.inj (Option.some.inj h)
      exact ⟨_, rfl, .planned hph⟩
    | recalling =>
      simp only [hph] at h
      split at h <;> obtain ⟨rfl, rfl⟩ := Prod.mk.inj (Option.some.inj h)
      · rename_i hdir hl
        exact ⟨_, rfl, .recalled hph hdir hl⟩
      · exact ⟨_, rfl, .writes hph⟩
    | probing l =>
      simp only [hph] at h
      cases h
    | confirming =>
      simp only [hph] at h
      obtain ⟨rfl, rfl⟩ := Prod.mk.inj (Option.some.inj h)
      exact ⟨_, rfl, .verified hph (Or.inl rfl)⟩
    | writing =>
      simp only [hph] at h
      split at h
      · cases h
      · rename_i hdir
        obtain ⟨rfl, rfl⟩ := Prod.mk.inj (Option.some.inj h)
        exact ⟨_, rfl, .wrote hph hdir⟩
    | recording l =>
      simp only [hph] at h
      obtain ⟨rfl, rfl⟩ := Prod.mk.inj (Option.some.inj h)
      exact ⟨_, rfl, .recorded hph⟩
    | reading_back l =>
      simp only [hph] at h
      split at h
      · cases h
      · rename_i hdir
        obtain ⟨rfl, rfl⟩ := Prod.mk.inj (Option.some.inj h)
        rcases compare_cases sha256 m run hand
          (postgres_fetch l hand.row.message_id db) with ⟨why, heq⟩ | ⟨body, -, ⟨-, heq⟩ | heq⟩
        · exact ⟨_, heq, .stopped⟩
        · exact ⟨_, heq, .compared hph hdir (Or.inl rfl)⟩
        · exact ⟨_, heq, .compared hph hdir (Or.inr rfl)⟩
    | verifying =>
      simp only [hph] at h
      obtain ⟨rfl, rfl⟩ := Prod.mk.inj (Option.some.inj h)
      exact ⟨_, rfl, .verified hph (Or.inr rfl)⟩
    | mismatched =>
      simp only [hph] at h
      obtain ⟨rfl, rfl⟩ := Prod.mk.inj (Option.some.inj h)
      exact ⟨_, rfl, .differed hph⟩
  | failing run why =>
    simp only [hph] at h
    obtain ⟨rfl, rfl⟩ := Prod.mk.inj (Option.some.inj h)
    exact ⟨_, rfl, .given_up hph⟩

/-- How a process went on with an answer. -/
theorem told_heard {a : Answer} (h : told sha256 a m = some m') :
    ∃ ph, m' = m.at_phase ph ∧ Heard sha256 a m ph := by
  unfold told at h
  cases hph : m.phase with
  | fetching run l row rows t =>
    cases a with
    | fetched r =>
      cases r with
      | error e =>
        simp only [hph] at h
        exact ⟨_, (Option.some.inj h).symm, .stopped⟩
      | ok o =>
        cases o with
        | none =>
          simp only [hph] at h
          exact ⟨_, (Option.some.inj h).symm, .stopped⟩
        | some body =>
          simp only [hph] at h
          exact ⟨_, (Option.some.inj h).symm, .got hph rfl⟩
    | published p =>
      simp only [hph] at h
      cases h
  | holding run at_ hand =>
    cases at_ with
    | probing l =>
      cases a with
      | fetched r =>
        rcases r with e | o
        · simp only [hph] at h
          exact ⟨_, (Option.some.inj h).symm, .not_there hph⟩
        · cases o with
          | none =>
            simp only [hph] at h
            exact ⟨_, (Option.some.inj h).symm, .not_there hph⟩
          | some body =>
            simp only [hph] at h
            by_cases hsum : checksum sha256 body = checksum sha256 hand.body
            · simp only [hsum, if_true] at h
              exact ⟨_, (Option.some.inj h).symm, .recognised hph rfl hsum⟩
            · simp only [hsum, if_false] at h
              exact ⟨_, (Option.some.inj h).symm, .not_there hph⟩
      | published p =>
        simp only [hph] at h
        cases h
    | writing =>
      cases a with
      | fetched r =>
        simp only [hph] at h
        cases h
      | published p =>
        cases p with
        | Confirmed l =>
          simp only [hph] at h
          exact ⟨_, (Option.some.inj h).symm, .published hph rfl⟩
        | Retryable why | Fatal why =>
          simp only [hph] at h
          exact ⟨_, (Option.some.inj h).symm, .stopped⟩
    | reading_back l =>
      cases a with
      | fetched r =>
        simp only [hph] at h
        rcases compare_cases sha256 m run hand r with ⟨why, heq⟩ | ⟨body, -, ⟨-, heq⟩ | heq⟩ <;>
          rw [heq] at h
        · exact ⟨_, (Option.some.inj h).symm, .stopped⟩
        · exact ⟨_, (Option.some.inj h).symm, .compared hph (Or.inl rfl)⟩
        · exact ⟨_, (Option.some.inj h).symm, .compared hph (Or.inr rfl)⟩
      | published p =>
        simp only [hph] at h
        cases h
    | _ =>
      cases a <;> (simp only [hph] at h; exact nomatch h)
  | _ =>
    cases a <;> (simp only [hph] at h; exact nomatch h)

theorem broken_stopped {why : String} (h : broken why m = some m') :
    (∃ e, m' = m.at_phase (.ended (.error e))) ∨ ∃ run e, m' = m.at_phase (.failing run e) := by
  unfold broken at h
  cases hph : m.phase <;> simp only [hph] at h
  case ended => exact nomatch h
  case opening => exact Or.inl ⟨_, (Option.some.inj h).symm⟩
  case pausing => exact Or.inl ⟨_, (Option.some.inj h).symm⟩
  case failing => exact Or.inl ⟨_, (Option.some.inj h).symm⟩
  all_goals exact Or.inr ⟨_, _, (Option.some.inj h).symm⟩

/-- The columns an item is found by. -/
def item_key (i : ConversationMigrationItem) : Uuid × Uuid := (i.migration_id, i.message_id)

theorem is_item_iff {k : Uuid} {i : ConversationMigrationItem} :
    is_item run k i = true ↔ item_key i = (run, k) := by
  simp [is_item, item_key]

/-- The run has an item for the message. -/
def Planned (db : Db) (run k : Uuid) : Prop :=
  ∃ i ∈ db.conversation_migration_items, item_key i = (run, k)

/-- A message that is noted has an item. -/
theorem planned_of_plan (run k : Uuid) (body : String) (db : Db) :
    Planned (plan_item sha256 run k body db) run k := by
  show ∃ i ∈ upsert _ _ _ db.conversation_migration_items, _
  unfold Rows.upsert
  split
  · rename_i hany
    obtain ⟨i, hi, hp⟩ := List.any_eq_true.mp hany
    exact ⟨_, mem_update_of_pos hi hp, is_item_iff.mp hp⟩
  · exact ⟨_, mem_insert_into.mpr (Or.inr rfl), rfl⟩

/-- What a cutover makes of a message: nothing; or it is on JetStream, where the verified
item says; or it is on Postgres. -/
theorem cut_over_row (run conversation_id : Uuid) (direction : Direction) (db : Db) (x : ConversationMessage) :
    settled_row conversation_id direction (moved run conversation_id direction db x) = x ∧
        (x.conversation_id = conversation_id → verified_part run db x = none) ∨
      (∃ i, verified_part run db x = some i ∧ direction = .to_jetstream ∧
        x.conversation_id = conversation_id ∧
        settled_row conversation_id direction (moved run conversation_id direction db x) =
          { x with backend := .jetstream, canonical_locator := i.target_locator }) ∨
      direction = .to_postgres ∧ x.conversation_id = conversation_id ∧
        (x.backend = .postgres ∨ (verified_part run db x).isSome = true) ∧
        settled_row conversation_id direction (moved run conversation_id direction db x) =
          { x with backend := .postgres, canonical_locator := none, publication_state := .stored } := by
  by_cases hconv : x.conversation_id = conversation_id
  · cases hpart : verified_part run db x with
    | none =>
      have hmoved : moved run conversation_id direction db x = x := by
        simp only [moved, hpart, ite_self]
      rw [hmoved]
      by_cases hback : direction = .to_postgres ∧ x.backend = .postgres
      · refine Or.inr (Or.inr ⟨hback.1, hconv, Or.inl hback.2, ?_⟩)
        rw [settled_row, if_pos ⟨hback.1, hconv, hback.2⟩, ← hback.2]
      · refine Or.inl ⟨?_, fun _ => rfl⟩
        rw [settled_row, if_neg fun h => hback ⟨h.1, h.2.2⟩]
    | some i =>
      have hmoved : moved run conversation_id direction db x =
          { x with backend := target direction, canonical_locator := i.target_locator } := by
        simp only [moved, hpart, if_pos hconv]
      rw [hmoved]
      cases direction with
      | to_jetstream =>
        refine Or.inr (Or.inl ⟨i, rfl, rfl, hconv, ?_⟩)
        rw [settled_row, if_neg fun h => absurd h.1 (by decide)]
        rfl
      | to_postgres =>
        refine Or.inr (Or.inr ⟨rfl, hconv, Or.inr rfl, ?_⟩)
        rw [settled_row, if_pos ⟨rfl, hconv, rfl⟩]
        rfl
  · refine Or.inl ⟨?_, fun h => absurd h hconv⟩
    rw [moved, if_neg hconv, settled_row, if_neg fun h => hconv h.2.1]

/-- What a cutover commits. -/
theorem cutover_ok {run conversation_id copied bytes : ℕ}
    (h : cutover now run conversation_id direction copied bytes db = .ok db') :
    db' = { db with
      conversation_messages := db.conversation_messages.map fun x =>
        settled_row conversation_id direction (moved run conversation_id direction db x)
      conversations := db.conversations.map (routed conversation_id direction)
      conversation_migrations :=
        db.conversation_migrations.map (finished now run copied bytes) } := by
  simp only [cutover, bind_eq_ok, pure_eq_ok] at h
  obtain ⟨_, -, rfl⟩ := h
  rfl

end Statements

end CrewSync.Migrate
