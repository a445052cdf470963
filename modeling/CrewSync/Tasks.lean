/-
`store/tasks.rs`: the task board, and who is at work on what.

A **claim** is three columns of a task row (holder, window, lease) and the status
`claimed`. Five statements write them, each an `UPDATE … WHERE` that says under
which conditions it may. Such a statement decides twice: it finds its row in the
snapshot it began with, and if the row was changed meanwhile it waits for that
change and evaluates its condition again on the row as it is now. The dependencies
of a task are read in the snapshot both times. `seen` is that snapshot, an earlier
committed database, and `now()` is when the transaction began.

Left out: metadata and attachments, which no condition reads, and the task that
`create_task`, `claim_task` and the others answer with after they have committed.
-/
import CrewSync.Send

set_option autoImplicit false

namespace CrewSync.Tasks

open Error Schema Rows Auth Sessions
open References Send

/-- `DEFAULT_LEASE_SECS`, `MAX_LEASE_SECS`, `MAX_TITLE_BYTES`,
`MAX_DESCRIPTION_BYTES`, `MAX_RESULT_BYTES` and `MAX_DEPENDENCIES`. -/
def DEFAULT_LEASE_SECS : ℤ := 900

def MAX_LEASE_SECS : ℤ := 86400

def MAX_TITLE_BYTES : ℕ := 512

def MAX_DESCRIPTION_BYTES : ℕ := 65536

def MAX_RESULT_BYTES : ℕ := 65536

def MAX_DEPENDENCIES : ℕ := 32

/-! ## The tables -/

/-- `tasks.status`. -/
inductive TaskStatus where
  | «open» | claimed | done | cancelled
  deriving DecidableEq, Repr

/-- `tasks`, `UNIQUE (team_id, key)`. -/
structure Task where
  id : Uuid
  team_id : Uuid
  key : String
  title : String
  description : Option String
  status : TaskStatus
  claimed_by : Option Uuid
  claimed_session : Option String
  claimed_at : Option ℕ
  lease_expires_at : Option ℕ
  result : Option String
  created_by : Option Uuid
  created_at : ℕ
  updated_at : ℕ
  deriving DecidableEq, Repr

/-- `task_deps`. -/
structure TaskDep where
  task_id : Uuid
  blocked_by_task_id : Uuid
  deriving DecidableEq, Repr

/-- `task_events`. -/
structure TaskEvent where
  task_id : Uuid
  agent_id : Option Uuid
  event : String
  detail : Option String
  created_at : ℕ
  deriving DecidableEq, Repr

/-- The database with its task board. -/
structure TaskDb extends Db where
  tasks : List Task := []
  task_deps : List TaskDep := []
  task_events : List TaskEvent := []
  deriving DecidableEq

/-! ## What the statements look at -/

/-- `status NOT IN ('done', 'cancelled')`. -/
def Task.unfinished (t : Task) : Bool := t.status != .done && t.status != .cancelled

/-- `EXISTS (SELECT 1 FROM task_deps td JOIN tasks d …)`. -/
def blocked (db : TaskDb) (id : Uuid) : Bool :=
  db.task_deps.any fun td => td.task_id == id &&
    db.tasks.any fun d => d.id == td.blocked_by_task_id && d.unfinished

/-- `claimed_by = $1 AND COALESCE(claimed_session, '') = $5`. -/
def held_by (auth : AuthCtx) (t : Task) : Bool :=
  t.claimed_by == some auth.agent_id && t.claimed_session.getD "" == auth.session

/-- `team_id = $1 AND key = $2`. -/
def at_key (auth : AuthCtx) (key : String) (t : Task) : Bool :=
  t.team_id == auth.team_id && t.key == key

/-- The condition held when the statement began, and it holds of the row as it is
now. -/
def rechecked (seen : TaskDb) (p : Task → Bool) (t : Task) : Bool :=
  (seen.tasks.any fun t₀ => t₀.id == t.id && p t₀) && p t

/-- The condition of `claim_task`. -/
def claimable (now : ℕ) (auth : AuthCtx) (key : String) (seen : TaskDb) (t : Task) : Bool :=
  at_key auth key t && (t.status == .open || t.status == .claimed) &&
    (t.status == .open || held_by auth t || t.lease_expires_at.isNone ||
      t.lease_expires_at.any fun x => x < now) &&
    !blocked seen t.id

/-- The condition of `claim_next_task`. -/
def available (now : ℕ) (auth : AuthCtx) (seen : TaskDb) (t : Task) : Bool :=
  t.team_id == auth.team_id &&
    (t.status == .open || t.status == .claimed && t.lease_expires_at.any fun x => x < now) &&
    !blocked seen t.id

/-- The condition of `renew_lease`. -/
def renewable (now : ℕ) (auth : AuthCtx) (key : String) (t : Task) : Bool :=
  at_key auth key t && t.status == .claimed && held_by auth t &&
    t.lease_expires_at.any fun x => now < x

/-- The condition of `release_task`. -/
def releasable (auth : AuthCtx) (key : String) (t : Task) : Bool :=
  at_key auth key t && t.status == .claimed && held_by auth t

/-- The condition of `complete_task`. -/
def completable (now : ℕ) (auth : AuthCtx) (key : String) (t : Task) : Bool :=
  at_key auth key t && (t.status == .open || t.status == .claimed) &&
    (t.claimed_by.isNone || t.lease_expires_at.isNone ||
      (t.lease_expires_at.any fun x => x ≤ now) || held_by auth t)

/-! ## What they write -/

/-- `SET status = 'claimed', …`. -/
def claimed_row (now : ℕ) (auth : AuthCtx) (lease : ℕ) (t : Task) : Task :=
  { t with
    status := .claimed, claimed_by := some auth.agent_id, claimed_session := some auth.session,
    claimed_at := some now, lease_expires_at := some (now + secs lease), updated_at := now }

/-- `SET lease_expires_at = …`. -/
def renewed_row (now lease : ℕ) (t : Task) : Task :=
  { t with lease_expires_at := some (now + secs lease), updated_at := now }

/-- `SET status = 'open', …`. -/
def released_row (now : ℕ) (t : Task) : Task :=
  { t with
    status := .open, claimed_by := none, claimed_session := none, claimed_at := none,
    lease_expires_at := none, updated_at := now }

/-- `SET status = 'done', …`. -/
def completed_row (now : ℕ) (result : Option String) (t : Task) : Task :=
  { t with status := .done, result := result, lease_expires_at := none, updated_at := now }

/-- `log_event_tx`. -/
def log_event (now : ℕ) (auth : AuthCtx) (event : String) (detail : Option String) (task_id : Uuid)
    (t : List TaskEvent) : List TaskEvent :=
  insert_into ⟨task_id, some auth.agent_id, event, detail, now⟩ t

/-! ## What a refusal says -/

/-- The part of `TaskInfo` a refusal reads. -/
structure TaskInfo where
  status : TaskStatus
  depends_on : List String
  blocked : Bool
  claimed_by : Option String
  claimed_session : Option String
  lease_seconds_remaining : Option ℕ
  lease_expired : Bool
  lapsed_holder : Option String
  deriving DecidableEq, Repr

/-- `fetch_task`. A lapsed lease is an open task. -/
def fetch_task (now : ℕ) (auth : AuthCtx) (key : String) (db : TaskDb) : BusResult TaskInfo := do
  let t ← fetch (one (at_key auth key) db.tasks) (.NotFound s!"task '{key}'")
  let name := t.claimed_by.bind fun a => (one (fun x => x.id == a) db.agents).map fun x => x.name
  let keys := (db.task_deps.filter fun td => td.task_id == t.id).filterMap fun td =>
    (one (fun d => d.id == td.blocked_by_task_id) db.tasks).map fun d => d.key
  let deps := keys.insertionSort fun a b => a ≤ b
  if t.status == .claimed && t.lease_expires_at.any fun x => x ≤ now then
    pure ⟨.open, deps, blocked db t.id, none, none, none, true, name⟩
  else
    pure ⟨t.status, deps, blocked db t.id, name, t.claimed_session.filter fun s => !s.isEmpty,
      (t.lease_expires_at.filter fun _ => t.status == .claimed).map fun x => (x - now) / 1000000,
      false, none⟩

/-- The name of a status. -/
def TaskStatus.name : TaskStatus → String
  | .open => "open"
  | .claimed => "claimed"
  | .done => "done"
  | .cancelled => "cancelled"

/-- `holder_reason`. -/
def holder_reason (auth : AuthCtx) (current : TaskInfo) : String :=
  let holder := current.claimed_by.getD "?"
  let until_ := match current.lease_seconds_remaining with
    | some seconds => s!"the lease expires in {seconds}s"
    | none => "the lease expiry is unknown"
  if current.claimed_by == some auth.agent_name &&
      current.claimed_session.getD "" != auth.session then
    let theirs := match current.claimed_session with
      | some s => s!"'{s}'"
      | none => "shared"
    s!"claimed by your own {theirs} session, and {until_} — continue the work there, or wait for " ++
      "the lease to expire and claim it here"
  else
    let where_ := match current.claimed_session with
      | some s => s!" (session '{s}')"
      | none => ""
    s!"held by {holder}{where_}, {until_}"

/-- `no_claim_here`. -/
def no_claim_here (now : ℕ) (auth : AuthCtx) (key : String) (db : TaskDb) : BusError :=
  match fetch_task now auth key db with
  | .ok current =>
    if current.status = .claimed then .Conflict
      s!"you do not hold the claim on '{key}': it is {holder_reason auth current}"
    else if current.lease_expired && current.lapsed_holder == some auth.agent_name then .Conflict
      (s!"your lease on '{key}' lapsed, so the task has been open to everyone since. If you are " ++
        "still working on it, claim it again (and renew before the lease runs out next time).")
    else .Conflict
      s!"you do not hold an active claim on '{key}' (it is {current.status.name})"
  | .error _ => .Conflict s!"you do not hold an active claim on '{key}'"

/-! ## The operations -/

/-- `normalize_key`. -/
def normalize_key (key : String) : BusResult String := do
  let key := trim key
  ensure (!key.isEmpty) (.Invalid "task key cannot be empty")
  ensure (key.utf8ByteSize ≤ 128) (.Invalid "task key is limited to 128 characters")
  pure key

/-- `lease_seconds.unwrap_or(DEFAULT_LEASE_SECS).clamp(30, MAX_LEASE_SECS)`. -/
def lease_of (lease_seconds : Option ℤ) : ℕ :=
  (max 30 (min (lease_seconds.getD DEFAULT_LEASE_SECS) MAX_LEASE_SECS)).toNat

/-- `check_text`, of a text that may be left out. -/
def optional_text (field : String) (value : Option String) (max : ℕ) : BusResult (Option String) :=
  match value with
  | some v => (check_text field v max).map some
  | none => pure none

/-- `CreateInput`. -/
structure CreateInput where
  key : String
  title : String
  description : Option String
  depends_on : List String
  deriving DecidableEq, Repr

/-- The key of a dependency. -/
def dependency_key (key raw : String) : BusResult String := do
  let dep ← normalize_key raw
  ensure (dep ≠ key) (.Invalid "a task cannot depend on itself")
  pure dep

/-- The row of a new task. -/
def task_row (now : ℕ) (auth : AuthCtx) (key title : String) (description : Option String) (id : Uuid) :
    Task :=
  { id := id, team_id := auth.team_id, key := key, title := title, description := description,
    status := .open, claimed_by := none, claimed_session := none, claimed_at := none,
    lease_expires_at := none, result := none, created_by := some auth.agent_id, created_at := now,
    updated_at := now }

/-- `create_task`. The task, what it waits for and its first event commit together. -/
def create_task (now : ℕ) (auth : AuthCtx) (input : CreateInput) (db : TaskDb) :
    BusResult (Uuid × TaskDb) := do
  let key ← normalize_key input.key
  let title ← check_text "task title" input.title MAX_TITLE_BYTES
  ensure (!title.isEmpty) (.Invalid "task title cannot be empty")
  let description ← optional_text "task description" input.description MAX_DESCRIPTION_BYTES
  ensure (input.depends_on.length ≤ MAX_DEPENDENCIES) (.Invalid
    (s!"a task declares at most {MAX_DEPENDENCIES} dependencies; got " ++
      s!"{input.depends_on.length}. Group the upstream work into fewer tasks."))
  let dep_keys ← input.depends_on.mapM (dependency_key key)
  ensure (!db.tasks.any (at_key auth key)) (.Conflict
    s!"task '{key}' already exists; use get_task to inspect it")
  let id := fresh_id (db.tasks.map fun t => t.id)
  let dep_ids ← dep_keys.mapM fun k => do
    let d ← fetch (one (at_key auth k) db.tasks)
      (.NotFound s!"dependency '{k}' does not exist; create it first")
    pure d.id
  pure (id, { db with
    tasks := insert_into (task_row now auth key title description id) db.tasks
    task_deps := db.task_deps ++ dep_ids.dedup.map fun d => ⟨id, d⟩
    task_events := log_event now auth "created" (some title) id db.task_events })

/-- `UPDATE tasks SET f WHERE p RETURNING id`, with its event. -/
def write_task (p : Task → Bool) (f : Task → Task) (event : Uuid → List TaskEvent → List TaskEvent)
    (db : TaskDb) : Option TaskDb :=
  (one p db.tasks).map fun t => { db with
    tasks := update p f db.tasks
    task_events := event t.id db.task_events }

/-- `claim_task`: whether the claim was made. -/
def claim_task (now : ℕ) (seen : TaskDb) (auth : AuthCtx) (key : String) (lease_seconds : Option ℤ)
    (db : TaskDb) : BusResult (Bool × TaskDb) := do
  let key ← normalize_key key
  guard now auth db.toDb
  match write_task (rechecked seen (claimable now auth key seen))
      (claimed_row now auth (lease_of lease_seconds)) (log_event now auth "claimed" none) db with
  | some db' => pure (true, db')
  | none => pure (false, db)

/-- Why `claim_task` made no claim. -/
def refusal (now : ℕ) (auth : AuthCtx) (key : String) (db : TaskDb) : BusResult String := do
  let current ← fetch_task now auth key db
  if current.blocked then
    pure ("blocked by unfinished dependencies: " ++ ", ".intercalate current.depends_on)
  else if current.status = .claimed then pure (holder_reason auth current)
  else pure s!"task is {current.status.name}"

/-- The row `claim_next_task` picks: the oldest available one that nobody has
locked. -/
def candidate (now : ℕ) (seen : TaskDb) (auth : AuthCtx) (locked : Uuid → Bool) (db : TaskDb) :
    Option Task :=
  (select (available now auth seen) (fun t => t.created_at) seen.tasks).find? fun t₀ =>
    !locked t₀.id && db.tasks.any fun t => t.id == t₀.id && available now auth seen t

/-- `claim_next_task`. -/
def claim_next_task (now : ℕ) (seen : TaskDb) (auth : AuthCtx) (lease_seconds : Option ℤ)
    (locked : Uuid → Bool) (db : TaskDb) : BusResult (Bool × TaskDb) := do
  guard now auth db.toDb
  match candidate now seen auth locked db with
  | none => pure (false, db)
  | some c => pure (true, { db with
      tasks := update (fun t => t.id == c.id) (claimed_row now auth (lease_of lease_seconds)) db.tasks
      task_events := log_event now auth "claimed" (some "via claim_next_task") c.id db.task_events })

/-- `renew_lease`. -/
def renew_lease (now : ℕ) (seen : TaskDb) (auth : AuthCtx) (key : String) (lease_seconds : Option ℤ)
    (db : TaskDb) : BusResult (Unit × TaskDb) := do
  let key ← normalize_key key
  guard now auth db.toDb
  let db' ← fetch (write_task (rechecked seen (renewable now auth key))
    (renewed_row now (lease_of lease_seconds)) (fun _ t => t) db) (no_claim_here now auth key db)
  pure ((), db')

/-- `release_task`. -/
def release_task (now : ℕ) (seen : TaskDb) (auth : AuthCtx) (key : String) (db : TaskDb) :
    BusResult (Unit × TaskDb) := do
  let key ← normalize_key key
  guard now auth db.toDb
  let db' ← fetch (write_task (rechecked seen (releasable auth key)) (released_row now)
    (log_event now auth "released" none) db) (no_claim_here now auth key db)
  pure ((), db')

/-- Why `complete_task` finished nothing. -/
def not_completed (now : ℕ) (auth : AuthCtx) (key : String) (db : TaskDb) : BusError :=
  match fetch_task now auth key db with
  | .ok current =>
    if current.status = .claimed then .Conflict
      (s!"task '{key}' is {holder_reason auth current}. Completing it would end work somebody else " ++
        "is doing; ask them, or wait for the lease to expire.")
    else .Conflict s!"task '{key}' is already {current.status.name}"
  | .error e => e

/-- `complete_task`. -/
def complete_task (now : ℕ) (seen : TaskDb) (auth : AuthCtx) (key : String) (result : Option String)
    (db : TaskDb) : BusResult (Unit × TaskDb) := do
  let key ← normalize_key key
  let result ← optional_text "task result" result MAX_RESULT_BYTES
  guard now auth db.toDb
  let db' ← fetch (write_task (rechecked seen (completable now auth key)) (completed_row now result)
    (log_event now auth "completed" result) db) (not_completed now auth key db)
  pure ((), db')

end CrewSync.Tasks
