/-
`store/tasks.rs`, the reading half: what `get_task` and `list_tasks` show of the board,
and the claims `whoami` counts.

A list is shown in pages. A page is a statement of its own, and so is the count of
open and claimed tasks next to it, which is why `list_tasks` takes two boards and two
clocks. A **cursor** is the place of the last task shown, encoded; the encoding, the
hash that ties a cursor to its filters and the range of a timestamp are other people's
code, and `Crates` is what is used of them.

Left out, as from the board itself: metadata and attachments.
-/
import Mathlib.Data.Prod.Lex
import Mathlib.Data.String.Basic
import Mathlib.Order.Lattice
import CrewSync.Paging
import CrewSync.Tasks

set_option autoImplicit false

namespace CrewSync.TaskLists

open Error Schema Rows Auth
open Tasks

/-- `MAX_LIMIT`. -/
def MAX_LIMIT : ℤ := 200

/-! ## One task -/

/-- What is left of a row's `TaskInfo` when `r.lease_expired` is known. -/
def task_info (now : ℕ) (db : TaskDb) (t : Task) : TaskInfo :=
  let name := t.claimed_by.bind fun a => (one (fun x => x.id == a) db.agents).map fun x => x.name
  let keys := (db.task_deps.filter fun td => td.task_id == t.id).filterMap fun td =>
    (one (fun d => d.id == td.blocked_by_task_id) db.tasks).map fun d => d.key
  let deps := keys.insertionSort fun a b => a ≤ b
  if t.status == .claimed && t.lease_expires_at.any fun x => x ≤ now then
    ⟨.open, deps, blocked db t.id, none, none, none, true, name⟩
  else
    ⟨t.status, deps, blocked db t.id, name, t.claimed_session.filter fun s => !s.isEmpty,
      (t.lease_expires_at.filter fun _ => t.status == .claimed).map fun x => (x - now) / 1000000,
      false, none⟩

/-- `TaskInfo`, with the fields no refusal reads. -/
structure TaskEntry extends TaskInfo where
  key : String
  title : String
  description : Option String
  claimed_at : Option ℕ
  lease_expires_at : Option ℕ
  result : Option String
  created_by : Option String
  created_at : ℕ
  updated_at : ℕ
  deriving DecidableEq, Repr

/-- A row of `TASK_SELECT`, and `From<TaskRow> for TaskInfo`. -/
def task_entry (now : ℕ) (db : TaskDb) (t : Task) : TaskEntry :=
  let lapsed := (task_info now db t).lease_expired
  { task_info now db t with
    key := t.key
    title := t.title
    description := t.description
    claimed_at := if lapsed then none else t.claimed_at
    lease_expires_at := if lapsed then none else t.lease_expires_at
    result := t.result
    created_by := t.created_by.bind fun a => (one (fun x => x.id == a) db.agents).map fun x => x.name
    created_at := t.created_at
    updated_at := t.updated_at }

/-- `EFFECTIVE_STATUS`. -/
def effective_status (now : ℕ) (t : Task) : TaskStatus :=
  if t.status == .claimed && t.lease_expires_at.any fun x => x ≤ now then .open else t.status

/-- `TaskEventInfo`. -/
structure TaskEventInfo where
  event : String
  agent : Option String
  detail : Option String
  created_at : ℕ
  deriving DecidableEq, Repr

/-- `TaskDetail`. -/
structure TaskDetail where
  task : TaskEntry
  history : List TaskEventInfo
  deriving DecidableEq, Repr

/-- `get_task`. The task and its history are two statements, and only the second
trims the key. -/
def get_task (now : ℕ) (auth : AuthCtx) (key : String) (db db' : TaskDb) : BusResult TaskDetail := do
  let t ← fetch (one (at_key auth key) db.tasks) (.NotFound s!"task '{key}'")
  let events := db'.task_events.filter fun e =>
    db'.tasks.any fun x => x.id == e.task_id && at_key auth (trim key) x
  pure ⟨task_entry now db t, events.map fun e =>
    ⟨e.event, e.agent_id.bind fun a => (one (fun x => x.id == a) db'.agents).map fun x => x.name,
      e.detail, e.created_at⟩⟩

/-- The claims `whoami` counts as this window's, `open_claimed_tasks`. -/
def counted (auth : AuthCtx) (t : Task) : Bool :=
  t.claimed_by == some auth.agent_id && t.status == .claimed &&
    t.claimed_session.getD "" == auth.session

def open_claimed_tasks (auth : AuthCtx) (db : TaskDb) : ℕ := db.tasks.countP (counted auth)

/-! ## Where a page starts -/

/-- `PageCursor`. -/
structure PageCursor where
  v : ℕ
  r : ℤ
  u : ℤ
  k : String
  f : String
  deriving DecidableEq, Repr

/-- What is used of `serde_json` and `base64`, of `sha2`, and of `chrono`. -/
structure Crates where
  /-- The JSON of a cursor in base64, URL-safe and without padding. -/
  encode : PageCursor → String
  decode : String → Option PageCursor
  /-- The first eight bytes of the SHA-256 of a text, in hexadecimal. -/
  sha256 : String → String
  from_timestamp_micros : ℤ → Option ℤ

/-- What a page of the list relies on: what was encoded is decoded again, also when a
client has put blanks around it, and the instants in the rows are in range. -/
structure Crates.Lawful (crates : Crates) (db : TaskDb) : Prop where
  decode_encode : ∀ c, crates.decode (trim (crates.encode c)) = some c
  nonblank : ∀ c, (trim (crates.encode c)).isEmpty = false
  instants : ∀ t ∈ db.tasks, crates.from_timestamp_micros t.updated_at = some t.updated_at

/-- `status_rank`. -/
def status_rank (s : TaskStatus) : ℤ :=
  match s with
  | .claimed => 0
  | .open => 1
  | _ => 2

/-- The place of a task in the list: its status, the most recently updated first, then
its key. -/
abbrev Place := ℤ ×ₗ ℤᵒᵈ ×ₗ String

def place (r u : ℤ) (k : String) : Place := toLex (r, toLex (OrderDual.toDual u, k))

/-- `ORDER BY (rank), t.updated_at DESC, t.key ASC`. -/
def place_of (now : ℕ) (t : Task) : Place :=
  place (status_rank (effective_status now t)) t.updated_at t.key

/-- `TaskPageQuery`. -/
structure TaskPageQuery where
  status : Option String
  mine_only : Bool
  limit : ℤ
  project_prefix : Option String
  cursor : Option String
  deriving DecidableEq, Repr

/-- The filters of a page, once checked. -/
structure PageFilter where
  status : Option String
  mine_only : Bool
  prefix_ : Option String
  deriving DecidableEq, Repr

/-- The first checks of `list_tasks`. -/
def page_filter (query : TaskPageQuery) : BusResult PageFilter := do
  let status := (query.status.map fun s => to_lowercase (trim s)).filter fun s => s != "any"
  ensure (status.all fun s => ["open", "claimed", "done", "cancelled"].contains s) (.Invalid
    "status must be one of: open, claimed, done, cancelled, any")
  let prefix_ := (query.project_prefix.map trim).filter fun p => !p.isEmpty
  ensure (prefix_.all fun p => p.utf8ByteSize ≤ 200) (.Invalid
    "project_prefix is longer than a task key can be (200 bytes); shorten it")
  pure ⟨status, query.mine_only, prefix_⟩

/-- `page_fingerprint`. -/
def page_fingerprint (crates : Crates) (auth : AuthCtx) (filter : PageFilter) : String :=
  let window := if filter.mine_only then s!"{auth.agent_id}/{auth.session}" else ""
  let status := filter.status.getD ""
  let starts := filter.prefix_.getD ""
  crates.sha256 s!"{auth.team_id}\u001f{status}\u001f{filter.mine_only}\u001f{starts}\u001f{window}"

/-- `decode_cursor`. -/
def decode_cursor (crates : Crates) (raw fingerprint : String) : BusResult PageCursor := do
  let unusable := .Invalid ("cursor is not one list_tasks issued. Pass next_cursor exactly as " ++
    "returned, or call list_tasks without a cursor to start from the first page.")
  let cursor ← fetch (crates.decode (trim raw)) unusable
  ensure (cursor.v = 1) unusable
  ensure (cursor.f = fingerprint) (.Invalid
    ("this cursor was issued for different filters (status, mine_only or project_prefix) or, with " ++
      "mine_only, for another window. Repeat the call from the same window with the same filters " ++
      "as the page it came from, or call list_tasks without a cursor to start again."))
  pure cursor

/-- `after`: the place the page starts behind. -/
def page_start (crates : Crates) (cursor : Option String) (fingerprint : String) :
    BusResult (Option Place) :=
  match cursor.filter fun c => !(trim c).isEmpty with
  | none => pure none
  | some raw => do
    let c ← decode_cursor crates raw fingerprint
    let u ← fetch (crates.from_timestamp_micros c.u) (.Invalid
      ("cursor is not one list_tasks issued. Call list_tasks without a cursor to start from the " ++
        "first page."))
    pure (some (place c.r u c.k))

/-! ## A page -/

/-- `status` is the name of the task's. -/
def of_status (now : ℕ) (status : Option String) (t : Task) : Bool :=
  status.all fun s => (effective_status now t).name == s

/-- "mine". -/
def is_mine (now : ℕ) (auth : AuthCtx) (t : Task) : Bool :=
  held_by auth t && t.lease_expires_at.all fun x => now < x

/-- `left(t.key, char_length($7)) = $7`. -/
def under (prefix_ : Option String) (t : Task) : Bool :=
  prefix_.all fun p => t.key.toList.take p.toList.length == p.toList

/-- The `WHERE` clause of a page, but for where it starts. -/
def matching (now : ℕ) (auth : AuthCtx) (filter : PageFilter) (t : Task) : Bool :=
  t.team_id == auth.team_id && of_status now filter.status t &&
    (!filter.mine_only || is_mine now auth t) && under filter.prefix_ t

/-- `WHERE … ORDER BY …`: strictly after the last task of the previous page. -/
def page_rows (now : ℕ) (auth : AuthCtx) (filter : PageFilter) (after : Option Place) (db : TaskDb) :
    List Task :=
  ((db.tasks.filter (matching now auth filter)).filter fun t => after.all fun c => c < place_of now t)
    |>.insertionSort fun a b => place_of now a ≤ place_of now b

/-- `TaskList`. -/
structure TaskList where
  tasks : List TaskEntry
  «open» : ℕ
  claimed : ℕ
  next_cursor : Option String
  has_more : Bool
  deriving DecidableEq, Repr

/-- The cursor of the page that ends with `last`. -/
def cursor_of (now : ℕ) (db : TaskDb) (fingerprint : String) (last : Task) : PageCursor :=
  ⟨1, status_rank (task_entry now db last).status, last.updated_at, last.key, fingerprint⟩

/-- The tasks of the team in a status. -/
def count_of (now : ℕ) (auth : AuthCtx) (status : TaskStatus) (db : TaskDb) : ℕ :=
  db.tasks.countP fun t => t.team_id == auth.team_id && effective_status now t == status

/-- `limit.clamp(1, MAX_LIMIT)`. -/
def page_size (limit : ℤ) : ℕ := clamp limit MAX_LIMIT

/-- `list_tasks`. One row more than asked for tells whether there are more. -/
def list_tasks (crates : Crates) (now now' : ℕ) (auth : AuthCtx) (query : TaskPageQuery)
    (db db' : TaskDb) : BusResult TaskList := do
  let limit := page_size query.limit
  let filter ← page_filter query
  let fingerprint := page_fingerprint crates auth filter
  let after ← page_start crates query.cursor fingerprint
  let rows := (page_rows now auth filter after db).take (limit + 1)
  let has_more := limit < rows.length
  let shown := rows.take limit
  pure {
    tasks := shown.map (task_entry now db)
    «open» := count_of now' auth .open db'
    claimed := count_of now' auth .claimed db'
    next_cursor := if has_more then
        shown.getLast?.map fun t => crates.encode (cursor_of now db fingerprint t)
      else none
    has_more := has_more }

/-! ## What is shown of a task -/

section Shown

variable {now : ℕ} {db : TaskDb} {t : Task}

@[simp] theorem task_info_status : (task_info now db t).status = effective_status now t := by
  unfold task_info effective_status
  split
  · rfl
  · rfl

@[simp] theorem task_info_blocked : (task_info now db t).blocked = blocked db t.id := by
  unfold task_info
  split
  · rfl
  · rfl

theorem effective_open : effective_status now t = .open ↔
    t.status = .open ∨ t.status = .claimed ∧ ∃ x, t.lease_expires_at = some x ∧ x ≤ now := by
  unfold effective_status
  split
  · rename_i h
    simp only [Bool.and_eq_true, beq_iff_eq, Option.any_eq_true, decide_eq_true_eq] at h
    simp [h]
  · rename_i h
    simp only [Bool.and_eq_true, beq_iff_eq, Option.any_eq_true, decide_eq_true_eq] at h
    simp [h]

theorem effective_claimed : effective_status now t = .claimed ↔
    t.status = .claimed ∧ ∀ x, t.lease_expires_at = some x → now < x := by
  unfold effective_status
  split
  · rename_i h
    simp only [Bool.and_eq_true, beq_iff_eq, Option.any_eq_true, decide_eq_true_eq] at h
    obtain ⟨-, x, hx, hle⟩ := h
    simp only [reduceCtorEq, false_iff, not_and, not_forall, not_lt]
    exact fun _ => ⟨x, hx, hle⟩
  · rename_i h
    simp only [Bool.and_eq_true, beq_iff_eq, Option.any_eq_true, decide_eq_true_eq, not_and,
      not_exists, not_le] at h
    exact ⟨fun hst => ⟨hst, h hst⟩, And.left⟩

/-- The two tables of ranks are one: what a cursor says in Rust is the place the row
has in SQL. -/
theorem cursor_place (db : TaskDb) (fingerprint : String) :
    place (cursor_of now db fingerprint t).r (cursor_of now db fingerprint t).u
      (cursor_of now db fingerprint t).k = place_of now t := by
  unfold cursor_of place_of task_entry
  rw [task_info_status]

theorem place_of_key {a b : Task} (h : place_of now a = place_of now b) : a.key = b.key := by
  have hinner := (Prod.mk.inj h).2
  exact (Prod.mk.inj hinner).2

end Shown

/-! ## Following the pages -/

section Pages

variable {crates : Crates} {now now' : ℕ} {auth : AuthCtx} {query : TaskPageQuery} {db db' : TaskDb}
  {filter : PageFilter} {after : Option Place} {t : Task}

theorem page_rows_eq (after : Option Place) : page_rows now auth filter after db =
    Paging.rest (place_of now) after (db.tasks.filter (matching now auth filter)) := rfl

/-- What `list_tasks` answers to a cursor: the tasks, and where the next page starts. -/
def page (crates : Crates) (now now' : ℕ) (auth : AuthCtx) (query : TaskPageQuery) (db db' : TaskDb)
    (cursor : Option String) : Option (List TaskEntry × Option String) :=
  (list_tasks crates now now' auth { query with cursor := cursor } db db').toOption.map fun l =>
    (l.tasks, l.next_cursor)

/-- A page that was asked for with a cursor that is understood. -/
theorem page_eq {cursor : Option String} (hfilter : page_filter query = .ok filter)
    (hstart : page_start crates cursor (page_fingerprint crates auth filter) = .ok after) :
    page crates now now' auth query db db' cursor =
      some (((page_rows now auth filter after db).take (page_size query.limit)).map (task_entry now db),
        (if page_size query.limit < (page_rows now auth filter after db).length then
          ((page_rows now auth filter after db).take (page_size query.limit)).getLast?.map fun t =>
            crates.encode (cursor_of now db (page_fingerprint crates auth filter) t)
        else none)) := by
  have hfilter' : page_filter { query with cursor := cursor } = .ok filter := hfilter
  have htake (l : List Task) (n : ℕ) : (l.take (n + 1)).take n = l.take n := by
    rw [List.take_take]
    congr 1
    omega
  have hmore (l : List Task) (n : ℕ) : (n < (l.take (n + 1)).length) = (n < l.length) := by
    rw [List.length_take, eq_iff_iff]
    omega
  simp only [page, list_tasks, hfilter', hstart, bind, Except.bind, pure, Except.pure,
    Except.toOption, Option.map_some, htake, hmore]

/-- A cursor that was issued leads to the place it was issued for. -/
theorem page_start_encode (hc : crates.Lawful db) (ht : t ∈ db.tasks) {fingerprint : String} :
    page_start crates (some (crates.encode (cursor_of now db fingerprint t))) fingerprint =
      .ok (some (place_of now t)) := by
  have hkept : ((some (crates.encode (cursor_of now db fingerprint t))).filter fun c =>
      !(trim c).isEmpty) = some (crates.encode (cursor_of now db fingerprint t)) := by
    rw [Option.filter_some, hc.nonblank]
    rfl
  have hdecode : decode_cursor crates (crates.encode (cursor_of now db fingerprint t)) fingerprint =
      .ok (cursor_of now db fingerprint t) := by
    simp only [decode_cursor, hc.decode_encode, fetch, ensure, cursor_of, bind, Except.bind, if_true]
    rfl
  unfold page_start
  rw [hkept]
  simp only [hdecode, bind, Except.bind]
  have hu : (cursor_of now db fingerprint t).u = (t.updated_at : ℤ) := rfl
  rw [hu, hc.instants t ht, ← cursor_place db fingerprint]
  rfl

theorem page_size_pos (limit : ℤ) : 0 < page_size limit := clamp_pos _ _

/-- Two tasks of a page have two keys, so no two share a place. -/
theorem keyed_place (hkeys : Keyed (fun t : Task => (t.team_id, t.key)) db.tasks) :
    Keyed (place_of now) (db.tasks.filter (matching now auth filter)) := by
  have hfilter : Keyed (fun t : Task => (t.team_id, t.key))
      (db.tasks.filter (matching now auth filter)) :=
    List.Nodup.sublist (List.Sublist.map _ List.filter_sublist) hkeys
  refine List.Nodup.map_on ?_ (List.Nodup.of_map _ hfilter)
  intro a ha b hb heq
  have hteam {x : Task} (hx : x ∈ db.tasks.filter (matching now auth filter)) :
      x.team_id = auth.team_id := by
    have hx := (List.mem_filter.mp hx).2
    simp only [matching, Bool.and_eq_true, beq_iff_eq] at hx
    exact hx.1.1.1
  exact hfilter.eq ha hb (Prod.ext ((hteam ha).trans (hteam hb).symm) (place_of_key heq))

/-- The answers of `list_tasks` are the pages of a keyset list. -/
theorem task_pages (hc : crates.Lawful db) (hfilter : page_filter query = .ok filter) :
    Paging.Pages (place_of now) (task_entry now db) (page_size query.limit)
      (db.tasks.filter (matching now auth filter))
      (fun c k => page_start crates c (page_fingerprint crates auth filter) = .ok k)
      (page crates now now' auth query db db') := by
  refine ⟨fun c k hat hcur => ?_, fun c k k' hat hcur => ?_⟩
  · rw [page_eq hfilter hat, page_rows_eq]
    rw [Paging.cursor_eq_none (page_size_pos _)] at hcur
    rw [if_neg (by omega)]
  · unfold Paging.cursor at hcur
    split at hcur
    swap
    · cases hcur
    obtain ⟨last, hlast, rfl⟩ := Option.map_eq_some_iff.mp hcur
    have hshown := (Paging.mem_rest.mp (List.mem_of_mem_take (List.mem_of_getLast? hlast))).1
    refine ⟨crates.encode (cursor_of now db (page_fingerprint crates auth filter) last), ?_,
      page_start_encode hc (List.mem_of_mem_filter hshown)⟩
    rw [page_eq hfilter hat, page_rows_eq, if_pos ‹_›, hlast]
    rfl

/-- **Following the pages** from the first shows every task that matches, once and in
order, and nothing else. -/
theorem walk_iff (hc : crates.Lawful db) (hkeys : Keyed (fun t : Task => (t.team_id, t.key)) db.tasks)
    (hfilter : page_filter query = .ok filter) {l : List TaskEntry} :
    Paging.Walk (page crates now now' auth query db db') none l ↔
      l = (page_rows now auth filter none db).map (task_entry now db) := by
  rw [page_rows_eq]
  exact Paging.walk_iff (task_pages hc hfilter) (keyed_place hkeys) (page_size_pos _) rfl

theorem mem_page_rows :
    t ∈ page_rows now auth filter after db ↔
      t ∈ db.tasks ∧ matching now auth filter t = true ∧ ∀ c, after = some c → c < place_of now t := by
  rw [page_rows_eq, Paging.mem_rest, List.mem_filter, and_assoc]

end Pages

end CrewSync.TaskLists
