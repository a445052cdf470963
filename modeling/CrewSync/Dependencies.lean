/-
What a task waits for, over whole runs of the task board with `create_task` taken apart.

A creation is one transaction of four statements: the task is inserted, the keys it
depends on are looked up, the dependencies are inserted, and so is the first event. The
transactions of several creations are open side by side. A statement reads what was
committed by then and what its own transaction wrote, an insert of a key that an open
transaction has inserted waits for that one to end, and a commit shows everything at
once. Every other operation of the board is a step of `TaskClaims`.

The dependencies are acyclic because a task is inserted behind every task it waits for:
what a transaction finds was committed before it.
-/
import Mathlib.Logic.Relation
import CrewSync.TaskClaims

set_option autoImplicit false

namespace CrewSync.Dependencies

open Error Schema Rows Auth References
open Send Tasks Runs

/-- What a rank decreases along has no cycle. -/
theorem acyclic_of_rank {α : Type*} {r : α → α → Prop} (rank : α → ℕ)
    (h : ∀ a b, r a b → rank b < rank a) (a : α) : ¬ Relation.TransGen r a a := by
  have hlt : ∀ b, Relation.TransGen r a b → rank b < rank a := by
    intro b hb
    induction hb with
    | single hab => exact h _ _ hab
    | tail _ hbc ih => exact (h _ _ hbc).trans ih
  intro hcycle
  exact Nat.lt_irrefl _ (hlt a hcycle)

/-! ## The system -/

/-- How far a creation has come. -/
inductive Stage where
  | inserted
  | found (dep_ids : List Uuid)
  | linked (dep_ids : List Uuid)
  | logged (dep_ids : List Uuid)
  deriving DecidableEq, Repr

/-- An open transaction of `create_task`: the arguments as checked, and the id it got. -/
structure Tx where
  now : ℕ
  auth : AuthCtx
  key : String
  title : String
  description : Option String
  dep_keys : List String
  id : Uuid
  stage : Stage
  deriving DecidableEq, Repr

/-- One entry of a call's `depends_on`, as the caller wrote it. -/
structure Declared where
  task_id : Uuid
  team_id : Uuid
  depends_on : String
  deriving DecidableEq, Repr

/-- The state: the board, the creations that are open, what calls that got as far as a task
declared, and the ids of those that failed after that. -/
structure Sys where
  board : TaskClaims.Sys
  txs : List Tx
  declared : List Declared
  failed : List Uuid

/-- What can happen next. -/
inductive Act where
  | insert (now : ℕ) (auth : AuthCtx) (input : CreateInput)
  | lookup (id : Uuid)
  | link (id : Uuid)
  | log (id : Uuid)
  | commit (id : Uuid)
  /-- A statement fails, the process goes away or the connection does. -/
  | rollback (id : Uuid)
  /-- Any other part of the board, or of the server. -/
  | board (a : TaskClaims.Act)

/-- The arguments of a creation once checked. -/
structure Checked where
  key : String
  title : String
  description : Option String
  dep_keys : List String
  deriving DecidableEq, Repr

/-- What `create_task` checks before it opens its transaction. -/
def checked (input : CreateInput) : BusResult Checked := do
  let key ← normalize_key input.key
  let title ← check_text "task title" input.title MAX_TITLE_BYTES
  ensure (!title.isEmpty) (.Invalid "task title cannot be empty")
  let description ← optional_text "task description" input.description MAX_DESCRIPTION_BYTES
  ensure (input.depends_on.length ≤ MAX_DEPENDENCIES) (.Invalid
    (s!"a task declares at most {MAX_DEPENDENCIES} dependencies; got " ++
      s!"{input.depends_on.length}. Group the upstream work into fewer tasks."))
  let dep_keys ← input.depends_on.mapM (dependency_key key)
  pure ⟨key, title, description, dep_keys⟩

/-- The row of `tasks`. -/
def Tx.row (x : Tx) : Task := task_row x.now x.auth x.key x.title x.description x.id

/-- The tasks the transaction sees: those that are committed, and its own. -/
def Tx.sees (x : Tx) (db : TaskDb) : List Task := insert_into x.row db.tasks

/-- The id of a dependency among these tasks. -/
def dependency_id (auth : AuthCtx) (tasks : List Task) (key : String) : BusResult Uuid := do
  let d ← fetch (one (at_key auth key) tasks)
    (.NotFound s!"dependency '{key}' does not exist; create it first")
  pure d.id

/-- The ids of `dep_keys`. -/
def Tx.dep_ids (x : Tx) (db : TaskDb) : BusResult (List Uuid) :=
  x.dep_keys.mapM (dependency_id x.auth (x.sees db))

/-- The team of a task, as the transaction sees it. -/
def Tx.team (x : Tx) (db : TaskDb) (k : Uuid) : Option Uuid :=
  (one (fun t => t.id == k) (x.sees db)).map Task.team_id

/-- `CHECK (task_id <> blocked_by_task_id)`, the foreign key and
`assert_task_dep_same_team`. -/
def Tx.linkable (x : Tx) (db : TaskDb) (d : Uuid) : Bool :=
  x.id != d && (x.team db d).isSome && x.team db x.id == x.team db d

/-- The board with the creation in it. -/
def Tx.committed (x : Tx) (dep_ids : List Uuid) (db : TaskDb) : TaskDb := { db with
  tasks := insert_into x.row db.tasks
  task_deps := db.task_deps ++ dep_ids.map fun d => ⟨x.id, d⟩
  task_events := log_event x.now x.auth "created" (some x.title) x.id db.task_events }

/-- The open transaction of task `id`. -/
def Sys.tx (s : Sys) (id : Uuid) : Option Tx := one (fun x => x.id == id) s.txs

/-- Its next stage. -/
def Sys.advance (s : Sys) (id : Uuid) (stage : Stage) : Sys := { s with
  txs := update (fun x => x.id == id) (fun x => { x with stage := stage }) s.txs }

/-- It is rolled back. -/
def Sys.fail (s : Sys) (id : Uuid) : Sys := { s with
  txs := delete (fun x => x.id == id) s.txs
  failed := id :: s.failed }

/-- The ids that have been given out. -/
def Sys.ids (s : Sys) : List Uuid :=
  s.board.db.tasks.map (fun t => t.id) ++ s.txs.map (fun x => x.id) ++ s.failed

/-- The task is inserted. -/
def Sys.insert (s : Sys) (now : ℕ) (auth : AuthCtx) (depends_on : List String) (c : Checked) : Sys :=
  let id := fresh_id s.ids
  { s with
    txs := s.txs ++ [⟨now, auth, c.key, c.title, c.description, c.dep_keys, id, .inserted⟩]
    declared := s.declared ++ depends_on.map fun raw => ⟨id, auth.team_id, raw⟩ }

/-- Tasks are created above only, and nothing but the board logs an event. -/
def elsewhere (db : TaskDb) : TaskClaims.Act → Bool
  | .create_task _ _ _ => false
  | .other _ events => events.all db.task_events.contains
  | _ => true

/-- One step. A call that is refused before it has a task leaves everything as it is. -/
def step (s : Sys) : Act → Option Sys
  | .insert now auth input =>
    match checked input with
    | .error _ => some s
    | .ok c =>
      if s.txs.any (fun x => at_key auth c.key x.row) then none
      else if s.board.db.tasks.any (at_key auth c.key) then some s
      else if now ≤ s.board.clock then some (s.insert now auth input.depends_on c) else none
  | .lookup id =>
    match s.tx id with
    | some x => if x.stage = .inserted then
        match x.dep_ids s.board.db with
        | .ok ids => some (s.advance id (.found ids.dedup))
        | .error _ => some (s.fail id)
      else none
    | none => none
  | .link id =>
    match s.tx id with
    | some x =>
      match x.stage with
      | .found ids =>
        if ids.all (x.linkable s.board.db) then some (s.advance id (.linked ids))
        else some (s.fail id)
      | _ => none
    | none => none
  | .log id =>
    match s.tx id with
    | some x =>
      match x.stage with
      | .linked ids => some (s.advance id (.logged ids))
      | _ => none
    | none => none
  | .commit id =>
    match s.tx id with
    | some x =>
      match x.stage with
      | .logged ids => some { s with
          board := s.board.commit (x.committed ids s.board.db)
          txs := delete (fun y => y.id == id) s.txs }
      | _ => none
    | none => none
  | .rollback id => (s.tx id).map fun _ => s.fail id
  | .board a =>
    if elsewhere s.board.db a then (TaskClaims.step s.board a).map fun b => { s with board := b }
    else none

/-- A server before its first task. -/
def Sys.start (db : Db) (clock : ℕ) : Sys := ⟨⟨⟨{ toDb := db }, []⟩, clock⟩, [], [], []⟩

/-! ## The law -/

/-- The task waits for the other. -/
def DependsOn (db : TaskDb) (task other : Uuid) : Prop := ⟨task, other⟩ ∈ db.task_deps

/-- The boards there are and were. -/
def Sys.boards (s : Sys) : List TaskDb := s.board.db :: s.board.past

/-- A task that satisfies a declaration. -/
def Declared.named (d : Declared) (u : Task) : Bool :=
  u.team_id == d.team_id && u.key == trim d.depends_on

/-- What is declared for a task of the board is in force there. -/
def InForce (declared : List Declared) (v : TaskDb) : Prop :=
  ∀ t ∈ v.tasks, ∀ d ∈ declared, d.task_id = t.id →
    ∃ u ∈ v.tasks, d.named u = true ∧ DependsOn v t.id u.id

/-- Both ends of every dependency are tasks of one team. -/
def OneTeam (db : TaskDb) : Prop :=
  ∀ td ∈ db.task_deps, ∃ t ∈ db.tasks, ∃ u ∈ db.tasks,
    t.id = td.task_id ∧ u.id = td.blocked_by_task_id ∧ t.team_id = u.team_id

/-- Nothing on the board is about task `k`. -/
structure Absent (k : Uuid) (db : TaskDb) : Prop where
  tasks : ∀ t ∈ db.tasks, t.id ≠ k
  deps : ∀ td ∈ db.task_deps, td.task_id ≠ k ∧ td.blocked_by_task_id ≠ k
  events : ∀ e ∈ db.task_events, e.task_id ≠ k

/-- What the dependencies promise of a state. -/
structure DependencyLaw (s : Sys) : Prop where
  acyclic : ∀ k, ¬ Relation.TransGen (DependsOn s.board.db) k k
  one_team : OneTeam s.board.db
  /-- A creation that failed left nothing, and one that is open shows nothing. -/
  nothing_left : ∀ k, k ∈ s.failed ∨ (∃ x ∈ s.txs, x.id = k) → Absent k s.board.db
  /-- Every board that somebody may have read has a task with all it was declared to wait for. -/
  in_force : ∀ v ∈ s.boards, InForce s.declared v
  /-- So what can be claimed there has nothing left to wait for. -/
  claimable : ∀ v ∈ s.boards, ∀ t ∈ v.tasks, ∀ (now : ℕ) (auth : AuthCtx),
    claimable now auth t.key v t = true ∨ available now auth v t = true →
    ∀ d ∈ s.declared, d.task_id = t.id → ∃ u ∈ v.tasks, d.named u = true ∧ u.unfinished = false

/-! ## The rest of the board -/

/-- What the other operations leave: the tasks with their ids, teams and keys, and what
they wait for. An event they log is of such a task. -/
structure Kept (db db' : TaskDb) : Prop where
  tasks : db'.tasks.map (fun t => (t.id, t.team_id, t.key)) =
    db.tasks.map fun t => (t.id, t.team_id, t.key)
  deps : db'.task_deps = db.task_deps
  events : ∀ e ∈ db'.task_events, e ∈ db.task_events ∨ ∃ t ∈ db.tasks, t.id = e.task_id

section Board

variable {db db' seen : TaskDb} {now : ℕ} {auth : AuthCtx} {p : Task → Bool} {f : Task → Task} {key : String}
  {lease_seconds : Option ℤ} {claimed : Bool} {u : Unit}

theorem Kept.rfl (db : TaskDb) : Kept db db := ⟨Eq.refl _, Eq.refl _, fun _ he => Or.inl he⟩

/-- A row that is rewritten keeps its id, team and key. -/
theorem map_shape_update (hf : ∀ t, ((f t).id, (f t).team_id, (f t).key) = (t.id, t.team_id, t.key)) (l : List Task) :
    (update p f l).map (fun t => (t.id, t.team_id, t.key)) = l.map fun t => (t.id, t.team_id, t.key) :=
  map_key_update hf

theorem write_task_kept {event : Uuid → List TaskEvent → List TaskEvent} (h : write_task p f event db = some db')
    (hf : ∀ t, ((f t).id, (f t).team_id, (f t).key) = (t.id, t.team_id, t.key))
    (hevent : ∀ k l, ∀ e ∈ event k l, e ∈ l ∨ e.task_id = k) : Kept db db' := by
  unfold write_task at h
  obtain ⟨t, ht, rfl⟩ := Option.map_eq_some_iff.mp h
  refine ⟨map_shape_update hf _, Eq.refl _, fun e he => ?_⟩
  rcases hevent _ _ e he with he | he
  · exact Or.inl he
  · exact Or.inr ⟨t, mem_of_one ht, he.symm⟩

theorem mem_log_event {event : String} {detail : Option String} {k : Uuid} {l : List TaskEvent} :
    ∀ e ∈ log_event now auth event detail k l, e ∈ l ∨ e.task_id = k := by
  intro e he
  rcases mem_insert_into.mp he with he | rfl
  · exact Or.inl he
  · exact Or.inr (Eq.refl _)

theorem claim_task_kept (h : claim_task now seen auth key lease_seconds db = .ok (claimed, db')) : Kept db db' := by
  simp only [claim_task, bind_eq_ok] at h
  obtain ⟨k, -, _, -, h⟩ := h
  split at h
  · rename_i hwrite
    simp only [pure_eq_ok, Prod.mk.injEq] at h
    obtain ⟨-, rfl⟩ := h
    exact write_task_kept hwrite (fun _ => Eq.refl _) fun _ _ => mem_log_event
  · simp only [pure_eq_ok, Prod.mk.injEq] at h
    obtain ⟨-, rfl⟩ := h
    exact .rfl db

theorem claim_next_task_kept {locked : Uuid → Bool}
    (h : claim_next_task now seen auth lease_seconds locked db = .ok (claimed, db')) : Kept db db' := by
  simp only [claim_next_task, bind_eq_ok] at h
  obtain ⟨_, -, h⟩ := h
  split at h
  · simp only [pure_eq_ok, Prod.mk.injEq] at h
    obtain ⟨-, rfl⟩ := h
    exact .rfl db
  · rename_i c hc
    simp only [pure_eq_ok, Prod.mk.injEq] at h
    obtain ⟨-, rfl⟩ := h
    have hshape := map_shape_update (f := claimed_row now auth (lease_of lease_seconds))
      (p := fun t => t.id == c.id) (fun _ => Eq.refl _) db.tasks
    refine ⟨hshape, Eq.refl _, fun e he => ?_⟩
    rcases mem_log_event e he with he | he
    · exact Or.inl he
    · -- the row picked is there still
      have hpick := List.find?_some hc
      simp only [Bool.and_eq_true, List.any_eq_true, beq_iff_eq] at hpick
      obtain ⟨-, x, hx, hid, -⟩ := hpick
      exact Or.inr ⟨x, hx, hid.trans he.symm⟩

theorem renew_lease_kept (h : renew_lease now seen auth key lease_seconds db = .ok (u, db')) : Kept db db' := by
  simp only [renew_lease, bind_eq_ok, fetch_eq_ok, pure_eq_ok, Prod.mk.injEq] at h
  obtain ⟨k, -, _, -, _, hwrite, -, rfl⟩ := h
  exact write_task_kept hwrite (fun _ => Eq.refl _) fun _ _ _ he => Or.inl he

theorem release_task_kept (h : release_task now seen auth key db = .ok (u, db')) : Kept db db' := by
  simp only [release_task, bind_eq_ok, fetch_eq_ok, pure_eq_ok, Prod.mk.injEq] at h
  obtain ⟨k, -, _, -, _, hwrite, -, rfl⟩ := h
  exact write_task_kept hwrite (fun _ => Eq.refl _) fun _ _ => mem_log_event

theorem complete_task_kept {result : Option String}
    (h : complete_task now seen auth key result db = .ok (u, db')) : Kept db db' := by
  simp only [complete_task, bind_eq_ok, fetch_eq_ok, pure_eq_ok, Prod.mk.injEq] at h
  obtain ⟨k, -, r, -, _, -, _, hwrite, -, rfl⟩ := h
  exact write_task_kept hwrite (fun _ => Eq.refl _) fun _ _ => mem_log_event

theorem after_kept {α : Type} {r : BusResult (α × TaskDb)}
    (h : ∀ a db', r = .ok (a, db') → Kept db db') : Kept db (TaskClaims.after db r) := by
  unfold TaskClaims.after
  split
  · exact h _ _ (Eq.refl _)
  · exact .rfl db

/-- A step of the rest of the board: what it keeps, and what becomes of the past. -/
theorem board_step {b b' : TaskClaims.Sys} {a : TaskClaims.Act} (helse : elsewhere b.db a = true)
    (h : TaskClaims.step b a = some b') :
    Kept b.db b'.db ∧ ∀ v ∈ b'.past, v = b.db ∨ v ∈ b.past := by
  have hcommit : ∀ (op : TaskDb → TaskDb) {now seen : ℕ}, (∀ v, Kept b.db (op v)) →
      b.begun now seen op = some b' → Kept b.db b'.db ∧ ∀ v ∈ b'.past, v = b.db ∨ v ∈ b.past := by
    intro op now seen hop hb
    obtain ⟨-, v, -, rfl⟩ := TaskClaims.begun_cases hb
    exact ⟨hop v, fun v hv => List.mem_cons.mp hv⟩
  cases a with
  | tick n =>
    simp only [TaskClaims.step] at h
    split at h
    · obtain rfl := Option.some.inj h
      exact ⟨.rfl _, fun v hv => Or.inr hv⟩
    · cases h
  | create_task now auth input => exact absurd helse (by simp [elsewhere])
  | claim_task now seen auth key lease_seconds =>
    exact hcommit _ (fun v => after_kept fun _ _ hok => claim_task_kept hok) h
  | claim_next_task now seen auth lease_seconds locked =>
    exact hcommit _ (fun v => after_kept fun _ _ hok => claim_next_task_kept hok) h
  | renew_lease now seen auth key lease_seconds =>
    exact hcommit _ (fun v => after_kept fun _ _ hok => renew_lease_kept hok) h
  | release_task now seen auth key =>
    exact hcommit _ (fun v => after_kept fun _ _ hok => release_task_kept hok) h
  | complete_task now seen auth key result =>
    exact hcommit _ (fun v => after_kept fun _ _ hok => complete_task_kept hok) h
  | other base events =>
    obtain rfl := Option.some.inj h
    simp only [elsewhere, List.all_eq_true, List.contains_iff_mem] at helse
    exact ⟨⟨Eq.refl _, Eq.refl _, fun e he => Or.inl (helse e he)⟩, fun v hv => List.mem_cons.mp hv⟩

end Board

/-! ## The board as a graph -/

/-- A task stands behind what it waits for. -/
def Ordered (db : TaskDb) : Prop :=
  ∀ td ∈ db.task_deps, (db.tasks.map fun t => t.id).idxOf td.blocked_by_task_id <
    (db.tasks.map fun t => t.id).idxOf td.task_id

/-- What holds of every board. -/
structure Graph (db : TaskDb) : Prop where
  one_team : OneTeam db
  ordered : Ordered db
  events : ∀ e ∈ db.task_events, ∃ t ∈ db.tasks, t.id = e.task_id

/-- What a transaction found: tasks of its team, and one for each key. -/
structure Found (x : Tx) (ids : List Uuid) (db : TaskDb) : Prop where
  there : ∀ d ∈ ids, ∃ u ∈ db.tasks, u.id = d ∧ u.team_id = x.auth.team_id
  named : ∀ k ∈ x.dep_keys, ∃ u ∈ db.tasks, u.id ∈ ids ∧ u.team_id = x.auth.team_id ∧ u.key = k

section Graphs

variable {db db' : TaskDb} {x : Tx} {ids : List Uuid} {declared : List Declared} {k : Uuid}

theorem Kept.of_mem (h : Kept db db') :
    ∀ t' ∈ db'.tasks, ∃ t ∈ db.tasks, t.id = t'.id ∧ t.team_id = t'.team_id ∧ t.key = t'.key := by
  intro t' ht'
  obtain ⟨t, ht, heq⟩ := of_map_eq h.tasks t' ht'
  simp only [Prod.mk.injEq] at heq
  exact ⟨t, ht, heq⟩

theorem Kept.mem (h : Kept db db') :
    ∀ t ∈ db.tasks, ∃ t' ∈ db'.tasks, t'.id = t.id ∧ t'.team_id = t.team_id ∧ t'.key = t.key := by
  intro t ht
  obtain ⟨t', ht', heq⟩ := of_map_eq h.tasks.symm t ht
  simp only [Prod.mk.injEq] at heq
  exact ⟨t', ht', heq⟩

/-- The ids are what they were. -/
theorem Kept.map_id (h : Kept db db') : db'.tasks.map (fun t => t.id) = db.tasks.map fun t => t.id := by
  have hfst := congrArg (List.map Prod.fst) h.tasks
  rw [List.map_map, List.map_map] at hfst
  exact hfst

/-- What keeps the tasks keeps the graph. -/
theorem Graph.kept (hg : Graph db) (h : Kept db db') : Graph db' := by
  refine ⟨fun td htd => ?_, fun td htd => ?_, fun e he => ?_⟩
  · rw [h.deps] at htd
    obtain ⟨t, ht, u, hu, hid, huid, hteam⟩ := hg.one_team td htd
    obtain ⟨t', ht', hid', hteam', -⟩ := h.mem t ht
    obtain ⟨u', hu', huid', huteam', -⟩ := h.mem u hu
    refine ⟨t', ht', u', hu', hid'.trans hid, huid'.trans huid, ?_⟩
    rw [hteam', huteam', hteam]
  · rw [h.deps] at htd
    rw [h.map_id]
    exact hg.ordered td htd
  · have hold : ∃ t ∈ db.tasks, t.id = e.task_id := by
      rcases h.events e he with he | hthere
      · exact hg.events e he
      · exact hthere
    obtain ⟨t, ht, hid⟩ := hold
    obtain ⟨t', ht', hid', -⟩ := h.mem t ht
    exact ⟨t', ht', hid'.trans hid⟩

/-- A committed creation comes last, so behind everything it found. -/
theorem Graph.committed (hg : Graph db) (hfresh : ∀ t ∈ db.tasks, t.id ≠ x.id) (hf : Found x ids db) :
    Graph (x.committed ids db) := by
  have hmap : (x.committed ids db).tasks.map (fun t => t.id) = (db.tasks.map fun t => t.id) ++ [x.id] := by
    rw [Tx.committed, insert_into, List.map_append]
    rfl
  have hnew : x.id ∉ db.tasks.map fun t => t.id := by
    intro hin
    obtain ⟨t, ht, hid⟩ := List.mem_map.mp hin
    exact hfresh t ht hid
  have hmem : ∀ t ∈ db.tasks, t ∈ (x.committed ids db).tasks := fun t ht => mem_insert_into.mpr (Or.inl ht)
  have hself : x.row ∈ (x.committed ids db).tasks := mem_insert_into.mpr (Or.inr rfl)
  refine ⟨fun td htd => ?_, fun td htd => ?_, fun e he => ?_⟩
  · rcases List.mem_append.mp htd with htd | htd
    · obtain ⟨t, ht, u, hu, hrest⟩ := hg.one_team td htd
      exact ⟨t, hmem t ht, u, hmem u hu, hrest⟩
    · obtain ⟨d, hd, rfl⟩ := List.mem_map.mp htd
      obtain ⟨u, hu, hid, hteam⟩ := hf.there d hd
      exact ⟨x.row, hself, u, hmem u hu, rfl, hid, hteam.symm⟩
  · rw [hmap]
    rcases List.mem_append.mp htd with htd | htd
    · obtain ⟨t, ht, u, hu, hid, huid, -⟩ := hg.one_team td htd
      rw [List.idxOf_append_of_mem (List.mem_map.mpr ⟨t, ht, hid⟩),
        List.idxOf_append_of_mem (List.mem_map.mpr ⟨u, hu, huid⟩)]
      exact hg.ordered td htd
    · obtain ⟨d, hd, rfl⟩ := List.mem_map.mp htd
      obtain ⟨u, hu, hid, -⟩ := hf.there d hd
      have hin : d ∈ db.tasks.map fun t => t.id := List.mem_map.mpr ⟨u, hu, hid⟩
      rw [List.idxOf_append_of_mem hin, List.idxOf_append_of_notMem hnew]
      have hlt := List.idxOf_lt_length_iff.mpr hin
      omega
  · rcases mem_log_event e he with he | he
    · obtain ⟨t, ht, hid⟩ := hg.events e he
      exact ⟨t, hmem t ht, hid⟩
    · exact ⟨x.row, hself, he.symm⟩

/-- So no task waits for itself, over however many others. -/
theorem Graph.acyclic (hg : Graph db) : ∀ k, ¬ Relation.TransGen (DependsOn db) k k :=
  acyclic_of_rank (fun k => (db.tasks.map fun t => t.id).idxOf k)
    fun _ _ hdep => hg.ordered _ hdep

/-- What no task is, nothing on the board is about. -/
theorem Graph.absent (hg : Graph db) (h : ∀ t ∈ db.tasks, t.id ≠ k) : Absent k db := by
  refine ⟨h, fun td htd => ?_, fun e he heq => ?_⟩
  · obtain ⟨t, ht, u, hu, hid, huid, -⟩ := hg.one_team td htd
    rw [← hid, ← huid]
    exact ⟨h t ht, h u hu⟩
  · obtain ⟨t, ht, hid⟩ := hg.events e he
    exact h t ht (hid.trans heq)

theorem Found.kept (hf : Found x ids db) (h : Kept db db') : Found x ids db' := by
  refine ⟨fun d hd => ?_, fun key hkey => ?_⟩
  · obtain ⟨u, hu, hid, hteam⟩ := hf.there d hd
    obtain ⟨u', hu', hid', hteam', -⟩ := h.mem u hu
    exact ⟨u', hu', hid'.trans hid, hteam'.trans hteam⟩
  · obtain ⟨u, hu, hin, hteam, hk⟩ := hf.named key hkey
    obtain ⟨u', hu', hid', hteam', hk'⟩ := h.mem u hu
    exact ⟨u', hu', by rw [hid']; exact hin, hteam'.trans hteam, hk'.trans hk⟩

/-- Tasks that are added do not disturb what was found. -/
theorem Found.mono (hf : Found x ids db) (h : ∀ t ∈ db.tasks, t ∈ db'.tasks) : Found x ids db' := by
  refine ⟨fun d hd => ?_, fun key hkey => ?_⟩
  · obtain ⟨u, hu, hrest⟩ := hf.there d hd
    exact ⟨u, h u hu, hrest⟩
  · obtain ⟨u, hu, hrest⟩ := hf.named key hkey
    exact ⟨u, h u hu, hrest⟩

/-- What keeps the tasks keeps every declaration in force. -/
theorem InForce.kept (hi : InForce declared db) (h : Kept db db') : InForce declared db' := by
  intro t' ht' d hd hid
  obtain ⟨t, ht, htid, -⟩ := h.of_mem t' ht'
  obtain ⟨u, hu, hnamed, hdep⟩ := hi t ht d hd (hid.trans htid.symm)
  obtain ⟨u', hu', huid, hteam, hkey⟩ := h.mem u hu
  refine ⟨u', hu', ?_, ?_⟩
  · rw [Declared.named, hteam, hkey]
    exact hnamed
  · rw [DependsOn, h.deps, ← htid, huid]
    exact hdep

/-- A creation commits with all it was declared to wait for. -/
theorem InForce.committed (hi : InForce declared db) (hf : Found x ids db) (hx : ∀ d ∈ declared, d.task_id = x.id →
      d.team_id = x.auth.team_id ∧ trim d.depends_on ∈ x.dep_keys) :
    InForce declared (x.committed ids db) := by
  intro t ht d hd hid
  rcases mem_insert_into.mp ht with ht | rfl
  · obtain ⟨u, hu, hnamed, hdep⟩ := hi t ht d hd hid
    exact ⟨u, mem_insert_into.mpr (Or.inl hu), hnamed, List.mem_append_left _ hdep⟩
  · obtain ⟨hteam, hkey⟩ := hx d hd hid
    obtain ⟨u, hu, hin, huteam, hukey⟩ := hf.named _ hkey
    refine ⟨u, mem_insert_into.mpr (Or.inl hu), ?_, ?_⟩
    · simp only [Declared.named, Bool.and_eq_true, beq_iff_eq]
      exact ⟨huteam.trans hteam.symm, hukey⟩
    · exact List.mem_append_right _ (List.mem_map.mpr ⟨u.id, hin, rfl⟩)

/-- What is in force and what can be claimed: every declared dependency is finished. -/
theorem InForce.finished (hi : InForce declared db) {t : Task} (ht : t ∈ db.tasks)
    (hfree : blocked db t.id = false) {d : Declared} (hd : d ∈ declared) (hid : d.task_id = t.id) :
    ∃ u ∈ db.tasks, d.named u = true ∧ u.unfinished = false := by
  obtain ⟨u, hu, hnamed, hdep⟩ := hi t ht d hd hid
  refine ⟨u, hu, hnamed, ?_⟩
  by_contra hun
  have hblocked : blocked db t.id = true := by
    simp only [blocked, List.any_eq_true, Bool.and_eq_true, beq_iff_eq]
    exact ⟨_, hdep, rfl, u, hu, rfl, by simpa using hun⟩
  rw [hfree] at hblocked
  cases hblocked

end Graphs

/-! ## The steps -/

/-- The ids a stage has found. -/
def Stage.dep_ids : Stage → Option (List Uuid)
  | .inserted => none
  | .found ids | .linked ids | .logged ids => some ids

/-- What an open transaction knows. -/
structure Opened (s : Sys) (x : Tx) : Prop where
  fresh : ∀ t ∈ s.board.db.tasks, t.id ≠ x.id
  sound : x.id ∉ s.failed
  declared : ∀ d ∈ s.declared, d.task_id = x.id →
    d.team_id = x.auth.team_id ∧ trim d.depends_on ∈ x.dep_keys
  other : x.key ∉ x.dep_keys
  found : ∀ ids, x.stage.dep_ids = some ids → Found x ids s.board.db

/-- The invariant. -/
structure Inv (s : Sys) : Prop where
  graph : Graph s.board.db
  txs : Keyed Tx.id s.txs
  opened : ∀ x ∈ s.txs, Opened s x
  failed : ∀ k ∈ s.failed, ∀ t ∈ s.board.db.tasks, t.id ≠ k
  declared : ∀ d ∈ s.declared, d.task_id ∈ s.ids
  past : ∀ v ∈ s.board.past, ∀ t ∈ v.tasks, ∃ t' ∈ s.board.db.tasks, t'.id = t.id
  in_force : ∀ v ∈ s.boards, InForce s.declared v

/-- What a step does. -/
inductive Did (s : Sys) : Act → Sys → Prop
  | refused {now : ℕ} {auth : AuthCtx} {input : CreateInput} : Did s (.insert now auth input) s
  | inserted {now : ℕ} {auth : AuthCtx} {input : CreateInput} {c : Checked} : checked input = .ok c →
      Did s (.insert now auth input) (s.insert now auth input.depends_on c)
  | advanced {a : Act} {x : Tx} {stage : Stage} {ids : List Uuid} : x ∈ s.txs →
      stage.dep_ids = some ids →
      (x.stage.dep_ids = some ids ∨ ∃ l, x.dep_ids s.board.db = .ok l ∧ ids = l.dedup) →
      (∀ k, a ≠ .commit k) → (∀ b, a ≠ .board b) → Did s a (s.advance x.id stage)
  | failed {a : Act} {x : Tx} : x ∈ s.txs → (∀ k, a ≠ .commit k) → (∀ b, a ≠ .board b) →
      Did s a (s.fail x.id)
  | committed {x : Tx} {ids : List Uuid} : x ∈ s.txs → x.stage.dep_ids = some ids →
      Did s (.commit x.id) { s with
        board := s.board.commit (x.committed ids s.board.db)
        txs := delete (fun y => y.id == x.id) s.txs }
  | board {a : TaskClaims.Act} {b : TaskClaims.Sys} : Kept s.board.db b.db →
      (∀ v ∈ b.past, v = s.board.db ∨ v ∈ s.board.past) → Did s (.board a) { s with board := b }

section Steps

variable {s t : Sys} {a : Act} {x : Tx} {k : Uuid} {raw key : String} {input : CreateInput} {c : Checked}

theorem mem_of_tx (h : s.tx k = some x) : x ∈ s.txs ∧ x.id = k := by
  have hid := pos_of_one h
  exact ⟨mem_of_one h, by simpa using hid⟩

theorem step_did (h : step s a = some t) : Did s a t := by
  cases a with
  | insert now auth input =>
    simp only [step] at h
    split at h
    · obtain rfl := Option.some.inj h
      exact .refused
    · rename_i c hc
      split at h
      · cases h
      · split at h
        · obtain rfl := Option.some.inj h
          exact .refused
        · split at h
          · obtain rfl := Option.some.inj h
            exact .inserted hc
          · cases h
  | lookup id =>
    simp only [step] at h
    split at h
    · rename_i x hx
      obtain ⟨hmem, rfl⟩ := mem_of_tx hx
      split at h
      · split at h
        · rename_i l hl
          obtain rfl := Option.some.inj h
          exact .advanced hmem rfl (Or.inr ⟨l, hl, rfl⟩) (fun _ => by simp) fun _ => by simp
        · obtain rfl := Option.some.inj h
          exact .failed hmem (fun _ => by simp) fun _ => by simp
      · cases h
    · cases h
  | link id =>
    simp only [step] at h
    split at h
    · rename_i x hx
      obtain ⟨hmem, rfl⟩ := mem_of_tx hx
      split at h
      · rename_i ids hst
        split at h
        · obtain rfl := Option.some.inj h
          refine .advanced hmem rfl (Or.inl ?_) (fun _ => by simp) fun _ => by simp
          rw [hst]
          rfl
        · obtain rfl := Option.some.inj h
          exact .failed hmem (fun _ => by simp) fun _ => by simp
      · cases h
    · cases h
  | log id =>
    simp only [step] at h
    split at h
    · rename_i x hx
      obtain ⟨hmem, rfl⟩ := mem_of_tx hx
      split at h
      · rename_i ids hst
        obtain rfl := Option.some.inj h
        refine .advanced hmem rfl (Or.inl ?_) (fun _ => by simp) fun _ => by simp
        rw [hst]
        rfl
      · cases h
    · cases h
  | commit id =>
    simp only [step] at h
    split at h
    · rename_i x hx
      obtain ⟨hmem, rfl⟩ := mem_of_tx hx
      split at h
      · rename_i ids hst
        obtain rfl := Option.some.inj h
        refine .committed hmem ?_
        rw [hst]
        rfl
      · cases h
    · cases h
  | rollback id =>
    simp only [step] at h
    obtain ⟨x, hx, rfl⟩ := Option.map_eq_some_iff.mp h
    obtain ⟨hmem, rfl⟩ := mem_of_tx hx
    exact .failed hmem (fun _ => by simp) fun _ => by simp
  | board b =>
    simp only [step] at h
    split at h
    · rename_i helse
      obtain ⟨b', hb', rfl⟩ := Option.map_eq_some_iff.mp h
      obtain ⟨hkept, hpast⟩ := board_step helse hb'
      exact .board hkept hpast
    · cases h

/-! ### What a creation is checked for, and what it finds -/

theorem normalize_key_ok (h : normalize_key raw = .ok key) : key = trim raw := by
  simp only [normalize_key, bind_eq_ok, pure_eq_ok] at h
  obtain ⟨_, -, _, -, rfl⟩ := h
  rfl

theorem dependency_key_ok {dep : String} (h : dependency_key key raw = .ok dep) :
    dep = trim raw ∧ dep ≠ key := by
  simp only [dependency_key, bind_eq_ok, ensure_eq_ok, pure_eq_ok] at h
  obtain ⟨d, hd, _, hne, rfl⟩ := h
  exact ⟨normalize_key_ok hd, hne⟩

/-- Every entry of `depends_on` is looked up under its key, and none of these is the task's. -/
theorem checked_ok (h : checked input = .ok c) :
    (∀ raw ∈ input.depends_on, trim raw ∈ c.dep_keys) ∧ c.key ∉ c.dep_keys := by
  simp only [checked, bind_eq_ok, pure_eq_ok] at h
  obtain ⟨key, -, title, -, _, -, description, -, _, -, keys, hkeys, rfl⟩ := h
  refine ⟨fun raw hraw => ?_, fun hin => ?_⟩
  · obtain ⟨dep, hdep, hok⟩ := mapM_ok_of_mem hkeys raw hraw
    rw [← (dependency_key_ok hok).1]
    exact hdep
  · obtain ⟨raw, -, hok⟩ := mem_of_mapM_ok hkeys _ hin
    exact (dependency_key_ok hok).2 rfl

/-- What the lookup answers with. Its own task has another key, so what it finds is
committed. -/
theorem dep_ids_found {db : TaskDb} {l : List Uuid} (hother : x.key ∉ x.dep_keys)
    (h : x.dep_ids db = .ok l) : Found x l.dedup db := by
  have hone : ∀ key ∈ x.dep_keys, ∀ d : Task, one (at_key x.auth key) (x.sees db) = some d →
      d ∈ db.tasks ∧ d.team_id = x.auth.team_id ∧ d.key = key := by
    intro key hkey d hd
    have hat := pos_of_one hd
    simp only [at_key, Bool.and_eq_true, beq_iff_eq] at hat
    refine ⟨?_, hat⟩
    rcases mem_insert_into.mp (mem_of_one hd) with hmem | rfl
    · exact hmem
    · -- the task itself
      rw [← hat.2] at hkey
      exact absurd hkey hother
  refine ⟨fun d hd => ?_, fun key hkey => ?_⟩
  · obtain ⟨key, hkey, hok⟩ := mem_of_mapM_ok h d (List.mem_dedup.mp hd)
    simp only [dependency_id, bind_eq_ok, fetch_eq_ok, pure_eq_ok] at hok
    obtain ⟨u, hu, rfl⟩ := hok
    obtain ⟨hmem, hteam, -⟩ := hone key hkey u hu
    exact ⟨u, hmem, rfl, hteam⟩
  · obtain ⟨d, hd, hok⟩ := mapM_ok_of_mem h key hkey
    simp only [dependency_id, bind_eq_ok, fetch_eq_ok, pure_eq_ok] at hok
    obtain ⟨u, hu, rfl⟩ := hok
    obtain ⟨hmem, hteam, hk⟩ := hone key hkey u hu
    exact ⟨u, hmem, List.mem_dedup.mpr hd, hteam, hk⟩

/-! ### The invariant -/

theorem mem_ids : k ∈ s.ids ↔ (∃ t ∈ s.board.db.tasks, t.id = k) ∨ (∃ x ∈ s.txs, x.id = k) ∨ k ∈ s.failed := by
  simp only [Sys.ids, List.mem_append, List.mem_map, or_assoc]

/-- A creation inserts its task, which nobody else sees yet. -/
theorem Inv.insert (hs : Inv s) {now : ℕ} {auth : AuthCtx}
    (hc : checked input = .ok c) : Inv (s.insert now auth input.depends_on c) := by
  obtain ⟨hkeys, hother⟩ := checked_ok hc
  have hnew : ∀ k ∈ s.ids, k ≠ fresh_id s.ids := fun k hk => (lt_fresh_id hk).ne
  -- a declaration is an older one, or one of this call
  have hdecl : ∀ d ∈ (s.insert now auth input.depends_on c).declared,
      d ∈ s.declared ∨ ∃ raw ∈ input.depends_on, d = ⟨fresh_id s.ids, auth.team_id, raw⟩ := by
    intro d hd
    rcases List.mem_append.mp hd with hd | hd
    · exact Or.inl hd
    · obtain ⟨raw, hraw, rfl⟩ := List.mem_map.mp hd
      exact Or.inr ⟨raw, hraw, rfl⟩
  refine ⟨hs.graph, ?_, fun x hx => ?_, hs.failed, fun d hd => ?_, hs.past, fun v hv t ht d hd hid => ?_⟩
  · exact hs.txs.insert_into fun x hx => hnew _ (mem_ids.mpr (Or.inr (Or.inl ⟨x, hx, rfl⟩)))
  · rcases List.mem_append.mp hx with hx | hx
    · have ho := hs.opened x hx
      refine ⟨ho.fresh, ho.sound, fun d hd hid => ?_, ho.other, ho.found⟩
      rcases hdecl d hd with hd | ⟨raw, -, rfl⟩
      · exact ho.declared d hd hid
      · exact absurd hid.symm (hnew _ (mem_ids.mpr (Or.inr (Or.inl ⟨x, hx, rfl⟩))))
    · obtain rfl := List.mem_singleton.mp hx
      refine ⟨fun t ht => ?_, fun hin => ?_, fun d hd hid => ?_, hother, fun ids hids => ?_⟩
      · exact hnew _ (mem_ids.mpr (Or.inl ⟨t, ht, rfl⟩))
      · exact hnew _ (mem_ids.mpr (Or.inr (Or.inr hin))) rfl
      · rcases hdecl d hd with hd | ⟨raw, hraw, rfl⟩
        · exact absurd hid (hnew _ (hs.declared d hd))
        · exact ⟨rfl, hkeys raw hraw⟩
      · exact absurd hids (by simp [Stage.dep_ids])
  · rcases hdecl d hd with hd | ⟨raw, -, rfl⟩
    · rcases mem_ids.mp (hs.declared d hd) with htask | ⟨x, hx, hid⟩ | hfail
      · exact mem_ids.mpr (Or.inl htask)
      · exact mem_ids.mpr (Or.inr (Or.inl ⟨x, List.mem_append_left _ hx, hid⟩))
      · exact mem_ids.mpr (Or.inr (Or.inr hfail))
    · exact mem_ids.mpr (Or.inr (Or.inl ⟨_, List.mem_append_right _ (List.mem_singleton.mpr rfl), rfl⟩))
  · rcases hdecl d hd with hd | ⟨raw, -, rfl⟩
    · exact hs.in_force v hv t ht d hd hid
    · -- no board has a task with the new id
      have hthere : ∃ t' ∈ s.board.db.tasks, t'.id = t.id := by
        rcases List.mem_cons.mp hv with rfl | hv
        · exact ⟨t, ht, rfl⟩
        · exact hs.past v hv t ht
      obtain ⟨t', ht', hid'⟩ := hthere
      exact absurd (hid'.trans hid.symm) (hnew _ (mem_ids.mpr (Or.inl ⟨t', ht', rfl⟩)))

/-- It gets one statement further. -/
theorem Inv.advance (hs : Inv s) (hx : x ∈ s.txs) {stage : Stage}
    (hf : ∀ ids, stage.dep_ids = some ids → Found x ids s.board.db) : Inv (s.advance x.id stage) := by
  have hids : (s.advance x.id stage).ids = s.ids := by
    have hmap : (s.advance x.id stage).txs.map (fun y => y.id) = s.txs.map fun y => y.id :=
      map_key_update fun _ => rfl
    rw [Sys.ids, hmap]
    rfl
  refine ⟨hs.graph, hs.txs.update fun _ => rfl, fun y hy => ?_, hs.failed, fun d hd => ?_, hs.past,
    hs.in_force⟩
  · obtain ⟨z, hz, rfl⟩ := mem_update.mp hy
    have ho := hs.opened z hz
    split
    · rename_i heq
      obtain rfl := hs.txs.eq hz hx (by simpa using heq)
      exact ⟨ho.fresh, ho.sound, ho.declared, ho.other, fun ids hst =>
        ⟨(hf ids hst).there, (hf ids hst).named⟩⟩
    · exact ⟨ho.fresh, ho.sound, ho.declared, ho.other, ho.found⟩
  · rw [hids]
    exact hs.declared d hd

/-- The open transactions but one. -/
theorem mem_rest {y : Tx} (hy : y ∈ delete (fun z => z.id == k) s.txs) : y ∈ s.txs ∧ y.id ≠ k := by
  obtain ⟨hmem, hne⟩ := mem_delete.mp hy
  exact ⟨hmem, by simpa using hne⟩

/-- It is rolled back, and nothing is left of it. -/
theorem Inv.fail (hs : Inv s) (hx : x ∈ s.txs) : Inv (s.fail x.id) := by
  refine ⟨hs.graph, hs.txs.delete _, fun y hy => ?_, fun k hk => ?_, fun d hd => ?_, hs.past, hs.in_force⟩
  · obtain ⟨hmem, hne⟩ := mem_rest hy
    have ho := hs.opened y hmem
    refine ⟨ho.fresh, fun hin => ?_, ho.declared, ho.other, ho.found⟩
    rcases List.mem_cons.mp hin with heq | hin
    · exact hne heq
    · exact ho.sound hin
  · rcases List.mem_cons.mp hk with rfl | hk
    · exact (hs.opened x hx).fresh
    · exact hs.failed k hk
  · rcases mem_ids.mp (hs.declared d hd) with htask | ⟨y, hy, hid⟩ | hfail
    · exact mem_ids.mpr (Or.inl htask)
    · by_cases heq : y.id = x.id
      · exact mem_ids.mpr (Or.inr (Or.inr (List.mem_cons.mpr (Or.inl (hid.symm.trans heq)))))
      · exact mem_ids.mpr (Or.inr (Or.inl ⟨y, mem_delete.mpr ⟨hy, by simpa using heq⟩, hid⟩))
    · exact mem_ids.mpr (Or.inr (Or.inr (List.mem_cons_of_mem _ hfail)))

/-- It commits with all its dependencies. -/
theorem Inv.committed (hs : Inv s) (hx : x ∈ s.txs) {ids : List Uuid} (hst : x.stage.dep_ids = some ids) : Inv { s with
      board := s.board.commit (x.committed ids s.board.db)
      txs := delete (fun y => y.id == x.id) s.txs } := by
  have hox := hs.opened x hx
  have hmem : ∀ t ∈ s.board.db.tasks, t ∈ (x.committed ids s.board.db).tasks :=
    fun t ht => mem_insert_into.mpr (Or.inl ht)
  refine ⟨hs.graph.committed hox.fresh (hox.found ids hst), hs.txs.delete _, fun y hy => ?_,
    fun k hk t ht => ?_, fun d hd => ?_, fun v hv t ht => ?_, fun v hv => ?_⟩
  · obtain ⟨hy, hne⟩ := mem_rest hy
    have ho := hs.opened y hy
    refine ⟨fun t ht => ?_, ho.sound, ho.declared, ho.other, fun l hl => (ho.found l hl).mono hmem⟩
    rcases mem_insert_into.mp ht with ht | rfl
    · exact ho.fresh t ht
    · exact hne.symm
  · rcases mem_insert_into.mp ht with ht | rfl
    · exact hs.failed k hk t ht
    · intro heq
      rw [← heq] at hk
      exact hox.sound hk
  · rcases mem_ids.mp (hs.declared d hd) with ⟨t, ht, hid⟩ | ⟨y, hy, hid⟩ | hfail
    · exact mem_ids.mpr (Or.inl ⟨t, hmem t ht, hid⟩)
    · by_cases heq : y.id = x.id
      · exact mem_ids.mpr (Or.inl ⟨x.row, mem_insert_into.mpr (Or.inr rfl), heq.symm.trans hid⟩)
      · exact mem_ids.mpr (Or.inr (Or.inl ⟨y, mem_delete.mpr ⟨hy, by simpa using heq⟩, hid⟩))
    · exact mem_ids.mpr (Or.inr (Or.inr hfail))
  · have hthere : ∃ t' ∈ s.board.db.tasks, t'.id = t.id := by
      rcases List.mem_cons.mp hv with rfl | hv
      · exact ⟨t, ht, rfl⟩
      · exact hs.past v hv t ht
    obtain ⟨t', ht', hid⟩ := hthere
    exact ⟨t', hmem t' ht', hid⟩
  · rcases List.mem_cons.mp hv with rfl | hv
    · have hnow := hs.in_force s.board.db List.mem_cons_self
      exact hnow.committed (hox.found ids hst) hox.declared
    · exact hs.in_force v hv

/-- The rest of the board goes on beside it. -/
theorem Inv.board (hs : Inv s) {b : TaskClaims.Sys} (hk : Kept s.board.db b.db)
    (hpast : ∀ v ∈ b.past, v = s.board.db ∨ v ∈ s.board.past) : Inv { s with board := b } := by
  have hfresh : ∀ k, (∀ t ∈ s.board.db.tasks, t.id ≠ k) → ∀ t ∈ b.db.tasks, t.id ≠ k := by
    intro k h t' ht'
    obtain ⟨t, ht, hid, -⟩ := hk.of_mem t' ht'
    rw [← hid]
    exact h t ht
  have hstays : ∀ k, (∃ t ∈ s.board.db.tasks, t.id = k) → ∃ t ∈ b.db.tasks, t.id = k := by
    rintro k ⟨t, ht, hid⟩
    obtain ⟨t', ht', hid', -⟩ := hk.mem t ht
    exact ⟨t', ht', hid'.trans hid⟩
  refine ⟨hs.graph.kept hk, hs.txs, fun y hy => ?_, fun k hfail => hfresh k (hs.failed k hfail),
    fun d hd => ?_, fun v hv t ht => ?_, fun v hv => ?_⟩
  · have ho := hs.opened y hy
    exact ⟨hfresh _ ho.fresh, ho.sound, ho.declared, ho.other, fun ids hst => (ho.found ids hst).kept hk⟩
  · rcases mem_ids.mp (hs.declared d hd) with htask | hrest
    · exact mem_ids.mpr (Or.inl (hstays _ htask))
    · exact mem_ids.mpr (Or.inr hrest)
  · rcases hpast v hv with rfl | hv
    · exact hstays _ ⟨t, ht, rfl⟩
    · exact hstays _ (hs.past v hv t ht)
  · have hnow := hs.in_force s.board.db List.mem_cons_self
    rcases List.mem_cons.mp hv with rfl | hv
    · exact hnow.kept hk
    · rcases hpast v hv with rfl | hv
      · exact hnow
      · exact hs.in_force v (List.mem_cons_of_mem _ hv)

/-- The step lemma. -/
theorem Inv.step (hs : Inv s) (h : step s a = some t) : Inv t := by
  cases step_did h with
  | refused => exact hs
  | inserted hc => exact hs.insert hc
  | @advanced _ x stage ids hx hnext hids =>
    refine hs.advance hx fun l hl => ?_
    obtain rfl := Option.some.inj (hnext.symm.trans hl)
    rcases hids with hids | ⟨l, hlook, rfl⟩
    · exact (hs.opened x hx).found ids hids
    · exact dep_ids_found (hs.opened x hx).other hlook
  | failed hx => exact hs.fail hx
  | committed hx hst => exact hs.committed hx hst
  | board hk hpast => exact hs.board hk hpast

theorem Inv.start (db : Db) (clock : ℕ) : Inv (.start db clock) := by
  refine ⟨⟨fun _ h => ?_, fun _ h => ?_, fun _ h => ?_⟩, .nil _, fun _ h => ?_, fun _ h => ?_,
    fun _ h => ?_, fun _ h => ?_, fun v hv t ht => ?_⟩
  all_goals first
    | exact absurd h List.not_mem_nil
    | skip
  obtain rfl := List.mem_singleton.mp hv
  exact absurd ht List.not_mem_nil

end Steps

/-! ## A creation that nobody disturbs -/

/-- The transaction a creation opens when no other is open. -/
def first_tx (now : ℕ) (auth : AuthCtx) (c : Checked) (db : TaskDb) : Tx :=
  ⟨now, auth, c.key, c.title, c.description, c.dep_keys, fresh_id (db.tasks.map fun t => t.id), .inserted⟩

/-- Its own task is not among those a creation looks up. -/
theorem dep_ids_eq (x : Tx) (db : TaskDb) (hother : x.key ∉ x.dep_keys) :
    x.dep_ids db = x.dep_keys.mapM (dependency_id x.auth db.tasks) := by
  have hone : ∀ k, k ≠ x.key → one (at_key x.auth k) (x.sees db) = one (at_key x.auth k) db.tasks := by
    intro k hk
    have hself : at_key x.auth k x.row = false := by
      simp only [at_key, Bool.and_eq_false_iff, beq_eq_false_iff_ne]
      exact Or.inr hk.symm
    rw [Tx.sees, one_insert_into, hself]
    simp
  have hall : ∀ keys : List String, x.key ∉ keys →
      keys.mapM (dependency_id x.auth (x.sees db)) = keys.mapM (dependency_id x.auth db.tasks) := by
    intro keys
    induction keys with
    | nil => exact fun _ => rfl
    | cons k keys ih =>
      intro hkeys
      rw [List.mem_cons, not_or] at hkeys
      rw [List.mapM_cons, List.mapM_cons, ih hkeys.2, dependency_id, hone k (Ne.symm hkeys.1)]
      rfl
  exact hall x.dep_keys hother

/-- What the four statements and the commit make of a board nobody else writes. -/
def alone (now : ℕ) (auth : AuthCtx) (input : CreateInput) (db : TaskDb) : BusResult (Uuid × TaskDb) := do
  let c ← checked input
  ensure (!db.tasks.any (at_key auth c.key)) (.Conflict
    s!"task '{c.key}' already exists; use get_task to inspect it")
  let ids ← (first_tx now auth c db).dep_ids db
  pure ((first_tx now auth c db).id, (first_tx now auth c db).committed ids.dedup db)

/-- The statements of a creation, run one after the other, are `create_task`. -/
theorem create_task_eq (now : ℕ) (auth : AuthCtx) (input : CreateInput) (db : TaskDb) :
    create_task now auth input db = alone now auth input db := by
  have hsplit : create_task now auth input db = checked input >>= fun c =>
      ensure (!db.tasks.any (at_key auth c.key)) (.Conflict
        s!"task '{c.key}' already exists; use get_task to inspect it") >>= fun _ =>
      c.dep_keys.mapM (dependency_id auth db.tasks) >>= fun ids =>
      pure ((first_tx now auth c db).id, (first_tx now auth c db).committed ids.dedup db) := by
    unfold create_task checked
    simp only [bind_assoc, pure_bind]
    rfl
  rw [hsplit, alone]
  cases hc : checked input with
  | error e => rfl
  | ok c =>
    have hids := dep_ids_eq (first_tx now auth c db) db (checked_ok hc).2
    change (ensure _ _ >>= fun _ => _) = (ensure _ _ >>= fun _ => _)
    rw [hids]
    rfl

/-! ## The law of a run -/

/-- The steps that show others something. -/
def shows : Act → Bool
  | .commit _ | .board _ => true
  | _ => false

/-- What creations promise of a run from its start to `s`. -/
structure CreationLaw (tr : List (Trans Sys Act)) (s : Sys) : Prop where
  now : DependencyLaw s
  /-- Until it commits a creation leaves the board alone, and so does one that is refused. -/
  shown : ∀ e ∈ tr, shows e.act = false → e.post.board = e.pre.board
  /-- A creation that is over is there, or has failed. -/
  ended : ∀ e ∈ tr, ∀ x ∈ e.pre.txs, (∃ y ∈ e.post.txs, y.id = x.id) ∨ x.id ∈ e.post.failed ∨
    x.row ∈ e.post.board.db.tasks

theorem Inv.law {s : Sys} (hs : Inv s) : DependencyLaw s := by
  refine ⟨hs.graph.acyclic, hs.graph.one_team, fun k hk => hs.graph.absent ?_, hs.in_force,
    fun v hv t ht now auth hclaim d hd hid => ?_⟩
  · rcases hk with hk | ⟨x, hx, rfl⟩
    · exact hs.failed k hk
    · exact (hs.opened x hx).fresh
  · have hfree : blocked v t.id = false := by
      rcases hclaim with hclaim | hclaim
      · simp only [Tasks.claimable, Bool.and_eq_true, Bool.not_eq_true'] at hclaim
        exact hclaim.2
      · simp only [available, Bool.and_eq_true, Bool.not_eq_true'] at hclaim
        exact hclaim.2
    exact (hs.in_force v hv).finished ht hfree hd hid

theorem shown_step {s t : Sys} {a : Act} (h : step s a = some t) (hshow : shows a = false) :
    t.board = s.board := by
  cases step_did h with
  | committed | board => exact absurd hshow (by simp [shows])
  | _ => rfl

theorem ended_step {s t : Sys} {a : Act} (hs : Inv s) (h : step s a = some t) {x : Tx} (hx : x ∈ s.txs) :
    (∃ y ∈ t.txs, y.id = x.id) ∨ x.id ∈ t.failed ∨ x.row ∈ t.board.db.tasks := by
  cases step_did h with
  | refused | board => exact Or.inl ⟨x, hx, rfl⟩
  | inserted => exact Or.inl ⟨x, List.mem_append_left _ hx, rfl⟩
  | advanced =>
    left
    refine ⟨_, mem_update_of_mem hx, ?_⟩
    split <;> rfl
  | @failed _ y hy =>
    by_cases heq : x.id = y.id
    · exact Or.inr (Or.inl (List.mem_cons.mpr (Or.inl heq)))
    · exact Or.inl ⟨x, mem_delete.mpr ⟨hx, by simpa using heq⟩, rfl⟩
  | @committed y ids hy hst =>
    by_cases heq : x.id = y.id
    · obtain rfl := hs.txs.eq hx hy heq
      exact Or.inr (Or.inr (mem_insert_into.mpr (Or.inr rfl)))
    · exact Or.inl ⟨x, mem_delete.mpr ⟨hx, by simpa using heq⟩, rfl⟩

/-- **Dependencies are acyclic and creation is all or nothing**, in every run of the task
board: both ends of a dependency are of one team, a creation that failed or is not over
shows nowhere, and no board ever read has a task without all it was declared to wait for. -/
theorem dependencies_are_acyclic {db : Db} {clock : ℕ} {tr : List (Trans Sys Act)} {s : Sys}
    (h : Run (Rel step) (.start db clock) tr s) : CreationLaw tr s := by
  have hs : Inv s := h.invariant' (Inv.start db clock) fun _ _ _ hs hr => hs.step hr
  have hpre : ∀ e ∈ tr, Inv e.pre := h.invariant_pre (C := fun _ _ => True) (Inv.start db clock)
    (fun _ _ _ hs _ hr => hs.step hr) fun _ _ => trivial
  refine ⟨hs.law, fun e he hshow => ?_, fun e he x hx => ?_⟩
  · exact shown_step (h.rel e he) hshow
  · exact ended_step (hpre e he) (h.rel e he) hx

/-! ## A run -/

/-- Ada creates a task and Bob, side by side, one that waits for it; his first call looks too
early and leaves nothing, and Ada's task is claimed while his second is on its way. -/
def side_by_side : List Act :=
  [.insert 0 (TaskClaims.worker 1 "ada") ⟨"build", "Build", none, []⟩,
    .insert 0 (TaskClaims.worker 2 "bob") ⟨"ship", "Ship", none, ["build"]⟩,
    .lookup 2, .lookup 1, .link 1, .log 1, .commit 1,
    .insert 0 (TaskClaims.worker 2 "bob") ⟨"ship ", "Ship", none, [" build", "build"]⟩,
    .board (.claim_task 0 0 (TaskClaims.worker 1 "ada") "build" none),
    .lookup 3, .link 3, .log 3, .commit 3,
    .board (.claim_task 0 0 (TaskClaims.worker 2 "bob") "ship" none)]

theorem side_by_side_run : (exec step (.start TaskClaims.board.toDb 0) side_by_side).isSome = true := by decide

theorem dependencies_are_acyclic_side_by_side :
    CreationLaw ((exec step (.start TaskClaims.board.toDb 0) side_by_side).get side_by_side_run).1
      ((exec step (.start TaskClaims.board.toDb 0) side_by_side).get side_by_side_run).2 :=
  dependencies_are_acyclic (exec_get side_by_side_run)

end CrewSync.Dependencies
