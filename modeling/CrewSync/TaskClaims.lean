/-
Who is at work on what, over whole runs of the task board.

A step is one transaction at its commit. It began at some earlier moment (`now` is
behind the clock) and its statement read some earlier database (`seen`). Both make
it see less than there is: a lease that had run out when it began has run out, and
a dependency that was finished in what it saw is finished. That the second is so
rests on three facts about the past, kept as `Older`: a task stays, a finished task
stays finished, and what a task waits for is settled when it is created.
-/
import Mathlib.Data.List.Dedup
import CrewSync.Runs
import CrewSync.Tasks

set_option autoImplicit false

namespace CrewSync.TaskClaims

open Error Schema Rows Sessions References
open Tasks Runs

/-! ## The system -/

/-- The state: the board, the clock, and every board there was. -/
structure Sys extends Committed TaskDb where
  clock : ℕ

/-- What can happen next. -/
inductive Act where
  | tick (to_ : ℕ)
  | create_task (now : ℕ) (auth : AuthCtx) (input : CreateInput)
  | claim_task (now seen : ℕ) (auth : AuthCtx) (key : String) (lease_seconds : Option ℤ)
  | claim_next_task (now seen : ℕ) (auth : AuthCtx) (lease_seconds : Option ℤ) (locked : List Uuid)
  | renew_lease (now seen : ℕ) (auth : AuthCtx) (key : String) (lease_seconds : Option ℤ)
  | release_task (now seen : ℕ) (auth : AuthCtx) (key : String)
  | complete_task (now seen : ℕ) (auth : AuthCtx) (key : String) (result : Option String)
  /-- Any other part of the server commits; old events are pruned. -/
  | other (base : Db) (events : List TaskEvent)

/-- The board after an operation; a refused one leaves it alone. -/
def after {α : Type} (db : TaskDb) (r : BusResult (α × TaskDb)) : TaskDb :=
  match r with
  | .ok (_, db') => db'
  | .error _ => db

/-- `db` is committed. -/
def Sys.commit (s : Sys) (db : TaskDb) : Sys := { s with toCommitted := s.push db }

/-- A transaction that began at `now`, and whose statement began with a board of
the past. -/
def Sys.begun (s : Sys) (now seen : ℕ) (op : TaskDb → TaskDb) : Option Sys :=
  if now ≤ s.clock then (s.view seen).map fun v => s.commit (op v) else none

/-- One step. -/
def step (s : Sys) : Act → Option Sys
  | .tick t => if s.clock ≤ t then some { s with clock := t } else none
  | .create_task now auth input =>
    s.begun now 0 fun _ => after s.db (create_task now auth input s.db)
  | .claim_task now seen auth key lease_seconds =>
    s.begun now seen fun v => after s.db (claim_task now v auth key lease_seconds s.db)
  | .claim_next_task now seen auth lease_seconds locked =>
    s.begun now seen fun v =>
      after s.db (claim_next_task now v auth lease_seconds locked.contains s.db)
  | .renew_lease now seen auth key lease_seconds =>
    s.begun now seen fun v => after s.db (renew_lease now v auth key lease_seconds s.db)
  | .release_task now seen auth key =>
    s.begun now seen fun v => after s.db (release_task now v auth key s.db)
  | .complete_task now seen auth key result =>
    s.begun now seen fun v => after s.db (complete_task now v auth key result s.db)
  | .other base events =>
    some (s.commit { s.db with toDb := base, task_events := events })

/-- Who a step acts as: an agent and a window. -/
def actor : Act → Option (Uuid × String)
  | .create_task _ auth _ | .claim_task _ _ auth _ _ | .claim_next_task _ _ auth _ _
  | .renew_lease _ _ auth _ _ | .release_task _ _ auth _ | .complete_task _ _ auth _ _ =>
    some (auth.agent_id, auth.session)
  | .tick _ | .other _ _ => none

/-- The task with id `k`. -/
def task (k : Uuid) (db : TaskDb) : Option Task := one (fun t => t.id == k) db.tasks

/-- Who holds a task: the agent and window of its claim. -/
def holder (t : Task) : Option (Uuid × String) :=
  if t.status = .claimed then t.claimed_by.map fun a => (a, t.claimed_session.getD "") else none

/-! ## What one statement does to one task -/

/-- The rewriting of a row that an operation of `auth` makes, and when. -/
inductive Write (now : ℕ) (seen : TaskDb) (auth : AuthCtx) (t : Task) : Task → Prop
  | claimed {lease : ℕ} : (t.status = .open ∨ t.status = .claimed ∧ (held_by auth t = true ∨
      t.lease_expires_at = none ∨ ∃ x, t.lease_expires_at = some x ∧ x < now)) →
      (∃ t₀ ∈ seen.tasks, t₀.id = t.id) → blocked seen t.id = false →
      Write now seen auth t (claimed_row now auth lease t)
  | renewed {lease : ℕ} : t.status = .claimed → held_by auth t = true →
      Write now seen auth t (renewed_row now lease t)
  | released : t.status = .claimed → held_by auth t = true →
      Write now seen auth t (released_row now t)
  | completed {result : Option String} : (t.status = .open ∨ t.status = .claimed) →
      (t.claimed_by = none ∨ t.lease_expires_at = none ∨
        (∃ x, t.lease_expires_at = some x ∧ x ≤ now) ∨ held_by auth t = true) →
      Write now seen auth t (completed_row now result t)

/-- What a transaction did to the board: a row rewritten, a task added, or nothing
that is looked at here. -/
inductive Did (now : ℕ) (seen : TaskDb) (auth : AuthCtx) (db db' : TaskDb) : Prop
  | same : db'.tasks = db.tasks → db'.task_deps = db.task_deps → Did now seen auth db db'
  | wrote {p : Task → Bool} {f : Task → Task} : db'.tasks = update p f db.tasks →
      db'.task_deps = db.task_deps → (∀ t, (f t).id = t.id) →
      (∀ t ∈ db.tasks, p t = true → Write now seen auth t (f t)) → Did now seen auth db db'
  | created {t : Task} {deps : List TaskDep} : db'.tasks = insert_into t db.tasks →
      db'.task_deps = db.task_deps ++ deps → t.status = .open → (∀ x ∈ db.tasks, x.id ≠ t.id) →
      (∀ td ∈ deps, td.task_id = t.id ∧ ∃ d ∈ db.tasks, d.id = td.blocked_by_task_id) →
      Did now seen auth db db'

/-- Which of the four rewritings it is. -/
inductive Kind where
  | claimed (lease : ℕ) (detail : Option String)
  | renewed (lease : ℕ)
  | released
  | completed (result : Option String)

/-- The row it writes. -/
def Kind.row (now : ℕ) (auth : AuthCtx) : Kind → Task → Task
  | .claimed lease _ => claimed_row now auth lease
  | .renewed lease => renewed_row now lease
  | .released => released_row now
  | .completed result => completed_row now result

/-- The event it logs; a renewal logs none. -/
def Kind.event (now : ℕ) (auth : AuthCtx) (k : Uuid) : Kind → List TaskEvent
  | .claimed _ detail => [⟨k, some auth.agent_id, "claimed", detail, now⟩]
  | .renewed _ => []
  | .released => [⟨k, some auth.agent_id, "released", none, now⟩]
  | .completed result => [⟨k, some auth.agent_id, "completed", result, now⟩]

/-- What a claim, a renewal, a release or a completion leaves of the board: all of it, or
the rows of one key written over and the event of one of them. -/
inductive Ran (now : ℕ) (seen : TaskDb) (auth : AuthCtx) (db db' : TaskDb) : Prop
  | idle : db' = db → Ran now seen auth db db'
  | wrote {p : Task → Bool} {c : Task} (kind : Kind) : c ∈ db.tasks → p c = true →
      (∀ t ∈ db.tasks, p t = true →
        at_key auth c.key t = true ∧ Write now seen auth t (kind.row now auth t)) →
      db' = { db with
        tasks := update p (kind.row now auth) db.tasks
        task_events := db.task_events ++ kind.event now auth c.id } → Ran now seen auth db db'

/-- And what `create_task` leaves. -/
inductive Made (now : ℕ) (auth : AuthCtx) (db db' : TaskDb) : Prop
  | idle : db' = db → Made now auth db db'
  | created {raw key title : String} {description : Option String} {id : Uuid} {deps : List TaskDep} :
      normalize_key raw = .ok key → (∀ x ∈ db.tasks, x.id ≠ id) →
      (∀ x ∈ db.tasks, at_key auth key x = false) →
      (∀ td ∈ deps, td.task_id = id ∧ ∃ d ∈ db.tasks, d.id = td.blocked_by_task_id) →
      db' = { db with
        tasks := insert_into (task_row now auth key title description id) db.tasks
        task_deps := db.task_deps ++ deps
        task_events := db.task_events ++ [⟨id, some auth.agent_id, "created", some title, now⟩] } →
      Made now auth db db'

section Operations

variable {now : ℕ} {seen db db' : TaskDb} {auth : AuthCtx} {p : Task → Bool} {key : String} {lease_seconds : Option ℤ}
  {claimed : Bool} {u : Unit}

theorem rechecked_iff {t : Task} :
    rechecked seen p t = true ↔ (∃ t₀ ∈ seen.tasks, t₀.id = t.id ∧ p t₀ = true) ∧ p t = true := by
  simp [rechecked]

theorem Kind.row_id (kind : Kind) (t : Task) : (kind.row now auth t).id = t.id := by
  cases kind <;> rfl

/-- The row at a key, if it may be written. -/
theorem write_task_ran (key : String) (kind : Kind) {event : Uuid → List TaskEvent → List TaskEvent}
    (h : write_task p (kind.row now auth) event db = some db') (hevent : ∀ k l, event k l = l ++ kind.event now auth k)
    (hrow : ∀ t, p t = true → at_key auth key t = true ∧ Write now seen auth t (kind.row now auth t)) :
    Ran now seen auth db db' := by
  unfold write_task at h
  obtain ⟨c, hc, rfl⟩ := Option.map_eq_some_iff.mp h
  refine .wrote kind (mem_of_one hc) (pos_of_one hc) (fun t _ hp => ⟨?_, (hrow t hp).2⟩) (by rw [hevent])
  -- every row it may write is at the key of the one that was found
  have hat := (hrow c (pos_of_one hc)).1
  simp only [at_key, Bool.and_eq_true, beq_iff_eq] at hat
  rw [hat.2]
  exact (hrow t hp).1

theorem create_task_made {input : CreateInput} {id : Uuid}
    (h : create_task now auth input db = .ok (id, db')) : Made now auth db db' := by
  simp only [create_task, bind_eq_ok, ensure_eq_ok, pure_eq_ok, Prod.mk.injEq] at h
  obtain ⟨key, hkey, title, -, _, -, description, -, _, -, keys, -, _, hnew, dep_ids, hdeps, rfl, rfl⟩ := h
  refine .created hkey (fun x hx => ?_) (fun x hx => ?_) (fun td htd => ?_) rfl
  · -- the id is one no task has
    exact Nat.ne_of_lt (lt_fresh_id (List.mem_map.mpr ⟨x, hx, rfl⟩))
  · simp only [Bool.not_eq_true', List.any_eq_false, Bool.not_eq_true] at hnew
    exact hnew x hx
  · obtain ⟨d, hd, rfl⟩ := List.mem_map.mp htd
    rw [List.mem_dedup] at hd
    -- every dependency was looked up on the board
    obtain ⟨k, -, hfound⟩ := mem_of_mapM_ok hdeps d hd
    simp only [bind_eq_ok, fetch_eq_ok, pure_eq_ok] at hfound
    obtain ⟨t, ht, hid⟩ := hfound
    exact ⟨rfl, t, mem_of_one ht, hid⟩

theorem claim_task_ran (h : claim_task now seen auth key lease_seconds db = .ok (claimed, db')) :
    Ran now seen auth db db' := by
  simp only [claim_task, bind_eq_ok] at h
  obtain ⟨k, -, _, -, h⟩ := h
  split at h
  · rename_i hwrite
    simp only [pure_eq_ok, Prod.mk.injEq] at h
    obtain ⟨-, rfl⟩ := h
    refine write_task_ran k (.claimed (lease_of lease_seconds) none) hwrite (fun _ _ => rfl) fun t hp => ?_
    obtain ⟨⟨t₀, ht₀, hid, -⟩, hp⟩ := rechecked_iff.mp hp
    simp only [claimable, Bool.and_eq_true, Bool.or_eq_true, beq_iff_eq, Option.isNone_iff_eq_none,
      Option.any_eq_true, decide_eq_true_eq, Bool.not_eq_true'] at hp
    obtain ⟨⟨⟨hat, hst⟩, hway⟩, hfree⟩ := hp
    refine ⟨hat, .claimed ?_ ⟨t₀, ht₀, hid⟩ hfree⟩
    rcases hst with hst | hst
    · exact Or.inl hst
    · right
      refine ⟨hst, ?_⟩
      rcases hway with ((hopen | hheld) | hnull) | hlapsed
      · rw [hst] at hopen
        cases hopen
      · exact Or.inl hheld
      · exact Or.inr (Or.inl hnull)
      · exact Or.inr (Or.inr hlapsed)
  · simp only [pure_eq_ok, Prod.mk.injEq] at h
    exact .idle h.2.symm

/-- `claim_next_task` claims one task at most. -/
theorem claim_next_task_ran {locked : Uuid → Bool} (hk : Keyed Task.id db.tasks)
    (h : claim_next_task now seen auth lease_seconds locked db = .ok (claimed, db')) :
    Ran now seen auth db db' := by
  simp only [claim_next_task, bind_eq_ok] at h
  obtain ⟨_, -, h⟩ := h
  split at h
  · simp only [pure_eq_ok, Prod.mk.injEq] at h
    exact .idle h.2.symm
  · rename_i c hc
    simp only [pure_eq_ok, Prod.mk.injEq] at h
    obtain ⟨-, rfl⟩ := h
    -- the row picked is the one the condition was evaluated on again
    have hmem := List.mem_of_find?_eq_some hc
    rw [mem_select] at hmem
    have hpick := List.find?_some hc
    simp only [Bool.and_eq_true, List.any_eq_true, beq_iff_eq] at hpick
    obtain ⟨-, x, hx, hxid, havail⟩ := hpick
    rw [← hxid]
    refine .wrote (p := fun t => t.id == x.id)
      (.claimed (lease_of lease_seconds) (some "via claim_next_task")) hx (beq_self_eq_true x.id)
      (fun t ht hp => ?_) rfl
    obtain rfl := hk.eq hx ht (beq_iff_eq.mp hp).symm
    simp only [available, Bool.and_eq_true, Bool.or_eq_true, beq_iff_eq, Option.any_eq_true,
      decide_eq_true_eq, Bool.not_eq_true'] at havail
    obtain ⟨⟨hteam, hway⟩, hfree⟩ := havail
    refine ⟨by simp [at_key, hteam], .claimed ?_ ⟨c, hmem.1, hxid.symm⟩ hfree⟩
    rcases hway with hopen | ⟨hst, hlapsed⟩
    · exact Or.inl hopen
    · exact Or.inr ⟨hst, Or.inr (Or.inr hlapsed)⟩

theorem renew_lease_ran
    (h : renew_lease now seen auth key lease_seconds db = .ok (u, db')) : Ran now seen auth db db' := by
  simp only [renew_lease, bind_eq_ok, fetch_eq_ok, pure_eq_ok, Prod.mk.injEq] at h
  obtain ⟨k, -, _, -, _, hwrite, -, rfl⟩ := h
  refine write_task_ran k (.renewed (lease_of lease_seconds)) hwrite (fun _ l => (List.append_nil l).symm)
    fun t hp => ?_
  have hp := (rechecked_iff.mp hp).2
  simp only [Tasks.renewable, Bool.and_eq_true, beq_iff_eq] at hp
  exact ⟨hp.1.1.1, .renewed hp.1.1.2 hp.1.2⟩

theorem release_task_ran (h : release_task now seen auth key db = .ok (u, db')) : Ran now seen auth db db' := by
  simp only [release_task, bind_eq_ok, fetch_eq_ok, pure_eq_ok, Prod.mk.injEq] at h
  obtain ⟨k, -, _, -, _, hwrite, -, rfl⟩ := h
  refine write_task_ran k .released hwrite (fun _ _ => rfl) fun t hp => ?_
  have hp := (rechecked_iff.mp hp).2
  simp only [releasable, Bool.and_eq_true, beq_iff_eq] at hp
  exact ⟨hp.1.1, .released hp.1.2 hp.2⟩

theorem complete_task_ran {result : Option String}
    (h : complete_task now seen auth key result db = .ok (u, db')) : Ran now seen auth db db' := by
  simp only [complete_task, bind_eq_ok, fetch_eq_ok, pure_eq_ok, Prod.mk.injEq] at h
  obtain ⟨k, -, r, -, _, -, _, hwrite, -, rfl⟩ := h
  refine write_task_ran k (.completed r) hwrite (fun _ _ => rfl) fun t hp => ?_
  have hp := (rechecked_iff.mp hp).2
  simp only [completable, Bool.and_eq_true, Bool.or_eq_true, beq_iff_eq, Option.isNone_iff_eq_none,
    Option.any_eq_true, decide_eq_true_eq, or_assoc] at hp
  exact ⟨hp.1.1, .completed hp.1.2 hp.2⟩

theorem after_ran {α : Type} {r : BusResult (α × TaskDb)}
    (h : ∀ a db', r = .ok (a, db') → Ran now seen auth db db') : Ran now seen auth db (after db r) := by
  unfold after
  split
  · exact h _ _ rfl
  · exact .idle rfl

theorem Ran.did (h : Ran now seen auth db db') : Did now seen auth db db' := by
  cases h with
  | idle h => exact .same (by rw [h]) (by rw [h])
  | wrote kind _ _ hrows h =>
    subst h
    exact .wrote rfl rfl kind.row_id fun t ht hp => (hrows t ht hp).2

theorem Made.did (h : Made now auth db db') : Did now seen auth db db' := by
  cases h with
  | idle h => exact .same (by rw [h]) (by rw [h])
  | created _ hfresh _ hown h =>
    subst h
    exact .created rfl rfl rfl hfresh hown

end Operations

/-! ## The past -/

/-- What an earlier board still tells: a task stays, a finished one stays finished,
and what a task waits for was settled with it. -/
structure Older (p db : TaskDb) : Prop where
  stays : ∀ t ∈ p.tasks, ∃ t' ∈ db.tasks, t'.id = t.id ∧ (t.unfinished = false → t'.unfinished = false)
  deps : ∀ t ∈ p.tasks, ∀ td ∈ db.task_deps, td.task_id = t.id → td ∈ p.task_deps
  known : ∀ td ∈ p.task_deps, ∃ d ∈ p.tasks, d.id = td.blocked_by_task_id

theorem Older.rfl {db : TaskDb} (h : ∀ td ∈ db.task_deps, ∃ d ∈ db.tasks, d.id = td.blocked_by_task_id) :
    Older db db :=
  ⟨fun t ht => ⟨t, ht, Eq.refl _, fun h => h⟩, fun _ _ _ htd _ => htd, h⟩

section Past

variable {now : ℕ} {seen p db db' : TaskDb} {auth : AuthCtx} {t t' : Task}

/-- No operation writes a finished task. -/
theorem Write.unfinished (h : Write now seen auth t t') : t.status = .open ∨ t.status = .claimed := by
  cases h with
  | claimed hst => exact hst.imp_right And.left
  | renewed hst | released hst => exact Or.inr hst
  | completed hst => exact hst

theorem Write.not_finished (h : Write now seen auth t t') : t.unfinished = true := by
  unfold Task.unfinished
  rcases h.unfinished with hst | hst <;> rw [hst] <;> decide

theorem Older.congr (h : Older p db) (htasks : db'.tasks = db.tasks)
    (hdeps : db'.task_deps = db.task_deps) : Older p db' :=
  ⟨by rw [htasks]; exact h.stays, by rw [hdeps]; exact h.deps, h.known⟩

/-- A step keeps what an earlier board tells. -/
theorem Older.step (h : Older p db) (hdid : Did now seen auth db db') : Older p db' := by
  cases hdid with
  | same htasks hdeps => exact h.congr htasks hdeps
  | @wrote w f htasks hdeps hid hwrite =>
    refine ⟨fun t ht => ?_, ?_, h.known⟩
    · obtain ⟨t', ht', htid, hfin⟩ := h.stays t ht
      rw [htasks]
      refine ⟨_, mem_update_of_mem ht', ?_, fun hdone => ?_⟩
      · split
        · exact (hid t').trans htid
        · exact htid
      · split
        · have hun := (hwrite t' ht' ‹_›).not_finished
          rw [hfin hdone] at hun
          cases hun
        · exact hfin hdone
    · rw [hdeps]
      exact h.deps
  | @created n deps htasks hdeps _ hfresh hown =>
    refine ⟨fun t ht => ?_, fun t ht td htd hown' => ?_, h.known⟩
    · obtain ⟨t', ht', hrest⟩ := h.stays t ht
      rw [htasks]
      exact ⟨t', mem_insert_into.mpr (Or.inl ht'), hrest⟩
    · rw [hdeps] at htd
      rcases List.mem_append.mp htd with htd | htd
      · exact h.deps t ht td htd hown'
      · -- the new task's dependencies are not an older task's
        obtain ⟨t', ht', htid, -⟩ := h.stays t ht
        exact absurd (htid.trans (hown'.symm.trans (hown td htd).1)) (hfresh t' ht')

/-- A task that is free in an earlier board is free. -/
theorem Older.free (h : Older p db) (hk : Keyed Task.id db.tasks) {k : Uuid}
    (hthere : ∃ t ∈ p.tasks, t.id = k) (hfree : blocked p k = false) : blocked db k = false := by
  obtain ⟨t, ht, rfl⟩ := hthere
  by_contra hb
  simp only [Bool.not_eq_false, blocked, List.any_eq_true, Bool.and_eq_true, beq_iff_eq] at hb
  obtain ⟨td, htd, hown, d, hd, hdid, hun⟩ := hb
  have htd' := h.deps t ht td htd hown
  obtain ⟨d₀, hd₀, hid₀⟩ := h.known td htd'
  -- the dependency was finished then, and is finished now
  have hfin₀ : d₀.unfinished = false := by
    by_contra hun₀
    have hblocked : blocked p t.id = true := by
      simp only [blocked, List.any_eq_true, Bool.and_eq_true, beq_iff_eq]
      exact ⟨td, htd', hown, d₀, hd₀, hid₀, by simpa using hun₀⟩
    rw [hblocked] at hfree
    cases hfree
  obtain ⟨d', hd', hid', hfin'⟩ := h.stays d₀ hd₀
  obtain rfl := hk.eq hd hd' (hdid.trans (hid₀.symm.trans hid'.symm))
  rw [hfin' hfin₀] at hun
  cases hun

end Past

/-! ## The invariant -/

/-- The invariant. -/
structure Inv (s : Sys) : Prop where
  ids : Keyed Task.id s.db.tasks
  deps : ∀ td ∈ s.db.task_deps, ∃ d ∈ s.db.tasks, d.id = td.blocked_by_task_id
  past : ∀ p ∈ s.past, Older p s.db
  /-- A claimed task has a holder and a lease. -/
  held : ∀ t ∈ s.db.tasks, t.status = .claimed → t.claimed_by.isSome = true ∧
    t.lease_expires_at.isSome = true

/-- A transaction of the run: when it began, what it saw, and who it acts as. -/
structure Began (s : Sys) (a : Act) (db' : TaskDb) : Prop where
  did : ∃ now seen auth, now ≤ s.clock ∧ (seen = s.db ∨ seen ∈ s.past) ∧
    actor a = some (auth.agent_id, auth.session) ∧ Did now seen auth s.db db'

section Steps

variable {s t : Sys} {a : Act} {now : ℕ} {seen : TaskDb} {auth : AuthCtx}

/-- A call begins on the present board or on one that was. -/
theorem begun_cases {seen : ℕ} {op : TaskDb → TaskDb} (h : s.begun now seen op = some t) :
    now ≤ s.clock ∧ ∃ v, (v = s.db ∨ v ∈ s.past) ∧ t = s.commit (op v) := by
  unfold Sys.begun at h
  split at h
  · obtain ⟨v, hv, rfl⟩ := Option.map_eq_some_iff.mp h
    exact ⟨‹_›, v, Committed.mem_of_view hv, rfl⟩
  · cases h

/-- Who calls an operation that writes over a task. -/
def operator : Act → Option AuthCtx
  | .claim_task _ _ auth _ _ | .claim_next_task _ _ auth _ _ | .renew_lease _ _ auth _ _
  | .release_task _ _ auth _ | .complete_task _ _ auth _ _ => some auth
  | _ => none

/-- What a step is. -/
inductive Stepped (s : Sys) : Act → Sys → Prop
  | tick {n : ℕ} : Stepped s (.tick n) { s with clock := n }
  | other {base : Db} {events : List TaskEvent} :
      Stepped s (.other base events) (s.commit { s.db with toDb := base, task_events := events })
  | create {now : ℕ} {auth : AuthCtx} {input : CreateInput} {db' : TaskDb} : now ≤ s.clock →
      Made now auth s.db db' → Stepped s (.create_task now auth input) (s.commit db')
  | ran {a : Act} {now : ℕ} {v db' : TaskDb} {auth : AuthCtx} : operator a = some auth →
      now ≤ s.clock → (v = s.db ∨ v ∈ s.past) → Ran now v auth s.db db' → Stepped s a (s.commit db')

theorem step_stepped (hk : Keyed Task.id s.db.tasks) (h : step s a = some t) : Stepped s a t := by
  cases a with
  | tick n =>
    simp only [step, Option.ite_none_right_eq_some, Option.some.injEq] at h
    obtain ⟨-, rfl⟩ := h
    exact .tick
  | other base events =>
    obtain rfl := Option.some.inj h
    exact .other
  | create_task now auth input =>
    obtain ⟨hnow, v, -, rfl⟩ := begun_cases h
    refine .create hnow ?_
    unfold after
    split
    · exact create_task_made ‹_›
    · exact .idle rfl
  | claim_task now seen auth key lease_seconds =>
    obtain ⟨hnow, v, hv, rfl⟩ := begun_cases h
    exact .ran rfl hnow hv (after_ran fun _ _ hok => claim_task_ran hok)
  | claim_next_task now seen auth lease_seconds locked =>
    obtain ⟨hnow, v, hv, rfl⟩ := begun_cases h
    exact .ran rfl hnow hv (after_ran fun _ _ hok => claim_next_task_ran hk hok)
  | renew_lease now seen auth key lease_seconds =>
    obtain ⟨hnow, v, hv, rfl⟩ := begun_cases h
    exact .ran rfl hnow hv (after_ran fun _ _ hok => renew_lease_ran hok)
  | release_task now seen auth key =>
    obtain ⟨hnow, v, hv, rfl⟩ := begun_cases h
    exact .ran rfl hnow hv (after_ran fun _ _ hok => release_task_ran hok)
  | complete_task now seen auth key result =>
    obtain ⟨hnow, v, hv, rfl⟩ := begun_cases h
    exact .ran rfl hnow hv (after_ran fun _ _ hok => complete_task_ran hok)

theorem actor_of_operator (h : operator a = some auth) : actor a = some (auth.agent_id, auth.session) := by
  cases a <;> simp_all [operator, actor]

/-- A step moves the clock, or is one transaction. -/
theorem step_cases (hs : Inv s) (h : step s a = some t) : (t.db.tasks = s.db.tasks ∧ t.db.task_deps = s.db.task_deps ∧
      (t.past = s.past ∨ t.past = s.db :: s.past)) ∨
    ∃ db', t = s.commit db' ∧ Began s a db' := by
  cases step_stepped hs.ids h with
  | tick => exact Or.inl ⟨rfl, rfl, Or.inl rfl⟩
  | other => exact Or.inl ⟨rfl, rfl, Or.inr rfl⟩
  | create hnow hmade =>
    exact Or.inr ⟨_, rfl, _, s.db, _, hnow, Or.inl rfl, rfl, hmade.did⟩
  | ran hop hnow hv hran =>
    exact Or.inr ⟨_, rfl, _, _, _, hnow, hv, actor_of_operator hop, hran.did⟩

/-- A write keeps the ids and the dependencies in order. -/
theorem Did.keeps {db db' : TaskDb} (hdid : Did now seen auth db db') (hk : Keyed Task.id db.tasks)
    (hdeps : ∀ td ∈ db.task_deps, ∃ d ∈ db.tasks, d.id = td.blocked_by_task_id) :
    Keyed Task.id db'.tasks ∧ ∀ td ∈ db'.task_deps, ∃ d ∈ db'.tasks, d.id = td.blocked_by_task_id := by
  cases hdid with
  | same htasks hdeps' =>
    rw [htasks, hdeps']
    exact ⟨hk, hdeps⟩
  | @wrote w f htasks hdeps' hid _ =>
    rw [htasks, hdeps']
    refine ⟨hk.update hid, fun td htd => ?_⟩
    obtain ⟨d, hd, hdid⟩ := hdeps td htd
    refine ⟨_, mem_update_of_mem hd, ?_⟩
    split
    · exact (hid d).trans hdid
    · exact hdid
  | created htasks hdeps' _ hfresh hown =>
    rw [htasks, hdeps']
    refine ⟨hk.insert_into hfresh, fun td htd => ?_⟩
    rcases List.mem_append.mp htd with htd | htd
    · obtain ⟨d, hd, hdid⟩ := hdeps td htd
      exact ⟨d, mem_insert_into.mpr (Or.inl hd), hdid⟩
    · obtain ⟨-, d, hd, hdid⟩ := hown td htd
      exact ⟨d, mem_insert_into.mpr (Or.inl hd), hdid⟩

/-- What an operation writes keeps a holder and a lease on what is claimed. -/
theorem Write.held {t t' : Task} (h : Write now seen auth t t')
    (hheld : t.status = .claimed → t.claimed_by.isSome = true ∧ t.lease_expires_at.isSome = true)
    (hst : t'.status = .claimed) : t'.claimed_by.isSome = true ∧ t'.lease_expires_at.isSome = true := by
  cases h with
  | claimed => exact ⟨rfl, rfl⟩
  | renewed hclaimed => exact ⟨(hheld hclaimed).1, rfl⟩
  | released => exact absurd hst (by simp [released_row])
  | completed => exact absurd hst (by simp [completed_row])

/-- The step lemma. -/
theorem Inv.step (hs : Inv s) (h : step s a = some t) : Inv t := by
  have hself : Older s.db s.db := .rfl hs.deps
  rcases step_cases hs h with ⟨htasks, hdeps, hpast⟩ | ⟨db', rfl, ⟨now, seen, auth, -, -, -, hdid⟩⟩
  · refine ⟨by rw [htasks]; exact hs.ids, by rw [htasks, hdeps]; exact hs.deps, fun p hp => ?_,
      by rw [htasks]; exact hs.held⟩
    rcases hpast with hpast | hpast <;> rw [hpast] at hp
    · exact (hs.past p hp).congr htasks hdeps
    · rcases List.mem_cons.mp hp with rfl | hp
      · exact hself.congr htasks hdeps
      · exact (hs.past p hp).congr htasks hdeps
  · obtain ⟨hids, hdeps⟩ := hdid.keeps hs.ids hs.deps
    refine ⟨hids, hdeps, fun p hp => ?_, fun x hx hst => ?_⟩
    · rcases List.mem_cons.mp hp with rfl | hp
      · exact hself.step hdid
      · exact (hs.past p hp).step hdid
    · cases hdid with
      | same htasks _ =>
        rw [Sys.commit, htasks] at hx
        exact hs.held x hx hst
      | wrote htasks _ _ hwrite =>
        rw [Sys.commit, htasks] at hx
        obtain ⟨y, hy, rfl⟩ := mem_update.mp hx
        split at hst
        · rw [if_pos ‹_›]
          exact (hwrite y hy ‹_›).held (hs.held y hy) hst
        · rw [if_neg ‹_›]
          exact hs.held y hy hst
      | created htasks _ hopen _ _ =>
        rw [Sys.commit, htasks] at hx
        rcases mem_insert_into.mp hx with hx | rfl
        · exact hs.held x hx hst
        · rw [hopen] at hst
          cases hst

end Steps

/-! ## The law -/

/-- What claims promise of a run. -/
structure ClaimLaw (tr : List (Trans Sys Act)) : Prop where
  /-- While a lease has not run out, only its holder ends or hands on the claim. -/
  exclusive : ∀ e ∈ tr, ∀ k t t' x, task k e.pre.db = some t → task k e.post.db = some t' →
    t.status = .claimed → t.lease_expires_at = some x → e.pre.clock < x → holder t' ≠ holder t →
    actor e.act = holder t
  /-- A done task stays done. -/
  final : ∀ e ∈ tr, ∀ k t, task k e.pre.db = some t → t.status = .done →
    ∃ t', task k e.post.db = some t' ∧ t'.status = .done
  /-- A claimed task has a holder and a lease. -/
  held : ∀ e ∈ tr, ∀ k t, task k e.post.db = some t → t.status = .claimed →
    (holder t).isSome = true ∧ t.lease_expires_at.isSome = true
  /-- A task that becomes claimed, or changes hands, waits for nothing. -/
  unblocked : ∀ e ∈ tr, ∀ k t t', task k e.pre.db = some t → task k e.post.db = some t' →
    t'.status = .claimed → (t.status ≠ .claimed ∨ holder t' ≠ holder t) → blocked e.pre.db k = false

section Law

variable {s t : Sys} {a : Act} {k : Uuid} {x y : Task} {auth : AuthCtx}

theorem task_iff (hs : Inv s) : task k s.db = some x ↔ x ∈ s.db.tasks ∧ x.id = k := hs.ids.one_iff

/-- A task through a step: as it was, or rewritten by an operation of the step's
actor that began by then. -/
theorem task_step (hs : Inv s) (h : step s a = some t) (hx : task k s.db = some x) :
    task k t.db = some x ∨ ∃ x' now seen auth, task k t.db = some x' ∧ now ≤ s.clock ∧
      (seen = s.db ∨ seen ∈ s.past) ∧ actor a = some (auth.agent_id, auth.session) ∧
      Write now seen auth x x' := by
  have ht := hs.step h
  obtain ⟨hmem, hid⟩ := (task_iff hs).mp hx
  rcases step_cases hs h with ⟨htasks, -, -⟩ | ⟨db', rfl, ⟨now, seen, auth, hnow, hseen, hact, hdid⟩⟩
  · left
    rw [task, htasks]
    exact hx
  · cases hdid with
    | same htasks _ =>
      left
      rw [task, Sys.commit, htasks]
      exact hx
    | @wrote p f htasks _ hfid hwrite =>
      have hlook : task k (s.commit db').db = some (if p x then f x else x) := by
        rw [task, Sys.commit, htasks, one_update fun t => by rw [hfid t]]
        rw [show one (fun t => t.id == k) s.db.tasks = some x from hx, Option.map_some]
      by_cases hp : p x = true
      · right
        rw [if_pos hp] at hlook
        exact ⟨f x, now, seen, auth, hlook, hnow, hseen, hact, hwrite x hmem hp⟩
      · left
        rw [if_neg hp] at hlook
        exact hlook
    | created htasks _ _ _ _ =>
      left
      refine (task_iff ht).mpr ⟨?_, hid⟩
      rw [Sys.commit, htasks]
      exact mem_insert_into.mpr (Or.inl hmem)

/-- Whoever a task is held by is its holder. -/
theorem holder_of_held (hst : x.status = .claimed) (h : held_by auth x = true) :
    holder x = some (auth.agent_id, auth.session) := by
  simp only [held_by, Bool.and_eq_true, beq_iff_eq] at h
  rw [holder, if_pos hst, h.1, Option.map_some, h.2]

/-- A write by somebody else than the holder finds no lease that runs. -/
theorem Write.by_holder {now : ℕ} {seen : TaskDb} (h : Write now seen auth x y)
    (hst : x.status = .claimed) (hby : x.claimed_by.isSome = true) {e clock : ℕ}
    (hlease : x.lease_expires_at = some e) (hrun : clock < e) (hnow : now ≤ clock) :
    holder x = some (auth.agent_id, auth.session) := by
  cases h with
  | claimed hway =>
    rcases hway with hopen | ⟨-, hheld | hnull | ⟨e', hlapsed, hlt⟩⟩
    · rw [hst] at hopen
      cases hopen
    · exact holder_of_held hst hheld
    · rw [hlease] at hnull
      cases hnull
    · obtain rfl := Option.some.inj (hlease.symm.trans hlapsed)
      omega
  | renewed _ hheld | released _ hheld => exact holder_of_held hst hheld
  | completed _ hway =>
    rcases hway with hnobody | hnull | ⟨e', hlapsed, hle⟩ | hheld
    · rw [hnobody] at hby
      cases hby
    · rw [hlease] at hnull
      cases hnull
    · obtain rfl := Option.some.inj (hlease.symm.trans hlapsed)
      omega
    · exact holder_of_held hst hheld

/-- A renewal leaves the holder. -/
theorem holder_renewed (now lease : ℕ) (x : Task) : holder (renewed_row now lease x) = holder x := rfl

/-- **A claim is its holder's** as long as its lease runs, a done task stays done,
and nothing is claimed that still waits, in every run of the task board. -/
theorem claims_are_exclusive {db : TaskDb} {clock : ℕ} (hids : Keyed Task.id db.tasks)
    (hdeps : ∀ td ∈ db.task_deps, ∃ d ∈ db.tasks, d.id = td.blocked_by_task_id)
    (hheld : ∀ t ∈ db.tasks, t.status = .claimed →
      t.claimed_by.isSome = true ∧ t.lease_expires_at.isSome = true)
    {tr : List (Trans Sys Act)} {s : Sys} (h : Run (Rel step) ⟨⟨db, []⟩, clock⟩ tr s) : ClaimLaw tr := by
  have hstart : Inv ⟨⟨db, []⟩, clock⟩ := ⟨hids, hdeps, fun _ hp => absurd hp List.not_mem_nil, hheld⟩
  have hpre : ∀ e ∈ tr, Inv e.pre :=
    h.invariant_pre (C := fun _ _ => True) hstart (fun _ _ _ hs _ hr => hs.step hr)
      fun _ _ => trivial
  refine ⟨?_, ?_, ?_, ?_⟩
  · intro e he k x y lease hx hy hst hlease hrun hne
    have hs := hpre e he
    rcases task_step hs (h.rel e he) hx with hsame | ⟨y', now, seen, auth, hy', hnow, -, hact, hwrite⟩
    · obtain rfl := Option.some.inj (hy.symm.trans hsame)
      exact absurd rfl hne
    · have hby := (hs.held x ((task_iff hs).mp hx).1 hst).1
      rw [hact]
      exact (hwrite.by_holder hst hby hlease hrun hnow).symm
  · intro e he k x hx hdone
    rcases task_step (hpre e he) (h.rel e he) hx with hsame | ⟨y, now, seen, auth, hy, -, -, -, hwrite⟩
    · exact ⟨x, hsame, hdone⟩
    · rcases hwrite.unfinished with hst | hst <;> rw [hdone] at hst <;> exact absurd hst (by decide)
  · intro e he k y hy hst
    have ht := (hpre e he).step (h.rel e he)
    obtain ⟨hby, hlease⟩ := ht.held y ((task_iff ht).mp hy).1 hst
    rw [holder, if_pos hst, Option.isSome_map]
    exact ⟨hby, hlease⟩
  · intro e he k x y hx hy hst hbecame
    have hs := hpre e he
    rcases task_step hs (h.rel e he) hx with hsame | ⟨y', now, seen, auth, hy', -, hseen, -, hwrite⟩
    · obtain rfl := Option.some.inj (hy.symm.trans hsame)
      rcases hbecame with hne | hne
      · exact absurd hst hne
      · exact absurd rfl hne
    · obtain rfl := Option.some.inj (hy'.symm.trans hy)
      cases hwrite with
      | claimed _ hthere hfree =>
        obtain ⟨-, rfl⟩ := (task_iff hs).mp hx
        rcases hseen with rfl | hseen
        · exact hfree
        · exact (hs.past seen hseen).free hs.ids hthere hfree
      | renewed hclaimed =>
        rcases hbecame with hne | hne
        · exact absurd hclaimed hne
        · exact absurd (holder_renewed _ _ x) hne
      | released => exact absurd hst (by simp [released_row])
      | completed => exact absurd hst (by simp [completed_row])

end Law

/-! ## A run -/

/-- Two agents of one crew, with their agent tokens. -/
def worker (agent_id : Uuid) (name : String) : AuthCtx := Crew.caller agent_id name ""

/-- Ada takes a task, lets its lease run out, and Bob takes over and finishes it,
which frees the task that waited for it. -/
def takeover : List Act :=
  [.create_task 0 (worker 1 "ada") ⟨"build", "Build", none, []⟩,
    .create_task 0 (worker 1 "ada") ⟨"ship", "Ship", none, ["build"]⟩,
    .claim_task 0 0 (worker 1 "ada") "build" (some 30),
    .claim_task 0 0 (worker 2 "bob") "build" none, .tick 30000001,
    .claim_next_task 30000001 0 (worker 2 "bob") none [],
    .complete_task 30000001 0 (worker 2 "bob") "build" none,
    .claim_task 30000001 0 (worker 1 "ada") "ship" none]

/-- The board before it. -/
def board : TaskDb := { agents := [⟨1, 1, "ada", none⟩, ⟨2, 1, "bob", none⟩] }

theorem takeover_run : (exec step ⟨⟨board, []⟩, 0⟩ takeover).isSome = true := by decide

theorem claims_are_exclusive_takeover :
    ClaimLaw ((exec step ⟨⟨board, []⟩, 0⟩ takeover).get takeover_run).1 :=
  claims_are_exclusive (by decide) (by decide) (by decide) (exec_get takeover_run)

end CrewSync.TaskClaims
