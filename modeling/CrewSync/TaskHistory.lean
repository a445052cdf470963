/-
What the history of a task tells: `log_event_tx`.

Every operation that creates, claims, releases or finishes a task writes one row of
`task_events` in the transaction that does it, and `renew_lease` writes none. `replay`
reads such a history on its own, as the run of a small machine: created, then claimed,
released and claimed again, and finished once. That the machine never gets stuck and
ends where the task's row stands is an invariant of the board, because each operation
logs exactly what it does to the columns the machine keeps (`Logged`).

`prune` deletes old events behind the board's back, so what is stored is a part of what
was ever logged; `log` is the latter, read off the run.
-/
import CrewSync.TaskViews

set_option autoImplicit false

namespace CrewSync.TaskHistory

open Schema Rows
open Tasks TaskViews Runs
open TaskClaims (Sys Act step)

/-! ## The machine -/

/-- What a history tells of its task. -/
structure Trail where
  title : String
  status : TaskStatus
  claimed_by : Option Uuid
  claimed_at : Option ℕ
  result : Option String
  created_by : Option Uuid
  created_at : ℕ
  deriving DecidableEq

/-- The same of the task's row. -/
def trail (t : Task) : Trail :=
  ⟨t.title, t.status, t.claimed_by, t.claimed_at, t.result, t.created_by, t.created_at⟩

/-- The first event. -/
def born (e : TaskEvent) : Option Trail :=
  if e.event = "created" then
    e.detail.map fun title => ⟨title, .open, none, none, none, e.agent_id, e.created_at⟩
  else none

/-- Any later event. Whoever releases a task is the one who claimed it, and nothing comes
after a task is finished. -/
def Trail.next (x : Trail) (e : TaskEvent) : Option Trail :=
  if x.status = .open ∨ x.status = .claimed then
    if e.event = "claimed" then
      some { x with status := .claimed, claimed_by := e.agent_id, claimed_at := some e.created_at }
    else if e.event = "released" then
      if x.status = .claimed ∧ x.claimed_by = e.agent_id then
        some { x with status := .open, claimed_by := none, claimed_at := none }
      else none
    else if e.event = "completed" then some { x with status := .done, result := e.detail }
    else none
  else none

/-- A history, read from its first event. -/
def replay : List TaskEvent → Option Trail
  | [] => none
  | e :: rest => (born e).bind fun x => rest.foldlM Trail.next x

/-- The events of one task. -/
def of_task (k : Uuid) (l : List TaskEvent) : List TaskEvent := l.filter fun e => e.task_id == k

theorem of_task_append (k : Uuid) (a b : List TaskEvent) :
    of_task k (a ++ b) = of_task k a ++ of_task k b :=
  List.filter_append a b

/-- Reading on. -/
theorem replay_append {a b : List TaskEvent} {x : Trail} (h : replay a = some x) :
    replay (a ++ b) = b.foldlM Trail.next x := by
  cases a with
  | nil => exact absurd h (by simp [replay])
  | cons e a =>
    simp only [replay, Option.bind_eq_some_iff] at h
    obtain ⟨y, hy, hx⟩ := h
    rw [List.cons_append, replay, hy, Option.bind_some, List.foldlM_append, hx]
    rfl

/-! ## What an operation logs -/

/-- An operation of `auth` that logs `new`: each task it leaves is where those events take
it from where it was, and a task it makes is where they take it from nothing. -/
structure Logged (auth : AuthCtx) (db db' : TaskDb) (new : List TaskEvent) : Prop where
  events : db'.task_events = db.task_events ++ new
  short : new.length ≤ 1
  signed : ∀ e ∈ new, e.agent_id = some auth.agent_id
  own : ∀ e ∈ new, ∃ t ∈ db'.tasks, t.id = e.task_id
  stays : ∀ t ∈ db.tasks, ∃ t' ∈ db'.tasks, t'.id = t.id
  follows : ∀ t' ∈ db'.tasks,
    (∃ t ∈ db.tasks, t.id = t'.id ∧ (of_task t'.id new).foldlM Trail.next (trail t) = some (trail t')) ∨
      (∀ t ∈ db.tasks, t.id ≠ t'.id) ∧ replay (of_task t'.id new) = some (trail t')

section Operations

variable {now : ℕ} {seen db db' : TaskDb} {auth : AuthCtx} {t : Task} {kind : TaskClaims.Kind}

theorem Logged.nothing (auth : AuthCtx) (db : TaskDb) : Logged auth db db [] :=
  ⟨(List.append_nil _).symm, Nat.zero_le 1, fun _ he => absurd he List.not_mem_nil,
    fun _ he => absurd he List.not_mem_nil, fun t ht => ⟨t, ht, rfl⟩,
    fun t ht => Or.inl ⟨t, ht, rfl, rfl⟩⟩

/-- Rows that are written over, where the events are of those rows alone. -/
theorem Logged.update {p : Task → Bool} {f : Task → Task} {new : List TaskEvent}
    (htasks : db'.tasks = update p f db.tasks) (hevents : db'.task_events = db.task_events ++ new)
    (hshort : new.length ≤ 1) (hsigned : ∀ e ∈ new, e.agent_id = some auth.agent_id)
    (hown : ∀ e ∈ new, ∃ t ∈ db.tasks, t.id = e.task_id) (hid : ∀ t, (f t).id = t.id)
    (hhit : ∀ t ∈ db.tasks, p t = true →
      (of_task t.id new).foldlM Trail.next (trail t) = some (trail (f t)))
    (hmiss : ∀ t ∈ db.tasks, p t = false → of_task t.id new = []) : Logged auth db db' new := by
  have hstays : ∀ t ∈ db.tasks, ∃ t' ∈ db'.tasks, t'.id = t.id := by
    intro t ht
    rw [htasks]
    refine ⟨_, mem_update_of_mem ht, ?_⟩
    by_cases hp : p t = true
    · rw [if_pos hp]
      exact hid t
    · rw [if_neg hp]
  refine ⟨hevents, hshort, hsigned, fun e he => ?_, hstays, fun t' ht' => Or.inl ?_⟩
  · obtain ⟨t, ht, hk⟩ := hown e he
    obtain ⟨t', ht', hk'⟩ := hstays t ht
    exact ⟨t', ht', hk'.trans hk⟩
  · rw [htasks] at ht'
    obtain ⟨t, ht, rfl⟩ := mem_update.mp ht'
    refine ⟨t, ht, ?_⟩
    by_cases hp : p t = true
    · rw [if_pos hp, hid t]
      exact ⟨rfl, hhit t ht hp⟩
    · rw [if_neg hp, hmiss t ht (by simpa using hp)]
      exact ⟨rfl, rfl⟩

/-- Whoever releases a task holds its claim. -/
theorem of_released (h : TaskClaims.Write now seen auth t (released_row now t)) :
    t.status = .claimed ∧ t.claimed_by = some auth.agent_id := by
  generalize hrow : released_row now t = t' at h
  cases h with
  | released hst hheld =>
    simp only [held_by, Bool.and_eq_true, beq_iff_eq] at hheld
    exact ⟨hst, hheld.1⟩
  | claimed => cases (congrArg Task.status hrow : TaskStatus.open = .claimed)
  | renewed => cases (congrArg Task.lease_expires_at hrow : none = some _)
  | completed => cases (congrArg Task.status hrow : TaskStatus.open = .done)

/-- What a rewriting logs takes the history of its row to where the row is. -/
theorem next_event (h : TaskClaims.Write now seen auth t (kind.row now auth t)) :
    (kind.event now auth t.id).foldlM Trail.next (trail t) = some (trail (kind.row now auth t)) := by
  have hst := h.unfinished
  cases kind with
  | claimed lease detail =>
    simp [TaskClaims.Kind.event, TaskClaims.Kind.row, Trail.next, trail, hst, claimed_row]
  | renewed lease => rfl
  | completed result =>
    simp [TaskClaims.Kind.event, TaskClaims.Kind.row, Trail.next, trail, hst, completed_row]
  | released =>
    obtain ⟨hclaimed, hby⟩ := of_released h
    simp [TaskClaims.Kind.event, TaskClaims.Kind.row, Trail.next, trail, hclaimed, hby, released_row]

theorem mem_event {k : Uuid} {e : TaskEvent} (h : e ∈ kind.event now auth k) :
    e.task_id = k ∧ e.agent_id = some auth.agent_id := by
  cases kind <;> simp_all [TaskClaims.Kind.event]

theorem ran_logged (hs : Board db) (h : TaskClaims.Ran now seen auth db db') :
    ∃ new, Logged auth db db' new := by
  cases h with
  | idle h => exact ⟨[], by rw [h]; exact .nothing auth db⟩
  | @wrote p c kind hc hp hrows h =>
    subst h
    refine ⟨kind.event now auth c.id, .update rfl rfl ?_ (fun e he => (mem_event he).2)
      (fun e he => ⟨c, hc, (mem_event he).1.symm⟩) kind.row_id (fun t ht hpt => ?_) fun t ht hpt => ?_⟩
    · cases kind <;> simp [TaskClaims.Kind.event]
    · -- a row at the key is the one that was found
      have hat := at_key_iff.mp (hrows t ht hpt).1
      have hat' := at_key_iff.mp (hrows c hc hp).1
      obtain rfl : t = c := hs.keys.eq ht hc (by rw [hat.1, hat.2, hat'.1])
      rw [of_task, List.filter_eq_self.mpr fun e he => beq_iff_eq.mpr (mem_event he).1]
      exact next_event (hrows t ht hp).2
    · refine List.filter_eq_nil_iff.mpr fun e he => ?_
      rw [beq_iff_eq, (mem_event he).1]
      intro heq
      rw [hs.ids.eq hc ht heq, hpt] at hp
      cases hp

theorem made_logged (h : TaskClaims.Made now auth db db') : ∃ new, Logged auth db db' new := by
  cases h with
  | idle h => exact ⟨[], by rw [h]; exact .nothing auth db⟩
  | @created _ key title description id deps _ hfresh _ _ h =>
    subst h
    refine ⟨[⟨id, some auth.agent_id, "created", some title, now⟩], rfl, Nat.le_refl 1, ?_, ?_, ?_, ?_⟩
    · exact fun e he => by rw [List.mem_singleton.mp he]
    · exact fun e he => ⟨_, mem_insert_into.mpr (Or.inr rfl), by rw [List.mem_singleton.mp he]; rfl⟩
    · exact fun t ht => ⟨t, mem_insert_into.mpr (Or.inl ht), rfl⟩
    · intro t' ht'
      rcases mem_insert_into.mp ht' with ht' | rfl
      · refine Or.inl ⟨t', ht', rfl, ?_⟩
        rw [of_task, List.filter_cons_of_neg (by simpa using (hfresh t' ht').symm), List.filter_nil]
        rfl
      · refine Or.inr ⟨hfresh, ?_⟩
        rw [of_task, List.filter_cons_of_pos (by simp [task_row]), List.filter_nil]
        rfl

end Operations

/-! ## Runs -/

/-- What a transition added to the events. -/
def logged (x : Trans Sys Act) : List TaskEvent :=
  x.post.db.task_events.drop x.pre.db.task_events.length

/-- Everything that was ever logged. -/
def log (tr : List (Trans Sys Act)) : List TaskEvent := tr.flatMap logged

/-- The rest of the server may delete events, as `prune` does, and writes none. -/
def Prunes (x : Trans Sys Act) : Prop :=
  ∀ base events, x.act = .other base events → events.Sublist x.pre.db.task_events

/-- What histories promise of a run. -/
structure HistoryLaw (tr : List (Trans Sys Act)) (s : Sys) : Prop where
  /-- Every task is where its history takes it. -/
  replays : ∀ t ∈ s.db.tasks, replay (of_task t.id (log tr)) = some (trail t)
  /-- Every event is of a task on the board. -/
  own : ∀ e ∈ log tr, ∃ t ∈ s.db.tasks, t.id = e.task_id
  /-- A transition logs one event at most, in the name of who called. -/
  signed : ∀ x ∈ tr, (logged x).length ≤ 1 ∧
    ∀ e ∈ logged x, ∃ auth, caller x.act = some auth ∧ e.agent_id = some auth.agent_id
  /-- Where nothing is logged of a task, nothing its history tells has changed. -/
  silent : ∀ x ∈ tr, ∀ t ∈ x.pre.db.tasks, ∀ t' ∈ x.post.db.tasks, t'.id = t.id →
    of_task t.id (logged x) = [] → trail t' = trail t
  /-- What is stored is a part of what was logged. -/
  stored : s.db.task_events.Sublist (log tr)

/-- What the events ever logged, `l`, have to do with the board. -/
structure Told (l : List TaskEvent) (s : Sys) : Prop where
  board : Board s.db
  replays : ∀ t ∈ s.db.tasks, replay (of_task t.id l) = some (trail t)
  own : ∀ e ∈ l, ∃ t ∈ s.db.tasks, t.id = e.task_id
  sublist : s.db.task_events.Sublist l

section Steps

variable {s t : Sys} {a : Act} {l new : List TaskEvent}

/-- A step logs what an operation of its caller logs, or only events go. -/
theorem step_logged (hs : Board s.db) (hprunes : Prunes ⟨s, a, t⟩) (h : step s a = some t) :
    (∃ auth new, caller a = some auth ∧ logged ⟨s, a, t⟩ = new ∧ Logged auth s.db t.db new) ∨
      logged ⟨s, a, t⟩ = [] ∧ t.db.tasks = s.db.tasks ∧ t.db.task_events.Sublist s.db.task_events := by
  have hlog : ∀ {auth : AuthCtx} {db' : TaskDb}, (∃ new, Logged auth s.db db' new) →
      ∃ new, logged ⟨s, a, s.commit db'⟩ = new ∧ Logged auth s.db db' new := by
    rintro auth db' ⟨new, hnew⟩
    refine ⟨new, ?_, hnew⟩
    show db'.task_events.drop _ = new
    rw [hnew.events, List.drop_left]
  cases TaskClaims.step_stepped hs.ids h with
  | tick => exact Or.inr ⟨List.drop_length, rfl, .refl _⟩
  | other =>
    have hsub := hprunes _ _ rfl
    exact Or.inr ⟨List.drop_of_length_le hsub.length_le, rfl, hsub⟩
  | create _ hmade =>
    obtain ⟨new, hnew⟩ := hlog (made_logged hmade)
    exact Or.inl ⟨_, new, rfl, hnew⟩
  | ran hop _ _ hran =>
    obtain ⟨new, hnew⟩ := hlog (ran_logged hs hran)
    exact Or.inl ⟨_, new, caller_of_operator hop, hnew⟩

theorem Told.step (hs : Told l s) (hprunes : Prunes ⟨s, a, t⟩) (h : TaskClaims.step s a = some t) :
    Told (l ++ logged ⟨s, a, t⟩) t := by
  have hboard := Board.step hs.board h
  rcases step_logged hs.board hprunes h with ⟨auth, new, -, hnew, hlog⟩ | ⟨hnew, htasks, hsub⟩ <;> rw [hnew]
  · refine ⟨hboard, fun t' ht' => ?_, fun e he => ?_, ?_⟩
    · rw [of_task_append]
      rcases hlog.follows t' ht' with ⟨x, hx, hid, hnext⟩ | ⟨hfresh, hborn⟩
      · rw [replay_append (by rw [← hid]; exact hs.replays x hx), hnext]
      · -- no event was logged of a task that was not there
        have hnone : of_task t'.id l = [] := by
          refine List.filter_eq_nil_iff.mpr fun e he => ?_
          obtain ⟨x, hx, hid⟩ := hs.own e he
          rw [beq_iff_eq, ← hid]
          exact hfresh x hx
        rw [hnone, List.nil_append, hborn]
    · rcases List.mem_append.mp he with he | he
      · obtain ⟨x, hx, hid⟩ := hs.own e he
        obtain ⟨x', hx', hid'⟩ := hlog.stays x hx
        exact ⟨x', hx', hid'.trans hid⟩
      · exact hlog.own e he
    · rw [hlog.events]
      exact hs.sublist.append_right new
  · rw [List.append_nil]
    refine ⟨hboard, ?_, ?_, hsub.trans hs.sublist⟩ <;> rw [htasks]
    · exact hs.replays
    · exact hs.own

end Steps

section Law

variable {s : Sys} {tr : List (Trans Sys Act)} {base : Db} {clock : ℕ}

theorem told (h : Run (Rel step) ⟨⟨{ toDb := base }, []⟩, clock⟩ tr s) (hprunes : ∀ x ∈ tr, Prunes x) :
    Told (log tr) s := by
  induction h with
  | nil =>
    exact ⟨⟨Keyed.nil _, Keyed.nil _, fun _ ht => absurd ht List.not_mem_nil,
        fun _ ht => absurd ht List.not_mem_nil⟩,
      fun _ ht => absurd ht List.not_mem_nil, fun _ he => absurd he List.not_mem_nil, .refl _⟩
  | snoc _ hr ih =>
    have hpre := ih fun x hx => hprunes x (List.mem_append_left _ hx)
    have hlast := hprunes _ (List.mem_append_right _ (List.mem_singleton.mpr rfl))
    rw [log, List.flatMap_append, List.flatMap_singleton]
    exact hpre.step hlast hr

/-- **A history tells the whole of its task**: in every run of the board, whatever is
pruned meanwhile, the events logged of a task replay to where the task stands. -/
theorem histories_replay (h : Run (Rel step) ⟨⟨{ toDb := base }, []⟩, clock⟩ tr s)
    (hprunes : ∀ x ∈ tr, Prunes x) : HistoryLaw tr s := by
  have htold := told h hprunes
  have hmid : ∀ x ∈ tr, ∃ l, Told l x.pre := by
    intro x hx
    obtain ⟨tr₁, hrun, hsub⟩ := h.pre hx
    exact ⟨_, told hrun fun y hy => hprunes y (hsub y hy)⟩
  refine ⟨htold.replays, htold.own, fun x hx => ?_, fun x hx t ht t' ht' hid hnone => ?_, htold.sublist⟩
  · obtain ⟨l, hpre⟩ := hmid x hx
    rcases step_logged hpre.board (hprunes x hx) (h.rel x hx) with ⟨auth, new, hcall, hnew, hlog⟩ | ⟨hnew, -⟩ <;>
      rw [hnew]
    · exact ⟨hlog.short, fun e he => ⟨auth, hcall, hlog.signed e he⟩⟩
    · exact ⟨Nat.zero_le 1, fun e he => absurd he List.not_mem_nil⟩
  · obtain ⟨l, hpre⟩ := hmid x hx
    have hpost := (hpre.step (hprunes x hx) (h.rel x hx)).replays t' ht'
    rw [of_task_append, hid, hnone, List.append_nil, hpre.replays t ht] at hpost
    exact (Option.some.inj hpost).symm

end Law

/-- A takeover, after which nothing of it is left in the table. -/
def retired : List Act := TaskClaims.takeover ++ [.other {} []]

theorem retired_run : (exec step ⟨⟨TaskClaims.board, []⟩, 0⟩ retired).isSome = true := by decide

theorem histories_replay_retired :
    HistoryLaw ((exec step ⟨⟨TaskClaims.board, []⟩, 0⟩ retired).get retired_run).1
      ((exec step ⟨⟨TaskClaims.board, []⟩, 0⟩ retired).get retired_run).2 := by
  refine histories_replay (exec_get retired_run) fun x hx base events hact => ?_
  -- the one step of another part of the server leaves no event
  have hmem : x.act ∈ retired := by
    rw [← exec_acts retired_run]
    exact List.mem_map_of_mem hx
  rw [hact] at hmem
  simp only [retired, TaskClaims.takeover, List.mem_append, List.mem_cons, reduceCtorEq, List.not_mem_nil,
    or_false, false_or, TaskClaims.Act.other.injEq] at hmem
  rw [hmem.2]
  exact List.nil_sublist _

end CrewSync.TaskHistory
