/-
Whether the task board is read the way it is written.

When a lease has run out is said seven times over in `store/tasks.rs`: a reader shows
a claim as open from the instant its lease ends (`<= now()`), `claim_task` and
`claim_next_task` take it over after that instant (`< now()`), `renew_lease` keeps it
until then (`> now()`). And a claim without a lease, which the first version of the
server could leave, is a live claim to a reader, anybody's to `claim_task`, and nobody's
to `renew_lease`. `Agree` is what a read and the write after it at the same instant
should have in common, and `sharp` is exactly when they have it.

The second half is about one window: which tasks it is told are its own by `whoami`
and by `list_tasks`, and for which of them `renew_lease` and `release_task` take its
word.
-/
import Mathlib.Logic.Equiv.List
import CrewSync.TaskClaims
import CrewSync.TaskLists

set_option autoImplicit false

namespace CrewSync.TaskViews

open Error Schema Rows Auth Sessions
open Tasks TaskLists Runs
open TaskClaims (Sys Act step after)

/-! ## The board -/

/-- What the tables of the board and its operations see to: a key names one task of a
team and came through `normalize_key`, and a claimed task has a holder. -/
structure Board (db : TaskDb) : Prop where
  ids : Keyed Task.id db.tasks
  keys : Keyed (fun t : Task => (t.team_id, t.key)) db.tasks
  named : ∀ t ∈ db.tasks, ∃ raw, normalize_key raw = .ok t.key
  holder : ∀ t ∈ db.tasks, t.status = .claimed → t.claimed_by.isSome = true

/-- What a row is known by. -/
def name_of (t : Task) : Uuid × Uuid × String := (t.id, t.team_id, t.key)

/-- A row that an operation of `auth` has written over `t`. -/
structure Written (auth : AuthCtx) (t t' : Task) : Prop where
  name : name_of t' = name_of t
  team : t.team_id = auth.team_id
  claimed : t'.status = .claimed →
    t'.claimed_by = some auth.agent_id ∨ t.status = .claimed ∧ t'.claimed_by = t.claimed_by
  holder : ∀ a, t'.claimed_by = some a → a = auth.agent_id ∨ t.claimed_by = some a

/-- What an operation leaves of the tasks: all of them, some of them written over, or
one more. -/
inductive Left (auth : AuthCtx) (db db' : TaskDb) : Prop
  | same : db'.tasks = db.tasks → Left auth db db'
  | wrote {p : Task → Bool} {f : Task → Task} : db'.tasks = update p f db.tasks →
      (∀ t, name_of (f t) = name_of t) → (∀ t ∈ db.tasks, p t = true → Written auth t (f t)) →
      Left auth db db'
  | created {t : Task} : db'.tasks = insert_into t db.tasks → (∀ x ∈ db.tasks, x.id ≠ t.id) →
      (∀ x ∈ db.tasks, (x.team_id, x.key) ≠ (t.team_id, t.key)) →
      (∃ raw, normalize_key raw = .ok t.key) → t.status = .open → t.claimed_by = none →
      Left auth db db'

section Operations

variable {now : ℕ} {seen db db' : TaskDb} {auth : AuthCtx} {key : String} {t : Task}

/-- A key is looked up within the team. -/
theorem at_key_iff : at_key auth key t = true ↔ t.team_id = auth.team_id ∧ t.key = key := by
  simp [at_key]

/-- What a statement of `kind` writes keeps the task's name, and claims for the caller alone. -/
theorem written {kind : TaskClaims.Kind}
    (h : at_key auth key t = true ∧ TaskClaims.Write now seen auth t (kind.row now auth t)) :
    Written auth t (kind.row now auth t) := by
  have hteam := (at_key_iff.mp h.1).1
  cases kind with
  | claimed lease detail =>
    exact ⟨rfl, hteam, fun _ => Or.inl rfl, fun _ ha => Or.inl (Option.some.inj ha).symm⟩
  | renewed lease => exact ⟨rfl, hteam, fun hst => Or.inr ⟨hst, rfl⟩, fun _ ha => Or.inr ha⟩
  | released => refine ⟨rfl, hteam, ?_, ?_⟩ <;> simp [TaskClaims.Kind.row, released_row]
  | completed result =>
    refine ⟨rfl, hteam, ?_, fun _ ha => Or.inr ha⟩
    simp [TaskClaims.Kind.row, completed_row]

/-- A statement on a task leaves the others. -/
theorem ran_left (h : TaskClaims.Ran now seen auth db db') : Left auth db db' := by
  cases h with
  | idle h => exact .same (by rw [h])
  | wrote kind _ _ hrows h =>
    subst h
    refine .wrote rfl (fun t => ?_) fun t ht hp => written (hrows t ht hp)
    cases kind <;> rfl

/-- So does one that makes a task. -/
theorem made_left (h : TaskClaims.Made now auth db db') : Left auth db db' := by
  cases h with
  | idle h => exact .same (by rw [h])
  | created hkey hfresh hnew _ h =>
    subst h
    refine .created rfl hfresh (fun x hx heq => ?_) ⟨_, hkey⟩ rfl rfl
    obtain ⟨hteam, hkey⟩ := Prod.mk.inj heq
    have hat := at_key_iff.mpr ⟨hteam, hkey⟩
    exact absurd (hat.symm.trans (hnew x hx)) (by decide)

/-- The board is about the tasks alone. -/
theorem Board.congr (hs : Board db) (htasks : db'.tasks = db.tasks) : Board db' := by
  refine ⟨?_, ?_, ?_, ?_⟩ <;> rw [htasks]
  · exact hs.ids
  · exact hs.keys
  · exact hs.named
  · exact hs.holder

/-- What leaves the board in order. -/
theorem Left.board (h : Left auth db db') (hs : Board db) : Board db' := by
  cases h with
  | same htasks => exact hs.congr htasks
  | wrote htasks hname hwrite =>
    have hkey (t : Task) := (Prod.mk.inj (hname t)).2
    refine ⟨?_, ?_, ?_, ?_⟩ <;> rw [htasks]
    · exact hs.ids.update fun t => (Prod.mk.inj (hname t)).1
    · exact hs.keys.update hkey
    · refine forall_update hs.named fun t _ _ ht => ?_
      rw [(Prod.mk.inj (hkey t)).2]
      exact ht
    · refine forall_update hs.holder fun t ht hp hheld hst => ?_
      -- claimed now by the caller, or claimed before and by whoever that was
      rcases (hwrite t ht hp).claimed hst with hby | ⟨hclaimed, hby⟩
      · rw [hby]
        rfl
      · rw [hby]
        exact hheld hclaimed
  | created htasks hid hkey hraw hopen _ =>
    refine ⟨?_, ?_, ?_, ?_⟩ <;> rw [htasks]
    · exact hs.ids.insert_into hid
    · exact hs.keys.insert_into hkey
    · exact forall_insert_into hs.named hraw
    · refine forall_insert_into hs.holder fun hst => ?_
      rw [hopen] at hst
      cases hst

end Operations

/-- Who calls. -/
def caller : Act → Option AuthCtx
  | .create_task _ auth _ | .claim_task _ _ auth _ _ | .claim_next_task _ _ auth _ _
  | .renew_lease _ _ auth _ _ | .release_task _ _ auth _ | .complete_task _ _ auth _ _ => some auth
  | .tick _ | .other _ _ => none

section Steps

variable {s t : Sys} {a : Act}

/-- Who operates on a task calls. -/
theorem caller_of_operator {auth : AuthCtx} (h : TaskClaims.operator a = some auth) :
    caller a = some auth := by
  cases a <;> simp_all [TaskClaims.operator, caller]

/-- A step leaves the tasks, or is what an operation of its caller left of them. -/
theorem step_left (hids : Keyed Task.id s.db.tasks) (h : step s a = some t) :
    t.db.tasks = s.db.tasks ∨ ∃ auth db', caller a = some auth ∧
      t = s.commit db' ∧ Left auth s.db db' := by
  cases TaskClaims.step_stepped hids h with
  | tick | other => exact Or.inl rfl
  | create _ hmade => exact Or.inr ⟨_, _, rfl, rfl, made_left hmade⟩
  | ran hop _ _ hran => exact Or.inr ⟨_, _, caller_of_operator hop, rfl, ran_left hran⟩

/-- **The board stays in order** in every step. -/
theorem Board.step (hs : Board s.db) (h : TaskClaims.step s a = some t) : Board t.db := by
  rcases step_left hs.ids h with htasks | ⟨auth, db', -, rfl, hleft⟩
  · exact hs.congr htasks
  · exact hleft.board hs

end Steps

/-! ## What a write finds -/

section Writes

variable {now : ℕ} {db : TaskDb} {auth : AuthCtx} {key : String} {t : Task}

/-- A statement that asks for the row at a key is about the task there. -/
theorem write_task_at {p : Task → Bool} {f : Task → Task} {e : Uuid → List TaskEvent → List TaskEvent}
    (hs : Board db) (ht : t ∈ db.tasks) (hteam : auth.team_id = t.team_id)
    (hp : ∀ x, p x = true → at_key auth t.key x = true) :
    (∃ db', write_task (rechecked db p) f e db = some db') ↔ p t = true := by
  unfold write_task
  simp only [Option.map_eq_some_iff]
  constructor
  · rintro ⟨_, x, hx, -⟩
    have hpx := (TaskClaims.rechecked_iff.mp (pos_of_one hx)).2
    obtain ⟨hxteam, hxkey⟩ := at_key_iff.mp (hp x hpx)
    have hxt := hs.keys.eq (mem_of_one hx) ht (Prod.ext (hxteam.trans hteam) hxkey)
    rw [← hxt]
    exact hpx
  · intro hpt
    have hwhere : rechecked db p t = true := TaskClaims.rechecked_iff.mpr ⟨⟨t, ht, rfl, hpt⟩, hpt⟩
    cases hone : one (rechecked db p) db.tasks with
    | none =>
      rw [one_eq_none.mp hone t ht] at hwhere
      cases hwhere
    | some x => exact ⟨_, x, rfl, rfl⟩

theorem Board.at_key (hs : Board db) (ht : t ∈ db.tasks) (hteam : auth.team_id = t.team_id) :
    one (at_key auth t.key) db.tasks = some t := by
  refine one_eq_some ht (at_key_iff.mpr ⟨hteam.symm, rfl⟩) fun x hx hat => ?_
  obtain ⟨hxteam, hxkey⟩ := at_key_iff.mp hat
  exact hs.keys.eq hx ht (Prod.ext (hxteam.trans hteam) hxkey)

/-- A window that may act on a task, and what it calls it. -/
structure Caller (now : ℕ) (db : TaskDb) (t : Task) (auth : AuthCtx) (key : String) : Prop where
  team : auth.team_id = t.team_id
  fenced : guard now auth db.toDb = .ok ()
  names : normalize_key key = .ok t.key

/-- A claim goes through exactly when its statement finds the row. -/
theorem claim_task_iff (hs : Board db) (ht : t ∈ db.tasks) (hc : Caller now db t auth key)
    (lease_seconds : Option ℤ) : (∃ db', claim_task now db auth key lease_seconds db = .ok (true, db')) ↔
      claimable now auth t.key db t = true := by
  rw [← write_task_at (f := claimed_row now auth (lease_of lease_seconds))
    (e := log_event now auth "claimed" none) hs ht hc.team fun x hx => by
      simp only [claimable, Bool.and_eq_true] at hx
      exact hx.1.1.1]
  simp only [claim_task, hc.names, hc.fenced, bind, Except.bind]
  cases write_task (rechecked db (claimable now auth t.key db))
    (claimed_row now auth (lease_of lease_seconds)) (log_event now auth "claimed" none) db with
  | none => simp
  | some db' => simp

/-- So does a renewal. -/
theorem renew_lease_iff (hs : Board db) (ht : t ∈ db.tasks) (hc : Caller now db t auth key)
    (lease_seconds : Option ℤ) : (∃ db', renew_lease now db auth key lease_seconds db = .ok ((), db')) ↔
      Tasks.renewable now auth t.key t = true := by
  rw [← write_task_at (f := renewed_row now (lease_of lease_seconds)) (e := fun _ t => t) hs ht
    hc.team fun x hx => by
      simp only [Tasks.renewable, Bool.and_eq_true] at hx
      exact hx.1.1.1]
  simp only [renew_lease, hc.names, hc.fenced, bind, Except.bind]
  cases write_task (rechecked db (Tasks.renewable now auth t.key))
    (renewed_row now (lease_of lease_seconds)) (fun _ t => t) db with
  | none => simp [fetch]
  | some db' => simp [fetch]

/-- So does a release. -/
theorem release_task_iff (hs : Board db) (ht : t ∈ db.tasks) (hc : Caller now db t auth key) :
    (∃ db', release_task now db auth key db = .ok ((), db')) ↔
      Tasks.releasable auth t.key t = true := by
  rw [← write_task_at (f := released_row now) (e := log_event now auth "released" none) hs ht
    hc.team fun x hx => by
      simp only [Tasks.releasable, Bool.and_eq_true] at hx
      exact hx.1.1]
  simp only [release_task, hc.names, hc.fenced, bind, Except.bind]
  cases write_task (rechecked db (Tasks.releasable auth t.key)) (released_row now)
    (log_event now auth "released" none) db with
  | none => simp [fetch]
  | some db' => simp [fetch]

/-- `claim_next_task` considers a task when it picks it once everybody else's are locked. -/
theorem candidate_iff (hs : Board db) (ht : t ∈ db.tasks) :
    candidate now db auth (fun id => id != t.id) db = some t ↔ available now auth db t = true := by
  unfold candidate
  constructor
  · intro h
    exact (mem_select.mp (List.mem_of_find?_eq_some h)).2
  · intro hav
    have hpick : (!(fun id => id != t.id) t.id &&
        db.tasks.any fun x => x.id == t.id && available now auth db x) = true := by
      simp only [bne_self_eq_false, Bool.not_false, Bool.true_and, List.any_eq_true,
        Bool.and_eq_true, beq_iff_eq]
      exact ⟨t, ht, rfl, hav⟩
    have hin : t ∈ select (available now auth db) (fun t => t.created_at) db.tasks :=
      mem_select.mpr ⟨ht, hav⟩
    refine one_eq_some hin hpick fun x hx hp => ?_
    simp only [Bool.and_eq_true, Bool.not_eq_true', bne_eq_false_iff_eq] at hp
    exact hs.ids.eq (mem_select.mp hx).1 ht hp.1

end Writes

/-! ## What a read says -/

/-- What the readers show of a task is `entry`. -/
structure Told (now : ℕ) (db : TaskDb) (t : Task) (entry : TaskEntry) : Prop where
  get_task : ∀ (auth : AuthCtx) (db' : TaskDb), auth.team_id = t.team_id →
    ∃ d, get_task now auth t.key db db' = .ok d ∧ d.task = entry
  list_tasks : ∀ (crates : Crates) (now' : ℕ) (auth : AuthCtx) (query : TaskPageQuery) (db' : TaskDb)
    (l : TaskList), auth.team_id = t.team_id → list_tasks crates now now' auth query db db' = .ok l →
    ∀ i ∈ l.tasks, i.key = t.key → i = entry

/-- The counts next to a list count the tasks that are shown so. -/
def Tallied (now : ℕ) (db : TaskDb) : Prop :=
  ∀ (crates : Crates) (before : ℕ) (auth : AuthCtx) (query : TaskPageQuery) (db' : TaskDb) (l : TaskList),
    list_tasks crates before now auth query db' db = .ok l →
      l.open = db.tasks.countP (fun t => t.team_id == auth.team_id &&
        (task_entry now db t).status == .open) ∧
      l.claimed = db.tasks.countP (fun t => t.team_id == auth.team_id &&
        (task_entry now db t).status == .claimed)

section Reads

variable {now : ℕ} {db : TaskDb} {auth : AuthCtx} {t : Task}

/-- A page has the tasks of the team that were asked for. -/
theorem list_tasks_ok {crates : Crates} {now' : ℕ} {query : TaskPageQuery} {db' : TaskDb} {l : TaskList}
    (h : list_tasks crates now now' auth query db db' = .ok l) :
    (∀ i ∈ l.tasks, ∃ t ∈ db.tasks, t.team_id = auth.team_id ∧ i = task_entry now db t) ∧
      l.open = count_of now' auth .open db' ∧ l.claimed = count_of now' auth .claimed db' := by
  simp only [list_tasks, bind_eq_ok, pure_eq_ok] at h
  obtain ⟨filter, -, after, -, rfl⟩ := h
  refine ⟨fun i hi => ?_, rfl, rfl⟩
  obtain ⟨t, ht, rfl⟩ := List.mem_map.mp hi
  have hrow := mem_page_rows.mp (List.mem_of_mem_take (List.mem_of_mem_take ht))
  have hmatch := hrow.2.1
  simp only [matching, Bool.and_eq_true, beq_iff_eq] at hmatch
  exact ⟨t, hrow.1, hmatch.1.1.1, rfl⟩

/-- Wherever a task is told of, it is told as the same entry. -/
theorem told (hs : Board db) (ht : t ∈ db.tasks) : Told now db t (task_entry now db t) := by
  refine ⟨fun auth db' hteam => ?_, fun crates now' auth query db' l hteam hok i hi hkey => ?_⟩
  · unfold TaskLists.get_task
    rw [hs.at_key ht hteam]
    exact ⟨_, rfl, rfl⟩
  · obtain ⟨x, hx, hxteam, rfl⟩ := (list_tasks_ok hok).1 i hi
    rw [hs.keys.eq hx ht (Prod.ext (hxteam.trans hteam) hkey)]

/-- A list's two counts go by the statuses that its entries show. -/
theorem tallied : Tallied now db := by
  intro crates before auth query db' l hok
  obtain ⟨-, hopen, hclaimed⟩ := list_tasks_ok hok
  have hstatus (t : Task) : (task_entry now db t).status = effective_status now t := task_info_status
  simp only [hstatus]
  exact ⟨hopen, hclaimed⟩

end Reads

/-! ## Reading and writing at one instant -/

/-- A reader is told that the task is there to be taken. -/
def free (now : ℕ) (db : TaskDb) (t : Task) : Prop :=
  (task_entry now db t).status = .open ∧ (task_entry now db t).blocked = false

/-- What is read of a task is what a write at the same instant finds: it is free exactly
when any window but its holder's can claim it, by name or as the next one, and claimed
exactly when the holder it names can renew. -/
structure Agree (now : ℕ) (db : TaskDb) (t : Task) : Prop where
  claim_task : ∀ auth key lease_seconds, Caller now db t auth key → held_by auth t = false →
    (free now db t ↔ ∃ db', claim_task now db auth key lease_seconds db = .ok (true, db'))
  claim_next_task : ∀ auth key, Caller now db t auth key → held_by auth t = false →
    (free now db t ↔ candidate now db auth (fun id => id != t.id) db = some t)
  renew_lease : ∀ auth key lease_seconds, Caller now db t auth key → held_by auth t = true →
    ((task_entry now db t).status = .claimed ↔
      ∃ db', renew_lease now db auth key lease_seconds db = .ok ((), db'))

/-- A claim has a lease, and unless the task waits anyway, this is not the instant at
which it ends. -/
def sharp (now : ℕ) (db : TaskDb) (t : Task) : Bool :=
  t.status != .claimed || t.lease_expires_at.any fun x => x != now || blocked db t.id

section Agreement

variable {now : ℕ} {db : TaskDb} {auth : AuthCtx} {t : Task}

/-- Free is open, or claimed with a lease that has run out. -/
theorem free_iff : free now db t ↔
    (t.status = .open ∨ t.status = .claimed ∧ ∃ x, t.lease_expires_at = some x ∧ x ≤ now) ∧
      blocked db t.id = false := by
  have hstatus : (task_entry now db t).status = effective_status now t := task_info_status
  have hblocked : (task_entry now db t).blocked = blocked db t.id := task_info_blocked
  unfold free
  rw [hstatus, hblocked, effective_open]

/-- A claim also takes a task that was claimed with no lease, and not at the instant of expiry. -/
theorem claimable_iff (hteam : auth.team_id = t.team_id) (hother : held_by auth t = false) :
    claimable now auth t.key db t = true ↔
      (t.status = .open ∨ t.status = .claimed ∧
        (t.lease_expires_at = none ∨ ∃ x, t.lease_expires_at = some x ∧ x < now)) ∧
      blocked db t.id = false := by
  have hat : at_key auth t.key t = true := at_key_iff.mpr ⟨hteam.symm, rfl⟩
  simp only [claimable, hat, hother, Bool.true_and, Bool.and_eq_true, Bool.or_eq_true, beq_iff_eq,
    Bool.false_eq_true, or_false, Option.isNone_iff_eq_none, Option.any_eq_true, decide_eq_true_eq,
    Bool.not_eq_true']
  grind

/-- Whoever claims a held task at that instant is refused, and told that the task is open. -/
theorem refused_as_open {key : String} (hs : Board db) (ht : t ∈ db.tasks) (hc : Caller now db t auth key)
    (hother : held_by auth t = false) (hst : t.status = .claimed) (hlease : t.lease_expires_at = some now)
    (hfree : blocked db t.id = false) (lease_seconds : Option ℤ) :
    (¬∃ db', claim_task now db auth key lease_seconds db = .ok (true, db')) ∧
      refusal now auth t.key db = .ok "task is open" := by
  constructor
  · rw [claim_task_iff hs ht hc, claimable_iff hc.team hother, hst, hlease]
    simp
  · have hone := hs.at_key ht hc.team
    have hover : (t.status == .claimed && t.lease_expires_at.any fun x => x ≤ now) = true := by
      simp [hst, hlease]
    simp only [refusal, fetch_task, hone, Error.fetch, bind, Except.bind, if_pos hover, pure, Except.pure, hfree]
    rfl

/-- Nor is a task available at that instant. -/
theorem available_iff (hteam : auth.team_id = t.team_id) :
    available now auth db t = true ↔
      (t.status = .open ∨ t.status = .claimed ∧ ∃ x, t.lease_expires_at = some x ∧ x < now) ∧
      blocked db t.id = false := by
  simp only [available, hteam, beq_self_eq_true, Bool.true_and, Bool.and_eq_true, Bool.or_eq_true,
    beq_iff_eq, Option.any_eq_true, decide_eq_true_eq, Bool.not_eq_true']

/-- A lease is renewed before that instant, not at it. -/
theorem renewable_iff (hteam : auth.team_id = t.team_id) (hheld : held_by auth t = true) :
    Tasks.renewable now auth t.key t = true ↔
      t.status = .claimed ∧ ∃ x, t.lease_expires_at = some x ∧ now < x := by
  have hat : at_key auth t.key t = true := at_key_iff.mpr ⟨hteam.symm, rfl⟩
  simp only [Tasks.renewable, hat, hheld, Bool.true_and, Bool.and_true, Bool.and_eq_true, beq_iff_eq,
    Option.any_eq_true, decide_eq_true_eq]

/-- A window of the team that nothing fences. -/
def window (team_id agent_id : Uuid) (session : String) : AuthCtx :=
  { agent_id := agent_id, agent_name := "", team_id := team_id, team_slug := "", session := session,
    session_id := none, session_epoch := none, token_id := none }

/-- An agent in a window is a caller. -/
theorem caller_window {raw session : String} {agent_id : Uuid} (h : normalize_key raw = .ok t.key) :
    Caller now db t (window t.team_id agent_id session) raw :=
  ⟨rfl, rfl, h⟩

/-- Readers and writers agree on a task exactly away from the edge. -/
theorem agree_iff (hs : Board db) (ht : t ∈ db.tasks) : Agree now db t ↔ sharp now db t = true := by
  obtain ⟨raw, hraw⟩ := hs.named t ht
  have hstatus : (task_entry now db t).status = effective_status now t := task_info_status
  constructor
  · intro hagree
    by_contra hsharp
    simp only [sharp, Bool.or_eq_true, bne_iff_ne, ne_eq, Option.any_eq_true, not_or, not_not,
      not_exists, not_and] at hsharp
    obtain ⟨hst, hlease⟩ := hsharp
    obtain ⟨a, ha⟩ := Option.isSome_iff_exists.mp (hs.holder t ht hst)
    cases hx : t.lease_expires_at with
    | none =>
      -- without a lease the claim is shown as live, and its holder cannot renew it
      have hheld : held_by (window t.team_id a (t.claimed_session.getD "")) t = true := by
        simp [held_by, window, ha]
      have hshown : (task_entry now db t).status = .claimed := by
        rw [hstatus, effective_claimed]
        exact ⟨hst, fun x hsome => absurd (hx.symm.trans hsome) (by simp)⟩
      rw [hagree.renew_lease _ raw none (caller_window hraw) hheld,
        renew_lease_iff hs ht (caller_window hraw), renewable_iff rfl hheld, hx] at hshown
      exact absurd hshown.2 (by simp)
    | some x =>
      -- at the instant the lease ends, the task is shown as open and nobody can take it
      obtain ⟨rfl, hfree⟩ := hlease x hx
      have hother : held_by (window t.team_id (a + 1) "") t = false := by
        simp [held_by, window, ha]
      have hshown : free x db t := free_iff.mpr ⟨Or.inr ⟨hst, x, hx, Nat.le_refl x⟩, by simpa using hfree⟩
      rw [hagree.claim_task _ raw none (caller_window hraw) hother,
        claim_task_iff hs ht (caller_window hraw), claimable_iff rfl hother, hst, hx] at hshown
      simp at hshown
  · intro hsharp
    simp only [sharp, Bool.or_eq_true, bne_iff_ne, ne_eq, Option.any_eq_true] at hsharp
    refine ⟨fun auth key lease_seconds hc hother => ?_, fun auth key hc _ => ?_,
      fun auth key lease_seconds hc hheld => ?_⟩
    · rw [free_iff, claim_task_iff hs ht hc, claimable_iff hc.team hother]
      grind
    · rw [free_iff, candidate_iff hs ht, available_iff hc.team]
      grind
    · rw [hstatus, effective_claimed, renew_lease_iff hs ht hc, renewable_iff hc.team hheld]
      grind

/-- **A task is read the way it is written** exactly where its row is `sharp`, in every
state of every run of the board and at every instant. -/
theorem reads_agree_with_writes {clock : ℕ} (hs : Board db) {tr : List (Trans Sys Act)} {s : Sys}
    (h : Run (Rel step) ⟨⟨db, []⟩, clock⟩ tr s) (now : ℕ) :
    Tallied now s.db ∧ ∀ t ∈ s.db.tasks, Told now s.db t (task_entry now s.db t) ∧
      (Agree now s.db t ↔ sharp now s.db t = true) := by
  have hboard : Board s.db := h.invariant' hs fun _ _ _ hs hr => Board.step hs hr
  exact ⟨tallied, fun t ht => ⟨told hboard ht, agree_iff hboard ht⟩⟩

end Agreement

/-! ### At the edge -/

/-- Ada claims a task for thirty seconds, and the clock comes to the end of the lease. -/
def to_the_edge : List Act :=
  [.create_task 0 (TaskClaims.worker 1 "ada") ⟨"build", "Build", none, []⟩,
    .claim_task 0 0 (TaskClaims.worker 1 "ada") "build" (some 30), .tick 30000000]

theorem to_the_edge_run : (exec step ⟨⟨TaskClaims.board, []⟩, 0⟩ to_the_edge).isSome = true := by decide

theorem board_empty : Board TaskClaims.board :=
  ⟨by decide, by decide, fun _ ht => absurd ht List.not_mem_nil, fun _ ht => absurd ht List.not_mem_nil⟩

/-- The board at that instant. -/
def edge : Sys := ((exec step ⟨⟨TaskClaims.board, []⟩, 0⟩ to_the_edge).get to_the_edge_run).2

theorem reads_agree_with_writes_edge :
    Tallied 30000000 edge.db ∧ ∀ t ∈ edge.db.tasks,
      Told 30000000 edge.db t (task_entry 30000000 edge.db t) ∧
      (Agree 30000000 edge.db t ↔ sharp 30000000 edge.db t = true) :=
  reads_agree_with_writes board_empty (exec_get to_the_edge_run) 30000000

/-- The task is shown as open and waits for nothing, and Bob can take it neither by its
name nor as the next one. -/
theorem read_open_not_claimable : ∃ tr, Run (Rel step) ⟨⟨TaskClaims.board, []⟩, 0⟩ tr edge ∧
    ∃ t ∈ edge.db.tasks, free 30000000 edge.db t ∧
      claim_task 30000000 edge.db (TaskClaims.worker 2 "bob") "build" none edge.db =
        .ok (false, edge.db) ∧
      claim_next_task 30000000 edge.db (TaskClaims.worker 2 "bob") none (fun _ => false) edge.db =
        .ok (false, edge.db) :=
  ⟨_, exec_get to_the_edge_run, _, List.mem_of_getElem? (i := 0) rfl,
    ⟨by decide, by decide⟩, by decide, by decide⟩

/-! ## Which tasks are mine -/

/-- A credential says the team of its agent. -/
def genuine (team : Uuid → Uuid) (a : Act) : Prop :=
  ∀ auth, caller a = some auth → auth.team_id = team auth.agent_id

/-- A task is claimed by an agent of its team. -/
def InTeam (team : Uuid → Uuid) (db : TaskDb) : Prop :=
  ∀ t ∈ db.tasks, ∀ a, t.claimed_by = some a → team a = t.team_id

/-- A task stays with the team it was made in. -/
theorem InTeam.step {team : Uuid → Uuid} {s t : Sys} {a : Act} (hin : InTeam team s.db)
    (hids : Keyed Task.id s.db.tasks) (hgenuine : genuine team a) (h : TaskClaims.step s a = some t) :
    InTeam team t.db := by
  unfold InTeam at hin ⊢
  rcases step_left hids h with htasks | ⟨auth, db', hcaller, rfl, hleft⟩
  · rw [htasks]
    exact hin
  · have hteam := hgenuine auth hcaller
    cases hleft with
    | same htasks =>
      rw [Sys.commit, htasks]
      exact hin
    | wrote htasks hname hwrite =>
      rw [Sys.commit, htasks]
      refine forall_update hin fun x hx hp hold a ha => ?_
      have hwritten := hwrite x hx hp
      rw [(Prod.mk.inj (Prod.mk.inj (hname x)).2).1]
      -- its holder is the caller, who is of the task's team, or is as before
      rcases hwritten.holder a ha with rfl | ha
      · rw [← hteam, hwritten.team]
      · exact hold a ha
    | created htasks _ _ _ _ hnobody =>
      rw [Sys.commit, htasks]
      refine forall_insert_into hin fun a ha => ?_
      rw [hnobody] at ha
      cases ha

/-- `renew_lease` takes the window's word for the task. -/
def Renewed (now : ℕ) (auth : AuthCtx) (lease_seconds : Option ℤ) (db : TaskDb) (t : Task) : Prop :=
  auth.team_id = t.team_id ∧ ∃ key db', normalize_key key = .ok t.key ∧
    renew_lease now db auth key lease_seconds db = .ok ((), db')

/-- And `release_task`. -/
def Released (now : ℕ) (auth : AuthCtx) (db : TaskDb) (t : Task) : Prop :=
  auth.team_id = t.team_id ∧ ∃ key db', normalize_key key = .ok t.key ∧
    release_task now db auth key db = .ok ((), db')

/-- The list `l` of the window's team has the task. -/
def Listed (auth : AuthCtx) (l : List TaskEntry) (t : Task) : Prop :=
  auth.team_id = t.team_id ∧ ∃ i ∈ l, i.key = t.key

/-- A task is the window's for all who are asked: it is counted by `whoami`, it is on one
of the pages of `mine_only`, and `renew_lease` and `release_task` accept it. -/
structure Mine (crates : Crates) (now : ℕ) (auth : AuthCtx) (db : TaskDb) (t : Task) : Prop where
  listed : ∀ query now' db' l, page_filter query = .ok ⟨none, true, none⟩ →
    Paging.Walk (page crates now now' auth query db db') none l →
    (counted auth t = true ↔ Listed auth l t)
  renewed : ∀ lease_seconds, counted auth t = true ↔ Renewed now auth lease_seconds db t
  released : counted auth t = true ↔ Released now auth db t

/-- If the task names the window, it has a lease, which runs as long as the task is
claimed and no longer. -/
def settled (now : ℕ) (auth : AuthCtx) (t : Task) : Bool :=
  !held_by auth t || t.lease_expires_at.any fun x => (t.status == .claimed) == decide (now < x)

section Own

variable {crates : Crates} {now now' : ℕ} {auth : AuthCtx} {db db' : TaskDb} {t : Task}
  {query : TaskPageQuery}

/-- The summary counts a claim of the window, lapsed or not. -/
theorem counted_iff : counted auth t = true ↔ held_by auth t = true ∧ t.status = .claimed := by
  simp only [counted, held_by, Bool.and_eq_true, beq_iff_eq]
  tauto

/-- A renewal asks for a claim whose lease still runs. -/
theorem renewed_iff (hs : Board db) (ht : t ∈ db.tasks) (hfenced : guard now auth db.toDb = .ok ())
    (lease_seconds : Option ℤ) : Renewed now auth lease_seconds db t ↔
      auth.team_id = t.team_id ∧ held_by auth t = true ∧ t.status = .claimed ∧
        ∃ x, t.lease_expires_at = some x ∧ now < x := by
  unfold Renewed
  constructor
  · rintro ⟨hteam, key, db', hkey, hok⟩
    have hwhere := (renew_lease_iff hs ht ⟨hteam, hfenced, hkey⟩ lease_seconds).mp ⟨db', hok⟩
    have hheld : held_by auth t = true := by
      simp only [Tasks.renewable, Bool.and_eq_true] at hwhere
      exact hwhere.1.2
    exact ⟨hteam, hheld, (renewable_iff hteam hheld).mp hwhere⟩
  · rintro ⟨hteam, hheld, hrest⟩
    obtain ⟨key, hkey⟩ := hs.named t ht
    have hwhere := (renewable_iff hteam hheld).mpr hrest
    obtain ⟨db', hok⟩ := (renew_lease_iff hs ht ⟨hteam, hfenced, hkey⟩ lease_seconds).mpr hwhere
    exact ⟨hteam, key, db', hkey, hok⟩

/-- A release asks for a claim, lapsed or not. -/
theorem released_iff (hs : Board db) (ht : t ∈ db.tasks) (hfenced : guard now auth db.toDb = .ok ()) :
    Released now auth db t ↔
      auth.team_id = t.team_id ∧ held_by auth t = true ∧ t.status = .claimed := by
  unfold Released
  constructor
  · rintro ⟨hteam, key, db', hkey, hok⟩
    have hwhere := (release_task_iff hs ht ⟨hteam, hfenced, hkey⟩).mp ⟨db', hok⟩
    simp only [Tasks.releasable, Bool.and_eq_true, beq_iff_eq] at hwhere
    exact ⟨hteam, hwhere.2, hwhere.1.2⟩
  · rintro ⟨hteam, hheld, hst⟩
    obtain ⟨key, hkey⟩ := hs.named t ht
    have hwhere : Tasks.releasable auth t.key t = true := by
      simp only [Tasks.releasable, Bool.and_eq_true, beq_iff_eq]
      exact ⟨⟨at_key_iff.mpr ⟨hteam.symm, rfl⟩, hst⟩, hheld⟩
    obtain ⟨db', hok⟩ := (release_task_iff hs ht ⟨hteam, hfenced, hkey⟩).mpr hwhere
    exact ⟨hteam, key, db', hkey, hok⟩

/-- The list asks what `is_mine` says. -/
theorem listed_iff (hs : Board db) (hc : crates.Lawful db) (ht : t ∈ db.tasks) {l : List TaskEntry}
    (hfilter : page_filter query = .ok ⟨none, true, none⟩)
    (hwalk : Paging.Walk (page crates now now' auth query db db') none l) :
    Listed auth l t ↔ auth.team_id = t.team_id ∧ is_mine now auth t = true := by
  obtain rfl := (walk_iff hc hs.keys hfilter).mp hwalk
  have hmatch {x : Task} : x ∈ page_rows now auth ⟨none, true, none⟩ none db ↔
      x ∈ db.tasks ∧ x.team_id = auth.team_id ∧ is_mine now auth x = true := by
    rw [mem_page_rows]
    simp [matching, of_status, under]
  unfold Listed
  constructor
  · rintro ⟨hteam, i, hi, hkey⟩
    obtain ⟨x, hx, rfl⟩ := List.mem_map.mp hi
    obtain ⟨hx, hxteam, hmine⟩ := hmatch.mp hx
    obtain rfl := hs.keys.eq hx ht (Prod.ext (hxteam.trans hteam) hkey)
    exact ⟨hteam, hmine⟩
  · rintro ⟨hteam, hmine⟩
    exact ⟨hteam, _, List.mem_map_of_mem (hmatch.mpr ⟨ht, hteam.symm, hmine⟩), rfl⟩

/-- Where the four agree: a held task is claimed exactly while its lease runs. -/
theorem settled_iff : settled now auth t = true ↔
    (held_by auth t = true → ∃ x, t.lease_expires_at = some x ∧ (t.status = .claimed ↔ now < x)) := by
  have hsame (x : ℕ) : ((t.status == .claimed) == decide (now < x)) = true ↔
      (t.status = .claimed ↔ now < x) := by
    rw [beq_iff_eq, Bool.eq_iff_iff, beq_iff_eq, decide_eq_true_eq]
  simp only [settled, Bool.or_eq_true, Bool.not_eq_true', Option.any_eq_true, hsame]
  cases held_by auth t with
  | false => simp
  | true => simp

/-- All of them have one meaning of mine exactly for the tasks that are settled. -/
theorem mine_iff {team : Uuid → Uuid} (hs : Board db) (hin : InTeam team db) (hc : crates.Lawful db)
    (hteam : auth.team_id = team auth.agent_id) (hfenced : guard now auth db.toDb = .ok ())
    (ht : t ∈ db.tasks) : Mine crates now auth db t ↔ settled now auth t = true := by
  have hown (hheld : held_by auth t = true) : auth.team_id = t.team_id := by
    simp only [held_by, Bool.and_eq_true, beq_iff_eq] at hheld
    rw [hteam, hin t ht _ hheld.1]
  have hlease : is_mine now auth t = true ↔
      held_by auth t = true ∧ ∀ x, t.lease_expires_at = some x → now < x := by
    rw [is_mine, Bool.and_eq_true, Option.all_eq_true]
    simp only [decide_eq_true_eq]
  rw [settled_iff]
  constructor
  · intro hmine hheld
    -- the first page of the window's tasks, and those after it
    have hfilter : page_filter ⟨none, true, 50, none, none⟩ = .ok ⟨none, true, none⟩ := rfl
    have hwalk : Paging.Walk (page crates now now auth ⟨none, true, 50, none, none⟩ db db) none
        ((page_rows now auth ⟨none, true, none⟩ none db).map (task_entry now db)) :=
      (walk_iff hc hs.keys hfilter).mpr rfl
    have hlisted := hmine.listed _ now db _ hfilter hwalk
    rw [counted_iff, listed_iff hs hc ht hfilter hwalk, hlease] at hlisted
    have hrenewed := hmine.renewed none
    rw [counted_iff, renewed_iff hs ht hfenced] at hrenewed
    have hteam := hown hheld
    cases hx : t.lease_expires_at with
    | none =>
      -- without a lease it is listed, so it is claimed, and then it could not be renewed
      have hclaimed := hlisted.mpr ⟨hteam, hheld, fun x hsome => absurd (hx.symm.trans hsome) (by simp)⟩
      obtain ⟨-, -, -, x, hsome, -⟩ := hrenewed.mp hclaimed
      exact absurd (hx.symm.trans hsome) (by simp)
    | some x =>
      refine ⟨x, rfl, fun hst => ?_, fun hlt => ?_⟩
      · obtain ⟨-, -, -, y, hsome, hlt⟩ := hrenewed.mp ⟨hheld, hst⟩
        obtain rfl := Option.some.inj (hx.symm.trans hsome)
        exact hlt
      · refine (hlisted.mpr ⟨hteam, hheld, fun y hsome => ?_⟩).2
        obtain rfl := Option.some.inj (hx.symm.trans hsome)
        exact hlt
  · intro hsettled
    refine ⟨fun query now' db' l hfilter hwalk => ?_, fun lease_seconds => ?_, ?_⟩
    · rw [counted_iff, listed_iff hs hc ht hfilter hwalk, hlease]
      constructor
      · rintro ⟨hheld, hst⟩
        obtain ⟨x, hx, hruns⟩ := hsettled hheld
        refine ⟨hown hheld, hheld, fun y hsome => ?_⟩
        obtain rfl := Option.some.inj (hx.symm.trans hsome)
        exact hruns.mp hst
      · rintro ⟨-, hheld, hall⟩
        obtain ⟨x, hx, hruns⟩ := hsettled hheld
        exact ⟨hheld, hruns.mpr (hall x hx)⟩
    · rw [counted_iff, renewed_iff hs ht hfenced]
      constructor
      · rintro ⟨hheld, hst⟩
        obtain ⟨x, hx, hruns⟩ := hsettled hheld
        exact ⟨hown hheld, hheld, hst, x, hx, hruns.mp hst⟩
      · rintro ⟨-, hheld, hst, -⟩
        exact ⟨hheld, hst⟩
    · rw [counted_iff, released_iff hs ht hfenced]
      exact ⟨fun h => ⟨hown h.1, h⟩, And.right⟩

/-- **Mine means one thing** to `whoami`, `list_tasks`, `renew_lease` and `release_task`
for exactly the tasks that are settled, in every state of every run of the board and for
every window that is not fenced. -/
theorem mine_is_one_set (team : Uuid → Uuid) {clock : ℕ} (hs : Board db) (hin : InTeam team db)
    {tr : List (Trans Sys Act)} {s : Sys} (hc : crates.Lawful s.db) (h : Run (Rel step) ⟨⟨db, []⟩, clock⟩ tr s)
    (hgenuine : ∀ e ∈ tr, genuine team e.act) (hteam : auth.team_id = team auth.agent_id)
    (hfenced : guard now auth s.db.toDb = .ok ()) :
    ∀ t ∈ s.db.tasks, Mine crates now auth s.db t ↔ settled now auth t = true := by
  have hstate : Board s.db ∧ InTeam team s.db :=
    h.invariant (I := fun s => Board s.db ∧ InTeam team s.db) (C := fun _ a => genuine team a) ⟨hs, hin⟩
      (fun _ _ _ hs hg hr => ⟨hs.1.step hr, hs.2.step hs.1.ids hg hr⟩) hgenuine
  intro t ht
  exact mine_iff hstate.1 hstate.2 hc hteam hfenced ht

end Own

/-! ### A task that is done -/

/-- Crates that write a cursor in strokes, one more than its number, and know the hash of
the one text that the list below is asked for with. -/
def strokes : Crates where
  encode c := String.ofList (List.replicate (Encodable.encode
    (c.v, c.r, c.u, c.k.toList.map Char.toNat, c.f.toList.map Char.toNat) + 1) '|')
  decode text :=
    ((Encodable.decode (text.toList.length - 1) : Option (ℕ × ℤ × ℤ × List ℕ × List ℕ))).map fun c =>
      ⟨c.1, c.2.1, c.2.2.1, String.ofList (c.2.2.2.1.map Char.ofNat),
        String.ofList (c.2.2.2.2.map Char.ofNat)⟩
  sha256 _ := "550563bf0636004b"
  from_timestamp_micros u := some u

theorem trim_strokes (n : ℕ) : trim (String.ofList (List.replicate (n + 1) '|')) =
    String.ofList (List.replicate (n + 1) '|') := by
  have hdrop : (List.replicate (n + 1) '|').dropWhile is_whitespace = List.replicate (n + 1) '|' := by
    rw [List.replicate_succ, List.dropWhile_cons_of_neg (by decide)]
  unfold trim Trims.trim List.rdropWhile
  rw [String.toList_ofList, hdrop, List.reverse_replicate, hdrop, List.reverse_replicate]

theorem strokes_lawful (db : TaskDb) : strokes.Lawful db := by
  have htext (s : String) : String.ofList ((s.toList.map Char.toNat).map Char.ofNat) = s := by
    have hback : Char.ofNat ∘ Char.toNat = id := funext Char.ofNat_toNat
    rw [List.map_map, hback, List.map_id, String.ofList_toList]
  refine ⟨fun c => ?_, fun c => ?_, fun _ _ => rfl⟩
  · simp only [strokes, trim_strokes, String.toList_ofList, List.length_replicate,
      Nat.add_sub_cancel, Encodable.encodek, Option.map_some, htext]
  · rw [strokes, trim_strokes, List.replicate_succ]
    simp

/-- Ada claims a task and finishes it. -/
def finished : List Act :=
  [.create_task 0 (TaskClaims.worker 1 "ada") ⟨"build", "Build", none, []⟩,
    .claim_task 0 0 (TaskClaims.worker 1 "ada") "build" (some 30),
    .complete_task 0 0 (TaskClaims.worker 1 "ada") "build" none]

theorem finished_run : (exec step ⟨⟨TaskClaims.board, []⟩, 0⟩ finished).isSome = true := by decide

/-- The board then. -/
def done : Sys := ((exec step ⟨⟨TaskClaims.board, []⟩, 0⟩ finished).get finished_run).2

theorem done_tasks : done.db.tasks ≠ [] := by decide

/-- The task she finished. -/
def build : Task := done.db.tasks.head done_tasks

theorem finished_genuine : ∀ e ∈ ((exec step ⟨⟨TaskClaims.board, []⟩, 0⟩ finished).get finished_run).1,
    genuine (fun _ => 1) e.act := by
  have hacts : ∀ e ∈ ((exec step ⟨⟨TaskClaims.board, []⟩, 0⟩ finished).get finished_run).1,
      (caller e.act).all fun auth => auth.team_id == 1 := by decide
  intro e he auth hauth
  have hact := hacts e he
  rw [hauth] at hact
  simpa using hact

theorem mine_is_one_set_done : Mine strokes 0 (TaskClaims.worker 1 "ada") done.db build ↔
    settled 0 (TaskClaims.worker 1 "ada") build = true :=
  mine_is_one_set (fun _ => 1) board_empty (fun _ ht => absurd ht List.not_mem_nil) (strokes_lawful _)
    (exec_get finished_run) finished_genuine rfl rfl build (List.head_mem done_tasks)

/-- `mine_only` lists the task, `whoami` counts none, and neither `renew_lease` nor
`release_task` knows a claim. -/
theorem done_is_listed_as_mine : ∃ tr, Run (Rel step) ⟨⟨TaskClaims.board, []⟩, 0⟩ tr done ∧
    (∃ l, list_tasks strokes 0 0 (TaskClaims.worker 1 "ada") ⟨some "any", true, 50, none, none⟩ done.db
        done.db = .ok l ∧ l.tasks = [task_entry 0 done.db build]) ∧
      open_claimed_tasks (TaskClaims.worker 1 "ada") done.db = 0 ∧
      (renew_lease 0 done.db (TaskClaims.worker 1 "ada") "build" none done.db).isOk = false ∧
      (release_task 0 done.db (TaskClaims.worker 1 "ada") "build" done.db).isOk = false :=
  ⟨_, exec_get finished_run, ⟨_, rfl, rfl⟩, by decide, by decide, by decide⟩

end CrewSync.TaskViews
