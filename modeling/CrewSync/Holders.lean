/-
Who is left with a project: `create_project` and `set_project_access`.

A project is given on by those who have it, and nobody administers it from outside. So a
project that everybody has lost is lost for good, and what stands between is one refusal:
nobody takes their own grant away. That is not enough when two holders take each other's,
each having looked before the other committed. It is here that the caller's own row is
locked `FOR UPDATE`: what a transaction has locked is in the table when it commits
(`RowLocks`), so every commit that takes a grant away leaves the caller's behind.
-/
import CrewSync.Presence
import CrewSync.Revocation

set_option autoImplicit false

namespace CrewSync.Holders

open Error Schema Rows Sessions
open Conversations Projects Presence
open RowLocks Runs Revocation Crew

/-- `create_project`. A name that is taken is not adopted. -/
def create_project (now : ℕ) (seen : Db) (auth : AuthCtx) (name : String) (id : Uuid) (db : Db) :
    BusResult (Uuid × Db) := do
  require_capability auth seen
  let name ← normalize_label "project name" name
  ensure (!name.isEmpty) (.Invalid "a project name is required")
  guard now auth db
  match one (fun p => p.team_id == auth.team_id && p.name == name) db.projects with
  | some p => pure (p.id, db)
  | none => pure (id, { db with
      projects := insert_into ⟨id, auth.team_id, name⟩ db.projects
      project_agent_access := give auth id auth.agent_id db.project_agent_access })

/-- The agents that have a project. -/
def holders (k : Uuid) (db : Db) : List Uuid :=
  (db.project_agent_access.filter fun g => g.project_id == k).map fun g => g.agent_id

/-- What the rest of the server commits leaves projects and grants, or is `create_project`. -/
def Creates (x : Trans Sys Act) : Prop :=
  ∀ db', x.act = .other db' →
    db'.projects = x.pre.db.projects ∧ db'.project_agent_access = x.pre.db.project_agent_access ∨
      ∃ now seen auth name id n, create_project now seen auth name id x.pre.db = .ok (n, db')

/-- What projects promise of a run. -/
structure HolderLaw (tr : List (Trans Sys Act)) (s : Sys) : Prop where
  /-- Every project has a holder. -/
  held : ∀ p ∈ s.db.projects, holders p.id s.db ≠ []
  /-- No step of the run takes the last one. -/
  kept : ∀ x ∈ tr, ∀ k, holders k x.pre.db ≠ [] → holders k x.post.db ≠ []
  /-- A grant is taken away by the commit of another holder, who stays one. -/
  lost : ∀ x ∈ tr, ∀ g ∈ x.pre.db.project_agent_access, g ∉ x.post.db.project_agent_access →
    ∃ n t, x.act = .commit n ∧ x.pre.tx n = some t ∧ t.auth.agent_id ≠ g.agent_id ∧
      t.auth.agent_id ∈ holders g.project_id x.pre.db ∧ t.auth.agent_id ∈ holders g.project_id x.post.db

/-! ## What a commit does to the grants -/

section Commit

variable {sha256 : String → String} {s : Sys} {t : Tx} {db' : Db} {g : ProjectAgentAccess} {k : Uuid}

theorem is_grant_iff {p a : Uuid} : is_grant p a g = true ↔ g.project_id = p ∧ g.agent_id = a := by
  simp [is_grant]

theorem mem_holders {db : Db} {a : Uuid} :
    a ∈ holders k db ↔ ∃ g ∈ db.project_agent_access, is_grant k a g = true := by
  simp only [holders, List.mem_map, List.mem_filter, beq_iff_eq, is_grant_iff, and_assoc]

/-- A grant that a commit takes away is another's, and the caller keeps its own. -/
theorem lost_cases (hs : Inv s) (ht : t ∈ s.txs) (h : t.outcome sha256 s.db = .ok db')
    (hg : lost (t.view s.db).project_agent_access db'.project_agent_access g = true) :
    ∃ own ∈ s.db.project_agent_access, is_grant g.project_id t.auth.agent_id own = true ∧
      t.auth.agent_id ≠ g.agent_id ∧
      lost (t.view s.db).project_agent_access db'.project_agent_access own = false := by
  simp only [lost, Bool.and_eq_true, Bool.not_eq_true', List.any_eq_true, List.any_eq_false,
    beq_iff_eq] at hg
  obtain ⟨⟨g', hg', hkey⟩, hgone⟩ := hg
  by_cases hcall : t.call.changes_access = true
  swap
  · rw [run_call_grants h (by simpa using hcall)] at hgone
    exact absurd hkey (hgone g' hg')
  obtain ⟨project, agent, grant, hc⟩ := changes_access_iff.mp hcall
  rw [Tx.outcome, hc] at h
  obtain ⟨u, h⟩ := map_snd_ok h
  obtain ⟨p, target, -, -, hmine, hself, rfl⟩ := set_project_access_ok h
  -- what stays in the transaction's view: all of it, or what is not the target's
  have hafter : ∀ x, x ∈ (t.view s.db).project_agent_access → (grant = true ∨ is_grant p target x = false) →
      x ∈ if grant then give t.auth p target (t.view s.db).project_agent_access
        else delete (is_grant p target) (t.view s.db).project_agent_access := by
    intro x hx hstays
    by_cases hgrant : grant = true
    · rw [if_pos hgrant, give]
      split
      · exact hx
      · exact mem_insert_into.mpr (Or.inl hx)
    · rw [if_neg hgrant]
      exact mem_delete.mpr ⟨hx, by rw [hstays.resolve_left hgrant]⟩
  have htarget : ¬grant = true ∧ is_grant p target g' = true := by
    by_contra hstays
    exact hgone g' (hafter g' hg' (by grind)) hkey
  have hother : target ≠ t.auth.agent_id := hself.resolve_left htarget.1
  -- the caller has read its own grant, and it has locked it
  obtain ⟨own, hread, hmatch⟩ := List.any_eq_true.mp hmine
  have hown : own ∈ s.db.project_agent_access := by
    rcases read_there hs ht hread with hin | hnoticed
    · exact hin
    · exact absurd (is_grant_iff.mp hmatch).2 ((hs.sound t ht).others own hnoticed)
  have hp := is_grant_iff.mp htarget.2
  simp only [grant_key, Prod.mk.injEq] at hkey
  refine ⟨own, hown, ?_, ?_, ?_⟩
  · rw [← hkey.1, hp.1]
    exact hmatch
  · rw [← hkey.2, hp.2]
    exact hother.symm
  · have hmiss : is_grant p target own = false := by
      by_contra hhit
      have howner := (is_grant_iff.mp (by simpa using hhit)).2
      exact hother (howner.symm.trans (is_grant_iff.mp hmatch).2)
    simp only [lost, Bool.and_eq_false_iff, Bool.not_eq_false', List.any_eq_true, beq_iff_eq]
    exact Or.inr ⟨own, hafter own hread (Or.inr hmiss), rfl⟩

theorem merge_keeps (hg : g ∈ s.db.project_agent_access)
    (hkept : lost (t.view s.db).project_agent_access db'.project_agent_access g = false) :
    g ∈ (t.merge s.db db').project_agent_access :=
  List.mem_append_left _ (mem_delete.mpr ⟨hg, by rw [hkept]⟩)

/-- A grant is there after a commit, or its caller had the project and has it. -/
theorem commit_loses (hs : Inv s) (ht : t ∈ s.txs) (h : t.outcome sha256 s.db = .ok db')
    (hg : g ∈ s.db.project_agent_access) :
    g ∈ (t.merge s.db db').project_agent_access ∨
      t.auth.agent_id ≠ g.agent_id ∧ t.auth.agent_id ∈ holders g.project_id s.db ∧
        t.auth.agent_id ∈ holders g.project_id (t.merge s.db db') := by
  by_cases hlost : lost (t.view s.db).project_agent_access db'.project_agent_access g = true
  · obtain ⟨own, hown, hmatch, hother, hkept⟩ := lost_cases hs ht h hlost
    exact Or.inr ⟨hother, mem_holders.mpr ⟨own, hown, hmatch⟩,
      mem_holders.mpr ⟨own, merge_keeps hown hkept, hmatch⟩⟩
  · exact Or.inl (merge_keeps hg (by simpa using hlost))

theorem merge_projects {db : Db} (h : t.outcome sha256 db = .ok db') : (t.merge db db').projects = db.projects := by
  unfold Tx.outcome at h
  have hrun := (run_call_frame h).2
  simp only [Tx.view] at hrun
  simp only [Tx.merge, hrun]

end Commit

/-! ## Runs -/

section Steps

variable {sha256 : String → String} {s s' : Sys} {a : Act} {k : Uuid}

/-- A new project's first holder is who creates it. -/
theorem create_project_ok {now : ℕ} {seen db db' : Db} {auth : AuthCtx} {raw : String} {id n : Uuid}
    (h : create_project now seen auth raw id db = .ok (n, db')) :
    (∀ g ∈ db.project_agent_access, g ∈ db'.project_agent_access) ∧
      ∀ p ∈ db'.projects, p ∈ db.projects ∨ holders p.id db' ≠ [] := by
  simp only [create_project, bind_eq_ok] at h
  obtain ⟨_, -, name, -, _, -, _, -, h⟩ := h
  split at h
  · obtain ⟨-, rfl⟩ := Prod.mk.inj (pure_eq_ok.mp h)
    exact ⟨fun _ hg => hg, fun _ hp => Or.inl hp⟩
  · obtain ⟨-, rfl⟩ := Prod.mk.inj (pure_eq_ok.mp h)
    have hgive : (∀ g ∈ db.project_agent_access, g ∈ give auth id auth.agent_id db.project_agent_access) ∧
        ∃ g ∈ give auth id auth.agent_id db.project_agent_access, is_grant id auth.agent_id g = true := by
      unfold give
      split
      · exact ⟨fun _ hg => hg, List.any_eq_true.mp ‹_›⟩
      · exact ⟨fun _ hg => mem_insert_into.mpr (Or.inl hg), _, mem_insert_into.mpr (Or.inr rfl),
          is_grant_iff.mpr ⟨rfl, rfl⟩⟩
    refine ⟨hgive.1, fun p hp => ?_⟩
    rcases mem_insert_into.mp hp with hp | rfl
    · exact Or.inl hp
    · exact Or.inr (List.ne_nil_of_mem (mem_holders.mpr hgive.2))

/-- What a step of the run takes, and which projects it leaves. -/
theorem step_holders (hs : Inv s) (hcreates : Creates ⟨s, a, s'⟩) (h : step sha256 s a = some s') :
    (∀ g ∈ s.db.project_agent_access, g ∈ s'.db.project_agent_access ∨
      ∃ n t, a = .commit n ∧ s.tx n = some t ∧ t.auth.agent_id ≠ g.agent_id ∧
        t.auth.agent_id ∈ holders g.project_id s.db ∧ t.auth.agent_id ∈ holders g.project_id s'.db) ∧
      ∀ p ∈ s'.db.projects, p ∈ s.db.projects ∨ holders p.id s'.db ≠ [] := by
  cases a with
  | begin x seen now auth call =>
    simp only [step, Option.bind_eq_bind, Option.bind_eq_some_iff] at h
    obtain ⟨v, -, h⟩ := h
    split at h
    · cases h
    · rw [← Option.some.inj h]
      exact ⟨fun _ hg => Or.inl hg, fun _ hp => Or.inl hp⟩
  | statement x =>
    simp only [step, Option.bind_eq_bind, Option.bind_eq_some_iff, Option.pure_def, Option.some.injEq] at h
    obtain ⟨t, -, t', -, rfl⟩ := h
    exact ⟨fun _ hg => Or.inl hg, fun _ hp => Or.inl hp⟩
  | commit x =>
    simp only [step, Option.bind_eq_bind, Option.bind_eq_some_iff, Option.ite_none_right_eq_some,
      Option.some.injEq] at h
    obtain ⟨t, ht, -, rfl⟩ := h
    unfold Sys.commit
    split
    · exact ⟨fun _ hg => Or.inl hg, fun _ hp => Or.inl hp⟩
    · rename_i db' hok
      refine ⟨fun g hg => ?_, fun p hp => Or.inl ?_⟩
      · exact (commit_loses hs (mem_of_one ht) hok hg).imp_right fun hby => ⟨x, t, rfl, ht, hby⟩
      · rw [← merge_projects hok]
        exact hp
  | rollback x =>
    obtain ⟨t, -, rfl⟩ := Option.map_eq_some_iff.mp h
    exact ⟨fun _ hg => Or.inl hg, fun _ hp => Or.inl hp⟩
  | other db' =>
    simp only [step, Option.ite_none_right_eq_some, Option.some.injEq] at h
    obtain ⟨-, rfl⟩ := h
    rcases hcreates db' rfl with ⟨hprojects, hgrants⟩ | ⟨now, seen, auth, name, id, n, hok⟩
    · refine ⟨fun g hg => Or.inl ?_, fun p hp => Or.inl ?_⟩
      · exact hgrants.symm ▸ hg
      · exact hprojects ▸ hp
    · obtain ⟨hgrants, hprojects⟩ := create_project_ok hok
      exact ⟨fun g hg => Or.inl (hgrants g hg), hprojects⟩

/-- A step takes the last holder of no project. -/
theorem step_keeps (hs : Inv s) (hcreates : Creates ⟨s, a, s'⟩) (h : step sha256 s a = some s')
    (hk : holders k s.db ≠ []) : holders k s'.db ≠ [] := by
  obtain ⟨b, hb⟩ := List.exists_mem_of_ne_nil _ hk
  obtain ⟨g, hg, hmatch⟩ := mem_holders.mp hb
  rcases (step_holders hs hcreates h).1 g hg with hin | ⟨n, t, -, -, -, -, hafter⟩
  · exact List.ne_nil_of_mem (mem_holders.mpr ⟨g, hin, hmatch⟩)
  · rw [← (is_grant_iff.mp hmatch).1]
    exact List.ne_nil_of_mem hafter

/-- **A project is never left without a holder**, whoever gives and takes access at the same
time, in every run from a state in which nothing is under way. -/
theorem projects_stay_held {db : Db} (hheld : ∀ p ∈ db.projects, holders p.id db ≠ [])
    {tr : List (Trans Sys Act)} (h : Run (Rel (step sha256)) (Sys.start db) tr s)
    (hcreates : ∀ x ∈ tr, Creates x) : HolderLaw tr s := by
  have hpre : ∀ x ∈ tr, Inv x.pre :=
    h.invariant_pre (C := fun _ _ => True) ⟨Held.start, fun _ ht => absurd ht List.not_mem_nil⟩
      (fun _ _ _ hs _ hr => hs.step hr) fun _ _ => trivial
  refine ⟨?_, fun x hx k hk => step_keeps (hpre x hx) (hcreates x hx) (h.rel x hx) hk,
    fun x hx g hg hgone => ((step_holders (hpre x hx) (hcreates x hx) (h.rel x hx)).1 g hg).resolve_left hgone⟩
  induction h with
  | nil => exact hheld
  | @snoc tr s t a _ hr ih =>
    have hlast : (⟨s, a, t⟩ : Trans Sys Act) ∈ tr ++ [⟨s, a, t⟩] :=
      List.mem_append_right _ (List.mem_singleton.mpr rfl)
    have hbefore := ih (fun x hx => hcreates x (List.mem_append_left _ hx))
      fun x hx => hpre x (List.mem_append_left _ hx)
    intro p hp
    rcases (step_holders (hpre _ hlast) (hcreates _ hlast) hr).2 p hp with hold | hnew
    · exact step_keeps (hpre _ hlast) (hcreates _ hlast) hr (hbefore p hold)
    · exact hnew

end Steps

/-- Ada and Bob try to take the project from each other at the same time. Each has locked
their own grant, so neither gets the other's, and one of the two is given up. -/
def duel : List Act :=
  [.begin 1 0 0 ada (.set_project_access ⟨"atlas", none⟩ "bob" false),
    .begin 2 0 0 bob (.set_project_access ⟨"atlas", none⟩ "ada" false),
    .statement 1, .statement 2, .rollback 2, .statement 1, .commit 1]

theorem duel_run : (exec (step digest) (Sys.start crew) duel).isSome = true := by decide

theorem projects_stay_held_duel :
    HolderLaw ((exec (step digest) (Sys.start crew) duel).get duel_run).1
      ((exec (step digest) (Sys.start crew) duel).get duel_run).2 := by
  refine projects_stay_held (by decide) (exec_get duel_run) fun x hx db' hact => ?_
  have hmem : x.act ∈ duel := by
    rw [← exec_acts duel_run]
    exact List.mem_map_of_mem hx
  rw [hact] at hmem
  simp [duel] at hmem

end CrewSync.Holders
