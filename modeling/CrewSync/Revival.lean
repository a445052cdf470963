/-
A dead window, and what can bring it back.

A window is *dead* when it is revoked, past its expiry, or hanging from a revoked
token. Three operations write the columns that decide this. A registration takes
a dead row over: that is its purpose. A resume and a renewal write `expires_at`
too, and neither looks at the old value: the request that carries them was
authenticated while the window was alive, and by the time it runs the window may
have expired. `guard`, one function further down, does look.

So the law holds of every run in which no resume and no renewal meets an expired
row (`meets_unexpired`), and a run in which one does is below. Owner recovery
rests on the same law: its liveness check holds the agent row to the end, which
shuts registration out, and a renewal does not ask for that row.
-/
import CrewSync.Fence

set_option autoImplicit false

namespace CrewSync.Revival

open Schema Rows Auth Sessions Runs
open Windows Fence

variable {sha256 : String → String} {s t : Sys} {a : Act} {tokens : List ApiToken} {x : AgentSession}

/-- The window `x` can answer, now. -/
def Alive (s : Sys) (x : AgentSession) : Prop := live s.clock s.db.api_tokens x = true

/-- A window that was dead before the transition is alive after it. -/
def revives (sid : Uuid) (e : Trans Sys Act) : Prop :=
  ∃ x ∈ e.pre.db.agent_sessions, ∃ y ∈ e.post.db.agent_sessions,
    x.id = sid ∧ y.id = sid ∧ ¬ Alive e.pre x ∧ Alive e.post y

/-- The action is a registration. -/
def is_register : Act → Bool
  | .register .. => true
  | _ => false

/-- The transition is a registration that succeeded on the window `sid`. -/
def registers (sha256 : String → String) (sid : Uuid) (e : Trans Sys Act) : Prop :=
  is_register e.act = true ∧ ∃ i, issued sha256 e i ∧ i.id = sid

/-- A resume or a renewal that takes effect finds a row that has not expired. -/
def meets_unexpired (s : Sys) : Act → Bool
  | .resume r _ _ _ => (s.admitted r).all fun auth => auth.session_id.all fun sid =>
      s.db.agent_sessions.all fun x =>
        !resumable auth sid s.db.api_tokens x || s.clock < x.expires_at
  | .renew r _ _ => (s.admitted r).all fun auth => auth.session_id.all fun sid =>
      s.db.agent_sessions.all fun x => !renewable auth sid x || s.clock < x.expires_at
  | _ => true

instance (s : Sys) (x : AgentSession) : Decidable (Alive s x) :=
  inferInstanceAs (Decidable (_ = true))

/-! ## Time and tokens -/

theorem live_iff {now : ℕ} :
    live now tokens x = true ↔
      x.revoked_at = none ∧ now < x.expires_at ∧ parent_revoked tokens x = false := by
  simp [live, Option.isNone_iff_eq_none, and_assoc]

/-- A token once revoked stays revoked, through an `UPDATE` that leaves ids alone
and clears no revocation. -/
theorem parent_revoked_update {p : ApiToken → Bool} {f : ApiToken → ApiToken}
    (hf : ∀ k, (f k).id = k.id ∧ (k.revoked_at.isSome = true → (f k).revoked_at.isSome = true))
    (h : parent_revoked tokens x = true) : parent_revoked (update p f tokens) x = true := by
  obtain ⟨k, hk, hp⟩ := List.any_eq_true.mp h
  refine List.any_eq_true.mpr ⟨_, mem_update_of_mem hk, ?_⟩
  simp only [Bool.and_eq_true, beq_iff_eq] at hp ⊢
  split
  · exact ⟨(hf k).1.trans hp.1, (hf k).2 hp.2⟩
  · exact hp

/-- Neither the clock nor the revocation of a token goes back. -/
theorem step_ages (hstep : step sha256 s a = some t) :
    s.clock ≤ t.clock ∧
      ∀ x, parent_revoked s.db.api_tokens x = true → parent_revoked t.db.api_tokens x = true := by
  cases a with
  | tick d =>
    rw [← Option.some.inj hstep]
    exact ⟨Nat.le_add_right _ _, fun _ h => h⟩
  | authenticate r raw headers now =>
    obtain ⟨-, -, rfl | ⟨ctx, -, rfl⟩⟩ := authenticate_cases hstep
    · exact ⟨Nat.le_refl _, fun _ h => h⟩
    refine ⟨Nat.le_refl _, fun x h => ?_⟩
    simp only [touch]
    split
    · exact h
    · exact parent_revoked_update (fun k => ⟨rfl, id⟩) h
    · exact h
  | guard r now =>
    obtain ⟨auth, -, rfl | ⟨-, rfl⟩⟩ := guard_cases hstep <;> exact ⟨Nat.le_refl _, fun _ h => h⟩
  | commit r db' =>
    obtain ⟨-, -, htok, rfl⟩ := commit_cases hstep
    exact ⟨Nat.le_refl _, fun x h => by rw [← htok] at h; exact h⟩
  | rollback r | recovered r => rw [← Option.some.inj hstep]; exact ⟨Nat.le_refl _, fun _ h => h⟩
  | register r label ttl entropy id now =>
    obtain ⟨auth, parent, -, -, -, hc⟩ := register_cases hstep
    obtain rfl | ⟨i, db', hreg, rfl, -, -⟩ := commits_cases hc
    · exact ⟨Nat.le_refl _, fun _ h => h⟩
    obtain ⟨lab, -, -, -, ⟨-, -, -, -, rfl⟩ | ⟨x, -, -, -, -, rfl⟩⟩ := register_ok hreg <;>
      exact ⟨Nat.le_refl _, fun _ h => h⟩
  | resume r ttl entropy now =>
    obtain ⟨auth, -, -, hc⟩ := lifecycle_cases (fun auth => (· == auth.agent_id))
      (fun auth => resume sha256 now auth ttl (generate_session_token entropy) s.db) hstep
    obtain rfl | ⟨i, db', hres, rfl, -, -⟩ := commits_cases hc
    · exact ⟨Nat.le_refl _, fun _ h => h⟩
    obtain ⟨sid, x, -, -, -, -, -, rfl⟩ := resume_ok hres
    exact ⟨Nat.le_refl _, fun _ h => h⟩
  | renew r ttl now =>
    obtain ⟨auth, -, -, hc⟩ := lifecycle_cases (fun _ _ => false)
      (fun auth => renew now auth ttl s.db) hstep
    obtain rfl | ⟨i, db', hren, rfl, -, -⟩ := commits_cases hc
    · exact ⟨Nat.le_refl _, fun _ h => h⟩
    obtain ⟨sid, x, -, -, rfl⟩ := renew_ok hren
    exact ⟨Nat.le_refl _, fun _ h => h⟩
  | revoke r label now =>
    obtain ⟨auth, -, -, hc⟩ := lifecycle_cases (fun auth => (· == auth.agent_id))
      (fun auth => revoke now auth label s.db) hstep
    obtain rfl | ⟨i, db', hrev, rfl, -, -⟩ := commits_cases hc
    · exact ⟨Nat.le_refl _, fun _ h => h⟩
    obtain ⟨-, rfl⟩ := revoke_ok hrev
    exact ⟨Nat.le_refl _, fun _ h => h⟩
  | revoke_token team id now =>
    simp only [step] at hstep
    split at hstep
    · cases hstep
    obtain rfl | ⟨i, db', hrev, rfl, -, -⟩ := commits_cases hstep
    · exact ⟨Nat.le_refl _, fun _ h => h⟩
    obtain rfl | ⟨p, -, -, rfl⟩ := revoke_token_ok hrev
    · exact ⟨Nat.le_refl _, fun _ h => h⟩
    · exact ⟨Nat.le_refl _, fun x h => parent_revoked_update (fun k => ⟨rfl, fun _ => rfl⟩) h⟩
  | issue_token k =>
    rw [issue_token_cases hstep]
    refine ⟨Nat.le_refl _, fun x h => ?_⟩
    obtain ⟨y, hy, hp⟩ := List.any_eq_true.mp h
    exact List.any_eq_true.mpr ⟨y, mem_insert_into.mpr (Or.inl hy), hp⟩
  | recover r now =>
    obtain ⟨-, rfl | ⟨auth, -, -, rfl⟩⟩ := recover_cases hstep <;>
      exact ⟨Nat.le_refl _, fun _ h => h⟩

/-- A row that is alive after the step was alive before it, as it was. -/
theorem alive_of_alive_after (hstep : step sha256 s a = some t) (h : Alive t x) : Alive s x := by
  obtain ⟨hclock, htok⟩ := step_ages hstep
  obtain ⟨hrev, hexp, hpar⟩ := live_iff.mp h
  refine live_iff.mpr ⟨hrev, by omega, ?_⟩
  cases hp : parent_revoked s.db.api_tokens x with
  | false => rfl
  | true => exact absurd hpar (by simp [htok x hp])

/-! ## What revives -/

/-- Under the condition, the one change that brings a window to life is a
registration, and the agent row of that window is free. -/
theorem revival_of_change {y : AgentSession} (hstep : step sha256 s a = some t)
    (hx : x ∈ s.db.agent_sessions) (hC : meets_unexpired s a = true) (hch : Change sha256 s a x y)
    (hdead : ¬ Alive s x) (halive : Alive t y) :
    is_register a = true ∧ y.epoch = x.epoch + 1 ∧ s.agent_locked x.agent_id = false := by
  have hbefore := alive_of_alive_after hstep halive
  cases hch with
  | used u => exact absurd hbefore hdead
  | taken_over _ hfree => exact ⟨rfl, rfl, hfree⟩
  | rotated hadm hsid hp =>
    have hexp : s.clock < x.expires_at := by
      simp only [meets_unexpired, hadm, hsid, Option.all_some, List.all_eq_true] at hC
      simpa [hp] using hC x hx
    simp only [resumable, Bool.and_eq_true, Option.isNone_iff_eq_none, Bool.not_eq_true'] at hp
    exact absurd (live_iff.mpr ⟨hp.1.1.2, hexp, hp.2⟩) hdead
  | extended hadm hsid hp =>
    have hexp : s.clock < x.expires_at := by
      simp only [meets_unexpired, hadm, hsid, Option.all_some, List.all_eq_true] at hC
      simpa [hp] using hC x hx
    simp only [renewable, Bool.and_eq_true, Option.isNone_iff_eq_none] at hp
    -- the parent is the same row's, and it was not revoked after the step
    exact absurd (live_iff.mpr ⟨hp.1.2, hexp, (live_iff.mp hbefore).2.2⟩) hdead
  | closed => exact absurd (live_iff.mp halive).1 (by simp [closed])

/-- Step law: what a step revives, it registered. -/
theorem registers_of_revives (hw : WF s.db) (hstep : step sha256 s a = some t)
    (hC : meets_unexpired s a = true) {sid : Uuid} (h : revives sid ⟨s, a, t⟩) :
    registers sha256 sid ⟨s, a, t⟩ := by
  obtain ⟨x, hx, y, hy, hxid, hyid, hdead, halive⟩ := h
  have hyx : y.id = x.id := hyid.trans hxid.symm
  obtain ⟨f, heq, hf⟩ | ⟨new, -, hid, -, -, heq, -⟩ := step_changed hw hstep
  · have hfx : f x ∈ t.db.agent_sessions := by rw [heq]; exact List.mem_map_of_mem hx
    obtain rfl : y = f x := (hw.step hstep).ids.eq hy hfx (hyx.trans (hf x hx).id_eq.symm)
    obtain ⟨hreg, hep, -⟩ := revival_of_change hstep hx hC (hf x hx) hdead halive
    obtain ⟨z, hz, hzid, hissued⟩ := epoch_changed hw hstep hx
    obtain rfl : z = f x := (hw.step hstep).ids.eq hz hfx (hzid.trans (hf x hx).id_eq.symm)
    obtain ⟨i, hi, hiid⟩ := hissued (by omega)
    exact ⟨hreg, i, hi, hiid.trans hxid⟩
  · have hxt : x ∈ t.db.agent_sessions := by rw [heq]; exact mem_insert_into.mpr (Or.inl hx)
    obtain rfl : y = x := (hw.step hstep).ids.eq hy hxt hyx
    exact absurd (alive_of_alive_after hstep halive) hdead

/-! ## Recovery -/

/-- While a recovery holds an agent's row, no window of that agent is alive. -/
def Closed (s : Sys) : Prop :=
  ∀ r ∈ s.recovering, ∀ x ∈ s.db.agent_sessions, x.agent_id = r.2 → ¬ Alive s x

/-- `recovering` grows by a recovery that found no window alive, and only so. -/
theorem step_recovering (hstep : step sha256 s a = some t) :
    ∀ r ∈ t.recovering, r ∈ s.recovering ∨
      t.db = s.db ∧ t.clock = s.clock ∧
        ∀ x ∈ s.db.agent_sessions, x.agent_id = r.2 → ¬ Alive s x := by
  have hsame : (∀ r ∈ t.recovering, r ∈ s.recovering) → ∀ r ∈ t.recovering, r ∈ s.recovering ∨
      t.db = s.db ∧ t.clock = s.clock ∧
        ∀ x ∈ s.db.agent_sessions, x.agent_id = r.2 → ¬ Alive s x :=
    fun h r hr => Or.inl (h r hr)
  cases a with
  | tick d | rollback r => rw [← Option.some.inj hstep] at hsame ⊢; exact hsame fun _ h => h
  | authenticate r raw headers now =>
    obtain ⟨-, -, rfl | ⟨ctx, -, rfl⟩⟩ := authenticate_cases hstep <;> exact hsame fun _ h => h
  | guard r now =>
    obtain ⟨auth, -, rfl | ⟨-, rfl⟩⟩ := guard_cases hstep <;> exact hsame fun _ h => h
  | commit r db' => obtain ⟨-, -, -, rfl⟩ := commit_cases hstep; exact hsame fun _ h => h
  | issue_token k => rw [issue_token_cases hstep] at hsame ⊢; exact hsame fun _ h => h
  | recover r now =>
    obtain ⟨hnow, rfl | ⟨auth, -, hnone, rfl⟩⟩ := recover_cases hstep
    · exact hsame fun _ h => h
    intro r' hr'
    rcases List.mem_cons.mp hr' with rfl | hr'
    · refine Or.inr ⟨rfl, rfl, fun x hx hagent halive => ?_⟩
      obtain ⟨hrev, hexp, hpar⟩ := live_iff.mp halive
      have hlive : live now s.db.api_tokens x = true := live_iff.mpr ⟨hrev, by omega, hpar⟩
      exact absurd hlive (by simp [hnone x hx hagent])
    · exact Or.inl hr'
  | recovered r =>
    rw [← Option.some.inj hstep] at hsame ⊢
    exact hsame fun _ h => (List.mem_filter.mp h).1
  | _ =>
    obtain ⟨α, agents, res, hc⟩ := commits_of_lifecycle rfl hstep
    obtain rfl | ⟨b, db', -, rfl, -, -⟩ := commits_cases hc <;> exact hsame fun _ h => h

theorem Closed.step (hw : WF s.db) (hc : Closed s) (hstep : step sha256 s a = some t)
    (hC : meets_unexpired s a = true) : Closed t := by
  intro r hr y hy hagent halive
  rcases step_recovering hstep r hr with hold | ⟨hdb, hclock, hnone⟩
  swap
  · refine hnone y (by rw [← hdb]; exact hy) hagent ?_
    unfold Alive at halive ⊢
    rwa [hdb, hclock] at halive
  have hlocked : s.agent_locked r.2 = true := List.any_eq_true.mpr ⟨r, hold, by simp⟩
  obtain ⟨f, heq, hf⟩ | ⟨new, -, -, -, hfree, heq, -⟩ := step_changed hw hstep
  · rw [heq] at hy
    obtain ⟨x, hx, rfl⟩ := List.mem_map.mp hy
    have hxa : x.agent_id = r.2 := (Prod.mk.inj (hf x hx).window_eq).1.symm.trans hagent
    obtain ⟨-, -, hfree⟩ :=
      revival_of_change hstep hx hC (hf x hx) (hc r hold x hx hxa) halive
    rw [hxa, hlocked] at hfree
    cases hfree
  · rw [heq] at hy
    rcases mem_insert_into.mp hy with hy | rfl
    · exact hc r hold y hy hagent (alive_of_alive_after hstep halive)
    · rw [hagent, hlocked] at hfree
      cases hfree

/-! ## The law -/

/-- What the life of a window is promised to be, in a run `tr` that ends in `s`. -/
structure DeadStaysDead (sha256 : String → String) (tr : List (Trans Sys Act)) (s : Sys) :
    Prop where
  /-- Only a registration brings a window back. -/
  revival : ∀ e ∈ tr, ∀ sid, revives sid e → registers sha256 sid e
  /-- From its liveness check to its commit, a recovery has the agent's windows
  closed. -/
  recovery : Closed s ∧ ∀ e ∈ tr, Closed e.pre ∧ Closed e.post

/-- **A dead window stays dead until it is registered**, in every run whose
resumes and renewals all meet an unexpired row. -/
theorem dead_stays_dead {db : Db} (hw : WF db) (clock : ℕ) {tr : List (Trans Sys Act)} {s : Sys}
    (h : Run (Rel (step sha256)) (Sys.start db clock) tr s)
    (hC : ∀ e ∈ tr, meets_unexpired e.pre e.act = true) : DeadStaysDead sha256 tr s := by
  have h₀ : WF (Sys.start db clock).db ∧ Closed (Sys.start db clock) :=
    ⟨hw, fun _ hr => absurd hr (by simp [Sys.start])⟩
  have hkeep : ∀ s a t, WF s.db ∧ Closed s → meets_unexpired s a = true → Rel (step sha256) s a t →
      WF t.db ∧ Closed t :=
    fun _ _ _ hs hm hr => ⟨hs.1.step hr, hs.2.step hs.1 hr hm⟩
  have hpre := h.invariant_pre h₀ hkeep hC
  refine ⟨fun e he sid hrev => ?_, (h.invariant h₀ hkeep hC).2, fun e he => ?_⟩
  · exact registers_of_revives (hpre e he).1 (h.rel e he) (hC e he) hrev
  · exact ⟨(hpre e he).2, (hkeep _ _ _ (hpre e he) (hC e he) (h.rel e he)).2⟩

/-- The run of the fence again: its resume meets a live row. -/
theorem dead_stays_dead_desk :
    DeadStaysDead digest ((exec (step digest) (Sys.start desk 0) desk_acts).get desk_run).1
      ((exec (step digest) (Sys.start desk 0) desk_acts).get desk_run).2 :=
  dead_stays_dead desk_wf 0 (exec_get desk_run) (List.all_eq_true.mp (by decide))

/-! ## A renewal that comes too late -/

/-- The window asks to be renewed a second before it expires, the owner starts a
recovery a second after, and the renewal runs inside it. -/
def late_renewal : List Act :=
  [.tick (secs 86399), .authenticate 1 "acss_first" {} (secs 86399),
    .authenticate 2 "acs_owner" {} (secs 86399), .tick (secs 2),
    .recover 2 (secs 86401), .renew 1 none (secs 86401), .recovered 2]

theorem late_renewal_run : (exec (step digest) (Sys.start desk 0) late_renewal).isSome = true := by decide

/-- The trace of the late renewal. -/
def late_trace : List (Trans Sys Act) :=
  ((exec (step digest) (Sys.start desk 0) late_renewal).get late_renewal_run).1

/-- An expired window comes back by a renewal, while a recovery holds the agent:
both halves of the law fail. -/
theorem late_renewal_revives :
    ∃ s, Run (Rel (step digest)) (Sys.start desk 0) late_trace s ∧
      ¬ (∀ e ∈ late_trace, ∀ sid, revives sid e → registers digest sid e) ∧
      ¬ (∀ e ∈ late_trace, Closed e.pre ∧ Closed e.post) := by
  have hmem : late_trace.get ⟨5, by decide⟩ ∈ late_trace := List.get_mem _ _
  refine ⟨_, exec_get late_renewal_run, fun h => ?_, fun h => ?_⟩
  · have hrev : revives 4 (late_trace.get ⟨5, by decide⟩) := by unfold revives; decide
    have hact : is_register (late_trace.get ⟨5, by decide⟩).act = false := by decide
    exact absurd (h _ hmem 4 hrev).1 (by rw [hact]; simp)
  · have hopen : ¬ Closed (late_trace.get ⟨5, by decide⟩).post := by unfold Closed; decide
    exact hopen (h _ hmem).2

end CrewSync.Revival
