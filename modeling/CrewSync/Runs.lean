/-
Runs of a labelled transition system, kept as **traces**.

A system is a relation `R : σ → α → σ → Prop`: from this state, by this action,
to that state. `Run R s₀ tr s` says that `tr` is a run from `s₀` that ends in
`s`; the trace records every transition with the state before it and the state
after it, so that a statement about a whole run ("each cutover of the run …",
"between these two transitions …") is a statement about the members or the
segments of a list.

Two rules carry almost every proof about a system:

* `Run.invariant`: what the first state has and every step keeps, the last state
  has. A guard `C` may be assumed of the steps, in which case the conclusion is
  about the runs all of whose transitions meet it;
* `Run.split`: a transition of a run cuts it into the run before it and the run
  after it.
-/
import Mathlib.Data.List.Induction

set_option autoImplicit false

namespace CrewSync.Runs

variable {σ α : Type*}

/-- One transition of a run. -/
structure Trans (σ α : Type*) where
  pre : σ
  act : α
  post : σ

/-- `tr` leads from `s₀` to `s`. -/
inductive Run (R : σ → α → σ → Prop) (s₀ : σ) : List (Trans σ α) → σ → Prop
  | nil : Run R s₀ [] s₀
  | snoc {tr : List (Trans σ α)} {s t : σ} {a : α} :
      Run R s₀ tr s → R s a t → Run R s₀ (tr ++ [⟨s, a, t⟩]) t

variable {R : σ → α → σ → Prop} {s₀ s t : σ} {tr : List (Trans σ α)} {I : σ → Prop} {C : σ → α → Prop}
  {step : σ → α → Option σ}

/-! ## The shape of a run -/

/-- Every transition of a run is a step of the system. -/
theorem Run.rel (h : Run R s₀ tr s) : ∀ e ∈ tr, R e.pre e.act e.post := by
  induction h with
  | nil => intro e he; exact absurd he (List.not_mem_nil)
  | snoc _ hr ih =>
    intro e he
    rcases List.mem_append.mp he with he | he
    · exact ih e he
    · rw [List.mem_singleton.mp he]; exact hr

theorem Run.single {a : α} (h : R s a t) : Run R s [⟨s, a, t⟩] t := by
  simpa using Run.snoc (Run.nil : Run R s [] s) h

/-- A run from where another run ended continues it. -/
theorem Run.append {tr' : List (Trans σ α)} (h : Run R s₀ tr s) (h' : Run R s tr' t) :
    Run R s₀ (tr ++ tr') t := by
  induction h' with
  | nil => simpa using h
  | snoc _ hr ih =>
    rw [← List.append_assoc]
    exact Run.snoc ih hr

/-- A run over two traces in a row goes through a state between them. -/
theorem Run.of_append {tr' : List (Trans σ α)} (h : Run R s₀ (tr ++ tr') t) :
    ∃ m, Run R s₀ tr m ∧ Run R m tr' t := by
  induction tr' using List.reverseRecOn generalizing t with
  | nil => exact ⟨t, by simpa using h, Run.nil⟩
  | append_singleton tr' e ih =>
    rw [← List.append_assoc] at h
    generalize htr : tr ++ tr' ++ [e] = full at h
    cases h with
    | nil => simp at htr
    | snoc hrun hr =>
      obtain ⟨h1, h2⟩ := List.append_inj' htr rfl
      subst h1
      obtain ⟨m, hm, hm'⟩ := ih hrun
      rw [List.singleton_inj.mp h2]
      exact ⟨m, hm, Run.snoc hm' hr⟩

/-- A transition of a run cuts it in two. -/
theorem Run.split {tr₁ tr₂ : List (Trans σ α)} {e : Trans σ α} (h : Run R s₀ (tr₁ ++ e :: tr₂) t) :
    Run R s₀ tr₁ e.pre ∧ R e.pre e.act e.post ∧ Run R e.post tr₂ t := by
  have happ : tr₁ ++ e :: tr₂ = (tr₁ ++ [e]) ++ tr₂ := by simp
  rw [happ] at h
  obtain ⟨m, hm, hm'⟩ := h.of_append
  generalize htr : tr₁ ++ [e] = full at hm
  cases hm with
  | nil => simp at htr
  | snoc hrun hr =>
    obtain ⟨h1, h2⟩ := List.append_inj' htr rfl
    subst h1
    rw [List.singleton_inj.mp h2]
    exact ⟨hrun, hr, hm'⟩

/-- Two entries of a list cut it in three. -/
theorem split_two {l : List α} {i j : ℕ} {x y : α} (hij : i < j) (hi : l[i]? = some x)
    (hj : l[j]? = some y) : ∃ l₁ l₂ l₃, l = l₁ ++ x :: (l₂ ++ y :: l₃) := by
  obtain ⟨hlt, rfl⟩ := List.getElem?_eq_some_iff.mp hi
  have hrest : (l.drop (i + 1))[j - i - 1]? = some y := by
    rw [List.getElem?_drop]
    have hidx : i + 1 + (j - i - 1) = j := by omega
    rw [hidx]
    exact hj
  obtain ⟨l₂, l₃, hsplit⟩ := List.append_of_mem (List.mem_of_getElem? hrest)
  refine ⟨l.take i, l₂, l₃, ?_⟩
  rw [← hsplit, List.getElem_cons_drop, List.take_append_drop]

/-- Where the two entries stand, and what stands between them. -/
theorem split_indices {l l₁ l₂ l₃ : List α} {x y : α} (h : l = l₁ ++ x :: (l₂ ++ y :: l₃)) :
    ∃ i j : ℕ, i < j ∧ l[i]? = some x ∧ l[j]? = some y ∧
      ∀ (n : ℕ) (z : α), i < n → n < j → l[n]? = some z → z ∈ l₂ := by
  subst h
  refine ⟨l₁.length, l₁.length + (l₂.length + 1), by omega, by simp, ?_, fun n z hi hj hz => ?_⟩
  · rw [List.getElem?_append_right (by omega), Nat.add_sub_cancel_left, List.getElem?_cons_succ,
      List.getElem?_append_right (Nat.le_refl _), Nat.sub_self]
    rfl
  · obtain ⟨d, rfl⟩ : ∃ d, n = l₁.length + (d + 1) := ⟨n - l₁.length - 1, by omega⟩
    rw [List.getElem?_append_right (by omega), Nat.add_sub_cancel_left, List.getElem?_cons_succ,
      List.getElem?_append_left (by omega)] at hz
    exact List.mem_of_getElem? hz

/-! ## One of several -/

/-- What stands in a list after its entry `i` has become `x`. -/
theorem set_at {l : List α} {i j : ℕ} {x y : α} (h : (l.set i x)[j]? = some y) :
    (i = j ∧ y = x) ∨ (i ≠ j ∧ l[j]? = some y) := by
  rcases eq_or_ne i j with rfl | hne
  · obtain ⟨hlt, hget⟩ := List.getElem?_eq_some_iff.mp h
    rw [List.getElem_set_self] at hget
    exact .inl ⟨rfl, hget.symm⟩
  · rw [List.getElem?_set_ne hne] at h
    exact .inr ⟨hne, h⟩

/-- What stands in it after `x` has come. -/
theorem append_at {l : List α} {j : ℕ} {x y : α} (h : (l ++ [x])[j]? = some y) :
    l[j]? = some y ∨ (j = l.length ∧ y = x) := by
  rw [List.getElem?_append] at h
  by_cases hj : j < l.length
  · rw [if_pos hj] at h
    exact .inl h
  · rw [if_neg hj, List.getElem?_singleton] at h
    by_cases heq : j - l.length = 0
    · rw [if_pos heq] at h
      exact .inr ⟨by omega, (Option.some.inj h).symm⟩
    · rw [if_neg heq] at h
      cases h

/-! ## A store with its history -/

/-- What is committed, and all that was committed before it, the latest first. -/
structure Committed (δ : Type*) where
  db : δ
  past : List δ

namespace Committed

variable {δ : Type*}

/-- What a request saw `n` commits ago. -/
def view (c : Committed δ) (n : ℕ) : Option δ := (c.db :: c.past)[n]?

/-- `d` is committed. -/
abbrev push (c : Committed δ) (d : δ) : Committed δ := ⟨d, c.db :: c.past⟩

theorem mem_of_view {c : Committed δ} {n : ℕ} {v : δ} (h : c.view n = some v) : v = c.db ∨ v ∈ c.past :=
  List.mem_cons.mp (List.mem_of_getElem? h)

end Committed

/-- The outcome of an operation. What it commits is taken over by `after`; one that is
refused rolls back. -/
def conclude {ε β : Type*} (s : σ) (after : β → σ) : Except ε β → σ
  | .error _ => s
  | .ok b => after b

theorem conclude_cases {ε β : Type*} (after : β → σ) (res : Except ε β) :
    conclude s after res = s ∨ ∃ b, res = .ok b ∧ conclude s after res = after b := by
  cases res with
  | error e => exact Or.inl rfl
  | ok b => exact Or.inr ⟨b, rfl, rfl⟩

/-! ## The induction rule -/

/-- **The invariant rule.** What holds at the start and is kept by every step
that meets the guard `C` holds at the end of a run whose transitions meet `C`. -/
theorem Run.invariant (h : Run R s₀ tr s) (h₀ : I s₀)
    (hstep : ∀ s a t, I s → C s a → R s a t → I t) (hC : ∀ e ∈ tr, C e.pre e.act) : I s := by
  induction h with
  | nil => exact h₀
  | snoc _ hr ih =>
    refine hstep _ _ _ (ih fun e he => hC e (List.mem_append_left _ he)) ?_ hr
    exact hC _ (List.mem_append_right _ (List.mem_singleton.mpr rfl))

/-- The invariant rule without a guard. -/
theorem Run.invariant' (h : Run R s₀ tr s) (h₀ : I s₀) (hstep : ∀ s a t, I s → R s a t → I t) : I s :=
  h.invariant (C := fun _ _ => True) h₀ (fun s a t hs _ hr => hstep s a t hs hr)
    fun _ _ => trivial

/-- The state before a transition of a run is itself reached by a run, whose
transitions are transitions of the whole. -/
theorem Run.pre {e : Trans σ α} (h : Run R s₀ tr s) (he : e ∈ tr) :
    ∃ tr₁, Run R s₀ tr₁ e.pre ∧ ∀ x ∈ tr₁, x ∈ tr := by
  obtain ⟨tr₁, tr₂, rfl⟩ := List.append_of_mem he
  exact ⟨tr₁, h.split.1, fun x hx => List.mem_append_left _ hx⟩

/-- The invariant holds before every transition of a guarded run. -/
theorem Run.invariant_pre (h : Run R s₀ tr s) (h₀ : I s₀)
    (hstep : ∀ s a t, I s → C s a → R s a t → I t) (hC : ∀ e ∈ tr, C e.pre e.act) : ∀ e ∈ tr, I e.pre := by
  intro e he
  obtain ⟨tr₁, hrun, hsub⟩ := h.pre he
  exact hrun.invariant h₀ hstep fun x hx => hC x (hsub x hx)

/-- And after every transition. -/
theorem Run.invariant_post (h : Run R s₀ tr s) (h₀ : I s₀)
    (hstep : ∀ s a t, I s → C s a → R s a t → I t) (hC : ∀ e ∈ tr, C e.pre e.act) : ∀ e ∈ tr, I e.post :=
  fun e he => hstep _ _ _ (h.invariant_pre h₀ hstep hC e he) (hC e he) (h.rel e he)

/-- Where a step keeps `I` exactly when it meets `C`, a run keeps `I` throughout exactly
when all of it meets `C`. `B` is what every step keeps. -/
theorem Run.invariant_iff {B : σ → Prop} (h : Run R s₀ tr s) (hb : B s₀) (h₀ : I s₀)
    (hbase : ∀ s a t, B s → R s a t → B t) (hstep : ∀ s a t, B s → I s → R s a t → (C s a ↔ I t)) :
    (∀ e ∈ tr, C e.pre e.act) ↔ ∀ e ∈ tr, I e.post := by
  constructor
  · intro hC
    have hpost := h.invariant_post (I := fun s => B s ∧ I s) ⟨hb, h₀⟩
      (fun s a t hs hc hr => ⟨hbase s a t hs.1 hr, (hstep s a t hs.1 hs.2 hr).mp hc⟩) hC
    exact fun e he => (hpost e he).2
  · -- along the run, together with the state reached
    suffices (∀ e ∈ tr, I e.post) → (∀ e ∈ tr, C e.pre e.act) ∧ B s ∧ I s from fun hI => (this hI).1
    induction h with
    | nil => exact fun _ => ⟨fun e he => absurd he List.not_mem_nil, hb, h₀⟩
    | @snoc tr s t a hrun hr ih =>
      intro hI
      obtain ⟨hC, hs, hIs⟩ := ih fun e he => hI e (List.mem_append_left _ he)
      have hIt : I t := hI _ (List.mem_append_right _ (List.mem_singleton.mpr rfl))
      refine ⟨fun e he => ?_, hbase s a t hs hr, hIt⟩
      rcases List.mem_append.mp he with he | he
      · exact hC e he
      · rw [List.mem_singleton.mp he]
        exact (hstep s a t hs hIs hr).mpr hIt

/-- Where `K` holds of a step exactly when the step meets `C`, it holds of all the steps of a
run exactly when they all do. `B` is what the steps that meet `C` keep. -/
theorem Run.forall_iff {B : σ → Prop} {K : Trans σ α → Prop} (h : Run R s₀ tr s)
    (h₀ : B s₀) (hbase : ∀ s a t, B s → C s a → R s a t → B t)
    (hstep : ∀ s a t, B s → R s a t → (C s a ↔ K ⟨s, a, t⟩)) : (∀ e ∈ tr, C e.pre e.act) ↔ ∀ e ∈ tr, K e := by
  -- whichever of the two holds so far, `B` holds where the run has come to
  suffices ((∀ e ∈ tr, C e.pre e.act) ↔ ∀ e ∈ tr, K e) ∧ ((∀ e ∈ tr, C e.pre e.act) → B s) from this.1
  induction h with
  | nil => exact ⟨⟨fun _ e he => absurd he List.not_mem_nil, fun _ e he => absurd he List.not_mem_nil⟩,
      fun _ => h₀⟩
  | @snoc tr s t a _ hr ih =>
    obtain ⟨hiff, hb⟩ := ih
    have hsplit : ∀ P : Trans σ α → Prop, (∀ e ∈ tr ++ [⟨s, a, t⟩], P e) ↔ (∀ e ∈ tr, P e) ∧ P ⟨s, a, t⟩ := by
      intro P
      rw [List.forall_mem_append, List.forall_mem_singleton]
    rw [hsplit fun e => C e.pre e.act, hsplit K]
    refine ⟨⟨fun hC => ?_, fun hK => ?_⟩, fun hC => hbase s a t (hb hC.1) hC.2 hr⟩
    · exact ⟨hiff.mp hC.1, (hstep s a t (hb hC.1) hr).mp hC.2⟩
    · have hC := hiff.mpr hK.1
      exact ⟨hC, (hstep s a t (hb hC) hr).mpr hK.2⟩

/-! ## Systems given by a function -/

/-- The relation of a system that is a partial function of state and action. -/
def Rel (step : σ → α → Option σ) (s : σ) (a : α) (t : σ) : Prop := step s a = some t

/-- Perform a list of actions in order. -/
def exec (step : σ → α → Option σ) : σ → List α → Option (List (Trans σ α) × σ)
  | s, [] => some ([], s)
  | s, a :: as =>
    match step s a with
    | none => none
    | some t => (exec step t as).map fun p => (⟨s, a, t⟩ :: p.1, p.2)

/-- What `exec` performs is a run. -/
theorem exec_run {as : List α} :
    ∀ {s : σ} {tr : List (Trans σ α)} {t : σ}, exec step s as = some (tr, t) →
      Run (Rel step) s tr t := by
  induction as with
  | nil =>
    intro s tr t h
    simp only [exec, Option.some.injEq, Prod.mk.injEq] at h
    obtain ⟨rfl, rfl⟩ := h
    exact Run.nil
  | cons a as ih =>
    intro s tr t h
    simp only [exec] at h
    cases hu : step s a with
    | none => rw [hu] at h; exact nomatch h
    | some u =>
      rw [hu] at h
      obtain ⟨⟨tr', v⟩, hv, hp⟩ := Option.map_eq_some_iff.mp h
      obtain ⟨rfl, rfl⟩ := Prod.mk.inj hp
      exact (Run.single hu).append (ih hv)

/-- Actions that can all be performed make a run. -/
theorem exec_get {step : σ → α → Option σ} {s : σ} {as : List α} (h : (exec step s as).isSome = true) :
    Run (Rel step) s ((exec step s as).get h).1 ((exec step s as).get h).2 :=
  exec_run (Option.some_get h).symm

theorem acts_of_exec {as : List α} :
    ∀ {s : σ} {tr : List (Trans σ α)} {t : σ}, exec step s as = some (tr, t) → tr.map Trans.act = as := by
  induction as with
  | nil =>
    intro s tr t h
    simp only [exec, Option.some.injEq, Prod.mk.injEq] at h
    rw [← h.1, List.map_nil]
  | cons a as ih =>
    intro s tr t h
    simp only [exec] at h
    cases hu : step s a with
    | none => rw [hu] at h; exact nomatch h
    | some u =>
      rw [hu] at h
      obtain ⟨⟨tr', v⟩, hv, hp⟩ := Option.map_eq_some_iff.mp h
      obtain ⟨rfl, rfl⟩ := Prod.mk.inj hp
      rw [List.map_cons, ih hv]

/-- The run performs these actions, and no others. -/
theorem exec_acts {as : List α} (h : (exec step s as).isSome = true) : ((exec step s as).get h).1.map Trans.act = as :=
  acts_of_exec (Option.some_get h).symm

theorem exec_length {as : List α} (h : (exec step s as).isSome = true) :
    ((exec step s as).get h).1.length = as.length := by
  rw [← List.length_map (f := Trans.act), exec_acts]

end CrewSync.Runs
