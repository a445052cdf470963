/-
A register that keeps the newest observation, and forgets when it is cleared.

Observations arrive in any order, each with the time it was made. A value replaces
what is kept unless what is kept is newer; a clear does the same, and leaves nothing
behind: not the time either. That last part is what this file is about. Against a
value that is kept an older one arriving late is recognised; against a clear it is
not, because there is nothing left to compare it with.

What the register holds in the end is the newest of the values that **stand**, those
with no newer clear arriving after them (`held_spec`). It is therefore what the newest
observation says exactly if that is a value, or no value stands (`newest_wins_iff`).
-/
import Mathlib.Order.Lattice
import Mathlib.Data.List.Induction
import Mathlib.Data.List.Nodup

set_option autoImplicit false
set_option linter.unusedSectionVars false

namespace CrewSync.Registers

variable {α τ : Type*} [LinearOrder τ]

/-- A value, or `none` for a clear, and when it was observed. -/
structure Report (α τ : Type*) where
  value : Option α
  observed : τ
deriving DecidableEq

/-- What a report leaves in a register that takes it. -/
def Report.stored (r : Report α τ) : Option (α × τ) := r.value.map fun v => (v, r.observed)

theorem Report.stored_clear {r : Report α τ} (h : r.value = none) : r.stored = none := by
  unfold Report.stored
  rw [h]
  rfl

theorem Report.stored_value {r : Report α τ} {v : α} (h : r.value = some v) :
    r.stored = some (v, r.observed) := by
  unfold Report.stored
  rw [h]
  rfl

/-- One report arrives: what is kept stays if it is newer. -/
def keep (kept : Option (α × τ)) (r : Report α τ) : Option (α × τ) :=
  match kept with
  | some (v, at_) => if r.observed < at_ then some (v, at_) else r.stored
  | none => r.stored

/-- What is kept after the reports of `rs`, in the order of their arrival. -/
def held (rs : List (Report α τ)) : Option (α × τ) := rs.foldl keep none

theorem held_snoc (rs : List (Report α τ)) (x : Report α τ) : held (rs ++ [x]) = keep (held rs) x := by
  unfold held
  rw [List.foldl_append]
  rfl

/-- No report of `rs` was observed later than `r`. -/
def IsNewest (r : Report α τ) (rs : List (Report α τ)) : Prop :=
  r ∈ rs ∧ ∀ x ∈ rs, x.observed ≤ r.observed

/-- A value stands if no clear that arrives after it was observed later. -/
def Stands (r : Report α τ) (rs : List (Report α τ)) : Prop :=
  r.value ≠ none ∧ ∃ before after, rs = before ++ r :: after ∧
    ∀ c ∈ after, c.value = none → ¬ r.observed < c.observed

/-- Reports observed at distinct times. -/
def Distinct (rs : List (Report α τ)) : Prop := (rs.map Report.observed).Nodup

section Standing

variable {r x : Report α τ} {rs : List (Report α τ)}

theorem Stands.mem (h : Stands r rs) : r ∈ rs := by
  rcases h with ⟨-, before, after, rfl, -⟩
  exact List.mem_append_right _ List.mem_cons_self

theorem not_stands_nil : ¬ Stands r [] := fun h => absurd h.mem List.not_mem_nil

/-- A report that arrives stands if it is a value; the others stand as before, unless
it is a clear newer than they are. -/
theorem stands_snoc :
    Stands r (rs ++ [x]) ↔
      (Stands r rs ∧ (x.value = none → ¬ r.observed < x.observed)) ∨ (r = x ∧ x.value ≠ none) := by
  constructor
  · rintro ⟨hv, before, after, heq, hnone⟩
    by_cases hlast : after = []
    · -- The value is the report that arrived.
      subst hlast
      have hx := (List.append_inj' heq rfl).2
      have hrx : r = x := (List.cons.inj hx).1.symm
      right
      exact ⟨hrx, hrx ▸ hv⟩
    · left
      have hsplit : after = after.dropLast ++ [after.getLast hlast] :=
        (List.dropLast_concat_getLast hlast).symm
      rw [hsplit, ← List.cons_append, ← List.append_assoc] at heq
      have hinj := List.append_inj' heq rfl
      have hx : x = after.getLast hlast := (List.cons.inj hinj.2).1
      refine ⟨⟨hv, before, after.dropLast, hinj.1, fun c hc => ?_⟩, fun hclear => ?_⟩
      · exact hnone c (List.dropLast_subset after hc)
      · rw [hx] at hclear ⊢
        exact hnone _ (List.getLast_mem hlast) hclear
  · rintro (⟨⟨hv, before, after, rfl, hnone⟩, hx⟩ | ⟨rfl, hv⟩)
    · refine ⟨hv, before, after ++ [x], by simp, fun c hc => ?_⟩
      rcases List.mem_append.mp hc with hc | hc
      · exact hnone c hc
      · rw [List.mem_singleton.mp hc]
        exact hx
    · exact ⟨hv, rs, [], rfl, fun c hc => absurd hc List.not_mem_nil⟩

theorem Distinct.init (h : Distinct (rs ++ [x])) : Distinct rs := by
  unfold Distinct at h
  rw [List.map_append] at h
  exact (List.nodup_append.mp h).1

theorem Distinct.last (h : Distinct (rs ++ [x])) (hr : r ∈ rs) : r.observed ≠ x.observed := by
  unfold Distinct at h
  rw [List.map_append, List.nodup_append] at h
  apply h.2.2 r.observed (List.mem_map_of_mem hr)
  simp

theorem Distinct.eq (h : Distinct rs) (hr : r ∈ rs) (hx : x ∈ rs) (heq : r.observed = x.observed) :
    r = x := List.inj_on_of_nodup_map h hr hx heq

/-- What the register holds, of the reports that arrived. -/
def Holds (rs : List (Report α τ)) : Option (α × τ) → Prop
  | none => ∀ r, ¬ Stands r rs
  | some (v, at_) => Stands ⟨some v, at_⟩ rs ∧ ∀ r, Stands r rs → r.observed ≤ at_

/-- **The register holds the newest value that stands.** The induction is on the
arrivals: a value joins those that stand, a clear takes away the older ones, and if it
takes the newest it takes them all. -/
theorem held_spec (h : Distinct rs) : Holds rs (held rs) := by
  induction rs using List.reverseRecOn with
  | nil => exact fun r => not_stands_nil
  | append_singleton rs x ih =>
    have hrs := ih h.init
    rw [held_snoc]
    generalize held rs = kept at hrs
    rcases kept with _ | ⟨v, at_⟩
    · -- Nothing stands yet.
      have hnone : ∀ r, ¬ Stands r rs := hrs
      rcases hx : x.value with _ | w
      · have hkeep : keep none x = (none : Option (α × τ)) := x.stored_clear hx
        rw [hkeep]
        intro r hr
        rcases stands_snoc.mp hr with ⟨hold, -⟩ | ⟨-, hv⟩
        · exact hnone r hold
        · exact hv hx
      · have hkeep : keep none x = some (w, x.observed) := x.stored_value hx
        rw [hkeep]
        refine ⟨stands_snoc.mpr (Or.inr ⟨?_, by simp [hx]⟩), fun r hr => ?_⟩
        · rw [← hx]
        · rcases stands_snoc.mp hr with ⟨hold, -⟩ | ⟨rfl, -⟩
          · exact absurd hold (hnone r)
          · exact le_refl _
    · rcases hrs with ⟨hstands, hmax⟩
      have hne : at_ ≠ x.observed := h.last hstands.mem
      by_cases hlate : x.observed < at_
      · -- History: what is kept stays, and nothing newer stands.
        have hkeep : keep (some (v, at_)) x = some (v, at_) := by
          unfold keep
          exact if_pos hlate
        rw [hkeep]
        refine ⟨stands_snoc.mpr (Or.inl ⟨hstands, fun _ => not_lt.mpr (le_of_lt hlate)⟩), fun r hr => ?_⟩
        rcases stands_snoc.mp hr with ⟨hold, -⟩ | ⟨rfl, -⟩
        · exact hmax r hold
        · exact le_of_lt hlate
      · have hnews : at_ < x.observed := lt_of_le_of_ne (not_lt.mp hlate) hne
        have hkeep : keep (some (v, at_)) x = x.stored := by
          unfold keep
          exact if_neg hlate
        rw [hkeep]
        rcases hx : x.value with _ | w
        · rw [x.stored_clear hx]
          intro r hr
          rcases stands_snoc.mp hr with ⟨hold, hnot⟩ | ⟨-, hv⟩
          · exact hnot hx (lt_of_le_of_lt (hmax r hold) hnews)
          · exact hv hx
        · rw [x.stored_value hx]
          refine ⟨stands_snoc.mpr (Or.inr ⟨?_, by simp [hx]⟩), fun r hr => ?_⟩
          · rw [← hx]
          · rcases stands_snoc.mp hr with ⟨hold, -⟩ | ⟨rfl, -⟩
            · exact le_trans (hmax r hold) (le_of_lt hnews)
            · exact le_refl _

/-- The newest value stands: no clear was observed after it. -/
theorem IsNewest.stands (h : IsNewest r rs) (hv : r.value ≠ none) : Stands r rs := by
  obtain ⟨before, after, heq⟩ := List.append_of_mem h.1
  refine ⟨hv, before, after, heq, fun c hc _ => not_lt.mpr (h.2 c ?_)⟩
  rw [heq]
  exact List.mem_append_right _ (List.mem_cons_of_mem _ hc)

/-- One of finitely many reports is the newest. -/
theorem exists_newest (h : rs ≠ []) : ∃ r, IsNewest r rs := by
  induction rs using List.reverseRecOn with
  | nil => exact absurd rfl h
  | append_singleton rs x ih =>
    by_cases hrs : rs = []
    · subst hrs
      refine ⟨x, List.mem_singleton.mpr rfl, fun y hy => ?_⟩
      rw [List.mem_singleton.mp hy]
    · rcases ih hrs with ⟨r, hmem, hmax⟩
      by_cases hx : r.observed ≤ x.observed
      · refine ⟨x, List.mem_append_right _ (List.mem_singleton.mpr rfl), fun y hy => ?_⟩
        rcases List.mem_append.mp hy with hy | hy
        · exact le_trans (hmax y hy) hx
        · rw [List.mem_singleton.mp hy]
      · refine ⟨r, List.mem_append_left _ hmem, fun y hy => ?_⟩
        rcases List.mem_append.mp hy with hy | hy
        · exact hmax y hy
        · rw [List.mem_singleton.mp hy]
          exact le_of_lt (not_le.mp hx)

/-- What is kept is what the newest report says. -/
def NewestWins (rs : List (Report α τ)) (kept : Option (α × τ)) : Prop :=
  ∀ r, IsNewest r rs → kept = r.stored

/-- **When the newest observation wins**: it is a value, or no value stands. -/
theorem newest_wins_iff (h : Distinct rs) :
    NewestWins rs (held rs) ↔ (∃ r, IsNewest r rs ∧ r.value ≠ none) ∨ ∀ r, ¬ Stands r rs := by
  have hspec := held_spec h
  constructor
  · intro hwins
    by_cases hrs : rs = []
    · right
      subst hrs
      exact fun r => not_stands_nil
    · rcases exists_newest hrs with ⟨r, hr⟩
      by_cases hv : r.value = none
      · right
        have hcleared : held rs = none := by
          rw [hwins r hr]
          exact r.stored_clear hv
        rw [hcleared] at hspec
        exact hspec
      · exact Or.inl ⟨r, hr, hv⟩
  · rintro (⟨r, hr, hv⟩ | hnone) x hx
    · -- The newest value stands, so nothing newer than it can be held.
      have hxr : x = r := h.eq hx.1 hr.1 (le_antisymm (hr.2 x hx.1) (hx.2 r hr.1))
      subst hxr
      generalize held rs = kept at hspec
      rcases kept with _ | ⟨v, at_⟩
      · exact absurd (hr.stands hv) (hspec x)
      · have hle : x.observed ≤ at_ := hspec.2 x (hr.stands hv)
        have heq : x = ⟨some v, at_⟩ :=
          h.eq hr.1 hspec.1.mem (le_antisymm hle (hr.2 _ hspec.1.mem))
        rw [heq]
        rfl
    · have hempty : held rs = none := by
        generalize held rs = kept at hspec
        rcases kept with _ | ⟨v, at_⟩
        · rfl
        · exact absurd hspec.1 (hnone _)
      by_cases hv : x.value = none
      · rw [hempty]
        exact (x.stored_clear hv).symm
      · exact absurd (hx.stands hv) (hnone x)

end Standing

end CrewSync.Registers
