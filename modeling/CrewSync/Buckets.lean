/-
Token buckets over an ordered field.

A bucket holds at most `burst` tokens and is refilled at a constant rate. What is in
it is a function of time (`Fills`): never negative, never above `burst`, and between
two moments it grows along a straight line until it is full. Two facts follow from
the shape alone and carry everything else: over an interval the contents grow by at
most rate times length (`Fills.growth`), and a bucket left alone for long enough is
full, so that nobody can tell it from one never touched (`level_full`).

A **meter** is whatever keeps such a function for every key. What one check may do to
the functions is `Charged`: an admitted check takes one token from its own key and
nothing else changes. From that the number of checks admitted in any interval is
bounded (`Metered.count_le`), and whoever is refused and leaves its bucket alone
(`Metered.kept`) for as long as the missing part of a token takes finds a whole one
(`Fills.waited`). How a
meter stores the functions, and when it refuses, is not part of this.

The ideal meter is the one that stores a bucket for every key it was ever asked about.
-/
import Mathlib.Algebra.Order.Field.Basic
import Mathlib.Tactic.Linarith
import Mathlib.Tactic.Ring
import Mathlib.Tactic.Positivity
import Mathlib.Algebra.Order.Ring.Rat

set_option autoImplicit false
set_option linter.unusedSectionVars false

namespace CrewSync.Buckets

variable {F κ : Type*} [Field F] [LinearOrder F] [IsStrictOrderedRing F]

/-- How much a bucket holds, and how fast it is refilled. -/
structure Rate (F : Type*) [Field F] [LinearOrder F] where
  burst : F
  refill : F
  one_le_burst : 1 ≤ burst
  refill_pos : 0 < refill

/-- What was in a bucket the last time somebody looked. -/
structure Bucket (F : Type*) where
  tokens : F
  last : F
deriving DecidableEq

/-- What is in the bucket at the moment `t`. -/
def level (r : Rate F) (b : Bucket F) (t : F) : F := min (b.tokens + (t - b.last) * r.refill) r.burst

/-! ## Filling up -/

/-- From `t₀` on, `f` is what is in a bucket that nobody takes from. -/
structure Fills (r : Rate F) (t₀ : F) (f : F → F) : Prop where
  nonneg : ∀ t, t₀ ≤ t → 0 ≤ f t
  le_burst : ∀ t, t₀ ≤ t → f t ≤ r.burst
  later : ∀ t t', t₀ ≤ t → t ≤ t' → f t' = min (f t + (t' - t) * r.refill) r.burst

section Filling

variable {r : Rate F} {t₀ t t' : F} {f : F → F} {b : Bucket F}

theorem Rate.burst_nonneg (r : Rate F) : 0 ≤ r.burst := le_trans zero_le_one r.one_le_burst

/-- Time only adds tokens. -/
theorem Rate.gain_nonneg (r : Rate F) (h : t ≤ t') : 0 ≤ (t' - t) * r.refill :=
  mul_nonneg (by linarith) (le_of_lt r.refill_pos)

theorem Fills.mono (h : Fills r t₀ f) (ht : t₀ ≤ t) : Fills r t f where
  nonneg s hs := h.nonneg s (le_trans ht hs)
  le_burst s hs := h.le_burst s (le_trans ht hs)
  later s s' hs hs' := h.later s s' (le_trans ht hs) hs'

theorem Fills.congr (h : Fills r t₀ f) {g : F → F} (heq : ∀ t, t₀ ≤ t → g t = f t) : Fills r t₀ g := by
  refine ⟨fun t ht => ?_, fun t ht => ?_, fun t t' ht hle => ?_⟩
  · rw [heq t ht]
    exact h.nonneg t ht
  · rw [heq t ht]
    exact h.le_burst t ht
  · rw [heq t' (le_trans ht hle), heq t ht]
    exact h.later t t' ht hle

/-- Between two moments a bucket gains at most rate times length. -/
theorem Fills.growth (h : Fills r t₀ f) (ht : t₀ ≤ t) (hle : t ≤ t') :
    f t' ≤ f t + (t' - t) * r.refill := by
  rw [h.later t t' ht hle]
  exact min_le_left _ _

/-- A bucket that nobody ever took from. -/
theorem Fills.full (r : Rate F) (t₀ : F) : Fills r t₀ fun _ => r.burst where
  nonneg _ _ := r.burst_nonneg
  le_burst _ _ := le_refl _
  later t t' _ hle := by
    have hgain := r.gain_nonneg hle
    rw [min_eq_right (by linarith)]

/-- Refilling in two steps is refilling in one. -/
theorem refill_twice (r : Rate F) (x : F) {a b : F} (hb : 0 ≤ b) :
    min (min (x + a) r.burst + b) r.burst = min (x + a + b) r.burst := by
  by_cases h : x + a ≤ r.burst
  · rw [min_eq_left h]
  · -- Full already: what comes in later runs over.
    have hover : r.burst ≤ x + a := le_of_lt (not_le.mp h)
    rw [min_eq_right hover, min_eq_right (by linarith), min_eq_right (by linarith)]

/-- The contents of a stored bucket fill up, from when they were stored. -/
theorem fills_level (r : Rate F) (h0 : 0 ≤ b.tokens) :
    Fills r b.last (level r b) where
  nonneg t ht := by
    have hgain := r.gain_nonneg ht
    exact le_min (by linarith) r.burst_nonneg
  le_burst _ _ := min_le_right _ _
  later t t' _ hle := by
    unfold level
    rw [refill_twice r b.tokens (r.gain_nonneg hle)]
    ring_nf

/-- Left alone for as long as an empty bucket takes to fill, a bucket is full. -/
theorem level_full (r : Rate F) (h0 : 0 ≤ b.tokens)
    (hidle : r.burst ≤ (t - b.last) * r.refill) : level r b t = r.burst := by
  unfold level
  exact min_eq_right (by linarith)

/-- Storing what is in a bucket now changes nothing that is seen later. -/
theorem level_stored (r : Rate F) (h : Fills r t₀ f) (ht : t₀ ≤ t) (hle : t ≤ t') :
    level r ⟨f t, t⟩ t' = f t' := (h.later t t' ht hle).symm

/-- Waiting for the missing part of a token brings a whole one. -/
theorem Fills.waited (h : Fills r t₀ f) (ht : t₀ ≤ t) (hle : t ≤ t')
    (hwait : (1 - f t) / r.refill ≤ t' - t) : 1 ≤ f t' := by
  rw [h.later t t' ht hle]
  have hmissing : 1 - f t ≤ (t' - t) * r.refill := (div_le_iff₀ r.refill_pos).mp hwait
  exact le_min (by linarith) r.one_le_burst

end Filling

/-! ## What a check does -/

/-- Whose bucket, when, and whether it was let through. -/
structure Entry (κ F : Type*) where
  key : κ
  now : F
  admitted : Bool

/-- One check: an admitted one takes a token of its own key, and nothing else is
different afterwards. -/
structure Charged (r : Rate F) (lvl lvl' : κ → F → F) (e : Entry κ F) : Prop where
  enough : e.admitted = true → 1 ≤ lvl e.key e.now
  spent : e.admitted = true → ∀ t, e.now ≤ t → lvl' e.key t = level r ⟨lvl e.key e.now - 1, e.now⟩ t
  refused : e.admitted = false → ∀ t, e.now ≤ t → lvl' e.key t = lvl e.key t
  others : ∀ k, k ≠ e.key → ∀ t, e.now ≤ t → lvl' k t = lvl k t

/-- The checks of `log`, one after the other, lead from `lvl` to the last one. -/
inductive Metered (r : Rate F) : (κ → F → F) → List (Entry κ F) → (κ → F → F) → Prop
  | nil {lvl : κ → F → F} : Metered r lvl [] lvl
  | cons {lvl lvl' fin : κ → F → F} {e : Entry κ F} {log : List (Entry κ F)} :
      Charged r lvl lvl' e → Metered r lvl' log fin → Metered r lvl (e :: log) fin

/-- No check is older than the one before it. -/
def Timely (t₀ : F) (log : List (Entry κ F)) : Prop :=
  (∀ e ∈ log, t₀ ≤ e.now) ∧ log.Pairwise fun e e' => e.now ≤ e'.now

section Metering

variable {r : Rate F} {lvl lvl' fin : κ → F → F} {e : Entry κ F} {log : List (Entry κ F)} {t₀ : F} {k : κ} {t t' : F}

theorem Timely.tail (h : Timely t₀ (e :: log)) : Timely e.now log :=
  ⟨(List.pairwise_cons.mp h.2).1, (List.pairwise_cons.mp h.2).2⟩

theorem Timely.head (h : Timely t₀ (e :: log)) : t₀ ≤ e.now := h.1 e List.mem_cons_self

/-- Every key's contents fill up after the check as before it. -/
theorem Charged.fills (h : Charged r lvl lvl' e) (hf : ∀ k, Fills r t₀ (lvl k)) (ht : t₀ ≤ e.now)
    (k : κ) : Fills r e.now (lvl' k) := by
  by_cases hk : k = e.key
  · subst hk
    by_cases ha : e.admitted = true
    · have h0 : 0 ≤ lvl e.key e.now - 1 := by
        have := h.enough ha
        linarith
      exact (fills_level r (b := ⟨lvl e.key e.now - 1, e.now⟩) h0).congr (h.spent ha)
    · exact ((hf e.key).mono ht).congr (h.refused (by simpa using ha))
  · exact ((hf k).mono ht).congr (h.others k hk)

/-- One answer moves equal contents the same way, whoever stores them. -/
theorem Charged.agree (h : Charged r lvl lvl' e) {own own' : κ → F → F} (h' : Charged r own own' e)
    (heq : ∀ k t, e.now ≤ t → lvl k t = own k t) (ht : e.now ≤ t) : lvl' k t = own' k t := by
  by_cases hk : k = e.key
  · subst hk
    by_cases ha : e.admitted = true
    · rw [h.spent ha t ht, h'.spent ha t ht, heq e.key e.now (le_refl _)]
    · have hno : e.admitted = false := by simpa using ha
      rw [h.refused hno t ht, h'.refused hno t ht, heq e.key t ht]
  · rw [h.others k hk t ht, h'.others k hk t ht, heq k t ht]

/-- A key that is not asked about keeps what it has. -/
theorem Charged.kept (h : Charged r lvl lvl' e) (hk : k ≠ e.key ∨ e.admitted = false) :
    ∀ t, e.now ≤ t → lvl' k t = lvl k t := by
  by_cases heq : k = e.key
  · subst heq
    apply h.refused
    exact hk.resolve_left (fun hne => hne rfl)
  · exact h.others k heq

/-- A key that nobody asks about keeps what it has. -/
theorem Metered.kept (h : Metered r lvl log fin) (hk : ∀ e ∈ log, k ≠ e.key)
    (ht : ∀ e ∈ log, e.now ≤ t) : fin k t = lvl k t := by
  induction h with
  | nil => rfl
  | @cons lvl lvl' fin e log hc _ ih =>
    have hrest := ih (fun x hx => hk x (List.mem_cons_of_mem _ hx))
      (fun x hx => ht x (List.mem_cons_of_mem _ hx))
    rw [hrest]
    exact hc.kept (Or.inl (hk e List.mem_cons_self)) t (ht e List.mem_cons_self)

variable [DecidableEq κ]

/-- The checks of `k` that were let through no later than `t'`. -/
def passed (k : κ) (t' : F) (log : List (Entry κ F)) : List (Entry κ F) :=
  log.filter fun e => decide (e.key = k) && decide (e.now ≤ t') && e.admitted

theorem passed_late (h : ∀ e ∈ log, ¬ e.now ≤ t') : passed k t' log = [] := by
  unfold passed
  rw [List.filter_eq_nil_iff]
  intro e he hp
  simp only [Bool.and_eq_true, decide_eq_true_eq] at hp
  exact h e he hp.1.2

/-- After a check that is too late to count, nothing counts. -/
theorem Timely.late (h : Timely t₀ (e :: log)) (hlate : ¬ e.now ≤ t') : ∀ x ∈ e :: log, ¬ x.now ≤ t' := by
  intro x hx hle
  rcases List.mem_cons.mp hx with rfl | hx
  · exact hlate hle
  · exact hlate (le_trans (h.tail.1 x hx) hle)

/-- What is let through by `t'` was in the bucket, or came in until then. -/
theorem Metered.spent_le (h : Metered r lvl log fin) (hf : ∀ k, Fills r t₀ (lvl k))
    (htime : Timely t₀ log) (k : κ) (hle : t₀ ≤ t') :
    ((passed k t' log).length : F) ≤ lvl k t₀ + (t' - t₀) * r.refill := by
  induction h generalizing t₀ with
  | nil =>
    have hgain := r.gain_nonneg hle
    have h0 := (hf k).nonneg t₀ (le_refl _)
    show ((0 : ℕ) : F) ≤ _
    rw [Nat.cast_zero]
    linarith
  | @cons lvl lvl' fin e log hc _ ih =>
    have hhead := htime.head
    by_cases hlate : e.now ≤ t'
    · have hrest := ih (hc.fills hf hhead) htime.tail hlate
      have hgrow := (hf k).growth (le_refl _) hhead
      have hsum : (e.now - t₀) * r.refill + (t' - e.now) * r.refill = (t' - t₀) * r.refill := by ring
      by_cases hmine : e.key = k ∧ e.admitted = true
      · -- This check counts, and the token it took is gone.
        rcases hmine with ⟨rfl, ha⟩
        have hstep : passed e.key t' (e :: log) = e :: passed e.key t' log := by
          unfold passed
          rw [List.filter_cons_of_pos (by simp [hlate, ha])]
        have htook : lvl' e.key e.now ≤ lvl e.key e.now - 1 := by
          rw [hc.spent ha e.now (le_refl _)]
          refine le_trans (min_le_left _ _) ?_
          simp
        rw [hstep, List.length_cons, Nat.cast_add, Nat.cast_one]
        linarith
      · have hstep : passed k t' (e :: log) = passed k t' log := by
          unfold passed
          rw [List.filter_cons_of_neg]
          rintro hp
          simp only [Bool.and_eq_true, decide_eq_true_eq] at hp
          exact hmine ⟨hp.1.1, hp.2⟩
        have hkept : lvl' k e.now = lvl k e.now := by
          apply hc.kept _ e.now (le_refl _)
          by_cases hk : k = e.key
          · right
            by_contra ha
            exact hmine ⟨hk.symm, by simpa using ha⟩
          · exact Or.inl hk
        rw [hstep]
        linarith
    · -- The check is too late to count, and so is all that follows.
      have hgain := r.gain_nonneg hle
      have h0 := (hf k).nonneg t₀ (le_refl _)
      rw [passed_late (htime.late hlate), List.length_nil, Nat.cast_zero]
      linarith

/-- **The bucket's promise**: between two moments no key is let through more often
than its bucket holds and gains in between. -/
theorem Metered.count_le (h : Metered r lvl log fin) (hf : ∀ k, Fills r t₀ (lvl k))
    (htime : Timely t₀ log) (k : κ) {a b : F} (hab : a ≤ b) :
    (((passed k b log).filter fun e => decide (a ≤ e.now)).length : F)
      ≤ r.burst + (b - a) * r.refill := by
  induction h generalizing t₀ with
  | nil =>
    have hgain := r.gain_nonneg hab
    have h0 := r.burst_nonneg
    show ((0 : ℕ) : F) ≤ _
    rw [Nat.cast_zero]
    linarith
  | @cons lvl lvl' fin e log hc hm ih =>
    by_cases hin : a ≤ e.now
    · by_cases hb : e.now ≤ b
      · -- From here on everything counts, and the bucket holds at most `burst`.
        have hall := (Metered.cons hc hm).spent_le (fun j => (hf j).mono htime.head)
          ⟨fun x hx => (List.mem_cons.mp hx).elim (fun hxe => hxe ▸ le_refl _) (htime.tail.1 x), htime.2⟩
          k hb
        have hburst := (hf k).le_burst e.now htime.head
        have hshort : (b - e.now) * r.refill ≤ (b - a) * r.refill :=
          mul_le_mul_of_nonneg_right (by linarith) (le_of_lt r.refill_pos)
        have hfewer : ((((passed k b (e :: log)).filter fun x => decide (a ≤ x.now)).length : ℕ) : F)
            ≤ ((passed k b (e :: log)).length : F) :=
          Nat.cast_le.mpr List.filter_sublist.length_le
        linarith
      · have hgain := r.gain_nonneg hab
        have h0 := r.burst_nonneg
        rw [passed_late (htime.late hb), List.filter_nil, List.length_nil, Nat.cast_zero]
        linarith
    · -- The check is before the interval.
      have hstep : ((passed k b (e :: log)).filter fun x => decide (a ≤ x.now))
          = (passed k b log).filter fun x => decide (a ≤ x.now) := by
        unfold passed
        rw [List.filter_filter, List.filter_filter, List.filter_cons_of_neg (by simp [hin])]
      rw [hstep]
      exact ih (hc.fills hf htime.head) htime.tail

end Metering

/-! ## The ideal meter -/

/-- A bucket for every key that was ever asked about, none of them ever dropped. -/
def Ideal (κ F : Type*) := κ → Option (Bucket F)

namespace Ideal

/-- What `k` has: a key never asked about has a full bucket. -/
def level (r : Rate F) (m : Ideal κ F) (k : κ) (t : F) : F :=
  match m k with
  | none => r.burst
  | some b => Buckets.level r b t

/-- Nobody has asked yet. -/
def new : Ideal κ F := fun _ => none

variable [DecidableEq κ]

/-- Stores what `k` has. -/
def store (m : Ideal κ F) (k : κ) (b : Bucket F) : Ideal κ F :=
  fun j => if j = k then some b else m j

/-- One check: `none` lets it through, `some w` says how long a whole token is away. -/
def check (r : Rate F) (m : Ideal κ F) (k : κ) (now : F) : Ideal κ F × Option F :=
  let tokens := m.level r k now
  if 1 ≤ tokens then (m.store k ⟨tokens - 1, now⟩, none)
  else (m.store k ⟨tokens, now⟩, some ((1 - tokens) / r.refill))

variable {r : Rate F} {m : Ideal κ F} {k : κ} {t₀ now : F}

theorem level_store (b : Bucket F) : (m.store k b).level r k = Buckets.level r b := by
  funext t
  unfold level store
  rw [if_pos rfl]

theorem level_store_of_ne {j : κ} (hj : j ≠ k) (b : Bucket F) : (m.store k b).level r j = m.level r j := by
  funext t
  unfold level store
  rw [if_neg hj]

/-- The ideal meter keeps to what a check may do. -/
theorem check_charged (hf : ∀ j, Fills r t₀ (m.level r j)) (ht : t₀ ≤ now) :
    Charged r (m.level r) ((m.check r k now).1.level r) ⟨k, now, decide (1 ≤ m.level r k now)⟩ := by
  unfold check
  by_cases hwhole : 1 ≤ m.level r k now
  · simp only [if_pos hwhole]
    refine ⟨fun _ => hwhole, fun _ t _ => ?_, fun ha => ?_, fun j hj t _ => ?_⟩
    · rw [level_store]
    · simp [hwhole] at ha
    · rw [level_store_of_ne hj]
  · simp only [if_neg hwhole]
    refine ⟨fun ha => ?_, fun ha => ?_, fun _ t hle => ?_, fun j hj t _ => ?_⟩
    · simp [hwhole] at ha
    · simp [hwhole] at ha
    · rw [level_store]
      exact level_stored r (hf k) ht hle
    · rw [level_store_of_ne hj]

end Ideal

end CrewSync.Buckets
