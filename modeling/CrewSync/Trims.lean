/-
Trimming a list at both ends, and **splitting** it at the first separator.

`trim p` takes off what satisfies `p`, first in front and then behind; the order does not
matter (`dropWhile_rdropWhile`). A separator that is never taken off keeps the two sides
apart: a trimmed text is split into what is in front of its first separator, trimmed in
front, and what is behind, trimmed behind (`split_once_trim`). So trimming before splitting
and trimming the two sides afterwards is the same.
-/
import Mathlib.Data.List.DropRight

set_option autoImplicit false

namespace CrewSync.Trims

variable {α : Type*} {p : α → Bool} {l k v : List α} {c : α}

/-- The list without what satisfies `p` at its two ends. -/
def trim (p : α → Bool) (l : List α) : List α := (l.dropWhile p).rdropWhile p

/-! ## One end and the other -/

/-- What is left of the tail protects the head. -/
theorem rdropWhile_cons_of_ne_nil (h : l.rdropWhile p ≠ []) (c : α) : (c :: l).rdropWhile p = c :: l.rdropWhile p := by
  induction l using List.reverseRecOn with
  | nil => exact absurd (List.rdropWhile_nil p) h
  | append_singleton l a ih =>
    rw [← List.cons_append]
    by_cases ha : p a = true
    · rw [List.rdropWhile_concat_pos p _ a ha] at h
      rw [List.rdropWhile_concat_pos p _ a ha, List.rdropWhile_concat_pos p _ a ha, ih h]
    · rw [List.rdropWhile_concat_neg p _ a ha, List.rdropWhile_concat_neg p _ a ha, List.cons_append]

/-- What is behind something that stays is trimmed by itself. -/
theorem rdropWhile_append_cons (hc : ¬p c = true) (k v : List α) :
    (k ++ c :: v).rdropWhile p = k ++ c :: v.rdropWhile p := by
  induction v using List.reverseRecOn with
  | nil => rw [List.rdropWhile_concat_neg p k c hc, List.rdropWhile_nil]
  | append_singleton v a ih =>
    rw [← List.cons_append, ← List.append_assoc]
    by_cases ha : p a = true
    · rw [List.rdropWhile_concat_pos p _ a ha, List.rdropWhile_concat_pos p _ a ha, ih]
    · rw [List.rdropWhile_concat_neg p _ a ha, List.rdropWhile_concat_neg p _ a ha]
      simp only [List.append_assoc, List.cons_append]

/-- An item that is kept protects what follows it. -/
theorem dropWhile_append_cons (hc : ¬p c = true) (k v : List α) :
    (k ++ c :: v).dropWhile p = k.dropWhile p ++ c :: v := by
  induction k with
  | nil => rw [List.nil_append, List.dropWhile_cons_of_neg hc, List.dropWhile_nil, List.nil_append]
  | cons a k ih =>
    rw [List.cons_append]
    by_cases ha : p a = true
    · rw [List.dropWhile_cons_of_pos ha, List.dropWhile_cons_of_pos ha, ih]
    · rw [List.dropWhile_cons_of_neg ha, List.dropWhile_cons_of_neg ha, List.cons_append]

/-- The two ends are independent. -/
theorem dropWhile_rdropWhile (p : α → Bool) (l : List α) :
    (l.rdropWhile p).dropWhile p = (l.dropWhile p).rdropWhile p := by
  induction l with
  | nil => rw [List.rdropWhile_nil, List.dropWhile_nil, List.rdropWhile_nil]
  | cons a l ih =>
    by_cases ha : p a = true
    · rw [List.dropWhile_cons_of_pos ha]
      by_cases hl : l.rdropWhile p = []
      · have hall := List.rdropWhile_eq_nil_iff.mp hl
        have hcons : (a :: l).rdropWhile p = [] := by
          apply List.rdropWhile_eq_nil_iff.mpr
          intro x hx
          rcases List.mem_cons.mp hx with rfl | hx
          · exact ha
          · exact hall x hx
        rw [hcons, ← ih, hl]
      · rw [rdropWhile_cons_of_ne_nil hl, List.dropWhile_cons_of_pos ha, ih]
    · rw [List.dropWhile_cons_of_neg ha]
      have hcons := rdropWhile_append_cons ha [] l
      rw [List.nil_append, List.nil_append] at hcons
      rw [hcons, List.dropWhile_cons_of_neg ha]

@[simp] theorem trim_dropWhile (p : α → Bool) (l : List α) : trim p (l.dropWhile p) = trim p l := by
  rw [trim, List.dropWhile_idempotent, ← trim]

@[simp] theorem trim_rdropWhile (p : α → Bool) (l : List α) : trim p (l.rdropWhile p) = trim p l := by
  rw [trim, dropWhile_rdropWhile, List.rdropWhile_idempotent, ← trim]

/-- Trimming twice is trimming once. -/
theorem trim_trim (p : α → Bool) (l : List α) : trim p (trim p l) = trim p l := by
  nth_rewrite 2 [trim]
  rw [trim_rdropWhile, trim_dropWhile]

/-- Around an item that is kept, each side is trimmed at its own end. -/
theorem trim_append_cons (hc : ¬p c = true) (k v : List α) :
    trim p (k ++ c :: v) = k.dropWhile p ++ c :: v.rdropWhile p := by
  rw [trim, dropWhile_append_cons hc, rdropWhile_append_cons hc]

theorem trim_concat_pos (hc : p c = true) (l : List α) : trim p (l ++ [c]) = trim p l := by
  rw [← trim_rdropWhile, List.rdropWhile_concat_pos p l c hc, trim_rdropWhile]

/-- Where nothing satisfies `p`, nothing is taken off. -/
theorem trim_of_forall (h : ∀ x ∈ l, ¬p x = true) : trim p l = l := by
  have hfront : l.dropWhile p = l := by
    cases l with
    | nil => rfl
    | cons a l => rw [List.dropWhile_cons_of_neg (h a List.mem_cons_self)]
  rw [trim, hfront]
  exact List.rdropWhile_eq_self_iff.mpr fun hne => h _ (List.getLast_mem hne)

/-- Trimming adds nothing. -/
theorem mem_of_mem_trim (h : c ∈ trim p l) : c ∈ l :=
  (List.dropWhile_suffix p).subset ((List.rdropWhile_prefix p _).subset h)

/-! ## Splitting -/

variable [DecidableEq α] {sep : α}

/-- What is in front of the first separator, and what is behind it. -/
def split_once (sep : α) : List α → Option (List α × List α)
  | [] => none
  | c :: rest =>
    if c = sep then some ([], rest) else (split_once sep rest).map fun parts => (c :: parts.1, parts.2)

/-- The first separator is where it is cut. -/
theorem split_once_append (hk : sep ∉ k) (v : List α) : split_once sep (k ++ sep :: v) = some (k, v) := by
  induction k with
  | nil => rw [List.nil_append, split_once, if_pos rfl]
  | cons a k ih =>
    have ha : a ≠ sep := fun h => hk (h ▸ List.mem_cons_self)
    rw [List.cons_append, split_once, if_neg ha, ih fun h => hk (List.mem_cons_of_mem _ h)]
    rfl

/-- What was cut can be put together again. -/
theorem split_once_some (h : split_once sep l = some (k, v)) : l = k ++ sep :: v ∧ sep ∉ k := by
  induction l generalizing k with
  | nil => cases h
  | cons a l ih =>
    rw [split_once] at h
    by_cases ha : a = sep
    · rw [if_pos ha] at h
      cases h
      rw [ha]
      exact ⟨rfl, List.not_mem_nil⟩
    · rw [if_neg ha] at h
      obtain ⟨⟨k', v'⟩, hparts, heq⟩ := Option.map_eq_some_iff.mp h
      cases heq
      obtain ⟨rfl, hk⟩ := ih hparts
      refine ⟨rfl, fun hmem => ?_⟩
      rcases List.mem_cons.mp hmem with hmem | hmem
      · exact ha hmem.symm
      · exact hk hmem

/-- Only a text without the separator is not cut. -/
theorem split_once_none_iff : split_once sep l = none ↔ sep ∉ l := by
  induction l with
  | nil => exact ⟨fun _ => List.not_mem_nil, fun _ => rfl⟩
  | cons a l ih =>
    rw [split_once, List.mem_cons, not_or]
    by_cases ha : a = sep
    · rw [if_pos ha]
      constructor
      · intro h
        cases h
      · rintro ⟨hne, -⟩
        exact absurd ha.symm hne
    · rw [if_neg ha, Option.map_eq_none_iff, ih]
      exact ⟨fun h => ⟨fun heq => ha heq.symm, h⟩, fun h => h.2⟩

/-- **Trimming before splitting**, where the separator is never taken off. -/
theorem split_once_trim (hsep : ¬p sep = true) (l : List α) :
    split_once sep (trim p l) =
      (split_once sep l).map fun parts => (parts.1.dropWhile p, parts.2.rdropWhile p) := by
  cases h : split_once sep l with
  | none =>
    have hl := split_once_none_iff.mp h
    rw [Option.map_none, split_once_none_iff]
    exact fun hmem => hl (mem_of_mem_trim hmem)
  | some parts =>
    obtain ⟨k, v⟩ := parts
    obtain ⟨rfl, hk⟩ := split_once_some h
    rw [trim_append_cons hsep, split_once_append]
    · rfl
    · exact fun hmem => hk ((List.dropWhile_suffix p).subset hmem)

/-! ## Splitting from behind -/

/-- What is in front of the last separator, and what is behind it. -/
def rsplit_once (sep : α) (l : List α) : Option (List α × List α) :=
  (split_once sep l.reverse).map fun parts => (parts.2.reverse, parts.1.reverse)

/-- From the right, the last separator is where it is cut. -/
theorem rsplit_once_append (k : List α) (hv : sep ∉ v) : rsplit_once sep (k ++ sep :: v) = some (k, v) := by
  have hreverse : (k ++ sep :: v).reverse = v.reverse ++ sep :: k.reverse := by
    simp only [List.reverse_append, List.reverse_cons, List.append_assoc, List.singleton_append]
  rw [rsplit_once, hreverse, split_once_append fun h => hv (List.mem_reverse.mp h), Option.map_some,
    List.reverse_reverse, List.reverse_reverse]

end CrewSync.Trims
