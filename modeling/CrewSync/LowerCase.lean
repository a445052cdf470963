/-
Lower-casing a text, and what it commutes with.

A case table says what each character becomes, which may be more than one character,
and which characters are *cased* or *case-ignorable*. The capital sigma is the one
letter whose lower case depends on what stands around it: `ς` at the end of a word,
`σ` elsewhere (`Final_Sigma`).

Dropping characters from either end of a text could therefore change the lower case of
what stays. It does not for characters that keep apart from all this (`Apart`): neither
cased nor ignorable, their own lower case, and nobody else's. White space is such a
kind, and so is any single sign. For them lower-casing and dropping commute
(`lower_dropWhile`, `lower_rdropWhile`).
-/
import Mathlib.Data.List.DropRight

set_option autoImplicit false

namespace CrewSync.LowerCase

/-- The case properties of characters. -/
structure CaseTable where
  lower : Char → List Char
  cased : Char → Bool
  ignorable : Char → Bool

/-- What is used of a table: every character has a lower case, and lower cases are
their own. -/
structure CaseTable.Lawful (t : CaseTable) : Prop where
  nonempty : ∀ c, t.lower c ≠ []
  settled : ∀ c, c ≠ 'Σ' → ∀ d ∈ t.lower c, d ≠ 'Σ' ∧ t.lower d = [d]
  sigma : t.lower 'σ' = ['σ'] ∧ t.lower 'ς' = ['ς']

/-- The next character that is not ignorable is a cased one. -/
def next_cased (t : CaseTable) (l : List Char) : Bool := (l.dropWhile t.ignorable).head?.any t.cased

/-- The lower case of `c` between `before`, read backwards, and `after`. -/
def lower_at (t : CaseTable) (before : List Char) (c : Char) (after : List Char) : List Char :=
  if c = 'Σ' then [if next_cased t before && !next_cased t after then 'ς' else 'σ'] else t.lower c

/-- The lower case of a text after `before`, read backwards. -/
def lower_after (t : CaseTable) : List Char → List Char → List Char
  | _, [] => []
  | before, c :: cs => lower_at t before c cs ++ lower_after t (c :: before) cs

/-- The lower case of a text. -/
def lower (t : CaseTable) (l : List Char) : List Char := lower_after t [] l

/-- A kind of characters that lower-casing keeps apart from the others. -/
structure Apart (t : CaseTable) (p : Char → Bool) : Prop where
  same : ∀ c, p c = true → t.lower c = [c]
  others : ∀ c, p c = false → ∀ d ∈ t.lower c, p d = false
  uncased : ∀ c, p c = true → t.cased c = false ∧ t.ignorable c = false
  sigmas : p 'Σ' = false ∧ p 'σ' = false ∧ p 'ς' = false

section Lower

variable {t : CaseTable} {p : Char → Bool} {l : List Char} {c : Char}

theorem lower_at_of_ne (h : c ≠ 'Σ') (before after : List Char) : lower_at t before c after = t.lower c :=
  if_neg h

/-- The lower case of the capital sigma is one of the two small ones. -/
theorem lower_at_sigma (before after : List Char) :
    lower_at t before 'Σ' after = ['σ'] ∨ lower_at t before 'Σ' after = ['ς'] := by
  unfold lower_at
  rw [if_pos rfl]
  by_cases h : (next_cased t before && !next_cased t after) = true
  · rw [if_pos h]
    exact Or.inr rfl
  · rw [if_neg h]
    exact Or.inl rfl

theorem lower_at_ne_nil (ht : t.Lawful) (before after : List Char) : lower_at t before c after ≠ [] := by
  by_cases hc : c = 'Σ'
  · subst hc
    rcases lower_at_sigma (t := t) before after with h | h <;> simp [h]
  · rw [lower_at_of_ne hc]
    exact ht.nonempty c

/-- Lower cases are their own lower case, wherever they stand. -/
theorem lower_at_settled (ht : t.Lawful) (before after : List Char) :
    ∀ d ∈ lower_at t before c after, d ≠ 'Σ' ∧ t.lower d = [d] := by
  intro d hd
  by_cases hc : c = 'Σ'
  · subst hc
    rcases lower_at_sigma (t := t) before after with h | h
    · rw [h, List.mem_singleton] at hd
      subst hd
      exact ⟨by decide, ht.sigma.1⟩
    · rw [h, List.mem_singleton] at hd
      subst hd
      exact ⟨by decide, ht.sigma.2⟩
  · rw [lower_at_of_ne hc] at hd
    exact ht.settled c hc d hd

theorem lower_after_settled (ht : t.Lawful) (before : List Char) :
    ∀ d ∈ lower_after t before l, d ≠ 'Σ' ∧ t.lower d = [d] := by
  induction l generalizing before with
  | nil => exact fun d hd => absurd hd List.not_mem_nil
  | cons c cs ih =>
    intro d hd
    unfold lower_after at hd
    rcases List.mem_append.mp hd with hd | hd
    · exact lower_at_settled ht before cs d hd
    · exact ih (c :: before) d hd

/-- A text of settled characters is its own lower case. -/
theorem lower_after_eq_self (h : ∀ d ∈ l, d ≠ 'Σ' ∧ t.lower d = [d]) (before : List Char) :
    lower_after t before l = l := by
  induction l generalizing before with
  | nil => rfl
  | cons c cs ih =>
    have hc := h c List.mem_cons_self
    unfold lower_after
    rw [lower_at_of_ne hc.1, hc.2, ih (fun d hd => h d (List.mem_cons_of_mem _ hd))]
    rfl

/-- Lower-casing twice is lower-casing once. -/
theorem lower_lower (ht : t.Lawful) : lower t (lower t l) = lower t l :=
  lower_after_eq_self (lower_after_settled ht []) []

/-! ## What stands before and after -/

theorem next_cased_cons (l : List Char) :
    next_cased t (c :: l) = if t.ignorable c then next_cased t l else t.cased c := by
  unfold next_cased
  rw [List.dropWhile_cons]
  by_cases h : t.ignorable c = true
  · rw [if_pos h, if_pos h]
  · rw [if_neg h, if_neg h]
    rfl

theorem next_cased_apart (hp : Apart t p) (h : p c = true) (l : List Char) : next_cased t (c :: l) = false := by
  have hc := hp.uncased c h
  rw [next_cased_cons, hc.2, hc.1]
  rfl

/-- A character of its own kind at the end of a text does not count as a letter. -/
theorem next_cased_snoc (hp : Apart t p) (h : p c = true) (l : List Char) :
    next_cased t (l ++ [c]) = next_cased t l := by
  induction l with
  | nil => exact next_cased_apart hp h []
  | cons a l ih => rw [List.cons_append, next_cased_cons, next_cased_cons, ih]

/-- What stands before a text only matters through the next letter. -/
theorem lower_after_congr {before before' : List Char} (h : next_cased t before = next_cased t before') :
    lower_after t before l = lower_after t before' l := by
  induction l generalizing before before' with
  | nil => rfl
  | cons c cs ih =>
    have hat : lower_at t before c cs = lower_at t before' c cs := by
      unfold lower_at
      rw [h]
    have hnext : next_cased t (c :: before) = next_cased t (c :: before') := by
      rw [next_cased_cons, next_cased_cons, h]
    unfold lower_after
    rw [hat, ih hnext]

/-! ## Dropping from either end -/

theorem apart_not_sigma (hp : Apart t p) (h : p c = true) : c ≠ 'Σ' := by
  rintro rfl
  rw [hp.sigmas.1] at h
  cases h

/-- Nothing else becomes a character of a kind of its own. -/
theorem lower_at_others (hp : Apart t p) (h : p c = false) (before after : List Char) :
    ∀ d ∈ lower_at t before c after, p d = false := by
  intro d hd
  by_cases hc : c = 'Σ'
  · subst hc
    rcases lower_at_sigma (t := t) before after with hs | hs
    · rw [hs, List.mem_singleton] at hd
      rw [hd]
      exact hp.sigmas.2.1
    · rw [hs, List.mem_singleton] at hd
      rw [hd]
      exact hp.sigmas.2.2
  · rw [lower_at_of_ne hc] at hd
    exact hp.others c h d hd

/-- A character of its own kind in front is passed over. -/
theorem lower_cons (hp : Apart t p) (h : p c = true) (l : List Char) : lower t (c :: l) = c :: lower t l := by
  unfold lower
  rw [lower_after, lower_at_of_ne (apart_not_sigma hp h), hp.same c h]
  have hnext : next_cased t [c] = next_cased t [] := next_cased_apart hp h []
  rw [lower_after_congr hnext]
  rfl

/-- The lower case of a text ends with that of its last character. -/
theorem lower_after_snoc (before : List Char) :
    ∃ front, lower_after t before (l ++ [c]) = front ++ lower_at t (l.reverse ++ before) c [] := by
  induction l generalizing before with
  | nil => exact ⟨[], by simp [lower_after]⟩
  | cons a l ih =>
    obtain ⟨front, hfront⟩ := ih (a :: before)
    refine ⟨lower_at t before a (l ++ [c]) ++ front, ?_⟩
    rw [List.cons_append, lower_after, hfront, List.append_assoc, List.reverse_cons, List.append_assoc]
    rfl

/-- A character of its own kind at the end is passed over. -/
theorem lower_after_snoc_apart (hp : Apart t p) (h : p c = true) (before : List Char) :
    lower_after t before (l ++ [c]) = lower_after t before l ++ [c] := by
  induction l generalizing before with
  | nil =>
    show lower_at t before c [] ++ lower_after t (c :: before) [] = [c]
    rw [lower_at_of_ne (apart_not_sigma hp h), hp.same c h]
    rfl
  | cons a l ih =>
    have hat : lower_at t before a (l ++ [c]) = lower_at t before a l := by
      unfold lower_at
      rw [next_cased_snoc hp h]
    rw [List.cons_append, lower_after, lower_after, hat, ih, List.append_assoc]

/-- **Dropping in front** and lower-casing commute. -/
theorem lower_dropWhile (ht : t.Lawful) (hp : Apart t p) (l : List Char) :
    lower t (l.dropWhile p) = (lower t l).dropWhile p := by
  induction l with
  | nil => rfl
  | cons c cs ih =>
    by_cases h : p c = true
    · rw [List.dropWhile_cons_of_pos h, lower_cons hp h, List.dropWhile_cons_of_pos h]
      exact ih
    · -- Neither the text nor its lower case begins with such a character.
      rw [List.dropWhile_cons_of_neg h]
      have hne := lower_at_ne_nil (c := c) ht [] cs
      have hothers := lower_at_others hp (by simpa using h) [] cs
      unfold lower lower_after
      rcases hat : lower_at t [] c cs with _ | ⟨d, ds⟩
      · exact absurd hat hne
      · have hd : p d = false := hothers d (by rw [hat]; exact List.mem_cons_self)
        rw [List.cons_append, List.dropWhile_cons_of_neg (by simp [hd])]

/-- **Dropping at the end** and lower-casing commute. -/
theorem lower_rdropWhile (ht : t.Lawful) (hp : Apart t p) (l : List Char) :
    lower t (l.rdropWhile p) = (lower t l).rdropWhile p := by
  induction l using List.reverseRecOn with
  | nil => rfl
  | append_singleton cs c ih =>
    by_cases h : p c = true
    · have hlower : lower t (cs ++ [c]) = lower t cs ++ [c] := lower_after_snoc_apart hp h []
      rw [List.rdropWhile_concat_pos p cs c h, hlower, List.rdropWhile_concat_pos p _ c h]
      exact ih
    · rw [List.rdropWhile_concat_neg p cs c h]
      obtain ⟨front, hfront⟩ := lower_after_snoc (t := t) (l := cs) (c := c) []
      have hne := lower_at_ne_nil (c := c) ht (cs.reverse ++ []) []
      have hothers := lower_at_others hp (by simpa using h) (cs.reverse ++ []) []
      unfold lower
      rw [hfront]
      generalize lower_at t (cs.reverse ++ []) c [] = image at hne hothers
      have hkept : ¬ p (image.getLast hne) = true := by
        rw [hothers _ (List.getLast_mem hne)]
        exact Bool.false_ne_true
      rw [← List.dropLast_concat_getLast hne, ← List.append_assoc, List.rdropWhile_concat_neg p _ _ hkept]

end Lower

/-! ## The table of ASCII -/

/-- `A` to `Z`. -/
def upper (c : Char) : Bool := 65 ≤ c.toNat && c.toNat ≤ 90

def small (c : Char) : Char := Char.ofNat (c.toNat + 32)

/-- The case table of a text in ASCII. -/
def ascii : CaseTable where
  lower c := if c = 'Σ' then ['σ'] else if upper c then [small c] else [c]
  cased c := upper c || (97 ≤ c.toNat && c.toNat ≤ 122)
  ignorable c := c == '.' || c == ':' || c == '\''

section Ascii

variable {c : Char}

theorem upper_iff : upper c = true ↔ 65 ≤ c.toNat ∧ c.toNat ≤ 90 := by
  unfold upper
  rw [Bool.and_eq_true, decide_eq_true_eq, decide_eq_true_eq]

theorem small_toNat (h : upper c = true) : (small c).toNat = c.toNat + 32 := by
  have hrange := upper_iff.mp h
  have hvalid : (c.toNat + 32).isValidChar := Or.inl (by omega)
  unfold small Char.ofNat
  rw [dif_pos hvalid]
  rfl

theorem ne_of_toNat {d : Char} (h : c.toNat ≠ d.toNat) : c ≠ d := fun heq => h (congrArg Char.toNat heq)

theorem ascii_lower_upper (h : upper c = true) : ascii.lower c = [small c] := by
  have hne : c ≠ 'Σ' := ne_of_toNat (by
    have hrange := upper_iff.mp h
    show c.toNat ≠ 931
    omega)
  show (if c = 'Σ' then ['σ'] else if upper c then [small c] else [c]) = [small c]
  rw [if_neg hne, if_pos h]

theorem ascii_lower_other (hne : c ≠ 'Σ') (h : ¬ upper c = true) : ascii.lower c = [c] := by
  show (if c = 'Σ' then ['σ'] else if upper c then [small c] else [c]) = [c]
  rw [if_neg hne, if_neg h]

theorem ascii_lawful : ascii.Lawful := by
  refine ⟨fun c => ?_, fun c hne d hd => ?_, by decide, by decide⟩
  · by_cases hne : c = 'Σ'
    · subst hne
      decide
    · by_cases hu : upper c = true
      · simp [ascii_lower_upper hu]
      · simp [ascii_lower_other hne hu]
  · by_cases hu : upper c = true
    · rw [ascii_lower_upper hu, List.mem_singleton] at hd
      have hrange := upper_iff.mp hu
      have hd' : d.toNat = c.toNat + 32 := by rw [hd, small_toNat hu]
      have hne' : d ≠ 'Σ' := ne_of_toNat (by
        show d.toNat ≠ 931
        omega)
      refine ⟨hne', ascii_lower_other hne' fun hu' => ?_⟩
      have hrange' := upper_iff.mp hu'
      omega
    · rw [ascii_lower_other hne hu, List.mem_singleton] at hd
      rw [hd]
      exact ⟨hne, ascii_lower_other hne hu⟩

/-- A kind of characters that are neither letters nor ignorable. -/
theorem ascii_apart {p : Char → Bool} (hsigmas : p 'Σ' = false ∧ p 'σ' = false ∧ p 'ς' = false)
    (hrange : ∀ c, p c = true → c.toNat < 39 ∨ 122 < c.toNat) : Apart ascii p := by
  have hupper : ∀ c, p c = true → ¬ upper c = true := by
    intro c hc hu
    have hout := hrange c hc
    have hin := upper_iff.mp hu
    omega
  refine ⟨fun c hc => ascii_lower_other ?_ (hupper c hc), fun c hc d hd => ?_, fun c hc => ⟨?_, ?_⟩, hsigmas⟩
  · rintro rfl
    rw [hsigmas.1] at hc
    cases hc
  · by_cases hne : c = 'Σ'
    · subst hne
      have hd' : d = 'σ' := List.mem_singleton.mp hd
      rw [hd']
      exact hsigmas.2.1
    · by_cases hu : upper c = true
      · rw [ascii_lower_upper hu, List.mem_singleton] at hd
        by_contra hp
        have hout := hrange d (by simpa using hp)
        have hin := upper_iff.mp hu
        rw [hd, small_toNat hu] at hout
        omega
      · rw [ascii_lower_other hne hu, List.mem_singleton] at hd
        rw [hd]
        exact hc
  · have hout := hrange c hc
    show (upper c || (decide (97 ≤ c.toNat) && decide (c.toNat ≤ 122))) = false
    rw [Bool.or_eq_false_iff, Bool.and_eq_false_iff, decide_eq_false_iff_not, decide_eq_false_iff_not]
    exact ⟨by simpa using hupper c hc, by omega⟩
  · have hout := hrange c hc
    show (c == '.' || c == ':' || c == '\'') = false
    rw [Bool.or_eq_false_iff, Bool.or_eq_false_iff, beq_eq_false_iff_ne, beq_eq_false_iff_ne, beq_eq_false_iff_ne]
    refine ⟨⟨ne_of_toNat ?_, ne_of_toNat ?_⟩, ne_of_toNat ?_⟩
    · show c.toNat ≠ 46
      omega
    · show c.toNat ≠ 58
      omega
    · show c.toNat ≠ 39
      omega

end Ascii

end CrewSync.LowerCase
