/-
`path_of_file_uri` of `proxy.rs`: the local path a `file://` URI names.

The loop reads the bytes of the text behind the host. A `%` with two more bytes behind it is an
escape when `u8::from_str_radix` reads them as a number, and that parser also takes a plus sign
in front of one digit: `%+f` is the byte 15. Where the two bytes end inside a character the
whole URI is refused. So a path is recovered exactly where no `%` that was left as it is is
followed by what the loop takes, or cannot cut (`decode_written_iff`), and a `%` before
anything else than two digits is never turned into another byte exactly where there is no
such signed digit, or the URI is refused (`decode_strict_iff`).

A position of the loop is what is left of the text there.
-/
import CrewSync.Utf8

set_option autoImplicit false

namespace CrewSync.FileUri

open Utf8

/-! ## Bytes -/

def PERCENT : UInt8 := 37

def PLUS : UInt8 := 43

def MINUS : UInt8 := 45

/-- `(b as char).to_digit(16)`. -/
def to_digit (b : UInt8) : Option ℕ :=
  if 48 ≤ b.toNat ∧ b.toNat ≤ 57 then some (b.toNat - 48)
  else if 65 ≤ b.toNat ∧ b.toNat ≤ 70 then some (b.toNat - 55)
  else if 97 ≤ b.toNat ∧ b.toNat ≤ 102 then some (b.toNat - 87)
  else none

/-- The digits of a number that has to stay below 256. -/
def digits : ℕ → List UInt8 → Option ℕ
  | n, [] => some n
  | n, b :: rest => (to_digit b).bind fun d => if 16 * n + d < 256 then digits (16 * n + d) rest else none

/-- `u8::from_str_radix(src, 16)`. A sign alone is no number; a plus sign is skipped. -/
def from_str_radix : List UInt8 → Option UInt8
  | [] => none
  | [b] => if b = PLUS ∨ b = MINUS then none else (digits 0 [b]).map UInt8.ofNat
  | b :: rest => (digits 0 (if b = PLUS then rest else b :: rest)).map UInt8.ofNat

/-- `rest.get(i + 1..i + 3)`, where there are two bytes. -/
def pair (x y : UInt8) (rest : List UInt8) : Option (List UInt8) :=
  if is_char_boundary (x :: y :: rest) && is_char_boundary rest then some [x, y] else none

/-! ## The decoder -/

/-- The loop. The second to last byte has no two bytes behind it, and neither has the last. -/
def decode : List UInt8 → Option (List UInt8)
  | [] => some []
  | [b] => some [b]
  | [b, x] => some [b, x]
  | b :: x :: y :: rest =>
    if b = PERCENT then
      match pair x y rest with
      | none => none
      | some src =>
        match from_str_radix src with
        | some byte => (decode rest).map (byte :: ·)
        | none => (decode (x :: y :: rest)).map (b :: ·)
    else (decode (x :: y :: rest)).map (b :: ·)

def FILE : List Char := "file://".toList

def LOCALHOST : List Char := "localhost".toList

/-- `str::strip_prefix`. -/
def strip_prefix (pattern text : List Char) : Option (List Char) :=
  if pattern.isPrefixOf text then some (text.drop pattern.length) else none

/-- The text the loop runs over. -/
def rest_of (uri : List Char) : Option (List Char) :=
  ( strip_prefix FILE uri).bind fun rest =>
    let rest := ( strip_prefix LOCALHOST rest).getD rest
    if rest.head? = some '/' then some rest else none

/-- `path_of_file_uri`. Which paths are directories is the file system's to say. -/
def path_of_file_uri (is_dir : String → Bool) (uri : String) : Option String :=
  (rest_of uri.toList).bind fun rest =>
    (decode (as_bytes rest)).bind fun out =>
      (from_utf8 out).bind fun path => if is_dir path then some path else none

/-! ## What an escape is -/

/-- The byte two digits stand for. -/
def escape (x y : UInt8) : Option UInt8 :=
  (to_digit x).bind fun a => (to_digit y).map fun b => UInt8.ofNat (16 * a + b)

/-- The decoder that knows no other escape than `%` and two digits. -/
def strict : List UInt8 → List UInt8
  | [] => []
  | [b] => [b]
  | [b, x] => [b, x]
  | b :: x :: y :: rest =>
    if b = PERCENT then
      match escape x y with
      | some byte => byte :: strict rest
      | none => b :: strict (x :: y :: rest)
    else b :: strict (x :: y :: rest)

theorem to_digit_lt {b : UInt8} {n : ℕ} (h : to_digit b = some n) : n < 16 := by
  unfold to_digit at h
  split_ifs at h <;> cases h <;> omega

/-- What the loop takes for an escape: two digits, or a plus sign and one. -/
theorem from_str_radix_pair (x y : UInt8) :
    from_str_radix [x, y] = if x = PLUS then (to_digit y).map UInt8.ofNat else escape x y := by
  have hone : ∀ b : UInt8, digits 0 [b] = to_digit b := by
    intro b
    cases hb : to_digit b with
    | none => simp [digits, hb]
    | some n =>
      have := to_digit_lt hb
      simp only [digits, hb, Option.bind_some, Nat.mul_zero, Nat.zero_add]
      rw [if_pos (by omega)]
  by_cases hx : x = PLUS
  · simp only [from_str_radix, hx, if_true, hone]
  · simp only [from_str_radix, hx, if_false, escape]
    cases ha : to_digit x with
    | none => simp [digits, ha]
    | some a =>
      have ha16 := to_digit_lt ha
      cases hb : to_digit y with
      | none => simp [digits, ha, hb]
      | some b =>
        have hb16 := to_digit_lt hb
        simp only [digits, ha, hb, Option.bind_some, Option.map_some, Nat.mul_zero, Nat.zero_add]
        rw [if_pos (by omega), if_pos (by omega)]
        rfl

/-! ## The loop, a byte at a time -/

section Steps

variable {b x y byte : UInt8} {rest : List UInt8}

theorem decode_other (hb : b ≠ PERCENT) : decode (b :: rest) = (decode rest).map (b :: ·) := by
  match rest with
  | [] => rfl
  | [_] => rfl
  | _ :: _ :: _ => rw [decode, if_neg hb]

theorem decode_torn (h : pair x y rest = none) : decode (PERCENT :: x :: y :: rest) = none := by
  simp only [decode, if_true, h]

theorem pair_some {src : List UInt8} (h : pair x y rest = some src) : src = [x, y] := by
  unfold pair at h
  split_ifs at h
  cases h
  rfl

theorem decode_escape (h : pair x y rest ≠ none) (hbyte : from_str_radix [x, y] = some byte) :
    decode (PERCENT :: x :: y :: rest) = (decode rest).map (byte :: ·) := by
  obtain ⟨src, hsrc⟩ := Option.ne_none_iff_exists'.mp h
  cases pair_some hsrc
  simp only [decode, if_true, hsrc, hbyte]

theorem decode_literal (h : pair x y rest ≠ none) (hnone : from_str_radix [x, y] = none) :
    decode (PERCENT :: x :: y :: rest) = (decode (x :: y :: rest)).map (PERCENT :: ·) := by
  obtain ⟨src, hsrc⟩ := Option.ne_none_iff_exists'.mp h
  cases pair_some hsrc
  simp only [decode, if_true, hsrc, hnone]

theorem strict_other (hb : b ≠ PERCENT) : strict (b :: rest) = b :: strict rest := by
  match rest with
  | [] => rfl
  | [_] => rfl
  | _ :: _ :: _ => rw [strict, if_neg hb]

theorem strict_escape (h : escape x y = some byte) : strict (PERCENT :: x :: y :: rest) = byte :: strict rest := by
  simp only [strict, if_true, h]

theorem strict_literal (h : escape x y = none) :
    strict (PERCENT :: x :: y :: rest) = PERCENT :: strict (x :: y :: rest) := by
  simp only [strict, if_true, h]

end Steps

/-! ## Where it goes wrong -/

/-- A `%` is followed by a plus sign and a digit. -/
def Signed (l : List UInt8) : Prop :=
  ∃ y rest, PERCENT :: PLUS :: y :: rest <:+ l ∧ (to_digit y).isSome = true

/-- A `%` is followed by two bytes that end inside a character. -/
def Torn (l : List UInt8) : Prop := ∃ x y rest, PERCENT :: x :: y :: rest <:+ l ∧ pair x y rest = none

section Places

variable {b x y : UInt8} {l rest : List UInt8}

theorem signed_cons_iff : Signed (b :: l) ↔
    (∃ y rest, b = PERCENT ∧ l = PLUS :: y :: rest ∧ (to_digit y).isSome = true) ∨ Signed l := by
  unfold Signed
  constructor
  · rintro ⟨y, rest, hsuffix, hy⟩
    rcases List.suffix_cons_iff.mp hsuffix with heq | hsuffix
    · obtain ⟨rfl, rfl⟩ := List.cons.inj heq
      exact .inl ⟨y, rest, rfl, rfl, hy⟩
    · exact .inr ⟨y, rest, hsuffix, hy⟩
  · rintro (⟨y, rest, rfl, rfl, hy⟩ | ⟨y, rest, hsuffix, hy⟩)
    · exact ⟨y, rest, List.suffix_refl _, hy⟩
    · exact ⟨y, rest, hsuffix.trans (List.suffix_cons _ _), hy⟩

theorem torn_cons_iff : Torn (b :: l) ↔
    (∃ x y rest, b = PERCENT ∧ l = x :: y :: rest ∧ pair x y rest = none) ∨ Torn l := by
  unfold Torn
  constructor
  · rintro ⟨x, y, rest, hsuffix, hp⟩
    rcases List.suffix_cons_iff.mp hsuffix with heq | hsuffix
    · obtain ⟨rfl, rfl⟩ := List.cons.inj heq
      exact .inl ⟨x, y, rest, rfl, rfl, hp⟩
    · exact .inr ⟨x, y, rest, hsuffix, hp⟩
  · rintro (⟨x, y, rest, rfl, rfl, hp⟩ | ⟨x, y, rest, hsuffix, hp⟩)
    · exact ⟨x, y, rest, List.suffix_refl _, hp⟩
    · exact ⟨x, y, rest, hsuffix.trans (List.suffix_cons _ _), hp⟩

/-- A byte that is no `%` starts nothing. -/
theorem signed_other (hb : b ≠ PERCENT) : Signed (b :: l) ↔ Signed l := by
  rw [signed_cons_iff]
  exact ⟨fun h => h.resolve_left fun ⟨_, _, hp, _⟩ => hb hp, .inr⟩

theorem torn_other (hb : b ≠ PERCENT) : Torn (b :: l) ↔ Torn l := by
  rw [torn_cons_iff]
  exact ⟨fun h => h.resolve_left fun ⟨_, _, _, hp, _⟩ => hb hp, .inr⟩

theorem not_signed_nil : ¬Signed [] := by
  rintro ⟨y, rest, hsuffix, -⟩
  cases List.suffix_nil.mp hsuffix

theorem not_torn_nil : ¬Torn [] := by
  rintro ⟨x, y, rest, hsuffix, -⟩
  cases List.suffix_nil.mp hsuffix

/-- What the loop takes for an escape has no `%` in it. -/
theorem ne_percent_of_taken {byte : UInt8} (h : from_str_radix [x, y] = some byte) :
    x ≠ PERCENT ∧ y ≠ PERCENT := by
  have hnone : to_digit PERCENT = none := by decide
  rw [from_str_radix_pair] at h
  constructor
  · rintro rfl
    rw [if_neg (by decide)] at h
    simp [escape, hnone] at h
  · rintro rfl
    split at h
    · simp [hnone] at h
    · simp [escape, hnone] at h

end Places

/-! ## The induction rule of the loop -/

/-- A text is what is left of it at some position: nothing, a byte that is no `%`, a `%` with no
two bytes behind it, or one with two that are torn, taken, or neither. -/
theorem scan_induct {P : List UInt8 → Prop} (nil : P []) (other : ∀ b l, b ≠ PERCENT → P l → P (b :: l))
    (short : ∀ l, l.length < 2 → P l → P (PERCENT :: l))
    (torn : ∀ x y rest, pair x y rest = none → P (PERCENT :: x :: y :: rest))
    (taken : ∀ x y rest byte, pair x y rest ≠ none → from_str_radix [x, y] = some byte → P rest →
      P (PERCENT :: x :: y :: rest))
    (literal : ∀ x y rest, pair x y rest ≠ none → from_str_radix [x, y] = none → P (x :: y :: rest) →
      P (PERCENT :: x :: y :: rest)) (l : List UInt8) : P l := by
  induction hn : l.length using Nat.strongRecOn generalizing l with
  | ind n ih =>
    subst hn
    cases l with
    | nil => exact nil
    | cons b l =>
      by_cases hb : b = PERCENT
      · subst hb
        match l with
        | [] => exact short [] (by decide) nil
        | [x] => exact short [x] (by simp) (ih 1 (by simp) [x] rfl)
        | x :: y :: rest =>
          by_cases hp : pair x y rest = none
          · exact torn x y rest hp
          · cases hbyte : from_str_radix [x, y] with
            | none => exact literal x y rest hp hbyte (ih _ (Nat.lt_succ_self _) _ rfl)
            | some byte => exact taken x y rest byte hp hbyte (ih _ (by simp; omega) _ rfl)
      · exact other b l hb (ih _ (Nat.lt_succ_self _) _ rfl)

section Scan

variable {l out : List UInt8}

theorem short_cases (h : l.length < 2) : l = [] ∨ ∃ x, l = [x] := by
  match l with
  | [] => exact .inl rfl
  | [x] => exact .inr ⟨x, rfl⟩

theorem decode_short (h : l.length < 2) : decode (PERCENT :: l) = some (PERCENT :: l) := by
  rcases short_cases h with rfl | ⟨x, rfl⟩ <;> rfl

theorem strict_short (h : l.length < 2) : strict (PERCENT :: l) = PERCENT :: l := by
  rcases short_cases h with rfl | ⟨x, rfl⟩ <;> rfl

theorem decode_of_short (h : l.length < 2) : decode l = some l := by
  rcases short_cases h with rfl | ⟨x, rfl⟩ <;> rfl

/-- **The loop refuses a text that is torn**, and no other. -/
theorem decode_none_iff (l : List UInt8) : decode l = none ↔ Torn l := by
  induction l using scan_induct with
  | nil => exact ⟨nofun, fun h => absurd h not_torn_nil⟩
  | other b l hb ih => rw [decode_other hb, Option.map_eq_none_iff, ih, torn_other hb]
  | short l hl ih =>
    rw [decode_short hl, torn_cons_iff, ← ih, decode_of_short hl]
    constructor
    · nofun
    · rintro (⟨x, y, rest, -, rfl, -⟩ | h)
      · exact nomatch hl
      · cases h
  | torn x y rest hp =>
    rw [decode_torn hp, torn_cons_iff]
    exact ⟨fun _ => .inl ⟨x, y, rest, rfl, rfl, hp⟩, fun _ => rfl⟩
  | taken x y rest byte hp hbyte ih =>
    obtain ⟨hx, hy⟩ := ne_percent_of_taken hbyte
    rw [decode_escape hp hbyte, Option.map_eq_none_iff, ih, torn_cons_iff, torn_other hx, torn_other hy]
    refine ⟨.inr, fun h => h.resolve_left ?_⟩
    rintro ⟨x', y', rest', -, heq, hp'⟩
    cases heq
    exact hp hp'
  | literal x y rest hp hnone ih =>
    rw [decode_literal hp hnone, Option.map_eq_none_iff, ih]
    nth_rewrite 2 [torn_cons_iff]
    refine ⟨.inr, fun h => h.resolve_left ?_⟩
    rintro ⟨x', y', rest', -, heq, hp'⟩
    cases heq
    exact hp hp'

/-- A signed digit is not two digits. -/
theorem escape_plus (y : UInt8) : escape PLUS y = none := by
  have hnone : to_digit PLUS = none := by decide
  simp [escape, hnone]

/-- What stands in front of a result. -/
theorem agree_map {o : Option (List UInt8)} (b : UInt8) (h : o = none ∨ o = some l) :
    o.map (b :: ·) = none ∨ o.map (b :: ·) = some (b :: l) :=
  h.imp (fun hn => by rw [hn]; rfl) fun hs => by rw [hs]; rfl

/-- The byte of an escape that has no sign. -/
theorem escape_of_taken {x y byte : UInt8} (hx : x ≠ PLUS) (h : from_str_radix [x, y] = some byte) :
    escape x y = some byte := by
  rwa [from_str_radix_pair, if_neg hx] at h

theorem digit_of_taken {y byte : UInt8} (h : from_str_radix [PLUS, y] = some byte) : (to_digit y).isSome = true := by
  rw [from_str_radix_pair, if_pos rfl] at h
  rw [← Option.isSome_map, h]
  rfl

theorem escape_of_literal {x y : UInt8} (h : from_str_radix [x, y] = none) : escape x y = none := by
  by_cases hx : x = PLUS
  · rw [hx, escape_plus]
  · rwa [from_str_radix_pair, if_neg hx] at h

/-- Without a signed digit the loop knows the escapes there are. -/
theorem decode_of_unsigned (l : List UInt8) (h : ¬Signed l) : decode l = none ∨ decode l = some (strict l) := by
  induction l using scan_induct with
  | nil => exact .inr rfl
  | other b l hb ih =>
    rw [signed_other hb] at h
    rw [decode_other hb, strict_other hb]
    exact agree_map b (ih h)
  | short l hl ih =>
    rw [decode_short hl, strict_short hl]
    exact .inr rfl
  | torn x y rest hp => exact .inl (decode_torn hp)
  | taken x y rest byte hp hbyte ih =>
    obtain ⟨hx, hy⟩ := ne_percent_of_taken hbyte
    rw [signed_cons_iff, signed_other hx, signed_other hy, not_or] at h
    have hplus : x ≠ PLUS := by
      rintro rfl
      exact h.1 ⟨y, rest, rfl, rfl, digit_of_taken hbyte⟩
    rw [decode_escape hp hbyte, strict_escape (escape_of_taken hplus hbyte)]
    exact agree_map byte (ih h.2)
  | literal x y rest hp hnone ih =>
    rw [signed_cons_iff, not_or] at h
    rw [decode_literal hp hnone, strict_literal (escape_of_literal hnone)]
    exact agree_map PERCENT (ih h.2)

/-- A signed digit makes the result two bytes shorter than it should be. -/
theorem decode_length (l : List UInt8) : ∀ out, decode l = some out →
    out.length ≤ (strict l).length ∧ (Signed l → out.length < (strict l).length) := by
  induction l using scan_induct with
  | nil =>
    intro out h
    cases h
    exact ⟨Nat.le_refl _, fun hs => absurd hs not_signed_nil⟩
  | other b l hb ih =>
    intro out h
    rw [decode_other hb] at h
    obtain ⟨out', hout, rfl⟩ := Option.map_eq_some_iff.mp h
    obtain ⟨hle, hlt⟩ := ih out' hout
    rw [strict_other hb, signed_other hb]
    simp only [List.length_cons]
    exact ⟨by omega, fun hs => Nat.succ_lt_succ (hlt hs)⟩
  | short l hl ih =>
    intro out h
    rw [decode_short hl] at h
    cases h
    rw [strict_short hl]
    refine ⟨Nat.le_refl _, fun hs => ?_⟩
    obtain ⟨y, rest, hsuffix, -⟩ := hs
    have := hsuffix.length_le
    simp only [List.length_cons] at this
    omega
  | torn x y rest hp =>
    intro out h
    rw [decode_torn hp] at h
    cases h
  | taken x y rest byte hp hbyte ih =>
    intro out h
    obtain ⟨hx, hy⟩ := ne_percent_of_taken hbyte
    rw [decode_escape hp hbyte] at h
    obtain ⟨out', hout, rfl⟩ := Option.map_eq_some_iff.mp h
    obtain ⟨hle, hlt⟩ := ih out' hout
    by_cases hplus : x = PLUS
    · subst hplus
      rw [strict_literal (escape_plus y), strict_other hx, strict_other hy]
      simp only [List.length_cons]
      exact ⟨by omega, fun _ => by omega⟩
    · rw [strict_escape (escape_of_taken hplus hbyte), signed_cons_iff, signed_other hx, signed_other hy]
      simp only [List.length_cons]
      refine ⟨by omega, fun hs => Nat.succ_lt_succ (hlt (hs.resolve_left ?_))⟩
      rintro ⟨y', rest', -, heq, -⟩
      exact hplus (List.cons.inj heq).1
  | literal x y rest hp hnone ih =>
    intro out h
    rw [decode_literal hp hnone] at h
    obtain ⟨out', hout, rfl⟩ := Option.map_eq_some_iff.mp h
    obtain ⟨hle, hlt⟩ := ih out' hout
    rw [strict_literal (escape_of_literal hnone), signed_cons_iff]
    simp only [List.length_cons] at hle hlt ⊢
    refine ⟨by omega, fun hs => Nat.succ_lt_succ (hlt (hs.resolve_left ?_))⟩
    rintro ⟨y', rest', -, heq, hdigit⟩
    cases heq
    rw [from_str_radix_pair, if_pos rfl, Option.map_eq_none_iff] at hnone
    rw [hnone] at hdigit
    cases hdigit

/-- **No other escapes.** A text is refused or read with no other escapes than those with two
digits exactly where it is torn or has no signed digit. -/
theorem decode_strict_iff (l : List UInt8) : (decode l = none ∨ decode l = some (strict l)) ↔ Torn l ∨ ¬Signed l := by
  constructor
  · rintro (h | h)
    · exact .inl ((decode_none_iff l).mp h)
    · exact .inr fun hs => absurd ((decode_length l _ h).2 hs) (Nat.lt_irrefl _)
  · rintro (h | h)
    · exact .inl ((decode_none_iff l).mpr h)
    · exact decode_of_unsigned l h

end Scan

/-! ## A path and the ways to write it -/

/-- How a byte is written: as it is, or as two digits of either case. -/
inductive Form
  | raw
  | escaped (high low : Bool)
  deriving DecidableEq

/-- A hexadecimal digit, upper-case or not. -/
def hex_digit (upper : Bool) (n : ℕ) : UInt8 :=
  UInt8.ofNat (if n < 10 then 48 + n else if upper then 55 + n else 87 + n)

/-- A byte, written. -/
def write : UInt8 × Form → List UInt8
  | (b, .raw) => [b]
  | (b, .escaped high low) => [PERCENT, hex_digit high (b.toNat / 16), hex_digit low (b.toNat % 16)]

def written (coded : List (UInt8 × Form)) : List UInt8 := coded.flatMap write

/-- What the loop takes behind a `%`, or cannot cut. -/
def Taken (l : List UInt8) : Prop :=
  ∃ x y rest, l = x :: y :: rest ∧ (pair x y rest = none ∨ (from_str_radix [x, y]).isSome = true)

/-- No `%` that was left as it is stands in front of such a thing. -/
def Kept (coded : List (UInt8 × Form)) : Prop :=
  ∀ post, (PERCENT, .raw) :: post <:+ coded → ¬Taken (written post)

/-- Behind an escape the text can be cut. -/
def Whole (coded : List (UInt8 × Form)) : Prop :=
  ∀ b high low post, (b, .escaped high low) :: post <:+ coded → is_char_boundary (written post) = true

section Writing

variable {coded post : List (UInt8 × Form)} {b : UInt8} {f : Form} {l out : List UInt8}

theorem written_raw (b : UInt8) (post : List (UInt8 × Form)) :
    written ((b, .raw) :: post) = b :: written post := rfl

theorem written_escaped (b : UInt8) (high low : Bool) (post : List (UInt8 × Form)) :
    written ((b, .escaped high low) :: post) =
      PERCENT :: hex_digit high (b.toNat / 16) :: hex_digit low (b.toNat % 16) :: written post := rfl

theorem Kept.tail (h : Kept ((b, f) :: post)) : Kept post :=
  fun post' hsuffix => h post' (hsuffix.trans (List.suffix_cons _ _))

theorem Whole.tail (h : Whole ((b, f) :: post)) : Whole post :=
  fun b' high low post' hsuffix => h b' high low post' (hsuffix.trans (List.suffix_cons _ _))

theorem Kept.cons (h : Kept post) (hb : (b, f) = (PERCENT, .raw) → ¬Taken (written post)) :
    Kept ((b, f) :: post) := by
  intro post' hsuffix
  rcases List.suffix_cons_iff.mp hsuffix with heq | hsuffix
  · obtain ⟨hbf, rfl⟩ := List.cons.inj heq
    exact hb hbf.symm
  · exact h post' hsuffix

theorem hex_digit_ascii (upper : Bool) : ∀ n < 16, (hex_digit upper n).toNat < 128 := by
  cases upper <;> decide

theorem to_digit_hex_digit (upper : Bool) : ∀ n < 16, to_digit (hex_digit upper n) = some n := by
  cases upper <;> decide

/-- The digits of a byte are read as this byte. -/
theorem from_str_radix_hex_digit (b : UInt8) (high low : Bool) :
    from_str_radix [hex_digit high (b.toNat / 16), hex_digit low (b.toNat % 16)] = some b := by
  have hb := b.toNat_lt
  have hhigh := to_digit_hex_digit high (b.toNat / 16) (by omega)
  have hlow := to_digit_hex_digit low (b.toNat % 16) (by omega)
  have hplus : hex_digit high (b.toNat / 16) ≠ PLUS := by
    intro h
    have hnone : to_digit PLUS = none := by decide
    rw [h, hnone] at hhigh
    cases hhigh
  have hsum : 16 * (b.toNat / 16) + b.toNat % 16 = b.toNat := by omega
  rw [from_str_radix_pair, if_neg hplus, escape, hhigh, hlow, Option.bind_some, Option.map_some, hsum,
    UInt8.ofNat_toNat]

/-- A `%` that is not taken stays. -/
theorem decode_percent (h : ¬Taken l) : decode (PERCENT :: l) = (decode l).map (PERCENT :: ·) := by
  match l with
  | [] => rfl
  | [x] => rfl
  | x :: y :: rest =>
    have hp : pair x y rest ≠ none := fun hp => h ⟨x, y, rest, rfl, .inl hp⟩
    have hnone : from_str_radix [x, y] = none := by
      rw [← Option.not_isSome_iff_eq_none]
      exact fun hs => h ⟨x, y, rest, rfl, .inr hs⟩
    exact decode_literal hp hnone

/-- An escape is read as its byte. -/
theorem decode_escaped (high low : Bool) (hcut : is_char_boundary (written post) = true) :
    decode (written ((b, .escaped high low) :: post)) = (decode (written post)).map (b :: ·) := by
  rw [written_escaped]
  apply decode_escape
  · have hb := b.toNat_lt
    have hascii := hex_digit_ascii high (b.toNat / 16) (by omega)
    unfold pair
    rw [hcut, is_char_boundary, decide_eq_true hascii]
    exact Option.some_ne_none _
  · exact from_str_radix_hex_digit b high low

theorem decode_written (hw : Whole coded) (hk : Kept coded) :
    decode (written coded) = some (coded.map Prod.fst) := by
  induction coded with
  | nil => rfl
  | cons p post ih =>
    obtain ⟨b, f⟩ := p
    have hrest := ih hw.tail hk.tail
    cases f with
    | raw =>
      rw [written_raw]
      by_cases hb : b = PERCENT
      · subst hb
        rw [decode_percent (hk post (List.suffix_refl _)), hrest]
        rfl
      · rw [decode_other hb, hrest]
        rfl
    | escaped high low =>
      rw [decode_escaped high low (hw b high low post (List.suffix_refl _)), hrest]
      rfl

/-- A byte that is no `%` was left as it is. -/
theorem written_cons {x : UInt8} (hx : x ≠ PERCENT) (h : written coded = x :: l) :
    ∃ post, coded = (x, .raw) :: post ∧ written post = l := by
  cases coded with
  | nil => cases h
  | cons p post =>
    obtain ⟨b, f⟩ := p
    cases f with
    | raw =>
      obtain ⟨rfl, hl⟩ := List.cons.inj h
      exact ⟨post, rfl, hl⟩
    | escaped high low =>
      rw [written_escaped] at h
      exact absurd (List.cons.inj h).1.symm hx

/-- The result is never longer than the path, and as long only where nothing else was taken. -/
theorem decode_written_length (coded : List (UInt8 × Form)) (hw : Whole coded) :
    ∀ out, decode (written coded) = some out →
      out.length ≤ coded.length ∧ (out.length = coded.length → Kept coded) := by
  induction hn : coded.length using Nat.strongRecOn generalizing coded with
  | ind n ih =>
    subst hn
    intro out h
    match coded, hw with
    | [], _ =>
      cases h
      exact ⟨Nat.le_refl _, fun _ post hsuffix => nomatch List.suffix_nil.mp hsuffix⟩
    | (b, f) :: post, hw =>
      have hpost := ih post.length (Nat.lt_succ_self _) post hw.tail rfl
      -- where the byte stays or is an escape of its own, the rest decides
      have hone : ∀ byte, decode (written ((b, f) :: post)) = (decode (written post)).map (byte :: ·) →
          ((b, f) = (PERCENT, .raw) → ¬Taken (written post)) →
            out.length ≤ post.length + 1 ∧ (out.length = post.length + 1 → Kept ((b, f) :: post)) := by
        intro byte hdecode hb
        rw [hdecode] at h
        obtain ⟨out', hout, rfl⟩ := Option.map_eq_some_iff.mp h
        obtain ⟨hle, hkept⟩ := hpost out' hout
        rw [List.length_cons]
        exact ⟨Nat.succ_le_succ hle, fun hlen => (hkept (Nat.succ_inj.mp hlen)).cons hb⟩
      cases f with
      | raw =>
        by_cases hb : b = PERCENT
        · subst hb
          by_cases ht : Taken (written post)
          · obtain ⟨x, y, rest, hl, htaken⟩ := ht
            rw [written_raw, hl] at h
            rcases htaken with hp | hbyte
            · rw [decode_torn hp] at h
              cases h
            · by_cases hp : pair x y rest = none
              · rw [decode_torn hp] at h
                cases h
              · -- the two bytes behind it were left as they are, too
                obtain ⟨byte, hbyte⟩ := Option.isSome_iff_exists.mp hbyte
                obtain ⟨hx, hy⟩ := ne_percent_of_taken hbyte
                obtain ⟨post₁, rfl, h₁⟩ := written_cons hx hl
                obtain ⟨post₂, rfl, h₂⟩ := written_cons hy h₁
                rw [decode_escape hp hbyte, ← h₂] at h
                obtain ⟨out', hout, rfl⟩ := Option.map_eq_some_iff.mp h
                have hshort := (ih post₂.length (by simp only [List.length_cons]; omega) post₂ hw.tail.tail.tail rfl
                  out' hout).1
                simp only [List.length_cons]
                exact ⟨by omega, fun hlen => by omega⟩
          · exact hone PERCENT (decode_percent ht) fun _ => ht
        · exact hone b (decode_other hb) fun heq => absurd (Prod.mk.inj heq).1 hb
      | escaped high low =>
        exact hone b (decode_escaped high low (hw b high low post (List.suffix_refl _))) nofun

/-- **The loop recovers a path** from a way to write it exactly where every `%` that was left as
it is is kept. -/
theorem decode_written_iff (hw : Whole coded) :
    decode (written coded) = some (coded.map Prod.fst) ↔ Kept coded := by
  constructor
  · intro h
    apply (decode_written_length coded hw _ h).2
    rw [List.length_map]
  · exact decode_written hw

end Writing

/-! ## Texts -/

section Texts

variable {text : List Char}

/-- The text of a written path can be cut behind its escapes. -/
theorem whole_of_text {coded : List (UInt8 × Form)} (h : as_bytes text = written coded) : Whole coded := by
  rintro b high low post ⟨pre, rfl⟩
  have hb := b.toNat_lt
  rw [written, List.flatMap_append, List.flatMap_cons, ← written, ← written] at h
  have hcut : as_bytes text = (written pre ++ [PERCENT, hex_digit high (b.toNat / 16)]) ++
      hex_digit low (b.toNat % 16) :: written post := by
    rw [h]
    simp [write]
  exact boundary_of_ascii (hex_digit_ascii low (b.toNat % 16) (by omega)) hcut

end Texts

/-! ## The whole function -/

/-- A URI, with the local host's name or without it. -/
def file_uri (localhost : Bool) (text : List Char) : String :=
  String.ofList (FILE ++ ((if localhost then LOCALHOST else []) ++ text))

theorem strip_prefix_append (pattern text : List Char) : strip_prefix pattern (pattern ++ text) = some text := by
  rw [ strip_prefix, if_pos (List.isPrefixOf_iff_prefix.mpr (List.prefix_append _ _)), List.drop_left]

/-- The host makes no difference to the loop. -/
theorem rest_of_file_uri {text : List Char} (localhost : Bool) (h : text.head? = some '/') :
    rest_of (file_uri localhost text).toList = some text := by
  rw [file_uri, String.toList_ofList, rest_of, strip_prefix_append, Option.bind_some]
  cases localhost with
  | true =>
    simp only [if_true, strip_prefix_append, Option.getD_some]
    rw [if_pos h]
  | false =>
    have hnone : strip_prefix LOCALHOST text = none := by
      cases text with
      | nil => cases h
      | cons c text =>
        cases Option.some.inj h
        rfl
    simp only [Bool.false_eq_true, if_false, List.nil_append, hnone, Option.getD_none]
    rw [if_pos h]

/-- A directory's path comes out of the function where it comes out of the loop. -/
theorem path_of_file_uri_iff {is_dir : String → Bool} {path text : List Char} (localhost : Bool)
    (hslash : text.head? = some '/') (hdir : is_dir (String.ofList path) = true) :
    path_of_file_uri is_dir (file_uri localhost text) = some (String.ofList path) ↔
      decode (as_bytes text) = some (as_bytes path) := by
  rw [path_of_file_uri, rest_of_file_uri localhost hslash, Option.bind_some]
  constructor
  · intro h
    obtain ⟨out, hout, h⟩ := Option.bind_eq_some_iff.mp h
    obtain ⟨p, hp, h⟩ := Option.bind_eq_some_iff.mp h
    obtain ⟨-, h⟩ := Option.ite_none_right_eq_some.mp h
    cases h
    rw [hout, from_utf8_eq_some_iff.mp hp]
  · intro h
    rw [h, Option.bind_some, from_utf8_eq_some_iff.mpr rfl, Option.bind_some, if_pos hdir]

/-- **What a file URI is read as.** The path it was written from comes out of the loop exactly
where every `%` that was left as it is is kept, and no other `%` than one with two digits is an
escape exactly where the text is torn or has no signed digit. -/
theorem file_uri_decoded {path text : List Char} {coded : List (UInt8 × Form)}
    (hpath : as_bytes path = coded.map Prod.fst) (htext : as_bytes text = written coded) (uri : List Char) :
    (decode (as_bytes text) = some (as_bytes path) ↔ Kept coded) ∧
    (∀ is_dir localhost, text.head? = some '/' → is_dir (String.ofList path) = true →
      (path_of_file_uri is_dir (file_uri localhost text) = some (String.ofList path) ↔ Kept coded)) ∧
    ((decode (as_bytes uri) = none ∨ decode (as_bytes uri) = some (strict (as_bytes uri))) ↔
      Torn (as_bytes uri) ∨ ¬Signed (as_bytes uri)) := by
  have hloop : decode (as_bytes text) = some (as_bytes path) ↔ Kept coded := by
    rw [hpath, htext]
    exact decode_written_iff (whole_of_text htext)
  refine ⟨hloop, ?_, decode_strict_iff _⟩
  intro is_dir localhost hslash hdir
  rw [path_of_file_uri_iff localhost hslash hdir, hloop]

/-- A path with a blank and a `%` in it, both escaped. -/
def blank_path : List Char := "/a b%".toList

def blank_coded : List (UInt8 × Form) :=
  [(47, .raw), (97, .raw), (32, .escaped false false), (98, .raw), (37, .escaped true true)]

theorem file_uri_decoded_blank :
    decode (as_bytes "/a%20b%25".toList) = some (as_bytes blank_path) ∧
    path_of_file_uri (fun _ => true) (file_uri true "/a%20b%25".toList) = some (String.ofList blank_path) ∧
    (decode (as_bytes "/100%".toList) = none ∨ decode (as_bytes "/100%".toList) = some (strict (as_bytes "/100%".toList))) := by
  have hall := @file_uri_decoded blank_path "/a%20b%25".toList blank_coded (by decide) (by decide) "/100%".toList
  have hkept : Kept blank_coded := fun post hsuffix => absurd (hsuffix.subset List.mem_cons_self) (by decide)
  refine ⟨hall.1.mpr hkept, (hall.2.1 _ true (by decide) rfl).mpr hkept, hall.2.2.mpr (.inr ?_)⟩
  rintro ⟨y, rest, hsuffix, -⟩
  exact absurd (hsuffix.subset (List.mem_cons_of_mem _ List.mem_cons_self)) (by decide)

/-- `%+f` is read as the byte 15; and a path with `%aé` in it, the `%` left as it is, is refused.
Neither `%` has two digits behind it. -/
theorem signed_escape_read :
    (¬∀ (path text : List Char) (coded : List (UInt8 × Form)), as_bytes path = coded.map Prod.fst →
      as_bytes text = written coded →
        (∀ post, (PERCENT, .raw) :: post <:+ coded →
          ∀ x y rest, written post = x :: y :: rest → escape x y = none) →
            decode (as_bytes text) = some (as_bytes path)) ∧
    (¬∀ uri : List Char, decode (as_bytes uri) = none ∨ decode (as_bytes uri) = some (strict (as_bytes uri))) ∧
    decode (as_bytes "/a%+fb".toList) = some [47, 97, 15, 98] ∧
    decode (as_bytes "/%aé".toList) = none := by
  refine ⟨fun h => ?_, fun h => ?_, by decide, by decide⟩
  · have hread := h "/%aé".toList "/%aé".toList
      [(47, .raw), (37, .raw), (97, .raw), (195, .raw), (169, .raw)] (by decide) (by decide) ?_
    · exact absurd hread (by decide)
    · intro post hsuffix x y rest hrest
      have hpost : post = [(97, .raw), (195, .raw), (169, .raw)] := by
        rcases List.suffix_cons_iff.mp hsuffix with heq | hsuffix
        · exact absurd (List.cons.inj heq).1 (by decide)
        · rcases List.suffix_cons_iff.mp hsuffix with heq | hsuffix
          · exact (List.cons.inj heq).2
          · exact absurd (hsuffix.subset List.mem_cons_self) (by decide)
      subst hpost
      cases hrest
      decide
  · rcases h "/a%+fb".toList with hread | hread
    · exact absurd hread (by decide)
    · exact absurd hread (by decide)

end CrewSync.FileUri
