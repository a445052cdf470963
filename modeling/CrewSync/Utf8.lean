/-
The length of a text in **bytes**, and cutting it at one.

A text is its characters; each takes one to four bytes. Cutting at a byte is cutting between
two characters or it is not possible: `cut n` gives the characters of the first `n` bytes,
all of them if there are no more, and nothing if byte `n` lies inside a character.

The bytes themselves (`as_bytes`) tell which text they are of, and a text can be cut behind
every byte that is ASCII (`boundary_of_ascii`).
-/
import Mathlib.Algebra.Ring.Nat
import Mathlib.Data.List.Basic

set_option autoImplicit false

namespace CrewSync.Utf8

/-- The bytes a text takes. -/
def bytes (text : List Char) : ℕ := (text.map Char.utf8Size).sum

/-- The characters of the first `n` bytes. -/
def cut : ℕ → List Char → Option (List Char)
  | _, [] => some []
  | n, c :: rest =>
    if n = 0 then some []
    else if c.utf8Size ≤ n then (cut (n - c.utf8Size) rest).map (c :: ·)
    else none

/-- Byte `n` of the text is where a character begins, or the end. -/
def Boundary (n : ℕ) (text : List Char) : Prop := ∃ shown, shown <+: text ∧ bytes shown = n

variable {n : ℕ} {c : Char} {text rest shown : List Char}

@[simp] theorem bytes_nil : bytes [] = 0 := rfl

@[simp] theorem bytes_cons (c : Char) (rest : List Char) : bytes (c :: rest) = c.utf8Size + bytes rest := by
  rw [bytes, List.map_cons, List.sum_cons, bytes]

@[simp] theorem bytes_append (text rest : List Char) : bytes (text ++ rest) = bytes text + bytes rest := by
  rw [bytes, List.map_append, List.sum_append, bytes, bytes]

theorem bytes_replicate (k : ℕ) (c : Char) : bytes (List.replicate k c) = k * c.utf8Size := by
  rw [bytes, List.map_replicate, List.sum_replicate_nat]

theorem boundary_zero (text : List Char) : Boundary 0 text := ⟨[], List.nil_prefix, rfl⟩

/-- A boundary behind the first character is one of the rest. -/
theorem boundary_cons (h : n ≠ 0) :
    Boundary n (c :: rest) ↔ c.utf8Size ≤ n ∧ Boundary (n - c.utf8Size) rest := by
  constructor
  · rintro ⟨shown, hpre, hlen⟩
    rcases List.prefix_cons_iff.mp hpre with rfl | ⟨t, rfl, ht⟩
    · rw [bytes_nil] at hlen
      exact absurd hlen.symm h
    · rw [bytes_cons] at hlen
      exact ⟨by omega, t, ht, by omega⟩
  · rintro ⟨hle, shown, hpre, hlen⟩
    refine ⟨c :: shown, List.cons_prefix_cons.mpr ⟨rfl, hpre⟩, ?_⟩
    rw [bytes_cons]
    omega

/-- What is cut off is a prefix that fits. -/
theorem cut_spec (h : cut n text = some shown) : shown <+: text ∧ bytes shown ≤ n := by
  induction text generalizing n shown with
  | nil =>
    cases h
    exact ⟨List.nil_prefix, Nat.zero_le _⟩
  | cons c rest ih =>
    rw [cut] at h
    by_cases hn : n = 0
    · rw [if_pos hn] at h
      cases h
      exact ⟨List.nil_prefix, Nat.zero_le _⟩
    · rw [if_neg hn] at h
      by_cases hc : c.utf8Size ≤ n
      · rw [if_pos hc] at h
        obtain ⟨t, ht, rfl⟩ := Option.map_eq_some_iff.mp h
        obtain ⟨hpre, hlen⟩ := ih ht
        refine ⟨List.cons_prefix_cons.mpr ⟨rfl, hpre⟩, ?_⟩
        rw [bytes_cons]
        omega
      · rw [if_neg hc] at h
        cases h

/-- **Cutting goes through** exactly at a boundary, and in a text that is no longer. -/
theorem cut_isSome_iff (n : ℕ) (text : List Char) : (cut n text).isSome = true ↔ bytes text ≤ n ∨ Boundary n text := by
  induction text generalizing n with
  | nil => exact ⟨fun _ => Or.inl (Nat.zero_le _), fun _ => rfl⟩
  | cons c rest ih =>
    rw [cut]
    by_cases hn : n = 0
    · rw [if_pos hn, hn]
      exact ⟨fun _ => Or.inr (boundary_zero _), fun _ => rfl⟩
    · rw [if_neg hn, boundary_cons hn, bytes_cons]
      by_cases hc : c.utf8Size ≤ n
      · rw [if_pos hc, Option.isSome_map, ih]
        constructor
        · rintro (h | h)
          · exact Or.inl (by omega)
          · exact Or.inr ⟨hc, h⟩
        · rintro (h | ⟨-, h⟩)
          · exact Or.inl (by omega)
          · exact Or.inr h
      · rw [if_neg hc]
        constructor
        · intro h
          cases h
        · rintro (h | ⟨h, -⟩)
          · omega
          · exact absurd h hc

/-- What fits whole is kept, and the cut goes on behind it. -/
theorem cut_append {l : List Char} (hn : bytes l ≤ n) : cut n (l ++ rest) = (cut (n - bytes l) rest).map (l ++ ·) := by
  induction l generalizing n with
  | nil =>
    rw [bytes_nil, Nat.sub_zero]
    exact Option.map_id'.symm
  | cons c l ih =>
    have hpos := c.utf8Size_pos
    rw [bytes_cons] at hn
    have hrest : bytes l ≤ n - c.utf8Size := by omega
    rw [List.cons_append, cut, if_neg (by omega), if_pos (by omega), ih hrest, Option.map_map, bytes_cons, Nat.sub_sub]
    rfl

/-- Between the bytes of one letter, again and again, there is no cut. -/
theorem cut_replicate {k : ℕ} (hn : n % c.utf8Size ≠ 0) (hlt : n < k * c.utf8Size) :
    cut n (List.replicate k c ++ rest) = none := by
  induction k generalizing n with
  | zero => omega
  | succ k ih =>
    have hzero : n ≠ 0 := by
      rintro rfl
      exact hn (Nat.zero_mod _)
    rw [List.replicate_succ, List.cons_append, cut, if_neg hzero]
    by_cases hc : c.utf8Size ≤ n
    · rw [Nat.succ_mul] at hlt
      rw [if_pos hc, ih (by rwa [← Nat.mod_eq_sub_mod hc]) (by omega), Option.map_none]
    · rw [if_neg hc]
/-! ## The bytes themselves -/

/-- `str::as_bytes`. -/
def as_bytes (text : List Char) : List UInt8 := text.flatMap String.utf8EncodeChar

/-- `String::from_utf8`. -/
def from_utf8 (bytes : List UInt8) : Option String := String.fromUTF8? bytes.toByteArray

/-- `str::is_char_boundary`, where this is left: the end, or no continuation byte. -/
def is_char_boundary : List UInt8 → Bool
  | [] => true
  | b :: _ => b.toNat < 128 || 192 ≤ b.toNat

variable {pre post : List UInt8} {a : UInt8}

/-- The first byte of a character continues none, and an ASCII byte is a whole character. -/
theorem utf8EncodeChar_cases (c : Char) : ∃ first more, String.utf8EncodeChar c = first :: more ∧
    (first.toNat < 128 ∨ 192 ≤ first.toNat) ∧ (∀ b ∈ more, 128 ≤ b.toNat) ∧ (first.toNat < 128 → more = []) := by
  have hlead : ∀ n, 192 ≤ n → n < 256 → 192 ≤ (UInt8.ofNat n).toNat := by
    intro n hle hlt
    rw [UInt8.toNat_ofNat']
    omega
  have hmore : ∀ n, 128 ≤ (UInt8.ofNat (n % 64 + 128)).toNat := by
    intro n
    rw [UInt8.toNat_ofNat']
    omega
  unfold String.utf8EncodeChar
  dsimp only
  split
  · exact ⟨_, _, rfl, .inl (by rw [UInt8.toNat_ofNat']; omega), nofun, fun _ => rfl⟩
  · split
    · have hfirst := hlead (c.val.toNat / 64 % 32 + 192) (by omega) (by omega)
      exact ⟨_, _, rfl, .inr hfirst, List.forall_mem_cons.mpr ⟨hmore _, nofun⟩, fun h => by omega⟩
    · split
      · have hfirst := hlead (c.val.toNat / 4096 % 16 + 224) (by omega) (by omega)
        exact ⟨_, _, rfl, .inr hfirst,
          List.forall_mem_cons.mpr ⟨hmore _, List.forall_mem_cons.mpr ⟨hmore _, nofun⟩⟩, fun h => by omega⟩
      · have hfirst := hlead (c.val.toNat / 262144 % 8 + 240) (by omega) (by omega)
        exact ⟨_, _, rfl, .inr hfirst,
          List.forall_mem_cons.mpr ⟨hmore _, List.forall_mem_cons.mpr ⟨hmore _, List.forall_mem_cons.mpr ⟨hmore _, nofun⟩⟩⟩,
          fun h => by omega⟩

theorem boundary_as_bytes (text : List Char) : is_char_boundary (as_bytes text) = true := by
  cases text with
  | nil => rfl
  | cons c text =>
    obtain ⟨first, more, hc, hfirst, -, -⟩ := utf8EncodeChar_cases c
    rw [as_bytes, List.flatMap_cons, hc, List.cons_append, is_char_boundary, Bool.or_eq_true, decide_eq_true_eq,
      decide_eq_true_eq]
    exact hfirst

/-- **A text can be cut behind an ASCII byte.** -/
theorem boundary_of_ascii (ha : a.toNat < 128) (h : as_bytes text = pre ++ a :: post) :
    is_char_boundary post = true := by
  induction text generalizing pre with
  | nil => exact absurd h (by simp [as_bytes])
  | cons c text ih =>
    obtain ⟨first, more, hc, -, hmore, hone⟩ := utf8EncodeChar_cases c
    rw [as_bytes, List.flatMap_cons, ← as_bytes, hc, List.cons_append] at h
    cases pre with
    | nil =>
      obtain ⟨rfl, hpost⟩ := List.cons.inj h
      rw [hone ha, List.nil_append] at hpost
      rw [← hpost]
      exact boundary_as_bytes text
    | cons b pre =>
      obtain ⟨-, htail⟩ := List.cons.inj h
      rcases List.append_eq_append_iff.mp htail with ⟨as, -, htext⟩ | ⟨bs, hbs, htext⟩
      · exact ih htext
      · cases bs with
        | nil => exact @ih [] htext.symm
        | cons b' bs =>
          -- inside a character there is no ASCII byte
          have hab : a = b' := (List.cons.inj htext).1
          have hb' := hmore b' (hbs ▸ List.mem_append_right _ List.mem_cons_self)
          rw [← hab] at hb'
          omega

/-- What is read of bytes is the text they are of. -/
theorem from_utf8_eq_some_iff {bytes : List UInt8} :
    from_utf8 bytes = some (String.ofList text) ↔ bytes = as_bytes text := by
  have hbytes : (String.ofList text).toByteArray = (as_bytes text).toByteArray := String.toByteArray_ofList
  unfold from_utf8 String.fromUTF8?
  constructor
  · intro h
    split at h
    · have heq : bytes.toByteArray = (String.ofList text).toByteArray := congrArg String.toByteArray (Option.some.inj h)
      rw [hbytes] at heq
      rw [← List.toList_data_toByteArray (l := bytes), heq, List.toList_data_toByteArray]
    · cases h
  · rintro rfl
    have hvalid : (as_bytes text).toByteArray.IsValidUTF8 := ⟨text, rfl⟩
    rw [dif_pos hvalid]
    exact congrArg some (String.toByteArray_inj.mp hbytes.symm)

/-- Two texts with the same bytes are one text. -/
theorem as_bytes_inj (h : as_bytes text = as_bytes rest) : text = rest := by
  have hread := from_utf8_eq_some_iff.mpr h
  rw [from_utf8_eq_some_iff.mpr rfl] at hread
  exact String.ofList_injective (Option.some.inj hread)

end CrewSync.Utf8
