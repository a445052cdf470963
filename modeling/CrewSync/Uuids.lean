/-
UUIDs as text: the two ways the `uuid` crate writes one, `simple` (32 digits) and `Display`
(the same digits in five groups with a hyphen between them).

Taking the hyphens out of the second gives the first, and either one tells which UUID it is.
-/
import CrewSync.References

set_option autoImplicit false

namespace CrewSync.Uuids

open References

/-! ## Hexadecimal bytes -/

/-- Two lower-case digits a byte. -/
def hex_bytes (bytes : List UInt8) : List Char :=
  bytes.flatMap fun b => [hex_digit (b.toNat / 16), hex_digit (b.toNat % 16)]

/-- `hex::encode`, of bytes. -/
theorem hex_encode_eq (s : String) : hex_encode s = String.ofList (hex_bytes s.toUTF8.toList) := rfl

theorem hex_bytes_append (l l' : List UInt8) : hex_bytes (l ++ l') = hex_bytes l ++ hex_bytes l' :=
  List.flatMap_append

theorem hex_bytes_length (l : List UInt8) : (hex_bytes l).length = 2 * l.length := by
  induction l with
  | nil => rfl
  | cons b l ih =>
    unfold hex_bytes at ih ⊢
    rw [List.flatMap_cons, List.length_append, ih, List.length_cons]
    simp only [List.length_cons, List.length_nil]
    omega

/-- A character that is no digit is not among the digits. -/
theorem not_mem_hex_bytes {c : Char} (hc : ∀ n < 16, hex_digit n ≠ c) (l : List UInt8) : c ∉ hex_bytes l := by
  intro h
  obtain ⟨b, -, hb⟩ := List.mem_flatMap.mp h
  have := b.toNat_lt
  rcases List.mem_pair.mp hb with h | h
  · exact hc _ (by omega) h.symm
  · exact hc _ (by omega) h.symm

/-! ## UUIDs -/

/-- `uuid::Uuid`: sixteen bytes. -/
@[ext]
structure Uuid where
  bytes : List UInt8
  size : bytes.length = 16
  deriving DecidableEq

namespace Uuid

/-- `Uuid::simple`, as it is written. -/
def simple (u : Uuid) : List Char := hex_bytes u.bytes

/-- The five groups of the bytes. -/
def groups (u : Uuid) : List (List UInt8) :=
  [u.bytes.take 4, (u.bytes.drop 4).take 2, (u.bytes.drop 6).take 2, (u.bytes.drop 8).take 2, u.bytes.drop 10]

/-- `Uuid`, as it is written. -/
def display (u : Uuid) : List Char := ['-'].intercalate (u.groups.map hex_bytes)

theorem simple_length (u : Uuid) : u.simple.length = 32 := by
  rw [simple, hex_bytes_length, u.size]

theorem simple_inj {u v : Uuid} (h : u.simple = v.simple) : u = v :=
  Uuid.ext (hex_bytes_inj h)

theorem groups_flatten (u : Uuid) : u.groups.flatten = u.bytes := by
  have hjoin : ∀ (l : List UInt8) (m n : ℕ), (l.drop m).take n ++ l.drop (m + n) = l.drop m := by
    intro l m n
    rw [← List.drop_drop, List.take_append_drop]
  simp only [groups, List.flatten_cons, List.flatten_nil, List.append_nil]
  rw [hjoin u.bytes 8 2, hjoin u.bytes 6 2, hjoin u.bytes 4 2, List.take_append_drop]

end Uuid

/-! ## Hyphens -/

theorem hex_digit_ne_hyphen : ∀ n < 16, hex_digit n ≠ '-' := by decide

/-- No digit is a hyphen. -/
theorem filter_hex_bytes (l : List UInt8) : (hex_bytes l).filter (fun c => c != '-') = hex_bytes l := by
  refine List.filter_eq_self.mpr fun c hc => ?_
  rw [bne_iff_ne]
  rintro rfl
  exact not_mem_hex_bytes hex_digit_ne_hyphen l hc

/-- Without the hyphens between them the groups stand behind one another. -/
theorem filter_intercalate (groups : List (List UInt8)) :
    (['-'].intercalate (groups.map hex_bytes)).filter (fun c => c != '-') = hex_bytes groups.flatten := by
  have hnone : ['-'].filter (fun c => c != '-') = [] := rfl
  induction groups with
  | nil => rfl
  | cons g groups ih =>
    cases groups with
    | nil => simp [List.intercalate, filter_hex_bytes]
    | cons g' groups =>
      rw [List.map_cons, List.map_cons, List.intercalate_cons_cons, List.filter_append, List.filter_append, filter_hex_bytes,
        ← List.map_cons, ih, hnone, List.append_nil, ← hex_bytes_append]
      rfl

theorem Uuid.filter_display (u : Uuid) : u.display.filter (fun c => c != '-') = u.simple := by
  rw [display, filter_intercalate, groups_flatten, simple]

theorem Uuid.display_inj {u v : Uuid} (h : u.display = v.display) : u = v := by
  apply simple_inj
  rw [← u.filter_display, h, v.filter_display]

/-- What is neither a hyphen nor a digit is not in the text. -/
theorem Uuid.not_mem_display {c : Char} (hhyphen : c ≠ '-') (hc : ∀ n < 16, hex_digit n ≠ c) (u : Uuid) :
    c ∉ u.display := by
  intro h
  have hmem : c ∈ u.simple := by
    rw [← u.filter_display]
    exact List.mem_filter.mpr ⟨h, bne_iff_ne.mpr hhyphen⟩
  exact not_mem_hex_bytes hc _ hmem

end CrewSync.Uuids
