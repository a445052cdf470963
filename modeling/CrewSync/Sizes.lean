/-
Sizes as they are printed and as they are typed: `format_size` and `parse_size` of
`store/jetstream.rs`.

What is printed may be typed into `team stream` again. A size its unit divides is printed
in full, any other with one place after the point, and that is no size to type. So what is
read back is what was printed, or nothing is (`sizes_read_back`).
-/
import CrewSync.BusUrl
import CrewSync.DashboardGrant
import CrewSync.Quotas

set_option autoImplicit false

namespace CrewSync.Sizes

open Auth Quotas

/-- What may follow the digits, and what it multiplies by. -/
def units : List (String × ℤ) :=
  [("", 1), ("b", 1), ("k", 1024), ("kb", 1024), ("kib", 1024), ("m", 1024 * 1024), ("mb", 1024 * 1024),
    ("mib", 1024 * 1024), ("g", 1024 * 1024 * 1024), ("gb", 1024 * 1024 * 1024), ("gib", 1024 * 1024 * 1024)]

/-- `parse_size`. -/
def parse_size (raw : String) : Except String Int64 :=
  let text := (trim raw).toList
  let digits := text.takeWhile Char.isDigit
  let unit := String.ofList ((trim (String.ofList (text.dropWhile Char.isDigit))).toList.map Char.toLower)
  if digits = [] then
    .error ("'" ++ raw ++ "' is not a size; write bytes, or a number with KiB, MiB or GiB")
  else match parse_i64 (String.ofList digits) with
    | none => .error ("'" ++ raw ++ "' is too large a number")
    | some number => match units.lookup unit with
      | none => .error ("'" ++ raw ++ "': unknown unit '" ++ unit ++ "'; use bytes, KiB, MiB or GiB")
      | some m =>
        if number * m ≤ I64_MAX then .ok (Int64.ofInt (number * m))
        else .error ("'" ++ raw ++ "' is too large a size")

/-- A size that is printed in full. -/
def Whole (bytes : Int64) : Prop := 0 ≤ bytes ∧ (bytes < 1024 * 1024 ∨ bytes % 1024 = 0)

/-- What a number with one place looks like: `{:.1}`. -/
def OnePlace (text : String) : Prop := ∃ ds x, text.toList = ds ++ ['.', x] ∧ ∀ c ∈ ds, c.isDigit = true

/-- The units that are printed. -/
def printed : List (String × ℤ) := [("B", 1), ("KiB", 1024), ("MiB", 1024 * 1024), ("GiB", 1024 * 1024 * 1024)]

/-! ## What is read of a text -/

section Text

variable {raw u : String} {ds r : List Char} {x : Char} {n : ℕ} {m : ℤ}

/-- A text of digits and what follows them, with no blank at either end. -/
theorem read_parts (hraw : raw.toList = ds ++ x :: (r ++ ['B'])) (hds : ∀ c ∈ ds, c.isDigit = true)
    (hx : x.isDigit = false) (hfirst : ds = [] → is_whitespace x = false) :
    trim raw = raw ∧ raw.toList.takeWhile Char.isDigit = ds ∧
      raw.toList.dropWhile Char.isDigit = x :: (r ++ ['B']) := by
  have hblank : ∀ c : Char, c.isDigit = true → is_whitespace c = false := by
    intro c hc
    simp only [Char.isDigit, Bool.and_eq_true, decide_eq_true_eq] at hc
    have hlow : 48 ≤ c.toNat := hc.1
    have hhigh : c.toNat ≤ 57 := hc.2
    simp only [is_whitespace, Bool.or_eq_false_iff, Bool.and_eq_false_iff, decide_eq_false_iff_not,
      beq_eq_false_iff_ne, ne_eq]
    omega
  have hlast : BusUrl.Unblank raw.toList := by
    intro rest c h
    rw [hraw, ← List.cons_append, ← List.append_assoc] at h
    rw [← List.singleton_inj.mp (List.append_inj' h rfl).2]
    decide
  refine ⟨?_, ?_, ?_⟩
  · cases ds with
    | nil => exact BusUrl.trim_eq_self hraw (hfirst rfl) hlast
    | cons d ds => exact BusUrl.trim_eq_self hraw (hblank d (hds d List.mem_cons_self)) hlast
  · rw [hraw, List.takeWhile_append_of_pos hds, List.takeWhile_cons_of_neg (by simp [hx]), List.append_nil]
  · rw [hraw, List.dropWhile_append_of_pos hds, List.dropWhile_cons_of_neg (by simp [hx])]

/-- What is printed in full is read back. -/
theorem parse_printed (hu : (u, m) ∈ printed) (hraw : raw = toString n ++ (" " ++ u)) (hfit : n * m ≤ I64_MAX) :
    parse_size raw = .ok (Int64.ofInt (n * m)) := by
  have hdigits : ∀ c ∈ Nat.toDigits 10 n, c.isDigit = true :=
    fun c hc => Nat.isDigit_of_mem_toDigits (by decide) (by decide) hc
  obtain ⟨v, hv, hunit, hpos⟩ : ∃ v, (" " ++ u).toList = ' ' :: v ++ ['B'] ∧
      units.lookup (String.ofList ((trim (String.ofList (" " ++ u).toList)).toList.map Char.toLower)) = some m ∧
        1 ≤ m := by
    simp only [printed, List.mem_cons, List.not_mem_nil, or_false, Prod.mk.injEq] at hu
    rcases hu with ⟨rfl, rfl⟩ | ⟨rfl, rfl⟩ | ⟨rfl, rfl⟩ | ⟨rfl, rfl⟩
    · exact ⟨[], by decide, by decide, by decide⟩
    · exact ⟨['K', 'i'], by decide, by decide, by decide⟩
    · exact ⟨['M', 'i'], by decide, by decide, by decide⟩
    · exact ⟨['G', 'i'], by decide, by decide, by decide⟩
  have hlist : raw.toList = Nat.toDigits 10 n ++ ' ' :: (v ++ ['B']) := by
    rw [hraw, String.toList_append, hv, Nat.toString_eq_ofList_toDigits, String.toList_ofList, List.cons_append]
  obtain ⟨htrim, htake, hdrop⟩ := read_parts hlist hdigits (by decide) fun h => absurd h Nat.toDigits_ne_nil
  have hn : n ≤ I64_MAX := by
    have hle : (n : ℤ) * 1 ≤ n * m := Int.mul_le_mul_of_nonneg_left hpos (Int.natCast_nonneg n)
    omega
  rw [hv, List.cons_append] at hunit
  unfold parse_size
  simp only [htrim, htake, hdrop, if_neg Nat.toDigits_ne_nil, DashboardGrant.parse_i64_toDigits, if_pos hn, hunit,
    if_pos hfit]

/-- A point or a sign is in no unit. -/
theorem parse_refused {c : Char} (hc : c = '.' ∨ c = '-') (hraw : raw.toList = ds ++ c :: (r ++ ['B']))
    (hds : ∀ c ∈ ds, c.isDigit = true) (b : Int64) : parse_size raw ≠ .ok b := by
  obtain ⟨hdigit, hblank, hlower⟩ : c.isDigit = false ∧ is_whitespace c = false ∧ c.toLower = c := by
    rcases hc with rfl | rfl <;> decide
  obtain ⟨htrim, htake, hdrop⟩ := read_parts hraw hds hdigit fun _ => hblank
  have hunit : ∀ s : String, s.toList.head? = some c → units.lookup s = none := by
    have hno : ∀ p ∈ units, p.1.toList.head? ≠ some c := by
      rcases hc with rfl | rfl <;> decide
    exact fun s hs => List.lookup_eq_none_iff.mpr fun p hp => bne_iff_ne.mpr fun h => hno p hp (by rw [← h, hs])
  intro hok
  unfold parse_size at hok
  simp only [htrim, htake, hdrop] at hok
  split at hok
  · cases hok
  · split at hok
    · cases hok
    · rw [hunit] at hok
      · cases hok
      · rw [String.toList_ofList, Auth.trim_toList, Trims.trim, String.toList_ofList,
          List.dropWhile_cons_of_neg (by simp [hblank]), ← List.cons_append,
          List.rdropWhile_concat_neg _ _ _ (by decide), List.cons_append, List.map_cons, hlower]
        rfl

end Text

section Law

variable {decimal : Int64 → Int64 → String} {b k : Int64} {u : String}

/-- What is printed in a unit that divides it. -/
theorem printed_whole (hu : (u, k.toInt) ∈ printed) (hk : k ≠ -1) (hb : 0 ≤ b.toInt) (hmod : k.toInt ∣ b.toInt) :
    parse_size (toString (b / k) ++ (" " ++ u)) = .ok b := by
  have hpos : 0 < k.toInt := by
    simp only [printed, List.mem_cons, List.not_mem_nil, or_false, Prod.mk.injEq] at hu
    omega
  have hdiv : (b / k).toInt = b.toInt / k.toInt := by
    rw [Int64.toInt_div_of_ne_right b k hk, Int.tdiv_eq_ediv_of_nonneg hb]
  obtain ⟨n, hn⟩ := Int.eq_ofNat_of_zero_le (Int.ediv_nonneg hb hpos.le)
  have hback : (n : ℤ) * k.toInt = b.toInt := by
    rw [← hn]
    exact Int.ediv_mul_cancel hmod
  have htext : toString (b / k) = toString n := by
    have hshow : toString (b / k) = toString (b / k).toInt := rfl
    rw [hshow, hdiv, hn]
    rfl
  rw [htext, parse_printed hu rfl (by rw [hback]; exact Int.le_of_lt_add_one b.toInt_lt), hback, Int64.ofInt_toInt]

theorem mod_eq_zero_iff : b % k = 0 ↔ k.toInt ∣ b.toInt := by
  rw [← Int64.toInt_inj, Int64.toInt_mod, Int64.toInt_zero, Int.dvd_iff_tmod_eq_zero]

theorem whole_iff : Whole b ↔ 0 ≤ b.toInt ∧ (b.toInt < 1048576 ∨ 1024 ∣ b.toInt) := by
  unfold Whole
  rw [Int64.le_iff_toInt_le, Int64.lt_iff_toInt_lt, mod_eq_zero_iff]
  rfl

/-- What is printed with one place. -/
theorem rounded_refused {text : String} (h : OnePlace text) (hu : ∃ v, u.toList = v ++ ['B']) (b : Int64) :
    parse_size (text ++ u) ≠ .ok b := by
  obtain ⟨ds, x, htext, hds⟩ := h
  obtain ⟨v, hv⟩ := hu
  exact parse_refused (r := x :: v) (Or.inl rfl) (by simp [htext, hv]) hds b

/-- **What is printed is read back as itself, or not at all.** -/
theorem sizes_read_back (hdecimal : ∀ b k, 0 ≤ b → 0 < k → OnePlace (decimal b k)) (b b' : Int64) :
    parse_size (format_size decimal b) = .ok b' ↔ b' = b ∧ Whole b := by
  have hwhole : ∀ {t}, parse_size t = .ok b → Whole b → (parse_size t = .ok b' ↔ b' = b ∧ Whole b) :=
    fun h hw => by rw [h, Except.ok.injEq, eq_comm, and_iff_left hw]
  have hnot : ∀ {t}, (∀ b', parse_size t ≠ .ok b') → ¬Whole b → (parse_size t = .ok b' ↔ b' = b ∧ Whole b) :=
    fun h hw => iff_of_false (h b') fun hb => hw hb.2
  have hG : (1024 * 1024 * 1024 : Int64).toInt = 1073741824 := by decide
  have hM : (1024 * 1024 : Int64).toInt = 1048576 := by decide
  have hK : (1024 : Int64).toInt = 1024 := by decide
  have hpos : 1048576 ≤ b.toInt → 0 ≤ b := fun h => Int64.le_iff_toInt_le.mpr (by rw [Int64.toInt_zero]; omega)
  unfold format_size
  simp only [ge_iff_le, Int64.le_iff_toInt_le, mod_eq_zero_iff, hG, hM, hK]
  split_ifs with hg hm hk hg' hm'
  · exact hwhole (printed_whole (u := "GiB") (by rw [hG]; decide) (by decide) (by omega) (by rw [hG]; exact hg.2))
      (whole_iff.mpr (by omega))
  · exact hwhole (printed_whole (u := "MiB") (by rw [hM]; decide) (by decide) (by omega) (by rw [hM]; exact hm.2))
      (whole_iff.mpr (by omega))
  · exact hwhole (printed_whole (u := "KiB") (by rw [hK]; decide) (by decide) (by omega) (by rw [hK]; exact hk.2))
      (whole_iff.mpr (by omega))
  · exact hnot (rounded_refused (hdecimal b _ (hpos (by omega)) (by decide)) ⟨[' ', 'G', 'i'], by decide⟩)
      (by rw [whole_iff]; omega)
  · exact hnot (rounded_refused (hdecimal b _ (hpos (by omega)) (by decide)) ⟨[' ', 'M', 'i'], by decide⟩)
      (by rw [whole_iff]; omega)
  · by_cases hb : 0 ≤ b.toInt
    · have hone : b / 1 = b := Int64.div_one
      have hread := printed_whole (b := b) (k := 1) (u := "B") (by decide) (by decide) hb (Int.one_dvd _)
      rw [hone] at hread
      exact hwhole hread (whole_iff.mpr (by omega))
    · obtain ⟨n, hn⟩ := Int.eq_negSucc_of_lt_zero (by omega : b.toInt < 0)
      have hsigned : (toString b ++ " B").toList = [] ++ '-' :: ((Nat.toDigits 10 (n + 1) ++ [' ']) ++ ['B']) := by
        have htext : (toString b).toList = DashboardGrant.i64_text b.toInt := rfl
        rw [String.toList_append, htext, hn, DashboardGrant.i64_text_negSucc]
        simp
      exact hnot (parse_refused (Or.inr rfl) hsigned fun _ h => absurd h List.not_mem_nil) (by rw [whole_iff]; omega)

end Law

/-- The place after the point, cut off: it is exact in what follows. -/
def one_place (b k : Int64) : String :=
  toString (b.toInt.toNat / k.toInt.toNat) ++ "." ++ (b.toInt.toNat * 10 / k.toInt.toNat % 10).digitChar.toString

/-- A gibibyte and a half, and a byte more, which is printed the same but for the unit. -/
theorem sizes_read_back_half :
    parse_size (format_size one_place 1610612736) = .ok 1610612736 ∧
      parse_size (format_size one_place 1610612737) ≠ .ok 1610612737 := by
  have hplace : ∀ b k : Int64, 0 ≤ b → 0 < k → OnePlace (one_place b k) := fun b k _ _ =>
    ⟨Nat.toDigits 10 (b.toInt.toNat / k.toInt.toNat), (b.toInt.toNat * 10 / k.toInt.toNat % 10).digitChar,
      by simp [one_place], fun c hc => Nat.isDigit_of_mem_toDigits (by decide) (by decide) hc⟩
  refine ⟨(sizes_read_back hplace _ _).mpr ⟨rfl, whole_iff.mpr (by decide)⟩, fun h => ?_⟩
  exact absurd (whole_iff.mp ((sizes_read_back hplace _ _).mp h).2) (by decide)

end CrewSync.Sizes
