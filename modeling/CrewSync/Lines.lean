/-
Text files of **lines**, and what is left of one that was cut.

A file is bytes; its text is what these decode to as UTF-8. A line is ended by a line feed,
and a carriage return before it belongs to the ending. What a writer adds is `terminated`
lines. A write that was cut short leaves a prefix of it, which is some of its lines and a
piece of the next (`prefix_terminated`), provided that it was not cut inside a character:
then there is no text at all, of the whole file.

Nothing here knows what the lines say.
-/
import Mathlib.Data.List.Basic
import CrewSync.Utf8

set_option autoImplicit false

namespace CrewSync.Lines

/-! ## Lines -/

/-- `str::lines`. -/
def lines : List Char → List (List Char)
  | [] => []
  | c :: cs =>
    if c = '\n' then [] :: lines cs
    else if c = '\r' ∧ cs.head? = some '\n' then lines cs
    else match lines cs with
      | [] => [[c]]
      | l :: ls => (c :: l) :: ls

/-- The text of these lines, each of them ended. -/
def terminated (ls : List (List Char)) : List Char := ls.flatMap fun l => l ++ ['\n']

/-- No line ending is in it. -/
def Plain (l : List Char) : Prop := ∀ c ∈ l, c ≠ '\n' ∧ c ≠ '\r'

variable {l p tail : List Char} {ls ks : List (List Char)}

theorem Plain.nil : Plain [] := fun _ h => absurd h List.not_mem_nil

theorem Plain.prefix_ (h : Plain l) (hp : p <+: l) : Plain p := fun c hc => h c (hp.subset hc)

@[simp] theorem terminated_nil : terminated [] = [] := rfl

theorem terminated_cons (l : List Char) (ls : List (List Char)) :
    terminated (l :: ls) = l ++ '\n' :: terminated ls := by
  rw [terminated, List.flatMap_cons, List.append_assoc]
  rfl

theorem terminated_append (ls ks : List (List Char)) :
    terminated (ls ++ ks) = terminated ls ++ terminated ks := List.flatMap_append

/-- Lines joined by line feeds, and one at the end. -/
theorem intercalate_terminated (l : List Char) (ls : List (List Char)) :
    List.intercalate ['\n'] (l :: ls) ++ ['\n'] = terminated (l :: ls) := by
  induction ls generalizing l with
  | nil => simp [List.intercalate, terminated]
  | cons k ks ih =>
    have hrest := ih k
    rw [List.intercalate, List.intersperse_cons_cons, List.flatten_cons, List.flatten_cons,
      terminated_cons, ← hrest]
    simp [List.intercalate]

theorem lines_line (h : Plain l) (rest : List Char) : lines (l ++ '\n' :: rest) = l :: lines rest := by
  induction l with
  | nil => rw [List.nil_append, lines, if_pos rfl]
  | cons c l ih =>
    obtain ⟨hn, hr⟩ := h c List.mem_cons_self
    rw [List.cons_append, lines, if_neg hn, if_neg fun hcr => hr hcr.1,
      ih fun x hx => h x (List.mem_cons_of_mem _ hx)]

theorem lines_last (h : Plain l) (hne : l ≠ []) : lines l = [l] := by
  induction l with
  | nil => exact absurd rfl hne
  | cons c l ih =>
    obtain ⟨hn, hr⟩ := h c List.mem_cons_self
    rw [lines, if_neg hn, if_neg fun hcr => hr hcr.1]
    by_cases hl : l = []
    · rw [hl]
      rfl
    · rw [ih (fun x hx => h x (List.mem_cons_of_mem _ hx)) hl]

/-- A last line that is not ended is a line if it is not empty. -/
def last (tail : List Char) : List (List Char) := if tail = [] then [] else [tail]

/-- The lines of a text are those it was written with. -/
theorem lines_terminated (hls : ∀ l ∈ ls, Plain l) (htail : Plain tail) :
    lines (terminated ls ++ tail) = ls ++ last tail := by
  induction ls with
  | nil =>
    rw [terminated_nil, List.nil_append, List.nil_append, last]
    by_cases hne : tail = []
    · rw [if_pos hne, hne, lines]
    · rw [if_neg hne, lines_last htail hne]
  | cons l ls ih =>
    rw [terminated_cons, List.append_assoc, List.cons_append, lines_line (hls l List.mem_cons_self),
      ih fun k hk => hls k (List.mem_cons_of_mem _ hk), List.cons_append]

/-! ## Lines of other endings -/

/-- The line without a carriage return at its end. -/
def strip_return (l : List Char) : List Char := if l.getLast? = some '\r' then l.dropLast else l

theorem strip_return_cons (hl : l ≠ []) (c : Char) : strip_return (c :: l) = c :: strip_return l := by
  unfold strip_return
  rw [List.getLast?_cons_of_ne_nil hl, List.dropLast_cons_of_ne_nil hl]
  split <;> rfl

/-- No line holds a line feed. -/
theorem not_mem_of_mem_lines {text : List Char} (h : l ∈ lines text) : '\n' ∉ l := by
  induction text generalizing l with
  | nil => exact absurd h List.not_mem_nil
  | cons c cs ih =>
    rw [lines] at h
    by_cases hn : c = '\n'
    · rw [if_pos hn] at h
      rcases List.mem_cons.mp h with rfl | h
      · exact List.not_mem_nil
      · exact ih h
    · rw [if_neg hn] at h
      split at h
      · exact ih h
      · split at h
        · rw [List.mem_singleton.mp h]
          simpa using fun heq : '\n' = c => hn heq.symm
        · rename_i k ks hks
          rcases List.mem_cons.mp h with rfl | h
          · rw [List.mem_cons, not_or]
            exact ⟨fun heq => hn heq.symm, ih (hks ▸ List.mem_cons_self)⟩
          · exact ih (hks ▸ List.mem_cons_of_mem _ h)

/-- A line that is ended loses the carriage return before its end. -/
theorem lines_ended (h : '\n' ∉ l) (rest : List Char) :
    lines (l ++ '\n' :: rest) = strip_return l :: lines rest := by
  induction l with
  | nil => rw [List.nil_append, lines, if_pos rfl]; rfl
  | cons c l ih =>
    have hc : c ≠ '\n' := fun heq => h (heq ▸ List.mem_cons_self)
    have hl : '\n' ∉ l := fun hmem => h (List.mem_cons_of_mem _ hmem)
    rw [List.cons_append, lines, if_neg hc]
    by_cases hnil : l = []
    · rw [hnil, List.nil_append, List.head?_cons]
      by_cases hr : c = '\r'
      · rw [if_pos ⟨hr, rfl⟩, lines, if_pos rfl, hr]
        rfl
      · rw [if_neg fun hand => hr hand.1, lines, if_pos rfl]
        have hstrip : strip_return [c] = [c] := by
          rw [strip_return, if_neg]
          intro hlast
          exact hr (Option.some.inj hlast)
        rw [hstrip]
    · have hhead : ¬(c = '\r' ∧ (l ++ '\n' :: rest).head? = some '\n') := by
        rintro ⟨-, hhead⟩
        cases l with
        | nil => exact hnil rfl
        | cons d l =>
          have hd : d = '\n' := Option.some.inj hhead
          exact hl (hd ▸ List.mem_cons_self)
      rw [if_neg hhead, ih hl, strip_return_cons hnil]

theorem lines_terminated_strip (hls : ∀ l ∈ ls, '\n' ∉ l) : lines (terminated ls) = ls.map strip_return := by
  induction ls with
  | nil => rfl
  | cons l ls ih =>
    rw [terminated_cons, lines_ended (hls l List.mem_cons_self),
      ih fun k hk => hls k (List.mem_cons_of_mem _ hk), List.map_cons]

/-! ## A write that is cut -/

/-- A prefix of lines is the first of them, and a piece of the next. -/
theorem prefix_terminated (h : p <+: terminated ks) :
    ∃ n q, p = terminated (ks.take n) ++ q ∧ (q = [] ∨ ∃ k, ks[n]? = some k ∧ q <+: k) := by
  induction ks generalizing p with
  | nil => exact ⟨0, [], by simpa using h, Or.inl rfl⟩
  | cons k ks ih =>
    rw [terminated_cons] at h
    by_cases hlen : p.length ≤ k.length
    · -- it does not get past the first line
      refine ⟨0, p, by simp, Or.inr ⟨k, rfl, ?_⟩⟩
      exact List.prefix_of_prefix_length_le h (List.prefix_append _ _) hlen
    · have hk : k ++ ['\n'] <+: p := by
        refine List.prefix_of_prefix_length_le ?_ h ?_
        · exact ⟨terminated ks, by simp⟩
        · rw [List.length_append, List.length_singleton]
          omega
      obtain ⟨rest, rfl⟩ := hk
      have hrest : rest <+: terminated ks := by
        obtain ⟨more, hmore⟩ := h
        refine ⟨more, ?_⟩
        rw [List.append_assoc, List.append_assoc, List.append_cancel_left_eq] at hmore
        exact (List.cons.inj hmore).2
      obtain ⟨n, q, hq, hpiece⟩ := ih hrest
      refine ⟨n + 1, q, ?_, hpiece⟩
      rw [List.take_succ_cons, terminated_cons, hq]
      simp

/-! ## The bytes -/

/-- A text as UTF-8. -/
def bytes (text : List Char) : ByteArray := (String.ofList text).toUTF8

theorem bytes_eq (l : List Char) : bytes l = l.utf8Encode := String.toByteArray_ofList

@[simp] theorem bytes_nil : bytes [] = ByteArray.empty := rfl

theorem bytes_append (l p : List Char) : bytes (l ++ p) = bytes l ++ bytes p := by
  rw [bytes_eq, bytes_eq, bytes_eq, List.utf8Encode_append]

theorem size_bytes (l : List Char) : (bytes l).size = Utf8.bytes l := by
  induction l with
  | nil => rfl
  | cons c l ih =>
    have hone : (bytes [c]).size = c.utf8Size := String.utf8ByteSize_singleton
    have happend : bytes (c :: l) = bytes [c] ++ bytes l := bytes_append [c] l
    rw [happend, ByteArray.size_append, hone, ih, Utf8.bytes_cons]

/-- Text that was written is read. -/
theorem fromUTF8_bytes (l : List Char) : String.fromUTF8? (bytes l) = some (String.ofList l) := by
  have hvalid : (bytes l).IsValidUTF8 := by
    rw [bytes_eq]
    exact ByteArray.isValidUTF8_utf8Encode
  rw [String.fromUTF8?, dif_pos hvalid]
  rfl

/-- A file is read when it is text. -/
theorem readable_iff {file : ByteArray} : (String.fromUTF8? file).isSome = true ↔ file.IsValidUTF8 := by
  unfold String.fromUTF8?
  split
  · rename_i h
    simp [h]
  · rename_i h
    simp [h]

/-- What is no text stays none, whatever text stands before it. -/
theorem valid_append_iff (l : List Char) (b : ByteArray) : (bytes l ++ b).IsValidUTF8 ↔ b.IsValidUTF8 := by
  rw [bytes_eq]
  induction l with
  | nil => rw [List.utf8Encode_nil, ByteArray.empty_append]
  | cons c l ih =>
    rw [List.utf8Encode_cons, ByteArray.append_assoc, ByteArray.isValidUTF8_utf8Encode_singleton_append_iff]
    exact ih

/-- The cut is at the boundary of a character exactly when it leaves a text. -/
theorem boundary_iff {n : ℕ} (hn : n ≤ (bytes l).size) :
    (String.Pos.Raw.mk n).isValid (String.ofList l) = true ↔ ((bytes l).extract 0 n).IsValidUTF8 := by
  rw [String.Pos.Raw.isValid_eq_true_iff, String.Pos.Raw.isValid_iff_isValidUTF8_extract_zero]
  exact and_iff_right hn

/-- And then it leaves a prefix of the text. -/
theorem prefix_of_cut {n : ℕ} (h : (String.Pos.Raw.mk n).isValid (String.ofList l) = true) :
    ∃ p, (bytes l).extract 0 n = bytes p ∧ p <+: l := by
  obtain ⟨p, q, hp, hsplit⟩ := (String.Pos.Raw.isValid_eq_true_iff.mp h).exists
  rw [← bytes_eq] at hp
  exact ⟨p, hp.symm, q, String.ofList_injective hsplit⟩

/-- A text that is longer can be cut exactly there. -/
theorem valid_iff_cut {n : ℕ} (hn : n < (bytes l).size) :
    (String.Pos.Raw.mk n).isValid (String.ofList l) = true ↔ (Utf8.cut n l).isSome = true := by
  rw [Utf8.cut_isSome_iff, ← size_bytes, or_iff_right (Nat.not_le.mpr hn)]
  constructor
  · intro h
    obtain ⟨p, hp, hpre⟩ := prefix_of_cut h
    refine ⟨p, hpre, ?_⟩
    rw [← size_bytes, ← hp, ByteArray.size_extract]
    omega
  · rintro ⟨p, ⟨q, rfl⟩, hlen⟩
    rw [boundary_iff (Nat.le_of_lt hn), ← hlen, ← size_bytes, bytes_append, ByteArray.extract_append_eq_left rfl, bytes_eq]
    exact ByteArray.isValidUTF8_utf8Encode

/-- The last byte of a file. -/
def last_byte (file : ByteArray) : Option UInt8 := file.data.toList.getLast?

/-- Only a line feed ends in the byte of a line feed. -/
theorem getLast_utf8EncodeChar {c : Char} (h : (String.utf8EncodeChar c).getLast? = some 10) : c = '\n' := by
  have hbyte : ∀ n : ℕ, UInt8.ofNat (n % 64 + 128) ≠ 10 := by
    intro n heq
    have hnat := congrArg UInt8.toNat heq
    rw [UInt8.toNat_ofNat'] at hnat
    have hlt := Nat.mod_lt n (show 0 < 64 by decide)
    simp only [UInt8.reduceToNat] at hnat
    omega
  unfold String.utf8EncodeChar at h
  simp only at h
  split at h
  · rename_i hle
    have hbyte : UInt8.ofNat c.val.toNat = 10 := Option.some.inj h
    have hnat := congrArg UInt8.toNat hbyte
    rw [UInt8.toNat_ofNat'] at hnat
    simp only [UInt8.reduceToNat] at hnat
    have hval : c.val.toNat = 10 := by omega
    exact Char.ext (UInt32.toNat_inj.mp hval)
  · split at h
    · exact absurd (Option.some.inj h) (hbyte _)
    · split at h
      · exact absurd (Option.some.inj h) (hbyte _)
      · exact absurd (Option.some.inj h) (hbyte _)

theorem last_byte_append (l : List Char) (c : Char) :
    last_byte (bytes (l ++ [c])) = (String.utf8EncodeChar c).getLast? := by
  have hne : String.utf8EncodeChar c ≠ [] := by
    intro h
    have hlen := String.length_utf8EncodeChar c
    have hpos := Char.utf8Size_pos c
    rw [h, List.length_nil] at hlen
    omega
  rw [last_byte, bytes_eq, List.utf8Encode, List.toList_data_toByteArray, List.flatMap_append, List.getLast?_append]
  cases hlast : (List.flatMap String.utf8EncodeChar [c]).getLast? with
  | none =>
    rw [List.flatMap_singleton] at hlast
    exact absurd (List.getLast?_eq_none_iff.mp hlast) hne
  | some b =>
    rw [List.flatMap_singleton] at hlast
    rw [hlast]
    rfl

/-- The text ends in a line feed when its bytes do. -/
theorem last_byte_terminated (hls : ls ≠ []) : last_byte (bytes (terminated ls)) = some 10 := by
  obtain ⟨ks, k, rfl⟩ : ∃ ks k, ls = ks ++ [k] := ⟨_, _, (List.dropLast_append_getLast hls).symm⟩
  have hend : terminated (ks ++ [k]) = (terminated ks ++ k) ++ ['\n'] := by
    rw [terminated_append, terminated_cons, terminated_nil, List.append_assoc]
  rw [hend, last_byte_append]
  rfl

theorem last_byte_plain (hplain : Plain tail) (hne : tail ≠ []) :
    last_byte (bytes (l ++ tail)) ≠ some 10 := by
  obtain ⟨q, c, rfl⟩ : ∃ q c, tail = q ++ [c] := ⟨_, _, (List.dropLast_append_getLast hne).symm⟩
  rw [← List.append_assoc, last_byte_append]
  intro h
  exact (hplain c (by simp)).1 (getLast_utf8EncodeChar h)

end CrewSync.Lines
