/-
`upsert_token_entry` of `admin_cli.rs` and `read_token_entry` of `context.rs`: the file of
`name=token` lines that people edit by hand.

The writer and the reader take a line apart differently: the reader trims it first and skips
what is a comment, the writer does neither. For a name that was validated they agree
(`is_entry_iff`), so the lines that the writer replaces are those the reader would read, and
a saved token is read while every other key reads as before. What the writer does not keep is
a carriage return at the end of a line it keeps, since it ends the line itself and the two
are then taken for one ending.

`finish_issue` saves without the lock that the configuration directory has. A run reads the
file, and replaces it at once with what it makes of what it read; another run may have saved
in between, and is gone. So every save stays readable exactly in the runs in which each save
is made from a text that has the entries saved before it (`Current`).
-/
import Mathlib.Data.Bool.AllAny
import CrewSync.Auth
import CrewSync.Lines
import CrewSync.Runs
import CrewSync.Trims

set_option autoImplicit false

namespace CrewSync.TokensFile

open Auth (is_whitespace)
open Lines (lines terminated strip_return)
open Trims (split_once)
open Runs

/-! ## The two parsers -/

/-- `str::trim`. -/
def trim (l : List Char) : List Char := Trims.trim is_whitespace l

/-- The loop of `read_token_entry` over the lines of the file. -/
def find_entry (key : List Char) : List (List Char) → Option (List Char)
  | [] => none
  | line :: rest =>
    let line := trim line
    if line = [] ∨ line.head? = some '#' then find_entry key rest
    else match split_once '=' line with
      | some (k, v) =>
        if trim k = key then (if trim v = [] then none else some (trim v)) else find_entry key rest
      | none => find_entry key rest

/-- `read_token_entry`, of the text of the file. -/
def read_token_entry (text key : List Char) : Option (List Char) := find_entry key (lines text)

/-- The line is an entry of this name. -/
def is_entry (name line : List Char) : Bool := (split_once '=' line).any fun parts => trim parts.1 == name

/-- `{name}={token}`. -/
def entry_line (name token : List Char) : List Char := name ++ '=' :: token

/-- The loop of `upsert_token_entry` over the lines of the file. -/
def upsert_lines (name token : List Char) : Bool → List (List Char) → List (List Char)
  | replaced, [] => if replaced = true then [] else [entry_line name token]
  | replaced, line :: rest =>
    if is_entry name line = true then
      if replaced = true then upsert_lines name token true rest
      else entry_line name token :: upsert_lines name token true rest
    else line :: upsert_lines name token replaced rest

/-- What `upsert_token_entry` writes where it read this text. -/
def upsert_token_entry (existing name token : List Char) : List Char :=
  List.intercalate ['\n'] (upsert_lines name token false (lines existing)) ++ ['\n']

/-- A character of a name that `validate_repo_name` accepts. -/
def is_name_char (c : Char) : Bool := c.isAlphanum || c == '-' || c == '_' || c == '.'

/-- `validate_repo_name`. -/
def validate_repo_name (raw : List Char) : Except String (List Char) :=
  let name := trim raw
  if name = "_base".toList then .ok name
  else if name ≠ [] ∧ (String.ofList name).utf8ByteSize ≤ 128 ∧ name.head?.any Char.isAlphanum = true ∧
      name.all is_name_char = true then .ok name
  else .error ("--repo '" ++ String.ofList raw ++ "' is not a valid entry name: use letters, digits, '-', '_' " ++
    "and '.', starting with a letter or digit (or exactly `_base` for the fallback entry)")

/-! ## What is saved -/

/-- An entry as it is saved: a name that was validated, and a token that the bus has accepted,
without blanks. -/
structure Entry where
  name : List Char
  token : List Char
  validated : ∃ raw, validate_repo_name raw = .ok name
  nonempty : token ≠ []
  unblank : ∀ c ∈ token, is_whitespace c = false

/-- The lines that are not entries of this name. -/
def others (name text : List Char) : List (List Char) := (lines text).filter fun line => !is_entry name line

/-- A name that both parsers take alike. -/
structure Plain (name : List Char) : Prop where
  nonempty : name ≠ []
  chars : ∀ c ∈ name, is_whitespace c = false ∧ c ≠ '=' ∧ c ≠ '#'

variable {name token key text line k v : List Char} {ls : List (List Char)}

theorem plain_char {c : Char} (h : is_name_char c = true) : is_whitespace c = false ∧ c ≠ '=' ∧ c ≠ '#' := by
  have hrange : 45 ≤ c.toNat ∧ c.toNat ≤ 122 ∧ c.toNat ≠ 61 := by
    have hletter : c.isAlphanum =
        ((('A'.val ≤ c.val ∧ c.val ≤ 'Z'.val) || ('a'.val ≤ c.val && c.val ≤ 'z'.val)) ||
          ('0'.val ≤ c.val && c.val ≤ '9'.val)) := rfl
    simp only [is_name_char, hletter, Bool.or_eq_true, Bool.and_eq_true, decide_eq_true_eq, beq_iff_eq,
      UInt32.le_iff_toNat_le] at h
    have hval : c.val.toNat = c.toNat := rfl
    rcases h with ((((⟨h1, h2⟩ | ⟨h1, h2⟩) | ⟨h1, h2⟩) | rfl) | rfl) | rfl
    · simp at h1 h2
      omega
    · simp at h1 h2
      omega
    · simp at h1 h2
      omega
    · decide
    · decide
    · decide
  refine ⟨?_, ?_, ?_⟩
  · unfold is_whitespace
    simp only [Bool.or_eq_false_iff, Bool.and_eq_false_iff, decide_eq_false_iff_not, beq_eq_false_iff_ne]
    omega
  · rintro rfl
    exact hrange.2.2 rfl
  · rintro rfl
    exact absurd hrange.1 (by decide)

theorem plain_of_validated (h : ∃ raw, validate_repo_name raw = .ok name) : Plain name := by
  obtain ⟨raw, h⟩ := h
  unfold validate_repo_name at h
  simp only at h
  split at h
  · rename_i hbase
    cases h
    rw [hbase]
    exact ⟨by decide, List.all_iff_forall_prop.mp (by decide)⟩
  · split at h
    · rename_i hvalid
      cases h
      refine ⟨hvalid.1, fun c hc => ?_⟩
      exact plain_char (List.all_eq_true.mp hvalid.2.2.2 c hc)
    · cases h

/-! ## Where the parsers agree -/

theorem eq_not_blank : ¬is_whitespace '=' = true := by decide

/-- What the reader takes a line for: nothing, or a key and a value. -/
def entry_of (line : List Char) : Option (List Char × List Char) :=
  if (trim line).head? = some '#' then none
  else (split_once '=' (trim line)).map fun parts => (trim parts.1, trim parts.2)

/-- The loop of the reader finds the first entry of the key. -/
theorem find_entry_eq (key : List Char) (ls : List (List Char)) :
    find_entry key ls = ((ls.filterMap entry_of).lookup key).bind fun v => if v = [] then none else some v := by
  induction ls with
  | nil => rfl
  | cons line rest ih =>
    rw [find_entry, List.filterMap_cons]
    by_cases hcomment : (trim line).head? = some '#'
    · rw [if_pos (Or.inr hcomment), ih, entry_of, if_pos hcomment]
    · by_cases hblank : trim line = []
      · rw [if_pos (Or.inl hblank), ih, entry_of, if_neg hcomment, hblank]
        rfl
      · rw [if_neg (not_or.mpr ⟨hblank, hcomment⟩), entry_of, if_neg hcomment]
        cases split_once '=' (trim line) with
        | none => exact ih
        | some parts =>
          simp only [Option.map_some, List.lookup_cons]
          by_cases hkey : trim parts.1 = key
          · rw [if_pos hkey, ← hkey, beq_self_eq_true]
            rfl
          · rw [if_neg hkey, beq_eq_false_iff_ne.mpr (Ne.symm hkey)]
            exact ih

/-- The text has an entry of this key with this value. -/
def HasEntry (text key token : List Char) : Prop :=
  token ≠ [] ∧ ∃ line ∈ lines text, entry_of line = some (key, token)

/-- What is read is the value of an entry, and not empty. -/
theorem read_token_entry_some (h : read_token_entry text key = some token) : HasEntry text key token := by
  rw [read_token_entry, find_entry_eq] at h
  obtain ⟨v, hv, hne⟩ := Option.bind_eq_some_iff.mp h
  by_cases hempty : v = []
  · rw [if_pos hempty] at hne
    cases hne
  · rw [if_neg hempty] at hne
    cases hne
    refine ⟨hempty, ?_⟩
    obtain ⟨before, after, hsplit, -⟩ := List.lookup_eq_some_iff.mp hv
    have hmem : (key, token) ∈ (lines text).filterMap entry_of := by
      rw [hsplit]
      exact List.mem_append_right _ List.mem_cons_self
    exact List.mem_filterMap.mp hmem

/-- A line reads the same without what is trimmed. -/
theorem entry_of_congr {line' : List Char} (h : trim line = trim line') : entry_of line = entry_of line' := by
  rw [entry_of, entry_of, h]

theorem trim_strip_return (line : List Char) : trim (strip_return line) = trim line := by
  rw [strip_return]
  split
  · rename_i hlast
    obtain ⟨rest, rfl⟩ := List.getLast?_eq_some_iff.mp hlast
    rw [List.dropLast_concat]
    exact (Trims.trim_concat_pos (by decide) rest).symm
  · rfl

theorem entry_of_strip_return (line : List Char) : entry_of (strip_return line) = entry_of line :=
  entry_of_congr (trim_strip_return line)

/-- Splitting before trimming, as the writer does, gives the reader's parts. -/
theorem entry_of_eq (line : List Char) (h : (trim line).head? ≠ some '#') :
    entry_of line = (split_once '=' line).map fun parts => (trim parts.1, trim parts.2) := by
  rw [entry_of, if_neg h, trim, Trims.split_once_trim eq_not_blank, Option.map_map]
  congr 1
  funext parts
  exact Prod.ext (Trims.trim_dropWhile _ _) (Trims.trim_rdropWhile _ _)

/-- What the writer takes for an entry of this name is no comment. -/
theorem not_comment (hname : Plain name) (h : is_entry name line = true) : (trim line).head? ≠ some '#' := by
  intro hhead
  obtain ⟨⟨k, v⟩, hparts, hk⟩ := (Option.any_eq_true _ _).mp h
  obtain ⟨rfl, -⟩ := Trims.split_once_some hparts
  rw [trim, Trims.trim_append_cons eq_not_blank] at hhead
  have hk' : trim k = name := by simpa using hk
  cases hdrop : k.dropWhile is_whitespace with
  | nil =>
    rw [hdrop, List.nil_append, List.head?_cons] at hhead
    exact absurd (Option.some.inj hhead) (by decide)
  | cons c rest =>
    rw [hdrop, List.cons_append, List.head?_cons] at hhead
    have hc : c = '#' := Option.some.inj hhead
    have htrim : trim k = '#' :: rest.rdropWhile is_whitespace := by
      rw [trim, Trims.trim, hdrop, hc]
      exact Trims.rdropWhile_append_cons (by decide) [] rest
    rw [hk'] at htrim
    exact (hname.chars '#' (htrim ▸ List.mem_cons_self)).2.2 rfl

/-- **The writer and the reader agree** about the entries of a plain name. -/
theorem is_entry_iff (hname : Plain name) : is_entry name line = true ↔ ∃ v, entry_of line = some (name, v) := by
  constructor
  · intro h
    have hcomment := not_comment hname h
    unfold is_entry at h
    rw [entry_of_eq line hcomment]
    cases hparts : split_once '=' line with
    | none =>
      rw [hparts] at h
      cases h
    | some parts =>
      rw [hparts] at h
      have hk : trim parts.1 = name := by simpa using h
      exact ⟨trim parts.2, by rw [Option.map_some, hk]⟩
  · rintro ⟨v, h⟩
    have hcomment : (trim line).head? ≠ some '#' := by
      intro hc
      rw [entry_of, if_pos hc] at h
      cases h
    rw [entry_of_eq line hcomment] at h
    obtain ⟨parts, hparts, heq⟩ := Option.map_eq_some_iff.mp h
    unfold is_entry
    rw [hparts]
    have hk : trim parts.1 = name := (Prod.mk.inj heq).1
    simpa using hk

theorem is_entry_strip_return (hname : Plain name) (line : List Char) :
    is_entry name (strip_return line) = is_entry name line := by
  rw [Bool.eq_iff_iff, is_entry_iff hname, is_entry_iff hname, entry_of_strip_return]

/-! ## One save -/

variable {e : Entry} {c : Char}

theorem Entry.plain (e : Entry) : Plain e.name := plain_of_validated e.validated

theorem Entry.trim_name (e : Entry) : trim e.name = e.name :=
  Trims.trim_of_forall fun c hc => by
    rw [(e.plain.chars c hc).1]
    exact Bool.false_ne_true

theorem Entry.trim_token (e : Entry) : trim e.token = e.token :=
  Trims.trim_of_forall fun c hc => by
    rw [e.unblank c hc]
    exact Bool.false_ne_true

theorem Entry.split (e : Entry) : split_once '=' (entry_line e.name e.token) = some (e.name, e.token) :=
  Trims.split_once_append (fun h => (e.plain.chars '=' h).2.1 rfl) e.token

theorem Entry.is_entry (e : Entry) : is_entry e.name (entry_line e.name e.token) = true := by
  rw [TokensFile.is_entry, e.split, Option.any_some, e.trim_name]
  exact beq_self_eq_true e.name

theorem Entry.entry_of (e : Entry) : entry_of (entry_line e.name e.token) = some (e.name, e.token) := by
  rw [entry_of_eq _ (not_comment e.plain e.is_entry), e.split, Option.map_some, e.trim_name, e.trim_token]

/-- No character of an entry ends a line. -/
theorem Entry.not_mem (e : Entry) (hc : is_whitespace c = true) (heq : c ≠ '=') : c ∉ entry_line e.name e.token := by
  intro hmem
  rcases List.mem_append.mp hmem with hmem | hmem
  · rw [(e.plain.chars c hmem).1] at hc
    cases hc
  · rcases List.mem_cons.mp hmem with hmem | hmem
    · exact heq hmem
    · rw [e.unblank c hmem] at hc
      cases hc

theorem Entry.strip_return (e : Entry) : strip_return (entry_line e.name e.token) = entry_line e.name e.token := by
  rw [Lines.strip_return, if_neg]
  intro hlast
  exact e.not_mem (by decide) (by decide) (List.mem_of_getLast? hlast)

/-- What is an entry is read as one. -/
theorem entry_of_of_is_entry (hname : Plain name) (h : is_entry name line = true) :
    ∃ v, entry_of line = some (name, v) := (is_entry_iff hname).mp h

/-- Every other key is looked up as before. -/
theorem lookup_upsert_of_ne (e : Entry) (hkey : key ≠ e.name) (replaced : Bool) (ls : List (List Char)) :
    ((upsert_lines e.name e.token replaced ls).filterMap entry_of).lookup key =
      (ls.filterMap entry_of).lookup key := by
  have hskip (v : List Char) (es : List (List Char × List Char)) :
      List.lookup key ((e.name, v) :: es) = List.lookup key es := by
    rw [List.lookup_cons, beq_eq_false_iff_ne.mpr hkey]
  induction ls generalizing replaced with
  | nil =>
    rw [upsert_lines]
    split
    · rfl
    · rw [List.filterMap_cons, e.entry_of]
      exact hskip _ _
  | cons line rest ih =>
    rw [upsert_lines]
    by_cases hentry : TokensFile.is_entry e.name line = true
    · obtain ⟨v, hv⟩ := entry_of_of_is_entry e.plain hentry
      have hline : (List.filterMap TokensFile.entry_of (line :: rest)).lookup key =
          (rest.filterMap TokensFile.entry_of).lookup key := by
        rw [List.filterMap_cons, hv]
        exact hskip _ _
      rw [if_pos hentry, hline]
      split
      · exact ih true
      · rw [List.filterMap_cons, e.entry_of]
        exact (hskip _ _).trans (ih true)
    · rw [if_neg hentry, List.filterMap_cons, List.filterMap_cons]
      cases TokensFile.entry_of line with
      | none => exact ih replaced
      | some kv =>
        rw [List.lookup_cons, List.lookup_cons, ih replaced]

/-- The saved name is looked up as the saved token. -/
theorem lookup_upsert_self (e : Entry) (ls : List (List Char)) :
    ((upsert_lines e.name e.token false ls).filterMap entry_of).lookup e.name = some e.token := by
  have hfound (es : List (List Char × List Char)) :
      List.lookup e.name ((e.name, e.token) :: es) = some e.token := by
    rw [List.lookup_cons, beq_self_eq_true]
  induction ls with
  | nil =>
    rw [upsert_lines, if_neg Bool.false_ne_true, List.filterMap_cons, e.entry_of]
    exact hfound _
  | cons line rest ih =>
    rw [upsert_lines]
    by_cases hentry : TokensFile.is_entry e.name line = true
    · rw [if_pos hentry, if_neg Bool.false_ne_true, List.filterMap_cons, e.entry_of]
      exact hfound _
    · rw [if_neg hentry, List.filterMap_cons]
      cases hline : TokensFile.entry_of line with
      | none => exact ih
      | some kv =>
        -- another key, or the writer would have taken the line for the entry
        have hne : e.name ≠ kv.1 := by
          intro heq
          apply hentry
          exact (is_entry_iff e.plain).mpr ⟨kv.2, by rw [hline, heq]⟩
        rw [List.lookup_cons, beq_eq_false_iff_ne.mpr hne]
        exact ih

/-- No line of the new file holds a line feed. -/
theorem not_mem_upsert_lines (e : Entry) (replaced : Bool) (hls : ∀ l ∈ ls, '\n' ∉ l) :
    ∀ l ∈ upsert_lines e.name e.token replaced ls, '\n' ∉ l := by
  have hself : '\n' ∉ entry_line e.name e.token := e.not_mem (by decide) (by decide)
  induction ls generalizing replaced with
  | nil =>
    intro l hl
    rw [upsert_lines] at hl
    split at hl
    · exact absurd hl List.not_mem_nil
    · rw [List.mem_singleton.mp hl]
      exact hself
  | cons line rest ih =>
    have hrest := fun replaced => ih replaced fun l hl => hls l (List.mem_cons_of_mem _ hl)
    intro l hl
    rw [upsert_lines] at hl
    split at hl
    · split at hl
      · exact hrest true l hl
      · rcases List.mem_cons.mp hl with rfl | hl
        · exact hself
        · exact hrest true l hl
    · rcases List.mem_cons.mp hl with rfl | hl
      · exact hls _ List.mem_cons_self
      · exact hrest replaced l hl

theorem upsert_lines_ne_nil (e : Entry) (ls : List (List Char)) : upsert_lines e.name e.token false ls ≠ [] := by
  intro h
  have hself := lookup_upsert_self e ls
  rw [h] at hself
  cases hself

/-- The new file is its lines, each of them ended. -/
theorem upsert_eq_terminated (e : Entry) (text : List Char) :
    upsert_token_entry text e.name e.token = terminated (upsert_lines e.name e.token false (lines text)) := by
  rw [upsert_token_entry]
  cases h : upsert_lines e.name e.token false (lines text) with
  | nil => exact absurd h (upsert_lines_ne_nil e _)
  | cons l ls => exact Lines.intercalate_terminated l ls

/-- And what the next reader takes for its lines has lost the carriage returns. -/
theorem lines_upsert (e : Entry) (text : List Char) :
    lines (upsert_token_entry text e.name e.token) =
      (upsert_lines e.name e.token false (lines text)).map strip_return := by
  rw [upsert_eq_terminated]
  exact Lines.lines_terminated_strip (not_mem_upsert_lines e false fun l hl => Lines.not_mem_of_mem_lines hl)

theorem read_upsert (e : Entry) (text key : List Char) :
    read_token_entry (upsert_token_entry text e.name e.token) key =
      find_entry key (upsert_lines e.name e.token false (lines text)) := by
  rw [read_token_entry, lines_upsert, find_entry_eq, find_entry_eq, List.filterMap_map]
  have hsame : entry_of ∘ strip_return = entry_of := funext entry_of_strip_return
  rw [hsame]

/-- **The saved token is read.** -/
theorem read_upsert_self (e : Entry) (text : List Char) :
    read_token_entry (upsert_token_entry text e.name e.token) e.name = some e.token := by
  rw [read_upsert, find_entry_eq, lookup_upsert_self, Option.bind_some, if_neg e.nonempty]

/-- **Every other key reads as before.** -/
theorem read_upsert_of_ne (e : Entry) (hkey : key ≠ e.name) (text : List Char) :
    read_token_entry (upsert_token_entry text e.name e.token) key = read_token_entry text key := by
  rw [read_upsert, find_entry_eq, lookup_upsert_of_ne e hkey, read_token_entry, find_entry_eq]

/-! ## The other lines -/

/-- The line ends in a carriage return of its own. -/
def Returned (line : List Char) : Prop := ∃ rest, line = rest ++ ['\r']

theorem strip_return_eq_self_iff (line : List Char) : strip_return line = line ↔ ¬Returned line := by
  unfold strip_return Returned
  by_cases hlast : line.getLast? = some '\r'
  · rw [if_pos hlast]
    obtain ⟨rest, rfl⟩ := List.getLast?_eq_some_iff.mp hlast
    constructor
    · intro h
      have hlen := congrArg List.length h
      rw [List.dropLast_concat, List.length_append, List.length_singleton] at hlen
      omega
    · intro h
      exact absurd ⟨rest, rfl⟩ h
  · rw [if_neg hlast]
    refine ⟨fun _ => ?_, fun _ => rfl⟩
    rintro ⟨rest, rfl⟩
    exact hlast List.getLast?_concat

theorem map_strip_return_eq_iff (ls : List (List Char)) :
    ls.map strip_return = ls ↔ ∀ l ∈ ls, ¬Returned l := by
  induction ls with
  | nil => exact ⟨fun _ l hl => absurd hl List.not_mem_nil, fun _ => rfl⟩
  | cons l ls ih => rw [List.map_cons, List.cons.injEq, ih, strip_return_eq_self_iff, List.forall_mem_cons]

/-- A save touches the entries of its name. -/
theorem filter_upsert_lines (e : Entry) (replaced : Bool) (ls : List (List Char)) :
    (upsert_lines e.name e.token replaced ls).filter (fun line => !is_entry e.name line) =
      ls.filter fun line => !is_entry e.name line := by
  have hdrop (rest : List (List Char)) :
      (entry_line e.name e.token :: rest).filter (fun line => !is_entry e.name line) =
        rest.filter fun line => !is_entry e.name line :=
    List.filter_cons_of_neg (by simp [e.is_entry])
  induction ls generalizing replaced with
  | nil =>
    rw [upsert_lines]
    split
    · rfl
    · exact hdrop []
  | cons line rest ih =>
    rw [upsert_lines]
    by_cases hentry : is_entry e.name line = true
    · have hline : (line :: rest).filter (fun line => !is_entry e.name line) =
          rest.filter fun line => !is_entry e.name line := List.filter_cons_of_neg (by simp [hentry])
      rw [if_pos hentry, hline]
      split
      · exact ih true
      · rw [hdrop]
        exact ih true
    · rw [if_neg hentry, List.filter_cons_of_pos (by simp [hentry]), List.filter_cons_of_pos (by simp [hentry]),
        ih replaced]

theorem others_upsert (e : Entry) (text : List Char) :
    others e.name (upsert_token_entry text e.name e.token) = (others e.name text).map strip_return := by
  have hsame : (fun line => !is_entry e.name line) ∘ strip_return = fun line => !is_entry e.name line := by
    funext line
    exact congrArg not (is_entry_strip_return e.plain line)
  rw [others, lines_upsert, List.filter_map, hsame, filter_upsert_lines, others]

/-- In a file with one entry of the name, a save of the same token changes no line. -/
theorem upsert_lines_again (e : Entry) (ls : List (List Char)) :
    upsert_lines e.name e.token false ((upsert_lines e.name e.token false ls).map strip_return) =
      (upsert_lines e.name e.token false ls).map strip_return := by
  -- behind the entry, nothing is left to replace
  have hrest (ls : List (List Char)) :
      upsert_lines e.name e.token true ((upsert_lines e.name e.token true ls).map strip_return) =
        (upsert_lines e.name e.token true ls).map strip_return := by
    induction ls with
    | nil => rfl
    | cons line rest ih =>
      by_cases hentry : is_entry e.name line = true
      · rw [upsert_lines, if_pos hentry, if_pos rfl]
        exact ih
      · have hstrip : ¬is_entry e.name (strip_return line) = true := by
          rw [is_entry_strip_return e.plain]
          exact hentry
        rw [upsert_lines, if_neg hentry, List.map_cons, upsert_lines, if_neg hstrip, ih]
  have hself (rest : List (List Char)) :
      upsert_lines e.name e.token false (entry_line e.name e.token :: rest) =
        entry_line e.name e.token :: upsert_lines e.name e.token true rest := by
    rw [upsert_lines, if_pos e.is_entry, if_neg Bool.false_ne_true]
  induction ls with
  | nil =>
    rw [upsert_lines, if_neg Bool.false_ne_true, List.map_singleton, e.strip_return, hself]
    rfl
  | cons line rest ih =>
    by_cases hentry : is_entry e.name line = true
    · rw [upsert_lines, if_pos hentry, if_neg Bool.false_ne_true, List.map_cons, e.strip_return, hself, hrest]
    · have hstrip : ¬is_entry e.name (strip_return line) = true := by
        rw [is_entry_strip_return e.plain]
        exact hentry
      rw [upsert_lines, if_neg hentry, List.map_cons, upsert_lines, if_neg hstrip, ih]

/-- An entry of the name in the new file is the one that was written. -/
theorem eq_of_is_entry (e : Entry) {replaced : Bool} (hl : line ∈ upsert_lines e.name e.token replaced ls)
    (hentry : is_entry e.name line = true) : line = entry_line e.name e.token := by
  induction ls generalizing replaced with
  | nil =>
    rw [upsert_lines] at hl
    split at hl
    · exact absurd hl List.not_mem_nil
    · exact List.mem_singleton.mp hl
  | cons k rest ih =>
    rw [upsert_lines] at hl
    split at hl
    · split at hl
      · exact ih hl
      · rcases List.mem_cons.mp hl with rfl | hl
        · rfl
        · exact ih hl
    · rename_i hk
      rcases List.mem_cons.mp hl with rfl | hl
      · exact absurd hentry hk
      · exact ih hl

/-- The lines that are returned are other lines. -/
theorem returned_upsert_lines (e : Entry) (ls : List (List Char)) :
    (∀ l ∈ upsert_lines e.name e.token false ls, ¬Returned l) ↔
      ∀ l ∈ ls.filter (fun line => !is_entry e.name line), ¬Returned l := by
  rw [← filter_upsert_lines e false ls]
  constructor
  · intro h l hl
    exact h l (List.mem_of_mem_filter hl)
  · intro h l hl
    by_cases hentry : is_entry e.name l = true
    · rw [eq_of_is_entry e hl hentry]
      exact (strip_return_eq_self_iff _).mp e.strip_return
    · exact h l (List.mem_filter.mpr ⟨hl, by simp [hentry]⟩)

/-- **What one save keeps** beside the entries: the other lines, and itself when it is repeated,
exactly where none of the other lines ends in a carriage return of its own. -/
theorem kept_iff (e : Entry) (text : List Char) :
    (others e.name (upsert_token_entry text e.name e.token) = others e.name text ∧
      upsert_token_entry (upsert_token_entry text e.name e.token) e.name e.token =
        upsert_token_entry text e.name e.token) ↔
      ∀ l ∈ others e.name text, ¬Returned l := by
  rw [others_upsert, map_strip_return_eq_iff]
  constructor
  · rintro ⟨h, -⟩
    exact h
  · intro h
    refine ⟨h, ?_⟩
    have hkeep : (upsert_lines e.name e.token false (lines text)).map strip_return =
        upsert_lines e.name e.token false (lines text) :=
      (map_strip_return_eq_iff _).mpr ((returned_upsert_lines e _).mpr h)
    rw [upsert_eq_terminated e (upsert_token_entry text e.name e.token), lines_upsert, upsert_lines_again,
      hkeep, ← upsert_eq_terminated]

/-! ## Runs that save at the same time -/

/-- The file, the runs that have read it with what they read, and what was saved so far, in the
order of the saves. -/
structure State where
  file : Option (List Char)
  reading : List (Entry × List Char)
  saved : List Entry

/-- The text `upsert_token_entry` goes on with: a file that is not there is empty. -/
def State.content (s : State) : List Char := s.file.getD []

/-- The three ends of the steps of a run: it has read the file, it has replaced it, or it has
failed. -/
inductive Action
  | read (e : Entry)
  | save (e : Entry) (existing : List Char)
  | fail (e : Entry) (existing : List Char)

/-- The steps of `finish_issue` that concern the file. -/
inductive Step (s : State) : Action → State → Prop
  | read (e : Entry) : Step s (.read e) { s with reading := (e, s.content) :: s.reading }
  | save {e : Entry} {existing : List Char} {before after : List (Entry × List Char)}
      (hreading : s.reading = before ++ (e, existing) :: after) :
      Step s (.save e existing) ⟨some (upsert_token_entry existing e.name e.token), before ++ after, s.saved ++ [e]⟩
  | fail {e : Entry} {existing : List Char} {before after : List (Entry × List Char)}
      (hreading : s.reading = before ++ (e, existing) :: after) :
      Step s (.fail e existing) { s with reading := before ++ after }

def init (file : Option (List Char)) : State := ⟨file, [], []⟩

/-- The text has the entry of every save but those of this name, and those with a later save of
their own name. -/
def Holds (saved : List Entry) (text : List Char) (but : List Char → Prop) : Prop :=
  ∀ before e after, saved = before ++ e :: after → ¬but e.name → (∀ e' ∈ after, e'.name ≠ e.name) →
    read_token_entry text e.name = some e.token

/-- Every run that reported success has its entry readable, unless a later run saved the same
name. -/
def Readable (s : State) : Prop := Holds s.saved s.content fun _ => False

/-- A save is made from a text that has the entries saved before, its own name's apart. -/
def Current (s : State) : Action → Prop
  | .save e existing => Holds s.saved existing fun name => name = e.name
  | _ => True

variable {s t : State}

/-- **One step** keeps every save readable exactly where a save is made from a current text. -/
theorem readable_step {act : Action} (h : Readable s) (hstep : Step s act t) : Current s act ↔ Readable t := by
  cases hstep with
  | read e | fail _ => exact ⟨fun _ => h, fun _ => trivial⟩
  | @save e existing _ _ _ =>
    constructor
    · intro hcur before e' after hsplit _ hlast
      change s.saved ++ [e] = before ++ e' :: after at hsplit
      rcases List.eq_nil_or_concat after with rfl | ⟨after, last, rfl⟩
      · -- the run that has just saved
        obtain ⟨-, hsame⟩ := List.append_inj' hsplit rfl
        cases hsame
        exact read_upsert_self e existing
      · rw [List.concat_eq_append, ← List.cons_append, ← List.append_assoc] at hsplit
        obtain ⟨hsaved, hsame⟩ := List.append_inj' hsplit rfl
        cases hsame
        have hne : e'.name ≠ e.name := Ne.symm (hlast e (by simp))
        have hread := hcur before e' after hsaved hne fun x hx => hlast x (by simp [hx])
        exact (read_upsert_of_ne e hne existing).trans hread
    · intro hread before e' after hsaved hne hlast
      have hall := hread before e' (after ++ [e])
        (by change s.saved ++ [e] = _; rw [hsaved, List.append_assoc, List.cons_append]) id
      rw [← read_upsert_of_ne e hne existing]
      apply hall
      intro x hx
      rcases List.mem_append.mp hx with hx | hx
      · exact hlast x hx
      · rw [List.mem_singleton.mp hx]
        exact fun heq => hne heq.symm

/-- A run that replaces the text that is there saves from a current one. -/
theorem current_of_text (h : Readable s) : Current s (.save e s.content) :=
  fun before e' after hsaved _ hlast => h before e' after hsaved id hlast

/-- **Saving a token.** One save is read back and leaves every other key as it was; it keeps the
other lines, and changes nothing when it is repeated, exactly where none of them ends in a
carriage return of its own. In every run of saves at the same time, each stays readable until
its name is saved again, exactly where every save is made from a current text. -/
theorem tokens_saved (file : Option (List Char)) {tr : List (Trans State Action)}
    (h : Run Step (init file) tr s) :
    (∀ (e : Entry) (text : List Char),
      read_token_entry (upsert_token_entry text e.name e.token) e.name = some e.token ∧
      (∀ key, key ≠ e.name →
        read_token_entry (upsert_token_entry text e.name e.token) key = read_token_entry text key) ∧
      ((others e.name (upsert_token_entry text e.name e.token) = others e.name text ∧
          upsert_token_entry (upsert_token_entry text e.name e.token) e.name e.token =
            upsert_token_entry text e.name e.token) ↔
        ∀ l ∈ others e.name text, ¬Returned l)) ∧
      ((∀ e ∈ tr, Current e.pre e.act) ↔ ∀ e ∈ tr, Readable e.post) := by
  constructor
  · intro e text
    exact ⟨read_upsert_self e text, fun key hkey => read_upsert_of_ne e hkey text, kept_iff e text⟩
  · apply h.invariant_iff (B := fun _ => True) trivial _ (fun _ _ _ _ _ => trivial)
    · intro s act t _ hs hr
      exact readable_step hs hr
    · intro before e after hsplit
      cases before <;> cases hsplit

def backend : Entry :=
  ⟨"backend".toList, "acs_1".toList, ⟨"backend".toList, by decide⟩, by decide,
    List.all_iff_forall_prop.mp (by decide)⟩

def docs : Entry :=
  ⟨"docs".toList, "acs_2".toList, ⟨" docs ".toList, by decide⟩, by decide,
    List.all_iff_forall_prop.mp (by decide)⟩

/-- Two runs, one after the other. -/
theorem tokens_saved_in_turn :
    ∃ tr s, Run Step (init none) tr s ∧ s.saved = [backend, docs] ∧ ∀ e ∈ tr, Readable e.post := by
  have h₁ : Run Step (init none) _ _ := Run.snoc Run.nil (Step.read backend)
  have h₂ := Run.snoc h₁ (@Step.save _ backend _ [] [] rfl)
  have h₃ := Run.snoc h₂ (Step.read docs)
  have h₄ := Run.snoc h₃ (@Step.save _ docs _ [] [] rfl)
  refine ⟨_, _, h₄, rfl, ?_⟩
  apply (tokens_saved none h₄).2.mp
  have hempty : Readable (init none) := by
    intro before e after hsplit
    cases before <;> cases hsplit
  have hone := (readable_step hempty (Step.read backend)).mp trivial
  have htwo := (readable_step hone (@Step.save _ backend _ [] [] rfl)).mp (current_of_text hempty)
  simp only [List.nil_append, List.forall_mem_append, List.forall_mem_singleton]
  exact ⟨⟨⟨trivial, current_of_text hempty⟩, trivial⟩, current_of_text htwo⟩

/-- Two runs that have both read the file before either replaces it; and a file with a carriage
return, which a save keeps and the next one drops. -/
theorem save_lost :
    (¬∀ (file : Option (List Char)) (tr : List (Trans State Action)) (s : State), Run Step (init file) tr s →
      ∀ e ∈ tr, Readable e.post) ∧
    upsert_token_entry "_base=acs_0\r".toList backend.name backend.token =
      "_base=acs_0\r\nbackend=acs_1\n".toList ∧
    upsert_token_entry "_base=acs_0\r\nbackend=acs_1\n".toList backend.name backend.token =
      "_base=acs_0\nbackend=acs_1\n".toList := by
  refine ⟨fun h => ?_, by decide, by decide⟩
  have h₁ : Run Step (init none) _ _ := Run.snoc Run.nil (Step.read backend)
  have h₂ := Run.snoc h₁ (Step.read docs)
  have h₃ := Run.snoc h₂ (@Step.save _ backend _ [(docs, [])] [] rfl)
  have h₄ := Run.snoc h₃ (@Step.save _ docs _ [] [] rfl)
  have hread := h none _ _ h₄ _ (List.mem_append_right _ (List.mem_singleton.mpr rfl)) [] backend [docs] rfl id
    (by decide)
  exact absurd hread (by decide)

end CrewSync.TokensFile
