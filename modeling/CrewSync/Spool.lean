/-
`spool.rs`: the proxy's durable list of references, and the cycle of `proxy.rs` that keeps
it.

The file is bytes. A call appends lines to it, and a crash leaves any number of the bytes
of what was to be appended; a rewrite replaces the file at once. In between a call works on
the list it has in hand: what it read, and what it appended since. Calls are taken apart
(read, append, rewrite), so that several of them may be under way at a time.

A line that was cut does no harm: it does not parse, and the next append ends it. But a
line cut inside a character leaves bytes that are no text, and then `read` finds nothing at
all. And a list that is rewritten must still name what the file holds, which it does unless
another call wrote in between. The spool keeps what it promises exactly in the runs without
either (`intact`).

Left out: the permissions of the file, and writes that fail without a crash, which are torn
appends as well.
-/
import Mathlib.Data.List.TakeWhile
import Mathlib.Logic.Function.Basic
import CrewSync.Auth
import CrewSync.Lines
import CrewSync.Messaging
import CrewSync.References
import CrewSync.Rows
import CrewSync.Runs

set_option autoImplicit false

namespace CrewSync.Spool

open Auth Lines References Rows Runs

/-! ## Entries and lines -/

/-- `Entry`. -/
structure Entry where
  delivery_id : String
  message_id : String
  conversation_id : String
  seq : Int64
  from_address : String
  created_at : String
  confirmed : Bool
  spooled_at : String
  deriving DecidableEq, Repr

/-- What the spool uses of `serde_json` and `chrono`. Instants are in nanoseconds. -/
structure Codec where
  to_string : Entry → String
  from_str : String → Option Entry
  parse_from_rfc3339 : String → Option ℤ

/-- The characters of an entry's line. -/
def Codec.line (j : Codec) (e : Entry) : List Char := (j.to_string e).toList

/-- What is relied on: an entry is written as a JSON object, on one line as control characters
are escaped, it is read back as it was written, and no text that stops short of its end is
read as an entry. -/
structure Codec.Lawful (j : Codec) : Prop where
  object : ∀ e, (j.line e).head? = some '{'
  plain : ∀ e, Plain (j.line e)
  round_trip : ∀ e, j.from_str (j.to_string e) = some e
  whole : ∀ e p, p <+: j.line e → p ≠ j.line e → j.from_str (String.ofList p) = none

/-- The line is blank. -/
def blank (l : List Char) : Bool := (trim (String.ofList l)).isEmpty

/-- The entries of a text. -/
def entries_of (j : Codec) (text : List Char) : List Entry :=
  ((lines text).filter fun l => !blank l).filterMap fun l => j.from_str (String.ofList l)

/-! ## The operations -/

/-- `KEEP_HOURS`. -/
def KEEP_HOURS : ℤ := 48

/-- `Duration::hours`. -/
def hours (n : ℤ) : ℤ := n * 3600000000000

/-- `read`. -/
def read (j : Codec) (file : ByteArray) : List Entry :=
  match String.fromUTF8? file with
  | some text => entries_of j text.toList
  | none => []

/-- Whether one of the entries has this `delivery_id`. -/
def spooled (id : String) (l : List Entry) : Bool := l.any fun e => e.delivery_id == id

/-- The entries `append` writes: those that are not spooled, each once. -/
def fresh (existing entries : List Entry) : List Entry :=
  entries.foldl
    (fun acc e => if spooled e.delivery_id existing || spooled e.delivery_id acc then acc else acc ++ [e]) []

/-- `repair_tail`. -/
def repair_tail (file : ByteArray) : List Char :=
  match last_byte file with
  | none => []
  | some b => if b = 10 then [] else ['\n']

/-- The text `append` adds to the file. -/
def addition (j : Codec) (file : ByteArray) (new : List Entry) : List Char :=
  if new = [] then [] else repair_tail file ++ terminated (new.map j.line)

/-- `append`: the file, and the entries that were written. -/
def append (j : Codec) (file : ByteArray) (entries : List Entry) : ByteArray × List Entry :=
  let new := fresh (read j file) entries
  (file ++ bytes (addition j file new), new)

/-- `append`, cut after `n` bytes. -/
def torn_append (j : Codec) (file : ByteArray) (entries : List Entry) (n : ℕ) : ByteArray :=
  file ++ (bytes (addition j file (fresh (read j file) entries))).extract 0 n

/-- An entry that a rewrite keeps. -/
def keeps (j : Codec) (now : ℤ) (e : Entry) : Bool :=
  !e.confirmed || match j.parse_from_rfc3339 e.spooled_at with
    | some at_ => decide (now - hours KEEP_HOURS < at_)
    | none => true

/-- `rewrite`. -/
def rewrite (j : Codec) (now : ℤ) (entries : List Entry) : ByteArray :=
  bytes (List.intercalate ['\n'] ((entries.filter (keeps j now)).map j.line) ++ ['\n'])

/-- `unconfirmed`. -/
def unconfirmed (entries : List Entry) : List String :=
  (entries.filter fun e => !e.confirmed).map Entry.delivery_id

/-- The list with what the bus has settled marked. -/
def settle (settled : List String) (held : List Entry) : List Entry :=
  held.map fun e =>
    if (unconfirmed held).contains e.delivery_id && settled.contains e.delivery_id then
      { e with confirmed := true }
    else e

/-! ## The system -/

/-- The state: the file, and the list each call has in hand. -/
structure Sys where
  file : ByteArray
  held : ℕ → List Entry

/-- What can happen next. -/
inductive Act where
  | read (call : ℕ)
  | append (call : ℕ) (entries : List Entry)
  /-- A crash cuts an append of the call. -/
  | torn (call : ℕ) (entries : List Entry) (n : ℕ)
  /-- The call rewrites its list, after the bus settled some of what it was asked to. -/
  | rewrite (call : ℕ) (now : ℤ) (settled : List String)
  /-- The call ends without a rewrite, or its process is gone. -/
  | leave (call : ℕ)

/-- The call has this list. -/
def Sys.hold (s : Sys) (call : ℕ) (l : List Entry) : Sys :=
  { s with held := Function.update s.held call l }

/-- One step. -/
def step (j : Codec) (s : Sys) : Act → Option Sys
  | .read call => some (s.hold call (read j s.file))
  | .append call entries =>
    let (file, new) := append j s.file entries
    some { s.hold call (s.held call ++ new) with file := file }
  | .torn call entries n =>
    if n ≤ (bytes (addition j s.file (fresh (read j s.file) entries))).size then
      some { s.hold call [] with file := torn_append j s.file entries n }
    else none
  | .rewrite call now settled =>
    if unconfirmed (s.held call) = [] then none
    else some { s.hold call [] with file := rewrite j now (settle settled (s.held call)) }
  | .leave call => some (s.hold call [])

/-- Before the first call. -/
def Sys.start : Sys := ⟨ByteArray.empty, fun _ => []⟩

/-! ## The law -/

/-- The same reference, whether it is confirmed or not. -/
def same (x y : Entry) : Bool := x == { y with confirmed := x.confirmed }

/-- The step is a rewrite that drops the entry, as one that is confirmed and old. -/
def drops (j : Codec) (x : Entry) (s : Sys) : Act → Bool
  | .rewrite call now settled => !keeps j now x ||
      (settle settled (s.held call)).any fun h => same x h && !keeps j now h
  | _ => false

/-- What the spool promises of a step. -/
structure Kept (j : Codec) (e : Trans Sys Act) : Prop where
  /-- A truncated write does not make the file unreadable. -/
  readable : (String.fromUTF8? e.post.file).isSome = true
  /-- Nothing is returned twice. -/
  unique : Keyed Entry.delivery_id (read j e.post.file)
  /-- What is there stays, or is dropped as confirmed and old. -/
  stays : ∀ x ∈ read j e.pre.file, drops j x e.pre e.act = false → ∃ y ∈ read j e.post.file, same x y = true
  /-- A successful append has spooled each of its entries. -/
  appended : ∀ call entries, e.act = .append call entries →
    ∀ x ∈ entries, ∃ y ∈ read j e.post.file, y.delivery_id = x.delivery_id ∧ (y ∈ entries ∨ y ∈ read j e.pre.file)

/-- What the spool promises of a run. -/
structure SpoolLaw (j : Codec) (tr : List (Trans Sys Act)) (s : Sys) : Prop where
  steps : ∀ e ∈ tr, Kept j e
  /-- Each entry of a successful append is there, once, until a rewrite drops it as confirmed
  and old. -/
  held : ∀ tr₁ e tr₂, tr = tr₁ ++ e :: tr₂ → ∀ call entries, e.act = .append call entries →
    ∀ x ∈ entries, ∃ y ∈ read j e.post.file, y.delivery_id = x.delivery_id ∧
      ((∃ e' ∈ tr₂, ∃ z ∈ read j e'.pre.file, same y z = true ∧ drops j z e'.pre e'.act = true) ∨
        ∃ z ∈ read j s.file, same y z = true ∧ (read j s.file).countP (fun w => w.delivery_id == x.delivery_id) = 1)

/-- A crash cuts between characters, and a list that is rewritten names what the file has to
keep and nothing twice. -/
def intact (j : Codec) (s : Sys) : Act → Bool
  | .torn _ entries n =>
    (String.Pos.Raw.mk n).isValid (String.ofList (addition j s.file (fresh (read j s.file) entries)))
  | .rewrite call now settled =>
    decide (Keyed Entry.delivery_id ((settle settled (s.held call)).filter (keeps j now))) &&
      (read j s.file).all fun x => !keeps j now x || (s.held call).any (same x)
  | _ => true

/-! ## What a file holds -/

/-- An entry's line, or what a crash left of one. -/
def Piece (j : Codec) (l : List Char) : Prop := ∃ e, l <+: j.line e

/-- What a line is read as. -/
def parse (j : Codec) (l : List Char) : Option Entry :=
  if blank l then none else j.from_str (String.ofList l)

/-- The file is lines and what a crash left of the last, and holds these entries. -/
def Holds (j : Codec) (file : ByteArray) (entries : List Entry) : Prop :=
  ∃ ls tail, file = bytes (terminated ls ++ tail) ∧ (∀ l ∈ ls, Piece j l) ∧ Piece j tail ∧
    (ls ++ [tail]).filterMap (parse j) = entries

section Files

variable {j : Codec} {file : ByteArray} {es new : List Entry} {l q : List Char} {ls : List (List Char)}

theorem entries_of_eq (j : Codec) (text : List Char) :
    entries_of j text = (lines text).filterMap (parse j) := by
  unfold entries_of parse
  rw [List.filterMap_filter]
  refine List.filterMap_congr fun l _ => ?_
  cases blank l <;> rfl

/-- A line that begins with something is not blank. -/
theorem not_blank_of_head {c : Char} (h : l.head? = some c) (hc : is_whitespace c = false) :
    blank l = false := by
  have hmem : c ∈ l := List.mem_of_mem_head? h
  have hdrop : l.dropWhile is_whitespace = l := by
    cases l with
    | nil => rfl
    | cons d l =>
      obtain rfl := Option.some.inj h
      rw [List.dropWhile_cons_of_neg (by simp [hc])]
  have hne : l.reverse.dropWhile is_whitespace ≠ [] := by
    intro hnil
    have hall := List.dropWhile_eq_nil_iff.mp hnil c (List.mem_reverse.mpr hmem)
    rw [hc] at hall
    cases hall
  rw [blank, trim, String.toList_ofList, Trims.trim, hdrop]
  have hstr : String.ofList (l.reverse.dropWhile is_whitespace).reverse ≠ "" := by
    intro heq
    have hlist := congrArg String.toList heq
    rw [String.toList_ofList] at hlist
    exact hne (List.reverse_eq_nil_iff.mp hlist)
  simpa [String.isEmpty_iff] using hstr

theorem Codec.Lawful.parse_line (hj : j.Lawful) (e : Entry) : parse j (j.line e) = some e := by
  rw [parse, not_blank_of_head (hj.object e) (by decide)]
  simp only [Bool.false_eq_true, if_false, Codec.line, String.ofList_toList]
  exact hj.round_trip e

/-- What is short of a line is no entry. -/
theorem Codec.Lawful.parse_short (hj : j.Lawful) {e : Entry} (hp : l <+: j.line e) (hne : l ≠ j.line e) :
    parse j l = none := by
  rw [parse, hj.whole e l hp hne, ite_self]

theorem parse_nil (j : Codec) : parse j [] = none := by
  rw [parse, if_pos (by decide)]

theorem Codec.Lawful.piece_plain (hj : j.Lawful) (h : Piece j l) : Plain l := by
  obtain ⟨e, he⟩ := h
  exact (hj.plain e).prefix_ he

theorem piece_nil (j : Codec) : Piece j [] := ⟨⟨"", "", "", 0, "", "", false, ""⟩, List.nil_prefix⟩

theorem piece_line (j : Codec) (e : Entry) : Piece j (j.line e) := ⟨e, List.prefix_refl _⟩

/-- The empty last line is no entry. -/
theorem filterMap_last (j : Codec) (tail : List Char) :
    (last tail).filterMap (parse j) = [tail].filterMap (parse j) := by
  unfold last
  split
  · rename_i h
    rw [h, List.filterMap_nil, List.filterMap_cons_none (parse_nil j), List.filterMap_nil]
  · rfl

/-- What a file holds is what is read. -/
theorem Holds.read (hj : j.Lawful) (h : Holds j file es) : read j file = es := by
  obtain ⟨ls, tail, rfl, hls, htail, rfl⟩ := h
  simp only [Spool.read, fromUTF8_bytes, String.toList_ofList]
  rw [entries_of_eq, lines_terminated (fun l hl => hj.piece_plain (hls l hl)) (hj.piece_plain htail),
    List.filterMap_append, List.filterMap_append, filterMap_last]

theorem Holds.readable (h : Holds j file es) : (String.fromUTF8? file).isSome = true := by
  obtain ⟨ls, tail, rfl, -⟩ := h
  rw [fromUTF8_bytes]
  rfl

theorem holds_empty (j : Codec) : Holds j ByteArray.empty [] :=
  ⟨[], [], rfl, fun _ h => absurd h List.not_mem_nil, piece_nil j,
    by rw [List.nil_append, List.filterMap_cons_none (parse_nil j), List.filterMap_nil]⟩

/-- The tail is ended when there is one. -/
theorem repair_tail_eq (ls : List (List Char)) (hq : Plain q) :
    repair_tail (bytes (terminated ls ++ q)) = if q = [] then [] else ['\n'] := by
  unfold repair_tail
  by_cases hne : q = []
  · rw [if_pos hne, hne, List.append_nil]
    by_cases hls' : ls = []
    · rw [hls']
      rfl
    · rw [last_byte_terminated hls']
      rfl
  · rw [if_neg hne]
    split
    · rename_i hnone
      -- a file with a tail has a last byte
      obtain ⟨p, c, rfl⟩ : ∃ p c, q = p ++ [c] := ⟨_, _, (List.dropLast_append_getLast hne).symm⟩
      rw [← List.append_assoc, last_byte_append] at hnone
      have hlen := String.length_utf8EncodeChar c
      have hpos := Char.utf8Size_pos c
      rw [List.getLast?_eq_none_iff.mp hnone, List.length_nil] at hlen
      omega
    · rename_i b hb
      have hb' : b ≠ 10 := by
        rintro rfl
        exact last_byte_plain hq hne hb
      rw [if_neg hb']

/-- Some of the lines that were to be appended, and a piece of the next. -/
theorem Holds.add (hj : j.Lawful) (h : Holds j file es) (n : ℕ)
    (hq : q = [] ∨ ∃ k, (new.map j.line)[n]? = some k ∧ q <+: k) :
    Holds j (file ++ bytes (repair_tail file ++ (terminated ((new.map j.line).take n) ++ q)))
      (es ++ ((new.map j.line).take n ++ [q]).filterMap (parse j)) := by
  obtain ⟨ls, tail, rfl, hls, htail, rfl⟩ := h
  have hpiece : Piece j q := by
    rcases hq with rfl | ⟨k, hk, hqk⟩
    · exact piece_nil j
    · obtain ⟨e, -, rfl⟩ := List.mem_map.mp (List.mem_of_getElem? hk)
      exact ⟨e, hqk⟩
  have htake : ∀ l ∈ (new.map j.line).take n, Piece j l := by
    intro l hl
    obtain ⟨e, -, rfl⟩ := List.mem_map.mp (List.mem_of_mem_take hl)
    exact piece_line j e
  rw [repair_tail_eq ls (hj.piece_plain htail), ← bytes_append]
  by_cases hne : tail = []
  · refine ⟨ls ++ (new.map j.line).take n, q, ?_, fun l hl => ?_, hpiece, ?_⟩
    · rw [if_pos hne, hne, terminated_append]
      simp only [List.append_nil, List.nil_append, List.append_assoc]
    · exact (List.mem_append.mp hl).elim (hls l) (htake l)
    · rw [hne]
      simp only [List.filterMap_append, List.filterMap_cons_none (parse_nil j), List.filterMap_nil,
        List.append_nil, List.append_assoc]
  · refine ⟨ls ++ [tail] ++ (new.map j.line).take n, q, ?_, fun l hl => ?_, hpiece, ?_⟩
    · rw [if_neg hne, terminated_append, terminated_append, terminated_cons, terminated_nil]
      simp only [List.append_assoc, List.cons_append, List.nil_append]
    · rcases List.mem_append.mp hl with hl | hl
      · rcases List.mem_append.mp hl with hl | hl
        · exact hls l hl
        · rw [List.mem_singleton.mp hl]
          exact htail
      · exact htake l hl
    · simp only [List.filterMap_append, List.append_assoc]

theorem filterMap_lines (hj : j.Lawful) (l : List Entry) : (l.map j.line).filterMap (parse j) = l := by
  have hline : parse j ∘ j.line = some := by
    funext e
    rw [Function.comp_apply, hj.parse_line]
  rw [List.filterMap_map, hline, List.filterMap_some]

/-- The file of these entries' lines. -/
def file_of (j : Codec) (l : List Entry) : ByteArray := bytes (terminated (l.map j.line))

theorem holds_file_of (hj : j.Lawful) (l : List Entry) : Holds j (file_of j l) l := by
  refine ⟨l.map j.line, [], ?_, fun k hk => ?_, piece_nil j, ?_⟩
  · rw [List.append_nil, file_of]
  · obtain ⟨x, -, rfl⟩ := List.mem_map.mp hk
    exact piece_line j x
  · rw [List.filterMap_append, filterMap_lines hj, List.filterMap_cons_none (parse_nil j),
      List.filterMap_nil, List.append_nil]

theorem addition_file_of (l : List Entry) (hne : new ≠ []) :
    addition j (file_of j l) new = terminated (new.map j.line) := by
  have htail := repair_tail_eq (l.map j.line) Plain.nil
  rw [List.append_nil, if_pos rfl] at htail
  rw [addition, if_neg hne, file_of, htail, List.nil_append]

/-- To whole lines an append adds whole lines. -/
theorem append_file_of (hj : j.Lawful) (l entries : List Entry) :
    Spool.append j (file_of j l) entries = (file_of j (l ++ fresh l entries), fresh l entries) := by
  simp only [Spool.append, (holds_file_of hj l).read hj]
  by_cases hne : fresh l entries = []
  · rw [hne, List.append_nil, addition, if_pos rfl, bytes_nil, ByteArray.append_empty]
  · rw [addition_file_of l hne, file_of, ← bytes_append, ← terminated_append, ← List.map_append]
    rfl

/-- A cut append has added the first of its entries. -/
theorem Holds.torn (hj : j.Lawful) (h : Holds j file es) {p : List Char} (hp : p <+: addition j file new) :
    ∃ n, Holds j (file ++ bytes p) (es ++ new.take n) := by
  have hnone : ∃ n, Holds j (file ++ bytes []) (es ++ new.take n) := by
    refine ⟨0, ?_⟩
    rw [List.take_zero, List.append_nil, bytes_nil, ByteArray.append_empty]
    exact h
  by_cases hp' : p = []
  · rw [hp']
    exact hnone
  unfold addition at hp
  split at hp
  · exact absurd (List.prefix_nil.mp hp) hp'
  · -- past the repair, it is a prefix of the lines
    obtain ⟨r, rfl, hr⟩ : ∃ r, p = repair_tail file ++ r ∧ r <+: terminated (new.map j.line) := by
      have hrepair : repair_tail file = [] ∨ repair_tail file = ['\n'] := by
        unfold repair_tail
        split
        · exact Or.inl rfl
        · split
          · exact Or.inl rfl
          · exact Or.inr rfl
      rcases hrepair with hrep | hrep <;> rw [hrep] at hp ⊢
      · exact ⟨p, rfl, hp⟩
      · cases p with
        | nil => exact absurd rfl hp'
        | cons c p =>
          obtain ⟨rfl, hrest⟩ := List.cons_prefix_cons.mp hp
          exact ⟨p, rfl, hrest⟩
    obtain ⟨n, q, rfl, hq⟩ := prefix_terminated hr
    have hadd := h.add hj n hq
    rw [List.filterMap_append, ← List.map_take, filterMap_lines hj, List.map_take] at hadd
    -- the piece is an entry if it is all of one
    by_cases hlast : ∃ k, (new.map j.line)[n]? = some k ∧ q = k
    · obtain ⟨k, hk, rfl⟩ := hlast
      rw [List.getElem?_map] at hk
      obtain ⟨e, he, rfl⟩ := Option.map_eq_some_iff.mp hk
      refine ⟨n + 1, ?_⟩
      rw [List.take_add_one, he]
      have hone : [j.line e].filterMap (parse j) = [e] := filterMap_lines hj [e]
      rw [hone] at hadd
      exact hadd
    · have hshort : parse j q = none := by
        rcases hq with rfl | ⟨k, hk, hqk⟩
        · exact parse_nil j
        · obtain ⟨e, -, rfl⟩ := List.mem_map.mp (List.mem_of_getElem? hk)
          exact hj.parse_short hqk fun heq => hlast ⟨_, hk, heq⟩
      refine ⟨n, ?_⟩
      rw [List.filterMap_cons_none hshort, List.filterMap_nil, List.append_nil] at hadd
      exact hadd

/-- An append that succeeds has added all of its entries. -/
theorem Holds.append (hj : j.Lawful) (h : Holds j file es) (new : List Entry) :
    Holds j (file ++ bytes (addition j file new)) (es ++ new) := by
  unfold addition
  split
  · rename_i hnew
    rw [hnew, List.append_nil, bytes_nil, ByteArray.append_empty]
    exact h
  · have hadd := h.add (q := []) hj new.length
      (Or.inl rfl : _ ∨ ∃ k, (new.map j.line)[new.length]? = some k ∧ [] <+: k)
    rw [List.take_of_length_le (by rw [List.length_map]), List.append_nil, List.filterMap_append,
      filterMap_lines hj, List.filterMap_cons_none (parse_nil j), List.filterMap_nil,
      List.append_nil] at hadd
    exact hadd

/-- A rewrite leaves what it keeps. -/
theorem holds_rewrite (hj : j.Lawful) (now : ℤ) (l : List Entry) :
    Holds j (rewrite j now l) (l.filter (keeps j now)) := by
  unfold rewrite
  generalize l.filter (keeps j now) = kept
  cases kept with
  | nil =>
    refine ⟨[[]], [], rfl, fun k hk => ?_, piece_nil j, ?_⟩
    · rw [List.mem_singleton.mp hk]
      exact piece_nil j
    · simp only [List.cons_append, List.nil_append, List.filterMap_cons_none (parse_nil j),
        List.filterMap_nil]
  | cons e kept =>
    have hlines := holds_file_of hj (e :: kept)
    rw [file_of, List.map_cons, ← intercalate_terminated] at hlines
    exact hlines

end Files

/-! ## The steps -/

/-- The entry without its flag. -/
def Entry.reference (e : Entry) : Entry := { e with confirmed := false }

section Steps

variable {j : Codec} {s t : Sys} {a : Act} {tr : List (Trans Sys Act)} {x y : Entry} {settled : List String}
  {held l : List Entry}

theorem same_iff : same x y = true ↔ x.reference = y.reference := by
  cases x
  cases y
  simp only [same, Entry.reference, beq_iff_eq, Entry.mk.injEq, true_and]

theorem mem_settle (h : y ∈ settle settled held) : ∃ x ∈ held, x.reference = y.reference := by
  obtain ⟨x, hx, rfl⟩ := List.mem_map.mp h
  refine ⟨x, hx, ?_⟩
  split <;> rfl

theorem settle_of_mem (settled : List String) (h : x ∈ held) :
    ∃ y ∈ settle settled held, x.reference = y.reference := by
  refine ⟨_, List.mem_map.mpr ⟨x, h, rfl⟩, ?_⟩
  split <;> rfl

theorem spooled_iff {id : String} : spooled id l = true ↔ ∃ e ∈ l, e.delivery_id = id := by
  simp only [spooled, List.any_eq_true, beq_iff_eq]

/-- What `append` writes: entries it was given, none that is spooled and none twice, and of each
entry it was given there is one, here or there. -/
theorem fresh_spec (existing entries : List Entry) :
    Keyed Entry.delivery_id (fresh existing entries) ∧
      (∀ x ∈ fresh existing entries, spooled x.delivery_id existing = false) ∧
      (∀ x ∈ fresh existing entries, x ∈ entries) ∧
      ∀ x ∈ entries, spooled x.delivery_id existing = true ∨
        spooled x.delivery_id (fresh existing entries) = true := by
  -- along the entries, with what was taken so far
  suffices ∀ acc : List Entry, Keyed Entry.delivery_id acc →
      (∀ x ∈ acc, spooled x.delivery_id existing = false) →
      let r := entries.foldl (fun acc e =>
        if spooled e.delivery_id existing || spooled e.delivery_id acc then acc else acc ++ [e]) acc
      Keyed Entry.delivery_id r ∧ (∀ x ∈ r, spooled x.delivery_id existing = false) ∧
        (∀ x ∈ r, x ∈ acc ∨ x ∈ entries) ∧ (∀ x ∈ acc, x ∈ r) ∧
        ∀ x ∈ entries, spooled x.delivery_id existing = true ∨ spooled x.delivery_id r = true by
    obtain ⟨hkeyed, hnew, hsub, -, hall⟩ := this [] (.nil _) fun _ h => absurd h List.not_mem_nil
    exact ⟨hkeyed, hnew, fun x hx => (hsub x hx).resolve_left List.not_mem_nil, hall⟩
  induction entries with
  | nil => exact fun acc hk hn => ⟨hk, hn, fun x hx => Or.inl hx, fun x hx => hx,
      fun x hx => absurd hx List.not_mem_nil⟩
  | cons e entries ih =>
    intro acc hk hn
    simp only [List.foldl_cons]
    by_cases hold : (spooled e.delivery_id existing || spooled e.delivery_id acc) = true
    · rw [if_pos hold]
      obtain ⟨hkeyed, hnew, hsub, hkeep, hall⟩ := ih acc hk hn
      refine ⟨hkeyed, hnew, fun x hx => (hsub x hx).imp_right (List.mem_cons_of_mem _), hkeep, fun x hx => ?_⟩
      rcases List.mem_cons.mp hx with rfl | hx
      · rw [Bool.or_eq_true] at hold
        refine hold.imp_right fun hacc => ?_
        obtain ⟨y, hy, hid⟩ := spooled_iff.mp hacc
        exact spooled_iff.mpr ⟨y, hkeep y hy, hid⟩
      · exact hall x hx
    · rw [if_neg hold]
      simp only [Bool.or_eq_true, not_or, Bool.not_eq_true] at hold
      obtain ⟨hkeyed, hnew, hsub, hkeep, hall⟩ := ih (acc ++ [e])
        (hk.insert_into fun x hx hid => by
          have hin := spooled_iff.mpr ⟨x, hx, hid⟩
          rw [hold.2] at hin
          exact nomatch hin)
        (fun x hx => by
          rcases List.mem_append.mp hx with hx | hx
          · exact hn x hx
          · rw [List.mem_singleton.mp hx]
            exact hold.1)
      refine ⟨hkeyed, hnew, fun x hx => ?_, fun x hx => hkeep x (List.mem_append_left _ hx), fun x hx => ?_⟩
      · rcases hsub x hx with hx | hx
        · rcases List.mem_append.mp hx with hx | hx
          · exact Or.inl hx
          · rw [List.mem_singleton.mp hx]
            exact Or.inr List.mem_cons_self
        · exact Or.inr (List.mem_cons_of_mem _ hx)
      · rcases List.mem_cons.mp hx with rfl | hx
        · have hin := hkeep x (List.mem_append_right _ (List.mem_singleton.mpr rfl))
          exact Or.inr (spooled_iff.mpr ⟨x, hin, rfl⟩)
        · exact hall x hx

/-- New entries leave what is there alone, and the keys apart. -/
theorem keyed_fresh {existing : List Entry} (entries : List Entry) (h : Keyed Entry.delivery_id existing) (n : ℕ) :
    Keyed Entry.delivery_id (existing ++ (fresh existing entries).take n) := by
  obtain ⟨hkeyed, hnew, -, -⟩ := fresh_spec existing entries
  refine keyed_append.mpr ⟨h, ?_, fun x hx y hy hid => ?_⟩
  · exact List.Nodup.sublist (List.Sublist.map _ (List.take_sublist _ _)) hkeyed
  · have hin := spooled_iff.mpr ⟨x, hx, hid⟩
    rw [hnew y (List.mem_of_mem_take hy)] at hin
    cases hin

/-- The file is well formed, and names nothing twice. -/
def Base (j : Codec) (s : Sys) : Prop := ∃ es, Holds j s.file es ∧ Keyed Entry.delivery_id es

theorem Base.read (hj : j.Lawful) (hb : Base j s) :
    Holds j s.file (read j s.file) ∧ Keyed Entry.delivery_id (read j s.file) := by
  obtain ⟨es, hes, hkeyed⟩ := hb
  rw [hes.read hj]
  exact ⟨hes, hkeyed⟩

/-- What a step keeps, when what it adds to the file is known. -/
theorem kept_of_append (hj : j.Lawful) (more : List Entry)
    (ht : Holds j t.file (read j s.file ++ more)) (hkeyed : Keyed Entry.delivery_id (read j s.file ++ more))
    (happ : ∀ call entries, a = .append call entries → ∀ x ∈ entries,
      ∃ y ∈ read j s.file ++ more, y.delivery_id = x.delivery_id ∧ (y ∈ entries ∨ y ∈ read j s.file)) :
    Kept j ⟨s, a, t⟩ := by
  refine ⟨ht.readable, ?_, fun x hx _ => ⟨x, ?_, same_iff.mpr rfl⟩, fun call entries ha x hx => ?_⟩
  · rw [ht.read hj]
    exact hkeyed
  · rw [ht.read hj]
    exact List.mem_append_left _ hx
  · obtain ⟨y, hy, hrest⟩ := happ call entries ha x hx
    refine ⟨y, ?_, hrest⟩
    rw [ht.read hj]
    exact hy

theorem rewrite_kept_iff (hj : j.Lawful) {call : ℕ} {now : ℤ}
    (ht : t.file = rewrite j now (settle settled (s.held call))) :
    intact j s (.rewrite call now settled) = true ↔ Kept j ⟨s, .rewrite call now settled, t⟩ := by
  have hholds := holds_rewrite hj now (settle settled (s.held call))
  rw [← ht] at hholds
  have hread := hholds.read hj
  simp only [intact, Bool.and_eq_true, decide_eq_true_eq, List.all_eq_true, Bool.or_eq_true,
    Bool.not_eq_true', List.any_eq_true]
  constructor
  · rintro ⟨hkeyed, hall⟩
    refine ⟨hholds.readable, ?_, fun x hx hstay => ?_, fun _ _ ha => nomatch ha⟩
    · rw [hread]
      exact hkeyed
    · simp only [drops, Bool.or_eq_false_iff, Bool.not_eq_false', List.any_eq_false, Bool.and_eq_true,
        Bool.not_eq_true', not_and, Bool.not_eq_false] at hstay
      obtain ⟨hkeep, hnone⟩ := hstay
      obtain ⟨h, hh, hsame⟩ := (hall x hx).resolve_left (by rw [hkeep]; decide)
      obtain ⟨y, hy, href⟩ := settle_of_mem settled hh
      have hxy : same x y = true := same_iff.mpr ((same_iff.mp hsame).trans href)
      refine ⟨y, ?_, hxy⟩
      rw [hread]
      exact List.mem_filter.mpr ⟨hy, hnone y hy hxy⟩
  · intro hkept
    refine ⟨?_, fun x hx => ?_⟩
    · have hunique := hkept.unique
      rw [hread] at hunique
      exact hunique
    · by_cases hkeep : keeps j now x = true
      · right
        -- somebody in the list has the reference, kept or dropped
        have hlist : ∃ y ∈ settle settled (s.held call), same x y = true := by
          cases hdrop : drops j x s (.rewrite call now settled) with
          | true =>
            simp only [drops, hkeep, Bool.not_true, Bool.false_or, List.any_eq_true, Bool.and_eq_true] at hdrop
            obtain ⟨y, hy, hsame, -⟩ := hdrop
            exact ⟨y, hy, hsame⟩
          | false =>
            obtain ⟨y, hy, hsame⟩ := hkept.stays x hx hdrop
            rw [hread] at hy
            exact ⟨y, (List.mem_filter.mp hy).1, hsame⟩
        obtain ⟨y, hy, hsame⟩ := hlist
        obtain ⟨h, hh, href⟩ := mem_settle hy
        exact ⟨h, hh, same_iff.mpr ((same_iff.mp hsame).trans href.symm)⟩
      · left
        simpa using hkeep

/-- A step keeps what the spool promises exactly when it is intact. -/
theorem intact_iff_kept (hj : j.Lawful) (hb : Base j s) (h : step j s a = some t) :
    intact j s a = true ↔ Kept j ⟨s, a, t⟩ := by
  obtain ⟨hholds, hkeyed⟩ := hb.read hj
  have hsame : t.file = s.file → (∀ call entries, a ≠ .append call entries) → Kept j ⟨s, a, t⟩ := by
    intro hfile ha
    refine kept_of_append hj [] ?_ ?_ fun call entries hact => absurd hact (ha call entries)
    · rw [hfile, List.append_nil]
      exact hholds
    · rw [List.append_nil]
      exact hkeyed
  cases a with
  | read call | leave call =>
    obtain rfl := Option.some.inj h
    exact iff_of_true rfl (hsame rfl fun _ _ => by simp)
  | append call entries =>
    obtain rfl := Option.some.inj h
    refine iff_of_true rfl (kept_of_append hj _ (hholds.append hj _) ?_ fun _ es hact x hx => ?_)
    · have hall := keyed_fresh entries hkeyed (fresh (Spool.read j s.file) entries).length
      rw [List.take_length] at hall
      exact hall
    · obtain ⟨-, rfl⟩ := Act.append.inj hact
      obtain ⟨-, -, hsub, hall⟩ := fresh_spec (Spool.read j s.file) entries
      rcases hall x hx with hin | hin
      · obtain ⟨y, hy, hid⟩ := spooled_iff.mp hin
        exact ⟨y, List.mem_append_left _ hy, hid, Or.inr hy⟩
      · obtain ⟨y, hy, hid⟩ := spooled_iff.mp hin
        exact ⟨y, List.mem_append_right _ hy, hid, Or.inl (hsub y hy)⟩
  | torn call entries n =>
    simp only [step] at h
    split at h
    · rename_i hn
      obtain rfl := Option.some.inj h
      constructor
      · intro hcut
        obtain ⟨p, hp, hpre⟩ := prefix_of_cut hcut
        obtain ⟨m, hm⟩ := hholds.torn hj hpre
        have hfile : torn_append j s.file entries n = s.file ++ bytes p := by rw [torn_append, hp]
        rw [← hfile] at hm
        exact kept_of_append hj _ hm (keyed_fresh entries hkeyed m) fun _ _ hact => nomatch hact
      · intro hkept
        -- the file is text, so what was added to it is
        have hvalid := readable_iff.mp hkept.readable
        obtain ⟨ls, tail, hfile, -⟩ := hholds
        have htorn : (torn_append j s.file entries n).IsValidUTF8 := hvalid
        rw [torn_append, hfile, valid_append_iff, ← hfile] at htorn
        exact (boundary_iff hn).mpr htorn
    · cases h
  | rewrite call now settled =>
    simp only [step] at h
    split at h
    · cases h
    · obtain rfl := Option.some.inj h
      exact rewrite_kept_iff hj rfl

theorem Base.step (hj : j.Lawful) (hb : Base j s) (hc : intact j s a = true) (h : step j s a = some t) :
    Base j t := by
  obtain ⟨hholds, hkeyed⟩ := hb.read hj
  have hunique := ((intact_iff_kept hj hb h).mp hc).unique
  have hform : ∃ es, Holds j t.file es := by
    cases a with
    | read call | leave call =>
      obtain rfl := Option.some.inj h
      exact ⟨_, hholds⟩
    | append call entries =>
      obtain rfl := Option.some.inj h
      exact ⟨_, hholds.append hj _⟩
    | torn call entries n =>
      simp only [Spool.step] at h
      split at h
      · obtain rfl := Option.some.inj h
        obtain ⟨p, hp, hpre⟩ := prefix_of_cut hc
        obtain ⟨m, hm⟩ := hholds.torn hj hpre
        have hfile : torn_append j s.file entries n = s.file ++ bytes p := by rw [torn_append, hp]
        rw [← hfile] at hm
        exact ⟨_, hm⟩
      · cases h
    | rewrite call now settled =>
      simp only [Spool.step] at h
      split at h
      · cases h
      · obtain rfl := Option.some.inj h
        exact ⟨_, holds_rewrite hj now _⟩
  obtain ⟨es, hes⟩ := hform
  refine ⟨es, hes, ?_⟩
  rw [← hes.read hj]
  exact hunique

/-! ## A call by itself -/

/-- While the call is under way, nobody else writes: others read, or end. -/
def alone (call : ℕ) : Act → Bool
  | .read _ => true
  | .append c _ => c == call
  | .leave c => c != call
  | _ => false

/-- The call has in hand what the file holds. -/
def InHand (j : Codec) (call : ℕ) (s : Sys) : Prop := Base j s ∧ s.held call = read j s.file

theorem InHand.step {call : ℕ} (hj : j.Lawful) (hi : InHand j call s) (hc : alone call a = true)
    (h : step j s a = some t) : InHand j call t := by
  have hintact : intact j s a = true := by cases a <;> first | rfl | cases hc
  refine ⟨hi.1.step hj hintact h, ?_⟩
  cases a with
  | read c =>
    obtain rfl := Option.some.inj h
    by_cases heq : call = c
    · subst heq
      exact Function.update_self _ _ _
    · exact (Function.update_of_ne heq _ _).trans hi.2
  | append c entries =>
    obtain rfl := Option.some.inj h
    obtain rfl : c = call := by simpa [alone] using hc
    have hread := ((hi.1.read hj).1.append hj (fresh (Spool.read j s.file) entries)).read hj
    rw [← congrArg (· ++ _) hi.2] at hread
    exact (Function.update_self _ _ _).trans hread.symm
  | leave c =>
    obtain rfl := Option.some.inj h
    have hne : c ≠ call := by simpa [alone] using hc
    exact (Function.update_of_ne hne.symm _ _).trans hi.2
  | torn | rewrite => cases hc

/-- **A call whose read and rewrite nobody comes between** rewrites a list that names what the
file has to keep, and nothing twice. -/
theorem rewrite_alone {m : Sys} {call : ℕ} (hj : j.Lawful) (hb : Base j s) (hread : step j s (.read call) = some m)
    (h : Run (Rel (step j)) m tr t) (halone : ∀ e ∈ tr, alone call e.act = true) (now : ℤ) :
    intact j t (.rewrite call now settled) = true := by
  have hstart : InHand j call m := by
    obtain rfl := Option.some.inj hread
    exact ⟨hb, Function.update_self _ _ _⟩
  obtain ⟨hbase, hheld⟩ := h.invariant (C := fun _ a => alone call a = true) hstart
    (fun _ _ _ hi hc hr => hi.step hj hc hr) halone
  have hids : (settle settled (read j t.file)).map Entry.delivery_id = (read j t.file).map Entry.delivery_id := by
    rw [settle, List.map_map]
    refine List.map_congr_left fun e _ => ?_
    show (if _ then _ else e).delivery_id = _
    split <;> rfl
  simp only [intact, hheld, Bool.and_eq_true, decide_eq_true_eq, List.all_eq_true, Bool.or_eq_true, List.any_eq_true]
  refine ⟨List.Nodup.sublist (List.Sublist.map _ List.filter_sublist) ?_, fun x hx => .inr ⟨x, hx, same_iff.mpr rfl⟩⟩
  rw [hids]
  exact (hbase.read hj).2

/-! ## The law of a run -/

/-- An entry through a run: it is there, or a rewrite has dropped it. -/
theorem stays_through {m : Sys} (h : Run (Rel (step j)) m tr s) (hk : ∀ e ∈ tr, Kept j e) (hy : y ∈ read j m.file) :
    (∃ e ∈ tr, ∃ z ∈ read j e.pre.file, same y z = true ∧ drops j z e.pre e.act = true) ∨
      ∃ z ∈ read j s.file, same y z = true := by
  induction h with
  | nil => exact Or.inr ⟨y, hy, same_iff.mpr rfl⟩
  | @snoc tr s t a hrun hr ih =>
    have hlast := hk _ (List.mem_append_right _ (List.mem_singleton.mpr rfl))
    rcases ih fun e he => hk e (List.mem_append_left _ he) with ⟨e, he, hdrop⟩ | ⟨z, hz, hsame⟩
    · exact Or.inl ⟨e, List.mem_append_left _ he, hdrop⟩
    · cases hdrop : drops j z s a with
      | true =>
        exact Or.inl ⟨_, List.mem_append_right _ (List.mem_singleton.mpr rfl), z, hz, hsame, hdrop⟩
      | false =>
        obtain ⟨w, hw, hzw⟩ := hlast.stays z hz hdrop
        exact Or.inr ⟨w, hw, same_iff.mpr ((same_iff.mp hsame).trans (same_iff.mp hzw))⟩

/-- An id that is named is named once. -/
theorem once (h : Keyed Entry.delivery_id l) (hx : x ∈ l) :
    l.countP (fun w => w.delivery_id == x.delivery_id) = 1 := by
  have hone := List.count_eq_one_of_mem h (List.mem_map_of_mem hx)
  rw [List.count, List.countP_map] at hone
  exact hone

/-- **The spool survives a crash exactly as long as no crash cuts inside a character** and no
call rewrites a list that misses what another call has spooled meanwhile: then every entry of
every successful append is returned once by every later read, until a rewrite drops it as
confirmed and old. -/
theorem spool_survives_crashes (hj : j.Lawful) (h : Run (Rel (step j)) .start tr s) :
    (∀ e ∈ tr, intact j e.pre e.act = true) ↔ SpoolLaw j tr s := by
  have hstart : Base j .start := ⟨[], holds_empty j, .nil _⟩
  have hiff := h.forall_iff (B := Base j) (C := fun s a => intact j s a = true) (K := Kept j) hstart
    (fun s a t hb hc hr => hb.step hj hc hr) fun s a t hb hr => intact_iff_kept hj hb hr
  constructor
  · intro hC
    have hsteps := hiff.mp hC
    refine ⟨hsteps, fun tr₁ e tr₂ htr call entries hact x hx => ?_⟩
    have hb : Base j s := h.invariant (C := fun s a => intact j s a = true) hstart
      (fun s a t hb hc hr => hb.step hj hc hr) hC
    subst htr
    obtain ⟨y, hy, hid, -⟩ := (hsteps e (by simp)).appended call entries hact x hx
    refine ⟨y, hy, hid, ?_⟩
    have hrest := stays_through h.split.2.2 (fun e' he' => hsteps e' (by simp [he'])) hy
    refine hrest.imp_right fun ⟨z, hz, hsame⟩ => ⟨z, hz, hsame, ?_⟩
    have hzid : z.delivery_id = x.delivery_id := by
      have href := congrArg Entry.delivery_id (same_iff.mp hsame)
      exact href.symm.trans hid
    rw [← hzid]
    exact once (hb.read hj).2 hz
  · exact fun hlaw => hiff.mpr hlaw.steps

end Steps

/-! ## JSON, for closed runs -/

/-- A character inside quotes. -/
def escape (c : Char) : List Char :=
  if c = '"' ∨ c = '\\' then ['\\', c]
  else if c.toNat < 32 then
    ['\\', 'u', '0', '0', hex_digit (c.toNat / 16), hex_digit (c.toNat % 16)]
  else [c]

/-- A string. -/
def quote (s : String) : List Char := '"' :: (s.toList.flatMap escape ++ ['"'])

/-- The value of a hexadecimal digit. -/
def unhex (c : Char) : ℕ := if c.toNat < 58 then c.toNat - 48 else c.toNat - 87

/-- What is inside quotes, after the first, and what follows the second. -/
def unquote : List Char → Option (List Char × List Char)
  | [] => none
  | c :: rest =>
    if c = '"' then some ([], rest)
    else if c = '\\' then
      match rest with
      | [] => none
      | 'u' :: '0' :: '0' :: a :: b :: more =>
        (unquote more).map fun p => (Char.ofNat (16 * unhex a + unhex b) :: p.1, p.2)
      | d :: more => (unquote more).map fun p => (d :: p.1, p.2)
    else (unquote rest).map fun p => (c :: p.1, p.2)

/-- A number. -/
def decimal (n : ℤ) : List Char :=
  if n < 0 then '-' :: Nat.toDigits 10 n.natAbs else Nat.toDigits 10 n.natAbs

/-- The value of a number. -/
def undecimal : List Char → ℤ
  | '-' :: l => -(Messaging.value l : ℤ)
  | l => (Messaging.value l : ℤ)

/-- The name of a member, with what stands before it. -/
def label (c : Char) (name : String) : List Char := c :: '"' :: (name.toList ++ ['"', ':'])

/-- The text expected next, and what follows it. -/
def expect (p l : List Char) : Option (List Char) :=
  if l.take p.length = p then some (l.drop p.length) else none

/-- A string member. -/
def text_member (c : Char) (name : String) (l : List Char) : Option (String × List Char) :=
  (expect (label c name) l).bind fun l => (expect ['"'] l).bind fun l =>
    (unquote l).map fun p => (String.ofList p.1, p.2)

/-- A member that is no string, and is not the last. -/
def bare_member (name : String) (l : List Char) : Option (List Char × List Char) :=
  (expect (label ',' name) l).map fun l => (l.takeWhile (· != ','), l.dropWhile (· != ','))

/-- The line of an entry. -/
def json_line (e : Entry) : List Char :=
  label '\x7b' "delivery_id" ++ (quote e.delivery_id ++ (label ',' "message_id" ++ (quote e.message_id ++
    (label ',' "conversation_id" ++ (quote e.conversation_id ++ (label ',' "seq" ++ (decimal e.seq.toInt ++
      (label ',' "from_address" ++ (quote e.from_address ++ (label ',' "created_at" ++ (quote e.created_at ++
        (label ',' "confirmed" ++ ((toString e.confirmed).toList ++ (label ',' "spooled_at" ++
          (quote e.spooled_at ++ ['\x7d'])))))))))))))))

/-- An entry, and what follows its line. -/
def parse_json (l : List Char) : Option (Entry × List Char) :=
  (text_member '\x7b' "delivery_id" l).bind fun (delivery_id, l) =>
  (text_member ',' "message_id" l).bind fun (message_id, l) =>
  (text_member ',' "conversation_id" l).bind fun (conversation_id, l) =>
  (bare_member "seq" l).bind fun (seq, l) =>
  (text_member ',' "from_address" l).bind fun (from_address, l) =>
  (text_member ',' "created_at" l).bind fun (created_at, l) =>
  (bare_member "confirmed" l).bind fun (confirmed, l) =>
  (text_member ',' "spooled_at" l).bind fun (spooled_at, l) =>
  (expect ['\x7d'] l).map fun l =>
    (⟨delivery_id, message_id, conversation_id, Int64.ofInt (undecimal seq), from_address, created_at,
      confirmed == "true".toList, spooled_at⟩, l)

/-- The codec; no instant is read. -/
def json : Codec where
  to_string e := String.ofList (json_line e)
  from_str s := match parse_json s.toList with
    | some (e, []) => if json_line e = s.toList then some e else none
    | _ => none
  parse_from_rfc3339 _ := none

/-- The two digits of a control character. -/
theorem unhex_hex_digit : ∀ n < 32, 16 * unhex (hex_digit (n / 16)) + unhex (hex_digit (n % 16)) = n := by
  decide

theorem unquote_escape (c : Char) (l : List Char) :
    unquote (escape c ++ l) = (unquote l).map fun p => (c :: p.1, p.2) := by
  unfold escape
  split
  · rename_i h
    rcases h with rfl | rfl
    · rfl
    · rfl
  · rename_i h
    rw [not_or] at h
    split
    · rename_i hlt
      have hc : Char.ofNat (16 * unhex (hex_digit (c.toNat / 16)) + unhex (hex_digit (c.toNat % 16))) = c := by
        rw [unhex_hex_digit c.toNat hlt, Char.ofNat_toNat]
      simp only [List.cons_append, List.nil_append]
      rw [unquote.eq_def]
      simp only [hc, if_pos, if_neg (show '\\' ≠ '"' by decide)]
    · rw [List.singleton_append, unquote.eq_def]
      simp only [if_neg h.1, if_neg h.2]

/-- What is quoted is read back, whatever follows it. -/
theorem unquote_quoted (cs rest : List Char) :
    unquote (cs.flatMap escape ++ '"' :: rest) = some (cs, rest) := by
  induction cs with
  | nil =>
    rw [List.flatMap_nil, List.nil_append, unquote.eq_def]
    rfl
  | cons c cs ih =>
    rw [List.flatMap_cons, List.append_assoc, unquote_escape, ih]
    rfl

theorem expect_append (p l : List Char) : expect p (p ++ l) = some l := by
  rw [expect, if_pos (List.take_left), List.drop_left]

theorem text_member_append (c : Char) (name s : String) (l : List Char) :
    text_member c name (label c name ++ (quote s ++ l)) = some (s, l) := by
  have hquote : quote s ++ l = ['"'] ++ (s.toList.flatMap escape ++ '"' :: l) := by
    simp only [quote, List.cons_append, List.append_assoc, List.nil_append]
  rw [text_member, expect_append, hquote, Option.bind_some, expect_append, Option.bind_some, unquote_quoted,
    Option.map_some, String.ofList_toList]

/-- A number is digits, with a sign at most. -/
theorem mem_decimal {n : ℤ} {c : Char} (h : c ∈ decimal n) : c = '-' ∨ c.isDigit = true := by
  unfold decimal at h
  split at h
  · rcases List.mem_cons.mp h with hc | hc
    · exact Or.inl hc
    · exact Or.inr (Nat.isDigit_of_mem_toDigits (by decide) (by decide) hc)
  · exact Or.inr (Nat.isDigit_of_mem_toDigits (by decide) (by decide) h)

theorem undecimal_decimal (n : ℤ) : undecimal (decimal n) = n := by
  unfold decimal
  split
  · rename_i hn
    rw [undecimal, Messaging.value_toDigits]
    omega
  · rename_i hn
    have hhead : ∀ l, Nat.toDigits 10 n.natAbs ≠ '-' :: l := by
      intro l hl
      have hdigit : ('-' : Char).isDigit = true := by
        refine Nat.isDigit_of_mem_toDigits (b := 10) (n := n.natAbs) (by decide) (by decide) ?_
        rw [hl]
        exact List.mem_cons_self
      cases hdigit
    rw [undecimal.eq_2 _ hhead, Messaging.value_toDigits]
    omega

/-- A value without a comma ends where the next member begins. -/
theorem bare_member_append (name next : String) {v : List Char} (hv : ',' ∉ v) (l : List Char) :
    bare_member name (label ',' name ++ (v ++ (label ',' next ++ l))) = some (v, label ',' next ++ l) := by
  have hno : ∀ c ∈ v, (c != ',') = true := by
    intro c hc
    rw [bne_iff_ne]
    rintro rfl
    exact hv hc
  rw [bare_member, expect_append, Option.map_some, List.takeWhile_append_of_pos hno,
    List.dropWhile_append_of_pos hno]
  simp [label]

theorem comma_not_mem_decimal (n : ℤ) : ',' ∉ decimal n := by
  intro hc
  rcases mem_decimal hc with h | h
  · cases h
  · cases h

theorem comma_not_mem_bool (b : Bool) : ',' ∉ (toString b).toList := by
  cases b <;> decide

theorem toString_beq_true (b : Bool) : ((toString b).toList == "true".toList) = b := by
  cases b <;> decide

theorem parse_json_line (e : Entry) (rest : List Char) :
    parse_json (json_line e ++ rest) = some (e, rest) := by
  simp only [json_line, List.append_assoc, parse_json, text_member_append, Option.bind_some,
    bare_member_append _ _ (comma_not_mem_decimal e.seq.toInt), bare_member_append _ _ (comma_not_mem_bool e.confirmed),
    expect_append, Option.map_some, undecimal_decimal, Int64.ofInt_toInt, toString_beq_true]

theorem json_line_eq (e : Entry) : json.line e = json_line e := String.toList_ofList

variable {p l : List Char}

theorem json_from_str {e : Entry} :
    json.from_str (String.ofList p) = some e ↔ json_line e = p := by
  simp only [json, String.toList_ofList]
  constructor
  · intro h
    split at h
    · split at h
      · rename_i hline
        rw [← Option.some.inj h]
        exact hline
      · cases h
    · cases h
  · rintro rfl
    have hparse := parse_json_line e []
    rw [List.append_nil] at hparse
    simp only [hparse, if_true]

/-- No control character is written as it is. -/
theorem printable_escape {c d : Char} (h : d ∈ escape c) : 32 ≤ d.toNat := by
  have hdigit : ∀ n < 32, 32 ≤ (hex_digit (n / 16)).toNat ∧ 32 ≤ (hex_digit (n % 16)).toNat := by decide
  unfold escape at h
  split at h
  · rename_i hc
    rcases List.mem_pair.mp h with rfl | rfl
    · decide
    · rcases hc with rfl | rfl <;> decide
  · split at h
    · rename_i hlt
      simp only [List.mem_cons, List.not_mem_nil, or_false] at h
      rcases h with rfl | rfl | rfl | rfl | rfl | rfl
      · decide
      · decide
      · decide
      · decide
      · exact (hdigit c.toNat hlt).1
      · exact (hdigit c.toNat hlt).2
    · rename_i hge
      rw [List.mem_singleton.mp h]
      omega

/-- All its characters are printable. -/
def Printable (l : List Char) : Prop := ∀ c ∈ l, 32 ≤ c.toNat

theorem Printable.plain (h : Printable l) : Plain l := by
  refine fun c hc => ⟨?_, ?_⟩
  · rintro rfl
    exact absurd (h _ hc) (by decide)
  · rintro rfl
    exact absurd (h _ hc) (by decide)

theorem Printable.append (hl : Printable l) (hp : Printable p) : Printable (l ++ p) :=
  fun c hc => (List.mem_append.mp hc).elim (hl c) (hp c)

theorem printable_quote (s : String) : Printable (quote s) := by
  intro c hc
  rw [quote, List.mem_cons, List.mem_append, List.mem_flatMap, List.mem_singleton] at hc
  rcases hc with rfl | ⟨d, -, hd⟩ | rfl
  · decide
  · exact printable_escape hd
  · decide

theorem printable_decimal (n : ℤ) : Printable (decimal n) := by
  intro c hc
  rcases mem_decimal hc with rfl | h
  · decide
  · exact le_trans (by decide) (Char.isDigit_iff_toNat.mp h).1

theorem printable_of_all (h : l.all (fun c => decide (32 ≤ c.toNat)) = true) : Printable l :=
  fun c hc => of_decide_eq_true (List.all_eq_true.mp h c hc)

theorem printable_bool (b : Bool) : Printable (toString b).toList := by
  cases b
  · exact printable_of_all (by decide)
  · exact printable_of_all (by decide)

theorem printable_json_line (e : Entry) : Printable (json_line e) := by
  unfold json_line
  refine .append (printable_of_all (by decide)) (.append (printable_quote _) ?_)
  refine .append (printable_of_all (by decide)) (.append (printable_quote _) ?_)
  refine .append (printable_of_all (by decide)) (.append (printable_quote _) ?_)
  refine .append (printable_of_all (by decide)) (.append (printable_decimal _) ?_)
  refine .append (printable_of_all (by decide)) (.append (printable_quote _) ?_)
  refine .append (printable_of_all (by decide)) (.append (printable_quote _) ?_)
  refine .append (printable_of_all (by decide)) (.append (printable_bool _) ?_)
  refine .append (printable_of_all (by decide)) (.append (printable_quote _) ?_)
  exact printable_of_all (by decide)

theorem json_lawful : json.Lawful where
  object e := by
    rw [json_line_eq]
    rfl
  plain e := by
    rw [json_line_eq]
    exact (printable_json_line e).plain
  round_trip e := by
    have hself : json.to_string e = String.ofList (json_line e) := rfl
    rw [hself, json_from_str]
  whole e p hp hne := by
    rw [json_line_eq] at hp hne
    refine Option.eq_none_iff_forall_ne_some.mpr fun e' he' => hne ?_
    obtain ⟨rest, hrest⟩ := hp
    have hline := json_from_str.mp he'
    rw [← hline] at hrest ⊢
    have hparse := parse_json_line e' rest
    have hself := parse_json_line e []
    rw [List.append_nil] at hself
    rw [hrest, hself] at hparse
    rw [(Prod.mk.inj (Option.some.inj hparse)).1]

/-! ## Two calls -/

section Calls

variable {j : Codec} {a b : Entry} {n : ℕ}

/-- A call has spooled a reference. -/
def spooled_one (j : Codec) (a : Entry) : Sys := { Sys.start.hold 0 [a] with file := file_of j [a] }

theorem spool_one (hj : j.Lawful) (a : Entry) : step j .start (.append 0 [a]) = some (spooled_one j a) := by
  have happ := append_file_of hj [] [a]
  have hempty : file_of j [] = ByteArray.empty := rfl
  rw [hempty] at happ
  simp only [step, Sys.start, happ]
  rfl

theorem read_one (hj : j.Lawful) (a : Entry) : read j (spooled_one j a).file = [a] :=
  (holds_file_of hj [a]).read hj

theorem fresh_other (hab : a.delivery_id ≠ b.delivery_id) : fresh [a] [b] = [b] := by
  simp [fresh, spooled, hab]

/-- What a second call writes to spool another. -/
theorem second_addition (hj : j.Lawful) (hab : a.delivery_id ≠ b.delivery_id) :
    addition j (spooled_one j a).file (fresh (read j (spooled_one j a).file) [b]) = terminated [j.line b] := by
  rw [read_one hj, fresh_other hab]
  exact addition_file_of [a] (List.cons_ne_nil _ _)

/-- The second call is killed when it has written so many bytes. -/
def killed (j : Codec) (a b : Entry) (n : ℕ) : Sys :=
  { (spooled_one j a).hold 1 [] with file := torn_append j (spooled_one j a).file [b] n }

/-- The two calls. -/
def killing (j : Codec) (a b : Entry) (n : ℕ) : List (Trans Sys Act) :=
  [⟨.start, .append 0 [a], spooled_one j a⟩, ⟨spooled_one j a, .torn 1 [b] n, killed j a b n⟩]

theorem killing_run (hj : j.Lawful) (hab : a.delivery_id ≠ b.delivery_id)
    (hn : n ≤ (bytes (terminated [j.line b])).size) :
    Run (Rel (step j)) .start (killing j a b n) (killed j a b n) := by
  have htorn : step j (spooled_one j a) (.torn 1 [b] n) = some (killed j a b n) := by
    rw [step, second_addition hj hab, if_pos hn]
    rfl
  exact .snoc (.snoc .nil (spool_one hj a)) htorn

theorem killing_intact (hj : j.Lawful) (hab : a.delivery_id ≠ b.delivery_id)
    (hcut : (String.Pos.Raw.mk n).isValid (String.ofList (terminated [j.line b])) = true) :
    ∀ e ∈ killing j a b n, intact j e.pre e.act = true := by
  intro e he
  rcases List.mem_pair.mp he with rfl | rfl
  · rfl
  · rw [intact, second_addition hj hab]
    exact hcut

/-- Cut inside a character, the file is no text. -/
theorem killed_unreadable (hj : j.Lawful) (hab : a.delivery_id ≠ b.delivery_id)
    (hn : n ≤ (bytes (terminated [j.line b])).size)
    (hcut : (String.Pos.Raw.mk n).isValid (String.ofList (terminated [j.line b])) = false) :
    String.fromUTF8? (killed j a b n).file = none := by
  have hfile : (killed j a b n).file = file_of j [a] ++ (bytes (terminated [j.line b])).extract 0 n := by
    rw [← second_addition hj hab]
    rfl
  have hnot : ¬ (String.fromUTF8? (killed j a b n).file).isSome = true := by
    rw [readable_iff, hfile, file_of, valid_append_iff, ← boundary_iff hn, hcut]
    decide
  rw [Option.not_isSome_iff_eq_none] at hnot
  exact hnot

/-- Another call has the spool in hand, and adds to it. -/
def spooled_two (j : Codec) (a b : Entry) : Sys :=
  { ((spooled_one j a).hold 1 [a]).hold 1 [a, b] with file := file_of j [a, b] }

/-- The first rewrites the list it has. -/
def rewritten (j : Codec) (a b : Entry) : Sys :=
  { (spooled_two j a b).hold 0 [] with file := rewrite j 0 (settle [a.delivery_id] [a]) }

/-- The two calls. -/
def overlapping (j : Codec) (a b : Entry) : List (Trans Sys Act) :=
  [⟨.start, .append 0 [a], spooled_one j a⟩, ⟨spooled_one j a, .read 1, (spooled_one j a).hold 1 [a]⟩,
    ⟨(spooled_one j a).hold 1 [a], .append 1 [b], spooled_two j a b⟩,
    ⟨spooled_two j a b, .rewrite 0 0 [a.delivery_id], rewritten j a b⟩]

theorem overlapping_run (hj : j.Lawful) (hab : a.delivery_id ≠ b.delivery_id) (ha : a.confirmed = false) :
    Run (Rel (step j)) .start (overlapping j a b) (rewritten j a b) := by
  have hread : step j (spooled_one j a) (.read 1) = some ((spooled_one j a).hold 1 [a]) := by
    rw [step, read_one hj]
  have hadd : step j ((spooled_one j a).hold 1 [a]) (.append 1 [b]) = some (spooled_two j a b) := by
    have happ := append_file_of hj [a] [b]
    rw [fresh_other hab] at happ
    simp only [step, Sys.hold, spooled_one, happ]
    rfl
  have hrew : step j (spooled_two j a b) (.rewrite 0 0 [a.delivery_id]) = some (rewritten j a b) := by
    have hheld : (spooled_two j a b).held 0 = [a] := rfl
    have hne : unconfirmed [a] ≠ [] := by simp [unconfirmed, ha]
    rw [step, hheld, if_neg hne]
    rfl
  exact .snoc (.snoc (.snoc (.snoc .nil (spool_one hj a)) hread) hadd) hrew

theorem other_settled (hab : a.delivery_id ≠ b.delivery_id) :
    ∀ y ∈ settle [a.delivery_id] [a], same b y = false := by
  intro y hy
  obtain ⟨x, hx, href⟩ := mem_settle hy
  rw [List.mem_singleton.mp hx] at href
  refine Bool.eq_false_iff.mpr fun hsame => hab ?_
  exact (congrArg Entry.delivery_id href).trans (congrArg Entry.delivery_id (same_iff.mp hsame)).symm

theorem read_rewritten (hj : j.Lawful) (hab : a.delivery_id ≠ b.delivery_id) :
    ∀ y ∈ read j (rewritten j a b).file, same b y = false := by
  have hread : read j (rewritten j a b).file = (settle [a.delivery_id] [a]).filter (keeps j 0) :=
    (holds_rewrite hj 0 (settle [a.delivery_id] [a])).read hj
  intro y hy
  rw [hread] at hy
  exact other_settled hab y (List.mem_filter.mp hy).1

/-- What the second call has spooled is gone, though no rewrite dropped it. -/
theorem overlapping_lost (hj : j.Lawful) (hab : a.delivery_id ≠ b.delivery_id) (hb : b.confirmed = false) :
    ¬ SpoolLaw j (overlapping j a b) (rewritten j a b) := by
  intro hlaw
  have hkept := hlaw.steps ⟨spooled_two j a b, .rewrite 0 0 [a.delivery_id], rewritten j a b⟩
    (by simp [overlapping])
  have hpre : read j (spooled_two j a b).file = [a, b] := (holds_file_of hj [a, b]).read hj
  have hdrop : drops j b (spooled_two j a b) (.rewrite 0 0 [a.delivery_id]) = false := by
    have hheld : (spooled_two j a b).held 0 = [a] := rfl
    have hother : (settle [a.delivery_id] [a]).any (fun h => same b h && !keeps j 0 h) = false := by
      refine List.any_eq_false.mpr fun y hy => ?_
      simp [other_settled hab y hy]
    rw [drops, hheld, hother]
    simp [keeps, hb]
  obtain ⟨y, hy, hsame⟩ := hkept.stays b (by rw [hpre]; simp) hdrop
  rw [read_rewritten hj hab y hy] at hsame
  cases hsame

end Calls

/-- A reference as the inbox hands it out. -/
def reference (id sender : String) : Entry :=
  ⟨id, "m-" ++ id, "c-1", 1, sender, "2025-05-01T10:00:00Z", false, "2025-05-01T10:00:01Z"⟩

/-- A reference to what Ada has sent. -/
def ada : Entry := reference "d-1" "ada/hall"

/-- And to what José has. -/
def jose : Entry := reference "d-2" "josé/hall"

theorem ada_ne_jose : ada.delivery_id ≠ jose.delivery_id := by decide

theorem jose_line : json.line jose = json_line jose := json_line_eq jose

theorem jose_size : 94 < (bytes (terminated [json.line jose])).size := by
  rw [jose_line, size_bytes]
  decide +kernel

/-- Cut between two characters, the file still holds the first reference. -/
theorem spool_survives_killing : SpoolLaw json (killing json ada jose 20) (killed json ada jose 20) := by
  have hsize : 20 ≤ (bytes (terminated [json.line jose])).size := le_trans (by decide) jose_size.le
  have hcut : (String.Pos.Raw.mk 20).isValid (String.ofList (terminated [json.line jose])) = true := by
    rw [valid_iff_cut (lt_trans (by decide) jose_size), jose_line]
    decide
  exact (spool_survives_crashes json_lawful (killing_run json_lawful ada_ne_jose hsize)).mp
    (killing_intact json_lawful ada_ne_jose hcut)

/-- Cut inside the é it holds nothing any more, and where the calls overlap what the second has
spooled is lost. -/
theorem spool_is_lost :
    (Run (Rel (step json)) .start (killing json ada jose 94) (killed json ada jose 94) ∧
      read json (killed json ada jose 94).file = [] ∧
      ¬ SpoolLaw json (killing json ada jose 94) (killed json ada jose 94)) ∧
      Run (Rel (step json)) .start (overlapping json ada jose) (rewritten json ada jose) ∧
      (∀ y ∈ read json (rewritten json ada jose).file, same jose y = false) ∧
      ¬ SpoolLaw json (overlapping json ada jose) (rewritten json ada jose) := by
  have hcut : (String.Pos.Raw.mk 94).isValid (String.ofList (terminated [json.line jose])) = false := by
    rw [Bool.eq_false_iff, Ne, valid_iff_cut jose_size, jose_line]
    decide +kernel
  have hnone := killed_unreadable json_lawful ada_ne_jose jose_size.le hcut
  refine ⟨⟨killing_run json_lawful ada_ne_jose jose_size.le, ?_, fun hlaw => ?_⟩,
    overlapping_run json_lawful ada_ne_jose rfl, read_rewritten json_lawful ada_ne_jose,
    overlapping_lost json_lawful ada_ne_jose rfl⟩
  · rw [Spool.read, hnone]
  · have hreadable := (hlaw.steps ⟨spooled_one json ada, .torn 1 [jose] 94, killed json ada jose 94⟩
      (by simp [killing])).readable
    rw [hnone] at hreadable
    exact absurd hreadable (by decide)

end CrewSync.Spool
