/-
`normalize_base_url` of `admin_cli.rs` and `mcp_url_of` of `context.rs`: what is typed as
the address of a bus.

The text loses the slashes at its end, then `/mcp` and the slashes before it, then
`/admin` and the slashes before it, each once and in this order, before anybody looks
whether it begins like a URL. So what is typed is always the base that comes out and a
path after it (`typed_eq`), and the base's authority is the one typed.

Three things go wrong. A host that is called `mcp` or `admin` is itself taken for the
path, since the slashes of `://` are slashes too. The length is compared with `https://`
whatever the scheme, so that no host of one byte has an `http` address. And the base may
end like a path again, or in a blank, and is another one when it is read again: the second
reading agrees exactly with the first where what is typed is a base that does not (`Once`).
-/
import Mathlib.Data.Bool.AllAny
import Mathlib.Data.List.DropRight
import CrewSync.Auth

set_option autoImplicit false

namespace CrewSync.BusUrl

open Auth (is_whitespace trim trim_toList)

/-! ## `normalize_base_url` -/

/-- `str::trim_end_matches('/')`. -/
def trim_slashes (url : List Char) : List Char := url.rdropWhile (· == '/')

/-- `str::strip_suffix`. -/
def strip_suffix (suffix url : List Char) : Option (List Char) :=
  if suffix <:+ url then some (url.take (url.length - suffix.length)) else none

/-- `"/mcp"`. -/
def MCP : List Char := ['/', 'm', 'c', 'p']

/-- `"/admin"`. -/
def ADMIN : List Char := ['/', 'a', 'd', 'm', 'i', 'n']

/-- One round of the loop over the suffixes. -/
def without (url suffix : List Char) : List Char :=
  match strip_suffix suffix url with
  | some stripped => trim_slashes stripped
  | none => url

/-- What the loop leaves of a text. -/
def stripped (typed : List Char) : List Char :=
  [MCP, ADMIN].foldl without (trim_slashes typed)

/-- `"http://"`. -/
def HTTP : List Char := ['h', 't', 't', 'p', ':', '/', '/']

/-- `"https://"`. -/
def HTTPS : List Char := ['h', 't', 't', 'p', 's', ':', '/', '/']

/-- `normalize_base_url`. -/
def normalize_base_url (raw : String) : Except String String :=
  let url := stripped (trim raw).toList
  if ¬(HTTP <+: url ∨ HTTPS <+: url) then
    .error ("--url must start with http:// or https:// (got '" ++ raw ++ "')")
  else if (String.ofList url).utf8ByteSize ≤ (String.ofList HTTPS).utf8ByteSize then
    .error ("--url has no host (got '" ++ raw ++ "')")
  else .ok (String.ofList url)

/-- `mcp_url_of`. -/
def mcp_url_of (base : String) : Except String String := do
  let base ← normalize_base_url base
  .ok (base ++ "/mcp")

/-! ## What a text is made of -/

/-- The text ends in no slash. -/
def Unslashed (url : List Char) : Prop := ∀ rest, url ≠ rest ++ ['/']

/-- The text ends in nothing that is stripped. -/
structure Bare (url : List Char) : Prop where
  unslashed : Unslashed url
  mcp : ¬MCP <:+ url
  admin : ¬ADMIN <:+ url

/-- `n` slashes. -/
def slashes (n : ℕ) : List Char := List.replicate n '/'

/-- What may be typed behind a base: slashes, and `/admin` and `/mcp` at most once each, in
this order. -/
inductive Path : List Char → Prop
  | none (n : ℕ) : Path (slashes n)
  | mcp (n m : ℕ) : Path (slashes n ++ MCP ++ slashes m)
  | admin (n m : ℕ) : Path (slashes n ++ ADMIN ++ slashes m)
  | both (n m k : ℕ) : Path (slashes n ++ ADMIN ++ slashes m ++ MCP ++ slashes k)

variable {url rest suffix b p : List Char}

theorem trim_slashes_concat (url : List Char) : trim_slashes (url ++ ['/']) = trim_slashes url :=
  List.rdropWhile_concat_pos _ _ _ rfl

theorem trim_slashes_append (url : List Char) (n : ℕ) :
    trim_slashes (url ++ slashes n) = trim_slashes url := by
  induction n with
  | zero => rw [slashes, List.replicate_zero, List.append_nil]
  | succ n ih =>
    rw [slashes, List.replicate_succ', ← List.append_assoc, trim_slashes_concat]
    exact ih

theorem Unslashed.trim (h : Unslashed url) : trim_slashes url = url := by
  induction url using List.reverseRecOn with
  | nil => rfl
  | append_singleton url c _ =>
    apply List.rdropWhile_concat_neg
    intro hc
    apply h url
    rw [beq_iff_eq.mp hc]

/-- Trimming takes off slashes and nothing else. -/
theorem trim_slashes_spec (url : List Char) :
    ∃ n, url = trim_slashes url ++ slashes n ∧ Unslashed (trim_slashes url) := by
  induction url using List.reverseRecOn with
  | nil => exact ⟨0, rfl, fun rest h => by simp [trim_slashes] at h⟩
  | append_singleton url c ih =>
    by_cases hc : c = '/'
    · obtain ⟨n, hn, hun⟩ := ih
      rw [hc, trim_slashes_concat]
      refine ⟨n + 1, ?_, hun⟩
      rw [slashes, List.replicate_succ', ← List.append_assoc]
      rw [← slashes, ← hn]
    · have hun : Unslashed (url ++ [c]) := by
        intro rest h
        apply hc
        exact List.singleton_inj.mp (List.append_inj_right' h rfl)
      exact ⟨0, by rw [hun.trim]; exact (List.append_nil _).symm, by rwa [hun.trim]⟩

theorem without_append (url suffix : List Char) : without (url ++ suffix) suffix = trim_slashes url := by
  have hstrip : strip_suffix suffix (url ++ suffix) = some url := by
    rw [strip_suffix, if_pos (List.suffix_append url suffix), List.length_append,
      Nat.add_sub_cancel, List.take_left]
  rw [without, hstrip]

theorem without_of_not (h : ¬suffix <:+ url) : without url suffix = url := by
  rw [without, strip_suffix, if_neg h]

/-- A round takes off the suffix and slashes before it, or nothing. -/
theorem without_spec (h : Unslashed url) (suffix : List Char) :
    Unslashed (without url suffix) ∧
      ((without url suffix = url ∧ ¬suffix <:+ url) ∨
        ∃ n, url = without url suffix ++ slashes n ++ suffix) := by
  by_cases hsuf : suffix <:+ url
  · obtain ⟨rest, rfl⟩ := hsuf
    rw [without_append]
    obtain ⟨n, hn, hun⟩ := trim_slashes_spec rest
    exact ⟨hun, Or.inr ⟨n, by rw [← hn]⟩⟩
  · rw [without_of_not hsuf]
    exact ⟨h, Or.inl ⟨rfl, hsuf⟩⟩

theorem unslashed_mcp : Unslashed (rest ++ MCP) := by
  intro before h
  have hlast := congrArg List.getLast? h
  simp [MCP, List.getLast?_append] at hlast

theorem unslashed_admin : Unslashed (rest ++ ADMIN) := by
  intro before h
  have hlast := congrArg List.getLast? h
  simp [ADMIN, List.getLast?_append] at hlast

theorem not_mcp_of_admin (rest : List Char) : ¬MCP <:+ rest ++ ADMIN := by
  rintro ⟨before, h⟩
  have hlast := congrArg List.getLast? h
  simp [MCP, ADMIN, List.getLast?_append] at hlast

/-- Every text is a base and a path, and the base is what the loop leaves. -/
theorem typed_eq (typed : List Char) :
    Unslashed (stripped typed) ∧ ∃ p, Path p ∧ typed = stripped typed ++ p := by
  obtain ⟨n, hn, hun⟩ := trim_slashes_spec typed
  have hmcp := without_spec hun MCP
  have hadmin := without_spec hmcp.1 ADMIN
  refine ⟨hadmin.1, ?_⟩
  have hst : stripped typed = without (without (trim_slashes typed) MCP) ADMIN := rfl
  rw [hst]
  generalize without (without (trim_slashes typed) MCP) ADMIN = b at *
  generalize without (trim_slashes typed) MCP = u at *
  generalize trim_slashes typed = v at *
  rcases hmcp.2 with ⟨hv, -⟩ | ⟨m, hv⟩ <;> rcases hadmin.2 with ⟨hb, -⟩ | ⟨k, hb⟩
  · refine ⟨slashes n, Path.none n, ?_⟩
    rw [hn, ← hv, hb]
  · refine ⟨_, Path.admin k n, ?_⟩
    rw [hn, ← hv, hb]
    simp only [List.append_assoc]
  · refine ⟨_, Path.mcp m n, ?_⟩
    rw [hn, hv, hb]
    simp only [List.append_assoc]
  · refine ⟨_, Path.both k m n, ?_⟩
    rw [hn, hv, hb]
    simp only [List.append_assoc]

/-- A base that ends in nothing that is stripped comes out, whatever path is typed behind it. -/
theorem stripped_of_bare (hb : Bare b) (hp : Path p) : stripped (b ++ p) = b := by
  rw [stripped, List.foldl_cons, List.foldl_cons, List.foldl_nil]
  cases hp with
  | none n =>
    rw [trim_slashes_append, hb.unslashed.trim, without_of_not hb.mcp, without_of_not hb.admin]
  | mcp n m =>
    rw [← List.append_assoc, trim_slashes_append, ← List.append_assoc, unslashed_mcp.trim,
      without_append, trim_slashes_append, hb.unslashed.trim, without_of_not hb.admin]
  | admin n m =>
    rw [← List.append_assoc, trim_slashes_append, ← List.append_assoc, unslashed_admin.trim,
      without_of_not (not_mcp_of_admin _), without_append, trim_slashes_append, hb.unslashed.trim]
  | both n m k =>
    rw [← List.append_assoc, trim_slashes_append, ← List.append_assoc, unslashed_mcp.trim,
      without_append, ← List.append_assoc, trim_slashes_append, ← List.append_assoc,
      unslashed_admin.trim, without_append, trim_slashes_append, hb.unslashed.trim]

/-- A text that loses nothing ends in nothing that is stripped. -/
theorem bare_of_stripped (h : stripped url = url) : Bare url := by
  have hun : Unslashed url := by
    rw [← h]
    exact (typed_eq url).1
  have hfold : without (without url MCP) ADMIN = url := by
    rw [stripped, hun.trim] at h
    exact h
  obtain ⟨hun', hmcp⟩ := without_spec hun MCP
  obtain ⟨-, hadmin⟩ := without_spec hun' ADMIN
  -- either round leaves less of the text as soon as it finds its suffix
  have hlen : (without (without url MCP) ADMIN).length = url.length := by rw [hfold]
  rcases hmcp with ⟨hsame, hmcp⟩ | ⟨n, hn⟩
  · rcases hadmin with ⟨-, hadmin⟩ | ⟨n, hn⟩
    · rw [hsame] at hadmin
      exact ⟨hun, hmcp, hadmin⟩
    · have hn' := congrArg List.length hn
      rw [hsame] at hn' hlen
      simp only [List.length_append, ADMIN, List.length_cons] at hn'
      rw [← ADMIN] at hn'
      omega
  · have hn' := congrArg List.length hn
    simp only [List.length_append, MCP, List.length_cons] at hn'
    rw [← MCP] at hn'
    rcases hadmin with ⟨hsame, -⟩ | ⟨m, hm⟩
    · rw [hsame] at hlen
      omega
    · have hm' := congrArg List.length hm
      simp only [List.length_append] at hm'
      omega

/-! ## Blanks -/

/-- The text ends in no blank. -/
def Unblank (url : List Char) : Prop := ∀ rest c, url = rest ++ [c] → is_whitespace c = false

theorem rdropWhile_blank (h : Unblank url) : url.rdropWhile is_whitespace = url := by
  induction url using List.reverseRecOn with
  | nil => rfl
  | append_singleton url c _ =>
    apply List.rdropWhile_concat_neg
    rw [h url c rfl]
    exact Bool.false_ne_true

theorem trim_eq_self {raw : String} {c : Char} (hraw : raw.toList = c :: rest)
    (hc : is_whitespace c = false) (h : Unblank raw.toList) : trim raw = raw := by
  apply String.toList_injective
  have hfirst : raw.toList.dropWhile is_whitespace = raw.toList := by
    rw [hraw, List.dropWhile_cons_of_neg (by rw [hc]; exact Bool.false_ne_true)]
  rw [trim_toList, Trims.trim, hfirst, rdropWhile_blank h]

theorem trim_length_le (raw : String) : (trim raw).toList.length ≤ raw.toList.length := by
  rw [trim_toList, Trims.trim]
  exact ((List.rdropWhile_prefix _ _).length_le).trans (List.dropWhile_suffix _).length_le

theorem unblank_of_trim {raw : String} (h : trim raw = raw) : Unblank raw.toList := by
  intro rest c hc
  rw [← h, trim_toList, Trims.trim] at hc
  have hne : (raw.toList.dropWhile is_whitespace).rdropWhile is_whitespace ≠ [] := by
    rw [hc]
    exact List.append_ne_nil_of_right_ne_nil _ (List.cons_ne_nil _ _)
  have hlast := List.rdropWhile_last_not is_whitespace _ hne
  simp only [hc, List.getLast_append_singleton] at hlast
  exact Bool.eq_false_of_not_eq_true hlast

/-! ## What is accepted -/

/-- The text begins like a URL and is longer than a scheme. -/
structure Url (url : List Char) : Prop where
  scheme : HTTP <+: url ∨ HTTPS <+: url
  long : (String.ofList HTTPS).utf8ByteSize < (String.ofList url).utf8ByteSize

variable {raw out : String}

theorem normalize_base_url_ok_iff :
    normalize_base_url raw = .ok out ↔ out.toList = stripped (trim raw).toList ∧ Url out.toList := by
  unfold normalize_base_url
  by_cases hscheme : HTTP <+: stripped (trim raw).toList ∨ HTTPS <+: stripped (trim raw).toList
  · rw [if_neg (not_not_intro hscheme)]
    by_cases hlong : (String.ofList (stripped (trim raw).toList)).utf8ByteSize ≤
        (String.ofList HTTPS).utf8ByteSize
    · rw [if_pos hlong]
      constructor
      · intro h
        cases h
      · rintro ⟨hout, hurl⟩
        rw [hout] at hurl
        exact absurd hurl.long (Nat.not_lt.mpr hlong)
    · rw [if_neg hlong, Except.ok.injEq]
      constructor
      · rintro rfl
        rw [String.toList_ofList]
        exact ⟨rfl, hscheme, Nat.not_le.mp hlong⟩
      · rintro ⟨hout, -⟩
        rw [← hout, String.ofList_toList]
  · rw [if_pos hscheme]
    constructor
    · intro h
      cases h
    · rintro ⟨hout, hurl⟩
      rw [hout] at hurl
      exact absurd hurl.scheme hscheme

theorem Url.first (h : Url url) : ∃ rest, url = 'h' :: rest := by
  rcases h.scheme with ⟨rest, rfl⟩ | ⟨rest, rfl⟩
  · exact ⟨_, rfl⟩
  · exact ⟨_, rfl⟩

/-! ## Reading it again -/

/-- What is typed is a base that ends neither like a path nor in a blank, and a path. -/
def Once (raw : String) : Prop :=
  ∃ b p, (trim raw).toList = b ++ p ∧ Bare b ∧ Unblank b ∧ Path p

/-- Only a text without a path behind it, and without blanks around it, loses nothing. -/
theorem stripped_trim_eq_self (h : raw.toList = stripped (trim raw).toList) :
    trim raw = raw ∧ stripped raw.toList = raw.toList := by
  obtain ⟨-, p, -, hp⟩ := typed_eq (trim raw).toList
  rw [← h] at hp
  have hlen := trim_length_le raw
  have hp' := congrArg List.length hp
  rw [List.length_append] at hp'
  have hnil : p = [] := by
    apply List.eq_nil_of_length_eq_zero
    omega
  rw [hnil, List.append_nil] at hp
  have htrim : trim raw = raw := String.toList_injective hp
  rw [htrim] at h
  exact ⟨htrim, h.symm⟩

theorem normalize_again_iff (h : normalize_base_url raw = .ok out) :
    normalize_base_url out = .ok out ↔ Once raw := by
  obtain ⟨hout, hurl⟩ := normalize_base_url_ok_iff.mp h
  constructor
  · intro hagain
    obtain ⟨hself, -⟩ := normalize_base_url_ok_iff.mp hagain
    obtain ⟨htrim, hstrip⟩ := stripped_trim_eq_self hself
    obtain ⟨-, p, hpath, hp⟩ := typed_eq (trim raw).toList
    rw [← hout] at hp
    exact ⟨out.toList, p, hp, bare_of_stripped hstrip, unblank_of_trim htrim, hpath⟩
  · rintro ⟨b, p, hraw, hbare, hblank, hpath⟩
    have hb : out.toList = b := by rw [hout, hraw, stripped_of_bare hbare hpath]
    obtain ⟨rest, hfirst⟩ := hurl.first
    have htrim : trim out = out := by
      apply trim_eq_self hfirst (by decide)
      rw [hb]
      exact hblank
    apply normalize_base_url_ok_iff.mpr
    refine ⟨?_, hurl⟩
    have hself : stripped (b ++ []) = b := stripped_of_bare hbare (Path.none 0)
    rw [List.append_nil] at hself
    rw [htrim, hb, hself]

/-! ## The spellings of one bus -/

/-- The text of an authority: a host, and what may stand beside it. -/
structure Authority (a : List Char) : Prop where
  nonempty : a ≠ []
  plain : ∀ c ∈ a, c ≠ '/' ∧ c ≠ '?' ∧ c ≠ '#' ∧ is_whitespace c = false

/-- The host is taken for the path: it is the last thing in the text that looks like one. -/
def Misread (a path : List Char) : Prop :=
  (path = [] ∧ (a = ['m', 'c', 'p'] ∨ a = ['a', 'd', 'm', 'i', 'n'])) ∨
    (path = MCP ∧ a = ['a', 'd', 'm', 'i', 'n'])

variable {a w path scheme before : List Char}

/-- Behind the last slash of a text, there is one thing. -/
theorem after_last_slash (ha : '/' ∉ a) (hw : '/' ∉ w) (h : before ++ '/' :: w = rest ++ '/' :: a) : a = w := by
  have hrev := congrArg List.reverse h
  simp only [List.reverse_append, List.reverse_cons, List.append_assoc, List.singleton_append] at hrev
  have htake := congrArg (List.takeWhile (· != '/')) hrev
  rw [List.takeWhile_append_of_pos, List.takeWhile_append_of_pos] at htake
  · simpa using htake.symm
  · intro c hc
    simp only [bne_iff_ne, ne_eq]
    rintro rfl
    exact ha (List.mem_reverse.mp hc)
  · intro c hc
    simp only [bne_iff_ne, ne_eq]
    rintro rfl
    exact hw (List.mem_reverse.mp hc)

theorem Authority.no_slash (h : Authority a) : '/' ∉ a := fun hmem => (h.plain _ hmem).1 rfl

theorem Authority.last (h : Authority a) (scheme : List Char) :
    ∃ rest c, scheme ++ a = rest ++ [c] ∧ c ∈ a := by
  refine ⟨scheme ++ a.dropLast, a.getLast h.nonempty, ?_, List.getLast_mem h.nonempty⟩
  rw [List.append_assoc, List.dropLast_append_getLast]

theorem Authority.unslashed (h : Authority a) (scheme : List Char) : Unslashed (scheme ++ a) := by
  obtain ⟨rest, c, hrest, hc⟩ := h.last scheme
  intro rest' hrest'
  rw [hrest] at hrest'
  apply (h.plain c hc).1
  exact List.singleton_inj.mp (List.append_inj_right' hrest' rfl)

theorem Authority.not_suffix (h : Authority a) (hw : '/' ∉ w) (hne : a ≠ w) (rest : List Char) :
    ¬ '/' :: w <:+ rest ++ ['/'] ++ a := by
  rintro ⟨before, hbefore⟩
  rw [List.append_assoc, List.singleton_append] at hbefore
  exact hne (after_last_slash h.no_slash hw hbefore)

/-- What the loop leaves of a base and one of the two paths. -/
theorem stripped_spelling (h : Authority a) (hpath : path = [] ∨ path = MCP ∨ path = ADMIN)
    (hmis : ¬Misread a path) (rest : List Char) (n : ℕ) :
    stripped (rest ++ ['/'] ++ a ++ path ++ slashes n) = rest ++ ['/'] ++ a := by
  have hun := h.unslashed (rest ++ ['/'])
  have hadmin (hne : a ≠ ['a', 'd', 'm', 'i', 'n']) : ¬ADMIN <:+ rest ++ ['/'] ++ a :=
    h.not_suffix (by decide) hne rest
  rw [stripped, List.foldl_cons, List.foldl_cons, List.foldl_nil, trim_slashes_append]
  rcases hpath with rfl | rfl | rfl
  · have hmcp : ¬MCP <:+ rest ++ ['/'] ++ a :=
      h.not_suffix (by decide) (fun ha => hmis (Or.inl ⟨rfl, Or.inl ha⟩)) rest
    rw [List.append_nil, hun.trim, without_of_not hmcp,
      without_of_not (hadmin fun ha => hmis (Or.inl ⟨rfl, Or.inr ha⟩))]
  · rw [unslashed_mcp.trim, without_append, hun.trim,
      without_of_not (hadmin fun ha => hmis (Or.inr ⟨rfl, ha⟩))]
  · rw [unslashed_admin.trim, without_of_not (not_mcp_of_admin _), without_append, hun.trim]

/-- Nothing is left behind the scheme's colon when the host is taken for the path. -/
theorem stripped_misread (hscheme : scheme = HTTP ∨ scheme = HTTPS) (hmis : Misread a path) (n : ℕ) :
    ¬Url (stripped (scheme ++ a ++ path ++ slashes n)) := by
  have hslashes (typed : List Char) : stripped (typed ++ slashes n) = stripped typed := by
    rw [stripped, trim_slashes_append]
    rfl
  have hno (url : List Char) (h : ¬(HTTP <+: url ∨ HTTPS <+: url)) : ¬Url url := fun hurl => h hurl.scheme
  rw [hslashes]
  apply hno
  rcases hscheme with rfl | rfl <;> rcases hmis with ⟨rfl, rfl | rfl⟩ | ⟨rfl, rfl⟩ <;> decide

/-- A host of one byte is too short for `http`. -/
theorem url_iff (hscheme : scheme = HTTP ∨ scheme = HTTPS) (ha : Authority a) :
    Url (scheme ++ a) ↔ ¬(scheme = HTTP ∧ (String.ofList a).utf8ByteSize = 1) := by
  have hpos : (String.ofList a).utf8ByteSize ≠ 0 := by
    intro h
    have hnil : a = [] := by simpa using h
    exact ha.nonempty hnil
  have hhttp : (String.ofList HTTP).utf8ByteSize = 7 := by decide
  have hhttps : (String.ofList HTTPS).utf8ByteSize = 8 := by decide
  have hbytes : (String.ofList (scheme ++ a)).utf8ByteSize =
      (String.ofList scheme).utf8ByteSize + (String.ofList a).utf8ByteSize := by
    rw [String.ofList_append, String.utf8ByteSize_append]
  constructor
  · rintro ⟨-, hlong⟩ ⟨rfl, hone⟩
    rw [hbytes] at hlong
    omega
  · intro hcond
    rcases hscheme with rfl | rfl
    · refine ⟨Or.inl (List.prefix_append _ _), ?_⟩
      have hone : (String.ofList a).utf8ByteSize ≠ 1 := fun hone => hcond ⟨rfl, hone⟩
      rw [hbytes]
      omega
    · refine ⟨Or.inr (List.prefix_append _ _), ?_⟩
      rw [hbytes]
      omega

theorem trim_no_blank (h : ∀ c ∈ raw.toList, is_whitespace c = false) : trim raw = raw := by
  have hblank : Unblank raw.toList := by
    intro rest c hc
    apply h
    rw [hc]
    exact List.mem_append_right _ List.mem_cons_self
  cases hraw : raw.toList with
  | nil => rw [String.toList_eq_nil_iff.mp hraw]; decide
  | cons c rest => exact trim_eq_self hraw (h c (hraw ▸ List.mem_cons_self)) hblank

theorem trim_spelling (hscheme : scheme = HTTP ∨ scheme = HTTPS) (ha : Authority a)
    (hpath : path = [] ∨ path = MCP ∨ path = ADMIN) (n : ℕ) :
    trim (String.ofList (scheme ++ a ++ path ++ slashes n)) =
      String.ofList (scheme ++ a ++ path ++ slashes n) := by
  have hconst : ∀ l ∈ [HTTP, HTTPS, [], MCP, ADMIN], ∀ c ∈ l, is_whitespace c = false := by
    have hall : ∀ l ∈ [HTTP, HTTPS, [], MCP, ADMIN], (l.all fun c => !is_whitespace c) = true := by decide
    intro l hl c hc
    have hc := List.all_eq_true.mp (hall l hl) c hc
    rwa [Bool.not_eq_true'] at hc
  apply trim_no_blank
  intro c hc
  rw [String.toList_ofList, List.mem_append, List.mem_append, List.mem_append] at hc
  rcases hc with ((hc | hc) | hc) | hc
  · apply hconst scheme _ c hc
    rcases hscheme with rfl | rfl <;> simp
  · exact (ha.plain c hc).2.2.2
  · apply hconst path _ c hc
    rcases hpath with rfl | rfl | rfl <;> simp
  · rw [List.eq_of_mem_replicate hc]
    decide

/-- Which spellings of a bus come out as its scheme and authority. -/
theorem normalize_spelling_iff (hscheme : scheme = HTTP ∨ scheme = HTTPS) (ha : Authority a)
    (hpath : path = [] ∨ path = MCP ∨ path = ADMIN) (n : ℕ) :
    normalize_base_url (String.ofList (scheme ++ a ++ path ++ slashes n)) =
        .ok (String.ofList (scheme ++ a)) ↔
      ¬Misread a path ∧ ¬(scheme = HTTP ∧ (String.ofList a).utf8ByteSize = 1) := by
  rw [normalize_base_url_ok_iff, trim_spelling hscheme ha hpath, String.toList_ofList,
    String.toList_ofList]
  by_cases hmis : Misread a path
  · constructor
    · rintro ⟨hsame, hurl⟩
      rw [hsame] at hurl
      exact absurd hurl (stripped_misread hscheme hmis n)
    · rintro ⟨hnot, -⟩
      exact absurd hmis hnot
  · have hsplit : ∃ rest, scheme = rest ++ ['/'] := by
      rcases hscheme with rfl | rfl
      · exact ⟨['h', 't', 't', 'p', ':', '/'], rfl⟩
      · exact ⟨['h', 't', 't', 'p', 's', ':', '/'], rfl⟩
    have hstrip : stripped (scheme ++ a ++ path ++ slashes n) = scheme ++ a := by
      obtain ⟨rest, rfl⟩ := hsplit
      exact stripped_spelling ha hpath hmis rest n
    rw [hstrip, url_iff hscheme ha]
    exact ⟨fun h => ⟨hmis, h.2⟩, fun h => ⟨rfl, h.2⟩⟩

/-! ## The authority -/

/-- What follows the first `://`. -/
def after_scheme : List Char → List Char
  | ':' :: '/' :: '/' :: rest => rest
  | _ :: rest => after_scheme rest
  | [] => []

/-- The authority of a URL: up to its path, its query or its fragment. -/
def authority (url : String) : List Char :=
  (after_scheme url.toList).takeWhile fun c => c != '/' && c != '?' && c != '#'

theorem Path.head (hp : Path p) : p = [] ∨ ∃ rest, p = '/' :: rest := by
  have hslash (n : ℕ) (rest : List Char) (h : ∃ rest', rest = '/' :: rest') :
      ∃ rest', slashes n ++ rest = '/' :: rest' := by
    cases n with
    | zero => exact h
    | succ n => exact ⟨_, rfl⟩
  cases hp with
  | none n =>
    cases n with
    | zero => exact Or.inl rfl
    | succ n => exact Or.inr ⟨_, rfl⟩
  | mcp n m | admin n m =>
    rw [List.append_assoc]
    exact Or.inr (hslash n _ ⟨_, rfl⟩)
  | both n m k =>
    rw [List.append_assoc, List.append_assoc, List.append_assoc]
    exact Or.inr (hslash n _ ⟨_, rfl⟩)

/-- A path typed behind a URL is not part of its authority. -/
theorem authority_append (h : Url url) (hp : p = [] ∨ ∃ rest, p = '/' :: rest) :
    authority (String.ofList (url ++ p)) = authority (String.ofList url) := by
  have htake (rest : List Char) :
      (rest ++ p).takeWhile (fun c => c != '/' && c != '?' && c != '#') =
        rest.takeWhile fun c => c != '/' && c != '?' && c != '#' := by
    rcases hp with rfl | ⟨p, rfl⟩
    · rw [List.append_nil]
    · rw [List.takeWhile_append]
      split
      · rename_i hall
        rw [List.takeWhile_cons_of_neg (by decide), List.append_nil]
        exact ((List.takeWhile_prefix _).eq_of_length hall).symm
      · rfl
  unfold authority
  rw [String.toList_ofList, String.toList_ofList]
  rcases h.scheme with ⟨rest, rfl⟩ | ⟨rest, rfl⟩
  · exact htake rest
  · exact htake rest

theorem mcp_url_of_ok_iff {url : String} :
    mcp_url_of raw = .ok url ↔ ∃ out, normalize_base_url raw = .ok out ∧ url = out ++ "/mcp" := by
  unfold mcp_url_of
  cases normalize_base_url raw with
  | error e =>
    constructor
    · intro h
      cases h
    · rintro ⟨out, hout, -⟩
      cases hout
  | ok out =>
    constructor
    · intro h
      cases h
      exact ⟨out, rfl, rfl⟩
    · rintro ⟨out, hout, rfl⟩
      cases hout
      rfl

theorem authority_mcp_url_of {url : String} (h : mcp_url_of raw = .ok url) :
    authority url = authority (trim raw) := by
  obtain ⟨out, hout, rfl⟩ := mcp_url_of_ok_iff.mp h
  obtain ⟨hstrip, hurl⟩ := normalize_base_url_ok_iff.mp hout
  obtain ⟨-, p, hpath, hp⟩ := typed_eq (trim raw).toList
  rw [← hstrip] at hp
  have hmcp : out ++ "/mcp" = String.ofList (out.toList ++ MCP) := by
    rw [String.ofList_append, String.ofList_toList]
    rfl
  have htyped : trim raw = String.ofList (out.toList ++ p) := by rw [← hp, String.ofList_toList]
  have hhead : MCP = [] ∨ ∃ rest, MCP = '/' :: rest := Or.inr ⟨_, rfl⟩
  rw [hmcp, htyped, authority_append hurl hhead, authority_append hurl hpath.head]

/-- **The spellings of a bus.** Which of them come out as its scheme and authority, which
accepted texts come out the same when they are read again, and that no accepted text loses
its authority. -/
theorem bus_url_spellings (scheme a path : List Char) (n : ℕ) (raw : String) :
    (scheme = HTTP ∨ scheme = HTTPS → Authority a → path = [] ∨ path = MCP ∨ path = ADMIN →
      (normalize_base_url (String.ofList (scheme ++ a ++ path ++ slashes n)) =
          .ok (String.ofList (scheme ++ a)) ↔
        ¬Misread a path ∧ ¬(scheme = HTTP ∧ (String.ofList a).utf8ByteSize = 1))) ∧
    (∀ out, normalize_base_url raw = .ok out → (normalize_base_url out = .ok out ↔ Once raw)) ∧
    (∀ url, mcp_url_of raw = .ok url ↔ ∃ out, normalize_base_url raw = .ok out ∧ url = out ++ "/mcp") ∧
    ∀ url, mcp_url_of raw = .ok url → authority url = authority (trim raw) := by
  refine ⟨?_, ?_, ?_, ?_⟩
  · intro hscheme ha hpath
    exact normalize_spelling_iff hscheme ha hpath n
  · intro out h
    exact normalize_again_iff h
  · intro url
    exact mcp_url_of_ok_iff
  · intro url h
    exact authority_mcp_url_of h

/-- The theorem at `https://h:8443/mcp/`, which is read as the same bus twice. -/
theorem bus_url_spellings_port :
    normalize_base_url "https://h:8443/mcp/" = .ok "https://h:8443" ∧
      normalize_base_url "https://h:8443" = .ok "https://h:8443" ∧
      authority "https://h:8443/mcp" = authority (trim "https://h:8443/mcp/") := by
  have ha : Authority "h:8443".toList := ⟨by decide, List.all_iff_forall_prop.mp (by decide)⟩
  have hread : normalize_base_url "https://h:8443/mcp/" = .ok "https://h:8443" := by
    apply ((bus_url_spellings HTTPS "h:8443".toList MCP 1 "").1 (Or.inr rfl) ha (Or.inr (Or.inl rfl))).mpr
    refine ⟨?_, by decide⟩
    rintro (⟨h, -⟩ | ⟨-, h⟩)
    · exact absurd h (by decide)
    · exact absurd h (by decide)
  refine ⟨hread, ?_, ?_⟩
  · apply ((bus_url_spellings [] [] [] 0 _).2.1 _ hread).mpr
    refine ⟨"https://h:8443".toList, MCP ++ slashes 1, by decide, ?_, ?_, Path.mcp 0 1⟩
    · exact bare_of_stripped (by decide)
    · exact unblank_of_trim (by decide)
  · apply (bus_url_spellings [] [] [] 0 _).2.2.2
    decide

/-- `http://mcp` is refused, `http://a` is, and `https://h/mcp/admin` is read as
`https://h/mcp`, which is then read as `https://h`. -/
theorem spellings_refused :
    ¬((∀ scheme a path n, scheme = HTTP ∨ scheme = HTTPS → Authority a →
        path = [] ∨ path = MCP ∨ path = ADMIN →
          normalize_base_url (String.ofList (scheme ++ a ++ path ++ slashes n)) =
            .ok (String.ofList (scheme ++ a))) ∧
      (∀ raw out, normalize_base_url raw = .ok out → normalize_base_url out = .ok out)) ∧
    normalize_base_url "http://mcp" =
      .error "--url must start with http:// or https:// (got 'http://mcp')" ∧
    normalize_base_url "http://a" = .error "--url has no host (got 'http://a')" ∧
    normalize_base_url "https://h/mcp/admin" = .ok "https://h/mcp" ∧
    normalize_base_url "https://h/mcp" = .ok "https://h" := by
  refine ⟨?_, by decide, by decide, by decide, by decide⟩
  rintro ⟨hspell, -⟩
  have hmcp := hspell HTTP ['m', 'c', 'p'] [] 0 (Or.inl rfl) ⟨by decide, List.all_iff_forall_prop.mp (by decide)⟩
    (Or.inl rfl)
  exact absurd hmcp (by decide)

end CrewSync.BusUrl
