/-
Addresses: `agent`, or `agent/session`. `address_of` writes one and `messaging::parse_address`
reads it.

What keeps the separator unambiguous is shared by two validators: `check_name` lets no `/` and
no blank into an agent's name, and `normalize_session` lets no `/` into a label. So an address
is read as what it was written from (`parse_address_of`). Trimming and lower-casing commute,
and neither does anything the second time; a label that was accepted is therefore accepted
again, as it is (`normalize_session_again`).
-/
import CrewSync.Admin
import CrewSync.Conversations
import CrewSync.LowerCase
import CrewSync.TokensFile
import CrewSync.Trims

set_option autoImplicit false

namespace CrewSync.Addresses

open Error Auth Conversations LowerCase
open Admin (check_name)

/-- `address_of`. -/
def address_of (agent session : String) : String :=
  if session.isEmpty then agent else agent ++ "/" ++ session

/-! ## Trimming and lower-casing -/

/-- One character of `to_lowercase`. -/
def low (c : Char) : Char := if c.toNat == 0x212A then 'k' else c.toLower

theorem to_lowercase_toList (s : String) : (to_lowercase s).toList = s.toList.map low :=
  String.toList_ofList

theorem toNat_toLower (c : Char) :
    c.toLower.toNat = if 65 ≤ c.toNat ∧ c.toNat ≤ 90 then c.toNat + 32 else c.toNat := by
  unfold Char.toLower
  by_cases h : c.val ≥ 'A'.val ∧ c.val ≤ 'Z'.val
  · have hlow : 65 ≤ c.toNat := UInt32.le_iff_toNat_le.mp h.1
    have hhigh : c.toNat ≤ 90 := UInt32.le_iff_toNat_le.mp h.2
    rw [dif_pos h, if_pos ⟨hlow, hhigh⟩]
    have hadd : (c.val + ('a'.val - 'A'.val)).toNat = (c.toNat + 32) % 4294967296 := UInt32.toNat_add _ _
    rw [Char.toNat, hadd]
    omega
  · rw [dif_neg h, if_neg]
    exact fun hc => h ⟨UInt32.le_iff_toNat_le.mpr hc.1, UInt32.le_iff_toNat_le.mpr hc.2⟩

/-- A character with a lower case of its own. -/
def Capital (c : Char) : Prop := c.toNat = 0x212A ∨ (65 ≤ c.toNat ∧ c.toNat ≤ 90)

/-- Any other is its lower case. -/
theorem low_cases (c : Char) : (¬Capital c ∧ low c = c) ∨ (Capital c ∧ 97 ≤ (low c).toNat ∧ (low c).toNat ≤ 122) := by
  unfold low
  by_cases hk : c.toNat = 0x212A
  · rw [if_pos (beq_iff_eq.mpr hk)]
    exact .inr ⟨.inl hk, by decide, by decide⟩
  · rw [if_neg (fun h => hk (beq_iff_eq.mp h))]
    have hlower := toNat_toLower c
    by_cases hc : 65 ≤ c.toNat ∧ c.toNat ≤ 90
    · rw [if_pos hc] at hlower
      exact .inr ⟨.inr hc, by omega, by omega⟩
    · rw [if_neg hc] at hlower
      exact .inl ⟨fun h => h.elim hk hc, Char.toNat_inj.mp hlower⟩

/-- A lower case has no other. -/
theorem low_low (c : Char) : low (low c) = low c := by
  rcases low_cases c with ⟨-, hc⟩ | ⟨-, hlow⟩
  · rw [hc, hc]
  · rcases low_cases (low c) with ⟨-, h⟩ | ⟨h, -⟩
    · exact h
    · unfold Capital at h
      omega

/-- A letter is no blank. -/
theorem is_whitespace_letter {c : Char} (h : c.toNat = 0x212A ∨ (65 ≤ c.toNat ∧ c.toNat ≤ 122)) :
    is_whitespace c = false := by
  unfold is_whitespace
  simp only [Bool.or_eq_false_iff, Bool.and_eq_false_iff, decide_eq_false_iff_not, beq_eq_false_iff_ne]
  omega

/-- Blanks have no case. -/
theorem is_whitespace_low (c : Char) : is_whitespace (low c) = is_whitespace c := by
  rcases low_cases c with ⟨-, hc⟩ | ⟨hc, hlow⟩
  · rw [hc]
  · rw [is_whitespace_letter (.inr ⟨by omega, hlow.2⟩), is_whitespace_letter]
    exact hc.imp_right fun h => ⟨h.1, by omega⟩

theorem trim_map_low (l : List Char) :
    Trims.trim is_whitespace (l.map low) = (Trims.trim is_whitespace l).map low := by
  have hcomp : is_whitespace ∘ low = is_whitespace := funext is_whitespace_low
  unfold Trims.trim List.rdropWhile
  rw [List.dropWhile_map, hcomp, ← List.map_reverse, List.dropWhile_map, hcomp, List.map_reverse]

/-- The label a text stands for is its own label. -/
theorem to_lowercase_trim_again (raw : String) :
    to_lowercase (trim (to_lowercase (trim raw))) = to_lowercase (trim raw) := by
  have hlow : ∀ l : List Char, (l.map low).map low = l.map low := by
    intro l
    rw [List.map_map]
    exact List.map_congr_left fun c _ => low_low c
  apply String.toList_injective
  rw [to_lowercase_toList, trim_toList, to_lowercase_toList, trim_toList, trim_map_low, Trims.trim_trim, hlow]

/-- Nothing is left to trim of a label. -/
theorem trim_label (raw : String) : trim (to_lowercase (trim raw)) = to_lowercase (trim raw) := by
  apply String.toList_injective
  rw [trim_toList, to_lowercase_toList, trim_toList, trim_map_low, Trims.trim_trim]

/-! ## Labels -/

section Labels

variable {raw label : String}

/-- A check that does not refuse. -/
theorem passed {c : Prop} [Decidable c] {why v : String} {x : Except String String}
    (h : (if c then .error why else x) = .ok v) : ¬c ∧ x = .ok v := by
  by_cases hc : c
  · rw [if_pos hc] at h
    cases h
  · rw [if_neg hc] at h
    exact ⟨hc, h⟩

/-- An accepted text is ASCII, and there is no separator in it. -/
theorem check_session_ok {s : String} (h : check_session s = .ok label) :
    label = s ∧ (∀ c ∈ s.toList, c.toNat < 128) ∧ '/' ∉ label.toList := by
  unfold check_session at h
  by_cases hempty : s.isEmpty = true
  · rw [if_pos hempty] at h
    obtain rfl := String.isEmpty_iff.mp hempty
    cases h
    exact ⟨rfl, fun c hc => absurd hc List.not_mem_nil, List.not_mem_nil⟩
  · rw [if_neg hempty] at h
    obtain ⟨-, h⟩ := passed h
    obtain ⟨hascii, h⟩ := passed h
    obtain ⟨-, h⟩ := passed h
    obtain ⟨-, h⟩ := passed h
    obtain ⟨hslash, h⟩ := passed h
    obtain rfl := Except.ok.inj h
    refine ⟨rfl, fun c hc => ?_, fun hmem => hslash (List.any_eq_true.mpr ⟨'/', hmem, by decide⟩)⟩
    by_contra hge
    exact hascii (List.any_eq_true.mpr ⟨c, hc, by simpa using hge⟩)

/-- An accepted text is accepted as its lower case, trimmed. -/
theorem normalize_session_ok (h : normalize_session raw = .ok label) :
    label = to_lowercase (trim raw) ∧ '/' ∉ label.toList :=
  ⟨(check_session_ok h).1, (check_session_ok h).2.2⟩

/-- **A label is accepted as it is.** -/
theorem normalize_session_again (h : normalize_session raw = .ok label) : normalize_session label = .ok label := by
  have hlabel := (normalize_session_ok h).1
  have hsame : normalize_session label = normalize_session raw := by
    unfold normalize_session
    rw [hlabel, to_lowercase_trim_again]
  rw [hsame, h]

/-- A character whose lower case is ASCII. -/
def Plain (c : Char) : Prop := c.toNat < 128 ∨ c.toNat = 0x212A

/-- What labels use of a case table. -/
structure Ascii (t : CaseTable) : Prop where
  plain : ∀ c, Plain c → t.lower c = [low c]
  others : ∀ c, ¬Plain c → ∃ d ∈ t.lower c, 128 ≤ d.toNat

theorem low_ascii_iff (c : Char) : (low c).toNat < 128 ↔ Plain c := by
  unfold Plain
  rcases low_cases c with ⟨hcap, hc⟩ | ⟨hcap, hlow⟩
  · rw [hc]
    exact ⟨.inl, fun h => h.resolve_right fun hk => hcap (.inl hk)⟩
  · exact ⟨fun _ => hcap.elim .inr fun h => .inl (by omega), fun _ => by omega⟩

theorem lower_after_plain {t : CaseTable} (ht : Ascii t) {l : List Char} (h : ∀ c ∈ l, Plain c) (before : List Char) :
    lower_after t before l = l.map low := by
  induction l generalizing before with
  | nil => rfl
  | cons c l ih =>
    have hc := h c List.mem_cons_self
    have hsigma : c ≠ 'Σ' := by
      rintro rfl
      exact absurd hc (by unfold Plain; decide)
    rw [lower_after, lower_at_of_ne hsigma, ht.plain c hc, ih fun d hd => h d (List.mem_cons_of_mem c hd)]
    rfl

/-- Only what is plain has an ASCII lower case. -/
theorem plain_of_lower_after {t : CaseTable} (ht : Ascii t) {l : List Char} (before : List Char)
    (h : ∀ d ∈ lower_after t before l, d.toNat < 128) : ∀ c ∈ l, Plain c := by
  induction l generalizing before with
  | nil => exact fun c hc => absurd hc List.not_mem_nil
  | cons a l ih =>
    rw [lower_after] at h
    intro c hc
    rcases List.mem_cons.mp hc with rfl | hc
    · by_contra hplain
      have hhere : ∃ d ∈ lower_at t before c l, 128 ≤ d.toNat := by
        by_cases hsigma : c = 'Σ'
        · subst hsigma
          rcases lower_at_sigma (t := t) before l with heq | heq <;> rw [heq] <;>
            exact ⟨_, List.mem_singleton_self _, by decide⟩
        · rw [lower_at_of_ne hsigma]
          exact ht.others c hplain
      obtain ⟨d, hd, hge⟩ := hhere
      exact absurd (h d (List.mem_append_left _ hd)) (by omega)
    · exact ih _ (fun d hd => h d (List.mem_append_right _ hd)) c hc

/-- **The whole of Unicode accepts the same labels.** -/
theorem normalize_session_table {t : CaseTable} (ht : Ascii t) :
    check_session (String.ofList (lower t (trim raw).toList)) = .ok label ↔ normalize_session raw = .ok label := by
  have hsame : (∀ c ∈ (trim raw).toList, Plain c) →
      String.ofList (lower t (trim raw).toList) = to_lowercase (trim raw) := fun hplain =>
    congrArg String.ofList (lower_after_plain ht hplain [])
  constructor
  · intro h
    have hascii := (check_session_ok h).2.1
    rw [String.toList_ofList] at hascii
    rw [normalize_session, ← hsame (plain_of_lower_after ht [] hascii)]
    exact h
  · intro h
    have hascii := (check_session_ok h).2.1
    rw [to_lowercase_toList] at hascii
    rw [hsame fun c hc => (low_ascii_iff c).mp (hascii _ (List.mem_map_of_mem hc))]
    exact h

theorem trim_accepted (h : normalize_session raw = .ok label) : trim label = label := by
  rw [(normalize_session_ok h).1, trim_label]

end Labels

/-! ## Agents -/

/-- What `check_name` lets through can be half of an address. -/
structure Named (agent : String) : Prop where
  nonempty : agent ≠ ""
  plain : ∀ c ∈ agent.toList, is_whitespace c = false ∧ c ≠ '/'

theorem plain_of_name {c : Char} (h : (c.isAlphanum || c == '-' || c == '_' || c == '.') = true) :
    is_whitespace c = false ∧ c ≠ '/' := by
  refine ⟨(TokensFile.plain_char h).1, ?_⟩
  rintro rfl
  cases h

variable {raw agent : String} {k : List Char} {label : String}

theorem Named.of_check {lower : String → String} {field : String}
    (h : check_name lower field raw = .ok agent) : Named agent := by
  unfold check_name at h
  obtain ⟨_, hne, h⟩ := bind_eq_ok.mp h
  obtain ⟨_, -, h⟩ := bind_eq_ok.mp h
  obtain ⟨_, hall, h⟩ := bind_eq_ok.mp h
  cases h
  refine ⟨ensure_eq_ok.mp hne, fun c hc => ?_⟩
  have hname := List.all_eq_true.mp (ensure_eq_ok.mp hall) c hc
  exact plain_of_name hname

theorem Named.trim (h : Named agent) : trim agent = agent := by
  apply String.toList_injective
  rw [trim_toList]
  apply Trims.trim_of_forall
  intro c hc
  rw [(h.plain c hc).1]
  exact Bool.false_ne_true

theorem Named.no_slash (h : Named agent) : '/' ∉ agent.toList :=
  fun hmem => (h.plain '/' hmem).2 rfl

/-! ## Reading an address -/

theorem split_once_none {s : String} (h : '/' ∉ s.toList) : split_once s = none := by
  unfold split_once
  rw [Trims.split_once_none_iff.mpr h]
  rfl

theorem split_once_append {s : String} {v : List Char} (hs : s.toList = k ++ '/' :: v) (hk : '/' ∉ k) :
    split_once s = some (String.ofList k, String.ofList v) := by
  unfold split_once
  rw [hs, Trims.split_once_append hk]
  rfl

theorem address_of_empty (agent : String) : address_of agent "" = agent := rfl

theorem address_of_toList (agent : String) (h : label ≠ "") :
    (address_of agent label).toList = agent.toList ++ '/' :: label.toList := by
  unfold address_of
  rw [if_neg fun he => h (String.isEmpty_iff.mp he)]
  simp [String.toList_append]

/-- Neither half of an address has a blank at its outer end. -/
theorem trim_address (h : Named agent) (hlabel : label ≠ "") (ht : trim label = label) :
    trim (address_of agent label) = address_of agent label := by
  have hfront : agent.toList.dropWhile is_whitespace = agent.toList := by
    apply List.dropWhile_eq_self_iff.mpr
    intro hpos
    rw [(h.plain _ (List.getElem_mem hpos)).1]
    exact Bool.false_ne_true
  have hback : label.toList.rdropWhile is_whitespace = label.toList := by
    rw [← ht, trim_toList, Trims.trim, List.rdropWhile_idempotent]
  apply String.toList_injective
  rw [trim_toList, address_of_toList agent hlabel, Trims.trim_append_cons (by decide), hfront, hback]

/-- An address without a separator is an agent's. -/
theorem parse_address_none (h : split_once (trim raw) = none) : parse_address raw = .ok (trim raw, none) := by
  unfold parse_address
  simp only [h]

/-- The other addresses that are read. -/
theorem parse_address_some_iff {k v : String} {session : Option String} (h : split_once (trim raw) = some (k, v)) :
    parse_address raw = .ok (agent, session) ↔
      trim k ≠ "" ∧ agent = trim k ∧ ∃ label, normalize_session v = .ok label ∧ label ≠ "" ∧ session = some label := by
  have hnonempty : ∀ s : String, (!s.isEmpty) = true ↔ s ≠ "" := by
    intro s
    rw [Bool.not_eq_true', ← Bool.not_eq_true, String.isEmpty_iff]
  unfold parse_address
  simp only [h]
  cases hlabel : normalize_session v with
  | error why => simp [bind_eq_ok]
  | ok label =>
    simp only [bind_eq_ok, ensure_eq_ok, pure_eq_ok, hnonempty, Prod.mk.injEq, Except.ok.injEq]
    constructor
    · rintro ⟨_, hk, _, hne, rfl, rfl⟩
      exact ⟨hk, rfl, label, rfl, hne, rfl⟩
    · rintro ⟨hk, rfl, _, rfl, hne, rfl⟩
      exact ⟨(), hk, (), hne, rfl, rfl⟩

/-- **What an address is read as.** -/
theorem parse_address_of (h : Named agent) (hlabel : normalize_session raw = .ok label) :
    parse_address (address_of agent label) = .ok (agent, if label = "" then none else some label) := by
  by_cases hempty : label = ""
  · rw [hempty, address_of_empty, if_pos rfl]
    have hsplit := split_once_none h.no_slash
    rw [← h.trim] at hsplit
    rw [parse_address_none hsplit, h.trim]
  · have hsplit := split_once_append (address_of_toList agent hempty) h.no_slash
    rw [String.ofList_toList, String.ofList_toList, ← trim_address h hempty (trim_accepted hlabel)] at hsplit
    rw [if_neg hempty]
    apply (parse_address_some_iff hsplit).mpr
    rw [h.trim]
    exact ⟨h.nonempty, rfl, label, normalize_session_again hlabel, hempty, rfl⟩

/-- **The session half of an address is a label.** -/
theorem session_of_parse {session : String} (h : parse_address raw = .ok (agent, some session)) :
    normalize_session session = .ok session ∧ '/' ∉ session.toList := by
  cases hsplit : split_once (trim raw) with
  | none =>
    rw [parse_address_none hsplit] at h
    cases h
  | some parts =>
    obtain ⟨-, -, label, hlabel, -, heq⟩ := (parse_address_some_iff hsplit).mp h
    cases heq
    exact ⟨normalize_session_again hlabel, (normalize_session_ok hlabel).2⟩

/-- **Addresses round-trip.** An address is read as the agent and the label it was written from;
the session half of an address that is read is a label as it stands; and a label is accepted as
it is. -/
theorem address_round_trip (lower : String → String) (field raw : String) :
    (∀ agent text label, check_name lower field raw = .ok agent → normalize_session text = .ok label →
      parse_address (address_of agent label) = .ok (agent, if label = "" then none else some label)) ∧
    (∀ agent session, parse_address raw = .ok (agent, some session) →
      normalize_session session = .ok session ∧ '/' ∉ session.toList) ∧
    ∀ label, normalize_session raw = .ok label → normalize_session label = .ok label := by
  refine ⟨?_, ?_, ?_⟩
  · intro agent text label hname hlabel
    exact parse_address_of (.of_check hname) hlabel
  · intro agent session h
    exact session_of_parse h
  · intro label h
    exact normalize_session_again h

/-- The theorem at ` Joaquin ` and ` Market-Data `, and at the address as somebody types it. -/
theorem address_round_trip_typed :
    parse_address "joaquin/market-data" = .ok ("joaquin", some "market-data") ∧
    parse_address "joaquin" = .ok ("joaquin", none) ∧
    normalize_session "market-data" = .ok "market-data" := by
  refine ⟨?_, ?_, ?_⟩
  · exact (address_round_trip to_lowercase "agent" " Joaquin ").1 "joaquin" " Market-Data " "market-data"
      (by decide) (by decide)
  · exact (address_round_trip to_lowercase "agent" " Joaquin ").1 "joaquin" " " "" (by decide) (by decide)
  · exact ((address_round_trip to_lowercase "agent" " joaquin / Market-Data ").2.1 "joaquin" "market-data"
      (by decide)).1

end CrewSync.Addresses
