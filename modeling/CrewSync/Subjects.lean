/-
What is told apart on the broker by its name alone: `store/jetstream.rs`.

A team's bodies and its references are in two streams, each takes a subject for every
thread or recipient, and a body that was stored is found again by a locator that names its
stream. The broker checks none of these against a team: teams are kept apart because their
names are (`names_apart`). And a locator is read back where it was issued, and nowhere else
(`locators_read_back`), so that the other modules have locators as data.
-/
import CrewSync.Broker
import CrewSync.DashboardGrant
import CrewSync.Keys

set_option autoImplicit false

namespace CrewSync.Subjects

open Error Uuids
open Auth (parse_digits)
open Keys (recipient_key)

/-! ## Names -/

/-- `stream_name`. -/
def stream_name (team_id : Uuid) : List Char := "ACS_T_".toList ++ team_id.simple

/-- `subject`, of the bodies of a thread. -/
def subject (team_id conversation_id : Uuid) : List Char :=
  "acs.".toList ++ (team_id.simple ++ (".conv.".toList ++ conversation_id.simple))

/-- `subject_filter`. -/
def subject_filter (team_id : Uuid) : List Char := "acs.".toList ++ (team_id.simple ++ ".>".toList)

/-- `inbox_stream_name`. -/
def inbox_stream_name (team_id : Uuid) : List Char := "ACS_I_".toList ++ team_id.simple

/-- `inbox_subject`. -/
def inbox_subject (team_id : Uuid) (recipient_key : String) : List Char :=
  "acsi.".toList ++ (team_id.simple ++ (".inbox.".toList ++ recipient_key.toList))

/-- `inbox_filter`. -/
def inbox_filter (team_id : Uuid) : List Char := "acsi.".toList ++ (team_id.simple ++ ".>".toList)

/-- The name of a recipient's consumer, in `inbox_consumer`. -/
def durable (recipient_key : String) : List Char := "IN_".toList ++ recipient_key.toList

/-- A filter that ends in `>` takes the subjects that begin as it does. -/
def Takes (filter subject : List Char) : Prop := ∃ p, filter = p ++ ['>'] ∧ p <+: subject

/-! ## Locators -/

/-- `u64::MAX`. -/
def U64_MAX : ℕ := 18446744073709551615

/-- What is after an optional plus. -/
def unsigned : List Char → List Char
  | '+' :: s => s
  | s => s

/-- `str::parse::<u64>`: at least one digit, and no overflow. -/
def parse_u64 (s : List Char) : Option ℕ :=
  if unsigned s = [] then none else (parse_digits (unsigned s) 0).filter fun n => n ≤ U64_MAX

/-- The locator of what a stream stored under a sequence, as `publish` answers it. -/
def locator (stream : List Char) (sequence : ℕ) : List Char :=
  "jetstream:".toList ++ (stream ++ ':' :: Nat.toDigits 10 sequence)

/-- `parse_locator`. -/
def parse_locator (raw : List Char) : BusResult (List Char × ℕ) :=
  match raw.splitOn ':' with
  | [scheme, stream, sequence] => do
    ensure (scheme = "jetstream".toList) (.Invalid "not a locator this backend issued")
    let n ← fetch (parse_u64 sequence) (.Invalid "not a locator this backend issued")
    pure (stream, n)
  | _ => .error (.Invalid "not a locator this backend issued")

/-- `parse_own_locator`, of the adapter whose stream it is. -/
def parse_own_locator (own : List Char) (raw : List Char) : BusResult ℕ := do
  let (stream, sequence) ← parse_locator raw
  ensure (stream = own) (.Forbidden "that locator names another stream")
  pure sequence

/-! ## What names tell -/

section Names

variable {t t' : Uuid} {scheme rest : List Char}

/-- Digits of one team before anything, and those of another. -/
theorem simple_append_inj {r r' : List Char} (h : t.simple ++ r = t'.simple ++ r') : t = t' ∧ r = r' := by
  obtain ⟨hteam, hrest⟩ := List.append_inj h (by rw [t.simple_length, t'.simple_length])
  exact ⟨Uuid.simple_inj hteam, hrest⟩

theorem takes_iff {p s : List Char} : Takes (p ++ ['>']) s ↔ p <+: s := by
  constructor
  · rintro ⟨p', heq, h⟩
    rwa [List.append_cancel_right heq]
  · exact fun h => ⟨p, rfl, h⟩

/-- What is under a team's filter begins with the team. -/
theorem takes_team :
    Takes (scheme ++ (t.simple ++ ".>".toList)) (scheme ++ (t'.simple ++ '.' :: rest)) ↔ t = t' := by
  have hfilter : scheme ++ (t.simple ++ ".>".toList) = (scheme ++ (t.simple ++ ['.'])) ++ ['>'] := by simp
  rw [hfilter, takes_iff, List.prefix_append_right_inj]
  constructor
  · rintro ⟨r, h⟩
    rw [List.append_assoc] at h
    exact (simple_append_inj h).1
  · rintro rfl
    exact ⟨rest, by simp⟩

/-- What begins otherwise is under no team's filter. -/
theorem not_takes {scheme' : List Char} (h : ¬scheme <+: scheme' ∧ ¬scheme' <+: scheme) :
    ¬Takes (scheme ++ (t.simple ++ ".>".toList)) (scheme' ++ rest) := by
  rintro ⟨p, heq, hp⟩
  have hfilter : scheme ++ (t.simple ++ ".>".toList) = (scheme ++ (t.simple ++ ['.'])) ++ ['>'] := by simp
  rw [hfilter] at heq
  rw [← List.append_cancel_right heq] at hp
  rcases List.prefix_or_prefix_of_prefix ((List.prefix_append _ _).trans hp) (List.prefix_append scheme' rest) with
    hpre | hpre
  · exact h.1 hpre
  · exact h.2 hpre

/-- A character that ends a token, or stands for one, is not in a recipient's key. -/
theorem not_mem_recipient_key {a : Uuid} {s : String} {x : Char} (hx : x ∈ ['.', '*', '>', ' ']) :
    x ∉ (recipient_key a s).toList := by
  have hdigit : ∀ n < 16, References.hex_digit n ≠ x := by
    simp only [List.mem_cons, List.not_mem_nil, or_false] at hx
    rcases hx with rfl | rfl | rfl | rfl <;> decide
  have hrest : x ≠ 'a' ∧ x ≠ '_' := by
    constructor <;> rintro rfl <;> exact absurd hx (by decide)
  rw [Keys.recipient_key_toList]
  intro hmem
  rcases List.mem_cons.mp hmem with rfl | hmem
  · exact hrest.1 rfl
  rcases List.mem_append.mp hmem with hmem | hmem
  · exact not_mem_hex_bytes hdigit _ hmem
  · unfold Keys.label_part at hmem
    split at hmem
    · cases hmem
    · rcases List.mem_cons.mp hmem with rfl | hmem
      · exact hrest.2 rfl
      · exact not_mem_hex_bytes hdigit _ hmem

end Names

/-- What the broker's names tell, of two teams, two threads and two addresses. -/
structure Apart (t t' c c' a a' : Uuid) (s s' : String) : Prop where
  streams : (stream_name t = stream_name t' ↔ t = t') ∧ (inbox_stream_name t = inbox_stream_name t' ↔ t = t') ∧
    stream_name t ≠ inbox_stream_name t'
  /-- A team's stream takes the subjects of its threads. -/
  bodies : (Takes (subject_filter t) (subject t' c) ↔ t = t') ∧
    ¬Takes (subject_filter t) (inbox_subject t' (recipient_key a s))
  /-- Its other stream takes the subjects of its recipients. -/
  references : (Takes (inbox_filter t) (inbox_subject t' (recipient_key a s)) ↔ t = t') ∧
    ¬Takes (inbox_filter t) (subject t' c)
  threads : subject t c = subject t' c' ↔ t = t' ∧ c = c'
  /-- A consumer is one recipient's, and asks for its subject alone. -/
  recipients : (inbox_subject t (recipient_key a s) = inbox_subject t' (recipient_key a' s') ↔
      t = t' ∧ a = a' ∧ s = s') ∧
    (durable (recipient_key a s) = durable (recipient_key a' s') ↔ a = a' ∧ s = s')
  /-- A key is one token, and stands for itself. -/
  token : ∀ x ∈ ['.', '*', '>', ' '], x ∉ (recipient_key a s).toList

/-- **Teams, threads and recipients are apart on the broker.** -/
theorem names_apart (t t' c c' a a' : Uuid) (s s' : String) : Apart t t' c c' a a' s s' := by
  have hkey : (recipient_key a s).toList = (recipient_key a' s').toList ↔ a = a' ∧ s = s' :=
    ⟨fun h => Keys.recipient_key_inj (String.toList_inj.mp h), by rintro ⟨rfl, rfl⟩; rfl⟩
  refine ⟨⟨?_, ?_, fun h => ?_⟩, ⟨takes_team, ?_⟩, ⟨takes_team, ?_⟩, ?_, ⟨?_, ?_⟩, fun x hx =>
    not_mem_recipient_key hx⟩
  · exact ⟨fun h => Uuid.simple_inj (List.append_cancel_left h), fun h => h ▸ rfl⟩
  · exact ⟨fun h => Uuid.simple_inj (List.append_cancel_left h), fun h => h ▸ rfl⟩
  · exact absurd (String.toList_inj.mp (List.append_inj_left h (by simp))) (by decide)
  · exact not_takes (by decide)
  · exact not_takes (by decide)
  · constructor
    · intro h
      obtain ⟨ht, hc⟩ := simple_append_inj (List.append_cancel_left h)
      exact ⟨ht, Uuid.simple_inj (List.append_cancel_left hc)⟩
    · rintro ⟨rfl, rfl⟩
      rfl
  · constructor
    · intro h
      obtain ⟨ht, hk⟩ := simple_append_inj (List.append_cancel_left h)
      exact ⟨ht, hkey.mp (List.append_cancel_left hk)⟩
    · rintro ⟨rfl, rfl, rfl⟩
      rfl
  · exact ⟨fun h => hkey.mp (List.append_cancel_left h), by rintro ⟨rfl, rfl⟩; rfl⟩

/-! ## What a locator is read back as -/

variable {l digits : List Char} {n : ℕ} {t : Uuid}

theorem isDigit_of_parse_digits {acc : ℕ} (h : parse_digits l acc = some n) :
    ∀ x ∈ l, x.isDigit = true := by
  induction l generalizing acc with
  | nil => exact fun x hx => absurd hx List.not_mem_nil
  | cons d l ih =>
    simp only [parse_digits, Option.ite_none_right_eq_some] at h
    intro x hx
    rcases List.mem_cons.mp hx with rfl | hx
    · exact h.1
    · exact ih h.2 x hx

theorem unsigned_eq (h : '+' ∉ l) : unsigned l = l := by
  unfold unsigned
  split
  · exact absurd List.mem_cons_self h
  · rfl

theorem colon_not_mem (h : parse_u64 l = some n) : ':' ∉ l := by
  simp only [parse_u64, Option.ite_none_left_eq_some, Option.filter_eq_some_iff] at h
  have hdigits := isDigit_of_parse_digits h.2.1
  intro hmem
  refine absurd (hdigits ':' ?_) (by decide)
  unfold unsigned
  split
  · exact (List.mem_cons.mp hmem).resolve_left (by decide)
  · exact hmem

theorem parse_u64_toDigits (n : ℕ) :
    parse_u64 (Nat.toDigits 10 n) = if n ≤ U64_MAX then some n else none := by
  have hparse := DashboardGrant.parse_digits_toDigits n
  have hplus : '+' ∉ Nat.toDigits 10 n := fun h =>
    absurd (isDigit_of_parse_digits hparse '+' h) (by decide)
  unfold parse_u64
  simp only [unsigned_eq hplus, hparse, if_neg Nat.toDigits_ne_nil, Option.filter_some, decide_eq_true_eq]

/-- No stream's name has a colon. -/
theorem colon_not_mem_stream (t : Uuid) : ':' ∉ stream_name t := by
  intro h
  rcases List.mem_append.mp h with h | h
  · exact absurd h (by decide)
  · exact not_mem_hex_bytes (by decide) _ h

/-- What is in three parts, the middle one a stream's name. -/
theorem splitOn_locator (h : ':' ∉ digits) : ("jetstream:".toList ++ (stream_name t ++ ':' :: digits)).splitOn ':' =
      ["jetstream".toList, stream_name t, digits] := by
  have hparts : "jetstream:".toList ++ (stream_name t ++ ':' :: digits) =
      [':'].intercalate ["jetstream".toList, stream_name t, digits] := by
    simp [List.intercalate]
  rw [hparts, List.splitOn_intercalate ':' _ (List.cons_ne_nil _ _)]
  intro l hl
  simp only [List.mem_cons, List.not_mem_nil, or_false] at hl
  rcases hl with rfl | rfl | rfl
  · decide
  · exact colon_not_mem_stream t
  · exact h

theorem parse_locator_parts (h : ':' ∉ digits) :
    parse_locator ("jetstream:".toList ++ (stream_name t ++ ':' :: digits)) =
      (fetch (parse_u64 digits) (.Invalid "not a locator this backend issued")).map fun n => (stream_name t, n) := by
  rw [parse_locator, splitOn_locator h]
  simp only [ensure, if_true, bind, Except.bind]
  cases parse_u64 digits <;> rfl

/-- What an adapter makes of a locator. -/
structure LocatorLaw (t : Uuid) : Prop where
  /-- Of one that was issued: the sequence, if the stream is its own. -/
  issued : ∀ t' n, parse_own_locator (stream_name t) (locator (stream_name t') n) =
    if n ≤ U64_MAX then
      if t' = t then .ok n else .error (.Forbidden "that locator names another stream")
    else .error (.Invalid "not a locator this backend issued")
  /-- Of one that the other backend issued. -/
  elsewhere : ∀ u : Uuid, parse_own_locator (stream_name t) u.display =
    .error (.Invalid "not a locator this backend issued")
  /-- And it takes no other text. -/
  accepted : ∀ raw n, parse_own_locator (stream_name t) raw = .ok n ↔
    ∃ digits, raw = "jetstream:".toList ++ (stream_name t ++ ':' :: digits) ∧ parse_u64 digits = some n

/-- **A locator is read back as what it was written from.** -/
theorem locators_read_back (t : Uuid) : LocatorLaw t := by
  refine ⟨fun t' n => ?_, fun u => ?_, fun raw n => ⟨fun h => ?_, ?_⟩⟩
  · have hcolon : ':' ∉ Nat.toDigits 10 n := fun h =>
      absurd (Nat.isDigit_of_mem_toDigits (by decide) (by decide) h) (by decide)
    have hname : stream_name t' = stream_name t ↔ t' = t :=
      ⟨fun h => Uuid.simple_inj (List.append_cancel_left h), fun h => h ▸ rfl⟩
    unfold parse_own_locator locator
    rw [parse_locator_parts hcolon, parse_u64_toDigits]
    by_cases hn : n ≤ U64_MAX
    · by_cases ht : t' = t
      · simp only [fetch, Except.map, bind, Except.bind, ensure, hname, if_pos hn, if_pos ht, pure, Except.pure]
      · simp only [fetch, Except.map, bind, Except.bind, ensure, hname, if_pos hn, if_neg ht]
    · simp only [fetch, Except.map, bind, Except.bind, if_neg hn]
  · unfold parse_own_locator parse_locator
    rw [List.splitOn_eq_singleton (u.not_mem_display (by decide) (by decide))]
    simp only [bind, Except.bind]
  · unfold parse_own_locator at h
    simp only [bind_eq_ok, ensure_eq_ok, pure_eq_ok] at h
    obtain ⟨⟨stream, k⟩, hparse, _, hown, rfl⟩ := h
    unfold parse_locator at hparse
    split at hparse
    · rename_i scheme stream' digits hsplit
      simp only [bind_eq_ok, ensure_eq_ok, fetch_eq_ok, pure_eq_ok, Prod.mk.injEq] at hparse
      obtain ⟨_, rfl, m, hm, rfl, rfl⟩ := hparse
      refine ⟨digits, ?_, hm⟩
      have hraw : [':'].intercalate (raw.splitOn ':') = raw := List.intercalate_splitOn ':'
      rw [← hraw, hsplit, ← hown]
      simp [List.intercalate]
    · cases hparse
  · rintro ⟨digits, rfl, hdigits⟩
    unfold parse_own_locator
    rw [parse_locator_parts (colon_not_mem hdigits), hdigits]
    simp [ensure, fetch, Except.map, bind, Except.bind, pure, Except.pure]

/-- Locators as data are refused as their text is. -/
theorem fetch_refuses {code : Uuid → Schema.Uuid} (hcode : Function.Injective code) {t' : Uuid}
    (hn : n ≤ U64_MAX) {e : BusError} (h : parse_own_locator (stream_name t) (locator (stream_name t') n) = .error e)
    (message_id : Schema.Uuid) (b : List Broker.Entry) :
    Broker.fetch (code t) (.jetstream (code t') n) message_id b = .error e := by
  rw [(locators_read_back t).issued, if_pos hn] at h
  split at h
  · cases h
  · rename_i hne
    rw [← Except.error.inj h]
    simp [Broker.fetch, ensure, hcode.ne hne, bind, Except.bind]

end CrewSync.Subjects
