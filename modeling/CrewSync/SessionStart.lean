/-
`session_start_context` of `hook.rs`: the lines a host injects at the start of a conversation.

The bus is asked twice, who this window is and what the team has been doing, and may answer
any JSON. Reading a field of it never fails: what is missing or of another type is nothing.
The team's digest is shown as JSON, and cut at byte 2500 where it is longer. That cut is the
one place where the hook can panic, since the digest is what the teammates wrote: byte 2500
may lie inside a character. It does not panic exactly where it does not get as far as the
cut, nothing is to be cut, or the byte is a boundary (`session_start_context_iff`).

A JSON object is the list of its entries, in the order of its map. What a float is written as
is part of it here.
-/
import Mathlib.Data.Int.Notation
import CrewSync.Utf8

set_option autoImplicit false

namespace CrewSync.SessionStart

open Utf8

/-! ## JSON -/

/-- `serde_json::Number`. -/
inductive Number
  | int (n : ℤ)
  | float (text : String)
  deriving DecidableEq, Repr

/-- `serde_json::Value`. -/
inductive Value
  | null
  | bool (b : Bool)
  | number (n : Number)
  | string (s : String)
  | array (items : List Value)
  | object (entries : List (String × Value))

/-- `value[key]`. -/
def Value.get (value : Value) (key : String) : Value :=
  match value with
  | .object entries => ((entries.find? fun e => e.1 == key).map (·.2)).getD .null
  | _ => .null

/-- `Value::as_str`. -/
def Value.as_str : Value → Option String
  | .string s => some s
  | _ => none

/-- `Value::as_i64`. -/
def Value.as_i64 : Value → Option ℤ
  | .number (.int n) => if -9223372036854775808 ≤ n ∧ n ≤ 9223372036854775807 then some n else none
  | _ => none

/-- `Value::is_object`. -/
def Value.is_object : Value → Bool
  | .object _ => true
  | _ => false

/-- The four hexadecimal digits of a control character. -/
def hex (n : ℕ) : List Char := ['0', '0', Nat.digitChar (n / 16), Nat.digitChar (n % 16)]

/-- One character of a JSON string. -/
def escape (c : Char) : List Char :=
  if c = '"' then ['\\', '"']
  else if c = '\\' then ['\\', '\\']
  else if c = '\n' then ['\\', 'n']
  else if c = '\r' then ['\\', 'r']
  else if c = '\t' then ['\\', 't']
  else if c.toNat = 8 then ['\\', 'b']
  else if c.toNat = 12 then ['\\', 'f']
  else if c.toNat < 32 then ['\\', 'u'] ++ hex c.toNat
  else [c]

def quote (s : String) : List Char := ['"'] ++ s.toList.flatMap escape ++ ['"']

mutual

/-- `serde_json::to_string`. -/
def to_string : Value → List Char
  | .null => "null".toList
  | .bool true => "true".toList
  | .bool false => "false".toList
  | .number (.int n) => (toString n).toList
  | .number (.float text) => text.toList
  | .string s => quote s
  | .array items => ['['] ++ List.intercalate [','] (items_to_strings items) ++ [']']
  | .object entries => ['\x7b'] ++ List.intercalate [','] (entries_to_strings entries) ++ ['\x7d']

def items_to_strings : List Value → List (List Char)
  | [] => []
  | item :: rest => to_string item :: items_to_strings rest

def entries_to_strings : List (String × Value) → List (List Char)
  | [] => []
  | (key, value) :: rest => (quote key ++ [':'] ++ to_string value) :: entries_to_strings rest

end

/-! ## `session_start_context` -/

/-- What a call of the hook ends in. -/
inductive Outcome
  | ok (context : String)
  | err (message : String)
  | panicked
  deriving DecidableEq, Repr

/-- What a digest may take. -/
def DIGEST_BYTES : ℕ := 2500

/-- What is put behind a digest that was cut. -/
def TRUNCATED : List Char := "…(truncated — call team_digest for the whole picture)".toList

/-- The lines about the window, from the answer to `whoami`. -/
def window_lines (who : Value) (agent team : String) : List String :=
  let session := ((who.get "session").as_str).getD ""
  let unread := ((who.get "unread_direct_messages").as_i64).getD 0
  let claimed := ((who.get "open_claimed_tasks").as_i64).getD 0
  ["[ai-crew-sync] You are agent '" ++ agent ++ "' on team '" ++ team ++
    "'. The team coordination bus is connected."] ++
  (if session ≠ "" then
    ["- This window is session '" ++ session ++ "'; teammates reach it exactly as '" ++ agent ++ "/" ++
      session ++ "'." ++
      (if (who.get "session_identity").is_object = true then
        " Its identity is proven by a session credential, not asserted in a header."
      else "")]
  else []) ++
  [match (who.get "project").as_str, (who.get "role").as_str with
    | some p, some r =>
      "- Labelled project '" ++ p ++ "', role '" ++ r ++ "'. Teammates find it with list_sessions."
    | _, _ => "- This window has no project/role label yet; set one with configure_session so " ++
        "teammates can find it with list_sessions."] ++
  (match (who.get "default_channel").as_str with
    | some channel => ["- Messages with no channel go to #" ++ channel ++ " by default."]
    | none => []) ++
  (if 0 < unread then
    ["- " ++ toString unread ++ " unread direct message(s) for this window. Read them with " ++
      "read_messages before starting work."]
  else []) ++
  if 0 < claimed then
    ["- " ++ toString claimed ++ " task(s) claimed by this window are still open (list_tasks " ++
      "mine_only=true)."]
  else []

/-- The digest as it is shown; nothing where `String::truncate` panics. -/
def compact (digest : Value) : Option (List Char) :=
  let text := to_string digest
  if DIGEST_BYTES < bytes text then (cut DIGEST_BYTES text).map (· ++ TRUNCATED) else some text

def activity_line (digest_hours : ℤ) (shown : List Char) : String :=
  "- Team activity, last " ++ toString digest_hours ++ "h (team_digest): " ++ String.ofList shown

/-- The line about the team, from the answer to `team_digest`. -/
def activity_lines (digest : Except String Value) (digest_hours : ℤ) : Option (List String) :=
  match digest with
  | .ok digest => (compact digest).map fun shown => [activity_line digest_hours shown]
  | .error _ => some []

def closing_line : String :=
  "- Nothing is pushed into an idle turn: call read_messages or wait_for_updates to " ++
    "receive what teammates sent. Claim shared work with claim_task before starting it."

/-- The window the bus named: an agent and a team, both of them not empty. -/
def identified (who : Value) : Option (String × String) :=
  let agent := ((who.get "agent").as_str).getD ""
  let team := ((who.get "team").as_str).getD ""
  if agent = "" ∨ team = "" then none else some (agent, team)

/-- `session_start_context`, given what the two calls answer. -/
def session_start_context (who digest : Except String Value) (digest_hours : ℤ) : Outcome :=
  match who with
  | .error e => .err e
  | .ok who =>
    match identified who with
    | none => .err "the bus did not identify this window"
    | some (agent, team) =>
      match activity_lines digest digest_hours with
      | none => .panicked
      | some activity =>
        .ok ("\n".intercalate (window_lines who agent team ++ activity ++ [closing_line]))

/-! ## Where it panics -/

/-- The line about the team shows a beginning of the digest that fits. -/
def Shortened (digest : Value) (digest_hours : ℤ) (context : String) : Prop :=
  ∃ before after shown,
    context = "\n".intercalate (before ++ [activity_line digest_hours (shown ++ TRUNCATED)] ++ after) ∧
      shown <+: to_string digest ∧ bytes shown ≤ DIGEST_BYTES

/-- Either the hook does not get as far as the digest, or the digest is not too long, or it
can be cut. -/
def Cuttable (who digest : Except String Value) : Prop :=
  ∀ w d, who = .ok w → (identified w).isSome = true → digest = .ok d →
    DIGEST_BYTES < bytes (to_string d) → Boundary DIGEST_BYTES (to_string d)

variable {who digest : Except String Value} {d : Value} {shown : List Char} {digest_hours : ℤ}

theorem compact_isSome_iff (d : Value) : (compact d).isSome = true ↔
      (DIGEST_BYTES < bytes (to_string d) → Boundary DIGEST_BYTES (to_string d)) := by
  rw [compact]
  by_cases hlong : DIGEST_BYTES < bytes (to_string d)
  · rw [if_pos hlong, Option.isSome_map, cut_isSome_iff]
    constructor
    · rintro (hshort | hcut) _
      · omega
      · exact hcut
    · intro h
      exact Or.inr (h hlong)
  · rw [if_neg hlong]
    exact ⟨fun _ hno => absurd hno hlong, fun _ => rfl⟩

/-- A digest that is too long is cut where it fits. -/
theorem compact_long (h : compact d = some shown) (hlong : DIGEST_BYTES < bytes (to_string d)) :
    ∃ front, shown = front ++ TRUNCATED ∧ front <+: to_string d ∧ bytes front ≤ DIGEST_BYTES := by
  rw [compact, if_pos hlong] at h
  obtain ⟨front, hfront, rfl⟩ := Option.map_eq_some_iff.mp h
  exact ⟨front, rfl, cut_spec hfront⟩

theorem activity_lines_isSome_iff (digest : Except String Value) (digest_hours : ℤ) :
    (activity_lines digest digest_hours).isSome = true ↔
      ∀ d, digest = .ok d → DIGEST_BYTES < bytes (to_string d) → Boundary DIGEST_BYTES (to_string d) := by
  cases digest with
  | error e => exact ⟨fun _ => nofun, fun _ => rfl⟩
  | ok d =>
    rw [activity_lines, Option.isSome_map, compact_isSome_iff]
    constructor
    · intro h d' hd'
      cases hd'
      exact h
    · intro h
      exact h d rfl

/-- **Session start** panics nowhere, and shows what fits of a digest that is too long, exactly
where the digest can be cut. -/
theorem session_start_context_iff (who digest : Except String Value) (digest_hours : ℤ) :
    (session_start_context who digest digest_hours ≠ .panicked ∧
      ∀ context d, session_start_context who digest digest_hours = .ok context → digest = .ok d →
        DIGEST_BYTES < bytes (to_string d) → Shortened d digest_hours context) ↔
      Cuttable who digest := by
  unfold session_start_context Cuttable
  cases who with
  | error e => exact ⟨fun _ => nofun, fun _ => ⟨nofun, nofun⟩⟩
  | ok w =>
    simp only
    cases hid : identified w with
    | none =>
      refine ⟨fun _ w' d hw hsome => ?_, fun _ => ⟨nofun, nofun⟩⟩
      cases hw
      rw [hid] at hsome
      cases hsome
    | some id =>
      obtain ⟨agent, team⟩ := id
      have hcut := activity_lines_isSome_iff digest digest_hours
      simp only
      constructor
      · rintro ⟨hpanic, -⟩ w' d _ _ hd hlong
        apply hcut.mp _ d hd hlong
        cases hact : activity_lines digest digest_hours with
        | none =>
          rw [hact] at hpanic
          exact absurd rfl hpanic
        | some activity => rfl
      · intro h
        have hsome := hcut.mpr fun d hd hlong => h w d rfl (by rw [hid]; rfl) hd hlong
        obtain ⟨activity, hact⟩ := Option.isSome_iff_exists.mp hsome
        rw [hact]
        refine ⟨nofun, fun context d hcontext hd hlong => ?_⟩
        cases hcontext
        rw [hd, activity_lines] at hact
        obtain ⟨shown, hshown, rfl⟩ := Option.map_eq_some_iff.mp hact
        obtain ⟨front, rfl, hfront⟩ := compact_long hshown hlong
        exact ⟨_, _, front, rfl, hfront⟩

theorem session_start_context_panicked {w : Value} {agent team : String} (digest_hours : ℤ)
    (hid : identified w = some (agent, team)) (hlong : DIGEST_BYTES < bytes (to_string d))
    (hcut : cut DIGEST_BYTES (to_string d) = none) :
    session_start_context (.ok w) (.ok d) digest_hours = .panicked := by
  have hnone : activity_lines (.ok d) digest_hours = none := by
    rw [activity_lines, compact, if_pos hlong, hcut]
    rfl
  rw [session_start_context]
  simp only [hid, hnone]

/-- A message of three hundred accented letters. -/
def accents : Value := .object [("at", .string "2026-01-01T00:00:00Z"),
  ("body", .string (String.ofList (List.replicate 300 'é'))), ("from", .string "bo")]

/-- A digest of five of them. -/
def accented : Value :=
  .object [("active_locks", .array []), ("agents_seen", .array []),
    ("channels", .array [.object [("last_messages", .array [accents, accents, accents, accents, accents]),
      ("message_count", .number (.int 5)), ("name", .string "general")]]),
    ("claimed_tasks", .number (.int 0)), ("hours", .number (.int 24)), ("notes_updated", .array []),
    ("open_tasks", .number (.int 0)), ("tasks_moved", .array [])]

/-- The answer to `whoami` of a window of `ann`. -/
def ann : Value := .object [("agent", .string "ann"), ("team", .string "crew")]

/-- Six hundred bytes of accents, between others. -/
theorem accents_text : ∃ front back, to_string accents = front ++ (List.replicate 300 'é' ++ back) ∧
    bytes front = 37 ∧ bytes back = 14 := by
  have hbody : (List.replicate 300 'é').flatMap escape = List.replicate 300 'é' := by
    rw [List.flatMap_replicate]
    exact List.flatten_replicate_singleton
  refine ⟨"\x7b\"at\":\"2026-01-01T00:00:00Z\",\"body\":\"".toList, "\",\"from\":\"bo\"\x7d".toList, ?_,
    by decide, by decide⟩
  simp only [accents, to_string, entries_to_strings, quote, String.toList_ofList, hbody]
  generalize List.replicate 300 'é' = body
  simp only [List.intercalate, List.intersperse_cons_cons, List.intersperse_singleton, List.flatten_cons,
    List.append_assoc]
  rfl

theorem accented_text : ∃ front back, to_string accented =
    front ++ (to_string accents ++ ([','] ++ (to_string accents ++ ([','] ++ (to_string accents ++ ([','] ++
      (to_string accents ++ back))))))) ∧ bytes front = 66 := by
  simp only [accented, to_string, entries_to_strings, items_to_strings]
  generalize to_string accents = message
  simp only [List.intercalate, List.intersperse_cons_cons, List.intersperse_singleton, List.flatten_cons,
    List.append_assoc]
  refine ⟨"\x7b\"active_locks\":[],\"agents_seen\":[],\"channels\":[\x7b\"last_messages\":[".toList, _, rfl, ?_⟩
  decide

/-- Byte 2500 lies inside a letter of the fourth message. -/
theorem accented_long : DIGEST_BYTES < bytes (to_string accented) ∧ cut DIGEST_BYTES (to_string accented) = none := by
  obtain ⟨front, back, haccents, hfront, hback⟩ := accents_text
  obtain ⟨opening, rest, haccented, hopening⟩ := accented_text
  have hcomma : bytes [','] = 1 := by decide
  have hletter : ('é').utf8Size = 2 := by decide
  have hmessage : bytes (to_string accents) = 651 := by
    rw [haccents, bytes_append, bytes_append, bytes_replicate, hfront, hback, hletter]
  rw [haccented]
  constructor
  · simp only [bytes_append, hopening, hmessage, hcomma, DIGEST_BYTES]
    omega
  · -- the opening and three messages fit whole, and of the fourth 441 bytes of accents
    have hfourth : cut 478 (to_string accents ++ rest) = none := by
      rw [haccents, List.append_assoc, cut_append (by rw [hfront]; decide), hfront, List.append_assoc,
        cut_replicate (by rw [hletter]; decide) (by rw [hletter]; decide)]
      rfl
    have hnext : ∀ {n : ℕ} {text : List Char}, 652 ≤ n → cut (n - 652) text = none →
        cut n (to_string accents ++ ([','] ++ text)) = none := by
      intro n text hn hnone
      rw [cut_append (by rw [hmessage]; omega), cut_append (by rw [hmessage, hcomma]; omega), hmessage, hcomma,
        Nat.sub_sub, hnone]
      rfl
    have hthird : cut 1130 _ = none := hnext (by decide) hfourth
    have hsecond : cut 1782 _ = none := hnext (by decide) hthird
    have hfirst : cut 2434 _ = none := hnext (by decide) hsecond
    rw [DIGEST_BYTES, cut_append (by rw [hopening]; decide), hopening, hfirst]
    rfl

/-- The digest is cut nowhere, and the conversation starts with a panic. -/
theorem session_start_panics :
    session_start_context (.ok ann) (.ok accented) 24 = .panicked ∧
      ¬∀ who digest digest_hours, session_start_context who digest digest_hours ≠ .panicked := by
  have hid : identified ann = some ("ann", "crew") := by decide
  have hpanic := session_start_context_panicked 24 hid accented_long.1 accented_long.2
  exact ⟨hpanic, fun h => h _ _ _ hpanic⟩

end CrewSync.SessionStart
