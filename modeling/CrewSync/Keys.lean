/-
The keys of inboxes and of read positions: `recipient_key` of `store/inbox.rs`, and
`cursor_scope_for` with `Scope::cursor_key_for` of `store/messaging.rs`.

An inbox's key is built in two languages. Rust writes the agent with `simple` and the label with
`hex::encode`; the statements that queue references take the hyphens out of `id::text` and use
`encode`. The two are the same text (`message_key_eq`, `receipt_key_eq`), and it tells which
agent and which label it is for: the digits of an agent are always 32. A read position's key
tells its scope, its label and its view, because a base has no `/`.
-/
import Mathlib.Data.List.Basic
import CrewSync.Messaging
import CrewSync.Uuids

set_option autoImplicit false

namespace CrewSync.Keys

open References (hex_digit hex_encode hex_encode_inj written_key)
open Messaging (ScopeOf cursor_scope_for cursor_scope_inj)
open Uuids

/-! ## Inboxes, in Rust -/

/-- `recipient_key`. -/
def recipient_key (agent_id : Uuid) (session : String) : String :=
  written_key (String.ofList agent_id.simple) session

/-- What is written behind the agent. -/
def label_part (session : String) : List Char :=
  if session.isEmpty then [] else '_' :: hex_bytes session.toUTF8.toList

theorem recipient_key_toList (a : Uuid) (s : String) :
    (recipient_key a s).toList = 'a' :: (a.simple ++ label_part s) := by
  unfold recipient_key written_key label_part
  split
  · simp [String.toList_append]
  · simp [String.toList_append, hex_encode_eq]

theorem label_part_inj {s t : String} (h : label_part s = label_part t) : s = t := by
  unfold label_part at h
  split at h
  · rename_i hs
    split at h
    · rename_i ht
      rw [String.isEmpty_iff.mp hs, String.isEmpty_iff.mp ht]
    · cases h
  · split at h
    · cases h
    · apply hex_encode_inj
      rw [hex_encode_eq, hex_encode_eq, (List.cons.inj h).2]

/-- **An inbox is one address's.** -/
theorem recipient_key_inj {a a' : Uuid} {s s' : String} (h : recipient_key a s = recipient_key a' s') :
    a = a' ∧ s = s' := by
  have hlist := congrArg String.toList h
  rw [recipient_key_toList, recipient_key_toList] at hlist
  have hlen : a.simple.length = a'.simple.length := by rw [a.simple_length, a'.simple_length]
  obtain ⟨hagent, hlabel⟩ := List.append_inj (List.cons.inj hlist).2 hlen
  exact ⟨Uuid.simple_inj hagent, label_part_inj hlabel⟩

/-! ## Inboxes, in SQL -/

/-- The digits of `encode` and of `uuid::text`. -/
def hextbl : List Char := "0123456789abcdef".toList

/-- `encode(bytes, 'hex')`. -/
def encode_hex (bytes : List UInt8) : List Char :=
  bytes.flatMap fun b => [hextbl.getD (b.toNat / 16) '0', hextbl.getD (b.toNat % 16) '0']

/-- `id::text`: two digits a byte, and a hyphen before the bytes 4, 6, 8 and 10. -/
def uuid_out (bytes : List UInt8) : List Char :=
  bytes.zipIdx.flatMap fun p => (if p.2 ∈ [4, 6, 8, 10] then ['-'] else []) ++ encode_hex [p.1]

/-- `replace(text, pattern, substitute)`, for a pattern of one character. -/
def replace (text : List Char) (pattern : Char) (substitute : List Char) : List Char :=
  text.flatMap fun c => if c = pattern then substitute else [c]

/-- `convert_to(text, 'UTF8')`. -/
def convert_to_utf8 (text : String) : List UInt8 := text.toUTF8.toList

/-- The `CASE` both statements have. -/
def sql_key (id : Uuid) (session : String) : String :=
  if session = "" then String.ofList ('a' :: replace (uuid_out id.bytes) '-' [])
  else String.ofList ('a' :: replace (uuid_out id.bytes) '-' [] ++ '_' :: encode_hex (convert_to_utf8 session))

/-- The `recipient_key` of `enqueue_message_references`: of `ag.id` and `m.session`. -/
def message_key (ag_id : Uuid) (m_session : String) : String := sql_key ag_id m_session

/-- The `recipient_key` of `enqueue_receipt_reference`: of `ag.id` and `msg.sender_session`. -/
def receipt_key (ag_id : Uuid) (sender_session : String) : String := sql_key ag_id sender_session

/-- The table has the digits. -/
theorem hextbl_getD : ∀ n < 16, hextbl.getD n '0' = hex_digit n := by decide

theorem encode_hex_eq (bytes : List UInt8) : encode_hex bytes = hex_bytes bytes := by
  refine List.flatMap_congr fun b _ => ?_
  have := b.toNat_lt
  rw [hextbl_getD _ (by omega), hextbl_getD _ (by omega)]

/-- To replace by nothing is to leave out. -/
theorem replace_nil (text : List Char) (pattern : Char) :
    replace text pattern [] = text.filter fun c => c != pattern := by
  induction text with
  | nil => rfl
  | cons c text ih =>
    unfold replace at ih ⊢
    rw [List.flatMap_cons, ih]
    by_cases hc : c = pattern
    · rw [if_pos hc, List.filter_cons_of_neg (by simp [hc])]
      rfl
    · rw [if_neg hc, List.filter_cons_of_pos (by simp [hc])]
      rfl

/-- The hyphens apart, `id::text` is the digits. -/
theorem filter_uuid_out (bytes : List UInt8) : (uuid_out bytes).filter (fun c => c != '-') = hex_bytes bytes := by
  suffices ∀ n, ((bytes.zipIdx n).flatMap fun p =>
      (if p.2 ∈ [4, 6, 8, 10] then ['-'] else []) ++ encode_hex [p.1]).filter (fun c => c != '-') =
        hex_bytes bytes from this 0
  induction bytes with
  | nil => intro n; rfl
  | cons b bytes ih =>
    intro n
    have hhyphen : (if n ∈ [4, 6, 8, 10] then ['-'] else []).filter (fun c => c != '-') = [] := by
      split <;> rfl
    have hdigits : (hex_bytes [b]).filter (fun c => c != '-') = hex_bytes [b] := filter_hex_bytes [b]
    rw [List.zipIdx_cons, List.flatMap_cons, List.filter_append, ih, List.filter_append, hhyphen, encode_hex_eq,
      hdigits, List.nil_append, ← hex_bytes_append]
    rfl

/-- **One key in two languages.** -/
theorem sql_key_eq (a : Uuid) (s : String) : sql_key a s = recipient_key a s := by
  have hid : replace (uuid_out a.bytes) '-' [] = a.simple := by
    rw [replace_nil, filter_uuid_out, Uuid.simple]
  apply String.toList_injective
  rw [recipient_key_toList]
  unfold sql_key label_part convert_to_utf8
  rw [hid, encode_hex_eq]
  by_cases hs : s = ""
  · rw [if_pos hs, if_pos (String.isEmpty_iff.mpr hs), String.toList_ofList, List.append_nil]
  · rw [if_neg hs, if_neg (fun h => hs (String.isEmpty_iff.mp h)), String.toList_ofList, List.cons_append]

/-! ## Read positions -/

/-- `Scope`. -/
abbrev Scope := ScopeOf Uuid

/-- The base of a key. -/
def Scope.base (scope : Scope) : String := scope.base_with fun id => String.ofList id.display

/-- `Scope::cursor_key_for`. -/
def Scope.cursor_key_for (scope : Scope) (session : String) (all_sessions : Bool) : String :=
  cursor_scope_for scope.base session all_sessions

theorem hex_digit_ne_slash : ∀ n < 16, hex_digit n ≠ '/' := by decide

theorem Scope.base_congr {a b : Scope} (h : a.Same b) : a.base = b.base := by
  cases a <;> cases b <;> first | rfl | exact h.elim | exact congrArg (fun id : Uuid => "channel:" ++ String.ofList id.display) h

/-- **A read position is one view's of one window.** -/
theorem cursor_key_inj {a b : Scope} {s t : String} {all all' : Bool}
    (h : a.cursor_key_for s all = b.cursor_key_for t all') : a.Same b ∧ s = t ∧ all = all' := by
  refine cursor_scope_inj (fun id => ?_) (fun _ _ hid => Uuid.display_inj (String.ofList_injective hid)) h
  rw [String.toList_ofList]
  exact id.not_mem_display (by decide) hex_digit_ne_slash

/-- **Keys do not collide.** An inbox's key is one agent's and one label's, the same in Rust and
in both statements; and two read positions have one key exactly when they are of one scope, one
window and one view. -/
theorem keys_apart :
    (∀ (a a' : Uuid) (s s' : String), recipient_key a s = recipient_key a' s' ↔ a = a' ∧ s = s') ∧
    (∀ (a : Uuid) (s : String), message_key a s = recipient_key a s ∧ receipt_key a s = recipient_key a s) ∧
    ∀ (a b : Scope) (s t : String) (all all' : Bool),
      a.cursor_key_for s all = b.cursor_key_for t all' ↔ a.Same b ∧ s = t ∧ all = all' := by
  refine ⟨?_, ?_, ?_⟩
  · intro a a' s s'
    constructor
    · exact recipient_key_inj
    · rintro ⟨rfl, rfl⟩
      rfl
  · intro a s
    exact ⟨sql_key_eq a s, sql_key_eq a s⟩
  · intro a b s t all all'
    constructor
    · exact cursor_key_inj
    · rintro ⟨hsame, rfl, rfl⟩
      rw [Scope.cursor_key_for, Scope.base_congr hsame]
      rfl

end CrewSync.Keys
