/-
`store/inbox.rs`: the references a recipient is owed, as they are queued.

A reference says that something exists and where; it never carries a body. It is
queued in `inbox_events` by the transaction that makes it true (a publication, or
a receipt), once per kind, message, recipient and observation.

`payload`, the JSON copy of columns that are here, is left out.
-/
import CrewSync.Schema

set_option autoImplicit false

namespace CrewSync.References

open Schema Rows

/-- `gen_random_uuid()`: an id no row has. -/
def fresh_id (ids : List ℕ) : ℕ := ids.foldr max 0 + 1

theorem lt_fresh_id {ids : List ℕ} {k : ℕ} (h : k ∈ ids) : k < fresh_id ids := by
  induction ids with
  | nil => exact absurd h List.not_mem_nil
  | cons x ids ih =>
    unfold fresh_id at ih ⊢
    rw [List.foldr_cons]
    rcases List.mem_cons.mp h with rfl | h
    · omega
    · have := ih h
      omega

/-! ## Who a reference is for -/

/-- One hexadecimal digit. -/
def hex_digit (n : ℕ) : Char := Char.ofNat (if n < 10 then 48 + n else 87 + n)

/-- `hex::encode`. -/
def hex_encode (s : String) : String :=
  String.ofList (s.toUTF8.toList.flatMap fun b => [hex_digit (b.toNat / 16), hex_digit (b.toNat % 16)])

/-- `recipient_key`, of an agent's id as it is written, and the same expression in SQL. -/
def written_key (agent session : String) : String :=
  if session.isEmpty then "a" ++ agent else "a" ++ agent ++ "_" ++ hex_encode session

def recipient_key (agent_id : Uuid) (session : String) : String := written_key agent_id.repr session

/-! ### Two addresses have two keys -/

theorem hex_digit_inj {m n : ℕ} (hm : m < 16) (hn : n < 16) (h : hex_digit m = hex_digit n) :
    m = n := by
  have hall : ∀ m < 16, ∀ n < 16, hex_digit m = hex_digit n → m = n := by decide
  exact hall m hm n hn h

variable {a b : ℕ} {r t : List Char} {s : String}

/-- The two digits of a byte. -/
theorem hex_byte_inj {a b : UInt8} (h : [hex_digit (a.toNat / 16), hex_digit (a.toNat % 16)] ++ r =
      [hex_digit (b.toNat / 16), hex_digit (b.toNat % 16)] ++ t) : a = b ∧ r = t := by
  have ha := a.toNat_lt
  have hb := b.toNat_lt
  simp only [List.cons_append, List.nil_append, List.cons.injEq] at h
  obtain ⟨hhigh, hlow, hrest⟩ := h
  have hhigh := hex_digit_inj (by omega) (by omega) hhigh
  have hlow := hex_digit_inj (by omega) (by omega) hlow
  refine ⟨UInt8.toNat_inj.mp ?_, hrest⟩
  omega

theorem hex_bytes_inj {l l' : List UInt8}
    (h : (l.flatMap fun b => [hex_digit (b.toNat / 16), hex_digit (b.toNat % 16)]) =
      l'.flatMap fun b => [hex_digit (b.toNat / 16), hex_digit (b.toNat % 16)]) : l = l' := by
  induction l generalizing l' with
  | nil =>
    cases l' with
    | nil => rfl
    | cons b l' => exact nomatch h
  | cons a l ih =>
    cases l' with
    | nil => exact nomatch h
    | cons b l' =>
      rw [List.flatMap_cons, List.flatMap_cons] at h
      obtain ⟨rfl, hrest⟩ := hex_byte_inj h
      rw [ih hrest]

/-- `ByteArray.toList` lists the bytes. -/
theorem toList_loop (bs : ByteArray) (i : ℕ) (r : List UInt8) :
    ByteArray.toList.loop bs i r = r.reverse ++ bs.data.toList.drop i := by
  fun_induction ByteArray.toList.loop bs i r with
  | case1 i r hlt ih =>
    have hlt' : i < bs.data.toList.length := by simpa using hlt
    rw [ih, List.drop_eq_getElem_cons hlt', List.reverse_cons, List.append_assoc]
    have hget : bs.get! i = bs.data.toList[i] := by
      cases bs with
      | mk data =>
        have hd : i < data.size := hlt
        show data[i]! = data.toList[i]
        rw [getElem!_pos data i hd, Array.getElem_toList]
    rw [hget]
    rfl
  | case2 i r hge =>
    have hge' : bs.data.toList.length ≤ i := by simpa using hge
    rw [List.drop_of_length_le hge', List.append_nil]

theorem bytes_inj {a b : ByteArray} (h : a.toList = b.toList) : a = b := by
  rw [ByteArray.toList, ByteArray.toList, toList_loop, toList_loop] at h
  simp only [List.reverse_nil, List.nil_append, List.drop_zero] at h
  exact ByteArray.ext (Array.toList_inj.mp h)

/-- A label can be read back from its encoding. -/
theorem hex_encode_inj {t : String} (h : hex_encode s = hex_encode t) : s = t := by
  have hbytes := hex_bytes_inj (String.ofList_injective h)
  exact String.toByteArray_inj.mp (bytes_inj hbytes)

theorem recipient_key_window {a : Uuid} (h : s.isEmpty = false) :
    (recipient_key a s).toList = 'a' :: (Nat.toDigits 10 a ++ '_' :: (hex_encode s).toList) := by
  simp [recipient_key, written_key, h, String.toList_append, Nat.toList_repr]

theorem recipient_key_agent {a : Uuid} : (recipient_key a "").toList = 'a' :: Nat.toDigits 10 a := by
  simp [recipient_key, written_key, String.toList_append, Nat.toList_repr]

theorem digits_inj (h : Nat.toDigits 10 a = Nat.toDigits 10 b) : a = b := by
  rw [← Nat.ofDigitChars_ten_toDigits (n := a), h, Nat.ofDigitChars_ten_toDigits]

/-- What stands before an underscore is one thing, and what stands behind it another. -/
theorem digits_underscore_inj (h : Nat.toDigits 10 a ++ '_' :: r = Nat.toDigits 10 b ++ '_' :: t) : a = b ∧ r = t := by
  have hdigits : ∀ (n : ℕ) (z : List Char),
      (Nat.toDigits 10 n ++ '_' :: z).takeWhile (fun c => c != '_') = Nat.toDigits 10 n := by
    intro n z
    have hnone : ∀ c ∈ Nat.toDigits 10 n, (c != '_') = true := by
      intro c hc
      rw [bne_iff_ne]
      rintro rfl
      exact Nat.underscore_not_in_toDigits hc
    rw [List.takeWhile_append_of_pos hnone, List.takeWhile_cons_of_neg (by decide), List.append_nil]
  have hsame : Nat.toDigits 10 a = Nat.toDigits 10 b := by
    rw [← hdigits a r, h, hdigits b t]
  rw [hsame] at h
  exact ⟨digits_inj hsame, (List.cons.inj (List.append_cancel_left h)).2⟩

theorem digits_ne_underscore :
    Nat.toDigits 10 a ≠ Nat.toDigits 10 b ++ '_' :: r := by
  intro h
  have hin : '_' ∈ Nat.toDigits 10 a := by
    rw [h]
    exact List.mem_append_right _ List.mem_cons_self
  exact Nat.underscore_not_in_toDigits hin

/-- **An inbox is one address's.** -/
theorem recipient_key_inj {a a' : Uuid} {s' : String} (h : recipient_key a s = recipient_key a' s') :
    a = a' ∧ s = s' := by
  have hlist := congrArg String.toList h
  by_cases hs : s.isEmpty = true <;> by_cases hs' : s'.isEmpty = true
  · rw [String.isEmpty_iff] at hs hs'
    subst hs hs'
    rw [recipient_key_agent, recipient_key_agent, List.cons.injEq] at hlist
    exact ⟨digits_inj hlist.2, rfl⟩
  · rw [String.isEmpty_iff] at hs
    subst hs
    rw [recipient_key_agent, recipient_key_window (by simpa using hs'), List.cons.injEq] at hlist
    exact absurd hlist.2 digits_ne_underscore
  · rw [String.isEmpty_iff] at hs'
    subst hs'
    rw [recipient_key_agent, recipient_key_window (by simpa using hs), List.cons.injEq] at hlist
    exact absurd hlist.2.symm digits_ne_underscore
  · rw [recipient_key_window (by simpa using hs), recipient_key_window (by simpa using hs'),
      List.cons.injEq] at hlist
    obtain ⟨hagent, hlabel⟩ := digits_underscore_inj hlist.2
    exact ⟨hagent, hex_encode_inj (String.toList_injective hlabel)⟩

/-! ## Queueing -/

/-- `UNIQUE (kind, message_id, recipient_key, dedup)`. -/
def event_key (e : InboxEvent) : EventKind × Uuid × String × String :=
  (e.kind, e.message_id, e.recipient_key, e.dedup)

/-- The row of a reference, as it is queued. -/
def event_row (now : ℕ) (team_id : Uuid) (recipient_key : String) (kind : EventKind)
    (message_id : Uuid) (membership_id : Uuid) (dedup : String) (id : Uuid) : InboxEvent :=
  { id := id, team_id := team_id, recipient_key := recipient_key, kind := kind,
    message_id := message_id, membership_id := some membership_id, state := .pending, attempts := 0,
    last_error := none, next_attempt_at := now, created_at := now, dedup := dedup }

/-- `INSERT … ON CONFLICT (kind, message_id, recipient_key, dedup) DO NOTHING`. -/
def queue_event (row : Uuid → InboxEvent) (t : List InboxEvent) : List InboxEvent :=
  let e := row (fresh_id (t.map fun e => e.id))
  if t.any fun x => event_key x == event_key e then t else insert_into e t

/-- The reference of one recipient, if the rows it names are all there. -/
def message_reference (now : ℕ) (db : Db) (r : MessageRecipient) : Option (Uuid → InboxEvent) := do
  let m ← one (fun m => m.id == r.membership_id) db.conversation_memberships
  let ag ← one (fun a => a.id == m.agent_id) db.agents
  let msg ← one (fun x => x.id == r.message_id) db.conversation_messages
  let c ← one (fun c => c.id == msg.conversation_id) db.conversations
  let _ ← one (fun a => a.id == msg.sender_agent) db.agents
  pure (event_row now c.team_id (recipient_key ag.id m.session) .message msg.id m.id "")

/-- `enqueue_message_references`. -/
def enqueue_message_references (now : ℕ) (message_id : Uuid) (db : Db) : Db :=
  let rows := (db.message_recipients.filter fun r => r.message_id == message_id).filterMap
    (message_reference now db)
  { db with inbox_events := rows.foldl (fun t row => queue_event row t) db.inbox_events }

/-- `enqueue_receipt_reference`. A thread on Postgres queues nothing. -/
def enqueue_receipt_reference (now : ℕ) (message_id membership_id : Uuid) (observation : String)
    (db : Db) : Db :=
  let row : Option (Uuid → InboxEvent) := do
    let msg ← one (fun x => x.id == message_id) db.conversation_messages
    let c ← one (fun c => c.id == msg.conversation_id) db.conversations
    let ag ← one (fun a => a.id == msg.sender_agent) db.agents
    if c.backend = .postgres then none
    else pure (event_row now c.team_id (recipient_key ag.id msg.sender_session) .receipt msg.id
      membership_id s!"{membership_id}:{observation}")
  match row with
  | none => db
  | some row => { db with inbox_events := queue_event row db.inbox_events }

end CrewSync.References
