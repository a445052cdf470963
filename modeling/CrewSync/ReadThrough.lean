/-
Reading a thread through: `read` of `store/conversations.rs`, called again with
`after_seq` at the `next_after_seq` it returned, until that is absent.

A call looks at the pool three times: for the caller's access, for the page, and for the
access again, whose `last_seq` decides whether there is more. Messages may be sent, and
settle, before, between and after these looks. A page that shows a message awaiting its
publication is followed by one from right before it, so the reader comes back for it, and
the pages overlap. What holds is told by how far the reader has ever been shown the
thread (`Water`): everything up to there has been shown, and the cursor is never past it.

`next_after_seq` is documented as absent when the thread is exhausted. It is absent
besides in two more cases. Where the message numbered 1 awaits its publication, the place
right before it is 0, and 0 is not handed out as a cursor: the reader stops at that page,
whatever is behind it. And where a page comes out empty, a message sent before the second
look at the access is not noticed. A run that meets neither is shown everything.
-/
import CrewSync.ThreadViews

set_option autoImplicit false

namespace CrewSync.ReadThrough

open Error Schema Rows Sessions Conversations
open History Outbox ThreadViews Runs
open Sequence (accepted counters)

/-! ## The system -/

/-- Where the reader stands: before a call from `c`, or after the first or the second look
of it; or it has stopped, the thread having counted `last_seq` messages at its last look. -/
inductive Phase where
  | idle (c : Option ℤ)
  | admitted (c limit : Option ℤ) (admitted : Db)
  | paged (c limit : Option ℤ) (admitted paged : Db)
  | stopped (last_seq : ℕ)

/-- The cursor the reader was given last. -/
def Phase.cursor : Phase → Option (Option ℤ)
  | .idle c | .admitted c _ _ | .paged c _ _ _ => some c
  | .stopped _ => none

/-- The database, the reader, and what its calls have answered. -/
structure Sys where
  db : Db
  phase : Phase := .idle none
  calls : List ConversationRead := []

/-- What can happen next. -/
inductive Act where
  | send (now : ℕ) (seen : Db) (auth : AuthCtx) (id : Uuid) (input : Send.SendInput)
      (message_id publish_key : Uuid)
  | settle (now : ℕ) (l : Lease) (outcome : Published)
  /-- Any other part of the server commits. -/
  | other (db' : Db)
  /-- The reader calls `read`, and its access is looked up. -/
  | call (limit : Option ℤ)
  /-- The page is selected. -/
  | page
  /-- The access is looked up again, and the call answers. -/
  | answer (fetched : Backend → Locator → Uuid → Fetched)

/-- A message's place. -/
def place (m : ConversationMessage) : Uuid × Uuid × ℕ × Option ℕ := (m.id, m.conversation_id, m.seq, m.deleted_at)

/-- No other statement adds a message, deletes one or counts, and none here writes a seat. -/
def leaves_places (db db' : Db) : Bool :=
  db'.conversation_messages.map place == db.conversation_messages.map place &&
    accepted db' == accepted db && counters db' == counters db &&
    db'.conversation_memberships == db.conversation_memberships

/-- How far the thread has counted. -/
def counted (id : Uuid) (db : Db) : ℕ := ((one (fun c => c.id == id) db.conversations).map Conversation.last_seq).getD 0

section Steps

variable (sha256 : String → String) (reader : AuthCtx) (id : Uuid)

/-- One step. -/
def step (s : Sys) : Act → Option Sys
  | .send now seen auth id input message_id publish_key =>
    match Send.send sha256 now seen auth id input message_id publish_key s.db with
    | .error _ => some s
    | .ok (_, db') => some { s with db := db' }
  | .settle now l outcome => some { s with db := (settle now l outcome s.db).2 }
  | .other db' => if leaves_places s.db db' then some { s with db := db' } else none
  | .call limit =>
    match s.phase with
    | .idle c => some { s with phase := .admitted c limit s.db }
    | _ => none
  | .page =>
    match s.phase with
    | .admitted c limit admitted => some { s with phase := .paged c limit admitted s.db }
    | _ => none
  | .answer fetched =>
    match s.phase with
    | .paged c limit admitted paged =>
      match read fetched admitted paged s.db reader id c limit with
      -- refused; the reader may call again
      | .error _ => some { s with phase := .idle c }
      | .ok r => some { s with
          calls := s.calls ++ [r]
          phase := match r.next_after_seq with
            | some d => .idle (some d)
            | none => .stopped (counted id s.db) }
    | _ => none

end Steps

/-! ## What the reader is to be shown -/

/-- Where the history of the caller's seat begins. -/
def floor_of (auth : AuthCtx) (id : Uuid) (db : Db) : ℕ :=
  ((one (is_callers auth id) db.conversation_memberships).bind ConversationMembership.history_from_seq).getD 0

/-- A call has shown the message of that id and number. -/
def Told (calls : List ConversationRead) (p : Uuid × ℕ) : Prop :=
  ∃ r ∈ calls, ∃ x ∈ r.messages, (x.message_id, x.seq) = p

/-- The messages of a page are in order, and what is shown for the first time comes after
all that was shown before. -/
def InOrder (calls : List ConversationRead) : Prop :=
  ∀ before r after, calls = before ++ r :: after →
    r.messages.Pairwise (fun x y => x.seq < y.seq) ∧
      ∀ x ∈ r.messages, ¬ Told before (x.message_id, x.seq) → ∀ q ∈ before, ∀ y ∈ q.messages, y.seq < x.seq

/-- A cursor is before what its page showed as awaiting publication. -/
def Before (r : ConversationRead) : Prop :=
  ∀ d, r.next_after_seq = some d → ∀ x ∈ r.messages, x.publication = "pending_publication" → d < x.seq

/-- The reader was shown what it should have been. -/
structure Followed (id : Uuid) (floor : ℕ) (s : Sys) : Prop where
  /-- When it stops, everything up to the count of its last look. -/
  all : ∀ last_seq, s.phase = .stopped last_seq → ∀ m ∈ thread id s.db, floor < m.seq → m.seq ≤ last_seq →
    Told s.calls (m.id, m.seq)
  order : InOrder s.calls
  cursors : ∀ r ∈ s.calls, Before r

/-- The call is answered. -/
def admits (auth : AuthCtx) (id : Uuid) (admitted served : Db) : Bool :=
  (require_capability auth admitted).isOk && (readable auth id admitted >>= require_accepted).isOk &&
    (readable auth id served >>= require_accepted).isOk

/-- The place a page starts behind. -/
def behind (floor : ℕ) (c : Option ℤ) : ℕ := (max (c.getD 0) floor).toNat

/-- The page a call selects. -/
def page_of (id : Uuid) (floor : ℕ) (c limit : Option ℤ) (paged : Db) : List ConversationMessage :=
  Paging.numbered (fun x : ConversationMessage => x.seq) (page_limit limit) (thread id paged) (behind floor c)

/-- The message is not on the page: it was not there yet, or a page of messages comes before it. -/
def off_page (id : Uuid) (after n : ℕ) (paged : Db) (m : ConversationMessage) : Bool :=
  (thread id paged).all (fun x => x.seq != m.seq) ||
    decide (n ≤ Paging.between (fun x : ConversationMessage => x.seq) (after + 1) m.seq (thread id paged))

/-- A page that is the last though it should not be: there is a message behind it, and it is
empty, or starts with the message numbered 1, which awaits its publication. -/
def cut_short (id : Uuid) (floor : ℕ) (c limit : Option ℤ) (paged served : Db) : Bool :=
  (thread id served).any (fun m => behind floor c < m.seq && off_page id (behind floor c) (page_limit limit) paged m) &&
    ((thread id paged).all (fun x => x.seq ≤ behind floor c) ||
      behind floor c == 0 && (thread id paged).any fun x => x.seq == 1 && awaits x)

/-- The step ends no reading too early. -/
def goes_on (reader : AuthCtx) (id : Uuid) (s : Sys) (a : Act) : Bool :=
  match a, s.phase with
  | .answer _, .paged c limit admitted paged =>
    !(admits reader id admitted s.db && cut_short id (floor_of reader id s.db) c limit paged s.db)
  | _, _ => true

/-! ## What a thread becomes -/

/-- The messages of a thread, by id and number. -/
def places (id : Uuid) (db : Db) : List (Uuid × ℕ) := (thread id db).map fun m => (m.id, m.seq)

/-- Nothing happened to a thread but that messages were added behind its count. -/
structure Grew (id : Uuid) (db db' : Db) : Prop where
  seats : db'.conversation_memberships = db.conversation_memberships
  places : ∃ l, places id db' = places id db ++ l ∧ ∀ p ∈ l, counted id db < p.2
  counted : counted id db ≤ counted id db'

section Growth

variable {sha256 : String → String} {id : Uuid} {db db' db'' : Db} {auth : AuthCtx} {p : Uuid × ℕ} {now : ℕ}
  {input : Send.SendInput} {message_id k : Uuid}

theorem Grew.refl (id : Uuid) (db : Db) : Grew id db db :=
  ⟨rfl, ⟨[], (List.append_nil _).symm, fun _ hp => absurd hp List.not_mem_nil⟩, le_rfl⟩

theorem Grew.trans (h : Grew id db db') (h' : Grew id db' db'') : Grew id db db'' := by
  obtain ⟨l, hl, hlt⟩ := h.places
  obtain ⟨l', hl', hlt'⟩ := h'.places
  refine ⟨h'.seats.trans h.seats, ⟨l ++ l', ?_, fun p hp => ?_⟩, le_trans h.counted h'.counted⟩
  · rw [hl', hl, List.append_assoc]
  · rcases List.mem_append.mp hp with hp | hp
    · exact hlt p hp
    · exact lt_of_le_of_lt h.counted (hlt' p hp)

theorem Grew.mem (h : Grew id db db') (hp : p ∈ ReadThrough.places id db) :
    p ∈ ReadThrough.places id db' := by
  obtain ⟨l, hl, -⟩ := h.places
  rw [hl]
  exact List.mem_append_left _ hp

theorem Grew.mem_or (h : Grew id db db') (hp : p ∈ ReadThrough.places id db') :
    p ∈ ReadThrough.places id db ∨ ReadThrough.counted id db < p.2 := by
  obtain ⟨l, hl, hlt⟩ := h.places
  rw [hl] at hp
  rcases List.mem_append.mp hp with hp | hp
  · exact Or.inl hp
  · exact Or.inr (hlt p hp)

theorem Grew.floor (h : Grew id db db') : floor_of auth id db' = floor_of auth id db := by
  unfold floor_of
  rw [h.seats]

/-- The places are all that a thread's list of places looks at. -/
theorem places_congr (h : db'.conversation_messages.map place = db.conversation_messages.map place) :
    places id db' = places id db := by
  have hread (d : Db) : places id d = ((d.conversation_messages.map place).filter
      fun p => p.2.1 == id && p.2.2.2.isNone).map fun p => (p.1, p.2.2.1) := by
    unfold places thread
    rw [List.filter_map, List.map_map]
    rfl
  rw [hread, hread, h]

theorem counted_congr (h : counters db' = counters db) : counted id db' = counted id db := by
  have hread (d : Db) : counted id d = (((counters d).find? fun k => k.1 == id).map Prod.snd).getD 0 := by
    unfold counted counters one
    rw [List.find?_map, Option.map_map]
    rfl
  rw [hread, hread, h]

theorem grew_of_same (hseats : db'.conversation_memberships = db.conversation_memberships)
    (hplaces : db'.conversation_messages.map place = db.conversation_messages.map place)
    (hcounters : counters db' = counters db) : Grew id db db' :=
  ⟨hseats, ⟨[], by rw [places_congr hplaces, List.append_nil], fun _ hp => absurd hp List.not_mem_nil⟩,
    (counted_congr hcounters).ge⟩

/-- A settlement moves nothing. -/
theorem settle_same (now : ℕ) (l : Lease) (outcome : Published) (db : Db) :
    (settle now l outcome db).2.conversation_memberships = db.conversation_memberships ∧
    (settle now l outcome db).2.conversation_messages.map place = db.conversation_messages.map place ∧
    accepted (settle now l outcome db).2 = accepted db ∧ counters (settle now l outcome db).2 = counters db := by
  unfold settle
  split
  · cases outcome with
    | Confirmed locator | Fatal why => exact ⟨rfl, map_key_update fun _ => rfl, Sequence.ident_update fun _ => rfl, rfl⟩
    | Retryable why =>
      simp only
      split
      · exact ⟨rfl, map_key_update fun _ => rfl, Sequence.ident_update fun _ => rfl, rfl⟩
      · exact ⟨rfl, rfl, rfl, rfl⟩
  · exact ⟨rfl, rfl, rfl, rfl⟩

/-- A message that is sent is placed behind the count of its thread. -/
theorem with_message_grew {c : Conversation} {body : String} (hc : one (fun c => c.id == k) db.conversations = some c) :
    Grew id db (Send.with_message sha256 now auth c input body message_id db) := by
  have hck : c.id = k := by simpa using pos_of_one hc
  have hone (x : Conversation) : one (fun c => c.id == id)
      (update (fun x => x.id == c.id) (fun x => { x with last_seq := x.last_seq + 1 }) db.conversations) =
      (one (fun c => c.id == id) db.conversations).map
        fun x => if x.id == c.id then { x with last_seq := x.last_seq + 1 } else x :=
    one_update fun _ => rfl
  refine ⟨rfl, ⟨((if c.id = id then [(message_id, c.last_seq + 1)] else []) : List (Uuid × ℕ)), ?_, fun p hp => ?_⟩,
    ?_⟩
  · unfold places thread Send.with_message insert_into
    rw [List.filter_append, List.map_append, List.append_cancel_left_eq]
    by_cases hid : c.id = id
    · rw [if_pos hid]
      simp [Send.sent_row, hid]
    · rw [if_neg hid]
      simp [Send.sent_row, hid]
  · by_cases hid : c.id = id
    · rw [if_pos hid, List.mem_singleton] at hp
      rw [hp]
      unfold counted
      rw [← hid, hck, hc]
      exact Nat.lt_succ_self _
    · rw [if_neg hid] at hp
      exact absurd hp List.not_mem_nil
  · unfold counted Send.with_message
    rw [hone c]
    cases one (fun c => c.id == id) db.conversations with
    | none => exact le_rfl
    | some x =>
      simp only [Option.map_some, Option.getD_some]
      split
      · exact Nat.le_succ _
      · exact le_rfl

theorem send_grew {seen : Db} {key : Uuid} {r : Send.SentMessage}
    (h : Send.send sha256 now seen auth k input message_id key db = .ok (r, db')) : Grew id db db' := by
  rcases Send.send_ok h with rfl | ⟨c, body, hc, -, -, -, ⟨-, rfl⟩ | ⟨-, hqueued⟩⟩
  · exact Grew.refl _ _
  · exact with_message_grew hc
  · rw [Send.enqueue_ok hqueued]
    exact (with_message_grew hc).trans (grew_of_same rfl (map_key_update fun _ => rfl) rfl)

end Growth

/-! ## What a call answers -/

section Answers

variable {fetched : Backend → Locator → Uuid → Fetched} {auth : AuthCtx} {id : Uuid} {c limit : Option ℤ}
  {admitted paged served db : Db} {r : ConversationRead} {a : Access}

theorem threads_keyed (h : Sequence.Inv db) : Keyed Conversation.id db.conversations := by
  have hkeyed := h.threads
  unfold Keyed counters at hkeyed
  rw [List.map_map] at hkeyed
  exact hkeyed

theorem numbers (h : Sequence.Inv db) (id : Uuid) : (∀ x ∈ thread id db, 0 < x.seq ∧ x.seq ≤ counted id db) ∧
      Keyed (fun x : ConversationMessage => x.seq) (thread id db) := by
  cases hc : one (fun c => c.id == id) db.conversations with
  | some c =>
    have hcount : counted id db = c.last_seq := by
      unfold counted
      rw [hc]
      rfl
    rw [hcount]
    exact numbers_of_thread h (List.mem_map_of_mem (mem_of_one hc) : (c.id, c.last_seq) ∈ counters db)
      (by simpa using pos_of_one hc)
  | none =>
    -- A message is in a thread there is.
    have hnone : thread id db = [] := by
      refine List.filter_eq_nil_iff.mpr fun m hm hin => ?_
      rw [Bool.and_eq_true, beq_iff_eq] at hin
      obtain ⟨k, hk, hhome⟩ := h.homes (Sequence.ident m) (List.mem_map_of_mem hm)
      obtain ⟨x, hx, rfl⟩ := List.mem_map.mp hk
      have hid : x.id = m.conversation_id := hhome
      have hno := one_eq_none.mp hc x hx
      rw [beq_eq_false_iff_ne] at hno
      exact hno (hid.trans hin.1)
    rw [hnone]
    exact ⟨fun x hx => absurd hx List.not_mem_nil, Keyed.nil _⟩

theorem readable_floor (h : readable auth id db = .ok a) : begins a = floor_of auth id db := by
  unfold readable access at h
  simp only [bind_eq_ok, pure_eq_ok] at h
  obtain ⟨_, ⟨c, -, rfl⟩, _, -, rfl⟩ := h
  unfold begins Access.floor floor_of
  simp only
  cases one (is_callers auth id) db.conversation_memberships with
  | none => rfl
  | some m => rfl

theorem readable_count (hdb : Sequence.Inv db) (h : readable auth id db = .ok a) :
    a.last_seq = counted id db := by
  unfold readable access at h
  simp only [bind_eq_ok, pure_eq_ok, fetch_eq_ok] at h
  obtain ⟨_, ⟨c, hc, rfl⟩, _, -, rfl⟩ := h
  have hpos := pos_of_one hc
  rw [Bool.and_eq_true, beq_iff_eq] at hpos
  have hone : one (fun c => c.id == id) db.conversations = some c :=
    (threads_keyed hdb).one_iff.mpr ⟨mem_of_one hc, hpos.1⟩
  unfold counted
  rw [hone]
  rfl

theorem isOk_iff {α : Type} {x : BusResult α} : x.isOk = true ↔ ∃ a, x = .ok a := by
  cases x with
  | error e | ok a => simp [Except.isOk, Except.toBool]

/-- A call answers with the page behind the cursor, and with where the page is resumed. -/
theorem read_answer (hpaged : Sequence.Inv paged) (hserved : Sequence.Inv served)
    (h : read fetched admitted paged served auth id c limit = .ok r) :
    ∃ b : Access, r.messages = (page_of id (floor_of auth id admitted) c limit paged).map (shown fetched b served) ∧
      r.next_after_seq = (Paging.resume (fun x : ConversationMessage => x.seq) awaits (page_limit limit)
        (counted id served) (thread id paged) (behind (floor_of auth id admitted) c)).map fun d : ℕ => (d : ℤ) := by
  unfold History.read at h
  simp only [bind_eq_ok, pure_eq_ok] at h
  obtain ⟨_, -, a, ha, _, -, b, hb, _, -, rfl⟩ := h
  have hfloor : max (c.getD 0) ((((Access.floor a).getD 0 : ℕ)) : ℤ) =
      max (c.getD 0) ((floor_of auth id admitted : ℕ) : ℤ) := by
    rw [← readable_floor ha]
    rfl
  have hrows : page_rows id (max (c.getD 0) ((((Access.floor a).getD 0 : ℕ)) : ℤ)) (page_limit limit) paged =
      page_of id (floor_of auth id admitted) c limit paged := by
    rw [hfloor, page_rows_eq (by omega)]
    rfl
  refine ⟨b, by rw [hrows]; rfl, ?_⟩
  rw [hrows, readable_count hserved hb]
  exact next_after_eq (fun x hx => ((numbers hpaged id).1 x hx).1) (fun _ => rfl) fun _ => serve_awaits _

/-- A call is answered where the reader is let in twice. -/
theorem answered_iff : (∃ r, read fetched admitted paged served auth id c limit = .ok r) ↔
    admits auth id admitted served = true := by
  unfold admits
  rw [Bool.and_eq_true, Bool.and_eq_true, isOk_iff, isOk_iff, isOk_iff]
  unfold History.read
  simp only [bind_eq_ok, pure_eq_ok]
  constructor
  · rintro ⟨r, u, hcap, a, ha, v, hacc, b, hb, w, hacc', -⟩
    exact ⟨⟨⟨u, hcap⟩, v, a, ha, hacc⟩, w, b, hb, hacc'⟩
  · rintro ⟨⟨⟨u, hcap⟩, v, a, ha, hacc⟩, w, b, hb, hacc'⟩
    exact ⟨_, u, hcap, a, ha, v, hacc, b, hb, w, hacc', rfl⟩

end Answers

/-! ## How far the reader has come -/

/-- The reader has been shown the thread from its floor up to `high`, and nothing behind. -/
structure Water (id : Uuid) (floor high : ℕ) (s : Sys) : Prop where
  counted : high ≤ max floor (counted id s.db)
  told : ∀ r ∈ s.calls, ∀ x ∈ r.messages,
    (x.message_id, x.seq) ∈ places id s.db ∧ floor < x.seq ∧ x.seq ≤ high
  covered : ∀ p ∈ places id s.db, floor < p.2 → p.2 ≤ high → Told s.calls p
  cursor : ∀ c, s.phase.cursor = some c → behind floor c ≤ high

/-- What a call has looked at so far is what the thread has grown from, and all that earlier
calls have shown was there. -/
def Looked (id : Uuid) (s : Sys) : Prop :=
  match s.phase with
  | .admitted _ _ admitted => Grew id admitted s.db
  | .paged _ _ admitted paged => Grew id admitted s.db ∧ Grew id paged s.db ∧ Sequence.Inv paged ∧
      ∀ r ∈ s.calls, ∀ x ∈ r.messages, (x.message_id, x.seq) ∈ places id paged
  | .stopped last_seq => last_seq ≤ counted id s.db
  | .idle _ => True

/-- The invariant. -/
structure Base (reader : AuthCtx) (id : Uuid) (floor : ℕ) (s : Sys) : Prop where
  numbered : Sequence.Inv s.db
  seat : floor_of reader id s.db = floor
  looked : Looked id s
  water : ∃ high, Water id floor high s
  begun : ∀ c, s.phase.cursor = some c → c = none ∧ s.calls = [] ∨ ∃ d, c = some d ∧ 0 < d
  order : InOrder s.calls
  cursors : ∀ r ∈ s.calls, Before r

section Progress

variable {reader : AuthCtx} {id : Uuid} {floor high : ℕ} {s : Sys}
  {c limit : Option ℤ} {admitted paged : Db} {fetched : Backend → Locator → Uuid → Fetched} {r : ConversationRead}
  {p : Uuid × ℕ} {db db' served : Db} {ph : Phase} {calls : List ConversationRead} {b : Access}
  {last : ConversationMessage}

theorem mem_places : p ∈ places id db ↔ ∃ m ∈ thread id db, (m.id, m.seq) = p :=
  List.mem_map

theorem floor_le_behind (floor : ℕ) (c : Option ℤ) : floor ≤ behind floor c := by
  unfold behind
  omega

/-- A thread that grew has all that was numbered before, and nothing else so low. -/
theorem mem_of_le (h : Grew id db db') (hp : p ∈ places id db') (hle : p.2 ≤ counted id db) : p ∈ places id db := by
  rcases h.mem_or hp with hin | hlt
  · exact hin
  · exact absurd hle (not_le.mpr hlt)

theorem Water.grew (h : Water id floor high s) (hg : Grew id s.db db') :
    Water id floor high { s with db := db' } where
  counted := by
    have hle := hg.counted
    have hhigh := h.counted
    show high ≤ max floor (ReadThrough.counted id db')
    omega
  told r hr x hx := ⟨hg.mem (h.told r hr x hx).1, (h.told r hr x hx).2⟩
  covered p hp hlt hle := by
    have hhigh := h.counted
    exact h.covered p (mem_of_le hg hp (by omega)) hlt hle
  cursor := h.cursor

/-- What happens around the reader. -/
theorem Base.grew (h : Base reader id floor s) (hg : Grew id s.db db') (hdb : Sequence.Inv db') :
    Base reader id floor { s with db := db' } where
  numbered := hdb
  seat := hg.floor.trans h.seat
  looked := by
    have hlooked := h.looked
    unfold Looked at hlooked ⊢
    cases hs : s.phase with
    | idle c => trivial
    | admitted c limit admitted =>
      rw [hs] at hlooked
      exact hlooked.trans hg
    | paged c limit admitted paged =>
      rw [hs] at hlooked
      exact ⟨hlooked.1.trans hg, hlooked.2.1.trans hg, hlooked.2.2⟩
    | stopped last_seq =>
      rw [hs] at hlooked
      exact le_trans hlooked hg.counted
  water := by
    obtain ⟨high, hwater⟩ := h.water
    exact ⟨high, hwater.grew hg⟩
  begun := h.begun
  order := h.order
  cursors := h.cursors

/-- A look of the reader's that answers nothing. -/
theorem Base.look (h : Base reader id floor s) (hcursor : ph.cursor = s.phase.cursor)
    (hlooked : Looked id { s with phase := ph }) : Base reader id floor { s with phase := ph } where
  numbered := h.numbered
  seat := h.seat
  looked := hlooked
  water := by
    obtain ⟨high, hwater⟩ := h.water
    exact ⟨high, hwater.counted, hwater.told, hwater.covered, fun c hc => hwater.cursor c (hcursor.symm.trans hc)⟩
  begun c hc := h.begun c (hcursor.symm.trans hc)
  order := h.order
  cursors := h.cursors

theorem inOrder_snoc (h : InOrder calls) (hpage : r.messages.Pairwise fun x y => x.seq < y.seq)
    (hnew : ∀ x ∈ r.messages, ¬ Told calls (x.message_id, x.seq) → ∀ q ∈ calls, ∀ y ∈ q.messages, y.seq < x.seq) :
    InOrder (calls ++ [r]) := by
  intro before q after heq
  rcases List.eq_nil_or_concat after with hnil | ⟨init, last, hlast⟩
  · rw [hnil] at heq
    obtain ⟨hbefore, hq⟩ := List.append_inj' heq rfl
    rw [← hbefore, ← List.singleton_inj.mp hq]
    exact ⟨hpage, hnew⟩
  · rw [hlast, List.concat_eq_append, ← List.cons_append, ← List.append_assoc] at heq
    exact h before q init (List.append_inj' heq rfl).1

/-- What is on the page is of the thread, behind the cursor. -/
theorem mem_page_of (hp : Sequence.Inv paged) {m : ConversationMessage} :
    m ∈ page_of id floor c limit paged ↔ m ∈ thread id paged ∧ behind floor c < m.seq ∧
      Paging.between (fun x : ConversationMessage => x.seq) (behind floor c + 1) m.seq (thread id paged) <
        page_limit limit :=
  Paging.mem_numbered (numbers hp id).2

theorem page_limit_pos (limit : Option ℤ) : 0 < page_limit limit := clamp_pos _ _

/-- The message of a row, as it is shown. -/
theorem told_last (hr : r.messages = (page_of id floor c limit paged).map (shown fetched b served)) :
    Told (calls ++ [r]) p ↔ Told calls p ∨ ∃ m ∈ page_of id floor c limit paged, (m.id, m.seq) = p := by
  unfold Told
  constructor
  · rintro ⟨q, hq, x, hx, rfl⟩
    rcases List.mem_append.mp hq with hq | hq
    · exact Or.inl ⟨q, hq, x, hx, rfl⟩
    · rw [List.mem_singleton.mp hq, hr] at hx
      obtain ⟨m, hm, rfl⟩ := List.mem_map.mp hx
      exact Or.inr ⟨m, hm, rfl⟩
  · rintro (⟨q, hq, x, hx, rfl⟩ | ⟨m, hm, rfl⟩)
    · exact ⟨q, List.mem_append_left _ hq, x, hx, rfl⟩
    · refine ⟨r, List.mem_append_right _ (List.mem_singleton.mpr rfl), shown fetched b served m, ?_, rfl⟩
      rw [hr]
      exact List.mem_map_of_mem hm

/-- What the reader has been shown once a page is: up to the last of the page. -/
theorem covered_page (h : Base reader id floor s) (hwater : Water id floor high s)
    (hs : s.phase = .paged c limit admitted paged)
    (hr : r.messages = (page_of id floor c limit paged).map (shown fetched b served))
    (hlast : (page_of id floor c limit paged).getLast? = some last) :
    ∀ p ∈ places id s.db, floor < p.2 → p.2 ≤ max high last.seq → Told (s.calls ++ [r]) p := by
  have hlooked := h.looked
  unfold Looked at hlooked
  rw [hs] at hlooked
  obtain ⟨-, hgrew, hpaged, -⟩ := hlooked
  have hcursor := hwater.cursor c (by rw [hs]; rfl)
  intro p hp hlt hle
  rw [told_last hr]
  by_cases hhigh : p.2 ≤ high
  · exact Or.inl (hwater.covered p hp hlt hhigh)
  · -- between what was shown and the last of the page: the page has it
    have hlastin := (mem_page_of hpaged).mp (List.mem_of_getLast? hlast)
    have hcount := ((numbers hpaged id).1 last hlastin.1).2
    obtain ⟨m, hm, hmp⟩ := mem_places.mp (mem_of_le hgrew hp (by omega))
    have hseq : m.seq = p.2 := congrArg Prod.snd hmp
    refine Or.inr ⟨m, ?_, hmp⟩
    exact Paging.mem_numbered_of_le (numbers hpaged id).2 hlast hm (by omega) (by omega)

/-- The messages of a page were placed when it was selected, and are. -/
theorem page_placed (h : Base reader id floor s) (hs : s.phase = .paged c limit admitted paged)
    {m : ConversationMessage} (hm : m ∈ page_of id floor c limit paged) : (m.id, m.seq) ∈ places id s.db := by
  have hlooked := h.looked
  unfold Looked at hlooked
  rw [hs] at hlooked
  exact hlooked.2.1.mem (mem_places.mpr ⟨m, ((mem_page_of hlooked.2.2.1).mp hm).1, rfl⟩)

/-- What a call answers: its page, and where the next page starts. -/
theorem Base.page (h : Base reader id floor s) (hs : s.phase = .paged c limit admitted paged)
    (hread : read fetched admitted paged s.db reader id c limit = .ok r) : Sequence.Inv paged ∧
      (∃ b, r.messages = (page_of id floor c limit paged).map (shown fetched b s.db)) ∧
      r.next_after_seq = (Paging.resume (fun x : ConversationMessage => x.seq) awaits (page_limit limit)
        (counted id s.db) (thread id paged) (behind floor c)).map fun d : ℕ => (d : ℤ) := by
  have hlooked := h.looked
  unfold Looked at hlooked
  rw [hs] at hlooked
  obtain ⟨hadmitted, -, hpaged, -⟩ := hlooked
  have hfloor : floor_of reader id admitted = floor := hadmitted.floor.symm.trans h.seat
  obtain ⟨b, hr, hnext⟩ := read_answer hpaged h.numbered hread
  rw [hfloor] at hr hnext
  exact ⟨hpaged, ⟨b, hr⟩, hnext⟩

theorem pairwise_page_of (hp : Sequence.Inv paged) :
    (page_of id floor c limit paged).Pairwise fun a b => a.seq < b.seq :=
  (Paging.pairwise_rest (numbers hp id).2 _).sublist (List.take_sublist _ _)

/-- A page that is not empty takes the reader to its last message, if that is further. -/
theorem Base.water_last (h : Base reader id floor s) (hwater : Water id floor high s)
    (hs : s.phase = .paged c limit admitted paged) (hread : read fetched admitted paged s.db reader id c limit = .ok r)
    (hlast : (page_of id floor c limit paged).getLast? = some last)
    (hph : ∀ c', ph.cursor = some c' → ∃ d, r.next_after_seq = some d ∧ some d = c') :
    Water id floor (max high last.seq) { s with calls := s.calls ++ [r], phase := ph } := by
  obtain ⟨hpaged, ⟨b, hr⟩, hnext⟩ := h.page hs hread
  have hbegins := floor_le_behind floor c
  have hlooked := h.looked
  unfold Looked at hlooked
  rw [hs] at hlooked
  refine ⟨?_, fun q hq x hx => ?_, covered_page h hwater hs hr hlast, fun c' hc' => ?_⟩
  · have hin := ((mem_page_of hpaged).mp (List.mem_of_getLast? hlast)).1
    have hcount := ((numbers hpaged id).1 last hin).2
    have hgrown := hlooked.2.1.counted
    have hhigh := hwater.counted
    show max high last.seq ≤ max floor (counted id s.db)
    omega
  · rcases List.mem_append.mp hq with hq | hq
    · obtain ⟨hin, hlt, hle⟩ := hwater.told q hq x hx
      exact ⟨hin, hlt, by omega⟩
    · rw [List.mem_singleton.mp hq, hr] at hx
      obtain ⟨m, hm, rfl⟩ := List.mem_map.mp hx
      have hlt := ((mem_page_of hpaged).mp hm).2.1
      have hle := Paging.le_last (pairwise_page_of hpaged) hlast hm
      refine ⟨page_placed h hs hm, ?_, ?_⟩
      · show floor < m.seq
        omega
      · show m.seq ≤ max high last.seq
        omega
  · obtain ⟨d, hd, rfl⟩ := hph c' hc'
    rw [hnext] at hd
    obtain ⟨e, he, rfl⟩ := Option.map_eq_some_iff.mp hd
    obtain ⟨-, hce, r', hr', her, -⟩ := Paging.resume_some (numbers hpaged id).2 he
    have hrlast : r' = last := Option.some.inj (hr'.symm.trans hlast)
    rw [hrlast] at her
    unfold behind
    rw [Option.getD_some]
    omega

/-- An empty page is the last, and leaves the reader where it was. -/
theorem Base.water_empty (h : Base reader id floor s) (hwater : Water id floor high s)
    (hs : s.phase = .paged c limit admitted paged)
    (hread : read fetched admitted paged s.db reader id c limit = .ok r) (hnil : page_of id floor c limit paged = [])
    (hph : ∀ c', ph.cursor = some c' → ∃ d, r.next_after_seq = some d ∧ some d = c') :
    Water id floor high { s with calls := s.calls ++ [r], phase := ph } := by
  obtain ⟨hpaged, ⟨b, hr⟩, hnext⟩ := h.page hs hread
  have hstop : r.next_after_seq = none := by
    have hnone : Paging.resume (fun x : ConversationMessage => x.seq) awaits (page_limit limit)
        (counted id s.db) (thread id paged) (behind floor c) = none := by
      unfold Paging.resume
      rw [show Paging.numbered (fun x : ConversationMessage => x.seq) (page_limit limit) (thread id paged)
        (behind floor c) = [] from hnil]
      rfl
    rw [hnext, hnone]
    rfl
  refine ⟨hwater.counted, fun q hq x hx => ?_, fun p hp hlt hle => ?_, fun c' hc' => ?_⟩
  · rcases List.mem_append.mp hq with hq | hq
    · exact hwater.told q hq x hx
    · rw [List.mem_singleton.mp hq, hr, hnil] at hx
      exact absurd hx List.not_mem_nil
  · rw [told_last hr]
    exact Or.inl (hwater.covered p hp hlt hle)
  · obtain ⟨d, hd, -⟩ := hph c' hc'
    rw [hstop] at hd
    cases hd

/-- What a page shows for the first time comes after all that was shown. -/
theorem Base.order_page (h : Base reader id floor s) (hs : s.phase = .paged c limit admitted paged)
    (hread : read fetched admitted paged s.db reader id c limit = .ok r) : InOrder (s.calls ++ [r]) := by
  obtain ⟨hpaged, ⟨b, hr⟩, -⟩ := h.page hs hread
  obtain ⟨high, hwater⟩ := h.water
  have hbegins := floor_le_behind floor c
  refine inOrder_snoc h.order ?_ fun x hx hnew q hq y hy => ?_
  · rw [hr, List.pairwise_map]
    exact pairwise_page_of hpaged
  · rw [hr] at hx
    obtain ⟨m, hm, rfl⟩ := List.mem_map.mp hx
    have hlt := ((mem_page_of hpaged).mp hm).2.1
    have hle := (hwater.told q hq y hy).2.2
    show y.seq < m.seq
    by_contra hlow
    exact hnew (hwater.covered (m.id, m.seq) (page_placed h hs hm) (by show floor < m.seq; omega)
      (by show m.seq ≤ high; omega))

/-- A page ends before what it shows as awaiting publication. -/
theorem Base.before_page (h : Base reader id floor s) (hs : s.phase = .paged c limit admitted paged)
    (hread : read fetched admitted paged s.db reader id c limit = .ok r) : Before r := by
  obtain ⟨hpaged, ⟨b, hr⟩, hnext⟩ := h.page hs hread
  intro d hd x hx hpending
  rw [hnext] at hd
  obtain ⟨e, he, rfl⟩ := Option.map_eq_some_iff.mp hd
  obtain ⟨-, -, r', -, -, hheld⟩ := Paging.resume_some (numbers hpaged id).2 he
  rw [hr] at hx
  obtain ⟨m, hm, rfl⟩ := List.mem_map.mp hx
  have hawaits : awaits m = true := by
    rw [← serve_awaits, beq_iff_eq]
    exact hpending
  have hlt := hheld m hm hawaits
  show (e : ℤ) < m.seq
  omega

/-- A call that answers. -/
theorem Base.answered (h : Base reader id floor s) (hs : s.phase = .paged c limit admitted paged)
    (hread : read fetched admitted paged s.db reader id c limit = .ok r) :
    Base reader id floor { s with
      calls := s.calls ++ [r]
      phase := match r.next_after_seq with
        | some d => .idle (some d)
        | none => .stopped (counted id s.db) } := by
  obtain ⟨hpaged, -, hnext⟩ := h.page hs hread
  have hcursor : ∀ c', Phase.cursor (match r.next_after_seq with
      | some d => .idle (some d)
      | none => .stopped (counted id s.db)) = some c' → ∃ d, r.next_after_seq = some d ∧ some d = c' := by
    intro c' hc'
    cases hd : r.next_after_seq with
    | none =>
      rw [hd] at hc'
      exact absurd hc' (by simp [Phase.cursor])
    | some d =>
      rw [hd] at hc'
      exact ⟨d, rfl, Option.some.inj hc'⟩
  refine ⟨h.numbered, h.seat, ?_, ?_, ?_, h.order_page hs hread, ?_⟩
  · unfold Looked
    cases r.next_after_seq with
    | none => exact le_rfl
    | some d => trivial
  · obtain ⟨high, hwater⟩ := h.water
    cases hlast : (page_of id floor c limit paged).getLast? with
    | some last => exact ⟨_, h.water_last hwater hs hread hlast hcursor⟩
    | none => exact ⟨_, h.water_empty hwater hs hread (List.getLast?_eq_none_iff.mp hlast) hcursor⟩
  · intro c' hc'
    obtain ⟨d, hd, rfl⟩ := hcursor c' hc'
    rw [hnext] at hd
    obtain ⟨e, he, rfl⟩ := Option.map_eq_some_iff.mp hd
    have hpos := (Paging.resume_some (numbers hpaged id).2 he).1
    exact Or.inr ⟨e, rfl, by omega⟩
  · intro q hq
    rcases List.mem_append.mp hq with hq | hq
    · exact h.cursors q hq
    · rw [List.mem_singleton.mp hq]
      exact h.before_page hs hread

/-- A message is off the page where the page has none of its number. -/
theorem off_page_iff (hp : Sequence.Inv paged) {m : ConversationMessage} (hlt : behind floor c < m.seq) :
    off_page id (behind floor c) (page_limit limit) paged m = true ↔
      ∀ x ∈ page_of id floor c limit paged, x.seq ≠ m.seq := by
  unfold off_page
  rw [Bool.or_eq_true, List.all_eq_true, decide_eq_true_eq]
  constructor
  · rintro (hnone | hmany) x hx heq
    · have hno := hnone x ((mem_page_of hp).mp hx).1
      rw [bne_iff_ne] at hno
      exact hno heq
    · have hfew := ((mem_page_of hp).mp hx).2.2
      rw [heq] at hfew
      exact absurd hmany (not_le.mpr hfew)
  · intro hoff
    by_contra hboth
    rw [not_or, not_le] at hboth
    refine hboth.1 fun x hx => ?_
    rw [bne_iff_ne]
    intro heq
    refine hoff x ((mem_page_of hp).mpr ⟨hx, by omega, ?_⟩) heq
    rw [heq]
    exact hboth.2

/-- The page is the last one where it is empty, where it comes to the end, or where the
message numbered 1 is on it and awaits its publication. -/
theorem page_last_iff (hp : Sequence.Inv paged) {top : ℕ} (htop : counted id paged ≤ top) (limit : Option ℤ)
    (floor : ℕ) (c : Option ℤ) :
    Paging.resume (fun x : ConversationMessage => x.seq) awaits (page_limit limit) top (thread id paged)
        (behind floor c) = none ↔
      (∀ x ∈ thread id paged, x.seq ≤ behind floor c) ∨
      (∃ last, (page_of id floor c limit paged).getLast? = some last ∧
        (page_of id floor c limit paged).find? awaits = none ∧ last.seq = top) ∨
      (behind floor c = 0 ∧ ∃ x ∈ thread id paged, x.seq = 1 ∧ awaits x = true) := by
  obtain ⟨hnumbers, hkeyed⟩ := numbers hp id
  have hpage := page_limit_pos limit
  have hsorted : (page_of id floor c limit paged).Pairwise fun a b => a.seq < b.seq :=
    (Paging.pairwise_rest hkeyed _).sublist (List.take_sublist _ _)
  rw [Paging.resume_none_iff hkeyed fun x hx => le_trans (hnumbers x hx).2 htop]
  constructor
  · rintro (hnil | hend | ⟨x, hx, hone⟩)
    · left
      intro x hx
      by_contra hlt
      have hrest : x ∈ Paging.rest (fun x : ConversationMessage => x.seq) (some (behind floor c)) (thread id paged) := by
        rw [Paging.mem_rest]
        refine ⟨hx, ?_⟩
        rintro k ⟨⟩
        exact not_le.mp hlt
      rcases List.take_eq_nil_iff.mp hnil with hzero | hempty
      · omega
      · rw [hempty] at hrest
        exact absurd hrest List.not_mem_nil
    · exact Or.inr (Or.inl hend)
    · obtain ⟨hin, hlt, -⟩ := (mem_page_of hp).mp (List.mem_of_find?_eq_some hx)
      have hheld := List.find?_some hx
      exact Or.inr (Or.inr ⟨by omega, x, hin, hone, hheld⟩)
  · rintro (hall | hend | ⟨hzero, x, hx, hone, hheld⟩)
    · left
      refine List.eq_nil_iff_forall_not_mem.mpr fun x hx => ?_
      have hpaged : x ∈ page_of id floor c limit paged := hx
      obtain ⟨hin, hlt, -⟩ := (mem_page_of hp).mp hpaged
      exact absurd (hall x hin) (not_le.mpr hlt)
    · exact Or.inr (Or.inl hend)
    · -- nothing comes before number 1, so it is on the page and the first that is held
      have hin : x ∈ page_of id floor c limit paged := by
        refine (mem_page_of hp).mpr ⟨hx, by omega, ?_⟩
        rw [hzero, hone]
        unfold Paging.between
        rw [List.countP_eq_zero.mpr]
        · exact hpage
        · intro y _
          simp only [Bool.and_eq_true, decide_eq_true_eq]
          omega
      obtain ⟨q, hq⟩ := Option.isSome_iff_exists.mp (List.find?_isSome.mpr ⟨x, hin, hheld⟩)
      have hle := Paging.first_held_le hsorted hq hin hheld
      have hpos := (hnumbers q ((mem_page_of hp).mp (List.mem_of_find?_eq_some hq)).1).1
      exact Or.inr (Or.inr ⟨q, hq, by omega⟩)

/-- **Where a reading ends too early**: at a call that is cut short, and at no other. -/
theorem cut_short_iff (h : Base reader id floor s) (hs : s.phase = .paged c limit admitted paged)
    (hread : read fetched admitted paged s.db reader id c limit = .ok r) :
    cut_short id floor c limit paged s.db = true ↔
      r.next_after_seq = none ∧ ∃ m ∈ thread id s.db, floor < m.seq ∧ m.seq ≤ counted id s.db ∧
        ¬ Told (s.calls ++ [r]) (m.id, m.seq) := by
  have hlooked := h.looked
  unfold Looked at hlooked
  rw [hs] at hlooked
  obtain ⟨hadmitted, hgrew, hpaged, hbefore⟩ := hlooked
  have hfloor : floor_of reader id admitted = floor := hadmitted.floor.symm.trans h.seat
  obtain ⟨b, hr, hnext⟩ := read_answer hpaged h.numbered hread
  rw [hfloor] at hr hnext
  have hnone := page_last_iff hpaged hgrew.counted limit floor c
  rw [← Option.map_eq_none_iff (f := fun d : ℕ => (d : ℤ)), ← hnext] at hnone
  obtain ⟨high, hwater⟩ := h.water
  have hcursor := hwater.cursor c (by rw [hs]; rfl)
  have hbegins := floor_le_behind floor c
  unfold cut_short
  simp only [Bool.and_eq_true, Bool.or_eq_true, List.any_eq_true, List.all_eq_true, decide_eq_true_eq, beq_iff_eq]
  rw [hnone]
  constructor
  · rintro ⟨⟨m, hm, hlt, hoff⟩, hwhy⟩
    have hcount := ((numbers h.numbered id).1 m hm).2
    rw [off_page_iff hpaged hlt] at hoff
    refine ⟨?_, m, hm, by omega, hcount, ?_⟩
    · rcases hwhy with hall | ⟨hzero, hfirst⟩
      · exact Or.inl hall
      · exact Or.inr (Or.inr ⟨hzero, hfirst⟩)
    · rw [told_last hr]
      rintro (⟨q, hq, x, hx, heq⟩ | ⟨x, hx, heq⟩)
      · have hseq : x.seq = m.seq := congrArg Prod.snd heq
        rcases hwhy with hall | ⟨hzero, -⟩
        · -- it was shown before, so the page was not empty
          obtain ⟨y, hy, hyp⟩ := mem_places.mp (hbefore q hq x hx)
          have hyseq : y.seq = x.seq := congrArg Prod.snd hyp
          have hle := hall y hy
          omega
        · -- the first call: nothing was shown before
          rcases h.begun c (by rw [hs]; rfl) with ⟨-, hnil⟩ | ⟨d, rfl, hd⟩
          · rw [hnil] at hq
            exact absurd hq List.not_mem_nil
          · unfold behind at hzero
            rw [Option.getD_some] at hzero
            omega
      · exact hoff x hx (congrArg Prod.snd heq)
  · rintro ⟨hlast, m, hm, hlt, hcount, huntold⟩
    have hplace : (m.id, m.seq) ∈ places id s.db := mem_places.mpr ⟨m, hm, rfl⟩
    have hbehind : behind floor c < m.seq := by
      by_contra hle
      refine huntold ((told_last hr).mpr (Or.inl (hwater.covered _ hplace hlt ?_)))
      show m.seq ≤ high
      omega
    have hoff : ∀ x ∈ page_of id floor c limit paged, x.seq ≠ m.seq := by
      intro x hx heq
      obtain ⟨y, hy, hyp⟩ := mem_places.mp (page_placed h hs hx)
      have hyseq : y.seq = x.seq := congrArg Prod.snd hyp
      have hym : y = m := (numbers h.numbered id).2.eq hy hm (hyseq.trans heq)
      rw [hym] at hyp
      exact huntold ((told_last hr).mpr (Or.inr ⟨x, hx, hyp.symm⟩))
    refine ⟨⟨m, hm, hbehind, (off_page_iff hpaged hbehind).mpr hoff⟩, ?_⟩
    rcases hlast with hall | ⟨last, hend, -, htop⟩ | hfirst
    · exact Or.inl hall
    · refine absurd (covered_page h hwater hs hr hend _ hplace hlt ?_) huntold
      show m.seq ≤ max high last.seq
      omega
    · exact Or.inr hfirst

end Progress

/-! ## Over a run -/

section Run

variable {sha256 : String → String} {reader : AuthCtx} {id : Uuid} {floor : ℕ} {s t : Sys} {a : Act}

/-- What a step can do: something around the reader, a look of the reader's, or an answer. -/
theorem step_cases (floor : ℕ) (h : step sha256 reader id s a = some t) :
    (∃ db', t = { s with db := db' } ∧ Grew id s.db db' ∧ (Sequence.Inv s.db → Sequence.Inv db') ∧
      goes_on reader id s a = true) ∨
    (∃ ph, t = { s with phase := ph } ∧ ph.cursor = s.phase.cursor ∧ (∀ n, ph ≠ .stopped n) ∧
      (Base reader id floor s → Looked id { s with phase := ph }) ∧ goes_on reader id s a = true) ∨
    ∃ fetched c limit admitted paged r, s.phase = .paged c limit admitted paged ∧
      read fetched admitted paged s.db reader id c limit = .ok r ∧
      t = { s with
        calls := s.calls ++ [r]
        phase := match r.next_after_seq with
          | some d => .idle (some d)
          | none => .stopped (counted id s.db) } ∧
      goes_on reader id s a = !cut_short id (floor_of reader id s.db) c limit paged s.db := by
  cases a with
  | send now seen auth k input message_id publish_key =>
    left
    unfold step at h
    simp only at h
    cases hsend : Send.send sha256 now seen auth k input message_id publish_key s.db with
    | error e =>
      rw [hsend] at h
      exact ⟨s.db, (Option.some.inj h).symm, Grew.refl _ _, fun hs => hs, rfl⟩
    | ok q =>
      rw [hsend] at h
      exact ⟨q.2, (Option.some.inj h).symm, send_grew hsend, fun hs => hs.sent (Sequence.send_did hsend), rfl⟩
  | settle now l outcome =>
    obtain ⟨hseats, hplaces, haccepted, hcounters⟩ := settle_same now l outcome s.db
    exact Or.inl ⟨_, (Option.some.inj h).symm, grew_of_same hseats hplaces hcounters,
      fun hs => hs.congr haccepted hcounters, rfl⟩
  | other db' =>
    unfold step at h
    simp only at h
    split at h
    · rename_i hleaves
      unfold leaves_places at hleaves
      simp only [Bool.and_eq_true, beq_iff_eq] at hleaves
      obtain ⟨⟨⟨hplaces, haccepted⟩, hcounters⟩, hseats⟩ := hleaves
      exact Or.inl ⟨db', (Option.some.inj h).symm, grew_of_same hseats hplaces hcounters,
        fun hs => hs.congr haccepted hcounters, rfl⟩
    · cases h
  | call limit =>
    unfold step at h
    cases hs : s.phase with
    | idle c =>
      simp only [hs] at h
      exact Or.inr (Or.inl ⟨_, (Option.some.inj h).symm, rfl, fun n => by simp, fun _ => Grew.refl _ _, rfl⟩)
    | admitted c limit admitted | paged c limit admitted paged | stopped n => simp [hs] at h
  | page =>
    unfold step at h
    cases hs : s.phase with
    | admitted c limit admitted =>
      simp only [hs] at h
      refine Or.inr (Or.inl ⟨_, (Option.some.inj h).symm, rfl, fun n => by simp, fun hb => ?_, rfl⟩)
      have hlooked := hb.looked
      unfold Looked at hlooked
      rw [hs] at hlooked
      obtain ⟨high, hwater⟩ := hb.water
      exact ⟨hlooked, Grew.refl _ _, hb.numbered, fun r hr x hx => (hwater.told r hr x hx).1⟩
    | idle c | paged c limit admitted paged | stopped n => simp [hs] at h
  | answer fetched =>
    unfold step at h
    cases hs : s.phase with
    | paged c limit admitted paged =>
      simp only [hs] at h
      cases hread : read fetched admitted paged s.db reader id c limit with
      | error e =>
        simp only [hread] at h
        have hrefused : admits reader id admitted s.db = false := by
          have hanswered : (∃ r, read fetched admitted paged s.db reader id c limit = .ok r) ↔
              admits reader id admitted s.db = true := answered_iff
          rw [← Bool.not_eq_true, ← hanswered]
          rintro ⟨r, hr⟩
          rw [hread] at hr
          cases hr
        refine Or.inr (Or.inl ⟨_, (Option.some.inj h).symm, rfl, fun n => by simp, fun _ => trivial, ?_⟩)
        unfold goes_on
        simp only [hs, hrefused, Bool.false_and, Bool.not_false]
      | ok r =>
        simp only [hread] at h
        have hadmits : admits reader id admitted s.db = true := answered_iff.mp ⟨r, hread⟩
        refine Or.inr (Or.inr ⟨fetched, c, limit, admitted, paged, r, rfl, hread, (Option.some.inj h).symm, ?_⟩)
        unfold goes_on
        simp only [hs, hadmits, Bool.true_and]
    | idle c | admitted c limit admitted | stopped n => simp [hs] at h

theorem Base.step (hb : Base reader id floor s) (h : step sha256 reader id s a = some t) :
    Base reader id floor t := by
  rcases step_cases floor h with ⟨db', rfl, hg, hinv, -⟩ | ⟨ph, rfl, hcursor, -, hlooked, -⟩ |
    ⟨fetched, c, limit, admitted, paged, r, hs, hread, rfl, -⟩
  · exact hb.grew hg (hinv hb.numbered)
  · exact hb.look hcursor (hlooked hb)
  · exact hb.answered hs hread

/-- A step leaves the reader well told just where it ends no reading too early. -/
theorem goes_on_iff (hb : Base reader id floor s) (hf : Followed id floor s)
    (h : step sha256 reader id s a = some t) : goes_on reader id s a = true ↔ Followed id floor t := by
  rcases step_cases floor h with ⟨db', rfl, hg, -, hgo⟩ | ⟨ph, rfl, -, hph, -, hgo⟩ |
    ⟨fetched, c, limit, admitted, paged, r, hs, hread, rfl, hgo⟩
  · rw [hgo]
    refine iff_of_true rfl ⟨fun n hn m hm hlt hle => ?_, hf.order, hf.cursors⟩
    -- what came after the reader stopped is behind the count it stopped at
    have hlooked := hb.looked
    unfold Looked at hlooked
    rw [show s.phase = .stopped n from hn] at hlooked
    obtain ⟨x, hx, hxp⟩ := mem_places.mp (mem_of_le hg (mem_places.mpr ⟨m, hm, rfl⟩) (le_trans hle hlooked))
    have hseq : x.seq = m.seq := congrArg Prod.snd hxp
    have htold := hf.all n hn x hx (by omega) (by omega)
    rw [hxp] at htold
    exact htold
  · rw [hgo]
    exact iff_of_true rfl ⟨fun n hn => absurd hn (hph n), hf.order, hf.cursors⟩
  · have hcut := cut_short_iff hb hs hread
    have hbt := hb.answered hs hread
    rw [hgo, hb.seat, Bool.not_eq_true', ← Bool.not_eq_true, hcut]
    constructor
    · intro hnot
      refine ⟨fun n hn m hm hlt hle => ?_, hbt.order, hbt.cursors⟩
      by_contra huntold
      cases hd : r.next_after_seq with
      | some d =>
        simp only [hd] at hn
        cases hn
      | none =>
        simp only [hd, Phase.stopped.injEq] at hn
        rw [← hn] at hle
        exact hnot ⟨hd, m, hm, hlt, hle, huntold⟩
    · rintro hfollowed ⟨hd, m, hm, hlt, hle, huntold⟩
      refine huntold (hfollowed.all (counted id s.db) ?_ m hm hlt hle)
      simp only [hd]

/-- **Following the cursor.** In a run in which messages are sent and settle however they
will, a reader that calls `read` again with the `next_after_seq` it was given, with whatever
limits, has been shown the thread when it stops, in order, and was given no cursor past what
awaited publication, if and only if no call of it was cut short. -/
theorem following_the_cursor {db : Db} {tr : List (Trans Sys Act)} (hdb : Sequence.Inv db)
    (hrun : Run (Rel (step sha256 reader id)) { db := db } tr s) :
    (∀ e ∈ tr, goes_on reader id e.pre e.act = true) ↔
      ∀ e ∈ tr, Followed id (floor_of reader id db) e.post := by
  have hbase : Base reader id (floor_of reader id db) { db := db } := by
    refine ⟨hdb, rfl, trivial, ⟨floor_of reader id db, ?_⟩, fun c hc => ?_, fun before r after heq => ?_,
      fun r hr => absurd hr List.not_mem_nil⟩
    · refine ⟨le_max_left _ _, fun r hr => absurd hr List.not_mem_nil, fun p _ hlt hle => by omega, fun c hc => ?_⟩
      have hnone : none = c := Option.some.inj hc
      rw [← hnone]
      unfold behind
      rw [Option.getD_none]
      omega
    · exact Or.inl ⟨(Option.some.inj hc).symm, rfl⟩
    · exact absurd heq (by simp)
  have hstart : Followed id (floor_of reader id db) { db := db } :=
    ⟨fun n hn => absurd hn (by simp), hbase.order, hbase.cursors⟩
  exact hrun.invariant_iff (C := fun s a => goes_on reader id s a = true) hbase hstart
    (fun s a t hb h => hb.step h) fun s a t hb hf h => goes_on_iff hb hf h

end Run

/-! ## A thread of Ada's -/

/-- A crew whose bodies are kept with their rows, or on a broker, and the thread Ada opened. -/
def opened (backend : Backend) : Db :=
  let crew : Db := { Reach.crew with teams := [⟨1, "crew", true, backend⟩] }
  ((create_conversation 0 crew Crew.ada ⟨none, true, []⟩ 7 10 [] crew).toOption.map Prod.snd).getD crew

theorem opened_numbered (backend : Backend) : Sequence.Inv (opened backend) := by
  have hcounters : counters (opened backend) = [(7, 0)] := by cases backend <;> decide
  have haccepted : accepted (opened backend) = [] := by cases backend <;> decide
  refine ⟨?_, ?_, ?_, ?_⟩
  · rw [hcounters]
    decide
  · rw [haccepted]
    exact fun x hx => absurd hx List.not_mem_nil
  · rw [haccepted, hcounters]
    intro k hk
    rw [List.mem_singleton.mp hk]
    exact List.Perm.nil
  · rw [haccepted]
    exact Keyed.nil _

/-- Ada writes to the thread. -/
def write (seen : Db) (message_id : Uuid) : Act :=
  .send 0 seen Crew.ada 7 ⟨"hello", message_id + 50, none⟩ message_id (message_id + 100)

/-- She reads it, a page of one. -/
def reads : List Act := [.call (some 1), .page, .answer Reach.bodiless]

/-- A run of hers, and where it ends. -/
def run_of (backend : Backend) (acts : List Act) : Option (List (Trans Sys Act) × Sys) :=
  exec (step Crew.digest Crew.ada 7) { db := opened backend } acts

/-- Two messages are sent, and a third while she reads. -/
def paged_acts : List Act :=
  [write (opened .postgres) 50, write (opened .postgres) 51] ++ reads ++ [write (opened .postgres) 52] ++ reads ++ reads

theorem paged_run : (run_of .postgres paged_acts).isSome = true := by
  decide

/-- Ada has been shown all three when she stops. -/
theorem following_the_cursor_paged :
    (∀ e ∈ ((run_of .postgres paged_acts).get paged_run).1, Followed 7 0 e.post) ∧
    (((run_of .postgres paged_acts).get paged_run).2.calls.map fun r => r.messages.map fun x => x.seq) =
      [[1], [2], [3]] := by
  have hfloor : floor_of Crew.ada 7 (opened .postgres) = 0 := by decide
  have hboth := following_the_cursor (opened_numbered .postgres) (exec_get paged_run)
  rw [hfloor] at hboth
  have hall : ((run_of .postgres paged_acts).get paged_run).1.all
      (fun e => goes_on Crew.ada 7 e.pre e.act) = true := by decide
  exact ⟨hboth.mp (List.all_eq_true.mp hall), by decide⟩

/-- The broker has confirmed neither of two messages; or one is sent while the reader's page
comes out empty. -/
def pending_acts : List Act := [write (opened .jetstream) 50, write (opened .jetstream) 51] ++ reads

def empty_acts : List Act := [.call none, .page, write (opened .postgres) 50, .answer Reach.bodiless]

theorem pending_run : (run_of .jetstream pending_acts).isSome = true := by
  decide

theorem empty_run : (run_of .postgres empty_acts).isSome = true := by
  decide

theorem not_followed {s : Sys} {n : ℕ} {m : ConversationMessage} {floor : ℕ} (hn : s.phase = .stopped n)
    (hm : m ∈ thread 7 s.db) (hlt : floor < m.seq) (hle : m.seq ≤ n)
    (hnone : ∀ r ∈ s.calls, ∀ x ∈ r.messages, (x.message_id, x.seq) ≠ (m.id, m.seq)) : ¬ Followed 7 floor s := by
  intro hf
  obtain ⟨r, hr, x, hx, heq⟩ := hf.all n hn m hm hlt hle
  exact hnone r hr x hx heq

/-- In the first run the reader stops at a page of one, and a message is behind it; in the
second it stops at an empty page, in a thread that has counted one. -/
theorem following_the_cursor_stops :
    (∃ tr s, Run (Rel (step Crew.digest Crew.ada 7)) { db := opened .jetstream } tr s ∧
      s.phase = .stopped 2 ∧ ¬ Followed 7 (floor_of Crew.ada 7 (opened .jetstream)) s) ∧
    ∃ tr s, Run (Rel (step Crew.digest Crew.ada 7)) { db := opened .postgres } tr s ∧
      s.phase = .stopped 1 ∧ ¬ Followed 7 (floor_of Crew.ada 7 (opened .postgres)) s := by
  refine ⟨⟨_, _, exec_get pending_run, rfl, ?_⟩, _, _, exec_get empty_run, rfl, ?_⟩
  · have hbehind : ∃ m ∈ thread 7 ((run_of .jetstream pending_acts).get pending_run).2.db,
        m.id = 51 ∧ m.seq = 2 := by decide
    obtain ⟨m, hm, hid, hseq⟩ := hbehind
    refine not_followed (n := 2) rfl hm (by rw [hseq]; decide) hseq.le ?_
    rw [hid, hseq]
    decide
  · have hbehind : ∃ m ∈ thread 7 ((run_of .postgres empty_acts).get empty_run).2.db,
        m.id = 50 ∧ m.seq = 1 := by decide
    obtain ⟨m, hm, hid, hseq⟩ := hbehind
    refine not_followed (n := 1) rfl hm (by rw [hseq]; decide) hseq.le ?_
    rw [hid, hseq]
    decide

end CrewSync.ReadThrough
