/-
What a label is worth without the window it names.

An agent token says which agent calls; the window is a label the caller chose. A
seat that was taken by a registered window is bound to it (`session_id`), and a
caller who only **wears** that window's label is not in it. To say so of an
operation, run it twice: on the database, and on the same database with the worn
seats **erased**. An operation that does not act through a worn seat answers and
writes the same both times.

This file says it of every operation for itself. Where it needs that no worn seat
sits in the thread the call is about, it is because the operation looks its
caller's seat up without asking whose it is.
-/
import CrewSync.Seats
import CrewSync.Receipts
import CrewSync.Projects
import CrewSync.History
import CrewSync.Inbox
import CrewSync.Listing

set_option autoImplicit false

namespace CrewSync.Worn

open Error Schema Rows
open Conversations Seats Send

/-- The seat is bound to a registered window whose label the caller wears. -/
def worn (auth : AuthCtx) (m : ConversationMembership) : Bool :=
  m.agent_id == auth.agent_id && m.session == auth.session && m.session_id.isSome

/-- The database without the seats the caller wears the labels of. -/
def erase (auth : AuthCtx) (db : Db) : Db :=
  { db with conversation_memberships := delete (worn auth) db.conversation_memberships }

variable {auth : AuthCtx} {m : ConversationMembership}

/-- A worn seat is at the caller's address and bound to a window. -/
theorem worn_iff : worn auth m = true ↔
    m.agent_id = auth.agent_id ∧ m.session = auth.session ∧ m.session_id.isSome = true := by
  simp [worn, and_assoc]

/-- At another address nobody's label is worn. -/
theorem worn_elsewhere {id agent_id : Uuid} {session : String} (h : at_address id agent_id session m = true)
    (hne : ¬(agent_id = auth.agent_id ∧ session = auth.session)) : worn auth m = false := by
  rw [at_address_iff] at h
  simp only [home, Prod.mk.injEq] at h
  by_contra hw
  obtain ⟨ha, hs, -⟩ := worn_iff.mp (by simpa using hw)
  exact hne ⟨h.2.1.symm.trans ha, h.2.2.symm.trans hs⟩

/-! ## Statements, with and without some rows -/

section Rows

variable {ρ : Type} {q p : ρ → Bool} {f : ρ → ρ} {r : ρ} {t : List ρ}

/-- What is looked for is not among what is deleted. -/
theorem one_delete (h : ∀ a ∈ t, p a = true → q a = false) : one p (delete q t) = one p t := by
  unfold one delete
  rw [List.find?_filter]
  induction t with
  | nil => rfl
  | cons a t ih =>
    rw [List.find?_cons, List.find?_cons, ih fun b hb => h b (List.mem_cons_of_mem _ hb)]
    cases hp : p a with
    | false => simp
    | true => simp [h a List.mem_cons_self hp]

/-- The same of a test. -/
theorem any_delete (h : ∀ a ∈ t, p a = true → q a = false) : (delete q t).any p = t.any p := by
  rw [Bool.eq_iff_iff, List.any_eq_true, List.any_eq_true]
  constructor
  · rintro ⟨a, ha, hp⟩
    exact ⟨a, (mem_delete.mp ha).1, hp⟩
  · rintro ⟨a, ha, hp⟩
    exact ⟨a, mem_delete.mpr ⟨ha, h a ha hp⟩, hp⟩

/-- The same of a selection. -/
theorem filter_delete (h : ∀ a ∈ t, p a = true → q a = false) : (delete q t).filter p = t.filter p := by
  unfold delete
  rw [List.filter_filter]
  refine List.filter_congr fun a ha => ?_
  cases hp : p a with
  | false => rfl
  | true => rw [h a ha hp]; rfl

/-- A rewriting that neither makes nor unmakes such a row may come first or last. -/
theorem delete_update (h : ∀ a ∈ t, p a = true → q (f a) = q a) :
    delete q (update p f t) = update p f (delete q t) := by
  unfold delete update
  rw [List.filter_map]
  refine congrArg _ (List.filter_congr fun a ha => ?_)
  simp only [Function.comp]
  split
  · rename_i hp
    rw [h a ha hp]
  · rfl

/-- So may the row that is added. -/
theorem delete_insert_into (h : q r = false) :
    delete q (insert_into r t) = insert_into r (delete q t) := by
  unfold delete insert_into
  rw [List.filter_append]
  simp [h]

/-- So may an insertion on conflict. -/
theorem delete_upsert (h : ∀ a ∈ t, p a = true → q a = false ∧ q (f a) = false) (hr : q r = false) :
    delete q (upsert p f r t) = upsert p f r (delete q t) := by
  unfold upsert
  rw [any_delete fun a ha hp => (h a ha hp).1]
  split
  · refine delete_update fun a ha hp => ?_
    rw [(h a ha hp).1, (h a ha hp).2]
  · exact delete_insert_into hr

end Rows

/-! ## Being let in -/

section Access

variable (hauth : auth.session_id = none)

include hauth

/-- The seat a caller is let in by is not one it only wears the label of. -/
theorem is_callers_unworn {id : Uuid} (h : is_callers auth id m = true) : worn auth m = false := by
  simp only [is_callers, hauth, Option.isSome_none, Bool.or_false, Bool.and_eq_true,
    Option.isNone_iff_eq_none] at h
  by_contra hw
  have hbound := (worn_iff.mp (by simpa using hw)).2.2
  rw [h.2] at hbound
  cases hbound

/-- The seat a caller is let in by is never a worn one. -/
theorem callers_erase (id : Uuid) (db : Db) :
    one (is_callers auth id) (erase auth db).conversation_memberships =
      one (is_callers auth id) db.conversation_memberships :=
  one_delete fun _ _ h => is_callers_unworn hauth h

/-- Access is decided without them. -/
theorem access_erase (id : Uuid) (db : Db) : access auth id (erase auth db) = access auth id db := by
  unfold access
  rw [callers_erase hauth]
  rfl

/-- So is the right to read. -/
theorem readable_erase (id : Uuid) (db : Db) :
    readable auth id (erase auth db) = readable auth id db := by
  unfold readable
  rw [access_erase hauth]

end Access

/-! ## The reads -/

section Reads

open History Listing

variable (hauth : auth.session_id = none) (fetched : Backend → Locator → Uuid → Fetched)

include hauth

/-- A page is the same without the worn seats. -/
theorem read_erase (admitted paged served : Db) (id : Uuid) (after_seq limit : Option ℤ) :
    History.read fetched (erase auth admitted) (erase auth paged) (erase auth served) auth id
      after_seq limit = History.read fetched admitted paged served auth id after_seq limit := by
  unfold History.read
  rw [readable_erase hauth, readable_erase hauth]
  rfl

/-- So is a single message. -/
theorem get_message_erase (found admitted served : Db) (message_id : Uuid) :
    get_message fetched (erase auth found) (erase auth admitted) (erase auth served) auth
      message_id = get_message fetched found admitted served auth message_id := by
  unfold get_message
  simp only [readable_erase hauth]
  rfl

/-- So are its receipts. -/
theorem receipts_erase (found admitted served : Db) (message_id : Uuid) :
    History.receipts (erase auth found) (erase auth admitted) (erase auth served) auth message_id =
      History.receipts found admitted served auth message_id := by
  unfold History.receipts
  simp only [readable_erase hauth]
  rfl

end Reads

/-! ### Listings -/

section Listings

variable {db : Db}

open Listing

/-- A thread as it is told, without the worn seats among its members. -/
def erase_info (auth : AuthCtx) (i : ConversationInfo) : ConversationInfo :=
  { i with
    membership := i.membership.filter fun m => !worn auth m.seat
    members := i.members.filter fun m => !worn auth m.seat }

/-- A line about a member is about its seat. -/
theorem member_info_seat {i : MembershipInfo} (h : member_info db m = some i) : i.seat = m := by
  obtain ⟨ag, -, rfl⟩ := Option.map_eq_some_iff.mp h
  rfl

/-- The list of members loses the worn seats and nothing else. -/
theorem members_of_erase (id : Uuid) (db : Db) :
    members_of id (erase auth db) = (members_of id db).filter fun m => !worn auth m.seat := by
  unfold members_of erase delete
  simp only [List.filterMap_filter, List.filter_filterMap]
  refine List.filterMap_congr fun m _ => ?_
  show (if (!worn auth m) = true then if m.conversation_id == id then member_info db m else none
    else none) = _
  cases hi : member_info db m with
  | none => simp
  | some i =>
    rw [← member_info_seat hi]
    by_cases hw : worn auth i.seat = true <;> by_cases hc : (i.seat.conversation_id == id) = true <;>
      simp [hw, hc, Option.filter]

/-- A look among some of the rows, where at most one row is looked for. -/
theorem find_filter {ρ : Type} {p q : ρ → Bool} {l : List ρ} (h : ∀ a ∈ l, ∀ b ∈ l, p a = true → p b = true → a = b) :
    (l.filter q).find? p = (l.find? p).filter q := by
  have hone : ∀ {p : ρ → Bool} {t : List ρ}, t.find? p = one p t := rfl
  rw [hone, hone]
  cases hp : one p l with
  | none =>
    rw [Option.filter_none]
    exact one_eq_none.mpr fun a ha => one_eq_none.mp hp a (List.mem_filter.mp ha).1
  | some a =>
    have ha := mem_of_one hp
    cases hq : q a with
    | true =>
      rw [Option.filter_some_pos hq]
      exact one_eq_some (List.mem_filter.mpr ⟨ha, hq⟩) (pos_of_one hp) fun b hb hpb =>
        h b (List.mem_filter.mp hb).1 a ha hpb (pos_of_one hp)
    | false =>
      rw [Option.filter_some_neg (by simp [hq])]
      refine one_eq_none.mpr fun b hb => ?_
      by_contra hpb
      obtain ⟨hb, hqb⟩ := List.mem_filter.mp hb
      rw [h b hb a ha (by simpa using hpb) (pos_of_one hp), hq] at hqb
      cases hqb

/-- What is told of a thread loses their lines. -/
theorem thread_info_erase {a : Access} {c : Conversation} {created_by : String}
    (hk : Keyed ConversationMembership.id db.conversation_memberships) :
    thread_info a c created_by (erase auth db) = erase_info auth (thread_info a c created_by db) := by
  cases hm : a.membership with
  | none => simp [thread_info, erase_info, hm, erase]
  | some mine =>
    have huniq : ∀ i ∈ members_of c.id db, ∀ j ∈ members_of c.id db,
        (i.seat.id == mine.id) = true → (j.seat.id == mine.id) = true → i = j := by
      intro i hi j hj hik hjk
      obtain ⟨m, hmin, hi⟩ := List.mem_filterMap.mp hi
      obtain ⟨n, hnin, hj⟩ := List.mem_filterMap.mp hj
      have hids : m.id = n.id := by
        rw [← member_info_seat hi, ← member_info_seat hj]
        rw [beq_iff_eq] at hik hjk
        exact hik.trans hjk.symm
      rw [hk.eq (List.mem_filter.mp hmin).1 (List.mem_filter.mp hnin).1 hids] at hi
      exact Option.some.inj (hi.symm.trans hj)
    have hfind := find_filter (q := fun m => !worn auth m.seat) huniq
    simp only [thread_info, erase_info, hm, Option.isSome_some, if_true, members_of_erase,
      Option.bind_some, hfind]
    rfl

/-- A result may be mapped before or after the last step. -/
theorem map_bind {α β γ : Type} {x : BusResult α} {g : α → BusResult β} {f : β → γ} :
    (x >>= g).map f = x >>= fun a => (g a).map f := by
  cases x <;> rfl

variable (hauth : auth.session_id = none)

include hauth

/-- A thread is told as before, but for the worn seats among its members. -/
theorem conversation_info_erase {admitted listed : Db} {id : Uuid}
    (hk : Keyed ConversationMembership.id listed.conversation_memberships) :
    conversation_info (erase auth admitted) (erase auth listed) auth id =
      (conversation_info admitted listed auth id).map (erase_info auth) := by
  simp only [conversation_info, readable_erase hauth, thread_info_erase hk, map_bind]
  rfl

/-- The same threads are listed. -/
theorem list_candidates_erase (archived : Bool) (db : Db) :
    list_candidates auth archived (erase auth db) = list_candidates auth archived db := by
  have hsits : ∀ c, sits_in auth (erase auth db) c = sits_in auth db c := by
    intro c
    refine any_delete fun m _ hm => ?_
    simp only [Bool.and_eq_true] at hm
    exact is_callers_unworn hauth hm.1
  have hcand : is_candidate auth archived (erase auth db) = is_candidate auth archived db := by
    funext c
    unfold is_candidate
    rw [hsits]
    rfl
  unfold list_candidates
  rw [hcand]
  rfl

/-- Each is listed with those lines gone. -/
theorem list_conversations_erase {found : Db} {looks : Uuid → Db × Db} {archived : Bool}
    (hk : ∀ id, Keyed ConversationMembership.id (looks id).2.conversation_memberships) :
    list_conversations (erase auth found)
        (fun id => (erase auth (looks id).1, erase auth (looks id).2)) auth archived =
      (list_conversations found looks auth archived).map (List.map (erase_info auth)) := by
  have hamong : ∀ ids, list_conversations_among
      (fun id => (erase auth (looks id).1, erase auth (looks id).2)) auth ids =
      (list_conversations_among looks auth ids).map (List.map (erase_info auth)) := by
    intro ids
    induction ids with
    | nil => rfl
    | cons id ids ih =>
      simp only [list_conversations_among, conversation_info_erase hauth (hk id), ih]
      cases conversation_info (looks id).1 (looks id).2 auth id with
      | ok info =>
        simp only [Except.map]
        cases list_conversations_among looks auth ids <;> rfl
      | error e => cases e <;> rfl
  unfold list_conversations
  rw [list_candidates_erase hauth, hamong, map_bind]
  rfl

omit hauth in
/-- What is waiting is told as before, if no worn seat is among those it is counted
for. -/
theorem activity_erase (h : ∀ c ∈ db.conversations, ∀ m ∈ db.conversation_memberships, worn auth m = true →
      watches auth db c m = true → unacknowledged m db = 0) :
    activity auth (erase auth db) = activity auth db := by
  unfold activity
  simp only [List.filter_flatMap]
  refine List.flatMap_congr fun c hc => ?_
  have hcin := (mem_select.mp (List.mem_reverse.mp hc)).1
  rw [List.filter_map, List.filter_map, List.filter_filter, List.filter_filter]
  refine congrArg _ (filter_delete fun m hm hp => ?_)
  -- a worn seat has nothing waiting, so its line is not among those that are kept
  simp only [Function.comp, Bool.and_eq_true, decide_eq_true_eq] at hp
  by_contra hw
  have hnone := h c hcin m hm (by simpa using hw) hp.2
  have hsome : 0 < unacknowledged m db := hp.1
  omega

end Listings

/-! ## The writes -/

section Writes

variable (hauth : auth.session_id = none) {sha256 : String → String} {now : ℕ} {seen db db' : Db}
  {id : Uuid} {m : ConversationMembership} {t : List ConversationMembership} {seat message_id n : Uuid} {u : Unit}
  {address : String}

/-- A seat that is bound to no window is nobody's to wear. -/
theorem unbound_unworn (h : m.session_id = none) : worn auth m = false := by
  by_contra hw
  have hbound := (worn_iff.mp (by simpa using hw)).2.2
  rw [h] at hbound
  cases hbound

/-- What a statement leaves of a seat's binding: as it is, or none. -/
def Unbinds (m m' : ConversationMembership) : Prop :=
  Same m m' ∧ (m'.session_id = m.session_id ∨ m'.session_id = none)

/-- A seat that is not worn is not worn afterwards. -/
theorem unworn_kept {m' : ConversationMembership} (hw : worn auth m = false) (h : Unbinds m m') :
    worn auth m' = false := by
  obtain ⟨⟨-, hhome⟩, hsame | hnone⟩ := h
  · simp only [home, Prod.mk.injEq] at hhome
    unfold worn at hw ⊢
    rw [hhome.2.1, hhome.2.2, hsame]
    exact hw
  · exact unbound_unworn hnone

/-- An invitation unbinds the seat it rewrites. -/
theorem reinvited_binding (r : Role) (fl : Option ℕ) (by_ : Uuid) (m : ConversationMembership) :
    Unbinds m (reinvited r fl by_ m) := by
  refine ⟨⟨rfl, rfl⟩, ?_⟩
  unfold reinvited
  by_cases hended : ended m = true
  · right
    simp only [hended, if_true]
  · left
    simp only [hended]
    rfl

/-- What holds of every seat holds of those that are left. -/
theorem all_erase {p : ConversationMembership → Bool} (h : db.conversation_memberships.all p = true) :
    (erase auth db).conversation_memberships.all p = true := by
  rw [List.all_eq_true] at h ⊢
  exact fun m hm => h m (mem_delete.mp hm).1

/-- No seat of the thread is worn. -/
def bare (auth : AuthCtx) (id : Uuid) (t : List ConversationMembership) : Prop :=
  ∀ m ∈ t, m.conversation_id = id → worn auth m = false

/-- In a thread without worn seats no address has one. -/
theorem bare_at (h : bare auth id t) {agent_id : Uuid} {session : String} (hm : m ∈ t)
    (hat : at_address id agent_id session m = true) : worn auth m = false := by
  rw [at_address_iff] at hat
  simp only [home, Prod.mk.injEq] at hat
  exact h m hm hat.1

/-- There every address shows the same seat. -/
theorem seat_at_erase (h : bare auth id db.conversation_memberships) (agent_id : Uuid) (session : String) :
    seat_at id agent_id session (erase auth db) = seat_at id agent_id session db :=
  one_delete fun _ hm hat => bare_at h hm hat

/-- Invitees are seated alike, with and without. -/
theorem seat_invitees_erase {l : List ((Uuid × String) × Uuid)} :
    ∀ {t : List ConversationMembership}, bare auth id t →
      delete (worn auth) (l.foldl (seat_invitee auth id) t) =
        l.foldl (seat_invitee auth id) (delete (worn auth) t) := by
  induction l with
  | nil =>
    intro t _
    rfl
  | cons x l ih =>
    obtain ⟨⟨agent_id, session⟩, k⟩ := x
    intro t ht
    have hany : (delete (worn auth) t).any (at_address id agent_id session) =
        t.any (at_address id agent_id session) := any_delete fun m hm hat => bare_at ht hm hat
    rw [List.foldl_cons, List.foldl_cons]
    by_cases hthere : t.any (at_address id agent_id session) = true
    · simp only [seat_invitee, hany, hthere, if_true]
      exact ih ht
    · simp only [seat_invitee, hany, hthere]
      rw [if_neg (by decide), if_neg (by decide), ← delete_insert_into (unbound_unworn rfl)]
      refine ih fun m hm hid => ?_
      rcases mem_insert_into.mp hm with hm | rfl
      · exact ht m hm hid
      · exact unbound_unworn rfl

include hauth

/-- A thread is opened alike. -/
theorem create_conversation_erase {input : CreateInput} {u : Uuid} {seats : List Uuid}
    (h : create_conversation now seen auth input id seat seats db = .ok (u, db')) :
    create_conversation now (erase auth seen) auth input id seat seats (erase auth db) =
      .ok (u, erase auth db') := by
  simp only [create_conversation, bind_eq_ok, ensure_eq_ok, fetch_eq_ok, pure_eq_ok,
    Prod.mk.injEq] at h ⊢
  obtain ⟨_, h1, _, h2, _, h3, invites, h4, _, h5, _, h6, _, h7, team, h8, _, h9, _, ⟨h10, h11, h12⟩, _,
    h13, rfl, rfl⟩ := h
  -- a seat of the caller's own at the new thread would have stopped it
  have hbare : bare auth id db.conversation_memberships := by
    intro m hm hid
    by_contra hw
    obtain ⟨ha, hs, -⟩ := worn_iff.mp (by simpa using hw)
    have hnot := List.all_eq_true.mp h13 m hm
    rw [at_address_iff.mpr (by rw [home, hid, ha, hs])] at hnot
    cases hnot
  refine ⟨(), h1, (), h2, (), h3, invites, h4, (), h5, (), h6, (), h7, team, h8, (), h9, (),
    ⟨h10, h11, all_erase h12⟩, (), all_erase h13, rfl, ?_⟩
  unfold erase
  simp only [Db.mk.injEq, true_and, and_true]
  rw [seat_invitees_erase, delete_insert_into (unbound_unworn hauth)]
  intro m hm hid
  rcases mem_insert_into.mp hm with hm | rfl
  · exact hbare m hm hid
  · exact unbound_unworn hauth

omit hauth in
/-- A sender's own seat is not among those it addresses, worn or not. -/
theorem addressed_erase (c : Conversation) (db : Db) :
    addressed auth c (erase auth db) = addressed auth c db := by
  refine filter_delete fun m _ hm => ?_
  by_contra hw
  obtain ⟨ha, hs, -⟩ := worn_iff.mp (by simpa using hw)
  simp [ha, hs] at hm

omit hauth in
/-- A message is written alike. -/
theorem with_message_erase (c : Conversation) (input : SendInput) (body : String) (k : Uuid) :
    with_message sha256 now auth c input body k (erase auth db) =
      erase auth (with_message sha256 now auth c input body k db) := by
  unfold with_message
  rw [addressed_erase]
  rfl

/-- It is sent alike. -/
theorem send_erase {input : SendInput} {key : Uuid} {r : SentMessage}
    (h : send sha256 now seen auth id input message_id key db = .ok (r, db')) :
    send sha256 now (erase auth seen) auth id input message_id key (erase auth db) =
      .ok (r, erase auth db') := by
  simp only [send, bind_eq_ok, ensure_eq_ok, fetch_eq_ok, callers_erase hauth] at h ⊢
  obtain ⟨_, h1, a, h2, _, h3, _, h4, body, h5, _, h6, _, h7, c, h8, _, h9, _, h10, _, h11, _, h12,
    h⟩ := h
  refine ⟨(), h1, a, (readable_erase hauth id seen).trans h2, (), h3, (), h4, body, h5, (), h6, (), h7,
    c, h8, (), h9, (), h10, (), h11, (), h12, ?_⟩
  have hagain : one (fun m => m.conversation_id == id && m.request_id == input.request_id)
      (erase auth db).conversation_messages = one (fun m => m.conversation_id == id &&
        m.request_id == input.request_id) db.conversation_messages := rfl
  rw [hagain]
  cases hm : one (fun m => m.conversation_id == id && m.request_id == input.request_id)
      db.conversation_messages with
  | some m =>
    rw [hm] at h
    simp only [bind_eq_ok, ensure_eq_ok, pure_eq_ok, Prod.mk.injEq] at h ⊢
    obtain ⟨_, hbody, rfl, rfl⟩ := h
    exact ⟨(), hbody, rfl, rfl⟩
  | none =>
    rw [hm] at h
    simp only [bind_eq_ok, ensure_eq_ok] at h ⊢
    obtain ⟨_, hreply, _, hfresh, h⟩ := h
    refine ⟨(), hreply, (), hfresh, ?_⟩
    rw [with_message_erase]
    split at h
    · rename_i hpub
      rw [if_pos hpub]
      simp only [bind_eq_ok, pure_eq_ok, Prod.mk.injEq] at h ⊢
      obtain ⟨queued, hq, rfl, rfl⟩ := h
      refine ⟨erase auth queued, ?_, rfl, rfl⟩
      simp only [Outbox.enqueue, bind_eq_ok, pure_eq_ok] at hq ⊢
      obtain ⟨_, hbytes, rfl⟩ := hq
      exact ⟨(), hbytes, rfl⟩
    · rename_i hpub
      rw [if_neg hpub]
      simp only [pure_eq_ok, Prod.mk.injEq] at h ⊢
      rw [← h.1, ← h.2]
      exact ⟨rfl, rfl⟩

/-- A thread is archived alike. -/
theorem archive_conversation_erase (h : Projects.archive_conversation now seen auth id db = .ok (u, db')) :
    Projects.archive_conversation now (erase auth seen) auth id (erase auth db) =
      .ok (u, erase auth db') := by
  simp only [Projects.archive_conversation, bind_eq_ok, ensure_eq_ok, pure_eq_ok,
    Prod.mk.injEq] at h ⊢
  obtain ⟨_, h1, a, h2, _, h3, _, h4, _, h5, -, rfl⟩ := h
  exact ⟨(), h1, a, (readable_erase hauth id seen).trans h2, (), h3, (), h4, (), h5, trivial, rfl⟩

/-- The database with a note to the sender queued, if there is one. -/
def noted (row : Option (Uuid → InboxEvent)) (db : Db) : Db :=
  match row with
  | none => db
  | some row => { db with inbox_events := References.queue_event row db.inbox_events }

omit hauth in
/-- A reference is queued alike. -/
theorem enqueue_erase (message_id k : Uuid) (what : String) (db : Db) :
    References.enqueue_receipt_reference now message_id k what (erase auth db) =
      erase auth (References.enqueue_receipt_reference now message_id k what db) := by
  have hrow : ∀ row, noted row (erase auth db) = erase auth (noted row db) := by
    intro row
    cases row <;> rfl
  exact hrow _

/-- An acknowledgement from a seat that is not worn is written alike. -/
theorem ack_erase {k : Uuid} {resolved : Bool} {note : Option String}
    (h : Receipts.ack now seen auth message_id resolved note db = .ok (k, db'))
    (hseat : ∀ m ∈ db.conversation_memberships, m.id = k → m.state = .active →
      worn auth m = false) :
    Receipts.ack now (erase auth seen) auth message_id resolved note (erase auth db) =
      .ok (k, erase auth db') := by
  simp only [Receipts.ack, bind_eq_ok, ensure_eq_ok, fetch_eq_ok, pure_eq_ok, Prod.mk.injEq] at h ⊢
  obtain ⟨_, h1, x, h2, a, h3, mine, h4, text, h5, _, h6, _, h7, _, h8, rfl, rfl⟩ := h
  have hasked : Receipts.is_asked message_id mine.id (erase auth db) =
      Receipts.is_asked message_id mine.id db := by
    funext r
    unfold Receipts.is_asked
    by_cases hr : (r.membership_id == mine.id) = true
    · have hany : (erase auth db).conversation_memberships.any
          (fun m => m.id == r.membership_id && m.state == .active) =
          db.conversation_memberships.any
            (fun m => m.id == r.membership_id && m.state == .active) := by
        -- the seat that was asked is active, so it is not worn
        refine any_delete fun m hm hp => ?_
        simp only [Bool.and_eq_true, beq_iff_eq] at hp hr
        exact hseat m hm (hp.1.trans hr) hp.2
      rw [hany]
    · simp [hr]
  refine ⟨(), h1, x, h2, a, (readable_erase hauth x.conversation_id seen).trans h3, mine, h4, text, h5,
    (), h6, (), h7, (), ?_, rfl, ?_⟩
  · rw [hasked]
    exact h8
  · rw [hasked, ← enqueue_erase]
    rfl

omit hauth in
/-- The caller's address in the thread is taken by a seat that is not worn: then no seat
of the thread is. -/
theorem bare_of_seat (ht : Tidy db.conversation_memberships)
    (hm : seat_at id auth.agent_id auth.session db = some m) (hw : worn auth m = false) :
    bare auth id db.conversation_memberships := by
  intro x hx hid
  by_contra hwx
  obtain ⟨ha, hs, -⟩ := worn_iff.mp (by simpa using hwx)
  have hxat : at_address id auth.agent_id auth.session x = true :=
    at_address_iff.mpr (by rw [home, hid, ha, hs])
  rw [ht.home_eq hx (mem_of_one hm) hxat (pos_of_one hm)] at hwx
  exact hwx hw

/-- An invitation is written alike where no seat that its sender moderates by is worn. -/
theorem invite_erase (ht : Tidy db.conversation_memberships) {role : Option String} {start : Bool}
    (h : invite now seen auth id address role start seat db = .ok (u, db'))
    (hseat : ∀ m ∈ db.conversation_memberships, at_address id auth.agent_id auth.session m = true →
      moderates m = true → worn auth m = false) :
    invite now (erase auth seen) auth id address role start seat (erase auth db) =
      .ok (u, erase auth db') := by
  simp only [invite, bind_eq_ok, ensure_eq_ok, fetch_eq_ok, pure_eq_ok, Prod.mk.injEq] at h ⊢
  obtain ⟨_, h1, a, h2, _, h3, _, h4, r, h5, q, h6, _, h7, c, h8, _, h9, inviter, h10, _, h11, _, h12,
    _, h13, -, rfl⟩ := h
  obtain ⟨hinv, hmod⟩ := Option.filter_eq_some_iff.mp h10
  have hbare := bare_of_seat ht hinv
    (hseat inviter (mem_of_one hinv) (pos_of_one hinv) hmod)
  have hcount : (erase auth db).conversation_memberships.filter (fun m => m.conversation_id == id) =
      db.conversation_memberships.filter fun m => m.conversation_id == id :=
    filter_delete fun m hm hid => hbare m hm (beq_iff_eq.mp hid)
  simp only [seat_at_erase hbare, hcount]
  refine ⟨(), h1, a, (readable_erase hauth id seen).trans h2, (), h3, (), h4, r, h5, q, h6, (), h7, c,
    h8, (), h9, inviter, h10, (), h11, (), h12, (), ?_, trivial, ?_⟩
  · rw [Bool.or_eq_true] at h13 ⊢
    exact h13.imp_right all_erase
  · unfold erase
    simp only [Db.mk.injEq, true_and, and_true]
    rw [delete_upsert (fun m hm hat => ?_) (unbound_unworn rfl)]
    have hw := bare_at hbare hm hat
    exact ⟨hw, unworn_kept hw (reinvited_binding r _ _ m)⟩

omit hauth in
/-- What is done to the open seats of an address changes nobody's binding. -/
theorem put_out_binding (st : SeatState) (m : ConversationMembership) :
    worn auth (put_out st now m) = worn auth m := rfl

omit hauth in
/-- So is a leave, where the seat that is left is not worn. -/
theorem leave_erase (h : leave now seen auth id db = .ok (n, db')) (hseat : ∀ m ∈ db.conversation_memberships,
      is_open_at id auth.agent_id auth.session m = true → worn auth m = false) :
    leave now (erase auth seen) auth id (erase auth db) = .ok (n, erase auth db') := by
  simp only [leave, bind_eq_ok, fetch_eq_ok, pure_eq_ok, Prod.mk.injEq] at h ⊢
  obtain ⟨_, h1, _, h2, m, h3, rfl, rfl⟩ := h
  refine ⟨(), h1, (), h2, m, (one_delete hseat).trans h3, rfl, ?_⟩
  unfold erase
  simp only [Db.mk.injEq, true_and, and_true]
  exact (delete_update fun m _ _ => put_out_binding _ m).symm

/-- A removal goes as the invitation. -/
theorem remove_member_erase (ht : Tidy db.conversation_memberships)
    (h : remove_member now seen auth id address db = .ok (n, db'))
    (hseat : ∀ m ∈ db.conversation_memberships, at_address id auth.agent_id auth.session m = true →
      moderates m = true → worn auth m = false) :
    remove_member now (erase auth seen) auth id address (erase auth db) = .ok (n, erase auth db') := by
  simp only [remove_member, bind_eq_ok, ensure_eq_ok, fetch_eq_ok, pure_eq_ok, Prod.mk.injEq] at h ⊢
  obtain ⟨_, h1, a, h2, _, h3, q, h4, _, h5, _, h6, _, h7, caller, h8, m, h9, _, h10, rfl, rfl⟩ := h
  obtain ⟨hcaller, hmod⟩ := Option.filter_eq_some_iff.mp h8
  have hbare := bare_of_seat ht hcaller
    (hseat caller (mem_of_one hcaller) (pos_of_one hcaller) hmod)
  refine ⟨(), h1, a, (readable_erase hauth id seen).trans h2, (), h3, q, h4, (), h5, (), h6, (), h7,
    caller, ?_, m, ?_, (), h10, rfl, ?_⟩
  · rw [seat_at_erase hbare]
    exact h8
  · refine (one_delete fun x hx hat => ?_).trans h9
    simp only [is_open_at, Bool.and_eq_true] at hat
    exact bare_at hbare hx hat.1
  · unfold erase
    simp only [Db.mk.injEq, true_and, and_true]
    exact (delete_update fun m _ _ => put_out_binding _ m).symm

/-- So does a transfer, where the seat it gives away is not worn. -/
theorem transfer_membership_erase (ht : Tidy db.conversation_memberships) {q : Uuid × Uuid}
    (h : transfer_membership now seen auth id address seat db = .ok (q, db'))
    (hmine : ∀ m ∈ db.conversation_memberships, m.id = q.2 →
      home m = (id, auth.agent_id, auth.session) ∧ (m.state = .active → worn auth m = false)) :
    transfer_membership now (erase auth seen) auth id address seat (erase auth db) =
      .ok (q, erase auth db') := by
  simp only [transfer_membership, bind_eq_ok, ensure_eq_ok, fetch_eq_ok] at h ⊢
  obtain ⟨_, h1, a, h2, mine, h3, ⟨agent_id, session⟩, h4, _, h5, _, h6, _, h7, _, h8, m, h9, h⟩ := h
  cases hr : target_refused address (seat_at id auth.agent_id session db) with
  | some e =>
    simp only [hr] at h
    cases h
  | none =>
    simp only [hr, bind_eq_ok, ensure_eq_ok, pure_eq_ok, Prod.mk.injEq] at h
    obtain ⟨_, hfresh, rfl, rfl⟩ := h
    obtain ⟨hone, hactive⟩ := Option.filter_eq_some_iff.mp h9
    have hm := mem_of_one hone
    have hmid : m.id = mine.id := by simpa using pos_of_one hone
    obtain ⟨hhome, hworn⟩ := hmine m hm hmid
    have hw := hworn (by simpa using hactive)
    -- the caller's own seat is not worn, so the thread has no worn seat
    have hbare := bare_of_seat ht (ht.seat_at_eq hm (at_address_iff.mpr hhome)) hw
    refine ⟨(), h1, a, (readable_erase hauth id seen).trans h2, mine, h3, (agent_id, session), h4, (), h5,
      (), h6, (), h7, (), h8, m, ?_, ?_⟩
    · have hsame : one (fun m => m.id == mine.id) (erase auth db).conversation_memberships =
          one (fun m => m.id == mine.id) db.conversation_memberships := by
        refine one_delete fun x hx hid => ?_
        rw [ht.ids.eq hx hm ((beq_iff_eq.mp hid).trans hmid.symm)]
        exact hw
      rw [hsame]
      exact h9
    · simp only [seat_at_erase hbare, hr, bind_eq_ok, ensure_eq_ok, pure_eq_ok, Prod.mk.injEq]
      refine ⟨(), ?_, trivial, ?_⟩
      · rw [Bool.or_eq_true] at hfresh ⊢
        exact hfresh.imp_right all_erase
      · unfold erase
        simp only [Db.mk.injEq, true_and, and_true]
        rw [delete_update (f := fun m : ConversationMembership => { m with superseded_by := none })
            fun x _ _ => rfl,
          delete_upsert (fun x hx hat => ?_) (unbound_unworn rfl)]
        exact ⟨bare_at hbare hx hat, unbound_unworn rfl⟩

/-- The seats after a join, where the seat that was taken is not worn. -/
theorem after_join_erase (ht : Tidy t) (hinv : ∀ m ∈ t, is_invitation auth id m = true → worn auth m = false)
    (hn : ∃ m ∈ t, is_invitation auth id m = true ∧ m.id = n) :
    delete (worn auth) (after_join now auth id n t) =
      after_join now auth id n (delete (worn auth) t) := by
  have haccepted : ∀ m, worn auth (accepted now auth m) = false := fun _ => unbound_unworn hauth
  have htaken : delete (worn auth) (taken now auth id t).conversation_memberships =
      (taken now auth id (delete (worn auth) t)).conversation_memberships :=
    delete_update fun m hm hp => by rw [haccepted, hinv m hm hp]
  -- the proposal is on the seat that was taken, and that one stays
  have hpred : is_predecessor auth id n (taken now auth id (delete (worn auth) t)) =
      is_predecessor auth id n (taken now auth id t) := by
    funext p
    unfold is_predecessor
    rw [← htaken, any_delete]
    intro x hx hp
    simp only [Bool.and_eq_true, beq_iff_eq] at hp
    obtain ⟨m, hm, hminv, hmid⟩ := hn
    have hkeyed : Keyed ConversationMembership.id (taken now auth id t).conversation_memberships :=
      (ht.update (accepted_in_place now auth)).ids
    have hin : accepted now auth m ∈ (taken now auth id t).conversation_memberships :=
      mem_update_of_pos hm hminv
    rw [hkeyed.eq hx hin (hp.1.trans hmid.symm)]
    exact haccepted m
  unfold after_join
  rw [hpred, ← htaken, ← delete_update (f := superseded now n) fun m _ _ => rfl]
  exact delete_update (f := fun m : ConversationMembership => { m with transfer_from := none })
    fun m _ _ => rfl

/-- A join is alike, since an open offer is bound to no window. -/
theorem join_erase (ht : Tidy db.conversation_memberships) (h : join now seen auth id db = .ok (n, db'))
    (hinvited : ∀ m ∈ db.conversation_memberships, m.state = .invited → m.session_id = none) :
    join now (erase auth seen) auth id (erase auth db) = .ok (n, erase auth db') := by
  have hunworn : ∀ m ∈ db.conversation_memberships, is_invitation auth id m = true →
      worn auth m = false := by
    intro m hm hinv
    simp only [is_invitation, Bool.and_eq_true, beq_iff_eq] at hinv
    exact unbound_unworn (hinvited m hm hinv.2)
  simp only [join, bind_eq_ok, fetch_eq_ok, pure_eq_ok, Prod.mk.injEq] at h ⊢
  obtain ⟨_, h1, _, h2, _, h3, _, h4, m, h5, rfl, rfl⟩ := h
  refine ⟨(), h1, (), h2, (), h3, (), h4, m, (one_delete hunworn).trans h5, rfl, ?_⟩
  have hafter : delete (worn auth) (after_join now auth id m.id db.conversation_memberships) =
      after_join now auth id m.id (delete (worn auth) db.conversation_memberships) :=
    after_join_erase hauth ht hunworn ⟨m, mem_of_one h5, pos_of_one h5, rfl⟩
  show ({ erase auth db with
    conversation_memberships := after_join now auth id m.id (erase auth db).conversation_memberships }
      : Db) = _
  rw [show (erase auth db).conversation_memberships = delete (worn auth) db.conversation_memberships
    from rfl, ← hafter]
  rfl

end Writes

/-! ## The inbox -/

section Inbox

open Inbox Outbox Routing

variable {now : ℕ} {seen db db' : Db} {key : String} {b : Backends} {asked : List Call}
  {answer : BusResult (List InboxRef)}

/-- A confirmation looks at deliveries alone. -/
theorem confirm_erase {ids : List (Option Uuid)} {r : Confirmed}
    (h : confirm now seen b auth ids db = .ok (r, asked, db')) :
    confirm now (erase auth seen) b auth ids (erase auth db) = .ok (r, asked, erase auth db') := by
  simp only [confirm, bind_eq_ok, ensure_eq_ok, pure_eq_ok, Prod.mk.injEq] at h ⊢
  obtain ⟨_, h1, _, h2, _, h3, l, h4, _, h5, rfl, rfl, rfl⟩ := h
  exact ⟨(), h1, (), h2, (), h3, l, h4, (), h5, rfl, rfl, rfl⟩

/-- No seat that is taken is worn. -/
def untaken (auth : AuthCtx) (db : Db) : Prop :=
  ∀ m ∈ db.conversation_memberships, m.state = .active → worn auth m = false

/-- A message finds the same recipient, who is active and so not worn. -/
theorem recipient_seat_erase (h : untaken auth db) (message_id : Uuid) :
    recipient_seat auth message_id (erase auth db) = recipient_seat auth message_id db := by
  have hany : ∀ r : MessageRecipient, ((erase auth db).conversation_memberships.any fun m =>
      m.id == r.membership_id && m.agent_id == auth.agent_id && m.session == auth.session &&
        m.state == .active) = db.conversation_memberships.any fun m =>
      m.id == r.membership_id && m.agent_id == auth.agent_id && m.session == auth.session &&
        m.state == .active := by
    intro r
    refine any_delete fun m hm hp => ?_
    simp only [Bool.and_eq_true, beq_iff_eq] at hp
    exact h m hm hp.2
  unfold recipient_seat
  simp only [hany]
  rfl

/-- A delivery is placed alike. -/
theorem place_erase (message_id : Uuid) (membership_id : Option Uuid) (dedup : String)
    (offer : Option (String × ℕ)) (db : Db) :
    place now auth key message_id membership_id dedup offer (erase auth db) =
      ((place now auth key message_id membership_id dedup offer db).1,
        erase auth (place now auth key message_id membership_id dedup offer db).2) := by
  have hone : one (out_as key message_id dedup) (erase auth db).inbox_deliveries =
      one (out_as key message_id dedup) db.inbox_deliveries := rfl
  unfold place
  rw [hone]
  cases one (out_as key message_id dedup) db.inbox_deliveries with
  | none => rfl
  | some d =>
    simp only
    split <;> rfl

/-- An offer of the broker is recorded alike. -/
theorem record_broker_reference_erase (h : untaken auth db) {r : InboxRef}
    {o : Option InboxReference} (hok : record_broker_reference now auth key r db = .ok (o, db')) :
    record_broker_reference now auth key r (erase auth db) = .ok (o, erase auth db') := by
  simp only [record_broker_reference, bind_eq_ok, fetch_eq_ok] at hok ⊢
  obtain ⟨payload, h1, message_id, h2, hok⟩ := hok
  refine ⟨payload, h1, message_id, h2, ?_⟩
  split at hok
  · rename_i hdone
    simp only [pure_eq_ok, Prod.mk.injEq] at hok
    rw [← hok.1, ← hok.2]
    exact if_pos hdone
  rename_i hdone
  rw [show (erase auth db).inbox_deliveries = db.inbox_deliveries from rfl, if_neg hdone,
    show named_message message_id (erase auth db) = named_message message_id db from rfl]
  cases hn : named_message message_id db with
  | none =>
    simp only [hn, pure_eq_ok, Prod.mk.injEq] at hok ⊢
    exact ⟨hok.1, by rw [hok.2]⟩
  | some named =>
    simp only [hn, bind_eq_ok, fetch_eq_ok] at hok ⊢
    obtain ⟨c, hc, hok⟩ := hok
    refine ⟨c, hc, ?_⟩
    rw [recipient_seat_erase h, place_erase]
    split at hok
    · rename_i hclosed
      simp only [pure_eq_ok, Prod.mk.injEq] at hok
      rw [← hok.1, ← hok.2]
      exact if_pos hclosed
    · rename_i hopen
      simp only [pure_eq_ok, Prod.mk.injEq] at hok
      rw [← hok.1, ← hok.2]
      exact if_neg hopen

/-- A delivery takes no seat. -/
theorem untaken_delivers (h : untaken auth db) (hd : Delivers db db') : untaken auth db' := by
  unfold untaken
  rw [hd.seats]
  exact h

/-- So are all of them, one after the other. -/
theorem record_all_erase {rs : List InboxRef} : ∀ {db db' : Db} {refs : List InboxReference}
    {acks : List String}, untaken auth db →
      record_all now auth key rs db = .ok (refs, acks, db') →
      record_all now auth key rs (erase auth db) = .ok (refs, acks, erase auth db') := by
  induction rs with
  | nil =>
    intro db db' refs acks _ hok
    simp only [record_all, pure_eq_ok, Prod.mk.injEq] at hok ⊢
    exact ⟨hok.1, hok.2.1, by rw [hok.2.2]⟩
  | cons r rs ih =>
    intro db db' refs acks h hok
    simp only [record_all, bind_eq_ok] at hok ⊢
    obtain ⟨⟨o, db₁⟩, h1, ⟨refs₁, acks₁, db₂⟩, h2, hok⟩ := hok
    have h2' := ih (untaken_delivers h (record_broker_reference_delivers h1)) h2
    refine ⟨(o, erase auth db₁), record_broker_reference_erase h h1, (refs₁, acks₁, erase auth db₂), h2',
      ?_⟩
    cases o with
    | none | some x =>
      simp only [pure_eq_ok, Prod.mk.injEq] at hok ⊢
      exact ⟨hok.1, hok.2.1, by rw [hok.2.2]⟩

/-- The broker is asked alike. -/
theorem consult_erase (h : untaken auth db) {limit : ℕ} {refs : List InboxReference} {note : Option String}
    (hok : consult now b answer auth key limit db = .ok (refs, asked, note, db')) :
    consult now b answer auth key limit (erase auth db) =
      .ok (refs, asked, note, erase auth db') := by
  have hteam : for_team b auth.team_id (erase auth db) = for_team b auth.team_id db := rfl
  unfold consult at hok ⊢
  rw [hteam]
  cases hb : for_team b auth.team_id db with
  | error e =>
    simp only [hb, pure_eq_ok, Prod.mk.injEq] at hok ⊢
    exact ⟨hok.1, hok.2.1, hok.2.2.1, by rw [hok.2.2.2]⟩
  | ok backend =>
    cases backend with
    | Postgres =>
      simp only [hb, pure_eq_ok, Prod.mk.injEq] at hok ⊢
      exact ⟨hok.1, hok.2.1, hok.2.2.1, by rw [hok.2.2.2]⟩
    | JetStream team =>
      cases answer with
      | error e =>
        simp only [hb, pure_eq_ok, Prod.mk.injEq] at hok ⊢
        exact ⟨hok.1, hok.2.1, hok.2.2.1, by rw [hok.2.2.2]⟩
      | ok rs =>
        simp only [hb, bind_eq_ok, pure_eq_ok, Prod.mk.injEq] at hok ⊢
        obtain ⟨⟨refs₁, acks, db₁⟩, h1, hok⟩ := hok
        exact ⟨(refs₁, acks, erase auth db₁), record_all_erase h h1, hok.1, hok.2.1, hok.2.2.1,
          congrArg (erase auth) hok.2.2.2⟩

/-- What a receipt owes its seat. -/
def owed_row (auth : AuthCtx) (db : Db) (r : MessageReceipt) : Option OwedMessage := do
  let (cm, m, c, ag) ← receipt_join db r
  if undelivered auth db r cm m c then some ⟨r.membership_id, m, ag.name⟩ else none

/-- A receipt's seat is looked up by its id; one that is worn is not taken, and owes
nothing. -/
theorem owed_messages_erase (ht : Tidy db.conversation_memberships) (h : untaken auth db) :
    owed_messages now auth key (erase auth db) = owed_messages now auth key db := by
  have hrow : ∀ r, owed_row auth (erase auth db) r = owed_row auth db r := by
    intro r
    unfold owed_row
    cases hone : one (fun m => m.id == r.membership_id) db.conversation_memberships with
    | none =>
      have hone' : one (fun m => m.id == r.membership_id)
          (erase auth db).conversation_memberships = none :=
        one_eq_none.mpr fun a ha => one_eq_none.mp hone a (mem_delete.mp ha).1
      simp [receipt_join, hone, hone']
    | some cm =>
      have hcm := mem_of_one hone
      have hcmid : cm.id = r.membership_id := by simpa using pos_of_one hone
      have huniq : ∀ a ∈ db.conversation_memberships, (a.id == r.membership_id) = true → a = cm :=
        fun a ha hid => ht.ids.eq ha hcm ((beq_iff_eq.mp hid).trans hcmid.symm)
      cases hw : worn auth cm with
      | false =>
        have hone' : one (fun m => m.id == r.membership_id)
            (erase auth db).conversation_memberships = some cm := by
          rw [← hone]
          refine one_delete fun a ha hid => ?_
          rw [huniq a ha hid]
          exact hw
        simp only [receipt_join, hone, hone']
        rfl
      | true =>
        have hone' : one (fun m => m.id == r.membership_id)
            (erase auth db).conversation_memberships = none := by
          refine one_eq_none.mpr fun a ha => ?_
          obtain ⟨hin, hnot⟩ := mem_delete.mp ha
          by_contra hid
          rw [huniq a hin (by simpa using hid), hw] at hnot
          cases hnot
        have hstate : cm.state ≠ .active := by
          intro hst
          rw [h cm hcm hst] at hw
          cases hw
        simp [receipt_join, hone, hone', undelivered, hstate, Option.bind_assoc]
  have hrows : owed_row auth (erase auth db) = owed_row auth db := funext hrow
  show select _ _ (List.filterMap (owed_row auth (erase auth db)) db.message_receipts) = _
  rw [hrows]
  rfl

/-- What Postgres has is handed out alike. -/
theorem hand_out_erase (message_id : Uuid) (membership_id : Option Uuid) (dedup : String)
    (conversation_id : Uuid) (db : Db) :
    hand_out now auth key message_id membership_id dedup conversation_id (erase auth db) =
      ((hand_out now auth key message_id membership_id dedup conversation_id db).1,
        erase auth (hand_out now auth key message_id membership_id dedup conversation_id db).2) := by
  unfold hand_out
  rw [place_erase]
  by_cases hopen : db.conversations.any (fun c => c.id == conversation_id && open_to auth.agent_id db c)
      = true
  · rw [if_pos hopen]
    exact if_pos hopen
  · rw [if_neg hopen]
    exact if_neg hopen

/-- So is a list of it. -/
theorem hand_out_all_erase {ρ : Type} {offer : ρ → Db → Option Uuid × Db} {reference : ρ → Uuid → InboxReference}
    (ho : ∀ x db, offer x (erase auth db) = ((offer x db).1, erase auth (offer x db).2))
    (l : List ρ) : ∀ db, hand_out_all offer reference l (erase auth db) =
      ((hand_out_all offer reference l db).1, erase auth (hand_out_all offer reference l db).2) := by
  induction l with
  | nil =>
    intro db
    rfl
  | cons x l ih =>
    intro db
    simp only [hand_out_all, ho x db, ih (offer x db).2]

/-- So are the messages that are owed. -/
theorem reconcile_from_postgres_erase (ht : Tidy db.conversation_memberships) (h : untaken auth db) (limit : ℕ) :
    reconcile_from_postgres now auth key limit (erase auth db) =
      ((reconcile_from_postgres now auth key limit db).1,
        erase auth (reconcile_from_postgres now auth key limit db).2) := by
  unfold reconcile_from_postgres
  rw [owed_messages_erase ht h]
  exact hand_out_all_erase (fun o db => hand_out_erase _ _ _ _ db) _ db

/-- So are the receipts that are owed. -/
theorem reconcile_receipt_events_erase (limit : ℕ) (db : Db) :
    reconcile_receipt_events now auth key limit (erase auth db) =
      ((reconcile_receipt_events now auth key limit db).1,
        erase auth (reconcile_receipt_events now auth key limit db).2) := by
  unfold reconcile_receipt_events
  exact hand_out_all_erase (fun o db => hand_out_erase _ _ _ _ db) _ db

/-- So is the whole of a fetch. -/
theorem fetch_erase (ht : Tidy db.conversation_memberships) (h : untaken auth db) {limit : Option ℤ}
    {batch : InboxBatch} (hok : Inbox.fetch now seen b answer auth limit db = .ok (batch, asked, db')) :
    Inbox.fetch now (erase auth seen) b answer auth limit (erase auth db) =
      .ok (batch, asked, erase auth db') := by
  simp only [Inbox.fetch, bind_eq_ok] at hok ⊢
  obtain ⟨_, h1, _, h2, _, h3, ⟨refs, calls, note, db₁⟩, h4, hok⟩ := hok
  have hdel := consult_delivers h4
  have ht₁ : Tidy db₁.conversation_memberships := by
    rw [hdel.seats]
    exact ht
  refine ⟨(), h1, (), h2, (), h3, (refs, calls, note, erase auth db₁), consult_erase h h4, ?_⟩
  -- receipts are looked for only where messages left room
  have hlast : ∀ (c : Prop) [Decidable c] (n : ℕ) (d : Db),
      (if c then reconcile_receipt_events now auth (caller_key auth) n (erase auth d)
        else ([], erase auth d)) =
      ((if c then reconcile_receipt_events now auth (caller_key auth) n d else ([], d)).1,
        erase auth (if c then reconcile_receipt_events now auth (caller_key auth) n d
          else ([], d)).2) := by
    intro c _ n d
    split
    · exact reconcile_receipt_events_erase n d
    · rfl
  simp only [reconcile_from_postgres_erase ht₁ (untaken_delivers h hdel)]
  by_cases hlt : refs.length < batch_size limit
  · simp only [hlt, if_true, hlast, pure_eq_ok, Prod.mk.injEq] at hok ⊢
    exact ⟨hok.1, hok.2.1, by rw [hok.2.2]⟩
  · simp only [hlt, if_false, hlast, pure_eq_ok, Prod.mk.injEq] at hok ⊢
    exact ⟨hok.1, hok.2.1, by rw [hok.2.2]⟩

end Inbox

end CrewSync.Worn
