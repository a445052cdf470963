/-
A label is not a key.

The threads of a team as one system of everything a caller can ask for: the seats
change hands, messages are sent, read, acknowledged and handed out, in any order
and with any lag. Of every call that carries an agent token, and so only a label,
it is asked what it did to the seats of that label that belong to a window, and
what it would have been answered without them.

Two operations never ask whose a seat is: `leave`, which closes it, and `activity`,
which counts what waits for it. The others ask when the call is let in. What they
look up again inside their transaction they look up without asking, so a window
that takes the seat in between is acted through as well.
-/
import CrewSync.Recovery
import CrewSync.Worn

set_option autoImplicit false

namespace CrewSync.Labels

open Error Schema Rows Sessions
open Conversations Seats Send History Listing
open Routing Inbox Worn Runs Crew

/-! ## The system -/

/-- What can happen next. A number of commits ago says on which database a call looked. -/
inductive Act where
  | seats (a : Seats.Act)
  | send (c : Sequence.SendCall)
  | ack (seen now : ℕ) (auth : AuthCtx) (message_id : Uuid) (resolved : Bool) (note : Option String)
  | archive_conversation (seen now : ℕ) (auth : AuthCtx) (id : Uuid)
  | fetch (seen now : ℕ) (b : Backends) (answer : BusResult (List InboxRef)) (auth : AuthCtx)
      (limit : Option ℤ)
  | confirm (seen now : ℕ) (b : Backends) (auth : AuthCtx) (delivery_ids : List (Option Uuid))
  | read (admitted paged served : ℕ) (auth : AuthCtx) (id : Uuid) (after_seq limit : Option ℤ)
  | get_message (found admitted served : ℕ) (auth : AuthCtx) (message_id : Uuid)
  | receipts (found admitted served : ℕ) (auth : AuthCtx) (message_id : Uuid)
  | list_conversations (found : ℕ) (looks : Uuid → ℕ × ℕ) (auth : AuthCtx) (include_archived : Bool)
  | activity (auth : AuthCtx)

/-- Who asks. -/
def Act.caller : Act → Option AuthCtx
  | .seats (.create_conversation _ _ auth _ _ _ _) | .seats (.invite _ _ auth _ _ _ _ _)
  | .seats (.join _ _ auth _) | .seats (.leave _ _ auth _) | .seats (.remove_member _ _ auth _ _)
  | .seats (.transfer_membership _ _ auth _ _ _) | .ack _ _ auth _ _ _
  | .archive_conversation _ _ auth _ | .fetch _ _ _ _ auth _ | .confirm _ _ _ auth _
  | .read _ _ _ auth _ _ _ | .get_message _ _ _ auth _ | .receipts _ _ _ auth _
  | .list_conversations _ _ auth _ | .activity auth => some auth
  | .send c => some c.auth
  | .seats (.other _) => none

/-- The call only looks. -/
def Act.looks_only : Act → Bool
  | .read _ _ _ _ _ _ _ | .get_message _ _ _ _ _ | .receipts _ _ _ _ _ | .list_conversations _ _ _ _
  | .activity _ => true
  | _ => false

/-- What a call is answered. -/
inductive Reply where
  | done
  | named (ids : List Uuid)
  | sent (r : SentMessage)
  | batch (r : InboxBatch) (asked : List Call)
  | confirmed (r : Confirmed) (asked : List Call)
  | read (r : ConversationRead)
  | message (r : Served)
  | receipts (r : MessageReceipts)
  | listed (l : List ConversationInfo)
  | activity (l : List ConversationActivity)

/-- The database of `n` commits ago. -/
def look (s : Seats.Sys) (n : ℕ) : Db := (s.view n).getD s.db

section System

variable (sha256 : String → String) (fetched : Backend → Locator → Uuid → Fetched)

/-- What a call comes to: its answer, and the database it would commit. -/
def respond (s : Seats.Sys) : Act → Option (BusResult (Reply × Db))
  | .seats (.create_conversation seen now auth input id k seats) =>
    some ((create_conversation now (look s seen) auth input id k seats s.db).map fun q =>
      (.named [q.1], q.2))
  | .seats (.invite seen now auth id address role start k) =>
    some ((invite now (look s seen) auth id address role start k s.db).map fun q => (.done, q.2))
  | .seats (.join seen now auth id) =>
    some ((join now (look s seen) auth id s.db).map fun q => (.named [q.1], q.2))
  | .seats (.leave seen now auth id) =>
    some ((leave now (look s seen) auth id s.db).map fun q => (.named [q.1], q.2))
  | .seats (.remove_member seen now auth id address) =>
    some ((remove_member now (look s seen) auth id address s.db).map fun q => (.named [q.1], q.2))
  | .seats (.transfer_membership seen now auth id address k) =>
    some ((transfer_membership now (look s seen) auth id address k s.db).map fun q =>
      (.named [q.1.1, q.1.2], q.2))
  | .seats (.other _) => none
  | .send c =>
    some ((send sha256 c.now (look s c.seen) c.auth c.id c.input c.message_id c.publish_key s.db).map
      fun q => (.sent q.1, q.2))
  | .ack seen now auth message_id resolved note =>
    some ((Receipts.ack now (look s seen) auth message_id resolved note s.db).map fun q =>
      (.named [q.1], q.2))
  | .archive_conversation seen now auth id =>
    some ((Projects.archive_conversation now (look s seen) auth id s.db).map fun q => (.done, q.2))
  | .fetch seen now b answer auth limit =>
    some ((Inbox.fetch now (look s seen) b answer auth limit s.db).map fun q =>
      (.batch q.1 q.2.1, q.2.2))
  | .confirm seen now b auth ids =>
    some ((confirm now (look s seen) b auth ids s.db).map fun q => (.confirmed q.1 q.2.1, q.2.2))
  | .read admitted paged served auth id after_seq limit =>
    some ((History.read fetched (look s admitted) (look s paged) (look s served) auth id after_seq
      limit).map fun r => (.read r, s.db))
  | .get_message found admitted served auth message_id =>
    some ((get_message fetched (look s found) (look s admitted) (look s served) auth message_id).map
      fun r => (.message r, s.db))
  | .receipts found admitted served auth message_id =>
    some ((History.receipts (look s found) (look s admitted) (look s served) auth message_id).map
      fun r => (.receipts r, s.db))
  | .list_conversations found looks auth archived =>
    some ((list_conversations (look s found) (fun id => (look s (looks id).1, look s (looks id).2))
      auth archived).map fun r => (.listed r, s.db))
  | .activity auth => some (.ok (.activity (Listing.activity auth s.db), s.db))

/-- One step. -/
def step (s : Seats.Sys) : Act → Option Seats.Sys
  | .seats a => Seats.step s a
  | a => (respond sha256 fetched s a).map fun res =>
    if a.looks_only then s else s.commit res fun _ ps => ps

end System

/-! ## The law -/

/-- The answer, without the worn seats it may list among a thread's members. -/
def Reply.erase (auth : AuthCtx) : Reply → Reply
  | .listed l => .listed (l.map (erase_info auth))
  | r => r

/-- The system without the seats the caller wears the labels of. -/
def Sys.erase (auth : AuthCtx) (s : Seats.Sys) : Seats.Sys :=
  { s with db := Worn.erase auth s.db, past := s.past.map (Worn.erase auth) }

/-- What a call did to the seats it wears the label of: nothing, to them or to their
receipts; and it was answered, and wrote, what it would have without them. -/
structure Blind (sha256 : String → String) (fetched : Backend → Locator → Uuid → Fetched)
    (auth : AuthCtx) (e : Trans Seats.Sys Act) : Prop where
  seats : ∀ m ∈ e.pre.db.conversation_memberships, worn auth m = true →
    m ∈ e.post.db.conversation_memberships
  receipts : ∀ m ∈ e.pre.db.conversation_memberships, worn auth m = true →
    ∀ r ∈ e.pre.db.message_receipts, r.membership_id = m.id → r ∈ e.post.db.message_receipts
  answer : ∀ r db', respond sha256 fetched e.pre e.act = some (.ok (r, db')) →
    respond sha256 fetched (Sys.erase auth e.pre) e.act =
      some (.ok (r.erase auth, Worn.erase auth db'))

/-- No call with an agent token acts through a seat of its label that belongs to a
window. -/
def LabelLaw (sha256 : String → String) (fetched : Backend → Locator → Uuid → Fetched)
    (tr : List (Trans Seats.Sys Act)) : Prop :=
  ∀ e ∈ tr, ∀ auth, e.act.caller = some auth → auth.session_id = none →
    Blind sha256 fetched auth e

/-! ## The condition -/

/-- Some seat the caller wears the label of satisfies `p`. -/
def wears (auth : AuthCtx) (p : ConversationMembership → Bool) (db : Db) : Bool :=
  db.conversation_memberships.any fun m => worn auth m && p m

/-- The caller was let in, as someone of whom `p` holds. -/
def was_let_in (auth : AuthCtx) (id : Uuid) (p : Access → Bool) (db : Db) : Bool :=
  (readable auth id db).toOption.any p

/-- The seats a call looks up without asking whose they are hold none that it only
wears the label of. A call that is not let in looks nothing up. -/
def asks (s : Seats.Sys) : Act → Bool
  | .seats (.leave _ _ auth id) =>
    !wears auth (fun m => m.conversation_id == id && open_seat m) s.db
  | .seats (.invite seen _ auth id _ _ _ _) | .seats (.remove_member seen _ auth id _) =>
    !(was_let_in auth id Access.can_moderate (look s seen) &&
      wears auth (fun m => m.conversation_id == id && moderates m) s.db)
  | .seats (.transfer_membership seen _ auth id _ _) =>
    !(was_let_in auth id (fun a => a.seated .active) (look s seen) &&
      wears auth (fun m => m.conversation_id == id && m.state == .active) s.db)
  | .ack seen _ auth message_id _ _ =>
    (one (fun x => x.id == message_id) (look s seen).conversation_messages).all fun x =>
      !(was_let_in auth x.conversation_id (fun a => a.seated .active) (look s seen) &&
        wears auth (fun m => m.conversation_id == x.conversation_id && m.state == .active) s.db)
  | .fetch seen _ _ _ auth _ =>
    !((require_window auth (look s seen)).isOk && wears auth (fun m => m.state == .active) s.db)
  | .confirm seen _ _ auth ids =>
    !((require_window auth (look s seen)).isOk && s.db.inbox_deliveries.any fun d =>
      confirmable auth (ids.filterMap fun i => i) d &&
        wears auth (fun m => d.membership_id == some m.id) s.db)
  | .activity auth => s.db.conversations.all fun c =>
      !wears auth (fun m => watches auth s.db c m && 0 < unacknowledged m s.db) s.db
  | _ => true

/-- A call with an agent token meets what `asks` says. -/
def heeds_windows (s : Seats.Sys) (a : Act) : Bool :=
  a.caller.all fun auth => auth.session_id.isSome || asks s a

/-! ## The invariant -/

/-- An offer belongs to no window. -/
def Loose (t : List ConversationMembership) : Prop :=
  ∀ m ∈ t, m.state = .invited → m.session_id = none

/-- What holds in every reachable state. -/
structure Good (s : Seats.Sys) : Prop where
  seats : Seats.Inv s
  past : ∀ v ∈ s.past, Tidy v.conversation_memberships
  loose : Loose s.db.conversation_memberships

section Offers

variable {t : List ConversationMembership} {p : ConversationMembership → Bool}
  {f : ConversationMembership → ConversationMembership} {r : ConversationMembership} {auth : AuthCtx} {id : Uuid}

theorem loose_update (h : Loose t) (hf : ∀ m, (m.state = .invited → m.session_id = none) →
      (f m).state = .invited → (f m).session_id = none) : Loose (update p f t) :=
  forall_update h fun m _ _ hm => hf m hm

theorem loose_insert_into (h : Loose t) (hr : r.state = .invited → r.session_id = none) :
    Loose (insert_into r t) :=
  forall_insert_into h hr

theorem loose_upsert (h : Loose t) (hf : ∀ m, (m.state = .invited → m.session_id = none) →
      (f m).state = .invited → (f m).session_id = none)
    (hr : r.state = .invited → r.session_id = none) : Loose (upsert p f r t) := by
  unfold upsert
  split
  · exact loose_update h hf
  · exact loose_insert_into h hr

theorem reinvited_loose (role : Role) (fl : Option ℕ) (by_ : Uuid) (m : ConversationMembership)
    (hm : m.state = .invited → m.session_id = none) (h : (reinvited role fl by_ m).state = .invited) :
    (reinvited role fl by_ m).session_id = none := by
  unfold reinvited at h ⊢
  by_cases hended : ended m = true
  · simp only [hended, if_true]
  · simp only [hended] at h ⊢
    exact hm h

theorem seat_invitees_loose {l : List ((Uuid × String) × Uuid)} :
    ∀ {t : List ConversationMembership}, Loose t → Loose (l.foldl (seat_invitee auth id) t) := by
  induction l with
  | nil => exact fun h => h
  | cons x l ih =>
    intro t h
    rw [List.foldl_cons]
    refine ih ?_
    unfold seat_invitee
    simp only
    split
    · exact h
    · exact loose_insert_into h fun _ => rfl

theorem create_conversation_loose {now : ℕ} {v db db' : Db} {input : CreateInput}
    {k u : Uuid} {seats : List Uuid} (h : create_conversation now v auth input id k seats db = .ok (u, db'))
    (hl : Loose db.conversation_memberships) : Loose db'.conversation_memberships := by
  simp only [create_conversation, bind_eq_ok, ensure_eq_ok, fetch_eq_ok, pure_eq_ok,
    Prod.mk.injEq] at h
  obtain ⟨_, -, _, -, _, -, invites, -, _, -, _, -, _, -, team, -, _, -, _, -, _, -, -, rfl⟩ := h
  exact seat_invitees_loose (loose_insert_into hl fun hst => absurd hst (by simp [owners_seat]))

end Offers

theorem did_loose {s t : Seats.Sys} {a : Seats.Act} (h : Did s a t)
    (hl : Loose s.db.conversation_memberships) : Loose t.db.conversation_memberships := by
  cases h with
  | refused => exact hl
  | create_conversation hok => exact create_conversation_loose hok hl
  | invite _ hok =>
    obtain ⟨r, agent_id, session, c, inviter, -, -, -, -, -, rfl⟩ := invite_ok hok
    exact loose_upsert hl (reinvited_loose _ _ _) fun _ => rfl
  | join hok =>
    rw [Sys.after, (join_table hok).1]
    refine loose_update (loose_update (loose_update hl ?_) ?_) fun m hm => hm
    · exact fun m _ hst => absurd hst (by simp [accepted])
    · exact fun m _ hst => absurd hst (by simp [superseded])
  | leave hok =>
    rw [leave_ok hok]
    exact loose_update hl fun m _ hst => absurd hst (by simp [put_out])
  | remove_member _ hok =>
    obtain ⟨agent_id, session, m, -, -, -, -, rfl⟩ := remove_member_ok hok
    exact loose_update hl fun m _ hst => absurd hst (by simp [put_out])
  | transfer_membership _ hok =>
    obtain ⟨a, mine, m, session, -, -, -, -, -, -, -, -, -, rfl⟩ := transfer_membership_ok hok
    exact loose_update (loose_upsert hl (fun m _ _ => rfl) fun _ => rfl) fun m hm => hm
  | other hsame =>
    simp only [leaves_seats, Bool.and_eq_true, beq_iff_eq] at hsame
    rw [Sys.after, hsame.1.1]
    exact hl

section Invariant

variable {sha256 : String → String} {fetched : Backend → Locator → Uuid → Fetched}
  {s t : Seats.Sys} {auth : AuthCtx} {r : Reply} {db' : Db} {a : Act} {n id k : Uuid} {v db : Db}
  {p : ConversationMembership → Bool} {m : ConversationMembership} {acc : Access} {b : Seats.Act} {now seen : ℕ}
  {address : String} {q : Uuid × Uuid}

/-- What `respond` says of an operation that succeeded. -/
theorem respond_ok {α : Type} {x : BusResult α} {f : α → Reply × Db}
    (h : some (x.map f) = some (.ok (r, db'))) : ∃ a, x = .ok a ∧ (f a).1 = r ∧ (f a).2 = db' := by
  obtain ⟨a, ha, hf⟩ := map_eq_ok.mp (Option.some.inj h)
  exact ⟨a, ha, congrArg Prod.fst hf, congrArg Prod.snd hf⟩

/-- Seats change hands by the operations on seats, and by no other. -/
theorem respond_seats (ha : ∀ b, a ≠ .seats b) (h : respond sha256 fetched s a = some (.ok (r, db'))) :
    db'.conversation_memberships = s.db.conversation_memberships := by
  cases a with
  | seats b => exact absurd rfl (ha b)
  | send c =>
    obtain ⟨q, hq, -, heq⟩ := respond_ok h
    rw [← heq]
    exact Recovery.send_seats hq
  | ack seen now auth message_id resolved note =>
    obtain ⟨q, hq, -, heq⟩ := respond_ok h
    obtain ⟨m, a, mine, text, events, -, -, -, -, -, -, -, -, hdb⟩ := Receipts.ack_ok hq
    rw [← heq, hdb]
  | archive_conversation seen now auth id =>
    obtain ⟨q, hq, -, heq⟩ := respond_ok h
    rw [← heq, (Projects.archive_conversation_ok hq).2]
  | fetch seen now b answer auth limit =>
    obtain ⟨q, hq, -, heq⟩ := respond_ok h
    rw [← heq]
    exact (fetch_delivers hq).seats
  | confirm seen now b auth ids =>
    obtain ⟨q, hq, -, heq⟩ := respond_ok h
    rw [← heq]
    simp only [confirm, bind_eq_ok, pure_eq_ok] at hq
    obtain ⟨_, -, _, -, _, -, l, -, _, -, rfl⟩ := hq
    rfl
  | read | get_message | receipts | list_conversations =>
    obtain ⟨q, -, -, heq⟩ := respond_ok h
    rw [← heq]
  | activity auth =>
    rw [← (Prod.mk.inj (Except.ok.inj (Option.some.inj h))).2]

/-- A step that is no change of seats: nothing, or the commit of what was responded. -/
theorem step_other (ha : ∀ b, a ≠ .seats b) (h : step sha256 fetched s a = some t) :
    t = s ∨ a.looks_only = false ∧ ∃ r db', respond sha256 fetched s a = some (.ok (r, db')) ∧
      t = s.after db' s.proposals := by
  have hmap : (respond sha256 fetched s a).map (fun res =>
      if a.looks_only then s else s.commit res fun _ ps => ps) = some t := by
    cases a with
    | seats b => exact absurd rfl (ha b)
    | _ => exact h
  obtain ⟨res, hres, ht⟩ := Option.map_eq_some_iff.mp hmap
  cases hlooks : a.looks_only with
  | true =>
    rw [hlooks] at ht
    exact Or.inl ht.symm
  | false =>
    rw [hlooks] at ht
    cases res with
    | error e => exact Or.inl ht.symm
    | ok q => exact Or.inr ⟨rfl, q.1, q.2, hres, ht.symm⟩

theorem Good.step (hs : Good s) (h : step sha256 fetched s a = some t) : Good t := by
  by_cases ha : ∃ b, a = .seats b
  · obtain ⟨b, rfl⟩ := ha
    have hdid := step_did h
    refine ⟨hs.seats.step h, ?_, did_loose hdid hs.loose⟩
    rcases hdid.past with rfl | hpast
    · exact hs.past
    · rw [hpast]
      intro v hv
      rcases List.mem_cons.mp hv with rfl | hv
      · exact hs.seats.tidy
      · exact hs.past v hv
  · have ha : ∀ b, a ≠ .seats b := fun b hb => ha ⟨b, hb⟩
    rcases step_other ha h with rfl | ⟨-, r, db', hres, rfl⟩
    · exact hs
    · have hsame := respond_seats ha hres
      refine ⟨⟨?_, ?_⟩, ?_, ?_⟩
      · show Tidy db'.conversation_memberships
        rw [hsame]
        exact hs.seats.tidy
      · intro v hv
        show Kept v.conversation_memberships db'.conversation_memberships
        rw [hsame]
        rcases List.mem_cons.mp hv with rfl | hv
        · exact Kept.refl _
        · exact hs.seats.past v hv
      · intro v hv
        rcases List.mem_cons.mp hv with rfl | hv
        · exact hs.seats.tidy
        · exact hs.past v hv
      · show Loose db'.conversation_memberships
        rw [hsame]
        exact hs.loose

/-! ## What is answered -/

theorem look_view (s : Seats.Sys) (n : ℕ) : ∃ k, s.view k = some (look s n) := by
  unfold look
  cases hv : s.view n with
  | none => exact ⟨0, rfl⟩
  | some v => exact ⟨n, hv⟩

theorem look_of_view {n : ℕ} (h : s.view n = some v) : look s n = v := by
  unfold look
  rw [h]
  rfl

theorem look_erase (s : Seats.Sys) (n : ℕ) :
    look (Sys.erase auth s) n = Worn.erase auth (look s n) := by
  have hview : (Sys.erase auth s).view n = (s.view n).map (Worn.erase auth) := by
    show (Worn.erase auth s.db :: s.past.map (Worn.erase auth))[n]? = _
    rw [← List.map_cons, List.getElem?_map]
    rfl
  unfold look
  rw [hview]
  cases s.view n <;> rfl

@[simp] theorem erase_db (s : Seats.Sys) : (Sys.erase auth s).db = Worn.erase auth s.db := rfl

theorem not_wears (h : (!wears auth p db) = true) (hm : m ∈ db.conversation_memberships) (hp : p m = true) :
    worn auth m = false := by
  by_contra hw
  have hany : wears auth p db = true :=
    List.any_eq_true.mpr ⟨m, hm, by rw [hp, Bool.and_true]; simpa using hw⟩
  rw [hany] at h
  cases h

theorem Good.tidy_look (hs : Good s) (n : ℕ) : Tidy (look s n).conversation_memberships := by
  obtain ⟨k, hk⟩ := look_view s n
  rcases List.mem_cons.mp (List.mem_of_getElem? hk) with heq | hin
  · rw [heq]
    exact hs.seats.tidy
  · exact hs.past _ hin

/-- The seat a caller was let in by is at the caller's address still. -/
theorem let_in_home (hs : Good s) {n : ℕ} {mine : Conversations.Membership}
    (hacc : readable auth id (look s n) = .ok acc) (hmine : acc.membership = some mine)
    (hm : m ∈ s.db.conversation_memberships) (hid : m.id = mine.id) :
    home m = (id, auth.agent_id, auth.session) := by
  obtain ⟨k, hk⟩ := look_view s n
  exact source_home hs.seats hk hacc hmine hm hid

theorem let_in {p : Access → Bool}
    (h : readable auth id db = .ok acc) (hp : p acc = true) : was_let_in auth id p db = true := by
  unfold was_let_in
  rw [h]
  exact hp

/-- Once the call is let in, no seat it looks up is worn. -/
theorem of_let_in {b c : Bool} (hC : (!(b && c)) = true) (hb : b = true) : (!c) = true := by
  rw [hb, Bool.true_and] at hC
  exact hC

/-- Whoever invites was let in as a moderator, and moderates the thread still. -/
theorem invite_moderates {role : Option String} {start : Bool} {u : Unit}
    (h : invite now v auth id address role start k s.db = .ok (u, db')) :
    was_let_in auth id Access.can_moderate v = true ∧
      ∃ m, seat_at id auth.agent_id auth.session s.db = some m ∧ moderates m = true := by
  simp only [invite, bind_eq_ok, ensure_eq_ok, fetch_eq_ok, pure_eq_ok, Prod.mk.injEq] at h
  obtain ⟨_, -, _, hacc, _, hmod, _, -, _, -, _, -, _, -, _, -, _, -, inviter, hinv, -⟩ := h
  exact ⟨let_in hacc hmod, inviter, Option.filter_eq_some_iff.mp hinv⟩

/-- Nobody removes themselves. -/
theorem remove_member_other {agent_id : Uuid} {session : String}
    (h : remove_member now v auth id address s.db = .ok (n, db'))
    (haddr : resolve_address auth address v = .ok (agent_id, session)) :
    ¬(agent_id = auth.agent_id ∧ session = auth.session) := by
  simp only [remove_member, bind_eq_ok, ensure_eq_ok, fetch_eq_ok, pure_eq_ok, Prod.mk.injEq] at h
  obtain ⟨_, -, _, -, _, -, q, hq, _, hother, -⟩ := h
  obtain rfl := Except.ok.inj (haddr.symm.trans hq)
  rintro ⟨ha, hse⟩
  rw [ha, hse] at hother
  simp at hother

/-- Whoever removes someone was let in as a moderator too. -/
theorem remove_member_let_in (h : remove_member now v auth id address s.db = .ok (n, db')) :
    was_let_in auth id Access.can_moderate v = true := by
  simp only [remove_member, bind_eq_ok, ensure_eq_ok, fetch_eq_ok, pure_eq_ok, Prod.mk.injEq] at h
  obtain ⟨_, -, _, hacc, _, hmod, -⟩ := h
  exact let_in hacc hmod

theorem transfer_let_in (h : transfer_membership now v auth id address k s.db = .ok (q, db')) :
    was_let_in auth id (fun a => a.seated .active) v = true := by
  simp only [transfer_membership, bind_eq_ok, ensure_eq_ok, fetch_eq_ok] at h
  obtain ⟨_, -, _, hacc, mine, hmine, -⟩ := h
  obtain ⟨hmem, hst⟩ := Option.filter_eq_some_iff.mp hmine
  exact let_in hacc (by rw [Access.seated, hmem]; exact hst)

theorem transfer_source (hs : Good s) (hC : asks s (.seats (.transfer_membership seen now auth id address k)) = true)
    (h : transfer_membership now (look s seen) auth id address k s.db = .ok (q, db')) :
    ∀ m ∈ s.db.conversation_memberships, m.id = q.2 →
      home m = (id, auth.agent_id, auth.session) ∧ (m.state = .active → worn auth m = false) := by
  intro m hm hid
  have hfree := of_let_in hC (transfer_let_in h)
  obtain ⟨a, mine, x, session, ha, hmine, -, -, -, -, -, -, rfl, -⟩ := transfer_membership_ok h
  have hhome := let_in_home hs ha hmine hm hid
  refine ⟨hhome, fun hst => not_wears hfree hm ?_⟩
  have hthread := (Prod.mk.inj hhome).1
  simp [hthread, hst]

theorem ack_source (hs : Good s) {message_id : Uuid} {resolved : Bool} {note : Option String}
    (hC : asks s (.ack seen now auth message_id resolved note) = true)
    (h : Receipts.ack now (look s seen) auth message_id resolved note s.db = .ok (k, db')) :
    ∀ m ∈ s.db.conversation_memberships, m.id = k → m.state = .active → worn auth m = false := by
  intro m hm hid hst
  obtain ⟨x, a, mine, text, events, hx, ha, hmine, hactive, rfl, -, -, -, -⟩ := Receipts.ack_ok h
  have hhome := let_in_home hs ha hmine hm hid
  simp only [asks, hx, Option.all_some] at hC
  refine not_wears (of_let_in hC (let_in ha ?_)) hm ?_
  · simp [Access.seated, hmine, hactive]
  have hthread := (Prod.mk.inj hhome).1
  simp [hthread, hst]

theorem fetch_let_in {b : Backends} {answer : BusResult (List InboxRef)}
    {limit : Option ℤ} {q : InboxBatch × List Call × Db}
    (h : Inbox.fetch now v b answer auth limit s.db = .ok q) : (require_window auth v).isOk = true := by
  simp only [Inbox.fetch, bind_eq_ok] at h
  obtain ⟨_, -, _, hwindow, -⟩ := h
  rw [hwindow]
  rfl

/-- The seat a moderator acts from is not worn, once the call is let in. -/
theorem moderator_free (hC : (!(was_let_in auth id Access.can_moderate (look s seen) &&
      wears auth (fun m => m.conversation_id == id && moderates m) s.db)) = true)
    (hlet : was_let_in auth id Access.can_moderate (look s seen) = true) :
    ∀ m ∈ s.db.conversation_memberships, at_address id auth.agent_id auth.session m = true →
      moderates m = true → worn auth m = false := by
  intro m hm hat hmod
  refine not_wears (of_let_in hC hlet) hm ?_
  have hthread := (Prod.mk.inj (at_address_iff.mp hat)).1
  simp [hthread, hmod]

/-- The seat that is left is not worn. -/
theorem leave_free (hC : (!wears auth (fun m => m.conversation_id == id && open_seat m) s.db) = true) :
    ∀ m ∈ s.db.conversation_memberships, is_open_at id auth.agent_id auth.session m = true →
      worn auth m = false := by
  intro m hm hopen
  refine not_wears hC hm ?_
  simp only [is_open_at, Bool.and_eq_true] at hopen
  have hthread := (Prod.mk.inj (at_address_iff.mp hopen.1)).1
  simp [hthread, hopen.2]

theorem answer_erase (hs : Good s) (hauth : auth.session_id = none)
    (hcaller : a.caller = some auth) (hC : asks s a = true) (h : respond sha256 fetched s a = some (.ok (r, db'))) :
    respond sha256 fetched (Sys.erase auth s) a = some (.ok (r.erase auth, Worn.erase auth db')) := by
  cases a with
  | seats b =>
    cases b with
    | create_conversation seen now au input id k seats =>
      obtain rfl := Option.some.inj hcaller
      obtain ⟨q, hq, rfl, rfl⟩ := respond_ok h
      simp only [respond, look_erase, erase_db, create_conversation_erase hauth hq]
      rfl
    | invite seen now au id address role start k =>
      obtain rfl := Option.some.inj hcaller
      obtain ⟨q, hq, rfl, rfl⟩ := respond_ok h
      have hseat := moderator_free hC (invite_moderates hq).1
      simp only [respond, look_erase, erase_db, invite_erase hauth hs.seats.tidy hq hseat]
      rfl
    | join seen now au id =>
      obtain rfl := Option.some.inj hcaller
      obtain ⟨q, hq, rfl, rfl⟩ := respond_ok h
      simp only [respond, look_erase, erase_db, join_erase hauth hs.seats.tidy hq hs.loose]
      rfl
    | leave seen now au id =>
      obtain rfl := Option.some.inj hcaller
      obtain ⟨q, hq, rfl, rfl⟩ := respond_ok h
      have hseat := leave_free hC
      simp only [respond, look_erase, erase_db, leave_erase hq hseat]
      rfl
    | remove_member seen now au id address =>
      obtain rfl := Option.some.inj hcaller
      obtain ⟨q, hq, rfl, rfl⟩ := respond_ok h
      have hseat := moderator_free hC (remove_member_let_in hq)
      simp only [respond, look_erase, erase_db, remove_member_erase hauth hs.seats.tidy hq hseat]
      rfl
    | transfer_membership seen now au id address k =>
      obtain rfl := Option.some.inj hcaller
      obtain ⟨q, hq, rfl, rfl⟩ := respond_ok h
      simp only [respond, look_erase, erase_db, transfer_membership_erase hauth hs.seats.tidy hq
        (transfer_source hs hC hq)]
      rfl
    | other db' => exact absurd h (by simp [respond])
  | send c =>
    obtain rfl := Option.some.inj hcaller
    obtain ⟨q, hq, rfl, rfl⟩ := respond_ok h
    simp only [respond, look_erase, erase_db, send_erase hauth hq]
    rfl
  | ack seen now au message_id resolved note =>
    obtain rfl := Option.some.inj hcaller
    obtain ⟨q, hq, rfl, rfl⟩ := respond_ok h
    simp only [respond, look_erase, erase_db, ack_erase hauth hq (ack_source hs hC hq)]
    rfl
  | archive_conversation seen now au id =>
    obtain rfl := Option.some.inj hcaller
    obtain ⟨q, hq, rfl, rfl⟩ := respond_ok h
    simp only [respond, look_erase, erase_db, archive_conversation_erase hauth hq]
    rfl
  | fetch seen now b answer au limit =>
    obtain rfl := Option.some.inj hcaller
    obtain ⟨q, hq, rfl, rfl⟩ := respond_ok h
    have hfree : untaken au s.db := fun m hm hst =>
      not_wears (of_let_in hC (fetch_let_in hq)) hm (by simp [hst])
    simp only [respond, look_erase, erase_db, fetch_erase hs.seats.tidy hfree hq]
    rfl
  | confirm seen now b au ids =>
    obtain rfl := Option.some.inj hcaller
    obtain ⟨q, hq, rfl, rfl⟩ := respond_ok h
    simp only [respond, look_erase, erase_db, confirm_erase hq]
    rfl
  | read admitted paged served au id after_seq limit =>
    obtain rfl := Option.some.inj hcaller
    obtain ⟨q, hq, rfl, rfl⟩ := respond_ok h
    simp only [respond, look_erase, erase_db, Worn.read_erase hauth, hq]
    rfl
  | get_message found admitted served au message_id =>
    obtain rfl := Option.some.inj hcaller
    obtain ⟨q, hq, rfl, rfl⟩ := respond_ok h
    simp only [respond, look_erase, erase_db, get_message_erase hauth, hq]
    rfl
  | receipts found admitted served au message_id =>
    obtain rfl := Option.some.inj hcaller
    obtain ⟨q, hq, rfl, rfl⟩ := respond_ok h
    simp only [respond, look_erase, erase_db, receipts_erase hauth, hq]
    rfl
  | list_conversations found looks au archived =>
    obtain rfl := Option.some.inj hcaller
    obtain ⟨q, hq, rfl, rfl⟩ := respond_ok h
    have herase : list_conversations (Worn.erase au (look s found))
        (fun id => (Worn.erase au (look s (looks id).1), Worn.erase au (look s (looks id).2))) au
          archived =
        (list_conversations (look s found) (fun id => (look s (looks id).1, look s (looks id).2)) au
          archived).map (List.map (erase_info au)) :=
      @list_conversations_erase au hauth (look s found)
        (fun id => (look s (looks id).1, look s (looks id).2)) archived
        fun id => (hs.tidy_look (looks id).2).ids
    simp only [respond, look_erase, erase_db]
    rw [herase, hq]
    rfl
  | activity au =>
    obtain rfl := Option.some.inj hcaller
    obtain ⟨rfl, rfl⟩ := Prod.mk.inj (Except.ok.inj (Option.some.inj h))
    simp only [respond, erase_db]
    rw [activity_erase]
    · rfl
    · intro c hc m hm hw hwatch
      have hrow := List.all_eq_true.mp hC c hc
      by_contra hwaits
      have hnot := not_wears hrow hm (by simp [hwatch, Nat.pos_of_ne_zero hwaits])
      rw [hw] at hnot
      cases hnot

/-! ## What is written -/

omit sha256 fetched in
/-- A row an offer is not about stays. -/
theorem mem_upsert_of_not {t : List ConversationMembership}
    {f : ConversationMembership → ConversationMembership} {x : ConversationMembership}
    (hm : m ∈ t) (hp : p m = false) : m ∈ upsert p f x t := by
  unfold upsert
  split
  · exact mem_update_of_not hm hp
  · exact mem_insert_into.mpr (Or.inl hm)

/-- A join closes no seat at the caller's own address but the one it takes. -/
theorem join_keeps (hs : Good s) (hok : join now v auth id s.db = .ok (n, db'))
    (hm : m ∈ s.db.conversation_memberships) (hw : worn auth m = true) :
    m ∈ db'.conversation_memberships := by
  obtain ⟨x, hx, rfl, -⟩ := join_ok hok
  have hxin := mem_of_one hx
  have hinv := pos_of_one hx
  simp only [is_invitation, Bool.and_eq_true, beq_iff_eq] at hinv
  have hxhome := at_address_iff.mp hinv.1
  obtain ⟨ha, hsess, hbound⟩ := worn_iff.mp hw
  -- what a window took is no invitation, so the seat that is taken is another one
  have hnot : is_invitation auth id m = false := by
    by_contra hcon
    simp only [Bool.not_eq_false, is_invitation, Bool.and_eq_true, beq_iff_eq] at hcon
    rw [hs.loose m hm hcon.2] at hbound
    cases hbound
  have hne : m.id ≠ x.id := by
    intro hid
    rw [hs.seats.tidy.ids.eq hm hxin hid, pos_of_one hx] at hnot
    cases hnot
  have helse : is_predecessor auth id x.id (taken now auth id s.db.conversation_memberships) m =
      false := by
    by_contra hcon
    simp only [Bool.not_eq_false, is_predecessor, Bool.and_eq_true, beq_iff_eq] at hcon
    obtain ⟨⟨⟨⟨⟨-, hthread⟩, -⟩, -⟩, -⟩, -⟩ := hcon
    refine hne (congrArg _ (hs.seats.tidy.homes.eq hm hxin ?_))
    rw [hxhome, home, hthread, ha, hsess]
  rw [(join_table hok).1]
  exact mem_update_of_not (mem_update_of_not (mem_update_of_not hm hnot) helse) (by simpa using hne)

/-- No change of seats the caller asks for is one of the seats it wears the label of. -/
theorem seats_kept (hs : Good s)
    (hcaller : (Act.seats b).caller = some auth) (hC : asks s (.seats b) = true) (h : Did s b t) :
    ∀ m ∈ s.db.conversation_memberships, worn auth m = true → m ∈ t.db.conversation_memberships := by
  intro m hm hw
  -- a rewriting that takes no worn seat passes `m` by
  have hworn : ∀ {p : ConversationMembership → Bool},
      (p m = true → worn auth m = false) → p m = false := by
    intro p hp
    by_contra hpm
    rw [hp (by simpa using hpm)] at hw
    cases hw
  cases h with
  | refused => exact hm
  | create_conversation hok => exact (create_conversation_ok hok).1.old m hm
  | @invite _ _ au id _ _ _ _ _ _ _ hview hok =>
    obtain rfl := Option.some.inj hcaller
    rw [← look_of_view hview] at hok
    obtain ⟨hin, x, hx, hmod⟩ := invite_moderates hok
    obtain ⟨r, agent_id, session, c, inviter, -, -, -, -, -, rfl⟩ := invite_ok hok
    have hxw : worn au x = false := by
      refine not_wears (of_let_in hC hin) (mem_of_one hx) ?_
      have hthread := (Prod.mk.inj (at_address_iff.mp (pos_of_one hx))).1
      simp [hthread, hmod]
    exact mem_upsert_of_not hm
      (hworn fun hat => bare_at (bare_of_seat hs.seats.tidy hx hxw) hm hat)
  | join hok =>
    obtain rfl := Option.some.inj hcaller
    exact join_keeps hs hok hm hw
  | leave hok =>
    obtain rfl := Option.some.inj hcaller
    rw [leave_ok hok]
    refine mem_update_of_not hm (hworn fun hopen => not_wears hC hm ?_)
    simp only [is_open_at, Bool.and_eq_true] at hopen
    have hthread := (Prod.mk.inj (at_address_iff.mp hopen.1)).1
    simp [hthread, hopen.2]
  | remove_member _ hok =>
    obtain rfl := Option.some.inj hcaller
    obtain ⟨agent_id, session, x, haddr, -, -, -, rfl⟩ := remove_member_ok hok
    refine mem_update_of_not hm (hworn fun hopen => ?_)
    simp only [is_open_at, Bool.and_eq_true] at hopen
    exact worn_elsewhere hopen.1 (remove_member_other hok haddr)
  | @transfer_membership _ _ au id _ _ _ _ _ hview hok =>
    obtain rfl := Option.some.inj hcaller
    rw [← look_of_view hview] at hok
    have hsource := transfer_source hs hC hok
    obtain ⟨a, mine, x, session, -, -, -, hother, hx, hactive, -, -, rfl, rfl⟩ :=
      transfer_membership_ok hok
    have helse : at_address id au.agent_id session m = false :=
      hworn fun hat => worn_elsewhere hat fun hh => hother hh.2
    have hnot : (m.id == mine.id) = false := by
      refine hworn (p := fun m => m.id == mine.id) fun hid => ?_
      rw [beq_iff_eq] at hid
      have hxid : x.id = mine.id := by simpa using pos_of_one hx
      have hmx := hs.seats.tidy.ids.eq hm (mem_of_one hx) (hid.trans hxid.symm)
      exact (hsource m hm hid).2 (by rw [hmx]; exact hactive)
    exact mem_update_of_not (mem_upsert_of_not hm helse) hnot
  | other hsame => exact absurd hcaller (by simp [Act.caller])

/-- A change of seats writes no receipt. -/
theorem seats_receipts (hcaller : (Act.seats b).caller = some auth) (h : Did s b t) :
    t.db.message_receipts = s.db.message_receipts := by
  cases h with
  | refused => rfl
  | create_conversation hok =>
    simp only [create_conversation, bind_eq_ok, ensure_eq_ok, fetch_eq_ok, pure_eq_ok,
      Prod.mk.injEq] at hok
    obtain ⟨_, -, _, -, _, -, invites, -, _, -, _, -, _, -, team, -, _, -, _, -, _, -, -, rfl⟩ := hok
    rfl
  | invite _ hok =>
    obtain ⟨r, agent_id, session, c, inviter, -, -, -, -, -, rfl⟩ := invite_ok hok
    rfl
  | join hok =>
    obtain ⟨x, -, -, rfl⟩ := join_ok hok
    rfl
  | leave hok => rw [leave_ok hok]; rfl
  | remove_member _ hok =>
    obtain ⟨agent_id, session, x, -, -, -, -, rfl⟩ := remove_member_ok hok
    rfl
  | transfer_membership _ hok =>
    obtain ⟨a, mine, x, session, -, -, -, -, -, -, -, -, -, rfl⟩ := transfer_membership_ok hok
    rfl
  | other hsame => exact absurd hcaller (by simp [Act.caller])

/-- The ids that could all be read are the ids that were named. -/
theorem mapM_fetch {ids : List (Option Uuid)} {e : BusError} :
    ∀ {l : List Uuid}, ids.mapM (fun i => Error.fetch i e) = .ok l →
      l = ids.filterMap fun i => i := by
  induction ids with
  | nil =>
    intro l h
    simp only [List.mapM_nil, pure_eq_ok] at h
    exact h.symm
  | cons i ids ih =>
    intro l h
    simp only [List.mapM_cons, bind_eq_ok, fetch_eq_ok, pure_eq_ok] at h
    obtain ⟨k, rfl, rest, hrest, rfl⟩ := h
    rw [ih hrest]
    rfl

/-- No receipt of a seat the caller wears the label of is written. -/
theorem receipts_kept (hs : Good s) (ha : ∀ b, a ≠ .seats b) (hcaller : a.caller = some auth) (hC : asks s a = true)
    (h : respond sha256 fetched s a = some (.ok (r, db'))) :
    ∀ m ∈ s.db.conversation_memberships, worn auth m = true →
      ∀ x ∈ s.db.message_receipts, x.membership_id = m.id → x ∈ db'.message_receipts := by
  intro m hm hw x hx hxm
  cases a with
  | seats b => exact absurd rfl (ha b)
  | send c =>
    obtain ⟨q, hq, -, heq⟩ := respond_ok h
    rw [← heq]
    -- a send adds receipts; whatever follows it writes none
    have hmore : ∀ (c' : Conversation) (body : String), x ∈ (with_message sha256 c.now c.auth c' c.input
        body c.message_id s.db).message_receipts :=
      fun c' body => List.mem_append_left _ hx
    rcases send_ok hq with hsame | ⟨c', body, -, -, -, -, ⟨-, hdb⟩ | ⟨-, hqueued⟩⟩
    · rw [hsame]
      exact hx
    · rw [hdb]
      exact hmore c' body
    · rw [enqueue_ok hqueued]
      exact hmore c' body
  | ack seen now au message_id resolved note =>
    obtain rfl := Option.some.inj hcaller
    obtain ⟨q, hq, -, heq⟩ := respond_ok h
    have hsource := ack_source hs hC hq
    obtain ⟨y, a, mine, text, events, -, -, -, -, hk, -, -, -, hdb⟩ := Receipts.ack_ok hq
    rw [← heq, hdb]
    refine mem_update_of_not hx ?_
    by_contra hasked
    simp only [Bool.not_eq_false, Receipts.is_asked, Bool.and_eq_true, List.any_eq_true,
      beq_iff_eq] at hasked
    obtain ⟨⟨-, hmine⟩, n, hn, hnid, hnst⟩ := hasked
    have hnm := hs.seats.tidy.ids.eq hn hm (hnid.trans hxm)
    rw [hsource m hm (by rw [hk, ← hmine, hxm]) (by rw [← hnm]; exact hnst)] at hw
    cases hw
  | archive_conversation seen now au id =>
    obtain ⟨q, hq, -, heq⟩ := respond_ok h
    rw [← heq, (Projects.archive_conversation_ok hq).2]
    exact hx
  | fetch seen now b answer au limit =>
    obtain ⟨q, hq, -, heq⟩ := respond_ok h
    rw [← heq, (fetch_delivers hq).receipts]
    exact hx
  | confirm seen now b au ids =>
    obtain rfl := Option.some.inj hcaller
    obtain ⟨q, hq, -, heq⟩ := respond_ok h
    rw [← heq]
    simp only [confirm, bind_eq_ok, pure_eq_ok] at hq
    obtain ⟨_, -, _, hwindow, _, -, l, hl, _, -, rfl⟩ := hq
    obtain rfl := mapM_fetch hl
    refine mem_update_of_not hx ?_
    by_contra hcon
    simp only [Bool.not_eq_false, List.any_eq_true, List.mem_filter, Bool.and_eq_true,
      beq_iff_eq] at hcon
    obtain ⟨d, ⟨hd, hconf⟩, hseat, -⟩ := hcon
    have hnone := of_let_in hC (by rw [hwindow]; rfl)
    rw [Bool.not_eq_true', List.any_eq_false] at hnone
    have hfree : (!wears au (fun m => d.membership_id == some m.id) s.db) = true := by
      simpa [hconf] using hnone d hd
    rw [not_wears hfree hm (by simp [hseat, hxm])] at hw
    cases hw
  | read | get_message | receipts | list_conversations =>
    obtain ⟨q, -, -, heq⟩ := respond_ok h
    rw [← heq]
    exact hx
  | activity au =>
    rw [← (Prod.mk.inj (Except.ok.inj (Option.some.inj h))).2]
    exact hx

/-- One call that asks is blind to the seats it wears the labels of. -/
theorem step_blind (hs : Good s) (h : step sha256 fetched s a = some t)
    (hcaller : a.caller = some auth) (hauth : auth.session_id = none) (hC : asks s a = true) :
    Blind sha256 fetched auth ⟨s, a, t⟩ := by
  have hanswer : ∀ r db', respond sha256 fetched s a = some (.ok (r, db')) →
      respond sha256 fetched (Sys.erase auth s) a =
        some (.ok (r.erase auth, Worn.erase auth db')) :=
    fun r db' hres => answer_erase hs hauth hcaller hC hres
  by_cases ha : ∃ b, a = .seats b
  · obtain ⟨b, rfl⟩ := ha
    have hdid := step_did h
    refine ⟨seats_kept hs hcaller hC hdid, fun m hm hw x hx hxm => ?_, hanswer⟩
    show x ∈ t.db.message_receipts
    rw [seats_receipts hcaller hdid]
    exact hx
  · have ha : ∀ b, a ≠ .seats b := fun b hb => ha ⟨b, hb⟩
    rcases step_other ha h with rfl | ⟨-, r, db', hres, rfl⟩
    · exact ⟨fun m hm _ => hm, fun m _ _ x hx _ => hx, hanswer⟩
    · refine ⟨fun m hm _ => ?_, receipts_kept hs ha hcaller hC hres, hanswer⟩
      show m ∈ db'.conversation_memberships
      rw [respond_seats ha hres]
      exact hm

/-- **A label is not a key**, in every run whose calls with an agent token meet a
thread where the seats they look up without asking are none of a window's. -/
theorem label_is_no_key {s₀ : Seats.Sys} {tr : List (Trans Seats.Sys Act)} (hs : Good s₀)
    (hrun : Run (Rel (step sha256 fetched)) s₀ tr s)
    (hC : ∀ e ∈ tr, heeds_windows e.pre e.act = true) : LabelLaw sha256 fetched tr := by
  intro e he auth hcaller hauth
  have hgood : ∀ e ∈ tr, Good e.pre :=
    hrun.invariant_pre (C := fun _ _ => True) hs (fun _ _ _ hI _ h => Good.step hI h)
      fun _ _ => trivial
  have hasks : asks e.pre e.act = true := by
    have hheeds := hC e he
    rw [heeds_windows, hcaller, Option.all_some, hauth] at hheeds
    simpa using hheeds
  exact step_blind (hgood e he) (hrun.rel e he) hcaller hauth hasks

end Invariant

/-! ## A run -/

/-- Bob's registered window. -/
def hall : AuthCtx := { bob_in_hall with session_id := some 20, session_epoch := some 1, token_id := some 30 }

/-- A team of two agents, one with a window. -/
def crew : Db :=
  { pair .postgres with
    api_tokens := [⟨30, 2, "t", none, none⟩],
    agent_sessions := [⟨20, 2, 30, "hall", "h", 1, none, 100, none⟩] }

theorem crew_good : Good (Sys.start crew) :=
  ⟨start_inv ⟨by decide, by decide⟩, fun _ hdb => absurd hdb List.not_mem_nil,
    fun _ hm => absurd hm List.not_mem_nil⟩

/-- A broker that holds nothing. -/
def no_broker (_ : Backend) (_ : Locator) (_ : Uuid) : Fetched := .gone

/-- Ada opens a thread with Bob's window, which joins. -/
def opens : List Act :=
  [.seats (.create_conversation 0 0 (caller 1 "ada" "") ⟨none, true, ["bob/hall"]⟩ 7 10 [11]),
    .seats (.join 0 0 hall 7)]

/-- Someone with Bob's token and his window's label looks around, and speaks. -/
def tries : List Act :=
  [.list_conversations 0 (fun _ => (0, 0)) (caller 2 "bob" "hall") false,
    .read 0 0 0 (caller 2 "bob" "hall") 7 none none, .activity (caller 2 "bob" "hall"),
    .send ⟨0, 0, caller 2 "bob" "hall", 7, ⟨"hello", 1, none⟩, 1, 0⟩]

theorem tries_run : (exec (step digest no_broker) (Sys.start crew) (opens ++ tries)).isSome = true := by
  decide

theorem label_is_no_key_tries : LabelLaw digest no_broker
    ((exec (step digest no_broker) (Sys.start crew) (opens ++ tries)).get tries_run).1 :=
  label_is_no_key crew_good (exec_get tries_run) (by decide)

/-! ## The seat that was closed -/

/-- The same someone leaves. -/
def leaves : Act := .seats (.leave 0 0 (caller 2 "bob" "hall") 7)

theorem closed_run : (exec (step digest no_broker) (Sys.start crew) (opens ++ [leaves])).isSome = true := by
  decide

/-- The run in which the window's seat is given up, and where it ends. -/
def closed_end : List (Trans Seats.Sys Act) × Seats.Sys :=
  (exec (step digest no_broker) (Sys.start crew) (opens ++ [leaves])).get closed_run

/-- A label closes the seat of the window it names. -/
theorem label_closes_seat :
    Run (Rel (step digest no_broker)) (Sys.start crew) closed_end.1 closed_end.2 ∧
      ¬ LabelLaw digest no_broker closed_end.1 := by
  refine ⟨exec_get closed_run, fun hlaw => ?_⟩
  have hlast : ∃ e, closed_end.1 = closed_end.1.take 2 ++ [e] ∧ e.act = leaves ∧
      (e.pre.db.conversation_memberships.any fun m =>
        worn (caller 2 "bob" "hall") m && !e.post.db.conversation_memberships.contains m) = true :=
    ⟨_, rfl, rfl, by decide⟩
  obtain ⟨e, hsplit, hact, hgone⟩ := hlast
  have he : e ∈ closed_end.1 := by
    rw [hsplit]
    simp
  obtain ⟨m, hm, hm'⟩ := List.any_eq_true.mp hgone
  simp only [Bool.and_eq_true, Bool.not_eq_true', List.contains_eq_mem, decide_eq_false_iff_not] at hm'
  exact hm'.2 ((hlaw e he (caller 2 "bob" "hall") (by rw [hact]; rfl) rfl).seats m hm hm'.1)

end CrewSync.Labels
