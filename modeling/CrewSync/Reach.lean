/-
Whoever is handed a reference can read what it names.

`get_message` asks for the thread's team, a seat that is taken or the project, the grant
of a project thread, and a message after the point where the seat's history begins. The
queries that hand references out ask for part of it. Of a message they ask for the
addressee's seat, and not where its history begins now: the seat may have been given up
and taken again since. Of a notification they ask for the grant, and not for the seat of
the sender it goes to. The rest holds of every database the server reaches (`Addressed`): a
message is addressed to seats of its own thread, whose agents are of the thread's team, and
a seat that is bound to a window is at its label.
-/
import CrewSync.Deliveries
import CrewSync.History
import CrewSync.Seats
import CrewSync.Sequence

set_option autoImplicit false

namespace CrewSync.Reach

open Error Schema Rows Sessions
open Conversations History Routing Inbox Fetches
open Seats Send Runs
open Deliveries (windows registered speaks reached offers nowhere)
open Sequence (SendCall)
open Crew

/-! ## The system -/

/-- What can happen next. -/
inductive Act where
  | seats (a : Seats.Act)
  | send (c : SendCall)
  | fetch (seen now : ℕ) (b : Backends) (answer : BusResult (List InboxRef)) (auth : AuthCtx)
      (limit : Option ℤ)
  /-- Any other part of the server commits. -/
  | other (db' : Db)

/-- The agent is of the team. -/
def member_of (agent_id team_id : Uuid) (db : Db) : Bool :=
  db.agents.any fun a => a.id == agent_id && a.team_id == team_id

/-- A caller is an agent of its team, and its session is its window's. -/
def genuine (auth : AuthCtx) (db : Db) : Bool :=
  speaks auth db && member_of auth.agent_id auth.team_id db

/-- What says which thread and whose a message is. -/
def place_of (m : ConversationMessage) : Uuid × Uuid × ℕ := (m.id, m.conversation_id, m.seq)

/-- No statement outside this system addresses a message, writes a seat, unregisters a
window, or moves an agent, a thread or a message elsewhere. -/
def leaves_addresses (db db' : Db) : Bool :=
  db'.conversation_memberships == db.conversation_memberships && reached db' == reached db &&
    db'.conversation_messages.map place_of == db.conversation_messages.map place_of &&
    (db'.conversations.map fun c => (c.id, c.team_id)) == (db.conversations.map fun c => (c.id, c.team_id)) &&
    (db.agents.map fun a => (a.id, a.team_id)).all (fun p => (db'.agents.map fun a => (a.id, a.team_id)).contains p) &&
    decide (Keyed Agent.id db'.agents) && (windows db).all (fun w => (windows db').contains w) &&
    (windows db').all fun w => w.2.2 != ""

/-- The outcome of an operation. A refused one rolls back. -/
def Sys.commit {α : Type} (s : Seats.Sys) (res : BusResult (α × Db)) : Seats.Sys :=
  match res with
  | .error _ => s
  | .ok (_, db') => s.after db' s.proposals

section Steps

variable (sha256 : String → String)

/-- One step. -/
def step (s : Seats.Sys) : Act → Option Seats.Sys
  | .seats a => if (seat_caller a).any fun auth => genuine auth s.db then Seats.step s a else none
  | .send c =>
    match s.view c.seen with
    | none => none
    | some v => some (Sys.commit s (send sha256 c.now v c.auth c.id c.input c.message_id c.publish_key s.db))
  | .fetch seen now b answer auth limit =>
    match s.view seen with
    | none => none
    | some v =>
      if genuine auth s.db then
        some (Sys.commit s ((Inbox.fetch now v b answer auth limit s.db).map fun q => ((), q.2.2)))
      else none
  | .other db' => if leaves_addresses s.db db' then some (s.after db' s.proposals) else none

end Steps

/-- What a step hands out. -/
def handed (s : Seats.Sys) : Act → List InboxReference
  | .fetch seen now b answer auth limit =>
    match s.view seen with
    | none => []
    | some v =>
      match Inbox.fetch now v b answer auth limit s.db with
      | .error _ => []
      | .ok (batch, _) => batch.references
  | _ => []

/-! ## The law -/

/-- A message that `get_message` would serve to the caller now, where the reference says it
is. -/
def Serves (fetched : Backend → Locator → Uuid → Fetched) (auth : AuthCtx) (x : InboxReference)
    (db : Db) : Prop :=
  ∃ m ∈ db.conversation_messages, m.id = x.message_id ∧ m.conversation_id = x.conversation_id ∧
    m.seq = x.seq ∧ ∃ y, get_message fetched db db db auth x.message_id = .ok y

/-- What is handed out can be read. -/
def Readable (fetched : Backend → Locator → Uuid → Fetched) (tr : List (Trans Seats.Sys Act)) : Prop :=
  ∀ e ∈ tr, ∀ seen now b answer auth limit, e.act = .fetch seen now b answer auth limit →
    ∀ x ∈ handed e.pre e.act, Serves fetched auth x e.pre.db

/-- The message is not from before the point where the caller's seat begins. -/
def since_seat (auth : AuthCtx) (message_id : Uuid) (db : Db) : Bool :=
  (one (fun m => m.id == message_id && m.deleted_at.isNone) db.conversation_messages).all fun m =>
    match access auth m.conversation_id db with
    | .error _ => true
    | .ok a => !before_seat a m.seq

/-- The caller still has the thread of the message. -/
def still_in (auth : AuthCtx) (message_id : Uuid) (db : Db) : Bool :=
  (one (fun m => m.id == message_id && m.deleted_at.isNone) db.conversation_messages).all fun m =>
    match access auth m.conversation_id db with
    | .error _ => false
    | .ok a => a.can_read_messages

/-- An offer of an event that is still to be told: it is not confirmed, it is a notification
or of a message to the caller, and the thread is open to the caller. -/
def concerns (auth : AuthCtx) (q : Uuid × String) (db : Db) : Bool :=
  !is_confirmed (caller_key auth) q.1 q.2 db && (q.2 != "" || (recipient_seat auth q.1 db).isSome) &&
    (named_message q.1 db).any fun x =>
      (one (fun c => c.id == x.1.conversation_id) db.conversations).any (open_to auth.agent_id db)

/-- No message is outstanding that is from before the caller's seat, and no notification of
a thread the caller is out of; and what the caller was let in by still holds. -/
def in_reach (s : Seats.Sys) : Act → Bool
  | .fetch _ now _ answer auth _ =>
    (require_capability auth s.db).isOk && (require_window auth s.db).isOk &&
      (offers answer).all (fun r => (names r).all fun q => !concerns auth q s.db ||
        since_seat auth q.1 s.db && (q.2 == "" || still_in auth q.1 s.db)) &&
      (owed_messages now auth (caller_key auth) s.db).all (fun o => since_seat auth o.message.id s.db) &&
      (owed_receipts now auth (caller_key auth) s.db).all fun o =>
        since_seat auth o.message.id s.db && still_in auth o.message.id s.db
  | _ => true

/-! ## The invariant -/

/-- The agent is of the thread's team. -/
def Teamed (db : Db) (conversation_id agent_id : Uuid) : Prop :=
  ∃ c ∈ db.conversations, c.id = conversation_id ∧ member_of agent_id c.team_id db = true

/-- Whom messages are addressed to, and where seats are. -/
structure Addressed (db : Db) : Prop where
  tidy : Tidy db.conversation_memberships
  messages : db.MessagesKeyed
  threads : Keyed Conversation.id db.conversations
  agents : Keyed Agent.id db.agents
  labels : ∀ w ∈ windows db, w.2.2 ≠ ""
  /-- A message is addressed to seats of its thread. -/
  homes : ∀ p ∈ reached db, ∃ m ∈ db.conversation_messages, m.id = p.1 ∧
    ∃ cm ∈ db.conversation_memberships, cm.id = p.2 ∧ cm.conversation_id = m.conversation_id
  teams : ∀ cm ∈ db.conversation_memberships, Teamed db cm.conversation_id cm.agent_id
  /-- A seat that is bound to a window has its label. -/
  bound : ∀ cm ∈ db.conversation_memberships, cm.session_id.isSome = true →
    registered cm.agent_id cm.session db = true

/-- Agents and threads stay in their teams. -/
structure Stays (v db : Db) : Prop where
  agents : ∀ a t, member_of a t v = true → member_of a t db = true
  threads : ∀ c ∈ v.conversations, ∃ c' ∈ db.conversations, c'.id = c.id ∧ c'.team_id = c.team_id
  windows : ∀ a l, registered a l v = true → registered a l db = true

/-- What holds in every reachable state. -/
structure Inv (s : Seats.Sys) : Prop where
  addressed : Addressed s.db
  past : ∀ v ∈ s.past, Stays v s.db

/-! ## Who is served -/

section Serving

variable {fetched : Backend → Locator → Uuid → Fetched} {auth : AuthCtx} {db : Db}
  {m : ConversationMessage} {c : Conversation} {cm : ConversationMembership}

/-- Who has the thread, and is not before its seat, is served. -/
theorem served (hcap : require_capability auth db = .ok ())
    (hm : one (fun x => x.id == m.id && x.deleted_at.isNone) db.conversation_messages = some m)
    (hin : still_in auth m.id db = true) (hsince : since_seat auth m.id db = true) :
    ∃ y, get_message fetched db db db auth m.id = .ok y := by
  simp only [still_in, hm, Option.all_some] at hin
  simp only [since_seat, hm, Option.all_some] at hsince
  cases ha : access auth m.conversation_id db with
  | error e =>
    rw [ha] at hin
    cases hin
  | ok a =>
    rw [ha] at hin hsince
    have hread : a.can_read = true := by
      simp only [Access.can_read_messages, Bool.and_eq_true, Bool.or_eq_true] at hin
      simp only [Access.can_read, Bool.and_eq_true, Bool.or_eq_true]
      exact ⟨hin.1, Or.inl hin.2⟩
    refine ⟨serve m m.publication_state (resolve_body fetched m.id (body_row m))
      (a.membership.bind fun s => receipt_of m.id s.id db), ?_⟩
    simp only [get_message, readable, require_accepted, bind_eq_ok, fetch_eq_ok, ensure_eq_ok, pure_eq_ok]
    exact ⟨(), hcap, m, hm, a, ⟨a, ha, (), hread, rfl⟩, (), hin, (), hsince, rfl⟩

theorem Addressed.thread (hdb : Addressed db) (hc : c ∈ db.conversations) (hteam : c.team_id = auth.team_id) :
    one (fun x => x.id == c.id && x.team_id == auth.team_id) db.conversations = some c := by
  refine one_eq_some hc (by simp [hteam]) fun b hb hpb => ?_
  rw [Bool.and_eq_true, beq_iff_eq] at hpb
  exact hdb.threads.eq hb hc hpb.1

/-- The caller's agent is of the team of a thread it has a seat in. -/
theorem team_of_seat (hdb : Addressed db) (hgen : genuine auth db = true) (hcm : cm ∈ db.conversation_memberships)
    (hagent : cm.agent_id = auth.agent_id) (hc : c ∈ db.conversations) (hid : cm.conversation_id = c.id) :
    c.team_id = auth.team_id := by
  obtain ⟨c', hc', hid', hmember⟩ := hdb.teams cm hcm
  obtain rfl := hdb.threads.eq hc' hc (hid'.trans hid)
  simp only [genuine, Bool.and_eq_true, member_of, List.any_eq_true, beq_iff_eq] at hgen hmember
  obtain ⟨-, a, ha, haid, hateam⟩ := hgen
  obtain ⟨a', ha', haid', hateam'⟩ := hmember
  obtain rfl := hdb.agents.eq ha' ha (haid'.trans (hagent.trans haid.symm))
  exact hateam'.symm.trans hateam

/-- The seat at the caller's address is the caller's. -/
theorem seat_is_callers (hdb : Addressed db) (hwindow : require_window auth db = .ok ())
    (hcm : cm ∈ db.conversation_memberships) {id : Uuid} (hat : at_address id auth.agent_id auth.session cm = true) :
    one (is_callers auth id) db.conversation_memberships = some cm := by
  have hcallers : is_callers auth id cm = true := by
    rw [is_callers, hat, Bool.true_and, Bool.or_eq_true]
    by_contra hnot
    rw [not_or, Option.isNone_iff_eq_none, Bool.not_eq_true] at hnot
    -- an agent token at the label of a window
    have hreg := hdb.bound cm hcm (Option.isSome_iff_ne_none.mpr hnot.1)
    have hhome := at_address_iff.mp hat
    simp only [home, Prod.mk.injEq] at hhome
    rw [hhome.2.1, hhome.2.2] at hreg
    obtain ⟨w, hw, hlabel⟩ := List.any_eq_true.mp hreg
    rw [Bool.and_eq_true, beq_iff_eq, beq_iff_eq] at hlabel
    have hempty : auth.session ≠ "" := fun h => hdb.labels w hw (hlabel.2.trans h)
    unfold require_window at hwindow
    rw [if_neg (by simp [hnot.2, hempty]), ensure_eq_ok, Bool.not_eq_true'] at hwindow
    rw [registered, windows, List.any_map] at hreg
    exact absurd (hwindow.symm.trans hreg) (by decide)
  exact hdb.tidy.callers_eq hcm hcallers

/-- Whom a message is addressed to, and who has the project, still has the thread. -/
theorem still_in_of_seat (hdb : Addressed db) (hgen : genuine auth db = true)
    (hwindow : require_window auth db = .ok ()) (hm : m ∈ db.conversation_messages)
    (hcm : cm ∈ db.conversation_memberships)
    (hreached : (m.id, cm.id) ∈ reached db) (hagent : cm.agent_id = auth.agent_id)
    (hsession : cm.session = auth.session) (hactive : cm.state = .active)
    (hc : one (fun c => c.id == m.conversation_id) db.conversations = some c)
    (hopen : open_to auth.agent_id db c = true) : still_in auth m.id db = true := by
  have hcid : c.id = m.conversation_id := by simpa using pos_of_one hc
  -- the seat is in the thread of the message
  obtain ⟨m', hm', hmid, cm', hcm', hcmid, hhome⟩ := hdb.homes _ hreached
  obtain rfl := hdb.messages.eq hm' hm hmid
  obtain rfl := hdb.tidy.ids.eq hcm' hcm hcmid
  have hteam := team_of_seat hdb hgen hcm hagent (mem_of_one hc) (hhome.trans hcid.symm)
  have hat : at_address m'.conversation_id auth.agent_id auth.session cm' = true := by
    simp [at_address, hhome, hagent, hsession]
  have hthread : one (fun c => c.id == m'.conversation_id && c.team_id == auth.team_id) db.conversations =
      some c := by
    rw [← hcid]
    exact hdb.thread (mem_of_one hc) hteam
  unfold still_in
  cases hfound : one (fun x => x.id == m'.id && x.deleted_at.isNone) db.conversation_messages with
  | none => rfl
  | some x =>
    have hxid := pos_of_one hfound
    rw [Bool.and_eq_true, beq_iff_eq] at hxid
    obtain rfl := hdb.messages.eq (mem_of_one hfound) hm hxid.1
    simp only [Option.all_some, access, hthread, seat_is_callers hdb hwindow hcm hat, Error.fetch]
    simp only [open_to, Bool.or_eq_true, bne_iff_ne, ne_eq] at hopen
    refine Access.can_read_messages_of_active rfl hactive fun hproject => ?_
    simpa using ⟨hproject, hopen.resolve_left fun h => h hproject⟩

end Serving

/-! ## What is handed out -/

section Handing

variable {now : ℕ} {auth : AuthCtx} {db d d' : Db} {x : InboxReference}
  {m : ConversationMessage} {b : Backends} {answer : BusResult (List InboxRef)} {refs : List InboxReference}
  {limit : ℕ} {c : Prop}

/-- The reference is to the message. -/
def RefersTo (x : InboxReference) (m : ConversationMessage) : Prop :=
  m.id = x.message_id ∧ m.conversation_id = x.conversation_id ∧ m.seq = x.seq

/-- The message an offer is of, where the caller is still told of it. -/
def Offers (auth : AuthCtx) (db : Db) (r : InboxRef) (x : InboxReference) : Prop :=
  ∃ m dedup sender, named_message m.id db = some (m, sender) ∧ names r = some (m.id, dedup) ∧
    concerns auth (m.id, dedup) db = true ∧ RefersTo x m

theorem message_of_named {k : Uuid} {sender : String} (h : named_message k db = some (m, sender)) :
    one (fun x => x.id == k && x.deleted_at.isNone) db.conversation_messages = some m := by
  simp only [named_message, Option.bind_eq_bind, Option.bind_eq_some_iff, Option.pure_def, Option.some.injEq,
    Prod.mk.injEq] at h
  obtain ⟨m', hm', ag, -, rfl, -⟩ := h
  exact hm'

/-- An offer that is handed out is still to be told. -/
theorem record_at_offers {i : ℕ} {r : InboxRef}
    (h : record_at (fun _ => db) now auth (caller_key auth) i r d = .ok (some x, d')) :
    Offers auth db r x := by
  simp only [record_at, bind_eq_ok, fetch_eq_ok] at h
  obtain ⟨payload, hpayload, message_id, hid, h⟩ := h
  split at h
  · simp only [pure_eq_ok, Prod.mk.injEq] at h
    exact absurd h.1 (by simp)
  rename_i hconf
  split at h
  · simp only [pure_eq_ok, Prod.mk.injEq] at h
    exact absurd h.1 (by simp)
  rename_i m sender hnamed
  simp only [bind_eq_ok, fetch_eq_ok] at h
  obtain ⟨c, hc, h⟩ := h
  split at h
  · simp only [pure_eq_ok, Prod.mk.injEq] at h
    exact absurd h.1 (by simp)
  rename_i hopen
  simp only [pure_eq_ok, Prod.mk.injEq, Option.map_eq_some_iff] at h
  obtain ⟨⟨k, -, rfl⟩, -⟩ := h
  have hmid := pos_of_one (message_of_named hnamed)
  rw [Bool.and_eq_true, beq_iff_eq] at hmid
  obtain rfl := hmid.1
  refine ⟨m, payload.dedup.getD "", sender, hnamed, by simp [names, hpayload, hid], ?_, rfl, rfl, rfl⟩
  rw [Bool.not_eq_true, Bool.or_eq_false_iff, Bool.not_eq_false', Bool.and_eq_false_iff] at hopen
  have htold : payload.dedup.getD "" ≠ "" ∨ (recipient_seat auth m.id db).isSome = true := by
    rcases hopen.2 with hsome | hdedup
    · exact Or.inr (by simpa [Option.isSome_iff_ne_none] using hsome)
    · exact Or.inl fun hempty => absurd hdedup (by simp [hempty])
  simp only [concerns, Bool.and_eq_true, Bool.not_eq_true', Bool.or_eq_true, bne_iff_ne, ne_eq, hnamed,
    Option.any_some, hc]
  exact ⟨⟨by simpa using hconf, htold⟩, hopen.1⟩

theorem record_all_at_offers {rs : List InboxRef} : ∀ {i : ℕ} {d d' : Db} {refs : List InboxReference},
    record_all_at (fun _ => db) now auth (caller_key auth) i rs d = .ok (refs, d') →
    ∀ x ∈ refs, ∃ r ∈ rs, Offers auth db r x := by
  induction rs with
  | nil =>
    intro i d d' refs h x hx
    simp only [record_all_at, pure_eq_ok, Prod.mk.injEq] at h
    rw [← h.1] at hx
    exact absurd hx List.not_mem_nil
  | cons r rs ih =>
    intro i d d' refs h x hx
    simp only [record_all_at, bind_eq_ok, pure_eq_ok, Prod.mk.injEq] at h
    obtain ⟨⟨o, d₁⟩, h1, ⟨refs₁, d₂⟩, h2, rfl, rfl⟩ := h
    rcases List.mem_append.mp hx with hx | hx
    · rw [Option.mem_toList] at hx
      obtain rfl := hx
      exact ⟨r, List.mem_cons_self, record_at_offers h1⟩
    · obtain ⟨r', hr', hoffers⟩ := ih h2 x hx
      exact ⟨r', List.mem_cons_of_mem _ hr', hoffers⟩

theorem hand_out_all_rows {ρ : Type} {offer : ρ → Db → Option Uuid × Db}
    {reference : ρ → Uuid → InboxReference} {l : List ρ} : ∀ {d : Db},
    x ∈ (hand_out_all offer reference l d).1 → ∃ y ∈ l, ∃ k, x = reference y k := by
  induction l with
  | nil => exact fun hx => absurd hx List.not_mem_nil
  | cons y l ih =>
    intro d hx
    have hrest : x ∈ (hand_out_all offer reference l (offer y d).2).1 → ∃ z ∈ y :: l, ∃ k, x = reference z k := by
      intro hx
      obtain ⟨z, hz, hk⟩ := ih hx
      exact ⟨z, List.mem_cons_of_mem _ hz, hk⟩
    rw [hand_out_all] at hx
    cases hdel : (offer y d).1 with
    | none =>
      simp only [hdel] at hx
      exact hrest hx
    | some k =>
      simp only [hdel, List.mem_cons] at hx
      rcases hx with rfl | hx
      · exact ⟨y, List.mem_cons_self, k, rfl⟩
      · exact hrest hx

/-- What a reference is handed out for. -/
def Handed (now : ℕ) (answer : BusResult (List InboxRef)) (auth : AuthCtx) (db : Db) (x : InboxReference) :
    Prop :=
  (∃ r ∈ offers answer, Offers auth db r x) ∨
  (∃ o ∈ owed_messages now auth (caller_key auth) db, RefersTo x o.message) ∨
  ∃ o ∈ owed_receipts now auth (caller_key auth) db, RefersTo x o.message

theorem consult_at_handed {note : Option String}
    (h : consult_at (fun _ => db) now auth (caller_key auth) b answer d = .ok (refs, note, d')) :
    ∀ x ∈ refs, Handed now answer auth db x := by
  rcases consult_at_cases h with ⟨rfl, -⟩ | ⟨rs, rfl, hall⟩
  · exact fun x hx => absurd hx List.not_mem_nil
  · exact fun x hx => Or.inl (record_all_at_offers hall x hx)

theorem messages_at_handed [Decidable c] (hx : x ∈ (if c then
      messages_at (fun _ => db) now auth (caller_key auth) limit refs d else ([], d)).1) :
    Handed now answer auth db x := by
  split at hx
  swap
  · exact absurd hx List.not_mem_nil
  obtain ⟨y, hy, k, rfl⟩ := hand_out_all_rows hx
  have hmem := List.mem_of_mem_take (List.fst_mem_of_mem_zipIdx hy)
  exact Or.inr (Or.inl ⟨y.1, owed_own_over hmem, rfl, rfl, rfl⟩)

theorem receipts_at_handed [Decidable c] (hx : x ∈ (if c then
      receipts_at (fun _ => db) now auth (caller_key auth) limit refs d else ([], d)).1) :
    Handed now answer auth db x := by
  split at hx
  swap
  · exact absurd hx List.not_mem_nil
  obtain ⟨y, hy, k, rfl⟩ := hand_out_all_rows hx
  have hmem := List.mem_of_mem_take (List.fst_mem_of_mem_zipIdx hy)
  exact Or.inr (Or.inr ⟨y.1, noted_own_over hmem, rfl, rfl, rfl⟩)

/-- Where each reference of a batch comes from. -/
theorem fetch_handed {seen : Db} {limit : Option ℤ} {batch : InboxBatch} {asked : List Routing.Call}
    (h : Inbox.fetch now seen b answer auth limit db = .ok (batch, asked, d')) :
    ∀ x ∈ batch.references, Handed now answer auth db x := by
  have hat : fetch_at (fun _ => db) now auth seen b answer limit db = .ok (batch, d') := by
    rw [fetch_at_alone, h]
    rfl
  simp only [fetch_at, bind_eq_ok, pure_eq_ok, Prod.mk.injEq] at hat
  obtain ⟨_, -, _, -, _, -, ⟨refs, note, d₁⟩, h1, rfl, -⟩ := hat
  intro x hx
  rw [List.mem_append, List.mem_append] at hx
  rcases hx with (hx | hx) | hx
  · exact consult_at_handed h1 x hx
  · exact messages_at_handed hx
  · exact receipts_at_handed hx

end Handing

/-! ## What is handed out is served -/

section Reading

variable {fetched : Backend → Locator → Uuid → Fetched} {now : ℕ} {answer : BusResult (List InboxRef)}
  {auth : AuthCtx} {db : Db} {x : InboxReference} {m : ConversationMessage} {k : Uuid}

/-- The caller's seat among a message's recipients is one of its seats. -/
theorem seat_of_recipient {message_id : Uuid} (h : recipient_seat auth message_id db = some k) :
    ∃ cm ∈ db.conversation_memberships, (message_id, cm.id) ∈ reached db ∧ cm.agent_id = auth.agent_id ∧
      cm.session = auth.session ∧ cm.state = .active := by
  simp only [recipient_seat, Option.bind_eq_bind, Option.bind_eq_some_iff, Option.pure_def,
    Option.some.injEq] at h
  obtain ⟨r, hr, -⟩ := h
  have hseat := pos_of_one hr
  simp only [Bool.and_eq_true, beq_iff_eq, List.any_eq_true] at hseat
  obtain ⟨hid, cm, hcm, ⟨⟨hcmid, hagent⟩, hsession⟩, hactive⟩ := hseat
  refine ⟨cm, hcm, List.mem_append_left _ (List.mem_map.mpr ⟨r, mem_of_one hr, ?_⟩), hagent, hsession, hactive⟩
  rw [hid, hcmid]

/-- The message of a query's row is one that `get_message` finds. -/
theorem message_found (hdb : Addressed db)
    (hm : one (fun x => x.id == k) db.conversation_messages = some m) (hkept : m.deleted_at = none) :
    one (fun x => x.id == m.id && x.deleted_at.isNone) db.conversation_messages = some m := by
  refine one_eq_some (mem_of_one hm) (by simp [hkept]) fun b hb hpb => ?_
  rw [Bool.and_eq_true, beq_iff_eq] at hpb
  exact hdb.messages.eq hb (mem_of_one hm) hpb.1

/-- Who has the thread of the message, and is not before its seat, is served what the
reference names. -/
theorem serves_of_refers (hcap : require_capability auth db = .ok ())
    (hm : one (fun x => x.id == m.id && x.deleted_at.isNone) db.conversation_messages = some m)
    (hin : still_in auth m.id db = true) (hsince : since_seat auth m.id db = true) (hx : RefersTo x m) :
    Serves fetched auth x db := by
  obtain ⟨hid, hthread, hseq⟩ := hx
  refine ⟨m, mem_of_one hm, hid, hthread, hseq, ?_⟩
  rw [← hid]
  exact served hcap hm hin hsince

/-- **What a fetch hands out in reach is served.** -/
theorem handed_served {s : Seats.Sys} {seen : ℕ} {b : Backends} {limit : Option ℤ} (hdb : Addressed s.db)
    (hgen : genuine auth s.db = true) (hreach : in_reach s (.fetch seen now b answer auth limit) = true)
    (h : Handed now answer auth s.db x) : Serves fetched auth x s.db := by
  simp only [in_reach, Bool.and_eq_true, List.all_eq_true] at hreach
  obtain ⟨⟨⟨⟨hcap, hwindow⟩, hoffers⟩, howed⟩, hnoted⟩ := hreach
  rw [isOk_iff] at hcap hwindow
  rcases h with ⟨r, hr, m, dedup, sender, hnamed, hnames, hconcerns, hx⟩ | ⟨o, ho, hx⟩ | ⟨o, ho, hx⟩
  · -- an offer of the broker
    have hm := message_of_named hnamed
    have hout := hoffers r hr
    rw [hnames, Option.all_some] at hout
    simp only [hconcerns, Bool.not_true, Bool.false_or, Bool.and_eq_true, Bool.or_eq_true, beq_iff_eq] at hout
    refine serves_of_refers hcap hm ?_ hout.1 hx
    rcases hout.2 with hempty | hin
    · simp only [concerns, hempty, hnamed, Option.any_some, Bool.and_eq_true, Bool.or_eq_true, bne_self_eq_false,
        Bool.false_eq_true, false_or] at hconcerns
      obtain ⟨⟨-, hsome⟩, hopen⟩ := hconcerns
      obtain ⟨k, hk⟩ := Option.isSome_iff_exists.mp hsome
      obtain ⟨c, hc, hopen⟩ := (Option.any_eq_true _ _).mp hopen
      obtain ⟨cm, hcm, hreached, hagent, hsession, hactive⟩ := seat_of_recipient hk
      exact still_in_of_seat hdb hgen hwindow (mem_of_one hm) hcm hreached hagent hsession hactive hc hopen
    · exact hin
  · -- a message that is owed
    obtain ⟨r, hr, cm, c, hcm, hmsg, hc, -, hund⟩ := owed_row ho
    simp only [undelivered, Bool.and_eq_true, beq_iff_eq, Option.isNone_iff_eq_none] at hund
    obtain ⟨⟨⟨⟨⟨⟨hagent, hsession⟩, hactive⟩, -⟩, hopen⟩, hkept⟩, -⟩ := hund
    have hmid : o.message.id = r.message_id := by simpa using pos_of_one hmsg
    have hcmid : cm.id = r.membership_id := by simpa using pos_of_one hcm
    have hreached : (o.message.id, cm.id) ∈ reached s.db :=
      List.mem_append_right _ (List.mem_map.mpr ⟨r, hr, by rw [hmid, hcmid]⟩)
    refine serves_of_refers hcap (message_found hdb hmsg hkept) ?_ (howed o ho) hx
    rw [hagent] at hopen
    exact still_in_of_seat hdb hgen hwindow (mem_of_one hmsg) (mem_of_one hcm) hreached hagent hsession hactive
      hc hopen
  · -- a notification that was not confirmed
    obtain ⟨-, -, c, hmsg, -, hcol⟩ := noted_row ho
    simp only [collectable, Bool.and_eq_true, Option.isNone_iff_eq_none] at hcol
    exact serves_of_refers hcap (message_found hdb hmsg hcol.1.2) (hnoted o ho).2 (hnoted o ho).1 hx

end Reading

/-! ## What a step keeps -/

section Keeping

variable {v db db' : Db}

theorem Stays.refl (db : Db) : Stays db db :=
  ⟨fun _ _ h => h, fun c hc => ⟨c, hc, rfl, rfl⟩, fun _ _ h => h⟩

theorem Stays.trans (h : Stays v db) (h' : Stays db db') : Stays v db' := by
  refine ⟨fun a t ha => h'.agents a t (h.agents a t ha), fun c hc => ?_,
    fun a l hw => h'.windows a l (h.windows a l hw)⟩
  obtain ⟨c₁, hc₁, hid, hteam⟩ := h.threads c hc
  obtain ⟨c₂, hc₂, hid', hteam'⟩ := h'.threads c₁ hc₁
  exact ⟨c₂, hc₂, hid'.trans hid, hteam'.trans hteam⟩

theorem Teamed.stays {id agent_id : Uuid} (h : Teamed v id agent_id) (hstays : Stays v db) :
    Teamed db id agent_id := by
  obtain ⟨c, hc, hid, hmember⟩ := h
  obtain ⟨c', hc', hid', hteam⟩ := hstays.threads c hc
  refine ⟨c', hc', hid'.trans hid, ?_⟩
  rw [hteam]
  exact hstays.agents _ _ hmember

/-- Where seats come from: each was at its address before, or is of an agent of the thread's
team, and none is bound but to a window at its label. -/
def FromTeam (db : Db) (t t' : List ConversationMembership) : Prop :=
  ∀ cm ∈ t',
    (∃ cm₀ ∈ t, home cm = home cm₀ ∧
      (cm.session_id.isSome = true → cm₀.session_id.isSome = true ∨ registered cm.agent_id cm.session db = true)) ∨
    Teamed db cm.conversation_id cm.agent_id ∧
      (cm.session_id.isSome = true → registered cm.agent_id cm.session db = true)

/-- The seats of a thread change, and threads are opened. -/
theorem Addressed.reseated (h : Addressed db) (hstays : Stays db db') (htidy : Tidy db'.conversation_memberships)
    (hkept : Kept db.conversation_memberships db'.conversation_memberships)
    (hfrom : FromTeam db' db.conversation_memberships db'.conversation_memberships)
    (hthreads : Keyed Conversation.id db'.conversations)
    (hmessages : db'.conversation_messages = db.conversation_messages) (hreached : reached db' = reached db)
    (hagents : db'.agents = db.agents) (hwindows : windows db' = windows db) : Addressed db' := by
  refine ⟨htidy, by rw [Db.MessagesKeyed, hmessages]; exact h.messages, hthreads, by rw [hagents]; exact h.agents,
    by rw [hwindows]; exact h.labels, fun p hp => ?_, fun cm hcm => ?_, fun cm hcm hsome => ?_⟩
  · rw [hreached] at hp
    obtain ⟨m, hm, hid, cm, hcm, hcmid, hhome⟩ := h.homes p hp
    obtain ⟨cm', hcm', hsame⟩ := hkept cm hcm
    have hthread : cm'.conversation_id = cm.conversation_id := (Prod.mk.inj hsame.2).1
    refine ⟨m, by rw [hmessages]; exact hm, hid, cm', hcm', hsame.1.trans hcmid, hthread.trans hhome⟩
  · rcases hfrom cm hcm with ⟨cm₀, hcm₀, hhome, -⟩ | ⟨hteamed, -⟩
    · simp only [home, Prod.mk.injEq] at hhome
      rw [hhome.1, hhome.2.1]
      exact (h.teams cm₀ hcm₀).stays hstays
    · exact hteamed
  · rcases hfrom cm hcm with ⟨cm₀, hcm₀, hhome, hbound⟩ | ⟨-, hbound⟩
    · rcases hbound hsome with hsome₀ | hreg
      · simp only [home, Prod.mk.injEq] at hhome
        rw [hhome.2.1, hhome.2.2]
        exact hstays.windows _ _ (h.bound cm₀ hcm₀ hsome₀)
      · exact hreg
    · exact hbound hsome

/-- A step that leaves the tables of the invariant as they are. -/
theorem Addressed.same (h : Addressed db) (hseats : db'.conversation_memberships = db.conversation_memberships)
    (hthreads : db'.conversations.map (fun c => (c.id, c.team_id)) = db.conversations.map fun c => (c.id, c.team_id))
    (hmessages : db'.MessagesKeyed) (hplaces : ∀ p ∈ reached db', ∃ m ∈ db'.conversation_messages, m.id = p.1 ∧
      ∃ cm ∈ db.conversation_memberships, cm.id = p.2 ∧ cm.conversation_id = m.conversation_id)
    (hagents : Keyed Agent.id db'.agents) (hlabels : ∀ w ∈ windows db', w.2.2 ≠ "")
    (hstays : Stays db db') : Addressed db' := by
  have hids : db'.conversations.map (fun c => c.id) = db.conversations.map fun c => c.id := by
    have hfst := congrArg (List.map Prod.fst) hthreads
    rwa [List.map_map, List.map_map] at hfst
  refine ⟨by rw [hseats]; exact h.tidy, hmessages, ?_, hagents, hlabels, ?_, ?_, ?_⟩
  · unfold Keyed
    rw [hids]
    exact h.threads
  · rw [hseats]
    exact hplaces
  · rw [hseats]
    exact fun cm hcm => (h.teams cm hcm).stays hstays
  · rw [hseats]
    exact fun cm hcm hsome => hstays.windows _ _ (h.bound cm hcm hsome)

end Keeping

/-! ## Seats -/

section Seating

variable {db : Db} {auth : AuthCtx} {t t' t'' : List ConversationMembership}
  {p : ConversationMembership → Bool} {f : ConversationMembership → ConversationMembership}
  {r : ConversationMembership} {v : Db} {id : Uuid}

theorem FromTeam.trans (h : FromTeam db t t') (h' : FromTeam db t' t'') : FromTeam db t t'' := by
  intro cm hcm
  rcases h' cm hcm with ⟨cm', hcm', hhome, hbound⟩ | hnew
  · have hhome' := hhome
    simp only [home, Prod.mk.injEq] at hhome'
    rcases h cm' hcm' with ⟨cm₀, hcm₀, hhome₀, hbound₀⟩ | ⟨hteamed, hbound₀⟩
    · refine Or.inl ⟨cm₀, hcm₀, hhome.trans hhome₀, fun hsome => ?_⟩
      rcases hbound hsome with hsome' | hreg
      · rw [hhome'.2.1, hhome'.2.2]
        exact hbound₀ hsome'
      · exact Or.inr hreg
    · refine Or.inr ⟨by rw [hhome'.1, hhome'.2.1]; exact hteamed, fun hsome => ?_⟩
      rcases hbound hsome with hsome' | hreg
      · rw [hhome'.2.1, hhome'.2.2]
        exact hbound₀ hsome'
      · exact hreg
  · exact Or.inr hnew

/-- A statement that keeps who is bound. -/
theorem FromTeam.update (hf : InPlace f) (hbound : ∀ m ∈ t, p m = true → (f m).session_id.isSome = true →
    m.session_id.isSome = true ∨ registered m.agent_id m.session db = true) :
    FromTeam db t (Rows.update p f t) := by
  intro cm hcm
  obtain ⟨m, hm, rfl⟩ := mem_update.mp hcm
  refine Or.inl ⟨m, hm, ?_⟩
  by_cases hp : p m = true
  · have hhome := (hf.same m).2
    rw [if_pos hp]
    refine ⟨hhome, fun hsome => ?_⟩
    simp only [home, Prod.mk.injEq] at hhome
    rw [hhome.2.1, hhome.2.2]
    exact hbound m hm hp hsome
  · rw [if_neg hp]
    exact ⟨rfl, Or.inl⟩

theorem FromTeam.insert_into (hr : Teamed db r.conversation_id r.agent_id)
    (hbound : r.session_id.isSome = true → registered r.agent_id r.session db = true) :
    FromTeam db t (Rows.insert_into r t) := by
  intro cm hcm
  rcases mem_insert_into.mp hcm with hcm | rfl
  · exact Or.inl ⟨cm, hcm, rfl, Or.inl⟩
  · exact Or.inr ⟨hr, hbound⟩

theorem FromTeam.upsert (hf : InPlace f) (hkeep : ∀ m, (f m).session_id.isSome = true → m.session_id.isSome = true)
    (hr : Teamed db r.conversation_id r.agent_id) (hfree : r.session_id = none) :
    FromTeam db t (Rows.upsert p f r t) := by
  unfold Rows.upsert
  split
  · exact FromTeam.update hf fun m _ _ hsome => Or.inl (hkeep m hsome)
  · exact FromTeam.insert_into hr fun hsome => absurd hsome (by simp [hfree])

theorem registered_of_genuine (h : genuine auth db = true) (hsome : auth.session_id.isSome = true) :
    registered auth.agent_id auth.session db = true := by
  simp only [genuine, Bool.and_eq_true] at h
  have hspeaks := h.1
  unfold speaks at hspeaks
  obtain ⟨sid, hsid⟩ := Option.isSome_iff_exists.mp hsome
  rw [hsid] at hspeaks
  split at hspeaks
  · rename_i sid' _ hsid' _
    rw [List.contains_iff_mem] at hspeaks
    exact List.any_eq_true.mpr ⟨_, hspeaks, by simp⟩
  · rename_i hnone _
    cases hnone
  · cases hspeaks

/-- The seats of a thread change, and nothing else. -/
theorem Addressed.seated (h : Addressed db) (htidy : Tidy t') (hkept : Kept db.conversation_memberships t')
    (hfrom : FromTeam db db.conversation_memberships t') :
    Stays db { db with conversation_memberships := t' } ∧
      Addressed { db with conversation_memberships := t' } := by
  have hstays : Stays db { db with conversation_memberships := t' } :=
    ⟨fun _ _ ha => ha, fun c hc => ⟨c, hc, rfl, rfl⟩, fun _ _ hw => hw⟩
  exact ⟨hstays, h.reseated hstays htidy hkept hfrom h.threads rfl rfl rfl rfl⟩

/-- An agent an address was resolved to is of the thread's team. -/
theorem teamed_of_resolved {address session : String} {agent_id : Uuid}
    (hstays : Stays v db) (haddr : resolve_address auth address v = .ok (agent_id, session))
    (hc : ∃ c ∈ db.conversations, c.id = id ∧ c.team_id = auth.team_id) : Teamed db id agent_id := by
  obtain ⟨a, ha, rfl, hteam⟩ := resolve_address_ok haddr
  obtain ⟨c, hc, hid, hcteam⟩ := hc
  refine ⟨c, hc, hid, hstays.agents _ _ ?_⟩
  rw [hcteam]
  exact List.any_eq_true.mpr ⟨a, ha, by simp [hteam]⟩

theorem teamed_of_genuine (hgen : genuine auth db = true)
    (hc : ∃ c ∈ db.conversations, c.id = id ∧ c.team_id = auth.team_id) : Teamed db id auth.agent_id := by
  obtain ⟨c, hc, hid, hteam⟩ := hc
  simp only [genuine, Bool.and_eq_true] at hgen
  exact ⟨c, hc, hid, by rw [hteam]; exact hgen.2⟩

/-- A thread opens, with seats for its creator and the invited. -/
theorem Addressed.opened {now : ℕ} {db' : Db} {input : CreateInput} {k u : Uuid} {seats : List Uuid}
    (h : Addressed db) (hv : Stays v db) (hgen : genuine auth db = true)
    (hok : create_conversation now v auth input id k seats db = .ok (u, db')) :
    Stays db db' ∧ Addressed db' := by
  obtain ⟨hopen, hfresh, -⟩ := create_conversation_ok hok
  obtain ⟨⟨c, rfl, hteam, hdb⟩, hseats⟩ := create_conversation_seats hok
  rw [hdb] at hopen hseats ⊢
  simp only at hopen hseats
  generalize db'.conversation_memberships = t' at *
  have hstays : Stays db { db with
      conversations := Rows.insert_into c db.conversations, conversation_memberships := t' } :=
    ⟨fun _ _ ha => ha, fun x hx => ⟨x, mem_insert_into.mpr (Or.inl hx), rfl, rfl⟩, fun _ _ hw => hw⟩
  have hc : ∃ x ∈ Rows.insert_into c db.conversations, x.id = c.id ∧ x.team_id = auth.team_id :=
    ⟨c, mem_insert_into.mpr (Or.inr rfl), rfl, hteam⟩
  refine ⟨hstays, h.reseated hstays (hopen.tidy h.tidy) (fun m hm => ⟨m, hopen.old m hm, Same.refl m⟩) ?_
    (h.threads.insert_into hfresh) rfl rfl rfl rfl⟩
  intro cm hcm
  rcases hseats cm hcm with hold | rfl | ⟨address, agent_id, session, n, haddr, rfl⟩
  · exact Or.inl ⟨cm, hold, rfl, Or.inl⟩
  · exact Or.inr ⟨teamed_of_genuine hgen hc, registered_of_genuine hgen⟩
  · refine Or.inr ⟨teamed_of_resolved (hv.trans hstays) haddr hc, fun hsome => ?_⟩
    exact absurd hsome (by simp [offered_row])

/-- Seats change hands. -/
theorem seats_kept {s u : Seats.Sys} {a : Seats.Act} (hs : Inv s)
    (hgen : (seat_caller a).any (fun auth => genuine auth s.db) = true) (h : Seats.step s a = some u) :
    u = s ∨ Stays s.db u.db ∧ Addressed u.db := by
  obtain ⟨htidy, hkept⟩ := (Seats.step_did h).table
  have ht := htidy hs.addressed.tidy
  have hview : ∀ {n : ℕ} {v : Db}, s.view n = some v → Stays v s.db := by
    intro n v hv
    rcases List.mem_cons.mp (List.mem_of_getElem? hv) with rfl | hpast
    · exact Stays.refl _
    · exact hs.past v hpast
  cases a with
  | create_conversation =>
    rcases commit_cases h with rfl | ⟨v, k, db', hv, hok, rfl⟩
    · exact Or.inl rfl
    · exact Or.inr (hs.addressed.opened (hview hv) hgen hok)
  | invite =>
    rcases commit_cases h with rfl | ⟨v, u, db', hv, hok, rfl⟩
    · exact Or.inl rfl
    have hteam := invite_team hok
    obtain ⟨r, agent_id, session, c, inviter, -, haddr, -, -, -, rfl⟩ := invite_ok hok
    refine Or.inr (hs.addressed.seated ht hkept (FromTeam.upsert (reinvited_in_place _ _ _) (fun m hsome => ?_)
      (teamed_of_resolved (hview hv) haddr hteam) rfl))
    simp only [reinvited] at hsome
    split at hsome
    · cases hsome
    · exact hsome
  | join =>
    rcases commit_cases h with rfl | ⟨v, n, db', hv, hok, rfl⟩
    · exact Or.inl rfl
    obtain ⟨m, -, rfl, rfl⟩ := join_ok hok
    refine Or.inr (hs.addressed.seated ht hkept (((FromTeam.update (accepted_in_place _ _) fun m _ hm hsome => ?_).trans
      (FromTeam.update (superseded_in_place _ _) fun m _ _ hsome => Or.inl hsome)).trans
      (FromTeam.update (links_in_place fun _ => Or.inr rfl) fun m _ _ hsome => Or.inl hsome)))
    -- the caller's own seat is bound to its window
    rw [is_invitation, Bool.and_eq_true, at_address_iff] at hm
    simp only [home, Prod.mk.injEq] at hm
    rw [hm.1.2.1, hm.1.2.2]
    exact Or.inr (registered_of_genuine hgen hsome)
  | leave =>
    rcases commit_cases h with rfl | ⟨v, n, db', hv, hok, rfl⟩
    · exact Or.inl rfl
    obtain rfl := leave_ok hok
    exact Or.inr (hs.addressed.seated ht hkept
      (FromTeam.update (put_out_in_place _ _) fun m _ _ hsome => Or.inl hsome))
  | remove_member =>
    rcases commit_cases h with rfl | ⟨v, n, db', hv, hok, rfl⟩
    · exact Or.inl rfl
    obtain ⟨agent_id, session, m, -, -, -, -, rfl⟩ := remove_member_ok hok
    exact Or.inr (hs.addressed.seated ht hkept
      (FromTeam.update (put_out_in_place _ _) fun m _ _ hsome => Or.inl hsome))
  | transfer_membership =>
    rcases commit_cases h with rfl | ⟨v, q, db', hv, hok, rfl⟩
    · exact Or.inl rfl
    have hteam := transfer_membership_team hok
    obtain ⟨a, mine, m, session, -, -, -, -, -, -, -, -, -, rfl⟩ := transfer_membership_ok hok
    exact Or.inr (hs.addressed.seated ht hkept ((FromTeam.upsert (proposed_in_place _ _ _)
      (fun m hsome => absurd hsome (by simp [proposed])) (teamed_of_genuine hgen hteam) rfl).trans
      (FromTeam.update (links_in_place fun _ => Or.inl rfl) fun m _ _ hsome => Or.inl hsome)))
  | other db' => exact absurd hgen (by simp [seat_caller])

end Seating

/-! ## Messages -/

section Messages

variable {sha256 : String → String} {db db' : Db} {message_id : Uuid}

/-- A message goes to seats of its thread. -/
theorem Addressed.sent (h : Addressed db) (sha256 : String → String) (now : ℕ) (auth : AuthCtx)
    (c : Conversation) (input : SendInput) (body : String) {row : ConversationMessage}
    (hrow : row.id = message_id ∧ row.conversation_id = c.id)
    (hfresh : ∀ m ∈ db.conversation_messages, m.id ≠ message_id)
    (hmessages : db'.conversation_messages = Rows.insert_into row db.conversation_messages)
    (hrest : reached db' = reached (with_message sha256 now auth c input body message_id db) ∧
      db'.conversations = (with_message sha256 now auth c input body message_id db).conversations ∧
      db'.conversation_memberships = db.conversation_memberships ∧ db'.agents = db.agents ∧
      windows db' = windows db) : Stays db db' ∧ Addressed db' := by
  obtain ⟨hreached, hthreads, hseats, hagents, hwindows⟩ := hrest
  have hplaces : db'.conversations.map (fun c => (c.id, c.team_id)) =
      db.conversations.map fun c => (c.id, c.team_id) := by
    rw [hthreads]
    have hsame : (Rows.update (fun x => x.id == c.id) (fun x => { x with last_seq := x.last_seq + 1 })
        db.conversations).map (fun c => (c.id, c.team_id)) = db.conversations.map fun c => (c.id, c.team_id) :=
      map_key_update fun _ => rfl
    exact hsame
  have hstays : Stays db db' := by
    refine ⟨fun a t ha => ?_, fun x hx => ?_, fun a l hw => ?_⟩
    · unfold member_of at ha ⊢
      rw [hagents]
      exact ha
    · obtain ⟨x', hx', heq⟩ := of_map_eq hplaces.symm x hx
      exact ⟨x', hx', (Prod.mk.inj heq).1, (Prod.mk.inj heq).2⟩
    · unfold registered at hw ⊢
      rw [hwindows]
      exact hw
  refine ⟨hstays, h.same hseats hplaces ?_ (fun p hp => ?_) (by rw [hagents]; exact h.agents)
    (by rw [hwindows]; exact h.labels) hstays⟩
  · rw [Db.MessagesKeyed, hmessages]
    exact h.messages.insert_into fun m hm => by rw [hrow.1]; exact hfresh m hm
  · have hold : p ∈ reached db ∨ ∃ cm ∈ addressed auth c db, p = (message_id, cm.id) := by
      rw [hreached] at hp
      rcases List.mem_append.mp hp with hp | hp
      · simp only [with_message, List.map_append, List.mem_append, List.map_map] at hp
        rcases hp with hp | hp
        · exact Or.inl (List.mem_append_left _ hp)
        · obtain ⟨cm, hcm, rfl⟩ := List.mem_map.mp hp
          exact Or.inr ⟨cm, hcm, rfl⟩
      · simp only [with_message, List.map_append, List.mem_append, List.map_map] at hp
        rcases hp with hp | hp
        · exact Or.inl (List.mem_append_right _ hp)
        · obtain ⟨cm, hcm, rfl⟩ := List.mem_map.mp hp
          exact Or.inr ⟨cm, hcm, rfl⟩
    rw [hmessages]
    rcases hold with hp | ⟨cm, hcm, rfl⟩
    · obtain ⟨m, hm, hid, cm, hcm, hcmid, hhome⟩ := h.homes p hp
      exact ⟨m, mem_insert_into.mpr (Or.inl hm), hid, cm, hcm, hcmid, hhome⟩
    · simp only [addressed, List.mem_filter, Bool.and_eq_true, beq_iff_eq] at hcm
      exact ⟨row, mem_insert_into.mpr (Or.inr rfl), hrow.1, cm, hcm.1, rfl, hcm.2.1.1.1.trans hrow.2.symm⟩

theorem send_kept (h : Addressed db) {now : ℕ} {v : Db} {auth : AuthCtx} {id key : Uuid}
    {input : SendInput} {r : SentMessage}
    (hok : send sha256 now v auth id input message_id key db = .ok (r, db')) : Stays db db' ∧ Addressed db' := by
  rcases send_ok hok with rfl | ⟨c, body, -, -, -, hfresh, ⟨-, rfl⟩ | ⟨-, hqueued⟩⟩
  · exact ⟨Stays.refl _, h⟩
  · have hrow : (sent_row sha256 now auth c input body message_id).id = message_id ∧
        (sent_row sha256 now auth c input body message_id).conversation_id = c.id := ⟨rfl, rfl⟩
    exact h.sent sha256 now auth c input body hrow hfresh rfl ⟨rfl, rfl, rfl, rfl, rfl⟩
  · obtain rfl := enqueue_ok hqueued
    have hmarked := set_state_insert .pending_publication (sent_row sha256 now auth c input body message_id) hfresh
    exact h.sent sha256 now auth c input body ⟨rfl, rfl⟩ hfresh hmarked ⟨rfl, rfl, rfl, rfl, rfl⟩

end Messages

/-! ## Every step -/

section Steps

variable {sha256 : String → String} {s t : Seats.Sys} {db db' : Db}

/-- Deliveries change nothing else. -/
theorem delivers_kept (h : Addressed db) (hdel : Delivers db db') : Stays db db' ∧ Addressed db' := by
  obtain ⟨l, rfl⟩ := hdel
  exact ⟨⟨fun _ _ ha => ha, fun c hc => ⟨c, hc, rfl, rfl⟩, fun _ _ hw => hw⟩,
    ⟨h.tidy, h.messages, h.threads, h.agents, h.labels, h.homes, h.teams, h.bound⟩⟩

/-- Other parts of the server leave what messages are addressed to alone. -/
theorem other_kept (h : Addressed db) (hl : leaves_addresses db db' = true) :
    Stays db db' ∧ Addressed db' := by
  simp only [leaves_addresses, Bool.and_eq_true, beq_iff_eq, List.all_eq_true, List.contains_iff_mem, bne_iff_ne,
    decide_eq_true_eq] at hl
  obtain ⟨⟨⟨⟨⟨⟨⟨hseats, hreached⟩, hmessages⟩, hthreads⟩, hmembers⟩, hagents⟩, hwindows⟩, hlabels⟩ := hl
  have hstays : Stays db db' := by
    refine ⟨fun a t ha => ?_, fun x hx => ?_, fun a l hw => ?_⟩
    · simp only [member_of, List.any_eq_true, Bool.and_eq_true, beq_iff_eq] at ha ⊢
      obtain ⟨x, hx, hid, hteam⟩ := ha
      obtain ⟨y, hy, heq⟩ := List.mem_map.mp (hmembers _ (List.mem_map_of_mem hx))
      simp only [Prod.mk.injEq] at heq
      exact ⟨y, hy, heq.1.trans hid, heq.2.trans hteam⟩
    · obtain ⟨x', hx', heq⟩ := of_map_eq hthreads.symm x hx
      exact ⟨x', hx', (Prod.mk.inj heq).1, (Prod.mk.inj heq).2⟩
    · obtain ⟨w, hw, hat⟩ := List.any_eq_true.mp hw
      exact List.any_eq_true.mpr ⟨w, hwindows w hw, hat⟩
  have hids : db'.conversation_messages.map (fun m => m.id) = db.conversation_messages.map fun m => m.id := by
    have hfst := congrArg (List.map Prod.fst) hmessages
    rwa [List.map_map, List.map_map] at hfst
  refine ⟨hstays, h.same hseats hthreads ?_ (fun p hp => ?_) hagents hlabels hstays⟩
  · unfold Db.MessagesKeyed Keyed
    rw [hids]
    exact h.messages
  · rw [hreached] at hp
    obtain ⟨m, hm, hid, cm, hcm, hcmid, hhome⟩ := h.homes p hp
    obtain ⟨m', hm', heq⟩ := of_map_eq hmessages.symm m hm
    simp only [place_of, Prod.mk.injEq] at heq
    exact ⟨m', hm', heq.1.trans hid, cm, hcm, hcmid, hhome.trans heq.2.1.symm⟩

theorem Inv.after (hs : Inv s) (ps : List (Uuid × Uuid)) (h : Stays s.db db' ∧ Addressed db') :
    Inv (s.after db' ps) := by
  refine ⟨h.2, fun v hv => ?_⟩
  rcases List.mem_cons.mp hv with rfl | hv
  · exact h.1
  · exact (hs.past v hv).trans h.1

theorem Inv.commit {α : Type} {res : BusResult (α × Db)} (hs : Inv s)
    (h : ∀ a db', res = .ok (a, db') → Stays s.db db' ∧ Addressed db') : Inv (Sys.commit s res) := by
  unfold Sys.commit
  split
  · exact hs
  · rename_i a db'
    exact hs.after _ (h a db' rfl)

theorem Inv.step {a : Act} (hs : Inv s) (h : Rel (step sha256) s a t) : Inv t := by
  unfold Runs.Rel at h
  cases a with
  | seats a =>
    simp only [Reach.step] at h
    split at h
    · rename_i hgen
      rcases seats_kept hs hgen h with rfl | hkept
      · exact hs
      · rcases (Seats.step_did h).past with rfl | hpast
        · exact hs
        · refine ⟨hkept.2, fun v hv => ?_⟩
          rw [hpast] at hv
          rcases List.mem_cons.mp hv with rfl | hv
          · exact hkept.1
          · exact (hs.past v hv).trans hkept.1
    · cases h
  | send c =>
    simp only [Reach.step] at h
    split at h
    · cases h
    · rw [← Option.some.inj h]
      exact hs.commit fun r db' hok => send_kept hs.addressed hok
  | fetch seen now b answer auth limit =>
    simp only [Reach.step] at h
    split at h
    · cases h
    · split at h
      · rw [← Option.some.inj h]
        refine hs.commit fun _ db' hok => ?_
        obtain ⟨q, hq, heq⟩ := map_eq_ok.mp hok
        obtain rfl := (Prod.mk.inj heq).2
        exact delivers_kept hs.addressed (fetch_delivers hq)
      · cases h
  | other db' =>
    simp only [Reach.step] at h
    split at h
    · rename_i hl
      rw [← Option.some.inj h]
      exact hs.after _ (other_kept hs.addressed hl)
    · cases h

/-- Only a caller who is what it says it is fetches. -/
theorem genuine_of_fetch {seen now : ℕ} {b : Backends} {answer : BusResult (List InboxRef)} {auth : AuthCtx}
    {limit : Option ℤ} (h : Rel (step sha256) s (.fetch seen now b answer auth limit) t) :
    genuine auth s.db = true := by
  simp only [Runs.Rel, step] at h
  split at h
  · cases h
  · by_contra hnot
    rw [if_neg hnot] at h
    cases h

end Steps

/-! ## The law -/

section Law

variable {sha256 : String → String} {fetched : Backend → Locator → Uuid → Fetched}
  {tr : List (Trans Seats.Sys Act)} {t : Seats.Sys} {db : Db}

/-- **What is handed out can be read**, in every run whose fetches find what is outstanding
in reach. -/
theorem handed_out_is_readable (hdb : Addressed db)
    (hrun : Run (Rel (step sha256)) (Seats.Sys.start db) tr t)
    (hreach : ∀ e ∈ tr, in_reach e.pre e.act = true) : Readable fetched tr := by
  intro e he seen now b answer auth limit hact x hx
  have hstart : Inv (Seats.Sys.start db) := ⟨hdb, fun _ hv => absurd hv List.not_mem_nil⟩
  have hs : Inv e.pre := hrun.invariant_pre (C := fun _ _ => True) hstart (fun _ _ _ hs _ h => hs.step h)
    (fun _ _ => trivial) e he
  have hrel := hrun.rel e he
  have hin := hreach e he
  rw [hact] at hrel hin hx
  have hgen := genuine_of_fetch hrel
  simp only [handed] at hx
  split at hx
  · exact absurd hx List.not_mem_nil
  · split at hx
    · exact absurd hx List.not_mem_nil
    · rename_i hok
      exact handed_served hs.addressed hgen hin (fetch_handed hok x hx)

end Law

/-! ## Two runs -/

/-- A team of two, with no thread yet. -/
def crew : Db := pair .postgres

def bodiless (_ : Backend) (_ : Locator) (_ : Uuid) : Fetched := .gone

theorem crew_addressed : Addressed crew :=
  ⟨⟨by decide, by decide⟩, by decide, by decide, by decide, fun _ hw => absurd hw List.not_mem_nil,
    fun _ hp => absurd hp List.not_mem_nil, fun _ hm => absurd hm List.not_mem_nil,
    fun _ hm => absurd hm List.not_mem_nil⟩

/-- Ada opens a thread with Bob, who joins it, and writes to him. -/
def written : List Act :=
  [.seats (.create_conversation 0 0 ada ⟨none, true, ["bob"]⟩ 7 10 [11]), .seats (.join 0 0 bob 7),
    .send ⟨0, 0, ada, 7, ⟨"hello", 100, none⟩, 50, 0⟩]

def collects : Act := .fetch 0 0 nowhere (.ok []) bob none

theorem collected_run : (exec (step digest) (Seats.Sys.start crew) (written ++ [collects])).isSome = true := by
  decide

theorem collected_in_reach :
    ∀ e ∈ ((exec (step digest) (Seats.Sys.start crew) (written ++ [collects])).get collected_run).1,
      in_reach e.pre e.act = true := by
  decide

theorem handed_out_is_readable_collected : Readable bodiless
    ((exec (step digest) (Seats.Sys.start crew) (written ++ [collects])).get collected_run).1 :=
  handed_out_is_readable crew_addressed (exec_get collected_run) collected_in_reach

/-- Bob leaves, is invited again without the history, and joins. -/
def returned : List Act :=
  written ++ [.seats (.leave 0 0 bob 7), .seats (.invite 0 0 ada 7 "bob" none false 12),
    .seats (.join 0 0 bob 7), collects]

theorem returned_run : (exec (step digest) (Seats.Sys.start crew) returned).isSome = true := by decide

/-- He is handed the message from before he left, which he may not read. -/
theorem handed_out_unreadable : ¬ Readable bodiless
    ((exec (step digest) (Seats.Sys.start crew) returned).get returned_run).1 := by
  intro h
  have hlast : ∃ e ∈ ((exec (step digest) (Seats.Sys.start crew) returned).get returned_run).1,
      e.act = collects ∧ ∃ x ∈ handed e.pre e.act,
        (get_message bodiless e.pre.db e.pre.db e.pre.db bob x.message_id).isOk = false :=
    ⟨_, List.mem_of_getElem? (i := 6) rfl, rfl, by decide⟩
  obtain ⟨e, he, hact, x, hx, hrefused⟩ := hlast
  obtain ⟨m, -, -, -, -, y, hy⟩ := h e he 0 0 nowhere (.ok []) bob none hact x hx
  rw [hy] at hrefused
  exact absurd hrefused (by simp [Except.isOk, Except.toBool])

end CrewSync.Reach
