/-
Whether what `activity` reports can be acted on.

`activity` counts the receipts of a seat that were not acknowledged. To be read and
acknowledged, a message takes more than a receipt: the team's conversations are on, the
caller's window is not fenced, the seat is the caller's (the agent's own token wears the
label of a window and does not sit in its seat), and the message is not deleted and comes
after where the seat's history begins. A receipt survives all of this: the seat may have
been given up and offered again from a later point.

A run is one of `Reach`, in which nothing else gives a receipt away.
-/
import CrewSync.Receipts
import CrewSync.ThreadViews

set_option autoImplicit false

namespace CrewSync.ActivityViews

open Error Schema Rows Sessions
open Conversations History Listing Receipts Runs
open Seats (commit_cases)
open Reach (Act)
open ThreadViews (access_iff readable_iff readable_of_messages)

/-! ## The system -/

/-- The message and the seat of a receipt. -/
def pair_of (r : MessageReceipt) : Uuid × Uuid := (r.message_id, r.membership_id)

section Steps

variable (sha256 : String → String)

/-- One step. No statement outside this system adds a receipt, deletes one, or gives it to
another seat. -/
def step (s : Seats.Sys) (a : Act) : Option Seats.Sys :=
  match a with
  | .other db' =>
    if db'.message_receipts.map pair_of == s.db.message_receipts.map pair_of then
      Reach.step sha256 s (.other db')
    else none
  | a => Reach.step sha256 s a

end Steps

/-! ## The receipts -/

section Receipts

variable {sha256 : String → String} {s t : Seats.Sys} {a : Act} {db db' : Db}

theorem step_reach (h : Rel (step sha256) s a t) : Rel (Reach.step sha256) s a t := by
  simp only [Runs.Rel, step] at h ⊢
  split at h
  · split at h
    · exact h
    · cases h
  · exact h

/-- A message that is sent is asked about once at each seat. -/
theorem keyed_send {now : ℕ} {v : Db} {auth : AuthCtx} {id message_id key : Uuid} {input : Send.SendInput}
    {r : Send.SentMessage} (hdb : Reach.Addressed db) (h : Keyed pair_of db.message_receipts)
    (hok : Send.send sha256 now v auth id input message_id key db = .ok (r, db')) :
    Keyed pair_of db'.message_receipts := by
  have hsent (c : Conversation) (body : String) (hfresh : ∀ m ∈ db.conversation_messages, m.id ≠ message_id) :
      Keyed pair_of (Send.with_message sha256 now auth c input body message_id db).message_receipts := by
    refine keyed_append.mpr ⟨h, ?_, fun x hx y hy heq => ?_⟩
    · unfold Keyed
      rw [List.map_map]
      have hseats : ((Send.addressed auth c db).map fun m => m.id).Nodup :=
        List.Nodup.sublist (List.Sublist.map _ List.filter_sublist) hdb.tidy.ids
      have hpairs : (Send.addressed auth c db).map
          (pair_of ∘ fun m => Send.receipt_row now (c.publication == .outbox) message_id m.id) =
          ((Send.addressed auth c db).map fun m => m.id).map fun k => (message_id, k) := by
        rw [List.map_map]
        rfl
      rw [hpairs]
      exact hseats.map fun _ _ heq => (Prod.mk.inj heq).2
    · -- a receipt there was is of a message there was
      obtain ⟨cm, -, rfl⟩ := List.mem_map.mp hy
      obtain ⟨m, hm, hid, -⟩ := hdb.homes (pair_of x)
        (List.mem_append_right _ (List.mem_map_of_mem (f := pair_of) hx))
      exact hfresh m hm (hid.trans (Prod.mk.inj heq).1)
  rcases Send.send_ok hok with rfl | ⟨c, body, -, -, -, hfresh, ⟨-, rfl⟩ | ⟨-, hqueued⟩⟩
  · exact h
  · exact hsent c body hfresh
  · obtain rfl := Send.enqueue_ok hqueued
    exact hsent c body hfresh

theorem keyed_step (hdb : Reach.Addressed s.db) (h : Keyed pair_of s.db.message_receipts)
    (hstep : Rel (step sha256) s a t) : Keyed pair_of t.db.message_receipts := by
  cases a with
  | seats a =>
    simp only [Runs.Rel, step, Reach.step] at hstep
    split at hstep
    · rename_i hgen
      obtain ⟨auth, hcaller, -⟩ := (Option.any_eq_true _ _).mp hgen
      rcases Seats.step_seats hstep hcaller with ⟨m, hm⟩ | ⟨now, v, input, id, k, seats, n, hok⟩
      · rw [hm]
        exact h
      · obtain ⟨⟨c, -, -, hdb'⟩, -⟩ := Seats.create_conversation_seats hok
        rw [hdb']
        exact h
    · cases hstep
  | send c =>
    simp only [Runs.Rel, step, Reach.step] at hstep
    split at hstep
    · cases hstep
    · obtain rfl := Option.some.inj hstep
      unfold Reach.Sys.commit
      split
      · exact h
      · exact keyed_send hdb h ‹_›
  | fetch seen now b answer auth limit =>
    simp only [Runs.Rel, step, Reach.step] at hstep
    split at hstep
    · cases hstep
    · split at hstep
      · obtain rfl := Option.some.inj hstep
        unfold Reach.Sys.commit
        split
        · exact h
        · rename_i hok
          obtain ⟨q, hq, heq⟩ := map_eq_ok.mp hok
          obtain ⟨l, hl⟩ := Inbox.fetch_delivers hq
          have hdb' := (Prod.mk.inj heq).2
          rw [hl] at hdb'
          rw [Seats.Sys.after, ← hdb']
          exact h
      · cases hstep
  | other db' =>
    simp only [Runs.Rel, step, Reach.step] at hstep
    split at hstep
    · rename_i hsame
      rw [beq_iff_eq] at hsame
      split at hstep
      · obtain rfl := Option.some.inj hstep
        unfold Keyed at h ⊢
        rw [← hsame] at h
        exact h
      · cases hstep
    · cases hstep

end Receipts

/-! ## What can be acted on -/

/-- The messages the seat was asked about and has not acknowledged. -/
def asked (m : ConversationMembership) (db : Db) : List Uuid :=
  (db.message_receipts.filter fun r => r.membership_id == m.id && r.acknowledged_at.isNone).map
    fun r => r.message_id

section Acting

variable (fetched : Backend → Locator → Uuid → Fetched)

/-- A message that is addressed to the seat and not acknowledged, which `get_message` serves
and `ack` accepts. -/
def acts_on (now : ℕ) (auth : AuthCtx) (m : ConversationMembership) (db : Db) (x : ConversationMessage) : Bool :=
  (asked m db).contains x.id && (get_message fetched db db db auth x.id).isOk &&
    (Receipts.ack now db auth x.id false none db).isOk

/-- What is reported of a thread can be acted on: the thread is read, and as many messages
as are counted are served and acknowledged. -/
def Actable (now : ℕ) (auth : AuthCtx) (db : Db) : Prop :=
  ∀ row ∈ activity auth db,
    (∃ r, read fetched db db db auth row.conversation_id none none = .ok r) ∧
    ∃ m ∈ db.conversation_memberships,
      at_address row.conversation_id auth.agent_id auth.session m = true ∧
        row.unacknowledged = db.conversation_messages.countP (acts_on fetched now auth m db)

end Acting

/-- A seat of the caller whose thread `activity` looks at. -/
def watched (auth : AuthCtx) (db : Db) (m : ConversationMembership) : Bool :=
  db.conversations.any fun c => c.team_id == auth.team_id && c.archived_at.isNone && watches auth db c m

/-- The team's conversations are on and the caller is not fenced; the seat is not bound to a
window the caller is not; and the message is not deleted, and comes after where the seat's
history begins. -/
def due (now : ℕ) (auth : AuthCtx) (m : ConversationMembership) (db : Db) (k : Uuid) : Bool :=
  (require_capability auth db).isOk && (guard now auth db).isOk &&
    (m.session_id.isNone || auth.session_id.isSome) &&
    (one (fun x => x.id == k && x.deleted_at.isNone) db.conversation_messages).any fun x =>
      m.history_from_seq.all fun f => f < x.seq

/-- No receipt outlived what it takes to answer it. -/
def in_hand (now : ℕ) (auth : AuthCtx) (db : Db) : Bool :=
  db.conversation_memberships.all fun m => !watched auth db m || (asked m db).all (due now auth m db)

section Acting

variable {fetched : Backend → Locator → Uuid → Fetched} {now : ℕ} {auth : AuthCtx} {db : Db}
  {c : Conversation} {m : ConversationMembership} {x : ConversationMessage}

theorem unacknowledged_eq : unacknowledged m db = (asked m db).length := by
  rw [asked, List.length_map]
  rfl

theorem mem_asked {k : Uuid} : k ∈ asked m db ↔
    ∃ r ∈ db.message_receipts, r.message_id = k ∧ r.membership_id = m.id ∧ r.acknowledged_at = none := by
  simp only [asked, List.mem_map, List.mem_filter, Bool.and_eq_true, beq_iff_eq, Option.isNone_iff_eq_none]
  constructor
  · rintro ⟨r, ⟨hr, hseat, hnone⟩, rfl⟩
    exact ⟨r, hr, rfl, hseat, hnone⟩
  · rintro ⟨r, hr, rfl, hseat, hnone⟩
    exact ⟨r, ⟨hr, hseat, hnone⟩, rfl⟩

/-- The messages a seat was asked about are of its thread, and each is one. -/
theorem asked_messages (hdb : Reach.Addressed db) (hm : m ∈ db.conversation_memberships) :
    ∀ k ∈ asked m db, ∃ x ∈ db.conversation_messages, x.id = k ∧ x.conversation_id = m.conversation_id := by
  intro k hk
  obtain ⟨r, hr, rfl, hseat, -⟩ := mem_asked.mp hk
  obtain ⟨x, hx, hid, cm, hcm, hcmid, hhome⟩ := hdb.homes (r.message_id, r.membership_id)
    (List.mem_append_right _ (List.mem_map_of_mem hr))
  obtain rfl := hdb.tidy.ids.eq hcm hm (hcmid.trans hseat)
  exact ⟨x, hx, hid, hhome.symm⟩

theorem asked_nodup (hkeyed : Keyed pair_of db.message_receipts) : (asked m db).Nodup := by
  have hfilter : Keyed pair_of
      (db.message_receipts.filter fun r => r.membership_id == m.id && r.acknowledged_at.isNone) :=
    List.Nodup.sublist (List.Sublist.map _ List.filter_sublist) hkeyed
  refine List.Nodup.map_on ?_ (List.Nodup.of_map _ hfilter)
  intro a ha b hb heq
  have hseat {r : MessageReceipt} (hr : r ∈ db.message_receipts.filter fun r =>
      r.membership_id == m.id && r.acknowledged_at.isNone) : r.membership_id = m.id := by
    have hr := (List.mem_filter.mp hr).2
    rw [Bool.and_eq_true, beq_iff_eq] at hr
    exact hr.1
  exact hfilter.eq ha hb (Prod.ext heq ((hseat ha).trans (hseat hb).symm))

theorem watched_iff : watched auth db m = true ↔ ∃ c ∈ db.conversations, c.team_id = auth.team_id ∧
    c.archived_at = none ∧ watches auth db c m = true := by
  simp only [watched, List.any_eq_true, Bool.and_eq_true, beq_iff_eq, Option.isNone_iff_eq_none, and_assoc]

/-- The lines of `activity` are those of the watched seats that were asked. -/
theorem mem_activity {row : ConversationActivity} : row ∈ activity auth db ↔
    ∃ c ∈ db.conversations, ∃ m ∈ db.conversation_memberships, c.team_id = auth.team_id ∧
      c.archived_at = none ∧ watches auth db c m = true ∧ 0 < unacknowledged m db ∧
      row = activity_row c db m := by
  simp only [activity, List.mem_filter, List.mem_flatMap, List.mem_reverse, mem_select, List.mem_map,
    Bool.and_eq_true, beq_iff_eq, Option.isNone_iff_eq_none, decide_eq_true_eq]
  constructor
  · rintro ⟨⟨c, ⟨hc, hteam, hopen⟩, m, ⟨hm, hw⟩, rfl⟩, hpos⟩
    exact ⟨c, hc, m, hm, hteam, hopen, hw, hpos, rfl⟩
  · rintro ⟨c, hc, m, hm, hteam, hopen, hw, hpos, rfl⟩
    exact ⟨⟨c, ⟨hc, hteam, hopen⟩, m, ⟨hm, hw⟩, rfl⟩, hpos⟩

/-- A seat that is watched lets its caller read, if it is the caller's. -/
theorem access_of_seat (hdb : Reach.Addressed db) (hc : c ∈ db.conversations)
    (hteam : c.team_id = auth.team_id) (hm : m ∈ db.conversation_memberships)
    (hw : watches auth db c m = true) (hbound : (m.session_id.isNone || auth.session_id.isSome) = true) :
    ∃ a, access auth c.id db = .ok a ∧ a.membership = some (membership_of m) ∧
      a.can_read_messages = true ∧ require_project_open auth c.id db = .ok () := by
  simp only [watches, Bool.and_eq_true, beq_iff_eq] at hw
  obtain ⟨⟨hat, hactive⟩, hopen⟩ := hw
  have hthread := hdb.thread hc hteam
  have hcallers : is_callers auth c.id m = true := by rw [is_callers, hat, hbound, Bool.and_self]
  have hseat := hdb.tidy.callers_eq hm hcallers
  have hagent : m.agent_id = auth.agent_id := (Prod.mk.inj (Prod.mk.inj (Seats.at_address_iff.mp hat)).2).1
  rw [hagent] at hopen
  refine ⟨_, access_iff.mpr ⟨c, hthread, rfl⟩, by rw [hseat]; rfl, ?_, ?_⟩
  · rw [Bool.or_eq_true, bne_iff_ne] at hopen
    refine Access.can_read_messages_of_active (by rw [hseat]; rfl) hactive fun hproject => ?_
    simpa using ⟨hproject, hopen.resolve_left fun h => h hproject⟩
  · simp only [require_project_open, bind_eq_ok, fetch_eq_ok, ensure_eq_ok]
    exact ⟨c, hthread, hopen⟩

theorem before_seat_eq {a : Access} (ha : a.membership = some (membership_of m)) (n : ℕ) :
    before_seat a n = !m.history_from_seq.all fun f => f < n := by
  rw [before_seat, Access.floor, ha, Option.bind_some, membership_of]
  cases m.history_from_seq with
  | none => rfl
  | some f =>
    rw [Option.any_some, Option.all_some, ← decide_not]
    exact decide_eq_decide.mpr Nat.not_lt.symm

theorem due_iff (hdb : Reach.Addressed db) (hx : x ∈ db.conversation_messages) :
    due now auth m db x.id = true ↔ require_capability auth db = .ok () ∧ guard now auth db = .ok () ∧
      (m.session_id.isNone || auth.session_id.isSome) = true ∧ x.deleted_at = none ∧
        (m.history_from_seq.all fun f => f < x.seq) = true := by
  have hfound (y : ConversationMessage) :
      one (fun z => z.id == x.id && z.deleted_at.isNone) db.conversation_messages = some y ↔
        y = x ∧ x.deleted_at = none := by
    constructor
    · intro hy
      have hkept := pos_of_one hy
      rw [Bool.and_eq_true, beq_iff_eq, Option.isNone_iff_eq_none] at hkept
      obtain rfl := hdb.messages.eq (mem_of_one hy) hx hkept.1
      exact ⟨rfl, hkept.2⟩
    · rintro ⟨rfl, hkept⟩
      exact Reach.message_found hdb (hdb.messages.one_iff.mpr ⟨hx, rfl⟩) hkept
  rw [due, Bool.and_eq_true, Bool.and_eq_true, Bool.and_eq_true, isOk_iff, isOk_iff, Option.any_eq_true,
    and_assoc, and_assoc]
  simp only [hfound, and_assoc, exists_eq_left]

section Seat

variable (hdb : Reach.Addressed db) (hm : m ∈ db.conversation_memberships) (hw : watches auth db c m = true)
  (hx : x ∈ db.conversation_messages) (hxc : x.conversation_id = c.id)

include hdb hm hw hx hxc

/-- Through a seat that is the caller's, what it was asked about is served and acknowledged. -/
theorem acts_on_of_due (hc : c ∈ db.conversations) (hteam : c.team_id = auth.team_id)
    (hasked : x.id ∈ asked m db) (hdue : due now auth m db x.id = true) :
    acts_on fetched now auth m db x = true := by
  obtain ⟨hcap, hguard, hbound, hkept, hsince⟩ := (due_iff hdb hx).mp hdue
  have hfind : one (fun y => y.id == x.id) db.conversation_messages = some x :=
    hdb.messages.one_iff.mpr ⟨hx, rfl⟩
  have hfound := Reach.message_found hdb hfind hkept
  obtain ⟨a, ha, hseat, hread, hopen⟩ := access_of_seat hdb hc hteam hm hw hbound
  have hreadable : readable auth x.conversation_id db = .ok a := by
    rw [hxc]
    exact readable_of_messages ha hread
  have hserved : ∃ y, get_message fetched db db db auth x.id = .ok y := by
    simp only [get_message, bind_eq_ok, fetch_eq_ok, ensure_eq_ok, pure_eq_ok]
    exact ⟨_, (), hcap, x, hfound, a, hreadable, (), ensure_eq_ok.mpr hread, (),
      by rw [before_seat_eq hseat, hsince]; rfl, rfl⟩
  have hacked : ∃ q, Receipts.ack now db auth x.id false none db = .ok q := by
    have hactive : m.state = .active := by
      simp only [watches, Bool.and_eq_true, beq_iff_eq] at hw
      exact hw.1.2
    have hmine : a.membership.filter (fun s => s.state == .active) = some (membership_of m) := by
      rw [hseat, Option.filter_some, if_pos (by simp [membership_of, hactive])]
    have hrow : db.message_receipts.any (is_asked x.id m.id db) = true := by
      obtain ⟨r, hr, hid, hmid, -⟩ := mem_asked.mp hasked
      refine List.any_eq_true.mpr ⟨r, hr, ?_⟩
      rw [is_asked, hid, hmid, beq_self_eq_true, beq_self_eq_true, Bool.true_and, Bool.true_and]
      exact List.any_eq_true.mpr ⟨m, hm, by simp [hactive]⟩
    rw [← hxc] at hopen
    simp only [Receipts.ack, bind_eq_ok, fetch_eq_ok, ensure_eq_ok, pure_eq_ok]
    exact ⟨_, (), hcap, x, hfind, a, hreadable, membership_of m, hmine, none, rfl, (), hguard, (), hopen, (),
      hrow, rfl⟩
  obtain ⟨y, hy⟩ := hserved
  obtain ⟨q, hq⟩ := hacked
  rw [acts_on, List.contains_iff_mem.mpr hasked, hy, hq]
  rfl

/-- What is served and acknowledged is answered through the seat. -/
theorem due_of_acts_on (h : acts_on fetched now auth m db x = true) : due now auth m db x.id = true := by
  rw [acts_on, Bool.and_eq_true, Bool.and_eq_true, isOk_iff_exists, isOk_iff_exists] at h
  obtain ⟨⟨-, y, hy⟩, ⟨k, db'⟩, hack⟩ := h
  simp only [get_message, bind_eq_ok, fetch_eq_ok, ensure_eq_ok, pure_eq_ok] at hy
  obtain ⟨_, hcap, y, hfound, a, ha, _, -, _, hafter, -⟩ := hy
  have hkept := pos_of_one hfound
  rw [Bool.and_eq_true, beq_iff_eq, Option.isNone_iff_eq_none] at hkept
  obtain rfl := hdb.messages.eq (mem_of_one hfound) hx hkept.1
  obtain ⟨z, a', mine, _, _, hz, ha', hmine, -, -, hguard, -⟩ := ack_ok hack
  obtain rfl := Option.some.inj (hz.symm.trans (hdb.messages.one_iff.mpr ⟨hx, rfl⟩))
  obtain rfl := Except.ok.inj (ha.symm.trans ha')
  -- the seat the caller is let in by is this one
  obtain ⟨hacc, -⟩ := readable_iff.mp ha
  obtain ⟨c', -, rfl⟩ := access_iff.mp hacc
  obtain ⟨m', hm', -⟩ := Option.map_eq_some_iff.mp hmine
  have hcallers := pos_of_one hm'
  rw [is_callers, Bool.and_eq_true, hxc] at hcallers
  simp only [watches, Bool.and_eq_true] at hw
  obtain rfl := hdb.tidy.home_eq (mem_of_one hm') hm hcallers.1 hw.1.1
  rw [before_seat_eq (by rw [hm', Option.map_some]), Bool.not_not] at hafter
  exact (due_iff hdb hx).mpr ⟨hcap, hguard, hcallers.2, hkept.2, hafter⟩

end Seat

/-- As many messages are asked about as have a receipt. -/
theorem unacknowledged_eq_countP (hdb : Reach.Addressed db) (hkeyed : Keyed pair_of db.message_receipts)
    (hm : m ∈ db.conversation_memberships) :
    unacknowledged m db = db.conversation_messages.countP fun x => (asked m db).contains x.id := by
  rw [unacknowledged_eq, hdb.messages.countP_contains (asked_nodup hkeyed)]
  intro k hk
  obtain ⟨x, hx, hid, -⟩ := asked_messages hdb hm k hk
  exact ⟨x, hx, hid⟩

/-- As many are served and acknowledged as are asked about when each of these is. -/
theorem unacknowledged_eq_iff (hdb : Reach.Addressed db) (hkeyed : Keyed pair_of db.message_receipts)
    (hm : m ∈ db.conversation_memberships) :
    unacknowledged m db = db.conversation_messages.countP (acts_on fetched now auth m db) ↔
      ∀ x ∈ db.conversation_messages, x.id ∈ asked m db → acts_on fetched now auth m db x = true := by
  rw [unacknowledged_eq_countP hdb hkeyed hm, List.countP_eq_length_filter, List.countP_eq_length_filter]
  have hsub : db.conversation_messages.filter (acts_on fetched now auth m db) =
      (db.conversation_messages.filter fun x => (asked m db).contains x.id).filter
        (acts_on fetched now auth m db) := by
    rw [List.filter_filter]
    refine List.filter_congr fun x _ => ?_
    rw [acts_on, Bool.and_assoc, Bool.and_right_comm, Bool.and_self]
  rw [hsub, eq_comm, List.length_filter_eq_length_iff]
  simp only [List.mem_filter, List.contains_iff_mem, and_imp]

theorem in_hand_iff : in_hand now auth db = true ↔ ∀ m ∈ db.conversation_memberships,
    watched auth db m = true → ∀ k ∈ asked m db, due now auth m db k = true := by
  simp only [in_hand, List.all_eq_true, Bool.or_eq_true, Bool.not_eq_true', or_iff_not_imp_left, Bool.not_eq_false]

/-- **A caller can act on what is reported to it exactly when no receipt outlived what it
takes to answer it.** -/
theorem actable_iff (hdb : Reach.Addressed db) (hkeyed : Keyed pair_of db.message_receipts) :
    Actable fetched now auth db ↔ in_hand now auth db = true := by
  rw [in_hand_iff]
  constructor
  · intro h m hm hwatched k hk
    obtain ⟨c, hc, hteam, hopen, hw⟩ := watched_iff.mp hwatched
    have hat := hw
    simp only [watches, Bool.and_eq_true] at hat
    have hpos : 0 < unacknowledged m db := by
      rw [unacknowledged_eq]
      exact List.length_pos_of_mem hk
    obtain ⟨-, m', hm', hat', hcount⟩ := h (activity_row c db m)
      (mem_activity.mpr ⟨c, hc, m, hm, hteam, hopen, hw, hpos, rfl⟩)
    obtain rfl := hdb.tidy.home_eq hm' hm hat' hat.1.1
    obtain ⟨x, hx, rfl, hxm⟩ := asked_messages hdb hm k hk
    have hxc : x.conversation_id = c.id := hxm.trans (Prod.mk.inj (Seats.at_address_iff.mp hat.1.1)).1
    exact due_of_acts_on hdb hm hw hx hxc ((unacknowledged_eq_iff hdb hkeyed hm).mp hcount x hx hk)
  · intro h row hrow
    obtain ⟨c, hc, m, hm, hteam, hopen, hw, hpos, rfl⟩ := mem_activity.mp hrow
    have hall := h m hm (watched_iff.mpr ⟨c, hc, hteam, hopen, hw⟩)
    have hat := hw
    simp only [watches, Bool.and_eq_true] at hat
    have hthread : m.conversation_id = c.id := (Prod.mk.inj (Seats.at_address_iff.mp hat.1.1)).1
    constructor
    · -- what lets its caller answer one message lets it read
      rw [unacknowledged_eq] at hpos
      obtain ⟨k, hk⟩ := List.exists_mem_of_length_pos hpos
      obtain ⟨x, hx, rfl, -⟩ := asked_messages hdb hm k hk
      obtain ⟨hcap, -, hbound, -⟩ := (due_iff hdb hx).mp (hall x.id hk)
      obtain ⟨a, ha, -, hread, -⟩ := access_of_seat hdb hc hteam hm hw hbound
      have hreadable := readable_of_messages ha hread
      simp only [History.read, require_accepted, bind_eq_ok, ensure_eq_ok, pure_eq_ok]
      exact ⟨_, (), hcap, a, hreadable, (), hread, a, hreadable, (), hread, rfl⟩
    · refine ⟨m, hm, hat.1.1, (unacknowledged_eq_iff hdb hkeyed hm).mpr fun x hx hasked => ?_⟩
      obtain ⟨y, hy, hid, hym⟩ := asked_messages hdb hm x.id hasked
      obtain rfl := hdb.messages.eq hy hx hid
      exact acts_on_of_due hdb hm hw hx (hym.trans hthread) hc hteam hasked (hall y.id hasked)

end Acting

section Law

variable {sha256 : String → String} {db : Db} {t : Seats.Sys} {tr : List (Trans Seats.Sys Act)}

/-- **In every state of every run, a caller can act on what is reported to it exactly when
no receipt outlived what it takes to answer it.** -/
theorem activity_can_be_acted_on (fetched : Backend → Locator → Uuid → Fetched) (hdb : Reach.Addressed db)
    (hkeyed : Keyed pair_of db.message_receipts) (hrun : Run (Rel (step sha256)) (Seats.Sys.start db) tr t)
    (now : ℕ) (auth : AuthCtx) : Actable fetched now auth t.db ↔ in_hand now auth t.db = true := by
  have hstart : Reach.Inv (Seats.Sys.start db) :=
    ⟨hdb, fun v hv => absurd hv List.not_mem_nil⟩
  obtain ⟨hs, hk⟩ := hrun.invariant' (I := fun s => Reach.Inv s ∧ Keyed pair_of s.db.message_receipts)
    ⟨hstart, hkeyed⟩ fun s a u hs h => ⟨hs.1.step (step_reach h), keyed_step hs.1.addressed hs.2 h⟩
  exact actable_iff hs.addressed hk

end Law

/-! ### A seat taken again -/

/-- Bob, with one message of Ada to answer. -/
theorem written_run : (exec (step Crew.digest) (Seats.Sys.start Reach.crew) Reach.written).isSome = true := by
  decide

/-- The state then. -/
def waiting : Seats.Sys :=
  ((exec (step Crew.digest) (Seats.Sys.start Reach.crew) Reach.written).get written_run).2

theorem activity_can_be_acted_on_written : activity Crew.bob waiting.db = [⟨7, 1, 1⟩] ∧
    (Actable Reach.bodiless 0 Crew.bob waiting.db ↔ in_hand 0 Crew.bob waiting.db = true) :=
  ⟨by decide,
    activity_can_be_acted_on Reach.bodiless Reach.crew_addressed (by decide) (exec_get written_run) 0 Crew.bob⟩

/-- Bob leaves, is invited again without the history, and joins. -/
def returned : List Act :=
  Reach.written ++ [.seats (.leave 0 0 Crew.bob 7),
    .seats (.invite 0 0 Crew.ada 7 "bob" none false 12), .seats (.join 0 0 Crew.bob 7)]

theorem returned_run : (exec (step Crew.digest) (Seats.Sys.start Reach.crew) returned).isSome = true := by
  decide

/-- The state then. -/
def rejoined : Seats.Sys :=
  ((exec (step Crew.digest) (Seats.Sys.start Reach.crew) returned).get returned_run).2

/-- He is told of a message to answer, which he may not read. -/
theorem activity_out_of_reach : ∃ tr, Run (Rel (step Crew.digest)) (Seats.Sys.start Reach.crew) tr rejoined ∧
    activity Crew.bob rejoined.db = [⟨7, 1, 1⟩] ∧
    (get_message Reach.bodiless rejoined.db rejoined.db rejoined.db Crew.bob 50).isOk = false ∧
    ¬ Actable Reach.bodiless 0 Crew.bob rejoined.db := by
  refine ⟨_, exec_get returned_run, by decide, by decide, fun h => ?_⟩
  obtain ⟨-, m, hm, -, hcount⟩ := h ⟨7, 1, 1⟩ (by decide)
  have hnone : ∀ m ∈ rejoined.db.conversation_memberships, rejoined.db.conversation_messages.countP
      (acts_on Reach.bodiless 0 Crew.bob m rejoined.db) = 0 := by
    decide
  exact absurd (hcount.trans (hnone m hm)) Nat.one_ne_zero

end CrewSync.ActivityViews
