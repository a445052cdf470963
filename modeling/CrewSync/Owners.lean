/-
An owner's seat is only an owner's to change.

Invitations and removals ask it of the locked rows: who changes an owner's open seat holds
an owner's seat itself, or changes its own. A role is only given by an invitation, which
never makes an owner, and by a transfer, which hands over the role its source has at the
commit. A join changes a second seat: it closes the one its own was offered from. Where the
joiner takes an owner's seat that is the end of a transfer. But a seat keeps its
`transfer_from` when it is given up and offered again with another role, and the seat it
names may have become an owner's since; then whoever joins closes an owner's seat and owns
nothing. In the runs where no join does (`spares_owners`), owners are changed by owners.
-/
import CrewSync.Invitations

set_option autoImplicit false

namespace CrewSync.Owners

open Schema Rows Sessions Conversations
open Runs Seats Transfers
open Invitations (proposed_by_holder proposes_by_holder)

/-! ## The law -/

/-- The caller is in an owner's seat of the thread. -/
def owns (auth : AuthCtx) (id : Uuid) (db : Db) : Bool :=
  db.conversation_memberships.any fun m =>
    at_address id auth.agent_id auth.session m && m.role == .owner && m.state == .active

/-- An owner's seat that is taken, or waits. -/
def owners_open (m : ConversationMembership) : Bool := open_seat m && m.role == .owner

/-- The step opens a thread, and the seat is its creator's. -/
def founds (e : Trans Sys Act) (m : ConversationMembership) : Prop :=
  ∃ seen now auth input id seats, e.act = .create_conversation seen now auth input id m.id seats ∧
    home m = (id, auth.agent_id, auth.session)

/-- The caller of a step may change the seat: it is its own, or an owner's at the commit. -/
def MayChange (e : Trans Sys Act) (m : ConversationMembership) : Prop :=
  ∃ auth, seat_caller e.act = some auth ∧
    (at_address m.conversation_id auth.agent_id auth.session m = true ∨
      owns auth m.conversation_id e.post.db = true)

/-- Owners are only changed by owners. -/
structure OwnerLaw (tr : List (Trans Sys Act)) : Prop where
  changed : ∀ e ∈ tr, ∀ m ∈ e.pre.db.conversation_memberships, owners_open m = true →
    ∃ m' ∈ e.post.db.conversation_memberships, m'.id = m.id ∧
      (m'.role = m.role ∧ m'.state = m.state ∨ MayChange e m)
  gained : ∀ e ∈ tr, ∀ m' ∈ e.post.db.conversation_memberships, m'.role = .owner →
    (∃ m ∈ e.pre.db.conversation_memberships, m.id = m'.id ∧ m.role = .owner) ∨ founds e m' ∨
      ∃ p ∈ e.pre.db.conversation_memberships, p.role = .owner ∧ p.state = .active ∧
        proposed_by_holder m'.id p.id e

/-- No join of a seat that is not an owner's closes one that is. -/
def spares_owners (s : Sys) : Act → Bool
  | .join _ _ auth id =>
    (one (is_invitation auth id) s.db.conversation_memberships).all fun n => n.role == .owner ||
      s.db.conversation_memberships.all fun p => p.role != .owner || !is_predecessor auth id n.id s.db p
  | _ => true

/-! ## One seat -/

section Seats

variable {db : Db} {auth : AuthCtx} {id : Uuid} {m : ConversationMembership}
 

theorem owns_of_mem (hm : m ∈ db.conversation_memberships)
    (hat : at_address id auth.agent_id auth.session m = true) (hrole : m.role = .owner)
    (hactive : m.state = .active) : owns auth id db = true :=
  List.any_eq_true.mpr ⟨m, hm, by simp [hat, hrole, hactive]⟩

theorem owners_open_iff : owners_open m = true ↔ (m.state = .invited ∨ m.state = .active) ∧ m.role = .owner := by
  simp [owners_open, open_seat]

end Seats

/-! ## One step -/

section Steps

variable {s t : Sys} {a : Act} {m : ConversationMembership} {auth : AuthCtx} {id : Uuid} {m' : ConversationMembership}

/-- What a join makes of an owner's open seat. -/
theorem join_changes {now : ℕ} {v db' : Db} {n : Uuid} {seen : ℕ}
    (hs : Seats.Inv s) (hspares : spares_owners s (.join seen now auth id) = true)
    (hok : join now v auth id s.db = .ok (n, db')) (hm : m ∈ s.db.conversation_memberships)
    (hopen : owners_open m = true) :
    ∃ m' ∈ db'.conversation_memberships, m'.id = m.id ∧ (m'.role = m.role ∧ m'.state = m.state ∨
      at_address m.conversation_id auth.agent_id auth.session m = true ∨
        owns auth m.conversation_id db' = true) := by
  obtain ⟨x, hx, rfl, -⟩ := join_ok hok
  have htable := (join_table hok).1
  rw [after_join_eq] at htable
  have hafter : ∀ y ∈ s.db.conversation_memberships,
      seat_after_join now auth id x.id s.db.conversation_memberships y ∈ db'.conversation_memberships := by
    intro y hy
    rw [htable]
    exact List.mem_map_of_mem hy
  have hxin := mem_of_one hx
  have hxw := pos_of_one hx
  have hxat := hxw
  rw [is_invitation, Bool.and_eq_true] at hxat
  refine ⟨_, hafter m hm, ?_⟩
  by_cases hw : is_invitation auth id m = true
  · -- the seat that is taken is the caller's
    have hat := hw
    rw [is_invitation, Bool.and_eq_true] at hat
    obtain rfl := hs.tidy.home_eq hm hxin hat.1 hxat.1
    have hthread : m.conversation_id = id := (Prod.mk.inj (at_address_iff.mp hat.1)).1
    rw [seat_after_join_self hw, hthread]
    exact ⟨rfl, Or.inr (Or.inl hat.1)⟩
  · have hother : (seat_after_join now auth id x.id s.db.conversation_memberships m).id = m.id ∧
        (seat_after_join now auth id x.id s.db.conversation_memberships m).role = m.role ∧
        (is_predecessor auth id x.id s.db m = true ∨
          (seat_after_join now auth id x.id s.db.conversation_memberships m).state = m.state) :=
      seat_after_join_other (by simpa using hw)
    obtain ⟨hid, hrole, hpred | hstate⟩ := hother
    · -- the seat that is closed is an owner's, and so is the one taken
      rw [owners_open_iff] at hopen
      simp only [spares_owners, hx, Option.all_some, Bool.or_eq_true, beq_iff_eq, List.all_eq_true, bne_iff_ne,
        Bool.not_eq_true'] at hspares
      have howner : x.role = .owner := by
        rcases hspares with howner | hspared
        · exact howner
        · rcases hspared m hm with hne | hnot
          · exact absurd hopen.2 hne
          · rw [hpred] at hnot
            cases hnot
      have hthread : m.conversation_id = id := by
        simp only [is_predecessor, Bool.and_eq_true, beq_iff_eq] at hpred
        exact hpred.1.1.1.1.2
      have htaken := hafter x hxin
      rw [seat_after_join_self hxw] at htaken
      rw [hthread]
      exact ⟨hid, Or.inr (Or.inr (owns_of_mem htaken hxat.1 howner rfl))⟩
    · exact ⟨hid, Or.inl ⟨hrole, hstate⟩⟩

/-- A seat of an owner's own is changed by it, and another owner's where it still has one. -/
theorem change_by_owner {db : Db} {t' : List ConversationMembership}
    {x : ConversationMembership} (hx : seat_at id auth.agent_id auth.session db = some x)
    (hmod : moderates x = true) (howner : x.role = .owner) (hthread : m.conversation_id = id) (hkeep : x ≠ m → x ∈ t') :
    at_address m.conversation_id auth.agent_id auth.session m = true ∨
      owns auth m.conversation_id { db with conversation_memberships := t' } = true := by
  rw [hthread]
  have hat := pos_of_one hx
  by_cases hself : x = m
  · rw [← hself]
    exact Or.inl hat
  · exact Or.inr (owns_of_mem (hkeep hself) hat howner (moderates_active hmod))

/-- **One step changes an owner's open seat only for its holder, or for an owner.** -/
theorem Did.changed (hs : Seats.Inv s) (hspares : spares_owners s a = true) (h : Did s a t)
    (hm : m ∈ s.db.conversation_memberships) (hopen : owners_open m = true) :
    ∃ m' ∈ t.db.conversation_memberships, m'.id = m.id ∧
      (m'.role = m.role ∧ m'.state = m.state ∨ MayChange ⟨s, a, t⟩ m) := by
  have howner := owners_open_iff.mp hopen
  cases h with
  | refused => exact ⟨m, hm, rfl, Or.inl ⟨rfl, rfl⟩⟩
  | create_conversation hok =>
    obtain ⟨hopened, -, -⟩ := create_conversation_ok hok
    exact ⟨m, hopened.old m hm, rfl, Or.inl ⟨rfl, rfl⟩⟩
  | @invite seen now auth id k address role history_from_start u v db' hv hok =>
    obtain ⟨agent_id, session, inviter, haddr, hinviter, hmod, hallowed⟩ := invite_moderates hok
    obtain ⟨r, agent_id', session', c, inviter', -, haddr', -, hinviter', -, rfl⟩ := invite_ok hok
    rw [haddr] at haddr'
    obtain ⟨rfl, rfl⟩ := Prod.mk.inj (Except.ok.inj haddr')
    generalize granted_floor c.last_seq (seat_at id agent_id session s.db) history_from_start
      inviter'.history_from_seq = fl
    obtain ⟨m', hm', hid, ⟨-, rfl⟩ | ⟨hw, rfl⟩⟩ := through_upsert (p := at_address id agent_id session)
      (r := offered_row id agent_id session r fl auth.agent_id none k) (reinvited_in_place r fl auth.agent_id) hm
    · exact ⟨m', hm', rfl, Or.inl ⟨rfl, rfl⟩⟩
    · refine ⟨_, hm', hid, Or.inr ⟨auth, rfl, ?_⟩⟩
      have hthread : m.conversation_id = id := (Prod.mk.inj (at_address_iff.mp hw)).1
      rw [hs.tidy.seat_at_eq hm hw] at hallowed
      refine change_by_owner hinviter hmod (hallowed hopen) hthread fun hne => ?_
      -- the inviter's seat is another, and stays
      refine mem_upsert_of_not (mem_of_one hinviter) ?_
      by_contra hnot
      exact hne (hs.tidy.home_eq (mem_of_one hinviter) hm (by simpa using hnot) hw)
  | @join seen now auth id n v db' hok =>
    obtain ⟨m', hm', hid, hcases⟩ := join_changes hs hspares hok hm hopen
    refine ⟨m', hm', hid, hcases.imp_right fun hown => ⟨auth, rfl, hown⟩⟩
  | @leave seen now auth id n v db' hok =>
    obtain rfl := leave_ok hok
    obtain ⟨m', hm', hid, ⟨-, rfl⟩ | ⟨hw, rfl⟩⟩ :=
      through_update (p := is_open_at id auth.agent_id auth.session) (put_out_in_place .left now) hm
    · exact ⟨m', hm', rfl, Or.inl ⟨rfl, rfl⟩⟩
    · refine ⟨_, hm', hid, Or.inr ⟨auth, rfl, Or.inl ?_⟩⟩
      rw [is_open_at, Bool.and_eq_true] at hw
      have hthread : m.conversation_id = id := (Prod.mk.inj (at_address_iff.mp hw.1)).1
      rw [hthread]
      exact hw.1
  | @remove_member seen now auth id n address v db' hv hok =>
    obtain ⟨agent_id, session, caller, x, haddr, hother, hcaller, hmod, hx, hallowed⟩ :=
      remove_member_moderates hok
    obtain ⟨agent_id', session', x', haddr', -, -, -, rfl⟩ := remove_member_ok hok
    rw [haddr] at haddr'
    obtain ⟨rfl, rfl⟩ := Prod.mk.inj (Except.ok.inj haddr')
    obtain ⟨m', hm', hid, ⟨-, rfl⟩ | ⟨hw, rfl⟩⟩ :=
      through_update (p := is_open_at id agent_id session) (put_out_in_place .removed now) hm
    · exact ⟨m', hm', rfl, Or.inl ⟨rfl, rfl⟩⟩
    · refine ⟨_, hm', hid, Or.inr ⟨auth, rfl, ?_⟩⟩
      have hxw := pos_of_one hx
      rw [is_open_at, Bool.and_eq_true] at hw hxw
      obtain rfl := hs.tidy.home_eq (mem_of_one hx) hm hxw.1 hw.1
      have hthread : x.conversation_id = id := (Prod.mk.inj (at_address_iff.mp hw.1)).1
      refine change_by_owner hcaller hmod (hallowed howner.2) hthread fun hne => ?_
      refine mem_update_of_not (mem_of_one hcaller) ?_
      by_contra hnot
      rw [Bool.not_eq_false, is_open_at, Bool.and_eq_true] at hnot
      exact hne (hs.tidy.home_eq (mem_of_one hcaller) hm hnot.1 hw.1)
  | @transfer_membership seen now auth id k address q v db' hv hok =>
    obtain ⟨acc, mine, x, session, -, -, -, -, -, -, hrefused, -, -, rfl⟩ := transfer_membership_ok hok
    have hother := not_target hs.tidy hrefused hm (by rw [owners_open, Bool.and_eq_true] at hopen; exact hopen.1)
    have hm' : m ∈ upsert (at_address id auth.agent_id session) (proposed x.role x.history_from_seq mine.id)
        (offered_row id auth.agent_id session x.role x.history_from_seq auth.agent_id (some mine.id) k)
        s.db.conversation_memberships := mem_upsert_of_not hm hother
    obtain ⟨m', hin, hid, hsame⟩ := through_link (q := fun m => m.id == mine.id)
      (links_in_place fun _ => Or.inl rfl) (fun _ => ⟨rfl, rfl⟩) hm'
    exact ⟨m', hin, hid, Or.inl hsame⟩
  | other hsame =>
    simp only [leaves_seats, Bool.and_eq_true, beq_iff_eq] at hsame
    rw [Sys.after, hsame.1.1]
    exact ⟨m, hm, rfl, Or.inl ⟨rfl, rfl⟩⟩

theorem through_plain {tb : List ConversationMembership} {p : ConversationMembership → Bool}
    {f : ConversationMembership → ConversationMembership}
    (h : m' ∈ update p f tb) (hkeep : ∀ m, (f m).id = m.id ∧ (f m).role = m.role) :
    ∃ m ∈ tb, m.id = m'.id ∧ m.role = m'.role := by
  obtain ⟨m, hm, rfl⟩ := mem_update.mp h
  refine ⟨m, hm, ?_⟩
  split
  · exact ⟨(hkeep m).1.symm, (hkeep m).2.symm⟩
  · exact ⟨rfl, rfl⟩

/-- **One step makes an owner's seat only for a creator, or of an owner's.** -/
theorem Did.gained (hs : Seats.Inv s) (h : Did s a t) (hm' : m' ∈ t.db.conversation_memberships)
    (hrole : m'.role = .owner) :
    (∃ m ∈ s.db.conversation_memberships, m.id = m'.id ∧ m.role = .owner) ∨ founds ⟨s, a, t⟩ m' ∨
      ∃ p ∈ s.db.conversation_memberships, p.role = .owner ∧ p.state = .active ∧
        proposed_by_holder m'.id p.id ⟨s, a, t⟩ := by
  have hkept : (∃ m ∈ s.db.conversation_memberships, m.id = m'.id ∧ m.role = m'.role) →
      ∃ m ∈ s.db.conversation_memberships, m.id = m'.id ∧ m.role = .owner := by
    rintro ⟨m, hm, hid, hsame⟩
    exact ⟨m, hm, hid, hsame.trans hrole⟩
  cases h with
  | refused => exact Or.inl ⟨m', hm', rfl, hrole⟩
  | @create_conversation seen now auth input id k u seats v db' hok =>
    obtain ⟨-, hseats⟩ := create_conversation_seats hok
    rcases hseats m' hm' with hold | rfl | ⟨address, agent_id, session, n, -, rfl⟩
    · exact Or.inl ⟨m', hold, rfl, hrole⟩
    · exact Or.inr (Or.inl ⟨seen, now, auth, input, id, seats, rfl, rfl⟩)
    · exact absurd hrole (by simp [offered_row])
  | invite _ hok =>
    obtain ⟨r, agent_id, session, c, inviter, hr, -, -, -, -, rfl⟩ := invite_ok hok
    rcases mem_upsert hm' with ⟨b, hb, rfl⟩ | ⟨rfl, -⟩
    · split at hrole
      · exact absurd hrole (role_of_ok hr)
      · rename_i hw
        rw [if_neg hw]
        exact Or.inl ⟨b, hb, rfl, hrole⟩
    · exact absurd hrole (role_of_ok hr)
  | @join seen now auth id n v db' hok =>
    obtain ⟨x, -, rfl, rfl⟩ := join_ok hok
    obtain ⟨b, hb, hid, hsame⟩ := through_plain hm' fun _ => ⟨rfl, rfl⟩
    obtain ⟨c, hc, hid', hsame'⟩ := through_plain hb fun _ => ⟨rfl, rfl⟩
    obtain ⟨d, hd, hid'', hsame''⟩ := through_plain hc fun _ => ⟨rfl, rfl⟩
    exact Or.inl (hkept ⟨d, hd, (hid''.trans hid').trans hid, (hsame''.trans hsame').trans hsame⟩)
  | leave hok =>
    obtain rfl := leave_ok hok
    exact Or.inl (hkept (through_plain hm' fun _ => ⟨rfl, rfl⟩))
  | remove_member _ hok =>
    obtain ⟨agent_id, session, x, -, -, -, -, rfl⟩ := remove_member_ok hok
    exact Or.inl (hkept (through_plain hm' fun _ => ⟨rfl, rfl⟩))
  | @transfer_membership seen now auth id k address q v db' hv hok =>
    have hmade := hok
    obtain ⟨acc, mine, x, session, -, -, -, -, hx, hactive, -, hfresh, rfl, rfl⟩ := transfer_membership_ok hok
    obtain ⟨b, hb, hid, hsame⟩ := through_plain hm' fun _ => ⟨rfl, rfl⟩
    obtain ⟨hxin, hxid⟩ := hs.tidy.ids.one_iff.mp hx
    -- the seat that is offered takes the role its source has
    have hoffer : ∀ u : Sys, m'.id = ((seat_at id auth.agent_id session s.db).map fun t => t.id).getD k →
        b.role = x.role → ∃ p ∈ s.db.conversation_memberships, p.role = .owner ∧ p.state = .active ∧
          proposed_by_holder m'.id p.id ⟨s, .transfer_membership seen now auth id address k, u⟩ := by
      intro u hoffered hbrole
      refine ⟨x, hxin, (hbrole.symm.trans hsame).trans hrole, hactive, proposes_by_holder hs ?_⟩
      rw [hoffered, hxid]
      exact ⟨seen, now, auth, id, address, k, v, _, rfl, hv, hmade⟩
    rcases mem_upsert hb with ⟨y, hy, rfl⟩ | ⟨rfl, hnone⟩
    · by_cases hw : at_address id auth.agent_id session y = true
      · rw [if_pos hw] at hid hoffer
        refine Or.inr (Or.inr (hoffer _ ?_ rfl))
        rw [hs.tidy.seat_at_eq hy hw, ← hid]
        rfl
      · rw [if_neg hw] at hid hsame
        exact Or.inl (hkept ⟨y, hy, hid, hsame⟩)
    · refine Or.inr (Or.inr (hoffer _ ?_ rfl))
      rw [seat_at, one_eq_none.mpr hnone, ← hid]
      rfl
  | other hsame =>
    simp only [leaves_seats, Bool.and_eq_true, beq_iff_eq] at hsame
    rw [Sys.after, hsame.1.1] at hm'
    exact Or.inl ⟨m', hm', rfl, hrole⟩

end Steps

/-! ## The runs -/

section Law

variable {tr : List (Trans Sys Act)} {s : Sys} {db : Db}

/-- **Owners are only changed by owners**, in every run whose joins spare them. -/
theorem owners_change_owners (h₀ : Tidy db.conversation_memberships)
    (h : Run (Rel step) (Sys.start db) tr s) (hspares : ∀ e ∈ tr, spares_owners e.pre e.act = true) :
    OwnerLaw tr := by
  have hpre : ∀ e ∈ tr, Seats.Inv e.pre :=
    h.invariant_pre (C := fun _ _ => True) (start_inv h₀) (fun _ _ _ hs _ hr => hs.step hr) fun _ _ => trivial
  have hdid : ∀ e ∈ tr, Did e.pre e.act e.post := fun e he => step_did (h.rel e he)
  exact ⟨fun e he m hm hopen => Did.changed (hpre e he) (hspares e he) (hdid e he) hm hopen,
    fun e he m' hm' hrole => Did.gained (hpre e he) (hdid e he) hm' hrole⟩

end Law

theorem owners_change_owners_handover :
    OwnerLaw ((exec step (Sys.start crew) handover).get handover_run).1 :=
  owners_change_owners crew_tidy (exec_get handover_run) (by decide)

/-! ## An observer closes an owner's seat -/

/-- Ada makes her tablet a moderator, and offers her desk's seat to her laptop, which turns it
down. The tablet invites the laptop to observe, and it joins. -/
def observed : List Act :=
  [opens, .invite 0 0 (window "desk") 7 "ada/tab" (some "moderator") false 11, .join 0 0 (window "tab") 7,
    .transfer_membership 0 0 (window "desk") 7 "ada/lap" 12, .leave 0 0 (window "lap") 7,
    .invite 0 0 (window "tab") 7 "ada/lap" (some "observer") false 13, .join 0 0 (window "lap") 7]

theorem observed_run : (exec step (Sys.start crew) observed).isSome = true := by decide

/-- The desk's seat was the owner's, and the laptop never owned anything. -/
theorem observer_closes_owner : ¬ OwnerLaw ((exec step (Sys.start crew) observed).get observed_run).1 := by
  intro h
  have hlast : ∃ e ∈ ((exec step (Sys.start crew) observed).get observed_run).1,
      seat_caller e.act = some (window "lap") ∧ ∃ m ∈ e.pre.db.conversation_memberships,
        owners_open m = true ∧
        (∀ m' ∈ e.post.db.conversation_memberships, m'.id = m.id → m'.state ≠ m.state) ∧
        at_address m.conversation_id (window "lap").agent_id (window "lap").session m = false ∧
        owns (window "lap") m.conversation_id e.post.db = false :=
    ⟨_, List.mem_of_getElem? (i := 6) rfl, rfl, by decide⟩
  obtain ⟨e, he, hcaller, m, hm, hopen, hclosed, hown, howns⟩ := hlast
  obtain ⟨m', hm', hid, ⟨-, hstate⟩ | ⟨auth, hauth, hmay⟩⟩ := h.changed e he m hm hopen
  · exact hclosed m' hm' hid hstate
  · obtain rfl := Option.some.inj (hauth.symm.trans hcaller)
    rw [hown, howns] at hmay
    exact absurd hmay (by decide)

end CrewSync.Owners
