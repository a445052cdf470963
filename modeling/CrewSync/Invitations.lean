/-
Whose seat a join may close.

A seat names the proposal it came from in `transfer_from`, and a join closes the
seat named there. Three statements write the row: a transfer sets the column, a
join clears it, and an invitation leaves it alone. So do `leave` and
`remove_member`, which answer the proposal by ending the seat. As long as no
invitation is made for a seat that names a source, a seat that waits and names one
waits for the answer to that proposal (`Pending`), and a join closes nobody else.
When one is made, what is accepted is a moderator's invitation, and it closes the
seat of a proposal it has nothing to do with; the last section is that run.
-/
import CrewSync.Transfers

set_option autoImplicit false

namespace CrewSync.Invitations

open Schema Rows Sessions Conversations
open Runs Seats Transfers

/-! ## Proposals and their answers -/

/-- The holder of seat `p` proposes to hand it over to seat `n`. -/
def proposed_by_holder (n p : Uuid) (e : Trans Sys Act) : Prop :=
  ∃ seen now auth id address k v db' m, e.act = .transfer_membership seen now auth id address k ∧
    e.pre.view seen = some v ∧
    transfer_membership now v auth id address k e.pre.db = .ok ((n, p), db') ∧
    seat p e.pre.db = some m ∧ m.state = .active ∧ home m = (id, auth.agent_id, auth.session)

/-- Seat `k` waits for an answer. -/
def invited (k : Uuid) (db : Db) : Bool := (seat k db).any fun m => m.state == .invited

/-- The step invites the window of seat `n`. -/
def invites (n : Uuid) (e : Trans Sys Act) : Prop :=
  ∃ seen now auth id address role history_from_start k v u db' agent_id session m,
    e.act = .invite seen now auth id address role history_from_start k ∧ e.pre.view seen = some v ∧
    invite now v auth id address role history_from_start k e.pre.db = .ok (u, db') ∧
    resolve_address auth address v = .ok (agent_id, session) ∧
    seat_at id agent_id session e.pre.db = some m ∧ m.id = n

/-- The last thing that was proposed to seat `n` is seat `p`, by its holder, and the
seat has not been left, removed, taken or invited since. -/
def Unanswered (n p : Uuid) (tr : List (Trans Sys Act)) : Prop :=
  ∃ tr₀ d tr', tr = tr₀ ++ d :: tr' ∧ proposed_by_holder n p d ∧ invited n d.post.db = true ∧
    ∀ x ∈ tr', invited n x.post.db = true ∧ (∀ p', ¬ proposes n p' x) ∧ ¬ invites n x

/-- The step takes seat `n`. -/
def joins (n : Uuid) (e : Trans Sys Act) : Prop :=
  ∃ seen now auth id v db', e.act = .join seen now auth id ∧ e.pre.view seen = some v ∧
    join now v auth id e.pre.db = .ok (n, db')

/-- What state seat `k` is in. -/
def state (k : Uuid) (db : Db) : Option SeatState := (seat k db).map ConversationMembership.state

/-- The step does not invite an address whose seat names a source. -/
def offers_anew (s : Sys) : Act → Bool
  | .invite seen _ auth id address _ _ _ =>
    (s.view seen).all fun v =>
      match resolve_address auth address v with
      | .ok (agent_id, session) =>
        (seat_at id agent_id session s.db).all fun n => n.transfer_from.isNone
      | .error _ => true
  | _ => true

/-- What is waiting in `s` was proposed in the run `tr`, and never answered. -/
def Pending (tr : List (Trans Sys Act)) (s : Sys) : Prop :=
  ∀ n p m, seat n s.db = some m → m.state = .invited → m.transfer_from = some p → Unanswered n p tr

section Steps

variable {s t : Sys} {a : Act} {n p : Uuid} {m m' : ConversationMembership}

theorem invited_of (h : seat n s.db = some m) (hst : m.state = .invited) : invited n s.db = true := by
  rw [invited, h, Option.any_some, hst]
  rfl

/-- A transfer offers the seat of its caller. -/
theorem proposes_by_holder (hs : Seats.Inv s) (h : proposes n p ⟨s, a, t⟩) :
    proposed_by_holder n p ⟨s, a, t⟩ := by
  obtain ⟨seen, now, auth, id, address, k, v, db', hact, hv, hok⟩ := h
  obtain ⟨acc, mine, x, session, hacc, hmine, -, -, hone, hactive, -, -, hq, -⟩ :=
    transfer_membership_ok hok
  obtain ⟨hx, hid⟩ := hs.tidy.ids.one_iff.mp hone
  have hp : p = mine.id := congrArg Prod.snd hq
  refine ⟨seen, now, auth, id, address, k, v, db', x, hact, hv, hok, ?_, hactive,
    source_home hs hv hacc hmine hx hid⟩
  rw [hp]
  exact hone

/-- The seats after a transfer: the one offered names its source, the others wait for
what they waited for. -/
theorem seat_after_transfer {db : Db} {id agent_id k source : Uuid} {session : String} {role : Role}
    {fl : Option ℕ} (ht : Tidy db.conversation_memberships) (hfresh : (seat_at id agent_id session db).isSome = true ∨
      ∀ m ∈ db.conversation_memberships, m.id ≠ k) (h : one (fun m => m.id == n)
      (update (fun m => m.id == source) (fun m => { m with superseded_by := none })
        (upsert (at_address id agent_id session) (proposed role fl source)
          (offered_row id agent_id session role fl agent_id (some source) k)
          db.conversation_memberships)) = some m') :
    n = ((seat_at id agent_id session db).map fun t => t.id).getD k ∧
        m'.transfer_from = some source ∨
      n ≠ ((seat_at id agent_id session db).map fun t => t.id).getD k ∧
        ∃ m, seat n db = some m ∧ m'.state = m.state ∧ m'.transfer_from = m.transfer_from := by
  rw [lookup_update (links_in_place fun _ => Or.inl rfl)] at h
  obtain ⟨y, hy, rfl⟩ := Option.map_eq_some_iff.mp h
  have hkeep : (if (y.id == source) = true then { y with superseded_by := none } else y).state = y.state ∧
      (if (y.id == source) = true then { y with superseded_by := none } else y).transfer_from =
        y.transfer_from := by
    split <;> exact ⟨rfl, rfl⟩
  rw [hkeep.1, hkeep.2]
  cases htarget : seat_at id agent_id session db with
  | some z =>
    have hz := mem_of_one htarget
    have hzw := pos_of_one htarget
    have hany : db.conversation_memberships.any (at_address id agent_id session) = true :=
      List.any_eq_true.mpr ⟨z, hz, hzw⟩
    simp only [upsert, hany, if_true] at hy
    rw [lookup_update (proposed_in_place _ _ _)] at hy
    obtain ⟨x, hx, rfl⟩ := Option.map_eq_some_iff.mp hy
    obtain ⟨hxin, hxid⟩ := ht.ids.one_iff.mp hx
    by_cases hw : at_address id agent_id session x = true
    · left
      rw [ht.home_eq hz hxin hzw hw, if_pos hw]
      exact ⟨hxid.symm, rfl⟩
    · right
      rw [if_neg hw]
      refine ⟨fun hn => hw ?_, x, hx, rfl, rfl⟩
      rw [ht.ids.eq hxin hz (hxid.trans hn)]
      exact hzw
  | none =>
    have hnone := one_eq_none.mp htarget
    have hany : db.conversation_memberships.any (at_address id agent_id session) = false := by
      simpa using hnone
    have hnew : ∀ m ∈ db.conversation_memberships, m.id ≠ k :=
      hfresh.resolve_left (by rw [htarget]; decide)
    simp only [upsert, hany, Bool.false_eq_true, if_false, one_insert_into] at hy
    show n = k ∧ _ ∨ n ≠ k ∧ _
    cases hx : one (fun m => m.id == n) db.conversation_memberships with
    | some x =>
      rw [hx, Option.some_or, Option.some.injEq] at hy
      obtain ⟨hxin, hxid⟩ := ht.ids.one_iff.mp hx
      exact .inr ⟨fun hn => hnew x hxin (hxid.trans hn), x, hx, by rw [hy], by rw [hy]⟩
    | none =>
      rw [hx, Option.none_or, Option.ite_none_right_eq_some, Option.some.injEq] at hy
      left
      rw [← hy.2]
      exact ⟨(beq_iff_eq.mp hy.1).symm, rfl⟩

/-- A seat that waits and names a source was offered by this step's transfer, or
waited and named it before. -/
theorem pending_step (hs : Seats.Inv s) (hc : offers_anew s a = true) (h : step s a = some t)
    (hm' : seat n t.db = some m') (hst : m'.state = .invited) (hfrom : m'.transfer_from = some p) :
    proposes n p ⟨s, a, t⟩ ∨
      (∃ m, seat n s.db = some m ∧ m.state = .invited ∧ m.transfer_from = some p) ∧
        (∀ p', ¬ proposes n p' ⟨s, a, t⟩) ∧ ¬ invites n ⟨s, a, t⟩ := by
  have htidy := (hs.step h).tidy
  -- only a transfer proposes, only an invitation invites, and neither is refused
  have hnot : (∀ seen now auth id address k, a ≠ .transfer_membership seen now auth id address k) →
      ∀ p', ¬ proposes n p' ⟨s, a, t⟩ := by
    intro hne p' hprop
    obtain ⟨seen, now, auth, id, address, k, -, -, hact, -⟩ := hprop
    exact hne _ _ _ _ _ _ hact
  have hnever : (∀ seen now auth id address role from_start k, a ≠ .invite seen now auth id address role from_start k) →
      ¬ invites n ⟨s, a, t⟩ := by
    intro hne hinv
    obtain ⟨seen, now, auth, id, address, role, from_start, k, -, -, -, -, -, -, hact, -⟩ := hinv
    exact hne _ _ _ _ _ _ _ _ hact
  cases step_did h with
  | refused =>
    refine .inr ⟨⟨m', hm', hst, hfrom⟩, fun p' hprop => ?_, fun hinv => ?_⟩
    · obtain ⟨seen, now, auth, id, address, k, v, db', hact, hv, hok⟩ := hprop
      simp only at hact hv hok
      subst hact
      simp only [step, hv, Option.bind_eq_bind, Option.bind_some, Option.pure_def, Option.some.injEq,
        Sys.commit, hok] at h
      exact absurd (congrArg (fun u => u.past.length) h) (by simp [conclude, Sys.after])
    · obtain ⟨seen, now, auth, id, address, role, from_start, k, v, u, db', agent_id, session, m, hact, hv, hok, -⟩ :=
        hinv
      simp only at hact hv hok
      subst hact
      simp only [step, hv, Option.bind_eq_bind, Option.bind_some, Option.pure_def, Option.some.injEq,
        Sys.commit, hok] at h
      exact absurd (congrArg (fun u => u.past.length) h) (by simp [conclude, Sys.after])
  | create_conversation hok =>
    refine .inr ⟨?_, hnot (by simp), hnever (by simp)⟩
    obtain ⟨hopen, -, -⟩ := create_conversation_ok hok
    obtain ⟨hin, hid⟩ := (seat_iff htidy).mp hm'
    rcases hopen.fresh m' hin with hold | hnew
    · exact ⟨m', (seat_iff hs.tidy).mpr ⟨hold, hid⟩, hst, hfrom⟩
    · rw [hnew.2] at hfrom
      cases hfrom
  | @invite seen now auth id k address role from_start u v db' hv hok =>
    have hmade := hok
    obtain ⟨r, agent_id, session, c, inviter, -, haddr, -, -, -, rfl⟩ := invite_ok hok
    simp only [offers_anew, hv, Option.all_some, haddr] at hc
    -- a seat at the address names no source, before or after
    have hother : ∀ m, seat n s.db = some m → m.transfer_from = some p → at_address id agent_id session m = false := by
      intro m hm hsource
      by_contra hw
      rw [hs.tidy.seat_at_eq (mem_of_one hm) (by simpa using hw), Option.all_some, hsource] at hc
      cases hc
    have hwas : ∃ m, seat n s.db = some m ∧ m.state = .invited ∧ m.transfer_from = some p := by
      simp only [seat, Sys.after] at hm'
      unfold upsert at hm'
      split at hm'
      · rw [lookup_update (reinvited_in_place _ _ _)] at hm'
        obtain ⟨m, hm, rfl⟩ := Option.map_eq_some_iff.mp hm'
        have hsource : m.transfer_from = some p := by
          rw [← hfrom]
          split <;> rfl
        rw [hother m hm hsource] at hst
        exact ⟨m, hm, hst, hsource⟩
      · rw [one_insert_into] at hm'
        cases hm : one (fun m => m.id == n) s.db.conversation_memberships with
        | some m =>
          rw [hm, Option.some_or, Option.some.injEq] at hm'
          exact ⟨m', hm'.symm ▸ hm, hst, hfrom⟩
        | none =>
          rw [hm, Option.none_or, Option.ite_none_right_eq_some, Option.some.injEq] at hm'
          rw [← hm'.2] at hfrom
          exact absurd hfrom (by simp [offered_row])
    refine .inr ⟨hwas, hnot (by simp), fun hinv => ?_⟩
    obtain ⟨m, hm, -, hsource⟩ := hwas
    obtain ⟨_, _, _, _, _, _, _, _, v', _, _, agent_id', session', x, hact, hv', -, haddr', hx, hid⟩ := hinv
    simp only [Act.invite.injEq] at hact
    obtain ⟨rfl, rfl, rfl, rfl, rfl, rfl, rfl, rfl⟩ := hact
    obtain rfl := Option.some.inj (hv.symm.trans hv')
    obtain ⟨rfl, rfl⟩ := Prod.mk.inj (Except.ok.inj (haddr.symm.trans haddr'))
    have hxn : seat n s.db = some x := (seat_iff hs.tidy).mpr ⟨mem_of_one hx, hid⟩
    rw [Option.some.inj (hm.symm.trans hxn)] at hsource
    have hat := pos_of_one hx
    rw [hother x hxn hsource] at hat
    cases hat
  | join hok =>
    refine .inr ⟨?_, hnot (by simp), hnever (by simp)⟩
    rw [seat, Sys.after, (join_table hok).1, lookup_join] at hm'
    obtain ⟨m, hm, rfl⟩ := Option.map_eq_some_iff.mp hm'
    refine ⟨m, hm, ?_⟩
    simp only [seat_after_join] at hst hfrom
    -- a seat that is taken or closed does not wait
    split at hst <;> split at hst <;> split at hst <;>
      simp_all [accepted, superseded]
  | leave hok =>
    refine .inr ⟨?_, hnot (by simp), hnever (by simp)⟩
    rw [seat, Sys.after, leave_ok hok] at hm'
    simp only at hm'
    rw [lookup_update (put_out_in_place _ _)] at hm'
    obtain ⟨m, hm, rfl⟩ := Option.map_eq_some_iff.mp hm'
    split at hst
    · exact absurd hst (by simp [put_out])
    · rename_i hw
      rw [if_neg hw] at hfrom
      exact ⟨m, hm, hst, hfrom⟩
  | remove_member _ hok =>
    refine .inr ⟨?_, hnot (by simp), hnever (by simp)⟩
    obtain ⟨agent_id, session, x, -, -, -, -, rfl⟩ := remove_member_ok hok
    simp only [seat, Sys.after] at hm'
    rw [lookup_update (put_out_in_place _ _)] at hm'
    obtain ⟨m, hm, rfl⟩ := Option.map_eq_some_iff.mp hm'
    split at hst
    · exact absurd hst (by simp [put_out])
    · rename_i hw
      rw [if_neg hw] at hfrom
      exact ⟨m, hm, hst, hfrom⟩
  | other hsame =>
    refine .inr ⟨?_, hnot (by simp), hnever (by simp)⟩
    simp only [leaves_seats, Bool.and_eq_true, beq_iff_eq] at hsame
    rw [seat, Sys.after, hsame.1.1] at hm'
    exact ⟨m', hm', hst, hfrom⟩
  | @transfer_membership seen now auth id k address q v db' hv hok =>
    have hmade := hok
    obtain ⟨acc, mine, x, session, -, -, -, -, -, -, -, hfresh, rfl, rfl⟩ := transfer_membership_ok hok
    rcases seat_after_transfer hs.tidy hfresh hm' with ⟨hn, hsource⟩ | ⟨hn, m, hm, hsame, hlink⟩
    · left
      have hp : p = mine.id := Option.some.inj (hfrom.symm.trans hsource)
      rw [← hn, ← hp] at hmade
      exact ⟨seen, now, auth, id, address, k, v, _, rfl, hv, hmade⟩
    · refine .inr ⟨⟨m, hm, hsame.symm.trans hst, hlink.symm.trans hfrom⟩, ?_, hnever (by simp)⟩
      intro p' hprop
      obtain ⟨seen', now', auth', id', address', k', v', db'', hact, hv', hok'⟩ := hprop
      simp only [Act.transfer_membership.injEq] at hact
      obtain ⟨rfl, rfl, rfl, rfl, rfl, rfl⟩ := hact
      obtain rfl := Option.some.inj (hv.symm.trans hv')
      rw [hmade] at hok'
      simp only [Except.ok.injEq, Prod.mk.injEq] at hok'
      exact hn hok'.1.1.symm

/-- What waits after a step was proposed, and not answered. -/
theorem Pending.step {tr : List (Trans Sys Act)} (hs : Seats.Inv s) (hp : Pending tr s)
    (hc : offers_anew s a = true) (h : step s a = some t) : Pending (tr ++ [⟨s, a, t⟩]) t := by
  intro n p m' hm' hst hfrom
  have hwaits : invited n t.db = true := invited_of hm' hst
  rcases pending_step hs hc h hm' hst hfrom with hprop | ⟨⟨m, hm, hst', hfrom'⟩, hquiet⟩
  · exact ⟨tr, _, [], rfl, proposes_by_holder hs hprop, hwaits, fun x hx => absurd hx List.not_mem_nil⟩
  · obtain ⟨tr₀, d, tr', rfl, hd, hinv, hsince⟩ := hp n p m hm hst' hfrom'
    refine ⟨tr₀, d, tr' ++ [⟨s, a, t⟩], by simp, hd, hinv, fun x hx => ?_⟩
    rcases List.mem_append.mp hx with hx | hx
    · exact hsince x hx
    · rw [List.mem_singleton.mp hx]
      exact ⟨hwaits, hquiet⟩

/-- A join moves its own seat, and the one that seat names. -/
theorem join_closes {now : ℕ} {v db' : Db} {auth : AuthCtx} {id k : Uuid} (hs : Seats.Inv s)
    (hok : join now v auth id s.db = .ok (n, db')) (hk : k ≠ n) (hst : state k db' ≠ state k s.db) :
    ∃ m, seat n s.db = some m ∧ m.state = .invited ∧ m.transfer_from = some k := by
  obtain ⟨m, hone, hn, -⟩ := join_ok hok
  have hm := mem_of_one hone
  have hw := pos_of_one hone
  have hlookup : seat k db' =
      (seat k s.db).map (seat_after_join now auth id n s.db.conversation_memberships) := by
    rw [seat, (join_table hok).1, lookup_join]
    rfl
  have hinvited : m.state = .invited := by
    simp only [is_invitation, Bool.and_eq_true, beq_iff_eq] at hw
    exact hw.2
  refine ⟨m, (seat_iff hs.tidy).mpr ⟨hm, hn.symm⟩, hinvited, ?_⟩
  by_contra hother
  refine hst ?_
  rw [state, state, hlookup]
  cases hx : seat k s.db with
  | none => rfl
  | some x =>
    obtain ⟨hxin, hxid⟩ := (seat_iff hs.tidy).mp hx
    have hnot : is_invitation auth id x = false := by
      by_contra hinv
      simp only [Bool.not_eq_false, is_invitation, Bool.and_eq_true] at hinv
      have hw' := hw
      simp only [is_invitation, Bool.and_eq_true] at hw'
      exact hk (by rw [← hxid, hs.tidy.home_eq hxin hm hinv.1 hw'.1, hn])
    have hopen : is_predecessor auth id n (taken now auth id s.db.conversation_memberships) x = false := by
      by_contra hpred
      cases hfrom : m.transfer_from with
      | some p =>
        have hp := (is_predecessor_iff (x := x) hs.tidy hm hn.symm hw hfrom).mp (by simpa using hpred)
        exact hother (by rw [hfrom, ← hp.1, hxid])
      | none =>
        -- no row names a seat
        simp only [Bool.not_eq_false, is_predecessor, Bool.and_eq_true, List.any_eq_true,
          beq_iff_eq] at hpred
        obtain ⟨y, hy, hyid, hyfrom⟩ := hpred.1.1.1.1.1
        obtain ⟨z, hz, rfl⟩ := mem_update.mp hy
        have hzid : z.id = n := by
          rw [← hyid]
          split <;> rfl
        have hzfrom : z.transfer_from = some x.id := by
          rw [← hyfrom]
          split <;> rfl
        rw [hs.tidy.ids.eq hz hm (hzid.trans hn), hfrom] at hzfrom
        cases hzfrom
    simp only [Option.map_some, seat_after_join, hnot, Bool.false_eq_true, if_false, hopen]
    split <;> rfl

end Steps

/-! ## The law -/

/-- What joins promise of a run: one that moves another seat accepts the proposal
that seat's holder made, which no one has answered. -/
def JoinLaw (tr : List (Trans Sys Act)) : Prop :=
  ∀ tr₁ e tr₂ n k, tr = tr₁ ++ e :: tr₂ → joins n e → k ≠ n →
    state k e.post.db ≠ state k e.pre.db → Unanswered n k tr₁

section Law

variable {tr : List (Trans Sys Act)} {s : Sys} {db : Db}

/-- In a run, what waits was proposed in it. -/
theorem pending_run (h₀ : Tidy db.conversation_memberships)
    (hnone : ∀ m ∈ db.conversation_memberships, m.transfer_from = none)
    (h : Run (Rel step) (Sys.start db) tr s) (hC : ∀ e ∈ tr, offers_anew e.pre e.act = true) :
    Seats.Inv s ∧ Pending tr s := by
  induction h with
  | nil =>
    refine ⟨start_inv h₀, fun n p m hm _ hfrom => ?_⟩
    rw [hnone m (mem_of_one hm)] at hfrom
    cases hfrom
  | snoc _ hr ih =>
    obtain ⟨hinv, hpend⟩ := ih fun e he => hC e (List.mem_append_left _ he)
    have hc := hC _ (List.mem_append_right _ (List.mem_singleton.mpr rfl))
    exact ⟨hinv.step hr, hpend.step hinv hc hr⟩

/-- **A join closes no seat but the one whose holder proposed it**, in every run
in which no seat that names a source is invited. -/
theorem joins_accept_proposals (h₀ : Tidy db.conversation_memberships)
    (hnone : ∀ m ∈ db.conversation_memberships, m.transfer_from = none)
    (h : Run (Rel step) (Sys.start db) tr s) (hC : ∀ e ∈ tr, offers_anew e.pre e.act = true) :
    JoinLaw tr := by
  intro tr₁ e tr₂ n k htr hjoin hk hst
  subst htr
  obtain ⟨hrun, hr, -⟩ := h.split
  obtain ⟨hinv, hpend⟩ := pending_run h₀ hnone hrun fun x hx => hC x (List.mem_append_left _ hx)
  obtain ⟨seen, now, auth, id, v, db', hact, hv, hok⟩ := hjoin
  have hpost : e.post.db = db' := by
    rw [hact] at hr
    unfold Runs.Rel at hr
    simp only [step, hv, Option.bind_eq_bind, Option.bind_some, Option.pure_def, Option.some.injEq,
      Sys.commit, hok] at hr
    rw [← hr]
    rfl
  rw [hpost] at hst
  obtain ⟨m, hm, hinvited, hfrom⟩ := join_closes hinv hok hk hst
  exact hpend n k m hm hinvited hfrom

end Law

theorem joins_accept_proposals_handover :
    JoinLaw ((exec step (Sys.start crew) handover).get handover_run).1 :=
  joins_accept_proposals crew_tidy (by decide) (exec_get handover_run) (by decide)

/-! ## An invitation that closes a seat -/

/-- Ada proposes her desk's seat to her laptop, which turns it down by leaving.
Later she invites the laptop, as a participant of its own, and it accepts. -/
def invited_later : List Act :=
  [opens, .transfer_membership 0 0 (window "desk") 7 "ada/lap" 11, .leave 0 0 (window "lap") 7,
    .invite 0 0 (window "desk") 7 "ada/lap" none false 12, .join 0 0 (window "lap") 7]

theorem invited_later_run : (exec step (Sys.start crew) invited_later).isSome = true := by decide

/-- The run of the later invitation, and where it ends. -/
def invited_later_end : List (Trans Sys Act) × Sys :=
  (exec step (Sys.start crew) invited_later).get invited_later_run

/-- Whether a step is a transfer, and whether the laptop's seat waits after it. -/
def traits (e : Trans Sys Act) : Bool × Bool :=
  (match e.act with | .transfer_membership _ _ _ _ _ _ => true | _ => false, invited 11 e.post.db)

theorem traits_of_transfer {n p : Uuid} {e : Trans Sys Act} (h : proposed_by_holder n p e) : (traits e).1 = true := by
  obtain ⟨seen, now, auth, id, address, k, -, -, -, hact, -⟩ := h
  rw [traits, hact]

/-- Accepting the invitation closed the desk's seat, whose proposal was answered. -/
theorem invitation_closes_a_seat :
    Run (Rel step) (Sys.start crew) invited_later_end.1 invited_later_end.2 ∧
      state 10 invited_later_end.2.db = some .left ∧ ¬ JoinLaw invited_later_end.1 := by
  refine ⟨exec_get invited_later_run, by decide, fun hlaw => ?_⟩
  have hlast : ∃ e, invited_later_end.1 = invited_later_end.1.take 4 ++ [e] ∧ joins 11 e ∧
      state 10 e.post.db ≠ state 10 e.pre.db :=
    ⟨_, rfl, ⟨_, _, _, _, _, _, rfl, rfl, rfl⟩, by decide⟩
  obtain ⟨e, hsplit, hjoin, hst⟩ := hlast
  obtain ⟨tr₀, d, tr', htr, hd, -, hsince⟩ := hlaw _ e [] 11 10 hsplit hjoin (by decide) hst
  -- the transfer is the second step, and the third ends the seat
  have htraits : tr₀.map traits ++ traits d :: tr'.map traits =
      [(false, false), (true, true), (false, false), (false, true)] := by
    rw [← List.map_cons, ← List.map_append, ← htr]
    decide
  have hwaits : ∀ y ∈ tr'.map traits, y.2 = true := by
    intro y hy
    obtain ⟨x, hx, rfl⟩ := List.mem_map.mp hy
    exact (hsince x hx).1
  have htransfer := traits_of_transfer hd
  generalize tr₀.map traits = l₁ at htraits
  generalize tr'.map traits = l₂ at htraits hwaits
  generalize traits d = y at htraits htransfer
  rcases l₁ with _ | ⟨y₁, _ | ⟨y₂, _ | ⟨y₃, _ | ⟨y₄, l₁⟩⟩⟩⟩ <;>
    simp only [List.nil_append, List.cons_append, List.cons.injEq] at htraits
  · rw [htraits.1] at htransfer
    exact absurd htransfer (by decide)
  · rw [htraits.2.2] at hwaits
    exact absurd (hwaits _ List.mem_cons_self) (by decide)
  · rw [htraits.2.2.1] at htransfer
    exact absurd htransfer (by decide)
  · rw [htraits.2.2.2.1] at htransfer
    exact absurd htransfer (by decide)
  · exact absurd htraits.2.2.2.2 (by simp)

end CrewSync.Invitations
