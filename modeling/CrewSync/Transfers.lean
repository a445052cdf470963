/-
Handing a seat over: that a transfer moves one seat and makes none.

A proposal and its acceptance are two transactions. The invariant is about the
proposals that stand, that is, whose source has been active ever since: the seat
offered still names its source, sits in the same thread under the same agent, and
gives no more than the source has. Accepting one of these closes its source and
changes no other seat (`exchange`).

The tables do not say which proposals stand, and two statements act as if they
did. `join` accepts whatever `transfer_from` is set, and when the source has left,
been removed or been handed over meanwhile, `supersede_predecessor` matches
nothing and the seat is taken anyway. And an invitation to either of the two seats
writes a role, or a history boundary, without looking at the proposal. The law
holds of the runs in which neither happens (`heeds_proposals`); the last section
is a run in which one window's seat becomes two.
-/
import CrewSync.Seats

set_option autoImplicit false

namespace CrewSync.Transfers

open Schema Rows Sessions Conversations
open Runs Seats

/-! ## Roles in order -/

/-- The roles by what they may do. -/
def rank : Role → ℕ
  | .observer => 0
  | .participant => 1
  | .moderator => 2
  | .owner => 3

theorem moderates_active {m : ConversationMembership} (h : moderates m = true) : m.state = .active := by
  simp only [moderates, Bool.and_eq_true, beq_iff_eq] at h
  exact h.1

/-! ## What the proposals that stand rely on -/

/-- `n` is offered the seat of `p`. -/
structure Offers (n p : ConversationMembership) : Prop where
  transfer_from : n.transfer_from = some p.id
  thread : n.conversation_id = p.conversation_id
  agent : n.agent_id = p.agent_id
  distinct : n.id ≠ p.id
  current : p.state = .active → p.superseded_by = none
  role : rank n.role ≤ rank p.role
  history : floor p ≤ floor n

/-- The seats of `q` are in the table, and the first is offered the second. -/
def Links (t : List ConversationMembership) (q : Uuid × Uuid) : Prop :=
  ∃ n ∈ t, ∃ p ∈ t, n.id = q.1 ∧ p.id = q.2 ∧ Offers n p

/-- An invitation to an address, giving role `r` and, where it offers the seat
again, history from `fl`: it gives the seat of a standing proposal no more than
its source has, and leaves the source no less than it proposed. -/
def respects (db : Db) (id agent_id : Uuid) (session : String) (r : Role) (fl : Option ℕ)
    (q : Uuid × Uuid) : Bool :=
  (seat q.1 db).all fun n => (seat q.2 db).all fun p =>
    (!at_address id agent_id session n ||
      rank r ≤ rank p.role && (!ended n || floor p ≤ fl.getD 0)) &&
    (!at_address id agent_id session p || rank n.role ≤ rank r)

/-- The step heeds the proposals: a join that finds `transfer_from` set finds a
proposal that stands, and an invitation respects those that do. -/
def heeds_proposals (s : Sys) : Act → Bool
  | .join _ _ auth id =>
    (one (is_invitation auth id) s.db.conversation_memberships).all fun n =>
      n.transfer_from.all fun p => s.proposals.contains (n.id, p)
  | .invite seen _ auth id address role history_from_start _ =>
    (s.view seen).all fun v =>
      match resolve_address auth address v, role_of role with
      | .ok (agent_id, session), .ok r =>
        s.proposals.all (respects s.db id agent_id session r
          (offers_from auth id agent_id session history_from_start s.db))
      | _, _ => true
  | _ => true

/-- The invariant: every proposal that stands links two seats, the source's
active. -/
structure Standing (s : Sys) : Prop where
  seats : Seats.Inv s
  links : ∀ q ∈ s.proposals, Links s.db.conversation_memberships q ∧ active q.2 s.db = true

section Links

variable {t : List ConversationMembership} {q : Uuid × Uuid} {w : ConversationMembership → Bool}
  {f : ConversationMembership → ConversationMembership} {r : ConversationMembership}

theorem Links.insert_into (h : Links t q) : Links (insert_into r t) q := by
  obtain ⟨n, hn, p, hp, hids⟩ := h
  exact ⟨n, mem_insert_into.mpr (Or.inl hn), p, mem_insert_into.mpr (Or.inl hp), hids⟩

theorem Links.update (h : Links t q) (hf : InPlace f) (hnew : ∀ n ∈ t, ∀ p ∈ t, n.id = q.1 → p.id = q.2 → Offers n p →
      Offers (if w n then f n else n) (if w p then f p else p)) : Links (update w f t) q := by
  obtain ⟨n, hn, p, hp, hn₁, hp₁, hoff⟩ := h
  have hid : ∀ m, (if w m then f m else m).id = m.id := by
    intro m
    split
    · exact (hf.same m).1
    · rfl
  exact ⟨_, mem_update_of_mem hn, _, mem_update_of_mem hp, (hid n).trans hn₁, (hid p).trans hp₁,
    hnew n hn p hp hn₁ hp₁ hoff⟩

/-- A statement that leaves roles and boundaries alone, the offered seat's link,
and a source it closes or clears. -/
theorem Links.update_quiet (h : Links t q) (hf : InPlace f)
    (hrole : ∀ m, (f m).role = m.role ∧ (f m).history_from_seq = m.history_from_seq)
    (hlink : ∀ m ∈ t, w m = true → m.id = q.1 → (f m).transfer_from = m.transfer_from)
    (hcur : ∀ m ∈ t, w m = true → m.id = q.2 → (f m).state = .active → (f m).superseded_by = none) :
    Links (Rows.update w f t) q := by
  refine h.update hf fun n hn p hp hn₁ hp₁ hoff => ?_
  have hsame : ∀ m, Same m (if w m then f m else m) := by
    intro m
    split
    · exact hf.same m
    · exact Same.refl m
  have hkeep : ∀ m, (if w m then f m else m).role = m.role ∧
      floor (if w m then f m else m) = floor m := by
    intro m
    unfold floor
    split
    · exact ⟨(hrole m).1, by rw [(hrole m).2]⟩
    · exact ⟨rfl, rfl⟩
  obtain ⟨hnid, hnhome⟩ := hsame n
  obtain ⟨hpid, hphome⟩ := hsame p
  simp only [home, Prod.mk.injEq] at hnhome hphome
  refine ⟨?_, ?_, ?_, ?_, ?_, ?_, ?_⟩
  · rw [hpid, ← hoff.transfer_from]
    split
    · rename_i hw
      exact hlink n hn hw hn₁
    · rfl
  · rw [hnhome.1, hphome.1]
    exact hoff.thread
  · rw [hnhome.2.1, hphome.2.1]
    exact hoff.agent
  · rw [hnid, hpid]
    exact hoff.distinct
  · intro hact
    split at hact
    · rename_i hw
      rw [if_pos hw]
      exact hcur p hp hw hp₁ hact
    · rename_i hw
      rw [if_neg hw]
      exact hoff.current hact
  · rw [(hkeep n).1, (hkeep p).1]
    exact hoff.role
  · rw [(hkeep n).2, (hkeep p).2]
    exact hoff.history

/-- A statement that matches neither of the two seats. -/
theorem Links.update_elsewhere (h : Links t q)
    (hn : ∀ m ∈ t, m.id = q.1 → w m = false) (hp : ∀ m ∈ t, m.id = q.2 → w m = false) :
    Links (Rows.update w f t) q := by
  obtain ⟨n, hnt, p, hpt, hn₁, hp₁, hoff⟩ := h
  exact ⟨n, mem_update_of_not hnt (hn n hnt hn₁), p, mem_update_of_not hpt (hp p hpt hp₁), hn₁, hp₁,
    hoff⟩

end Links

/-! ## The invariant is kept -/

section Step

variable {s t : Sys} {a : Act} {db : Db} {q : Uuid × Uuid} {m r : ConversationMembership} {now : ℕ}
  {id agent_id k : Uuid} {session : String} {role : Role} {fl : Option ℕ}

/-- The source of a standing proposal is the active row under its id. -/
theorem source_active (h : Tidy db.conversation_memberships) (hact : active q.2 db = true)
    (hm : m ∈ db.conversation_memberships) (hid : m.id = q.2) :
    m.state = .active := by
  obtain ⟨p, hp, hpid, hstate⟩ := (active_iff h).mp hact
  rw [h.ids.eq hm hp (hid.trans hpid.symm)]
  exact hstate

/-- Closing seats: a source among them would not be active any more. -/
theorem links_put_out {st : SeatState} {w : ConversationMembership → Bool}
    {t : List ConversationMembership} (h : Links t q) (hst : st ≠ .active) :
    Links (update w (put_out st now) t) q :=
  h.update_quiet (put_out_in_place _ _) (fun _ => ⟨rfl, rfl⟩) (fun _ _ _ _ => rfl)
    fun _ _ _ _ hact => absurd hact hst

theorem links_join {auth : AuthCtx} {n : Uuid} (ht : Tidy db.conversation_memberships)
    (h : Links db.conversation_memberships q) (hact : active q.2 db = true) (hn : q.1 ≠ n) :
    Links (after_join now auth id n db.conversation_memberships) q := by
  have h₁ : Links (update (is_invitation auth id) (accepted now auth) db.conversation_memberships)
      q := by
    refine h.update_quiet (accepted_in_place _ _) (fun _ => ⟨rfl, rfl⟩) (fun _ _ _ _ => rfl) ?_
    -- a source is active, so it is not what is being accepted
    intro m hm hw hid _
    simp only [is_invitation, Bool.and_eq_true, beq_iff_eq] at hw
    exact absurd (source_active ht hact hm hid) (by rw [hw.2]; decide)
  have h₂ := h₁.update_quiet (w := is_predecessor auth id n
      (taken now auth id db.conversation_memberships))
    (superseded_in_place now n) (fun _ => ⟨rfl, rfl⟩) (fun _ _ _ _ => rfl)
    fun m _ _ _ hstate => absurd hstate (by simp [superseded])
  refine h₂.update_quiet (links_in_place fun _ => Or.inr rfl) (fun _ => ⟨rfl, rfl⟩) ?_ ?_
  · intro m _ hw hid
    exact absurd ((beq_iff_eq.mp hw).symm.trans hid) (Ne.symm hn)
  · obtain ⟨_, _, p, hp, _, hpid, hoff⟩ := h₂
    intro m hm hw hid hstate
    have htidy : Tidy (update (is_predecessor auth id n
        (taken now auth id db.conversation_memberships)) (superseded now n)
        (taken now auth id db.conversation_memberships).conversation_memberships) :=
      (ht.update (accepted_in_place _ _)).update (superseded_in_place _ _)
    have hmp : m = p := htidy.ids.eq hm hp (hid.trans hpid.symm)
    rw [hmp] at hstate ⊢
    exact hoff.current hstate

theorem links_invite {by_ : Uuid} (ht : Tidy db.conversation_memberships)
    (h : Links db.conversation_memberships q) (hact : active q.2 db = true)
    (hresp : respects db id agent_id session role fl q = true) :
    Links (upsert (at_address id agent_id session) (reinvited role fl by_) r
      db.conversation_memberships) q := by
  unfold upsert
  split
  · refine h.update (reinvited_in_place _ _ _) fun n hn p hp hn₁ hp₁ hoff => ?_
    have hstate := source_active ht hact hp hp₁
    simp only [respects, (seat_iff ht).mpr ⟨hn, hn₁⟩, (seat_iff ht).mpr ⟨hp, hp₁⟩, Option.all_some,
      Bool.and_eq_true, Bool.or_eq_true, Bool.not_eq_true', decide_eq_true_eq] at hresp
    by_cases hwn : at_address id agent_id session n = true <;>
      by_cases hwp : at_address id agent_id session p = true
    · -- two seats are never at one address
      exact absurd (congrArg ConversationMembership.id (ht.home_eq hn hp hwn hwp)) hoff.distinct
    · rw [if_pos hwn, if_neg hwp]
      obtain ⟨hrank, hfl⟩ := hresp.1.resolve_left (by simp [hwn])
      refine ⟨hoff.transfer_from, hoff.thread, hoff.agent, hoff.distinct, hoff.current, hrank, ?_⟩
      by_cases hend : ended n = true
      · simpa [floor, reinvited, hend] using hfl.resolve_left (by simp [hend])
      · simpa [floor, reinvited, hend] using hoff.history
    · rw [if_neg hwn, if_pos hwp]
      have hopen : ended p = false := by simp [ended, hstate]
      refine ⟨hoff.transfer_from, hoff.thread, hoff.agent, hoff.distinct,
        fun _ => hoff.current hstate, hresp.2.resolve_left (by simp [hwp]), ?_⟩
      simpa [floor, reinvited, hopen] using hoff.history
    · rw [if_neg hwn, if_neg hwp]
      exact hoff
  · exact h.insert_into

/-- A transfer leaves the other proposals that stand as they were. -/
theorem links_transfer {source : Uuid} {address : String} (ht : Tidy db.conversation_memberships)
    (h : Links db.conversation_memberships q) (hact : active q.2 db = true)
    (hfree : target_refused address (seat_at id agent_id session db) = none)
    (hn : q.1 ≠ ((seat_at id agent_id session db).map fun t => t.id).getD k) :
    Links (update (fun m => m.id == source) (fun m => { m with superseded_by := none })
      (upsert (at_address id agent_id session) (proposed role fl source) r
        db.conversation_memberships)) q := by
  have htarget : ∀ m ∈ db.conversation_memberships, at_address id agent_id session m = true →
      seat_at id agent_id session db = some m := fun m hm hw => ht.seat_at_eq hm hw
  have h₁ : Links (upsert (at_address id agent_id session) (proposed role fl source) r
      db.conversation_memberships) q := by
    unfold upsert
    split
    · refine h.update_elsewhere (fun m hm hid => ?_) fun m hm hid => ?_
      · by_contra hw
        rw [htarget m hm (by simpa using hw)] at hn
        exact hn hid.symm
      · -- a target that is active is refused
        by_contra hw
        rw [htarget m hm (by simpa using hw)] at hfree
        have hstate := source_active ht hact hm hid
        simp [target_refused, hstate] at hfree
    · exact h.insert_into
  exact h₁.update_quiet (links_in_place fun _ => Or.inl rfl) (fun _ => ⟨rfl, rfl⟩)
    (fun _ _ _ _ => rfl) fun _ _ _ _ _ => rfl

/-- The proposal a transfer makes: it gives what the source has. -/
theorem links_proposed (ht : Tidy db.conversation_memberships) (hm : m ∈ db.conversation_memberships)
    {window : String} (hhome : home m = (id, agent_id, window)) (hne : session ≠ window)
    (hfresh : (seat_at id agent_id session db).isSome = true ∨
      ∀ m ∈ db.conversation_memberships, m.id ≠ k) :
    Links (update (fun x => x.id == m.id) (fun x => { x with superseded_by := none })
      (upsert (at_address id agent_id session) (proposed m.role m.history_from_seq m.id)
        (offered_row id agent_id session m.role m.history_from_seq agent_id (some m.id) k)
        db.conversation_memberships))
      (((seat_at id agent_id session db).map fun t => t.id).getD k, m.id) := by
  simp only [home, Prod.mk.injEq] at hhome
  obtain ⟨hthread, hagent, hwindow⟩ := hhome
  have haway : at_address id agent_id session m = false := by
    simp [at_address, hthread, hagent, hwindow, Ne.symm hne]
  -- the source, in the final table
  have hsource : ∀ {t : List ConversationMembership}, m ∈ t →
      { m with superseded_by := none } ∈
        update (fun x => x.id == m.id) (fun x => { x with superseded_by := none }) t :=
    fun hm => mem_update_of_pos hm (by simp)
  cases hseat : seat_at id agent_id session db with
  | some n =>
    have hn := mem_of_one hseat
    have hw := pos_of_one hseat
    have hany : db.conversation_memberships.any (at_address id agent_id session) = true :=
      List.any_eq_true.mpr ⟨n, hn, hw⟩
    have hid : n.id ≠ m.id := by
      intro heq
      rw [ht.ids.eq hn hm heq, haway] at hw
      cases hw
    simp only [upsert, hany, if_true]
    simp only [at_address, Bool.and_eq_true, beq_iff_eq] at hw
    refine ⟨_, mem_update_of_not (mem_update_of_pos hn ?_) ?_, _, hsource (mem_update_of_not hm haway),
      rfl, rfl, ⟨rfl, ?_, ?_, hid, fun _ => rfl, Nat.le_refl _, Nat.le_refl _⟩⟩
    · simpa [at_address, and_assoc] using hw
    · simpa [proposed] using hid
    · exact hw.1.1.trans hthread.symm
    · exact hw.1.2.trans hagent.symm
  | none =>
    have hnone := one_eq_none.mp hseat
    have hany : db.conversation_memberships.any (at_address id agent_id session) = false := by
      simpa using hnone
    have hid : k ≠ m.id := by
      rcases hfresh with hsome | hfresh
      · rw [hseat] at hsome
        cases hsome
      · exact (hfresh m hm).symm
    simp only [upsert, hany, Bool.false_eq_true, if_false]
    refine ⟨_, mem_update_of_not (mem_insert_into.mpr (Or.inr rfl)) ?_, _,
      hsource (mem_insert_into.mpr (Or.inl hm)), rfl, rfl,
      ⟨rfl, hthread.symm, hagent.symm, hid, fun _ => rfl, Nat.le_refl _, Nat.le_refl _⟩⟩
    simpa [offered_row] using hid

theorem Standing.step (hs : Standing s) (hc : heeds_proposals s a = true) (h : step s a = some t) : Standing t := by
  have hinv := hs.seats.step h
  refine ⟨hinv, fun q hq => ?_⟩
  -- booked, and its source active, in every case
  have hkeep : ∀ {db' ps}, q ∈ (s.after db' ps).proposals → q ∈ ps ∧ active q.2 db' = true := by
    intro db' ps hq
    exact List.mem_filter.mp hq
  cases step_did h with
  | refused => exact hs.links q hq
  | create_conversation hok =>
    obtain ⟨hbooked, hact⟩ := hkeep hq
    obtain ⟨n, hn, p, hp, hids⟩ := (hs.links q hbooked).1
    obtain ⟨hopen, -, -⟩ := create_conversation_ok hok
    exact ⟨⟨n, hopen.old n hn, p, hopen.old p hp, hids⟩, hact⟩
  | @invite _ _ auth id _ address role history_from_start _ _ _ hv hok =>
    obtain ⟨hbooked, hact⟩ := hkeep hq
    obtain ⟨r, agent_id, session, c, inviter, hr, haddr, hcon, hinviter, -, rfl⟩ := invite_ok hok
    simp only [heeds_proposals, hv, Option.all_some, haddr, hr, List.all_eq_true, offers_from, hcon,
      hinviter, Option.elim_some, Option.bind_some] at hc
    exact ⟨links_invite hs.seats.tidy (hs.links q hbooked).1 (hs.links q hbooked).2 (hc q hbooked), hact⟩
  | join hok =>
    obtain ⟨hbooked, hact⟩ := hkeep hq
    obtain ⟨hbooked, hne⟩ := List.mem_filter.mp hbooked
    refine ⟨?_, hact⟩
    rw [Sys.after, (join_table hok).1]
    exact links_join hs.seats.tidy (hs.links q hbooked).1 (hs.links q hbooked).2 (by simpa using hne)
  | leave hok =>
    obtain ⟨hbooked, hact⟩ := hkeep hq
    refine ⟨?_, hact⟩
    rw [Sys.after, leave_ok hok]
    exact links_put_out (hs.links q hbooked).1 (by decide)
  | remove_member _ hok =>
    obtain ⟨hbooked, hact⟩ := hkeep hq
    obtain ⟨agent_id, session, m, -, -, -, -, rfl⟩ := remove_member_ok hok
    exact ⟨links_put_out (hs.links q hbooked).1 (by decide), hact⟩
  | transfer_membership hv hok =>
    obtain ⟨hbooked, hact⟩ := hkeep hq
    obtain ⟨acc, mine, m, session, hacc, hmine, -, hne, hone, -, hfree, hfresh, rfl, rfl⟩ :=
      transfer_membership_ok hok
    obtain ⟨hm, hid⟩ := hs.seats.tidy.ids.one_iff.mp hone
    refine ⟨?_, hact⟩
    rcases List.mem_cons.mp hbooked with rfl | hbooked
    · rw [← hid]
      exact links_proposed hs.seats.tidy hm (source_home hs.seats hv hacc hmine hm hid) hne hfresh
    · obtain ⟨hbooked, hother⟩ := List.mem_filter.mp hbooked
      exact links_transfer hs.seats.tidy (hs.links q hbooked).1 (hs.links q hbooked).2 hfree
        (by simpa using hother)
  | other hsame =>
    obtain ⟨hbooked, hact⟩ := hkeep hq
    simp only [leaves_seats, Bool.and_eq_true, beq_iff_eq] at hsame
    refine ⟨?_, hact⟩
    rw [Sys.after, hsame.1.1]
    exact (hs.links q hbooked).1

end Step

/-! ## An acceptance -/

section Acceptance

variable {s t : Sys} {a : Act} {n p : Uuid} {m : ConversationMembership} {now : ℕ} {auth : AuthCtx} {id : Uuid}
  {db : Db} {tb : List ConversationMembership}

/-- The step takes seat `n`, which was offered by transfer from seat `p`. -/
def accepts (n p : Uuid) (s t : Sys) : Prop :=
  ∃ m, seat n s.db = some m ∧ m.state = .invited ∧ m.transfer_from = some p ∧ active n t.db = true

/-- The step proposes to hand seat `p` over to seat `n`. -/
def proposes (n p : Uuid) (e : Trans Sys Act) : Prop :=
  ∃ seen now auth id address k v db', e.act = .transfer_membership seen now auth id address k ∧
    e.pre.view seen = some v ∧
    transfer_membership now v auth id address k e.pre.db = .ok ((n, p), db')

/-- What an acceptance does: the source is closed and names its successor, no
other seat changes at all, and the seat taken gives no more than the source
had. -/
structure Exchanged (n p : Uuid) (s t : Sys) : Prop where
  source : ∃ m m', seat p s.db = some m ∧ m.state = .active ∧ seat p t.db = some m' ∧
    m'.state = .left ∧ m'.superseded_by = some n
  others : ∀ k, k ≠ n → k ≠ p → seat k t.db = seat k s.db
  bounded : ∃ m m', seat p s.db = some m ∧ seat n t.db = some m' ∧ m'.state = .active ∧
    rank m'.role ≤ rank m.role ∧ floor m ≤ floor m'

section Lookup

variable {tb : List ConversationMembership} {w : ConversationMembership → Bool}
  {f : ConversationMembership → ConversationMembership} {r m : ConversationMembership} {k : Uuid}

/-- A seat looked up after an `UPDATE`. -/
theorem lookup_update (hf : InPlace f) :
    one (fun m => m.id == k) (update w f tb) =
      (one (fun m => m.id == k) tb).map fun m => if w m then f m else m :=
  one_update fun m => by rw [(hf.same m).1]

theorem lookup_upsert (hf : InPlace f) (h : one (fun m => m.id == k) tb = some m) :
    one (fun m => m.id == k) (upsert w f r tb) = some (if w m then f m else m) := by
  unfold upsert
  split
  · rw [lookup_update hf, h, Option.map_some]
  · rename_i hany
    have hw : w m = false := by
      have hnone : ∀ m ∈ tb, w m = false := by simpa using hany
      exact hnone m (mem_of_one h)
    rw [one_insert_into, h, Option.some_or, hw]
    rfl

end Lookup

/-- What an acceptance of seat `n` makes of seat `m`. -/
def seat_after_join (now : ℕ) (auth : AuthCtx) (id n : Uuid) (tb : List ConversationMembership)
    (m : ConversationMembership) : ConversationMembership :=
  let a := if is_invitation auth id m then accepted now auth m else m
  let b := if is_predecessor auth id n (taken now auth id tb) a then superseded now n a else a
  if b.id == n then { b with transfer_from := none } else b

theorem after_join_eq (now : ℕ) (auth : AuthCtx) (id n : Uuid) (tb : List ConversationMembership) :
    after_join now auth id n tb = tb.map (seat_after_join now auth id n tb) := by
  unfold after_join taken update
  simp only [List.map_map]
  rfl

theorem is_predecessor_taken (now : ℕ) (auth : AuthCtx) (id n : Uuid) (db : Db) (x : ConversationMembership) :
    is_predecessor auth id n (taken now auth id db.conversation_memberships) x =
      is_predecessor auth id n db x := by
  have hany : ((taken now auth id db.conversation_memberships).conversation_memberships.any
      fun y => y.id == n && y.transfer_from == some x.id) =
      db.conversation_memberships.any fun y => y.id == n && y.transfer_from == some x.id := by
    unfold taken update
    rw [List.any_map]
    congr 1
    funext y
    rw [Function.comp]
    split <;> rfl
  rw [is_predecessor, is_predecessor, hany]

/-- What a join makes of the seat it takes. -/
theorem seat_after_join_self (hw : is_invitation auth id m = true) :
    seat_after_join now auth id m.id db.conversation_memberships m =
      { accepted now auth m with transfer_from := none } := by
  have hself : is_predecessor auth id m.id (taken now auth id db.conversation_memberships)
      (accepted now auth m) = false := by
    rw [is_predecessor_taken]
    simp [is_predecessor, accepted]
  have hsame : (accepted now auth m).id = m.id := rfl
  simp only [seat_after_join, if_pos hw, hself, Bool.false_eq_true, if_false, hsame, beq_self_eq_true, if_true]

/-- What a join makes of any other seat: it is closed, or left as it is. -/
theorem seat_after_join_other (hw : is_invitation auth id m = false) :
    (seat_after_join now auth id n db.conversation_memberships m).id = m.id ∧
    (seat_after_join now auth id n db.conversation_memberships m).role = m.role ∧
    (is_predecessor auth id n db m = true ∨
      (seat_after_join now auth id n db.conversation_memberships m).state = m.state) := by
  simp only [seat_after_join, hw, Bool.false_eq_true, if_false, is_predecessor_taken]
  by_cases hpred : is_predecessor auth id n db m = true
  · rw [if_pos hpred]
    refine ⟨?_, ?_, Or.inl hpred⟩ <;> split <;> rfl
  · rw [if_neg hpred]
    refine ⟨?_, ?_, Or.inr ?_⟩ <;> split <;> rfl

theorem lookup_join {k : Uuid} :
    one (fun m => m.id == k) (after_join now auth id n tb) =
      (one (fun m => m.id == k) tb).map (seat_after_join now auth id n tb) := by
  unfold after_join
  rw [lookup_update (links_in_place fun _ => Or.inr rfl), lookup_update (superseded_in_place _ _),
    taken, lookup_update (accepted_in_place _ _), Option.map_map, Option.map_map]
  rfl

/-- Only a join takes a seat that was offered, and it takes that seat. -/
theorem accepts_join (hs : Seats.Inv s) (h : Did s a t) (hacc : accepts n p s t) :
    ∃ now auth id m, one (is_invitation auth id) s.db.conversation_memberships = some m ∧
      m.id = n ∧ m.transfer_from = some p ∧ (∃ seen, a = .join seen now auth id) ∧
      t.db.conversation_memberships = after_join now auth id n s.db.conversation_memberships := by
  obtain ⟨m, hm, hinvited, hfrom, hact⟩ := hacc
  -- every other step leaves the seat invited, or closes it
  have hstuck : ∀ m', seat n t.db = some m' → m'.state ≠ .active → False := by
    intro m' hm' hne
    rw [active, hm'] at hact
    exact hne (by simpa using hact)
  cases h with
  | refused => exact (hstuck m hm (by rw [hinvited]; decide)).elim
  | create_conversation hok =>
    obtain ⟨hopen, -, -⟩ := create_conversation_ok hok
    obtain ⟨hmem, hid⟩ := (seat_iff hs.tidy).mp hm
    have hm' := (seat_iff (hopen.tidy hs.tidy)).mpr ⟨hopen.old m hmem, hid⟩
    exact (hstuck m hm' (by rw [hinvited]; decide)).elim
  | invite _ hok =>
    obtain ⟨r, agent_id, session, c, inviter, -, -, -, -, -, rfl⟩ := invite_ok hok
    refine (hstuck _ (lookup_upsert (reinvited_in_place _ _ _) hm) ?_).elim
    split
    · simp [reinvited, ended, hinvited]
    · rw [hinvited]; decide
  | @join seen now auth id n' _ _ hok =>
    obtain ⟨x, hx, hid, -⟩ := join_ok hok
    obtain ⟨htable, -⟩ := join_table hok
    by_cases hw : is_invitation auth id m = true
    · obtain ⟨hmem, hmid⟩ := (seat_iff hs.tidy).mp hm
      have hxw := pos_of_one hx
      simp only [is_invitation, Bool.and_eq_true] at hw hxw
      obtain rfl : x = m := hs.tidy.home_eq (mem_of_one hx) hmem hxw.1 hw.1
      obtain rfl : n' = n := hid.trans hmid
      exact ⟨now, auth, id, x, hx, hmid, hfrom, ⟨seen, rfl⟩, htable⟩
    · refine (hstuck (seat_after_join now auth id n' s.db.conversation_memberships m) (by
        rw [seat, Sys.after, htable, lookup_join, show one (fun m => m.id == n)
          s.db.conversation_memberships = some m from hm, Option.map_some]) ?_).elim
      -- not the seat joined, so at most closed
      simp only [seat_after_join, if_neg hw]
      split <;> split <;> simp [superseded, hinvited]
  | leave hok =>
    have hok := leave_ok hok
    subst hok
    refine (hstuck _ (by
      simp only [seat, Sys.after]
      rw [lookup_update (put_out_in_place _ _), show one (fun m => m.id == n)
        s.db.conversation_memberships = some m from hm, Option.map_some]) ?_).elim
    split <;> simp [put_out, hinvited]
  | remove_member _ hok =>
    obtain ⟨agent_id, session, x, -, -, -, -, rfl⟩ := remove_member_ok hok
    refine (hstuck _ (by
      simp only [seat, Sys.after]
      rw [lookup_update (put_out_in_place _ _), show one (fun m => m.id == n)
        s.db.conversation_memberships = some m from hm, Option.map_some]) ?_).elim
    split <;> simp [put_out, hinvited]
  | transfer_membership _ hok =>
    obtain ⟨acc, mine, x, session, -, -, -, -, -, -, -, -, -, rfl⟩ := transfer_membership_ok hok
    refine (hstuck _ (by
      simp only [seat, Sys.after]
      rw [lookup_update (links_in_place fun _ => Or.inl rfl),
        lookup_upsert (proposed_in_place _ _ _) hm, Option.map_some]) ?_).elim
    split <;> split <;> simp [proposed, hinvited]
  | other hsame =>
    simp only [leaves_seats, Bool.and_eq_true, beq_iff_eq] at hsame
    refine (hstuck m ?_ (by rw [hinvited]; decide)).elim
    rw [seat, Sys.after, hsame.1.1]
    exact hm

/-- The seats a join closes are those its own seat was offered from. -/
theorem is_predecessor_iff {x : ConversationMembership} (ht : Tidy tb) (hm : m ∈ tb) (hid : m.id = n)
    (hw : is_invitation auth id m = true) (hfrom : m.transfer_from = some p) :
    is_predecessor auth id n (taken now auth id tb) x = true ↔
      x.id = p ∧ x.conversation_id = id ∧ x.agent_id = auth.agent_id ∧ x.id ≠ n ∧
        x.state = .active ∧ x.superseded_by = none := by
  have hany : ((taken now auth id tb).conversation_memberships.any
      fun y => y.id == n && y.transfer_from == some x.id) = true ↔ x.id = p := by
    simp only [List.any_eq_true, Bool.and_eq_true, beq_iff_eq]
    constructor
    · rintro ⟨y, hy, hyid, hyfrom⟩
      obtain ⟨z, hz, rfl⟩ := mem_update.mp hy
      have hzid : z.id = n := by
        rw [← hyid]
        split <;> rfl
      obtain rfl : z = m := ht.ids.eq hz hm (hzid.trans hid.symm)
      rw [if_pos hw] at hyfrom
      exact Option.some.inj (hyfrom.symm.trans hfrom)
    · rintro rfl
      exact ⟨_, mem_update_of_pos hm hw, hid, hfrom⟩
  simp only [is_predecessor, hany, Bool.and_eq_true, beq_iff_eq, bne_iff_ne, ne_eq,
    Option.isNone_iff_eq_none, and_assoc]

/-- **Accepting a proposal that stands** closes its source and nothing else. -/
theorem exchange (hs : Standing s) (hc : heeds_proposals s a = true) (h : step s a = some t)
    (hacc : accepts n p s t) : Exchanged n p s t := by
  have ht := hs.seats.tidy
  obtain ⟨now, auth, id, m, hone, hid, hfrom, ⟨seen, rfl⟩, htable⟩ :=
    accepts_join hs.seats (step_did h) hacc
  have hm := mem_of_one hone
  have hw := pos_of_one hone
  have hlookup : ∀ k, seat k t.db =
      (seat k s.db).map (seat_after_join now auth id n s.db.conversation_memberships) := by
    intro k
    rw [seat, htable, lookup_join]
    rfl
  -- the proposal stands, so its source is there and active
  simp only [heeds_proposals, hone, Option.all_some, hfrom, List.contains_eq_mem, decide_eq_true_eq,
    hid] at hc
  obtain ⟨⟨n', hn', m', hm', hn'id, hm'id, hoff⟩, hactive⟩ := hs.links _ hc
  obtain rfl : n' = m := ht.ids.eq hn' hm (hn'id.trans hid.symm)
  have hstate : m'.state = .active := source_active ht hactive hm' hm'id
  simp only at hn'id hm'id
  have hw' := hw
  simp only [is_invitation, at_address, Bool.and_eq_true, beq_iff_eq] at hw'
  have hne : m'.id ≠ n := fun heq => hoff.distinct (hid.trans heq.symm)
  have hpred : ∀ x, is_predecessor auth id n
      (taken now auth id s.db.conversation_memberships) x = true ↔ _ :=
    fun x => is_predecessor_iff (x := x) ht hm hid hw hfrom
  have hseat_p : seat p s.db = some m' := (seat_iff ht).mpr ⟨hm', hm'id⟩
  have hseat_n : seat n s.db = some n' := (seat_iff ht).mpr ⟨hm, hid⟩
  have hclosed : is_invitation auth id m' = false := by simp [is_invitation, hstate]
  have hp := (hpred m').mpr ⟨hm'id, hoff.thread.symm.trans hw'.1.1.1,
    hoff.agent.symm.trans hw'.1.1.2, hne, hstate, hoff.current hstate⟩
  refine ⟨⟨m', _, hseat_p, hstate, by rw [hlookup p, hseat_p, Option.map_some], ?_, ?_⟩, ?_, ?_⟩
  · simp only [seat_after_join, hclosed, Bool.false_eq_true, if_false, hp, if_true]
    split <;> rfl
  · simp only [seat_after_join, hclosed, Bool.false_eq_true, if_false, hp, if_true]
    split <;> rfl
  · intro k hkn hkp
    rw [hlookup k]
    cases hk : seat k s.db with
    | none => rfl
    | some x =>
      obtain ⟨hx, hxid⟩ := (seat_iff ht).mp hk
      have hinv : is_invitation auth id x = false := by
        by_contra hinv
        simp only [Bool.not_eq_false, is_invitation, Bool.and_eq_true] at hinv
        simp only [is_invitation, Bool.and_eq_true] at hw
        exact hkn (by rw [← hxid, ht.home_eq hx hm hinv.1 hw.1, hid])
      have hnot : ¬ is_predecessor auth id n
          (taken now auth id s.db.conversation_memberships) x = true :=
        fun hp => hkp (hxid.symm.trans ((hpred x).mp hp).1)
      have hxn : (x.id == n) = false := by simpa [hxid] using hkn
      simp only [Option.map_some, seat_after_join, hinv, Bool.false_eq_true, if_false, if_neg hnot,
        hxn]
  · have hnot : ¬ is_predecessor auth id n
        (taken now auth id s.db.conversation_memberships) (accepted now auth n') = true := fun hp => ((hpred _).mp hp).2.2.2.1 hid
    have hself : ((accepted now auth n').id == n) = true := by simpa [accepted] using hid
    have htaken : seat n t.db = some { accepted now auth n' with transfer_from := none } := by
      rw [hlookup n, hseat_n, Option.map_some]
      simp only [seat_after_join, if_pos hw, if_neg hnot, if_pos hself]
    exact ⟨m', _, hseat_p, htaken, rfl, hoff.role, hoff.history⟩

end Acceptance

/-! ## Since when a proposal stands -/

section History

variable {s₀ s : Sys} {tr : List (Trans Sys Act)} {n p : Uuid} {t : Sys} {a : Act}

/-- What a step books: what stood before, or the transfer it is. -/
theorem proposals_cases (h : Did s a t) (hq : (n, p) ∈ t.proposals) :
    (n, p) ∈ s.proposals ∨ proposes n p ⟨s, a, t⟩ := by
  cases h with
  | refused => exact Or.inl hq
  | create_conversation _ | invite _ _ | leave _ | remove_member _ _ | other _ => exact Or.inl (List.mem_filter.mp hq).1
  | join _ => exact Or.inl (List.mem_filter.mp (List.mem_filter.mp hq).1).1
  | @transfer_membership seen now auth id k address q v db' hv hok =>
    rcases List.mem_cons.mp (List.mem_filter.mp hq).1 with rfl | hq
    · exact Or.inr ⟨seen, now, auth, id, address, k, v, db', rfl, hv, hok⟩
    · exact Or.inl (List.mem_filter.mp hq).1

theorem proposals_active (h : Did s a t)
    (hs : ∀ q ∈ s.proposals, active q.2 s.db = true) : ∀ q ∈ t.proposals, active q.2 t.db = true := by
  cases h with
  | refused => exact hs
  | create_conversation _ | invite _ _ | join _ | leave _ | remove_member _ _ | other _ => exact fun q hq => (List.mem_filter.mp hq).2
  | transfer_membership _ _ => exact fun q hq => (List.mem_filter.mp hq).2

/-- A proposal that stands was made by a transfer of the run, and its source has
been active in every state since. -/
theorem proposed_since (h : Run (Rel step) s₀ tr s) (h₀ : s₀.proposals = []) (hq : (n, p) ∈ s.proposals) :
    ∃ tr₀ d tr', tr = tr₀ ++ d :: tr' ∧ proposes n p d ∧ active p d.post.db = true ∧
      ∀ x ∈ tr', active p x.post.db = true := by
  have hactive : ∀ {tr s}, Run (Rel step) s₀ tr s → ∀ q ∈ s.proposals, active q.2 s.db = true :=
    fun h => h.invariant' (I := fun s => ∀ q ∈ s.proposals, active q.2 s.db = true)
      (by rw [h₀]; exact fun q hq => absurd hq List.not_mem_nil)
      fun _ _ _ hs hr => proposals_active (step_did hr) hs
  -- backwards from the last transition: it made the proposal, or the run before it did
  induction h with
  | nil =>
    rw [h₀] at hq
    exact absurd hq List.not_mem_nil
  | @snoc tr s t a hrun hr ih =>
    have hlast : active p t.db = true := hactive (hrun.snoc hr) _ hq
    rcases proposals_cases (step_did hr) hq with hold | hnew
    · obtain ⟨tr₀, d, tr', rfl, hprop, hd, hsince⟩ := ih hold
      refine ⟨tr₀, d, tr' ++ [⟨s, a, t⟩], by simp, hprop, hd, fun x hx => ?_⟩
      rcases List.mem_append.mp hx with hx | hx
      · exact hsince x hx
      · rw [List.mem_singleton.mp hx]
        exact hlast
    · exact ⟨tr, ⟨s, a, t⟩, [], rfl, hnew, hlast, fun x hx => absurd hx List.not_mem_nil⟩

end History

/-! ## The law -/

/-- What handing seats over promises of a run. -/
structure TransferLaw (tr : List (Trans Sys Act)) : Prop where
  /-- An acceptance closes the seat it was offered from, and no other. -/
  exchange : ∀ e ∈ tr, ∀ n p, accepts n p e.pre e.post → Exchanged n p e.pre e.post
  /-- What is accepted was proposed, by a seat that has been active ever since. -/
  standing : ∀ tr₁ e tr₂ n p, tr = tr₁ ++ e :: tr₂ → accepts n p e.pre e.post →
    ∃ tr₀ d tr', tr₁ = tr₀ ++ d :: tr' ∧ proposes n p d ∧ active p d.post.db = true ∧
      ∀ x ∈ tr', active p x.post.db = true
  /-- Of two proposals from one seat, the one accepted second was made after the
  first was accepted. -/
  once : ∀ tr₁ e tr₂ f tr₃ n n' p, tr = tr₁ ++ e :: (tr₂ ++ f :: tr₃) →
    accepts n p e.pre e.post → accepts n' p f.pre f.post → ∃ d ∈ tr₂, proposes n' p d

theorem accepted_stood {s t : Sys} {a : Act} {n p : Uuid} (hs : Standing s)
    (hc : heeds_proposals s a = true) (h : step s a = some t) (hacc : accepts n p s t) : (n, p) ∈ s.proposals := by
  obtain ⟨now, auth, id, m, hone, hid, hfrom, ⟨seen, rfl⟩, -⟩ :=
    accepts_join hs.seats (step_did h) hacc
  simpa [heeds_proposals, hone, hfrom, hid] using hc

/-- **A transfer moves one seat and makes none**, in every run whose joins and
invitations heed the proposals that stand. -/
theorem seats_change_hands {db : Db} (h₀ : Tidy db.conversation_memberships)
    {tr : List (Trans Sys Act)} {s : Sys} (h : Run (Rel step) (Sys.start db) tr s)
    (hC : ∀ e ∈ tr, heeds_proposals e.pre e.act = true) : TransferLaw tr := by
  have hstart : Standing (Sys.start db) :=
    ⟨start_inv h₀, fun q hq => absurd hq List.not_mem_nil⟩
  have hstanding : ∀ e ∈ tr, Standing e.pre :=
    h.invariant_pre (C := fun s a => heeds_proposals s a = true) hstart
      (fun _ _ _ hs hc hr => hs.step hc hr) hC
  have hexchange : ∀ e ∈ tr, ∀ n p, accepts n p e.pre e.post → Exchanged n p e.pre e.post :=
    fun e he n p hacc => exchange (hstanding e he) (hC e he) (h.rel e he) hacc
  have hsince : ∀ tr₁ e tr₂ n p, tr = tr₁ ++ e :: tr₂ → accepts n p e.pre e.post →
      ∃ tr₀ d tr', tr₁ = tr₀ ++ d :: tr' ∧ proposes n p d ∧ active p d.post.db = true ∧
        ∀ x ∈ tr', active p x.post.db = true := by
    intro tr₁ e tr₂ n p htr hacc
    have he : e ∈ tr := by
      rw [htr]
      exact List.mem_append_right _ List.mem_cons_self
    rw [htr] at h
    exact proposed_since h.split.1 rfl
      (accepted_stood (hstanding e he) (hC e he) h.split.2.1 hacc)
  refine ⟨hexchange, hsince, ?_⟩
  intro tr₁ e tr₂ f tr₃ n n' p htr hacc hacc'
  obtain ⟨tr₀, d, tr', hsplit, hprop, hd, hx⟩ := hsince (tr₁ ++ e :: tr₂) f tr₃ n' p
    (by rw [htr, List.append_assoc, List.cons_append]) hacc'
  -- the first acceptance closed the seat both proposals came from
  have hclosed : active p e.post.db = false := by
    have he : e ∈ tr := by
      rw [htr]
      exact List.mem_append_right _ List.mem_cons_self
    obtain ⟨m, m', -, -, hm', hleft, -⟩ := (hexchange e he n p hacc).source
    rw [active, hm', Option.any_some, hleft]
    decide
  have hne : d ≠ e := by
    rintro rfl
    rw [hd] at hclosed
    exact absurd hclosed (by decide)
  rcases List.append_eq_append_iff.mp hsplit with ⟨u, rfl, hu⟩ | ⟨u, rfl, hu⟩
  · cases u with
    | nil => exact absurd (List.cons.inj hu).1.symm hne
    | cons x u =>
      obtain ⟨-, rfl⟩ := List.cons.inj hu
      exact ⟨d, List.mem_append_right _ List.mem_cons_self, hprop⟩
  · cases u with
    | nil => exact absurd (List.cons.inj hu).1 hne
    | cons x u =>
      obtain ⟨-, rfl⟩ := List.cons.inj hu
      have := hx e (List.mem_append_right _ List.mem_cons_self)
      rw [hclosed] at this
      exact absurd this (by decide)

/-! ## A run -/

/-- A window of agent 1, whose name is Ada, by its label. -/
def window (session : String) : AuthCtx := Crew.caller 1 "ada" session

/-- A team with no thread yet. -/
def crew : Db := Crew.pair .postgres

theorem crew_tidy : Tidy crew.conversation_memberships :=
  ⟨by decide, by decide⟩

/-- Ada opens a private thread at her desk. -/
def opens : Act := .create_conversation 0 0 (window "desk") ⟨none, true, []⟩ 7 10 []

/-- Ada hands the thread over from her desk to her laptop. -/
def handover : List Act :=
  [opens, .transfer_membership 0 0 (window "desk") 7 "ada/lap" 11, .join 0 0 (window "lap") 7]

theorem handover_run : (exec step (Sys.start crew) handover).isSome = true := by decide

theorem seats_change_hands_handover :
    TransferLaw ((exec step (Sys.start crew) handover).get handover_run).1 :=
  seats_change_hands crew_tidy (exec_get handover_run) (by decide)

/-! ## One seat becomes two -/

/-- Ada proposes her seat to two windows, and both accept. -/
def twice : List Act :=
  [opens, .transfer_membership 0 0 (window "desk") 7 "ada/lap" 11,
    .transfer_membership 0 0 (window "desk") 7 "ada/tab" 12, .join 0 0 (window "lap") 7,
    .join 0 0 (window "tab") 7]

theorem twice_run : (exec step (Sys.start crew) twice).isSome = true := by decide

/-- The run of both acceptances, and where it ends. -/
def twice_end : List (Trans Sys Act) × Sys :=
  (exec step (Sys.start crew) twice).get twice_run

/-- The desk's one seat has become two active seats: the second acceptance closed
nothing. -/
theorem one_seat_becomes_two :
    Run (Rel step) (Sys.start crew) twice_end.1 twice_end.2 ∧
      active 11 twice_end.2.db = true ∧ active 12 twice_end.2.db = true ∧
      ¬ TransferLaw twice_end.1 := by
  refine ⟨exec_get twice_run, by decide, by decide, fun hlaw => ?_⟩
  have hlast : ∃ e ∈ twice_end.1, active 10 e.pre.db = false ∧ active 12 e.post.db = true ∧
      (seat 12 e.pre.db).any (fun m => m.state == .invited && m.transfer_from == some 10) = true := by
    decide
  obtain ⟨e, he, hsource, htaken, hseat⟩ := hlast
  obtain ⟨m, hm, hm'⟩ := Option.any_eq_true _ _ |>.mp hseat
  simp only [Bool.and_eq_true, beq_iff_eq] at hm'
  obtain ⟨p, -, hp, hactive, -⟩ := (hlaw.exchange e he 12 10 ⟨m, hm, hm'.1, hm'.2, htaken⟩).source
  rw [active, hp, Option.any_some, hactive] at hsource
  exact absurd hsource (by decide)

end CrewSync.Transfers
