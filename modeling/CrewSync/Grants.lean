/-
An invitation gives no more history than its inviter has.

Where an invitation offers a seat, the seat reads from the thread's present end, or from
where the inviter's own locked seat begins. Where it finds the seat taken or waiting, it
leaves the seat's beginning alone: an invitation to a seat that waits rewrites its role and
not what an earlier inviter gave it. So what a seat reads on joining lies in what its
inviter could read, what the standing invitation gave, and what is said later.

An open seat keeps its beginning through every step (`floor_step`), so what the invitation
left is what the join finds.
-/
import CrewSync.History
import CrewSync.Transfers

set_option autoImplicit false

namespace CrewSync.Grants

open Schema Rows Conversations
open Runs Seats Transfers History Crew

/-! ## Who may read what -/

/-- The seat's history reaches `seq`. -/
def reaches_back (m : ConversationMembership) (seq : ℕ) : Bool :=
  !m.history_from_seq.any fun floor => seq ≤ floor

/-- The caller may read what is at `seq` in the thread. -/
def may_read (auth : AuthCtx) (id : Uuid) (seq : ℕ) (db : Db) : Bool :=
  match access auth id db with
  | .error _ => false
  | .ok a => a.can_read_messages && !before_seat a seq

/-- A seat that is the caller's waits, and its history reaches `seq`. -/
def is_offered (auth : AuthCtx) (id : Uuid) (seq : ℕ) (db : Db) : Bool :=
  db.conversation_memberships.any fun m => is_invitation auth id m && reaches_back m seq

/-- What the caller may read, or would on joining. -/
def may_read_or_join (auth : AuthCtx) (id : Uuid) (seq : ℕ) (db : Db) : Bool :=
  may_read auth id seq db || is_offered auth id seq db

/-- The caller's own seat is taken, and its history reaches `seq`. -/
def seat_reads (auth : AuthCtx) (id : Uuid) (seq : ℕ) (db : Db) : Bool :=
  (seat_at id auth.agent_id auth.session db).any fun m => m.state == .active && reaches_back m seq

/-- The last message the thread has accepted. -/
def last_seq (id : Uuid) (db : Db) : ℕ := (one (fun c => c.id == id) db.conversations).elim 0 fun c => c.last_seq

/-- A seat waits at the caller's address. -/
def waits (auth : AuthCtx) (id : Uuid) (db : Db) : Bool := db.conversation_memberships.any (is_invitation auth id)

/-! ## The law -/

/-- `inviter` invites the window of `invitee`, and the invitation is committed. -/
def invites (inviter invitee : AuthCtx) (id : Uuid) (e : Trans Sys Act) : Prop :=
  ∃ seen now address role history_from_start k v db',
    e.act = .invite seen now inviter id address role history_from_start k ∧ e.pre.view seen = some v ∧
    resolve_address inviter address v = .ok (invitee.agent_id, invitee.session) ∧
    invite now v inviter id address role history_from_start k e.pre.db = .ok ((), db')

/-- The window of `invitee` joins. -/
def accepts_as (invitee : AuthCtx) (id : Uuid) (e : Trans Sys Act) : Prop :=
  ∃ seen now n v db', e.act = .join seen now invitee id ∧ e.pre.view seen = some v ∧
    join now v invitee id e.pre.db = .ok (n, db')

/-- What an invitation gives: on joining, the invited window reads what it could `before`,
what the inviter's own seat could at the commit, and what is accepted later. And a seat that
is taken keeps its beginning. -/
structure GrantLaw (before : AuthCtx → Uuid → ℕ → Db → Bool) (tr : List (Trans Sys Act)) : Prop where
  granted : ∀ tr₁ e tr₂ f tr₃ inviter invitee id, tr = tr₁ ++ e :: (tr₂ ++ f :: tr₃) →
    invites inviter invitee id e → accepts_as invitee id f →
    (∀ x ∈ e :: tr₂, waits invitee id x.post.db = true) →
    ∀ seq, may_read invitee id seq f.post.db = true →
      before invitee id seq e.pre.db = true ∨ seat_reads inviter id seq e.pre.db = true ∨
        last_seq id e.pre.db < seq
  kept : ∀ e ∈ tr, ∀ m ∈ e.pre.db.conversation_memberships, m.state = .active →
    ∃ m' ∈ e.post.db.conversation_memberships, m'.id = m.id ∧ m'.history_from_seq = m.history_from_seq

/-! ## What is served may be read -/

section Served

variable {auth : AuthCtx} {id : Uuid}

theorem may_read_of_access {seq : ℕ} {db : Db} {a : Access} (ha : access auth id db = .ok a) :
    may_read auth id seq db = (a.can_read_messages && !before_seat a seq) := by
  rw [may_read, ha]

end Served

/-! ## Where a seat's history begins -/

section Steps

variable {s t : Sys} {a : Act} {m : ConversationMembership} {tb : List ConversationMembership} {auth : AuthCtx}
  {id : Uuid} {db v db' : Db} {n seq now : ℕ} {history_from_start : Bool}

/-- A seat with its beginning, after a step. -/
def SameFloor (m : ConversationMembership) (tb : List ConversationMembership) : Prop :=
  ∃ m' ∈ tb, Same m m' ∧ m'.history_from_seq = m.history_from_seq

theorem SameFloor.trans {tb' : List ConversationMembership} (h : SameFloor m tb)
    (h' : ∀ m' ∈ tb, SameFloor m' tb') : SameFloor m tb' := by
  obtain ⟨m₁, hm₁, hsame, hfloor⟩ := h
  obtain ⟨m₂, hm₂, hsame', hfloor'⟩ := h' m₁ hm₁
  exact ⟨m₂, hm₂, hsame.trans hsame', hfloor'.trans hfloor⟩

theorem same_floor_update {p : ConversationMembership → Bool}
    {f : ConversationMembership → ConversationMembership} (hf : InPlace f)
    (hkeep : ∀ m, (f m).history_from_seq = m.history_from_seq) (hm : m ∈ tb) :
    SameFloor m (Rows.update p f tb) := by
  refine ⟨_, mem_update_of_mem hm, ?_⟩
  split
  · exact ⟨hf.same m, hkeep m⟩
  · exact ⟨Same.refl m, rfl⟩

/-- **An open seat keeps its beginning**, whatever step is taken. -/
theorem floor_step (hs : Seats.Inv s) (h : Did s a t) (hm : m ∈ s.db.conversation_memberships)
    (hopen : open_seat m = true) : SameFloor m t.db.conversation_memberships := by
  cases h with
  | refused => exact ⟨m, hm, Same.refl m, rfl⟩
  | create_conversation hok =>
    obtain ⟨hopened, -, -⟩ := create_conversation_ok hok
    exact ⟨m, hopened.old m hm, Same.refl m, rfl⟩
  | invite hv hok =>
    obtain ⟨r, agent_id, session, c, inviter, -, -, -, -, -, rfl⟩ := invite_ok hok
    have hended : ended m = false := by
      cases hstate : m.state <;> simp [open_seat, hstate] at hopen <;> simp [ended, hstate]
    generalize granted_floor c.last_seq (seat_at _ agent_id session s.db) _ inviter.history_from_seq = fl
    obtain ⟨m', hm', -, ⟨-, rfl⟩ | ⟨-, rfl⟩⟩ := through_upsert (p := at_address _ agent_id session)
      (r := offered_row _ agent_id session r fl _ none _) (reinvited_in_place r fl _) hm
    · exact ⟨m', hm', Same.refl _, rfl⟩
    · exact ⟨_, hm', ⟨rfl, rfl⟩, by simp [reinvited, hended]⟩
  | join hok =>
    obtain ⟨x, -, rfl, rfl⟩ := join_ok hok
    refine SameFloor.trans (SameFloor.trans (same_floor_update (accepted_in_place _ _) (fun _ => rfl) hm)
      fun m' hm' => same_floor_update (superseded_in_place _ _) (fun _ => rfl) hm')
      fun m' hm' => same_floor_update (links_in_place fun _ => Or.inr rfl) (fun _ => rfl) hm'
  | leave hok =>
    obtain rfl := leave_ok hok
    exact same_floor_update (put_out_in_place _ _) (fun _ => rfl) hm
  | remove_member _ hok =>
    obtain ⟨agent_id, session, x, -, -, -, -, rfl⟩ := remove_member_ok hok
    exact same_floor_update (put_out_in_place _ _) (fun _ => rfl) hm
  | @transfer_membership seen now auth id k address q v db' hv hok =>
    obtain ⟨acc, mine, x, session, -, -, -, -, -, -, hrefused, -, -, rfl⟩ := transfer_membership_ok hok
    have hother := not_target hs.tidy hrefused hm hopen
    have hm' : m ∈ upsert (at_address id auth.agent_id session) (proposed x.role x.history_from_seq mine.id)
        (offered_row id auth.agent_id session x.role x.history_from_seq auth.agent_id (some mine.id) k)
        s.db.conversation_memberships := mem_upsert_of_not hm hother
    exact same_floor_update (links_in_place fun _ => Or.inl rfl) (fun _ => rfl) hm'
  | other hsame =>
    simp only [leaves_seats, Bool.and_eq_true, beq_iff_eq] at hsame
    rw [Sys.after, hsame.1.1]
    exact ⟨m, hm, Same.refl m, rfl⟩

/-- The seat that waits at an address is one row. -/
theorem waiting_seat (ht : Tidy db.conversation_memberships)
    (h : waits auth id db = true) (hm : m ∈ db.conversation_memberships)
    (hat : at_address id auth.agent_id auth.session m = true) : is_invitation auth id m = true := by
  obtain ⟨x, hx, hw⟩ := List.any_eq_true.mp h
  have hxat := hw
  rw [is_invitation, Bool.and_eq_true] at hxat
  rw [ht.home_eq hm hx hat hxat.1]
  exact hw

/-- A seat that waits all along keeps its beginning. -/
theorem waiting_kept {tr : List (Trans Sys Act)} (h : Run (Rel step) s tr t)
    (hs : Seats.Inv s) (hm : m ∈ s.db.conversation_memberships) (hw : is_invitation auth id m = true)
    (hall : ∀ x ∈ tr, waits auth id x.post.db = true) :
    Seats.Inv t ∧ ∃ m' ∈ t.db.conversation_memberships, is_invitation auth id m' = true ∧
      m'.history_from_seq = m.history_from_seq := by
  induction h with
  | nil => exact ⟨hs, m, hm, hw, rfl⟩
  | snoc _ hr ih =>
    obtain ⟨hinv, m₁, hm₁, hw₁, hfloor₁⟩ := ih fun x hx => hall x (List.mem_append_left _ hx)
    rename_i a u _
    have hat := hw₁
    rw [is_invitation, Bool.and_eq_true, beq_iff_eq] at hat
    have hopen : open_seat m₁ = true := by simp [open_seat, hat.2]
    obtain ⟨m₂, hm₂, hsame, hfloor₂⟩ := floor_step hinv (step_did hr) hm₁ hopen
    have hwaits := hall _ (List.mem_append_right _ (List.mem_singleton.mpr rfl))
    refine ⟨hinv.step hr, m₂, hm₂, waiting_seat (hinv.step hr).tidy hwaits hm₂ ?_, hfloor₂.trans hfloor₁⟩
    rw [at_address_iff, hsame.2]
    exact at_address_iff.mp hat.1

/-- What is granted is the inviter's own, or begins at the thread's end. -/
theorem granted_reaches {seated : Option ConversationMembership} {own : ConversationMembership}
    (hfloor : m.history_from_seq = granted_floor n seated history_from_start own.history_from_seq)
    (h : reaches_back m seq = true) : reaches_back own seq = true ∨ n < seq := by
  rw [reaches_back, hfloor, granted_floor] at h
  split at h
  · exact Or.inr (by simpa using h)
  · exact Or.inl h

/-- **What an invitation leaves a seat that waits**: its history reaches no further than the
standing invitation's, the inviter's own, and what is said later. -/
theorem invite_grants {inviter invitee : AuthCtx} {k : Uuid} {address : String} {role : Option String}
    (haddr : resolve_address inviter address v = .ok (invitee.agent_id, invitee.session))
    (hok : invite now v inviter id address role history_from_start k db = .ok ((), db'))
    (hm : m ∈ db'.conversation_memberships) (hw : is_invitation invitee id m = true)
    (hreach : reaches_back m seq = true) :
    is_offered invitee id seq db = true ∨ seat_reads inviter id seq db = true ∨ last_seq id db < seq := by
  obtain ⟨agent_id, session, own, haddr', hown, hmod, -⟩ := invite_moderates hok
  obtain ⟨r, agent_id', session', c, own', -, haddr'', hc, hown', -, rfl⟩ := invite_ok hok
  rw [haddr] at haddr' haddr''
  obtain ⟨rfl, rfl⟩ := Prod.mk.inj (Except.ok.inj haddr')
  obtain ⟨rfl, rfl⟩ := Prod.mk.inj (Except.ok.inj haddr'')
  obtain rfl := Option.some.inj (hown.symm.trans hown')
  have hat := hw
  rw [is_invitation, Bool.and_eq_true, beq_iff_eq] at hat
  have hgranted : m.history_from_seq = granted_floor c.last_seq
      (Conversations.seat_at id invitee.agent_id invitee.session db) history_from_start own.history_from_seq →
      seat_reads inviter id seq db = true ∨ last_seq id db < seq := by
    intro hfloor
    rcases granted_reaches hfloor hreach with hback | hlater
    · left
      rw [seat_reads, hown, Option.any_some, moderates_active hmod, hback]
      rfl
    · right
      rw [last_seq, hc]
      exact hlater
  rcases mem_upsert hm with ⟨b, hb, rfl⟩ | ⟨rfl, -⟩
  · by_cases hbat : at_address id invitee.agent_id invitee.session b = true
    · rw [if_pos hbat] at hat hreach hgranted
      by_cases hended : ended b = true
      · exact Or.inr (hgranted (by simp [reinvited, hended]))
      · -- the standing invitation's beginning is left alone
        have hstate : b.state = .invited := by simpa [reinvited, hended] using hat.2
        refine Or.inl (List.any_eq_true.mpr ⟨b, hb, ?_⟩)
        have hkept : reaches_back b seq = true := by simpa [reaches_back, reinvited, hended] using hreach
        rw [is_invitation, hbat, hstate, hkept]
        rfl
    · rw [if_neg hbat] at hat
      exact absurd hat.1 hbat
  · exact Or.inr (hgranted rfl)

/-- What the joiner reads is what its seat reached. -/
theorem join_reads {id : ℕ} (ht : Tidy db.conversation_memberships) (hok : join now v auth id db = .ok (n, db'))
    (hm : m ∈ db.conversation_memberships) (hw : is_invitation auth id m = true)
    (hread : may_read auth id seq db' = true) : reaches_back m seq = true := by
  obtain ⟨x, hx, rfl, -⟩ := join_ok hok
  have htable := (join_table hok).1
  have hxw := pos_of_one hx
  have hat := hw
  rw [is_invitation, Bool.and_eq_true] at hxw hat
  obtain rfl := ht.home_eq (mem_of_one hx) hm hxw.1 hat.1
  -- the seat that was taken is the one `access` finds
  have htaken : { accepted now auth x with transfer_from := none } ∈ db'.conversation_memberships := by
    rw [htable, after_join_eq, ← seat_after_join_self hw]
    exact List.mem_map_of_mem hm
  have ht' : Tidy db'.conversation_memberships := by
    have hlink : InPlace fun m : ConversationMembership => { m with transfer_from := none } :=
      links_in_place fun _ => Or.inr rfl
    rw [htable]
    exact ((ht.update (accepted_in_place _ _)).update (superseded_in_place _ _)).update hlink
  have hcaller : is_callers auth id { accepted now auth x with transfer_from := none } = true := by
    have hbound : ({ accepted now auth x with transfer_from := none } : ConversationMembership).session_id =
        auth.session_id := rfl
    have hsame : at_address id auth.agent_id auth.session { accepted now auth x with transfer_from := none } =
        true := hat.1
    rw [is_callers, hsame, hbound, Bool.true_and]
    cases auth.session_id <;> rfl
  have hone : one (is_callers auth id) db'.conversation_memberships =
      some { accepted now auth x with transfer_from := none } :=
    ht'.callers_eq htaken hcaller
  cases ha : access auth id db' with
  | error e =>
    rw [may_read, ha] at hread
    cases hread
  | ok a =>
    rw [may_read_of_access ha, Bool.and_eq_true, Bool.not_eq_true'] at hread
    obtain ⟨c, -, -, rfl⟩ := access_ok ha
    have hback := hread.2
    rw [before_seat, Access.floor, hone] at hback
    rw [reaches_back, Bool.not_eq_true']
    exact hback

end Steps

/-! ## The runs -/

section Law

variable {tr : List (Trans Sys Act)} {s : Sys} {db : Db}

/-- **An invitation gives no more history than its inviter has**, and what it gives is what
is read on joining. -/
theorem invitations_grant_own_history (h₀ : Tidy db.conversation_memberships)
    (h : Run (Rel step) (Sys.start db) tr s) : GrantLaw may_read_or_join tr := by
  have hpre : ∀ e ∈ tr, Seats.Inv e.pre :=
    h.invariant_pre (C := fun _ _ => True) (start_inv h₀) (fun _ _ _ hs _ hr => hs.step hr) fun _ _ => trivial
  refine ⟨?_, fun e he m hm hactive => ?_⟩
  · rintro tr₁ e tr₂ f tr₃ inviter invitee id rfl ⟨seen, now, address, role, hfs, k, v, db₁, hact, hv, haddr, hok⟩
      ⟨seen', now', n, v', db₂, hact', hv', hok'⟩ hwaits seq hread
    obtain ⟨-, hr, hrest⟩ := h.split
    obtain ⟨hsegment, hr', -⟩ := hrest.split
    have hs : Seats.Inv e.pre := hpre e (List.mem_append_right _ List.mem_cons_self)
    -- what the two operations committed
    have hpost : e.post.db = db₁ := by
      rw [hact] at hr
      simp only [Runs.Rel, step, hv, Option.bind_eq_bind, Option.bind_some, Option.pure_def, Option.some.injEq,
        Sys.commit, hok] at hr
      rw [← hr]
      rfl
    have hpost' : f.post.db = db₂ := by
      rw [hact'] at hr'
      simp only [Runs.Rel, step, hv', Option.bind_eq_bind, Option.bind_some, Option.pure_def, Option.some.injEq,
        Sys.commit, hok'] at hr'
      rw [← hr']
      rfl
    -- the seat that waits, from the invitation to the join
    have hs₁ : Seats.Inv e.post := hs.step hr
    obtain ⟨m, hm, hw⟩ := List.any_eq_true.mp (hwaits e List.mem_cons_self)
    obtain ⟨hs₂, m', hm', hw', hfloor⟩ := waiting_kept hsegment hs₁ hm hw
      fun x hx => hwaits x (List.mem_cons_of_mem _ hx)
    rw [hpost'] at hread
    have hback := join_reads hs₂.tidy hok' hm' hw' hread
    rw [reaches_back, hfloor] at hback
    rw [hpost] at hm
    rcases invite_grants haddr hok hm hw hback with hoffered | hgranted
    · exact Or.inl (by rw [may_read_or_join, hoffered, Bool.or_true])
    · exact Or.inr hgranted
  · have hopen : open_seat m = true := by simp [open_seat, hactive]
    obtain ⟨m', hm', hsame, hfloor⟩ := floor_step (hpre e he) (step_did (h.rel e he)) hm hopen
    exact ⟨m', hm', hsame.1, hfloor⟩

end Law

/-! ## A run -/

def carol : AuthCtx := { ada with agent_id := 3, agent_name := "carol" }

def adas_seat : ConversationMembership := owners_seat 0 ada 7 20

/-- Carol moderates, and was admitted after the first message. -/
def carols_seat : ConversationMembership :=
  { adas_seat with id := 21, agent_id := 3, role := .moderator, history_from_seq := some 1 }

/-- A private thread with one message. -/
def crew : Db :=
  { teams := [⟨1, "crew", true, .postgres⟩]
    agents := [⟨1, 1, "ada", none⟩, ⟨2, 1, "bob", none⟩, ⟨3, 1, "carol", none⟩]
    conversations := [{ thread .postgres with last_seq := 1 }], conversation_memberships := [adas_seat, carols_seat] }

theorem crew_tidy : Tidy crew.conversation_memberships := ⟨by decide, by decide⟩

/-- Ada invites Bob, with the history. Carol invites him too, and he joins. -/
def twice_invited : List Act :=
  [.invite 0 0 ada 7 "bob" none true 22, .invite 0 0 carol 7 "bob" none false 23, .join 0 0 bob 7]

theorem twice_invited_run : (exec step (Sys.start crew) twice_invited).isSome = true := by decide

/-- The run, and where it ends. -/
def twice_invited_end : List (Trans Sys Act) × Sys := (exec step (Sys.start crew) twice_invited).get twice_invited_run

theorem invitations_grant_own_history_twice : GrantLaw may_read_or_join twice_invited_end.1 :=
  invitations_grant_own_history crew_tidy (exec_get twice_invited_run)

/-- Carol's invitation left Bob what Ada's gave, which neither he nor Carol could read. -/
theorem invitation_keeps_more : ¬ GrantLaw may_read twice_invited_end.1 := by
  intro h
  have hruns : ∃ d e f, twice_invited_end.1 = [d] ++ e :: ([] ++ f :: []) ∧ invites carol bob 7 e ∧
      accepts_as bob 7 f ∧ waits bob 7 e.post.db = true ∧ may_read bob 7 1 f.post.db = true ∧
      may_read bob 7 1 e.pre.db = false ∧ seat_reads carol 7 1 e.pre.db = false ∧ last_seq 7 e.pre.db = 1 :=
    ⟨_, _, _, rfl, ⟨_, _, _, _, _, _, _, _, rfl, rfl, rfl, rfl⟩, ⟨_, _, _, _, _, rfl, rfl, rfl⟩, by decide,
      by decide, by decide, by decide, by decide⟩
  obtain ⟨d, e, f, hsplit, hinvites, haccepts, hwaits, hread, hbefore, hown, hlast⟩ := hruns
  have hall : ∀ x ∈ [e], waits bob 7 x.post.db = true := by
    intro x hx
    rw [List.mem_singleton.mp hx]
    exact hwaits
  have hgranted := h.granted [d] e [] f [] carol bob 7 hsplit hinvites haccepts hall 1 hread
  rw [hbefore, hown, hlast] at hgranted
  exact absurd hgranted (by decide)

end CrewSync.Grants
