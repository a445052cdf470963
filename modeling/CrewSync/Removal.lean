/-
Being removed: that what was said up to a removal stays out of reach of the
address that was removed.

The invariant is one line about the seat at that address: it is removed, or its
history begins no earlier than the thread stood at the removal. An invitation that
finds the seat removed writes the thread's counter as the boundary, so the seat
may be offered again, taken, and given up, and the line still holds.

It is the last of these that loses it. A seat that was re-admitted and then given
up is `left`, and nothing says any more that it was once removed: the next
invitation may grant the inviter's own boundary, and a transfer its source's. The
law holds of the runs in which no such offer reaches back behind the removal
(`keeps_out`).
-/
import CrewSync.History
import CrewSync.Seats

set_option autoImplicit false

namespace CrewSync.Removal

open Schema Rows Conversations
open Runs Seats History Crew

/-! ## Out of reach -/

/-- The thread is open to the agent by a project grant. -/
def by_grant (agent_id id : Uuid) (db : Db) : Bool :=
  db.conversations.any fun c => c.id == id && c.visibility == .project && granted c agent_id db

/-- Nothing of thread `id` up to sequence `q` reaches the address, in a database
that lets its caller in. Sequences start at 1. A recovery is the agent's, and may
reach further through the seat of another of its windows. -/
structure ShutOut (fetched : Backend → Locator → Uuid → Fetched) (id agent_id : Uuid)
    (session : String) (q : ℕ) (db : Db) : Prop where
  read : ∀ auth paged served after_seq limit r, auth.agent_id = agent_id → auth.session = session →
    by_grant agent_id id db = false →
    History.read fetched db paged served auth id after_seq limit = .ok r →
    ∀ m ∈ r.messages, q < m.seq
  get_message : ∀ auth found served message_id r, auth.agent_id = agent_id →
    auth.session = session → by_grant agent_id id db = false →
    (∀ m ∈ found.conversation_messages, m.id = message_id → m.conversation_id = id) →
    History.get_message fetched found db served auth message_id = .ok r → 0 < r.seq → q < r.seq
  receipts : ∀ auth found served message_id r, auth.agent_id = agent_id →
    auth.session = session → by_grant agent_id id db = false →
    (∀ m ∈ found.conversation_messages, m.id = message_id → m.conversation_id = id) →
    History.receipts found db served auth message_id = .ok r → 0 < r.seq → q < r.seq
  recover_history : ∀ auth now seen served after_seq limit r, auth.agent_id = agent_id →
    History.recover_history fetched now seen db served auth id after_seq limit = .ok r →
    ∀ m ∈ r.messages, q < m.seq ∨ ∃ me ∈ db.conversation_memberships,
      me.session ≠ session ∧ recovers id agent_id m.seq me = true

/-- There is a seat at the address, and it is removed or its history begins at `q`
or later. -/
def Held (id agent_id : Uuid) (session : String) (q : ℕ) (tb : List ConversationMembership) : Prop :=
  ∃ m ∈ tb, at_address id agent_id session m = true ∧ (m.state = .removed ∨ q ≤ floor m)

/-- The invariant: the seat is held back, and the thread has come at least as far
as `q`. -/
structure Barred (id agent_id : Uuid) (session : String) (q : ℕ) (db : Db) : Prop where
  seat : Held id agent_id session q db.conversation_memberships
  thread : ∃ c ∈ db.conversations, c.id = id ∧ q ≤ c.last_seq

section Barred

variable {fetched : Backend → Locator → Uuid → Fetched} {id agent_id : Uuid} {session : String}
  {q : ℕ} {db : Db} {auth : AuthCtx}

/-- Whoever is let in by this seat is let in from `q` on. -/
theorem Barred.floor (h : Barred id agent_id session q db) (ht : Tidy db.conversation_memberships)
    (hgrant : by_grant agent_id id db = false) (hagent : auth.agent_id = agent_id)
    (hsession : auth.session = session) {a : Access} (ha : readable auth id db = .ok a)
    (hread : a.can_read_messages = true) : q ≤ (Access.floor a).getD 0 := by
  obtain ⟨c, hc, hcid, rfl⟩ := access_ok (readable_ok ha).1
  have hproject : (c.visibility == .project && granted c auth.agent_id db) = false := by
    by_contra hp
    simp only [Bool.not_eq_false, Bool.and_eq_true] at hp
    have hany : by_grant agent_id id db = true :=
      List.any_eq_true.mpr ⟨c, hc, by simp [hcid, hp.1, ← hagent, hp.2]⟩
    rw [hany] at hgrant
    cases hgrant
  simp only [Access.can_read_messages, hproject, Bool.false_or, Access.seated, Bool.and_eq_true,
    Option.any_eq_true, Option.map_eq_some_iff, beq_iff_eq] at hread
  obtain ⟨-, _, ⟨x, hx, rfl⟩, hactive⟩ := hread
  obtain ⟨m, hm, hw, hbar⟩ := h.seat
  have hcall := pos_of_one hx
  simp only [is_callers, Bool.and_eq_true, hagent, hsession] at hcall
  obtain rfl : x = m := ht.home_eq (mem_of_one hx) hm hcall.1 hw
  simp only [Access.floor, hx, Option.map_some, Option.bind_some]
  rcases hbar with hgone | hfloor
  · -- a removed seat lets nobody in
    exact absurd (hactive.symm.trans hgone) (by decide)
  · exact hfloor

/-- Whoever is kept out is served nothing from before the boundary. -/
theorem Barred.shut_out (h : Barred id agent_id session q db)
    (ht : Tidy db.conversation_memberships) : ShutOut fetched id agent_id session q db := by
  refine ⟨?_, ?_, ?_, ?_⟩
  · intro auth paged served after_seq limit r hagent hsession hgrant hok m hm
    obtain ⟨a, ha, hread, hpage⟩ := read_ok hok
    exact lt_of_le_of_lt (h.floor ht hgrant hagent hsession ha hread) (hpage m hm)
  · intro auth found served message_id r hagent hsession hgrant hthread hok hpos
    obtain ⟨m, hm, hid, hseq, a, ha, hread, hbefore⟩ := get_message_ok hok
    rw [hthread m hm hid] at ha
    rw [hseq] at hpos ⊢
    exact lt_of_le_of_lt (h.floor ht hgrant hagent hsession ha hread)
      (before_seat_eq_false hbefore hpos)
  · intro auth found served message_id r hagent hsession hgrant hthread hok hpos
    obtain ⟨m, hm, hid, hseq, a, ha, hread, hbefore⟩ := receipts_ok hok
    rw [hthread m hm hid] at ha
    rw [hseq] at hpos ⊢
    exact lt_of_le_of_lt (h.floor ht hgrant hagent hsession ha hread)
      (before_seat_eq_false hbefore hpos)
  · intro auth now seen served after_seq limit r hagent hok m hm
    obtain ⟨me, hme, hrec⟩ := recover_history_ok hok m hm
    rw [hagent] at hrec
    by_cases hs : me.session = session
    · obtain ⟨x, hx, hw, hbar⟩ := h.seat
      simp only [recovers, Bool.and_eq_true, beq_iff_eq, bne_iff_ne, decide_eq_true_eq] at hrec
      obtain rfl : me = x := ht.home_eq hme hx (by simp [at_address, hrec.1.1.1.1, hrec.1.1.1.2, hs]) hw
      exact Or.inl (lt_of_le_of_lt (hbar.resolve_left hrec.1.1.2) hrec.2)
    · exact Or.inr ⟨me, hme, hs, hrec⟩

end Barred

/-! ## The steps that keep it -/

/-- The seat at the address was given up. -/
def given_up (id agent_id : Uuid) (session : String) (db : Db) : Bool :=
  (seat_at id agent_id session db).any fun m => m.state == .left

/-- The step does not offer the address's seat, once given up, with history from
before `q`. -/
def keeps_out (id agent_id : Uuid) (session : String) (q : ℕ) (s : Sys) : Act → Bool
  | .invite seen _ auth id' address _ history_from_start _ =>
    (s.view seen).all fun v =>
      match resolve_address auth address v with
      | .ok to_ => id' != id || to_ != (agent_id, session) || !given_up id agent_id session s.db ||
          q ≤ (offers_from auth id agent_id session history_from_start s.db).getD 0
      | .error _ => true
  | .transfer_membership seen _ auth id' address _ =>
    (s.view seen).all fun v =>
      match resolve_address auth address v with
      | .ok to_ => id' != id || to_ != (agent_id, session) || !given_up id agent_id session s.db ||
          q ≤ (seat_at id auth.agent_id auth.session s.db).elim 0 floor
      | .error _ => true
  | _ => true

/-- What holds of every state after the removal. -/
structure After (id agent_id : Uuid) (session : String) (q : ℕ) (s : Sys) : Prop where
  seats : Seats.Inv s
  threads : Keyed Conversation.id s.db.conversations
  barred : Barred id agent_id session q s.db

section Steps

variable {id agent_id : Uuid} {session : String} {q : ℕ} {s t : Sys} {a : Act} {db : Db}
  {tb : List ConversationMembership} {w : ConversationMembership → Bool}
  {f : ConversationMembership → ConversationMembership} {r m : ConversationMembership} {auth : AuthCtx}
  {id' by_agent k : Uuid} {window : String}

variable (h : Held id agent_id session q tb)
include h

/-- A rewrite holds the seat back where it does so row by row. -/
theorem Held.update (hf : InPlace f)
    (hkeep : ∀ m ∈ tb, at_address id agent_id session m = true → w m = true →
      (m.state = .removed ∨ q ≤ floor m) → (f m).state = .removed ∨ q ≤ floor (f m)) :
    Held id agent_id session q (update w f tb) := by
  obtain ⟨m, hm, hw, hbar⟩ := h
  refine ⟨_, mem_update_of_mem hm, ?_, ?_⟩
  · split
    · rw [at_address_iff, (hf.same m).2]
      exact at_address_iff.mp hw
    · exact hw
  · split
    · rename_i hp
      exact hkeep m hm hw hp hbar
    · exact hbar

theorem Held.insert_into :
    Held id agent_id session q (insert_into r tb) := by
  obtain ⟨m, hm, hrest⟩ := h
  exact ⟨m, mem_insert_into.mpr (Or.inl hm), hrest⟩

/-- An offer: only one that rewrites this very seat can matter. -/
theorem Held.upsert (hf : InPlace f)
    (hkeep : ∀ m ∈ tb, at_address id agent_id session m = true → w m = true →
      (m.state = .removed ∨ q ≤ floor m) → (f m).state = .removed ∨ q ≤ floor (f m)) :
    Held id agent_id session q (upsert w f r tb) := by
  unfold Rows.upsert
  split
  · exact h.update hf hkeep
  · exact h.insert_into

/-- A statement that only matches seats that are not removed and leaves the
boundary alone. -/
theorem Held.update_open (hf : InPlace f) (hopen : ∀ m, w m = true → m.state ≠ .removed)
    (hfloor : ∀ m, (f m).history_from_seq = m.history_from_seq) :
    Held id agent_id session q (Rows.update w f tb) := by
  refine h.update hf fun m _ _ hw hbar => Or.inr ?_
  unfold floor
  rw [hfloor m]
  exact hbar.resolve_left (hopen m hw)

/-- A statement that leaves state and boundary alone. -/
theorem Held.update_link (hf : InPlace f) (hstate : ∀ m, (f m).state = m.state)
    (hfloor : ∀ m, (f m).history_from_seq = m.history_from_seq) :
    Held id agent_id session q (Rows.update w f tb) := by
  refine h.update hf fun m _ _ _ hbar => ?_
  unfold floor
  rw [hstate m, hfloor m]
  exact hbar

omit h

theorem is_open_not_removed (h : is_open_at id agent_id session m = true) : m.state ≠ .removed := by
  simp only [is_open_at, open_seat, Bool.and_eq_true, Bool.or_eq_true, beq_iff_eq] at h
  rcases h.2 with h | h <;> rw [h] <;> decide

theorem held_join {now : ℕ} {n : Uuid} (h : Held id agent_id session q tb) :
    Held id agent_id session q (after_join now auth id' n tb) := by
  have h₁ : Held id agent_id session q (taken now auth id' tb).conversation_memberships := by
    refine h.update_open (accepted_in_place _ _) (fun m hw => ?_) fun _ => rfl
    simp only [is_invitation, Bool.and_eq_true, beq_iff_eq] at hw
    rw [hw.2]
    decide
  refine (h₁.update_open (superseded_in_place _ _) (fun m hw => ?_) fun _ => rfl).update_link
    (links_in_place fun _ => Or.inr rfl) (fun _ => rfl) fun _ => rfl
  simp only [is_predecessor, Bool.and_eq_true, beq_iff_eq] at hw
  rw [hw.1.2]
  decide

/-- An invitation that offers nothing from before `q` holds the seat back. -/
theorem held_invite {role : Role} {c : Conversation} {fl : Option ℕ} {history_from_start : Bool}
    (ht : Tidy db.conversation_memberships) (hthreads : Keyed Conversation.id db.conversations)
    (h : Barred id agent_id session q db) (hc : one (fun c => c.id == id') db.conversations = some c)
    (hout : (id' != id || (by_agent, window) != (agent_id, session) ||
      !given_up id agent_id session db ||
      q ≤ (granted_floor c.last_seq (seat_at id' by_agent window db) history_from_start fl).getD 0)
        = true) :
    Held id agent_id session q (upsert (at_address id' by_agent window)
      (reinvited role (granted_floor c.last_seq (seat_at id' by_agent window db) history_from_start fl)
        auth.agent_id)
      (offered_row id' by_agent window role
        (granted_floor c.last_seq (seat_at id' by_agent window db) history_from_start fl)
        auth.agent_id none k) db.conversation_memberships) := by
  refine h.seat.upsert (reinvited_in_place _ _ _) fun m hm hw hw' hbar => ?_
  have hsame := (at_address_iff.mp hw').symm.trans (at_address_iff.mp hw)
  simp only [Prod.mk.injEq] at hsame
  obtain ⟨rfl, rfl, rfl⟩ := hsame
  have hseat := ht.seat_at_eq hm hw
  cases hstate : m.state with
  | removed =>
    -- a readmission: from here on, whatever was asked for
    obtain ⟨c', hc', hcid, hq⟩ := h.thread
    obtain ⟨hmem, hid⟩ := hthreads.one_iff.mp hc
    obtain rfl : c = c' := hthreads.eq hmem hc' (hid.trans hcid.symm)
    simp [floor, reinvited, ended, hstate, granted_floor, hseat, hq]
  | left =>
    have hgiven : given_up id' by_agent window db = true := by simp [given_up, hseat, hstate]
    simp only [bne_self_eq_false, Bool.false_or, hgiven, Bool.not_true, decide_eq_true_eq] at hout
    refine Or.inr ?_
    simpa [floor, reinvited, ended, hstate] using hout
  | invited | active =>
    refine Or.inr ?_
    simpa [floor, reinvited, ended, hstate] using hbar.resolve_left (by rw [hstate]; decide)

/-- So does a transfer. -/
theorem held_transfer {address : String} (ht : Tidy db.conversation_memberships)
    (h : Held id agent_id session q db.conversation_memberships)
    (hfree : target_refused address (seat_at id' by_agent window db) = none)
    (hout : (id' != id || (by_agent, window) != (agent_id, session) ||
      !given_up id agent_id session db || q ≤ floor m) = true) :
    Held id agent_id session q (update (fun x => x.id == m.id) (fun x => { x with superseded_by := none })
      (upsert (at_address id' by_agent window) (proposed m.role m.history_from_seq m.id)
        (offered_row id' by_agent window m.role m.history_from_seq by_agent (some m.id) k)
        db.conversation_memberships)) := by
  refine (h.upsert (proposed_in_place _ _ _) fun x hx hw hw' hbar => ?_).update_link
    (links_in_place fun _ => Or.inl rfl) (fun _ => rfl) fun _ => rfl
  have hsame := (at_address_iff.mp hw').symm.trans (at_address_iff.mp hw)
  simp only [Prod.mk.injEq] at hsame
  obtain ⟨rfl, rfl, rfl⟩ := hsame
  have hseat := ht.seat_at_eq hx hw
  -- only a seat that was given up is not refused
  have hleft : x.state = .left := by
    rw [hseat] at hfree
    cases hstate : x.state <;> simp [target_refused, hstate] at hfree
    rfl
  have hgiven : given_up id' by_agent window db = true := by simp [given_up, hseat, hleft]
  simp only [bne_self_eq_false, Bool.false_or, hgiven, Bool.not_true, decide_eq_true_eq] at hout
  exact Or.inr hout

/-- Threads stay, under their ids, and their counters only grow. -/
theorem step_threads (h : Did s a t) (hk : Keyed Conversation.id s.db.conversations) :
    Keyed Conversation.id t.db.conversations ∧
      ∀ c ∈ s.db.conversations, ∃ c' ∈ t.db.conversations, c'.id = c.id ∧ c.last_seq ≤ c'.last_seq := by
  have hsame : t.db.conversations = s.db.conversations →
      Keyed Conversation.id t.db.conversations ∧ ∀ c ∈ s.db.conversations,
        ∃ c' ∈ t.db.conversations, c'.id = c.id ∧ c.last_seq ≤ c'.last_seq := by
    intro heq
    rw [heq]
    exact ⟨hk, fun c hc => ⟨c, hc, rfl, Nat.le_refl _⟩⟩
  cases h with
  | refused => exact hsame rfl
  | create_conversation hok =>
    obtain ⟨-, hfresh, c, hid, hthreads⟩ := create_conversation_ok hok
    rw [Sys.after, hthreads]
    refine ⟨hk.insert_into fun x hx => ?_, fun x hx =>
      ⟨x, mem_insert_into.mpr (Or.inl hx), rfl, Nat.le_refl _⟩⟩
    rw [hid]
    exact hfresh x hx
  | invite _ hok =>
    obtain ⟨_, _, _, _, _, -, -, -, -, -, rfl⟩ := invite_ok hok
    exact hsame rfl
  | join hok => exact hsame (join_table hok).2
  | leave hok =>
    have := leave_ok hok
    subst this
    exact hsame rfl
  | remove_member _ hok =>
    obtain ⟨_, _, _, -, -, -, -, rfl⟩ := remove_member_ok hok
    exact hsame rfl
  | transfer_membership _ hok =>
    obtain ⟨_, _, _, _, -, -, -, -, -, -, -, -, -, rfl⟩ := transfer_membership_ok hok
    exact hsame rfl
  | other hleaves =>
    simp only [leaves_seats, Bool.and_eq_true, decide_eq_true_eq, List.all_eq_true, List.any_eq_true,
      beq_iff_eq] at hleaves
    exact ⟨hleaves.1.2, hleaves.2⟩

/-- The step lemma. -/
theorem After.step (hs : After id agent_id session q s)
    (hc : keeps_out id agent_id session q s a = true) (h : step s a = some t) :
    After id agent_id session q t := by
  have hdid := step_did h
  obtain ⟨hthreads, hgrow⟩ := step_threads hdid hs.threads
  obtain ⟨c, hcmem, hcid, hcq⟩ := hs.barred.thread
  obtain ⟨c', hc', hcid', hle⟩ := hgrow c hcmem
  refine ⟨hs.seats.step h, hthreads, ?_, c', hc', hcid'.trans hcid, hcq.trans hle⟩
  have ht := hs.seats.tidy
  have hheld := hs.barred.seat
  cases hdid with
  | refused => exact hheld
  | create_conversation hok =>
    obtain ⟨hopen, -, -⟩ := create_conversation_ok hok
    obtain ⟨m, hm, hrest⟩ := hheld
    exact ⟨m, hopen.old m hm, hrest⟩
  | @invite _ _ _ id' _ _ _ _ _ _ _ hv hok =>
    obtain ⟨r, by_agent, window, c, inviter, -, haddr, hcon, hinviter, -, rfl⟩ := invite_ok hok
    simp only [keeps_out, hv, Option.all_some, haddr] at hc
    refine held_invite ht hs.threads hs.barred hcon ?_
    by_cases hid : id' = id
    · subst hid
      by_cases hto : (by_agent, window) = (agent_id, session)
      · obtain ⟨rfl, rfl⟩ := Prod.mk.inj hto
        simpa [offers_from, hcon, hinviter] using hc
      · simp [hto]
    · simp [hid]
  | join hok =>
    rw [Sys.after, (join_table hok).1]
    exact held_join hheld
  | leave hok =>
    rw [Sys.after, leave_ok hok]
    exact hheld.update_open (put_out_in_place _ _) (fun _ => is_open_not_removed) fun _ => rfl
  | remove_member _ hok =>
    obtain ⟨_, _, _, -, -, -, -, rfl⟩ := remove_member_ok hok
    exact hheld.update_open (put_out_in_place _ _) (fun _ => is_open_not_removed) fun _ => rfl
  | @transfer_membership _ _ _ id' _ _ _ _ _ hv hok =>
    obtain ⟨acc, mine, m, window, hacc, hmine, haddr, -, hone, -, hfree, -, -, rfl⟩ :=
      transfer_membership_ok hok
    obtain ⟨hm, hid⟩ := ht.ids.one_iff.mp hone
    have hsource := ht.seat_at_eq hm (at_address_iff.mpr (source_home hs.seats hv hacc hmine hm hid))
    simp only [keeps_out, hv, Option.all_some, haddr] at hc
    rw [Sys.after, ← hid]
    refine held_transfer ht hheld hfree ?_
    by_cases hthread : id' = id
    · subst hthread
      simpa [hsource] using hc
    · simp [hthread]
  | other hleaves =>
    simp only [leaves_seats, Bool.and_eq_true, beq_iff_eq] at hleaves
    rw [Sys.after, hleaves.1.1]
    exact hheld

end Steps

/-! ## The law -/

section Law

variable {id agent_id : Uuid} {session : String} {q : ℕ} {s : Sys}
  {e : Trans Sys Act}

/-- The transition in which the address is removed, with the thread at `q`. -/
def removes (id agent_id : Uuid) (session : String) (q : ℕ) (e : Trans Sys Act) : Prop :=
  ∃ seen now auth address v n db', e.act = .remove_member seen now auth id address ∧
    e.pre.view seen = some v ∧ resolve_address auth address v = .ok (agent_id, session) ∧
    remove_member now v auth id address e.pre.db = .ok (n, db') ∧
    ∃ c ∈ e.pre.db.conversations, c.id = id ∧ c.last_seq = q

/-- The removal establishes it. -/
theorem removes_after (hs : Seats.Inv e.pre) (hk : Keyed Conversation.id e.pre.db.conversations)
    (h : step e.pre e.act = some e.post) (hrem : removes id agent_id session q e) :
    After id agent_id session q e.post := by
  obtain ⟨seen, now, auth, address, v, n, db', hact, hv, haddr, hok, c, hc, hcid, hcq⟩ := hrem
  obtain ⟨hthreads, hgrow⟩ := step_threads (step_did h) hk
  obtain ⟨c', hc', hcid', hle⟩ := hgrow c hc
  refine ⟨hs.step h, hthreads, ?_, c', hc', hcid'.trans hcid, by omega⟩
  rw [hact] at h
  simp only [Seats.step, hv, Option.bind_eq_bind, Option.bind_some, Option.pure_def, Sys.commit, hok,
    Option.some.injEq] at h
  obtain ⟨_, _, m, haddr', hone, -, -, rfl⟩ := remove_member_ok hok
  rw [haddr, Except.ok.injEq, Prod.mk.injEq] at haddr'
  obtain ⟨rfl, rfl⟩ := haddr'
  have hw := pos_of_one hone
  rw [← h]
  refine ⟨put_out .removed now m, mem_update_of_pos (mem_of_one hone) hw, ?_, Or.inl rfl⟩
  simp only [is_open_at, Bool.and_eq_true] at hw
  exact hw.1

/-- **Removal is permanent for history**, in every run that offers the seat, once
given up, with nothing from before the removal. -/
theorem removal_is_permanent {fetched : Backend → Locator → Uuid → Fetched} {db : Db}
    (h₀ : Tidy db.conversation_memberships) (h₁ : Keyed Conversation.id db.conversations)
    {tr₁ tr₂ : List (Trans Sys Act)}
    (h : Run (Rel step) (Sys.start db) (tr₁ ++ e :: tr₂) s)
    (hrem : removes id agent_id session q e)
    (hC : ∀ x ∈ tr₂, keeps_out id agent_id session q x.pre x.act = true) :
    ∀ x ∈ e :: tr₂, ShutOut fetched id agent_id session q x.post.db := by
  obtain ⟨hbefore, hstep, hafter⟩ := h.split
  obtain ⟨hseats, hthreads⟩ : Seats.Inv e.pre ∧ Keyed Conversation.id e.pre.db.conversations :=
    hbefore.invariant' (I := fun s => Seats.Inv s ∧ Keyed Conversation.id s.db.conversations)
      ⟨start_inv h₀, h₁⟩
      fun _ _ _ hs hr => ⟨hs.1.step hr, (step_threads (step_did hr) hs.2).1⟩
  have hfirst := removes_after hseats hthreads hstep hrem
  have hall : ∀ x ∈ tr₂, After id agent_id session q x.pre :=
    hafter.invariant_pre (C := fun s a => keeps_out id agent_id session q s a = true) hfirst
      (fun _ _ _ hs hc hr => hs.step hc hr) hC
  intro x hx
  rcases List.mem_cons.mp hx with rfl | hx
  · exact hfirst.barred.shut_out hfirst.seats.tidy
  · have := (hall x hx).step (hC x hx) (hafter.rel x hx)
    exact this.barred.shut_out this.seats.tidy

end Law

/-! ## A run -/

/-- Bob's seat. -/
def bobs_seat : ConversationMembership :=
  accepted 0 bob_in_hall (offered_row 7 2 "hall" .participant none 1 none 11)

/-- Something Ada said. -/
def said : ConversationMessage :=
  { id := 20, conversation_id := 7, seq := 1, sender_agent := 1, sender_session := "desk",
    body := "hello", reply_to := none, request_id := 30, created_at := 0, deleted_at := none,
    publication_state := .stored, canonical_locator := some (.postgres 20), uncertain_at := none,
    tombstoned_at := none, tombstone_reason := none, body_sha256 := none, backend := .postgres }

/-- A private thread of the two, in which one message was sent. -/
def crew : Db :=
  { pair .postgres with
    conversations := [{ thread .postgres with created_session := "desk", last_seq := 1 }]
    conversation_memberships := [owners_seat 0 ada_at_desk 7 10, bobs_seat]
    conversation_messages := [said] }

/-- Ada removes Bob. -/
def removal : Act := .remove_member 0 0 ada_at_desk 7 "bob/hall"

theorem removal_step : (step (Sys.start crew) removal).isSome = true := by decide

/-- The removal, and the state it leaves. -/
def removed : Trans Sys Act :=
  ⟨Sys.start crew, removal, (step (Sys.start crew) removal).get removal_step⟩

theorem removed_run : Run (Rel step) (Sys.start crew) [removed] removed.post :=
  Run.single (Option.some_get removal_step).symm

theorem removed_removes : removes 7 2 "hall" 1 removed := by
  have hok : (remove_member 0 crew ada_at_desk 7 "bob/hall" crew).toOption.isSome = true := by decide
  cases hres : remove_member 0 crew ada_at_desk 7 "bob/hall" crew with
  | error why =>
    rw [hres] at hok
    exact absurd hok (by simp [Except.toOption])
  | ok r =>
    exact ⟨0, 0, ada_at_desk, "bob/hall", crew, r.1, r.2, rfl, rfl, by decide, hres,
      crew.conversations.head (by decide), by decide, by decide, by decide⟩

/-- Ada has Bob back, from here on. -/
def readmission : List Act :=
  [.invite 0 0 ada_at_desk 7 "bob/hall" none true 0, .join 0 0 bob_in_hall 7]

theorem readmission_run : (exec step removed.post readmission).isSome = true := by decide

/-- The run after the removal, and where it ends. -/
def readmission_end : List (Trans Sys Act) × Sys :=
  (exec step removed.post readmission).get readmission_run

theorem removal_is_permanent_readmission :
    ShutOut (fun _ _ _ => .gone) 7 2 "hall" 1
      (readmission_end.1.getLast (by decide)).post.db := by
  have hrun : Run (Rel step) (Sys.start crew) ([] ++ removed :: readmission_end.1)
      readmission_end.2 := removed_run.append (exec_get readmission_run)
  exact removal_is_permanent ⟨by decide, by decide⟩ (by decide) hrun removed_removes (by decide) _
    (List.mem_cons_of_mem _ (List.getLast_mem _))

/-! ## Removed, readmitted, gone, and invited again -/

/-- Bob is invited again, leaves instead, and is invited once more, this time with
the crew's history. -/
def roundabout : List Act :=
  [.invite 0 0 ada_at_desk 7 "bob/hall" none false 0, .leave 0 0 bob_in_hall 7,
    .invite 0 0 ada_at_desk 7 "bob/hall" none true 0, .join 0 0 bob_in_hall 7]

theorem roundabout_run : (exec step removed.post roundabout).isSome = true := by decide

/-- The run after the removal, and where it ends. -/
def roundabout_end : List (Trans Sys Act) × Sys :=
  (exec step removed.post roundabout).get roundabout_run

/-- Bob reads what was said before he was removed. -/
theorem removal_is_undone :
    Run (Rel step) (Sys.start crew) (removed :: roundabout_end.1) roundabout_end.2 ∧
      removes 7 2 "hall" 1 removed ∧ by_grant 2 7 roundabout_end.2.db = false ∧
      ¬ ShutOut (fun _ _ _ => .gone) 7 2 "hall" 1 roundabout_end.2.db := by
  refine ⟨removed_run.append (exec_get roundabout_run), removed_removes, by decide, fun hout => ?_⟩
  have hok : (History.read (fun _ _ _ => .gone) roundabout_end.2.db roundabout_end.2.db
      roundabout_end.2.db bob_in_hall 7 none none).toOption.any
        (fun r => r.messages.any fun m => m.seq ≤ 1) = true := by decide
  cases hres : History.read (fun _ _ _ => .gone) roundabout_end.2.db roundabout_end.2.db
      roundabout_end.2.db bob_in_hall 7 none none with
  | error why =>
    rw [hres] at hok
    exact absurd hok (by simp [Except.toOption])
  | ok r =>
    rw [hres] at hok
    simp only [Except.toOption, Option.any_some, List.any_eq_true, decide_eq_true_eq] at hok
    obtain ⟨m, hm, hseq⟩ := hok
    have := hout.read bob_in_hall _ _ none none r rfl rfl (by decide) hres m hm
    omega

end CrewSync.Removal
