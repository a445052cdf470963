/-
A message and its slot agree, in every state any interleaving of workers,
reconcilers, timeouts and crashes reaches.

A party that is at work under a lease is the only one at that generation
(`unique`), which is why the fences that look at the generation alone hold: nobody
else can have settled it.

A timeout may cut an attempt after its settlement committed. The party then marks
its own settled generation uncertain, and that fence has nothing to say: a slot
found `failed` goes back to `pending` under a message that is `failed` for good.
The law holds of the runs in which no such mark finds its slot failed
(`marks_open`); the last section is the run in which one does.
-/
import CrewSync.Settlement

set_option autoImplicit false

namespace CrewSync.Publication

open Schema Rows
open Outbox Send Runs Settlement Crew

/-- A timed-out attempt that is marked uncertain did not fail before it was cut. -/
def marks_open (s : Sys) : Act → Bool
  | .mark_uncertain w _ =>
    match s.party w with
    | .timed_out l =>
      (slot_at l.message_id s.db).all fun o => !(o.generation == l.generation && o.state == .failed)
    | _ => true
  | _ => true

/-! ## One step -/

/-- What a step did to the database and to the parties. -/
inductive Did (s : Sys) (a : Act) : Sys → Prop
  /-- No message and no slot changed; a party may have left its lease behind. -/
  | quiet {t : Sys} : (∀ k, SameAt k s.db t.db) →
      (s.db.MessagesKeyed → t.db.MessagesKeyed) →
      (s.db.SlotsKeyed → t.db.SlotsKeyed) →
      (∀ w l, (t.party w).held = some l → (s.party w).held = some l) →
      (∀ w l, (t.party w).at_work = some l → (s.party w).at_work = some l) → Did s a t
  | settled {w now : ℕ} {l : Lease} {ph : Phase} {r : Settled} {db' : Db} :
      (s.party w).at_work = some l → SettledBy now l s.db (r, db') → ph.at_work = none →
      (∀ x, ph.held = some x → x = l) → Did s a (s.go w ph db')
  /-- Given back by who is at work, or marked by who was cut. -/
  | back {w : ℕ} {l : Lease} {db' : Db} : (s.party w).held = some l →
      ((s.party w).at_work = some l ∨ (marks_open s a = true →
        ∀ o, slot_at l.message_id s.db = some o → o.generation = l.generation →
          o.state ≠ .failed)) → GivenBack l s.db db' → Did s a (s.go w .idle db')
  | leased {w : ℕ} {l : Lease} {ph : Phase} {db' : Db} : (s.party w).held = none →
      LeasedBy l s.db db' → ph.held = some l → Did s a (s.go w ph db')
  | sent {k : Uuid} {db' : Db} : Sent k s.db db' → Did s a { s with db := db' }

section Steps

variable {sha256 : String → String} {s t : Sys} {a : Act}

@[simp] theorem go_db (w : ℕ) (ph : Phase) (db : Db) : (s.go w ph db).db = db := rfl

theorem go_party (w v : ℕ) (ph : Phase) (db : Db) : (s.go w ph db).party v = if v = w then ph else s.party v := by
  simp [Sys.go, Function.update_apply]

/-- A party that moves on, to a phase with no more of a lease than it had, while
nothing is written. -/
theorem Did.moved_on {w : ℕ} {ph : Phase} (hheld : ∀ l, ph.held = some l → (s.party w).held = some l)
    (hwork : ph.at_work = none) : Did s a (s.go w ph s.db) := by
  refine .quiet (fun _ => ⟨rfl, rfl⟩) (fun h => h) (fun h => h) (fun v l hl => ?_) fun v l hl => ?_
  · rw [go_party] at hl
    split at hl
    · rename_i hv
      rw [hv]
      exact hheld l hl
    · exact hl
  · rw [go_party] at hl
    split at hl
    · rw [hwork] at hl
      cases hl
    · exact hl

theorem Did.stays : Did s a s :=
  .quiet (fun _ => ⟨rfl, rfl⟩) (fun h => h) (fun h => h) (fun _ _ h => h) fun _ _ h => h

theorem step_did (hk : s.db.SlotsKeyed) (h : step sha256 s a = some t) : Did s a t := by
  cases a with
  | send now seen auth id input message_id key =>
    simp only [step] at h
    split at h
    · obtain rfl := Option.some.inj h
      exact .stays
    · rename_i hok
      obtain rfl := Option.some.inj h
      rcases send_spec hok with rfl | hsent
      · exact .stays
      · exact .sent hsent
  | lease w now worker locked =>
    simp only [step] at h
    split at h
    · rename_i hidle hlease
      obtain rfl := Option.some.inj h
      exact .leased (by rw [hidle]; rfl) (lease_spec hk hlease) rfl
    · obtain rfl := Option.some.inj h
      exact .stays
    · cases h
  | settle w now published reconciled =>
    simp only [step] at h
    split at h
    · rename_i l hw
      obtain rfl := Option.some.inj h
      exact .settled (by rw [hw]; rfl) (settle_spec hk (outcome_of l published reconciled)) rfl
        fun x hx => (Option.some.inj hx).symm
    · cases h
  | returned w =>
    simp only [step] at h
    split at h
    · obtain rfl := Option.some.inj h
      exact .moved_on (by simp [Phase.held]) rfl
    · cases h
  | timeout w =>
    simp only [step] at h
    split at h
    · rename_i hw
      obtain rfl := Option.some.inj h
      exact .moved_on (fun x hx => by rw [hw]; exact hx) rfl
    · rename_i hw
      obtain rfl := Option.some.inj h
      exact .moved_on (fun x hx => by rw [hw]; exact hx) rfl
    · cases h
  | mark_uncertain w now =>
    simp only [step] at h
    split at h
    · rename_i l hw
      obtain rfl := Option.some.inj h
      refine .back (by rw [hw]; rfl) (Or.inr fun hopen o ho hgen => ?_) (mark_uncertain_spec hk _)
      simp only [marks_open, hw, ho, Option.all_some] at hopen
      simpa [hgen] using hopen
    · cases h
  | release w now why =>
    simp only [step] at h
    split at h
    · rename_i hw
      obtain rfl := Option.some.inj h
      exact .back (by rw [hw]; rfl) (Or.inl (by rw [hw]; rfl)) (release_spec hk why)
    · cases h
  | lease_one w now worker message_id =>
    simp only [step] at h
    split at h
    · rename_i hidle hlease
      obtain rfl := Option.some.inj h
      exact .leased (by rw [hidle]; rfl) (lease_one_spec hk hlease) rfl
    · obtain rfl := Option.some.inj h
      exact .stays
    · cases h
  | confirm w now locator =>
    simp only [step] at h
    split at h
    · rename_i hw
      obtain rfl := Option.some.inj h
      exact .settled (by rw [hw]; rfl) (settle_spec hk (.Confirmed locator)) rfl (by simp [Phase.held])
    · cases h
  | unlease w now =>
    simp only [step] at h
    split at h
    · rename_i hw
      obtain rfl := Option.some.inj h
      exact .back (by rw [hw]; rfl) (Or.inl (by rw [hw]; rfl)) (unlease_spec hk)
    · cases h
  | clear_uncertain team_id =>
    obtain rfl := Option.some.inj h
    refine .quiet (fun k => ⟨?_, rfl⟩) (fun h => h.update fun _ => rfl) (fun h => h)
      (fun _ _ h => h) fun _ _ h => h
    exact state_update_quiet (fun _ => rfl) fun _ => rfl
  | crash w =>
    obtain rfl := Option.some.inj h
    exact .moved_on (by simp [Phase.held]) rfl
  | other db' =>
    simp only [step] at h
    split at h
    · rename_i hsame
      obtain rfl := Option.some.inj h
      simp only [leaves_slots, Bool.and_eq_true, beq_iff_eq] at hsame
      refine .quiet (fun k => ⟨state_at_eq hsame.2 k, ?_⟩) (keyed_of_states hsame.2) (fun hk => ?_)
        (fun _ _ h => h) fun _ _ h => h
      · rw [slot_at, hsame.1, slot_at]
      · rw [Db.SlotsKeyed, hsame.1]
        exact hk
    · cases h

end Steps

/-! ## The invariant -/

/-- The invariant. -/
structure Inv (s : Sys) : Prop where
  messages : s.db.MessagesKeyed
  slots : s.db.SlotsKeyed
  fit : ∀ k, fits (state_at k s.db) ((slot_at k s.db).map fun o => o.state) = true
  /-- A lease is of a message there is, at a generation its slot has reached. -/
  known : ∀ w l, (s.party w).held = some l → (state_at l.message_id s.db).isSome = true ∧
    ∀ o, slot_at l.message_id s.db = some o → l.generation ≤ o.generation
  /-- A generation somebody is at work under has not failed. -/
  unsettled : ∀ w l, (s.party w).at_work = some l → ∀ o, slot_at l.message_id s.db = some o →
    o.generation = l.generation → o.state ≠ .failed
  /-- One party to a generation. -/
  unique : ∀ w w' l l', (s.party w).held = some l → (s.party w').held = some l' →
    l.message_id = l'.message_id → l.generation = l'.generation → w = w'

section Fits

variable {db : Db} {k : Uuid} {o : ConversationOutbox}

/-- A slot in flight is a message's that is pending publication. -/
theorem pending_of_fits (h : fits (state_at k db) ((slot_at k db).map fun o => o.state) = true)
    (ho : slot_at k db = some o) (hne : o.state ≠ .failed) :
    state_at k db = some .pending_publication := by
  rw [ho, Option.map_some] at h
  cases hst : state_at k db with
  | none => rw [hst] at h; exact absurd h (by simp [fits])
  | some st =>
    rw [hst] at h
    cases st with
    | pending_publication => rfl
    | stored => exact absurd h (by simp [fits])
    | failed => cases hos : o.state <;> simp_all [fits]

theorem not_failed (h : in_flight o = true) : o.state ≠ .failed := by
  intro hf
  rw [in_flight, hf] at h
  cases h

/-- A message there is not has no slot. -/
theorem no_slot_of_fits (h : fits (state_at k db) ((slot_at k db).map fun o => o.state) = true)
    (hnone : state_at k db = none) : slot_at k db = none := by
  cases ho : slot_at k db with
  | none => rfl
  | some o =>
    rw [hnone, ho] at h
    exact absurd h (by simp [fits])

end Fits

section Keep

variable {s t : Sys} {a : Act} {w : ℕ} {l : Lease} {ph : Phase} {db' : Db} {o : ConversationOutbox}

/-- The lease of `w` is the only one `w` may be left with. -/
theorem held_of_go (hl : (s.party w).held = some l) (hheld : ∀ x, ph.held = some x → x = l) (v : ℕ)
    (x : Lease) (hx : ((s.go w ph db').party v).held = some x) : (s.party v).held = some x := by
  rw [go_party] at hx
  split at hx
  · rename_i hv
    rw [hv, hl, hheld x hx]
  · exact hx

theorem at_work_of_go (hwork : ph.at_work = none) (v : ℕ) (x : Lease)
    (hx : ((s.go w ph db').party v).at_work = some x) : v ≠ w ∧ (s.party v).at_work = some x := by
  rw [go_party] at hx
  split at hx
  · rw [hwork] at hx
    cases hx
  · exact ⟨‹_›, hx⟩

/-- Nothing of any message changed, and no party has a lease it did not have. -/
theorem Inv.quiet (hs : Inv s) (hsame : ∀ k, SameAt k s.db t.db) (hmessages : t.db.MessagesKeyed)
    (hslots : t.db.SlotsKeyed) (hheld : ∀ w l, (t.party w).held = some l → (s.party w).held = some l)
    (hwork : ∀ w l, (t.party w).at_work = some l → (s.party w).at_work = some l) : Inv t := by
  refine ⟨hmessages, hslots, fun k => ?_, fun w l hl => ?_, fun w l hl o ho => ?_,
    fun w w' l l' hl hl' => hs.unique w w' l l' (hheld w l hl) (hheld w' l' hl')⟩
  · rw [(hsame k).1, (hsame k).2]
    exact hs.fit k
  · rw [(hsame l.message_id).1, (hsame l.message_id).2]
    exact hs.known w l (hheld w l hl)
  · rw [(hsame l.message_id).2] at ho
    exact hs.unsettled w l (hwork w l hl) o ho

/-- A statement fenced by the lease of `w`, at its generation, after which `w` is
no longer at work. -/
theorem Inv.cell (hs : Inv s) {st : Option PublicationState}
    {slot : Option ConversationOutbox} (hl : (s.party w).held = some l)
    (ho : slot_at l.message_id s.db = some o) (hgen : o.generation = l.generation)
    (hm : Moved l s.db db' st slot) (hsome : st.isSome = true) (hfit : fits st (slot.map fun o => o.state) = true)
    (hslot : ∀ o', slot = some o' → o'.generation = l.generation) (hwork : ph.at_work = none)
    (hheld : ∀ x, ph.held = some x → x = l) : Inv (s.go w ph db') := by
  refine ⟨hm.messages hs.messages, hm.slots hs.slots, fun k => ?_, fun v x hx => ?_,
    fun v x hx o' ho' hgen' => ?_, fun v v' x x' hx hx' => hs.unique v v' x x'
      (held_of_go hl hheld v x hx) (held_of_go hl hheld v' x' hx')⟩
  · by_cases hk : k = l.message_id
    · rw [hk, go_db, hm.state, hm.slot]
      exact hfit
    · rw [go_db, (hm.others k hk).1, (hm.others k hk).2]
      exact hs.fit k
  · obtain ⟨hst, hbound⟩ := hs.known v x (held_of_go hl hheld v x hx)
    by_cases hk : x.message_id = l.message_id
    · rw [hk] at hbound ⊢
      rw [go_db, hm.state, hm.slot]
      refine ⟨hsome, fun o' ho' => ?_⟩
      rw [hslot o' ho', ← hgen]
      exact hbound o ho
    · rw [go_db, (hm.others _ hk).1, (hm.others _ hk).2]
      exact ⟨hst, hbound⟩
  · obtain ⟨hv, hx⟩ := at_work_of_go hwork v x hx
    by_cases hk : x.message_id = l.message_id
    · -- the slot is still at the generation of `w`, whose party is `w` alone
      rw [hk, go_db, hm.slot] at ho'
      have hsame : x.generation = l.generation := hgen'.symm.trans (hslot o' ho')
      exact absurd (hs.unique v w x l (Phase.held_of_at_work hx) hl hk hsame) hv
    · rw [go_db, (hm.others _ hk).2] at ho'
      exact hs.unsettled v x hx o' ho' hgen'

/-- Who is at work has a message that is pending publication. -/
theorem Inv.pending (hs : Inv s) (hw : (s.party w).at_work = some l)
    (ho : slot_at l.message_id s.db = some o) (hgen : o.generation = l.generation) :
    state_at l.message_id s.db = some .pending_publication :=
  pending_of_fits (hs.fit l.message_id) ho (hs.unsettled w l hw o ho hgen)

theorem Inv.settled (hs : Inv s) {now : ℕ} {r : Settled} (hw : (s.party w).at_work = some l)
    (h : SettledBy now l s.db (r, db')) (hwork : ph.at_work = none)
    (hheld : ∀ x, ph.held = some x → x = l) : Inv (s.go w ph db') := by
  have hl := Phase.held_of_at_work hw
  generalize hres : (r, db') = res at h
  cases h with
  | fenced hnot =>
    obtain ⟨-, rfl⟩ := Prod.mk.inj hres
    exact hs.quiet (fun _ => ⟨rfl, rfl⟩) hs.messages hs.slots (held_of_go hl hheld)
      fun v x hx => (at_work_of_go hwork v x hx).2
  | stored ho hh hm =>
    obtain ⟨-, rfl⟩ := Prod.mk.inj hres
    have hgen := (holds_iff.mp hh).2.1
    rw [hs.pending hw ho hgen] at hm
    exact hs.cell hl ho hgen hm rfl rfl (fun _ h => nomatch h) hwork hheld
  | retrying ho hh hm hpend hgen' =>
    obtain ⟨-, rfl⟩ := Prod.mk.inj hres
    have hgen := (holds_iff.mp hh).2.1
    rw [hs.pending hw ho hgen] at hm
    refine hs.cell hl ho hgen hm rfl ?_ (fun _ h => Option.some.inj h ▸ hgen') hwork hheld
    simp only [Option.map_some, hpend]
    rfl
  | failed ho hh hm hfail hgen' =>
    obtain ⟨-, rfl⟩ := Prod.mk.inj hres
    have hgen := (holds_iff.mp hh).2.1
    rw [hs.pending hw ho hgen] at hm
    refine hs.cell hl ho hgen hm rfl ?_ (fun _ h => Option.some.inj h ▸ hgen') hwork hheld
    simp only [Option.map_some, hfail]
    rfl

theorem Inv.back (hs : Inv s) (hl : (s.party w).held = some l)
    (hopen : ∀ o, slot_at l.message_id s.db = some o → o.generation = l.generation →
      o.state ≠ .failed) (h : GivenBack l s.db db') : Inv (s.go w .idle db') := by
  cases h with
  | nothing hsame hmessages hslots =>
    exact hs.quiet hsame (hmessages hs.messages) (hslots hs.slots)
      (held_of_go hl (by simp [Phase.held])) fun v x hx => (at_work_of_go rfl v x hx).2
  | pending ho hgen hm hpend hgen' =>
    rw [pending_of_fits (hs.fit l.message_id) ho (hopen _ ho hgen)] at hm
    refine hs.cell hl ho hgen hm rfl ?_ (fun _ h => Option.some.inj h ▸ hgen') rfl
      (by simp [Phase.held])
    simp only [Option.map_some, hpend]
    rfl

theorem Inv.leased (hs : Inv s) (hidle : (s.party w).held = none) (h : LeasedBy l s.db db')
    (hph : ph.held = some l) : Inv (s.go w ph db') := by
  obtain ⟨o, o', ho, hflight, hm, hstate, hnext, hgen⟩ := h.slot
  have hst := pending_of_fits (hs.fit l.message_id) ho (not_failed hflight)
  rw [hst] at hm
  -- every other lease of the message is at an earlier generation
  have hother : ∀ v x, ((s.go w ph db').party v).held = some x → (v = w ∧ x = l) ∨
      (v ≠ w ∧ (s.party v).held = some x ∧
        (x.message_id = l.message_id → x.generation < l.generation)) := by
    intro v x hx
    rw [go_party] at hx
    split at hx
    · rename_i hv
      exact Or.inl ⟨hv, Option.some.inj (hx.symm.trans hph)⟩
    · rename_i hv
      refine Or.inr ⟨hv, hx, fun hk => ?_⟩
      have hbound := (hs.known v x hx).2
      rw [hk] at hbound
      have := hbound o ho
      omega
  refine ⟨hm.messages hs.messages, hm.slots hs.slots, fun k => ?_, fun v x hx => ?_,
    fun v x hx y hy hygen => ?_, fun v v' x x' hx hx' hk hg => ?_⟩
  · by_cases hk : k = l.message_id
    · rw [hk, go_db, hm.state, hm.slot, Option.map_some, hstate]
      rfl
    · rw [go_db, (hm.others k hk).1, (hm.others k hk).2]
      exact hs.fit k
  · rcases hother v x hx with ⟨-, rfl⟩ | ⟨-, hx, hlt⟩
    · rw [go_db, hm.state, hm.slot]
      refine ⟨rfl, fun y hy => ?_⟩
      obtain rfl := Option.some.inj hy
      omega
    · by_cases hk : x.message_id = l.message_id
      · rw [hk, go_db, hm.state, hm.slot]
        refine ⟨rfl, fun y hy => ?_⟩
        obtain rfl := Option.some.inj hy
        have := hlt hk
        omega
      · rw [go_db, (hm.others _ hk).1, (hm.others _ hk).2]
        exact hs.known v x hx
  · by_cases hk : x.message_id = l.message_id
    · rw [hk, go_db, hm.slot] at hy
      obtain rfl := Option.some.inj hy
      rw [hstate]
      decide
    · rw [go_db, (hm.others _ hk).2] at hy
      rw [go_party] at hx
      split at hx
      · exact absurd (Option.some.inj ((Phase.held_of_at_work hx).symm.trans hph) ▸ rfl) hk
      · exact hs.unsettled v x hx y hy hygen
  · rcases hother v x hx with ⟨rfl, rfl⟩ | ⟨hv, hx, hlt⟩ <;>
      rcases hother v' x' hx' with ⟨rfl, rfl⟩ | ⟨hv', hx', hlt'⟩
    · rfl
    · have := hlt' hk.symm
      omega
    · have := hlt hk
      omega
    · exact hs.unique v v' x x' hx hx' hk hg

theorem Inv.sent (hs : Inv s) {k : Uuid} (h : Sent k s.db db') : Inv { s with db := db' } := by
  have hnoslot := no_slot_of_fits (hs.fit k) h.fresh
  -- nobody has a lease of a message that was not there
  have hne : ∀ v x, (s.party v).held = some x → x.message_id ≠ k := by
    rintro v x hx rfl
    have hsome := (hs.known v x hx).1
    rw [h.fresh] at hsome
    cases hsome
  refine ⟨h.messages hs.messages, h.slots hs.slots, fun j => ?_, fun v x hx => ?_,
    fun v x hx o ho => ?_, hs.unique⟩
  · by_cases hj : j = k
    · subst hj
      rcases h.sent hnoslot with ⟨hst, hslot⟩ | ⟨hst, o, hslot, hpend⟩
      · rw [hst, hslot]
        rfl
      · rw [hst, hslot, Option.map_some, hpend]
        rfl
    · rw [(h.others j hj).1, (h.others j hj).2]
      exact hs.fit j
  · rw [(h.others _ (hne v x hx)).1, (h.others _ (hne v x hx)).2]
    exact hs.known v x hx
  · rw [(h.others _ (hne v x (Phase.held_of_at_work hx))).2] at ho
    exact hs.unsettled v x hx o ho

theorem Inv.step (hs : Inv s) (hc : marks_open s a = true) (h : Did s a t) : Inv t := by
  cases h with
  | quiet hsame hmessages hslots hheld hwork =>
    exact hs.quiet hsame (hmessages hs.messages) (hslots hs.slots) hheld hwork
  | settled hw h hwork hheld => exact hs.settled hw h hwork hheld
  | @back w l db' hl hopen h =>
    refine hs.back hl ?_ h
    rcases hopen with hw | hopen
    · exact hs.unsettled w l hw
    · exact hopen hc
  | leased hidle h hph => exact hs.leased hidle h hph
  | sent h => exact hs.sent h

end Keep

/-! ## What a run promises -/

/-- A slot waits or is leased exactly when its message is pending publication, has
failed exactly when the message has, and is gone exactly when it is stored. -/
structure Agree (db : Db) : Prop where
  in_flight : ∀ k, state_at k db = some .pending_publication ↔
    ∃ o, slot_at k db = some o ∧ (o.state = .pending ∨ o.state = .leased)
  failed : ∀ k, state_at k db = some .failed ↔ ∃ o, slot_at k db = some o ∧ o.state = .failed
  stored : ∀ k st, state_at k db = some st → (st = .stored ↔ slot_at k db = none)

/-- The settlement a step is, if it takes effect: of which message, under which
generation. -/
def settles (e : Trans Sys Act) : Option (Uuid × ℕ) :=
  match e.act with
  | .settle w now published reconciled =>
    match e.pre.party w with
    | .working l =>
      if (settle now l (outcome_of l published reconciled) e.pre.db).1 = .Fenced then none
      else some (l.message_id, l.generation)
    | _ => none
  | .confirm w now locator =>
    match e.pre.party w with
    | .reconciling l =>
      if (settle now l (.Confirmed locator) e.pre.db).1 = .Fenced then none
      else some (l.message_id, l.generation)
    | _ => none
  | _ => none

/-- What the outbox promises of a run. -/
structure OutboxLaw (tr : List (Trans Sys Act)) : Prop where
  agree : ∀ e ∈ tr, Agree e.pre.db ∧ Agree e.post.db
  /-- A message goes from pending publication to stored or to failed, and stays. -/
  final : ∀ e ∈ tr, ∀ k st, state_at k e.pre.db = some st → state_at k e.post.db = some st ∨
    st = .pending_publication ∧
      (state_at k e.post.db = some .stored ∨ state_at k e.post.db = some .failed)
  /-- No generation is settled twice. -/
  once : ∀ tr₁ e tr₂ f tr₃, tr = tr₁ ++ e :: (tr₂ ++ f :: tr₃) → ∀ g, settles e = some g →
    settles f ≠ some g

section Law

variable {sha256 : String → String} {s t : Sys} {a : Act} {tr : List (Trans Sys Act)} {l : Lease} {db db' : Db}
  {st : Option PublicationState} {slot : Option ConversationOutbox} {k : Uuid} {g : ℕ}

theorem Inv.agree (hs : Inv s) : Agree s.db := by
  refine ⟨fun k => ?_, fun k => ?_, fun k st hst => ?_⟩ <;> have hfit := hs.fit k
  · constructor
    · intro hst
      rw [hst] at hfit
      cases ho : slot_at k s.db with
      | none => rw [ho] at hfit; exact nomatch hfit
      | some o =>
        rw [ho, Option.map_some] at hfit
        refine ⟨o, rfl, ?_⟩
        cases hos : o.state <;> simp_all [fits]
    · rintro ⟨o, ho, hos⟩
      refine pending_of_fits hfit ho ?_
      rcases hos with hos | hos <;> rw [hos] <;> decide
  · constructor
    · intro hst
      rw [hst] at hfit
      cases ho : slot_at k s.db with
      | none => rw [ho] at hfit; exact nomatch hfit
      | some o =>
        rw [ho, Option.map_some] at hfit
        refine ⟨o, rfl, ?_⟩
        cases hos : o.state <;> simp_all [fits]
    · rintro ⟨o, ho, hos⟩
      rw [ho, Option.map_some, hos] at hfit
      cases hst : state_at k s.db with
      | none => rw [hst] at hfit; exact nomatch hfit
      | some st => rw [hst] at hfit; cases st <;> simp_all [fits]
  · rw [hst] at hfit
    cases ho : slot_at k s.db with
    | none | some o => rw [ho] at hfit; cases st <;> simp_all [fits]

/-- A message's state after a statement on its slot, or on another's. -/
theorem state_moved (hm : Moved l db db' st slot) (k : Uuid) :
    state_at k db' = if k = l.message_id then st else state_at k db := by
  split
  · rename_i hk
    rw [hk]
    exact hm.state
  · exact (hm.others k ‹_›).1

theorem Inv.final (hs : Inv s) (h : Did s a t) {st : PublicationState}
    (hst : state_at k s.db = some st) : state_at k t.db = some st ∨ st = .pending_publication ∧
      (state_at k t.db = some .stored ∨ state_at k t.db = some .failed) := by
  cases h with
  | quiet hsame => exact Or.inl ((hsame k).1.trans hst)
  | @settled w now l ph r db' hw h =>
    -- what is settled was pending publication
    have hpend : ∀ o, slot_at l.message_id s.db = some o → holds now l o = true →
        k = l.message_id → st = .pending_publication := by
      intro o ho hh hk
      have := hs.pending hw ho (holds_iff.mp hh).2.1
      rw [← hk, hst] at this
      exact Option.some.inj this
    rw [go_db]
    generalize hres : (r, db') = res at h
    cases h with
    | fenced =>
      obtain ⟨-, rfl⟩ := Prod.mk.inj hres
      exact Or.inl hst
    | stored ho hh hm =>
      obtain ⟨-, rfl⟩ := Prod.mk.inj hres
      rw [state_moved hm k]
      split
      · rename_i hk
        rw [← hk, hst]
        exact Or.inr ⟨hpend _ ho hh hk, Or.inl rfl⟩
      · exact Or.inl hst
    | retrying ho hh hm =>
      obtain ⟨-, rfl⟩ := Prod.mk.inj hres
      rw [state_moved hm k]
      split
      · rename_i hk
        rw [← hk]
        exact Or.inl hst
      · exact Or.inl hst
    | failed ho hh hm =>
      obtain ⟨-, rfl⟩ := Prod.mk.inj hres
      rw [state_moved hm k]
      split
      · rename_i hk
        rw [← hk, hst]
        exact Or.inr ⟨hpend _ ho hh hk, Or.inr rfl⟩
      · exact Or.inl hst
  | back _ _ h =>
    left
    cases h with
    | nothing hsame => exact (hsame k).1.trans hst
    | pending _ _ hm =>
      rw [go_db, state_moved hm k]
      split
      · rename_i hk
        rw [← hk]
        exact hst
      · exact hst
  | leased _ h =>
    left
    obtain ⟨_, _, -, -, hm, -⟩ := h.slot
    rw [go_db, state_moved hm k]
    split
    · rename_i hk
      rw [← hk]
      exact hst
    · exact hst
  | @sent j _ h =>
    have hne : k ≠ j := by
      rintro rfl
      rw [h.fresh] at hst
      cases hst
    exact Or.inl ((h.others k hne).1.trans hst)

/-- Generation `g` of message `k` is over: its slot is gone, ahead of it, or held
by nobody. -/
def Spent (k : Uuid) (g : ℕ) (db : Db) : Prop :=
  (state_at k db).isSome = true ∧ ∀ o, slot_at k db = some o →
    g < o.generation ∨ o.generation = g ∧ o.lease_expires_at = none

/-- A statement on the slot of `k` leaves a generation spent, if it raises the
slot's or leaves the slot unheld. -/
theorem Spent.moved {o : ConversationOutbox} (hsp : Spent k g db)
    (hm : Moved l db db' st slot) (ho : slot_at l.message_id db = some o) (hsome : st.isSome = true)
    (hslot : ∀ o', slot = some o' →
      o.generation < o'.generation ∨ o'.generation = o.generation ∧ o'.lease_expires_at = none) :
    Spent k g db' := by
  by_cases hk : k = l.message_id
  · subst hk
    refine ⟨by rw [hm.state]; exact hsome, fun o' ho' => ?_⟩
    rw [hm.slot] at ho'
    have hold := hsp.2 o ho
    rcases hslot o' ho' with hlt | ⟨heq, hnone⟩
    · omega
    · rcases hold with hlt | ⟨heq', -⟩
      · omega
      · exact Or.inr ⟨heq.trans heq', hnone⟩
  · rw [Spent, (hm.others k hk).1, (hm.others k hk).2]
    exact hsp

theorem Spent.step (hsp : Spent k g s.db) (hs : Inv s) (h : Did s a t) : Spent k g t.db := by
  -- a slot has a message
  have hsome : ∀ {l : Lease} {o : ConversationOutbox}, slot_at l.message_id s.db = some o →
      (state_at l.message_id s.db).isSome = true := by
    intro l o ho
    have hfit := hs.fit l.message_id
    cases hst : state_at l.message_id s.db with
    | none =>
      rw [no_slot_of_fits hfit hst] at ho
      cases ho
    | some _ => rfl
  cases h with
  | quiet hsame =>
    rw [Spent, (hsame k).1, (hsame k).2]
    exact hsp
  | @settled w now l ph r db' _ h =>
    rw [go_db]
    generalize hres : (r, db') = res at h
    cases h with
    | fenced =>
      obtain ⟨-, rfl⟩ := Prod.mk.inj hres
      exact hsp
    | stored ho hh hm =>
      obtain ⟨-, rfl⟩ := Prod.mk.inj hres
      exact hsp.moved hm ho (by rw [Option.isSome_map]; exact hsome ho)
        fun _ h => nomatch h
    | retrying ho hh hm _ hgen hnone =>
      obtain ⟨-, rfl⟩ := Prod.mk.inj hres
      refine hsp.moved hm ho (hsome ho) fun o' h => Or.inr ?_
      obtain rfl := Option.some.inj h
      exact ⟨hgen.trans (holds_iff.mp hh).2.1.symm, hnone⟩
    | failed ho hh hm _ hgen hnone =>
      obtain ⟨-, rfl⟩ := Prod.mk.inj hres
      refine hsp.moved hm ho (by rw [Option.isSome_map]; exact hsome ho) fun o' h => Or.inr ?_
      obtain rfl := Option.some.inj h
      exact ⟨hgen.trans (holds_iff.mp hh).2.1.symm, hnone⟩
  | back _ _ h =>
    rw [go_db]
    cases h with
    | nothing hsame =>
      rw [Spent, (hsame k).1, (hsame k).2]
      exact hsp
    | pending ho hgen hm _ hgen' hnone =>
      refine hsp.moved hm ho (hsome ho) fun o' h => Or.inr ?_
      obtain rfl := Option.some.inj h
      exact ⟨hgen'.trans hgen.symm, hnone⟩
  | leased _ h =>
    obtain ⟨o, o', ho, -, hm, -, hnext, hgen⟩ := h.slot
    refine hsp.moved hm ho (hsome ho) fun x h => Or.inl ?_
    obtain rfl := Option.some.inj h
    omega
  | @sent j _ h =>
    have hne : k ≠ j := by
      rintro rfl
      have := hsp.1
      rw [h.fresh] at this
      cases this
    rw [Spent, (h.others k hne).1, (h.others k hne).2]
    exact hsp

/-- A settlement that takes effect finds its slot held at its generation, and
leaves that generation spent. -/
theorem settles_spent {e : Trans Sys Act} (hs : Inv e.pre)
    (h : step sha256 e.pre e.act = some e.post) (hset : settles e = some (k, g)) :
    (∃ o, slot_at k e.pre.db = some o ∧ o.generation = g ∧ o.lease_expires_at ≠ none) ∧
      Spent k g e.post.db := by
  have hlaw : ∀ w l now outcome, (e.pre.party w).at_work = some l →
      (settle now l outcome e.pre.db).1 ≠ .Fenced → (l.message_id, l.generation) = (k, g) →
      e.post.db = (settle now l outcome e.pre.db).2 →
      (∃ o, slot_at k e.pre.db = some o ∧ o.generation = g ∧ o.lease_expires_at ≠ none) ∧
        Spent k g e.post.db := by
    intro w l now outcome hw hne hkey hpost
    obtain ⟨rfl, rfl⟩ := Prod.mk.inj hkey
    rw [hpost]
    have hknown := (hs.known w l (Phase.held_of_at_work hw)).1
    have hheld : ∀ {o}, slot_at l.message_id e.pre.db = some o → holds now l o = true →
        ∃ o, slot_at l.message_id e.pre.db = some o ∧ o.generation = l.generation ∧
          o.lease_expires_at ≠ none := by
      intro o ho hh
      obtain ⟨-, hgen, t, ht, -⟩ := holds_iff.mp hh
      exact ⟨o, ho, hgen, by rw [ht]; simp⟩
    have hspec : SettledBy now l e.pre.db (settle now l outcome e.pre.db) := settle_spec hs.slots outcome
    generalize settle now l outcome e.pre.db = res at hspec hne
    cases hspec with
    | fenced => exact absurd rfl hne
    | stored ho hh hm =>
      refine ⟨hheld ho hh, by rw [hm.state, Option.isSome_map]; exact hknown, fun o' ho' => ?_⟩
      rw [hm.slot] at ho'
      cases ho'
    | retrying ho hh hm _ hgen hnone =>
      refine ⟨hheld ho hh, by rw [hm.state]; exact hknown, fun o' ho' => Or.inr ?_⟩
      rw [hm.slot] at ho'
      obtain rfl := Option.some.inj ho'
      exact ⟨hgen, hnone⟩
    | failed ho hh hm _ hgen hnone =>
      refine ⟨hheld ho hh, by rw [hm.state, Option.isSome_map]; exact hknown,
        fun o' ho' => Or.inr ?_⟩
      rw [hm.slot] at ho'
      obtain rfl := Option.some.inj ho'
      exact ⟨hgen, hnone⟩
  cases hact : e.act with
  | settle w now | confirm w now =>
    rw [hact] at h
    simp only [settles, hact] at hset
    simp only [step] at h
    split at hset
    · rename_i l hw
      rw [hw] at h
      split at hset
      · cases hset
      · rename_i hne
        exact hlaw w l now _ (by rw [hw]; rfl) hne (Option.some.inj hset)
          (by rw [← Option.some.inj h]; rfl)
    · cases hset
  | _ => simp [settles, hact] at hset

theorem fits_of_agree (h : Agree db) (k : Uuid) :
    fits (state_at k db) ((slot_at k db).map fun o => o.state) = true := by
  cases ho : slot_at k db with
  | none =>
    cases hst : state_at k db with
    | none => rfl
    | some st =>
      obtain rfl := (h.stored k st hst).mpr ho
      rfl
  | some o =>
    cases hos : o.state with
    | failed =>
      rw [(h.failed k).mpr ⟨o, ho, hos⟩, Option.map_some, hos]
      rfl
    | pending =>
      rw [(h.in_flight k).mpr ⟨o, ho, Or.inl hos⟩, Option.map_some, hos]
      rfl
    | leased =>
      rw [(h.in_flight k).mpr ⟨o, ho, Or.inr hos⟩, Option.map_some, hos]
      rfl

/-- The server as it starts: nobody holds anything. -/
def Sys.start (db : Db) : Sys := ⟨db, fun _ => .idle⟩

theorem start_inv (hmessages : db.MessagesKeyed) (hslots : db.SlotsKeyed) (hagree : Agree db) :
    Inv (Sys.start db) :=
  ⟨hmessages, hslots, fits_of_agree hagree, fun _ _ h => absurd h (by simp [Sys.start, Phase.held]),
    fun _ _ h => absurd h (by simp [Sys.start, Phase.at_work]),
    fun _ _ _ _ h => absurd h (by simp [Sys.start, Phase.held])⟩

/-- **The outbox keeps its promises** in every run in which no timed-out attempt
is marked uncertain after it failed. -/
theorem outbox_settles_once {db : Db} (hmessages : Keyed ConversationMessage.id db.conversation_messages)
    (hslots : Keyed ConversationOutbox.message_id db.conversation_outbox) (hagree : Agree db)
    (h : Run (Rel (step sha256)) (Sys.start db) tr s)
    (hC : ∀ e ∈ tr, marks_open e.pre e.act = true) : OutboxLaw tr := by
  have hkeep : ∀ s a t, Inv s → marks_open s a = true → Rel (step sha256) s a t → Inv t :=
    fun s a t hs hc hr => hs.step hc (step_did hs.slots hr)
  have hinv : ∀ e ∈ tr, Inv e.pre :=
    h.invariant_pre (C := fun s a => marks_open s a = true) (start_inv hmessages hslots hagree)
      hkeep hC
  refine ⟨fun e he => ⟨(hinv e he).agree, (hkeep _ _ _ (hinv e he) (hC e he) (h.rel e he)).agree⟩,
    fun e he k st hst => (hinv e he).final (step_did (hinv e he).slots (h.rel e he)) hst, ?_⟩
  rintro tr₁ e tr₂ f tr₃ rfl ⟨k, g⟩ he hf
  have hmem : e ∈ tr₁ ++ e :: (tr₂ ++ f :: tr₃) := by simp
  have hpre := hinv e hmem
  -- from the first settlement on, its generation is spent
  obtain ⟨-, hstep, hrest⟩ := h.split
  have hkept : Inv f.pre ∧ Spent k g f.pre.db := by
    refine hrest.split.1.invariant (I := fun s => Inv s ∧ Spent k g s.db)
      (C := fun s a => marks_open s a = true)
      ⟨hkeep _ _ _ hpre (hC e hmem) hstep, (settles_spent hpre hstep he).2⟩ ?_
      fun x hx => hC x (by simp [hx])
    intro s a t hs hc hr
    exact ⟨hkeep s a t hs.1 hc hr, hs.2.step hs.1 (step_did hs.1.slots hr)⟩
  -- and the second would have to find it held
  obtain ⟨⟨o, ho, hgen, hheld⟩, -⟩ := settles_spent hkept.1 hrest.split.2.1 hf
  rcases hkept.2.2 o ho with hlt | ⟨-, hnone⟩
  · omega
  · exact hheld hnone

end Law

/-! ## A run -/

/-- Ada's thread publishes through the outbox. -/
def crew : Db := seated .jetstream "desk"

theorem crew_agrees : Agree crew :=
  ⟨fun k => ⟨fun h => absurd h (by simp [state_at, crew, seated, pair, one]), fun ⟨o, h, _⟩ => absurd h (by
      simp [slot_at, crew, seated, pair, one])⟩,
    fun k => ⟨fun h => absurd h (by simp [state_at, crew, seated, pair, one]), fun ⟨o, h, _⟩ => absurd h (by
      simp [slot_at, crew, seated, pair, one])⟩,
    fun k st h => absurd h (by simp [state_at, crew, seated, pair, one])⟩

/-- Ada sends, a worker leases the slot, and its attempt is cut after it failed
for good. The last step is up to the worker. -/
def attempt (published : Published) : List Act :=
  [.send 0 crew ada_at_desk 7 ⟨"hello", 100, none⟩ 50 51, .lease 0 1 "w0" [], .settle 0 2 published none,
    .timeout 0, .mark_uncertain 0 3]

/-- An attempt whose body was confirmed before it was cut. -/
theorem confirmed_run :
    (exec (step digest) (Sys.start crew) (attempt (.Confirmed (.jetstream 1 1)))).isSome = true := by
  decide

theorem outbox_settles_once_confirmed : OutboxLaw
    ((exec (step digest) (Sys.start crew) (attempt (.Confirmed (.jetstream 1 1)))).get
      confirmed_run).1 :=
  outbox_settles_once (by decide) (by decide) crew_agrees (exec_get confirmed_run) (by decide)

/-! ## A slot under a failed message -/

theorem failed_run : (exec (step digest) (Sys.start crew) (attempt (.Fatal "too large"))).isSome = true := by decide

/-- The run of an attempt that failed before it was cut, and where it ends. -/
def failed_end : List (Trans Sys Act) × Sys :=
  (exec (step digest) (Sys.start crew) (attempt (.Fatal "too large"))).get failed_run

/-- The slot waits to be published again, and the message has failed. -/
theorem failed_slot_waits :
    Run (Rel (step digest)) (Sys.start crew) failed_end.1 failed_end.2 ∧
      state_at 50 failed_end.2.db = some .failed ∧
      (slot_at 50 failed_end.2.db).map (fun o => o.state) = some .pending ∧
      ¬ OutboxLaw failed_end.1 := by
  refine ⟨exec_get failed_run, by decide, by decide, fun hlaw => ?_⟩
  have hlast : ∃ e ∈ failed_end.1, state_at 50 e.post.db = some .failed ∧
      (slot_at 50 e.post.db).map (fun o => o.state) = some .pending := by decide
  obtain ⟨e, he, hfailed, hpending⟩ := hlast
  obtain ⟨o, ho, hos⟩ := ((hlaw.agree e he).2.failed 50).mp hfailed
  rw [ho, Option.map_some, hos] at hpending
  exact absurd hpending (by decide)

end CrewSync.Publication
