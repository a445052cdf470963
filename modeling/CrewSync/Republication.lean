/-
A publication whose outcome is unknown is not to be made again before the backend was
asked what it holds.

What keeps the two apart is time alone. `mark_uncertain` returns the slot to the queue,
due in five seconds; the reconciler asks on a timer of its own, every thirty. Nothing
tells the queue whether it has asked. Where no worker takes a slot five seconds or more
after its mark, and unanswered, nothing is published blind: until then the slot is not
due (`Waits`). The other way there is a worker that was slow between its lease and its
publish, and that another has overtaken.
-/
import CrewSync.Attempts

set_option autoImplicit false

namespace CrewSync.Republication

open Schema Rows
open Outbox Runs Attempts Crew
open Settlement (state_at slot_at SameAt Moved Settles Back holds_iff at_generation_iff slot_mem any_iff_slot
  mark_uncertain_back)

/-! ## What is said of a run -/

/-- It is recorded, at `now`, that the publish of `k` ended without an answer. -/
def marks (k : Uuid) (now : ℕ) (e : Trans Sys Act) : Prop :=
  ∃ i l, e.act = .mark_uncertain i now ∧ e.pre.parties[i]? = some (.timed_out l) ∧ l.message_id = k ∧
    e.pre.db.conversation_outbox.any (at_generation l) = true

/-- A worker publishes the slot of `k`. -/
def publishes (k : Uuid) (e : Trans Sys Act) : Prop :=
  ∃ i l, e.act = .publish i ∧ e.pre.parties[i]? = some (.leased l) ∧ l.message_id = k

/-- The backend answers that it holds nothing of `k`. -/
def answers_nothing (k : Uuid) (e : Trans Sys Act) : Prop :=
  ∃ i l, l.message_id = k ∧
    (e.act = .word i (.answered (.ok none)) ∧ e.pre.parties[i]? = some (.asking l) ∨
      ∃ why, e.act = .word i (.consulted (.ok none)) ∧ e.pre.parties[i]? = some (.consulting l why))

/-- The backend says that it holds nothing. -/
def hears_nothing : Act → Bool
  | .word _ (.answered (.ok none)) | .word _ (.consulted (.ok none)) => true
  | _ => false

theorem hears_nothing_of_answers {k : Uuid} {e : Trans Sys Act} (h : answers_nothing k e) :
    hears_nothing e.act = true := by
  obtain ⟨i, l, -, ⟨hact, -⟩ | ⟨why, hact, -⟩⟩ := h
  · rw [hact]
    rfl
  · rw [hact]
    rfl

def is_mark : Act → Bool
  | .mark_uncertain _ _ => true
  | _ => false

def is_lease : Act → Bool
  | .lease _ _ _ _ => true
  | _ => false

/-- A worker takes the slot of `k` from the queue, at `now`. -/
def leases (k : Uuid) (now : ℕ) (s : Sys) (a : Act) : Prop :=
  ∃ i worker locked l db', a = .lease i now worker locked ∧ s.parties[i]? = some .idle ∧
    lease now worker locked.contains s.db = some (l, db') ∧ l.message_id = k

/-- No publication whose outcome is unknown is made again before the backend has
answered that it holds nothing. -/
def NeverBlind (tr : List (Trans Sys Act)) : Prop :=
  ∀ tr₁ e tr₂ e' tr₃, tr = tr₁ ++ e :: (tr₂ ++ e' :: tr₃) → ∀ k now, marks k now e → publishes k e' →
    ∃ x ∈ tr₂, answers_nothing k x

/-- `next_attempt_at = now() + interval '5 seconds'`. -/
def DELAY : ℕ := secs 5

/-- The reconciler is in time, and so is every worker. -/
structure InTime (tr : List (Trans Sys Act)) : Prop where
  /-- A slot is not taken from the queue once `DELAY` has passed since its mark, unless
  the backend has answered. -/
  answered : ∀ tr₁ e tr₂ e' tr₃, tr = tr₁ ++ e :: (tr₂ ++ e' :: tr₃) → ∀ k t now, marks k t e →
    leases k now e'.pre e'.act → t + DELAY ≤ now → ∃ x ∈ tr₂, answers_nothing k x
  /-- A worker publishes before another party has taken the slot. -/
  current : ∀ e ∈ tr, ∀ i l, e.act = .publish i → e.pre.parties[i]? = some (.leased l) →
    e.pre.db.conversation_outbox.any (at_generation l) = true

/-! ## Until the backend has answered -/

/-- The slot of `k` is not due before `due_at`, and no worker has it. -/
structure Waits (k : Uuid) (due_at : ℕ) (s : Sys) : Prop where
  there : (state_at k s.db).isSome = true
  later : ∀ o, slot_at k s.db = some o → due_at ≤ o.next_attempt_at
  free : ∀ o, slot_at k s.db = some o → ∀ i l, s.drains i = some l → l.message_id = k →
    l.generation ≠ o.generation

section Steps

variable {sha256 : String → String} {s t : Sys} {a : Act} {k : Uuid} {due_at i : ℕ} {l : Lease}
  {before after : Phase} {db' : Db} {tr : List (Trans Sys Act)}

/-- A party goes on and has no other lease of the queue, and the slot is as it was. -/
theorem Waits.of_same (hw : Waits k due_at s) (hi : s.parties[i]? = some before)
    (hdrains : after.drains = none ∨ after.drains = before.drains) (hsame : SameAt k s.db db') :
    Waits k due_at (s.go i after db') := by
  refine ⟨?_, fun o ho => ?_, fun o ho j x hx hk => ?_⟩
  · rw [go_db, hsame.1]
    exact hw.there
  · rw [go_db, hsame.2] at ho
    exact hw.later o ho
  · rw [go_db, hsame.2] at ho
    refine hw.free o ho j x ?_ hk
    rw [drains_go hi] at hx
    split at hx
    · rename_i hj
      rcases hdrains with hnone | hkeeps
      · rw [hnone] at hx
        cases hx
      · rw [hj, drains_of_party hi, ← hkeeps]
        exact hx
    · exact hx

/-- The slot is rewritten, at its generation or a later one, and is due no earlier. -/
theorem Waits.of_written (hw : Waits k due_at s) (hs : Inv s) (hi : s.parties[i]? = some before)
    (hafter : after.drains = none) {o o' : ConversationOutbox} {st : Option PublicationState}
    (hm : Moved l s.db db' st (some o')) (hk : l.message_id = k) (ho : slot_at k s.db = some o)
    (hst : st.isSome = true) (hgen : o'.generation = o.generation ∨ o.generation < o'.generation)
    (hnext : o'.next_attempt_at = o.next_attempt_at) : Waits k due_at (s.go i after db') := by
  subst hk
  refine ⟨?_, fun x hx => ?_, fun x hx j y hy hyk => ?_⟩
  · rw [go_db, hm.state]
    exact hst
  · rw [go_db, hm.slot] at hx
    rw [← Option.some.inj hx, hnext]
    exact hw.later o ho
  · rw [go_db, hm.slot] at hx
    rw [← Option.some.inj hx]
    have hyold : s.drains j = some y := by
      rw [drains_go hi] at hy
      split at hy
      · rw [hafter] at hy
        cases hy
      · exact hy
    have hle := (hs.known j y (held_of_drains hyold)).2 o (hyk ▸ ho)
    have hne := hw.free o ho j y hyold hyk
    omega

theorem Waits.of_settles (hw : Waits k due_at s) {now : ℕ} {p : Published} {r : Settled}
    (hi : s.parties[i]? = some before) (hdrains : after.drains = none ∨ after.drains = before.drains)
    (h : Settles now l s.db p r db')
    (hown : l.message_id = k → before.drains = some l ∨ ∃ locator, p = .Confirmed locator) :
    Waits k due_at (s.go i after db') := by
  -- a worker's settlement finds another generation
  have hfree : ∀ o, slot_at l.message_id s.db = some o → holds now l o = true → l.message_id = k →
      before.drains ≠ some l := by
    intro o ho hheld hk hd
    exact hw.free o (hk ▸ ho) i l ((drains_of_party hi).trans hd) hk (holds_iff.mp hheld).2.1.symm
  cases h with
  | fenced _ => exact hw.of_same hi hdrains ⟨rfl, rfl⟩
  | stored ho hheld hm =>
    by_cases hk : l.message_id = k
    · subst hk
      refine ⟨?_, fun o ho' => ?_, fun o ho' => ?_⟩
      · rw [go_db, hm.state]
        simpa using hw.there
      · rw [go_db, hm.slot] at ho'
        cases ho'
      · rw [go_db, hm.slot] at ho'
        cases ho'
    · exact hw.of_same hi hdrains (hm.others k (Ne.symm hk))
  | retried ho hheld _ hm =>
    by_cases hk : l.message_id = k
    · rcases hown hk with hd | ⟨locator, hp⟩
      · exact absurd hd (hfree _ ho hheld hk)
      · cases hp
    · exact hw.of_same hi hdrains (hm.others k (Ne.symm hk))
  | failed ho hheld hnot hm _ _ _ =>
    by_cases hk : l.message_id = k
    · rcases hown hk with hd | ⟨locator, hp⟩
      · exact absurd hd (hfree _ ho hheld hk)
      · exact absurd hp (hnot locator)
    · exact hw.of_same hi hdrains (hm.others k (Ne.symm hk))

theorem Waits.of_back (hw : Waits k due_at s) {f : ConversationOutbox → ConversationOutbox}
    (hi : s.parties[i]? = some before) (hd : before.drains = some l) (h : Back l f s.db db') :
    Waits k due_at (s.go i .idle db') := by
  cases h with
  | missed _ hsame _ _ => exact hw.of_same hi (Or.inl rfl) (hsame k)
  | written ho hgen hm =>
    by_cases hk : l.message_id = k
    · exact absurd hgen.symm (hw.free _ (hk ▸ ho) i l ((drains_of_party hi).trans hd) hk)
    · exact hw.of_same hi (Or.inl rfl) (hm.others k (Ne.symm hk))

/-- While the queue leaves the slot alone, it goes on waiting. -/
theorem Waits.step (hw : Waits k due_at s) (hs : Inv s)
    (hearly : ∀ now, leases k now s a → now < due_at) (h : Did s a t) : Waits k due_at t := by
  cases h with
  | still hsame _ _ _ hparties =>
    refine ⟨?_, fun o ho => ?_, fun o ho i l hl => ?_⟩
    · rw [(hsame k).1]
      exact hw.there
    · rw [(hsame k).2] at ho
      exact hw.later o ho
    · rw [(hsame k).2] at ho
      exact hw.free o ho i l (bind_join rfl hparties hl)
  | @sent _ k' db' hsent _ =>
    have hne : k ≠ k' := by
      rintro rfl
      have hthere := hw.there
      rw [hsent.fresh] at hthere
      cases hthere
    refine ⟨?_, fun o ho => ?_, fun o ho i l hl => ?_⟩
    · rw [(hsent.others k hne).1]
      exact hw.there
    · rw [(hsent.others k hne).2] at ho
      exact hw.later o ho
    · rw [(hsent.others k hne).2] at ho
      exact hw.free o ho i l hl
  | @called i l hi =>
    have hgo : Waits k due_at (s.go i (.publishing l) s.db) := hw.of_same hi (Or.inr rfl) ⟨rfl, rfl⟩
    exact ⟨hgo.there, hgo.later, hgo.free⟩
  | heard hi hon => exact hw.of_same hi (onward_held hon).2 ⟨rfl, rfl⟩
  | @leased i now worker locked o db' hi hlease hdue htook =>
    by_cases hk : o.message_id = k
    · -- it would be due, before it is
      simp only [due, Bool.and_eq_true, decide_eq_true_eq] at hdue
      have hlater := hw.later o (hk ▸ htook.there)
      have hnow := hearly now ⟨i, worker, locked, _, db', rfl, hi, hlease, hk⟩
      omega
    · refine ⟨?_, fun x hx => ?_, fun x hx j y hy hyk => ?_⟩
      · rw [go_db, (htook.moved.others k (Ne.symm hk)).1]
        exact hw.there
      · rw [go_db, (htook.moved.others k (Ne.symm hk)).2] at hx
        exact hw.later x hx
      · rw [go_db, (htook.moved.others k (Ne.symm hk)).2] at hx
        rw [drains_go hi] at hy
        split at hy
        · rw [← Option.some.inj hy] at hyk
          exact absurd hyk hk
        · exact hw.free x hx j y hy hyk
  | @taken i now k' o db' hi _ _ htook =>
    by_cases hk : o.message_id = k
    · exact hw.of_written hs hi rfl htook.moved hk (hk ▸ htook.there) (hk ▸ hw.there)
        (Or.inr (Nat.lt_succ_self _)) rfl
    · exact hw.of_same hi (Or.inl rfl) (htook.moved.others k (Ne.symm hk))
  | settled hi h => exact hw.of_settles hi (Or.inr rfl) h fun _ => Or.inl rfl
  | confirmed hi h => exact hw.of_settles hi (Or.inl rfl) h fun _ => Or.inr ⟨_, rfl⟩
  | released hi h | marked hi h => exact hw.of_back hi rfl h
  | @unleased i now l db' hi h =>
    cases h with
    | missed _ hsame _ _ => exact hw.of_same hi (Or.inl rfl) (hsame k)
    | written ho hgen hm =>
      by_cases hk : l.message_id = k
      · subst hk
        exact hw.of_written hs hi rfl hm rfl ho hw.there (Or.inl rfl) rfl
      · exact hw.of_same hi (Or.inl rfl) (hm.others k (Ne.symm hk))

/-- It waits from its mark on. -/
theorem waits_of_marks {e : Trans Sys Act} {now : ℕ} (hs : Inv e.pre)
    (h : step sha256 e.pre e.act = some e.post) (hm : marks k now e) : Waits k (now + DELAY) e.post := by
  obtain ⟨i, l, hact, hi, rfl, hany⟩ := hm
  obtain ⟨o, ho, hat⟩ := (any_iff_slot hs.slots fun o h => (at_generation_iff.mp h).1).mp hany
  have hgen := (at_generation_iff.mp hat).2
  simp only [hact, step, hi, Option.some.injEq] at h
  rw [← h]
  have hback : Back l (uncertain_row now "the publish did not answer within the timeout") e.pre.db
    (mark_uncertain now l "the publish did not answer within the timeout" e.pre.db).2 :=
    mark_uncertain_back hs.slots _
  cases hback with
  | missed hnot _ _ _ => exact absurd hgen (hnot o ho)
  | @written x hx hxgen hmoved =>
    refine ⟨?_, fun y hy => ?_, fun y hy j l' hl' hk => ?_⟩
    · rw [go_db, hmoved.state]
      exact hs.owned _ o ho
    · rw [go_db, hmoved.slot] at hy
      rw [← Option.some.inj hy]
      exact le_refl _
    · rw [go_db, hmoved.slot] at hy
      rw [← Option.some.inj hy]
      intro hsame
      rw [drains_go hi] at hl'
      split at hl'
      · exact absurd hl' (by simp [Phase.drains])
      · -- nobody else has this generation
        rename_i hj
        exact hj (hs.unique j i l' l (held_of_drains hl') (held_of_party hi) hk (hsame.trans hxgen))

/-- **Where the reconciler and the workers are in time, nothing is published blind.** -/
theorem never_published_blind {db : Db} (hmessages : Keyed ConversationMessage.id db.conversation_messages)
    (hslots : Keyed ConversationOutbox.message_id db.conversation_outbox)
    (howned : ∀ k o, slot_at k db = some o → (state_at k db).isSome = true)
    (hrun : Run (Rel (step sha256)) (Sys.start db) tr t) (hin : InTime tr) : NeverBlind tr := by
  have hpre : ∀ e ∈ tr, Inv e.pre := hrun.invariant_pre (C := fun _ _ => True)
    (start_inv hmessages hslots howned) (fun s a t hs _ h => hs.step h) fun _ _ => trivial
  intro tr₁ e tr₂ e' tr₃ htr k now hmark hpub
  by_contra hnone
  obtain ⟨hbefore, hstep, hafter⟩ := (htr ▸ hrun).split
  obtain ⟨hbetween, -, -⟩ := hafter.split
  have he : e ∈ tr := by simp [htr]
  have he' : e' ∈ tr := by simp [htr]
  have hstart : Inv e.post ∧ Waits k (now + DELAY) e.post :=
    ⟨(hpre e he).step hstep, waits_of_marks (hpre e he) hstep hmark⟩
  -- a lease before the answer is early, so that it is of another slot
  have hearly : ∀ x ∈ tr₂, ∀ u, leases k u x.pre x.act → u < now + DELAY := by
    intro x hx u hlease
    by_contra hlate
    obtain ⟨l₁, l₂, rfl⟩ := List.append_of_mem hx
    obtain ⟨y, hy, hans⟩ := hin.answered tr₁ e l₁ x (l₂ ++ e' :: tr₃) (by simp [htr]) k now u hmark hlease
      (by omega)
    exact hnone ⟨y, List.mem_append_left _ hy, hans⟩
  obtain ⟨hinv, hwaits⟩ := hbetween.invariant (I := fun s => Inv s ∧ Waits k (now + DELAY) s)
    (C := fun s a => ∀ u, leases k u s a → u < now + DELAY) hstart
    (fun s a t hs hc h => ⟨hs.1.step h, hs.2.step hs.1 hc (step_did hs.1.slots h)⟩) hearly
  obtain ⟨i, l, hact, hi, rfl⟩ := hpub
  obtain ⟨o, ho, hat⟩ := (any_iff_slot hinv.slots fun o h => (at_generation_iff.mp h).1).mp
    (hin.current e' he' i l hact hi)
  exact hwaits.free o ho i l (drains_of_party hi) rfl (at_generation_iff.mp hat).2.symm

end Steps

/-! ## Two runs -/

/-- Ada has a thread on JetStream. -/
def crew : Db := seated .jetstream "desk"

/-- Ada sends; a worker publishes, hears nothing, and says so at `now`. -/
def unanswered (now : ℕ) : List Act :=
  [.join, .join, .send 0 crew ada_at_desk 7 ⟨"hello", 100, none⟩ 50 51, .lease 0 1 "w0" [], .publish 0,
    .word 0 .timeout, .mark_uncertain 0 now]

/-- The reconciler asks, and finds nothing. -/
def reconciled : List Act :=
  [.lease_one 1 40 50, .word 1 (.answered (.ok none)), .unlease 1 41]

/-- Five seconds after the mark, a worker takes the slot and publishes. -/
def again : List Act := [.lease 0 (secs 5 + 30) "w0" [], .publish 0]

theorem crew_owned : ∀ k o, slot_at k crew = some o → (state_at k crew).isSome = true :=
  fun k o h => absurd h (by simp [slot_at, crew, seated, pair, one])

/-- The run in which the reconciler is in time. -/
def asked : List Act := unanswered 30 ++ reconciled ++ again

theorem asked_run : (exec (step digest) (Sys.start crew) asked).isSome = true := by decide

/-- Which of its steps are marks, and which are leases. -/
def marks_and_leases : List (Bool × Bool) :=
  [(false, false), (false, false), (false, false), (false, true), (false, false), (false, false),
    (true, false), (false, false), (false, false), (false, false), (false, true), (false, false)]

theorem asked_acts : (((exec (step digest) (Sys.start crew) asked).get asked_run).1.map fun e =>
    (is_mark e.act, is_lease e.act)) = marks_and_leases :=
  (List.map_map (f := Trans.act) (g := fun a => (is_mark a, is_lease a))).symm.trans
    (congrArg (List.map fun a => (is_mark a, is_lease a)) (exec_acts asked_run))

/-- There is one message, and who has a lease of it has the current one. -/
theorem asked_held : ∀ e ∈ ((exec (step digest) (Sys.start crew) asked).get asked_run).1,
    ∀ ph ∈ e.pre.parties, (ph.held.all fun l =>
      l.message_id == 50 && e.pre.db.conversation_outbox.any (at_generation l)) = true := by
  decide

theorem asked_in_time : InTime ((exec (step digest) (Sys.start crew) asked).get asked_run).1 := by
  constructor
  · intro tr₁ e tr₂ e' tr₃ htr k t now hmark hlease _
    obtain ⟨i, j, hij, hi, hj, hbetween⟩ := split_indices htr
    obtain ⟨p, l, hact, hp, rfl, -⟩ := hmark
    obtain ⟨q, worker, locked, l', db', hact', -, -, -⟩ := hlease
    have hmid := asked_held e (List.mem_of_getElem? hi) _ (List.mem_of_getElem? hp)
    have hm : (is_mark e.act, is_lease e.act) = (true, false) := by rw [hact]; rfl
    have hl : (is_mark e'.act, is_lease e'.act) = (false, true) := by rw [hact']; rfl
    have hia := congrArg (Option.map fun e => (is_mark e.act, is_lease e.act)) hi
    have hja := congrArg (Option.map fun e => (is_mark e.act, is_lease e.act)) hj
    rw [← List.getElem?_map, asked_acts, Option.map_some, hm] at hia
    rw [← List.getElem?_map, asked_acts, Option.map_some, hl] at hja
    -- the mark is the seventh step, the lease the eleventh, and the answer between them
    have hsixth : ∀ n < 12, marks_and_leases[n]? = some (true, false) → n = 6 := by decide
    have htenth : ∀ n < 12, marks_and_leases[n]? = some (false, true) → n = 3 ∨ n = 10 := by decide
    have hi6 := hsixth i (List.getElem?_eq_some_iff.mp hia).1 hia
    have hj10 := htenth j (List.getElem?_eq_some_iff.mp hja).1 hja
    refine ⟨_, hbetween 8 _ (by omega) (by omega) rfl, 1, _, ?_, Or.inl ⟨rfl, rfl⟩⟩
    simp only [Phase.held, Option.all_some, Bool.and_eq_true, beq_iff_eq] at hmid
    rw [hmid.1]
    decide
  · intro e he i l _ hi
    have h := asked_held e he _ (List.mem_of_getElem? hi)
    simp only [Phase.held, Option.all_some, Bool.and_eq_true] at h
    exact h.2

theorem never_published_blind_asked :
    NeverBlind ((exec (step digest) (Sys.start crew) asked).get asked_run).1 :=
  never_published_blind (by decide) (by decide) crew_owned (exec_get asked_run) asked_in_time

/-- The run in which it is not. -/
def unasked : List Act := unanswered 30 ++ again

theorem unasked_run : (exec (step digest) (Sys.start crew) unasked).isSome = true := by decide

/-- Nothing was asked in between. -/
theorem published_blind : ¬ NeverBlind ((exec (step digest) (Sys.start crew) unasked).get unasked_run).1 := by
  intro h
  obtain ⟨e, e', hmark, hpub, l₁, l₂, l₃, hsplit⟩ : ∃ e e', marks 50 30 e ∧ publishes 50 e' ∧
      ∃ l₁ l₂ l₃, ((exec (step digest) (Sys.start crew) unasked).get unasked_run).1 =
        l₁ ++ e :: (l₂ ++ e' :: l₃) := by
    refine ⟨_, _, ⟨0, _, rfl, rfl, by decide, by decide⟩,
      ⟨0, _, rfl, rfl, by decide⟩, split_two (i := 6) (j := 8) (by decide) rfl rfl⟩
  obtain ⟨x, hx, hans⟩ := h l₁ e l₂ e' l₃ hsplit 50 30 hmark hpub
  have hnone : ∀ x ∈ ((exec (step digest) (Sys.start crew) unasked).get unasked_run).1,
      hears_nothing x.act = false := by
    intro x hx
    have hacts : ∀ a ∈ unasked, hears_nothing a = false := by decide
    apply hacts
    rw [← exec_acts unasked_run]
    exact List.mem_map_of_mem hx
  have hfalse := hnone x (hsplit ▸ by simp [hx])
  rw [hears_nothing_of_answers hans] at hfalse
  exact absurd hfalse (by decide)

end CrewSync.Republication
