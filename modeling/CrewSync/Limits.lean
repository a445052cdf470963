/-
How often a slot is published.

`attempts` counts the leases of the queue, and a settlement compares it with
`MAX_ATTEMPTS`; nothing else does. An attempt that ends otherwise, cut by the timeout, by
a crash, by an error or by the end of its lease, returns the slot to the queue whatever
it counts. Where no slot is taken that has used its attempts up, and the last attempt is
settled in time, the count bounds the publishes (`Counted`): each is made under a lease of
its own, and one that is given back was not used.
-/
import CrewSync.Attempts

set_option autoImplicit false

namespace CrewSync.Limits

open Schema Rows
open Outbox Runs Attempts Crew
open Settlement (state_at slot_at SameAt Moved Settles Back Took holds_iff at_generation_iff slot_mem
  any_iff_slot lease_took lease_one_took)

/-! ## The law -/

/-- The lease a worker's attempt is under, until it is settled. -/
def at_work : Phase → Option Lease
  | .leased l | .publishing l | .consulting l _ | .settling l _ => some l
  | _ => none

/-- The slot of `k` is leased, by a worker or by the reconciler. -/
def takes (k : Uuid) (s : Sys) : Act → Prop
  | .lease _ now worker locked => ∃ l db', lease now worker locked.contains s.db = some (l, db') ∧
      l.message_id = k
  | .lease_one _ now id => ∃ l db', lease_one now "reconciler" id s.db = some (l, db') ∧
      l.message_id = k
  | _ => False

/-- At most `MAX_ATTEMPTS` publishes, and then it is over. -/
structure AttemptLaw (tr : List (Trans Sys Act)) : Prop where
  bounded : ∀ e ∈ tr, ∀ k, e.post.handed.count k ≤ MAX_ATTEMPTS
  /-- Once no worker is at work on the last attempt, it has succeeded or failed. -/
  settled : ∀ e ∈ tr, ∀ k, e.post.handed.count k = MAX_ATTEMPTS →
    (∀ ph ∈ e.post.parties, ∀ l, at_work ph = some l → l.message_id ≠ k) →
    state_at k e.post.db = some .stored ∨ state_at k e.post.db = some .failed
  final : ∀ e ∈ tr, ∀ k, e.pre.handed.count k = MAX_ATTEMPTS → ¬ takes k e.pre e.act

/-- The attempt of a party is cut short, or what it knew is lost. -/
def cuts : Word → Phase → Bool
  | .timeout, _ => true
  | .consulted (.error _), _ => true
  | .stopped, ph => (at_work ph).isSome
  | _, _ => false

/-- A slot that has used up its attempts is not taken again, and the last attempt is not
cut, and settled before its lease ends. -/
def settles_last (s : Sys) : Act → Bool
  | .lease _ now worker locked =>
    (lease now worker locked.contains s.db).all fun p => p.1.attempts ≤ MAX_ATTEMPTS
  | .lease_one _ now id => (lease_one now "reconciler" id s.db).all fun p => p.1.attempts < MAX_ATTEMPTS
  | .word i w => s.parties[i]?.all fun ph =>
    !cuts w ph || ph.drains.all fun l => l.attempts < MAX_ATTEMPTS
  | .settle i now => s.parties[i]?.all fun ph => ph.drains.all fun l =>
    l.attempts < MAX_ATTEMPTS || s.db.conversation_outbox.any (holds now l)
  | _ => true

/-! ## The invariants -/

/-- A worker that may still publish for `k`. -/
def may_publish (k : Uuid) : Phase → Bool
  | .leased l => l.message_id == k
  | _ => false

/-- The publishes of `k` that were made, and those its workers may still make. -/
def spent (s : Sys) (k : Uuid) : ℕ := s.handed.count k + s.parties.countP (may_publish k)

/-- What was spent on a slot was counted. -/
structure Counted (s : Sys) : Prop where
  slot : ∀ k o, slot_at k s.db = some o → spent s k ≤ o.attempts ∧ o.attempts ≤ MAX_ATTEMPTS
  gone : ∀ k, slot_at k s.db = none → spent s k ≤ MAX_ATTEMPTS
  fresh : ∀ k, state_at k s.db = none → spent s k = 0

/-- A lease knows the count of its slot, while it is the slot's. -/
def Knows (s : Sys) : Prop :=
  ∀ i l, s.held i = some l → ∀ o, slot_at l.message_id s.db = some o → o.generation = l.generation →
    l.attempts = o.attempts

/-- Whoever is not at work on a slot has not the last attempt at it. -/
def Spare (s : Sys) : Prop :=
  ∀ (i : ℕ) (ph : Phase), s.parties[i]? = some ph → ∀ l, ph.held = some l → at_work ph = none →
    (∀ x, ph ≠ .settled x) → l.attempts < MAX_ATTEMPTS

/-- A slot at its last attempt has failed, or somebody is at work on it. -/
def Watched (s : Sys) : Prop :=
  ∀ k o, slot_at k s.db = some o → MAX_ATTEMPTS ≤ o.attempts → o.state ≠ .failed →
    ∃ (i : ℕ) (ph : Phase) (l : Lease), s.parties[i]? = some ph ∧ at_work ph = some l ∧
      l.message_id = k ∧ l.generation = o.generation

/-- A message without a slot is stored, and one whose slot has failed has failed. -/
structure Shown (db : Db) : Prop where
  stored : ∀ k st, slot_at k db = none → state_at k db = some st → st = .stored
  failed : ∀ k o, slot_at k db = some o → o.state = .failed → state_at k db = some .failed

/-- The invariant. -/
structure Inv (s : Sys) : Prop where
  leases : Attempts.Inv s
  counted : Counted s
  knows : Knows s
  spare : Spare s
  watched : Watched s
  shown : Shown s.db

/-! ## Where a slot comes from -/

section Origins

variable {db db' : Db} {now : ℕ} {l : Lease} {k : Uuid} {o' : ConversationOutbox}

/-- A slot after a statement about the message of `l`. -/
theorem moved_origin {st : Option PublicationState} {slot : Option ConversationOutbox}
    (hm : Moved l db db' st slot) (ho' : slot_at k db' = some o') :
    k = l.message_id ∧ slot = some o' ∨ k ≠ l.message_id ∧ slot_at k db = some o' := by
  by_cases hk : k = l.message_id
  · rw [hk, hm.slot] at ho'
    exact Or.inl ⟨hk, ho'⟩
  · rw [(hm.others k hk).2] at ho'
    exact Or.inr ⟨hk, ho'⟩

/-- A slot after a settlement is the slot before, or was settled. -/
theorem settles_origin {p : Published} {r : Settled} (h : Settles now l db p r db') (ho' : slot_at k db' = some o') :
    ∃ o, slot_at k db = some o ∧ o'.attempts = o.attempts ∧ o'.generation = o.generation ∧
      (o' = o ∧ (k = l.message_id → holds now l o = false) ∨
        k = l.message_id ∧ holds now l o = true ∧ (o'.state = .failed ∨ l.attempts < MAX_ATTEMPTS)) := by
  cases h with
  | fenced hnot =>
    refine ⟨o', ho', rfl, rfl, Or.inl ⟨rfl, fun hk => ?_⟩⟩
    exact hnot o' (hk ▸ ho')
  | stored ho hheld hm =>
    rcases moved_origin hm ho' with ⟨-, hslot⟩ | ⟨hk, ho'⟩
    · cases hslot
    · exact ⟨o', ho', rfl, rfl, Or.inl ⟨rfl, fun h => absurd h hk⟩⟩
  | retried ho hheld hatt hm =>
    rcases moved_origin hm ho' with ⟨hk, hslot⟩ | ⟨hk, ho'⟩
    · obtain rfl := Option.some.inj hslot
      rw [← hk] at ho
      exact ⟨_, ho, rfl, rfl, Or.inr ⟨hk, hheld, Or.inr hatt⟩⟩
    · exact ⟨o', ho', rfl, rfl, Or.inl ⟨rfl, fun h => absurd h hk⟩⟩
  | failed ho hheld _ hm hfail hgen hatt =>
    rcases moved_origin hm ho' with ⟨hk, hslot⟩ | ⟨hk, ho'⟩
    · obtain rfl := Option.some.inj hslot
      exact ⟨_, hk ▸ ho, hatt, hgen, Or.inr ⟨hk, hheld, Or.inl hfail⟩⟩
    · exact ⟨o', ho', rfl, rfl, Or.inl ⟨rfl, fun h => absurd h hk⟩⟩

/-- A slot after one was given back, or marked. -/
theorem back_origin {f : ConversationOutbox → ConversationOutbox} (h : Back l f db db')
    (ho' : slot_at k db' = some o') : ∃ o, slot_at k db = some o ∧
      (o' = o ∧ (k = l.message_id → o.generation ≠ l.generation) ∨
        k = l.message_id ∧ o.generation = l.generation ∧ o' = f o) := by
  cases h with
  | missed hnot hsame _ _ =>
    rw [(hsame k).2] at ho'
    refine ⟨o', ho', Or.inl ⟨rfl, fun hk => hnot o' (hk ▸ ho')⟩⟩
  | written ho hgen hm =>
    rcases moved_origin hm ho' with ⟨hk, hslot⟩ | ⟨hk, ho'⟩
    · exact ⟨_, hk ▸ ho, Or.inr ⟨hk, hgen, (Option.some.inj hslot).symm⟩⟩
    · exact ⟨o', ho', Or.inl ⟨rfl, fun h => absurd h hk⟩⟩

/-- A slot after a lease. -/
theorem took_origin {o : ConversationOutbox} {worker : String} {attempt : ℕ}
    (h : Took o worker attempt now db db') (ho' : slot_at k db' = some o') :
    k = o.message_id ∧ o' = leased_row now worker attempt o ∨ k ≠ o.message_id ∧ slot_at k db = some o' := by
  rcases moved_origin h.moved ho' with ⟨hk, hslot⟩ | ⟨hk, ho'⟩
  · exact Or.inl ⟨hk, (Option.some.inj hslot).symm⟩
  · exact Or.inr ⟨hk, ho'⟩

end Origins

/-! ## What is counted -/

section Counting

variable {s t : Sys} {a : Act} {i : ℕ} {before after : Phase} {db' : Db} {l : Lease} {k : Uuid} {now : ℕ}
  {worker : String} {o : ConversationOutbox}

theorem spent_go (hi : s.parties[i]? = some before) (after : Phase) (db' : Db) (k : Uuid) :
    spent (s.go i after db') k + (if may_publish k before = true then 1 else 0) =
      spent s k + if may_publish k after = true then 1 else 0 := by
  obtain ⟨hlt, hget⟩ := List.getElem?_eq_some_iff.mp hi
  have hset := List.countP_set (p := may_publish k) (a := after) hlt
  have hpos : may_publish k before = true → 0 < s.parties.countP (may_publish k) := by
    intro hb
    exact List.countP_pos_iff.mpr ⟨before, List.mem_of_getElem? hi, hb⟩
  unfold spent
  rw [go_handed, go_parties, hset, hget]
  by_cases hb : may_publish k before = true
  · have := hpos hb
    simp only [hb, if_true]
    omega
  · simp only [hb, Bool.false_eq_true, if_false]
    omega

theorem spent_le (hi : s.parties[i]? = some before) (hpub : may_publish k after = true → may_publish k before = true) :
    spent (s.go i after db') k ≤ spent s k := by
  have h := spent_go hi after db' k
  by_cases hafter : may_publish k after = true
  · rw [if_pos hafter, if_pos (hpub hafter)] at h
    omega
  · rw [if_neg hafter] at h
    omega

/-- Nothing more was spent, and no slot counts otherwise. -/
theorem Counted.keeps (hc : Counted s) (hspent : ∀ k, spent t k ≤ spent s k)
    (hslots : ∀ k o', slot_at k t.db = some o' → ∃ o, slot_at k s.db = some o ∧ o'.attempts = o.attempts)
    (hstate : ∀ k, state_at k t.db = none → state_at k s.db = none) : Counted t := by
  refine ⟨fun k o' ho' => ?_, fun k _ => ?_, fun k hk => ?_⟩
  · obtain ⟨o, ho, hatt⟩ := hslots k o' ho'
    obtain ⟨hle, hmax⟩ := hc.slot k o ho
    exact ⟨by have := hspent k; omega, by omega⟩
  · refine (hspent k).trans ?_
    cases ho : slot_at k s.db with
    | none => exact hc.gone k ho
    | some o => exact (hc.slot k o ho).1.trans (hc.slot k o ho).2
  · have h := hc.fresh k (hstate k hk)
    have := hspent k
    omega

theorem not_may_publish_idle (k : Uuid) : may_publish k .idle = false := rfl

theorem onward_publishes {w : Word} (h : onward w before = some after) :
    may_publish k after = false := by
  unfold onward at h
  split at h
  all_goals first | (obtain rfl := Option.some.inj h) | exact nomatch h
  · rename_i p l
    rcases after_publish_cases l p with ⟨why, heq⟩ | ⟨q, heq⟩ <;> rw [heq]
    · rfl
    · rfl
  all_goals rfl

/-- No slot counts otherwise than it did. -/
theorem settles_counts {p : Published} {r : Settled} (h : Settles now l s.db p r db') (k : Uuid)
    (o' : ConversationOutbox) (ho' : slot_at k db' = some o') :
    ∃ o, slot_at k s.db = some o ∧ o'.attempts = o.attempts := by
  obtain ⟨o, ho, hatt, -⟩ := settles_origin h ho'
  exact ⟨o, ho, hatt⟩

theorem back_counts {f : ConversationOutbox → ConversationOutbox} (h : Back l f s.db db')
    (hf : ∀ o, (f o).attempts = o.attempts) (k : Uuid) (o' : ConversationOutbox)
    (ho' : slot_at k db' = some o') : ∃ o, slot_at k s.db = some o ∧ o'.attempts = o.attempts := by
  obtain ⟨o, ho, ⟨rfl, -⟩ | ⟨-, -, rfl⟩⟩ := back_origin h ho'
  · exact ⟨_, ho, rfl⟩
  · exact ⟨o, ho, hf o⟩

/-- A message that is sent has not been published, so its slot starts at nothing. -/
theorem Counted.sent {k' : Uuid} (hc : Counted s) (hs : Attempts.Inv s)
    (hstate : ∀ k, state_at k db' = none → state_at k s.db = none) (hsent : Settlement.Sent k' s.db db')
    (huntried : slot_at k' s.db = none → ∀ o, slot_at k' db' = some o → o.attempts = 0) :
    Counted { s with db := db' } := by
  refine ⟨fun k o' ho' => ?_, fun k hk => ?_, fun k hk => hc.fresh k (hstate k hk)⟩
  · by_cases hkk : k = k'
    · subst hkk
      have hnone : slot_at k s.db = none := by
        cases ho : slot_at k s.db with
        | none => rfl
        | some o =>
          have hsome := hs.owned k o ho
          rw [hsent.fresh] at hsome
          cases hsome
      have hzero := huntried hnone o' ho'
      have hspent := hc.fresh k hsent.fresh
      change spent s k ≤ _ ∧ _
      exact ⟨by omega, by omega⟩
    · rw [(hsent.others k hkk).2] at ho'
      exact hc.slot k o' ho'
  · change spent s k ≤ _
    by_cases hkk : k = k'
    · subst hkk
      have hspent := hc.fresh k hsent.fresh
      omega
    · rw [(hsent.others k hkk).2] at hk
      exact hc.gone k hk

/-- What a party might publish is published. -/
theorem spent_called (hi : s.parties[i]? = some (.leased l)) (k : Uuid) :
    spent { s.go i (.publishing l) s.db with handed := l.message_id :: s.handed } k = spent s k := by
  have hgo := spent_go hi (.publishing l) s.db k
  have hcount : spent { s.go i (.publishing l) s.db with handed := l.message_id :: s.handed } k =
      spent (s.go i (.publishing l) s.db) k + if l.message_id = k then 1 else 0 := by
    simp only [spent, go_handed, List.count_cons, beq_iff_eq]
    omega
  rw [hcount]
  by_cases hk : l.message_id = k
  · simp [may_publish, hk] at hgo ⊢
    omega
  · simp [may_publish, hk] at hgo ⊢
    omega

theorem spent_leased (hi : s.parties[i]? = some .idle)
    (db' : Db) (k : Uuid) : spent (s.go i (.leased (lease_of (leased_row now worker 1 o))) db') k =
      spent s k + if o.message_id = k then 1 else 0 := by
  have h := spent_go hi (.leased (lease_of (leased_row now worker 1 o))) db' k
  have hmay : may_publish k (.leased (lease_of (leased_row now worker 1 o))) = true ↔
      o.message_id = k := beq_iff_eq
  rw [if_neg (by simp [may_publish]), Nat.add_zero] at h
  rw [h]
  simp only [hmay]

/-- A lease counts the attempt that its holder might make. -/
theorem Counted.leased (hc : Counted s) (hs : Attempts.Inv s)
    (hstate : ∀ k, state_at k db' = none → state_at k s.db = none) (hcond : o.attempts + 1 ≤ MAX_ATTEMPTS)
    (hi : s.parties[i]? = some .idle) (htook : Took o worker 1 now s.db db') :
    Counted (s.go i (.leased (lease_of (leased_row now worker 1 o))) db') := by
  refine ⟨fun k o' ho' => ?_, fun k hk => ?_, fun k hk => ?_⟩
  · rcases took_origin htook ho' with ⟨rfl, rfl⟩ | ⟨hk, ho'⟩
    · obtain ⟨hle, -⟩ := hc.slot _ o htook.there
      rw [spent_leased hi, if_pos rfl]
      exact ⟨Nat.succ_le_succ hle, hcond⟩
    · rw [spent_leased hi, if_neg (Ne.symm hk)]
      exact hc.slot k o' ho'
  · have hne : k ≠ o.message_id := by
      rintro rfl
      have hslot := htook.moved.slot
      rw [go_db] at hk
      exact absurd (hslot.symm.trans hk) (by simp)
    rw [spent_leased hi, if_neg (Ne.symm hne)]
    rw [go_db, (htook.moved.others k hne).2] at hk
    exact hc.gone k hk
  · have hold := hstate k hk
    have hne : k ≠ o.message_id := by
      rintro rfl
      have hsome := hs.owned _ o htook.there
      rw [hold] at hsome
      cases hsome
    rw [spent_leased hi, if_neg (Ne.symm hne)]
    exact hc.fresh k hold

/-- The attempt that is taken off the count was not used. -/
theorem Counted.released {why : String} (hc : Counted s)
    (hstate : ∀ k, state_at k db' = none → state_at k s.db = none) (hi : s.parties[i]? = some (.leased l))
    (h : Back l (released_row now why) s.db db') : Counted (s.go i .idle db') := by
  have hgo := fun k => spent_go hi .idle db' k
  have hless : ∀ k, spent (s.go i .idle db') k ≤ spent s k :=
    fun k => spent_le hi fun hp => absurd hp (by simp [may_publish])
  refine ⟨fun k o' ho' => ?_, fun k hk => ?_, fun k hk => ?_⟩
  · obtain ⟨o, ho, ⟨rfl, -⟩ | ⟨rfl, -, rfl⟩⟩ := back_origin h ho'
    · obtain ⟨hle, hmax⟩ := hc.slot k o' ho
      exact ⟨(hless k).trans hle, hmax⟩
    · obtain ⟨hle, hmax⟩ := hc.slot _ o ho
      have h := hgo l.message_id
      simp [may_publish] at h
      simp only [released_row, let_go]
      omega
  · cases ho : slot_at k s.db with
    | none => exact (hless k).trans (hc.gone k ho)
    | some o => exact (hless k).trans ((hc.slot k o ho).1.trans (hc.slot k o ho).2)
  · have := hc.fresh k (hstate k hk)
    have := hless k
    omega

theorem Counted.step (hc : Counted s) (hs : Attempts.Inv s) (hcond : settles_last s a = true)
    (h : Did s a t) : Counted t := by
  have hstate : ∀ k, state_at k t.db = none → state_at k s.db = none := by
    intro k hk
    obtain ⟨j, hslides⟩ := h.slides hs
    by_contra hsome
    have hstill := hslides.stays k (Option.isSome_iff_ne_none.mpr hsome)
    rw [hk] at hstill
    cases hstill
  cases h with
  | still hsame _ _ hhanded hparties =>
    refine hc.keeps (fun k => ?_) (fun k o' ho' => ⟨o', (hsame k).2 ▸ ho', rfl⟩) hstate
    unfold spent
    rcases hparties with heq | heq
    · rw [hhanded, heq]
    · rw [hhanded, heq, List.countP_append, List.countP_singleton, not_may_publish_idle]
      simp
  | sent hsent huntried => exact hc.sent hs hstate hsent huntried
  | called hi => exact hc.keeps (fun k => (spent_called hi k).le) (fun k o' ho' => ⟨o', ho', rfl⟩) hstate
  | heard hi hon =>
    refine hc.keeps (fun k => spent_le hi fun hp => ?_) (fun k o' ho' => ⟨o', ho', rfl⟩) hstate
    rw [onward_publishes hon] at hp
    cases hp
  | leased hi hlease hdue htook =>
    simp only [settles_last, hlease, Option.all_some, decide_eq_true_eq] at hcond
    exact hc.leased hs hstate hcond hi htook
  | @taken i now k' o db' hi _ _ htook =>
    refine hc.keeps (fun k => spent_le hi fun hp => absurd hp (by simp [may_publish])) (fun k o' ho' => ?_)
      hstate
    rcases took_origin htook ho' with ⟨rfl, rfl⟩ | ⟨-, ho'⟩
    · exact ⟨o, htook.there, rfl⟩
    · exact ⟨o', ho', rfl⟩
  | settled hi h | confirmed hi h =>
    exact hc.keeps (fun k => spent_le hi fun hp => absurd hp (by simp [may_publish])) (settles_counts h)
      hstate
  | marked hi h | unleased hi h =>
    exact hc.keeps (fun k => spent_le hi fun hp => absurd hp (by simp [may_publish]))
      (back_counts h fun _ => rfl) hstate
  | released hi h => exact hc.released hstate hi h

end Counting

/-! ## Who is at the last attempt -/

section Watching

variable {s t : Sys} {a : Act} {i : ℕ} {before after : Phase} {db' : Db}
  {l : Lease} {k : Uuid}

/-- Old leases know their slots where no statement changed a count under its generation,
but for that of a party that leaves its lease. -/
theorem Knows.go (hk : Knows s) (hi : s.parties[i]? = some before)
    (hheld : after.held = none ∨ after.held = before.held)
    (hslots : ∀ k o', slot_at k db' = some o' → ∃ o, slot_at k s.db = some o ∧
      o'.generation = o.generation ∧
        (o'.attempts = o.attempts ∨ ∀ j l, s.held j = some l → l.message_id = k →
          l.generation = o.generation → j = i ∧ after.held = none)) :
    Knows (s.go i after db') := by
  intro j x hx o' ho' hgen
  obtain ⟨o, ho, hsame, hatt⟩ := hslots _ o' ho'
  have hold : s.held j = some x := by
    rw [held_go hi] at hx
    split at hx
    · rename_i hj
      rcases hheld with hnone | hkeeps
      · rw [hnone] at hx
        cases hx
      · rw [hj, held_of_party hi, ← hkeeps]
        exact hx
    · exact hx
  rcases hatt with hatt | hown
  · rw [hatt]
    exact hk j x hold o ho (hsame.symm.trans hgen)
  · obtain ⟨rfl, hnone⟩ := hown j x hold rfl (hgen.symm.trans hsame)
    rw [held_go hi, if_pos rfl, hnone] at hx
    cases hx

theorem Knows.took (hk : Knows s) (hs : Attempts.Inv s) (hi : s.parties[i]? = some .idle)
    {o : ConversationOutbox} {worker : String} {attempt now : ℕ}
    (hafter : after.held = some (lease_of (leased_row now worker attempt o)))
    (htook : Took o worker attempt now s.db db') : Knows (s.go i after db') := by
  intro j x hx o' ho' hgen
  rw [held_go hi] at hx
  split at hx
  · obtain rfl := Option.some.inj (hafter.symm.trans hx)
    rcases took_origin htook ho' with ⟨-, rfl⟩ | ⟨hne, -⟩
    · rfl
    · exact absurd rfl hne
  · rcases took_origin htook ho' with ⟨hid, rfl⟩ | ⟨-, ho'⟩
    · -- an older lease is at an older generation
      have hle := (hs.known j x hx).2 o (hid ▸ htook.there)
      have hnext : (leased_row now worker attempt o).generation = o.generation + 1 := rfl
      omega
    · exact hk j x hx o' ho' hgen

theorem Knows.step (hk : Knows s) (hs : Attempts.Inv s) (h : Did s a t) : Knows t := by
  have hback : ∀ {i : ℕ} {before : Phase} {l : Lease} {f : ConversationOutbox → ConversationOutbox} {db' : Db},
      s.parties[i]? = some before → before.held = some l → Back l f s.db db' →
      (∀ o, (f o).generation = o.generation) → Knows (s.go i .idle db') := by
    intro i before l f db' hi hheld h hf
    refine hk.go hi (Or.inl rfl) fun k o' ho' => ?_
    obtain ⟨o, ho, ⟨rfl, -⟩ | ⟨rfl, hgen, rfl⟩⟩ := back_origin h ho'
    · exact ⟨_, ho, rfl, Or.inl rfl⟩
    · refine ⟨o, ho, hf o, Or.inr fun j x hx hid hg => ⟨?_, rfl⟩⟩
      exact hs.unique j i x l hx ((held_of_party hi).trans hheld) hid (hg.trans hgen)
  have hsettles : ∀ {i now : ℕ} {before after : Phase} {l : Lease} {p : Published} {r : Settled} {db' : Db},
      s.parties[i]? = some before → (after.held = none ∨ after.held = before.held) →
      Settles now l s.db p r db' → Knows (s.go i after db') := by
    intro i now before after l p r db' hi hheld h
    refine hk.go hi hheld fun k o' ho' => ?_
    obtain ⟨o, ho, hatt, hgen, -⟩ := settles_origin h ho'
    exact ⟨o, ho, hgen, Or.inl hatt⟩
  cases h with
  | still hsame _ _ _ hparties =>
    intro i l hl o ho hgen
    rw [(hsame _).2] at ho
    exact hk i l (bind_join rfl hparties hl) o ho hgen
  | @sent _ k db' hsent _ =>
    intro i l hl o ho hgen
    have hne : l.message_id ≠ k := by
      rintro rfl
      have hsome := (hs.known i l hl).1
      rw [hsent.fresh] at hsome
      cases hsome
    rw [(hsent.others _ hne).2] at ho
    exact hk i l hl o ho hgen
  | @called i l hi =>
    have hgo : Knows (s.go i (.publishing l) s.db) :=
      hk.go hi (Or.inr rfl) fun k o' ho' => ⟨o', ho', rfl, Or.inl rfl⟩
    exact hgo
  | heard hi hon => exact hk.go hi (onward_held hon).1 fun k o' ho' => ⟨o', ho', rfl, Or.inl rfl⟩
  | leased hi _ _ htook | taken hi _ _ htook => exact hk.took hs hi rfl htook
  | settled hi h => exact hsettles hi (Or.inr rfl) h
  | confirmed hi h => exact hsettles hi (Or.inl rfl) h
  | released hi h | marked hi h | unleased hi h => exact hback hi rfl h fun _ => rfl

/-- A word leaves a party at work, or it was cut, or it was not at work and has what it
had, or nothing. -/
theorem onward_work {w : Word} (h : onward w before = some after) :
    (∃ l, at_work before = some l ∧ at_work after = some l) ∨
      cuts w before = true ∧ (after = .idle ∨ ∃ l, before.drains = some l ∧ after = .timed_out l) ∨
      at_work before = none ∧ (after = .idle ∨ after.held = before.held ∧ ∀ x, before ≠ .settled x) := by
  unfold onward at h
  split at h
  all_goals first | (obtain rfl := Option.some.inj h) | exact nomatch h
  · rename_i p l
    rcases after_publish_cases l p with ⟨why, heq⟩ | ⟨q, heq⟩ <;> rw [heq]
    · exact Or.inl ⟨l, rfl, rfl⟩
    · exact Or.inl ⟨l, rfl, rfl⟩
  · exact Or.inl ⟨_, rfl, rfl⟩
  · exact Or.inl ⟨_, rfl, rfl⟩
  · exact Or.inr (Or.inl ⟨rfl, Or.inl rfl⟩)
  · exact Or.inr (Or.inr ⟨rfl, Or.inr ⟨rfl, fun x => by simp⟩⟩)
  · exact Or.inr (Or.inr ⟨rfl, Or.inr ⟨rfl, fun x => by simp⟩⟩)
  · exact Or.inr (Or.inr ⟨rfl, Or.inr ⟨rfl, fun x => by simp⟩⟩)
  · exact Or.inr (Or.inr ⟨rfl, Or.inl rfl⟩)
  · exact Or.inr (Or.inl ⟨rfl, Or.inr ⟨_, rfl, rfl⟩⟩)
  · exact Or.inr (Or.inl ⟨rfl, Or.inr ⟨_, rfl, rfl⟩⟩)
  · exact Or.inr (Or.inl ⟨rfl, Or.inr ⟨_, rfl, rfl⟩⟩)
  · exact Or.inr (Or.inl ⟨rfl, Or.inr ⟨_, rfl, rfl⟩⟩)
  · cases hwork : at_work before with
    | none => exact Or.inr (Or.inr ⟨rfl, Or.inl rfl⟩)
    | some l =>
      refine Or.inr (Or.inl ⟨?_, Or.inl rfl⟩)
      simp [cuts, hwork]

theorem Spare.go (hp : Spare s) (hafter : ∀ l, after.held = some l → at_work after = none → (∀ x, after ≠ .settled x) →
      l.attempts < MAX_ATTEMPTS) (db' : Db) (i : ℕ) : Spare (s.go i after db') := by
  intro j ph hj l hl hwork hnot
  rcases List.mem_or_eq_of_mem_set (List.mem_of_getElem? hj) with hold | rfl
  · obtain ⟨n, hn⟩ := List.mem_iff_getElem?.mp hold
    exact hp n ph hn l hl hwork hnot
  · exact hafter l hl hwork hnot

theorem Spare.step (hp : Spare s) (hcond : settles_last s a = true) (h : Did s a t) : Spare t := by
  have hidle : ∀ l, Phase.idle.held = some l → at_work .idle = none → (∀ x, Phase.idle ≠ .settled x) →
      l.attempts < MAX_ATTEMPTS := fun l hl => absurd hl (by simp [Phase.held])
  cases h with
  | still _ _ _ _ hparties =>
    intro i ph hi l hl hwork hnot
    refine hp i ph ?_ l hl hwork hnot
    have hx : t.parties[i]?.bind (fun ph => ph.held.map fun _ => ph) = some ph := by
      rw [hi, Option.bind_some, hl, Option.map_some]
    obtain ⟨ph', hi', hmap⟩ := Option.bind_eq_some_iff.mp (bind_join rfl hparties hx)
    obtain ⟨-, -, rfl⟩ := Option.map_eq_some_iff.mp hmap
    exact hi'
  | sent _ _ => exact hp
  | @called i l _ =>
    have hgo : Spare (s.go i (.publishing l) s.db) :=
      hp.go (fun l _ hwork => absurd hwork (by simp [at_work])) _ _
    exact hgo
  | heard hi hon =>
    refine hp.go (fun l hl hwork hnot => ?_) _ _
    rcases onward_work hon with ⟨x, -, hx⟩ | ⟨hcut, rfl | ⟨x, hx, rfl⟩⟩ | ⟨hno, rfl | ⟨hsame, hns⟩⟩
    · rw [hwork] at hx
      cases hx
    · exact hidle l hl rfl hnot
    · -- what was cut was not the last attempt
      simp only [settles_last, hi, Option.all_some, hcut, hx, Bool.not_true, Bool.false_or,
        decide_eq_true_eq] at hcond
      rw [← Option.some.inj hl]
      exact hcond
    · exact hidle l hl rfl hnot
    · exact hp _ _ hi l (hsame.symm.trans hl) hno hns
  | leased _ _ _ _ => exact hp.go (fun l _ hwork => absurd hwork (by simp [at_work])) _ _
  | taken _ hlease _ _ =>
    refine hp.go (fun l hl _ _ => ?_) _ _
    simp only [settles_last, hlease, Option.all_some, decide_eq_true_eq] at hcond
    rw [← Option.some.inj hl]
    exact hcond
  | settled _ _ => exact hp.go (fun l _ _ hnot => absurd rfl (hnot _)) _ _
  | confirmed _ _ | released _ _ | marked _ _ | unleased _ _ => exact hp.go hidle _ _

/-- Whoever is at work goes on, if it is not party `i`. -/
theorem watcher_go {ph : Phase} {j : ℕ} (hj : s.parties[j]? = some ph) (hne : j ≠ i) :
    (s.go i after db').parties[j]? = some ph := by
  rw [go_parties, List.getElem?_set_ne (Ne.symm hne)]
  exact hj

/-- A statement of party `i` that is not at work on the last attempt of any slot it leaves
as it is. -/
theorem Watched.go (hw : Watched s) (hi : s.parties[i]? = some before)
    (hslots : ∀ k o', slot_at k db' = some o' → MAX_ATTEMPTS ≤ o'.attempts → o'.state ≠ .failed →
      slot_at k s.db = some o' ∧
        ∀ l, at_work before = some l → l.message_id = k → l.generation = o'.generation →
          at_work after = some l) : Watched (s.go i after db') := by
  intro k o' ho' hmax hnf
  obtain ⟨ho, hown⟩ := hslots k o' ho' hmax hnf
  obtain ⟨j, ph, l, hj, hwork, hid, hgen⟩ := hw k o' ho hmax hnf
  by_cases hij : j = i
  · subst hij
    obtain rfl := Option.some.inj (hi.symm.trans hj)
    refine ⟨j, after, l, ?_, hown l hwork hid hgen, hid, hgen⟩
    rw [go_parties, List.getElem?_set_self (List.getElem?_eq_some_iff.mp hi).1]
  · exact ⟨j, ph, l, watcher_go hj hij, hwork, hid, hgen⟩

theorem Inv.watched_step (hinv : Inv s) (hcond : settles_last s a = true) (h : Did s a t) : Watched t := by
  obtain ⟨hs, hc, hk, hp, hw, -⟩ := hinv
  -- a slot given back by a party that has not its last attempt
  have hback : ∀ {i : ℕ} {before : Phase} {l : Lease} {f : ConversationOutbox → ConversationOutbox} {db' : Db},
      s.parties[i]? = some before → before.held = some l → Back l f s.db db' →
      (∀ o, (f o).attempts = o.attempts ∧ l.attempts < MAX_ATTEMPTS ∨ (f o).attempts = o.attempts - 1) →
      (at_work before = none ∨ at_work before = some l) → Watched (s.go i .idle db') := by
    intro i before l f db' hi hheld h hf hwork
    refine hw.go hi fun k o' ho' hmax hnf => ?_
    obtain ⟨o, ho, ⟨rfl, hmissed⟩ | ⟨rfl, hgen, rfl⟩⟩ := back_origin h ho'
    · refine ⟨ho, fun x hx hid hg => ?_⟩
      rcases hwork with hnone | hsome
      · rw [hnone] at hx
        cases hx
      · obtain rfl := Option.some.inj (hsome.symm.trans hx)
        exact absurd hg.symm (hmissed hid.symm)
    · have hatt := hk i l ((held_of_party hi).trans hheld) o ho hgen
      have hbound := (hc.slot _ o ho).2
      rcases hf o with ⟨hsame, hlt⟩ | hless
      · omega
      · have : 0 < MAX_ATTEMPTS := by decide
        omega
  cases h with
  | still hsame _ _ _ hparties =>
    intro k o ho hmax hnf
    rw [(hsame k).2] at ho
    obtain ⟨i, ph, l, hi, hwork, hid, hgen⟩ := hw k o ho hmax hnf
    refine ⟨i, ph, l, ?_, hwork, hid, hgen⟩
    rcases hparties with heq | heq
    · rw [heq]
      exact hi
    · rw [heq]
      exact (List.getElem?_append_left (List.getElem?_eq_some_iff.mp hi).1).trans hi
  | @sent _ k db' hsent huntried =>
    intro j o ho hmax hnf
    by_cases hjk : j = k
    · subst hjk
      have hnone : slot_at j s.db = none := by
        cases hs' : slot_at j s.db with
        | none => rfl
        | some x =>
          have hsome := hs.owned j x hs'
          rw [hsent.fresh] at hsome
          cases hsome
      have hzero := huntried hnone o ho
      have : 0 < MAX_ATTEMPTS := by decide
      omega
    · rw [(hsent.others j hjk).2] at ho
      exact hw j o ho hmax hnf
  | @called i l hi =>
    have hgo : Watched (s.go i (.publishing l) s.db) :=
      hw.go hi fun k o' ho' _ _ => ⟨ho', fun x hx _ _ => hx⟩
    exact hgo
  | @heard i w before after hi hon =>
    refine hw.go hi fun k o' ho' hmax _ => ⟨ho', fun x hx hid hgen => ?_⟩
    rcases onward_work hon with ⟨y, hy, hafter⟩ | ⟨hcut, -⟩ | ⟨hno, -⟩
    · obtain rfl := Option.some.inj (hy.symm.trans hx)
      exact hafter
    · -- the last attempt is not cut
      have hheld : before.held = some x ∧ before.drains = some x := by
        cases before <;> first | exact ⟨hx, hx⟩ | exact absurd hx (by simp [at_work])
      simp only [settles_last, hi, Option.all_some, hcut, hheld.2, Bool.not_true, Bool.false_or,
        decide_eq_true_eq] at hcond
      have hatt := hk i x ((held_of_party hi).trans hheld.1) o' (hid ▸ ho') hgen.symm
      omega
    · rw [hno] at hx
      cases hx
  | @leased i now worker locked o db' hi hlease hdue htook =>
    intro k o' ho' hmax hnf
    rcases took_origin htook ho' with ⟨rfl, rfl⟩ | ⟨hne, ho'⟩
    · refine ⟨i, .leased (lease_of (leased_row now worker 1 o)), lease_of (leased_row now worker 1 o),
        ?_, rfl, rfl, rfl⟩
      rw [go_parties, List.getElem?_set_self (List.getElem?_eq_some_iff.mp hi).1]
    · obtain ⟨j, ph, l, hj, hwork, hid, hgen⟩ := hw k o' ho' hmax hnf
      refine ⟨j, ph, l, watcher_go hj ?_, hwork, hid, hgen⟩
      rintro rfl
      obtain rfl := Option.some.inj (hi.symm.trans hj)
      exact absurd hwork (by simp [at_work])
  | @taken i now k' o db' hi hlease _ htook =>
    simp only [settles_last, hlease, Option.all_some, decide_eq_true_eq] at hcond
    refine hw.go hi fun k o' ho' hmax _ => ?_
    rcases took_origin htook ho' with ⟨rfl, rfl⟩ | ⟨hne, ho'⟩
    · have hmax : MAX_ATTEMPTS ≤ (lease_of (leased_row now "reconciler" 0 o)).attempts := hmax
      omega
    · exact ⟨ho', fun x hx => absurd hx (by simp [at_work])⟩
  | @settled i now l p r db' hi h =>
    refine hw.go hi fun k o' ho' hmax hnf => ?_
    obtain ⟨o, ho, hatt, hgen, ⟨rfl, hnot⟩ | ⟨rfl, hheld, hfail | hlt⟩⟩ := settles_origin h ho'
    · refine ⟨ho, fun x hx hid hg => ?_⟩
      -- the last attempt would have found its slot held
      obtain rfl := Option.some.inj hx
      have hlast := hk i l (held_of_party hi) o' (hid ▸ ho) hg.symm
      simp only [settles_last, hi, Option.all_some, Phase.drains, Bool.or_eq_true,
        decide_eq_true_eq] at hcond
      rcases hcond with hlt | hany
      · omega
      · obtain ⟨y, hy, hyh⟩ := (any_iff_slot hs.slots fun o h => (holds_iff.mp h).1).mp hany
        rw [hid, ho] at hy
        rw [← Option.some.inj hy, hnot hid.symm] at hyh
        cases hyh
    · exact absurd hfail hnf
    · have hlast := hk i l (held_of_party hi) o ho (holds_iff.mp hheld).2.1
      omega
  | @confirmed i now l locator r db' hi h =>
    refine hw.go hi fun k o' ho' hmax hnf => ?_
    obtain ⟨o, ho, hatt, hgen, ⟨rfl, -⟩ | ⟨rfl, hheld, hfail | hlt⟩⟩ := settles_origin h ho'
    · exact ⟨ho, fun x hx => absurd hx (by simp [at_work])⟩
    · exact absurd hfail hnf
    · have hlast := hk i l (held_of_party hi) o ho (holds_iff.mp hheld).2.1
      omega
  | released hi h => exact hback hi rfl h (fun _ => Or.inr rfl) (Or.inr rfl)
  | marked hi h | unleased hi h =>
    exact hback hi rfl h (fun _ => Or.inl ⟨rfl, hp _ _ hi _ rfl rfl (by simp)⟩) (Or.inl rfl)

end Watching

/-! ## What a message shows -/

section Showing

variable {s t : Sys} {a : Act} {db' : Db} {l : Lease} {now : ℕ}

/-- A statement about the message of `l`. -/
theorem Shown.moved (hsh : Shown s.db) {st : Option PublicationState} {slot : Option ConversationOutbox}
    (hm : Moved l s.db db' st slot) (hstored : ∀ x, slot = none → st = some x → x = .stored)
    (hfailed : ∀ o, slot = some o → o.state = .failed → st = some .failed) : Shown db' := by
  refine ⟨fun k st' hk hst => ?_, fun k o hk ho => ?_⟩
  · by_cases hkl : k = l.message_id
    · rw [hkl, hm.slot] at hk
      rw [hkl, hm.state] at hst
      exact hstored st' hk hst
    · rw [(hm.others k hkl).2] at hk
      rw [(hm.others k hkl).1] at hst
      exact hsh.stored k st' hk hst
  · by_cases hkl : k = l.message_id
    · rw [hkl, hm.slot] at hk
      rw [hkl, hm.state]
      exact hfailed o hk ho
    · rw [(hm.others k hkl).2] at hk
      rw [(hm.others k hkl).1]
      exact hsh.failed k o hk ho

theorem Shown.same (hsh : Shown s.db) (hsame : ∀ k, SameAt k s.db db') : Shown db' := by
  refine ⟨fun k st hk hst => ?_, fun k o hk ho => ?_⟩
  · rw [(hsame k).2] at hk
    rw [(hsame k).1] at hst
    exact hsh.stored k st hk hst
  · rw [(hsame k).2] at hk
    rw [(hsame k).1]
    exact hsh.failed k o hk ho

theorem Shown.settles (hsh : Shown s.db) (hs : Attempts.Inv s) {p : Published} {r : Settled}
    (h : Settles now l s.db p r db') : Shown db' := by
  cases h with
  | fenced _ => exact hsh
  | stored ho _ hm =>
    refine hsh.moved hm (fun x _ hx => ?_) fun o ho => nomatch ho
    obtain ⟨y, -, rfl⟩ := Option.map_eq_some_iff.mp hx
    rfl
  | retried ho _ _ hm =>
    refine hsh.moved hm (fun x hx => nomatch hx) fun o ho hfail => ?_
    rw [← Option.some.inj ho] at hfail
    exact absurd hfail (by simp [retried_row])
  | failed ho _ _ hm _ _ _ =>
    refine hsh.moved hm (fun x hx => nomatch hx) fun o _ _ => ?_
    obtain ⟨y, hy⟩ := Option.isSome_iff_exists.mp (hs.owned _ _ ho)
    rw [hy]
    rfl

theorem Shown.back (hsh : Shown s.db) {f : ConversationOutbox → ConversationOutbox}
    (h : Back l f s.db db') (hf : ∀ o, (f o).state = .pending) : Shown db' := by
  cases h with
  | missed _ hsame _ _ => exact hsh.same hsame
  | written _ _ hm =>
    refine hsh.moved hm (fun x hx => nomatch hx) fun o ho hfail => ?_
    rw [← Option.some.inj ho, hf] at hfail
    cases hfail

theorem Shown.took (hsh : Shown s.db) {o : ConversationOutbox} {worker : String} {attempt : ℕ}
    (h : Took o worker attempt now s.db db') : Shown db' := by
  refine hsh.moved h.moved (fun x hx => nomatch hx) fun x hx hfail => ?_
  rw [← Option.some.inj hx] at hfail
  exact absurd hfail (by simp [leased_row])

theorem Shown.step (hsh : Shown s.db) (hs : Attempts.Inv s) (h : Did s a t) : Shown t.db := by
  cases h with
  | still hsame _ _ _ _ => exact hsh.same hsame
  | @sent _ k db' hsent _ =>
    have hnone : slot_at k s.db = none := by
      cases hslot : slot_at k s.db with
      | none => rfl
      | some o =>
        have hsome := hs.owned k o hslot
        rw [hsent.fresh] at hsome
        cases hsome
    refine ⟨fun j st hj hst => ?_, fun j o hj ho => ?_⟩
    · by_cases hjk : j = k
      · subst hjk
        rcases hsent.sent hnone with ⟨hstored, -⟩ | ⟨-, o, hslot, -⟩
        · exact (Option.some.inj (hstored.symm.trans hst)).symm
        · exact absurd (hslot.symm.trans hj) (by simp)
      · rw [(hsent.others j hjk).2] at hj
        rw [(hsent.others j hjk).1] at hst
        exact hsh.stored j st hj hst
    · by_cases hjk : j = k
      · subst hjk
        rcases hsent.sent hnone with ⟨-, hslot⟩ | ⟨-, o', hslot, hpend⟩
        · exact absurd (hslot.symm.trans hj) (by simp)
        · rw [Option.some.inj (hj.symm.trans hslot), hpend] at ho
          cases ho
      · rw [(hsent.others j hjk).2] at hj
        rw [(hsent.others j hjk).1]
        exact hsh.failed j o hj ho
  | called _ => exact hsh
  | heard _ _ => exact hsh
  | leased _ _ _ htook | taken _ _ _ htook => exact hsh.took htook
  | settled _ h | confirmed _ h => exact hsh.settles hs h
  | released _ h | marked _ h | unleased _ h => exact hsh.back h fun _ => rfl

end Showing

/-! ## The law over a run -/

section Laws

variable {sha256 : String → String} {s t : Sys} {a : Act} {tr : List (Trans Sys Act)} {k : Uuid}

theorem Inv.step (hinv : Inv s) (hcond : settles_last s a = true) (h : step sha256 s a = some t) : Inv t := by
  have hdid := step_did hinv.leases.slots h
  exact ⟨hinv.leases.step h, hinv.counted.step hinv.leases hcond hdid, hinv.knows.step hinv.leases hdid,
    hinv.spare.step hcond hdid, hinv.watched_step hcond hdid, hinv.shown.step hinv.leases hdid⟩

theorem handed_le_spent (s : Sys) (k : Uuid) : s.handed.count k ≤ spent s k := Nat.le_add_right _ _

theorem Inv.bounded (hinv : Inv s) (k : Uuid) : s.handed.count k ≤ MAX_ATTEMPTS := by
  refine (handed_le_spent s k).trans ?_
  cases ho : slot_at k s.db with
  | none => exact hinv.counted.gone k ho
  | some o => exact (hinv.counted.slot k o ho).1.trans (hinv.counted.slot k o ho).2

/-- A slot that was published `MAX_ATTEMPTS` times has used its attempts up. -/
theorem Inv.used_up (hinv : Inv s) (hk : s.handed.count k = MAX_ATTEMPTS)
    {o : ConversationOutbox} (ho : slot_at k s.db = some o) : MAX_ATTEMPTS ≤ o.attempts := by
  have hle := (hinv.counted.slot k o ho).1
  have := handed_le_spent s k
  omega

theorem Inv.over (hinv : Inv s) (hk : s.handed.count k = MAX_ATTEMPTS)
    (hidle : ∀ ph ∈ s.parties, ∀ l, at_work ph = some l → l.message_id ≠ k) :
    state_at k s.db = some .stored ∨ state_at k s.db = some .failed := by
  cases ho : slot_at k s.db with
  | none =>
    left
    cases hst : state_at k s.db with
    | none =>
      have hzero := hinv.counted.fresh k hst
      have := handed_le_spent s k
      have : 0 < MAX_ATTEMPTS := by decide
      omega
    | some st => rw [hinv.shown.stored k st ho hst]
  | some o =>
    right
    by_contra hnot
    obtain ⟨i, ph, l, hi, hwork, hid, -⟩ := hinv.watched k o ho (hinv.used_up hk ho)
      fun hfail => hnot (hinv.shown.failed k o ho hfail)
    exact hidle ph (List.mem_of_getElem? hi) l hwork hid

theorem Inv.final (hinv : Inv s) (hcond : settles_last s a = true)
    (hk : s.handed.count k = MAX_ATTEMPTS) : ¬ takes k s a := by
  intro htakes
  cases a with
  | lease i now worker locked =>
    obtain ⟨l, db', hlease, hid⟩ := htakes
    obtain ⟨o, rfl, -, htook⟩ := lease_took hinv.leases.slots hlease
    simp only [settles_last, hlease, Option.all_some, decide_eq_true_eq] at hcond
    have hcond : o.attempts + 1 ≤ MAX_ATTEMPTS := hcond
    have hid : o.message_id = k := hid
    have := hinv.used_up hk (hid ▸ htook.there)
    omega
  | lease_one i now id =>
    obtain ⟨l, db', hlease, hid⟩ := htakes
    obtain ⟨o, rfl, -, htook⟩ := lease_one_took hinv.leases.slots hlease
    simp only [settles_last, hlease, Option.all_some, decide_eq_true_eq] at hcond
    have hcond : o.attempts + 0 < MAX_ATTEMPTS := hcond
    have hid : o.message_id = k := hid
    have := hinv.used_up hk (hid ▸ htook.there)
    omega
  | _ => exact htakes

/-- A database in which nothing has been tried too often, and no slot is at its last
attempt. -/
structure Ready (db : Db) : Prop where
  messages : db.MessagesKeyed
  slots : db.SlotsKeyed
  owned : ∀ k o, slot_at k db = some o → (state_at k db).isSome = true
  attempts : ∀ k o, slot_at k db = some o → o.attempts < MAX_ATTEMPTS ∨
    o.attempts = MAX_ATTEMPTS ∧ o.state = .failed
  shown : Shown db

theorem start_inv {db : Db} (h : Ready db) : Inv (Sys.start db) := by
  have hspent : ∀ k, spent (Sys.start db) k = 0 := fun k => rfl
  refine ⟨Attempts.start_inv h.messages h.slots h.owned, ⟨fun k o ho => ?_, fun k _ => ?_, fun k _ => hspent k⟩,
    fun i l hl => absurd hl (by simp [Sys.held, Sys.start]),
    fun i ph hi => absurd hi (by simp [Sys.start]), fun k o ho hmax hnf => ?_, h.shown⟩
  · rw [hspent]
    refine ⟨Nat.zero_le _, ?_⟩
    rcases h.attempts k o ho with hlt | ⟨heq, -⟩
    · omega
    · omega
  · rw [hspent]
    exact Nat.zero_le _
  · rcases h.attempts k o ho with hlt | ⟨-, hfail⟩
    · omega
    · exact absurd hfail hnf

/-- **Where no used-up slot is taken and every last attempt is settled in time, a slot is
published at most `MAX_ATTEMPTS` times.** -/
theorem attempts_are_bounded {db : Db} (hdb : Ready db)
    (hrun : Run (Rel (step sha256)) (Sys.start db) tr t)
    (hlast : ∀ e ∈ tr, settles_last e.pre e.act = true) : AttemptLaw tr := by
  have hstep : ∀ s a t, Inv s → settles_last s a = true → Rel (step sha256) s a t → Inv t :=
    fun s a t hs hc h => hs.step hc h
  have hpre := hrun.invariant_pre (C := fun s a => settles_last s a = true) (start_inv hdb) hstep hlast
  have hpost := hrun.invariant_post (C := fun s a => settles_last s a = true) (start_inv hdb) hstep hlast
  constructor
  · exact fun e he k => (hpost e he).bounded k
  · exact fun e he k hk hidle => (hpost e he).over hk hidle
  · exact fun e he k hk => (hpre e he).final (hlast e he) hk

end Laws

/-! ## Two runs -/

/-- Ada has a thread on JetStream. -/
def crew : Db := seated .jetstream "desk"

theorem crew_ready : Ready crew := by
  have hnone : ∀ k, slot_at k crew = none := fun _ => rfl
  have hempty : ∀ k, state_at k crew = none := fun _ => rfl
  refine ⟨by decide, by decide, fun k o h => ?_, fun k o h => ?_, fun k st _ h => ?_, fun k o h => ?_⟩
  · exact absurd ((hnone k).symm.trans h) (by simp)
  · exact absurd ((hnone k).symm.trans h) (by simp)
  · exact absurd ((hempty k).symm.trans h) (by simp)
  · exact absurd ((hnone k).symm.trans h) (by simp)

/-- Ada sends, and there is one worker. -/
def sent : List Act := [.join, .send 0 crew ada_at_desk 7 ⟨"hello", 100, none⟩ 50 51]

/-- The `n`th attempt, that the backend refuses for now. -/
def refused (n : ℕ) : List Act :=
  [.lease 0 (secs (600 * n)) "w0" [], .publish 0, .word 0 (.told (.Retryable "no responders")),
    .settle 0 (secs (600 * n)), .word 0 .returned]

/-- The last one. It finds out what the backend holds, before it writes the failure. -/
def given_up (n : ℕ) : List Act :=
  [.lease 0 (secs (600 * n)) "w0" [], .publish 0, .word 0 (.told (.Retryable "no responders")),
    .word 0 (.consulted (.ok none)), .settle 0 (secs (600 * n)), .word 0 .returned]

def refusals : List Act := sent ++ (List.range 7).flatMap (fun n => refused (n + 1)) ++ given_up 8

theorem refusals_run : (exec (step digest) (Sys.start crew) refusals).isSome = true := by
  decide

theorem refusals_settle : ∀ e ∈ ((exec (step digest) (Sys.start crew) refusals).get refusals_run).1,
    settles_last e.pre e.act = true := by
  decide

theorem attempts_are_bounded_refused :
    AttemptLaw ((exec (step digest) (Sys.start crew) refusals).get refusals_run).1 :=
  attempts_are_bounded crew_ready (exec_get refusals_run) refusals_settle

/-- The `n`th attempt, that the backend does not answer. -/
def unanswered (n : ℕ) : List Act :=
  [.lease 0 (secs (600 * n)) "w0" [], .publish 0, .word 0 .timeout,
    .mark_uncertain 0 (secs (600 * n + 30))]

def silence : List Act := sent ++ (List.range 9).flatMap fun n => unanswered (n + 1)

theorem silence_run : (exec (step digest) (Sys.start crew) silence).isSome = true := by
  decide

/-- Nine attempts that nobody answers are nine publishes. -/
theorem published_too_often :
    ¬ AttemptLaw ((exec (step digest) (Sys.start crew) silence).get silence_run).1 := by
  intro h
  have hnine : ∃ e ∈ ((exec (step digest) (Sys.start crew) silence).get silence_run).1,
      MAX_ATTEMPTS < e.post.handed.count 50 :=
    ⟨_, List.mem_of_getElem? (i := 35) rfl, by decide⟩
  obtain ⟨e, he, hlt⟩ := hnine
  have hle := h.bounded e he 50
  omega

end CrewSync.Limits
