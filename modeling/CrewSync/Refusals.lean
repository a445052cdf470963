/-
What a message fails of: that the attempts a slot counts are calls of a backend.

A lease counts an attempt when it takes the slot, and what comes of it is another matter. A
worker that publishes has made a call. One that has the wrong backend gives the slot back,
and the attempt with it. But one that finds no backend at all, or dies before it calls one,
keeps the attempt, and so does one that gives the slot back when its lease has run out and
another has the slot. After seven of these the first refusal is the last (`given_up_early`).

Where every worker that leases a slot calls its backend or gives the slot back in time, what
is counted was called (`Used`), and a slot only fails of that many refusals, or of a fatal one.
-/
import CrewSync.Limits

set_option autoImplicit false

namespace CrewSync.Refusals

open Schema Rows
open Outbox Runs Attempts Limits Crew
open Settlement (state_at slot_at SameAt Moved holds_iff at_generation_iff slot_mem any_iff_slot settle_settles)

/-! ## The law -/

/-- The backend is asked about the slot after its last attempt. -/
def consults (k : Uuid) : Phase → Bool
  | .consulting l _ => l.message_id == k
  | _ => false

/-- The backend is called for the slot: `publish`, or `reconcile` after the last attempt. -/
def calls (k : Uuid) (e : Trans Sys Act) : Bool :=
  match e.act with
  | .publish i => e.pre.parties[i]?.any (may_publish k)
  | .word i _ => !e.pre.parties[i]?.any (consults k) && e.post.parties[i]?.any (consults k)
  | _ => false

/-- The slot fails in the step. -/
def fails (k : Uuid) (e : Trans Sys Act) : Bool :=
  (slot_at k e.pre.db).all (fun o => o.state != .failed) && (slot_at k e.post.db).any fun o => o.state == .failed

/-- A backend has answered that the slot cannot be published. -/
def ruled_out (k : Uuid) (why : String) (e : Trans Sys Act) : Prop :=
  ∃ i l, e.act = .word i (.told (.Fatal why)) ∧ e.pre.parties[i]? = some (.publishing l) ∧ l.message_id = k

/-- What a slot may fail of. -/
structure RefusalLaw (tr : List (Trans Sys Act)) : Prop where
  retryable : ∀ tr₁ e tr₂, tr = tr₁ ++ e :: tr₂ → ∀ i now l why, e.act = .settle i now →
    e.pre.parties[i]? = some (.settling l (.Retryable why)) → fails l.message_id e = true →
    MAX_ATTEMPTS ≤ tr₁.countP (calls l.message_id)
  fatal : ∀ tr₁ e tr₂, tr = tr₁ ++ e :: tr₂ → ∀ i now l why, e.act = .settle i now →
    e.pre.parties[i]? = some (.settling l (.Fatal why)) → fails l.message_id e = true →
    ∃ e' ∈ tr₁, ruled_out l.message_id why e'
  /-- What a slot counts was called, or a worker has it that may still call: whoever reached no
  backend has brought it no closer. -/
  counted : ∀ tr₁ e tr₂, tr = tr₁ ++ e :: tr₂ → ∀ k o, slot_at k e.post.db = some o →
    o.attempts ≤ (tr₁ ++ [e]).countP (calls k) + e.post.parties.countP (may_publish k)

/-- The worker has not called its backend yet. -/
def waits : Phase → Bool
  | .leased _ => true
  | _ => false

/-- A worker that gives a message up, with this lease. -/
def gives_up : Phase → Option Lease
  | .settling l (.Retryable _) => if MAX_ATTEMPTS ≤ l.attempts then some l else none
  | _ => none

/-- No worker stops between its lease and its call, who gives a slot back does so before another
has it, and who gives a message up is not ahead of another that has leased it and not called
yet. -/
def reaches_a_backend (s : Sys) : Act → Bool
  | .word i .stopped => !s.parties[i]?.any waits
  | .release i _ => s.parties[i]?.all fun ph => ph.drains.all fun l =>
    (slot_at l.message_id s.db).all fun o => o.generation == l.generation
  | .settle i _ => s.parties[i]?.all fun ph => (gives_up ph).all fun l => !s.parties.any (may_publish l.message_id)
  | _ => true

/-! ## What is counted was called -/

/-- What a slot counts was published, or its worker may publish it still. -/
def Used (s : Sys) : Prop := ∀ k o, slot_at k s.db = some o → o.attempts ≤ spent s k

section Counting

variable {s t : Sys} {a : Act} {i : ℕ} {before after : Phase} {db' : Db} {l : Lease}
  {k : Uuid}

/-- Nothing less was spent, and no slot counts more. -/
theorem Used.keeps (hu : Used s) (hspent : ∀ k, spent s k ≤ spent t k)
    (hslots : ∀ k o', slot_at k t.db = some o' → ∃ o, slot_at k s.db = some o ∧ o'.attempts = o.attempts) :
    Used t := by
  intro k o' ho'
  obtain ⟨o, ho, hatt⟩ := hslots k o' ho'
  rw [hatt]
  exact (hu k o ho).trans (hspent k)

/-- Who has called already spends nothing by going on. -/
theorem spent_ge (hi : s.parties[i]? = some before) (hw : waits before = false) :
    spent s k ≤ spent (s.go i after db') k := by
  have hgo := spent_go hi after db' k
  have hno : may_publish k before = false := by
    cases before with
    | leased l => exact absurd hw (by simp [waits])
    | _ => rfl
  rw [hno, if_neg (by decide), Nat.add_zero] at hgo
  rw [hgo]
  exact Nat.le_add_right _ _

theorem Used.step (hu : Used s) (hs : Attempts.Inv s) (hc : reaches_a_backend s a = true) (h : Did s a t) :
    Used t := by
  cases h with
  | still hsame _ _ hhanded hparties =>
    refine hu.keeps (fun k => ?_) fun k o' ho' => ⟨o', (hsame k).2 ▸ ho', rfl⟩
    unfold spent
    rcases hparties with heq | heq
    · rw [hhanded, heq]
    · rw [hhanded, heq, List.countP_append]
      omega
  | @sent _ k' db' hsent huntried =>
    intro k o' ho'
    by_cases hkk : k = k'
    · subst hkk
      have hnone : slot_at k s.db = none := by
        cases ho : slot_at k s.db with
        | none => rfl
        | some o =>
          have hsome := hs.owned k o ho
          rw [hsent.fresh] at hsome
          cases hsome
      rw [huntried hnone o' ho']
      exact Nat.zero_le _
    · rw [(hsent.others k hkk).2] at ho'
      exact hu k o' ho'
  | called hi => exact hu.keeps (fun k => (spent_called hi k).ge) fun k o' ho' => ⟨o', ho', rfl⟩
  | @heard i w before after hi hon =>
    refine hu.keeps (fun k => spent_ge hi ?_) fun k o' ho' => ⟨o', ho', rfl⟩
    cases before with
    | leased l =>
      -- nothing but its end is heard by a worker that has not called
      cases w with
      | stopped =>
        simp only [reaches_a_backend, hi, Option.any_some, waits] at hc
        cases hc
      | _ => exact absurd hon (by simp [onward])
    | _ => rfl
  | @leased i now worker locked o db' hi _ _ htook =>
    intro k o' ho'
    rw [spent_leased hi]
    rcases took_origin htook ho' with ⟨rfl, rfl⟩ | ⟨hk, ho'⟩
    · rw [if_pos rfl]
      exact Nat.succ_le_succ (hu _ o htook.there)
    · rw [if_neg (Ne.symm hk)]
      exact hu k o' ho'
  | taken hi _ _ htook =>
    refine hu.keeps (fun k => spent_ge hi rfl) fun k o' ho' => ?_
    rcases took_origin htook ho' with ⟨rfl, rfl⟩ | ⟨-, ho'⟩
    · exact ⟨_, htook.there, rfl⟩
    · exact ⟨o', ho', rfl⟩
  | settled hi h | confirmed hi h => exact hu.keeps (fun k => spent_ge hi rfl) (settles_counts h)
  | @released i now l why db' hi h =>
    -- what is given back was counted for this lease
    simp only [reaches_a_backend, hi, Option.all_some, Phase.drains] at hc
    have hgo : ∀ k, spent (s.go i .idle db') k + (if l.message_id = k then 1 else 0) = spent s k := by
      intro k
      have h := spent_go hi .idle db' k
      have hmay : may_publish k (.leased l) = true ↔ l.message_id = k := beq_iff_eq
      rw [if_neg (by simp [may_publish] : ¬ may_publish k .idle = true), Nat.add_zero] at h
      simp only [hmay] at h
      exact h
    intro k o' ho'
    have hsame := hgo k
    obtain ⟨o, ho, ⟨rfl, hother⟩ | ⟨rfl, -, rfl⟩⟩ := back_origin h ho'
    · have hne : l.message_id ≠ k := by
        rintro rfl
        rw [ho, Option.all_some, beq_iff_eq] at hc
        exact hother rfl hc
      rw [if_neg hne, Nat.add_zero] at hsame
      rw [hsame]
      exact hu k _ ho
    · rw [if_pos rfl] at hsame
      have hle := hu _ o ho
      have hrow : (released_row now why o).attempts = o.attempts - 1 := rfl
      rw [hrow]
      omega
  | marked hi h | unleased hi h => exact hu.keeps (fun k => spent_ge hi rfl) (back_counts h fun _ => rfl)

end Counting

/-! ## The law of a run -/

section Laws

variable {sha256 : String → String} {s t : Sys} {a : Act} {tr : List (Trans Sys Act)} {k : Uuid} {l : Lease}
  {why : String} {db : Db} {i now : ℕ}

/-- A fatal outcome is what the backend said. -/
theorem onward_fatal {w : Word} {before : Phase}
    (h : onward w before = some (.settling l (.Fatal why))) : w = .told (.Fatal why) ∧ before = .publishing l := by
  unfold onward at h
  split at h
  · rename_i p x
    cases p with
    | Fatal why' =>
      have heq := Phase.settling.inj (Option.some.inj h)
      rw [heq.1, Published.Fatal.inj heq.2]
      exact ⟨rfl, rfl⟩
    | Confirmed locator => exact absurd (Option.some.inj h) (by simp [after_publish])
    | Retryable why' =>
      simp only [after_publish, Option.some.injEq] at h
      split at h
      · cases h
      · cases h
  all_goals exact nomatch h

/-- What is handed to a backend is a call. -/
theorem handed_step (h : Did s a t) :
    t.handed.count k ≤ s.handed.count k + if calls k ⟨s, a, t⟩ = true then 1 else 0 := by
  cases h with
  | still _ _ _ hhanded _ =>
    rw [hhanded]
    exact Nat.le_add_right _ _
  | @called i l hi =>
    have hcall : calls k ⟨s, .publish i, { s.go i (.publishing l) s.db with handed := l.message_id :: s.handed }⟩ =
        (l.message_id == k) := by
      simp only [calls, hi, Option.any_some, may_publish]
    rw [hcall]
    simp only [List.count_cons]
    exact le_refl _
  | _ => exact Nat.le_add_right _ _

theorem handed_le_calls (hs : Attempts.Inv (Sys.start db))
    (hrun : Run (Rel (step sha256)) (Sys.start db) tr s) : s.handed.count k ≤ tr.countP (calls k) := by
  suffices Attempts.Inv s ∧ s.handed.count k ≤ tr.countP (calls k) from this.2
  induction hrun with
  | nil => exact ⟨hs, le_refl _⟩
  | @snoc tr s t a hrun hr ih =>
    obtain ⟨hinv, hle⟩ := ih
    have hstep := handed_step (k := k) (step_did hinv.slots hr)
    refine ⟨hinv.step hr, ?_⟩
    rw [List.countP_append, List.countP_singleton]
    omega

/-- A worker that settles a fatal answer was given one. -/
theorem fatal_answered (hs : Attempts.Inv (Sys.start db)) (hrun : Run (Rel (step sha256)) (Sys.start db) tr s)
    (hi : s.parties[i]? = some (.settling l (.Fatal why))) : ∃ e ∈ tr, ruled_out l.message_id why e := by
  suffices Attempts.Inv s ∧ ∀ (i : ℕ) (l : Lease), s.parties[i]? = some (.settling l (.Fatal why)) →
      ∃ e ∈ tr, ruled_out l.message_id why e from this.2 i l hi
  clear hi
  induction hrun with
  | nil => exact ⟨hs, fun i l hi => absurd hi (by simp [Sys.start])⟩
  | @snoc tr s t a hrun hr ih =>
    obtain ⟨hinv, hall⟩ := ih
    refine ⟨hinv.step hr, fun i l hi => ?_⟩
    have hold : s.parties[i]? = some (.settling l (.Fatal why)) →
        ∃ e ∈ tr ++ [⟨s, a, t⟩], ruled_out l.message_id why e := by
      intro hbefore
      obtain ⟨e, he, hruled⟩ := hall i l hbefore
      exact ⟨e, List.mem_append_left _ he, hruled⟩
    -- another party, or the same with a new phase
    have hgo : ∀ {j : ℕ} {before after : Phase}, s.parties[j]? = some before →
        (s.parties.set j after)[i]? = some (.settling l (.Fatal why)) →
        s.parties[i]? = some (.settling l (.Fatal why)) ∨ j = i ∧ after = .settling l (.Fatal why) := by
      intro j before after hj hparty
      by_cases hji : j = i
      · subst hji
        rw [List.getElem?_set_self (List.getElem?_eq_some_iff.mp hj).1] at hparty
        exact Or.inr ⟨rfl, Option.some.inj hparty⟩
      · rw [List.getElem?_set_ne hji] at hparty
        exact Or.inl hparty
    cases step_did hinv.slots hr with
    | still _ _ _ _ hparties =>
      rcases hparties with heq | heq
      · exact hold (heq ▸ hi)
      · rw [heq] at hi
        by_cases hlt : i < s.parties.length
        · rw [List.getElem?_append_left hlt] at hi
          exact hold hi
        · rw [List.getElem?_append_right (by omega)] at hi
          exact absurd (List.mem_singleton.mp (List.mem_of_getElem? hi)) (by simp)
    | sent _ _ => exact hold hi
    | called hj | leased hj _ _ _ | taken hj _ _ _ | settled hj _ | confirmed hj _ | marked hj _ => exact (hgo hj hi).elim hold fun h => absurd h.2 (by simp)
    | @heard j w before after hj hon =>
      rcases hgo hj hi with hbefore | ⟨rfl, hafter⟩
      · exact hold hbefore
      · refine ⟨_, List.mem_append_right _ (List.mem_singleton.mpr rfl), ?_⟩
        obtain ⟨hword, hphase⟩ := onward_fatal (hafter ▸ hon)
        exact ⟨j, l, by rw [hword], by rw [← hphase]; exact hj, rfl⟩
    | released hj _ | unleased hj _ => exact (hgo hj hi).elim hold fun h => absurd h.2 (by simp)

/-- A slot that is to be tried again has not failed. -/
theorem retried_fails {o' : ConversationOutbox}
    (hlt : l.attempts < MAX_ATTEMPTS) (h : slot_at k (settle now l (.Retryable why) db).2 = some o')
    (hfail : o'.state = .failed) : ∃ o, slot_at k db = some o ∧ o.state = .failed := by
  unfold settle at h
  split at h
  · simp only [if_neg (Nat.not_le.mpr hlt), slot_at] at h
    have hkey : ∀ o, ((retried_row now .pending (1 <<< min l.attempts 6) why o).message_id == k) =
        (o.message_id == k) := fun _ => rfl
    rw [one_update hkey] at h
    obtain ⟨o, ho, rfl⟩ := Option.map_eq_some_iff.mp h
    refine ⟨o, ho, ?_⟩
    split at hfail
    · exact absurd hfail (by simp [retried_row])
    · exact hfail
  · exact ⟨o', h, hfail⟩

theorem fails_iff {e : Trans Sys Act} : fails k e = true ↔
    (∀ o, slot_at k e.pre.db = some o → o.state ≠ .failed) ∧ ∃ o, slot_at k e.post.db = some o ∧ o.state = .failed := by
  simp only [fails, Bool.and_eq_true, Option.all_eq_true, Option.any_eq_true, bne_iff_ne, beq_iff_eq]

/-- What holds where a step begins. -/
structure Inv (s : Sys) : Prop where
  leases : Attempts.Inv s
  knows : Knows s
  used : Used s

theorem Inv.step (hs : Inv s) (hc : reaches_a_backend s a = true) (h : Attempts.step sha256 s a = some t) :
    Inv t := by
  have hdid := step_did hs.leases.slots h
  exact ⟨hs.leases.step h, hs.knows.step hs.leases hdid, hs.used.step hs.leases hc hdid⟩

/-- Who gives a message up has counted its attempts. -/
theorem Inv.given_up (hs : Inv s)
    (hc : reaches_a_backend s (.settle i now) = true) (hi : s.parties[i]? = some (.settling l (.Retryable why)))
    (h : Attempts.step sha256 s (.settle i now) = some t) (hfails : fails l.message_id ⟨s, .settle i now, t⟩ = true) :
    MAX_ATTEMPTS ≤ s.handed.count l.message_id := by
  simp only [Attempts.step, hi, Option.some.injEq] at h
  obtain ⟨hnot, o', ho', hfail⟩ := fails_iff.mp hfails
  rw [← h, go_db] at ho'
  have hlast : MAX_ATTEMPTS ≤ l.attempts := by
    by_contra hlt
    obtain ⟨o, ho, hof⟩ := retried_fails (Nat.not_le.mp hlt) ho' hfail
    exact hnot o ho hof
  -- it holds the slot, so it knows the count
  obtain ⟨o, ho, -, -, ⟨rfl, -⟩ | ⟨-, hheld, -⟩⟩ := settles_origin (settle_settles hs.leases.slots _) ho'
  · exact absurd hfail (hnot _ ho)
  · have hatt := hs.knows i l (held_of_party hi) o ho (holds_iff.mp hheld).2.1
    have hused := hs.used _ o ho
    simp only [reaches_a_backend, hi, Option.all_some, gives_up, if_pos hlast, Bool.not_eq_true',
      List.any_eq_false] at hc
    have hzero : s.parties.countP (may_publish l.message_id) = 0 :=
      List.countP_eq_zero.mpr hc
    rw [spent, hzero] at hused
    omega

/-- A database whose slots have not been tried. -/
structure Untried (db : Db) : Prop where
  messages : db.MessagesKeyed
  slots : db.SlotsKeyed
  owned : ∀ k o, slot_at k db = some o → (state_at k db).isSome = true
  attempts : ∀ k o, slot_at k db = some o → o.attempts = 0

theorem start_inv (h : Untried db) : Inv (Sys.start db) := by
  refine ⟨Attempts.start_inv h.messages h.slots h.owned, fun i l hl => absurd hl (by simp [Sys.held, Sys.start]),
    fun k o ho => ?_⟩
  rw [h.attempts k o ho]
  exact Nat.zero_le _

/-- **Where every worker that leases a slot calls its backend, or gives the slot back while it has
it, only real refusals exhaust a message**: it fails of `MAX_ATTEMPTS` calls, or of a fatal
answer, and whoever reached no backend has brought it no closer to that. -/
theorem only_refusals_exhaust {db : Db} (hdb : Untried db)
    (hrun : Run (Rel (Attempts.step sha256)) (Sys.start db) tr t)
    (hc : ∀ e ∈ tr, reaches_a_backend e.pre e.act = true) : RefusalLaw tr := by
  have hinv := start_inv hdb
  have hstep : ∀ s a t, Inv s → reaches_a_backend s a = true → Rel (Attempts.step sha256) s a t → Inv t :=
    fun s a t hs hc h => hs.step hc h
  have hpre := hrun.invariant_pre (C := fun s a => reaches_a_backend s a = true) hinv hstep hc
  have hpost := hrun.invariant_post (C := fun s a => reaches_a_backend s a = true) hinv hstep hc
  refine ⟨fun tr₁ e tr₂ htr i now l why hact hi hfails => ?_, fun tr₁ e tr₂ htr i now l why _ hi _ => ?_,
    fun tr₁ e tr₂ htr k o ho => ?_⟩
  · subst htr
    have he : e ∈ tr₁ ++ e :: tr₂ := by simp
    obtain ⟨hbefore, hr, -⟩ := hrun.split
    cases e with
    | mk s a t =>
      obtain rfl : a = .settle i now := hact
      exact ((hpre _ he).given_up (hc _ he) hi hr hfails).trans (handed_le_calls hinv.leases hbefore)
  · subst htr
    exact fatal_answered hinv.leases hrun.split.1 hi
  · subst htr
    obtain ⟨hbefore, hr, -⟩ := hrun.split
    have hrun' : Run (Rel (Attempts.step sha256)) (Sys.start db) (tr₁ ++ [e]) e.post := .snoc hbefore hr
    have hle := handed_le_calls (k := k) hinv.leases hrun'
    have hused := (hpost e (by simp)).used k o ho
    rw [spent] at hused
    omega

end Laws

/-! ## Two runs -/

theorem crew_untried : Untried crew := by
  have hnone : ∀ k, slot_at k crew = none := fun _ => rfl
  refine ⟨by decide, by decide, fun k o h => ?_, fun k o h => ?_⟩
  · exact absurd ((hnone k).symm.trans h) (by simp)
  · exact absurd ((hnone k).symm.trans h) (by simp)

theorem refusals_reach : ∀ e ∈ ((exec (step digest) (Sys.start crew) refusals).get refusals_run).1,
    reaches_a_backend e.pre e.act = true := by
  decide

/-- Eight refusals, and the message has failed. -/
theorem only_refusals_exhaust_refused :
    RefusalLaw ((exec (step digest) (Sys.start crew) refusals).get refusals_run).1 :=
  only_refusals_exhaust crew_untried (exec_get refusals_run) refusals_reach

/-- The `n`th lease, of a worker that finds no backend. -/
def unreached (n : ℕ) : List Act := [.lease 0 (secs (600 * n)) "w0" [], .word 0 .stopped]

/-- An outage of seven leases, and one refusal after it. -/
def outage : List Act := sent ++ (List.range 7).flatMap (fun n => unreached (n + 1)) ++ given_up 8

theorem outage_run : (exec (step digest) (Sys.start crew) outage).isSome = true := by decide

/-- The run, and where it ends. -/
def outage_end : List (Trans Sys Act) × Sys := (exec (step digest) (Sys.start crew) outage).get outage_run

/-- The step in which the message fails. -/
def failing : Trans Sys Act := outage_end.1.get ⟨20, by decide⟩

/-- The message fails of one `publish` and one `reconcile`. -/
theorem given_up_early :
    Run (Rel (step digest)) (Sys.start crew) outage_end.1 outage_end.2 ∧ fails 50 failing = true ∧
      (outage_end.1.take 20).countP (calls 50) = 2 ∧ ¬ RefusalLaw outage_end.1 := by
  have hfails : fails 50 failing = true := by decide
  have hcalls : (outage_end.1.take 20).countP (calls 50) = 2 := by decide
  refine ⟨exec_get outage_run, hfails, hcalls, fun hlaw => ?_⟩
  have hsplit : outage_end.1 = outage_end.1.take 20 ++ failing :: outage_end.1.drop 21 := by
    rw [failing, List.get_eq_getElem, List.getElem_cons_drop, List.take_append_drop]
  have hsettling : ∃ l why, failing.act = .settle 0 (secs 4800) ∧ l.message_id = 50 ∧
      failing.pre.parties[0]? = some (.settling l (.Retryable why)) := ⟨_, _, rfl, rfl, rfl⟩
  obtain ⟨l, why, hact, hid, hi⟩ := hsettling
  have hle := hlaw.retryable _ _ _ hsplit 0 _ l why hact hi (by rw [hid]; exact hfails)
  rw [hid, hcalls] at hle
  exact absurd hle (by decide)

end CrewSync.Refusals
