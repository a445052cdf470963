/-
The attempts at publishing a slot, call by call: what a worker and the reconciler ask
the backend between the lease of a slot and what they write about it.

`Settlement` has an attempt as one step, from a lease to its settlement. Here the calls
of `publish_leased`, `run_outbox_worker` and `resolve_uncertain` are steps of their own: a
worker that leased a slot has not published it yet, an attempt that was cut may have
published or not, and the answer of a `reconcile` is an event. `handed` is what was handed
to the backend, one entry a call.
-/
import CrewSync.Settlement

set_option autoImplicit false

namespace CrewSync.Attempts

open Error Schema Rows
open Outbox Send Settlement

/-! ## The system -/

/-- Where a worker, or the reconciler, stands. -/
inductive Phase where
  | idle
  /-- The slot is leased, and its backend is being looked up. -/
  | leased (l : Lease)
  /-- `publish` was called. -/
  | publishing (l : Lease)
  /-- The last attempt came to nothing, and the backend is asked what it holds. -/
  | consulting (l : Lease) (why : String)
  | settling (l : Lease) (outcome : Published)
  /-- The settlement has committed, and has not returned. -/
  | settled (l : Lease)
  | timed_out (l : Lease)
  /-- The reconciler has the slot, and asks. -/
  | asking (l : Lease)
  | confirming (l : Lease) (locator : Locator)
  | returning (l : Lease)
  deriving DecidableEq, Repr

/-- The lease a worker has of the queue. -/
def Phase.drains : Phase → Option Lease
  | .leased l | .publishing l | .consulting l _ | .settling l _ | .settled l | .timed_out l => some l
  | _ => none

/-- The lease a party has. -/
def Phase.held : Phase → Option Lease
  | .idle => none
  | .leased l | .publishing l | .consulting l _ | .settling l _ | .settled l | .timed_out l
  | .asking l | .confirming l _ | .returning l => some l

/-- The state of the system. -/
structure Sys where
  db : Db
  parties : List Phase
  /-- The messages handed to `publish`, one entry a call. -/
  handed : List Uuid

def Sys.start (db : Db) : Sys := ⟨db, [], []⟩

/-- What a party hears, or what becomes of it. Nothing is written. -/
inductive Word where
  /-- What came of a publish. -/
  | told (published : Published)
  /-- What the backend says it holds after the last attempt. -/
  | consulted (held : BusResult (Option Locator))
  /-- What the backend tells the reconciler. -/
  | answered (held : BusResult (Option Locator))
  | returned
  /-- `PUBLISH_TIMEOUT` has passed. -/
  | timeout
  /-- The party is gone, or an error sends it on. -/
  | stopped
  deriving DecidableEq

/-- What can happen next. -/
inductive Act where
  /-- One more worker, or reconciler. -/
  | join
  | send (now : ℕ) (seen : Db) (auth : AuthCtx) (id : Uuid) (input : SendInput)
      (message_id publish_key : Uuid)
  | lease (i now : ℕ) (worker : String) (locked : List Uuid)
  /-- The slot was queued for another backend. -/
  | release (i now : ℕ)
  | publish (i : ℕ)
  | word (i : ℕ) (w : Word)
  | settle (i now : ℕ)
  | mark_uncertain (i now : ℕ)
  | lease_one (i now : ℕ) (message_id : Uuid)
  | confirm (i now : ℕ)
  | unlease (i now : ℕ)
  | clear_uncertain (team_id : Uuid)
  /-- Any other part of the server commits. -/
  | other (db' : Db)

/-- What follows a publish: the last attempt asks before it writes a failure. -/
def after_publish (l : Lease) : Published → Phase
  | .Retryable why => if MAX_ATTEMPTS ≤ l.attempts then .consulting l why else .settling l (.Retryable why)
  | published => .settling l published

/-- How a party goes on. -/
def onward : Word → Phase → Option Phase
  | .told published, .publishing l => some (after_publish l published)
  | .consulted (.ok (some locator)), .consulting l _ => some (.settling l (.Confirmed locator))
  | .consulted (.ok none), .consulting l why => some (.settling l (.Retryable why))
  | .consulted (.error _), .consulting _ _ => some .idle
  | .answered (.ok (some locator)), .asking l => some (.confirming l locator)
  | .answered (.ok none), .asking l => some (.returning l)
  | .answered (.error _), .asking l => some (.returning l)
  | .returned, .settled _ => some .idle
  | .timeout, .publishing l => some (.timed_out l)
  | .timeout, .consulting l _ => some (.timed_out l)
  | .timeout, .settling l _ => some (.timed_out l)
  | .timeout, .settled l => some (.timed_out l)
  | .stopped, _ => some .idle
  | _, _ => none

/-- Party `i` goes on to `ph`, and `db` is committed. -/
def Sys.go (s : Sys) (i : ℕ) (ph : Phase) (db : Db) : Sys :=
  { s with db := db, parties := s.parties.set i ph }

section Steps

variable (sha256 : String → String)

/-- One step. -/
def step (s : Sys) : Act → Option Sys
  | .join => some { s with parties := s.parties ++ [.idle] }
  | .send now seen auth id input message_id publish_key =>
    match send sha256 now seen auth id input message_id publish_key s.db with
    | .error _ => some s
    | .ok (_, db') => some { s with db := db' }
  | .lease i now worker locked =>
    match s.parties[i]?, lease now worker locked.contains s.db with
    | some .idle, some (l, db') => some (s.go i (.leased l) db')
    | some .idle, none => some s
    | _, _ => none
  | .release i now =>
    match s.parties[i]? with
    | some (.leased l) =>
      some (s.go i .idle (release now l "leased by a worker for another backend" s.db))
    | _ => none
  | .publish i =>
    match s.parties[i]? with
    | some (.leased l) =>
      some { s.go i (.publishing l) s.db with handed := l.message_id :: s.handed }
    | _ => none
  | .word i w => do
    let ph ← s.parties[i]?
    let ph' ← onward w ph
    pure (s.go i ph' s.db)
  | .settle i now =>
    match s.parties[i]? with
    | some (.settling l outcome) => some (s.go i (.settled l) (settle now l outcome s.db).2)
    | _ => none
  | .mark_uncertain i now =>
    match s.parties[i]? with
    | some (.timed_out l) =>
      some (s.go i .idle
        (mark_uncertain now l "the publish did not answer within the timeout" s.db).2)
    | _ => none
  | .lease_one i now message_id =>
    match s.parties[i]?, lease_one now "reconciler" message_id s.db with
    | some .idle, some (l, db') => some (s.go i (.asking l) db')
    | some .idle, none => some s
    | _, _ => none
  | .confirm i now =>
    match s.parties[i]? with
    | some (.confirming l locator) => some (s.go i .idle (settle now l (.Confirmed locator) s.db).2)
    | _ => none
  | .unlease i now =>
    match s.parties[i]? with
    | some (.returning l) => some (s.go i .idle (unlease now l s.db))
    | _ => none
  | .clear_uncertain team_id => some { s with db := clear_uncertain team_id s.db }
  | .other db' => if leaves_slots s.db db' then some { s with db := db' } else none

end Steps

/-! ## What the statements do to a slot -/

section Slots

variable {db db' : Db} {now : ℕ}

/-- A slot that is queued has not been tried. -/
theorem sent_untried {sha256 : String → String} {seen : Db} {auth : AuthCtx} {id k key : Uuid}
    {input : SendInput} {r : SentMessage}
    (h : send sha256 now seen auth id input k key db = .ok (r, db')) (hnone : slot_at k db = none)
    {o : ConversationOutbox} (ho : slot_at k db' = some o) : o.attempts = 0 := by
  rcases send_ok h with rfl | ⟨c, body, -, -, -, -, ⟨-, rfl⟩ | ⟨-, hq⟩⟩
  · rw [hnone] at ho
    cases ho
  · have hsame : slot_at k (with_message sha256 now auth c input body k db) = slot_at k db := rfl
    rw [hsame, hnone] at ho
    cases ho
  · obtain rfl := enqueue_ok hq
    have hno : (with_message sha256 now auth c input body k db).conversation_outbox.any
        (fun o => o.message_id == k) = false := by
      simpa [with_message] using one_eq_none.mp hnone
    simp only [slot_at, hno, Bool.false_eq_true, if_false] at ho
    rw [one_insert_into, show one (fun o => o.message_id == k)
      (with_message sha256 now auth c input body k db).conversation_outbox = none
      from hnone, Option.none_or, if_pos (by simp [slot_row])] at ho
    rw [← Option.some.inj ho]
    rfl

end Slots

/-! ## What a step did -/

/-- What a step did to the database and to the parties. -/
inductive Did (s : Sys) : Act → Sys → Prop
  /-- No message and no slot changed. -/
  | still {a : Act} {t : Sys} : (∀ k, SameAt k s.db t.db) →
      (s.db.MessagesKeyed → t.db.MessagesKeyed) →
      (s.db.SlotsKeyed → t.db.SlotsKeyed) →
      t.handed = s.handed → t.parties = s.parties ∨ t.parties = s.parties ++ [.idle] → Did s a t
  | sent {a : Act} {k : Uuid} {db' : Db} : Sent k s.db db' →
      (slot_at k s.db = none → ∀ o, slot_at k db' = some o → o.attempts = 0) →
      Did s a { s with db := db' }
  | called {i : ℕ} {l : Lease} : s.parties[i]? = some (.leased l) →
      Did s (.publish i) { s.go i (.publishing l) s.db with handed := l.message_id :: s.handed }
  | heard {i : ℕ} {w : Word} {before after : Phase} : s.parties[i]? = some before →
      onward w before = some after → Did s (.word i w) (s.go i after s.db)
  | leased {i now : ℕ} {worker : String} {locked : List Uuid} {o : ConversationOutbox} {db' : Db} :
      s.parties[i]? = some .idle →
      lease now worker locked.contains s.db = some (lease_of (leased_row now worker 1 o), db') →
      due now locked.contains o = true → Took o worker 1 now s.db db' →
      Did s (.lease i now worker locked)
        (s.go i (.leased (lease_of (leased_row now worker 1 o))) db')
  | taken {i now : ℕ} {k : Uuid} {o : ConversationOutbox} {db' : Db} :
      s.parties[i]? = some .idle →
      lease_one now "reconciler" k s.db = some (lease_of (leased_row now "reconciler" 0 o), db') →
      takeable now k o = true → Took o "reconciler" 0 now s.db db' →
      Did s (.lease_one i now k)
        (s.go i (.asking (lease_of (leased_row now "reconciler" 0 o))) db')
  | settled {i now : ℕ} {l : Lease} {p : Published} {r : Settled} {db' : Db} :
      s.parties[i]? = some (.settling l p) → Settles now l s.db p r db' →
      Did s (.settle i now) (s.go i (.settled l) db')
  | confirmed {i now : ℕ} {l : Lease} {locator : Locator} {r : Settled} {db' : Db} :
      s.parties[i]? = some (.confirming l locator) → Settles now l s.db (.Confirmed locator) r db' →
      Did s (.confirm i now) (s.go i .idle db')
  | released {i now : ℕ} {l : Lease} {why : String} {db' : Db} :
      s.parties[i]? = some (.leased l) → Back l (released_row now why) s.db db' →
      Did s (.release i now) (s.go i .idle db')
  | marked {i now : ℕ} {l : Lease} {why : String} {db' : Db} :
      s.parties[i]? = some (.timed_out l) → Back l (uncertain_row now why) s.db db' →
      Did s (.mark_uncertain i now) (s.go i .idle db')
  | unleased {i now : ℕ} {l : Lease} {db' : Db} :
      s.parties[i]? = some (.returning l) → Back l (unleased_row now) s.db db' →
      Did s (.unlease i now) (s.go i .idle db')

section Effects

variable {sha256 : String → String} {s t : Sys} {a : Act}

@[simp] theorem go_db (i : ℕ) (ph : Phase) (db : Db) : (s.go i ph db).db = db := rfl

@[simp] theorem go_handed (i : ℕ) (ph : Phase) (db : Db) : (s.go i ph db).handed = s.handed := rfl

@[simp] theorem go_parties (i : ℕ) (ph : Phase) (db : Db) : (s.go i ph db).parties = s.parties.set i ph := rfl

theorem Did.stays : Did s a s :=
  .still (fun _ => ⟨rfl, rfl⟩) (fun h => h) (fun h => h) rfl (Or.inl rfl)

/-- Every step is one of these. -/
theorem step_did (hk : s.db.SlotsKeyed) (h : step sha256 s a = some t) : Did s a t := by
  cases a with
  | join =>
    obtain rfl := Option.some.inj h
    exact .still (fun _ => ⟨rfl, rfl⟩) (fun h => h) (fun h => h) rfl (Or.inr rfl)
  | send now seen auth id input k key =>
    simp only [step] at h
    split at h <;> obtain rfl := Option.some.inj h
    · exact .stays
    · rename_i hok
      rcases send_spec hok with rfl | hsent
      · exact .stays
      · exact .sent hsent fun hnone o ho => sent_untried hok hnone ho
  | lease i now worker locked =>
    simp only [step] at h
    split at h
    · rename_i hi hlease
      obtain rfl := Option.some.inj h
      obtain ⟨o, rfl, hdue, htook⟩ := lease_took hk hlease
      exact .leased hi hlease hdue htook
    · obtain rfl := Option.some.inj h
      exact .stays
    · cases h
  | release i now =>
    simp only [step] at h
    split at h
    · rename_i hi
      obtain rfl := Option.some.inj h
      exact .released hi (release_back hk _)
    · cases h
  | publish i =>
    simp only [step] at h
    split at h
    · rename_i hi
      obtain rfl := Option.some.inj h
      exact .called hi
    · cases h
  | word i w =>
    simp only [step, Option.bind_eq_bind, Option.bind_eq_some_iff, Option.pure_def,
      Option.some.injEq] at h
    obtain ⟨before, hi, after, hon, rfl⟩ := h
    exact .heard hi hon
  | settle i now =>
    simp only [step] at h
    split at h
    · rename_i hi
      obtain rfl := Option.some.inj h
      exact .settled hi (settle_settles hk _)
    · cases h
  | mark_uncertain i now =>
    simp only [step] at h
    split at h
    · rename_i hi
      obtain rfl := Option.some.inj h
      exact .marked hi (mark_uncertain_back hk _)
    · cases h
  | lease_one i now k =>
    simp only [step] at h
    split at h
    · rename_i hi hlease
      obtain rfl := Option.some.inj h
      obtain ⟨o, rfl, htakeable, htook⟩ := lease_one_took hk hlease
      exact .taken hi hlease htakeable htook
    · obtain rfl := Option.some.inj h
      exact .stays
    · cases h
  | confirm i now =>
    simp only [step] at h
    split at h
    · rename_i hi
      obtain rfl := Option.some.inj h
      exact .confirmed hi (settle_settles hk _)
    · cases h
  | unlease i now =>
    simp only [step] at h
    split at h
    · rename_i hi
      obtain rfl := Option.some.inj h
      exact .unleased hi (unlease_back hk)
    · cases h
  | clear_uncertain team_id =>
    obtain rfl := Option.some.inj h
    refine .still (fun k => ⟨?_, rfl⟩) (fun hm => hm.update fun _ => rfl) (fun h => h) rfl (Or.inl rfl)
    exact state_update_quiet (fun _ => rfl) fun _ => rfl
  | other db' =>
    simp only [step] at h
    split at h
    · rename_i hsame
      obtain rfl := Option.some.inj h
      simp only [leaves_slots, Bool.and_eq_true, beq_iff_eq] at hsame
      refine .still (fun k => ⟨state_at_eq hsame.2 k, ?_⟩) (keyed_of_states hsame.2) (fun hm => ?_) rfl
        (Or.inl rfl)
      · rw [slot_at, hsame.1, slot_at]
      · rw [Db.SlotsKeyed, hsame.1]
        exact hm
    · cases h

end Effects

/-! ## Who has which slot -/

/-- The lease of party `i`. -/
def Sys.held (s : Sys) (i : ℕ) : Option Lease := s.parties[i]?.bind Phase.held

/-- The lease party `i` has of the queue. -/
def Sys.drains (s : Sys) (i : ℕ) : Option Lease := s.parties[i]?.bind Phase.drains

/-- A lease is of a message there is, at a generation its slot has reached, and nobody
else's. -/
structure Inv (s : Sys) : Prop where
  messages : s.db.MessagesKeyed
  slots : s.db.SlotsKeyed
  owned : ∀ k o, slot_at k s.db = some o → (state_at k s.db).isSome = true
  known : ∀ i l, s.held i = some l → (state_at l.message_id s.db).isSome = true ∧
    ∀ o, slot_at l.message_id s.db = some o → l.generation ≤ o.generation
  unique : ∀ i j l l', s.held i = some l → s.held j = some l' → l.message_id = l'.message_id →
    l.generation = l'.generation → i = j

/-- What every step does: messages stay, generations grow, and only party `j` may have a
new lease, at the new generation of its slot. -/
structure Slides (j : ℕ) (s t : Sys) : Prop where
  messages : t.db.MessagesKeyed
  slots : t.db.SlotsKeyed
  stays : ∀ k, (state_at k s.db).isSome = true → (state_at k t.db).isSome = true
  grows : ∀ k o', slot_at k t.db = some o' →
    (∃ o, slot_at k s.db = some o ∧ o.generation ≤ o'.generation) ∨
      state_at k s.db = none ∧ (state_at k t.db).isSome = true
  parties : ∀ i l, t.held i = some l → s.held i = some l ∨
    i = j ∧ ∃ o o', slot_at l.message_id s.db = some o ∧ slot_at l.message_id t.db = some o' ∧
      l.generation = o.generation + 1 ∧ o'.generation = l.generation

section Parties

variable {sha256 : String → String} {s t : Sys} {a : Act} {i j : ℕ} {before after : Phase} {db' : Db}
  {l : Lease} {β : Type} {st : Option PublicationState} {slot : Option ConversationOutbox} {o : ConversationOutbox}
  {now : ℕ}

/-- What is asked of a party after one of them has moved. -/
theorem bind_go (f : Phase → Option β) (hi : s.parties[i]? = some before) (j : ℕ) :
    (s.go i after db').parties[j]?.bind f = if j = i then f after else s.parties[j]?.bind f := by
  have hlt : i < s.parties.length := (List.getElem?_eq_some_iff.mp hi).1
  by_cases hj : j = i
  · rw [if_pos hj, hj, go_parties, List.getElem?_set_self hlt, Option.bind_some]
  · rw [if_neg hj, go_parties, List.getElem?_set_ne (Ne.symm hj)]

/-- A party that comes has nothing. -/
theorem bind_join {f : Phase → Option β} (hf : f .idle = none)
    (hparties : t.parties = s.parties ∨ t.parties = s.parties ++ [.idle]) {x : β}
    (hx : t.parties[i]?.bind f = some x) : s.parties[i]?.bind f = some x := by
  rcases hparties with heq | heq
  · rw [heq] at hx
    exact hx
  · obtain ⟨ph, hph, hfx⟩ := Option.bind_eq_some_iff.mp hx
    rw [heq] at hph
    by_cases hlt : i < s.parties.length
    · rw [List.getElem?_append_left hlt] at hph
      exact Option.bind_eq_some_iff.mpr ⟨ph, hph, hfx⟩
    · rw [List.getElem?_append_right (by omega)] at hph
      rw [List.mem_singleton.mp (List.mem_of_getElem? hph), hf] at hfx
      cases hfx

theorem held_go (hi : s.parties[i]? = some before) (j : ℕ) :
    (s.go i after db').held j = if j = i then after.held else s.held j := bind_go Phase.held hi j

theorem drains_go (hi : s.parties[i]? = some before) (j : ℕ) :
    (s.go i after db').drains j = if j = i then after.drains else s.drains j := bind_go Phase.drains hi j

theorem held_of_party (hi : s.parties[i]? = some before) : s.held i = before.held := by
  rw [Sys.held, hi, Option.bind_some]

theorem drains_of_party (hi : s.parties[i]? = some before) : s.drains i = before.drains := by
  rw [Sys.drains, hi, Option.bind_some]

theorem held_of_drains (h : s.drains i = some l) : s.held i = some l := by
  obtain ⟨ph, hi, hph⟩ := Option.bind_eq_some_iff.mp h
  rw [held_of_party hi]
  cases ph with
  | idle | asking | confirming | returning => exact absurd hph (by simp [Phase.drains])
  | _ => exact hph

/-- A publish is settled at once, or the bus is asked first. -/
theorem after_publish_cases (l : Lease) (p : Published) :
    (∃ why, after_publish l p = .consulting l why) ∨ ∃ q, after_publish l p = .settling l q := by
  cases p with
  | Confirmed locator | Fatal why => exact Or.inr ⟨_, rfl⟩
  | Retryable why =>
    by_cases hlast : MAX_ATTEMPTS ≤ l.attempts
    · exact Or.inl ⟨why, if_pos hlast⟩
    · exact Or.inr ⟨_, if_neg hlast⟩

/-- No lease comes of a word. -/
theorem onward_held {w : Word} (h : onward w before = some after) :
    (after.held = none ∨ after.held = before.held) ∧ (after.drains = none ∨ after.drains = before.drains) := by
  unfold onward at h
  split at h
  all_goals first | (obtain rfl := Option.some.inj h) | exact nomatch h
  · rename_i p l
    rcases after_publish_cases l p with ⟨why, heq⟩ | ⟨q, heq⟩ <;> rw [heq]
    · exact ⟨Or.inr rfl, Or.inr rfl⟩
    · exact ⟨Or.inr rfl, Or.inr rfl⟩
  all_goals first | exact ⟨Or.inl rfl, Or.inl rfl⟩ | exact ⟨Or.inr rfl, Or.inr rfl⟩

/-- What a statement about the slot of one message does to generations. -/
theorem moved_grows (hm : Moved l s.db db' st slot) (ho : slot_at l.message_id s.db = some o)
    (hgen : ∀ o', slot = some o' → o.generation ≤ o'.generation)
    (hst : (state_at l.message_id s.db).isSome = true → st.isSome = true) :
    (∀ k, (state_at k s.db).isSome = true → (state_at k db').isSome = true) ∧
      ∀ k o', slot_at k db' = some o' →
        (∃ o, slot_at k s.db = some o ∧ o.generation ≤ o'.generation) := by
  constructor
  · intro k hk
    by_cases hkl : k = l.message_id
    · rw [hkl, hm.state]
      exact hst (hkl ▸ hk)
    · rw [(hm.others k hkl).1]
      exact hk
  · intro k o' ho'
    by_cases hkl : k = l.message_id
    · rw [hkl, hm.slot] at ho'
      exact ⟨o, hkl ▸ ho, hgen o' ho'⟩
    · rw [(hm.others k hkl).2] at ho'
      exact ⟨o', ho', le_refl _⟩

/-- A statement of party `i`, after which it has no other lease. -/
theorem Slides.of_moved (hs : Inv s) (hi : s.parties[i]? = some before)
    (hheld : after.held = none ∨ after.held = before.held) (hm : Moved l s.db db' st slot)
    (ho : slot_at l.message_id s.db = some o) (hgen : ∀ o', slot = some o' → o.generation ≤ o'.generation)
    (hst : (state_at l.message_id s.db).isSome = true → st.isSome = true) :
    Slides i s (s.go i after db') := by
  obtain ⟨hstays, hgrows⟩ := moved_grows hm ho hgen hst
  refine ⟨hm.messages hs.messages, hm.slots hs.slots, hstays, fun k o' ho' => Or.inl (hgrows k o' ho'),
    fun j x hx => Or.inl ?_⟩
  rw [held_go hi] at hx
  split at hx
  · rename_i hj
    rcases hheld with hnone | hsame
    · rw [hnone] at hx
      cases hx
    · rw [hj, held_of_party hi, ← hsame]
      exact hx
  · exact hx

/-- A party goes on, and nothing of any message is written. -/
theorem Slides.of_same (hi : s.parties[i]? = some before)
    (hheld : after.held = none ∨ after.held = before.held) (hsame : ∀ k, SameAt k s.db db')
    (hmessages : db'.MessagesKeyed) (hslots : db'.SlotsKeyed) :
    Slides i s (s.go i after db') := by
  refine ⟨hmessages, hslots, fun k hk => ?_, fun k o' ho' => ?_, fun j x hx => Or.inl ?_⟩
  · rw [go_db, (hsame k).1]
    exact hk
  · rw [go_db, (hsame k).2] at ho'
    exact Or.inl ⟨o', ho', le_refl _⟩
  · rw [held_go hi] at hx
    split at hx
    · rename_i hj
      rcases hheld with hnone | hkeeps
      · rw [hnone] at hx
        cases hx
      · rw [hj, held_of_party hi, ← hkeeps]
        exact hx
    · exact hx

/-- A settlement gives nobody a new lease. -/
theorem Slides.of_settles (hs : Inv s) {p : Published} {r : Settled} (hi : s.parties[i]? = some before)
    (hheld : after.held = none ∨ after.held = before.held) (h : Settles now l s.db p r db') :
    Slides i s (s.go i after db') := by
  cases h with
  | fenced _ => exact .of_same hi hheld (fun _ => ⟨rfl, rfl⟩) hs.messages hs.slots
  | stored ho _ hm =>
    exact .of_moved hs hi hheld hm ho (fun _ h => nomatch h) fun h => by simpa using h
  | retried ho _ _ hm =>
    exact .of_moved hs hi hheld hm ho (fun _ h => Option.some.inj h ▸ le_refl _) fun h => h
  | failed ho _ _ hm _ hgen _ =>
    exact .of_moved hs hi hheld hm ho (fun _ h => Option.some.inj h ▸ hgen.ge) fun h => by simpa using h

/-- A slot goes back to the queue. -/
theorem Slides.of_back (hs : Inv s) {f : ConversationOutbox → ConversationOutbox}
    (hi : s.parties[i]? = some before) (h : Back l f s.db db')
    (hf : ∀ o, (f o).generation = o.generation) : Slides i s (s.go i .idle db') := by
  cases h with
  | missed _ hsame hmessages hslots =>
    exact .of_same hi (Or.inl rfl) hsame (hmessages hs.messages) (hslots hs.slots)
  | written ho _ hm =>
    exact .of_moved hs hi (Or.inl rfl) hm ho (fun _ h => Option.some.inj h ▸ (hf _).ge) fun h => h

/-- A worker takes a slot, under its next generation. -/
theorem Slides.of_took (hs : Inv s) {worker : String} {attempt : ℕ} (hi : s.parties[i]? = some .idle)
    (hafter : after.held = some (lease_of (leased_row now worker attempt o)))
    (h : Took o worker attempt now s.db db') : Slides i s (s.go i after db') := by
  obtain ⟨hstays, hgrows⟩ := moved_grows h.moved h.there
    (fun o' ho' => by rw [← Option.some.inj ho']; exact Nat.le_succ _) fun hst => hst
  refine ⟨h.moved.messages hs.messages, h.moved.slots hs.slots, hstays,
    fun k o' ho' => Or.inl (hgrows k o' ho'), fun j x hx => ?_⟩
  rw [held_go hi] at hx
  split at hx
  · rename_i hj
    obtain rfl := Option.some.inj (hafter.symm.trans hx)
    exact Or.inr ⟨hj, o, _, h.there, h.moved.slot, rfl, rfl⟩
  · exact Or.inl hx

/-- Every step gives at most one party a new lease. -/
theorem Did.slides (hs : Inv s) (h : Did s a t) : ∃ j, Slides j s t := by
  cases h with
  | still hsame hmessages hslots _ hparties =>
    refine ⟨0, hmessages hs.messages, hslots hs.slots, fun k hk => ?_, fun k o' ho' => ?_,
      fun i l hl => Or.inl ?_⟩
    · rw [(hsame k).1]
      exact hk
    · rw [(hsame k).2] at ho'
      exact Or.inl ⟨o', ho', le_refl _⟩
    · exact bind_join rfl hparties hl
  | @sent _ k db' hsent _ =>
    have hfresh : slot_at k s.db = none := by
      cases ho : slot_at k s.db with
      | none => rfl
      | some o =>
        have hst := hs.owned k o ho
        rw [hsent.fresh] at hst
        cases hst
    have hnew : (state_at k db').isSome = true := by
      rcases hsent.sent hfresh with ⟨hst, -⟩ | ⟨hst, -⟩
      · rw [hst]
        rfl
      · rw [hst]
        rfl
    refine ⟨0, hsent.messages hs.messages, hsent.slots hs.slots, fun j hj => ?_, fun j o' ho' => ?_,
      fun i l hl => Or.inl hl⟩
    · by_cases hjk : j = k
      · rw [hjk]
        exact hnew
      · rw [(hsent.others j hjk).1]
        exact hj
    · by_cases hjk : j = k
      · rw [hjk]
        exact Or.inr ⟨hsent.fresh, hnew⟩
      · rw [(hsent.others j hjk).2] at ho'
        exact Or.inl ⟨o', ho', le_refl _⟩
  | called hi =>
    have hgo : Slides _ s (s.go _ (.publishing _) s.db) :=
      .of_same hi (Or.inr rfl) (fun _ => ⟨rfl, rfl⟩) hs.messages hs.slots
    exact ⟨_, hgo.messages, hgo.slots, hgo.stays, hgo.grows, hgo.parties⟩
  | heard hi hon =>
    exact ⟨_, .of_same hi (onward_held hon).1 (fun _ => ⟨rfl, rfl⟩) hs.messages hs.slots⟩
  | leased hi _ _ htook | taken hi _ _ htook => exact ⟨_, .of_took hs hi rfl htook⟩
  | settled hi h => exact ⟨_, .of_settles hs hi (Or.inr rfl) h⟩
  | confirmed hi h => exact ⟨_, .of_settles hs hi (Or.inl rfl) h⟩
  | released hi h | marked hi h | unleased hi h => exact ⟨_, .of_back hs hi h fun _ => rfl⟩

/-- Which keeps the invariant. -/
theorem Inv.slide (hs : Inv s) (h : Slides j s t) : Inv t := by
  have hknown : ∀ i l, t.held i = some l → (state_at l.message_id t.db).isSome = true ∧
      ∀ o, slot_at l.message_id t.db = some o → l.generation ≤ o.generation := by
    intro i l hl
    rcases h.parties i l hl with hold | ⟨-, o, o', ho, ho', hnext, hgen⟩
    · obtain ⟨hst, hle⟩ := hs.known i l hold
      refine ⟨h.stays _ hst, fun o' ho' => ?_⟩
      rcases h.grows _ o' ho' with ⟨o, ho, hgen⟩ | ⟨hnone, -⟩
      · exact (hle o ho).trans hgen
      · rw [hnone] at hst
        cases hst
    · refine ⟨h.stays _ (hs.owned _ o ho), fun x hx => ?_⟩
      rw [ho'] at hx
      rw [← Option.some.inj hx, hgen]
  -- an older lease is not at the generation of a new one
  have hold_new : ∀ (i : ℕ) (l l' : Lease) (o : ConversationOutbox), s.held i = some l → slot_at l'.message_id s.db = some o →
      l'.generation = o.generation + 1 → l.message_id = l'.message_id → l.generation ≠ l'.generation := by
    intro i l l' o hl ho hnext hk hg
    have hle := (hs.known i l hl).2 o (hk ▸ ho)
    omega
  refine ⟨h.messages, h.slots, fun k o' ho' => ?_, hknown, fun i i' l l' hl hl' hk hg => ?_⟩
  · rcases h.grows k o' ho' with ⟨o, ho, -⟩ | ⟨-, hst⟩
    · exact h.stays k (hs.owned k o ho)
    · exact hst
  · rcases h.parties i l hl with hold | ⟨hi, o, -, ho, -, hnext, -⟩ <;>
      rcases h.parties i' l' hl' with hold' | ⟨hi', o', -, ho', -, hnext', -⟩
    · exact hs.unique i i' l l' hold hold' hk hg
    · exact absurd hg (hold_new i l l' o' hold ho' hnext' hk)
    · exact absurd hg.symm (hold_new i' l' l o hold' ho hnext hk.symm)
    · rw [hi, hi']

/-- The invariant is kept by every step. -/
theorem Inv.step (hs : Inv s) (h : step sha256 s a = some t) : Inv t := by
  obtain ⟨j, hslides⟩ := (step_did hs.slots h).slides hs
  exact hs.slide hslides

theorem start_inv {db : Db} (hmessages : db.MessagesKeyed) (hslots : db.SlotsKeyed)
    (howned : ∀ k o, slot_at k db = some o → (state_at k db).isSome = true) : Inv (Sys.start db) :=
  ⟨hmessages, hslots, howned, fun i l hl => absurd hl (by simp [Sys.held, Sys.start]),
    fun i j l l' hl => absurd hl (by simp [Sys.held, Sys.start])⟩

end Parties

end CrewSync.Attempts
