/-
The outbox at work: messages and their slots under any number of workers, the
reconciler, expiring leases, timeouts and crashes.

What a message and its slot have to do with each other is a matter of one message:
`fits` says which pairs are allowed, and every statement changes the pair of one
message at most (`Moved`). The second half says, statement by statement, what it
did to that pair: settlements, slots given back, leases, sends.
-/
import CrewSync.Runs
import CrewSync.Send

set_option autoImplicit false

namespace CrewSync.Settlement

open Schema Rows
open Outbox Send

/-! ## The system -/

/-- Where a party of the outbox stands. -/
inductive Phase where
  | idle
  /-- A worker's attempt is under way. -/
  | working (l : Lease)
  /-- The attempt's settlement has committed, and has not returned. -/
  | settled (l : Lease)
  /-- The attempt was cut. -/
  | timed_out (l : Lease)
  /-- The reconciler has the slot. -/
  | reconciling (l : Lease)
  deriving DecidableEq, Repr

/-- The lease a party holds, or has settled and not left behind. -/
def Phase.held : Phase → Option Lease
  | .idle => none
  | .working l | .settled l | .timed_out l | .reconciling l => some l

/-- The lease a party is at work under, unsettled. -/
def Phase.at_work : Phase → Option Lease
  | .working l | .reconciling l => some l
  | _ => none

/-- Who is at work holds its lease. -/
theorem Phase.held_of_at_work {ph : Phase} {l : Lease} (h : ph.at_work = some l) :
    ph.held = some l := by
  cases ph <;> simp_all [Phase.at_work, Phase.held]

/-- The state of the system: workers and reconcilers are parties. -/
structure Sys where
  db : Db
  party : ℕ → Phase

/-- What can happen next. -/
inductive Act where
  | send (now : ℕ) (seen : Db) (auth : AuthCtx) (id : Uuid) (input : SendInput)
      (message_id publish_key : Uuid)
  /-- Worker `w` leases a slot; those in `locked` are held by open transactions. -/
  | lease (w now : ℕ) (worker : String) (locked : List Uuid)
  /-- Worker `w` settles what came of its publish. -/
  | settle (w now : ℕ) (published : Published) (reconciled : Option Locator)
  | returned (w : ℕ)
  /-- The timeout cuts the attempt of worker `w`, wherever it is. -/
  | timeout (w : ℕ)
  | mark_uncertain (w now : ℕ)
  | release (w now : ℕ) (why : String)
  | lease_one (w now : ℕ) (worker : String) (message_id : Uuid)
  /-- The reconciler settles with what the backend holds. -/
  | confirm (w now : ℕ) (locator : Locator)
  | unlease (w now : ℕ)
  | clear_uncertain (team_id : Uuid)
  | crash (w : ℕ)
  /-- Any other part of the server commits. -/
  | other (db' : Db)

/-- Party `w` goes on to `ph`, and `db` is committed. -/
def Sys.go (s : Sys) (w : ℕ) (ph : Phase) (db : Db) : Sys :=
  { db := db, party := Function.update s.party w ph }

/-- The messages with their publication states. -/
def states (db : Db) : List (Uuid × PublicationState) :=
  db.conversation_messages.map fun m => (m.id, m.publication_state)

/-- No statement outside this system writes a slot, adds or deletes a message, or
moves its publication state. -/
def leaves_slots (db db' : Db) : Bool :=
  db'.conversation_outbox == db.conversation_outbox && states db' == states db

section Steps

variable (sha256 : String → String)

/-- One step. -/
def step (s : Sys) : Act → Option Sys
  | .send now seen auth id input message_id publish_key =>
    match send sha256 now seen auth id input message_id publish_key s.db with
    | .error _ => some s
    | .ok (_, db') => some { s with db := db' }
  | .lease w now worker locked =>
    match s.party w, lease now worker locked.contains s.db with
    | .idle, some (l, db') => some (s.go w (.working l) db')
    | .idle, none => some s
    | _, _ => none
  | .settle w now published reconciled =>
    match s.party w with
    | .working l =>
      some (s.go w (.settled l) (settle now l (outcome_of l published reconciled) s.db).2)
    | _ => none
  | .returned w =>
    match s.party w with
    | .settled _ => some (s.go w .idle s.db)
    | _ => none
  | .timeout w =>
    match s.party w with
    | .working l => some (s.go w (.timed_out l) s.db)
    | .settled l => some (s.go w (.timed_out l) s.db)
    | _ => none
  | .mark_uncertain w now =>
    match s.party w with
    | .timed_out l =>
      some (s.go w .idle
        (mark_uncertain now l "the publish did not answer within the timeout" s.db).2)
    | _ => none
  | .release w now why =>
    match s.party w with
    | .working l => some (s.go w .idle (release now l why s.db))
    | _ => none
  | .lease_one w now worker message_id =>
    match s.party w, lease_one now worker message_id s.db with
    | .idle, some (l, db') => some (s.go w (.reconciling l) db')
    | .idle, none => some s
    | _, _ => none
  | .confirm w now locator =>
    match s.party w with
    | .reconciling l => some (s.go w .idle (settle now l (.Confirmed locator) s.db).2)
    | _ => none
  | .unlease w now =>
    match s.party w with
    | .reconciling l => some (s.go w .idle (unlease now l s.db))
    | _ => none
  | .clear_uncertain team_id => some { s with db := clear_uncertain team_id s.db }
  | .crash w => some (s.go w .idle s.db)
  | .other db' => if leaves_slots s.db db' then some { s with db := db' } else none

end Steps

/-! ## One message and its slot -/

/-- The publication state of message `k`. -/
def state_at (k : Uuid) (db : Db) : Option PublicationState :=
  (one (fun m => m.id == k) db.conversation_messages).map fun m => m.publication_state

/-- The slot of message `k`. -/
def slot_at (k : Uuid) (db : Db) : Option ConversationOutbox :=
  one (fun o => o.message_id == k) db.conversation_outbox

/-- Which state a message may be in beside which slot. -/
def fits : Option PublicationState → Option SlotState → Bool
  | none, none => true
  | some .stored, none => true
  | some .pending_publication, some .pending => true
  | some .pending_publication, some .leased => true
  | some .failed, some .failed => true
  | _, _ => false

/-- The message and the slot of `k` are the same in both databases. -/
def SameAt (k : Uuid) (db db' : Db) : Prop :=
  state_at k db' = state_at k db ∧ slot_at k db' = slot_at k db

/-- The states are all that `state_at` looks at. -/
theorem state_at_eq {db db' : Db} (h : states db' = states db) (k : Uuid) :
    state_at k db' = state_at k db := by
  have hfind : ∀ d : Db, state_at k d =
      ((states d).find? fun p => p.1 == k).map fun p => p.2 := by
    intro d
    rw [states, List.find?_map, Option.map_map]
    rfl
  rw [hfind, hfind, h]

/-- Messages have different ids as long as ids and states stay. -/
theorem keyed_of_states {db db' : Db} (h : states db' = states db) (hk : db.MessagesKeyed) :
    db'.MessagesKeyed := by
  have hids : db'.conversation_messages.map ConversationMessage.id =
      db.conversation_messages.map ConversationMessage.id := by
    have hfst := congrArg (List.map Prod.fst) h
    rw [states, states, List.map_map, List.map_map] at hfst
    exact hfst
  rw [Db.MessagesKeyed, Keyed, hids]
  exact hk

/-! ## What the statements do to one message -/

section Pointwise

variable {db : Db} {k : Uuid} {now : ℕ} {l : Lease} {o : ConversationOutbox} {w : ConversationOutbox → Bool}
  {f : ConversationOutbox → ConversationOutbox} {t : List ConversationOutbox} {k' : Uuid} {st : PublicationState}
  {db' : Db}

/-- A slot that is found is there, under its message. -/
theorem slot_mem (h : slot_at k db = some o) : o ∈ db.conversation_outbox ∧ o.message_id = k := by
  have hp := pos_of_one h
  exact ⟨mem_of_one h, by simpa using hp⟩

/-- A message has one slot. -/
theorem slot_iff (hk : db.SlotsKeyed) :
    slot_at k db = some o ↔ o ∈ db.conversation_outbox ∧ o.message_id = k :=
  hk.one_iff

/-- A slot through an `UPDATE` of slots. -/
theorem one_slot_update (hf : ∀ o, (f o).message_id = o.message_id) :
    one (fun o => o.message_id == k) (update w f t) =
      (one (fun o => o.message_id == k) t).map fun o => if w o then f o else o :=
  one_update fun o => by rw [hf o]

/-- A slot through an `UPDATE` of another message's slot. -/
theorem one_slot_elsewhere
    (hf : ∀ o, (f o).message_id = o.message_id) (hw : ∀ o, w o = true → o.message_id = k') (hne : k ≠ k') :
    one (fun o => o.message_id == k) (update w f t) = one (fun o => o.message_id == k) t := by
  rw [one_slot_update hf]
  cases hone : one (fun o => o.message_id == k) t with
  | none => rfl
  | some o =>
    have hid := pos_of_one hone
    have hwo : w o = false := by
      by_contra hwo
      exact hne ((beq_iff_eq.mp hid).symm.trans (hw o (by simpa using hwo)))
    rw [Option.map_some, hwo]
    rfl

/-- A message through an `UPDATE` of messages that leaves publication states
alone. -/
theorem state_update_quiet {w : ConversationMessage → Bool}
    {f : ConversationMessage → ConversationMessage} {t : List ConversationMessage}
    (hid : ∀ m, (f m).id = m.id) (hst : ∀ m, (f m).publication_state = m.publication_state) :
    (one (fun m => m.id == k) (update w f t)).map (fun m => m.publication_state) =
      (one (fun m => m.id == k) t).map fun m => m.publication_state := by
  rw [one_update fun m => by rw [hid m], Option.map_map]
  congr 1
  funext m
  simp only [Function.comp]
  split
  · exact hst m
  · rfl

/-- A message through an `UPDATE … WHERE id = k'` that sets the state to `st`. -/
theorem state_update {f : ConversationMessage → ConversationMessage} {t : List ConversationMessage}
    (hid : ∀ m, (f m).id = m.id) (hst : ∀ m, (f m).publication_state = st) :
    (one (fun m => m.id == k) (update (fun m => m.id == k') f t)).map
        (fun m => m.publication_state) =
      if k = k' then ((one (fun m => m.id == k) t).map fun m => m.publication_state).map fun _ => st
      else (one (fun m => m.id == k) t).map fun m => m.publication_state := by
  rw [one_update fun m => by rw [hid m]]
  cases hone : one (fun m => m.id == k) t with
  | none => simp
  | some m =>
    have hmid := pos_of_one hone
    simp only [beq_iff_eq] at hmid
    subst hmid
    by_cases hk : m.id = k'
    · simp [hk, hst]
    · simp [hk]

/-- The fence of a settlement: the generation, and a lease that runs. -/
theorem holds_iff : holds now l o = true ↔ o.message_id = l.message_id ∧
    o.generation = l.generation ∧ ∃ t, o.lease_expires_at = some t ∧ now < t := by
  simp [holds, and_assoc, Option.any_eq_true]

/-- The fence of a release: the generation alone. -/
theorem at_generation_iff :
    at_generation l o = true ↔ o.message_id = l.message_id ∧ o.generation = l.generation := by
  simp [at_generation]

/-- What a statement fenced by the lease `l` does: the state and the slot of that
message, and nothing else of any message. -/
structure Moved (l : Lease) (db db' : Db) (st : Option PublicationState)
    (slot : Option ConversationOutbox) : Prop where
  messages : db.MessagesKeyed → db'.MessagesKeyed
  slots : db.SlotsKeyed → db'.SlotsKeyed
  others : ∀ k, k ≠ l.message_id → SameAt k db db'
  state : state_at l.message_id db' = st
  slot : slot_at l.message_id db' = slot

theorem any_iff_slot (hk : db.SlotsKeyed) (hw : ∀ o, w o = true → o.message_id = l.message_id) :
    db.conversation_outbox.any w = true ↔ ∃ o, slot_at l.message_id db = some o ∧ w o = true := by
  rw [List.any_eq_true]
  constructor
  · rintro ⟨o, ho, hwo⟩
    exact ⟨o, (slot_iff hk).mpr ⟨ho, hw o hwo⟩, hwo⟩
  · rintro ⟨o, ho, hwo⟩
    exact ⟨o, (slot_mem ho).1, hwo⟩

/-- The slot rewritten, the message not. -/
theorem Moved.slot_only {g : ConversationMessage → ConversationMessage}
    {v : ConversationMessage → Bool} (hf : ∀ o, (f o).message_id = o.message_id)
    (hw : ∀ o, w o = true → o.message_id = l.message_id) (ho : slot_at l.message_id db = some o)
    (hwo : w o = true) (hgid : ∀ m, (g m).id = m.id) (hgst : ∀ m, (g m).publication_state = m.publication_state)
    (hslots : db'.conversation_outbox = update w f db.conversation_outbox)
    (hmessages : db'.conversation_messages = update v g db.conversation_messages) :
    Moved l db db' (state_at l.message_id db) (some (f o)) := by
  refine ⟨fun h => ?_, fun h => ?_, fun k hne => ⟨?_, ?_⟩, ?_, ?_⟩
  · rw [Db.MessagesKeyed, hmessages]
    exact h.update hgid
  · rw [Db.SlotsKeyed, hslots]
    exact h.update hf
  · rw [state_at, hmessages, state_update_quiet hgid hgst, state_at]
  · rw [slot_at, hslots, one_slot_elsewhere hf hw hne, slot_at]
  · rw [state_at, hmessages, state_update_quiet hgid hgst, state_at]
  · rw [slot_at, hslots, one_slot_update hf, show one (fun o => o.message_id == l.message_id)
      db.conversation_outbox = some o from ho, Option.map_some, if_pos hwo]

/-- The slot rewritten, and the message's state set. -/
theorem Moved.both (hf : ∀ o, (f o).message_id = o.message_id)
    (hw : ∀ o, w o = true → o.message_id = l.message_id) (ho : slot_at l.message_id db = some o)
    (hwo : w o = true) (hslots : db'.conversation_outbox = update w f db.conversation_outbox)
    (hmessages : db'.conversation_messages = set_state st l.message_id db.conversation_messages) :
    Moved l db db' ((state_at l.message_id db).map fun _ => st) (some (f o)) := by
  have hid : ∀ m : ConversationMessage, { m with publication_state := st }.id = m.id := fun _ => rfl
  refine ⟨fun h => ?_, fun h => ?_, fun k hne => ⟨?_, ?_⟩, ?_, ?_⟩
  · rw [Db.MessagesKeyed, hmessages]
    exact h.update hid
  · rw [Db.SlotsKeyed, hslots]
    exact h.update hf
  · rw [state_at, hmessages, set_state, state_update hid fun _ => rfl, if_neg hne, state_at]
  · rw [slot_at, hslots, one_slot_elsewhere hf hw hne, slot_at]
  · rw [state_at, hmessages, set_state, state_update hid fun _ => rfl, if_pos rfl, state_at]
  · rw [slot_at, hslots, one_slot_update hf, show one (fun o => o.message_id == l.message_id)
      db.conversation_outbox = some o from ho, Option.map_some, if_pos hwo]

/-- The slot gone, and the message stored. -/
theorem Moved.confirmed {locator : Locator} (hk : db.SlotsKeyed)
    (ho : slot_at l.message_id db = some o) (hheld : holds now l o = true)
    (hslots : db'.conversation_outbox = delete (holds now l) db.conversation_outbox)
    (hmessages : db'.conversation_messages = update (fun m => m.id == l.message_id)
      (fun m => { m with publication_state := .stored, canonical_locator := some locator })
      db.conversation_messages) :
    Moved l db db' ((state_at l.message_id db).map fun _ => .stored) none := by
  have hid : ∀ m : ConversationMessage,
      { m with publication_state := .stored, canonical_locator := some locator }.id = m.id :=
    fun _ => rfl
  refine ⟨fun h => ?_, fun h => ?_, fun k hne => ⟨?_, ?_⟩, ?_, ?_⟩
  · rw [Db.MessagesKeyed, hmessages]
    exact h.update hid
  · rw [Db.SlotsKeyed, hslots]
    exact h.delete _
  · rw [state_at, hmessages, state_update hid fun _ => rfl, if_neg hne, state_at]
  · -- only the slot of this message is held under this lease
    have hdel : db'.SlotsKeyed := by
      rw [Db.SlotsKeyed, hslots]
      exact hk.delete _
    refine Option.ext fun x => ?_
    rw [slot_iff hdel, slot_iff hk, hslots, mem_delete]
    constructor
    · rintro ⟨⟨hx, -⟩, hid⟩
      exact ⟨hx, hid⟩
    · rintro ⟨hx, hid⟩
      refine ⟨⟨hx, ?_⟩, hid⟩
      by_contra hh
      exact hne (hid.symm.trans (holds_iff.mp (by simpa using hh)).1)
  · rw [state_at, hmessages, state_update hid fun _ => rfl, if_pos rfl, state_at]
  · rw [slot_at, hslots, one_eq_none]
    intro x hx
    obtain ⟨hx, hnot⟩ := mem_delete.mp hx
    by_contra hid
    have hsame : x = o := hk.eq hx (slot_mem ho).1
      ((beq_iff_eq.mp (by simpa using hid)).trans (slot_mem ho).2.symm)
    rw [hsame, hheld] at hnot
    cases hnot

end Pointwise

/-! ## What each of them did -/

section Specs

variable {db db' : Db} {now : ℕ} {l : Lease} {f : ConversationOutbox → ConversationOutbox} {o : ConversationOutbox}
  {worker : String} {attempt : ℕ} {locked : Uuid → Bool} {message_id : Uuid}

/-- A settlement writes nothing, or finds the slot at its lease's generation, held. -/
inductive Settles (now : ℕ) (l : Lease) (db : Db) : Published → Settled → Db → Prop
  | fenced {p : Published} : (∀ o, slot_at l.message_id db = some o → holds now l o = false) →
      Settles now l db p .Fenced db
  | stored {o : ConversationOutbox} {locator : Locator} {db' : Db} :
      slot_at l.message_id db = some o → holds now l o = true →
      Moved l db db' ((state_at l.message_id db).map fun _ => .stored) none →
      Settles now l db (.Confirmed locator) .Stored db'
  | retried {o : ConversationOutbox} {why : String} {db' : Db} :
      slot_at l.message_id db = some o → holds now l o = true → l.attempts < MAX_ATTEMPTS →
      Moved l db db' (state_at l.message_id db)
        (some (retried_row now .pending (1 <<< min l.attempts 6) why o)) →
      Settles now l db (.Retryable why) (.Retrying l.attempts) db'
  | failed {o o' : ConversationOutbox} {p : Published} {db' : Db} :
      slot_at l.message_id db = some o → holds now l o = true → (∀ locator, p ≠ .Confirmed locator) →
      Moved l db db' ((state_at l.message_id db).map fun _ => .failed) (some o') →
      o'.state = .failed → o'.generation = o.generation → o'.attempts = o.attempts →
      o'.lease_expires_at = none → Settles now l db p .Failed db'

/-- Every outcome settles so. -/
theorem settle_settles (hk : db.SlotsKeyed)
    (p : Published) : Settles now l db p (settle now l p db).1 (settle now l p db).2 := by
  have hw : ∀ o, holds now l o = true → o.message_id = l.message_id := fun o h => (holds_iff.mp h).1
  by_cases hany : db.conversation_outbox.any (holds now l) = true
  · obtain ⟨o, ho, hheld⟩ := (any_iff_slot hk hw).mp hany
    cases p with
    | Confirmed locator =>
      simp only [settle, hany, if_true]
      exact .stored ho hheld (.confirmed hk ho hheld rfl rfl)
    | Retryable why =>
      by_cases hgive : MAX_ATTEMPTS ≤ l.attempts
      · simp only [settle, hany, if_true, if_pos hgive]
        exact .failed ho hheld (by simp)
          (.both (f := retried_row now .failed (1 <<< min l.attempts 6) why) (fun _ => rfl) hw ho hheld
            rfl rfl) rfl rfl rfl rfl
      · simp only [settle, hany, if_true, if_neg hgive]
        refine .retried ho hheld (by omega)
          (.slot_only (f := retried_row now .pending (1 <<< min l.attempts 6) why) (g := id)
            (v := fun _ => false) (fun _ => rfl) hw ho hheld (fun _ => rfl) (fun _ => rfl) rfl ?_)
        exact (update_eq_self fun _ _ => rfl).symm
    | Fatal why =>
      simp only [settle, hany, if_true]
      exact .failed ho hheld (by simp)
        (.both (f := failed_row now why) (fun _ => rfl) hw ho hheld rfl rfl) rfl rfl rfl rfl
  · simp only [settle, hany, Bool.false_eq_true, if_false]
    refine .fenced fun o ho => ?_
    by_contra hh
    exact hany ((any_iff_slot hk hw).mpr ⟨o, ho, by simpa using hh⟩)

/-- A statement fenced by the generation alone writes nothing, or `f`. -/
inductive Back (l : Lease) (f : ConversationOutbox → ConversationOutbox) (db db' : Db) : Prop
  | missed : (∀ o, slot_at l.message_id db = some o → o.generation ≠ l.generation) →
      (∀ k, SameAt k db db') →
      (db.MessagesKeyed → db'.MessagesKeyed) →
      (db.SlotsKeyed → db'.SlotsKeyed) → Back l f db db'
  | written {o : ConversationOutbox} : slot_at l.message_id db = some o →
      o.generation = l.generation → Moved l db db' (state_at l.message_id db) (some (f o)) →
      Back l f db db'

/-- A statement under that fence finds the slot or finds nothing. -/
theorem back_of_update (hk : db.SlotsKeyed) {g : ConversationMessage → ConversationMessage}
    {v : ConversationMessage → Bool} (hf : ∀ o, (f o).message_id = o.message_id)
    (hgid : ∀ m, (g m).id = m.id) (hgst : ∀ m, (g m).publication_state = m.publication_state)
    (hslots : db'.conversation_outbox = update (at_generation l) f db.conversation_outbox)
    (hmessages : db'.conversation_messages = update v g db.conversation_messages) : Back l f db db' := by
  have hw : ∀ o, at_generation l o = true → o.message_id = l.message_id :=
    fun o h => (at_generation_iff.mp h).1
  by_cases hany : db.conversation_outbox.any (at_generation l) = true
  · obtain ⟨o, ho, hat⟩ := (any_iff_slot hk hw).mp hany
    exact .written ho (at_generation_iff.mp hat).2
      (.slot_only hf hw ho hat hgid hgst hslots hmessages)
  · have hnone : ∀ o ∈ db.conversation_outbox, at_generation l o = false := by simpa using hany
    have hsame : db'.conversation_outbox = db.conversation_outbox :=
      hslots.trans (update_eq_self hnone)
    refine .missed (fun o ho hgen => ?_) (fun k => ⟨?_, ?_⟩) (fun h => ?_) fun h => ?_
    · have hat := at_generation_iff.mpr ⟨(slot_mem ho).2, hgen⟩
      rw [hnone o (slot_mem ho).1] at hat
      cases hat
    · rw [state_at, hmessages, state_update_quiet hgid hgst, state_at]
    · rw [slot_at, hsame, slot_at]
    · rw [Db.MessagesKeyed, hmessages]
      exact h.update hgid
    · rw [Db.SlotsKeyed, hsame]
      exact h

theorem release_back (hk : db.SlotsKeyed) (why : String) :
    Back l (released_row now why) db (release now l why db) :=
  back_of_update (g := id) (v := fun _ => false) hk (fun _ => rfl) (fun _ => rfl) (fun _ => rfl) rfl
    (update_eq_self fun _ _ => rfl).symm

theorem unlease_back (hk : db.SlotsKeyed) :
    Back l (unleased_row now) db (unlease now l db) :=
  back_of_update (g := id) (v := fun _ => false) hk (fun _ => rfl) (fun _ => rfl) (fun _ => rfl) rfl
    (update_eq_self fun _ _ => rfl).symm

theorem mark_uncertain_back (hk : db.SlotsKeyed)
    (why : String) : Back l (uncertain_row now why) db (mark_uncertain now l why db).2 := by
  unfold mark_uncertain
  split
  · exact back_of_update (g := fun m => { m with uncertain_at := some (m.uncertain_at.getD now) }) hk
      (fun _ => rfl) (fun _ => rfl) (fun _ => rfl) rfl rfl
  · rename_i hnone
    refine .missed (fun o ho hgen => hnone ?_) (fun _ => ⟨rfl, rfl⟩) (fun h => h) fun h => h
    exact List.any_eq_true.mpr ⟨o, (slot_mem ho).1, at_generation_iff.mpr ⟨(slot_mem ho).2, hgen⟩⟩

/-- The slot that was leased, and what it is now. -/
structure Took (o : ConversationOutbox) (worker : String) (attempt now : ℕ) (db db' : Db) : Prop where
  there : slot_at o.message_id db = some o
  moved : Moved (lease_of (leased_row now worker attempt o)) db db' (state_at o.message_id db)
    (some (leased_row now worker attempt o))

/-- A statement that leases one slot. -/
theorem took_of_update {w : ConversationOutbox → Bool} (ho : slot_at o.message_id db = some o) (hwo : w o = true)
    (hw : ∀ x, w x = true → x.message_id = o.message_id)
    (hslots : db'.conversation_outbox = update w (leased_row now worker attempt) db.conversation_outbox)
    (hmessages : db'.conversation_messages = db.conversation_messages) :
    Took o worker attempt now db db' := by
  refine ⟨ho, .slot_only (g := id) (v := fun _ => false) (fun _ => rfl) hw ho hwo (fun _ => rfl)
    (fun _ => rfl) hslots ?_⟩
  rw [hmessages]
  exact (update_eq_self fun _ _ => rfl).symm

/-- `lease` takes a slot that is due, and counts the attempt. -/
theorem lease_took (hk : db.SlotsKeyed) (h : lease now worker locked db = some (l, db')) :
    ∃ o, l = lease_of (leased_row now worker 1 o) ∧ due now locked o = true ∧
      Took o worker 1 now db db' := by
  simp only [lease, Option.bind_eq_bind, Option.bind_eq_some_iff, Option.pure_def,
    Option.some.injEq, Prod.mk.injEq] at h
  obtain ⟨o, hhead, rfl, rfl⟩ := h
  have ho := List.mem_of_mem_head? hhead
  rw [List.mem_insertionSort, List.mem_filter] at ho
  exact ⟨o, rfl, ho.2, took_of_update (w := fun x => x.message_id == o.message_id)
    ((slot_iff hk).mpr ⟨ho.1, rfl⟩) (by simp) (by simp) rfl rfl⟩

/-- `lease_one` takes the slot it is told to, and counts none. -/
theorem lease_one_took (hk : db.SlotsKeyed) {k : Uuid} (h : lease_one now worker k db = some (l, db')) :
    ∃ o, l = lease_of (leased_row now worker 0 o) ∧ takeable now k o = true ∧
      Took o worker 0 now db db' := by
  simp only [lease_one, Option.bind_eq_bind, Option.bind_eq_some_iff, Option.pure_def,
    Option.some.injEq, Prod.mk.injEq] at h
  obtain ⟨o, hone, rfl, rfl⟩ := h
  have hp := pos_of_one hone
  have hid : ∀ x, takeable now k x = true → x.message_id = k := by
    intro x hx
    simp only [takeable, Bool.and_eq_true, beq_iff_eq] at hx
    exact hx.1.1
  exact ⟨o, rfl, hp, took_of_update (w := takeable now k) ((slot_iff hk).mpr ⟨mem_of_one hone, rfl⟩) hp
    (fun x hx => (hid x hx).trans (hid o hp).symm) rfl rfl⟩

/-- A settlement is fenced and writes nothing, or finds the slot at its lease's
generation, held, and does one of three things to it. -/
inductive SettledBy (now : ℕ) (l : Lease) (db : Db) : Settled × Db → Prop
  | fenced : (∀ o, slot_at l.message_id db = some o → holds now l o = false) →
      SettledBy now l db (.Fenced, db)
  | stored {o : ConversationOutbox} {db' : Db} : slot_at l.message_id db = some o →
      holds now l o = true → Moved l db db' ((state_at l.message_id db).map fun _ => .stored) none →
      SettledBy now l db (.Stored, db')
  | retrying {o o' : ConversationOutbox} {db' : Db} : slot_at l.message_id db = some o →
      holds now l o = true → Moved l db db' (state_at l.message_id db) (some o') →
      o'.state = .pending → o'.generation = l.generation → o'.lease_expires_at = none →
      SettledBy now l db (.Retrying l.attempts, db')
  | failed {o o' : ConversationOutbox} {db' : Db} : slot_at l.message_id db = some o →
      holds now l o = true →
      Moved l db db' ((state_at l.message_id db).map fun _ => .failed) (some o') →
      o'.state = .failed → o'.generation = l.generation → o'.lease_expires_at = none →
      SettledBy now l db (.Failed, db')

/-- `settle` is fenced, or does one of the three. -/
theorem settle_spec (hk : db.SlotsKeyed) (outcome : Published) : SettledBy now l db (settle now l outcome db) := by
  have settled_by : ∀ {r : Settled} {db' : Db}, Settles now l db outcome r db' → SettledBy now l db (r, db') := by
    intro r db' h
    cases h with
    | fenced hnone => exact .fenced hnone
    | stored ho hheld hm => exact .stored ho hheld hm
    | retried ho hheld _ hm => exact .retrying ho hheld hm rfl (holds_iff.mp hheld).2.1 rfl
    | failed ho hheld _ hm hfail hgen _ hlease =>
      exact .failed ho hheld hm hfail (hgen.trans (holds_iff.mp hheld).2.1) hlease
  exact settled_by (settle_settles hk outcome)

/-- A slot that is given back, or marked uncertain: pending, unheld, at the same
generation, whoever finds it. -/
inductive GivenBack (l : Lease) (db db' : Db) : Prop
  | nothing : (∀ k, SameAt k db db') →
      (db.MessagesKeyed → db'.MessagesKeyed) →
      (db.SlotsKeyed → db'.SlotsKeyed) → GivenBack l db db'
  | pending {o o' : ConversationOutbox} : slot_at l.message_id db = some o →
      o.generation = l.generation → Moved l db db' (state_at l.message_id db) (some o') →
      o'.state = .pending → o'.generation = l.generation → o'.lease_expires_at = none →
      GivenBack l db db'

/-- What a release, an unlease and a mark have in common. -/
theorem Back.given_back (h : Back l f db db')
    (hf : ∀ o, (f o).state = .pending ∧ (f o).generation = o.generation ∧ (f o).lease_expires_at = none) :
    GivenBack l db db' := by
  cases h with
  | missed _ hsame hmessages hslots => exact .nothing hsame hmessages hslots
  | written ho hgen hm => exact .pending ho hgen hm (hf _).1 ((hf _).2.1.trans hgen) (hf _).2.2

theorem release_spec (hk : db.SlotsKeyed) (why : String) :
    GivenBack l db (release now l why db) :=
  (release_back hk why).given_back fun _ => ⟨rfl, rfl, rfl⟩

theorem unlease_spec (hk : db.SlotsKeyed) :
    GivenBack l db (unlease now l db) :=
  (unlease_back hk).given_back fun _ => ⟨rfl, rfl, rfl⟩

theorem mark_uncertain_spec (hk : db.SlotsKeyed) (why : String) : GivenBack l db (mark_uncertain now l why db).2 :=
  (mark_uncertain_back hk why).given_back fun _ => ⟨rfl, rfl, rfl⟩

/-- A lease takes a slot in flight to its next generation. -/
structure LeasedBy (l : Lease) (db db' : Db) : Prop where
  slot : ∃ o o', slot_at l.message_id db = some o ∧ in_flight o = true ∧
    Moved l db db' (state_at l.message_id db) (some o') ∧ o'.state = .leased ∧
    l.generation = o.generation + 1 ∧ o'.generation = l.generation

theorem Took.leased_by (h : Took o worker attempt now db db') (hflight : in_flight o = true) :
    LeasedBy (lease_of (leased_row now worker attempt o)) db db' :=
  ⟨o, _, h.there, hflight, h.moved, rfl, rfl, rfl⟩

/-- `lease` goes on to the next generation. -/
theorem lease_spec (hk : db.SlotsKeyed) (h : lease now worker locked db = some (l, db')) : LeasedBy l db db' := by
  obtain ⟨o, rfl, hdue, htook⟩ := lease_took hk h
  simp only [due, Bool.and_eq_true] at hdue
  exact htook.leased_by hdue.1.1.1

/-- So does `lease_one`. -/
theorem lease_one_spec (hk : db.SlotsKeyed)
    (h : lease_one now worker message_id db = some (l, db')) : LeasedBy l db db' := by
  obtain ⟨o, rfl, htakeable, htook⟩ := lease_one_took hk h
  simp only [takeable, Bool.and_eq_true] at htakeable
  exact htook.leased_by htakeable.1.2

/-- A send adds message `k`: stored, or pending with a slot. -/
structure Sent (k : Uuid) (db db' : Db) : Prop where
  messages : db.MessagesKeyed → db'.MessagesKeyed
  slots : db.SlotsKeyed → db'.SlotsKeyed
  fresh : state_at k db = none
  others : ∀ j, j ≠ k → SameAt j db db'
  sent : slot_at k db = none → state_at k db' = some .stored ∧ slot_at k db' = none ∨
    state_at k db' = some .pending_publication ∧
      ∃ o, slot_at k db' = some o ∧ o.state = .pending

/-- `send` repeats a message that is there, or adds one. -/
theorem send_spec {sha256 : String → String} {seen : Db} {auth : AuthCtx}
    {id key : Uuid} {input : SendInput} {r : SentMessage}
    (h : send sha256 now seen auth id input message_id key db = .ok (r, db')) :
    db' = db ∨ Sent message_id db db' := by
  rcases send_ok h with rfl | ⟨c, body, -, -, -, hfresh, hway⟩
  · exact Or.inl rfl
  right
  have hnone : one (fun m => m.id == message_id) db.conversation_messages = none :=
    one_eq_none.mpr fun m hm => by simpa using hfresh m hm
  have hrow : ∀ j, one (fun m => m.id == j)
      (with_message sha256 now auth c input body message_id db).conversation_messages =
      (one (fun m => m.id == j) db.conversation_messages).or
        (if message_id == j then some (sent_row sha256 now auth c input body message_id)
          else none) := fun j => one_insert_into
  have hkeyed : db.MessagesKeyed →
      Keyed ConversationMessage.id
        (with_message sha256 now auth c input body message_id db).conversation_messages :=
    fun hk => hk.insert_into hfresh
  rcases hway with ⟨-, rfl⟩ | ⟨-, hq⟩
  · refine ⟨hkeyed, fun hk => hk, ?_, fun j hj => ⟨?_, rfl⟩, fun hslot => Or.inl ⟨?_, hslot⟩⟩
    · rw [state_at, hnone, Option.map_none]
    · rw [state_at, hrow, if_neg (by simpa using hj.symm), Option.or_none, state_at]
    · rw [state_at, hrow, hnone, if_pos (by simp)]
      rfl
  · obtain rfl := enqueue_ok hq
    have hid : ∀ m : ConversationMessage,
        { m with publication_state := .pending_publication }.id = m.id := fun _ => rfl
    have hstate : ∀ j, state_at j { with_message sha256 now auth c input body message_id db with
        conversation_messages := set_state .pending_publication message_id
          (with_message sha256 now auth c input body message_id db).conversation_messages } =
        if j = message_id then some .pending_publication else state_at j db := by
      intro j
      rw [state_at, set_state, state_update hid fun _ => rfl, hrow]
      by_cases hj : j = message_id
      · subst hj
        rw [if_pos rfl, if_pos rfl, hnone, if_pos (by simp)]
        rfl
      · rw [if_neg hj, if_neg hj, if_neg (by simpa using Ne.symm hj), Option.or_none, state_at]
    refine ⟨fun hk => (hkeyed hk).update hid, fun hk => ?_, ?_, fun j hj => ⟨?_, ?_⟩, fun hslot => ?_⟩
    · unfold Db.SlotsKeyed
      split
      · exact hk
      · rename_i hany
        refine hk.insert_into fun o ho => ?_
        simp only [List.any_eq_true, beq_iff_eq, not_exists, not_and] at hany
        exact hany o ho
    · rw [state_at, hnone, Option.map_none]
    · exact (hstate j).trans (if_neg hj)
    · simp only [slot_at]
      split
      · rfl
      · rw [one_insert_into, if_neg (by simpa [slot_row] using hj.symm), Option.or_none]
        rfl
    · -- there was no slot, so the insert is not a conflict
      right
      refine ⟨(hstate message_id).trans (if_pos rfl), slot_row now message_id id auth.team_id
        c.backend body key, ?_, rfl⟩
      have hno : (with_message sha256 now auth c input body message_id db).conversation_outbox.any
          (fun o => o.message_id == message_id) = false := by
        simpa [with_message] using one_eq_none.mp hslot
      simp only [slot_at, hno, Bool.false_eq_true, if_false]
      rw [one_insert_into, show one (fun o => o.message_id == message_id)
        (with_message sha256 now auth c input body message_id db).conversation_outbox = none
        from hslot, Option.none_or, if_pos (by simp [slot_row])]

end Specs

end CrewSync.Settlement
