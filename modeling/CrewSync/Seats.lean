/-
The seats of a team's threads as one **system**: threads are opened, addresses
invited, seats taken, given up, taken away and handed over, by any callers in any
order, with any lag between what a request read before its transaction and what
its transaction finds.

The state keeps, besides the committed database, every database committed before
it (`past`): a request may have looked at any of them. And it keeps what no table
says: `proposals`, the transfers that still **stand**. One is entered when it is
made, and dropped when it is accepted, when another replaces it, and as soon as
the seat it came from is no longer active. The tables remember less: a seat keeps
its `transfer_from` whatever becomes of the seat it names.

This file is the part that has nothing to do with transfers: a seat is never
deleted, keeps its address for good, and is the only one at its address.
-/
import CrewSync.Runs
import CrewSync.Conversations

set_option autoImplicit false

namespace CrewSync.Seats

open Error Schema Rows Conversations Runs

/-! ## The system -/

/-- The state of the system. -/
structure Sys extends Committed Db where
  /-- The seat offered, and the seat it would take over. -/
  proposals : List (Uuid × Uuid)

/-- What can happen next. `seen` says how many commits ago the request read what
it reads before its transaction; `now` is the start of the transaction. -/
inductive Act where
  | create_conversation (seen now : ℕ) (auth : AuthCtx) (input : CreateInput) (id seat : Uuid)
      (seats : List Uuid)
  | invite (seen now : ℕ) (auth : AuthCtx) (id : Uuid) (address : String) (role : Option String)
      (history_from_start : Bool) (seat : Uuid)
  | join (seen now : ℕ) (auth : AuthCtx) (id : Uuid)
  | leave (seen now : ℕ) (auth : AuthCtx) (id : Uuid)
  | remove_member (seen now : ℕ) (auth : AuthCtx) (id : Uuid) (address : String)
  | transfer_membership (seen now : ℕ) (auth : AuthCtx) (id : Uuid) (address : String) (seat : Uuid)
  /-- Any other part of the server commits. -/
  | other (db' : Db)

/-- Who changes a seat. -/
def seat_caller : Act → Option AuthCtx
  | .create_conversation _ _ auth _ _ _ _ => some auth
  | .invite _ _ auth _ _ _ _ _ => some auth
  | .join _ _ auth _ => some auth
  | .leave _ _ auth _ => some auth
  | .remove_member _ _ auth _ _ => some auth
  | .transfer_membership _ _ auth _ _ _ => some auth
  | .other _ => none

/-- The state in which nothing is proposed. -/
def Sys.start (db : Db) : Sys := { db := db, past := [], proposals := [] }

/-- The seat under an id. -/
def seat (k : Uuid) (db : Db) : Option ConversationMembership :=
  one (fun m => m.id == k) db.conversation_memberships

/-- The seat is taken. -/
def active (k : Uuid) (db : Db) : Bool := (seat k db).any fun m => m.state == .active

/-- `db'` is committed, with the transfers `ps` booked. -/
def Sys.after (s : Sys) (db' : Db) (ps : List (Uuid × Uuid)) : Sys :=
  { toCommitted := s.push db', proposals := ps.filter fun q => active q.2 db' }

def Sys.commit {α : Type} (s : Sys) (res : BusResult (α × Db))
    (book : α → List (Uuid × Uuid) → List (Uuid × Uuid)) : Sys :=
  conclude s (fun q => s.after q.2 (book q.1 s.proposals)) res

/-- No statement outside this system writes a seat, deletes a thread, or takes a
thread's counter back. -/
def leaves_seats (db db' : Db) : Bool :=
  db'.conversation_memberships == db.conversation_memberships &&
    decide (Keyed Conversation.id db'.conversations) &&
    db.conversations.all fun c => db'.conversations.any fun c' =>
      c'.id == c.id && c.last_seq ≤ c'.last_seq

/-- One step. -/
def step (s : Sys) : Act → Option Sys
  | .create_conversation seen now auth input id seat seats => do
    let v ← s.view seen
    pure (s.commit (create_conversation now v auth input id seat seats s.db) fun _ ps => ps)
  | .invite seen now auth id address role history_from_start seat => do
    let v ← s.view seen
    pure (s.commit (invite now v auth id address role history_from_start seat s.db) fun _ ps => ps)
  | .join seen now auth id => do
    let v ← s.view seen
    pure (s.commit (join now v auth id s.db) fun n ps => ps.filter fun q => q.1 != n)
  | .leave seen now auth id => do
    let v ← s.view seen
    pure (s.commit (leave now v auth id s.db) fun _ ps => ps)
  | .remove_member seen now auth id address => do
    let v ← s.view seen
    pure (s.commit (remove_member now v auth id address s.db) fun _ ps => ps)
  | .transfer_membership seen now auth id address seat => do
    let v ← s.view seen
    pure (s.commit (transfer_membership now v auth id address seat s.db)
      fun q ps => q :: ps.filter fun x => x.1 != q.1)
  | .other db' =>
    if leaves_seats s.db db' then some (s.after db' s.proposals) else none

/-- What a step did: nothing, or the one thing its action stands for. -/
inductive Did (s : Sys) : Act → Sys → Prop
  | refused {a : Act} : Did s a s
  | create_conversation {seen now : ℕ} {auth : AuthCtx} {input : CreateInput} {id k u : Uuid}
      {seats : List Uuid} {v db' : Db} :
      create_conversation now v auth input id k seats s.db = .ok (u, db') →
      Did s (.create_conversation seen now auth input id k seats) (s.after db' s.proposals)
  | invite {seen now : ℕ} {auth : AuthCtx} {id k : Uuid} {address : String} {role : Option String}
      {history_from_start : Bool} {u : Unit} {v db' : Db} : s.view seen = some v →
      invite now v auth id address role history_from_start k s.db = .ok (u, db') →
      Did s (.invite seen now auth id address role history_from_start k) (s.after db' s.proposals)
  | join {seen now : ℕ} {auth : AuthCtx} {id n : Uuid} {v db' : Db} :
      join now v auth id s.db = .ok (n, db') →
      Did s (.join seen now auth id) (s.after db' (s.proposals.filter fun q => q.1 != n))
  | leave {seen now : ℕ} {auth : AuthCtx} {id n : Uuid} {v db' : Db} :
      leave now v auth id s.db = .ok (n, db') →
      Did s (.leave seen now auth id) (s.after db' s.proposals)
  | remove_member {seen now : ℕ} {auth : AuthCtx} {id n : Uuid} {address : String} {v db' : Db} :
      s.view seen = some v → remove_member now v auth id address s.db = .ok (n, db') →
      Did s (.remove_member seen now auth id address) (s.after db' s.proposals)
  | transfer_membership {seen now : ℕ} {auth : AuthCtx} {id k : Uuid} {address : String}
      {q : Uuid × Uuid} {v db' : Db} : s.view seen = some v →
      transfer_membership now v auth id address k s.db = .ok (q, db') →
      Did s (.transfer_membership seen now auth id address k)
        (s.after db' (q :: s.proposals.filter fun x => x.1 != q.1))
  | other {db' : Db} : leaves_seats s.db db' = true → Did s (.other db') (s.after db' s.proposals)

variable {s : Sys} {id agent_id : Uuid} {session : String} {m : ConversationMembership} {auth : AuthCtx} {db : Db}
  {t : Sys} {n now : ℕ} {a : Act} {b : ConversationMembership} {l : List ((Uuid × String) × Uuid)} {db' v : Db}
  {input : CreateInput} {k : Uuid} {seats : List Uuid}

/-- A transaction commits what it read for, or changes nothing. -/
theorem commit_cases {α : Type} {res : Db → BusResult (α × Db)} {book : α → List (Uuid × Uuid) → List (Uuid × Uuid)}
    (h : (do let v ← s.view n; pure (s.commit (res v) book)) = some t) :
    t = s ∨ ∃ v a db', s.view n = some v ∧ res v = .ok (a, db') ∧
      t = s.after db' (book a s.proposals) := by
  simp only [Option.bind_eq_bind, Option.bind_eq_some_iff, Option.pure_def, Option.some.injEq] at h
  obtain ⟨v, hv, rfl⟩ := h
  rcases conclude_cases (fun q => s.after q.2 (book q.1 s.proposals)) (res v) with heq | ⟨⟨a, db'⟩, hres, heq⟩
  · exact Or.inl heq
  · exact Or.inr ⟨v, a, db', hv, hres, heq⟩

/-- A step is one of those that `Did` lists. -/
theorem step_did (h : step s a = some t) : Did s a t := by
  cases a with
  | create_conversation =>
    rcases commit_cases h with rfl | ⟨v, k, db', -, hok, rfl⟩
    · exact .refused
    · exact .create_conversation hok
  | invite =>
    rcases commit_cases h with rfl | ⟨v, u, db', hv, hok, rfl⟩
    · exact .refused
    · exact .invite hv hok
  | join =>
    rcases commit_cases h with rfl | ⟨v, n, db', -, hok, rfl⟩
    · exact .refused
    · exact .join hok
  | leave =>
    rcases commit_cases h with rfl | ⟨v, n, db', -, hok, rfl⟩
    · exact .refused
    · exact .leave hok
  | remove_member =>
    rcases commit_cases h with rfl | ⟨v, n, db', hv, hok, rfl⟩
    · exact .refused
    · exact .remove_member hv hok
  | transfer_membership =>
    rcases commit_cases h with rfl | ⟨v, q, db', hv, hok, rfl⟩
    · exact .refused
    · exact .transfer_membership hv hok
  | other db' =>
    simp only [step] at h
    split at h
    · rename_i hl
      rw [← Option.some.inj h]
      exact .other hl
    · cases h

/-- Where a seat's history begins: `COALESCE(history_from_seq, 0)`. -/
def floor (m : ConversationMembership) : ℕ := m.history_from_seq.getD 0

/-- The history boundary an invitation would grant now. -/
def offers_from (auth : AuthCtx) (id agent_id : Uuid) (session : String)
    (history_from_start : Bool) (db : Db) : Option ℕ :=
  granted_floor ((one (fun c => c.id == id) db.conversations).elim 0 fun c => c.last_seq)
    (seat_at id agent_id session db) history_from_start
    ((seat_at id auth.agent_id auth.session db).bind fun m => m.history_from_seq)

/-! ## The seat table -/

/-- Where a seat is: the thread, the agent and the window. -/
def home (m : ConversationMembership) : Uuid × Uuid × String :=
  (m.conversation_id, m.agent_id, m.session)

/-- A home is a thread and an address in it. -/
theorem at_address_iff : at_address id agent_id session m = true ↔ home m = (id, agent_id, session) := by
  simp [at_address, home, and_assoc]

theorem home_ne (h : at_address id agent_id session m = false) : home m ≠ (id, agent_id, session) := by
  intro hh
  rw [at_address_iff.mpr hh] at h
  cases h

/-- A seat in two databases: the same row, at the same address. -/
def Same (m m' : ConversationMembership) : Prop := m'.id = m.id ∧ home m' = home m

/-- A seat nobody touched. -/
theorem Same.refl (m : ConversationMembership) : Same m m := ⟨rfl, rfl⟩

/-- One write after another. -/
theorem Same.trans {a c : ConversationMembership} (h : Same a b) (h' : Same b c) : Same a c :=
  ⟨h'.1.trans h.1, h'.2.trans h.2⟩

/-- `PRIMARY KEY (id)` and `UNIQUE (conversation_id, agent_id, session)`. -/
structure Tidy (t : List ConversationMembership) : Prop where
  ids : Keyed ConversationMembership.id t
  homes : Keyed home t

/-- Every seat of `t` is still a seat in `t'`. -/
def Kept (t t' : List ConversationMembership) : Prop := ∀ m ∈ t, ∃ m' ∈ t', Same m m'

/-- A table nobody touched. -/
theorem Kept.refl (t : List ConversationMembership) : Kept t t := fun m hm => ⟨m, hm, Same.refl m⟩

/-- One statement after another. -/
theorem Kept.trans {a b c : List ConversationMembership} (h : Kept a b) (h' : Kept b c) :
    Kept a c := by
  intro m hm
  obtain ⟨m', hm', hs⟩ := h m hm
  obtain ⟨m'', hm'', hs'⟩ := h' m' hm'
  exact ⟨m'', hm'', hs.trans hs'⟩

/-- What a statement does to a seat, it does in place. -/
structure InPlace (f : ConversationMembership → ConversationMembership) : Prop where
  same : ∀ m, Same m (f m)

theorem reinvited_in_place (r : Role) (fl : Option ℕ) (by_ : Uuid) :
    InPlace (reinvited r fl by_) := ⟨fun _ => ⟨rfl, rfl⟩⟩

theorem proposed_in_place (r : Role) (fl : Option ℕ) (source : Uuid) :
    InPlace (proposed r fl source) := ⟨fun _ => ⟨rfl, rfl⟩⟩

theorem accepted_in_place (now : ℕ) (auth : AuthCtx) : InPlace (accepted now auth) :=
  ⟨fun _ => ⟨rfl, rfl⟩⟩

theorem put_out_in_place (st : SeatState) (now : ℕ) : InPlace (put_out st now) :=
  ⟨fun _ => ⟨rfl, rfl⟩⟩

theorem superseded_in_place (now : ℕ) (k : Uuid) : InPlace (superseded now k) :=
  ⟨fun _ => ⟨rfl, rfl⟩⟩

section Table

variable {t : List ConversationMembership} {p : ConversationMembership → Bool}
  {f : ConversationMembership → ConversationMembership} {r : ConversationMembership}

/-- Rewriting seats in place keeps the table in order. -/
theorem Tidy.update (h : Tidy t) (hf : InPlace f) : Tidy (update p f t) :=
  ⟨h.ids.update fun m => (hf.same m).1, h.homes.update fun m => (hf.same m).2⟩

/-- It loses no seat. -/
theorem kept_update (hf : InPlace f) : Kept t (update p f t) := by
  intro m hm
  refine ⟨_, mem_update_of_mem hm, ?_⟩
  split
  · exact hf.same m
  · exact Same.refl m

/-- So does a seat with a new id at a new home. -/
theorem Tidy.insert_into (h : Tidy t) (hid : ∀ m ∈ t, m.id ≠ r.id)
    (hhome : ∀ m ∈ t, home m ≠ home r) : Tidy (insert_into r t) :=
  ⟨h.ids.insert_into hid, h.homes.insert_into hhome⟩

/-- An insertion loses no seat. -/
theorem kept_insert_into : Kept t (insert_into r t) :=
  fun m hm => ⟨m, mem_insert_into.mpr (Or.inl hm), Same.refl m⟩

variable {id agent_id : Uuid} {session : String} {m : ConversationMembership}

/-- An offer at an address: the seat there is rewritten, or one is added. -/
theorem Tidy.upsert (h : Tidy t) (hf : InPlace f) (hr : home r = (id, agent_id, session))
    (hfresh : (one (at_address id agent_id session) t).isSome = true ∨ ∀ m ∈ t, m.id ≠ r.id) :
    Tidy (upsert (at_address id agent_id session) f r t) := by
  unfold Rows.upsert
  split
  · exact h.update hf
  · rename_i hany
    have hnone : ∀ m ∈ t, at_address id agent_id session m = false := by simpa using hany
    refine h.insert_into ?_ fun m hm hh => ?_
    · rcases hfresh with hsome | hfresh
      · rw [one_eq_none.mpr hnone] at hsome
        cases hsome
      · exact hfresh
    · exact home_ne (hnone m hm) (hh.trans hr)

/-- Nor does one with a conflict. -/
theorem kept_upsert (hf : InPlace f) : Kept t (upsert p f r t) := by
  unfold Rows.upsert
  split
  · exact kept_update hf
  · exact kept_insert_into

/-- A seat through a statement. -/
theorem through_update (hf : InPlace f) (hm : m ∈ t) : ∃ m' ∈ Rows.update p f t, m'.id = m.id ∧
    (p m = false ∧ m' = m ∨ p m = true ∧ m' = f m) := by
  refine ⟨_, mem_update_of_mem hm, ?_⟩
  by_cases hp : p m = true
  · rw [if_pos hp]
    exact ⟨(hf.same m).1, Or.inr ⟨hp, rfl⟩⟩
  · rw [if_neg hp]
    exact ⟨rfl, Or.inl ⟨by simpa using hp, rfl⟩⟩

/-- A seat goes through it as it is, or rewritten. -/
theorem through_upsert (hf : InPlace f) (hm : m ∈ t) : ∃ m' ∈ Rows.upsert p f r t, m'.id = m.id ∧
    (p m = false ∧ m' = m ∨ p m = true ∧ m' = f m) := by
  unfold Rows.upsert
  split
  · exact through_update hf hm
  · rename_i hany
    have hnone : ∀ m ∈ t, p m = false := by simpa using hany
    exact ⟨m, mem_insert_into.mpr (Or.inl hm), rfl, Or.inl ⟨hnone m hm, rfl⟩⟩

/-- Writing a link leaves role and state alone. -/
theorem through_link {q : ConversationMembership → Bool} (hf : InPlace f)
    (hkeep : ∀ m, (f m).role = m.role ∧ (f m).state = m.state) (hm : m ∈ t) :
    ∃ m' ∈ Rows.update q f t, m'.id = m.id ∧ m'.role = m.role ∧ m'.state = m.state := by
  obtain ⟨m', hm', hid, ⟨-, rfl⟩ | ⟨-, rfl⟩⟩ := through_update (p := q) hf hm
  · exact ⟨m', hm', rfl, rfl, rfl⟩
  · exact ⟨_, hm', hid, hkeep m⟩

end Table

/-! ## A thread opens -/

/-- The seats of a new thread are added after those that were there. -/
structure Opened (id : Uuid) (t t' : List ConversationMembership) : Prop where
  tidy : Tidy t → Tidy t'
  old : ∀ m ∈ t, m ∈ t'
  fresh : ∀ m ∈ t', m ∈ t ∨ m.conversation_id = id ∧ m.transfer_from = none

/-- Invitees get new seats, one after the other. -/
theorem seat_invitees :
    ∀ {t : List ConversationMembership}, (l.map Prod.snd).Nodup →
      (∀ m ∈ t, m.id ∉ l.map Prod.snd) → Opened id t (l.foldl (seat_invitee auth id) t) := by
  -- one invitee after the other; the ids still to come stay unused
  induction l with
  | nil =>
    intro t _ _
    exact ⟨fun h => h, fun _ h => h, fun _ h => Or.inl h⟩
  | cons x l ih =>
    obtain ⟨⟨agent_id, session⟩, k⟩ := x
    intro t hnd hfresh
    simp only [List.map_cons, List.nodup_cons, List.mem_cons, not_or] at hnd hfresh
    rw [List.foldl_cons]
    by_cases hany : t.any (at_address id agent_id session) = true
    · have hsame : seat_invitee auth id t ((agent_id, session), k) = t := by
        simp only [seat_invitee, hany, if_true]
      rw [hsame]
      exact ih hnd.2 fun m hm => (hfresh m hm).2
    · have hins : seat_invitee auth id t ((agent_id, session), k) =
          insert_into (offered_row id agent_id session .participant (some 0) auth.agent_id none k)
            t := by
        simp only [seat_invitee, if_neg hany]
      rw [hins]
      have hih := ih (t := insert_into (offered_row id agent_id session .participant (some 0)
        auth.agent_id none k) t) hnd.2 fun m hm => by
          rcases mem_insert_into.mp hm with hm | rfl
          · exact (hfresh m hm).2
          · exact hnd.1
      have hnone : ∀ m ∈ t, at_address id agent_id session m = false := by simpa using hany
      refine ⟨fun h => hih.tidy (h.insert_into (fun m hm => (hfresh m hm).1) fun m hm hh => ?_),
        fun m hm => hih.old m (mem_insert_into.mpr (Or.inl hm)), fun m hm => ?_⟩
      · exact home_ne (hnone m hm) hh
      · rcases hih.fresh m hm with hm | hm
        · rcases mem_insert_into.mp hm with hm | rfl
          · exact Or.inl hm
          · exact Or.inr ⟨rfl, rfl⟩
        · exact Or.inr hm

/-- A thread is opened under a new id, with new seats only. -/
theorem create_conversation_ok {seen : Db} {u : Uuid}
    (h : create_conversation now seen auth input id k seats db = .ok (u, db')) :
    Opened id db.conversation_memberships db'.conversation_memberships ∧
      (∀ c ∈ db.conversations, c.id ≠ id) ∧
      ∃ c : Conversation, c.id = id ∧ db'.conversations = insert_into c db.conversations := by
  simp only [create_conversation, bind_eq_ok, ensure_eq_ok, fetch_eq_ok, pure_eq_ok,
    Prod.mk.injEq] at h
  obtain ⟨_, -, _, -, _, -, invites, -, _, -, _, -, _, -, team, -, _, hid, _, ⟨hlen, hnd, hk⟩, _, hhome,
    -, rfl⟩ := h
  simp only [List.all_eq_true, Bool.not_eq_true', List.contains_eq_mem, decide_eq_false_iff_not,
    List.mem_cons, not_or] at hk hhome
  rw [List.nodup_cons] at hnd
  have hsnd : (invites.zip seats).map Prod.snd = seats := List.map_snd_zip (by omega)
  have hopen : Opened id (insert_into (owners_seat now auth id k) db.conversation_memberships)
      ((invites.zip seats).foldl (seat_invitee auth id)
        (insert_into (owners_seat now auth id k) db.conversation_memberships)) := by
    refine seat_invitees (by rw [hsnd]; exact hnd.2) fun m hm => ?_
    rw [hsnd]
    rcases mem_insert_into.mp hm with hm | rfl
    · exact (hk m hm).2
    · exact hnd.1
  refine ⟨⟨fun ht => hopen.tidy (ht.insert_into (fun m hm => (hk m hm).1) fun m hm hh => ?_),
    fun m hm => hopen.old m (mem_insert_into.mpr (Or.inl hm)), fun m hm => ?_⟩, by simpa using hid,
    _, rfl, rfl⟩
  · exact home_ne (hhome m hm) hh
  · rcases hopen.fresh m hm with hm | hm
    · rcases mem_insert_into.mp hm with hm | rfl
      · exact Or.inl hm
      · exact Or.inr ⟨rfl, rfl⟩
    · exact Or.inr hm

/-- A seat among them was there or is an offer. -/
theorem mem_seat_invitees :
    ∀ {t : List ConversationMembership}, m ∈ l.foldl (seat_invitee auth id) t →
      m ∈ t ∨ ∃ x ∈ l, m = offered_row id x.1.1 x.1.2 .participant (some 0) auth.agent_id none x.2 := by
  induction l with
  | nil => exact fun h => Or.inl h
  | cons x l ih =>
    obtain ⟨⟨agent_id, session⟩, k⟩ := x
    intro t h
    rcases ih (t := seat_invitee auth id t ((agent_id, session), k)) h with hm | ⟨y, hy, rfl⟩
    · simp only [seat_invitee] at hm
      split at hm
      · exact Or.inl hm
      · rcases mem_insert_into.mp hm with hm | rfl
        · exact Or.inl hm
        · exact Or.inr ⟨_, List.mem_cons_self, rfl⟩
    · exact Or.inr ⟨y, List.mem_cons_of_mem _ hy, rfl⟩

/-- Whose the seats of a new thread are: its creator's, and those of the invited. -/
theorem create_conversation_seats {seen : Db} {u : Uuid}
    (h : create_conversation now seen auth input id k seats db = .ok (u, db')) :
    (∃ c : Conversation, c.id = id ∧ c.team_id = auth.team_id ∧ db' = { db with
      conversations := insert_into c db.conversations
      conversation_memberships := db'.conversation_memberships }) ∧
    ∀ m ∈ db'.conversation_memberships, m ∈ db.conversation_memberships ∨ m = owners_seat now auth id k ∨
      ∃ address agent_id session n, resolve_address auth address seen = .ok (agent_id, session) ∧
        m = offered_row id agent_id session .participant (some 0) auth.agent_id none n := by
  simp only [create_conversation, bind_eq_ok, ensure_eq_ok, fetch_eq_ok, pure_eq_ok,
    Prod.mk.injEq] at h
  obtain ⟨_, -, _, -, _, -, invites, hinvites, _, -, _, -, _, -, team, -, _, -, _, -, _, -, -, rfl⟩ := h
  refine ⟨⟨_, rfl, rfl, rfl⟩, fun m hm => ?_⟩
  rcases mem_seat_invitees hm with hm | ⟨x, hx, rfl⟩
  · rcases mem_insert_into.mp hm with hm | rfl
    · exact Or.inl hm
    · exact Or.inr (Or.inl rfl)
  · obtain ⟨raw, -, hraw⟩ := mem_of_mapM_ok hinvites x.1 (List.of_mem_zip hx).1
    exact Or.inr (Or.inr ⟨raw, x.1.1, x.1.2, x.2, hraw, rfl⟩)

/-! ## What every step keeps -/

/-- Writing `superseded_by` or `transfer_from` leaves a seat where it is. -/
theorem links_in_place {f : ConversationMembership → ConversationMembership}
    (h : ∀ m, f m = { m with superseded_by := none } ∨ f m = { m with transfer_from := none }) :
    InPlace f := by
  refine ⟨fun m => ?_⟩
  rcases h m with h | h <;> exact ⟨by rw [h], by rw [h]; rfl⟩

/-- The seats once an invitation is accepted, and nothing else. -/
def taken (now : ℕ) (auth : AuthCtx) (id : Uuid) (t : List ConversationMembership) : Db :=
  { conversation_memberships := update (is_invitation auth id) (accepted now auth) t }

/-- The seats after a join: taken, the predecessor closed, the proposal spent. -/
def after_join (now : ℕ) (auth : AuthCtx) (id n : Uuid) (t : List ConversationMembership) :
    List ConversationMembership :=
  update (fun m => m.id == n) (fun m => { m with transfer_from := none })
    (update (is_predecessor auth id n (taken now auth id t)) (superseded now n)
      (taken now auth id t).conversation_memberships)

/-- A join writes the seats alone. -/
theorem join_table {n : Uuid} (h : join now v auth id db = .ok (n, db')) :
    db'.conversation_memberships = after_join now auth id n db.conversation_memberships ∧
      db'.conversations = db.conversations := by
  obtain ⟨m, -, rfl, rfl⟩ := join_ok h
  exact ⟨rfl, rfl⟩

/-- No step spoils the table or loses a seat. -/
theorem Did.table (h : Did s a t) : (Tidy s.db.conversation_memberships → Tidy t.db.conversation_memberships) ∧
      Kept s.db.conversation_memberships t.db.conversation_memberships := by
  cases h with
  | refused => exact ⟨fun h => h, Kept.refl _⟩
  | create_conversation hok =>
    obtain ⟨hopen, -, -⟩ := create_conversation_ok hok
    exact ⟨hopen.tidy, fun m hm => ⟨m, hopen.old m hm, Same.refl m⟩⟩
  | invite _ hok =>
    obtain ⟨r, agent_id, session, c, inviter, -, -, -, -, hfresh, rfl⟩ := invite_ok hok
    exact ⟨fun h => h.upsert (reinvited_in_place _ _ _) rfl hfresh,
      kept_upsert (reinvited_in_place _ _ _)⟩
  | @join _ now auth id n _ _ hok =>
    rw [Sys.after, (join_table hok).1]
    have hlink : InPlace fun m : ConversationMembership => { m with transfer_from := none } :=
      links_in_place fun _ => Or.inr rfl
    exact ⟨fun h => ((h.update (accepted_in_place _ _)).update (superseded_in_place _ _)).update hlink,
      ((kept_update (accepted_in_place _ _)).trans (kept_update (superseded_in_place _ _))).trans
        (kept_update hlink)⟩
  | leave hok =>
    rw [leave_ok hok]
    exact ⟨fun h => h.update (put_out_in_place _ _), kept_update (put_out_in_place _ _)⟩
  | remove_member _ hok =>
    obtain ⟨agent_id, session, m, -, -, -, -, rfl⟩ := remove_member_ok hok
    exact ⟨fun h => h.update (put_out_in_place _ _), kept_update (put_out_in_place _ _)⟩
  | transfer_membership _ hok =>
    obtain ⟨a, mine, m, session, -, -, -, -, -, -, -, hfresh, -, rfl⟩ := transfer_membership_ok hok
    have hlink : InPlace fun m : ConversationMembership => { m with superseded_by := none } :=
      links_in_place fun _ => Or.inl rfl
    exact ⟨fun h => Tidy.update (h.upsert (proposed_in_place _ _ _) rfl hfresh) hlink,
      (kept_upsert (proposed_in_place _ _ _)).trans (kept_update hlink)⟩
  | other hsame =>
    simp only [leaves_seats, Bool.and_eq_true, beq_iff_eq] at hsame
    rw [Sys.after, hsame.1.1]
    exact ⟨fun h => h, Kept.refl _⟩

/-- What holds of the seats in every reachable state. -/
structure Inv (s : Sys) : Prop where
  tidy : Tidy s.db.conversation_memberships
  past : ∀ v ∈ s.past, Kept v.conversation_memberships s.db.conversation_memberships

/-- A step changes nothing, or adds one state to the past. -/
theorem Did.past (h : Did s a t) : t = s ∨ t.past = s.db :: s.past := by
  cases h with
  | refused => exact Or.inl rfl
  | create_conversation _ | invite _ _ | join _ | leave _ | remove_member _ _ | other _ => exact Or.inr rfl
  | transfer_membership _ _ => exact Or.inr rfl

/-- It holds at the start. -/
theorem start_inv (h : Tidy db.conversation_memberships) : Inv (Sys.start db) :=
  ⟨h, fun _ hv => absurd hv List.not_mem_nil⟩

/-- **What holds of the seats holds after every step.** -/
theorem Inv.step (hs : Inv s) (h : step s a = some t) : Inv t := by
  have hdid := step_did h
  obtain ⟨htidy, hkept⟩ := hdid.table
  refine ⟨htidy hs.tidy, fun v hv => ?_⟩
  rcases hdid.past with rfl | hpast
  · exact hs.past v hv
  · rw [hpast] at hv
    rcases List.mem_cons.mp hv with rfl | hv
    · exact hkept
    · exact (hs.past v hv).trans hkept

/-- What a request saw of a seat's address is still so. -/
theorem Inv.view (hs : Inv s) (h : s.view n = some v) :
    Kept v.conversation_memberships s.db.conversation_memberships := by
  rcases Committed.mem_of_view h with rfl | hv
  · exact Kept.refl _
  · exact hs.past v hv

/-- The seat at an address is one row. -/
theorem Tidy.home_eq {t : List ConversationMembership} (h : Tidy t) {a : ConversationMembership} (ha : a ∈ t)
    (hb : b ∈ t)
    (hpa : at_address id agent_id session a = true) (hpb : at_address id agent_id session b = true) : a = b :=
  h.homes.eq ha hb ((at_address_iff.mp hpa).trans (at_address_iff.mp hpb).symm)

/-- The seat a transfer starts from is at its caller's address still. -/
theorem source_home {acc : Access} {mine : Membership} (hs : Inv s) (hv : s.view n = some v)
    (hacc : readable auth id v = .ok acc) (hmine : acc.membership = some mine)
    (hm : m ∈ s.db.conversation_memberships) (hid : m.id = mine.id) :
    home m = (id, auth.agent_id, auth.session) := by
  obtain ⟨c, -, -, rfl⟩ := access_ok (readable_ok hacc).1
  obtain ⟨x, hx, rfl⟩ := Option.map_eq_some_iff.mp hmine
  have hw := pos_of_one hx
  simp only [is_callers, Bool.and_eq_true] at hw
  obtain ⟨x', hx', hxid, hxhome⟩ := hs.view hv x (mem_of_one hx)
  rw [hs.tidy.ids.eq hm hx' (hid.trans hxid.symm), hxhome]
  exact at_address_iff.mp hw.1

/-- An address has one seat. -/
theorem Tidy.seat_at_eq (h : Tidy db.conversation_memberships) (hm : m ∈ db.conversation_memberships)
    (hw : at_address id agent_id session m = true) : seat_at id agent_id session db = some m :=
  one_eq_some hm hw fun _ hb hwb => h.home_eq hb hm hwb hw

/-- The caller has one seat in a thread. -/
theorem Tidy.callers_eq {t : List ConversationMembership} (h : Tidy t) (hm : m ∈ t)
    (hw : is_callers auth id m = true) : one (is_callers auth id) t = some m := by
  refine one_eq_some hm hw fun b hb hpb => ?_
  rw [is_callers, Bool.and_eq_true] at hw hpb
  exact h.home_eq hb hm hpb.1 hw.1

/-- No open seat is the target of a transfer. -/
theorem not_target {address : String} (h : Tidy db.conversation_memberships)
    (hrefused : target_refused address (seat_at id agent_id session db) = none)
    (hm : m ∈ db.conversation_memberships) (hopen : open_seat m = true) :
    at_address id agent_id session m = false := by
  by_contra hnot
  rw [h.seat_at_eq hm (by simpa using hnot)] at hrefused
  simp only [open_seat, Bool.or_eq_true, beq_iff_eq] at hopen
  rcases hopen with hstate | hstate <;> simp [target_refused, hstate] at hrefused

/-- An id has one seat. -/
theorem seat_iff (h : Tidy db.conversation_memberships) :
    seat k db = some m ↔ m ∈ db.conversation_memberships ∧ m.id = k :=
  h.ids.one_iff

/-- Active is said of the one seat with the id. -/
theorem active_iff (h : Tidy db.conversation_memberships) :
    active k db = true ↔ ∃ m ∈ db.conversation_memberships, m.id = k ∧ m.state = .active := by
  simp only [active, Option.any_eq_true, seat_iff h, beq_iff_eq, and_assoc]

/-- A caller's step writes seats, or opens a thread; it leaves the rest alone. -/
theorem step_seats (h : step s a = some t) (hcaller : seat_caller a = some auth) :
    (∃ m, t.db = { s.db with conversation_memberships := m }) ∨
      ∃ now v input id k seats n, create_conversation now v auth input id k seats s.db = .ok (n, t.db) := by
  cases a with
  | create_conversation =>
    obtain rfl := Option.some.inj hcaller
    rcases commit_cases h with rfl | ⟨v, k, db', -, hok, rfl⟩
    · exact Or.inl ⟨_, rfl⟩
    · exact Or.inr ⟨_, v, _, _, _, _, k, hok⟩
  | invite =>
    rcases commit_cases h with rfl | ⟨v, u, db', -, hok, rfl⟩
    · exact Or.inl ⟨_, rfl⟩
    · obtain ⟨-, -, -, -, -, -, -, -, -, -, rfl⟩ := invite_ok hok
      exact Or.inl ⟨_, rfl⟩
  | join =>
    rcases commit_cases h with rfl | ⟨v, n, db', -, hok, rfl⟩
    · exact Or.inl ⟨_, rfl⟩
    · obtain ⟨m, -, -, rfl⟩ := join_ok hok
      exact Or.inl ⟨_, rfl⟩
  | leave =>
    rcases commit_cases h with rfl | ⟨v, n, db', -, hok, rfl⟩
    · exact Or.inl ⟨_, rfl⟩
    · obtain rfl := leave_ok hok
      exact Or.inl ⟨_, rfl⟩
  | remove_member =>
    rcases commit_cases h with rfl | ⟨v, n, db', -, hok, rfl⟩
    · exact Or.inl ⟨_, rfl⟩
    · obtain ⟨-, -, -, -, -, -, -, rfl⟩ := remove_member_ok hok
      exact Or.inl ⟨_, rfl⟩
  | transfer_membership =>
    rcases commit_cases h with rfl | ⟨v, q, db', -, hok, rfl⟩
    · exact Or.inl ⟨_, rfl⟩
    · obtain ⟨-, -, -, -, -, -, -, -, -, -, -, -, -, rfl⟩ := transfer_membership_ok hok
      exact Or.inl ⟨_, rfl⟩
  | other => exact absurd hcaller (by simp [seat_caller])

end CrewSync.Seats
