/-
Moves as one **system**: the committed database and its past, the broker, and every
process that may come between a move's statements. These are the moves themselves, the
publishers of slots, the sweeps, the readers that may leave a tombstone, and the
single transactions: a send, a settlement, an `abort`, a `cleanup`.

A process is advanced one statement at a time, and hears from the broker one answer at
a time, in any order with everything else. One that crashes is one that is never
advanced again. What the broker answers is what it holds then (`answers`), or that it
did not answer; what it stores was presented to it, by whoever, however long ago.

Everything else that commits goes through `other`, which may open threads and write
what is no part of this: seats, receipts, references, the attempts of a slot.
-/
import CrewSync.Broker
import CrewSync.Release
import CrewSync.Sequence

set_option autoImplicit false

namespace CrewSync.Moves

open Error Schema Rows Outbox Send History
open Migrate Release Runs
open Broker (Entry)
open Sequence (SendCall)

/-! ## Readers -/

/-- How far a reader is with one message. -/
inductive Stage where
  | asking
  /-- The broker has no such body. -/
  | gone
  | done
  deriving DecidableEq, Repr

/-- `resolve_body`, under way. -/
structure Look where
  message_id : Uuid
  team_id : Uuid
  row : BodyRow
  stage : Stage
  deriving DecidableEq, Repr

/-- What a reader waits for from the broker. -/
def Look.waits_for (k : Look) : Option Locator :=
  if k.stage = .asking then Release.asks k.row else none

/-- What a reader has in hand of a message. `recover_history` has read the body in its
transaction and reads the rest afterwards; any other reader reads both at once. -/
def look_of (v db : Db) (message_id team_id : Uuid) : Option Look := do
  let old ← one (fun m => m.id == message_id) v.conversation_messages
  let m ← one (fun m => m.id == message_id) db.conversation_messages
  pure ⟨message_id, team_id, { body_row m with body := old.body }, .asking⟩

/-! ## The system -/

/-- The state of the system. -/
structure Sys extends Committed Db where
  broker : List Entry
  /-- Every lease a worker was given. -/
  leases : List Lease
  /-- Every envelope that was presented to the broker. -/
  presented : List Envelope
  movers : List Mover
  sweeps : List Sweep
  looks : List Look

/-- The state in which nothing is under way. -/
def Sys.start (db : Db) : Sys := ⟨⟨db, []⟩, [], [], [], [], [], []⟩

/-- What can happen next. -/
inductive Act where
  | send (c : SendCall)
  | lease (now : ℕ) (worker : String) (locked : Uuid → Bool)
  | lease_one (now : ℕ) (worker : String) (message_id : Uuid)
  | settle (now : ℕ) (l : Lease) (outcome : Published)
  /-- A worker presents what it holds, or held, a lease for. -/
  | present (l : Lease)
  /-- Process `i` presents its copy. -/
  | present_copy (i : ℕ)
  /-- The broker stores what was presented. -/
  | store (seq : ℕ) (e : Envelope)
  | drop (l : Locator)
  /-- An operator runs a move. -/
  | start (team_id conversation_id : Uuid) (direction : Direction)
  /-- The next statement of process `i`. -/
  | statement (i now : ℕ) (id : Uuid)
  | told (i : ℕ) (a : Answer)
  | broken (i : ℕ) (why : String)
  | abort (now : ℕ) (migration_id : Uuid) (why : String)
  | cleanup (now : ℕ) (team_id : Uuid) (rollback_window_hours : ℤ)
  | sweep (conversation : Option Uuid) (min_age_secs : ℤ)
  | scan (i now : ℕ)
  /-- Sweep `i` hears of its candidate, or hears nothing. -/
  | confirm (i : ℕ) (heard : Bool)
  | clear (i : ℕ)
  /-- A reader takes up a message. `seen` is how many commits ago it read the body. -/
  | look (seen : ℕ) (message_id team_id : Uuid)
  /-- Reader `i` hears from the broker. -/
  | heard (i : ℕ)
  | tombstone (i now : ℕ)
  /-- Any other part of the server commits. -/
  | other (db' : Db)

/-- `db'` is committed. -/
def Sys.after (s : Sys) (db' : Db) : Sys := { s with toCommitted := s.push db' }

def Sys.commit {α : Type} (s : Sys) (res : BusResult (α × Db)) : Sys := conclude s (fun q => s.after q.2) res

/-- Process `i` has gone on. -/
def Sys.move (s : Sys) (i : ℕ) (m : Mover) : Sys := { s with movers := s.movers.set i m }

/-- The envelope of a slot. -/
def envelope_of (l : Lease) : Envelope :=
  ⟨l.message_id, l.conversation_id, l.team_id, l.payload, l.publish_key⟩

/-- What the broker may answer: what it holds, where it put what it was given, or that
it could not. -/
def answers (b : List Entry) (team_id : Uuid) : Ask → Answer → Bool
  | .fetch _ _, .fetched (.error _) => true
  | .fetch l message_id, .fetched (.ok found) =>
    decide (Broker.fetch team_id l message_id b = .ok found)
  | .publish e, .published (.Confirmed l) => Broker.acknowledges e.publish_key e.message_id l b
  | .publish _, .published _ => true
  | _, _ => false

/-- The outcome of an attempt: the broker has put the body where it says, or the
attempt failed. -/
def outcome_of (b : List Entry) (l : Lease) : Published → Bool
  | .Confirmed locator => Broker.acknowledges l.publish_key l.message_id locator b
  | .Retryable _ => true
  | .Fatal _ => true

/-- A message, but for what only the reconciler of uncertain publications writes. -/
def custody (m : ConversationMessage) : ConversationMessage := { m with uncertain_at := none }

/-- What a slot holds. -/
def parcel (o : ConversationOutbox) : Envelope :=
  ⟨o.message_id, o.conversation_id, o.team_id, o.payload, o.publish_key⟩

/-- A thread, its routing and its pause. -/
def routing (c : Conversation) : Uuid × Uuid × Backend × Publication × Option ℕ :=
  (c.id, c.team_id, c.backend, c.publication, c.write_paused_at)

/-- A thread as it is opened: on its team's backend, and not paused. -/
def is_opened (c : Conversation) : Bool :=
  c.write_paused_at.isNone && (c.publication == if c.backend = .postgres then .sync else .outbox)

/-- No statement outside this system writes a message, what a slot holds, or a move, or
routes or pauses a thread. -/
def leaves_bodies (db db' : Db) : Bool :=
  db'.conversation_messages.map custody == db.conversation_messages.map custody &&
    db'.conversation_outbox.map parcel == db.conversation_outbox.map parcel &&
    db'.conversation_migrations == db.conversation_migrations &&
    db'.conversation_migration_items == db.conversation_migration_items &&
    (db'.conversations.map routing).take db.conversations.length == db.conversations.map routing &&
    (db'.conversations.drop db.conversations.length).all is_opened &&
    decide (Keyed Conversation.id db'.conversations)

section Steps

variable (sha256 : String → String)

/-- One step. -/
def step (s : Sys) : Act → Option Sys
  | .send c => do
    let v ← s.view c.seen
    pure (s.commit (send sha256 c.now v c.auth c.id c.input c.message_id c.publish_key s.db))
  | .lease now worker locked => do
    let (l, db') ← lease now worker locked s.db
    pure { s.after db' with leases := l :: s.leases }
  | .lease_one now worker message_id => do
    let (l, db') ← lease_one now worker message_id s.db
    pure { s.after db' with leases := l :: s.leases }
  | .settle now l outcome =>
    if s.leases.contains l && outcome_of s.broker l outcome then
      some (s.after (settle now l outcome s.db).2)
    else none
  | .present l =>
    if s.leases.contains l then some { s with presented := envelope_of l :: s.presented } else none
  | .present_copy i => do
    let m ← s.movers[i]?
    match Migrate.asks m with
    | some (.publish e) => some { s with presented := e :: s.presented }
    | _ => none
  | .store seq e =>
    if s.presented.contains e then (Broker.store seq e s.broker).map fun b => { s with broker := b }
    else none
  | .drop l => some { s with broker := Broker.drop l s.broker }
  | .start team_id conversation_id direction =>
    if s.db.conversations.any fun c => c.id == conversation_id && c.team_id == team_id then
      some { s with movers := s.movers ++ [⟨team_id, conversation_id, direction, .opening⟩] }
    else none
  | .statement i now id => do
    let m ← s.movers[i]?
    let (db', m') ← statement sha256 now id s.db m
    pure ((s.after db').move i m')
  | .told i a => do
    let m ← s.movers[i]?
    let q ← Migrate.asks m
    if answers s.broker m.team_id q a then (Migrate.told sha256 a m).map (s.move i) else none
  | .broken i why => do
    let m ← s.movers[i]?
    let m' ← broken why m
    pure (s.move i m')
  | .abort now migration_id why => some (s.after (abort now migration_id why s.db))
  | .cleanup now team_id hours => some (s.commit (cleanup now team_id hours s.db))
  | .sweep conversation min_age_secs =>
    some { s with sweeps := s.sweeps ++ [Sweep.new conversation min_age_secs] }
  | .scan i now => do
    let w ← s.sweeps[i]?
    let w' ← scan now s.db w
    pure { s with sweeps := s.sweeps.set i w' }
  | .confirm i heard => do
    let w ← s.sweeps[i]?
    let c ← w.page.head?
    let f := if heard then fetched_of (Broker.fetch c.team_id c.locator c.message_id s.broker)
      else .unopened
    let w' ← Release.told sha256 f w
    pure { s with sweeps := s.sweeps.set i w' }
  | .clear i => do
    let w ← s.sweeps[i]?
    let db' ← clear w s.db
    pure { s.after db' with sweeps := s.sweeps.eraseIdx i }
  | .look seen message_id team_id => do
    let v ← s.view seen
    let k ← look_of v s.db message_id team_id
    pure { s with looks := s.looks ++ [k] }
  | .heard i => do
    let k ← s.looks[i]?
    let l ← k.waits_for
    let stage := if Broker.fetch k.team_id l k.message_id s.broker = .ok none then .gone else .done
    pure { s with looks := s.looks.set i { k with stage := stage } }
  | .tombstone i now => do
    let k ← s.looks[i]?
    if k.stage = .gone then
      some { s.after (tombstone now k.message_id "missing from backend" s.db) with
        looks := s.looks.set i { k with stage := .done } }
    else none
  | .other db' => if leaves_bodies s.db db' then some (s.after db') else none

end Steps

/-! ## What a step did -/

/-- Nothing was written that is part of this, but that threads may have been opened. -/
structure Beside (db db' : Db) : Prop where
  messages : db'.conversation_messages.map custody = db.conversation_messages.map custody
  slots : db'.conversation_outbox.map parcel = db.conversation_outbox.map parcel
  runs : db'.conversation_migrations = db.conversation_migrations
  items : db'.conversation_migration_items = db.conversation_migration_items
  old : ∀ c ∈ db.conversations, ∃ c' ∈ db'.conversations, routing c' = routing c
  new : ∀ c' ∈ db'.conversations,
    (∃ c ∈ db.conversations, routing c' = routing c) ∨ is_opened c' = true
  keyed : Keyed Conversation.id db.conversations → Keyed Conversation.id db'.conversations

/-- A message was accepted. -/
structure Sent (sha256 : String → String) (c : SendCall) (t : Conversation) (row : ConversationMessage)
    (db db' : Db) : Prop where
  thread : one (fun t => t.id == c.id) db.conversations = some t
  going : t.write_paused_at = none
  fresh : ∀ m ∈ db.conversation_messages, m.id ≠ row.id
  row_conversation : row.conversation_id = t.id
  row_backend : row.backend = t.backend
  row_locator : row.canonical_locator = none
  row_state : row.publication_state = if t.publication = .sync then .stored else .pending_publication
  row_body : row.body ≠ "" ∧ row.body_sha256 = some (sha256 row.body)
  row_there : row.deleted_at = none ∧ row.tombstoned_at = none
  messages : db'.conversation_messages = insert_into row db.conversation_messages
  slots : db'.conversation_outbox = db.conversation_outbox ∨ t.publication = .outbox ∧
    ∃ o, parcel o = ⟨row.id, row.conversation_id, c.auth.team_id, row.body, c.publish_key⟩ ∧
      db'.conversation_outbox = insert_into o db.conversation_outbox
  runs : db'.conversation_migrations = db.conversation_migrations
  items : db'.conversation_migration_items = db.conversation_migration_items
  routes : db'.conversations.map routing = db.conversations.map routing

/-- What sends a message, tries a slot, or is another part's. -/
def tries : Act → Bool
  | .send _ | .lease _ _ _ | .lease_one _ _ _ | .settle _ _ _ | .other _ => true
  | _ => false

/-- What a step did. -/
inductive Did (sha256 : String → String) (s : Sys) : Act → Sys → Prop
  | beside {a : Act} {db' : Db} {past : List Db} {leases : List Lease} : Beside s.db db' →
      (∀ l ∈ leases, l ∈ s.leases ∨ ∃ o ∈ s.db.conversation_outbox, envelope_of l = parcel o) →
      tries a = true → Did sha256 s a { s with db := db', past := past, leases := leases }
  | sent {c : SendCall} {t : Conversation} {row : ConversationMessage} {db' : Db} :
      Sent sha256 c t row s.db db' → Did sha256 s (.send c) (s.after db')
  | stored {now : ℕ} {l : Lease} {locator : Locator} {o : ConversationOutbox} {db' : Db} :
      l ∈ s.leases → Broker.acknowledges l.publish_key l.message_id locator s.broker = true →
      o ∈ s.db.conversation_outbox → o.message_id = l.message_id →
      db'.conversation_outbox = delete (holds now l) s.db.conversation_outbox → holds now l o = true →
      db'.conversation_messages = update (fun m => m.id == l.message_id)
        (fun m => { m with publication_state := .stored, canonical_locator := some locator })
        s.db.conversation_messages →
      db'.conversation_migrations = s.db.conversation_migrations →
      db'.conversation_migration_items = s.db.conversation_migration_items →
      db'.conversations = s.db.conversations →
      Did sha256 s (.settle now l (.Confirmed locator)) (s.after db')
  | failed {now : ℕ} {l : Lease} {outcome : Published} {o : ConversationOutbox}
      {slots : List ConversationOutbox} :
      o ∈ s.db.conversation_outbox → o.message_id = l.message_id →
      slots.map parcel = s.db.conversation_outbox.map parcel →
      Did sha256 s (.settle now l outcome) (s.after { s.db with
        conversation_outbox := slots
        conversation_messages := set_state .failed l.message_id s.db.conversation_messages })
  | presented {a : Act} {e : Envelope} :
      (∃ l ∈ s.leases, e = envelope_of l) ∨ (∃ m ∈ s.movers, Migrate.asks m = some (.publish e)) →
      Did sha256 s a { s with presented := e :: s.presented }
  | put {seq : ℕ} {e : Envelope} {b : List Entry} : e ∈ s.presented →
      Broker.store seq e s.broker = some b → Did sha256 s (.store seq e) { s with broker := b }
  | dropped {l : Locator} : Did sha256 s (.drop l) { s with broker := Broker.drop l s.broker }
  | start {team_id conversation_id : Uuid} {direction : Direction} {c : Conversation} :
      c ∈ s.db.conversations → c.id = conversation_id → c.team_id = team_id →
      Did sha256 s (.start team_id conversation_id direction)
        { s with movers := s.movers ++ [⟨team_id, conversation_id, direction, .opening⟩] }
  | ran {i now : ℕ} {id : Uuid} {m : Mover} {db' : Db} {ph : Phase} : s.movers[i]? = some m →
      Ran sha256 now id s.db m db' ph →
      Did sha256 s (.statement i now id) ((s.after db').move i (m.at_phase ph))
  | heard {i : ℕ} {q : Ask} {a : Answer} {m : Mover} {ph : Phase} : s.movers[i]? = some m →
      Migrate.asks m = some q → answers s.broker m.team_id q a = true → Heard sha256 a m ph →
      Did sha256 s (.told i a) (s.move i (m.at_phase ph))
  | broken {i : ℕ} {why : String} {m : Mover} {ph : Phase} : s.movers[i]? = some m →
      (∃ e, ph = .ended (.error e)) ∨ (∃ run e, ph = .failing run e) →
      Did sha256 s (.broken i why) (s.move i (m.at_phase ph))
  | abort {now : ℕ} {migration_id : Uuid} {why : String} :
      Did sha256 s (.abort now migration_id why) (s.after (abort now migration_id why s.db))
  | cleanup {now : ℕ} {team_id : Uuid} {hours : ℤ} {window : ℕ} :
      Did sha256 s (.cleanup now team_id hours) (s.after { s.db with
        conversation_messages := update (is_source_copy now team_id window s.db)
          (fun m => { m with body := "" }) s.db.conversation_messages })
  | refused {a : Act} : Did sha256 s a s
  | swept {a : Act} {sweeps : List Sweep} : Did sha256 s a { s with sweeps := sweeps }
  | cleared {i : ℕ} {confirmed : List Uuid} {sweeps : List Sweep} :
      Did sha256 s (.clear i) { s.after { s.db with
        conversation_messages := update (is_cleared confirmed s.db) (fun m => { m with body := "" })
          s.db.conversation_messages } with sweeps := sweeps }
  | looked {a : Act} {v : Db} {message_id team_id : Uuid} {k : Look} :
      look_of v s.db message_id team_id = some k →
      Did sha256 s a { s with looks := s.looks ++ [k] }
  | listened {i : ℕ} {k : Look} {l : Locator} {stage : Stage} : s.looks[i]? = some k →
      Release.asks k.row = some l →
      (stage = .gone → Broker.fetch k.team_id l k.message_id s.broker = .ok none) →
      stage ≠ .asking →
      Did sha256 s (.heard i) { s with looks := s.looks.set i { k with stage := stage } }
  | tombstone {i now : ℕ} {k : Look} : s.looks[i]? = some k → k.stage = .gone →
      Did sha256 s (.tombstone i now)
        { s.after (tombstone now k.message_id "missing from backend" s.db) with
          looks := s.looks.set i { k with stage := .done } }

section Effects

variable {sha256 : String → String} {s t : Sys} {db db' : Db} {now : ℕ} {a : Act}

theorem Beside.refl (db : Db) : Beside db db :=
  ⟨rfl, rfl, rfl, rfl, fun c hc => ⟨c, hc, rfl⟩, fun c hc => Or.inl ⟨c, hc, rfl⟩, fun h => h⟩

/-- A statement about the attempts of slots. -/
theorem Beside.slots_only {slots : List ConversationOutbox} (h : slots.map parcel = db.conversation_outbox.map parcel) :
    Beside db { db with conversation_outbox := slots } :=
  ⟨rfl, h, rfl, rfl, fun c hc => ⟨c, hc, rfl⟩, fun c hc => Or.inl ⟨c, hc, rfl⟩, fun h => h⟩

/-- What differs where nothing of a message is written that is part of this. -/
theorem custody_eq {m m' : ConversationMessage} (h : custody m' = custody m) :
    ∃ u, m' = { m with uncertain_at := u } := by
  refine ⟨m'.uncertain_at, ?_⟩
  calc m' = { custody m' with uncertain_at := m'.uncertain_at } := rfl
    _ = { custody m with uncertain_at := m'.uncertain_at } := by rw [h]
    _ = { m with uncertain_at := m'.uncertain_at } := rfl

theorem beside_of_leaves (h : leaves_bodies db db' = true) : Beside db db' := by
  simp only [leaves_bodies, Bool.and_eq_true, beq_iff_eq, decide_eq_true_eq] at h
  obtain ⟨⟨⟨⟨⟨⟨hm, ho⟩, hg⟩, hi⟩, hold⟩, hnew⟩, hk⟩ := h
  refine ⟨hm, ho, hg, hi, fun c hc => ?_, fun c hc => ?_, fun _ => hk⟩
  · have hin : routing c ∈ db.conversations.map routing := List.mem_map_of_mem hc
    rw [← hold] at hin
    obtain ⟨c', hc', heq⟩ := List.mem_map.mp (List.mem_of_mem_take hin)
    exact ⟨c', hc', heq⟩
  · rw [← List.take_append_drop db.conversations.length db'.conversations] at hc
    rcases List.mem_append.mp hc with hc | hc
    · have hin : routing c ∈ (db'.conversations.map routing).take db.conversations.length := by
        rw [← List.map_take]
        exact List.mem_map_of_mem hc
      rw [hold] at hin
      obtain ⟨c', hc', heq⟩ := List.mem_map.mp hin
      exact Or.inl ⟨c', hc', heq.symm⟩
    · exact Or.inr (List.all_eq_true.mp hnew c hc)

theorem send_did {c : SendCall} {v : Db} {r : SentMessage}
    (h : send sha256 c.now v c.auth c.id c.input c.message_id c.publish_key s.db = .ok (r, db')) :
    Did sha256 s (.send c) (s.after db') := by
  have hroutes : ∀ t : Conversation,
      (update (fun x => x.id == t.id) (fun x => { x with last_seq := x.last_seq + 1 })
        s.db.conversations).map routing = s.db.conversations.map routing :=
    fun t => map_key_update fun _ => rfl
  rcases send_ok h with rfl | ⟨t, body, ht, hgoing, hbody, hfresh, ⟨hsync, rfl⟩ | ⟨hout, hq⟩⟩
  · exact .beside (.refl _) (fun l hl => Or.inl hl) rfl
  · have hsent : Sent sha256 c t (sent_row sha256 c.now c.auth t c.input body c.message_id) s.db
        (with_message sha256 c.now c.auth t c.input body c.message_id s.db) := by
      refine ⟨ht, hgoing, hfresh, rfl, rfl, rfl, ?_, ⟨hbody, rfl⟩, ⟨rfl, rfl⟩, rfl, Or.inl rfl, rfl, rfl,
        hroutes t⟩
      rw [if_pos hsync]
      rfl
    exact .sent hsent
  · have hid : t.id = c.id := by simpa using pos_of_one ht
    have hnot : ¬ t.publication = .sync := by
      rw [hout]
      decide
    have hsent : Sent sha256 c t { sent_row sha256 c.now c.auth t c.input body c.message_id with
        publication_state := .pending_publication } s.db db' := by
      rw [enqueue_ok hq]
      have hpending := set_state_insert .pending_publication
        (sent_row sha256 c.now c.auth t c.input body c.message_id) hfresh
      refine ⟨ht, hgoing, hfresh, rfl, rfl, rfl, ?_, ⟨hbody, rfl⟩, ⟨rfl, rfl⟩, hpending, ?_, rfl, rfl,
        hroutes t⟩
      · rw [if_neg hnot]
      · by_cases hany : (s.db.conversation_outbox.any fun o => o.message_id == c.message_id) = true
        · exact Or.inl (if_pos hany)
        · refine Or.inr ⟨hout, _, ?_, if_neg hany⟩
          simp [parcel, slot_row, sent_row, hid]
    exact .sent hsent

theorem settle_did {l : Lease} {outcome : Published} (hl : l ∈ s.leases) (hout : outcome_of s.broker l outcome = true) :
    Did sha256 s (.settle now l outcome) (s.after (settle now l outcome s.db).2) := by
  have hparcels : ∀ {p : ConversationOutbox → Bool} {f : ConversationOutbox → ConversationOutbox},
      (∀ o, parcel (f o) = parcel o) →
      (update p f s.db.conversation_outbox).map parcel = s.db.conversation_outbox.map parcel :=
    fun hf => map_key_update hf
  unfold settle
  by_cases hheld : s.db.conversation_outbox.any (holds now l) = true
  · rw [if_pos hheld]
    obtain ⟨o, ho, hholds⟩ := List.any_eq_true.mp hheld
    have hoid : o.message_id = l.message_id := by
      simp only [holds, Bool.and_eq_true, beq_iff_eq] at hholds
      exact hholds.1.1
    cases outcome with
    | Confirmed locator => exact .stored hl hout ho hoid rfl hholds rfl rfl rfl rfl
    | Retryable why =>
      simp only
      split
      · exact .failed ho hoid (hparcels fun _ => rfl)
      · exact .beside (.slots_only (hparcels fun _ => rfl)) (fun l hl => Or.inl hl) rfl
    | Fatal why => exact .failed ho hoid (hparcels fun _ => rfl)
  · rw [if_neg hheld]
    exact .beside (.refl _) (fun l hl => Or.inl hl) rfl

/-- A lease is of a slot, and changes only what was tried. -/
theorem leased_beside {o : ConversationOutbox} {p : ConversationOutbox → Bool} {attempt : ℕ}
    {worker : String} (ho : o ∈ s.db.conversation_outbox) (ha : tries a = true) :
    Did sha256 s a { s.after { s.db with
        conversation_outbox := update p (leased_row now worker attempt) s.db.conversation_outbox } with
      leases := lease_of (leased_row now worker attempt o) :: s.leases } := by
  refine .beside (.slots_only (map_key_update fun _ => rfl)) (fun l hl => ?_) ha
  rcases List.mem_cons.mp hl with rfl | hl
  · exact Or.inr ⟨o, ho, rfl⟩
  · exact Or.inl hl

theorem cleanup_did {team_id : Uuid} {hours : ℤ} :
    Did sha256 s (.cleanup now team_id hours) (s.commit (cleanup now team_id hours s.db)) := by
  unfold Sys.commit
  rcases conclude_cases (fun q => s.after q.2) (cleanup now team_id hours s.db) with heq | ⟨⟨n, db'⟩, hok, heq⟩
  · rw [heq]
    exact .refused
  · rw [heq]
    simp only [Migrate.cleanup, bind_eq_ok, pure_eq_ok, Prod.mk.injEq] at hok
    obtain ⟨_, -, -, rfl⟩ := hok
    exact .cleanup

/-- Every step is one of these. -/
theorem step_did (h : step sha256 s a = some t) : Did sha256 s a t := by
  cases a with
  | send c =>
    simp only [step, Option.bind_eq_bind, Option.bind_eq_some_iff, Option.pure_def,
      Option.some.injEq] at h
    obtain ⟨v, -, rfl⟩ := h
    unfold Sys.commit
    rcases conclude_cases (fun q => s.after q.2)
      (send sha256 c.now v c.auth c.id c.input c.message_id c.publish_key s.db) with heq | ⟨⟨r, db'⟩, hok, heq⟩
    · rw [heq]
      exact .refused
    · rw [heq]
      exact send_did hok
  | lease now worker locked =>
    simp only [step, Option.bind_eq_bind, Option.bind_eq_some_iff, Option.pure_def,
      Option.some.injEq, lease, Prod.exists, Prod.mk.injEq] at h
    obtain ⟨_, _, ⟨o, hhead, rfl, rfl⟩, rfl⟩ := h
    have ho := List.mem_of_mem_head? hhead
    rw [List.mem_insertionSort, List.mem_filter] at ho
    exact leased_beside ho.1 rfl
  | lease_one now worker message_id =>
    simp only [step, Option.bind_eq_bind, Option.bind_eq_some_iff, Option.pure_def,
      Option.some.injEq, lease_one, Prod.exists, Prod.mk.injEq] at h
    obtain ⟨_, _, ⟨o, hone, rfl, rfl⟩, rfl⟩ := h
    exact leased_beside (mem_of_one hone) rfl
  | settle now l outcome =>
    simp only [step, Option.ite_none_right_eq_some, Bool.and_eq_true, List.contains_iff_mem,
      Option.some.injEq] at h
    obtain ⟨⟨hl, hout⟩, rfl⟩ := h
    exact settle_did hl hout
  | present l =>
    simp only [step, Option.ite_none_right_eq_some, List.contains_iff_mem, Option.some.injEq] at h
    obtain ⟨hl, rfl⟩ := h
    exact .presented (Or.inl ⟨l, hl, rfl⟩)
  | present_copy i =>
    simp only [step, Option.bind_eq_bind, Option.bind_eq_some_iff] at h
    obtain ⟨m, hm, h⟩ := h
    split at h
    · rename_i e hasks
      obtain rfl := Option.some.inj h
      exact .presented (Or.inr ⟨m, List.mem_of_getElem? hm, hasks⟩)
    · cases h
  | store seq e =>
    simp only [step, Option.ite_none_right_eq_some, Option.map_eq_some_iff,
      List.contains_iff_mem] at h
    obtain ⟨he, b, hb, rfl⟩ := h
    exact .put he hb
  | drop l =>
    obtain rfl := Option.some.inj h
    exact .dropped
  | start team_id conversation_id direction =>
    simp only [step, Option.ite_none_right_eq_some, Option.some.injEq, List.any_eq_true,
      Bool.and_eq_true, beq_iff_eq] at h
    obtain ⟨⟨c, hc, hid, hteam⟩, rfl⟩ := h
    exact .start hc hid hteam
  | statement i now id =>
    simp only [step, Option.bind_eq_bind, Option.bind_eq_some_iff, Option.pure_def,
      Option.some.injEq, Prod.exists] at h
    obtain ⟨m, hm, db', m', hst, rfl⟩ := h
    obtain ⟨ph, rfl, hran⟩ := statement_ran hst
    exact .ran hm hran
  | told i a =>
    simp only [step, Option.bind_eq_bind, Option.bind_eq_some_iff, Option.map_eq_some_iff,
      Option.ite_none_right_eq_some] at h
    obtain ⟨m, hm, q, hq, hans, m', htold, rfl⟩ := h
    obtain ⟨ph, rfl, hheard⟩ := told_heard htold
    exact .heard hm hq hans hheard
  | broken i why =>
    simp only [step, Option.bind_eq_bind, Option.bind_eq_some_iff, Option.pure_def,
      Option.some.injEq] at h
    obtain ⟨m, hm, m', hbroken, rfl⟩ := h
    rcases broken_stopped hbroken with ⟨e, rfl⟩ | ⟨run, e, rfl⟩
    · exact .broken hm (Or.inl ⟨e, rfl⟩)
    · exact .broken hm (Or.inr ⟨run, e, rfl⟩)
  | abort now migration_id why =>
    obtain rfl := Option.some.inj h
    exact .abort
  | cleanup now team_id hours =>
    obtain rfl := Option.some.inj h
    exact cleanup_did
  | sweep conversation min_age_secs =>
    obtain rfl := Option.some.inj h
    exact .swept
  | scan i now =>
    simp only [step, Option.bind_eq_bind, Option.bind_eq_some_iff, Option.pure_def,
      Option.some.injEq] at h
    obtain ⟨w, -, w', -, rfl⟩ := h
    exact .swept
  | confirm i heard =>
    simp only [step, Option.bind_eq_bind, Option.bind_eq_some_iff, Option.pure_def,
      Option.some.injEq] at h
    obtain ⟨w, -, c, -, w', -, rfl⟩ := h
    exact .swept
  | clear i =>
    simp only [step, Option.bind_eq_bind, Option.bind_eq_some_iff, Option.pure_def,
      Option.some.injEq, clear, Option.ite_none_right_eq_some] at h
    obtain ⟨w, -, db', ⟨-, rfl⟩, rfl⟩ := h
    exact .cleared
  | look seen message_id team_id =>
    simp only [step, Option.bind_eq_bind, Option.bind_eq_some_iff, Option.pure_def,
      Option.some.injEq] at h
    obtain ⟨v, -, k, hk, rfl⟩ := h
    exact .looked hk
  | heard i =>
    simp only [step, Option.bind_eq_bind, Option.bind_eq_some_iff, Option.pure_def,
      Option.some.injEq, Look.waits_for, Option.ite_none_right_eq_some] at h
    obtain ⟨k, hk, l, ⟨-, hl⟩, rfl⟩ := h
    refine .listened hk hl (fun hgone => ?_) ?_
    · by_contra hne
      rw [if_neg hne] at hgone
      cases hgone
    · split <;> decide
  | tombstone i now =>
    simp only [step, Option.bind_eq_bind, Option.bind_eq_some_iff, Option.some.injEq,
      Option.ite_none_right_eq_some] at h
    obtain ⟨k, hk, hgone, rfl⟩ := h
    exact .tombstone hk hgone
  | other db' =>
    simp only [step, Option.ite_none_right_eq_some, Option.some.injEq] at h
    obtain ⟨hl, rfl⟩ := h
    exact .beside (beside_of_leaves hl) (fun l hl => Or.inl hl) rfl

end Effects

end CrewSync.Moves
