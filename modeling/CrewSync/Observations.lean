/-
The receipts of messages, over whole runs.

`send` writes them; `ack`, `inbox::confirm` and `outbox::settle` mark them; and the cutover
of a move writes the column of the message one of the marks must agree with. Each does so
in a transaction of its own. Said per command that is much; said of the receipts it is one
of five things (`Wrote`): nothing, a message is accepted, it is stored, a window records
its own observation, deliveries are confirmed.

A cutover is among those that do nothing. It declares the messages it moves to Postgres
stored, which they are already: a move copies what has a place, and a message has a place
only once it is stored (`Filed`). It may also meet one that is not, which is in no
move and keeps its slot. For this the list a process works through may be as old as it
likes, and the broker may answer anything.

A settlement is run with any lease at any time: the slot is what fences it.
-/
import CrewSync.Inbox
import CrewSync.Migrate
import CrewSync.Receipts
import CrewSync.Seats
import CrewSync.Sequence

set_option autoImplicit false

namespace CrewSync.Observations

open Error Schema Rows Conversations
open Outbox Send Migrate Receipts Runs
open Sequence (SendCall)
open Inbox (InboxRef)
open Routing (Backends)
open Crew

/-! ## The system -/

/-- The committed database, the databases before it, and the moves under way. -/
structure Sys extends Committed Db where
  movers : List Mover

/-- The state in which no move is under way. -/
def Sys.start (db : Db) : Sys := ⟨⟨db, []⟩, []⟩

/-- What can happen next. -/
inductive Act where
  /-- A thread is opened, or a seat changes. -/
  | seats (a : Seats.Act)
  | send (c : SendCall)
  | ack (seen now : ℕ) (auth : AuthCtx) (message_id : Uuid) (resolved : Bool) (note : Option String)
  | fetch (seen now : ℕ) (b : Backends) (answer : BusResult (List InboxRef)) (auth : AuthCtx)
      (limit : Option ℤ)
  | confirm (seen now : ℕ) (b : Backends) (auth : AuthCtx) (delivery_ids : List (Option Uuid))
  | lease (now : ℕ) (worker : String) (locked : Uuid → Bool)
  | lease_one (now : ℕ) (worker : String) (message_id : Uuid)
  | settle (now : ℕ) (l : Lease) (outcome : Published)
  /-- An operator runs a move. -/
  | start (team_id conversation_id : Uuid) (direction : Direction)
  /-- The next statement of move `i`. -/
  | statement (i now : ℕ) (id : Uuid)
  | told (i : ℕ) (a : Answer)
  | broken (i : ℕ) (why : String)
  | abort (now : ℕ) (migration_id : Uuid) (why : String)
  /-- Any other part of the server commits. -/
  | other (db' : Db)

/-- The seats, as a system of their own. -/
def Sys.seats (s : Sys) : Seats.Sys := ⟨s.toCommitted, []⟩

/-- `db'` is committed. -/
def Sys.after (s : Sys) (db' : Db) : Sys := { s with toCommitted := s.push db' }

def Sys.commit {α : Type} (s : Sys) (res : BusResult (α × Db)) : Sys := conclude s (fun q => s.after q.2) res

/-- Move `i` has gone on. -/
def Sys.move (s : Sys) (i : ℕ) (m : Mover) : Sys := { s with movers := s.movers.set i m }

/-- Where a message is, and how far its publication. -/
def filing (m : ConversationMessage) : Uuid × PublicationState × Backend × Option Locator :=
  (m.id, m.publication_state, m.backend, m.canonical_locator)

/-- How a thread publishes. -/
def route (c : Conversation) : Uuid × Backend × Publication := (c.id, c.backend, c.publication)

/-- No statement outside this system writes a receipt, a recipient or a seat, files a
message, routes a thread, queues or drops a slot, or writes an item of a move. -/
def leaves_receipts (db db' : Db) : Bool :=
  db'.message_receipts == db.message_receipts && db'.message_recipients == db.message_recipients &&
    db'.conversation_memberships == db.conversation_memberships &&
    db'.conversation_messages.map filing == db.conversation_messages.map filing &&
    db'.conversation_outbox.map ConversationOutbox.message_id ==
      db.conversation_outbox.map ConversationOutbox.message_id &&
    db'.conversation_migration_items == db.conversation_migration_items &&
    db'.conversations.map route == db.conversations.map route

section Steps

variable (sha256 : String → String)

/-- One step. -/
def step (s : Sys) : Act → Option Sys
  | .seats a =>
    if (Seats.seat_caller a).isSome then
      (Seats.step s.seats a).map fun t => { s with toCommitted := t.toCommitted }
    else none
  | .send c => do
    let v ← s.view c.seen
    pure (s.commit (send sha256 c.now v c.auth c.id c.input c.message_id c.publish_key s.db))
  | .ack seen now auth message_id resolved note => do
    let v ← s.view seen
    pure (s.commit (ack now v auth message_id resolved note s.db))
  | .fetch seen now b answer auth limit => do
    let v ← s.view seen
    pure (s.commit ((Inbox.fetch now v b answer auth limit s.db).map fun q => (q.1, q.2.2)))
  | .confirm seen now b auth delivery_ids => do
    let v ← s.view seen
    pure (s.commit ((Inbox.confirm now v b auth delivery_ids s.db).map fun q => (q.1, q.2.2)))
  | .lease now worker locked => (lease now worker locked s.db).map fun q => s.after q.2
  | .lease_one now worker message_id => (lease_one now worker message_id s.db).map fun q => s.after q.2
  | .settle now l outcome => some (s.after (settle now l outcome s.db).2)
  | .start team_id conversation_id direction =>
    if s.db.conversations.any fun c => c.id == conversation_id && c.team_id == team_id then
      some { s with movers := s.movers ++ [⟨team_id, conversation_id, direction, .opening⟩] }
    else none
  | .statement i now id => do
    let m ← s.movers[i]?
    let (db', m') ← statement sha256 now id s.db m
    pure ((s.after db').move i m')
  | .told i a => do
    let m ← s.movers[i]?
    let m' ← told sha256 a m
    pure (s.move i m')
  | .broken i why => do
    let m ← s.movers[i]?
    let m' ← broken why m
    pure (s.move i m')
  | .abort now migration_id why => some (s.after (abort now migration_id why s.db))
  | .other db' => if leaves_receipts s.db db' then some (s.after db') else none

end Steps

/-! ## The law -/

/-- What a receipt is of: a message, and a seat. -/
def pair (r : MessageReceipt) : Uuid × Uuid := (r.message_id, r.membership_id)

/-- The seats that have a receipt of a message. -/
def asked_of (k : Uuid) (db : Db) : List Uuid :=
  (db.message_receipts.filter fun r => r.message_id == k).map MessageReceipt.membership_id

/-- The seat is one a message of the thread is for: active, not the sender's, and of an
agent that holds the project if the thread is a project's. -/
def IsFor (auth : AuthCtx) (t : Conversation) (db : Db) (x : ConversationMembership) : Prop :=
  x.conversation_id = t.id ∧ x.state = .active ∧
    ¬(x.agent_id = auth.agent_id ∧ x.session = auth.session) ∧
    (t.visibility = .project → ∃ a ∈ db.project_agent_access,
      some a.project_id = t.project_id ∧ a.agent_id = x.agent_id)

/-- The step accepts the message, from this caller into this thread. -/
def accepts (k : Uuid) (auth : AuthCtx) (t : Conversation) (e : Trans Sys Act) : Prop :=
  ∃ c, e.act = .send c ∧ c.message_id = k ∧ c.auth = auth ∧
    one (fun t => t.id == c.id) e.pre.db.conversations = some t ∧
    (∀ m ∈ e.pre.db.conversation_messages, m.id ≠ k) ∧
    ∃ m ∈ e.post.db.conversation_messages, m.id = k

/-- What a recipient is of. -/
def recipient_pair (r : MessageRecipient) : Uuid × Uuid := (r.message_id, r.membership_id)

/-- A mark that is set stays as it is. -/
structure Marked (r r' : MessageReceipt) : Prop where
  stored : r.stored_at.isSome = true → r'.stored_at = r.stored_at
  delivered : r.delivered_at.isSome = true → r'.delivered_at = r.delivered_at
  acknowledged : r.acknowledged_at.isSome = true → r'.acknowledged_at = r.acknowledged_at
  resolved : r.resolved_at.isSome = true → r'.resolved_at = r.resolved_at

/-- The step is an acknowledgement of the message by the window of the receipt's seat,
while the seat is active. -/
def by_own_window (r : MessageReceipt) (e : Trans Sys Act) : Prop :=
  ∃ seen now auth resolved note, e.act = .ack seen now auth r.message_id resolved note ∧
    ∃ m ∈ e.pre.db.conversation_memberships, m.id = r.membership_id ∧ m.agent_id = auth.agent_id ∧
      m.session = auth.session ∧ m.state = .active

/-- What a run from `s₀` to `s` promises of receipts. -/
structure ReceiptLaw (s₀ : Sys) (tr : List (Trans Sys Act)) (s : Sys) : Prop where
  /-- A message has one receipt of each seat it was for when it was accepted, for good. -/
  snapshot : ∀ m ∈ s.db.conversation_messages, (asked_of m.id s.db).Nodup ∧
    ((∃ m₀ ∈ s₀.db.conversation_messages, m₀.id = m.id ∧ asked_of m.id s.db = asked_of m.id s₀.db) ∨
      ∃ e ∈ tr, ∃ auth t, accepts m.id auth t e ∧ ∀ k, k ∈ asked_of m.id s.db ↔
        ∃ x ∈ e.pre.db.conversation_memberships, x.id = k ∧ IsFor auth t e.pre.db x)
  /-- The receipts are those of the recipients. -/
  recipients : s.db.message_receipts.map pair = s.db.message_recipients.map recipient_pair
  /-- Each mark is written once, and a receipt stays. -/
  once : ∀ e ∈ tr, ∀ r ∈ e.pre.db.message_receipts, ∃ r' ∈ s.db.message_receipts,
    pair r' = pair r ∧ (∀ r'' ∈ s.db.message_receipts, pair r'' = pair r → r'' = r') ∧ Marked r r'
  /-- What is resolved is acknowledged, and what says it is stored is. -/
  truth : ∀ r ∈ s.db.message_receipts, (r.resolved_at.isSome = true → r.acknowledged_at.isSome = true) ∧
    ∃ m ∈ s.db.conversation_messages, m.id = r.message_id ∧
      (r.stored_at.isSome = true ↔ m.publication_state = .stored)
  /-- A step that writes an observation is one of the seat's own window. -/
  own : ∀ e ∈ tr, ∀ r' ∈ e.post.db.message_receipts,
    (∃ r ∈ e.pre.db.message_receipts, pair r = pair r' ∧ r'.acknowledged_at = r.acknowledged_at ∧
      r'.resolved_at = r.resolved_at) ∨
    (∀ r ∈ e.pre.db.message_receipts, pair r ≠ pair r') ∧ r'.acknowledged_at = none ∧
      r'.resolved_at = none ∨
    by_own_window r' e

/-! ## What is filed -/

/-- A message, and whether it is stored. -/
def shown (m : ConversationMessage) : Uuid × Bool := (m.id, m.publication_state == .stored)

/-- The message has a place: it is on Postgres, or has a locator. -/
def placed (m : ConversationMessage) : Bool := m.backend == .postgres || m.canonical_locator.isSome

/-- The message is there, and stored. -/
def Stored (db : Db) (k : Uuid) : Prop := (k, true) ∈ db.conversation_messages.map shown

/-- The message is there, and not stored. -/
def Waiting (db : Db) (k : Uuid) : Prop := (k, false) ∈ db.conversation_messages.map shown

/-- What holds of messages, slots and moves: what has a place is stored, and so is what a
move has planned; what has a slot is not. -/
structure Filed (db : Db) : Prop where
  messages : db.MessagesKeyed
  places : ∀ m ∈ db.conversation_messages, placed m = true → m.publication_state = .stored
  slot_keys : db.SlotsKeyed
  slots : ∀ o ∈ db.conversation_outbox, Waiting db o.message_id
  items : ∀ i ∈ db.conversation_migration_items, Stored db i.message_id
  routes : ∀ c ∈ db.conversations, c.backend = .postgres → c.publication = .sync

/-- What a move has read of a message. -/
def RowKnown (db : Db) (row : CopyRow) : Prop :=
  row.backend = .postgres ∨ row.locator.isSome = true → Stored db row.message_id

/-- What a move knows of the messages it has in hand and in its list. -/
def Knows (db : Db) : Phase → Prop
  | .looping _ rows _ => ∀ row ∈ rows, RowKnown db row
  | .fetching _ _ row rows _ => Stored db row.message_id ∧ ∀ r ∈ rows, RowKnown db r
  | .holding _ _ h => Stored db h.row.message_id ∧ ∀ r ∈ h.rows, RowKnown db r
  | _ => True

section Filing

variable {db db' : Db} {k : Uuid} {m : ConversationMessage}

theorem shown_of_filing {m' : ConversationMessage} (h : filing m' = filing m) :
    shown m' = shown m ∧ placed m' = placed m ∧ m'.publication_state = m.publication_state := by
  simp only [filing, Prod.mk.injEq] at h
  obtain ⟨hid, hstate, hback, hloc⟩ := h
  refine ⟨?_, ?_, hstate⟩
  · rw [shown, shown, hid, hstate]
  · rw [placed, placed, hback, hloc]

theorem stored_iff (hk : db.MessagesKeyed)
    (hm : m ∈ db.conversation_messages) : Stored db m.id ↔ m.publication_state = .stored := by
  constructor
  · intro h
    obtain ⟨m', hm', heq⟩ := List.mem_map.mp h
    simp only [shown, Prod.mk.injEq, beq_iff_eq] at heq
    rw [← hk.eq hm' hm heq.1]
    exact heq.2
  · intro h
    refine List.mem_map.mpr ⟨m, hm, ?_⟩
    rw [shown, h]
    rfl

theorem waiting_not_stored (hk : db.MessagesKeyed) (hw : Waiting db k) : ¬ Stored db k := by
  intro hs
  obtain ⟨m, hm, heq⟩ := List.mem_map.mp hw
  simp only [shown, Prod.mk.injEq] at heq
  rw [← heq.1, stored_iff hk hm] at hs
  rw [hs] at heq
  exact absurd heq.2 (by decide)

theorem ids_of_shown (h : db'.conversation_messages.map shown = db.conversation_messages.map shown) :
    db'.conversation_messages.map ConversationMessage.id =
      db.conversation_messages.map ConversationMessage.id := by
  have hfst := congrArg (List.map Prod.fst) h
  rw [List.map_map, List.map_map] at hfst
  exact hfst

/-- Slots may be written, and items of stored messages: as long as no message is stored
that was not, and none is given a place that is not stored. -/
theorem Filed.same (h : Filed db) (hshown : db'.conversation_messages.map shown = db.conversation_messages.map shown)
    (hplaces : ∀ m ∈ db'.conversation_messages, placed m = true → m.publication_state = .stored)
    (hslots : db'.conversation_outbox.map ConversationOutbox.message_id =
      db.conversation_outbox.map ConversationOutbox.message_id)
    (hitems : ∀ i ∈ db'.conversation_migration_items, Stored db i.message_id)
    (hroutes : ∀ c ∈ db'.conversations, c.backend = .postgres → c.publication = .sync) : Filed db' := by
  refine ⟨?_, hplaces, ?_, ?_, ?_, hroutes⟩
  · show (List.map _ _).Nodup
    rw [ids_of_shown hshown]
    exact h.messages
  · show (List.map _ _).Nodup
    rw [hslots]
    exact h.slot_keys
  · intro o ho
    obtain ⟨o₀, ho₀, heq⟩ := of_map_eq hslots o ho
    show _ ∈ List.map _ _
    rw [hshown, ← heq]
    exact h.slots o₀ ho₀
  · intro i hi
    show _ ∈ List.map _ _
    rw [hshown]
    exact hitems i hi

theorem shown_of_filings (h : db'.conversation_messages.map filing = db.conversation_messages.map filing) :
    db'.conversation_messages.map shown = db.conversation_messages.map shown := by
  have hof : ∀ t : List ConversationMessage,
      t.map shown = (t.map filing).map fun q => (q.1, q.2.1 == .stored) := by
    intro t
    rw [List.map_map]
    rfl
  rw [hof, hof, h]

/-- A statement that files nothing. -/
theorem Filed.quiet (h : Filed db)
    (hmessages : db'.conversation_messages.map filing = db.conversation_messages.map filing)
    (hslots : db'.conversation_outbox.map ConversationOutbox.message_id =
      db.conversation_outbox.map ConversationOutbox.message_id)
    (hitems : ∀ i ∈ db'.conversation_migration_items, Stored db i.message_id)
    (hroutes : ∀ c ∈ db'.conversations, c.backend = .postgres → c.publication = .sync) : Filed db' := by
  refine h.same (shown_of_filings hmessages) ?_ hslots hitems hroutes
  intro m hm hplaced
  obtain ⟨m₀, hm₀, heq⟩ := of_map_eq hmessages m hm
  obtain ⟨-, hp, hst⟩ := shown_of_filing heq
  rw [← hst]
  exact h.places m₀ hm₀ (hp.trans hplaced)

theorem route_ok {c c' : Conversation} (h : route c' = route c) (hc : c.backend = .postgres → c.publication = .sync) :
    c'.backend = .postgres → c'.publication = .sync := by
  simp only [route, Prod.mk.injEq] at h
  rw [h.2.1, h.2.2]
  exact hc

theorem routes_of_map (h : Filed db) (hr : db'.conversations.map route = db.conversations.map route) :
    ∀ c ∈ db'.conversations, c.backend = .postgres → c.publication = .sync := by
  intro c hc
  obtain ⟨c₀, hc₀, heq⟩ := of_map_eq hr c hc
  exact route_ok heq.symm (h.routes c₀ hc₀)

/-- What a move knows it knows for good. -/
theorem Knows.mono (hkeeps : ∀ k, Stored db k → Stored db' k) {ph : Phase} (h : Knows db ph) :
    Knows db' ph := by
  have hrows : ∀ {rows : List CopyRow}, (∀ r ∈ rows, RowKnown db r) → ∀ r ∈ rows, RowKnown db' r :=
    fun hr r hin hp => hkeeps _ (hr r hin hp)
  cases ph with
  | looping run rows t => exact hrows h
  | fetching run l row rows t | holding run at_ hand => exact ⟨hkeeps _ h.1, hrows h.2⟩
  | _ => trivial

end Filing

/-! ## The five things -/

/-- What `settle` does to a receipt of the message it stores. -/
def stored_row (now : ℕ) (r : MessageReceipt) : MessageReceipt :=
  { r with stored_at := some (r.stored_at.getD now) }

/-- What `confirm` does to a receipt. -/
def delivered_row (now : ℕ) (r : MessageReceipt) : MessageReceipt :=
  { r with delivered_at := some (r.delivered_at.getD now) }

/-- A message was accepted into a thread: one receipt for each seat addressed. -/
structure Accepted (c : SendCall) (t : Conversation) (db db' : Db) : Prop where
  thread : one (fun t => t.id == c.id) db.conversations = some t
  fresh : ∀ m ∈ db.conversation_messages, m.id ≠ c.message_id
  message : ∃ row, shown row = (c.message_id, t.publication == .sync) ∧
    (placed row = true → t.backend = .postgres) ∧
    db'.conversation_messages = insert_into row db.conversation_messages
  slots : db'.conversation_outbox = db.conversation_outbox ∨ t.publication = .outbox ∧
    ∃ o, o.message_id = c.message_id ∧ (∀ x ∈ db.conversation_outbox, x.message_id ≠ c.message_id) ∧
      db'.conversation_outbox = insert_into o db.conversation_outbox
  items : db'.conversation_migration_items = db.conversation_migration_items
  routes : db'.conversations.map route = db.conversations.map route
  seats : db'.conversation_memberships = db.conversation_memberships
  recipients : db'.message_recipients = db.message_recipients ++
    (addressed c.auth t db).map fun m => ⟨c.message_id, m.id, m.agent_id, m.session⟩
  receipts : db'.message_receipts = db.message_receipts ++
    (addressed c.auth t db).map fun m => receipt_row c.now (t.publication == .outbox) c.message_id m.id

/-- What a committed step did to the receipts. -/
inductive Wrote (s : Sys) (a : Act) (db' : Db) : Prop
  | nothing : db'.conversation_messages.map shown = s.db.conversation_messages.map shown →
      db'.message_receipts = s.db.message_receipts → db'.message_recipients = s.db.message_recipients →
      Wrote s a db'
  | accepted {c : SendCall} {t : Conversation} : a = .send c → Accepted c t s.db db' → Wrote s a db'
  | stored {now : ℕ} {k : Uuid} : Waiting s.db k →
      db'.conversation_messages.map shown =
        s.db.conversation_messages.map (fun m => if m.id == k then (k, true) else shown m) →
      db'.message_receipts = update (fun r => r.message_id == k) (stored_row now) s.db.message_receipts →
      db'.message_recipients = s.db.message_recipients → Wrote s a db'
  | observed {seen now : ℕ} {auth : AuthCtx} {k : Uuid} {m : ConversationMembership} {resolved : Bool}
      {note text : Option String} : a = .ack seen now auth k resolved note →
      m ∈ s.db.conversation_memberships → m.state = .active → m.agent_id = auth.agent_id →
      m.session = auth.session →
      db'.conversation_messages.map shown = s.db.conversation_messages.map shown →
      db'.message_receipts = update (is_asked k m.id s.db) (Receipts.observed now resolved text)
        s.db.message_receipts →
      db'.message_recipients = s.db.message_recipients → Wrote s a db'
  | delivered {now : ℕ} {p : MessageReceipt → Bool} :
      db'.conversation_messages.map shown = s.db.conversation_messages.map shown →
      db'.message_receipts = update p (delivered_row now) s.db.message_receipts →
      db'.message_recipients = s.db.message_recipients → Wrote s a db'

/-- What holds of receipts: they are the recipients', each of a message, and say of it what
is so. -/
structure Truth (db : Db) : Prop where
  recipients : db.message_receipts.map pair = db.message_recipients.map recipient_pair
  keyed : Keyed pair db.message_receipts
  resolved : ∀ r ∈ db.message_receipts, r.resolved_at.isSome = true → r.acknowledged_at.isSome = true
  stored : ∀ r ∈ db.message_receipts,
    (r.message_id, r.stored_at.isSome) ∈ db.conversation_messages.map shown

/-- What holds in every reachable state. -/
structure Inv (s : Sys) : Prop where
  filed : Filed s.db
  seats : Seats.Inv s.seats
  movers : ∀ m ∈ s.movers, Knows s.db m.phase
  truth : Truth s.db

/-- What a step keeps, and what it did. -/
structure Goes (s : Sys) (a : Act) (t : Sys) : Prop where
  filed : Filed t.db
  seats : Seats.Inv t.seats
  movers : ∀ m ∈ t.movers, Knows t.db m.phase
  wrote : Wrote s a t.db

/-! ## The writers -/

section Writers

variable {sha256 : String → String} {db db' : Db} {k : Uuid} {c : SendCall} {now : ℕ} {l : Lease} {run id : Uuid}
  {m : Mover} {ph : Phase}

theorem send_accepted {seen : Db} {r : SentMessage}
    (h : send sha256 c.now seen c.auth c.id c.input c.message_id c.publish_key db = .ok (r, db')) :
    db' = db ∨ ∃ t, Accepted c t db db' := by
  have hroutes : ∀ t : Conversation,
      (update (fun x => x.id == t.id) (fun x => { x with last_seq := x.last_seq + 1 })
        db.conversations).map route = db.conversations.map route :=
    fun t => map_key_update fun _ => rfl
  rcases send_ok h with rfl | ⟨t, body, ht, -, -, hfresh, ⟨hsync, rfl⟩ | ⟨hout, hq⟩⟩
  · exact Or.inl rfl
  · refine Or.inr ⟨t, ht, hfresh, ⟨sent_row sha256 c.now c.auth t c.input body c.message_id, ?_, ?_, rfl⟩,
      Or.inl rfl, rfl, hroutes t, rfl, rfl, rfl⟩
    · rw [hsync]
      rfl
    · intro hp
      simpa [placed, sent_row] using hp
  · obtain rfl := enqueue_ok hq
    have hpending := set_state_insert .pending_publication
      (sent_row sha256 c.now c.auth t c.input body c.message_id) hfresh
    refine Or.inr ⟨t, ht, hfresh, ⟨_, ?_, ?_, hpending⟩, ?_, rfl, hroutes t, rfl, rfl, rfl⟩
    · rw [hout]
      rfl
    · intro hp
      simpa [placed, sent_row] using hp
    · by_cases hany : (db.conversation_outbox.any fun o => o.message_id == c.message_id) = true
      · exact Or.inl (if_pos hany)
      · refine Or.inr ⟨hout, slot_row c.now c.message_id c.id c.auth.team_id t.backend body c.publish_key,
          rfl, ?_, if_neg hany⟩
        simpa using hany

/-- A message that was accepted has a place only if it is stored, and if it is not, it has a
slot. -/
theorem Filed.accepted (h : Filed db) {t : Conversation} (hacc : Accepted c t db db') : Filed db' := by
  obtain ⟨row, hrow, hplaced, hmessages⟩ := hacc.message
  have hid : row.id = c.message_id := congrArg Prod.fst hrow
  have hkeep : ∀ q, q ∈ db.conversation_messages.map shown → q ∈ db'.conversation_messages.map shown := by
    intro q hq
    rw [hmessages, insert_into, List.map_append]
    exact List.mem_append_left _ hq
  have hin : (c.message_id, t.publication == .sync) ∈ db'.conversation_messages.map shown := by
    rw [hmessages, ← hrow]
    exact List.mem_map_of_mem (mem_insert_into.mpr (Or.inr rfl))
  refine ⟨?_, ?_, ?_, ?_, ?_, routes_of_map h hacc.routes⟩
  · rw [Db.MessagesKeyed, hmessages]
    exact h.messages.insert_into fun m hm => hid ▸ hacc.fresh m hm
  · rw [hmessages]
    refine forall_insert_into h.places fun hp => ?_
    have hsync := h.routes t (mem_of_one hacc.thread) (hplaced hp)
    have hst := congrArg Prod.snd hrow
    rw [hsync] at hst
    simpa [shown] using hst
  · rcases hacc.slots with hsame | ⟨-, o, ho, hnew, hslots⟩
    · rw [Db.SlotsKeyed, hsame]
      exact h.slot_keys
    · rw [Db.SlotsKeyed, hslots]
      exact h.slot_keys.insert_into fun x hx => ho ▸ hnew x hx
  · rcases hacc.slots with hsame | ⟨hout, o, ho, -, hslots⟩
    · rw [hsame]
      exact fun x hx => hkeep _ (h.slots x hx)
    · rw [hslots]
      refine forall_insert_into (fun x hx => hkeep _ (h.slots x hx)) ?_
      rw [hout] at hin
      rw [ho]
      exact hin
  · rw [hacc.items]
    exact fun i hi => hkeep _ (h.items i hi)

/-- A lease that holds a slot is of a message that waits. -/
theorem Filed.held (h : Filed db) (hheld : db.conversation_outbox.any (holds now l) = true) :
    Waiting db l.message_id ∧ ∃ o ∈ db.conversation_outbox, o.message_id = l.message_id ∧ holds now l o = true := by
  obtain ⟨o, ho, hholds⟩ := List.any_eq_true.mp hheld
  have hoid : o.message_id = l.message_id := by
    simp only [holds, Bool.and_eq_true, beq_iff_eq] at hholds
    exact hholds.1.1
  exact ⟨hoid ▸ h.slots o ho, o, ho, hoid, hholds⟩

/-- The messages once one of them is stored. -/
theorem shown_stored (k : Uuid) (locator : Locator) (t : List ConversationMessage) : (update (fun m => m.id == k)
      (fun m => { m with publication_state := .stored, canonical_locator := some locator }) t).map shown =
      t.map fun m => if m.id == k then (k, true) else shown m := by
  unfold update
  rw [List.map_map]
  refine List.map_congr_left fun m _ => ?_
  by_cases hid : (m.id == k) = true
  · simp only [Function.comp_apply, if_pos hid]
    rw [shown, beq_iff_eq.mp hid]
    rfl
  · simp only [Function.comp_apply, if_neg hid]

/-- What was shown of another message is shown of it still, and what was stored is. -/
theorem mem_shown_stored {t : List ConversationMessage} {j : Uuid} {b : Bool} (h : (j, b) ∈ t.map shown)
    (hwhich : j ≠ k ∨ b = true) : (j, b) ∈ t.map fun m => if m.id == k then (k, true) else shown m := by
  obtain ⟨m, hm, heq⟩ := List.mem_map.mp h
  have hmid : m.id = j := congrArg Prod.fst heq
  refine List.mem_map.mpr ⟨m, hm, ?_⟩
  by_cases hid : (m.id == k) = true
  · have hjk : j = k := hmid.symm.trans (beq_iff_eq.mp hid)
    rcases hwhich with hne | rfl
    · exact absurd hjk hne
    · rw [if_pos hid, hjk]
  · rw [if_neg hid, heq]

theorem keeps_stored (hshown : db'.conversation_messages.map shown =
      db.conversation_messages.map fun m => if m.id == k then (k, true) else shown m) (j : Uuid)
    (hj : Stored db j) : Stored db' j := by
  show _ ∈ List.map _ _
  rw [hshown]
  exact mem_shown_stored hj (Or.inr rfl)

/-- The message in a slot is stored, and the slot is gone. -/
theorem Filed.stored (h : Filed db) {locator : Locator} (hheld : db.conversation_outbox.any (holds now l) = true)
    (hslots : db'.conversation_outbox = delete (holds now l) db.conversation_outbox)
    (hmessages : db'.conversation_messages = update (fun m => m.id == l.message_id)
      (fun m => { m with publication_state := .stored, canonical_locator := some locator })
      db.conversation_messages)
    (hitems : db'.conversation_migration_items = db.conversation_migration_items)
    (hroutes : db'.conversations = db.conversations) : Filed db' := by
  obtain ⟨-, o, ho, hoid, hholds⟩ := h.held hheld
  have hshown := (congrArg (List.map shown) hmessages).trans (shown_stored _ _ _)
  refine ⟨?_, ?_, ?_, ?_, ?_, ?_⟩
  · rw [Db.MessagesKeyed, hmessages]
    exact h.messages.update fun _ => rfl
  · rw [hmessages]
    exact forall_update h.places fun _ _ _ _ _ => rfl
  · rw [Db.SlotsKeyed, hslots]
    exact h.slot_keys.delete _
  · -- the other slots are of other messages
    rw [hslots]
    intro x hx
    obtain ⟨hin, hnot⟩ := mem_delete.mp hx
    have hne : x.message_id ≠ l.message_id := by
      intro heq
      obtain rfl := h.slot_keys.eq hin ho (heq.trans hoid.symm)
      rw [hholds] at hnot
      cases hnot
    show _ ∈ List.map _ _
    rw [hshown]
    exact mem_shown_stored (h.slots x hin) (Or.inl hne)
  · rw [hitems]
    exact fun i hi => keeps_stored hshown _ (h.items i hi)
  · rw [hroutes]
    exact h.routes

theorem Filed.not_stored (h : Filed db) (hw : Waiting db k) :
    ∀ m ∈ db.conversation_messages, m.id = k → m.publication_state ≠ .stored := by
  rintro m hm rfl hst
  exact waiting_not_stored h.messages hw ((stored_iff h.messages hm).mpr hst)

/-- A message that waits may fail: it is not stored before or after. -/
theorem Filed.shown_failed (h : Filed db) (hw : Waiting db k) :
    (set_state .failed k db.conversation_messages).map shown = db.conversation_messages.map shown := by
  unfold set_state update
  rw [List.map_map]
  refine List.map_congr_left fun m hm => ?_
  by_cases hid : (m.id == k) = true
  · simp only [Function.comp_apply, if_pos hid, shown]
    have hne := h.not_stored hw m hm (beq_iff_eq.mp hid)
    rw [beq_eq_false_iff_ne.mpr hne]
    rfl
  · simp only [Function.comp_apply, if_neg hid]

theorem Filed.failed (h : Filed db) (hw : Waiting db k) {slots : List ConversationOutbox}
    (hslots : slots.map ConversationOutbox.message_id =
      db.conversation_outbox.map ConversationOutbox.message_id) :
    Filed { db with
      conversation_outbox := slots
      conversation_messages := set_state .failed k db.conversation_messages } := by
  refine h.same (h.shown_failed hw) ?_ hslots h.items h.routes
  refine forall_update h.places fun m hm hid hok hp => ?_
  exact absurd (hok hp) (h.not_stored hw m hm (beq_iff_eq.mp hid))

/-- A message that is verified in a run is stored. -/
theorem Filed.part (h : Filed db) {m : ConversationMessage}
    (hm : m ∈ db.conversation_messages) (hpart : (verified_part run db m).isSome = true) :
    m.publication_state = .stored := by
  obtain ⟨i, hi⟩ := Option.isSome_iff_exists.mp hpart
  have hp := pos_of_one hi
  simp only [Bool.and_eq_true, beq_iff_eq] at hp
  rw [← stored_iff h.messages hm, ← hp.2]
  exact h.items i (mem_of_one hi)

/-- A cutover declares stored what is. -/
theorem Filed.cut_over (h : Filed db) {run id copied bytes : ℕ} {d : Direction}
    (hok : cutover now run id d copied bytes db = .ok db') :
    Filed db' ∧ db'.conversation_messages.map shown = db.conversation_messages.map shown := by
  obtain rfl := cutover_ok hok
  have hstored : ∀ m ∈ db.conversation_messages, m.backend = .postgres → m.publication_state = .stored :=
    fun m hm hb => h.places m hm (by rw [placed, hb]; rfl)
  have hrow : ∀ m ∈ db.conversation_messages,
      shown (settled_row id d (moved run id d db m)) = shown m ∧
        (placed (settled_row id d (moved run id d db m)) = true →
          (settled_row id d (moved run id d db m)).publication_state = .stored) := by
    intro m hm
    rcases cut_over_row run id d db m with ⟨heq, -⟩ | ⟨i, hi, -, -, heq⟩ | ⟨-, -, hwhy, heq⟩ <;> rw [heq]
    · exact ⟨rfl, h.places m hm⟩
    · have hst := h.part hm (by rw [hi]; rfl)
      exact ⟨rfl, fun _ => hst⟩
    · have hst : m.publication_state = .stored := hwhy.elim (hstored m hm) (h.part hm)
      refine ⟨?_, fun _ => rfl⟩
      rw [shown, shown, hst]
  have hshown : (db.conversation_messages.map fun m =>
      settled_row id d (moved run id d db m)).map shown = db.conversation_messages.map shown := by
    rw [List.map_map]
    exact List.map_congr_left fun m hm => (hrow m hm).1
  refine ⟨h.same hshown ?_ rfl h.items ?_, hshown⟩
  · intro x hx
    obtain ⟨m, hm, rfl⟩ := List.mem_map.mp hx
    exact (hrow m hm).2
  · intro c hc
    obtain ⟨c₀, hc₀, rfl⟩ := List.mem_map.mp hc
    unfold routed
    split
    · intro hto
      simp only at hto ⊢
      rw [if_pos hto]
    · exact h.routes c₀ hc₀

/-- A statement about items alone: what it plans is stored. -/
theorem Filed.items_only (h : Filed db) {items : List ConversationMigrationItem}
    (hitems : ∀ i ∈ items, Stored db i.message_id) :
    Filed { db with conversation_migration_items := items } :=
  h.quiet rfl rfl hitems h.routes

theorem set_item_stored (h : Filed db) (run k : Uuid) {f : ConversationMigrationItem → ConversationMigrationItem}
    (hf : ∀ i, (f i).message_id = i.message_id) :
    ∀ i ∈ (set_item run k f db).conversation_migration_items, Stored db i.message_id :=
  forall_update h.items fun i _ _ hi => by rwa [hf i]

theorem plan_item_stored (h : Filed db) {body : String} (hk : Stored db k) :
    ∀ i ∈ (plan_item sha256 run k body db).conversation_migration_items, Stored db i.message_id := by
  intro i hi
  rcases mem_upsert hi with ⟨i₀, hi₀, rfl⟩ | ⟨rfl, -⟩
  · split
    · exact h.items i₀ hi₀
    · exact h.items i₀ hi₀
  · exact hk

theorem abort_leaves (now run : ℕ) (why : String) (db : Db) :
    (abort now run why db).message_receipts = db.message_receipts ∧
      (abort now run why db).message_recipients = db.message_recipients ∧
      (abort now run why db).conversation_memberships = db.conversation_memberships ∧
      (abort now run why db).conversation_messages.map filing = db.conversation_messages.map filing := by
  unfold abort
  split
  · exact ⟨rfl, rfl, rfl, rfl⟩
  · refine ⟨rfl, rfl, rfl, ?_⟩
    show List.map filing (if _ then _ else _) = _
    split
    · exact map_key_update fun _ => rfl
    · rfl

/-- Giving a run up clears bodies and pauses. -/
theorem Filed.aborted (h : Filed db) (now run : ℕ) (why : String) : Filed (abort now run why db) := by
  have hfilings := (abort_leaves now run why db).2.2.2
  unfold abort at hfilings ⊢
  cases hg : one (fun g => g.id == run && is_open g) db.conversation_migrations with
  | none => exact h
  | some g =>
    rw [hg] at hfilings
    exact h.quiet hfilings rfl h.items (forall_update h.routes fun _ _ _ hc => hc)

/-- A move lists the thread as it finds it. -/
theorem copy_rows_known (h : Filed db) (id : Uuid) : ∀ row ∈ copy_rows id db, RowKnown db row := by
  intro row hrow
  obtain ⟨m, hm, rfl⟩ := List.mem_map.mp hrow
  obtain ⟨hin, -⟩ := mem_select.mp hm
  intro hp
  refine (stored_iff h.messages hin).mpr (h.places m hin ?_)
  simpa [placed, copy_row] using hp

/-- What one statement of a move keeps, and what the move knows then. -/
theorem ran_keeps (h : Filed db) (hm : Knows db m.phase) (hran : Ran sha256 now id db m db' ph) :
    Filed db' ∧ db'.conversation_messages.map shown = db.conversation_messages.map shown ∧
      Knows db ph := by
  cases hran with
  | refused | joined _ _ _ | stopped => exact ⟨h, rfl, trivial⟩
  | opened _ _ _ _ => exact ⟨h.quiet rfl rfl h.items h.routes, rfl, trivial⟩
  | paused _ =>
    exact ⟨h.quiet rfl rfl h.items (forall_update h.routes fun _ _ _ hc => hc), rfl, trivial⟩
  | listed _ => exact ⟨h, rfl, copy_rows_known h _⟩
  | cut_over _ hok =>
    obtain ⟨hfiled, hshown⟩ := h.cut_over hok
    exact ⟨hfiled, hshown, trivial⟩
  | skipped hph _ =>
    rw [hph] at hm
    exact ⟨h, rfl, fun row hr => hm row (List.mem_cons_of_mem _ hr)⟩
  | taken hph _ hback =>
    rw [hph] at hm
    exact ⟨h, rfl, hm _ List.mem_cons_self (Or.inl hback), fun row hr => hm row (List.mem_cons_of_mem _ hr)⟩
  | asked hph _ _ hl =>
    rw [hph] at hm
    have hplace := hm _ List.mem_cons_self (Or.inr (by rw [hl]; rfl))
    exact ⟨h, rfl, hplace, fun row hr => hm row (List.mem_cons_of_mem _ hr)⟩
  | planned hph =>
    rw [hph] at hm
    exact ⟨h.items_only (plan_item_stored h hm.1), rfl, hm⟩
  | recalled hph _ _ | writes hph | compared hph _ _ =>
    rw [hph] at hm
    exact ⟨h, rfl, hm⟩
  | verified hph _ =>
    rw [hph] at hm
    exact ⟨h.items_only (set_item_stored h _ _ fun _ => rfl), rfl, hm.2⟩
  | wrote hph _ =>
    rw [hph] at hm
    have hfilings : ∀ k body, (write_back k body db).conversation_messages.map filing =
        db.conversation_messages.map filing := fun k body => map_key_update fun _ => rfl
    exact ⟨h.quiet (hfilings _ _) rfl h.items h.routes, shown_of_filings (hfilings _ _), hm⟩
  | recorded hph =>
    rw [hph] at hm
    exact ⟨h.items_only (set_item_stored h _ _ fun _ => rfl), rfl, hm⟩
  | differed _ => exact ⟨h.items_only (set_item_stored h _ _ fun _ => rfl), rfl, trivial⟩
  | given_up _ =>
    exact ⟨h.aborted now _ _, shown_of_filings (abort_leaves _ _ _ _).2.2.2, trivial⟩

/-- Whatever a move hears, it is about a message it has in hand. -/
theorem heard_knows {answer : Answer} (hm : Knows db m.phase) (h : Heard sha256 answer m ph) : Knows db ph := by
  cases h with
  | stopped => trivial
  | got hph _ | recognised hph _ _ | not_there hph | published hph _ | compared hph _ =>
    rw [hph] at hm
    exact hm

/-- No statement of a move writes a receipt, a recipient or a seat. -/
theorem ran_leaves (h : Ran sha256 now id db m db' ph) : db'.message_receipts = db.message_receipts ∧
      db'.message_recipients = db.message_recipients ∧
      db'.conversation_memberships = db.conversation_memberships := by
  cases h with
  | cut_over _ hok =>
    obtain rfl := cutover_ok hok
    exact ⟨rfl, rfl, rfl⟩
  | given_up _ =>
    obtain ⟨hreceipts, hrecipients, hseats, -⟩ := abort_leaves _ _ _ _
    exact ⟨hreceipts, hrecipients, hseats⟩
  | _ => exact ⟨rfl, rfl, rfl⟩

end Writers

/-! ## Every step is one of them -/

section Steps

variable {sha256 : String → String} {s t : Sys} {a : Act} {db' : Db} {db : Db} {m m' : Mover} {now : ℕ}
  {auth : AuthCtx} {id k : Uuid}

theorem seats_after (h : Seats.Inv s.seats) (hseats : db'.conversation_memberships = s.db.conversation_memberships) :
    Seats.Inv (s.after db').seats := by
  refine ⟨?_, ?_⟩
  · show Seats.Tidy db'.conversation_memberships
    rw [hseats]
    exact h.tidy
  · show ∀ v ∈ s.db :: s.past, Seats.Kept _ db'.conversation_memberships
    rw [hseats]
    intro v hv
    rcases List.mem_cons.mp hv with rfl | hv
    · exact Seats.Kept.refl _
    · exact h.past v hv

/-- What a commit of a step without moves has to keep. -/
theorem Inv.commits (hs : Inv s) (hfiled : Filed db') (hkeeps : ∀ k, Stored s.db k → Stored db' k)
    (hseats : db'.conversation_memberships = s.db.conversation_memberships) (hwrote : Wrote s a db') :
    Goes s a (s.after db') :=
  ⟨hfiled, seats_after hs.seats hseats, fun m hm => (hs.movers m hm).mono hkeeps, hwrote⟩

theorem keeps_of_shown (h : db'.conversation_messages.map shown = db.conversation_messages.map shown) (k : Uuid)
    (hk : Stored db k) : Stored db' k := by
  show _ ∈ List.map _ _
  rw [h]
  exact hk

/-- A step that says nothing of receipts. -/
theorem Inv.beside (hs : Inv s) (hfiled : Filed db')
    (hshown : db'.conversation_messages.map shown = s.db.conversation_messages.map shown)
    (hreceipts : db'.message_receipts = s.db.message_receipts)
    (hrecipients : db'.message_recipients = s.db.message_recipients)
    (hseats : db'.conversation_memberships = s.db.conversation_memberships) :
    Goes s a (s.after db') :=
  hs.commits hfiled (keeps_of_shown hshown) hseats (.nothing hshown hreceipts hrecipients)

theorem Inv.stays (hs : Inv s) : Goes s a s := ⟨hs.filed, hs.seats, hs.movers, .nothing rfl rfl rfl⟩

/-- A move goes on, and the database does not change. -/
theorem Inv.moves (hs : Inv s) (i : ℕ) (hm : Knows s.db m.phase) : Goes s a (s.move i m) := by
  refine ⟨hs.filed, hs.seats, ?_, .nothing rfl rfl rfl⟩
  intro x hx
  rcases List.mem_or_eq_of_mem_set hx with hx | rfl
  · exact hs.movers x hx
  · exact hm

theorem create_conversation_leaves {seen : Db} {input : CreateInput} {u : Uuid} {seats : List Uuid}
    (h : create_conversation now seen auth input id k seats db = .ok (u, db')) :
    ∃ c : Conversation, (c.backend = .postgres → c.publication = .sync) ∧ db' = { db with
      conversations := insert_into c db.conversations
      conversation_memberships := db'.conversation_memberships } := by
  simp only [create_conversation, bind_eq_ok, ensure_eq_ok, fetch_eq_ok, pure_eq_ok,
    Prod.mk.injEq] at h
  obtain ⟨_, -, _, -, _, -, invites, -, _, -, _, -, _, -, team, -, _, -, _, -, _, -, -, rfl⟩ := h
  refine ⟨_, ?_, rfl⟩
  intro hback
  exact if_pos hback

/-- A thread is opened, or a seat changes. -/
theorem seats_goes (hs : Inv s) {x : Seats.Act} {u : Seats.Sys} (hcaller : (Seats.seat_caller x).isSome = true)
    (h : Seats.step s.seats x = some u) : Goes s a { s with toCommitted := u.toCommitted } := by
  obtain ⟨auth, hauth⟩ := Option.isSome_iff_exists.mp hcaller
  have hseats := hs.seats.step h
  have hinv : Seats.Inv (Sys.seats { s with toCommitted := u.toCommitted }) := ⟨hseats.tidy, hseats.past⟩
  rcases Seats.step_seats h hauth with ⟨m, hdb⟩ | ⟨now, v, input, id, k, seats, n, hok⟩
  · have hsame : u.db = { s.db with conversation_memberships := m } := hdb
    refine ⟨?_, hinv, ?_, ?_⟩
    · show Filed u.db
      rw [hsame]
      exact hs.filed.quiet rfl rfl hs.filed.items hs.filed.routes
    · show ∀ m ∈ s.movers, Knows u.db m.phase
      rw [hsame]
      exact fun m hm => (hs.movers m hm).mono fun k hk => hk
    · show Wrote s a u.db
      rw [hsame]
      exact .nothing rfl rfl rfl
  · obtain ⟨c, hc, hdb⟩ := create_conversation_leaves hok
    have hsame : u.db = { s.db with
      conversations := insert_into c s.db.conversations
      conversation_memberships := u.db.conversation_memberships } := hdb
    refine ⟨?_, hinv, ?_, ?_⟩
    · show Filed u.db
      rw [hsame]
      exact hs.filed.quiet rfl rfl hs.filed.items (forall_insert_into hs.filed.routes hc)
    · show ∀ m ∈ s.movers, Knows u.db m.phase
      rw [hsame]
      exact fun m hm => (hs.movers m hm).mono fun k hk => hk
    · show Wrote s a u.db
      rw [hsame]
      exact .nothing rfl rfl rfl

/-- The seat an acknowledgement writes for is the caller's own. -/
theorem ack_goes (hs : Inv s) {seen : ℕ} {v : Db} {message_id : Uuid}
    {resolved : Bool} {note : Option String} (hv : s.view seen = some v)
    (h : ack now v auth message_id resolved note s.db = .ok (k, db')) :
    Goes s (.ack seen now auth message_id resolved note) (s.after db') := by
  obtain ⟨x, acc, mine, text, events, -, hacc, hmine, -, rfl, -, -, hasked, rfl⟩ := ack_ok h
  obtain ⟨r, -, hr⟩ := List.any_eq_true.mp hasked
  simp only [is_asked, Bool.and_eq_true, beq_iff_eq, List.any_eq_true] at hr
  obtain ⟨⟨-, hseat⟩, m, hm, hid, hactive⟩ := hr
  have hmid : m.id = mine.id := hid.trans hseat
  have hview : s.seats.view seen = some v := hv
  have hhome := Seats.source_home hs.seats hview hacc hmine hm hmid
  simp only [Seats.home, Prod.mk.injEq] at hhome
  have hfiled : Filed s.db := hs.filed
  have hrows : update (is_asked message_id mine.id s.db) (observed now resolved text) s.db.message_receipts =
      update (is_asked message_id m.id s.db) (observed now resolved text) s.db.message_receipts := by
    rw [hmid]
  exact hs.commits (hfiled.quiet rfl rfl hfiled.items hfiled.routes) (fun k hk => hk) rfl
    (.observed rfl hm hactive hhome.2.1 hhome.2.2 rfl hrows rfl)

/-- A lease changes what was tried, not what is queued. -/
theorem leased_goes (hs : Inv s) {p : ConversationOutbox → Bool} {attempt : ℕ} {worker : String} :
    Goes s a (s.after { s.db with
      conversation_outbox := update p (leased_row now worker attempt) s.db.conversation_outbox }) :=
  hs.beside (hs.filed.quiet rfl (map_key_update fun _ => rfl) hs.filed.items hs.filed.routes) rfl rfl rfl rfl

/-- An attempt is settled, if it still holds the slot. -/
theorem settle_goes (hs : Inv s) (now : ℕ) (l : Lease) (outcome : Published) :
    Goes s a (s.after (settle now l outcome s.db).2) := by
  have hfiled := hs.filed
  by_cases hheld : s.db.conversation_outbox.any (holds now l) = true
  · obtain ⟨hwaits, -⟩ := hfiled.held hheld
    have hids : ∀ {p : ConversationOutbox → Bool} {f : ConversationOutbox → ConversationOutbox},
        (∀ o, (f o).message_id = o.message_id) →
        (update p f s.db.conversation_outbox).map ConversationOutbox.message_id =
          s.db.conversation_outbox.map ConversationOutbox.message_id :=
      fun hf => map_key_update hf
    unfold settle
    rw [if_pos hheld]
    cases outcome with
    | Confirmed locator =>
      have hshown := shown_stored l.message_id locator s.db.conversation_messages
      exact hs.commits (hfiled.stored hheld rfl rfl rfl rfl) (keeps_stored hshown) rfl
        (.stored hwaits hshown rfl rfl)
    | Retryable why =>
      simp only
      split
      · exact hs.beside (hfiled.failed hwaits (hids fun _ => rfl)) (hfiled.shown_failed hwaits) rfl rfl rfl
      · exact hs.beside (hfiled.quiet rfl (hids fun _ => rfl) hfiled.items hfiled.routes) rfl rfl rfl rfl
    | Fatal why =>
      exact hs.beside (hfiled.failed hwaits (hids fun _ => rfl)) (hfiled.shown_failed hwaits) rfl rfl rfl
  · unfold settle
    rw [if_neg hheld]
    exact hs.beside hfiled rfl rfl rfl rfl

/-- What one statement of a move did. -/
theorem statement_goes (hs : Inv s) {i : ℕ} (hm : s.movers[i]? = some m)
    (h : statement sha256 now id s.db m = some (db', m')) : Goes s a ((s.after db').move i m') := by
  obtain ⟨ph, rfl, hran⟩ := statement_ran h
  obtain ⟨hfiled, hshown, hknows⟩ := ran_keeps hs.filed (hs.movers m (List.mem_of_getElem? hm)) hran
  obtain ⟨hreceipts, hrecipients, hseats⟩ := ran_leaves hran
  have hkeeps := keeps_of_shown hshown
  refine ⟨hfiled, seats_after hs.seats hseats, ?_, .nothing hshown hreceipts hrecipients⟩
  intro x hx
  rcases List.mem_or_eq_of_mem_set hx with hx | rfl
  · exact (hs.movers x hx).mono hkeeps
  · exact hknows.mono hkeeps

/-- What `broken` makes of a move is over, or about to be given up. -/
theorem broken_knows {why : String} (h : broken why m = some m') : Knows db m'.phase := by
  rcases broken_stopped h with ⟨e, rfl⟩ | ⟨run, e, rfl⟩ <;> trivial

theorem other_goes (hs : Inv s) (h : leaves_receipts s.db db' = true) : Goes s a (s.after db') := by
  simp only [leaves_receipts, Bool.and_eq_true, beq_iff_eq] at h
  obtain ⟨⟨⟨⟨⟨⟨hreceipts, hrecipients⟩, hseats⟩, hfilings⟩, hslots⟩, hitems⟩, hroutes⟩ := h
  refine hs.beside (hs.filed.quiet hfilings hslots ?_ (routes_of_map hs.filed hroutes))
    (shown_of_filings hfilings) hreceipts hrecipients hseats
  rw [hitems]
  exact hs.filed.items

/-- **Every step** does one of the five things. -/
theorem step_goes (hs : Inv s) (h : step sha256 s a = some t) : Goes s a t := by
  cases a with
  | seats x =>
    simp only [step, Option.ite_none_right_eq_some, Option.map_eq_some_iff] at h
    obtain ⟨hcaller, u, hu, rfl⟩ := h
    exact seats_goes hs hcaller hu
  | send c =>
    simp only [step, Option.bind_eq_bind, Option.bind_eq_some_iff, Option.pure_def,
      Option.some.injEq] at h
    obtain ⟨v, -, rfl⟩ := h
    unfold Sys.commit
    rcases conclude_cases (fun q => s.after q.2)
      (send sha256 c.now v c.auth c.id c.input c.message_id c.publish_key s.db) with heq | ⟨⟨r, db'⟩, hok, heq⟩
    · rw [heq]
      exact hs.stays
    · rw [heq]
      rcases send_accepted hok with rfl | ⟨th, hacc⟩
      · exact hs.beside hs.filed rfl rfl rfl rfl
      · refine hs.commits (hs.filed.accepted hacc) ?_ hacc.seats (.accepted rfl hacc)
        obtain ⟨row, -, -, hmessages⟩ := hacc.message
        intro k hk
        show _ ∈ List.map _ _
        rw [hmessages, insert_into, List.map_append]
        exact List.mem_append_left _ hk
  | ack seen now auth message_id resolved note =>
    simp only [step, Option.bind_eq_bind, Option.bind_eq_some_iff, Option.pure_def,
      Option.some.injEq] at h
    obtain ⟨v, hv, rfl⟩ := h
    unfold Sys.commit
    rcases conclude_cases (fun q => s.after q.2) (ack now v auth message_id resolved note s.db)
      with heq | ⟨⟨k, db'⟩, hok, heq⟩
    · rw [heq]
      exact hs.stays
    · rw [heq]
      exact ack_goes hs hv hok
  | fetch seen now b answer auth limit =>
    simp only [step, Option.bind_eq_bind, Option.bind_eq_some_iff, Option.pure_def,
      Option.some.injEq] at h
    obtain ⟨v, -, rfl⟩ := h
    cases hok : Inbox.fetch now v b answer auth limit s.db with
    | error e => exact hs.stays
    | ok q =>
      obtain ⟨batch, calls, db'⟩ := q
      obtain ⟨deliveries, rfl⟩ := Inbox.fetch_delivers hok
      exact hs.beside (hs.filed.quiet rfl rfl hs.filed.items hs.filed.routes) rfl rfl rfl rfl
  | confirm seen now b auth delivery_ids =>
    simp only [step, Option.bind_eq_bind, Option.bind_eq_some_iff, Option.pure_def,
      Option.some.injEq] at h
    obtain ⟨v, -, rfl⟩ := h
    cases hok : Inbox.confirm now v b auth delivery_ids s.db with
    | error e => exact hs.stays
    | ok q =>
      simp only [Inbox.confirm, bind_eq_ok, ensure_eq_ok, pure_eq_ok] at hok
      obtain ⟨_, -, _, -, _, -, ids, -, _, -, rfl⟩ := hok
      exact hs.commits (hs.filed.quiet rfl rfl hs.filed.items hs.filed.routes) (fun k hk => hk) rfl
        (.delivered rfl rfl rfl)
  | lease now worker locked =>
    simp only [step, Option.map_eq_some_iff, lease, Option.bind_eq_bind, Option.bind_eq_some_iff,
      Option.pure_def, Option.some.injEq] at h
    obtain ⟨_, ⟨o, -, rfl⟩, rfl⟩ := h
    exact leased_goes hs
  | lease_one now worker message_id =>
    simp only [step, Option.map_eq_some_iff, lease_one, Option.bind_eq_bind, Option.bind_eq_some_iff,
      Option.pure_def, Option.some.injEq] at h
    obtain ⟨_, ⟨o, -, rfl⟩, rfl⟩ := h
    exact leased_goes hs
  | settle now l outcome =>
    obtain rfl := Option.some.inj h
    exact settle_goes hs now l outcome
  | start team_id conversation_id direction =>
    simp only [step, Option.ite_none_right_eq_some, Option.some.injEq] at h
    obtain ⟨-, rfl⟩ := h
    refine ⟨hs.filed, hs.seats, ?_, .nothing rfl rfl rfl⟩
    intro m hm
    rcases List.mem_append.mp hm with hm | hm
    · exact hs.movers m hm
    · rw [List.mem_singleton.mp hm]
      trivial
  | statement i now id =>
    simp only [step, Option.bind_eq_bind, Option.bind_eq_some_iff, Option.pure_def,
      Option.some.injEq, Prod.exists] at h
    obtain ⟨m, hm, db', m', hst, rfl⟩ := h
    exact statement_goes hs hm hst
  | told i answer =>
    simp only [step, Option.bind_eq_bind, Option.bind_eq_some_iff, Option.pure_def,
      Option.some.injEq] at h
    obtain ⟨m, hm, m', htold, rfl⟩ := h
    obtain ⟨ph, rfl, hheard⟩ := told_heard htold
    exact hs.moves i (heard_knows (hs.movers m (List.mem_of_getElem? hm)) hheard)
  | broken i why =>
    simp only [step, Option.bind_eq_bind, Option.bind_eq_some_iff, Option.pure_def,
      Option.some.injEq] at h
    obtain ⟨m, -, m', hbroken, rfl⟩ := h
    exact hs.moves i (broken_knows hbroken)
  | abort now migration_id why =>
    obtain rfl := Option.some.inj h
    obtain ⟨hreceipts, hrecipients, hseats, hfilings⟩ := abort_leaves now migration_id why s.db
    exact hs.beside (hs.filed.aborted now migration_id why) (shown_of_filings hfilings) hreceipts
      hrecipients hseats
  | other db' =>
    simp only [step, Option.ite_none_right_eq_some, Option.some.injEq] at h
    obtain ⟨hl, rfl⟩ := h
    exact other_goes hs hl

end Steps

/-! ## What becomes of a receipt -/

section Marks

variable {s : Sys} {a : Act} {db db' : Db} {r r' r'' : MessageReceipt} {o : Option ℕ} {p : MessageReceipt → Bool}
  {f : MessageReceipt → MessageReceipt} {c : SendCall} {th : Conversation}

theorem Marked.refl (r : MessageReceipt) : Marked r r := ⟨fun _ => rfl, fun _ => rfl, fun _ => rfl, fun _ => rfl⟩

theorem set_stays {o' o'' : Option ℕ} (h : o.isSome = true → o' = o) (h' : o'.isSome = true → o'' = o')
    (hset : o.isSome = true) : o'' = o := by
  have hsame := h hset
  rw [hsame] at h'
  exact h' hset

theorem Marked.trans (h : Marked r r') (h' : Marked r' r'') : Marked r r'' :=
  ⟨set_stays h.stored h'.stored, set_stays h.delivered h'.delivered,
    set_stays h.acknowledged h'.acknowledged, set_stays h.resolved h'.resolved⟩

/-- `COALESCE(x, now())` keeps what is set. -/
theorem coalesce_keeps {now : ℕ} (h : o.isSome = true) : some (o.getD now) = o := by
  obtain ⟨x, rfl⟩ := Option.isSome_iff_exists.mp h
  rfl

theorem stored_row_marked (now : ℕ) (r : MessageReceipt) : Marked r (stored_row now r) :=
  ⟨coalesce_keeps, fun _ => rfl, fun _ => rfl, fun _ => rfl⟩

theorem delivered_row_marked (now : ℕ) (r : MessageReceipt) : Marked r (delivered_row now r) :=
  ⟨fun _ => rfl, coalesce_keeps, fun _ => rfl, fun _ => rfl⟩

theorem observed_marked (now : ℕ) (resolved : Bool) (text : Option String) (r : MessageReceipt) :
    Marked r (observed now resolved text r) := by
  refine ⟨fun _ => rfl, fun _ => rfl, coalesce_keeps, ?_⟩
  intro hset
  show (if resolved then _ else _) = _
  split
  · exact coalesce_keeps hset
  · rfl

/-- A receipt through an `UPDATE` that keeps what is set. -/
theorem marked_update
    {rows : List MessageReceipt} (hf : ∀ r, Marked r (f r)) (hpair : ∀ r, pair (f r) = pair r) (hr : r ∈ rows) :
    ∃ r' ∈ update p f rows, pair r' = pair r ∧ Marked r r' := by
  refine ⟨_, mem_update_of_mem hr, ?_⟩
  by_cases hp : p r = true
  · rw [if_pos hp]
    exact ⟨hpair r, hf r⟩
  · rw [if_neg hp]
    exact ⟨rfl, Marked.refl r⟩

/-- A receipt stays, and with it every mark that is set. -/
theorem Wrote.marked (h : Wrote s a db') (hr : r ∈ s.db.message_receipts) :
    ∃ r' ∈ db'.message_receipts, pair r' = pair r ∧ Marked r r' := by
  cases h with
  | nothing _ hreceipts _ =>
    rw [hreceipts]
    exact ⟨r, hr, rfl, Marked.refl r⟩
  | accepted _ hacc =>
    rw [hacc.receipts]
    exact ⟨r, List.mem_append_left _ hr, rfl, Marked.refl r⟩
  | stored _ _ hreceipts _ =>
    rw [hreceipts]
    exact marked_update (stored_row_marked _) (fun _ => rfl) hr
  | observed _ _ _ _ _ _ hreceipts _ =>
    rw [hreceipts]
    exact marked_update (observed_marked _ _ _) (fun _ => rfl) hr
  | delivered _ hreceipts _ =>
    rw [hreceipts]
    exact marked_update (delivered_row_marked _) (fun _ => rfl) hr

/-- The receipts of a message that is accepted are new. -/
theorem Truth.fresh (h : Truth db) (hacc : Accepted c th db db') :
    ∀ r ∈ db.message_receipts, r.message_id ≠ c.message_id := by
  intro r hr heq
  obtain ⟨m, hm, hshown⟩ := List.mem_map.mp (h.stored r hr)
  exact hacc.fresh m hm ((congrArg Prod.fst hshown).trans heq)

/-- A receipt's columns are rewritten in place, and say what is so. -/
theorem Truth.rewritten (h : Truth db) (hreceipts : db'.message_receipts = update p f db.message_receipts)
    (hrecipients : db'.message_recipients = db.message_recipients) (hpair : ∀ r, pair (f r) = pair r)
    (hresolved : ∀ r, (r.resolved_at.isSome = true → r.acknowledged_at.isSome = true) →
      (f r).resolved_at.isSome = true → (f r).acknowledged_at.isSome = true)
    (hstored : ∀ r ∈ update p f db.message_receipts,
      (r.message_id, r.stored_at.isSome) ∈ db'.conversation_messages.map shown) : Truth db' := by
  refine ⟨?_, ?_, ?_, ?_⟩
  · rw [hreceipts, hrecipients, map_key_update hpair]
    exact h.recipients
  · rw [hreceipts]
    exact h.keyed.update hpair
  · rw [hreceipts]
    exact forall_update h.resolved fun r _ _ hr => hresolved r hr
  · rw [hreceipts]
    exact hstored

/-- A rewriting that leaves `stored_at` alone, of the messages as they are. -/
theorem Truth.unstored (h : Truth db) (hf : ∀ r, (f r).message_id = r.message_id ∧ (f r).stored_at = r.stored_at)
    (hshown : db'.conversation_messages.map shown = db.conversation_messages.map shown) :
    ∀ r ∈ update p f db.message_receipts,
      (r.message_id, r.stored_at.isSome) ∈ db'.conversation_messages.map shown := by
  rw [hshown]
  refine forall_update h.stored fun r _ _ hr => ?_
  rw [(hf r).1, (hf r).2]
  exact hr

theorem Truth.accepted (h : Truth db) (hseats : Seats.Tidy db.conversation_memberships)
    (hacc : Accepted c th db db') : Truth db' := by
  obtain ⟨row, hrow, -, hmessages⟩ := hacc.message
  have hnew : ∀ r ∈ (addressed c.auth th db).map (fun m =>
      receipt_row c.now (th.publication == .outbox) c.message_id m.id),
      r.message_id = c.message_id ∧ r.resolved_at = none ∧
        r.stored_at.isSome = (th.publication == .sync) := by
    intro r hr
    obtain ⟨m, -, rfl⟩ := List.mem_map.mp hr
    refine ⟨rfl, rfl, ?_⟩
    unfold receipt_row
    cases th.publication <;> rfl
  refine ⟨?_, ?_, ?_, ?_⟩
  · rw [hacc.receipts, hacc.recipients, List.map_append, List.map_append, h.recipients, List.map_map,
      List.map_map]
    rfl
  · rw [hacc.receipts]
    refine keyed_append.mpr ⟨h.keyed, ?_, ?_⟩
    · -- one receipt for each seat
      unfold Keyed
      rw [List.map_map]
      have hids : ((addressed c.auth th db).map ConversationMembership.id).Nodup :=
        List.Nodup.sublist (List.Sublist.map _ List.filter_sublist) hseats.ids
      have hpairs := hids.map (f := fun k : Uuid => (c.message_id, k)) fun j k hjk => (Prod.mk.inj hjk).2
      rw [List.map_map] at hpairs
      exact hpairs
    · intro x hx y hy hxy
      refine h.fresh hacc x hx ?_
      rw [← (hnew y hy).1]
      exact congrArg Prod.fst hxy
  · rw [hacc.receipts]
    intro r hr hres
    rcases List.mem_append.mp hr with hr | hr
    · exact h.resolved r hr hres
    · rw [(hnew r hr).2.1] at hres
      cases hres
  · rw [hacc.receipts, hmessages, insert_into, List.map_append]
    intro r hr
    rcases List.mem_append.mp hr with hr | hr
    · exact List.mem_append_left _ (h.stored r hr)
    · rw [(hnew r hr).1, (hnew r hr).2.2, ← hrow]
      exact List.mem_append_right _ (List.mem_singleton.mpr rfl)

/-- Receipts tell the truth after every step. -/
theorem Truth.wrote (h : Truth s.db) (hseats : Seats.Tidy s.db.conversation_memberships)
    (hw : Wrote s a db') : Truth db' := by
  cases hw with
  | nothing hshown hreceipts hrecipients =>
    refine ⟨?_, ?_, ?_, ?_⟩
    · rw [hreceipts, hrecipients]
      exact h.recipients
    · rw [hreceipts]
      exact h.keyed
    · rw [hreceipts]
      exact h.resolved
    · rw [hreceipts, hshown]
      exact h.stored
  | accepted _ hacc => exact h.accepted hseats hacc
  | @stored now k hwaits hshown hreceipts hrecipients =>
    refine h.rewritten hreceipts hrecipients (fun _ => rfl) (fun _ hr => hr) ?_
    intro r' hr'
    obtain ⟨r, hr, rfl⟩ := mem_update.mp hr'
    rw [hshown]
    by_cases hk : (r.message_id == k) = true
    · -- a receipt of the message that is stored
      rw [if_pos hk]
      obtain ⟨m, hm, heq⟩ := List.mem_map.mp (h.stored r hr)
      have hmid : m.id = k := (congrArg Prod.fst heq).trans (beq_iff_eq.mp hk)
      refine List.mem_map.mpr ⟨m, hm, ?_⟩
      rw [if_pos (by simpa using hmid)]
      show (k, true) = (r.message_id, true)
      rw [beq_iff_eq.mp hk]
    · rw [if_neg hk]
      exact mem_shown_stored (h.stored r hr) (Or.inl (by simpa using hk))
  | @observed seen now auth k m resolved note text hact hm hactive hag hse hshown hreceipts hrecipients =>
    exact h.rewritten hreceipts hrecipients (fun _ => rfl) (fun _ _ _ => rfl)
      (h.unstored (fun _ => ⟨rfl, rfl⟩) hshown)
  | delivered hshown hreceipts hrecipients =>
    exact h.rewritten hreceipts hrecipients (fun _ => rfl) (fun _ hr => hr)
      (h.unstored (fun _ => ⟨rfl, rfl⟩) hshown)

end Marks

/-! ## Over runs -/

section Runs

variable {sha256 : String → String} {s₀ s t : Sys} {a : Act} {db db' : Db} {tr : List (Trans Sys Act)}
  {th : Conversation}

theorem Inv.step (hs : Inv s) (h : step sha256 s a = some t) : Inv t := by
  have hgoes := step_goes hs h
  exact ⟨hgoes.filed, hgoes.seats, hgoes.movers, hs.truth.wrote hs.seats.tidy hgoes.wrote⟩

/-- A message that is there is there after a step, and every other is one the step accepted. -/
theorem Wrote.messages (h : Wrote s a db') : ∀ m' ∈ db'.conversation_messages,
    (∃ m ∈ s.db.conversation_messages, m.id = m'.id) ∨
      ∃ c th, a = .send c ∧ Accepted c th s.db db' ∧ m'.id = c.message_id := by
  have hsame : ∀ {l : List (Uuid × Bool)}, db'.conversation_messages.map shown = l →
      (∀ q ∈ l, ∃ m ∈ s.db.conversation_messages, m.id = q.1) → ∀ m' ∈ db'.conversation_messages,
      ∃ m ∈ s.db.conversation_messages, m.id = m'.id := by
    intro l hl hin m' hm'
    have hq : shown m' ∈ l := hl ▸ List.mem_map_of_mem hm'
    exact hin _ hq
  have hthere : ∀ q ∈ s.db.conversation_messages.map shown, ∃ m ∈ s.db.conversation_messages, m.id = q.1 := by
    intro q hq
    obtain ⟨m, hm, rfl⟩ := List.mem_map.mp hq
    exact ⟨m, hm, rfl⟩
  cases h with
  | nothing hshown _ _ | observed _ _ _ _ _ hshown _ _ | delivered hshown _ _ => exact fun m' hm' => Or.inl (hsame hshown hthere m' hm')
  | @accepted c th hact hacc =>
    intro m' hm'
    obtain ⟨row, hrow, -, hmessages⟩ := hacc.message
    rw [hmessages] at hm'
    rcases mem_insert_into.mp hm' with hm' | rfl
    · exact Or.inl ⟨m', hm', rfl⟩
    · exact Or.inr ⟨c, th, hact, hacc, congrArg Prod.fst hrow⟩
  | @stored now k _ hshown _ _ =>
    refine fun m' hm' => Or.inl (hsame hshown ?_ m' hm')
    intro q hq
    obtain ⟨m, hm, rfl⟩ := List.mem_map.mp hq
    refine ⟨m, hm, ?_⟩
    split
    · rename_i hid
      exact beq_iff_eq.mp hid
    · rfl

theorem asked_of_pairs (k : Uuid)
    (h : db'.message_receipts.map pair = db.message_receipts.map pair) : asked_of k db' = asked_of k db := by
  have hof : ∀ rows : List MessageReceipt,
      (rows.filter fun r => r.message_id == k).map MessageReceipt.membership_id =
        ((rows.map pair).filter fun q => q.1 == k).map Prod.snd := by
    intro rows
    rw [List.filter_map, List.map_map]
    rfl
  unfold asked_of
  rw [hof, hof, h]

/-- Nobody is asked later about a message that is there. -/
theorem Wrote.asked (h : Wrote s a db') {m : ConversationMessage} (hm : m ∈ s.db.conversation_messages) :
    asked_of m.id db' = asked_of m.id s.db := by
  cases h with
  | nothing _ hreceipts _ => exact asked_of_pairs _ (congrArg (List.map pair) hreceipts)
  | @accepted c th _ hacc =>
    unfold asked_of
    rw [hacc.receipts, List.filter_append, List.map_append]
    have hnone : ((addressed c.auth th s.db).map fun x =>
        receipt_row c.now (th.publication == .outbox) c.message_id x.id).filter
          (fun r => r.message_id == m.id) = [] := by
      refine List.filter_eq_nil_iff.mpr fun r hr => ?_
      obtain ⟨x, -, rfl⟩ := List.mem_map.mp hr
      simpa [receipt_row] using (hacc.fresh m hm).symm
    rw [hnone, List.map_nil, List.append_nil]
  | stored _ _ hreceipts _ | observed _ _ _ _ _ _ hreceipts _ | delivered _ hreceipts _ =>
    exact asked_of_pairs _ ((congrArg (List.map pair) hreceipts).trans (map_key_update fun _ => rfl))

theorem mem_addressed {auth : AuthCtx} {x : ConversationMembership} :
    x ∈ addressed auth th db ↔ x ∈ db.conversation_memberships ∧ IsFor auth th db x := by
  unfold addressed IsFor granted
  rw [List.mem_filter]
  refine and_congr_right fun _ => ?_
  simp only [Bool.and_eq_true, beq_iff_eq, Bool.not_eq_true', Bool.and_eq_false_iff, beq_eq_false_iff_ne,
    Bool.or_eq_true, bne_iff_ne, List.any_eq_true, and_assoc]
  refine and_congr_right fun _ => and_congr_right fun _ => and_congr ?_ ?_
  · exact not_and_or.symm
  · exact imp_iff_not_or.symm

/-- The seats asked about a message that was accepted are those it was for. -/
theorem Accepted.asked (h : Truth db) {c : SendCall} (hacc : Accepted c th db db')
    (k : Uuid) : k ∈ asked_of c.message_id db' ↔
      ∃ x ∈ db.conversation_memberships, x.id = k ∧ IsFor c.auth th db x := by
  have hold : db.message_receipts.filter (fun r => r.message_id == c.message_id) = [] := by
    refine List.filter_eq_nil_iff.mpr fun r hr => ?_
    simpa using h.fresh hacc r hr
  have hnew : ((addressed c.auth th db).map fun x =>
      receipt_row c.now (th.publication == .outbox) c.message_id x.id).filter
        (fun r => r.message_id == c.message_id) = (addressed c.auth th db).map fun x =>
      receipt_row c.now (th.publication == .outbox) c.message_id x.id := by
    refine List.filter_eq_self.mpr fun r hr => ?_
    obtain ⟨x, -, rfl⟩ := List.mem_map.mp hr
    simp [receipt_row]
  unfold asked_of
  rw [hacc.receipts, List.filter_append, hold, hnew, List.nil_append, List.map_map]
  simp only [List.mem_map, Function.comp_apply, mem_addressed]
  constructor
  · rintro ⟨x, ⟨hx, hfor⟩, rfl⟩
    exact ⟨x, hx, rfl, hfor⟩
  · rintro ⟨x, hx, rfl, hfor⟩
    exact ⟨x, ⟨hx, hfor⟩, rfl⟩

/-- An observation that a step wrote is the window's own. -/
theorem Wrote.own (h : Wrote s a t.db) (hs : Truth s.db) : ∀ r' ∈ t.db.message_receipts,
    (∃ r ∈ s.db.message_receipts, pair r = pair r' ∧ r'.acknowledged_at = r.acknowledged_at ∧
      r'.resolved_at = r.resolved_at) ∨ (∀ r ∈ s.db.message_receipts, pair r ≠ pair r') ∧ r'.acknowledged_at = none ∧
      r'.resolved_at = none ∨
    by_own_window r' ⟨s, a, t⟩ := by
  intro r' hr'
  have hquiet : ∀ {p : MessageReceipt → Bool} {f : MessageReceipt → MessageReceipt},
      r' ∈ update p f s.db.message_receipts → (∀ r, pair (f r) = pair r ∧
        (f r).acknowledged_at = r.acknowledged_at ∧ (f r).resolved_at = r.resolved_at) →
      ∃ r ∈ s.db.message_receipts, pair r = pair r' ∧ r'.acknowledged_at = r.acknowledged_at ∧
        r'.resolved_at = r.resolved_at := by
    intro p f hin hf
    obtain ⟨r, hr, rfl⟩ := mem_update.mp hin
    refine ⟨r, hr, ?_⟩
    split
    · exact ⟨(hf r).1.symm, (hf r).2⟩
    · exact ⟨rfl, rfl, rfl⟩
  cases h with
  | nothing _ hreceipts _ =>
    rw [hreceipts] at hr'
    exact Or.inl ⟨r', hr', rfl, rfl, rfl⟩
  | accepted _ hacc =>
    rw [hacc.receipts] at hr'
    rcases List.mem_append.mp hr' with hr' | hr'
    · exact Or.inl ⟨r', hr', rfl, rfl, rfl⟩
    · obtain ⟨x, -, rfl⟩ := List.mem_map.mp hr'
      refine Or.inr (Or.inl ⟨fun r hr heq => ?_, rfl, rfl⟩)
      exact hs.fresh hacc r hr (congrArg Prod.fst heq)
  | stored _ _ hreceipts _ | delivered _ hreceipts _ =>
    rw [hreceipts] at hr'
    exact Or.inl (hquiet hr' fun _ => ⟨rfl, rfl, rfl⟩)
  | @observed seen now auth k m resolved note text hact hm hactive hagent hsession _ hreceipts _ =>
    rw [hreceipts] at hr'
    obtain ⟨r, hr, rfl⟩ := mem_update.mp hr'
    by_cases hp : is_asked k m.id s.db r = true
    · rw [if_pos hp]
      simp only [is_asked, Bool.and_eq_true, beq_iff_eq] at hp
      exact Or.inr (Or.inr ⟨seen, now, auth, resolved, note, hp.1.1 ▸ hact, m, hm, hp.1.2.symm, hagent,
        hsession, hactive⟩)
    · rw [if_neg hp]
      exact Or.inl ⟨r, hr, rfl, rfl, rfl⟩

/-- Each message of a state reached was there at the start or accepted on the way, and is
asked about at the seats it was for. -/
theorem snapshots (h₀ : Inv s₀) (h : Run (Rel (step sha256)) s₀ tr s) :
    ∀ m ∈ s.db.conversation_messages,
      (∃ m₀ ∈ s₀.db.conversation_messages, m₀.id = m.id ∧ asked_of m.id s.db = asked_of m.id s₀.db) ∨
        ∃ e ∈ tr, ∃ auth th, accepts m.id auth th e ∧ ∀ k, k ∈ asked_of m.id s.db ↔
          ∃ x ∈ e.pre.db.conversation_memberships, x.id = k ∧ IsFor auth th e.pre.db x := by
  induction h with
  | nil => exact fun m hm => Or.inl ⟨m, hm, rfl, rfl⟩
  | @snoc tr s t a hrun hr ih =>
    have hs : Inv s := hrun.invariant' (I := Inv) h₀ fun _ _ _ hu hstep => hu.step hstep
    have hwrote := (step_goes hs hr).wrote
    intro m' hm'
    rcases hwrote.messages m' hm' with ⟨m, hm, hid⟩ | ⟨c, th, rfl, hacc, hid⟩
    · -- it was there before this step
      have hsame := hwrote.asked hm
      rw [hid] at hsame
      rcases ih m hm with ⟨m₀, hm₀, hid₀, hold⟩ | ⟨e, he, auth, th, hacc, hfor⟩
      · refine Or.inl ⟨m₀, hm₀, hid₀.trans hid, ?_⟩
        rw [hsame, ← hid]
        exact hold
      · refine Or.inr ⟨e, List.mem_append_left _ he, auth, th, hid ▸ hacc, fun k => ?_⟩
        rw [hsame, ← hid]
        exact hfor k
    · refine Or.inr ⟨_, List.mem_append_right _ (List.mem_singleton.mpr rfl), c.auth, th, ?_, fun k => ?_⟩
      · refine ⟨c, rfl, hid.symm, rfl, hacc.thread, ?_, m', hm', rfl⟩
        rw [hid]
        exact hacc.fresh
      · rw [hid]
        exact hacc.asked hs.truth k

/-- A receipt stays through a run, and every mark that is set stays with it. -/
theorem marks_stay (h₀ : Inv s₀) (h : Run (Rel (step sha256)) s₀ tr s) :
    ∀ r ∈ s₀.db.message_receipts, ∃ r' ∈ s.db.message_receipts, pair r' = pair r ∧ Marked r r' := by
  intro r hr
  have hboth : Inv s ∧ ∃ r' ∈ s.db.message_receipts, pair r' = pair r ∧ Marked r r' := by
    refine h.invariant' (I := fun u => Inv u ∧ ∃ r' ∈ u.db.message_receipts, pair r' = pair r ∧ Marked r r')
      ⟨h₀, r, hr, rfl, Marked.refl r⟩ ?_
    rintro u a v ⟨hu, r', hr', hpair, hmarked⟩ hstep
    obtain ⟨r'', hr'', hpair', hmarked'⟩ := (step_goes hu hstep).wrote.marked hr'
    exact ⟨hu.step hstep, r'', hr'', hpair'.trans hpair, hmarked.trans hmarked'⟩
  exact hboth.2

/-- **Receipts tell the truth**, in every run. -/
theorem receipts_tell_the_truth (h₀ : Inv s₀) (h : Run (Rel (step sha256)) s₀ tr s) :
    ReceiptLaw s₀ tr s := by
  have hinv : Inv s := h.invariant' (I := Inv) h₀ fun _ _ _ hu hstep => hu.step hstep
  have hpre : ∀ e ∈ tr, Inv e.pre :=
    h.invariant_pre (I := Inv) (C := fun _ _ => True) h₀ (fun _ _ _ hu _ hstep => hu.step hstep)
      fun _ _ => trivial
  refine ⟨fun m hm => ⟨?_, snapshots h₀ h m hm⟩, hinv.truth.recipients, ?_, ?_, ?_⟩
  · -- one receipt for each seat
    unfold asked_of
    have hnodup : (s.db.message_receipts.filter fun r => r.message_id == m.id).Nodup :=
      (List.Nodup.of_map pair hinv.truth.keyed).filter _
    refine (List.nodup_map_iff_inj_on hnodup).mpr fun r hr r' hr' heq => ?_
    obtain ⟨hin, hmsg⟩ := List.mem_filter.mp hr
    obtain ⟨hin', hmsg'⟩ := List.mem_filter.mp hr'
    refine hinv.truth.keyed.eq hin hin' (Prod.ext ?_ heq)
    exact (beq_iff_eq.mp hmsg).trans (beq_iff_eq.mp hmsg').symm
  · intro e he r hr
    obtain ⟨tr₁, tr₂, rfl⟩ := List.append_of_mem he
    obtain ⟨-, hrel, hafter⟩ := h.split
    obtain ⟨r', hr', hpair, hmarked⟩ := marks_stay (hpre e he) ((Run.single hrel).append hafter) r hr
    exact ⟨r', hr', hpair, fun r'' hr'' hp => hinv.truth.keyed.eq hr'' hr' (hp.trans hpair.symm), hmarked⟩
  · intro r hr
    refine ⟨hinv.truth.resolved r hr, ?_⟩
    obtain ⟨m, hm, heq⟩ := List.mem_map.mp (hinv.truth.stored r hr)
    refine ⟨m, hm, congrArg Prod.fst heq, ?_⟩
    have hst : (m.publication_state == .stored) = r.stored_at.isSome := congrArg Prod.snd heq
    rw [← hst, beq_iff_eq]
  · intro e he
    exact (step_goes (hpre e he) (h.rel e he)).wrote.own (hpre e he).truth

end Runs

/-! ## A run -/

/-- A team on JetStream, with no thread yet. -/
def crew : Db := Crew.pair .jetstream

/-- Ada opens a thread with Bob and writes to him; her message is published. -/
def published : List Act :=
  [.seats (.create_conversation 0 0 ada ⟨none, true, ["bob"]⟩ 7 10 [11]),
    .seats (.join 0 0 bob 7), .send ⟨0, 1, ada, 7, ⟨"hello", 1, none⟩, 100, 60⟩,
    .lease 2 "w0" fun _ => false, .settle 3 ⟨100, 7, 1, .jetstream, "hello", 60, 1, 1⟩
      (.Confirmed (.jetstream 1 1))]

/-- The thread is moved to Postgres. -/
def moved_back : List Act :=
  [.start 1 7 .to_postgres, .statement 0 4 30, .statement 0 4 0, .statement 0 4 0, .statement 0 4 0,
    .told 0 (.fetched (.ok (some "hello"))), .statement 0 4 0, .statement 0 4 0, .statement 0 4 0,
    .statement 0 4 0, .statement 0 4 0, .statement 0 4 0, .statement 0 4 0]

/-- Bob acknowledges the message before the move, resolves it after, and leaves. -/
def observed_twice : List Act :=
  published ++ [.ack 0 5 bob 100 false none] ++ moved_back ++
    [.ack 0 6 bob 100 true none, .seats (.leave 0 7 bob 7)]

theorem start_inv : Inv (Sys.start crew) := by
  refine ⟨⟨?_, ?_, ?_, ?_, ?_, ?_⟩, ⟨⟨?_, ?_⟩, ?_⟩, ?_, ⟨rfl, ?_, ?_, ?_⟩⟩
  all_goals first | exact List.nodup_nil | exact fun _ h => absurd h List.not_mem_nil

theorem observed_run : (exec (step digest) (Sys.start crew) observed_twice).isSome = true := by
  decide

theorem receipts_tell_the_truth_observed_twice :
    ReceiptLaw (Sys.start crew) ((exec (step digest) (Sys.start crew) observed_twice).get observed_run).1
      ((exec (step digest) (Sys.start crew) observed_twice).get observed_run).2 :=
  receipts_tell_the_truth start_inv (exec_get observed_run)

example : ((exec (step digest) (Sys.start crew) observed_twice).get observed_run).2.db.message_receipts.map
    (fun r => (r.membership_id, r.stored_at, r.acknowledged_at, r.resolved_at)) =
      [(11, some 3, some 5, some 6)] := by decide

end CrewSync.Observations
