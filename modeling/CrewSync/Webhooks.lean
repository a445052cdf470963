/-
`webhooks.rs`, and the triggers of migration 0005: what is forwarded to other services.

A delivery is a row that a trigger writes with the change it is about. A dispatcher claims the
rows that are due, which holds them for a minute, posts them eight at a time, and writes down
how each of them went. It writes by the row's id alone. Nothing ties what it writes to its
claim: once the minute is over another dispatcher may have claimed the row again, and have
settled it, when the first is still at it. Nor does a claim ask how often the row was claimed
before. Where no dispatcher's hold runs out while it still has the delivery in hand, and no
delivery is claimed a seventh time, each of them settles once (`deliveries_settle_once`).

A dispatcher's batch is the `hands` it has; they are posted in order, and it claims again when
there is none left. A crash leaves the rows as they are.
-/
import Mathlib.Algebra.Ring.Nat
import CrewSync.Locks
import CrewSync.Notes
import CrewSync.Tasks

set_option autoImplicit false

namespace CrewSync.Webhooks

open Rows Runs Schema Locks Notes Tasks

/-- `MAX_ATTEMPTS`, `BATCH` and `CONCURRENCY`. -/
def MAX_ATTEMPTS : ℕ := 6

def BATCH : ℕ := 32

def CONCURRENCY : ℕ := 8

/-- `KEEP_SENT` and `KEEP_FAILED`, in seconds. -/
def KEEP_SENT : ℕ := 24 * 3600

def KEEP_FAILED : ℕ := 7 * 24 * 3600

/-! ## The tables -/

/-- `webhooks`. -/
structure Webhook where
  id : Uuid
  team_id : Uuid
  url : String
  kind : String
  events : List String
  channel_filter : Option String
  enabled : Bool
  deriving DecidableEq, Repr

/-- `channels`. -/
structure Channel where
  id : Uuid
  name : String
  deriving DecidableEq, Repr

/-- `webhook_deliveries.status`. -/
inductive DeliveryStatus where
  | pending | sent | failed
  deriving DecidableEq, Repr

/-- `webhook_deliveries.payload`. -/
inductive Payload where
  | message (channel sender : Option String) (body : String)
  | task (key title : String) (status : TaskStatus) (claimed_by : Option String)
  | lock (name event : String) (holder : Option String)
  | note (scope key : String)
  deriving DecidableEq, Repr

/-- `webhook_deliveries`. -/
structure WebhookDelivery where
  id : ℕ
  webhook_id : Uuid
  team_id : Uuid
  kind : String
  summary : String
  payload : Payload
  status : DeliveryStatus
  attempts : ℕ
  next_attempt_at : ℕ
  last_error : Option String
  updated_at : ℕ
  deriving DecidableEq, Repr

/-- `Delivery`: a row that was claimed, and where it goes. -/
structure Delivery where
  id : ℕ
  url : String
  kind : String
  summary : String
  payload : Payload
  attempts : ℕ
  deriving DecidableEq, Repr

/-! ## What is posted -/

/-- `body_for`. -/
inductive Body where
  | text (summary : String)
  | content (summary : String)
  | event (payload : Payload)
  deriving DecidableEq, Repr

/-- `body_for`. -/
def body_for (kind summary : String) (payload : Payload) : Body :=
  if kind = "slack" then .text summary
  else if kind = "discord" then .content summary
  else .event payload

/-- What a post comes to. -/
inductive Answer where
  | response (status : ℕ)
  | error (e : String)
  deriving DecidableEq, Repr

/-- A delivery that a dispatcher has claimed and not settled. -/
structure Hand where
  replica : ℕ
  delivery : Delivery
  posted : Bool
  deriving DecidableEq, Repr

/-- The state: the tables, the clock, what the dispatchers have in hand, and every post. -/
structure Sys where
  agents : List Agent
  channels : List Channel
  webhooks : List Webhook
  deliveries : List WebhookDelivery
  next_id : ℕ
  clock : ℕ
  hands : List Hand
  posts : List (ℕ × String × Body)

/-! ## The triggers -/

/-- `left(s, n)`. -/
def left (s : String) (n : ℕ) : String := String.ofList (s.toList.take n)

/-- The name of an agent. -/
def agent_name (s : Sys) (id : Option Uuid) : Option String :=
  (one (fun a => some a.id == id) s.agents).map Agent.name

/-- The webhook wants the event. -/
def wants (team_id : Uuid) (kind : String) (channel : Option String) (w : Webhook) : Bool :=
  w.team_id == team_id && w.enabled && w.events.contains kind &&
    (kind != "message" || w.channel_filter.isNone || w.channel_filter == channel)

/-- The row for one webhook. -/
def new_delivery (now : ℕ) (team_id : Uuid) (kind summary : String) (payload : Payload) (w : Webhook)
    (id : ℕ) : WebhookDelivery :=
  { id := id, webhook_id := w.id, team_id := team_id, kind := kind, summary := summary, payload := payload,
    status := .pending, attempts := 0, next_attempt_at := now, last_error := none, updated_at := now }

/-- `enqueue_webhook_deliveries`. -/
def enqueue_webhook_deliveries (now : ℕ) (team_id : Uuid) (kind summary : String) (payload : Payload)
    (channel : Option String) (s : Sys) : Sys :=
  let hooks := s.webhooks.filter (wants team_id kind channel)
  { s with
    deliveries := s.deliveries ++ hooks.mapIdx fun i w =>
      new_delivery now team_id kind summary payload w (s.next_id + i)
    next_id := s.next_id + hooks.length }

/-- `enqueue_message_webhook`. -/
def enqueue_message_webhook (now : ℕ) (m : Message) (s : Sys) : Sys :=
  if m.recipient_agent_id.isSome then s
  else
    let sender := agent_name s (some m.sender_agent_id)
    let channel := (one (fun c => some c.id == m.channel_id) s.channels).map Channel.name
    let body := left m.body 500
    enqueue_webhook_deliveries now m.team_id "message"
      ("#" ++ channel.getD "" ++ " " ++ sender.getD "" ++ ": " ++ body) (.message channel sender body) channel s

/-- `enqueue_task_webhook`: of an insert, or of an update of `old`. -/
def enqueue_task_webhook (now : ℕ) (old : Option Task) (new : Task) (s : Sys) : Sys :=
  if old.any fun t => t.status == new.status then s
  else
    let holder := agent_name s new.claimed_by
    enqueue_webhook_deliveries now new.team_id "task"
      ("task " ++ new.key ++ " is now " ++ new.status.name ++ (holder.map fun n => " by " ++ n).getD "")
      (.task new.key new.title new.status holder) none s

/-- `enqueue_lock_webhook`: of a delete, or of an insert. -/
def enqueue_lock_webhook (now : ℕ) (deleted : Bool) (l : Lock) (s : Sys) : Sys :=
  let event := if deleted then "released" else "acquired"
  let holder := agent_name s (some l.holder_agent_id)
  enqueue_webhook_deliveries now l.team_id "lock"
    ("lock " ++ l.name ++ " " ++ event ++ (holder.map fun n => " by " ++ n).getD "") (.lock l.name event holder)
    none s

/-- `enqueue_note_webhook`. -/
def enqueue_note_webhook (now : ℕ) (n : Note) (s : Sys) : Sys :=
  enqueue_webhook_deliveries now n.team_id "note" ("note " ++ n.scope ++ "/" ++ n.key ++ " was updated")
    (.note n.scope n.key) none s

/-! ## The dispatcher -/

/-- `ORDER BY d.next_attempt_at, d.id`. -/
def due_before (a b : WebhookDelivery) : Bool :=
  a.next_attempt_at < b.next_attempt_at || (a.next_attempt_at == b.next_attempt_at && a.id ≤ b.id)

/-- `due`: what a claim takes, when others have `locked` these rows. -/
def due (now : ℕ) (locked : List ℕ) (t : List WebhookDelivery) : List WebhookDelivery :=
  ((t.filter fun d => d.status == .pending && d.next_attempt_at ≤ now && !locked.contains d.id).insertionSort
    fun a b => due_before a b = true).take BATCH

/-- `w.id = d.webhook_id`. -/
def hook_of (hooks : List Webhook) (d : WebhookDelivery) : Option Webhook :=
  one (fun w => w.id == d.webhook_id) hooks

/-- The row is claimed. -/
def claims (now : ℕ) (locked : List ℕ) (hooks : List Webhook) (t : List WebhookDelivery) (d : WebhookDelivery) :
    Bool :=
  (due now locked t).any (fun x => x.id == d.id) && (hook_of hooks d).isSome

/-- What a claim writes. -/
def hold (now : ℕ) (d : WebhookDelivery) : WebhookDelivery :=
  { d with attempts := d.attempts + 1, next_attempt_at := now + secs 60, updated_at := now }

/-- What a claim returns of a row. -/
def returned (hooks : List Webhook) (d : WebhookDelivery) : Option Delivery :=
  (hook_of hooks d).map fun w => ⟨d.id, w.url, w.kind, d.summary, d.payload, d.attempts + 1⟩

/-- `claim`. -/
def claim (now : ℕ) (locked : List ℕ) (hooks : List Webhook) (t : List WebhookDelivery) :
    List Delivery × List WebhookDelivery :=
  ((due now locked t).filterMap (returned hooks), update (claims now locked hooks t) (hold now) t)

/-- `mark_sent`. -/
def mark_sent (now id : ℕ) (t : List WebhookDelivery) : List WebhookDelivery :=
  update (fun d => d.id == id) (fun d => { d with status := .sent, last_error := none, updated_at := now }) t

/-- `mark_failed`. -/
def mark_failed (now id attempts : ℕ) (error : String) (t : List WebhookDelivery) : List WebhookDelivery :=
  let backoff := min (2 ^ max 1 (min attempts 8)) 600
  let terminal := MAX_ATTEMPTS ≤ attempts
  update (fun d => d.id == id) (fun d =>
    { d with
      status := if terminal then .failed else .pending
      next_attempt_at := now + secs backoff
      last_error := some (left error 500)
      updated_at := now }) t

/-- A client error that will not improve on retry. -/
def permanent (status : ℕ) : Bool := 400 ≤ status && status < 500 && status != 408 && status != 429

/-- What `send_batch` writes about a delivery, after its post. -/
def record (now : ℕ) (d : Delivery) (t : List WebhookDelivery) : Answer → List WebhookDelivery
  | .response status =>
    if 200 ≤ status ∧ status < 300 then mark_sent now d.id t
    else
      let attempts := if permanent status then MAX_ATTEMPTS else d.attempts
      mark_failed now d.id attempts ("HTTP " ++ toString status) t
  | .error e => mark_failed now d.id d.attempts e t

/-- `prune`. -/
def prune (now : ℕ) (t : List WebhookDelivery) : List WebhookDelivery :=
  delete (fun d => (d.status == .sent && d.updated_at + secs KEEP_SENT < now) ||
    (d.status == .failed && d.updated_at + secs KEEP_FAILED < now)) t

/-! ## The system -/

/-- What can happen next. -/
inductive Act where
  /-- A change commits, with its trigger. -/
  | message (now : ℕ) (m : Message)
  | task (now : ℕ) (old : Option Task) (new : Task)
  | lock (now : ℕ) (deleted : Bool) (l : Lock)
  | note (now : ℕ) (n : Note)
  | webhook_add (w : Webhook)
  | webhook_remove (id : Uuid)
  /-- Agents and channels come and go. -/
  | directory (agents : List Agent) (channels : List Channel)
  | tick (clock : ℕ)
  | claim (replica now : ℕ) (locked : List ℕ)
  /-- The dispatcher posts the next of its batch. -/
  | post (replica : ℕ)
  /-- One of its posts has come to an end. What it writes may not reach the database. -/
  | answer (replica now id : ℕ) (a : Answer) (recorded : Bool)
  | crash (replica : ℕ)
  | prune (now : ℕ)

/-- The dispatcher's next delivery to post. -/
def next_hand (replica : ℕ) (s : Sys) : Option Hand :=
  if s.hands.countP (fun h => h.replica == replica && h.posted) < CONCURRENCY then
    one (fun h => h.replica == replica && !h.posted) s.hands
  else none

/-- The hand is this dispatcher's, with this delivery. -/
def is_hand (replica id : ℕ) (h : Hand) : Bool := h.replica == replica && h.delivery.id == id

/-- One step. -/
def step (s : Sys) : Act → Option Sys
  | .message now m => some (enqueue_message_webhook now m s)
  | .task now old new => some (enqueue_task_webhook now old new s)
  | .lock now deleted l => some (enqueue_lock_webhook now deleted l s)
  | .note now n => some (enqueue_note_webhook now n s)
  | .webhook_add w => some { s with webhooks := insert_into w s.webhooks }
  | .webhook_remove id => some { s with
      webhooks := delete (fun w => w.id == id) s.webhooks
      deliveries := delete (fun d => d.webhook_id == id) s.deliveries }
  | .directory agents channels => some { s with agents := agents, channels := channels }
  | .tick clock => if clock < s.clock then none else some { s with clock := clock }
  | .claim replica now locked =>
    if s.clock < now || s.hands.any (fun h => h.replica == replica) then none
    else
      let (batch, t) := claim now locked s.webhooks s.deliveries
      some { s with deliveries := t, hands := s.hands ++ batch.map fun d => ⟨replica, d, false⟩ }
  | .post replica => (next_hand replica s).map fun h => { s with
      hands := update (is_hand replica h.delivery.id) (fun h => { h with posted := true }) s.hands
      posts := s.posts ++ [(h.delivery.id, h.delivery.url,
        body_for h.delivery.kind h.delivery.summary h.delivery.payload)] }
  | .answer replica now id a recorded =>
    (one (fun h => is_hand replica id h && h.posted) s.hands).map fun h => { s with
      deliveries := if recorded then record now h.delivery s.deliveries a else s.deliveries
      hands := delete (is_hand replica id) s.hands }
  | .crash replica => some { s with hands := delete (fun h => h.replica == replica) s.hands }
  | .prune now => some { s with deliveries := prune now s.deliveries }

/-- Before the first delivery. -/
def Sys.start : Sys :=
  { agents := [], channels := [], webhooks := [], deliveries := [], next_id := 0, clock := 0, hands := [],
    posts := [] }

/-! ## The law -/

/-- How often a delivery was posted. -/
def Sys.posted (s : Sys) (id : ℕ) : ℕ := s.posts.countP fun p => p.1 == id

/-- The kind of row that an act may add. -/
def announces : Act → Option String
  | .message _ m => if m.recipient_agent_id.isSome then none else some "message"
  | .task _ _ _ => some "task"
  | .lock _ _ _ => some "lock"
  | .note _ _ => some "note"
  | _ => none

/-- What is promised of the deliveries of a run. -/
structure SettleLaw (tr : List (Trans Sys Act)) (s : Sys) : Prop where
  /-- What is sent stays so. -/
  sent : ∀ tr₁ e tr₂, tr = tr₁ ++ e :: tr₂ → ∀ d ∈ e.post.deliveries, d.status = .sent →
    ∀ d' ∈ s.deliveries, d'.id = d.id → d'.status = .sent
  /-- What has failed stays so, and is not posted any more. -/
  failed : ∀ tr₁ e tr₂, tr = tr₁ ++ e :: tr₂ → ∀ d ∈ e.post.deliveries, d.status = .failed →
    (∀ d' ∈ s.deliveries, d'.id = d.id → d'.status = .failed) ∧ s.posted d.id = e.post.posted d.id
  bounded : ∀ id, s.posted id ≤ MAX_ATTEMPTS
  /-- A row is there because of a change of its kind, and no direct message is one. -/
  announced : ∀ e ∈ tr, ∀ d ∈ e.post.deliveries,
    (∃ d' ∈ e.pre.deliveries, d'.id = d.id) ∨ announces e.act = some d.kind

/-- No dispatcher claims what another has in hand still, nor anything for a seventh time. -/
def unhurried (s : Sys) : Act → Bool
  | .claim _ now locked => (due now locked s.deliveries).all fun d =>
      decide (d.attempts < MAX_ATTEMPTS) && !s.hands.any fun h => h.delivery.id == d.id
  | _ => true

/-! ## What a step does -/

/-- The posts of a delivery, with those that are still to come of what was claimed. -/
def Sys.spent (s : Sys) (id : ℕ) : ℕ :=
  s.posted id + s.hands.countP fun h => h.delivery.id == id && !h.posted

/-- The dispatcher has claimed a batch. -/
def Sys.claimed (s : Sys) (replica now : ℕ) (locked : List ℕ) : Sys :=
  { s with
    deliveries := (claim now locked s.webhooks s.deliveries).2
    hands := s.hands ++ (claim now locked s.webhooks s.deliveries).1.map fun d => ⟨replica, d, false⟩ }

/-- What a step does to the deliveries and to what the dispatchers have in hand. -/
inductive Did (s : Sys) : Act → Sys → Prop
  /-- Rows are announced. -/
  | announced {a : Act} {t : Sys} (new : List WebhookDelivery)
      (hnew : t.deliveries = s.deliveries ++ new) (hnext : t.next_id = s.next_id + new.length)
      (hids : new.map WebhookDelivery.id = List.range' s.next_id new.length)
      (hkind : ∀ d ∈ new, announces a = some d.kind)
      (hhands : t.hands = s.hands) (hposts : t.posts = s.posts) : Did s a t
  /-- Rows go, and hands. -/
  | dropped {a : Act} {t : Sys} (p : WebhookDelivery → Bool) (q : Hand → Bool)
      (hrows : t.deliveries = delete p s.deliveries) (hnext : t.next_id = s.next_id)
      (hhands : t.hands = delete q s.hands) (hposts : t.posts = s.posts) : Did s a t
  | claimed {replica now : ℕ} {locked : List ℕ} (hfree : ∀ h ∈ s.hands, h.replica ≠ replica) :
      Did s (.claim replica now locked) (s.claimed replica now locked)
  | posted {replica : ℕ} {h : Hand} (hh : h ∈ s.hands) (hr : h.replica = replica) (hp : h.posted = false) :
      Did s (.post replica) { s with
        hands := update (is_hand replica h.delivery.id) (fun h => { h with posted := true }) s.hands
        posts := s.posts ++ [(h.delivery.id, h.delivery.url,
          body_for h.delivery.kind h.delivery.summary h.delivery.payload)] }
  | answered {replica now id : ℕ} {a : Answer} {recorded : Bool} {h : Hand} (hh : h ∈ s.hands)
      (hr : is_hand replica id h = true) :
      Did s (.answer replica now id a recorded) { s with
        deliveries := if recorded then record now h.delivery s.deliveries a else s.deliveries
        hands := delete (is_hand replica id) s.hands }

section Steps

variable {s t : Sys} {a : Act} {k : ℕ} {d : WebhookDelivery} {h : Hand} {now replica : ℕ} {locked : List ℕ}
  {l : List WebhookDelivery} {hooks : List Webhook} {x : Delivery} {st : DeliveryStatus}

theorem enqueue_did {team_id : Uuid} {kind summary : String} {payload : Payload}
    {channel : Option String} (ha : announces a = some kind) :
    Did s a (enqueue_webhook_deliveries now team_id kind summary payload channel s) := by
  unfold enqueue_webhook_deliveries
  generalize s.webhooks.filter (wants team_id kind channel) = hooks
  refine .announced (hooks.mapIdx fun i w => new_delivery now team_id kind summary payload w (s.next_id + i))
    rfl ?_ ?_ (fun d hd => ?_) rfl rfl
  · rw [List.length_mapIdx]
  · rw [List.length_mapIdx]
    refine List.ext_getElem ?_ fun i hi hi' => ?_
    · rw [List.length_map, List.length_mapIdx, List.length_range']
    · rw [List.getElem_map, List.getElem_mapIdx, List.getElem_range']
      simp [new_delivery]
  · obtain ⟨i, hi, rfl⟩ := List.mem_mapIdx.mp hd
    exact ha

theorem Did.rfl (s : Sys) (a : Act) : Did s a s :=
  .announced [] (List.append_nil _).symm (Nat.add_zero _).symm (by simp) (fun _ h => absurd h List.not_mem_nil)
    (Eq.refl _) (Eq.refl _)

theorem step_did (h : step s a = some t) : Did s a t := by
  have hall : ∀ {ρ : Type} (l : List ρ), l = delete (fun _ => false) l := by
    intro ρ l
    simp [delete]
  cases a with
  | message now m =>
    obtain rfl := Option.some.inj h
    unfold enqueue_message_webhook
    split
    · exact .rfl _ _
    · rename_i hm
      exact enqueue_did (by rw [announces, if_neg hm])
  | task now old new =>
    obtain rfl := Option.some.inj h
    unfold enqueue_task_webhook
    split
    · exact .rfl _ _
    · exact enqueue_did rfl
  | lock now deleted l | note now n =>
    obtain rfl := Option.some.inj h
    exact enqueue_did rfl
  | webhook_add w | directory agents channels =>
    obtain rfl := Option.some.inj h
    exact .dropped _ _ (hall _) rfl (hall _) rfl
  | webhook_remove id | prune now =>
    obtain rfl := Option.some.inj h
    exact .dropped _ _ rfl rfl (hall _) rfl
  | tick clock =>
    simp only [step] at h
    split at h
    · cases h
    · obtain rfl := Option.some.inj h
      exact .dropped _ _ (hall _) rfl (hall _) rfl
  | claim replica now locked =>
    simp only [step] at h
    split at h
    · cases h
    · rename_i hfree
      obtain rfl := Option.some.inj h
      refine .claimed fun h hh hr => hfree ?_
      simp only [Bool.or_eq_true, List.any_eq_true, beq_iff_eq]
      exact Or.inr ⟨h, hh, hr⟩
  | post replica =>
    obtain ⟨h, hnext, rfl⟩ := Option.map_eq_some_iff.mp h
    unfold next_hand at hnext
    split at hnext
    · have hpos := pos_of_one hnext
      simp only [Bool.and_eq_true, beq_iff_eq, Bool.not_eq_true'] at hpos
      exact .posted (mem_of_one hnext) hpos.1 hpos.2
    · cases hnext
  | answer replica now id a recorded =>
    obtain ⟨h, hone, rfl⟩ := Option.map_eq_some_iff.mp h
    have hpos := pos_of_one hone
    rw [Bool.and_eq_true] at hpos
    exact .answered (mem_of_one hone) hpos.1
  | crash replica =>
    obtain rfl := Option.some.inj h
    exact .dropped _ _ (hall _) rfl rfl rfl

/-- What is written about a delivery is written to its row, and is not the id nor the attempts. -/
theorem record_eq (now : ℕ) (x : Delivery) (l : List WebhookDelivery) (ans : Answer) :
    ∃ f : WebhookDelivery → WebhookDelivery, record now x l ans = update (fun d => d.id == x.id) f l ∧
      ∀ d, (f d).id = d.id ∧ (f d).attempts = d.attempts ∧ (f d).kind = d.kind := by
  cases ans with
  | response status =>
    simp only [record]
    split
    · exact ⟨_, rfl, fun _ => ⟨rfl, rfl, rfl⟩⟩
    · exact ⟨_, rfl, fun _ => ⟨rfl, rfl, rfl⟩⟩
  | error e => exact ⟨_, rfl, fun _ => ⟨rfl, rfl, rfl⟩⟩

theorem mem_due (h : d ∈ due now locked l) : d ∈ l ∧ d.status = .pending := by
  have hin := List.mem_of_mem_take h
  rw [List.mem_insertionSort, List.mem_filter] at hin
  obtain ⟨hd, hdue⟩ := hin
  simp only [Bool.and_eq_true, beq_iff_eq] at hdue
  exact ⟨hd, hdue.1.1⟩

theorem keyed_due (now : ℕ) (locked : List ℕ) (h : Keyed WebhookDelivery.id l) :
    Keyed WebhookDelivery.id (due now locked l) := by
  refine List.Nodup.sublist (List.Sublist.map _ (List.take_sublist _ _)) ?_
  refine (List.Perm.nodup_iff ((List.perm_insertionSort _ _).map _)).mpr ?_
  exact List.Nodup.sublist (List.Sublist.map _ List.filter_sublist) h

/-- What a claim returns, by its rows. -/
theorem mem_claim : x ∈ (claim now locked hooks l).1 ↔ ∃ d ∈ due now locked l, returned hooks d = some x :=
  List.mem_filterMap

theorem returned_id (h : returned hooks d = some x) : x.id = d.id := by
  obtain ⟨w, -, rfl⟩ := Option.map_eq_some_iff.mp h
  rfl

theorem keyed_claim (now : ℕ) (locked : List ℕ) (hooks : List Webhook)
    (h : Keyed WebhookDelivery.id l) : Keyed Delivery.id (claim now locked hooks l).1 := by
  have hdue := keyed_due now locked h
  simp only [claim]
  generalize due now locked l = rows at hdue ⊢
  induction rows with
  | nil => exact .nil _
  | cons d rows ih =>
    obtain ⟨hnot, hrest⟩ := List.nodup_cons.mp hdue
    rw [List.filterMap_cons]
    cases hx : returned hooks d with
    | none => exact ih hrest
    | some x =>
      refine List.nodup_cons.mpr ⟨fun hin => hnot ?_, ih hrest⟩
      obtain ⟨y, hy, hid⟩ := List.mem_map.mp hin
      obtain ⟨d', hd', hy'⟩ := List.mem_filterMap.mp hy
      rw [returned_id hx, returned_id hy'] at hid
      exact List.mem_map.mpr ⟨d', hd', hid⟩

/-! ## A settled delivery -/

/-- The delivery is settled, and nobody has it in hand. -/
structure Settled (k : ℕ) (st : DeliveryStatus) (s : Sys) : Prop where
  past : k < s.next_id
  row : ∀ d ∈ s.deliveries, d.id = k → d.status = st
  free : ∀ h ∈ s.hands, h.delivery.id ≠ k

theorem posted_append (posts : List (ℕ × String × Body)) (p : ℕ × String × Body) (hne : p.1 ≠ k) :
    (posts ++ [p]).countP (fun p => p.1 == k) = posts.countP fun p => p.1 == k := by
  rw [List.countP_append, List.countP_singleton, if_neg (by simpa using hne), Nat.add_zero]

/-- What is settled stays so, whatever happens, and is not posted. -/
theorem Settled.step (hst : st ≠ .pending) (hs : Settled k st s) (h : step s a = some t) :
    Settled k st t ∧ t.posted k = s.posted k := by
  cases step_did h with
  | announced new hnew hnext hids _ hhands hposts =>
    refine ⟨⟨?_, fun d hd hid => ?_, ?_⟩, by rw [Sys.posted, hposts, Sys.posted]⟩
    · rw [hnext]
      exact Nat.lt_add_right _ hs.past
    · rw [hnew] at hd
      rcases List.mem_append.mp hd with hd | hd
      · exact hs.row d hd hid
      · -- a new row has a new id
        have hin : d.id ∈ List.range' s.next_id new.length := by
          rw [← hids]
          exact List.mem_map_of_mem hd
        have hge := (List.mem_range'_1.mp hin).1
        exact absurd hs.past (by omega)
    · rw [hhands]
      exact hs.free
  | dropped p q hrows hnext hhands hposts =>
    refine ⟨⟨?_, fun d hd hid => ?_, fun h hh => ?_⟩, by rw [Sys.posted, hposts, Sys.posted]⟩
    · rw [hnext]
      exact hs.past
    · rw [hrows] at hd
      exact hs.row d (mem_delete.mp hd).1 hid
    · rw [hhands] at hh
      exact hs.free h (mem_delete.mp hh).1
  | claimed _ =>
    refine ⟨⟨hs.past, fun d hd hid => ?_, fun h hh => ?_⟩, rfl⟩
    · obtain ⟨d₀, hd₀, rfl⟩ := mem_update.mp hd
      split at hid
      · rw [if_pos ‹_›]
        exact hs.row d₀ hd₀ hid
      · rw [if_neg ‹_›]
        exact hs.row d₀ hd₀ hid
    · rcases List.mem_append.mp hh with hh | hh
      · exact hs.free h hh
      · -- what is claimed is pending
        obtain ⟨x, hx, rfl⟩ := List.mem_map.mp hh
        obtain ⟨d, hd, hret⟩ := mem_claim.mp hx
        obtain ⟨hin, hpend⟩ := mem_due hd
        intro hid
        rw [hs.row d hin ((returned_id hret).symm.trans hid)] at hpend
        exact hst hpend
  | @posted replica x₁ hh _ _ =>
    refine ⟨⟨hs.past, hs.row, fun x hx => ?_⟩, posted_append _ _ (hs.free x₁ hh)⟩
    obtain ⟨x₀, hx₀, rfl⟩ := mem_update.mp hx
    split
    · exact hs.free x₀ hx₀
    · exact hs.free x₀ hx₀
  | @answered replica now id ans recorded x₁ hh _ =>
    refine ⟨⟨hs.past, fun d hd hid => ?_, fun x hx => hs.free x (mem_delete.mp hx).1⟩, rfl⟩
    simp only at hd
    split at hd
    · obtain ⟨f, hf, hsame⟩ := record_eq now x₁.delivery s.deliveries ans
      rw [hf] at hd
      obtain ⟨d₀, hd₀, rfl⟩ := mem_update.mp hd
      split at hid
      · rename_i hmine
        rw [(hsame d₀).1] at hid
        exact absurd ((beq_iff_eq.mp hmine).symm.trans hid) (hs.free x₁ hh)
      · rw [if_neg ‹_›]
        exact hs.row d₀ hd₀ hid
    · exact hs.row d hd hid

/-- Through a run. -/
theorem Settled.run (hst : st ≠ .pending) {tr : List (Trans Sys Act)} {m : Sys}
    (hm : Settled k st m) (h : Run (Rel Webhooks.step) m tr s) : Settled k st s ∧ s.posted k = m.posted k := by
  refine h.invariant' (I := fun s => Settled k st s ∧ s.posted k = m.posted k) ⟨hm, rfl⟩ fun s a t hs hr => ?_
  obtain ⟨ht, hposted⟩ := hs.1.step hst hr
  exact ⟨ht, hposted.trans hs.2⟩

/-! ## The invariant -/

/-- What an unhurried run keeps: whoever has a delivery in hand has it alone, its row is pending
still, and it was posted as often as it was claimed, or less. -/
structure Inv (s : Sys) : Prop where
  keyed : Keyed WebhookDelivery.id s.deliveries
  below : ∀ d ∈ s.deliveries, d.id < s.next_id
  hands : Keyed (fun h => h.delivery.id) s.hands
  hands_below : ∀ h ∈ s.hands, h.delivery.id < s.next_id
  held : ∀ h ∈ s.hands, ∀ d ∈ s.deliveries, d.id = h.delivery.id → d.status = .pending
  spent : ∀ d ∈ s.deliveries, s.spent d.id ≤ d.attempts
  bounded : ∀ k, s.spent k ≤ MAX_ATTEMPTS
  unborn : ∀ k, s.next_id ≤ k → s.spent k = 0

theorem inv_start : Inv .start :=
  ⟨.nil _, fun _ h => absurd h List.not_mem_nil, .nil _, fun _ h => absurd h List.not_mem_nil,
    fun _ h => absurd h List.not_mem_nil, fun _ h => absurd h List.not_mem_nil, fun _ => Nat.zero_le _,
    fun _ _ => rfl⟩

/-- Nothing is new, and nothing more is spent. -/
theorem Inv.fewer (hs : Inv s) (hkeyed : Keyed WebhookDelivery.id t.deliveries) (hnext : t.next_id = s.next_id)
    (hhands : Keyed (fun h => h.delivery.id) t.hands)
    (hhand : ∀ h ∈ t.hands, ∃ h₀ ∈ s.hands, h₀.delivery.id = h.delivery.id)
    (hrow : ∀ d ∈ t.deliveries, ∃ d₀ ∈ s.deliveries, d₀.id = d.id ∧ d₀.attempts = d.attempts ∧
      (d.status = d₀.status ∨ ∀ h ∈ t.hands, h.delivery.id ≠ d.id)) (hspent : ∀ k, t.spent k ≤ s.spent k) : Inv t := by
  refine ⟨hkeyed, fun d hd => ?_, hhands, fun h hh => ?_, fun h hh d hd hid => ?_, fun d hd => ?_, fun k => ?_,
    fun k hk => ?_⟩
  · obtain ⟨d₀, hd₀, hid, -⟩ := hrow d hd
    rw [hnext, ← hid]
    exact hs.below d₀ hd₀
  · obtain ⟨h₀, hh₀, hid⟩ := hhand h hh
    rw [hnext, ← hid]
    exact hs.hands_below h₀ hh₀
  · obtain ⟨d₀, hd₀, hid₀, -, hstatus⟩ := hrow d hd
    obtain ⟨h₀, hh₀, hsame⟩ := hhand h hh
    rcases hstatus with hstatus | hnone
    · rw [hstatus]
      exact hs.held h₀ hh₀ d₀ hd₀ (hid₀.trans (hid.trans hsame.symm))
    · exact absurd hid.symm (hnone h hh)
  · obtain ⟨d₀, hd₀, hid, hatt, -⟩ := hrow d hd
    rw [← hid, ← hatt]
    exact (hspent _).trans (hs.spent d₀ hd₀)
  · exact (hspent k).trans (hs.bounded k)
  · rw [hnext] at hk
    have hzero := hspent k
    rw [hs.unborn k hk] at hzero
    exact Nat.le_zero.mp hzero

theorem spent_delete (q : Hand → Bool) (l : List Hand) (k : ℕ) :
    (delete q l).countP (fun h => h.delivery.id == k && !h.posted) ≤
      l.countP fun h => h.delivery.id == k && !h.posted :=
  List.Sublist.countP_le List.filter_sublist

/-- A post moves one of what is spent from the hand to the posts. -/
theorem spent_posted (hh : h ∈ s.hands)
    (hr : h.replica = replica) (hp : h.posted = false) (p : ℕ × String × Body) (hid : p.1 = h.delivery.id)
    (k : ℕ) : (s.posts ++ [p]).countP (fun p => p.1 == k) +
        (update (is_hand replica h.delivery.id) (fun h => { h with posted := true }) s.hands).countP
          (fun h => h.delivery.id == k && !h.posted) ≤ s.spent k := by
  have hmine : is_hand replica h.delivery.id h = true := by
    rw [is_hand, hr, beq_self_eq_true, beq_self_eq_true, Bool.and_self]
  have hafter : (update (is_hand replica h.delivery.id) (fun h => { h with posted := true }) s.hands).countP
      (fun h => h.delivery.id == k && !h.posted) =
      (s.hands.filter fun x => !is_hand replica h.delivery.id x).countP fun h => h.delivery.id == k && !h.posted := by
    rw [update, List.countP_map, List.countP_filter]
    refine List.countP_congr fun x _ => ?_
    simp only [Function.comp]
    split
    · rename_i hx
      simp [hx]
    · rename_i hx
      simp [hx]
  have hsplit := List.countP_eq_countP_filter_add s.hands (fun h => h.delivery.id == k && !h.posted)
    (is_hand replica h.delivery.id)
  rw [hafter, Sys.spent, hsplit, Sys.posted, List.countP_append, List.countP_singleton]
  by_cases hk : h.delivery.id = k
  · have hpos : 0 < (s.hands.filter (is_hand replica h.delivery.id)).countP
        fun h => h.delivery.id == k && !h.posted := by
      refine List.countP_pos_iff.mpr ⟨h, List.mem_filter.mpr ⟨hh, hmine⟩, ?_⟩
      simp [hk, hp]
    rw [if_pos (by simp [hid, hk])]
    omega
  · rw [if_neg (by simp [hid, hk])]
    omega

/-- A claim spends one more of each delivery it takes. -/
theorem spent_claimed (hs : Keyed WebhookDelivery.id s.deliveries) (replica now : ℕ) (locked : List ℕ) (k : ℕ) :
    let batch := (claim now locked s.webhooks s.deliveries).1
    let new := batch.map fun d => (⟨replica, d, false⟩ : Hand)
    (new.countP fun h => h.delivery.id == k && !h.posted) ≤ 1 ∧
      ((∀ x ∈ batch, x.id ≠ k) → (new.countP fun h => h.delivery.id == k && !h.posted) = 0) := by
  have hkeyed := keyed_claim now locked s.webhooks hs
  simp only
  generalize (claim now locked s.webhooks s.deliveries).1 = batch at hkeyed
  have hcount : ((batch.map fun d => (⟨replica, d, false⟩ : Hand)).countP fun h => h.delivery.id == k && !h.posted) =
      (batch.map Delivery.id).count k := by
    rw [List.countP_map, List.count, List.countP_map]
    refine List.countP_congr fun x _ => ?_
    simp
  rw [hcount]
  refine ⟨List.nodup_iff_count_le_one.mp hkeyed k, fun hnone => List.count_eq_zero.mpr fun hin => ?_⟩
  obtain ⟨x, hx, hid⟩ := List.mem_map.mp hin
  exact hnone x hx hid

theorem Inv.announced (hs : Inv s) {new : List WebhookDelivery} (hnew : t.deliveries = s.deliveries ++ new)
    (hnext : t.next_id = s.next_id + new.length)
    (hids : new.map WebhookDelivery.id = List.range' s.next_id new.length) (hhands : t.hands = s.hands)
    (hposts : t.posts = s.posts) : Inv t := by
  have hspent : ∀ k, t.spent k = s.spent k := by
    intro k
    rw [Sys.spent, Sys.posted, hhands, hposts]
    rfl
  have hrange : ∀ d ∈ new, s.next_id ≤ d.id ∧ d.id < s.next_id + new.length := by
    intro d hd
    have hin : d.id ∈ List.range' s.next_id new.length := by
      rw [← hids]
      exact List.mem_map_of_mem hd
    exact List.mem_range'_1.mp hin
  refine ⟨?_, fun d hd => ?_, ?_, fun h hh => ?_, fun h hh d hd hid => ?_, fun d hd => ?_, fun k => ?_,
    fun k hk => ?_⟩
  · rw [hnew]
    refine keyed_append.mpr ⟨hs.keyed, ?_, fun x hx y hy => ?_⟩
    · rw [Keyed, hids]
      exact List.nodup_range'
    · have hlt := hs.below x hx
      have hge := (hrange y hy).1
      omega
  · rw [hnext]
    rw [hnew] at hd
    rcases List.mem_append.mp hd with hd | hd
    · exact Nat.lt_add_right _ (hs.below d hd)
    · exact (hrange d hd).2
  · rw [hhands]
    exact hs.hands
  · rw [hhands] at hh
    rw [hnext]
    exact Nat.lt_add_right _ (hs.hands_below h hh)
  · rw [hhands] at hh
    rw [hnew] at hd
    rcases List.mem_append.mp hd with hd | hd
    · exact hs.held h hh d hd hid
    · have hlt := hs.hands_below h hh
      have hge := (hrange d hd).1
      omega
  · rw [hspent]
    rw [hnew] at hd
    rcases List.mem_append.mp hd with hd | hd
    · exact hs.spent d hd
    · rw [hs.unborn _ (hrange d hd).1]
      exact Nat.zero_le _
  · rw [hspent]
    exact hs.bounded k
  · rw [hspent]
    rw [hnext] at hk
    exact hs.unborn k (by omega)

theorem Inv.claimed (hs : Inv s)
    (hc : unhurried s (.claim replica now locked) = true) : Inv (s.claimed replica now locked) := by
  -- the rows of the batch
  have hbatch : ∀ x ∈ (claim now locked s.webhooks s.deliveries).1, ∃ d ∈ s.deliveries, d.id = x.id ∧
      d.status = .pending ∧ d.attempts < MAX_ATTEMPTS ∧ (∀ h ∈ s.hands, h.delivery.id ≠ x.id) ∧
      claims now locked s.webhooks s.deliveries d = true := by
    intro x hx
    obtain ⟨d, hd, hret⟩ := mem_claim.mp hx
    obtain ⟨hin, hpend⟩ := mem_due hd
    have hall := List.all_eq_true.mp hc d hd
    simp only [Bool.and_eq_true, decide_eq_true_eq, Bool.not_eq_true', List.any_eq_false, beq_iff_eq] at hall
    have hid := returned_id hret
    refine ⟨d, hin, hid.symm, hpend, hall.1, fun h hh heq => hall.2 h hh (heq.trans hid), ?_⟩
    obtain ⟨w, hw, -⟩ := Option.map_eq_some_iff.mp hret
    rw [claims, hw, Option.isSome_some, Bool.and_true]
    exact List.any_eq_true.mpr ⟨d, hd, beq_self_eq_true _⟩
  have hrows : ∀ d ∈ (s.claimed replica now locked).deliveries, ∃ d₀ ∈ s.deliveries, d₀.id = d.id ∧
      d.status = d₀.status ∧
      d.attempts = d₀.attempts + if claims now locked s.webhooks s.deliveries d₀ then 1 else 0 := by
    intro d hd
    obtain ⟨d₀, hd₀, rfl⟩ := mem_update.mp hd
    refine ⟨d₀, hd₀, ?_⟩
    split
    · exact ⟨rfl, rfl, rfl⟩
    · exact ⟨rfl, rfl, rfl⟩
  have hspent : ∀ k, (s.claimed replica now locked).spent k = s.spent k +
      ((claim now locked s.webhooks s.deliveries).1.map fun d => (⟨replica, d, false⟩ : Hand)).countP
        fun h => h.delivery.id == k && !h.posted := by
    intro k
    rw [Sys.spent, Sys.claimed, List.countP_append, ← Nat.add_assoc]
    rfl
  have hcount := spent_claimed hs.keyed replica now locked
  -- what is spent of a delivery that is in the batch, and of another
  have hone : ∀ x ∈ (claim now locked s.webhooks s.deliveries).1,
      (s.claimed replica now locked).spent x.id ≤ s.spent x.id + 1 := by
    intro x hx
    rw [hspent]
    exact Nat.add_le_add_left (hcount x.id).1 _
  have hsame : ∀ k, (∀ x ∈ (claim now locked s.webhooks s.deliveries).1, x.id ≠ k) →
      (s.claimed replica now locked).spent k = s.spent k := by
    intro k hk
    rw [hspent, (hcount k).2 hk, Nat.add_zero]
  refine ⟨?_, fun d hd => ?_, ?_, fun h hh => ?_, fun h hh d hd hid => ?_, fun d hd => ?_, fun k => ?_,
    fun k hk => ?_⟩
  · exact hs.keyed.update fun _ => rfl
  · obtain ⟨d₀, hd₀, hid, -⟩ := hrows d hd
    rw [← hid]
    exact hs.below d₀ hd₀
  · refine keyed_append.mpr ⟨hs.hands, ?_, fun h hh x hx => ?_⟩
    · have hkeyed := keyed_claim now locked s.webhooks hs.keyed
      rw [Keyed, List.map_map]
      exact hkeyed
    · obtain ⟨y, hy, rfl⟩ := List.mem_map.mp hx
      obtain ⟨d, -, -, -, -, hfree, -⟩ := hbatch y hy
      exact hfree h hh
  · rcases List.mem_append.mp hh with hh | hh
    · exact hs.hands_below h hh
    · obtain ⟨x, hx, rfl⟩ := List.mem_map.mp hh
      obtain ⟨d, hd, hid, -⟩ := hbatch x hx
      rw [← hid]
      exact hs.below d hd
  · obtain ⟨d₀, hd₀, hid₀, hstatus, -⟩ := hrows d hd
    rw [hstatus]
    rcases List.mem_append.mp hh with hh | hh
    · exact hs.held h hh d₀ hd₀ (hid₀.trans hid)
    · obtain ⟨x, hx, rfl⟩ := List.mem_map.mp hh
      obtain ⟨d', hd', hid', hpend, -⟩ := hbatch x hx
      rw [hs.keyed.eq hd₀ hd' (hid₀.trans (hid.trans hid'.symm))]
      exact hpend
  · obtain ⟨d₀, hd₀, hid, -, hatt⟩ := hrows d hd
    have hle := hs.spent d₀ hd₀
    rw [← hid, hatt]
    by_cases hin : ∃ x ∈ (claim now locked s.webhooks s.deliveries).1, x.id = d₀.id
    · obtain ⟨x, hx, hxid⟩ := hin
      obtain ⟨d', hd', hid', -, -, -, hclaims⟩ := hbatch x hx
      obtain rfl := hs.keyed.eq hd' hd₀ (hid'.trans hxid)
      rw [if_pos hclaims, ← hxid]
      have hplus := hone x hx
      rw [hxid] at hplus ⊢
      omega
    · rw [hsame _ fun x hx hxid => hin ⟨x, hx, hxid⟩]
      omega
  · by_cases hin : ∃ x ∈ (claim now locked s.webhooks s.deliveries).1, x.id = k
    · obtain ⟨x, hx, rfl⟩ := hin
      obtain ⟨d, hd, hid, -, hlt, -⟩ := hbatch x hx
      have hle := hs.spent d hd
      have hplus := hone x hx
      rw [hid] at hle
      omega
    · rw [hsame _ fun x hx hxid => hin ⟨x, hx, hxid⟩]
      exact hs.bounded k
  · rw [hsame]
    · exact hs.unborn k hk
    · rintro x hx rfl
      obtain ⟨d, hd, hid, -⟩ := hbatch x hx
      have hlt := hs.below d hd
      rw [hid] at hlt
      exact absurd (show s.next_id ≤ x.id from hk) (by omega)

theorem Inv.step (hs : Inv s) (hc : unhurried s a = true) (h : step s a = some t) : Inv t := by
  cases step_did h with
  | announced new hnew hnext hids _ hhands hposts => exact hs.announced hnew hnext hids hhands hposts
  | dropped p q hrows hnext hhands hposts =>
    refine hs.fewer ?_ hnext ?_ (fun h hh => ?_) (fun d hd => ?_) fun k => ?_
    · rw [hrows]
      exact hs.keyed.delete p
    · rw [hhands]
      exact hs.hands.delete q
    · rw [hhands] at hh
      exact ⟨h, (mem_delete.mp hh).1, rfl⟩
    · rw [hrows] at hd
      exact ⟨d, (mem_delete.mp hd).1, rfl, rfl, Or.inl rfl⟩
    · rw [Sys.spent, Sys.posted, hposts, hhands]
      exact Nat.add_le_add_left (spent_delete q s.hands k) _
  | claimed _ => exact hs.claimed hc
  | @posted replica x₁ hh hr hp =>
    refine hs.fewer hs.keyed rfl (hs.hands.update fun _ => rfl) (fun x hx => ?_)
      (fun d hd => ⟨d, hd, rfl, rfl, Or.inl rfl⟩) fun k => spent_posted hh hr hp _ rfl k
    obtain ⟨x₀, hx₀, rfl⟩ := mem_update.mp hx
    refine ⟨x₀, hx₀, ?_⟩
    split <;> rfl
  | @answered replica now id ans recorded x₁ hh hr =>
    obtain ⟨f, hf, hsame⟩ := record_eq now x₁.delivery s.deliveries ans
    have hnone : ∀ x ∈ delete (is_hand replica id) s.hands, x.delivery.id ≠ x₁.delivery.id := by
      intro x hx hid
      obtain ⟨hx, hnot⟩ := mem_delete.mp hx
      rw [hs.hands.eq hx hh hid, hr] at hnot
      cases hnot
    refine hs.fewer ?_ rfl (hs.hands.delete _) (fun x hx => ⟨x, (mem_delete.mp hx).1, rfl⟩) (fun d hd => ?_)
      fun k => Nat.add_le_add_left (spent_delete _ s.hands k) _
    · simp only
      split
      · rw [hf]
        exact hs.keyed.update fun d => (hsame d).1
      · exact hs.keyed
    · simp only at hd
      split at hd
      · rw [hf] at hd
        obtain ⟨d₀, hd₀, rfl⟩ := mem_update.mp hd
        refine ⟨d₀, hd₀, ?_⟩
        split
        · rename_i hmine
          refine ⟨(hsame d₀).1.symm, (hsame d₀).2.1.symm, Or.inr fun x hx => ?_⟩
          rw [(hsame d₀).1, beq_iff_eq.mp hmine]
          exact hnone x hx
        · exact ⟨rfl, rfl, Or.inl rfl⟩
      · exact ⟨d, hd, rfl, rfl, Or.inl rfl⟩

/-! ## The law -/

/-- A delivery that is settled is in nobody's hands. -/
theorem Inv.settled (hs : Inv s) (hd : d ∈ s.deliveries) (hst : d.status ≠ .pending) :
    Settled d.id d.status s := by
  refine ⟨hs.below d hd, fun d' hd' hid => ?_, fun h hh hid => hst (hs.held h hh d hd hid.symm)⟩
  rw [hs.keyed.eq hd' hd hid]

/-- A row that is new was announced. -/
theorem announced_of_new (h : Webhooks.step s a = some t) (hd : d ∈ t.deliveries) :
    (∃ d' ∈ s.deliveries, d'.id = d.id) ∨ announces a = some d.kind := by
  cases step_did h with
  | announced new hnew _ _ hkind _ _ =>
    rw [hnew] at hd
    rcases List.mem_append.mp hd with hd | hd
    · exact Or.inl ⟨d, hd, rfl⟩
    · exact Or.inr (hkind d hd)
  | dropped p q hrows _ _ _ =>
    rw [hrows] at hd
    exact Or.inl ⟨d, (mem_delete.mp hd).1, rfl⟩
  | claimed _ =>
    obtain ⟨d₀, hd₀, rfl⟩ := mem_update.mp hd
    refine Or.inl ⟨d₀, hd₀, ?_⟩
    split <;> rfl
  | posted _ _ _ => exact Or.inl ⟨d, hd, rfl⟩
  | @answered replica now id ans recorded x₁ _ _ =>
    obtain ⟨f, hf, hsame⟩ := record_eq now x₁.delivery s.deliveries ans
    simp only at hd
    split at hd
    · rw [hf] at hd
      obtain ⟨d₀, hd₀, rfl⟩ := mem_update.mp hd
      refine Or.inl ⟨d₀, hd₀, ?_⟩
      split
      · exact (hsame d₀).1.symm
      · rfl
    · exact Or.inl ⟨d, hd, rfl⟩

/-- **Webhook deliveries settle once in every run in which no dispatcher claims what another
still has in hand**, nor anything for a seventh time: what is sent stays sent, what has failed
is not posted again, nothing is posted more often than `MAX_ATTEMPTS`, and no direct message is
forwarded. -/
theorem deliveries_settle_once {tr : List (Trans Sys Act)} (h : Run (Rel Webhooks.step) .start tr s)
    (hc : ∀ e ∈ tr, unhurried e.pre e.act = true) : SettleLaw tr s := by
  have hinv : ∀ e ∈ tr, Inv e.post :=
    h.invariant_post (C := fun s a => unhurried s a = true) inv_start (fun s a t hs hc hr => hs.step hc hr) hc
  have hend : Inv s :=
    h.invariant (C := fun s a => unhurried s a = true) inv_start (fun s a t hs hc hr => hs.step hc hr) hc
  -- what is settled somewhere in the run is so at its end
  have hsettled : ∀ tr₁ e tr₂, tr = tr₁ ++ e :: tr₂ → ∀ d ∈ e.post.deliveries, d.status ≠ .pending →
      Settled d.id d.status s ∧ s.posted d.id = e.post.posted d.id := by
    intro tr₁ e tr₂ htr d hd hst
    subst htr
    exact ((hinv e (by simp)).settled hd hst).run hst h.split.2.2
  refine ⟨fun tr₁ e tr₂ htr d hd hst => ?_, fun tr₁ e tr₂ htr d hd hst => ?_, fun k => ?_, fun e he d hd => ?_⟩
  · have hrow := (hsettled tr₁ e tr₂ htr d hd (by rw [hst]; decide)).1.row
    rw [hst] at hrow
    exact hrow
  · obtain ⟨hrow, hposted⟩ := hsettled tr₁ e tr₂ htr d hd (by rw [hst]; decide)
    have hstays := hrow.row
    rw [hst] at hstays
    exact ⟨hstays, hposted⟩
  · exact (Nat.le_add_right _ _).trans (hend.bounded k)
  · exact announced_of_new (h.rel e he) hd

end Steps

/-! ## Closed runs -/

/-- A webhook for what is said in the channels. -/
def hook : Webhook := ⟨1, 1, "https://hooks.test/crew", "generic", ["message"], none, true⟩

/-- What Ada says in a channel, and what she says to one agent. -/
def said : Message := ⟨1, 1, some 5, none, none, 7, some "desk", "build is green"⟩

def whispered : Message := ⟨2, 1, none, some 8, none, 7, some "desk", "for you only"⟩

/-- A webhook, a channel, and both messages. -/
def announced : List Act :=
  [.webhook_add hook, .directory [⟨7, 1, "ada", none⟩] [⟨5, "general"⟩], .message 0 said, .message 0 whispered]

/-- The first post runs into a timeout. The second, by another dispatcher, is answered. -/
def retried : List Act :=
  announced ++ [.claim 0 0 [], .post 0, .answer 0 0 0 (.error "timed out") true, .tick (secs 2),
    .claim 1 (secs 2) [], .post 1, .answer 1 (secs 2) 0 (.response 204) true]

theorem retried_run : (exec Webhooks.step .start retried).isSome = true := by decide

/-- The run, and where it ends. -/
def retried_end : List (Trans Sys Act) × Sys := (exec Webhooks.step .start retried).get retried_run

theorem retried_unhurried : ∀ e ∈ retried_end.1, unhurried e.pre e.act = true :=
  List.all_eq_true.mp (by decide)

/-- The one delivery is sent, in two posts. -/
theorem deliveries_settle_once_retried :
    retried_end.2.deliveries.map (fun d => (d.id, d.status, d.summary)) =
        [(0, .sent, "#general ada: build is green")] ∧
      retried_end.2.posted 0 = 2 ∧ SettleLaw retried_end.1 retried_end.2 :=
  ⟨by decide, by decide, deliveries_settle_once (exec_get retried_run) retried_unhurried⟩

/-- The first post takes more than a minute. Another dispatcher has sent the delivery by then, and
the first writes that it has failed. -/
def overtaken : List Act :=
  announced ++ [.claim 0 0 [], .post 0, .tick (secs 61), .claim 1 (secs 61) [], .post 1,
    .answer 1 (secs 61) 0 (.response 204) true, .answer 0 (secs 61) 0 (.error "timed out") true]

/-- A dispatcher dies of each post, and another claims the delivery a minute later. -/
def lethal : List Act :=
  announced ++ (List.range 7).flatMap fun n =>
    [.claim n (secs (60 * n)) [], .post n, .crash n, .tick (secs (60 * (n + 1)))]

theorem overtaken_run : (exec Webhooks.step .start overtaken).isSome = true := by decide

theorem lethal_run : (exec Webhooks.step .start lethal).isSome = true := by decide

/-- The runs, and where they end. -/
def overtaken_end : List (Trans Sys Act) × Sys := (exec Webhooks.step .start overtaken).get overtaken_run

def lethal_end : List (Trans Sys Act) × Sys := (exec Webhooks.step .start lethal).get lethal_run

/-- What was sent is pending again, and what may be posted six times is posted a seventh time. -/
theorem deliveries_settle_twice :
    (Run (Rel Webhooks.step) .start overtaken_end.1 overtaken_end.2 ∧
      (overtaken_end.1.map fun e => e.post.deliveries.map WebhookDelivery.status).getLast? = some [.pending] ∧
      ¬ SettleLaw overtaken_end.1 overtaken_end.2) ∧
      Run (Rel Webhooks.step) .start lethal_end.1 lethal_end.2 ∧ lethal_end.2.posted 0 = 7 ∧
      ¬ SettleLaw lethal_end.1 lethal_end.2 := by
  have hcount : lethal_end.2.posted 0 = 7 := by decide
  refine ⟨⟨exec_get overtaken_run, by decide, fun hlaw => ?_⟩, exec_get lethal_run, hcount, fun hlaw => ?_⟩
  · -- the tenth step records the success, the eleventh the failure
    have hsplit : overtaken_end.1 = overtaken_end.1.take 9 ++ overtaken_end.1.get ⟨9, by decide⟩ ::
        overtaken_end.1.drop 10 := by
      rw [List.get_eq_getElem, List.getElem_cons_drop, List.take_append_drop]
    have hsent : ∃ d ∈ (overtaken_end.1.get ⟨9, by decide⟩).post.deliveries, d.status = .sent ∧
        ∃ d' ∈ overtaken_end.2.deliveries, d'.id = d.id ∧ d'.status ≠ .sent := by decide
    obtain ⟨d, hd, hst, d', hd', hid, hnot⟩ := hsent
    exact hnot (hlaw.sent _ _ _ hsplit d hd hst d' hd' hid)
  · have hle := hlaw.bounded 0
    rw [hcount] at hle
    exact absurd hle (by decide)

end CrewSync.Webhooks
