/-
An inbox is handed out and confirmed in two phases.

A reference is handed out under a delivery, which stays out until its recipient confirms
it; only then is the receipt delivered. Fetches and confirmations of one window run side by
side: the guard locks its row for share, so that only a resume waits. A fetch asks whether a
reference is confirmed, or still owed, in one statement, and hands it out in another; the
index that keeps its deliveries apart covers those that are out, and not those that were
confirmed. So a confirmation that commits in between is not seen, and what it confirmed is
handed out a second time. Where nothing a fetch found outstanding is confirmed behind its
back (`undisturbed`), it is not.
-/
import CrewSync.Fetches
import CrewSync.Runs

set_option autoImplicit false

namespace CrewSync.Deliveries

open Error Schema Rows Sessions References
open Routing Inbox Fetches Runs Crew

/-! ## The system -/

/-- The committed database, and those before it. -/
structure Sys extends Committed Db

def Sys.start (db : Db) : Sys := ⟨⟨db, []⟩⟩

def Sys.read (s : Sys) (n : ℕ) : Db := (s.view n).getD s.db

def Sys.after (s : Sys) (db' : Db) : Sys := ⟨s.push db'⟩

def Sys.commit {α : Type} (s : Sys) (res : BusResult (α × Db)) : Sys := conclude s (fun q => s.after q.2) res

/-- What can happen next. `reads` says how many commits ago each statement of a fetch read.
The broker may offer again whatever it likes. -/
inductive Act where
  | fetch (seen now : ℕ) (reads : Stmt → ℕ) (b : Backends) (answer : BusResult (List InboxRef))
      (auth : AuthCtx) (limit : Option ℤ)
  | confirm (seen now : ℕ) (b : Backends) (auth : AuthCtx) (delivery_ids : List (Option Uuid))
  | resume (now : ℕ) (auth : AuthCtx) (ttl_seconds : Option ℤ) (raw : String)
  /-- Any other part of the server commits. -/
  | other (db' : Db)

/-- The windows that are registered. -/
def windows (db : Db) : List (Uuid × Uuid × String) :=
  db.agent_sessions.map fun s => (s.id, s.agent_id, s.label)

/-- The label is a window's. -/
def registered (agent_id : Uuid) (session : String) (db : Db) : Bool :=
  (windows db).any fun w => w.2.1 == agent_id && w.2.2 == session

/-- A session is its window's, and an agent token has none. -/
def speaks (auth : AuthCtx) (db : Db) : Bool :=
  match auth.session_id, auth.session_epoch with
  | some id, some _ => (windows db).contains (id, auth.agent_id, auth.session)
  | none, none => true
  | _, _ => false

/-- The address of a seat. -/
def address (k : Uuid) (db : Db) : Option (Uuid × String) :=
  (one (fun m => m.id == k) db.conversation_memberships).map fun m => (m.agent_id, m.session)

/-- The messages, and the seats they are for. -/
def reached (db : Db) : List (Uuid × Uuid) :=
  (db.message_recipients.map fun r => (r.message_id, r.membership_id)) ++
    db.message_receipts.map fun r => (r.message_id, r.membership_id)

/-- The seats of one message have addresses of their own. -/
def apart (db : Db) : Bool :=
  (reached db).all fun p => (reached db).all fun q =>
    p.1 != q.1 || p.2 == q.2 || address p.2 db != address q.2 db

/-- A notification says which observation it is about. -/
def observed (db : Db) : Bool :=
  db.inbox_events.all fun e => e.kind != .receipt || e.dedup != ""

/-- No statement outside this system hands out, confirms or delivers, registers a window,
or takes a seat from its address. A receipt it writes is of a message nobody was told of. -/
def leaves_inbox (db db' : Db) : Bool :=
  db'.inbox_deliveries == db.inbox_deliveries && windows db' == windows db &&
    db.conversation_memberships.all (fun m => address m.id db' == address m.id db) &&
    (reached db).all (fun p => (reached db').contains p) &&
    db'.message_receipts.all (fun r' =>
      db.message_receipts.any (fun r => r.message_id == r'.message_id &&
        r.membership_id == r'.membership_id && r.delivered_at == r'.delivered_at) ||
      r'.delivered_at.isNone && !db.inbox_deliveries.any fun d => d.message_id == r'.message_id) &&
    decide (Keyed ConversationMembership.id db'.conversation_memberships) && apart db' && observed db'

section Steps

variable (sha256 : String → String)

/-- One step. -/
def step (s : Sys) : Act → Option Sys
  | .fetch seen now reads b answer auth limit =>
    match s.view seen with
    | none => none
    | some v =>
      if speaks auth s.db then
        some (s.commit (fetch_at (fun st => s.read (reads st)) now auth v b answer limit s.db))
      else none
  | .confirm seen now b auth delivery_ids =>
    match s.view seen with
    | none => none
    | some v =>
      if speaks auth s.db then
        some (s.commit ((confirm now v b auth delivery_ids s.db).map fun q => (q.1, q.2.2)))
      else none
  | .resume now auth ttl_seconds raw => some (s.commit (resume sha256 now auth ttl_seconds raw s.db))
  | .other db' => if leaves_inbox s.db db' then some (s.after db') else none

end Steps

/-- The deliveries a step hands out. -/
def handed (s : Sys) : Act → List Uuid
  | .fetch seen now reads b answer auth limit =>
    match s.view seen with
    | none => []
    | some v =>
      match fetch_at (fun st => s.read (reads st)) now auth v b answer limit s.db with
      | .error _ => []
      | .ok (batch, _) => batch.references.map fun x => x.delivery_id
  | _ => []

/-- Who acts. -/
def caller : Act → Option AuthCtx
  | .fetch _ _ _ _ _ auth _ => some auth
  | .confirm _ _ _ auth _ => some auth
  | .resume _ auth _ _ => some auth
  | .other _ => none

/-! ## The law -/

/-- One confirmation among several. -/
structure ConfirmCall where
  seen : Db
  now : ℕ
  delivery_ids : List (Option Uuid)

/-- The same caller confirms again and again, and every call is accepted. -/
def confirm_all (b : Backends) (auth : AuthCtx) : List ConfirmCall → Db → BusResult Db
  | [], db => pure db
  | c :: cs, db => do
    let (_, _, db') ← confirm c.now c.seen b auth c.delivery_ids db
    confirm_all b auth cs db'

/-- What was confirmed and what was delivered, without the time. -/
def undated (db : Db) : Db :=
  { db with
    inbox_deliveries := db.inbox_deliveries.map fun d =>
      { d with confirmed_at := d.confirmed_at.map fun _ => 0 }
    message_receipts := db.message_receipts.map fun r =>
      { r with delivered_at := r.delivered_at.map fun _ => 0 } }

/-- What a confirmation promises of a database. -/
structure ConfirmLaw (db : Db) : Prop where
  disjoint : ∀ now v b auth ids c asked db', confirm now v b auth ids db = .ok (c, asked, db') →
    ∀ k ∈ c.confirmed, k ∉ c.already_confirmed
  /-- Nobody is told of another's deliveries. -/
  own : ∀ now v b auth ids c asked db', confirm now v b auth ids db = .ok (c, asked, db') →
    ∀ k, k ∈ c.confirmed ∨ k ∈ c.already_confirmed →
      (∃ d ∈ db.inbox_deliveries, d.id = k) ∧ ∀ d ∈ db.inbox_deliveries, d.id = k →
        d.recipient_key = caller_key auth ∧ d.team_id = auth.team_id
  /-- Which ids are confirmed matters, and not how often or in which calls. -/
  grouping : ∀ b auth calls calls' db₁ db₂,
    (∀ k, (∃ c ∈ calls, some k ∈ c.delivery_ids) ↔ ∃ c ∈ calls', some k ∈ c.delivery_ids) →
    confirm_all b auth calls db = .ok db₁ → confirm_all b auth calls' db = .ok db₂ →
    undated db₁ = undated db₂

/-- A delivery, and the same one later. -/
structure Carried (s : Sys) (a : Act) (d d' : InboxDelivery) : Prop where
  id : d'.id = d.id
  reference : reference d' = reference d
  confirmed : ∀ t, d.confirmed_at = some t → d'.confirmed_at = some t
  epoch : d.epoch.getD 0 ≤ d'.epoch.getD 0
  /-- Its epoch is the one it was last handed out at. -/
  handed : d'.epoch = d.epoch ∨ d.id ∈ handed s a

/-- The call confirms `d`, which is out to its caller, at the epoch it is out at. -/
def confirms (a : Act) (d : InboxDelivery) : Prop :=
  ∃ seen now b auth ids, a = .confirm seen now b auth ids ∧ some d.id ∈ ids ∧
    d.recipient_key = caller_key auth ∧ d.confirmed_at = none ∧ d.epoch = auth.session_epoch

/-- What two-phase delivery promises of a run. -/
structure DeliveryLaw (tr : List (Trans Sys Act)) : Prop where
  /-- A reference is out under one delivery. -/
  once_out : ∀ e ∈ tr, OnceOut e.post.db
  carried : ∀ e ∈ tr, ∀ d ∈ e.pre.db.inbox_deliveries, ∃ d' ∈ e.post.db.inbox_deliveries,
    Carried e.pre e.act d d'
  handed_at : ∀ e ∈ tr, ∀ k ∈ handed e.pre e.act, ∀ auth, caller e.act = some auth →
    ∃ d ∈ e.post.db.inbox_deliveries, d.id = k ∧ d.confirmed_at = none ∧
      d.recipient_key = caller_key auth ∧ d.epoch = auth.session_epoch
  /-- Only the recipient delivers, at the epoch of the hand-out. -/
  delivered : ∀ e ∈ tr, ∀ r' ∈ e.post.db.message_receipts, r'.delivered_at.isSome = true →
    (∃ r ∈ e.pre.db.message_receipts, r.message_id = r'.message_id ∧
      r.membership_id = r'.membership_id ∧ r.delivered_at = r'.delivered_at) ∨
    ∃ d ∈ e.pre.db.inbox_deliveries, confirms e.act d ∧ d.message_id = r'.message_id ∧
      d.membership_id = some r'.membership_id ∧
      ∃ x, address r'.membership_id e.pre.db = some x ∧ d.recipient_key = recipient_key x.1 x.2
  confirmations : ∀ e ∈ tr, ConfirmLaw e.pre.db ∧ ConfirmLaw e.post.db
  /-- What was confirmed is not handed out again. -/
  never_again : ∀ e ∈ tr, ∀ d' ∈ e.post.db.inbox_deliveries, d'.id ∈ handed e.pre e.act →
    ∀ d ∈ e.pre.db.inbox_deliveries, d.confirmed_at.isSome = true → reference d ≠ reference d'

/-- The reference was confirmed after `v`. -/
def confirmed_since (key : String) (q : Uuid × String) (v db : Db) : Bool :=
  is_confirmed key q.1 q.2 db && !is_confirmed key q.1 q.2 v

/-- The offers of the broker. -/
def offers (answer : BusResult (List InboxRef)) : List InboxRef :=
  match answer with
  | .ok rs => rs
  | .error _ => []

/-- No reference that a fetch finds outstanding is confirmed before it commits: neither one
the broker offers, nor one that is owed. -/
def undisturbed (s : Sys) : Act → Bool
  | .fetch _ now reads _ answer auth _ =>
    ((offers answer).zipIdx.all fun x => (names x.1).all fun q =>
        !confirmed_since (caller_key auth) q (s.read (reads (.confirmed x.2))) s.db) &&
      ((owed_messages now auth (caller_key auth) (s.read (reads .owed))).all fun o =>
        !confirmed_since (caller_key auth) (o.message.id, "") (s.read (reads .owed)) s.db) &&
      ((owed_receipts now auth (caller_key auth) (s.read (reads .receipts))).all fun o =>
        !confirmed_since (caller_key auth) (o.event.message_id, o.event.dedup)
          (s.read (reads .receipts)) s.db)
  | _ => true

/-! ## Confirming again -/

section Confirming

variable {now : ℕ} {v db db' : Db} {b : Backends} {auth : AuthCtx} {ids : List Uuid} {d : InboxDelivery}
  {ids' : List Uuid}

/-- The receipts of the deliveries among `ids` that the caller confirms. -/
def delivers (auth : AuthCtx) (ids : List Uuid) (db : Db) (r : MessageReceipt) : Bool :=
  (db.inbox_deliveries.filter (confirmable auth ids)).any fun d =>
    d.membership_id == some r.membership_id && d.message_id == r.message_id

/-- What a confirmation writes. -/
def marked (now : ℕ) (auth : AuthCtx) (ids : List Uuid) (db : Db) : Db :=
  { db with
    inbox_deliveries := update (confirmable auth ids) (fun d => { d with confirmed_at := some now })
      db.inbox_deliveries
    message_receipts := update (delivers auth ids db)
      (fun r => { r with delivered_at := some (r.delivered_at.getD now) }) db.message_receipts }

theorem mapM_fetch_eq_ok {e : BusError} : ∀ {l : List (Option Uuid)} {ids : List Uuid},
    l.mapM (fun i => Error.fetch i e) = .ok ids → l = ids.map some := by
  intro l
  induction l with
  | nil =>
    intro ids h
    simp only [List.mapM_nil, pure_eq_ok] at h
    rw [← h]
    rfl
  | cons i l ih =>
    intro ids h
    simp only [List.mapM_cons, bind_eq_ok, fetch_eq_ok, pure_eq_ok] at h
    obtain ⟨k, rfl, ks, hks, rfl⟩ := h
    rw [ih hks]
    rfl

/-- What an accepted confirmation answers and writes. -/
theorem confirm_ok {delivery_ids : List (Option Uuid)} {c : Confirmed} {asked : List Call}
    (h : confirm now v b auth delivery_ids db = .ok (c, asked, db')) :
    ∃ ids, delivery_ids = ids.map some ∧ require_window auth v = .ok () ∧ db' = marked now auth ids db ∧
      c.confirmed = (db.inbox_deliveries.filter (confirmable auth ids)).map (fun d => d.id) ∧
      c.already_confirmed = ((db.inbox_deliveries.filter fun d => is_own auth ids d &&
        d.confirmed_at.isSome).map fun d => d.id).filter fun k => !c.confirmed.contains k := by
  simp only [confirm, bind_eq_ok, pure_eq_ok, Prod.mk.injEq] at h
  obtain ⟨_, -, _, hwindow, _, -, ids, hids, _, -, rfl, -, rfl⟩ := h
  exact ⟨ids, mapM_fetch_eq_ok hids, hwindow, rfl, rfl, rfl⟩

theorem is_own_of_confirmable (h : confirmable auth ids d = true) : is_own auth ids d = true := by
  simp only [confirmable, Bool.and_eq_true] at h
  exact h.1.1.1

theorem confirmable_open (h : confirmable auth ids d = true) : d.confirmed_at = none := by
  simp only [confirmable, Bool.and_eq_true, Option.isNone_iff_eq_none] at h
  exact h.1.1.2

theorem is_own_iff : is_own auth ids d = true ↔
    d.id ∈ ids ∧ d.recipient_key = caller_key auth ∧ d.team_id = auth.team_id := by
  simp [is_own, and_assoc]

/-- Which of the ids are confirmed is seen one by one. -/
theorem confirmable_append (d : InboxDelivery) :
    confirmable auth (ids ++ ids') d = (confirmable auth ids d || confirmable auth ids' d) := by
  simp only [confirmable, is_own, List.contains_append]
  cases ids.contains d.id <;> cases ids'.contains d.id <;> simp

theorem confirmable_congr (h : ∀ k, k ∈ ids ↔ k ∈ ids') (d : InboxDelivery) :
    confirmable auth ids d = confirmable auth ids' d := by
  have hmem : ids.contains d.id = ids'.contains d.id := by
    rw [Bool.eq_iff_iff, List.contains_iff_mem, List.contains_iff_mem]
    exact h d.id
  rw [confirmable, confirmable, is_own, is_own, hmem]

/-- Time does not matter to what is confirmable. -/
theorem confirmable_undated (d : InboxDelivery) :
    confirmable auth ids { d with confirmed_at := d.confirmed_at.map fun _ => 0 } =
      confirmable auth ids d := by
  simp only [confirmable, is_own]
  cases d.confirmed_at <;> rfl

theorem delivers_undated (r : MessageReceipt) :
    delivers auth ids (undated db) r = delivers auth ids db r := by
  simp only [delivers, undated, List.any_filter, List.any_map, Function.comp_def, confirmable_undated]

/-- Two databases that differ in no other table. -/
theorem inbox_ext {a b : Db} (hdeliveries : a.inbox_deliveries = b.inbox_deliveries)
    (hreceipts : a.message_receipts = b.message_receipts)
    (hrest : { a with inbox_deliveries := [], message_receipts := [] } =
      { b with inbox_deliveries := [], message_receipts := [] }) : a = b := by
  cases a
  cases b
  simp only [Db.mk.injEq] at hrest ⊢
  simp only at hdeliveries hreceipts
  simp [hrest, hdeliveries, hreceipts]

/-- Without the time, a confirmation is what it is at time zero. -/
theorem undated_marked (now : ℕ) (auth : AuthCtx) (ids : List Uuid) (db : Db) :
    undated (marked now auth ids db) = marked 0 auth ids (undated db) := by
  have hdeliveries : (undated (marked now auth ids db)).inbox_deliveries =
      (marked 0 auth ids (undated db)).inbox_deliveries := by
    simp only [undated, marked, update, List.map_map]
    refine List.map_congr_left fun d _ => ?_
    simp only [Function.comp_apply, confirmable_undated]
    cases confirmable auth ids d <;> rfl
  have hreceipts : (undated (marked now auth ids db)).message_receipts =
      (marked 0 auth ids (undated db)).message_receipts := by
    have hsame : ∀ r, delivers auth ids (undated db) { r with delivered_at := r.delivered_at.map fun _ => 0 } =
        delivers auth ids db r := fun r => delivers_undated r
    show List.map _ (update _ _ _) = update _ _ (List.map _ _)
    unfold update
    rw [List.map_map, List.map_map]
    refine List.map_congr_left fun r _ => ?_
    simp only [Function.comp_apply, hsame]
    cases delivers auth ids db r
    · rfl
    · cases r.delivered_at <;> rfl
  exact inbox_ext hdeliveries hreceipts rfl

theorem marked_nil (auth : AuthCtx) (db : Db) : marked 0 auth [] db = db := by
  have hnone : ∀ d, confirmable auth [] d = false := fun d => by simp [confirmable, is_own]
  have hdeliveries := update_eq_self (p := confirmable auth [])
    (f := fun d => { d with confirmed_at := some 0 }) (t := db.inbox_deliveries) fun d _ => hnone d
  have hreceipts := update_eq_self (p := delivers auth [] db)
    (f := fun r => { r with delivered_at := some (r.delivered_at.getD 0) }) (t := db.message_receipts)
    fun r _ => by simp [delivers, hnone]
  unfold marked
  rw [hdeliveries, hreceipts]

theorem marked_congr (h : ∀ k, k ∈ ids ↔ k ∈ ids') (db : Db) :
    marked 0 auth ids db = marked 0 auth ids' db := by
  have hsame : confirmable auth ids = confirmable auth ids' := funext (confirmable_congr h)
  unfold marked delivers
  rw [hsame]

/-- What the second of two confirmations delivers was not the first's. -/
theorem delivers_append (ids ids' : List Uuid) (db : Db) (r : MessageReceipt) :
    delivers auth (ids ++ ids') db r =
      (delivers auth ids db r || delivers auth ids' (marked 0 auth ids db) r) := by
  have hrow : ∀ d : InboxDelivery, confirmable auth ids d = true →
      confirmable auth ids' { d with confirmed_at := some 0 } = false := by
    intro d _
    simp [confirmable]
  rw [Bool.eq_iff_iff, Bool.or_eq_true]
  simp only [delivers, marked, List.any_filter, List.any_eq_true, Bool.and_eq_true]
  constructor
  · rintro ⟨d, hd, hconf, hq⟩
    rw [confirmable_append, Bool.or_eq_true] at hconf
    by_cases hfirst : confirmable auth ids d = true
    · exact Or.inl ⟨d, hd, hfirst, hq⟩
    · refine Or.inr ⟨d, mem_update_of_not hd (by simpa using hfirst), ?_, hq⟩
      exact hconf.resolve_left hfirst
  · rintro (⟨d, hd, hconf, hq⟩ | ⟨d, hd, hconf, hq⟩)
    · refine ⟨d, hd, ?_, hq⟩
      rw [confirmable_append, hconf, Bool.true_or]
    · obtain ⟨x, hx, rfl⟩ := mem_update.mp hd
      by_cases hfirst : confirmable auth ids x = true
      · rw [if_pos hfirst, hrow x hfirst] at hconf
        cases hconf
      · rw [if_neg hfirst] at hconf hq
        refine ⟨x, hx, ?_, hq⟩
        rw [confirmable_append, hconf, Bool.or_true]

/-- Two confirmations in a row are one. -/
theorem marked_marked (ids ids' : List Uuid) (db : Db) :
    marked 0 auth ids' (marked 0 auth ids db) = marked 0 auth (ids ++ ids') db := by
  have hdeliveries : (marked 0 auth ids' (marked 0 auth ids db)).inbox_deliveries =
      (marked 0 auth (ids ++ ids') db).inbox_deliveries := by
    simp only [marked, update, List.map_map]
    refine List.map_congr_left fun d _ => ?_
    simp only [Function.comp_apply, confirmable_append]
    cases hfirst : confirmable auth ids d
    · rfl
    · simp [confirmable]
  have hreceipts : (marked 0 auth ids' (marked 0 auth ids db)).message_receipts =
      (marked 0 auth (ids ++ ids') db).message_receipts := by
    show update _ _ (update _ _ _) = update _ _ _
    unfold update
    rw [List.map_map]
    refine List.map_congr_left fun r _ => ?_
    have hsame : ∀ r', delivers auth ids' (marked 0 auth ids db) { r with delivered_at := r' } =
        delivers auth ids' (marked 0 auth ids db) r := fun _ => rfl
    rw [Function.comp_apply, delivers_append]
    cases delivers auth ids db r
    · rfl
    · simp only [if_true, Bool.true_or, hsame, Option.getD_some, ite_self]
  exact inbox_ext hdeliveries hreceipts rfl

/-- Many confirmations are one of all their ids. -/
theorem undated_confirm_all {calls : List ConfirmCall} : ∀ {db db' : Db},
    confirm_all b auth calls db = .ok db' → ∃ ids : List Uuid,
      (∀ k, k ∈ ids ↔ ∃ c ∈ calls, some k ∈ c.delivery_ids) ∧
      undated db' = marked 0 auth ids (undated db) := by
  induction calls with
  | nil =>
    intro db db' h
    simp only [confirm_all, pure_eq_ok] at h
    exact ⟨[], by simp, by rw [marked_nil, h]⟩
  | cons c cs ih =>
    intro db db' h
    simp only [confirm_all, bind_eq_ok] at h
    obtain ⟨⟨c₁, asked, db₁⟩, h1, h2⟩ := h
    obtain ⟨ids, hids, -, rfl, -, -⟩ := confirm_ok h1
    obtain ⟨rest, hrest, hend⟩ := ih h2
    refine ⟨ids ++ rest, fun k => ?_, ?_⟩
    · rw [List.mem_append, hrest]
      simp [hids]
    · rw [hend, undated_marked, marked_marked]

/-- **A confirmation keeps to the caller's own, and may be made again.** -/
theorem confirm_law (hk : Keyed InboxDelivery.id db.inbox_deliveries) : ConfirmLaw db := by
  refine ⟨fun now v b auth delivery_ids c asked db' h k hk hk' => ?_,
    fun now v b auth delivery_ids c asked db' h k hin => ?_,
    fun b auth calls calls' db₁ db₂ hsame h₁ h₂ => ?_⟩
  · obtain ⟨ids, -, -, -, -, halready⟩ := confirm_ok h
    rw [halready, List.mem_filter] at hk'
    simp [hk] at hk'
  · obtain ⟨ids, -, -, -, hconfirmed, halready⟩ := confirm_ok h
    -- in either list, the id is a row's that is the caller's
    have hrow : ∃ d ∈ db.inbox_deliveries, d.id = k ∧ is_own auth ids d = true := by
      rcases hin with hin | hin
      · rw [hconfirmed] at hin
        obtain ⟨d, hd, hid⟩ := List.mem_map.mp hin
        exact ⟨d, (List.mem_filter.mp hd).1, hid, is_own_of_confirmable (List.mem_filter.mp hd).2⟩
      · rw [halready, List.mem_filter] at hin
        obtain ⟨d, hd, hid⟩ := List.mem_map.mp hin.1
        have hown := (List.mem_filter.mp hd).2
        rw [Bool.and_eq_true] at hown
        exact ⟨d, (List.mem_filter.mp hd).1, hid, hown.1⟩
    obtain ⟨d, hd, hid, hown⟩ := hrow
    refine ⟨⟨d, hd, hid⟩, fun d' hd' hid' => ?_⟩
    rw [hk.eq hd' hd (hid'.trans hid.symm)]
    exact (is_own_iff.mp hown).2
  · obtain ⟨ids, hids, hend⟩ := undated_confirm_all h₁
    obtain ⟨ids', hids', hend'⟩ := undated_confirm_all h₂
    rw [hend, hend']
    exact marked_congr (fun k => (hids k).trans ((hsame k).trans (hids' k).symm)) _

end Confirming

/-! ## The invariant -/

/-- What holds of every committed database. -/
structure Sound (db : Db) : Prop where
  ids : Keyed InboxDelivery.id db.inbox_deliveries
  once_out : OnceOut db
  /-- A message is handed out to a seat. -/
  seated : ∀ d ∈ db.inbox_deliveries, d.event_dedup = "" → d.membership_id.isSome = true
  seats : ∀ d ∈ db.inbox_deliveries, ∀ k, d.membership_id = some k → (d.message_id, k) ∈ reached db ∧
    ∃ x, address k db = some x ∧ d.recipient_key = recipient_key x.1 x.2
  delivered : ∀ d ∈ db.inbox_deliveries, d.confirmed_at.isSome = true → ∀ k, d.membership_id = some k →
    ∀ r ∈ db.message_receipts, r.message_id = d.message_id → r.membership_id = k →
      r.delivered_at.isSome = true
  /-- A window's deliveries have its epoch, and others have none. -/
  epochs : ∀ d ∈ db.inbox_deliveries, ∀ agent_id session, d.recipient_key = recipient_key agent_id session →
    d.epoch.isSome = registered agent_id session db
  labels : ∀ w ∈ windows db, w.2.2 ≠ ""
  members : Keyed ConversationMembership.id db.conversation_memberships
  apart : apart db = true
  observed : observed db = true

/-- What was is still there. -/
structure Grows (v db : Db) : Prop where
  windows : windows v = windows db
  seats : ∀ k x, address k v = some x → address k db = some x
  reached : ∀ p ∈ reached v, p ∈ reached db

/-- What holds in every reachable state. -/
structure Inv (s : Sys) : Prop where
  sound : Sound s.db
  past : ∀ v ∈ s.past, Sound v ∧ Grows v s.db

theorem Grows.refl (db : Db) : Grows db db := ⟨rfl, fun _ _ h => h, fun _ h => h⟩

theorem Grows.trans {a b c : Db} (h : Grows a b) (h' : Grows b c) : Grows a c :=
  ⟨h.windows.trans h'.windows, fun k x hx => h'.seats k x (h.seats k x hx),
    fun p hp => h'.reached p (h.reached p hp)⟩

section Facts

variable {s : Sys} {v db db' : Db} {auth : AuthCtx} {k k' : Uuid} {x : Uuid × String} {m : Uuid} {now : ℕ}
  {key : String}

theorem Inv.read (hs : Inv s) (n : ℕ) : Sound (s.read n) ∧ Grows (s.read n) s.db := by
  unfold Sys.read
  cases hn : s.view n with
  | none => exact ⟨hs.sound, Grows.refl _⟩
  | some v =>
    rcases Committed.mem_of_view hn with rfl | hv
    · exact ⟨hs.sound, Grows.refl _⟩
    · exact hs.past v hv

theorem Inv.view (hs : Inv s) {n : ℕ} (h : s.view n = some v) : Sound v ∧ Grows v s.db := by
  have hread : s.read n = v := by
    rw [Sys.read, h]
    rfl
  rw [← hread]
  exact hs.read n

theorem Inv.after (hs : Inv s) (hsound : Sound db') (hgrows : Grows s.db db') : Inv (s.after db') := by
  refine ⟨hsound, fun v hv => ?_⟩
  rcases List.mem_cons.mp hv with rfl | hv
  · exact ⟨hs.sound, hgrows⟩
  · exact ⟨(hs.past v hv).1, (hs.past v hv).2.trans hgrows⟩

/-- The two seats a message has at one address are one. -/
theorem Sound.same_seat (hs : Sound db) (hk : (m, k) ∈ reached db) (hk' : (m, k') ∈ reached db)
    (hx : address k db = some x) (hx' : address k' db = some x) : k = k' := by
  have hall := List.all_eq_true.mp (List.all_eq_true.mp hs.apart _ hk) _ hk'
  simpa [hx, hx'] using hall

theorem registered_of_windows (h : windows v = windows db) (agent_id : Uuid) (session : String) :
    registered agent_id session v = registered agent_id session db := by
  rw [registered, h, registered]

/-- Who may act for an address has the epoch of its window, if it is a window's. -/
theorem epoch_of_speaks (hs : Sound db) (hgrows : Grows v db) (hspeaks : speaks auth db = true)
    (hwindow : require_window auth v = .ok ()) :
    auth.session_epoch.isSome = registered auth.agent_id auth.session db ∧
      auth.session_id.isSome = auth.session_epoch.isSome := by
  unfold speaks at hspeaks
  split at hspeaks
  · -- a window's session names it
    rename_i id ep hid hep
    rw [List.contains_iff_mem] at hspeaks
    have hreg : registered auth.agent_id auth.session db = true :=
      List.any_eq_true.mpr ⟨_, hspeaks, by simp⟩
    rw [hid, hep, hreg]
    exact ⟨rfl, rfl⟩
  · rename_i hid hep
    rw [hid, hep]
    refine ⟨?_, rfl⟩
    rw [Option.isSome_none, eq_comm, ← registered_of_windows hgrows.windows]
    unfold require_window at hwindow
    by_cases hempty : auth.session = ""
    · -- no window has the empty label
      rw [registered_of_windows hgrows.windows, Bool.eq_false_iff]
      intro hreg
      obtain ⟨w, hw, hlabel⟩ := List.any_eq_true.mp hreg
      rw [Bool.and_eq_true, beq_iff_eq, beq_iff_eq] at hlabel
      exact hs.labels w hw (hlabel.2.trans hempty)
    · rw [if_neg (by simp [hid, hempty]), ensure_eq_ok] at hwindow
      simpa [registered, windows, List.any_map, Function.comp_def] using hwindow
  · cases hspeaks

/-- The seat a broker's reference is handed to. -/
theorem recipient_seat_some (hs : Sound v) (h : recipient_seat auth m v = some k) :
    (m, k) ∈ reached v ∧ address k v = some (auth.agent_id, auth.session) := by
  simp only [recipient_seat, Option.bind_eq_bind, Option.bind_eq_some_iff, Option.pure_def,
    Option.some.injEq] at h
  obtain ⟨r, hr, rfl⟩ := h
  have hpos := pos_of_one hr
  simp only [Bool.and_eq_true, beq_iff_eq, List.any_eq_true] at hpos
  obtain ⟨hm, cm, hcm, ⟨⟨hid, hagent⟩, hsession⟩, -⟩ := hpos
  refine ⟨List.mem_append_left _ (List.mem_map.mpr ⟨r, mem_of_one hr, ?_⟩), ?_⟩
  · rw [hm]
  · rw [address, hs.members.one_iff.mpr ⟨hcm, hid⟩, Option.map_some, hagent, hsession]

/-- What a row of `reconcile_from_postgres` says. -/
theorem owed_message {o : OwedMessage} (h : o ∈ owed_messages now auth key v) :
    (o.message.id, o.membership_id) ∈ reached v ∧
      address o.membership_id v = some (auth.agent_id, auth.session) ∧
      ∃ r ∈ v.message_receipts, r.message_id = o.message.id ∧ r.membership_id = o.membership_id ∧
        r.delivered_at = none := by
  obtain ⟨r, hr, cm, c, hcm, hmsg, -, hseat, hund⟩ := owed_row h
  have hid : o.message.id = r.message_id := by simpa using pos_of_one hmsg
  simp only [undelivered, Bool.and_eq_true, beq_iff_eq, Option.isNone_iff_eq_none] at hund
  obtain ⟨⟨⟨⟨⟨⟨hagent, hsession⟩, -⟩, hdel⟩, -⟩, -⟩, -⟩ := hund
  refine ⟨List.mem_append_right _ (List.mem_map.mpr ⟨r, hr, by rw [hid, hseat]⟩), ?_, r, hr, hid.symm,
    hseat, hdel⟩
  rw [← hseat, address, hcm, Option.map_some, hagent, hsession]

/-- What a row of `reconcile_receipt_events` says. -/
theorem owed_receipt {o : OwedReceipt} (hs : Sound v) (h : o ∈ owed_receipts now auth key v) :
    o.event.dedup ≠ "" ∧ is_confirmed key o.event.message_id o.event.dedup v = false := by
  obtain ⟨he, hflight, c, -, -, hcol⟩ := noted_row h
  simp only [collectable, Bool.and_eq_true, beq_iff_eq] at hcol
  have hobs := List.all_eq_true.mp hs.observed o.event he
  refine ⟨by simpa [hcol.1.1.1.2] using hobs, ?_⟩
  rw [Bool.eq_false_iff]
  intro hconf
  obtain ⟨d, hd, href, hsome⟩ := is_confirmed_iff.mp hconf
  simp only [reference, Prod.mk.injEq] at href
  simp only [receipt_in_flight, List.any_eq_false] at hflight
  exact hflight d hd (by simp [href, hsome])

end Facts

/-! ## Handing out -/

section Placing

variable {now : ℕ} {auth : AuthCtx} {db db' : Db} {message_id k : Uuid} {membership_id : Option Uuid}
  {dedup : String}

/-- What may be handed out to the caller. -/
structure Fits (auth : AuthCtx) (db : Db) (message_id : Uuid) (membership_id : Option Uuid)
    (dedup : String) : Prop where
  seated : dedup = "" → membership_id.isSome = true
  seat : ∀ k, membership_id = some k → (message_id, k) ∈ reached db ∧
    address k db = some (auth.agent_id, auth.session)

/-- What is read of other tables. -/
theorem reads_of_delivers (h : Delivers db db') : windows db' = windows db ∧
    (∀ k, address k db' = address k db) ∧ reached db' = reached db ∧
    db'.message_receipts = db.message_receipts ∧ apart db' = apart db ∧ observed db' = observed db ∧
    db'.conversation_memberships = db.conversation_memberships := by
  obtain ⟨l, rfl⟩ := h
  exact ⟨rfl, fun _ => rfl, rfl, rfl, rfl, rfl, rfl⟩

theorem grows_of_delivers (h : Delivers db db') : Grows db db' := by
  obtain ⟨hwindows, haddress, hreached, -⟩ := reads_of_delivers h
  refine ⟨hwindows.symm, fun k x hx => ?_, fun p hp => ?_⟩
  · rw [haddress]
    exact hx
  · rw [hreached]
    exact hp

theorem Sound.placed (hs : Sound db) (hepoch : auth.session_epoch.isSome =
      registered auth.agent_id auth.session db) (hfits : Fits auth db message_id membership_id dedup)
    (h : Placed now auth (caller_key auth) message_id membership_id dedup db k db') : Sound db' := by
  have hdel := h.delivers
  obtain ⟨hwindows, haddress, hreached, hreceipts, hapart, hobs, hmembers⟩ := reads_of_delivers hdel
  have hreg := registered_of_windows hwindows
  refine ⟨?_, ?_, ?_, ?_, ?_, ?_, ?_, hmembers ▸ hs.members, hapart ▸ hs.apart, hobs ▸ hs.observed⟩
  · cases h with
    | made subject stream_seq k _ hfresh => exact hs.ids.insert_into hfresh
    | again offer x _ _ _ => exact hs.ids.update fun _ => rfl
  · exact h.once_out hs.once_out
  · exact h.every hs.seated (fun _ _ => hfits.seated) fun d _ _ hP _ _ => hP
  · rw [hreached]
    simp only [haddress]
    refine h.every hs.seats (fun _ _ k hk => ?_) fun d _ _ hP _ _ => hP
    obtain ⟨hin, hx⟩ := hfits.seat k hk
    exact ⟨hin, _, hx, rfl⟩
  · rw [hreceipts]
    refine h.every hs.delivered (fun _ _ hconf => absurd hconf (by simp [delivery_row])) ?_
    intro d _ offer _ _ hopen hconf
    have hconf : d.confirmed_at.isSome = true := hconf
    rw [hopen] at hconf
    cases hconf
  · simp only [hreg]
    refine h.every hs.epochs (fun _ _ agent_id session hkey => ?_) fun d _ offer _ href _ agent_id session hkey => ?_
    · obtain ⟨rfl, rfl⟩ := recipient_key_inj hkey
      exact hepoch
    · have hkey : d.recipient_key = recipient_key agent_id session := hkey
      rw [(Prod.mk.inj href).1] at hkey
      obtain ⟨rfl, rfl⟩ := recipient_key_inj hkey
      exact hepoch
  · rw [hwindows]
    exact hs.labels

end Placing

/-! ## A whole fetch -/

section Fetching

variable {now : ℕ} {auth : AuthCtx} {db db' : Db} {ks : List Uuid} {s : Sys}
  {C : Uuid → Option Uuid → String → Prop} {reads : Stmt → ℕ} {answer : BusResult (List InboxRef)}
  {m : Uuid} {o : Option Uuid} {e : String}

theorem Fits.delivers (h : Fits auth db m o e) (hdel : Delivers db db') : Fits auth db' m o e := by
  obtain ⟨-, haddress, hreached, -⟩ := reads_of_delivers hdel
  refine ⟨h.seated, fun k hk => ?_⟩
  rw [hreached, haddress]
  exact h.seat k hk

theorem Places.sound (h : Places now auth (caller_key auth) C ks db db') (hs : Sound db)
    (hepoch : auth.session_epoch.isSome = registered auth.agent_id auth.session db)
    (hfits : ∀ m o e, C m o e → Fits auth db m o e) : Sound db' := by
  have hboth : Delivers db db' ∧ Sound db' := by
    refine Places.keeps (P := fun d => Delivers db d ∧ Sound d) h ⟨Delivers.refl db, hs⟩ ?_
    intro m o e k d d' hc hp hd
    refine ⟨hd.1.trans hp.delivers, hd.2.placed ?_ ((hfits m o e hc).delivers hd.1) hp⟩
    rw [hepoch]
    exact (registered_of_windows (reads_of_delivers hd.1).1 _ _).symm
  exact hboth.2

theorem Places.carries (h : Places now auth (caller_key auth) C ks db db') (hs : Sound db)
    (hepoch : auth.session_epoch.isSome = registered auth.agent_id auth.session db)
    (hfits : ∀ m o e, C m o e → Fits auth db m o e) :
    (∀ d ∈ db.inbox_deliveries, ∃ d' ∈ db'.inbox_deliveries, d'.id = d.id ∧ reference d' = reference d ∧
      d'.confirmed_at = d.confirmed_at ∧ d.epoch.getD 0 ≤ d'.epoch.getD 0 ∧
      (d'.epoch = d.epoch ∨ d.id ∈ ks)) ∧
    ∀ k ∈ ks, ∃ d ∈ db'.inbox_deliveries, d.id = k ∧ d.confirmed_at = none ∧
      d.recipient_key = caller_key auth ∧ d.epoch = auth.session_epoch ∧
      ∃ m o e, C m o e ∧ reference d = (caller_key auth, m, e) := by
  induction h with
  | nil =>
    exact ⟨fun d hd => ⟨d, hd, rfl, rfl, rfl, le_refl _, Or.inl rfl⟩,
      fun k hk => absurd hk (List.not_mem_nil)⟩
  | @cons m k o e ks db db₁ db₂ hc hp hrest ih =>
    have hreg := registered_of_windows (reads_of_delivers hp.delivers).1 auth.agent_id auth.session
    have hs₁ : Sound db₁ := hs.placed hepoch (hfits m o e hc) hp
    obtain ⟨hall, hout⟩ := ih hs₁ (hepoch.trans hreg.symm) fun m' o' e' hc' =>
      (hfits m' o' e' hc').delivers hp.delivers
    obtain ⟨hall₁, x, hx, hxid, hxopen, hxepoch, hxref⟩ := hp.carries hs.once_out
    refine ⟨fun d hd => ?_, fun k' hk' => ?_⟩
    · obtain ⟨d₁, hd₁, hid, href, hconf, hle, hlast⟩ := hall₁ d hd
      obtain ⟨d₂, hd₂, hid', href', hconf', hle', hlast'⟩ := hall d₁ hd₁
      refine ⟨d₂, hd₂, hid'.trans hid, href'.trans href, hconf'.trans hconf, hle.trans hle', ?_⟩
      rcases hlast with rfl | ⟨hk, -⟩
      · rcases hlast' with hsame | hin
        · exact Or.inl hsame
        · exact Or.inr (List.mem_cons_of_mem _ hin)
      · exact Or.inr (List.mem_cons.mpr (Or.inl (hid.symm.trans hk)))
    · by_cases hin : k' ∈ ks
      · exact hout k' hin
      · -- handed out now, and not again
        obtain rfl : k' = k := (List.mem_cons.mp hk').resolve_right hin
        obtain ⟨y, hy, hyid, hyref, hyconf, -, hylast⟩ := hall x hx
        refine ⟨y, hy, hyid.trans hxid, hyconf.trans hxopen, ?_, ?_, m, o, e, hc, hyref.trans hxref⟩
        · exact (Prod.mk.inj (hyref.trans hxref)).1
        · rcases hylast with hsame | hin'
          · exact hsame.trans hxepoch
          · exact absurd (hxid ▸ hin') hin

/-- What a fetch hands out is for a seat of the caller's. -/
theorem fits_of_hands (hs : Inv s)
    (h : Hands (fun st => s.read (reads st)) now auth answer m o e) : Fits auth s.db m o e := by
  rcases h with ⟨rs, i, r, -, -, -, -, rfl, hseated⟩ | ⟨x, hx, rfl, rfl, rfl⟩ | ⟨x, hx, rfl, rfl, rfl⟩
  · obtain ⟨hsound, hgrows⟩ := hs.read (reads (.seat i))
    refine ⟨hseated, fun k hk => ?_⟩
    obtain ⟨hin, hx⟩ := recipient_seat_some hsound hk
    exact ⟨hgrows.reached _ hin, hgrows.seats _ _ hx⟩
  · obtain ⟨-, hgrows⟩ := hs.read (reads .owed)
    obtain ⟨hin, hx', -⟩ := owed_message hx
    refine ⟨fun _ => rfl, fun k hk => ?_⟩
    rw [← Option.some.inj hk]
    exact ⟨hgrows.reached _ hin, hgrows.seats _ _ hx'⟩
  · obtain ⟨hsound, -⟩ := hs.read (reads .receipts)
    exact ⟨fun hempty => absurd hempty (owed_receipt hsound hx).1, fun k hk => nomatch hk⟩

/-- A message that is owed is not confirmed yet. -/
theorem owed_unconfirmed {v : Db} {x : OwedMessage} (hs : Sound v)
    (h : x ∈ owed_messages now auth (caller_key auth) v) :
    is_confirmed (caller_key auth) x.message.id "" v = false := by
  obtain ⟨hin, haddress, r, hr, hrm, hrk, hnone⟩ := owed_message h
  rw [Bool.eq_false_iff]
  intro hconf
  obtain ⟨d, hd, href, hsome⟩ := is_confirmed_iff.mp hconf
  simp only [reference, Prod.mk.injEq] at href
  obtain ⟨hkey, hm, hdedup⟩ := href
  -- the seat it was handed to is the seat that is owed
  obtain ⟨k, hk⟩ := Option.isSome_iff_exists.mp (hs.seated d hd hdedup)
  obtain ⟨hin', y, hy, hykey⟩ := hs.seats d hd k hk
  obtain ⟨hagent, hsession⟩ := recipient_key_inj (hkey.symm.trans hykey)
  have hy' : address k v = some (auth.agent_id, auth.session) := by
    rw [hy, hagent, hsession]
  obtain rfl := hs.same_seat hin (hm ▸ hin') haddress hy'
  have hdelivered := hs.delivered d hd hsome _ hk r hr (hrm.trans hm.symm) hrk
  rw [hnone] at hdelivered
  cases hdelivered

/-- In an undisturbed fetch, nothing that is handed out was confirmed. -/
theorem unconfirmed_of_hands (hs : Inv s) {seen : ℕ} {b : Backends} {limit : Option ℤ}
    (hund : undisturbed s (.fetch seen now reads b answer auth limit) = true)
    (h : Hands (fun st => s.read (reads st)) now auth answer m o e) :
    is_confirmed (caller_key auth) m e s.db = false := by
  simp only [undisturbed, Bool.and_eq_true, List.all_eq_true, confirmed_since, Bool.not_eq_true',
    Bool.and_eq_false_iff, Bool.not_eq_false'] at hund
  obtain ⟨⟨hoffers, howed⟩, hnoted⟩ := hund
  rcases h with ⟨rs, i, r, rfl, hr, hnames, hnot, -, -⟩ | ⟨x, hx, rfl, -, rfl⟩ | ⟨x, hx, rfl, -, rfl⟩
  · have hall := hoffers (r, i) (List.mk_mem_zipIdx_iff_getElem?.mpr hr)
    rw [hnames, Option.all_some] at hall
    simpa [hnot] using hall
  · exact (howed x hx).resolve_right (by simp [owed_unconfirmed (hs.read (reads .owed)).1 hx])
  · exact (hnoted x hx).resolve_right (by simp [(owed_receipt (hs.read (reads .receipts)).1 hx).2])

end Fetching

/-! ## What a step does -/

/-- What a step did: nothing, or the one thing its action stands for. -/
inductive Did (s : Sys) (a : Act) : Sys → Prop
  | same : handed s a = [] → Did s a s
  | fetched {seen now : ℕ} {reads : Stmt → ℕ} {b : Backends} {answer : BusResult (List InboxRef)}
      {auth : AuthCtx} {limit : Option ℤ} {v : Db} {batch : InboxBatch} {db' : Db} :
      a = .fetch seen now reads b answer auth limit → s.view seen = some v → speaks auth s.db = true →
      fetch_at (fun st => s.read (reads st)) now auth v b answer limit s.db = .ok (batch, db') →
      handed s a = batch.references.map (fun x => x.delivery_id) → Did s a (s.after db')
  | confirmed {seen now : ℕ} {b : Backends} {auth : AuthCtx} {delivery_ids : List (Option Uuid)}
      {v : Db} {c : Confirmed} {asked : List Call} {db' : Db} :
      a = .confirm seen now b auth delivery_ids → s.view seen = some v → speaks auth s.db = true →
      confirm now v b auth delivery_ids s.db = .ok (c, asked, db') → Did s a (s.after db')
  | resumed {p : AgentSession → Bool} {f : AgentSession → AgentSession} :
      handed s a = [] → (∀ x, (f x).id = x.id ∧ (f x).agent_id = x.agent_id ∧ (f x).label = x.label) →
      Did s a (s.after { s.db with agent_sessions := update p f s.db.agent_sessions })
  | other {db' : Db} : handed s a = [] → leaves_inbox s.db db' = true → Did s a (s.after db')

section Steps

variable {sha256 : String → String} {s t : Sys} {a : Act} {db : Db}

theorem step_did (h : step sha256 s a = some t) : Did s a t := by
  cases a with
  | fetch seen now reads b answer auth limit =>
    simp only [step] at h
    split at h
    · cases h
    rename_i v hv
    split at h
    · rename_i hspeaks
      obtain rfl := Option.some.inj h
      cases hf : fetch_at (fun st => s.read (reads st)) now auth v b answer limit s.db with
      | error e => exact .same (by simp only [handed, hv, hf])
      | ok q => exact .fetched rfl hv hspeaks hf (by simp only [handed, hv, hf])
    · cases h
  | confirm seen now b auth delivery_ids =>
    simp only [step] at h
    split at h
    · cases h
    rename_i v hv
    split at h
    · rename_i hspeaks
      obtain rfl := Option.some.inj h
      cases hc : confirm now v b auth delivery_ids s.db with
      | error e => exact .same rfl
      | ok q => exact .confirmed rfl hv hspeaks hc
    · cases h
  | resume now auth ttl_seconds raw =>
    obtain rfl := Option.some.inj h
    cases hr : resume sha256 now auth ttl_seconds raw s.db with
    | error e => exact .same rfl
    | ok q =>
      simp only [resume, bind_eq_ok, pure_eq_ok] at hr
      obtain ⟨id, -, _, -, x, -, _, -, rfl⟩ := hr
      exact .resumed rfl fun _ => ⟨rfl, rfl, rfl⟩
  | other db' =>
    simp only [step] at h
    split at h
    · rename_i hl
      obtain rfl := Option.some.inj h
      exact .other rfl hl
    · cases h

/-- What any other statement leaves. -/
theorem leaves_inbox_iff {db' : Db} (h : leaves_inbox db db' = true) :
    db'.inbox_deliveries = db.inbox_deliveries ∧ Grows db db' ∧
      (∀ r' ∈ db'.message_receipts, (∃ r ∈ db.message_receipts, r.message_id = r'.message_id ∧
        r.membership_id = r'.membership_id ∧ r.delivered_at = r'.delivered_at) ∨
        r'.delivered_at = none ∧ ∀ d ∈ db.inbox_deliveries, d.message_id ≠ r'.message_id) ∧
      Keyed ConversationMembership.id db'.conversation_memberships ∧ apart db' = true ∧
      observed db' = true := by
  simp only [leaves_inbox, Bool.and_eq_true, Bool.or_eq_true, beq_iff_eq, decide_eq_true_eq,
    List.all_eq_true, List.any_eq_true, List.contains_iff_mem, Bool.not_eq_true', List.any_eq_false,
    Option.isNone_iff_eq_none, and_assoc] at h
  obtain ⟨hdel, hwindows, hseats, hreached, hreceipts, hmembers, hapart, hobs⟩ := h
  refine ⟨hdel, ⟨hwindows.symm, fun k x hx => ?_, hreached⟩, fun r' hr' => ?_, hmembers, hapart, hobs⟩
  · obtain ⟨m, hm, -⟩ := Option.map_eq_some_iff.mp hx
    have hid : m.id = k := by simpa using pos_of_one hm
    rw [← hid, hseats m (mem_of_one hm), hid]
    exact hx
  · exact hreceipts r' hr'

theorem Carried.refl (d : InboxDelivery) : Carried s a d d :=
  ⟨rfl, rfl, fun _ h => h, le_refl _, Or.inl rfl⟩

/-- A confirmation writes nothing else of a delivery. -/
theorem marked_row {now : ℕ} {auth : AuthCtx} {ids : List Uuid} {d : InboxDelivery}
    (h : d ∈ (marked now auth ids db).inbox_deliveries) :
    ∃ x ∈ db.inbox_deliveries, ∃ u, d = { x with confirmed_at := u } := by
  obtain ⟨x, hx, rfl⟩ := mem_update.mp h
  refine ⟨x, hx, ?_⟩
  split
  · exact ⟨some now, rfl⟩
  · exact ⟨x.confirmed_at, rfl⟩

/-- A confirmation keeps what holds of the tables. -/
theorem sound_marked (hs : Sound db) (now : ℕ) (auth : AuthCtx) (ids : List Uuid) :
    Sound (marked now auth ids db) ∧ Grows db (marked now auth ids db) := by
  have hkeys : (marked now auth ids db).message_receipts.map (fun r => (r.message_id, r.membership_id)) =
      db.message_receipts.map fun r => (r.message_id, r.membership_id) := map_key_update fun _ => rfl
  have hreached : reached (marked now auth ids db) = reached db := by
    unfold reached
    rw [hkeys]
    rfl
  have hapart : apart (marked now auth ids db) = apart db := by
    show ((reached (marked now auth ids db)).all fun p => (reached (marked now auth ids db)).all _) = _
    rw [hreached]
    rfl
  refine ⟨⟨hs.ids.update fun _ => rfl, ?_, ?_, ?_, ?_, ?_, hs.labels, hs.members, hapart.trans hs.apart,
    hs.observed⟩, ⟨rfl, fun _ _ h => h, fun p hp => hreached ▸ hp⟩⟩
  · intro d hd d' hd' hopen hopen' href
    obtain ⟨x, hx, rfl⟩ := mem_update.mp hd
    obtain ⟨x', hx', rfl⟩ := mem_update.mp hd'
    have hstrip : ∀ y : InboxDelivery, (if confirmable auth ids y = true then
        { y with confirmed_at := some now } else y).confirmed_at = none →
        (if confirmable auth ids y = true then { y with confirmed_at := some now } else y) = y := by
      intro y hy
      by_cases hc : confirmable auth ids y = true
      · rw [if_pos hc] at hy
        cases hy
      · rw [if_neg hc]
    have hx₁ := hstrip x hopen
    have hx₂ := hstrip x' hopen'
    rw [hx₁] at hopen href ⊢
    rw [hx₂] at hopen' href ⊢
    exact hs.once_out x hx x' hx' hopen hopen' href
  · intro d hd
    obtain ⟨x, hx, u, rfl⟩ := marked_row hd
    exact hs.seated x hx
  · intro d hd
    obtain ⟨x, hx, u, rfl⟩ := marked_row hd
    rw [hreached]
    exact hs.seats x hx
  · intro d hd hconf k hk r hr hrm hrk
    obtain ⟨x, hx, rfl⟩ := mem_update.mp hd
    obtain ⟨r₀, hr₀, rfl⟩ := mem_update.mp hr
    by_cases hdel : delivers auth ids db r₀ = true
    · rw [if_pos hdel]
      rfl
    · rw [if_neg hdel] at hrm hrk ⊢
      by_cases hx' : confirmable auth ids x = true
      · -- its receipt is delivered
        rw [if_pos hx'] at hrm hk
        refine absurd (List.any_eq_true.mpr ⟨x, List.mem_filter.mpr ⟨hx, hx'⟩, ?_⟩) hdel
        have hk : x.membership_id = some k := hk
        have hrm : r₀.message_id = x.message_id := hrm
        rw [hk, hrk, hrm, beq_self_eq_true, beq_self_eq_true]
        rfl
      · rw [if_neg hx'] at hconf hk hrm
        exact hs.delivered x hx hconf k hk r₀ hr₀ hrm hrk
  · intro d hd
    obtain ⟨x, hx, u, rfl⟩ := marked_row hd
    exact hs.epochs x hx

/-- The invariant is kept by every step. -/
theorem Inv.step (hs : Inv s) (h : Did s a t) : Inv t := by
  cases h with
  | same => exact hs
  | fetched _ hv hspeaks hf _ =>
    obtain ⟨hwindow, -, hplaces⟩ := fetch_at_places hf
    have hepoch := (epoch_of_speaks hs.sound (hs.view hv).2 hspeaks hwindow).1
    exact hs.after (Places.sound hplaces hs.sound hepoch fun _ _ _ hc => fits_of_hands hs hc)
      (grows_of_delivers hplaces.delivers)
  | confirmed _ _ _ hc =>
    obtain ⟨ids, -, -, rfl, -⟩ := confirm_ok hc
    obtain ⟨hsound, hgrows⟩ := sound_marked hs.sound _ _ ids
    exact hs.after hsound hgrows
  | @resumed p f _ hf =>
    have hwindows : windows { s.db with agent_sessions := update p f s.db.agent_sessions } = windows s.db := by
      have hkeys : ∀ x : AgentSession, ((f x).id, (f x).agent_id, (f x).label) = (x.id, x.agent_id, x.label) := by
        intro x
        rw [(hf x).1, (hf x).2.1, (hf x).2.2]
      exact map_key_update hkeys
    refine hs.after ⟨hs.sound.ids, hs.sound.once_out, hs.sound.seated, hs.sound.seats, hs.sound.delivered,
      ?_, hwindows ▸ hs.sound.labels, hs.sound.members, hs.sound.apart, hs.sound.observed⟩
      ⟨hwindows.symm, fun _ _ h => h, fun _ h => h⟩
    intro d hd agent_id session hkey
    rw [registered_of_windows hwindows]
    exact hs.sound.epochs d hd agent_id session hkey
  | @other db' _ hl =>
    obtain ⟨hdel, hgrows, hreceipts, hmembers, hapart, hobs⟩ := leaves_inbox_iff hl
    refine hs.after ⟨hdel ▸ hs.sound.ids, ?_, hdel ▸ hs.sound.seated, ?_, ?_, ?_,
      hgrows.windows ▸ hs.sound.labels, hmembers, hapart, hobs⟩ hgrows
    · unfold OnceOut
      rw [hdel]
      exact hs.sound.once_out
    · rw [hdel]
      intro d hd k hk
      obtain ⟨hin, x, hx, hkey⟩ := hs.sound.seats d hd k hk
      exact ⟨hgrows.reached _ hin, x, hgrows.seats k x hx, hkey⟩
    · rw [hdel]
      intro d hd hconf k hk r' hr' hrm hrk
      rcases hreceipts r' hr' with ⟨r, hr, hm, hk', hsame⟩ | ⟨-, hnobody⟩
      · rw [← hsame]
        exact hs.sound.delivered d hd hconf k hk r hr (hm.trans hrm) (hk'.trans hrk)
      · exact absurd hrm.symm (hnobody d hd)
    · rw [hdel]
      intro d hd agent_id session hkey
      rw [← registered_of_windows hgrows.windows]
      exact hs.sound.epochs d hd agent_id session hkey

end Steps

/-! ## The law over a run -/

section Laws

variable {sha256 : String → String} {s t : Sys} {a : Act} {tr : List (Trans Sys Act)}

theorem Did.carried (hs : Inv s) (h : Did s a t) :
    ∀ d ∈ s.db.inbox_deliveries, ∃ d' ∈ t.db.inbox_deliveries, Carried s a d d' := by
  cases h with
  | same | resumed => exact fun d hd => ⟨d, hd, Carried.refl d⟩
  | fetched _ hv hspeaks hf hhanded =>
    obtain ⟨hwindow, -, hplaces⟩ := fetch_at_places hf
    have hepoch := (epoch_of_speaks hs.sound (hs.view hv).2 hspeaks hwindow).1
    intro d hd
    obtain ⟨d', hd', hid, href, hconf, hle, hlast⟩ := (Places.carries hplaces hs.sound hepoch
      fun _ _ _ hc => fits_of_hands hs hc).1 d hd
    exact ⟨d', hd', hid, href, fun u hu => hconf.trans hu, hle, hhanded ▸ hlast⟩
  | @confirmed seen now b auth delivery_ids v c asked db' _ _ _ hc =>
    obtain ⟨ids, -, -, rfl, -⟩ := confirm_ok hc
    refine fun d hd => ⟨_, mem_update_of_mem hd, ?_⟩
    by_cases hconf : confirmable auth ids d = true
    · rw [if_pos hconf]
      refine ⟨rfl, rfl, fun u hu => ?_, le_refl _, Or.inl rfl⟩
      rw [confirmable_open hconf] at hu
      cases hu
    · rw [if_neg hconf]
      exact Carried.refl d
  | other _ hl => exact fun d hd => ⟨d, (leaves_inbox_iff hl).1 ▸ hd, Carried.refl d⟩

theorem Did.handed_at (hs : Inv s) (h : Did s a t) : ∀ k ∈ handed s a, ∀ auth, caller a = some auth →
    ∃ d ∈ t.db.inbox_deliveries, d.id = k ∧ d.confirmed_at = none ∧ d.recipient_key = caller_key auth ∧
      d.epoch = auth.session_epoch := by
  cases h with
  | same hnone | resumed hnone _ | other hnone _ => exact fun k hk => absurd (hnone ▸ hk) (List.not_mem_nil)
  | fetched ha hv hspeaks hf hhanded =>
    intro k hk auth hauth
    rw [ha] at hauth
    obtain rfl := Option.some.inj hauth
    obtain ⟨hwindow, -, hplaces⟩ := fetch_at_places hf
    have hepoch := (epoch_of_speaks hs.sound (hs.view hv).2 hspeaks hwindow).1
    obtain ⟨d, hd, hid, hopen, hkey, hep, -⟩ := (Places.carries hplaces hs.sound hepoch
      fun _ _ _ hc => fits_of_hands hs hc).2 k (hhanded ▸ hk)
    exact ⟨d, hd, hid, hopen, hkey, hep⟩
  | confirmed ha _ _ _ =>
    subst ha
    exact fun k hk => absurd hk (List.not_mem_nil)

/-- The caller confirms at the epoch of the hand-out. -/
theorem confirms_of_confirmable {db v : Db} (hs : Sound db) (hgrows : Grows v db) {auth : AuthCtx}
    (hspeaks : speaks auth db = true) (hwindow : require_window auth v = .ok ()) {ids : List Uuid}
    {d : InboxDelivery} (hd : d ∈ db.inbox_deliveries) (hconf : confirmable auth ids d = true) :
    d.recipient_key = caller_key auth ∧ d.confirmed_at = none ∧ d.epoch = auth.session_epoch := by
  obtain ⟨hepoch, -⟩ := epoch_of_speaks hs hgrows hspeaks hwindow
  obtain ⟨-, hkey, -⟩ := is_own_iff.mp (is_own_of_confirmable hconf)
  refine ⟨hkey, confirmable_open hconf, ?_⟩
  -- both have an epoch, or neither has
  have hboth : d.epoch.isSome = auth.session_epoch.isSome := (hs.epochs d hd _ _ hkey).trans hepoch.symm
  simp only [confirmable, Bool.and_eq_true, Bool.or_eq_true, Option.isNone_iff_eq_none, beq_iff_eq] at hconf
  rcases hconf.1.2 with (hnone | hnone) | heq
  · rw [hnone] at hboth ⊢
    exact (Option.not_isSome_iff_eq_none.mp (by rw [← hboth]; decide)).symm
  · rw [hnone] at hboth ⊢
    exact Option.not_isSome_iff_eq_none.mp (by rw [hboth]; decide)
  · exact heq

theorem Did.delivered (hs : Inv s) (h : Did s a t) :
    ∀ r' ∈ t.db.message_receipts, r'.delivered_at.isSome = true →
      (∃ r ∈ s.db.message_receipts, r.message_id = r'.message_id ∧ r.membership_id = r'.membership_id ∧
        r.delivered_at = r'.delivered_at) ∨
      ∃ d ∈ s.db.inbox_deliveries, confirms a d ∧ d.message_id = r'.message_id ∧
        d.membership_id = some r'.membership_id ∧
        ∃ x, address r'.membership_id s.db = some x ∧ d.recipient_key = recipient_key x.1 x.2 := by
  cases h with
  | same | resumed => exact fun r' hr' _ => Or.inl ⟨r', hr', rfl, rfl, rfl⟩
  | fetched _ _ _ hf _ =>
    obtain ⟨-, -, hplaces⟩ := fetch_at_places hf
    intro r' hr' _
    have hreceipts := (reads_of_delivers hplaces.delivers).2.2.2.1
    exact Or.inl ⟨r', hreceipts ▸ hr', rfl, rfl, rfl⟩
  | @confirmed seen now b auth delivery_ids v c asked db' ha hv hspeaks hc =>
    obtain ⟨ids, hids, hwindow, rfl, -⟩ := confirm_ok hc
    intro r' hr' hsome
    obtain ⟨r, hr, rfl⟩ := mem_update.mp hr'
    by_cases hdel : delivers auth ids s.db r = true
    · rw [if_pos hdel]
      obtain ⟨d, hd, hmatch⟩ := List.any_eq_true.mp hdel
      obtain ⟨hd, hconf⟩ := List.mem_filter.mp hd
      rw [Bool.and_eq_true, beq_iff_eq, beq_iff_eq] at hmatch
      obtain ⟨hkey, hopen, hepoch⟩ := confirms_of_confirmable hs.sound (hs.view hv).2 hspeaks hwindow hd hconf
      have hin : some d.id ∈ ids.map some :=
        List.mem_map_of_mem (is_own_iff.mp (is_own_of_confirmable hconf)).1
      exact Or.inr ⟨d, hd, ⟨_, _, _, _, _, ha, hids ▸ hin, hkey, hopen, hepoch⟩, hmatch.2, hmatch.1,
        (hs.sound.seats d hd _ hmatch.1).2⟩
    · rw [if_neg hdel]
      exact Or.inl ⟨r, hr, rfl, rfl, rfl⟩
  | other _ hl =>
    intro r' hr' hsome
    rcases (leaves_inbox_iff hl).2.2.1 r' hr' with hold | ⟨hnone, -⟩
    · exact Or.inl hold
    · rw [hnone] at hsome
      cases hsome

theorem Did.never_again (hs : Inv s) (hund : undisturbed s a = true) (h : Did s a t) :
    ∀ d' ∈ t.db.inbox_deliveries, d'.id ∈ handed s a → ∀ d ∈ s.db.inbox_deliveries,
      d.confirmed_at.isSome = true → reference d ≠ reference d' := by
  have ht := hs.step h
  cases h with
  | same hnone | resumed hnone _ | other hnone _ => exact fun d' _ hk => absurd (hnone ▸ hk) (List.not_mem_nil)
  | fetched ha hv hspeaks hf hhanded =>
    obtain ⟨hwindow, -, hplaces⟩ := fetch_at_places hf
    have hepoch := (epoch_of_speaks hs.sound (hs.view hv).2 hspeaks hwindow).1
    intro d' hd' hk d hd hconf href
    obtain ⟨x, hx, hid, -, -, -, m, o, e, hc, hxref⟩ := (Places.carries hplaces hs.sound hepoch
      fun _ _ _ hc => fits_of_hands hs hc).2 d'.id (hhanded ▸ hk)
    obtain rfl := ht.sound.ids.eq hx hd' hid
    have hnot := unconfirmed_of_hands hs (ha ▸ hund) hc
    rw [is_confirmed_iff.mpr ⟨d, hd, href.trans hxref, hconf⟩] at hnot
    cases hnot
  | confirmed ha _ _ _ =>
    subst ha
    exact fun d' _ hk => absurd hk (List.not_mem_nil)

/-- **Where no fetch is disturbed, an inbox is delivered in two phases, once.** -/
theorem delivered_once {db : Db} (hdb : Sound db) (hrun : Run (Rel (step sha256)) (Sys.start db) tr t)
    (hund : ∀ e ∈ tr, undisturbed e.pre e.act = true) : DeliveryLaw tr := by
  have hstart : Inv (Sys.start db) := ⟨hdb, fun v hv => absurd hv (List.not_mem_nil)⟩
  have hstep : ∀ s a t, Inv s → True → Rel (step sha256) s a t → Inv t :=
    fun s a t hs _ h => hs.step (step_did h)
  have hpre := hrun.invariant_pre (C := fun _ _ => True) hstart hstep fun _ _ => trivial
  have hpost := hrun.invariant_post (C := fun _ _ => True) hstart hstep fun _ _ => trivial
  have hdid : ∀ e ∈ tr, Did e.pre e.act e.post := fun e he => step_did (hrun.rel e he)
  exact ⟨fun e he => (hpost e he).sound.once_out, fun e he => Did.carried (hpre e he) (hdid e he),
    fun e he => Did.handed_at (hpre e he) (hdid e he), fun e he => Did.delivered (hpre e he) (hdid e he),
    fun e he => ⟨confirm_law (hpre e he).sound.ids, confirm_law (hpost e he).sound.ids⟩,
    fun e he => Did.never_again (hpre e he) (hund e he) (hdid e he)⟩

end Laws

/-! ## Two runs -/

/-- Bob's thread, with one message. -/
def bobs_thread : Conversation := { thread .postgres with created_by := 2, last_seq := 1 }

/-- Ada, in her window. -/
def ada : AuthCtx := { ada_at_desk with session_id := some 5, session_epoch := some 1 }

def desk : AgentSession :=
  { id := 5, agent_id := 1, parent_token := 8, label := "desk", token_hash := "first", epoch := 1,
    last_used_at := none, expires_at := secs 86400, revoked_at := none }

def adas_seat : ConversationMembership :=
  { id := 20, conversation_id := 7, agent_id := 1, session := "desk", session_id := some 5,
    role := .participant, state := .active, history_from_seq := none, invited_by := some 2,
    accepted_at := some 0, ended_at := none, superseded_by := none, transfer_from := none }

/-- What Bob has sent. -/
def hello : ConversationMessage :=
  { id := 50, conversation_id := 7, seq := 1, sender_agent := 2, sender_session := "", body := "hello",
    reply_to := none, request_id := 100, created_at := 0, deleted_at := none,
    publication_state := .stored, canonical_locator := none, uncertain_at := none,
    tombstoned_at := none, tombstone_reason := none, body_sha256 := none, backend := .postgres }

def receipt : MessageReceipt :=
  { message_id := 50, membership_id := 20, stored_at := some 0, delivered_at := none,
    presented_at := none, acknowledged_at := none, resolved_at := none, note := none }

def crew : Db :=
  { pair .postgres with
    api_tokens := [⟨8, 1, "owner", none, none⟩], agent_sessions := [desk], conversations := [bobs_thread],
    conversation_memberships := [adas_seat], conversation_messages := [hello],
    message_recipients := [⟨50, 20, 1, "desk"⟩], message_receipts := [receipt] }

def nowhere : Backends := ⟨false, [], fun _ => .ok ()⟩

theorem crew_sound : Sound crew := by
  have hempty : ∀ d, d ∉ crew.inbox_deliveries := fun d => List.not_mem_nil
  exact ⟨by decide, fun d hd => absurd hd (hempty d), fun d hd => absurd hd (hempty d),
    fun d hd => absurd hd (hempty d), fun d hd => absurd hd (hempty d), fun d hd => absurd hd (hempty d),
    by decide, by decide, by decide, by decide⟩

/-- Ada fetches at `now`, and her statements read so many commits ago. -/
def fetches (now : ℕ) (reads : Stmt → ℕ) : Act := .fetch 0 now reads nowhere (.ok []) ada none

/-- Ada is handed the message, confirms it, and asks for more. -/
def in_turn : List Act :=
  [fetches 0 fun _ => 0, .confirm 0 (secs 400) nowhere ada [some 1], fetches (secs 410) fun _ => 0,
    .resume (secs 420) ada none "second"]

theorem in_turn_run : (exec (step digest) (Sys.start crew) in_turn).isSome = true := by decide

theorem in_turn_undisturbed : ∀ e ∈ ((exec (step digest) (Sys.start crew) in_turn).get in_turn_run).1,
    undisturbed e.pre e.act = true := by
  decide +kernel

theorem delivered_once_in_turn :
    DeliveryLaw ((exec (step digest) (Sys.start crew) in_turn).get in_turn_run).1 :=
  delivered_once crew_sound (exec_get in_turn_run) in_turn_undisturbed

/-- What is owed is read one commit ago, and the rest at the commit. -/
def before : Stmt → ℕ
  | .owed => 1
  | _ => 0

/-- Ada fetches again, and confirms while that fetch is under way. -/
def at_once : List Act :=
  [fetches 0 fun _ => 0, .confirm 0 (secs 400) nowhere ada [some 1], fetches (secs 399) before]

theorem at_once_run : (exec (step digest) (Sys.start crew) at_once).isSome = true := by decide

/-- The message is handed out again, after it was confirmed. -/
theorem delivered_twice :
    ¬ DeliveryLaw ((exec (step digest) (Sys.start crew) at_once).get at_once_run).1 := by
  intro h
  have hagain : ∃ e ∈ ((exec (step digest) (Sys.start crew) at_once).get at_once_run).1,
      ∃ d' ∈ e.post.db.inbox_deliveries, d'.id ∈ handed e.pre e.act ∧
      ∃ d ∈ e.pre.db.inbox_deliveries, d.confirmed_at.isSome = true ∧ reference d = reference d' := by
    refine ⟨_, List.mem_of_getElem? (i := 2) rfl, ?_⟩
    decide +kernel
  obtain ⟨e, he, d', hd', hk, d, hd, hconf, href⟩ := hagain
  exact h.never_again e he d' hd' hk d hd hconf href

end CrewSync.Deliveries
