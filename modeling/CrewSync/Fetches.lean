/-
`fetch`, statement by statement.

A fetch is one transaction under `READ COMMITTED`: each of its statements reads what was
committed when that statement began, and what the transaction wrote itself. `view` says
what each of them saw. What it inserts or hands out again is locked until it commits, so
that its inserts are read at the commit; so is the window's row, which the guard has
locked. What is asked of the broker is left out: the broker may offer anything again.

Where nothing was committed in between, this is the `fetch` of `Inbox` (`fetch_at_once`).
-/
import CrewSync.Inbox

set_option autoImplicit false

namespace CrewSync.Fetches

open Error Schema Rows Sessions Conversations
open References Routing Inbox

/-! ## The statements -/

/-- The statements of a fetch that read a table. Those about an offer of the broker, or
about a row of a query, are numbered. -/
inductive Stmt where
  | route
  | confirmed (i : ℕ)
  | message (i : ℕ)
  | thread (i : ℕ)
  | seat (i : ℕ)
  | owed
  | insert_message (i : ℕ)
  | receipts
  | insert_receipt (i : ℕ)
  deriving DecidableEq, Repr

/-- The count of the confirmed deliveries of a reference is not zero. -/
def is_confirmed (key : String) (message_id : Uuid) (dedup : String) (db : Db) : Bool :=
  db.inbox_deliveries.any fun d => d.recipient_key == key && d.message_id == message_id &&
    d.event_dedup == dedup && d.confirmed_at.isSome

section Statements

variable (view : Stmt → Db) (now : ℕ) (auth : AuthCtx) (key : String)

/-- `record_broker_reference`, of the `i`th offer. -/
def record_at (i : ℕ) (r : InboxRef) (db : Db) : BusResult (Option InboxReference × Db) := do
  let payload ← Error.fetch r.payload
    (.Invalid "the broker held a reference this build cannot read")
  let message_id ← Error.fetch payload.message_id (.Invalid "a reference without a message id")
  let dedup := payload.dedup.getD ""
  if is_confirmed key message_id dedup (view (.confirmed i)) then pure (none, db)
  else
    match named_message message_id (view (.message i)) with
    | none => pure (none, db)
    | some (m, sender) => do
      let c ← Error.fetch (one (fun c => c.id == m.conversation_id) (view (.thread i)).conversations)
        (.Db "no rows returned")
      let membership := recipient_seat auth message_id (view (.seat i))
      if !open_to auth.agent_id (view (.thread i)) c || (membership.isNone && dedup.isEmpty) then
        pure (none, db)
      else
        let (delivery, db') := place now auth key message_id membership dedup
          (some (r.ack_subject, r.stream_seq)) db
        pure (delivery.map (reference_to m sender "broker" (payload.kind.getD "message")
          (1 < r.deliveries)), db')

/-- The offers of the broker, from the `i`th on. -/
def record_all_at : ℕ → List InboxRef → Db → BusResult (List InboxReference × Db)
  | _, [], db => pure ([], db)
  | i, r :: rs, db => do
    let (o, db') ← record_at view now auth key i r db
    let (refs, db'') ← record_all_at (i + 1) rs db'
    pure (o.toList ++ refs, db'')

/-- The broker's part of a fetch. -/
def consult_at (b : Backends) (answer : BusResult (List InboxRef)) (db : Db) :
    BusResult (List InboxReference × Option String × Db) :=
  match for_team b auth.team_id (view .route) with
  | .ok (.JetStream _) =>
    match answer with
    | .ok rs => do
      let (refs, db') ← record_all_at view now auth key 0 rs db
      pure (refs, none, db')
    | .error _ => pure ([], some broker_unreadable_note, db)
  | .ok .Postgres => pure ([], some bus_records_note, db)
  | .error _ => pure ([], some broker_unreadable_note, db)

/-- What a statement sees: what was committed, and the deliveries its own transaction
wrote, which are those it has handed out as `refs`. The version such a row replaces is in
flight only if the row is. -/
def own_over (refs : List InboxReference) (db v : Db) : Db :=
  { v with
    inbox_deliveries := v.inbox_deliveries ++
      db.inbox_deliveries.filter fun d => refs.any fun x => x.delivery_id == d.id }

/-- `INSERT … SELECT … FROM conversations`, which reads the thread at `v`. -/
def hand_out_at (v : Db) (message_id : Uuid) (membership_id : Option Uuid) (dedup : String)
    (conversation_id : Uuid) (db : Db) : Option Uuid × Db :=
  if v.conversations.any fun c => c.id == conversation_id && open_to auth.agent_id v c then
    place now auth key message_id membership_id dedup none db
  else (none, db)

/-- `hand_out_message`, of the `i`th row. -/
def hand_out_message_at (o : OwedMessage × ℕ) (db : Db) : Option Uuid × Db :=
  hand_out_at now auth key (view (.insert_message o.2)) o.1.message.id (some o.1.membership_id) ""
    o.1.message.conversation_id db

/-- `reconcile_from_postgres`. -/
def messages_at (limit : ℕ) (refs : List InboxReference) (db : Db) : List InboxReference × Db :=
  hand_out_all (hand_out_message_at view now auth key)
    (fun o => reference_to o.1.message o.1.sender "bus" "message" false)
    ((owed_messages now auth key (own_over refs db (view .owed))).take limit).zipIdx db

/-- The insert of `reconcile_receipt_events`, of the `i`th row. -/
def hand_out_receipt_at (o : OwedReceipt × ℕ) (db : Db) : Option Uuid × Db :=
  hand_out_at now auth key (view (.insert_receipt o.2)) o.1.event.message_id none o.1.event.dedup
    o.1.message.conversation_id db

/-- `reconcile_receipt_events`. -/
def receipts_at (limit : ℕ) (refs : List InboxReference) (db : Db) : List InboxReference × Db :=
  hand_out_all (hand_out_receipt_at view now auth key)
    (fun o => reference_to o.1.message o.1.sender "bus" "receipt" false)
    ((owed_receipts now auth key (own_over refs db (view .receipts))).take limit).zipIdx db

/-- `fetch`. -/
def fetch_at (seen : Db) (b : Backends) (answer : BusResult (List InboxRef)) (limit : Option ℤ)
    (db : Db) : BusResult (InboxBatch × Db) := do
  require_capability auth seen
  require_window auth seen
  guard now auth db
  let limit := batch_size limit
  let (refs, note, db₁) ← consult_at view now auth (caller_key auth) b answer db
  let (messages, db₂) :=
    if refs.length < limit then
      messages_at view now auth (caller_key auth) (limit - refs.length) refs db₁
    else ([], db₁)
  let refs' := refs ++ messages
  let (receipts, db₃) :=
    if refs'.length < limit then
      receipts_at view now auth (caller_key auth) (limit - refs'.length) refs' db₂
    else ([], db₂)
  let references := refs' ++ receipts
  pure (⟨references, refs.length, decide (limit ≤ references.length), note⟩, db₃)

end Statements

/-! ## One delivery -/

section Placements

variable {now : ℕ} {auth : AuthCtx} {key : String} {message_id : Uuid} {membership_id : Option Uuid}
  {dedup : String} {offer : Option (String × ℕ)} {db db' : Db} {o : Option Uuid} {k : Uuid}

/-- What a reference names: the recipient, the message and the event. -/
def reference (d : InboxDelivery) : String × Uuid × String :=
  (d.recipient_key, d.message_id, d.event_dedup)

theorem out_as_iff {d : InboxDelivery} : out_as key message_id dedup d = true ↔
    reference d = (key, message_id, dedup) ∧ d.confirmed_at = none := by
  simp [out_as, reference, and_assoc]

theorem is_confirmed_iff : is_confirmed key message_id dedup db = true ↔
    ∃ d ∈ db.inbox_deliveries, reference d = (key, message_id, dedup) ∧ d.confirmed_at.isSome = true := by
  simp [is_confirmed, reference, and_assoc]

/-- What `place` does: it makes a row, or hands the one there is out again. -/
inductive Placed (now : ℕ) (auth : AuthCtx) (key : String) (message_id : Uuid)
    (membership_id : Option Uuid) (dedup : String) (db : Db) : Uuid → Db → Prop
  | made (subject : String) (stream_seq : Option ℕ) (k : Uuid) :
      (∀ d ∈ db.inbox_deliveries, out_as key message_id dedup d = false) →
      (∀ d ∈ db.inbox_deliveries, d.id ≠ k) →
      Placed now auth key message_id membership_id dedup db k
        { db with
          inbox_deliveries := insert_into
            (delivery_row now auth key message_id membership_id dedup subject stream_seq k)
            db.inbox_deliveries }
  | again (offer : Option (String × ℕ)) (d : InboxDelivery) :
      d ∈ db.inbox_deliveries → out_as key message_id dedup d = true →
      d.epoch.getD 0 ≤ auth.session_epoch.getD 0 →
      Placed now auth key message_id membership_id dedup db d.id
        { db with
          inbox_deliveries := update (out_as key message_id dedup) (handed_again now auth offer)
            db.inbox_deliveries }

theorem place_cases (h : place now auth key message_id membership_id dedup offer db = (o, db')) :
    o = none ∧ db' = db ∨
      ∃ k, o = some k ∧ Placed now auth key message_id membership_id dedup db k db' := by
  unfold place at h
  split at h
  · rename_i hnone
    obtain ⟨rfl, rfl⟩ := Prod.mk.inj h
    refine Or.inr ⟨_, rfl, .made _ _ _ (one_eq_none.mp hnone) fun d hd hid => ?_⟩
    have hlt := lt_fresh_id (List.mem_map_of_mem (f := InboxDelivery.id) hd)
    exact absurd hid (Nat.ne_of_lt hlt)
  · rename_i d hd
    split at h
    · rename_i hle
      obtain ⟨rfl, rfl⟩ := Prod.mk.inj h
      exact Or.inr ⟨d.id, rfl, .again _ d (mem_of_one hd) (pos_of_one hd) hle⟩
    · obtain ⟨rfl, rfl⟩ := Prod.mk.inj h
      exact Or.inl ⟨rfl, rfl⟩

/-- Whatever holds of the delivery a placement makes, and of each that is out to the caller
under its reference, once it is handed out, holds of all it leaves. -/
theorem Placed.every {P : InboxDelivery → Prop} (h : Placed now auth key message_id membership_id dedup db k db')
    (hold : ∀ d ∈ db.inbox_deliveries, P d)
    (hmade : ∀ subject stream_seq, P (delivery_row now auth key message_id membership_id dedup
      subject stream_seq k))
    (hagain : ∀ d ∈ db.inbox_deliveries, ∀ offer, P d → reference d = (key, message_id, dedup) →
      d.confirmed_at = none → P (handed_again now auth offer d)) :
    ∀ d ∈ db'.inbox_deliveries, P d := by
  cases h with
  | made subject stream_seq k _ _ => exact forall_insert_into hold (hmade subject stream_seq)
  | again offer x _ _ _ =>
    refine forall_update hold fun d hd hout hP => ?_
    obtain ⟨href, hopen⟩ := out_as_iff.mp hout
    exact hagain d hd offer hP href hopen

/-- A reference is out once. -/
def OnceOut (db : Db) : Prop :=
  ∀ d ∈ db.inbox_deliveries, ∀ d' ∈ db.inbox_deliveries, d.confirmed_at = none → d'.confirmed_at = none →
    reference d = reference d' → d = d'

/-- A reference that is out is handed out again, and not made a second time. -/
theorem Placed.once_out (h : Placed now auth key message_id membership_id dedup db k db')
    (hone : OnceOut db) : OnceOut db' := by
  cases h with
  | made subject stream_seq k hnone _ =>
    have hother : ∀ d ∈ db.inbox_deliveries, d.confirmed_at = none →
        reference d ≠ (key, message_id, dedup) := by
      intro d hd hopen href
      have hout := out_as_iff.mpr ⟨href, hopen⟩
      rw [hnone d hd] at hout
      cases hout
    intro d hd d' hd' hopen hopen' href
    rcases mem_insert_into.mp hd with hd | rfl <;> rcases mem_insert_into.mp hd' with hd' | rfl
    · exact hone d hd d' hd' hopen hopen' href
    · exact absurd href (hother d hd hopen)
    · exact absurd href.symm (hother d' hd' hopen')
    · rfl
  | again offer x _ _ _ =>
    have hstrip : ∀ (y : InboxDelivery) (c : Bool),
        (if c = true then handed_again now auth offer y else y).confirmed_at = y.confirmed_at ∧
          reference (if c = true then handed_again now auth offer y else y) = reference y := by
      intro y c
      cases c <;> exact ⟨rfl, rfl⟩
    intro d hd d' hd' hopen hopen' href
    obtain ⟨a, ha, rfl⟩ := mem_update.mp hd
    obtain ⟨a', ha', rfl⟩ := mem_update.mp hd'
    rw [(hstrip a _).1] at hopen
    rw [(hstrip a' _).1] at hopen'
    rw [(hstrip a _).2, (hstrip a' _).2] at href
    rw [hone a ha a' ha' hopen hopen' href]

/-- What a delivery is after one placement. -/
theorem Placed.carries (hone : OnceOut db) (h : Placed now auth key message_id membership_id dedup db k db') :
    (∀ d ∈ db.inbox_deliveries, ∃ d' ∈ db'.inbox_deliveries, d'.id = d.id ∧ reference d' = reference d ∧
      d'.confirmed_at = d.confirmed_at ∧ d.epoch.getD 0 ≤ d'.epoch.getD 0 ∧
      (d' = d ∨ d'.id = k ∧ d'.epoch = auth.session_epoch)) ∧
    ∃ d ∈ db'.inbox_deliveries, d.id = k ∧ d.confirmed_at = none ∧ d.epoch = auth.session_epoch ∧
      reference d = (key, message_id, dedup) := by
  cases h with
  | made subject stream_seq k _ _ =>
    refine ⟨fun d hd => ⟨d, mem_insert_into.mpr (Or.inl hd), rfl, rfl, rfl, le_refl _, Or.inl rfl⟩, ?_⟩
    exact ⟨_, mem_insert_into.mpr (Or.inr rfl), rfl, rfl, rfl, rfl⟩
  | again offer x hx hout hle =>
    obtain ⟨href, hopen⟩ := out_as_iff.mp hout
    refine ⟨fun d hd => ⟨_, mem_update_of_mem hd, ?_⟩, ?_⟩
    · by_cases hd' : out_as key message_id dedup d = true
      · -- the one row that is out under the reference
        obtain ⟨hrefd, hopend⟩ := out_as_iff.mp hd'
        obtain rfl := hone d hd x hx hopend hopen (hrefd.trans href.symm)
        rw [if_pos hd']
        exact ⟨rfl, rfl, rfl, hle, Or.inr ⟨rfl, rfl⟩⟩
      · rw [if_neg hd']
        exact ⟨rfl, rfl, rfl, le_refl _, Or.inl rfl⟩
    · exact ⟨_, mem_update_of_pos hx hout, rfl, hopen, rfl, href⟩

/-- A series of deliveries, each of something `C` allows. -/
inductive Places (now : ℕ) (auth : AuthCtx) (key : String)
    (C : Uuid → Option Uuid → String → Prop) : List Uuid → Db → Db → Prop
  | nil {db : Db} : Places now auth key C [] db db
  | cons {message_id k : Uuid} {membership_id : Option Uuid} {dedup : String} {ks : List Uuid}
      {db db' db'' : Db} : C message_id membership_id dedup →
      Placed now auth key message_id membership_id dedup db k db' →
      Places now auth key C ks db' db'' → Places now auth key C (k :: ks) db db''

variable {C C' : Uuid → Option Uuid → String → Prop} {ks ks' : List Uuid} {db'' : Db}

theorem Places.append (h : Places now auth key C ks db db') (h' : Places now auth key C ks' db' db'') :
    Places now auth key C (ks ++ ks') db db'' := by
  induction h with
  | nil => exact h'
  | cons hc hp _ ih => exact .cons hc hp (ih h')

theorem Places.mono (hC : ∀ m s e, C m s e → C' m s e) (h : Places now auth key C ks db db') :
    Places now auth key C' ks db db' := by
  induction h with
  | nil => exact .nil
  | cons hc hp _ ih => exact .cons (hC _ _ _ hc) hp ih

/-- What every delivery keeps, the series keeps. -/
theorem Places.keeps {P : Db → Prop} (h : Places now auth key C ks db db') (h₀ : P db)
    (hstep : ∀ {m s e k d d'}, C m s e → Placed now auth key m s e d k d' → P d → P d') : P db' := by
  induction h with
  | nil => exact h₀
  | cons hc hp _ ih => exact ih (hstep hc hp h₀)

theorem Placed.delivers (h : Placed now auth key message_id membership_id dedup db k db') :
    Delivers db db' := by
  cases h with
  | made subject stream_seq k _ _ | again offer d _ _ _ => exact ⟨_, rfl⟩

theorem Places.delivers (h : Places now auth key C ks db db') : Delivers db db' := by
  induction h with
  | nil => exact Delivers.refl _
  | cons _ hp _ ih => exact hp.delivers.trans ih

end Placements

/-! ## What a fetch hands out -/

section Fetching

variable {view : Stmt → Db} {now : ℕ} {auth : AuthCtx} {key : String} {db db' : Db} {o : OwedReceipt} {v : Db}
  {refs : List InboxReference} {b : Backends} {answer : BusResult (List InboxRef)} {note : Option String}

/-- The message and the event an offer names. -/
def names (r : InboxRef) : Option (Uuid × String) := do
  let payload ← r.payload
  let message_id ← payload.message_id
  pure (message_id, payload.dedup.getD "")

/-- What the `i`th offer of the broker is handed out as. -/
def Offered (view : Stmt → Db) (auth : AuthCtx) (key : String) (i : ℕ) (r : InboxRef)
    (message_id : Uuid) (membership_id : Option Uuid) (dedup : String) : Prop :=
  names r = some (message_id, dedup) ∧
    is_confirmed key message_id dedup (view (.confirmed i)) = false ∧
    membership_id = recipient_seat auth message_id (view (.seat i)) ∧
    (dedup = "" → membership_id.isSome = true)

theorem record_at_places {i : ℕ} {r : InboxRef} {o : Option InboxReference}
    (h : record_at view now auth key i r db = .ok (o, db')) :
    Places now auth key (Offered view auth key i r) (o.toList.map fun x => x.delivery_id) db db' := by
  simp only [record_at, bind_eq_ok, fetch_eq_ok] at h
  obtain ⟨payload, hpayload, message_id, hid, h⟩ := h
  split at h
  · simp only [pure_eq_ok, Prod.mk.injEq] at h
    obtain ⟨rfl, rfl⟩ := h
    exact .nil
  rename_i hconf
  split at h
  · simp only [pure_eq_ok, Prod.mk.injEq] at h
    obtain ⟨rfl, rfl⟩ := h
    exact .nil
  simp only [bind_eq_ok, fetch_eq_ok] at h
  obtain ⟨c, -, h⟩ := h
  split at h
  · simp only [pure_eq_ok, Prod.mk.injEq] at h
    obtain ⟨rfl, rfl⟩ := h
    exact .nil
  rename_i hopen
  simp only [pure_eq_ok, Prod.mk.injEq] at h
  obtain ⟨ho, hdb⟩ := h
  have hoffered : Offered view auth key i r message_id (recipient_seat auth message_id (view (.seat i)))
      (payload.dedup.getD "") := by
    refine ⟨?_, by simpa using hconf, rfl, fun hempty => ?_⟩
    · simp [names, hpayload, hid]
    · by_contra hnone
      simp [hempty, Option.not_isSome_iff_eq_none.mp hnone] at hopen
  generalize hplace : place now auth key message_id (recipient_seat auth message_id (view (.seat i)))
    (payload.dedup.getD "") (some (r.ack_subject, r.stream_seq)) db = placed at ho hdb
  obtain ⟨delivery, db₁⟩ := placed
  subst hdb
  rcases place_cases hplace with ⟨rfl, rfl⟩ | ⟨k, rfl, hplaced⟩
  · rw [← ho]
    exact .nil
  · rw [← ho]
    exact .cons hoffered hplaced .nil

theorem record_all_at_places {rs : List InboxRef} : ∀ {i : ℕ} {db db' : Db} {refs : List InboxReference},
    record_all_at view now auth key i rs db = .ok (refs, db') →
    Places now auth key (fun m s e => ∃ j r, rs[j]? = some r ∧ Offered view auth key (i + j) r m s e)
      (refs.map fun x => x.delivery_id) db db' := by
  induction rs with
  | nil =>
    intro i db db' refs h
    simp only [record_all_at, pure_eq_ok, Prod.mk.injEq] at h
    obtain ⟨rfl, rfl⟩ := h
    exact .nil
  | cons r rs ih =>
    intro i db db' refs h
    simp only [record_all_at, bind_eq_ok, pure_eq_ok, Prod.mk.injEq] at h
    obtain ⟨⟨o, db₁⟩, h1, ⟨refs₁, db₂⟩, h2, rfl, rfl⟩ := h
    rw [List.map_append]
    refine (Places.mono (fun m s e hc => ?_) (record_at_places h1)).append
      (Places.mono (fun m s e hc => ?_) (ih h2))
    · exact ⟨0, r, rfl, hc⟩
    · obtain ⟨j, x, hx, hoff⟩ := hc
      refine ⟨j + 1, x, hx, ?_⟩
      have hidx : i + (j + 1) = i + 1 + j := by omega
      rw [hidx]
      exact hoff

/-- The rows of a query that are handed out. -/
theorem hand_out_all_places {ρ : Type} {offer : ρ → Db → Option Uuid × Db}
    {reference : ρ → Uuid → InboxReference} {C : Uuid → Option Uuid → String → Prop}
    (href : ∀ x k, (reference x k).delivery_id = k) {l : List ρ}
    (ho : ∀ x ∈ l, ∀ db, (offer x db).1 = none ∧ (offer x db).2 = db ∨ ∃ k m s e,
      (offer x db).1 = some k ∧ C m s e ∧ Placed now auth key m s e db k (offer x db).2) :
    ∀ db, Places now auth key C ((hand_out_all offer reference l db).1.map fun x => x.delivery_id) db
      (hand_out_all offer reference l db).2 := by
  induction l with
  | nil => exact fun db => .nil
  | cons x l ih =>
    intro db
    have hrest := ih (fun y hy => ho y (List.mem_cons_of_mem _ hy)) (offer x db).2
    rcases ho x List.mem_cons_self db with ⟨hnone, hsame⟩ | ⟨k, m, s, e, hsome, hc, hplaced⟩
    · simp only [hand_out_all, hnone]
      rw [hsame] at hrest ⊢
      exact hrest
    · simp only [hand_out_all, hsome, List.map_cons, href]
      exact .cons hc hplaced hrest

theorem hand_out_at_cases {m : Uuid} {s : Option Uuid} {e : String} {c : Uuid} :
    (hand_out_at now auth key v m s e c db).1 = none ∧ (hand_out_at now auth key v m s e c db).2 = db ∨
      ∃ k, (hand_out_at now auth key v m s e c db).1 = some k ∧
        Placed now auth key m s e db k (hand_out_at now auth key v m s e c db).2 := by
  unfold hand_out_at
  split
  · exact place_cases (Prod.ext rfl rfl : place now auth key m s e none db = _)
  · exact Or.inl ⟨rfl, rfl⟩

/-- What a message that is owed at `v` is handed out as. -/
def Owed (now : ℕ) (auth : AuthCtx) (key : String) (v : Db) (message_id : Uuid)
    (membership_id : Option Uuid) (dedup : String) : Prop :=
  ∃ o ∈ owed_messages now auth key v, message_id = o.message.id ∧
    membership_id = some o.membership_id ∧ dedup = ""

/-- What a notification that is owed at `v` is handed out as. -/
def Noted (now : ℕ) (auth : AuthCtx) (key : String) (v : Db) (message_id : Uuid)
    (membership_id : Option Uuid) (dedup : String) : Prop :=
  ∃ o ∈ owed_receipts now auth key v, message_id = o.event.message_id ∧ membership_id = none ∧
    dedup = o.event.dedup

/-- A row of `reconcile_from_postgres` is a receipt that says its message was not delivered. -/
theorem owed_row {o : OwedMessage} (h : o ∈ owed_messages now auth key v) :
    ∃ r ∈ v.message_receipts, ∃ cm c, one (fun m => m.id == r.membership_id) v.conversation_memberships = some cm ∧
      one (fun m => m.id == r.message_id) v.conversation_messages = some o.message ∧
      one (fun c => c.id == o.message.conversation_id) v.conversations = some c ∧
      r.membership_id = o.membership_id ∧ undelivered auth v r cm o.message c = true := by
  simp only [owed_messages, mem_select, List.mem_filterMap, Option.bind_eq_bind,
    Option.bind_eq_some_iff] at h
  obtain ⟨⟨r, hr, ⟨cm, msg, c, ag⟩, hjoin, hrow⟩, -⟩ := h
  dsimp only at hrow
  split at hrow
  · rename_i hund
    obtain rfl := Option.some.inj hrow
    simp only [receipt_join, Option.bind_eq_bind, Option.bind_eq_some_iff, Option.pure_def,
      Option.some.injEq, Prod.mk.injEq] at hjoin
    obtain ⟨cm', hcm, msg', hmsg, c', hc, ag', -, rfl, rfl, rfl, rfl⟩ := hjoin
    exact ⟨r, hr, cm', c', hcm, hmsg, hc, rfl, hund⟩
  · cases hrow

/-- A row of `reconcile_receipt_events` is a notification nobody confirmed. -/
theorem noted_row (h : o ∈ owed_receipts now auth key v) :
    o.event ∈ v.inbox_events ∧ receipt_in_flight now key o.event.message_id o.event.dedup v = false ∧
      ∃ c, one (fun m => m.id == o.event.message_id) v.conversation_messages = some o.message ∧
        one (fun c => c.id == o.message.conversation_id) v.conversations = some c ∧
        collectable auth key v o.event o.message c = true := by
  simp only [owed_receipts, mem_select, List.mem_filterMap, Option.bind_eq_bind,
    Option.bind_eq_some_iff] at h
  obtain ⟨⟨e, he, ⟨msg, c, ag⟩, hjoin, hrow⟩, hflight⟩ := h
  dsimp only at hrow
  split at hrow
  · rename_i hcol
    obtain rfl := Option.some.inj hrow
    simp only [event_join, Option.bind_eq_bind, Option.bind_eq_some_iff, Option.pure_def,
      Option.some.injEq, Prod.mk.injEq] at hjoin
    obtain ⟨msg', hmsg, c', hc, ag', -, rfl, rfl, rfl⟩ := hjoin
    exact ⟨he, by simpa using hflight, c', hmsg, hc, hcol⟩
  · cases hrow

/-- What is owed over the transaction's own rows is owed. -/
theorem owed_own_over {o : OwedMessage}
    (h : o ∈ owed_messages now auth key (own_over refs db v)) : o ∈ owed_messages now auth key v := by
  simp only [owed_messages, mem_select] at h ⊢
  refine ⟨h.1, ?_⟩
  have hflight := h.2
  simp only [message_in_flight, own_over, List.any_append, Bool.not_or, Bool.and_eq_true] at hflight
  exact hflight.1

theorem noted_own_over
    (h : o ∈ owed_receipts now auth key (own_over refs db v)) : o ∈ owed_receipts now auth key v := by
  simp only [owed_receipts, mem_select] at h ⊢
  refine ⟨h.1, ?_⟩
  have hflight := h.2
  simp only [receipt_in_flight, own_over, List.any_append, Bool.not_or, Bool.and_eq_true] at hflight
  exact hflight.1

variable (view now auth key) in
theorem messages_at_places (limit : ℕ) (refs : List InboxReference) (db : Db) :
    Places now auth key (Owed now auth key (view .owed))
      ((messages_at view now auth key limit refs db).1.map fun x => x.delivery_id) db
      (messages_at view now auth key limit refs db).2 := by
  refine hand_out_all_places (fun _ _ => rfl) (fun x hx d => ?_) db
  have hcases : _ ∨ ∃ k, (hand_out_message_at view now auth key x d).1 = some k ∧
    Placed now auth key _ _ _ d k (hand_out_message_at view now auth key x d).2 := hand_out_at_cases
  rcases hcases with hnone | ⟨k, hsome, hplaced⟩
  · exact Or.inl hnone
  · have hmem := List.mem_of_mem_take (List.fst_mem_of_mem_zipIdx hx)
    exact Or.inr ⟨k, _, _, _, hsome, ⟨x.1, owed_own_over hmem, rfl, rfl, rfl⟩, hplaced⟩

theorem receipts_at_places (limit : ℕ) (refs : List InboxReference) (db : Db) :
    Places now auth key (Noted now auth key (view .receipts))
      ((receipts_at view now auth key limit refs db).1.map fun x => x.delivery_id) db
      (receipts_at view now auth key limit refs db).2 := by
  refine hand_out_all_places (fun _ _ => rfl) (fun x hx d => ?_) db
  have hcases : _ ∨ ∃ k, (hand_out_receipt_at view now auth key x d).1 = some k ∧
    Placed now auth key _ _ _ d k (hand_out_receipt_at view now auth key x d).2 := hand_out_at_cases
  rcases hcases with hnone | ⟨k, hsome, hplaced⟩
  · exact Or.inl hnone
  · have hmem := List.mem_of_mem_take (List.fst_mem_of_mem_zipIdx hx)
    exact Or.inr ⟨k, _, _, _, hsome, ⟨x.1, noted_own_over hmem, rfl, rfl, rfl⟩, hplaced⟩

/-- What a fetch hands out. -/
def Hands (view : Stmt → Db) (now : ℕ) (auth : AuthCtx) (answer : BusResult (List InboxRef))
    (message_id : Uuid) (membership_id : Option Uuid) (dedup : String) : Prop :=
  (∃ rs i r, answer = .ok rs ∧ rs[i]? = some r ∧
    Offered view auth (caller_key auth) i r message_id membership_id dedup) ∨
  Owed now auth (caller_key auth) (view .owed) message_id membership_id dedup ∨
  Noted now auth (caller_key auth) (view .receipts) message_id membership_id dedup

/-- A fetch consults the broker's answer, or hands out nothing from it. -/
theorem consult_at_cases (h : consult_at view now auth key b answer db = .ok (refs, note, db')) :
    refs = [] ∧ db' = db ∨
      ∃ rs, answer = .ok rs ∧ record_all_at view now auth key 0 rs db = .ok (refs, db') := by
  unfold consult_at at h
  split at h
  · split at h
    · simp only [bind_eq_ok, pure_eq_ok, Prod.mk.injEq] at h
      obtain ⟨_, h, rfl, -, rfl⟩ := h
      exact Or.inr ⟨_, rfl, h⟩
    · cases h
      exact Or.inl ⟨rfl, rfl⟩
  all_goals
    cases h
    exact Or.inl ⟨rfl, rfl⟩

theorem consult_at_places (h : consult_at view now auth key b answer db = .ok (refs, note, db')) :
    Places now auth key (fun m s e => ∃ rs i r, answer = .ok rs ∧ rs[i]? = some r ∧
      Offered view auth key i r m s e) (refs.map fun x => x.delivery_id) db db' := by
  rcases consult_at_cases h with ⟨rfl, rfl⟩ | ⟨rs, hrs, h⟩
  · exact .nil
  · refine Places.mono (fun m s e hc => ?_) (record_all_at_places h)
    obtain ⟨j, r, hj, hoff⟩ := hc
    rw [Nat.zero_add] at hoff
    exact ⟨rs, j, r, hrs, hj, hoff⟩

/-- **A fetch places what it hands out, one by one.** -/
theorem fetch_at_places {seen : Db} {limit : Option ℤ} {batch : InboxBatch}
    (h : fetch_at view now auth seen b answer limit db = .ok (batch, db')) :
    require_window auth seen = .ok () ∧ guard now auth db = .ok () ∧
      Places now auth (caller_key auth) (Hands view now auth answer)
        (batch.references.map fun x => x.delivery_id) db db' := by
  simp only [fetch_at, bind_eq_ok] at h
  obtain ⟨_, -, _, hwindow, _, hguard, ⟨refs, note, db₁⟩, h1, h⟩ := h
  have hmessages : ∀ (c : Prop) [Decidable c] (n : ℕ),
      Places now auth (caller_key auth) (Hands view now auth answer)
        ((if c then messages_at view now auth (caller_key auth) n refs db₁ else ([], db₁)).1.map
          fun x => x.delivery_id) db₁
        (if c then messages_at view now auth (caller_key auth) n refs db₁ else ([], db₁)).2 := by
    intro c _ n
    split
    · exact Places.mono (fun _ _ _ hc => Or.inr (Or.inl hc)) (messages_at_places _ _ _ _ _ _ _)
    · exact .nil
  have hreceipts : ∀ (c : Prop) [Decidable c] (n : ℕ) (refs' : List InboxReference) (d : Db),
      Places now auth (caller_key auth) (Hands view now auth answer)
        ((if c then receipts_at view now auth (caller_key auth) n refs' d else ([], d)).1.map
          fun x => x.delivery_id) d
        (if c then receipts_at view now auth (caller_key auth) n refs' d else ([], d)).2 := by
    intro c _ n refs' d
    split
    · exact Places.mono (fun _ _ _ hc => Or.inr (Or.inr hc)) (receipts_at_places _ _ _)
    · exact .nil
  simp only [pure_eq_ok, Prod.mk.injEq] at h
  obtain ⟨rfl, rfl⟩ := h
  refine ⟨hwindow, hguard, ?_⟩
  rw [List.map_append, List.map_append]
  exact ((Places.mono (fun _ _ _ hc => Or.inl hc) (consult_at_places h1)).append
    (hmessages _ _)).append (hreceipts _ _ _ _)

end Fetching

/-! ## Where nothing is committed in between -/

section Alone

variable {now : ℕ} {auth : AuthCtx} {key : String} {db db' : Db} {ks : List Uuid}
  {C : Uuid → Option Uuid → String → Prop} {refs : List InboxReference}

/-- What a series of deliveries left: the rows there were, some of them handed out now, and
beside every other row one of its reference that was. -/
structure Since (now : ℕ) (ks : List Uuid) (db db' : Db) : Prop where
  tables : Delivers db db'
  old : ∀ d ∈ db.inbox_deliveries, ∃ d' ∈ db'.inbox_deliveries, d'.id = d.id ∧
    reference d' = reference d ∧ d'.confirmed_at = d.confirmed_at ∧ (d' = d ∨ d'.handed_at = now)
  new : ∀ d' ∈ db'.inbox_deliveries, d' ∈ db.inbox_deliveries ∨ d'.confirmed_at = none ∧
    ∃ x ∈ db'.inbox_deliveries, x.id ∈ ks ∧ reference x = reference d' ∧ x.confirmed_at = none ∧
      x.handed_at = now

theorem Placed.since {message_id k : Uuid} {membership_id : Option Uuid} {dedup : String}
    (h : Placed now auth key message_id membership_id dedup db k db') : Since now [k] db db' := by
  refine ⟨h.delivers, fun d hd => ?_, fun d' hd' => ?_⟩
  · cases h with
    | made subject stream_seq k _ _ =>
      exact ⟨d, mem_insert_into.mpr (Or.inl hd), rfl, rfl, rfl, Or.inl rfl⟩
    | again offer x _ _ _ =>
      refine ⟨_, mem_update_of_mem hd, ?_⟩
      split
      · exact ⟨rfl, rfl, rfl, Or.inr rfl⟩
      · exact ⟨rfl, rfl, rfl, Or.inl rfl⟩
  · cases h with
    | made subject stream_seq k _ _ =>
      rcases mem_insert_into.mp hd' with hold | rfl
      · exact Or.inl hold
      · exact Or.inr ⟨rfl, _, hd', List.mem_singleton.mpr rfl, rfl, rfl, rfl⟩
    | again offer x hx hout _ =>
      obtain ⟨a, ha, rfl⟩ := mem_update.mp hd'
      by_cases hpa : out_as key message_id dedup a = true
      · -- the rows of one reference were all handed out, `x` among them
        have hxout := out_as_iff.mp hout
        have haout := out_as_iff.mp hpa
        rw [if_pos hpa]
        exact Or.inr ⟨haout.2, _, mem_update_of_pos hx hout, List.mem_singleton.mpr rfl,
          hxout.1.trans haout.1.symm, hxout.2, rfl⟩
      · rw [if_neg hpa]
        exact Or.inl ha

theorem Since.trans {ks' : List Uuid} {db'' : Db} (h : Since now ks db db') (h' : Since now ks' db' db'') :
    Since now (ks ++ ks') db db'' := by
  refine ⟨h.tables.trans h'.tables, fun d hd => ?_, fun d hd => ?_⟩
  · obtain ⟨d₁, hd₁, hid, href, hconf, hsame⟩ := h.old d hd
    obtain ⟨d₂, hd₂, hid', href', hconf', hsame'⟩ := h'.old d₁ hd₁
    refine ⟨d₂, hd₂, hid'.trans hid, href'.trans href, hconf'.trans hconf, ?_⟩
    rcases hsame' with rfl | hnow
    · exact hsame
    · exact Or.inr hnow
  · rcases h'.new d hd with hd₁ | ⟨hconf, x, hx, hk, href, hxconf, hnow⟩
    · rcases h.new d hd₁ with hold | ⟨hconf, x, hx, hk, href, hxconf, hnow⟩
      · exact Or.inl hold
      · obtain ⟨y, hy, hyid, hyref, hyconf, hysame⟩ := h'.old x hx
        refine Or.inr ⟨hconf, y, hy, List.mem_append_left _ (hyid ▸ hk), hyref.trans href,
          hyconf.trans hxconf, ?_⟩
        rcases hysame with rfl | hynow
        · exact hnow
        · exact hynow
    · exact Or.inr ⟨hconf, x, hx, List.mem_append_right _ hk, href, hxconf, hnow⟩

theorem Places.since (h : Places now auth key C ks db db') : Since now ks db db' := by
  induction h with
  | nil => exact ⟨Delivers.refl _, fun d hd => ⟨d, hd, rfl, rfl, rfl, Or.inl rfl⟩, fun d hd => Or.inl hd⟩
  | cons _ hp _ ih => exact hp.since.trans ih

/-- No delivery is confirmed by being handed out. -/
theorem Since.is_confirmed (h : Since now ks db db') (m : Uuid) (e : String) :
    is_confirmed key m e db' = is_confirmed key m e db := by
  rw [Bool.eq_iff_iff, is_confirmed_iff, is_confirmed_iff]
  constructor
  · rintro ⟨d, hd, href, hconf⟩
    rcases h.new d hd with hold | ⟨hnone, -⟩
    · exact ⟨d, hold, href, hconf⟩
    · exact absurd hconf (by simp [hnone])
  · rintro ⟨d, hd, href, hconf⟩
    obtain ⟨d', hd', -, href', hconf', -⟩ := h.old d hd
    exact ⟨d', hd', href'.trans href, hconf' ▸ hconf⟩

/-- A row that was just handed out is in flight, and so is its reference. -/
theorem Since.any_in_flight (h : Since now ks db db')
    (hks : ks = refs.map fun x => x.delivery_id) {p : InboxDelivery → Bool}
    (hp : ∀ d d', reference d' = reference d → d'.confirmed_at = d.confirmed_at →
      (d' = d ∨ d'.handed_at = now) → p d = true → p d' = true) :
    ((own_over refs db' db).inbox_deliveries.any p) = db'.inbox_deliveries.any p := by
  rw [Bool.eq_iff_iff, List.any_eq_true, List.any_eq_true]
  constructor
  · rintro ⟨d, hd, hpd⟩
    rcases List.mem_append.mp hd with hd | hd
    · obtain ⟨d', hd', -, href, hconf, hsame⟩ := h.old d hd
      exact ⟨d', hd', hp d d' href hconf hsame hpd⟩
    · exact ⟨d, (List.mem_filter.mp hd).1, hpd⟩
  · rintro ⟨d, hd, hpd⟩
    rcases h.new d hd with hold | ⟨hconf, x, hx, hk, href, hxconf, hnow⟩
    · exact ⟨d, List.mem_append_left _ hold, hpd⟩
    · refine ⟨x, List.mem_append_right _ (List.mem_filter.mpr ⟨hx, ?_⟩),
        hp d x href (hxconf.trans hconf.symm) (Or.inr hnow) hpd⟩
      rw [hks] at hk
      obtain ⟨y, hy, hyid⟩ := List.mem_map.mp hk
      exact List.any_eq_true.mpr ⟨y, hy, beq_iff_eq.mpr hyid⟩

theorem just_handed_again {d d' : InboxDelivery} (h : d' = d ∨ d'.handed_at = now)
    (hd : just_handed now d = true) : just_handed now d' = true := by
  rcases h with rfl | hnow
  · exact hd
  · have : 0 < GRACE := by decide
    rw [just_handed, hnow, decide_eq_true_eq]
    omega

theorem Since.owed_messages (h : Since now ks db db') (hks : ks = refs.map fun x => x.delivery_id) :
    owed_messages now auth key (own_over refs db' db) = owed_messages now auth key db' := by
  have hflight : ∀ m, message_in_flight now key m (own_over refs db' db) = message_in_flight now key m db' := by
    intro m
    refine h.any_in_flight hks fun d d' href hconf hsame hd => ?_
    simp only [reference, Prod.mk.injEq] at href
    simp only [Bool.and_eq_true] at hd ⊢
    rw [href.1, href.2.1, hconf]
    exact ⟨hd.1, just_handed_again hsame hd.2⟩
  obtain ⟨l, rfl⟩ := h.tables
  simp only [Inbox.owed_messages, hflight]
  rfl

theorem Since.owed_receipts (h : Since now ks db db') (hks : ks = refs.map fun x => x.delivery_id) :
    owed_receipts now auth key (own_over refs db' db) = owed_receipts now auth key db' := by
  have hflight : ∀ m e, receipt_in_flight now key m e (own_over refs db' db) =
      receipt_in_flight now key m e db' := by
    intro m e
    refine h.any_in_flight hks fun d d' href hconf hsame hd => ?_
    simp only [reference, Prod.mk.injEq] at href
    simp only [Bool.and_eq_true, Bool.or_eq_true] at hd ⊢
    rw [href.1, href.2.1, href.2.2, hconf]
    exact ⟨hd.1, hd.2.imp_right (just_handed_again hsame)⟩
  obtain ⟨l, rfl⟩ := h.tables
  simp only [Inbox.owed_receipts, hflight]
  rfl


/-- An offer, where the statements saw what there was before the transaction. -/
theorem record_at_alone (h : Since now ks db db') (i : ℕ) (r : InboxRef) :
    record_at (fun _ => db) now auth key i r db' = record_broker_reference now auth key r db' := by
  unfold record_at record_broker_reference
  refine bind_congr fun payload => bind_congr fun message_id => ?_
  have hconf : is_confirmed key message_id (payload.dedup.getD "") db' = _ := h.is_confirmed _ _
  dsimp only
  rw [← hconf]
  obtain ⟨l, rfl⟩ := h.tables
  rfl

theorem record_all_at_alone {rs : List InboxRef} : ∀ {i : ℕ} {ks : List Uuid} {db' : Db},
    Since now ks db db' → record_all_at (fun _ => db) now auth key i rs db' =
      (record_all now auth key rs db').map fun q => (q.1, q.2.2) := by
  induction rs with
  | nil => exact fun _ => rfl
  | cons r rs ih =>
    intro i ks db' h
    rw [record_all_at, record_at_alone h, record_all]
    cases hrec : record_broker_reference now auth key r db' with
    | error e => rfl
    | ok q =>
      obtain ⟨o, db₁⟩ := q
      have hsince := h.trans (record_at_places ((record_at_alone h i r).trans hrec)).since
      have hrest := ih (i := i + 1) hsince
      simp only [bind, Except.bind] at hrest ⊢
      rw [hrest]
      cases record_all now auth key rs db₁ with
      | error e => rfl
      | ok q =>
        cases o with
        | none => rfl
        | some x => rfl

/-- The rows of a query, handed out where nothing else was written. -/
theorem hand_out_all_alone {ρ : Type} {offer : ρ × ℕ → Db → Option Uuid × Db} {offer' : ρ → Db → Option Uuid × Db}
    {reference : ρ × ℕ → Uuid → InboxReference} {reference' : ρ → Uuid → InboxReference}
    (href : ∀ x i, reference (x, i) = reference' x) (ho : ∀ x i d, Delivers db d → offer (x, i) d = offer' x d)
    (hdel : ∀ x d, Delivers d (offer' x d).2) (l : List ρ) : ∀ (i : ℕ) (d : Db), Delivers db d →
      hand_out_all offer reference (l.zipIdx i) d = hand_out_all offer' reference' l d := by
  induction l with
  | nil => exact fun _ _ _ => rfl
  | cons x l ih =>
    intro i d hd
    have hrest := ih (i + 1) (offer' x d).2 (hd.trans (hdel x d))
    simp only [List.zipIdx_cons, hand_out_all, ho x i d hd, href, hrest]

theorem hand_out_at_alone (h : Delivers db db') (m : Uuid) (s : Option Uuid) (e : String) (c : Uuid) :
    hand_out_at now auth key db m s e c db' = hand_out now auth key m s e c db' := by
  obtain ⟨l, rfl⟩ := h
  rfl

theorem messages_at_alone (h : Since now (refs.map fun x => x.delivery_id) db db')
    (limit : ℕ) : messages_at (fun _ => db) now auth key limit refs db' =
      reconcile_from_postgres now auth key limit db' := by
  rw [messages_at, h.owed_messages rfl]
  exact hand_out_all_alone (fun _ _ => rfl) (fun _ _ d hd => hand_out_at_alone hd _ _ _ _)
    (fun _ d => hand_out_delivers _ _ _ _ d) _ 0 db' h.tables

theorem receipts_at_alone (h : Since now (refs.map fun x => x.delivery_id) db db')
    (limit : ℕ) : receipts_at (fun _ => db) now auth key limit refs db' =
      reconcile_receipt_events now auth key limit db' := by
  rw [receipts_at, h.owed_receipts rfl]
  exact hand_out_all_alone (fun _ _ => rfl) (fun _ _ d hd => hand_out_at_alone hd _ _ _ _)
    (fun _ d => hand_out_delivers _ _ _ _ d) _ 0 db' h.tables

theorem consult_at_alone (b : Backends) (answer : BusResult (List InboxRef)) (limit : ℕ) (db : Db) :
    consult_at (fun _ => db) now auth key b answer db =
      (consult now b answer auth key limit db).map fun q => (q.1, q.2.2.1, q.2.2.2) := by
  have hself : Since now [] db db :=
    (Places.nil : Places now auth key (fun _ _ _ => False) [] db db).since
  unfold consult_at consult
  cases for_team b auth.team_id db with
  | error e => rfl
  | ok backend =>
    cases backend with
    | Postgres => rfl
    | JetStream team =>
      cases answer with
      | error e => rfl
      | ok rs =>
        simp only [record_all_at_alone hself]
        cases record_all now auth key rs db <;> rfl

theorem since_messages (auth : AuthCtx) (key : String)
    (h : Since now (refs.map fun x => x.delivery_id) db db') (limit : ℕ) :
    Since now ((refs ++ (if refs.length < limit then
        reconcile_from_postgres now auth key (limit - refs.length) db' else ([], db')).1).map
        fun x => x.delivery_id) db
      (if refs.length < limit then reconcile_from_postgres now auth key (limit - refs.length) db'
        else ([], db')).2 := by
  rw [List.map_append]
  split
  · have hplaces := messages_at_places (fun _ => db) now auth key (limit - refs.length) refs db'
    rw [messages_at_alone h] at hplaces
    exact h.trans hplaces.since
  · rw [List.map_nil, List.append_nil]
    exact h

/-- **Where nothing is committed in between, the fetch is `fetch`.** -/
theorem fetch_at_alone (seen : Db) (b : Backends) (answer : BusResult (List InboxRef))
    (limit : Option ℤ) (db : Db) : fetch_at (fun _ => db) now auth seen b answer limit db =
      (Inbox.fetch now seen b answer auth limit db).map fun q => (q.1, q.2.2) := by
  unfold fetch_at Inbox.fetch
  cases require_capability auth seen with
  | error e => rfl
  | ok _ =>
  cases require_window auth seen with
  | error e => rfl
  | ok _ =>
  cases guard now auth db with
  | error e => rfl
  | ok _ =>
  have hconsult : consult_at (fun _ => db) now auth (caller_key auth) b answer db = _ :=
    consult_at_alone b answer (batch_size limit) db
  simp only [bind, Except.bind]
  cases hc : consult now b answer auth (caller_key auth) (batch_size limit) db with
  | error e =>
    rw [hc] at hconsult
    rw [hconsult]
    rfl
  | ok q =>
    obtain ⟨refs, asked, note, db₁⟩ := q
    rw [hc] at hconsult
    have hsince := (consult_at_places hconsult).since
    rw [hconsult]
    simp only [Except.map, messages_at_alone hsince]
    -- what the messages left, the receipts find
    have hmessages := since_messages auth (caller_key auth) hsince (batch_size limit)
    generalize (if refs.length < batch_size limit then reconcile_from_postgres now auth (caller_key auth)
      (batch_size limit - refs.length) db₁ else ([], db₁)) = messages at hmessages ⊢
    simp only [receipts_at_alone hmessages]
    rfl

end Alone

end CrewSync.Fetches
