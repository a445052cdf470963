/-
`serve.rs`: the passes that work for the teams on a broker, and a team that is
routed back to Postgres.

`routed_teams` names every team with a thread off Postgres, so that such a team's
references go on being published and its uncertain publications asked about. Both
passes then take the team's backend from `for_team`, its default, and so does
`fetch`: none of them asks the broker for a team whose default is Postgres,
whatever its threads are on. `served_iff` says that this is the only thing that
matters.
-/
import CrewSync.Inbox
import CrewSync.Settlement

set_option autoImplicit false

namespace CrewSync.Rerouting

open Error Schema Rows
open References Outbox Routing Inbox
open Settlement Crew

/-- `REFERENCES_PER_PASS`. -/
def REFERENCES_PER_PASS : ℕ := 200

/-! ## The passes -/

section Passes

variable (now : ℕ) (b : Backends)

/-- The loop of `publish_references`. -/
def publish_teams (answer : InboxEvent → Published) : List Uuid → Db → List Call × Db
  | [], db => ([], db)
  | team :: teams, db =>
    match for_team b team db with
    | .ok (.JetStream _) =>
      let (asked, db') := publish_pending now answer team REFERENCES_PER_PASS db
      let (more, db'') := publish_teams answer teams db'
      (asked ++ more, db'')
    | _ => publish_teams answer teams db

/-- `publish_references`. -/
def publish_references (answer : InboxEvent → Published) (db : Db) : List Call × Db :=
  publish_teams now b answer (routed_teams db) db

/-- The slots of a team that nobody knows the outcome of. -/
def uncertain_rows (team_id : Uuid) (db : Db) : List (Uuid × Backend) :=
  (db.conversation_outbox.filter fun o => o.team_id == team_id && o.state != .failed &&
    (one (fun m => m.id == o.message_id) db.conversation_messages).any fun m =>
      m.uncertain_at.isSome).map fun o => (o.message_id, o.backend)

/-- One slot of `resolve_uncertain`: what was asked, and whether the pass goes on. -/
def resolve_slot (name : Backend) (held : Uuid → BusResult (Option Locator)) (message_id : Uuid)
    (db : Db) : List Call × BusResult Unit × Db :=
  match lease_one now "reconciler" message_id db with
  | none => ([], .ok (), db)
  | some (l, db') =>
    ([.reconcile name message_id], match held message_id with
      | .ok (some locator) => (.ok (), (settle now l (.Confirmed locator) db').2)
      | .ok none => (.ok (), unlease now l db')
      | .error e => (.error e, unlease now l db'))

/-- The loop of `resolve_uncertain`: only the backend a slot was enqueued for may
answer for it. -/
def resolve_rows (name : Backend) (held : Uuid → BusResult (Option Locator)) :
    List (Uuid × Backend) → Db → List Call × BusResult Unit × Db
  | [], db => ([], .ok (), db)
  | (message_id, slot_backend) :: rows, db =>
    if slot_backend != name then resolve_rows name held rows db
    else
      match resolve_slot now name held message_id db with
      | (asked, .error e, db') => (asked, .error e, db')
      | (asked, .ok (), db') =>
        let (more, outcome, db'') := resolve_rows name held rows db'
        (asked ++ more, outcome, db'')

/-- `resolve_uncertain`. -/
def resolve_uncertain (backend : AnyBackend) (held : Uuid → BusResult (Option Locator))
    (team_id : Uuid) (db : Db) : List Call × Db :=
  match resolve_rows now backend.name held (uncertain_rows team_id db) db with
  | (asked, .error _, db') => (asked, db')
  | (asked, .ok (), db') => (asked, clear_uncertain team_id db')

/-- The loop of `reconcile_routed_teams`. -/
def reconcile_teams (held : Uuid → BusResult (Option Locator)) : List Uuid → Db → List Call × Db
  | [], db => ([], db)
  | team :: teams, db =>
    match for_team b team db with
    | .ok backend =>
      let (asked, db') := resolve_uncertain now backend held team db
      let (more, db'') := reconcile_teams held teams db'
      (asked ++ more, db'')
    | .error _ => reconcile_teams held teams db

/-- `reconcile_routed_teams`. -/
def reconcile_routed_teams (held : Uuid → BusResult (Option Locator)) (db : Db) : List Call × Db :=
  reconcile_teams now b held (routed_teams db) db

end Passes

/-! ## Publishing references -/

section Publishing

variable {now : ℕ} {b : Backends} {answer : InboxEvent → Published} {db : Db} {team : Uuid}

theorem answered_row_same (now attempts : ℕ) (a : Published) (e : InboxEvent) :
    (answered_row now attempts a e).id = e.id ∧
      (answered_row now attempts a e).team_id = e.team_id := by
  cases a <;> exact ⟨rfl, rfl⟩

/-- A row neither matched before an `UPDATE` nor after it is not in the query. -/
theorem select_update {p w : InboxEvent → Bool} {f : InboxEvent → InboxEvent} {k : InboxEvent → ℕ}
    {t : List InboxEvent} (h : ∀ x ∈ t, w x = true → p x = false ∧ p (f x) = false) :
    select p k (update w f t) = select p k t := by
  have hfilter : (update w f t).filter p = t.filter p := by
    unfold update
    induction t with
    | nil => rfl
    | cons x t ih =>
      have ih := ih fun y hy => h y (List.mem_cons_of_mem _ hy)
      rw [List.map_cons, List.filter_cons, List.filter_cons, ih]
      by_cases hw : w x = true
      · obtain ⟨hx, hfx⟩ := h x List.mem_cons_self hw
        simp [hw, hx, hfx]
      · simp [hw]
  rw [select, select, hfilter]

/-- Another team's answers leave this team's batch as it was. -/
theorem due_events_answers {rows : List InboxEvent} {u : Uuid} (hne : u ≠ team)
    (h : ∀ e ∈ rows, ∀ x ∈ db.inbox_events, x.id = e.id → x.team_id = u) :
    due_events now team REFERENCES_PER_PASS
      (rows.foldl (fun db e => answer_event now e (answer e) db) db) =
      due_events now team REFERENCES_PER_PASS db := by
  induction rows generalizing db with
  | nil => rfl
  | cons e rows ih =>
    rw [List.foldl_cons, ih fun e' he' x hx hid => ?_]
    · unfold due_events answer_event
      simp only
      rw [select_update fun x hx hw => ?_]
      have hteam : x.team_id = u := h e List.mem_cons_self x hx (by simpa using hw)
      have hteam' := ((answered_row_same now e.attempts (answer e) x).2).trans hteam
      simp [hteam, hteam', hne]
    · obtain ⟨y, hy, rfl⟩ := mem_update.mp hx
      have hsame := answered_row_same now e.attempts (answer e) y
      have hyid : y.id = e'.id := by
        rw [← hid]
        split
        · exact hsame.1.symm
        · rfl
      have hyteam := h e' (List.mem_cons_of_mem _ he') y hy hyid
      split
      · exact hsame.2.trans hyteam
      · exact hyteam

theorem answers_keep (now : ℕ) (answer : InboxEvent → Published) (rows : List InboxEvent)
    (hk : Keyed InboxEvent.id db.inbox_events) :
    Keyed InboxEvent.id (rows.foldl (fun db e => answer_event now e (answer e) db) db).inbox_events ∧
      (rows.foldl (fun db e => answer_event now e (answer e) db) db).teams = db.teams := by
  induction rows generalizing db with
  | nil => exact ⟨hk, rfl⟩
  | cons e rows ih =>
    rw [List.foldl_cons]
    exact @ih (answer_event now e (answer e) db)
      (hk.update fun x => (answered_row_same now e.attempts (answer e) x).1)

theorem for_team_congr {db' : Db} (h : db'.teams = db.teams) (team : Uuid) :
    for_team b team db' = for_team b team db := by
  unfold for_team
  rw [h]

/-- A team on the broker has its batch published by the pass. -/
theorem publish_teams_asks {teams : List Uuid} (hk : Keyed InboxEvent.id db.inbox_events)
    (hmem : team ∈ teams) {id : Uuid} (hteam : for_team b team db = .ok (.JetStream id))
    {e : InboxEvent} (he : e ∈ due_events now team REFERENCES_PER_PASS db) :
    Call.publish_reference team e.recipient_key e.id ∈ (publish_teams now b answer teams db).1 := by
  induction teams generalizing db with
  | nil => exact absurd hmem List.not_mem_nil
  | cons u teams ih =>
    unfold publish_teams
    by_cases hu : u = team
    · subst hu
      rw [hteam]
      exact List.mem_append_left _ (List.mem_map.mpr ⟨e, he, rfl⟩)
    · have hmem : team ∈ teams := (List.mem_cons.mp hmem).resolve_left (Ne.symm hu)
      split
      · -- the other team's events are not this team's
        refine List.mem_append_right _ ?_
        obtain ⟨hk', hteams⟩ := answers_keep now answer
          (due_events now u REFERENCES_PER_PASS db) hk
        refine ih hk' hmem ((for_team_congr hteams team).trans hteam) ?_
        rw [publish_pending, due_events_answers hu fun e' he' x hx hid => ?_]
        · exact he
        · have hmem' := List.mem_of_mem_take he'
          rw [mem_select] at hmem'
          obtain rfl := hk.eq hx hmem'.1 hid
          have hp := hmem'.2
          simp only [Bool.and_eq_true, beq_iff_eq] at hp
          exact hp.1.1
      · exact ih hk hmem hteam he

end Publishing

/-! ## Asking about uncertain slots -/

section Reconciling

variable {now : ℕ} {b : Backends} {held : Uuid → BusResult (Option Locator)} {db db' db'' : Db}
  {team k : Uuid} {l : Lease} {message_id : Uuid} {o : ConversationOutbox} {rows : List (Uuid × Backend)}
  {name backend : Backend}

/-- The row of message `k`. -/
def row_at (k : Uuid) (db : Db) : Option ConversationMessage :=
  one (fun m => m.id == k) db.conversation_messages

/-- The pass has not come to message `k` yet. -/
structure Still (k : Uuid) (db db' : Db) : Prop where
  slot : slot_at k db' = slot_at k db
  row : row_at k db' = row_at k db
  teams : db'.teams = db.teams
  slots : db.SlotsKeyed → db'.SlotsKeyed

theorem Still.rfl : Still k db db := ⟨Eq.refl _, Eq.refl _, Eq.refl _, fun h => h⟩

theorem Still.trans (h : Still k db db') (h' : Still k db' db'') : Still k db db'' :=
  ⟨h'.slot.trans h.slot, h'.row.trans h.row, h'.teams.trans h.teams, fun hk => h'.slots (h.slots hk)⟩

/-- A message row through an `UPDATE` that does not match it. -/
theorem one_row_elsewhere {w : ConversationMessage → Bool}
    {f : ConversationMessage → ConversationMessage} {t : List ConversationMessage}
    (hid : ∀ m, (f m).id = m.id) (hw : ∀ m, one (fun m => m.id == k) t = some m → w m = false) :
    one (fun m => m.id == k) (update w f t) = one (fun m => m.id == k) t := by
  rw [one_update fun m => by rw [hid m]]
  cases hone : one (fun m => m.id == k) t with
  | none => rfl
  | some m =>
    rw [Option.map_some, hw m hone]
    rfl

theorem lease_one_still {worker : String} (hne : k ≠ message_id)
    (h : lease_one now worker message_id db = some (l, db')) :
    Still k db db' ∧ l.message_id = message_id := by
  simp only [lease_one, Option.bind_eq_bind, Option.bind_eq_some_iff, Option.pure_def,
    Option.some.injEq, Prod.mk.injEq] at h
  obtain ⟨o, hone, rfl, rfl⟩ := h
  have hid : ∀ x, takeable now message_id x = true → x.message_id = message_id := by
    intro x hx
    simp only [takeable, Bool.and_eq_true, beq_iff_eq] at hx
    exact hx.1.1
  refine ⟨⟨?_, Eq.refl _, Eq.refl _, fun hk => hk.update fun _ => Eq.refl _⟩, hid o (pos_of_one hone)⟩
  exact one_slot_elsewhere (f := leased_row now worker 0) (fun _ => Eq.refl _) hid hne

theorem settled_elsewhere {res : Settled × Db} (hne : k ≠ l.message_id) (h : SettledBy now l db res) :
    slot_at k res.2 = slot_at k db := by
  cases h with
  | fenced => exact Eq.refl _
  | stored _ _ hm | retrying _ _ hm | failed _ _ hm => exact (hm.others k hne).2

theorem confirm_still (hne : k ≠ l.message_id) (locator : Locator) (hk : db.SlotsKeyed) :
    Still k db (settle now l (.Confirmed locator) db).2 := by
  have hslot : slot_at k (settle now l (.Confirmed locator) db).2 = slot_at k db :=
    settled_elsewhere hne (settle_spec hk (.Confirmed locator))
  refine ⟨hslot, ?_, ?_, ?_⟩ <;> unfold settle <;> split
  · refine one_row_elsewhere (f := fun m => { m with
      publication_state := .stored, canonical_locator := some locator }) (fun _ => Eq.refl _) ?_
    intro m hm
    have hid := pos_of_one hm
    simp only [beq_iff_eq] at hid
    simpa [hid] using hne
  · exact Eq.refl _
  · exact Eq.refl _
  · exact Eq.refl _
  · exact fun hk => hk.delete _
  · exact fun hk => hk

theorem unlease_still (hne : k ≠ l.message_id) : Still k db (unlease now l db) := by
  refine ⟨?_, Eq.refl _, Eq.refl _, fun hk => hk.update fun _ => Eq.refl _⟩
  exact one_slot_elsewhere (f := unleased_row now) (fun _ => Eq.refl _)
    (fun x hx => (at_generation_iff.mp hx).1) hne

theorem resolve_slot_still (now : ℕ) (name : Backend) (held : Uuid → BusResult (Option Locator))
    (hne : k ≠ message_id) (hk : db.SlotsKeyed) :
    Still k db (resolve_slot now name held message_id db).2.2 := by
  unfold resolve_slot
  cases hlease : lease_one now "reconciler" message_id db with
  | none => exact .rfl
  | some p =>
    obtain ⟨l, db'⟩ := p
    obtain ⟨hstill, hid⟩ := lease_one_still hne hlease
    rw [← hid] at hne
    cases held message_id with
    | error e => exact hstill.trans (unlease_still hne)
    | ok o =>
      cases o with
      | none => exact hstill.trans (unlease_still hne)
      | some locator => exact hstill.trans (confirm_still hne locator (hstill.slots hk))

/-- A slot that can be taken is asked about. -/
theorem resolve_slot_asks (name : Backend) (held : Uuid → BusResult (Option Locator))
    (hk : db.SlotsKeyed) (ho : slot_at k db = some o) (hflight : in_flight o = true) (hfree : unheld now o = true) :
    Call.reconcile name k ∈ (resolve_slot now name held k db).1 := by
  obtain ⟨hmem, hid⟩ := slot_mem ho
  have htake : one (takeable now k) db.conversation_outbox = some o := by
    refine one_eq_some hmem (by simp [takeable, hid, hflight, hfree]) fun x hx hp => ?_
    simp only [takeable, Bool.and_eq_true, beq_iff_eq] at hp
    exact hk.eq hx hmem (hp.1.1.trans hid.symm)
  simp [resolve_slot, lease_one, htake]

theorem resolve_slot_goes_on (now : ℕ) (name : Backend) (message_id : Uuid) (db : Db)
    (hheld : ∀ id, ∃ o, held id = .ok o) : (resolve_slot now name held message_id db).2.1 = .ok () := by
  obtain ⟨o, ho⟩ := hheld message_id
  unfold resolve_slot
  split
  · exact Eq.refl _
  · rw [ho]
    cases o <;> exact Eq.refl _

/-- A pass over other messages' slots leaves this one as it was. -/
theorem resolve_rows_still (now : ℕ) (name : Backend) (held : Uuid → BusResult (Option Locator))
    (hrows : ∀ r ∈ rows, k ≠ r.1) (hk : db.SlotsKeyed) :
    Still k db (resolve_rows now name held rows db).2.2 := by
  induction rows generalizing db with
  | nil => exact .rfl
  | cons r rows ih =>
    have hrest : ∀ r ∈ rows, k ≠ r.1 := fun r hr => hrows r (List.mem_cons_of_mem _ hr)
    have hstill := resolve_slot_still now name held
      (hrows r List.mem_cons_self) hk
    unfold resolve_rows
    split
    · exact ih hrest hk
    · split <;> rename_i heq <;> rw [heq] at hstill
      · exact hstill
      · exact hstill.trans (ih hrest (hstill.slots hk))

/-- A slot among the rows of a pass is asked about. -/
theorem resolve_rows_asks (hheld : ∀ id, ∃ o, held id = .ok o) (hmem : (k, name) ∈ rows)
    (hk : db.SlotsKeyed) (ho : slot_at k db = some o) (hflight : in_flight o = true) (hfree : unheld now o = true) :
    Call.reconcile name k ∈ (resolve_rows now name held rows db).1 := by
  induction rows generalizing db with
  | nil => exact absurd hmem List.not_mem_nil
  | cons r rows ih =>
    obtain ⟨id, backend⟩ := r
    unfold resolve_rows
    split
    · rename_i hother
      have hne : (k, name) ≠ (id, backend) := by
        intro h
        obtain ⟨-, rfl⟩ := Prod.mk.inj h
        simp at hother
      exact ih ((List.mem_cons.mp hmem).resolve_left hne) hk ho
    · have hon := resolve_slot_goes_on now name id db hheld
      by_cases hid : k = id
      · subst hid
        have hask := resolve_slot_asks name held hk ho hflight hfree
        split <;> rename_i heq <;> rw [heq] at hask
        · exact hask
        · exact List.mem_append_left _ hask
      · have hstill := resolve_slot_still now name held hid hk
        split <;> rename_i heq
        · rw [heq] at hon
          cases hon
        · rw [heq] at hstill
          have hne : (k, name) ≠ (id, backend) := fun h => hid (Prod.mk.inj h).1
          exact List.mem_append_right _ (ih ((List.mem_cons.mp hmem).resolve_left hne)
            (hstill.slots hk) (hstill.slot.trans ho))

/-- A slot whose outcome nobody knows: marked, unsettled, and held by nobody. -/
structure Uncertain (now : ℕ) (team k : Uuid) (backend : Backend) (db : Db) : Prop where
  slot : ∃ o, slot_at k db = some o ∧ o.team_id = team ∧ o.backend = backend ∧
    in_flight o = true ∧ unheld now o = true
  message : ∃ m, row_at k db = some m ∧ m.uncertain_at.isSome = true ∧ m.publication_state ≠ .stored

theorem Uncertain.still (h : Uncertain now team k backend db)
    (hstill : Still k db db') : Uncertain now team k backend db' :=
  ⟨by rw [hstill.slot]; exact h.slot, by rw [hstill.row]; exact h.message⟩

theorem Uncertain.mem_rows (h : Uncertain now team k backend db) : (k, backend) ∈ uncertain_rows team db := by
  obtain ⟨o, ho, hteam, hback, hflight, -⟩ := h.slot
  obtain ⟨m, hm, hmark, -⟩ := h.message
  obtain ⟨hmem, hid⟩ := slot_mem ho
  refine List.mem_map.mpr ⟨o, List.mem_filter.mpr ⟨hmem, ?_⟩, by rw [hid, hback]⟩
  have hrow : one (fun m => m.id == o.message_id) db.conversation_messages = some m := by
    rw [hid]
    exact hm
  have hstate : o.state ≠ .failed := by
    intro hf
    rw [in_flight, hf] at hflight
    cases hflight
  simp [hteam, hrow, hmark, hstate]

/-- What is not stored stays uncertain when a team's pass ends. -/
theorem clear_uncertain_still {m : ConversationMessage} (hm : row_at k db = some m)
    (hst : m.publication_state ≠ .stored) (u : Uuid) : Still k db (clear_uncertain u db) := by
  refine ⟨Eq.refl _, ?_, Eq.refl _, fun hk => hk⟩
  refine one_row_elsewhere (f := fun m => { m with uncertain_at := none }) (fun _ => Eq.refl _) ?_
  intro x hx
  obtain rfl : x = m := Option.some.inj (hx.symm.trans hm)
  simp [hst]

/-- The team's own pass asks about the slot. -/
theorem resolve_uncertain_asks {backend : AnyBackend} (hheld : ∀ id, ∃ o, held id = .ok o)
    (hk : db.SlotsKeyed) (h : Uncertain now team k backend.name db) :
    Call.reconcile backend.name k ∈ (resolve_uncertain now backend held team db).1 := by
  obtain ⟨o, ho, -, -, hflight, hfree⟩ := h.slot
  have hask := resolve_rows_asks hheld h.mem_rows hk ho hflight hfree
  unfold resolve_uncertain
  split <;> rename_i heq <;> rw [heq] at hask <;> exact hask

/-- Another team's pass leaves the slot uncertain. -/
theorem resolve_uncertain_still (backend : AnyBackend) (held : Uuid → BusResult (Option Locator)) {u : Uuid}
    (hne : u ≠ team) (hk : db.SlotsKeyed)
    (h : Uncertain now team k name db) : Still k db (resolve_uncertain now backend held u db).2 := by
  obtain ⟨o, ho, hteam, -, -, -⟩ := h.slot
  obtain ⟨m, hm, -, hst⟩ := h.message
  have hrows : ∀ r ∈ uncertain_rows u db, k ≠ r.1 := by
    rintro r hr rfl
    obtain ⟨x, hx, rfl⟩ := List.mem_map.mp hr
    obtain ⟨hx, hp⟩ := List.mem_filter.mp hx
    simp only [Bool.and_eq_true, beq_iff_eq] at hp
    obtain ⟨hmem, hid⟩ := slot_mem ho
    obtain rfl := hk.eq hx hmem hid.symm
    exact hne (hp.1.1.symm.trans hteam)
  have hstill := resolve_rows_still now backend.name held hrows hk
  unfold resolve_uncertain
  split <;> rename_i heq <;> rw [heq] at hstill
  · exact hstill
  · exact hstill.trans (clear_uncertain_still (hstill.row.trans hm) hst u)

/-- A team's uncertain slots are asked about by the pass, of the backend the team
gets. -/
theorem reconcile_teams_asks {teams : List Uuid} {backend : AnyBackend} (hheld : ∀ id, ∃ o, held id = .ok o)
    (hk : db.SlotsKeyed) (hmem : team ∈ teams)
    (hteam : for_team b team db = .ok backend) (h : Uncertain now team k backend.name db) :
    Call.reconcile backend.name k ∈ (reconcile_teams now b held teams db).1 := by
  induction teams generalizing db with
  | nil => exact absurd hmem List.not_mem_nil
  | cons u teams ih =>
    unfold reconcile_teams
    by_cases hu : u = team
    · subst hu
      rw [hteam]
      exact List.mem_append_left _ (resolve_uncertain_asks hheld hk h)
    · have hmem : team ∈ teams := (List.mem_cons.mp hmem).resolve_left (Ne.symm hu)
      split
      · rename_i other _
        have hstill := resolve_uncertain_still other held hu hk h
        exact List.mem_append_right _ (ih (hstill.slots hk) hmem
          ((for_team_congr hstill.teams team).trans hteam) (h.still hstill))
      · exact ih hk hmem hteam h

end Reconciling

/-! ## A team that is routed back -/

section Served

variable {now : ℕ} {b : Backends} {db : Db} {t : Team}

/-- A fetch asks the broker exactly when its team gets one. -/
theorem fetch_asks {seen : Db} {answer : BusResult (List InboxRef)} {auth : AuthCtx}
    {limit : Option ℤ} {batch : InboxBatch} {asked : List Call} {db' : Db}
    (h : fetch now seen b answer auth limit db = .ok (batch, asked, db')) :
    Call.fetch_references auth.team_id (caller_key auth) (batch_size limit) ∈ asked ↔
      for_team b auth.team_id db = .ok (.JetStream auth.team_id) := by
  simp only [Inbox.fetch, bind_eq_ok, pure_eq_ok] at h
  obtain ⟨_, -, _, -, _, -, ⟨refs, calls, note, db₁⟩, hconsult, h⟩ := h
  obtain rfl : calls = asked := (Prod.mk.inj (Prod.mk.inj h).2).1
  unfold consult at hconsult
  split at hconsult
  · rename_i team hteam
    -- the team's own handle, whatever the broker answered
    have hid : team = auth.team_id := by
      simp only [for_team, bind_eq_ok] at hteam
      obtain ⟨x, -, hteam⟩ := hteam
      exact (named_jetstream hteam).2
    rw [hteam, hid]
    refine ⟨fun _ => rfl, fun _ => ?_⟩
    split at hconsult
    · simp only [bind_eq_ok, pure_eq_ok, Prod.mk.injEq] at hconsult
      obtain ⟨⟨_, acks, _⟩, -, -, rfl, -⟩ := hconsult
      rw [hid]
      exact List.mem_cons_self
    · obtain ⟨-, rfl, -⟩ := by simpa using hconsult
      rw [hid]
      exact List.mem_cons_self
  · rename_i hteam
    obtain ⟨-, rfl, -⟩ := by simpa using hconsult
    rw [hteam]
    simp
  · rename_i hteam
    obtain ⟨-, rfl, -⟩ := by simpa using hconsult
    rw [hteam]
    simp

/-- What the broker does for a team while it has threads there. -/
structure Served (now : ℕ) (b : Backends) (answer : InboxEvent → Published)
    (held : Uuid → BusResult (Option Locator)) (team : Uuid) (key : String) (limit : ℕ)
    (asked : List Call) (db : Db) : Prop where
  /-- A pass publishes the team's due references: as many as a pass takes. -/
  published : ∀ e ∈ due_events now team REFERENCES_PER_PASS db,
    Call.publish_reference team e.recipient_key e.id ∈ (publish_references now b answer db).1
  /-- A pass asks about every slot whose outcome nobody knows. -/
  reconciled : ∀ k, Uncertain now team k .jetstream db →
    Call.reconcile .jetstream k ∈ (reconcile_routed_teams now b held db).1
  /-- A fetch asks for what is already there. -/
  consulted : Call.fetch_references team key limit ∈ asked

/-- **A team is served by the broker exactly while its default is the broker**,
though the passes list it in any case as long as one of its threads is there. -/
theorem served_iff {answer : InboxEvent → Published} {held : Uuid → BusResult (Option Locator)}
    {seen db' : Db} {auth : AuthCtx} {limit : Option ℤ} {batch : InboxBatch} {asked : List Call}
    {fetched : BusResult (List InboxRef)} (hteams : Keyed Team.id db.teams)
    (hevents : Keyed InboxEvent.id db.inbox_events)
    (hslots : Keyed ConversationOutbox.message_id db.conversation_outbox) (ht : t ∈ db.teams)
    (hthread : ∃ c ∈ db.conversations, c.team_id = t.id ∧ c.backend = .jetstream)
    (hbroker : named b .jetstream t.id = .ok (.JetStream t.id)) (hheld : ∀ id, ∃ o, held id = .ok o)
    (hauth : auth.team_id = t.id)
    (hfetch : Inbox.fetch now seen b fetched auth limit db = .ok (batch, asked, db')) :
    t.id ∈ routed_teams db ∧
      (Served now b answer held t.id (caller_key auth) (batch_size limit) asked db ↔
        t.default_backend = .jetstream) := by
  obtain ⟨c, hc, hteam, hback⟩ := hthread
  have hlisted := mem_routed_teams ht hc hteam hback
  have hasks := fetch_asks hfetch
  rw [hauth] at hasks
  refine ⟨hlisted, fun hserved => ?_, fun hdefault => ?_⟩
  · exact (for_team_jetstream hteams ht (hasks.mp hserved.consulted)).1
  · have hfor : for_team b t.id db = .ok (.JetStream t.id) := by
      rw [for_team_eq hteams ht, hdefault]
      exact hbroker
    exact ⟨fun e he => publish_teams_asks hevents hlisted hfor he,
      fun k hk => reconcile_teams_asks hheld hslots hlisted hfor hk, hasks.mpr hfor⟩

/-! ## A thread that was left there -/

/-- A thread on the broker. -/
def routed : Conversation := { thread .jetstream with last_seq := 1 }

/-- Its one message. Nobody knows what came of its publication. -/
def hello : ConversationMessage :=
  { id := 50, conversation_id := 7, seq := 1, sender_agent := 1, sender_session := "",
    body := "hello", reply_to := none, request_id := 100, created_at := 0, deleted_at := none,
    publication_state := .pending_publication, canonical_locator := none, uncertain_at := some 1,
    tombstoned_at := none, tombstone_reason := none, body_sha256 := none, backend := .jetstream }

/-- A crew with that thread, and one reference due. New threads go to `backend`. -/
def crew (backend : Backend) : Db :=
  { pair backend with
    conversations := [routed], conversation_messages := [hello],
    conversation_outbox := [slot_row 0 50 7 1 .jetstream "hello" 51],
    inbox_events := [event_row 0 1 "a1" .receipt 50 10 "10:acknowledged" 60] }

/-- A broker that answers. -/
def reachable : Backends := ⟨true, [], fun _ => .ok ()⟩

/-- A broker that takes everything it is given, and holds nothing. -/
def confirms (_ : InboxEvent) : Published := .Confirmed (.jetstream 1 1)

def holds_nothing (_ : Uuid) : BusResult (Option Locator) := .ok none

/-- What Ada's fetch asks of the broker. -/
def asked_by_ada (backend : Backend) : List Call :=
  match Inbox.fetch 0 (crew backend) reachable (.ok []) ada none (crew backend) with
  | .ok (_, asked, _) => asked
  | .error _ => []

/-- Ada's fetch goes through. -/
theorem ada_fetches (backend : Backend) : ∃ batch db',
    Inbox.fetch 0 (crew backend) reachable (.ok []) ada none (crew backend) =
      .ok (batch, asked_by_ada backend, db') := by
  cases backend <;> exact ⟨_, _, rfl⟩

theorem served_iff_on_the_broker : 1 ∈ routed_teams (crew .jetstream) ∧
    (Served 0 reachable confirms holds_nothing 1 (caller_key ada) (batch_size none)
      (asked_by_ada .jetstream) (crew .jetstream) ↔ Backend.jetstream = .jetstream) := by
  obtain ⟨_, _, hfetch⟩ := ada_fetches .jetstream
  exact served_iff (t := ⟨1, "crew", true, .jetstream⟩) (by decide) (by decide) (by decide)
    (by decide) ⟨routed, by decide, rfl, rfl⟩ rfl (fun _ => ⟨none, rfl⟩) rfl hfetch

/-- The crew is routed back to Postgres: its thread is still listed, its reference
is due, and its slot is uncertain. Neither pass asks the broker for anything, and
neither does Ada's fetch. -/
theorem routed_back_is_not_served :
    1 ∈ routed_teams (crew .postgres) ∧
      (due_events 0 1 REFERENCES_PER_PASS (crew .postgres)).length = 1 ∧
      Uncertain 0 1 50 .jetstream (crew .postgres) ∧
      (publish_references 0 reachable confirms (crew .postgres)).1 = [] ∧
      (reconcile_routed_teams 0 reachable holds_nothing (crew .postgres)).1 = [] ∧
      (∃ batch db', Inbox.fetch 0 (crew .postgres) reachable (.ok []) ada none (crew .postgres) =
        .ok (batch, asked_by_ada .postgres, db')) ∧ asked_by_ada .postgres = [] ∧
      ¬ Served 0 reachable confirms holds_nothing 1 (caller_key ada) (batch_size none)
        (asked_by_ada .postgres) (crew .postgres) := by
  refine ⟨by decide, by decide, ⟨⟨_, rfl, rfl, rfl, by decide, by decide⟩, hello, rfl, rfl, by decide⟩,
    by decide, by decide, ada_fetches .postgres, by decide, fun hserved => ?_⟩
  have hasked := hserved.consulted
  rw [show asked_by_ada .postgres = [] by decide] at hasked
  exact absurd hasked List.not_mem_nil

end Served

end CrewSync.Rerouting
