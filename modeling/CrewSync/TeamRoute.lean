/-
`store/admin.rs`: `set_default_backend`, beside the traffic of the team.

The operation is refused while messages of the team await publication. It counts them on
the pool, and writes the team's row in a transaction it begins afterwards: three moments,
between which anything may happen. What a count of zero is worth at the commit is
therefore a matter of what came in between (`change_commits_idle`): nothing is in flight
then if no slot of the team came into flight since. A send that commits in between is
not noticed.

Moves are not looked at, and need not be. The row of a team says where threads are opened
from now on; a thread that is there, its slots and its moves keep what they have.

The row it leaves in the audit trail is part of `AuditTrail`.
-/
import CrewSync.Admin
import CrewSync.Moves

set_option autoImplicit false

namespace CrewSync.TeamRoute

open Error Schema Rows Conversations Outbox Runs
open Admin (parse_backend)
open Crew

/-! ## The operation -/

/-- `WHERE team_id = $1 AND state <> 'failed'`. -/
def awaiting (team_id : Uuid) (o : ConversationOutbox) : Bool := o.team_id == team_id && o.state != .failed

/-- How many slots of the team are pending or leased. -/
def inflight (team_id : Uuid) (db : Db) : ℕ := (db.conversation_outbox.filter (awaiting team_id)).length

/-- Where a change stands. -/
inductive Stage where
  | begun
  /-- Its count is done, and found nothing. -/
  | counted (backend : Backend)
  /-- It has written the team's row, or found that it need not. -/
  | updated (backend : Backend) (changed : Bool)
  | ended (r : BusResult Unit)

/-- One call of `set_default_backend`. -/
structure Change where
  team_id : Uuid
  backend : String
  stage : Stage := .begun

/-- Its count, and the check before it. -/
def count (db : Db) (x : Change) : BusResult Backend := do
  let backend ← fetch (parse_backend x.backend) (.Invalid "backend must be 'postgres' or 'jetstream'")
  ensure (¬ 0 < inflight x.team_id db) (.Conflict
    (s!"{inflight x.team_id db} message(s) of this team are still awaiting publication. Let them " ++
      "settle before changing the route; `team usage` shows when the queue is empty."))
  pure backend

/-- `SET default_backend = $2 WHERE id = $1`. -/
def routed (team_id : Uuid) (backend : Backend) (db : Db) : Db :=
  { db with teams := update (fun t => t.id == team_id) (fun t => { t with default_backend := backend }) db.teams }

/-- The transaction has the row of the team locked. -/
def Change.locks (x : Change) (team_id : Uuid) : Bool :=
  match x.stage with
  | .updated _ changed => changed && x.team_id == team_id
  | _ => false

/-! ## The system -/

/-- The rest of the server, and the changes. -/
structure Sys where
  moves : Moves.Sys
  changes : List Change := []

def Sys.db (s : Sys) : Db := s.moves.db

/-- Change `i` has gone on. -/
def Sys.put (s : Sys) (i : ℕ) (x : Change) : Sys := { s with changes := s.changes.set i x }

/-- What can happen next. -/
inductive Act where
  /-- A send, a lease, a settlement, a step of a move, or whatever else commits. -/
  | moves (a : Moves.Act)
  | create_conversation (seen now : ℕ) (auth : AuthCtx) (input : CreateInput) (id seat : Uuid) (seats : List Uuid)
  /-- An operator changes the route of a team. -/
  | change (team_id : Uuid) (backend : String)
  | count (i : ℕ)
  | update (i : ℕ)
  | commit (i : ℕ)

section Steps

variable (sha256 : String → String)

/-- One step. -/
def step (s : Sys) : Act → Option Sys
  | .moves a => (Moves.step sha256 s.moves a).map fun m => { s with moves := m }
  | .create_conversation seen now auth input id seat seats =>
    (s.moves.view seen).map fun v =>
      { s with moves := s.moves.commit (create_conversation now v auth input id seat seats s.db) }
  | .change team_id backend => some { s with changes := s.changes ++ [{ team_id, backend }] }
  | .count i => do
    let x ← s.changes[i]?
    match x.stage with
    | .begun =>
      match count s.db x with
      | .error e => some (s.put i { x with stage := .ended (.error e) })
      | .ok backend => some (s.put i { x with stage := .counted backend })
    | _ => none
  | .update i => do
    let x ← s.changes[i]?
    match x.stage with
    | .counted backend =>
      if s.changes.any fun y => y.locks x.team_id then none
      else
        let changed := s.db.teams.any fun t => t.id == x.team_id && t.default_backend != backend
        some (s.put i { x with stage := .updated backend changed })
    | _ => none
  | .commit i => do
    let x ← s.changes[i]?
    match x.stage with
    | .updated backend changed =>
      let t := s.put i { x with stage := .ended (.ok ()) }
      some (if changed then { t with moves := s.moves.after (routed x.team_id backend s.db) } else t)
    | _ => none

end Steps

/-! ## What a count is worth later -/

/-- What writes slots: the other statements never bring one into flight. -/
def writes_slots : Act → Bool
  | .moves (.send _) | .moves (.lease _ _ _) | .moves (.lease_one _ _ _) | .moves (.settle _ _ _)
  | .moves (.other _) => true
  | _ => false

/-- No slot of the team comes into flight at the step. -/
def Quiet (team_id : Uuid) (e : Trans Sys Act) : Prop :=
  ∀ o ∈ e.post.db.conversation_outbox, awaiting team_id o = true →
    ∃ o' ∈ e.pre.db.conversation_outbox, o'.message_id = o.message_id ∧ awaiting team_id o' = true

/-- The change has counted, and not yet committed. -/
def Change.waits (x : Change) : Bool :=
  match x.stage with
  | .counted _ | .updated _ _ => true
  | _ => false

/-- The run has a count of change `i` that found nothing of the team in flight; and if nothing
has come into flight since, nothing is. -/
def Counted (team_id : Uuid) (i : ℕ) (tr : List (Trans Sys Act)) (s : Sys) : Prop :=
  ∃ before c after, tr = before ++ c :: after ∧ c.act = .count i ∧ inflight team_id c.pre.db = 0 ∧
    ((∀ d ∈ after, writes_slots d.act = true → Quiet team_id d) → inflight team_id s.db = 0)

section Counting

variable {sha256 : String → String} {s t : Sys} {a : Act} {team_id : Uuid} {i : ℕ} {x : Change}
  {tr : List (Trans Sys Act)}

theorem inflight_eq_zero {db : Db} :
    inflight team_id db = 0 ↔ ∀ o ∈ db.conversation_outbox, awaiting team_id o = false := by
  unfold inflight
  rw [List.length_eq_zero_iff, List.filter_eq_nil_iff]
  simp only [Bool.not_eq_true]

theorem Quiet.keeps {e : Trans Sys Act} (h : Quiet team_id e) (hnone : inflight team_id e.pre.db = 0) :
    inflight team_id e.post.db = 0 := by
  rw [inflight_eq_zero] at hnone ⊢
  intro o ho
  by_contra hawaits
  obtain ⟨o', ho', -, hawaits'⟩ := h o ho ((Bool.not_eq_false _).mp hawaits)
  rw [hnone o' ho'] at hawaits'
  cases hawaits'

theorem ran_slots {now : ℕ} {id : Uuid} {db db' : Db} {m : Migrate.Mover} {ph : Migrate.Phase}
    (h : Migrate.Ran sha256 now id db m db' ph) : db'.conversation_outbox = db.conversation_outbox := by
  cases h with
  | cut_over _ hcut =>
    rw [Migrate.cutover_ok hcut]
  | given_up =>
    unfold Migrate.abort
    split
    · rfl
    · rfl
  | _ => rfl

/-- A statement of a move, of a sweep or of a reader leaves the slots alone. -/
theorem moves_slots {u v : Moves.Sys} {a : Moves.Act} (h : Moves.step sha256 u a = some v)
    (hother : writes_slots (.moves a) = false) : v.db.conversation_outbox = u.db.conversation_outbox := by
  cases Moves.step_did h with
  | beside _ _ htries =>
    have hwrites : writes_slots (.moves a) = Moves.tries a := by cases a <;> rfl
    rw [hwrites, htries] at hother
    cases hother
  | sent | stored | failed => exact absurd hother (by simp [writes_slots])
  | ran _ hran => exact ran_slots hran
  | @abort now migration_id why =>
    show (Migrate.abort now migration_id why u.db).conversation_outbox = u.db.conversation_outbox
    unfold Migrate.abort
    split
    · rfl
    · rfl
  | _ => rfl

/-- What does not write slots is quiet, for every team. -/
theorem step_quiet (h : step sha256 s a = some t) (hother : writes_slots a = false) : Quiet team_id ⟨s, a, t⟩ := by
  have hsame : t.db.conversation_outbox = s.db.conversation_outbox := by
    cases a with
    | moves a =>
      obtain ⟨m, hm, rfl⟩ := Option.map_eq_some_iff.mp h
      exact moves_slots hm hother
    | create_conversation seen now auth input id seat seats =>
      obtain ⟨v, -, rfl⟩ := Option.map_eq_some_iff.mp h
      show (s.moves.commit _).db.conversation_outbox = s.moves.db.conversation_outbox
      unfold Moves.Sys.commit
      rcases conclude_cases (fun q => s.moves.after q.2) (create_conversation now v auth input id seat seats s.db)
        with heq | ⟨⟨n, db'⟩, hok, heq⟩
      · rw [heq]
      · rw [heq]
        simp only [create_conversation, bind_eq_ok, ensure_eq_ok, fetch_eq_ok, pure_eq_ok, Prod.mk.injEq] at hok
        obtain ⟨_, -, _, -, _, -, _, -, _, -, _, -, _, -, _, -, _, -, _, -, _, -, -, rfl⟩ := hok
        rfl
    | change team backend =>
      rw [← Option.some.inj h]
      rfl
    | count j =>
      simp only [step, Option.bind_eq_bind, Option.bind_eq_some_iff] at h
      obtain ⟨y, -, h⟩ := h
      split at h
      · split at h
        · rw [← Option.some.inj h]
          rfl
        · rw [← Option.some.inj h]
          rfl
      · cases h
    | update j =>
      simp only [step, Option.bind_eq_bind, Option.bind_eq_some_iff] at h
      obtain ⟨y, -, h⟩ := h
      split at h
      · split at h
        · cases h
        · rw [← Option.some.inj h]
          rfl
      · cases h
    | commit j =>
      simp only [step, Option.bind_eq_bind, Option.bind_eq_some_iff] at h
      obtain ⟨y, -, h⟩ := h
      split at h
      · rename_i backend changed hstage
        rw [← Option.some.inj h]
        cases changed with
        | true => rfl
        | false => rfl
      · cases h
  intro o ho hawaits
  refine ⟨o, ?_, rfl, hawaits⟩
  show o ∈ s.db.conversation_outbox
  rw [← hsame]
  exact ho

/-- What a step does to a change that has counted afterwards: it had counted before, with
the same team, or this is its count and found nothing. -/
theorem step_waits (h : step sha256 s a = some t) (hx : t.changes[i]? = some x) (hwaits : x.waits = true) :
    (∃ y, s.changes[i]? = some y ∧ y.waits = true ∧ y.team_id = x.team_id) ∨
      a = .count i ∧ inflight x.team_id s.db = 0 ∧ t.db = s.db := by
  -- Change `j` goes on; the others are what they were.
  have hput : ∀ (j : ℕ) (y y' : Change) (m : Moves.Sys), s.changes[j]? = some y → y'.team_id = y.team_id →
      (y'.waits = true → y.waits = true) → t = { s.put j y' with moves := m } →
      ∃ z, s.changes[i]? = some z ∧ z.waits = true ∧ z.team_id = x.team_id := by
    intro j y y' m hy hteam hkeep ht
    rw [ht] at hx
    simp only [Sys.put, List.getElem?_set] at hx
    by_cases hij : j = i
    · rw [if_pos hij] at hx
      split at hx
      · rw [← Option.some.inj hx] at hwaits ⊢
        rw [← hij]
        exact ⟨y, hy, hkeep hwaits, hteam.symm⟩
      · cases hx
    · rw [if_neg hij] at hx
      exact ⟨x, hx, hwaits, rfl⟩
  cases a with
  | moves a =>
    obtain ⟨m, -, rfl⟩ := Option.map_eq_some_iff.mp h
    exact Or.inl ⟨x, hx, hwaits, rfl⟩
  | create_conversation seen now auth input id seat seats =>
    obtain ⟨v, -, rfl⟩ := Option.map_eq_some_iff.mp h
    exact Or.inl ⟨x, hx, hwaits, rfl⟩
  | change team backend =>
    obtain rfl := Option.some.inj h
    rw [List.getElem?_append] at hx
    split at hx
    · exact Or.inl ⟨x, hx, hwaits, rfl⟩
    · -- a change that has just begun has not counted
      have hnew := List.mem_of_getElem? hx
      rw [List.mem_singleton] at hnew
      rw [hnew] at hwaits
      exact absurd hwaits (by simp [Change.waits])
  | count j =>
    simp only [step, Option.bind_eq_bind, Option.bind_eq_some_iff] at h
    obtain ⟨y, hy, h⟩ := h
    split at h
    · cases hcount : count s.db y with
      | error e =>
        rw [hcount] at h
        exact Or.inl (hput j y { y with stage := .ended (.error e) } s.moves hy rfl
          (fun hw => absurd hw (by simp [Change.waits])) (Option.some.inj h).symm)
      | ok backend =>
        rw [hcount] at h
        have ht := Option.some.inj h
        by_cases hij : j = i
        · right
          unfold count at hcount
          simp only [bind_eq_ok, fetch_eq_ok, ensure_eq_ok, pure_eq_ok] at hcount
          obtain ⟨_, -, _, hzero, -⟩ := hcount
          have hteam : x.team_id = y.team_id := by
            rw [← ht] at hx
            simp only [Sys.put, List.getElem?_set, if_pos hij] at hx
            split at hx
            · rw [← Option.some.inj hx]
            · cases hx
          rw [hij, hteam, ← ht]
          exact ⟨rfl, by omega, rfl⟩
        · left
          rw [← ht] at hx
          simp only [Sys.put, List.getElem?_set, if_neg hij] at hx
          exact ⟨x, hx, hwaits, rfl⟩
    · cases h
  | update j =>
    simp only [step, Option.bind_eq_bind, Option.bind_eq_some_iff] at h
    obtain ⟨y, hy, h⟩ := h
    split at h
    · rename_i backend hstage
      split at h
      · cases h
      · refine Or.inl (hput j y { y with stage := .updated backend (s.db.teams.any fun t =>
          t.id == y.team_id && t.default_backend != backend) } s.moves hy rfl (fun _ => ?_) (Option.some.inj h).symm)
        unfold Change.waits
        rw [hstage]
    · cases h
  | commit j =>
    simp only [step, Option.bind_eq_bind, Option.bind_eq_some_iff] at h
    obtain ⟨y, hy, h⟩ := h
    split at h
    · rename_i backend changed hstage
      have ht := Option.some.inj h
      left
      cases changed with
      | true =>
        exact hput j y { y with stage := .ended (.ok ()) } _ hy rfl (fun hw => absurd hw (by simp [Change.waits]))
          ht.symm
      | false =>
        exact hput j y { y with stage := .ended (.ok ()) } s.moves hy rfl
          (fun hw => absurd hw (by simp [Change.waits])) ht.symm
    · cases h

/-- Over a run, whoever has counted and not committed has its count in the run. -/
theorem counted_of_waits {s₀ : Sys} (hrun : Run (Rel (step sha256)) s₀ tr s) (hstart : s₀.changes = [])
    (hx : s.changes[i]? = some x) (hwaits : x.waits = true) : Counted x.team_id i tr s := by
  induction hrun generalizing x with
  | nil =>
    rw [hstart] at hx
    cases hx
  | @snoc tr s t a _ hr ih =>
    rcases step_waits hr hx hwaits with ⟨y, hy, hywaits, hteam⟩ | ⟨rfl, hzero, hsame⟩
    · obtain ⟨before, c, after, rfl, hact, hcount, hkept⟩ := ih hy hywaits
      rw [hteam] at hcount hkept
      refine ⟨before, c, after ++ [⟨s, a, t⟩], by simp, hact, hcount, fun hquiet => ?_⟩
      rw [List.forall_mem_append, List.forall_mem_singleton] at hquiet
      have hlast : Quiet x.team_id ⟨s, a, t⟩ := by
        by_cases hwrites : writes_slots a = true
        · exact hquiet.2 hwrites
        · exact step_quiet hr (Bool.eq_false_iff.mpr hwrites)
      exact hlast.keeps (hkept hquiet.1)
    · refine ⟨tr, ⟨s, .count i, t⟩, [], rfl, rfl, hzero, fun _ => ?_⟩
      rw [hsame]
      exact hzero

end Counting

/-! ## The commit -/

/-- Only where the team's threads are opened from now on is written. -/
structure Rerouted (team_id : Uuid) (db db' : Db) : Prop where
  rest : db' = { db with teams := db'.teams }
  teams : ∀ t, t.id ≠ team_id → (t ∈ db'.teams ↔ t ∈ db.teams)
  team : ∀ t ∈ db'.teams, t.id = team_id → ∃ u ∈ db.teams, t = { u with default_backend := t.default_backend }

section Commit

variable {sha256 : String → String} {s t : Sys} {i : ℕ} {before after : List (Trans Sys Act)}
  {e : Trans Sys Act}

theorem rerouted_routed (team_id : Uuid) (backend : Backend) (db : Db) :
    Rerouted team_id db (routed team_id backend db) where
  rest := rfl
  teams t hne := by
    unfold routed
    simp only [mem_update]
    constructor
    · rintro ⟨u, hu, rfl⟩
      split at hne
      · rename_i hid
        exact absurd (beq_iff_eq.mp hid) hne
      · rename_i hid
        rw [if_neg hid]
        exact hu
    · intro ht
      exact ⟨t, ht, by rw [if_neg (by simpa using hne)]⟩
  team t ht _ := by
    unfold routed at ht
    simp only [mem_update] at ht
    obtain ⟨u, hu, rfl⟩ := ht
    refine ⟨u, hu, ?_⟩
    split
    · rfl
    · rfl

theorem rerouted_refl (team_id : Uuid) (db : Db) : Rerouted team_id db db :=
  ⟨rfl, fun _ _ => Iff.rfl, fun t ht _ => ⟨t, ht, rfl⟩⟩

/-- A commit is of a change that has counted, and writes its team's route. -/
theorem commit_spec (h : step sha256 s (.commit i) = some t) :
    ∃ x, s.changes[i]? = some x ∧ x.waits = true ∧ Rerouted x.team_id s.db t.db := by
  simp only [step, Option.bind_eq_bind, Option.bind_eq_some_iff] at h
  obtain ⟨x, hx, h⟩ := h
  split at h
  · rename_i backend changed hstage
    refine ⟨x, hx, by unfold Change.waits; rw [hstage], ?_⟩
    rw [← Option.some.inj h]
    cases changed with
    | true => exact rerouted_routed _ _ _
    | false => exact rerouted_refl _ _
  · cases h

/-- **A change of route, beside the traffic of the team.** Whatever happens in between, a
change commits only if it counted no slot of the team that is pending or leased; and if no
slot of the team has come into flight since then, by a send, a settlement or what else writes
slots, none is when it commits. Moves, open or not, play no part: the commit writes where
the team's threads are opened, and nothing else. -/
theorem change_commits_idle {db : Db} (hrun : Run (Rel (step sha256)) { moves := Moves.Sys.start db }
    (before ++ e :: after) s) (hact : e.act = .commit i) :
    ∃ x, e.pre.changes[i]? = some x ∧
      (∃ first c since, before = first ++ c :: since ∧ c.act = .count i ∧ inflight x.team_id c.pre.db = 0 ∧
        ((∀ d ∈ since, writes_slots d.act = true → Quiet x.team_id d) →
          inflight x.team_id e.pre.db = 0 ∧ inflight x.team_id e.post.db = 0)) ∧
      Rerouted x.team_id e.pre.db e.post.db := by
  obtain ⟨hbefore, hstep, -⟩ := hrun.split
  rw [hact] at hstep
  obtain ⟨x, hx, hwaits, hrerouted⟩ := commit_spec hstep
  obtain ⟨first, c, since, heq, hcact, hzero, hkept⟩ := counted_of_waits hbefore rfl hx hwaits
  refine ⟨x, hx, ⟨first, c, since, heq, hcact, hzero, fun hquiet => ?_⟩, hrerouted⟩
  have hnone := hkept hquiet
  refine ⟨hnone, ?_⟩
  unfold inflight
  rw [hrerouted.rest]
  exact hnone

end Commit

/-! ## Two changes -/

def run_of (backend : Backend) (acts : List Act) : Option (List (Trans Sys Act) × Sys) :=
  exec (step fun body => body) { moves := Moves.Sys.start (pair backend) } acts

/-- She opens a thread, an operator counts, and a move of the thread is opened. -/
def moved_acts : List Act :=
  [.create_conversation 0 0 ada ⟨none, true, []⟩ 7 10 [], .change 1 "jetstream", .count 0,
    .moves (.start 1 7 .to_jetstream), .moves (.statement 0 0 90), .update 0]

/-- She opens a thread, an operator counts, and she writes to it. -/
def sent_acts : List Act :=
  [.create_conversation 0 0 ada ⟨none, true, []⟩ 7 10 [], .change 1 "postgres", .count 0,
    .moves (.send ⟨0, 0, ada, 7, ⟨"hello", 20, none⟩, 50, 60⟩), .update 0]

theorem moved_run : (run_of .postgres moved_acts).isSome = true := by
  decide

theorem sent_run : (run_of .jetstream sent_acts).isSome = true := by
  decide

/-- The operator's transaction, about to commit. -/
def moved : List (Trans Sys Act) × Sys := (run_of .postgres moved_acts).get moved_run

def sent : List (Trans Sys Act) × Sys := (run_of .jetstream sent_acts).get sent_run

theorem moved_commits : (step (fun body => body) moved.2 (.commit 0)).isSome = true := by
  decide

theorem sent_commits : (step (fun body => body) sent.2 (.commit 0)).isSome = true := by
  decide

/-- The two commits. -/
def moved_commit : Trans Sys Act := ⟨moved.2, .commit 0, (step (fun body => body) moved.2 (.commit 0)).get moved_commits⟩

def sent_commit : Trans Sys Act := ⟨sent.2, .commit 0, (step (fun body => body) sent.2 (.commit 0)).get sent_commits⟩

theorem moved_to_commit : Run (Rel (step fun body => body)) { moves := Moves.Sys.start (pair .postgres) }
    (moved.1 ++ [moved_commit]) moved_commit.post :=
  Run.snoc (exec_get moved_run) (Option.some_get moved_commits).symm

theorem sent_to_commit : Run (Rel (step fun body => body)) { moves := Moves.Sys.start (pair .jetstream) }
    (sent.1 ++ [sent_commit]) sent_commit.post :=
  Run.snoc (exec_get sent_run) (Option.some_get sent_commits).symm

/-- The first change commits with nothing in flight, -/
theorem change_commits_idle_moved : inflight 1 moved_commit.post.db = 0 := by
  obtain ⟨x, hx, ⟨first, c, since, hsplit, -, -, hkept⟩, -⟩ := change_commits_idle moved_to_commit rfl
  have hteam : moved.2.changes[0]?.map Change.team_id = some 1 := by decide
  have hxteam : x.team_id = 1 := by
    rw [show moved.2.changes[0]? = some x from hx] at hteam
    exact Option.some.inj hteam
  have hnothing : moved.1.all (fun d => !writes_slots d.act) = true := by decide
  rw [hxteam] at hkept
  refine (hkept fun d hd hwrites => ?_).2
  have hin : d ∈ moved.1 := by
    rw [hsplit]
    exact List.mem_append_right _ (List.mem_cons_of_mem _ hd)
  have hnot := List.all_eq_true.mp hnothing d hin
  rw [hwrites] at hnot
  exact absurd hnot (by decide)

/-- and with a move of the thread open. The second commits while a message awaits publication. -/
theorem change_commits_anyway :
    (∃ tr s, Run (Rel (step fun body => body)) { moves := Moves.Sys.start (pair .postgres) } tr s ∧
      ∃ e ∈ tr, e.act = .commit 0 ∧ e.post.db.teams = [⟨1, "crew", true, .jetstream⟩] ∧
        e.pre.db.conversation_migrations.any (fun g => g.conversation_id == 7 && Migrate.is_open g) = true) ∧
    ∃ tr s, Run (Rel (step fun body => body)) { moves := Moves.Sys.start (pair .jetstream) } tr s ∧
      ∃ e ∈ tr, e.act = .commit 0 ∧ e.post.db.teams = [⟨1, "crew", true, .postgres⟩] ∧ inflight 1 e.pre.db = 1 := by
  refine ⟨⟨_, _, moved_to_commit, moved_commit, ?_, rfl, by decide, by decide⟩,
    _, _, sent_to_commit, sent_commit, ?_, rfl, by decide, by decide⟩
  · exact List.mem_append_right _ (List.mem_singleton.mpr rfl)
  · exact List.mem_append_right _ (List.mem_singleton.mpr rfl)

end CrewSync.TeamRoute
