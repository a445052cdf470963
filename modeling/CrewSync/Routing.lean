/-
`store/routing.rs`: which backend applies.

`for_team` follows the default the team's new threads are created with. A message
and its thread record a backend of their own, and the two agree until an operator
routes the team elsewhere: its threads stay where they are.

A backend is only named here. What it answers is a parameter of the operations
that ask it, and what they ask is recorded as a list of `Call`s.
-/
import CrewSync.Error
import CrewSync.Schema

set_option autoImplicit false

namespace CrewSync.Routing

open Error Schema Rows

/-- `AnyBackend`. A JetStream handle is one team's. -/
inductive AnyBackend where
  | Postgres
  | JetStream (team_id : Uuid)
  deriving DecidableEq, Repr

/-- `MessagingBackend::name`. -/
def AnyBackend.name : AnyBackend → Backend
  | .Postgres => .postgres
  | .JetStream _ => .jetstream

/-- `Backends`: `nats` when a broker is configured, and the teams a connection is
open for. `connect` is `JetStreamBackend::connect`, an answer of the broker. -/
structure Backends where
  nats : Bool
  connected : List Uuid
  connect : Uuid → BusResult Unit

/-- What is asked of a broker. -/
inductive Call where
  | publish_reference (team_id : Uuid) (recipient_key : String) (event_id : Uuid)
  | fetch_references (team_id : Uuid) (recipient_key : String) (limit : ℕ)
  | ack_reference (team_id : Uuid) (ack_subject : String)
  | reconcile (name : Backend) (message_id : Uuid)
  deriving DecidableEq, Repr

variable (b : Backends)

/-- `named`. -/
def named (name : Backend) (team_id : Uuid) : BusResult AnyBackend :=
  match name with
  | .postgres => .ok .Postgres
  | .jetstream =>
    if b.connected.contains team_id then .ok (.JetStream team_id)
    else do
      ensure (b.nats = true) (.Conflict
        ("this team's conversations are routed to JetStream, but this server was started " ++
          "without a broker (`--nats-url`). Its bodies are not lost; they are on the broker, " ++
          "and this process cannot reach it. Start the server with the broker configured, or " ++
          "route the team back to Postgres for *new* threads."))
      b.connect team_id
      pure (.JetStream team_id)

/-- `for_team`. -/
def for_team (team_id : Uuid) (db : Db) : BusResult AnyBackend := do
  let t ← fetch (one (fun t => t.id == team_id) db.teams) (.Db "no rows returned")
  named b t.default_backend team_id

/-- `WHERE t.default_backend <> 'postgres' OR EXISTS (…)`. -/
def is_routed (db : Db) (t : Team) : Bool :=
  t.default_backend != .postgres ||
    db.conversations.any fun c => c.team_id == t.id && c.backend != .postgres

/-- `routed_teams`. -/
def routed_teams (db : Db) : List Uuid := (db.teams.filter (is_routed db)).map fun t => t.id

/-! ## What they answer -/

variable {b} {db : Db} {t : Team}

/-- A handle is the team's it was asked for. -/
theorem named_jetstream {name : Backend} {team_id id : Uuid}
    (h : named b name team_id = .ok (.JetStream id)) : name = .jetstream ∧ id = team_id := by
  cases name with
  | postgres => exact absurd h (by simp [named])
  | jetstream =>
    refine ⟨rfl, ?_⟩
    simp only [named] at h
    split at h
    · exact (AnyBackend.JetStream.inj (Except.ok.inj h)).symm
    · simp only [bind_eq_ok, pure_eq_ok] at h
      obtain ⟨_, -, _, -, h⟩ := h
      exact (AnyBackend.JetStream.inj h).symm

/-- A team is on the list while one of its threads is off Postgres, wherever its
new ones go. -/
theorem mem_routed_teams (ht : t ∈ db.teams) {c : Conversation} (hc : c ∈ db.conversations)
    (hteam : c.team_id = t.id) (hback : c.backend = .jetstream) : t.id ∈ routed_teams db := by
  refine List.mem_map.mpr ⟨t, List.mem_filter.mpr ⟨ht, ?_⟩, rfl⟩
  have hany : (db.conversations.any fun c => c.team_id == t.id && c.backend != .postgres) = true :=
    List.any_eq_true.mpr ⟨c, hc, by simp [hteam, hback]⟩
  simp [is_routed, hany]

/-- Which backend a team gets is its default's alone. -/
theorem for_team_eq (hk : Keyed Team.id db.teams) (ht : t ∈ db.teams) :
    for_team b t.id db = named b t.default_backend t.id := by
  have hone : one (fun x => x.id == t.id) db.teams = some t := hk.one_iff.mpr ⟨ht, rfl⟩
  rw [for_team, hone]
  rfl

/-- A team whose default is Postgres never gets the broker. -/
theorem for_team_jetstream (hk : Keyed Team.id db.teams) (ht : t ∈ db.teams) {id : Uuid}
    (h : for_team b t.id db = .ok (.JetStream id)) : t.default_backend = .jetstream ∧ id = t.id := by
  rw [for_team_eq hk ht] at h
  exact named_jetstream h

end CrewSync.Routing
