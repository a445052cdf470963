/-
`store/admin.rs`, the commands of `admin.rs` and the API of `admin_api.rs`: teams, agents, agent
tokens and administrative credentials.

A request is let in by what its credential resolves to, once, in a statement of its own. After
that its handler knows the credential's id and team and nothing more. A command of the operator
needs no credential. Both end in the same operations, and an operation is a transaction that is
taken apart here into its statements: between any two of them anything may happen. What a
statement finds is what others have committed. It writes to rows it has locked, and waits for a
lock by not being possible yet; a row that is to be unique is locked by what it must not share.
What a transaction has written is there for others when it commits.

The team of a command is resolved before it begins, and a command may name any. `now` is when a
transaction began. Left out: what a command prints, and the order of the rows in a list.
-/
import CrewSync.Auth
import CrewSync.Error
import CrewSync.Runs

set_option autoImplicit false

namespace CrewSync.Admin

open Rows Error
open Schema (Uuid Backend SlotState AgentSession)
open Auth (trim starts_with hash_token is_control resolve_token resolve_token_live TOKEN_PREFIX)

/-- `ADMIN_TOKEN_PREFIX`. -/
def ADMIN_TOKEN_PREFIX : String := "acsa_"

/-- `MAX_ACTIVE_TOKENS_PER_AGENT`. -/
def MAX_ACTIVE_TOKENS_PER_AGENT : ℕ := 100

/-- `MAX_NAME_BYTES` and `MAX_LABEL_BYTES`. -/
def MAX_NAME_BYTES : ℕ := 64

def MAX_LABEL_BYTES : ℕ := 128

/-! ## The tables -/

/-- `teams`. -/
structure Team where
  id : Uuid
  slug : String
  name : String
  conversations_enabled : Bool
  default_backend : Backend
  attachment_bytes_limit : Option ℤ
  deriving DecidableEq, Repr

/-- `agents`. -/
structure Agent where
  id : Uuid
  team_id : Uuid
  name : String
  display_name : Option String
  disabled_at : Option ℕ
  deriving DecidableEq, Repr

/-- `api_tokens`. -/
structure ApiToken where
  id : Uuid
  agent_id : Uuid
  token_hash : String
  shown : String
  label : Option String
  issued_by_admin : Option Uuid
  created_at : ℕ
  last_used_at : Option ℕ
  revoked_at : Option ℕ
  deriving DecidableEq, Repr

/-- `admin_tokens`. -/
structure AdminToken where
  id : Uuid
  team_id : Option Uuid
  token_hash : String
  shown : String
  label : Option String
  issued_by : Option Uuid
  created_at : ℕ
  last_used_at : Option ℕ
  revoked_at : Option ℕ
  deriving DecidableEq, Repr

/-- `conversation_outbox`. -/
structure Slot where
  team_id : Uuid
  state : SlotState
  deriving DecidableEq, Repr

/-- `admin_audit.action`. -/
inductive Action where
  | team_create | team_capability | team_backend | agent_create | agent_enable | agent_disable
  | token_issue | token_revoke | admin_grant | admin_revoke
  deriving DecidableEq, Repr

/-- `admin_audit.detail`. -/
inductive Detail where
  | team (slug name : String)
  | capability (slug : String) (conversations_enabled : Bool)
  | backend (slug : String) (default_backend : Backend)
  | agent (name : String) (display_name : Option String)
  | agent_name (name : String)
  | issued (agent : String) (label : Option String) (shown : String)
  | token_revoked (agent shown : String) (sessions_revoked : List String)
  | granted (scope : String) (label : Option String) (shown : String)
  | credential (shown : String)
  deriving DecidableEq, Repr

/-- `Actor`. -/
inductive Actor where
  | Cli
  | Admin (id : Uuid)
  deriving DecidableEq, Repr

/-- `Actor::columns`. -/
def Actor.columns : Actor → String × Option Uuid
  | .Cli => ("cli", none)
  | .Admin id => ("http", some id)

/-- `admin_audit`. -/
structure AuditEntry where
  actor_source : String
  actor_admin_id : Option Uuid
  action : Action
  team_id : Option Uuid
  subject_id : Option Uuid
  detail : Detail
  deriving DecidableEq, Repr

/-- The tables. -/
structure Db where
  teams : List Team
  agents : List Agent
  api_tokens : List ApiToken
  admin_tokens : List AdminToken
  agent_sessions : List AgentSession
  conversation_outbox : List Slot
  admin_audit : List AuditEntry
  deriving DecidableEq, Repr

/-! ## What is checked -/

/-- `token_prefix`. -/
def shown_of (raw : String) : String := String.ofList (raw.toList.take 12)

/-- `check_name`. -/
def check_name (lower : String → String) (field raw : String) : BusResult String := do
  let value := lower (trim raw)
  ensure (value ≠ "") (.Invalid s!"{field} cannot be empty")
  ensure (value.utf8ByteSize ≤ MAX_NAME_BYTES)
    (.Invalid s!"{field} is {value.utf8ByteSize} bytes; the limit is {MAX_NAME_BYTES}")
  ensure (value.toList.all fun c => c.isAlphanum || c == '-' || c == '_' || c == '.')
    (.Invalid s!"{field} may only contain ASCII letters, digits, '-', '_' and '.'")
  pure value

/-- `check_display`. -/
def check_display (field : String) (value : Option String) : BusResult (Option String) :=
  match value.map trim with
  | none | some "" => .ok none
  | some value =>
    if MAX_LABEL_BYTES < value.utf8ByteSize then
      .error (.Invalid s!"{field} is {value.utf8ByteSize} bytes; the limit is {MAX_LABEL_BYTES}")
    else if value.toList.any is_control then
      .error (.Invalid s!"{field} must not contain control characters")
    else .ok (some value)

/-- `check_label`. -/
def check_label (label : Option String) : BusResult (Option String) := check_display "label" label

/-- The backend of this name. -/
def parse_backend : String → Option Backend
  | "postgres" => some .postgres
  | "jetstream" => some .jetstream
  | _ => none

/-- The slots of the team that are still to be published. -/
def in_flight (team_id : Uuid) (db : Db) : ℕ :=
  db.conversation_outbox.countP fun o => o.team_id == team_id && o.state != .failed

/-- The tokens of the agent that are not revoked. -/
def active_tokens (agent_id : Uuid) (tokens : List ApiToken) : ℕ :=
  tokens.countP fun t => t.agent_id == agent_id && t.revoked_at.isNone

/-- `($2::uuid IS NULL OR team_id = $2)`. -/
def in_scope (scope : Option Uuid) (team_id : Option Uuid) : Bool := scope.isNone || team_id == scope

/-- The agent a token is of, where that is in scope. -/
def owner_in (scope : Option Uuid) (t : ApiToken) (db : Db) : Option Agent :=
  one (fun a => a.id == t.agent_id && in_scope scope (some a.team_id)) db.agents

/-! ## What is written -/

/-- A write, with what its `WHERE` clause asks. -/
inductive Write where
  | insert_team (id : Uuid) (slug name : String)
  | set_conversations (id : Uuid) (enabled : Bool)
  | set_default_backend (id : Uuid) (backend : Backend)
  | set_quota (id : Uuid) (bytes : Option ℤ)
  | insert_agent (id team_id : Uuid) (name : String) (display_name : Option String)
  | enable_agent (id : Uuid) (display_name : Option String)
  | disable_agent (now : ℕ) (id : Uuid)
  | insert_token (t : ApiToken)
  | revoke_token (now : ℕ) (id : Uuid)
  | revoke_sessions (now : ℕ) (parent_token : Uuid) (ids : List Uuid)
  | insert_admin (c : AdminToken)
  | revoke_admin (now : ℕ) (id : Uuid)
  | audit (e : AuditEntry)
  deriving DecidableEq, Repr

/-- What it does. -/
def Write.apply (db : Db) : Write → Db
  | .insert_team id slug name => { db with teams := insert_into ⟨id, slug, name, false, .postgres, none⟩ db.teams }
  | .set_conversations id enabled => { db with
      teams := update (fun t => t.id == id) (fun t => { t with conversations_enabled := enabled }) db.teams }
  | .set_default_backend id backend => { db with
      teams := update (fun t => t.id == id) (fun t => { t with default_backend := backend }) db.teams }
  | .set_quota id bytes => { db with
      teams := update (fun t => t.id == id) (fun t => { t with attachment_bytes_limit := bytes }) db.teams }
  | .insert_agent id team_id name display_name => { db with
      agents := insert_into ⟨id, team_id, name, display_name, none⟩ db.agents }
  | .enable_agent id display_name => { db with
      agents := update (fun a => a.id == id)
        (fun a => { a with display_name := display_name.or a.display_name, disabled_at := none }) db.agents }
  | .disable_agent now id => { db with
      agents := update (fun a => a.id == id && a.disabled_at.isNone)
        (fun a => { a with disabled_at := some now }) db.agents }
  | .insert_token t => { db with api_tokens := insert_into t db.api_tokens }
  | .revoke_token now id => { db with
      api_tokens := update (fun t => t.id == id && t.revoked_at.isNone)
        (fun t => { t with revoked_at := some now }) db.api_tokens }
  | .revoke_sessions now parent_token ids => { db with
      agent_sessions := update (fun s => s.parent_token == parent_token && ids.contains s.id)
        (fun s => { s with revoked_at := some now }) db.agent_sessions }
  | .insert_admin c => { db with admin_tokens := insert_into c db.admin_tokens }
  | .revoke_admin now id => { db with
      admin_tokens := update (fun c => c.id == id && c.revoked_at.isNone)
        (fun c => { c with revoked_at := some now }) db.admin_tokens }
  | .audit e => { db with admin_audit := insert_into e db.admin_audit }

/-- The tables, as the rest of the server has them. -/
def Db.bus (db : Db) : Schema.Db where
  teams := db.teams.map fun t => ⟨t.id, t.slug, t.conversations_enabled, t.default_backend⟩
  agents := db.agents.map fun a => ⟨a.id, a.team_id, a.name, a.disabled_at⟩
  api_tokens := db.api_tokens.map fun t => ⟨t.id, t.agent_id, t.token_hash, t.revoked_at, t.last_used_at⟩
  agent_sessions := db.agent_sessions

/-- **What is revoked lets nobody in**: no request is read off a token once it is revoked, and
none is an agent's once it is disabled. -/
theorem shut_out {sha256 : String → String} {now then_ : ℕ} {raw : String} {id : Uuid} {db : Db}
    {ctx : Schema.AuthCtx} :
    (resolve_token sha256 then_ raw (Write.apply db (.revoke_token now id)).bus = .ok ctx → ctx.token_id ≠ some id) ∧
    (resolve_token sha256 then_ raw (Write.apply db (.disable_agent now id)).bus = .ok ctx → ctx.agent_id ≠ id) := by
  refine ⟨fun h hid => ?_, fun h hid => ?_⟩
  · obtain ⟨t, ht, htid, hlive⟩ := (resolve_token_live sha256 h).2 _ hid
    obtain ⟨x, hx, rfl⟩ := List.mem_map.mp ht
    obtain ⟨y, -, rfl⟩ := mem_update.mp hx
    by_cases hit : (y.id == id && y.revoked_at.isNone) = true
    · rw [if_pos hit] at hlive
      cases hlive
    · rw [if_neg hit] at hlive htid
      exact hit (by simp [show y.id = id from htid, show y.revoked_at = none from hlive])
  · obtain ⟨a, ha, haid, hlive⟩ := (resolve_token_live sha256 h).1
    obtain ⟨x, hx, rfl⟩ := List.mem_map.mp ha
    obtain ⟨y, -, rfl⟩ := mem_update.mp hx
    by_cases hit : (y.id == id && y.disabled_at.isNone) = true
    · rw [if_pos hit] at hlive
      cases hlive
    · rw [if_neg hit] at hlive haid
      exact hit (by simp [show y.id = id from haid.trans hid, show y.disabled_at = none from hlive])

/-- What a transaction locks: a row, or what a row must not share with another. -/
inductive RowKey where
  | team (id : Uuid)
  | slug (slug : String)
  | agent (id : Uuid)
  | agent_name (team_id : Uuid) (name : String)
  | token (id : Uuid)
  | token_hash (hash : String)
  | admin (id : Uuid)
  | admin_hash (hash : String)
  deriving DecidableEq, Repr

/-! ## Requests and answers -/

/-- `AdminCtx`. -/
structure AdminCtx where
  id : Uuid
  team_id : Option Uuid
  team_slug : Option String
  deriving DecidableEq, Repr

/-- `AdminCtx::is_global`. -/
def AdminCtx.is_global (ctx : AdminCtx) : Bool := ctx.team_id.isNone

/-- `ApiError`. -/
inductive ApiError where
  | Unauthorized (msg : String)
  | Forbidden (msg : String)
  | NotFound (msg : String)
  | BadRequest (msg : String)
  | Conflict (msg : String)
  | Throttled (secs : ℕ)
  | Internal
  deriving DecidableEq, Repr

/-- `From<BusError>`. -/
def ApiError.of : BusError → ApiError
  | .NotFound m => .NotFound m
  | .Invalid m => .BadRequest m
  | .Conflict m => .Conflict m
  | .Unauthenticated m => .Unauthorized m
  | .Forbidden m => .Forbidden m
  | .Db _ => .Internal

/-- The routes of `/admin`. -/
inductive Request where
  | whoami
  | list_teams
  | create_team (slug : String) (name : Option String)
  | list_agents (team : String)
  | create_agent (team name : String) (display_name : Option String)
  | list_tokens (team : String)
  | issue_token (team agent : String) (label : Option String)
  | revoke_token (team : String) (id : Uuid)
  | list_credentials
  | grant_credential (team label : Option String)
  | revoke_credential (id : Uuid)
  deriving DecidableEq, Repr

/-- The operations of the store that write. -/
inductive Op where
  | create_team (slug : String) (name : Option String)
  | set_conversations (team_id : Uuid) (enabled : Bool)
  | set_default_backend (team_id : Uuid) (backend : String)
  | team_quota (team_id : Uuid) (bytes : Option ℤ)
  | create_agent (team_id : Uuid) (name : String) (display_name : Option String)
  | disable_agent (team_id : Uuid) (name : String)
  | issue_token (team_id : Uuid) (agent : String) (label : Option String)
  | revoke_token (team_id : Option Uuid) (id : Uuid)
  | grant_admin (team_id : Option Uuid) (label : Option String)
  | revoke_admin (scope : Option Uuid) (id : Uuid)
  deriving DecidableEq, Repr

/-- What is read to answer. -/
inductive Query where
  | list_teams
  | team_by_id (id : Uuid)
  | team_by_slug (slug : String)
  | list_agents (team_id : Uuid)
  | agent_by_id (team_id id : Uuid)
  | list_tokens (team_id : Uuid)
  | list_admins (team_id : Option Uuid)
  deriving DecidableEq, Repr

/-- `TeamRow`. -/
structure TeamRow where
  id : Uuid
  slug : String
  name : String
  agents : ℕ
  deriving DecidableEq, Repr

/-- `AgentRow`. -/
structure AgentRow where
  id : Uuid
  name : String
  display_name : Option String
  disabled : Bool
  active_tokens : ℕ
  deriving DecidableEq, Repr

/-- `TokenRow`. -/
structure TokenRow where
  id : Uuid
  agent : String
  shown : String
  label : Option String
  created_at : ℕ
  last_used_at : Option ℕ
  revoked : Bool
  deriving DecidableEq, Repr

/-- `AdminRow`. -/
structure AdminRow where
  id : Uuid
  team : Option String
  shown : String
  label : Option String
  created_at : ℕ
  last_used_at : Option ℕ
  revoked : Bool
  deriving DecidableEq, Repr

/-- What a request or a command comes to. -/
inductive Reply where
  | whoami (id : Uuid) (scope : String) (team : Option String)
  | teams (rows : List TeamRow)
  | team (row : TeamRow)
  | agents (rows : List AgentRow)
  | agent (row : AgentRow)
  | tokens (rows : List TokenRow)
  /-- `IssuedToken`. -/
  | issued (id : Uuid) (token shown agent team : String) (label : Option String)
  | credentials (rows : List AdminRow)
  /-- `IssuedAdmin`. -/
  | granted (id : Uuid) (token shown : String) (team label : Option String)
  | done
  deriving DecidableEq, Repr

/-- The row of a team. -/
def team_row (db : Db) (t : Team) : TeamRow :=
  ⟨t.id, t.slug, t.name, db.agents.countP fun a => a.team_id == t.id⟩

/-- The row of an agent. -/
def agent_row (db : Db) (a : Agent) : AgentRow :=
  ⟨a.id, a.name, a.display_name, a.disabled_at.isSome, active_tokens a.id db.api_tokens⟩

/-- The row of a token of the team, if it is one. -/
def token_row (team_id : Uuid) (db : Db) (t : ApiToken) : Option TokenRow :=
  (one (fun a => a.id == t.agent_id && a.team_id == team_id) db.agents).map fun a =>
    ⟨t.id, a.name, t.shown, t.label, t.created_at, t.last_used_at, t.revoked_at.isSome⟩

/-- The slug of a credential's team. -/
def slug_of (team_id : Option Uuid) (db : Db) : Option String :=
  (one (fun t => some t.id == team_id) db.teams).map Team.slug

/-- The row of a credential. -/
def admin_row (db : Db) (c : AdminToken) : AdminRow :=
  ⟨c.id, slug_of c.team_id db, c.shown, c.label, c.created_at, c.last_used_at, c.revoked_at.isSome⟩

/-- `team_by_id`. -/
def team_by_id (id : Uuid) (db : Db) : BusResult TeamRow := do
  let t ← fetch (one (fun t => t.id == id) db.teams) (.NotFound "no such team")
  pure (team_row db t)

/-- `team_id_by_slug`. -/
def team_id_by_slug (lower : String → String) (slug : String) (db : Db) : BusResult Uuid := do
  let slug := lower (trim slug)
  let t ← fetch (one (fun t => t.slug == slug) db.teams) (.NotFound s!"no team with slug '{slug}'")
  pure t.id

/-- `list_agents`. -/
def list_agents (team_id : Uuid) (db : Db) : List AgentRow :=
  (db.agents.filter fun a => a.team_id == team_id).map (agent_row db)

/-- What is answered. -/
def answer (lower : String → String) (db : Db) : Query → BusResult Reply
  | .list_teams => .ok (.teams (db.teams.map (team_row db)))
  | .team_by_id id => (team_by_id id db).map fun row => .teams [row]
  | .team_by_slug slug => do
    let id ← team_id_by_slug lower slug db
    (team_by_id id db).map .team
  | .list_agents team_id => .ok (.agents (list_agents team_id db))
  | .agent_by_id team_id id => do
    let row ← fetch ((list_agents team_id db).find? fun a => a.id == id)
      (.NotFound "agent vanished after creation")
    pure (.agent row)
  | .list_tokens team_id => .ok (.tokens (db.api_tokens.filterMap (token_row team_id db)))
  | .list_admins team_id => .ok (.credentials
      ((db.admin_tokens.filter fun c => in_scope team_id c.team_id).map (admin_row db)))

/-! ## Transactions -/

/-- What a commit is followed by: an answer, or a read for one. -/
inductive Then where
  | reply (r : Reply)
  | reread (q : Query)
  deriving DecidableEq, Repr

/-- The next statement of a transaction. -/
inductive Stage where
  | begun (op : Op)
  | route (team_id : Uuid) (backend : Backend)
  | insert_agent (team_id : Uuid) (name : String) (display_name : Option String)
  | enable_agent (team_id : Uuid) (a : Agent) (display_name : Option String)
  | find_agent (team_id : Uuid) (name : String)
  | count_tokens (a : Agent) (team_slug agent : String) (label : Option String)
  | insert_token (a : Agent) (team_slug agent : String) (label : Option String)
  | update_token (team_id : Option Uuid) (id : Uuid)
  | sweep (owner : Agent) (t : ApiToken)
  | find_token (team_id : Option Uuid) (id : Uuid)
  | insert_admin (team_id : Option Uuid) (team_slug label : Option String)
  | find_admin (scope : Option Uuid) (id : Uuid)
  | audit (e : AuditEntry)
  | commit
  deriving DecidableEq, Repr

/-- An open transaction: what it has written and locked, and how it goes on. -/
structure Tx where
  actor : Actor
  now : ℕ
  writes : List Write
  locks : List RowKey
  stage : Stage
  next : Then
  deriving DecidableEq, Repr

/-- Before its first statement. -/
def Tx.open (actor : Actor) (now : ℕ) (op : Op) : Tx := ⟨actor, now, [], [], .begun op, .reply .done⟩

/-- It goes on. -/
def Tx.to (tx : Tx) (stage : Stage) : Tx := { tx with stage := stage }

/-- The row of the audit. -/
def Tx.entry (tx : Tx) (action : Action) (team_id : Option Uuid) (subject_id : Uuid) (detail : Detail) :
    AuditEntry :=
  ⟨tx.actor.columns.1, tx.actor.columns.2, action, team_id, some subject_id, detail⟩

/-- It writes. -/
def Tx.add (tx : Tx) (w : Write) : Tx := { tx with writes := tx.writes ++ [w] }

/-- It writes, and is to write the audit row. -/
def Tx.write (tx : Tx) (w : Write) (e : AuditEntry) : Tx := (tx.add w).to (.audit e)

/-- A lock that is free is taken; for another one the statement waits. -/
def Tx.lock (free : RowKey → Bool) (k : RowKey) (tx : Tx) : Option (BusResult Tx) :=
  if free k then some (.ok { tx with locks := tx.locks ++ [k] }) else none

section Statements

variable (lower sha256 : String → String)

/-- What a statement has at hand: the locks no other transaction has, a new id and 32 random
bytes. -/
structure World where
  free : RowKey → Bool
  id : Uuid
  entropy : String

/-- The first statement of an operation, and what is checked before it. -/
def first (w : World) (db : Db) (tx : Tx) : Op → Option (BusResult Tx)
  | .create_team slug name =>
    match check_name lower "team slug" slug, check_display "team name" name with
    | .error e, _ | _, .error e => some (.error e)
    | .ok slug, .ok name =>
      let tx := { tx with next := .reread (.team_by_slug slug) }
      if db.teams.any fun t => t.slug == slug then some (.ok (tx.to .commit))
      else (tx.write (.insert_team w.id slug (name.getD slug))
        (tx.entry .team_create (some w.id) w.id (.team slug (name.getD slug)))).lock w.free (.slug slug)
  | .set_conversations team_id enabled =>
    match one (fun t => t.id == team_id && t.conversations_enabled != enabled) db.teams with
    | some t => (tx.write (.set_conversations team_id enabled)
        (tx.entry .team_capability (some team_id) team_id (.capability t.slug enabled))).lock w.free (.team team_id)
    | none => some (.ok (tx.to .commit))
  | .set_default_backend team_id backend =>
    match parse_backend backend with
    | none => some (.error (.Invalid "backend must be 'postgres' or 'jetstream'"))
    | some backend =>
      let inflight := in_flight team_id db
      if 0 < inflight then
        some (.error (.Conflict (s!"{inflight} message(s) of this team are still awaiting publication. Let them " ++
          "settle before changing the route; `team usage` shows when the queue is empty.")))
      else some (.ok (tx.to (.route team_id backend)))
  | .team_quota team_id bytes =>
    if bytes.any fun b => decide (b ≤ 0) then
      some (.error (.Invalid "a quota must be positive; omit --bytes to clear it"))
    else ((tx.add (.set_quota team_id bytes)).to .commit).lock w.free (.team team_id)
  | .create_agent team_id name display_name =>
    match check_name lower "agent name" name, check_display "display name" display_name with
    | .error e, _ | _, .error e => some (.error e)
    | .ok name, .ok display_name =>
      match one (fun a => a.team_id == team_id && a.name == name) db.agents with
      | some a => (tx.to (.enable_agent team_id a display_name)).lock w.free (.agent a.id)
      | none => some (.ok (tx.to (.insert_agent team_id name display_name)))
  | .disable_agent team_id name =>
    let name := lower (trim name)
    match one (fun a => a.team_id == team_id && a.name == name && a.disabled_at.isNone) db.agents with
    | some a => (tx.write (.disable_agent tx.now a.id)
        (tx.entry .agent_disable (some team_id) a.id (.agent_name name))).lock w.free (.agent a.id)
    | none => some (.ok (tx.to (.find_agent team_id name)))
  | .issue_token team_id agent label =>
    let agent := lower (trim agent)
    match check_label label with
    | .error e => some (.error e)
    | .ok label =>
      match one (fun a => a.team_id == team_id && a.name == agent) db.agents, slug_of (some team_id) db with
      | some a, some team_slug =>
        if w.free (.agent a.id) then
          if a.disabled_at.isSome then
            some (.error (.Conflict
              s!"agent '{agent}' is disabled; re-create it to enable it before issuing a token"))
          else (tx.to (.count_tokens a team_slug agent label)).lock w.free (.agent a.id)
        else none
      | _, _ => some (.error (.NotFound s!"no agent '{agent}' in this team — create it first"))
  | .revoke_token team_id id =>
    match (one (fun t => t.id == id) db.api_tokens).bind fun t => owner_in team_id t db with
    | some a => (tx.to (.update_token team_id id)).lock w.free (.agent a.id)
    | none => some (.ok (tx.to (.update_token team_id id)))
  | .grant_admin team_id label =>
    match check_label label with
    | .error e => some (.error e)
    | .ok label =>
      match team_id, slug_of team_id db with
      | some _, none => some (.error (.NotFound "no such team"))
      | some _, some slug => some (.ok (tx.to (.insert_admin team_id (some slug) label)))
      | none, _ => some (.ok (tx.to (.insert_admin none none label)))
  | .revoke_admin scope id =>
    match one (fun c => c.id == id && c.revoked_at.isNone && in_scope scope c.team_id) db.admin_tokens with
    | some c => (tx.write (.revoke_admin tx.now id)
        (tx.entry .admin_revoke c.team_id id (.credential c.shown))).lock w.free (.admin id)
    | none => some (.ok (tx.to (.find_admin scope id)))

/-- The next statement of a transaction that does not commit. -/
def statement (w : World) (db : Db) (tx : Tx) : Option (BusResult Tx) :=
  match tx.stage with
  | .begun op => first lower w db tx op
  | .route team_id backend =>
    match one (fun t => t.id == team_id && t.default_backend != backend) db.teams with
    | some t => (tx.write (.set_default_backend team_id backend)
        (tx.entry .team_backend (some team_id) team_id (.backend t.slug backend))).lock w.free (.team team_id)
    | none => some (.ok (tx.to .commit))
  | .insert_agent team_id name display_name =>
    if !db.teams.any fun t => t.id == team_id then some (.error (.Db "agents_team_id_fkey"))
    else if db.agents.any fun a => a.team_id == team_id && a.name == name then
      some (.error (.Db "agents_team_id_name_key"))
    else ({ tx with next := .reread (.agent_by_id team_id w.id) }.write
      (.insert_agent w.id team_id name display_name)
      (tx.entry .agent_create (some team_id) w.id (.agent name display_name))).lock w.free (.agent_name team_id name)
  | .enable_agent team_id a display_name =>
    let tx := { tx with next := .reread (.agent_by_id team_id a.id) }
    let written := tx.write (.enable_agent a.id display_name)
      (tx.entry .agent_enable (some team_id) a.id (.agent_name a.name))
    some (.ok (if a.disabled_at.isSome then written else written.to .commit))
  | .find_agent team_id name =>
    if db.agents.any fun a => a.team_id == team_id && a.name == name then some (.ok (tx.to .commit))
    else some (.error (.NotFound s!"no agent '{name}' in this team"))
  | .count_tokens a team_slug agent label =>
    let active := active_tokens a.id db.api_tokens
    if MAX_ACTIVE_TOKENS_PER_AGENT ≤ active then
      some (.error (.Conflict (s!"agent '{agent}' already has {active} active tokens; the limit is " ++
        s!"{MAX_ACTIVE_TOKENS_PER_AGENT}. Revoke the ones no longer in use first")))
    else some (.ok (tx.to (.insert_token a team_slug agent label)))
  | .insert_token a team_slug agent label =>
    let raw := TOKEN_PREFIX ++ w.entropy
    let hash := hash_token sha256 raw
    if db.api_tokens.any fun t => t.token_hash == hash then some (.error (.Db "api_tokens_token_hash_key"))
    else ({ tx with next := .reply (.issued w.id raw (shown_of raw) agent team_slug label) }.write
      (.insert_token ⟨w.id, a.id, hash, shown_of raw, label, tx.actor.columns.2, tx.now, none, none⟩)
      (tx.entry .token_issue (some a.team_id) w.id (.issued agent label (shown_of raw)))).lock w.free (.token_hash hash)
  | .update_token team_id id =>
    match one (fun t => t.id == id && t.revoked_at.isNone) db.api_tokens with
    | some t =>
      match owner_in team_id t db with
      | some a => ((tx.add (.revoke_token tx.now id)).to (.sweep a t)).lock w.free (.token id)
      | none => some (.ok (tx.to (.find_token team_id id)))
    | none => some (.ok (tx.to (.find_token team_id id)))
  | .sweep a t =>
    let swept := db.agent_sessions.filter fun s => s.parent_token == t.id && s.revoked_at.isNone
    some (.ok (tx.write (.revoke_sessions tx.now t.id (swept.map AgentSession.id))
      (tx.entry .token_revoke (some a.team_id) t.id
        (.token_revoked a.name t.shown (swept.map AgentSession.label)))))
  | .find_token team_id id =>
    if db.api_tokens.any fun t => t.id == id && (owner_in team_id t db).isSome then some (.ok (tx.to .commit))
    else some (.error (.NotFound s!"no token with id {id}"))
  | .insert_admin team_id team_slug label =>
    let raw := ADMIN_TOKEN_PREFIX ++ w.entropy
    let hash := hash_token sha256 raw
    if db.admin_tokens.any fun c => c.token_hash == hash then some (.error (.Db "admin_tokens_token_hash_key"))
    else ({ tx with next := .reply (.granted w.id raw (shown_of raw) team_slug label) }.write
      (.insert_admin ⟨w.id, team_id, hash, shown_of raw, label, tx.actor.columns.2, tx.now, none, none⟩)
      (tx.entry .admin_grant team_id w.id
        (.granted (if team_id.isSome then "team" else "global") label (shown_of raw)))).lock w.free (.admin_hash hash)
  | .find_admin scope id =>
    if db.admin_tokens.any fun c => c.id == id && in_scope scope c.team_id then some (.ok (tx.to .commit))
    else some (.error (.NotFound s!"no administrative credential with id {id}"))
  | .audit e => some (.ok ((tx.add (.audit e)).to .commit))
  | .commit => none

/-- What the commit makes of the tables. -/
def Tx.committed (tx : Tx) (db : Db) : Db := tx.writes.foldl Write.apply db

/-! ## Handlers -/

/-- `resolve_admin`, without its bookkeeping. -/
def resolve_admin (raw : String) (db : Db) : Option AdminCtx :=
  let raw := trim raw
  if !starts_with ADMIN_TOKEN_PREFIX raw then none
  else
    (one (fun c => c.token_hash == hash_token sha256 raw && c.revoked_at.isNone) db.admin_tokens).map fun c =>
      ⟨c.id, c.team_id, slug_of c.team_id db⟩

/-- `require_admin`, from the header on. `throttled` is what the rate limiter says. -/
def require_admin (header : Option String) (throttled : Option ℕ) (db : Db) : Except ApiError AdminCtx :=
  match header with
  | none => .error (.Unauthorized ("missing bearer credential; /admin needs an administrative credential " ++
      "(acsa_…), minted with `ai-crew-sync admin bootstrap` or `admin grant`"))
  | some raw =>
    if starts_with TOKEN_PREFIX raw then
      .error (.Unauthorized ("this is an agent token; agent tokens cannot administer the bus. /admin needs " ++
        "an administrative credential (acsa_…), minted with `ai-crew-sync admin bootstrap` or `admin grant`"))
    else if !starts_with ADMIN_TOKEN_PREFIX raw then
      .error (.Unauthorized "invalid or revoked administrative credential")
    else
      match throttled with
      | some secs => .error (.Throttled secs)
      | none =>
        match resolve_admin sha256 raw db with
        | some ctx => .ok ctx
        | none => .error (.Unauthorized "invalid or revoked administrative credential")

/-- `require_global`. -/
def require_global (ctx : AdminCtx) (what : String) : Except ApiError Unit :=
  if ctx.is_global then .ok ()
  else .error (.Forbidden (what ++ " needs a global administrative credential; this one administers team '" ++
    ctx.team_slug.getD "" ++ "' only"))

/-- `scoped_team`. -/
def scoped_team (ctx : AdminCtx) (slug : String) (db : Db) : Except ApiError Uuid :=
  match ctx.team_id, ctx.team_slug with
  | some tid, some own =>
    if own = lower (trim slug) then .ok tid
    else .error (.Forbidden s!"this credential administers team '{own}' only")
  | _, _ =>
    match team_id_by_slug lower slug db with
    | .ok id => .ok id
    | .error e => .error (.of e)

/-- What a handler goes on with. -/
inductive Handling where
  | reading (q : Query)
  | writing (op : Op)
  | answered (r : Reply)
  deriving DecidableEq, Repr

/-- The handlers, up to the call of the store. -/
def handle (ctx : AdminCtx) (db : Db) : Request → Except ApiError Handling
  | .whoami => .ok (.answered (.whoami ctx.id (if ctx.is_global then "global" else "team") ctx.team_slug))
  | .list_teams =>
    match ctx.team_id with
    | none => .ok (.reading .list_teams)
    | some tid => .ok (.reading (.team_by_id tid))
  | .create_team slug name => do
    require_global ctx "creating a team"
    pure (.writing (.create_team slug name))
  | .list_agents team => do
    let tid ← scoped_team lower ctx team db
    pure (.reading (.list_agents tid))
  | .create_agent team name display_name => do
    let tid ← scoped_team lower ctx team db
    pure (.writing (.create_agent tid name display_name))
  | .list_tokens team => do
    let tid ← scoped_team lower ctx team db
    pure (.reading (.list_tokens tid))
  | .issue_token team agent label => do
    let tid ← scoped_team lower ctx team db
    pure (.writing (.issue_token tid agent label))
  | .revoke_token team id => do
    let tid ← scoped_team lower ctx team db
    pure (.writing (.revoke_token (some tid) id))
  | .list_credentials => .ok (.reading (.list_admins ctx.team_id))
  | .grant_credential team label => do
    require_global ctx "granting an administrative credential"
    match team.map trim with
    | none => pure (.writing (.grant_admin none label))
    | some "" => .error (.BadRequest "team is empty; pass a team slug, or omit it for a global credential")
    | some slug =>
      match team_id_by_slug lower slug db with
      | .ok tid => pure (.writing (.grant_admin (some tid) label))
      | .error e => .error (.of e)
  | .revoke_credential id => .ok (.writing (.revoke_admin ctx.team_id id))

end Statements

/-! ## The system -/

/-- How far a request or a command is. -/
inductive Phase where
  /-- Its credential was accepted. -/
  | asked (req : Request)
  | reading (q : Query)
  | working (tx : Tx)
  | ended (r : Except ApiError Reply)
  /-- A command is over. -/
  | printed (r : BusResult Reply)

/-- A request with what its credential resolved to, or a command. -/
structure Proc where
  ctx : Option AdminCtx
  phase : Phase

/-- The state: the tables, every request and command, and the sequence ids are drawn from. -/
structure Sys where
  db : Db
  procs : List Proc
  next_id : ℕ

/-- What can happen next. -/
inductive Act where
  /-- `require_admin`. The credential's `last_used_at` may not be written. -/
  | request (now : ℕ) (header : Option String) (throttled : Option ℕ) (noted : Bool) (req : Request)
  | command (now : ℕ) (op : Op)
  /-- Its next statement, other than a commit. -/
  | run (i now : ℕ) (entropy : String)
  | commit (i : ℕ)
  /-- A statement fails, or the connection is gone. -/
  | fail (i : ℕ)
  /-- The rest of the server: its windows and slots, and when agent tokens were used. -/
  | bus (windows : List AgentSession) (slots : List Slot) (used : Uuid → Option ℕ)

/-- The locks of a transaction. -/
def Phase.locks : Phase → List RowKey
  | .working tx => tx.locks
  | _ => []

/-- The locks of the `j`-th. -/
def Sys.locks (s : Sys) (j : ℕ) : List RowKey := (s.procs[j]?.map fun p => p.phase.locks).getD []

/-- Nobody else has the lock. -/
def Sys.free (s : Sys) (i : ℕ) (k : RowKey) : Bool :=
  (List.range s.procs.length).all fun j => j == i || !(s.locks j).contains k

/-- The `i`-th goes on. -/
def Sys.goes (s : Sys) (i : ℕ) (p : Proc) (phase : Phase) : Sys :=
  { s with procs := s.procs.set i { p with phase := phase } }

/-- What it comes to. -/
def Proc.result (p : Proc) (r : BusResult Reply) : Phase :=
  match p.ctx with
  | some _ => .ended (r.mapError ApiError.of)
  | none => .printed r

/-- `last_used_at` of a credential. -/
def touch (now : ℕ) (id : Uuid) (db : Db) : Db :=
  { db with
    admin_tokens := update (fun c => c.id == id) (fun c => { c with last_used_at := some now }) db.admin_tokens }

/-- The tables after the rest of the server has done something. -/
def Db.elsewhere (db : Db) (windows : List AgentSession) (slots : List Slot) (used : Uuid → Option ℕ) : Db :=
  { db with
    agent_sessions := windows
    conversation_outbox := slots
    api_tokens := update (fun _ => true) (fun t => { t with last_used_at := used t.id }) db.api_tokens }

/-- What follows a handler. -/
def handled (actor : Actor) (now : ℕ) : Except ApiError Handling → Phase
  | .error e => .ended (.error e)
  | .ok (.answered r) => .ended (.ok r)
  | .ok (.reading q) => .reading q
  | .ok (.writing op) => .working (Tx.open actor now op)

/-- What follows a commit. -/
def Proc.after (p : Proc) : Then → Phase
  | .reply r => p.result (.ok r)
  | .reread q => .reading q

/-- One step. -/
def step (lower sha256 : String → String) (s : Sys) : Act → Option Sys
  | .request now header throttled noted req =>
    match require_admin sha256 header throttled s.db with
    | .ok ctx => some { s with
        db := if noted then touch now ctx.id s.db else s.db
        procs := s.procs ++ [⟨some ctx, .asked req⟩] }
    | .error e => some { s with procs := s.procs ++ [⟨none, .ended (.error e)⟩] }
  | .command now op => some { s with procs := s.procs ++ [⟨none, .working (Tx.open .Cli now op)⟩] }
  | .run i now entropy =>
    match s.procs[i]? with
    | none => none
    | some p =>
      match p.phase, p.ctx with
      | .asked req, some ctx =>
        some (s.goes i p (handled (.Admin ctx.id) now (handle lower ctx s.db req)))
      | .reading q, _ => some (s.goes i p (p.result (answer lower s.db q)))
      | .working tx, _ =>
        match statement lower sha256 ⟨s.free i, s.next_id, entropy⟩ s.db tx with
        | some (.ok tx') => some { s.goes i p (.working tx') with next_id := s.next_id + 1 }
        | some (.error e) => some (s.goes i p (p.result (.error e)))
        | none => none
      | _, _ => none
  | .commit i =>
    match s.procs[i]? with
    | none => none
    | some p =>
      match p.phase with
      | .working tx =>
        if tx.stage = .commit then some { s.goes i p (p.after tx.next) with db := tx.committed s.db } else none
      | _ => none
  | .fail i =>
    match s.procs[i]? with
    | none => none
    | some p =>
      match p.phase with
      | .ended _ | .printed _ => none
      | _ => some (s.goes i p (p.result (.error (.Db "connection closed"))))
  | .bus windows slots used => some { s with db := s.db.elsewhere windows slots used }

/-- Before the first command. -/
def Sys.start : Sys := ⟨⟨[], [], [], [], [], [], []⟩, [], 0⟩

/-- Who acts. -/
def Proc.actor (p : Proc) : Actor :=
  match p.ctx with
  | some ctx => .Admin ctx.id
  | none => .Cli

/-! ## What a step does -/

/-- What a step does to the tables and to the transactions. -/
inductive Did (lower sha256 : String → String) (s : Sys) : Act → Sys → Prop
  /-- A request is let in. -/
  | admitted {now : ℕ} {header : Option String} {throttled : Option ℕ} {noted : Bool} {req : Request}
      (ctx : AdminCtx) (hctx : require_admin sha256 header throttled s.db = .ok ctx) :
      Did lower sha256 s (.request now header throttled noted req) { s with
        db := if noted then touch now ctx.id s.db else s.db
        procs := s.procs ++ [⟨some ctx, .asked req⟩] }
  | turned_away {now : ℕ} {header : Option String} {throttled : Option ℕ} {noted : Bool} {req : Request}
      (e : ApiError) : Did lower sha256 s (.request now header throttled noted req)
        { s with procs := s.procs ++ [⟨none, .ended (.error e)⟩] }
  | commanded {now : ℕ} {op : Op} : Did lower sha256 s (.command now op)
      { s with procs := s.procs ++ [⟨none, .working (Tx.open .Cli now op)⟩] }
  | handled {i now : ℕ} {entropy : String} (p : Proc) (ctx : AdminCtx) (req : Request)
      (hp : s.procs[i]? = some p) (hphase : p.phase = .asked req) (hctx : p.ctx = some ctx) :
      Did lower sha256 s (.run i now entropy)
        (s.goes i p (handled (.Admin ctx.id) now (handle lower ctx s.db req)))
  | read {i now : ℕ} {entropy : String} (p : Proc) (q : Query) (hp : s.procs[i]? = some p)
      (hphase : p.phase = .reading q) :
      Did lower sha256 s (.run i now entropy) (s.goes i p (p.result (answer lower s.db q)))
  | ran {i now : ℕ} {entropy : String} (p : Proc) (tx tx' : Tx) (hp : s.procs[i]? = some p)
      (hphase : p.phase = .working tx)
      (hran : statement lower sha256 ⟨s.free i, s.next_id, entropy⟩ s.db tx = some (.ok tx')) :
      Did lower sha256 s (.run i now entropy) { s.goes i p (.working tx') with next_id := s.next_id + 1 }
  /-- It is over, and its transaction rolled back. -/
  | aborted {a : Act} {i : ℕ} (p : Proc) (e : BusError) (hp : s.procs[i]? = some p) :
      Did lower sha256 s a (s.goes i p (p.result (.error e)))
  | committed {i : ℕ} (p : Proc) (tx : Tx) (hp : s.procs[i]? = some p) (hphase : p.phase = .working tx)
      (hstage : tx.stage = .commit) :
      Did lower sha256 s (.commit i) { s.goes i p (p.after tx.next) with db := tx.committed s.db }
  | elsewhere {windows : List AgentSession} {slots : List Slot} {used : Uuid → Option ℕ} :
      Did lower sha256 s (.bus windows slots used) { s with db := s.db.elsewhere windows slots used }

section Steps

variable {lower sha256 : String → String} {s t : Sys} {a : Act} {i j : ℕ} {k : RowKey} {p q : Proc} {db : Db}

/-- A step is one of those that `Did` lists. -/
theorem step_did (h : step lower sha256 s a = some t) : Did lower sha256 s a t := by
  cases a with
  | request now header throttled noted req =>
    simp only [step] at h
    split at h
    · rename_i ctx hctx
      rw [← Option.some.inj h]
      exact .admitted ctx hctx
    · rw [← Option.some.inj h]
      exact .turned_away _
  | command now op =>
    rw [← Option.some.inj h]
    exact .commanded
  | run i now entropy =>
    simp only [step] at h
    split at h
    · cases h
    · rename_i p hp
      split at h
      · rename_i req ctx hphase hctx
        rw [← Option.some.inj h]
        exact .handled p ctx req hp hphase hctx
      · rename_i q hphase
        rw [← Option.some.inj h]
        exact .read p q hp hphase
      · rename_i tx hphase
        split at h
        · rename_i tx' hran
          rw [← Option.some.inj h]
          exact .ran p tx tx' hp hphase hran
        · rw [← Option.some.inj h]
          exact .aborted p _ hp
        · cases h
      · cases h
  | commit i =>
    simp only [step] at h
    split at h
    · cases h
    · rename_i p hp
      split at h
      · rename_i tx hphase
        split at h
        · rename_i hstage
          rw [← Option.some.inj h]
          exact .committed p tx hp hphase hstage
        · cases h
      · cases h
  | fail i =>
    simp only [step] at h
    split at h
    · cases h
    · rename_i p hp
      split at h
      · cases h
      · cases h
      · rw [← Option.some.inj h]
        exact .aborted p _ hp
  | bus windows slots used =>
    rw [← Option.some.inj h]
    exact .elsewhere

/-! ### Locks -/

/-- What the transaction of the `i`-th is. -/
def Sys.tx (s : Sys) (i : ℕ) : Option Tx :=
  match s.procs[i]? with
  | some ⟨_, .working tx⟩ => some tx
  | _ => none

/-- The transaction of a process is the one in its phase. -/
theorem tx_eq {tx : Tx} : s.tx i = some tx ↔ ∃ p, s.procs[i]? = some p ∧ p.phase = .working tx := by
  unfold Sys.tx
  constructor
  · intro h
    split at h
    · rename_i ctx tx' hp
      rw [Option.some.inj h] at hp
      exact ⟨_, hp, rfl⟩
    · cases h
  · rintro ⟨⟨ctx, phase⟩, hp, hphase⟩
    have hphase : phase = .working tx := hphase
    rw [hphase] at hp
    rw [hp]

/-- Its locks are those of the process. -/
theorem locks_of_tx {tx : Tx} (h : s.tx i = some tx) : s.locks i = tx.locks := by
  obtain ⟨p, hp, hphase⟩ := tx_eq.mp h
  rw [Sys.locks, hp, Option.map_some, hphase]
  rfl

/-- A lock that another transaction has is not free. -/
theorem free_ne (hfree : s.free i k = true) (hne : j ≠ i) : k ∉ s.locks j := by
  by_cases hj : j < s.procs.length
  · have hall := List.all_eq_true.mp hfree j (List.mem_range.mpr hj)
    simpa [hne] using hall
  · rw [Sys.locks, List.getElem?_eq_none (Nat.not_lt.mp hj)]
    exact List.not_mem_nil

/-- What a statement leaves, if it is run and not refused, is `P`. -/
def Leaves (P : Tx → Prop) : Option (BusResult Tx) → Prop
  | some (.ok tx) => P tx
  | _ => True

section Leaves

variable {P : Tx → Prop} {w : World} {db : Db} {tx tx' : Tx}

/-- What is asked of a statement that went through. -/
@[simp] theorem leaves_ok : Leaves P (some (.ok tx)) ↔ P tx := Iff.rfl

/-- A lock that is not free stops the statement, which changes nothing then. -/
@[simp] theorem leaves_lock {free : RowKey → Bool} :
    Leaves P (tx.lock free k) ↔ (free k = true → P { tx with locks := tx.locks ++ [k] }) := by
  unfold Tx.lock
  by_cases hfree : free k = true
  · rw [if_pos hfree, leaves_ok]
    exact ⟨fun h _ => h, fun h => h hfree⟩
  · rw [if_neg hfree]
    exact ⟨fun _ h => absurd h hfree, fun _ => trivial⟩

/-- What every outcome has, this one has. -/
theorem Leaves.of {r : Option (BusResult Tx)} (h : Leaves P r) (hr : r = some (.ok tx')) : P tx' := by
  rw [hr] at h
  exact h

/-- The transaction is the same, with free locks added. -/
structure Kept (w : World) (tx tx' : Tx) : Prop where
  actor : tx'.actor = tx.actor
  now : tx'.now = tx.now
  locks : ∀ k ∈ tx'.locks, k ∈ tx.locks ∨ w.free k = true

/-- A statement that takes no lock and keeps the actor and the time. -/
theorem Kept.same (hactor : tx'.actor = tx.actor) (hnow : tx'.now = tx.now) (hlocks : tx'.locks = tx.locks) :
    Kept w tx tx' :=
  ⟨hactor, hnow, fun _ hk => .inl (hlocks ▸ hk)⟩

/-- Only a free lock is added. -/
theorem Kept.lock (h : Kept w tx tx') (k : RowKey) : Leaves (Kept w tx) (tx'.lock w.free k) := by
  rw [leaves_lock]
  refine fun hfree => ⟨h.actor, h.now, fun l hl => ?_⟩
  rcases List.mem_append.mp hl with hl | hl
  · exact h.locks l hl
  · rw [List.mem_singleton.mp hl]
    exact .inr hfree

/-- The first statement of an operation keeps who acts and adds free locks alone. -/
theorem first_kept (op : Op) : Leaves (Kept w tx) (first lower w db tx op) := by
  cases op <;> simp only [first]
  all_goals repeat' split
  all_goals first
    | exact trivial
    | exact Kept.same rfl rfl rfl
    | (apply Kept.lock; exact Kept.same rfl rfl rfl)

/-- So does every later one. -/
theorem statement_kept : Leaves (Kept w tx) (statement lower sha256 w db tx) := by
  cases hstage : tx.stage <;> simp only [statement, hstage]
  case begun op => exact first_kept op
  all_goals repeat' split
  all_goals first
    | exact trivial
    | exact Kept.same rfl rfl rfl
    | (apply Kept.lock; exact Kept.same rfl rfl rfl)

end Leaves

/-! ### Transactions from one state to the next -/

/-- A lock is held by the transaction that took it. -/
theorem mem_locks : k ∈ s.locks j ↔ ∃ tx, s.tx j = some tx ∧ k ∈ tx.locks := by
  constructor
  · intro hk
    cases hp : s.procs[j]? with
    | none =>
      rw [Sys.locks, hp] at hk
      exact absurd hk List.not_mem_nil
    | some p =>
      rw [Sys.locks, hp, Option.map_some, Option.getD_some] at hk
      cases hphase : p.phase with
      | working tx =>
        rw [hphase] at hk
        exact ⟨tx, tx_eq.mpr ⟨p, hp, hphase⟩, hk⟩
      | _ =>
        rw [hphase] at hk
        exact absurd hk List.not_mem_nil
  · rintro ⟨tx, htx, hk⟩
    rw [locks_of_tx htx]
    exact hk

/-- Only the process that moved is in another phase. -/
theorem goes_at {phase : Phase} (h : (s.goes i p phase).procs[j]? = some q) :
    (i = j ∧ q = { p with phase := phase }) ∨ (i ≠ j ∧ s.procs[j]? = some q) := Runs.set_at h

/-- A process that comes is the last. -/
theorem came_at (h : (s.procs ++ [p])[j]? = some q) :
    s.procs[j]? = some q ∨ (j = s.procs.length ∧ q = p) := Runs.append_at h

/-- Where a transaction comes from: it was there, it is new, or it has run a statement. -/
inductive From (lower sha256 : String → String) (s : Sys) (a : Act) (t : Sys) (j : ℕ) (p : Proc) (tx : Tx) : Prop
  | was (hp : s.procs[j]? = some p)
  | commanded (now : ℕ) (op : Op) (hctx : p.ctx = none) (htx : tx = Tx.open .Cli now op)
  | handled (q : Proc) (ctx : AdminCtx) (req : Request) (now : ℕ) (op : Op) (hq : s.procs[j]? = some q)
      (hphase : q.phase = .asked req) (hqctx : q.ctx = some ctx) (hctx : p.ctx = some ctx)
      (hhandle : handle lower ctx s.db req = .ok (.writing op)) (htx : tx = Tx.open (.Admin ctx.id) now op)
  | ran (q : Proc) (tx₀ : Tx) (now : ℕ) (entropy : String) (hact : a = .run j now entropy)
      (hq : s.procs[j]? = some q) (hphase : q.phase = .working tx₀) (hctx : p.ctx = q.ctx)
      (hran : statement lower sha256 ⟨s.free j, s.next_id, entropy⟩ s.db tx₀ = some (.ok tx))
      (hnext : t.next_id = s.next_id + 1)

/-- An answer ends the transaction. -/
theorem result_phase (p : Proc) (r : BusResult Reply) (tx : Tx) : p.result r ≠ .working tx := by
  unfold Proc.result
  split
  · exact fun h => Phase.noConfusion h
  · exact fun h => Phase.noConfusion h

/-- What follows it is no transaction either. -/
theorem after_phase (p : Proc) (next : Then) (tx : Tx) : p.after next ≠ .working tx := by
  cases next with
  | reply r => exact result_phase p _ tx
  | reread q => exact fun h => Phase.noConfusion h

/-- A handler that goes to work opens a transaction of its own. -/
theorem handled_phase {actor : Actor} {now : ℕ} {r : Except ApiError Handling} {tx : Tx}
    (h : handled actor now r = .working tx) : ∃ op, r = .ok (.writing op) ∧ tx = Tx.open actor now op := by
  unfold handled at h
  split at h
  · exact Phase.noConfusion h
  · exact Phase.noConfusion h
  · exact Phase.noConfusion h
  · rename_i op
    exact ⟨op, rfl, (Phase.working.inj h).symm⟩

/-- Where a transaction at work comes from: it was there, was begun, or has made a statement. -/
theorem Did.from (h : Did lower sha256 s a t) {tx : Tx} (hp : t.procs[j]? = some p)
    (hphase : p.phase = .working tx) : From lower sha256 s a t j p tx := by
  cases h with
  | admitted ctx hctx | turned_away e =>
    rcases came_at hp with hp | ⟨-, rfl⟩
    · exact .was hp
    · exact Phase.noConfusion hphase
  | @commanded now op =>
    rcases came_at hp with hp | ⟨-, rfl⟩
    · exact .was hp
    · exact .commanded now op rfl (Phase.working.inj hphase).symm
  | @handled i now entropy q ctx req hq hasked hctx =>
    rcases goes_at hp with ⟨rfl, rfl⟩ | ⟨-, hp⟩
    · obtain ⟨op, hop, htx⟩ := handled_phase hphase
      exact .handled q ctx req now op hq hasked hctx hctx hop htx
    · exact .was hp
  | read q query hq hread | aborted q e hq =>
    rcases goes_at hp with ⟨rfl, rfl⟩ | ⟨-, hp⟩
    · exact absurd hphase (result_phase q _ tx)
    · exact .was hp
  | @ran i now entropy q tx₀ tx' hq hworking hran =>
    rcases goes_at hp with ⟨rfl, rfl⟩ | ⟨-, hp⟩
    · rw [Phase.working.inj hphase] at hran
      exact .ran q tx₀ now entropy rfl hq hworking rfl hran rfl
    · exact .was hp
  | committed q tx' hq hworking hstage =>
    rcases goes_at hp with ⟨rfl, rfl⟩ | ⟨-, hp⟩
    · exact absurd hphase (after_phase q _ tx)
    · exact .was hp
  | elsewhere => exact .was hp

/-- No two transactions have the same lock. -/
def Apart (s : Sys) : Prop := ∀ (i j : ℕ) k, i ≠ j → k ∈ s.locks i → k ∉ s.locks j

/-- At the start nobody holds a lock. -/
theorem Apart.start : Apart .start := by
  intro i j k _ hk
  obtain ⟨tx, htx, -⟩ := mem_locks.mp hk
  exact absurd htx (by simp [Sys.tx, Sys.start])

/-- A lock was there before, or was free and is the transaction's that ran. -/
theorem Did.locks (h : Did lower sha256 s a t) (hk : k ∈ t.locks j) :
    k ∈ s.locks j ∨ (s.free j k = true ∧ ∃ now entropy, a = .run j now entropy) := by
  obtain ⟨tx, htx, hk⟩ := mem_locks.mp hk
  obtain ⟨p, hp, hphase⟩ := tx_eq.mp htx
  cases h.from hp hphase with
  | was hp => exact .inl (mem_locks.mpr ⟨tx, tx_eq.mpr ⟨p, hp, hphase⟩, hk⟩)
  | commanded now op _ htx | handled q ctx req now op _ _ _ _ _ htx =>
    rw [htx] at hk
    exact absurd hk List.not_mem_nil
  | ran q tx₀ now entropy hact hq hworking hctx hran hnext =>
    rcases (statement_kept.of hran).locks k hk with hk | hfree
    · exact .inl (mem_locks.mpr ⟨tx₀, tx_eq.mpr ⟨q, hq, hworking⟩, hk⟩)
    · exact .inr ⟨hfree, now, entropy, hact⟩

/-- **No two transactions hold one lock**, for each lock is taken while it is free. -/
theorem Apart.step (hapart : Apart s) (h : Did lower sha256 s a t) : Apart t := by
  intro i j k hne hi hj
  rcases h.locks hi with hi | ⟨hfree, now, entropy, hact⟩
  · rcases h.locks hj with hj | ⟨hfree, -⟩
    · exact hapart i j k hne hi hj
    · exact free_ne hfree hne hi
  · rcases h.locks hj with hj | ⟨-, now', entropy', hact'⟩
    · exact free_ne hfree (Ne.symm hne) hj
    · rw [hact] at hact'
      exact hne (Act.run.inj hact').1

/-! ### Ids -/

/-- Every id of the tables. -/
def Db.ids (db : Db) : List Uuid :=
  db.teams.map Team.id ++ (db.agents.map Agent.id ++
    (db.api_tokens.map ApiToken.id ++ db.admin_tokens.map AdminToken.id))

/-- The id a write brings. -/
def Write.new_id : Write → Option Uuid
  | .insert_team id _ _ | .insert_agent id _ _ _ => some id
  | .insert_token t => some t.id
  | .insert_admin c => some c.id
  | _ => none

/-- The ids of what a transaction has inserted. -/
def Tx.new_ids (tx : Tx) : List Uuid := tx.writes.filterMap Write.new_id

/-- A new row puts its id among the others. -/
theorem perm_insert_ids {α : Type} (r : α) (l : List α) (f : α → Uuid) (before after : List Uuid) :
    (before ++ ((insert_into r l).map f ++ after)).Perm (f r :: (before ++ (l.map f ++ after))) := by
  rw [insert_into, List.map_append, List.map_singleton, List.append_assoc, List.singleton_append,
    ← List.append_assoc, ← List.append_assoc before]
  exact List.perm_middle

/-- Ids are read off the four tables. -/
theorem ids_kept {db' : Db} (hteams : db'.teams.map Team.id = db.teams.map Team.id)
    (hagents : db'.agents.map Agent.id = db.agents.map Agent.id)
    (htokens : db'.api_tokens.map ApiToken.id = db.api_tokens.map ApiToken.id)
    (hadmins : db'.admin_tokens.map AdminToken.id = db.admin_tokens.map AdminToken.id) : db'.ids = db.ids := by
  rw [Db.ids, Db.ids, hteams, hagents, htokens, hadmins]

/-- A write brings its id, and no other. -/
theorem ids_apply (db : Db) (w : Write) : ((w.apply db).ids).Perm (w.new_id.toList ++ db.ids) := by
  cases w with
  | insert_team id slug name => exact perm_insert_ids _ db.teams Team.id [] _
  | insert_agent id team_id name display_name => exact perm_insert_ids _ db.agents Agent.id _ _
  | insert_token t =>
    have h := perm_insert_ids t db.api_tokens ApiToken.id (db.teams.map Team.id ++ db.agents.map Agent.id)
      (db.admin_tokens.map AdminToken.id)
    rw [List.append_assoc, List.append_assoc] at h
    exact h
  | insert_admin c =>
    have h := perm_insert_ids c db.admin_tokens AdminToken.id
      (db.teams.map Team.id ++ (db.agents.map Agent.id ++ db.api_tokens.map ApiToken.id)) []
    simp only [List.append_assoc, List.append_nil] at h
    exact h
  | set_conversations | set_default_backend | set_quota =>
    exact .of_eq (ids_kept (map_key_update fun _ => rfl) rfl rfl rfl)
  | enable_agent | disable_agent => exact .of_eq (ids_kept rfl (map_key_update fun _ => rfl) rfl rfl)
  | revoke_token => exact .of_eq (ids_kept rfl rfl (map_key_update fun _ => rfl) rfl)
  | revoke_admin => exact .of_eq (ids_kept rfl rfl rfl (map_key_update fun _ => rfl))
  | revoke_sessions | audit => exact List.Perm.refl _

/-- A commit adds the ids that its writes took. -/
theorem ids_committed (writes : List Write) (db : Db) :
    ((writes.foldl Write.apply db).ids).Perm (writes.filterMap Write.new_id ++ db.ids) := by
  induction writes generalizing db with
  | nil => exact List.Perm.refl _
  | cons w writes ih =>
    rw [List.foldl_cons]
    refine (ih (w.apply db)).trans ?_
    refine ((ids_apply db w).append_left _).trans ?_
    cases hid : w.new_id with
    | none =>
      rw [List.filterMap_cons_none hid]
      exact List.Perm.refl _
    | some id =>
      rw [List.filterMap_cons_some hid]
      exact List.perm_middle

/-- A statement inserts under the id it is given. -/
theorem statement_ids {w : World} {tx : Tx} :
    Leaves (fun tx' => tx'.new_ids = tx.new_ids ∨ tx'.new_ids = tx.new_ids ++ [w.id])
      (statement lower sha256 w db tx) := by
  have hsame : ∀ {tx' : Tx}, tx'.writes.filterMap Write.new_id = tx.new_ids →
      tx'.new_ids = tx.new_ids ∨ tx'.new_ids = tx.new_ids ++ [w.id] := fun h => .inl h
  have hadd : ∀ {tx' : Tx} (x : Write), tx'.writes = tx.writes ++ [x] → (x.new_id = none ∨ x.new_id = some w.id) →
      tx'.new_ids = tx.new_ids ∨ tx'.new_ids = tx.new_ids ++ [w.id] := by
    intro tx' x hwrites hx
    rw [Tx.new_ids, hwrites, List.filterMap_append]
    rcases hx with hx | hx
    · rw [List.filterMap_cons_none hx]
      exact .inl (List.append_nil _)
    · rw [List.filterMap_cons_some hx]
      exact .inr rfl
  -- each statement adds at most one write, and an insertion takes the id it is given
  cases hstage : tx.stage <;> simp only [statement, hstage]
  case begun op =>
    cases op <;> simp only [first]
    all_goals repeat' split
    all_goals first
      | exact trivial
      | exact hsame rfl
      | exact leaves_lock.mpr fun _ => hsame rfl
      | exact leaves_lock.mpr fun _ => hadd _ rfl (.inl rfl)
      | exact leaves_lock.mpr fun _ => hadd _ rfl (.inr rfl)
  all_goals repeat' split
  all_goals first
    | exact trivial
    | exact hsame rfl
    | exact hadd _ rfl (.inl rfl)
    | exact leaves_lock.mpr fun _ => hsame rfl
    | exact leaves_lock.mpr fun _ => hadd _ rfl (.inl rfl)
    | exact leaves_lock.mpr fun _ => hadd _ rfl (.inr rfl)

/-- The tables change by a commit, whose transaction is over then, or not in what is recorded. -/
theorem Did.tables (h : Did lower sha256 s a t) :
    (∃ i tx, a = .commit i ∧ s.tx i = some tx ∧ tx.stage = .commit ∧ t.db = tx.committed s.db ∧ t.tx i = none) ∨
    t.db = s.db ∨ (∃ now id, t.db = touch now id s.db) ∨
      ∃ windows slots used, t.db = s.db.elsewhere windows slots used := by
  cases h with
  | @admitted now header throttled noted req ctx hctx =>
    cases noted with
    | false => exact .inr (.inl rfl)
    | true => exact .inr (.inr (.inl ⟨now, ctx.id, rfl⟩))
  | @committed i p tx hp hphase hstage =>
    refine .inl ⟨i, tx, rfl, tx_eq.mpr ⟨p, hp, hphase⟩, hstage, rfl, ?_⟩
    rw [Option.eq_none_iff_forall_ne_some]
    intro tx' htx'
    obtain ⟨q, hq, hworking⟩ := tx_eq.mp htx'
    rcases goes_at hq with ⟨-, rfl⟩ | ⟨hne, -⟩
    · exact after_phase p _ tx' hworking
    · exact hne rfl
  | elsewhere => exact .inr (.inr (.inr ⟨_, _, _, rfl⟩))
  | turned_away | commanded | handled | read | ran | aborted => exact .inr (.inl rfl)

/-- Ids are given out upwards. -/
theorem Did.next_id (h : Did lower sha256 s a t) : s.next_id ≤ t.next_id := by
  cases h with
  | ran => exact Nat.le_succ _
  | _ => exact Nat.le_refl _

/-- Ids are drawn in order, and none is used twice. -/
structure Ids (s : Sys) : Prop where
  nodup : s.db.ids.Nodup
  below : ∀ id ∈ s.db.ids, id < s.next_id
  drawn : ∀ i tx, s.tx i = some tx → tx.new_ids.Nodup ∧ ∀ id ∈ tx.new_ids, id < s.next_id ∧ id ∉ s.db.ids
  apart : ∀ i j tx tx', i ≠ j → s.tx i = some tx → s.tx j = some tx' → ∀ id ∈ tx.new_ids, id ∉ tx'.new_ids

/-- There are no ids yet. -/
theorem Ids.start : Ids .start where
  nodup := List.nodup_nil
  below := fun id h => absurd h List.not_mem_nil
  drawn := fun i tx h => absurd h (by simp [Sys.tx, Sys.start])
  apart := fun i j tx tx' _ h => absurd h (by simp [Sys.tx, Sys.start])

/-- A touch gives out no id. -/
theorem ids_touch (now : ℕ) (id : Uuid) (db : Db) : (touch now id db).ids = db.ids :=
  ids_kept rfl rfl rfl (map_key_update fun _ => rfl)

/-- Nor does what others write. -/
theorem ids_elsewhere (db : Db) (windows : List AgentSession) (slots : List Slot) (used : Uuid → Option ℕ) :
    (db.elsewhere windows slots used).ids = db.ids :=
  ids_kept rfl rfl (map_key_update fun _ => rfl) rfl

/-- The ids of a transaction were its own before, or it has drawn one more. -/
theorem Did.new_ids (h : Did lower sha256 s a t) {tx : Tx} (htx : t.tx j = some tx) :
    tx.new_ids = [] ∨ ∃ tx₀, s.tx j = some tx₀ ∧ (tx.new_ids = tx₀.new_ids ∨
      (tx.new_ids = tx₀.new_ids ++ [s.next_id] ∧ t.next_id = s.next_id + 1 ∧
        ∃ now entropy, a = .run j now entropy)) := by
  obtain ⟨p, hp, hphase⟩ := tx_eq.mp htx
  cases h.from hp hphase with
  | was hp => exact .inr ⟨tx, tx_eq.mpr ⟨p, hp, hphase⟩, .inl rfl⟩
  | commanded now op _ heq | handled _ _ _ now op _ _ _ _ _ heq =>
    rw [heq]
    exact .inl rfl
  | ran q tx₀ now entropy hact hq hworking _ hran hnext =>
    refine .inr ⟨tx₀, tx_eq.mpr ⟨q, hq, hworking⟩, ?_⟩
    rcases statement_ids.of hran with hsame | hadd
    · exact .inl hsame
    · exact .inr ⟨hadd, hnext, now, entropy, hact⟩

/-- **Every id is one row's**, since each is taken once and committed once. -/
theorem Ids.step (hids : Ids s) (h : Did lower sha256 s a t) : Ids t := by
  have hnext := h.next_id
  -- a transaction's ids are its own, below what is drawn next
  have hdrawn : ∀ j tx, t.tx j = some tx → tx.new_ids.Nodup ∧ ∀ id ∈ tx.new_ids, id < t.next_id ∧ id ∉ s.db.ids := by
    intro j tx htx
    rcases h.new_ids htx with hnil | ⟨tx₀, htx₀, hsame | ⟨hadd, hlast, -⟩⟩
    · rw [hnil]
      exact ⟨List.nodup_nil, fun id hid => absurd hid List.not_mem_nil⟩
    · obtain ⟨hnodup, hall⟩ := hids.drawn j tx₀ htx₀
      rw [hsame]
      exact ⟨hnodup, fun id hid => ⟨(hall id hid).1.trans_le hnext, (hall id hid).2⟩⟩
    · obtain ⟨hnodup, hall⟩ := hids.drawn j tx₀ htx₀
      rw [hadd, hlast]
      constructor
      · refine List.nodup_append.mpr ⟨hnodup, List.nodup_singleton _, fun id hid id' hid' => ?_⟩
        rw [List.mem_singleton.mp hid']
        exact Nat.ne_of_lt (hall id hid).1
      · intro id hid
        rcases List.mem_append.mp hid with hid | hid
        · exact ⟨Nat.lt_succ_of_lt (hall id hid).1, (hall id hid).2⟩
        · rw [List.mem_singleton.mp hid]
          exact ⟨Nat.lt_succ_self _, fun hin => Nat.lt_irrefl _ (hids.below _ hin)⟩
  have hapart : ∀ i j tx tx', i ≠ j → t.tx i = some tx → t.tx j = some tx' → ∀ id ∈ tx.new_ids, id ∉ tx'.new_ids := by
    intro i j tx tx' hne hi hj id hid hid'
    rcases h.new_ids hi with hnil | ⟨txi, htxi, hi⟩
    · rw [hnil] at hid
      exact absurd hid List.not_mem_nil
    rcases h.new_ids hj with hnil | ⟨txj, htxj, hj⟩
    · rw [hnil] at hid'
      exact absurd hid' List.not_mem_nil
    have hold : id ∈ txi.new_ids → id ∈ txj.new_ids → False :=
      fun hin hin' => hids.apart i j txi txj hne htxi htxj id hin hin'
    rcases hi with hi | ⟨hi, -, now, entropy, hact⟩
    · rw [hi] at hid
      rcases hj with hj | ⟨hj, -⟩
      · rw [hj] at hid'
        exact hold hid hid'
      · rw [hj] at hid'
        rcases List.mem_append.mp hid' with hid' | hid'
        · exact hold hid hid'
        · rw [List.mem_singleton.mp hid'] at hid
          exact Nat.lt_irrefl _ ((hids.drawn i txi htxi).2 _ hid).1
    · rcases hj with hj | ⟨-, -, now', entropy', hact'⟩
      · rw [hj] at hid'
        rw [hi] at hid
        rcases List.mem_append.mp hid with hid | hid
        · exact hold hid hid'
        · rw [List.mem_singleton.mp hid] at hid'
          exact Nat.lt_irrefl _ ((hids.drawn j txj htxj).2 _ hid').1
      · rw [hact] at hact'
        exact hne (Act.run.inj hact').1
  rcases h.tables with ⟨i, tx, hcommit, htx, -, hdb, hover⟩ | hdb
  · -- what is committed was drawn, and is nobody else's
    have hperm : t.db.ids.Perm (tx.new_ids ++ s.db.ids) := hdb ▸ ids_committed tx.writes s.db
    obtain ⟨hnodup, hall⟩ := hids.drawn i tx htx
    refine ⟨?_, fun id hid => ?_, fun j tx' htx' => ⟨(hdrawn j tx' htx').1, fun id hid => ?_⟩, hapart⟩
    · refine hperm.nodup_iff.mpr (List.nodup_append.mpr ⟨hnodup, hids.nodup, fun id hid id' hid' heq => ?_⟩)
      rw [heq] at hid
      exact (hall _ hid).2 hid'
    · rcases List.mem_append.mp (hperm.mem_iff.mp hid) with hid | hid
      · exact (hall id hid).1.trans_le hnext
      · exact (hids.below id hid).trans_le hnext
    · obtain ⟨hlt, hout⟩ := (hdrawn j tx' htx').2 id hid
      refine ⟨hlt, fun hin => ?_⟩
      rcases List.mem_append.mp (hperm.mem_iff.mp hin) with hin | hin
      · have hne : i ≠ j := by
          intro heq
          rw [heq, htx'] at hover
          cases hover
        rcases h.new_ids htx' with hnil | ⟨tx₀, htx₀, hold | ⟨-, -, now, entropy, hact⟩⟩
        · rw [hnil] at hid
          exact absurd hid List.not_mem_nil
        · rw [hold] at hid
          exact hids.apart i j tx tx₀ hne htx htx₀ id hin hid
        · exact Act.noConfusion (hcommit.symm.trans hact)
      · exact hout hin
  · have hsame : t.db.ids = s.db.ids := by
      rcases hdb with hdb | ⟨now, id, hdb⟩ | ⟨windows, slots, used, hdb⟩
      · rw [hdb]
      · rw [hdb, ids_touch]
      · rw [hdb, ids_elsewhere]
    rw [← hsame] at hdrawn
    exact ⟨hsame ▸ hids.nodup, fun id hid => (hids.below id (hsame ▸ hid)).trans_le hnext, hdrawn, hapart⟩

/-- Agents have different ids. -/
theorem Ids.agents (h : Ids s) : Keyed Agent.id s.db.agents :=
  (List.nodup_append.mp (List.nodup_append.mp h.nodup).2.1).1

/-- So have tokens. -/
theorem Ids.tokens (h : Ids s) : Keyed ApiToken.id s.db.api_tokens :=
  (List.nodup_append.mp (List.nodup_append.mp (List.nodup_append.mp h.nodup).2.1).2.1).1

/-- So have the credentials of the API. -/
theorem Ids.admins (h : Ids s) : Keyed AdminToken.id s.db.admin_tokens :=
  (List.nodup_append.mp (List.nodup_append.mp (List.nodup_append.mp h.nodup).2.1).2.1).2.1

end Steps

end CrewSync.Admin
