/-
The database: the tables of `migrations/`, one row type per table, with the
columns the modelled operations read or write under the names the migrations
give them.

Columns nothing here reads (titles, metadata, token prefixes) are left out. Conventions:

* a `UUID` is a natural number and a `TIMESTAMPTZ` a natural number of
  microseconds: all that is used of them is equality and order. `now()` inside a
  transaction is the time the transaction began, so it may lie behind the clock
  by the time the transaction commits;
* a `CHECK (x IN (…))` column is an enumeration, so a value outside the list
  cannot be written;
* a nullable column is an `Option`, and an SQL comparison with `NULL` is spelled
  out where it happens, because it is neither true nor false there.
-/
import CrewSync.Rows

set_option autoImplicit false

namespace CrewSync.Schema

abbrev Uuid := ℕ

/-- `make_interval(secs => s)`. -/
def secs (s : ℕ) : ℕ := 1000000 * s

/-! ## Enumerated columns -/

/-- `teams.default_backend`, `conversations.backend`,
`conversation_messages.backend`. -/
inductive Backend where
  | postgres | jetstream
  deriving DecidableEq, Repr

/-- `conversations.visibility`. -/
inductive Visibility where
  | project | «private»
  deriving DecidableEq, Repr

/-- `conversations.publication`. -/
inductive Publication where
  | sync | outbox
  deriving DecidableEq, Repr

/-- `conversation_memberships.role`. -/
inductive Role where
  | owner | moderator | participant | observer
  deriving DecidableEq, Repr

/-- `conversation_memberships.state`. -/
inductive SeatState where
  | invited | active | left | removed
  deriving DecidableEq, Repr

/-- `conversation_messages.publication_state`. -/
inductive PublicationState where
  | stored | pending_publication | failed
  deriving DecidableEq, Repr

/-- `conversation_outbox.state`. -/
inductive SlotState where
  | pending | leased | failed
  deriving DecidableEq, Repr

/-- `inbox_events.kind`. -/
inductive EventKind where
  | message | receipt
  deriving DecidableEq, Repr

/-- `inbox_events.state`. -/
inductive EventState where
  | pending | published | failed
  deriving DecidableEq, Repr

/-- `conversation_migrations.direction`. -/
inductive Direction where
  | to_jetstream | to_postgres
  deriving DecidableEq, Repr

/-- `conversation_migrations.state`. -/
inductive RunState where
  | planned | copying | verified | cut_over | failed | rolled_back
  deriving DecidableEq, Repr

/-- `conversation_migration_items.state`. -/
inductive ItemState where
  | planned | copied | verified | failed
  deriving DecidableEq, Repr

/-- `canonical_locator`. Opaque to everything but the adapter that wrote it:
Postgres writes the message's own id, JetStream the team whose stream holds the
body and the sequence it was stored at. -/
inductive Locator where
  | postgres (message_id : Uuid)
  | jetstream (team_id : Uuid) (seq : ℕ)
  deriving DecidableEq, Repr

/-! ## Tables -/

/-- `teams`. -/
structure Team where
  id : Uuid
  slug : String
  conversations_enabled : Bool
  default_backend : Backend
  deriving DecidableEq, Repr

/-- `agents`. -/
structure Agent where
  id : Uuid
  team_id : Uuid
  name : String
  disabled_at : Option ℕ
  deriving DecidableEq, Repr

/-- `api_tokens`. -/
structure ApiToken where
  id : Uuid
  agent_id : Uuid
  token_hash : String
  revoked_at : Option ℕ
  last_used_at : Option ℕ
  deriving DecidableEq, Repr

/-- `agent_sessions`: one row per window, `UNIQUE (agent_id, label)` and
`UNIQUE (token_hash)`. -/
structure AgentSession where
  id : Uuid
  agent_id : Uuid
  parent_token : Uuid
  label : String
  token_hash : String
  epoch : ℕ
  last_used_at : Option ℕ
  expires_at : ℕ
  revoked_at : Option ℕ
  deriving DecidableEq, Repr

/-- `projects`, `UNIQUE (team_id, name)`. -/
structure Project where
  id : Uuid
  team_id : Uuid
  name : String
  deriving DecidableEq, Repr

/-- `project_agent_access`, `PRIMARY KEY (project_id, agent_id)`. -/
structure ProjectAgentAccess where
  project_id : Uuid
  agent_id : Uuid
  team_id : Uuid
  deriving DecidableEq, Repr

/-- `conversations`. -/
structure Conversation where
  id : Uuid
  team_id : Uuid
  project_id : Option Uuid
  visibility : Visibility
  created_by : Uuid
  created_session : String
  archived_at : Option ℕ
  last_seq : ℕ
  backend : Backend
  publication : Publication
  write_paused_at : Option ℕ
  deriving DecidableEq, Repr

/-- `conversation_memberships`: a seat, `UNIQUE (conversation_id, agent_id,
session)`. -/
structure ConversationMembership where
  id : Uuid
  conversation_id : Uuid
  agent_id : Uuid
  session : String
  session_id : Option Uuid
  role : Role
  state : SeatState
  history_from_seq : Option ℕ
  invited_by : Option Uuid
  accepted_at : Option ℕ
  ended_at : Option ℕ
  superseded_by : Option Uuid
  transfer_from : Option Uuid
  deriving DecidableEq, Repr

/-- `conversation_messages`, `UNIQUE (conversation_id, seq)` and
`UNIQUE (conversation_id, request_id)`. -/
structure ConversationMessage where
  id : Uuid
  conversation_id : Uuid
  seq : ℕ
  sender_agent : Uuid
  sender_session : String
  body : String
  reply_to : Option Uuid
  request_id : Uuid
  created_at : ℕ
  deleted_at : Option ℕ
  publication_state : PublicationState
  canonical_locator : Option Locator
  uncertain_at : Option ℕ
  tombstoned_at : Option ℕ
  tombstone_reason : Option String
  body_sha256 : Option String
  backend : Backend
  deriving DecidableEq, Repr

/-- `message_recipients`. -/
structure MessageRecipient where
  message_id : Uuid
  membership_id : Uuid
  agent_id : Uuid
  session : String
  deriving DecidableEq, Repr

/-- `message_receipts`. -/
structure MessageReceipt where
  message_id : Uuid
  membership_id : Uuid
  stored_at : Option ℕ
  delivered_at : Option ℕ
  presented_at : Option ℕ
  acknowledged_at : Option ℕ
  resolved_at : Option ℕ
  note : Option String
  deriving DecidableEq, Repr

/-- `conversation_outbox`: one slot per message awaiting publication. -/
structure ConversationOutbox where
  message_id : Uuid
  conversation_id : Uuid
  team_id : Uuid
  backend : Backend
  payload : String
  payload_bytes : ℕ
  publish_key : Uuid
  state : SlotState
  attempts : ℕ
  generation : ℕ
  leased_by : Option String
  lease_expires_at : Option ℕ
  next_attempt_at : ℕ
  last_error : Option String
  created_at : ℕ
  updated_at : ℕ
  deriving DecidableEq, Repr

/-- `inbox_events`, `UNIQUE (kind, message_id, recipient_key, dedup)`. -/
structure InboxEvent where
  id : Uuid
  team_id : Uuid
  recipient_key : String
  kind : EventKind
  message_id : Uuid
  membership_id : Option Uuid
  state : EventState
  attempts : ℕ
  last_error : Option String
  next_attempt_at : ℕ
  created_at : ℕ
  dedup : String
  deriving DecidableEq, Repr

/-- `inbox_deliveries`, `UNIQUE (recipient_key, message_id, event_dedup) WHERE
confirmed_at IS NULL`. -/
structure InboxDelivery where
  id : Uuid
  team_id : Uuid
  recipient_key : String
  session_id : Option Uuid
  epoch : Option ℕ
  message_id : Uuid
  membership_id : Option Uuid
  ack_subject : String
  stream_seq : Option ℕ
  event_dedup : String
  handed_at : ℕ
  confirmed_at : Option ℕ
  deriving DecidableEq, Repr

/-- `conversation_migrations`: one supervised move. -/
structure ConversationMigration where
  id : Uuid
  team_id : Uuid
  conversation_id : Uuid
  direction : Direction
  state : RunState
  messages : ℕ
  bytes : ℕ
  started_at : ℕ
  finished_at : Option ℕ
  last_error : Option String
  deriving DecidableEq, Repr

/-- `conversation_migration_items`: one message's part in a move. -/
structure ConversationMigrationItem where
  migration_id : Uuid
  message_id : Uuid
  checksum : String
  bytes : ℕ
  target_locator : Option Locator
  state : ItemState
  last_error : Option String
  deriving DecidableEq, Repr

/-- `messages`: the channel and direct messages of 0001, whose `id` is a
`BIGSERIAL`. -/
structure Message where
  id : ℕ
  team_id : Uuid
  channel_id : Option Uuid
  recipient_agent_id : Option Uuid
  recipient_session : Option String
  sender_agent_id : Uuid
  sender_session : Option String
  body : String
  deriving DecidableEq, Repr

/-- `read_cursors`, `PRIMARY KEY (agent_id, scope)`. -/
structure ReadCursor where
  agent_id : Uuid
  scope : String
  last_message_id : ℕ
  deriving DecidableEq, Repr

/-- The committed contents of every table. -/
structure Db where
  teams : List Team := []
  agents : List Agent := []
  api_tokens : List ApiToken := []
  agent_sessions : List AgentSession := []
  projects : List Project := []
  project_agent_access : List ProjectAgentAccess := []
  conversations : List Conversation := []
  conversation_memberships : List ConversationMembership := []
  conversation_messages : List ConversationMessage := []
  message_recipients : List MessageRecipient := []
  message_receipts : List MessageReceipt := []
  conversation_outbox : List ConversationOutbox := []
  inbox_events : List InboxEvent := []
  inbox_deliveries : List InboxDelivery := []
  conversation_migrations : List ConversationMigration := []
  conversation_migration_items : List ConversationMigrationItem := []
  messages : List Message := []
  read_cursors : List ReadCursor := []
  deriving DecidableEq, Repr

/-- `conversation_messages_pkey`. -/
abbrev Db.MessagesKeyed (db : Db) : Prop := Rows.Keyed ConversationMessage.id db.conversation_messages

/-- `conversation_outbox_pkey`. -/
abbrev Db.SlotsKeyed (db : Db) : Prop := Rows.Keyed ConversationOutbox.message_id db.conversation_outbox

/-- `AuthCtx`: who a request speaks as, fixed when it was authenticated. -/
structure AuthCtx where
  agent_id : Uuid
  agent_name : String
  team_id : Uuid
  team_slug : String
  /-- Asserted by a header, unless `session_id` is set: then it was proven. -/
  session : String
  session_id : Option Uuid
  session_epoch : Option ℕ
  token_id : Option Uuid
  deriving DecidableEq, Repr

/-- `AuthCtx::session_is_authenticated`. -/
def AuthCtx.session_is_authenticated (auth : AuthCtx) : Bool := auth.session_id.isSome

end CrewSync.Schema

/-! ## A crew

The rows that the runs at the end of many modules begin with. -/

namespace CrewSync.Crew

open Schema

/-- A caller with the token of its agent, in the window of that label. -/
def caller (agent_id : Uuid) (name session : String) : AuthCtx :=
  { agent_id := agent_id, agent_name := name, team_id := 1, team_slug := "crew", session := session,
    session_id := none, session_epoch := none, token_id := none }

def ada : AuthCtx := caller 1 "ada" ""

def ada_at_desk : AuthCtx := caller 1 "ada" "desk"

def bob : AuthCtx := caller 2 "bob" ""

def bob_in_hall : AuthCtx := caller 2 "bob" "hall"

/-- The two of them. Their new threads go to `backend`. -/
def pair (backend : Backend) : Db :=
  { teams := [⟨1, "crew", true, backend⟩], agents := [⟨1, 1, "ada", none⟩, ⟨2, 1, "bob", none⟩] }

/-- A private thread Ada opened, in which nothing was sent. -/
def thread (backend : Backend) : Conversation :=
  { id := 7, team_id := 1, project_id := none, visibility := .private, created_by := 1,
    created_session := "", archived_at := none, last_seq := 0, backend := backend,
    publication := if backend = .jetstream then .outbox else .sync, write_paused_at := none }

/-- A digest to run with. -/
def digest (s : String) : String := s

end CrewSync.Crew
