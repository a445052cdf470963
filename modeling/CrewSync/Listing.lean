/-
`store/conversations.rs`: the threads of a caller, as they are listed.

`list_conversations` collects the ids of the threads the caller may list, and then
reads each of them again: what it may no longer see is left out. `activity` is one
query, without the check of the capability.

Titles and times are left out, and so is the order of a thread's members.
-/
import CrewSync.Conversations

set_option autoImplicit false

namespace CrewSync.Listing

open Error Schema Rows Conversations

/-- `MembershipInfo`: a seat, and the name of its agent. -/
structure MembershipInfo where
  seat : ConversationMembership
  agent : String
  deriving DecidableEq, Repr

/-- `ConversationInfo`. -/
structure ConversationInfo where
  id : Uuid
  visibility : Visibility
  project : Option String
  created_by : String
  archived : Bool
  last_seq : ℕ
  membership : Option MembershipInfo
  members : List MembershipInfo
  deriving DecidableEq, Repr

/-- `ConversationActivity`. -/
structure ConversationActivity where
  conversation_id : Uuid
  last_seq : ℕ
  unacknowledged : ℕ
  deriving DecidableEq, Repr

/-- A seat with the name of its agent, in `db`. -/
def member_info (db : Db) (m : ConversationMembership) : Option MembershipInfo :=
  (one (fun a => a.id == m.agent_id) db.agents).map fun ag => ⟨m, ag.name⟩

/-- `members_of`. -/
def members_of (id : Uuid) (db : Db) : List MembershipInfo :=
  (db.conversation_memberships.filter fun m => m.conversation_id == id).filterMap (member_info db)

/-- What a caller with this access is told of a thread. -/
def thread_info (a : Access) (c : Conversation) (created_by : String) (db : Db) : ConversationInfo :=
  let members := if a.membership.isSome then members_of c.id db else []
  { id := c.id
    visibility := c.visibility
    project := (one (fun p => some p.id == c.project_id) db.projects).map fun p => p.name
    created_by := created_by
    archived := c.archived_at.isSome
    last_seq := c.last_seq
    membership := a.membership.bind fun mine => members.find? fun i => i.seat.id == mine.id
    members := members }

/-- `conversation_info`. The caller is let in on `admitted`, and told what `listed`
holds. -/
def conversation_info (admitted listed : Db) (auth : AuthCtx) (id : Uuid) :
    BusResult ConversationInfo := do
  let a ← readable auth id admitted
  let c ← fetch (one (fun c => c.id == id) listed.conversations) (.Db "no rows returned")
  let creator ← fetch (one (fun a => a.id == c.created_by) listed.agents) (.Db "no rows returned")
  pure (thread_info a c creator.name listed)

/-- The caller sits in the thread, or was asked to. -/
def sits_in (auth : AuthCtx) (db : Db) (c : Conversation) : Bool :=
  db.conversation_memberships.any fun m => is_callers auth c.id m && open_seat m

/-- The `WHERE` clause of `list_candidates`. -/
def is_candidate (auth : AuthCtx) (include_archived : Bool) (db : Db) (c : Conversation) : Bool :=
  c.team_id == auth.team_id && (include_archived || c.archived_at.isNone) &&
    (sits_in auth db c && (c.visibility != .project || granted c auth.agent_id db) ||
      c.visibility == .project && granted c auth.agent_id db)

/-- `list_candidates`. -/
def list_candidates (auth : AuthCtx) (include_archived : Bool) (db : Db) : List Uuid :=
  (select (is_candidate auth include_archived db) (fun c => c.id) db.conversations).map fun c => c.id

/-- `list_conversations_among`. `looks` says on which databases each thread is read. -/
def list_conversations_among (looks : Uuid → Db × Db) (auth : AuthCtx) :
    List Uuid → BusResult (List ConversationInfo)
  | [] => pure []
  | id :: ids =>
    match conversation_info (looks id).1 (looks id).2 auth id with
    | .ok info => do
      let rest ← list_conversations_among looks auth ids
      pure (info :: rest)
    | .error (.NotFound _) | .error (.Forbidden _) => list_conversations_among looks auth ids
    | .error e => .error e

/-- `list_conversations`. -/
def list_conversations (found : Db) (looks : Uuid → Db × Db) (auth : AuthCtx)
    (include_archived : Bool) : BusResult (List ConversationInfo) := do
  require_capability auth found
  list_conversations_among looks auth (list_candidates auth include_archived found)

/-- `SELECT count(*) FROM message_receipts … WHERE … acknowledged_at IS NULL`. -/
def unacknowledged (m : ConversationMembership) (db : Db) : ℕ :=
  (db.message_receipts.filter fun r => r.membership_id == m.id && r.acknowledged_at.isNone).length

/-- The seats `activity` joins a thread with. Nothing is asked of the window that
took the seat. -/
def watches (auth : AuthCtx) (db : Db) (c : Conversation) (m : ConversationMembership) : Bool :=
  at_address c.id auth.agent_id auth.session m && m.state == .active &&
    (c.visibility != .project || granted c m.agent_id db)

/-- The line of one thread. -/
def activity_row (c : Conversation) (db : Db) (m : ConversationMembership) : ConversationActivity :=
  ⟨c.id, c.last_seq, unacknowledged m db⟩

/-- `activity`. -/
def activity (auth : AuthCtx) (db : Db) : List ConversationActivity :=
  let threads := select (fun c => c.team_id == auth.team_id && c.archived_at.isNone)
    (fun c => c.last_seq) db.conversations
  (threads.reverse.flatMap fun c =>
    (db.conversation_memberships.filter (watches auth db c)).map (activity_row c db)).filter
      fun r => 0 < r.unacknowledged

end CrewSync.Listing
