/-
`store/conversations.rs`: who sits in a thread, and what a seat may read.

A **seat** is a row of `conversation_memberships`, one per thread and address
(agent and window). It is offered (`invited`), taken (`active`), given up
(`left`) or taken away (`removed`), and it is never deleted: re-admission
rewrites the row that is there.

Each operation is one transaction, read at its commit, on the committed database
`db`. What an operation reads from the pool *before* its transaction opens it
reads in `seen`, an earlier committed database: nothing holds those rows still.
Inside the transaction the rows an operation decides by are locked (the thread
`FOR UPDATE`, the seats by `FOR UPDATE` or by the `UPDATE` itself), so they are
at the commit what they were when they were read.

Left out: the audit rows, which nothing reads, and the `conversation_info` that
`invite`, `join` and `remove_member` answer with after they have committed.
-/
import CrewSync.Sessions

set_option autoImplicit false

namespace CrewSync.Conversations

open Error Schema Rows Auth Sessions

/-- `MAX_MEMBERS`, `DEFAULT_PAGE` and `MAX_PAGE`. -/
def MAX_MEMBERS : ℕ := 200

def DEFAULT_PAGE : ℤ := 50

def MAX_PAGE : ℤ := 200

/-! ## Addresses -/

/-- `str::split_once('/')`. -/
def split_once (s : String) : Option (String × String) :=
  (Trims.split_once '/' s.toList).map fun parts => (String.ofList parts.1, String.ofList parts.2)

/-- `messaging::parse_address`. -/
def parse_address (raw : String) : BusResult (String × Option String) :=
  let raw := trim raw
  match split_once raw with
  | none => .ok (raw, none)
  | some (agent, session) => do
    let agent := trim agent
    ensure (!agent.isEmpty) (.Invalid
      "an address is 'agent' or 'agent/session'; the agent part is missing")
    match normalize_session session with
    | .error why => .error (.Invalid s!"the session in '{raw}' {why}")
    | .ok session => do
      ensure (!session.isEmpty) (.Invalid
        (s!"'{raw}' has an empty session; write '{agent}' to reach every session of theirs, or " ++
          s!"'{agent}/<session>' for one of them"))
      pure (agent, some session)

/-- `agent_id_by_name`. -/
def agent_id_by_name (team_id : Uuid) (name : String) (db : Db) : BusResult Uuid := do
  let name := trim name
  let a ← fetch (one (fun a => a.team_id == team_id && a.name == name) db.agents)
    (.NotFound s!"no agent named '{name}' in this team")
  pure a.id

/-- An address, resolved to the agent and the window it names. -/
def resolve_address (auth : AuthCtx) (address : String) (db : Db) : BusResult (Uuid × String) := do
  let (agent, session) ← parse_address address
  let agent_id ← agent_id_by_name auth.team_id agent db
  pure (agent_id, session.getD "")

/-- `WHERE conversation_id = $1 AND agent_id = $2 AND session = $3`. -/
def at_address (id agent_id : Uuid) (session : String) (m : ConversationMembership) : Bool :=
  m.conversation_id == id && m.agent_id == agent_id && m.session == session

/-! ## What a caller may do -/

/-- `Membership`. -/
structure Membership where
  id : Uuid
  role : Role
  state : SeatState
  history_from_seq : Option ℕ
  deriving DecidableEq, Repr

/-- `Access`. -/
structure Access where
  conversation_id : Uuid
  visibility : Visibility
  archived : Bool
  last_seq : ℕ
  /-- Present when the caller is, or was, a member of this thread. -/
  membership : Option Membership
  /-- The caller can read by its project grant. -/
  by_project : Bool
  deriving DecidableEq, Repr

/-- The seat is in state `st`. -/
def Access.seated (a : Access) (st : SeatState) : Bool := a.membership.any fun m => m.state == st

/-- The seat is taken, with one of the roles of `p`. -/
def Access.acts_as (a : Access) (p : Role → Bool) : Bool :=
  a.membership.any fun m => m.state == .active && p m.role

/-- `Access::project_open`. -/
def Access.project_open (a : Access) : Bool := a.visibility != .project || a.by_project

/-- `Access::can_read`. -/
def Access.can_read (a : Access) : Bool :=
  a.project_open && (a.by_project || a.seated .active || a.seated .invited)

/-- `Access::can_read_messages`. -/
def Access.can_read_messages (a : Access) : Bool :=
  a.project_open && (a.by_project || a.seated .active)

theorem Access.can_read_messages_of_active {a : Access} {m : Membership} (hm : a.membership = some m)
    (hactive : m.state = .active) (hopen : a.visibility = .project → a.by_project = true) :
    a.can_read_messages = true := by
  have hseated : a.seated .active = true := by simp [Access.seated, hm, hactive]
  rw [Access.can_read_messages, hseated, Bool.or_true, Bool.and_true, Access.project_open]
  by_cases hproject : a.visibility = .project
  · rw [hopen hproject, Bool.or_true]
  · simp [hproject]

/-- `Access::can_send`. -/
def Access.can_send (a : Access) : Bool :=
  a.project_open && a.acts_as fun r => r == .owner || r == .moderator || r == .participant

/-- `Access::can_moderate`. -/
def Access.can_moderate (a : Access) : Bool :=
  a.project_open && a.acts_as fun r => r == .owner || r == .moderator

/-- `require_capability`. -/
def require_capability (auth : AuthCtx) (db : Db) : BusResult Unit :=
  ensure ((one (fun t => t.id == auth.team_id) db.teams).any fun t => t.conversations_enabled)
    (.Forbidden
      ("conversations are not enabled for this team. An operator turns them on with " ++
        "`ai-crew-sync team capability --team <slug> --conversations on`; until then use " ++
        "channels and direct messages."))

/-- `EXISTS (SELECT 1 FROM project_agent_access a WHERE a.project_id =
c.project_id AND a.agent_id = $2)`. -/
def granted (c : Conversation) (agent_id : Uuid) (db : Db) : Bool :=
  db.project_agent_access.any fun a => some a.project_id == c.project_id && a.agent_id == agent_id

/-- The row `access` takes for the caller's seat. A seat bound to a window is
that window's: an agent token under the same label does not find it. -/
def is_callers (auth : AuthCtx) (id : Uuid) (m : ConversationMembership) : Bool :=
  at_address id auth.agent_id auth.session m && (m.session_id.isNone || auth.session_id.isSome)

/-- The part of a seat that decides access. -/
def membership_of (m : ConversationMembership) : Membership :=
  ⟨m.id, m.role, m.state, m.history_from_seq⟩

/-- `access`. -/
def access (auth : AuthCtx) (id : Uuid) (db : Db) : BusResult Access := do
  let c ← fetch (one (fun c => c.id == id && c.team_id == auth.team_id) db.conversations)
    (.NotFound "no such conversation")
  pure {
    conversation_id := id
    visibility := c.visibility
    archived := c.archived_at.isSome
    last_seq := c.last_seq
    membership := (one (is_callers auth id) db.conversation_memberships).map membership_of
    by_project := c.visibility == .project && granted c auth.agent_id db }

/-- `readable`. -/
def readable (auth : AuthCtx) (id : Uuid) (db : Db) : BusResult Access := do
  let a ← access auth id db
  ensure a.can_read (.NotFound "no such conversation")
  pure a

/-- `require_accepted`. -/
def require_accepted (a : Access) : BusResult Unit :=
  ensure a.can_read_messages (.Forbidden
    ("you have been invited to this conversation and have not accepted. Call " ++
      "join_conversation first; an invitation is not membership, and it does not read " ++
      "what was said before you answered it."))

/-- `require_project_open`, inside a transaction. -/
def require_project_open (auth : AuthCtx) (id : Uuid) (db : Db) : BusResult Unit := do
  let c ← fetch (one (fun c => c.id == id && c.team_id == auth.team_id) db.conversations)
    (.NotFound "no such conversation")
  ensure (c.visibility != .project || granted c auth.agent_id db) (.Forbidden
    ("your access to this project has been revoked, so this conversation is closed to " ++
      "you. Nothing was written; ask someone with access to grant it again."))

/-! ## Seats change hands -/

/-- `INSERT … VALUES (…, 'owner', 'active', NULL, …)`: the creator's seat. -/
def owners_seat (now : ℕ) (auth : AuthCtx) (id seat : Uuid) : ConversationMembership :=
  { id := seat, conversation_id := id, agent_id := auth.agent_id, session := auth.session,
    session_id := auth.session_id, role := .owner, state := .active, history_from_seq := none,
    invited_by := some auth.agent_id, accepted_at := some now, ended_at := none,
    superseded_by := none, transfer_from := none }

/-- The row an offer inserts where no seat is. -/
def offered_row (id agent_id : Uuid) (session : String) (role : Role) (from_seq : Option ℕ)
    (invited_by : Uuid) (transfer_from : Option Uuid) (seat : Uuid) : ConversationMembership :=
  { id := seat, conversation_id := id, agent_id := agent_id, session := session,
    session_id := none, role := role, state := .invited, history_from_seq := from_seq,
    invited_by := some invited_by, accepted_at := none, ended_at := none,
    superseded_by := none, transfer_from := transfer_from }

/-- `state IN ('left', 'removed')`. -/
def ended (m : ConversationMembership) : Bool := m.state == .left || m.state == .removed

/-- `state IN ('invited', 'active')`. -/
def open_seat (m : ConversationMembership) : Bool := m.state == .invited || m.state == .active

/-- `DO UPDATE SET …` of an invitation. Who a standing transfer would hand the
seat over from (`transfer_from`) is not among the columns. -/
def reinvited (role : Role) (from_seq : Option ℕ) (invited_by : Uuid)
    (m : ConversationMembership) : ConversationMembership :=
  { m with
    role := role
    state := if ended m then .invited else m.state
    history_from_seq := if ended m then from_seq else m.history_from_seq
    session_id := if ended m then none else m.session_id
    invited_by := some invited_by
    ended_at := none }

/-- `DO UPDATE SET …` of a transfer. -/
def proposed (role : Role) (from_seq : Option ℕ) (source : Uuid) (m : ConversationMembership) :
    ConversationMembership :=
  { m with
    role := role, state := .invited, history_from_seq := from_seq, transfer_from := some source,
    session_id := none, ended_at := none }

/-- `SET state = 'active', …` of a join. -/
def accepted (now : ℕ) (auth : AuthCtx) (m : ConversationMembership) : ConversationMembership :=
  { m with state := .active, accepted_at := some now, session_id := auth.session_id }

/-- `SET state = 'left' | 'removed', ended_at = now()`. -/
def put_out (st : SeatState) (now : ℕ) (m : ConversationMembership) : ConversationMembership :=
  { m with state := st, ended_at := some now }

/-- `SET state = 'left', ended_at = now(), superseded_by = $3`. -/
def superseded (now : ℕ) (successor : Uuid) (m : ConversationMembership) : ConversationMembership :=
  { m with state := .left, ended_at := some now, superseded_by := some successor }

/-- `archived`, `role` and the rest of what `create_conversation` is told.
`project` is the project `project_id_for` resolved. -/
structure CreateInput where
  project : Option Uuid
  «private» : Bool
  invite : List String
  deriving DecidableEq, Repr

/-- One invitation of a creation: `ON CONFLICT … DO NOTHING`. -/
def seat_invitee (auth : AuthCtx) (id : Uuid) (t : List ConversationMembership)
    (invitee : (Uuid × String) × Uuid) : List ConversationMembership :=
  let ((agent_id, session), seat) := invitee
  if t.any (at_address id agent_id session) then t
  else insert_into (offered_row id agent_id session .participant (some 0) auth.agent_id none seat) t

/-- `create_conversation`. `id`, `seat` and `seats` are the fresh
`gen_random_uuid()`s of the thread, of its owner's seat and of the invitees'. -/
def create_conversation (now : ℕ) (seen : Db) (auth : AuthCtx) (input : CreateInput)
    (id seat : Uuid) (seats : List Uuid) (db : Db) : BusResult (Uuid × Db) := do
  require_capability auth seen
  ensure (!(input.project.isSome && input.private)) (.Invalid
    ("a conversation is either private or visible to a project, not both. Drop `project` for a " ++
      "members-only thread, or `private` for a project one."))
  ensure (input.project.isSome || input.private) (.Invalid
    ("a project conversation needs `project`; pass `private: true` for a thread " ++
      "only its members can see"))
  let invites ← input.invite.mapM fun raw => resolve_address auth raw seen
  ensure (invites.length ≤ MAX_MEMBERS) (.Invalid
    s!"a conversation holds at most {MAX_MEMBERS} members")
  guard now auth db
  ensure (input.project.all fun p => db.project_agent_access.any fun a =>
      a.project_id == p && a.agent_id == auth.agent_id) (.Forbidden
    ("your access to this project has been revoked, so you cannot open a thread in " ++
      "it. Nothing was written."))
  let team ← fetch (one (fun t => t.id == auth.team_id) db.teams) (.Db "no rows returned")
  ensure (db.conversations.all fun c => c.id != id) (.Db "duplicate key value: id")
  ensure (seats.length = invites.length ∧ (seat :: seats).Nodup ∧
      db.conversation_memberships.all fun m => !(seat :: seats).contains m.id)
    (.Db "duplicate key value: id")
  ensure (db.conversation_memberships.all fun m => !at_address id auth.agent_id auth.session m)
    (.Db "duplicate key value: conversation_id, agent_id, session")
  let row : Conversation :=
    { id := id, team_id := auth.team_id, project_id := input.project,
      visibility := if input.private then .private else .project,
      created_by := auth.agent_id, created_session := auth.session, archived_at := none,
      last_seq := 0, backend := team.default_backend,
      publication := if team.default_backend = .postgres then .sync else .outbox,
      write_paused_at := none }
  let members := insert_into (owners_seat now auth id seat) db.conversation_memberships
  pure (id, { db with
    conversations := insert_into row db.conversations
    conversation_memberships := (invites.zip seats).foldl (seat_invitee auth id) members })

/-- The role an invitation names. -/
def role_of (role : Option String) : BusResult Role :=
  match (role.map trim).filter fun r => !r.isEmpty with
  | none => .ok .participant
  | some r =>
    let r := to_lowercase r
    if r = "moderator" then .ok .moderator
    else if r = "participant" then .ok .participant
    else if r = "observer" then .ok .observer
    else .error (.Invalid
      ("role must be moderator, participant or observer. An owner is the " ++
        "creator, or someone a transfer made one."))

/-- `SELECT … WHERE conversation_id = $1 AND agent_id = $2 AND session = $3`,
inside a transaction. -/
def seat_at (id agent_id : Uuid) (session : String) (db : Db) : Option ConversationMembership :=
  one (at_address id agent_id session) db.conversation_memberships

/-- `state == "active" && (role == "owner" || role == "moderator")`. -/
def moderates (m : ConversationMembership) : Bool :=
  m.state == .active && (m.role == .owner || m.role == .moderator)

/-- The history boundary an invitation grants. -/
def granted_floor (last_seq : ℕ) (seated : Option ConversationMembership)
    (history_from_start : Bool) (inviter_floor : Option ℕ) : Option ℕ :=
  if (seated.any fun m => m.state == .removed) || !history_from_start then some last_seq
  else inviter_floor

/-- `invite`. `seat` is the fresh `gen_random_uuid()` of an insert. -/
def invite (now : ℕ) (seen : Db) (auth : AuthCtx) (id : Uuid) (address : String)
    (role : Option String) (history_from_start : Bool) (seat : Uuid) (db : Db) :
    BusResult (Unit × Db) := do
  require_capability auth seen
  let a ← readable auth id seen
  ensure a.can_moderate (.Forbidden "only an owner or moderator of this conversation can invite")
  ensure (!a.archived) (.Conflict "this conversation is archived")
  let role ← role_of role
  let (agent_id, session) ← resolve_address auth address seen
  guard now auth db
  let c ← fetch (one (fun c => c.id == id) db.conversations) (.Db "no rows returned")
  require_project_open auth id db
  let inviter ← fetch ((seat_at id auth.agent_id auth.session db).filter moderates) (.Forbidden
    ("your seat in this conversation changed while you were inviting: you no " ++
      "longer moderate it. Nothing was written."))
  ensure ((db.conversation_memberships.filter fun m => m.conversation_id == id).length < MAX_MEMBERS)
    (.Conflict s!"this conversation already holds {MAX_MEMBERS} members")
  let seated := seat_at id agent_id session db
  ensure (!(seated.any fun m => open_seat m && m.role == .owner) || inviter.role == .owner)
    (.Forbidden
      (s!"'{address}' is an owner of this conversation, and only an owner can change or " ++
        "remove another owner. Nothing was written."))
  let from_seq := granted_floor c.last_seq seated history_from_start inviter.history_from_seq
  ensure (seated.isSome || db.conversation_memberships.all fun m => m.id != seat)
    (.Db "duplicate key value: id")
  pure ((), { db with
    conversation_memberships := upsert (at_address id agent_id session)
      (reinvited role from_seq auth.agent_id)
      (offered_row id agent_id session role from_seq auth.agent_id none seat)
      db.conversation_memberships })

/-- The seats `supersede_predecessor` closes. -/
def is_predecessor (auth : AuthCtx) (id new_membership : Uuid) (db : Db)
    (p : ConversationMembership) : Bool :=
  (db.conversation_memberships.any fun n => n.id == new_membership && n.transfer_from == some p.id) &&
    p.conversation_id == id && p.agent_id == auth.agent_id && p.id != new_membership &&
    p.state == .active && p.superseded_by.isNone

/-- `supersede_predecessor`. The proposal is spent either way. -/
def supersede_predecessor (now : ℕ) (auth : AuthCtx) (id new_membership : Uuid) (db : Db) : Db :=
  { db with
    conversation_memberships :=
      update (fun n => n.id == new_membership) (fun n => { n with transfer_from := none })
        (update (is_predecessor auth id new_membership db) (superseded now new_membership)
          db.conversation_memberships) }

/-- The seats `join` takes. -/
def is_invitation (auth : AuthCtx) (id : Uuid) (m : ConversationMembership) : Bool :=
  at_address id auth.agent_id auth.session m && m.state == .invited

/-- What `join` answers when there is nothing to accept. -/
def no_invitation (auth : AuthCtx) (id : Uuid) (db : Db) : BusError :=
  match access auth id db with
  | .error e => e
  | .ok a =>
    match (a.membership.map fun m => m.state : Option SeatState) with
    | some .active => .Conflict "you are already in this conversation"
    | some .removed => .Forbidden "you were removed from this conversation"
    | _ => .NotFound
      ("no invitation for this window. An invitation is addressed to one " ++
        "agent/session; a sibling window cannot accept it for you.")

/-- `join`. Answers with the seat it took. -/
def join (now : ℕ) (seen : Db) (auth : AuthCtx) (id : Uuid) (db : Db) : BusResult (Uuid × Db) := do
  require_capability auth seen
  require_window auth seen
  guard now auth db
  require_project_open auth id db
  let n ← fetch (one (is_invitation auth id) db.conversation_memberships) (no_invitation auth id db)
  pure (n.id, supersede_predecessor now auth id n.id
    { db with
      conversation_memberships :=
        update (is_invitation auth id) (accepted now auth) db.conversation_memberships })

/-- The seats `leave` and `remove_member` close. -/
def is_open_at (id agent_id : Uuid) (session : String) (m : ConversationMembership) : Bool :=
  at_address id agent_id session m && open_seat m

/-- `leave`. Answers with the seat it gave up. -/
def leave (now : ℕ) (seen : Db) (auth : AuthCtx) (id : Uuid) (db : Db) : BusResult (Uuid × Db) := do
  require_capability auth seen
  guard now auth db
  let m ← fetch (one (is_open_at id auth.agent_id auth.session) db.conversation_memberships)
    (.NotFound "you are not in this conversation")
  pure (m.id, { db with
    conversation_memberships := update (is_open_at id auth.agent_id auth.session)
      (put_out .left now) db.conversation_memberships })

/-- `remove_member`. Answers with the seat it took away. -/
def remove_member (now : ℕ) (seen : Db) (auth : AuthCtx) (id : Uuid) (address : String) (db : Db) :
    BusResult (Uuid × Db) := do
  require_capability auth seen
  let a ← readable auth id seen
  ensure a.can_moderate (.Forbidden
    "only an owner or moderator of this conversation can remove a member")
  let (agent_id, session) ← resolve_address auth address seen
  ensure (!(agent_id == auth.agent_id && session == auth.session)) (.Invalid
    "use leave_conversation to remove yourself")
  guard now auth db
  require_project_open auth id db
  let caller ← fetch ((seat_at id auth.agent_id auth.session db).filter moderates) (.Forbidden
    ("your seat in this conversation changed while you were removing a member: you " ++
      "no longer moderate it. Nothing was written."))
  let m ← fetch (one (is_open_at id agent_id session) db.conversation_memberships)
    (.NotFound s!"'{address}' is not in this conversation")
  ensure (!(m.role == .owner) || caller.role == .owner) (.Forbidden
    "only an owner can remove another owner")
  pure (m.id, { db with
    conversation_memberships := update (is_open_at id agent_id session) (put_out .removed now)
      db.conversation_memberships })

/-- Why `transfer_membership` leaves the seat of its target alone. -/
def target_refused (address : String) (target : Option ConversationMembership) : Option BusError :=
  match (target.map fun t => t.state : Option SeatState) with
  | some .active => some (.Conflict
    (s!"'{address}' is already in this conversation with a seat of its own, so there is " ++
      "nothing to hand over; nothing was written. Keep using that window, or have " ++
      "it leave first if it should take this seat and its history instead."))
  | some .invited => some (.Conflict
    (s!"'{address}' already holds an invitation to this conversation; nothing was " ++
      "written. Accept it from that window, or have it leave first and transfer again."))
  | some .removed => some (.Forbidden
    (s!"'{address}' was removed from this conversation, and a transfer does not undo a " ++
      "removal; nothing was written."))
  | _ => none

/-- `transfer_membership`. Answers with the seat it offers and the seat it offers
it from. -/
def transfer_membership (now : ℕ) (seen : Db) (auth : AuthCtx) (id : Uuid) (address : String)
    (seat : Uuid) (db : Db) : BusResult ((Uuid × Uuid) × Db) := do
  require_capability auth seen
  let a ← readable auth id seen
  let mine ← fetch (a.membership.filter fun m => m.state == .active) (.Forbidden
    "you have no active membership in this conversation to transfer")
  let (agent_id, session) ← resolve_address auth address seen
  ensure (agent_id = auth.agent_id) (.Forbidden
    ("a membership can only be transferred to another window of the same agent. " ++
      s!"'{address}' is someone else — invite them instead, which gives them their own " ++
      "history boundary and their own receipts."))
  ensure (session ≠ auth.session) (.Invalid "that is the window you are calling from")
  guard now auth db
  require_project_open auth id db
  -- by its id: the seat that was the caller's when the request arrived
  let m ← fetch ((one (fun m => m.id == mine.id) db.conversation_memberships).filter
      fun m => m.state == .active) (.Conflict
    ("your membership of this conversation is no longer active, so there is nothing to " ++
      "transfer. Nothing was written."))
  let target := seat_at id auth.agent_id session db
  match target_refused address target with
  | some e => .error e
  | none => do
    ensure (target.isSome || db.conversation_memberships.all fun m => m.id != seat)
      (.Db "duplicate key value: id")
    pure (((target.map fun t => t.id).getD seat, mine.id), { db with
      conversation_memberships :=
        update (fun m => m.id == mine.id) (fun m => { m with superseded_by := none })
          (upsert (at_address id auth.agent_id session)
            (proposed m.role m.history_from_seq mine.id)
            (offered_row id auth.agent_id session m.role m.history_from_seq auth.agent_id
              (some mine.id) seat)
            db.conversation_memberships) })

/-! ## What each of them did -/

section Specs

variable {now : ℕ} {seen db db' : Db} {auth : AuthCtx} {id : Uuid} {a : Access} {address : String} {u : Unit}
  {role : Option String} {history_from_start : Bool} {seat n : Uuid} {q : Uuid × Uuid}

theorem access_ok (h : access auth id db = .ok a) :
    ∃ c ∈ db.conversations, c.id = id ∧ a = {
      conversation_id := id, visibility := c.visibility, archived := c.archived_at.isSome,
      last_seq := c.last_seq,
      membership := (one (is_callers auth id) db.conversation_memberships).map membership_of,
      by_project := c.visibility == .project && granted c auth.agent_id db } := by
  simp only [access, bind_eq_ok, fetch_eq_ok, pure_eq_ok] at h
  obtain ⟨c, hc, rfl⟩ := h
  have hid := pos_of_one hc
  simp only [Bool.and_eq_true, beq_iff_eq] at hid
  exact ⟨c, mem_of_one hc, hid.1, rfl⟩

theorem readable_ok (h : readable auth id db = .ok a) : access auth id db = .ok a ∧ a.can_read = true := by
  simp only [readable, bind_eq_ok, ensure_eq_ok, pure_eq_ok] at h
  obtain ⟨a, ha, _, hread, rfl⟩ := h
  exact ⟨ha, hread⟩

/-- An address names an agent of the caller's team. -/
theorem resolve_address_ok {session : String} {agent_id : Uuid}
    (h : resolve_address auth address db = .ok (agent_id, session)) :
    ∃ a ∈ db.agents, a.id = agent_id ∧ a.team_id = auth.team_id := by
  simp only [resolve_address, agent_id_by_name, bind_eq_ok, fetch_eq_ok, pure_eq_ok, Prod.mk.injEq] at h
  obtain ⟨⟨name, o⟩, -, k, ⟨a, ha, rfl⟩, rfl, -⟩ := h
  have hname := pos_of_one ha
  rw [Bool.and_eq_true, beq_iff_eq] at hname
  exact ⟨a, mem_of_one ha, rfl, hname.1⟩

theorem require_project_open_ok (h : require_project_open auth id db = .ok u) :
    ∃ c ∈ db.conversations, c.id = id ∧ c.team_id = auth.team_id := by
  simp only [require_project_open, bind_eq_ok, ensure_eq_ok, fetch_eq_ok] at h
  obtain ⟨c, hc, -⟩ := h
  have hid := pos_of_one hc
  simp only [Bool.and_eq_true, beq_iff_eq] at hid
  exact ⟨c, mem_of_one hc, hid⟩

/-- An invitation rewrites the seat at its address, or adds one there. -/
theorem invite_ok (h : invite now seen auth id address role history_from_start seat db = .ok (u, db')) :
    ∃ r agent_id session c inviter,
      role_of role = .ok r ∧ resolve_address auth address seen = .ok (agent_id, session) ∧
      one (fun c => c.id == id) db.conversations = some c ∧
      seat_at id auth.agent_id auth.session db = some inviter ∧
      ((seat_at id agent_id session db).isSome = true ∨
        ∀ m ∈ db.conversation_memberships, m.id ≠ seat) ∧
      db' = { db with
        conversation_memberships := upsert (at_address id agent_id session)
          (reinvited r (granted_floor c.last_seq (seat_at id agent_id session db)
            history_from_start inviter.history_from_seq) auth.agent_id)
          (offered_row id agent_id session r (granted_floor c.last_seq
            (seat_at id agent_id session db) history_from_start inviter.history_from_seq)
            auth.agent_id none seat)
          db.conversation_memberships } := by
  simp only [invite, bind_eq_ok, ensure_eq_ok, fetch_eq_ok, pure_eq_ok, Prod.mk.injEq] at h
  obtain ⟨_, -, a, -, _, -, _, -, r, hr, ⟨agent_id, session⟩, haddr, _, -, c, hc, _, -, inviter,
    hinv, _, -, _, -, _, hfresh, -, rfl⟩ := h
  refine ⟨r, agent_id, session, c, inviter, hr, haddr, hc, ?_, by simpa using hfresh, rfl⟩
  exact (Option.filter_eq_some_iff.mp hinv).1

theorem invite_team (h : invite now seen auth id address role history_from_start seat db = .ok (u, db')) :
    ∃ c ∈ db.conversations, c.id = id ∧ c.team_id = auth.team_id := by
  simp only [invite, bind_eq_ok] at h
  obtain ⟨_, -, a, -, _, -, _, -, r, -, ⟨agent_id, session⟩, -, _, -, c, -, _, hopen, -⟩ := h
  exact require_project_open_ok hopen

/-- An invitation never makes an owner. -/
theorem role_of_ok {r : Role} (h : role_of role = .ok r) : r ≠ .owner := by
  unfold role_of at h
  split at h
  · rw [← Except.ok.inj h]
    decide
  · simp only at h
    split at h
    · rw [← Except.ok.inj h]
      decide
    · split at h
      · rw [← Except.ok.inj h]
        decide
      · split at h
        · rw [← Except.ok.inj h]
          decide
        · cases h

/-- Whose invitation it is: of a seat that moderates, and of an owner's where it is to an
owner's open seat. -/
theorem invite_moderates (h : invite now seen auth id address role history_from_start seat db = .ok (u, db')) :
    ∃ agent_id session inviter, resolve_address auth address seen = .ok (agent_id, session) ∧
      seat_at id auth.agent_id auth.session db = some inviter ∧ moderates inviter = true ∧
      ((seat_at id agent_id session db).any (fun m => open_seat m && m.role == .owner) = true →
        inviter.role = .owner) := by
  simp only [invite, bind_eq_ok, ensure_eq_ok, fetch_eq_ok] at h
  obtain ⟨_, -, a, -, _, -, _, -, r, -, ⟨agent_id, session⟩, haddr, _, -, c, -, _, -, inviter,
    hinv, _, -, _, howner, -⟩ := h
  obtain ⟨hseat, hmod⟩ := Option.filter_eq_some_iff.mp hinv
  refine ⟨agent_id, session, inviter, haddr, hseat, hmod, fun hany => ?_⟩
  simpa [hany] using howner

theorem join_ok (h : join now seen auth id db = .ok (n, db')) :
    ∃ m, one (is_invitation auth id) db.conversation_memberships = some m ∧ n = m.id ∧
      db' = supersede_predecessor now auth id m.id { db with
        conversation_memberships :=
          update (is_invitation auth id) (accepted now auth) db.conversation_memberships } := by
  simp only [join, bind_eq_ok, fetch_eq_ok, pure_eq_ok, Prod.mk.injEq] at h
  obtain ⟨_, -, _, -, _, -, _, -, m, hm, rfl, rfl⟩ := h
  exact ⟨m, hm, rfl, rfl⟩

theorem leave_ok (h : leave now seen auth id db = .ok (n, db')) :
    db' = { db with
      conversation_memberships := update (is_open_at id auth.agent_id auth.session)
        (put_out .left now) db.conversation_memberships } := by
  simp only [leave, bind_eq_ok, fetch_eq_ok, pure_eq_ok, Prod.mk.injEq] at h
  obtain ⟨_, -, _, -, _, -, -, rfl⟩ := h
  rfl

theorem remove_member_ok (h : remove_member now seen auth id address db = .ok (n, db')) :
    ∃ agent_id session m, resolve_address auth address seen = .ok (agent_id, session) ∧
      one (is_open_at id agent_id session) db.conversation_memberships = some m ∧ n = m.id ∧
      (∃ c ∈ db.conversations, c.id = id) ∧
      db' = { db with
        conversation_memberships := update (is_open_at id agent_id session)
          (put_out .removed now) db.conversation_memberships } := by
  simp only [remove_member, require_project_open, bind_eq_ok, ensure_eq_ok, fetch_eq_ok,
    pure_eq_ok, Prod.mk.injEq] at h
  obtain ⟨_, -, a, -, _, -, ⟨agent_id, session⟩, haddr, _, -, _, -, _, ⟨c, hc, -⟩, _, -, m, hm, _, -,
    rfl, rfl⟩ := h
  have hid := pos_of_one hc
  simp only [Bool.and_eq_true, beq_iff_eq] at hid
  exact ⟨agent_id, session, m, haddr, hm, rfl, ⟨c, mem_of_one hc, hid.1⟩, rfl⟩

/-- Whose removal it is: of another seat that moderates, and of an owner's where it is of an
owner's. -/
theorem remove_member_moderates (h : remove_member now seen auth id address db = .ok (n, db')) :
    ∃ agent_id session caller m, resolve_address auth address seen = .ok (agent_id, session) ∧
      (agent_id, session) ≠ (auth.agent_id, auth.session) ∧
      seat_at id auth.agent_id auth.session db = some caller ∧ moderates caller = true ∧
      one (is_open_at id agent_id session) db.conversation_memberships = some m ∧
      (m.role = .owner → caller.role = .owner) := by
  simp only [remove_member, bind_eq_ok, ensure_eq_ok, fetch_eq_ok] at h
  obtain ⟨_, -, a, -, _, -, ⟨agent_id, session⟩, haddr, _, hother, _, -, _, -, caller, hcaller, m, hm,
    _, howner, -⟩ := h
  obtain ⟨hseat, hmod⟩ := Option.filter_eq_some_iff.mp hcaller
  refine ⟨agent_id, session, caller, m, haddr, fun heq => ?_, hseat, hmod, hm, fun hrole => ?_⟩
  · rw [Prod.mk.injEq] at heq
    simp [heq.1, heq.2] at hother
  · simpa [hrole] using howner

theorem transfer_membership_team (h : transfer_membership now seen auth id address seat db = .ok (q, db')) :
    ∃ c ∈ db.conversations, c.id = id ∧ c.team_id = auth.team_id := by
  simp only [transfer_membership, bind_eq_ok] at h
  obtain ⟨_, -, a, -, mine, -, ⟨agent_id, session⟩, -, _, -, _, -, _, -, _, hopen, -⟩ := h
  exact require_project_open_ok hopen

/-- A transfer goes from a seat the caller held in this thread, active at the
commit, to another window's, which no one holds. -/
theorem transfer_membership_ok (h : transfer_membership now seen auth id address seat db = .ok (q, db')) :
    ∃ a mine m session, readable auth id seen = .ok a ∧ a.membership = some mine ∧
      resolve_address auth address seen = .ok (auth.agent_id, session) ∧ session ≠ auth.session ∧
      one (fun m => m.id == mine.id) db.conversation_memberships = some m ∧ m.state = .active ∧
      target_refused address (seat_at id auth.agent_id session db) = none ∧
      ((seat_at id auth.agent_id session db).isSome = true ∨
        ∀ m ∈ db.conversation_memberships, m.id ≠ seat) ∧
      q = (((seat_at id auth.agent_id session db).map fun t => t.id).getD seat, mine.id) ∧
      db' = { db with
        conversation_memberships :=
          update (fun m => m.id == mine.id) (fun m => { m with superseded_by := none })
            (upsert (at_address id auth.agent_id session)
              (proposed m.role m.history_from_seq mine.id)
              (offered_row id auth.agent_id session m.role m.history_from_seq auth.agent_id
                (some mine.id) seat)
              db.conversation_memberships) } := by
  simp only [transfer_membership, bind_eq_ok, ensure_eq_ok, fetch_eq_ok] at h
  obtain ⟨_, -, a, ha, mine, hmine, ⟨agent_id, session⟩, haddr, _, hagent, _, hsession, _, -, _, -,
    m, hm, h⟩ := h
  split at h
  · cases h
  rename_i hok
  simp only [bind_eq_ok, ensure_eq_ok, pure_eq_ok, Prod.mk.injEq] at h
  obtain ⟨_, hfresh, rfl, rfl⟩ := h
  obtain ⟨hmem, -⟩ := Option.filter_eq_some_iff.mp hmine
  obtain ⟨hone, hactive⟩ := Option.filter_eq_some_iff.mp hm
  simp only at hagent
  subst hagent
  exact ⟨a, mine, m, session, ha, hmem, haddr, hsession, hone, by simpa using hactive, hok,
    by simpa using hfresh, rfl, rfl⟩

end Specs

end CrewSync.Conversations

/-- The crew with Ada's thread, in which she has the seat. -/
def CrewSync.Crew.seated (backend : CrewSync.Schema.Backend) (session : String) : CrewSync.Schema.Db :=
  { pair backend with
    conversations := [{ thread backend with created_session := session }]
    conversation_memberships := [CrewSync.Conversations.owners_seat 0 (caller 1 "ada" session) 7 10] }
