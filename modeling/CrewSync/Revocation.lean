/-
Access to a project is given and taken away while its threads are written to.

Every call is let in before its transaction begins, on a database that may be out
of date, and looks again inside the transaction. What it looks at then is one row,
the caller's grant, and it is locked as it is read: shared by the eight operations
that write to a thread, for itself by `set_project_access`, which also takes the
row it deletes. A send reads the grants of those it is about to list in the same
way, one after the other.

So a transaction is a sequence of **statements** here, and transactions overlap.
The operations are those of the other modules; what this file adds is which grants
they see. An operation is worked out when it commits, on the committed database,
but with the grants its own statements found: the rows it locked when it read
them, whatever was committed since. A send also keeps the seats it listed.

A statement that finds its row locked by another waits: it has no step.
-/
import CrewSync.Runs
import CrewSync.RowLocks
import CrewSync.Projects
import CrewSync.Receipts

set_option autoImplicit false

namespace CrewSync.Revocation

open Error Schema Rows
open Conversations Send Receipts Projects
open RowLocks Runs Crew

/-! ## Calls -/

/-- A call that writes to a thread, or changes who has a project. -/
inductive Call where
  | create_conversation (input : CreateInput) (id seat : Uuid) (seats : List Uuid)
  | send (id : Uuid) (input : SendInput) (message_id publish_key : Uuid)
  | ack (message_id : Uuid) (resolved : Bool) (note : Option String)
  | invite (id : Uuid) (address : String) (role : Option String) (history_from_start : Bool)
      (seat : Uuid)
  | join (id : Uuid)
  | remove_member (id : Uuid) (address : String)
  | transfer_membership (id : Uuid) (address : String) (seat : Uuid)
  | archive_conversation (id : Uuid)
  | set_project_access (project : ProjectName) (agent : String) (grant : Bool)

/-- The call changes who has a project. -/
def Call.changes_access : Call → Bool
  | .set_project_access _ _ _ => true
  | _ => false

theorem changes_access_iff {call : Call} : call.changes_access = true ↔
    ∃ project agent grant, call = .set_project_access project agent grant := by
  cases call <;> simp [Call.changes_access]

/-- The call gives somebody a project. -/
def Call.gives_access : Call → Bool
  | .set_project_access _ _ grant => grant
  | _ => false

/-- The thread a call is about, of those that are about one. -/
def Call.thread (seen : Db) : Call → Option Uuid
  | .send id _ _ _ | .invite id _ _ _ _ | .join id | .remove_member id _
  | .transfer_membership id _ _ | .archive_conversation id => some id
  | .ack message_id _ _ =>
    (one (fun m => m.id == message_id) seen.conversation_messages).map fun m => m.conversation_id
  | .create_conversation _ _ _ _ | .set_project_access _ _ _ => none

/-- The project of a thread, if the thread is one of a project. -/
def project_of (auth : AuthCtx) (id : Uuid) (db : Db) : Option Uuid :=
  (one (fun c => c.id == id && c.team_id == auth.team_id) db.conversations).bind fun c =>
    if c.visibility = .project then c.project_id else none

/-- The project whose grant the caller needs. -/
def governed (seen : Db) (auth : AuthCtx) (call : Call) (db : Db) : Option Uuid :=
  match call with
  | .create_conversation input _ _ _ => input.project
  | .set_project_access project _ _ =>
    match project_id_for auth project seen with
    | .ok p => some p
    | .error _ => none
  | call => (call.thread seen).bind fun id => project_of auth id db

section Run

variable (sha256 : String → String)

/-- The call, as its operation. -/
def run_call (now : ℕ) (seen : Db) (auth : AuthCtx) (call : Call) (db : Db) : BusResult Db :=
  match call with
  | .create_conversation input id seat seats =>
    (create_conversation now seen auth input id seat seats db).map Prod.snd
  | .send id input message_id key => (send sha256 now seen auth id input message_id key db).map Prod.snd
  | .ack message_id resolved note => (ack now seen auth message_id resolved note db).map Prod.snd
  | .invite id address role history_from_start seat =>
    (invite now seen auth id address role history_from_start seat db).map Prod.snd
  | .join id => (join now seen auth id db).map Prod.snd
  | .remove_member id address => (remove_member now seen auth id address db).map Prod.snd
  | .transfer_membership id address seat =>
    (transfer_membership now seen auth id address seat db).map Prod.snd
  | .archive_conversation id => (archive_conversation now seen auth id db).map Prod.snd
  | .set_project_access project agent grant =>
    (set_project_access now seen auth project agent grant db).map Prod.snd

end Run

/-! ## Transactions -/

/-- The key a grant is locked under. -/
def grant_key (g : ProjectAgentAccess) : Uuid × Uuid := (g.project_id, g.agent_id)

/-- How far a transaction has come. -/
inductive Stage where
  /-- It has begun. -/
  | opened
  /-- It has looked for the caller's grant. -/
  | locked
  /-- A send lists the seats it found; these grants are still to be read. -/
  | listing (seats : List ConversationMembership) (todo : List (Uuid × Uuid))
  /-- A change of access has written. -/
  | written

/-- A transaction that is under way. -/
structure Tx where
  xid : ℕ
  now : ℕ
  /-- What the call was let in by. -/
  seen : Db
  auth : AuthCtx
  call : Call
  stage : Stage
  /-- The grants it has read. -/
  locks : Locks ProjectAgentAccess
  /-- A grant it found already there when it was to insert it. -/
  noticed : List ProjectAgentAccess

/-- The seats a send has listed. -/
def Tx.seats (t : Tx) : Option (List ConversationMembership) :=
  match t.stage with
  | .listing seats _ => some seats
  | _ => none

/-- The database as the operation sees it. -/
def Tx.view (t : Tx) (db : Db) : Db :=
  { db with
    project_agent_access := t.locks.rows ++ t.noticed
    conversation_memberships := t.seats.getD db.conversation_memberships }

/-- What became of a grant between two tables. -/
def lost (before after : List ProjectAgentAccess) (g : ProjectAgentAccess) : Bool :=
  before.any (fun x => grant_key x == grant_key g) && !after.any fun x => grant_key x == grant_key g

/-- The table `t`, changed as `before` was changed to `after`. -/
def rewritten (before after t : List ProjectAgentAccess) : List ProjectAgentAccess :=
  delete (lost before after) t ++
    after.filter fun g => !(before ++ t).any fun x => grant_key x == grant_key g

/-- What a transaction leaves of the committed database. -/
def Tx.merge (t : Tx) (db db' : Db) : Db :=
  { db' with
    project_agent_access := rewritten (t.view db).project_agent_access db'.project_agent_access
      db.project_agent_access
    conversation_memberships :=
      if t.seats.isSome then db.conversation_memberships else db'.conversation_memberships }

/-- Nothing is left to do but to commit. -/
def Tx.ready (t : Tx) : Bool :=
  match t.call, t.stage with
  | .set_project_access _ _ _, .written => true
  | .set_project_access _ _ _, _ => false
  | .send _ _ _ _, .listing _ [] => true
  | .send _ _ _ _, _ => false
  | _, .locked => true
  | _, _ => false

/-! ## The system -/

/-- The state of the system. -/
structure Sys extends Committed Db where
  txs : List Tx

/-- What can happen next. -/
inductive Act where
  /-- A call that was let in `seen` commits ago begins its transaction. -/
  | begin (x seen now : ℕ) (auth : AuthCtx) (call : Call)
  /-- The next statement of a transaction. -/
  | statement (x : ℕ)
  /-- The rest of the operation, and the commit. An operation that is refused
  rolls back. -/
  | commit (x : ℕ)
  /-- A transaction is given up: its process died, or it was the one picked out of
  a deadlock. -/
  | rollback (x : ℕ)
  /-- Any other part of the server commits. -/
  | other (db' : Db)

/-- The state in which nothing is under way. -/
def Sys.start (db : Db) : Sys := { db := db, past := [], txs := [] }

/-- The transaction of a number. -/
def Sys.tx (s : Sys) (x : ℕ) : Option Tx := one (fun t => t.xid == x) s.txs

/-- `SELECT … FOR SHARE` of one grant. A grant that is not there is not found. -/
def Sys.share (s : Sys) (k : Uuid × Uuid) (t : Tx) : Option Tx :=
  match one (fun g => grant_key g == k) s.db.project_agent_access with
  | none => some t
  | some g =>
    if free_to_share grant_key Tx.xid Tx.locks (grant_key g) t.xid s.txs then
      some { t with locks := t.locks.share g }
    else none

/-- `SELECT … FOR UPDATE` of one grant, or its `DELETE`. -/
def Sys.take (s : Sys) (k : Uuid × Uuid) (t : Tx) : Option Tx :=
  match one (fun g => grant_key g == k) s.db.project_agent_access with
  | none => some t
  | some g =>
    if free_to_take grant_key Tx.xid Tx.locks (grant_key g) t.xid s.txs then
      some { t with locks := t.locks.take g }
    else none

/-- The caller's own grant is looked up. -/
def Sys.lock_own (s : Sys) (t : Tx) : Option Tx :=
  let t := { t with stage := .locked }
  match governed t.seen t.auth t.call s.db with
  | none => some t
  | some p =>
    if t.call.changes_access then s.take (p, t.auth.agent_id) t
    else s.share (p, t.auth.agent_id) t

/-- The grants a send is going to look up: those of the seats it addresses, in a
project thread. A repeat addresses nobody. -/
def Sys.to_list (s : Sys) (auth : AuthCtx) (id : Uuid) (input : SendInput) : List (Uuid × Uuid) :=
  if s.db.conversation_messages.any fun m =>
      m.conversation_id == id && m.request_id == input.request_id then []
  else
    match project_of auth id s.db, one (fun c => c.id == id) s.db.conversations with
    | some p, some c => (addressed auth c s.db).map fun m => (p, m.agent_id)
    | _, _ => []

/-- `set_project_access`, from the caller's own grant on. -/
def Sys.write (s : Sys) (project : ProjectName) (agent : String) (grant : Bool) (t : Tx) :
    Option Tx :=
  let t := { t with stage := .written }
  match project_id_for t.auth project t.seen, agent_id_by_name t.auth.team_id agent t.seen with
  | .ok p, .ok target =>
    -- without the caller's own grant, or against themselves, nothing is written
    if t.locks.taken.isEmpty || target == t.auth.agent_id then some t
    else if grant then
      -- `ON CONFLICT DO NOTHING` locks nothing, so what it finds may go
      some { t with noticed := (one (is_grant p target) s.db.project_agent_access).toList }
    else s.take (p, target) t
  | _, _ => some t

/-- The next statement of a transaction. -/
def Sys.next (s : Sys) (t : Tx) : Option Tx :=
  match t.stage, t.call with
  | .opened, _ => s.lock_own t
  | .locked, .send id input _ _ => some { t with
      stage := .listing s.db.conversation_memberships (s.to_list t.auth id input) }
  | .listing seats (k :: todo), .send _ _ _ _ => s.share k { t with stage := .listing seats todo }
  | .locked, .set_project_access project agent grant => s.write project agent grant t
  | _, _ => none

/-- The transaction has moved. -/
def Sys.put (s : Sys) (t : Tx) : Sys := { s with txs := update (fun b => b.xid == t.xid) (fun _ => t) s.txs }

/-- The transaction is over. -/
def Sys.drop (s : Sys) (x : ℕ) : Sys := { s with txs := delete (fun b => b.xid == x) s.txs }

/-- Nothing gets past a row lock. -/
def Sys.keeps_locked (s : Sys) (db' : Db) : Bool :=
  s.txs.all fun t => t.locks.rows.all fun g => db'.project_agent_access.contains g

section Step

variable (sha256 : String → String)

/-- What the operation of a transaction comes to. -/
def Tx.outcome (t : Tx) (db : Db) : BusResult Db :=
  run_call sha256 t.now t.seen t.auth t.call (t.view db)

/-- A transaction commits, or is refused and rolls back. -/
def Sys.commit (s : Sys) (t : Tx) : Sys :=
  match t.outcome sha256 s.db with
  | .error _ => s.drop t.xid
  | .ok db' => { s.drop t.xid with toCommitted := s.push (t.merge s.db db') }

/-- One step. -/
def step (s : Sys) : Act → Option Sys
  | .begin x seen now auth call => do
    let v ← s.view seen
    if s.txs.any fun t => t.xid == x then none
    else some { s with txs := insert_into ⟨x, now, v, auth, call, .opened, Locks.none, []⟩ s.txs }
  | .statement x => do
    let t ← s.tx x
    let t' ← s.next t
    pure (s.put t')
  | .commit x => do
    let t ← s.tx x
    if t.ready then some (s.commit sha256 t) else none
  | .rollback x => (s.tx x).map fun _ => s.drop x
  | .other db' =>
    if s.keeps_locked db' then some { s with toCommitted := s.push db' } else none

end Step

/-! ## What the operations do with grants -/

section Operations

variable {sha256 : String → String} {now : ℕ} {seen db db' : Db} {auth : AuthCtx} {id p message_id key seat n : Uuid}
  {input : SendInput} {r : SentMessage} {address : String} {call : Call}

theorem map_snd_ok {α : Type} {res : BusResult (α × Db)} (h : res.map Prod.snd = .ok db') :
    ∃ a, res = .ok (a, db') := by
  cases res with
  | error e => exact absurd h (by simp [Except.map])
  | ok q =>
    simp only [Except.map, Except.ok.injEq] at h
    exact ⟨q.1, by rw [← h]⟩

/-- A thread of a project is open to those who have the project. -/
theorem open_granted (h : require_project_open auth id db = .ok ()) (hp : project_of auth id db = some p) :
    db.project_agent_access.any (is_grant p auth.agent_id) = true := by
  simp only [require_project_open, bind_eq_ok, fetch_eq_ok, ensure_eq_ok] at h
  obtain ⟨c, hc, hgrant⟩ := h
  rw [project_of, hc, Option.bind_some] at hp
  split at hp
  · rename_i hvis
    rw [hvis, granted, hp] at hgrant
    simpa [is_grant] using hgrant
  · cases hp

theorem send_open (h : send sha256 now seen auth id input message_id key db = .ok (r, db')) :
    require_project_open auth id db = .ok () := by
  simp only [send, bind_eq_ok] at h
  obtain ⟨_, -, a, -, _, -, _, -, body, -, _, -, _, -, c, -, _, -, _, -, _, hopen, -⟩ := h
  exact hopen

theorem invite_open {role : Option String} {start : Bool}
    {u : Unit} (h : invite now seen auth id address role start seat db = .ok (u, db')) :
    require_project_open auth id db = .ok () := by
  simp only [invite, bind_eq_ok] at h
  obtain ⟨_, -, a, -, _, -, _, -, r, -, _, -, _, -, c, -, _, hopen, -⟩ := h
  exact hopen

theorem join_open (h : join now seen auth id db = .ok (n, db')) :
    require_project_open auth id db = .ok () := by
  simp only [join, bind_eq_ok] at h
  obtain ⟨_, -, _, -, _, -, _, hopen, -⟩ := h
  exact hopen

theorem remove_member_open (h : remove_member now seen auth id address db = .ok (n, db')) :
    require_project_open auth id db = .ok () := by
  simp only [remove_member, bind_eq_ok] at h
  obtain ⟨_, -, a, -, _, -, _, -, _, -, _, -, _, hopen, -⟩ := h
  exact hopen

theorem transfer_membership_open {q : Uuid × Uuid}
    (h : transfer_membership now seen auth id address seat db = .ok (q, db')) :
    require_project_open auth id db = .ok () := by
  simp only [transfer_membership, bind_eq_ok] at h
  obtain ⟨_, -, a, -, mine, -, _, -, _, -, _, -, _, -, _, hopen, -⟩ := h
  exact hopen

/-- A thread is opened in a project by someone who has it, and no grant changes. -/
theorem create_conversation_granted {input : CreateInput} {u : Uuid} {seats : List Uuid}
    (h : create_conversation now seen auth input id seat seats db = .ok (u, db')) : (∀ p, input.project = some p →
      db.project_agent_access.any (is_grant p auth.agent_id) = true) ∧
    db'.project_agent_access = db.project_agent_access ∧ db'.projects = db.projects := by
  simp only [create_conversation, bind_eq_ok, ensure_eq_ok, fetch_eq_ok, pure_eq_ok,
    Prod.mk.injEq] at h
  obtain ⟨_, -, _, -, _, -, invites, -, _, -, _, -, _, hgrant, team, -, _, -, _, -, _, -, -, rfl⟩ := h
  refine ⟨fun p hp => ?_, rfl, rfl⟩
  rw [hp] at hgrant
  simpa [is_grant] using hgrant

/-- Every one of the operations is refused without the grant. -/
theorem run_call_granted (h : run_call sha256 now seen auth call db = .ok db')
    (hp : governed seen auth call db = some p) :
    db.project_agent_access.any (is_grant p auth.agent_id) = true := by
  cases call with
  | create_conversation input id seat seats =>
    obtain ⟨u, h⟩ := map_snd_ok h
    exact (create_conversation_granted h).1 p hp
  | send id input message_id key =>
    obtain ⟨r, h⟩ := map_snd_ok h
    exact open_granted (send_open h) hp
  | ack message_id resolved note =>
    obtain ⟨k, h⟩ := map_snd_ok h
    obtain ⟨m, a, mine, text, events, hm, -, -, -, -, -, hopen, -⟩ := ack_ok h
    simp only [governed, Call.thread, hm, Option.map_some, Option.bind_some] at hp
    exact open_granted hopen hp
  | invite id address role start seat =>
    obtain ⟨u, h⟩ := map_snd_ok h
    exact open_granted (invite_open h) hp
  | join id =>
    obtain ⟨n, h⟩ := map_snd_ok h
    exact open_granted (join_open h) hp
  | remove_member id address =>
    obtain ⟨n, h⟩ := map_snd_ok h
    exact open_granted (remove_member_open h) hp
  | transfer_membership id address seat =>
    obtain ⟨q, h⟩ := map_snd_ok h
    exact open_granted (transfer_membership_open h) hp
  | archive_conversation id =>
    obtain ⟨u, h⟩ := map_snd_ok h
    exact open_granted (archive_conversation_ok h).1 hp
  | set_project_access project agent grant =>
    obtain ⟨u, h⟩ := map_snd_ok h
    obtain ⟨q, target, hq, -, hmine, -, -⟩ := set_project_access_ok h
    simp only [governed, hq, Option.some.injEq] at hp
    rw [← hp]
    exact hmine

/-- What a send adds to a project's thread is addressed to seats whose agents have
the project. -/
theorem send_addresses (h : send sha256 now seen auth id input message_id key db = .ok (r, db')) {x : MessageRecipient}
    (hx : x ∈ db'.message_recipients) (hnew : x ∉ db.message_recipients) {c : Conversation}
    (hc : one (fun c => c.id == id) db.conversations = some c) (hvis : c.visibility = .project) :
    granted c x.agent_id db = true := by
  have hlisted : ∀ c' body, one (fun c => c.id == id) db.conversations = some c' →
      x ∈ (with_message sha256 now auth c' input body message_id db).message_recipients →
      granted c x.agent_id db = true := by
    intro c' body hc' hx
    rw [hc] at hc'
    rw [← Option.some.inj hc'] at hx
    rcases List.mem_append.mp hx with hx | hx
    · exact absurd hx hnew
    · obtain ⟨m, hm, rfl⟩ := List.mem_map.mp hx
      have hm := (List.mem_filter.mp hm).2
      simp only [hvis, Bool.and_eq_true, Bool.or_eq_true, bne_self_eq_false, Bool.false_eq_true,
        false_or] at hm
      exact hm.2
  rcases send_ok h with rfl | ⟨c', body, hc', -, -, -, ⟨-, rfl⟩ | ⟨-, hq⟩⟩
  · exact absurd hx hnew
  · exact hlisted c' body hc' hx
  · rw [enqueue_ok hq] at hx
    exact hlisted c' body hc' hx

/-- Only `set_project_access` writes grants, and none of them writes projects. -/
theorem run_call_frame (h : run_call sha256 now seen auth call db = .ok db') :
    (call.changes_access = false → db'.project_agent_access = db.project_agent_access) ∧
      db'.projects = db.projects := by
  cases call with
  | create_conversation input id seat seats =>
    obtain ⟨u, h⟩ := map_snd_ok h
    exact ⟨fun _ => (create_conversation_granted h).2.1, (create_conversation_granted h).2.2⟩
  | send id input message_id key =>
    obtain ⟨r, h⟩ := map_snd_ok h
    rcases send_ok h with rfl | ⟨c, body, -, -, -, -, ⟨-, rfl⟩ | ⟨-, hq⟩⟩
    · exact ⟨fun _ => rfl, rfl⟩
    · exact ⟨fun _ => rfl, rfl⟩
    · rw [enqueue_ok hq]
      exact ⟨fun _ => rfl, rfl⟩
  | ack message_id resolved note =>
    obtain ⟨k, h⟩ := map_snd_ok h
    obtain ⟨m, a, mine, text, events, -, -, -, -, -, -, -, -, rfl⟩ := ack_ok h
    exact ⟨fun _ => rfl, rfl⟩
  | invite id address role start seat =>
    obtain ⟨u, h⟩ := map_snd_ok h
    obtain ⟨r, agent_id, session, c, inviter, -, -, -, -, -, rfl⟩ := invite_ok h
    exact ⟨fun _ => rfl, rfl⟩
  | join id =>
    obtain ⟨n, h⟩ := map_snd_ok h
    obtain ⟨m, -, -, rfl⟩ := join_ok h
    exact ⟨fun _ => rfl, rfl⟩
  | remove_member id address =>
    obtain ⟨n, h⟩ := map_snd_ok h
    obtain ⟨agent_id, session, m, -, -, -, -, rfl⟩ := remove_member_ok h
    exact ⟨fun _ => rfl, rfl⟩
  | transfer_membership id address seat =>
    obtain ⟨q, h⟩ := map_snd_ok h
    obtain ⟨a, mine, m, session, -, -, -, -, -, -, -, -, -, rfl⟩ := transfer_membership_ok h
    exact ⟨fun _ => rfl, rfl⟩
  | archive_conversation id =>
    obtain ⟨u, h⟩ := map_snd_ok h
    rw [(archive_conversation_ok h).2]
    exact ⟨fun _ => rfl, rfl⟩
  | set_project_access project agent grant =>
    obtain ⟨u, h⟩ := map_snd_ok h
    obtain ⟨p, target, -, -, -, -, rfl⟩ := set_project_access_ok h
    exact ⟨fun hcall => absurd hcall (by simp [Call.changes_access]), rfl⟩

/-- No call but `set_project_access` writes a grant. -/
theorem run_call_grants (h : run_call sha256 now seen auth call db = .ok db')
    (hcall : call.changes_access = false) : db'.project_agent_access = db.project_agent_access :=
  (run_call_frame h).1 hcall

end Operations

/-! ## The invariant -/

/-- What a transaction may have read of the grants, by the call it is for. -/
structure Sound (t : Tx) : Prop where
  /-- A change of access reads no grant shared: it takes the rows it reads. -/
  shared : t.call.changes_access = true → t.locks.shared = []
  /-- Only a grant notices a row it does not lock, and never the caller's own. -/
  noticed : t.noticed ≠ [] → t.call.gives_access = true
  others : ∀ g ∈ t.noticed, g.agent_id ≠ t.auth.agent_id

/-- What holds in every reachable state. -/
structure Inv (s : Sys) : Prop where
  held : Held grant_key Tx.xid Tx.locks s.db.project_agent_access s.txs
  sound : ∀ t ∈ s.txs, Sound t

/-- What a statement does to its transaction: it moves on, and with at most one row
more than before. -/
inductive Moved (s : Sys) (t : Tx) : Tx → Prop
  | on (stage : Stage) : Moved s t { t with stage := stage }
  | share (stage : Stage) {g : ProjectAgentAccess} : g ∈ s.db.project_agent_access →
      free_to_share grant_key Tx.xid Tx.locks (grant_key g) t.xid s.txs = true →
      t.call.changes_access = false →
      Moved s t { t with stage := stage, locks := t.locks.share g }
  | take (stage : Stage) {g : ProjectAgentAccess} : g ∈ s.db.project_agent_access →
      free_to_take grant_key Tx.xid Tx.locks (grant_key g) t.xid s.txs = true →
      Moved s t { t with stage := stage, locks := t.locks.take g }
  | notice (stage : Stage) {l : List ProjectAgentAccess} : t.call.gives_access = true →
      (∀ g ∈ l, g.agent_id ≠ t.auth.agent_id) →
      Moved s t { t with stage := stage, noticed := l }

section Invariant

variable {s : Sys} {t t' : Tx} {k : Uuid × Uuid} {stage : Stage}

theorem share_moved (h : s.share k { t with stage := stage } = some t')
    (hcall : t.call.changes_access = false) : Moved s t t' := by
  unfold Sys.share at h
  split at h
  · rw [← Option.some.inj h]
    exact .on stage
  · rename_i g hg
    split at h
    · rename_i hfree
      rw [← Option.some.inj h]
      exact .share stage (mem_of_one hg) hfree hcall
    · cases h

theorem take_moved (h : s.take k { t with stage := stage } = some t') : Moved s t t' := by
  unfold Sys.take at h
  split at h
  · rw [← Option.some.inj h]
    exact .on stage
  · rename_i g hg
    split at h
    · rename_i hfree
      rw [← Option.some.inj h]
      exact .take stage (mem_of_one hg) hfree
    · cases h

theorem lock_own_moved (h : s.lock_own t = some t') : Moved s t t' := by
  unfold Sys.lock_own at h
  simp only at h
  split at h
  · rw [← Option.some.inj h]
    exact .on _
  · split at h
    · exact take_moved h
    · rename_i hcall
      exact share_moved h (by simpa using hcall)

theorem write_moved {project : ProjectName} {agent : String} {grant : Bool}
    (hcall : t.call = .set_project_access project agent grant)
    (h : s.write project agent grant t = some t') : Moved s t t' := by
  unfold Sys.write at h
  simp only at h
  split at h
  · rename_i p target _ _
    split at h
    · rw [← Option.some.inj h]
      exact .on _
    rename_i hself
    split at h
    · rename_i hgrant
      rw [← Option.some.inj h]
      refine .notice _ (by rw [hcall]; exact hgrant) fun g hg heq => ?_
      -- the row it found is the target's, who is somebody else
      have hp := pos_of_one (Option.mem_toList.mp hg)
      simp only [is_grant, Bool.and_eq_true, beq_iff_eq] at hp
      simp only [Bool.or_eq_true, beq_iff_eq, not_or] at hself
      exact hself.2 (hp.2.symm.trans heq)
    · exact take_moved h
  · rw [← Option.some.inj h]
    exact .on _

/-- The next statement of a transaction is such a move. -/
theorem next_moved (h : s.next t = some t') : Moved s t t' := by
  unfold Sys.next at h
  split at h
  · exact lock_own_moved h
  · rw [← Option.some.inj h]
    exact .on _
  · rename_i hcall
    refine share_moved h ?_
    rw [hcall]
    rfl
  · rename_i hcall
    exact write_moved hcall h
  · cases h

theorem Inv.moved (hs : Inv s) (ht : t ∈ s.txs) (h : Moved s t t') : Inv (s.put t') := by
  have hsound := hs.sound t ht
  have hrest : Sound t' → ∀ b ∈ update (fun b => b.xid == t'.xid) (fun _ => t') s.txs, Sound b := by
    intro h' b hb
    obtain ⟨c, hc, rfl⟩ := mem_update.mp hb
    split
    · exact h'
    · exact hs.sound c hc
  cases h with
  | on stage => exact ⟨hs.held.same (a := t) ht rfl, hrest ⟨hsound.shared, hsound.noticed, hsound.others⟩⟩
  | share stage hg hfree hcall =>
    refine ⟨hs.held.share (a := t) ht rfl hg hfree, hrest ⟨fun hc => ?_, hsound.noticed, hsound.others⟩⟩
    exact absurd (hcall.symm.trans hc) (by decide)
  | take stage hg hfree =>
    exact ⟨hs.held.take (a := t) ht rfl hg hfree, hrest ⟨hsound.shared, hsound.noticed, hsound.others⟩⟩
  | notice stage hcall hothers =>
    exact ⟨hs.held.same (a := t) ht rfl, hrest ⟨hsound.shared, fun _ => hcall, hothers⟩⟩

/-- A transaction that ends gives its locks back. -/
theorem Inv.dropped (hs : Inv s) (x : ℕ) : Inv (s.drop x) :=
  ⟨hs.held.mono (fun _ hb => (mem_delete.mp hb).1) fun _ _ _ _ hr => hr,
    fun b hb => hs.sound b (mem_delete.mp hb).1⟩

variable {sha256 : String → String}

/-- A row a transaction loses to its commit is one it had taken. -/
theorem lost_taken (hsound : Sound t) {db db' : Db} (h : t.outcome sha256 db = .ok db') {g : ProjectAgentAccess}
    (hg : lost (t.view db).project_agent_access db'.project_agent_access g = true) :
    ∃ g' ∈ t.locks.taken, grant_key g' = grant_key g := by
  simp only [lost, Bool.and_eq_true, Bool.not_eq_true', List.any_eq_true, List.any_eq_false,
    beq_iff_eq] at hg
  obtain ⟨⟨g', hg', hkey⟩, hgone⟩ := hg
  by_cases hcall : t.call.changes_access = true
  · obtain ⟨project, agent, grant, hc⟩ := changes_access_iff.mp hcall
    have hrun := h
    rw [Tx.outcome, hc] at hrun
    obtain ⟨u, hrun⟩ := map_snd_ok hrun
    obtain ⟨p, target, -, -, -, -, rfl⟩ := set_project_access_ok hrun
    cases grant with
    | true =>
      -- what was there before is there after
      exfalso
      refine hgone g' ?_ hkey
      show g' ∈ give t.auth p target (t.view db).project_agent_access
      unfold give
      split
      · exact hg'
      · exact mem_insert_into.mpr (Or.inl hg')
    | false =>
      have hnone : t.noticed = [] := by
        by_contra hne
        have := hsound.noticed hne
        rw [hc] at this
        exact absurd this (by simp [Call.gives_access])
      have hread : g' ∈ (t.locks.shared ++ t.locks.taken) ++ t.noticed := hg'
      rw [hsound.shared hcall, hnone, List.nil_append, List.append_nil] at hread
      exact ⟨g', hread, hkey⟩
  · exfalso
    have hsame := run_call_grants h (by simpa using hcall)
    rw [hsame] at hgone
    exact hgone g' hg' hkey

/-- The step lemma. -/
theorem Inv.step (hs : Inv s) {u : Sys} {a : Act} (h : step sha256 s a = some u) : Inv u := by
  cases a with
  | begin x seen now auth call =>
    simp only [Revocation.step, Option.bind_eq_bind, Option.bind_eq_some_iff] at h
    obtain ⟨v, -, h⟩ := h
    split at h
    · cases h
    · rw [← Option.some.inj h]
      refine ⟨hs.held.begin rfl, fun b hb => ?_⟩
      rcases mem_insert_into.mp hb with hb | rfl
      · exact hs.sound b hb
      · exact ⟨fun _ => rfl, fun hne => absurd rfl hne, fun _ hg => absurd hg List.not_mem_nil⟩
  | statement x =>
    simp only [Revocation.step, Option.bind_eq_bind, Option.bind_eq_some_iff, Option.pure_def,
      Option.some.injEq] at h
    obtain ⟨t, ht, t', hnext, rfl⟩ := h
    exact hs.moved (mem_of_one ht) (next_moved hnext)
  | commit x =>
    simp only [Revocation.step, Option.bind_eq_bind, Option.bind_eq_some_iff] at h
    obtain ⟨t, ht, h⟩ := h
    split at h
    · rw [← Option.some.inj h]
      unfold Sys.commit
      split
      · exact hs.dropped t.xid
      · rename_i db' hok
        have htin := mem_of_one ht
        have hended := hs.held.ended htin fun g hg => lost_taken (hs.sound t htin) hok hg
        refine ⟨hended.mono (fun b hb => hb) fun b _ r _ hr => ?_,
          (hs.dropped t.xid).sound⟩
        exact List.mem_append_left _ hr
    · cases h
  | rollback x =>
    obtain ⟨t, -, rfl⟩ := Option.map_eq_some_iff.mp h
    exact hs.dropped x
  | other db' =>
    simp only [Revocation.step, Option.ite_none_right_eq_some, Option.some.injEq] at h
    obtain ⟨hkeeps, rfl⟩ := h
    refine ⟨hs.held.mono (fun b hb => hb) fun b hb r hr _ => ?_, hs.sound⟩
    simpa using List.all_eq_true.mp (List.all_eq_true.mp hkeeps b hb) r hr

end Invariant

/-! ## The law -/

/-- What a commit owes to those who have, and those who no longer have, the project. -/
structure Lawful (t : Tx) (pre post : Db) : Prop where
  /-- The caller has the project now, not only when it was let in. -/
  caller : ∀ p, governed t.seen t.auth t.call pre = some p →
    pre.project_agent_access.any (is_grant p t.auth.agent_id) = true
  /-- So has everybody a message of a project's thread is addressed to. -/
  recipients : ∀ id input message_id key, t.call = .send id input message_id key →
    ∀ c, one (fun c => c.id == id) pre.conversations = some c → c.visibility = .project →
    ∀ r ∈ post.message_recipients, r ∉ pre.message_recipients →
      granted c r.agent_id pre = true
  /-- And a grant that was taken away is gone. -/
  revoked : ∀ project agent, t.call = .set_project_access project agent false →
    ∀ p target, project_id_for t.auth project t.seen = .ok p →
    agent_id_by_name t.auth.team_id agent t.seen = .ok target →
    t.locks.taken.any (is_grant p target) = true →
      post.project_agent_access.any (is_grant p target) = false

/-- Every transaction of the run that committed owed nothing. -/
def RevocationLaw (sha256 : String → String) (tr : List (Trans Sys Act)) : Prop :=
  ∀ e ∈ tr, ∀ x, e.act = .commit x → ∀ t, e.pre.tx x = some t →
    ∀ db', t.outcome sha256 e.pre.db = .ok db' → Lawful t e.pre.db e.post.db

section Law

variable {sha256 : String → String} {s : Sys} {t : Tx} {tr : List (Trans Sys Act)}

/-- What a transaction has read is in the table when it commits, unless it only noticed
it. -/
theorem read_there (hs : Inv s) (ht : t ∈ s.txs) {g : ProjectAgentAccess}
    (hg : g ∈ (t.view s.db).project_agent_access) :
    g ∈ s.db.project_agent_access ∨ g ∈ t.noticed := by
  rcases List.mem_append.mp hg with hg | hg
  · exact Or.inl (hs.held.there t ht g hg)
  · exact Or.inr hg

/-- The operation sees the threads as they are. -/
theorem governed_view (seen : Db) (auth : AuthCtx) (call : Call) (db : Db) :
    governed seen auth call (t.view db) = governed seen auth call db := by
  cases call <;> rfl

/-- Every commit keeps the law. -/
theorem Lawful.of_commit (hs : Inv s) (ht : t ∈ s.txs) {db' : Db}
    (h : t.outcome sha256 s.db = .ok db') : Lawful t s.db (t.merge s.db db') := by
  have hsound := hs.sound t ht
  constructor
  · intro p hp
    have hany := run_call_granted h ((governed_view _ _ _ _).trans hp)
    obtain ⟨g, hg, hgrant⟩ := List.any_eq_true.mp hany
    refine List.any_eq_true.mpr ⟨g, ?_, hgrant⟩
    rcases read_there hs ht hg with hin | hnoticed
    · exact hin
    · simp only [is_grant, Bool.and_eq_true, beq_iff_eq] at hgrant
      exact absurd hgrant.2 (hsound.others g hnoticed)
  · intro id input message_id key hcall c hc hvis r hr hnew
    have hnone : t.noticed = [] := by
      by_contra hne
      have hgives := hsound.noticed hne
      rw [hcall] at hgives
      exact absurd hgives (by simp [Call.gives_access])
    rw [Tx.outcome, hcall] at h
    obtain ⟨sent, h⟩ := map_snd_ok h
    have hgranted := send_addresses h hr hnew hc hvis
    obtain ⟨g, hg, hmatch⟩ := List.any_eq_true.mp hgranted
    refine List.any_eq_true.mpr ⟨g, ?_, hmatch⟩
    rcases read_there hs ht hg with hin | hnoticed
    · exact hin
    · rw [hnone] at hnoticed
      exact absurd hnoticed List.not_mem_nil
  · intro project agent hcall p target hp htarget htaken
    rw [Tx.outcome, hcall] at h
    obtain ⟨u, h⟩ := map_snd_ok h
    obtain ⟨p', target', hp', htarget', -, -, rfl⟩ := set_project_access_ok h
    rw [hp] at hp'
    rw [htarget] at htarget'
    obtain rfl := Except.ok.inj hp'
    obtain rfl := Except.ok.inj htarget'
    obtain ⟨g, hg, hgrant⟩ := List.any_eq_true.mp htaken
    have hbefore : g ∈ (t.view s.db).project_agent_access :=
      List.mem_append_left _ (mem_rows.mpr (Or.inr hg))
    rw [List.any_eq_false]
    intro x hx hmatch
    have hkey : grant_key g = grant_key x := by
      simp only [is_grant, Bool.and_eq_true, beq_iff_eq] at hgrant hmatch
      rw [grant_key, grant_key, hgrant.1, hgrant.2, hmatch.1, hmatch.2]
    have hafter : ∀ y ∈ delete (is_grant p target) (t.view s.db).project_agent_access,
        grant_key y ≠ grant_key x := by
      intro y hy heq
      have hyp := (mem_delete.mp hy).2
      simp only [grant_key, Prod.mk.injEq] at heq
      rw [is_grant, heq.1, heq.2] at hyp
      exact absurd (hmatch.symm.trans hyp) (by decide)
    rcases List.mem_append.mp hx with hx | hx
    · -- a row of this key was there before and is not there after
      have hkept := (mem_delete.mp hx).2
      have hlost : lost (t.view s.db).project_agent_access
          (delete (is_grant p target) (t.view s.db).project_agent_access) x = true := by
        simp only [lost, Bool.and_eq_true, Bool.not_eq_true', List.any_eq_true, List.any_eq_false,
          beq_iff_eq]
        exact ⟨⟨g, hbefore, hkey⟩, hafter⟩
      exact absurd (hlost.symm.trans hkept) (by decide)
    · exact hafter x (List.mem_filter.mp hx).1 rfl

/-- **Revocation takes effect at commit**, in every run from a state in which nothing is
under way. -/
theorem revocation_at_commit {db : Db} (h : Run (Rel (step sha256)) (Sys.start db) tr s) :
    RevocationLaw sha256 tr := by
  have hinv : ∀ e ∈ tr, Inv e.pre :=
    h.invariant_pre (C := fun _ _ => True) ⟨Held.start, fun _ ht => absurd ht List.not_mem_nil⟩
      (fun _ _ _ hs _ hr => hs.step hr) fun _ _ => trivial
  intro e he x hact t ht db' hok
  have hrel := h.rel e he
  rw [hact] at hrel
  unfold Runs.Rel at hrel
  simp only [step, ht, Option.bind_eq_bind, Option.bind_some, Option.ite_none_right_eq_some,
    Option.some.injEq] at hrel
  have hpost : e.post.db = t.merge e.pre.db db' := by
    rw [← hrel.2]
    simp only [Sys.commit, hok]
  rw [hpost]
  exact Lawful.of_commit (hinv e he) (mem_of_one ht) hok

end Law

/-! ## A run -/

/-- Ada and Bob have a project, and sit in a thread of it. -/
def crew : Db :=
  { pair .postgres with
    projects := [⟨5, 1, "atlas"⟩], project_agent_access := [⟨5, 1, 1⟩, ⟨5, 2, 1⟩]
    conversations := [{ thread .postgres with project_id := some 5, visibility := .project }]
    conversation_memberships := [owners_seat 0 ada 7 10, owners_seat 0 bob 7 11] }

/-- Bob sends while Ada takes the project away from him: what he had begun commits, what
he had only been let in for is refused, and Ada's next message is not addressed to him. -/
def taken_away : List Act :=
  [.begin 1 0 0 bob (.send 7 ⟨"hello", 1, none⟩ 1 0), .statement 1,
    .begin 2 0 0 ada (.set_project_access ⟨"atlas", none⟩ "bob" false), .statement 2,
    .statement 1, .rollback 2, .statement 1, .commit 1,
    .begin 3 0 0 ada (.set_project_access ⟨"atlas", none⟩ "bob" false),
    .begin 4 0 0 bob (.send 7 ⟨"again", 2, none⟩ 2 0), .statement 3, .statement 3,
    .commit 3, .statement 4, .statement 4, .statement 4, .commit 4,
    .begin 5 0 0 ada (.send 7 ⟨"bye", 3, none⟩ 3 0), .statement 5, .statement 5,
    .commit 5]

theorem taken_away_run : (exec (step digest) (Sys.start crew) taken_away).isSome = true := by
  decide

theorem revocation_at_commit_taken_away :
    RevocationLaw digest ((exec (step digest) (Sys.start crew) taken_away).get taken_away_run).1 :=
  revocation_at_commit (exec_get taken_away_run)

end CrewSync.Revocation
