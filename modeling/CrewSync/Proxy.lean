/-
`proxy.rs`: what a window is on the bus, how it comes to be that, and its record on disk.

A window's `State` is behind a lock that is taken for a moment; a connection and a resume hold
another lock, `switch`, from end to end; and what is written to disk is written under a third,
which all processes share. Between any two of these steps the other calls of the window may do
theirs. So each call is taken apart into its steps here (`Task`), and a step says which of them it
is the one of. What the bus or the disk answers, and that they do not, is the `Outcome` of a step.

The bus issues a secret where it registers or resumes a session, and from then on accepts no other
for that session. Secrets are numbered as they are issued. Left out: the calls that are forwarded,
but for the connection they go out on; presence; the tools and instructions of a bus; and the
process and the time in a record.
-/
import CrewSync.Rows
import CrewSync.Runs
import CrewSync.Schema

set_option autoImplicit false

namespace CrewSync.Proxy

open Rows
open Runs (append_at set_at)
open Schema (Uuid)

/-! ## A window -/

/-- `SessionProof`. -/
@[ext] structure SessionProof where
  token : ℕ
  session_id : Uuid
  epoch : ℕ
  expires_at : ℕ
  deriving DecidableEq, Repr

/-- `Binding`: where the conversation's id is from. -/
inductive Binding where
  | Explicit | ClaudeCode | Antigravity | RequestMeta | Instance
  deriving DecidableEq, Repr

/-- `Resolved`. -/
structure Resolved where
  mcp_url : String
  token : String
  profile : Option String
  expected : Option (String × String)
  project : Option String
  channel : Option String
  project_root : Option String
  deriving DecidableEq, Repr

/-- The credential a connection sends. -/
inductive Bearer where
  | agent (token : String)
  | session (token : ℕ)
  deriving DecidableEq, Repr

/-- `Remote`: an open connection, and what each call on it says of the window. -/
structure Remote where
  mcp_url : String
  bearer : Bearer
  session : String
  epoch : Option ℕ
  deriving DecidableEq, Repr

/-- `Connected`, with the key of the conversation it was opened for. -/
structure Connected where
  resolved : Resolved
  agent : String
  team : String
  remote : Remote
  proof : Option SessionProof
  binding_key : String
  deriving DecidableEq, Repr

/-- `Identity`. -/
structure Identity where
  profile : Option String
  agent : String
  team : String
  mcp_url : String
  proof : Option SessionProof
  deriving DecidableEq, Repr

/-- `State`. -/
structure State where
  connected : Option Connected
  disconnected_reason : Option String
  session : String
  binding : Binding
  host_id : Option String
  bound_by_request : Bool
  project : Option String
  role : Option String
  channel : Option String
  generation : ℕ
  stranded : Option Identity
  roots_dir : Option String
  deriving DecidableEq, Repr

/-- The identity of a connection. -/
def Connected.identity (c : Connected) : Identity :=
  ⟨c.resolved.profile, c.agent, c.team, c.resolved.mcp_url, c.proof⟩

/-- `State::identity`. -/
def State.identity (st : State) : Option Identity :=
  match st.connected, st.stranded with
  | some c, _ => some c.identity
  | none, some s => some s
  | none, none => none

/-- Its credential. -/
def State.proof (st : State) : Option SessionProof := st.identity.bind Identity.proof

/-- What its record is filed under. -/
def State.key (st : State) : String := st.host_id.getD st.session

/-- A record of `write_binding`. -/
structure Record where
  host_id_present : Bool
  binding : Binding
  session : String
  project : Option String
  role : Option String
  channel : Option String
  profile : Option String
  agent : Option String
  team : Option String
  mcp_url : Option String
  proof : Option SessionProof
  closed : Bool
  deriving DecidableEq, Repr

/-- The record of what the window is. -/
def State.record (st : State) : Record where
  host_id_present := st.host_id.isSome
  binding := st.binding
  session := st.session
  project := st.project
  role := st.role
  channel := st.channel
  profile := st.identity.bind Identity.profile
  agent := st.identity.map Identity.agent
  team := st.identity.map Identity.team
  mcp_url := st.identity.map Identity.mcp_url
  proof := st.proof
  closed := false

/-- `Status`, as far as it says which window this is. -/
structure Status where
  connected : Bool
  error : Option String
  agent : Option String
  team : Option String
  session : String
  address : Option String
  project : Option String
  role : Option String
  channel : Option String
  profile : Option String
  binding : Binding
  project_root : Option String
  bus : Option String
  deriving DecidableEq, Repr

/-- `status`. -/
def State.status (st : State) : Status where
  connected := st.connected.isSome
  error := st.disconnected_reason
  agent := st.connected.map Connected.agent
  team := st.connected.map Connected.team
  session := st.session
  address := st.connected.map fun c => s!"{c.agent}/{st.session}"
  project := st.project
  role := st.role
  channel := st.channel
  profile := st.connected.bind fun c => c.resolved.profile
  binding := st.binding
  project_root := st.connected.bind fun c => c.resolved.project_root
  bus := st.connected.map fun c => c.resolved.mcp_url

/-- What names the spool of `spool_and_confirm`. -/
def State.spool_session (st : State) : String := st.session

/-! ## The bus and the disk -/

/-- A session of the bus. It accepts the secret while it is `live`: neither revoked nor expired. -/
structure Session where
  id : Uuid
  agent : String
  team : String
  label : String
  token : ℕ
  epoch : ℕ
  live : Bool
  deriving DecidableEq, Repr

/-- The bus: its sessions, and the session and the epoch each secret was issued for. -/
structure Bus where
  sessions : List Session
  issued : List (Uuid × ℕ)
  deriving DecidableEq, Repr

/-- The secret opens a connection. -/
def Bus.accepts (b : Bus) (token : ℕ) : Bool := b.sessions.any fun s => s.token == token && s.live

/-- A session gets a new secret, and a new epoch. -/
def Bus.rotate (b : Bus) (s : Session) (expires_at : ℕ) : SessionProof × Bus :=
  (⟨b.issued.length, s.id, s.epoch + 1, expires_at⟩,
    { sessions := update (fun r => r.id == s.id)
        (fun r => { r with token := b.issued.length, epoch := s.epoch + 1, live := true }) b.sessions
      issued := b.issued ++ [(s.id, s.epoch + 1)] })

/-- `register_session`, of a label that is new or dead. -/
def Bus.register (b : Bus) (agent team label : String) (expires_at : ℕ) : Option (SessionProof × Bus) :=
  match one (fun s => s.agent == agent && s.team == team && s.label == label) b.sessions with
  | none => some (⟨b.issued.length, b.issued.length, 1, expires_at⟩,
      { sessions := insert_into ⟨b.issued.length, agent, team, label, b.issued.length, 1, true⟩ b.sessions
        issued := b.issued ++ [(b.issued.length, 1)] })
  | some s => if s.live then none else some (b.rotate s expires_at)

/-- `resume_session`, with a credential that is accepted. -/
def Bus.resume (b : Bus) (prior : SessionProof) (expires_at : ℕ) : Option (SessionProof × Bus) :=
  (one (fun s => s.id == prior.session_id && s.token == prior.token && s.epoch == prior.epoch && s.live)
    b.sessions).map fun s => b.rotate s expires_at

/-- `revoke_session`, of the window whose secret it is. -/
def Bus.revoke (b : Bus) (token : ℕ) : Bus :=
  { b with sessions := update (fun s => s.token == token) (fun s => { s with live := false }) b.sessions }

/-- The bus, and the records on disk by their paths. -/
structure World where
  bus : Bus
  files : String → Option Record

/-- `write_binding_file`. -/
def World.write (net : World) (path : String) (r : Record) : World :=
  { net with files := Function.update net.files path (some r) }

/-- A record is read back from the path it was written to. -/
@[simp] theorem World.write_self (net : World) (path : String) (r : Record) :
    (net.write path r).files path = some r := Function.update_self ..

/-- Every other path keeps its record. -/
theorem World.write_of_ne (net : World) {path path' : String} (h : path' ≠ path) (r : Record) :
    (net.write path r).files path' = net.files path' := Function.update_of_ne h ..

/-- What others do on the bus: a session is closed or expires, or is resumed by whoever has its
secret. -/
inductive Elsewhere where
  | lapsed (id : Uuid)
  | resumed (id : Uuid)
  deriving DecidableEq, Repr

/-- The bus after that. -/
def Bus.elsewhere (b : Bus) : Elsewhere → Bus
  | .lapsed id => { b with sessions := update (fun s => s.id == id) (fun s => { s with live := false }) b.sessions }
  | .resumed id =>
    match one (fun s => s.id == id && s.live) b.sessions with
    | some s => (b.rotate s 0).2
    | none => b

/-! ## Calls, and what they do next -/

/-- `ConfigureArgs`, checked: a label that is given is set, or cleared. -/
structure Labels where
  project : Option (Option String)
  role : Option (Option String)
  channel : Option (Option String)
  deriving DecidableEq, Repr

/-- What a call comes to. -/
inductive Result where
  | ok
  | error (why : String)
  /-- `resume_in_place` of a window with no credential: the call is forwarded. -/
  | forwarded
  deriving DecidableEq, Repr

/-- `connect_with` is part of one of these. `rebind` has in hand what it is to put back; so had
`adopt_project_dir` when it began. -/
inductive Caller where
  | initial
  | configure (labels : Labels)
  | adopt (roots_dir : Option String)
  | rebind (host_id : Option String) (binding : Binding) (session : String) (bound_by_request : Bool)
  deriving DecidableEq, Repr

/-- What follows `write_binding`. -/
inductive Next where
  | labels (l : Labels)
  | reply (r : Result)
  deriving DecidableEq, Repr

/-- A connection in the making: for which window, and what is known of it. -/
structure Making where
  caller : Caller
  session : String
  binding_key : String
  resolved : Resolved
  agent : String
  team : String
  proof : Option SessionProof
  deriving DecidableEq, Repr

/-- The next step of a call. -/
inductive Task where
  /-- `connect_with` waits for `switch`. -/
  | connecting (c : Caller) (reuse_proof : Bool)
  /-- It reads the stored credential. -/
  | reading (c : Caller) (reuse_proof : Bool) (session binding_key : String)
  /-- `establish`: the context, then who the agent token is. -/
  | resolving (c : Caller) (session binding_key : String) (existing : Option SessionProof)
  | verifying (c : Caller) (session binding_key : String) (existing : Option SessionProof) (r : Resolved)
  /-- `resume_with`, `register_new`, and the connection on what they were given. -/
  | resuming (m : Making) (prior : SessionProof)
  | registering (m : Making)
  | opening (m : Making)
  /-- `connect_with` again: the team, the labels of the project, and the swap. -/
  | checking (m : Making)
  | defaulting (m : Making)
  | taking (m : Making)
  | revoking (m : Making) (old : Connected)
  | committing (m : Making)
  /-- It has failed, and its caller has the error. -/
  | failed (c : Caller) (why : String)
  /-- `configure` sets its labels. -/
  | labelling (l : Labels)
  /-- `adopt_project_dir` resolves the directory. -/
  | adopting (dir : String)
  /-- `rebind` has read what it replaces, and is to replace it. -/
  | rebinding (host_id : String) (source : Binding)
  | staging (host_id : String) (source : Binding) (previous : Caller)
  /-- `resume_in_place` waits for `switch`; `rotate`; `open_with`; and what comes of it. -/
  | resuming_in_place
  | rotating (prior : SessionProof) (session : String)
  | reopening (proof : SessionProof) (session : String)
  | adopt_resumed (proof : SessionProof) (session : String) (failed : Option String)
  /-- `write_binding` reads the state; it waits for the lock. -/
  | snapshot (next : Next)
  | writing (path : String) (r : Record) (next : Next)
  /-- `renew_credential`, and `stamp_binding_expiry`. -/
  | renewing (proof : SessionProof) (generation : ℕ)
  | renewed (proof : SessionProof) (generation expires_at : ℕ)
  | stamping (proof : SessionProof) (expires_at : ℕ)
  | stamp (path : String) (proof : SessionProof) (expires_at : ℕ)
  /-- `mark_closed`. -/
  | closing
  | closed (path : String) (mine : Option SessionProof)
  | returned (r : Result)
  deriving DecidableEq, Repr

/-- What a step meets outside. -/
inductive Outcome where
  /-- Nothing, or what it wants. -/
  | done
  | refused (why : String)
  | resolved (r : Resolved)
  | whoami (agent team : String)
  /-- The bus issues a credential, and the answer comes or is lost. -/
  | issued (expires_at : ℕ)
  | lost (expires_at : ℕ) (why : String)
  /-- The bus does not know the stored credential any more, or has no such tool. -/
  | rejected
  | legacy
  | renewed (expires_at : ℕ)
  deriving DecidableEq, Repr

/-- What begins. -/
inductive Call where
  | initial
  | configure (labels : Labels) (profile : Bool)
  | adopt (dir : String)
  | rebind (host_id : String) (source : Binding)
  | resume
  | renew
  | close
  deriving DecidableEq, Repr

/-- The process: its state, the call that has `switch`, and its calls. -/
structure Window where
  st : State
  switch : Option ℕ
  tasks : List Task
  deriving DecidableEq, Repr

/-- The `t`-th call goes on. -/
def Window.goes (w : Window) (t : ℕ) (task : Task) : Window := { w with tasks := w.tasks.set t task }

/-- It has what it waits for, and goes on. -/
def Window.takes (w : Window) (t : ℕ) (task : Task) : Window := { w.goes t task with switch := some t }

/-- It returns from where it had `switch`. -/
def Window.leaves (w : Window) (t : ℕ) (task : Task) : Window := { w.goes t task with switch := none }

/-- It sets the state, and goes on. -/
def Window.sets (w : Window) (t : ℕ) (st : State) (task : Task) : Window := { w.goes t task with st := st }

/-- `switch`, after a call that may have had it. -/
def Window.freed (w : Window) (t : ℕ) : Option ℕ := if w.switch = some t then none else w.switch

/-- A renewal is under way: there is one `keepalive`. -/
def Task.renews : Task → Bool
  | .renewing _ _ | .renewed _ _ _ | .stamping _ _ | .stamp _ _ _ => true
  | _ => false

/-- What follows the `write_binding` of a connection. -/
def Caller.next : Caller → Next
  | .configure l => .labels l
  | _ => .reply .ok

/-- What follows any. -/
def Next.task : Next → Task
  | .labels l => .labelling l
  | .reply r => .returned r

/-- The connection that was made. -/
def Making.remote (m : Making) : Remote :=
  match m.proof with
  | some p => ⟨m.resolved.mcp_url, .session p.token, m.session, some p.epoch⟩
  | none => ⟨m.resolved.mcp_url, .agent m.resolved.token, m.session, none⟩

def Making.connected (m : Making) : Connected :=
  ⟨m.resolved, m.agent, m.team, m.remote, m.proof, m.binding_key⟩

/-- The state `adopt_project_dir` and `connect_with` leave a project's labels in. -/
def State.defaults (st : State) (r : Resolved) : State :=
  { st with project := st.project.or r.project, channel := st.channel.or r.channel }

/-- The labels of `configure`. -/
def State.labelled (st : State) (l : Labels) : State :=
  { st with
    role := l.role.getD st.role
    project := l.project.getD st.project
    channel := l.channel.getD st.channel }

/-- The profile, token and endpoint are those of the connection. -/
def State.same_profile (st : State) (r : Resolved) : Bool :=
  st.connected.any fun c => c.resolved.profile == r.profile && c.resolved.token == r.token &&
    c.resolved.mcp_url == r.mcp_url

/-- What the caller of `connect_with` does with its error. -/
def State.restored (st : State) : Caller → String → State
  | .initial, why => { st with disconnected_reason := some why }
  | .configure _, _ => st
  | .adopt _, _ => { st with roots_dir := none }
  | .rebind host_id binding session bound_by_request, why =>
    { st with
      host_id := host_id
      binding := binding
      session := session
      bound_by_request := bound_by_request
      disconnected_reason := some why }

/-- The window has another team's transcript. -/
def other_team (old : Identity) (m : Making) : String :=
  let profile := m.resolved.profile.getD "?"
  s!"this conversation is bound to team '{old.team}'; the profile '{profile}' belongs " ++
    s!"to team '{m.team}'. Switching teams inside a conversation is not allowed — the transcript already " ++
    s!"holds '{old.team}' material. Start a new conversation with that profile instead"

/-- The token is somebody else's. -/
def unexpected (r : Resolved) (exp_team exp_agent agent team : String) : String :=
  let profile := r.profile.getD "?"
  s!"profile '{profile}' expects {exp_agent}@{exp_team} but the token authenticates as " ++
    s!"{agent}@{team}; fix the profile or its token entry"

/-- The new secret opens no connection. -/
def stranded_reason (why : String) : String :=
  "the session was resumed and the bus rotated this window's credential, but the new one could not " ++
    s!"open a connection ({why}); it is saved, and this window is off the bus until this MCP server " ++
    "is restarted, which reconnects with it"

/-- The window lost its connection while it was resumed. -/
def no_connection : String :=
  "resume_session: the session was resumed, but this window lost its connection meanwhile; restart this " ++
    "MCP server to reconnect it"

/-! ### States -/

/-- A new connection is the window's. -/
def State.commit (st : State) (c : Connected) : State :=
  { st with
    connected := some c
    disconnected_reason := none
    stranded := none
    generation := st.generation + 1 }

/-- A resumed credential has opened a connection. -/
def State.adopted (st : State) (c : Connected) (proof : SessionProof) (session : String) : State :=
  { st with
    connected := some { c with
      remote := ⟨c.resolved.mcp_url, .session proof.token, session, some proof.epoch⟩
      proof := some proof }
    disconnected_reason := none
    generation := st.generation + 1 }

/-- It has not. -/
def State.strand (st : State) (c : Connected) (proof : SessionProof) (why : String) : State :=
  { st with
    connected := none
    stranded := some { c.identity with proof := some proof }
    disconnected_reason := some (stranded_reason why)
    generation := st.generation + 1 }

/-- The project's directory is another. -/
def State.rooted (st : State) (dir : String) : State := { st with roots_dir := some dir }

/-- It is that of the profile in use. -/
def State.relabelled (st : State) (dir : String) (r : Resolved) : State :=
  { (st.rooted dir).defaults r with
    connected := st.connected.map fun c =>
      { c with resolved := { c.resolved with project_root := r.project_root } } }

/-- `rebind` has the window answer to a conversation. -/
def State.staged (st : State) (session host_id : String) (source : Binding) : State :=
  { st with host_id := some host_id, binding := source, bound_by_request := true, session := session }

/-- What `rebind` remembers. -/
def State.previous (st : State) : Caller := .rebind st.host_id st.binding st.session st.bound_by_request

/-- The credential of the connection is renewed. -/
def State.extended (st : State) (c : Connected) (proof : SessionProof) (expires_at : ℕ) : State :=
  { st with connected := some { c with proof := some { proof with expires_at := expires_at } } }

/-- A record is of this credential, as `stamp_binding_expiry` and `mark_closed` look. -/
def Record.is_of (r : Record) (proof : SessionProof) : Bool :=
  r.proof.any fun q => q.session_id == proof.session_id && q.epoch == proof.epoch

/-- The record with another expiry. -/
def Record.stamped (r : Record) (expires_at : ℕ) : Record :=
  { r with proof := r.proof.map fun q => { q with expires_at := expires_at } }

/-! ## Steps -/

section Step

variable (session_for binding_path : String → String)

/-- What begins with a call. -/
def Window.begin (w : Window) : Call → Option Window
  | .initial => if w.tasks = [] then some { w with tasks := [.connecting .initial true] } else none
  | .configure labels true => some { w with tasks := w.tasks ++ [.connecting (.configure labels) false] }
  | .configure labels false => some { w with tasks := w.tasks ++ [.labelling labels] }
  | .adopt dir => some { w with tasks := w.tasks ++ [.adopting dir] }
  | .rebind host_id source =>
    if w.st.host_id = none then some { w with tasks := w.tasks ++ [.rebinding host_id source] } else none
  | .resume => some { w with tasks := w.tasks ++ [.resuming_in_place] }
  | .renew =>
    if w.tasks.any Task.renews then none
    else (w.st.connected.bind Connected.proof).map fun p =>
      { w with tasks := w.tasks ++ [.renewing p w.st.generation] }
  | .close => some { w with tasks := w.tasks ++ [.closing] }

/-- The next step of the `t`-th call. -/
def Window.run (net : World) (w : Window) (t : ℕ) : Task → Outcome → Option (World × Window)
  | .connecting c reuse_proof, .done =>
    if w.switch = none then some (net, w.takes t (.reading c reuse_proof w.st.session w.st.key)) else none
  | .reading c reuse_proof session key, .done =>
    let existing := if reuse_proof then (net.files (binding_path key)).bind Record.proof else none
    some (net, w.goes t (.resolving c session key existing))
  | .resolving c session key existing, .resolved r => some (net, w.goes t (.verifying c session key existing r))
  | .resolving c _ _ _, .refused why => some (net, w.leaves t (.failed c why))
  | .verifying c session key existing r, .whoami agent team =>
    match r.expected.filter fun e => agent != e.2 || team != e.1 with
    | some e => some (net, w.leaves t (.failed c (unexpected r e.1 e.2 agent team)))
    | none =>
      match existing with
      | some prior => some (net, w.goes t (.resuming ⟨c, session, key, r, agent, team, none⟩ prior))
      | none => some (net, w.goes t (.registering ⟨c, session, key, r, agent, team, none⟩))
  | .verifying c _ _ _ _, .refused why => some (net, w.leaves t (.failed c why))
  | .resuming m prior, .issued expires_at =>
    (net.bus.resume prior expires_at).map fun (p, bus) =>
      ({ net with bus := bus }, w.goes t (.opening { m with proof := some p }))
  | .resuming m prior, .lost expires_at why =>
    (net.bus.resume prior expires_at).map fun (_, bus) =>
      ({ net with bus := bus }, w.leaves t (.failed m.caller why))
  | .resuming m prior, .rejected =>
    if net.bus.accepts prior.token then none else some (net, w.goes t (.registering m))
  | .resuming m _, .refused why => some (net, w.leaves t (.failed m.caller why))
  | .registering m, .issued expires_at =>
    (net.bus.register m.agent m.team m.session expires_at).map fun (p, bus) =>
      ({ net with bus := bus }, w.goes t (.opening { m with proof := some p }))
  | .registering m, .lost expires_at why =>
    (net.bus.register m.agent m.team m.session expires_at).map fun (_, bus) =>
      ({ net with bus := bus }, w.leaves t (.failed m.caller why))
  | .registering m, .legacy => some (net, w.goes t (.opening m))
  | .registering m, .refused why => some (net, w.leaves t (.failed m.caller why))
  | .opening m, .done => some (net, w.goes t (.checking m))
  | .opening m, .refused why => some (net, w.leaves t (.failed m.caller why))
  | .checking m, .done =>
    match w.st.identity.filter fun old => old.team != m.team with
    | some old => some (net, w.leaves t (.failed m.caller (other_team old m)))
    | none => some (net, w.goes t (.defaulting m))
  | .defaulting m, .done => some (net, w.sets t (w.st.defaults m.resolved) (.taking m))
  | .taking m, .done =>
    match w.st.connected with
    | some old => some (net, w.sets t { w.st with connected := none }
        (if old.proof.isSome then .revoking m old else .committing m))
    | none => some (net, w.goes t (.committing m))
  | .revoking m old, .done =>
    some ({ net with bus := old.proof.elim net.bus fun p => net.bus.revoke p.token }, w.goes t (.committing m))
  | .revoking m _, .refused _ => some (net, w.goes t (.committing m))
  | .committing m, .done => some (net, w.sets t (w.st.commit m.connected) (.snapshot m.caller.next))
  | .failed c why, .done => some (net, w.sets t (w.st.restored c why) (.returned (.error why)))
  | .labelling l, .done => some (net, w.sets t (w.st.labelled l) (.snapshot (.reply .ok)))
  | .adopting _, .refused why => some (net, w.goes t (.returned (.error why)))
  | .adopting dir, .resolved r =>
    if w.st.same_profile r then some (net, w.sets t (w.st.relabelled dir r) (.snapshot (.reply .ok)))
    else some (net, w.sets t (w.st.rooted dir) (.connecting (.adopt w.st.roots_dir) w.st.connected.isNone))
  | .rebinding host_id source, .done => some (net, w.goes t (.staging host_id source w.st.previous))
  | .staging host_id source previous, .done =>
    some (net, w.sets t (w.st.staged (session_for host_id) host_id source) (.connecting previous true))
  | .resuming_in_place, .done =>
    if w.switch = none then
      match w.st.connected.bind Connected.proof with
      | some p => some (net, w.takes t (.rotating p w.st.session))
      | none => some (net, w.goes t (.returned .forwarded))
    else none
  | .rotating prior session, .issued expires_at =>
    (net.bus.resume prior expires_at).map fun (p, bus) =>
      ({ net with bus := bus }, w.goes t (.reopening p session))
  | .rotating prior _, .lost expires_at why =>
    (net.bus.resume prior expires_at).map fun (_, bus) =>
      ({ net with bus := bus }, w.leaves t (.returned (.error why)))
  | .rotating _ _, .refused why => some (net, w.leaves t (.returned (.error why)))
  | .reopening p session, .done => some (net, w.goes t (.adopt_resumed p session none))
  | .reopening p session, .refused why => some (net, w.goes t (.adopt_resumed p session (some why)))
  | .adopt_resumed p session failed, .done =>
    match w.st.connected, failed with
    | none, _ => some (net, w.leaves t (.returned (.error no_connection)))
    | some c, none => some (net, w.sets t (w.st.adopted c p session) (.snapshot (.reply .ok)))
    | some c, some why => some (net, w.sets t (w.st.strand c p why)
        (.snapshot (.reply (.error ("resume_session: " ++ stranded_reason why)))))
  | .snapshot next, .done => some (net, w.goes t (.writing (binding_path w.st.key) w.st.record next))
  | .writing path r next, .done =>
    some (net.write path r, { w.goes t next.task with switch := w.freed t })
  | .writing _ _ next, .refused _ => some (net, { w.goes t next.task with switch := w.freed t })
  | .renewing p generation, .renewed expires_at => some (net, w.goes t (.renewed p generation expires_at))
  | .renewing _ _, .refused _ => some (net, w.goes t (.returned .ok))
  | .renewed p generation expires_at, .done =>
    match w.st.connected.bind fun c => c.proof.map fun q => (c, q) with
    | some (c, q) =>
      if w.st.generation = generation ∧ q.session_id = p.session_id ∧ q.epoch = p.epoch then
        some (net, w.sets t (w.st.extended c q expires_at) (.stamping p expires_at))
      else some (net, w.goes t (.returned .ok))
    | none => some (net, w.goes t (.returned .ok))
  | .stamping p expires_at, .done => some (net, w.goes t (.stamp (binding_path w.st.key) p expires_at))
  | .stamp path p expires_at, .done =>
    match (net.files path).filter fun r => r.is_of p with
    | some r => some (net.write path (r.stamped expires_at), w.goes t (.returned .ok))
    | none => some (net, w.goes t (.returned .ok))
  | .stamp _ _ _, .refused _ => some (net, w.goes t (.returned .ok))
  | .closing, .done =>
    match w.st.identity with
    | some i => some (net, w.goes t (.closed (binding_path w.st.key) i.proof))
    | none => some (net, w.goes t (.returned .ok))
  | .closed path mine, .done =>
    match (net.files path).filter fun r => mine.all fun p => r.is_of p with
    | some r => some (net.write path { r with closed := true }, w.goes t (.returned .ok))
    | none => some (net, w.goes t (.returned .ok))
  | .closed _ _, .refused _ => some (net, w.goes t (.returned .ok))
  | _, _ => none

/-- What a window does. -/
inductive Act where
  | call (c : Call)
  | run (t : ℕ) (o : Outcome)
  /-- `mark_unauthorized`, of a call that was forwarded under this generation. -/
  | unauthorized (generation : ℕ) (why : String)
  deriving DecidableEq, Repr

/-- One step of a window. -/
def Window.step (net : World) (w : Window) : Act → Option (World × Window)
  | .call c => (w.begin c).map fun w => (net, w)
  | .run t o => w.tasks[t]?.bind fun task => w.run session_for binding_path net t task o
  | .unauthorized generation why =>
    if w.st.generation = generation then
      some (net, { w with st := { w.st with disconnected_reason := some why } })
    else some (net, w)

/-! ## What a step does -/

/-- A call that may find nothing to do, and returns. -/
inductive Idle : Task → Prop
  | renewing (p : SessionProof) (generation : ℕ) : Idle (.renewing p generation)
  | renewed (p : SessionProof) (generation expires_at : ℕ) : Idle (.renewed p generation expires_at)
  | closing : Idle .closing
  | closed (path : String) (mine : Option SessionProof) : Idle (.closed path mine)

/-- What the next step of the `t`-th call does to the bus, to the disk and to the window. -/
inductive Ran (net : World) (w : Window) (t : ℕ) : Task → Outcome → World → Window → Prop
  | connecting (c : Caller) (reuse_proof : Bool) (hfree : w.switch = none) :
      Ran net w t (.connecting c reuse_proof) .done net (w.takes t (.reading c reuse_proof w.st.session w.st.key))
  | reading (c : Caller) (reuse_proof : Bool) (session key : String) :
      Ran net w t (.reading c reuse_proof session key) .done net (w.goes t (.resolving c session key
        (if reuse_proof then (net.files (binding_path key)).bind Record.proof else none)))
  | resolving (c : Caller) (session key : String) (existing : Option SessionProof) (r : Resolved) :
      Ran net w t (.resolving c session key existing) (.resolved r) net (w.goes t (.verifying c session key existing r))
  | unresolved (c : Caller) (session key : String) (existing : Option SessionProof) (why : String) :
      Ran net w t (.resolving c session key existing) (.refused why) net (w.leaves t (.failed c why))
  | unexpected (c : Caller) (session key : String) (existing : Option SessionProof) (r : Resolved)
      (agent team why : String) :
      Ran net w t (.verifying c session key existing r) (.whoami agent team) net (w.leaves t (.failed c why))
  | verified_stored (c : Caller) (session key : String) (prior : SessionProof) (r : Resolved) (agent team : String) :
      Ran net w t (.verifying c session key (some prior) r) (.whoami agent team) net
        (w.goes t (.resuming ⟨c, session, key, r, agent, team, none⟩ prior))
  | verified_new (c : Caller) (session key : String) (r : Resolved) (agent team : String) :
      Ran net w t (.verifying c session key none r) (.whoami agent team) net
        (w.goes t (.registering ⟨c, session, key, r, agent, team, none⟩))
  | unverified (c : Caller) (session key : String) (existing : Option SessionProof) (r : Resolved) (why : String) :
      Ran net w t (.verifying c session key existing r) (.refused why) net (w.leaves t (.failed c why))
  | resumed (m : Making) (prior : SessionProof) (expires_at : ℕ) (p : SessionProof) (bus : Bus)
      (hbus : net.bus.resume prior expires_at = some (p, bus)) :
      Ran net w t (.resuming m prior) (.issued expires_at) { net with bus := bus }
        (w.goes t (.opening { m with proof := some p }))
  | resumed_lost (m : Making) (prior : SessionProof) (expires_at : ℕ) (why : String) (p : SessionProof) (bus : Bus)
      (hbus : net.bus.resume prior expires_at = some (p, bus)) :
      Ran net w t (.resuming m prior) (.lost expires_at why) { net with bus := bus }
        (w.leaves t (.failed m.caller why))
  | rejected (m : Making) (prior : SessionProof) (hdead : net.bus.accepts prior.token = false) :
      Ran net w t (.resuming m prior) .rejected net (w.goes t (.registering m))
  | unresumed (m : Making) (prior : SessionProof) (why : String) :
      Ran net w t (.resuming m prior) (.refused why) net (w.leaves t (.failed m.caller why))
  | registered (m : Making) (expires_at : ℕ) (p : SessionProof) (bus : Bus)
      (hbus : net.bus.register m.agent m.team m.session expires_at = some (p, bus)) :
      Ran net w t (.registering m) (.issued expires_at) { net with bus := bus }
        (w.goes t (.opening { m with proof := some p }))
  | registered_lost (m : Making) (expires_at : ℕ) (why : String) (p : SessionProof) (bus : Bus)
      (hbus : net.bus.register m.agent m.team m.session expires_at = some (p, bus)) :
      Ran net w t (.registering m) (.lost expires_at why) { net with bus := bus }
        (w.leaves t (.failed m.caller why))
  | legacy (m : Making) : Ran net w t (.registering m) .legacy net (w.goes t (.opening m))
  | unregistered (m : Making) (why : String) :
      Ran net w t (.registering m) (.refused why) net (w.leaves t (.failed m.caller why))
  | opened (m : Making) : Ran net w t (.opening m) .done net (w.goes t (.checking m))
  | unopened (m : Making) (why : String) :
      Ran net w t (.opening m) (.refused why) net (w.leaves t (.failed m.caller why))
  | other_team (m : Making) (old : Identity) (hold : w.st.identity = some old) (hteam : old.team ≠ m.team) :
      Ran net w t (.checking m) .done net (w.leaves t (.failed m.caller (Proxy.other_team old m)))
  | checked (m : Making) (hteam : ∀ old, w.st.identity = some old → old.team = m.team) :
      Ran net w t (.checking m) .done net (w.goes t (.defaulting m))
  | defaulting (m : Making) :
      Ran net w t (.defaulting m) .done net (w.sets t (w.st.defaults m.resolved) (.taking m))
  | taking (m : Making) (old : Connected) (hold : w.st.connected = some old) :
      Ran net w t (.taking m) .done net (w.sets t { w.st with connected := none }
        (if old.proof.isSome then .revoking m old else .committing m))
  | taking_none (m : Making) (hnone : w.st.connected = none) :
      Ran net w t (.taking m) .done net (w.goes t (.committing m))
  | revoked (m : Making) (old : Connected) :
      Ran net w t (.revoking m old) .done
        { net with bus := old.proof.elim net.bus fun p => net.bus.revoke p.token } (w.goes t (.committing m))
  | unrevoked (m : Making) (old : Connected) (why : String) :
      Ran net w t (.revoking m old) (.refused why) net (w.goes t (.committing m))
  | committing (m : Making) :
      Ran net w t (.committing m) .done net (w.sets t (w.st.commit m.connected) (.snapshot m.caller.next))
  | failed (c : Caller) (why : String) :
      Ran net w t (.failed c why) .done net (w.sets t (w.st.restored c why) (.returned (.error why)))
  | labelling (l : Labels) :
      Ran net w t (.labelling l) .done net (w.sets t (w.st.labelled l) (.snapshot (.reply .ok)))
  | unadopted (dir why : String) :
      Ran net w t (.adopting dir) (.refused why) net (w.goes t (.returned (.error why)))
  | relabelled (dir : String) (r : Resolved) (hsame : w.st.same_profile r = true) :
      Ran net w t (.adopting dir) (.resolved r) net (w.sets t (w.st.relabelled dir r) (.snapshot (.reply .ok)))
  | rooted (dir : String) (r : Resolved) (hother : w.st.same_profile r = false) :
      Ran net w t (.adopting dir) (.resolved r) net
        (w.sets t (w.st.rooted dir) (.connecting (.adopt w.st.roots_dir) w.st.connected.isNone))
  | rebinding (host_id : String) (source : Binding) :
      Ran net w t (.rebinding host_id source) .done net (w.goes t (.staging host_id source w.st.previous))
  | staging (host_id : String) (source : Binding) (previous : Caller) :
      Ran net w t (.staging host_id source previous) .done net
        (w.sets t (w.st.staged (session_for host_id) host_id source) (.connecting previous true))
  | resuming_in_place (p : SessionProof) (hfree : w.switch = none)
      (hproof : w.st.connected.bind Connected.proof = some p) :
      Ran net w t .resuming_in_place .done net (w.takes t (.rotating p w.st.session))
  | forwarded : Ran net w t .resuming_in_place .done net (w.goes t (.returned .forwarded))
  | rotated (prior : SessionProof) (session : String) (expires_at : ℕ) (p : SessionProof) (bus : Bus)
      (hbus : net.bus.resume prior expires_at = some (p, bus)) :
      Ran net w t (.rotating prior session) (.issued expires_at) { net with bus := bus }
        (w.goes t (.reopening p session))
  | rotated_lost (prior : SessionProof) (session : String) (expires_at : ℕ) (why : String) (p : SessionProof)
      (bus : Bus) (hbus : net.bus.resume prior expires_at = some (p, bus)) :
      Ran net w t (.rotating prior session) (.lost expires_at why) { net with bus := bus }
        (w.leaves t (.returned (.error why)))
  | unrotated (prior : SessionProof) (session why : String) :
      Ran net w t (.rotating prior session) (.refused why) net (w.leaves t (.returned (.error why)))
  | reopening (p : SessionProof) (session : String) (o : Outcome) (failed : Option String) :
      Ran net w t (.reopening p session) o net (w.goes t (.adopt_resumed p session failed))
  | unconnected (p : SessionProof) (session : String) (failed : Option String) (hnone : w.st.connected = none) :
      Ran net w t (.adopt_resumed p session failed) .done net (w.leaves t (.returned (.error no_connection)))
  | adopted (p : SessionProof) (session : String) (c : Connected) (hc : w.st.connected = some c) :
      Ran net w t (.adopt_resumed p session none) .done net
        (w.sets t (w.st.adopted c p session) (.snapshot (.reply .ok)))
  | stranded (p : SessionProof) (session why said : String) (c : Connected) (hc : w.st.connected = some c) :
      Ran net w t (.adopt_resumed p session (some why)) .done net
        (w.sets t (w.st.strand c p why) (.snapshot (.reply (.error said))))
  | snapshot (next : Next) :
      Ran net w t (.snapshot next) .done net (w.goes t (.writing (binding_path w.st.key) w.st.record next))
  | writing (path : String) (r : Record) (next : Next) :
      Ran net w t (.writing path r next) .done (net.write path r) { w.goes t next.task with switch := w.freed t }
  | unwritten (path : String) (r : Record) (next : Next) (why : String) :
      Ran net w t (.writing path r next) (.refused why) net { w.goes t next.task with switch := w.freed t }
  | renewing (p : SessionProof) (generation expires_at : ℕ) :
      Ran net w t (.renewing p generation) (.renewed expires_at) net (w.goes t (.renewed p generation expires_at))
  | extended (p : SessionProof) (expires_at : ℕ) (c : Connected) (q : SessionProof)
      (hc : w.st.connected = some c) (hq : c.proof = some q) (hid : q.session_id = p.session_id)
      (hepoch : q.epoch = p.epoch) :
      Ran net w t (.renewed p w.st.generation expires_at) .done net
        (w.sets t (w.st.extended c q expires_at) (.stamping p expires_at))
  | stamping (p : SessionProof) (expires_at : ℕ) :
      Ran net w t (.stamping p expires_at) .done net (w.goes t (.stamp (binding_path w.st.key) p expires_at))
  | stamped (path : String) (p : SessionProof) (expires_at : ℕ) (r : Record) (hr : net.files path = some r)
      (his : r.is_of p = true) :
      Ran net w t (.stamp path p expires_at) .done (net.write path (r.stamped expires_at)) (w.goes t (.returned .ok))
  | unstamped (path : String) (p : SessionProof) (expires_at : ℕ) (o : Outcome)
      (hnot : o = .done → ∀ r, net.files path = some r → r.is_of p = false) :
      Ran net w t (.stamp path p expires_at) o net (w.goes t (.returned .ok))
  | closing (i : Identity) (hi : w.st.identity = some i) :
      Ran net w t .closing .done net (w.goes t (.closed (binding_path w.st.key) i.proof))
  | closed (path : String) (mine : Option SessionProof) (r : Record) (hr : net.files path = some r)
      (his : ∀ p, mine = some p → r.is_of p = true) :
      Ran net w t (.closed path mine) .done (net.write path { r with closed := true }) (w.goes t (.returned .ok))
  | idle (task : Task) (o : Outcome) (hidle : Idle task) : Ran net w t task o net (w.goes t (.returned .ok))

variable {session_for binding_path : String → String} {net net' : World} {w w' : Window} {t i : ℕ} {o : Outcome}
  {a : Act} {α : Type*} {l : List α} {c : Call}

/-- `run` does one of the things `Ran` lists. -/
theorem run_ran {task : Task} (h : w.run session_for binding_path net t task o = some (net', w')) :
    Ran session_for binding_path net w t task o net' w' := by
  have hpair : ∀ {a : World} {b : Window}, some (a, b) = some (net', w') → a = net' ∧ b = w' :=
    fun h => Prod.mk.inj (Option.some.inj h)
  unfold Window.run at h
  split at h
  -- the branches that decide nothing have one constructor each
  all_goals first
    | (obtain ⟨rfl, rfl⟩ := hpair h; constructor; done)
    | skip
  · split at h
    · rename_i hfree
      obtain ⟨rfl, rfl⟩ := hpair h
      exact .connecting _ _ hfree
    · cases h
  · split at h
    · obtain ⟨rfl, rfl⟩ := hpair h
      exact .unexpected _ _ _ _ _ _ _ _
    · split at h
      · obtain ⟨rfl, rfl⟩ := hpair h
        exact .verified_stored _ _ _ _ _ _ _
      · obtain ⟨rfl, rfl⟩ := hpair h
        exact .verified_new _ _ _ _ _ _
  · obtain ⟨⟨p, bus⟩, hbus, h⟩ := Option.map_eq_some_iff.mp h
    obtain ⟨rfl, rfl⟩ := Prod.mk.inj h
    exact .resumed _ _ _ p bus hbus
  · obtain ⟨⟨p, bus⟩, hbus, h⟩ := Option.map_eq_some_iff.mp h
    obtain ⟨rfl, rfl⟩ := Prod.mk.inj h
    exact .resumed_lost _ _ _ _ p bus hbus
  · split at h
    · cases h
    · rename_i hdead
      obtain ⟨rfl, rfl⟩ := hpair h
      exact .rejected _ _ (Bool.eq_false_iff.mpr hdead)
  · obtain ⟨⟨p, bus⟩, hbus, h⟩ := Option.map_eq_some_iff.mp h
    obtain ⟨rfl, rfl⟩ := Prod.mk.inj h
    exact .registered _ _ p bus hbus
  · obtain ⟨⟨p, bus⟩, hbus, h⟩ := Option.map_eq_some_iff.mp h
    obtain ⟨rfl, rfl⟩ := Prod.mk.inj h
    exact .registered_lost _ _ _ p bus hbus
  · split at h
    · rename_i old hold
      obtain ⟨hold, hteam⟩ := Option.filter_eq_some_iff.mp hold
      obtain ⟨rfl, rfl⟩ := hpair h
      exact .other_team _ old hold (by simpa using hteam)
    · rename_i hnone
      obtain ⟨rfl, rfl⟩ := hpair h
      refine .checked _ fun old hold => ?_
      have hteam := Option.filter_eq_none_iff.mp hnone old hold
      simpa using hteam
  · split at h
    · rename_i old hold
      obtain ⟨rfl, rfl⟩ := hpair h
      exact .taking _ old hold
    · rename_i hnone
      obtain ⟨rfl, rfl⟩ := hpair h
      exact .taking_none _ hnone
  · split at h
    · rename_i hsame
      obtain ⟨rfl, rfl⟩ := hpair h
      exact .relabelled _ _ hsame
    · rename_i hother
      obtain ⟨rfl, rfl⟩ := hpair h
      exact .rooted _ _ (Bool.eq_false_iff.mpr hother)
  · split at h
    · rename_i hfree
      split at h
      · rename_i p hp
        obtain ⟨rfl, rfl⟩ := hpair h
        exact .resuming_in_place p hfree hp
      · obtain ⟨rfl, rfl⟩ := hpair h
        exact .forwarded
    · cases h
  · obtain ⟨⟨p, bus⟩, hbus, h⟩ := Option.map_eq_some_iff.mp h
    obtain ⟨rfl, rfl⟩ := Prod.mk.inj h
    exact .rotated _ _ _ p bus hbus
  · obtain ⟨⟨p, bus⟩, hbus, h⟩ := Option.map_eq_some_iff.mp h
    obtain ⟨rfl, rfl⟩ := Prod.mk.inj h
    exact .rotated_lost _ _ _ _ p bus hbus
  · split at h
    · rename_i hnone
      obtain ⟨rfl, rfl⟩ := hpair h
      exact .unconnected _ _ _ hnone
    · rename_i c hc
      obtain ⟨rfl, rfl⟩ := hpair h
      exact .adopted _ _ c hc
    · rename_i c why hc
      obtain ⟨rfl, rfl⟩ := hpair h
      exact .stranded _ _ why _ c hc
  · obtain ⟨rfl, rfl⟩ := hpair h
    exact .idle _ _ (.renewing _ _)
  · split at h
    · rename_i c q hcq
      obtain ⟨c', hc', hmap⟩ := Option.bind_eq_some_iff.mp hcq
      obtain ⟨q', hq', heq⟩ := Option.map_eq_some_iff.mp hmap
      obtain ⟨rfl, rfl⟩ := Prod.mk.inj heq
      split at h
      · rename_i hsame
        obtain ⟨rfl, hid, hepoch⟩ := hsame
        obtain ⟨rfl, rfl⟩ := hpair h
        exact .extended _ _ c' q' hc' hq' hid hepoch
      · obtain ⟨rfl, rfl⟩ := hpair h
        exact .idle _ _ (.renewed _ _ _)
    · obtain ⟨rfl, rfl⟩ := hpair h
      exact .idle _ _ (.renewed _ _ _)
  · split at h
    · rename_i r hr
      obtain ⟨hr, his⟩ := Option.filter_eq_some_iff.mp hr
      obtain ⟨rfl, rfl⟩ := hpair h
      exact .stamped _ _ _ r hr his
    · rename_i hnone
      obtain ⟨rfl, rfl⟩ := hpair h
      exact .unstamped _ _ _ _ fun _ r hr => Bool.eq_false_iff.mpr (Option.filter_eq_none_iff.mp hnone r hr)
  · obtain ⟨rfl, rfl⟩ := hpair h
    exact .unstamped _ _ _ _ fun heq => Outcome.noConfusion heq
  · split at h
    · rename_i i hi
      obtain ⟨rfl, rfl⟩ := hpair h
      exact .closing i hi
    · obtain ⟨rfl, rfl⟩ := hpair h
      exact .idle _ _ .closing
  · split at h
    · rename_i r hr
      obtain ⟨hr, his⟩ := Option.filter_eq_some_iff.mp hr
      obtain ⟨rfl, rfl⟩ := hpair h
      refine .closed _ _ r hr fun p hp => ?_
      rw [hp] at his
      exact his
    · obtain ⟨rfl, rfl⟩ := hpair h
      exact .idle _ _ (.closed _ _)
  · obtain ⟨rfl, rfl⟩ := hpair h
    exact .idle _ _ (.closed _ _)
  · cases h

/-! ## One window -/

/-- A window, and what is around it. -/
structure Sys where
  net : World
  window : Window

/-- What happens: the window does something, or others do on the bus. -/
inductive Event where
  | act (a : Act)
  | bus (e : Elsewhere)
  deriving DecidableEq, Repr

/-- One step. -/
def step (session_for binding_path : String → String) (s : Sys) : Event → Option Sys
  | .act a => (s.window.step session_for binding_path s.net a).map fun (net, window) => ⟨net, window⟩
  | .bus e => some { s with net := { s.net with bus := s.net.bus.elsewhere e } }

/-- A process that has just begun. -/
structure Window.Starts (w : Window) : Prop where
  connected : w.st.connected = none
  stranded : w.st.stranded = none
  switch : w.switch = none
  tasks : w.tasks = []

/-- What a step of a window does. -/
inductive Acted (session_for binding_path : String → String) (net : World) (w : Window) :
    Act → World → Window → Prop
  | called {c : Call} (w' : Window) (hw : w.begin c = some w') : Acted session_for binding_path net w (.call c) net w'
  | ran {t : ℕ} {o : Outcome} (task : Task) (net' : World) (w' : Window) (htask : w.tasks[t]? = some task)
      (hran : Ran session_for binding_path net w t task o net' w') :
      Acted session_for binding_path net w (.run t o) net' w'
  | unauthorized {generation : ℕ} {why : String} (reason : Option String) :
      Acted session_for binding_path net w (.unauthorized generation why) net
        { w with st := { w.st with disconnected_reason := reason } }

/-- A step of a window is one of those that `Acted` lists. -/
theorem step_acted
    (h : w.step session_for binding_path net a = some (net', w')) : Acted session_for binding_path net w a net' w' := by
  cases a with
  | call c =>
    obtain ⟨w'', hw, heq⟩ := Option.map_eq_some_iff.mp h
    obtain ⟨rfl, rfl⟩ := Prod.mk.inj heq
    exact .called w'' hw
  | run t o =>
    obtain ⟨task, htask, hran⟩ := Option.bind_eq_some_iff.mp h
    exact .ran task net' w' htask (run_ran hran)
  | unauthorized generation why =>
    simp only [Window.step] at h
    split at h
    · obtain ⟨rfl, rfl⟩ := Prod.mk.inj (Option.some.inj h)
      exact .unauthorized (some why)
    · obtain ⟨rfl, rfl⟩ := Prod.mk.inj (Option.some.inj h)
      exact .unauthorized w.st.disconnected_reason

/-- What a step does to a window and what is around it. -/
theorem step_did {s s' : Sys} {e : Event} (h : step session_for binding_path s e = some s') :
    (∃ a, e = .act a ∧ Acted session_for binding_path s.net s.window a s'.net s'.window) ∨
      ∃ b, e = .bus b ∧ s' = { s with net := { s.net with bus := s.net.bus.elsewhere b } } := by
  cases e with
  | act a =>
    obtain ⟨⟨net, window⟩, hstep, rfl⟩ := Option.map_eq_some_iff.mp h
    exact .inl ⟨a, rfl, step_acted hstep⟩
  | bus b => exact .inr ⟨b, rfl, (Option.some.inj h).symm⟩

/-! ### Calls from one step to the next -/

/-- The call has `switch`, and works for this session and this key. -/
def Task.works : Task → Option (String × Option String)
  | .reading _ _ session key | .resolving _ session key _ | .verifying _ session key _ _ => some (session, some key)
  | .resuming m _ | .registering m | .opening m | .checking m | .defaulting m | .taking m | .revoking m _
  | .committing m => some (m.session, some m.binding_key)
  | .rotating _ session | .reopening _ session | .adopt_resumed _ session _ => some (session, none)
  | _ => none

/-- The first step of a call. -/
def Call.task (w : Window) : Call → Option Task
  | .initial => if w.tasks = [] then some (.connecting .initial true) else none
  | .configure labels profile => some (if profile then .connecting (.configure labels) false else .labelling labels)
  | .adopt dir => some (.adopting dir)
  | .rebind host_id source => if w.st.host_id = none then some (.rebinding host_id source) else none
  | .resume => some .resuming_in_place
  | .renew =>
    if w.tasks.any Task.renews then none
    else (w.st.connected.bind Connected.proof).map fun p => .renewing p w.st.generation
  | .close => some .closing

/-- A call that begins is one more, and has done nothing yet. -/
theorem begin_task (h : w.begin c = some w') :
    ∃ task, c.task w = some task ∧ w' = { w with tasks := w.tasks ++ [task] } := by
  cases c with
  | initial =>
    simp only [Window.begin] at h
    split at h
    · rename_i hnil
      refine ⟨_, if_pos hnil, ?_⟩
      rw [← Option.some.inj h, hnil]
      rfl
    · cases h
  | configure labels profile =>
    cases profile with
    | true | false => exact ⟨_, rfl, (Option.some.inj h).symm⟩
  | rebind host_id source =>
    simp only [Window.begin] at h
    split at h
    · rename_i hnone
      exact ⟨_, if_pos hnone, (Option.some.inj h).symm⟩
    · cases h
  | renew =>
    simp only [Window.begin] at h
    split at h
    · cases h
    · rename_i hnot
      -- there is nothing to renew without a proof
      obtain ⟨p, hp, heq⟩ := Option.map_eq_some_iff.mp h
      refine ⟨.renewing p w.st.generation, ?_, heq.symm⟩
      rw [Call.task, if_neg hnot, hp]
      rfl
  | adopt | resume | close => exact ⟨_, rfl, (Option.some.inj h).symm⟩

/-- What a call may begin with. -/
inductive Begun (w : Window) : Task → Prop
  | connecting (c : Caller) (reuse_proof : Bool) : Begun w (.connecting c reuse_proof)
  | labelling (l : Labels) : Begun w (.labelling l)
  | adopting (dir : String) : Begun w (.adopting dir)
  | rebinding (host_id : String) (source : Binding) : Begun w (.rebinding host_id source)
  | resuming_in_place : Begun w .resuming_in_place
  | renewing (p : SessionProof) (hproof : w.st.connected.bind Connected.proof = some p)
      (hnone : w.tasks.any Task.renews = false) : Begun w (.renewing p w.st.generation)
  | closing : Begun w .closing

/-- A call begins where the state tells it to. -/
theorem task_begun {task : Task} (h : c.task w = some task) : Begun w task := by
  cases c with
  | initial =>
    simp only [Call.task] at h
    split at h
    · rw [← Option.some.inj h]
      exact .connecting _ _
    · cases h
  | rebind host_id source =>
    simp only [Call.task] at h
    split at h
    · rw [← Option.some.inj h]
      exact .rebinding host_id source
    · cases h
  | configure labels profile =>
    cases profile with
    | true => rw [← Option.some.inj h]; exact .connecting _ _
    | false => rw [← Option.some.inj h]; exact .labelling labels
  | renew =>
    simp only [Call.task] at h
    split at h
    · cases h
    · rename_i hnot
      obtain ⟨p, hp, rfl⟩ := Option.map_eq_some_iff.mp h
      exact .renewing p hp (Bool.eq_false_iff.mpr hnot)
  | adopt dir => rw [← Option.some.inj h]; exact .adopting dir
  | resume => rw [← Option.some.inj h]; exact .resuming_in_place
  | close => rw [← Option.some.inj h]; exact .closing

/-- A call that begins does not hold the binding yet. -/
theorem task_works {task : Task} (h : c.task w = some task) : task.works = none := by
  cases task_begun h with
  | _ => rfl

/-- Who works on a connection has `switch`. -/
def Locked (w : Window) : Prop := ∀ (t : ℕ) task, w.tasks[t]? = some task → task.works ≠ none → w.switch = some t

/-- What a call that goes on has of `switch`: it keeps what it has, or takes it, or gives it back. -/
inductive Keeps (w w' : Window) (t : ℕ) (task task' : Task) : Prop
  | same (hswitch : w'.switch = w.switch) (hworks : task'.works ≠ none → task.works ≠ none)
  | took (hfree : w.switch = none) (hswitch : w'.switch = some t)
  | left (hswitch : w'.switch = w.freed t) (hworks : task'.works = none)
  | gave (hworks : task.works ≠ none) (hswitch : w'.switch = none) (hworks' : task'.works = none)

/-- Whatever a reconnection goes on to, it no longer works on the binding. -/
theorem next_works (next : Next) : next.task.works = none := by
  cases next with
  | labels l => rfl
  | reply r => rfl

/-- The call whose step it is goes on, and no other. -/
theorem Ran.goes {task : Task} (h : Ran session_for binding_path net w t task o net' w') :
    ∃ task', w'.tasks = w.tasks.set t task' ∧ Keeps w w' t task task' := by
  cases h with
  | connecting c reuse_proof hfree | resuming_in_place p hfree _ => exact ⟨_, rfl, .took hfree rfl⟩
  | writing path r next | unwritten path r next => exact ⟨_, rfl, .left rfl (next_works next)⟩
  | taking m old hold =>
    refine ⟨_, rfl, .same rfl fun _ => Option.some_ne_none _⟩
  | unresolved | unexpected | unverified | resumed_lost | unresumed | registered_lost | unregistered | unopened
  | other_team | rotated_lost | unrotated | unconnected =>
    exact ⟨_, rfl, .gave (Option.some_ne_none _) rfl rfl⟩
  | _ => exact ⟨_, rfl, .same rfl (by simp [Task.works])⟩

/-- One call at a time works on the binding. -/
theorem Locked.step (h : Locked w) (hacted : Acted session_for binding_path net w a net' w') : Locked w' := by
  cases hacted with
  | called w' hw =>
    obtain ⟨task₀, htask₀, rfl⟩ := begin_task hw
    intro t task htask hworks
    rcases append_at htask with htask | ⟨-, rfl⟩
    · exact h t task htask hworks
    · exact absurd (task_works htask₀) hworks
  | unauthorized reason => exact h
  | @ran i o task₀ _ _ htask₀ hran =>
    obtain ⟨task', htasks, hkeeps⟩ := hran.goes
    intro t task htask hworks
    rw [htasks] at htask
    have hother : t ≠ i → w.tasks[t]? = some task → w.switch = some t := fun _ htask => h t task htask hworks
    rcases set_at htask with ⟨rfl, rfl⟩ | ⟨hne, htask⟩
    · cases hkeeps with
      | same hswitch hkept =>
        rw [hswitch]
        exact h i task₀ htask₀ (hkept hworks)
      | took _ hswitch => exact hswitch
      | left _ hnone | gave _ _ hnone => exact absurd hnone hworks
    · have hold := hother hne.symm htask
      cases hkeeps with
      | same hswitch _ => exact hswitch.trans hold
      | took hfree _ => exact absurd (hold.symm.trans hfree) (Option.some_ne_none t)
      | left hswitch _ =>
        rw [hswitch, Window.freed, hold, if_neg fun heq => hne (Option.some.inj heq).symm]
      | gave hhad _ _ => exact absurd (Option.some.inj (hold.symm.trans (h i task₀ htask₀ hhad))) hne.symm

end Step

end CrewSync.Proxy
