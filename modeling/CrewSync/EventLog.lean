/-
The event log: `migrations/0020_event_log.sql` and the reading side in
`tools/events.rs`.

`bus_emit` appends a row under the id of the transaction that writes it, and the
row is in the table from then on; whether a statement sees it is decided by the
snapshot of that statement. `replay` therefore compares two snapshots: it returns
what its own sees and `since` does not, and its own is the next position.

A notification carries the same payload. Nothing is reported from it: a payload
that is not a message only makes the wait ask the log again.
-/
import CrewSync.Messaging
import CrewSync.Mvcc

set_option autoImplicit false

namespace CrewSync.EventLog

open Schema Rows Mvcc Messaging

/-! ## Payloads -/

/-- The fields of a payload, as far as they are read. -/
structure Payload where
  kind : Option String := none
  team_id : Option Uuid := none
  id : Option ℕ := none
  channel_id : Option Uuid := none
  recipient_agent_id : Option Uuid := none
  recipient_session : Option String := none
  sender_agent_id : Option Uuid := none
  sender_session : Option String := none
  announce : Option Bool := none
  key : Option String := none
  status : Option String := none
  claimed_by : Option Uuid := none
  event : Option String := none
  name : Option String := none
  scope : Option String := none
  deriving DecidableEq, Repr

/-- `BusEvent`. -/
structure BusEvent where
  payload : Payload
  deriving DecidableEq, Repr

/-- `BusEvent::kind`. -/
def BusEvent.kind (e : BusEvent) : String := e.payload.kind.getD ""

/-- `BusEvent::is_announcement`. -/
def BusEvent.is_announcement (e : BusEvent) : Bool := e.payload.announce.getD false

/-- `BusEvent::is_direct_message`. -/
def BusEvent.is_direct_message (e : BusEvent) : Bool :=
  e.kind == "message" && e.payload.recipient_agent_id.isSome

/-- `BusEvent::visible_to`. -/
def BusEvent.visible_to (e : BusEvent) (team_id agent_id : Uuid) (session : String) : Bool :=
  if e.payload.team_id != some team_id then false
  else if e.is_direct_message then
    if e.payload.sender_agent_id == some agent_id then true
    else if e.payload.recipient_agent_id != some agent_id then false
    else
      match e.payload.recipient_session with
      | some addressed => addressed == session
      | none => true
  else true

/-- `notify_task`. -/
def notify_task (team_id : Uuid) (key status : String) (claimed_by : Option Uuid) : Payload :=
  { kind := some "task", team_id := some team_id, key := some key, status := some status,
    claimed_by := claimed_by }

/-- `notify_lock`, on a `DELETE`. -/
def notify_lock_released (team_id : Uuid) (name : String) : Payload :=
  { kind := some "lock", event := some "released", team_id := some team_id, name := some name }

/-- `notify_lock`, on an `INSERT` or `UPDATE`. -/
def notify_lock_acquired (team_id : Uuid) (name : String) : Payload :=
  { kind := some "lock", event := some "acquired", team_id := some team_id, name := some name }

/-- `notify_note`. -/
def notify_note (team_id : Uuid) (scope key : String) : Payload :=
  { kind := some "note", team_id := some team_id, scope := some scope, key := some key }

/-- A row that fires one of the three triggers. -/
inductive Change where
  | task (team_id : Uuid) (key status : String) (claimed_by : Option Uuid)
  | lock_released (team_id : Uuid) (name : String)
  | lock_acquired (team_id : Uuid) (name : String)
  | note (team_id : Uuid) (scope key : String)
  deriving DecidableEq, Repr

/-- The payload its trigger passes to `bus_emit`. -/
def Change.payload : Change → Payload
  | .task team_id key status claimed_by => notify_task team_id key status claimed_by
  | .lock_released team_id name => notify_lock_released team_id name
  | .lock_acquired team_id name => notify_lock_acquired team_id name
  | .note team_id scope key => notify_note team_id scope key

/-- The team a change belongs to. -/
def Change.team_id : Change → Uuid
  | .task team_id _ _ _ | .lock_released team_id _ | .lock_acquired team_id _
  | .note team_id _ _ => team_id

/-! ## The table -/

/-- A row of `bus_event_log`. Times are microseconds. -/
structure LogRow where
  id : ℕ
  team_id : Uuid
  logged_at : ℕ
  tx : ℕ
  payload : Payload
  deriving DecidableEq, Repr

/-- The row `bus_emit` inserts: under the next id, at the time of the clock, by
transaction `tx`. -/
def bus_emit (id now tx : ℕ) (c : Change) : LogRow := ⟨id, c.team_id, now, tx, c.payload⟩

/-- `interval '1 day'`. -/
def RETENTION : ℕ := 24 * 3600 * 1000000

/-- The trim of `bus_emit`: of the rows of its batch, those that its snapshot sees
and that are older than a day. The batch is at most 500 rows nobody else holds. -/
def trimmed (now : ℕ) (snapshot : Snapshot) (batch : List ℕ) (log : List LogRow) : List LogRow :=
  delete (fun r => batch.contains r.id && visible r.tx snapshot && r.logged_at + RETENTION < now) log

/-! ## Reading the log -/

/-- `MAX_SINCE_LEN`. -/
def MAX_SINCE_LEN : ℕ := 4096

/-- `REPLAY_LIMIT`. -/
def REPLAY_LIMIT : ℕ := 50

/-- `wants`. -/
def wants (kinds : Option (List String)) (kind : String) : Bool :=
  match kinds with
  | some ks => ks.contains kind
  | none => true

/-- `$3::text[] IS NULL OR e.payload ->> 'kind' = ANY($3)`. -/
def of_kind (kinds : Option (List String)) (p : Payload) : Bool :=
  match kinds with
  | some ks => ks.any fun k => p.kind == some k
  | none => true

/-- The rows a window of a team is told about. -/
def wanted (team_id : Uuid) (kinds : Option (List String)) (r : LogRow) : Bool :=
  r.team_id == team_id && of_kind kinds r.payload

/-- `ev`, for a statement whose snapshot is `now`. The last condition is the
visibility of the table's rows themselves. -/
def ev (team_id : Uuid) (since : Option Snapshot) (kinds : Option (List String)) (now : Snapshot)
    (log : List LogRow) : List LogRow :=
  match since with
  | none => []
  | some p =>
    select (fun r => wanted team_id kinds r && !visible r.tx p && visible r.tx now) LogRow.id log

/-- `Replay`. -/
structure Replay where
  position : Snapshot
  events : List BusEvent
  total : ℕ
  deriving DecidableEq, Repr

/-- `replay`. -/
def replay (team_id : Uuid) (since : Option Snapshot) (kinds : Option (List String))
    (now : Snapshot) (log : List LogRow) : Replay :=
  { position := now
    events := ((ev team_id since kinds now log).take REPLAY_LIMIT).map fun r => ⟨r.payload⟩
    total := (ev team_id since kinds now log).length }

/-- `pg_snapshot::text`. -/
def Snapshot.text (p : Snapshot) : String :=
  s!"{p.xmin}:{p.xmax}:" ++ ",".intercalate (p.xip.map fun n => s!"{n}")

/-- The check of `since`, before anything is read. What passes is cast to
`pg_snapshot`, which reads back what it printed. -/
def since_ok (since : Option Snapshot) : Bool :=
  match since with
  | some p => (Snapshot.text p).utf8ByteSize ≤ MAX_SINCE_LEN
  | none => true

/-! ## Telling -/

/-- `WaitEvent`. -/
structure WaitEvent where
  kind : String
  summary : String
  deriving DecidableEq, Repr

/-- What the other tables say when an event is described: a message's sender,
channel, recipient and the start of its body, and an agent's name. -/
structure Names where
  message : ℕ → Option (String × Option String × Option String × String)
  agent : Uuid → Option String

/-- The target of a described message. -/
def target_of (channel recipient : Option String) : String :=
  match channel, recipient with
  | some c, _ => s!"#{c}"
  | none, some r => s!"@{r}"
  | none, none => ""

/-- The claimer of a described task. -/
def holder_of (names : Names) (claimed_by : Option Uuid) : String :=
  match claimed_by with
  | some agent => ((names.agent agent).map fun n => s!" by {n}").getD ""
  | none => ""

/-- The one-line summary of a message. -/
def describe_message (names : Names) (e : BusEvent) : Option WaitEvent := do
  let id ← e.payload.id
  let (sender, channel, recipient, body) ← names.message id
  some ⟨"message", s!"{sender} → {target_of channel recipient}: {body}"⟩

/-- The one-line summary of a task's change. -/
def describe_task (names : Names) (e : BusEvent) : Option WaitEvent := do
  let key ← e.payload.key
  let status := e.payload.status.getD "?"
  some ⟨"task", s!"task '{key}' is now {status}{holder_of names e.payload.claimed_by}"⟩

/-- The one-line summary of a lock's change. -/
def describe_lock (e : BusEvent) : Option WaitEvent := do
  let name ← e.payload.name
  let what := e.payload.event.getD "changed"
  some ⟨"lock", s!"lock '{name}' {what}"⟩

/-- The one-line summary of a note's change. -/
def describe_note (e : BusEvent) : Option WaitEvent := do
  let scope := e.payload.scope.getD "global"
  let key ← e.payload.key
  some ⟨"note", s!"note {scope}/{key} was updated"⟩

/-- `describe`. -/
def describe (names : Names) (e : BusEvent) : Option WaitEvent :=
  if e.kind = "message" then describe_message names e
  else if e.kind = "task" then describe_task names e
  else if e.kind = "lock" then describe_lock e
  else if e.kind = "note" then describe_note e
  else none

/-- The entry of `push_overflow` for `n` changes left out. -/
def backlog (n : ℕ) : WaitEvent :=
  ⟨"backlog", s!"{n} more task, lock or note change(s) since your last wait; call list_tasks, " ++
    "list_locks or list_notes to see the current state"⟩

/-- `push_overflow`. -/
def push_overflow (events : List WaitEvent) (r : Replay) : List WaitEvent :=
  if r.total > r.events.length then events ++ [backlog (r.total - r.events.length)] else events

/-- What is told of a reading of the log, after what was told before. -/
def told (names : Names) (events : List WaitEvent) (r : Replay) : List WaitEvent :=
  push_overflow (events ++ r.events.filterMap (describe names)) r

/-! ## Messages -/

/-- `for_this_window`. -/
def for_this_window (e : BusEvent) (auth : AuthCtx) : Bool :=
  e.payload.recipient_agent_id == some auth.agent_id &&
    match e.payload.recipient_session with
    | some addressed => addressed == auth.session
    | none => true

/-- `in_focus`. -/
def in_focus (e : BusEvent) (focus : Option Uuid) : Bool :=
  if e.is_announcement then true
  else
    match focus, e.payload.channel_id with
    | some channel, some posted_in => channel == posted_in
    | _, _ => true

/-- `in_scope`. -/
def in_scope (e : BusEvent) (scope : Scope) (focus : Option Uuid) (auth : AuthCtx) : Bool :=
  match scope with
  | .All => (!e.is_direct_message || for_this_window e auth) && in_focus e focus
  | .Inbox => e.is_direct_message && for_this_window e auth
  | .Channel id _ => e.payload.channel_id == some id

/-- This window's own message. -/
def own_message (e : BusEvent) (auth : AuthCtx) : Bool :=
  e.payload.sender_agent_id == some auth.agent_id &&
    e.payload.sender_session.getD "" == auth.session

/-- A window that waits: who it is, and what for. -/
structure Wait where
  auth : AuthCtx
  scope : Scope
  focus : Option Uuid
  kinds : Option (List String)
  deriving DecidableEq, Repr

/-- What the loop of a wait does with a notification. -/
inductive Heard where
  /-- Nothing: it keeps waiting. -/
  | skip
  /-- Asks the log. -/
  | ask
  /-- Reports a message. -/
  | message (d : WaitEvent)
  deriving DecidableEq, Repr

/-- The body of the loop, up to what it does about it. -/
def hear (w : Wait) (names : Names) (e : BusEvent) : Heard :=
  if !e.visible_to w.auth.team_id w.auth.agent_id w.auth.session || !wants w.kinds e.kind ||
      (e.kind == "message" && !in_scope e w.scope w.focus w.auth) then .skip
  else if e.kind != "message" then .ask
  else if own_message e w.auth then .skip
  else
    match describe names e with
    | some d => .message d
    | none => .skip

/-- A notification within the grace window of a message: reported if it is one
more. -/
def batched (w : Wait) (names : Names) (e : BusEvent) : Option WaitEvent :=
  if e.kind == "message" && e.visible_to w.auth.team_id w.auth.agent_id w.auth.session &&
      in_scope e w.scope w.focus w.auth && wants w.kinds "message" && !own_message e w.auth
  then describe names e else none

/-! ## The answer -/

/-- `Scope::label`. -/
def Scope.label : Scope → String
  | .All => "all"
  | .Inbox => "inbox"
  | .Channel _ name => s!"#{name}"

/-- `Scope::read_with`. -/
def Scope.read_with : Scope → String
  | .All => "read_messages \x7b\"scope\": \"all\"\x7d"
  | .Inbox => "read_messages \x7b\"scope\": \"inbox\"\x7d"
  | .Channel _ name => "read_messages \x7b\"scope\": \"#" ++ name ++ "\"\x7d"

/-- The entry for messages that were unread before the wait. -/
def unread_entry (pending : ℕ) (scope : Scope) : WaitEvent :=
  ⟨"message", s!"{pending} unread message(s) already waiting in {Scope.label scope}"⟩

/-- The entry for notifications that were missed. -/
def lagged_entry : WaitEvent := ⟨"unknown", "event stream lagged; re-check the bus"⟩

/-- The counts read back after a wait. -/
structure Counts where
  unread : ℕ
  unread_in_scope : ℕ
  pending_questions : ℕ
  deriving DecidableEq, Repr

/-- `suggestion_for`. -/
def suggestion_for (events : List WaitEvent) (unread in_scope : ℕ) (read_with : String) : String :=
  if (events.any fun e => e.kind == "message") || in_scope > 0 then
    s!"Call {read_with} to fetch the new messages."
  else if unread > 0 then
    "Call read_messages \x7b\"scope\": \"inbox\"\x7d to fetch your unread direct messages."
  else if events.any fun e => e.kind == "task" then
    "Call list_tasks (or get_task) to see what changed."
  else if events.any fun e => e.kind == "lock" then
    "Call list_locks (or retry acquire_lock) now."
  else if events.any fun e => e.kind == "note" then "Call get_note to read the updated note."
  else
    "Nothing happened. Every further wait costs you a model turn: do other work, " ++
      "or end your turn if there is none, rather than waiting again in a loop. If you " ++
      "must keep watching, wait once with a long timeout_seconds (up to 1800 through " ++
      "ai-crew-sync mcp proxy)."

/-- `WaitResult`. -/
structure WaitResult where
  woke : Bool
  timed_out : Bool
  events : List WaitEvent
  unread_direct_messages : ℕ
  suggestion : String
  resume_from : Snapshot
  message_scope : String
  unread_in_scope : ℕ
  read_with : String
  pending_questions : ℕ
  deriving DecidableEq, Repr

/-- `wait_result`. -/
def wait_result (w : Wait) (counts : Counts) (events : List WaitEvent) (position : Snapshot) :
    WaitResult :=
  { woke := !events.isEmpty
    timed_out := events.isEmpty
    events := events
    unread_direct_messages := counts.unread
    suggestion := suggestion_for events counts.unread counts.unread_in_scope
      (Scope.read_with w.scope)
    resume_from := position
    message_scope := Scope.label w.scope
    unread_in_scope := counts.unread_in_scope
    read_with := Scope.read_with w.scope
    pending_questions := counts.pending_questions }

/-! ## What is in the log can be told -/

section Telling

variable {names : Names} {e : BusEvent} {d : WaitEvent}

/-- A summary is of the kind of the event. -/
theorem describe_kind (h : describe names e = some d) : d.kind = e.kind := by
  unfold describe at h
  split at h
  · rename_i hkind
    simp only [describe_message, Option.bind_eq_bind, Option.bind_eq_some_iff] at h
    obtain ⟨id, -, row, -, h⟩ := h
    rw [hkind, ← Option.some.inj h]
  · split at h
    · rename_i hkind
      simp only [describe_task, Option.bind_eq_bind, Option.bind_eq_some_iff] at h
      obtain ⟨key, -, h⟩ := h
      rw [hkind, ← Option.some.inj h]
    · split at h
      · rename_i hkind
        simp only [describe_lock, Option.bind_eq_bind, Option.bind_eq_some_iff] at h
        obtain ⟨name, -, h⟩ := h
        rw [hkind, ← Option.some.inj h]
      · split at h
        · rename_i hkind
          simp only [describe_note, Option.bind_eq_bind, Option.bind_eq_some_iff] at h
          obtain ⟨key, -, h⟩ := h
          rw [hkind, ← Option.some.inj h]
        · cases h

/-- What a trigger logs can be described. -/
theorem describe_change (names : Names) (c : Change) : (describe names ⟨c.payload⟩).isSome = true := by
  cases c with
  | task team_id key status claimed_by => rfl
  | lock_released team_id name => rfl
  | lock_acquired team_id name => rfl
  | note team_id scope key => rfl

/-- A logged change is not a message. -/
theorem change_kind (c : Change) :
    c.payload.kind = some "task" ∨ c.payload.kind = some "lock" ∨ c.payload.kind = some "note" := by
  cases c with
  | task team_id key status claimed_by => exact .inl rfl
  | lock_released team_id name | lock_acquired team_id name => exact .inr (.inl rfl)
  | note team_id scope key => exact .inr (.inr rfl)

end Telling

end CrewSync.EventLog
