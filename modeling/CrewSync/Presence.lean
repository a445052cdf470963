/-
`store/presence.rs`: `heartbeat`.

One statement writes the window's row, on an insert path for a window without one and
on a conflict path for a window that has one, and reports it back. An attention report
carries how long ago it was observed, and the row keeps the newest one, measured on the
database's clock, so that a report sent late does not overwrite a newer one.

That holds against a value. A clear leaves nothing in the row, its time included, so a
value that was observed before the clear and arrives after it is stored. What the two
columns hold is a register in the sense of `Registers`, whichever of the two paths a
heartbeat takes (`heartbeat_stores`), and when the newest report wins is read off there.

Times are microseconds; `now` is the time the transaction began, `clock` the server's
own when it words the answer, and `tidied` the moment of the sweep that follows the
commit, if it went through. Heartbeats of one window wait for each other on its row, so
they are one sequence, but nothing says that their `now` increase.
-/
import CrewSync.Send
import CrewSync.Messaging
import CrewSync.Registers

set_option autoImplicit false

namespace CrewSync.Presence

open Error Schema Rows Auth Send Registers

/-! ## The row -/

/-- `agent_presence`: one row per window, `PRIMARY KEY (agent_id, session)`. -/
structure AgentPresence where
  agent_id : Uuid
  session : String
  status : String
  repo : Option String
  branch : Option String
  activity : Option String
  project : Option String
  role : Option String
  updated_at : ℤ
  expires_at : ℤ
  attention : Option String
  attention_at : Option ℤ
  last_tool_at : Option ℤ
  last_inbox_read_at : Option ℤ
  wake : Option String
  wake_until : Option ℤ
  wake_token : Option String
  wake_result : Option String
  wake_result_at : Option ℤ
  deriving DecidableEq, Repr

/-- `DEFAULT_TTL_SECS`, `MAX_TTL_SECS` and the same for a wake announcement. -/
def DEFAULT_TTL_SECS : ℤ := 600

def MAX_TTL_SECS : ℤ := 86400

def DEFAULT_WAKE_TTL_SECS : ℤ := 3600

def MAX_WAKE_TTL_SECS : ℤ := 86400

def MAX_PRESENCE_FIELD_BYTES : ℕ := 256

def MAX_LABEL_BYTES : ℕ := 64

/-- `ATTENTION_FRESH_SECS`. -/
def ATTENTION_FRESH_SECS : ℤ := 600

/-- `i64::clamp`. -/
def clamp (x lo hi : ℤ) : ℤ := max lo (min x hi)

/-! ## What a heartbeat says -/

/-- `HeartbeatInput`. -/
structure HeartbeatInput where
  status : Option String := none
  repo : Option String := none
  branch : Option String := none
  activity : Option String := none
  project : Option String := none
  role : Option String := none
  ttl_seconds : Option ℤ := none
  attention : Option String := none
  tool_activity : Bool := false
  wake : Option String := none
  attention_observed_ms_ago : Option ℤ := none
  wake_token : Option String := none
  wake_ttl_seconds : Option ℤ := none
  wake_result : Option String := none
  refresh_only : Bool := false
  deriving DecidableEq, Repr

/-- `normalize_attention`. -/
def normalize_attention (raw : String) : BusResult String :=
  let value := to_lowercase (trim raw)
  if value = "" ∨ value = "attending" ∨ value = "waiting" ∨ value = "idle" then .ok value
  else .error (.Invalid
    ("attention must be one of: attending, waiting, idle, or \"\" to clear it " ++
      s!"(got '{raw}'); it is what you observe about the model's turn, not a status line"))

/-- `normalize_label`. -/
def normalize_label (field raw : String) : BusResult String :=
  let label := to_lowercase (trim raw)
  if label.isEmpty then .ok label
  else if MAX_LABEL_BYTES < label.utf8ByteSize then
    .error (.Invalid s!"{field} is {label.utf8ByteSize} bytes; the limit is {MAX_LABEL_BYTES}")
  else if label.toList.all fun c =>
      c.isAlphanum || c == '-' || c == '_' || c == '.' || c == ':' then .ok label
  else .error (.Invalid
    (s!"{field} may only contain ASCII letters, digits, '-', '_', '.' and ':' " ++
      s!"(got '{raw}'); it is a label to filter by, not a description — put that " ++
      "in activity"))

/-- `match input.field { Some(v) => Some(check(v)?), None => None }`. -/
def given (check : String → BusResult String) : Option String → BusResult (Option String)
  | none => .ok none
  | some v => (check v).map some

/-- `wake_result`, lower-cased and one of three. -/
def check_wake_result (raw : String) : BusResult String :=
  let v := to_lowercase (trim raw)
  if v = "requested" ∨ v = "confirmed" ∨ v = "failed" then .ok v
  else .error (.Invalid
    (s!"wake_result must be one of: requested, confirmed, failed (got '{v}'); it is " ++
      "what the wake mechanism's last attempt came to"))

/-- The parameters `$3` to `$17` of the statement. -/
structure Bound where
  status : String
  repo : Option String
  branch : Option String
  activity : Option String
  ttl : ℤ
  project : Option String
  role : Option String
  attention : Option String
  tool_activity : Bool
  wake : Option String
  wake_ttl : ℤ
  refresh_only : Bool
  observed_ago_ms : Option ℤ
  wake_token : Option String
  wake_result : Option String
  deriving DecidableEq, Repr

/-- What `heartbeat` does before its transaction. -/
def bind_input (input : HeartbeatInput) : BusResult Bound := do
  let status := (input.status.map fun s => to_lowercase (trim s)).getD "active"
  ensure (["active", "idle", "busy", "blocked"].contains status = true)
    (.Invalid "status must be one of: active, idle, busy, blocked")
  let ttl := clamp (input.ttl_seconds.getD DEFAULT_TTL_SECS) 30 MAX_TTL_SECS
  let repo ← given (fun v => check_text "presence repo" v MAX_PRESENCE_FIELD_BYTES) input.repo
  let branch ← given (fun v => check_text "presence branch" v MAX_PRESENCE_FIELD_BYTES) input.branch
  let activity ← given (fun v => check_text "presence activity" v MAX_PRESENCE_FIELD_BYTES) input.activity
  let project ← given (normalize_label "project") input.project
  let role ← given (normalize_label "role") input.role
  let attention ← given normalize_attention input.attention
  let wake ← given (normalize_label "wake") input.wake
  let observed_ago_ms := input.attention_observed_ms_ago.map fun ms => clamp ms 0 86400000
  ensure (∀ t, input.wake_token = some t → t.utf8ByteSize ≤ 128)
    (.Invalid "wake_token is at most 128 bytes; it is an opaque marker, not a payload")
  let wake_result ← given check_wake_result input.wake_result
  let wake_ttl := clamp (input.wake_ttl_seconds.getD DEFAULT_WAKE_TTL_SECS) 30 MAX_WAKE_TTL_SECS
  pure ⟨status, repo, branch, activity, ttl, project, role, attention, input.tool_activity, wake, wake_ttl,
    input.refresh_only, observed_ago_ms, input.wake_token, wake_result⟩

/-! ## The statement -/

/-- `make_interval(secs => s)`. -/
def interval_secs (s : ℤ) : ℤ := 1000000 * s

/-- `now() - make_interval(secs => COALESCE($15, 0))`. -/
def observed (now : ℤ) (b : Bound) : ℤ := now - 1000 * b.observed_ago_ms.getD 0

/-- `NULLIF(v, '')`. -/
def nullif_empty (v : Option String) : Option String := if v = some "" then none else v

/-- The row `VALUES` makes, which is also `EXCLUDED`. -/
def excluded (now : ℤ) (auth : AuthCtx) (b : Bound) : AgentPresence where
  agent_id := auth.agent_id
  session := auth.session
  status := b.status
  repo := b.repo
  branch := b.branch
  activity := nullif_empty b.activity
  project := nullif_empty b.project
  role := nullif_empty b.role
  updated_at := now
  expires_at := now + interval_secs b.ttl
  attention := nullif_empty b.attention
  attention_at := if nullif_empty b.attention = none then none else some (observed now b)
  last_tool_at := if b.tool_activity then some (observed now b) else none
  last_inbox_read_at := none
  wake := nullif_empty b.wake
  wake_until := if nullif_empty b.wake = none then none else some (now + interval_secs b.wake_ttl)
  wake_token := if nullif_empty b.wake = none then none else b.wake_token
  wake_result := b.wake_result
  wake_result_at := if b.wake_result = none then none else some now

/-- A label that '' clears, and that stays where it is omitted. -/
def label_case (parameter excluded old : Option String) : Option String :=
  if parameter = some "" then none else excluded.or old

/-- The report is older than what is stored. -/
def is_history (now : ℤ) (b : Bound) (old : AgentPresence) : Prop :=
  ∃ at_ ∈ old.attention_at, observed now b < at_

instance (now : ℤ) (b : Bound) (old : AgentPresence) : Decidable (is_history now b old) := by
  unfold is_history
  infer_instance

/-- A withdrawal that names another announcement than the stored one. -/
def withdraws_anothers (b : Bound) (old : AgentPresence) : Prop :=
  b.wake = some "" ∧ b.wake_token ≠ none ∧ old.wake_token ≠ b.wake_token

instance (b : Bound) (old : AgentPresence) : Decidable (withdraws_anothers b old) := by
  unfold withdraws_anothers
  infer_instance

/-- One of the three `wake` columns. -/
def wake_case {α : Type} (b : Bound) (old : AgentPresence) (stored announced : Option α) : Option α :=
  if b.wake = none then stored
  else if withdraws_anothers b old then stored
  else if b.wake = some "" then none
  else announced

/-- `ON CONFLICT (agent_id, session) DO UPDATE SET …`. -/
def on_conflict (now : ℤ) (auth : AuthCtx) (b : Bound) (old : AgentPresence) : AgentPresence :=
  let new := excluded now auth b
  { old with
    status := if b.refresh_only then old.status else new.status
    repo := new.repo.or old.repo
    branch := new.branch.or old.branch
    activity := label_case b.activity new.activity old.activity
    project := label_case b.project new.project old.project
    role := label_case b.role new.role old.role
    attention :=
      if b.attention = none then old.attention
      else if is_history now b old then old.attention
      else if b.attention = some "" then none
      else b.attention
    attention_at :=
      if b.attention = none then old.attention_at
      else if is_history now b old then old.attention_at
      else if b.attention = some "" then none
      else some (observed now b)
    last_tool_at :=
      if b.tool_activity then
        some (match old.last_tool_at with
          | none => observed now b
          | some t => max t (observed now b))
      else old.last_tool_at
    wake := wake_case b old old.wake b.wake
    wake_until := wake_case b old old.wake_until (some (now + interval_secs b.wake_ttl))
    wake_token := wake_case b old old.wake_token b.wake_token
    wake_result := b.wake_result.or old.wake_result
    wake_result_at := if b.wake_result = none then old.wake_result_at else some now
    updated_at := now
    expires_at := new.expires_at }

/-- The window's row. -/
def at_window (agent_id : Uuid) (session : String) (p : AgentPresence) : Bool :=
  p.agent_id == agent_id && p.session == session

/-- `INSERT … ON CONFLICT … RETURNING`. -/
def write_presence (now : ℤ) (auth : AuthCtx) (b : Bound) (t : List AgentPresence) : List AgentPresence :=
  upsert (at_window auth.agent_id auth.session) (on_conflict now auth b) (excluded now auth b) t

/-- `labels_of`: the project and the role a window last published. -/
def labels_of (auth : AuthCtx) (t : List AgentPresence) : Option String × Option String :=
  match one (at_window auth.agent_id auth.session) t with
  | none => (none, none)
  | some p => (p.project, p.role)

/-- The sweep of this agent's other rows, an hour past their expiry. -/
def sweep (auth : AuthCtx) (now : ℤ) (t : List AgentPresence) : List AgentPresence :=
  delete (fun p => p.agent_id == auth.agent_id && decide (p.session ≠ auth.session) &&
    decide (p.expires_at < now - interval_secs 3600)) t

/-! ## The answer -/

/-- `SessionAttention`. -/
structure SessionAttention where
  state : String
  observed_at : Option ℤ
  last_tool_at : Option ℤ
  last_inbox_read_at : Option ℤ
  wake : String
  wake_until : Option ℤ
  last_wake : Option String
  last_wake_at : Option ℤ
  deriving DecidableEq, Repr

/-- `attention_of`: what the stored observations say at `clock`. -/
def attention_of (clock : ℤ) (raw : AgentPresence) (online : Bool) : SessionAttention :=
  let fresh := raw.attention_at.any fun at_ => (clock - at_).tdiv 1000000 ≤ ATTENTION_FRESH_SECS
  let state :=
    if raw.attention = some "idle" then "idle"
    else if (raw.attention = some "attending" ∨ raw.attention = some "waiting") ∧ online ∧ fresh then
      raw.attention.getD ""
    else "unknown"
  let announced := (raw.wake_until.filter fun until_ => online && decide (clock < until_)).bind fun until_ =>
    raw.wake.map fun w => (w, until_)
  { state
    observed_at := if state = "unknown" ∧ raw.attention = none then none else raw.attention_at
    last_tool_at := raw.last_tool_at
    last_inbox_read_at := raw.last_inbox_read_at
    wake := (announced.map (·.1)).getD "unknown"
    wake_until := announced.map (·.2)
    last_wake := raw.wake_result
    last_wake_at := raw.wake_result_at }

/-- `AgentInfo`, as `heartbeat` answers it. -/
structure AgentInfo where
  name : String
  display_name : Option String
  session : Option String
  status : String
  repo : Option String
  branch : Option String
  activity : Option String
  project : Option String
  role : Option String
  last_seen : ℤ
  online : Bool
  attention : SessionAttention
  deriving DecidableEq, Repr

/-- The tables a heartbeat reads besides its own. -/
structure Around where
  db : Db
  display_name : Uuid → Option String

def agent_info (clock now : ℤ) (auth : AuthCtx) (a : Agent) (display_name : Option String)
    (row : AgentPresence) : AgentInfo :=
  let online := decide (now < row.expires_at)
  { name := a.name
    display_name
    session := Messaging.session_label auth
    status := row.status
    repo := row.repo
    branch := row.branch
    activity := row.activity
    project := row.project
    role := row.role
    last_seen := row.updated_at
    online
    attention := attention_of clock row online }

/-- `sqlx::Error::RowNotFound`, in words. -/
def RowNotFound : String := "no rows returned by a query that expected to return at least one row"

/-- `heartbeat`: the answer, and the table after it. -/
def heartbeat (now clock : ℤ) (tidied : Option ℤ) (auth : AuthCtx) (input : HeartbeatInput) (around : Around)
    (t : List AgentPresence) : BusResult (AgentInfo × List AgentPresence) := do
  let b ← bind_input input
  Sessions.guard now.toNat auth around.db
  let written := write_presence now auth b t
  let row ← fetch (one (at_window auth.agent_id auth.session) written) (.Db RowNotFound)
  let a ← fetch (one (fun a => a.id == auth.agent_id) around.db.agents) (.Db RowNotFound)
  pure (agent_info clock now auth a (around.display_name auth.agent_id) row,
    match tidied with
    | none => written
    | some at_ => sweep auth at_ written)

/-! ## What a heartbeat reports -/

section Reporting

variable {now clock : ℤ} {auth : AuthCtx} {input : HeartbeatInput} {b : Bound} {around : Around}
  {k : Option (String × ℤ)} {t : List AgentPresence}

/-- What `input` says about the model's turn, and when it was observed: `none` where the
field is omitted, a clear where it is empty. -/
def report (now : ℤ) (input : HeartbeatInput) : Option (Report String ℤ) :=
  input.attention.map fun raw =>
    ⟨if to_lowercase (trim raw) = "" then none else some (to_lowercase (trim raw)),
      now - 1000 * (input.attention_observed_ms_ago.map fun ms => clamp ms 0 86400000).getD 0⟩

/-- The two columns that keep `k`. -/
def columns (k : Option (String × ℤ)) : Option String × Option ℤ := (k.map (·.1), k.map (·.2))

theorem columns_inj {k' : Option (String × ℤ)} (h : columns k = columns k') : k = k' := by
  rcases k with _ | ⟨v, t⟩ <;> rcases k' with _ | ⟨v', t'⟩ <;> simp_all [columns]

/-- What is kept, once it has been told `r`. -/
def told (k : Option (String × ℤ)) : Option (Report String ℤ) → Option (String × ℤ)
  | none => k
  | some r => keep k r

theorem normalize_attention_ok {raw v : String} (h : normalize_attention raw = .ok v) :
    v = to_lowercase (trim raw) := by
  unfold normalize_attention at h
  simp only at h
  split at h
  · exact (Except.ok.inj h).symm
  · cases h

theorem given_attention_ok {o v : Option String} (h : given normalize_attention o = .ok v) :
    v = o.map fun raw => to_lowercase (trim raw) := by
  cases o with
  | none => exact (Except.ok.inj h).symm
  | some raw =>
    have h : (normalize_attention raw).map some = .ok v := h
    rcases hn : normalize_attention raw with e | w
    · rw [hn] at h
      exact absurd h (by simp [Except.map])
    · rw [hn] at h
      rw [Option.map_some, ← normalize_attention_ok hn]
      exact (Except.ok.inj h).symm

/-- The statement is told what the heartbeat said. -/
theorem bind_input_report (h : bind_input input = .ok b) :
    (b.attention.map fun v => (⟨if v = "" then none else some v, observed now b⟩ : Report String ℤ))
      = report now input := by
  unfold bind_input at h
  simp only [bind_eq_ok, pure_eq_ok, ensure_eq_ok] at h
  obtain ⟨_, _, _, _, _, _, _, _, _, _, _, _, attention, hattention, _, _, _, _, _, _, rfl⟩ := h
  unfold report observed
  rw [given_attention_ok hattention, Option.map_map]
  rfl

/-- The report of a bound statement. -/
def bound_report (now : ℤ) (b : Bound) : Option (Report String ℤ) :=
  b.attention.map fun v => ⟨if v = "" then none else some v, observed now b⟩

/-- The insert path stores the report as it is. -/
theorem excluded_stores : ((excluded now auth b).attention, (excluded now auth b).attention_at)
      = columns (told none (bound_report now b)) := by
  unfold excluded nullif_empty bound_report
  rcases b.attention with _ | v
  · rfl
  · by_cases hv : v = ""
    · subst hv
      rfl
    · simp [hv, columns, told, keep, Report.stored]

/-- The conflict path keeps what is stored if it is newer. -/
theorem on_conflict_stores {old : AgentPresence} (h : (old.attention, old.attention_at) = columns k) :
    ((on_conflict now auth b old).attention, (on_conflict now auth b old).attention_at)
      = columns (told k (bound_report now b)) := by
  have hattention : old.attention = k.map (·.1) := congrArg Prod.fst h
  have hat : old.attention_at = k.map (·.2) := congrArg Prod.snd h
  unfold on_conflict bound_report
  simp only [is_history, hattention, hat]
  rcases b.attention with _ | v
  · rfl
  · by_cases hv : v = ""
    · subst hv
      rcases k with _ | ⟨w, at_⟩
      · simp [columns, told, keep, Report.stored]
      · by_cases hlt : observed now b < at_ <;> simp [hlt, columns, told, keep, Report.stored]
    · rcases k with _ | ⟨w, at_⟩
      · simp [hv, columns, told, keep, Report.stored]
      · by_cases hlt : observed now b < at_ <;> simp [hv, hlt, columns, told, keep, Report.stored]

/-- The attention columns of a window: empty where it has no row. -/
def attention_columns (agent_id : Uuid) (session : String) (t : List AgentPresence) :
    Option String × Option ℤ :=
  match one (at_window agent_id session) t with
  | none => (none, none)
  | some p => (p.attention, p.attention_at)

theorem at_window_on_conflict (a : AgentPresence) :
    at_window auth.agent_id auth.session (on_conflict now auth b a) = at_window auth.agent_id auth.session a :=
  rfl

theorem at_window_excluded : at_window auth.agent_id auth.session (excluded now auth b) = true := by
  simp [at_window, excluded]

/-- The window's row after the statement. -/
theorem one_write_presence (t : List AgentPresence) :
    one (at_window auth.agent_id auth.session) (write_presence now auth b t) =
      some (match one (at_window auth.agent_id auth.session) t with
        | none => excluded now auth b
        | some p => on_conflict now auth b p) := by
  unfold write_presence upsert
  by_cases hany : t.any (at_window auth.agent_id auth.session) = true
  · rw [if_pos hany, one_update at_window_on_conflict]
    have hsome : ∃ p, one (at_window auth.agent_id auth.session) t = some p := by
      rw [← Option.ne_none_iff_exists']
      intro hnone
      rcases List.any_eq_true.mp hany with ⟨p, hp, hat⟩
      rw [one_eq_none.mp hnone p hp] at hat
      cases hat
    rcases hsome with ⟨p, hp⟩
    rw [hp, Option.map_some, if_pos (pos_of_one hp)]
  · -- The window has no row: the statement inserts.
    have hnone : one (at_window auth.agent_id auth.session) t = none := by
      rw [one_eq_none]
      intro p hp
      by_contra hat
      exact hany (List.any_eq_true.mpr ⟨p, hp, by simpa using hat⟩)
    rw [if_neg hany, one_insert_into, hnone, Option.none_or, if_pos at_window_excluded]

theorem write_presence_stores (h : attention_columns auth.agent_id auth.session t = columns k) :
    attention_columns auth.agent_id auth.session (write_presence now auth b t)
      = columns (told k (bound_report now b)) := by
  unfold attention_columns at h ⊢
  rw [one_write_presence]
  cases hone : one (at_window auth.agent_id auth.session) t with
  | none =>
    -- nothing was kept
    rw [hone] at h
    have hk : k = none := columns_inj h.symm
    subst hk
    exact excluded_stores
  | some p =>
    rw [hone] at h
    exact on_conflict_stores h

/-- The sweep passes the window over that made it. -/
theorem one_sweep (auth : AuthCtx) (at_ : ℤ) (t : List AgentPresence) :
    one (at_window auth.agent_id auth.session) (sweep auth at_ t) =
      one (at_window auth.agent_id auth.session) t := by
  unfold one sweep delete
  rw [List.find?_filter]
  congr 1
  funext p
  by_cases hp : at_window auth.agent_id auth.session p = true
  · have hsession : p.session = auth.session := by
      unfold at_window at hp
      rw [Bool.and_eq_true, beq_iff_eq, beq_iff_eq] at hp
      exact hp.2
    simp [hsession]
  · simp [hp]

theorem sweep_keeps (auth : AuthCtx) (at_ : ℤ) (t : List AgentPresence) :
    attention_columns auth.agent_id auth.session (sweep auth at_ t)
      = attention_columns auth.agent_id auth.session t := by
  unfold attention_columns
  rw [one_sweep]

/-- **One heartbeat**: what the window keeps is told what the heartbeat reports. -/
theorem heartbeat_stores {tidied : Option ℤ} {info : AgentInfo} {t' : List AgentPresence}
    (h : heartbeat now clock tidied auth input around t = .ok (info, t'))
    (hk : attention_columns auth.agent_id auth.session t = columns k) :
    attention_columns auth.agent_id auth.session t' = columns (told k (report now input)) := by
  unfold heartbeat at h
  simp only [bind_eq_ok, pure_eq_ok] at h
  obtain ⟨b, hb, _, _, row, _, a, _, heq⟩ := h
  have hreport : bound_report now b = report now input := bind_input_report hb
  have hwritten : attention_columns auth.agent_id auth.session (write_presence now auth b t) =
      columns (told k (bound_report now b)) := write_presence_stores hk
  rw [hreport] at hwritten
  have ht' := (Prod.mk.inj heq).2
  rw [← ht']
  cases tidied with
  | none => exact hwritten
  | some at_ => exact (sweep_keeps auth at_ _).trans hwritten

end Reporting

/-! ## A window's heartbeats, in the order they arrive -/

/-- One request, with what it finds around it. -/
structure Beat where
  now : ℤ
  clock : ℤ
  tidied : Option ℤ
  auth : AuthCtx
  input : HeartbeatInput
  around : Around

/-- All of them applied, one after the other. -/
def apply_all : List Beat → List AgentPresence → BusResult (List AgentPresence)
  | [], t => pure t
  | b :: bs, t => do
    let r ← heartbeat b.now b.clock b.tidied b.auth b.input b.around t
    apply_all bs r.2

/-- What they report; a refresh that omits the field reports nothing. -/
def reports (beats : List Beat) : List (Report String ℤ) := beats.filterMap fun b => report b.now b.input

section Beats

variable {agent_id : Uuid} {session : String} {beats : List Beat} {t t' : List AgentPresence}

theorem told_all (k : Option (String × ℤ)) (b : Beat) (beats : List Beat) :
    (reports (b :: beats)).foldl keep k = (reports beats).foldl keep (told k (report b.now b.input)) := by
  unfold reports
  rw [List.filterMap_cons]
  cases report b.now b.input with
  | none => rfl
  | some r => rfl

/-- After any number of heartbeats the columns hold what a register told the same
reports holds. -/
theorem apply_all_stores (hwindow : ∀ b ∈ beats, b.auth.agent_id = agent_id ∧ b.auth.session = session)
    (happlied : apply_all beats t = .ok t') {k : Option (String × ℤ)}
    (hk : attention_columns agent_id session t = columns k) :
    attention_columns agent_id session t' = columns ((reports beats).foldl keep k) := by
  induction beats generalizing t k with
  | nil =>
    rw [Except.ok.inj happlied] at hk
    exact hk
  | cons b beats ih =>
    unfold apply_all at happlied
    obtain ⟨⟨info, t₁⟩, hone, hrest⟩ := bind_eq_ok.mp happlied
    obtain ⟨hagent, hsession⟩ := hwindow b List.mem_cons_self
    subst hagent
    subst hsession
    rw [told_all]
    exact ih (fun x hx => hwindow x (List.mem_cons_of_mem _ hx)) hrest (heartbeat_stores hone hk)

theorem attention_columns_new (h : ∀ p ∈ t, at_window agent_id session p = false) :
    attention_columns agent_id session t = columns none := by
  unfold attention_columns
  rw [one_eq_none.mpr h]
  rfl

/-- **When the newest observation wins.** A window's columns end as its newest report
says exactly if that report is a value, or every value that arrived is followed by a
clear observed after it. -/
theorem newest_report_wins_iff
    (hwindow : ∀ b ∈ beats, b.auth.agent_id = agent_id ∧ b.auth.session = session)
    (hnew : ∀ p ∈ t, at_window agent_id session p = false) (happlied : apply_all beats t = .ok t')
    (hdistinct : Distinct (reports beats)) :
    (∀ r, IsNewest r (reports beats) →
        attention_columns agent_id session t' = (r.value, r.value.map fun _ => r.observed)) ↔
      (∃ r, IsNewest r (reports beats) ∧ r.value ≠ none) ∨ ∀ r, ¬ Stands r (reports beats) := by
  have hheld : attention_columns agent_id session t' = columns (held (reports beats)) :=
    apply_all_stores hwindow happlied (attention_columns_new hnew)
  have hstored : ∀ r : Report String ℤ, columns r.stored = (r.value, r.value.map fun _ => r.observed) := by
    intro r
    unfold columns Report.stored
    rw [Option.map_map, Option.map_map]
    exact Prod.ext Option.map_id' rfl
  rw [← newest_wins_iff hdistinct]
  constructor
  · intro hwins r hr
    apply columns_inj
    rw [← hheld, hstored]
    exact hwins r hr
  · intro hwins r hr
    rw [hheld, hwins r hr]
    exact hstored r

end Beats

/-! ## Two runs -/

def crew : Around := ⟨{ agents := [⟨1, 1, "ada", none⟩] }, fun _ => none⟩

/-- Ada's window reports `attention` at the second `now`, observed `ago` milliseconds
before. -/
def said (now : ℤ) (attention : Option String) (ago : ℤ) : Beat :=
  ⟨interval_secs now, interval_secs now, none, Crew.ada_at_desk,
    { attention := attention, attention_observed_ms_ago := some ago, refresh_only := attention.isNone }, crew⟩

/-- An idle that was observed last arrives first, then a refresh and an older clear. -/
def late_clear : List Beat := [said 100 (some "idle") 0, said 101 none 0, said 102 (some "") 5000]

theorem newest_report_wins_late_clear :
    ∃ t', apply_all late_clear [] = .ok t' ∧
      (∀ r, IsNewest r (reports late_clear) →
        attention_columns 1 "desk" t' = (r.value, r.value.map fun _ => r.observed)) := by
  have happlied : (apply_all late_clear []).isOk = true := by decide
  rcases happ : apply_all late_clear [] with e | t'
  · rw [happ] at happlied
    exact absurd happlied Bool.false_ne_true
  · refine ⟨t', rfl, (newest_report_wins_iff (by decide) (by decide) happ (by unfold Distinct; decide)).mpr
      (Or.inl ⟨⟨some "idle", 100000000⟩, ?_, by decide⟩)⟩
    unfold IsNewest
    decide

/-- A clear, and after it an idle that was observed before it. -/
def late_value : List Beat := [said 100 (some "") 1000, said 101 (some "idle") 6000]

/-- The window's newest report is the clear, and it ends idle. -/
theorem newest_report_is_lost :
    ¬ ∀ (agent_id : Uuid) (session : String) (beats : List Beat) (t t' : List AgentPresence),
      (∀ b ∈ beats, b.auth.agent_id = agent_id ∧ b.auth.session = session) →
      (∀ p ∈ t, at_window agent_id session p = false) → apply_all beats t = .ok t' →
      Distinct (reports beats) → ∀ r, IsNewest r (reports beats) →
        attention_columns agent_id session t' = (r.value, r.value.map fun _ => r.observed) := by
  intro hclaim
  have hends : (match apply_all late_value [] with
      | .ok t' => decide (attention_columns 1 "desk" t' = (some "idle", some 95000000))
      | .error _ => false) = true := by decide
  rcases happ : apply_all late_value [] with e | t'
  · rw [happ] at hends
    exact absurd hends Bool.false_ne_true
  · rw [happ] at hends
    have hnewest : IsNewest ⟨none, 99000000⟩ (reports late_value) := by
      unfold IsNewest
      decide
    have hcleared := hclaim 1 "desk" late_value [] t' (by decide) (by decide) happ
      (by unfold Distinct; decide) _ hnewest
    rw [of_decide_eq_true hends] at hcleared
    exact absurd hcleared (by decide)

end CrewSync.Presence
