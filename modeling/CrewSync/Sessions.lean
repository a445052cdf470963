/-
`store/sessions.rs`, and the token revocation of `store/admin.rs`: the lifecycle
of a window's credential.

Every operation here is one transaction, read at its commit. That reading is
sound because of the locks the source takes:

* `register`, `resume`, `revoke` and `revoke_token` lock the agent row first
  (`FOR NO KEY UPDATE`) and keep it to the end, so no two of them overlap on one
  agent and what the first statement read is still true at the commit;
* an `UPDATE` of a session row re-reads it under its row lock, so the `WHERE`
  clause is evaluated on the row that is written;
* `now()` is the time the transaction began and is passed in as `now`.

`renew` is a single statement and takes no agent lock.
-/
import CrewSync.Auth

set_option autoImplicit false

namespace CrewSync.Sessions

open Error Schema Rows Auth

/-- `Issued`: what a registration, a resume or a renewal hands back. -/
structure Issued where
  id : Uuid
  token : String
  label : String
  epoch : ℕ
  expires_at : ℕ
  deriving DecidableEq, Repr

/-- `ttl_of`. -/
def ttl_of (requested : Option ℤ) : ℤ :=
  max 60 (min (requested.getD SESSION_TTL_SECS) MAX_SESSION_TTL_SECS)

/-- `now() + make_interval(secs => ttl)`. -/
def expiry (now : ℕ) (ttl_seconds : Option ℤ) : ℕ := now + secs (ttl_of ttl_seconds).toNat

/-- `EXISTS (SELECT 1 FROM api_tokens t WHERE t.id = s.parent_token AND
t.revoked_at IS NOT NULL)`. -/
def parent_revoked (tokens : List ApiToken) (s : AgentSession) : Bool :=
  tokens.any fun t => t.id == s.parent_token && t.revoked_at.isSome

/-- A window can answer: not revoked, not expired, and the token it hangs from
still authenticates. The predicate `recover_history` counts live windows by. -/
def live (now : ℕ) (tokens : List ApiToken) (s : AgentSession) : Bool :=
  s.revoked_at.isNone && now < s.expires_at && !parent_revoked tokens s

/-! ## The fence -/

/-- `guard`. A plain agent token has no epoch to fence and passes. -/
def guard (now : ℕ) (auth : AuthCtx) (db : Db) : BusResult Unit :=
  match auth.session_id, auth.session_epoch with
  | some session_id, some epoch =>
    match one (fun s => s.id == session_id) db.agent_sessions with
    | none => .error (.Unauthenticated
        "this session no longer exists; register a new one with your agent token")
    | some s =>
      if s.revoked_at.isSome || s.expires_at ≤ now then .error (.Unauthenticated
        "this session credential is no longer valid; register a new one with your agent token")
      else if s.epoch ≠ epoch then .error (.Conflict
        (s!"this connection is stale: it carries epoch {epoch} and the session is at {s.epoch}, " ++
          "so another process resumed this window after you. Nothing was written. Resume the " ++
          "session to take over, or exit."))
      else .ok ()
  | _, _ => .ok ()

/-- `require_window`: a label that belongs to a registered window, live or not,
is not one an agent token may wear. -/
def require_window (auth : AuthCtx) (db : Db) : BusResult Unit :=
  if auth.session.isEmpty || auth.session_id.isSome then .ok ()
  else
    ensure (!db.agent_sessions.any fun s => s.agent_id == auth.agent_id && s.label == auth.session)
      (.Forbidden (s!"'{auth.session}' is a registered window and this call carries an agent token, " ++
        "not that window's session credential. Revoking or expiring it does not hand the label " ++
        "back: ask that window to make the call, register it again, or use " ++
        "recover_conversation_history, which is the audited way for an agent to reach its own " ++
        "windows' threads."))

/-! ## The lifecycle -/

section Lifecycle

variable (sha256 : String → String)

/-- `SELECT id FROM agents WHERE id = $1 FOR NO KEY UPDATE`, which must find the
agent. -/
def agent_row (auth : AuthCtx) (db : Db) : BusResult Agent :=
  fetch (one (fun a => a.id == auth.agent_id) db.agents) (.Db "no rows returned")

/-- The label of a call, or what is wrong with it. -/
def label_of (raw : String) : BusResult String :=
  match normalize_session raw with
  | .ok label => .ok label
  | .error why => .error (.Invalid s!"the session label {why}")

/-- `UNIQUE (token_hash)` against every row but the one written. -/
def hash_is_free (raw : String) (own : AgentSession → Bool) (db : Db) : Bool :=
  db.agent_sessions.all fun s => own s || s.token_hash != hash_token sha256 raw

/-- The row a registration inserts. -/
def fresh_row (now : ℕ) (auth : AuthCtx) (parent_token : Uuid) (label : String)
    (ttl_seconds : Option ℤ) (raw : String) (id : Uuid) : AgentSession :=
  { id := id, agent_id := auth.agent_id, parent_token := parent_token, label := label,
    token_hash := hash_token sha256 raw, epoch := 1, last_used_at := none,
    expires_at := expiry now ttl_seconds, revoked_at := none }

/-- `DO UPDATE SET …` of a registration, on the row it takes over. -/
def taken_over (now : ℕ) (parent_token : Uuid) (ttl_seconds : Option ℤ) (raw : String)
    (s : AgentSession) : AgentSession :=
  { s with
    parent_token := parent_token, token_hash := hash_token sha256 raw, epoch := s.epoch + 1,
    expires_at := expiry now ttl_seconds, revoked_at := none, last_used_at := none }

/-- `SET …` of a resume. -/
def rotated (now : ℕ) (ttl_seconds : Option ℤ) (raw : String) (s : AgentSession) : AgentSession :=
  { s with
    token_hash := hash_token sha256 raw, epoch := s.epoch + 1,
    expires_at := expiry now ttl_seconds, last_used_at := none }

/-- `SET …` of a renewal. -/
def extended (now : ℕ) (ttl_seconds : Option ℤ) (s : AgentSession) : AgentSession :=
  { s with expires_at := expiry now ttl_seconds }

/-- `SET …` of a revocation, of the session or of the token it hangs from. -/
def closed (now : ℕ) (s : AgentSession) : AgentSession := { s with revoked_at := some now }

/-- `register`: insert the row of `(agent, label)`, or take over a dead one.
`id` is the fresh `gen_random_uuid()` of an insert and `raw` the fresh secret. -/
def register (now : ℕ) (auth : AuthCtx) (parent_token : Uuid) (label : String)
    (ttl_seconds : Option ℤ) (raw : String) (id : Uuid) (db : Db) : BusResult (Issued × Db) := do
  ensure (!auth.session_is_authenticated) (.Forbidden
    ("a session credential cannot register another session. Register with the agent token that " ++
      "this window's credential was derived from."))
  let label ← label_of label
  ensure (!label.isEmpty) (.Invalid
    ("a session label is required: it is the address teammates use to reach this window " ++
      "(agent/session). Use the id your host gives the conversation."))
  let _ ← agent_row auth db
  ensure ((one (fun t => t.id == parent_token && t.agent_id == auth.agent_id) db.api_tokens).any
      fun t => t.revoked_at.isNone) (.Unauthenticated
    ("the token that made this request was revoked while it was in flight; nothing was " ++
      "registered. Issue a new token and register again."))
  let own : AgentSession → Bool := fun s => s.agent_id == auth.agent_id && s.label == label
  ensure (hash_is_free sha256 raw own db) (.Db "duplicate key value: token_hash")
  match one own db.agent_sessions with
  | none => do
    ensure (db.agent_sessions.all fun s => s.id != id) (.Db "duplicate key value: id")
    let row := fresh_row sha256 now auth parent_token label ttl_seconds raw id
    pure (⟨id, raw, label, 1, row.expires_at⟩,
      { db with agent_sessions := insert_into row db.agent_sessions })
  | some s => do
    ensure (s.revoked_at.isSome || s.expires_at ≤ now || parent_revoked db.api_tokens s) (.Conflict
      (s!"session '{label}' is already registered and still live. Holding the agent token does not " ++
        "make you that window: reconnect it with resume_session, using the session credential the " ++
        "process that owns it holds, or close it first with revoke_session if it is gone for good — " ++
        s!"\x7b\"session\": \"{label}\"\x7d from another window of this agent, or `ai-crew-sync " ++
        s!"client call revoke_session --args '\x7b\"session\":\"{label}\"\x7d'` from a terminal — " ++
        "and register again."))
    pure (⟨s.id, raw, label, s.epoch + 1, expiry now ttl_seconds⟩,
      { db with
        agent_sessions := update own (taken_over sha256 now parent_token ttl_seconds raw)
          db.agent_sessions })

/-- The rows `resume` rotates: the caller's own, while it is the one the
credential was read from. Its expiry is not among the conditions. -/
def resumable (auth : AuthCtx) (session_id : Uuid) (tokens : List ApiToken) (s : AgentSession) :
    Bool :=
  s.id == session_id && s.revoked_at.isNone && s.epoch == auth.session_epoch.getD 0 &&
    !parent_revoked tokens s

/-- `resume`. -/
def resume (now : ℕ) (auth : AuthCtx) (ttl_seconds : Option ℤ) (raw : String) (db : Db) :
    BusResult (Issued × Db) := do
  let session_id ← fetch auth.session_id (.Forbidden
    ("resume_session needs the session credential of the window being resumed. With an agent " ++
      "token, register_session opens a new window and refuses a live one."))
  let _ ← agent_row auth db
  let own := resumable auth session_id db.api_tokens
  let s ← fetch (one own db.agent_sessions) (.Unauthenticated
    ("this session credential is no longer the window's: it was revoked, or the window was " ++
      "resumed or re-registered after this connection. Nothing was rotated; register a new " ++
      "session with your agent token."))
  ensure (hash_is_free sha256 raw own db) (.Db "duplicate key value: token_hash")
  pure (⟨session_id, raw, s.label, s.epoch + 1, expiry now ttl_seconds⟩,
    { db with
      agent_sessions := update own (rotated sha256 now ttl_seconds raw) db.agent_sessions })

/-- The rows `renew` extends. Neither the expiry nor the parent token is among
the conditions. -/
def renewable (auth : AuthCtx) (session_id : Uuid) (s : AgentSession) : Bool :=
  s.id == session_id && s.revoked_at.isNone && s.epoch == auth.session_epoch.getD 0

/-- `renew`. -/
def renew (now : ℕ) (auth : AuthCtx) (ttl_seconds : Option ℤ) (db : Db) :
    BusResult (Issued × Db) := do
  let session_id ← fetch auth.session_id (.Forbidden
    ("renew_session needs a session credential: it extends the credential that made the call. " ++
      "Register one first with register_session."))
  let own := renewable auth session_id
  let s ← fetch (one own db.agent_sessions) (.NotFound
    "this session has been revoked; register a new one with your agent token")
  pure (⟨session_id, "", s.label, s.epoch, expiry now ttl_seconds⟩,
    { db with
      agent_sessions := update own (extended now ttl_seconds) db.agent_sessions })

/-- Which window `revoke` closes: the one named, else the caller's own. -/
def revoke_target (auth : AuthCtx) (label : Option String) : BusResult String :=
  match (label.map trim).filter fun l => !l.isEmpty with
  | some l => label_of l
  | none => do
    ensure auth.session_is_authenticated (.Invalid
      ("say which session to revoke: this call was made with an agent token, which is not itself " ++
        "a session"))
    pure auth.session

/-- `revoke`. A label that is already closed is a success that changes nothing. -/
def revoke (now : ℕ) (auth : AuthCtx) (label : Option String) (db : Db) :
    BusResult (String × Db) := do
  let target ← revoke_target auth label
  let _ ← agent_row auth db
  guard now auth db
  ensure (db.agent_sessions.any fun s => s.agent_id == auth.agent_id && s.label == target)
    (.NotFound s!"no session '{target}' of yours")
  pure (target,
    { db with
      agent_sessions := update
        (fun s => s.agent_id == auth.agent_id && s.label == target && s.revoked_at.isNone)
        (closed now) db.agent_sessions })

/-- `admin::revoke_token`. The token and the windows under it close in one
transaction; a token already revoked is a success that changes nothing. -/
def revoke_token (now : ℕ) (team_id : Option Uuid) (id : Uuid) (db : Db) : BusResult (Unit × Db) :=
  let theirs : ApiToken → Bool := fun t => t.id == id &&
    db.agents.any fun a => a.id == t.agent_id && team_id.all fun tm => a.team_id == tm
  match one theirs db.api_tokens with
  | none => .error (.NotFound s!"no token with id {id}")
  | some t =>
    if t.revoked_at.isSome then .ok ((), db)
    else .ok ((),
      { db with
        api_tokens := update theirs (fun t => { t with revoked_at := some now }) db.api_tokens
        agent_sessions := update (fun s => s.parent_token == id && s.revoked_at.isNone)
          (closed now) db.agent_sessions })

end Lifecycle

/-! ## What each of them did -/

/-- The row under its id, as the fence reads it. -/
def intact (session_id : Uuid) (epoch : ℕ) (db : Db) : Prop :=
  ∃ s ∈ db.agent_sessions, s.id = session_id ∧ s.epoch = epoch ∧ s.revoked_at = none

variable {auth : AuthCtx} {now : ℕ} {db db' : Db} {raw : String} {ttl : Option ℤ} {i : Issued}

/-- Passing the fence means the window is the one that was authenticated: same
epoch, and not revoked since. -/
theorem guard_ok {sid : Uuid} {epoch : ℕ} {u : Unit} (h : guard now auth db = .ok u) (hs : auth.session_id = some sid)
    (he : auth.session_epoch = some epoch) : intact sid epoch db := by
  unfold guard at h
  rw [hs, he] at h
  simp only at h
  split at h
  · cases h
  rename_i s hone
  by_cases hdead : s.revoked_at.isSome || s.expires_at ≤ now
  · rw [if_pos hdead] at h; exact nomatch h
  by_cases hep : s.epoch ≠ epoch
  · rw [if_neg hdead, if_pos hep] at h; exact nomatch h
  simp only [Bool.or_eq_true, not_or, Option.not_isSome_iff_eq_none] at hdead
  exact ⟨s, mem_of_one hone, by simpa using pos_of_one hone, not_not.mp hep, hdead.1⟩

variable {sha256 : String → String}

/-- What a registration leaves: a new row at epoch 1, or the dead row of that
label with its epoch raised by one. -/
theorem register_ok {parent id : Uuid} {label : String}
    (h : register sha256 now auth parent label ttl raw id db = .ok (i, db')) :
    ∃ lab, normalize_session label = .ok lab ∧ i.label = lab ∧
    (∀ s ∈ db.agent_sessions, (s.agent_id = auth.agent_id ∧ s.label = lab) ∨
      s.token_hash ≠ hash_token sha256 raw) ∧
    ((∀ s ∈ db.agent_sessions, ¬ (s.agent_id = auth.agent_id ∧ s.label = lab)) ∧
        (∀ s ∈ db.agent_sessions, s.id ≠ id) ∧ i.id = id ∧ i.epoch = 1 ∧
        db' = { db with
          agent_sessions := insert_into (fresh_row sha256 now auth parent lab ttl raw id)
            db.agent_sessions } ∨
      ∃ s, one (fun s => s.agent_id == auth.agent_id && s.label == lab) db.agent_sessions = some s ∧
        (s.revoked_at.isSome || s.expires_at ≤ now || parent_revoked db.api_tokens s) = true ∧
        i.id = s.id ∧ i.epoch = s.epoch + 1 ∧
        db' = { db with
          agent_sessions := update (fun s => s.agent_id == auth.agent_id && s.label == lab)
            (taken_over sha256 now parent ttl raw) db.agent_sessions }) := by
  simp only [register, bind_eq_ok, ensure_eq_ok] at h
  obtain ⟨_, -, lab, hlab, _, -, _, -, _, -, _, hfree, h⟩ := h
  have hlab' : normalize_session label = .ok lab := by
    unfold label_of at hlab
    split at hlab
    · rename_i l hl; rw [hl, Except.ok.inj hlab]
    · cases hlab
  have hfree' : ∀ s ∈ db.agent_sessions, (s.agent_id = auth.agent_id ∧ s.label = lab) ∨
      s.token_hash ≠ hash_token sha256 raw := by
    simpa [hash_is_free] using hfree
  refine ⟨lab, hlab', ?_, hfree', ?_⟩
  · split at h
    · simp only [bind_eq_ok, ensure_eq_ok, pure_eq_ok, Prod.mk.injEq] at h
      obtain ⟨_, -, rfl, -⟩ := h; rfl
    · simp only [bind_eq_ok, ensure_eq_ok, pure_eq_ok, Prod.mk.injEq] at h
      obtain ⟨_, -, rfl, -⟩ := h; rfl
  · split at h
    · rename_i hnone
      simp only [bind_eq_ok, ensure_eq_ok, pure_eq_ok, Prod.mk.injEq] at h
      obtain ⟨_, hid, rfl, rfl⟩ := h
      refine Or.inl ⟨fun s hs hlab => ?_, by simpa using hid, rfl, rfl, rfl⟩
      exact absurd (one_eq_none.mp hnone s hs) (by simp [hlab])
    · rename_i s hone
      simp only [bind_eq_ok, ensure_eq_ok, pure_eq_ok, Prod.mk.injEq] at h
      obtain ⟨_, hdead, rfl, rfl⟩ := h
      exact Or.inr ⟨s, hone, hdead, rfl, rfl, rfl⟩

theorem resume_ok (h : resume sha256 now auth ttl raw db = .ok (i, db')) :
    ∃ sid s, auth.session_id = some sid ∧
      one (resumable auth sid db.api_tokens) db.agent_sessions = some s ∧
      (∀ s ∈ db.agent_sessions, resumable auth sid db.api_tokens s = true ∨
        s.token_hash ≠ hash_token sha256 raw) ∧
      i.id = sid ∧ i.epoch = s.epoch + 1 ∧
      db' = { db with
        agent_sessions := update (resumable auth sid db.api_tokens) (rotated sha256 now ttl raw)
          db.agent_sessions } := by
  simp only [resume, bind_eq_ok, ensure_eq_ok, fetch_eq_ok, pure_eq_ok, Prod.mk.injEq] at h
  obtain ⟨sid, hsid, _, -, s, hs, _, hfree, rfl, rfl⟩ := h
  exact ⟨sid, s, hsid, hs, by simpa [hash_is_free] using hfree, rfl, rfl, rfl⟩

theorem renew_ok (h : renew now auth ttl db = .ok (i, db')) :
    ∃ sid s, auth.session_id = some sid ∧
      one (renewable auth sid) db.agent_sessions = some s ∧
      db' = { db with
        agent_sessions := update (renewable auth sid) (extended now ttl) db.agent_sessions } := by
  simp only [renew, bind_eq_ok, fetch_eq_ok, pure_eq_ok, Prod.mk.injEq] at h
  obtain ⟨sid, hsid, s, hs, -, rfl⟩ := h
  exact ⟨sid, s, hsid, hs, rfl⟩

theorem revoke_ok {label : Option String} {target : String} (h : revoke now auth label db = .ok (target, db')) :
    guard now auth db = .ok () ∧
      db' = { db with
        agent_sessions := update
          (fun s => s.agent_id == auth.agent_id && s.label == target && s.revoked_at.isNone)
          (closed now) db.agent_sessions } := by
  simp only [revoke, bind_eq_ok, ensure_eq_ok, pure_eq_ok, Prod.mk.injEq] at h
  obtain ⟨t, -, _, -, _, hg, _, -, rfl, rfl⟩ := h
  exact ⟨hg, rfl⟩

theorem revoke_token_ok {team : Option Uuid} {id : Uuid} {u : Unit} (h : revoke_token now team id db = .ok (u, db')) :
    db' = db ∨ ∃ p : ApiToken → Bool,
      (∀ t, p t = true → t.id = id) ∧ (∃ t ∈ db.api_tokens, p t = true) ∧
      db' = { db with
        api_tokens := update p (fun t => { t with revoked_at := some now }) db.api_tokens
        agent_sessions := update (fun s => s.parent_token == id && s.revoked_at.isNone)
          (closed now) db.agent_sessions } := by
  unfold revoke_token at h
  simp only at h
  split at h
  · cases h
  rename_i t hone
  split at h
  · exact Or.inl (by simpa using (Prod.mk.inj (Except.ok.inj h)).2.symm)
  · refine Or.inr ⟨_, fun t ht => ?_, ⟨t, mem_of_one hone, pos_of_one hone⟩,
      (Prod.mk.inj (Except.ok.inj h)).2.symm⟩
    simp only [Bool.and_eq_true, beq_iff_eq] at ht
    exact ht.1

end CrewSync.Sessions
