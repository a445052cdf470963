/-
The windows of an agent as one **system**: requests that were admitted at some
moment and act later, the lifecycle of their credentials, guarded mutations in
flight, owner recovery, and the clock.

The state keeps, besides the database, what the locks of the source keep:

* `held`, the guarded transactions that are open. Such a transaction holds its
  session row `FOR SHARE` from its `guard` to its end, so every statement that
  updates that row waits: the step is not enabled;
* `recovering`, the recoveries between their liveness check and their commit.
  Each holds its agent's row, which registration, resume, revocation and token
  revocation lock first.

A request keeps the context it was admitted with. Nothing ties the time at which
it acts to the time at which it was admitted, which is what makes the fence
necessary.
-/
import CrewSync.Runs
import CrewSync.Sessions

set_option autoImplicit false

namespace CrewSync.Windows

open Error Schema Rows Auth Sessions

/-! ## The system -/

/-- The state of the system. -/
structure Sys where
  db : Db
  clock : ℕ
  /-- The context of each admitted request. -/
  admitted : ℕ → Option AuthCtx
  /-- Open guarded transactions: the request, and the session row it holds. -/
  held : List (ℕ × Option Uuid)
  /-- Recoveries holding an agent row. -/
  recovering : List (ℕ × Uuid)

/-- What can happen next. `now` is the start of the transaction concerned. -/
inductive Act where
  | tick (d : ℕ)
  /-- `require_bearer` admits request `r`. -/
  | authenticate (r : ℕ) (raw : String) (headers : Headers) (now : ℕ)
  /-- Request `r` opens a transaction and passes, or fails, `guard`. -/
  | guard (r now : ℕ)
  /-- The guarded transaction of `r` commits. What it wrote besides is `db'`. -/
  | commit (r : ℕ) (db' : Db)
  | rollback (r : ℕ)
  | register (r : ℕ) (label : String) (ttl : Option ℤ) (entropy : String) (id : Uuid) (now : ℕ)
  | resume (r : ℕ) (ttl : Option ℤ) (entropy : String) (now : ℕ)
  | renew (r : ℕ) (ttl : Option ℤ) (now : ℕ)
  | revoke (r : ℕ) (label : Option String) (now : ℕ)
  | revoke_token (team : Option Uuid) (id : Uuid) (now : ℕ)
  /-- An operator issues an agent token. -/
  | issue_token (t : ApiToken)
  /-- `recover_history` locks the agent row and checks that no window is live. -/
  | recover (r now : ℕ)
  /-- The recovery commits and returns what it read. -/
  | recovered (r : ℕ)

/-- A session row is held `FOR SHARE` by an open transaction. -/
def Sys.share_locked (s : Sys) (sid : Uuid) : Bool := s.held.any fun h => h.2 == some sid

/-- The agent row is held by a recovery. -/
def Sys.agent_locked (s : Sys) (agent : Uuid) : Bool := s.recovering.any fun r => r.2 == agent

/-- `db` with the outcome of an operation, provided it can take its locks: the
agent's row, and every session row it changes. A refused operation rolls back. -/
def Sys.commits {α : Type} (s : Sys) (agents : Uuid → Bool) (res : BusResult (α × Db)) :
    Option Sys :=
  if s.recovering.any fun r => agents r.2 then none
  else
    match res with
    | .error _ => some s
    | .ok (_, db') =>
      if s.db.agent_sessions.all fun x => db'.agent_sessions.contains x || !s.share_locked x.id then
        some { s with db := db' }
      else none

/-- The tables a guarded mutation of another subsystem leaves alone. -/
def same_identity (db db' : Db) : Bool :=
  db'.agent_sessions == db.agent_sessions && db'.api_tokens == db.api_tokens &&
    db'.agents == db.agents && db'.teams == db.teams

section Steps

variable (sha256 : String → String)

/-- One step. `none` when the step has to wait, or cannot happen. -/
def step (s : Sys) : Act → Option Sys
  | .tick d => some { s with clock := s.clock + d }
  | .authenticate r raw headers now =>
    if s.clock < now ∨ s.admitted r ≠ none then none
    else
      match require_bearer sha256 now raw headers s.db with
      | .error _ => some s
      | .ok ctx => some { s with
          admitted := Function.update s.admitted r (some ctx)
          db := touch now s.share_locked ctx s.db }
  | .guard r now =>
    match s.admitted r with
    | none => none
    | some auth =>
      if s.clock < now ∨ s.held.any (fun h => h.1 == r) then none
      else
        match guard now auth s.db with
        | .error _ => some s
        | .ok _ => some { s with held := (r, auth.session_id) :: s.held }
  | .commit r db' =>
    if s.held.any (fun h => h.1 == r) && same_identity s.db db' then
      some { s with db := db', held := s.held.filter fun h => h.1 != r }
    else none
  | .rollback r => some { s with held := s.held.filter fun h => h.1 != r }
  | .register r label ttl entropy id now =>
    match s.admitted r with
    | none => none
    | some auth =>
      match auth.token_id with
      | none => none
      | some parent =>
        if s.clock < now then none
        else s.commits (· == auth.agent_id) (register sha256 now auth parent label ttl
          (generate_session_token entropy) id s.db)
  | .resume r ttl entropy now =>
    match s.admitted r with
    | none => none
    | some auth =>
      if s.clock < now then none
      else s.commits (· == auth.agent_id) (resume sha256 now auth ttl
        (generate_session_token entropy) s.db)
  | .renew r ttl now =>
    match s.admitted r with
    | none => none
    | some auth =>
      if s.clock < now then none else s.commits (fun _ => false) (renew now auth ttl s.db)
  | .revoke r label now =>
    match s.admitted r with
    | none => none
    | some auth =>
      if s.clock < now then none
      else s.commits (· == auth.agent_id) (revoke now auth label s.db)
  | .revoke_token team id now =>
    if s.clock < now then none
    else s.commits (fun a => s.db.api_tokens.any fun t => t.id == id && t.agent_id == a)
      (revoke_token now team id s.db)
  | .issue_token t =>
    if s.db.api_tokens.any (fun x => x.id == t.id) then none
    else some { s with db := { s.db with api_tokens := insert_into t s.db.api_tokens } }
  | .recover r now =>
    match s.admitted r with
    | none => none
    | some auth =>
      if s.clock < now ∨ auth.session_id ≠ none ∨ s.agent_locked auth.agent_id then none
      else if s.db.agent_sessions.any fun x =>
          x.agent_id == auth.agent_id && live now s.db.api_tokens x then some s
      else some { s with recovering := (r, auth.agent_id) :: s.recovering }
  | .recovered r => some { s with recovering := s.recovering.filter fun x => x.1 != r }

end Steps

/-! ## What a step does to the session rows -/

/-- What one step can do to one row. The identity of a window, its `id`,
`agent_id` and `label`, is in none of them; the epoch is in two. -/
inductive Change (sha256 : String → String) (s : Sys) : Act → AgentSession → AgentSession → Prop
  | used (a : Act) (x : AgentSession) (u : Option ℕ) :
      Change sha256 s a x { x with last_used_at := u }
  | taken_over {r : ℕ} {label : String} {ttl : Option ℤ} {entropy : String} {id : Uuid} {now : ℕ}
      {parent : Uuid} {raw : String} {x : AgentSession} :
      live s.clock s.db.api_tokens x = false → s.agent_locked x.agent_id = false →
      Change sha256 s (.register r label ttl entropy id now) x (taken_over sha256 now parent ttl raw x)
  | rotated {r : ℕ} {ttl : Option ℤ} {entropy : String} {now : ℕ} {raw : String} {auth : AuthCtx}
      {sid : Uuid} {x : AgentSession} :
      s.admitted r = some auth → auth.session_id = some sid →
      resumable auth sid s.db.api_tokens x = true →
      Change sha256 s (.resume r ttl entropy now) x (rotated sha256 now ttl raw x)
  | extended {r : ℕ} {ttl : Option ℤ} {now : ℕ} {auth : AuthCtx} {sid : Uuid} {x : AgentSession} :
      s.admitted r = some auth → auth.session_id = some sid → renewable auth sid x = true →
      Change sha256 s (.renew r ttl now) x (extended now ttl x)
  | closed {a : Act} {now : ℕ} {x : AgentSession} :
      x.revoked_at = none → Change sha256 s a x (closed now x)

variable {sha256 : String → String} {s t : Sys} {a : Act} {x : AgentSession} {now : ℕ} {y : AgentSession} {r : ℕ}

theorem Change.rfl' (a : Act) (x : AgentSession) : Change sha256 s a x x :=
  Change.used a x x.last_used_at

theorem Change.id_eq (h : Change sha256 s a x y) : y.id = x.id := by
  cases h <;> rfl

theorem Change.window_eq (h : Change sha256 s a x y) : (y.agent_id, y.label) = (x.agent_id, x.label) := by
  cases h <;> rfl

/-- Only a registration or a resume writes a secret. -/
def Issues (a : Act) : Prop :=
  (∃ r label ttl entropy id now, a = .register r label ttl entropy id now) ∨
    ∃ r ttl entropy now, a = .resume r ttl entropy now

theorem Change.hash_eq (h : Change sha256 s a x y) (ha : ¬ Issues a) :
    y.token_hash = x.token_hash := by
  cases h with
  | used => rfl
  | taken_over => exact absurd (Or.inl ⟨_, _, _, _, _, _, rfl⟩) ha
  | rotated => exact absurd (Or.inr ⟨_, _, _, _, rfl⟩) ha
  | extended => rfl
  | closed => rfl

/-- The session rows after a step: every row changed by one of the five, or one
row more. -/
def Changed (sha256 : String → String) (s : Sys) (a : Act) (t : Sys) : Prop :=
  (∃ f : AgentSession → AgentSession,
    t.db.agent_sessions = s.db.agent_sessions.map f ∧
      ∀ x ∈ s.db.agent_sessions, Change sha256 s a x (f x)) ∨
  ∃ new : AgentSession, new.epoch = 1 ∧ (∀ x ∈ s.db.agent_sessions, x.id ≠ new.id) ∧
    (∀ x ∈ s.db.agent_sessions, ¬ (x.agent_id = new.agent_id ∧ x.label = new.label)) ∧
    s.agent_locked new.agent_id = false ∧
    t.db.agent_sessions = insert_into new s.db.agent_sessions ∧
    ∃ r label ttl entropy id now, a = .register r label ttl entropy id now

theorem Changed.same (h : t.db.agent_sessions = s.db.agent_sessions) : Changed sha256 s a t :=
  Or.inl ⟨fun x => x, by rw [h, List.map_id'], fun x _ => Change.rfl' a x⟩

/-- An `UPDATE` is a change when it is one on the rows it touches. -/
theorem Changed.update {p : AgentSession → Bool} {f : AgentSession → AgentSession}
    (h : t.db.agent_sessions = Rows.update p f s.db.agent_sessions)
    (hf : ∀ x ∈ s.db.agent_sessions, p x = true → Change sha256 s a x (f x)) :
    Changed sha256 s a t := by
  refine Or.inl ⟨fun x => if p x then f x else x, h, fun x hx => ?_⟩
  by_cases hp : p x = true
  · simp only [if_pos hp]; exact hf x hx hp
  · simp only [if_neg hp]; exact Change.rfl' a x

/-- What an operation that takes locks leaves: the state it found, or its own
result, with every row that is share-locked still in place. -/
theorem commits_cases {α : Type} {agents : Uuid → Bool} {res : BusResult (α × Db)} (h : s.commits agents res = some t) :
    t = s ∨ ∃ b db', res = .ok (b, db') ∧ t = { s with db := db' } ∧
      (∀ r ∈ s.recovering, agents r.2 = false) ∧
      ∀ x ∈ s.db.agent_sessions, s.share_locked x.id = true → x ∈ db'.agent_sessions := by
  unfold Sys.commits at h
  split at h
  · cases h
  rename_i hlock
  split at h
  · exact Or.inl (Option.some.inj h).symm
  split at h
  · rename_i b db' hall
    refine Or.inr ⟨b, db', rfl, (Option.some.inj h).symm, by simpa using hlock, fun x hx hsh => ?_⟩
    have hx' := List.all_eq_true.mp hall x hx
    simpa [hsh] using hx'
  · cases h

theorem touch_changed {locked : Uuid → Bool} {ctx : AuthCtx} {ad : ℕ → Option AuthCtx} :
    Changed sha256 s a { s with admitted := ad, db := touch now locked ctx s.db } := by
  unfold touch
  split
  · exact Changed.update rfl fun x _ _ => Change.used _ _ _
  · exact Changed.same rfl
  · exact Changed.same rfl

/-- Every lifecycle operation acts for an admitted request, in a transaction that
began in the past, and either changed nothing or committed its result. -/
theorem lifecycle_cases {α : Type} (agents : AuthCtx → Uuid → Bool)
    (op : AuthCtx → BusResult (α × Db)) (h : (match s.admitted r with
      | none => none
      | some auth =>
        if s.clock < now then none else s.commits (agents auth) (op auth)) = some t) :
    ∃ auth, s.admitted r = some auth ∧ now ≤ s.clock ∧ s.commits (agents auth) (op auth) = some t := by
  split at h
  · cases h
  rename_i auth hauth
  split at h
  · cases h
  · exact ⟨auth, hauth, by omega, h⟩

/-- A registration acts with the agent token that authenticated its request. -/
theorem register_cases {label entropy : String} {ttl : Option ℤ} {id : Uuid}
    (h : step sha256 s (.register r label ttl entropy id now) = some t) :
    ∃ auth parent, s.admitted r = some auth ∧ auth.token_id = some parent ∧ now ≤ s.clock ∧
      s.commits (· == auth.agent_id) (register sha256 now auth parent label ttl
        (generate_session_token entropy) id s.db) = some t := by
  simp only [step] at h
  split at h
  · cases h
  rename_i auth hauth
  split at h
  · cases h
  rename_i parent hparent
  split at h
  · cases h
  · exact ⟨auth, parent, hauth, hparent, by omega, h⟩

/-- The operations that take the locks of the lifecycle. -/
def Act.lifecycle : Act → Bool
  | .register .. | .resume .. | .renew .. | .revoke .. | .revoke_token .. => true
  | _ => false

/-- All of them end in `commits`: what holds of it holds of the five. -/
theorem commits_of_lifecycle (ha : a.lifecycle = true) (h : step sha256 s a = some t) :
    ∃ (α : Type) (agents : Uuid → Bool) (res : BusResult (α × Db)),
      s.commits agents res = some t := by
  cases a with
  | register r label ttl entropy id now =>
    obtain ⟨auth, parent, -, -, -, hc⟩ := register_cases h
    exact ⟨_, _, _, hc⟩
  | resume r ttl entropy now =>
    obtain ⟨auth, -, -, hc⟩ := lifecycle_cases (fun auth => (· == auth.agent_id))
      (fun auth => resume sha256 now auth ttl (generate_session_token entropy) s.db) h
    exact ⟨_, _, _, hc⟩
  | renew r ttl now =>
    obtain ⟨auth, -, -, hc⟩ := lifecycle_cases (fun _ _ => false)
      (fun auth => renew now auth ttl s.db) h
    exact ⟨_, _, _, hc⟩
  | revoke r label now =>
    obtain ⟨auth, -, -, hc⟩ := lifecycle_cases (fun auth => (· == auth.agent_id))
      (fun auth => revoke now auth label s.db) h
    exact ⟨_, _, _, hc⟩
  | revoke_token team id now =>
    simp only [step] at h
    split at h
    · cases h
    · exact ⟨_, _, _, h⟩
  | _ => exact absurd ha (by simp [Act.lifecycle])

theorem authenticate_cases {raw : String} {headers : Headers}
    (h : step sha256 s (.authenticate r raw headers now) = some t) :
    s.admitted r = none ∧ now ≤ s.clock ∧ (t = s ∨ ∃ ctx,
      require_bearer sha256 now raw headers s.db = .ok ctx ∧
      t = { s with
        admitted := Function.update s.admitted r (some ctx)
        db := touch now s.share_locked ctx s.db }) := by
  simp only [step] at h
  split at h
  · cases h
  rename_i hcond
  rw [not_or, not_not] at hcond
  refine ⟨hcond.2, by omega, ?_⟩
  split at h
  · exact Or.inl (Option.some.inj h).symm
  · rename_i ctx hctx
    exact Or.inr ⟨ctx, hctx, (Option.some.inj h).symm⟩

theorem guard_cases (h : step sha256 s (.guard r now) = some t) :
    ∃ auth, s.admitted r = some auth ∧ (t = s ∨ guard now auth s.db = .ok () ∧
      t = { s with held := (r, auth.session_id) :: s.held }) := by
  simp only [step] at h
  split at h
  · cases h
  rename_i auth hauth
  refine ⟨auth, hauth, ?_⟩
  split at h
  · cases h
  split at h
  · exact Or.inl (Option.some.inj h).symm
  · rename_i u hu
    exact Or.inr ⟨hu, (Option.some.inj h).symm⟩

theorem commit_cases {db' : Db} (h : step sha256 s (.commit r db') = some t) : (∃ sid, (r, sid) ∈ s.held) ∧
      db'.agent_sessions = s.db.agent_sessions ∧ db'.api_tokens = s.db.api_tokens ∧
      t = { s with db := db', held := s.held.filter fun x => x.1 != r } := by
  simp only [step] at h
  split at h
  · rename_i hcond
    simp only [same_identity, Bool.and_eq_true, List.any_eq_true, beq_iff_eq] at hcond
    obtain ⟨⟨⟨r', sid⟩, hmem, hr⟩, ⟨⟨hses, htok⟩, -⟩, -⟩ := hcond
    exact ⟨⟨sid, by rw [← hr]; exact hmem⟩, hses, htok, (Option.some.inj h).symm⟩
  · cases h

theorem recover_cases (h : step sha256 s (.recover r now) = some t) :
    now ≤ s.clock ∧ (t = s ∨ ∃ auth, s.admitted r = some auth ∧
      (∀ x ∈ s.db.agent_sessions, x.agent_id = auth.agent_id →
        live now s.db.api_tokens x = false) ∧
      t = { s with recovering := (r, auth.agent_id) :: s.recovering }) := by
  simp only [step] at h
  split at h
  · cases h
  rename_i auth hauth
  split at h
  · cases h
  rename_i hcond
  refine ⟨by omega, ?_⟩
  split at h
  · exact Or.inl (Option.some.inj h).symm
  · rename_i hnone
    exact Or.inr ⟨auth, hauth, by simpa using hnone, (Option.some.inj h).symm⟩

theorem issue_token_cases {k : ApiToken} (h : step sha256 s (.issue_token k) = some t) :
    t = { s with db := { s.db with api_tokens := insert_into k s.db.api_tokens } } := by
  simp only [step] at h
  split at h
  · cases h
  · exact (Option.some.inj h).symm

/-- Time only takes life away. -/
theorem not_live_of_dead {tokens : List ApiToken} {clock : ℕ}
    (h : (x.revoked_at.isSome || x.expires_at ≤ now || parent_revoked tokens x) = true)
    (hnow : now ≤ clock) : live clock tokens x = false := by
  simp only [Bool.or_eq_true, decide_eq_true_eq] at h
  unfold live
  rcases h with (h | h) | h
  · rw [Option.isSome_iff_ne_none] at h
    simp [Option.isNone_iff_eq_none, h]
  · have hle : ¬ clock < x.expires_at := by omega
    simp [hle]
  · simp [h]

/-- The unique keys of `agent_sessions`. -/
structure WF (db : Db) : Prop where
  ids : Keyed AgentSession.id db.agent_sessions
  windows : Keyed (fun x : AgentSession => (x.agent_id, x.label)) db.agent_sessions
  hashes : Keyed AgentSession.token_hash db.agent_sessions

/-- The only row of a window is the one the lookup found. -/
theorem WF.window_eq {db : Db} (hw : WF db) {agent : Uuid} {lab : String}
    (hx : one (fun s => s.agent_id == agent && s.label == lab) db.agent_sessions = some x)
    (hy : y ∈ db.agent_sessions) (hp : (y.agent_id == agent && y.label == lab) = true) : y = x := by
  have hpx := pos_of_one hx
  simp only [Bool.and_eq_true, beq_iff_eq] at hpx hp
  refine hw.windows.eq hy (mem_of_one hx) ?_
  rw [hp.1, hp.2, hpx.1, hpx.2]

/-- **What one step does to the windows.** Every row is left alone or changed by
the operation of the step, or one row is added by a registration. -/
theorem step_changed (hw : WF s.db) (h : step sha256 s a = some t) : Changed sha256 s a t := by
  cases a with
  | tick d | rollback r | recovered r => rw [← Option.some.inj h]; exact Changed.same rfl
  | authenticate r raw headers now =>
    obtain ⟨-, -, rfl | ⟨ctx, -, rfl⟩⟩ := authenticate_cases h
    · exact Changed.same rfl
    · exact touch_changed
  | guard r now =>
    obtain ⟨auth, -, rfl | ⟨-, rfl⟩⟩ := guard_cases h <;> exact Changed.same rfl
  | commit r db' =>
    obtain ⟨-, hses, -, rfl⟩ := commit_cases h
    exact Changed.same hses
  | register r label ttl entropy id now =>
    obtain ⟨auth, parent, -, -, hnow, hc⟩ := register_cases h
    obtain rfl | ⟨i, db', hreg, rfl, hlock, -⟩ := commits_cases hc
    · exact Changed.same rfl
    have hfree : s.agent_locked auth.agent_id = false := by simpa [Sys.agent_locked] using hlock
    obtain ⟨lab, -, -, -, ⟨hnew, hid, -, -, rfl⟩ | ⟨x, hone, hdead, -, -, rfl⟩⟩ := register_ok hreg
    -- a label nobody wears gets a row of its own; a dead one's row is taken over
    · exact Or.inr ⟨_, rfl, hid, hnew, hfree, rfl, r, label, ttl, entropy, id, now, rfl⟩
    · refine Changed.update rfl fun y hy hp => ?_
      have hagent : y.agent_id = auth.agent_id := by
        simp only [Bool.and_eq_true, beq_iff_eq] at hp
        exact hp.1
      rw [hw.window_eq hone hy hp] at hagent ⊢
      exact Change.taken_over (not_live_of_dead hdead hnow) (by rw [hagent]; exact hfree)
  | resume r ttl entropy now =>
    obtain ⟨auth, hadm, -, hc⟩ := lifecycle_cases (fun auth => (· == auth.agent_id))
      (fun auth => resume sha256 now auth ttl (generate_session_token entropy) s.db) h
    obtain rfl | ⟨i, db', hres, rfl, -, -⟩ := commits_cases hc
    · exact Changed.same rfl
    obtain ⟨sid, x, hsid, -, -, -, -, rfl⟩ := resume_ok hres
    exact Changed.update rfl fun y _ hp => Change.rotated hadm hsid hp
  | renew r ttl now =>
    obtain ⟨auth, hadm, -, hc⟩ := lifecycle_cases (fun _ _ => false)
      (fun auth => renew now auth ttl s.db) h
    obtain rfl | ⟨i, db', hren, rfl, -, -⟩ := commits_cases hc
    · exact Changed.same rfl
    obtain ⟨sid, x, hsid, -, rfl⟩ := renew_ok hren
    exact Changed.update rfl fun y _ hp => Change.extended hadm hsid hp
  | revoke r label now =>
    obtain ⟨auth, -, -, hc⟩ := lifecycle_cases (fun auth => (· == auth.agent_id))
      (fun auth => revoke now auth label s.db) h
    obtain rfl | ⟨i, db', hrev, rfl, -, -⟩ := commits_cases hc
    · exact Changed.same rfl
    obtain ⟨-, rfl⟩ := revoke_ok hrev
    refine Changed.update rfl fun y _ hp => ?_
    simp only [Bool.and_eq_true, Option.isNone_iff_eq_none] at hp
    exact Change.closed hp.2
  | revoke_token team id now =>
    simp only [step] at h
    split at h
    · cases h
    obtain rfl | ⟨i, db', hrev, rfl, -, -⟩ := commits_cases h
    · exact Changed.same rfl
    obtain rfl | ⟨p, -, -, rfl⟩ := revoke_token_ok hrev
    · exact Changed.same rfl
    refine Changed.update rfl fun y _ hp => ?_
    simp only [Bool.and_eq_true, Option.isNone_iff_eq_none] at hp
    exact Change.closed hp.2
  | issue_token k =>
    rw [issue_token_cases h]
    exact Changed.same rfl
  | recover r now =>
    obtain ⟨-, rfl | ⟨auth, -, -, rfl⟩⟩ := recover_cases h <;> exact Changed.same rfl

/-- The unique keys survive every step: ids and windows because no statement
writes them, hashes because the database refuses a duplicate. -/
theorem WF.step (hw : WF s.db) (h : step sha256 s a = some t) : WF t.db := by
  refine ⟨?_, ?_, ?_⟩
  · obtain ⟨f, heq, hf⟩ | ⟨new, -, hid, -, -, heq, -⟩ := step_changed hw h
    · rw [heq]; exact hw.ids.map fun x hx => (hf x hx).id_eq
    · rw [heq]; exact hw.ids.insert_into hid
  · obtain ⟨f, heq, hf⟩ | ⟨new, -, -, hnew, -, heq, -⟩ := step_changed hw h
    · rw [heq]; exact hw.windows.map fun x hx => (hf x hx).window_eq
    · rw [heq]
      refine hw.windows.insert_into fun x hx hk => hnew x hx ?_
      exact Prod.mk.inj hk
  · by_cases ha : Issues a
    · rcases ha with ⟨r, label, ttl, entropy, id, now, rfl⟩ | ⟨r, ttl, entropy, now, rfl⟩
      · obtain ⟨auth, parent, -, -, -, hc⟩ := register_cases h
        obtain rfl | ⟨i, db', hreg, rfl, -, -⟩ := commits_cases hc
        · exact hw.hashes
        obtain ⟨lab, -, -, hfree, ⟨hnew, -, -, -, rfl⟩ | ⟨x, hone, -, -, -, rfl⟩⟩ := register_ok hreg
        · refine hw.hashes.insert_into fun y hy => ?_
          exact (hfree y hy).resolve_left (hnew y hy)
        · refine hw.hashes.update_one (fun y hy z hz hpy hpz => ?_) fun y hy hpy z hz hpz => ?_
          · rw [hw.window_eq hone hy hpy, hw.window_eq hone hz hpz]
          · refine (hfree z hz).resolve_left ?_ |>.symm
            simpa using hpz
      · obtain ⟨auth, -, -, hc⟩ := lifecycle_cases (fun auth => (· == auth.agent_id))
          (fun auth => resume sha256 now auth ttl (generate_session_token entropy) s.db) h
        obtain rfl | ⟨i, db', hres, rfl, -, -⟩ := commits_cases hc
        · exact hw.hashes
        obtain ⟨sid, x, -, hone, hfree, -, -, rfl⟩ := resume_ok hres
        have hid : ∀ y, resumable auth sid s.db.api_tokens y = true → y.id = sid := by
          intro y hy
          simp only [resumable, Bool.and_eq_true, beq_iff_eq] at hy
          exact hy.1.1.1
        refine hw.hashes.update_one (fun y hy z hz hpy hpz => ?_) fun y hy hpy z hz hpz => ?_
        · exact hw.ids.eq hy hz ((hid y hpy).trans (hid z hpz).symm)
        · refine ((hfree z hz).resolve_left ?_).symm
          simp [hpz]
    · obtain ⟨f, heq, hf⟩ | ⟨new, -, -, -, -, -, hreg⟩ := step_changed hw h
      · rw [heq]; exact hw.hashes.map fun x hx => (hf x hx).hash_eq ha
      · exact absurd (Or.inl hreg) ha

end CrewSync.Windows
