/-
A credential of a team, over every run of the API.

Its scope is resolved when the request is let in, and handed on as an id. What keeps the request
to its team from there on is that every operation it can reach has that id, and finds the rows
it writes through it: on the team's own rows alone each of its steps comes to the same (`only`,
`statement_only`), and what it writes is the team's (`Within`, `Inside`).

The credential itself is not looked at again. A request that was let in commits although its
credential has been revoked meanwhile; what revocation ends is that requests are let in.
-/
import CrewSync.Credentials

set_option autoImplicit false

namespace CrewSync.AdminScope

open Rows Error Runs Admin AuditTrail Credentials
open Schema (Uuid)
open Auth (trim TOKEN_PREFIX hash_token)

/-! ## A team's rows -/

/-- The token is of an agent of the team. -/
def owns (T : Uuid) (db : Db) (t : ApiToken) : Bool := db.agents.any fun a => a.id == t.agent_id && a.team_id == T

/-- What of the tables is the team's. -/
def only (T : Uuid) (db : Db) : Db where
  teams := db.teams.filter fun t => t.id == T
  agents := db.agents.filter fun a => a.team_id == T
  api_tokens := db.api_tokens.filter (owns T db)
  admin_tokens := db.admin_tokens.filter fun c => c.team_id == some T
  agent_sessions := db.agent_sessions.filter fun s => db.api_tokens.any fun t => t.id == s.parent_token && owns T db t
  conversation_outbox := db.conversation_outbox.filter fun o => o.team_id == T
  admin_audit := db.admin_audit.filter fun e => e.team_id == some T

/-- Every row that has changed, is new or is gone is one of these. -/
def Changed {ρ : Type} (old new : List ρ) (P : ρ → Prop) : Prop :=
  (∀ r ∈ new, r ∉ old → P r) ∧ ∀ r ∈ old, r ∉ new → P r

/-- The agent, the token and the credential with this id are the team's. -/
def OwnAgent (T : Uuid) (db : Db) (id : Uuid) : Prop := ∃ a ∈ db.agents, a.id = id ∧ a.team_id = T

def OwnToken (T : Uuid) (db : Db) (id : Uuid) : Prop := ∃ t ∈ db.api_tokens, t.id = id ∧ OwnAgent T db t.agent_id

def OwnAdmin (T : Uuid) (db : Db) (id : Uuid) : Prop := ∃ c ∈ db.admin_tokens, c.id = id ∧ c.team_id = some T

/-- What has changed is the team's. -/
structure Inside (T : Uuid) (db db' : Db) : Prop where
  teams : db'.teams = db.teams
  agents : Changed db.agents db'.agents fun a => a.team_id = T
  tokens : Changed db.api_tokens db'.api_tokens fun t => OwnAgent T db t.agent_id
  admins : Changed db.admin_tokens db'.admin_tokens fun c => c.team_id = some T
  sessions : Changed db.agent_sessions db'.agent_sessions fun s => OwnToken T db s.parent_token
  outbox : db'.conversation_outbox = db.conversation_outbox
  audit : Changed db.admin_audit db'.admin_audit fun e => e.team_id = some T

/-! ## The law -/

/-- The request or the command an act goes on with. -/
def Act.proc : Act → Option ℕ
  | .run i _ _ | .commit i | .fail i => some i
  | _ => none

/-- The `i`-th is a request of a credential of the team. -/
def Scoped (s : Sys) (i : ℕ) (T : Uuid) : Prop :=
  ∃ p ctx, s.procs[i]? = some p ∧ p.ctx = some ctx ∧ ctx.team_id = some T

/-- The secret that would be made of these bytes is somebody's. -/
def drawn_before (sha256 : String → String) (entropy : String) (db : Db) : Bool :=
  db.api_tokens.any fun t => t.token_hash == hash_token sha256 (TOKEN_PREFIX ++ entropy)

/-- What the API promises of a run. -/
structure ScopeLaw (lower sha256 : String → String) (tr : List (Trans Sys Act)) (t : Sys) : Prop where
  /-- A team's credential is let in by the team's rows. -/
  entry : ∀ e ∈ tr, ∀ header throttled ctx T, require_admin sha256 header throttled e.pre.db = .ok ctx →
    ctx.team_id = some T → require_admin sha256 header throttled (only T e.pre.db) = .ok ctx
  /-- What its request does next, and what it answers, is decided by them too. -/
  reads : ∀ e ∈ tr, ∀ i T, Act.proc e.act = some i → Scoped e.pre i T →
    (∀ now entropy, e.act = .run i now entropy → drawn_before sha256 entropy e.pre.db = false) →
      (Admin.step lower sha256 { e.pre with db := only T e.pre.db } e.act).map Sys.procs = some e.post.procs
  /-- What it changes is the team's. -/
  writes : ∀ e ∈ tr, ∀ i T, Act.proc e.act = some i → Scoped e.pre i T → Inside T e.pre.db e.post.db
  /-- Credentials are made by no credential of a team. -/
  mints : ∀ e ∈ tr, (∃ c ∈ e.post.db.admin_tokens, ∀ c' ∈ e.pre.db.admin_tokens, c'.id ≠ c.id) →
    ∃ i, e.act = .commit i ∧ ∀ T, ¬Scoped e.pre i T
  /-- A token that is revoked stays so, and its hash is no other's. -/
  tokens : ∀ e ∈ tr, ∀ r ∈ e.pre.db.api_tokens, r.revoked_at.isSome = true →
    ∀ r' ∈ t.db.api_tokens, r'.token_hash = r.token_hash → r'.revoked_at.isSome = true
  /-- A credential that is revoked lets nobody in any more. -/
  credentials : ∀ e ∈ tr, ∀ c ∈ e.pre.db.admin_tokens, c.revoked_at.isSome = true →
    ∀ header throttled ctx, require_admin sha256 header throttled t.db = .ok ctx → ctx.id ≠ c.id
  /-- No agent has too many tokens. -/
  few : ∀ a, active_tokens a t.db.api_tokens ≤ MAX_ACTIVE_TOKENS_PER_AGENT

section Lists

variable {ρ : Type} {p q : ρ → Bool} {l : List ρ}

/-- A lookup that asks for what the rows were chosen by. -/
theorem one_filter (h : ∀ x, p x = true → q x = true) : one p (l.filter q) = one p l := by
  unfold one
  rw [List.find?_filter]
  congr 1
  funext x
  rw [Bool.eq_iff_iff, decide_eq_true_iff]
  exact ⟨fun hx => hx.2, fun hp => ⟨h x hp, hp⟩⟩

theorem any_filter (h : ∀ x ∈ l, p x = true → q x = true) : (l.filter q).any p = l.any p := by
  rw [Bool.eq_iff_iff, List.any_eq_true, List.any_eq_true]
  constructor
  · rintro ⟨x, hx, hp⟩
    exact ⟨x, List.mem_of_mem_filter hx, hp⟩
  · rintro ⟨x, hx, hp⟩
    exact ⟨x, List.mem_filter.mpr ⟨hx, h x hx hp⟩, hp⟩

theorem filter_filter (h : ∀ x ∈ l, p x = true → q x = true) : (l.filter q).filter p = l.filter p := by
  rw [List.filter_filter]
  refine List.filter_congr fun x hx => ?_
  by_cases hp : p x = true
  · rw [h x hx hp, Bool.and_true]
  · rw [Bool.eq_false_iff.mpr hp, Bool.false_and]

theorem countP_filter (h : ∀ x ∈ l, p x = true → q x = true) : (l.filter q).countP p = l.countP p := by
  rw [List.countP_eq_length_filter, List.countP_eq_length_filter, filter_filter h]

/-- A row that is found by its key is one of the chosen ones, or is not found among them. -/
theorem one_filter_or {κ : Type} {key : ρ → κ} {k : κ} (hkeyed : Keyed key l) (hp : ∀ x, p x = true → key x = k) :
    one p (l.filter q) = one p l ∨ (one p (l.filter q) = none ∧ ∃ x, one p l = some x ∧ q x = false) := by
  cases hone : one p l with
  | none => exact .inl (one_eq_none.mpr fun x hx => one_eq_none.mp hone x (List.mem_of_mem_filter hx))
  | some x =>
    have hx := mem_of_one hone
    have hpx := pos_of_one hone
    have huniq : ∀ y ∈ l, p y = true → y = x := fun y hy hpy => hkeyed.eq hy hx ((hp y hpy).trans (hp x hpx).symm)
    by_cases hq : q x = true
    · exact .inl (one_eq_some (List.mem_filter.mpr ⟨hx, hq⟩) hpx fun y hy => huniq y (List.mem_of_mem_filter hy))
    · refine .inr ⟨one_eq_none.mpr fun y hy => Bool.eq_false_iff.mpr fun hpy => ?_, x, rfl, Bool.eq_false_iff.mpr hq⟩
      rw [huniq y (List.mem_of_mem_filter hy) hpy] at hy
      exact hq (List.mem_filter.mp hy).2

end Lists

/-! ## What a request of a team's credential can be doing -/

/-- The queries of the team. -/
def own_query (T : Uuid) : Query → Prop
  | .team_by_id id | .list_agents id | .agent_by_id id _ | .list_tokens id => id = T
  | .list_admins id => id = some T
  | .list_teams | .team_by_slug _ => False

/-- Its operations. -/
def own_op (T : Uuid) : Op → Prop
  | .create_agent id _ _ | .issue_token id _ _ => id = T
  | .revoke_token id _ | .revoke_admin id _ => id = some T
  | _ => False

/-- What is read after a commit. -/
def own_next (T : Uuid) : Then → Prop
  | .reply _ => True
  | .reread q => own_query T q

/-- A statement that finds rows by the team, or has rows of it. -/
def own_stage (T : Uuid) (db : Db) : Stage → Prop
  | .begun op => own_op T op
  | .insert_agent id _ _ => id = T
  | .enable_agent id a _ => id = T ∧ OwnAgent T db a.id
  | .count_tokens a _ _ _ | .insert_token a _ _ _ => a.team_id = T ∧ OwnAgent T db a.id
  | .update_token id _ | .find_token id _ | .find_admin id _ => id = some T
  | .sweep a t => a.team_id = T ∧ OwnToken T db t.id
  | .audit e => e.team_id = some T
  | .commit => True
  | .route _ _ | .find_agent _ _ | .insert_admin _ _ _ => False

/-- A write to rows of the team. -/
def own_write (T : Uuid) (db : Db) : Write → Prop
  | .insert_agent _ id _ _ => id = T
  | .enable_agent id _ => OwnAgent T db id
  | .insert_token t => OwnAgent T db t.agent_id
  | .revoke_token _ id => OwnToken T db id
  | .revoke_sessions _ id _ => OwnToken T db id
  | .revoke_admin _ id => OwnAdmin T db id
  | .audit e => e.team_id = some T
  | _ => False

/-- A transaction of the team. -/
structure Within (T : Uuid) (db : Db) (tx : Tx) : Prop where
  stage : own_stage T db tx.stage
  writes : ∀ w ∈ tx.writes, own_write T db w
  next : own_next T tx.next

section Within

variable {lower sha256 : String → String} {T : Uuid} {db db' : Db} {tx tx' : Tx} {w : World} {id : Uuid} {a : Agent}

theorem OwnAgent.grows (h : OwnAgent T db id) (hg : Grows db db') : OwnAgent T db' id := by
  obtain ⟨a, ha, hid, hteam⟩ := h
  obtain ⟨a', ha', hid', hteam'⟩ := hg.agents a ha
  exact ⟨a', ha', hid'.trans hid, hteam'.trans hteam⟩

theorem OwnToken.grows (h : OwnToken T db id) (hg : Grows db db') : OwnToken T db' id := by
  obtain ⟨t, ht, hid, hown⟩ := h
  obtain ⟨t', ht', hid', hagent, -⟩ := hg.tokens t ht
  exact ⟨t', ht', hid'.trans hid, hagent ▸ hown.grows hg⟩

theorem OwnAdmin.grows (h : OwnAdmin T db id) (hg : Grows db db') : OwnAdmin T db' id := by
  obtain ⟨c, hc, hid, hteam⟩ := h
  obtain ⟨c', hc', hid', hteam', -⟩ := hg.admins c hc
  exact ⟨c', hc', hid'.trans hid, hteam'.trans hteam⟩

/-- It stays the team's, whatever else is written. -/
theorem Within.grows (h : Within T db tx) (hg : Grows db db') : Within T db' tx := by
  refine ⟨?_, fun w hw => ?_, h.next⟩
  · have hstage := h.stage
    cases hs : tx.stage <;> rw [hs] at hstage
    case enable_agent | count_tokens | insert_token | sweep => exact ⟨hstage.1, hstage.2.grows hg⟩
    all_goals exact hstage
  · have hwrite := h.writes w hw
    cases w
    case enable_agent | insert_token | revoke_token | revoke_sessions | revoke_admin => exact hwrite.grows hg
    all_goals exact hwrite

theorem Within.lock (h : Within T db tx) (free : RowKey → Bool) (k : RowKey) :
    Leaves (Within T db) (tx.lock free k) :=
  leaves_lock.mpr fun _ => ⟨h.stage, h.writes, h.next⟩

/-- A statement that writes, or does not. -/
theorem Within.adds (h : Within T db tx) {x : Write} (hwrites : tx'.writes = tx.writes ++ [x])
    (hx : own_write T db x) (hstage : own_stage T db tx'.stage) (hnext : own_next T tx'.next) :
    Within T db tx' := by
  refine ⟨hstage, fun y hy => ?_, hnext⟩
  rw [hwrites] at hy
  rcases List.mem_append.mp hy with hy | hy
  · exact h.writes y hy
  · rw [List.mem_singleton.mp hy]
    exact hx

theorem Within.goes (h : Within T db tx) (hwrites : tx'.writes = tx.writes) (hnext : tx'.next = tx.next)
    (hstage : own_stage T db tx'.stage) : Within T db tx' :=
  ⟨hstage, hwrites ▸ h.writes, hnext ▸ h.next⟩

/-- The agent of a token that is in scope. -/
theorem owner_own {t : ApiToken} (h : owner_in (some T) t db = some a) :
    a.team_id = T ∧ OwnAgent T db t.agent_id := by
  have hp := pos_of_one h
  rw [Bool.and_eq_true, beq_iff_eq, in_scope, Option.isNone_some, Bool.false_or, beq_iff_eq] at hp
  exact ⟨Option.some.inj hp.2, a, mem_of_one h, hp.1, Option.some.inj hp.2⟩

theorem own_of_one {p : Agent → Bool} (h : one p db.agents = some a)
    (hp : ∀ a, p a = true → a.team_id = T) : a.team_id = T ∧ OwnAgent T db a.id :=
  ⟨hp a (pos_of_one h), a, mem_of_one h, rfl, hp a (pos_of_one h)⟩

theorem first_within (h : Within T db tx) {op : Op} (hop : own_op T op) :
    Leaves (Within T db) (first lower w db tx op) := by
  cases op with
  | create_agent team_id name display_name =>
    have hteam : team_id = T := hop
    simp only [first]
    repeat' split
    · trivial
    · trivial
    · rename_i a ha
      have hown := own_of_one (T := T) ha fun a hp => by
        rw [Bool.and_eq_true, beq_iff_eq] at hp
        exact hp.1.trans hteam
      apply Within.lock
      exact h.goes rfl rfl ⟨hteam, hown.2⟩
    · exact leaves_ok.mpr (h.goes rfl rfl hteam)
  | issue_token team_id agent label =>
    have hteam : team_id = T := hop
    simp only [first]
    repeat' split
    · trivial
    · trivial
    · rename_i a slug ha _ _ _
      have hown := own_of_one (T := T) ha fun a hp => by
        rw [Bool.and_eq_true, beq_iff_eq] at hp
        exact hp.1.trans hteam
      apply Within.lock
      exact h.goes rfl rfl hown
    · trivial
    · trivial
  | revoke_token team_id id =>
    have hteam : team_id = some T := hop
    simp only [first]
    split
    · apply Within.lock
      exact h.goes rfl rfl hteam
    · exact leaves_ok.mpr (h.goes rfl rfl hteam)
  | revoke_admin scope id =>
    have hteam : scope = some T := hop
    simp only [first]
    split
    · rename_i c hc
      have hp := pos_of_one hc
      rw [hteam, Bool.and_eq_true, Bool.and_eq_true, beq_iff_eq, in_scope, Option.isNone_some, Bool.false_or,
        beq_iff_eq] at hp
      apply Within.lock
      exact h.adds rfl ⟨c, mem_of_one hc, hp.1.1, hp.2⟩ hp.2 h.next
    · exact leaves_ok.mpr (h.goes rfl rfl hteam)
  | _ => exact hop.elim

theorem statement_within (h : Within T db tx) : Leaves (Within T db) (statement lower sha256 w db tx) := by
  have hstage := h.stage
  cases hs : tx.stage with
  | begun op =>
    rw [hs] at hstage
    simp only [statement, hs]
    exact first_within h hstage
  | insert_agent team_id name display_name =>
    rw [hs] at hstage
    have hteam : team_id = T := hstage
    simp only [statement, hs]
    repeat' split
    · trivial
    · trivial
    · apply Within.lock
      exact h.adds rfl hteam (congrArg some hteam) hteam
  | enable_agent team_id a display_name =>
    rw [hs] at hstage
    simp only [statement, hs]
    split
    · exact leaves_ok.mpr (h.adds rfl hstage.2 (congrArg some hstage.1) hstage.1)
    · exact leaves_ok.mpr (h.adds rfl hstage.2 trivial hstage.1)
  | count_tokens a team_slug agent label =>
    rw [hs] at hstage
    simp only [statement, hs]
    split
    · trivial
    · exact leaves_ok.mpr (h.goes rfl rfl hstage)
  | insert_token a team_slug agent label =>
    rw [hs] at hstage
    simp only [statement, hs]
    split
    · trivial
    · apply Within.lock
      exact h.adds rfl hstage.2 (congrArg some hstage.1) trivial
  | update_token team_id id =>
    rw [hs] at hstage
    have hteam : team_id = some T := hstage
    simp only [statement, hs]
    split
    · rename_i t ht
      split
      · rename_i a ha
        have hp := pos_of_one ht
        rw [Bool.and_eq_true, beq_iff_eq] at hp
        obtain ⟨ha, hown⟩ := owner_own (hteam ▸ ha)
        have htoken : OwnToken T db t.id := ⟨t, mem_of_one ht, rfl, hown⟩
        apply Within.lock
        exact h.adds rfl (hp.1 ▸ htoken) ⟨ha, htoken⟩ h.next
      · exact leaves_ok.mpr (h.goes rfl rfl hteam)
    · exact leaves_ok.mpr (h.goes rfl rfl hteam)
  | sweep a t =>
    rw [hs] at hstage
    simp only [statement, hs]
    exact leaves_ok.mpr (h.adds rfl hstage.2 (congrArg some hstage.1) h.next)
  | find_token team_id id | find_admin scope id =>
    simp only [statement, hs]
    split
    · exact leaves_ok.mpr (h.goes rfl rfl trivial)
    · trivial
  | audit e =>
    rw [hs] at hstage
    simp only [statement, hs]
    exact leaves_ok.mpr (h.adds rfl hstage trivial h.next)
  | commit =>
    simp only [statement, hs]
    trivial
  | _ =>
    rw [hs] at hstage
    exact hstage.elim

end Within

/-! ## On the team's rows alone -/

section Only

variable {lower sha256 : String → String} {T : Uuid} {db : Db} {tx : Tx} {w : World} {ctx : AdminCtx}
  {header : Option String} {throttled : Option ℕ}

theorem agent_only {p : Agent → Bool} (h : ∀ a, p a = true → a.team_id = T) :
    one p (only T db).agents = one p db.agents :=
  one_filter fun a hp => beq_iff_eq.mpr (h a hp)

theorem slug_only : slug_of (some T) (only T db) = slug_of (some T) db :=
  congrArg (Option.map Team.slug) (one_filter fun t hp => by simpa using hp)

/-- The tokens of an agent of the team. -/
theorem active_only {id : Uuid} (h : OwnAgent T db id) :
    active_tokens id (only T db).api_tokens = active_tokens id db.api_tokens := by
  obtain ⟨a, ha, hid, hteam⟩ := h
  refine countP_filter fun t _ hp => List.any_eq_true.mpr ⟨a, ha, ?_⟩
  rw [Bool.and_eq_true, beq_iff_eq] at hp
  rw [hp.1, hid, hteam, beq_self_eq_true, beq_self_eq_true]
  rfl

theorem in_scope_iff {team_id : Option Uuid} : in_scope (some T) team_id = true ↔ team_id = some T := by
  rw [in_scope, Option.isNone_some, Bool.false_or, beq_iff_eq]

theorem owner_only (t : ApiToken) : owner_in (some T) t (only T db) = owner_in (some T) t db :=
  agent_only fun a hp => by
    rw [Bool.and_eq_true] at hp
    exact Option.some.inj (in_scope_iff.mp hp.2)

theorem owns_iff {t : ApiToken} : owns T db t = (owner_in (some T) t db).isSome := by
  have hsame : ∀ a : Agent, (a.id == t.agent_id && in_scope (some T) (some a.team_id)) = true ↔
      (a.id == t.agent_id && a.team_id == T) = true := fun a => by
    rw [Bool.and_eq_true, Bool.and_eq_true, in_scope_iff, beq_iff_eq (a := a.team_id), Option.some_inj]
  rw [Bool.eq_iff_iff, owns, List.any_eq_true, owner_in, one, List.find?_isSome]
  exact exists_congr fun a => and_congr_right fun _ => (hsame a).symm

/-- A token that is found by its id is the team's, or has no owner in scope. -/
theorem token_only (hkeyed : Keyed ApiToken.id db.api_tokens) {p : ApiToken → Bool} {k : Uuid}
    (hp : ∀ t, p t = true → t.id = k) :
    one p (only T db).api_tokens = one p db.api_tokens ∨
      (one p (only T db).api_tokens = none ∧ ∃ t, one p db.api_tokens = some t ∧ owner_in (some T) t db = none) := by
  rcases one_filter_or (q := owns T db) hkeyed hp with heq | ⟨hnone, t, ht, hnot⟩
  · exact .inl heq
  · rw [owns_iff, Option.isSome_eq_false_iff, Option.isNone_iff_eq_none] at hnot
    exact .inr ⟨hnone, t, ht, hnot⟩

theorem first_only (hkeyed : Keyed ApiToken.id db.api_tokens) {op : Op} (hop : own_op T op) :
    first lower w (only T db) tx op = first lower w db tx op := by
  have hone : ∀ name, one (fun a => a.team_id == T && a.name == name) (only T db).agents =
      one (fun a => a.team_id == T && a.name == name) db.agents := fun name => agent_only fun a hp => by
    rw [Bool.and_eq_true, beq_iff_eq] at hp
    exact hp.1
  cases op with
  | create_agent team_id name display_name =>
    obtain rfl : team_id = T := hop
    simp only [first, hone]
  | issue_token team_id agent label =>
    obtain rfl : team_id = T := hop
    have hslug : slug_of (some team_id) (only team_id db) = slug_of (some team_id) db := slug_only
    simp only [first, hone, hslug]
  | revoke_token team_id id =>
    have hteam : team_id = some T := hop
    rw [hteam]
    simp only [first, owner_only]
    rcases token_only (T := T) hkeyed (p := fun t => t.id == id) (k := id) (fun t hp => by simpa using hp) with
      heq | ⟨hnone, t, ht, hnot⟩
    · rw [heq]
    · rw [hnone, ht, Option.bind_none, Option.bind_some, hnot]
  | revoke_admin scope id =>
    have hteam : scope = some T := hop
    have hone : one (fun c => c.id == id && c.revoked_at.isNone && in_scope scope c.team_id) (only T db).admin_tokens =
        one (fun c => c.id == id && c.revoked_at.isNone && in_scope scope c.team_id) db.admin_tokens :=
      one_filter fun c hp => by
        rw [hteam, Bool.and_eq_true, in_scope_iff] at hp
        exact beq_iff_eq.mpr hp.2
    simp only [first, hone]
  | _ => exact hop.elim

/-- A statement of the team finds on the team's rows what it finds. -/
theorem statement_only (hkeyed : Keyed ApiToken.id db.api_tokens) (h : Within T db tx)
    (hdrawn : drawn_before sha256 w.entropy db = false) :
    statement lower sha256 w (only T db) tx = statement lower sha256 w db tx := by
  have hstage := h.stage
  cases hs : tx.stage with
  | begun op =>
    rw [hs] at hstage
    simp only [statement, hs]
    exact first_only hkeyed hstage
  | insert_agent team_id name display_name =>
    rw [hs] at hstage
    have hteam : team_id = T := hstage
    -- the rows looked at are of team `T`, so the filter keeps them
    have hteams : (only T db).teams.any (fun t => t.id == team_id) = db.teams.any fun t => t.id == team_id :=
      any_filter fun t _ hp => hteam ▸ hp
    have hagents : (only T db).agents.any (fun a => a.team_id == team_id && a.name == name) =
        db.agents.any fun a => a.team_id == team_id && a.name == name :=
      any_filter fun _ _ hp => by
        rw [Bool.and_eq_true] at hp
        exact hteam ▸ hp.1
    simp only [statement, hs, hteams, hagents]
  | enable_agent team_id a display_name | audit e | commit => simp only [statement, hs]
  | count_tokens a team_slug agent label =>
    rw [hs] at hstage
    simp only [statement, hs, active_only hstage.2]
  | insert_token a team_slug agent label =>
    have hwhole : db.api_tokens.any (fun t => t.token_hash == hash_token sha256 (TOKEN_PREFIX ++ w.entropy)) = false :=
      hdrawn
    have honly : (only T db).api_tokens.any (fun t => t.token_hash == hash_token sha256 (TOKEN_PREFIX ++ w.entropy)) =
        false := by
      rw [List.any_eq_false] at hwhole ⊢
      exact fun t ht => hwhole t (List.mem_of_mem_filter ht)
    simp only [statement, hs, hwhole, honly]
  | update_token team_id id =>
    rw [hs] at hstage
    have hteam : team_id = some T := hstage
    rw [hteam] at hs
    simp only [statement, hs, owner_only]
    rcases token_only (T := T) hkeyed (p := fun t => t.id == id && t.revoked_at.isNone) (k := id) (fun t hp => by
      rw [Bool.and_eq_true, beq_iff_eq] at hp
      exact hp.1) with heq | ⟨hnone, t, ht, hnot⟩
    · rw [heq]
    · rw [hnone, ht]
      simp only [hnot]
  | sweep a t =>
    rw [hs] at hstage
    obtain ⟨-, t', ht', hid, a', ha', haid, hteam⟩ := hstage
    have hfilter : (only T db).agent_sessions.filter (fun s => s.parent_token == t.id && s.revoked_at.isNone) =
        db.agent_sessions.filter fun s => s.parent_token == t.id && s.revoked_at.isNone :=
      filter_filter fun s _ hp => by
        rw [Bool.and_eq_true, beq_iff_eq] at hp
        refine List.any_eq_true.mpr ⟨t', ht', ?_⟩
        rw [Bool.and_eq_true, beq_iff_eq]
        refine ⟨hid.trans hp.1.symm, List.any_eq_true.mpr ⟨a', ha', ?_⟩⟩
        rw [Bool.and_eq_true, beq_iff_eq, beq_iff_eq]
        exact ⟨haid, hteam⟩
    simp only [statement, hs, hfilter]
  | find_token team_id id =>
    rw [hs] at hstage
    have hteam : team_id = some T := hstage
    rw [hteam] at hs
    have hany : (only T db).api_tokens.any (fun t => t.id == id && (owner_in (some T) t db).isSome) =
        db.api_tokens.any fun t => t.id == id && (owner_in (some T) t db).isSome :=
      any_filter fun t _ hp => by
        rw [Bool.and_eq_true] at hp
        exact owns_iff.trans hp.2
    simp only [statement, hs, owner_only, hany]
  | find_admin scope id =>
    rw [hs] at hstage
    have hteam : scope = some T := hstage
    have hany : (only T db).admin_tokens.any (fun c => c.id == id && in_scope scope c.team_id) =
        db.admin_tokens.any fun c => c.id == id && in_scope scope c.team_id :=
      any_filter fun c _ hp => by
        rw [hteam, Bool.and_eq_true, in_scope_iff] at hp
        exact beq_iff_eq.mpr hp.2
    simp only [statement, hs, hany]
  | _ =>
    rw [hs] at hstage
    exact hstage.elim

theorem team_row_only {t : Team} (ht : t.id = T) : team_row (only T db) t = team_row db t :=
  congrArg (TeamRow.mk t.id t.slug t.name) (countP_filter fun _ _ hp => ht ▸ hp)

theorem team_by_id_only : team_by_id T (only T db) = team_by_id T db := by
  have hone : one (fun t => t.id == T) (only T db).teams = one (fun t => t.id == T) db.teams :=
    one_filter fun _ hp => hp
  rw [team_by_id, team_by_id, hone]
  cases ht : one (fun t => t.id == T) db.teams with
  | none => rfl
  | some t => exact congrArg Except.ok (team_row_only (by simpa using pos_of_one ht))

theorem list_agents_only : list_agents T (only T db) = list_agents T db := by
  have hfilter : (only T db).agents.filter (fun a => a.team_id == T) = db.agents.filter fun a => a.team_id == T :=
    filter_filter fun _ _ hp => hp
  rw [list_agents, list_agents, hfilter]
  refine List.map_congr_left fun a ha => ?_
  obtain ⟨ha, hteam⟩ := List.mem_filter.mp ha
  exact congrArg (AgentRow.mk a.id a.name a.display_name a.disabled_at.isSome)
    (active_only ⟨a, ha, rfl, beq_iff_eq.mp hteam⟩)

theorem token_row_only (t : ApiToken) : token_row T (only T db) t = token_row T db t :=
  congrArg (Option.map _) (agent_only fun _ hp => by
    rw [Bool.and_eq_true, beq_iff_eq, beq_iff_eq] at hp
    exact hp.2)

/-- So does a query. -/
theorem answer_only {q : Query} (hq : own_query T q) : answer lower (only T db) q = answer lower db q := by
  cases q with
  | team_by_id id =>
    have hid : id = T := hq
    rw [hid, answer, answer, team_by_id_only]
  | list_agents team_id | agent_by_id team_id id =>
    have hid : team_id = T := hq
    rw [hid, answer, answer, list_agents_only]
  | list_tokens team_id =>
    have hid : team_id = T := hq
    rw [hid, answer, answer]
    congr 2
    have hrow : token_row T (only T db) = token_row T db := funext token_row_only
    rw [hrow]
    refine (List.filterMap_filter).trans (List.filterMap_congr fun t _ => ?_)
    cases hown : owns T db t with
    | true => rfl
    | false =>
      have hnone : one (fun a => a.id == t.agent_id && a.team_id == T) db.agents = none :=
        one_eq_none.mpr fun a ha => Bool.eq_false_iff.mpr (List.any_eq_false.mp hown a ha)
      rw [token_row, hnone]
      rfl
  | list_admins team_id =>
    have hid : team_id = some T := hq
    rw [hid, answer, answer]
    congr 2
    have hfilter : (only T db).admin_tokens.filter (fun c => in_scope (some T) c.team_id) =
        db.admin_tokens.filter fun c => in_scope (some T) c.team_id :=
      filter_filter fun c _ hp => beq_iff_eq.mpr (in_scope_iff.mp hp)
    rw [hfilter]
    refine List.map_congr_left fun c hc => ?_
    have hteam := in_scope_iff.mp (List.mem_filter.mp hc).2
    rw [admin_row, admin_row, hteam, slug_only]
  | _ => exact hq.elim

/-- A credential that has this hash and is not revoked. -/
def live (sha256 : String → String) (raw : String) (c : AdminToken) : Bool :=
  c.token_hash == hash_token sha256 (trim raw) && c.revoked_at.isNone

theorem resolve_iff {raw : String} :
    resolve_admin sha256 raw db = some ctx ↔ Auth.starts_with ADMIN_TOKEN_PREFIX (trim raw) = true ∧
      ∃ c, one (live sha256 raw) db.admin_tokens = some c ∧ ⟨c.id, c.team_id, slug_of c.team_id db⟩ = ctx := by
  simp only [resolve_admin, Bool.not_eq_true']
  by_cases hstart : Auth.starts_with ADMIN_TOKEN_PREFIX (trim raw) = true
  · rw [if_neg (by rw [hstart]; exact Bool.noConfusion), Option.map_eq_some_iff]
    exact ⟨fun h => ⟨hstart, h⟩, fun h => h.2⟩
  · rw [if_pos (Bool.eq_false_iff.mpr hstart)]
    exact ⟨fun h => absurd h (by simp), fun h => absurd h.1 hstart⟩

/-- Who is let in has a credential that resolves, and is not turned away before. -/
theorem require_resolved (h : require_admin sha256 header throttled db = .ok ctx) :
    ∃ raw, header = some raw ∧ resolve_admin sha256 raw db = some ctx ∧
      ∀ db', resolve_admin sha256 raw db' = some ctx → require_admin sha256 header throttled db' = .ok ctx := by
  cases header with
  | none => exact absurd h (by simp [require_admin])
  | some raw =>
    refine ⟨raw, rfl, ?_⟩
    simp only [require_admin] at h ⊢
    by_cases hagent : Auth.starts_with TOKEN_PREFIX raw = true
    · rw [if_pos hagent] at h
      cases h
    · simp only [if_neg hagent] at h ⊢
      by_cases hother : (!Auth.starts_with ADMIN_TOKEN_PREFIX raw) = true
      · rw [if_pos hother] at h
        cases h
      · simp only [if_neg hother] at h ⊢
        cases throttled with
        | some secs => exact nomatch h
        | none =>
          cases hctx : resolve_admin sha256 raw db with
          | none =>
            simp only [hctx] at h
            cases h
          | some found =>
            simp only [hctx] at h
            rw [Except.ok.inj h]
            exact ⟨rfl, fun db' h' => by rw [h']⟩

/-- The row somebody is let in by. -/
theorem require_row (h : require_admin sha256 header throttled db = .ok ctx) :
    ∃ c ∈ db.admin_tokens, c.revoked_at = none ∧ ctx = ⟨c.id, c.team_id, slug_of c.team_id db⟩ := by
  obtain ⟨raw, -, hresolve, -⟩ := require_resolved h
  obtain ⟨-, c, hc, heq⟩ := resolve_iff.mp hresolve
  have hp := pos_of_one hc
  rw [live, Bool.and_eq_true, Option.isNone_iff_eq_none] at hp
  exact ⟨c, mem_of_one hc, hp.2, heq.symm⟩

/-- A team's credential is found among the team's. -/
theorem require_only (hkeyed : Keyed AdminToken.token_hash db.admin_tokens)
    (h : require_admin sha256 header throttled db = .ok ctx)
    (hteam : ctx.team_id = some T) : require_admin sha256 header throttled (only T db) = .ok ctx := by
  obtain ⟨raw, -, hresolve, hback⟩ := require_resolved h
  obtain ⟨hstart, c, hc, heq⟩ := resolve_iff.mp hresolve
  have hc_team : c.team_id = some T := by
    rw [← heq] at hteam
    exact hteam
  have hhash : ∀ c, live sha256 raw c = true → c.token_hash = hash_token sha256 (trim raw) := fun c hp => by
    rw [live, Bool.and_eq_true, beq_iff_eq] at hp
    exact hp.1
  refine hback _ (resolve_iff.mpr ⟨hstart, c, ?_, ?_⟩)
  · rcases one_filter_or (q := fun c => c.team_id == some T) hkeyed hhash with hone | ⟨-, c', hc', hnot⟩
    · exact hone.trans hc
    · rw [Option.some.inj (hc'.symm.trans hc), hc_team, beq_self_eq_true] at hnot
      exact Bool.noConfusion hnot
  · rw [← heq, hc_team, slug_only]

/-- A team that a request names is the team, or is not known to it. -/
theorem scoped_team_only (hteam : ctx.team_id = some T) (hslug : ctx.team_slug.isSome = true) (slug : String) :
    scoped_team lower ctx slug (only T db) = scoped_team lower ctx slug db ∧
      (scoped_team lower ctx slug db = .ok T ∨ ∃ e, scoped_team lower ctx slug db = .error e) := by
  obtain ⟨own, hown⟩ := Option.isSome_iff_exists.mp hslug
  unfold scoped_team
  rw [hteam, hown]
  refine ⟨rfl, ?_⟩
  by_cases heq : own = lower (trim slug)
  · exact .inl (if_pos heq)
  · exact .inr ⟨_, if_neg heq⟩

/-- What a handler goes on with is the team's. -/
def own_handling (T : Uuid) : Except ApiError Handling → Prop
  | .ok (.reading q) => own_query T q
  | .ok (.writing op) => own_op T op
  | _ => True

/-- A handler goes by the credential, and by no row. -/
theorem handle_only (hteam : ctx.team_id = some T) (hslug : ctx.team_slug.isSome = true) (req : Request) :
    handle lower ctx (only T db) req = handle lower ctx db req ∧ own_handling T (handle lower ctx db req) := by
  have hglobal : ctx.is_global = false := by rw [AdminCtx.is_global, hteam]; rfl
  have hscoped : ∀ (slug : String) (f : Uuid → Handling), own_handling T (.ok (f T)) →
      (do let tid ← scoped_team lower ctx slug (only T db); pure (f tid)) =
          (do let tid ← scoped_team lower ctx slug db; pure (f tid)) ∧
        own_handling T (do let tid ← scoped_team lower ctx slug db; pure (f tid)) := by
    intro slug f hf
    have hboth : scoped_team lower ctx slug (only T db) = scoped_team lower ctx slug db ∧
        (scoped_team lower ctx slug db = .ok T ∨ ∃ e, scoped_team lower ctx slug db = .error e) :=
      scoped_team_only hteam hslug slug
    obtain ⟨heq, hok | ⟨e, herror⟩⟩ := hboth
    · rw [heq, hok]
      exact ⟨rfl, hf⟩
    · rw [heq, herror]
      exact ⟨rfl, trivial⟩
  have hrefused : ∀ (what : String) (f : Unit → Except ApiError Handling),
      own_handling T (require_global ctx what >>= f) := by
    intro what f
    rw [require_global, hglobal]
    exact trivial
  cases req with
  | whoami => exact ⟨rfl, trivial⟩
  | list_teams =>
    simp only [handle, hteam]
    exact ⟨trivial, rfl⟩
  | create_team slug name => exact ⟨rfl, hrefused _ _⟩
  | list_agents team => exact hscoped team (fun tid => .reading (.list_agents tid)) rfl
  | create_agent team name display_name =>
    exact hscoped team (fun tid => .writing (.create_agent tid name display_name)) rfl
  | list_tokens team => exact hscoped team (fun tid => .reading (.list_tokens tid)) rfl
  | issue_token team agent label => exact hscoped team (fun tid => .writing (.issue_token tid agent label)) rfl
  | revoke_token team id => exact hscoped team (fun tid => .writing (.revoke_token (some tid) id)) rfl
  | list_credentials | revoke_credential id => exact ⟨rfl, hteam⟩
  | grant_credential team label =>
    refine ⟨?_, hrefused _ _⟩
    simp only [handle, require_global, hglobal]
    rfl

end Only

/-! ## What is written -/

section Changed

variable {ρ : Type} {l l' l'' : List ρ} {P : ρ → Prop} {p : ρ → Bool} {f : ρ → ρ}

theorem Changed.refl (l : List ρ) (P : ρ → Prop) : Changed l l P :=
  ⟨fun _ hr hnot => absurd hr hnot, fun _ hr hnot => absurd hr hnot⟩

theorem Changed.trans (h : Changed l l' P) (h' : Changed l' l'' P) : Changed l l'' P := by
  constructor
  · intro r hr hnot
    by_cases hin : r ∈ l'
    · exact h.1 r hin hnot
    · exact h'.1 r hr hin
  · intro r hr hnot
    by_cases hin : r ∈ l'
    · exact h'.2 r hin hnot
    · exact h.2 r hr hin

theorem Changed.insert {r : ρ} (hr : P r) : Changed l (insert_into r l) P := by
  constructor
  · intro x hx hnot
    rcases mem_insert_into.mp hx with hx | rfl
    · exact absurd hx hnot
    · exact hr
  · exact fun x hx hnot => absurd (mem_insert_into.mpr (.inl hx)) hnot

theorem Changed.update (h : ∀ r ∈ l, p r = true → P r ∧ P (f r)) : Changed l (update p f l) P := by
  constructor
  · intro x hx hnot
    obtain ⟨r, hr, rfl⟩ := mem_update.mp hx
    by_cases hp : p r = true
    · rw [if_pos hp]
      exact (h r hr hp).2
    · rw [if_neg hp] at hnot
      exact absurd hr hnot
  · intro x hx hnot
    by_cases hp : p x = true
    · exact (h x hx hp).1
    · exact absurd (mem_update_of_not hx (Bool.eq_false_iff.mpr hp)) hnot

end Changed

section Inside

variable {T : Uuid} {db db' : Db} {tx : Tx} {x : Write}

theorem Inside.refl (T : Uuid) (db : Db) : Inside T db db :=
  ⟨rfl, .refl _ _, .refl _ _, .refl _ _, .refl _ _, rfl, .refl _ _⟩

/-- A write of the team changes the team's rows. -/
theorem inside_apply (hagents : Keyed Agent.id db.agents) (htokens : Keyed ApiToken.id db.api_tokens)
    (hadmins : Keyed AdminToken.id db.admin_tokens) (h : own_write T db x) : Inside T db (x.apply db) := by
  have hsame := Inside.refl T db
  cases x with
  | insert_agent id team_id name display_name => exact { hsame with agents := .insert h }
  | enable_agent id display_name =>
    obtain ⟨a, ha, hid, hteam⟩ := h
    refine { hsame with agents := .update fun r hr hp => ?_ }
    rw [hagents.eq hr ha ((beq_iff_eq.mp hp).trans hid.symm)]
    exact ⟨hteam, hteam⟩
  | insert_token t => exact { hsame with tokens := .insert h }
  | revoke_token now id =>
    obtain ⟨t, ht, hid, hown⟩ := h
    refine { hsame with tokens := .update fun r hr hp => ?_ }
    rw [Bool.and_eq_true, beq_iff_eq] at hp
    rw [htokens.eq hr ht (hp.1.trans hid.symm)]
    exact ⟨hown, hown⟩
  | revoke_sessions now parent_token ids =>
    refine { hsame with sessions := .update fun r hr hp => ?_ }
    rw [Bool.and_eq_true, beq_iff_eq] at hp
    have hown : OwnToken T db r.parent_token := hp.1 ▸ h
    exact ⟨hown, hown⟩
  | revoke_admin now id =>
    obtain ⟨c, hc, hid, hteam⟩ := h
    refine { hsame with admins := .update fun r hr hp => ?_ }
    rw [Bool.and_eq_true, beq_iff_eq] at hp
    rw [hadmins.eq hr hc (hp.1.trans hid.symm)]
    exact ⟨hteam, hteam⟩
  | audit e => exact { hsame with audit := .insert h }
  | _ => exact h.elim

/-- What follows the first write: sessions, and the row of the audit. -/
def trailing : Write → Bool
  | .revoke_sessions _ _ _ | .audit _ => true
  | _ => false

theorem Inside.trailing (h : Inside T db db') (hx : trailing x = true) (hown : own_write T db x) :
    Inside T db (x.apply db') := by
  cases x with
  | revoke_sessions now parent_token ids =>
    refine { h with sessions := h.sessions.trans (.update fun r hr hp => ?_) }
    rw [Bool.and_eq_true, beq_iff_eq] at hp
    have hown : OwnToken T db r.parent_token := hp.1 ▸ hown
    exact ⟨hown, hown⟩
  | audit e => exact { h with audit := h.audit.trans (.insert hown) }
  | _ => exact absurd hx (by simp [AdminScope.trailing])

theorem Inside.trailed (ws : List Write) (hws : ∀ x ∈ ws, AdminScope.trailing x = true ∧ own_write T db x) :
    ∀ db', Inside T db db' → Inside T db (ws.foldl Write.apply db') := by
  induction ws with
  | nil => exact fun _ h => h
  | cons x ws ih =>
    intro db' h
    obtain ⟨hx, hown⟩ := hws x List.mem_cons_self
    exact ih (fun y hy => hws y (List.mem_cons_of_mem _ hy)) _ (h.trailing hx hown)

/-- A transaction of the team has changed the team's rows when it commits. -/
theorem inside_committed (hagents : Keyed Agent.id db.agents) (htokens : Keyed ApiToken.id db.api_tokens)
    (hadmins : Keyed AdminToken.id db.admin_tokens) (h : Within T db tx) (hready : Ready db tx)
    (hstage : tx.stage = .commit) : Inside T db (tx.committed db) := by
  unfold Ready at hready
  rw [hstage] at hready
  rcases hready with hwrites | ⟨x, hwrites, -⟩ | ⟨x, rest, e, hwrites, -, -, hrest⟩
  · rw [Tx.committed, hwrites]
    exact .refl T db
  · rw [Tx.committed, hwrites]
    exact inside_apply hagents htokens hadmins (h.writes x (hwrites ▸ List.mem_cons_self))
  · rw [Tx.committed, hwrites, List.foldl_cons]
    refine Inside.trailed _ (fun y hy => ⟨?_, h.writes y (hwrites ▸ List.mem_cons_of_mem _ hy)⟩) _
      (inside_apply hagents htokens hadmins (h.writes x (hwrites ▸ List.mem_cons_self)))
    rcases List.mem_append.mp hy with hy | hy
    · have hquiet := hrest y hy
      cases y with
      | revoke_sessions => rfl
      | _ => exact absurd hquiet (by simp [quiet])
    · rw [List.mem_singleton.mp hy]
      rfl

end Inside

/-! ## Runs -/

/-- There is such a team. -/
def Founded (T : Uuid) (db : Db) : Prop := ∃ t ∈ db.teams, t.id = T

/-- Whoever grants a credential for a team has seen the team. -/
structure Granting (db : Db) (tx : Tx) : Prop where
  stage : ∀ T team_slug label, tx.stage = .insert_admin (some T) team_slug label → Founded T db
  writes : ∀ c T, .insert_admin c ∈ tx.writes → c.team_id = some T → Founded T db

/-- What a request of a team's credential is doing. -/
def own_phase (T : Uuid) (db : Db) : Phase → Prop
  | .reading q => own_query T q
  | .working tx => Within T db tx
  | _ => True

/-- What holds between the steps of a run. -/
structure Scoping (s : Sys) : Prop where
  audit : AuditTrail.Inv s
  unique : Unique s.db
  capped : Capped s
  founded : ∀ c ∈ s.db.admin_tokens, ∀ T, c.team_id = some T → Founded T s.db
  granting : ∀ i tx, s.tx i = some tx → Granting s.db tx
  procs : ∀ (i : ℕ) (p : Proc) ctx T, s.procs[i]? = some p → p.ctx = some ctx → ctx.team_id = some T →
    ctx.team_slug.isSome = true ∧ own_phase T s.db p.phase

section Granting

variable {lower sha256 : String → String} {T : Uuid} {db db' : Db} {tx tx' : Tx} {w : World}

theorem Founded.grows (h : Founded T db) (hg : Grows db db') : Founded T db' := by
  obtain ⟨t, ht, hid⟩ := h
  obtain ⟨t', ht', hid', -⟩ := hg.teams t ht
  exact ⟨t', ht', hid'.trans hid⟩

theorem founded_slug : (slug_of (some T) db).isSome = true ↔ Founded T db := by
  rw [slug_of, Option.isSome_map, one, List.find?_isSome]
  refine exists_congr fun t => and_congr_right fun _ => ?_
  rw [beq_iff_eq, Option.some_inj]

theorem Granting.grows (h : Granting db tx) (hg : Grows db db') : Granting db' tx :=
  ⟨fun T _ _ hstage => (h.stage T _ _ hstage).grows hg, fun c T hc hteam => (h.writes c T hc hteam).grows hg⟩

theorem Granting.lock (h : Granting db tx) (free : RowKey → Bool) (k : RowKey) :
    Leaves (Granting db) (tx.lock free k) :=
  leaves_lock.mpr fun _ => ⟨h.stage, h.writes⟩

/-- The stage before a credential is inserted. -/
def grants : Stage → Bool
  | .insert_admin _ _ _ => true
  | _ => false

/-- The write is of a new credential. -/
def inserts_admin : Write → Bool
  | .insert_admin _ => true
  | _ => false

theorem Granting.goes (h : Granting db tx) (hstage : grants tx'.stage = false) (hwrites : tx'.writes = tx.writes) :
    Granting db tx' where
  stage := fun T _ _ heq => absurd hstage (by rw [heq, grants]; decide)
  writes := fun c T hc hteam => h.writes c T (hwrites ▸ hc) hteam

theorem Granting.adds (h : Granting db tx) (hstage : grants tx'.stage = false) {x : Write}
    (hwrites : tx'.writes = tx.writes ++ [x]) (hx : inserts_admin x = false) : Granting db tx' where
  stage := fun T _ _ heq => absurd hstage (by rw [heq, grants]; decide)
  writes := fun c T hc hteam => by
    rw [hwrites] at hc
    rcases List.mem_append.mp hc with hc | hc
    · exact h.writes c T hc hteam
    · rw [← List.mem_singleton.mp hc, inserts_admin] at hx
      cases hx

theorem first_granting (h : Granting db tx) {op : Op} : Leaves (Granting db) (first lower w db tx op) := by
  cases op with
  | grant_admin team_id label =>
    simp only [first]
    repeat' split
    · trivial
    · trivial
    · rename_i T slug hslug
      refine leaves_ok.mpr ⟨fun T' _ _ hstage => ?_, h.writes⟩
      rw [← Option.some.inj (Stage.insert_admin.inj hstage).1]
      exact founded_slug.mp (hslug ▸ rfl)
    · refine leaves_ok.mpr ⟨fun T' _ _ hstage => ?_, h.writes⟩
      cases (Stage.insert_admin.inj hstage).1
  | _ =>
    simp only [first]
    repeat' split
    all_goals first
      | exact trivial
      | exact Granting.goes h rfl rfl
      | (apply Granting.lock; exact Granting.goes h rfl rfl)
      | (apply Granting.lock; exact Granting.adds h rfl rfl rfl)

theorem statement_granting (h : Granting db tx) : Leaves (Granting db) (statement lower sha256 w db tx) := by
  cases hs : tx.stage with
  | begun op =>
    simp only [statement, hs]
    exact first_granting h
  | insert_admin team_id team_slug label =>
    simp only [statement, hs]
    split
    · trivial
    · apply Granting.lock
      refine ⟨fun T _ _ heq => Stage.noConfusion heq, fun c T hc hteam => ?_⟩
      have hc : Write.insert_admin c ∈ tx.writes ++ [_] := hc
      rcases List.mem_append.mp hc with hc | hc
      · exact h.writes c T hc hteam
      · have heq := List.mem_singleton.mp hc
        rw [Write.insert_admin.inj heq] at hteam
        have hteam : team_id = some T := hteam
        rw [hteam] at hs
        exact h.stage T _ _ hs
  | _ =>
    simp only [statement, hs]
    repeat' split
    all_goals first
      | exact trivial
      | exact Granting.goes h rfl rfl
      | exact Granting.adds h rfl rfl rfl
      | (apply Granting.lock; exact Granting.adds h rfl rfl rfl)

end Granting

section Runs

variable {lower sha256 : String → String} {s t : Sys} {a : Act} {tr : List (Trans Sys Act)} {T : Uuid} {db : Db}
  {tx : Tx} {i : ℕ}

theorem own_phase_grows {db' : Db} {phase : Phase} (h : own_phase T db phase) (hg : Grows db db') :
    own_phase T db' phase := by
  cases phase with
  | working tx => exact Within.grows h hg
  | _ => exact h

theorem own_result (p : Proc) (r : BusResult Reply) : own_phase T db (p.result r) := by
  unfold Proc.result
  split
  · trivial
  · trivial

theorem own_after {p : Proc} {next : Then} (h : own_next T next) : own_phase T db (p.after next) := by
  cases next with
  | reply r => exact own_result p _
  | reread q => exact h

theorem own_handled {actor : Actor} {now : ℕ} {r : Except ApiError Handling}
    (h : own_handling T r) : own_phase T db (handled actor now r) := by
  unfold handled
  split
  · trivial
  · trivial
  · exact h
  · exact ⟨h, fun w hw => absurd hw List.not_mem_nil, trivial⟩

theorem Scoping.start : Scoping .start where
  audit := .start
  unique := ⟨Keyed.nil _, Keyed.nil _⟩
  capped := .start
  founded := fun c hc => absurd hc List.not_mem_nil
  granting := fun i tx h => absurd h (by simp [Sys.tx, Sys.start])
  procs := fun i p ctx T h => absurd h (by simp [Sys.start])

/-- A transaction comes to grant what it has seen. -/
theorem Scoping.granting_step (hs : Scoping s) (h : Did lower sha256 s a t) {j : ℕ} (htx : t.tx j = some tx) :
    Granting s.db tx := by
  obtain ⟨p, hp, hphase⟩ := tx_eq.mp htx
  cases h.from hp hphase with
  | was hp => exact hs.granting j tx (tx_eq.mpr ⟨p, hp, hphase⟩)
  | commanded now op _ heq | handled _ _ _ now op _ _ _ _ _ heq =>
    rw [heq]
    exact ⟨fun _ _ _ h => Stage.noConfusion h, fun _ _ h => absurd h List.not_mem_nil⟩
  | ran q tx₀ now entropy _ hq hworking _ hran _ =>
    exact (statement_granting (hs.granting j tx₀ (tx_eq.mpr ⟨q, hq, hworking⟩))).of hran

/-- A credential of a team is of a team there is. -/
theorem Scoping.founded_step (hs : Scoping s) (h : Did lower sha256 s a t) :
    ∀ c ∈ t.db.admin_tokens, ∀ T, c.team_id = some T → Founded T s.db := by
  have hupdate : ∀ (p : AdminToken → Bool) (f : AdminToken → AdminToken), (∀ c, (f c).team_id = c.team_id) →
      ∀ c ∈ update p f s.db.admin_tokens, ∀ T, c.team_id = some T → Founded T s.db := by
    intro p f hf
    exact forall_update hs.founded fun c _ _ hc T hT => hc T ((hf c).symm.trans hT)
  rcases h.tables with ⟨i, tx, -, htx, hstage, hdb, -⟩ | hdb | ⟨now, id, hdb⟩ | ⟨windows, slots, used, hdb⟩
  · rw [hdb]
    rcases committed_tables (hs.audit.ready i tx htx) hstage with ⟨-, hadmins⟩ | ⟨w, hw, -, -, hadmins⟩
    · rw [hadmins]
      exact hs.founded
    · rw [hadmins]
      cases w with
      | insert_admin c =>
        exact forall_insert_into hs.founded fun T hT => (hs.granting i tx htx).writes c T hw hT
      | revoke_admin now id => exact hupdate _ _ fun _ => rfl
      | _ => exact hs.founded
  · rw [hdb]
    exact hs.founded
  · rw [hdb]
    exact hupdate _ _ fun _ => rfl
  · rw [hdb]
    exact hs.founded

/-- A request of a team's credential stays with the team. -/
theorem Scoping.procs_step (hs : Scoping s) (h : Did lower sha256 s a t) (j : ℕ) (p : Proc) (ctx : AdminCtx) (T : Uuid)
    (hp : t.procs[j]? = some p) (hctx : p.ctx = some ctx) (hteam : ctx.team_id = some T) :
    ctx.team_slug.isSome = true ∧ own_phase T s.db p.phase := by
  have hold : s.procs[j]? = some p → ctx.team_slug.isSome = true ∧ own_phase T s.db p.phase :=
    fun hp => hs.procs j p ctx T hp hctx hteam
  cases h with
  | admitted ctx' hadmitted =>
    rcases came_at hp with hp | ⟨-, rfl⟩
    · exact hold hp
    · obtain ⟨c, hc, -, heq⟩ := require_row hadmitted
      rw [← Option.some.inj hctx, heq] at hteam ⊢
      have hteam : c.team_id = some T := hteam
      refine ⟨?_, trivial⟩
      simp only [hteam]
      exact founded_slug.mpr (hs.founded c hc T hteam)
  | turned_away e | commanded =>
    rcases came_at hp with hp | ⟨-, rfl⟩
    · exact hold hp
    · cases hctx
  | handled q ctx' req hq hasked hctx' =>
    rcases goes_at hp with ⟨rfl, rfl⟩ | ⟨-, hp⟩
    · rw [Option.some.inj (hctx'.symm.trans hctx)]
      have hslug := (hs.procs _ q ctx T hq hctx hteam).1
      exact ⟨hslug, own_handled (handle_only hteam hslug req).2⟩
    · exact hold hp
  | read q query hq hread | aborted q e hq =>
    rcases goes_at hp with ⟨rfl, rfl⟩ | ⟨-, hp⟩
    · exact ⟨(hs.procs _ q ctx T hq hctx hteam).1, own_result q _⟩
    · exact hold hp
  | ran q tx tx' hq hworking hran =>
    rcases goes_at hp with ⟨rfl, rfl⟩ | ⟨-, hp⟩
    · obtain ⟨hslug, hown⟩ := hs.procs _ q ctx T hq hctx hteam
      rw [hworking] at hown
      exact ⟨hslug, (statement_within hown).of hran⟩
    · exact hold hp
  | committed q tx hq hworking hstage =>
    rcases goes_at hp with ⟨rfl, rfl⟩ | ⟨-, hp⟩
    · obtain ⟨hslug, hown⟩ := hs.procs _ q ctx T hq hctx hteam
      rw [hworking] at hown
      exact ⟨hslug, own_after hown.next⟩
    · exact hold hp
  | elsewhere => exact hold hp

theorem Scoping.step (hs : Scoping s) (h : Did lower sha256 s a t) : Scoping t where
  audit := hs.audit.step h
  unique := hs.unique.step hs.audit h
  capped := hs.capped.step hs.audit h
  founded := fun c hc T hT => (hs.founded_step h c hc T hT).grows (.step h)
  granting := fun _ _ htx => (hs.granting_step h htx).grows (.step h)
  procs := fun j p ctx T hp hctx hteam =>
    ⟨(hs.procs_step h j p ctx T hp hctx hteam).1, own_phase_grows (hs.procs_step h j p ctx T hp hctx hteam).2 (.step h)⟩

/-- What a request does next, and what it answers, is the same on the team's rows alone. -/
theorem Scoping.reads (hs : Scoping s) (h : Admin.step lower sha256 s a = some t)
    (hact : Act.proc a = some i) (hscoped : Scoped s i T)
    (hdrawn : ∀ now entropy, a = .run i now entropy → drawn_before sha256 entropy s.db = false) :
    (Admin.step lower sha256 { s with db := only T s.db } a).map Sys.procs = some t.procs := by
  obtain ⟨p, ctx, hp, hctx, hteam⟩ := hscoped
  obtain ⟨hslug, hown⟩ := hs.procs i p ctx T hp hctx hteam
  cases a with
  | request | command | bus => cases hact
  | run j now entropy =>
    have hj : j = i := Option.some.inj hact
    rw [hj] at h ⊢
    simp only [Admin.step, hp] at h ⊢
    cases hphase : p.phase with
    | asked req =>
      simp only [hphase, hctx] at h ⊢
      rw [(handle_only hteam hslug req).1, ← Option.some.inj h]
      rfl
    | reading q =>
      rw [hphase] at hown
      simp only [hphase] at h ⊢
      rw [answer_only hown, ← Option.some.inj h]
      rfl
    | working tx =>
      rw [hphase] at hown
      have hfree : Sys.free { s with db := only T s.db } i = s.free i := rfl
      have hsame : statement lower sha256 ⟨s.free i, s.next_id, entropy⟩ (only T s.db) tx =
          statement lower sha256 ⟨s.free i, s.next_id, entropy⟩ s.db tx :=
        statement_only hs.audit.ids.tokens hown (hdrawn now entropy (by rw [hj]))
      simp only [hphase, hfree] at h ⊢
      rw [hsame]
      split at h
      · rw [← Option.some.inj h]
        rfl
      · rw [← Option.some.inj h]
        rfl
      · cases h
    | ended r | printed r => simp only [hphase] at h; cases h
  | commit j =>
    have hj : j = i := Option.some.inj hact
    rw [hj] at h ⊢
    simp only [Admin.step, hp] at h ⊢
    split at h
    · split at h
      · rename_i tx hphase hstage
        rw [if_pos hstage, ← Option.some.inj h]
        rfl
      · cases h
    · cases h
  | fail j =>
    have hj : j = i := Option.some.inj hact
    rw [hj] at h ⊢
    simp only [Admin.step, hp] at h ⊢
    split at h
    · cases h
    · cases h
    · rw [← Option.some.inj h]
      rfl

/-- The tables change by what a request commits. -/
theorem Did.commits (h : Did lower sha256 s a t) (hact : Act.proc a = some i) :
    t.db = s.db ∨ ∃ tx, s.tx i = some tx ∧ tx.stage = .commit ∧ t.db = tx.committed s.db := by
  cases h with
  | admitted | turned_away | commanded | elsewhere => exact nomatch hact
  | handled | read | ran | aborted => exact .inl rfl
  | committed p tx hp hphase hstage =>
    rw [← Option.some.inj hact]
    exact .inr ⟨tx, tx_eq.mpr ⟨p, hp, hphase⟩, hstage, rfl⟩

theorem Scoping.within (hs : Scoping s) (hscoped : Scoped s i T) (htx : s.tx i = some tx) :
    Within T s.db tx := by
  obtain ⟨p, ctx, hp, hctx, hteam⟩ := hscoped
  obtain ⟨q, hq, hphase⟩ := tx_eq.mp htx
  rw [Option.some.inj (hq.symm.trans hp)] at hphase
  have hown := (hs.procs i p ctx T hp hctx hteam).2
  rw [hphase] at hown
  exact hown

theorem Scoping.writes (hs : Scoping s) (h : Did lower sha256 s a t) (hact : Act.proc a = some i)
    (hscoped : Scoped s i T) : Inside T s.db t.db := by
  rcases Did.commits h hact with hdb | ⟨tx, htx, hstage, hdb⟩
  · rw [hdb]
    exact .refl T s.db
  · rw [hdb]
    exact inside_committed hs.audit.ids.agents hs.audit.ids.tokens hs.audit.ids.admins (hs.within hscoped htx)
      (hs.audit.ready i tx htx) hstage

/-- A new credential is what a transaction has inserted. -/
theorem Scoping.mints (hs : Scoping s) (h : Did lower sha256 s a t)
    (hnew : ∃ c ∈ t.db.admin_tokens, ∀ c' ∈ s.db.admin_tokens, c'.id ≠ c.id) :
    ∃ i, a = .commit i ∧ ∀ T, ¬Scoped s i T := by
  obtain ⟨c, hc, hnew⟩ := hnew
  have hupdate : ∀ (p : AdminToken → Bool) (f : AdminToken → AdminToken), (∀ c, (f c).id = c.id) →
      t.db.admin_tokens ≠ update p f s.db.admin_tokens := by
    intro p f hf heq
    rw [heq] at hc
    obtain ⟨c', hc', hid⟩ := of_map_eq (map_key_update hf) c hc
    exact hnew c' hc' hid
  have hsame : t.db.admin_tokens ≠ s.db.admin_tokens := fun heq => hnew c (heq ▸ hc) rfl
  rcases h.tables with ⟨i, tx, hcommit, htx, hstage, hdb, -⟩ | hdb | ⟨now, id, hdb⟩ | ⟨windows, slots, used, hdb⟩
  · refine ⟨i, hcommit, fun T hscoped => ?_⟩
    have hwithin := hs.within hscoped htx
    rcases committed_tables (hs.audit.ready i tx htx) hstage with ⟨-, hadmins⟩ | ⟨w, hw, -, -, hadmins⟩
    · exact hsame (hdb ▸ hadmins)
    · have hown := hwithin.writes w hw
      rw [← hdb] at hadmins
      cases w with
      | insert_admin => exact hown
      | revoke_admin now id =>
        exact hupdate (fun c => c.id == id && c.revoked_at.isNone) (fun c => { c with revoked_at := some now })
          (fun _ => rfl) hadmins
      | _ => exact hsame hadmins
  · exact absurd (by rw [hdb]) hsame
  · exact absurd (by rw [hdb]; rfl) (hupdate (fun c => c.id == id) (fun c => { c with last_used_at := some now })
      fun _ => rfl)
  · exact absurd (by rw [hdb]; rfl) hsame

/-- **Administrative scope.** A request of a team's credential is let in by the team's rows, does
and answers what it would on them alone, and writes to them only. It makes no credential. What
is revoked stays revoked: the token has its hash for itself, and nobody is let in on the
credential. And no agent has more than `MAX_ACTIVE_TOKENS_PER_AGENT` tokens. -/
theorem scope_is_kept (hrun : Run (Rel (Admin.step lower sha256)) .start tr t) : ScopeLaw lower sha256 tr t := by
  have hstep : ∀ s a t, Scoping s → True → Rel (Admin.step lower sha256) s a t → Scoping t :=
    fun s a t hs _ hr => hs.step (step_did hr)
  have hpre := hrun.invariant_pre (C := fun _ _ => True) .start hstep fun _ _ => trivial
  have hend : Scoping t := hrun.invariant' .start fun s a t hs hr => hs.step (step_did hr)
  have hgrows : ∀ e ∈ tr, Grows e.pre.db t.db := by
    intro e he
    obtain ⟨tr₁, tr₂, htr⟩ := List.append_of_mem he
    rw [htr] at hrun
    obtain ⟨-, hrel, hrest⟩ := hrun.split
    exact (Grows.step (step_did hrel)).trans (Grows.run hrest)
  refine ⟨fun e he header throttled ctx T hctx hteam => ?_, fun e he i T hact hscoped hdrawn => ?_,
    fun e he i T hact hscoped => ?_, fun e he hnew => ?_, fun e he r hr hrevoked r' hr' hhash => ?_,
    fun e he c hc hrevoked header throttled ctx hctx hid => ?_, hend.capped.few⟩
  · exact require_only (hpre e he).unique.admins hctx hteam
  · exact (hpre e he).reads (hrun.rel e he) hact hscoped hdrawn
  · exact (hpre e he).writes (step_did (hrun.rel e he)) hact hscoped
  · exact (hpre e he).mints (step_did (hrun.rel e he)) hnew
  · obtain ⟨r'', hr'', -, -, hhash'', hstays⟩ := (hgrows e he).tokens r hr
    rw [hend.unique.tokens.eq hr' hr'' (hhash.trans hhash''.symm), hstays hrevoked]
    exact hrevoked
  · obtain ⟨c', hc', hnone, heq⟩ := require_row hctx
    obtain ⟨c'', hc'', hid'', -, -, hstays⟩ := (hgrows e he).admins c hc
    rw [heq] at hid
    rw [hend.audit.ids.admins.eq hc' hc'' (hid.trans hid''.symm), hstays hrevoked] at hnone
    rw [hnone] at hrevoked
    exact absurd hrevoked (by decide)

end Runs

/-! ## Closed runs -/

/-- The operator makes a credential for the team, and its request makes an agent and a token. -/
def team_admin : List Act :=
  founded ++ [.command 40 (.grant_admin (some 3) none), .run 3 40 "", .run 3 40 "t0", .run 3 40 "", .commit 3] ++
    [.request 50 (some "acsa_t0") none true (.issue_token "crew" "ada" none), .run 4 50 "", .run 4 50 "",
      .run 4 50 "", .run 4 50 "k0", .run 4 50 "", .commit 4,
      .request 60 (some "acsa_t0") none true .list_credentials, .run 5 60 "", .run 5 60 ""]

theorem team_admin_run : (exec go .start team_admin).isSome = true := by decide

/-- The run, and where it ends. -/
def team_admin_end : List (Trans Sys Act) × Sys := (exec go .start team_admin).get team_admin_run

/-- The credentials of a list. -/
def listed : Phase → List Uuid
  | .ended (.ok (.credentials rows)) => rows.map AdminRow.id
  | _ => []

/-- The agent has one token more, and of the two credentials the team's shows the team's. -/
theorem scope_is_kept_team_admin :
    (team_admin_end.2.db.api_tokens.map ApiToken.agent_id = [6] ∧
      team_admin_end.2.procs[5]?.map (fun p => listed p.phase) = some [9] ∧
      team_admin_end.2.db.admin_tokens.map AdminToken.id = [1, 9]) ∧
    ScopeLaw Auth.to_lowercase id team_admin_end.1 team_admin_end.2 :=
  ⟨by decide, scope_is_kept (exec_get team_admin_run)⟩

/-- A request makes an agent, and before it commits its credential is revoked. -/
def outlived : List Act :=
  founded ++ served 3 40 (.create_agent "crew" "bob" none) ++ [.run 3 40 ""] ++
    [.command 50 (.revoke_admin none 1), .run 4 50 "", .run 4 50 "", .commit 4, .commit 3]

theorem outlived_run : (exec go .start outlived).isSome = true := by decide

/-- The run, and where it ends. -/
def outlived_end : List (Trans Sys Act) × Sys := (exec go .start outlived).get outlived_run

theorem outlived_length : outlived_end.1.length = 28 := exec_length outlived_run

/-- Its last commit. -/
def late_commit : Trans Sys Act := outlived_end.1.get ⟨27, by rw [outlived_length]; omega⟩

/-- The request's credential is revoked, and its agent is committed. -/
theorem request_outlives_credential :
    late_commit ∈ outlived_end.1 ∧ Act.proc late_commit.act = some 3 ∧
      (late_commit.pre.procs[3]?.bind Proc.ctx).map AdminCtx.id = some 1 ∧
      (late_commit.pre.db.admin_tokens.any fun c => c.id == 1 && c.revoked_at.isSome) = true ∧
      late_commit.pre.db.agents ≠ late_commit.post.db.agents :=
  ⟨List.get_mem _ _, by decide, by decide, by decide, by decide⟩

end CrewSync.AdminScope
