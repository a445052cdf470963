/-
What becomes of tokens and credentials.

No row of `agents`, `api_tokens` or `admin_tokens` ever goes, and none loses what it is: its id,
whose it is, its hash, and that it is revoked (`Grows`). A hash is in one row only, so a secret
whose row is revoked opens nothing any more. An agent's tokens are counted under a lock that
whoever inserts another one needs too, so that they are no more than
`MAX_ACTIVE_TOKENS_PER_AGENT` when it commits.
-/
import CrewSync.AuditTrail

set_option autoImplicit false

namespace CrewSync.Credentials

open Rows Runs Admin AuditTrail
open Schema (AgentSession Uuid)
open Auth (hash_token)

/-! ## Rows stay -/

/-- The rows of `db` are in `db'`, as what they are. -/
structure Grows (db db' : Db) : Prop where
  teams : ∀ t ∈ db.teams, ∃ t' ∈ db'.teams, t'.id = t.id ∧ t'.slug = t.slug
  agents : ∀ a ∈ db.agents, ∃ a' ∈ db'.agents, a'.id = a.id ∧ a'.team_id = a.team_id
  tokens : ∀ t ∈ db.api_tokens, ∃ t' ∈ db'.api_tokens, t'.id = t.id ∧ t'.agent_id = t.agent_id ∧
    t'.token_hash = t.token_hash ∧ (t.revoked_at.isSome = true → t'.revoked_at = t.revoked_at)
  admins : ∀ c ∈ db.admin_tokens, ∃ c' ∈ db'.admin_tokens, c'.id = c.id ∧ c'.team_id = c.team_id ∧
    c'.token_hash = c.token_hash ∧ (c.revoked_at.isSome = true → c'.revoked_at = c.revoked_at)

section Grows

variable {db db' db'' : Db} {ρ : Type} {R : ρ → ρ → Prop} {p : ρ → Bool} {f : ρ → ρ} {l : List ρ}

/-- Rows stay, as they are, when one is added. -/
theorem stays_insert (hrefl : ∀ r, R r r) (x : ρ) : ∀ r ∈ l, ∃ r' ∈ insert_into x l, R r' r :=
  fun r hr => ⟨r, mem_insert_into.mpr (.inl hr), hrefl r⟩

/-- Rows stay, as the rewriting leaves them, when some are rewritten. -/
theorem stays_update (hrefl : ∀ r, R r r) (hf : ∀ r, p r = true → R (f r) r) :
    ∀ r ∈ l, ∃ r' ∈ update p f l, R r' r := by
  intro r hr
  refine ⟨_, mem_update_of_mem hr, ?_⟩
  by_cases hp : p r = true
  · rw [if_pos hp]
    exact hf r hp
  · rw [if_neg hp]
    exact hrefl r

/-- Nothing happened. -/
theorem Grows.refl (db : Db) : Grows db db where
  teams := fun t ht => ⟨t, ht, rfl, rfl⟩
  agents := fun a ha => ⟨a, ha, rfl, rfl⟩
  tokens := fun t ht => ⟨t, ht, rfl, rfl, rfl, fun _ => rfl⟩
  admins := fun c hc => ⟨c, hc, rfl, rfl, rfl, fun _ => rfl⟩

/-- One commit after another. -/
theorem Grows.trans (h : Grows db db') (h' : Grows db' db'') : Grows db db'' := by
  constructor
  · intro t ht
    obtain ⟨t', ht', hid, hslug⟩ := h.teams t ht
    obtain ⟨t'', ht'', hid', hslug'⟩ := h'.teams t' ht'
    exact ⟨t'', ht'', hid'.trans hid, hslug'.trans hslug⟩
  · intro a ha
    obtain ⟨a', ha', hid, hteam⟩ := h.agents a ha
    obtain ⟨a'', ha'', hid', hteam'⟩ := h'.agents a' ha'
    exact ⟨a'', ha'', hid'.trans hid, hteam'.trans hteam⟩
  · intro t ht
    obtain ⟨t', ht', hid, hagent, hhash, hrevoked⟩ := h.tokens t ht
    obtain ⟨t'', ht'', hid', hagent', hhash', hrevoked'⟩ := h'.tokens t' ht'
    refine ⟨t'', ht'', hid'.trans hid, hagent'.trans hagent, hhash'.trans hhash, fun hr => ?_⟩
    rw [hrevoked' (hrevoked hr ▸ hr), hrevoked hr]
  · intro c hc
    obtain ⟨c', hc', hid, hteam, hhash, hrevoked⟩ := h.admins c hc
    obtain ⟨c'', hc'', hid', hteam', hhash', hrevoked'⟩ := h'.admins c' hc'
    refine ⟨c'', hc'', hid'.trans hid, hteam'.trans hteam, hhash'.trans hhash, fun hr => ?_⟩
    rw [hrevoked' (hrevoked hr ▸ hr), hrevoked hr]

/-- Every write leaves the rows that are there. -/
theorem Grows.apply (db : Db) (w : Write) : Grows db (w.apply db) := by
  have hsame := Grows.refl db
  cases w with
  | insert_team id slug name =>
    exact ⟨stays_insert (fun _ => ⟨rfl, rfl⟩) _, hsame.agents, hsame.tokens, hsame.admins⟩
  | insert_agent id team_id name display_name =>
    exact ⟨hsame.teams, stays_insert (fun _ => ⟨rfl, rfl⟩) _, hsame.tokens, hsame.admins⟩
  | insert_token t =>
    exact ⟨hsame.teams, hsame.agents, stays_insert (fun _ => ⟨rfl, rfl, rfl, fun _ => rfl⟩) _, hsame.admins⟩
  | insert_admin c =>
    exact ⟨hsame.teams, hsame.agents, hsame.tokens, stays_insert (fun _ => ⟨rfl, rfl, rfl, fun _ => rfl⟩) _⟩
  | set_conversations | set_default_backend | set_quota =>
    exact ⟨stays_update (fun _ => ⟨rfl, rfl⟩) fun _ _ => ⟨rfl, rfl⟩, hsame.agents, hsame.tokens, hsame.admins⟩
  | enable_agent | disable_agent =>
    exact ⟨hsame.teams, stays_update (fun _ => ⟨rfl, rfl⟩) fun _ _ => ⟨rfl, rfl⟩, hsame.tokens, hsame.admins⟩
  | revoke_token now id =>
    refine ⟨hsame.teams, hsame.agents, stays_update (fun _ => ⟨rfl, rfl, rfl, fun _ => rfl⟩) fun t hp => ?_,
      hsame.admins⟩
    -- the statement finds only rows that are not revoked
    refine ⟨rfl, rfl, rfl, fun hr => ?_⟩
    rw [Bool.and_eq_true, Option.isNone_iff_eq_none] at hp
    rw [hp.2] at hr
    cases hr
  | revoke_admin now id =>
    refine ⟨hsame.teams, hsame.agents, hsame.tokens,
      stays_update (fun _ => ⟨rfl, rfl, rfl, fun _ => rfl⟩) fun c hp => ⟨rfl, rfl, rfl, fun hr => ?_⟩⟩
    rw [Bool.and_eq_true, Option.isNone_iff_eq_none] at hp
    rw [hp.2] at hr
    cases hr
  | revoke_sessions | audit => exact ⟨hsame.teams, hsame.agents, hsame.tokens, hsame.admins⟩

/-- No list of writes removes a row, brings a revoked one back, or moves one to another owner. -/
theorem Grows.committed (ws : List Write) (db : Db) : Grows db (ws.foldl Write.apply db) := by
  induction ws generalizing db with
  | nil => exact .refl db
  | cons w ws ih => exact (Grows.apply db w).trans (ih (w.apply db))

/-- Nor does the touch of a credential. -/
theorem Grows.touch (now : ℕ) (id : Uuid) (db : Db) : Grows db (touch now id db) :=
  { Grows.refl db with
    admins := stays_update (fun _ => ⟨rfl, rfl, rfl, fun _ => rfl⟩) fun _ _ => ⟨rfl, rfl, rfl, fun _ => rfl⟩ }

/-- Nor does what others write. -/
theorem Grows.elsewhere (windows : List AgentSession) (slots : List Slot) (used : Uuid → Option ℕ) (db : Db) :
    Grows db (db.elsewhere windows slots used) :=
  { Grows.refl db with
    tokens := stays_update (fun _ => ⟨rfl, rfl, rfl, fun _ => rfl⟩) fun _ _ => ⟨rfl, rfl, rfl, fun _ => rfl⟩ }

end Grows

section Runs

variable {lower sha256 : String → String} {s t : Sys} {a : Act} {tr : List (Trans Sys Act)}

/-- Nor does a step. -/
theorem Grows.step (h : Did lower sha256 s a t) : Grows s.db t.db := by
  rcases h.tables with ⟨i, tx, -, -, -, hdb, -⟩ | hdb | ⟨now, id, hdb⟩ | ⟨windows, slots, used, hdb⟩
  · exact hdb ▸ .committed tx.writes s.db
  · exact hdb ▸ .refl s.db
  · exact hdb ▸ .touch now id s.db
  · exact hdb ▸ .elsewhere windows slots used s.db

/-- Nor does a run. -/
theorem Grows.run (hrun : Run (Rel (Admin.step lower sha256)) s tr t) : Grows s.db t.db :=
  hrun.invariant' (I := fun u => Grows s.db u.db) (.refl s.db) fun _ _ _ h hr => h.trans (.step (step_did hr))

/-! ## Hashes -/

/-- The main write of a transaction: what it changes of the tokens and of the credentials. -/
theorem committed_tables {db : Db} {tx : Tx} (h : Ready db tx) (hstage : tx.stage = .commit) :
    ((tx.committed db).api_tokens = db.api_tokens ∧ (tx.committed db).admin_tokens = db.admin_tokens) ∨
    ∃ w ∈ tx.writes, real db w = true ∧ (tx.committed db).api_tokens = (w.apply db).api_tokens ∧
      (tx.committed db).admin_tokens = (w.apply db).admin_tokens := by
  unfold Ready at h
  rw [hstage] at h
  rcases h with hwrites | ⟨x, hwrites, hx⟩ | ⟨w, rest, e, hwrites, ⟨-, hreal⟩, -, hrest⟩
  · left
    rw [Tx.committed, hwrites]
    exact ⟨rfl, rfl⟩
  · left
    rw [Tx.committed, hwrites]
    cases x with
    | set_quota | enable_agent => exact ⟨rfl, rfl⟩
    | _ => exact hx.elim
  · right
    refine ⟨w, hwrites ▸ List.mem_cons_self, hreal, ?_⟩
    rw [Tx.committed, hwrites, List.foldl_cons, List.foldl_append]
    have hquiet : ∀ (ws : List Write) (db : Db), (∀ x ∈ ws, quiet x = true) →
        (ws.foldl Write.apply db).api_tokens = db.api_tokens ∧
          (ws.foldl Write.apply db).admin_tokens = db.admin_tokens := by
      intro ws
      induction ws with
      | nil => exact fun db _ => ⟨rfl, rfl⟩
      | cons x ws ih =>
        intro db hws
        have hx := hws x List.mem_cons_self
        cases x with
        | revoke_sessions => exact ih _ fun y hy => hws y (List.mem_cons_of_mem _ hy)
        | _ => exact absurd hx (by simp [quiet])
    exact hquiet rest (w.apply db) hrest

/-- `UNIQUE (token_hash)`, of both tables. -/
structure Unique (db : Db) : Prop where
  tokens : Keyed ApiToken.token_hash db.api_tokens
  admins : Keyed AdminToken.token_hash db.admin_tokens

/-- A real write keeps the keys unique. -/
theorem Unique.apply {db : Db} {w : Write} (h : Unique db) (hreal : real db w = true) : Unique (w.apply db) := by
  cases w with
  | insert_token t =>
    refine ⟨h.tokens.insert_into fun r hr heq => ?_, h.admins⟩
    have hnone : (db.api_tokens.any fun r => r.token_hash == t.token_hash) = false := by simpa [real] using hreal
    exact List.any_eq_false.mp hnone r hr (by simpa using heq)
  | insert_admin c =>
    refine ⟨h.tokens, h.admins.insert_into fun r hr heq => ?_⟩
    have hnone : (db.admin_tokens.any fun r => r.token_hash == c.token_hash) = false := by simpa [real] using hreal
    exact List.any_eq_false.mp hnone r hr (by simpa using heq)
  | revoke_token => exact ⟨h.tokens.update fun _ => rfl, h.admins⟩
  | revoke_admin => exact ⟨h.tokens, h.admins.update fun _ => rfl⟩
  | _ => exact ⟨h.tokens, h.admins⟩

/-- They are unique after every step, for what a transaction has written is real. -/
theorem Unique.step (h : Unique s.db) (hinv : AuditTrail.Inv s) (hdid : Did lower sha256 s a t) : Unique t.db := by
  rcases hdid.tables with ⟨i, tx, -, htx, hstage, hdb, -⟩ | hdb | ⟨now, id, hdb⟩ | ⟨windows, slots, used, hdb⟩
  · rw [hdb]
    rcases committed_tables (hinv.ready i tx htx) hstage with ⟨htokens, hadmins⟩ | ⟨w, -, hreal, htokens, hadmins⟩
    · exact ⟨htokens ▸ h.tokens, hadmins ▸ h.admins⟩
    · have hw := h.apply hreal
      exact ⟨htokens ▸ hw.tokens, hadmins ▸ hw.admins⟩
  · rw [hdb]
    exact h
  · rw [hdb]
    exact ⟨h.tokens, h.admins.update fun _ => rfl⟩
  · rw [hdb]
    exact ⟨h.tokens.update fun _ => rfl, h.admins⟩

/-! ## How many tokens an agent has -/

/-- Who counts an agent's tokens, or is to commit another one, has the agent. -/
structure Room (db : Db) (tx : Tx) : Prop where
  counts : ∀ a team_slug agent label, tx.stage = .count_tokens a team_slug agent label → .agent a.id ∈ tx.locks
  inserts : ∀ a team_slug agent label, tx.stage = .insert_token a team_slug agent label →
    .agent a.id ∈ tx.locks ∧ active_tokens a.id db.api_tokens < MAX_ACTIVE_TOKENS_PER_AGENT
  inserted : ∀ r, .insert_token r ∈ tx.writes →
    .agent r.agent_id ∈ tx.locks ∧ active_tokens r.agent_id db.api_tokens < MAX_ACTIVE_TOKENS_PER_AGENT

/-- The stages between the count and the insert. -/
def counting : Stage → Bool
  | .count_tokens _ _ _ _ | .insert_token _ _ _ _ => true
  | _ => false

/-- The write is of a new token. -/
def inserts_token : Write → Bool
  | .insert_token _ => true
  | _ => false

section Room

variable {w : World} {db db' : Db} {tx tx' : Tx}

/-- More locks do no harm. -/
theorem Room.lock (h : Room db tx) (free : RowKey → Bool) (k : RowKey) : Leaves (Room db) (tx.lock free k) := by
  refine leaves_lock.mpr fun _ => ⟨fun a _ _ _ hstage => ?_, fun a _ _ _ hstage => ?_, fun r hr => ?_⟩
  · exact List.mem_append_left _ (h.counts a _ _ _ hstage)
  · exact ⟨List.mem_append_left _ (h.inserts a _ _ _ hstage).1, (h.inserts a _ _ _ hstage).2⟩
  · exact ⟨List.mem_append_left _ (h.inserted r hr).1, (h.inserted r hr).2⟩

/-- It goes on to another stage, with no token more. -/
theorem Room.same (h : Room db tx) (hlocks : tx'.locks = tx.locks) (hstage : counting tx'.stage = false)
    (hwrites : ∀ r, .insert_token r ∈ tx'.writes → .insert_token r ∈ tx.writes) : Room db tx' where
  counts := fun a _ _ _ heq => absurd hstage (by rw [heq, counting]; decide)
  inserts := fun a _ _ _ heq => absurd hstage (by rw [heq, counting]; decide)
  inserted := fun r hr => hlocks ▸ h.inserted r (hwrites r hr)

/-- A write that mints no token needs no room. -/
theorem Room.add (h : Room db tx) (hlocks : tx'.locks = tx.locks) (hstage : counting tx'.stage = false) {x : Write}
    (hwrites : tx'.writes = tx.writes ++ [x]) (hx : inserts_token x = false) : Room db tx' := by
  refine h.same hlocks hstage fun r hr => ?_
  rw [hwrites] at hr
  rcases List.mem_append.mp hr with hr | hr
  · exact hr
  · rw [← List.mem_singleton.mp hr, inserts_token] at hx
    cases hx

/-- A transaction that begins has minted nothing. -/
theorem first_room {op : Op} (h : Room db tx) : Leaves (Room db) (first lower w db tx op) := by
  cases op with
  | issue_token team_id agent label =>
    simp only [first]
    repeat' split
    · trivial
    · trivial
    · refine leaves_lock.mpr fun _ => ⟨fun a' _ _ _ hstage => ?_, fun a' _ _ _ hstage => ?_, fun r hr => ?_⟩
      · rw [← (Stage.count_tokens.inj hstage).1]
        exact List.mem_append_right _ (List.mem_singleton.mpr rfl)
      · exact Stage.noConfusion hstage
      · exact ⟨List.mem_append_left _ (h.inserted r hr).1, (h.inserted r hr).2⟩
    · trivial
    · trivial
  | _ =>
    simp only [first]
    repeat' split
    all_goals first
      | exact trivial
      | exact Room.same h rfl rfl fun _ hr => hr
      | (apply Room.lock; exact Room.same h rfl rfl fun _ hr => hr)
      | (apply Room.lock; exact Room.add h rfl rfl rfl rfl)

/-- Each statement keeps the room: the token is written after the count was read under the lock. -/
theorem statement_room (h : Room db tx) (hready : Ready db tx) :
    Leaves (Room db) (statement lower sha256 w db tx) := by
  cases hstage : tx.stage with
  | begun op =>
    simp only [statement, hstage]
    exact first_room h
  | count_tokens a team_slug agent label =>
    simp only [statement, hstage]
    split
    · trivial
    · rename_i hlt
      refine ⟨fun a' _ _ _ heq => Stage.noConfusion heq, fun a' _ _ _ heq => ?_, h.inserted⟩
      -- it goes on only where the count leaves room
      rw [← (Stage.insert_token.inj heq).1]
      exact ⟨h.counts a _ _ _ hstage, Nat.lt_of_not_le hlt⟩
  | insert_token a team_slug agent label =>
    have hwrites : tx.writes = [] := (ready_reads (hstage ▸ rfl)).mp hready
    simp only [statement, hstage]
    split
    · trivial
    · apply Room.lock
      refine ⟨fun a' _ _ _ heq => Stage.noConfusion heq, fun a' _ _ _ heq => Stage.noConfusion heq,
        fun r hr => ?_⟩
      -- the row is the transaction's only write
      have hr : Write.insert_token r ∈ tx.writes ++ [_] := hr
      rw [hwrites, List.nil_append, List.mem_singleton] at hr
      rw [Write.insert_token.inj hr]
      exact h.inserts a _ _ _ hstage
  | _ =>
    simp only [statement, hstage]
    repeat' split
    all_goals first
      | exact trivial
      | exact Room.same h rfl rfl fun _ hr => hr
      | exact Room.add h rfl rfl rfl rfl
      | (apply Room.lock; exact Room.add h rfl rfl rfl rfl)

/-! ### Counting -/

/-- A row is one more of its owner's, and of nobody else's. -/
theorem active_insert (a : Uuid) (r : ApiToken) (l : List ApiToken) :
    active_tokens a (insert_into r l) ≤ active_tokens a l + 1 ∧
      (r.agent_id ≠ a → active_tokens a (insert_into r l) = active_tokens a l) := by
  unfold active_tokens insert_into
  rw [List.countP_append, List.countP_singleton]
  constructor
  · split <;> omega
  · intro hne
    rw [beq_eq_false_iff_ne.mpr hne, Bool.false_and]
    rfl

/-- An `UPDATE` that revokes, or does not, leaves no more tokens. -/
theorem active_update {p : ApiToken → Bool} {f : ApiToken → ApiToken} (a : Uuid) (l : List ApiToken)
    (hf : ∀ t, (f t).agent_id = t.agent_id ∧ ((f t).revoked_at = none → t.revoked_at = none)) :
    active_tokens a (update p f l) ≤ active_tokens a l := by
  unfold active_tokens update
  rw [List.countP_map]
  refine List.countP_mono_left fun t _ ht => ?_
  rw [Function.comp] at ht
  by_cases hp : p t = true
  · rw [if_pos hp, Bool.and_eq_true, beq_iff_eq, Option.isNone_iff_eq_none] at ht
    rw [Bool.and_eq_true, beq_iff_eq, Option.isNone_iff_eq_none]
    exact ⟨(hf t).1 ▸ ht.1, (hf t).2 ht.2⟩
  · rw [if_neg hp] at ht
    exact ht

/-- Only a minted token adds to what an agent holds. -/
theorem active_apply (a : Uuid) (db : Db) (x : Write) :
    active_tokens a (x.apply db).api_tokens ≤ active_tokens a db.api_tokens ∨
      ∃ r, x = .insert_token r ∧ r.agent_id = a ∧
        active_tokens a (x.apply db).api_tokens ≤ active_tokens a db.api_tokens + 1 := by
  cases x with
  | insert_token r =>
    by_cases hr : r.agent_id = a
    · exact .inr ⟨r, rfl, hr, (active_insert a r db.api_tokens).1⟩
    · exact .inl (Nat.le_of_eq ((active_insert a r db.api_tokens).2 hr))
  | revoke_token now id => exact .inl (active_update a db.api_tokens fun _ => ⟨rfl, fun h => nomatch h⟩)
  | _ => exact .inl (Nat.le_refl _)

/-- Fewer tokens leave the room there is. -/
theorem Room.fewer (h : Room db tx)
    (hle : ∀ a, .agent a ∈ tx.locks → active_tokens a db'.api_tokens ≤ active_tokens a db.api_tokens) :
    Room db' tx where
  counts := h.counts
  inserts := fun a _ _ _ hstage =>
    ⟨(h.inserts a _ _ _ hstage).1, (hle _ (h.inserts a _ _ _ hstage).1).trans_lt (h.inserts a _ _ _ hstage).2⟩
  inserted := fun r hr => ⟨(h.inserted r hr).1, (hle _ (h.inserted r hr).1).trans_lt (h.inserted r hr).2⟩

end Room

/-- Everybody who counts has room, and no agent has too many. -/
structure Capped (s : Sys) : Prop where
  room : ∀ i tx, s.tx i = some tx → Room s.db tx
  few : ∀ a, active_tokens a s.db.api_tokens ≤ MAX_ACTIVE_TOKENS_PER_AGENT

/-- At the start nobody holds a token. -/
theorem Capped.start : Capped .start where
  room := fun i tx h => absurd h (by simp [Sys.tx, Sys.start])
  few := fun a => Nat.zero_le _

/-- **The cap holds after every step.** Two who mint for one agent wait for one lock. -/
theorem Capped.step (h : Capped s) (hinv : AuditTrail.Inv s) (hdid : Did lower sha256 s a t) : Capped t := by
  have hroom : ∀ j tx, t.tx j = some tx → Room s.db tx := by
    intro j tx htx
    obtain ⟨p, hp, hphase⟩ := tx_eq.mp htx
    cases hdid.from hp hphase with
    | was hp => exact h.room j tx (tx_eq.mpr ⟨p, hp, hphase⟩)
    | commanded now op _ heq | handled _ _ _ now op _ _ _ _ _ heq =>
      rw [heq]
      exact ⟨fun _ _ _ _ h => Stage.noConfusion h, fun _ _ _ _ h => Stage.noConfusion h,
        fun _ h => absurd h List.not_mem_nil⟩
    | ran q tx₀ now entropy _ hq hworking _ hran _ =>
      have htx₀ : s.tx j = some tx₀ := tx_eq.mpr ⟨q, hq, hworking⟩
      exact (statement_room (h.room j tx₀ htx₀) (hinv.ready j tx₀ htx₀)).of hran
  rcases hdid.tables with ⟨i, tx, hcommit, htx, hstage, hdb, hover⟩ | hdb | ⟨now, id, hdb⟩ | ⟨windows, slots, used, hdb⟩
  · -- the tokens of an agent grow by one at most, and by none for whoever has it locked
    have hgrow : ∀ a, active_tokens a t.db.api_tokens ≤ active_tokens a s.db.api_tokens ∨
        (.agent a ∈ tx.locks ∧ active_tokens a t.db.api_tokens ≤ MAX_ACTIVE_TOKENS_PER_AGENT) := by
      intro a
      rw [hdb]
      rcases committed_tables (hinv.ready i tx htx) hstage with ⟨htokens, -⟩ | ⟨w, hw, -, htokens, -⟩
      · exact .inl (Nat.le_of_eq (congrArg _ htokens))
      · rw [htokens]
        rcases active_apply a s.db w with hle | ⟨r, rfl, hr, hle⟩
        · exact .inl hle
        · obtain ⟨hk, hlt⟩ := (h.room i tx htx).inserted r hw
          rw [hr] at hk hlt
          exact .inr ⟨hk, hle.trans hlt⟩
    refine ⟨fun j tx' htx' => (hroom j tx' htx').fewer fun a hk => ?_, fun a => ?_⟩
    · rcases hgrow a with hle | ⟨hk', -⟩
      · exact hle
      · exfalso
        have hne : i ≠ j := by
          rintro rfl
          rw [hover] at htx'
          cases htx'
        have hold : .agent a ∈ s.locks i := mem_locks.mpr ⟨tx, htx, hk'⟩
        rcases hdid.locks (mem_locks.mpr ⟨tx', htx', hk⟩) with hin | ⟨-, now, entropy, hact⟩
        · exact hinv.apart i j _ hne hold hin
        · exact Act.noConfusion (hcommit.symm.trans hact)
    · rcases hgrow a with hle | ⟨-, hle⟩
      · exact hle.trans (h.few a)
      · exact hle
  · exact ⟨fun j tx htx => (hroom j tx htx).fewer fun a _ => by rw [hdb], fun a => hdb ▸ h.few a⟩
  · exact ⟨fun j tx htx => (hroom j tx htx).fewer fun a _ => by rw [hdb]; exact Nat.le_refl _, fun a => hdb ▸ h.few a⟩
  · have hle : ∀ a, active_tokens a t.db.api_tokens ≤ active_tokens a s.db.api_tokens := by
      intro a
      rw [hdb]
      exact active_update a s.db.api_tokens fun _ => ⟨rfl, id⟩
    exact ⟨fun j tx htx => (hroom j tx htx).fewer fun a _ => hle a, fun a => (hle a).trans (h.few a)⟩

end Runs

end CrewSync.Credentials
