/-
What `admin_audit` says of the changes that were made.

A transaction of `store/admin.rs` changes one thing and writes one row about it, and the row
only where its statement has found something to change. What makes that exact is the lock on
what it changes: nobody else commits a change to it meanwhile, so that the change is still one
when the transaction commits (`Write.real`, `real_apply`). A transaction that has found nothing
to change writes no row, and changes nothing that is recorded here.

Two changes have no row. A new display name of an agent that is enabled is not thought of as
one. And `team_quota` writes the quota by itself.
-/
import CrewSync.Admin

set_option autoImplicit false

namespace CrewSync.AuditTrail

open Rows Runs Admin
open Schema (Uuid Backend)

/-! ## The law -/

/-- What is recorded of the tables: teams with their capability and route, agents but for how
they are displayed, tokens and credentials but for when they were used. -/
def settings (db : Db) :=
  (db.teams.map fun t => (t.id, t.slug, t.name, t.conversations_enabled, t.default_backend),
    db.agents.map fun a => (a.id, a.team_id, a.name, a.disabled_at),
    db.api_tokens.map fun t =>
      (t.id, t.agent_id, t.token_hash, t.shown, t.label, t.issued_by_admin, t.created_at, t.revoked_at),
    db.admin_tokens.map fun c =>
      (c.id, c.team_id, c.token_hash, c.shown, c.label, c.issued_by, c.created_at, c.revoked_at))

/-- The action a write is recorded as. -/
def action : Write → Option Action
  | .insert_team _ _ _ => some .team_create
  | .set_conversations _ _ => some .team_capability
  | .set_default_backend _ _ => some .team_backend
  | .insert_agent _ _ _ _ => some .agent_create
  | .enable_agent _ _ => some .agent_enable
  | .disable_agent _ _ => some .agent_disable
  | .insert_token _ => some .token_issue
  | .revoke_token _ _ => some .token_revoke
  | .insert_admin _ => some .admin_grant
  | .revoke_admin _ _ => some .admin_revoke
  | .set_quota _ _ | .revoke_sessions _ _ _ | .audit _ => none

/-- The row it is about. -/
def subject : Write → Option Uuid
  | .insert_team id _ _ | .set_conversations id _ | .set_default_backend id _ | .set_quota id _
  | .insert_agent id _ _ _ | .enable_agent id _ | .disable_agent _ id | .revoke_token _ id
  | .revoke_admin _ id => some id
  | .insert_token t => some t.id
  | .insert_admin c => some c.id
  | .revoke_sessions _ _ _ | .audit _ => none

/-- The audit row is about the write, and says who has made it. -/
def Names (actor : Actor) (w : Write) (e : AuditEntry) : Prop :=
  (e.actor_source, e.actor_admin_id) = actor.columns ∧ action w = some e.action ∧ e.subject_id = subject w

/-- A change was made, and one row tells of it. -/
def Recorded (actor : Actor) (db db' : Db) : Prop :=
  ∃ w e, Names actor w e ∧ settings db' = settings (w.apply db) ∧ settings db' ≠ settings db ∧
    db'.admin_audit = db.admin_audit ++ [e]

/-- Nothing was changed that is recorded, and no row was written. -/
def Silent (db db' : Db) : Prop := settings db' = settings db ∧ db'.admin_audit = db.admin_audit

/-- What the audit trail promises of a run. -/
def AuditLaw (tr : List (Trans Sys Act)) : Prop :=
  ∀ e ∈ tr, Silent e.pre.db e.post.db ∨
    ∃ i p tx, e.act = .commit i ∧ e.pre.procs[i]? = some p ∧ p.phase = .working tx ∧
      Recorded p.actor e.pre.db e.post.db

/-! ## Writes that change something -/

/-- What a write locks. -/
def lock : Write → Option RowKey
  | .insert_team _ slug _ => some (.slug slug)
  | .set_conversations id _ | .set_default_backend id _ | .set_quota id _ => some (.team id)
  | .insert_agent _ team_id name _ => some (.agent_name team_id name)
  | .enable_agent id _ | .disable_agent _ id => some (.agent id)
  | .insert_token t => some (.token_hash t.token_hash)
  | .revoke_token _ id => some (.token id)
  | .insert_admin c => some (.admin_hash c.token_hash)
  | .revoke_admin _ id => some (.admin id)
  | .revoke_sessions _ _ _ | .audit _ => none

/-- The write changes what is recorded, and breaks no unique key. -/
def real (db : Db) : Write → Bool
  | .insert_team _ slug _ => !db.teams.any fun t => t.slug == slug
  | .insert_agent _ team_id name _ => !db.agents.any fun a => a.team_id == team_id && a.name == name
  | .insert_token t => !db.api_tokens.any fun r => r.token_hash == t.token_hash
  | .insert_admin c => !db.admin_tokens.any fun r => r.token_hash == c.token_hash
  | .set_conversations id enabled => db.teams.any fun t => t.id == id && t.conversations_enabled != enabled
  | .set_default_backend id backend => db.teams.any fun t => t.id == id && t.default_backend != backend
  | .enable_agent id _ => db.agents.any fun a => a.id == id && a.disabled_at.isSome
  | .disable_agent _ id => db.agents.any fun a => a.id == id && a.disabled_at.isNone
  | .revoke_token _ id => db.api_tokens.any fun t => t.id == id && t.revoked_at.isNone
  | .revoke_admin _ id => db.admin_tokens.any fun c => c.id == id && c.revoked_at.isNone
  | .set_quota _ _ | .revoke_sessions _ _ _ | .audit _ => false

section Writes

variable {db : Db} {w x : Write} {ρ β : Type} {p q : ρ → Bool} {f : ρ → ρ} {g : ρ → β} {t : List ρ} {r : ρ}

/-- An `UPDATE` that shows in no row does not show. -/
theorem map_update (h : ∀ r ∈ t, p r = true → g (f r) = g r) : (update p f t).map g = t.map g := by
  unfold update
  rw [List.map_map]
  refine List.map_congr_left fun r hr => ?_
  rw [Function.comp]
  by_cases hp : p r = true
  · rw [if_pos hp]
    exact h r hr hp
  · rw [if_neg hp]

/-- One that shows in a row shows. -/
theorem map_update_ne (hr : r ∈ t) (hp : p r = true) (h : g (f r) ≠ g r) : (update p f t).map g ≠ t.map g := by
  unfold update
  rw [List.map_map]
  intro heq
  apply h
  have hrow := List.map_inj_left.mp heq r hr
  rw [Function.comp, if_pos hp] at hrow
  exact hrow

theorem map_insert_ne (r : ρ) : (insert_into r t).map g ≠ t.map g := by
  intro heq
  have hlen := congrArg List.length heq
  rw [List.length_map, List.length_map, insert_into, List.length_append, List.length_singleton] at hlen
  omega

/-- What some row meets, some row meets after an `UPDATE` of others. -/
theorem any_update (h : t.any q = true) (hf : ∀ r, p r = true → q r = true → q (f r) = true) :
    (update p f t).any q = true := by
  obtain ⟨r, hr, hq⟩ := List.any_eq_true.mp h
  refine List.any_eq_true.mpr ⟨_, mem_update_of_mem hr, ?_⟩
  by_cases hp : p r = true
  · rw [if_pos hp]
    exact hf r hp hq
  · rw [if_neg hp]
    exact hq

theorem any_insert (h : t.any q = true) : (insert_into r t).any q = true := by
  rw [insert_into, List.any_append, h, Bool.true_or]

/-- An `UPDATE` that leaves what is asked alone. -/
theorem any_update_same (h : ∀ r, q (f r) = q r) : (update p f t).any q = t.any q := by
  unfold update
  rw [List.any_map]
  congr 1
  funext r
  rw [Function.comp]
  split
  · exact h r
  · rfl

theorem none_of {b : Bool} (h : ¬b = true) : (!b) = true := by
  rw [Bool.eq_false_iff.mpr h]
  rfl

theorem none_insert (h : (!t.any q) = true) (hr : q r = false) : (!(insert_into r t).any q) = true := by
  rw [insert_into, List.any_append, List.any_cons, List.any_nil, hr, Bool.or_false, Bool.or_false]
  exact h

theorem none_update (h : (!t.any q) = true) (hq : ∀ r, q (f r) = q r) : (!(update p f t).any q) = true := by
  rw [any_update_same hq]
  exact h

/-- A write that is a change shows in what is recorded. -/
theorem settings_real (h : real db w = true) : settings (w.apply db) ≠ settings db := by
  intro heq
  have hteams := congrArg Prod.fst heq
  have hagents := congrArg (fun x => x.2.1) heq
  have htokens := congrArg (fun x => x.2.2.1) heq
  have hadmins := congrArg (fun x => x.2.2.2) heq
  cases w with
  | insert_team id slug name => exact map_insert_ne _ hteams
  | insert_agent id team_id name display_name => exact map_insert_ne _ hagents
  | insert_token t => exact map_insert_ne _ htokens
  | insert_admin c => exact map_insert_ne _ hadmins
  | set_conversations id enabled | set_default_backend id backend =>
    obtain ⟨t, ht, hp⟩ := List.any_eq_true.mp h
    rw [Bool.and_eq_true, bne_iff_ne] at hp
    refine map_update_ne ht hp.1 (fun hrow => ?_) hteams
    exact hp.2 (by simpa using hrow.symm)
  | enable_agent id display_name =>
    obtain ⟨a, ha, hp⟩ := List.any_eq_true.mp h
    rw [Bool.and_eq_true] at hp
    refine map_update_ne ha hp.1 (fun hrow => ?_) hagents
    have hnone : a.disabled_at = none := by simpa using hrow.symm
    rw [hnone] at hp
    exact absurd hp.2 (by decide)
  | disable_agent now id =>
    obtain ⟨a, ha, hp⟩ := List.any_eq_true.mp h
    refine map_update_ne ha hp (fun hrow => ?_) hagents
    have hsome : a.disabled_at = some now := by simpa using hrow.symm
    rw [hsome] at hp
    exact absurd hp (by simp)
  | revoke_token now id =>
    obtain ⟨t, ht, hp⟩ := List.any_eq_true.mp h
    refine map_update_ne ht hp (fun hrow => ?_) htokens
    have hsome : t.revoked_at = some now := by simpa using hrow.symm
    rw [hsome] at hp
    exact absurd hp (by simp)
  | revoke_admin now id =>
    obtain ⟨c, hc, hp⟩ := List.any_eq_true.mp h
    refine map_update_ne hc hp (fun hrow => ?_) hadmins
    have hsome : c.revoked_at = some now := by simpa using hrow.symm
    rw [hsome] at hp
    exact absurd hp (by simp)
  | set_quota | revoke_sessions | audit => exact absurd h (by simp [real])

/-- Only the audit writes an audit row. -/
theorem audit_apply (hw : ∀ e, w ≠ .audit e) : (w.apply db).admin_audit = db.admin_audit := by
  cases w with
  | audit e => exact absurd rfl (hw e)
  | _ => rfl

/-- A write that changes something does so still when others have written what they locked. -/
theorem real_apply (h : real db w = true) (hlock : ∀ k, lock x = some k → lock w ≠ some k) :
    real (x.apply db) w = true := by
  cases w with
  | insert_team id slug name =>
    cases x with
    | insert_team id' slug' name' =>
      -- two inserts of one key would wait for one lock
      refine none_insert h (beq_eq_false_iff_ne.mpr fun heq => ?_)
      exact hlock (.slug slug') rfl (congrArg (fun s => some (RowKey.slug s)) heq.symm)
    | set_conversations | set_default_backend | set_quota => exact none_update h fun _ => rfl
    | _ => exact h
  | insert_agent id team_id name display_name =>
    cases x with
    | insert_agent id' team_id' name' display_name' =>
      refine none_insert h (Bool.eq_false_iff.mpr fun heq => ?_)
      rw [Bool.and_eq_true, beq_iff_eq, beq_iff_eq] at heq
      exact hlock (.agent_name team_id' name') rfl
        (congrArg₂ (fun t n => some (RowKey.agent_name t n)) heq.1.symm heq.2.symm)
    | enable_agent | disable_agent => exact none_update h fun _ => rfl
    | _ => exact h
  | insert_token t =>
    cases x with
    | insert_token t' =>
      refine none_insert h (beq_eq_false_iff_ne.mpr fun heq => ?_)
      exact hlock (.token_hash t'.token_hash) rfl (congrArg (fun s => some (RowKey.token_hash s)) heq.symm)
    | revoke_token => exact none_update h fun _ => rfl
    | _ => exact h
  | insert_admin c =>
    cases x with
    | insert_admin c' =>
      refine none_insert h (beq_eq_false_iff_ne.mpr fun heq => ?_)
      exact hlock (.admin_hash c'.token_hash) rfl (congrArg (fun s => some (RowKey.admin_hash s)) heq.symm)
    | revoke_admin => exact none_update h fun _ => rfl
    | _ => exact h
  | set_conversations id enabled =>
    cases x with
    | insert_team => exact any_insert h
    | set_conversations id' enabled' =>
      have hne : id' ≠ id := fun heq => hlock (.team id') rfl (by rw [heq]; rfl)
      refine any_update h fun t hp hq => ?_
      simp only [beq_iff_eq] at hp
      simp [hp, hne] at hq
    | set_default_backend | set_quota => exact any_update h fun t _ hq => hq
    | _ => exact h
  | set_default_backend id backend =>
    cases x with
    | insert_team => exact any_insert h
    | set_default_backend id' backend' =>
      have hne : id' ≠ id := fun heq => hlock (.team id') rfl (by rw [heq]; rfl)
      refine any_update h fun t hp hq => ?_
      simp only [beq_iff_eq] at hp
      simp [hp, hne] at hq
    | set_conversations | set_quota => exact any_update h fun t _ hq => hq
    | _ => exact h
  | enable_agent id display_name =>
    cases x with
    | insert_agent => exact any_insert h
    | enable_agent id' display_name' =>
      have hne : id' ≠ id := fun heq => hlock (.agent id') rfl (by rw [heq]; rfl)
      refine any_update h fun a hp hq => ?_
      simp only [beq_iff_eq] at hp
      simp [hp, hne] at hq
    | disable_agent => exact any_update h fun a hp hq => by simp_all
    | _ => exact h
  | disable_agent now id =>
    cases x with
    | insert_agent => exact any_insert h
    | enable_agent => exact any_update h fun a _ hq => by simp_all
    | disable_agent now' id' =>
      have hne : id' ≠ id := fun heq => hlock (.agent id') rfl (by rw [heq]; rfl)
      refine any_update h fun a hp hq => ?_
      simp only [Bool.and_eq_true, beq_iff_eq] at hp
      simp [hp, hne] at hq
    | _ => exact h
  | revoke_token now id =>
    cases x with
    | insert_token => exact any_insert h
    | revoke_token now' id' =>
      have hne : id' ≠ id := fun heq => hlock (.token id') rfl (by rw [heq]; rfl)
      refine any_update h fun t hp hq => ?_
      simp only [Bool.and_eq_true, beq_iff_eq] at hp
      simp [hp, hne] at hq
    | _ => exact h
  | revoke_admin now id =>
    cases x with
    | insert_admin => exact any_insert h
    | revoke_admin now' id' =>
      have hne : id' ≠ id := fun heq => hlock (.admin id') rfl (by rw [heq]; rfl)
      refine any_update h fun c hp hq => ?_
      simp only [Bool.and_eq_true, beq_iff_eq] at hp
      simp [hp, hne] at hq
    | _ => exact h
  | set_quota | revoke_sessions | audit => exact absurd h (by simp [real])

end Writes

/-! ## Transactions that are to commit -/

/-- The write changes something, and what it changes is locked. -/
def Due (db : Db) (tx : Tx) (w : Write) : Prop := (∃ k ∈ tx.locks, lock w = some k) ∧ real db w = true

/-- The write changes nothing, and will not. -/
def Idle (db : Db) (tx : Tx) : Write → Prop
  | .set_quota id _ => .team id ∈ tx.locks
  | .enable_agent id display_name => .agent id ∈ tx.locks ∧ real db (.enable_agent id display_name) = false
  | _ => False

/-- What is not recorded at all. -/
def quiet : Write → Bool
  | .revoke_sessions _ _ _ => true
  | _ => false

/-- What a transaction has written when it comes to a statement. -/
def Ready (db : Db) (tx : Tx) : Prop :=
  match tx.stage with
  | .enable_agent _ a _ => tx.writes = [] ∧ .agent a.id ∈ tx.locks ∧ a ∈ db.agents
  | .sweep _ t => ∃ now, tx.writes = [.revoke_token now t.id] ∧ Due db tx (.revoke_token now t.id)
  | .audit e => ∃ w rest, tx.writes = w :: rest ∧ Due db tx w ∧ Names tx.actor w e ∧
      ∀ x ∈ rest, quiet x = true
  | .commit => tx.writes = [] ∨ (∃ x, tx.writes = [x] ∧ Idle db tx x) ∨
      ∃ w rest e, tx.writes = w :: (rest ++ [.audit e]) ∧ Due db tx w ∧ Names tx.actor w e ∧
        ∀ x ∈ rest, quiet x = true
  | _ => tx.writes = []

section Transactions

variable {lower sha256 : String → String} {db : Db} {tx tx' : Tx} {w x : Write} {wd : World}

/-- It leaves what is recorded. -/
theorem Idle.settings (h : Idle db tx w) : settings (w.apply db) = settings db := by
  cases w with
  | set_quota id bytes => exact Prod.ext (map_update fun t _ _ => rfl) rfl
  | enable_agent id display_name =>
    refine Prod.ext rfl (Prod.ext (map_update fun a ha hp => ?_) rfl)
    have hsame := List.any_eq_false.mp h.2 a ha
    simp only [hp, Bool.true_and, Bool.not_eq_true, Option.isSome_eq_false_iff, Option.isNone_iff_eq_none] at hsame
    simp only [hsame]
  | _ => exact h.elim

theorem Idle.not_audit (h : Idle db tx w) : ∀ e, w ≠ .audit e := by
  rintro e rfl
  exact h

/-- An agent that is enabled is so until its lock is free. -/
theorem Idle.apply (h : Idle db tx w) (hlock : ∀ k, lock x = some k → k ∉ tx.locks) :
    Idle (x.apply db) tx w := by
  cases w with
  | set_quota => exact h
  | enable_agent id display_name =>
    refine ⟨h.1, List.any_eq_false.mpr fun a ha => ?_⟩
    have hold := List.any_eq_false.mp h.2
    cases x with
    | insert_agent id' team_id name display =>
      rcases mem_insert_into.mp ha with ha | rfl
      · exact hold a ha
      · simp
    | enable_agent id' display =>
      obtain ⟨b, hb, rfl⟩ := mem_update.mp ha
      split
      · simp
      · exact hold b hb
    | disable_agent now id' =>
      have hne : id' ≠ id := by
        rintro rfl
        exact hlock _ rfl h.1
      obtain ⟨b, hb, rfl⟩ := mem_update.mp ha
      by_cases hp : (b.id == id' && b.disabled_at.isNone) = true
      · rw [if_pos hp]
        rw [Bool.and_eq_true, beq_iff_eq] at hp
        simp [hp.1, hne]
      · rw [if_neg hp]
        exact hold b hb
    | _ => exact hold a ha
  | _ => exact h.elim

theorem Due.apply (h : Due db tx w) (hlock : ∀ k, lock x = some k → k ∉ tx.locks) : Due (x.apply db) tx w := by
  obtain ⟨⟨k, hk, hw⟩, hreal⟩ := h
  refine ⟨⟨k, hk, hw⟩, real_apply hreal fun l hl heq => ?_⟩
  exact hlock l hl (Option.some.inj (hw.symm.trans heq) ▸ hk)

/-- What others commit is not what this transaction has locked. -/
theorem Ready.apply (h : Ready db tx) (hlock : ∀ k, lock x = some k → k ∉ tx.locks) : Ready (x.apply db) tx := by
  unfold Ready at h ⊢
  split at h
  · obtain ⟨hwrites, hk, ha⟩ := h
    refine ⟨hwrites, hk, ?_⟩
    cases x with
    | insert_agent => exact mem_insert_into.mpr (.inl ha)
    | enable_agent id display =>
      refine mem_update_of_not ha (beq_eq_false_iff_ne.mpr ?_)
      rintro heq
      exact hlock _ rfl (heq ▸ hk)
    | disable_agent now id =>
      refine mem_update_of_not ha ?_
      rw [Bool.and_eq_false_iff]
      refine .inl (beq_eq_false_iff_ne.mpr ?_)
      rintro heq
      exact hlock _ rfl (heq ▸ hk)
    | _ => exact ha
  · obtain ⟨now, hwrites, hdue⟩ := h
    exact ⟨now, hwrites, hdue.apply hlock⟩
  · obtain ⟨w, rest, hwrites, hdue, hnames, hrest⟩ := h
    exact ⟨w, rest, hwrites, hdue.apply hlock, hnames, hrest⟩
  · rcases h with h | ⟨y, hwrites, hy⟩ | ⟨w, rest, e, hwrites, hdue, hnames, hrest⟩
    · exact .inl h
    · exact .inr (.inl ⟨y, hwrites, hy.apply hlock⟩)
    · exact .inr (.inr ⟨w, rest, e, hwrites, hdue.apply hlock, hnames, hrest⟩)
  · exact h

/-! ### One statement -/

/-- The stages before anything is written, but for the one that has its agent. -/
def reads : Stage → Bool
  | .enable_agent _ _ _ | .sweep _ _ | .audit _ | .commit => false
  | _ => true

theorem ready_reads (hstage : reads tx.stage = true) : Ready db tx ↔ tx.writes = [] := by
  unfold Ready
  split <;> simp_all [reads]

theorem ready_commit (hstage : tx.stage = .commit) (hwrites : tx.writes = []) : Ready db tx := by
  unfold Ready
  rw [hstage]
  exact .inl hwrites

theorem ready_wrote {e : AuditEntry} {k : RowKey} (hstage : tx.stage = .audit e) (hwrites : tx.writes = [w])
    (hk : k ∈ tx.locks) (hlock : lock w = some k) (hreal : real db w = true) (hnames : Names tx.actor w e) :
    Ready db tx := by
  unfold Ready
  rw [hstage]
  exact ⟨w, [], hwrites, ⟨⟨k, hk, hlock⟩, hreal⟩, hnames, fun x hx => absurd hx List.not_mem_nil⟩

/-- The row a statement has found is one its write changes. -/
theorem any_of_one {ρ : Type} {p q : ρ → Bool} {t : List ρ} {r : ρ} (h : one p t = some r)
    (hq : ∀ r, p r = true → q r = true) : t.any q = true :=
  List.any_eq_true.mpr ⟨r, mem_of_one h, hq r (pos_of_one h)⟩

theorem first_ready {op : Op} (hwrites : tx.writes = []) :
    Leaves (Ready db) (first lower wd db tx op) := by
  have hlast : ∀ {k : RowKey} {ks : List RowKey}, k ∈ ks ++ [k] :=
    fun {k ks} => List.mem_append_right _ (List.mem_singleton.mpr rfl)
  have hadd : ∀ w : Write, tx.writes ++ [w] = [w] := fun w => by rw [hwrites, List.nil_append]
  cases op with
  | create_team slug name =>
    simp only [first]
    repeat' split
    · trivial
    · trivial
    · exact leaves_ok.mpr (ready_commit rfl hwrites)
    · rename_i hnone
      exact leaves_lock.mpr fun _ => ready_wrote rfl (hadd _) hlast rfl (none_of hnone) ⟨rfl, rfl, rfl⟩
  | set_conversations team_id enabled =>
    simp only [first]
    split
    · rename_i t ht
      exact leaves_lock.mpr fun _ => ready_wrote rfl (hadd _) hlast rfl (any_of_one ht fun _ h => h)
        ⟨rfl, rfl, rfl⟩
    · exact leaves_ok.mpr (ready_commit rfl hwrites)
  | set_default_backend team_id backend =>
    simp only [first]
    repeat' split
    · trivial
    · trivial
    · exact leaves_ok.mpr ((ready_reads rfl).mpr hwrites)
  | team_quota team_id bytes =>
    simp only [first]
    split
    · trivial
    · exact leaves_lock.mpr fun _ => .inr (.inl ⟨_, hadd _, hlast⟩)
  | create_agent team_id name display_name =>
    simp only [first]
    repeat' split
    · trivial
    · trivial
    · rename_i a ha
      exact leaves_lock.mpr fun _ => ⟨hwrites, hlast, mem_of_one ha⟩
    · exact leaves_ok.mpr ((ready_reads rfl).mpr hwrites)
  | disable_agent team_id name =>
    simp only [first]
    split
    · rename_i a ha
      have hreal : real db (.disable_agent tx.now a.id) = true := by
        refine List.any_eq_true.mpr ⟨a, mem_of_one ha, ?_⟩
        have hp := pos_of_one ha
        rw [Bool.and_eq_true] at hp
        rw [hp.2, beq_self_eq_true, Bool.true_and]
      exact leaves_lock.mpr fun _ => ready_wrote rfl (hadd _) hlast rfl hreal ⟨rfl, rfl, rfl⟩
    · exact leaves_ok.mpr ((ready_reads rfl).mpr hwrites)
  | issue_token team_id agent label =>
    simp only [first]
    repeat' split
    · trivial
    · trivial
    · exact leaves_lock.mpr fun _ => (ready_reads rfl).mpr hwrites
    · trivial
    · trivial
  | revoke_token team_id id =>
    simp only [first]
    split
    · exact leaves_lock.mpr fun _ => (ready_reads rfl).mpr hwrites
    · exact leaves_ok.mpr ((ready_reads rfl).mpr hwrites)
  | grant_admin team_id label =>
    simp only [first]
    repeat' split
    · trivial
    · trivial
    · exact leaves_ok.mpr ((ready_reads rfl).mpr hwrites)
    · exact leaves_ok.mpr ((ready_reads rfl).mpr hwrites)
  | revoke_admin scope id =>
    simp only [first]
    split
    · rename_i c hc
      have hreal : real db (.revoke_admin tx.now id) = true := by
        refine any_of_one hc fun c h => ?_
        rw [Bool.and_eq_true] at h
        exact h.1
      exact leaves_lock.mpr fun _ => ready_wrote rfl (hadd _) hlast rfl hreal ⟨rfl, rfl, rfl⟩
    · exact leaves_ok.mpr ((ready_reads rfl).mpr hwrites)

theorem statement_ready (hkeyed : Keyed Agent.id db.agents) (h : Ready db tx) :
    Leaves (Ready db) (statement lower sha256 wd db tx) := by
  have hlast : ∀ {k : RowKey} {ks : List RowKey}, k ∈ ks ++ [k] :=
    fun {k ks} => List.mem_append_right _ (List.mem_singleton.mpr rfl)
  -- while it only reads, a transaction has written nothing
  have hreads : reads tx.stage = true → tx.writes = [] := fun hstage => (ready_reads hstage).mp h
  have hadd : tx.writes = [] → ∀ w : Write, tx.writes ++ [w] = [w] :=
    fun hwrites w => by rw [hwrites, List.nil_append]
  cases hstage : tx.stage with
  | begun op =>
    simp only [statement, hstage]
    exact first_ready (hreads (hstage ▸ rfl))
  | route team_id backend =>
    have hwrites := hreads (hstage ▸ rfl)
    simp only [statement, hstage]
    split
    · rename_i t ht
      exact leaves_lock.mpr fun _ => ready_wrote rfl (hadd hwrites _) hlast rfl (any_of_one ht fun _ h => h)
        ⟨rfl, rfl, rfl⟩
    · exact leaves_ok.mpr (ready_commit rfl hwrites)
  | insert_agent team_id name display_name =>
    have hwrites := hreads (hstage ▸ rfl)
    simp only [statement, hstage]
    repeat' split
    · trivial
    · trivial
    · rename_i hnone
      exact leaves_lock.mpr fun _ => ready_wrote rfl (hadd hwrites _) hlast rfl (none_of hnone) ⟨rfl, rfl, rfl⟩
  | enable_agent team_id a display_name =>
    unfold Ready at h
    rw [hstage] at h
    obtain ⟨hwrites, hk, ha⟩ := h
    simp only [statement, hstage]
    by_cases hdisabled : a.disabled_at.isSome = true
    · rw [if_pos hdisabled]
      have hreal : real db (.enable_agent a.id display_name) = true :=
        List.any_eq_true.mpr ⟨a, ha, by rw [hdisabled, beq_self_eq_true, Bool.true_and]⟩
      exact leaves_ok.mpr (ready_wrote rfl (hadd hwrites _) hk rfl hreal ⟨rfl, rfl, rfl⟩)
    · rw [if_neg hdisabled]
      refine Or.inr (Or.inl ⟨.enable_agent a.id display_name, hadd hwrites _, hk, ?_⟩)
      refine List.any_eq_false.mpr fun b hb hp => ?_
      rw [Bool.and_eq_true, beq_iff_eq] at hp
      rw [hkeyed.eq hb ha hp.1] at hp
      exact hdisabled hp.2
  | find_agent team_id name | find_token team_id id | find_admin scope id =>
    have hwrites := hreads (hstage ▸ rfl)
    simp only [statement, hstage]
    split
    · exact leaves_ok.mpr (ready_commit rfl hwrites)
    · trivial
  | count_tokens a team_slug agent label =>
    have hwrites := hreads (hstage ▸ rfl)
    simp only [statement, hstage]
    split
    · trivial
    · exact leaves_ok.mpr ((ready_reads rfl).mpr hwrites)
  | insert_token a team_slug agent label | insert_admin team_id team_slug label =>
    have hwrites := hreads (hstage ▸ rfl)
    simp only [statement, hstage]
    split
    · trivial
    · rename_i hnone
      exact leaves_lock.mpr fun _ => ready_wrote rfl (hadd hwrites _) hlast rfl (none_of hnone) ⟨rfl, rfl, rfl⟩
  | update_token team_id id =>
    have hwrites := hreads (hstage ▸ rfl)
    simp only [statement, hstage]
    split
    · rename_i t ht
      have hid : t.id = id := by
        have hp := pos_of_one ht
        rw [Bool.and_eq_true, beq_iff_eq] at hp
        exact hp.1
      split
      · refine leaves_lock.mpr fun _ => ⟨tx.now, ?_, ⟨.token id, hlast, ?_⟩, ?_⟩
        · rw [hid]
          exact hadd hwrites _
        · rw [hid]
          rfl
        · rw [hid]
          exact any_of_one ht fun _ h => h
      · exact leaves_ok.mpr ((ready_reads rfl).mpr hwrites)
    · exact leaves_ok.mpr ((ready_reads rfl).mpr hwrites)
  | sweep a t =>
    unfold Ready at h
    rw [hstage] at h
    obtain ⟨now, hwrites, hdue⟩ := h
    simp only [statement, hstage]
    generalize (db.agent_sessions.filter fun s => s.parent_token == t.id && s.revoked_at.isNone) = swept
    refine ⟨.revoke_token now t.id, [.revoke_sessions tx.now t.id (swept.map Schema.AgentSession.id)], ?_, hdue,
      ⟨rfl, rfl, rfl⟩, fun x hx => ?_⟩
    · exact congrArg (· ++ _) hwrites
    · rw [List.mem_singleton.mp hx]
      rfl
  | audit e =>
    unfold Ready at h
    rw [hstage] at h
    obtain ⟨w, rest, hwrites, hdue, hnames, hrest⟩ := h
    simp only [statement, hstage]
    exact .inr (.inr ⟨w, rest, e, congrArg (· ++ _) hwrites, hdue, hnames, hrest⟩)
  | commit =>
    simp only [statement, hstage]
    trivial

/-! ### The commit -/

theorem quiet_apply {ws : List Write} (h : ∀ x ∈ ws, quiet x = true) (db : Db) :
    settings (ws.foldl Write.apply db) = settings db ∧
      (ws.foldl Write.apply db).admin_audit = db.admin_audit := by
  induction ws generalizing db with
  | nil => exact ⟨rfl, rfl⟩
  | cons x ws ih =>
    rw [List.foldl_cons]
    obtain ⟨hsettings, haudit⟩ := ih (fun y hy => h y (List.mem_cons_of_mem _ hy)) (x.apply db)
    have hx := h x List.mem_cons_self
    cases x with
    | revoke_sessions => exact ⟨hsettings, haudit⟩
    | _ => exact absurd hx (by simp [quiet])

theorem action_not_audit (h : action w ≠ none) : ∀ e, w ≠ .audit e := by
  rintro e rfl
  exact h rfl

/-- A transaction that is ready has changed one thing and written one row, or neither. -/
theorem committed_recorded (h : Ready db tx) (hstage : tx.stage = .commit) :
    Silent db (tx.committed db) ∨ Recorded tx.actor db (tx.committed db) := by
  unfold Ready at h
  rw [hstage] at h
  rcases h with hwrites | ⟨x, hwrites, hx⟩ | ⟨w, rest, e, hwrites, ⟨-, hreal⟩, hnames, hrest⟩
  · left
    rw [Tx.committed, hwrites]
    exact ⟨rfl, rfl⟩
  · left
    rw [Tx.committed, hwrites, List.foldl_cons, List.foldl_nil]
    exact ⟨hx.settings, audit_apply hx.not_audit⟩
  · right
    obtain ⟨hsettings, haudit⟩ := quiet_apply hrest (w.apply db)
    have hdb : tx.committed db = (Write.audit e).apply (rest.foldl Write.apply (w.apply db)) := by
      rw [Tx.committed, hwrites, List.foldl_cons, List.foldl_append, List.foldl_cons, List.foldl_nil]
    have hsame : settings (tx.committed db) = settings (w.apply db) := by
      rw [hdb]
      exact hsettings
    refine ⟨w, e, hnames, hsame, hsame ▸ settings_real hreal, ?_⟩
    have hone : (w.apply db).admin_audit = db.admin_audit :=
      audit_apply (action_not_audit (hnames.2.1 ▸ Option.some_ne_none _))
    rw [hdb, ← hone, ← haudit]
    rfl

/-- What is written is locked. -/
theorem Ready.locked (h : Ready db tx) : ∀ w ∈ tx.writes, ∀ k, lock w = some k → k ∈ tx.locks := by
  intro w hw k hk
  have hnone : tx.writes = [] → k ∈ tx.locks := by
    intro hwrites
    rw [hwrites] at hw
    exact absurd hw List.not_mem_nil
  have hquiet : ∀ {x : Write}, quiet x = true → lock x ≠ some k := by
    intro x hx hk
    cases x with
    | revoke_sessions => exact absurd hk (by simp [lock])
    | _ => exact absurd hx (by simp [quiet])
  have hdue : ∀ {x : Write}, Due db tx x → lock x = some k → k ∈ tx.locks := by
    rintro x ⟨⟨l, hl, hx⟩, -⟩ hk
    rw [← Option.some.inj (hx.symm.trans hk)]
    exact hl
  unfold Ready at h
  split at h
  · exact hnone h.1
  · obtain ⟨now, hwrites, h⟩ := h
    rw [hwrites, List.mem_singleton] at hw
    exact hdue h (hw ▸ hk)
  · obtain ⟨x, rest, hwrites, h, -, hrest⟩ := h
    rw [hwrites] at hw
    rcases List.mem_cons.mp hw with rfl | hw
    · exact hdue h hk
    · exact absurd hk (hquiet (hrest w hw))
  · rcases h with h | ⟨x, hwrites, hx⟩ | ⟨x, rest, e, hwrites, h, -, hrest⟩
    · exact hnone h
    · rw [hwrites, List.mem_singleton] at hw
      rw [hw] at hk
      cases x with
      | set_quota => exact Option.some.inj hk ▸ hx
      | enable_agent => exact Option.some.inj hk ▸ hx.1
      | _ => exact hx.elim
    · rw [hwrites] at hw
      rcases List.mem_cons.mp hw with rfl | hw
      · exact hdue h hk
      · rcases List.mem_append.mp hw with hw | hw
        · exact absurd hk (hquiet (hrest w hw))
        · rw [List.mem_singleton.mp hw] at hk
          exact absurd hk (by simp [lock])
  · exact hnone h

/-- What another transaction commits has none of its locks. -/
theorem Ready.committed (h : Ready db tx) (hother : ∀ w ∈ tx'.writes, ∀ k, lock w = some k → k ∉ tx.locks) :
    Ready (tx'.committed db) tx := by
  have hall : ∀ (ws : List Write) (db : Db), Ready db tx → (∀ w ∈ ws, ∀ k, lock w = some k → k ∉ tx.locks) →
      Ready (ws.foldl Write.apply db) tx := by
    intro ws
    induction ws with
    | nil => exact fun db h _ => h
    | cons w ws ih =>
      intro db h hws
      exact ih _ (h.apply (hws w List.mem_cons_self)) fun x hx => hws x (List.mem_cons_of_mem _ hx)
  exact hall tx'.writes db h hother

/-- What else happens to the tables is not what a transaction has found. -/
theorem Ready.same {db' : Db} (h : Ready db tx) (hteams : db'.teams = db.teams) (hagents : db'.agents = db.agents)
    (htokens : ∀ q : ApiToken → Bool, (∀ t u, q { t with last_used_at := u } = q t) →
      db'.api_tokens.any q = db.api_tokens.any q)
    (hadmins : ∀ q : AdminToken → Bool, (∀ c u, q { c with last_used_at := u } = q c) →
      db'.admin_tokens.any q = db.admin_tokens.any q) : Ready db' tx := by
  have hreal : ∀ w, real db' w = real db w := by
    intro w
    cases w with
    | insert_team | set_conversations | set_default_backend => rw [real, real, hteams]
    | insert_agent | enable_agent | disable_agent => rw [real, real, hagents]
    | insert_token | revoke_token => rw [real, real, htokens _ fun _ _ => rfl]
    | insert_admin | revoke_admin => rw [real, real, hadmins _ fun _ _ => rfl]
    | _ => rfl
  have hdue : ∀ {w}, Due db tx w → Due db' tx w := fun h => ⟨h.1, (hreal _).trans h.2⟩
  unfold Ready at h ⊢
  split at h
  · exact ⟨h.1, h.2.1, hagents ▸ h.2.2⟩
  · obtain ⟨now, hwrites, h⟩ := h
    exact ⟨now, hwrites, hdue h⟩
  · obtain ⟨x, rest, hwrites, h, hrest⟩ := h
    exact ⟨x, rest, hwrites, hdue h, hrest⟩
  · rcases h with h | ⟨x, hwrites, hx⟩ | ⟨x, rest, e, hwrites, h, hrest⟩
    · exact .inl h
    · refine .inr (.inl ⟨x, hwrites, ?_⟩)
      cases x with
      | set_quota => exact hx
      | enable_agent => exact ⟨hx.1, (hreal _).trans hx.2⟩
      | _ => exact hx.elim
    · exact .inr (.inr ⟨x, rest, e, hwrites, hdue h, hrest⟩)
  · exact h

end Transactions

/-! ## Runs -/

/-- Every transaction is ready for its next statement, and acts for whoever it is of. -/
structure Inv (s : Sys) : Prop where
  ids : Ids s
  apart : Apart s
  ready : ∀ i tx, s.tx i = some tx → Ready s.db tx
  actor : ∀ (i : ℕ) (p : Proc) (tx : Tx), s.procs[i]? = some p → p.phase = .working tx → tx.actor = p.actor

section Runs

variable {lower sha256 : String → String} {s t : Sys} {a : Act} {tr : List (Trans Sys Act)}

theorem Inv.start : Inv .start where
  ids := Ids.start
  apart := Apart.start
  ready := fun i tx h => absurd h (by simp [Sys.tx, Sys.start])
  actor := fun i p tx h => absurd h (by simp [Sys.start])

/-- A transaction that is not run stays ready, and one that is run stays so by its statement. -/
theorem Inv.ready_step (hinv : Inv s) (h : Did lower sha256 s a t) {j : ℕ} {tx : Tx} (htx : t.tx j = some tx) :
    Ready s.db tx := by
  obtain ⟨p, hp, hphase⟩ := tx_eq.mp htx
  cases h.from hp hphase with
  | was hp => exact hinv.ready j tx (tx_eq.mpr ⟨p, hp, hphase⟩)
  | commanded now op _ heq | handled _ _ _ now op _ _ _ _ _ heq =>
    rw [heq]
    exact (ready_reads rfl).mpr rfl
  | ran q tx₀ now entropy hact hq hworking _ hran hnext =>
    exact (statement_ready hinv.ids.agents (hinv.ready j tx₀ (tx_eq.mpr ⟨q, hq, hworking⟩))).of hran

theorem Inv.step (hinv : Inv s) (h : Did lower sha256 s a t) : Inv t := by
  have hapart : Apart t := hinv.apart.step h
  refine ⟨hinv.ids.step h, hapart, fun j tx htx => ?_, fun j p tx hp hphase => ?_⟩
  · have hready := hinv.ready_step h htx
    rcases h.tables with ⟨i, tx', hcommit, htx', -, hdb, hover⟩ | hdb | ⟨now, id, hdb⟩ | ⟨windows, slots, used, hdb⟩
    · rw [hdb]
      refine hready.committed fun w hw k hk hin => ?_
      -- the committed transaction had the lock, and this one had it beside it
      have hold : k ∈ s.locks i := mem_locks.mpr ⟨tx', htx', (hinv.ready i tx' htx').locked w hw k hk⟩
      have hne : i ≠ j := by
        rintro rfl
        rw [hover] at htx
        cases htx
      rcases h.locks (mem_locks.mpr ⟨tx, htx, hin⟩) with hin | ⟨-, now, entropy, hact⟩
      · exact hinv.apart i j k hne hold hin
      · exact Act.noConfusion (hcommit.symm.trans hact)
    · rw [hdb]
      exact hready
    · rw [hdb]
      exact hready.same rfl rfl (fun _ _ => rfl) fun q hq => any_update_same fun c => hq c _
    · rw [hdb]
      exact hready.same rfl rfl (fun q hq => any_update_same fun t => hq t _) fun _ _ => rfl
  · cases h.from hp hphase with
    | was hp => exact hinv.actor j p tx hp hphase
    | commanded now op hctx heq | handled _ ctx _ now op _ _ _ hctx _ heq =>
      rw [heq, Proc.actor, hctx]
      rfl
    | ran q tx₀ now entropy hact hq hworking hctx hran hnext =>
      rw [(statement_kept.of hran).actor, hinv.actor j q tx₀ hq hworking, Proc.actor, Proc.actor, hctx]

/-- **The audit trail.** Every change of the tables that is recorded is a commit's, with one row
that says who made it, what it was and what it was made to; and no row is written otherwise. -/
theorem changes_are_audited (hrun : Run (Rel (Admin.step lower sha256)) .start tr t) : AuditLaw tr := by
  intro e he
  have hstep : ∀ s a t, Inv s → True → Rel (Admin.step lower sha256) s a t → Inv t :=
    fun s a t hs _ hr => hs.step (step_did hr)
  have hinv := hrun.invariant_pre (C := fun _ _ => True) .start hstep (fun _ _ => trivial) e he
  have hdid := step_did (hrun.rel e he)
  rcases hdid.tables with ⟨i, tx, hcommit, htx, hstage, hdb, -⟩ | hdb | ⟨now, id, hdb⟩ | ⟨windows, slots, used, hdb⟩
  · rcases committed_recorded (hinv.ready i tx htx) hstage with hsilent | hrecorded
    · rw [hdb]
      exact .inl hsilent
    · obtain ⟨p, hp, hphase⟩ := tx_eq.mp htx
      rw [hdb]
      exact .inr ⟨i, p, tx, hcommit, hp, hphase, hinv.actor i p tx hp hphase ▸ hrecorded⟩
  · rw [hdb]
    exact .inl ⟨rfl, rfl⟩
  · rw [hdb]
    exact .inl ⟨Prod.ext rfl (Prod.ext rfl (Prod.ext rfl (map_update fun _ _ _ => rfl))), rfl⟩
  · rw [hdb]
    exact .inl ⟨Prod.ext rfl (Prod.ext rfl (Prod.ext (map_update fun _ _ _ => rfl) rfl)), rfl⟩

end Runs

/-! ## Closed runs -/

/-- The steps, with hashes that show the token. -/
def go : Sys → Act → Option Sys := Admin.step Auth.to_lowercase id

/-- The operator makes the first credential. -/
def bootstrap : List Act :=
  [.command 10 (.grant_admin none (some "laptop")), .run 0 10 "", .run 0 10 "b0", .run 0 10 "", .commit 0]

/-- A request of that credential whose transaction has one statement more before it commits. -/
def served (i now : ℕ) (req : Request) : List Act :=
  [.request now (some "acsa_b0") none true req, .run i now "", .run i now "", .run i now ""]

/-- It makes a team and an agent. -/
def founded : List Act :=
  bootstrap ++ served 1 20 (.create_team "Crew" none) ++ [.commit 1, .run 1 21 ""] ++
    served 2 30 (.create_agent "crew" "ada" none) ++ [.run 2 30 "", .commit 2, .run 2 31 ""]

theorem founded_run : (exec go .start founded).isSome = true := by decide

/-- The run, and where it ends. -/
def founded_end : List (Trans Sys Act) × Sys := (exec go .start founded).get founded_run

/-- Each change has its row, and each row its door. -/
theorem changes_are_audited_founded :
    founded_end.2.db.admin_audit.map (fun e => (e.actor_source, e.actor_admin_id, e.action, e.subject_id)) =
        [("cli", none, .admin_grant, some 1), ("http", some 1, .team_create, some 3),
          ("http", some 1, .agent_create, some 6)] ∧
      AuditLaw founded_end.1 :=
  ⟨by decide, changes_are_audited (exec_get founded_run)⟩

/-- The agent is made once more, under another display name, and the operator sets a quota. -/
def unrecorded : List Act :=
  founded ++ served 3 40 (.create_agent "crew" "ada" (some "Ada")) ++ [.commit 3] ++
    [.command 50 (.team_quota 3 (some 1000)), .run 4 50 "", .commit 4]

theorem unrecorded_run : (exec go .start unrecorded).isSome = true := by decide

/-- The run, and where it ends. -/
def unrecorded_end : List (Trans Sys Act) × Sys := (exec go .start unrecorded).get unrecorded_run

theorem unrecorded_length : unrecorded_end.1.length = 26 := exec_length unrecorded_run

/-- Its last commits: of the display name, and of the quota. -/
def display_commit : Trans Sys Act := unrecorded_end.1.get ⟨22, by rw [unrecorded_length]; omega⟩

def quota_commit : Trans Sys Act := unrecorded_end.1.get ⟨25, by rw [unrecorded_length]; omega⟩

/-- An agent and a team's quota are changed, and no row tells of it. -/
theorem changes_go_unaudited :
    (display_commit ∈ unrecorded_end.1 ∧ display_commit.pre.db.agents ≠ display_commit.post.db.agents ∧
      display_commit.post.db.admin_audit = display_commit.pre.db.admin_audit) ∧
    quota_commit ∈ unrecorded_end.1 ∧ quota_commit.pre.db.teams ≠ quota_commit.post.db.teams ∧
      quota_commit.post.db.admin_audit = quota_commit.pre.db.admin_audit :=
  ⟨⟨List.get_mem _ _, by decide, by decide⟩,
    List.get_mem _ _, by decide, by decide⟩

end CrewSync.AuditTrail
