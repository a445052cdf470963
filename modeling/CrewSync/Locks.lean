/-
`store/locks.rs`: named advisory locks.

A lock is one row per team and name. Acquiring is a single conditional upsert: it inserts
the row, or extends the caller's own, or takes over one whose lease has run out, and leaves
it alone otherwise. There is no other way to renew than to acquire again. `now` is the
start of the transaction, so it may lie before the moment the statement runs.

Besides the table the state keeps what no table says. `leases` is what each window was last
told it holds, and until when; a window forgets its own when it releases it. `given` is every
purpose a window took a lock for.

That leases exclude each other, and that only its holder ends one early, holds of every run.
How a lock is reported is another matter. Listing asks for `expires_at > now()` and taking
over for `expires_at < now()`, so at the instant of expiry a lock is refused and not listed.
And a take-over without a purpose keeps the purpose of the holder before: `acquired_at` is
told apart by whose lock it was, `purpose` is not.

Left out: the row an answer shows, which is read after the commit, and the order of the
list.
-/
import CrewSync.Sessions
import CrewSync.Runs

set_option autoImplicit false

namespace CrewSync.Locks

open Error Schema Rows Auth Sessions Runs Crew

/-! ## The table -/

/-- `DEFAULT_TTL_SECS` and `MAX_TTL_SECS`. -/
def DEFAULT_TTL_SECS : ℤ := 300

def MAX_TTL_SECS : ℤ := 86400

/-- `locks`, `PRIMARY KEY (team_id, name)`. -/
structure Lock where
  team_id : Uuid
  name : String
  holder_agent_id : Uuid
  holder_session : Option String
  purpose : Option String
  acquired_at : ℕ
  expires_at : ℕ
  deriving DecidableEq, Repr

/-- `LockInfo`. -/
structure LockInfo where
  name : String
  holder : String
  holder_session : Option String
  purpose : Option String
  acquired_at : ℕ
  expires_at : ℕ
  deriving DecidableEq, Repr

/-- `WHERE team_id = $1 AND name = $2`. -/
def at_name (team_id : Uuid) (name : String) (l : Lock) : Bool := l.team_id == team_id && l.name == name

/-- `holder_agent_id = $3 AND COALESCE(holder_session, '') = $4`. -/
def holds_lock (auth : AuthCtx) (l : Lock) : Bool :=
  l.holder_agent_id == auth.agent_id && l.holder_session.getD "" == auth.session

/-- `ttl_seconds.unwrap_or(DEFAULT_TTL_SECS).clamp(5, MAX_TTL_SECS)`. -/
def clamp_ttl (ttl_seconds : Option ℤ) : ℕ :=
  (max 5 (min (ttl_seconds.getD DEFAULT_TTL_SECS) MAX_TTL_SECS)).toNat

/-- `WHERE locks.expires_at < now() OR …`. -/
def may_take (now : ℕ) (auth : AuthCtx) (l : Lock) : Bool := l.expires_at < now || holds_lock auth l

/-- The row the upsert inserts. -/
def new_lock (now : ℕ) (auth : AuthCtx) (name : String) (ttl : ℕ) (purpose : Option String) : Lock :=
  { team_id := auth.team_id, name := name, holder_agent_id := auth.agent_id,
    holder_session := some auth.session, purpose := purpose, acquired_at := now,
    expires_at := now + secs ttl }

/-- `DO UPDATE SET …`. -/
def taken_lock (now : ℕ) (auth : AuthCtx) (ttl : ℕ) (purpose : Option String) (l : Lock) : Lock :=
  { l with
    holder_agent_id := auth.agent_id
    holder_session := some auth.session
    purpose := purpose.or l.purpose
    acquired_at := if holds_lock auth l then l.acquired_at else now
    expires_at := now + secs ttl }

/-- The holder of a lock is an agent of its team (`locks_holder_same_team`). -/
def is_agent (auth : AuthCtx) (db : Db) : Bool :=
  db.agents.any fun a => a.id == auth.agent_id && a.team_id == auth.team_id

section Operations

-- `str::to_lowercase`
variable (lower : String → String)

/-- `normalize_name`. -/
def normalize_name (name : String) : BusResult String := do
  let name := lower (trim name)
  ensure (!name.isEmpty) (.Invalid "lock name cannot be empty")
  ensure (name.utf8ByteSize ≤ 128) (.Invalid "lock name is limited to 128 characters")
  pure name

/-- `acquire_lock`. Answers whether it was acquired. -/
def acquire_lock (now : ℕ) (auth : AuthCtx) (name : String) (ttl_seconds : Option ℤ)
    (purpose : Option String) (db : Db) (t : List Lock) : BusResult (Bool × List Lock) := do
  let name ← normalize_name lower name
  let ttl := clamp_ttl ttl_seconds
  guard now auth db
  if (one (at_name auth.team_id name) t).any fun l => !may_take now auth l then pure (false, t)
  else do
    ensure (is_agent auth db) (.Db "violates foreign key constraint")
    pure (true, upsert (at_name auth.team_id name) (taken_lock now auth ttl purpose)
      (new_lock now auth name ttl purpose) t)

/-- `release_lock`. Answers whether there was one to release. -/
def release_lock (now : ℕ) (auth : AuthCtx) (name : String) (db : Db) (t : List Lock) :
    BusResult (Bool × List Lock) := do
  let name ← normalize_name lower name
  guard now auth db
  let mine := fun l => at_name auth.team_id name l && holds_lock auth l
  pure (t.any mine, delete mine t)

/-- `LOCK_SELECT`, and what is shown of a row. -/
def lock_info (db : Db) (l : Lock) : Option LockInfo :=
  (one (fun a => a.id == l.holder_agent_id) db.agents).map fun a =>
    { name := l.name, holder := a.name, holder_session := l.holder_session.filter fun s => !s.isEmpty,
      purpose := l.purpose, acquired_at := l.acquired_at, expires_at := l.expires_at }

/-- `list_locks`. -/
def list_locks (now : ℕ) (auth : AuthCtx) (db : Db) (t : List Lock) : List LockInfo :=
  (t.filter fun l => l.team_id == auth.team_id && now < l.expires_at).filterMap (lock_info db)

end Operations

/-! ## The system -/

/-- A lock, by its key. -/
def key (l : Lock) : Uuid × String := (l.team_id, l.name)

/-- The window that holds a lock. -/
def holder (l : Lock) : Uuid × String := (l.holder_agent_id, l.holder_session.getD "")

/-- The window a request speaks for. -/
def window_of (auth : AuthCtx) : Uuid × String := (auth.agent_id, auth.session)

/-- What a window was told it holds, and until when. -/
structure Lease where
  lock : Uuid × String
  window : Uuid × String
  until_ : ℕ
  deriving DecidableEq, Repr

/-- The state of the system. -/
structure Sys where
  db : Db
  locks : List Lock
  clock : ℕ
  leases : List Lease
  /-- The lock, the window, and a purpose it took the lock for. -/
  given : List ((Uuid × String) × (Uuid × String) × String)

/-- What can happen next. -/
inductive Act where
  | acquire_lock (now : ℕ) (auth : AuthCtx) (name : String) (ttl_seconds : Option ℤ)
      (purpose : Option String)
  | release_lock (now : ℕ) (auth : AuthCtx) (name : String)
  | list_locks (now : ℕ) (auth : AuthCtx)
  /-- Time goes by. -/
  | tick (clock : ℕ)
  /-- Any other part of the server commits. It writes no lock and deletes no agent. -/
  | other (db' : Db)

/-- The state before any lock. -/
def Sys.start (db : Db) : Sys := { db := db, locks := [], clock := 0, leases := [], given := [] }

/-- The window's own lease of a lock. -/
def is_lease (k w : Uuid × String) (g : Lease) : Bool := g.lock == k && g.window == w

/-- The agents stay. -/
def keeps_agents (db db' : Db) : Bool :=
  db.agents.all fun a => db'.agents.any fun a' => a'.id == a.id && a'.team_id == a.team_id

section System

variable (lower : String → String)

/-- The lock a request names. -/
def lock_of (auth : AuthCtx) (name : String) : Uuid × String :=
  (auth.team_id, (normalize_name lower name).toOption.getD "")

/-- One step. -/
def step (s : Sys) : Act → Option Sys
  | .acquire_lock now auth name ttl_seconds purpose =>
    if s.clock < now then none
    else
      match acquire_lock lower now auth name ttl_seconds purpose s.db s.locks with
      | .ok (true, t) =>
        let k := lock_of lower auth name
        some { s with
          locks := t
          leases := ⟨k, window_of auth, now + secs (clamp_ttl ttl_seconds)⟩ ::
            delete (is_lease k (window_of auth)) s.leases
          given := (purpose.toList.map fun p => (k, window_of auth, p)) ++ s.given }
      | _ => some s
  | .release_lock now auth name =>
    if s.clock < now then none
    else
      match release_lock lower now auth name s.db s.locks with
      | .ok (_, t) => some { s with
          locks := t, leases := delete (is_lease (lock_of lower auth name) (window_of auth)) s.leases }
      | .error _ => some s
  | .list_locks now _ => if s.clock < now then none else some s
  | .tick clock => if clock < s.clock then none else some { s with clock := clock }
  | .other db' => if keeps_agents s.db db' then some { s with db := db' } else none

end System

/-- Whose action it is. -/
def caller : Act → Option AuthCtx
  | .acquire_lock _ auth _ _ _ => some auth
  | .release_lock _ auth _ => some auth
  | _ => none

/-! ## The law -/

section Law

variable (lower : String → String)

/-- An `acquire_lock` of another window at `now` would be refused. -/
def refused (now : ℕ) (auth : AuthCtx) (name : String) (db : Db) (t : List Lock) : Prop :=
  ∀ ttl_seconds purpose, acquire_lock lower now auth name ttl_seconds purpose db t = .ok (false, t)

/-- The list shows the locks an acquire of another window would be refused, and no others. A
window that may write in the team asks for the name `n`, which it does not hold. -/
def Agrees (now : ℕ) (auth : AuthCtx) (db : Db) (t : List Lock) : Prop :=
  ∀ (by_ : AuthCtx) (name n : String), by_.team_id = auth.team_id →
    normalize_name lower name = .ok n → Sessions.guard now by_ db = .ok () → is_agent by_ db = true →
    (∀ l ∈ t, key l = (auth.team_id, n) → holder l ≠ window_of by_) →
    (refused lower now by_ name db t ↔ ∃ i ∈ list_locks now auth db t, i.name = n)

/-- Each lock shows a purpose its holder gave. -/
def Purposeful (s : Sys) : Prop :=
  ∀ l ∈ s.locks, ∀ p, l.purpose = some p → (key l, holder l, p) ∈ s.given

/-- What a transition keeps of the locks. -/
structure LockLaw (e : Trans Sys Act) : Prop where
  /-- No two windows hold an unexpired lease of one lock. -/
  exclusive : ∀ g ∈ e.post.leases, ∀ g' ∈ e.post.leases, g.lock = g'.lock →
    e.post.clock ≤ g.until_ → e.post.clock ≤ g'.until_ → g.window = g'.window
  /-- An unexpired lease changes hands, or ends, by its holder's action only. -/
  kept : ∀ l ∈ e.pre.locks, e.pre.clock ≤ l.expires_at →
    (∃ l' ∈ e.post.locks, key l' = key l ∧ holder l' = holder l) ∨
      ∃ auth, caller e.act = some auth ∧ window_of auth = holder l
  listed : ∀ now auth, e.act = .list_locks now auth → Agrees lower now auth e.pre.db e.pre.locks
  purpose : Purposeful e.post

/-- The window takes a lock over from another, with a purpose it never gave for it. -/
def inherits (now : ℕ) (auth : AuthCtx) (k : Uuid × String) (s : Sys) : Bool :=
  s.locks.any fun l => key l == k && !holds_lock auth l && l.expires_at < now &&
    l.purpose.any fun p => !s.given.contains (k, window_of auth, p)

/-- No lock is taken over without a purpose, from a holder that gave it one the window itself
never did; and no lock runs out at the very instant it is listed. -/
def as_it_acts (s : Sys) : Act → Bool
  | .acquire_lock now auth name _ purpose =>
    match normalize_name lower name, Sessions.guard now auth s.db with
    | .ok n, .ok _ => !(is_agent auth s.db && purpose.isNone && inherits now auth (auth.team_id, n) s)
    | _, _ => true
  | .list_locks now auth => s.locks.all fun l => l.team_id != auth.team_id || l.expires_at != now
  | _ => true

end Law

/-! ## One statement at a time -/

section Statements

variable {lower : String → String} {now ttl : ℕ} {auth : AuthCtx} {name n : String} {db : Db}
  {t t' : List Lock} {ttl_seconds : Option ℤ} {purpose : Option String} {l : Lock} {b : Bool}

/-- A lock is named within its team. -/
theorem at_name_iff : at_name auth.team_id n l = true ↔ key l = (auth.team_id, n) := by
  simp [at_name, key]

/-- Who holds it is a window. -/
theorem holds_lock_iff : holds_lock auth l = true ↔ holder l = window_of auth := by
  simp [holds_lock, holder, window_of]

/-- A lock that is taken over keeps its name. -/
theorem taken_lock_key : key (taken_lock now auth ttl purpose l) = key l := rfl

/-- It is then the caller's. -/
theorem taken_lock_holder : holder (taken_lock now auth ttl purpose l) = window_of auth := rfl

/-- What an upsert that takes the lock leaves at its key, and what elsewhere. -/
theorem mem_acquired (h : l ∈ upsert (at_name auth.team_id n) (taken_lock now auth ttl purpose)
    (new_lock now auth n ttl purpose) t) :
    l ∈ t ∧ key l ≠ (auth.team_id, n) ∨
      key l = (auth.team_id, n) ∧ holder l = window_of auth ∧ l.expires_at = now + secs ttl ∧
        (l.purpose = purpose ∨ ∃ l₀ ∈ t, key l₀ = (auth.team_id, n) ∧ l.purpose = purpose.or l₀.purpose) := by
  rcases mem_upsert h with ⟨l₀, hl₀, rfl⟩ | ⟨rfl, -⟩
  · by_cases hk : at_name auth.team_id n l₀ = true
    · rw [if_pos hk]
      exact Or.inr ⟨at_name_iff.mp hk, rfl, rfl, Or.inr ⟨l₀, hl₀, at_name_iff.mp hk, rfl⟩⟩
    · rw [if_neg hk]
      exact Or.inl ⟨hl₀, fun hkey => hk (at_name_iff.mpr hkey)⟩
  · exact Or.inr ⟨rfl, rfl, rfl, Or.inl rfl⟩

/-- The lock is there, in its window's hands. -/
theorem acquired_mem : ∃ l ∈ upsert (at_name auth.team_id n) (taken_lock now auth ttl purpose)
    (new_lock now auth n ttl purpose) t,
    key l = (auth.team_id, n) ∧ holder l = window_of auth ∧ l.expires_at = now + secs ttl := by
  unfold upsert
  split
  · rename_i hany
    obtain ⟨l₀, hl₀, hk⟩ := List.any_eq_true.mp hany
    exact ⟨_, mem_update_of_pos hl₀ hk, at_name_iff.mp hk, rfl, rfl⟩
  · exact ⟨_, mem_insert_into.mpr (Or.inr rfl), rfl, rfl, rfl⟩

/-- An acquisition leaves one lock of each name. -/
theorem acquired_keyed (hk : Keyed key t) : Keyed key (upsert (at_name auth.team_id n)
    (taken_lock now auth ttl purpose) (new_lock now auth n ttl purpose) t) :=
  hk.upsert (fun _ => rfl) fun _ h => at_name_iff.mpr h

/-- An acquire finds the lock in other hands, or takes it. -/
theorem acquire_lock_ok (hk : Keyed key t)
    (h : acquire_lock lower now auth name ttl_seconds purpose db t = .ok (b, t')) :
    ∃ n, normalize_name lower name = .ok n ∧ Sessions.guard now auth db = .ok () ∧
      (b = false ∧ t' = t ∧ (∃ l ∈ t, key l = (auth.team_id, n) ∧ may_take now auth l = false) ∨
        b = true ∧ is_agent auth db = true ∧
          (∀ l ∈ t, key l = (auth.team_id, n) → may_take now auth l = true) ∧
          t' = upsert (at_name auth.team_id n) (taken_lock now auth (clamp_ttl ttl_seconds) purpose)
            (new_lock now auth n (clamp_ttl ttl_seconds) purpose) t) := by
  simp only [acquire_lock, bind_eq_ok] at h
  obtain ⟨n, hn, u, hguard, h⟩ := h
  refine ⟨n, hn, hguard, ?_⟩
  split at h
  · rename_i hany
    simp only [pure_eq_ok, Prod.mk.injEq] at h
    obtain ⟨l, hl, htake⟩ := (Option.any_eq_true _ _).mp hany
    exact Or.inl ⟨h.1.symm, h.2.symm, l, mem_of_one hl, at_name_iff.mp (pos_of_one hl), by simpa using htake⟩
  · rename_i hany
    simp only [bind_eq_ok, ensure_eq_ok, pure_eq_ok, Prod.mk.injEq] at h
    obtain ⟨-, hagent, hb, ht⟩ := h
    refine Or.inr ⟨hb.symm, hagent, fun l hl hkey => ?_, ht.symm⟩
    -- the key is the row's alone
    have hone : one (at_name auth.team_id n) t = some l :=
      one_eq_some hl (at_name_iff.mpr hkey) fun x hx hpx => hk.eq hx hl ((at_name_iff.mp hpx).trans hkey.symm)
    rw [hone] at hany
    simpa using hany

/-- A release deletes the caller's lock of that name. -/
theorem release_lock_ok (h : release_lock lower now auth name db t = .ok (b, t')) :
    ∃ n, normalize_name lower name = .ok n ∧
      t' = delete (fun l => at_name auth.team_id n l && holds_lock auth l) t := by
  simp only [release_lock, bind_eq_ok, pure_eq_ok, Prod.mk.injEq] at h
  obtain ⟨n, hn, -, -, -, ht⟩ := h
  exact ⟨n, hn, ht.symm⟩

/-- Everything else stays. -/
theorem mem_released : l ∈ delete (fun l => at_name auth.team_id n l && holds_lock auth l) t ↔
    l ∈ t ∧ (key l = (auth.team_id, n) → holder l ≠ window_of auth) := by
  rw [mem_delete, Bool.and_eq_false_imp]
  refine and_congr_right fun _ => ?_
  rw [at_name_iff, Ne, ← holds_lock_iff, Bool.not_eq_true]

theorem lock_of_eq (h : normalize_name lower name = .ok n) : lock_of lower auth name = (auth.team_id, n) := by
  rw [lock_of, h]
  rfl

end Statements

/-! ## What every step keeps -/

section Steps

variable {lower : String → String} {s t : Sys} {a : Act} {k w : Uuid × String} {g : Lease} {l : Lock} {now ttl : ℕ}
  {auth : AuthCtx} {n : String} {purpose : Option String}

/-- What a step did to the locks: it took one, or released one, or did not touch them. -/
inductive Did (lower : String → String) (s : Sys) : Act → Sys → Prop
  | acquired {now : ℕ} {auth : AuthCtx} {name n : String} {ttl_seconds : Option ℤ} {purpose : Option String} :
      now ≤ s.clock → normalize_name lower name = .ok n → Sessions.guard now auth s.db = .ok () →
      is_agent auth s.db = true →
      (∀ l ∈ s.locks, key l = (auth.team_id, n) → may_take now auth l = true) →
      Did lower s (.acquire_lock now auth name ttl_seconds purpose) { s with
        locks := upsert (at_name auth.team_id n) (taken_lock now auth (clamp_ttl ttl_seconds) purpose)
          (new_lock now auth n (clamp_ttl ttl_seconds) purpose) s.locks
        leases := ⟨(auth.team_id, n), window_of auth, now + secs (clamp_ttl ttl_seconds)⟩ ::
          delete (is_lease (auth.team_id, n) (window_of auth)) s.leases
        given := (purpose.toList.map fun p => ((auth.team_id, n), window_of auth, p)) ++ s.given }
  | refused {now : ℕ} {auth : AuthCtx} {name : String} {ttl_seconds : Option ℤ} {purpose : Option String} :
      (∀ n, normalize_name lower name = .ok n → Sessions.guard now auth s.db = .ok () →
        is_agent auth s.db = true →
        ∃ l ∈ s.locks, key l = (auth.team_id, n) ∧ may_take now auth l = false) →
      Did lower s (.acquire_lock now auth name ttl_seconds purpose) s
  | released {now : ℕ} {auth : AuthCtx} {name n : String} :
      Did lower s (.release_lock now auth name) { s with
        locks := delete (fun l => at_name auth.team_id n l && holds_lock auth l) s.locks
        leases := delete (is_lease (auth.team_id, n) (window_of auth)) s.leases }
  | not_released {now : ℕ} {auth : AuthCtx} {name : String} : Did lower s (.release_lock now auth name) s
  | list_locks {now : ℕ} {auth : AuthCtx} : Did lower s (.list_locks now auth) s
  | tick {clock : ℕ} : s.clock ≤ clock → Did lower s (.tick clock) { s with clock := clock }
  | other {db' : Db} : keeps_agents s.db db' = true → Did lower s (.other db') { s with db := db' }

/-- A step is one of those that `Did` lists. -/
theorem step_did (hk : Keyed key s.locks) (h : step lower s a = some t) : Did lower s a t := by
  cases a with
  | acquire_lock now auth name ttl_seconds purpose =>
    simp only [step] at h
    split at h
    · cases h
    rename_i hclock
    split at h
    · rename_i t' hok
      obtain ⟨n, hn, hguard, ⟨hb, -⟩ | ⟨-, hagent, htake, rfl⟩⟩ := acquire_lock_ok hk hok
      · cases hb
      · rw [lock_of_eq hn] at h
        rw [← Option.some.inj h]
        exact .acquired (by omega) hn hguard hagent htake
    · rename_i hno
      rw [← Option.some.inj h]
      refine .refused fun n hn hguard hagent => ?_
      by_contra hfree
      simp only [not_exists, not_and, Bool.not_eq_false] at hfree
      -- it would have been acquired
      refine hno (upsert (at_name auth.team_id n) (taken_lock now auth (clamp_ttl ttl_seconds) purpose)
        (new_lock now auth n (clamp_ttl ttl_seconds) purpose) s.locks) ?_
      have hany : ((one (at_name auth.team_id n) s.locks).any fun l => !may_take now auth l) = false := by
        rw [Option.any_eq_false]
        intro l hl
        rw [hfree l (mem_of_one hl) (at_name_iff.mp (pos_of_one hl))]
        decide
      simp only [acquire_lock, bind_eq_ok]
      refine ⟨n, hn, (), hguard, ?_⟩
      rw [hany]
      simp only [Bool.false_eq_true, if_false, bind_eq_ok, ensure_eq_ok, pure_eq_ok]
      exact ⟨(), hagent, trivial⟩
  | release_lock now auth name =>
    simp only [step] at h
    split at h
    · cases h
    split at h
    · rename_i b t' hok
      obtain ⟨n, hn, rfl⟩ := release_lock_ok hok
      rw [lock_of_eq hn] at h
      rw [← Option.some.inj h]
      exact .released
    · rw [← Option.some.inj h]
      exact .not_released
  | list_locks now auth =>
    simp only [step] at h
    split at h
    · cases h
    · rw [← Option.some.inj h]
      exact .list_locks
  | tick clock =>
    simp only [step] at h
    split at h
    · cases h
    · rw [← Option.some.inj h]
      exact .tick (by omega)
  | other db' =>
    simp only [step] at h
    split at h
    · rw [← Option.some.inj h]
      exact .other ‹_›
    · cases h

/-- What holds in every state. -/
structure Base (lower : String → String) (s : Sys) : Prop where
  keyed : Keyed key s.locks
  /-- The holder is an agent of the team. -/
  holders : ∀ l ∈ s.locks, ∃ x ∈ s.db.agents, x.id = l.holder_agent_id ∧ x.team_id = l.team_id
  /-- The name is one that was asked for. -/
  named : ∀ l ∈ s.locks, ∃ name, normalize_name lower name = .ok l.name
  /-- A lease that has not run out is the row's. -/
  leases : ∀ g ∈ s.leases, s.clock ≤ g.until_ →
    ∃ l ∈ s.locks, key l = g.lock ∧ holder l = g.window ∧ l.expires_at = g.until_

/-- At the start there are neither locks nor leases. -/
theorem start_base {db : Db} : Base lower (Sys.start db) :=
  ⟨Keyed.nil _, fun _ h => absurd h List.not_mem_nil, fun _ h => absurd h List.not_mem_nil,
    fun _ h => absurd h List.not_mem_nil⟩

theorem is_lease_iff : is_lease k w g = true ↔ g.lock = k ∧ g.window = w := by
  simp [is_lease]

/-- A lease that is left is of another lock or another window. -/
theorem mem_other_leases {l : List Lease} (h : g ∈ delete (is_lease k w) l) :
    g ∈ l ∧ (g.lock = k → g.window ≠ w) := by
  obtain ⟨hg, hno⟩ := mem_delete.mp h
  refine ⟨hg, fun hk hw => ?_⟩
  rw [is_lease_iff.mpr ⟨hk, hw⟩] at hno
  cases hno

/-- The lock that may be taken has run out, or is the window's own. -/
theorem may_take_iff : may_take now auth l = true ↔ l.expires_at < now ∨ holder l = window_of auth := by
  rw [may_take, Bool.or_eq_true, decide_eq_true_eq, holds_lock_iff]

/-- After an acquisition every lease that runs is still a lock. -/
theorem acquired_leases (hs : Base lower s) (hclock : now ≤ s.clock)
    (htake : ∀ l ∈ s.locks, key l = (auth.team_id, n) → may_take now auth l = true) :
    ∀ g ∈ (⟨(auth.team_id, n), window_of auth, now + secs ttl⟩ : Lease) ::
      delete (is_lease (auth.team_id, n) (window_of auth)) s.leases, s.clock ≤ g.until_ →
      ∃ l ∈ upsert (at_name auth.team_id n) (taken_lock now auth ttl purpose) (new_lock now auth n ttl purpose)
        s.locks, key l = g.lock ∧ holder l = g.window ∧ l.expires_at = g.until_ := by
  intro g hg hlive
  rcases List.mem_cons.mp hg with rfl | hg
  · exact acquired_mem
  · obtain ⟨hold, hother⟩ := mem_other_leases hg
    obtain ⟨l, hl, hkey, hholder, huntil⟩ := hs.leases g hold hlive
    by_cases hk : key l = (auth.team_id, n)
    · -- somebody else's lease of this lock would have run out
      rcases may_take_iff.mp (htake l hl hk) with hrun | hmine
      · omega
      · exact absurd (hholder.symm.trans hmine) (hother (hkey.symm.trans hk))
    · refine ⟨l, mem_upsert_of_not hl ?_, hkey, hholder, huntil⟩
      rw [← Bool.not_eq_true, at_name_iff]
      exact hk

/-- **Each lease that runs is a lock**, after every step. -/
theorem Base.step (hs : Base lower s) (h : step lower s a = some t) : Base lower t := by
  cases step_did hs.keyed h with
  | @acquired now auth name n ttl_seconds purpose hclock hn hguard hagent htake =>
    refine ⟨acquired_keyed hs.keyed, fun l hl => ?_, fun l hl => ?_, acquired_leases hs hclock htake⟩
    · rcases mem_acquired hl with ⟨hold, -⟩ | ⟨hkey, hholder, -⟩
      · exact hs.holders l hold
      · obtain ⟨x, hx, hid⟩ := List.any_eq_true.mp hagent
        simp only [Bool.and_eq_true, beq_iff_eq] at hid
        exact ⟨x, hx, hid.1.trans (congrArg Prod.fst hholder).symm, hid.2.trans (congrArg Prod.fst hkey).symm⟩
    · rcases mem_acquired hl with ⟨hold, -⟩ | ⟨hkey, -⟩
      · exact hs.named l hold
      · rw [show l.name = n from congrArg Prod.snd hkey]
        exact ⟨name, hn⟩
  | @released now auth name n =>
    refine ⟨hs.keyed.delete _, fun l hl => hs.holders l (mem_delete.mp hl).1,
      fun l hl => hs.named l (mem_delete.mp hl).1, fun g hg hlive => ?_⟩
    obtain ⟨hold, hother⟩ := mem_other_leases hg
    obtain ⟨l, hl, hkey, hholder, huntil⟩ := hs.leases g hold hlive
    refine ⟨l, mem_released.mpr ⟨hl, fun hk hw => ?_⟩, hkey, hholder, huntil⟩
    exact hother (hkey.symm.trans hk) (hholder.symm.trans hw)
  | refused _ => exact hs
  | not_released => exact hs
  | list_locks => exact hs
  | tick hle => exact ⟨hs.keyed, hs.holders, hs.named, fun g hg hlive => hs.leases g hg (le_trans hle hlive)⟩
  | other hagents =>
    refine ⟨hs.keyed, fun l hl => ?_, hs.named, hs.leases⟩
    obtain ⟨x, hx, hid, hteam⟩ := hs.holders l hl
    obtain ⟨y, hy, hxy⟩ := List.any_eq_true.mp (List.all_eq_true.mp hagents x hx)
    simp only [Bool.and_eq_true, beq_iff_eq] at hxy
    exact ⟨y, hy, hxy.1.trans hid, hxy.2.trans hteam⟩

/-! ## Leases exclude, and last -/

/-- Two leases that run on one lock are one window's. -/
theorem Base.exclusive (hs : Base lower s) {g' : Lease} (hg : g ∈ s.leases) (hg' : g' ∈ s.leases)
    (hlock : g.lock = g'.lock) (hlive : s.clock ≤ g.until_) (hlive' : s.clock ≤ g'.until_) :
    g.window = g'.window := by
  obtain ⟨l, hl, hkey, hholder, -⟩ := hs.leases g hg hlive
  obtain ⟨l', hl', hkey', hholder', -⟩ := hs.leases g' hg' hlive'
  -- the lock is one row
  have heq : l = l' := hs.keyed.eq hl hl' (hkey.trans (hlock.trans hkey'.symm))
  rw [← hholder, ← hholder', heq]

/-- A lock that runs keeps its holder, unless that holder acts. -/
theorem kept (hs : Base lower s) (h : step lower s a = some t) (hl : l ∈ s.locks)
    (hlive : s.clock ≤ l.expires_at) : (∃ l' ∈ t.locks, key l' = key l ∧ holder l' = holder l) ∨
      ∃ auth, caller a = some auth ∧ window_of auth = holder l := by
  cases step_did hs.keyed h with
  | @acquired now auth name n ttl_seconds purpose hclock hn hguard hagent htake =>
    by_cases hk : key l = (auth.team_id, n)
    · rcases may_take_iff.mp (htake l hl hk) with hrun | hmine
      · omega
      · exact Or.inr ⟨auth, rfl, hmine.symm⟩
    · refine Or.inl ⟨l, mem_upsert_of_not hl ?_, rfl, rfl⟩
      rw [← Bool.not_eq_true, at_name_iff]
      exact hk
  | @released now auth name n =>
    by_cases hmine : holder l = window_of auth
    · exact Or.inr ⟨auth, rfl, hmine.symm⟩
    · exact Or.inl ⟨l, mem_released.mpr ⟨hl, fun _ => hmine⟩, rfl, rfl⟩
  | refused _ | not_released | list_locks | tick _ | other _ => exact Or.inl ⟨l, hl, rfl, rfl⟩

/-! ## Whose purpose it is -/

/-- A takeover that hands on a purpose its new holder never gave. -/
theorem inherits_iff : inherits now auth k s = true ↔
    ∃ l ∈ s.locks, key l = k ∧ holder l ≠ window_of auth ∧ l.expires_at < now ∧
      ∃ p, l.purpose = some p ∧ (k, window_of auth, p) ∉ s.given := by
  simp only [inherits, List.any_eq_true, Bool.and_eq_true, beq_iff_eq, Bool.not_eq_true', decide_eq_true_eq,
    Option.any_eq_true, List.contains_eq_mem, and_assoc, ← Bool.not_eq_true,
    holds_lock_iff, ne_eq]

/-- A step keeps every purpose its holder's exactly when it inherits none. -/
theorem purposeful_acquired (hs : Purposeful s) {leases : List Lease}
    (htake : ∀ l ∈ s.locks, key l = (auth.team_id, n) → may_take now auth l = true) :
    (purpose.isNone && inherits now auth (auth.team_id, n) s) = false ↔ Purposeful { s with
      locks := upsert (at_name auth.team_id n) (taken_lock now auth ttl purpose) (new_lock now auth n ttl purpose)
        s.locks
      leases := leases
      given := (purpose.toList.map fun p => ((auth.team_id, n), window_of auth, p)) ++ s.given } := by
  constructor
  · intro hc l hl p hp
    refine List.mem_append.mpr ?_
    rcases mem_acquired hl with ⟨hold, hkey⟩ | ⟨hkey, hholder, -, hpurpose⟩
    · exact Or.inr (hs l hold p hp)
    · rw [hkey, hholder]
      cases purpose with
      | some q =>
        -- it is the purpose just given
        have hq : p = q := by
          rcases hpurpose with heq | ⟨l₀, -, -, heq⟩ <;> rw [hp] at heq <;> simpa using heq
        exact Or.inl (by simp [hq])
      | none =>
        rcases hpurpose with heq | ⟨l₀, hl₀, hkey₀, heq⟩
        · rw [hp] at heq
          cases heq
        · rw [hp, Option.none_or] at heq
          refine Or.inr ?_
          rcases may_take_iff.mp (htake l₀ hl₀ hkey₀) with hrun | hmine
          · by_contra hnot
            by_cases hmine : holder l₀ = window_of auth
            · have hin := hs l₀ hl₀ p heq.symm
              rw [hkey₀, hmine] at hin
              exact hnot hin
            · have hinh := inherits_iff.mpr ⟨l₀, hl₀, hkey₀, hmine, hrun, p, heq.symm, hnot⟩
              rw [hinh] at hc
              cases hc
          · have hin := hs l₀ hl₀ p heq.symm
            rw [hkey₀, hmine] at hin
            exact hin
  · intro hpost
    by_contra hc
    rw [Bool.not_eq_false, Bool.and_eq_true, Option.isNone_iff_eq_none] at hc
    obtain ⟨rfl, hinh⟩ := hc
    obtain ⟨l, hl, hkey, -, -, p, hp, hnot⟩ := inherits_iff.mp hinh
    have hany : s.locks.any (at_name auth.team_id n) = true := List.any_eq_true.mpr ⟨l, hl, at_name_iff.mpr hkey⟩
    have hmem : taken_lock now auth ttl none l ∈ upsert (at_name auth.team_id n) (taken_lock now auth ttl none)
        (new_lock now auth n ttl none) s.locks := by
      unfold upsert
      rw [if_pos hany]
      exact mem_update_of_pos hl (at_name_iff.mpr hkey)
    have hin := hpost _ hmem p (by simp [taken_lock, hp])
    rw [taken_lock_key, taken_lock_holder, hkey] at hin
    exact hnot (by simpa using hin)

/-- Which acquire would inherit, as far as it gets to the table. -/
def inherits_nothing (lower : String → String) (s : Sys) : Act → Bool
  | .acquire_lock now auth name ttl_seconds purpose =>
    as_it_acts lower s (.acquire_lock now auth name ttl_seconds purpose)
  | _ => true

/-- That is the only step after which a lock shows such a purpose. -/
theorem purposeful_step (hs : Base lower s) (hp : Purposeful s) (h : step lower s a = some t) :
    inherits_nothing lower s a = true ↔ Purposeful t := by
  cases step_did hs.keyed h with
  | @acquired now auth name n ttl_seconds purpose hclock hn hguard hagent htake =>
    rw [← purposeful_acquired hp htake]
    simp only [inherits_nothing, as_it_acts, hn, hguard, hagent, Bool.true_and, Bool.not_eq_true']
  | @refused now auth name ttl_seconds purpose hno =>
    refine iff_of_true ?_ hp
    simp only [inherits_nothing, as_it_acts]
    split
    · rename_i n u hn hguard
      rw [Bool.not_eq_true']
      by_contra hc
      rw [Bool.not_eq_false, Bool.and_eq_true, Bool.and_eq_true] at hc
      -- what is inherited has run out, and would not be refused
      obtain ⟨l, hl, hkey, hfree⟩ := hno n hn hguard hc.1.1
      obtain ⟨l', hl', hkey', -, hrun, -⟩ := inherits_iff.mp hc.2
      rw [hs.keyed.eq hl hl' (hkey.trans hkey'.symm), may_take, decide_eq_true hrun, Bool.true_or] at hfree
      cases hfree
    · rfl
  | released => exact iff_of_true rfl fun l hl p hpp => hp l (mem_delete.mp hl).1 p hpp
  | not_released | list_locks | tick _ | other _ => exact iff_of_true rfl hp

/-! ## What is listed -/

/-- A lock is listed while it runs, and not at the instant it ends. -/
theorem listed_iff (hs : Base lower s) : (∃ i ∈ list_locks now auth s.db s.locks, i.name = n) ↔
      ∃ l ∈ s.locks, key l = (auth.team_id, n) ∧ now < l.expires_at := by
  simp only [list_locks, List.mem_filterMap, List.mem_filter, Bool.and_eq_true, beq_iff_eq, decide_eq_true_eq]
  constructor
  · rintro ⟨i, ⟨l, ⟨hl, hteam, hlive⟩, hinfo⟩, rfl⟩
    obtain ⟨x, -, rfl⟩ := Option.map_eq_some_iff.mp hinfo
    exact ⟨l, hl, Prod.ext hteam rfl, hlive⟩
  · rintro ⟨l, hl, hkey, hlive⟩
    obtain ⟨x, hx, hid, -⟩ := hs.holders l hl
    -- the holder has a name
    have hfound : ∃ y, one (fun a => a.id == l.holder_agent_id) s.db.agents = some y := by
      rw [← Option.isSome_iff_exists, one, List.find?_isSome]
      exact ⟨x, hx, by simpa using hid⟩
    obtain ⟨y, hy⟩ := hfound
    obtain ⟨i, hinfo, hname⟩ : ∃ i, lock_info s.db l = some i ∧ i.name = l.name := by
      rw [lock_info, hy]
      exact ⟨_, rfl, rfl⟩
    exact ⟨i, ⟨l, ⟨hl, congrArg Prod.fst hkey, hlive⟩, hinfo⟩, hname.trans (congrArg Prod.snd hkey)⟩

/-- An acquire of a window that does not hold the lock is refused until it has run out. -/
theorem refused_iff (hs : Base lower s) {name : String}
    (hn : normalize_name lower name = .ok n) (hguard : Sessions.guard now auth s.db = .ok ())
    (hother : ∀ l ∈ s.locks, key l = (auth.team_id, n) → holder l ≠ window_of auth) :
    refused lower now auth name s.db s.locks ↔
      ∃ l ∈ s.locks, key l = (auth.team_id, n) ∧ now ≤ l.expires_at := by
  have hfree : ∀ l ∈ s.locks, key l = (auth.team_id, n) →
      (may_take now auth l = false ↔ now ≤ l.expires_at) := by
    intro l hl hkey
    rw [← Bool.not_eq_true, may_take_iff, not_or, not_lt]
    exact and_iff_left (hother l hl hkey)
  constructor
  · intro hrefused
    obtain ⟨n', hn', -, ⟨-, -, l, hl, hkey, htake⟩ | ⟨hb, -⟩⟩ := acquire_lock_ok hs.keyed (hrefused none none)
    · rw [hn, Except.ok.injEq] at hn'
      rw [← hn'] at hkey
      exact ⟨l, hl, hkey, (hfree l hl hkey).mp htake⟩
    · cases hb
  · rintro ⟨l, hl, hkey, hlive⟩ ttl_seconds purpose
    have hone : one (at_name auth.team_id n) s.locks = some l :=
      one_eq_some hl (at_name_iff.mpr hkey) fun x hx hpx =>
        hs.keyed.eq hx hl ((at_name_iff.mp hpx).trans hkey.symm)
    simp only [acquire_lock, bind_eq_ok]
    refine ⟨n, hn, (), hguard, ?_⟩
    rw [hone, Option.any_some, (hfree l hl hkey).mpr hlive]
    rfl

/-- **The list shows what would be refused** exactly when no lock of the team runs out at the
instant of the listing. -/
theorem agrees_iff (hs : Base lower s) :
    Agrees lower now auth s.db s.locks ↔ ∀ l ∈ s.locks, l.team_id = auth.team_id → l.expires_at ≠ now := by
  constructor
  · intro hagree l hl hteam hnow
    obtain ⟨name, hname⟩ := hs.named l hl
    obtain ⟨x, hx, hid, hxteam⟩ := hs.holders l hl
    -- another window of the holder's asks for the lock
    let by_ : AuthCtx :=
      { auth with
        agent_id := l.holder_agent_id, session := (holder l).2 ++ "'", session_id := none
        session_epoch := none }
    have hguard : Sessions.guard now by_ s.db = .ok () := rfl
    have hagent : is_agent by_ s.db = true :=
      List.any_eq_true.mpr ⟨x, hx, by simp [by_, hid, hxteam, hteam]⟩
    have hother : ∀ l' ∈ s.locks, key l' = (auth.team_id, l.name) → holder l' ≠ window_of by_ := by
      intro l' hl' hkey hw
      rw [hs.keyed.eq hl' hl (hkey.trans (Prod.ext hteam.symm rfl))] at hw
      have hlen := congrArg (fun w : Uuid × String => w.2.toList.length) hw
      simp [by_, window_of, String.toList_append] at hlen
    obtain ⟨l', hl', hkey, hlive⟩ := (listed_iff hs).mp ((hagree by_ name l.name rfl hname hguard hagent hother).mp
      ((refused_iff hs hname hguard hother).mpr ⟨l, hl, Prod.ext hteam rfl, hnow.ge⟩))
    rw [hs.keyed.eq hl' hl (hkey.trans (Prod.ext hteam.symm rfl))] at hlive
    omega
  · intro hnone by_ name n hteam hn hguard hagent hother
    rw [listed_iff hs, refused_iff hs hn hguard (by rwa [hteam]), hteam]
    constructor
    · rintro ⟨l, hl, hkey, hle⟩
      have hne := hnone l hl (congrArg Prod.fst hkey)
      exact ⟨l, hl, hkey, by omega⟩
    · rintro ⟨l, hl, hkey, hlt⟩
      exact ⟨l, hl, hkey, hlt.le⟩

end Steps

/-! ## The law -/

section Main

variable {lower : String → String} {db : Db} {tr : List (Trans Sys Act)} {s : Sys}

/-- Both conditions are on the state before the step. -/
theorem as_it_acts_iff {a : Act} : as_it_acts lower s a = true ↔
    inherits_nothing lower s a = true ∧ ∀ now auth, a = .list_locks now auth →
      ∀ l ∈ s.locks, l.team_id = auth.team_id → l.expires_at ≠ now := by
  cases a with
  | list_locks now auth =>
    have hlisted : as_it_acts lower s (.list_locks now auth) = true ↔
        ∀ l ∈ s.locks, l.team_id = auth.team_id → l.expires_at ≠ now := by
      simp only [as_it_acts, List.all_eq_true, Bool.or_eq_true, bne_iff_ne, ne_eq, ← imp_iff_not_or]
    rw [hlisted]
    constructor
    · intro h
      refine ⟨rfl, fun now' auth' hact => ?_⟩
      obtain ⟨rfl, rfl⟩ := Act.list_locks.inj hact
      exact h
    · exact fun h => h.2 now auth rfl
  | acquire_lock now auth name ttl_seconds purpose => simp [inherits_nothing]
  | _ => simp [as_it_acts, inherits_nothing]

/-- **Locks exclude and are reported as they act** in a run of any windows exactly when nobody
inherits a purpose and no lock runs out at the instant it is listed. That leases exclude each
other and last holds of every run. -/
theorem locks_are_reported_as_they_act (hrun : Run (Rel (step lower)) (Sys.start db) tr s) :
    (∀ e ∈ tr, as_it_acts lower e.pre e.act = true) ↔ ∀ e ∈ tr, LockLaw lower e := by
  have hbase : ∀ e ∈ tr, Base lower e.pre ∧ Base lower e.post := fun e he =>
    ⟨hrun.invariant_pre (I := Base lower) (C := fun _ _ => True) start_base (fun _ _ _ hs _ hr => hs.step hr)
        (fun _ _ => trivial) e he,
      hrun.invariant_post (I := Base lower) (C := fun _ _ => True) start_base (fun _ _ _ hs _ hr => hs.step hr)
        (fun _ _ => trivial) e he⟩
  have hpurpose := hrun.invariant_iff (C := fun s a => inherits_nothing lower s a = true) (B := Base lower)
    (I := Purposeful) start_base (fun _ h => absurd h List.not_mem_nil) (fun _ _ _ hs hr => hs.step hr)
    fun _ _ _ hs hp hr => purposeful_step hs hp hr
  constructor
  · intro hC e he
    have hpost := hpurpose.mp (fun e he => (as_it_acts_iff.mp (hC e he)).1) e he
    obtain ⟨hpre, hafter⟩ := hbase e he
    exact ⟨fun g hg g' hg' => hafter.exclusive hg hg', fun l hl => kept hpre (hrun.rel e he) hl,
      fun now auth hact => (agrees_iff hpre).mpr ((as_it_acts_iff.mp (hC e he)).2 now auth hact), hpost⟩
  · intro hlaw e he
    refine as_it_acts_iff.mpr ⟨hpurpose.mpr (fun e he => (hlaw e he).purpose) e he, fun now auth hact => ?_⟩
    exact (agrees_iff (hbase e he).1).mp ((hlaw e he).listed now auth hact)

end Main

/-! ## A deploy lock -/

/-- Ada and Bob. -/
def crew : Db := pair .postgres

/-- Ada takes a lock and extends it, Bob is refused, sees it listed, and takes it over, with a
purpose of his own, when it has run out. -/
def handover : List Act :=
  [.acquire_lock 0 ada_at_desk "Deploy" (some 5) (some "rolling out"), .acquire_lock 0 ada_at_desk "deploy" (some 10) none,
    .acquire_lock 0 bob_in_hall "deploy" none none, .list_locks 0 bob_in_hall, .tick (secs 11),
    .acquire_lock (secs 11) bob_in_hall "deploy" none (some "rolling back"), .release_lock (secs 11) ada_at_desk "deploy"]

theorem handover_run : (exec (step to_lowercase) (Sys.start crew) handover).isSome = true := by decide

/-- The run, and where it ends. -/
def handover_end : List (Trans Sys Act) × Sys :=
  (exec (step to_lowercase) (Sys.start crew) handover).get handover_run

theorem locks_are_reported_as_they_act_handover :
    handover_end.2.locks.map (fun l => (holder l, l.purpose)) = [((2, "hall"), some "rolling back")] ∧
      ∀ e ∈ handover_end.1, LockLaw to_lowercase e :=
  ⟨by decide, (locks_are_reported_as_they_act (exec_get handover_run)).mp (by decide)⟩

/-- Bob lists the locks at the very instant Ada's runs out, and takes it over after that, without
a purpose. -/
def inheritance : List Act :=
  [.acquire_lock 0 ada_at_desk "deploy" (some 5) (some "rolling out"), .tick (secs 6), .list_locks (secs 5) bob_in_hall,
    .acquire_lock (secs 6) bob_in_hall "deploy" none none]

theorem inheritance_run : (exec (step to_lowercase) (Sys.start crew) inheritance).isSome = true := by
  decide

/-- The run, and where it ends. -/
def inheritance_end : List (Trans Sys Act) × Sys :=
  (exec (step to_lowercase) (Sys.start crew) inheritance).get inheritance_run

/-- The transition in which he lists them. -/
def listing : Trans Sys Act := inheritance_end.1.get ⟨2, by decide⟩

theorem listing_base : Base to_lowercase listing.post :=
  (exec_get inheritance_run).invariant_post (I := Base to_lowercase) (C := fun _ _ => True) start_base
    (fun _ _ _ hs _ hr => hs.step hr) (fun _ _ => trivial) listing (List.get_mem _ _)

theorem listing_runs_out :
    ∃ l ∈ listing.post.locks, l.team_id = bob_in_hall.team_id ∧ l.expires_at = secs 5 := by decide

theorem inheritance_inherits : ∃ l ∈ inheritance_end.2.locks, l.purpose = some "rolling out" ∧
    (key l, holder l, "rolling out") ∉ inheritance_end.2.given := by decide

/-- At the instant of expiry the lock is not listed, and Bob would be refused it; later he has it,
for the purpose that Ada gave. -/
theorem locks_are_not_reported_as_they_act :
    Run (Rel (step to_lowercase)) (Sys.start crew) inheritance_end.1 inheritance_end.2 ∧
      list_locks (secs 5) bob_in_hall listing.post.db listing.post.locks = [] ∧
      ¬ Agrees to_lowercase (secs 5) bob_in_hall listing.post.db listing.post.locks ∧
      inheritance_end.2.locks.map (fun l => (holder l, l.purpose)) = [((2, "hall"), some "rolling out")] ∧
      ¬ Purposeful inheritance_end.2 ∧ ¬ ∀ e ∈ inheritance_end.1, LockLaw to_lowercase e := by
  refine ⟨exec_get inheritance_run, by decide, fun hagree => ?_, by decide, fun hp => ?_,
    fun hlaw => ?_⟩
  · obtain ⟨l, hl, hteam, hnow⟩ := listing_runs_out
    exact (agrees_iff listing_base).mp hagree l hl hteam hnow
  · obtain ⟨l, hl, hpurpose, hnot⟩ := inheritance_inherits
    exact hnot (hp l hl _ hpurpose)
  · have hact : listing.act = .list_locks (secs 5) bob_in_hall := by rfl
    have hagree := (hlaw listing (List.get_mem _ _)).listed (secs 5) bob_in_hall hact
    obtain ⟨l, hl, hteam, hnow⟩ := listing_runs_out
    exact (agrees_iff listing_base).mp hagree l hl hteam hnow

end CrewSync.Locks
