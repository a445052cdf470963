/-
`auth.rs`: from a bearer token and two headers to the `AuthCtx` a request
carries.

Two credentials exist. An **agent token** (`acs_…`) says which agent is calling;
the window is then whatever label the header asserts. A **session credential**
(`acss_…`) is a row of `agent_sessions` and proves the window as well: the
context it resolves to carries that row's id and the epoch the row had when the
request was authenticated. Nothing re-reads the context afterwards, so a request
keeps the epoch it was admitted with for as long as it is in flight.

SHA-256 is not code of this repository; it enters as the parameter `sha256`, and
nothing here uses more of it than that it is a function.
-/
import CrewSync.Error
import CrewSync.Schema
import CrewSync.Trims

set_option autoImplicit false

namespace CrewSync.Auth

open Schema Rows

/-- `TOKEN_PREFIX`. -/
def TOKEN_PREFIX : String := "acs_"

/-- `SESSION_TOKEN_PREFIX`. -/
def SESSION_TOKEN_PREFIX : String := "acss_"

/-- `SESSION_TTL_SECS` and `MAX_SESSION_TTL_SECS`. -/
def SESSION_TTL_SECS : ℤ := 24 * 3600

def MAX_SESSION_TTL_SECS : ℤ := 24 * 3600

/-- `MAX_SESSION_BYTES`. -/
def MAX_SESSION_BYTES : ℕ := 64

/-- `AuthError`, without the throttling of the rate limiter. -/
inductive AuthError where
  | Missing
  | Invalid
  | Disabled
  | BadSession (why : String)
  | SessionExpired
  | SessionMismatch (proven claimed : String)
  | StaleEpoch (current sent : ℕ)
  deriving DecidableEq, Repr

/-! ## Labels -/

/-- `char::is_whitespace`: the Unicode property `White_Space`. -/
def is_whitespace (c : Char) : Bool :=
  let n := c.toNat
  (9 ≤ n && n ≤ 13) || n == 0x20 || n == 0x85 || n == 0xA0 || n == 0x1680 ||
    (0x2000 ≤ n && n ≤ 0x200A) || n == 0x2028 || n == 0x2029 || n == 0x202F ||
    n == 0x205F || n == 0x3000

/-- `str::trim`. -/
def trim (s : String) : String := String.ofList (Trims.trim is_whitespace s.toList)

theorem trim_toList (s : String) : (trim s).toList = Trims.trim is_whitespace s.toList :=
  String.toList_ofList

/-- `str::to_lowercase`, exact on every character whose lower case is ASCII: the
ASCII letters and the Kelvin sign. Any other character stays outside ASCII, as
its real lower case does, so that a label is accepted just where it is with the
lower case of the whole of Unicode (`Addresses.normalize_session_table`); only the
text of a refusal can differ. -/
def to_lowercase (s : String) : String :=
  String.ofList (s.toList.map fun c => if c.toNat == 0x212A then 'k' else c.toLower)

/-- `char::is_control`. -/
def is_control (c : Char) : Bool := c.toNat < 32 || (127 ≤ c.toNat && c.toNat ≤ 159)

/-- The checks of `normalize_session`. They run in this order, so the first that
fails is the one the caller is told about. -/
def check_session (label : String) : Except String String :=
  if label.isEmpty then .ok ""
  else if label.utf8ByteSize > MAX_SESSION_BYTES then
    .error (s!"is {label.utf8ByteSize} bytes; the limit is {MAX_SESSION_BYTES}. Use a short label, " ++
      "such as the repository name")
  else if label.toList.any fun c => c.toNat ≥ 128 then .error "must be ASCII"
  else if label.toList.any is_control then .error "must not contain control characters"
  else if label.toList.any fun c => c == '$' || c == '\x7b' || c == '\x7d' then
    .error ("looks like an unexpanded variable. Set the variable, or use a form with a fallback " ++
      "such as $\x7bBUS_SESSION:-\x7d so an unset value sends nothing at all")
  else if label.toList.any fun c => c == '/' then
    .error "must not contain '/', which separates agent from session when addressing a message"
  else .ok label

/-- `normalize_session`. -/
def normalize_session (raw : String) : Except String String := check_session (to_lowercase (trim raw))

/-! ## Headers -/

/-- The two headers `require_bearer` reads besides the token itself. -/
structure Headers where
  /-- `X-Crew-Session`. -/
  session : Option String := none
  /-- `X-Crew-Epoch`. -/
  epoch : Option String := none
  deriving DecidableEq, Repr

/-- `HeaderValue::to_str`: visible ASCII and the tab, or nothing. -/
def to_str (v : String) : Option String :=
  if v.toList.all fun c => (32 ≤ c.toNat && c.toNat < 127) || c.toNat == 9 then some v else none

/-- The digits of `str::parse::<i64>`, most significant first. -/
def parse_digits : List Char → ℕ → Option ℕ
  | [], acc => some acc
  | c :: cs, acc => if c.isDigit then parse_digits cs (acc * 10 + (c.toNat - 48)) else none

/-- `i64::MAX`. -/
def I64_MAX : ℕ := 9223372036854775807

/-- `str::parse::<i64>`: an optional sign, at least one digit, no overflow. -/
def parse_i64 (s : String) : Option ℤ :=
  match s.toList with
  | '-' :: c :: cs =>
    (parse_digits (c :: cs) 0).bind fun n => if n ≤ I64_MAX + 1 then some (-(n : ℤ)) else none
  | '+' :: c :: cs =>
    (parse_digits (c :: cs) 0).bind fun n => if n ≤ I64_MAX then some (n : ℤ) else none
  | c :: cs => (parse_digits (c :: cs) 0).bind fun n => if n ≤ I64_MAX then some (n : ℤ) else none
  | [] => none

/-- `epoch_from_headers`. -/
def epoch_from_headers (h : Headers) : Except AuthError (Option ℕ) :=
  match h.epoch with
  | none => .ok none
  | some value =>
    match ((to_str value).map trim).filter fun v => !v.isEmpty with
    | none => .error (.BadSession "x-crew-epoch must be ASCII")
    | some raw =>
      match parse_i64 raw with
      | none => .error (.BadSession "x-crew-epoch must be a positive integer")
      | some epoch =>
        if epoch ≤ 0 then .error (.BadSession "x-crew-epoch must be a positive integer")
        else .ok (some epoch.toNat)

/-- `session_from_headers`. -/
def session_from_headers (h : Headers) : Except AuthError String :=
  match h.session with
  | none => .ok ""
  | some value =>
    match to_str value with
    | none => .error (.BadSession "must be ASCII")
    | some raw =>
      match normalize_session raw with
      | .ok label => .ok label
      | .error why => .error (.BadSession why)

/-! ## Tokens -/

section Tokens

variable (sha256 : String → String) {now : ℕ} {raw : String} {db : Db} {ctx : AuthCtx}

/-- `hash_token`. -/
def hash_token (raw : String) : String := sha256 (trim raw)

/-- `generate_session_token`: the 32 random bytes in hexadecimal, after the
prefix. -/
def generate_session_token (entropy : String) : String := SESSION_TOKEN_PREFIX ++ entropy

/-- `str::starts_with`. -/
def starts_with (pre s : String) : Bool := pre.toList.isPrefixOf s.toList

/-- The row of `agent_sessions` a raw credential belongs to. -/
def session_of_token (raw : String) (db : Db) : Option AgentSession :=
  one (fun s => s.token_hash == hash_token sha256 raw) db.agent_sessions

/-- `resolve_session_token`. The join, then the checks in the order the source
makes them. -/
def resolve_session_token (now : ℕ) (raw : String) (db : Db) : Except AuthError AuthCtx :=
  match session_of_token sha256 raw db with
  | none => .error .Invalid
  | some s =>
    match one (fun t => t.id == s.parent_token) db.api_tokens,
        one (fun a => a.id == s.agent_id) db.agents with
    | some t, some a =>
      match one (fun tm => tm.id == a.team_id) db.teams with
      | none => .error .Invalid
      | some tm =>
        if a.disabled_at.isSome then .error .Disabled
        else if t.revoked_at.isSome || s.revoked_at.isSome then .error .Invalid
        else if s.expires_at ≤ now then .error .SessionExpired
        else .ok
          { agent_id := a.id, agent_name := a.name, team_id := tm.id, team_slug := tm.slug,
            session := s.label, session_id := some s.id, session_epoch := some s.epoch,
            token_id := none }
    | _, _ => .error .Invalid

/-- `resolve_token`. -/
def resolve_token (now : ℕ) (raw : String) (db : Db) : Except AuthError AuthCtx :=
  if starts_with SESSION_TOKEN_PREFIX raw then resolve_session_token sha256 now raw db
  else if !starts_with TOKEN_PREFIX raw then .error .Invalid
  else
    match one (fun t => t.token_hash == hash_token sha256 raw && t.revoked_at.isNone)
        db.api_tokens with
    | none => .error .Invalid
    | some t =>
      match one (fun a => a.id == t.agent_id) db.agents with
      | none => .error .Invalid
      | some a =>
        match one (fun tm => tm.id == a.team_id) db.teams with
        | none => .error .Invalid
        | some tm =>
          if a.disabled_at.isSome then .error .Disabled
          else .ok
            { agent_id := a.id, agent_name := a.name, team_id := tm.id, team_slug := tm.slug,
              session := "", session_id := none, session_epoch := none, token_id := some t.id }

/-- `require_bearer`, from the token on: the headers first, because a malformed
one is refused before any lookup. -/
def require_bearer (now : ℕ) (raw : String) (h : Headers) (db : Db) :
    Except AuthError AuthCtx :=
  match session_from_headers h, epoch_from_headers h with
  | .error e, _ => .error e
  | .ok _, .error e => .error e
  | .ok session, .ok epoch =>
    match resolve_token sha256 now raw db with
    | .error e => .error e
    | .ok ctx =>
      match ctx.session_id with
      | none => .ok { ctx with session := session }
      | some _ =>
        if !session.isEmpty && session != ctx.session then
          .error (.SessionMismatch ctx.session session)
        else
          match ctx.session_epoch, epoch with
          | some current, some sent =>
            if sent < current then .error (.StaleEpoch current sent) else .ok ctx
          | _, _ => .ok ctx

/-- The bookkeeping of an authentication: `last_used_at`, at most once a minute
for a session, and skipped for a session row that is locked. -/
def touch (now : ℕ) (locked : Uuid → Bool) (ctx : AuthCtx) (db : Db) : Db :=
  match ctx.session_id, ctx.token_id with
  | some sid, _ =>
    let due : AgentSession → Bool := fun s => s.last_used_at.all fun u => u + secs 60 < now
    { db with
      agent_sessions := update (fun s => s.id == sid && !locked s.id && due s)
        (fun s => { s with last_used_at := some now }) db.agent_sessions }
  | none, some tid =>
    { db with
      api_tokens := update (fun t => t.id == tid)
        (fun t => { t with last_used_at := some now }) db.api_tokens }
  | none, none => db

/-! ## What a context proves -/

/-- A context with a session was read off a row that was live at that moment:
neither revoked nor expired, under a parent token that was not revoked, and the
context carries the row's own label and epoch. -/
theorem resolve_session_token_ok (h : resolve_session_token sha256 now raw db = .ok ctx) :
    ∃ s ∈ db.agent_sessions, s.token_hash = hash_token sha256 raw ∧
      s.revoked_at = none ∧ now < s.expires_at ∧
      (∃ t ∈ db.api_tokens, t.id = s.parent_token ∧ t.revoked_at = none) ∧
      ctx.agent_id = s.agent_id ∧ ctx.session = s.label ∧ ctx.session_id = some s.id ∧
      ctx.session_epoch = some s.epoch ∧ ctx.token_id = none := by
  unfold resolve_session_token at h
  split at h
  · cases h
  rename_i s hs
  split at h
  swap
  · cases h
  rename_i t a ht ha
  split at h
  · cases h
  rename_i tm htm
  by_cases hdis : a.disabled_at.isSome
  · rw [if_pos hdis] at h; exact nomatch h
  by_cases hrev : t.revoked_at.isSome || s.revoked_at.isSome
  · rw [if_neg hdis, if_pos hrev] at h; exact nomatch h
  by_cases hexp : s.expires_at ≤ now
  · rw [if_neg hdis, if_neg hrev, if_pos hexp] at h; exact nomatch h
  rw [if_neg hdis, if_neg hrev, if_neg hexp] at h
  simp only [Bool.or_eq_true, not_or, Option.not_isSome_iff_eq_none] at hrev
  have haid : a.id = s.agent_id := by simpa using pos_of_one ha
  have htid : t.id = s.parent_token := by simpa using pos_of_one ht
  have hh : s.token_hash = hash_token sha256 raw := by simpa using pos_of_one hs
  have hctx := Except.ok.inj h
  subst hctx
  exact ⟨s, mem_of_one hs, hh, hrev.2, by omega, ⟨t, mem_of_one ht, htid, hrev.1⟩, haid, rfl, rfl, rfl,
    rfl⟩

/-- A context is an enabled agent's, and a token it was read off is not revoked. -/
theorem resolve_token_live (h : resolve_token sha256 now raw db = .ok ctx) :
    (∃ a ∈ db.agents, a.id = ctx.agent_id ∧ a.disabled_at = none) ∧
      ∀ k, ctx.token_id = some k → ∃ t ∈ db.api_tokens, t.id = k ∧ t.revoked_at = none := by
  unfold resolve_token resolve_session_token at h
  -- both branches end in a context after the checks that did not refuse
  split at h
  · repeat' split at h
    all_goals cases h
    rename_i a _ ha _ _ _ hdis _ _
    exact ⟨⟨a, mem_of_one ha, rfl, by simpa using hdis⟩, fun k hk => absurd hk (by simp)⟩
  · repeat' split at h
    all_goals cases h
    rename_i t ht _ a ha _ _ _ hdis
    refine ⟨⟨a, mem_of_one ha, rfl, by simpa using hdis⟩, fun k hk => ⟨t, mem_of_one ht, Option.some.inj hk, ?_⟩⟩
    have hpos := pos_of_one ht
    simp only [Bool.and_eq_true, Option.isNone_iff_eq_none] at hpos
    exact hpos.2

/-- Only a session credential yields a context with a session. -/
theorem require_bearer_session {hd : Headers} {sid : Uuid} (h : require_bearer sha256 now raw hd db = .ok ctx)
    (hsid : ctx.session_id = some sid) : resolve_session_token sha256 now raw db = .ok ctx := by
  unfold require_bearer at h
  split at h
  · cases h
  · cases h
  split at h
  · cases h
  rename_i ctx' hres
  have hctx : ctx = ctx' ∨ ∃ l, ctx = { ctx' with session := l } ∧ ctx'.session_id = none := by
    split at h
    · rename_i hnone
      exact Or.inr ⟨_, (Except.ok.inj h).symm, hnone⟩
    · split at h
      · cases h
      · split at h
        · split at h
          · cases h
          · exact Or.inl (Except.ok.inj h).symm
        · exact Or.inl (Except.ok.inj h).symm
  rcases hctx with rfl | ⟨l, rfl, hnone⟩
  · unfold resolve_token at hres
    split at hres
    · exact hres
    split at hres
    · cases hres
    -- an agent token resolves to a context without a session
    split at hres
    · cases hres
    split at hres
    · cases hres
    split at hres
    · cases hres
    split at hres
    · cases hres
    · rw [← Except.ok.inj hres] at hsid
      cases hsid
  · exact absurd (hnone.symm.trans hsid) (by simp)

end Tokens

end CrewSync.Auth
