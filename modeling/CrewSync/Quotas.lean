/-
The quotas of a team's two streams: `admin.rs`, `team_stream`, and the calls of
`store/jetstream.rs` behind it.

The broker holds a body stream and an inbox stream, each with its limits or not there at all.
`team_stream` provisions both, and with `update` vets every change, asks for the sum of what
they would newly reserve, applies them, and puts the first back where the second is refused.
Each of these is a call of the broker with an outcome of its own: a call that changes something
is applied, refused, or applied with its answer lost. What the streams hold is the publishers'
and is whatever each reading finds.

A stream that was created stays, whatever is refused after it, and a change whose answer was
lost is not among those that are put back. In both cases the message still says that nothing was
changed. `quotas_told_iff` has what is left: the outcomes under which the message is true.
-/
import Mathlib.Data.Int.Notation
import Mathlib.Data.List.Forall2
import Mathlib.Tactic.ByContra
import Mathlib.Tactic.Push
import CrewSync.Acts

set_option autoImplicit false

namespace CrewSync.Quotas

open Acts (Act fail state update of_except map_error)

/-! ## The streams -/

/-- `StreamKind`. -/
inductive StreamKind
  | Bodies
  | Inbox
  deriving DecidableEq, Repr

/-- The two ceilings of a stream. -/
structure Limits where
  max_messages : Int64
  max_bytes : Int64
  deriving DecidableEq, Repr

/-- The broker: the limits of each stream that exists. -/
structure Streams where
  bodies : Option Limits
  inbox : Option Limits
  deriving DecidableEq, Repr

def Streams.get (s : Streams) : StreamKind → Option Limits
  | .Bodies => s.bodies
  | .Inbox => s.inbox

def Streams.put (s : Streams) (kind : StreamKind) (l : Option Limits) : Streams :=
  match kind with
  | .Bodies => { s with bodies := l }
  | .Inbox => { s with inbox := l }

/-- What a stream holds. -/
structure Contents where
  messages : UInt64
  bytes : UInt64
  deriving DecidableEq, Repr

/-- A size for a human; `decimal` writes the first, counted in the second, with one place. -/
def format_size (decimal : Int64 → Int64 → String) (bytes : Int64) : String :=
  let GIB := 1024 * 1024 * 1024
  let MIB := 1024 * 1024
  let KIB := 1024
  if bytes ≥ GIB ∧ bytes % GIB = 0 then toString (bytes / GIB) ++ " GiB"
  else if bytes ≥ MIB ∧ bytes % MIB = 0 then toString (bytes / MIB) ++ " MiB"
  else if bytes ≥ KIB ∧ bytes % KIB = 0 then toString (bytes / KIB) ++ " KiB"
  else if bytes ≥ GIB then decimal bytes GIB ++ " GiB"
  else if bytes ≥ MIB then decimal bytes MIB ++ " MiB"
  else toString bytes ++ " B"

/-- `StorageAccount`. -/
structure StorageAccount where
  used : UInt64
  reserved : UInt64
  budget : Option Int64
  deriving DecidableEq, Repr

/-- `i64::saturating_add`. -/
def saturating_add (a b : Int64) : Int64 :=
  Int64.ofInt (max Int64.minValue.toInt (min Int64.maxValue.toInt (a.toInt + b.toInt)))

/-- `StorageAccount::fits`. -/
def StorageAccount.fits (account : StorageAccount) (additional : Int64) : Bool :=
  match account.budget with
  | some budget => decide (saturating_add account.reserved.toInt64 additional ≤ budget)
  | none => true

/-- `StorageAccount::describe`. -/
def StorageAccount.describe (decimal : Int64 → Int64 → String) (account : StorageAccount) : String :=
  let budget := match account.budget with
    | some m => "the account's storage budget is " ++ toString m ++ " (" ++ format_size decimal m ++ ")"
    | none => "the account has no storage limit of its own, so the ceiling is the server's max_file_store"
  budget ++ "; " ++ toString account.reserved ++ " (" ++ format_size decimal account.reserved.toInt64 ++
    ") is already reserved by existing streams' max_bytes while only " ++ toString account.used ++ " (" ++
    format_size decimal account.used.toInt64 ++ ") is actually used"

/-- The account as the broker answers for it. -/
structure AccountInfo where
  storage : UInt64
  reserved_storage : UInt64
  max_storage : Option Int64
  deriving DecidableEq, Repr

/-- A limit that is not positive is none. -/
def AccountInfo.account (a : AccountInfo) : StorageAccount :=
  ⟨a.storage, a.reserved_storage, a.max_storage.filter fun m => 0 < m⟩

/-! ## What is refused -/

def MAX_BROKER_MESSAGE_BYTES : Int64 := 2 * 1024 * 1024

def MIN_INBOX_BYTES : Int64 := 1024 * 1024

/-- The errors of `jetstream.rs` here, each with what its message shows. -/
inductive StreamError
  | max_bytes (given : Int64)
  | inbox_max_bytes
  | max_messages
  | credentials (text : String)
  | unreachable (url text : String)
  | could_not (operation name text : String)
  | exhausted (operation name : String) (additional_bytes : Int64) (account : Except String StorageAccount)
  | not_read_back (name text : String)
  | missing (name text : String)
  | not_read (name text : String)
  | holds_messages (name : String) (held : UInt64) (wanted : Int64)
  | holds_bytes (name : String) (held : UInt64) (wanted : Int64)
  | no_account (text : String)

/-- The message of an error. -/
def StreamError.message (decimal : Int64 → Int64 → String) : StreamError → String
  | .max_bytes given => "--max-bytes must be at least " ++ toString MAX_BROKER_MESSAGE_BYTES ++ " (" ++
      format_size decimal MAX_BROKER_MESSAGE_BYTES ++ "), the largest message the body stream accepts; " ++
      format_size decimal given ++ " would refuse every body"
  | .inbox_max_bytes => "--inbox-max-bytes must be at least " ++ toString MIN_INBOX_BYTES ++ " (" ++
      format_size decimal MIN_INBOX_BYTES ++ "); references are small but a team sends many"
  | .max_messages => "--max-messages and --inbox-max-messages must be at least 1"
  | .credentials text => "could not read NATS credentials: " ++ text
  | .unreachable url text => "could not reach NATS at " ++ url ++ ": " ++ text
  | .could_not operation name text => "could not " ++ operation ++ " '" ++ name ++ "': " ++ text
  | .exhausted operation name additional_bytes account => "could not " ++ operation ++ " '" ++ name ++
      "': the broker cannot reserve " ++ toString additional_bytes ++ " (" ++
      format_size decimal additional_bytes ++ ") more. Reservation, not disk, is what ran out: " ++
      (match account with
        | .ok account => account.describe decimal
        | .error text => "the broker's account statistics are unavailable (" ++ text ++ "), so the reserved " ++
            "and used figures cannot be shown; `nats account info` on the broker has them") ++
      ". Ask for a smaller quota (--max-bytes / --inbox-max-bytes), lower another stream's quota (`team " ++
      "stream --update-quotas`) or remove one, or raise the broker's max_file_store."
  | .not_read_back name text => "could not read '" ++ name ++ "' back: " ++ text
  | .missing name text => "stream '" ++ name ++ "' does not exist (" ++ text ++ "); provision it first, " ++
      "quotas are set at creation and changed here"
  | .not_read name text => "could not read '" ++ name ++ "': " ++ text
  | .holds_messages name held wanted => "stream '" ++ name ++ "' holds " ++ toString held ++
      " messages, more than the requested ceiling of " ++ toString wanted ++ "; nothing was changed. Prune " ++
      "first (`team prune`) or ask for a higher count"
  | .holds_bytes name held wanted => "stream '" ++ name ++ "' holds " ++ toString held ++ " (" ++
      format_size decimal held.toInt64 ++ "), more than the requested ceiling of " ++ toString wanted ++ " (" ++
      format_size decimal wanted ++ "); nothing was changed. Prune first (`team prune`) or ask for a higher quota"
  | .no_account text => "could not read the broker's account: " ++ text

/-- How it is displayed: each of them is a `BusError::Invalid`. -/
def StreamError.text (decimal : Int64 → Int64 → String) (e : StreamError) : String :=
  "invalid input: " ++ e.message decimal

/-- `Config`, without the credentials. -/
structure Config where
  url : String
  max_messages : Int64
  max_bytes : Int64
  inbox_max_messages : Int64
  inbox_max_bytes : Int64
  deriving DecidableEq, Repr

def DEFAULT_MAX_MESSAGES : Int64 := 100000

def DEFAULT_MAX_BYTES : Int64 := 2 * 1024 * 1024 * 1024

def DEFAULT_INBOX_MAX_MESSAGES : Int64 := 100000

def DEFAULT_INBOX_MAX_BYTES : Int64 := 256 * 1024 * 1024

/-- `Config::new`. -/
def Config.new (url : String) : Config :=
  ⟨url, DEFAULT_MAX_MESSAGES, DEFAULT_MAX_BYTES, DEFAULT_INBOX_MAX_MESSAGES, DEFAULT_INBOX_MAX_BYTES⟩

/-- `Config::with_limits`, which is for both streams. -/
def Config.with_limits (config : Config) (max_messages max_bytes : Int64) : Config :=
  { config with
    max_messages := max_messages
    max_bytes := max_bytes
    inbox_max_messages := max_messages
    inbox_max_bytes := max_bytes }

/-- `Config::with_inbox_limits`. -/
def Config.with_inbox_limits (config : Config) (max_messages max_bytes : Int64) : Config :=
  { config with inbox_max_messages := max_messages, inbox_max_bytes := max_bytes }

/-- `Config::validate_quotas`. -/
def Config.validate_quotas (config : Config) : Except StreamError Unit :=
  if config.max_bytes < MAX_BROKER_MESSAGE_BYTES then .error (.max_bytes config.max_bytes)
  else if config.inbox_max_bytes < MIN_INBOX_BYTES then .error .inbox_max_bytes
  else if config.max_messages < 1 ∨ config.inbox_max_messages < 1 then .error .max_messages
  else .ok ()

/-- The limits in `stream_config`. -/
def Config.stream_config (config : Config) : StreamKind → Limits
  | .Bodies => ⟨config.max_messages, config.max_bytes⟩
  | .Inbox => ⟨config.inbox_max_messages, config.inbox_max_bytes⟩

/-- `stream_name` and `inbox_stream_name`, for the team's id in its simple form. -/
def name_of (team : String) : StreamKind → String
  | .Bodies => "ACS_T_" ++ team
  | .Inbox => "ACS_I_" ++ team

/-! ## The calls and their outcomes -/

/-- `CreateStreamError`: storage is exhausted, or something else. -/
inductive CreateStreamError
  | resources_exceeded (text : String)
  | other (text : String)
  deriving DecidableEq, Repr

/-- How a call that changes something ends: its change made and confirmed, or refused, or made
and the answer lost. -/
inductive Answer
  | applied
  | refused (e : CreateStreamError)
  | lost (e : CreateStreamError)
  deriving DecidableEq, Repr

/-- The calls of `provision_kind`. -/
structure ProvisionCalls where
  connect : Except StreamError Unit
  get_stream : Bool
  create : Answer
  account : Except String AccountInfo
  info : Except String Contents

/-- The calls of `check_update`. -/
structure CheckCalls where
  connect : Except StreamError Unit
  get_stream : Except String Unit
  info : Except String Contents

/-- The calls of `apply_update`. -/
structure ApplyCalls where
  connect : Except StreamError Unit
  update : Answer
  account : Except String AccountInfo
  contents : Contents

/-- The calls of `storage_account`. -/
structure AccountCalls where
  connect : Except StreamError Unit
  query : Except String AccountInfo

/-- The calls of `team_stream`, each kind of stream with its own. -/
structure Calls where
  provision : StreamKind → ProvisionCalls
  check : StreamKind → CheckCalls
  account : AccountCalls
  apply : StreamKind → ApplyCalls
  restore_check : StreamKind → CheckCalls
  restore : StreamKind → ApplyCalls

/-- `provisioning_error`. -/
def provisioning_error (account : Except String AccountInfo) (name operation : String)
    (additional_bytes : Int64) : CreateStreamError → StreamError
  | .other text => .could_not operation name text
  | .resources_exceeded _ => .exhausted operation name additional_bytes (account.map AccountInfo.account)

/-! ## `jetstream.rs` -/

/-- `Provisioned`. -/
structure Provisioned where
  name : String
  created : Bool
  limits : Limits
  contents : Contents
  deriving DecidableEq, Repr

/-- `Provisioned::differs_from`. -/
def Provisioned.differs_from (p : Provisioned) (wanted : Limits) : Bool := decide (p.limits ≠ wanted)

/-- `QuotaChange`. -/
structure QuotaChange where
  name : String
  kind : StreamKind
  current : Limits
  wanted : Limits
  contents : Contents
  deriving DecidableEq, Repr

/-- `QuotaChange::additional_bytes`. -/
def QuotaChange.additional_bytes (c : QuotaChange) : Int64 := max (c.wanted.max_bytes - c.current.max_bytes) 0

/-- `provision_kind`. -/
def provision_kind (config : Config) (team : String) (kind : StreamKind) (calls : ProvisionCalls) :
    Act Streams StreamError Provisioned := do
  of_except config.validate_quotas
  of_except calls.connect
  let wanted := config.stream_config kind
  let before ← state
  let existed := (before.get kind).isSome && calls.get_stream
  -- an existing stream is found, its limits untouched; a missing one is created
  let found := (before.get kind).getD wanted
  match calls.create with
  | .refused e => fail (provisioning_error calls.account (name_of team kind) "create" wanted.max_bytes e)
  | .lost e => do
    update fun s => s.put kind (some found)
    fail (provisioning_error calls.account (name_of team kind) "create" wanted.max_bytes e)
  | .applied => do
    update fun s => s.put kind (some found)
    match calls.info with
    | .error text => fail (.not_read_back (name_of team kind) text)
    | .ok contents => pure ⟨name_of team kind, !existed, found, contents⟩

/-- `check_update`. -/
def check_update (config : Config) (team : String) (kind : StreamKind) (calls : CheckCalls) :
    Act Streams StreamError QuotaChange := do
  of_except config.validate_quotas
  of_except calls.connect
  let wanted := config.stream_config kind
  let before ← state
  match calls.get_stream, before.get kind with
  | .error text, _ => fail (.missing (name_of team kind) text)
  | .ok (), none => fail (.missing (name_of team kind) "stream not found")
  | .ok (), some current =>
    match calls.info with
    | .error text => fail (.not_read (name_of team kind) text)
    | .ok contents =>
      if contents.messages.toInt64 > wanted.max_messages then
        fail (.holds_messages (name_of team kind) contents.messages wanted.max_messages)
      else if contents.bytes.toInt64 > wanted.max_bytes then
        fail (.holds_bytes (name_of team kind) contents.bytes wanted.max_bytes)
      else pure ⟨name_of team kind, kind, current, wanted, contents⟩

/-- `apply_update`. -/
def apply_update (config : Config) (team : String) (kind : StreamKind) (change : QuotaChange)
    (calls : ApplyCalls) : Act Streams StreamError Provisioned := do
  of_except calls.connect
  let wanted := config.stream_config kind
  match calls.update with
  | .refused e => fail (provisioning_error calls.account (name_of team kind) "update" change.additional_bytes e)
  | .lost e => do
    update fun s => s.put kind ((s.get kind).map fun _ => wanted)
    fail (provisioning_error calls.account (name_of team kind) "update" change.additional_bytes e)
  | .applied => do
    update fun s => s.put kind ((s.get kind).map fun _ => wanted)
    pure ⟨name_of team kind, false, wanted, calls.contents⟩

/-- `update_quotas`. -/
def update_quotas (config : Config) (team : String) (kind : StreamKind) (check : CheckCalls)
    (calls : ApplyCalls) : Act Streams StreamError Provisioned := do
  let change ← check_update config team kind check
  apply_update config team kind change calls

/-- `storage_account`. -/
def storage_account (calls : AccountCalls) : Except StreamError StorageAccount :=
  match calls.connect, calls.query with
  | .error e, _ => .error e
  | .ok (), .error text => .error (.no_account text)
  | .ok (), .ok info => .ok info.account

/-! ## `team_stream` -/

/-- `StreamQuotas`. -/
structure StreamQuotas where
  max_bytes : Int64
  max_messages : Int64
  inbox_max_bytes : Int64
  inbox_max_messages : Int64
  deriving DecidableEq, Repr

/-- The configuration that `team_stream` makes of them. -/
def StreamQuotas.config (quotas : StreamQuotas) (url : String) : Config :=
  ((Config.new url).with_limits quotas.max_messages quotas.max_bytes).with_inbox_limits
    quotas.inbox_max_messages quotas.inbox_max_bytes

/-- How `team_stream` fails. -/
inductive Failure
  | bus (e : StreamError)
  | over_budget (additional : Int64) (account : StorageAccount)
  | mixed (failed : String) (e : StreamError) (done : String) (back : StreamError)
  | unchanged (e : StreamError)
  | restored (e : StreamError) (names : List String)

/-- What it says then. -/
def Failure.text (decimal : Int64 → Int64 → String) : Failure → String
  | .bus e => e.text decimal
  | .over_budget additional account => "the requested quotas need " ++ toString additional ++ " (" ++
      format_size decimal additional ++ ") more reserved than the streams have now, and " ++
      account.describe decimal ++ ". Nothing was changed. Ask for smaller quotas, lower another stream's, " ++
      "remove one, or raise the broker's max_file_store."
  | .mixed failed e done back => "updating '" ++ failed ++ "' failed (" ++ e.text decimal ++
      ") and restoring '" ++ done ++ "' to its previous limits failed too (" ++ back.text decimal ++
      "); the team's quotas are now mixed. Re-run with --update-quotas once the cause is fixed."
  | .unchanged e => e.text decimal ++ "\nNothing was changed."
  | .restored e names => e.text decimal ++ "\nRestored '" ++ "', '".intercalate names ++
      "' to its previous limits; nothing was changed."

/-- It says that the quotas are mixed. -/
def Failure.says_mixed : Failure → Bool
  | .mixed .. => true
  | _ => false

/-- What is reported of a stream. -/
inductive Verb
  | created
  | found
  | updated
  deriving DecidableEq, Repr

/-- A stream as it was found, and what is wanted of it. -/
structure Planned where
  outcome : Provisioned
  kind : StreamKind
  wanted : Limits
  deriving DecidableEq, Repr

def Planned.differs (p : Planned) : Bool := p.outcome.differs_from p.wanted

/-- A stream that keeps its limits, and what was asked for. -/
structure Kept where
  name : String
  limits : Limits
  wanted : Limits
  deriving DecidableEq, Repr

/-- The loop that vets. -/
def vet (config : Config) (team : String) (calls : Calls) :
    List Planned → Act Streams Failure (List (StreamKind × QuotaChange))
  | [] => pure []
  | p :: plan =>
    if p.differs = true then do
      let change ← map_error Failure.bus (check_update config team p.kind (calls.check p.kind))
      let changes ← vet config team calls plan
      pure ((p.kind, change) :: changes)
    else vet config team calls plan

/-- The configuration under which a stream is put back. -/
def previous (config : Config) (kind : StreamKind) (done : QuotaChange) : Config :=
  match kind with
  | .Bodies => config.with_limits done.current.max_messages done.current.max_bytes
  | .Inbox => config.with_inbox_limits done.current.max_messages done.current.max_bytes

/-- The loop that puts back what was changed. -/
def put_back (config : Config) (team : String) (calls : Calls) (e : StreamError) (failed : String)
    (restored : List String) : List (StreamKind × QuotaChange) → Act Streams Failure (List (Provisioned × Verb))
  | [] => fail (if restored = [] then .unchanged e else .restored e restored)
  | (kind, done) :: applied => fun s =>
    match update_quotas (previous config kind done) team kind (calls.restore_check kind) (calls.restore kind) s with
    | (.ok _, s') => put_back config team calls e failed (restored ++ [done.name]) applied s'
    | (.error back, s') => (.error (.mixed failed e done.name back), s')

/-- The loop that applies. -/
def apply_changes (config : Config) (team : String) (calls : Calls) (applied : List (StreamKind × QuotaChange))
    (outcomes : List (Provisioned × Verb)) :
    List (StreamKind × QuotaChange) → Act Streams Failure (List (Provisioned × Verb))
  | [] => pure outcomes
  | (kind, change) :: changes => fun s =>
    match apply_update config team kind change (calls.apply kind) s with
    | (.ok outcome, s') =>
      apply_changes config team calls (applied ++ [(kind, change)]) (outcomes ++ [(outcome, .updated)]) changes s'
    | (.error e, s') => put_back config team calls e change.name [] applied s'

/-- The sum that is asked for. -/
def additional_of (changes : List (StreamKind × QuotaChange)) : Int64 :=
  (changes.map fun c => c.2.additional_bytes).foldl (· + ·) 0

/-- The branch for `update`. -/
def update_branch (config : Config) (team : String) (calls : Calls) (plan : List Planned) :
    Act Streams Failure (List (Provisioned × Verb)) := do
  let changes ← vet config team calls plan
  if additional_of changes > 0 then do
    let account ← map_error Failure.bus (of_except (storage_account calls.account))
    if account.fits (additional_of changes) = true then apply_changes config team calls [] [] changes
    else fail (.over_budget (additional_of changes) account)
  else apply_changes config team calls [] [] changes

/-- What is reported in the end. -/
def report (outcomes : List (Provisioned × Verb)) (kept : List Kept) :
    List Planned → List (Provisioned × Verb) × List Kept
  | [] => (outcomes, kept)
  | p :: plan =>
    if outcomes.any (fun o => o.1.name == p.outcome.name) = true then report outcomes kept plan
    else
      let kept := if p.differs = true ∧ p.outcome.created = false then
        kept ++ [⟨p.outcome.name, p.outcome.limits, p.wanted⟩] else kept
      report (outcomes ++ [(p.outcome, if p.outcome.created = true then .created else .found)]) kept plan

/-- `team_stream`, without `remove`. -/
def team_stream (url team : String) (quotas : StreamQuotas) (update : Bool) (calls : Calls) :
    Act Streams Failure (List (Provisioned × Verb) × List Kept) := do
  let config := quotas.config url
  map_error Failure.bus (of_except config.validate_quotas)
  let bodies ← map_error Failure.bus (provision_kind config team .Bodies (calls.provision .Bodies))
  let inbox ← map_error Failure.bus (provision_kind config team .Inbox (calls.provision .Inbox))
  let plan : List Planned := [⟨bodies, .Bodies, ⟨quotas.max_messages, quotas.max_bytes⟩⟩,
    ⟨inbox, .Inbox, ⟨quotas.inbox_max_messages, quotas.inbox_max_bytes⟩⟩]
  let outcomes ← if update = true then update_branch config team calls plan else pure []
  pure (report outcomes [] plan)

/-! ## When the calls go through -/

/-- The stream is there after the call. -/
structure ProvisionCalls.Reaches (calls : ProvisionCalls) : Prop where
  connect : calls.connect = .ok ()
  create : ∀ e, calls.create ≠ .refused e

structure ProvisionCalls.Answers (calls : ProvisionCalls) : Prop where
  connect : calls.connect = .ok ()
  create : calls.create = .applied
  info : ∃ contents, calls.info = .ok contents

/-- The stream is found, and holds no more than is wanted, as the code compares. -/
structure CheckCalls.Passes (calls : CheckCalls) (wanted : Limits) : Prop where
  connect : calls.connect = .ok ()
  get_stream : calls.get_stream = .ok ()
  info : ∃ contents, calls.info = .ok contents ∧ ¬contents.messages.toInt64 > wanted.max_messages ∧
    ¬contents.bytes.toInt64 > wanted.max_bytes

structure ApplyCalls.Applies (calls : ApplyCalls) : Prop where
  connect : calls.connect = .ok ()
  update : calls.update = .applied

/-- The change is made and its answer lost. -/
structure ApplyCalls.Loses (calls : ApplyCalls) : Prop where
  connect : calls.connect = .ok ()
  update : ∃ e, calls.update = .lost e

def AccountCalls.Covers (calls : AccountCalls) (additional : Int64) : Prop :=
  ∃ account, storage_account calls = .ok account ∧ account.fits additional = true

/-- What a stream's limits are after provisioning. -/
def ProvisionCalls.after (calls : ProvisionCalls) (wanted : Limits) (l : Option Limits) : Option Limits :=
  match calls.connect, calls.create with
  | .error _, _ => l
  | .ok (), .refused _ => l
  | .ok (), _ => some (l.getD wanted)

/-- What a stream's limits are after a change. -/
def ApplyCalls.after (calls : ApplyCalls) (wanted : Limits) (l : Option Limits) : Option Limits :=
  match calls.connect, calls.update with
  | .error _, _ => l
  | .ok (), .refused _ => l
  | .ok (), _ => l.map fun _ => wanted

/-! ## What each call does -/

variable {config : Config} {team : String} {kind : StreamKind} {s : Streams}

theorem Streams.put_get (s : Streams) (kind : StreamKind) : s.put kind (s.get kind) = s := by
  cases kind with
  | Bodies => rfl
  | Inbox => rfl

section Provision

variable {calls : ProvisionCalls} {wanted : Limits} {l : Option Limits}

/-- A stream that is there stays as it is; one that is not is there afterwards if it is reached. -/
theorem ProvisionCalls.after_eq_iff : calls.after wanted l = l ↔ ¬(l = none ∧ calls.Reaches) := by
  unfold ProvisionCalls.after
  split
  · rename_i hconnect
    refine ⟨fun _ h => ?_, fun _ => rfl⟩
    rw [h.2.connect] at hconnect
    cases hconnect
  · rename_i hcreate
    exact ⟨fun _ h => h.2.create _ hcreate, fun _ => rfl⟩
  · rename_i hconnect hcreate
    have hreaches : calls.Reaches := ⟨hconnect, hcreate⟩
    cases l with
    | none => simp [hreaches]
    | some l => simp

theorem ProvisionCalls.Answers.after (h : calls.Answers) : calls.after wanted l = some (l.getD wanted) := by
  unfold ProvisionCalls.after
  rw [h.connect, h.create]

theorem ProvisionCalls.Answers.reaches (h : calls.Answers) : calls.Reaches :=
  ⟨h.connect, fun e => by rw [h.create]; exact nofun⟩

theorem provision_answers (hquotas : config.validate_quotas = .ok ()) (h : calls.Answers) :
    ∃ p, provision_kind config team kind calls s =
        (.ok p, s.put kind (some ((s.get kind).getD (config.stream_config kind)))) ∧
      p.limits = (s.get kind).getD (config.stream_config kind) := by
  obtain ⟨contents, hinfo⟩ := h.info
  refine ⟨⟨name_of team kind, !((s.get kind).isSome && calls.get_stream), _, contents⟩, ?_, rfl⟩
  unfold provision_kind
  rw [Acts.bind_of_ok (by rw [Acts.of_except_run, hquotas]), Acts.bind_of_ok (by rw [Acts.of_except_run, h.connect]),
    Acts.bind_of_ok Acts.state_run]
  simp only [h.create]
  rw [Acts.bind_of_ok (Acts.update_run _)]
  simp only [hinfo]
  rfl

theorem provision_fails (hquotas : config.validate_quotas = .ok ()) (h : ¬calls.Answers) :
    ∃ e, provision_kind config team kind calls s =
      (.error e, s.put kind (calls.after (config.stream_config kind) (s.get kind))) := by
  unfold provision_kind ProvisionCalls.after
  rw [Acts.bind_of_ok (by rw [Acts.of_except_run, hquotas])]
  cases hconnect : calls.connect with
  | error e =>
    refine ⟨e, ?_⟩
    rw [Acts.bind_of_error (Acts.of_except_run _), Streams.put_get]
  | ok u =>
    rw [Acts.bind_of_ok (Acts.of_except_run _), Acts.bind_of_ok Acts.state_run]
    cases hcreate : calls.create with
    | refused e =>
      simp only [Streams.put_get]
      exact ⟨_, rfl⟩
    | lost e =>
      simp only
      rw [Acts.bind_of_ok (Acts.update_run _)]
      exact ⟨_, rfl⟩
    | applied =>
      simp only
      rw [Acts.bind_of_ok (Acts.update_run _)]
      cases hinfo : calls.info with
      | error text => exact ⟨_, rfl⟩
      | ok contents => exact absurd ⟨hconnect, hcreate, contents, hinfo⟩ h

end Provision

section Check

variable {calls : CheckCalls} {l : Limits}

theorem check_passes (hquotas : config.validate_quotas = .ok ()) (hl : s.get kind = some l)
    (h : calls.Passes (config.stream_config kind)) :
    ∃ contents, check_update config team kind calls s =
      (.ok ⟨name_of team kind, kind, l, config.stream_config kind, contents⟩, s) := by
  obtain ⟨contents, hinfo, hmessages, hbytes⟩ := h.info
  refine ⟨contents, ?_⟩
  unfold check_update
  rw [Acts.bind_of_ok (by rw [Acts.of_except_run, hquotas]), Acts.bind_of_ok (by rw [Acts.of_except_run, h.connect]),
    Acts.bind_of_ok Acts.state_run]
  simp only [h.get_stream, hl, hinfo]
  rw [if_neg hmessages, if_neg hbytes]
  rfl

theorem check_fails (h : ¬(config.validate_quotas = .ok () ∧ calls.Passes (config.stream_config kind)))
    (hl : s.get kind = some l) : ∃ e, check_update config team kind calls s = (.error e, s) := by
  unfold check_update
  cases hquotas : config.validate_quotas with
  | error e => exact ⟨e, Acts.bind_of_error (Acts.of_except_run _)⟩
  | ok u =>
    rw [Acts.bind_of_ok (Acts.of_except_run _)]
    cases hconnect : calls.connect with
    | error e => exact ⟨e, Acts.bind_of_error (Acts.of_except_run _)⟩
    | ok u =>
      rw [Acts.bind_of_ok (Acts.of_except_run _), Acts.bind_of_ok Acts.state_run]
      cases hget : calls.get_stream with
      | error text => exact ⟨_, rfl⟩
      | ok u =>
        simp only [hl]
        cases hinfo : calls.info with
        | error text => exact ⟨_, rfl⟩
        | ok contents =>
          simp only
          by_cases hmessages : contents.messages.toInt64 > (config.stream_config kind).max_messages
          · rw [if_pos hmessages]
            exact ⟨_, rfl⟩
          · rw [if_neg hmessages]
            by_cases hbytes : contents.bytes.toInt64 > (config.stream_config kind).max_bytes
            · rw [if_pos hbytes]
              exact ⟨_, rfl⟩
            · exact absurd ⟨hquotas, hconnect, hget, contents, hinfo, hmessages, hbytes⟩ h

end Check

section Apply

variable {calls : ApplyCalls} {change : QuotaChange} {l wanted : Limits}

theorem ApplyCalls.after_eq_iff (hne : l ≠ wanted) (h : ¬calls.Applies) :
    calls.after wanted (some l) = some l ↔ ¬calls.Loses := by
  unfold ApplyCalls.after
  split
  · rename_i hconnect
    refine ⟨fun _ hloses => ?_, fun _ => rfl⟩
    rw [hloses.connect] at hconnect
    cases hconnect
  · rename_i hupdate
    refine ⟨fun _ hloses => ?_, fun _ => rfl⟩
    obtain ⟨e, he⟩ := hloses.update
    rw [he] at hupdate
    cases hupdate
  · rename_i hconnect hrefused
    constructor
    · intro hsame
      exact absurd (Option.some.inj hsame).symm hne
    · intro hloses
      cases hupdate : calls.update with
      | applied => exact absurd ⟨hconnect, hupdate⟩ h
      | refused e => exact absurd hupdate (hrefused e)
      | lost e => exact absurd ⟨hconnect, e, hupdate⟩ hloses

/-- An answer that came is not lost. -/
theorem ApplyCalls.Applies.kept (h : calls.Applies) : ¬calls.Loses := by
  intro hloses
  obtain ⟨e, he⟩ := hloses.update
  rw [h.update] at he
  cases he

theorem apply_applies (h : calls.Applies) (hl : s.get kind = some l) :
    ∃ p, apply_update config team kind change calls s = (.ok p, s.put kind (some (config.stream_config kind))) := by
  refine ⟨⟨name_of team kind, false, config.stream_config kind, calls.contents⟩, ?_⟩
  unfold apply_update
  rw [Acts.bind_of_ok (by rw [Acts.of_except_run, h.connect])]
  simp only [h.update]
  rw [Acts.bind_of_ok (Acts.update_run _), hl]
  rfl

theorem apply_fails (h : ¬calls.Applies) :
    ∃ e, apply_update config team kind change calls s =
      (.error e, s.put kind (calls.after (config.stream_config kind) (s.get kind))) := by
  unfold apply_update ApplyCalls.after
  cases hconnect : calls.connect with
  | error e =>
    refine ⟨e, ?_⟩
    rw [Acts.bind_of_error (Acts.of_except_run _), Streams.put_get]
  | ok u =>
    rw [Acts.bind_of_ok (Acts.of_except_run _)]
    cases hupdate : calls.update with
    | refused e =>
      simp only [Streams.put_get]
      exact ⟨_, rfl⟩
    | lost e =>
      simp only
      rw [Acts.bind_of_ok (Acts.update_run _)]
      exact ⟨_, rfl⟩
    | applied => exact absurd ⟨hconnect, hupdate⟩ h

end Apply

/-! ## The stages of `team_stream` -/

section Stages

variable {calls : Calls} {plan : List Planned} {changes : List (StreamKind × QuotaChange)} {b i : Planned}

/-- The plan is for the streams as they are. -/
def Planned.For (config : Config) (s : Streams) (p : Planned) : Prop :=
  p.wanted = config.stream_config p.kind ∧ s.get p.kind = some p.outcome.limits

/-- A change that was vetted, for a stream of the plan. -/
def Planned.Vetted (p : Planned) (c : StreamKind × QuotaChange) : Prop :=
  c.1 = p.kind ∧ c.2.current = p.outcome.limits ∧ c.2.wanted = p.wanted

theorem vet_passes (hquotas : config.validate_quotas = .ok ()) (hfor : ∀ p ∈ plan, p.For config s)
    (hpasses : ∀ p ∈ plan, p.outcome.limits ≠ p.wanted → (calls.check p.kind).Passes p.wanted) :
    ∃ changes, vet config team calls plan s = (.ok changes, s) ∧
      List.Forall₂ Planned.Vetted (plan.filter Planned.differs) changes := by
  induction plan with
  | nil => exact ⟨[], rfl, List.Forall₂.nil⟩
  | cons p plan ih =>
    obtain ⟨changes, hrun, hvetted⟩ := ih (fun q hq => hfor q (List.mem_cons_of_mem p hq))
      (fun q hq => hpasses q (List.mem_cons_of_mem p hq))
    obtain ⟨hwanted, hget⟩ := hfor p List.mem_cons_self
    by_cases hdiffers : p.differs = true
    · have hpass := hpasses p List.mem_cons_self (of_decide_eq_true hdiffers)
      rw [hwanted] at hpass
      obtain ⟨contents, hcheck⟩ := @check_passes config team p.kind s (calls.check p.kind) _ hquotas hget hpass
      refine ⟨(p.kind, ⟨name_of team p.kind, p.kind, p.outcome.limits, config.stream_config p.kind, contents⟩) ::
        changes, ?_, ?_⟩
      · rw [vet, if_pos hdiffers, Acts.bind_of_ok (Acts.map_error_of_ok hcheck), Acts.bind_of_ok hrun]
        rfl
      · rw [List.filter_cons_of_pos hdiffers]
        exact List.Forall₂.cons ⟨rfl, rfl, hwanted.symm⟩ hvetted
    · refine ⟨changes, ?_, ?_⟩
      · rw [vet, if_neg hdiffers]
        exact hrun
      · rw [List.filter_cons_of_neg hdiffers]
        exact hvetted

theorem vet_fails (hquotas : config.validate_quotas = .ok ()) (hfor : ∀ p ∈ plan, p.For config s)
    (hfails : ∃ p ∈ plan, p.outcome.limits ≠ p.wanted ∧ ¬(calls.check p.kind).Passes p.wanted) :
    ∃ e, vet config team calls plan s = (.error (.bus e), s) := by
  induction plan with
  | nil =>
    obtain ⟨p, hp, -⟩ := hfails
    exact absurd hp List.not_mem_nil
  | cons p plan ih =>
    obtain ⟨hwanted, hget⟩ := hfor p List.mem_cons_self
    have hrest : ¬(p.outcome.limits ≠ p.wanted ∧ ¬(calls.check p.kind).Passes p.wanted) →
        ∃ e, vet config team calls plan s = (.error (.bus e), s) := by
      intro hp
      obtain ⟨q, hq, hfail⟩ := hfails
      rcases List.mem_cons.mp hq with rfl | hq
      · exact absurd hfail hp
      · exact ih (fun q hq => hfor q (List.mem_cons_of_mem p hq)) ⟨q, hq, hfail⟩
    by_cases hdiffers : p.differs = true
    · have hne : p.outcome.limits ≠ p.wanted := of_decide_eq_true hdiffers
      rw [vet, if_pos hdiffers]
      by_cases hpass : (calls.check p.kind).Passes p.wanted
      · obtain ⟨e, he⟩ := hrest fun h => h.2 hpass
        rw [hwanted] at hpass
        obtain ⟨contents, hcheck⟩ := @check_passes config team p.kind s (calls.check p.kind) _ hquotas hget hpass
        refine ⟨e, ?_⟩
        rw [Acts.bind_of_ok (Acts.map_error_of_ok hcheck), Acts.bind_of_error he]
      · rw [hwanted] at hpass
        obtain ⟨e, he⟩ := @check_fails config team p.kind s (calls.check p.kind) _ (fun h => hpass h.2) hget
        exact ⟨e, Acts.bind_of_error (Acts.map_error_of_error he)⟩
    · rw [vet, if_neg hdiffers]
      exact hrest fun h => hdiffers (decide_eq_true h.1)

/-- What a stream of the plan would newly reserve. -/
def Planned.extra (p : Planned) : Int64 := max (p.wanted.max_bytes - p.outcome.limits.max_bytes) 0

theorem additional_of_vetted (h : List.Forall₂ Planned.Vetted plan changes) :
    additional_of changes = (plan.map Planned.extra).foldl (· + ·) 0 := by
  have hmap : changes.map (fun c => c.2.additional_bytes) = plan.map Planned.extra := by
    induction h with
    | nil => rfl
    | cons hp _ ih =>
      rw [List.map_cons, List.map_cons, ih, QuotaChange.additional_bytes, hp.2.1, hp.2.2]
      rfl
  rw [additional_of, hmap]

/-- A stream that keeps its limits reserves nothing. -/
theorem extra_of_same {p : Planned} (h : ¬p.differs = true) : p.extra = 0 := by
  have hsame : p.outcome.limits = p.wanted := by
    by_contra hne
    exact h (decide_eq_true hne)
  rw [Planned.extra, hsame, Int64.sub_self]
  decide

/-- Only what differs counts. -/
theorem additional_of_pair (h : List.Forall₂ Planned.Vetted ([b, i].filter Planned.differs) changes) :
    additional_of changes = b.extra + i.extra := by
  rw [additional_of_vetted h]
  by_cases hb : b.differs = true
  · rw [List.filter_cons_of_pos hb]
    by_cases hi : i.differs = true
    · rw [List.filter_cons_of_pos hi]
      exact congrArg (· + i.extra) (Int64.zero_add b.extra)
    · rw [List.filter_cons_of_neg hi, extra_of_same hi, Int64.add_zero]
      exact Int64.zero_add b.extra
  · rw [List.filter_cons_of_neg hb, extra_of_same hb, Int64.zero_add]
    by_cases hi : i.differs = true
    · rw [List.filter_cons_of_pos hi]
      exact Int64.zero_add i.extra
    · rw [List.filter_cons_of_neg hi, extra_of_same hi]
      rfl

/-- The checks pass, and the account has the room that is asked for. -/
def Planned.Cleared (calls : Calls) (b i : Planned) : Prop :=
  (∀ p ∈ [b, i], p.outcome.limits ≠ p.wanted → (calls.check p.kind).Passes p.wanted) ∧
    (b.extra + i.extra > 0 → calls.account.Covers (b.extra + i.extra))

/-- The branch for `update` goes on to apply what it vetted, or fails before the first change. -/
theorem update_branch_run (hquotas : config.validate_quotas = .ok ()) (hfor : ∀ p ∈ [b, i], p.For config s) :
    Planned.Cleared calls b i ∧ (∃ changes,
        List.Forall₂ Planned.Vetted ([b, i].filter Planned.differs) changes ∧
        update_branch config team calls [b, i] s = apply_changes config team calls [] [] changes s) ∨
      ¬Planned.Cleared calls b i ∧
        ∃ f, update_branch config team calls [b, i] s = (.error f, s) ∧ f.says_mixed = false := by
  unfold update_branch Planned.Cleared
  by_cases hpasses : ∀ p ∈ [b, i], p.outcome.limits ≠ p.wanted → (calls.check p.kind).Passes p.wanted
  · obtain ⟨changes, hrun, hvetted⟩ := vet_passes hquotas hfor hpasses
    have hadditional := additional_of_pair hvetted
    rw [Acts.bind_of_ok hrun, hadditional]
    by_cases hmore : b.extra + i.extra > 0
    · rw [if_pos hmore]
      cases haccount : storage_account calls.account with
      | error e =>
        refine Or.inr ⟨?_, .bus e, Acts.bind_of_error (Acts.map_error_of_error (Acts.of_except_run _)), rfl⟩
        rintro ⟨-, hcovers⟩
        obtain ⟨account, hok, -⟩ := hcovers hmore
        rw [haccount] at hok
        cases hok
      | ok account =>
        rw [Acts.bind_of_ok (Acts.map_error_of_ok (Acts.of_except_run _))]
        by_cases hfits : account.fits (b.extra + i.extra) = true
        · rw [if_pos hfits]
          exact Or.inl ⟨⟨hpasses, fun _ => ⟨account, haccount, hfits⟩⟩, changes, hvetted, rfl⟩
        · rw [if_neg hfits]
          refine Or.inr ⟨?_, .over_budget _ account, rfl, rfl⟩
          rintro ⟨-, hcovers⟩
          obtain ⟨account', hok, hfits'⟩ := hcovers hmore
          rw [haccount] at hok
          cases hok
          exact hfits hfits'
    · rw [if_neg hmore]
      exact Or.inl ⟨⟨hpasses, fun h => absurd h hmore⟩, changes, hvetted, rfl⟩
  · have hfails : ∃ p ∈ [b, i], p.outcome.limits ≠ p.wanted ∧ ¬(calls.check p.kind).Passes p.wanted := by
      push Not at hpasses
      exact hpasses
    obtain ⟨e, he⟩ := vet_fails hquotas hfor hfails
    exact Or.inr ⟨fun h => hpasses h.1, .bus e, Acts.bind_of_error he, rfl⟩

end Stages

/-! ## When the answer is true -/

section Told

variable (config : Config) (before : Streams) (calls : Calls)

/-- The stream is there, with other limits. -/
def Differs (kind : StreamKind) : Prop := ∃ l, before.get kind = some l ∧ l ≠ config.stream_config kind

/-- What a stream would newly reserve. -/
def asked_for (kind : StreamKind) : Int64 :=
  match before.get kind with
  | some l => max ((config.stream_config kind).max_bytes - l.max_bytes) 0
  | none => 0

/-- Both streams are provisioned and every change is vetted. -/
structure Vetted : Prop where
  quotas : config.validate_quotas = .ok ()
  provisioned : ∀ kind, (calls.provision kind).Answers
  checked : ∀ kind, Differs config before kind → (calls.check kind).Passes (config.stream_config kind)
  budget : asked_for config before .Bodies + asked_for config before .Inbox > 0 →
    calls.account.Covers (asked_for config before .Bodies + asked_for config before .Inbox)

/-- And every change is applied. -/
structure Completed : Prop extends Vetted config before calls where
  applied : ∀ kind, Differs config before kind → (calls.apply kind).Applies

/-- A stream that was not there is created. -/
def Created : Prop :=
  config.validate_quotas = .ok () ∧
    (before.bodies = none ∧ (calls.provision .Bodies).Reaches ∨
      before.inbox = none ∧ (calls.provision .Bodies).Answers ∧ (calls.provision .Inbox).Reaches)

/-- The body stream can be put back to these limits. -/
structure Restores (l : Limits) : Prop where
  quotas : (config.with_limits l.max_messages l.max_bytes).validate_quotas = .ok ()
  check : (calls.restore_check .Bodies).Passes l
  restore : (calls.restore .Bodies).Applies

/-- What a success and a failure of `team_stream` say is so: both streams have the limits that were
asked for, none below what it held when it was checked; or, unless the failure says that they are
mixed, each is as it was. -/
def Truthful {α : Type} : Except Failure α × Streams → Prop
  | (.ok _, after) => (∀ kind, after.get kind = some (config.stream_config kind)) ∧
      ∀ kind contents, Differs config before kind → (calls.check kind).info = .ok contents →
        (contents.messages.toNat : ℤ) ≤ (config.stream_config kind).max_messages.toInt ∧
        (contents.bytes.toNat : ℤ) ≤ (config.stream_config kind).max_bytes.toInt
  | (.error f, after) => f.says_mixed = false → after = before

/-- What has to be so of the calls: a stream is created only where everything after it succeeds, no
answer to a change is lost (except where the body stream cannot be put back, which is told), and
what is held is counted in 63 bits. -/
structure Told : Prop where
  created : Created config before calls → Completed config before calls
  bodies : Vetted config before calls → Differs config before .Bodies → ¬(calls.apply .Bodies).Loses
  inbox : Vetted config before calls → Differs config before .Inbox →
    (∀ l, before.bodies = some l → l ≠ config.stream_config .Bodies →
      (calls.apply .Bodies).Applies ∧ Restores config calls l) → ¬(calls.apply .Inbox).Loses
  counts : Completed config before calls → ∀ kind contents, Differs config before kind →
    (calls.check kind).info = .ok contents →
      contents.messages.toNat < 9223372036854775808 ∧ contents.bytes.toNat < 9223372036854775808

end Told

section Outcomes

variable {before : Streams} {calls : Calls} {α : Type}

/-- A count read as a signed number is itself, or has 64 bits. -/
theorem cast_toInt (n : UInt64) : n.toInt64.toInt = (n.toNat : ℤ) ∨
    n.toInt64.toInt = (n.toNat : ℤ) - 18446744073709551616 ∧ 9223372036854775808 ≤ n.toNat := by
  have hsigned : n.toInt64.toInt = n.toBitVec.toInt := rfl
  have hnat : n.toBitVec.toNat = n.toNat := rfl
  rw [hsigned, BitVec.toInt_eq_toNat_cond n.toBitVec, hnat]
  split <;> omega

/-- As the code compares, a count is within a ceiling, or it has 64 bits. -/
theorem count_le_iff {n : UInt64} {ceiling : Int64} (h : ¬n.toInt64 > ceiling) :
    (n.toNat : ℤ) ≤ ceiling.toInt ↔ n.toNat < 9223372036854775808 := by
  rw [gt_iff_lt, Int64.lt_iff_toInt_lt] at h
  have hceiling := ceiling.toInt_lt
  rcases cast_toInt n with hn | hn
  · omega
  · omega

theorem CheckCalls.Passes.counts {check : CheckCalls} {wanted : Limits} {contents : Contents} (h : check.Passes wanted)
    (hinfo : check.info = .ok contents) : ((contents.messages.toNat : ℤ) ≤ wanted.max_messages.toInt ∧
        (contents.bytes.toNat : ℤ) ≤ wanted.max_bytes.toInt) ↔
      contents.messages.toNat < 9223372036854775808 ∧ contents.bytes.toNat < 9223372036854775808 := by
  obtain ⟨contents', hinfo', hmessages, hbytes⟩ := h.info
  rw [hinfo] at hinfo'
  cases hinfo'
  rw [count_le_iff hmessages, count_le_iff hbytes]

/-- Where every change is applied, only the counts are left. -/
theorem told_of_completed (h : Completed config before calls) :
    Told config before calls ↔
      ∀ kind contents, Differs config before kind → (calls.check kind).info = .ok contents →
        contents.messages.toNat < 9223372036854775808 ∧ contents.bytes.toNat < 9223372036854775808 := by
  have hloses : ∀ kind, Differs config before kind → ¬(calls.apply kind).Loses :=
    fun kind hdiffers => (h.applied kind hdiffers).kept
  exact ⟨fun htold => htold.counts h, fun hcounts => ⟨fun _ => h, fun _ hdiffers => hloses _ hdiffers,
    fun _ hdiffers _ => hloses _ hdiffers, fun _ => hcounts⟩⟩

/-- Where nothing is applied, only what was created is left. -/
theorem told_of_not_vetted (h : ¬Vetted config before calls) :
    Told config before calls ↔ ¬Created config before calls :=
  ⟨fun htold hcreated => h (htold.created hcreated).toVetted, fun hcreated => ⟨fun hc => absurd hc hcreated,
    fun hv => absurd hv h, fun hv => absurd hv h, fun hc => absurd hc.toVetted h⟩⟩

theorem truthful_of_completed {outcomes : α} {after : Streams} (h : Completed config before calls)
    (hafter : ∀ kind, after.get kind = some (config.stream_config kind)) :
    Truthful config before calls (.ok outcomes, after) ↔ Told config before calls := by
  rw [told_of_completed h]
  constructor
  · rintro ⟨-, hheld⟩ kind contents hdiffers hinfo
    exact ((h.checked kind hdiffers).counts hinfo).mp (hheld kind contents hdiffers hinfo)
  · intro hcounts
    refine ⟨hafter, fun kind contents hdiffers hinfo => ?_⟩
    exact ((h.checked kind hdiffers).counts hinfo).mpr (hcounts kind contents hdiffers hinfo)

/-- The value of a success does not matter. -/
theorem truthful_bind_pure {β : Type} {x : Act Streams Failure α} {g : α → β} :
    Truthful config before calls ((x >>= fun a => pure (g a)) s) ↔ Truthful config before calls (x s) := by
  cases hx : x s with
  | mk r s' =>
    cases r with
    | ok a =>
      rw [Acts.bind_of_ok hx]
      rfl
    | error f =>
      rw [Acts.bind_of_error hx]
      rfl

end Outcomes

/-! ## Applying, and putting back -/

section Applying

variable {calls : Calls} {applied changes : List (StreamKind × QuotaChange)} {c : QuotaChange} {l : Limits}
  {outcomes : List (Provisioned × Verb)} {outcome : Provisioned} {e : StreamError} {s' : Streams} {failed : String}
  {restored : List String}

theorem apply_changes_of_ok (h : apply_update config team kind c (calls.apply kind) s = (.ok outcome, s')) :
    apply_changes config team calls applied outcomes ((kind, c) :: changes) s =
      apply_changes config team calls (applied ++ [(kind, c)]) (outcomes ++ [(outcome, .updated)]) changes s' := by
  simp only [apply_changes, h]

theorem apply_changes_of_error (h : apply_update config team kind c (calls.apply kind) s = (.error e, s')) :
    apply_changes config team calls applied outcomes ((kind, c) :: changes) s =
      put_back config team calls e c.name [] applied s' := by
  simp only [apply_changes, h]

theorem put_back_of_ok
    (h : update_quotas (previous config kind c) team kind (calls.restore_check kind) (calls.restore kind) s =
      (.ok outcome, s')) :
    put_back config team calls e failed restored ((kind, c) :: applied) s =
      put_back config team calls e failed (restored ++ [c.name]) applied s' := by
  simp only [put_back, h]

theorem put_back_of_error {back : StreamError}
    (h : update_quotas (previous config kind c) team kind (calls.restore_check kind) (calls.restore kind) s =
      (.error back, s')) :
    put_back config team calls e failed restored ((kind, c) :: applied) s =
      (.error (.mixed failed e c.name back), s') := by
  simp only [put_back, h]

/-- One change alone. -/
theorem apply_one (hl : s.get kind = some l) :
    (calls.apply kind).Applies ∧ (∃ outcomes, apply_changes config team calls [] [] [(kind, c)] s =
        (.ok outcomes, s.put kind (some (config.stream_config kind)))) ∨
      ¬(calls.apply kind).Applies ∧ ∃ e, apply_changes config team calls [] [] [(kind, c)] s =
        (.error (.unchanged e), s.put kind ((calls.apply kind).after (config.stream_config kind) (some l))) := by
  by_cases happly : (calls.apply kind).Applies
  · obtain ⟨p, hp⟩ := @apply_applies config team kind s _ c _ happly hl
    refine Or.inl ⟨happly, [(p, .updated)], ?_⟩
    rw [apply_changes_of_ok hp]
    rfl
  · obtain ⟨e, he⟩ := @apply_fails config team kind s _ c happly
    refine Or.inr ⟨happly, e, ?_⟩
    rw [apply_changes_of_error he, hl]
    rfl

/-- Putting the body stream back. -/
theorem put_back_bodies (hbodies : s.bodies ≠ none) :
    Restores config calls l ∧ (∃ p, update_quotas (config.with_limits l.max_messages l.max_bytes) team .Bodies
        (calls.restore_check .Bodies) (calls.restore .Bodies) s = (.ok p, s.put .Bodies (some l))) ∨
      ¬Restores config calls l ∧ ∃ e s', update_quotas (config.with_limits l.max_messages l.max_bytes) team .Bodies
        (calls.restore_check .Bodies) (calls.restore .Bodies) s = (.error e, s') := by
  obtain ⟨x, hx⟩ := Option.ne_none_iff_exists'.mp hbodies
  have hget : s.get .Bodies = some x := hx
  unfold update_quotas
  by_cases hcheck : (config.with_limits l.max_messages l.max_bytes).validate_quotas = .ok () ∧
      (calls.restore_check .Bodies).Passes l
  · obtain ⟨contents, hrun⟩ := @check_passes (config.with_limits l.max_messages l.max_bytes) team .Bodies s _ _
      hcheck.1 hget hcheck.2
    rw [Acts.bind_of_ok hrun]
    by_cases happly : (calls.restore .Bodies).Applies
    · obtain ⟨p, hp⟩ := @apply_applies (config.with_limits l.max_messages l.max_bytes) team .Bodies s _ _ _
        happly hget
      exact Or.inl ⟨⟨hcheck.1, hcheck.2, happly⟩, p, hp⟩
    · obtain ⟨e, he⟩ := @apply_fails (config.with_limits l.max_messages l.max_bytes) team .Bodies s _ _ happly
      exact Or.inr ⟨fun h => happly h.restore, e, _, he⟩
  · obtain ⟨e, he⟩ := @check_fails (config.with_limits l.max_messages l.max_bytes) team .Bodies s _ _ hcheck hget
    exact Or.inr ⟨fun h => hcheck ⟨h.quotas, h.check⟩, e, s, Acts.bind_of_error he⟩

/-- Both changes: both applied; or the first fails; or the second does, and the first is put back
or cannot be. -/
theorem apply_two {lb li : Limits} {cb ci : QuotaChange} (hcb : cb.current = lb) :
    ((calls.apply .Bodies).Applies ∧ (calls.apply .Inbox).Applies ∧
        ∃ outcomes, apply_changes config team calls [] [] [(.Bodies, cb), (.Inbox, ci)] ⟨some lb, some li⟩ =
          (.ok outcomes, ⟨some (config.stream_config .Bodies), some (config.stream_config .Inbox)⟩)) ∨
      (¬(calls.apply .Bodies).Applies ∧
        ∃ e, apply_changes config team calls [] [] [(.Bodies, cb), (.Inbox, ci)] ⟨some lb, some li⟩ =
          (.error (.unchanged e),
            ⟨(calls.apply .Bodies).after (config.stream_config .Bodies) (some lb), some li⟩)) ∨
      ((calls.apply .Bodies).Applies ∧ ¬(calls.apply .Inbox).Applies ∧ Restores config calls lb ∧
        ∃ e, apply_changes config team calls [] [] [(.Bodies, cb), (.Inbox, ci)] ⟨some lb, some li⟩ =
          (.error (.restored e [cb.name]),
            ⟨some lb, (calls.apply .Inbox).after (config.stream_config .Inbox) (some li)⟩)) ∨
      ((calls.apply .Bodies).Applies ∧ ¬(calls.apply .Inbox).Applies ∧ ¬Restores config calls lb ∧
        ∃ e back s', apply_changes config team calls [] [] [(.Bodies, cb), (.Inbox, ci)] ⟨some lb, some li⟩ =
          (.error (.mixed ci.name e cb.name back), s')) := by
  by_cases hb : (calls.apply .Bodies).Applies
  · obtain ⟨p, hp⟩ := @apply_applies config team .Bodies ⟨some lb, some li⟩ (calls.apply .Bodies) cb lb hb rfl
    have hfirst := @apply_changes_of_ok config team .Bodies _ calls [] [(.Inbox, ci)] cb [] p _ hp
    by_cases hi : (calls.apply .Inbox).Applies
    · obtain ⟨q, hq⟩ := @apply_applies config team .Inbox ⟨some (config.stream_config .Bodies), some li⟩
        (calls.apply .Inbox) ci li hi rfl
      exact Or.inl ⟨hb, hi, _, hfirst.trans (apply_changes_of_ok hq)⟩
    · obtain ⟨e, he⟩ := @apply_fails config team .Inbox ⟨some (config.stream_config .Bodies), some li⟩
        (calls.apply .Inbox) ci hi
      have hsecond := hfirst.trans (apply_changes_of_error he)
      rcases @put_back_bodies config team
          ⟨some (config.stream_config .Bodies), (calls.apply .Inbox).after (config.stream_config .Inbox) (some li)⟩
          calls cb.current nofun with ⟨hrestores, q, hq⟩ | ⟨hstuck, back, s', hback⟩
      · have hback := @put_back_of_ok config team .Bodies _ calls [] cb q e _ ci.name [] hq
        rw [hcb] at hrestores hback
        exact Or.inr (Or.inr (Or.inl ⟨hb, hi, hrestores, e, hsecond.trans hback⟩))
      · have hmixed := @put_back_of_error config team .Bodies _ calls [] cb e s' ci.name [] back hback
        rw [hcb] at hstuck
        exact Or.inr (Or.inr (Or.inr ⟨hb, hi, hstuck, e, back, s', hsecond.trans hmixed⟩))
  · obtain ⟨e, he⟩ := @apply_fails config team .Bodies ⟨some lb, some li⟩ (calls.apply .Bodies) cb hb
    exact Or.inr (Or.inl ⟨hb, e, apply_changes_of_error he⟩)

end Applying

/-! ## The whole command -/

section Command

variable {before : Streams} {calls : Calls} {p b i : Planned} {changes : List (StreamKind × QuotaChange)} {l : Limits}
  {v : Option Limits}

/-- What provisioning found of a stream, and what is wanted of it. -/
structure Planned.Of (config : Config) (before : Streams) (kind : StreamKind) (p : Planned) : Prop where
  same_kind : p.kind = kind
  wanted : p.wanted = config.stream_config kind
  limits : p.outcome.limits = (before.get kind).getD (config.stream_config kind)

theorem Planned.Of.differs_iff (h : p.Of config before kind) : p.differs = true ↔ Differs config before kind := by
  rw [Planned.differs, Provisioned.differs_from, decide_eq_true_iff, h.wanted, h.limits, Differs]
  cases before.get kind with
  | none => simp
  | some l => simp

theorem Planned.Of.extra_eq (h : p.Of config before kind) : p.extra = asked_for config before kind := by
  rw [Planned.extra, h.wanted, h.limits, asked_for]
  cases before.get kind with
  | none =>
    rw [Option.getD_none, Int64.sub_self]
    rfl
  | some l => rfl

/-- The streams after provisioning. -/
def provisioned (config : Config) (before : Streams) : Streams :=
  ⟨some (before.bodies.getD (config.stream_config .Bodies)), some (before.inbox.getD (config.stream_config .Inbox))⟩

theorem Planned.Of.for_provisioned (h : p.Of config before kind) : p.For config (provisioned config before) := by
  refine ⟨?_, ?_⟩
  · rw [h.wanted, h.same_kind]
  · rw [h.same_kind, h.limits]
    cases kind with
    | Bodies => rfl
    | Inbox => rfl

theorem Planned.Of.passes_iff (h : p.Of config before kind) :
    (p.outcome.limits ≠ p.wanted → (calls.check p.kind).Passes p.wanted) ↔
      (Differs config before kind → (calls.check kind).Passes (config.stream_config kind)) := by
  rw [← h.differs_iff, Planned.differs, Provisioned.differs_from, decide_eq_true_iff, h.same_kind, h.wanted]

theorem cleared_iff (hb : b.Of config before .Bodies) (hi : i.Of config before .Inbox) :
    Planned.Cleared calls b i ↔
      (∀ kind, Differs config before kind → (calls.check kind).Passes (config.stream_config kind)) ∧
        (asked_for config before .Bodies + asked_for config before .Inbox > 0 →
          calls.account.Covers (asked_for config before .Bodies + asked_for config before .Inbox)) := by
  rw [Planned.Cleared, hb.extra_eq, hi.extra_eq]
  refine and_congr_left fun _ => ?_
  constructor
  · intro h kind
    cases kind with
    | Bodies => exact hb.passes_iff.mp (h b (by simp))
    | Inbox => exact hi.passes_iff.mp (h i (by simp))
  · intro h p hp
    rcases List.mem_pair.mp hp with rfl | rfl
    · exact hb.passes_iff.mpr (h .Bodies)
    · exact hi.passes_iff.mpr (h .Inbox)

theorem get_of_not_differs (h : ¬Differs config before kind) :
    (before.get kind).getD (config.stream_config kind) = config.stream_config kind := by
  cases hget : before.get kind with
  | none => rfl
  | some l =>
    by_contra hne
    exact h ⟨l, hget, hne⟩

/-- Both streams were there exactly where provisioning left them as they were. -/
theorem provisioned_eq_iff :
    provisioned config before = before ↔ before.bodies ≠ none ∧ before.inbox ≠ none := by
  obtain ⟨bodies, inbox⟩ := before
  cases bodies with
  | none => simp [provisioned]
  | some lb =>
    cases inbox with
    | none | some li => simp [provisioned]

/-- Where both calls of provisioning answered, what was not there was created. -/
theorem created_iff (hquotas : config.validate_quotas = .ok ())
    (hprovisioned : ∀ kind, (calls.provision kind).Answers) :
    Created config before calls ↔ provisioned config before ≠ before := by
  rw [Ne, provisioned_eq_iff, not_and_or, not_not, not_not]
  constructor
  · rintro ⟨-, hcreated⟩
    exact hcreated.imp And.left And.left
  · intro hnone
    refine ⟨hquotas, ?_⟩
    rcases hnone with hnone | hnone
    · exact Or.inl ⟨hnone, (hprovisioned _).reaches⟩
    · exact Or.inr ⟨hnone, hprovisioned _, (hprovisioned _).reaches⟩

theorem provisioned_get (kind : StreamKind) :
    (provisioned config before).get kind = some ((before.get kind).getD (config.stream_config kind)) := by
  cases kind with
  | Bodies => rfl
  | Inbox => rfl

/-- A stream that was there with these limits has them again exactly where the other was there too. -/
theorem provisioned_put_eq_iff (hl : before.get kind = some l) :
    (provisioned config before).put kind v = before ↔ v = some l ∧ provisioned config before = before := by
  obtain ⟨bodies, inbox⟩ := before
  cases kind with
  | Bodies =>
    cases hl
    simp [provisioned, Streams.put]
  | Inbox =>
    cases hl
    simp [provisioned, Streams.put, and_comm]

theorem put_get_ne {other : StreamKind} (h : other ≠ kind) : (s.put kind v).get other = s.get other := by
  cases kind with
  | Bodies =>
    cases other with
    | Bodies => exact absurd rfl h
    | Inbox => rfl
  | Inbox =>
    cases other with
    | Bodies => rfl
    | Inbox => exact absurd rfl h

theorem put_get_self : (s.put kind v).get kind = v := by
  cases kind with
  | Bodies => rfl
  | Inbox => rfl

/-- Nothing differs. -/
theorem nothing_changed_told (hv : Vetted config before calls) (hsame : ∀ kind, ¬Differs config before kind) :
    Truthful config before calls (apply_changes config team calls [] [] [] (provisioned config before)) ↔
      Told config before calls := by
  have hcompleted : Completed config before calls := ⟨hv, fun kind hdiffers => absurd hdiffers (hsame kind)⟩
  refine truthful_of_completed hcompleted fun kind => ?_
  rw [provisioned_get, get_of_not_differs (hsame kind)]

/-- One stream differs. -/
theorem one_changed_told {c : QuotaChange} (hv : Vetted config before calls)
    (hl : before.get kind = some l) (hne : l ≠ config.stream_config kind)
    (honly : ∀ other, Differs config before other → other = kind) :
    Truthful config before calls (apply_changes config team calls [] [] [(kind, c)] (provisioned config before)) ↔
      Told config before calls := by
  have hdiffers : Differs config before kind := ⟨l, hl, hne⟩
  have hget : (provisioned config before).get kind = some l := by
    rw [provisioned_get, hl, Option.getD_some]
  rcases @apply_one config team kind (provisioned config before) calls c l hget with
    ⟨happly, outcomes, hrun⟩ | ⟨hfails, e, hrun⟩
  · have hcompleted : Completed config before calls := by
      refine ⟨hv, fun other hother => ?_⟩
      rw [honly other hother]
      exact happly
    rw [hrun]
    refine truthful_of_completed hcompleted fun other => ?_
    by_cases hother : other = kind
    · rw [hother, put_get_self]
    · rw [put_get_ne hother, provisioned_get, get_of_not_differs fun h => hother (honly other h)]
  · have hnot : ¬Completed config before calls := fun h => hfails (h.applied kind hdiffers)
    have hstate := @provisioned_put_eq_iff config kind before l
      ((calls.apply kind).after (config.stream_config kind) (some l)) hl
    rw [ApplyCalls.after_eq_iff hne hfails] at hstate
    rw [hrun]
    constructor
    · intro htruthful
      obtain ⟨hkept, hprovisioned⟩ := hstate.mp (htruthful rfl)
      refine ⟨fun hc => absurd hprovisioned ((created_iff hv.quotas hv.provisioned).mp hc), ?_, ?_,
        fun hc => absurd hc hnot⟩
      · intro _ hbodies
        rw [honly .Bodies hbodies]
        exact hkept
      · intro _ hinbox _
        rw [honly .Inbox hinbox]
        exact hkept
    · intro htold _
      apply hstate.mpr
      constructor
      · cases kind with
        | Bodies => exact htold.bodies hv hdiffers
        | Inbox =>
          refine htold.inbox hv hdiffers fun lb hlb hneb => ?_
          cases honly .Bodies ⟨lb, hlb, hneb⟩
      · by_contra hcreated
        exact hnot (htold.created ((created_iff hv.quotas hv.provisioned).mpr hcreated))

/-- Both streams differ. -/
theorem both_changed_told {lb li : Limits} {cb ci : QuotaChange} (hv : Vetted config before calls)
    (hlb : before.bodies = some lb) (hneb : lb ≠ config.stream_config .Bodies) (hli : before.inbox = some li)
    (hnei : li ≠ config.stream_config .Inbox) (hcb : cb.current = lb) :
    Truthful config before calls
        (apply_changes config team calls [] [] [(.Bodies, cb), (.Inbox, ci)] (provisioned config before)) ↔
      Told config before calls := by
  have hdb : Differs config before .Bodies := ⟨lb, hlb, hneb⟩
  have hdi : Differs config before .Inbox := ⟨li, hli, hnei⟩
  have hbefore : before = ⟨some lb, some li⟩ := by
    rw [← hlb, ← hli]
  have hstart : provisioned config before = ⟨some lb, some li⟩ := by
    rw [provisioned, hlb, hli]
    rfl
  have hcreated : ¬Created config before calls := by
    rw [created_iff hv.quotas hv.provisioned, hstart, not_not]
    exact hbefore.symm
  rw [hstart]
  rcases @apply_two config team calls lb li cb ci hcb with
    ⟨hb, hi, outcomes, hrun⟩ | ⟨hb, e, hrun⟩ | ⟨hb, hi, hrestores, e, hrun⟩ |
      ⟨hb, hi, hstuck, e, back, s', hrun⟩
  · have hcompleted : Completed config before calls := by
      refine ⟨hv, fun kind _ => ?_⟩
      cases kind with
      | Bodies => exact hb
      | Inbox => exact hi
    rw [hrun]
    refine truthful_of_completed hcompleted fun kind => ?_
    cases kind with
    | Bodies => rfl
    | Inbox => rfl
  · have hnot : ¬Completed config before calls := fun h => hb (h.applied .Bodies hdb)
    have hlost := ApplyCalls.after_eq_iff hneb hb
    rw [hrun]
    constructor
    · intro htruthful
      have hbodies := (Streams.mk.inj ((htruthful rfl).trans hbefore)).1
      refine ⟨fun hc => absurd hc hcreated, fun _ _ => hlost.mp hbodies, fun _ _ hback => ?_,
        fun hc => absurd hc hnot⟩
      exact absurd (hback lb hlb hneb).1 hb
    · intro htold _
      rw [hlost.mpr (htold.bodies hv hdb), hbefore]
  · have hnot : ¬Completed config before calls := fun h => hi (h.applied .Inbox hdi)
    have hlost := ApplyCalls.after_eq_iff hnei hi
    rw [hrun]
    constructor
    · intro htruthful
      have hinbox := (Streams.mk.inj ((htruthful rfl).trans hbefore)).2
      exact ⟨fun hc => absurd hc hcreated, fun _ _ => hb.kept, fun _ _ _ => hlost.mp hinbox,
        fun hc => absurd hc hnot⟩
    · intro htold _
      have hkept := htold.inbox hv hdi fun l hl _ => by
        rw [hlb] at hl
        cases hl
        exact ⟨hb, hrestores⟩
      rw [hlost.mpr hkept, hbefore]
  · have hnot : ¬Completed config before calls := fun h => hi (h.applied .Inbox hdi)
    rw [hrun]
    constructor
    · intro _
      refine ⟨fun hc => absurd hc hcreated, fun _ _ => hb.kept, fun _ _ hback => ?_, fun hc => absurd hc hnot⟩
      exact absurd (hback lb hlb hneb).2 hstuck
    · intro _ hmixed
      cases hmixed

/-- Where provisioning did not answer, nothing is vetted. -/
theorem not_vetted_of_unanswered (h : ¬(calls.provision kind).Answers) : ¬Vetted config before calls :=
  fun hv => h (hv.provisioned kind)

/-- From where both are provisioned. -/
theorem update_branch_told (hquotas : config.validate_quotas = .ok ())
    (hprovisioned : ∀ kind, (calls.provision kind).Answers) (hb : b.Of config before .Bodies)
    (hi : i.Of config before .Inbox) :
    Truthful config before calls (update_branch config team calls [b, i] (provisioned config before)) ↔
      Told config before calls := by
  have hfor : ∀ p ∈ [b, i], p.For config (provisioned config before) := by
    intro p hp
    rcases List.mem_pair.mp hp with rfl | rfl
    · exact hb.for_provisioned
    · exact hi.for_provisioned
  rcases @update_branch_run config team (provisioned config before) calls b i hquotas hfor with
    ⟨hcleared, changes, hvetted, hrun⟩ | ⟨hcleared, f, hrun, hmixed⟩
  · rw [hrun]
    obtain ⟨hchecked, hbudget⟩ := (cleared_iff hb hi).mp hcleared
    have hv : Vetted config before calls := ⟨hquotas, hprovisioned, hchecked, hbudget⟩
    by_cases hdb : b.differs = true
    · obtain ⟨lb, hlb, hneb⟩ := hb.differs_iff.mp hdb
      rw [List.filter_cons_of_pos hdb] at hvetted
      by_cases hdi : i.differs = true
      · obtain ⟨li, hli, hnei⟩ := hi.differs_iff.mp hdi
        rw [List.filter_cons_of_pos hdi] at hvetted
        obtain ⟨⟨kb, cb⟩, rest, hcb, hrest, rfl⟩ := List.forall₂_cons_left_iff.mp hvetted
        obtain ⟨⟨ki, ci⟩, rest', hci, hnil, rfl⟩ := List.forall₂_cons_left_iff.mp hrest
        cases hnil
        obtain ⟨rfl, hcurrent, -⟩ := hcb
        obtain ⟨rfl, -, -⟩ := hci
        rw [hb.limits, show before.get .Bodies = some lb from hlb] at hcurrent
        rw [hb.same_kind, hi.same_kind]
        exact both_changed_told hv hlb hneb hli hnei hcurrent
      · rw [List.filter_cons_of_neg hdi] at hvetted
        obtain ⟨⟨kb, cb⟩, rest, hcb, hnil, rfl⟩ := List.forall₂_cons_left_iff.mp hvetted
        cases hnil
        obtain ⟨rfl, -, -⟩ := hcb
        rw [hb.same_kind]
        refine one_changed_told hv hlb hneb fun other hother => ?_
        cases other with
        | Bodies => rfl
        | Inbox => exact absurd (hi.differs_iff.mpr hother) hdi
    · rw [List.filter_cons_of_neg hdb] at hvetted
      by_cases hdi : i.differs = true
      · obtain ⟨li, hli, hnei⟩ := hi.differs_iff.mp hdi
        rw [List.filter_cons_of_pos hdi] at hvetted
        obtain ⟨⟨ki, ci⟩, rest, hci, hnil, rfl⟩ := List.forall₂_cons_left_iff.mp hvetted
        cases hnil
        obtain ⟨rfl, -, -⟩ := hci
        rw [hi.same_kind]
        refine one_changed_told hv hli hnei fun other hother => ?_
        cases other with
        | Bodies => exact absurd (hb.differs_iff.mpr hother) hdb
        | Inbox => rfl
      · rw [List.filter_cons_of_neg hdi] at hvetted
        cases hvetted
        refine nothing_changed_told hv fun kind hdiffers => ?_
        cases kind with
        | Bodies => exact hdb (hb.differs_iff.mpr hdiffers)
        | Inbox => exact hdi (hi.differs_iff.mpr hdiffers)
  · have hnot : ¬Vetted config before calls :=
      fun hv => hcleared ((cleared_iff hb hi).mpr ⟨hv.checked, hv.budget⟩)
    rw [hrun, told_of_not_vetted hnot, created_iff hquotas hprovisioned, not_not]
    exact ⟨fun h => h hmixed, fun h _ => h⟩

/-- The body stream is not provisioned: it is there if it was reached. -/
theorem unanswered_bodies_iff (hquotas : config.validate_quotas = .ok ()) (h : ¬(calls.provision .Bodies).Answers) :
    before.put .Bodies ((calls.provision .Bodies).after (config.stream_config .Bodies) before.bodies) = before ↔
      ¬Created config before calls := by
  have hbodies := @ProvisionCalls.after_eq_iff (calls.provision .Bodies) (config.stream_config .Bodies) before.bodies
  constructor
  · intro hsame
    rintro ⟨-, hmissing | ⟨-, hanswers, -⟩⟩
    · exact hbodies.mp (congrArg Streams.bodies hsame) hmissing
    · exact h hanswers
  · intro hcreated
    have hsame := hbodies.mpr fun hmissing => hcreated ⟨hquotas, Or.inl hmissing⟩
    exact congrArg (fun l => Streams.mk l before.inbox) hsame

/-- The body stream is provisioned and the inbox stream is not. -/
theorem unanswered_inbox_iff (hquotas : config.validate_quotas = .ok ()) (hb : (calls.provision .Bodies).Answers) :
    (before.put .Bodies (some (before.bodies.getD (config.stream_config .Bodies)))).put .Inbox
        ((calls.provision .Inbox).after (config.stream_config .Inbox) before.inbox) = before ↔
      ¬Created config before calls := by
  have hinbox := @ProvisionCalls.after_eq_iff (calls.provision .Inbox) (config.stream_config .Inbox) before.inbox
  constructor
  · intro hsame
    rintro ⟨-, ⟨hnone, -⟩ | ⟨hnone, -, hreaches⟩⟩
    · have hbodies : some _ = before.bodies := congrArg Streams.bodies hsame
      rw [hnone] at hbodies
      cases hbodies
    · exact hinbox.mp (congrArg Streams.inbox hsame) ⟨hnone, hreaches⟩
  · intro hcreated
    have hkept := hinbox.mpr fun hmissing => hcreated ⟨hquotas, Or.inr ⟨hmissing.1, hb, hmissing.2⟩⟩
    have hthere : before.bodies ≠ none := fun hnone => hcreated ⟨hquotas, Or.inl ⟨hnone, hb.reaches⟩⟩
    obtain ⟨lb, hlb⟩ := Option.ne_none_iff_exists'.mp hthere
    rw [hkept, hlb, Option.getD_some, ← hlb]
    rfl

/-- **A quota change is told as it is** exactly where a stream is created only if everything after
it succeeds, and no answer to a change is lost. -/
theorem quotas_told_iff (url team : String) (quotas : StreamQuotas) (before : Streams) (calls : Calls) :
    Truthful (quotas.config url) before calls (team_stream url team quotas true calls before) ↔
      Told (quotas.config url) before calls := by
  unfold team_stream
  cases hquotas : (quotas.config url).validate_quotas with
  | error e =>
    have hnot : ¬Vetted (quotas.config url) before calls := by
      intro hv
      rw [hv.quotas] at hquotas
      cases hquotas
    rw [told_of_not_vetted hnot]
    simp only
    rw [Acts.bind_of_error (Acts.map_error_of_error (Acts.of_except_run _))]
    refine ⟨fun _ hcreated => ?_, fun _ _ => rfl⟩
    rw [hcreated.1] at hquotas
    cases hquotas
  | ok u =>
    simp only
    rw [Acts.bind_of_ok (Acts.map_error_of_ok (Acts.of_except_run _))]
    by_cases hb : (calls.provision .Bodies).Answers
    · obtain ⟨pb, hpb, hlb⟩ := @provision_answers (quotas.config url) team .Bodies before _ hquotas hb
      rw [Acts.bind_of_ok (Acts.map_error_of_ok hpb)]
      by_cases hi : (calls.provision .Inbox).Answers
      · obtain ⟨pi, hpi, hli⟩ := @provision_answers (quotas.config url) team .Inbox
          (before.put .Bodies (some ((before.get .Bodies).getD ((quotas.config url).stream_config .Bodies)))) _
          hquotas hi
        rw [Acts.bind_of_ok (Acts.map_error_of_ok hpi), if_pos trivial, truthful_bind_pure]
        have hprovisioned : ∀ kind, (calls.provision kind).Answers := by
          intro kind
          cases kind with
          | Bodies => exact hb
          | Inbox => exact hi
        exact update_branch_told hquotas hprovisioned ⟨rfl, rfl, hlb⟩ ⟨rfl, rfl, hli⟩
      · obtain ⟨e, he⟩ := @provision_fails (quotas.config url) team .Inbox
          (before.put .Bodies (some ((before.get .Bodies).getD ((quotas.config url).stream_config .Bodies)))) _
          hquotas hi
        have hstate := @unanswered_inbox_iff (quotas.config url) before calls hquotas hb
        rw [Acts.bind_of_error (Acts.map_error_of_error he), told_of_not_vetted (not_vetted_of_unanswered hi),
          ← hstate]
        exact ⟨fun htruthful => htruthful rfl, fun hsame _ => hsame⟩
    · obtain ⟨e, he⟩ := @provision_fails (quotas.config url) team .Bodies before _ hquotas hb
      have hstate := @unanswered_bodies_iff (quotas.config url) before calls hquotas hb
      rw [Acts.bind_of_error (Acts.map_error_of_error he), told_of_not_vetted (not_vetted_of_unanswered hb), ← hstate]
      exact ⟨fun htruthful => htruthful rfl, fun hsame _ => hsame⟩

end Command

/-- Calls that all go through, except that the body stream's update is applied and its answer lost. -/
def answer_lost : Calls where
  provision := fun _ => ⟨.ok (), true, .applied, .ok ⟨0, 0, none⟩, .ok ⟨2, 4096⟩⟩
  check := fun _ => ⟨.ok (), .ok (), .ok ⟨2, 4096⟩⟩
  account := ⟨.ok (), .ok ⟨0, 0, none⟩⟩
  apply := fun kind =>
    ⟨.ok (), if kind = .Bodies then .lost (.other "timed out") else .applied, .ok ⟨0, 0, none⟩, ⟨2, 4096⟩⟩
  restore_check := fun _ => ⟨.ok (), .ok (), .ok ⟨2, 4096⟩⟩
  restore := fun _ => ⟨.ok (), .applied, .ok ⟨0, 0, none⟩, ⟨2, 4096⟩⟩

/-- Two streams of a thousand messages. -/
def thousand : Streams where
  bodies := some ⟨1000, 16777216⟩
  inbox := some ⟨1000, 4194304⟩

/-- Two thousand bodies are asked for. "Nothing was changed", it says, and two thousand it is. -/
theorem quotas_changed_unsaid :
    ¬(∀ url team quotas before calls,
        Truthful (quotas.config url) before calls (team_stream url team quotas true calls before)) ∧
      team_stream "nats://n" "t" ⟨16777216, 2000, 4194304, 1000⟩ true answer_lost thousand =
        (.error (.unchanged (.could_not "update" "ACS_T_t" "timed out")),
          ⟨some ⟨2000, 16777216⟩, some ⟨1000, 4194304⟩⟩) := by
  have hrun : team_stream "nats://n" "t" ⟨16777216, 2000, 4194304, 1000⟩ true answer_lost thousand =
      (.error (.unchanged (.could_not "update" "ACS_T_t" "timed out")),
        ⟨some ⟨2000, 16777216⟩, some ⟨1000, 4194304⟩⟩) := rfl
  refine ⟨fun h => ?_, hrun⟩
  have htruthful := h "nats://n" "t" ⟨16777216, 2000, 4194304, 1000⟩ thousand answer_lost
  rw [hrun] at htruthful
  exact absurd (htruthful rfl) (by decide)

end CrewSync.Quotas
