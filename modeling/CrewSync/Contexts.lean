/-
`context.rs`: which bus, as whom, for which project.

`resolve` answers from what was given explicitly, from the record of the conversation, from
the project file of the repository, and from the profile store. A repository only ever names
things: the profile, which must be in the store, and the entry of that profile's tokens file.
So the endpoint, the identity and the file are a function of the name that was selected
(`approved_unique`), whatever else the files of the repository say.

Every text that was given is trimmed, and blank is absent. One test looks at a text that was
not: the record's profile is passed over when a token was given, and a blank one was given.
Then a window speaks as the project's profile, or the user's, where it would speak as the
conversation's (`Diverted`).

Paths are their components. What reads TOML and JSON is not part of this: `Formats` says what
each text is read as, and in which words it is refused. An error is its messages, the
outermost first.
-/
import CrewSync.BusUrl
import CrewSync.TokensFile

set_option autoImplicit false

namespace CrewSync.Contexts

open Auth (trim starts_with TOKEN_PREFIX)
open BusUrl (mcp_url_of)

/-- What `anyhow::Error` prints, the outermost message first. -/
abbrev Failed := List String

/-! ## Files -/

/-- A path: its components, from the root or from somewhere. -/
structure Path where
  absolute : Bool
  components : List String
  deriving DecidableEq, Repr

/-- `Path::new`. -/
def Path.of_text (s : String) : Path where
  absolute := s.toList.head? == some '/'
  components := ((s.toList.splitOn '/').filter fun c => c ≠ [] ∧ c ≠ ['.']).map String.ofList

/-- `Path::join`. -/
def Path.join (p q : Path) : Path :=
  if q.absolute = true then q else ⟨p.absolute, p.components ++ q.components⟩

/-- `Path::parent`. -/
def Path.parent (p : Path) : Option Path :=
  if p.components = [] then none else some ⟨p.absolute, p.components.dropLast⟩

/-- `Path::display`. -/
def Path.display (p : Path) : String :=
  (if p.absolute = true then "/" else "") ++ "/".intercalate p.components

/-- A file of this name, in no directory. -/
def Path.name (s : String) : Path := ⟨false, [s]⟩

/-- `std::io::Error`. -/
inductive ReadError
  | NotFound (text : String)
  | Other (text : String)
  deriving DecidableEq, Repr

def ReadError.text : ReadError → String
  | .NotFound text => text
  | .Other text => text

/-- The file system, as it is asked. -/
structure Fs where
  read_to_string : Path → Except ReadError String
  is_file : Path → Bool
  is_dir : Path → Bool
  canonicalize : Path → Except String Path
  current_dir : Except String Path

/-! ## What the files say -/

/-- `Profile`. -/
structure Profile where
  url : String
  team : String
  agent : String
  tokens : String
  key : Option String
  deriving DecidableEq, Repr

/-- `Profiles`; the map is its entries, in the order of their names. -/
structure Profiles where
  default : Option String
  profiles : List (String × Profile)
  deriving DecidableEq, Repr

def Profiles.get (profiles : Profiles) (name : String) : Option Profile := profiles.profiles.lookup name

/-- `ProjectConfig`. -/
structure ProjectConfig where
  profile : Option String
  project : Option String
  channel : Option String
  key : Option String
  deriving DecidableEq, Repr

/-- `ProjectConfig::default`. -/
def ProjectConfig.default : ProjectConfig := ⟨none, none, none, none⟩

/-- `Binding`, as far as it is used here. -/
structure Binding where
  session : Option String
  profile : Option String
  deriving DecidableEq, Repr

/-- A value of a TOML table: a string, or something else. -/
inductive Toml
  | string (s : String)
  | other
  deriving DecidableEq, Repr

/-- `toml::Table`. -/
abbrev Table := List (String × Toml)

/-- What each text is read as; and the words in which a table is refused that is no
`ProjectConfig`. -/
structure Formats where
  table : String → Except String Table
  refusal : Table → String
  profiles : String → Except String Profiles
  binding : String → Option Binding
  sha256_hex : String → String

/-- The files, and how they are read. -/
structure Env where
  fs : Fs
  formats : Formats

/-- `Result::with_context`. -/
def with_context {α : Type} (x : Except String α) (context : String) : Except Failed α :=
  match x with
  | .ok a => .ok a
  | .error e => .error [context, e]

/-- A file that has to be there. -/
def reading (env : Env) (path : Path) : Except Failed String :=
  match env.fs.read_to_string path with
  | .ok text => .ok text
  | .error e => .error ["reading " ++ path.display, e.text]

/-! ## The profile store -/

/-- `validate_name`. -/
def validate_name (what raw : String) : Except Failed String :=
  let name := trim raw
  if name ≠ "" ∧ name.utf8ByteSize ≤ 64 ∧
      name.toList.all (fun c => c.isAlphanum || c == '-' || c == '_' || c == '.') = true ∧
      starts_with "." name = false then .ok name
  else .error [what ++ " '" ++ raw ++ "' is not valid: use letters, digits, '-', '_' and '.' " ++
    "(up to 64, not starting with '.')"]

/-- `validate_tokens_ref`. -/
def validate_tokens_ref (raw : String) : Except Failed String :=
  let name := trim raw
  if name = "" ∨ '/' ∈ name.toList ∨ '\\' ∈ name.toList ∨ name = "." ∨ name = ".." ∨
      starts_with "." name = true then
    .error ["tokens file '" ++ raw ++ "' must be a bare file name inside the configuration " ++
      "directory, such as tokens-acme"]
  else .ok name

def PROFILES_FILE : String := "profiles.toml"

/-- The loop of `load_profiles` over the profiles. -/
def validate_profiles : List (String × Profile) → Except Failed Unit
  | [] => .ok ()
  | (name, profile) :: rest => do
    let _ ← validate_name "profile name" name
    let _ ← validate_tokens_ref profile.tokens
    validate_profiles rest

/-- `load_profiles`. -/
def load_profiles (env : Env) (dir : Path) : Except Failed Profiles :=
  let path := dir.join (Path.name PROFILES_FILE)
  match env.fs.read_to_string path with
  | .error (.NotFound _) => .ok ⟨none, []⟩
  | .error (.Other text) => .error ["reading " ++ path.display, text]
  | .ok text => do
    let parsed ← with_context (env.formats.profiles text) ("parsing " ++ path.display)
    validate_profiles parsed.profiles
    .ok parsed

/-! ## The project file -/

def PROJECT_FILE : String := ".acs.toml"

/-- `FORBIDDEN_PROJECT_KEYS`. -/
def FORBIDDEN_PROJECT_KEYS : List String := ["url", "endpoint", "token", "tokens", "bearer", "secret"]

/-- The fields of `ProjectConfig`, which denies any other. -/
def PROJECT_KEYS : List String := ["profile", "project", "channel", "key"]

/-- A field of a table, if it is a string. -/
def string_field (table : Table) (key : String) : Option String :=
  match table.lookup key with
  | some (.string s) => some s
  | _ => none

/-- `Table::try_into::<ProjectConfig>`. -/
def try_into (formats : Formats) (table : Table) : Except String ProjectConfig :=
  if table.all (fun e => PROJECT_KEYS.contains e.1 && e.2 != .other) = true then
    .ok ⟨string_field table "profile", string_field table "project", string_field table "channel",
      string_field table "key"⟩
  else .error (formats.refusal table)

/-- A name that may be absent, and is valid otherwise. -/
def validate_optional (what : String) : Option String → Except Failed Unit
  | none => .ok ()
  | some raw => (validate_name what raw).map fun _ => ()

/-- `parse_project_file`. -/
def parse_project_file (formats : Formats) (text : String) (path : Path) : Except Failed ProjectConfig := do
  let table ← with_context (formats.table text) ("parsing " ++ path.display)
  match FORBIDDEN_PROJECT_KEYS.find? fun key => (table.lookup key).isSome with
  | some key => .error [path.display ++ " sets '" ++ key ++ "', which a repository may not do: endpoints " ++
      "and credentials come from your local profiles only (`ai-crew-sync context profile add`). " ++
      "Remove the key"]
  | none =>
    let cfg ← with_context (try_into formats table) (path.display ++ " has a key this version does not " ++
      "accept. A project file may only set profile, project, channel and key — never an endpoint or " ++
      "a credential")
    validate_optional "profile name" cfg.profile
    validate_optional "project name" cfg.project
    validate_optional "token key" cfg.key
    .ok cfg

def MAX_ASCENT : ℕ := 64

/-- `text.trim().strip_prefix("gitdir:")?.trim()`. -/
def gitdir_of (text : String) : Option String :=
  let text := (trim text).toList
  if "gitdir:".toList <+: text then some (trim (String.ofList (text.drop 7))) else none

/-- `main_worktree_of`. -/
def main_worktree_of (env : Env) (dot_git_file : Path) : Option Path := do
  let text ← (env.fs.read_to_string dot_git_file).toOption
  let gitdir := Path.of_text (← gitdir_of text)
  let gitdir ← if gitdir.absolute = true then some gitdir else dot_git_file.parent.map (·.join gitdir)
  let common ← (env.fs.read_to_string (gitdir.join (Path.name "commondir"))).toOption
  let common_dir ← (env.fs.canonicalize (gitdir.join (Path.of_text (trim common)))).toOption
  common_dir.parent

/-- How the search of `find_project` upwards ends. -/
inductive Ascent
  | found (root : Path) (cfg : ProjectConfig)
  | ended (worktree_main : Option Path)

/-- The loop of `find_project`. -/
def ascend (env : Env) : ℕ → Option Path → Option Path → Except Failed Ascent
  | 0, _, worktree_main => .ok (.ended worktree_main)
  | _ + 1, none, worktree_main => .ok (.ended worktree_main)
  | n + 1, some d, worktree_main =>
    let candidate := d.join (Path.name PROJECT_FILE)
    if env.fs.is_file candidate = true then do
      let text ← reading env candidate
      let cfg ← parse_project_file env.formats text candidate
      .ok (.found d cfg)
    else
      let dot_git := d.join (Path.name ".git")
      let worktree_main :=
        if env.fs.is_file dot_git = true ∧ worktree_main.isNone = true then main_worktree_of env dot_git
        else worktree_main
      if env.fs.is_dir dot_git = true then .ok (.ended worktree_main)
      else if env.fs.is_file dot_git = true then .ok (.ended worktree_main)
      else ascend env n d.parent worktree_main

/-- `find_project`. -/
def find_project (env : Env) (start : Path) : Except Failed (Option (Path × ProjectConfig)) := do
  let start ← with_context (env.fs.canonicalize start) ("resolving " ++ start.display)
  match ← ascend env MAX_ASCENT (some start) none with
  | .found root cfg => .ok (some (root, cfg))
  | .ended none => .ok none
  | .ended (some main) =>
    let candidate := main.join (Path.name PROJECT_FILE)
    if env.fs.is_file candidate = true then do
      let text ← reading env candidate
      let cfg ← parse_project_file env.formats text candidate
      .ok (some (main, cfg))
    else .ok none

/-! ## The record of the conversation -/

/-- `session_for_host`. -/
def session_for_host (formats : Formats) (host_id : String) : String :=
  "s-" ++ String.ofList ((formats.sha256_hex (trim host_id)).toList.take 12)

/-- `binding_path`. -/
def binding_path (formats : Formats) (dir : Path) (host_id : String) : Path :=
  (dir.join (Path.name "sessions")).join (Path.name (formats.sha256_hex (trim host_id) ++ ".json"))

/-- `read_binding`. -/
def read_binding (env : Env) (dir : Path) (host_id : String) : Option Binding :=
  match env.fs.read_to_string (binding_path env.formats dir host_id) with
  | .ok text => env.formats.binding text
  | .error _ => none

/-! ## `resolve` -/

/-- `Origin`. -/
inductive Origin
  | Environment
  | Flag
  deriving DecidableEq, Repr

/-- `Inputs`. -/
structure Inputs where
  config_dir : Path
  explicit_url : Option String
  url_origin : Option Origin
  explicit_token : Option String
  token_origin : Option Origin
  explicit_session : Option String
  profile : Option String
  project_dir : Option Path
  host_session : Option String
  deriving DecidableEq, Repr

/-- `Source`. -/
inductive Source
  | Explicit
  | ProfileFlag
  | ProjectDefault
  | UserDefault
  deriving DecidableEq, Repr

/-- `Resolved`. -/
structure Resolved where
  mcp_url : String
  token : String
  source : Source
  profile : Option String
  expected : Option (String × String)
  tokens_file : Option Path
  token_key : Option String
  project : Option String
  channel : Option String
  project_root : Option Path
  session : Option String
  token_origin : Option Origin
  url_origin : Option Origin
  warnings : List String
  deriving DecidableEq, Repr

/-- `none_if_blank`. -/
def none_if_blank (v : Option String) : Option String := (v.map trim).filter fun s => s ≠ ""

def DEFAULT_MCP_URL : String := "http://localhost:8787/mcp"

/-- `BASE_KEY`. -/
def BASE_KEY : String := "_base"

/-- `mcp_url_of`, with its message. -/
def mcp_url (base : String) : Except Failed String :=
  match mcp_url_of base with
  | .ok url => .ok url
  | .error e => .error [e]

/-- `read_token_entry`. -/
def read_token_entry (env : Env) (path : Path) (key : String) : Except Failed (Option String) :=
  match env.fs.read_to_string path with
  | .error (.NotFound _) => .ok none
  | .error (.Other text) => .error ["reading " ++ path.display, text]
  | .ok text => .ok ((TokensFile.read_token_entry text.toList key.toList).map String.ofList)

/-- The session of the window: what was given, or what the conversation fixes. -/
def session_of (formats : Formats) (explicit_session host_session : Option String)
    (binding : Option Binding) : Option String :=
  match explicit_session, host_session with
  | some s, _ => some s
  | none, some id => some ((binding.bind (·.session)).getD (session_for_host formats id))
  | none, none => none

/-- The profile that was given, or the record's where no token was. -/
def profile_flag_of (inputs : Inputs) (binding : Option Binding) : Option String :=
  match none_if_blank inputs.profile with
  | some p => some p
  | none => if inputs.explicit_token.isNone = true then binding.bind (·.profile) else none

/-- The profile that explicit credentials from the environment outrank. -/
def shadowed (env : Env) (config_dir : Path) (cfg : ProjectConfig) : Option (String × String) :=
  match cfg.profile with
  | some p => some (p, "the project's .acs.toml names")
  | none => ((load_profiles env config_dir).toOption.bind (·.default)).map fun p => (p, "the user default is")

/-- What names the two sources of explicit credentials. -/
structure Given where
  config_dir : Path
  url_origin : Option Origin
  token_origin : Option Origin
  explicit_url : Option String
  profile : Option String

/-- The branch of `resolve` for explicit credentials. -/
def resolve_explicit (env : Env) (given : Given) (token : String) (root : Option Path) (cfg : ProjectConfig)
    (session : Option String) : Except Failed Resolved :=
  match given.profile with
  | some p => .error ["both explicit credentials (--token / BUS_TOKEN) and a profile ('" ++ p ++ "', from " ++
      "--profile / BUS_PROFILE) were given; drop one so it is clear which identity this window uses"]
  | none => do
    let warnings :=
      if given.token_origin = some .Environment then
        match shadowed env given.config_dir cfg with
        | some (name, how) => ["BUS_TOKEN (environment) is overriding profile '" ++ name ++ "' (" ++ how ++
            " it): this window authenticates with the environment token, not the profile. Unset BUS_TOKEN " ++
            "and BUS_URL to use the profile, or drop the profile if the override is intended. " ++
            "`ai-crew-sync context verify` shows who each one is."]
        | none => []
      else []
    let url ← match given.explicit_url with
      | some u => mcp_url u
      | none => .ok DEFAULT_MCP_URL
    .ok {
      mcp_url := url
      token := token
      source := .Explicit
      profile := none
      expected := none
      tokens_file := none
      token_key := none
      project := cfg.project
      channel := cfg.channel
      project_root := root
      session := session
      token_origin := given.token_origin
      url_origin := given.url_origin
      warnings := warnings }

/-- Which profile, and which rule chose it. -/
def select (profile_flag : Option String) (cfg : ProjectConfig) (profiles : Profiles) :
    Except Failed (String × Source) :=
  match profile_flag, cfg.profile, profiles.default with
  | some name, _, _ => .ok (name, .ProfileFlag)
  | none, some name, _ => .ok (name, .ProjectDefault)
  | none, none, some name => .ok (name, .UserDefault)
  | none, none, none => .error ["no credentials: pass --token / set BUS_TOKEN, select a profile with " ++
      "--profile / BUS_PROFILE, add `profile = \"<name>\"` to " ++ PROJECT_FILE ++ " at the project root, or " ++
      "set a default with `ai-crew-sync context profile default <name>` " ++
      "(profiles: `ai-crew-sync context profile add`)"]

/-- Where the name of an unknown profile came from. -/
def where_from (root : Option Path) : Source → String
  | .ProfileFlag => "selected with --profile / BUS_PROFILE"
  | .ProjectDefault => "named by " ++
      (root.map fun r => (r.join (Path.name PROJECT_FILE)).display).getD PROJECT_FILE ++
      " — a repository may only reference profiles you approved locally"
  | _ => "set as the user default"

/-- The entries that are looked for, in this order. -/
def candidates (cfg : ProjectConfig) (profile : Profile) : List String :=
  (([cfg.key, cfg.project, profile.key].filterMap id).foldl
    (fun found c => if c ∈ found then found else found ++ [c]) []) ++ [BASE_KEY]

/-- The first of the entries that the file has. -/
def first_entry (env : Env) (file : Path) : List String → Except Failed (Option (String × String))
  | [] => .ok none
  | key :: rest =>
    match read_token_entry env file key with
    | .error e => .error e
    | .ok (some token) => .ok (some (key, token))
    | .ok none => first_entry env file rest

/-- The message for a profile that is not in the store. -/
def unknown_profile (root : Option Path) (profiles : Profiles) (name : String) (source : Source) : Failed :=
  let known := profiles.profiles.map (·.1)
  ["profile '" ++ name ++ "' does not exist (" ++ where_from root source ++ "). Known profiles: " ++
    (if known = [] then "none" else ", ".intercalate known) ++ ". Create it with `ai-crew-sync context " ++
    "profile add --name " ++ name ++ " --url <bus> --team <team> --agent <agent> --tokens tokens-<team>`"]

/-- The message for a tokens file without any of the entries. -/
def no_entry (name : String) (profile : Profile) (keys : List String) (tokens_file : Path) : Failed :=
  ["profile '" ++ name ++ "': no entry " ++ " or ".intercalate (keys.map fun c => "'" ++ c ++ "'") ++ " in " ++
    tokens_file.display ++ ". Issue one with `ai-crew-sync admin token issue --team " ++ profile.team ++
    " --agent " ++ profile.agent ++ " --save --repo " ++ keys.head?.getD BASE_KEY ++ "`"]

/-- The message for an entry that is no agent token. -/
def not_agent_token (name token_key : String) (tokens_file : Path) : Failed :=
  ["profile '" ++ name ++ "': entry '" ++ token_key ++ "' in " ++ tokens_file.display ++
    " is not an agent token (expected the " ++ TOKEN_PREFIX ++ " prefix)"]

/-- The end of `resolve`, for the profile that was selected. -/
def settle (env : Env) (given : Given) (root : Option Path) (cfg : ProjectConfig) (session : Option String)
    (profiles : Profiles) (name : String) (source : Source) : Except Failed Resolved := do
  let name ← validate_name "profile name" name
  match profiles.get name with
  | none => .error (unknown_profile root profiles name source)
  | some profile =>
    let url_origin := if given.explicit_url.isSome = true then given.url_origin else none
    let warnings :=
      if given.explicit_url.isSome = true ∧ given.url_origin = some .Environment then
        ["BUS_URL (environment) is overriding profile '" ++ name ++ "'s endpoint: the profile's token will be " ++
          "presented to a different bus. Unset BUS_URL to use the profile's endpoint, or pass --url if the " ++
          "override is intended."]
      else []
    let url ← mcp_url (given.explicit_url.getD profile.url)
    let tokens ← validate_tokens_ref profile.tokens
    let tokens_file := given.config_dir.join (Path.name tokens)
    match ← first_entry env tokens_file (candidates cfg profile) with
    | none => .error (no_entry name profile (candidates cfg profile) tokens_file)
    | some (token_key, token) =>
      if starts_with TOKEN_PREFIX token = false then
        .error (not_agent_token name token_key tokens_file)
      else
        .ok {
          mcp_url := url
          token := token
          source := source
          profile := some name
          expected := some (profile.team, profile.agent)
          tokens_file := some tokens_file
          token_key := some token_key
          project := cfg.project
          channel := cfg.channel
          project_root := root
          session := session
          token_origin := none
          url_origin := url_origin
          warnings := warnings }

/-- Where the project file is searched for. -/
def start_of (env : Env) (project_dir : Option Path) : Except Failed Path :=
  match project_dir with
  | some d => .ok d
  | none => with_context env.fs.current_dir "reading the current directory"

/-- What `resolve` does from the project file on. -/
def resolve_from (env : Env) (given : Given) (explicit_token profile_flag session : Option String)
    (project_dir : Option Path) : Except Failed Resolved := do
  let start ← start_of env project_dir
  let project ← find_project env start
  let root := project.map (·.1)
  let cfg := (project.map (·.2)).getD ProjectConfig.default
  match explicit_token with
  | some token => resolve_explicit env given token root cfg session
  | none =>
    let profiles ← load_profiles env given.config_dir
    let selected ← select profile_flag cfg profiles
    settle env given root cfg session profiles selected.1 selected.2

/-- The parts of the inputs that both branches go on with. -/
def Inputs.given (inputs : Inputs) : Given :=
  ⟨inputs.config_dir, inputs.url_origin, inputs.token_origin, none_if_blank inputs.explicit_url,
    none_if_blank inputs.profile⟩

/-- The record of the conversation, if the host named one. -/
def binding_of (env : Env) (inputs : Inputs) : Option Binding :=
  (none_if_blank inputs.host_session).bind (read_binding env inputs.config_dir)

/-- `resolve`. -/
def resolve (env : Env) (inputs : Inputs) : Except Failed Resolved :=
  let binding := binding_of env inputs
  let session := session_of env.formats (none_if_blank inputs.explicit_session)
    (none_if_blank inputs.host_session) binding
  resolve_from env inputs.given (none_if_blank inputs.explicit_token) (profile_flag_of inputs binding) session
    inputs.project_dir

/-! ## What a success says -/

section Success

variable {ε α β : Type} {x : Except ε α} {f : α → Except ε β} {b : β}

/-- A computation in two parts succeeds when both parts do. -/
theorem bind_eq_ok : (x >>= f) = .ok b ↔ ∃ a, x = .ok a ∧ f a = .ok b := by
  cases x with
  | error e =>
    constructor
    · intro h
      cases h
    · rintro ⟨a, ha, -⟩
      cases ha
  | ok a =>
    constructor
    · intro h
      exact ⟨a, rfl, h⟩
    · rintro ⟨a', ha, h⟩
      cases ha
      exact h

/-- It fails where the first part does, or the second after it. -/
theorem bind_eq_error {e : ε} : (x >>= f) = .error e ↔ x = .error e ∨ ∃ a, x = .ok a ∧ f a = .error e := by
  cases x with
  | error e' =>
    constructor
    · intro h
      cases h
      exact Or.inl rfl
    · rintro (h | ⟨a, ha, -⟩)
      · cases h
        rfl
      · cases ha
  | ok a =>
    constructor
    · intro h
      exact Or.inr ⟨a, rfl, h⟩
    · rintro (h | ⟨a', ha, h⟩)
      · cases h
      · cases ha
        exact h

end Success

variable {env : Env} {given : Given} {inputs : Inputs} {root : Option Path} {cfg : ProjectConfig}
  {session : Option String} {profiles : Profiles} {name : String} {source : Source} {profile : Profile}
  {r : Resolved} {raw : String} {file : Path} {key token : String} {env' : Env}

/-- A file name that stays in its directory. -/
structure Inside (file : String) : Prop where
  nonempty : file ≠ ""
  slash : '/' ∉ file.toList
  backslash : '\\' ∉ file.toList
  dot : starts_with "." file = false

theorem validate_tokens_ref_ok {file : String} (h : validate_tokens_ref raw = .ok file) :
    file = trim raw ∧ Inside file := by
  unfold validate_tokens_ref at h
  simp only at h
  split at h
  · cases h
  · rename_i hnot
    cases h
    simp only [not_or] at hnot
    exact ⟨rfl, hnot.1, hnot.2.1, hnot.2.2.1, Bool.eq_false_iff.mpr hnot.2.2.2.2.2⟩

theorem mcp_url_ok {base url : String} (h : mcp_url base = .ok url) : mcp_url_of base = .ok url := by
  unfold mcp_url at h
  split at h
  · rename_i hurl
    cases h
    exact hurl
  · cases h

theorem first_entry_some {keys : List String} (h : first_entry env file keys = .ok (some (key, token))) :
    read_token_entry env file key = .ok (some token) := by
  induction keys with
  | nil => cases h
  | cons k keys ih =>
    rw [first_entry] at h
    split at h
    · cases h
    · rename_i hread
      cases h
      exact hread
    · exact ih h

theorem read_token_entry_ok (h : read_token_entry env file key = .ok (some token)) :
    ∃ text, env.fs.read_to_string file = .ok text ∧
      TokensFile.HasEntry text.toList key.toList token.toList := by
  unfold read_token_entry at h
  split at h
  · cases h
  · cases h
  · rename_i text htext
    refine ⟨text, htext, ?_⟩
    obtain ⟨found, hfound, rfl⟩ := Option.map_eq_some_iff.mp (Except.ok.inj h)
    rw [String.toList_ofList]
    exact TokensFile.read_token_entry_some hfound

/-- The answer is what the operator approved under this name: the profile's endpoint or the
explicit one, the profile's identity, and an entry of the profile's tokens file. -/
structure Approved (env : Env) (given : Given) (profiles : Profiles) (name : String) (profile : Profile)
    (r : Resolved) : Prop where
  defined : profiles.get name = some profile
  selected : r.profile = some name
  url : mcp_url_of (given.explicit_url.getD profile.url) = .ok r.mcp_url
  expected : r.expected = some (profile.team, profile.agent)
  inside : Inside (trim profile.tokens)
  file : r.tokens_file = some (given.config_dir.join (Path.name (trim profile.tokens)))
  entry : ∃ text key, env.fs.read_to_string (given.config_dir.join (Path.name (trim profile.tokens))) = .ok text ∧
    TokensFile.HasEntry text.toList key r.token.toList

theorem settle_ok (h : settle env given root cfg session profiles name source = .ok r) :
    r.source = source ∧ ∃ name' profile, Approved env given profiles name' profile r := by
  unfold settle at h
  obtain ⟨name', -, h⟩ := bind_eq_ok.mp h
  simp only at h
  split at h
  · cases h
  · rename_i profile hprofile
    obtain ⟨url, hurl, h⟩ := bind_eq_ok.mp h
    obtain ⟨tokens, htokens, h⟩ := bind_eq_ok.mp h
    obtain ⟨found, hfound, h⟩ := bind_eq_ok.mp h
    obtain ⟨rfl, hinside⟩ := validate_tokens_ref_ok htokens
    split at h
    · cases h
    · rename_i token_key token
      obtain ⟨text, htext, hentry⟩ := read_token_entry_ok (first_entry_some hfound)
      split at h
      · cases h
      · cases h
        exact ⟨rfl, name', profile, hprofile, rfl, mcp_url_ok hurl, rfl, hinside, rfl, text, _, htext, hentry⟩

theorem resolve_from_ok {profile_flag : Option String} {project_dir : Option Path}
    (h : resolve_from env given none profile_flag session project_dir = .ok r) :
    ∃ profiles name profile, load_profiles env given.config_dir = .ok profiles ∧
      Approved env given profiles name profile r := by
  unfold resolve_from at h
  obtain ⟨start, -, h⟩ := bind_eq_ok.mp h
  obtain ⟨project, -, h⟩ := bind_eq_ok.mp h
  obtain ⟨profiles, hprofiles, h⟩ := bind_eq_ok.mp h
  obtain ⟨selected, -, h⟩ := bind_eq_ok.mp h
  obtain ⟨-, name, profile, happroved⟩ := settle_ok h
  exact ⟨profiles, name, profile, hprofiles, happroved⟩

/-- **A repository chooses among approved pairs**, whatever its files say. -/
theorem resolve_approved (htoken : none_if_blank inputs.explicit_token = none) (h : resolve env inputs = .ok r) :
    ∃ profiles name profile, load_profiles env inputs.config_dir = .ok profiles ∧
      Approved env inputs.given profiles name profile r := by
  unfold resolve at h
  rw [htoken] at h
  exact resolve_from_ok h

/-- The answer under a name is one: the endpoint, the identity and the file are the profile's. -/
theorem approved_unique {r' : Resolved} {name' : String} {profile' : Profile}
    (h : Approved env given profiles name profile r) (h' : Approved env' given profiles name' profile' r')
    (hname : r.profile = r'.profile) :
    r.mcp_url = r'.mcp_url ∧ r.expected = r'.expected ∧ r.tokens_file = r'.tokens_file := by
  have hsame : name = name' := by
    rw [h.selected, h'.selected] at hname
    exact Option.some.inj hname
  subst hsame
  have hprofile : profile = profile' := by
    have hget := h.defined
    rw [h'.defined] at hget
    exact (Option.some.inj hget).symm
  subst hprofile
  have hurl := h.url
  rw [h'.url] at hurl
  exact ⟨(Except.ok.inj hurl).symm, by rw [h.expected, h'.expected], by rw [h.file, h'.file]⟩

/-- The two file systems hold the same configuration directory. -/
structure SameStore (dir : Path) (env env' : Env) : Prop where
  formats : env.formats = env'.formats
  files : ∀ q : Path, q.absolute = false → env.fs.read_to_string (dir.join q) = env'.fs.read_to_string (dir.join q)

theorem SameStore.load_profiles {dir : Path} (h : SameStore dir env env') :
    load_profiles env dir = load_profiles env' dir := by
  have hread := h.files (Path.name PROFILES_FILE) rfl
  unfold Contexts.load_profiles
  simp only [hread, h.formats]

/-- **A repository can only choose among locally approved pairs.** Without an explicit token,
whatever the project file and all other files are, the answer is what the operator approved
under the name that was selected; and two repositories under which the same name is selected
get the same endpoint, identity and tokens file. -/
theorem repository_only_chooses :
    (∀ env inputs r, none_if_blank inputs.explicit_token = none → resolve env inputs = .ok r →
      ∃ profiles name profile, load_profiles env inputs.config_dir = .ok profiles ∧
        Approved env inputs.given profiles name profile r) ∧
    ∀ env env' inputs project_dir r r', none_if_blank inputs.explicit_token = none →
      SameStore inputs.config_dir env env' → resolve env inputs = .ok r →
      resolve env' { inputs with project_dir := project_dir } = .ok r' → r.profile = r'.profile →
        r.mcp_url = r'.mcp_url ∧ r.expected = r'.expected ∧ r.tokens_file = r'.tokens_file := by
  refine ⟨fun env inputs r htoken h => resolve_approved htoken h, ?_⟩
  intro env env' inputs project_dir r r' htoken hstore h h' hname
  obtain ⟨profiles, name, profile, hprofiles, happroved⟩ := resolve_approved htoken h
  obtain ⟨profiles', name', profile', hprofiles', happroved'⟩ :=
    @resolve_approved env' { inputs with project_dir := project_dir } r' htoken h'
  have hsame : profiles = profiles' := by
    rw [hstore.load_profiles] at hprofiles
    exact Except.ok.inj (hprofiles.symm.trans hprofiles')
  subst hsame
  exact approved_unique happroved happroved' hname

/-- Two profiles, `a` and `b`, the default `a`. -/
def store : Profiles where
  default := some "a"
  profiles := [("a", ⟨"http://bus", "crew", "ann", "of-a", none⟩),
    ("b", ⟨"http://bus", "crew", "bo", "of-b", none⟩)]

/-- Two repositories that name the profile `a`, the second with an entry, and a conversation that is
recorded under `b`. -/
def desk : Env where
  fs := {
    read_to_string := fun p => match p.components with
      | ["c", "profiles.toml"] => .ok ("default=\"a\"\n" ++
          "[profiles.a]\nurl=\"http://bus\"\nteam=\"crew\"\nagent=\"ann\"\ntokens=\"of-a\"\n" ++
          "[profiles.b]\nurl=\"http://bus\"\nteam=\"crew\"\nagent=\"bo\"\ntokens=\"of-b\"\n")
      | ["c", "of-a"] => .ok "_base=acs_A\nw=acs_W\n"
      | ["c", "of-b"] => .ok "_base=acs_B\n"
      | ["c", "sessions", _] => .ok "\x7b\"profile\":\"b\"\x7d"
      | ["r", ".acs.toml"] => .ok "profile=\"a\"\n"
      | ["s", ".acs.toml"] => .ok "profile=\"a\"\nkey=\"w\"\n"
      | _ => .error (.NotFound "No such file or directory (os error 2)")
    is_file := fun p => p.components = ["r", ".acs.toml"] ∨ p.components = ["s", ".acs.toml"]
    is_dir := fun _ => false
    canonicalize := fun p => .ok p
    current_dir := .ok ⟨true, ["r"]⟩ }
  formats := {
    table := fun text =>
      .ok (("profile", .string "a") :: if text = "profile=\"a\"\n" then [] else [("key", .string "w")])
    refusal := fun _ => "unknown field"
    profiles := fun _ => .ok store
    binding := fun _ => some ⟨none, some "b"⟩
    sha256_hex := fun _ => "50e721e49c013f00c62cf59f2163542a9d8df02464efeb615d31051b0fddc326" }

/-- A window in the first repository. -/
def window : Inputs where
  config_dir := ⟨true, ["c"]⟩
  explicit_url := none
  url_origin := none
  explicit_token := none
  token_origin := none
  explicit_session := none
  profile := none
  project_dir := some ⟨true, ["r"]⟩
  host_session := none

/-- What a window speaks as under the profile `a`. -/
def as_ann (root token key : String) : Resolved where
  mcp_url := "http://bus/mcp"
  token := token
  source := .ProjectDefault
  profile := some "a"
  expected := some ("crew", "ann")
  tokens_file := some ⟨true, ["c", "of-a"]⟩
  token_key := some key
  project := none
  channel := none
  project_root := some ⟨true, [root]⟩
  session := none
  token_origin := none
  url_origin := none
  warnings := []

/-- Two entries of one file, for one identity at one endpoint. -/
theorem repository_only_chooses_desk :
    (∃ profiles name profile, load_profiles desk window.config_dir = .ok profiles ∧
      Approved desk window.given profiles name profile (as_ann "r" "acs_A" "_base")) ∧
    (as_ann "r" "acs_A" "_base").mcp_url = (as_ann "s" "acs_W" "w").mcp_url ∧
    (as_ann "r" "acs_A" "_base").expected = (as_ann "s" "acs_W" "w").expected ∧
    (as_ann "r" "acs_A" "_base").tokens_file = (as_ann "s" "acs_W" "w").tokens_file :=
  ⟨repository_only_chooses.1 desk window _ (by decide) (by decide),
    repository_only_chooses.2 desk desk window (some ⟨true, ["s"]⟩) _ _ (by decide) ⟨rfl, fun _ _ => rfl⟩
      (by decide) (by decide) rfl⟩

/-! ## Blank is absent -/

/-- Empty, or only whitespace. -/
def Blank (s : String) : Prop := ∀ c ∈ s.toList, Auth.is_whitespace c = true

/-- The field is as it was, or was blank and is absent. -/
def Cleared (v v' : Option String) : Prop := v' = v ∨ ∃ s, v = some s ∧ Blank s ∧ v' = none

/-- Any of the five texts that were given are cleared, and nothing else is changed. -/
structure Clears (inputs inputs' : Inputs) : Prop where
  config_dir : inputs'.config_dir = inputs.config_dir
  url_origin : inputs'.url_origin = inputs.url_origin
  token_origin : inputs'.token_origin = inputs.token_origin
  project_dir : inputs'.project_dir = inputs.project_dir
  explicit_url : Cleared inputs.explicit_url inputs'.explicit_url
  explicit_token : Cleared inputs.explicit_token inputs'.explicit_token
  explicit_session : Cleared inputs.explicit_session inputs'.explicit_session
  profile : Cleared inputs.profile inputs'.profile
  host_session : Cleared inputs.host_session inputs'.host_session

/-- A blank token was given and no profile, and the record of the conversation names one. -/
structure Diverted (env : Env) (inputs : Inputs) (p : String) : Prop where
  token : ∃ s, inputs.explicit_token = some s ∧ Blank s
  profile : none_if_blank inputs.profile = none
  recorded : (binding_of env inputs).bind (·.profile) = some p

/-- Why a profile of the store cannot be used, in the order of the checks. -/
inductive Unusable (env : Env) (given : Given) (cfg : ProjectConfig) (name : String) (profile : Profile) :
    Failed → Prop
  | url {e : Failed} (h : mcp_url (given.explicit_url.getD profile.url) = .error e) :
      Unusable env given cfg name profile e
  | tokens {url : String} {e : Failed} (hurl : mcp_url (given.explicit_url.getD profile.url) = .ok url)
      (h : validate_tokens_ref profile.tokens = .error e) : Unusable env given cfg name profile e
  | unread {url tokens : String} {e : Failed} (hurl : mcp_url (given.explicit_url.getD profile.url) = .ok url)
      (htokens : validate_tokens_ref profile.tokens = .ok tokens)
      (h : first_entry env (given.config_dir.join (Path.name tokens)) (candidates cfg profile) = .error e) :
      Unusable env given cfg name profile e
  | no_entry {url tokens : String} (hurl : mcp_url (given.explicit_url.getD profile.url) = .ok url)
      (htokens : validate_tokens_ref profile.tokens = .ok tokens)
      (h : first_entry env (given.config_dir.join (Path.name tokens)) (candidates cfg profile) = .ok none) :
      Unusable env given cfg name profile
        (Contexts.no_entry name profile (candidates cfg profile) (given.config_dir.join (Path.name tokens)))
  | not_agent_token {url tokens token_key token : String}
      (hurl : mcp_url (given.explicit_url.getD profile.url) = .ok url)
      (htokens : validate_tokens_ref profile.tokens = .ok tokens)
      (h : first_entry env (given.config_dir.join (Path.name tokens)) (candidates cfg profile) =
        .ok (some (token_key, token)))
      (htoken : starts_with TOKEN_PREFIX token = false) :
      Unusable env given cfg name profile
        (Contexts.not_agent_token name token_key (given.config_dir.join (Path.name tokens)))

/-- Why a selected name is refused. -/
inductive Refused (env : Env) (given : Given) (root : Option Path) (cfg : ProjectConfig) (profiles : Profiles)
    (raw : String) (source : Source) : Failed → Prop
  | invalid {e : Failed} (h : validate_name "profile name" raw = .error e) :
      Refused env given root cfg profiles raw source e
  | unknown {name : String} (hname : validate_name "profile name" raw = .ok name)
      (h : profiles.get name = none) :
      Refused env given root cfg profiles raw source (unknown_profile root profiles name source)
  | unusable {name : String} {profile : Profile} {e : Failed} (hname : validate_name "profile name" raw = .ok name)
      (hprofile : profiles.get name = some profile) (h : Unusable env given cfg name profile e) :
      Refused env given root cfg profiles raw source e

/-- Why there is no answer under a project file and a profile store, where the flag is as given. -/
inductive NoChoice (env : Env) (given : Given) (project : Option (Path × ProjectConfig)) (profiles : Profiles)
    (profile_flag : Option String) : Failed → Prop
  | nothing {e : Failed}
      (h : select profile_flag ((project.map (·.2)).getD ProjectConfig.default) profiles = .error e) :
      NoChoice env given project profiles profile_flag e
  | refused {raw : String} {source : Source} {e : Failed}
      (hselect : select profile_flag ((project.map (·.2)).getD ProjectConfig.default) profiles = .ok (raw, source))
      (h : Refused env given (project.map (·.1)) ((project.map (·.2)).getD ProjectConfig.default) profiles raw
        source e) :
      NoChoice env given project profiles profile_flag e

/-- The record's profile and the one that is selected without it are refused in the same words;
where the project file or the profile store cannot be read, neither is asked for. -/
def RefusedAlike (env : Env) (inputs : Inputs) (p : String) : Prop :=
  ∀ start project profiles, start_of env inputs.project_dir = .ok start → find_project env start = .ok project →
    load_profiles env inputs.config_dir = .ok profiles →
      ∃ e, NoChoice env inputs.given project profiles none e ∧ NoChoice env inputs.given project profiles (some p) e

variable {e : Failed}

/-- The end of `resolve` fails for these reasons and in these words, and for no other. -/
theorem settle_error_iff :
    settle env given root cfg session profiles name source = .error e ↔
      Refused env given root cfg profiles name source e := by
  unfold settle
  constructor
  · intro h
    rcases bind_eq_error.mp h with h | ⟨name', hname, h⟩
    · exact .invalid h
    · simp only at h
      split at h
      · rename_i hprofile
        cases h
        exact .unknown hname hprofile
      · rename_i profile hprofile
        apply Refused.unusable hname hprofile
        rcases bind_eq_error.mp h with h | ⟨url, hurl, h⟩
        · exact .url h
        rcases bind_eq_error.mp h with h | ⟨tokens, htokens, h⟩
        · exact .tokens hurl h
        rcases bind_eq_error.mp h with h | ⟨found, hfound, h⟩
        · exact .unread hurl htokens h
        split at h
        · cases h
          exact .no_entry hurl htokens hfound
        · split at h
          · rename_i htoken
            cases h
            exact .not_agent_token hurl htokens hfound htoken
          · cases h
  · intro h
    cases h with
    | invalid h => exact bind_eq_error.mpr (Or.inl h)
    | unknown hname h =>
      refine bind_eq_error.mpr (Or.inr ⟨_, hname, ?_⟩)
      simp only [h]
    | unusable hname hprofile h =>
      refine bind_eq_error.mpr (Or.inr ⟨_, hname, ?_⟩)
      simp only [hprofile]
      cases h with
      | url h => exact bind_eq_error.mpr (Or.inl h)
      | tokens hurl h =>
        exact bind_eq_error.mpr (Or.inr ⟨_, hurl, bind_eq_error.mpr (Or.inl h)⟩)
      | unread hurl htokens h =>
        refine bind_eq_error.mpr (Or.inr ⟨_, hurl, bind_eq_error.mpr (Or.inr ⟨_, htokens, ?_⟩)⟩)
        exact bind_eq_error.mpr (Or.inl h)
      | no_entry hurl htokens h =>
        refine bind_eq_error.mpr (Or.inr ⟨_, hurl, bind_eq_error.mpr (Or.inr ⟨_, htokens, ?_⟩)⟩)
        exact bind_eq_error.mpr (Or.inr ⟨_, h, rfl⟩)
      | not_agent_token hurl htokens h htoken =>
        refine bind_eq_error.mpr (Or.inr ⟨_, hurl, bind_eq_error.mpr (Or.inr ⟨_, htokens, ?_⟩)⟩)
        exact bind_eq_error.mpr (Or.inr ⟨_, h, if_pos htoken⟩)

/-- The choice of a profile, and the end of `resolve` for it. -/
def choose (env : Env) (given : Given) (session : Option String) (project : Option (Path × ProjectConfig))
    (profiles : Profiles) (profile_flag : Option String) : Except Failed Resolved := do
  let cfg := (project.map (·.2)).getD ProjectConfig.default
  let selected ← select profile_flag cfg profiles
  settle env given (project.map (·.1)) cfg session profiles selected.1 selected.2

variable {project : Option (Path × ProjectConfig)} {profile_flag : Option String}

theorem choose_error_iff :
    choose env given session project profiles profile_flag = .error e ↔
      NoChoice env given project profiles profile_flag e := by
  unfold choose
  constructor
  · intro h
    rcases bind_eq_error.mp h with h | ⟨⟨raw, source⟩, hselect, h⟩
    · exact .nothing h
    · exact .refused hselect (settle_error_iff.mp h)
  · intro h
    cases h with
    | nothing h => exact bind_eq_error.mpr (Or.inl h)
    | refused hselect h => exact bind_eq_error.mpr (Or.inr ⟨_, hselect, settle_error_iff.mpr h⟩)

/-- Where a profile is chosen and reached, the answer says by which rule. -/
theorem choose_source (h : choose env given session project profiles profile_flag = .ok r) :
    r.source = .ProfileFlag ↔ profile_flag ≠ none := by
  unfold choose at h
  obtain ⟨selected, hselected, h⟩ := bind_eq_ok.mp h
  obtain ⟨hsource, -⟩ := settle_ok h
  rw [hsource]
  unfold select at hselected
  split at hselected
  · cases hselected
    simp
  · cases hselected
    simp
  · cases hselected
    simp
  · cases hselected

/-- What is blank, trimmed, is absent. -/
theorem none_if_blank_some_iff (s : String) : none_if_blank (some s) = none ↔ Blank s := by
  have htrim : trim s = "" ↔ Blank s := by
    rw [← String.toList_eq_nil_iff, Auth.trim_toList, Trims.trim, List.rdropWhile_eq_nil_iff]
    constructor
    · intro h
      -- what `dropWhile` leaves begins with no blank, so it leaves nothing
      have hnil : s.toList.dropWhile Auth.is_whitespace = [] := by
        by_contra hne
        have hhead := List.head_dropWhile_not Auth.is_whitespace hne
        rw [h _ (List.head_mem hne)] at hhead
        cases hhead
      exact List.dropWhile_eq_nil_iff.mp hnil
    · intro h
      rw [List.dropWhile_eq_nil_iff.mpr h]
      exact fun c hc => absurd hc List.not_mem_nil
  rw [← htrim, none_if_blank, Option.map_some]
  by_cases hs : trim s = ""
  · rw [hs]
    simp
  · rw [Option.filter_some, if_pos (by simpa using hs)]
    simp [hs]

/-- Trimmed, a field that was cleared is as it was. -/
theorem Cleared.none_if_blank {v v' : Option String} (h : Cleared v v') : none_if_blank v' = none_if_blank v := by
  rcases h with rfl | ⟨s, rfl, hs, rfl⟩
  · rfl
  · rw [(none_if_blank_some_iff s).mpr hs]
    rfl

/-- The session that `resolve` goes on with. -/
def session_for (env : Env) (inputs : Inputs) : Option String :=
  session_of env.formats (none_if_blank inputs.explicit_session) (none_if_blank inputs.host_session)
    (binding_of env inputs)

variable {inputs' : Inputs} {p : String}

theorem Clears.same_given (h : Clears inputs inputs') : inputs'.given = inputs.given := by
  unfold Inputs.given
  rw [h.config_dir, h.url_origin, h.token_origin, h.explicit_url.none_if_blank, h.profile.none_if_blank]

theorem Clears.same_binding (h : Clears inputs inputs') : binding_of env inputs' = binding_of env inputs := by
  unfold binding_of
  rw [h.host_session.none_if_blank, h.config_dir]

/-- Only the flag can tell what was cleared. -/
theorem resolve_of_clears (h : Clears inputs inputs') :
    resolve env inputs' = resolve_from env inputs.given (none_if_blank inputs.explicit_token)
      (profile_flag_of inputs' (binding_of env inputs)) (session_for env inputs) inputs.project_dir := by
  unfold resolve session_for
  simp only
  rw [h.same_given, h.same_binding, h.explicit_token.none_if_blank, h.explicit_session.none_if_blank,
    h.host_session.none_if_blank, h.project_dir]

theorem clears_refl (inputs : Inputs) : Clears inputs inputs :=
  ⟨rfl, rfl, rfl, rfl, Or.inl rfl, Or.inl rfl, Or.inl rfl, Or.inl rfl, Or.inl rfl⟩

/-- The flag is the same unless the window was diverted. -/
theorem profile_flag_of_clears (binding : Option Binding) (h : Clears inputs inputs') :
    profile_flag_of inputs' binding = profile_flag_of inputs binding ∨
      ∃ p, (∃ s, inputs.explicit_token = some s ∧ Blank s) ∧ none_if_blank inputs.profile = none ∧
        binding.bind (·.profile) = some p ∧ profile_flag_of inputs binding = none ∧
        profile_flag_of inputs' binding = some p := by
  unfold profile_flag_of
  rw [h.profile.none_if_blank]
  cases hp : none_if_blank inputs.profile with
  | some p => exact Or.inl rfl
  | none =>
    rcases h.explicit_token with htoken | ⟨s, hs, hblank, htoken⟩
    · rw [htoken]
      exact Or.inl rfl
    · rw [htoken, hs]
      cases hrec : binding.bind (·.profile) with
      | none => exact Or.inl rfl
      | some p => exact Or.inr ⟨p, ⟨s, rfl, hblank⟩, rfl, rfl, rfl, rfl⟩

/-- From the project file on, the flag is only for the choice. -/
theorem resolve_from_eq_choose {start : Path} (hstart : start_of env inputs.project_dir = .ok start)
    (hproject : find_project env start = .ok project) (hprofiles : load_profiles env inputs.config_dir = .ok profiles) :
    resolve_from env inputs.given none profile_flag session inputs.project_dir =
      choose env inputs.given session project profiles profile_flag := by
  have hload : load_profiles env inputs.given.config_dir = .ok profiles := hprofiles
  unfold resolve_from choose
  rw [hstart]
  simp only [bind, Except.bind, hproject, hload]

/-- What comes before the choice fails without it. -/
theorem resolve_from_congr (h : ∀ start project profiles, start_of env inputs.project_dir = .ok start →
      find_project env start = .ok project → load_profiles env inputs.config_dir = .ok profiles →
        choose env inputs.given session project profiles none =
          choose env inputs.given session project profiles (some p)) :
    resolve_from env inputs.given none (some p) session inputs.project_dir =
      resolve_from env inputs.given none none session inputs.project_dir := by
  cases hstart : start_of env inputs.project_dir with
  | error e =>
    unfold resolve_from
    rw [hstart]
    rfl
  | ok start =>
    cases hproject : find_project env start with
    | error e =>
      unfold resolve_from
      rw [hstart]
      simp only [bind, Except.bind, hproject]
    | ok project =>
      cases hprofiles : load_profiles env inputs.config_dir with
      | error e =>
        have hload : load_profiles env inputs.given.config_dir = .error e := hprofiles
        unfold resolve_from
        rw [hstart]
        simp only [bind, Except.bind, hproject, hload]
      | ok profiles =>
        rw [resolve_from_eq_choose hstart hproject hprofiles, resolve_from_eq_choose hstart hproject hprofiles,
          h start project profiles hstart hproject hprofiles]

/-- A diverted window: what `resolve` does as it is, and with the blank token absent. -/
theorem Diverted.resolve_eq (h : Diverted env inputs p) :
    resolve env inputs = resolve_from env inputs.given none none (session_for env inputs) inputs.project_dir ∧
      resolve env { inputs with explicit_token := none } =
        resolve_from env inputs.given none (some p) (session_for env inputs) inputs.project_dir := by
  obtain ⟨⟨s, hs, hblank⟩, hprofile, hrec⟩ := h
  have htoken : none_if_blank inputs.explicit_token = none := by
    rw [hs]
    exact (none_if_blank_some_iff s).mpr hblank
  have hclears : Clears inputs { inputs with explicit_token := none } :=
    ⟨rfl, rfl, rfl, rfl, Or.inl rfl, Or.inr ⟨s, hs, hblank, rfl⟩, Or.inl rfl, Or.inl rfl, Or.inl rfl⟩
  have hflag : profile_flag_of inputs (binding_of env inputs) = none := by
    rw [profile_flag_of, hprofile, hs]
    rfl
  have hflag' : profile_flag_of { inputs with explicit_token := none } (binding_of env inputs) = some p := by
    rw [← hrec]
    unfold profile_flag_of
    simp only [hprofile, Option.isNone_none, if_true]
  constructor
  · rw [resolve_of_clears (clears_refl inputs), hflag, htoken]
  · rw [resolve_of_clears hclears, hflag', htoken]

/-- **A blank input is an absent input** exactly where no window is diverted by a blank token, or
both profiles it could speak as are refused alike. -/
theorem blank_is_absent_iff (env : Env) (inputs : Inputs) :
    (∀ inputs', Clears inputs inputs' → resolve env inputs' = resolve env inputs) ↔
      ∀ p, Diverted env inputs p → RefusedAlike env inputs p := by
  constructor
  · intro h p hdiv start project profiles hstart hproject hprofiles
    obtain ⟨s, hs, hblank⟩ := hdiv.token
    have hclears : Clears inputs { inputs with explicit_token := none } :=
      ⟨rfl, rfl, rfl, rfl, Or.inl rfl, Or.inr ⟨s, hs, hblank, rfl⟩, Or.inl rfl, Or.inl rfl, Or.inl rfl⟩
    have hsame := h _ hclears
    rw [hdiv.resolve_eq.2, hdiv.resolve_eq.1, resolve_from_eq_choose hstart hproject hprofiles,
      resolve_from_eq_choose hstart hproject hprofiles] at hsame
    cases hnone : choose env inputs.given (session_for env inputs) project profiles none with
    | error e =>
      rw [hnone] at hsame
      exact ⟨e, choose_error_iff.mp hnone, choose_error_iff.mp hsame⟩
    | ok r =>
      -- the two answers would name two rules
      rw [hnone] at hsame
      have hrule := (choose_source hnone).not.mpr (by simp)
      exact absurd ((choose_source hsame).mpr (by simp)) hrule
  · intro h inputs' hclears
    rw [resolve_of_clears hclears, resolve_of_clears (clears_refl inputs)]
    rcases profile_flag_of_clears (binding_of env inputs) hclears with
      hflag | ⟨p, htoken, hprofile, hrec, hnone, hsome⟩
    · rw [hflag]
    · have hrefused := h p ⟨htoken, hprofile, hrec⟩
      obtain ⟨s, hs, hblank⟩ := htoken
      have habsent : none_if_blank inputs.explicit_token = none := by
        rw [hs]
        exact (none_if_blank_some_iff s).mpr hblank
      rw [hnone, hsome, habsent]
      apply resolve_from_congr
      intro start project profiles hstart hproject hprofiles
      obtain ⟨e, he, he'⟩ := hrefused start project profiles hstart hproject hprofiles
      rw [choose_error_iff.mpr he, choose_error_iff.mpr he']

/-- The conversation is `bo`'s; with a blank token beside it the window speaks as `ann`. -/
theorem blank_token_diverts :
    ¬(∀ env inputs inputs', Clears inputs inputs' → resolve env inputs' = resolve env inputs) ∧
      (resolve desk { window with explicit_token := some " ", host_session := some "w" }).map (·.expected) =
        .ok (some ("crew", "ann")) ∧
      (resolve desk { window with explicit_token := none, host_session := some "w" }).map (·.expected) =
        .ok (some ("crew", "bo")) := by
  have hann : (resolve desk { window with explicit_token := some " ", host_session := some "w" }).map (·.expected) =
      .ok (some ("crew", "ann")) := by decide
  have hbo : (resolve desk { window with explicit_token := none, host_session := some "w" }).map (·.expected) =
      .ok (some ("crew", "bo")) := by decide
  have hblank : Blank " " := by
    unfold Blank
    exact List.all_iff_forall_prop.mp (by decide)
  refine ⟨?_, hann, hbo⟩
  intro h
  have hsame := h desk { window with explicit_token := some " ", host_session := some "w" }
    { window with explicit_token := none, host_session := some "w" }
    ⟨rfl, rfl, rfl, rfl, Or.inl rfl, Or.inr ⟨" ", rfl, hblank, rfl⟩, Or.inl rfl, Or.inl rfl, Or.inl rfl⟩
  rw [hsame, hann] at hbo
  exact absurd hbo (by decide)

end CrewSync.Contexts
