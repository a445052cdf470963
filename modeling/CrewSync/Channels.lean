/-
`store/messaging.rs` and `store/mod.rs`: channels, and what a caller may call one.

A name is stored normalised: trimmed, its leading `#` stripped, trimmed again and
lower-cased. Whoever names a channel later has its text normalised the same way, by
`channel_id_by_name` for a post and by `resolve_scope` for a read or a wait. The latter
looks for a reserved word first, so that a channel called `inbox` is read as `#inbox`.

Lower-casing is Unicode's and is taken from a case table (`LowerCase`). What is used of
the table is that white space and `#` keep apart from it (`Unicode`); the three steps of
a normalisation then act on a lower-cased name as they do on the name itself
(`normalize_channel_eq`), which is what makes a second normalisation do nothing.
-/
import CrewSync.Conversations
import CrewSync.LowerCase
import CrewSync.Messaging
import CrewSync.Presence

set_option autoImplicit false

namespace CrewSync.Channels

open Error Schema Rows Auth LowerCase Messaging

/-! ## Names -/

/-- `str::to_lowercase`. -/
def to_lowercase (t : CaseTable) (s : String) : String := String.ofList (lower t s.toList)

/-- `str::trim_start_matches('#')`. -/
def trim_hashes (s : String) : String := String.ofList (s.toList.dropWhile (· == '#'))

/-- `normalize_channel`. -/
def normalize_channel (t : CaseTable) (name : String) : String :=
  to_lowercase t (trim (trim_hashes (trim name)))

/-- What names rely on: white space and `#` are neither letters nor what becomes of one. -/
structure Unicode (t : CaseTable) : Prop where
  lawful : t.Lawful
  blanks : Apart t is_whitespace
  hashes : Apart t (· == '#')

/-! ## The table -/

/-- `channels`, `UNIQUE (team_id, name)`. -/
structure Channel where
  id : Uuid
  team_id : Uuid
  name : String
  topic : Option String
  created_by : Option Uuid
  created_at : ℕ
  deriving DecidableEq, Repr

/-- `MAX_TOPIC_BYTES`. -/
def MAX_TOPIC_BYTES : ℕ := 256

/-- `ChannelInfo`. -/
structure ChannelInfo where
  name : String
  topic : Option String
  message_count : ℕ
  created_at : ℕ
  deriving DecidableEq, Repr

/-- `team_id = $1 AND name = $2`. -/
def at_name (team_id : Uuid) (name : String) (c : Channel) : Bool := c.team_id == team_id && c.name == name

/-- `INSERT … ON CONFLICT (team_id, name) DO UPDATE SET topic = COALESCE(…)`. -/
def write_channel (c : Channel) (channels : List Channel) : List Channel :=
  upsert (at_name c.team_id c.name) (fun old => { old with topic := c.topic.or old.topic }) c channels

/-- `create_channel`; `id` is the identifier the row would get. -/
def create_channel (t : CaseTable) (now : ℕ) (id : Uuid) (auth : AuthCtx) (name : String)
    (topic : Option String) (channels : List Channel) : BusResult (ChannelInfo × List Channel) := do
  let name := normalize_channel t name
  ensure (name ≠ "") (.Invalid "channel name cannot be empty")
  ensure (name.utf8ByteSize ≤ 64) (.Invalid "channel name is limited to 64 characters")
  let topic ← Presence.given (fun topic => Send.check_text "channel topic" topic MAX_TOPIC_BYTES) topic
  ensure (channels.any (at_name auth.team_id name) = true ∨ ∀ c ∈ channels, c.id ≠ id)
    (.Db "duplicate key value violates unique constraint \"channels_pkey\"")
  let written := write_channel ⟨id, auth.team_id, name, topic, some auth.agent_id, now⟩ channels
  let row ← fetch (one (at_name auth.team_id name) written) (.Db Presence.RowNotFound)
  pure (⟨row.name, row.topic, 0, row.created_at⟩, written)

/-- `list_channels`. -/
def list_channels (auth : AuthCtx) (channels : List Channel) (messages : List Message) : List ChannelInfo :=
  ((channels.filter fun c => c.team_id == auth.team_id).insertionSort fun a b => a.name ≤ b.name).map fun c =>
    ⟨c.name, c.topic, messages.countP fun m => m.channel_id == some c.id, c.created_at⟩

/-! ## Naming one -/

/-- `channel_id_by_name`. -/
def channel_id_by_name (t : CaseTable) (team_id : Uuid) (name : String) (channels : List Channel) :
    BusResult Uuid := do
  let name := normalize_channel t name
  let c ← fetch (one (at_name team_id name) channels) (.NotFound
    s!"no channel named '{name}'; call list_channels or create it with create_channel")
  pure c.id

/-- `resolve_scope`. -/
def resolve_scope (t : CaseTable) (auth : AuthCtx) (raw : String) (channels : List Channel) : BusResult Scope :=
  let other := to_lowercase t (trim raw)
  if other = "" ∨ other = "all" then .ok .All
  else if other = "inbox" ∨ other = "dm" ∨ other = "direct" then .ok .Inbox
  else do
    let name := normalize_channel t other
    let id ← channel_id_by_name t auth.team_id name channels
    pure (.Channel id name)

/-- `default_channel`: the channel named after the project, or else after the session. -/
def default_channel (t : CaseTable) (auth : AuthCtx) (presence : List Presence.AgentPresence)
    (channels : List Channel) : Option (Uuid × String) :=
  if auth.session = "" then none
  else
    let project := ((Presence.labels_of auth presence).1.filter fun p => p ≠ "").map (normalize_channel t)
    let by_session := normalize_channel t auth.session
    let candidates := if project = some by_session then [by_session] else project.toList ++ [by_session]
    candidates.findSome? fun name => (one (at_name auth.team_id name) channels).map fun c => (c.id, name)

/-! ## What a normalisation does -/

section Names

variable {t : CaseTable} {s : String} {p : Char → Bool} {v : String}

theorem trim_def (s : String) :
    trim s = String.ofList ((s.toList.dropWhile is_whitespace).rdropWhile is_whitespace) := rfl

theorem to_lowercase_lower (ht : Unicode t) (s : String) : to_lowercase t (to_lowercase t s) = to_lowercase t s := by
  unfold to_lowercase
  rw [String.toList_ofList, lower_lower ht.lawful]

theorem trim_to_lowercase (ht : Unicode t) (s : String) : trim (to_lowercase t s) = to_lowercase t (trim s) := by
  rw [trim_def, trim_def]
  unfold to_lowercase
  rw [String.toList_ofList, String.toList_ofList, lower_rdropWhile ht.lawful ht.blanks,
    lower_dropWhile ht.lawful ht.blanks]

theorem trim_hashes_to_lowercase (ht : Unicode t) (s : String) :
    trim_hashes (to_lowercase t s) = to_lowercase t (trim_hashes s) := by
  unfold trim_hashes to_lowercase
  rw [String.toList_ofList, String.toList_ofList, lower_dropWhile ht.lawful ht.hashes]

/-- The three steps before the lower-casing. -/
def bare (s : String) : String := trim (trim_hashes (trim s))

/-- **A normalisation acts on the lower case of a name.** -/
theorem normalize_channel_eq (ht : Unicode t) (s : String) : normalize_channel t s = bare (to_lowercase t s) := by
  unfold bare normalize_channel
  rw [trim_to_lowercase ht, trim_hashes_to_lowercase ht, trim_to_lowercase ht]

theorem dropWhile_of_head {l : List Char} (h : ∀ c, l.head? = some c → p c = false) : l.dropWhile p = l := by
  cases l with
  | nil => rfl
  | cons c l =>
    have hc := h c rfl
    exact List.dropWhile_cons_of_neg (by simp [hc])

/-- Nothing is left to trim of what was trimmed. -/
theorem trim_trim (s : String) : trim (trim s) = trim s := by
  rw [trim_def (trim s), trim_def s, String.toList_ofList]
  congr 1
  generalize hd : s.toList.dropWhile is_whitespace = d
  have hfront : (d.rdropWhile is_whitespace).dropWhile is_whitespace = d.rdropWhile is_whitespace := by
    apply dropWhile_of_head
    intro c hc
    by_contra hblank
    -- The first character kept is the first one after the blanks in front.
    have hpre : d.rdropWhile is_whitespace <+: d := List.rdropWhile_prefix _ d
    rcases hpre with ⟨rest, hrest⟩
    cases hr : d.rdropWhile is_whitespace with
    | nil =>
      rw [hr] at hc
      cases hc
    | cons a l =>
      rw [hr, List.head?_cons] at hc
      rw [hr, List.cons_append] at hrest
      have hhead := List.head?_dropWhile_not is_whitespace s.toList
      rw [hd, ← hrest, Option.some.inj hc] at hhead
      exact hblank (by simpa using hhead)
  rw [hfront]
  exact List.rdropWhile_idempotent is_whitespace d

theorem rdropWhile_cons_of_neg {c : Char} (h : ¬ p c = true) (l : List Char) :
    (c :: l).rdropWhile p = c :: l.rdropWhile p := by
  induction l using List.reverseRecOn with
  | nil => rw [← List.nil_append [c], List.rdropWhile_concat_neg p [] c h]; rfl
  | append_singleton l a ih =>
    rw [← List.cons_append]
    by_cases ha : p a = true
    · rw [List.rdropWhile_concat_pos p _ a ha, List.rdropWhile_concat_pos p _ a ha, ih]
    · rw [List.rdropWhile_concat_neg p _ a ha, List.rdropWhile_concat_neg p _ a ha, List.cons_append]

/-- The text does not begin with a `#`. -/
def Plain (s : String) : Prop := s.toList.head? ≠ some '#'

instance (s : String) : Decidable (Plain s) := inferInstanceAs (Decidable (_ ≠ _))

theorem trim_hashes_plain (h : Plain s) : trim_hashes s = s := by
  unfold trim_hashes
  rw [dropWhile_of_head, String.ofList_toList]
  intro c hc
  rw [beq_eq_false_iff_ne]
  rintro rfl
  exact h hc

theorem bare_eq_self (htrim : trim s = s) (h : Plain s) : bare s = s := by
  unfold bare
  rw [htrim, trim_hashes_plain h, htrim]

/-- A `#` in front of a name comes off again. -/
theorem trim_hash (htrim : trim s = s) : trim ("#" ++ s) = "#" ++ s := by
  have hlist : ("#" ++ s).toList = '#' :: s.toList := by simp
  have hs : s.toList.rdropWhile is_whitespace = s.toList := by
    have hcopy := congrArg String.toList htrim
    rw [trim_def, String.toList_ofList] at hcopy
    rw [← hcopy, List.rdropWhile_idempotent]
  rw [trim_def, hlist, List.dropWhile_cons_of_neg (by decide), rdropWhile_cons_of_neg (by decide), hs, ← hlist,
    String.ofList_toList]

theorem bare_hash (htrim : trim s = s) (h : Plain s) : bare ("#" ++ s) = s := by
  have hlist : ("#" ++ s).toList = '#' :: s.toList := by simp
  have hstrip : trim_hashes ("#" ++ s) = trim_hashes s := by
    unfold trim_hashes
    rw [hlist, List.dropWhile_cons_of_pos (by decide)]
  unfold bare
  rw [trim_hash htrim, hstrip, trim_hashes_plain h, htrim]

theorem to_lowercase_hash (ht : Unicode t) (s : String) : to_lowercase t ("#" ++ s) = "#" ++ to_lowercase t s := by
  have hlist : ("#" ++ s).toList = '#' :: s.toList := by simp
  unfold to_lowercase
  rw [hlist, lower_cons ht.hashes (by decide)]
  apply String.ext_iff.mpr
  simp

/-! ## What is stored -/

/-- A name as it is stored: something's normalisation. -/
def Stored (t : CaseTable) (name : String) : Prop := ∃ raw, name = normalize_channel t raw

theorem Stored.lower (ht : Unicode t) (h : Stored t s) : to_lowercase t s = s := by
  rcases h with ⟨raw, rfl⟩
  exact to_lowercase_lower ht _

theorem Stored.trimmed (ht : Unicode t) (h : Stored t s) : trim s = s := by
  rcases h with ⟨raw, rfl⟩
  unfold normalize_channel
  rw [trim_to_lowercase ht, trim_trim]

/-- Any way to write the name in upper and lower case is normalised to it. -/
theorem Stored.spelled (ht : Unicode t) (h : Stored t s) (hplain : Plain s)
    (hv : to_lowercase t v = s) : normalize_channel t v = s := by
  rw [normalize_channel_eq ht, hv]
  exact bare_eq_self (h.trimmed ht) hplain

theorem Stored.spelled_hash (ht : Unicode t) (h : Stored t s) (hplain : Plain s)
    (hv : to_lowercase t v = s) : normalize_channel t ("#" ++ v) = s := by
  rw [normalize_channel_eq ht, to_lowercase_hash ht, hv]
  exact bare_hash (h.trimmed ht) hplain

/-- **Normalising once is enough** for a name that does not begin with a `#`. -/
theorem Stored.normalized (ht : Unicode t) (h : Stored t s) (hplain : Plain s) : normalize_channel t s = s :=
  h.spelled ht hplain (h.lower ht)

end Names

/-! ## The channels there are -/

/-- One call of `create_channel`. -/
structure Creation where
  now : ℕ
  id : Uuid
  auth : AuthCtx
  name : String
  topic : Option String

/-- What a call leaves: a refused one leaves the table as it was. -/
def created (t : CaseTable) (channels : List Channel) (x : Creation) : List Channel :=
  match create_channel t x.now x.id x.auth x.name x.topic channels with
  | .ok r => r.2
  | .error _ => channels

/-- What is true of the table, whoever called. -/
structure Inv (t : CaseTable) (channels : List Channel) : Prop where
  names : Keyed (fun c : Channel => (c.team_id, c.name)) channels
  ids : Keyed Channel.id channels
  stored : ∀ c ∈ channels, Stored t c.name

section Table

variable {t : CaseTable} {channels : List Channel} {c : Channel} {team_id : Uuid} {name : String}

theorem at_name_iff : at_name team_id name c = true ↔ (c.team_id, c.name) = (team_id, name) := by
  simp [at_name]

theorem Inv.new (t : CaseTable) : Inv t [] :=
  ⟨Keyed.nil _, Keyed.nil _, fun _ hc => absurd hc List.not_mem_nil⟩

/-- A write renames nobody, and adds a name only where there was none. -/
theorem Inv.written (h : Inv t channels) (hstored : Stored t c.name)
    (hid : channels.any (at_name c.team_id c.name) = true ∨ ∀ x ∈ channels, x.id ≠ c.id) :
    Inv t (write_channel c channels) := by
  refine ⟨?_, ?_, fun x hx => ?_⟩
  · exact h.names.upsert (fun _ => rfl) fun x hx => at_name_iff.mpr hx
  · unfold write_channel upsert
    by_cases hany : channels.any (at_name c.team_id c.name) = true
    · rw [if_pos hany]
      exact h.ids.update fun _ => rfl
    · rw [if_neg hany]
      exact h.ids.insert_into (hid.resolve_left hany)
  · rcases mem_upsert hx with ⟨x₀, hx₀, rfl⟩ | ⟨rfl, -⟩
    · by_cases hat : at_name c.team_id c.name x₀ = true
      · rw [if_pos hat]
        exact h.stored x₀ hx₀
      · rw [if_neg hat]
        exact h.stored x₀ hx₀
    · exact hstored

theorem Inv.created (h : Inv t channels) (x : Creation) : Inv t (created t channels x) := by
  unfold Channels.created
  split
  · rename_i r hr
    unfold create_channel at hr
    simp only [bind_eq_ok, pure_eq_ok, ensure_eq_ok] at hr
    obtain ⟨_, -, _, -, _, -, _, hid, _, -, rfl⟩ := hr
    exact h.written ⟨x.name, rfl⟩ hid
  · exact h

/-- Every table that calls of `create_channel` lead to. -/
theorem Inv.all (t : CaseTable) (calls : List Creation) : Inv t (calls.foldl (Channels.created t) []) := by
  induction calls using List.reverseRecOn with
  | nil => exact Inv.new t
  | append_singleton calls x ih =>
    rw [List.foldl_append, List.foldl_cons, List.foldl_nil]
    exact ih.created x

/-- The lookup by name finds the channel of that name, and no other. -/
theorem Inv.found (h : Inv t channels) (hc : c ∈ channels) {raw : String}
    (hteam : c.team_id = team_id) (hname : c.name = name) (hraw : normalize_channel t raw = name) :
    channel_id_by_name t team_id raw channels = .ok c.id := by
  have hone : one (at_name team_id name) channels = some c := by
    refine one_eq_some hc (at_name_iff.mpr ?_) fun b hb hat => ?_
    · rw [hteam, hname]
    · apply h.names.eq hb hc
      rw [at_name_iff.mp hat, hteam, hname]
  unfold channel_id_by_name
  simp only [hraw, hone, fetch]
  rfl

end Table

end CrewSync.Channels
