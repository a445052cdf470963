/-
Whether a channel is reached by the name it is reported under.

Five places turn a text into a channel: `create_channel` when it stores the name, a
post, a read or a wait, the webhook filter that `webhook_add` stores, and the trigger
that compares it. They agree on any name that does not begin with a `#`, for every way
to write it in upper and lower case, with the two exceptions the code makes: a reserved
word given bare to a read means the scope, and a webhook filter is taken as it is
written, lower-cased and nothing else.

A name can begin with a `#` although every leading one is stripped, because the
blanks behind them are trimmed once more: `# #a` is stored as `#a`.
-/
import CrewSync.Posts
import CrewSync.Webhooks

set_option autoImplicit false

namespace CrewSync.ChannelNames

open Schema Rows Auth LowerCase Messaging
open Channels Posts

/-! ## The webhook filter -/

/-- `if c { anyhow::bail!(e) }`. -/
def bail (c : Prop) [Decidable c] (e : String) : Except String Unit := if c then .error e else .ok ()

/-- `webhook_add`: the row it inserts, enabled by default. -/
def webhook_add (t : CaseTable) (id : Uuid) (team url kind events : String) (channel : Option String)
    (teams : List Team) : Except String Webhooks.Webhook :=
  let kind := Channels.to_lowercase t (trim kind)
  let events := ((events.toList.splitOn ',').map fun e =>
    Channels.to_lowercase t (trim (String.ofList e))).filter fun e => e ≠ ""
  let unknown := events.find? fun e => !(["message", "task", "lock", "note"].contains e)
  bail (["slack", "discord", "generic"].contains kind = false) "kind must be slack, discord or generic" >>= fun _ =>
  let other := unknown.getD ""
  bail (unknown ≠ none) s!"unknown event kind '{other}' (valid: message, task, lock, note)" >>= fun _ =>
  bail (events = []) "at least one event kind is required" >>= fun _ =>
  match one (fun x => x.slug == team) teams with
  | none => .error s!"no team with slug '{team}'"
  | some x => .ok ⟨id, x.id, url, kind, events, channel.map (Channels.to_lowercase t), true⟩

/-- The hook takes the messages of a channel: `enqueue_webhook_deliveries`. -/
def forwards (w : Webhooks.Webhook) (c : Channel) : Bool :=
  Webhooks.wants c.team_id "message" (some c.name) w

/-! ## The words a read reserves -/

/-- The scope a bare word stands for. -/
def reserved (word : String) : Option Scope :=
  if word = "" ∨ word = "all" then some .All
  else if word = "inbox" ∨ word = "dm" ∨ word = "direct" then some .Inbox
  else none

section Reaching

variable {t : CaseTable} {channels : List Channel} {c : Channel} {auth : AuthCtx} {raw v : String}
  {w : Webhooks.Webhook}

theorem resolve_scope_reserved {scope : Scope} (h : reserved (Channels.to_lowercase t (trim raw)) = some scope) :
    resolve_scope t auth raw channels = .ok scope := by
  unfold reserved at h
  unfold resolve_scope
  by_cases hall : Channels.to_lowercase t (trim raw) = "" ∨ Channels.to_lowercase t (trim raw) = "all"
  · rw [if_pos hall] at h
    rw [if_pos hall, Option.some.inj h]
  · rw [if_neg hall] at h
    rw [if_neg hall]
    by_cases hinbox : Channels.to_lowercase t (trim raw) = "inbox" ∨
        Channels.to_lowercase t (trim raw) = "dm" ∨ Channels.to_lowercase t (trim raw) = "direct"
    · rw [if_pos hinbox] at h
      rw [if_pos hinbox, Option.some.inj h]
    · rw [if_neg hinbox] at h
      cases h

/-- A word that is not reserved is looked up. -/
theorem resolve_scope_channel (h : reserved (Channels.to_lowercase t (trim raw)) = none) :
    resolve_scope t auth raw channels = (do
      let name := normalize_channel t (Channels.to_lowercase t (trim raw))
      let id ← channel_id_by_name t auth.team_id name channels
      pure (.Channel id name)) := by
  unfold reserved at h
  unfold resolve_scope
  by_cases hall : Channels.to_lowercase t (trim raw) = "" ∨ Channels.to_lowercase t (trim raw) = "all"
  · rw [if_pos hall] at h
    cases h
  · rw [if_neg hall] at h
    by_cases hinbox : Channels.to_lowercase t (trim raw) = "inbox" ∨
        Channels.to_lowercase t (trim raw) = "dm" ∨ Channels.to_lowercase t (trim raw) = "direct"
    · rw [if_pos hinbox] at h
      cases h
    · simp only [if_neg hall, if_neg hinbox]

theorem reserved_hash (s : String) : reserved ("#" ++ s) = none := by
  have hne : ∀ word : String, word.toList.head? ≠ some '#' → "#" ++ s ≠ word := by
    rintro word hword rfl
    exact hword (by simp)
  unfold reserved
  rw [if_neg, if_neg]
  · rintro (h | h | h)
    · exact hne _ (by decide) h
    · exact hne _ (by decide) h
    · exact hne _ (by decide) h
  · rintro (h | h)
    · exact hne _ (by decide) h
    · exact hne _ (by decide) h

/-- A read of a name that is looked up finds the channel of that name. -/
theorem resolve_scope_finds (ht : Unicode t) (h : Inv t channels) (hc : c ∈ channels)
    (hteam : c.team_id = auth.team_id) (hplain : Plain c.name)
    (hfree : reserved (Channels.to_lowercase t (trim raw)) = none)
    (hraw : normalize_channel t (Channels.to_lowercase t (trim raw)) = c.name) :
    resolve_scope t auth raw channels = .ok (.Channel c.id c.name) := by
  have hfound := h.found hc hteam rfl ((h.stored c hc).normalized ht hplain)
  rw [resolve_scope_channel hfree]
  simp only [hraw, hfound]
  rfl

theorem trim_spelled (ht : Unicode t) (h : Inv t channels) (hc : c ∈ channels)
    (hv : Channels.to_lowercase t v = c.name) : Channels.to_lowercase t (trim v) = c.name := by
  rw [← trim_to_lowercase ht, hv]
  exact (h.stored c hc).trimmed ht

theorem trim_spelled_hash (ht : Unicode t) (h : Inv t channels) (hc : c ∈ channels)
    (hv : Channels.to_lowercase t v = c.name) : Channels.to_lowercase t (trim ("#" ++ v)) = "#" ++ c.name := by
  rw [← trim_to_lowercase ht, to_lowercase_hash ht, hv]
  exact trim_hash ((h.stored c hc).trimmed ht)

/-- Posting under `raw` is posting to the channel. -/
structure PostsTo (t : CaseTable) (auth : AuthCtx) (db : PostDb) (raw : String) (id : Uuid) : Prop where
  target : ∃ roster, post_target t auth (some raw) none db = .ok (.channel id, roster)
  row : ∀ now n input r, input.channel = some raw → post_message t now n auth input db = .ok r →
    r.1.channel_id = some id

/-- A post that names the channel goes there. -/
theorem posts_to (h : Inv t channels) (hc : c ∈ channels) (hteam : c.team_id = auth.team_id)
    (hraw : normalize_channel t raw = c.name) {db : PostDb} (hdb : db.channels = channels) :
    PostsTo t auth db raw c.id := by
  have hfound := h.found hc hteam rfl hraw
  have htarget : ∃ roster, post_target t auth (some raw) none db = .ok (.channel c.id, roster) := by
    unfold post_target
    simp only [hdb, hfound]
    exact ⟨_, rfl⟩
  refine ⟨htarget, fun now n input r hchannel hok => ?_⟩
  rcases post_message_ok hok with ⟨target, hinput, hrow⟩
  rcases htarget with ⟨roster, hroster⟩
  rw [hchannel] at hinput
  by_cases hto : input.to_ = none
  · rw [hto, hroster] at hinput
    have hsame : Target.channel c.id = target := congrArg Prod.fst (Except.ok.inj hinput)
    rw [hrow, ← hsame]
    rfl
  · -- With both given the post is refused.
    rcases Option.ne_none_iff_exists'.mp hto with ⟨to_, hsome⟩
    rw [hsome] at hinput
    exact absurd hinput (by simp [post_target])

/-- A filter names the channel whose stored name it is. -/
theorem forwards_iff (h : Inv t channels) (hc : c ∈ channels)
    (hteam : w.team_id = c.team_id) (henabled : w.enabled = true) (hevents : w.events.contains "message" = true)
    (hfilter : w.channel_filter = some c.name) {c' : Channel} (hc' : c' ∈ channels) :
    forwards w c' = true ↔ c' = c := by
  unfold forwards Webhooks.wants
  rw [hteam, henabled, hevents, hfilter]
  simp only [Bool.and_true, Bool.and_eq_true, Bool.or_eq_true, beq_iff_eq, bne_iff_ne, ne_eq,
    Option.isNone_some, Bool.false_eq_true, or_false, not_true_eq_false, false_or]
  constructor
  · rintro ⟨hsame, hname⟩
    apply h.names.eq hc' hc
    rw [← hsame, Option.some.inj hname]
  · rintro rfl
    exact ⟨rfl, rfl⟩

theorem webhook_add_ok {id : Uuid} {team url kind events : String} {channel : Option String}
    {teams : List Team} (h : webhook_add t id team url kind events channel teams = .ok w) :
    w.channel_filter = channel.map (Channels.to_lowercase t) ∧ w.enabled = true := by
  have hbail : ∀ {p : Prop} [Decidable p] {e : String} {f : Unit → Except String Webhooks.Webhook},
      (bail p e >>= f) = .ok w → f () = .ok w := by
    intro p _ e f hf
    unfold bail at hf
    by_cases hp : p
    · rw [if_pos hp] at hf
      exact absurd hf (by simp [bind, Except.bind])
    · rw [if_neg hp] at hf
      exact hf
  have hrow := hbail (hbail (hbail h))
  cases hone : one (fun x => x.slug == team) teams with
  | none =>
    simp only [hone] at hrow
    cases hrow
  | some x =>
    simp only [hone] at hrow
    rw [← Except.ok.inj hrow]
    exact ⟨rfl, rfl⟩

/-- **Channels are reached by their names.** A channel whose name does not begin with a
`#` is listed under the name it was created with, normalising that name changes nothing,
and every way to write it in upper and lower case, with or without a `#`, posts to it
and reads it: bare, unless it is a word a read reserves, which then means the scope. A
webhook's filter given the name without a `#` takes the messages of that channel. Nothing
of this ever selects another channel. -/
theorem channels_are_reached (t : CaseTable) (ht : Unicode t) (calls : List Creation) (c : Channel)
    (hc : c ∈ calls.foldl (created t) []) (hplain : Plain c.name) :
    normalize_channel t c.name = c.name ∧
    (∀ auth : AuthCtx, auth.team_id = c.team_id → ∀ messages,
      ∃ info ∈ list_channels auth (calls.foldl (created t) []) messages, info.name = c.name) ∧
    (∀ v, Channels.to_lowercase t v = c.name →
      (∀ (auth : AuthCtx) (db : PostDb), auth.team_id = c.team_id → db.channels = calls.foldl (created t) [] →
        PostsTo t auth db v c.id ∧ PostsTo t auth db ("#" ++ v) c.id ∧
        resolve_scope t auth ("#" ++ v) db.channels = .ok (.Channel c.id c.name) ∧
        resolve_scope t auth v db.channels = .ok ((reserved c.name).getD (.Channel c.id c.name))) ∧
      (∀ id team url kind events teams w, webhook_add t id team url kind events (some v) teams = .ok w →
        w.team_id = c.team_id → w.events.contains "message" = true →
        ∀ c' ∈ calls.foldl (created t) [], forwards w c' = true ↔ c' = c)) := by
  have h := Inv.all t calls
  have hstored := h.stored c hc
  refine ⟨hstored.normalized ht hplain, fun auth hauth messages => ?_, fun v hv => ⟨fun auth db hauth hdb => ?_,
    fun id team url kind events teams w hw hteam hevents c' hc' => ?_⟩⟩
  · refine ⟨_, List.mem_map_of_mem ((List.mem_insertionSort _).mpr (List.mem_filter.mpr ⟨hc, ?_⟩)), rfl⟩
    rw [beq_iff_eq, hauth]
  · refine ⟨posts_to h hc hauth.symm (hstored.spelled ht hplain hv) hdb,
      posts_to h hc hauth.symm (hstored.spelled_hash ht hplain hv) hdb, ?_, ?_⟩
    · rw [hdb]
      apply resolve_scope_finds ht h hc hauth.symm hplain
      · rw [trim_spelled_hash ht h hc hv]
        exact reserved_hash c.name
      · rw [trim_spelled_hash ht h hc hv]
        exact hstored.spelled_hash ht hplain (hstored.lower ht)
    · rw [hdb]
      by_cases hfree : reserved c.name = none
      · rw [hfree]
        apply resolve_scope_finds ht h hc hauth.symm hplain
        · rw [trim_spelled ht h hc hv]
          exact hfree
        · rw [trim_spelled ht h hc hv]
          exact hstored.normalized ht hplain
      · -- A reserved word: the scope it stands for, and not the channel.
        rcases Option.ne_none_iff_exists'.mp hfree with ⟨scope, hscope⟩
        rw [hscope]
        apply resolve_scope_reserved
        rw [trim_spelled ht h hc hv]
        exact hscope
  · rcases webhook_add_ok hw with ⟨hfilter, henabled⟩
    rw [Option.map_some, hv] at hfilter
    exact forwards_iff h hc hteam henabled hevents hfilter hc'

end Reaching

/-! ## Four names -/

theorem ascii_unicode : Unicode ascii := by
  refine ⟨ascii_lawful, ascii_apart (by decide) fun c hc => ?_, ascii_apart (by decide) fun c hc => ?_⟩
  · unfold is_whitespace at hc
    simp only [Bool.or_eq_true, Bool.and_eq_true, decide_eq_true_eq, beq_iff_eq] at hc
    omega
  · left
    rw [beq_iff_eq.mp hc]
    decide

def create (id : Uuid) (name : String) : Creation := ⟨0, id, Crew.ada_at_desk, name, none⟩

/-- The channel `create id name` makes, as it is stored. -/
def stored_as (id : Uuid) (name : String) : Channel := ⟨id, 1, name, none, some 1, 0⟩

def teams : List Team := [⟨1, "crew", true, .postgres⟩]

theorem channels_are_reached_dev :
    resolve_scope ascii Crew.ada_at_desk "#DEV" [stored_as 7 "dev"] = .ok (.Channel 7 "dev") ∧
    resolve_scope ascii Crew.ada_at_desk "Dev" [stored_as 7 "dev"] = .ok (.Channel 7 "dev") := by
  have hreached := ((channels_are_reached ascii ascii_unicode [create 7 " #Dev"] (stored_as 7 "dev")
    (by decide) (by decide)).2.2 "DEV" (by decide)).1 Crew.ada_at_desk
    { channels := [stored_as 7 "dev"] } rfl (by decide)
  have hreached' := ((channels_are_reached ascii ascii_unicode [create 7 " #Dev"] (stored_as 7 "dev")
    (by decide) (by decide)).2.2 "Dev" (by decide)).1 Crew.ada_at_desk
    { channels := [stored_as 7 "dev"] } rfl (by decide)
  exact ⟨hreached.2.2.1, hreached'.2.2.2⟩

/-- A channel called `inbox` is listed as `inbox`, which read bare is the inbox. One
created as `# #a` is stored as `#a`, which posts elsewhere if anywhere. A filter `#dev`
takes nothing from the channel `dev`. -/
theorem channels_are_not_reached :
    ([create 7 "inbox"].foldl (created ascii) [] = [stored_as 7 "inbox"] ∧
      (list_channels Crew.ada_at_desk [stored_as 7 "inbox"] []).map ChannelInfo.name = ["inbox"] ∧
      resolve_scope ascii Crew.ada_at_desk "inbox" [stored_as 7 "inbox"] = .ok .Inbox) ∧
    ([create 7 "# #a"].foldl (created ascii) [] = [stored_as 7 "#a"] ∧
      normalize_channel ascii "#a" = "a" ∧
      (channel_id_by_name ascii 1 "#a" [stored_as 7 "#a"]).isOk = false) ∧
    ([create 7 "dev"].foldl (created ascii) [] = [stored_as 7 "dev"] ∧
      ((webhook_add ascii 3 "crew" "hook" "slack" "message" (some "#dev") teams).toOption.map
        fun w => forwards w (stored_as 7 "dev")) = some false) := by
  decide

end CrewSync.ChannelNames
