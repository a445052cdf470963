/-
`store/messaging.rs`: `post_message`, and the rows it writes.

A message goes to a channel or to a person, or to one window of a person, and never to
both. With neither given it goes to the channel the window works in. What a reader of
the row looks at beyond `Message` is kept here: the message it replies to, whether it
announces, whether its metadata marks a question, and when it was written.

Left out: attachments, and of the metadata everything but its size and that mark.
-/
import CrewSync.Channels

set_option autoImplicit false

namespace CrewSync.Posts

open Error Schema Rows Auth LowerCase Messaging
open Channels Conversations

/-- A row of `messages`. -/
structure Post extends Message where
  reply_to : Option ℕ
  /-- `metadata @> '{"question": true}'`. -/
  question : Bool
  announce : Bool
  created_at : ℕ
  deriving DecidableEq, Repr

/-- `MAX_BODY_BYTES` and `MAX_METADATA_BYTES`. -/
def MAX_BODY_BYTES : ℕ := 1048576

def MAX_METADATA_BYTES : ℕ := 16384

/-- A metadata value, normalised and serialised. -/
structure Metadata where
  bytes : ℕ
  question : Bool
  deriving DecidableEq, Repr

/-- `PostInput`. -/
structure PostInput where
  channel : Option String := none
  to_ : Option String := none
  announce : Bool := false
  body : String
  reply_to : Option ℕ := none
  metadata : Option Metadata := none
  deriving DecidableEq, Repr

/-- The tables a post looks at. -/
structure PostDb where
  db : Db := {}
  channels : List Channel := []
  presence : List Presence.AgentPresence := []
  posts : List Post := []

/-- `check_metadata`. -/
def check_metadata (field : String) (metadata : Option Metadata) : BusResult Unit :=
  ensure (∀ m, metadata = some m → m.bytes ≤ MAX_METADATA_BYTES) (.Invalid
    (s!"{field} metadata is {(metadata.map Metadata.bytes).getD 0} bytes; the limit is {MAX_METADATA_BYTES}. " ++
      "Keep metadata to identifiers and short labels — put the payload in " ++
      "the body, a note, or an attachment."))

/-- Where a message goes, and whom the answer names. -/
def post_target (t : CaseTable) (auth : AuthCtx) (channel to_ : Option String) (db : PostDb) :
    BusResult (Target × List String) :=
  let roster := ((db.db.agents.filter fun a => a.team_id == auth.team_id && a.disabled_at.isNone).map
    Agent.name).insertionSort (· ≤ ·)
  match channel, to_ with
  | some _, some _ => .error (.Invalid
      "set either `channel` or `to`, not both: a message is either broadcast or direct")
  | none, none =>
    match default_channel t auth db.presence db.channels with
    | some (id, _) => .ok (.channel id, roster)
    | none =>
      if auth.session = "" then .error (.Invalid
        "set `channel` to broadcast, or `to` to send a direct message")
      else .error (.Invalid
        ("set `channel` to broadcast, or `to` to send a direct message. " ++
          s!"This session is '{auth.session}', and there is no channel of that name to " ++
          s!"fall back on — create_channel '{auth.session}' to make it the default here."))
  | some channel, none => do
    let id ← channel_id_by_name t auth.team_id channel db.channels
    pure (.channel id, roster)
  | none, some to_ => do
    let (agent, session) ← parse_address to_
    let id ← agent_id_by_name auth.team_id agent db.db
    ensure (¬ (id = auth.agent_id ∧ session = some auth.session)) (.Invalid
      ("that address is this session — a message to yourself here would " ++
        "never be read. Use set_note to leave something durable, post to " ++
        "a channel, or address another of your sessions as 'you/<session>'."))
    pure (.direct id session, [match session with | some s => s!"{agent}/{s}" | none => agent])

/-- `post_message`, under the `id` its `INSERT` draws. -/
def post_message (t : CaseTable) (now id : ℕ) (auth : AuthCtx) (input : PostInput) (db : PostDb) :
    BusResult (Post × List String) := do
  let body := trim input.body
  ensure (body ≠ "") (.Invalid "message body cannot be empty")
  ensure (body.utf8ByteSize ≤ MAX_BODY_BYTES) (.Invalid
    (s!"message body is {body.utf8ByteSize} bytes; the limit is {MAX_BODY_BYTES}. " ++
      "Attach the file instead of pasting it, or split the message."))
  ensure (¬ (input.announce = true ∧ input.to_.isSome = true ∧ input.channel = none)) (.Invalid
    ("`announce` applies to channel messages. A direct message already reaches " ++
      "its recipient whatever they are focused on, so drop the flag, or post to " ++
      "a channel if the whole team needs to see this."))
  let (target, delivered_to) ← post_target t auth input.channel input.to_ db
  ensure (∀ r, input.reply_to = some r → ∃ m ∈ db.posts, m.id = r ∧ m.team_id = auth.team_id)
    (.NotFound s!"message {input.reply_to.getD 0}")
  check_metadata "message" input.metadata
  Sessions.guard now auth db.db
  pure ({ message_row auth target body id with
    reply_to := input.reply_to
    question := (input.metadata.map Metadata.question).getD false
    announce := input.announce
    created_at := now }, delivered_to)

/-! ## What a row is like -/

section Rows

variable {t : CaseTable} {now id : ℕ} {auth : AuthCtx} {input : PostInput} {db : PostDb} {r : Post × List String}

/-- A post says where it goes, and is otherwise what its window sent. -/
theorem post_message_ok (h : post_message t now id auth input db = .ok r) :
    ∃ target, post_target t auth input.channel input.to_ db = .ok (target, r.2) ∧
      r.1.toMessage = message_row auth target (trim input.body) id := by
  unfold post_message at h
  simp only [bind_eq_ok, pure_eq_ok, ensure_eq_ok] at h
  obtain ⟨_, -, _, -, _, -, ⟨target, delivered_to⟩, htarget, _, -, _, -, _, -, rfl⟩ := h
  exact ⟨target, htarget, rfl⟩

/-- `messages_target_check`: a message goes to a channel or to an agent, never both, and
only an agent's has a window. -/
structure Targeted (m : Message) : Prop where
  one : m.channel_id.isSome = !m.recipient_agent_id.isSome
  window : m.channel_id.isSome = true → m.recipient_session = none

theorem targeted_row (target : Target) (body : String) (id : ℕ) : Targeted (message_row auth target body id) := by
  cases target with
  | channel c => exact ⟨rfl, fun _ => rfl⟩
  | direct a s => exact ⟨rfl, fun h => absurd h (by simp [message_row])⟩

end Rows

end CrewSync.Posts
