/-
The framing of `codex.rs`: `AppServer::send_frame`, `fill` and `read_message`.

What has been read stands in `buf`, and the fragments of a message in `partial`; both are on
the struct. What a `read_message` has found out about the frame it is in is on its stack, and a
timeout that cancels it takes that away. Nothing is lost by it: the frame is still in `buf`,
because it is taken out only when all of it is there, and the next call reads its header again.
So the messages that are returned are those the server sent, in order, however its bytes come
in and whenever a call is cancelled (`Inv.step`).

What is not on the struct is a pong that waits for room in the socket. Cancelled there, a call has
given a frame to `send_frame` that is never sent, for the ping is no longer in `buf`. What the client
sends is what `send_frame` was given exactly as long as that does not happen (`sound_iff`).

The bytes of the server are those it will ever send; how many of them a read finds is open. An
error ends the connection: both callers hand it on, and theirs drop the client.
-/
import CrewSync.Runs
import CrewSync.Websocket

set_option autoImplicit false

namespace CrewSync.AppServer

open Runs Websocket

/-! ## The client -/

/-- `MAX_FRAME_BYTES`. -/
def MAX_FRAME_BYTES : ℕ := 64 * 1024 * 1024

/-- The size of `chunk` in `fill`. -/
def CHUNK : ℕ := 16 * 1024

/-- What `send_frame` was given, and the mask it chose. -/
structure Given where
  opcode : ℕ
  payload : List UInt8
  mask : Vector UInt8 4

/-- The frame `send_frame` writes. -/
def Given.bytes (g : Given) : List UInt8 :=
  let len := g.payload.length
  let length :=
    if len < 126 then [0x80 ||| UInt8.ofNat len]
    else if len ≤ 65535 then (0x80 ||| 126) :: be 2 len
    else (0x80 ||| 127) :: be 8 len
  (0x80 ||| UInt8.ofNat g.opcode) :: (length ++ (g.mask.toList ++ xor_key g.mask.toList g.payload))

/-- Where a `read_message` waits, with what it has on its stack there: in `fill`, for two
bytes, for a length of two or eight bytes, for the whole frame; or in the `write_all` of a pong,
with what is not written yet. -/
inductive Await
  | header
  | length16 (fin : Bool) (opcode : ℕ) (masked : Bool)
  | length64 (fin : Bool) (opcode : ℕ) (masked : Bool)
  | body (fin : Bool) (opcode : ℕ) (masked : Bool) (len offset : ℕ)
  | pong (unwritten : List UInt8)

/-- `mask_len`. -/
def mask_len (masked : Bool) : ℕ := if masked then 4 else 0

/-- What `fill` is called with. -/
def Await.want : Await → Option ℕ
  | .header => some 2
  | .length16 _ _ _ => some 4
  | .length64 _ _ _ => some 10
  | .body _ _ masked len offset => some (offset + mask_len masked + len)
  | .pong _ => none

/-- The client, and the connection it is at one end of. `reading` and `sending` are the calls of
`read_message` and `send_frame` that are running. -/
structure State (V : Type*) where
  buf : List UInt8
  partial_ : List UInt8
  reading : Option Await
  sending : Option (List UInt8)
  returned : List (Except String V)
  ended : Bool
  incoming : List UInt8
  outgoing : List UInt8
  given : List Given

/-- A client that has just connected. -/
def init (V : Type*) (incoming : List UInt8) : State V := ⟨[], [], none, none, [], false, incoming, [], []⟩

namespace State

variable {V : Type*} (s : State V)

/-- `read_message` returns an error. -/
def refuse (why : String) : State V :=
  { s with reading := none, returned := s.returned ++ [.error why], ended := true }

/-- The length is known. -/
def measured (fin : Bool) (opcode : ℕ) (masked : Bool) (len offset : ℕ) : State V :=
  if MAX_FRAME_BYTES < len then s.refuse s!"the Codex app-server sent a {len}-byte frame; refusing it"
  else { s with reading := some (.body fin opcode masked len offset) }

/-- A frame of the given opcode has been taken out of the buffer. -/
def handle (from_slice : List UInt8 → Option V) (fin : Bool) (opcode : ℕ) (payload : List UInt8)
    (mask : Vector UInt8 4) : State V :=
  if opcode = 0 ∨ opcode = 1 then
    if MAX_FRAME_BYTES < s.partial_.length + payload.length then
      s.refuse "the Codex app-server sent an oversized message; refusing it"
    else
      let message := s.partial_ ++ payload
      if fin then
        let s := { s with partial_ := [] }
        match from_slice message with
        | some value => { s with reading := none, returned := s.returned ++ [.ok value] }
        | none => s.refuse "the Codex app-server sent a message that is not JSON"
      else { s with partial_ := message, reading := some .header }
  else if opcode = 8 then s.refuse "the Codex app-server closed the connection"
  else if opcode = 9 then
    -- the ping is out of the buffer, so no later call will answer it
    let pong : Given := ⟨10, payload, mask⟩
    { s with given := s.given ++ [pong], reading := some (.pong pong.bytes) }
  else
    -- pong, binary or reserved: nothing the client uses
    { s with reading := some .header }

/-- `read_message`, from where the bytes it waited for are there to where it waits again. -/
def proceed (from_slice : List UInt8 → Option V) (mask : Vector UInt8 4) : Await → State V
  | .header =>
    match s.buf with
    | b₀ :: b₁ :: _ =>
      let fin := b₀ &&& 0x80 != 0
      let opcode := (b₀ &&& 0x0f).toNat
      let masked := b₁ &&& 0x80 != 0
      let len := (b₁ &&& 0x7f).toNat
      if len = 126 then { s with reading := some (.length16 fin opcode masked) }
      else if len = 127 then { s with reading := some (.length64 fin opcode masked) }
      else s.measured fin opcode masked len 2
    | _ => s
  | .length16 fin opcode masked => s.measured fin opcode masked (of_be ((s.buf.drop 2).take 2)) 4
  | .length64 fin opcode masked => s.measured fin opcode masked (of_be ((s.buf.drop 2).take 8)) 10
  | .body fin opcode masked len offset =>
    let payload := (s.buf.drop (offset + mask_len masked)).take len
    let payload := if masked then xor_key ((s.buf.drop offset).take 4) payload else payload
    { s with buf := s.buf.drop (offset + mask_len masked + len) }.handle from_slice fin opcode payload mask
  | .pong _ => s

end State

/-! ## The connection -/

/-- The length of the longest pong. The connection is a Unix stream socket, which takes so few bytes
all at once or, while it is full, not at all. -/
def AT_ONCE : ℕ := 2 + 4 + CONTROL

inductive Action
  /-- `read_message` is called. -/
  | call
  /-- `send_json` is called with a message of this text. -/
  | send (payload : List UInt8) (mask : Vector UInt8 4)
  /-- A read finds this many bytes. -/
  | read (n : ℕ)
  /-- The server has closed the connection. -/
  | eof
  /-- The bytes `read_message` waits for are there; a pong, if there is one, takes this mask. -/
  | proceed (mask : Vector UInt8 4)
  /-- This many bytes of what is being sent are taken. -/
  | write (n : ℕ)
  /-- `write_all` returns. -/
  | written
  /-- A timeout drops `read_message` where it waits. -/
  | cancel
  deriving DecidableEq

section Steps

variable {V : Type*} (from_slice : List UInt8 → Option V)

/-- Nothing is running, and the connection has not ended. -/
def State.idle (s : State V) : Bool := s.reading.isNone && s.sending.isNone && !s.ended

/-- What is being sent and not written yet. -/
def State.unwritten (s : State V) : Option (List UInt8) :=
  match s.reading, s.sending with
  | some (.pong unwritten), _ => some unwritten
  | _, sending => sending

/-- What is left to write. -/
def State.left (s : State V) (unwritten : List UInt8) : State V :=
  match s.reading with
  | some (.pong _) => { s with reading := some (.pong unwritten) }
  | _ => { s with sending := some unwritten }

/-- All of it has been written. -/
def State.wrote (s : State V) : State V :=
  match s.reading with
  | some (.pong _) => { s with reading := some .header }
  | _ => { s with sending := none }

/-- `read_message` waits for more bytes than there are. -/
def State.starved (s : State V) : Bool := ((s.reading.bind Await.want).any fun want => s.buf.length < want)

def step (s : State V) (a : Action) : Option (State V) :=
  match a with
  | .call => if s.idle then some { s with reading := some .header } else none
  | .send payload mask =>
    if s.idle ∧ payload.length < 18446744073709551616 then
      let g : Given := ⟨1, payload, mask⟩
      some { s with given := s.given ++ [g], sending := some g.bytes }
    else none
  | .read n =>
    if s.starved ∧ 0 < n ∧ n ≤ CHUNK ∧ n ≤ s.incoming.length then
      some { s with buf := s.buf ++ s.incoming.take n, incoming := s.incoming.drop n }
    else none
  | .eof =>
    if s.starved ∧ s.incoming = [] then some (s.refuse "the Codex app-server closed the connection") else none
  | .proceed mask =>
    match s.reading with
    | some at_ =>
      if (at_.want.any fun want => want ≤ s.buf.length) then some (s.proceed from_slice mask at_) else none
    | none => none
  | .write n =>
    match s.unwritten with
    | some bytes =>
      if 0 < n ∧ n ≤ bytes.length ∧ (bytes.length ≤ AT_ONCE → n = bytes.length) then
        some ({ s with outgoing := s.outgoing ++ bytes.take n }.left (bytes.drop n))
      else none
    | none => none
  | .written => if s.unwritten = some [] then some s.wrote else none
  | .cancel =>
    -- the stack goes, `buf` and `partial` stay
    if s.reading.isSome then some { s with reading := none } else none

end Steps

section Moves

variable {V : Type*} {from_slice : List UInt8 → Option V} {s t : State V} {a : Action}

/-- What a step can do. -/
inductive Moved (from_slice : List UInt8 → Option V) (s : State V) : Action → State V → Prop
  | call (h : s.idle = true) : Moved from_slice s .call { s with reading := some .header }
  | send (payload : List UInt8) (mask : Vector UInt8 4) (h : s.idle = true)
      (hlen : payload.length < 18446744073709551616) :
      Moved from_slice s (.send payload mask)
        { s with given := s.given ++ [⟨1, payload, mask⟩], sending := some (Given.bytes ⟨1, payload, mask⟩) }
  | read {at_ : Await} {want : ℕ} (n : ℕ) (hat : s.reading = some at_) (hwant : at_.want = some want)
      (hshort : s.buf.length < want) :
      Moved from_slice s (.read n)
        { s with buf := s.buf ++ s.incoming.take n, incoming := s.incoming.drop n }
  | eof {at_ : Await} {want : ℕ} (hat : s.reading = some at_) (hwant : at_.want = some want)
      (hshort : s.buf.length < want) (hend : s.incoming = []) :
      Moved from_slice s .eof (s.refuse "the Codex app-server closed the connection")
  | proceed {at_ : Await} {want : ℕ} (mask : Vector UInt8 4) (hat : s.reading = some at_)
      (hwant : at_.want = some want) (hle : want ≤ s.buf.length) :
      Moved from_slice s (.proceed mask) (s.proceed from_slice mask at_)
  | write {bytes : List UInt8} (n : ℕ) (hw : s.unwritten = some bytes) :
      Moved from_slice s (.write n) ({ s with outgoing := s.outgoing ++ bytes.take n }.left (bytes.drop n))
  | written (hw : s.unwritten = some []) : Moved from_slice s .written s.wrote
  | cancel {at_ : Await} (hat : s.reading = some at_) : Moved from_slice s .cancel { s with reading := none }

theorem starved_iff : s.starved = true ↔
    ∃ at_ want, s.reading = some at_ ∧ at_.want = some want ∧ s.buf.length < want := by
  unfold State.starved
  constructor
  · intro h
    obtain ⟨want, hbind, hlt⟩ := (Option.any_eq_true _ _).mp h
    obtain ⟨at_, hat, hwant⟩ := Option.bind_eq_some_iff.mp hbind
    exact ⟨at_, want, hat, hwant, of_decide_eq_true hlt⟩
  · rintro ⟨at_, want, hat, hwant, hlt⟩
    rw [hat, Option.bind_some, hwant, Option.any_some]
    exact decide_eq_true hlt

theorem moved_of_step (h : step from_slice s a = some t) : Moved from_slice s a t := by
  cases a with
  | call =>
    obtain ⟨hidle, h⟩ := Option.ite_none_right_eq_some.mp h
    cases h
    exact .call hidle
  | send payload mask =>
    obtain ⟨⟨hidle, hlen⟩, h⟩ := Option.ite_none_right_eq_some.mp h
    cases h
    exact .send payload mask hidle hlen
  | read n =>
    obtain ⟨⟨hstarved, -⟩, h⟩ := Option.ite_none_right_eq_some.mp h
    obtain ⟨at_, want, hat, hwant, hlt⟩ := starved_iff.mp hstarved
    cases h
    exact .read n hat hwant hlt
  | eof =>
    obtain ⟨⟨hstarved, hend⟩, h⟩ := Option.ite_none_right_eq_some.mp h
    obtain ⟨at_, want, hat, hwant, hlt⟩ := starved_iff.mp hstarved
    cases h
    exact .eof hat hwant hlt hend
  | proceed mask =>
    unfold step at h
    cases hat : s.reading with
    | none =>
      rw [hat] at h
      cases h
    | some at_ =>
      rw [hat] at h
      obtain ⟨hany, h⟩ := Option.ite_none_right_eq_some.mp h
      obtain ⟨want, hwant, hle⟩ := (Option.any_eq_true _ _).mp hany
      cases h
      exact .proceed mask hat hwant (of_decide_eq_true hle)
  | write n =>
    unfold step at h
    cases hw : s.unwritten with
    | none =>
      rw [hw] at h
      cases h
    | some bytes =>
      rw [hw] at h
      obtain ⟨-, h⟩ := Option.ite_none_right_eq_some.mp h
      cases h
      exact .write n hw
  | written =>
    obtain ⟨hw, h⟩ := Option.ite_none_right_eq_some.mp h
    cases h
    exact .written hw
  | cancel =>
    obtain ⟨hsome, h⟩ := Option.ite_none_right_eq_some.mp h
    obtain ⟨at_, hat⟩ := Option.isSome_iff_exists.mp hsome
    cases h
    exact .cancel hat

end Moves

/-! ## What is read -/

/-- There is one place where `read_message` waits. -/
theorem of_some {P : Await → Prop} {next : Await} (h : P next) : ∀ at_, some next = some at_ → P at_ := by
  rintro at_ ⟨⟩
  exact h

/-- The messages before the first that is too large. -/
def within {V : Type*} (ms : List (List UInt8 × V)) : List (List UInt8 × V) :=
  ms.takeWhile fun m => decide (m.1.length ≤ MAX_FRAME_BYTES)

/-- The values `read_message` has returned. -/
def State.messages {V : Type*} (s : State V) : List V := s.returned.filterMap Except.toOption

/-- **The law of reading**: what is returned are the messages of the server, in order, from the
first; all of them up to the limits, where the connection has ended or there is nothing left to
read; and an error, which ends the connection, is the last thing that is returned. -/
structure Read {V : Type*} (ms : List (List UInt8 × V)) (s : State V) : Prop where
  prefix_ : s.messages <+: (within ms).map Prod.snd
  whole : s.ended = true ∨ (s.starved = true ∧ s.incoming = []) → s.messages = (within ms).map Prod.snd
  errors : ∃ why : Option String, why.isSome = s.ended ∧ s.returned = s.messages.map .ok ++ why.toList.map .error

/-- What is on the stack is what the header of the next frame says. -/
def At (fs : List Frame) : Await → Prop
  | .header | .pong _ => True
  | .length16 fin opcode masked => ∃ f rest, fs = f :: rest ∧ f.form = .medium ∧
      fin = f.fin ∧ opcode = f.opcode ∧ masked = f.key.isSome
  | .length64 fin opcode masked => ∃ f rest, fs = f :: rest ∧ f.form = .long ∧
      fin = f.fin ∧ opcode = f.opcode ∧ masked = f.key.isSome
  | .body fin opcode masked len offset => ∃ f rest, fs = f :: rest ∧
      fin = f.fin ∧ opcode = f.opcode ∧ masked = f.key.isSome ∧ len = f.payload.length ∧ offset = f.offset

/-- Of the messages the client has returned `done`, each as it was sent. -/
structure Done {V : Type*} (ms : List (List UInt8 × V)) (s : State V) (done rest : List (List UInt8 × V)) :
    Prop where
  split : ms = done ++ rest
  returned : s.returned = done.map fun m => .ok m.2
  small : ∀ m ∈ done, m.1.length ≤ MAX_FRAME_BYTES

/-- Where a client is in the stream of the server: what it has not taken out yet are the frames
`fs`, behind the fragments `begun`. -/
structure Place {V : Type*} (ms : List (List UInt8 × V)) (s : State V) (fs : List Frame)
    (begun : Option (List UInt8)) (done rest : List (List UInt8 × V)) : Prop extends Done ms s done rest where
  bytes : s.buf ++ s.incoming = encode_all fs
  carries : Carries begun (rest.map Prod.fst) fs
  fragments : s.partial_ = begun.getD []
  stack : ∀ at_, s.reading = some at_ → At fs at_

/-- In the stream, or at an end of which everything up to the limits was returned. -/
inductive Inv {V : Type*} (ms : List (List UInt8 × V)) (s : State V) : Prop
  | open_ {fs : List Frame} {begun : Option (List UInt8)} {done rest : List (List UInt8 × V)}
      (hended : s.ended = false) (h : Place ms s fs begun done rest)
  | ended (why : String) (hended : s.ended = true) (hreading : s.reading = none)
      (hreturned : s.returned = s.messages.map .ok ++ [.error why]) (h : s.messages = (within ms).map Prod.snd)

section Reading

variable {V : Type*} {ms done rest : List (List UInt8 × V)} {from_slice : List UInt8 → Option V} {s t : State V}
  {fs : List Frame} {begun : Option (List UInt8)} {f : Frame} {at_ : Await} {want : ℕ} {a : Action}
  {l inc : List UInt8} {k : ℕ}

/-! ### Frames in the buffer -/

theorem offset_eq (f : Frame) : f.offset = match f.form with | .short => 2 | .medium => 4 | .long => 10 := by
  unfold Frame.offset
  cases f.form with
  | short => rfl
  | medium | long => rw [Form.more, be_length]

theorem mask_len_eq (f : Frame) : mask_len f.key.isSome = f.mask_length := rfl

/-- No more is waited for than the frame has. -/
theorem want_le (h : At (f :: fs) at_) (hwant : at_.want = some want) : want ≤ f.encode.length := by
  rw [f.encode_length]
  have hoffset := offset_eq f
  cases at_ with
  | header =>
    cases hwant
    rw [hoffset]
    split <;> omega
  | length16 fin opcode masked | length64 fin opcode masked =>
    obtain ⟨g, rest, heq, hform, -⟩ := h
    cases heq
    cases hwant
    simp only [hform] at hoffset
    omega
  | body fin opcode masked len offset =>
    obtain ⟨g, rest, heq, -, -, rfl, rfl, rfl⟩ := h
    cases heq
    cases hwant
    rw [mask_len_eq]
  | pong unwritten => cases hwant

/-- Beyond its first two bytes there is a frame. -/
theorem exists_frame (h : At fs at_) (hwant : at_.want = some want) (hle : want ≤ (encode_all fs).length) :
    ∃ f fs', fs = f :: fs' := by
  cases fs with
  | cons f fs' => exact ⟨f, fs', rfl⟩
  | nil =>
    cases at_ with
    | header =>
      cases hwant
      cases hle
    | length16 _ _ _ | length64 _ _ _ | body _ _ _ _ _ =>
      obtain ⟨g, rest, heq, -⟩ := h
      cases heq
    | pong _ => cases hwant

/-- Where there is nothing left to read, no frame is left. -/
theorem no_frame (h : At fs at_) (hwant : at_.want = some want) (hbuf : s.buf ++ s.incoming = encode_all fs)
    (hend : s.incoming = []) (hshort : s.buf.length < want) : fs = [] := by
  cases fs with
  | nil => rfl
  | cons f fs =>
    have hle := want_le h hwant
    rw [hend, List.append_nil] at hbuf
    rw [hbuf, encode_all_cons, List.length_append] at hshort
    omega

/-- The header, once two bytes are there. -/
theorem head_of_le (h : l ++ inc = encode_all (f :: fs)) (hle : 2 ≤ l.length) :
    ∃ l', l = f.head :: f.second :: l' := by
  rw [encode_all_cons] at h
  have hsplit : l ++ inc = [f.head, f.second] ++
      (f.form.more f.payload.length ++ (f.key.getD [] ++ f.body) ++ encode_all fs) := h
  obtain ⟨l', hl, -⟩ := split_of_le hsplit hle
  exact ⟨l', hl⟩

/-- The length behind the header, once it is there. -/
theorem length_of_le (h : l ++ inc = encode_all (f :: fs)) (hle : 2 + k ≤ l.length)
    (hmore : f.form.more f.payload.length = be k f.payload.length) (hlt : f.payload.length < 256 ^ k) :
    of_be ((l.drop 2).take k) = f.payload.length := by
  have hhead : (f.head :: f.second :: be k f.payload.length).length ≤ l.length := by
    rw [List.length_cons, List.length_cons, be_length]
    omega
  have hsplit : l ++ inc = (f.head :: f.second :: be k f.payload.length) ++
      ((f.key.getD [] ++ f.body) ++ encode_all fs) := by
    rw [h, encode_all_cons, Frame.encode, hmore]
    simp only [List.cons_append, List.append_assoc]
  obtain ⟨l', rfl, -⟩ := split_of_le hsplit hhead
  have hdrop : ((f.head :: f.second :: be k f.payload.length) ++ l').drop 2 = be k f.payload.length ++ l' := rfl
  rw [hdrop, List.take_left' (be_length k _)]
  exact of_be_be hlt

/-- The whole frame, once it is there: its payload without the mask, and what stands behind it. -/
theorem body_of_le (h : l ++ inc = encode_all (f :: fs))
    (hle : f.offset + mask_len f.key.isSome + f.payload.length ≤ l.length) : (if f.key.isSome then
        xor_key ((l.drop f.offset).take 4)
          ((l.drop (f.offset + mask_len f.key.isSome)).take f.payload.length)
      else (l.drop (f.offset + mask_len f.key.isSome)).take f.payload.length) = f.payload ∧
    l.drop (f.offset + mask_len f.key.isSome + f.payload.length) ++ inc = encode_all fs := by
  rw [mask_len_eq] at hle ⊢
  rw [encode_all_cons] at h
  obtain ⟨l', rfl, hrest⟩ := split_of_le h (f.encode_length ▸ hle)
  have hhead : (f.head :: f.second :: f.form.more f.payload.length).length = f.offset := by
    rw [List.length_cons, List.length_cons, Frame.offset]
    omega
  have hencode : f.encode ++ l' =
      (f.head :: f.second :: f.form.more f.payload.length) ++ (f.key.getD [] ++ (f.body ++ l')) := by
    simp only [Frame.encode, List.cons_append, List.append_assoc]
  have hkey : (f.encode ++ l').drop f.offset = f.key.getD [] ++ (f.body ++ l') := by
    rw [hencode]
    exact List.drop_left' hhead
  have hbody : ((f.encode ++ l').drop (f.offset + f.mask_length)).take f.payload.length = f.body := by
    rw [← List.drop_drop, hkey, List.drop_left' f.key_getD_length, List.take_left' f.body_length]
  constructor
  · rw [hbody]
    have hunmask := f.unmask_body
    cases hk : f.key with
    | none =>
      rw [hk] at hunmask
      exact hunmask
    | some key =>
      have htake : (key ++ (f.body ++ l')).take 4 = key := List.take_left' (f.key_length key hk)
      rw [hk] at hunmask
      rw [hkey, hk, Option.getD_some, htake]
      exact hunmask
  · rw [List.drop_left' f.encode_length]
    exact hrest

/-! ### Limits -/

/-- The messages behind one that is too large, or that is never finished, are not returned. -/
theorem within_append (hsmall : ∀ m ∈ done, m.1.length ≤ MAX_FRAME_BYTES)
    (hrest : ∀ m ∈ rest.head?, MAX_FRAME_BYTES < m.1.length) : within (done ++ rest) = done := by
  unfold within
  rw [List.takeWhile_append_of_pos fun m hm => decide_eq_true (hsmall m hm)]
  cases rest with
  | nil => rw [List.takeWhile_nil, List.append_nil]
  | cons m rest =>
    have hlarge := hrest m rfl
    rw [List.takeWhile_cons_of_neg, List.append_nil]
    rw [decide_eq_true_eq]
    omega

theorem prefix_within (hsmall : ∀ m ∈ done, m.1.length ≤ MAX_FRAME_BYTES) : done <+: within (done ++ rest) := by
  unfold within
  rw [List.takeWhile_append_of_pos fun m hm => decide_eq_true (hsmall m hm)]
  exact List.prefix_append _ _

theorem filterMap_ok (vs : List V) : (vs.map (Except.ok : V → Except String V)).filterMap Except.toOption = vs := by
  rw [List.filterMap_map]
  exact List.filterMap_some

theorem Done.messages (h : Done ms s done rest) : s.messages = done.map Prod.snd := by
  have hmap : (done.map fun m => (Except.ok m.2 : Except String V)) = (done.map Prod.snd).map Except.ok := by
    rw [List.map_map]
    rfl
  rw [State.messages, h.returned, hmap, filterMap_ok]

/-- Where no frame is left, no message is. -/
theorem Place.last_of_nil (h : Place ms s fs begun done rest) (hfs : fs = []) :
    ∀ m ∈ rest.head?, MAX_FRAME_BYTES < m.1.length := by
  have hcarries := h.carries
  rw [hfs] at hcarries
  rw [List.map_eq_nil_iff.mp hcarries.eq_nil]
  exact nofun

/-- **The invariant is enough for the law.** -/
theorem Inv.read (h : Inv ms s) : Read ms s := by
  cases h with
  | ended why hended _ hreturned h => exact ⟨h ▸ List.prefix_rfl, fun _ => h, some why, hended.symm, hreturned⟩
  | @open_ fs begun done rest hended h =>
    have hms := h.messages
    refine ⟨?_, ?_, none, hended.symm, ?_⟩
    · rw [hms, h.split]
      exact (prefix_within h.small).map Prod.snd
    · rintro (hend | ⟨hstarved, hend⟩)
      · rw [hended] at hend
        cases hend
      · obtain ⟨at_, want, hat, hwant, hshort⟩ := starved_iff.mp hstarved
        have hfs := no_frame (h.stack at_ hat) hwant h.bytes hend hshort
        rw [hms, h.split, within_append h.small (h.last_of_nil hfs)]
    · rw [hms, h.returned, List.map_map]
      exact (List.append_nil _).symm

/-! ### Taking a frame out -/

theorem refuse_messages (why : String) : (s.refuse why).messages = s.messages := by
  rw [State.messages, State.messages, State.refuse, List.filterMap_append]
  exact List.append_nil _

theorem Done.of_returned (h : Done ms s done rest) (ht : t.returned = s.returned) : Done ms t done rest :=
  ⟨h.split, ht.trans h.returned, h.small⟩

/-- The next message is returned. -/
theorem Done.took {m : List UInt8 × V} (h : Done ms s done (m :: rest)) (hle : m.1.length ≤ MAX_FRAME_BYTES)
    (ht : t.returned = s.returned ++ [.ok m.2]) : Done ms t (done ++ [m]) rest := by
  refine ⟨?_, ?_, ?_⟩
  · rw [h.split, List.append_assoc, List.singleton_append]
  · rw [ht, h.returned, List.map_append, List.map_singleton]
  · intro x hx
    rcases List.mem_append.mp hx with hx | hx
    · exact h.small x hx
    · rw [List.mem_singleton.mp hx]
      exact hle

/-- An error is no loss where the next message is too large, or never finished. -/
theorem Done.refuse (h : Done ms s done rest) (hrest : ∀ m ∈ rest.head?, MAX_FRAME_BYTES < m.1.length)
    (why : String) : Inv ms (s.refuse why) := by
  have hms : (s.refuse why).messages = done.map Prod.snd := by rw [refuse_messages, h.messages]
  refine .ended why rfl rfl ?_ ?_
  · rw [hms, List.map_map]
    exact congrArg (· ++ [.error why]) h.returned
  · rw [hms, h.split, within_append h.small hrest]

/-- The next message is at least as large as what there is of it. -/
theorem large_of_begun (hpre : ∀ m ∈ (rest.map Prod.fst).head?, begun.getD [] ++ f.payload <+: m)
    (hlarge : MAX_FRAME_BYTES < (begun.getD []).length + f.payload.length) :
    ∀ m ∈ rest.head?, MAX_FRAME_BYTES < m.1.length := by
  intro m hm
  have hmem : m.1 ∈ (rest.map Prod.fst).head? := by
    rw [List.head?_map, Option.mem_def.mp hm]
    exact rfl
  have hle := (hpre m.1 hmem).length_le
  rw [List.length_append] at hle
  omega

theorem Place.measured (h : Place ms s (f :: fs) begun done rest) (hended : s.ended = false) :
    Inv ms (s.measured f.fin f.opcode f.key.isSome f.payload.length f.offset) := by
  unfold State.measured
  split
  next hlarge =>
    have htext : CONTROL < f.payload.length := Nat.lt_trans (by decide) hlarge
    have hpre := h.carries.text_prefix (h.carries.text_of_large htext)
    exact h.toDone.refuse (large_of_begun hpre (Nat.lt_add_left _ hlarge)) _
  next =>
    have hstack : At (f :: fs) (.body f.fin f.opcode f.key.isSome f.payload.length f.offset) :=
      ⟨f, fs, rfl, rfl, rfl, rfl, rfl, rfl⟩
    exact .open_ hended ⟨h.toDone.of_returned rfl, h.bytes, h.carries, h.fragments, of_some hstack⟩

/-- The length stands behind the header. -/
theorem Place.measured_more (h : Place ms s (f :: fs) begun done rest) (hended : s.ended = false)
    (hle : 2 + k ≤ s.buf.length) (hmore : f.form.more f.payload.length = be k f.payload.length)
    (hlt : f.payload.length < 256 ^ k) :
    Inv ms (s.measured f.fin f.opcode f.key.isSome (of_be ((s.buf.drop 2).take k)) (2 + k)) := by
  have hoffset : f.offset = 2 + k := by rw [Frame.offset, hmore, be_length]
  rw [length_of_le h.bytes hle hmore hlt, ← hoffset]
  exact h.measured hended

/-- A frame has been taken out, and what is behind it is in the buffer. -/
theorem Done.handle (h : Done ms s done rest) (hended : s.ended = false) (hbytes : s.buf ++ s.incoming = encode_all fs)
    (hcarries : Carries begun (rest.map Prod.fst) (f :: fs)) (hfragments : s.partial_ = begun.getD [])
    (hparse : ∀ m ∈ ms, from_slice m.1 = some m.2) (mask : Vector UInt8 4) :
    Inv ms (s.handle from_slice f.fin f.opcode f.payload mask) := by
  -- a text frame that is refused is a piece of the next message, which is too large with it
  have hpre := hcarries.text_prefix
  have hdigit : ∀ b : Bool, (if b then 0 else 1) = 0 ∨ (if b then 0 else 1) = 1 := by decide
  unfold State.handle
  generalize hrest : rest.map Prod.fst = texts at hcarries
  cases hcarries with
  | control _ hop _ hcarries =>
    subst hrest
    rw [if_neg (by omega), if_neg (by omega)]
    -- a ping is answered first; either way the next header is next
    split
    next =>
      exact .open_ hended ⟨h.of_returned rfl, hbytes, hcarries, hfragments, of_some trivial⟩
    next =>
      exact .open_ hended ⟨h.of_returned rfl, hbytes, hcarries, hfragments, of_some trivial⟩
  | fragment _ hop hfin hcarries =>
    subst hrest
    have htext : f.opcode = 0 ∨ f.opcode = 1 := hop ▸ hdigit begun.isSome
    rw [if_pos htext]
    split
    next hlarge => exact h.refuse (large_of_begun (hpre htext) (hfragments ▸ hlarge)) _
    next =>
      simp only [hfin, Bool.false_eq_true, if_false]
      refine .open_ hended ⟨h.of_returned rfl, hbytes, hcarries, ?_, of_some trivial⟩
      rw [hfragments]
      rfl
  | last _ hop hfin hcarries =>
    have htext : f.opcode = 0 ∨ f.opcode = 1 := hop ▸ hdigit begun.isSome
    rw [if_pos htext]
    split
    next hlarge => exact h.refuse (large_of_begun (hpre htext) (hfragments ▸ hlarge)) _
    next hsmall =>
      obtain ⟨m, rest', rfl, hm, rfl⟩ := List.map_eq_cons_iff.mp hrest
      have hmem : m ∈ ms := by
        rw [h.split]
        exact List.mem_append_right _ List.mem_cons_self
      have hvalue : from_slice (s.partial_ ++ f.payload) = some m.2 := by
        rw [hfragments, ← hm]
        exact hparse m hmem
      simp only [hvalue]
      have hle : m.1.length ≤ MAX_FRAME_BYTES := by
        rw [hm, List.length_append, ← hfragments]
        omega
      exact .open_ hended ⟨h.took hle rfl, hbytes, hcarries, rfl, nofun⟩

/-! ### Steps -/

theorem proceed_header {b : List UInt8} {mask : Vector UInt8 4} (hb : s.buf = f.head :: f.second :: b) :
    s.proceed from_slice mask .header =
      if f.form.code f.payload.length = 126 then
        { s with reading := some (.length16 f.fin f.opcode f.key.isSome) }
      else if f.form.code f.payload.length = 127 then
        { s with reading := some (.length64 f.fin f.opcode f.key.isSome) }
      else s.measured f.fin f.opcode f.key.isSome (f.form.code f.payload.length) 2 := by
  rw [← f.head_fin, ← f.head_opcode, ← f.second_masked, ← f.second_code]
  simp only [State.proceed]
  split
  next b₀ b₁ tail heq =>
    rw [hb] at heq
    cases heq
    rfl
  next hne => exact absurd hb (hne _ _ _)

/-- **`read_message` goes on rightly** from where it waited. -/
theorem Place.proceed (h : Place ms s fs begun done rest) (hended : s.ended = false)
    (hparse : ∀ m ∈ ms, from_slice m.1 = some m.2) (hat : s.reading = some at_)
    (hwant : at_.want = some want) (hle : want ≤ s.buf.length) (mask : Vector UInt8 4) :
    Inv ms (s.proceed from_slice mask at_) := by
  have hstack := h.stack at_ hat
  have hlen : want ≤ (encode_all fs).length := by
    rw [← h.bytes, List.length_append]
    omega
  obtain ⟨f, fs, rfl⟩ := exists_frame hstack hwant hlen
  -- what is on the stack agrees with `f`, so what is computed from it and the buffer does
  cases at_ with
  | header =>
    cases hwant
    obtain ⟨b, hb⟩ := head_of_le h.bytes hle
    have hoffset := offset_eq f
    have hfits := f.fits
    have hstacked : ∀ next, At (f :: fs) next → Inv ms { s with reading := some next } := by
      intro next hnext
      exact .open_ hended ⟨h.toDone.of_returned rfl, h.bytes, h.carries, h.fragments, of_some hnext⟩
    rw [proceed_header hb]
    cases hform : f.form with
    | short =>
      have hcode : Form.short.code f.payload.length = f.payload.length := rfl
      rw [hform] at hfits
      have hlt : f.payload.length < 126 := hfits
      simp only [hform] at hoffset
      rw [hcode, if_neg (by omega), if_neg (by omega), ← hoffset]
      exact h.measured hended
    | medium => exact hstacked (.length16 f.fin f.opcode f.key.isSome) ⟨f, fs, rfl, hform, rfl, rfl, rfl⟩
    | long => exact hstacked (.length64 f.fin f.opcode f.key.isSome) ⟨f, fs, rfl, hform, rfl, rfl, rfl⟩
  | length16 fin opcode masked =>
    obtain ⟨g, rest, heq, hform, rfl, rfl, rfl⟩ := hstack
    cases heq
    cases hwant
    have hfits := f.fits
    rw [hform] at hfits
    have hmore : f.form.more f.payload.length = be 2 f.payload.length := by
      rw [hform]
      rfl
    exact h.measured_more hended hle hmore hfits
  | length64 fin opcode masked =>
    obtain ⟨g, rest, heq, hform, rfl, rfl, rfl⟩ := hstack
    cases heq
    cases hwant
    have hfits := f.fits
    rw [hform] at hfits
    have hmore : f.form.more f.payload.length = be 8 f.payload.length := by
      rw [hform]
      rfl
    exact h.measured_more hended hle hmore hfits
  | body fin opcode masked len offset =>
    obtain ⟨g, rest, heq, rfl, rfl, rfl, rfl, rfl⟩ := hstack
    cases heq
    cases hwant
    obtain ⟨hpayload, hbytes⟩ := body_of_le h.bytes hle
    have hdone : Done ms { s with buf := s.buf.drop (f.offset + mask_len f.key.isSome + f.payload.length) }
        done _ := h.toDone.of_returned rfl
    have hproceed : s.proceed from_slice mask (.body f.fin f.opcode f.key.isSome f.payload.length f.offset) =
        State.handle { s with buf := s.buf.drop (f.offset + mask_len f.key.isSome + f.payload.length) }
          from_slice f.fin f.opcode
          (if f.key.isSome then
            xor_key ((s.buf.drop f.offset).take 4)
              ((s.buf.drop (f.offset + mask_len f.key.isSome)).take f.payload.length)
          else (s.buf.drop (f.offset + mask_len f.key.isSome)).take f.payload.length) mask := rfl
    rw [hproceed, hpayload]
    exact hdone.handle hended hbytes h.carries h.fragments hparse mask
  | pong unwritten => cases hwant

/-- Of what reading is about only where `read_message` waits has changed, if anything. -/
structure Kept (s t : State V) : Prop where
  buf : t.buf = s.buf
  partial_ : t.partial_ = s.partial_
  returned : t.returned = s.returned
  ended : t.ended = s.ended
  incoming : t.incoming = s.incoming
  none_ : s.ended = true → s.reading = none → t.reading = none
  stack : ∀ at_, t.reading = some at_ → s.reading = some at_ ∨ ∀ fs, At fs at_

theorem Inv.of_kept (h : Inv ms s) (hkept : Kept s t) : Inv ms t := by
  cases h with
  | ended why hended hreading hreturned h =>
    have hms : t.messages = s.messages := by rw [State.messages, State.messages, hkept.returned]
    refine .ended why (hkept.ended.trans hended) (hkept.none_ hended hreading) ?_ (hms.trans h)
    rw [hkept.returned, hms]
    exact hreturned
  | @open_ fs begun done rest hended h =>
    refine .open_ (hkept.ended.trans hended) ⟨h.toDone.of_returned hkept.returned, ?_, h.carries, ?_, ?_⟩
    · rw [hkept.buf, hkept.incoming]
      exact h.bytes
    · rw [hkept.partial_]
      exact h.fragments
    · intro at_ hat
      rcases hkept.stack at_ hat with hat | hall
      · exact h.stack at_ hat
      · exact hall fs

theorem kept_left (bytes unwritten : List UInt8) :
    Kept s ({ s with outgoing := s.outgoing ++ bytes }.left unwritten) := by
  unfold State.left
  split
  next rest hat =>
    refine ⟨rfl, rfl, rfl, rfl, rfl, fun _ hnone => ?_, of_some (.inr fun _ => trivial)⟩
    rw [hnone] at hat
    cases hat
  next => exact ⟨rfl, rfl, rfl, rfl, rfl, fun _ hnone => hnone, fun _ h => .inl h⟩

theorem kept_wrote : Kept s s.wrote := by
  unfold State.wrote
  split
  next rest hat =>
    refine ⟨rfl, rfl, rfl, rfl, rfl, fun _ hnone => ?_, of_some (.inr fun _ => trivial)⟩
    rw [hnone] at hat
    cases hat
  next => exact ⟨rfl, rfl, rfl, rfl, rfl, fun _ hnone => hnone, fun _ h => .inl h⟩

theorem ended_of_idle (h : s.idle = true) : s.reading = none ∧ s.sending = none ∧ s.ended = false := by
  simpa [State.idle, and_assoc] using h

/-- **Every step keeps the invariant.** -/
theorem Inv.step (h : Inv ms s) (hparse : ∀ m ∈ ms, from_slice m.1 = some m.2)
    (hmoved : Moved from_slice s a t) : Inv ms t := by
  cases hmoved with
  | call hidle =>
    obtain ⟨-, -, hended⟩ := ended_of_idle hidle
    refine h.of_kept ⟨rfl, rfl, rfl, rfl, rfl, fun hend => ?_, of_some (.inr fun _ => trivial)⟩
    rw [hended] at hend
    cases hend
  | send payload mask _ _ =>
    exact h.of_kept ⟨rfl, rfl, rfl, rfl, rfl, fun _ hnone => hnone, fun _ hat => .inl hat⟩
  | read n hat hwant hshort =>
    cases h with
    | ended _ _ hnone _ _ =>
      rw [hnone] at hat
      cases hat
    | open_ hended h =>
      -- bytes go from what comes in to the buffer, and the stream is the same
      refine .open_ hended ⟨h.toDone.of_returned rfl, ?_, h.carries, h.fragments, h.stack⟩
      rw [List.append_assoc, List.take_append_drop]
      exact h.bytes
  | eof hat hwant hshort hend =>
    cases h with
    | ended _ _ hnone _ _ =>
      rw [hnone] at hat
      cases hat
    | open_ _ h =>
      exact h.toDone.refuse (h.last_of_nil (no_frame (h.stack _ hat) hwant h.bytes hend hshort)) _
  | proceed mask hat hwant hle =>
    cases h with
    | ended _ _ hnone _ _ =>
      rw [hnone] at hat
      cases hat
    | open_ hended h => exact h.proceed hended hparse hat hwant hle mask
  | write n hw => exact h.of_kept (kept_left _ _)
  | written hw => exact h.of_kept kept_wrote
  | cancel hat => exact h.of_kept ⟨rfl, rfl, rfl, rfl, rfl, fun _ _ => rfl, nofun⟩

theorem inv_init (h : Carries none (ms.map Prod.fst) fs) : Inv ms (init V (encode_all fs)) := by
  have hdone : Done ms (init V (encode_all fs)) [] ms := ⟨rfl, rfl, fun m hm => absurd hm List.not_mem_nil⟩
  exact .open_ rfl ⟨hdone, rfl, h, rfl, nofun⟩

end Reading

/-! ## What is sent -/

/-- What a frame that was given to `send_frame` says. -/
def Given.said (g : Given) : Said := (true, g.opcode, g.payload)

/-- **The law of sending**: what the server gets, with the rest of the frame that is being
written, is read as what `send_frame` was given, frame by frame. -/
def Sent {V : Type*} (s : State V) : Prop :=
  decode_all s.given.length (s.outgoing ++ s.unwritten.getD []) = some (s.given.map Given.said)

/-- No `read_message` is cancelled while a pong is not written. -/
def Sound {V : Type*} (s : State V) (a : Action) : Prop := a = .cancel → s.unwritten.getD [] = []

instance {V : Type*} (s : State V) (a : Action) : Decidable (Sound s a) := inferInstanceAs (Decidable (_ → _))

/-- What `send_frame` can be given. -/
def Given.Fits (g : Given) : Prop := g.opcode < 16 ∧ g.payload.length < 18446744073709551616

/-- The length `read_message` has on its stack is within the limit. -/
def Small : Await → Prop
  | .body _ _ _ len _ => len ≤ MAX_FRAME_BYTES
  | _ => True

/-- What is being written is the end of what was given to `send_frame`. -/
structure Writes {V : Type*} (s : State V) : Prop where
  apart : s.reading.isSome = true → s.sending = none
  fits : ∀ g ∈ s.given, g.Fits
  small : ∀ at_, s.reading = some at_ → Small at_
  bytes : s.outgoing ++ s.unwritten.getD [] = s.given.flatMap Given.bytes

section Sending

variable {V : Type*} {from_slice : List UInt8 → Option V} {s t : State V} {a : Action} {at_ : Await} {want : ℕ}
  {g : Given} {bytes : List UInt8}

/-! ### Frames -/

/-- `send_frame` writes a frame, masked, its length in the shortest form. -/
theorem Given.exists_frame (h : g.Fits) : ∃ f : Frame, f.encode = g.bytes ∧ f.said = g.said := by
  obtain ⟨hop, hlen⟩ := h
  have hhead : ∀ n < 16, (0x80 : UInt8) ||| UInt8.ofNat n = UInt8.ofNat (128 + n) := by decide
  have hsecond : ∀ n < 126, (0x80 : UInt8) ||| UInt8.ofNat n = UInt8.ofNat (128 + n) := by decide
  have hcode16 : (0x80 : UInt8) ||| 126 = UInt8.ofNat (128 + 126) := by decide
  have hcode64 : (0x80 : UInt8) ||| 127 = UInt8.ofNat (128 + 127) := by decide
  have hkey : ∀ k ∈ some g.mask.toList, k.length = 4 := by
    intro k hk
    cases Option.some.inj hk
    exact g.mask.length_toList
  by_cases hshort : g.payload.length < 126
  · refine ⟨⟨true, g.opcode, some g.mask.toList, .short, g.payload, hop, hkey, hshort⟩, ?_, rfl⟩
    simp only [Given.bytes, if_pos hshort, hhead g.opcode hop, hsecond _ hshort]
    rfl
  · by_cases hmedium : g.payload.length ≤ 65535
    · have hfits : Form.medium.Fits g.payload.length := Nat.lt_succ_of_le hmedium
      refine ⟨⟨true, g.opcode, some g.mask.toList, .medium, g.payload, hop, hkey, hfits⟩, ?_, rfl⟩
      simp only [Given.bytes, if_neg hshort, if_pos hmedium, hhead g.opcode hop, hcode16]
      rfl
    · refine ⟨⟨true, g.opcode, some g.mask.toList, .long, g.payload, hop, hkey, hlen⟩, ?_, rfl⟩
      simp only [Given.bytes, if_neg hshort, if_neg hmedium, hhead g.opcode hop, hcode64]
      rfl

theorem exists_frames {gs : List Given} (h : ∀ g ∈ gs, g.Fits) :
    ∃ fs : List Frame, encode_all fs = gs.flatMap Given.bytes ∧ fs.map Frame.said = gs.map Given.said := by
  induction gs with
  | nil => exact ⟨[], rfl, rfl⟩
  | cons g gs ih =>
    obtain ⟨f, hencode, hsaid⟩ := Given.exists_frame (h g List.mem_cons_self)
    obtain ⟨fs, hencodes, hsaids⟩ := ih fun g hg => h g (List.mem_cons_of_mem _ hg)
    refine ⟨f :: fs, ?_, ?_⟩
    · rw [encode_all_cons, hencode, hencodes, List.flatMap_cons]
    · rw [List.map_cons, hsaid, hsaids, List.map_cons]

theorem Writes.sent (h : Writes s) : Sent s := by
  obtain ⟨fs, hencode, hsaid⟩ := exists_frames h.fits
  have hle : fs.length ≤ s.given.length := by
    rw [← List.length_map Frame.said, hsaid, List.length_map]
  rw [Sent, h.bytes, ← hencode, decode_all_encode_all fs hle, hsaid]

/-! ### Steps -/

theorem left_unwritten (unwritten : List UInt8) : (s.left unwritten).unwritten = some unwritten := by
  unfold State.left
  split
  next => rfl
  next hne =>
    unfold State.unwritten
    split
    next rest hat => exact absurd hat (hne _)
    next => rfl

theorem unwritten_of_none (h : s.reading = none) : s.unwritten = s.sending := by
  rw [State.unwritten, h]

/-- Where `read_message` waits for bytes, nothing is written. -/
theorem unwritten_of_want (h : Writes s) (hat : s.reading = some at_) (hwant : at_.want = some want) :
    s.unwritten = none := by
  have hsending := h.apart (hat ▸ rfl)
  unfold State.unwritten
  split
  next rest hpong =>
    rw [hat] at hpong
    cases hpong
    cases hwant
  next => exact hsending

/-- `read_message` has gone on, and has nothing to write. -/
structure Quiet (s t : State V) : Prop where
  sending : t.sending = s.sending
  outgoing : t.outgoing = s.outgoing
  given : t.given = s.given
  unwritten : s.sending = none → t.unwritten = none
  small : ∀ at_, t.reading = some at_ → Small at_

theorem quiet_refuse (why : String) : Quiet s (s.refuse why) := ⟨rfl, rfl, rfl, id, nofun⟩

theorem Writes.of_quiet (h : Writes s) (hnone : s.unwritten = none) (hsending : s.sending = none)
    (hquiet : Quiet s t) : Writes t := by
  refine ⟨fun _ => hquiet.sending.trans hsending, hquiet.given ▸ h.fits, hquiet.small, ?_⟩
  have hbytes := h.bytes
  rw [hnone] at hbytes
  rw [hquiet.unwritten hsending, hquiet.outgoing, hquiet.given]
  exact hbytes

theorem quiet_measured (fin : Bool) (opcode : ℕ) (masked : Bool) (len offset : ℕ) :
    Quiet s (s.measured fin opcode masked len offset) := by
  unfold State.measured
  split
  next => exact quiet_refuse _
  next hle =>
    have hsmall : Small (.body fin opcode masked len offset) := Nat.le_of_not_lt hle
    exact ⟨rfl, rfl, rfl, id, of_some hsmall⟩

theorem quiet_header : Quiet s { s with reading := some .header } := ⟨rfl, rfl, rfl, id, of_some trivial⟩

/-- `read_message` writes nothing but the answer to a ping. -/
theorem quiet_handle (fin : Bool) (opcode : ℕ) (payload : List UInt8) (mask : Vector UInt8 4) :
    Quiet s (s.handle from_slice fin opcode payload mask) ∨
      s.handle from_slice fin opcode payload mask =
        { s with
          given := s.given ++ [⟨10, payload, mask⟩]
          reading := some (.pong (Given.bytes ⟨10, payload, mask⟩)) } := by
  unfold State.handle
  split
  next =>
    left
    split
    next => exact quiet_refuse _
    next =>
      dsimp only
      split
      next =>
        split
        next => exact ⟨rfl, rfl, rfl, id, nofun⟩
        next => exact ⟨rfl, rfl, rfl, id, nofun⟩
      next =>
        exact ⟨rfl, rfl, rfl, id, of_some trivial⟩
  next =>
    split
    next => exact .inl (quiet_refuse _)
    next =>
      split
      next => exact .inr rfl
      next => exact .inl quiet_header

/-- The frame is given to `send_frame`, and nothing of it is written yet. -/
theorem Writes.given (h : Writes s) (hnone : s.unwritten = none) (hg : g.Fits)
    (hgiven : t.given = s.given ++ [g]) (hunwritten : t.unwritten = some g.bytes) (hout : t.outgoing = s.outgoing)
    (hapart : t.reading.isSome = true → t.sending = none) (hsmall : ∀ at_, t.reading = some at_ → Small at_) :
    Writes t := by
  refine ⟨hapart, fun x hx => ?_, hsmall, ?_⟩
  · rw [hgiven] at hx
    rcases List.mem_append.mp hx with hx | hx
    · exact h.fits x hx
    · rw [List.mem_singleton.mp hx]
      exact hg
  · have hbytes := h.bytes
    rw [hnone, Option.getD_none, List.append_nil] at hbytes
    rw [hout, hunwritten, hgiven, List.flatMap_append, List.flatMap_singleton, hbytes, Option.getD_some]

theorem Writes.proceed (h : Writes s) (hat : s.reading = some at_) (hwant : at_.want = some want)
    (mask : Vector UInt8 4) : Writes (s.proceed from_slice mask at_) := by
  have hsending := h.apart (hat ▸ rfl)
  have hnone := unwritten_of_want h hat hwant
  cases at_ with
  | header =>
    simp only [State.proceed]
    split
    next =>
      split
      next =>
        exact h.of_quiet hnone hsending ⟨rfl, rfl, rfl, id, of_some trivial⟩
      next =>
        split
        next =>
          exact h.of_quiet hnone hsending ⟨rfl, rfl, rfl, id, of_some trivial⟩
        next => exact h.of_quiet hnone hsending (quiet_measured _ _ _ _ _)
    next => exact h
  | length16 fin opcode masked | length64 fin opcode masked => exact h.of_quiet hnone hsending (quiet_measured _ _ _ _ _)
  | body fin opcode masked len offset =>
    let taken : State V := { s with buf := s.buf.drop (offset + mask_len masked + len) }
    let travelled := (s.buf.drop (offset + mask_len masked)).take len
    let payload := if masked then xor_key ((s.buf.drop offset).take 4) travelled else travelled
    have htaken : Writes taken := ⟨h.apart, h.fits, h.small, h.bytes⟩
    -- a pong is no longer than the ping, whose length was within the limit
    have hle : payload.length ≤ MAX_FRAME_BYTES := by
      have hlen : payload.length = travelled.length := by
        dsimp only [payload]
        split
        next => exact xor_key_length _ _
        next => rfl
      rw [hlen]
      exact Nat.le_trans (List.length_take_le _ _) (h.small _ hat)
    have hten : 10 < 16 := by decide
    have hfits : Given.Fits ⟨10, payload, mask⟩ := ⟨hten, Nat.lt_of_le_of_lt hle (by decide)⟩
    have hproceed : s.proceed from_slice mask (.body fin opcode masked len offset) =
        taken.handle from_slice fin opcode payload mask := rfl
    rw [hproceed]
    rcases quiet_handle fin opcode payload mask with hquiet | hping
    · exact htaken.of_quiet hnone hsending hquiet
    · rw [hping]
      exact htaken.given hnone hfits rfl rfl rfl (fun _ => hsending) (of_some trivial)
  | pong rest => cases hwant

/-- What is being written, if it is not a pong, is what `send_frame` writes. -/
theorem Writes.reading_none (h : Writes s) (hw : s.unwritten = some bytes)
    (hne : ∀ rest, s.reading ≠ some (.pong rest)) : s.reading = none := by
  have hsending : s.unwritten = s.sending := by
    unfold State.unwritten
    split
    next rest hat => exact absurd hat (hne rest)
    next => rfl
  cases hreading : s.reading with
  | none => rfl
  | some at_ =>
    rw [hsending, h.apart (hreading ▸ rfl)] at hw
    cases hw

theorem Writes.left (h : Writes s) (hw : s.unwritten = some bytes) (n : ℕ) :
    Writes ({ s with outgoing := s.outgoing ++ bytes.take n }.left (bytes.drop n)) := by
  have hbytes : s.outgoing ++ bytes.take n ++ bytes.drop n = s.given.flatMap Given.bytes := by
    rw [List.append_assoc, List.take_append_drop, ← h.bytes, hw, Option.getD_some]
  have hunwritten : ({ s with outgoing := s.outgoing ++ bytes.take n }.left (bytes.drop n)).unwritten =
      some (bytes.drop n) := left_unwritten _
  unfold State.left at hunwritten ⊢
  split at hunwritten
  next rest hat =>
    refine ⟨fun _ => h.apart (hat ▸ rfl), h.fits, of_some trivial, ?_⟩
    rw [hunwritten]
    exact hbytes
  next hne =>
    have hreading := h.reading_none hw hne
    refine ⟨fun hsome => ?_, h.fits, h.small, ?_⟩
    · rw [hreading] at hsome
      cases hsome
    · rw [hunwritten]
      exact hbytes

theorem Writes.wrote (h : Writes s) (hw : s.unwritten = some []) : Writes s.wrote := by
  have hbytes := h.bytes
  rw [hw, Option.getD_some] at hbytes
  unfold State.wrote
  split
  next rest hat =>
    have hsending := h.apart (hat ▸ rfl)
    have hnone : ({ s with reading := some .header } : State V).unwritten = none := hsending
    refine ⟨fun _ => hsending, h.fits, of_some trivial, ?_⟩
    rw [hnone]
    exact hbytes
  next hne =>
    have hreading := h.reading_none hw hne
    refine ⟨fun _ => rfl, h.fits, h.small, ?_⟩
    have hnone : ({ s with sending := none } : State V).unwritten = none := unwritten_of_none hreading
    rw [hnone]
    exact hbytes

/-- **Every step keeps it**, a sound one. -/
theorem Writes.step (h : Writes s) (hsound : Sound s a) (hmoved : Moved from_slice s a t) : Writes t := by
  cases hmoved with
  | call hidle =>
    obtain ⟨hreading, hsending, -⟩ := ended_of_idle hidle
    exact h.of_quiet ((unwritten_of_none hreading).trans hsending) hsending quiet_header
  | send payload mask hidle hlen =>
    obtain ⟨hreading, hsending, -⟩ := ended_of_idle hidle
    have hone : 1 < 16 := by decide
    have hfits : Given.Fits ⟨1, payload, mask⟩ := ⟨hone, hlen⟩
    refine h.given ((unwritten_of_none hreading).trans hsending) hfits rfl ?_ rfl ?_ h.small
    · exact unwritten_of_none hreading
    · intro hsome
      rw [hreading] at hsome
      cases hsome
  | read n hat hwant hshort => exact ⟨h.apart, h.fits, h.small, h.bytes⟩
  | eof hat hwant hshort hend =>
    exact h.of_quiet (unwritten_of_want h hat hwant) (h.apart (hat ▸ rfl)) (quiet_refuse _)
  | proceed mask hat hwant hle => exact h.proceed hat hwant mask
  | write n hw => exact h.left hw n
  | written hw => exact h.wrote hw
  | @cancel at_ hat =>
    have hsending := h.apart (hat ▸ rfl)
    -- what goes with the stack is nothing
    have hbytes := h.bytes
    rw [hsound rfl] at hbytes
    refine ⟨nofun, h.fits, nofun, ?_⟩
    rw [unwritten_of_none rfl, hsending]
    exact hbytes

/-- **A step is sound exactly when the law of sending holds behind it.** -/
theorem sound_iff (h : Writes s) (hmoved : Moved from_slice s a t) : Sound s a ↔ Sent t := by
  constructor
  · intro hsound
    exact (h.step hsound hmoved).sent
  · rintro hsent rfl
    cases hmoved with
    | cancel hat =>
      have hsending := h.apart (hat ▸ rfl)
      obtain ⟨fs, hencode, hsaid⟩ := exists_frames h.fits
      -- the rest of the pong is gone, so what was written has to be all of it
      have hnone : ({ s with reading := none } : State V).unwritten = none := hsending
      rw [Sent, hnone, Option.getD_none, List.append_nil, ← hsaid] at hsent
      exact eq_nil_of_decode_all (h.bytes.trans hencode.symm) hsent

end Sending

/-! ## The law -/

section Law

variable {V : Type*} {from_slice : List UInt8 → Option V} {ms : List (List UInt8 × V)} {fs : List Frame}
  {tr : List (Trans (State V) Action)} {s : State V}

theorem writes_init (incoming : List UInt8) : Writes (init V incoming) :=
  ⟨nofun, fun _ hg => absurd hg List.not_mem_nil, nofun, rfl⟩

/-- **Reading loses nothing**, and sending loses nothing exactly as long as no call is cancelled
while its pong is not written. -/
theorem framing_law (hparse : ∀ m ∈ ms, from_slice m.1 = some m.2) (hcarries : Carries none (ms.map Prod.fst) fs)
    (hrun : Run (Rel (step from_slice)) (init V (encode_all fs)) tr s) :
    (∀ e ∈ tr, Read ms e.post) ∧ ((∀ e ∈ tr, Sound e.pre e.act) ↔ ∀ e ∈ tr, Sent e.post) := by
  constructor
  · have hinv := hrun.invariant_post (I := Inv ms) (C := fun _ _ => True) (inv_init hcarries)
      (fun s a t hs _ hr => hs.step hparse (moved_of_step hr)) fun _ _ => trivial
    exact fun e he => (hinv e he).read
  · refine hrun.forall_iff (B := Writes) (K := fun e => Sent e.post) (writes_init _) ?_ ?_
    · intro s a t hs hsound hr
      exact hs.step hsound (moved_of_step hr)
    · intro s a t hs hr
      exact sound_iff hs (moved_of_step hr)

end Law

/-! ### Two runs -/

/-- A reader of JSON that knows one text. -/
def twelve (text : List UInt8) : Option ℕ := if text = [0x31, 0x32] then some 12 else none

def no_mask : Vector UInt8 4 := Vector.replicate 4 0

def one : Frame := ⟨false, 1, some [1, 2, 3, 4], .short, [0x31], by decide, by decide, (by decide : 1 < 126)⟩

def ping : Frame := ⟨true, 9, none, .short, [0x21], by decide, by decide, (by decide : 1 < 126)⟩

def two : Frame := ⟨true, 0, some [5, 6, 7, 8], .medium, [0x32], by decide, by decide, (by decide : 1 < 65536)⟩

/-- A number in two masked fragments, the length of the second in its medium form, and a ping
between them. -/
def twelve_frames : List Frame := [one, ping, two]

theorem twelve_carried :
    Carries none ([([0x31, 0x32], 12)].map (Prod.fst : List UInt8 × ℕ → List UInt8)) twelve_frames := by
  have hlast : Carries (some [0x31]) [[0x31, 0x32]] [two] := .last two rfl rfl (.nil none)
  exact .fragment one rfl rfl (.control ping (.inl rfl) (by decide) hlast)

/-- A timeout in the middle of the first frame, and one in the middle of the last. -/
def twelve_run : List Action :=
  [.call, .read 3, .proceed no_mask, .cancel, .call, .proceed no_mask, .read 7, .proceed no_mask,
    .proceed no_mask, .proceed no_mask, .write 7, .written, .cancel, .call, .read 9,
    .proceed no_mask, .proceed no_mask, .proceed no_mask]

theorem twelve_runs : (exec (step twelve) (init ℕ (encode_all twelve_frames)) twelve_run).isSome = true := by decide

theorem framing_law_twelve :
    ∃ p, exec (step twelve) (init ℕ (encode_all twelve_frames)) twelve_run = some p ∧
      p.2.messages = [12] ∧ p.2.given.map Given.said = [(true, 10, [0x21])] ∧
      (∀ e ∈ p.1, Read [([0x31, 0x32], 12)] e.post) ∧ ∀ e ∈ p.1, Sent e.post := by
  have hparse : ∀ m ∈ [(([0x31, 0x32] : List UInt8), 12)], twelve m.1 = some m.2 := by decide
  have hlaw := framing_law hparse twelve_carried (exec_get twelve_runs)
  exact ⟨_, (Option.some_get twelve_runs).symm, by decide, by decide, hlaw.1, hlaw.2.mp (by decide)⟩

/-- A timeout while the pong finds the socket full, and then a request, when there is room again. -/
def full_run : List Action :=
  [.call, .read 3, .proceed no_mask, .proceed no_mask, .cancel, .send [0x7b, 0x7d] no_mask, .write 8, .written]

theorem full_runs : (exec (step twelve) (init ℕ (encode_all [ping])) full_run).isSome = true := by decide

/-- The pong is lost: the server reads the request, and never what it was given before. -/
theorem pong_lost :
    (¬∀ (from_slice : List UInt8 → Option ℕ) (ms : List (List UInt8 × ℕ)) (fs : List Frame)
        (tr : List (Trans (State ℕ) Action)) (s : State ℕ),
      (∀ m ∈ ms, from_slice m.1 = some m.2) → Carries none (ms.map Prod.fst) fs →
        Run (Rel (step from_slice)) (init ℕ (encode_all fs)) tr s →
          (∀ e ∈ tr, Read ms e.post) ∧ ∀ e ∈ tr, Sent e.post) ∧
    ∃ p, exec (step twelve) (init ℕ (encode_all [ping])) full_run = some p ∧ p.2.unwritten = none ∧
      p.2.given.map Given.said = [(true, 10, [0x21]), (true, 1, [0x7b, 0x7d])] ∧ p.2.buf = [] ∧
      decode_all 2 p.2.outgoing = some [(true, 1, [0x7b, 0x7d])] := by
  refine ⟨fun h => ?_, _, (Option.some_get full_runs).symm, by decide, by decide, by decide, by decide⟩
  have hcarries : Carries none (([] : List (List UInt8 × ℕ)).map Prod.fst) [ping] :=
    .control ping (.inl rfl) (by decide) (.nil none)
  have hlaw := h twelve [] [ping] _ _ (fun _ hm => absurd hm List.not_mem_nil) hcarries (exec_get full_runs)
  have hlost : ∃ e ∈ ((exec (step twelve) (init ℕ (encode_all [ping])) full_run).get full_runs).1,
      decode_all e.post.given.length (e.post.outgoing ++ e.post.unwritten.getD []) ≠
        some (e.post.given.map Given.said) := by decide
  obtain ⟨e, he, hne⟩ := hlost
  exact hne (hlaw.2 e he)

end CrewSync.AppServer
