/-
**Frames** of the WebSocket protocol as bytes.

A frame is a header, a key where it is masked, and its payload. The header has the length of
the payload in one of three forms. `encode` writes a frame, in whatever form its length fits,
masked or not, and `decode` reads the first frame of a stream: it reads back what was written,
and leaves what follows (`decode_encode`), which has no say in it (`decode_append`). So a stream
of whole frames is read as these frames (`decode_all_encode_all`), and one that breaks off is
not (`eq_nil_of_decode_all`).

Nothing here knows who is at either end.
-/
import Mathlib.Algebra.Ring.Nat
import Mathlib.Data.List.Basic

set_option autoImplicit false

namespace CrewSync.Websocket

/-! ## Numbers in network order -/

/-- `k` bytes, the most significant first. -/
def be : ℕ → ℕ → List UInt8
  | 0, _ => []
  | k + 1, n => be k (n / 256) ++ [UInt8.ofNat (n % 256)]

def of_be (bytes : List UInt8) : ℕ := bytes.foldl (fun n b => 256 * n + b.toNat) 0

theorem be_length (k n : ℕ) : (be k n).length = k := by
  induction k generalizing n with
  | zero => rfl
  | succ k ih => rw [be, List.length_append, ih, List.length_singleton]

variable {k : ℕ} {l e r l' : List UInt8}

theorem of_be_be {n : ℕ} (h : n < 256 ^ k) : of_be (be k n) = n := by
  induction k generalizing n with
  | zero =>
    rw [pow_zero, Nat.lt_one_iff] at h
    rw [h]
    rfl
  | succ k ih =>
    have hhigh : n / 256 < 256 ^ k := Nat.div_lt_of_lt_mul (by rwa [pow_succ, Nat.mul_comm] at h)
    have hstep : of_be (be (k + 1) n) = 256 * of_be (be k (n / 256)) + (UInt8.ofNat (n % 256)).toNat := by
      rw [be, of_be, List.foldl_append]
      rfl
    rw [hstep, ih hhigh, UInt8.toNat_ofNat']
    omega

/-! ## Masking -/

/-- The payload, with the key laid over it again and again. -/
def xor_key (key payload : List UInt8) : List UInt8 := payload.mapIdx fun i b => b ^^^ key.getD (i % 4) 0

theorem xor_key_length (key payload : List UInt8) : (xor_key key payload).length = payload.length :=
  List.length_mapIdx

/-- Masking a second time takes the mask off. -/
theorem xor_key_xor_key (key payload : List UInt8) : xor_key key (xor_key key payload) = payload := by
  apply List.ext_getElem
  · rw [xor_key_length, xor_key_length]
  · intro i h₁ h₂
    simp only [xor_key, List.getElem_mapIdx, UInt8.xor_assoc, UInt8.xor_self, UInt8.xor_zero]

/-! ## Frames -/

/-- How a length is written: in the header, or in two or eight bytes behind it. -/
inductive Form
  | short
  | medium
  | long
  deriving DecidableEq

def Form.Fits : Form → ℕ → Prop
  | .short, n => n < 126
  | .medium, n => n < 65536
  | .long, n => n < 18446744073709551616

/-- What the header has in the place of the length. -/
def Form.code : Form → ℕ → ℕ
  | .short, n => n
  | .medium, _ => 126
  | .long, _ => 127

/-- What stands behind the header. -/
def Form.more : Form → ℕ → List UInt8
  | .short, _ => []
  | .medium, n => be 2 n
  | .long, n => be 8 n

/-- A frame, and how it is written. -/
structure Frame where
  fin : Bool
  opcode : ℕ
  key : Option (List UInt8)
  form : Form
  payload : List UInt8
  opcode_lt : opcode < 16
  key_length : ∀ k ∈ key, k.length = 4
  fits : form.Fits payload.length

namespace Frame

def head (f : Frame) : UInt8 := UInt8.ofNat ((if f.fin then 128 else 0) + f.opcode)

def second (f : Frame) : UInt8 :=
  UInt8.ofNat ((if f.key.isSome then 128 else 0) + f.form.code f.payload.length)

/-- The payload as it travels. -/
def body (f : Frame) : List UInt8 :=
  match f.key with
  | none => f.payload
  | some key => xor_key key f.payload

/-- Where the key stands, or else the payload. -/
def offset (f : Frame) : ℕ := 2 + (f.form.more f.payload.length).length

def mask_length (f : Frame) : ℕ := if f.key.isSome then 4 else 0

def encode (f : Frame) : List UInt8 :=
  f.head :: f.second :: (f.form.more f.payload.length ++ (f.key.getD [] ++ f.body))

end Frame

def encode_all (fs : List Frame) : List UInt8 := fs.flatMap Frame.encode

/-- What a frame says: whether it is the last of its message, its opcode and its payload. -/
abbrev Said := Bool × ℕ × List UInt8

def Frame.said (f : Frame) : Said := (f.fin, f.opcode, f.payload)

/-! ## Reading the header -/

namespace Frame

variable (f : Frame)

theorem code_lt : f.form.code f.payload.length < 128 := by
  have := f.fits
  cases hf : f.form with
  | short => rw [hf] at this; exact Nat.lt_trans this (by decide)
  | medium => exact (by decide : 126 < 128)
  | long => exact (by decide : 127 < 128)

theorem body_length : f.body.length = f.payload.length := by
  unfold body
  cases f.key with
  | none => rfl
  | some key => exact xor_key_length key f.payload

theorem key_getD_length : (f.key.getD []).length = f.mask_length := by
  unfold mask_length
  cases hk : f.key with
  | none => rfl
  | some key => exact f.key_length key hk

theorem encode_length : f.encode.length = f.offset + f.mask_length + f.payload.length := by
  simp only [encode, offset, List.length_cons, List.length_append, key_getD_length, body_length]
  omega

/-! ### The bits of the header -/

theorem head_fin : (f.head &&& 0x80 != 0) = f.fin := by
  have hbit : ∀ fin : Bool, ∀ n < 16, (UInt8.ofNat ((if fin then 128 else 0) + n) &&& 0x80 != 0) = fin := by decide
  exact hbit f.fin f.opcode f.opcode_lt

theorem head_opcode : (f.head &&& 0x0f).toNat = f.opcode := by
  have hbits : ∀ fin : Bool, ∀ n < 16, (UInt8.ofNat ((if fin then 128 else 0) + n) &&& 0x0f).toNat = n := by decide
  exact hbits f.fin f.opcode f.opcode_lt

theorem second_masked : (f.second &&& 0x80 != 0) = f.key.isSome := by
  have hbit : ∀ m : Bool, ∀ n < 128, (UInt8.ofNat ((if m then 128 else 0) + n) &&& 0x80 != 0) = m := by decide
  exact hbit f.key.isSome _ f.code_lt

theorem second_code : (f.second &&& 0x7f).toNat = f.form.code f.payload.length := by
  have hbits : ∀ m : Bool, ∀ n < 128, (UInt8.ofNat ((if m then 128 else 0) + n) &&& 0x7f).toNat = n := by decide
  exact hbits f.key.isSome _ f.code_lt

/-- The key takes the mask off again. -/
theorem unmask_body : (if f.key.isSome then xor_key (f.key.getD []) f.body else f.body) = f.payload := by
  unfold body
  cases f.key with
  | none => rfl
  | some key => exact xor_key_xor_key key f.payload

end Frame

/-! ## Reading frames -/

/-- The first `k` bytes of a stream, if there are so many, and what follows them. -/
def split_off (k : ℕ) (bytes : List UInt8) : Option (List UInt8 × List UInt8) :=
  if k ≤ bytes.length then some (bytes.take k, bytes.drop k) else none

/-- How many bytes stand behind the header for the length. -/
def more_length (code : ℕ) : ℕ := if code = 126 then 2 else if code = 127 then 8 else 0

/-- The first frame of a stream, if it is whole, and what follows it. -/
def decode : List UInt8 → Option (Said × List UInt8)
  | b₀ :: b₁ :: rest =>
    let masked := b₁ &&& 0x80 != 0
    let code := (b₁ &&& 0x7f).toNat
    (split_off (more_length code) rest).bind fun (more, rest) =>
    (split_off (if masked then 4 else 0) rest).bind fun (key, rest) =>
    (split_off (if code < 126 then code else of_be more) rest).map fun (body, rest) =>
      ((b₀ &&& 0x80 != 0, (b₀ &&& 0x0f).toNat, if masked then xor_key key body else body), rest)
  | _ => none

/-- All the frames of a stream, as long as there is fuel. -/
def decode_all : ℕ → List UInt8 → Option (List Said)
  | _, [] => some []
  | 0, _ => none
  | fuel + 1, bytes => (decode bytes).bind fun p => (decode_all fuel p.2).map (p.1 :: ·)

/-- Where as much of a stream is there as a piece of it is long, the piece is there. -/
theorem split_of_le {inc : List UInt8} (h : l ++ inc = e ++ r) (hle : e.length ≤ l.length) :
    ∃ l', l = e ++ l' ∧ l' ++ inc = r := by
  have hpre : e <+: l := List.prefix_of_prefix_length_le (h ▸ List.prefix_append e r) (List.prefix_append l inc) hle
  obtain ⟨l', rfl⟩ := hpre
  rw [List.append_assoc] at h
  exact ⟨l', rfl, List.append_cancel_left h⟩

theorem split_off_append (r : List UInt8) (h : e.length = k) :
    split_off k (e ++ r) = some (e, r) := by
  unfold split_off
  rw [if_pos (by rw [List.length_append]; omega), List.take_left' h, List.drop_left' h]

/-- What follows does not change what is split off. -/
theorem split_off_some (r : List UInt8) (h : split_off k l = some (e, l')) :
    split_off k (l ++ r) = some (e, l' ++ r) := by
  obtain ⟨hle, h⟩ := Option.ite_none_right_eq_some.mp h
  cases h
  have hsplit : l ++ r = l.take k ++ (l.drop k ++ r) := by rw [← List.append_assoc, List.take_append_drop]
  rw [hsplit]
  exact split_off_append _ (List.length_take_of_le hle)

variable (f : Frame) (rest : List UInt8)

theorem more_length_eq : more_length (f.form.code f.payload.length) = (f.form.more f.payload.length).length := by
  have hfits := f.fits
  cases hf : f.form with
  | short =>
    rw [hf] at hfits
    have hlt : f.payload.length < 126 := hfits
    have hcode : Form.short.code f.payload.length = f.payload.length := rfl
    rw [hcode, more_length, if_neg (by omega), if_neg (by omega)]
    rfl
  | medium => exact (be_length 2 _).symm
  | long => exact (be_length 8 _).symm

theorem length_eq : (if f.form.code f.payload.length < 126 then f.form.code f.payload.length
    else of_be (f.form.more f.payload.length)) = f.payload.length := by
  have hfits := f.fits
  cases hf : f.form with
  | short =>
    rw [hf] at hfits
    exact if_pos hfits
  | medium | long =>
    rw [hf] at hfits
    exact of_be_be hfits

/-- **A frame is read as what was written.** -/
theorem decode_encode : decode (f.encode ++ rest) = some (f.said, rest) := by
  have hmore := split_off_append (f.key.getD [] ++ (f.body ++ rest)) (more_length_eq f).symm
  have hkey := split_off_append (f.body ++ rest) f.key_getD_length
  have hbody := split_off_append rest f.body_length
  have hunmask := f.unmask_body
  rw [Frame.mask_length] at hkey
  -- the length, the key and the payload are split off one after the other
  rw [Frame.encode, List.cons_append, List.cons_append, List.append_assoc, List.append_assoc]
  simp only [decode, f.second_code, f.second_masked, f.head_fin, f.head_opcode, hmore, Option.bind_some, hkey,
    length_eq, hbody, Option.map_some, hunmask]
  rfl

/-- **What follows a frame does not change how it is read.** -/
theorem decode_append {said : Said} (h : decode l = some (said, l')) :
    decode (l ++ rest) = some (said, l' ++ rest) := by
  match l, h with
  | b₀ :: b₁ :: l, h =>
    obtain ⟨⟨more, l₁⟩, hmore, h⟩ := Option.bind_eq_some_iff.mp h
    obtain ⟨⟨key, l₂⟩, hkey, h⟩ := Option.bind_eq_some_iff.mp h
    obtain ⟨⟨body, l₃⟩, hbody, h⟩ := Option.map_eq_some_iff.mp h
    cases h
    simp only [List.cons_append, decode, split_off_some rest hmore, split_off_some rest hkey,
      split_off_some rest hbody, Option.bind_some, Option.map_some]

theorem encode_all_cons (f : Frame) (fs : List Frame) : encode_all (f :: fs) = f.encode ++ encode_all fs :=
  List.flatMap_cons

theorem decode_all_nil (fuel : ℕ) : decode_all fuel [] = some [] := by cases fuel <;> rfl

/-- **A stream of whole frames is read as these frames.** -/
theorem decode_all_encode_all (fs : List Frame) {fuel : ℕ} (h : fs.length ≤ fuel) :
    decode_all fuel (encode_all fs) = some (fs.map Frame.said) := by
  induction fs generalizing fuel with
  | nil => exact decode_all_nil fuel
  | cons f fs ih =>
    obtain ⟨fuel, rfl⟩ : ∃ n, fuel = n + 1 := ⟨fuel - 1, by simp only [List.length_cons] at h; omega⟩
    have hread : decode_all (fuel + 1) (f.encode ++ encode_all fs) =
        (decode (f.encode ++ encode_all fs)).bind fun p => (decode_all fuel p.2).map (p.1 :: ·) := rfl
    rw [encode_all_cons, hread, decode_encode, Option.bind_some, ih (Nat.le_of_succ_le_succ h)]
    rfl

/-- **A stream that lacks something at its end is not.** -/
theorem eq_nil_of_decode_all {fs : List Frame} {fuel : ℕ} (h : l ++ r = encode_all fs)
    (hread : decode_all fuel l = some (fs.map Frame.said)) : r = [] := by
  induction fs generalizing l fuel with
  | nil => exact (List.append_eq_nil_iff.mp h).2
  | cons f fs ih =>
    match l, fuel, hread with
    | [], _, hread =>
      rw [decode_all_nil] at hread
      cases hread
    | b :: l, fuel + 1, hread =>
      obtain ⟨⟨said, l'⟩, hdecode, hread⟩ := Option.bind_eq_some_iff.mp hread
      obtain ⟨saids, hrest, hcons⟩ := Option.map_eq_some_iff.mp hread
      cases hcons
      -- the whole stream begins with `f`, so what was read is `f`, and `r` is missing behind it
      have hwhole := decode_append r hdecode
      rw [h, encode_all_cons, decode_encode] at hwhole
      have hr : encode_all fs = l' ++ r := (Prod.mk.inj (Option.some.inj hwhole)).2
      exact ih hr.symm hrest

/-! ## Messages -/

/-- The largest payload of a control frame. -/
def CONTROL : ℕ := 125

/-- The frames carry these messages, behind the fragments of one that has begun. A text message
is one frame or several, the first with the opcode 1 and the others with 0; pings and pongs
stand between any two. The last message may be unfinished. -/
inductive Carries : Option (List UInt8) → List (List UInt8) → List Frame → Prop
  | nil (begun : Option (List UInt8)) : Carries begun [] []
  | control {begun : Option (List UInt8)} {ms : List (List UInt8)} {fs : List Frame} (f : Frame)
      (hop : f.opcode = 9 ∨ f.opcode = 10) (hlen : f.payload.length ≤ CONTROL) (h : Carries begun ms fs) :
      Carries begun ms (f :: fs)
  | fragment {begun : Option (List UInt8)} {ms : List (List UInt8)} {fs : List Frame} (f : Frame)
      (hop : f.opcode = if begun.isSome then 0 else 1) (hfin : f.fin = false)
      (h : Carries (some (begun.getD [] ++ f.payload)) ms fs) : Carries begun ms (f :: fs)
  | last {begun : Option (List UInt8)} {ms : List (List UInt8)} {fs : List Frame} (f : Frame)
      (hop : f.opcode = if begun.isSome then 0 else 1) (hfin : f.fin = true) (h : Carries none ms fs) :
      Carries begun ((begun.getD [] ++ f.payload) :: ms) (f :: fs)

/-- What has begun is the beginning of the next message, if that is ever finished. -/
theorem Carries.begun_prefix {begun : List UInt8} {ms : List (List UInt8)} {fs : List Frame}
    (h : Carries (some begun) ms fs) : ∀ m ∈ ms.head?, begun <+: m := by
  generalize hb : some begun = o at h
  induction h generalizing begun with
  | nil => exact nofun
  | control f _ _ _ ih => exact ih hb
  | fragment f _ _ _ ih =>
    subst hb
    intro m hm
    exact (List.prefix_append begun f.payload).trans (ih rfl m hm)
  | last f _ _ _ _ =>
    subst hb
    intro m hm
    cases Option.some.inj hm
    exact List.prefix_append begun f.payload

variable {begun : Option (List UInt8)} {ms : List (List UInt8)} {f : Frame} {fs : List Frame}

/-- Without frames, no message is finished. -/
theorem Carries.eq_nil (h : Carries begun ms []) : ms = [] := by
  cases h
  rfl

/-- A long frame is not a control frame. -/
theorem Carries.text_of_large (h : Carries begun ms (f :: fs)) (hlen : CONTROL < f.payload.length) :
    f.opcode = 0 ∨ f.opcode = 1 := by
  cases h with
  | control _ _ hle _ => omega
  | fragment _ hop _ _ | last _ hop _ _ =>
    rw [hop]
    split <;> simp

/-- With the next text frame added, it still is. -/
theorem Carries.text_prefix (h : Carries begun ms (f :: fs)) (hop : f.opcode = 0 ∨ f.opcode = 1) :
    ∀ m ∈ ms.head?, begun.getD [] ++ f.payload <+: m := by
  cases h with
  | control _ hcontrol _ _ => omega
  | fragment _ _ _ h => exact h.begun_prefix
  | last _ _ _ _ =>
    intro m hm
    cases Option.some.inj hm
    exact List.prefix_rfl

end CrewSync.Websocket
