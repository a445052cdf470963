/-
Short-lived grants for the dashboard: `dashboard/grant.rs`.

A grant is `team.expiry.tag`, and the tag is over the text in front of it. The text is split
from the right, twice, and every part is read by a parser that takes more than one spelling;
what makes a grant unforgeable all the same is that the tag covers the very bytes the team and
the expiry are read from (`verify_payload`).

The construction is RFC 2104 over SHA-256, for a key of any length (`hmac_sha256_eq`). What is
said of forged grants takes the tag for an ideal one: it tells the secret and the message it is
of, and nobody makes one but `issue`. SHA-256, `hex::decode` and `Uuid::parse_str` are
parameters; of the last two it is used that they read back what `hex::encode` and `Display`
write.
-/
import CrewSync.Auth
import CrewSync.Runs
import CrewSync.Trims
import CrewSync.Utf8
import CrewSync.Uuids

set_option autoImplicit false

namespace CrewSync.DashboardGrant

open Auth (parse_i64 parse_digits I64_MAX)
open Trims (rsplit_once rsplit_once_append)
open Utf8 (as_bytes as_bytes_inj)
open Uuids

/-! ## HMAC -/

/-- `BLOCK`. -/
def BLOCK : ℕ := 64

/-- What SHA-256 makes of a message. -/
abbrev Digest := Vector UInt8 32

section Hmac

variable (sha256 : List UInt8 → Digest)

/-- `block[..src.len()].copy_from_slice(src)`. -/
def copy_from_slice (block src : List UInt8) : List UInt8 := src ++ block.drop src.length

/-- The loop over the block: both pads, byte by byte. -/
def xor_pads (block : List UInt8) : List UInt8 × List UInt8 → List ℕ → List UInt8 × List UInt8 :=
  List.foldl fun pads i =>
    (pads.1.modify i (· ^^^ block.getD i 0), pads.2.modify i (· ^^^ block.getD i 0))

/-- `hmac_sha256`. A hasher is what it has been given so far. -/
def hmac_sha256 (key message : List UInt8) : Digest :=
  let block := List.replicate BLOCK 0
  let block :=
    if BLOCK < key.length then copy_from_slice block (sha256 key).toList else copy_from_slice block key
  let pads := xor_pads block (List.replicate BLOCK 0x36, List.replicate BLOCK 0x5c) (List.range BLOCK)
  let inner := sha256 (pads.1 ++ message)
  sha256 (pads.2 ++ inner.toList)

/-- RFC 2104: `H(K XOR opad, H(K XOR ipad, text))`. A key longer than a block is hashed first,
and a shorter one is filled up with zeros. -/
def rfc2104 (key text : List UInt8) : Digest :=
  let key := if BLOCK < key.length then (sha256 key).toList else key
  let key := key ++ List.replicate (BLOCK - key.length) 0
  let xor (pad : UInt8) := key.map fun b => b ^^^ pad
  sha256 (xor 0x5c ++ (sha256 (xor 0x36 ++ text)).toList)

end Hmac

/-- `eq_ct`. -/
def eq_ct (a b : List UInt8) : Bool :=
  if a.length ≠ b.length then false
  else (a.zip b).foldl (fun acc p => acc ||| (p.1 ^^^ p.2)) 0 == 0

/-! ### The pads -/

/-- One pad of the loop. -/
def xor_pad (block pad : List UInt8) (indices : List ℕ) : List UInt8 :=
  indices.foldl (fun p i => p.modify i (· ^^^ block.getD i 0)) pad

theorem xor_pads_eq (block : List UInt8) (pads : List UInt8 × List UInt8) (indices : List ℕ) :
    xor_pads block pads indices = (xor_pad block pads.1 indices, xor_pad block pads.2 indices) := by
  induction indices generalizing pads with
  | nil => rfl
  | cons i indices ih =>
    have hstep : xor_pads block pads (i :: indices) =
        xor_pads block (pads.1.modify i (· ^^^ block.getD i 0), pads.2.modify i (· ^^^ block.getD i 0)) indices := rfl
    rw [hstep, ih]
    rfl

/-- The loop treats each of the first bytes once. -/
theorem xor_pad_getElem? (block pad : List UInt8) (n i : ℕ) : (xor_pad block pad (List.range n))[i]? =
      if i < n then pad[i]?.map (· ^^^ block.getD i 0) else pad[i]? := by
  induction n with
  | zero => rfl
  | succ n ih =>
    have hlast : xor_pad block pad (List.range (n + 1)) =
        (xor_pad block pad (List.range n)).modify n (· ^^^ block.getD n 0) := by
      rw [xor_pad, List.range_succ, List.foldl_append]
      rfl
    rw [hlast, List.getElem?_modify, ih]
    by_cases hi : n = i
    · subst hi
      simp
    · by_cases hlt : i < n
      · simp [hi, hlt, Nat.lt_succ_of_lt hlt]
      · have hge : ¬i < n + 1 := by omega
        simp [hi, hlt, hge]

/-- A whole pad is the block, XORed with the pad's byte. -/
theorem xor_pad_block {block : List UInt8} (h : block.length = BLOCK) (pad : UInt8) :
    xor_pad block (List.replicate BLOCK pad) (List.range BLOCK) = block.map fun b => b ^^^ pad := by
  apply List.ext_getElem?
  intro i
  rw [xor_pad_getElem?, List.getElem?_map]
  by_cases hi : i < BLOCK
  · rw [if_pos hi, List.getElem?_replicate, if_pos hi, List.getElem?_eq_getElem (by omega), Option.map_some,
      Option.map_some, List.getD_eq_getElem?_getD, List.getElem?_eq_getElem (by omega), Option.getD_some, UInt8.xor_comm]
  · rw [if_neg hi, List.getElem?_replicate, if_neg hi, List.getElem?_eq_none (by omega), Option.map_none]

/-- The block the key is copied into: the key, filled up. -/
theorem copy_from_slice_zeros (src : List UInt8) :
    copy_from_slice (List.replicate BLOCK 0) src = src ++ List.replicate (BLOCK - src.length) 0 := by
  rw [copy_from_slice, List.drop_replicate]

/-- **`hmac_sha256` is RFC 2104's construction**, for every key and message. -/
theorem hmac_sha256_eq (sha256 : List UInt8 → Digest) (key message : List UInt8) :
    hmac_sha256 sha256 key message = rfc2104 sha256 key message := by
  have hblock : ∀ k : List UInt8, k.length ≤ BLOCK → (k ++ List.replicate (BLOCK - k.length) (0 : UInt8)).length = BLOCK := by
    intro k hk
    rw [List.length_append, List.length_replicate]
    omega
  unfold hmac_sha256 rfc2104
  by_cases hkey : BLOCK < key.length
  · simp only [if_pos hkey, copy_from_slice_zeros, xor_pads_eq]
    rw [xor_pad_block (hblock _ (by simp [BLOCK])), xor_pad_block (hblock _ (by simp [BLOCK]))]
  · simp only [if_neg hkey, copy_from_slice_zeros, xor_pads_eq]
    rw [xor_pad_block (hblock _ (by omega)), xor_pad_block (hblock _ (by omega))]

/-! ### The comparison -/

/-- What the loop has or-ed together is zero only if every part of it is. -/
theorem foldl_or_eq_zero_iff (l : List (UInt8 × UInt8)) (acc : UInt8) :
    l.foldl (fun acc p => acc ||| (p.1 ^^^ p.2)) acc = 0 ↔ acc = 0 ∧ ∀ p ∈ l, p.1 = p.2 := by
  induction l generalizing acc with
  | nil => simp
  | cons p l ih =>
    rw [List.foldl_cons, ih, List.forall_mem_cons, UInt8.or_eq_zero_iff, UInt8.xor_eq_zero_iff, and_assoc]

theorem zip_eq_iff {a b : List UInt8} (h : a.length = b.length) : (∀ p ∈ a.zip b, p.1 = p.2) ↔ a = b := by
  induction a generalizing b with
  | nil => exact ⟨fun _ => (List.length_eq_zero_iff.mp h.symm).symm, fun _ => nofun⟩
  | cons x a ih =>
    cases b with
    | nil => cases h
    | cons y b =>
      rw [List.zip_cons_cons, List.forall_mem_cons, ih (Nat.succ_inj.mp h), List.cons.injEq]

/-- **The comparison is equality.** -/
theorem eq_ct_iff (a b : List UInt8) : eq_ct a b = true ↔ a = b := by
  unfold eq_ct
  by_cases hlen : a.length = b.length
  · rw [if_neg (fun h => h hlen), beq_iff_eq, foldl_or_eq_zero_iff, zip_eq_iff hlen]
    exact ⟨fun h => h.2, fun h => ⟨rfl, h⟩⟩
  · rw [if_pos hlen]
    exact ⟨nofun, fun h => absurd (congrArg List.length h) hlen⟩

/-! ## Grants -/

/-- An `i64`, as it is written. -/
def i64_text (n : ℤ) : List Char := (toString n).toList

/-- The sum does not overflow. -/
def I64 (n : ℤ) : Prop := -(I64_MAX + 1 : ℤ) ≤ n ∧ n ≤ I64_MAX

/-- What the tag is over. -/
def payload_of (team_id : Uuid) (expiry : ℤ) : List Char := team_id.display ++ '.' :: i64_text expiry

section Grants

variable (tag : List UInt8 → List UInt8 → List UInt8)

/-- `issue`. -/
def issue (secret : List UInt8) (team_id : Uuid) (now_unix ttl_secs : ℤ) : List Char :=
  let payload := payload_of team_id (now_unix + ttl_secs)
  payload ++ '.' :: hex_bytes (tag secret (as_bytes payload))

variable (decode : List Char → Option (List UInt8)) (parse_str : List Char → Option Uuid)

/-- `verify`. -/
def verify (secret : List UInt8) (grant : List Char) (now_unix : ℤ) : Option Uuid :=
  (rsplit_once '.' grant).bind fun (payload, tag_hex) =>
    (rsplit_once '.' payload).bind fun (team, expiry) =>
      (decode tag_hex).bind fun presented =>
        if !eq_ct (tag secret (as_bytes payload)) presented then none
        else
          (parse_i64 (String.ofList expiry)).bind fun expiry =>
            if expiry ≤ now_unix then none else parse_str team

/-- `hex::decode` and `Uuid::parse_str` read what `hex::encode` and `Display` write. -/
structure Reads : Prop where
  bytes : ∀ l, decode (hex_bytes l) = some l
  uuid : ∀ u : Uuid, parse_str u.display = some u

end Grants

/-! ### Numbers -/

theorem parse_digits_eq (l : List Char) (h : ∀ c ∈ l, c.isDigit = true) (acc : ℕ) :
    parse_digits l acc = some (Nat.ofDigitChars 10 l acc) := by
  induction l generalizing acc with
  | nil => rfl
  | cons c l ih =>
    rw [parse_digits, if_pos (h c List.mem_cons_self), ih fun c hc => h c (List.mem_cons_of_mem _ hc),
      Nat.ofDigitChars_cons, Nat.mul_comm]
    rfl

theorem parse_digits_toDigits (n : ℕ) : parse_digits (Nat.toDigits 10 n) 0 = some n := by
  rw [parse_digits_eq _ fun c hc => Nat.isDigit_of_mem_toDigits (by decide) (by decide) hc,
    Nat.ofDigitChars_ten_toDigits]

theorem i64_text_ofNat (n : ℕ) : i64_text n = Nat.toDigits 10 n := Nat.toList_repr

theorem i64_text_negSucc (n : ℕ) : i64_text (Int.negSucc n) = '-' :: Nat.toDigits 10 (n + 1) := by
  have htext : toString (Int.negSucc n) = "-" ++ Nat.repr (n + 1) := rfl
  rw [i64_text, htext, String.toList_append, Nat.toList_repr]
  rfl

theorem parse_i64_toDigits (n : ℕ) :
    parse_i64 (String.ofList (Nat.toDigits 10 n)) = if n ≤ I64_MAX then some (n : ℤ) else none := by
  have hall : ∀ c ∈ Nat.toDigits 10 n, c.isDigit = true :=
    fun c hc => Nat.isDigit_of_mem_toDigits (by decide) (by decide) hc
  have hparse := parse_digits_toDigits n
  unfold parse_i64
  rw [String.toList_ofList]
  split
  · rename_i hsign
    exact absurd (hall '-' (by rw [hsign]; exact List.mem_cons_self)) (by decide)
  · rename_i hsign
    exact absurd (hall '+' (by rw [hsign]; exact List.mem_cons_self)) (by decide)
  · rename_i hdigits
    rw [← hdigits, hparse]
    rfl
  · rename_i hnone
    exact absurd hnone Nat.toDigits_ne_nil

theorem parse_i64_minus (n : ℕ) :
    parse_i64 (String.ofList ('-' :: Nat.toDigits 10 n)) = if n ≤ I64_MAX + 1 then some (-(n : ℤ)) else none := by
  obtain ⟨c, cs, hdigits⟩ : ∃ c cs, Nat.toDigits 10 n = c :: cs := List.exists_cons_of_ne_nil Nat.toDigits_ne_nil
  have hparse := parse_digits_toDigits n
  rw [hdigits] at hparse ⊢
  unfold parse_i64
  rw [String.toList_ofList]
  simp only [hparse, Option.bind_some]

/-- A number is read as itself. -/
theorem parse_i64_text {n : ℤ} (h : I64 n) : parse_i64 (String.ofList (i64_text n)) = some n := by
  obtain ⟨hlow, hhigh⟩ := h
  cases n with
  | ofNat m =>
    have hm : m ≤ I64_MAX := Int.ofNat_le.mp hhigh
    have htext := i64_text_ofNat m
    rw [Int.ofNat_eq_natCast, htext, parse_i64_toDigits, if_pos hm]
  | negSucc m =>
    have hm : m + 1 ≤ I64_MAX + 1 := by omega
    rw [i64_text_negSucc, parse_i64_minus, if_pos hm]
    rfl

/-- No number has a separator in it. -/
theorem dot_not_mem_i64_text (n : ℤ) : '.' ∉ i64_text n := by
  have hdigits : ∀ m : ℕ, '.' ∉ Nat.toDigits 10 m := by
    intro m h
    exact absurd (Nat.isDigit_of_mem_toDigits (by decide) (by decide) h) (by decide)
  cases n with
  | ofNat m => exact fun h => hdigits m (i64_text_ofNat m ▸ h)
  | negSucc m =>
    rw [i64_text_negSucc]
    intro h
    rcases List.mem_cons.mp h with h | h
    · cases h
    · exact hdigits _ h

/-! ### What is issued and what is accepted -/

section Grants

variable {tag : List UInt8 → List UInt8 → List UInt8} {decode : List Char → Option (List UInt8)}
  {parse_str : List Char → Option Uuid} {secret : List UInt8} {team : Uuid} {now ttl t : ℤ} {grant : List Char}

theorem dot_not_mem_hex_bytes (l : List UInt8) : '.' ∉ hex_bytes l := not_mem_hex_bytes (by decide) l

theorem rsplit_issue (secret : List UInt8) (team : Uuid) (now ttl : ℤ) :
    rsplit_once '.' (issue tag secret team now ttl) =
      some (payload_of team (now + ttl), hex_bytes (tag secret (as_bytes (payload_of team (now + ttl))))) :=
  rsplit_once_append _ (dot_not_mem_hex_bytes _)

theorem rsplit_payload (team : Uuid) (expiry : ℤ) :
    rsplit_once '.' (payload_of team expiry) = some (team.display, i64_text expiry) :=
  rsplit_once_append _ (dot_not_mem_i64_text expiry)

/-- What a grant is accepted for. -/
theorem verify_eq_some (h : verify tag decode parse_str secret grant t = some team) :
    ∃ payload tag_hex text expiry, rsplit_once '.' grant = some (payload, tag_hex) ∧
      decode tag_hex = some (tag secret (as_bytes payload)) ∧
      rsplit_once '.' payload = some (text, expiry) ∧ parse_str text = some team := by
  unfold verify at h
  obtain ⟨⟨payload, tag_hex⟩, hgrant, h⟩ := Option.bind_eq_some_iff.mp h
  obtain ⟨⟨text, expiry⟩, hpayload, h⟩ := Option.bind_eq_some_iff.mp h
  obtain ⟨presented, hdecode, h⟩ := Option.bind_eq_some_iff.mp h
  obtain ⟨htag, h⟩ := Option.ite_none_left_eq_some.mp h
  obtain ⟨n, -, h⟩ := Option.bind_eq_some_iff.mp h
  obtain ⟨-, hteam⟩ := Option.ite_none_left_eq_some.mp h
  rw [Bool.not_eq_true, Bool.not_eq_false', eq_ct_iff] at htag
  exact ⟨payload, tag_hex, text, expiry, hgrant, by rw [hdecode, htag], hpayload, hteam⟩

/-- **A grant is good until it expires.** -/
theorem verify_issue (hr : Reads decode parse_str) (tag : List UInt8 → List UInt8 → List UInt8)
    (secret : List UInt8) (team : Uuid) (hexpiry : I64 (now + ttl)) (t : ℤ) :
    verify tag decode parse_str secret (issue tag secret team now ttl) t = some team ↔ t < now + ttl := by
  unfold verify
  rw [rsplit_issue, Option.bind_some]
  dsimp only
  rw [rsplit_payload, Option.bind_some]
  dsimp only
  rw [hr.bytes, Option.bind_some, (eq_ct_iff _ _).mpr rfl, parse_i64_text hexpiry]
  simp only [Bool.not_true, Bool.false_eq_true, if_false, Option.bind_some]
  by_cases ht : now + ttl ≤ t
  · rw [if_pos ht]
    exact ⟨nofun, fun h => absurd h (Int.not_lt.mpr ht)⟩
  · rw [if_neg ht]
    exact ⟨fun _ => Int.not_le.mp ht, fun _ => hr.uuid team⟩

end Grants

/-! ## Forged grants -/

/-- A tag tells the message it is of, and the `block` of the secret. The block is the whole
secret (`id`), or what the construction itself makes of it: RFC 2104 fills a short key up with
zeros, so that two keys of one block have the same tags. -/
def Ideal {β : Type} (block : List UInt8 → β) (tag : List UInt8 → List UInt8 → List UInt8) : Prop :=
  ∀ secret message secret' message', tag secret message = tag secret' message' →
    block secret = block secret' ∧ message = message'

/-- A call of `issue` that returns. -/
structure Issue where
  secret : List UInt8
  team_id : Uuid
  now_unix : ℤ
  ttl_secs : ℤ
  fits : I64 (now_unix + ttl_secs)

def Issue.payload (i : Issue) : List Char := payload_of i.team_id (i.now_unix + i.ttl_secs)

inductive Action
  | issue (i : Issue)
  | verify (secret : List UInt8) (grant : List Char) (now_unix : ℤ)

section Forged

open Runs

variable (tag : List UInt8 → List UInt8 → List UInt8) (decode : List Char → Option (List UInt8))

/-- Nobody makes a tag but `issue`: what a text presents as its tag is a tag that was handed
out, or none at all. -/
def Unforged (issued : List Issue) (grant : List Char) : Prop :=
  ∀ payload tag_hex bytes secret message, rsplit_once '.' grant = some (payload, tag_hex) →
    decode tag_hex = some bytes → bytes = tag secret message →
      ∃ i ∈ issued, bytes = tag i.secret (as_bytes i.payload)

/-- The grants that were issued, and what is presented. -/
inductive Step : List Issue → Action → List Issue → Prop
  | issue {issued : List Issue} (i : Issue) : Step issued (.issue i) (issued ++ [i])
  | verify {issued : List Issue} (secret : List UInt8) (grant : List Char) (now_unix : ℤ)
      (h : Unforged tag decode issued grant) : Step issued (.verify secret grant now_unix) issued

variable {tag decode} {parse_str : List Char → Option Uuid} {issued : List Issue} {secret : List UInt8}
  {grant : List Char} {t : ℤ} {team : Uuid} {tr : List (Trans (List Issue) Action)} {β : Type}
  {block : List UInt8 → β}

/-- A grant that was issued is not forged. -/
theorem Unforged.issue (hr : Reads decode parse_str) {i : Issue} (hi : i ∈ issued) :
    Unforged tag decode issued (issue tag i.secret i.team_id i.now_unix i.ttl_secs) := by
  intro payload tag_hex bytes secret message hsplit hdecode _
  rw [rsplit_issue] at hsplit
  cases hsplit
  rw [hr.bytes] at hdecode
  exact ⟨i, hi, (Option.some.inj hdecode).symm⟩

/-- **The tag covers what is parsed.** What is accepted says what was issued, with this secret. -/
theorem verify_payload (hr : Reads decode parse_str) (hideal : Ideal block tag)
    (hgrant : Unforged tag decode issued grant) (h : verify tag decode parse_str secret grant t = some team) :
    ∃ i ∈ issued, block i.secret = block secret ∧ (rsplit_once '.' grant).map Prod.fst = some i.payload ∧ i.team_id = team := by
  obtain ⟨payload, tag_hex, text, expiry, hsplit, hdecode, hpayload, hteam⟩ := verify_eq_some h
  obtain ⟨i, hi, htag⟩ := hgrant payload tag_hex _ secret _ hsplit hdecode rfl
  obtain ⟨hsecret, hbytes⟩ := hideal _ _ _ _ htag
  cases as_bytes_inj hbytes
  rw [Issue.payload, rsplit_payload] at hpayload
  cases hpayload
  rw [hr.uuid] at hteam
  refine ⟨i, hi, hsecret.symm, ?_, Option.some.inj hteam⟩
  rw [hsplit]
  rfl

/-- What has been issued was asked for. -/
theorem issued_of_run (h : Run (Step tag decode) [] tr issued) : ∀ i ∈ issued, ∃ x ∈ tr, x.act = .issue i := by
  induction h with
  | nil => exact fun i hi => absurd hi List.not_mem_nil
  | snoc _ hr ih =>
    intro i hi
    cases hr with
    | issue j =>
      rcases List.mem_append.mp hi with hi | hi
      · obtain ⟨x, hx, hact⟩ := ih i hi
        exact ⟨x, List.mem_append_left _ hx, hact⟩
      · rw [List.mem_singleton.mp hi]
        exact ⟨_, List.mem_append_right _ List.mem_cons_self, rfl⟩
    | verify =>
      obtain ⟨x, hx, hact⟩ := ih i hi
      exact ⟨x, List.mem_append_left _ hx, hact⟩

/-- **Grants.** With any tag, a grant is accepted for its team before its expiry and not from
then on. With an ideal one, whatever is accepted in any run says what was issued before, with the
same secret as far as a tag tells it, and is accepted for that team. And the tag of the code is HMAC. -/
theorem grants_hold (hr : Reads decode parse_str) (hideal : Ideal block tag) :
    (∀ (tag : List UInt8 → List UInt8 → List UInt8) (secret : List UInt8) (team : Uuid) (now ttl t : ℤ), I64 (now + ttl) →
      (verify tag decode parse_str secret (issue tag secret team now ttl) t = some team ↔ t < now + ttl)) ∧
    (∀ (tr : List (Trans (List Issue) Action)) (issued : List Issue), Run (Step tag decode) [] tr issued →
      ∀ e ∈ tr, ∀ secret grant t team, e.act = .verify secret grant t →
        verify tag decode parse_str secret grant t = some team →
          ∃ tr₁ tr₂ i, tr = tr₁ ++ e :: tr₂ ∧ (∃ x ∈ tr₁, x.act = .issue i) ∧ block i.secret = block secret ∧
            (rsplit_once '.' grant).map Prod.fst = some i.payload ∧ i.team_id = team) ∧
    ∀ (sha256 : List UInt8 → Digest) (key message : List UInt8),
      hmac_sha256 sha256 key message = rfc2104 sha256 key message := by
  refine ⟨?_, ?_, hmac_sha256_eq⟩
  · intro tag secret team now ttl t hexpiry
    exact verify_issue hr tag secret team hexpiry t
  · intro tr issued hrun e he secret grant t team hact haccepted
    obtain ⟨tr₁, tr₂, rfl⟩ := List.append_of_mem he
    obtain ⟨hpre, hstep, -⟩ := hrun.split
    rw [hact] at hstep
    generalize e.post = post at hstep
    cases hstep with
    | verify _ _ _ hgrant =>
      obtain ⟨i, hi, hsecret, hpayload, hteam⟩ := verify_payload hr hideal hgrant haccepted
      exact ⟨tr₁, tr₂, i, rfl, issued_of_run hpre i hi, hsecret, hpayload, hteam⟩

end Forged

/-! ## Readers and a tag to check with -/

/-- The value of a digit of either case. -/
def digit_value (c : Char) : Option ℕ :=
  if 48 ≤ c.toNat ∧ c.toNat ≤ 57 then some (c.toNat - 48)
  else if 65 ≤ c.toNat ∧ c.toNat ≤ 70 then some (c.toNat - 55)
  else if 97 ≤ c.toNat ∧ c.toNat ≤ 102 then some (c.toNat - 87)
  else none

/-- `hex::decode`. -/
def hex_decode : List Char → Option (List UInt8)
  | [] => some []
  | [_] => none
  | a :: b :: rest => (digit_value a).bind fun x => (digit_value b).bind fun y =>
      (hex_decode rest).map (UInt8.ofNat (16 * x + y) :: ·)

/-- `Uuid::parse_str`, of the hyphenated spelling. -/
def parse_hyphenated (text : List Char) : Option Uuid :=
  (hex_decode (text.filter fun c => c != '-')).bind fun bytes =>
    if h : bytes.length = 16 then
      if Uuid.display ⟨bytes, h⟩ = text then some ⟨bytes, h⟩ else none
    else none

/-- A tag that is what it is of. -/
def open_tag : List UInt8 → List UInt8 → List UInt8
  | [], message => 0 :: message
  | b :: secret, message => 1 :: b :: open_tag secret message

theorem digit_value_hex_digit : ∀ n < 16, digit_value (References.hex_digit n) = some n := by decide

theorem hex_decode_hex_bytes (l : List UInt8) : hex_decode (hex_bytes l) = some l := by
  induction l with
  | nil => rfl
  | cons b l ih =>
    have hb := b.toNat_lt
    have hsum : 16 * (b.toNat / 16) + b.toNat % 16 = b.toNat := by omega
    unfold hex_bytes at ih ⊢
    rw [List.flatMap_cons, List.cons_append, List.cons_append, List.nil_append, hex_decode,
      digit_value_hex_digit _ (by omega), Option.bind_some, digit_value_hex_digit _ (by omega), Option.bind_some, ih,
      Option.map_some, hsum, UInt8.ofNat_toNat]

theorem reads : Reads hex_decode parse_hyphenated where
  bytes := hex_decode_hex_bytes
  uuid := by
    intro u
    rw [parse_hyphenated, u.filter_display, Uuid.simple, hex_decode_hex_bytes, Option.bind_some, dif_pos u.size,
      if_pos rfl]

theorem open_tag_ideal : Ideal id open_tag := by
  intro secret message secret' message' h
  induction secret generalizing secret' with
  | nil =>
    cases secret' with
    | nil => exact ⟨rfl, (List.cons.inj h).2⟩
    | cons b secret' => exact absurd (List.cons.inj h).1 (by decide)
  | cons b secret ih =>
    cases secret' with
    | nil => exact absurd (List.cons.inj h).1 (by decide)
    | cons b' secret' =>
      obtain ⟨hb, htail⟩ := List.cons.inj (List.cons.inj h).2
      obtain ⟨hsecret, hmessage⟩ := ih secret' htail
      obtain rfl : secret = secret' := hsecret
      exact ⟨by rw [hb], hmessage⟩

/-- A grant for a minute. -/
def minute : Issue where
  secret := [115]
  team_id := ⟨List.replicate 16 7, rfl⟩
  now_unix := 1000
  ttl_secs := 60
  fits := ⟨by decide, by decide⟩

def minute_grant : List Char := issue open_tag minute.secret minute.team_id minute.now_unix minute.ttl_secs

theorem grants_hold_minute :
    verify open_tag hex_decode parse_hyphenated minute.secret minute_grant 1059 = some minute.team_id ∧
    verify open_tag hex_decode parse_hyphenated minute.secret minute_grant 1060 ≠ some minute.team_id ∧
    ∃ i : Issue, i.secret = minute.secret ∧ (rsplit_once '.' minute_grant).map Prod.fst = some i.payload ∧
      i.team_id = minute.team_id := by
  have hall := grants_hold reads open_tag_ideal
  have hin := (hall.1 open_tag minute.secret minute.team_id 1000 60 1059 minute.fits).mpr (by decide)
  have hout := (hall.1 open_tag minute.secret minute.team_id 1000 60 1060 minute.fits).mp.mt (by decide)
  refine ⟨hin, hout, ?_⟩
  have hissued : Runs.Run (Step open_tag hex_decode) [] [⟨[], .issue minute, [minute]⟩] [minute] :=
    Runs.Run.single (.issue minute)
  have hrun := hissued.append (Runs.Run.single
    (.verify minute.secret minute_grant 1059 (Unforged.issue reads List.mem_cons_self)))
  obtain ⟨-, -, i, -, -, hsecret, hpayload, hteam⟩ :=
    hall.2.1 _ _ hrun _ (List.mem_append_right _ List.mem_cons_self) _ _ _ _ rfl hin
  exact ⟨i, hsecret, hpayload, hteam⟩

end CrewSync.DashboardGrant
