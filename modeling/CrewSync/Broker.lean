/-
The broker, as far as `store/jetstream.rs` sees it.

A team has one stream. An envelope is stored under the next sequence of its team's
stream, and that sequence, with the team, is the locator of its body for good: no
other envelope is ever stored there. What is dropped is gone for good as well.

The broker recognises a key it has seen before, for a while, and then answers with
the sequence it stored the key under. A key is the id of the message, when the
envelope is a copy, or a fresh UUID of the message's slot, so whatever is recognised
is of the same message. When the broker still recognises a key is left open here: an
envelope that was presented is stored any number of times, and every answer that
names an entry with its key is a possible one (`acknowledges`).
-/
import CrewSync.Migrate

set_option autoImplicit false

namespace CrewSync.Broker

open Error Schema Rows Outbox Migrate

/-- An envelope in its team's stream. -/
structure Entry where
  seq : ℕ
  envelope : Envelope
  gone : Bool
  deriving DecidableEq, Repr

/-- `Locator(format!("jetstream:{}:{}", ack.stream, ack.sequence))`. -/
def Entry.locator (x : Entry) : Locator := .jetstream x.envelope.team_id x.seq

/-- `direct_get`. -/
def direct_get (l : Locator) (b : List Entry) : Option Entry :=
  one (fun x => x.locator == l && !x.gone) b

/-- `JetStreamBackend::fetch`, of the adapter of team `team_id`. -/
def fetch (team_id : Uuid) (l : Locator) (message_id : Uuid) (b : List Entry) :
    BusResult (Option String) :=
  match l with
  | .postgres _ => .error (.Invalid "not a locator this backend issued")
  | .jetstream team _ => do
    ensure (team = team_id) (.Forbidden "that locator names another stream")
    match direct_get l b with
    | none => pure none
    | some x => do
      ensure (x.envelope.message_id = message_id) (.Forbidden "that locator names another message")
      pure (some x.envelope.body)

/-- The broker has a body of the message under the locator. -/
def holds (l : Locator) (message_id : Uuid) (b : List Entry) : Bool :=
  b.any fun x => x.locator == l && !x.gone && x.envelope.message_id == message_id

/-- The broker once answered a presentation of this key with this locator. -/
def acknowledges (publish_key message_id : Uuid) (l : Locator) (b : List Entry) : Bool :=
  b.any fun x => x.locator == l && x.envelope.publish_key == publish_key &&
    x.envelope.message_id == message_id

/-- The envelope is stored under a sequence its team's stream has not used. -/
def store (seq : ℕ) (e : Envelope) (b : List Entry) : Option (List Entry) :=
  let x : Entry := ⟨seq, e, false⟩
  if b.all fun y => y.locator != x.locator then some (insert_into x b) else none

/-- What is under the locator is dropped. -/
def drop (l : Locator) (b : List Entry) : List Entry :=
  update (fun x => x.locator == l) (fun x => { x with gone := true }) b

/-! ## What the broker keeps -/

/-- The locator is Postgres's, or the broker once stored an envelope under it. -/
def Issued (b : List Entry) : Locator → Prop
  | .postgres _ => True
  | .jetstream team_id seq => ∃ x ∈ b, x.locator = .jetstream team_id seq

/-- An entry, and the same entry later. -/
structure Same (x x' : Entry) : Prop where
  seq : x'.seq = x.seq
  envelope : x'.envelope = x.envelope
  gone : x.gone = true → x'.gone = true

/-- The stream has gone on: what was stored is there or gone, and what is new is where
nothing was. -/
structure Later (b b' : List Entry) : Prop where
  old : ∀ x ∈ b, ∃ x' ∈ b', Same x x'
  new : ∀ x' ∈ b', (∃ x ∈ b, Same x x') ∨ ∀ x ∈ b, x.locator ≠ x'.locator

/-- An entry nobody touched. -/
theorem Same.refl (x : Entry) : Same x x := ⟨rfl, rfl, fun h => h⟩

/-- An entry is found where it was. -/
theorem Same.locator {x x' : Entry} (h : Same x x') : x'.locator = x.locator := by
  rw [Entry.locator, h.seq, h.envelope, Entry.locator]

/-- A broker nobody touched. -/
theorem Later.refl (b : List Entry) : Later b b :=
  ⟨fun x hx => ⟨x, hx, .refl x⟩, fun x hx => Or.inl ⟨x, hx, .refl x⟩⟩

section Stream

variable {b b' : List Entry} {l : Locator} {team_id message_id publish_key : Uuid} {seq : ℕ} {e : Envelope}

/-- A place that was given out stays given out. -/
theorem Later.issued (h : Later b b') (hl : Issued b l) : Issued b' l := by
  cases l with
  | postgres id => exact trivial
  | jetstream team seq =>
    obtain ⟨x, hx, hloc⟩ := hl
    obtain ⟨x', hx', hsame⟩ := h.old x hx
    exact ⟨x', hx', hsame.locator.trans hloc⟩

/-- A publication is stored at a place nobody had. -/
theorem store_ok (h : store seq e b = some b') :
    b' = insert_into ⟨seq, e, false⟩ b ∧ ∀ y ∈ b, y.locator ≠ Entry.locator ⟨seq, e, false⟩ := by
  simp only [store, Option.ite_none_right_eq_some, Option.some.injEq] at h
  obtain ⟨hfresh, rfl⟩ := h
  exact ⟨rfl, fun y hy => by simpa using List.all_eq_true.mp hfresh y hy⟩

/-- Storing loses nothing. -/
theorem store_later (h : store seq e b = some b') : Later b b' := by
  obtain ⟨rfl, hfresh⟩ := store_ok h
  refine ⟨fun x hx => ⟨x, mem_insert_into.mpr (Or.inl hx), .refl x⟩, fun x hx => ?_⟩
  rcases mem_insert_into.mp hx with hx | rfl
  · exact Or.inl ⟨x, hx, .refl x⟩
  · exact Or.inr hfresh

/-- Deleting an entry leaves the record of its place. -/
theorem drop_later (l : Locator) (b : List Entry) : Later b (drop l b) := by
  have hsame : ∀ x : Entry, Same x (if x.locator == l then { x with gone := true } else x) := by
    intro x
    split
    · exact ⟨rfl, rfl, fun _ => rfl⟩
    · exact .refl x
  constructor
  · intro x hx
    exact ⟨_, mem_update_of_mem hx, hsame x⟩
  · intro x' hx'
    obtain ⟨x, hx, rfl⟩ := mem_update.mp hx'
    exact Or.inl ⟨x, hx, hsame x⟩

/-- An acknowledgement names an entry with the key and the id that were sent. -/
theorem acknowledges_issued (h : acknowledges publish_key message_id l b = true) :
    ∃ x ∈ b, x.locator = l ∧ x.envelope.publish_key = publish_key ∧
      x.envelope.message_id = message_id := by
  obtain ⟨x, hx, hp⟩ := List.any_eq_true.mp h
  simp only [Bool.and_eq_true, beq_iff_eq] at hp
  exact ⟨x, hx, hp.1.1, hp.1.2, hp.2⟩

/-- Its place has been given out. -/
theorem Issued.of_acknowledges (h : acknowledges publish_key message_id l b = true) : Issued b l := by
  obtain ⟨x, hx, hloc, -, -⟩ := acknowledges_issued h
  cases l with
  | postgres id => exact trivial
  | jetstream team seq => exact ⟨x, hx, hloc⟩

/-- A body that was read is one the broker holds. -/
theorem fetch_found {body : String} (h : fetch team_id l message_id b = .ok (some body)) :
    ∃ x ∈ b, x.locator = l ∧ x.gone = false ∧ x.envelope.message_id = message_id ∧
      x.envelope.body = body := by
  cases l with
  | postgres id => exact absurd h (by simp [fetch])
  | jetstream team seq =>
    simp only [fetch, bind_eq_ok] at h
    obtain ⟨_, -, h⟩ := h
    cases hx : direct_get (.jetstream team seq) b with
    | none =>
      rw [hx] at h
      exact absurd h (by simp [pure, Except.pure])
    | some x =>
      simp only [hx, bind_eq_ok, ensure_eq_ok, pure_eq_ok, Option.some.injEq] at h
      obtain ⟨_, hid, hbody⟩ := h
      have hp := pos_of_one hx
      simp only [Bool.and_eq_true, beq_iff_eq, Bool.not_eq_true'] at hp
      exact ⟨x, mem_of_one hx, hp.1, hp.2, hid, hbody⟩

/-- A body was stored under the locator, and is gone. -/
structure Spent (b : List Entry) (l : Locator) : Prop where
  used : ∃ x ∈ b, x.locator = l
  gone : ∀ x ∈ b, x.locator = l → x.gone = true

/-- A body the broker does not find, under a locator it issued, is gone. -/
theorem fetch_gone (hl : Issued b l) (h : fetch team_id l message_id b = .ok none) : Spent b l := by
  cases l with
  | postgres id => exact absurd h (by simp [fetch])
  | jetstream team seq =>
    simp only [fetch, bind_eq_ok] at h
    obtain ⟨_, -, h⟩ := h
    cases hx : direct_get (.jetstream team seq) b with
    | some x =>
      simp only [hx, bind_eq_ok, pure_eq_ok] at h
      obtain ⟨_, -, h⟩ := h
      cases h
    | none =>
      refine ⟨hl, fun x hin hloc => ?_⟩
      have hno := one_eq_none.mp hx x hin
      simpa [hloc] using hno

/-- What is gone stays gone: nothing is stored there again. -/
theorem Later.spent (h : Later b b') (hs : Spent b l) : Spent b' l := by
  obtain ⟨y, hy, hyl⟩ := hs.used
  constructor
  · obtain ⟨y', hy', hsame⟩ := h.old y hy
    exact ⟨y', hy', hsame.locator.trans hyl⟩
  · intro x' hx' hloc
    rcases h.new x' hx' with ⟨x, hx, hsame⟩ | hnew
    · exact hsame.gone (hs.gone x hx (hsame.locator.symm.trans hloc))
    · exact absurd (hyl.trans hloc.symm) (hnew y hy)

/-- A place whose entry was deleted holds no message. -/
theorem Spent.not_holds (h : Spent b l) : holds l message_id b = false := by
  rw [holds, List.any_eq_false]
  intro x hx hp
  simp only [Bool.and_eq_true, beq_iff_eq, Bool.not_eq_true'] at hp
  have hgone := h.gone x hx hp.1.1
  rw [hp.1.2] at hgone
  cases hgone

end Stream

end CrewSync.Broker
