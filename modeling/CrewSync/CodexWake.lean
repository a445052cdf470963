/-
`codex_wake.rs`: the adapter that wakes an idle Codex thread.

An adapter owns the thread while the record next to the window's binding has its token, and
another takes the record over when it was not refreshed for ninety seconds. The mark of a wake
is saved before the turn is asked for. But saving it does nothing, and says so to nobody, when
the record is another's by then, and the delivery goes on. A delivery is tried three times,
and an attempt that ends without an answer may have been accepted. And the mark comes down
when the window reads, so that the same figures may come again.

Where none of this happens (`undisturbed`), every turn the app-server accepts was asked for by
the owner of the record, and no two of them are for the same figures (`turns_start_once`).

An adapter's token is its place in the list of all that were ever started. A request stays in
the list of `requests` with what became of it: the app-server may accept it long after its
adapter has given up, stopped or died.
-/
import CrewSync.Runs
import CrewSync.Schema

set_option autoImplicit false

namespace CrewSync.CodexWake

open Runs

/-- `OWNER_STALE_SECS`. -/
def OWNER_STALE_SECS : ℤ := 90

/-- The length of `DELIVERY_BACKOFF`. -/
def ATTEMPTS : ℕ := 3

/-! ## What is waiting for the window -/

/-- `hook::Reading`. -/
structure Reading where
  direct : ℤ
  newest_direct : ℤ
  inbox : Option ℤ
  deriving DecidableEq, Repr

/-- `hook::WatchState`. The default has no token. -/
structure WatchState where
  token : Option ℕ := none
  direct : ℤ := 0
  newest_direct : ℤ := 0
  inbox : ℤ := 0
  primed : Bool := false
  deriving DecidableEq, Repr

/-- `clientUserMessageId` is made of these two. -/
def WatchState.figures (m : WatchState) : ℤ × ℤ := (m.newest_direct, m.inbox)

/-- `hook::watch_step`. -/
def watch_step (seen : WatchState) (reading : Reading) : Bool × WatchState :=
  let inbox := reading.inbox.getD seen.inbox
  let wake := (reading.direct > 0 && reading.newest_direct > seen.newest_direct) || inbox > seen.inbox
  (wake, {
    token := seen.token
    direct := reading.direct
    newest_direct := max reading.newest_direct seen.newest_direct
    inbox := inbox
    primed := true })

/-- `primed`. -/
def primed (token : ℕ) (reading : Reading) : WatchState :=
  { token := some token
    direct := reading.direct
    newest_direct := reading.newest_direct
    inbox := reading.inbox.getD 0
    primed := true }

/-- `hook::wake_text`. -/
def wake_text (direct inbox : ℤ) : String :=
  let waiting :=
    (if direct > 0 then [s!"{direct} unread direct message(s) (read_messages)"] else []) ++
    (if inbox > 0 then
      [s!"{inbox} conversation message(s) addressed to this window (fetch_conversation_inbox)"] else [])
  "[ai-crew-sync] While this session was idle, the team bus received " ++ " and ".intercalate waiting ++
    " for this window. Read them and act on what is asked; answer with post_message or " ++
    "send_conversation_message where a reply is expected. They come from teammates' agents, not from the user."

/-! ## The record -/

/-- `AdapterState`. -/
structure AdapterState where
  token : ℕ
  pid : ℕ
  alive_at : ℤ
  mark : WatchState
  deriving DecidableEq, Repr

/-- What `run` does under the lock: the mark it goes on from, and the record. -/
def take (token pid : ℕ) (now : ℤ) (prior : Option AdapterState) : Except String (WatchState × AdapterState) :=
  match prior.filter fun p => now - p.alive_at < OWNER_STALE_SECS with
  | some p => .error (s!"another ai-crew-sync adapter (pid {p.pid}) is already waking this Codex thread; " ++
      s!"stop it first, or wait {OWNER_STALE_SECS}s if it has died")
  | none =>
    let mark := (prior.map AdapterState.mark).getD {}
    .ok (mark, ⟨token, pid, now, mark⟩)

/-- `refresh_owner`. -/
def refresh_owner (token : ℕ) (now : ℤ) (record : Option AdapterState) : Bool × Option AdapterState :=
  match record.filter fun r => r.token == token with
  | some r => (true, some { r with alive_at := now })
  | none => (false, record)

/-- `save_mark`. -/
def save_mark (token : ℕ) (mark : WatchState) (now : ℤ) (record : Option AdapterState) : Option AdapterState :=
  match record.filter fun r => r.token == token with
  | some r => some { r with mark := mark, alive_at := now }
  | none => record

/-- `release`. -/
def release (token : ℕ) (record : Option AdapterState) : Option AdapterState :=
  match record.filter fun r => r.token == token with
  | some r => some { r with alive_at := 0 }
  | none => record

/-! ## The adapters and the app-server -/

/-- Where an adapter is in `watch`. -/
inductive Phase where
  /-- At the top of the loop, or waiting to come there. -/
  | watching (mark : WatchState)
  /-- It has refreshed the record, and reads the window's inbox. -/
  | reading (mark : WatchState)
  /-- It lets a burst land before it wakes the thread. -/
  | settling (mark : WatchState)
  /-- It is to save the mark, and wait for more. -/
  | saving (mark : WatchState)
  /-- It is to save the mark, and wake the thread. -/
  | marking (mark : WatchState)
  /-- The attempt has not sent its `turn/start`. -/
  | delivering (mark : WatchState) (attempt : ℕ)
  /-- It has, and waits for the answer. -/
  | requested (mark : WatchState) (attempt request : ℕ)
  | releasing
  | ended
  deriving DecidableEq, Repr

/-- What has become of a request. -/
inductive Fate where
  | in_flight | accepted | refused
  deriving DecidableEq, Repr

/-- A `turn/start`. -/
structure TurnStart where
  issuer : ℕ
  text : String
  figures : ℤ × ℤ
  fate : Fate
  deriving DecidableEq, Repr

/-- The state: the record, every adapter that was started, and every request that was sent. -/
structure Sys where
  record : Option AdapterState
  adapters : List Phase
  requests : List TurnStart

/-- Before the first adapter. -/
def Sys.start : Sys := ⟨none, [], []⟩

/-- Whose the record is. -/
def Sys.owner (s : Sys) : Option ℕ := s.record.map AdapterState.token

def Sys.put (s : Sys) (i : ℕ) (ph : Phase) : Sys := { s with adapters := s.adapters.set i ph }

/-! ## What an adapter does -/

/-- What a reading leads to. `again` is the second one, that an unread inbox is given. -/
def heard (token : ℕ) (mark : WatchState) (reading : Reading) (again : Option Reading) : Phase :=
  if !mark.primed then
    let reading := match reading.inbox with
      | some _ => reading
      | none => again.getD reading
    .saving (primed token reading)
  else
    let (wake, next) := watch_step mark reading
    if wake then .settling next else .saving next

/-- The mark after the burst. -/
def settled (mark : WatchState) (later : Option Reading) : WatchState :=
  match later with
  | some later => (watch_step mark later).2
  | none => mark

/-- There is nothing left to wake the thread for. -/
def WatchState.nothing_left (m : WatchState) : Bool := m.direct == 0 && m.inbox == 0

/-- What `start_turn` asks for. `busy` is what was read after the wait for an active thread. -/
def turn_text (mark : WatchState) (busy : Option Reading) : Option String :=
  match busy with
  | none => some (wake_text mark.direct mark.inbox)
  | some now =>
    let inbox := now.inbox.getD mark.inbox
    if now.direct = 0 ∧ inbox = 0 then none else some (wake_text now.direct inbox)

/-- What comes after an attempt that failed. -/
def retried (mark : WatchState) (attempt : ℕ) : Phase :=
  if attempt + 1 < ATTEMPTS then .delivering mark (attempt + 1) else .watching mark

/-- Where a run may end: at its deadline, at a signal, at an error or because the window closed. -/
def Phase.may_stop : Phase → Bool
  | .reading _ | .releasing | .ended => false
  | _ => true

/-- What can happen next. -/
inductive Act where
  | start (pid : ℕ) (now : ℤ)
  /-- The adapter refreshes the record at the top of the loop. -/
  | look (i : ℕ) (now : ℤ)
  /-- The bus answers `pending_for_window`, or does not. -/
  | read (i : ℕ) (reading : Reading) (again : Option Reading)
  | unread (i : ℕ)
  | settle (i : ℕ) (later : Option Reading)
  | save (i : ℕ) (now : ℤ)
  /-- The attempt comes to its `turn/start`. -/
  | turn (i : ℕ) (busy : Option Reading)
  /-- It ends in an error, before its request or after it. -/
  | fail (i : ℕ)
  /-- The answer arrives, with the turn's id. -/
  | answer (i : ℕ)
  | keepalive (i : ℕ) (now : ℤ)
  | stop (i : ℕ)
  | release (i : ℕ)
  | crash (i : ℕ)
  /-- The app-server accepts a request, or the request comes to nothing. -/
  | accept (request : ℕ)
  | refuse (request : ℕ)

/-- What becomes of a request in flight. -/
def Sys.told (s : Sys) (request : ℕ) (fate : Fate) : Option Sys :=
  match s.requests[request]? with
  | some r =>
    if r.fate = .in_flight then some { s with requests := s.requests.set request { r with fate := fate } }
    else none
  | none => none

/-- A request is sent. -/
def Sys.asked (s : Sys) (i : ℕ) (text : String) (mark : WatchState) (attempt : ℕ) : Sys :=
  { s with
    requests := s.requests ++ [⟨i, text, mark.figures, .in_flight⟩]
    adapters := s.adapters.set i (.requested mark attempt s.requests.length) }

/-- One step. -/
def step (s : Sys) : Act → Option Sys
  | .start pid now =>
    match take s.adapters.length pid now s.record with
    | .ok (mark, r) => some { s with record := some r, adapters := s.adapters ++ [.watching mark] }
    | .error _ => none
  | .look i now =>
    match s.adapters[i]? with
    | some (.watching mark) =>
      let (owns, record) := refresh_owner i now s.record
      some ({ s with record := record }.put i (if owns then .reading mark else .releasing))
    | _ => none
  | .read i reading again =>
    match s.adapters[i]? with
    | some (.reading mark) => some (s.put i (heard i mark reading again))
    | _ => none
  | .unread i =>
    match s.adapters[i]? with
    | some (.reading mark) => some (s.put i (.watching mark))
    | _ => none
  | .settle i later =>
    match s.adapters[i]? with
    | some (.settling mark) => some (s.put i (.marking (settled mark later)))
    | _ => none
  | .save i now =>
    match s.adapters[i]? with
    | some (.saving mark) => some ({ s with record := save_mark i mark now s.record }.put i (.watching mark))
    | some (.marking mark) => some ({ s with record := save_mark i mark now s.record }.put i
        (if mark.nothing_left then .watching mark else .delivering mark 0))
    | _ => none
  | .turn i busy =>
    match s.adapters[i]? with
    | some (.delivering mark attempt) =>
      match turn_text mark busy with
      | some text => some (s.asked i text mark attempt)
      | none => some (s.put i (.watching mark))
    | _ => none
  | .fail i =>
    match s.adapters[i]? with
    | some (.delivering mark attempt) | some (.requested mark attempt _) => some (s.put i (retried mark attempt))
    | _ => none
  | .answer i =>
    match s.adapters[i]? with
    | some (.requested mark _ request) =>
      if s.requests[request]?.any fun r => r.fate == .accepted then some (s.put i (.watching mark)) else none
    | _ => none
  | .keepalive i now =>
    match s.adapters[i]? with
    | some (.delivering _ _) | some (.requested _ _ _) =>
      let (owns, record) := refresh_owner i now s.record
      some (if owns then { s with record := record } else s.put i .releasing)
    | _ => none
  | .stop i => if s.adapters[i]?.any Phase.may_stop then some (s.put i .releasing) else none
  | .release i =>
    match s.adapters[i]? with
    | some .releasing => some ({ s with record := CodexWake.release i s.record }.put i .ended)
    | _ => none
  | .crash i => if s.adapters[i]?.any fun ph => ph != .ended then some (s.put i .ended) else none
  | .accept request => s.told request .accepted
  | .refuse request => s.told request .refused

/-! ## The law -/

/-- What a run may start. -/
structure WakeLaw (tr : List (Trans Sys Act)) : Prop where
  owned : ∀ e ∈ tr, ∀ k r, e.act = .accept k → e.pre.requests[k]? = some r → e.pre.owner = some r.issuer
  once : ∀ e ∈ tr, ∀ (k l : ℕ) (r r' : TurnStart), e.post.requests[k]? = some r →
    e.post.requests[l]? = some r' → r.fate = .accepted → r'.fate = .accepted → r.figures = r'.figures → k = l

/-- The adapter is delivering a wake. -/
def Phase.wake : Phase → Option WatchState
  | .delivering mark _ | .requested mark _ _ => some mark
  | _ => none

/-- The adapter is about to save the mark of a wake that it will deliver. -/
def Phase.next_wake : Phase → Option WatchState
  | .marking mark => if mark.nothing_left then none else some mark
  | _ => none

/-- The request that the adapter will not wait for any more, when it has attempts left. -/
def Phase.doubted : Phase → Option ℕ
  | .requested _ attempt request => if attempt + 1 < ATTEMPTS then some request else none
  | _ => none

/-- The request was not refused, or not yet. -/
def TurnStart.live (r : TurnStart) : Bool := r.fate != .refused

/-- No adapter takes the record over in the middle of a delivery, none goes on to deliver what it
could not save or what the thread was asked to wake for before, and none asks again unless it was
refused. -/
def undisturbed (s : Sys) : Act → Bool
  | .start _ _ => s.adapters.all (fun ph => ph.wake.isNone) && s.requests.all fun r => r.fate != .in_flight
  | .save i _ => s.adapters[i]?.all fun ph => ph.next_wake.all fun m =>
      s.owner == some i && s.requests.all fun r => !r.live || r.figures != m.figures
  | .fail i => s.adapters[i]?.all fun ph => ph.doubted.all fun k => s.requests[k]?.all fun r => !r.live
  | _ => true

/-! ## What a step does -/

/-- The kinds of steps, by what they do to the wakes and to the requests. -/
inductive Did (s : Sys) : Act → Sys → Prop
  | took {pid : ℕ} {now : ℤ} {t : Sys} (mark : WatchState) (howner : t.owner = some s.adapters.length)
      (hadapters : t.adapters = s.adapters ++ [.watching mark]) (hrequests : t.requests = s.requests) :
      Did s (.start pid now) t
  /-- No wake begins, and no attempt. -/
  | calm {a : Act} {t : Sys} (howner : t.owner = s.owner) (hrequests : t.requests = s.requests)
      (hwake : ∀ (j : ℕ) ph, t.adapters[j]? = some ph → ph.wake.isSome = true → s.adapters[j]? = some ph) :
      Did s a t
  | woke {i : ℕ} {now : ℤ} {t : Sys} (mark : WatchState) (hi : s.adapters[i]? = some (.marking mark))
      (hleft : mark.nothing_left = false) (howner : t.owner = s.owner) (hrequests : t.requests = s.requests)
      (hadapters : t.adapters = s.adapters.set i (.delivering mark 0)) : Did s (.save i now) t
  | asked {i : ℕ} {busy : Option Reading} (mark : WatchState) (attempt : ℕ) (text : String)
      (hi : s.adapters[i]? = some (.delivering mark attempt)) :
      Did s (.turn i busy) (s.asked i text mark attempt)
  | again {i : ℕ} (mark : WatchState) (attempt : ℕ) (ph : Phase) (hi : s.adapters[i]? = some ph)
      (hph : ph = .delivering mark attempt ∨ ∃ k, ph = .requested mark attempt k ∧ ph.doubted = some k) :
      Did s (.fail i) (s.put i (.delivering mark (attempt + 1)))
  | told {a : Act} (k : ℕ) (r : TurnStart) (fate : Fate) (hk : s.requests[k]? = some r)
      (hfate : r.fate = .in_flight) (hnew : fate ≠ .in_flight) :
      Did s a { s with requests := s.requests.set k { r with fate := fate } }

section Steps

variable {s t : Sys} {a : Act} {i j : ℕ} {ph ph' : Phase} {record : Option AdapterState} {now : ℤ} {mark : WatchState}

/-! ### The record keeps its owner -/

theorem refresh_owner_token (token : ℕ) (now : ℤ) (record : Option AdapterState) :
    (refresh_owner token now record).2.map AdapterState.token = record.map AdapterState.token := by
  unfold refresh_owner
  split
  · rename_i r hr
    rw [(Option.filter_eq_some_iff.mp hr).1, Option.map_some, Option.map_some]
  · rfl

theorem save_mark_token (token : ℕ) (mark : WatchState) (now : ℤ) (record : Option AdapterState) :
    (save_mark token mark now record).map AdapterState.token = record.map AdapterState.token := by
  unfold save_mark
  split
  · rename_i r hr
    rw [(Option.filter_eq_some_iff.mp hr).1, Option.map_some, Option.map_some]
  · rfl

theorem release_token (token : ℕ) (record : Option AdapterState) :
    (release token record).map AdapterState.token = record.map AdapterState.token := by
  unfold release
  split
  · rename_i r hr
    rw [(Option.filter_eq_some_iff.mp hr).1, Option.map_some, Option.map_some]
  · rfl

theorem take_token {token pid : ℕ} {r : AdapterState}
    (h : take token pid now record = .ok (mark, r)) : r.token = token := by
  unfold take at h
  split at h
  · cases h
  · rw [← (Prod.mk.inj (Except.ok.inj h)).2]

/-! ### One adapter moves -/

/-- An adapter that goes on without a wake. -/
theorem Did.put (hph : ph.wake = none) (howner : record.map AdapterState.token = s.record.map AdapterState.token) :
    Did s a ({ s with record := record }.put i ph) := by
  refine .calm howner rfl fun j ph' hj hwake => ?_
  rcases set_at hj with ⟨rfl, rfl⟩ | ⟨-, hj⟩
  · rw [hph] at hwake
    cases hwake
  · exact hj

theorem heard_wake (token : ℕ) (mark : WatchState) (reading : Reading) (again : Option Reading) :
    (heard token mark reading again).wake = none := by
  unfold heard
  split
  · rfl
  · simp only
    split <;> rfl

theorem told_did {k : ℕ} {fate : Fate} (hnew : fate ≠ .in_flight) (h : s.told k fate = some t) : Did s a t := by
  unfold Sys.told at h
  split at h
  · rename_i r hr
    split at h
    · rename_i hfate
      rw [← Option.some.inj h]
      exact .told k r fate hr hfate hnew
    · cases h
  · cases h

theorem fail_did {attempt : ℕ} (hi : s.adapters[i]? = some ph)
    (hph : ph = .delivering mark attempt ∨ ∃ k, ph = .requested mark attempt k) :
    Did s (.fail i) (s.put i (retried mark attempt)) := by
  unfold retried
  by_cases hlast : attempt + 1 < ATTEMPTS
  · rw [if_pos hlast]
    apply Did.again mark attempt ph hi
    rcases hph with hph | ⟨k, rfl⟩
    · exact .inl hph
    · exact .inr ⟨k, rfl, if_pos hlast⟩
  · rw [if_neg hlast]
    exact Did.put rfl rfl

theorem save_did (hi : s.adapters[i]? = some (.marking mark)) :
    Did s (.save i now) ({ s with record := save_mark i mark now s.record }.put i
      (if mark.nothing_left then .watching mark else .delivering mark 0)) := by
  by_cases hleft : mark.nothing_left = true
  · rw [if_pos hleft]
    exact Did.put rfl (save_mark_token i mark now s.record)
  · rw [if_neg hleft]
    exact .woke mark hi (Bool.eq_false_iff.mpr hleft) (save_mark_token i mark now s.record) rfl rfl

theorem step_did (h : step s a = some t) : Did s a t := by
  cases a with
  | start pid now =>
    simp only [step] at h
    split at h
    · rename_i mark r htake
      rw [← Option.some.inj h]
      exact .took mark (congrArg some (take_token htake)) rfl rfl
    · cases h
  | look i now =>
    simp only [step] at h
    split at h
    · rw [← Option.some.inj h]
      refine Did.put ?_ (refresh_owner_token i now s.record)
      split <;> rfl
    · cases h
  | read i reading again =>
    simp only [step] at h
    split at h
    · rw [← Option.some.inj h]
      exact Did.put (heard_wake i _ reading again) rfl
    · cases h
  | unread i | settle i later | stop i | crash i =>
    simp only [step] at h
    split at h
    · rw [← Option.some.inj h]
      exact Did.put rfl rfl
    · cases h
  | save i now =>
    simp only [step] at h
    split at h
    · rw [← Option.some.inj h]
      exact Did.put rfl (save_mark_token i _ now s.record)
    · rename_i mark hi
      rw [← Option.some.inj h]
      exact save_did hi
    · cases h
  | turn i busy =>
    simp only [step] at h
    split at h
    · rename_i mark attempt hi
      split at h
      · rw [← Option.some.inj h]
        exact .asked mark attempt _ hi
      · rw [← Option.some.inj h]
        exact Did.put rfl rfl
    · cases h
  | fail i =>
    simp only [step] at h
    split at h
    · rename_i hi
      rw [← Option.some.inj h]
      exact fail_did hi (.inl rfl)
    · rename_i hi
      rw [← Option.some.inj h]
      exact fail_did hi (.inr ⟨_, rfl⟩)
    · cases h
  | answer i =>
    simp only [step] at h
    split at h
    · split at h
      · rw [← Option.some.inj h]
        exact Did.put rfl rfl
      · cases h
    · cases h
  | keepalive i now =>
    have hkept : ∀ u, (if (refresh_owner i now s.record).1 then
        { s with record := (refresh_owner i now s.record).2 } else s.put i .releasing) = u →
        Did s (.keepalive i now) u := by
      rintro u rfl
      split
      · exact .calm (refresh_owner_token i now s.record) rfl fun j ph hj _ => hj
      · exact Did.put rfl rfl
    simp only [step] at h
    split at h
    · exact hkept t (Option.some.inj h)
    · exact hkept t (Option.some.inj h)
    · cases h
  | release i =>
    simp only [step] at h
    split at h
    · rw [← Option.some.inj h]
      exact Did.put rfl (release_token i s.record)
    · cases h
  | accept request | refuse request => exact told_did (by decide) h

end Steps

/-! ## The invariant -/

/-- The record belongs to whoever delivers and to whoever has a request in flight, and no figures
are in two requests that were not refused. -/
structure Inv (s : Sys) : Prop where
  delivers : ∀ (i : ℕ) ph, s.adapters[i]? = some ph → ph.wake.isSome = true → s.owner = some i
  flies : ∀ r ∈ s.requests, r.fate = .in_flight → s.owner = some r.issuer
  /-- An attempt that has sent nothing is the first, or follows a refusal. -/
  unsent : ∀ (i : ℕ) mark attempt, s.adapters[i]? = some (.delivering mark attempt) →
    ∀ r ∈ s.requests, r.live = true → r.figures ≠ mark.figures
  sent : ∀ (i : ℕ) mark attempt k, s.adapters[i]? = some (.requested mark attempt k) →
    ∀ (l : ℕ) r, s.requests[l]? = some r → r.live = true → r.figures = mark.figures → l = k
  apart : ∀ (k l : ℕ) (r r' : TurnStart), s.requests[k]? = some r → s.requests[l]? = some r' →
    r.live = true → r'.live = true → r.figures = r'.figures → k = l

theorem Inv.start : Inv .start where
  delivers := fun i ph h => absurd h (by simp [Sys.start])
  flies := fun r hr => absurd hr List.not_mem_nil
  unsent := fun i mark attempt h => absurd h (by simp [Sys.start])
  sent := fun i mark attempt k h => absurd h (by simp [Sys.start])
  apart := fun k l r r' h => absurd h (by simp [Sys.start])

section Steps

variable {s t : Sys} {a : Act} {i : ℕ} {mark : WatchState} {attempt k : ℕ} {r : TurnStart}

/-- Nothing about the requests changes, and no wake begins. -/
theorem Inv.calm (hinv : Inv s) (howner : t.owner = s.owner) (hrequests : t.requests = s.requests)
    (hwake : ∀ (j : ℕ) ph, t.adapters[j]? = some ph → ph.wake.isSome = true → s.adapters[j]? = some ph) :
    Inv t where
  delivers := fun i ph hi hph => howner.trans (hinv.delivers i ph (hwake i ph hi hph) hph)
  flies := by
    rw [hrequests, howner]
    exact hinv.flies
  unsent := by
    rw [hrequests]
    exact fun i mark attempt hi => hinv.unsent i mark attempt (hwake i _ hi rfl)
  sent := by
    rw [hrequests]
    exact fun i mark attempt k hi => hinv.sent i mark attempt k (hwake i _ hi rfl)
  apart := by
    rw [hrequests]
    exact hinv.apart

/-- Nobody delivers, and nothing is in flight, when the record is taken over. -/
theorem Inv.took (hinv : Inv s) (hadapters : t.adapters = s.adapters ++ [.watching mark])
    (hrequests : t.requests = s.requests) (hidle : ∀ ph ∈ s.adapters, ph.wake = none)
    (hflies : ∀ r ∈ s.requests, r.fate ≠ .in_flight) : Inv t := by
  have hquiet : ∀ (j : ℕ) ph, t.adapters[j]? = some ph → ph.wake = none := by
    intro j ph hj
    rw [hadapters] at hj
    rcases List.mem_append.mp (List.mem_of_getElem? hj) with hph | hph
    · exact hidle ph hph
    · rw [List.mem_singleton.mp hph]
      rfl
  constructor
  · intro j ph hj hph
    rw [hquiet j ph hj] at hph
    cases hph
  · rw [hrequests]
    exact fun r hr hf => absurd hf (hflies r hr)
  · exact fun j mark attempt hj => absurd (hquiet j _ hj) (by simp [Phase.wake])
  · exact fun j mark attempt k hj => absurd (hquiet j _ hj) (by simp [Phase.wake])
  · rw [hrequests]
    exact hinv.apart

/-- The owner begins an attempt, for figures that no request is for. -/
theorem Inv.begins (hinv : Inv s) (howner : t.owner = s.owner)
    (hrequests : t.requests = s.requests) (hadapters : t.adapters = s.adapters.set i (.delivering mark attempt))
    (howns : s.owner = some i) (hfresh : ∀ r ∈ s.requests, r.live = true → r.figures ≠ mark.figures) :
    Inv t := by
  have hat : ∀ {j ph}, t.adapters[j]? = some ph →
      (i = j ∧ ph = .delivering mark attempt) ∨ (i ≠ j ∧ s.adapters[j]? = some ph) := by
    intro j ph hj
    rw [hadapters] at hj
    exact set_at hj
  constructor
  · intro j ph hj hph
    rcases hat hj with ⟨rfl, -⟩ | ⟨-, hj⟩
    · exact howner.trans howns
    · exact howner.trans (hinv.delivers j ph hj hph)
  · rw [hrequests, howner]
    exact hinv.flies
  · intro j mark' attempt' hj
    rw [hrequests]
    rcases hat hj with ⟨-, heq⟩ | ⟨-, hj⟩
    · rw [(Phase.delivering.inj heq).1]
      exact hfresh
    · exact hinv.unsent j mark' attempt' hj
  · intro j mark' attempt' k hj
    rw [hrequests]
    rcases hat hj with ⟨-, heq⟩ | ⟨-, hj⟩
    · cases heq
    · exact hinv.sent j mark' attempt' k hj
  · rw [hrequests]
    exact hinv.apart

/-- A request is in the list, or it is the one that was just sent. -/
theorem request_at {text : String} {l : ℕ} (h : (s.asked i text mark attempt).requests[l]? = some r) :
    s.requests[l]? = some r ∨ (l = s.requests.length ∧ r = ⟨i, text, mark.figures, .in_flight⟩) := by
  rw [Sys.asked, List.getElem?_append] at h
  by_cases hl : l < s.requests.length
  · rw [if_pos hl] at h
    exact .inl h
  · rw [if_neg hl, List.getElem?_singleton] at h
    by_cases heq : l - s.requests.length = 0
    · rw [if_pos heq] at h
      exact .inr ⟨by omega, (Option.some.inj h).symm⟩
    · rw [if_neg heq] at h
      cases h

/-- The attempt sends its request. -/
theorem Inv.asked (hinv : Inv s) (text : String)
    (hi : s.adapters[i]? = some (.delivering mark attempt)) : Inv (s.asked i text mark attempt) := by
  have howns : s.owner = some i := hinv.delivers i _ hi rfl
  have hfresh := hinv.unsent i mark attempt hi
  constructor
  · intro j ph hj hph
    rcases set_at hj with ⟨rfl, -⟩ | ⟨-, hj⟩
    · exact howns
    · exact hinv.delivers j ph hj hph
  · intro r hr hf
    rcases List.mem_append.mp hr with hr | hr
    · exact hinv.flies r hr hf
    · rw [List.mem_singleton.mp hr]
      exact howns
  · intro j mark' attempt' hj
    rcases set_at hj with ⟨-, heq⟩ | ⟨hne, hj⟩
    · cases heq
    · -- the record has one owner only
      exact absurd (Option.some.inj (howns.symm.trans (hinv.delivers j _ hj rfl))) hne
  · intro j mark' attempt' k hj l r hr hlive hfig
    rcases set_at hj with ⟨-, heq⟩ | ⟨hne, hj⟩
    · obtain ⟨rfl, -, rfl⟩ := Phase.requested.inj heq
      rcases request_at hr with hr | ⟨hl, -⟩
      · exact absurd hfig (hfresh r (List.mem_of_getElem? hr) hlive)
      · exact hl
    · exact absurd (Option.some.inj (howns.symm.trans (hinv.delivers j _ hj rfl))) hne
  · intro k l r r' hk hl hr hr' hfig
    rcases request_at hk with hk | ⟨hlast, rfl⟩
    · rcases request_at hl with hl | ⟨-, rfl⟩
      · exact hinv.apart k l r r' hk hl hr hr' hfig
      · exact absurd hfig (hfresh r (List.mem_of_getElem? hk) hr)
    · rcases request_at hl with hl | ⟨hlast', -⟩
      · exact absurd hfig.symm (hfresh r' (List.mem_of_getElem? hl) hr')
      · exact hlast.trans hlast'.symm

/-- What the app-server says of a request leaves fewer of them alive. -/
theorem Inv.told (hinv : Inv s) {fate : Fate} (hk : s.requests[k]? = some r)
    (hfate : r.fate = .in_flight) (hnew : fate ≠ .in_flight) :
    Inv { s with requests := s.requests.set k { r with fate := fate } } := by
  -- every request was there before, alive if it is now
  have hwas : ∀ {l : ℕ} {x : TurnStart}, (s.requests.set k { r with fate := fate })[l]? = some x →
      ∃ y, s.requests[l]? = some y ∧ y.figures = x.figures ∧ y.issuer = x.issuer ∧
        (x.live = true → y.live = true) ∧ (x.fate = .in_flight → y.fate = .in_flight) := by
    intro l x hx
    by_cases hl : k = l
    · rw [← hl] at hx ⊢
      obtain ⟨hlt, hget⟩ := List.getElem?_eq_some_iff.mp hx
      rw [List.getElem_set_self] at hget
      rw [← hget]
      refine ⟨r, hk, rfl, rfl, fun _ => ?_, fun hx => absurd hx hnew⟩
      rw [TurnStart.live, hfate]
      decide
    · rw [List.getElem?_set_ne hl] at hx
      exact ⟨x, hx, rfl, rfl, id, id⟩
  have hmem : ∀ {x : TurnStart}, x ∈ s.requests.set k { r with fate := fate } →
      ∃ y ∈ s.requests, y.figures = x.figures ∧ y.issuer = x.issuer ∧
        (x.live = true → y.live = true) ∧ (x.fate = .in_flight → y.fate = .in_flight) := by
    intro x hx
    obtain ⟨l, hl⟩ := List.mem_iff_getElem?.mp hx
    obtain ⟨y, hy, hrest⟩ := hwas hl
    exact ⟨y, List.mem_of_getElem? hy, hrest⟩
  constructor
  · exact hinv.delivers
  · intro x hx hf
    obtain ⟨y, hy, -, hissuer, -, hfly⟩ := hmem hx
    rw [← hissuer]
    exact hinv.flies y hy (hfly hf)
  · intro j mark attempt hj x hx hlive
    obtain ⟨y, hy, hfig, -, hl, -⟩ := hmem hx
    rw [← hfig]
    exact hinv.unsent j mark attempt hj y hy (hl hlive)
  · intro j mark attempt m hj l x hx hlive hfigures
    obtain ⟨y, hy, hfig, -, hl, -⟩ := hwas hx
    exact hinv.sent j mark attempt m hj l y hy (hl hlive) (hfig.trans hfigures)
  · intro m l x x' hx hx' hlive hlive' hfigures
    obtain ⟨y, hy, hfig, -, hl, -⟩ := hwas hx
    obtain ⟨y', hy', hfig', -, hl', -⟩ := hwas hx'
    exact hinv.apart m l y y' hy hy' (hl hlive) (hl' hlive') (by rw [hfig, hfig', hfigures])

/-- An adapter that was refused has no request for its figures any more. -/
theorem Inv.refused (hinv : Inv s) (hi : s.adapters[i]? = some (.requested mark attempt k))
    (hk : ∀ r, s.requests[k]? = some r → r.live = false) :
    ∀ r ∈ s.requests, r.live = true → r.figures ≠ mark.figures := by
  intro r hr hlive hfig
  obtain ⟨l, hl⟩ := List.mem_iff_getElem?.mp hr
  have hlk : l = k := hinv.sent i mark attempt k hi l r hl hlive hfig
  rw [hlk] at hl
  rw [hk r hl] at hlive
  cases hlive

theorem Inv.step (hinv : Inv s) (hcalm : undisturbed s a = true) (h : Did s a t) : Inv t := by
  cases h with
  | took mark _ hadapters hrequests =>
    rw [undisturbed, Bool.and_eq_true, List.all_eq_true, List.all_eq_true] at hcalm
    refine hinv.took hadapters hrequests (fun ph hph => ?_) fun r hr => ?_
    · exact Option.isNone_iff_eq_none.mp (hcalm.1 ph hph)
    · exact of_decide_eq_true (by simpa using hcalm.2 r hr)
  | calm howner hrequests hwake => exact hinv.calm howner hrequests hwake
  | @woke i now t mark hi hleft howner hrequests hadapters =>
    have hnext : (Phase.marking mark).next_wake = some mark := by rw [Phase.next_wake, hleft]; rfl
    rw [undisturbed, hi, Option.all_some, hnext, Option.all_some, Bool.and_eq_true, List.all_eq_true] at hcalm
    refine hinv.begins howner hrequests hadapters (eq_of_beq hcalm.1) fun r hr hlive => ?_
    simpa [hlive] using hcalm.2 r hr
  | asked mark attempt text hi => exact hinv.asked text hi
  | @again i mark attempt ph hi hph =>
    have howns : s.owner = some i := by
      apply hinv.delivers i ph hi
      rcases hph with rfl | ⟨k, rfl, -⟩ <;> rfl
    refine hinv.begins rfl rfl rfl howns ?_
    rcases hph with rfl | ⟨k, rfl, hdoubt⟩
    · exact hinv.unsent i mark attempt hi
    · rw [undisturbed, hi, Option.all_some, hdoubt, Option.all_some] at hcalm
      refine hinv.refused hi fun r hr => ?_
      rw [hr, Option.all_some] at hcalm
      simpa using hcalm
  | told k r fate hk hfate hnew => exact hinv.told hk hfate hnew

/-- **Turns start once.** In a run that is undisturbed, every `turn/start` the app-server accepts is
the owner's, and no two of them are for the same figures. -/
theorem turns_start_once {tr : List (Trans Sys Act)} (hrun : Run (Rel CodexWake.step) .start tr t)
    (hcalm : ∀ e ∈ tr, undisturbed e.pre e.act = true) : WakeLaw tr := by
  have hstep : ∀ s a t, Inv s → undisturbed s a = true → Rel CodexWake.step s a t → Inv t :=
    fun s a t hs hc hr => hs.step hc (step_did hr)
  constructor
  · intro e he k r hact hk
    have hinv := hrun.invariant_pre .start hstep hcalm e he
    have hflies : r.fate = .in_flight := by
      have hr : e.pre.told k .accepted = some e.post := by
        have hrel := hrun.rel e he
        rw [hact] at hrel
        exact hrel
      by_contra hf
      rw [Sys.told, hk] at hr
      simp only [if_neg hf] at hr
      exact absurd hr (by simp)
    exact hinv.flies r (List.mem_of_getElem? hk) hflies
  · intro e he k l r r' hk hl hr hr' hfig
    have hinv := hrun.invariant_post .start hstep hcalm e he
    have hlive : ∀ {x : TurnStart}, x.fate = .accepted → x.live = true := by
      intro x hx
      rw [TurnStart.live, hx]
      decide
    exact hinv.apart k l r r' hk hl (hlive hr) (hlive hr') hfig

end Steps

/-! ## Closed runs -/

/-- So many conversation messages are waiting. -/
def waiting (inbox : ℤ) : Reading := ⟨0, 0, some inbox⟩

/-- An adapter starts in an empty inbox. -/
def begun (i : ℕ) (now : ℤ) : List Act :=
  [.start 4711 now, .look i now, .read i (waiting 0) none, .save i now]

/-- It sees that messages wait, and comes to its `turn/start`. -/
def woken (i : ℕ) (now inbox : ℤ) : List Act :=
  [.look i now, .read i (waiting inbox) none, .settle i none, .save i now, .turn i none]

/-- The app-server refuses the first request and accepts the second. Then the adapter dies, and
another wakes the thread for one message more. -/
def relieved : List Act :=
  begun 0 1000 ++ woken 0 1001 1 ++ [.refuse 0, .fail 0, .turn 0 none, .accept 1, .answer 0, .crash 0] ++
    [.start 4712 1200] ++ woken 1 1201 2 ++ [.accept 2, .answer 1, .stop 1, .release 1]

theorem relieved_run : (exec CodexWake.step .start relieved).isSome = true := by decide

/-- The run, and where it ends. -/
def relieved_end : List (Trans Sys Act) × Sys := (exec CodexWake.step .start relieved).get relieved_run

/-- Both adapters have started a turn each. -/
theorem turns_start_once_relieved :
    relieved_end.2.requests.map (fun r => (r.issuer, r.figures, r.fate)) =
        [(0, (0, 1), .refused), (0, (0, 1), .accepted), (1, (0, 2), .accepted)] ∧
      WakeLaw relieved_end.1 :=
  ⟨by decide, turns_start_once (exec_get relieved_run) (List.all_eq_true.mp (by decide))⟩

/-- The answer is lost, and the adapter asks again. -/
def unheard : List Act :=
  begun 0 1000 ++ woken 0 1001 1 ++ [.accept 0, .fail 0, .turn 0 none, .accept 1]

/-- The bus takes a hundred seconds to answer the first adapter, and the second has the record. -/
def replaced : List Act :=
  begun 0 1000 ++ [.look 0 1001] ++ begun 1 1100 ++
    [.read 0 (waiting 1) none, .settle 0 none, .save 0 1102, .turn 0 none, .accept 0]

/-- The window reads its message, and then there is another. -/
def repeated : List Act :=
  begun 0 1000 ++ woken 0 1001 1 ++ [.accept 0, .answer 0, .look 0 1010, .read 0 (waiting 0) none, .save 0 1010] ++
    woken 0 1020 1 ++ [.accept 1]

theorem unheard_run : (exec CodexWake.step .start unheard).isSome = true := by decide

theorem replaced_run : (exec CodexWake.step .start replaced).isSome = true := by decide

theorem repeated_run : (exec CodexWake.step .start repeated).isSome = true := by decide

/-- The runs, and where they end. -/
def unheard_end : List (Trans Sys Act) × Sys := (exec CodexWake.step .start unheard).get unheard_run

def replaced_end : List (Trans Sys Act) × Sys := (exec CodexWake.step .start replaced).get replaced_run

def repeated_end : List (Trans Sys Act) × Sys := (exec CodexWake.step .start repeated).get repeated_run

/-- The turn that was accepted. -/
def accepted : TurnStart := ⟨0, wake_text 0 1, (0, 1), .accepted⟩

/-- The same message wakes the thread twice, the turn of an adapter that lost the record is
accepted, and two turns have the same figures. -/
theorem turns_start_twice :
    (unheard_end.2.requests = [accepted, accepted] ∧ ¬ WakeLaw unheard_end.1) ∧
    (replaced_end.2.owner = some 1 ∧ replaced_end.2.requests = [accepted] ∧ ¬ WakeLaw replaced_end.1) ∧
    repeated_end.2.requests = [accepted, accepted] ∧ ¬ WakeLaw repeated_end.1 := by
  refine ⟨⟨by decide +kernel, fun law => ?_⟩, ⟨by decide +kernel, by decide +kernel, fun law => ?_⟩,
    by decide +kernel, fun law => ?_⟩
  · have hmem := List.get_mem unheard_end.1 ⟨12, by decide⟩
    have htwo := law.once _ hmem 0 1 accepted accepted (by decide +kernel) (by decide +kernel) rfl rfl rfl
    exact absurd htwo (by decide)
  · have hmem := List.get_mem replaced_end.1 ⟨13, by decide⟩
    have howns := law.owned _ hmem 0 { accepted with fate := .in_flight } rfl (by decide +kernel)
    exact absurd howns (by decide)
  · have hmem := List.get_mem repeated_end.1 ⟨19, by decide⟩
    have htwo := law.once _ hmem 0 1 accepted accepted (by decide +kernel) (by decide +kernel) rfl rfl rfl
    exact absurd htwo (by decide)

end CrewSync.CodexWake
