/-
`Proxy::long_wait` and `Proxy::forward_bound` of `proxy.rs`: a call of the host that is one for the
model and many for the bus.

A wait for longer than the bus serves is cut into slices. Each goes out on the window's connection,
if that is still of the generation the wait started under, with the time that is left and the
position of the answer before. Between two slices, and during one, the window's other calls go on:
they may take its connection away, and open another. The bus serves a slice as any call, beside the
transactions that write the log.

The position is handed on only by answers that say nothing, so what lies behind it lies behind the
first slice's as well, and the last answer tells what one wait over the whole time would have told.

Left out: what becomes of an error that the bus or the transport gives, but for its text; and a
`since` that is no snapshot, which the bus refuses with the words it has for one that is too long.
-/
import Mathlib.Algebra.Ring.Int.Defs
import CrewSync.Proxy
import CrewSync.Spans

set_option autoImplicit false

namespace CrewSync.LongWait

open Schema Mvcc Messaging EventLog
open Waiting (Answer Reading rows_of of_log of_log_act Store Young Moved Made)
open Spans
open Proxy (Remote State World Window Ran Acted)

/-! ## Time -/

/-- `SERVER_WAIT_LIMIT_SECS`. -/
def SERVER_WAIT_LIMIT_SECS : ℤ := 55

/-- `SERVER_WAIT_SLICE_SECS`. -/
def SERVER_WAIT_SLICE_SECS : ℕ := 50

/-- `PROXY_MAX_WAIT_SECS`. -/
def PROXY_MAX_WAIT_SECS : ℤ := 1800

/-- `DEFAULT_TIMEOUT_SECS`, on the bus. -/
def DEFAULT_TIMEOUT_SECS : ℤ := 25

/-- `MAX_TIMEOUT_SECS`, on the bus. -/
def MAX_TIMEOUT_SECS : ℤ := 55

/-- An `Instant` is in nanoseconds. -/
def NANOS : ℕ := 1000000000

/-- `Value::as_i64`, of an integer. -/
def as_i64 (n : ℤ) : Option ℤ := if -2 ^ 63 ≤ n ∧ n < 2 ^ 63 then some n else none

/-- `timeout_seconds`, as `wait_for_updates` takes it. -/
def timeout_of (timeout_seconds : Option ℤ) : ℕ :=
  (max 5 (min (timeout_seconds.getD DEFAULT_TIMEOUT_SECS) MAX_TIMEOUT_SECS)).toNat

/-! ## Answers -/

/-- What the proxy reads of a `structured_content`. -/
structure Content where
  woke : Option Bool
  resume_from : Option Snapshot
  deriving DecidableEq, Repr

/-- What the bus puts there. -/
def structured_content (r : WaitResult) : Option Content := some ⟨some r.woke, some r.resume_from⟩

/-- Whether the answer is one to return. -/
def woke (c : Option Content) : Bool := (c.bind Content.woke).getD true

/-- Where the next slice resumes. -/
def resumed (c : Option Content) (since : Option Snapshot) : Option Snapshot :=
  (c.bind Content.resume_from).or since

/-- The window switched credentials. -/
def switched (generation : ℕ) : String :=
  s!"wait_for_updates was cancelled: this window switched credentials while the call was in flight " ++
    s!"(generation {generation}). Nothing was replayed; call again if it is still wanted, as the new identity"

/-- The window has no connection. -/
def not_connected (disconnected_reason : Option String) : String :=
  let why := disconnected_reason.getD "no profile resolved"
  s!"not connected to the bus: {why}. Call configure_session with an approved profile, or fix the " ++
    "local configuration and start a new conversation"

/-- The client cancelled the call. -/
def cancelled_by_client : String := "wait_for_updates was cancelled by the client"

/-- `since` is too long. -/
def not_a_position : String :=
  "since is not a resume_from this bus returned. Pass resume_from from the previous wait_for_updates " ++
    "exactly, or omit since to start fresh."

/-! ## A wait -/

/-- What the host calls `wait_for_updates` with. -/
structure Request where
  timeout_seconds : Option ℤ
  since : Option Snapshot
  kinds : Option (List String)
  deriving DecidableEq, Repr

/-- What a long wait is held to. -/
structure Span where
  started_under : ℕ
  deadline : ℕ
  deriving DecidableEq, Repr

/-- The span of a wait for longer than the bus serves. -/
def Request.span (r : Request) (generation now : ℕ) : Option Span :=
  ((r.timeout_seconds.bind as_i64).filter fun t => SERVER_WAIT_LIMIT_SECS < t).map fun total =>
    ⟨generation, now + (min total PROXY_MAX_WAIT_SECS).toNat * NANOS⟩

/-- A request to the bus: whose, over which connection, and what it asks for. `asked` is how many
answers the bus had given before. -/
structure Slice where
  generation : ℕ
  remote : Remote
  timeout_seconds : Option ℤ
  since : Option Snapshot
  left : ℕ
  began : ℕ
  asked : ℕ
  deriving DecidableEq, Repr

/-- A call of the host that has not returned. Without a span it is forwarded as it is. -/
structure Pending where
  request : Request
  span : Option Span
  began : ℕ
  since : Option Snapshot
  /-- The host has cancelled it. -/
  host_ct : Bool
  slices : List Slice
  answers : List Answer
  /-- The slice in flight. -/
  flying : Option Slice

/-- The whole seconds that are left. -/
def Pending.left (w : Pending) (now : ℕ) : ℕ :=
  match w.span with
  | some b => (b.deadline - now) / NANOS
  | none => 0

/-- The `timeout_seconds` of the next request. -/
def Pending.timeout_seconds (w : Pending) (now : ℕ) : Option ℤ :=
  match w.span with
  | some _ => some (max 5 (min (w.left now) SERVER_WAIT_SLICE_SECS) : ℕ)
  | none => w.request.timeout_seconds

/-- A call of the host that has returned, and when: by the clock of the bus, and by the proxy's. -/
structure Ended where
  wait : Pending
  result : Except String Answer
  generation : ℕ
  clock : ℕ
  now : ℕ

/-! ## The system -/

/-- The window's proxy, the bus, and the wait. -/
structure Sys where
  proxy : Proxy.Sys
  bus : Waiting.Sys
  now : ℕ
  wait : Option Pending
  ended : List Ended

/-- What the window is. -/
def Sys.st (s : Sys) : State := s.proxy.window.st

/-- What can happen next. -/
inductive Act where
  /-- The window's other calls, and what others do to its sessions. -/
  | window (e : Proxy.Event)
  /-- The transactions, and the bus while it serves a slice. -/
  | bus (a : Waiting.Act)
  | pass (n : ℕ)
  | long_wait (r : Request)
  /-- The next request goes out. -/
  | slice (scope : Scope) (focus : Option Uuid) (names : Names) (pending : ℕ) (counts : Counts)
  /-- The bus has answered it. -/
  | answered
  /-- The bus has refused its `since`. -/
  | refused
  /-- It ends with another error of the bus or the transport. -/
  | failed (why : String)
  /-- Its connection is cancelled. -/
  | cancelled
  | host_cancels
  /-- The call ends because the host has cancelled it. -/
  | host_cancelled

/-- What others do to the log is the same whoever waits. -/
def others : AuthCtx :=
  { agent_id := 0, agent_name := "", team_id := 0, team_slug := "", session := "", session_id := none,
    session_epoch := none, token_id := none }

/-- The wait and its slice, when one is in flight. -/
def Sys.in_flight (s : Sys) : Option (Pending × Slice) := s.wait.bind fun w => w.flying.map fun sl => (w, sl)

/-- The call returns. -/
def Sys.returns (s : Sys) (w : Pending) (result : Except String Answer) : Sys :=
  { s with
    bus := { s.bus with phase := .idle }
    wait := none
    ended := s.ended ++ [⟨w, result, s.st.generation, s.bus.clock, s.now⟩] }

/-- `forward_bound`, up to the request that it sends over the connection it finds. -/
def forward_bound (st : State) (bound : Option ℕ) : Except String Remote :=
  match bound.filter fun started => st.generation != started with
  | some started => .error (switched started)
  | none =>
    match st.connected with
    | none => .error (not_connected st.disconnected_reason)
    | some c => .ok c.remote

section Step

variable (session_for binding_path : String → String) (who : Remote → AuthCtx)

/-- One step. `who` is whom the bus takes a connection for. -/
def step (s : Sys) : Act → Option Sys
  | .window e => (Proxy.step session_for binding_path s.proxy e).map fun proxy => { s with proxy := proxy }
  | .bus a =>
    match s.in_flight with
    | some (w, sl) =>
      if of_bus a then
        (Waiting.step (who sl.remote) w.request.kinds s.bus a).map fun bus => { s with bus := bus }
      else none
    | none =>
      if of_log_act a then (Waiting.step others none s.bus a).map fun bus => { s with bus := bus }
      else none
  | .pass n => some { s with now := s.now + n }
  | .long_wait r =>
    match s.wait with
    | some _ => none
    | none =>
      some { s with wait := some ⟨r, r.span s.st.generation s.now, s.now, r.since, false, [], [], none⟩ }
  | .slice scope focus names pending counts =>
    match s.wait with
    | none => none
    | some w =>
      if w.flying.isSome then none
      else
        match forward_bound s.st (w.span.map Span.started_under) with
        | .error why => some (s.returns w (.error why))
        | .ok remote =>
          let sl : Slice :=
            ⟨s.st.generation, remote, w.timeout_seconds s.now, w.since, w.left s.now, s.now,
              s.bus.answers.length⟩
          (Waiting.step (who remote) w.request.kinds { s.bus with since := w.since }
            (.call scope focus names pending counts)).map fun bus =>
              { s with bus := bus, wait := some { w with slices := w.slices ++ [sl], flying := some sl } }
  | .answered =>
    match s.in_flight, s.bus.phase with
    | some (w, sl), .idle =>
      s.bus.answers[sl.asked]?.map fun a =>
        let w := { w with answers := w.answers ++ [a], flying := none }
        let c := structured_content a.result
        -- a request that was forwarded as it is has no time left
        if woke c || sl.left ≤ SERVER_WAIT_SLICE_SECS || w.host_ct then s.returns w (.ok a)
        else { s with wait := some { w with since := resumed c w.since } }
    | _, _ => none
  | .refused =>
    match s.in_flight, s.bus.phase with
    | some (w, sl), .idle =>
      if s.bus.answers.length = sl.asked then some (s.returns w (.error not_a_position)) else none
    | _, _ => none
  | .failed why => s.in_flight.map fun (w, _) => s.returns w (.error why)
  | .cancelled =>
    match s.in_flight with
    | some (w, sl) =>
      if s.st.generation ≠ sl.generation ∨ s.st.connected = none then
        some (s.returns w (.error (switched sl.generation)))
      else none
    | none => none
  | .host_cancels => s.wait.map fun w => { s with wait := some { w with host_ct := true } }
  | .host_cancelled =>
    match s.in_flight with
    | some (w, _) => if w.host_ct then some (s.returns w (.error cancelled_by_client)) else none
    | none => none

end Step

/-! ## Generations -/

/-- The window's connection is of one generation: another one has the next. -/
structure Holds (st st' : State) : Prop where
  generation : st.generation ≤ st'.generation
  remote : st'.generation = st.generation → ∀ c', st'.connected = some c' →
    ∃ c, st.connected = some c ∧ c.remote = c'.remote

theorem Holds.same {st st' : State} (hgeneration : st'.generation = st.generation)
    (hconnected : st'.connected = st.connected) : Holds st st' where
  generation := Nat.le_of_eq hgeneration.symm
  remote _ c' hc' := ⟨c', hconnected ▸ hc', rfl⟩

/-- The connection is gone, or is of the next generation. -/
theorem Holds.next {st st' : State} (hgeneration : st'.generation = st.generation + 1) : Holds st st' where
  generation := by omega
  remote heq := by omega

section Window

variable {session_for binding_path : String → String}

theorem ran_holds {net net' : World} {w w' : Window} {t : ℕ} {task : Proxy.Task} {o : Proxy.Outcome}
    (h : Ran session_for binding_path net w t task o net' w') : Holds w.st w'.st := by
  cases h with
  | committing m | adopted p session c hc | stranded p session why said c hc => exact Holds.next rfl
  | taking m old hold => exact ⟨Nat.le_refl _, fun _ c' hc' => absurd hc' (by simp [Window.sets])⟩
  | relabelled dir r hsame =>
    -- the connection is the same, and its project's directory another
    refine ⟨Nat.le_refl _, fun _ c' hc' => ?_⟩
    obtain ⟨c, hc, rfl⟩ := Option.map_eq_some_iff.mp hc'
    exact ⟨c, hc, rfl⟩
  | extended p expires_at c q hc hq hid hepoch =>
    refine ⟨Nat.le_refl _, fun _ c' hc' => ⟨c, hc, ?_⟩⟩
    obtain rfl := Option.some.inj hc'
    rfl
  | failed c why => cases c <;> exact Holds.same rfl rfl
  | _ => exact Holds.same rfl rfl

theorem window_holds {s t : Proxy.Sys} {e : Proxy.Event}
    (h : Proxy.step session_for binding_path s e = some t) : Holds s.window.st t.window.st := by
  rcases Proxy.step_did h with ⟨a, -, hacted⟩ | ⟨b, -, rfl⟩
  · obtain ⟨net, w⟩ := s
    obtain ⟨net', w'⟩ := t
    dsimp only at hacted ⊢
    cases hacted with
    | called w' hw =>
      obtain ⟨task, -, rfl⟩ := Proxy.begin_task hw
      exact Holds.same rfl rfl
    | ran task net' w' htask hran => exact ran_holds hran
    | unauthorized reason => exact Holds.same rfl rfl
  · exact Holds.same rfl rfl

end Window

/-! ## What a step does -/

section Steps

variable {session_for binding_path : String → String} {who : Remote → AuthCtx} {s t : Sys}

/-- What happens in a step. -/
inductive Did (session_for binding_path : String → String) (who : Remote → AuthCtx) (s : Sys) :
    Act → Sys → Prop
  | window (e : Proxy.Event) (proxy : Proxy.Sys)
      (hproxy : Proxy.step session_for binding_path s.proxy e = some proxy) :
      Did session_for binding_path who s (.window e) { s with proxy := proxy }
  | log (a : Waiting.Act) (bus : Waiting.Sys) (hfree : s.in_flight = none) (ha : of_log_act a = true)
      (hbus : Waiting.step others none s.bus a = some bus) :
      Did session_for binding_path who s (.bus a) { s with bus := bus }
  | served (w : Pending) (sl : Slice) (a : Waiting.Act) (bus : Waiting.Sys)
      (hflight : s.in_flight = some (w, sl)) (ha : of_bus a = true)
      (hbus : Waiting.step (who sl.remote) w.request.kinds s.bus a = some bus) :
      Did session_for binding_path who s (.bus a) { s with bus := bus }
  | passed (n : ℕ) : Did session_for binding_path who s (.pass n) { s with now := s.now + n }
  | began (r : Request) (hnone : s.wait = none) :
      Did session_for binding_path who s (.long_wait r)
        { s with wait := some ⟨r, r.span s.st.generation s.now, s.now, r.since, false, [], [], none⟩ }
  | unsent (w : Pending) (scope : Scope) (focus : Option Uuid) (names : Names) (pending : ℕ) (counts : Counts)
      (why : String) (hw : s.wait = some w) (hfree : w.flying = none)
      (hbound : forward_bound s.st (w.span.map Span.started_under) = .error why) :
      Did session_for binding_path who s (.slice scope focus names pending counts) (s.returns w (.error why))
  | sent (w : Pending) (remote : Remote) (scope : Scope) (focus : Option Uuid) (names : Names) (pending : ℕ)
      (counts : Counts) (bus : Waiting.Sys) (hw : s.wait = some w) (hfree : w.flying = none)
      (hbound : forward_bound s.st (w.span.map Span.started_under) = .ok remote)
      (hbus : Waiting.step (who remote) w.request.kinds { s.bus with since := w.since }
        (.call scope focus names pending counts) = some bus) (sl : Slice)
      (hsl : sl = ⟨s.st.generation, remote, w.timeout_seconds s.now, w.since, w.left s.now, s.now,
        s.bus.answers.length⟩) :
      Did session_for binding_path who s (.slice scope focus names pending counts)
        { s with bus := bus, wait := some { w with slices := w.slices ++ [sl], flying := some sl } }
  | answered (w : Pending) (sl : Slice) (a : Answer) (hflight : s.in_flight = some (w, sl))
      (hphase : s.bus.phase = .idle) (ha : s.bus.answers[sl.asked]? = some a) :
      Did session_for binding_path who s .answered
        (s.returns { w with answers := w.answers ++ [a], flying := none } (.ok a))
  | went_on (w : Pending) (sl : Slice) (a : Answer) (hflight : s.in_flight = some (w, sl))
      (hphase : s.bus.phase = .idle) (ha : s.bus.answers[sl.asked]? = some a)
      (hquiet : a.result.woke = false) (hleft : SERVER_WAIT_SLICE_SECS < sl.left) :
      Did session_for binding_path who s .answered
        { s with wait := some { w with
            answers := w.answers ++ [a]
            flying := none
            since := some a.result.resume_from } }
  | broke_off (a : Act) (w : Pending) (sl : Slice) (why : String) (hflight : s.in_flight = some (w, sl)) :
      Did session_for binding_path who s a (s.returns w (.error why))
  | host_cancelled (w : Pending) (hw : s.wait = some w) :
      Did session_for binding_path who s .host_cancels { s with wait := some { w with host_ct := true } }

theorem in_flight_iff {w : Pending} {sl : Slice} :
    s.in_flight = some (w, sl) ↔ s.wait = some w ∧ w.flying = some sl := by
  unfold Sys.in_flight
  constructor
  · intro h
    obtain ⟨w', hw, h⟩ := Option.bind_eq_some_iff.mp h
    obtain ⟨sl', hsl, h⟩ := Option.map_eq_some_iff.mp h
    obtain ⟨rfl, rfl⟩ := Prod.mk.inj h
    exact ⟨hw, hsl⟩
  · rintro ⟨hw, hsl⟩
    simp [hw, hsl]

/-- **The cases of a step.** -/
theorem step_did {a : Act} (h : step session_for binding_path who s a = some t) :
    Did session_for binding_path who s a t := by
  cases a with
  | window e =>
    obtain ⟨proxy, hproxy, rfl⟩ := Option.map_eq_some_iff.mp h
    exact .window e proxy hproxy
  | bus a =>
    simp only [step] at h
    split at h
    · rename_i w sl hflight
      obtain ⟨ha, h⟩ := Option.ite_none_right_eq_some.mp h
      obtain ⟨bus, hbus, rfl⟩ := Option.map_eq_some_iff.mp h
      exact .served w sl a bus hflight ha hbus
    · rename_i hfree
      obtain ⟨ha, h⟩ := Option.ite_none_right_eq_some.mp h
      obtain ⟨bus, hbus, rfl⟩ := Option.map_eq_some_iff.mp h
      exact .log a bus hfree ha hbus
  | pass n =>
    obtain rfl := Option.some.inj h
    exact .passed n
  | long_wait r =>
    simp only [step] at h
    split at h
    · cases h
    · rename_i hnone
      obtain rfl := Option.some.inj h
      exact .began r hnone
  | slice scope focus names pending counts =>
    simp only [step] at h
    split at h
    · cases h
    · rename_i w hw
      obtain ⟨hfree, h⟩ := Option.ite_none_left_eq_some.mp h
      have hfree : w.flying = none := by simpa using hfree
      split at h
      · rename_i why hbound
        obtain rfl := Option.some.inj h
        exact .unsent w scope focus names pending counts why hw hfree hbound
      · rename_i remote hbound
        obtain ⟨bus, hbus, rfl⟩ := Option.map_eq_some_iff.mp h
        exact .sent w remote scope focus names pending counts bus hw hfree hbound hbus _ rfl
  | answered =>
    simp only [step] at h
    split at h
    · rename_i w sl hflight hphase
      obtain ⟨a, ha, h⟩ := Option.map_eq_some_iff.mp h
      split at h
      · obtain rfl := h
        exact .answered w sl a hflight hphase ha
      · rename_i hon
        obtain rfl := h
        simp only [woke, structured_content, Option.bind_some, Option.getD_some, Bool.or_eq_true,
          decide_eq_true_eq, not_or, Bool.not_eq_true, Nat.not_le] at hon
        exact .went_on w sl a hflight hphase ha hon.1.1 hon.1.2
    · cases h
  | refused =>
    simp only [step] at h
    split at h
    · rename_i w sl hflight hphase
      obtain ⟨-, h⟩ := Option.ite_none_right_eq_some.mp h
      obtain rfl := Option.some.inj h
      exact .broke_off _ w sl _ hflight
    · cases h
  | failed why =>
    obtain ⟨⟨w, sl⟩, hflight, rfl⟩ := Option.map_eq_some_iff.mp h
    exact .broke_off _ w sl why hflight
  | cancelled | host_cancelled =>
    simp only [step] at h
    split at h
    · rename_i w sl hflight
      obtain ⟨-, h⟩ := Option.ite_none_right_eq_some.mp h
      obtain rfl := Option.some.inj h
      exact .broke_off _ w sl _ hflight
    · cases h
  | host_cancels =>
    obtain ⟨w, hw, rfl⟩ := Option.map_eq_some_iff.mp h
    exact .host_cancelled w hw

end Steps

end CrewSync.LongWait
