/-
The event listener of `events.rs`: `run_pg_listener` and the `ListenerHealth` it keeps for
`/health`.

A replica holds one LISTEN connection. At every tick it sends a ping through the pool, which
is another connection, and what it hears of its own pings is all it knows of the one it
listens on. Three things are told of that connection: the report says `live` only for one that
has been heard within three periods, `attachments` counts the connections, and a connection is
given up when, and only when, it does not deliver.

They hold as long as the driver does not replace the connection by itself and a replica that
cannot send its pings does not take that for a deaf connection (`listener_told`): `try_recv`
returning `None` resets nothing, and `unanswered` counts the pings that never went out.

The clock is the one the code reads, in whole seconds; a `Duration` is in nanoseconds. The
fields of a health report are read at one moment. Cancelling ends the loop and is not a step.
-/
import CrewSync.Runs
import CrewSync.SessionStart

set_option autoImplicit false

namespace CrewSync.Listener

open Runs SessionStart

/-! ## What the listener knows about itself -/

/-- Nanoseconds of a second. -/
def SEC : ℕ := 1000000000

/-- `DEFAULT_PING_SECS`. -/
def DEFAULT_PING_SECS : ℕ := 30

/-- `MISSED_ECHOES`. -/
def MISSED_ECHOES : ℕ := 3

/-- `ListenerHealth`. -/
structure ListenerHealth where
  ping_every : ℕ
  attached : Bool
  last_echo : ℤ
  attachments : ℕ
  echoes : ℕ
  deriving DecidableEq

/-- What `/health` shows as `listener`. -/
inductive Status
  | detached
  | live
  | silent
  deriving DecidableEq

/-- The object of `ListenerHealth::report`. -/
structure Report where
  listener : Status
  last_echo_seconds : Option ℤ
  attachments : ℕ
  echoes : ℕ
  ping_seconds : ℕ
  deriving DecidableEq

/-- A `u64` cast to `i64`. -/
def as_i64 (n : ℕ) : ℤ := if n < 9223372036854775808 then n else n - 18446744073709551616

namespace ListenerHealth

/-- `ListenerHealth::new`. -/
def new (ping_every : ℕ) : ListenerHealth := ⟨ping_every, false, 0, 0, 0⟩

/-- `ListenerHealth::stale_after`. -/
def stale_after (h : ListenerHealth) : ℕ := h.ping_every * MISSED_ECHOES

/-- `ListenerHealth::attached_now`. -/
def attached_now (h : ListenerHealth) : ListenerHealth :=
  { h with last_echo := 0, attached := true, attachments := h.attachments + 1 }

/-- `ListenerHealth::echoed`. -/
def echoed (h : ListenerHealth) (unix_now : ℤ) : ListenerHealth :=
  { h with last_echo := unix_now, echoes := h.echoes + 1 }

/-- `ListenerHealth::detached`. -/
def detached (h : ListenerHealth) : ListenerHealth := { h with attached := false }

/-- `ListenerHealth::report`. -/
def report (h : ListenerHealth) (unix_now : ℤ) : Report :=
  let age := if 0 < h.last_echo then some (unix_now - h.last_echo) else none
  let listener :=
    if !h.attached then .detached
    else if age.any fun a => a ≤ as_i64 (h.stale_after / SEC) then .live
    else .silent
  ⟨listener, age.filter fun _ => h.attached, h.attachments, h.echoes, h.ping_every / SEC⟩

/-- `ListenerHealth::is_live`. -/
def is_live (h : ListenerHealth) (unix_now : ℤ) : Bool := (h.report unix_now).listener == .live

end ListenerHealth

/-- `EventHub::with_ping`, as far as the listener goes: the period is at least a second. -/
def with_ping (ping_every : ℕ) : ListenerHealth := .new (max ping_every SEC)

/-! ## Notifications -/

/-- `BusEvent::kind`. -/
def kind (event : Value) : String := ((event.get "kind").as_str).getD ""

/-- The ping `replica` sends. -/
def ping (replica : String) : Value :=
  .object [("kind", .string "ping"), ("replica", .string replica)]

/-- What a notification says to the loop. -/
inductive Heard
  | own
  | foreign
  | event (value : Value)
  | unparseable

/-- The notification's payload, read by `serde_json::from_str`. -/
def hear (replica : String) : Option Value → Heard
  | none => .unparseable
  | some value =>
    if kind value = "ping" then
      if (value.get "replica").as_str = some replica then .own else .foreign
    else .event value

/-- A replica knows its own pings by their text, and takes no other replica's for its own. -/
theorem hear_ping (replica other : String) :
    hear replica (some (ping other)) = if other = replica then .own else .foreign := by
  have hkind : kind (ping other) = "ping" := rfl
  have hreplica : ((ping other).get "replica").as_str = some other := rfl
  unfold hear
  simp only [hkind, hreplica, if_true, Option.some.injEq]

/-! ## The loop -/

/-- A LISTEN connection, as it is: the pings sent on its watch that have not come back, the
ticks since it was established or last delivered an own ping, when that was, and the pings in a
row, since then, that could not be sent. -/
structure Conn where
  out : ℕ := 0
  ticks : ℕ := 0
  heard : Option ℤ := none
  unsent : ℕ := 0
  deriving DecidableEq

/-- `health`, `unanswered` and what was published are the program's; the clock, the connection
in use and the number of connections established are the world's. -/
structure State where
  replica : String
  health : ListenerHealth
  unanswered : ℕ
  published : List Value
  clock : ℤ
  connection : Option Conn
  established : ℕ

/-- A replica that starts. -/
def init (replica : String) (ping_every : ℕ) (clock : ℤ) : State :=
  ⟨replica, with_ping ping_every, 0, [], clock, none, 0⟩

inductive Action
  /-- The clock is read as this from here on. -/
  | clock (now : ℤ)
  /-- `connect_with` or `listen` fails. -/
  | refused
  /-- Both succeed. -/
  | attach
  /-- `ticker.tick()`; the ping, if there is one, goes out or does not. -/
  | tick (sent : Bool)
  /-- `Ok(Some(notification))`. An own ping may be `late`: sent before this connection was. -/
  | recv (payload : Option Value) (late : Bool)
  /-- `Ok(None)`: the driver has replaced the connection. -/
  | reconnected
  /-- `Err(e)`. -/
  | error

/-- The inner loop is left: the listener is dropped. -/
def State.leave (s : State) : State :=
  { s with health := s.health.detached, connection := none }

/-- An own ping is heard. -/
def State.echo (s : State) (c : Conn) (late : Bool) : State :=
  { s with
    unanswered := 0
    health := s.health.echoed s.clock
    connection := some { out := if late then c.out else c.out - 1, heard := some s.clock } }

/-- `ticker.tick()`. Whether the ping could be sent is logged, and nothing else. -/
def State.tick (s : State) (c : Conn) (sent : Bool) : State :=
  if MISSED_ECHOES ≤ s.unanswered then s.leave
  else { s with
    unanswered := s.unanswered + 1
    connection := some { c with
      out := if sent then c.out + 1 else c.out
      ticks := c.ticks + 1
      unsent := if sent then 0 else c.unsent + 1 } }

/-- One step of the loop, in the world it runs in. -/
def step (s : State) (a : Action) : Option State :=
  match a, s.connection with
  | .clock now, _ => some { s with clock := now }
  | .refused, none => some s
  | .attach, none => some { s with
      health := s.health.attached_now
      unanswered := 0
      connection := some {}
      established := s.established + 1 }
  | .tick sent, some c => some (s.tick c sent)
  | .recv payload late, some c =>
    match hear s.replica payload with
    | .own => if late ∨ 0 < c.out then some (s.echo c late) else none
    | .foreign => some s
    | .event value => some { s with published := s.published ++ [value] }
    | .unparseable => some s
  | .reconnected, some _ => some { s with connection := some {}, established := s.established + 1 }
  | .error, some _ => some s.leave
  | _, _ => none

/-- What a step can do. -/
inductive Moved (s : State) : Action → State → Prop
  | clock (now : ℤ) : Moved s (.clock now) { s with clock := now }
  | refused (hc : s.connection = none) : Moved s .refused s
  | attach (hc : s.connection = none) : Moved s .attach { s with
      health := s.health.attached_now
      unanswered := 0
      connection := some {}
      established := s.established + 1 }
  | deaf {c : Conn} (sent : Bool) (hc : s.connection = some c) (hu : MISSED_ECHOES ≤ s.unanswered) :
      Moved s (.tick sent) s.leave
  | pinged {c : Conn} (sent : Bool) (hc : s.connection = some c) (hu : s.unanswered < MISSED_ECHOES) :
      Moved s (.tick sent) { s with
        unanswered := s.unanswered + 1
        connection := some { c with
          out := if sent then c.out + 1 else c.out
          ticks := c.ticks + 1
          unsent := if sent then 0 else c.unsent + 1 } }
  | own {c : Conn} (payload : Option Value) (late : Bool) (hc : s.connection = some c)
      (hown : hear s.replica payload = .own) (hout : late ∨ 0 < c.out) :
      Moved s (.recv payload late) (s.echo c late)
  | other (payload : Option Value) (late : Bool) (events : List Value) :
      Moved s (.recv payload late) { s with published := s.published ++ events }
  | reconnected {c : Conn} (hc : s.connection = some c) :
      Moved s .reconnected { s with connection := some {}, established := s.established + 1 }
  | error {c : Conn} (hc : s.connection = some c) : Moved s .error s.leave

variable {s t : State} {a : Action}

/-- A foreign ping and what cannot be parsed leave everything as it is. -/
theorem Moved.same (payload : Option Value) (late : Bool) : Moved s (.recv payload late) s := by
  have h : Moved s (.recv payload late) { s with published := s.published ++ [] } := .other payload late []
  rwa [List.append_nil] at h

theorem moved_of_step (h : step s a = some t) : Moved s a t := by
  unfold step at h
  split at h
  case h_1 now => cases h; exact .clock now
  case h_2 hc => cases h; exact .refused hc
  case h_3 hc => cases h; exact .attach hc
  case h_4 sent c hc =>
    cases h
    unfold State.tick
    split
    · rename_i hu
      exact .deaf sent hc hu
    · rename_i hu
      exact .pinged sent hc (by omega)
  case h_5 payload late c hc =>
    cases hheard : hear s.replica payload with
    | own =>
      rw [hheard] at h
      obtain ⟨hout, h⟩ := Option.ite_none_right_eq_some.mp h
      cases h
      exact .own payload late hc hheard hout
    | foreign | unparseable =>
      rw [hheard] at h
      cases h
      exact .same payload late
    | event value =>
      rw [hheard] at h
      cases h
      exact .other payload late [value]
  case h_6 c hc => cases h; exact .reconnected hc
  case h_7 c hc => cases h; exact .error hc
  case h_8 => cases h

/-! ## What is told of the connection -/

/-- In every state: `live` is said only of a connection that was heard within the deadline, no
connection goes uncounted, and one that delivers nothing has at most one tick left. -/
structure Told (s : State) : Prop where
  live : s.health.is_live s.clock = true → ∃ c heard, s.connection = some c ∧ c.heard = some heard ∧
    (s.clock - heard) * SEC ≤ s.health.ping_every * MISSED_ECHOES
  attachments : s.health.attachments = s.established
  ticks : ∀ c, s.connection = some c → c.ticks ≤ MISSED_ECHOES

/-- And in every step: a connection dropped at a tick owes a ping. -/
def Law (e : Trans State Action) : Prop :=
  Told e.post ∧ ∀ sent c, e.act = .tick sent → e.pre.connection = some c → e.post.connection = none →
    0 < c.out

/-- The driver does not replace the connection; where three pings in a row could not be sent, a
tick comes only while an earlier one is still out. -/
def Sound (s : State) : Action → Prop
  | .reconnected => False
  | .tick _ => ∀ c, s.connection = some c → c.unsent = MISSED_ECHOES → 0 < c.out
  | _ => True

instance (s : State) (a : Action) : Decidable (Sound s a) :=
  match a with
  | .reconnected => inferInstanceAs (Decidable False)
  | .tick _ => inferInstanceAs (Decidable (∀ c ∈ s.connection, c.unsent = MISSED_ECHOES → 0 < c.out))
  | .clock _ | .refused | .attach | .recv _ _ | .error => inferInstanceAs (Decidable True)

/-! ## What the loop knows of its connection -/

/-- `unanswered` is the ticks since the last echo, all of which were pings that could not be
sent where no ping is out. -/
structure Watched (s : State) (c : Conn) : Prop where
  attached : s.health.attached = true
  echo : s.health.last_echo = c.heard.getD 0
  ticks : c.ticks = s.unanswered
  bound : s.unanswered ≤ MISSED_ECHOES
  unsent : c.unsent ≤ s.unanswered
  owed : c.out = 0 → c.unsent = s.unanswered

structure Inv (s : State) : Prop where
  attachments : s.health.attachments = s.established
  idle : s.connection = none → s.health.attached = false
  watched : ∀ c, s.connection = some c → Watched s c

theorem inv_init (replica : String) (ping_every : ℕ) (clock : ℤ) : Inv (init replica ping_every clock) :=
  ⟨rfl, fun _ => rfl, fun _ h => nomatch h⟩

/-- A connection just established. -/
theorem Watched.fresh : Watched { s with
    health := s.health.attached_now
    unanswered := 0
    connection := some {}
    established := s.established + 1 } {} where
  attached := rfl
  echo := rfl
  ticks := rfl
  bound := Nat.zero_le _
  unsent := Nat.le_refl _
  owed := fun _ => rfl

theorem Watched.echo_of (c : Conn) (late : Bool) (h : Watched s c) :
    Watched (s.echo c late) { out := if late then c.out else c.out - 1, heard := some s.clock } where
  attached := h.attached
  echo := rfl
  ticks := rfl
  bound := Nat.zero_le _
  unsent := Nat.le_refl _
  owed := fun _ => rfl

theorem Watched.pinged {c : Conn} (h : Watched s c) (sent : Bool) (hu : s.unanswered < MISSED_ECHOES) :
    Watched { s with
      unanswered := s.unanswered + 1
      connection := some { c with
        out := if sent then c.out + 1 else c.out
        ticks := c.ticks + 1
        unsent := if sent then 0 else c.unsent + 1 } }
      { c with
        out := if sent then c.out + 1 else c.out
        ticks := c.ticks + 1
        unsent := if sent then 0 else c.unsent + 1 } where
  attached := h.attached
  echo := h.echo
  ticks := congrArg (· + 1) h.ticks
  bound := hu
  unsent := by
    cases sent with
    | true => exact Nat.zero_le _
    | false => exact Nat.succ_le_succ h.unsent
  owed := by
    intro hout
    cases sent with
    | true => exact absurd hout (Nat.succ_ne_zero _)
    | false => exact congrArg (· + 1) (h.owed hout)

theorem Inv.leave (h : Inv s) : Inv s.leave :=
  ⟨h.attachments, fun _ => rfl, fun _ hc => nomatch hc⟩

/-- One connection, watched. -/
theorem inv_of_watched {c : Conn} (hatt : s.health.attachments = s.established)
    (hc : s.connection = some c) (hw : Watched s c) : Inv s where
  attachments := hatt
  idle := fun h => absurd (hc.symm.trans h) (Option.some_ne_none c)
  watched := by
    intro c' hc'
    cases hc.symm.trans hc'
    exact hw

/-- **Step.** A sound step keeps what the loop knows of its connection. -/
theorem Inv.moved (h : Inv s) (hm : Moved s a t) (hs : Sound s a) : Inv t := by
  cases hm with
  | clock now | other payload late events =>
    exact ⟨h.attachments, h.idle, fun c hc => { h.watched c hc with }⟩
  | refused => exact h
  | attach => exact inv_of_watched (congrArg (· + 1) h.attachments) rfl .fresh
  | deaf | error => exact h.leave
  | pinged sent hc hu => exact inv_of_watched h.attachments rfl ((h.watched _ hc).pinged sent hu)
  | own payload late hc => exact inv_of_watched h.attachments rfl ((h.watched _ hc).echo_of _ late)
  | reconnected => exact hs.elim

/-! ## Live, silent, deaf -/

/-- The cast does not make a deadline longer. -/
theorem as_i64_le (n : ℕ) : as_i64 n ≤ n := by
  unfold as_i64
  split <;> omega

/-- `live` is what the report says of an attached listener that heard itself in time. -/
theorem ListenerHealth.is_live_iff {h : ListenerHealth} {now : ℤ} :
    h.is_live now = true ↔
      h.attached = true ∧ 0 < h.last_echo ∧ now - h.last_echo ≤ as_i64 (h.stale_after / SEC) := by
  unfold ListenerHealth.is_live ListenerHealth.report
  by_cases hatt : h.attached = true
  · by_cases hecho : 0 < h.last_echo
    · by_cases hage : now - h.last_echo ≤ as_i64 (h.stale_after / SEC)
      · simp [hatt, hecho, hage]
      · simp [hatt, hecho, hage]
    · simp [hatt, hecho]
  · simp [hatt]

/-- Whole seconds within the deadline's whole seconds are within the deadline. -/
theorem within_deadline {d : ℤ} {ping_every : ℕ} (h : d ≤ as_i64 (ping_every * MISSED_ECHOES / SEC)) :
    d * SEC ≤ ping_every * MISSED_ECHOES := by
  have hcast := as_i64_le (ping_every * MISSED_ECHOES / SEC)
  have hdiv : ping_every * MISSED_ECHOES / SEC * SEC ≤ ping_every * MISSED_ECHOES := Nat.div_mul_le_self _ _
  calc d * SEC ≤ (ping_every * MISSED_ECHOES / SEC : ℕ) * SEC :=
        Int.mul_le_mul_of_nonneg_right (Int.le_trans h hcast) (Int.natCast_nonneg _)
    _ ≤ ping_every * MISSED_ECHOES := by exact_mod_cast hdiv

/-- What the loop knows is enough for what is told. -/
theorem Inv.told (h : Inv s) : Told s where
  live := by
    intro hlive
    obtain ⟨hatt, hecho, hage⟩ := ListenerHealth.is_live_iff.mp hlive
    cases hc : s.connection with
    | none => rw [h.idle hc] at hatt; cases hatt
    | some c =>
      have hw := h.watched c hc
      cases hheard : c.heard with
      | none =>
        rw [hw.echo, hheard] at hecho
        exact absurd hecho (Int.lt_irrefl 0)
      | some heard =>
        have hlast : s.health.last_echo = heard := by rw [hw.echo, hheard, Option.getD_some]
        rw [hlast] at hage
        exact ⟨c, heard, rfl, hheard, within_deadline hage⟩
  attachments := h.attachments
  ticks := by
    intro c hc
    have hw := h.watched c hc
    rw [hw.ticks]
    exact hw.bound

/-- **Step.** The law holds of a step exactly when the step is sound. -/
theorem law_iff (h : Inv s) (hm : Moved s a t) : Sound s a ↔ Law ⟨s, a, t⟩ := by
  constructor
  · intro hs
    refine ⟨(h.moved hm hs).told, ?_⟩
    intro sent c ha hc ht
    cases hm with
    | deaf sent' hc' hu =>
      -- the counter has run out: all three were pings that could not be sent, or one is out
      have hw := h.watched c hc
      rcases Nat.eq_zero_or_pos c.out with hout | hout
      · exact hs c hc (by rw [hw.owed hout]; exact Nat.le_antisymm hw.bound hu)
      · exact hout
    | pinged => cases ht
    | _ => cases ha
  · intro hlaw
    cases hm with
    | deaf sent hc hu =>
      intro c' hc' _
      exact hlaw.2 sent c' rfl hc' rfl
    | pinged sent hc hu =>
      intro c' hc' hunsent
      have := (h.watched c' hc').unsent
      omega
    | reconnected hc =>
      have hmore : s.health.attachments = s.established + 1 := hlaw.1.attachments
      have := h.attachments
      omega
    | _ => trivial

/-- **What is told of the listener.** In every run it is true at every step exactly when the
driver never replaces the connection and no tick follows three pings that could not be sent
while no earlier one is out. -/
theorem listener_told (replica : String) (ping_every : ℕ) (clock : ℤ) {tr : List (Trans State Action)} {s : State}
    (h : Run (Runs.Rel step) (init replica ping_every clock) tr s) :
    (∀ e ∈ tr, Sound e.pre e.act) ↔ ∀ e ∈ tr, Law e := by
  apply h.forall_iff (inv_init replica ping_every clock)
  · intro s a t hs hc hr
    exact hs.moved (moved_of_step hr) hc
  · intro s a t hs hr
    exact law_iff hs (moved_of_step hr)

/-- A replica that attaches with a period of thirty seconds, at second 1000 of the clock. -/
def first : State := init "a" (DEFAULT_PING_SECS * SEC) 1000

/-- An echo, three pings that stay out with another replica's between them, and a new
connection. -/
def deaf_run : List Action :=
  [.attach, .tick true, .recv (some (ping "a")) false, .tick false, .tick true, .recv (some (ping "b")) false,
    .tick true, .clock 1090, .tick true, .refused, .attach]

theorem listener_told_deaf :
    (∃ e ∈ ((exec step first deaf_run).get (by decide)).1, e.post.health.is_live e.post.clock = true) ∧
    ∀ e ∈ ((exec step first deaf_run).get (by decide)).1, Law e := by
  refine ⟨by decide, ?_⟩
  apply (listener_told "a" (DEFAULT_PING_SECS * SEC) 1000 (exec_get (by decide))).mp
  decide

/-- The connection is replaced after its first echo. -/
def replaced_run : List Action := [.attach, .tick true, .recv (some (ping "a")) false, .reconnected]

/-- The pool cannot send. -/
def unsent_run : List Action := [.attach, .tick false, .tick false, .tick false, .tick false]

/-- The new connection has heard nothing and is called live, and it is not counted; the other
one is dropped as deaf without one ping sent that it could have delivered. -/
theorem listener_misled :
    (¬∀ (replica : String) (ping_every : ℕ) (clock : ℤ) (tr : List (Trans State Action)) (s : State),
      Run (Runs.Rel step) (init replica ping_every clock) tr s → ∀ e ∈ tr, Law e) ∧
    ((exec step first replaced_run).map fun p =>
      (p.2.health.is_live p.2.clock, p.2.connection, p.2.health.attachments, p.2.established)) =
        some (true, some {}, 1, 2) ∧
    ((exec step first unsent_run).map fun p =>
      (p.1.getLast?.map fun e => (e.pre.connection.map Conn.out, e.post.connection))) =
        some (some (some 0, none)) := by
  refine ⟨fun h => ?_, by decide, by decide⟩
  have hlaw := h "a" (DEFAULT_PING_SECS * SEC) 1000 _ _ (@exec_get _ _ step first replaced_run (by decide))
  have hcount : ∃ e ∈ ((exec step first replaced_run).get (by decide)).1,
      e.post.health.attachments ≠ e.post.established := by decide
  obtain ⟨e, he, hne⟩ := hcount
  exact hne (hlaw e he).1.attachments

end CrewSync.Listener
