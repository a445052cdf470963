/-
`Attention`, `ToolTurn` and `keepalive` of `proxy.rs`: what a window tells the bus about its
model's turn.

The host's tool calls are counted while they run, and the last one that the bus has not heard
of is kept with its time. One task, `keepalive`, reports: at a notification, when a timer for
what the throttle deferred fires, and every five minutes. It does one thing at a time and goes
round, and computes the timer when it comes round. Calls start and end at any moment beside it,
and each of them leaves a notification.

What a report says is right when it is built, and an accepted report clears nothing newer than
itself. What can get lost is a call whose report the bus refused. The timer counts from the
last report that was accepted, whatever it said: there is none while nothing was ever accepted,
and after a wait it counts although the throttle does not hold a turn that is working again.
So a call is always due in time exactly where every refusal finds an `attending` that was
accepted, or some other reason to come back (`Retried`).

Times are nanoseconds. `turns` are the calls in flight, and `built` keeps every request with
the calls in flight when it was built. Left out: when the credential is renewed, which may be at
any time here, and cancellation.
-/
import Mathlib.Data.List.Basic
import CrewSync.Runs

set_option autoImplicit false

namespace CrewSync.Turns

open Runs

/-- `KEEPALIVE_EVERY`. -/
def KEEPALIVE_EVERY : ℕ := 300000000000

/-- `ATTENTION_REPORT_EVERY`. -/
def ATTENTION_REPORT_EVERY : ℕ := 15000000000

/-- `FLUSH_RETRY`. -/
def FLUSH_RETRY : ℕ := 2000000000

/-- `WAITING_TOOLS`. -/
def WAITING_TOOLS : List String := ["wait_for_updates", "ask_agent"]

/-! ## `Attention` -/

/-- `"attending"` and `"waiting"`. -/
inductive TurnState
  | attending
  | waiting
  deriving DecidableEq, Repr

/-- `AttentionReport`. -/
structure AttentionReport where
  state : TurnState
  call : Option ℕ
  deriving DecidableEq, Repr

/-- The arguments of a heartbeat, as far as this file fills them. -/
structure Fields where
  refresh_only : Bool
  attention : Option TurnState
  tool_activity : Option Bool
  attention_observed_ms_ago : Option ℕ
  deriving DecidableEq, Repr

/-- `AttentionReport::fields`. -/
def AttentionReport.fields (report : AttentionReport) (now : ℕ) : Fields where
  refresh_only := true
  attention := some report.state
  tool_activity := some report.call.isSome
  attention_observed_ms_ago :=
    if report.state = .attending then report.call.map fun at_ => (now - at_) / 1000000 else none

/-- What `refresh_presence` sends when nothing is due. -/
def Fields.plain : Fields := ⟨true, none, none, none⟩

/-- `Attention`. -/
structure Attention where
  calls : ℕ
  waits : ℕ
  unreported_call : Option ℕ
  reported : Option (TurnState × ℕ)
  deriving DecidableEq, Repr

/-- `Attention::default`. -/
def Attention.default : Attention := ⟨0, 0, none, none⟩

/-- The call is recent at this time. -/
def recent (now at_ : ℕ) : Prop := now - at_ < ATTENTION_REPORT_EVERY * 2

instance (now at_ : ℕ) : Decidable (recent now at_) := by unfold recent; infer_instance

/-- The first step of `due`: a stale call is dropped where none is in flight. -/
def Attention.fresh (a : Attention) (now : ℕ) : Attention :=
  if (∃ at_ ∈ a.unreported_call, ¬recent now at_) ∧ a.calls = 0 then
    { a with unreported_call := none }
  else a

/-- The state is not what was reported last. -/
def Attention.changed (a : Attention) (state : TurnState) : Prop := ∀ r ∈ a.reported, r.1 ≠ state

instance (a : Attention) (state : TurnState) : Decidable (a.changed state) := by
  unfold Attention.changed; infer_instance

/-- The last report is old enough for another one. -/
def Attention.old (a : Attention) (now : ℕ) : Prop :=
  ∀ r ∈ a.reported, ATTENTION_REPORT_EVERY ≤ now - r.2

instance (a : Attention) (now : ℕ) : Decidable (a.old now) := by
  unfold Attention.old; infer_instance

/-- The report that `due` answers, once a stale call is dropped. -/
def Attention.report (a : Attention) (refresh : Bool) (now : ℕ) : Option AttentionReport :=
  if 0 < a.waits then
    if a.changed .waiting ∨ refresh = true then some ⟨.waiting, a.unreported_call⟩ else none
  else match a.unreported_call with
    | some call =>
      if a.changed .attending ∨ a.old now ∨ (refresh = true ∧ 0 < a.calls) then
        some ⟨.attending, some call⟩
      else none
    | none => if refresh = true ∧ 0 < a.calls then some ⟨.attending, none⟩ else none

/-- `Attention::due`. -/
def Attention.due (a : Attention) (refresh : Bool) (now : ℕ) : Option AttentionReport × Attention :=
  ((a.fresh now).report refresh now, a.fresh now)

/-- `Attention::flush_at`. -/
def Attention.flush_at (a : Attention) : Option ℕ :=
  if 0 < a.waits then none
  else match a.unreported_call with
    | none => none
    | some _ => a.reported.map fun r => r.2 + ATTENTION_REPORT_EVERY

/-- `Attention::sent`. -/
def Attention.sent (a : Attention) (report : AttentionReport) (now : ℕ) : Attention :=
  { a with
    reported := some (report.state, now)
    unreported_call :=
      if a.unreported_call.isSome = true ∧ a.unreported_call = report.call then none
      else a.unreported_call }

/-- What an accepted heartbeat commits. -/
def Attention.commit (a : Attention) (due : Option AttentionReport) (now : ℕ) : Attention :=
  match due with
  | some report => a.sent report now
  | none => a

/-- `ToolTurn`. -/
structure ToolTurn where
  waits : Bool
  deriving DecidableEq, Repr

/-- What `ToolTurn::enter` does to the counts. -/
def Attention.enter (a : Attention) (turn : ToolTurn) (now : ℕ) : Attention :=
  { a with
    calls := a.calls + 1
    waits := a.waits + turn.waits.toNat
    unreported_call := some now }

/-- What dropping a `ToolTurn` does to the counts. -/
def Attention.leave (a : Attention) (turn : ToolTurn) (now : ℕ) : Attention :=
  { a with
    calls := a.calls - 1
    waits := if turn.waits = true then a.waits - 1 else a.waits
    unreported_call := if turn.waits = true then some now else a.unreported_call }

/-! ## `keepalive` -/

/-- Where `keepalive` is: coming round, waiting with this timer, awaiting the bus's answer to
a heartbeat, with what it reports and when it was built, or renewing the credential. -/
inductive Phase
  | round
  | waiting (flush_at : Option ℕ)
  | sending (refresh : Bool) (due : Option AttentionReport) (built_at : ℕ)
  | renewing
  deriving DecidableEq, Repr

/-- A request, when it was built and what was in flight then. -/
structure Built where
  fields : Fields
  built_at : ℕ
  turns : List ToolTurn
  deriving DecidableEq, Repr

/-- A window. -/
structure State where
  now : ℕ
  turns : List ToolTurn
  attention : Attention
  attention_changed : Bool
  next_heartbeat : ℕ
  last_flush : ℕ
  phase : Phase
  built : List Built
  deriving DecidableEq, Repr

inductive Action
  | pass (d : ℕ)
  | enter (tool : String)
  | leave (turn : ToolTurn)
  | come_round
  | wake
  | heartbeat
  | changed
  | flush
  | renew
  | renewed
  | accepted
  | refused
  deriving DecidableEq, Repr

def init (start : ℕ) : State where
  now := start
  turns := []
  attention := .default
  attention_changed := false
  next_heartbeat := start + KEEPALIVE_EVERY
  last_flush := start - FLUSH_RETRY
  phase := .round
  built := []

/-- The timer as the loop computes it. -/
def State.timer (s : State) : Option ℕ :=
  s.attention.flush_at.map fun at_ => max at_ (s.last_flush + FLUSH_RETRY)

/-- The heartbeat `refresh_presence` sends. -/
def State.refresh_presence (s : State) : State :=
  let (due, attention) := s.attention.due true s.now
  { s with
    attention := attention
    phase := .sending true due s.now
    built := s.built ++
      [⟨(due.map fun report => report.fields s.now).getD Fields.plain, s.now, s.turns⟩] }

/-- The heartbeat `report_attention` sends, if anything is due. -/
def State.report_attention (s : State) : State :=
  let (due, attention) := s.attention.due false s.now
  match due with
  | none => { s with attention := attention, phase := .round }
  | some report =>
    { s with
      attention := attention
      phase := .sending false (some report) s.now
      built := s.built ++ [⟨report.fields s.now, s.now, s.turns⟩] }

/-- The loop goes on behind a heartbeat, which set the next one if it was a refresh. -/
def State.answered (s : State) (refresh : Bool) : State :=
  { s with
    phase := .round
    next_heartbeat := if refresh = true then s.now + KEEPALIVE_EVERY else s.next_heartbeat }

def step (s : State) : Action → Option State
  | .pass d => some { s with now := s.now + d }
  | .enter tool =>
    let turn : ToolTurn := ⟨WAITING_TOOLS.contains tool⟩
    some { s with
      turns := turn :: s.turns
      attention := s.attention.enter turn s.now
      attention_changed := true }
  | .leave turn =>
    if turn ∈ s.turns then
      some { s with
        turns := s.turns.erase turn
        attention := s.attention.leave turn s.now
        attention_changed := true }
    else none
  | .come_round =>
    match s.phase with
    | .round => some { s with phase := .waiting s.timer }
    | _ => none
  | .wake =>
    match s.phase with
    | .waiting _ => some { s with phase := .round }
    | _ => none
  | .heartbeat =>
    match s.phase with
    | .waiting _ => if s.next_heartbeat ≤ s.now then some s.refresh_presence else none
    | _ => none
  | .changed =>
    match s.phase with
    | .waiting _ =>
      if s.attention_changed = true then
        some { s with attention_changed := false }.report_attention
      else none
    | _ => none
  | .flush =>
    match s.phase with
    | .waiting (some flush_at) =>
      if flush_at ≤ s.now then some { s with last_flush := s.now }.report_attention else none
    | _ => none
  | .renew =>
    match s.phase with
    | .waiting _ => some { s with phase := .renewing }
    | _ => none
  | .renewed =>
    match s.phase with
    | .renewing => some { s with phase := .round }
    | _ => none
  | .accepted =>
    match s.phase with
    | .sending refresh due _ =>
      some ({ s with attention := s.attention.commit due s.now }.answered refresh)
    | _ => none
  | .refused =>
    match s.phase with
    | .sending refresh _ _ => some (s.answered refresh)
    | _ => none

/-! ## Steps -/

/-- Everything a step can do. -/
inductive Moved (s : State) : Action → State → Prop
  | pass (d : ℕ) : Moved s (.pass d) { s with now := s.now + d }
  | enter (tool : String) : Moved s (.enter tool) { s with
      turns := ⟨WAITING_TOOLS.contains tool⟩ :: s.turns
      attention := s.attention.enter ⟨WAITING_TOOLS.contains tool⟩ s.now
      attention_changed := true }
  | leave {turn : ToolTurn} (hturn : turn ∈ s.turns) : Moved s (.leave turn) { s with
      turns := s.turns.erase turn
      attention := s.attention.leave turn s.now
      attention_changed := true }
  | come_round (hphase : s.phase = .round) : Moved s .come_round { s with phase := .waiting s.timer }
  | wake {flush_at : Option ℕ} (hphase : s.phase = .waiting flush_at) :
      Moved s .wake { s with phase := .round }
  | heartbeat {flush_at : Option ℕ} (hphase : s.phase = .waiting flush_at)
      (hdue : s.next_heartbeat ≤ s.now) : Moved s .heartbeat s.refresh_presence
  | changed {flush_at : Option ℕ} (hphase : s.phase = .waiting flush_at)
      (hchanged : s.attention_changed = true) :
      Moved s .changed { s with attention_changed := false }.report_attention
  | flush {flush_at : ℕ} (hphase : s.phase = .waiting (some flush_at)) (hdue : flush_at ≤ s.now) :
      Moved s .flush { s with last_flush := s.now }.report_attention
  | renew {flush_at : Option ℕ} (hphase : s.phase = .waiting flush_at) :
      Moved s .renew { s with phase := .renewing }
  | renewed (hphase : s.phase = .renewing) : Moved s .renewed { s with phase := .round }
  | accepted {refresh : Bool} {due : Option AttentionReport} {built_at : ℕ}
      (hphase : s.phase = .sending refresh due built_at) :
      Moved s .accepted ({ s with attention := s.attention.commit due s.now }.answered refresh)
  | refused {refresh : Bool} {due : Option AttentionReport} {built_at : ℕ}
      (hphase : s.phase = .sending refresh due built_at) : Moved s .refused (s.answered refresh)

variable {act : Action} {due : Option AttentionReport} {built_at : ℕ}

theorem step_cases {s t : State} (h : step s act = some t) : Moved s act t := by
  cases act with
  | pass d => cases h; exact .pass d
  | enter tool => cases h; exact .enter tool
  | leave turn =>
    simp only [step] at h
    split at h
    · cases h; exact .leave ‹_›
    · cases h
  | come_round =>
    simp only [step] at h
    split at h
    · cases h; exact .come_round ‹_›
    · cases h
  | wake =>
    simp only [step] at h
    split at h
    · cases h; exact .wake ‹_›
    · cases h
  | heartbeat =>
    simp only [step] at h
    split at h
    · split at h
      · cases h; exact .heartbeat ‹_› ‹_›
      · cases h
    · cases h
  | changed =>
    simp only [step] at h
    split at h
    · split at h
      · cases h; exact .changed ‹_› ‹_›
      · cases h
    · cases h
  | flush =>
    simp only [step] at h
    split at h
    · split at h
      · cases h; exact .flush ‹_› ‹_›
      · cases h
    · cases h
  | renew =>
    simp only [step] at h
    split at h
    · cases h; exact .renew ‹_›
    · cases h
  | renewed =>
    simp only [step] at h
    split at h
    · cases h; exact .renewed ‹_›
    · cases h
  | accepted =>
    simp only [step] at h
    split at h
    · cases h; exact .accepted ‹_›
    · cases h
  | refused =>
    simp only [step] at h
    split at h
    · cases h; exact .refused ‹_›
    · cases h

/-! ## What is promised -/

/-- A request says `waiting` exactly if a waiting call is in flight, and says `attending` of no
call that is not recent unless one is in flight. -/
structure Honest (b : Built) : Prop where
  waiting : b.fields.attention = some .waiting ↔ ∃ turn ∈ b.turns, turn.waits = true
  recent : b.fields.attention = some .attending → ∀ age ∈ b.fields.attention_observed_ms_ago,
    age < 30000 ∨ b.turns ≠ []

/-- A recent call is unreported and no wait is in flight. -/
def Pending (s : State) : Prop :=
  (∃ call, s.attention.unreported_call = some call ∧ recent s.now call) ∧
    ∀ turn ∈ s.turns, turn.waits = false

/-- From when on the throttle lets a call be reported. -/
def Attention.throttle (a : Attention) : ℕ :=
  match a.reported with
  | some (.attending, at_) => at_ + ATTENTION_REPORT_EVERY
  | _ => 0

/-- No later than `FLUSH_RETRY` after the throttle allows, or after now if it does. -/
def State.InTime (s : State) (at_ : ℕ) : Prop := at_ ≤ max s.attention.throttle s.now + FLUSH_RETRY

/-- The timer the loop waits with, or will when it comes round. -/
def State.armed (s : State) : Option ℕ :=
  match s.phase with
  | .waiting flush_at => flush_at
  | _ => s.timer

/-- The bus is asked to take the call that is unreported. -/
def State.Covered (s : State) : Prop :=
  match s.phase with
  | .sending _ (some report) _ => report.call = s.attention.unreported_call
  | _ => False

/-- The next heartbeat is set only when this one is answered. -/
def State.refreshing (s : State) : Bool :=
  match s.phase with
  | .sending refresh _ _ => refresh
  | _ => false

/-- The next heartbeat is in time. -/
def State.HeartbeatInTime (s : State) : Prop :=
  s.refreshing = false ∧ s.next_heartbeat ≤ s.now + FLUSH_RETRY

/-- An attempt to report the call is under way, or scheduled in time. -/
def Scheduled (s : State) : Prop :=
  s.Covered ∨ s.attention_changed = true ∨ (∃ at_, s.armed = some at_ ∧ s.InTime at_) ∨
    s.HeartbeatInTime

/-- A refusal leaves a reason to come back in time: another notification, a last accepted report
that said `attending` or is nearly as old as the throttle, or the next heartbeat. -/
def Retried (s : State) : Action → Prop
  | .refused => Pending s → s.attention_changed = true ∨
      (∃ state at_, s.attention.reported = some (state, at_) ∧
        (state = .attending ∨ at_ + ATTENTION_REPORT_EVERY ≤ s.now + FLUSH_RETRY)) ∨
      s.HeartbeatInTime
  | _ => True

/-! ## `due` -/

variable {a : Attention} {s t : State} {refresh : Bool} {now call at_ : ℕ} {r : AttentionReport}

@[simp] theorem Attention.fresh_calls (a : Attention) (now : ℕ) : (a.fresh now).calls = a.calls := by
  unfold Attention.fresh; split <;> rfl

@[simp] theorem Attention.fresh_waits (a : Attention) (now : ℕ) : (a.fresh now).waits = a.waits := by
  unfold Attention.fresh; split <;> rfl

/-- A call that is left was there, and is recent if none is in flight. -/
theorem Attention.fresh_call (h : (a.fresh now).unreported_call = some call) :
    a.unreported_call = some call ∧ (a.calls = 0 → Turns.recent now call) := by
  unfold Attention.fresh at h
  by_cases hstale : (∃ at_ ∈ a.unreported_call, ¬Turns.recent now at_) ∧ a.calls = 0
  · rw [if_pos hstale] at h
    cases h
  · rw [if_neg hstale] at h
    refine ⟨h, fun hcalls => ?_⟩
    by_contra hold
    exact hstale ⟨⟨call, h, hold⟩, hcalls⟩

/-- A report says `waiting` if a wait is in flight, and covers what is unreported. -/
theorem Attention.report_spec (h : a.report refresh now = some r) :
    (r.state = .waiting ↔ 0 < a.waits) ∧ r.call = a.unreported_call := by
  unfold Attention.report at h
  by_cases hwaits : 0 < a.waits
  · rw [if_pos hwaits] at h
    split at h
    · cases h
      exact ⟨⟨fun _ => hwaits, fun _ => rfl⟩, rfl⟩
    · cases h
  · rw [if_neg hwaits] at h
    split at h
    · rename_i call hcall
      split at h
      · cases h
        exact ⟨⟨nofun, fun hpos => absurd hpos hwaits⟩, hcall.symm⟩
      · cases h
    · rename_i hcall
      split at h
      · cases h
        exact ⟨⟨nofun, fun hpos => absurd hpos hwaits⟩, hcall.symm⟩
      · cases h

/-- A refresh reports every wait. -/
theorem Attention.report_refresh_waits (h : a.report true now = none) : a.waits = 0 := by
  unfold Attention.report at h
  by_contra hwaits
  rw [if_pos (Nat.pos_of_ne_zero hwaits), if_pos (Or.inr rfl)] at h
  cases h

/-- What holds a call back is that `attending` was reported last. -/
theorem Attention.report_none (h : a.report refresh now = none) (hwaits : a.waits = 0)
    (hcall : a.unreported_call = some call) : ∃ at_, a.reported = some (.attending, at_) := by
  unfold Attention.report at h
  rw [if_neg (by omega), hcall] at h
  simp only at h
  split at h
  · cases h
  · rename_i hheld
    have hchanged : ¬a.changed .attending := fun hc => hheld (Or.inl hc)
    unfold Attention.changed at hchanged
    cases hrep : a.reported with
    | none =>
      exfalso
      apply hchanged
      intro r hr
      rw [hrep] at hr
      cases hr
    | some r =>
      obtain ⟨state, at_⟩ := r
      refine ⟨at_, ?_⟩
      by_contra hne
      apply hchanged
      intro r hr hstate
      rw [hrep] at hr
      cases hr
      exact hne (by rw [show state = TurnState.attending from hstate])

/-! ## What always holds -/

/-- The counts are those of the calls in flight, and the times have passed. -/
structure Counts (s : State) : Prop where
  calls : s.attention.calls = s.turns.length
  waits : s.attention.waits = s.turns.countP (·.waits)
  flush : s.last_flush ≤ s.now
  call : ∀ call, s.attention.unreported_call = some call → call ≤ s.now

/-- Where no notification is left, the timer is the one that would be computed now, and what is
sent covers what is unreported. -/
def Fits (s : State) : Prop :=
  match s.phase with
  | .waiting flush_at => s.attention_changed = false → flush_at = s.timer
  | .sending refresh due built_at =>
    (due = none → refresh = true) ∧ ∀ r, due = some r →
      (∀ call, r.call = some call → call ≤ built_at) ∧
        (s.attention_changed = false → r.call = s.attention.unreported_call)
  | _ => True

structure Base (s : State) : Prop where
  counts : Counts s
  fits : Fits s
  built : ∀ b ∈ s.built, Honest b

theorem Counts.waits_pos (h : Counts s) : 0 < s.attention.waits ↔ ∃ turn ∈ s.turns, turn.waits = true := by
  rw [h.waits, List.countP_pos_iff]

theorem Counts.waits_zero (h : Counts s) (hidle : ∀ turn ∈ s.turns, turn.waits = false) :
    s.attention.waits = 0 := by
  rw [h.waits, List.countP_eq_zero]
  intro turn hturn
  rw [hidle turn hturn]
  exact Bool.false_ne_true

theorem Counts.calls_zero (h : Counts s) (hidle : s.turns = []) : s.attention.calls = 0 := by
  rw [h.calls, hidle, List.length_nil]

/-- Only these parts of a state are counted. -/
theorem Counts.congr (h : Counts s) (hattention : t.attention = s.attention) (hturns : t.turns = s.turns)
    (hnow : t.now = s.now) (hflush : t.last_flush = s.last_flush) : Counts t := by
  constructor
  · rw [hattention, hturns, h.calls]
  · rw [hattention, hturns, h.waits]
  · rw [hflush, hnow]
    exact h.flush
  · rw [hattention, hnow]
    exact h.call

/-- Dropping a stale call keeps the counts. -/
theorem Counts.fresh (h : Counts s) : Counts { s with attention := s.attention.fresh s.now } where
  calls := by
    rw [Attention.fresh_calls]
    exact h.calls
  waits := by
    rw [Attention.fresh_waits]
    exact h.waits
  flush := h.flush
  call call hcall := h.call call (Attention.fresh_call hcall).1

/-- A request built from what is due is honest. -/
theorem Counts.honest (h : Counts s) (hr : (s.attention.fresh s.now).report refresh s.now = some r) :
    Honest ⟨r.fields s.now, s.now, s.turns⟩ := by
  obtain ⟨hstate, hcall⟩ := Attention.report_spec hr
  rw [Attention.fresh_waits] at hstate
  constructor
  · change some r.state = some TurnState.waiting ↔ _
    rw [Option.some_inj, hstate, h.waits_pos]
  · intro _ age hage
    by_cases hturns : s.turns = []
    · refine Or.inl ?_
      simp only [AttentionReport.fields] at hage
      split at hage
      · obtain ⟨call, hcall', rfl⟩ := Option.map_eq_some_iff.mp hage
        rw [hcall'] at hcall
        have hrecent := (Attention.fresh_call hcall.symm).2 (h.calls_zero hturns)
        unfold Turns.recent ATTENTION_REPORT_EVERY at hrecent
        omega
      · cases hage
    · exact Or.inr hturns

/-- A plain heartbeat is honest: a refresh reports every wait. -/
theorem Counts.honest_plain (h : Counts s)
    (hr : (s.attention.fresh s.now).report true s.now = none) : Honest ⟨Fields.plain, s.now, s.turns⟩ := by
  have hwaits := Attention.report_refresh_waits hr
  rw [Attention.fresh_waits] at hwaits
  constructor
  · constructor
    · intro hno
      cases hno
    · intro hwait
      have hpos := h.waits_pos.mpr hwait
      omega
  · intro hno
    cases hno

theorem base_refresh_presence (h : Counts s) (hbuilt : ∀ b ∈ s.built, Honest b) :
    Base s.refresh_presence := by
  refine ⟨h.fresh.congr rfl rfl rfl rfl, ⟨fun _ => rfl, fun r hr => ?_⟩, fun b hb => ?_⟩
  · obtain ⟨-, hcall⟩ := Attention.report_spec hr
    rw [hcall]
    exact ⟨fun call hcall' => h.fresh.call call hcall', fun _ => rfl⟩
  · rcases List.mem_append.mp hb with hb | hb
    · exact hbuilt b hb
    · rw [List.mem_singleton.mp hb]
      cases hr : (s.attention.fresh s.now).report true s.now with
      | none =>
        exact h.honest_plain hr
      | some r =>
        exact h.honest hr

theorem base_report_attention (h : Counts s) (hbuilt : ∀ b ∈ s.built, Honest b) :
    Base s.report_attention := by
  unfold State.report_attention Attention.due
  cases hr : (s.attention.fresh s.now).report false s.now with
  | none => exact ⟨h.fresh.congr rfl rfl rfl rfl, trivial, hbuilt⟩
  | some r =>
    obtain ⟨-, hcall⟩ := Attention.report_spec hr
    refine ⟨h.fresh.congr rfl rfl rfl rfl, ⟨nofun, fun r' hr' => ?_⟩, fun b hb => ?_⟩
    · cases hr'
      rw [hcall]
      exact ⟨fun call hcall' => h.fresh.call call hcall', fun _ => rfl⟩
    · rcases List.mem_append.mp hb with hb | hb
      · exact hbuilt b hb
      · rw [List.mem_singleton.mp hb]
        exact h.honest hr

/-- Whatever the loop is at, a notification makes everything fit. -/
theorem Fits.of_changed (hfits : Fits s) (hsame : s.phase = t.phase) (ht : t.attention_changed = true) : Fits t := by
  unfold Fits at *
  rw [hsame] at hfits
  split at hfits
  · intro hno
    rw [ht] at hno
    cases hno
  · refine ⟨hfits.1, fun r hr => ⟨(hfits.2 r hr).1, fun hno => ?_⟩⟩
    rw [ht] at hno
    cases hno
  · trivial

theorem Counts.flushed (h : Counts s) : Counts { s with last_flush := s.now } :=
  ⟨h.calls, h.waits, Nat.le_refl _, h.call⟩

theorem Counts.enter (h : Counts s) (turn : ToolTurn) (changed : Bool) : Counts { s with
    turns := turn :: s.turns
    attention := s.attention.enter turn s.now
    attention_changed := changed } := by
  constructor
  · change s.attention.calls + 1 = (turn :: s.turns).length
    rw [h.calls, List.length_cons]
  · change s.attention.waits + turn.waits.toNat = (turn :: s.turns).countP (·.waits)
    rw [h.waits, List.countP_cons]
    cases turn.waits <;> rfl
  · exact h.flush
  · intro call hcall
    cases hcall
    exact Nat.le_refl _

theorem Counts.leave (h : Counts s) {turn : ToolTurn} (hturn : turn ∈ s.turns) (changed : Bool) : Counts { s with
    turns := s.turns.erase turn
    attention := s.attention.leave turn s.now
    attention_changed := changed } := by
  constructor
  · change s.attention.calls - 1 = (s.turns.erase turn).length
    rw [h.calls, List.length_erase_of_mem hturn]
  · change (if turn.waits = true then s.attention.waits - 1 else s.attention.waits) =
      (s.turns.erase turn).countP (·.waits)
    have hperm := (List.perm_cons_erase hturn).countP_eq (·.waits)
    rw [List.countP_cons] at hperm
    rw [h.waits, hperm]
    by_cases hw : turn.waits = true
    · rw [if_pos hw, if_pos hw, Nat.add_sub_cancel]
    · rw [if_neg hw, if_neg hw, Nat.add_zero]
  · exact h.flush
  · intro call hcall
    change (if turn.waits = true then some s.now else s.attention.unreported_call) = some call at hcall
    split at hcall
    · cases hcall
      exact Nat.le_refl _
    · exact h.call call hcall

theorem Counts.sent (h : Counts s) (report : AttentionReport) :
    Counts { s with attention := s.attention.sent report s.now } := by
  refine ⟨h.calls, h.waits, h.flush, fun call hcall => ?_⟩
  change (if s.attention.unreported_call.isSome = true ∧ s.attention.unreported_call = report.call then
    none else s.attention.unreported_call) = some call at hcall
  split at hcall
  · cases hcall
  · exact h.call call hcall

/-- **What every step keeps.** -/
theorem Base.step (h : Base s) (hstep : Turns.step s act = some t) : Base t := by
  cases step_cases hstep with
  | pass d =>
    refine ⟨⟨h.counts.calls, h.counts.waits, ?_, fun call hcall => ?_⟩, h.fits, h.built⟩
    · exact Nat.le_trans h.counts.flush (Nat.le_add_right _ _)
    · exact Nat.le_trans (h.counts.call call hcall) (Nat.le_add_right _ _)
  | enter tool => exact ⟨h.counts.enter _ _, h.fits.of_changed rfl rfl, h.built⟩
  | leave hturn => exact ⟨h.counts.leave hturn _, h.fits.of_changed rfl rfl, h.built⟩
  | come_round _ => exact ⟨h.counts.congr rfl rfl rfl rfl, fun _ => rfl, h.built⟩
  | wake _ | renew _ | renewed _ | refused _ => exact ⟨h.counts.congr rfl rfl rfl rfl, trivial, h.built⟩
  | heartbeat _ _ => exact base_refresh_presence h.counts h.built
  | changed _ _ => exact base_report_attention (h.counts.congr rfl rfl rfl rfl) h.built
  | flush _ _ => exact base_report_attention (h.counts.flushed) h.built
  | @accepted refresh due built_at _ =>
    cases due with
    | none => exact ⟨h.counts.congr rfl rfl rfl rfl, trivial, h.built⟩
    | some report => exact ⟨(h.counts.sent report).congr rfl rfl rfl rfl, trivial, h.built⟩

/-! ## Where a call gets lost -/

/-- A timer that is in time goes by an `attending` that was accepted, or by a report nearly as
old as the throttle. -/
theorem timer_inTime_iff (hflush : s.last_flush ≤ s.now) (hwaits : s.attention.waits = 0)
    (hcall : s.attention.unreported_call = some call) : (∃ at_, s.timer = some at_ ∧ s.InTime at_) ↔
      ∃ state at_, s.attention.reported = some (state, at_) ∧
        (state = .attending ∨ at_ + ATTENTION_REPORT_EVERY ≤ s.now + FLUSH_RETRY) := by
  have htimer : s.timer = s.attention.reported.map fun r =>
      max (r.2 + ATTENTION_REPORT_EVERY) (s.last_flush + FLUSH_RETRY) := by
    unfold State.timer Attention.flush_at
    rw [if_neg (by omega), hcall]
    exact Option.map_map _ _ _
  rw [htimer]
  unfold State.InTime Attention.throttle
  constructor
  · rintro ⟨at_, hat, hle⟩
    obtain ⟨⟨state, told⟩, hrep, rfl⟩ := Option.map_eq_some_iff.mp hat
    refine ⟨state, told, hrep, ?_⟩
    rw [hrep] at hle
    cases state with
    | attending => exact Or.inl rfl
    | waiting =>
      simp only at hle
      refine Or.inr ?_
      omega
  · rintro ⟨state, told, hrep, hor⟩
    rw [hrep]
    refine ⟨_, rfl, ?_⟩
    cases state with
    | attending =>
      simp only
      omega
    | waiting =>
      simp only
      rcases hor with hno | hle
      · cases hno
      · omega

theorem Pending.waits (hp : Pending s) (hb : Counts s) : s.attention.waits = 0 := hb.waits_zero hp.2

/-- Time only makes what is scheduled more in time, and a call less recent. -/
theorem Pending.of_pass {d : ℕ} (hp : Pending { s with now := s.now + d }) : Pending s := by
  obtain ⟨⟨call, hcall, hrecent⟩, hidle⟩ := hp
  refine ⟨⟨call, hcall, ?_⟩, hidle⟩
  unfold recent at *
  simp only at hrecent
  omega

theorem Scheduled.pass (d : ℕ) (h : Scheduled s) : Scheduled { s with now := s.now + d } := by
  rcases h with h | h | ⟨at_, hat, hle⟩ | ⟨hphase, hle⟩
  · exact Or.inl h
  · exact Or.inr (Or.inl h)
  · refine Or.inr (Or.inr (Or.inl ⟨at_, hat, ?_⟩))
    unfold State.InTime at *
    simp only
    omega
  · refine Or.inr (Or.inr (Or.inr ⟨hphase, ?_⟩))
    simp only
    omega

/-- Between two heartbeats, the timer is the one that would be computed now unless a
notification is left. -/
theorem Scheduled.settled (hb : Base s) (h : Scheduled s)
    (hphase : ∀ refresh due built_at, s.phase ≠ .sending refresh due built_at) :
    s.attention_changed = true ∨ (∃ at_, s.timer = some at_ ∧ s.InTime at_) ∨
      s.next_heartbeat ≤ s.now + FLUSH_RETRY := by
  obtain ⟨-, hfits, -⟩ := hb
  unfold Scheduled State.Covered State.armed State.HeartbeatInTime at h
  unfold Fits at hfits
  cases hp : s.phase with
  | sending refresh due built_at => exact absurd hp (hphase _ _ _)
  | waiting flush_at =>
    rw [hp] at h hfits
    rcases h with h | h | ⟨at_, hat, hle⟩ | h
    · exact absurd h id
    · exact Or.inl h
    · by_cases hchanged : s.attention_changed = true
      · exact Or.inl hchanged
      · refine Or.inr (Or.inl ⟨at_, ?_, hle⟩)
        rw [← hfits (eq_false_of_ne_true hchanged)]
        exact hat
    · exact Or.inr (Or.inr h.2)
  | round | renewing =>
    rw [hp] at h
    rcases h with h | h | h | h
    · exact absurd h id
    · exact Or.inl h
    · exact Or.inr (Or.inl h)
    · exact Or.inr (Or.inr h.2)

/-- So the loop may go on to wherever it computes the timer, or has. -/
theorem Scheduled.goes_on {p : Phase} (hb : Base s) (h : Scheduled s)
    (hphase : ∀ refresh due built_at, s.phase ≠ .sending refresh due built_at)
    (hp : p = .round ∨ p = .renewing ∨ p = .waiting s.timer) : Scheduled { s with phase := p } := by
  have harmed : ({ s with phase := p } : State).armed = s.timer := by
    rcases hp with rfl | rfl | rfl <;> rfl
  have hrefreshing : ({ s with phase := p } : State).refreshing = false := by
    rcases hp with rfl | rfl | rfl <;> rfl
  rcases h.settled hb hphase with hs | ⟨at_, hat, hle⟩ | hs
  · exact Or.inr (Or.inl hs)
  · exact Or.inr (Or.inr (Or.inl ⟨at_, by rw [harmed, hat], hle⟩))
  · exact Or.inr (Or.inr (Or.inr ⟨hrefreshing, hs⟩))

/-- An attempt covers the call, or `attending` was accepted and the timer is in time. -/
theorem scheduled_refresh_presence (hb : Base s.refresh_presence) (hp : Pending s.refresh_presence) :
    Scheduled s.refresh_presence := by
  have hwaits := hp.waits hb.counts
  obtain ⟨⟨call, hcall, -⟩, -⟩ := hp
  cases hr : (s.attention.fresh s.now).report true s.now with
  | some r =>
    refine Or.inl ?_
    unfold State.Covered State.refresh_presence Attention.due
    rw [hr]
    exact (Attention.report_spec hr).2
  | none =>
    refine Or.inr (Or.inr (Or.inl ?_))
    obtain ⟨at_, hat⟩ := Attention.report_none hr hwaits hcall
    exact (timer_inTime_iff hb.counts.flush hwaits hcall).mpr ⟨_, at_, hat, Or.inl rfl⟩

theorem scheduled_report_attention (hb : Base s.report_attention) (hp : Pending s.report_attention) :
    Scheduled s.report_attention := by
  have hwaits := hp.waits hb.counts
  obtain ⟨⟨call, hcall, -⟩, -⟩ := hp
  have hflush := hb.counts.flush
  unfold State.report_attention Attention.due at *
  cases hr : (s.attention.fresh s.now).report false s.now with
  | some r =>
    rw [hr] at hcall hwaits
    exact Or.inl (Attention.report_spec hr).2
  | none =>
    rw [hr] at hcall hwaits hflush
    obtain ⟨at_, hat⟩ := Attention.report_none hr hwaits hcall
    exact Or.inr (Or.inr (Or.inl ((timer_inTime_iff hflush hwaits hcall).mpr ⟨_, at_, hat, Or.inl rfl⟩)))

/-- What an accepted report does not cover was observed after it was built, and has left a
notification. -/
theorem scheduled_accepted (hb : Base s) (h : Pending s → Scheduled s)
    (hphase : s.phase = .sending refresh due built_at)
    (hp : Pending ({ s with attention := s.attention.commit due s.now }.answered refresh)) :
    Scheduled ({ s with attention := s.attention.commit due s.now }.answered refresh) := by
  have hfits := hb.fits
  unfold Fits at hfits
  rw [hphase] at hfits
  cases due with
  | none =>
    have hs := h hp
    unfold Scheduled State.Covered State.armed State.HeartbeatInTime State.refreshing at hs
    rw [hphase] at hs
    rcases hs with hs | hs | hs | ⟨hrefresh, -⟩
    · exact absurd hs id
    · exact Or.inr (Or.inl hs)
    · exact Or.inr (Or.inr (Or.inl hs))
    · rw [hfits.1 rfl] at hrefresh
      cases hrefresh
  | some r =>
    refine Or.inr (Or.inl ?_)
    obtain ⟨⟨call, hcall, -⟩, -⟩ := hp
    change (if s.attention.unreported_call.isSome = true ∧ s.attention.unreported_call = r.call then none
      else s.attention.unreported_call) = some call at hcall
    by_contra hchanged
    have hcover := (hfits.2 r rfl).2 (eq_false_of_ne_true hchanged)
    split at hcall
    · cases hcall
    · rename_i hnot
      apply hnot
      rw [hcall]
      exact ⟨rfl, by rw [hcover, hcall]⟩

/-- A refused report leaves the call to the timer, which is in time exactly where it is retried. -/
theorem scheduled_refused_iff (hb : Base s) (hphase : s.phase = .sending refresh due built_at) :
    Retried s .refused ↔ (Pending (s.answered refresh) → Scheduled (s.answered refresh)) := by
  have hrefreshing : s.refreshing = refresh := by
    unfold State.refreshing
    rw [hphase]
  have hheartbeat : (s.answered refresh).HeartbeatInTime ↔ s.HeartbeatInTime := by
    unfold State.HeartbeatInTime State.answered
    rw [hrefreshing]
    cases refresh with
    | false => exact Iff.rfl
    | true =>
      constructor
      · rintro ⟨-, hle⟩
        change s.now + KEEPALIVE_EVERY ≤ s.now + FLUSH_RETRY at hle
        unfold KEEPALIVE_EVERY FLUSH_RETRY at hle
        omega
      · rintro ⟨hno, -⟩
        cases hno
  constructor
  · intro hret hp
    obtain ⟨⟨call, hcall, -⟩, -⟩ := id hp
    rcases hret hp with hs | hs | hs
    · exact Or.inr (Or.inl hs)
    · refine Or.inr (Or.inr (Or.inl ?_))
      exact (timer_inTime_iff hb.counts.flush (Pending.waits hp hb.counts) hcall).mpr hs
    · exact Or.inr (Or.inr (Or.inr (hheartbeat.mpr hs)))
  · intro hs hp
    obtain ⟨⟨call, hcall, -⟩, -⟩ := id hp
    rcases hs hp with hs | hs | hs | hs
    · exact absurd hs id
    · exact Or.inl hs
    · exact Or.inr (Or.inl ((timer_inTime_iff hb.counts.flush (Pending.waits hp hb.counts) hcall).mp hs))
    · exact Or.inr (Or.inr (hheartbeat.mp hs))

/-- **One step** keeps a pending call scheduled in time exactly where it is retried. -/
theorem scheduled_step (hb : Base s) (h : Pending s → Scheduled s)
    (hstep : step s act = some t) : Retried s act ↔ (Pending t → Scheduled t) := by
  have hbt := hb.step hstep
  cases step_cases hstep with
  | pass d => exact ⟨fun _ hp => (h hp.of_pass).pass d, fun _ => trivial⟩
  | enter tool | leave hturn => exact ⟨fun _ _ => Or.inr (Or.inl rfl), fun _ => trivial⟩
  | come_round hphase =>
    refine ⟨fun _ hp => ?_, fun _ => trivial⟩
    apply (h hp).goes_on hb _ (Or.inr (Or.inr rfl))
    simp [hphase]
  | wake hphase | renewed hphase =>
    refine ⟨fun _ hp => ?_, fun _ => trivial⟩
    apply (h hp).goes_on hb _ (Or.inl rfl)
    simp [hphase]
  | heartbeat hphase _ => exact ⟨fun _ hp => scheduled_refresh_presence hbt hp, fun _ => trivial⟩
  | changed hphase _ | flush hphase _ => exact ⟨fun _ hp => scheduled_report_attention hbt hp, fun _ => trivial⟩
  | renew hphase =>
    refine ⟨fun _ hp => ?_, fun _ => trivial⟩
    apply (h hp).goes_on hb _ (Or.inr (Or.inl rfl))
    simp [hphase]
  | accepted hphase => exact ⟨fun _ hp => scheduled_accepted hb h hphase hp, fun _ => trivial⟩
  | refused hphase => exact scheduled_refused_iff hb hphase

/-! ## The claim over runs -/

theorem base_init (start : ℕ) : Base (init start) := by
  refine ⟨⟨rfl, rfl, Nat.sub_le _ _, nofun⟩, trivial, ?_⟩
  intro b hb
  exact absurd hb List.not_mem_nil

theorem not_pending_init (start : ℕ) : ¬Pending (init start) := by
  rintro ⟨⟨call, hcall, -⟩, -⟩
  cases hcall

/-- An accepted report leaves a call alone that was observed after it was built. -/
theorem accepted_keeps (hb : Base s)
    (hphase : s.phase = .sending refresh due built_at) (hstep : step s .accepted = some t)
    (hcall : s.attention.unreported_call = some call) (hafter : built_at < call) :
    t.attention.unreported_call = some call := by
  have hfits := hb.fits
  unfold Fits at hfits
  rw [hphase] at hfits
  cases step_cases hstep with
  | accepted hphase' =>
    rw [hphase] at hphase'
    cases hphase'
    cases due with
    | none => exact hcall
    | some r =>
      change (if s.attention.unreported_call.isSome = true ∧ s.attention.unreported_call = r.call then none
        else s.attention.unreported_call) = some call
      rw [if_neg, hcall]
      rintro ⟨-, hsame⟩
      rw [hcall] at hsame
      have hle := (hfits.2 r rfl).1 call hsame.symm
      omega

/-- **What a window tells of its turn**, over any run. Every request is honest, an accepted
report leaves alone what was observed after it was built, and a pending call is scheduled in
time at every moment exactly where every refusal leaves a reason to come back. -/
theorem attention_told (start : ℕ) {tr : List (Trans State Action)}
    (h : Run (Runs.Rel step) (init start) tr s) :
    (∀ b ∈ s.built, Honest b) ∧
      (∀ e ∈ tr, ∀ refresh due built_at call, e.act = .accepted →
        e.pre.phase = .sending refresh due built_at →
        e.pre.attention.unreported_call = some call → built_at < call →
          e.post.attention.unreported_call = some call) ∧
      ((∀ e ∈ tr, Retried e.pre e.act) ↔ ∀ e ∈ tr, Pending e.post → Scheduled e.post) := by
  have hbase : ∀ s a t, Base s → Runs.Rel step s a t → Base t := fun s a t hs hr => hs.step hr
  refine ⟨(h.invariant' (base_init start) hbase).built, ?_, ?_⟩
  · intro e he refresh due built_at call hact hphase hcall hafter
    obtain ⟨tr₁, hrun, -⟩ := h.pre he
    have hrel := h.rel e he
    rw [hact] at hrel
    exact accepted_keeps (hrun.invariant' (base_init start) hbase) hphase hrel hcall hafter
  · apply h.invariant_iff (I := fun s => Pending s → Scheduled s) (base_init start)
      (fun hp => absurd hp (not_pending_init start)) hbase
    intro s a t hs hi hr
    exact scheduled_step hs hi hr

theorem retried_of_ne (h : act ≠ .refused) : Retried s act := by
  cases act with
  | refused => exact absurd rfl h
  | _ => trivial

/-- A call that starts, is reported, and ends, and whose end is reported once the throttle
allows. -/
def reported_run : List Action :=
  [.enter "post_message", .come_round, .changed, .accepted, .leave ⟨false⟩, .come_round, .changed,
    .enter "post_message", .come_round, .changed, .come_round, .pass ATTENTION_REPORT_EVERY, .flush, .accepted]

theorem attention_told_reported :
    (∃ e ∈ ((exec step (init FLUSH_RETRY) reported_run).get (by decide)).1, Pending e.post) ∧
    ∀ e ∈ ((exec step (init FLUSH_RETRY) reported_run).get (by decide)).1,
      Pending e.post → Scheduled e.post := by
  refine ⟨?_, ?_⟩
  · have hcall : ∃ e ∈ ((exec step (init FLUSH_RETRY) reported_run).get (by decide)).1,
        e.post.attention.unreported_call = some FLUSH_RETRY ∧ e.post.now = FLUSH_RETRY ∧
          (e.post.turns.all fun turn => !turn.waits) = true := by
      decide
    obtain ⟨e, he, hcall, hnow, hturns⟩ := hcall
    refine ⟨e, he, ⟨_, hcall, ?_⟩, fun turn hturn => ?_⟩
    · rw [hnow]
      decide
    · exact (Bool.not_eq_true' _).mp (List.all_eq_true.mp hturns turn hturn)
  apply (attention_told FLUSH_RETRY (exec_get (by decide))).2.2.mp
  intro e he
  apply retried_of_ne
  revert e
  decide

/-- The first report of a window is refused, twice. -/
def refused_run : List Action :=
  [.enter "post_message", .come_round, .changed, .refused, .leave ⟨false⟩, .come_round, .changed, .refused,
    .come_round]

/-- The call is recent, there is no timer, no notification and no heartbeat in five minutes; then
the heartbeat drops the call and says nothing of it, although the bus accepts it. -/
theorem first_report_lost :
    (¬∀ (start : ℕ) (tr : List (Trans State Action)) (s : State), Run (Runs.Rel step) (init start) tr s →
      ∀ e ∈ tr, Pending e.post → Scheduled e.post) ∧
    ∃ t, (exec step (init FLUSH_RETRY) (refused_run ++ [.pass KEEPALIVE_EVERY, .heartbeat, .accepted])).map
        (fun p => p.2) = some t ∧
      t.attention = .default ∧ (t.built.getLast?.map fun b => b.fields) = some Fields.plain := by
  constructor
  · intro h
    have hrun := @exec_get _ _ step (init FLUSH_RETRY) refused_run (by decide)
    have hlast : ∃ e ∈ ((exec step (init FLUSH_RETRY) refused_run).get (by decide)).1,
        e.post.attention.unreported_call = some FLUSH_RETRY ∧ e.post.now = FLUSH_RETRY ∧ e.post.turns = [] ∧
          e.post.attention_changed = false ∧ e.post.phase = .waiting none ∧
          e.post.next_heartbeat = FLUSH_RETRY + KEEPALIVE_EVERY := by decide
    obtain ⟨e, he, hcall, hnow, hturns, hchanged, hphase, hheartbeat⟩ := hlast
    have hp : Pending e.post := by
      refine ⟨⟨_, hcall, ?_⟩, ?_⟩
      · rw [hnow]
        decide
      · rw [hturns]
        exact nofun
    rcases h FLUSH_RETRY _ _ hrun e he hp with hs | hs | ⟨at_, hat, -⟩ | ⟨-, hle⟩
    · unfold State.Covered at hs
      rw [hphase] at hs
      exact hs
    · rw [hchanged] at hs
      cases hs
    · unfold State.armed at hat
      rw [hphase] at hat
      cases hat
    · rw [hheartbeat, hnow] at hle
      exact absurd hle (by decide)
  · refine ⟨_, rfl, ?_, ?_⟩ <;> decide

end CrewSync.Turns
