/-
`hook.rs`: `announce_wake` and `owns_watch`, as `watch` uses them; and the `wake` columns
that `heartbeat` of `store/presence.rs` keeps.

`Watch` is about what a watcher reads. Here it is about what a watcher says of itself:
that the window can be woken, and that it no longer can. The window is claimed in a
file, under a lock, and the announcement is a request, sent afterwards. Requests come to
the bus in any order. A withdrawal clears only what was announced with its token; an
announcement is written whatever is there.

A watcher is its place in the list of those that were started, and its token is its own.
A request that is lost, or refused, stays in flight. `applied` only keeps what has
happened. Left out: the readings, and what they do to the mark in the file.
-/
import Mathlib.Data.List.Perm.Basic
import CrewSync.Runs
import CrewSync.Presence

set_option autoImplicit false

namespace CrewSync.Announcements

open Error Schema Rows Runs Auth Send Presence

/-! ## What a watcher says -/

/-- `WATCH_WAKE_LABEL`. -/
def WATCH_WAKE_LABEL : String := "claude-watcher"

/-- A call of `announce_wake`: whose it is, and for how many seconds, or a withdrawal. -/
structure Request where
  watcher : ℕ
  ttl : Option ℕ
  deriving DecidableEq, Repr

/-- `announce_wake`: the arguments of its heartbeat. -/
def announce_wake (ttl : Option ℕ) (token : String) : HeartbeatInput :=
  match ttl with
  | some secs =>
    { refresh_only := true, wake := some WATCH_WAKE_LABEL, wake_ttl_seconds := some (clamp secs 30 86400),
      wake_token := some token }
  | none => { refresh_only := true, wake := some "", wake_token := some token }

/-- It announces. -/
def Request.announces (r : Request) : Bool := r.ttl.isSome

/-! ## The columns -/

/-- `wake`, `wake_until` and `wake_token`. -/
abbrev Wake := Option String × Option ℤ × Option String

/-- The three columns of a window: empty where it has no row. -/
def wake_columns (agent_id : Uuid) (session : String) (t : List AgentPresence) : Wake :=
  match one (at_window agent_id session) t with
  | none => (none, none, none)
  | some p => (p.wake, p.wake_until, p.wake_token)

/-- What a heartbeat makes of them. -/
def waked (now : ℤ) (b : Bound) (k : Wake) : Wake :=
  if b.wake = none then k
  else if b.wake = some "" ∧ b.wake_token ≠ none ∧ k.2.2 ≠ b.wake_token then k
  else if b.wake = some "" then (none, none, none)
  else (b.wake, some (now + interval_secs b.wake_ttl), b.wake_token)

section Columns

variable {now clock : ℤ} {auth : AuthCtx} {input : HeartbeatInput} {b : Bound} {around : Around}

theorem on_conflict_waked (old : AgentPresence) :
    ((on_conflict now auth b old).wake, (on_conflict now auth b old).wake_until,
      (on_conflict now auth b old).wake_token) = waked now b (old.wake, old.wake_until, old.wake_token) := by
  unfold on_conflict waked wake_case
  by_cases hnone : b.wake = none
  · simp only [if_pos hnone]
  · simp only [if_neg hnone]
    by_cases hother : withdraws_anothers b old
    · have hcond : b.wake = some "" ∧ b.wake_token ≠ none ∧ old.wake_token ≠ b.wake_token := hother
      simp only [if_pos hother, if_pos hcond]
    · have hcond : ¬ (b.wake = some "" ∧ b.wake_token ≠ none ∧ old.wake_token ≠ b.wake_token) := hother
      simp only [if_neg hother, if_neg hcond]
      by_cases hblank : b.wake = some ""
      · simp only [if_pos hblank]
      · simp only [if_neg hblank]

theorem excluded_waked :
    ((excluded now auth b).wake, (excluded now auth b).wake_until, (excluded now auth b).wake_token) =
      waked now b (none, none, none) := by
  unfold excluded waked nullif_empty
  by_cases hnone : b.wake = none
  · simp [hnone]
  · by_cases hblank : b.wake = some ""
    · simp [hblank]
    · simp [hnone, hblank]

/-- A report leaves in the columns what it says of waking, where it says anything. -/
theorem write_presence_waked (t : List AgentPresence) :
    wake_columns auth.agent_id auth.session (write_presence now auth b t) =
      waked now b (wake_columns auth.agent_id auth.session t) := by
  unfold wake_columns
  rw [one_write_presence]
  cases one (at_window auth.agent_id auth.session) t with
  | none => exact excluded_waked
  | some p => exact on_conflict_waked p

/-- The sweep leaves the columns alone. -/
theorem sweep_waked (auth : AuthCtx) (at_ : ℤ) (t : List AgentPresence) :
    wake_columns auth.agent_id auth.session (sweep auth at_ t) =
      wake_columns auth.agent_id auth.session t := by
  unfold wake_columns
  rw [one_sweep]

/-- What `heartbeat` reads of the announcement. -/
theorem bind_input_wake (h : bind_input input = .ok b) :
    given (normalize_label "wake") input.wake = .ok b.wake ∧ b.wake_token = input.wake_token ∧
      b.wake_ttl = clamp (input.wake_ttl_seconds.getD DEFAULT_WAKE_TTL_SECS) 30 MAX_WAKE_TTL_SECS := by
  unfold bind_input at h
  simp only [bind_eq_ok, pure_eq_ok, ensure_eq_ok] at h
  obtain ⟨_, _, _, _, _, _, _, _, _, _, _, _, _, _, wake, hwake, _, _, _, _, rfl⟩ := h
  exact ⟨hwake, rfl, rfl⟩

/-- **One heartbeat** of the window, as its announcement sees it. -/
theorem heartbeat_waked {tidied : Option ℤ} {t : List AgentPresence} {info : AgentInfo}
    {t' : List AgentPresence} (h : heartbeat now clock tidied auth input around t = .ok (info, t')) :
    ∃ b, bind_input input = .ok b ∧ wake_columns auth.agent_id auth.session t' =
      waked now b (wake_columns auth.agent_id auth.session t) := by
  unfold heartbeat at h
  simp only [bind_eq_ok, pure_eq_ok] at h
  obtain ⟨b, hb, _, _, row, _, a, _, heq⟩ := h
  refine ⟨b, hb, ?_⟩
  rw [← (Prod.mk.inj heq).2]
  cases tidied with
  | none => exact write_presence_waked t
  | some at_ => exact (sweep_waked auth at_ _).trans (write_presence_waked t)

end Columns

/-! ## The watchers of a window -/

/-- Where a watcher is in `watch`, as far as it speaks. -/
inductive Phase where
  /-- It has claimed the window. -/
  | claimed
  /-- Its announcement is on its way. -/
  | announcing
  | watching
  /-- It ends, and the file was its own when it looked. -/
  | retiring
  /-- Its withdrawal is on its way. -/
  | withdrawing
  | ended
  deriving DecidableEq, Repr

structure Watcher where
  token : String
  phase : Phase
  deriving DecidableEq, Repr

/-- The state: the token in the watch file, the watchers, their requests that were not applied and
those that were, the presence rows, and the time. -/
structure Sys where
  owner : Option String
  watchers : List Watcher
  flight : List Request
  applied : List Request
  table : List AgentPresence
  clock : ℤ
  deriving Repr

/-- What can happen next. -/
inductive Act where
  /-- A watcher starts, and claims the window. -/
  | start (token : String)
  | announce (i secs : ℕ)
  /-- The binding does not resolve when it would announce itself. -/
  | skip (i : ℕ)
  /-- Its call returns, with an answer or with an error. -/
  | answered (i : ℕ)
  /-- It finds itself replaced, or its binding closed or missing. -/
  | leave (i : ℕ)
  /-- Its time is over, or it wakes the window: `owns_watch`. -/
  | retire (i : ℕ)
  | withdraw (i : ℕ)
  /-- The bus applies the `k`-th request in flight, as this heartbeat. -/
  | apply (k : ℕ) (beat : Beat)
  /-- It applies another heartbeat of the window, that announces nothing. -/
  | other (beat : Beat)
  /-- The sweep of another window takes the row. -/
  | swept
  | tick (clock : ℤ)

def Sys.put (s : Sys) (i : ℕ) (token : String) (phase : Phase) : Sys :=
  { s with watchers := s.watchers.set i ⟨token, phase⟩ }

/-- A watcher claims the window. -/
def Sys.claim (s : Sys) (token : String) : Sys :=
  { s with owner := some token, watchers := s.watchers ++ [⟨token, .claimed⟩] }

def Sys.send (s : Sys) (r : Request) : Sys := { s with flight := s.flight ++ [r] }

/-- The `k`-th request in flight, which is `r`, has been applied. -/
def Sys.apply (s : Sys) (k : ℕ) (r : Request) (table : List AgentPresence) : Sys :=
  { s with flight := s.flight.eraseIdx k, applied := s.applied ++ [r], table := table }

section Step

variable (agent_id : Uuid) (session : String)

/-- A heartbeat of the window. -/
def of_window (beat : Beat) : Bool := beat.auth.agent_id == agent_id && beat.auth.session == session

/-- The rows after the heartbeat, if it is not refused. -/
def Sys.beat (s : Sys) (beat : Beat) : Option (List AgentPresence) :=
  if of_window agent_id session beat then
    match heartbeat beat.now beat.clock beat.tidied beat.auth beat.input beat.around s.table with
    | .ok (_, table) => some table
    | .error _ => none
  else none

/-- One step. -/
def step (s : Sys) : Act → Option Sys
  | .start token =>
    if s.watchers.all fun w => w.token != token then some (s.claim token) else none
  | .announce i secs =>
    match s.watchers[i]? with
    | some ⟨token, .claimed⟩ => some ((s.put i token .announcing).send ⟨i, some secs⟩)
    | _ => none
  | .skip i =>
    match s.watchers[i]? with
    | some ⟨token, .claimed⟩ => some (s.put i token .watching)
    | _ => none
  | .answered i =>
    match s.watchers[i]? with
    | some ⟨token, .announcing⟩ => some (s.put i token .watching)
    | some ⟨token, .withdrawing⟩ => some (s.put i token .ended)
    | _ => none
  | .leave i =>
    match s.watchers[i]? with
    | some ⟨token, .watching⟩ => some (s.put i token .ended)
    | _ => none
  | .retire i =>
    match s.watchers[i]? with
    | some ⟨token, .watching⟩ => if s.owner = some token then some (s.put i token .retiring) else none
    | _ => none
  | .withdraw i =>
    match s.watchers[i]? with
    | some ⟨token, .retiring⟩ => some ((s.put i token .withdrawing).send ⟨i, none⟩)
    | _ => none
  | .apply k beat =>
    match s.flight[k]? with
    | some r =>
      match s.watchers[r.watcher]? with
      | some w =>
        if beat.input = announce_wake r.ttl w.token then (s.beat agent_id session beat).map (s.apply k r)
        else none
      | none => none
    | none => none
  | .other beat =>
    if beat.input.wake.all fun raw => to_lowercase (trim raw) = "" then
      (s.beat agent_id session beat).map fun table => { s with table := table }
    else none
  | .swept => some { s with table := delete (at_window agent_id session) s.table }
  | .tick clock => if s.clock ≤ clock then some { s with clock := clock } else none

end Step

/-! ## The law -/

/-- The newest watcher. -/
def Sys.newest (s : Sys) : ℕ := s.watchers.length - 1

/-- It has not ended, and has sent no withdrawal. -/
def Phase.runs : Phase → Bool
  | .claimed | .announcing | .watching | .retiring => true
  | .withdrawing | .ended => false

def Sys.runs (s : Sys) (i : ℕ) : Bool := s.watchers[i]?.any fun w => w.phase.runs

/-- Its announcement has been applied. -/
def Sys.announced (s : Sys) (i : ℕ) : Bool := s.applied.any fun r => r.watcher == i && r.announces

/-- Its withdrawal is on its way. -/
def Sys.withdraws (s : Sys) (i : ℕ) : Bool := s.flight.any fun r => r.watcher == i && !r.announces

/-- It has withdrawn: the request is on its way, or has been applied. -/
def Sys.withdrawn (s : Sys) (i : ℕ) : Bool := (s.flight ++ s.applied).any fun r => r.watcher == i && !r.announces

/-- An announcement is not over. -/
def is_shown (clock : ℤ) (k : Wake) : Bool := k.1.isSome && k.2.1.any fun until_ => clock < until_

section Law

variable (agent_id : Uuid) (session : String)

/-- **The announcement shown is the running watcher's**: while the newest watcher runs, and once it
is announced, no request of another changes the columns; and when it has withdrawn and every request
has been applied, nothing is shown. -/
structure AnnouncementLaw (tr : List (Trans Sys Act)) (s : Sys) : Prop where
  kept : ∀ e ∈ tr, ∀ k beat r, e.act = .apply k beat → e.pre.flight[k]? = some r →
    r.watcher ≠ e.pre.newest → e.pre.runs e.pre.newest = true → e.pre.announced e.pre.newest = true →
    wake_columns agent_id session e.post.table = wake_columns agent_id session e.pre.table
  cleared : s.withdrawn s.newest = true → s.flight = [] →
    is_shown s.clock (wake_columns agent_id session s.table) = false

/-- Whose announcement the row has. -/
def Sys.shows (s : Sys) (i : ℕ) : Bool :=
  (wake_columns agent_id session s.table).2.2 == s.watchers[i]?.map Watcher.token

/-- Where announcements are in order:
* while the newest watcher runs, and once it is announced, no announcement of another is applied;
* once it has withdrawn, the last announcement on its way is applied before the withdrawal of the
  same watcher;
* a newest watcher that never sent an announcement withdraws where nothing is shown, or what is shown
  goes away: another announcement is on its way, or the withdrawal of the one that is shown. -/
def in_order (s : Sys) : Act → Bool
  | .apply k _ =>
    match s.flight[k]? with
    | some ⟨i, some _⟩ =>
      (i == s.newest || !s.runs s.newest || !s.announced s.newest) &&
        (!s.withdrawn s.newest || s.withdraws i || (s.flight.eraseIdx k).any Request.announces)
    | _ => true
  | .withdraw i =>
    i != s.newest || s.announced i || s.flight.any Request.announces ||
      !is_shown s.clock (wake_columns agent_id session s.table) ||
      (List.range s.watchers.length).any fun j => s.shows agent_id session j && s.withdraws j
  | _ => true

end Law

/-! ## What a request does -/

section Requests

variable {now : ℤ} {b : Bound} {token : String}

theorem normalize_label_ok {field raw v : String} (h : normalize_label field raw = .ok v) :
    v = to_lowercase (trim raw) := by
  unfold normalize_label at h
  simp only at h
  split at h
  · exact (Except.ok.inj h).symm
  · split at h
    · cases h
    · split at h
      · exact (Except.ok.inj h).symm
      · cases h

theorem given_label_ok {o v : Option String} (h : given (normalize_label "wake") o = .ok v) :
    v = o.map fun raw => to_lowercase (trim raw) := by
  cases o with
  | none => exact (Except.ok.inj h).symm
  | some raw =>
    have h : (normalize_label "wake" raw).map some = .ok v := h
    cases hn : normalize_label "wake" raw with
    | error e =>
      rw [hn] at h
      exact absurd h (by simp [Except.map])
    | ok w =>
      rw [hn] at h
      rw [Option.map_some, ← normalize_label_ok hn]
      exact (Except.ok.inj h).symm

theorem label_plain : to_lowercase (trim WATCH_WAKE_LABEL) = WATCH_WAKE_LABEL := by decide

theorem blank_plain : to_lowercase (trim "") = "" := by decide

/-- Until when an announcement lasts. -/
def wake_until (now : ℤ) (secs : ℕ) : ℤ :=
  now + interval_secs (clamp (clamp secs 30 86400) 30 MAX_WAKE_TTL_SECS)

/-- An announcement is written whatever is there. -/
theorem waked_announcement {secs : ℕ} (h : bind_input (announce_wake (some secs) token) = .ok b) (k : Wake) :
    waked now b k = (some WATCH_WAKE_LABEL, some (wake_until now secs), some token) := by
  obtain ⟨hwake, htoken, httl⟩ := bind_input_wake h
  have hwake : b.wake = some WATCH_WAKE_LABEL := by
    rw [given_label_ok hwake]
    simp only [announce_wake, Option.map_some, label_plain]
  have hne : WATCH_WAKE_LABEL ≠ "" := by decide
  unfold waked
  rw [hwake, htoken, httl, if_neg (by simp), if_neg (by simp [hne]), if_neg (by simp [hne])]
  rfl

/-- A withdrawal clears what was announced with its token. -/
theorem waked_withdrawal (h : bind_input (announce_wake none token) = .ok b) (k : Wake) :
    waked now b k = if k.2.2 = some token then (none, none, none) else k := by
  obtain ⟨hwake, htoken, -⟩ := bind_input_wake h
  have hwake : b.wake = some "" := by
    rw [given_label_ok hwake]
    simp only [announce_wake, Option.map_some, blank_plain]
  have htoken : b.wake_token = some token := htoken
  unfold waked
  rw [hwake, htoken, if_neg (by simp)]
  by_cases hown : k.2.2 = some token
  · rw [if_neg (by simp [hown]), if_pos rfl, if_pos hown]
  · rw [if_pos ⟨rfl, by simp, hown⟩, if_neg hown]

/-- A heartbeat that announces nothing leaves the columns alone, or clears them. -/
theorem waked_other {input : HeartbeatInput} (h : bind_input input = .ok b)
    (hother : (input.wake.all fun raw => to_lowercase (trim raw) = "") = true) (k : Wake) :
    waked now b k = k ∨ waked now b k = (none, none, none) := by
  obtain ⟨hwake, -, -⟩ := bind_input_wake h
  have hwake := given_label_ok hwake
  unfold waked
  by_cases hnone : b.wake = none
  · rw [if_pos hnone]
    exact Or.inl rfl
  · have hblank : b.wake = some "" := by
      cases hraw : input.wake with
      | none =>
        rw [hraw] at hwake
        exact absurd hwake hnone
      | some raw =>
        rw [hraw, Option.all_some, decide_eq_true_eq] at hother
        rw [hwake, hraw, Option.map_some, hother]
    rw [if_neg hnone, hblank]
    split
    · exact Or.inl rfl
    · exact Or.inr (if_pos rfl)

end Requests

/-! ## What a step does -/

section Steps

variable {agent_id : Uuid} {session : String} {s t : Sys}

/-- The columns of the window. -/
def Sys.columns (agent_id : Uuid) (session : String) (s : Sys) : Wake := wake_columns agent_id session s.table

/-- What became of the state by an action. -/
inductive Did (agent_id : Uuid) (session : String) (s : Sys) : Act → Sys → Prop
  | started {token : String} : (∀ w ∈ s.watchers, w.token ≠ token) →
      Did agent_id session s (.start token) (s.claim token)
  | announced {i secs : ℕ} {token : String} : s.watchers[i]? = some ⟨token, .claimed⟩ →
      Did agent_id session s (.announce i secs) ((s.put i token .announcing).send ⟨i, some secs⟩)
  | withdrew {i : ℕ} {token : String} : s.watchers[i]? = some ⟨token, .retiring⟩ →
      Did agent_id session s (.withdraw i) ((s.put i token .withdrawing).send ⟨i, none⟩)
  | moved {a : Act} {i : ℕ} {token : String} {ph ph' : Phase} : (∀ k beat, a ≠ .apply k beat) →
      s.watchers[i]? = some ⟨token, ph⟩ → (ph'.runs = true → ph.runs = true) → Did agent_id session s a (s.put i token ph')
  | applied {k : ℕ} {beat : Beat} {r : Request} {w : Watcher} {b : Bound} {table : List AgentPresence} :
      s.flight[k]? = some r → s.watchers[r.watcher]? = some w →
      bind_input (announce_wake r.ttl w.token) = .ok b →
      wake_columns agent_id session table = waked beat.now b (s.columns agent_id session) →
      Did agent_id session s (.apply k beat) (s.apply k r table)
  | beside {a : Act} {table : List AgentPresence} : (∀ k beat, a ≠ .apply k beat) →
      wake_columns agent_id session table = s.columns agent_id session ∨
        wake_columns agent_id session table = (none, none, none) →
      Did agent_id session s a { s with table := table }
  | ticked {clock : ℤ} : s.clock ≤ clock → Did agent_id session s (.tick clock) { s with clock := clock }

theorem beat_some {beat : Beat} {table : List AgentPresence} (h : s.beat agent_id session beat = some table) :
    ∃ b, bind_input beat.input = .ok b ∧
      wake_columns agent_id session table = waked beat.now b (s.columns agent_id session) := by
  unfold Sys.beat at h
  by_cases hwindow : of_window agent_id session beat = true
  · rw [if_pos hwindow] at h
    simp only [of_window, Bool.and_eq_true, beq_iff_eq] at hwindow
    obtain ⟨hagent, hsession⟩ := hwindow
    split at h
    · rename_i info table' hbeat
      obtain ⟨b, hb, hwaked⟩ := heartbeat_waked hbeat
      rw [hagent, hsession, Option.some.inj h] at hwaked
      exact ⟨b, hb, hwaked⟩
    · cases h
  · rw [if_neg hwindow] at h
    cases h

theorem swept_columns (t : List AgentPresence) :
    wake_columns agent_id session (delete (at_window agent_id session) t) = (none, none, none) := by
  have hnone : one (at_window agent_id session) (delete (at_window agent_id session) t) = none := by
    rw [one_eq_none]
    intro p hp
    exact (mem_delete.mp hp).2
  unfold wake_columns
  rw [hnone]

theorem step_did {a : Act} (h : step agent_id session s a = some t) : Did agent_id session s a t := by
  cases a with
  | start token =>
    simp only [step] at h
    split at h
    · rename_i hfresh
      rw [← Option.some.inj h]
      refine .started fun w hw => ?_
      have hne := List.all_eq_true.mp hfresh w hw
      simpa using hne
    · cases h
  | announce i secs =>
    simp only [step] at h
    split at h
    · rename_i token hw
      rw [← Option.some.inj h]
      exact .announced hw
    · cases h
  | skip i | leave i =>
    simp only [step] at h
    split at h
    · rename_i token hw
      rw [← Option.some.inj h]
      exact .moved (by simp) hw fun _ => rfl
    · cases h
  | answered i =>
    simp only [step] at h
    split at h
    · rename_i token hw
      rw [← Option.some.inj h]
      exact .moved (by simp) hw fun _ => rfl
    · rename_i token hw
      rw [← Option.some.inj h]
      exact .moved (by simp) hw fun hruns => absurd hruns (by simp [Phase.runs])
    · cases h
  | retire i =>
    simp only [step] at h
    split at h
    · rename_i token hw
      split at h
      · rw [← Option.some.inj h]
        exact .moved (by simp) hw fun _ => rfl
      · cases h
    · cases h
  | withdraw i =>
    simp only [step] at h
    split at h
    · rename_i token hw
      rw [← Option.some.inj h]
      exact .withdrew hw
    · cases h
  | apply k beat =>
    simp only [step] at h
    cases hr : s.flight[k]? with
    | none => simp [hr] at h
    | some r =>
      simp only [hr] at h
      cases hw : s.watchers[r.watcher]? with
      | none => simp [hw] at h
      | some w =>
        simp only [hw] at h
        by_cases hinput : beat.input = announce_wake r.ttl w.token
        · rw [if_pos hinput] at h
          obtain ⟨table, hbeat, rfl⟩ := Option.map_eq_some_iff.mp h
          obtain ⟨b, hb, hwaked⟩ := beat_some hbeat
          rw [hinput] at hb
          exact .applied hr hw hb hwaked
        · rw [if_neg hinput] at h
          cases h
  | other beat =>
    simp only [step] at h
    by_cases hother : (beat.input.wake.all fun raw => to_lowercase (trim raw) = "") = true
    · rw [if_pos hother] at h
      obtain ⟨table, hbeat, rfl⟩ := Option.map_eq_some_iff.mp h
      obtain ⟨b, hb, hwaked⟩ := beat_some hbeat
      refine .beside (by simp) ?_
      rw [hwaked]
      exact waked_other hb hother _
    · rw [if_neg hother] at h
      cases h
  | swept =>
    simp only [step] at h
    rw [← Option.some.inj h]
    exact .beside (by simp) (Or.inr (swept_columns s.table))
  | tick clock =>
    simp only [step] at h
    split at h
    · rename_i hle
      rw [← Option.some.inj h]
      exact .ticked hle
    · cases h

end Steps

/-! ## The invariant -/

section Inv

variable {agent_id : Uuid} {session : String} {s t : Sys} {i : ℕ}

/-- What is shown goes away: it is over, or its withdrawal is on its way, or another announcement is. -/
def Sys.goes (agent_id : Uuid) (session : String) (s : Sys) : Prop :=
  is_shown s.clock (s.columns agent_id session) = false ∨
    (∃ i < s.watchers.length, s.shows agent_id session i = true ∧ s.withdraws i = true) ∨
    s.flight.any Request.announces = true

/-- The invariant: tokens are told apart, a watcher that runs has sent no withdrawal, the columns
have nobody else's announcement while the newest runs, and what is shown after it has withdrawn
goes away. -/
structure Inv (agent_id : Uuid) (session : String) (s : Sys) : Prop where
  tokens : s.watchers.Pairwise fun w w' => w.token ≠ w'.token
  known : ∀ r ∈ s.flight ++ s.applied, r.watcher < s.watchers.length
  unsent : ∀ i, s.runs i = true → s.withdrawn i = false
  newest : s.runs s.newest = true → s.announced s.newest = true →
    s.columns agent_id session = (none, none, none) ∨ s.shows agent_id session s.newest = true
  last : s.withdrawn s.newest = true → s.goes agent_id session

/-- No watcher was started, and nothing is announced. -/
structure Starts (agent_id : Uuid) (session : String) (s : Sys) : Prop where
  watchers : s.watchers = []
  flight : s.flight = []
  applied : s.applied = []
  columns : s.columns agent_id session = (none, none, none)

theorem Starts.inv (h : Starts agent_id session s) : Inv agent_id session s := by
  refine ⟨?_, ?_, ?_, ?_, ?_⟩
  · rw [h.watchers]
    exact List.Pairwise.nil
  · rw [h.flight, h.applied]
    intro r hr
    exact absurd hr List.not_mem_nil
  · intro i _
    simp [Sys.withdrawn, h.flight, h.applied]
  · intro _ _
    exact Or.inl h.columns
  · intro hw
    simp [Sys.withdrawn, h.flight, h.applied] at hw

/-! ### Single facts -/

theorem withdrawn_iff : s.withdrawn i = true ↔
    ∃ r ∈ s.flight ++ s.applied, r.watcher = i ∧ r.announces = false := by
  simp only [Sys.withdrawn, List.any_eq_true, Bool.and_eq_true, beq_iff_eq, Bool.not_eq_true']

theorem withdraws_iff : s.withdraws i = true ↔ ∃ r ∈ s.flight, r.watcher = i ∧ r.announces = false := by
  simp only [Sys.withdraws, List.any_eq_true, Bool.and_eq_true, beq_iff_eq, Bool.not_eq_true']

theorem announced_iff : s.announced i = true ↔ ∃ r ∈ s.applied, r.watcher = i ∧ r.announces = true := by
  simp only [Sys.announced, List.any_eq_true, Bool.and_eq_true, beq_iff_eq]

theorem shows_iff : s.shows agent_id session i = true ↔
    (s.columns agent_id session).2.2 = s.watchers[i]?.map Watcher.token := by
  unfold Sys.shows Sys.columns
  rw [beq_iff_eq]

/-- A token is one watcher's. -/
theorem Inv.token_eq (h : Inv agent_id session s) {j : ℕ} {w w' : Watcher} (hi : s.watchers[i]? = some w)
    (hj : s.watchers[j]? = some w') (heq : w.token = w'.token) : i = j := by
  obtain ⟨hil, hi⟩ := List.getElem?_eq_some_iff.mp hi
  obtain ⟨hjl, hj⟩ := List.getElem?_eq_some_iff.mp hj
  rw [← hi, ← hj] at heq
  rcases Nat.lt_trichotomy i j with hlt | hsame | hlt
  · exact absurd heq (List.pairwise_iff_getElem.mp h.tokens i j hil hjl hlt)
  · exact hsame
  · exact absurd heq.symm (List.pairwise_iff_getElem.mp h.tokens j i hjl hil hlt)

theorem runs_lt (h : s.runs i = true) : i < s.watchers.length := by
  by_contra hge
  rw [Sys.runs, List.getElem?_eq_none (by omega)] at h
  cases h

section Put

variable {i : ℕ} {token : String} {ph ph' : Phase}

theorem put_length : (s.put i token ph').watchers.length = s.watchers.length := List.length_set

theorem put_token (hw : s.watchers[i]? = some ⟨token, ph⟩) (j : ℕ) :
    (s.put i token ph').watchers[j]?.map Watcher.token = s.watchers[j]?.map Watcher.token := by
  show (s.watchers.set i _)[j]?.map _ = _
  rw [List.getElem?_set]
  by_cases hij : i = j
  · subst hij
    rw [if_pos rfl, if_pos (List.getElem?_eq_some_iff.mp hw).1, hw]
    rfl
  · rw [if_neg hij]

theorem put_tokens (hw : s.watchers[i]? = some ⟨token, ph⟩) (h : s.watchers.Pairwise fun w w' => w.token ≠ w'.token) :
    (s.put i token ph').watchers.Pairwise fun w w' => w.token ≠ w'.token := by
  have hsame : (s.put i token ph').watchers.map Watcher.token = s.watchers.map Watcher.token := by
    refine List.ext_getElem? fun j => ?_
    rw [List.getElem?_map, List.getElem?_map, put_token hw]
  rw [← List.pairwise_map, hsame, List.pairwise_map]
  exact h

theorem put_runs (hw : s.watchers[i]? = some ⟨token, ph⟩) (hph : ph'.runs = true → ph.runs = true) {j : ℕ}
    (h : (s.put i token ph').runs j = true) : s.runs j = true := by
  unfold Sys.runs at *
  have hset : (s.put i token ph').watchers[j]? = (s.watchers.set i ⟨token, ph'⟩)[j]? := rfl
  rw [hset, List.getElem?_set] at h
  by_cases hij : i = j
  · subst hij
    rw [if_pos rfl, if_pos (List.getElem?_eq_some_iff.mp hw).1] at h
    rw [hw]
    exact hph h
  · rw [if_neg hij] at h
    exact h

end Put

/-! ### Every step keeps it -/

theorem is_shown_empty (clock : ℤ) : is_shown clock (none, none, none) = false := rfl

/-- What has run out stays so. -/
theorem is_shown_mono {clock clock' : ℤ} {k : Wake} (hle : clock ≤ clock') (h : is_shown clock k = false) :
    is_shown clock' k = false := by
  obtain ⟨wake, until_, token⟩ := k
  unfold is_shown at *
  cases until_ with
  | none => simp
  | some u =>
    simp only [Option.any_some, Bool.and_eq_false_iff, decide_eq_false_iff_not] at h ⊢
    rcases h with h | h
    · exact Or.inl h
    · exact Or.inr (by omega)

/-- A watcher that claims the window is the newest there. -/
theorem Inv.claim (h : Inv agent_id session s) {token : String} (hfresh : ∀ w ∈ s.watchers, w.token ≠ token) :
    Inv agent_id session (s.claim token) := by
  have hlen : (s.claim token).watchers.length = s.watchers.length + 1 := List.length_append
  have hnewest : (s.claim token).newest = s.watchers.length := by
    unfold Sys.newest
    omega
  -- nothing was sent for the new one yet
  have hnone : ∀ r ∈ s.flight ++ s.applied, r.watcher ≠ s.watchers.length := fun r hr =>
    Nat.ne_of_lt (h.known r hr)
  refine ⟨?_, ?_, ?_, ?_, ?_⟩
  · refine List.pairwise_append.mpr ⟨h.tokens, List.pairwise_singleton _ _, ?_⟩
    intro w hw w' hw'
    rw [List.mem_singleton.mp hw']
    exact hfresh w hw
  · intro r hr
    have hlt := h.known r hr
    omega
  · intro i hruns
    by_cases hi : i < s.watchers.length
    · refine h.unsent i ?_
      unfold Sys.runs Sys.claim at hruns
      rw [List.getElem?_append_left hi] at hruns
      exact hruns
    · have hlt := runs_lt hruns
      rw [← Bool.not_eq_true, withdrawn_iff]
      rintro ⟨r, hr, heq, -⟩
      exact hnone r hr (by omega)
  · rw [hnewest]
    intro _ hann
    obtain ⟨r, hr, heq, -⟩ := announced_iff.mp hann
    exact absurd heq (hnone r (List.mem_append_right _ hr))
  · rw [hnewest]
    intro hw
    obtain ⟨r, hr, heq, -⟩ := withdrawn_iff.mp hw
    exact absurd heq (hnone r hr)

section Put

variable {i : ℕ} {token : String} {ph ph' : Phase}

theorem put_newest : (s.put i token ph').newest = s.newest := by
  unfold Sys.newest
  rw [put_length]

theorem put_shows (hw : s.watchers[i]? = some ⟨token, ph⟩) (j : ℕ) :
    (s.put i token ph').shows agent_id session j = s.shows agent_id session j := by
  unfold Sys.shows
  rw [put_token hw]
  rfl

/-- A watcher goes on, and nothing is sent. -/
theorem Inv.moved (h : Inv agent_id session s) (hw : s.watchers[i]? = some ⟨token, ph⟩)
    (hph : ph'.runs = true → ph.runs = true) : Inv agent_id session (s.put i token ph') := by
  refine ⟨put_tokens hw h.tokens, ?_, ?_, ?_, ?_⟩
  · rw [put_length]
    exact h.known
  · intro j hruns
    exact h.unsent j (put_runs hw hph hruns)
  · rw [put_newest, put_shows hw]
    intro hruns hann
    exact h.newest (put_runs hw hph hruns) hann
  · rw [put_newest]
    intro hwith
    rcases h.last hwith with hover | ⟨j, hj, hshows, hback⟩ | hcoming
    · exact Or.inl hover
    · refine Or.inr (Or.inl ⟨j, ?_, ?_, hback⟩)
      · rw [put_length]
        exact hj
      · rw [put_shows hw]
        exact hshows
    · exact Or.inr (Or.inr hcoming)

/-- A request is sent: of a watcher that does not run, if it is a withdrawal. -/
theorem Inv.send (h : Inv agent_id session s) {r : Request} (hr : r.watcher < s.watchers.length)
    (hstill : r.announces = false → s.runs r.watcher = false)
    (hgoes : (s.send r).withdrawn s.newest = true → (s.send r).goes agent_id session) :
    Inv agent_id session (s.send r) := by
  have hmem : ∀ x, x ∈ (s.send r).flight ++ (s.send r).applied → x ∈ s.flight ++ s.applied ∨ x = r := by
    intro x hx
    simp only [Sys.send, List.append_assoc, List.mem_append, List.mem_singleton] at hx
    rw [List.mem_append]
    tauto
  refine ⟨h.tokens, ?_, ?_, h.newest, hgoes⟩
  · intro x hx
    rcases hmem x hx with hx | rfl
    · exact h.known x hx
    · exact hr
  · intro j (hruns : s.runs j = true)
    rw [← Bool.not_eq_true, withdrawn_iff]
    rintro ⟨x, hx, hxj, hxw⟩
    rcases hmem x hx with hx | rfl
    · have hsent := withdrawn_iff.mpr ⟨x, hx, hxj, hxw⟩
      rw [h.unsent j hruns] at hsent
      cases hsent
    · have hstops := hstill hxw
      rw [hxj, hruns] at hstops
      cases hstops

/-- Where a withdrawal leaves it: what is shown is what the next withdrawal clears, or goes away. -/
theorem Inv.goes_of_withdraw (h : Inv agent_id session s) (hw : s.watchers[i]? = some ⟨token, .retiring⟩)
    (horder : in_order agent_id session s (.withdraw i) = true) (hnew : i = s.newest ∨ s.withdrawn s.newest = true) :
    is_shown s.clock (s.columns agent_id session) = false ∨
      (∃ j < s.watchers.length, s.shows agent_id session j = true ∧ (s.withdraws j = true ∨ j = i)) ∨
      s.flight.any Request.announces = true := by
  have hi : i < s.watchers.length := (List.getElem?_eq_some_iff.mp hw).1
  rcases hnew with hnew | hnew
  · simp only [in_order, Bool.or_eq_true, bne_iff_ne, Bool.not_eq_true', List.any_eq_true,
      List.mem_range, Bool.and_eq_true] at horder
    rcases horder with (((hother | hann) | hcoming) | hover) | ⟨j, hj, hjs, hjw⟩
    · exact absurd hnew hother
    · have hruns : s.runs i = true := by
        unfold Sys.runs
        rw [hw]
        rfl
      rw [hnew] at hann hruns
      rcases h.newest hruns hann with hempty | hown
      · left
        rw [hempty]
        exact is_shown_empty _
      · rw [← hnew] at hown
        exact Or.inr (Or.inl ⟨i, hi, hown, Or.inr rfl⟩)
    · exact Or.inr (Or.inr (List.any_eq_true.mpr hcoming))
    · exact Or.inl hover
    · exact Or.inr (Or.inl ⟨j, hj, hjs, Or.inl hjw⟩)
  · rcases h.last hnew with hover | ⟨j, hj, hjs, hjw⟩ | hcoming
    · exact Or.inl hover
    · exact Or.inr (Or.inl ⟨j, hj, hjs, Or.inl hjw⟩)
    · exact Or.inr (Or.inr hcoming)

/-- A watcher that has claimed the window announces itself. -/
theorem Inv.announced (h : Inv agent_id session s) (hw : s.watchers[i]? = some ⟨token, .claimed⟩) (secs : ℕ) :
    Inv agent_id session ((s.put i token .announcing).send ⟨i, some secs⟩) := by
  have hput : Inv agent_id session (s.put i token .announcing) := h.moved hw fun _ => rfl
  refine hput.send ?_ ?_ ?_
  · rw [put_length]
    exact (List.getElem?_eq_some_iff.mp hw).1
  · intro hnot
    exact absurd hnot (by simp [Request.announces])
  · intro _
    refine Or.inr (Or.inr ?_)
    show (s.flight ++ [_]).any Request.announces = true
    simp [Request.announces]

/-- A retiring watcher sends its withdrawal. -/
theorem Inv.withdrew (h : Inv agent_id session s) (hw : s.watchers[i]? = some ⟨token, .retiring⟩)
    (horder : in_order agent_id session s (.withdraw i) = true) :
    Inv agent_id session ((s.put i token .withdrawing).send ⟨i, none⟩) := by
  have hi : i < s.watchers.length := (List.getElem?_eq_some_iff.mp hw).1
  have hput : Inv agent_id session (s.put i token .withdrawing) := h.moved hw (by simp [Phase.runs])
  refine hput.send ?_ ?_ ?_
  · rw [put_length]
    exact hi
  · intro _
    show ((s.watchers.set i _)[i]?.any _) = false
    rw [List.getElem?_set_self hi]
    rfl
  · rw [put_newest]
    intro hnew
    have hnew : i = s.newest ∨ s.withdrawn s.newest = true := by
      obtain ⟨r, hr, heq, hr'⟩ := withdrawn_iff.mp hnew
      simp only [Sys.send, Sys.put, List.append_assoc, List.mem_append, List.mem_singleton] at hr
      rcases hr with hr | rfl | hr
      · exact Or.inr (withdrawn_iff.mpr ⟨r, List.mem_append_left _ hr, heq, hr'⟩)
      · exact Or.inl heq
      · exact Or.inr (withdrawn_iff.mpr ⟨r, List.mem_append_right _ hr, heq, hr'⟩)
    rcases h.goes_of_withdraw hw horder hnew with hover | ⟨j, hj, hjs, hjw⟩ | hcoming
    · exact Or.inl hover
    · refine Or.inr (Or.inl ⟨j, ?_, ?_, ?_⟩)
      · show j < (s.put i token .withdrawing).watchers.length
        rw [put_length]
        exact hj
      · show (s.put i token .withdrawing).shows agent_id session j = true
        rw [put_shows hw]
        exact hjs
      · rw [withdraws_iff]
        rcases hjw with hjw | rfl
        · obtain ⟨r, hr, hrj⟩ := withdraws_iff.mp hjw
          exact ⟨r, List.mem_append_left _ hr, hrj⟩
        · exact ⟨⟨j, none⟩, List.mem_append_right _ (List.mem_singleton.mpr rfl), rfl, rfl⟩
    · refine Or.inr (Or.inr ?_)
      show (s.flight ++ [_]).any Request.announces = true
      rw [List.any_append, hcoming, Bool.true_or]

end Put

/-! ### A request is applied -/

section Applied

variable {k : ℕ} {r : Request} {w : Watcher} {now : ℤ} {b : Bound} {table : List AgentPresence} {i : ℕ} {beat : Beat}

/-- A request that is applied is no longer under way, and none is lost. -/
theorem mem_apply (hr : s.flight[k]? = some r) (x : Request) :
    x ∈ (s.apply k r table).flight ++ (s.apply k r table).applied ↔ x ∈ s.flight ++ s.applied := by
  have hlt : k < s.flight.length := (List.getElem?_eq_some_iff.mp hr).1
  have hk : s.flight[k] = r := (List.getElem?_eq_some_iff.mp hr).2
  have hperm := List.getElem_cons_eraseIdx_perm hlt
  have hmem : x ∈ s.flight ↔ x = r ∨ x ∈ s.flight.eraseIdx k := by
    rw [← hperm.mem_iff, List.mem_cons, hk]
  simp only [Sys.apply, List.mem_append, List.mem_singleton, hmem]
  tauto

/-- Another request stays in flight. -/
theorem mem_flight_apply (hr : s.flight[k]? = some r) {x : Request} (hx : x ∈ s.flight) (hne : x ≠ r) :
    x ∈ (s.apply k r table).flight := by
  obtain ⟨j, hj⟩ := List.mem_iff_getElem?.mp hx
  refine List.mem_eraseIdx_iff_getElem?.mpr ⟨j, ?_, hj⟩
  rintro rfl
  rw [hr] at hj
  exact hne (Option.some.inj hj).symm

theorem apply_withdrawn (hr : s.flight[k]? = some r) (i : ℕ) : (s.apply k r table).withdrawn i = s.withdrawn i := by
  rw [Bool.eq_iff_iff, withdrawn_iff, withdrawn_iff]
  simp only [mem_apply hr]

/-- The columns after a withdrawal. -/
theorem columns_withdrawal (hbind : bind_input (announce_wake none w.token) = .ok b)
    (hcolumns : wake_columns agent_id session table = waked now b (s.columns agent_id session)) :
    (s.apply k r table).columns agent_id session =
      if (s.columns agent_id session).2.2 = some w.token then (none, none, none)
      else s.columns agent_id session :=
  hcolumns.trans (waked_withdrawal hbind _)

/-- While the newest runs and is announced, a withdrawal of another leaves the columns alone. -/
theorem Inv.withdrawal_keeps (h : Inv agent_id session s) (hw : s.watchers[r.watcher]? = some w)
    (hbind : bind_input (announce_wake none w.token) = .ok b)
    (hcolumns : wake_columns agent_id session table = waked now b (s.columns agent_id session))
    (hother : r.watcher ≠ s.newest) (hruns : s.runs s.newest = true) (hann : s.announced s.newest = true) :
    (s.apply k r table).columns agent_id session = s.columns agent_id session := by
  rw [columns_withdrawal hbind hcolumns]
  refine if_neg fun htoken => ?_
  rcases h.newest hruns hann with hempty | hshows
  · rw [hempty] at htoken
    cases htoken
  · rw [shows_iff, htoken] at hshows
    obtain ⟨w', hw', heq⟩ := Option.map_eq_some_iff.mp hshows.symm
    exact hother (h.token_eq hw hw' heq.symm)

theorem apply_announced (h : (s.apply k r table).announced i = true) :
    s.announced i = true ∨ r.watcher = i ∧ r.announces = true := by
  obtain ⟨x, hx, hxi⟩ := announced_iff.mp h
  rcases List.mem_append.mp hx with hx | hx
  · exact Or.inl (announced_iff.mpr ⟨x, hx, hxi⟩)
  · rw [List.mem_singleton.mp hx] at hxi
    exact Or.inr hxi

theorem apply_withdraws (hr : s.flight[k]? = some r) (h : s.withdraws i = true)
    (hne : r.watcher ≠ i ∨ r.announces = true) : (s.apply k r table).withdraws i = true := by
  obtain ⟨x, hx, hxi, hxw⟩ := withdraws_iff.mp h
  refine withdraws_iff.mpr ⟨x, mem_flight_apply hr hx ?_, hxi, hxw⟩
  rintro rfl
  rcases hne with hne | hne
  · exact hne hxi
  · rw [hxw] at hne
    cases hne

/-- What a request does not touch. -/
theorem Inv.apply (h : Inv agent_id session s) (hr : s.flight[k]? = some r)
    (hnewest : s.runs s.newest = true → (s.apply k r table).announced s.newest = true →
      (s.apply k r table).columns agent_id session = (none, none, none) ∨
        (s.apply k r table).shows agent_id session s.newest = true)
    (hlast : s.withdrawn s.newest = true → (s.apply k r table).goes agent_id session) :
    Inv agent_id session (s.apply k r table) := by
  refine ⟨h.tokens, fun x hx => h.known x ((mem_apply hr x).mp hx), ?_, hnewest, ?_⟩
  · intro j hruns
    rw [apply_withdrawn hr]
    exact h.unsent j hruns
  · intro hnew
    rw [apply_withdrawn hr] at hnew
    exact hlast hnew

/-- An announcement is applied: it is written whatever is there. -/
theorem Inv.announcement (h : Inv agent_id session s) {secs : ℕ}
    (hr : s.flight[k]? = some ⟨i, some secs⟩) (hw : s.watchers[i]? = some w)
    (hbind : bind_input (announce_wake (some secs) w.token) = .ok b)
    (hcolumns : wake_columns agent_id session table = waked now b (s.columns agent_id session))
    (horder : in_order agent_id session s (.apply k beat) = true) :
    Inv agent_id session (s.apply k ⟨i, some secs⟩ table) := by
  have hshows : (s.apply k ⟨i, some secs⟩ table).shows agent_id session i = true := by
    have hnow : (s.apply k ⟨i, some secs⟩ table).columns agent_id session =
        (some WATCH_WAKE_LABEL, some (wake_until now secs), some w.token) :=
      hcolumns.trans (waked_announcement hbind _)
    rw [shows_iff, hnow]
    show some w.token = s.watchers[i]?.map _
    rw [hw]
    rfl
  simp only [in_order, hr, Bool.and_eq_true, Bool.or_eq_true, beq_iff_eq, Bool.not_eq_true'] at horder
  obtain ⟨hfirst, hafter⟩ := horder
  refine h.apply hr (fun hruns hann => Or.inr ?_) fun hnew => ?_
  · -- nobody else's is in order while the newest runs, and is announced
    have hi : i = s.newest := by
      rcases apply_announced hann with hold | ⟨hi, -⟩
      · rcases hfirst with (hi | hnot) | hnot
        · exact hi
        · rw [hnot] at hruns
          cases hruns
        · rw [hnot] at hold
          cases hold
      · exact hi
    rw [← hi]
    exact hshows
  · rcases hafter with (hnot | hown) | hcoming
    · rw [hnot] at hnew
      cases hnew
    · exact Or.inr (Or.inl ⟨i, (List.getElem?_eq_some_iff.mp hw).1, hshows, apply_withdraws hr hown (Or.inr rfl)⟩)
    · exact Or.inr (Or.inr hcoming)

/-- A withdrawal is applied: it clears its own announcement, or leaves the columns alone. -/
theorem Inv.withdrawal (h : Inv agent_id session s) (hr : s.flight[k]? = some ⟨i, none⟩)
    (hw : s.watchers[i]? = some w) (hbind : bind_input (announce_wake none w.token) = .ok b)
    (hcolumns : wake_columns agent_id session table = waked now b (s.columns agent_id session)) :
    Inv agent_id session (s.apply k ⟨i, none⟩ table) := by
  have hnow := columns_withdrawal (k := k) (r := ⟨i, none⟩) hbind hcolumns
  by_cases hown : (s.columns agent_id session).2.2 = some w.token
  · rw [if_pos hown] at hnow
    refine h.apply hr (fun _ _ => Or.inl hnow) fun _ => Or.inl ?_
    rw [hnow]
    exact is_shown_empty _
  rw [if_neg hown] at hnow
  have hsame : ∀ j, (s.apply k ⟨i, none⟩ table).shows agent_id session j = true ↔
      s.shows agent_id session j = true := by
    intro j
    rw [shows_iff, shows_iff, hnow]
    rfl
  refine h.apply hr (fun hruns hann => ?_) fun hnew => ?_
  · rcases apply_announced hann with hold | ⟨-, hnot⟩
    · rw [hnow, hsame]
      exact h.newest hruns hold
    · exact absurd hnot (by simp [Request.announces])
  · rcases h.last hnew with hover | ⟨j, hj, hjs, hjw⟩ | hcoming
    · left
      rw [hnow]
      exact hover
    · refine Or.inr (Or.inl ⟨j, hj, (hsame j).mpr hjs, apply_withdraws hr hjw (Or.inl ?_)⟩)
      rintro rfl
      rw [shows_iff, hw] at hjs
      exact hown hjs
    · refine Or.inr (Or.inr ?_)
      obtain ⟨x, hx, hxa⟩ := List.any_eq_true.mp hcoming
      refine List.any_eq_true.mpr ⟨x, mem_flight_apply hr hx ?_, hxa⟩
      rintro rfl
      exact absurd hxa (by simp [Request.announces])

/-- A request of a watcher reaches the bus. -/
theorem Inv.applied (h : Inv agent_id session s) (hr : s.flight[k]? = some r)
    (hw : s.watchers[r.watcher]? = some w) (hbind : bind_input (announce_wake r.ttl w.token) = .ok b)
    (hcolumns : wake_columns agent_id session table = waked now b (s.columns agent_id session))
    (horder : in_order agent_id session s (.apply k beat) = true) :
    Inv agent_id session (s.apply k r table) := by
  obtain ⟨i, ttl⟩ := r
  cases ttl with
  | some secs => exact h.announcement hr hw hbind hcolumns horder
  | none => exact h.withdrawal hr hw hbind hcolumns

end Applied

/-- The row changes by another hand, which does not announce. -/
theorem Inv.beside (h : Inv agent_id session s) {table : List AgentPresence}
    (hcolumns : wake_columns agent_id session table = s.columns agent_id session ∨
      wake_columns agent_id session table = (none, none, none)) :
    Inv agent_id session { s with table := table } := by
  have hnow : ∀ k : Wake, Sys.columns agent_id session { s with table := table } = k →
      s.columns agent_id session = k ∨ k = (none, none, none) := by
    rintro k rfl
    rcases hcolumns with hsame | hempty
    · exact Or.inl hsame.symm
    · exact Or.inr hempty
  refine ⟨h.tokens, h.known, h.unsent, ?_, ?_⟩
  · intro hruns hann
    rcases hnow _ rfl with hsame | hempty
    · rcases h.newest hruns hann with hempty | hshows
      · exact Or.inl (hsame.symm.trans hempty)
      · rw [shows_iff, hsame] at hshows
        exact Or.inr (shows_iff.mpr hshows)
    · exact Or.inl hempty
  · intro hnew
    rcases hnow _ rfl with hsame | hempty
    · rcases h.last hnew with hover | ⟨j, hj, hjs, hjw⟩ | hcoming
      · rw [hsame] at hover
        exact Or.inl hover
      · rw [shows_iff, hsame] at hjs
        exact Or.inr (Or.inl ⟨j, hj, shows_iff.mpr hjs, hjw⟩)
      · exact Or.inr (Or.inr hcoming)
    · left
      rw [hempty]
      exact is_shown_empty _

/-- **One step.** -/
theorem Inv.step {a : Act} (h : Inv agent_id session s) (horder : in_order agent_id session s a = true)
    (hdid : Did agent_id session s a t) : Inv agent_id session t := by
  cases hdid with
  | started hfresh => exact h.claim hfresh
  | announced hw => exact h.announced hw _
  | withdrew hw => exact h.withdrew hw horder
  | moved _ hw hph => exact h.moved hw hph
  | applied hr hw hbind hcolumns => exact h.applied hr hw hbind hcolumns horder
  | beside _ hcolumns => exact h.beside hcolumns
  | ticked hle =>
    refine ⟨h.tokens, h.known, h.unsent, h.newest, fun hnew => ?_⟩
    rcases h.last hnew with hover | hback
    · exact Or.inl (is_shown_mono hle hover)
    · exact Or.inr hback

end Inv

/-! ## Every run -/

section Runs

variable {agent_id : Uuid} {session : String} {s₀ s : Sys} {tr : List (Trans Sys Act)}

/-- **The announcement shown is the running watcher's**, in every run in which announcements are in
order. -/
theorem shown_is_newest (h₀ : Starts agent_id session s₀) (h : Run (Rel (step agent_id session)) s₀ tr s)
    (horder : ∀ e ∈ tr, in_order agent_id session e.pre e.act = true) :
    AnnouncementLaw agent_id session tr s := by
  have hkeeps : ∀ s a t, Inv agent_id session s → in_order agent_id session s a = true →
      Runs.Rel (step agent_id session) s a t → Inv agent_id session t :=
    fun s a t hs hc hstep => hs.step hc (step_did hstep)
  refine ⟨?_, ?_⟩
  · intro e he k beat r hact hr hother hruns hann
    obtain ⟨pre, act, post⟩ := e
    obtain rfl : act = .apply k beat := hact
    have hpre : Inv agent_id session pre := h.invariant_pre h₀.inv hkeeps horder _ he
    have hin : in_order agent_id session pre (.apply k beat) = true := horder _ he
    have hdid : Did agent_id session pre (.apply k beat) post := step_did (h.rel _ he)
    cases hdid with
    | moved hact | beside hact => exact absurd rfl (hact k beat)
    | @applied _ _ r' w b table hr' hw hbind hcolumns =>
      obtain rfl : r' = r := Option.some.inj (hr'.symm.trans hr)
      obtain ⟨i, ttl⟩ := r'
      cases ttl with
      | none => exact hpre.withdrawal_keeps hw hbind hcolumns hother hruns hann
      | some secs =>
        -- no announcement of another is applied now
        have hother : i ≠ pre.newest := hother
        have hruns : pre.runs pre.newest = true := hruns
        have hann : pre.announced pre.newest = true := hann
        simp only [in_order, hr', hruns, hann, Bool.not_true, Bool.or_false, Bool.and_eq_true,
          beq_iff_eq] at hin
        exact absurd hin.1 hother
  · intro hnew hflight
    have hs : Inv agent_id session s := h.invariant h₀.inv hkeeps horder
    rcases hs.last hnew with hover | ⟨j, -, -, hjw⟩ | hcoming
    · exact hover
    · obtain ⟨x, hx, -⟩ := withdraws_iff.mp hjw
      rw [hflight] at hx
      exact absurd hx List.not_mem_nil
    · rw [hflight] at hcoming
      exact absurd hcoming (by simp)

end Runs

/-! ## Two runs -/

/-- No watcher, and no row. -/
def quiet : Sys := ⟨none, [], [], [], [], 0⟩

theorem quiet_starts : Starts 1 "desk" quiet := ⟨rfl, rfl, rfl, rfl⟩

/-- The bus applies a request of the watcher with this token, at the start of time. -/
def arrives (k : ℕ) (ttl : Option ℕ) (token : String) : Act :=
  .apply k ⟨0, 0, none, Crew.ada_at_desk, announce_wake ttl token, crew⟩

/-- A watcher is followed by another, which withdraws. -/
def handover : List Act :=
  [.start "first", .announce 0 600, arrives 0 (some 600) "first", .answered 0,
    .start "second", .announce 1 600, .leave 0, arrives 0 (some 600) "second", .answered 1,
    .retire 1, .withdraw 1, arrives 0 none "second", .answered 1]

theorem handover_run : (exec (step 1 "desk") quiet handover).isSome = true := by decide

theorem shown_is_newest_handover :
    AnnouncementLaw 1 "desk" ((exec (step 1 "desk") quiet handover).get handover_run).1
      ((exec (step 1 "desk") quiet handover).get handover_run).2 :=
  shown_is_newest quiet_starts (exec_get handover_run) (by decide)

/-- The second watcher's announcement arrives before the first one's. -/
def overtaken : List Act :=
  [.start "first", .announce 0 600, .start "second", .announce 1 600, arrives 1 (some 600) "second", .answered 1,
    arrives 0 (some 600) "first", .retire 1, .withdraw 1, arrives 0 none "second", .answered 1]

theorem overtaken_run : (exec (step 1 "desk") quiet overtaken).isSome = true := by decide

def overtaken_end : List (Trans Sys Act) × Sys := (exec (step 1 "desk") quiet overtaken).get overtaken_run

/-- The first watcher's announcement replaces the second one's, and stays. -/
theorem late_announcement_stays :
    Starts 1 "desk" quiet ∧ Run (Rel (step 1 "desk")) quiet overtaken_end.1 overtaken_end.2 ∧
      ¬ AnnouncementLaw 1 "desk" overtaken_end.1 overtaken_end.2 := by
  refine ⟨quiet_starts, exec_get overtaken_run, fun h => ?_⟩
  have hover := h.cleared (by decide) (by decide)
  revert hover
  decide

end CrewSync.Announcements
