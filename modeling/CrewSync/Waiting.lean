/-
A window that waits again and again, beside the transactions that write the log:
`wait_for_updates` over whole runs.

A transaction gets its id when it first writes, writes rows, and commits or rolls
back; rows are in the table from the moment they are written, and only snapshots
hide them. The window passes the position of each answer as the next `since`. Its
notifications may come late, twice, out of order, or not at all: any payload can be
heard at any time.

The accounting is by positions. Between two positions lies what the later one sees
and the earlier does not, and one reading returns exactly that (`count_ev`). A chain
of readings adds up (`due_add`), and no transaction can end behind a position that
was already taken.
-/
import Mathlib.Data.List.Dedup
import CrewSync.Runs
import CrewSync.EventLog

set_option autoImplicit false

namespace CrewSync.Waiting

open Schema Rows Runs Mvcc Messaging EventLog Crew

/-! ## The system -/

/-- One reading of the log: the rows it found, and the names they were told with. -/
structure Reading where
  rows : List LogRow
  names : Names

/-- What a reading contributes to an answer: a line for each of the first
`REPLAY_LIMIT` rows, and a count of the others. -/
def Reading.lines (rd : Reading) : List WaitEvent :=
  (rd.rows.take REPLAY_LIMIT).filterMap (fun r => describe rd.names ⟨r.payload⟩) ++
    if rd.rows.length > REPLAY_LIMIT then [backlog (rd.rows.length - REPLAY_LIMIT)] else []

/-- A call in progress. -/
structure Call where
  wait : Wait
  /-- Where it started from. -/
  start : Snapshot
  position : Snapshot
  readings : List Reading
  events : List WaitEvent

/-- An answer. -/
structure Answer where
  start : Snapshot
  readings : List Reading
  result : WaitResult

/-- The rows the readings of an answer found. -/
def rows_of (readings : List Reading) : List LogRow := readings.flatMap Reading.rows

/-- Where the window is. -/
inductive Phase where
  | idle
  /-- In the loop, with nothing to report. -/
  | listening (c : Call)
  /-- In the grace window after a message. -/
  | gathering (c : Call)
  /-- Out of the loop. -/
  | leaving (c : Call)

/-- The call in progress. -/
def Phase.call : Phase → Option Call
  | .idle => none
  | .listening c | .gathering c | .leaving c => some c

/-- The state. `ever` holds every row that was written and not rolled back, `log`
what of it is in the table. -/
structure Sys where
  xids : Xids
  next_id : ℕ
  clock : ℕ
  log : List LogRow
  ever : List LogRow
  /-- The `resume_from` of the last answer, or what the first call passes. -/
  since : Option Snapshot
  phase : Phase
  answers : List Answer

/-- What can happen next. -/
inductive Act where
  | tick (to_ : ℕ)
  /-- A transaction writes for the first time. -/
  | begin_
  /-- It changes a task, a lock or a note. -/
  | write (tx : ℕ) (c : Change)
  | commit (tx : ℕ)
  | abort (tx : ℕ)
  | trim (batch : List ℕ)
  /-- The window calls; `pending` is the unread count it reads. -/
  | call (scope : Scope) (focus : Option Uuid) (names : Names) (pending : ℕ) (counts : Counts)
  | notified (e : BusEvent) (names : Names)
  | more (e : BusEvent) (names : Names)
  | lagged
  /-- The wait times out, the hub closes, or the grace window ends. -/
  | break_
  | finish (names : Names) (counts : Counts)
  /-- The call ends without an answer. -/
  | fail

section Steps

variable (auth : AuthCtx) (kinds : Option (List String))

/-- What a reading from `p` finds now. -/
def Sys.found (s : Sys) (p : Option Snapshot) : List LogRow :=
  ev auth.team_id p kinds s.xids.current s.log

/-- A call asks the log, from where it is. -/
def Sys.ask (s : Sys) (c : Call) (names : Names) : Call :=
  let r := replay auth.team_id (some c.position) kinds s.xids.current s.log
  { c with
    position := r.position
    readings := c.readings ++ [⟨s.found auth kinds (some c.position), names⟩]
    events := told names c.events r }

/-- A call answers. -/
def Sys.answer (s : Sys) (c : Call) (counts : Counts) : Sys :=
  { s with
    since := some c.position
    phase := .idle
    answers := s.answers ++ [⟨c.start, c.readings, wait_result c.wait counts c.events c.position⟩] }

/-- The beginning of a call: its first reading, and the messages already waiting. -/
def Sys.begun (s : Sys) (scope : Scope) (focus : Option Uuid) (names : Names) (pending : ℕ) : Call :=
  let r := replay auth.team_id s.since kinds s.xids.current s.log
  let events := told names [] r
  { wait := ⟨auth, scope, focus, kinds⟩
    start := s.since.getD r.position
    position := r.position
    readings := [⟨s.found auth kinds s.since, names⟩]
    events :=
      if pending > 0 ∧ wants kinds "message" then unread_entry pending scope :: events else events }

/-- The loop goes on while there is nothing to report. -/
def Sys.loop (s : Sys) (c : Call) : Sys :=
  { s with phase := if c.events.isEmpty then .listening c else .leaving c }

/-- One step. -/
def step (s : Sys) : Act → Option Sys
  | .tick t => if s.clock ≤ t then some { s with clock := t } else none
  | .begin_ => some { s with xids := s.xids.assign }
  | .write tx c =>
    if tx ∈ s.xids.running then
      let r := bus_emit s.next_id s.clock tx c
      some { s with next_id := s.next_id + 1, log := insert_into r s.log, ever := insert_into r s.ever }
    else none
  | .commit tx => if tx ∈ s.xids.running then some { s with xids := s.xids.finish tx } else none
  | .abort tx =>
    if tx ∈ s.xids.running then
      some { s with
        xids := s.xids.finish tx
        log := delete (fun r => r.tx == tx) s.log
        ever := delete (fun r => r.tx == tx) s.ever }
    else none
  | .trim batch => some { s with log := trimmed s.clock s.xids.current batch s.log }
  | .call scope focus names pending counts =>
    match s.phase with
    | .idle =>
      if since_ok s.since then
        let c := s.begun auth kinds scope focus names pending
        if c.events.isEmpty then some { s with phase := .listening c } else some (s.answer c counts)
      else some s
    | _ => none
  | .notified e names =>
    match s.phase with
    | .listening c =>
      match hear c.wait names e with
      | .skip => some s
      | .ask => some (s.loop (s.ask auth kinds c names))
      | .message d => some { s with phase := .gathering { c with events := c.events ++ [d] } }
    | _ => none
  | .more e names =>
    match s.phase with
    | .gathering c =>
      some { s with
        phase := .gathering { c with events := c.events ++ (batched c.wait names e).toList } }
    | _ => none
  | .lagged =>
    match s.phase with
    | .listening c =>
      some { s with
        phase := .leaving
          { c with events := if wants kinds "message" then c.events ++ [lagged_entry] else c.events } }
    | _ => none
  | .break_ =>
    match s.phase with
    | .listening c | .gathering c => some { s with phase := .leaving c }
    | _ => none
  | .finish names counts =>
    match s.phase with
    | .leaving c => some (s.answer (s.ask auth kinds c names) counts)
    | _ => none
  | .fail =>
    match s.phase with
    | .idle => none
    | _ => some { s with phase := .idle }

end Steps

/-! ## What a reading finds -/

/-- An entry that stands for changes in the log. -/
def of_log (d : WaitEvent) : Bool := d.kind != "message" && d.kind != "unknown"

/-- 1 for a row that lies between two positions and that the window is told about. -/
def share (auth : AuthCtx) (kinds : Option (List String)) (ever : List LogRow) (p q : Snapshot)
    (r : LogRow) : ℕ :=
  if r ∈ ever ∧ wanted auth.team_id kinds r = true then due p q r.tx else 0

section Accounting

variable {auth : AuthCtx} {kinds : Option (List String)} {ever ever' : List LogRow}
  {p q q' : Snapshot} {r : LogRow}

theorem share_self : share auth kinds ever p p r = 0 := by
  unfold share
  split
  · exact due_self
  · rfl

/-- A row the later position does not see has no share. -/
theorem share_zero (h : r ∈ ever → visible r.tx q = false) : share auth kinds ever p q r = 0 := by
  unfold share
  split
  · rename_i hr
    unfold due
    rw [if_neg]
    intro hv
    rw [h hr.1] at hv
    exact absurd hv.1 (by decide)
  · rfl

/-- The shares of a chain of positions add up. -/
theorem share_add (hpq : ∀ tx, visible tx p = true → visible tx q = true)
    (hqq : ∀ tx, visible tx q = true → visible tx q' = true) :
    share auth kinds ever p q r + share auth kinds ever q q' r = share auth kinds ever p q' r := by
  unfold share
  split
  · exact due_add (hpq _) (hqq _)
  · rfl

/-- Rows that the later position does not see can come and go. -/
theorem share_congr (h : (r ∈ ever' ↔ r ∈ ever) ∨ visible r.tx q = false) :
    share auth kinds ever' p q r = share auth kinds ever p q r := by
  rcases h with h | h
  · unfold share
    simp only [h]
  · rw [share_zero fun _ => h, share_zero fun _ => h]

/-- **One reading** finds each row that lies between its two positions, once. -/
theorem count_ev {now : Snapshot} {log : List LogRow} (hlog : log.Nodup) (hsub : ∀ x ∈ log, x ∈ ever)
    (hkept : ∀ x ∈ ever, wanted auth.team_id kinds x = true → visible x.tx p = false → x ∈ log) :
    (ev auth.team_id (some p) kinds now log).count r = share auth kinds ever p now r := by
  have hperm := perm_select
    (fun r : LogRow => wanted auth.team_id kinds r && !visible r.tx p && visible r.tx now) LogRow.id log
  have hnodup := hperm.nodup_iff.mpr (hlog.filter _)
  have hmem : r ∈ ev auth.team_id (some p) kinds now log ↔ r ∈ log ∧
      wanted auth.team_id kinds r = true ∧ visible r.tx p = false ∧ visible r.tx now = true := by
    simp [ev, and_assoc]
  unfold share due
  by_cases hr : r ∈ ever ∧ wanted auth.team_id kinds r = true
  · rw [if_pos hr]
    by_cases hv : visible r.tx now = true ∧ visible r.tx p = false
    · rw [if_pos hv]
      exact List.count_eq_one_of_mem hnodup (hmem.mpr ⟨hkept r hr.1 hr.2 hv.2, hr.2, hv.2, hv.1⟩)
    · rw [if_neg hv, List.count_eq_zero]
      intro hin
      have hin := hmem.mp hin
      exact hv ⟨hin.2.2.2, hin.2.2.1⟩
  · rw [if_neg hr, List.count_eq_zero]
    intro hin
    have hin := hmem.mp hin
    exact hr ⟨hsub r hin.1, hin.2.1⟩

/-! ## What is told of a reading -/

theorem told_eq (names : Names) (events : List WaitEvent) (since : Option Snapshot) (now : Snapshot)
    (log : List LogRow) :
    told names events (replay auth.team_id since kinds now log) =
      events ++ Reading.lines ⟨ev auth.team_id since kinds now log, names⟩ := by
  unfold told push_overflow Reading.lines replay
  rw [List.length_map, List.length_take, List.filterMap_map]
  have hcut : (ev auth.team_id since kinds now log).length >
      min REPLAY_LIMIT (ev auth.team_id since kinds now log).length ↔
      (ev auth.team_id since kinds now log).length > REPLAY_LIMIT := by omega
  by_cases h : (ev auth.team_id since kinds now log).length > REPLAY_LIMIT
  · rw [if_pos (hcut.mpr h), if_pos h, Nat.min_eq_left (Nat.le_of_lt h), List.append_assoc]
    rfl
  · rw [if_neg fun hc => h (hcut.mp hc), if_neg h, List.append_nil]
    rfl

/-- Every line of a reading stands for changes in the log. -/
theorem lines_of_log {rd : Reading} (h : ∀ r ∈ rd.rows, ∃ c : Change, r.payload = c.payload) :
    rd.lines.filter of_log = rd.lines := by
  refine List.filter_eq_self.mpr fun d hd => ?_
  rcases List.mem_append.mp hd with hd | hd
  · obtain ⟨r, hr, hdesc⟩ := List.mem_filterMap.mp hd
    obtain ⟨c, hc⟩ := h r (List.mem_of_mem_take hr)
    have hkind := describe_kind hdesc
    unfold of_log
    rw [hkind]
    rcases change_kind c with hk | hk | hk <;> simp [BusEvent.kind, hc, hk]
  · split at hd
    · obtain rfl := List.mem_singleton.mp hd
      rfl
    · exact absurd hd List.not_mem_nil

end Accounting

/-! ## The invariant -/

section Invariant

variable (auth : AuthCtx) (kinds : Option (List String))

/-- The position behind which nothing may be missing from the table: where the next
reading, of this call or of one that repeats it, can start from. -/
def Sys.held (s : Sys) : Option Snapshot :=
  match s.since with
  | some p => some p
  | none => s.phase.call.map Call.start

/-- Within the log's retention: what the held position does not see is no older than
a day. -/
def Retained (s : Sys) : Prop :=
  ∀ p, s.held = some p → ∀ r ∈ s.log, wanted auth.team_id kinds r = true →
    visible r.tx p = false → s.clock ≤ r.logged_at + RETENTION

/-- What position `p` does not see is still in the table. -/
def Kept (s : Sys) (p : Snapshot) : Prop :=
  ∀ r ∈ s.ever, wanted auth.team_id kinds r = true → visible r.tx p = false → r ∈ s.log

/-- The rows come from triggers. -/
def Made (rows : List LogRow) : Prop := ∀ r ∈ rows, ∃ c : Change, r.payload = c.payload

/-- What the log can be. -/
structure Store (s : Sys) : Prop where
  xids : s.xids.Good
  ids : Keyed LogRow.id s.ever
  fresh : ∀ r ∈ s.ever, r.id < s.next_id
  sub : s.log.Sublist s.ever
  txs : ∀ r ∈ s.ever, r.tx ∈ s.xids.running ∨ s.xids.over r.tx
  /-- The rows of a running transaction are in the table. -/
  kept : ∀ r ∈ s.ever, r.tx ∈ s.xids.running → r ∈ s.log
  made : Made s.ever

/-- A call has told what lies between where it started and where it is. -/
structure Good (s : Sys) (c : Call) : Prop where
  kept : Kept auth kinds s c.start
  seen : Seen c.position s.xids
  after : ∀ tx, visible tx c.start = true → visible tx c.position = true
  since : ∀ p, s.since = some p → c.start = p
  counts : ∀ r, (rows_of c.readings).count r = share auth kinds s.ever c.start c.position r
  made : ∀ rd ∈ c.readings, Made rd.rows
  told : c.events.filter of_log = c.readings.flatMap Reading.lines

/-- An answer told what its readings found. -/
structure Honest (a : Answer) : Prop where
  made : ∀ rd ∈ a.readings, Made rd.rows
  told : a.result.events.filter of_log = a.readings.flatMap Reading.lines

/-- All rows the answers account for. -/
def counted (answers : List Answer) : List LogRow := answers.flatMap fun a => rows_of a.readings

/-- The invariant. -/
structure Inv (s : Sys) : Prop where
  store : Store s
  seen : ∀ p, s.since = some p → Seen p s.xids ∧ Kept auth kinds s p
  call : ∀ c, s.phase.call = some c → Good auth kinds s c
  none : s.since = none → s.answers = []
  first : ∀ a, s.answers.head? = some a → ∀ p, s.since = some p →
    (∀ tx, visible tx a.start = true → visible tx p = true) ∧
      ∀ r, (counted s.answers).count r = share auth kinds s.ever a.start p r
  last : ∀ a, s.answers.getLast? = some a → s.since = some a.result.resume_from
  honest : ∀ a ∈ s.answers, Honest a

end Invariant

section Steps

variable {auth : AuthCtx} {kinds : Option (List String)} {s t : Sys} {tx : ℕ} {r : LogRow} {c : Call} {w : Wait}
  {names : Names} {e : BusEvent} {d : WaitEvent}

/-! ## The transactions -/

/-- What is no older than a day is in the table. -/
def Young (s : Sys) : Prop := ∀ r ∈ s.ever, s.clock ≤ r.logged_at + RETENTION → r ∈ s.log

/-- The log goes on: positions stay good, and only rows of running transactions come
and go. -/
structure Moved (s t : Sys) : Prop where
  store : Store t
  clock : s.clock ≤ t.clock
  young : Young s → Young t
  seen : ∀ p, Seen p s.xids → Seen p t.xids
  ever : ∀ r, (r ∈ t.ever ↔ r ∈ s.ever) ∨ r.tx ∈ s.xids.running

/-- It does, and the window is where it was. -/
structure Beside (s t : Sys) : Prop extends Moved s t where
  since : t.since = s.since
  phase : t.phase = s.phase
  answers : t.answers = s.answers

theorem Store.tick (h : Store s) {n : ℕ} (hn : s.clock ≤ n) : Beside s { s with clock := n } where
  store := ⟨h.xids, h.ids, h.fresh, h.sub, h.txs, h.kept, h.made⟩
  clock := hn
  young hy r hr hage := hy r hr (Nat.le_trans hn hage)
  seen _ hp := hp
  ever _ := .inl Iff.rfl
  since := rfl
  phase := rfl
  answers := rfl

theorem Store.begin_ (h : Store s) : Beside s { s with xids := s.xids.assign } := by
  have hx := h.xids
  refine ⟨⟨⟨hx.assign, h.ids, h.fresh, h.sub, ?_, ?_, h.made⟩, Nat.le_refl _, fun hy => hy,
    fun _ hp => hp.assign hx, fun _ => .inl Iff.rfl⟩, rfl, rfl, rfl⟩
  · intro r hr
    rcases h.txs r hr with hrun | hover
    · exact .inl (List.mem_cons_of_mem _ hrun)
    · exact .inr (over_assign hx hover)
  · intro r hr hrun
    rcases List.mem_cons.mp hrun with heq | hrun
    · -- the new id is above every id there was
      have hlt : r.tx < s.xids.next := by
        rcases h.txs r hr with hrun | hover
        · exact hx.running _ hrun
        · exact Nat.lt_of_lt_of_le hover.1 hx.completed
      omega
    · exact h.kept r hr hrun

theorem Store.write (h : Store s) (htx : tx ∈ s.xids.running) (c : Change) :
    Beside s { s with
      next_id := s.next_id + 1
      log := insert_into (bus_emit s.next_id s.clock tx c) s.log
      ever := insert_into (bus_emit s.next_id s.clock tx c) s.ever } := by
  have hfresh : ∀ r ∈ s.ever, r.id ≠ s.next_id := fun r hr => Nat.ne_of_lt (h.fresh r hr)
  refine ⟨⟨⟨h.xids, h.ids.insert_into hfresh, ?_, ?_, ?_, ?_, ?_⟩, Nat.le_refl _, ?_, fun _ hp => hp, ?_⟩,
    rfl, rfl, rfl⟩
  · intro r hr
    rcases mem_insert_into.mp hr with hr | rfl
    · exact Nat.lt_succ_of_lt (h.fresh r hr)
    · exact Nat.lt_succ_self _
  · exact List.Sublist.append h.sub (List.Sublist.refl _)
  · intro r hr
    rcases mem_insert_into.mp hr with hr | rfl
    · exact h.txs r hr
    · exact .inl htx
  · intro r hr hrun
    rcases mem_insert_into.mp hr with hr | rfl
    · exact mem_insert_into.mpr (.inl (h.kept r hr hrun))
    · exact mem_insert_into.mpr (.inr rfl)
  · intro r hr
    rcases mem_insert_into.mp hr with hr | rfl
    · exact h.made r hr
    · exact ⟨c, rfl⟩
  · intro hy r hr hage
    rcases mem_insert_into.mp hr with hr | rfl
    · exact mem_insert_into.mpr (.inl (hy r hr hage))
    · exact mem_insert_into.mpr (.inr rfl)
  · intro r
    by_cases hr : r = bus_emit s.next_id s.clock tx c
    · right
      rw [hr]
      exact htx
    · left
      rw [mem_insert_into]
      exact ⟨fun hin => hin.resolve_right hr, .inl⟩

theorem Store.commit (h : Store s) (htx : tx ∈ s.xids.running) :
    Beside s { s with xids := s.xids.finish tx } := by
  refine ⟨⟨⟨h.xids.finish htx, h.ids, h.fresh, h.sub, ?_, ?_, h.made⟩, Nat.le_refl _, fun hy => hy,
    fun _ hp => hp.finish tx, fun _ => .inl Iff.rfl⟩, rfl, rfl, rfl⟩
  · intro r hr
    rcases h.txs r hr with hrun | hover
    · by_cases heq : r.tx = tx
      · rw [heq]
        exact .inr finish_over
      · exact .inl (List.mem_filter.mpr ⟨hrun, by simpa using heq⟩)
    · exact .inr (over_finish hover tx)
  · exact fun r hr hrun => h.kept r hr (List.mem_filter.mp hrun).1

/-- The rows of other transactions stay where they are. -/
theorem mem_aborted {rows : List LogRow} :
    r ∈ delete (fun r : LogRow => r.tx == tx) rows ↔ r ∈ rows ∧ r.tx ≠ tx := by
  simp

theorem Store.abort (h : Store s) (htx : tx ∈ s.xids.running) :
    Beside s { s with
      xids := s.xids.finish tx
      log := delete (fun r => r.tx == tx) s.log
      ever := delete (fun r => r.tx == tx) s.ever } := by
  refine ⟨⟨⟨h.xids.finish htx, h.ids.delete _, ?_, h.sub.filter _, ?_, ?_, ?_⟩, Nat.le_refl _, ?_,
    fun _ hp => hp.finish tx, ?_⟩, rfl, rfl, rfl⟩
  · exact fun r hr => h.fresh r (mem_aborted.mp hr).1
  · intro r hr
    obtain ⟨hr, hne⟩ := mem_aborted.mp hr
    rcases h.txs r hr with hrun | hover
    · exact .inl (List.mem_filter.mpr ⟨hrun, by simpa using hne⟩)
    · exact .inr (over_finish hover tx)
  · intro r hr hrun
    obtain ⟨hr, hne⟩ := mem_aborted.mp hr
    exact mem_aborted.mpr ⟨h.kept r hr (List.mem_filter.mp hrun).1, hne⟩
  · exact fun r hr => h.made r (mem_aborted.mp hr).1
  · intro hy r hr hage
    obtain ⟨hr, hne⟩ := mem_aborted.mp hr
    exact mem_aborted.mpr ⟨hy r hr hage, hne⟩
  · intro r
    by_cases hr : r.tx = tx
    · rw [hr]
      exact .inr htx
    · left
      rw [mem_aborted]
      exact ⟨fun hin => hin.1, fun hin => ⟨hin, hr⟩⟩

/-- A trim takes a row that is committed and older than a day. -/
theorem trimmed_old {batch : List ℕ} (hr : r ∈ s.log) (hgone : r ∉ trimmed s.clock s.xids.current batch s.log) :
    visible r.tx s.xids.current = true ∧ r.logged_at + RETENTION < s.clock := by
  by_contra hnot
  apply hgone
  simp only [trimmed, mem_delete]
  refine ⟨hr, ?_⟩
  simp only [Bool.and_eq_false_imp, decide_eq_false_iff_not]
  intro hb hage
  simp only [Bool.and_eq_true] at hb
  exact hnot ⟨hb.2, hage⟩

theorem Store.trim (h : Store s) (batch : List ℕ) :
    Beside s { s with log := trimmed s.clock s.xids.current batch s.log } := by
  refine ⟨⟨⟨h.xids, h.ids, h.fresh, List.filter_sublist.trans h.sub, h.txs, ?_, h.made⟩, Nat.le_refl _, ?_,
    fun _ hp => hp, fun _ => .inl Iff.rfl⟩, rfl, rfl, rfl⟩
  · intro r hr hrun
    -- the trim does not see what is not committed
    have hv := (Seen.current (x := s.xids)).not_running hrun
    by_contra hgone
    rw [(trimmed_old (h.kept r hr hrun) hgone).1] at hv
    cases hv
  · intro hy r hr hage
    by_contra hgone
    have hold := (trimmed_old (hy r hr hage) hgone).2
    have hage : s.clock ≤ r.logged_at + RETENTION := hage
    omega

/-- The window's call does not notice a step of the log. -/
theorem Inv.log_step (hs : Inv auth kinds s) (h : Beside s t)
    (hkept : ∀ p, s.held = some p → Kept auth kinds s p → Kept auth kinds t p) : Inv auth kinds t := by
  have hshare : ∀ p q r, Seen q s.xids →
      share auth kinds t.ever p q r = share auth kinds s.ever p q r := by
    intro p q r hq
    refine share_congr ?_
    rcases h.ever r with hin | hrun
    · exact .inl hin
    · exact .inr (hq.not_running hrun)
  refine ⟨h.store, ?_, ?_, ?_, ?_, ?_, ?_⟩
  · intro p hp
    rw [h.since] at hp
    obtain ⟨h1, h2⟩ := hs.seen p hp
    exact ⟨h.seen p h1, hkept p (by unfold Sys.held; rw [hp]) h2⟩
  · intro c hc
    rw [h.phase] at hc
    have hgood := hs.call c hc
    refine ⟨hkept c.start ?_ hgood.kept, h.seen _ hgood.seen, hgood.after, ?_, ?_, hgood.made,
      hgood.told⟩
    · -- the call started from the position that is held
      unfold Sys.held
      split
      · rename_i p hp
        rw [hgood.since p hp]
      · rw [hc]
        rfl
    · intro p hp
      rw [h.since] at hp
      exact hgood.since p hp
    · intro r
      rw [hshare _ _ _ hgood.seen]
      exact hgood.counts r
  · intro hnone
    rw [h.answers]
    rw [h.since] at hnone
    exact hs.none hnone
  · intro a ha p hp
    rw [h.answers] at ha ⊢
    rw [h.since] at hp
    obtain ⟨h1, h2⟩ := hs.first a ha p hp
    refine ⟨h1, fun r => ?_⟩
    rw [hshare _ _ _ (hs.seen p hp).1]
    exact h2 r
  · intro a ha
    rw [h.answers] at ha
    rw [h.since]
    exact hs.last a ha
  · intro a ha
    rw [h.answers] at ha
    exact hs.honest a ha

theorem Inv.write (hs : Inv auth kinds s) (htx : tx ∈ s.xids.running) (c : Change) :
    Inv auth kinds { s with
      next_id := s.next_id + 1
      log := insert_into (bus_emit s.next_id s.clock tx c) s.log
      ever := insert_into (bus_emit s.next_id s.clock tx c) s.ever } := by
  refine hs.log_step (hs.store.write htx c) fun p _ hkept r hr hw hv => ?_
  rcases mem_insert_into.mp hr with hr | rfl
  · exact mem_insert_into.mpr (.inl (hkept r hr hw hv))
  · exact mem_insert_into.mpr (.inr rfl)

theorem Inv.abort (hs : Inv auth kinds s) (htx : tx ∈ s.xids.running) :
    Inv auth kinds { s with
      xids := s.xids.finish tx
      log := delete (fun r => r.tx == tx) s.log
      ever := delete (fun r => r.tx == tx) s.ever } := by
  refine hs.log_step (hs.store.abort htx) fun p _ hkept r hr hw hv => ?_
  obtain ⟨hr, hne⟩ := mem_aborted.mp hr
  exact mem_aborted.mpr ⟨hkept r hr hw hv, hne⟩

theorem Inv.trim (hs : Inv auth kinds s) (hret : Retained auth kinds s) (batch : List ℕ) :
    Inv auth kinds { s with log := trimmed s.clock s.xids.current batch s.log } := by
  refine hs.log_step (hs.store.trim batch) fun p hp hkept r hr hw hv => ?_
  by_contra hgone
  have hin := hkept r hr hw hv
  have hage := hret p hp r hin hw hv
  have hold := (trimmed_old hin hgone).2
  omega

/-! ## The calls -/

/-- Only the call in progress changes. -/
theorem Inv.phase_step (hs : Inv auth kinds s) {ph : Phase}
    (hcall : ∀ c, ph.call = some c → Good auth kinds s c) : Inv auth kinds { s with phase := ph } :=
  ⟨⟨hs.store.xids, hs.store.ids, hs.store.fresh, hs.store.sub, hs.store.txs, hs.store.kept,
    hs.store.made⟩, hs.seen, fun c hc => ⟨(hcall c hc).kept, (hcall c hc).seen, (hcall c hc).after,
    (hcall c hc).since, (hcall c hc).counts, (hcall c hc).made, (hcall c hc).told⟩, hs.none, hs.first,
    hs.last, hs.honest⟩

/-- A call may report more that is not of the log. -/
theorem Good.report (h : Good auth kinds s c) {events : List WaitEvent}
    (he : events.filter of_log = c.events.filter of_log) : Good auth kinds s { c with events := events } :=
  ⟨h.kept, h.seen, h.after, h.since, h.counts, h.made, he.trans h.told⟩

/-- What a reading finds was made by triggers. -/
theorem Store.found_made (hs : Store s) (p : Option Snapshot) : Made (s.found auth kinds p) := by
  intro r hr
  unfold Sys.found ev at hr
  split at hr
  · exact absurd hr List.not_mem_nil
  · exact hs.made r (hs.sub.subset (mem_select.mp hr).1)

/-- A call that asks the log again has told what lies up to now. -/
theorem Good.ask (hs : Inv auth kinds s) (h : Good auth kinds s c) (names : Names) :
    Good auth kinds s (s.ask auth kinds c names) := by
  have hmade : Made (s.found auth kinds (some c.position)) := hs.store.found_made _
  have hnow : ∀ tx, visible tx c.position = true → visible tx s.xids.current = true :=
    fun tx htx => h.seen.visible htx
  refine ⟨h.kept, Seen.current, fun tx htx => hnow tx (h.after tx htx), h.since, ?_, ?_, ?_⟩
  · intro r
    have hfound : (s.found auth kinds (some c.position)).count r =
        share auth kinds s.ever c.position s.xids.current r := by
      refine count_ev ?_ (fun x hx => hs.store.sub.subset hx) ?_
      · exact hs.store.sub.nodup (List.Nodup.of_map _ hs.store.ids)
      · intro x hx hw hv
        refine h.kept x hx hw ?_
        by_contra hstart
        rw [h.after x.tx (by simpa using hstart)] at hv
        cases hv
    have hrows : rows_of (s.ask auth kinds c names).readings =
        rows_of c.readings ++ s.found auth kinds (some c.position) := by
      simp [Sys.ask, rows_of]
    rw [hrows, List.count_append, h.counts r, hfound]
    exact share_add h.after hnow
  · intro rd hrd
    rcases List.mem_append.mp hrd with hrd | hrd
    · exact h.made rd hrd
    · rw [List.mem_singleton.mp hrd]
      exact hmade
  · show (EventLog.told names c.events
      (replay auth.team_id (some c.position) kinds s.xids.current s.log)).filter of_log = (c.readings ++ [_]).flatMap Reading.lines
    rw [told_eq, List.filter_append, h.told, List.flatMap_append]
    congr 1
    rw [List.flatMap_singleton]
    exact lines_of_log hmade

/-- A call begins at the position it was given, or else at the one it reads. -/
theorem Good.begun (hs : Inv auth kinds s) (scope : Scope) (focus : Option Uuid) (names : Names)
    (pending : ℕ) : Good auth kinds s (s.begun auth kinds scope focus names pending) := by
  have hmade : Made (s.found auth kinds s.since) := hs.store.found_made _
  have hrows : rows_of (s.begun auth kinds scope focus names pending).readings =
      s.found auth kinds s.since := by
    simp [Sys.begun, rows_of]
  have htold : (s.begun auth kinds scope focus names pending).events.filter of_log =
      Reading.lines ⟨s.found auth kinds s.since, names⟩ := by
    have hlines : EventLog.told names [] (replay auth.team_id s.since kinds s.xids.current s.log) =
        [] ++ Reading.lines ⟨ev auth.team_id s.since kinds s.xids.current s.log, names⟩ :=
      told_eq names [] s.since s.xids.current s.log
    rw [List.nil_append] at hlines
    unfold Sys.begun
    simp only [hlines]
    split
    · rw [List.filter_cons_of_neg (by simp [of_log, unread_entry])]
      exact lines_of_log hmade
    · exact lines_of_log hmade
  have hreadings : ∀ rd ∈ (s.begun auth kinds scope focus names pending).readings, Made rd.rows := by
    intro rd hrd
    rw [List.mem_singleton.mp hrd]
    exact hmade
  have hone : (s.begun auth kinds scope focus names pending).readings.flatMap Reading.lines =
      Reading.lines ⟨s.found auth kinds s.since, names⟩ := by
    simp [Sys.begun]
  cases hsince : s.since with
  | none =>
    -- it starts where it is, and what it does not see is still being written
    have hstart : (s.begun auth kinds scope focus names pending).start = s.xids.current := by
      simp [Sys.begun, hsince, replay]
    have hpos : (s.begun auth kinds scope focus names pending).position = s.xids.current := rfl
    refine ⟨?_, Seen.current, ?_, ?_, ?_, hreadings, htold.trans hone.symm⟩
    · intro r hr _ hv
      rw [hstart] at hv
      rcases hs.store.txs r hr with h | h
      · exact hs.store.kept r hr h
      · rw [visible_current.mpr h] at hv
        cases hv
    · intro tx htx
      rwa [hstart] at htx
    · intro p hp
      rw [hsince] at hp
      cases hp
    · intro r
      rw [hrows, hstart, hpos, share_self, hsince]
      exact List.count_nil
  | some p =>
    obtain ⟨hseen, hkept⟩ := hs.seen p hsince
    have hstart : (s.begun auth kinds scope focus names pending).start = p := by
      simp [Sys.begun, hsince]
    refine ⟨?_, Seen.current, ?_, ?_, ?_, hreadings, htold.trans hone.symm⟩
    · rw [hstart]
      exact hkept
    · intro tx htx
      rw [hstart] at htx
      exact hseen.visible htx
    · intro q hq
      rw [hstart]
      exact Option.some.inj (hsince.symm.trans hq)
    · intro r
      rw [hrows, hstart, hsince]
      refine count_ev ?_ (fun x hx => hs.store.sub.subset hx) hkept
      exact hs.store.sub.nodup (List.Nodup.of_map _ hs.store.ids)

/-- A call answers: what it told is added to what the answers before it told. -/
theorem Inv.answer (hs : Inv auth kinds s) (h : Good auth kinds s c) (counts : Counts) :
    Inv auth kinds (s.answer c counts) := by
  have hkept : Kept auth kinds s c.position := by
    intro r hr hw hv
    refine h.kept r hr hw ?_
    by_contra hstart
    rw [h.after r.tx (by simpa using hstart)] at hv
    cases hv
  have hcounted : ∀ r, (counted (s.answer c counts).answers).count r =
      (counted s.answers).count r + share auth kinds s.ever c.start c.position r := by
    intro r
    rw [← h.counts r, ← List.count_append]
    simp [counted, Sys.answer]
  refine ⟨⟨hs.store.xids, hs.store.ids, hs.store.fresh, hs.store.sub, hs.store.txs, hs.store.kept,
    hs.store.made⟩, ?_, ?_, ?_, ?_, ?_, ?_⟩
  · intro p hp
    obtain rfl := Option.some.inj hp
    exact ⟨h.seen, hkept⟩
  · intro c' hc'
    exact absurd hc' (by simp [Sys.answer, Phase.call])
  · intro hnone
    exact absurd hnone (by simp [Sys.answer])
  · intro a ha p hp
    obtain rfl := Option.some.inj hp
    cases hans : s.answers with
    | nil =>
      -- the first answer
      have hstart : a.start = c.start := by
        simp only [Sys.answer, hans, List.nil_append, List.head?_cons, Option.some.injEq] at ha
        rw [← ha]
      rw [hstart]
      refine ⟨h.after, fun r => ?_⟩
      rw [hcounted, hans]
      exact Nat.zero_add _
    | cons a' rest =>
      have ha' : s.answers.head? = some a := by
        simp only [Sys.answer, hans, List.cons_append, List.head?_cons] at ha
        rw [hans, List.head?_cons]
        exact ha
      -- it went on from where the last one ended
      cases hsince : s.since with
      | none => rw [hs.none hsince] at hans; exact nomatch hans
      | some q =>
        obtain ⟨h1, h2⟩ := hs.first a ha' q hsince
        have hstart := h.since q hsince
        rw [hstart] at hcounted
        have hafter := h.after
        rw [hstart] at hafter
        refine ⟨fun tx htx => hafter tx (h1 tx htx), fun r => ?_⟩
        rw [hcounted, h2 r]
        exact share_add h1 hafter
  · intro a ha
    rw [Sys.answer, List.getLast?_append, List.getLast?_singleton, Option.some_or] at ha
    obtain rfl := Option.some.inj ha
    rfl
  · intro a ha
    rcases List.mem_append.mp ha with ha | ha
    · exact hs.honest a ha
    · rw [List.mem_singleton.mp ha]
      exact ⟨h.made, h.told⟩

/-- What a loop does with a message it describes is not of the log. -/
theorem hear_message (h : hear w names e = .message d) : of_log d = false := by
  unfold hear at h
  split at h
  · cases h
  · split at h
    · cases h
    · rename_i hkind
      split at h
      · cases h
      · split at h
        · rename_i d' hd
          obtain rfl := Heard.message.inj h
          have hkind : d'.kind = "message" := (describe_kind hd).trans (by simpa using hkind)
          simp [of_log, hkind]
        · cases h

theorem batched_message (h : batched w names e = some d) : of_log d = false := by
  unfold batched at h
  split at h
  · rename_i hall
    have hkind : d.kind = "message" := by
      rw [describe_kind h]
      simp only [Bool.and_eq_true, beq_iff_eq] at hall
      exact hall.1.1.1.1
    simp [of_log, hkind]
  · cases h

/-- What others do. -/
def of_log_act : Act → Bool
  | .tick _ | .begin_ | .write _ _ | .commit _ | .abort _ | .trim _ => true
  | _ => false

/-- What the bus does with the call in progress, before it answers. -/
def of_call : Act → Bool
  | .notified _ _ | .more _ _ | .lagged | .break_ => true
  | _ => false

/-- What one step does, to the log or to the call. -/
inductive Did (auth : AuthCtx) (kinds : Option (List String)) (s : Sys) : Act → Sys → Prop
  | tick {n : ℕ} (hn : s.clock ≤ n) : Did auth kinds s (.tick n) { s with clock := n }
  | begin_ : Did auth kinds s .begin_ { s with xids := s.xids.assign }
  | write {tx : ℕ} {c : Change} (htx : tx ∈ s.xids.running) : Did auth kinds s (.write tx c) { s with
      next_id := s.next_id + 1
      log := insert_into (bus_emit s.next_id s.clock tx c) s.log
      ever := insert_into (bus_emit s.next_id s.clock tx c) s.ever }
  | commit {tx : ℕ} (htx : tx ∈ s.xids.running) :
      Did auth kinds s (.commit tx) { s with xids := s.xids.finish tx }
  | abort {tx : ℕ} (htx : tx ∈ s.xids.running) : Did auth kinds s (.abort tx) { s with
      xids := s.xids.finish tx
      log := delete (fun r => r.tx == tx) s.log
      ever := delete (fun r => r.tx == tx) s.ever }
  | trim {batch : List ℕ} :
      Did auth kinds s (.trim batch) { s with log := trimmed s.clock s.xids.current batch s.log }
  | refused {scope : Scope} {focus : Option Uuid} {names : Names} {pending : ℕ} {counts : Counts}
      (hidle : s.phase = .idle) : Did auth kinds s (.call scope focus names pending counts) s
  | called {scope : Scope} {focus : Option Uuid} {names : Names} {pending : ℕ} {counts : Counts}
      (hidle : s.phase = .idle) : Did auth kinds s (.call scope focus names pending counts)
        { s with phase := .listening (s.begun auth kinds scope focus names pending) }
  | replied {scope : Scope} {focus : Option Uuid} {names : Names} {pending : ℕ} {counts : Counts}
      (hidle : s.phase = .idle) : Did auth kinds s (.call scope focus names pending counts)
        (s.answer (s.begun auth kinds scope focus names pending) counts)
  /-- The call goes on, and what it reports of the log is as it was. -/
  | went {a : Act} {c : Call} {events : List WaitEvent} {phase : Phase} (ha : of_call a = true)
      (hcall : s.phase.call = some c) (hphase : phase.call = some { c with events := events })
      (hsame : events.filter of_log = c.events.filter of_log) : Did auth kinds s a { s with phase := phase }
  | asked {e : BusEvent} {names : Names} {c : Call} {phase : Phase} (hcall : s.phase.call = some c)
      (hphase : phase.call = some (s.ask auth kinds c names)) :
      Did auth kinds s (.notified e names) { s with phase := phase }
  | finished {names : Names} {counts : Counts} {c : Call} (hcall : s.phase.call = some c) :
      Did auth kinds s (.finish names counts) (s.answer (s.ask auth kinds c names) counts)
  | failed : Did auth kinds s .fail { s with phase := .idle }

theorem step_did {a : Act} (h : step auth kinds s a = some t) : Did auth kinds s a t := by
  cases a with
  | tick n =>
    simp only [Waiting.step, Option.ite_none_right_eq_some, Option.some.injEq] at h
    obtain ⟨hn, rfl⟩ := h
    exact .tick hn
  | begin_ =>
    obtain rfl := Option.some.inj h
    exact .begin_
  | write tx c =>
    simp only [Waiting.step, Option.ite_none_right_eq_some, Option.some.injEq] at h
    obtain ⟨htx, rfl⟩ := h
    exact .write htx
  | commit tx =>
    simp only [Waiting.step, Option.ite_none_right_eq_some, Option.some.injEq] at h
    obtain ⟨htx, rfl⟩ := h
    exact .commit htx
  | abort tx =>
    simp only [Waiting.step, Option.ite_none_right_eq_some, Option.some.injEq] at h
    obtain ⟨htx, rfl⟩ := h
    exact .abort htx
  | trim batch =>
    obtain rfl := Option.some.inj h
    exact .trim
  | call scope focus names pending counts =>
    simp only [Waiting.step] at h
    split at h
    · rename_i hidle
      split at h
      · split at h
        · obtain rfl := Option.some.inj h
          exact .called hidle
        · obtain rfl := Option.some.inj h
          exact .replied hidle
      · obtain rfl := Option.some.inj h
        exact .refused hidle
    · cases h
  | notified e names =>
    simp only [Waiting.step] at h
    split at h
    · rename_i c hphase
      have hcall : s.phase.call = some c := by rw [hphase]; rfl
      split at h
      · obtain rfl := Option.some.inj h
        have hsame : Did auth kinds s (.notified e names) { s with phase := s.phase } := .went rfl hcall hcall rfl
        exact hsame
      · obtain rfl := Option.some.inj h
        refine .asked hcall ?_
        split <;> rfl
      · rename_i d hheard
        obtain rfl := Option.some.inj h
        exact .went rfl hcall rfl (by simp [hear_message hheard])
    · cases h
  | more e names =>
    simp only [Waiting.step] at h
    split at h
    · rename_i c hphase
      obtain rfl := Option.some.inj h
      refine .went rfl (by rw [hphase]; rfl) rfl ?_
      rw [List.filter_append, List.append_right_eq_self, List.filter_eq_nil_iff]
      intro d hd
      simp [batched_message (Option.mem_toList.mp hd)]
    · cases h
  | lagged =>
    simp only [Waiting.step] at h
    split at h
    · rename_i c hphase
      obtain rfl := Option.some.inj h
      refine .went rfl (by rw [hphase]; rfl) rfl ?_
      split
      · rw [List.filter_append, List.append_right_eq_self]
        rfl
      · rfl
    · cases h
  | break_ =>
    simp only [Waiting.step] at h
    split at h
    · rename_i c hphase
      obtain rfl := Option.some.inj h
      exact .went rfl (by rw [hphase]; rfl) rfl rfl
    · rename_i c hphase
      obtain rfl := Option.some.inj h
      exact .went rfl (by rw [hphase]; rfl) rfl rfl
    · cases h
  | finish names counts =>
    simp only [Waiting.step] at h
    split at h
    · rename_i c hphase
      obtain rfl := Option.some.inj h
      exact .finished (by rw [hphase]; rfl)
    · cases h
  | fail =>
    simp only [Waiting.step] at h
    split at h
    · cases h
    · obtain rfl := Option.some.inj h
      exact .failed

/-- **One step** keeps the invariant, if it stays within the retention. -/
theorem Inv.step (hs : Inv auth kinds s) {a : Act} (hret : Retained auth kinds s)
    (h : Rel (step auth kinds) s a t) : Inv auth kinds t := by
  cases step_did h with
  | tick hn => exact hs.log_step (hs.store.tick hn) fun _ _ hkept => hkept
  | begin_ => exact hs.log_step hs.store.begin_ fun _ _ hkept => hkept
  | write htx => exact hs.write htx _
  | commit htx => exact hs.log_step (hs.store.commit htx) fun _ _ hkept => hkept
  | abort htx => exact hs.abort htx
  | trim => exact hs.trim hret _
  | refused => exact hs
  | called =>
    refine hs.phase_step fun c hc => ?_
    rw [← Option.some.inj hc]
    exact Good.begun hs _ _ _ _
  | replied => exact hs.answer (Good.begun hs _ _ _ _) _
  | went _ hcall hphase hsame =>
    refine hs.phase_step fun c hc => ?_
    rw [← Option.some.inj (hphase.symm.trans hc)]
    exact (hs.call _ hcall).report hsame
  | asked hcall hphase =>
    refine hs.phase_step fun c hc => ?_
    rw [← Option.some.inj (hphase.symm.trans hc)]
    exact (hs.call _ hcall).ask hs _
  | finished hcall => exact hs.answer ((hs.call _ hcall).ask hs _) _
  | failed => exact hs.phase_step fun c hc => absurd hc (by simp [Phase.call])

end Steps

/-! ## The law -/

/-- Where a run can start: a log of what triggers wrote, under ids that were handed
out, nothing asked or answered yet, and a position of this store if there is one. -/
structure Started (s : Sys) : Prop where
  xids : s.xids.Good
  ids : Keyed LogRow.id s.ever
  fresh : ∀ r ∈ s.ever, r.id < s.next_id
  log : s.log = s.ever
  txs : ∀ r ∈ s.ever, r.tx ∈ s.xids.running ∨ s.xids.over r.tx
  made : Made s.ever
  since : ∀ p, s.since = some p → Seen p s.xids
  phase : s.phase = .idle
  answers : s.answers = []

/-- The step calls from position `p`: the one it passes, or that of the snapshot it is
made in. -/
def calls (p : Snapshot) (e : Trans Sys Act) : Prop :=
  (∃ scope focus names pending counts, e.act = .call scope focus names pending counts) ∧
    e.pre.phase.call = none ∧ p = e.pre.since.getD e.pre.xids.current

/-- The last call of `tr` was made from `p`, and has been in progress ever since. -/
def Asked (p : Snapshot) (tr : List (Trans Sys Act)) : Prop :=
  ∃ tr₁ e tr₂, tr = tr₁ ++ e :: tr₂ ∧ calls p e ∧ ∀ x ∈ tr₂, x.pre.phase.call.isSome = true

/-- What the answers of the run `tr` have told. -/
structure WaitLaw (auth : AuthCtx) (kinds : Option (List String)) (tr : List (Trans Sys Act)) (s : Sys) : Prop where
  /-- A step answers nothing, or the call in progress: from the position that was called
  from, and with that of the snapshot it reads the log in. -/
  placed : ∀ tr₁ e tr₂, tr = tr₁ ++ e :: tr₂ → e.post.answers = e.pre.answers ∨
    ∃ a, e.post.answers = e.pre.answers ++ [a] ∧ a.result.resume_from = e.pre.xids.current ∧
      Asked a.start (tr₁ ++ [e])
  /-- What an answer says of the log is what its readings found: the first rows of
  each described, the others counted. -/
  told : ∀ a ∈ s.answers, a.result.events.filter of_log = a.readings.flatMap Reading.lines
  /-- Each of the first rows has its line. -/
  described : ∀ a ∈ s.answers, ∀ rd ∈ a.readings, ∀ r ∈ rd.rows.take REPLAY_LIMIT,
    ∃ d, describe rd.names ⟨r.payload⟩ = some d ∧ d ∈ a.result.events
  /-- The next call passes the position of the last answer. -/
  chained : ∀ a, s.answers.getLast? = some a → s.since = some a.result.resume_from
  /-- What was committed behind the position of the first call, by the snapshot of the
  last answer, was found by exactly one reading, and nothing else was. -/
  once : ∀ first last, s.answers.head? = some first → s.answers.getLast? = some last → ∀ r,
    (counted s.answers).count r =
      if (r ∈ s.ever ∧ wanted auth.team_id kinds r = true) ∧ visible r.tx first.start = false ∧
        visible r.tx last.result.resume_from = true then 1 else 0

section Law

variable {auth : AuthCtx} {kinds : Option (List String)} {s₀ s : Sys} {tr : List (Trans Sys Act)}

theorem Started.inv (h : Started s₀) : Inv auth kinds s₀ := by
  refine ⟨⟨h.xids, h.ids, h.fresh, ?_, h.txs, ?_, h.made⟩, ?_, ?_, ?_, ?_, ?_, ?_⟩
  · rw [h.log]
  · intro r hr _
    rw [h.log]
    exact hr
  · intro p hp
    refine ⟨h.since p hp, fun r hr _ _ => ?_⟩
    rw [h.log]
    exact hr
  · intro c hc
    rw [h.phase] at hc
    exact absurd hc (by simp [Phase.call])
  · exact fun _ => h.answers
  · intro a ha
    rw [h.answers] at ha
    cases ha
  · intro a ha
    rw [h.answers] at ha
    cases ha
  · intro a ha
    rw [h.answers] at ha
    exact absurd ha List.not_mem_nil

/-! ### Where the answers start and end -/

/-- A call in progress goes back to the step that made it; an answer, to a call. -/
theorem placed_step {t : Sys} {a : Act} (h : Rel (step auth kinds) s a t) :
    (∀ c, t.phase.call = some c → calls c.start ⟨s, a, t⟩ ∨
      ∃ c', s.phase.call = some c' ∧ c'.start = c.start) ∧
    (t.answers = s.answers ∨ ∃ x, t.answers = s.answers ++ [x] ∧ x.result.resume_from = s.xids.current ∧
      (calls x.start ⟨s, a, t⟩ ∨ ∃ c', s.phase.call = some c' ∧ c'.start = x.start)) := by
  -- the call goes on as it was called, or none is in progress
  have hwent : ∀ {c c' : Call}, s.phase.call = some c → t.phase.call = some c' → c'.start = c.start →
      ∀ d, t.phase.call = some d → calls d.start ⟨s, a, t⟩ ∨ ∃ x, s.phase.call = some x ∧ x.start = d.start := by
    intro c c' hc ht hstart d hd
    obtain rfl := Option.some.inj (ht.symm.trans hd)
    exact .inr ⟨c, hc, hstart.symm⟩
  have hover : t.phase.call = none → ∀ d, t.phase.call = some d →
      calls d.start ⟨s, a, t⟩ ∨ ∃ x, s.phase.call = some x ∧ x.start = d.start :=
    fun hnone d hd => absurd (hnone.symm.trans hd) (by simp)
  cases step_did h with
  | tick | begin_ | write | commit | abort | trim | refused => exact ⟨fun d hd => .inr ⟨d, hd, rfl⟩, .inl rfl⟩
  | called hidle =>
    refine ⟨fun d hd => .inl ?_, .inl rfl⟩
    rw [← Option.some.inj hd]
    exact ⟨⟨_, _, _, _, _, rfl⟩, by rw [hidle]; rfl, rfl⟩
  | replied hidle =>
    exact ⟨hover rfl, .inr ⟨_, rfl, rfl, .inl ⟨⟨_, _, _, _, _, rfl⟩, by rw [hidle]; rfl, rfl⟩⟩⟩
  | went _ hcall hphase | asked hcall hphase => exact ⟨hwent hcall hphase rfl, .inl rfl⟩
  | finished hcall => exact ⟨hover rfl, .inr ⟨_, rfl, rfl, .inr ⟨_, hcall, rfl⟩⟩⟩
  | failed => exact ⟨hover rfl, .inl rfl⟩

/-- A step that makes the call, or finds it in progress. -/
theorem Asked.snoc {p : Snapshot} {tr : List (Trans Sys Act)} {e : Trans Sys Act}
    (hcall : ∀ c, e.pre.phase.call = some c → Asked c.start tr)
    (h : calls p e ∨ ∃ c, e.pre.phase.call = some c ∧ c.start = p) : Asked p (tr ++ [e]) := by
  rcases h with hcalls | ⟨c, hc, rfl⟩
  · exact ⟨tr, e, [], rfl, hcalls, fun x hx => absurd hx List.not_mem_nil⟩
  · obtain ⟨tr₁, d, tr₂, rfl, hd, hsince⟩ := hcall c hc
    refine ⟨tr₁, d, tr₂ ++ [e], by simp, hd, fun x hx => ?_⟩
    rcases List.mem_append.mp hx with hx | hx
    · exact hsince x hx
    · rw [List.mem_singleton.mp hx, hc]
      rfl

/-- In a run, the call in progress was made in it. -/
theorem asked_run (h₀ : s₀.phase = .idle) (h : Run (Rel (step auth kinds)) s₀ tr s) :
    ∀ c, s.phase.call = some c → Asked c.start tr := by
  induction h with
  | nil =>
    intro c hc
    rw [h₀] at hc
    cases hc
  | snoc _ hr ih => exact fun c hc => Asked.snoc ih ((placed_step hr).1 c hc)

/-- **Every change is told exactly once** across the answers of a window that passes
each position on, in every run within the log's retention. -/
theorem told_exactly_once (h₀ : Started s₀) (h : Run (Rel (step auth kinds)) s₀ tr s)
    (hret : ∀ e ∈ tr, Retained auth kinds e.pre) : WaitLaw auth kinds tr s := by
  have hs : Inv auth kinds s :=
    h.invariant (C := fun s _ => Retained auth kinds s) h₀.inv
      (fun _ _ _ hs hr hstep => hs.step hr hstep) hret
  refine ⟨?_, fun a ha => (hs.honest a ha).told, ?_, hs.last, ?_⟩
  · rintro tr₁ e tr₂ rfl
    obtain ⟨hrun, hr, -⟩ := h.split
    rcases (placed_step hr).2 with hsame | ⟨a, hans, hresume, hcall⟩
    · exact .inl hsame
    · exact .inr ⟨a, hans, hresume, Asked.snoc (asked_run h₀.phase hrun) hcall⟩
  · intro a ha rd hrd r hr
    obtain ⟨c, hc⟩ := (hs.honest a ha).made rd hrd r (List.mem_of_mem_take hr)
    obtain ⟨d, hd⟩ := Option.isSome_iff_exists.mp (describe_change rd.names c)
    rw [← hc] at hd
    refine ⟨d, hd, ?_⟩
    have hline : d ∈ rd.lines :=
      List.mem_append_left _ (List.mem_filterMap.mpr ⟨r, hr, hd⟩)
    have hall : d ∈ a.result.events.filter of_log := by
      rw [(hs.honest a ha).told]
      exact List.mem_flatMap.mpr ⟨rd, hrd, hline⟩
    exact (List.mem_filter.mp hall).1
  · intro first last hfirst hlast r
    rw [(hs.first first hfirst _ (hs.last last hlast)).2 r]
    unfold share due
    by_cases hr : r ∈ s.ever ∧ wanted auth.team_id kinds r = true
    · rw [if_pos hr]
      by_cases hv : visible r.tx last.result.resume_from = true ∧ visible r.tx first.start = false
      · rw [if_pos hv, if_pos ⟨hr, hv.2, hv.1⟩]
      · rw [if_neg hv, if_neg fun hc => hv ⟨hc.2.2, hc.2.1⟩]
    · rw [if_neg hr, if_neg fun hc => hr hc.1]

end Law

/-! ## A run -/

/-- Nobody's name is known. -/
def nameless : Names := ⟨fun _ => none, fun _ => none⟩

/-- Two transactions write; the second commits and its notification wakes the window.
The first commits later, and is told by the next call. -/
def out_of_order : List Act :=
  [.call .All none nameless 0 ⟨0, 0, 0⟩, .begin_, .begin_,
    .write 0 (.task 1 "build" "done" (some 2)), .write 1 (.note 1 "global" "plan"), .commit 1,
    .notified ⟨notify_note 1 "global" "plan"⟩ nameless, .finish nameless ⟨0, 0, 0⟩, .commit 0,
    .call .All none nameless 0 ⟨0, 0, 0⟩]

/-- An empty log. -/
def fresh : Sys := ⟨⟨0, 0, []⟩, 0, 0, [], [], none, .idle, []⟩

theorem out_of_order_run : (exec (step ada none) fresh out_of_order).isSome = true := by decide

/-- No time passes. -/
theorem out_of_order_retained :
    ∀ e ∈ ((exec (step ada none) fresh out_of_order).get out_of_order_run).1,
      Retained ada none e.pre := by
  have hclock : ∀ e ∈ ((exec (step ada none) fresh out_of_order).get out_of_order_run).1,
      e.pre.clock = 0 := by decide
  intro e he p _ r _ _ _
  rw [hclock e he]
  exact Nat.zero_le _

theorem told_exactly_once_out_of_order :
    WaitLaw ada none ((exec (step ada none) fresh out_of_order).get out_of_order_run).1
      ((exec (step ada none) fresh out_of_order).get out_of_order_run).2 :=
  told_exactly_once
    ⟨⟨by decide, by decide⟩, by decide, by decide, rfl, fun r hr => absurd hr List.not_mem_nil,
      fun r hr => absurd hr List.not_mem_nil, fun p hp => absurd hp (by simp [fresh]), rfl, rfl⟩
    (exec_get out_of_order_run) out_of_order_retained

example : ((exec (step ada none) fresh out_of_order).get out_of_order_run).2.answers.map
    (fun a => a.result.events.map WaitEvent.kind) = [["note"], ["task"]] := by decide

end CrewSync.Waiting
