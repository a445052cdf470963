/-
`publish_pending` on several replicas at once.

A pass reads its batch without taking anything: the rows it works on are as free for
another pass as they were before. It then asks the broker for one row after the other,
and writes down what the broker said under the row's id, whatever has become of the row
meanwhile. So of two passes that carry the same event, the one that writes last decides,
and a failure that arrives late takes a published event back.

The state keeps the passes that are at work, each with the rows it still has to do and the
answer it has in hand, and two things no table says: which events a pass has had
confirmed, and which have been recorded as published.

Where no event is with two passes at once, an event that is with a pass is pending, and no answer
comes late (`Inv`). A process may still go away between a confirmation and its update; its event is
selected again, and what is left to ask of the broker is that it does not refuse it then (`apart`).
-/
import CrewSync.Inbox
import CrewSync.Runs

set_option autoImplicit false

namespace CrewSync.Replicas

open Schema Rows Inbox Outbox Runs

/-! ## The system -/

/-- A pass: the rows of its batch that are left, and what the broker said of the first. -/
structure Pass where
  rows : List InboxEvent
  answer : Option Published
  deriving DecidableEq, Repr

/-- A pass that is over, or whose process is gone. -/
def idle : Pass := ⟨[], none⟩

/-- The state of the system. -/
structure Sys where
  db : Db
  passes : List Pass
  /-- The events whose reference the broker confirmed to some pass. -/
  confirmed : List Uuid
  /-- The events some pass recorded as published. -/
  published : List Uuid

/-- What can happen next. -/
inductive Act where
  /-- A pass reads its batch. -/
  | select (now : ℕ) (team_id : Uuid) (limit : ℕ)
  /-- The broker answers pass `i`. -/
  | publish (i : ℕ) (answer : Published)
  /-- Pass `i` writes the answer down. -/
  | record (i now : ℕ)
  /-- The process of pass `i` goes away. -/
  | abandon (i : ℕ)
  /-- Any other part of the server commits. -/
  | other (db' : Db)

/-- `Published::Confirmed`. -/
def confirmation : Published → Bool
  | .Confirmed _ => true
  | _ => false

/-- Event `k` is among the rows the pass still has to do. -/
def Pass.carries (p : Pass) (k : Uuid) : Bool := p.rows.any fun e => e.id == k

/-- Outside the passes events are only queued, under new ids, or deleted with their message. -/
def leaves_events (s : Sys) (db' : Db) : Bool :=
  decide (Keyed InboxEvent.id db'.inbox_events) && db'.inbox_events.all fun e =>
    s.db.inbox_events.contains e ||
      (e.state == .pending && !(s.confirmed.contains e.id || s.published.contains e.id))

/-- One step. -/
def step (s : Sys) : Act → Option Sys
  | .select now team_id limit =>
    some { s with passes := s.passes ++ [⟨due_events now team_id limit s.db, none⟩] }
  | .publish i answer =>
    match s.passes[i]? with
    | some ⟨e :: rows, none⟩ => some { s with
        passes := s.passes.set i ⟨e :: rows, some answer⟩
        confirmed := if confirmation answer then e.id :: s.confirmed else s.confirmed }
    | _ => none
  | .record i now =>
    match s.passes[i]? with
    | some ⟨e :: rows, some answer⟩ => some { s with
        db := answer_event now e answer s.db
        passes := s.passes.set i ⟨rows, none⟩
        published := if confirmation answer then e.id :: s.published else s.published }
    | _ => none
  | .abandon i => some { s with passes := s.passes.set i idle }
  | .other db' => if leaves_events s db' then some { s with db := db' } else none

/-- The state before any pass, in which what is published was confirmed. -/
def Sys.start (db : Db) : Sys :=
  let ids := (db.inbox_events.filter fun e => e.state == .published).map InboxEvent.id
  { db := db, passes := [], confirmed := ids, published := ids }

/-! ## The law -/

/-- What has been published stays so, and what has been confirmed is not left failed. -/
structure Final (s : Sys) : Prop where
  published : ∀ x ∈ s.db.inbox_events, x.id ∈ s.published → x.state = .published
  confirmed : ∀ x ∈ s.db.inbox_events, x.id ∈ s.confirmed → x.state ≠ .failed

/-- The answer, given to a pass that read `attempts`, leaves the event failed. -/
def gives_up (attempts : ℕ) : Published → Bool
  | .Confirmed _ => false
  | .Retryable _ => MAX_ATTEMPTS ≤ attempts + 1
  | .Fatal _ => true

/-- No pass selects an event that another pass still has to do, and the broker gives no final
refusal to an event that it has confirmed before, to a pass that went away. -/
def apart (s : Sys) : Act → Bool
  | .select now team_id limit =>
    (due_events now team_id limit s.db).all fun e => s.passes.all fun p => !p.carries e.id
  | .publish i answer =>
    (s.passes[i]?).all fun p => p.rows.head?.all fun e =>
      !gives_up e.attempts answer || !s.confirmed.contains e.id
  | _ => true

/-! ## The steps -/

section Steps

variable {s t : Sys} {a : Act} {i now : ℕ} {db db' : Db} {e : InboxEvent} {answer : Published} {p q : Pass}
  {rows : List InboxEvent}

/-- **The invariant**: an event is with one pass at most, and is pending as long as it is with one.
What a pass has in hand fails no event that was confirmed. -/
structure Inv (s : Sys) : Prop where
  keyed : Keyed InboxEvent.id s.db.inbox_events
  each : ∀ p ∈ s.passes, Keyed InboxEvent.id p.rows
  one : ∀ (i j : ℕ) (p q : Pass), s.passes[i]? = some p → s.passes[j]? = some q → i ≠ j →
    ∀ x ∈ p.rows, ∀ y ∈ q.rows, x.id ≠ y.id
  pending : ∀ p ∈ s.passes, ∀ x ∈ p.rows, ∀ y ∈ s.db.inbox_events, y.id = x.id → y.state = .pending
  refused : ∀ e rows answer, (⟨e :: rows, some answer⟩ : Pass) ∈ s.passes →
    gives_up e.attempts answer = true → e.id ∉ s.confirmed
  final : Final s

theorem start_inv (h : Keyed InboxEvent.id db.inbox_events) : Inv (Sys.start db) := by
  have hstate : ∀ x ∈ db.inbox_events, x.id ∈ (Sys.start db).published → x.state = .published := by
    intro x hx hin
    obtain ⟨y, hy, hid⟩ := List.mem_map.mp hin
    obtain ⟨hmem, hst⟩ := List.mem_filter.mp hy
    rw [← h.eq hmem hx hid]
    simpa using hst
  refine ⟨h, nofun, nofun, nofun, nofun, hstate, fun x hx hin => ?_⟩
  rw [hstate x hx hin]
  decide

/-- What an answer makes of an event. -/
theorem answered_row_state (attempts : ℕ) (answer : Published) (x : InboxEvent) :
    (answered_row now attempts answer x).state =
      if confirmation answer then .published else if gives_up attempts answer then .failed else .pending := by
  cases answer <;> simp [answered_row, confirmation, gives_up]

theorem answered_row_id (attempts : ℕ) (answer : Published) (x : InboxEvent) :
    (answered_row now attempts answer x).id = x.id := by
  cases answer <;> rfl

/-- The rows after an answer. -/
theorem mem_answer_event {y : InboxEvent} (h : y ∈ (answer_event now e answer db).inbox_events) :
    ∃ x ∈ db.inbox_events, y.id = x.id ∧
      (x.id = e.id ∧ y = answered_row now e.attempts answer x ∨ x.id ≠ e.id ∧ y = x) := by
  obtain ⟨x, hx, rfl⟩ := mem_update.mp h
  refine ⟨x, hx, ?_⟩
  by_cases hid : (x.id == e.id) = true
  · rw [if_pos hid]
    exact ⟨answered_row_id _ _ _, Or.inl ⟨by simpa using hid, rfl⟩⟩
  · rw [if_neg hid]
    exact ⟨rfl, Or.inr ⟨by simpa using hid, rfl⟩⟩

theorem publish_cases (h : step s (.publish i answer) = some t) :
    ∃ e rows, s.passes[i]? = some ⟨e :: rows, none⟩ ∧ t = { s with
      passes := s.passes.set i ⟨e :: rows, some answer⟩
      confirmed := if confirmation answer then e.id :: s.confirmed else s.confirmed } := by
  simp only [step] at h
  split at h
  · rename_i e rows hp
    exact ⟨e, rows, hp, (Option.some.inj h).symm⟩
  · cases h

theorem record_cases (h : step s (.record i now) = some t) :
    ∃ e rows answer, s.passes[i]? = some ⟨e :: rows, some answer⟩ ∧ t = { s with
      db := answer_event now e answer s.db
      passes := s.passes.set i ⟨rows, none⟩
      published := if confirmation answer then e.id :: s.published else s.published } := by
  simp only [step] at h
  split at h
  · rename_i e rows answer hp
    exact ⟨e, rows, answer, hp, (Option.some.inj h).symm⟩
  · cases h

theorem other_cases (h : step s (.other db') = some t) :
    Keyed InboxEvent.id db'.inbox_events ∧ (∀ e ∈ db'.inbox_events, e ∈ s.db.inbox_events ∨
      e.state = .pending ∧ e.id ∉ s.confirmed ∧ e.id ∉ s.published) ∧ t = { s with db := db' } := by
  simp only [step] at h
  split at h
  · rename_i hl
    simp only [leaves_events, Bool.and_eq_true, decide_eq_true_eq, List.all_eq_true, Bool.or_eq_true,
      beq_iff_eq, Bool.not_eq_true', Bool.or_eq_false_iff, List.contains_eq_mem,
      decide_eq_false_iff_not] at hl
    exact ⟨hl.1, hl.2, (Option.some.inj h).symm⟩
  · cases h

/-- No answer gives up an event it confirms. -/
theorem not_gives_up {attempts : ℕ} (h : confirmation answer = true) : gives_up attempts answer = false := by
  cases answer with
  | Confirmed _ => rfl
  | Retryable _ => cases h
  | Fatal _ => cases h

/-- A pass goes on with some of its rows, and has no refusal of a confirmed event in hand. -/
theorem Inv.pass_step (hs : Inv s) (hp : s.passes[i]? = some p) (hrows : q.rows.Sublist p.rows)
    (hrefused : ∀ e rows answer, q = ⟨e :: rows, some answer⟩ → gives_up e.attempts answer = true →
      e.id ∉ s.confirmed) : Inv { s with passes := s.passes.set i q } := by
  have hmem := List.mem_of_getElem? hp
  refine ⟨hs.keyed, ?_, ?_, ?_, ?_, hs.final.published, hs.final.confirmed⟩
  · intro x hx
    rcases List.mem_or_eq_of_mem_set hx with hx | rfl
    · exact hs.each x hx
    · exact List.Nodup.sublist (hrows.map _) (hs.each p hmem)
  · intro j k x y hx hy hne
    rcases set_at hx with ⟨rfl, rfl⟩ | ⟨-, hx'⟩
    · rcases set_at hy with ⟨heq, -⟩ | ⟨-, hy'⟩
      · exact absurd heq hne
      · exact fun a ha b hb => hs.one i k p y hp hy' hne a (hrows.subset ha) b hb
    · rcases set_at hy with ⟨rfl, rfl⟩ | ⟨-, hy'⟩
      · exact fun a ha b hb => hs.one j i x p hx' hp hne a ha b (hrows.subset hb)
      · exact hs.one j k x y hx' hy' hne
  · intro x hx
    rcases List.mem_or_eq_of_mem_set hx with hx | rfl
    · exact hs.pending x hx
    · exact fun a ha => hs.pending p hmem a (hrows.subset ha)
  · intro e rows answer hx
    rcases List.mem_or_eq_of_mem_set hx with hx | heq
    · exact hs.refused e rows answer hx
    · exact hrefused e rows answer heq.symm

/-- A pass starts on events that are with no other. -/
theorem Inv.select (hs : Inv s) {n team limit : ℕ} (hc : apart s (.select n team limit) = true) :
    Inv { s with passes := s.passes ++ [⟨due_events n team limit s.db, none⟩] } := by
  simp only [apart, List.all_eq_true, Bool.not_eq_true', Pass.carries, List.any_eq_false, beq_iff_eq] at hc
  have hdue : ∀ x ∈ due_events n team limit s.db, x ∈ s.db.inbox_events ∧ x.state = .pending := by
    intro x hx
    have hx := mem_select.mp (List.mem_of_mem_take hx)
    simp only [Bool.and_eq_true, beq_iff_eq] at hx
    exact ⟨hx.1, hx.2.1.2⟩
  have hkeyed : Keyed InboxEvent.id (due_events n team limit s.db) := by
    have hperm := (perm_select (fun e : InboxEvent => e.team_id == team && e.state == .pending &&
      e.next_attempt_at ≤ n) (fun e => e.created_at) s.db.inbox_events).map InboxEvent.id
    have hall := hperm.nodup_iff.mpr (List.Nodup.sublist (List.filter_sublist.map _) hs.keyed)
    exact List.Nodup.sublist ((List.take_sublist _ _).map _) hall
  -- the new pass is the last one, the others are where they were
  have hcases : ∀ {j : ℕ} {x : Pass}, (s.passes ++ [⟨due_events n team limit s.db, none⟩])[j]? = some x →
      s.passes[j]? = some x ∨ s.passes.length = j ∧ x = ⟨due_events n team limit s.db, none⟩ := by
    intro j x hx
    rw [List.getElem?_append] at hx
    split at hx
    · exact .inl hx
    · obtain ⟨hj, hx⟩ := List.getElem?_eq_some_iff.mp hx
      simp only [List.length_singleton, Nat.lt_one_iff] at hj
      refine .inr ⟨by omega, ?_⟩
      rw [← hx]
      simp only [hj, List.getElem_cons_zero]
  refine ⟨hs.keyed, ?_, ?_, ?_, ?_, hs.final.published, hs.final.confirmed⟩
  · intro p hp
    rcases List.mem_append.mp hp with hp | hp
    · exact hs.each p hp
    · rw [List.mem_singleton.mp hp]
      exact hkeyed
  · intro i j p q hp hq hne
    rcases hcases hp with hp | ⟨rfl, rfl⟩
    · rcases hcases hq with hq | ⟨-, rfl⟩
      · exact hs.one i j p q hp hq hne
      · exact fun x hx y hy => hc y hy p (List.mem_of_getElem? hp) x hx
    · rcases hcases hq with hq | ⟨heq, -⟩
      · exact fun x hx y hy heq => hc x hx q (List.mem_of_getElem? hq) y hy heq.symm
      · exact absurd heq hne
  · intro p hp
    rcases List.mem_append.mp hp with hp | hp
    · exact hs.pending p hp
    · rw [List.mem_singleton.mp hp]
      intro x hx y hy hid
      rw [hs.keyed.eq hy (hdue x hx).1 hid]
      exact (hdue x hx).2
  · intro e rows answer hp
    rcases List.mem_append.mp hp with hp | hp
    · exact hs.refused e rows answer hp
    · exact absurd (congrArg Pass.answer (List.mem_singleton.mp hp)) (by simp)

/-- The broker answers. -/
theorem Inv.publish (hs : Inv s) (hp : s.passes[i]? = some ⟨e :: rows, none⟩)
    (hc : apart s (.publish i answer) = true) : Inv { s with
      passes := s.passes.set i ⟨e :: rows, some answer⟩
      confirmed := if confirmation answer then e.id :: s.confirmed else s.confirmed } := by
  simp only [apart, hp, Option.all_some, List.head?_cons, Bool.or_eq_true, Bool.not_eq_true',
    List.contains_eq_mem, decide_eq_false_iff_not] at hc
  have hnext : Inv { s with passes := s.passes.set i ⟨e :: rows, some answer⟩ } := by
    refine hs.pass_step hp (List.Sublist.refl _) fun x xs a heq hgive => ?_
    obtain ⟨hxs, ha⟩ := Pass.mk.inj heq
    obtain ⟨rfl, -⟩ := List.cons.inj hxs
    rw [← Option.some.inj ha] at hgive
    exact hc.resolve_left (by rw [hgive]; decide)
  by_cases hconf : confirmation answer = true
  · rw [if_pos hconf]
    have hrow : ∀ y ∈ s.db.inbox_events, y.id = e.id → y.state = .pending :=
      hs.pending _ (List.mem_of_getElem? hp) e List.mem_cons_self
    refine ⟨hs.keyed, hnext.each, hnext.one, hnext.pending, fun x xs a hx hgive hin => ?_, hs.final.published,
      fun x hx hin => ?_⟩
    · rcases List.mem_cons.mp hin with hid | hin
      · -- an event that is with another pass, or confirmed
        obtain ⟨j, hj⟩ := List.mem_iff_getElem?.mp hx
        rcases set_at hj with ⟨-, heq⟩ | ⟨hne, hj⟩
        · obtain ⟨hxs, ha⟩ := Pass.mk.inj heq
          rw [Option.some.inj ha, not_gives_up hconf] at hgive
          cases hgive
        · exact hs.one i j _ _ hp hj hne e List.mem_cons_self x List.mem_cons_self hid.symm
      · exact hnext.refused x xs a hx hgive hin
    · rcases List.mem_cons.mp hin with hid | hin
      · rw [hrow x hx hid]
        decide
      · exact hs.final.confirmed x hx hin
  · rw [if_neg hconf]
    exact hnext

/-- A pass writes down what it was answered. -/
theorem Inv.record (hs : Inv s) (hp : s.passes[i]? = some ⟨e :: rows, some answer⟩) : Inv { s with
      db := answer_event now e answer s.db
      passes := s.passes.set i ⟨rows, none⟩
      published := if confirmation answer then e.id :: s.published else s.published } := by
  have hmem := List.mem_of_getElem? hp
  have hnext : Inv { s with passes := s.passes.set i ⟨rows, none⟩ } :=
    hs.pass_step hp (List.sublist_cons_self _ _) nofun
  have hown : ∀ x ∈ rows, x.id ≠ e.id := by
    have hkeyed := List.nodup_cons.mp (hs.each _ hmem)
    intro x hx heq
    exact hkeyed.1 (heq ▸ List.mem_map_of_mem hx)
  -- what is still with a pass is another event
  have hother : ∀ q ∈ s.passes.set i ⟨rows, none⟩, ∀ x ∈ q.rows, x.id ≠ e.id := by
    intro q hq x hx
    obtain ⟨j, hj⟩ := List.mem_iff_getElem?.mp hq
    rcases set_at hj with ⟨-, rfl⟩ | ⟨hne, hj⟩
    · exact hown x hx
    · exact fun heq => hs.one i j _ _ hp hj hne e List.mem_cons_self x hx heq.symm
  have hpending : ∀ y ∈ s.db.inbox_events, y.id = e.id → y.state = .pending :=
    hs.pending _ hmem e List.mem_cons_self
  refine ⟨hs.keyed.update fun x => answered_row_id _ _ _, hnext.each, hnext.one, ?_, hnext.refused, ?_, ?_⟩
  · intro q hq x hx y hy hid
    obtain ⟨z, hz, hzid, ⟨hze, rfl⟩ | ⟨-, rfl⟩⟩ := mem_answer_event hy
    · exact absurd (hid.symm.trans (hzid.trans hze)) (hother q hq x hx)
    · exact hnext.pending q hq x hx y hz hid
  · intro y hy hin
    obtain ⟨z, hz, hzid, ⟨hze, rfl⟩ | ⟨hze, rfl⟩⟩ := mem_answer_event hy
    · by_cases hconf : confirmation answer = true
      · rw [answered_row_state, if_pos hconf]
      · -- it was pending, so it has not been published
        rw [if_neg hconf, hzid] at hin
        have hpub := hs.final.published z hz hin
        rw [hpending z hz hze] at hpub
        cases hpub
    · refine hs.final.published y hz ?_
      split at hin
      · exact (List.mem_cons.mp hin).resolve_left hze
      · exact hin
  · intro y hy hin
    obtain ⟨z, hz, hzid, ⟨hze, rfl⟩ | ⟨hze, rfl⟩⟩ := mem_answer_event hy
    · rw [answered_row_state]
      by_cases hgive : gives_up e.attempts answer = true
      · rw [hzid, hze] at hin
        exact absurd hin (hs.refused e rows answer hmem hgive)
      · rw [if_neg hgive]
        split <;> decide
    · exact hs.final.confirmed y hz hin

/-- **One step** keeps the invariant, if it keeps the passes apart. -/
theorem Inv.step (hs : Inv s) (hc : apart s a = true) (h : step s a = some t) : Inv t := by
  cases a with
  | select n team limit =>
    obtain rfl := Option.some.inj h
    exact hs.select hc
  | publish i answer =>
    obtain ⟨e, rows, hp, rfl⟩ := publish_cases h
    exact hs.publish hp hc
  | record i n =>
    obtain ⟨e, rows, answer, hp, rfl⟩ := record_cases h
    exact hs.record hp
  | abandon i =>
    obtain rfl := Option.some.inj h
    by_cases hi : i < s.passes.length
    · exact hs.pass_step (List.getElem?_eq_getElem hi) (List.nil_sublist _) nofun
    · rw [List.set_eq_of_length_le (Nat.le_of_not_lt hi)]
      exact hs
  | other db' =>
    obtain ⟨hkeyed, hnew, rfl⟩ := other_cases h
    refine ⟨hkeyed, hs.each, hs.one, fun p hp x hx y hy hid => ?_, hs.refused, fun x hx hin => ?_, fun x hx hin => ?_⟩
    · rcases hnew y hy with hold | ⟨hpending, -⟩
      · exact hs.pending p hp x hx y hold hid
      · exact hpending
    · rcases hnew x hx with hold | ⟨-, -, hno⟩
      · exact hs.final.published x hold hin
      · exact absurd hin hno
    · rcases hnew x hx with hold | ⟨-, hno, -⟩
      · exact hs.final.confirmed x hold hin
      · exact absurd hin hno

end Steps

/-- **Published events are final** in every run of any number of passes that never carry one event
at once. -/
theorem published_is_final {db : Db} (h₀ : Keyed InboxEvent.id db.inbox_events) {tr : List (Trans Sys Act)} {s : Sys}
    (hrun : Run (Rel step) (Sys.start db) tr s) (hapart : ∀ e ∈ tr, apart e.pre e.act = true) :
    ∀ e ∈ tr, Final e.post := fun e he =>
  (hrun.invariant_post (I := Inv) (C := fun s a => apart s a = true) (start_inv h₀)
    (fun _ _ _ hs hc hr => hs.step hc hr) hapart e he).final

/-! ## Two replicas -/

/-- A reference that was tried seven times. -/
def event : InboxEvent :=
  { id := 5, team_id := 1, recipient_key := "a1", kind := .message, message_id := 20,
    membership_id := some 10, state := .pending, attempts := 7, last_error := none, next_attempt_at := 0,
    created_at := 0, dedup := "" }

/-- It is queued, with one of another team. -/
def queue : Db := { inbox_events := [event, { event with id := 6, team_id := 2 }] }

/-- Two replicas work side by side. One goes away with a confirmation it has not recorded; the
event is selected again, and confirmed again. -/
def in_turn : List Act :=
  [.select 0 1 10, .select 0 2 10, .publish 0 (.Confirmed (.jetstream 1 1)), .publish 1 (.Fatal "refused"),
    .abandon 0, .record 1 0, .select 0 1 10, .publish 2 (.Confirmed (.jetstream 1 1)), .record 2 0]

theorem in_turn_run : (exec step (Sys.start queue) in_turn).isSome = true := by decide

/-- The run, and where it ends. -/
def in_turn_end : List (Trans Sys Act) × Sys := (exec step (Sys.start queue) in_turn).get in_turn_run

theorem published_is_final_in_turn :
    in_turn_end.2.db.inbox_events.map (fun e => (e.id, e.state)) = [(5, .published), (6, .failed)] ∧
      ∀ e ∈ in_turn_end.1, Final e.post :=
  ⟨by decide, published_is_final (by decide) (exec_get in_turn_run) (by decide)⟩

/-- The broker confirms the event to one replica, and the other gets no answer in time. -/
def contested : List Act :=
  [.select 0 1 10, .select 0 1 10, .publish 0 (.Confirmed (.jetstream 1 1)), .record 0 0,
    .publish 1 (.Retryable "timeout"), .record 1 0]

theorem contested_run : (exec step (Sys.start queue) contested).isSome = true := by decide

/-- The run, and where it ends. -/
def contested_end : List (Trans Sys Act) × Sys := (exec step (Sys.start queue) contested).get contested_run

/-- The event was confirmed and recorded as published, and is left failed. -/
theorem published_is_taken_back :
    Run (Rel step) (Sys.start queue) contested_end.1 contested_end.2 ∧
      (∃ e ∈ contested_end.1, e.post.db.inbox_events.map InboxEvent.state = [.published, .pending]) ∧
      contested_end.2.confirmed = [5] ∧
      contested_end.2.db.inbox_events.map (fun e => (e.id, e.state)) = [(5, .failed), (6, .pending)] ∧
      ¬ ∀ e ∈ contested_end.1, Final e.post := by
  refine ⟨exec_get contested_run, ⟨_, List.mem_of_getElem? (i := 3) rfl, by decide⟩, by decide, by decide,
    fun hfinal => ?_⟩
  have hlast := (hfinal _ (List.mem_of_getElem? (i := 5) rfl)).published
  exact absurd (hlast _ List.mem_cons_self (by decide)) (by decide)

end CrewSync.Replicas
