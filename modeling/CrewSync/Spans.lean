/-
What a wait has told between two positions, whatever the first of them is.

A window may hand in any snapshot as `since`, one of another day or one this store never was in.
What its answer owes it is the same: a change that `since` does not see and that the answer's own
position sees is in it once, as long as the log still has it. `Told` says so of a stretch from one
position to another. A reading is a stretch (`Told.read`), two stretches in a row are one
(`Told.trans`), one with nothing to tell leaves nothing behind (`Told.quiet`), and what others do
to the log takes nothing from it (`Told.moved`).

A call on the bus keeps `Told` up to where it is (`Flight.serve`).
-/
import CrewSync.Waiting

set_option autoImplicit false

namespace CrewSync.Spans

open Schema Rows Mvcc Messaging EventLog Waiting

section Stretches

variable (auth : AuthCtx) (kinds : Option (List String))

/-- The readings found what lies between `p` and `q` and is no older than a day at `n`, each row
once, and the events tell what they found. With `known`, `p` is a position of this store. -/
structure Told (known : Prop) (s : Sys) (n : ℕ) (p q : Snapshot) (readings : List Reading)
    (events : List WaitEvent) : Prop where
  seen : Seen q s.xids
  all : ∀ r ∈ s.ever, wanted auth.team_id kinds r = true → visible r.tx p = false →
    n ≤ r.logged_at + RETENTION → visible r.tx q = true → r ∈ rows_of readings
  once : (rows_of readings).Nodup
  found : ∀ r ∈ rows_of readings,
    r ∈ s.ever ∧ wanted auth.team_id kinds r = true ∧ visible r.tx q = true
  after : known → ∀ tx, visible tx p = true → visible tx q = true
  fresh : known → ∀ r ∈ rows_of readings, visible r.tx p = false
  made : ∀ rd ∈ readings, Made rd.rows
  told : events.filter of_log = readings.flatMap Reading.lines

end Stretches

section Told

variable {auth : AuthCtx} {kinds : Option (List String)} {known : Prop} {s t : Sys} {n n' : ℕ}
  {p q q' : Snapshot} {readings readings' : List Reading} {events events' : List WaitEvent}

theorem rows_of_append (readings readings' : List Reading) :
    rows_of (readings ++ readings') = rows_of readings ++ rows_of readings' :=
  List.flatMap_append

/-- Nothing has been read. -/
theorem Told.start (hp : Seen p s.xids) : Told auth kinds known s n p p [] [] where
  seen := hp
  all r _ _ hv _ hv' := by rw [hv] at hv'; exact nomatch hv'
  once := List.nodup_nil
  found r hr := absurd hr List.not_mem_nil
  after _ _ htx := htx
  fresh _ r hr := absurd hr List.not_mem_nil
  made rd hrd := absurd hrd List.not_mem_nil
  told := rfl

/-- **One reading**, from any position. -/
theorem Told.read (hs : Store s) (hy : Young s) (hp : known → Seen p s.xids) (names : Names) :
    Told auth kinds known s s.clock p s.xids.current [⟨s.found auth kinds (some p), names⟩]
      (Reading.lines ⟨s.found auth kinds (some p), names⟩) := by
  have hrows : rows_of [⟨s.found auth kinds (some p), names⟩] = s.found auth kinds (some p) := by
    simp [rows_of]
  have hmem : ∀ r, r ∈ s.found auth kinds (some p) ↔ r ∈ s.log ∧
      wanted auth.team_id kinds r = true ∧ visible r.tx p = false ∧
      visible r.tx s.xids.current = true := by
    intro r
    simp [Sys.found, ev, and_assoc]
  have hmade : Made (s.found auth kinds (some p)) := hs.found_made _
  refine ⟨Seen.current, ?_, ?_, ?_, ?_, ?_, ?_, ?_⟩
  · intro r hr hw hv hage hnow
    rw [hrows, hmem]
    exact ⟨hy r hr hage, hw, hv, hnow⟩
  · rw [hrows]
    have hperm := perm_select
      (fun r : LogRow => wanted auth.team_id kinds r && !visible r.tx p && visible r.tx s.xids.current)
      LogRow.id s.log
    exact hperm.nodup_iff.mpr ((hs.sub.nodup (List.Nodup.of_map _ hs.ids)).filter _)
  · intro r hr
    rw [hrows, hmem] at hr
    exact ⟨hs.sub.subset hr.1, hr.2.1, hr.2.2.2⟩
  · exact fun hknown tx htx => (hp hknown).visible htx
  · intro _ r hr
    rw [hrows, hmem] at hr
    exact hr.2.2.1
  · intro rd hrd
    rw [List.mem_singleton.mp hrd]
    exact hmade
  · rw [List.flatMap_singleton]
    apply lines_of_log
    exact hmade

/-- **Two stretches in a row** are one. -/
theorem Told.trans (h : Told auth kinds known s n p q readings events)
    (h' : Told auth kinds True s n q q' readings' events') :
    Told auth kinds known s n p q' (readings ++ readings') (events ++ events') := by
  refine ⟨h'.seen, ?_, ?_, ?_, ?_, ?_, ?_, ?_⟩
  · intro r hr hw hv hage hv'
    rw [rows_of_append, List.mem_append]
    by_cases hq : visible r.tx q = true
    · exact .inl (h.all r hr hw hv hage hq)
    · exact .inr (h'.all r hr hw (by simpa using hq) hage hv')
  · rw [rows_of_append, List.nodup_append]
    refine ⟨h.once, h'.once, fun r hr r' hr' heq => ?_⟩
    -- the position between the two sees the one and not the other
    have hsees := (h.found r hr).2.2
    rw [heq, h'.fresh trivial r' hr'] at hsees
    cases hsees
  · intro r hr
    rw [rows_of_append, List.mem_append] at hr
    rcases hr with hr | hr
    · exact ⟨(h.found r hr).1, (h.found r hr).2.1, h'.after trivial r.tx (h.found r hr).2.2⟩
    · exact h'.found r hr
  · exact fun hknown tx htx => h'.after trivial tx (h.after hknown tx htx)
  · intro hknown r hr
    rw [rows_of_append, List.mem_append] at hr
    rcases hr with hr | hr
    · exact h.fresh hknown r hr
    · have hlater := h'.fresh trivial r hr
      by_contra hv
      rw [h.after hknown r.tx (by simpa using hv)] at hlater
      cases hlater
  · intro rd hrd
    rcases List.mem_append.mp hrd with hrd | hrd
    · exact h.made rd hrd
    · exact h'.made rd hrd
  · rw [List.filter_append, List.flatMap_append, h.told, h'.told]

/-- What is reported besides the log does not matter. -/
theorem Told.report (h : Told auth kinds known s n p q readings events)
    (he : events'.filter of_log = events.filter of_log) :
    Told auth kinds known s n p q readings events' :=
  ⟨h.seen, h.all, h.once, h.found, h.after, h.fresh, h.made, he.trans h.told⟩

/-- What is known in fewer cases is told in them. -/
theorem Told.weaken {known' : Prop} (h : Told auth kinds known s n p q readings events)
    (himp : known' → known) : Told auth kinds known' s n p q readings events :=
  ⟨h.seen, h.all, h.once, h.found, fun hk => h.after (himp hk), fun hk => h.fresh (himp hk), h.made,
    h.told⟩

/-- A reading that has found something has a line to say. -/
theorem lines_ne_nil {rd : Reading} {r : LogRow} (hmade : Made rd.rows) (hr : r ∈ rd.rows) :
    rd.lines ≠ [] := by
  intro hnil
  cases hrows : rd.rows with
  | nil =>
    rw [hrows] at hr
    exact absurd hr List.not_mem_nil
  | cons first rest =>
    have hin : first ∈ rd.rows.take REPLAY_LIMIT := by simp [hrows, REPLAY_LIMIT]
    obtain ⟨c, hc⟩ := hmade first (List.mem_of_mem_take hin)
    obtain ⟨d, hd⟩ := Option.isSome_iff_exists.mp (describe_change rd.names c)
    rw [← hc] at hd
    have hline : d ∈ rd.lines := List.mem_append_left _ (List.mem_filterMap.mpr ⟨first, hin, hd⟩)
    rw [hnil] at hline
    exact absurd hline List.not_mem_nil

/-- Where there was nothing to tell, there is nothing to find. -/
theorem Told.quiet (h : Told auth kinds known s n p q readings []) :
    Told auth kinds known s n p q [] [] := by
  have hnone : ∀ r, r ∉ rows_of readings := by
    intro r hr
    obtain ⟨rd, hrd, hin⟩ := List.mem_flatMap.mp hr
    apply lines_ne_nil (h.made rd hrd) hin
    have hnil : readings.flatMap Reading.lines = [] := h.told.symm
    exact List.flatMap_eq_nil_iff.mp hnil rd hrd
  refine ⟨h.seen, ?_, List.nodup_nil, fun r hr => absurd hr List.not_mem_nil, h.after,
    fun _ r hr => absurd hr List.not_mem_nil, fun rd hrd => absurd hrd List.not_mem_nil, rfl⟩
  exact fun r hr hw hv hage hv' => absurd (h.all r hr hw hv hage hv') (hnone r)

/-- **What others do to the log** takes nothing from it: only rows of running transactions come and
go, and no position sees one. -/
theorem Told.moved (h : Told auth kinds known s n p q readings events) (hm : Moved s t) (hn : n ≤ n') :
    Told auth kinds known t n' p q readings events := by
  refine ⟨hm.seen q h.seen, ?_, h.once, ?_, h.after, h.fresh, h.made, h.told⟩
  · intro r hr hw hv hage hv'
    rcases hm.ever r with hin | hrun
    · exact h.all r (hin.mp hr) hw hv (Nat.le_trans hn hage) hv'
    · rw [h.seen.not_running hrun] at hv'
      cases hv'
  · intro r hr
    obtain ⟨hin, hw, hv⟩ := h.found r hr
    rcases hm.ever r with hiff | hrun
    · exact ⟨hiff.mpr hin, hw, hv⟩
    · rw [h.seen.not_running hrun] at hv
      cases hv

end Told

/-! ## A call on the bus -/

section Flights

variable (auth : AuthCtx) (kinds : Option (List String))

/-- How far the bus is with a call that was made when there were `asked` answers: it has refused
it, serves it, or has answered. -/
inductive Flight (known : Prop) (since : Option Snapshot) (asked : ℕ) (s : Sys) : Prop
  | refused (hphase : s.phase = .idle) (hasked : s.answers.length = asked)
  | serving (c : Call) (hphase : s.phase.call = some c) (hasked : s.answers.length = asked)
      (hstart : ∀ p, since = some p → c.start = p)
      (htold : Told auth kinds known s s.clock c.start c.position c.readings c.events)
  | answered (a : Answer) (earlier : List Answer) (hphase : s.phase = .idle)
      (hanswers : s.answers = earlier ++ [a]) (hasked : earlier.length = asked)
      (hstart : ∀ p, since = some p → a.start = p) (hwoke : a.result.woke = !a.result.events.isEmpty)
      (htold : Told auth kinds known s s.clock a.start a.result.resume_from a.readings a.result.events)

/-- What others do, and what the bus does while it serves a call. -/
def of_bus : Act → Bool
  | .call _ _ _ _ _ | .fail => false
  | _ => true

end Flights

section Serve

variable {auth : AuthCtx} {kinds : Option (List String)} {known : Prop} {s t : Sys}
  {since : Option Snapshot} {asked : ℕ} {c : Call} {scope : Scope} {focus : Option Uuid} {names : Names}
    {pending : ℕ}
  {counts : Counts} {a : Act}

/-- A call that asks the log again has told what lies up to now. -/
theorem Told.ask (hs : Store s) (hy : Young s) (names : Names)
    (h : Told auth kinds known s s.clock c.start c.position c.readings c.events) :
    Told auth kinds known s s.clock c.start (s.ask auth kinds c names).position
      (s.ask auth kinds c names).readings (s.ask auth kinds c names).events := by
  have hnext := h.trans (Told.read hs hy (fun _ => h.seen) names)
  have hevents : (s.ask auth kinds c names).events =
      c.events ++ Reading.lines ⟨s.found auth kinds (some c.position), names⟩ :=
    told_eq names c.events (some c.position) s.xids.current s.log
  rw [hevents]
  exact hnext

/-- A call begins at the position it was given, or else at the one it reads. -/
theorem Told.begun (hs : Store s) (hy : Young s) (hp : known → ∀ p, s.since = some p → Seen p s.xids)
    (scope : Scope) (focus : Option Uuid) (names : Names) (pending : ℕ) :
    Told auth kinds known s s.clock (s.begun auth kinds scope focus names pending).start
      (s.begun auth kinds scope focus names pending).position
      (s.begun auth kinds scope focus names pending).readings
      (s.begun auth kinds scope focus names pending).events := by
  have hevents : (s.begun auth kinds scope focus names pending).events.filter of_log =
      (Reading.lines ⟨s.found auth kinds s.since, names⟩).filter of_log := by
    have hlines : EventLog.told names [] (replay auth.team_id s.since kinds s.xids.current s.log) =
        [] ++ Reading.lines ⟨s.found auth kinds s.since, names⟩ :=
      told_eq names [] s.since s.xids.current s.log
    rw [List.nil_append] at hlines
    unfold Sys.begun
    simp only [hlines]
    split
    · rw [List.filter_cons_of_neg (by simp [of_log, unread_entry])]
    · rfl
  cases hsince : s.since with
  | none =>
    -- nothing is read but where it starts
    have hstart : (s.begun auth kinds scope focus names pending).start = s.xids.current := by
      simp [Sys.begun, hsince, replay]
    have hreadings : (s.begun auth kinds scope focus names pending).readings = [⟨[], names⟩] := by
      simp [Sys.begun, Sys.found, ev, hsince]
    have hnothing : Told auth kinds known s s.clock s.xids.current s.xids.current [⟨[], names⟩] [] := by
      have h : Told auth kinds known s s.clock s.xids.current s.xids.current [] [] :=
        Told.start Seen.current
      refine ⟨h.seen, h.all, h.once, h.found, h.after, h.fresh, ?_, rfl⟩
      intro rd hrd r hr
      rw [List.mem_singleton.mp hrd] at hr
      exact absurd hr List.not_mem_nil
    rw [hstart, hreadings]
    apply hnothing.report
    rw [hevents, hsince]
    rfl
  | some p =>
    have hstart : (s.begun auth kinds scope focus names pending).start = p := by
      simp [Sys.begun, hsince]
    have hreadings : (s.begun auth kinds scope focus names pending).readings =
        [⟨s.found auth kinds (some p), names⟩] := by
      simp [Sys.begun, hsince]
    rw [hstart, hreadings]
    have hread : Told auth kinds known s s.clock p s.xids.current
        [⟨s.found auth kinds (some p), names⟩] (Reading.lines ⟨s.found auth kinds (some p), names⟩) :=
      Told.read hs hy (fun hk => hp hk p hsince) names
    apply hread.report
    rw [hevents, hsince]

/-- A step of the call leaves the log as it is. -/
theorem Moved.same (hs : Store s) (since : Option Snapshot) (phase : Phase) (answers : List Answer) :
    Moved s { s with since := since, phase := phase, answers := answers } where
  store := ⟨hs.xids, hs.ids, hs.fresh, hs.sub, hs.txs, hs.kept, hs.made⟩
  clock := Nat.le_refl _
  young hy := hy
  seen _ hp := hp
  ever _ := .inl Iff.rfl

theorem call_moved (hs : Store s) (h : Waiting.step auth kinds s (.call scope focus names pending counts) = some t) :
    Moved s t := by
  cases step_did h with
  | refused | called | replied => exact Moved.same hs _ _ _
  | went ha => cases ha

/-- A call has been made. -/
theorem Flight.made (hs : Store s) (hy : Young s) (hp : known → ∀ p, s.since = some p → Seen p s.xids)
    (h : Waiting.step auth kinds s (.call scope focus names pending counts) = some t) :
    Flight auth kinds known s.since s.answers.length t := by
  have htold : Told auth kinds known s s.clock (s.begun auth kinds scope focus names pending).start _ _ _ :=
    Told.begun hs hy hp scope focus names pending
  have hstart : ∀ p, s.since = some p →
      (s.begun auth kinds scope focus names pending).start = p := by
    intro p hsince
    simp [Sys.begun, hsince]
  cases step_did h with
  | refused hphase => exact .refused hphase rfl
  | called =>
    refine .serving _ rfl rfl hstart ?_
    exact ⟨htold.seen, htold.all, htold.once, htold.found, htold.after, htold.fresh, htold.made, htold.told⟩
  | replied =>
    refine .answered _ s.answers rfl rfl rfl hstart rfl ?_
    exact ⟨htold.seen, htold.all, htold.once, htold.found, htold.after, htold.fresh, htold.made, htold.told⟩
  | went ha => cases ha

/-- What the bus answers has told what lies up to its own position. -/
theorem Flight.answer (hf : Flight auth kinds known since asked s) (hphase : s.phase = .idle) {a : Answer}
    (ha : s.answers[asked]? = some a) : (∀ p, since = some p → a.start = p) ∧ a.result.woke = !a.result.events.isEmpty ∧
      Told auth kinds known s s.clock a.start a.result.resume_from a.readings a.result.events := by
  cases hf with
  | refused _ hasked =>
    rw [List.getElem?_eq_none (by omega)] at ha
    cases ha
  | serving c hcall =>
    rw [hphase] at hcall
    exact absurd hcall (by simp [Phase.call])
  | answered b earlier _ hanswers hasked hstart hwoke htold =>
    rw [hanswers, ← hasked, List.getElem?_concat_length] at ha
    obtain rfl := Option.some.inj ha
    exact ⟨hstart, hwoke, htold⟩

/-- What others do is done beside the call. -/
theorem beside_of_step (hs : Store s) (ha : of_log_act a = true)
    (h : Waiting.step auth kinds s a = some t) : Beside s t := by
  cases step_did h with
  | tick hn => exact hs.tick hn
  | begin_ => exact hs.begin_
  | write htx => exact hs.write htx _
  | commit htx => exact hs.commit htx
  | abort htx => exact hs.abort htx
  | trim => exact hs.trim _
  | went hcall => cases a <;> simp [of_call, of_log_act] at ha hcall
  | refused | called | replied | asked | finished | failed => cases ha

/-- The bus has gone on with a call that it serves. -/
theorem Flight.serving_on {c' : Call} {phase : Phase} (hphase : phase.call = some c')
    (hasked : s.answers.length = asked) (hstart : ∀ p, since = some p → c.start = p) (hsame : c'.start = c.start)
    (htold : Told auth kinds known s s.clock c'.start c'.position c'.readings c'.events) :
    Flight auth kinds known since asked { s with phase := phase } := by
  refine .serving c' hphase hasked (fun p hp => hsame.trans (hstart p hp)) ?_
  exact ⟨htold.seen, htold.all, htold.once, htold.found, htold.after, htold.fresh, htold.made, htold.told⟩

theorem Flight.beside (hf : Flight auth kinds known since asked s) (h : Beside s t) :
    Flight auth kinds known since asked t := by
  cases hf with
  | refused hphase hasked => exact .refused (h.phase.trans hphase) (by rw [h.answers]; exact hasked)
  | serving c hphase hasked hstart htold =>
    refine .serving c (by rw [h.phase]; exact hphase) (by rw [h.answers]; exact hasked) hstart ?_
    exact htold.moved h.toMoved h.clock
  | answered a earlier hphase hanswers hasked hstart hwoke htold =>
    refine .answered a earlier (h.phase.trans hphase) (h.answers.trans hanswers) hasked hstart hwoke ?_
    exact htold.moved h.toMoved h.clock

/-- **The bus serves the call**: whatever it does, the call has told what lies up to where it is, and
so does the answer. -/
theorem Flight.serve (hf : Flight auth kinds known since asked s) (hs : Store s) (hy : Young s)
    (ha : of_bus a = true) (h : Waiting.step auth kinds s a = some t) :
    Flight auth kinds known since asked t ∧ Moved s t := by
  by_cases hlog : of_log_act a = true
  · have hbeside := beside_of_step hs hlog h
    exact ⟨hf.beside hbeside, hbeside.toMoved⟩
  cases hf with
  | refused hphase =>
    -- nothing is left to serve
    exfalso
    cases a <;> simp [Waiting.step, hphase, of_bus, of_log_act] at h ha hlog
  | answered b earlier hphase =>
    exfalso
    cases a <;> simp [Waiting.step, hphase, of_bus, of_log_act] at h ha hlog
  | serving c hcall hasked hstart htold =>
    have hsame : ∀ {c'}, s.phase.call = some c' → c = c' := fun hc => Option.some.inj (hcall.symm.trans hc)
    cases step_did h with
    | tick | begin_ | write | commit | abort | trim => exact absurd rfl hlog
    | refused | called | replied | failed => cases ha
    | went _ hc hphase hevents =>
      obtain rfl := hsame hc
      exact ⟨Flight.serving_on hphase hasked hstart rfl (htold.report hevents), Moved.same hs _ _ _⟩
    | asked hc hphase =>
      obtain rfl := hsame hc
      exact ⟨Flight.serving_on hphase hasked hstart rfl (htold.ask hs hy _), Moved.same hs _ _ _⟩
    | @finished names _ _ hc =>
      obtain rfl := hsame hc
      have hask := htold.ask hs hy names
      refine ⟨.answered _ s.answers rfl rfl hasked hstart rfl ?_, Moved.same hs _ _ _⟩
      exact ⟨hask.seen, hask.all, hask.once, hask.found, hask.after, hask.fresh, hask.made, hask.told⟩

end Serve

end CrewSync.Spans
