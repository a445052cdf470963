/-
A long wait is one wait, however it is cut.

What is handed on from slice to slice is the position of an answer that had nothing to say. So
nothing lies between the first slice's position and the one the last slice starts from
(`Going.quiet`), and what the last answer tells is what lies up to its own position
(`Going.told`). Who the window is does not change under it: `forward_bound` only hands out a
connection of the generation the wait started under, and that generation has one connection
(`Inv.sent`).

A slice is cut from the whole seconds that are left, and gets five at least, which is what a wait
may take over its time (`Cut.ends`). One that is followed by another had more than a slice's time
left, so there are finitely many (`Paced.bounded`).

The law holds for any snapshot as `since`. What the log has given up after a day is not told
(`old_changes_are_gone`).
-/
import Mathlib.Logic.Relation
import CrewSync.LongWait

set_option autoImplicit false

namespace CrewSync.Slices

open Schema Rows Runs Mvcc Messaging EventLog
open Waiting (Answer Reading rows_of of_log Store Young Moved Made)
open Spans LongWait
open Proxy (Remote State)

/-! ## What the answers tell -/

/-- A position that a wait has answered with. -/
def Known (s : Sys) (p : Snapshot) : Prop := ∃ e ∈ s.ended, ∃ a, e.result = .ok a ∧ a.result.resume_from = p

/-- The wait goes on from where another one ended. -/
def Resumes (s : Sys) (w : Pending) : Prop := ∃ p, w.request.since = some p ∧ Known s p

section Invariant

variable (who : Remote → AuthCtx)

/-- A wait that has not returned. -/
structure Going (s : Sys) (w : Pending) : Prop where
  span : ∃ g, w.span = w.request.span g w.began
  started : ∀ b, w.span = some b → b.started_under ≤ s.st.generation
  generation : ∀ b, w.span = some b → ∀ sl ∈ w.slices, sl.generation = b.started_under
  held : ∀ b, w.span = some b → s.st.generation = b.started_under → ∀ c, s.st.connected = some c →
    ∀ sl ∈ w.slices, sl.remote = c.remote
  plain : w.span = none → w.flying = none → w.slices = []
  one : ∀ sl ∈ w.slices, ∀ sl' ∈ w.slices, sl.remote = sl'.remote
  first : w.answers = [] → w.since = w.request.since
  /-- The answers so far had nothing to say, from the first slice's position to the next one's. -/
  quiet : ∀ a, w.answers.head? = some a → (∀ p, w.request.since = some p → a.start = p) ∧
    ∃ q, w.since = some q ∧ ∃ sl ∈ w.slices,
      Told (who sl.remote) w.request.kinds (Resumes s w) s.bus s.bus.clock a.start q [] []
  plain_left : w.span = none → ∀ sl, w.flying = some sl → sl.left = 0
  flying : ∀ sl, w.flying = some sl → sl ∈ w.slices ∧ sl.since = w.since ∧
    Flight (who sl.remote) w.request.kinds (w.answers ≠ [] ∨ Resumes s w) sl.since sl.asked s.bus

/-- A wait that has. -/
structure Fine (s : Sys) (e : Ended) : Prop where
  span : ∃ g, e.wait.span = e.wait.request.span g e.wait.began
  generation : ∀ b, e.wait.span = some b → ∀ sl ∈ e.wait.slices, sl.generation = b.started_under
  one : ∀ sl ∈ e.wait.slices, ∀ sl' ∈ e.wait.slices, sl.remote = sl'.remote
  /-- Without a slice in flight it ends for want of a connection. -/
  unsent : e.wait.flying = none → ∀ why, e.result = .error why → ∀ b, e.wait.span = some b →
    (e.generation ≠ b.started_under ∧ why = switched b.started_under) ∨
      (e.generation = b.started_under ∧ ∃ reason, why = not_connected reason)
  told : ∀ a, e.result = .ok a → ∃ first, e.wait.answers.head? = some first ∧
    (∀ p, e.wait.request.since = some p → first.start = p) ∧ ∃ sl ∈ e.wait.slices,
      Told (who sl.remote) e.wait.request.kinds False s.bus e.clock first.start a.result.resume_from
        a.readings a.result.events

/-- What the later one tells from the position of the earlier one is news. -/
def Apart (e₁ e₂ : Ended) : Prop :=
  ∀ a₁ a₂, e₁.result = .ok a₁ → e₂.result = .ok a₂ → e₂.wait.request.since = some a₁.result.resume_from →
    (∀ r ∈ rows_of a₂.readings, visible r.tx a₁.result.resume_from = false) ∧
      ∀ tx, visible tx a₁.result.resume_from = true → visible tx a₂.result.resume_from = true

/-- The invariant. -/
structure Inv (s : Sys) : Prop where
  store : Store s.bus
  young : Young s.bus
  idle : s.in_flight = none → s.bus.phase = .idle
  going : ∀ w, s.wait = some w → Going who s w
  fine : ∀ e ∈ s.ended, Fine who s e
  apart : s.ended.Pairwise Apart

end Invariant

section Keeping

variable {session_for binding_path : String → String} {who : Remote → AuthCtx} {s t : Sys} {w : Pending} {sl : Slice}
  {st : State} {remote : Remote}

/-- What a wait has been answered with is a position of this store. -/
theorem Inv.known (hs : Inv who s) {p : Snapshot} (hp : Known s p) : Seen p s.bus.xids := by
  obtain ⟨e, he, a, hok, rfl⟩ := hp
  obtain ⟨first, -, -, sl, -, htold⟩ := (hs.fine e he).told a hok
  exact htold.seen

/-- Others move the log, and a bus that serves a slice goes on with it. -/
theorem Inv.bus (hs : Inv who s) {bus : Waiting.Sys} (hm : Moved s.bus bus)
    (hidle : s.in_flight = none → bus.phase = .idle) (hflying : ∀ w sl, s.in_flight = some (w, sl) →
      Flight (who sl.remote) w.request.kinds (w.answers ≠ [] ∨ Resumes s w) sl.since sl.asked bus) :
    Inv who { s with bus := bus } := by
  refine ⟨hm.store, hm.young hs.young, hidle, ?_, ?_, hs.apart⟩
  · intro w hw
    have h := hs.going w hw
    refine ⟨h.span, h.started, h.generation, h.held, h.plain, h.one, h.first, ?_, h.plain_left, ?_⟩
    · intro a ha
      obtain ⟨hstart, q, hq, sl, hsl, htold⟩ := h.quiet a ha
      exact ⟨hstart, q, hq, sl, hsl, htold.moved hm hm.clock⟩
    · intro sl hsl
      obtain ⟨hin, hsince, -⟩ := h.flying sl hsl
      exact ⟨hin, hsince, hflying w sl (in_flight_iff.mpr ⟨hw, hsl⟩)⟩
  · intro e he
    have h := hs.fine e he
    refine ⟨h.span, h.generation, h.one, h.unsent, fun a ha => ?_⟩
    obtain ⟨first, hfirst, hstart, sl, hsl, htold⟩ := h.told a ha
    exact ⟨first, hfirst, hstart, sl, hsl, htold.moved hm (Nat.le_refl _)⟩

/-- The wait is another one, or none; nothing has ended. -/
theorem Inv.waits (hs : Inv who s) {wait : Option Pending} {now : ℕ}
    (hidle : (wait.bind Pending.flying).isNone → s.bus.phase = .idle)
    (hgoing : ∀ w, wait = some w → Going who s w) : Inv who { s with wait := wait, now := now } := by
  refine ⟨hs.store, hs.young, fun hfree => hidle ?_, fun w hw => ?_, fun e he => ?_, hs.apart⟩
  · cases wait with
    | none => rfl
    | some w =>
      cases hflying : w.flying with
      | none => simp [hflying]
      | some sl => exact absurd hfree (by simp [Sys.in_flight, hflying])
  · have h := hgoing w hw
    exact ⟨h.span, h.started, h.generation, h.held, h.plain, h.one, h.first, h.quiet, h.plain_left, h.flying⟩
  · have h := hs.fine e he
    exact ⟨h.span, h.generation, h.one, h.unsent, h.told⟩

/-- The call returns. -/
theorem Inv.returns (hs : Inv who s) {result : Except String Answer}
    (hfine : Fine who s ⟨w, result, s.st.generation, s.bus.clock, s.now⟩)
    (hapart : ∀ e ∈ s.ended, Apart e ⟨w, result, s.st.generation, s.bus.clock, s.now⟩) :
    Inv who (s.returns w result) := by
  have hm : Moved s.bus { s.bus with phase := .idle } := Moved.same hs.store _ _ _
  have hmoved : ∀ e, Fine who s e → Fine who (s.returns w result) e := by
    intro e h
    refine ⟨h.span, h.generation, h.one, h.unsent, fun a ha => ?_⟩
    obtain ⟨first, hfirst, hstart, sl, hsl, htold⟩ := h.told a ha
    exact ⟨first, hfirst, hstart, sl, hsl, htold.moved hm (Nat.le_refl _)⟩
  refine ⟨hm.store, hm.young hs.young, fun _ => rfl, fun w' hw' => absurd hw' (by simp [Sys.returns]), ?_, ?_⟩
  · intro e he
    rcases List.mem_append.mp he with he | he
    · exact hmoved e (hs.fine e he)
    · rw [List.mem_singleton.mp he]
      exact hmoved _ hfine
  · show (s.ended ++ [_]).Pairwise Apart
    rw [List.pairwise_append]
    refine ⟨hs.apart, List.pairwise_singleton _ _, fun e he e' he' => ?_⟩
    rw [List.mem_singleton.mp he']
    exact hapart e he

/-- **A slice's answer**, after those that had nothing to say, has told what lies between the first
slice's position and its own. -/
theorem Going.told (h : Going who s w) (hflying : w.flying = some sl)
    (hphase : s.bus.phase = .idle) {a : Answer} (ha : s.bus.answers[sl.asked]? = some a) :
    ∃ first, (w.answers ++ [a]).head? = some first ∧
      (∀ p, w.request.since = some p → first.start = p) ∧
      Told (who sl.remote) w.request.kinds (Resumes s w) s.bus s.bus.clock first.start
        a.result.resume_from a.readings a.result.events := by
  obtain ⟨hin, hsince, hflight⟩ := h.flying sl hflying
  obtain ⟨hstart, -, htold⟩ := hflight.answer hphase ha
  cases hans : w.answers with
  | nil =>
    -- the first slice
    refine ⟨a, rfl, fun p hp => hstart p ?_, htold.weaken .inr⟩
    rw [hsince, h.first hans]
    exact hp
  | cons first rest =>
    obtain ⟨hfirst, q, hq, sl', hsl', hquiet⟩ := h.quiet first (by rw [hans]; rfl)
    have hfrom : a.start = q := hstart q (hsince.trans hq)
    rw [h.one sl' hsl' sl hin] at hquiet
    have hnext : Told (who sl.remote) w.request.kinds True s.bus s.bus.clock q
        a.result.resume_from a.readings a.result.events := by
      rw [← hfrom]
      exact htold.weaken fun _ => .inl (by rw [hans]; exact List.cons_ne_nil _ _)
    exact ⟨first, rfl, hfirst, hquiet.trans hnext⟩

/-- `forward_bound` hands out the connection of the generation it is held to. -/
theorem forward_bound_ok {bound : Option ℕ} (h : forward_bound st bound = .ok remote) :
    (∀ started, bound = some started → st.generation = started) ∧
      ∃ c, st.connected = some c ∧ c.remote = remote := by
  unfold forward_bound at h
  split at h
  · cases h
  · rename_i hnone
    split at h
    · cases h
    · rename_i c hc
      refine ⟨fun started hstarted => ?_, c, hc, Except.ok.inj h⟩
      rw [hstarted] at hnone
      simpa using hnone

/-- Otherwise it says whether the generation or the connection is gone. -/
theorem forward_bound_error {started : ℕ} {why : String} (h : forward_bound st (some started) = .error why) :
    (st.generation ≠ started ∧ why = switched started) ∨
      (st.generation = started ∧ ∃ reason, why = not_connected reason) := by
  unfold forward_bound at h
  split at h
  · rename_i n hn
    obtain ⟨hn, hne⟩ := Option.filter_eq_some_iff.mp hn
    obtain rfl := Option.some.inj hn
    exact .inl ⟨by simpa using hne, (Except.error.inj h).symm⟩
  · rename_i hnone
    split at h
    · exact .inr ⟨by simpa using hnone, _, (Except.error.inj h).symm⟩
    · cases h

/-- A slice goes out: over the connection of the generation the wait is held to, from the position it
has come to. -/
theorem Inv.sent (hs : Inv who s) {scope : Scope} {focus : Option Uuid}
    {names : Names} {pending : ℕ} {counts : Counts} {bus : Waiting.Sys} (hw : s.wait = some w)
    (hfree : w.flying = none) (hbound : forward_bound s.st (w.span.map Span.started_under) = .ok remote)
    (hbus : Waiting.step (who remote) w.request.kinds { s.bus with since := w.since }
      (.call scope focus names pending counts) = some bus)
    (hsl : sl = ⟨s.st.generation, remote, w.timeout_seconds s.now, w.since, w.left s.now, s.now,
      s.bus.answers.length⟩) :
    Inv who { s with bus := bus, wait := some { w with slices := w.slices ++ [sl], flying := some sl } } := by
  have h := hs.going w hw
  obtain ⟨hgeneration, c, hc, hremote⟩ := forward_bound_ok hbound
  have hspan : ∀ b, w.span = some b → s.st.generation = b.started_under :=
    fun b hb => hgeneration b.started_under (by rw [hb]; rfl)
  -- the connection is the one of the slices before
  have hsame : ∀ sl' ∈ w.slices, sl'.remote = remote := by
    intro sl' hsl'
    cases hb : w.span with
    | none =>
      rw [h.plain hb hfree] at hsl'
      exact absurd hsl' List.not_mem_nil
    | some b => exact (h.held b hb (hspan b hb) c hc sl' hsl').trans hremote
  have hseen : (w.answers ≠ [] ∨ Resumes s w) → ∀ p, w.since = some p → Seen p s.bus.xids := by
    intro hknown p hp
    cases hans : w.answers with
    | nil =>
      obtain ⟨p', hp', hknown⟩ := hknown.resolve_left (not_not_intro hans)
      obtain rfl : p' = p := Option.some.inj (hp'.symm.trans ((h.first hans).symm.trans hp))
      exact hs.known hknown
    | cons first rest =>
      obtain ⟨-, q, hq, _, _, hquiet⟩ := h.quiet first (by rw [hans]; rfl)
      obtain rfl : q = p := Option.some.inj (hq.symm.trans hp)
      exact hquiet.seen
  have hstore := (Moved.same hs.store w.since s.bus.phase s.bus.answers).store
  have hflight : Flight _ _ (w.answers ≠ [] ∨ Resumes s w) _ _ _ := Flight.made hstore hs.young hseen hbus
  have hmoved : Moved s.bus bus := by
    have hcall := call_moved hstore hbus
    exact ⟨hcall.store, hcall.clock, hcall.young, hcall.seen, hcall.ever⟩
  refine ⟨hmoved.store, hmoved.young hs.young, fun hno => absurd hno (by simp [Sys.in_flight]), ?_, ?_, hs.apart⟩
  · intro w' hw'
    obtain rfl := Option.some.inj hw'
    refine ⟨h.span, h.started, ?_, ?_, fun _ hno => absurd hno (by simp), ?_, h.first, ?_, ?_, ?_⟩
    · intro b hb sl' hsl'
      rcases List.mem_append.mp hsl' with hsl' | hsl'
      · exact h.generation b hb sl' hsl'
      · rw [List.mem_singleton.mp hsl', hsl]
        exact hspan b hb
    · intro b hb _ c' hc' sl' hsl'
      obtain rfl : c' = c := Option.some.inj (hc'.symm.trans hc)
      rcases List.mem_append.mp hsl' with hsl' | hsl'
      · exact (hsame sl' hsl').trans hremote.symm
      · rw [List.mem_singleton.mp hsl', hsl]
        exact hremote.symm
    · have hall : ∀ sl' ∈ w.slices ++ [sl], sl'.remote = remote := by
        intro sl' hsl'
        rcases List.mem_append.mp hsl' with hsl' | hsl'
        · exact hsame sl' hsl'
        · rw [List.mem_singleton.mp hsl', hsl]
      exact fun sl₁ h₁ sl₂ h₂ => (hall sl₁ h₁).trans (hall sl₂ h₂).symm
    · intro a ha
      obtain ⟨hstart, q, hq, sl', hsl', htold⟩ := h.quiet a ha
      exact ⟨hstart, q, hq, sl', List.mem_append_left _ hsl', htold.moved hmoved hmoved.clock⟩
    · intro hb sl' hsl'
      obtain rfl := Option.some.inj hsl'
      have hb : w.span = none := hb
      rw [hsl, Pending.left, hb]
    · intro sl' hsl'
      obtain rfl := Option.some.inj hsl'
      refine ⟨List.mem_append_right _ (List.mem_singleton.mpr rfl), by rw [hsl], ?_⟩
      rw [hsl]
      exact hflight
  · intro e he
    have h := hs.fine e he
    refine ⟨h.span, h.generation, h.one, h.unsent, fun a ha => ?_⟩
    obtain ⟨first, hfirst, hstart, sl', hsl', htold⟩ := h.told a ha
    exact ⟨first, hfirst, hstart, sl', hsl', htold.moved hmoved (Nat.le_refl _)⟩

/-- **One step** keeps the invariant. -/
theorem Inv.step (hs : Inv who s) {a : Act} (h : Rel (step session_for binding_path who) s a t) :
    Inv who t := by
  cases step_did h with
  | window e proxy hproxy =>
    have hholds : Holds s.st proxy.window.st := window_holds hproxy
    refine ⟨hs.store, hs.young, hs.idle, fun w hw => ?_, fun e he => ?_, hs.apart⟩
    · have h := hs.going w hw
      refine ⟨h.span, fun b hb => Nat.le_trans (h.started b hb) hholds.generation, h.generation, ?_, h.plain,
        h.one, h.first, h.quiet, h.plain_left, h.flying⟩
      intro b hb hgeneration c' hc' sl hsl
      -- a window that is still of this generation was of it before
      have hgeneration : proxy.window.st.generation = b.started_under := hgeneration
      have hle := h.started b hb
      have hup := hholds.generation
      have hsame : proxy.window.st.generation = s.st.generation := by omega
      obtain ⟨c, hc, hremote⟩ := hholds.remote hsame c' hc'
      exact (h.held b hb (hsame.symm.trans hgeneration) c hc sl hsl).trans hremote
    · have h := hs.fine e he
      exact ⟨h.span, h.generation, h.one, h.unsent, h.told⟩
  | log a bus hfree ha hbus =>
    have hbeside := beside_of_step hs.store ha hbus
    refine hs.bus hbeside.toMoved (fun hno => hbeside.phase.trans (hs.idle hno)) fun w sl hflight => ?_
    rw [hfree] at hflight
    cases hflight
  | served w sl a bus hflight ha hbus =>
    obtain ⟨hw, hflying⟩ := in_flight_iff.mp hflight
    obtain ⟨-, -, hf⟩ := (hs.going w hw).flying sl hflying
    obtain ⟨hf', hmoved⟩ := hf.serve hs.store hs.young ha hbus
    refine hs.bus hmoved (fun hno => ?_) fun w' sl' hflight' => ?_
    · rw [hflight] at hno
      cases hno
    · obtain ⟨rfl, rfl⟩ := Prod.mk.inj (Option.some.inj (hflight'.symm.trans hflight))
      exact hf'
  | passed n =>
    apply hs.waits (fun hno => hs.idle ?_) fun w hw => hs.going w hw
    unfold Sys.in_flight
    cases hw : s.wait with
    | none => rfl
    | some w =>
      rw [hw] at hno
      simp only [Option.bind_some, Option.isNone_iff_eq_none] at hno
      simp [hno]
  | began r hnone =>
    refine hs.waits (fun _ => hs.idle (by simp [Sys.in_flight, hnone])) fun w hw => ?_
    obtain rfl := Option.some.inj hw
    refine ⟨⟨s.st.generation, rfl⟩, ?_, fun _ _ sl hsl => absurd hsl List.not_mem_nil,
      fun _ _ _ _ _ sl hsl => absurd hsl List.not_mem_nil, fun _ _ => rfl,
      fun sl hsl => absurd hsl List.not_mem_nil, fun _ => rfl, fun a ha => absurd ha (by simp),
      fun _ sl hsl => absurd hsl (by simp), fun sl hsl => absurd hsl (by simp)⟩
    intro b hb
    obtain ⟨total, -, rfl⟩ := Option.map_eq_some_iff.mp hb
    exact Nat.le_refl _
  | unsent w scope focus names pending counts why hw hfree hbound =>
    have h := hs.going w hw
    refine hs.returns ⟨h.span, h.generation, h.one, ?_, fun a ha => nomatch ha⟩
      fun e he a₁ a₂ _ ha₂ => nomatch ha₂
    intro _ why' hwhy b hb
    obtain rfl := Except.error.inj hwhy
    rw [hb] at hbound
    exact forward_bound_error hbound
  | sent w remote scope focus names pending counts bus hw hfree hbound hbus sl hsl =>
    exact hs.sent hw hfree hbound hbus hsl
  | answered w sl a hflight hphase ha =>
    obtain ⟨hw, hflying⟩ := in_flight_iff.mp hflight
    have h := hs.going w hw
    obtain ⟨first, hfirst, hstart, htold⟩ := h.told hflying hphase ha
    refine hs.returns ⟨h.span, h.generation, h.one, fun _ why hwhy => absurd hwhy (by simp), ?_⟩ ?_
    · intro a' ha'
      obtain rfl := Except.ok.inj ha'
      exact ⟨first, hfirst, hstart, sl, (h.flying sl hflying).1, htold.weaken False.elim⟩
    · intro e he a₁ a₂ ha₁ ha₂ hsince
      obtain rfl := Except.ok.inj ha₂
      have hknown : Resumes s w := ⟨_, hsince, e, he, a₁, ha₁, rfl⟩
      have hfrom := hstart _ hsince
      rw [hfrom] at htold
      exact ⟨htold.fresh hknown, htold.after hknown⟩
  | went_on w sl a hflight hphase ha hquiet hleft =>
    obtain ⟨hw, hflying⟩ := in_flight_iff.mp hflight
    have h := hs.going w hw
    obtain ⟨hin, hsince, hflight'⟩ := h.flying sl hflying
    obtain ⟨first, hfirst, hstart, htold⟩ := h.told hflying hphase ha
    obtain ⟨-, hwoke, -⟩ := hflight'.answer hphase ha
    -- an answer that did not wake has nothing to say
    have hnil : a.result.events = [] := by
      rw [hquiet] at hwoke
      simpa using hwoke.symm
    rw [hnil] at htold
    refine hs.waits (fun _ => hphase) fun w' hw' => ?_
    obtain rfl := Option.some.inj hw'
    refine ⟨h.span, h.started, h.generation, h.held, ?_, h.one, fun hno => absurd hno (by simp), ?_,
      fun _ sl' hsl' => absurd hsl' (by simp), fun sl' hsl' => absurd hsl' (by simp)⟩
    · intro hb _
      exact absurd hleft (by simp [h.plain_left hb sl hflying])
    · intro a' ha'
      obtain rfl : first = a' := Option.some.inj (hfirst.symm.trans ha')
      exact ⟨hstart, _, rfl, sl, hin, htold.quiet⟩
  | broke_off _ w sl why hflight =>
    obtain ⟨hw, hflying⟩ := in_flight_iff.mp hflight
    have h := hs.going w hw
    refine hs.returns ⟨h.span, h.generation, h.one, fun hno => ?_, fun a ha => nomatch ha⟩
      fun e he a₁ a₂ _ ha₂ => nomatch ha₂
    rw [hflying] at hno
    cases hno
  | host_cancelled w hw =>
    have h := hs.going w hw
    refine hs.waits (fun hno => hs.idle ?_) fun w' hw' => ?_
    · simp only [Option.bind_some, Option.isNone_iff_eq_none] at hno
      simp [Sys.in_flight, hw, hno]
    · obtain rfl := Option.some.inj hw'
      exact ⟨h.span, h.started, h.generation, h.held, h.plain, h.one, h.first, h.quiet, h.plain_left, h.flying⟩

end Keeping

/-! ## How long it takes -/

/-- A slice lasts its own timeout at most, and the next one follows at once. -/
def Prompt (s : Sys) : Act → Prop
  | .pass n => ∀ w, s.wait = some w →
    (w.flying = none → n = 0) ∧
      ∀ sl, w.flying = some sl → s.now + n ≤ sl.began + timeout_of sl.timeout_seconds * NANOS
  | _ => True

/-- An answer takes `d` at least. -/
def Lasts (d : ℕ) (s : Sys) : Act → Prop
  | .answered => ∀ w sl, s.in_flight = some (w, sl) → sl.began + d ≤ s.now
  | _ => True

/-- The slice was cut from what was left. -/
structure Cut (b : Span) (sl : Slice) : Prop where
  left : sl.left = (b.deadline - sl.began) / NANOS
  timeout : timeout_of sl.timeout_seconds = max 5 (min sl.left SERVER_WAIT_SLICE_SECS)

/-- The time of a wait. -/
structure InTime (s : Sys) (w : Pending) (b : Span) : Prop where
  free : w.flying = none → s.now ≤ b.deadline
  flying : ∀ sl, w.flying = some sl → Cut b sl ∧ sl.began ≤ b.deadline ∧
    s.now ≤ sl.began + timeout_of sl.timeout_seconds * NANOS

/-- The time of all of them. -/
structure Timely (s : Sys) : Prop where
  wait : ∀ w, s.wait = some w → ∀ b, w.span = some b → InTime s w b
  ended : ∀ e ∈ s.ended, ∀ b, e.wait.span = some b → e.now ≤ b.deadline + 5 * NANOS

/-- How many slices a wait has had, if each took `d`. -/
structure Paced (d : ℕ) (s : Sys) (w : Pending) (b : Span) : Prop where
  free : w.flying = none → w.slices.length = w.answers.length ∧ w.began + w.answers.length * d ≤ s.now
  flying : ∀ sl, w.flying = some sl → w.slices.length = w.answers.length + 1 ∧
    w.began + w.answers.length * d ≤ sl.began ∧ Cut b sl
  /-- The slice before went out with more than a slice's time left. -/
  early : ∀ k, w.answers.length = k + 1 →
    w.began + k * d + (SERVER_WAIT_SLICE_SECS + 1) * NANOS ≤ b.deadline

/-- A wait of so many slices began so much earlier. -/
def Bounded (d : ℕ) (w : Pending) (b : Span) : Prop :=
  ∀ k, w.slices.length = k + 2 → w.began + k * d + (SERVER_WAIT_SLICE_SECS + 1) * NANOS ≤ b.deadline

/-- The pace of all of them. -/
structure Counted (d : ℕ) (s : Sys) : Prop where
  wait : ∀ w, s.wait = some w → ∀ b, w.span = some b → Paced d s w b
  ended : ∀ e ∈ s.ended, ∀ b, e.wait.span = some b → Bounded d e.wait b

section Time

variable {session_for binding_path : String → String} {who : Remote → AuthCtx} {s t : Sys} {w : Pending}
  {b : Span} {sl : Slice} {d : ℕ} {w' : Pending} {a : Act}

theorem cut_of (hb : w.span = some b) (hleft : sl.left = w.left sl.began)
    (htimeout : sl.timeout_seconds = w.timeout_seconds sl.began) : Cut b sl := by
  have hcut : sl.left = (b.deadline - sl.began) / NANOS := by
    rw [hleft, Pending.left, hb]
  refine ⟨hcut, ?_⟩
  have hasked : sl.timeout_seconds =
      some ((max 5 (min sl.left SERVER_WAIT_SLICE_SECS) : ℕ) : ℤ) := by
    rw [htimeout, hleft, Pending.timeout_seconds, hb]
  rw [hasked, timeout_of, Option.getD_some]
  unfold MAX_TIMEOUT_SECS SERVER_WAIT_SLICE_SECS
  omega

/-- A slice ends five seconds after the deadline at the latest. -/
theorem Cut.ends (h : Cut b sl) (hbegan : sl.began ≤ b.deadline) :
    sl.began + timeout_of sl.timeout_seconds * NANOS ≤ b.deadline + 5 * NANOS := by
  rw [h.timeout, h.left]
  unfold SERVER_WAIT_SLICE_SECS NANOS
  omega

/-- Where more than a slice's time is left, it ends before the deadline. -/
theorem Cut.within (h : Cut b sl) (hleft : SERVER_WAIT_SLICE_SECS < sl.left) :
    timeout_of sl.timeout_seconds = SERVER_WAIT_SLICE_SECS ∧
      sl.began + (SERVER_WAIT_SLICE_SECS + 1) * NANOS ≤ b.deadline := by
  have hcut := h.left
  refine ⟨?_, ?_⟩
  · rw [h.timeout]
    unfold SERVER_WAIT_SLICE_SECS at *
    omega
  · unfold SERVER_WAIT_SLICE_SECS NANOS at *
    omega

theorem InTime.ends (h : InTime s w b) : s.now ≤ b.deadline + 5 * NANOS := by
  cases hflying : w.flying with
  | none =>
    have := h.free hflying
    omega
  | some sl =>
    obtain ⟨hcut, hbegan, hnow⟩ := h.flying sl hflying
    exact Nat.le_trans hnow (hcut.ends hbegan)

/-- A call that returns has been in time. -/
theorem Timely.returns (hs : Timely s) (hw : s.wait = some w) (hspan : w'.span = w.span)
    (result : Except String Answer) : Timely (s.returns w' result) := by
  refine ⟨fun w'' hw'' => absurd hw'' (by simp [Sys.returns]), fun e he b hb => ?_⟩
  rcases List.mem_append.mp he with he | he
  · exact hs.ended e he b hb
  · rw [List.mem_singleton.mp he] at hb ⊢
    exact (hs.wait w hw b (hspan ▸ hb)).ends

theorem Timely.step (hs : Timely s) (hprompt : Prompt s a)
    (h : Rel (step session_for binding_path who) s a t) : Timely t := by
  cases step_did h with
  | window | log | served => exact ⟨fun w hw b hb => ⟨(hs.wait w hw b hb).free, (hs.wait w hw b hb).flying⟩, hs.ended⟩
  | passed n =>
    refine ⟨fun w hw b hb => ?_, hs.ended⟩
    obtain ⟨hfree, hflying⟩ := hprompt w hw
    have h := hs.wait w hw b hb
    refine ⟨fun hno => ?_, fun sl hsl => ?_⟩
    · show s.now + n ≤ b.deadline
      rw [hfree hno]
      exact h.free hno
    · exact ⟨(h.flying sl hsl).1, (h.flying sl hsl).2.1, hflying sl hsl⟩
  | began r hnone =>
    refine ⟨fun w hw b hb => ?_, hs.ended⟩
    obtain rfl := Option.some.inj hw
    obtain ⟨total, -, rfl⟩ := Option.map_eq_some_iff.mp hb
    exact ⟨fun _ => Nat.le_add_right _ _, fun sl hsl => nomatch hsl⟩
  | unsent w scope focus names pending counts why hw => exact hs.returns hw rfl _
  | sent w remote scope focus names pending counts bus hw hfree hbound hbus sl hsl =>
    refine ⟨fun w' hw' b hb => ?_, hs.ended⟩
    obtain rfl := Option.some.inj hw'
    have hnow := (hs.wait w hw b hb).free hfree
    have hcut : Cut b sl := cut_of (w := w) hb (by rw [hsl]) (by rw [hsl])
    refine ⟨fun hno => absurd hno (by simp), fun sl' hsl' => ?_⟩
    obtain rfl := Option.some.inj hsl'
    have hbegan : sl.began = s.now := by rw [hsl]
    refine ⟨hcut, by omega, ?_⟩
    show s.now ≤ _
    omega
  | answered w sl a hflight =>
    apply hs.returns (in_flight_iff.mp hflight).1
    rfl
  | went_on w sl a hflight hphase ha hquiet hleft =>
    refine ⟨fun w' hw' b hb => ?_, hs.ended⟩
    obtain rfl := Option.some.inj hw'
    obtain ⟨hw, hflying⟩ := in_flight_iff.mp hflight
    obtain ⟨hcut, hbegan, hnow⟩ := (hs.wait w hw b hb).flying sl hflying
    obtain ⟨hfull, hearly⟩ := hcut.within hleft
    refine ⟨fun _ => ?_, fun sl' hsl' => nomatch hsl'⟩
    rw [hfull] at hnow
    show s.now ≤ b.deadline
    unfold SERVER_WAIT_SLICE_SECS NANOS at *
    omega
  | broke_off _ w sl why hflight => exact hs.returns (in_flight_iff.mp hflight).1 rfl _
  | host_cancelled w hw =>
    refine ⟨fun w' hw' b hb => ?_, hs.ended⟩
    obtain rfl := Option.some.inj hw'
    exact ⟨(hs.wait w hw b hb).free, (hs.wait w hw b hb).flying⟩

theorem Paced.bounded (h : Paced d s w b) : Bounded d w b := by
  intro k hk
  cases hflying : w.flying with
  | none =>
    have hearly := h.early (k + 1) (by rw [← (h.free hflying).1, hk])
    rw [Nat.succ_mul] at hearly
    omega
  | some sl =>
    apply h.early k
    have hlength := (h.flying sl hflying).1
    omega

theorem Counted.returns (hs : Counted d s) (hw : s.wait = some w) (hspan : w'.span = w.span)
    (hbegan : w'.began = w.began) (hslices : w'.slices = w.slices) (result : Except String Answer) :
    Counted d (s.returns w' result) := by
  refine ⟨fun w'' hw'' => absurd hw'' (by simp [Sys.returns]), fun e he b hb => ?_⟩
  rcases List.mem_append.mp he with he | he
  · exact hs.ended e he b hb
  · rw [List.mem_singleton.mp he] at hb ⊢
    have hbounded := (hs.wait w hw b (hspan ▸ hb)).bounded
    intro k hk
    rw [hslices] at hk
    rw [hbegan]
    exact hbounded k hk

theorem Counted.step (hs : Counted d s) (hlasts : Lasts d s a)
    (h : Rel (step session_for binding_path who) s a t) : Counted d t := by
  cases step_did h with
  | window | log | served =>
    refine ⟨fun w hw b hb => ?_, hs.ended⟩
    have h := hs.wait w hw b hb
    exact ⟨h.free, h.flying, h.early⟩
  | passed n =>
    refine ⟨fun w hw b hb => ?_, hs.ended⟩
    have h := hs.wait w hw b hb
    refine ⟨fun hno => ⟨(h.free hno).1, ?_⟩, h.flying, h.early⟩
    exact Nat.le_trans (h.free hno).2 (Nat.le_add_right _ _)
  | began r hnone =>
    refine ⟨fun w hw b hb => ?_, hs.ended⟩
    obtain rfl := Option.some.inj hw
    exact ⟨fun _ => ⟨rfl, by simp⟩, fun sl hsl => absurd hsl (by simp), fun k hk => absurd hk (by simp)⟩
  | unsent w scope focus names pending counts why hw => exact hs.returns hw rfl rfl rfl _
  | sent w remote scope focus names pending counts bus hw hfree hbound hbus sl hsl =>
    refine ⟨fun w' hw' b hb => ?_, hs.ended⟩
    obtain rfl := Option.some.inj hw'
    have h := hs.wait w hw b hb
    obtain ⟨hlength, hpace⟩ := h.free hfree
    refine ⟨fun hno => absurd hno (by simp), fun sl' hsl' => ?_, h.early⟩
    obtain rfl := Option.some.inj hsl'
    refine ⟨by simp [hlength], ?_, cut_of (w := w) hb (by rw [hsl]) (by rw [hsl])⟩
    rw [hsl]
    exact hpace
  | answered w sl a hflight =>
    apply hs.returns (in_flight_iff.mp hflight).1 <;> rfl
  | went_on w sl a hflight hphase ha hquiet hleft =>
    refine ⟨fun w' hw' b hb => ?_, hs.ended⟩
    obtain rfl := Option.some.inj hw'
    obtain ⟨hw, hflying⟩ := in_flight_iff.mp hflight
    obtain ⟨hlength, hpace, hcut⟩ := (hs.wait w hw b hb).flying sl hflying
    have hearly := (hcut.within hleft).2
    have htook := hlasts w sl hflight
    refine ⟨fun _ => ⟨by simp [hlength], ?_⟩, fun sl' hsl' => absurd hsl' (by simp), fun k hk => ?_⟩
    · show w.began + (w.answers ++ [a]).length * d ≤ s.now
      rw [List.length_append, List.length_singleton, Nat.succ_mul]
      omega
    · obtain rfl : w.answers.length = k := by simpa using hk
      show w.began + _ + _ ≤ _
      omega
  | broke_off _ w sl why hflight => exact hs.returns (in_flight_iff.mp hflight).1 rfl rfl rfl _
  | host_cancelled w hw =>
    refine ⟨fun w' hw' b hb => ?_, hs.ended⟩
    obtain rfl := Option.some.inj hw'
    have h := hs.wait w hw b hb
    exact ⟨h.free, h.flying, h.early⟩

end Time

/-! ## The law -/

/-- The window is idle, nothing has been answered, and the log is that of `Waiting.Started`. -/
structure Starts (s : Sys) : Prop where
  bus : Waiting.Started s.bus
  wait : s.wait = none
  ended : s.ended = []

/-- A wait of the run, whether it has returned or not. -/
def Has (s : Sys) (w : Pending) : Prop := s.wait = some w ∨ ∃ e ∈ s.ended, e.wait = w

/-- The later wait starts from where the earlier one was answered. -/
def Follows (s : Sys) (i j : ℕ) : Prop :=
  i < j ∧ ∃ e₁ e₂ a₁ a₂, s.ended[i]? = some e₁ ∧ s.ended[j]? = some e₂ ∧ e₁.result = .ok a₁ ∧
    e₂.result = .ok a₂ ∧ e₂.wait.request.since = some a₁.result.resume_from

/-- What the answer of a wait accounts for: of the changes that the first slice's position does not
see, each that the log still has is found once if the answer's own position sees it, and else not. -/
def Accounts (auth : AuthCtx) (ever : List LogRow) (first : Answer) (a : Answer) (e : Ended) : Prop :=
  ∀ r ∈ ever, wanted auth.team_id e.wait.request.kinds r = true → visible r.tx first.start = false →
    e.clock ≤ r.logged_at + RETENTION →
    (rows_of a.readings).count r = if visible r.tx a.result.resume_from = true then 1 else 0

section Law

variable (session_for binding_path : String → String) (who : Remote → AuthCtx)

/-- What the waits of a window come to. -/
structure LongWaitLaw (tr : List (Trans Sys Act)) (s : Sys) : Prop where
  /-- The last slice's answer is that of one wait from the first slice's position. -/
  accounts : ∀ e ∈ s.ended, ∀ a, e.result = .ok a → ∃ first auth,
    e.wait.answers.head? = some first ∧ (∀ p, e.wait.request.since = some p → first.start = p) ∧
      (∀ sl ∈ e.wait.slices, who sl.remote = auth) ∧ Accounts auth s.bus.ever first a e
  /-- It says what its readings found: a line for each of the first rows, a count of the others. -/
  told : ∀ e ∈ s.ended, ∀ a, e.result = .ok a →
    a.result.events.filter of_log = a.readings.flatMap Reading.lines ∧
      ∀ rd ∈ a.readings, ∀ r ∈ rd.rows.take REPLAY_LIMIT,
        ∃ d, describe rd.names ⟨r.payload⟩ = some d ∧ d ∈ a.result.events
  /-- No two waits of a chain report the same. -/
  apart : ∀ i j, Relation.TransGen (Follows s) i j → ∀ e₁ e₂ a₁ a₂, s.ended[i]? = some e₁ →
    s.ended[j]? = some e₂ → e₁.result = .ok a₁ → e₂.result = .ok a₂ →
      ∀ r ∈ rows_of a₁.readings, r ∉ rows_of a₂.readings
  /-- Every slice is of one generation, and over its connection. -/
  bound : ∀ w, Has s w → ∀ n, w.request.timeout_seconds = some n → SERVER_WAIT_LIMIT_SECS < n →
    n < 2 ^ 63 → ∃ b, w.span = some b ∧ (∀ sl ∈ w.slices, sl.generation = b.started_under) ∧
      ∀ sl ∈ w.slices, ∀ sl' ∈ w.slices, sl.remote = sl'.remote
  /-- Where a slice cannot go out, the call says that the window switched credentials, or, while it
  is still of this generation, that it has no connection. -/
  unsent : ∀ e ∈ s.ended, ∀ why, e.result = .error why → e.wait.flying = none →
    ∀ b, e.wait.span = some b →
      (e.generation ≠ b.started_under ∧ why = switched b.started_under) ∨
        (e.generation = b.started_under ∧ ∃ reason, why = not_connected reason)
  /-- It ends: between two slices the next one can go out, and if each takes `d` at least, all but the
  last two fit into the time that was asked for. -/
  goes_on : ∀ w, s.wait = some w → w.flying = none → ∀ scope focus names pending counts,
    (step session_for binding_path who s (.slice scope focus names pending counts)).isSome = true
  ends : ∀ d, (∀ e ∈ tr, Lasts d e.pre e.act) → ∀ w, Has s w → ∀ n, w.request.timeout_seconds = some n →
    SERVER_WAIT_LIMIT_SECS < n → n < 2 ^ 63 → ∀ k, w.slices.length = k + 2 →
      k * d + (SERVER_WAIT_SLICE_SECS + 1) * NANOS ≤ (min n PROXY_MAX_WAIT_SECS).toNat * NANOS
  /-- It takes five seconds more at most. -/
  in_time : (∀ e ∈ tr, Prompt e.pre e.act) → ∀ e ∈ s.ended, ∀ n,
    e.wait.request.timeout_seconds = some n → SERVER_WAIT_LIMIT_SECS < n → n < 2 ^ 63 →
      e.now ≤ e.wait.began + ((min n PROXY_MAX_WAIT_SECS).toNat + 5) * NANOS

variable {session_for binding_path who} {s₀ s : Sys} {tr : List (Trans Sys Act)} {w : Pending} {e : Ended}
  {a : Answer}

theorem Starts.inv (h : Starts s₀) : Inv who s₀ := by
  have hbus : Waiting.Inv others none s₀.bus := h.bus.inv
  have hstore : Store s₀.bus := hbus.store
  refine ⟨hstore, ?_, fun _ => h.bus.phase, ?_, ?_, ?_⟩
  · intro r hr _
    rw [h.bus.log]
    exact hr
  · intro w hw
    rw [h.wait] at hw
    cases hw
  · intro e he
    rw [h.ended] at he
    exact absurd he List.not_mem_nil
  · rw [h.ended]
    exact List.Pairwise.nil

/-- A wait for longer than the bus serves has a span. -/
theorem span_eq {r : Request} {g now : ℕ} {n : ℤ} (hn : r.timeout_seconds = some n)
    (hlong : SERVER_WAIT_LIMIT_SECS < n) (hsmall : n < 2 ^ 63) :
    r.span g now = some ⟨g, now + (min n PROXY_MAX_WAIT_SECS).toNat * NANOS⟩ := by
  have h64 : as_i64 n = some n := by
    unfold as_i64
    unfold SERVER_WAIT_LIMIT_SECS at hlong
    exact if_pos ⟨by omega, hsmall⟩
  rw [Request.span, hn, Option.bind_some, h64, Option.filter_some, if_pos (by simpa using hlong),
    Option.map_some]

theorem Inv.span (hs : Inv who s) (hw : Has s w) : ∃ g, w.span = w.request.span g w.began := by
  rcases hw with hw | ⟨e, he, rfl⟩
  · exact (hs.going w hw).span
  · exact (hs.fine e he).span

theorem Inv.accounts (hs : Inv who s) (he : e ∈ s.ended) (ha : e.result = .ok a) :
    ∃ first auth, e.wait.answers.head? = some first ∧
      (∀ p, e.wait.request.since = some p → first.start = p) ∧
      (∀ sl ∈ e.wait.slices, who sl.remote = auth) ∧ Accounts auth s.bus.ever first a e := by
  have hfine := hs.fine e he
  obtain ⟨first, hfirst, hstart, sl, hsl, htold⟩ := hfine.told a ha
  refine ⟨first, who sl.remote, hfirst, hstart, fun sl' hsl' => by rw [hfine.one sl' hsl' sl hsl], ?_⟩
  intro r hr hw hv hage
  by_cases hsees : visible r.tx a.result.resume_from = true
  · rw [if_pos hsees]
    exact List.count_eq_one_of_mem htold.once (htold.all r hr hw hv hage hsees)
  · rw [if_neg hsees, List.count_eq_zero]
    exact fun hin => hsees (htold.found r hin).2.2

theorem Inv.told (hs : Inv who s) (he : e ∈ s.ended) (ha : e.result = .ok a) :
    a.result.events.filter of_log = a.readings.flatMap Reading.lines ∧
      ∀ rd ∈ a.readings, ∀ r ∈ rd.rows.take REPLAY_LIMIT,
        ∃ d, describe rd.names ⟨r.payload⟩ = some d ∧ d ∈ a.result.events := by
  obtain ⟨first, -, -, sl, -, htold⟩ := (hs.fine e he).told a ha
  refine ⟨htold.told, fun rd hrd r hr => ?_⟩
  obtain ⟨c, hc⟩ := htold.made rd hrd r (List.mem_of_mem_take hr)
  obtain ⟨d, hd⟩ := Option.isSome_iff_exists.mp (describe_change rd.names c)
  rw [← hc] at hd
  refine ⟨d, hd, ?_⟩
  have hline : d ∈ rd.lines := List.mem_append_left _ (List.mem_filterMap.mpr ⟨r, hr, hd⟩)
  have hall : d ∈ a.result.events.filter of_log := by
    rw [htold.told]
    exact List.mem_flatMap.mpr ⟨rd, hrd, hline⟩
  exact (List.mem_filter.mp hall).1

/-- Along a chain, what is told is news, and positions only see more. -/
theorem Inv.chain (hs : Inv who s) {i j : ℕ} (h : Relation.TransGen (Follows s) i j) :
    ∀ e₁ e₂ a₁ a₂, s.ended[i]? = some e₁ → s.ended[j]? = some e₂ → e₁.result = .ok a₁ →
      e₂.result = .ok a₂ → (∀ r ∈ rows_of a₂.readings, visible r.tx a₁.result.resume_from = false) ∧
        ∀ tx, visible tx a₁.result.resume_from = true → visible tx a₂.result.resume_from = true := by
  have hnext : ∀ i j, Follows s i j → ∀ e₁ e₂ a₁ a₂, s.ended[i]? = some e₁ → s.ended[j]? = some e₂ →
      e₁.result = .ok a₁ → e₂.result = .ok a₂ →
      (∀ r ∈ rows_of a₂.readings, visible r.tx a₁.result.resume_from = false) ∧
        ∀ tx, visible tx a₁.result.resume_from = true → visible tx a₂.result.resume_from = true := by
    rintro i j ⟨hij, e₁', e₂', a₁', a₂', h₁, h₂, hok₁, hok₂, hsince⟩ e₁ e₂ a₁ a₂ he₁ he₂ ha₁ ha₂
    obtain rfl := Option.some.inj (h₁.symm.trans he₁)
    obtain rfl := Option.some.inj (h₂.symm.trans he₂)
    obtain rfl := Except.ok.inj (hok₁.symm.trans ha₁)
    obtain ⟨hi, rfl⟩ := List.getElem?_eq_some_iff.mp h₁
    obtain ⟨hj, rfl⟩ := List.getElem?_eq_some_iff.mp h₂
    exact List.pairwise_iff_getElem.mp hs.apart i j hi hj hij _ _ hok₁ ha₂ hsince
  induction h with
  | single h => exact hnext _ _ h
  | @tail j k _ h ih =>
    intro e₁ e₃ a₁ a₃ he₁ he₃ ha₁ ha₃
    obtain ⟨-, e₂, -, a₂, -, he₂, -, ha₂, -, -⟩ := id h
    obtain ⟨-, hgrow⟩ := ih e₁ e₂ a₁ a₂ he₁ he₂ ha₁ ha₂
    obtain ⟨hnews, hgrow'⟩ := hnext _ _ h e₂ e₃ a₂ a₃ he₂ he₃ ha₂ ha₃
    refine ⟨fun r hr => ?_, fun tx htx => hgrow' tx (hgrow tx htx)⟩
    by_contra hv
    have hsees := hgrow r.tx (by simpa using hv)
    rw [hnews r hr] at hsees
    cases hsees

/-- The next slice can go out. -/
theorem Inv.goes_on (hs : Inv who s) (hw : s.wait = some w) (hfree : w.flying = none)
    (scope : Scope) (focus : Option Uuid) (names : Names) (pending : ℕ) (counts : Counts) :
    (LongWait.step session_for binding_path who s (.slice scope focus names pending counts)).isSome = true := by
  have hidle : s.bus.phase = .idle := hs.idle (by simp [Sys.in_flight, hw, hfree])
  simp only [LongWait.step, hw, hfree, Option.isSome_none, Bool.false_eq_true, if_false]
  split
  · rfl
  · rw [Option.isSome_map]
    simp only [Waiting.step, hidle]
    split
    · split <;> rfl
    · rfl

/-- **A long wait is one wait**, in every run: whatever is committed, said and switched meanwhile, its
answer tells each change after the first slice's position once, up to its own position; its slices
go out over one connection; and it ends in time. -/
theorem long_wait_is_one_wait (h₀ : Starts s₀) (h : Run (Rel (step session_for binding_path who)) s₀ tr s) :
    LongWaitLaw session_for binding_path who tr s := by
  have hs : Inv who s := h.invariant' h₀.inv fun _ _ _ hs hstep => hs.step hstep
  refine ⟨fun e he a ha => hs.accounts he ha, fun e he a ha => hs.told he ha, ?_, ?_, ?_, ?_, ?_, ?_⟩
  · intro i j hchain e₁ e₂ a₁ a₂ he₁ he₂ ha₁ ha₂ r hr hr'
    obtain ⟨first, -, -, sl, -, htold⟩ := (hs.fine e₁ (List.mem_of_getElem? he₁)).told a₁ ha₁
    have hsees := (htold.found r hr).2.2
    rw [(hs.chain hchain e₁ e₂ a₁ a₂ he₁ he₂ ha₁ ha₂).1 r hr'] at hsees
    exact absurd hsees (by decide)
  · intro w hw n hn hlong hsmall
    obtain ⟨g, hg⟩ := hs.span hw
    rw [span_eq hn hlong hsmall] at hg
    refine ⟨_, hg, ?_, ?_⟩
    · rcases hw with hw | ⟨e, he, rfl⟩
      · exact (hs.going w hw).generation _ hg
      · exact (hs.fine e he).generation _ hg
    · rcases hw with hw | ⟨e, he, rfl⟩
      · exact (hs.going w hw).one
      · exact (hs.fine e he).one
  · exact fun e he why hwhy hfree b hb => (hs.fine e he).unsent hfree why hwhy b hb
  · exact fun w hw hfree scope focus names pending counts => hs.goes_on hw hfree scope focus names pending counts
  · intro d hlasts w hw n hn hlong hsmall k hk
    have hcounted : Counted d s := by
      refine h.invariant (C := Lasts d) ⟨fun w hw => ?_, fun e he => ?_⟩
        (fun _ _ _ hs hlasts hstep => hs.step hlasts hstep) hlasts
      · rw [h₀.wait] at hw
        exact absurd hw (by simp)
      · rw [h₀.ended] at he
        exact absurd he List.not_mem_nil
    obtain ⟨g, hg⟩ := hs.span hw
    rw [span_eq hn hlong hsmall] at hg
    have hbounded : Bounded d w ⟨g, w.began + (min n PROXY_MAX_WAIT_SECS).toNat * NANOS⟩ := by
      rcases hw with hw | ⟨e, he, rfl⟩
      · exact (hcounted.wait w hw _ hg).bounded
      · exact hcounted.ended e he _ hg
    have hfits : w.began + k * d + (SERVER_WAIT_SLICE_SECS + 1) * NANOS ≤
        w.began + (min n PROXY_MAX_WAIT_SECS).toNat * NANOS := hbounded k hk
    omega
  · intro hprompt e he n hn hlong hsmall
    have htimely : Timely s := by
      refine h.invariant (C := Prompt) ⟨fun w hw => ?_, fun e he => ?_⟩
        (fun _ _ _ hs hprompt hstep => hs.step hprompt hstep) hprompt
      · rw [h₀.wait] at hw
        exact absurd hw (by simp)
      · rw [h₀.ended] at he
        exact absurd he List.not_mem_nil
    obtain ⟨g, hg⟩ := (hs.fine e he).span
    rw [span_eq hn hlong hsmall] at hg
    have hend : e.now ≤ e.wait.began + (min n PROXY_MAX_WAIT_SECS).toNat * NANOS + 5 * NANOS :=
      htimely.ended e he _ hg
    rw [Nat.add_mul]
    omega

end Law

/-! ## Two runs -/

/-- The connection of a window. -/
def connection : Proxy.Connected :=
  ⟨⟨"bus", "acs_1", some "crew", none, none, none, none⟩, "ada", "crew", ⟨"bus", .agent "acs_1", "", none⟩, none,
    "thread"⟩

/-- A window that has it, over an empty log. -/
def idle : Sys :=
  ⟨⟨⟨⟨[], []⟩, fun _ => none⟩, ⟨⟨some connection, none, "", .Instance, none, false, none, none, none, 1, none, none⟩,
    none, []⟩⟩, Waiting.fresh, 0, none, []⟩

/-- The bus takes every connection for hers. -/
def as_ada (_ : Remote) : AuthCtx := Crew.ada

theorem idle_starts : Starts idle :=
  ⟨⟨⟨by decide, by decide⟩, by decide, by decide, rfl, fun r hr => absurd hr List.not_mem_nil,
    fun r hr => absurd hr List.not_mem_nil, fun p hp => absurd hp (by simp [idle, Waiting.fresh]), rfl, rfl⟩,
    rfl, rfl⟩

/-- The next slice goes out, with nothing unread. -/
def slice : Act := .slice .All none Waiting.nameless 0 ⟨0, 0, 0⟩

/-- A wait of a minute: the first slice times out, and the note that is written before the second one
goes out is in its answer. -/
def two_slices : List Act :=
  [.long_wait ⟨some 60, none, none⟩, slice, .pass (50 * NANOS), .bus .break_,
    .bus (.finish Waiting.nameless ⟨0, 0, 0⟩), .answered, .bus .begin_, .bus (.write 0 (.note 1 "global" "plan")),
    .bus (.commit 0), slice, .answered]

theorem two_slices_run : (exec (step id id as_ada) idle two_slices).isSome = true := by decide

theorem long_wait_is_one_wait_sliced :
    LongWaitLaw id id as_ada ((exec (step id id as_ada) idle two_slices).get two_slices_run).1
      ((exec (step id id as_ada) idle two_slices).get two_slices_run).2 :=
  long_wait_is_one_wait idle_starts (exec_get two_slices_run)

example : ((exec (step id id as_ada) idle two_slices).get two_slices_run).2.ended.map
    (fun e => (e.wait.slices.map Slice.began, e.result.toOption.map fun a => a.result.events.map WaitEvent.kind)) =
    [([0, 50 * NANOS], some ["note"])] := by decide

/-- A note is written; more than a day later the log gives it up; then the window waits from the
position before it. A message ends the wait at once. -/
def a_day_later : List Act :=
  [.bus .begin_, .bus (.write 0 (.note 1 "global" "plan")), .bus (.commit 0), .bus (.tick (RETENTION + 1)),
    .bus (.trim [0]), .long_wait ⟨some 60, some ⟨0, 0, []⟩, none⟩, .slice .All none Waiting.nameless 1 ⟨1, 1, 0⟩,
    .answered]

theorem a_day_later_run : (exec (step id id as_ada) idle a_day_later).isSome = true := by decide

/-- The run, and where it ends. -/
def gone : List (Trans Sys Act) × Sys := (exec (step id id as_ada) idle a_day_later).get a_day_later_run

/-- Something between the two positions is not in the answer. -/
def misses (ever : List LogRow) (first a : Answer) : Bool :=
  ever.any fun r => wanted 1 none r && !visible r.tx first.start && visible r.tx a.result.resume_from &&
    !(rows_of a.readings).contains r

/-- The answer is behind the note, and does not tell of it. -/
theorem old_changes_are_gone : Starts idle ∧ Run (Rel (step id id as_ada)) idle gone.1 gone.2 ∧
    ∃ e ∈ gone.2.ended, ∃ a first, e.result = .ok a ∧ e.wait.answers.head? = some first ∧
      e.wait.request.since = some first.start ∧ misses gone.2.bus.ever first a = true :=
  ⟨idle_starts, exec_get a_day_later_run, gone.2.ended.get ⟨0, by decide⟩, List.get_mem _ _, _, _, rfl, rfl,
    by decide, by decide⟩

end CrewSync.Slices
