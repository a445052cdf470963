/-
Reading on: that a message, once committed, reaches a window that keeps reading.

The cursor of a view is a measure. A reading that completes has returned the
message, or it has moved the cursor up by at least one (`round_progress`); and
once the cursor has reached the id of the message, the message is behind it,
where by the invariant nothing is that was not returned. So as many complete
readings as the message's id is large are enough, whatever else happens between
them.

The last section is the run in which the invariant fails: two writers overlap and
one reading falls between their commits.
-/
import CrewSync.Cursors

set_option autoImplicit false

namespace CrewSync.Incremental

open Schema Rows Messaging
open Runs Cursors Crew

variable {team_of : Uuid → Uuid} {s t : Sys} {a : Act} {v : View} {m : Message} {r : ℕ} {tr : List (Trans Sys Act)}

/-! ## Reading on -/

/-- The transition in which reading `r` of the view `v` begins. -/
def begins (v : View) (r : ℕ) (e : Trans Sys Act) : Prop :=
  ∃ auth scope all_sessions limit, e.act = .read_cursor r auth scope all_sessions limit ∧
    view_of auth scope all_sessions = v

/-- The transition in which reading `r` returns its page. -/
def completes (r : ℕ) (e : Trans Sys Act) : Prop :=
  ∃ now rd p, e.act = .advance r now ∧ e.post.readings r = some rd ∧ rd.phase = .returned p

/-- The trace holds `n` complete readings of the view `v`, each begun after the
one before it had returned. -/
inductive Rounds (v : View) : ℕ → List (Trans Sys Act) → Prop
  | zero (tr : List (Trans Sys Act)) : Rounds v 0 tr
  | succ {n r : ℕ} {tr₁ tr₂ tr₃ : List (Trans Sys Act)} {b c : Trans Sys Act} :
      begins v r b → completes r c → Rounds v n tr₃ →
      Rounds v (n + 1) (tr₁ ++ b :: (tr₂ ++ c :: tr₃))

/-- What a reading begun at cursor `c₀` carries while it is open. -/
def Underway (v : View) (m : Message) (c₀ r : ℕ) (s : Sys) : Prop :=
  ∃ rd, s.readings r = some rd ∧ rd.view = v ∧ 0 < rd.limit ∧
    match rd.phase with
    | .selected since => c₀ ≤ since
    | .paged since p => c₀ ≤ since ∧ (∀ x ∈ p, since < x.id) ∧ (since < m.id → p ≠ [])
    | _ => True

theorem Underway.step {c₀ : ℕ} (h : Underway v m c₀ r s)
    (hm : m ∈ s.db.messages) (hsees : v.sees m = true) (hstep : step team_of s a = some t) :
    Underway v m c₀ r t := by
  obtain ⟨rd, hrd, rfl, hlim, hph⟩ := h
  rcases reading_step hstep hrd with h | ⟨since, hsel, h⟩ | ⟨ph, h, hover⟩
  · exact ⟨rd, h, rfl, hlim, hph⟩
  · rw [hsel] at hph
    refine ⟨_, h, rfl, hlim, hph, fun x hx => (mem_page hx).2.2, fun hlt hnil => ?_⟩
    rcases mem_page_or_full rd.limit hm hsees hlt with hp | ⟨hlen, -⟩
    · rw [hnil] at hp
      exact absurd hp List.not_mem_nil
    · rw [hnil] at hlen
      simp only [List.length_nil] at hlen
      omega
  · refine ⟨_, h, rfl, hlim, ?_⟩
    rcases hover with rfl | ⟨p, rfl⟩ <;> trivial

/-- **One reading more.** A reading that completes has returned the message, or
left the cursor further than it found it. -/
theorem round_progress {b c : Trans Sys Act} (hb : Inv team_of b.pre) (hteam : v.team_id = team_of v.agent_id)
    (hm : m ∈ b.pre.db.messages) (hsees : v.sees m = true) (hbeg : begins v r b)
    (hrel_b : step team_of b.pre b.act = some b.post) (hrun : Run (Rel (step team_of)) b.post tr c.pre)
    (hrel_c : step team_of c.pre c.act = some c.post) (hcom : completes r c)
    (hC : ∀ e ∈ b :: tr, page_clear e.pre e.act = true) :
    Returned c.post v m ∨ cursor_of v b.pre.db < cursor_of v c.post.db := by
  obtain ⟨auth, scope, all_sessions, limit, hact, rfl⟩ := hbeg
  have hInv_b := hb.step (hC b List.mem_cons_self) hrel_b
  have hm_b := (step_frame hrel_b).1 m hm
  have hstart : Underway (view_of auth scope all_sessions) m
      (cursor_of (view_of auth scope all_sessions) b.pre.db) r b.post := by
    rw [hact] at hrel_b
    simp only [Cursors.step] at hrel_b
    split at hrel_b
    · exact absurd hrel_b (by simp)
    · rw [← Option.some.inj hrel_b]
      exact ⟨_, Function.update_self _ _ _, rfl, clamp_limit_pos limit, Nat.le_refl _⟩
  obtain ⟨hInv_c, hm_c, rd, hrd, hview, -, hph⟩ :=
    hrun.invariant (I := fun s => Inv team_of s ∧ m ∈ s.db.messages ∧
      Underway (view_of auth scope all_sessions) m
        (cursor_of (view_of auth scope all_sessions) b.pre.db) r s)
      (C := fun s a => page_clear s a = true) ⟨hInv_b, hm_b, hstart⟩
      (fun _ _ _ h hc hr => ⟨h.1.step hc hr, (step_frame hr).1 m h.2.1, h.2.2.step h.2.1 hsees hr⟩)
      fun e he => hC e (List.mem_cons_of_mem _ he)
  obtain ⟨now, rd', p', hadv, hrd', hret⟩ := hcom
  have hpost := hrel_c
  rw [hadv] at hpost
  obtain ⟨rd'', since, p, hrd'', hpaged, hfail | ⟨-, -, -, -, -, hcur⟩⟩ := advance_cases hpost
  · rw [hfail] at hrd'
    simp only [Sys.phase, Function.update_self, Option.some.injEq] at hrd'
    subst hrd'
    cases hret
  rw [hrd, Option.some.injEq] at hrd''
  subst hrd''
  obtain ⟨-, hok⟩ := hInv_c.readings r rd hrd
  unfold PhaseOk at hok
  rw [hpaged] at hph hok
  obtain ⟨hc₀, hpast, hne⟩ := hph
  by_cases hlt : since < m.id
  · -- the page is not empty, so its end is past the cursor it was read from
    obtain ⟨x, hx, hxid⟩ := new_cursor_mem since (hne hlt)
    have hgt : since < new_cursor since p := by rw [← hxid]; exact hpast x hx
    have := hcur (view_of auth scope all_sessions)
    rw [if_pos ⟨hgt, by rw [hview], by rw [hview]⟩] at this
    exact Or.inr (by omega)
  · -- already behind the cursor
    rw [hview] at hok
    refine Or.inl (returned_step hrel_c (hInv_c.behind _ m hteam (Or.inl hm_c) hsees ?_))
    have := hok.1
    omega

/-- After `n` readings in a row the message was returned or the cursor stands at
`n` at least. -/
theorem rounds_progress (hteam : v.team_id = team_of v.agent_id)
    (hsees : v.sees m = true) {n : ℕ} (hr : Rounds v n tr) :
    ∀ {s t : Sys}, Inv team_of s → m ∈ s.db.messages → Run (Rel (step team_of)) s tr t →
      (∀ e ∈ tr, page_clear e.pre e.act = true) →
      Returned t v m ∨ cursor_of v s.db + n ≤ cursor_of v t.db := by
  -- the readings in order; every part of the run between them keeps the invariant
  induction hr with
  | zero tr =>
    intro s t _ _ hrun _
    exact Or.inr (hrun.invariant' (I := fun t => cursor_of v s.db + 0 ≤ cursor_of v t.db)
      (Nat.le_refl _) fun _ _ _ h hr => h.trans (cursor_of_le_step hr v))
  | @succ n r tr₁ tr₂ tr₃ b c hbeg hcom _ ih =>
    intro s t hs hm hrun hC
    have hkeep : ∀ {tr s t}, Inv team_of s ∧ m ∈ s.db.messages →
        Run (Rel (step team_of)) s tr t → (∀ e ∈ tr, page_clear e.pre e.act = true) →
        Inv team_of t ∧ m ∈ t.db.messages := fun h₀ h hC =>
      h.invariant (I := fun s => Inv team_of s ∧ m ∈ s.db.messages)
        (C := fun s a => page_clear s a = true) h₀
        (fun _ _ _ h hc hr => ⟨h.1.step hc hr, (step_frame hr).1 m h.2⟩) hC
    have hmono : ∀ {tr s t}, Run (Rel (step team_of)) s tr t →
        cursor_of v s.db ≤ cursor_of v t.db := fun h =>
      h.invariant' (I := fun t => _ ≤ cursor_of v t.db) (Nat.le_refl _)
        fun _ _ _ h hr => h.trans (cursor_of_le_step hr v)
    have hret : ∀ {tr s t}, Run (Rel (step team_of)) s tr t → Returned s v m → Returned t v m :=
      fun h hs => h.invariant' (I := fun t => Returned t v m) hs fun _ _ _ h hr => returned_step hr h
    obtain ⟨hrun₁, hrel_b, hrest⟩ := hrun.split
    obtain ⟨hrun₂, hrel_c, hrun₃⟩ := hrest.split
    obtain ⟨hInv_b, hm_b⟩ := hkeep ⟨hs, hm⟩ hrun₁ fun e he => hC e (by simp [he])
    have hprogress := round_progress hInv_b hteam hm_b hsees hbeg hrel_b hrun₂ hrel_c hcom
      fun e he => hC e (by rcases List.mem_cons.mp he with rfl | he <;> simp_all)
    rcases hprogress with hdone | hlt
    · exact Or.inl (hret hrun₃ hdone)
    have hInv_c := hkeep ⟨hInv_b, hm_b⟩ ((Run.single hrel_b).append hrun₂)
      fun e he => hC e (by simp at he; rcases he with rfl | he <;> simp_all)
    have hInv_d : Inv team_of c.post ∧ m ∈ c.post.db.messages :=
      ⟨hInv_c.1.step (hC c (by simp)) hrel_c, (step_frame hrel_c).1 m hInv_c.2⟩
    rcases ih hInv_d.1 hInv_d.2 hrun₃ fun e he => hC e (by simp [he]) with hdone | hle
    · exact Or.inl hdone
    · have := hmono hrun₁
      exact Or.inr (by omega)

/-! ## The law -/

/-- The start: any messages under distinct ids the sequence has passed, and no
cursor yet. -/
structure Start (db : Db) (next_id : ℕ) : Prop where
  pos : 0 < next_id
  ids : ∀ m ∈ db.messages, 0 < m.id ∧ m.id < next_id
  keyed : Keyed Message.id db.messages
  no_cursor : db.read_cursors = []

/-- The state before anything is read or posted. -/
def Sys.start (db : Db) (next_id : ℕ) : Sys :=
  { db := db, next_id := next_id, posting := [], readings := fun _ => none, returned := [] }

theorem Start.inv {db : Db} {next_id : ℕ} (h : Start db next_id) :
    Inv team_of (Sys.start db next_id) := by
  have hcur : ∀ v, cursor_of v db = 0 := fun v => by simp [cursor_of, h.no_cursor, one]
  have hpend : ∀ m, Pending (Sys.start db next_id) m → m ∈ db.messages := by
    rintro m (hm | hm)
    · exact hm
    · exact absurd hm (by simp [Sys.start])
  refine ⟨fun m hm => (h.ids m (hpend m hm)).2, ?_, fun v => ?_, fun v m _ hm _ hle => ?_, ?_⟩
  · simpa [Sys.start] using h.keyed
  · simpa [Sys.start, hcur v] using h.pos
  · have hpos := (h.ids m (hpend m hm)).1
    simp only [Sys.start, hcur v] at hle
    omega
  · intro r rd hrd
    exact absurd hrd (by simp [Sys.start])

/-- What incremental reading promises of a run `tr` from `s₀` to `s`. -/
structure NothingSkipped (team_of : Uuid → Uuid) (s₀ : Sys) (tr : List (Trans Sys Act))
    (s : Sys) : Prop where
  /-- No cursor is past a message of its view that was not returned and is, or can
  still become, visible. -/
  cursor : ∀ v m, v.team_id = team_of v.agent_id → Pending s m → v.sees m = true →
    m.id ≤ cursor_of v s.db → Returned s v m
  /-- A committed message is returned once its window has read on. -/
  delivery : ∀ v m tr₁ tr₂ t, v.team_id = team_of v.agent_id → tr = tr₁ ++ tr₂ →
    Run (Rel (step team_of)) s₀ tr₁ t → Run (Rel (step team_of)) t tr₂ s →
    m ∈ t.db.messages → v.sees m = true → Rounds v m.id tr₂ → Returned s v m

/-- **Incremental reading loses no message**, in every run that takes no page over
the head of an uncommitted message. -/
theorem nothing_skipped {db : Db} {next_id : ℕ} (h₀ : Start db next_id)
    {tr : List (Trans Sys Act)} {s : Sys}
    (h : Run (Rel (step team_of)) (Sys.start db next_id) tr s)
    (hC : ∀ e ∈ tr, page_clear e.pre e.act = true) :
    NothingSkipped team_of (Sys.start db next_id) tr s := by
  have hinv : ∀ {tr s}, Run (Rel (step team_of)) (Sys.start db next_id) tr s →
      (∀ e ∈ tr, page_clear e.pre e.act = true) → Inv team_of s := fun h hC =>
    h.invariant (C := fun s a => page_clear s a = true) h₀.inv
      (fun _ _ _ h hc hr => h.step hc hr) hC
  refine ⟨(hinv h hC).behind, ?_⟩
  rintro v m tr₁ tr₂ t hteam rfl hrun₁ hrun₂ hm hsees hrounds
  have ht := hinv hrun₁ fun e he => hC e (List.mem_append_left _ he)
  rcases rounds_progress hteam hsees hrounds ht hm hrun₂
    fun e he => hC e (List.mem_append_right _ he) with hdone | hle
  · exact hdone
  · have hm' : m ∈ s.db.messages :=
      hrun₂.invariant' (I := fun s => m ∈ s.db.messages) hm fun _ _ _ h hr => (step_frame hr).1 m h
    exact (hinv h hC).behind v m hteam (Or.inl hm') hsees (by omega)

/-! ## A run -/

/-- Agent 2 reading everything of team 1. -/
def reader : View := view_of bob .All false

/-- Agent 3 posts to a channel and agent 2 reads. -/
def post_and_read : List Act :=
  [.insert (caller 3 "carol" "") (.channel 7) "first" 0, .commit 1, .read_cursor 1 bob .All false 50,
    .read_page 1, .advance 1 0]

theorem start_empty : Start {} 1 := ⟨by decide, by decide, by decide, rfl⟩

theorem post_and_read_run : (exec (step fun _ => 1) (Sys.start {} 1) post_and_read).isSome = true := by decide

theorem nothing_skipped_post_and_read :
    NothingSkipped (fun _ => 1) (Sys.start {} 1)
      ((exec (step fun _ => 1) (Sys.start {} 1) post_and_read).get post_and_read_run).1
      ((exec (step fun _ => 1) (Sys.start {} 1) post_and_read).get post_and_read_run).2 :=
  nothing_skipped start_empty (exec_get post_and_read_run) (by decide)

/-! ## Two writers and a reader -/

/-- A message that is behind its view's cursor, was not returned, and is on no
page a reading still holds. -/
structure Lost (v : View) (m : Message) (s : Sys) : Prop where
  behind : m.id ≤ cursor_of v s.db
  unreturned : ¬ Returned s v m
  readings : ∀ r rd, s.readings r = some rd → rd.view.agent_id = v.agent_id →
    rd.view.cursor_key = v.cursor_key →
    match rd.phase with
    | .selected since => m.id ≤ since
    | .paged _ p => ∀ x ∈ p, x.id ≠ m.id
    | _ => True

theorem cursor_of_congr {w : View} (hagent : v.agent_id = w.agent_id)
    (hkey : v.cursor_key = w.cursor_key) (db : Db) : cursor_of v db = cursor_of w db := by
  have howns : v.owns = w.owns := by
    funext x
    simp only [View.owns, hagent, hkey]
  simp only [cursor_of, howns]

/-- Lost is lost: no step of any kind hands the message out. -/
theorem Lost.step (h : Lost v m s) (hstep : step team_of s a = some t) : Lost v m t := by
  refine ⟨h.behind.trans (cursor_of_le_step hstep v), fun hret => ?_, fun r rd' hrd' ha hk => ?_⟩
  · obtain ⟨-, ⟨hsame, -⟩ | ⟨r, now, rfl⟩⟩ := step_frame hstep
    · unfold Returned at hret
      rw [hsame] at hret
      exact h.unreturned hret
    · obtain ⟨rd, since, p, hrd, hph, rfl | ⟨-, -, -, hgrow, -⟩⟩ := advance_cases hstep
      · exact h.unreturned hret
      · unfold Returned at hret
        rw [hgrow] at hret
        rcases List.mem_append.mp hret with hold | hnew
        · exact h.unreturned hold
        · obtain ⟨x, hx, heq⟩ := List.mem_map.mp hnew
          simp only [Prod.mk.injEq] at heq
          have := h.readings r rd hrd heq.1 heq.2.1
          rw [hph] at this
          exact this x hx heq.2.2
  · cases hrd : s.readings r with
    | some rd =>
      rcases reading_step hstep hrd with hsame | ⟨since, hsel, hpaged⟩ | ⟨ph, hover, hph⟩
      · rw [hsame, Option.some.injEq] at hrd'
        subst hrd'
        exact h.readings r rd hrd ha hk
      · rw [hpaged, Option.some.injEq] at hrd'
        subst hrd'
        have hle := h.readings r rd hrd ha hk
        rw [hsel] at hle
        intro x hx heq
        have := (mem_page hx).2.2
        omega
      · rw [hover, Option.some.injEq] at hrd'
        subst hrd'
        rcases hph with rfl | ⟨p, rfl⟩ <;> trivial
    | none =>
      -- a reading that begins now reads the cursor the message is behind
      obtain ⟨-, hph⟩ := reading_begins hstep hrd hrd'
      have hle := h.behind
      rw [← cursor_of_congr ha hk s.db] at hle
      rw [hph]
      exact hle

/-- The readings of a run are the ones it began. -/
theorem begun_of_reading {s₀ : Sys} (hrun : Run (Rel (step team_of)) s₀ tr s) (h₀ : s₀.readings r = none)
    (h : s.readings r ≠ none) : ∃ e ∈ tr, begun e.act = some r := by
  induction hrun with
  | nil => exact absurd h₀ h
  | @snoc tr s t a _ hr ih =>
    by_cases hs : s.readings r = none
    · obtain ⟨rd, hrd⟩ := Option.ne_none_iff_exists'.mp h
      exact ⟨⟨s, a, t⟩, by simp, (reading_begins hr hs hrd).1⟩
    · obtain ⟨e, he, hb⟩ := ih hs
      exact ⟨e, List.mem_append_left _ he, hb⟩

/-- Agent 3 and agent 4 insert one after the other, and commit the other way
round; agent 2 reads in between. -/
def overlap : List Act :=
  [.insert (caller 3 "carol" "") (.channel 7) "first" 0, .insert (caller 4 "dan" "") (.channel 7) "second" 0,
    .commit 2, .read_cursor 1 bob .All false 50, .read_page 1, .advance 1 0, .commit 1]

theorem overlap_run : (exec (step fun _ => 1) (Sys.start {} 1) overlap).isSome = true := by decide

/-- The trace of the overlap, and where it ends. -/
def overlap_end : List (Trans Sys Act) × Sys :=
  (exec (step fun _ => 1) (Sys.start {} 1) overlap).get overlap_run

/-- The message of the writer that committed last. -/
def first : Message := message_row (caller 3 "carol" "") (.channel 7) "first" 1

theorem overlap_lost : Lost reader first overlap_end.2 := by
  refine ⟨by decide, by unfold Returned; decide, fun r rd hrd _ _ => ?_⟩
  have hbegun : ∀ e ∈ overlap_end.1, begun e.act = none ∨ begun e.act = some 1 := by decide
  have hover : (overlap_end.2.readings 1).all
      (fun rd => match rd.phase with | .returned _ => true | _ => false) = true := by decide
  have hsome : overlap_end.2.readings r ≠ none := by
    rw [hrd]
    simp
  obtain ⟨e, he, hb⟩ := begun_of_reading (exec_get overlap_run) rfl hsome
  obtain rfl : r = 1 := by
    rcases hbegun e he with h | h
    · exact absurd (hb.symm.trans h) (by simp)
    · exact Option.some.inj (hb.symm.trans h)
  rw [hrd] at hover
  simp only [Option.all_some] at hover
  split at hover
  · rename_i p hph
    rw [hph]
    trivial
  · cases hover

/-- The first message is committed, in the scope, behind the cursor, and returned
by no reading however long the window reads on. -/
theorem overlap_loses :
    Run (Rel (step fun _ => 1)) (Sys.start {} 1) overlap_end.1 overlap_end.2 ∧
      first ∈ overlap_end.2.db.messages ∧ reader.sees first = true ∧
      first.id ≤ cursor_of reader overlap_end.2.db ∧
      ∀ tr s, Run (Rel (step fun _ => 1)) overlap_end.2 tr s → ¬ Returned s reader first :=
  ⟨exec_get overlap_run, by decide, by decide, by decide, fun _ _ hrun =>
    (hrun.invariant' (I := Lost reader first) overlap_lost fun _ _ _ h hr => h.step hr).unreturned⟩

end CrewSync.Incremental
