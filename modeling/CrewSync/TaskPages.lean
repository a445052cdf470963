/-
Following `next_cursor` through `list_tasks`, while time passes.

Each page is a statement of its own, at its own time and on the board as it then is. A
task's place in the list begins with its effective status, so the clock alone can move
it: when its lease lapses it goes from the claimed tasks to the open ones. That is a move
towards the end of the list, and it is the only one the clock makes (`place_of_mono`), so
a cursor that was before a task stays before it. Nothing else could pass over a task that
nobody writes to, however the board changes around it; what a move may do is show the
task twice, once under each status.

While no lease lapses and no task changes, the list every page is cut from is one list,
and the pages show it from end to end.
-/
import CrewSync.TaskViews

set_option autoImplicit false

namespace CrewSync.TaskPages

open Schema Rows Tasks TaskLists

/-- When a page is read, and the board it finds: the list is one statement, and the
counts beside it another. -/
structure Moment where
  now : ℕ
  now' : ℕ
  db : TaskDb
  db' : TaskDb

/-- The page read at a moment. -/
def page_at (crates : Crates) (auth : AuthCtx) (query : TaskPageQuery) (m : Moment) (cursor : Option String) :
    Option (List TaskEntry × Option String) :=
  page crates m.now m.now' auth query m.db m.db' cursor

/-- `UNIQUE (team_id, key)`. -/
def Unique (m : Moment) : Prop := Keyed (fun t : Task => (t.team_id, t.key)) m.db.tasks

/-- Between the two moments no task of the caller's team changes, and none of their
leases lapses. -/
structure Still (auth : AuthCtx) (m m' : Moment) : Prop where
  tasks : ∀ t : Task, t.team_id = auth.team_id → (t ∈ m'.db.tasks ↔ t ∈ m.db.tasks)
  leases : ∀ t ∈ m.db.tasks, t.team_id = auth.team_id → ∀ x, t.lease_expires_at = some x →
    (x ≤ m'.now ↔ x ≤ m.now)

section Places

variable {auth : AuthCtx} {filter : PageFilter} {t : Task} {now now' : ℕ}

variable (h : ∀ x, t.lease_expires_at = some x → (x ≤ now' ↔ x ≤ now))
include h

/-- A lease that stands at both times, or at neither. -/
theorem effective_status_congr :
    effective_status now' t = effective_status now t := by
  have hlapsed : (t.lease_expires_at.any fun x => decide (x ≤ now'))
      = t.lease_expires_at.any fun x => decide (x ≤ now) := by
    cases hx : t.lease_expires_at with
    | none => rfl
    | some x =>
      show decide (x ≤ now') = decide (x ≤ now)
      exact decide_eq_decide.mpr (h x hx)
  unfold effective_status
  rw [hlapsed]

theorem is_mine_congr :
    is_mine now' auth t = is_mine now auth t := by
  have hruns : (t.lease_expires_at.all fun x => decide (now' < x))
      = t.lease_expires_at.all fun x => decide (now < x) := by
    cases hx : t.lease_expires_at with
    | none => rfl
    | some x =>
      have hiff := h x hx
      show decide (now' < x) = decide (now < x)
      rw [decide_eq_decide]
      omega
  unfold is_mine
  rw [hruns]

theorem place_of_congr :
    place_of now' t = place_of now t := by
  unfold place_of
  rw [effective_status_congr h]

theorem matching_congr :
    matching now' auth filter t = matching now auth filter t := by
  unfold matching of_status
  rw [effective_status_congr h, is_mine_congr h]

omit h

theorem matching_team (h : matching now auth filter t = true) : t.team_id = auth.team_id := by
  unfold matching at h
  simp only [Bool.and_eq_true, beq_iff_eq] at h
  exact h.1.1.1

/-- The clock moves a task towards the end of the list, if it moves it at all. -/
theorem place_of_mono (h : now ≤ now') : place_of now t ≤ place_of now' t := by
  have hrank : status_rank (effective_status now t) ≤ status_rank (effective_status now' t) := by
    by_cases hclaimed : effective_status now' t = .claimed
    · -- Claimed still: it was claimed before.
      have hbefore : effective_status now t = .claimed := by
        rw [effective_claimed] at hclaimed ⊢
        exact ⟨hclaimed.1, fun x hx => lt_of_le_of_lt h (hclaimed.2 x hx)⟩
      rw [hbefore, hclaimed]
    · by_cases hopen : effective_status now t = .open ∨ effective_status now t = .claimed
      · have hle : status_rank (effective_status now t) ≤ 1 := by
          rcases hopen with hopen | hopen
          · rw [hopen]
            exact le_refl _
          · rw [hopen]
            decide
        have hge : 1 ≤ status_rank (effective_status now' t) := by
          rcases hs : effective_status now' t with _ | _ | _ | _
          · decide
          · exact absurd hs hclaimed
          · decide
          · decide
        exact le_trans hle hge
      · -- Done or cancelled: no lease speaks for it.
        have hsame : ∀ n, effective_status n t = t.status := by
          intro n
          unfold effective_status
          rw [if_neg]
          intro hc
          rw [Bool.and_eq_true, beq_iff_eq] at hc
          apply hopen
          by_cases hlapsed : (t.lease_expires_at.any fun x => decide (x ≤ now)) = true
          · left
            unfold effective_status
            rw [if_pos (by simp [hc.1, hlapsed])]
          · right
            unfold effective_status
            rw [if_neg (by simp [hlapsed]), hc.1]
        rw [hsame, hsame]
  unfold place_of place
  rw [Prod.Lex.toLex_le_toLex]
  rcases lt_or_eq_of_le hrank with hlt | heq
  · exact Or.inl hlt
  · exact Or.inr ⟨heq, le_refl _⟩

/-- With every status asked for, only `mine_only` lets the clock decide. -/
theorem matching_later (hany : filter.status = none) (h : matching now auth filter t = true)
    (hmine : filter.mine_only = true → is_mine now' auth t = true) :
    matching now' auth filter t = true := by
  unfold matching of_status at h ⊢
  rw [hany] at h ⊢
  simp only [Bool.and_eq_true, Bool.or_eq_true] at h ⊢
  refine ⟨⟨⟨h.1.1.1, rfl⟩, ?_⟩, h.2⟩
  by_cases hm : filter.mine_only = true
  · exact Or.inr (hmine hm)
  · exact Or.inl (by simpa using hm)

end Places

section Pages

variable {crates : Crates} {auth : AuthCtx} {query : TaskPageQuery} {filter : PageFilter} {m m' : Moment}

/-- The list a page is cut from does not change between two moments without a change. -/
theorem page_rows_still (hm : Unique m) (hm' : Unique m') (hstill : Still auth m m') (after : Option Place) :
    page_rows m'.now auth filter after m'.db = page_rows m.now auth filter after m.db := by
  have hlease : ∀ t ∈ m'.db.tasks, t.team_id = auth.team_id →
      ∀ x, t.lease_expires_at = some x → (x ≤ m'.now ↔ x ≤ m.now) := fun t ht hteam =>
    hstill.leases t ((hstill.tasks t hteam).mp ht) hteam
  have hmem : ∀ t, t ∈ page_rows m'.now auth filter after m'.db ↔ t ∈ page_rows m.now auth filter after m.db := by
    intro t
    rw [mem_page_rows, mem_page_rows]
    by_cases hteam : t.team_id = auth.team_id
    · constructor
      · rintro ⟨ht, hmatch, hafter⟩
        have hsame := hlease t ht hteam
        rw [matching_congr hsame] at hmatch
        rw [place_of_congr hsame] at hafter
        exact ⟨(hstill.tasks t hteam).mp ht, hmatch, hafter⟩
      · rintro ⟨ht, hmatch, hafter⟩
        have hsame := hstill.leases t ht hteam
        rw [← matching_congr hsame] at hmatch
        rw [← place_of_congr hsame] at hafter
        exact ⟨(hstill.tasks t hteam).mpr ht, hmatch, hafter⟩
    · constructor
      · rintro ⟨-, hmatch, -⟩
        exact absurd (matching_team hmatch) hteam
      · rintro ⟨-, hmatch, -⟩
        exact absurd (matching_team hmatch) hteam
  have hsorted : (page_rows m.now auth filter after m.db).Pairwise
      fun a b => place_of m.now a < place_of m.now b := Paging.pairwise_rest (keyed_place hm) after
  have hsorted' : (page_rows m'.now auth filter after m'.db).Pairwise
      fun a b => place_of m'.now a < place_of m'.now b := Paging.pairwise_rest (keyed_place hm') after
  have hplace : ∀ t ∈ page_rows m'.now auth filter after m'.db, place_of m'.now t = place_of m.now t := by
    intro t ht
    have ht := mem_page_rows.mp ht
    exact place_of_congr (hlease t ht.1 (matching_team ht.2.1))
  have hmoved : (page_rows m'.now auth filter after m'.db).Pairwise
      fun a b => place_of m.now a < place_of m.now b := by
    refine List.Pairwise.imp_of_mem (fun {a b} ha hb hlt => ?_) hsorted'
    rw [← hplace a ha, ← hplace b hb]
    exact hlt
  exact Paging.eq_of_mem hmoved hsorted hmem

/-- What the list asked for at `m` is: each task that matches, in the order of the list. -/
structure Listed (auth : AuthCtx) (filter : PageFilter) (m : Moment) (ts : List Task) : Prop where
  each : ts.Perm (m.db.tasks.filter (matching m.now auth filter))
  order : ts.Pairwise fun a b => place_of m.now a < place_of m.now b

theorem listed_page_rows (hm : Unique m) : Listed auth filter m (page_rows m.now auth filter none m.db) where
  each := by
    rw [page_rows_eq]
    unfold Paging.rest
    have hall : (m.db.tasks.filter (matching m.now auth filter)).filter
        (fun r => (none : Option Place).all fun k => decide (k < place_of m.now r))
          = m.db.tasks.filter (matching m.now auth filter) :=
      List.filter_eq_self.mpr fun _ _ => rfl
    rw [hall]
    exact List.perm_insertionSort _ _
  order := Paging.pairwise_rest (keyed_place hm) none

/-- **Paging skips nothing.** Followed from the first page, at whatever moments, the
pages end and show each matching task once and in order, as long as no task changes and
no lease lapses. With every status asked for, leases may lapse and other tasks may
change: a task nobody writes to is shown all the same, unless only the window's own are
asked for and it is one no more. -/
theorem paging_skips_nothing (crates : Crates) (auth : AuthCtx) (query : TaskPageQuery) (filter : PageFilter)
    (hfilter : page_filter query = .ok filter) :
    (∀ moments : ℕ → Moment, (∀ i, crates.Lawful (moments i).db) → (∀ i, Unique (moments i)) →
      (∀ i, Still auth (moments 0) (moments i)) →
      ∃ ts, Listed auth filter (moments 0) ts ∧
        ∃ n l, List.Forall₂ (fun e t => e.2 = task_entry e.1.now e.1.db t) l ts ∧
          ∀ n' l', Paging.Walked (page_at crates auth query) ((List.range n').map moments) none l' ↔
            n' = n ∧ l' = l) ∧
    (filter.status = none → ∀ (ms : List Moment) (l : List (Moment × TaskEntry)) (t : Task),
      Paging.Walked (page_at crates auth query) ms none l → (∀ m ∈ ms, crates.Lawful m.db) → (∀ m ∈ ms, Unique m) →
      ms.Pairwise (fun m m' => m.now ≤ m'.now) → (∀ m ∈ ms, t ∈ m.db.tasks) →
      (∀ m, ms.head? = some m → matching m.now auth filter t = true) →
      (filter.mine_only = true → ∀ m ∈ ms, is_mine m.now auth t = true) →
      ∃ m ∈ ms, (m, task_entry m.now m.db t) ∈ l) := by
  have hpages : ∀ m : Moment, crates.Lawful m.db → Paging.Pages (place_of m.now) (task_entry m.now m.db)
      (page_size query.limit) (m.db.tasks.filter (matching m.now auth filter))
      (fun c k => page_start crates c (page_fingerprint crates auth filter) = .ok k)
      (page_at crates auth query m) := fun m hc => task_pages hc hfilter
  refine ⟨fun moments hc hunique hstill => ?_, fun hany ms l t hwalked hc hunique horder hkept hfirst hmine => ?_⟩
  · refine ⟨_, listed_page_rows (hunique 0), ?_⟩
    have hplaces : ∀ i, ∀ t ∈ (moments 0).db.tasks.filter (matching (moments 0).now auth filter),
        place_of (moments i).now t = place_of (moments 0).now t := by
      intro i t ht
      have ht := List.mem_filter.mp ht
      exact place_of_congr ((hstill i).leases t ht.1 (matching_team ht.2))
    have hrows : ∀ i k, page_rows (moments i).now auth filter k (moments i).db
        = page_rows (moments 0).now auth filter k (moments 0).db :=
      fun i k => page_rows_still (hunique 0) (hunique i) (hstill i) k
    obtain ⟨n, l, hwalked, hshown⟩ := Paging.walked_rest (fun m : Moment => place_of m.now)
      (fun m : Moment => task_entry m.now m.db)
      (fun m : Moment => m.db.tasks.filter (matching m.now auth filter)) (keyed_place (hunique 0))
      (page_size_pos query.limit) (fun i => hpages (moments i) (hc i)) hrows hplaces _ 0 none none rfl le_rfl
    refine ⟨n, l, hshown, fun n' l' => ?_⟩
    rw [List.range_eq_range']
    constructor
    · intro h'
      have hsame := h'.unique hwalked
      exact ⟨hsame.1, hsame.2⟩
    · rintro ⟨rfl, rfl⟩
      exact hwalked
  · -- The task matches at every page, and only ever moves back.
    have hmatch : ∀ m ∈ ms, matching m.now auth filter t = true := by
      intro m hm
      cases ms with
      | nil => exact absurd hm List.not_mem_nil
      | cons m₀ ms => exact matching_later hany (hfirst m₀ rfl) fun hmine_only => hmine hmine_only m hm
    exact hwalked.shows (fun m : Moment => place_of m.now) (fun m : Moment => task_entry m.now m.db)
      (fun m : Moment => m.db.tasks.filter (matching m.now auth filter)) (page_size_pos query.limit) rfl
      (fun m hm => keyed_place (hunique m hm)) (fun m hm => hpages m (hc m hm))
      (fun m hm => List.mem_filter.mpr ⟨hkept m hm, hmatch m hm⟩) horder (fun m m' => place_of_mono)
      (fun _ _ _ hk => absurd hk (by simp))

theorem Still.refl (auth : AuthCtx) (m : Moment) : Still auth m m :=
  ⟨fun _ _ => Iff.rfl, fun _ _ _ _ _ => Iff.rfl⟩

end Pages

/-! ## Two claims, one of which lapses -/

/-- Ada claims two tasks, one for half a minute and one for a day. -/
def claims : List TaskClaims.Act :=
  [.create_task 0 (TaskClaims.worker 1 "ada") ⟨"build", "Build", none, []⟩,
    .claim_task 0 0 (TaskClaims.worker 1 "ada") "build" (some 30), .tick (secs 1),
    .create_task (secs 1) (TaskClaims.worker 1 "ada") ⟨"ship", "Ship", none, []⟩,
    .claim_task (secs 1) 0 (TaskClaims.worker 1 "ada") "ship" (some 86400)]

theorem claims_run : (Runs.exec TaskClaims.step ⟨⟨TaskClaims.board, []⟩, 0⟩ claims).isSome = true := by decide

/-- The board then. -/
def board : TaskDb := ((Runs.exec TaskClaims.step ⟨⟨TaskClaims.board, []⟩, 0⟩ claims).get claims_run).2.db

theorem board_tasks : board.tasks ≠ [] := by decide

/-- The short claim and the long one. -/
def build : Task := board.tasks.head board_tasks

def ship : Task := board.tasks.getLast board_tasks

/-- The board read at `now`. -/
def board_at (now : ℕ) : Moment := ⟨now, now, board, board⟩

theorem board_at_unique (now : ℕ) : Unique (board_at now) := by
  show Keyed (fun t : Task => (t.team_id, t.key)) board.tasks
  decide

/-- Tasks of any status, one to a page. -/
def one_each (mine_only : Bool) : TaskPageQuery := ⟨some "any", mine_only, 1, none, none⟩

/-- Where the second page starts. -/
def after_ship (mine_only : Bool) : String :=
  TaskViews.strokes.encode (cursor_of (secs 1) board
    (page_fingerprint TaskViews.strokes (TaskClaims.worker 1 "ada") ⟨none, mine_only, none⟩) ship)

/-- The first page shows the claim made last, and there is more. -/
theorem first_page (mine_only : Bool) : page_at TaskViews.strokes (TaskClaims.worker 1 "ada") (one_each mine_only)
    (board_at (secs 1)) none = some ([task_entry (secs 1) board ship], some (after_ship mine_only)) := by
  have hfilter : page_filter (one_each mine_only) = .ok ⟨none, mine_only, none⟩ := by cases mine_only <;> rfl
  have hrows : page_rows (secs 1) (TaskClaims.worker 1 "ada") ⟨none, mine_only, none⟩ none board = [ship, build] := by
    cases mine_only <;> decide
  unfold page_at board_at
  rw [page_eq hfilter rfl, hrows]
  rfl

/-- By the second, the other claim has lapsed. -/
theorem second_page (mine_only : Bool) : page_at TaskViews.strokes (TaskClaims.worker 1 "ada") (one_each mine_only)
    (board_at (secs 40)) (some (after_ship mine_only)) =
      some (if mine_only then [] else [task_entry (secs 40) board build], none) := by
  have hfilter : page_filter (one_each mine_only) = .ok ⟨none, mine_only, none⟩ := by cases mine_only <;> rfl
  have hrows : page_rows (secs 40) (TaskClaims.worker 1 "ada") ⟨none, mine_only, none⟩
      (some (place_of (secs 1) ship)) board = if mine_only then [] else [build] := by
    cases mine_only <;> decide
  unfold page_at board_at after_ship
  rw [page_eq hfilter (page_start_encode (TaskViews.strokes_lawful board) (by decide)), hrows]
  cases mine_only <;> rfl

/-- What the two pages show. -/
def shown (mine_only : Bool) : List (Moment × TaskEntry) :=
  [(board_at (secs 1), task_entry (secs 1) board ship)] ++
    if mine_only then [] else [(board_at (secs 40), task_entry (secs 40) board build)]

theorem two_pages (mine_only : Bool) : Paging.Walked (page_at TaskViews.strokes (TaskClaims.worker 1 "ada")
    (one_each mine_only)) [board_at (secs 1), board_at (secs 40)] none (shown mine_only) := by
  have hlast := Paging.Walked.last (second_page mine_only)
  have hwalk := Paging.Walked.next (first_page mine_only) hlast
  cases mine_only <;> exact hwalk

/-- The board that stays as it is shows both claims; when one has lapsed before its page is
read, it is shown as a task that is open. -/
theorem paging_skips_nothing_lapse :
    (∃ ts, Listed (TaskClaims.worker 1 "ada") ⟨none, false, none⟩ (board_at (secs 1)) ts ∧
      ∃ n l, List.Forall₂ (fun e t => e.2 = task_entry e.1.now e.1.db t) l ts ∧
        ∀ n' l', Paging.Walked (page_at TaskViews.strokes (TaskClaims.worker 1 "ada") (one_each false))
          ((List.range n').map fun _ => board_at (secs 1)) none l' ↔ n' = n ∧ l' = l) ∧
    ∃ m ∈ [board_at (secs 1), board_at (secs 40)], (m, task_entry m.now m.db build) ∈ shown false := by
  have hpaging := paging_skips_nothing TaskViews.strokes (TaskClaims.worker 1 "ada") (one_each false)
    ⟨none, false, none⟩ rfl
  have hlawful : ∀ m : Moment, TaskViews.strokes.Lawful m.db := fun m => TaskViews.strokes_lawful m.db
  refine ⟨hpaging.1 (fun _ => board_at (secs 1)) (fun _ => hlawful _) (fun _ => board_at_unique _)
    fun _ => Still.refl _ _, ?_⟩
  refine hpaging.2 rfl _ _ build (two_pages false) (fun m _ => hlawful m) (by simp [board_at_unique]) (by decide)
    (by decide) (fun m hm => ?_) (by decide)
  rw [← Option.some.inj hm]
  decide

/-- With `mine_only`, the claim that has lapsed is on no page, though it matched when the first
was read and nobody wrote to it. -/
theorem lapsed_claim_is_on_no_page :
    ∃ t ∈ board.tasks, matching (secs 1) (TaskClaims.worker 1 "ada") ⟨none, true, none⟩ t = true ∧
      Paging.Walked (page_at TaskViews.strokes (TaskClaims.worker 1 "ada") (one_each true))
        [board_at (secs 1), board_at (secs 40)] none (shown true) ∧
      ¬ ∃ m ∈ [board_at (secs 1), board_at (secs 40)], (m, task_entry m.now m.db t) ∈ shown true := by
  refine ⟨build, by decide, by decide, two_pages true, ?_⟩
  rintro ⟨m, hm, hin⟩
  have hkey : build.key = ship.key := congrArg TaskEntry.key (Prod.mk.inj (List.mem_singleton.mp hin)).2
  exact absurd hkey (by decide)

end CrewSync.TaskPages
