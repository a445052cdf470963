/-
**Keyset paging**: a table shown in pages, each of them the rows that come after the
last row of the page before.

Nothing here knows what a row is, or what a cursor looks like. A row has a place in
some linear order, and no two rows of the table share a place. `rest key c t` is what
is left to show after the place `c`, in order; a page is its first `n` rows, and
`cursor` is where the next page starts. What a caller gets by following cursors is a
`Walk`, and the result is `walk_iff`: from any place there is one walk, and it shows
exactly what was left.
-/
import Mathlib.Order.Lattice
import CrewSync.Rows

set_option autoImplicit false

namespace CrewSync.Paging

open Rows

variable {ρ κ χ β : Type*} [LinearOrder κ]

/-- The rows after the place `c`, in order. -/
def rest (key : ρ → κ) (c : Option κ) (t : List ρ) : List ρ :=
  (t.filter fun r => c.all fun k => k < key r).insertionSort fun a b => key a ≤ key b

/-- Where the page after the first `n` of `rows` starts. -/
def cursor (key : ρ → κ) (n : ℕ) (rows : List ρ) : Option κ :=
  if n < rows.length then (rows.take n).getLast?.map key else none

/-! ## What is left -/

section Rest

variable {key : ρ → κ} {t : List ρ} {c : Option κ} {n : ℕ}

@[simp] theorem mem_rest {r : ρ} : r ∈ rest key c t ↔ r ∈ t ∧ ∀ k, c = some k → k < key r := by
  unfold rest
  rw [List.mem_insertionSort, List.mem_filter, Option.all_eq_true]
  simp only [decide_eq_true_eq]

/-- What is left is in order, and no place is taken twice. -/
theorem pairwise_rest (h : Keyed key t) (c : Option κ) : (rest key c t).Pairwise fun a b => key a < key b := by
  have : Std.Total (fun a b : ρ => key a ≤ key b) := ⟨fun a b => le_total (key a) (key b)⟩
  have : IsTrans ρ (fun a b => key a ≤ key b) := ⟨fun _ _ _ => le_trans⟩
  have hsorted : (rest key c t).Pairwise fun a b => key a ≤ key b := List.pairwise_insertionSort _ _
  have hfilter : ((t.filter fun r => c.all fun k => k < key r).map key).Nodup :=
    List.Nodup.sublist (List.Sublist.map key List.filter_sublist) h
  have hnodup : ((rest key c t).map key).Nodup :=
    (List.Perm.map key (List.perm_insertionSort _ _)).nodup_iff.mpr hfilter
  rw [List.Nodup, List.pairwise_map] at hnodup
  exact hsorted.imp₂ (fun a b hle hne => lt_of_le_of_ne hle hne) hnodup

/-- A list in strict order is known by what is in it. -/
theorem eq_of_mem {l l' : List ρ} (h : l.Pairwise fun a b => key a < key b)
    (h' : l'.Pairwise fun a b => key a < key b) (hmem : ∀ r, r ∈ l ↔ r ∈ l') : l = l' := by
  have : Std.Irrefl (fun a b : ρ => key a < key b) := ⟨fun a => lt_irrefl (key a)⟩
  have : Std.Antisymm (fun a b : ρ => key a < key b) := ⟨fun _ _ hab hba => absurd hab (lt_asymm hba)⟩
  exact h.eq_of_mem_iff h' hmem

/-- After a page, what is left is what the page did not show. -/
theorem rest_next (h : Keyed key t) {k : κ} (hk : cursor key n (rest key c t) = some k) :
    rest key (some k) t = (rest key c t).drop n := by
  unfold cursor at hk
  split at hk
  swap
  · cases hk
  obtain ⟨r, hr, rfl⟩ := Option.map_eq_some_iff.mp hk
  have hsorted := pairwise_rest h c
  have hrmem : r ∈ (rest key c t).take n := List.mem_of_getLast? hr
  have happ := hsorted
  rw [← List.take_append_drop n (rest key c t), List.pairwise_append] at happ
  obtain ⟨htake, hdrop, hacross⟩ := happ
  refine eq_of_mem (pairwise_rest h _) hdrop fun x => ?_
  rw [mem_rest]
  constructor
  · rintro ⟨hx, hlt⟩
    have hlt := hlt (key r) rfl
    -- the last row shown comes after `c`, and so does what comes after it
    have hxrest : x ∈ rest key c t := by
      rw [mem_rest]
      exact ⟨hx, fun k hc => lt_trans ((mem_rest.mp (List.mem_of_mem_take hrmem)).2 k hc) hlt⟩
    rw [← List.take_append_drop n (rest key c t)] at hxrest
    rcases List.mem_append.mp hxrest with hshown | hleft
    · -- nothing on the page comes after its last row
      obtain ⟨init, hinit⟩ := List.getLast?_eq_some_iff.mp hr
      rw [hinit] at hshown htake
      rcases List.mem_append.mp hshown with hin | hlast
      · have hxr := (List.pairwise_append.mp htake).2.2 x hin r (List.mem_singleton.mpr rfl)
        exact absurd hlt (lt_asymm hxr)
      · rw [List.mem_singleton.mp hlast] at hlt
        exact absurd hlt (lt_irrefl _)
    · exact hleft
  · intro hx
    refine ⟨(mem_rest.mp (List.mem_of_mem_drop hx)).1, ?_⟩
    rintro k ⟨⟩
    exact hacross r hrmem x hx

omit [LinearOrder κ] in
/-- There is a next page when there is more. -/
theorem cursor_eq_none (hn : 0 < n) {rows : List ρ} : cursor key n rows = none ↔ rows.length ≤ n := by
  unfold cursor
  split
  · rename_i hlt
    rw [Option.map_eq_none_iff, List.getLast?_eq_none_iff, List.take_eq_nil_iff]
    constructor
    · rintro (h | h)
      · omega
      · rw [h] at hlt
        exact absurd hlt (Nat.not_lt_zero n)
    · intro h
      omega
  · simpa using ‹¬ n < rows.length›

end Rest

/-! ## Following the cursors -/

/-- What is shown by the pages from `c` on. -/
inductive Walk (page : Option χ → Option (List β × Option χ)) : Option χ → List β → Prop
  | last {c : Option χ} {l : List β} : page c = some (l, none) → Walk page c l
  | next {c : Option χ} {d : χ} {l m : List β} :
      page c = some (l, some d) → Walk page (some d) m → Walk page c (l ++ m)

/-- There is one walk from a place. -/
theorem Walk.unique {page : Option χ → Option (List β × Option χ)} {c : Option χ} {l m : List β}
    (h : Walk page c l) (h' : Walk page c m) : l = m := by
  induction h generalizing m with
  | last hpage =>
    cases h' with
    | last hpage' =>
      rw [hpage] at hpage'
      simpa using hpage'
    | next hpage' _ =>
      rw [hpage] at hpage'
      cases hpage'
  | next hpage _ ih =>
    cases h' with
    | last hpage' =>
      rw [hpage] at hpage'
      cases hpage'
    | next hpage' hrest =>
      rw [hpage] at hpage'
      simp only [Option.some.injEq, Prod.mk.injEq] at hpage'
      obtain ⟨rfl, rfl⟩ := hpage'
      rw [ih hrest]

/-- `page` shows the rows of `t` through `f`, at most `n` at a time; `at_ c k` says that
the cursor `c` stands for the place `k`. -/
structure Pages (key : ρ → κ) (f : ρ → β) (n : ℕ) (t : List ρ) (at_ : Option χ → Option κ → Prop)
    (page : Option χ → Option (List β × Option χ)) : Prop where
  last : ∀ c k, at_ c k → cursor key n (rest key k t) = none →
    page c = some (((rest key k t).take n).map f, none)
  next : ∀ c k k', at_ c k → cursor key n (rest key k t) = some k' →
    ∃ d, page c = some (((rest key k t).take n).map f, some d) ∧ at_ (some d) (some k')

section Walks

variable {key : ρ → κ} {f : ρ → β} {n : ℕ} {t : List ρ} {at_ : Option χ → Option κ → Prop}
  {page : Option χ → Option (List β × Option χ)}

theorem walk_rest (h : Pages key f n t at_ page) (hkey : Keyed key t) (hn : 0 < n) :
    ∀ (len : ℕ) (c : Option χ) (k : Option κ), at_ c k → (rest key k t).length ≤ len →
      Walk page c ((rest key k t).map f) := by
  intro len
  -- on how many rows are left
  induction len with
  | zero =>
    intro c k hat hlen
    have hnone : cursor key n (rest key k t) = none := (cursor_eq_none hn).mpr (by omega)
    have hlast := h.last c k hat hnone
    rw [List.take_of_length_le (by omega)] at hlast
    exact .last hlast
  | succ len ih =>
    intro c k hat hlen
    cases hcur : cursor key n (rest key k t) with
    | none =>
      have hlast := h.last c k hat hcur
      rw [List.take_of_length_le ((cursor_eq_none hn).mp hcur)] at hlast
      exact .last hlast
    | some k' =>
      obtain ⟨d, hpage, hat'⟩ := h.next c k k' hat hcur
      have hnext := rest_next hkey hcur
      have hshort : (rest key (some k') t).length ≤ len := by
        rw [hnext, List.length_drop]
        omega
      have hwalk := Walk.next hpage (ih (some d) (some k') hat' hshort)
      rw [← List.map_append, hnext, List.take_append_drop] at hwalk
      exact hwalk

/-- Following the cursors from a place shows what was left there, each row once and
in order. -/
theorem walk_iff (h : Pages key f n t at_ page) (hkey : Keyed key t) (hn : 0 < n) {c : Option χ}
    {k : Option κ} (hat : at_ c k) {l : List β} : Walk page c l ↔ l = (rest key k t).map f := by
  have hwalk := walk_rest h hkey hn _ c k hat le_rfl
  constructor
  · intro hl
    exact hl.unique hwalk
  · rintro rfl
    exact hwalk

end Walks

/-! ## Pages read at different moments

Each page is read at a moment of its own, and what the table holds and how its rows are
ordered may be different then. -/

section Moments

variable {σ : Type*}

/-- What is shown by the pages read at the moments of `ms`, the first from `c` on; the
last of them is the last page. -/
inductive Walked (page : σ → Option χ → Option (List β × Option χ)) : List σ → Option χ → List (σ × β) → Prop
  | last {m : σ} {c : Option χ} {l : List β} :
      page m c = some (l, none) → Walked page [m] c (l.map fun x => (m, x))
  | next {m : σ} {ms : List σ} {c : Option χ} {d : χ} {l : List β} {rest : List (σ × β)} :
      page m c = some (l, some d) → Walked page ms (some d) rest →
        Walked page (m :: ms) c (l.map (fun x => (m, x)) ++ rest)

variable {key : σ → ρ → κ} {f : σ → ρ → β} {n : ℕ} {t : σ → List ρ} {at_ : Option χ → Option κ → Prop}
  {page : σ → Option χ → Option (List β × Option χ)} {moments : ℕ → σ} {c : Option χ} {l : List (σ × β)}

/-- Which pages are read, and what they show, is settled by the moments there are. -/
theorem Walked.unique {i n' : ℕ} {l' : List (σ × β)} (h : Walked page ((List.range' i n).map moments) c l)
    (h' : Walked page ((List.range' i n').map moments) c l') : n = n' ∧ l = l' := by
  induction n generalizing i n' c l l' with
  | zero => cases h
  | succ n ih =>
    cases n' with
    | zero => cases h'
    | succ n' =>
      rw [List.range'_succ, List.map_cons] at h h'
      generalize hms : (List.range' (i + 1) n).map moments = ms at h
      generalize hms' : (List.range' (i + 1) n').map moments = ms' at h'
      cases h with
      | last hpage =>
        cases h' with
        | last hpage' =>
          rw [hpage] at hpage'
          have hn : n = 0 := by simpa using hms
          have hn' : n' = 0 := by simpa using hms'
          simp only [Option.some.injEq, Prod.mk.injEq, and_true] at hpage'
          rw [hn, hn', hpage']
          exact ⟨rfl, rfl⟩
        | next hpage' _ =>
          rw [hpage] at hpage'
          cases hpage'
      | next hpage hrest =>
        cases h' with
        | last hpage' =>
          rw [hpage] at hpage'
          cases hpage'
        | next hpage' hrest' =>
          rw [hpage] at hpage'
          simp only [Option.some.injEq, Prod.mk.injEq] at hpage'
          obtain ⟨rfl, rfl⟩ := hpage'
          subst hms
          subst hms'
          have hboth := ih hrest hrest'
          rw [hboth.1, hboth.2]
          exact ⟨rfl, rfl⟩

/-- While what is left after any place stays the same, the pages show it, each row once
and in order, as it looks when its page is read; and they end. -/
theorem walked_rest (key : σ → ρ → κ) (f : σ → ρ → β) (t : σ → List ρ) {key₀ : ρ → κ} {t₀ : List ρ}
    (hkey : Keyed key₀ t₀) (hn : 0 < n)
    (hpages : ∀ i, Pages (key (moments i)) (f (moments i)) n (t (moments i)) at_ (page (moments i)))
    (hsame : ∀ i k, rest (key (moments i)) k (t (moments i)) = rest key₀ k t₀)
    (hkeys : ∀ i, ∀ r ∈ t₀, key (moments i) r = key₀ r) :
    ∀ (len i : ℕ) (c : Option χ) (k : Option κ), at_ c k → (rest key₀ k t₀).length ≤ len →
      ∃ pages l, Walked page ((List.range' i pages).map moments) c l ∧
        List.Forall₂ (fun e r => e.2 = f e.1 r) l (rest key₀ k t₀) := by
  have hcursor : ∀ i k, cursor (key (moments i)) n (rest key₀ k t₀) = cursor key₀ n (rest key₀ k t₀) := by
    intro i k
    unfold cursor
    split
    · refine Option.map_congr fun r hr => ?_
      exact hkeys i r (mem_rest.mp (List.mem_of_mem_take (List.mem_of_getLast? hr))).1
    · rfl
  have hshows : ∀ i (rows : List ρ), List.Forall₂ (fun (e : σ × β) r => e.2 = f e.1 r)
      ((rows.map (f (moments i))).map fun x => (moments i, x)) rows := by
    intro i rows
    rw [List.map_map, List.forall₂_map_left_iff]
    exact List.forall₂_same.mpr fun r _ => rfl
  intro len
  -- on how many rows are left
  induction len with
  | zero =>
    intro i c k hat hlen
    have hlast := (hpages i).last c k hat (by
      rw [hsame, hcursor]
      exact (cursor_eq_none hn).mpr (by omega))
    rw [hsame, List.take_of_length_le (by omega)] at hlast
    exact ⟨1, _, .last hlast, hshows i _⟩
  | succ len ih =>
    intro i c k hat hlen
    by_cases hcur : cursor key₀ n (rest key₀ k t₀) = none
    · have hlast := (hpages i).last c k hat (by rw [hsame, hcursor, hcur])
      rw [hsame, List.take_of_length_le ((cursor_eq_none hn).mp hcur)] at hlast
      exact ⟨1, _, .last hlast, hshows i _⟩
    · obtain ⟨k', hk'⟩ := Option.ne_none_iff_exists'.mp hcur
      obtain ⟨d, hpage, hat'⟩ := (hpages i).next c k k' hat (by rw [hsame, hcursor, hk'])
      rw [hsame] at hpage
      have hnext := rest_next hkey hk'
      have hshort : (rest key₀ (some k') t₀).length ≤ len := by
        rw [hnext, List.length_drop]
        omega
      obtain ⟨pages, l, hwalked, hl⟩ := ih (i + 1) (some d) (some k') hat' hshort
      have hwalk := Walked.next hpage hwalked
      have happ : List.Forall₂ (fun e r => e.2 = f e.1 r) (_ ++ l)
          ((rest key₀ k t₀).take n ++ rest key₀ (some k') t₀) := List.rel_append (hshows i _) hl
      rw [hnext, List.take_append_drop] at happ
      refine ⟨pages + 1, _, ?_, happ⟩
      rw [List.range'_succ, List.map_cons]
      exact hwalk

/-- A row whose place only ever moves back is not passed over, whatever becomes of the
others: as long as it has not been shown, the cursor is before it. -/
theorem Walked.shows (key : σ → ρ → κ) (f : σ → ρ → β) (t : σ → List ρ) {R : σ → σ → Prop} {r : ρ} {ms : List σ}
    {k : Option κ} (h : Walked page ms c l) (hn : 0 < n) (hat : at_ c k) (hkey : ∀ m ∈ ms, Keyed (key m) (t m))
    (hpages : ∀ m ∈ ms, Pages (key m) (f m) n (t m) at_ (page m)) (hr : ∀ m ∈ ms, r ∈ t m)
    (horder : ms.Pairwise R) (hback : ∀ m m', R m m' → key m r ≤ key m' r)
    (hlt : ∀ m ∈ ms, ∀ k', k = some k' → k' < key m r) : ∃ m ∈ ms, (m, f m r) ∈ l := by
  induction h generalizing k with
  | @last m c l hpage =>
    have hleft : r ∈ rest (key m) k (t m) :=
      mem_rest.mpr ⟨hr m List.mem_cons_self, hlt m List.mem_cons_self⟩
    have hpages := hpages m List.mem_cons_self
    by_cases hcur : cursor (key m) n (rest (key m) k (t m)) = none
    · have hlast := hpages.last c k hat hcur
      rw [List.take_of_length_le ((cursor_eq_none hn).mp hcur), hpage] at hlast
      have hl : l = (rest (key m) k (t m)).map (f m) := (Prod.mk.inj (Option.some.inj hlast)).1
      refine ⟨m, List.mem_cons_self, List.mem_map.mpr ⟨f m r, ?_, rfl⟩⟩
      rw [hl]
      exact List.mem_map_of_mem hleft
    · obtain ⟨k', hk'⟩ := Option.ne_none_iff_exists'.mp hcur
      obtain ⟨d, hpage', -⟩ := hpages.next c k k' hat hk'
      rw [hpage] at hpage'
      cases hpage'
  | @next m ms c d l left hpage hwalked ih =>
    have hleft : r ∈ rest (key m) k (t m) :=
      mem_rest.mpr ⟨hr m List.mem_cons_self, hlt m List.mem_cons_self⟩
    have hfirst := hpages m List.mem_cons_self
    have hrest := List.pairwise_cons.mp horder
    by_cases hcur : cursor (key m) n (rest (key m) k (t m)) = none
    · have hlast := hfirst.last c k hat hcur
      rw [hpage] at hlast
      cases hlast
    · obtain ⟨k', hk'⟩ := Option.ne_none_iff_exists'.mp hcur
      obtain ⟨d', hpage', hat'⟩ := hfirst.next c k k' hat hk'
      rw [hpage] at hpage'
      simp only [Option.some.injEq, Prod.mk.injEq] at hpage'
      rcases hpage' with ⟨hl, rfl⟩
      by_cases hshown : r ∈ (rest (key m) k (t m)).take n
      · refine ⟨m, List.mem_cons_self, List.mem_append_left _ (List.mem_map.mpr ⟨f m r, ?_, rfl⟩)⟩
        rw [hl]
        exact List.mem_map_of_mem hshown
      · -- not shown yet: it comes after the last row of the page, then and from then on
        have hdrop : r ∈ (rest (key m) k (t m)).drop n := by
          rw [← List.take_append_drop n (rest (key m) k (t m))] at hleft
          exact (List.mem_append.mp hleft).resolve_left hshown
        rw [← rest_next (hkey m List.mem_cons_self) hk'] at hdrop
        have hafter : k' < key m r := (mem_rest.mp hdrop).2 k' rfl
        obtain ⟨m', hm', hin⟩ := ih hat' (fun x hx => hkey x (List.mem_cons_of_mem _ hx))
          (fun x hx => hpages x (List.mem_cons_of_mem _ hx))
          (fun x hx => hr x (List.mem_cons_of_mem _ hx)) hrest.2 (fun x hx k'' hk'' => by
            rw [← Option.some.inj hk'']
            exact lt_of_lt_of_le hafter (hback m x (hrest.1 x hx)))
        exact ⟨m', List.mem_cons_of_mem _ hm', List.mem_append_right _ hin⟩

end Moments

/-! ## A list with a hold

Rows are numbered, and a row may be **held**: a caller is to come back to it. A page is
then followed by the rows after the last one before the first it holds, so that a
caller who follows the cursors comes to every row up to the first that is held, to what
fits on a page from there, and no further. -/

section Hold

variable {num : ρ → ℕ} {held : ρ → Bool} {n top start : ℕ} {t : List ρ} {l : List ρ} {m r x : ρ} {c d : ℕ}

/-- A page: the first `n` rows after number `c`. -/
def numbered (num : ρ → ℕ) (n : ℕ) (t : List ρ) (c : ℕ) : List ρ := (rest num (some c) t).take n

/-- Where the page after `c` is continued. -/
def resume (num : ρ → ℕ) (held : ρ → Bool) (n top : ℕ) (t : List ρ) (c : ℕ) : Option ℕ :=
  ((numbered num n t c).getLast?.map fun r =>
    ((numbered num n t c).find? held).elim (num r) fun p => min (num r) (num p - 1)).filter
      fun d => d < top && 0 < d

/-- The cursors that are come to from `start`. -/
inductive Reached (num : ρ → ℕ) (held : ρ → Bool) (n top : ℕ) (t : List ρ) (start : ℕ) : ℕ → Prop
  | first : Reached num held n top t start start
  | next {c d : ℕ} : Reached num held n top t start c → resume num held n top t c = some d →
      Reached num held n top t start d

/-- How many rows there are from number `a` up to `b`, `b` not included. -/
def between (num : ρ → ℕ) (a b : ℕ) (t : List ρ) : ℕ := t.countP fun x => a ≤ num x && num x < b

theorem between_mono {a a' b : ℕ} (h : ∀ x ∈ t, a ≤ num x → num x < b → a' ≤ num x) :
    between num a b t ≤ between num a' b t := by
  unfold between
  refine List.countP_mono_left fun x hx hin => ?_
  simp only [Bool.and_eq_true, decide_eq_true_eq] at hin ⊢
  exact ⟨h x hx hin.1 hin.2, hin.2⟩

/-- In a list in order, the first `n` are those with fewer than `n` before them. -/
theorem mem_take_iff (h : l.Pairwise fun a b => num a < num b) (hm : m ∈ l) :
    ∀ n, m ∈ l.take n ↔ l.countP (fun x => num x < num m) < n := by
  induction l with
  | nil => exact absurd hm List.not_mem_nil
  | cons a l ih =>
    rw [List.pairwise_cons] at h
    intro n
    cases n with
    | zero => simp
    | succ n =>
      rw [List.take_succ_cons, List.mem_cons, List.countP_cons]
      rcases List.mem_cons.mp hm with rfl | hm
      · -- nothing comes before the first
        have hnone : l.countP (fun x => num x < num m) = 0 := by
          rw [List.countP_eq_zero]
          intro x hx
          have hlt := h.1 x hx
          rw [decide_eq_true_eq]
          omega
        rw [hnone]
        simp
      · have hlt := h.1 m hm
        have hne : m ≠ a := by
          rintro rfl
          omega
        rw [if_pos (by simpa using hlt), ih h.2 hm n]
        simp only [hne, false_or]
        omega

theorem mem_numbered (h : Keyed num t) :
    m ∈ numbered num n t c ↔ m ∈ t ∧ c < num m ∧ between num (c + 1) (num m) t < n := by
  have hcount : (rest num (some c) t).countP (fun x => num x < num m) =
      between num (c + 1) (num m) t := by
    unfold rest between
    rw [(List.perm_insertionSort _ _).countP_eq, List.countP_filter]
    refine List.countP_congr fun x _ => ?_
    simp only [Option.all_some, Bool.and_eq_true, decide_eq_true_eq]
    omega
  unfold numbered
  constructor
  · intro hm
    have hin := List.mem_of_mem_take hm
    rw [mem_take_iff (pairwise_rest h _) hin, hcount] at hm
    rw [mem_rest] at hin
    exact ⟨hin.1, hin.2 c rfl, hm⟩
  · rintro ⟨hm, hlt, hfew⟩
    have hin : m ∈ rest num (some c) t := by
      rw [mem_rest]
      refine ⟨hm, ?_⟩
      rintro k ⟨⟩
      exact hlt
    rw [mem_take_iff (pairwise_rest h _) hin, hcount]
    exact hfew

/-- Nothing in a list in order comes after its last, and nothing that is held before the
first that is. -/
theorem le_last (h : l.Pairwise fun a b => num a < num b) (hr : l.getLast? = some r) (hx : x ∈ l) : num x ≤ num r := by
  obtain ⟨init, rfl⟩ := List.getLast?_eq_some_iff.mp hr
  rcases List.mem_append.mp hx with hin | hlast
  · exact Nat.le_of_lt ((List.pairwise_append.mp h).2.2 x hin r (List.mem_singleton.mpr rfl))
  · rw [List.mem_singleton.mp hlast]

theorem first_held_le (h : l.Pairwise fun a b => num a < num b) {p : ρ}
    (hp : l.find? held = some p) (hx : x ∈ l) (hheld : held x = true) : num p ≤ num x := by
  obtain ⟨-, before, after, rfl, hnot⟩ := List.find?_eq_some_iff_append.mp hp
  rcases List.mem_append.mp hx with hin | hin
  · have hfree := hnot x hin
    rw [hheld] at hfree
    cases hfree
  · rcases List.mem_cons.mp hin with rfl | hin
    · exact le_rfl
    · have hpair := (List.pairwise_append.mp h).2.1
      exact Nat.le_of_lt ((List.pairwise_cons.mp hpair).1 x hin)

/-- Where a page is continued: behind it, or before the first row it holds. -/
theorem resume_cases (hnext : resume num held n top t c = some d) :
    ∃ r, (numbered num n t c).getLast? = some r ∧
      ((numbered num n t c).find? held = none ∧ d = num r ∨
        ∃ p, (numbered num n t c).find? held = some p ∧ d = min (num r) (num p - 1)) := by
  unfold resume at hnext
  obtain ⟨hnext, -⟩ := Option.filter_eq_some_iff.mp hnext
  obtain ⟨r, hr, rfl⟩ := Option.map_eq_some_iff.mp hnext
  refine ⟨r, hr, ?_⟩
  cases hp : (numbered num n t c).find? held with
  | none => exact Or.inl ⟨rfl, rfl⟩
  | some p => exact Or.inr ⟨p, rfl, rfl⟩

/-- A page has every row after `c` up to its last. -/
theorem mem_numbered_of_le (h : Keyed num t) (hr : (numbered num n t c).getLast? = some r)
    (hx : x ∈ t) (hlt : c < num x) (hle : num x ≤ num r) : x ∈ numbered num n t c := by
  have hlast := (mem_numbered h).mp (List.mem_of_getLast? hr)
  refine (mem_numbered h).mpr ⟨hx, hlt, lt_of_le_of_lt ?_ hlast.2.2⟩
  unfold between
  refine List.countP_mono_left fun y _ hin => ?_
  simp only [Bool.and_eq_true, decide_eq_true_eq] at hin ⊢
  exact ⟨hin.1, lt_of_lt_of_le hin.2 hle⟩

/-- A page that is continued is continued after `c`, on the page, and before what it holds. -/
theorem resume_some (h : Keyed num t) (hnext : resume num held n top t c = some d) :
    0 < d ∧ c ≤ d ∧ ∃ r, (numbered num n t c).getLast? = some r ∧ d ≤ num r ∧
      ∀ p ∈ numbered num n t c, held p = true → d < num p := by
  have hsorted : (numbered num n t c).Pairwise fun a b => num a < num b :=
    (pairwise_rest h (some c)).sublist (List.take_sublist _ _)
  have hpos : 0 < d := by
    unfold resume at hnext
    have hkept := (Option.filter_eq_some_iff.mp hnext).2
    rw [Bool.and_eq_true, decide_eq_true_eq, decide_eq_true_eq] at hkept
    exact hkept.2
  obtain ⟨r, hr, hcases⟩ := resume_cases hnext
  have hrlt := ((mem_numbered h).mp (List.mem_of_getLast? hr)).2.1
  rcases hcases with ⟨hnone, rfl⟩ | ⟨q, hq, rfl⟩
  · refine ⟨hpos, Nat.le_of_lt hrlt, r, hr, le_rfl, fun p hp hheld => ?_⟩
    exact absurd hheld (List.find?_eq_none.mp hnone p hp)
  · have hqlt := ((mem_numbered h).mp (List.mem_of_find?_eq_some hq)).2.1
    refine ⟨hpos, by omega, r, hr, by omega, fun p hp hheld => ?_⟩
    have hfirst := first_held_le hsorted hq hp hheld
    omega

/-- A page is not continued where it is empty, where it comes to the end, or where the very
first row is held. -/
theorem resume_none_iff (h : Keyed num t) (htop : ∀ x ∈ t, num x ≤ top) :
    resume num held n top t c = none ↔
      numbered num n t c = [] ∨
      (∃ r, (numbered num n t c).getLast? = some r ∧ (numbered num n t c).find? held = none ∧ num r = top) ∨
      ∃ p, (numbered num n t c).find? held = some p ∧ num p = 1 := by
  have hsorted : (numbered num n t c).Pairwise fun a b => num a < num b :=
    (pairwise_rest h (some c)).sublist (List.take_sublist _ _)
  cases hr : (numbered num n t c).getLast? with
  | none =>
    have hnil := List.getLast?_eq_none_iff.mp hr
    rw [hnil]
    simp [resume, hnil]
  | some r =>
    have hne : numbered num n t c ≠ [] := by
      intro hnil
      rw [hnil] at hr
      cases hr
    obtain ⟨hrt, hrlt, -⟩ := (mem_numbered h).mp (List.mem_of_getLast? hr)
    have hrtop := htop r hrt
    cases hp : (numbered num n t c).find? held with
    | none =>
      simp only [resume, hr, hp, Option.map_some, Option.elim_none, Option.filter_some]
      constructor
      · intro hstop
        refine Or.inr (Or.inl ⟨r, rfl, trivial, ?_⟩)
        by_contra hlt
        rw [if_pos (by simp only [Bool.and_eq_true, decide_eq_true_eq]; omega)] at hstop
        cases hstop
      · rintro (hnil | ⟨x, hx, -, hend⟩ | ⟨p, hsome, -⟩)
        · exact absurd hnil hne
        · rw [Option.some.inj hx, hend, if_neg (by simp)]
        · cases hsome
    | some p =>
      have hpage := List.mem_of_find?_eq_some hp
      obtain ⟨-, hplt, -⟩ := (mem_numbered h).mp hpage
      have hple := le_last hsorted hr hpage
      simp only [resume, hr, hp, Option.map_some, Option.elim_some, Option.filter_some]
      constructor
      · intro hstop
        refine Or.inr (Or.inr ⟨p, rfl, ?_⟩)
        by_contra hlt
        rw [if_pos (by simp only [Bool.and_eq_true, decide_eq_true_eq]; omega)] at hstop
        cases hstop
      · rintro (hnil | ⟨x, -, hnone, -⟩ | ⟨q, hsome, hone⟩)
        · exact absurd hnil hne
        · cases hnone
        · rw [Option.some.inj hsome, hone, if_neg (by simp)]

/-- No cursor that is come to is behind a row that is held. -/
theorem Reached.before_held (h : Keyed num t) (hc : Reached num held n top t start c) :
    start ≤ c ∧ ∀ p ∈ t, start < num p → held p = true → c < num p := by
  induction hc with
  | first => exact ⟨le_rfl, fun p _ hlt _ => hlt⟩
  | @next c d _ hnext ih =>
    obtain ⟨hle, hbefore⟩ := ih
    have hsorted : (numbered num n t c).Pairwise fun a b => num a < num b :=
      (pairwise_rest h (some c)).sublist (List.take_sublist _ _)
    obtain ⟨r, hr, hcases⟩ := resume_cases hnext
    have hlast := (mem_numbered h).mp (List.mem_of_getLast? hr)
    -- a row that is held and not on the page comes after it
    have hbehind : ∀ p ∈ t, start < num p → held p = true → p ∈ numbered num n t c ∨ num r < num p := by
      intro p hp hlt hheld
      by_contra hnot
      rw [not_or, not_lt] at hnot
      exact hnot.1 (mem_numbered_of_le h hr hp (hbefore p hp hlt hheld) hnot.2)
    rcases hcases with ⟨hnone, rfl⟩ | ⟨q, hq, rfl⟩
    · refine ⟨le_trans hle (Nat.le_of_lt hlast.2.1), fun p hp hlt hheld => ?_⟩
      rcases hbehind p hp hlt hheld with hin | hgt
      · have hfree := List.find?_eq_none.mp hnone p hin
        exact absurd hheld hfree
      · exact hgt
    · have hqpage := (mem_numbered h).mp (List.mem_of_find?_eq_some hq)
      have hqlt := hqpage.2.1
      have hrlt := hlast.2.1
      refine ⟨by omega, fun p hp hlt hheld => ?_⟩
      rcases hbehind p hp hlt hheld with hin | hgt
      · have hfirst := first_held_le hsorted hq hin hheld
        omega
      · omega

/-- From a cursor, a row that no held row keeps a page away is come to. -/
theorem Reached.comes_to (h : Keyed num t) (hn : 0 < n) (htop : ∀ x ∈ t, num x ≤ top)
    (hm : m ∈ t) (hfew : ∀ p ∈ t, start < num p → held p = true → between num (num p) (num m) t < n) :
    ∀ (gap c : ℕ), Reached num held n top t start c → start ≤ c → c < num m → num m - c ≤ gap →
      ∃ d, Reached num held n top t start d ∧ m ∈ numbered num n t d := by
  intro gap
  -- on how far the row is away
  induction gap with
  | zero =>
    intro c _ _ hlt hgap
    omega
  | succ gap ih =>
    intro c hc hle hlt hgap
    by_cases hpage : m ∈ numbered num n t c
    · exact ⟨c, hc, hpage⟩
    have hmany : n ≤ between num (c + 1) (num m) t := by
      by_contra hnot
      exact hpage ((mem_numbered h).mpr ⟨hm, hlt, by omega⟩)
    have hsorted : (numbered num n t c).Pairwise fun a b => num a < num b :=
      (pairwise_rest h (some c)).sublist (List.take_sublist _ _)
    -- the page is full, and ends before the row
    obtain ⟨r, hr⟩ : ∃ r, (numbered num n t c).getLast? = some r := by
      cases hlast : (numbered num n t c).getLast? with
      | some r => exact ⟨r, rfl⟩
      | none =>
        rw [List.getLast?_eq_none_iff, numbered, List.take_eq_nil_iff] at hlast
        rcases hlast with hzero | hnil
        · omega
        · have hin : m ∈ rest num (some c) t := by
            rw [mem_rest]
            refine ⟨hm, ?_⟩
            rintro k ⟨⟩
            exact hlt
          rw [hnil] at hin
          exact absurd hin List.not_mem_nil
    obtain ⟨hrt, hrc, hrfew⟩ := (mem_numbered h).mp (List.mem_of_getLast? hr)
    have hrm : num r < num m := by
      by_contra hnot
      refine absurd hrfew (not_lt.mpr (le_trans hmany ?_))
      unfold between
      refine List.countP_mono_left fun x _ hin => ?_
      simp only [Bool.and_eq_true, decide_eq_true_eq] at hin ⊢
      omega
    have hmtop := htop m hm
    cases hheld : (numbered num n t c).find? held with
    | none =>
      have hnext : resume num held n top t c = some (num r) := by
        simp only [resume, hr, hheld, Option.map_some, Option.elim_none]
        rw [Option.filter_some, if_pos]
        simp only [Bool.and_eq_true, decide_eq_true_eq]
        omega
      exact ih _ (hc.next hnext) (by omega) hrm (by omega)
    | some p =>
      obtain ⟨hpt, hpc, -⟩ := (mem_numbered h).mp (List.mem_of_find?_eq_some hheld)
      have hpm := hfew p hpt (by omega) (List.find?_some hheld)
      -- the first row held does not open the page: too few rows are from it to `m`
      have hopens : ∃ x ∈ t, c < num x ∧ num x < num p := by
        by_contra hnone
        simp only [not_exists, not_and, not_lt] at hnone
        have hle : between num (c + 1) (num m) t ≤ between num (num p) (num m) t :=
          between_mono fun x hx hcx _ => hnone x hx (by omega)
        omega
      obtain ⟨x, -, hcx, hxp⟩ := hopens
      have hnext : resume num held n top t c = some (min (num r) (num p - 1)) := by
        simp only [resume, hr, hheld, Option.map_some, Option.elim_some]
        rw [Option.filter_some, if_pos]
        simp only [Bool.and_eq_true, decide_eq_true_eq]
        omega
      exact ih _ (hc.next hnext) (by omega) (by omega) (by omega)

/-- **Following the cursors** from `start` comes to a row exactly when fewer than a page
of rows are there from the first that is held up to it. -/
theorem reached_iff (h : Keyed num t) (hn : 0 < n) (htop : ∀ x ∈ t, num x ≤ top) (hm : m ∈ t)
    (hlt : start < num m) : (∃ c, Reached num held n top t start c ∧ m ∈ numbered num n t c) ↔
      ∀ p ∈ t, start < num p → held p = true → between num (num p) (num m) t < n := by
  constructor
  · rintro ⟨c, hc, hpage⟩ p hp hstart hheld
    have hcp := (hc.before_held h).2 p hp hstart hheld
    refine lt_of_le_of_lt (between_mono fun x _ hle _ => ?_) ((mem_numbered h).mp hpage).2.2
    omega
  · intro hfew
    exact Reached.comes_to h hn htop hm hfew _ start .first le_rfl hlt le_rfl

end Hold

end CrewSync.Paging
