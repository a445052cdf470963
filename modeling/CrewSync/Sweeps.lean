/-
`store/outbox.rs`: `release_published_bodies`, pass after pass.

`Release` has the steps of one sweep, for any mover beside it. Here a pass is run from
its first page to its last statement, and the passes are run one after the other, with
nothing else at work: what changes is the time, the bodies the passes clear, and
nothing besides.

A pass gives up after `RELEASE_BATCH` bodies or `SCAN_LIMIT` rows, and the next one
starts again with the oldest row. The rows that stay in front are therefore asked about
by every pass, and as soon as they are `SCAN_LIMIT` nothing behind them is come to. A
backend that fails for one of them is not asked again in the pass either, and it fails
at the same row in the next.
-/
import Mathlib.Data.List.Forall2
import Mathlib.Data.List.Perm.Subperm
import Mathlib.Order.OrderIsoNat
import CrewSync.Release

set_option autoImplicit false

namespace CrewSync.Sweeps

open Error Schema Rows History Release

/-! ## A pass -/

/-- The backends, for as long as they stay the same: which of them open, and what they
answer when they are asked for a body. -/
structure Backends where
  opens : Backend → Uuid → Bool
  fetch : Backend → Uuid → Locator → Uuid → BusResult (Option String)

/-- `for_message`, and `fetch` on what it opened. -/
def Backends.answer (b : Backends) (c : Candidate) : Fetched :=
  if b.opens c.backend c.team_id then fetched_of (b.fetch c.backend c.team_id c.locator c.message_id)
  else .unopened

section Pass

variable (sha256 : String → String) (b : Backends)

/-- One turn of the two loops: a candidate of the page, or the next page. -/
def turn (now : ℕ) (db : Db) (s : Sweep) : Sweep :=
  match s.page with
  | [] => (scan now db s).getD s
  | c :: _ => (told sha256 (b.answer c) s).getD s

/-- The sweep after `n` turns. A page that is read on turn `i` is read at `now i`. -/
def turns (conversation : Option Uuid) (min_age_secs : ℤ) (now : ℕ → ℕ) (db : Db) : ℕ → Sweep
  | 0 => Sweep.new conversation min_age_secs
  | n + 1 => turn sha256 b (now n) db (turns conversation min_age_secs now db n)

/-- More turns than any pass takes (`turns_done`). -/
def TURNS : ℕ := 2 * (SCAN_LIMIT + PAGE)

/-- The scan of a pass. -/
def scanned (conversation : Option Uuid) (min_age_secs : ℤ) (now : ℕ → ℕ) (db : Db) : Sweep :=
  turns sha256 b conversation min_age_secs now db TURNS

/-- `release_published_bodies`: how many bodies it cleared, and what is left. `reachable`
is what `broker_reachable` answers. -/
def release_published_bodies (reachable : Option Bool) (conversation : Option Uuid) (min_age_secs : ℤ)
    (now : ℕ → ℕ) (db : Db) : ℕ × Db :=
  match reachable with
  | some true =>
    let s := scanned sha256 b conversation min_age_secs now db
    if s.confirmed.isEmpty then (0, db)
    else (db.conversation_messages.countP (is_cleared s.confirmed db), (clear s db).getD db)
  | some false => (0, db)
  | none => (0, db)

/-- What `n` passes leave. The pages of pass `i` are read at the moments `now i`. -/
def passes (reachable : Option Bool) (conversation : Option Uuid) (min_age_secs : ℤ) (now : ℕ → ℕ → ℕ)
    (db : Db) : ℕ → Db
  | 0 => db
  | n + 1 =>
    (release_published_bodies sha256 b reachable conversation min_age_secs (now n)
      (passes reachable conversation min_age_secs now db n)).2

/-- The backend returns the body of the recorded digest. -/
def confirms (c : Candidate) : Bool :=
  match b.answer c with
  | .found body => sha256 body == c.digest
  | _ => false

/-- The backend does not open, or its answer is an error. -/
def fails (c : Candidate) : Bool :=
  match b.answer c with
  | .unopened | .unreadable => true
  | _ => false

/-- The candidate was asked about on turn `i`: it was at hand, and its backend had not failed. -/
def asked (conversation : Option Uuid) (min_age_secs : ℤ) (now : ℕ → ℕ) (db : Db) (i : ℕ)
    (c : Candidate) : Prop :=
  (turns sha256 b conversation min_age_secs now db i).page.head? = some c ∧
    (c.backend, c.team_id) ∉ (turns sha256 b conversation min_age_secs now db i).unusable

end Pass

/-! ## What waits -/

/-- Every body that waits for its confirmation, of whatever age. -/
def queue (conversation : Option Uuid) (db : Db) : List Candidate :=
  (db.conversation_messages.filter fun m => conversation.all fun id => m.conversation_id == id).filterMap
    (candidate db)

/-- `m.created_at <= now() - make_interval(secs => $2)`. -/
def is_old (min_age_secs : ℤ) (now : ℕ) (c : Candidate) : Prop :=
  (c.created_at : ℤ) + 1000000 * min_age_secs ≤ now

/-- `earlier`, for two rows. -/
def before (x y : Candidate) : Prop :=
  x.created_at < y.created_at ∨ x.created_at = y.created_at ∧ x.message_id < y.message_id

instance (x y : Candidate) : Decidable (before x y) := inferInstanceAs (Decidable (_ ∨ _))

/-- One backend of one team. -/
def same_backend (x y : Candidate) : Prop := x.backend = y.backend ∧ x.team_id = y.team_id

instance (x y : Candidate) : Decidable (same_backend x y) := inferInstanceAs (Decidable (_ ∧ _))

/-- `UPDATE conversation_messages SET body = ''`. -/
def blank (m : ConversationMessage) : ConversationMessage := { m with body := "" }

/-! ## What is asked of the passes -/

section Law

variable (sha256 : String → String) (b : Backends) (reachable : Option Bool) (conversation : Option Uuid)
  (min_age_secs : ℤ) (db : Db)

/-- A pass from `db` at the moments `now` clears only what a backend returned in it. -/
def only_confirmed (now : ℕ → ℕ) (db : Db) : Prop :=
  let db' := (release_published_bodies sha256 b reachable conversation min_age_secs now db).2
  db' = { db with conversation_messages := db'.conversation_messages } ∧
    List.Forall₂ (fun m m' => m' = m ∨ m' = blank m ∧ ∃ c i body, candidate db m = some c ∧
        asked sha256 b conversation min_age_secs now db i c ∧ b.answer c = .found body ∧
        m.body_sha256 = some (sha256 body))
      db.conversation_messages db'.conversation_messages

/-- Some number of passes clears the body of `m`. -/
def comes_to (now : ℕ → ℕ → ℕ) (m : ConversationMessage) : Prop :=
  ∃ n, blank m ∈ (passes sha256 b reachable conversation min_age_secs now db n).conversation_messages

/-- **Exactly what is confirmed**: no pass clears anything else, and whatever is
confirmed and old from some pass on is cleared in the end. -/
structure Releases : Prop where
  only : ∀ (now : ℕ → ℕ → ℕ) (n : ℕ), only_confirmed sha256 b reachable conversation min_age_secs (now n)
    (passes sha256 b reachable conversation min_age_secs now db n)
  every : ∀ (now : ℕ → ℕ → ℕ), ∀ m ∈ db.conversation_messages, ∀ c, candidate db m = some c →
    c ∈ queue conversation db → confirms sha256 b c = true →
    (∃ n₀, ∀ n, n₀ ≤ n → ∀ i, is_old min_age_secs (now n i) c) →
    comes_to sha256 b reachable conversation min_age_secs db now m

/-- The earlier rows that are asked about by every pass. -/
def ahead (c : Candidate) : List Candidate :=
  (queue conversation db).filter fun x => decide (before x c) && !confirms sha256 b x

/-- A confirmed body is come to. -/
def Reaches (c : Candidate) : Prop :=
  reachable = some true ∧
    (∀ x ∈ queue conversation db, before x c → same_backend x c → fails b x = false) ∧
    (ahead sha256 b conversation db c).length < SCAN_LIMIT

instance (c : Candidate) : Decidable (Reaches sha256 b reachable conversation db c) :=
  inferInstanceAs (Decidable (_ ∧ _))

end Law

/-! ## The order -/

theorem before_irrefl (x : Candidate) : ¬ before x x := by
  unfold before Uuid
  omega

theorem before_asymm {x y : Candidate} (h : before x y) : ¬ before y x := by
  unfold before Uuid at *
  omega

theorem before_trans {x y z : Candidate} (h : before x y) (h' : before y z) : before x z := by
  unfold before Uuid at *
  omega

/-! ## Candidates -/

section Queue

variable {conversation : Option Uuid} {db : Db} {c : Candidate}

theorem candidate_eq {m : ConversationMessage} (h : candidate db m = some c) :
    (∃ t ∈ db.conversations, is_releasable db m t = true) ∧ c.message_id = m.id ∧
      c.created_at = m.created_at ∧ m.body_sha256 = some c.digest ∧ m.body ≠ "" := by
  simp only [candidate, Option.bind_eq_bind, Option.bind_eq_some_iff] at h
  obtain ⟨t, ht, locator, -, digest, hdigest, hc⟩ := h
  have hc := Option.some.inj hc
  have hrel := pos_of_one ht
  have hbody : m.body ≠ "" := by
    simp only [is_releasable, Bool.and_eq_true, bne_iff_ne] at hrel
    exact hrel.1.2
  refine ⟨⟨t, mem_of_one ht, hrel⟩, ?_, ?_, ?_, hbody⟩
  · rw [← hc]
  · rw [← hc]
  · rw [← hc]
    exact hdigest

theorem mem_queue : c ∈ queue conversation db ↔
    ∃ m ∈ db.conversation_messages, (conversation.all fun id => m.conversation_id == id) = true ∧
      candidate db m = some c := by
  unfold queue
  simp only [List.mem_filterMap, List.mem_filter, and_assoc]

variable (hkey : db.MessagesKeyed)

include hkey

/-- A message waits once. -/
theorem ids_nodup : (queue conversation db).Pairwise fun x y => x.message_id ≠ y.message_id := by
  have hids : db.conversation_messages.Pairwise fun m m' => m.id ≠ m'.id := List.pairwise_map.mp hkey
  unfold queue
  rw [List.pairwise_filterMap]
  refine (hids.sublist List.filter_sublist).imp ?_
  intro m m' hne x hx y hy
  rw [(candidate_eq hx).2.1, (candidate_eq hy).2.1]
  exact hne

theorem queue_eq {x y : Candidate} (hx : x ∈ queue conversation db) (hy : y ∈ queue conversation db)
    (h : x.message_id = y.message_id) : x = y := by
  obtain ⟨m, hm, -, hc⟩ := mem_queue.mp hx
  obtain ⟨m', hm', -, hc'⟩ := mem_queue.mp hy
  have hid : m.id = m'.id := by
    rw [← (candidate_eq hc).2.1, ← (candidate_eq hc').2.1]
    exact h
  have hsame := hkey.eq hm hm' hid
  rw [hsame, hc'] at hc
  exact (Option.some.inj hc).symm

end Queue

/-! ## A page -/

/-- The candidate comes after the cursor. -/
def is_after (cursor : Option (ℕ × Uuid)) (c : Candidate) : Prop :=
  ∀ k, cursor = some k → k.1 < c.created_at ∨ k.1 = c.created_at ∧ k.2 < c.message_id

/-- The rows a page is cut from. -/
def rows (now : ℕ) (s : Sweep) (db : Db) : List Candidate :=
  ((db.conversation_messages.filter (in_scope now s)).filterMap (candidate db)).insertionSort earlier

theorem page_eq (now : ℕ) (s : Sweep) (db : Db) : page now s db = (rows now s db).take PAGE := rfl

section Rows

variable {db : Db} {now : ℕ} {s : Sweep}

theorem mem_rows {c : Candidate} : c ∈ rows now s db ↔
    c ∈ queue s.conversation db ∧ is_old s.min_age_secs now c ∧ is_after s.cursor c := by
  unfold rows
  rw [List.mem_insertionSort, List.mem_filterMap, mem_queue]
  constructor
  · rintro ⟨m, hm, hc⟩
    obtain ⟨hm, hscope⟩ := List.mem_filter.mp hm
    obtain ⟨-, hid, hat, -⟩ := candidate_eq hc
    simp only [in_scope, Bool.and_eq_true, decide_eq_true_eq, after_cursor, Option.all_eq_true,
      Bool.or_eq_true, beq_iff_eq] at hscope
    obtain ⟨⟨hconv, hold⟩, hafter⟩ := hscope
    refine ⟨⟨m, hm, ?_, hc⟩, ?_, ?_⟩
    · simpa only [Option.all_eq_true, beq_iff_eq] using hconv
    · unfold is_old
      rw [hat]
      exact hold
    · intro k hk
      rw [hat, hid]
      exact hafter k hk
  · rintro ⟨⟨m, hm, hconv, hc⟩, hold, hafter⟩
    obtain ⟨-, hid, hat, -⟩ := candidate_eq hc
    refine ⟨m, List.mem_filter.mpr ⟨hm, ?_⟩, hc⟩
    simp only [in_scope, Bool.and_eq_true, decide_eq_true_eq, after_cursor, Option.all_eq_true,
      Bool.or_eq_true, beq_iff_eq]
    refine ⟨⟨?_, ?_⟩, ?_⟩
    · simpa only [Option.all_eq_true, beq_iff_eq] using hconv
    · unfold is_old at hold
      rw [hat] at hold
      exact hold
    · intro k hk
      have hk := hafter k hk
      rw [hat, hid] at hk
      exact hk

/-- They are in order, and no message is among them twice. -/
theorem pairwise_rows (hkey : db.MessagesKeyed) : (rows now s db).Pairwise before := by
  have : Std.Total earlier := ⟨fun x y => by unfold earlier Uuid; omega⟩
  have : IsTrans Candidate earlier := ⟨fun x y z => by unfold earlier Uuid; omega⟩
  have hsorted : (rows now s db).Pairwise earlier := List.pairwise_insertionSort _ _
  have hids : db.conversation_messages.Pairwise fun m m' => m.id ≠ m'.id := List.pairwise_map.mp hkey
  have hne : (rows now s db).Pairwise fun x y => x.message_id ≠ y.message_id := by
    have hperm := List.perm_insertionSort earlier
      ((db.conversation_messages.filter (in_scope now s)).filterMap (candidate db))
    refine (hperm.pairwise_iff fun h => h.symm).mpr ?_
    rw [List.pairwise_filterMap]
    refine (hids.sublist List.filter_sublist).imp ?_
    intro m m' hne x hx y hy
    rw [(candidate_eq hx).2.1, (candidate_eq hy).2.1]
    exact hne
  refine hsorted.imp₂ ?_ hne
  intro x y hle hne
  unfold earlier Uuid at *
  unfold before Uuid
  omega

end Rows

/-! ## What a turn does -/

section Turn

variable {sha256 : String → String} {b : Backends} {now : ℕ} {db : Db} {s : Sweep}

/-- The candidate `c` at hand is done with, the rest of its page is not. -/
def advance (s : Sweep) (c : Candidate) (left : List Candidate) (unusable : List (Backend × Uuid))
    (confirmed : List Uuid) : Sweep :=
  { s with
    cursor := some (c.created_at, c.message_id), examined := s.examined + 1, page := left,
    unusable := unusable, confirmed := confirmed }

/-- The scan is over. -/
def is_done (s : Sweep) : Prop := s.page = [] ∧ s.scanning = false

/-- A turn on the candidate `c`, in the middle of a page: it is asked about unless its
backend has failed, and the limits are looked at unless its backend does not open. -/
theorem turn_told (sha256 : String → String) (b : Backends) (now : ℕ) (db : Db) {c : Candidate}
    {left : List Candidate} (hpage : s.page = c :: left) :
    ∃ unusable confirmed,
      (∀ k, k ∈ unusable ↔ k ∈ s.unusable ∨ fails b c = true ∧ (c.backend, c.team_id) = k) ∧
      (∀ id, id ∈ confirmed ↔ id ∈ s.confirmed ∨
        id = c.message_id ∧ confirms sha256 b c = true ∧ (c.backend, c.team_id) ∉ s.unusable) ∧
      (turn sha256 b now db s = advance s c left unusable confirmed ∨
        turn sha256 b now db s = (advance s c left unusable confirmed).next) := by
  simp only [turn, told, hpage]
  by_cases hin : (c.backend, c.team_id) ∈ s.unusable
  · refine ⟨s.unusable, s.confirmed, ?_, ?_, Or.inl ?_⟩
    · intro k
      constructor
      · exact Or.inl
      · rintro (hk | ⟨-, rfl⟩)
        · exact hk
        · exact hin
    · intro id
      simp [hin]
    · rw [if_pos (List.contains_iff_mem.mpr hin)]
      rfl
  · rw [if_neg (by rw [List.contains_iff_mem]; exact hin)]
    cases hans : b.answer c with
    | unopened =>
      refine ⟨(c.backend, c.team_id) :: s.unusable, s.confirmed, ?_, ?_, Or.inl rfl⟩
      · intro k
        simp [fails, hans, or_comm, eq_comm]
      · intro id
        simp [confirms, hans]
    | unreadable =>
      refine ⟨(c.backend, c.team_id) :: s.unusable, s.confirmed, ?_, ?_, Or.inr rfl⟩
      · intro k
        simp [fails, hans, or_comm, eq_comm]
      · intro id
        simp [confirms, hans]
    | gone =>
      refine ⟨s.unusable, s.confirmed, ?_, ?_, Or.inr rfl⟩
      · intro k
        simp [fails, hans]
      · intro id
        simp [confirms, hans]
    | found body =>
      by_cases hbody : sha256 body = c.digest
      · refine ⟨s.unusable, s.confirmed ++ [c.message_id], ?_, ?_, Or.inr ?_⟩
        · intro k
          simp [fails, hans]
        · intro id
          simp [confirms, hans, hbody, hin]
        · simp only [if_pos hbody]
          rfl
      · refine ⟨s.unusable, s.confirmed, ?_, ?_, Or.inr ?_⟩
        · intro k
          simp [fails, hans]
        · intro id
          simp [confirms, hans, hbody]
        · simp only [if_neg hbody]
          rfl

/-- A turn that reads a page. -/
theorem turn_scan (hpage : s.page = []) (hscan : s.scanning = true) :
    turn sha256 b now db s =
      { s with page := page now s db, scanned := (page now s db).isEmpty } := by
  simp [turn, scan, hpage, hscan]

/-- Nothing comes after the end. -/
theorem turn_done (h : is_done s) : turn sha256 b now db s = s := by
  simp [turn, scan, h.1, h.2]

theorem next_cases (s : Sweep) : s.next = s ∨ (RELEASE_BATCH ≤ s.confirmed.length ∨ SCAN_LIMIT ≤ s.examined) ∧
      s.next = { s with page := [], scanned := true } := by
  unfold Sweep.next
  by_cases h : RELEASE_BATCH ≤ s.confirmed.length ∨ SCAN_LIMIT ≤ s.examined
  · rw [if_pos h]
    exact Or.inr ⟨h, rfl⟩
  · rw [if_neg h]
    exact Or.inl rfl

end Turn

/-! ## A pass under way -/

/-- The candidate is old whenever a page of the pass is read. -/
def always_old (min_age_secs : ℤ) (now : ℕ → ℕ) (c : Candidate) : Prop :=
  ∀ i, is_old min_age_secs (now i) c

/-- The scan is at `s`, and has the candidates `seen` behind it. -/
structure Past (sha256 : String → String) (b : Backends) (conversation : Option Uuid) (min_age_secs : ℤ)
    (now : ℕ → ℕ) (db : Db) (s : Sweep) (seen : List Candidate) : Prop where
  scope : s.conversation = conversation ∧ s.min_age_secs = min_age_secs
  waits : ∀ c ∈ seen ++ s.page, c ∈ queue conversation db
  sorted : (seen ++ s.page).Pairwise before
  examined : s.examined = seen.length
  cursor : s.cursor = seen.getLast?.map fun c => (c.created_at, c.message_id)
  none_missed : ∀ c ∈ queue conversation db, always_old min_age_secs now c →
    c ∈ seen ++ s.page ∨ ∀ x ∈ seen ++ s.page, before x c
  unusable : ∀ k, k ∈ s.unusable ↔ ∃ x ∈ seen, fails b x = true ∧ (x.backend, x.team_id) = k
  sound : ∀ id ∈ s.confirmed, ∃ c ∈ seen, c.message_id = id ∧ confirms sha256 b c = true ∧
    ∀ x ∈ seen, before x c → same_backend x c → fails b x = false
  complete : ∀ c ∈ seen, confirms sha256 b c = true → c.message_id ∈ s.confirmed ∨
    ∃ x ∈ seen, before x c ∧ same_backend x c ∧ fails b x = true
  room : s.examined + s.page.length < SCAN_LIMIT + PAGE
  ended : s.scanned = true → s.page = [] ∧ (SCAN_LIMIT ≤ s.examined ∨ RELEASE_BATCH ≤ s.confirmed.length ∨
    ∀ c ∈ queue conversation db, always_old min_age_secs now c → c ∈ seen)

section Past

variable {sha256 : String → String} {b : Backends} {conversation : Option Uuid} {min_age_secs : ℤ}
  {now : ℕ → ℕ} {db : Db} {s : Sweep} {seen : List Candidate} {c : Candidate}

theorem Past.new : Past sha256 b conversation min_age_secs now db (Sweep.new conversation min_age_secs) [] := by
  refine ⟨⟨rfl, rfl⟩, ?_, .nil, rfl, rfl, ?_, ?_, ?_, ?_, ?_, ?_⟩
  · intro c hc
    exact absurd hc List.not_mem_nil
  · intro c _ _
    exact Or.inr fun x hx => absurd hx List.not_mem_nil
  · intro k
    simp [Sweep.new]
  · intro id hid
    exact absurd hid List.not_mem_nil
  · intro c hc
    exact absurd hc List.not_mem_nil
  · show 0 + 0 < SCAN_LIMIT + PAGE
    decide
  · intro h
    exact absurd h (by simp [Sweep.new])

variable (h : Past sha256 b conversation min_age_secs now db s seen)
include h

/-- What is behind the cursor, and what is not. -/
theorem Past.is_after :
    is_after s.cursor c ↔ ∀ x ∈ seen, before x c := by
  have hsorted := (List.pairwise_append.mp h.sorted).1
  unfold Sweeps.is_after
  rw [h.cursor]
  cases hlast : seen.getLast? with
  | none =>
    rw [List.getLast?_eq_none_iff.mp hlast]
    simp
  | some l =>
    obtain ⟨init, hinit⟩ := List.getLast?_eq_some_iff.mp hlast
    rw [hinit] at hsorted ⊢
    simp only [Option.map_some, Option.some.injEq, forall_eq']
    constructor
    · intro hl x hx
      rcases List.mem_append.mp hx with hx | hx
      · have hxl := (List.pairwise_append.mp hsorted).2.2 x hx l (List.mem_singleton.mpr rfl)
        exact before_trans hxl hl
      · rw [List.mem_singleton.mp hx]
        exact hl
    · intro hall
      exact hall l (List.mem_append_right _ (List.mem_singleton.mpr rfl))

/-- The candidate at hand joins those behind. -/
theorem Past.advance {left : List Candidate} (hpage : s.page = c :: left) {unusable : List (Backend × Uuid)} {confirmed : List Uuid}
    (hun : ∀ k, k ∈ unusable ↔ k ∈ s.unusable ∨ fails b c = true ∧ (c.backend, c.team_id) = k)
    (hconf : ∀ id, id ∈ confirmed ↔ id ∈ s.confirmed ∨
      id = c.message_id ∧ confirms sha256 b c = true ∧ (c.backend, c.team_id) ∉ s.unusable) :
    Past sha256 b conversation min_age_secs now db (advance s c left unusable confirmed) (seen ++ [c]) := by
  have hall : (seen ++ [c]) ++ left = seen ++ s.page := by
    rw [hpage, List.append_assoc, List.singleton_append]
  -- everything behind came earlier in the queue
  have hlt : ∀ x ∈ seen, before x c := by
    intro x hx
    exact (List.pairwise_append.mp h.sorted).2.2 x hx c (by rw [hpage]; exact List.mem_cons_self)
  have hunseen : (c.backend, c.team_id) ∈ s.unusable ↔ ∃ x ∈ seen, same_backend x c ∧ fails b x = true := by
    rw [h.unusable]
    simp only [Prod.mk.injEq, same_backend]
    constructor
    · rintro ⟨x, hx, hf, hk⟩
      exact ⟨x, hx, hk, hf⟩
    · rintro ⟨x, hx, hk, hf⟩
      exact ⟨x, hx, hf, hk⟩
  refine ⟨h.scope, ?_, ?_, ?_, ?_, ?_, ?_, ?_, ?_, ?_, ?_⟩
  · show ∀ x ∈ (seen ++ [c]) ++ left, _
    rw [hall]
    exact h.waits
  · show ((seen ++ [c]) ++ left).Pairwise before
    rw [hall]
    exact h.sorted
  · show s.examined + 1 = (seen ++ [c]).length
    rw [h.examined, List.length_append, List.length_singleton]
  · show some (c.created_at, c.message_id) = _
    rw [List.getLast?_append, List.getLast?_singleton]
    rfl
  · show ∀ x ∈ queue conversation db, always_old min_age_secs now x →
      x ∈ (seen ++ [c]) ++ left ∨ ∀ y ∈ (seen ++ [c]) ++ left, before y x
    rw [hall]
    exact h.none_missed
  · intro k
    show k ∈ unusable ↔ _
    rw [hun, h.unusable]
    simp only [List.mem_append, List.mem_singleton, or_and_right, exists_or, exists_eq_left]
  · intro id hid
    rcases (hconf id).mp hid with hid | ⟨rfl, hc, hfree⟩
    · obtain ⟨x, hx, hxid, hxc, hbefore⟩ := h.sound id hid
      refine ⟨x, List.mem_append_left _ hx, hxid, hxc, ?_⟩
      intro y hy hyx hsame
      rcases List.mem_append.mp hy with hy | hy
      · exact hbefore y hy hyx hsame
      · rw [List.mem_singleton.mp hy] at hyx
        exact absurd hyx (before_asymm (hlt x hx))
    · refine ⟨c, List.mem_append_right _ (List.mem_singleton.mpr rfl), rfl, hc, ?_⟩
      intro y hy hyc hsame
      rcases List.mem_append.mp hy with hy | hy
      · rw [← Bool.not_eq_true]
        intro hf
        exact hfree (hunseen.mpr ⟨y, hy, hsame, hf⟩)
      · rw [List.mem_singleton.mp hy] at hyc
        exact absurd hyc (before_irrefl c)
  · intro x hx hxc
    rcases List.mem_append.mp hx with hx | hx
    · rcases h.complete x hx hxc with hin | ⟨y, hy, hfail⟩
      · exact Or.inl ((hconf _).mpr (Or.inl hin))
      · exact Or.inr ⟨y, List.mem_append_left _ hy, hfail⟩
    · rw [List.mem_singleton.mp hx] at hxc ⊢
      by_cases hfree : (c.backend, c.team_id) ∈ s.unusable
      · obtain ⟨y, hy, hsame, hf⟩ := hunseen.mp hfree
        exact Or.inr ⟨y, List.mem_append_left _ hy, hlt y hy, hsame, hf⟩
      · exact Or.inl ((hconf _).mpr (Or.inr ⟨rfl, hxc, hfree⟩))
  · show s.examined + 1 + left.length < SCAN_LIMIT + PAGE
    have hroom := h.room
    rw [hpage, List.length_cons] at hroom
    omega
  · intro hscanned
    have hnil := (h.ended hscanned).1
    rw [hpage] at hnil
    cases hnil

/-- The limits are looked at. -/
theorem Past.next :
    Past sha256 b conversation min_age_secs now db s.next seen := by
  rcases next_cases s with hsame | ⟨hlimit, hnext⟩
  · rw [hsame]
    exact h
  rw [hnext]
  refine ⟨h.scope, ?_, ?_, h.examined, h.cursor, ?_, h.unusable, h.sound, h.complete, ?_, ?_⟩
  · intro c hc
    exact h.waits c (List.mem_append_left _ (by simpa using hc))
  · simpa using (List.pairwise_append.mp h.sorted).1
  · intro c hc hold
    simp only [List.append_nil]
    rcases h.none_missed c hc hold with hin | hlast
    · rcases List.mem_append.mp hin with hin | hin
      · exact Or.inl hin
      · -- what is left of the page comes after all that is behind
        exact Or.inr fun x hx => (List.pairwise_append.mp h.sorted).2.2 x hx c hin
    · exact Or.inr fun x hx => hlast x (List.mem_append_left _ hx)
  · have hroom := h.room
    simp only [List.length_nil]
    omega
  · intro _
    refine ⟨rfl, ?_⟩
    rcases hlimit with hlimit | hlimit
    · exact Or.inr (Or.inl hlimit)
    · exact Or.inl hlimit

/-- A page is read. -/
theorem Past.scan (hkey : db.MessagesKeyed) (hpage : s.page = []) (hscan : s.scanning = true) (i : ℕ) :
    Past sha256 b conversation min_age_secs now db
      { s with page := page (now i) s db, scanned := (page (now i) s db).isEmpty } seen := by
  have hsorted := (List.pairwise_append.mp h.sorted).1
  have hrows : (rows (now i) s db).Pairwise before := pairwise_rows hkey
  have hmem : ∀ c, c ∈ rows (now i) s db ↔
      c ∈ queue conversation db ∧ is_old min_age_secs (now i) c ∧ ∀ x ∈ seen, before x c := by
    intro c
    rw [mem_rows, h.scope.1, h.scope.2, h.is_after]
  have hcut : ∀ c ∈ page (now i) s db, c ∈ rows (now i) s db := fun c hc => List.mem_of_mem_take hc
  have hmissed : ∀ c ∈ queue conversation db, always_old min_age_secs now c →
      c ∈ seen ++ page (now i) s db ∨ ∀ x ∈ seen ++ page (now i) s db, before x c := by
    intro c hc hold
    by_cases hseen : c ∈ seen
    · exact Or.inl (List.mem_append_left _ hseen)
    have hlast : ∀ x ∈ seen, before x c := by
      rcases h.none_missed c hc hold with hin | hlast
      · rw [hpage, List.append_nil] at hin
        exact absurd hin hseen
      · exact fun x hx => hlast x (List.mem_append_left _ hx)
    -- it is among the rows, on the page or after it
    have hin := (hmem c).mpr ⟨hc, hold i, hlast⟩
    rw [← List.take_append_drop PAGE (rows (now i) s db)] at hin hrows
    rcases List.mem_append.mp hin with hin | hin
    · exact Or.inl (List.mem_append_right _ hin)
    · right
      intro x hx
      rcases List.mem_append.mp hx with hx | hx
      · exact hlast x hx
      · exact (List.pairwise_append.mp hrows).2.2 x hx c hin
  refine ⟨h.scope, ?_, ?_, h.examined, h.cursor, hmissed, h.unusable, h.sound, h.complete, ?_, ?_⟩
  · intro c hc
    rcases List.mem_append.mp hc with hc | hc
    · exact h.waits c (List.mem_append_left _ hc)
    · exact ((hmem c).mp (hcut c hc)).1
  · refine List.pairwise_append.mpr ⟨hsorted, hrows.sublist (List.take_sublist _ _), ?_⟩
    intro x hx c hc
    exact ((hmem c).mp (hcut c hc)).2.2 x hx
  · have hlen : (page (now i) s db).length ≤ PAGE := by
      rw [page_eq, List.length_take]
      omega
    simp only [Sweep.scanning, Bool.and_eq_true, decide_eq_true_eq] at hscan
    have hlimit := hscan.1.2
    show s.examined + (page (now i) s db).length < SCAN_LIMIT + PAGE
    omega
  · intro hempty
    have hnil : page (now i) s db = [] := List.isEmpty_iff.mp hempty
    refine ⟨hnil, Or.inr (Or.inr ?_)⟩
    intro c hc hold
    by_contra hseen
    have hlast : ∀ x ∈ seen, before x c := by
      rcases hmissed c hc hold with hin | hlast
      · rw [hnil, List.append_nil] at hin
        exact absurd hin hseen
      · exact fun x hx => hlast x (List.mem_append_left _ hx)
    have hin := (hmem c).mpr ⟨hc, hold i, hlast⟩
    rw [page_eq, List.take_eq_nil_iff] at hnil
    rcases hnil with hzero | hnil
    · cases hzero
    · rw [hnil] at hin
      exact absurd hin List.not_mem_nil

/-- A turn of the scan: the candidate at hand, if there is one, joins those behind. -/
theorem Past.turn (hkey : db.MessagesKeyed) (i : ℕ) :
    Past sha256 b conversation min_age_secs now db (turn sha256 b (now i) db s) (seen ++ s.page.take 1) := by
  cases hpage : s.page with
  | nil =>
    rw [List.take_nil, List.append_nil]
    by_cases hscan : s.scanning = true
    · rw [turn_scan hpage hscan]
      exact h.scan hkey hpage hscan i
    · rw [turn_done ⟨hpage, by simpa using hscan⟩]
      exact h
  | cons c left =>
    obtain ⟨unusable, confirmed, hun, hconf, hturn | hturn⟩ := turn_told sha256 b (now i) db hpage
    · rw [hturn]
      exact h.advance hpage hun hconf
    · rw [hturn]
      exact (h.advance hpage hun hconf).next

omit h

variable (sha256 b conversation min_age_secs now)

theorem turns_past (hkey : db.MessagesKeyed) (n : ℕ) :
    ∃ seen, Past sha256 b conversation min_age_secs now db
      (turns sha256 b conversation min_age_secs now db n) seen := by
  induction n with
  | zero => exact ⟨[], .new⟩
  | succ n ih =>
    obtain ⟨seen, h⟩ := ih
    exact ⟨_, h.turn hkey n⟩

/-! ## The end of a pass -/

/-- How far the scan is: every row counts for the page it is on and for itself. -/
def spent (s : Sweep) : ℕ := 2 * s.examined + if s.page.isEmpty then 0 else 1

/-- A turn brings the scan on, or to its end. -/
theorem turn_spends (i : ℕ) (s : Sweep) :
    is_done (Sweeps.turn sha256 b (now i) db s) ∨ spent s < spent (Sweeps.turn sha256 b (now i) db s) := by
  cases hpage : s.page with
  | nil =>
    by_cases hscan : s.scanning = true
    · rw [turn_scan hpage hscan]
      by_cases hempty : page (now i) s db = []
      · left
        simp [is_done, Sweep.scanning, hempty]
      · right
        simp [spent, hpage, hempty]
    · have hdone : is_done s := ⟨hpage, by simpa using hscan⟩
      rw [turn_done hdone]
      exact Or.inl hdone
  | cons c left =>
    right
    obtain ⟨unusable, confirmed, -, -, hturn⟩ := turn_told sha256 b (now i) db hpage
    have hnow : spent s = 2 * s.examined + 1 := by
      simp [spent, hpage]
    have hexamined : (Sweeps.turn sha256 b (now i) db s).examined = s.examined + 1 := by
      rcases hturn with hturn | hturn
      · rw [hturn]
        rfl
      · rw [hturn]
        rcases next_cases (Sweeps.advance s c left unusable confirmed) with hnext | ⟨-, hnext⟩
        · rw [hnext]
          rfl
        · rw [hnext]
          rfl
    rw [hnow, spent, hexamined]
    omega

variable (db) in
theorem turns_spent (n : ℕ) : is_done (turns sha256 b conversation min_age_secs now db n) ∨
    n ≤ spent (turns sha256 b conversation min_age_secs now db n) := by
  induction n with
  | zero => exact Or.inr (Nat.zero_le _)
  | succ n ih =>
    show is_done (Sweeps.turn _ _ _ _ _) ∨ n + 1 ≤ spent (Sweeps.turn _ _ _ _ _)
    rcases ih with hdone | hle
    · rw [turn_done hdone]
      exact Or.inl hdone
    · rcases turn_spends sha256 b now n (turns sha256 b conversation min_age_secs now db n) with hdone | hlt
      · exact Or.inl hdone
      · exact Or.inr (by omega)

/-- Every pass comes to its end. -/
theorem turns_done (hkey : db.MessagesKeyed) :
    is_done (scanned sha256 b conversation min_age_secs now db) := by
  rcases turns_spent sha256 b conversation min_age_secs now db TURNS with hdone | hle
  · exact hdone
  obtain ⟨seen, h⟩ := turns_past sha256 b conversation min_age_secs now hkey TURNS
  exfalso
  have hroom := h.room
  have hturns : TURNS = 2 * (SCAN_LIMIT + PAGE) := rfl
  unfold spent at hle
  split at hle
  · omega
  · rename_i hpage
    rw [List.isEmpty_iff, ← List.length_eq_zero_iff] at hpage
    omega

/-- What a pass that came to its end has behind it. -/
theorem scanned_past (hkey : db.MessagesKeyed) :
    ∃ seen, Past sha256 b conversation min_age_secs now db
        (scanned sha256 b conversation min_age_secs now db) seen ∧
      (scanned sha256 b conversation min_age_secs now db).page = [] ∧
      (SCAN_LIMIT ≤ seen.length ∨
        RELEASE_BATCH ≤ (scanned sha256 b conversation min_age_secs now db).confirmed.length ∨
        ∀ c ∈ queue conversation db, always_old min_age_secs now c → c ∈ seen) := by
  obtain ⟨seen, h⟩ := turns_past sha256 b conversation min_age_secs now hkey TURNS
  obtain ⟨hpage, hstop⟩ := turns_done sha256 b conversation min_age_secs now hkey
  refine ⟨seen, h, hpage, ?_⟩
  have hexamined : (scanned sha256 b conversation min_age_secs now db).examined = seen.length := h.examined
  by_cases hscanned : (scanned sha256 b conversation min_age_secs now db).scanned = true
  · rw [← hexamined]
    exact (h.ended hscanned).2
  · simp only [Sweep.scanning, Bool.and_eq_false_iff, Bool.not_eq_false', decide_eq_false_iff_not] at hstop
    rcases hstop with (hstop | hstop) | hstop
    · exact absurd hstop hscanned
    · exact Or.inl (by omega)
    · exact Or.inr (Or.inl (by omega))

/-- A confirmation was asked for on some turn. -/
theorem turns_asked (hkey : db.MessagesKeyed) (n : ℕ) :
    ∀ id ∈ (turns sha256 b conversation min_age_secs now db n).confirmed,
      ∃ c ∈ queue conversation db, c.message_id = id ∧ confirms sha256 b c = true ∧
        ∃ i, asked sha256 b conversation min_age_secs now db i c := by
  induction n with
  | zero =>
    intro id hid
    exact absurd hid List.not_mem_nil
  | succ n ih =>
    intro id hid
    obtain ⟨seen, h⟩ := turns_past sha256 b conversation min_age_secs now hkey n
    have hid : id ∈ (Sweeps.turn sha256 b (now n) db
      (turns sha256 b conversation min_age_secs now db n)).confirmed := hid
    cases hpage : (turns sha256 b conversation min_age_secs now db n).page with
    | nil =>
      by_cases hscan : (turns sha256 b conversation min_age_secs now db n).scanning = true
      · rw [turn_scan hpage hscan] at hid
        exact ih id hid
      · rw [turn_done ⟨hpage, by simpa using hscan⟩] at hid
        exact ih id hid
    | cons c left =>
      obtain ⟨unusable, confirmed, -, hconf, hturn⟩ := turn_told sha256 b (now n) db hpage
      have hin : id ∈ confirmed := by
        rcases hturn with hturn | hturn
        · rw [hturn] at hid
          exact hid
        · rw [hturn] at hid
          rcases next_cases (Sweeps.advance (turns sha256 b conversation min_age_secs now db n) c left
            unusable confirmed) with hnext | ⟨-, hnext⟩
          · rw [hnext] at hid
            exact hid
          · rw [hnext] at hid
            exact hid
      rcases (hconf id).mp hin with hold | ⟨rfl, hc, hfree⟩
      · exact ih id hold
      · refine ⟨c, h.waits c ?_, rfl, hc, n, ?_, hfree⟩
        · rw [hpage]
          exact List.mem_append_right _ List.mem_cons_self
        · rw [hpage]
          rfl

end Past

/-! ## What a pass leaves -/

section Leaves

variable {conversation : Option Uuid} {db : Db}

/-- The database with some bodies cleared. -/
def cleared (p : ConversationMessage → Bool) (db : Db) : Db :=
  { db with conversation_messages := update p blank db.conversation_messages }

@[simp] theorem candidate_cleared (p : ConversationMessage → Bool) (m : ConversationMessage) :
    candidate (cleared p db) m = candidate db m := rfl

@[simp] theorem candidate_blank (m : ConversationMessage) : candidate db (blank m) = none := by
  have hnone : one (is_releasable db (blank m)) db.conversations = none := by
    rw [one_eq_none]
    intro t _
    simp [is_releasable, blank]
  simp [candidate, hnone]

theorem cleared_cleared (p q : ConversationMessage → Bool) :
    cleared q (cleared p db) = cleared (fun m => p m || q m) db := by
  simp only [cleared, update, List.map_map, Db.mk.injEq, true_and, and_true]
  refine List.map_congr_left fun m _ => ?_
  simp only [Function.comp]
  by_cases hm : p m = true
  · simp [hm, blank]
  · simp [hm]

/-- What waits after some bodies are cleared. -/
theorem mem_queue_cleared {p : ConversationMessage → Bool} {c : Candidate} :
    c ∈ queue conversation (cleared p db) ↔ ∃ m ∈ db.conversation_messages,
      (conversation.all fun id => m.conversation_id == id) = true ∧ candidate db m = some c ∧ p m = false := by
  rw [mem_queue]
  simp only [candidate_cleared]
  constructor
  · rintro ⟨m', hm', hconv, hc⟩
    obtain ⟨m, hm, rfl⟩ := mem_update.mp hm'
    by_cases hp : p m = true
    · rw [if_pos hp, candidate_blank] at hc
      cases hc
    · rw [if_neg hp] at hconv hc
      exact ⟨m, hm, hconv, hc, by simpa using hp⟩
  · rintro ⟨m, hm, hconv, hc, hp⟩
    exact ⟨m, mem_update_of_not hm hp, hconv, hc⟩

theorem keyed_cleared (hkey : db.MessagesKeyed) (p : ConversationMessage → Bool) :
    Keyed (fun m => m.id) (cleared p db).conversation_messages :=
  hkey.update fun _ => rfl

end Leaves

section Leaves

variable (sha256 : String → String) (b : Backends) (conversation : Option Uuid) (min_age_secs : ℤ)
  (now : ℕ → ℕ)

/-- The rows that a pass clears. -/
def clears (db : Db) (m : ConversationMessage) : Bool :=
  is_cleared (scanned sha256 b conversation min_age_secs now db).confirmed db m

variable {db : Db}

/-- A pass clears the rows it has confirmed, if the broker is there. -/
theorem pass_eq (hkey : db.MessagesKeyed) :
    (release_published_bodies sha256 b (some true) conversation min_age_secs now db).2 =
      cleared (clears sha256 b conversation min_age_secs now db) db := by
  have hdone := turns_done sha256 b conversation min_age_secs now hkey
  simp only [release_published_bodies]
  split
  · rename_i hempty
    have hnone : ∀ m ∈ db.conversation_messages, clears sha256 b conversation min_age_secs now db m = false := by
      intro m _
      rw [List.isEmpty_iff] at hempty
      simp [clears, is_cleared, hempty]
    unfold cleared
    rw [update_eq_self hnone]
  · have hclears : clears sha256 b conversation min_age_secs now db =
        is_cleared (scanned sha256 b conversation min_age_secs now db).confirmed db := by
      funext m
      unfold clears
      rfl
    rw [hclears]
    simp only [clear, hdone.1, hdone.2, List.isEmpty_nil, Bool.not_false, Bool.and_self, if_true,
      Option.getD_some]
    rfl

/-- A row that is cleared is one whose candidate was confirmed. -/
theorem clears_iff (hkey : db.MessagesKeyed) {m : ConversationMessage}
    (hm : m ∈ db.conversation_messages) : clears sha256 b conversation min_age_secs now db m = true ↔
      ∃ c ∈ queue conversation db, candidate db m = some c ∧
        c.message_id ∈ (scanned sha256 b conversation min_age_secs now db).confirmed := by
  unfold clears is_cleared
  rw [Bool.and_eq_true, List.contains_iff_mem]
  constructor
  · rintro ⟨hid, -⟩
    obtain ⟨c, hc, hcid, -⟩ := turns_asked sha256 b conversation min_age_secs now hkey TURNS m.id hid
    obtain ⟨m', hm', -, hcand⟩ := mem_queue.mp hc
    have hsame : m' = m := hkey.eq hm' hm ((candidate_eq hcand).2.1.symm.trans hcid)
    rw [hsame] at hcand
    exact ⟨c, hc, hcand, by rw [hcid]; exact hid⟩
  · rintro ⟨c, -, hcand, hid⟩
    obtain ⟨⟨t, ht, hrel⟩, hcid, -⟩ := candidate_eq hcand
    rw [hcid] at hid
    exact ⟨hid, List.any_eq_true.mpr ⟨t, ht, hrel⟩⟩

/-- What waits after a pass: all that waited and was not confirmed. -/
theorem mem_queue_pass (hkey : db.MessagesKeyed) {c : Candidate} :
    c ∈ queue conversation (release_published_bodies sha256 b (some true) conversation min_age_secs now db).2 ↔
      c ∈ queue conversation db ∧
        c.message_id ∉ (scanned sha256 b conversation min_age_secs now db).confirmed := by
  rw [pass_eq sha256 b conversation min_age_secs now hkey, mem_queue_cleared]
  constructor
  · rintro ⟨m, hm, hconv, hc, hp⟩
    have hq : c ∈ queue conversation db := mem_queue.mpr ⟨m, hm, hconv, hc⟩
    refine ⟨hq, fun hid => ?_⟩
    rw [(clears_iff sha256 b conversation min_age_secs now hkey hm).mpr ⟨c, hq, hc, hid⟩] at hp
    cases hp
  · rintro ⟨hq, hid⟩
    obtain ⟨m, hm, hconv, hc⟩ := mem_queue.mp hq
    refine ⟨m, hm, hconv, hc, ?_⟩
    rw [← Bool.not_eq_true, clears_iff sha256 b conversation min_age_secs now hkey hm]
    rintro ⟨x, -, hx, hxid⟩
    rw [hc] at hx
    rw [← Option.some.inj hx] at hxid
    exact hid hxid

/-- A pass clears nothing that no backend returned in it. -/
theorem pass_only (reachable : Option Bool) (hkey : db.MessagesKeyed) :
    only_confirmed sha256 b reachable conversation min_age_secs now db := by
  unfold only_confirmed
  match reachable with
  | none => exact ⟨rfl, List.forall₂_same.mpr fun m _ => Or.inl rfl⟩
  | some false => exact ⟨rfl, List.forall₂_same.mpr fun m _ => Or.inl rfl⟩
  | some true =>
    rw [pass_eq sha256 b conversation min_age_secs now hkey]
    refine ⟨rfl, ?_⟩
    unfold cleared update
    rw [List.forall₂_map_right_iff, List.forall₂_same]
    intro m hm
    by_cases hp : clears sha256 b conversation min_age_secs now db m = true
    · obtain ⟨c, hq, hc, hid⟩ := (clears_iff sha256 b conversation min_age_secs now hkey hm).mp hp
      obtain ⟨x, hx, hxid, hconf, i, hasked⟩ :=
        turns_asked sha256 b conversation min_age_secs now hkey TURNS c.message_id hid
      rw [queue_eq hkey hx hq hxid] at hconf hasked
      rw [if_pos hp]
      refine Or.inr ⟨rfl, c, i, ?_⟩
      unfold confirms at hconf
      split at hconf
      · rename_i body hbody
        rw [beq_iff_eq] at hconf
        refine ⟨body, hc, hasked, hbody, ?_⟩
        rw [hconf]
        exact (candidate_eq hc).2.2.2.1
      · cases hconf
    · rw [if_neg hp]
      exact Or.inl rfl

end Leaves

/-! ## Pass after pass -/

section Passes

variable (sha256 : String → String) (b : Backends) (reachable : Option Bool) (conversation : Option Uuid)
  (min_age_secs : ℤ) (now : ℕ → ℕ → ℕ) {db : Db} {c : Candidate}

/-- Passes leave every row where it was, with its body or without. -/
theorem passes_cleared (hkey : db.MessagesKeyed) (n : ℕ) :
    ∃ p, passes sha256 b reachable conversation min_age_secs now db n = cleared p db := by
  have hnone : db = cleared (fun _ => false) db := by
    unfold cleared
    rw [update_eq_self fun _ _ => rfl]
  induction n with
  | zero => exact ⟨_, hnone⟩
  | succ n ih =>
    obtain ⟨p, hp⟩ := ih
    rw [passes, hp]
    match reachable with
    | none => exact ⟨p, rfl⟩
    | some false => exact ⟨p, rfl⟩
    | some true =>
      rw [pass_eq sha256 b conversation min_age_secs (now n) (keyed_cleared hkey p), cleared_cleared]
      exact ⟨_, rfl⟩

theorem keyed_passes (hkey : db.MessagesKeyed) (n : ℕ) :
    Keyed (fun m => m.id) (passes sha256 b reachable conversation min_age_secs now db n).conversation_messages := by
  obtain ⟨p, hp⟩ := passes_cleared sha256 b reachable conversation min_age_secs now hkey n
  rw [hp]
  exact keyed_cleared hkey p

/-- What waits in the end has waited from the start. -/
theorem queue_passes (hkey : db.MessagesKeyed) (n : ℕ)
    (h : c ∈ queue conversation (passes sha256 b reachable conversation min_age_secs now db n)) :
    c ∈ queue conversation db := by
  obtain ⟨p, hp⟩ := passes_cleared sha256 b reachable conversation min_age_secs now hkey n
  rw [hp, mem_queue_cleared] at h
  obtain ⟨m, hm, hconv, hc, -⟩ := h
  exact mem_queue.mpr ⟨m, hm, hconv, hc⟩

/-- A body is come to when its candidate waits no more. -/
theorem comes_to_iff (hkey : db.MessagesKeyed) {m : ConversationMessage}
    (hm : m ∈ db.conversation_messages) (hc : candidate db m = some c) (hq : c ∈ queue conversation db) :
    comes_to sha256 b reachable conversation min_age_secs db now m ↔
      ∃ n, c ∉ queue conversation (passes sha256 b reachable conversation min_age_secs now db n) := by
  have hbody := (candidate_eq hc).2.2.2.2
  refine exists_congr fun n => ?_
  obtain ⟨p, hp⟩ := passes_cleared sha256 b reachable conversation min_age_secs now hkey n
  rw [hp, mem_queue_cleared]
  constructor
  · rintro hin ⟨m', hm', -, hc', hp'⟩
    obtain ⟨m₀, hm₀, heq⟩ := mem_update.mp hin
    have hid : m₀.id = m.id := by
      have hid := congrArg ConversationMessage.id heq
      split at hid
      · exact hid.symm
      · exact hid.symm
    have hsame : m' = m₀ := by
      refine hkey.eq hm' hm₀ ?_
      show m'.id = m₀.id
      rw [hid, ← (candidate_eq hc').2.1, ← (candidate_eq hc).2.1]
    rw [← hsame, if_neg (by rw [hp']; exact Bool.false_ne_true)] at heq
    have hsame' : m' = m := hkey.eq hm' hm (by rw [hsame]; exact hid)
    rw [hsame'] at heq
    exact hbody (congrArg ConversationMessage.body heq).symm
  · intro hnot
    obtain ⟨m', hm', hconv, hc'⟩ := mem_queue.mp hq
    have hsame : m' = m := by
      refine hkey.eq hm' hm ?_
      show m'.id = m.id
      rw [← (candidate_eq hc').2.1, ← (candidate_eq hc).2.1]
    rw [hsame] at hconv
    by_cases hpm : p m = true
    · exact mem_update_of_pos hm hpm
    · exact absurd ⟨m, hm, hconv, hc, by simpa using hpm⟩ hnot

/-! ## Bodies that are come to -/

section Reached

variable {sha256 : String → String} {b : Backends} {reachable : Option Bool} {conversation : Option Uuid}
  {min_age_secs : ℤ} {now : ℕ → ℕ → ℕ} {c : Candidate}

/-- While a body waits that is confirmed and old, a pass clears it or another. -/
theorem pass_progress {now : ℕ → ℕ} (hkey : db.MessagesKeyed)
    (hreaches : ∀ c ∈ queue conversation db, confirms sha256 b c = true →
      Reaches sha256 b reachable conversation db c) (hq : c ∈ queue conversation db) (hc :
    confirms sha256 b c = true) (hold : always_old min_age_secs now c) :
    ∃ x ∈ queue conversation db,
      x.message_id ∈ (scanned sha256 b conversation min_age_secs now db).confirmed := by
  obtain ⟨seen, hpast, hpage, hend⟩ := scanned_past sha256 b conversation min_age_secs now hkey
  have hwaits : ∀ x ∈ seen, x ∈ queue conversation db := fun x hx =>
    hpast.waits x (List.mem_append_left _ hx)
  -- nothing before a confirmed body has failed for its backend
  have hconfirmed : ∀ x ∈ seen, confirms sha256 b x = true →
      x.message_id ∈ (scanned sha256 b conversation min_age_secs now db).confirmed := by
    intro x hx hxc
    rcases hpast.complete x hx hxc with hin | ⟨y, hy, hyx, hsame, hfail⟩
    · exact hin
    · have hfine := (hreaches x (hwaits x hx) hxc).2.1 y (hwaits y hy) hyx hsame
      rw [hfine] at hfail
      cases hfail
  by_cases hseen : c ∈ seen
  · exact ⟨c, hq, hconfirmed c hseen hc⟩
  rcases hend with hscan | hbatch | hall
  · -- as many rows are behind as a pass may look at, all of them before `c`
    have hbefore : ∀ x ∈ seen, before x c := by
      rcases hpast.none_missed c hq hold with hin | hlast
      · rw [hpage, List.append_nil] at hin
        exact absurd hin hseen
      · exact fun x hx => hlast x (List.mem_append_left _ hx)
    by_contra hnone
    have hsub : seen ⊆ ahead sha256 b conversation db c := by
      intro x hx
      refine List.mem_filter.mpr ⟨hwaits x hx, ?_⟩
      have hnot : confirms sha256 b x = false := by
        rw [← Bool.not_eq_true]
        intro hxc
        exact hnone ⟨x, hwaits x hx, hconfirmed x hx hxc⟩
      simp [hbefore x hx, hnot]
    have hnodup : seen.Nodup := by
      refine (List.pairwise_append.mp hpast.sorted).1.imp ?_
      rintro x y hxy rfl
      exact before_irrefl x hxy
    have hle := (List.subperm_of_subset hnodup hsub).length_le
    have hlt := (hreaches c hq hc).2.2
    omega
  · -- a full batch is not empty
    have hne : (scanned sha256 b conversation min_age_secs now db).confirmed ≠ [] := by
      intro hnil
      rw [hnil] at hbatch
      cases hbatch
    obtain ⟨id, hid⟩ := List.exists_mem_of_ne_nil _ hne
    obtain ⟨x, hx, hxid, -⟩ := hpast.sound id hid
    exact ⟨x, hwaits x hx, by rw [hxid]; exact hid⟩
  · exact absurd (hall c hq hold) hseen

theorem queue_nodup (hkey : db.MessagesKeyed) : (queue conversation db).Nodup := by
  refine (ids_nodup hkey).imp ?_
  rintro x y hne rfl
  exact hne rfl

/-- A pass that clears a body leaves fewer. -/
theorem queue_shrinks {now : ℕ → ℕ} (hkey : db.MessagesKeyed) {x : Candidate} (hx : x ∈ queue conversation db)
    (hid : x.message_id ∈ (scanned sha256 b conversation min_age_secs now db).confirmed) : (queue conversation
      (release_published_bodies sha256 b (some true) conversation min_age_secs now db).2).length <
      (queue conversation db).length := by
  have hmem := fun c => mem_queue_pass sha256 b conversation min_age_secs now hkey (c := c)
  have hkeyed : Keyed (fun m => m.id)
      (release_published_bodies sha256 b (some true) conversation min_age_secs now db).2.conversation_messages := by
    rw [pass_eq sha256 b conversation min_age_secs now hkey]
    exact keyed_cleared hkey _
  have hgone : x ∉ queue conversation
      (release_published_bodies sha256 b (some true) conversation min_age_secs now db).2 := by
    rw [hmem]
    exact fun h => h.2 hid
  have hle := (List.subperm_of_subset (List.nodup_cons.mpr ⟨hgone, queue_nodup hkeyed⟩)
    (List.cons_subset.mpr ⟨hx, fun y hy => ((hmem y).mp hy).1⟩)).length_le
  rw [List.length_cons] at hle
  omega

/-- What is reached at the start is reached later. -/
theorem Reaches.mono {db' : Db} (hkey : db'.MessagesKeyed)
    (hsub : ∀ x ∈ queue conversation db', x ∈ queue conversation db)
    (h : Reaches sha256 b reachable conversation db c) : Reaches sha256 b reachable conversation db' c := by
  obtain ⟨hreach, hfine, hfew⟩ := h
  refine ⟨hreach, fun x hx => hfine x (hsub x hx), lt_of_le_of_lt ?_ hfew⟩
  refine (List.subperm_of_subset ((queue_nodup hkey).sublist List.filter_sublist) ?_).length_le
  intro x hx
  obtain ⟨hx, hp⟩ := List.mem_filter.mp hx
  exact List.mem_filter.mpr ⟨hsub x hx, hp⟩

/-- Where every confirmed body is reached, each of them is cleared in the end. -/
theorem cleared_of_reaches (hkey : db.MessagesKeyed)
    (hreaches : ∀ c ∈ queue conversation db, confirms sha256 b c = true →
      Reaches sha256 b reachable conversation db c) (hq : c ∈ queue conversation db) (hc :
    confirms sha256 b c = true) {n₀ : ℕ} (hold : ∀ n, n₀ ≤ n → always_old min_age_secs (now n) c) :
    ∃ n, c ∉ queue conversation (passes sha256 b reachable conversation min_age_secs now db n) := by
  by_contra hall
  simp only [not_exists, not_not] at hall
  obtain rfl : reachable = some true := (hreaches c hq hc).1
  -- every pass from `n₀` on leaves fewer bodies
  have hless : ∀ i, (queue conversation
        (passes sha256 b (some true) conversation min_age_secs now db (n₀ + (i + 1)))).length <
      (queue conversation (passes sha256 b (some true) conversation min_age_secs now db (n₀ + i))).length := by
    intro i
    have hkeyed := keyed_passes sha256 b (some true) conversation min_age_secs now hkey (n₀ + i)
    have hsub : ∀ x ∈ queue conversation (passes sha256 b (some true) conversation min_age_secs now db (n₀ + i)),
        x ∈ queue conversation db := fun x hx =>
      queue_passes sha256 b (some true) conversation min_age_secs now hkey _ hx
    obtain ⟨x, hx, hxid⟩ := pass_progress hkeyed
      (fun y hy hyc => (hreaches y (hsub y hy) hyc).mono hkeyed hsub) (hall (n₀ + i)) hc
      (hold (n₀ + i) (by omega))
    rw [← Nat.add_assoc, passes]
    exact queue_shrinks hkeyed hx hxid
  exact not_strictAnti_of_wellFoundedLT
    (fun i => (queue conversation
      (passes sha256 b (some true) conversation min_age_secs now db (n₀ + i))).length)
    (strictAnti_nat_of_succ_lt hless)

end Reached

end Passes

/-! ## Bodies that are not -/

section Even

variable {sha256 : String → String} {b : Backends} {conversation : Option Uuid} {min_age_secs : ℤ}
  {t : ℕ} {db : Db} {s : Sweep} {seen : List Candidate}

/-- While no row grows old in the middle of a pass, the pages are full up to the last,
and a pass looks at no more rows than it may. -/
structure Even (conversation : Option Uuid) (min_age_secs : ℤ) (t : ℕ) (db : Db) (s : Sweep)
    (seen : List Candidate) : Prop where
  within : s.examined + s.page.length ≤ SCAN_LIMIT
  full : s.scanned = false → PAGE ∣ s.examined + s.page.length ∨
    ∀ c ∈ queue conversation db, is_old min_age_secs t c → c ∈ seen ++ s.page

theorem Even.new : Even conversation min_age_secs t db (Sweep.new conversation min_age_secs) [] := by
  refine ⟨?_, fun _ => Or.inl ?_⟩
  · exact Nat.zero_le _
  · exact ⟨0, rfl⟩

theorem Even.next (h : Even conversation min_age_secs t db s seen) :
    Even conversation min_age_secs t db s.next seen := by
  rcases next_cases s with hsame | ⟨-, hnext⟩
  · rw [hsame]
    exact h
  · rw [hnext]
    refine ⟨?_, ?_⟩
    · have hwithin := h.within
      simp only [List.length_nil]
      omega
    · intro hscanned
      cases hscanned

theorem Even.scan (h : Even conversation min_age_secs t db s seen)
    (hpast : Past sha256 b conversation min_age_secs (fun _ => t) db s seen)
    (hpage : s.page = []) (hscan : s.scanning = true) :
    Even conversation min_age_secs t db
      { s with page := page t s db, scanned := (page t s db).isEmpty } seen := by
  simp only [Sweep.scanning, Bool.and_eq_true, Bool.not_eq_true', decide_eq_true_eq] at hscan
  obtain ⟨⟨hgoing, hlimit⟩, -⟩ := hscan
  have hmem : ∀ c, c ∈ rows t s db ↔
      c ∈ queue conversation db ∧ is_old min_age_secs t c ∧ ∀ x ∈ seen, before x c := by
    intro c
    rw [mem_rows, hpast.scope.1, hpast.scope.2, hpast.is_after]
  have hlen : (page t s db).length = min PAGE (rows t s db).length := by
    rw [page_eq, List.length_take]
  have hfull := h.full hgoing
  rw [hpage, List.length_nil, Nat.add_zero, List.append_nil] at hfull
  rcases hfull with hfull | hall
  · obtain ⟨k, hk⟩ := hfull
    -- the limit is a whole number of pages
    have hroom : s.examined + PAGE ≤ SCAN_LIMIT := by
      unfold PAGE SCAN_LIMIT at *
      omega
    refine ⟨?_, fun _ => ?_⟩
    · show s.examined + (page t s db).length ≤ SCAN_LIMIT
      omega
    · show PAGE ∣ s.examined + (page t s db).length ∨ _
      by_cases hshort : (rows t s db).length < PAGE
      · -- a page that is not full is the last one
        right
        intro c hc hold
        rcases hpast.none_missed c hc fun _ => hold with hin | hlast
        · rw [hpage, List.append_nil] at hin
          exact List.mem_append_left _ hin
        · refine List.mem_append_right _ ?_
          show c ∈ page t s db
          rw [page_eq, List.take_of_length_le (by omega), hmem]
          exact ⟨hc, hold, fun x hx => hlast x (List.mem_append_left _ hx)⟩
      · left
        exact ⟨k + 1, by rw [Nat.mul_succ]; omega⟩
  · have hnil : rows t s db = [] := by
      rw [List.eq_nil_iff_forall_not_mem]
      intro c hc
      obtain ⟨hq, hold, hafter⟩ := (hmem c).mp hc
      exact before_irrefl c (hafter c (hall c hq hold))
    rw [hnil, List.length_nil, Nat.min_zero] at hlen
    refine ⟨?_, fun _ => Or.inr ?_⟩
    · show s.examined + (page t s db).length ≤ SCAN_LIMIT
      omega
    · intro c hc hold
      exact List.mem_append_left _ (hall c hc hold)

theorem Even.turn (h : Even conversation min_age_secs t db s seen)
    (hpast : Past sha256 b conversation min_age_secs (fun _ => t) db s seen) :
    Even conversation min_age_secs t db (turn sha256 b t db s) (seen ++ s.page.take 1) := by
  cases hpage : s.page with
  | nil =>
    rw [List.take_nil, List.append_nil]
    by_cases hscan : s.scanning = true
    · rw [turn_scan hpage hscan]
      exact h.scan hpast hpage hscan
    · rw [turn_done ⟨hpage, by simpa using hscan⟩]
      exact h
  | cons c left =>
    obtain ⟨unusable, confirmed, -, -, hturn⟩ := turn_told sha256 b t db hpage
    have hadvance : Even conversation min_age_secs t db (advance s c left unusable confirmed)
        (seen ++ [c]) := by
      have hwithin := h.within
      have hfull := h.full
      rw [hpage, List.length_cons] at hwithin hfull
      refine ⟨?_, fun hgoing => ?_⟩
      · show s.examined + 1 + left.length ≤ SCAN_LIMIT
        omega
      · show PAGE ∣ s.examined + 1 + left.length ∨ ∀ x ∈ queue conversation db,
          is_old min_age_secs t x → x ∈ (seen ++ [c]) ++ left
        rw [List.append_assoc, List.singleton_append, Nat.add_assoc, Nat.add_comm 1]
        exact hfull hgoing
    rcases hturn with hturn | hturn
    · rw [hturn]
      exact hadvance
    · rw [hturn]
      exact hadvance.next

theorem turns_even (sha256 : String → String) (b : Backends) (conversation : Option Uuid) (min_age_secs : ℤ) (t : ℕ)
    (hkey : db.MessagesKeyed) (n : ℕ) :
    ∃ seen, Past sha256 b conversation min_age_secs (fun _ => t) db
        (turns sha256 b conversation min_age_secs (fun _ => t) db n) seen ∧
      Even conversation min_age_secs t db
        (turns sha256 b conversation min_age_secs (fun _ => t) db n) seen := by
  induction n with
  | zero => exact ⟨[], .new, .new⟩
  | succ n ih =>
    obtain ⟨seen, hpast, heven⟩ := ih
    exact ⟨_, hpast.turn hkey n, heven.turn hpast⟩

end Even

section Stays

variable {sha256 : String → String} {b : Backends} {reachable : Option Bool} {conversation : Option Uuid}
  {min_age_secs : ℤ} {db : Db} {now : ℕ → ℕ → ℕ} {c x : Candidate} {t : ℕ}

/-- There is a moment at which everything is old. -/
theorem exists_old (min_age_secs : ℤ) (l : List Candidate) : ∃ t : ℕ, ∀ c ∈ l, is_old min_age_secs t c := by
  induction l with
  | nil => exact ⟨0, fun c hc => absurd hc List.not_mem_nil⟩
  | cons x l ih =>
    obtain ⟨t, ht⟩ := ih
    refine ⟨t + ((x.created_at : ℤ) + 1000000 * min_age_secs).toNat, ?_⟩
    intro c hc
    rcases List.mem_cons.mp hc with rfl | hc
    · unfold is_old
      omega
    · have hold := ht c hc
      unfold is_old at *
      omega

/-- A body its backend does not confirm stays. -/
theorem not_confirmed {now : ℕ → ℕ} (hkey : db.MessagesKeyed)
    (hq : c ∈ queue conversation db) (hc : confirms sha256 b c = false) :
    c.message_id ∉ (scanned sha256 b conversation min_age_secs now db).confirmed := by
  intro hid
  obtain ⟨x, hx, hxid, hxc, -⟩ := turns_asked sha256 b conversation min_age_secs now hkey TURNS _ hid
  rw [queue_eq hkey hx hq hxid, hc] at hxc
  cases hxc

theorem confirms_eq_false (h : fails b x = true) : confirms sha256 b x = false := by
  unfold fails at h
  unfold confirms
  cases hans : b.answer x with
  | unopened => rfl
  | unreadable => rfl
  | found body | gone => simp [hans] at h

/-- A body stays behind one for which its backend fails. -/
theorem not_confirmed_of_fails {now : ℕ → ℕ} (hkey : db.MessagesKeyed)
    (hx : x ∈ queue conversation db) (hold : always_old min_age_secs now x)
    (hq : c ∈ queue conversation db) (hxc : before x c) (hsame : same_backend x c) (hfail : fails b x = true) :
    c.message_id ∉ (scanned sha256 b conversation min_age_secs now db).confirmed := by
  intro hid
  obtain ⟨seen, hpast, hpage, -⟩ := scanned_past sha256 b conversation min_age_secs now hkey
  obtain ⟨y, hy, hyid, -, hfine⟩ := hpast.sound _ hid
  have hyc : y = c := queue_eq hkey (hpast.waits y (List.mem_append_left _ hy)) hq hyid
  rw [hyc] at hy hfine
  rcases hpast.none_missed x hx hold with hin | hlast
  · rw [hpage, List.append_nil] at hin
    rw [hfine x hin hxc hsame] at hfail
    cases hfail
  · exact before_asymm hxc (hlast c (List.mem_append_left _ hy))

/-- A body stays behind as many as a pass looks at, if no row grows old in the meantime. -/
theorem not_confirmed_of_crowd (hkey : db.MessagesKeyed) (hold : ∀ x ∈ queue conversation db, is_old min_age_secs t x)
    (hq : c ∈ queue conversation db) {crowd : List Candidate} (hnodup : crowd.Nodup)
    (hcrowd : ∀ x ∈ crowd, x ∈ queue conversation db ∧ before x c) (hmany : SCAN_LIMIT ≤ crowd.length) :
    c.message_id ∉ (scanned sha256 b conversation min_age_secs (fun _ => t) db).confirmed := by
  intro hid
  obtain ⟨seen, hpast, heven⟩ := turns_even sha256 b conversation min_age_secs t hkey TURNS
  obtain ⟨y, hy, hyid, -⟩ := hpast.sound _ hid
  rw [queue_eq hkey (hpast.waits y (List.mem_append_left _ hy)) hq hyid] at hy
  -- everything before `c` is behind the scan with it
  have hsub : c :: crowd ⊆ seen := by
    intro x hx
    rcases List.mem_cons.mp hx with rfl | hx
    · exact hy
    · obtain ⟨hxq, hxc⟩ := hcrowd x hx
      rcases hpast.none_missed x hxq fun _ => hold x hxq with hin | hlast
      · rcases List.mem_append.mp hin with hin | hin
        · exact hin
        · exact absurd ((List.pairwise_append.mp hpast.sorted).2.2 c hy x hin) (before_asymm hxc)
      · exact absurd (hlast c (List.mem_append_left _ hy)) (before_asymm hxc)
  have hnodup' : (c :: crowd).Nodup := by
    refine List.nodup_cons.mpr ⟨fun hin => ?_, hnodup⟩
    exact before_irrefl c (hcrowd c hin).2
  have hle := (List.subperm_of_subset hnodup' hsub).length_le
  have hwithin := heven.within
  rw [hpast.examined] at hwithin
  rw [List.length_cons] at hle
  omega

/-- What every pass leaves, given that all of it is there, stays. -/
theorem stays (keep : List Candidate) (hkey : db.MessagesKeyed) (hkeep : ∀ c ∈ keep, c ∈ queue conversation db)
    (hpass : ∀ db' n, db'.MessagesKeyed →
      (∀ x ∈ queue conversation db', x ∈ queue conversation db) → (∀ c ∈ keep, c ∈ queue conversation db') →
      ∀ c ∈ keep, c.message_id ∉ (scanned sha256 b conversation min_age_secs (now n) db').confirmed) (n : ℕ) :
    ∀ c ∈ keep, c ∈ queue conversation (passes sha256 b (some true) conversation min_age_secs now db n) := by
  induction n with
  | zero => exact hkeep
  | succ n ih =>
    have hkeyed := keyed_passes sha256 b (some true) conversation min_age_secs now hkey n
    intro c hc
    rw [passes, mem_queue_pass sha256 b conversation min_age_secs (now n) hkeyed]
    refine ⟨ih c hc, hpass _ n hkeyed ?_ ih c hc⟩
    intro x hx
    exact queue_passes sha256 b (some true) conversation min_age_secs now hkey n hx

/-- Without a broker nothing is cleared. -/
theorem passes_unreachable (h : reachable ≠ some true) (n : ℕ) :
    passes sha256 b reachable conversation min_age_secs now db n = db := by
  induction n with
  | zero => rfl
  | succ n ih =>
    rw [passes, ih]
    match reachable with
    | none => rfl
    | some false => rfl
    | some true => exact absurd rfl h

/-- A body that is not reached is not cleared by passes that all see everything old. -/
theorem stays_of_not_reaches (hkey : db.MessagesKeyed) (hold : ∀ x ∈ queue conversation db, is_old min_age_secs t x)
    (hq : c ∈ queue conversation db) (h : ¬ Reaches sha256 b reachable conversation db c) (n : ℕ) :
    c ∈ queue conversation (passes sha256 b reachable conversation min_age_secs (fun _ _ => t) db n) := by
  by_cases hreach : reachable = some true
  swap
  · rw [passes_unreachable hreach]
    exact hq
  subst hreach
  by_cases hfine : ∀ x ∈ queue conversation db, before x c → same_backend x c → fails b x = false
  · -- the rows in front of it stay, and it stays behind them
    have hmany : SCAN_LIMIT ≤ (ahead sha256 b conversation db c).length := by
      by_contra hfew
      exact h ⟨rfl, hfine, by omega⟩
    have hahead : ∀ x ∈ ahead sha256 b conversation db c,
        x ∈ queue conversation db ∧ before x c ∧ confirms sha256 b x = false := by
      intro x hx
      obtain ⟨hx, hp⟩ := List.mem_filter.mp hx
      simp only [Bool.and_eq_true, decide_eq_true_eq, Bool.not_eq_true'] at hp
      exact ⟨hx, hp⟩
    refine stays (c :: ahead sha256 b conversation db c) hkey ?_ ?_ n c List.mem_cons_self
    · intro x hx
      rcases List.mem_cons.mp hx with rfl | hx
      · exact hq
      · exact (hahead x hx).1
    · intro db' i hkey' hsub hkeep x hx
      rcases List.mem_cons.mp hx with rfl | hx
      · refine not_confirmed_of_crowd hkey' (fun y hy => hold y (hsub y hy)) (hkeep _ List.mem_cons_self)
          ((queue_nodup hkey).sublist List.filter_sublist) ?_ hmany
        intro y hy
        exact ⟨hkeep y (List.mem_cons_of_mem _ hy), (hahead y hy).2.1⟩
      · exact not_confirmed hkey' (hkeep x (List.mem_cons_of_mem _ hx)) (hahead x hx).2.2
  · simp only [not_forall, Bool.not_eq_false] at hfine
    obtain ⟨x, hx, hxc, hsame, hfail⟩ := hfine
    refine stays [c, x] hkey ?_ ?_ n c List.mem_cons_self
    · intro y hy
      rcases List.mem_cons.mp hy with rfl | hy
      · exact hq
      · rw [List.mem_singleton.mp hy]
        exact hx
    · intro db' i hkey' hsub hkeep y hy
      have hx' : x ∈ queue conversation db' := hkeep x (by simp)
      rcases List.mem_cons.mp hy with rfl | hy
      · exact not_confirmed_of_fails hkey' hx' (fun _ => hold x hx) (hkeep _ List.mem_cons_self) hxc hsame hfail
      · rw [List.mem_singleton.mp hy]
        exact not_confirmed hkey' hx' (confirms_eq_false hfail)

end Stays

/-! ## The law -/

section Law

variable {sha256 : String → String} {b : Backends} {reachable : Option Bool} {conversation : Option Uuid}
  {min_age_secs : ℤ} {db : Db} (hkey : db.MessagesKeyed)

include hkey

/-- A body that is not reached is never cleared, once everything is old. -/
theorem Releases.reaches (h : Releases sha256 b reachable conversation min_age_secs db) :
    ∀ c ∈ queue conversation db, confirms sha256 b c = true →
      Reaches sha256 b reachable conversation db c := by
  intro c hq hc
  by_contra hnot
  obtain ⟨t, ht⟩ := exists_old min_age_secs (queue conversation db)
  obtain ⟨m, hm, -, hcand⟩ := mem_queue.mp hq
  have hcomes := h.every (fun _ _ => t) m hm c hcand hq hc ⟨0, fun n _ i => ht c hq⟩
  rw [comes_to_iff sha256 b reachable conversation min_age_secs _ hkey hm hcand hq] at hcomes
  obtain ⟨n, hn⟩ := hcomes
  exact hn (stays_of_not_reaches hkey ht hq hnot n)

/-- **The passes release what is confirmed** exactly when, for every body its backend
confirms, the broker is there, the same backend fails for none of the bodies before it,
and fewer than `SCAN_LIMIT` of those are not confirmed. -/
theorem releases_iff : Releases sha256 b reachable conversation min_age_secs db ↔
    ∀ c ∈ queue conversation db, confirms sha256 b c = true →
      Reaches sha256 b reachable conversation db c := by
  constructor
  · intro h
    exact h.reaches hkey
  · intro hreaches
    refine ⟨?_, ?_⟩
    · intro now n
      exact pass_only sha256 b conversation min_age_secs (now n) reachable
        (keyed_passes sha256 b reachable conversation min_age_secs now hkey n)
    · rintro now m hm c hcand hq hc ⟨n₀, hold⟩
      rw [comes_to_iff sha256 b reachable conversation min_age_secs now hkey hm hcand hq]
      exact cleared_of_reaches hkey hreaches hq hc hold

end Law

/-! ## A stream that was lost -/

/-- The `i`th message of a thread, one a second. -/
def kept (i : ℕ) : ConversationMessage where
  id := i
  conversation_id := 0
  seq := i + 1
  sender_agent := 2
  sender_session := "main"
  body := "ready"
  reply_to := none
  request_id := i
  created_at := 1000000 * i
  deleted_at := none
  publication_state := .stored
  canonical_locator := some (.jetstream 1 (i + 1))
  uncertain_at := none
  tombstoned_at := none
  tombstone_reason := none
  body_sha256 := some "ready"
  backend := .jetstream

/-- A thread of `n` messages on JetStream. -/
def thread (n : ℕ) : Db where
  conversations := [⟨0, 1, none, .private, 2, "main", none, n, .jetstream, .outbox, none⟩]
  conversation_messages := (List.range n).map kept

/-- The stream was lost after its first `n` messages, and made again. -/
def lost (n : ℕ) : Backends where
  opens := fun _ _ => true
  fetch := fun _ _ _ id => .ok (if id < n then none else some "ready")

/-- The candidate that the `i`th message is. -/
def waiting (i : ℕ) : Candidate := ⟨i, 1, .jetstream, .jetstream 1 (i + 1), "ready", 1000000 * i⟩

theorem candidate_kept (n i : ℕ) : candidate (thread n) (kept i) = some (waiting i) := rfl

theorem queue_thread (n : ℕ) : queue none (thread n) = (List.range n).map waiting := by
  have hall : (thread n).conversation_messages.filter (fun m => (none : Option Uuid).all fun id =>
      m.conversation_id == id) = (List.range n).map kept := List.filter_eq_self.mpr fun _ _ => rfl
  unfold queue
  rw [hall, List.filterMap_map, ← List.filterMap_eq_map]
  exact List.filterMap_congr fun i _ => candidate_kept n i

theorem keyed_thread (n : ℕ) : Keyed (fun m => m.id) (thread n).conversation_messages := by
  show (((List.range n).map kept).map fun m => m.id).Nodup
  rw [List.map_map]
  exact (List.map_id (List.range n)).symm ▸ List.nodup_range

theorem releases_iff_thread : Keyed (fun m => m.id) (thread 3).conversation_messages ∧
    Releases id (lost 2) (some true) none 300 (thread 3) :=
  ⟨keyed_thread 3, (releases_iff (keyed_thread 3)).mpr (by decide)⟩

/-- After the loss of `SCAN_LIMIT` messages no body of the thread is released again. -/
theorem lost_stream_starves :
    ¬ Releases id (lost SCAN_LIMIT) (some true) none 300 (thread (SCAN_LIMIT + 1)) := by
  intro h
  have hin : waiting SCAN_LIMIT ∈ queue none (thread (SCAN_LIMIT + 1)) := by
    rw [queue_thread]
    exact List.mem_map_of_mem (List.mem_range.mpr (Nat.lt_succ_self _))
  have hconf : confirms id (lost SCAN_LIMIT) (waiting SCAN_LIMIT) = true := by
    simp [confirms, Backends.answer, lost, fetched_of, waiting]
  have hfew := (h.reaches (keyed_thread _) _ hin hconf).2.2
  -- everything that was lost is in front
  have hsub : ((List.range SCAN_LIMIT).map waiting) ⊆
      ahead id (lost SCAN_LIMIT) none (thread (SCAN_LIMIT + 1)) (waiting SCAN_LIMIT) := by
    intro x hx
    obtain ⟨i, hi, rfl⟩ := List.mem_map.mp hx
    have hi := List.mem_range.mp hi
    refine List.mem_filter.mpr ⟨?_, ?_⟩
    · rw [queue_thread]
      exact List.mem_map_of_mem (List.mem_range.mpr (by omega))
    · have hbefore : before (waiting i) (waiting SCAN_LIMIT) := by
        left
        show 1000000 * i < 1000000 * SCAN_LIMIT
        omega
      rw [Bool.and_eq_true, decide_eq_true_eq]
      refine ⟨hbefore, ?_⟩
      simp [confirms, Backends.answer, lost, fetched_of, waiting, hi]
  have hnodup : ((List.range SCAN_LIMIT).map waiting).Nodup := by
    refine List.nodup_range.map ?_
    intro i j hij
    exact congrArg Candidate.message_id hij
  have hle := (List.subperm_of_subset hnodup hsub).length_le
  rw [List.length_map, List.length_range] at hle
  omega

end CrewSync.Sweeps
