/-
The request rate limiter of `src/ratelimit.rs`.

`check` keeps a token bucket per presented key in a map that is not allowed to grow:
every 512th request drops the buckets nobody has used for ten minutes, a new key at
the ceiling drops them as well, and where that frees nothing the new key is turned
away without a bucket. The lock is held for the whole of `check`, so that requests
are one sequence, and the clock is monotonic; times and tokens are exact rationals
where the code has an `Instant` and an `f64`.

Dropping a bucket is the step that could be seen. It is not, because the rates `new`
makes fill any bucket within those ten minutes (`idle_fills`, carried by the limiter
itself): the bucket was full, and a key without one gets a full one. What the map
stands for is therefore a function of the keys (`held`) that no sweep changes, and
what the limiter does to it is what a meter may do. Only a key turned away at the
ceiling is answered by the map rather than by its bucket.
-/
import Mathlib.Data.Rat.Floor
import Mathlib.Tactic.NormNum
import CrewSync.Rows
import CrewSync.Buckets

set_option autoImplicit false

namespace CrewSync.RateLimit

open Rows Buckets

/-! ## The code -/

/-- Seconds after which an unused bucket is dropped. -/
def IDLE_EVICTION : ℚ := 600

/-- How often a request sweeps. -/
def SWEEP_EVERY : ℕ := 512

/-- The ceiling on tracked callers. -/
def MAX_TRACKED : ℕ := 10000

/-- A row of the map: `HashMap<String, Bucket>`. -/
structure Tracked where
  key : String
  bucket : Bucket ℚ
deriving DecidableEq

/-- What the lock protects. -/
structure Inner where
  buckets : List Tracked
  since_sweep : ℕ
deriving DecidableEq

/-- `RateLimiter`: its two numbers, and what every pair that `new` makes has. -/
structure RateLimiter extends Rate ℚ where
  idle_fills : burst ≤ IDLE_EVICTION * refill

/-- `Err(Throttled)`. -/
structure Throttled where
  retry_after_secs : ℕ
deriving DecidableEq

/-- `Result<(), Throttled>`. -/
abbrev Answer := Except Throttled Unit

/-- `RateLimiter::new`: a burst of a tenth of the minute's budget, at least 10. -/
def new (per_minute : ℕ) : Option RateLimiter :=
  if h : per_minute = 0 then none
  else
    have hpos : (1 : ℚ) ≤ per_minute := Nat.one_le_cast.mpr (Nat.pos_of_ne_zero h)
    some {
      burst := max ((per_minute : ℚ) / 10) 10
      refill := (per_minute : ℚ) / 60
      one_le_burst := le_trans (by norm_num) (le_max_right _ _)
      refill_pos := by positivity
      idle_fills := by
        unfold IDLE_EVICTION
        apply max_le <;> linarith }

/-- The state `new` starts with. -/
def Inner.new : Inner := ⟨[], 0⟩

/-- `Instant::duration_since`: zero where the clock seems to have gone back. -/
def duration_since (now earlier : ℚ) : ℚ := max (now - earlier) 0

/-- `retain(|_, b| now.duration_since(b.last) < IDLE_EVICTION)`. -/
def retain_active (now : ℚ) (buckets : List Tracked) : List Tracked :=
  buckets.filter fun e => decide (duration_since now e.bucket.last < IDLE_EVICTION)

/-- Counts the request, and sweeps with every 512th. -/
def swept (now : ℚ) (inner : Inner) : Inner :=
  if SWEEP_EVERY ≤ inner.since_sweep + 1 then ⟨retain_active now inner.buckets, 0⟩
  else ⟨inner.buckets, inner.since_sweep + 1⟩

/-- `(deficit / refill).ceil().max(1.0) as u64`. -/
def whole_secs (wait : ℚ) : ℕ := (max ⌈wait⌉ 1).toNat

/-- Refills a bucket, and takes a token from it if there is one. -/
def charge (rl : RateLimiter) (now : ℚ) (b : Bucket ℚ) : Bucket ℚ × Answer :=
  let elapsed := duration_since now b.last
  let tokens := min (b.tokens + elapsed * rl.refill) rl.burst
  if 1 ≤ tokens then (⟨tokens - 1, now⟩, .ok ())
  else
    let deficit := 1 - tokens
    (⟨tokens, now⟩, .error ⟨whole_secs (deficit / rl.refill)⟩)

/-- `RateLimiter::check`. -/
def check (rl : RateLimiter) (inner : Inner) (key : String) (now : ℚ) : Inner × Answer :=
  let inner := swept now inner
  match one (fun e => e.key == key) inner.buckets with
  | some existing =>
    let c := charge rl now existing.bucket
    ({ inner with buckets := update (fun e => e.key == key) (fun e => { e with bucket := c.1 }) inner.buckets },
      c.2)
  | none =>
    let buckets :=
      if MAX_TRACKED ≤ inner.buckets.length then retain_active now inner.buckets else inner.buckets
    if MAX_TRACKED ≤ buckets.length then ({ inner with buckets }, .error ⟨60⟩)
    else
      let c := charge rl now ⟨rl.burst, now⟩
      ({ inner with buckets := insert_into ⟨key, c.1⟩ buckets }, c.2)

/-- The same answers from the ideal bucket of the key. -/
def ideal_check (rl : RateLimiter) (m : Ideal String ℚ) (key : String) (now : ℚ) :
    Ideal String ℚ × Answer :=
  let c := m.check rl.toRate key now
  (c.1, match c.2 with | none => .ok () | some wait => .error ⟨whole_secs wait⟩)

/-! ## Sequences of checks -/

/-- One request: the token it presents, and when. -/
structure Request where
  key : String
  now : ℚ
deriving DecidableEq

/-- The requests with their answers, one after the other from the state `s`. -/
def answers {σ : Type} (check : σ → String → ℚ → σ × Answer) : σ → List Request → List (Request × Answer)
  | _, [] => []
  | s, q :: qs => (q, (check s q.key q.now).2) :: answers check (check s q.key q.now).1 qs

/-- Requests come in the order of the clock. -/
def InOrder (qs : List Request) : Prop := qs.Pairwise fun q q' => q.now ≤ q'.now

/-- The other keys that asked within the last ten minutes. -/
def live (past : List Request) (q : Request) : List String :=
  ((past.filter fun p => decide (p.key ≠ q.key) && decide (q.now - p.now < IDLE_EVICTION)).map
    (·.key)).dedup

/-- After `past`, every request finds fewer keys live than can be tracked. -/
def BelowCeiling : List Request → List Request → Prop
  | _, [] => True
  | past, q :: qs => (live past q).length < MAX_TRACKED ∧ BelowCeiling (past ++ [q]) qs

/-- The requests of `key` between `a` and `b` that were let through. -/
def let_through (key : String) (a b : ℚ) (log : List (Request × Answer)) : List (Request × Answer) :=
  log.filter fun e =>
    decide (e.1.key = key) && decide (a ≤ e.1.now) && decide (e.1.now ≤ b) && decide (e.2 = .ok ())

/-! ## What the map stands for -/

section Held

variable {rl : RateLimiter} {past : List Request} {inner : Inner} {t₀ now t : ℚ} {k : String}

/-- What `k` has at `t`: a full bucket where the map has none. -/
def held (rl : RateLimiter) (inner : Inner) (k : String) (t : ℚ) : ℚ :=
  match one (fun e => e.key == k) inner.buckets with
  | none => rl.burst
  | some e => level rl.toRate e.bucket t

theorem held_none (h : one (fun e => e.key == k) inner.buckets = none) : held rl inner k t = rl.burst := by
  unfold held
  rw [h]

theorem held_some {e : Tracked} (h : one (fun e => e.key == k) inner.buckets = some e) :
    held rl inner k t = level rl.toRate e.bucket t := by
  unfold held
  rw [h]

/-- What is true of the map between requests; `t₀` is the last one's time. -/
structure Inv (past : List Request) (t₀ : ℚ) (inner : Inner) : Prop where
  keyed : Keyed (fun e : Tracked => e.key) inner.buckets
  tokens : ∀ e ∈ inner.buckets, 0 ≤ e.bucket.tokens
  last : ∀ e ∈ inner.buckets, e.bucket.last ≤ t₀
  asked : ∀ e ∈ inner.buckets, (⟨e.key, e.bucket.last⟩ : Request) ∈ past

theorem Inv.new (t₀ : ℚ) : Inv [] t₀ Inner.new where
  keyed := Keyed.nil _
  tokens _ he := absurd he List.not_mem_nil
  last _ he := absurd he List.not_mem_nil
  asked _ he := absurd he List.not_mem_nil

theorem Inv.fills (h : Inv past t₀ inner) (rl : RateLimiter) (k : String) : Fills rl.toRate t₀ (held rl inner k) := by
  unfold held
  split
  · exact Fills.full _ _
  · rename_i e he
    have hmem := mem_of_one he
    exact (fills_level _ (h.tokens e hmem)).mono (h.last e hmem)

/-- The map may lose rows, and the clock may go on. -/
theorem Inv.fewer (h : Inv past t₀ inner) (hle : t₀ ≤ now) {bs : List Tracked}
    (hsub : bs.Sublist inner.buckets) (n : ℕ) : Inv past now ⟨bs, n⟩ where
  keyed := List.Nodup.sublist (List.Sublist.map _ hsub) h.keyed
  tokens e he := h.tokens e (hsub.subset he)
  last e he := le_trans (h.last e (hsub.subset he)) hle
  asked e he := h.asked e (hsub.subset he)

theorem duration_since_eq {earlier : ℚ} (h : earlier ≤ now) : duration_since now earlier = now - earlier := by
  unfold duration_since
  exact max_eq_left (by linarith)

/-- **A dropped bucket was full**: `retain` changes nothing that is seen later. -/
theorem Inv.held_retain (h : Inv past t₀ inner) (hle : t₀ ≤ now) (ht : now ≤ t) (k : String) (n : ℕ) :
    held rl ⟨retain_active now inner.buckets, n⟩ k t = held rl inner k t := by
  by_cases hone : ∃ e, one (fun e => e.key == k) inner.buckets = some e
  · rcases hone with ⟨e, he⟩
    have hmem := mem_of_one he
    have hlast := le_trans (h.last e hmem) hle
    have hiff := h.keyed.one_iff (k := k) (a := e)
    have hkept : Keyed (fun e : Tracked => e.key) (retain_active now inner.buckets) :=
      (h.fewer hle List.filter_sublist n).keyed
    rw [held_some he]
    by_cases hactive : duration_since now e.bucket.last < IDLE_EVICTION
    · have hin : e ∈ retain_active now inner.buckets := by
        unfold retain_active
        exact List.mem_filter.mpr ⟨hmem, by simpa using hactive⟩
      have hstill : one (fun e => e.key == k) (retain_active now inner.buckets) = some e :=
        hkept.one_iff.mpr ⟨hin, (hiff.mp he).2⟩
      exact held_some hstill
    · -- Dropped: ten minutes fill the bucket, and a missing one counts as full.
      have hgone : one (fun e => e.key == k) (retain_active now inner.buckets) = none := by
        rw [one_eq_none]
        intro a ha
        rw [beq_eq_false_iff_ne]
        intro hk
        have hparts := List.mem_filter.mp ha
        have hae : a = e := h.keyed.eq hparts.1 hmem (hk.trans (hiff.mp he).2.symm)
        rw [hae] at hparts
        exact hactive (by simpa using hparts.2)
      have hempty : held rl ⟨retain_active now inner.buckets, n⟩ k t = rl.burst := held_none hgone
      rw [duration_since_eq hlast, not_lt] at hactive
      have hlong : IDLE_EVICTION * rl.refill ≤ (t - e.bucket.last) * rl.refill :=
        mul_le_mul_of_nonneg_right (by linarith) (le_of_lt rl.refill_pos)
      have hfull := rl.idle_fills
      rw [hempty]
      exact (level_full _ (h.tokens e hmem) (by linarith)).symm
  · -- No bucket before, and none afterwards.
    have hnone : one (fun e => e.key == k) inner.buckets = none := by
      by_contra hsome
      rcases Option.ne_none_iff_exists'.mp hsome with ⟨e, he⟩
      exact hone ⟨e, he⟩
    have hstill : one (fun e => e.key == k) (retain_active now inner.buckets) = none := by
      rw [one_eq_none]
      intro a ha
      exact one_eq_none.mp hnone a (List.mem_filter.mp ha).1
    rw [held_none hnone]
    exact held_none hstill

theorem Inv.swept (h : Inv past t₀ inner) (hle : t₀ ≤ now) : Inv past now (swept now inner) := by
  unfold RateLimit.swept
  by_cases hs : SWEEP_EVERY ≤ inner.since_sweep + 1
  · rw [if_pos hs]
    exact h.fewer hle List.filter_sublist 0
  · rw [if_neg hs]
    exact h.fewer hle (List.Sublist.refl _) _

theorem Inv.held_swept (h : Inv past t₀ inner) (hle : t₀ ≤ now) (ht : now ≤ t) (k : String) :
    held rl (RateLimit.swept now inner) k t = held rl inner k t := by
  unfold RateLimit.swept
  by_cases hs : SWEEP_EVERY ≤ inner.since_sweep + 1
  · rw [if_pos hs]
    exact h.held_retain hle ht k 0
  · rw [if_neg hs]
    rfl

end Held

/-! ## One check -/

section OneCheck

variable {rl : RateLimiter} {past : List Request} {inner : Inner} {t₀ now t : ℚ} {k : String} {x : ℚ}

/-- What a bucket with `tokens` in it answers. -/
def verdict (rl : RateLimiter) (tokens : ℚ) : Answer :=
  if 1 ≤ tokens then .ok () else .error ⟨whole_secs ((1 - tokens) / rl.refill)⟩

theorem verdict_ok : verdict rl x = .ok () ↔ 1 ≤ x := by
  unfold verdict
  by_cases h : 1 ≤ x
  · simp [h]
  · simp [h]

/-- What is left in a bucket with `tokens` in it. -/
def left (tokens : ℚ) : ℚ := if 1 ≤ tokens then tokens - 1 else tokens

theorem left_nonneg (h : 0 ≤ x) : 0 ≤ left x := by
  unfold left
  by_cases hx : 1 ≤ x
  · rw [if_pos hx]
    linarith
  · rw [if_neg hx]
    exact h

theorem charge_eq {b : Bucket ℚ} (h : b.last ≤ now) :
    charge rl now b = (⟨left (level rl.toRate b now), now⟩, verdict rl (level rl.toRate b now)) := by
  unfold charge left verdict
  simp only
  rw [duration_since_eq h]
  show _ = _
  by_cases hx : 1 ≤ level rl.toRate b now
  · rw [if_pos hx, if_pos hx]
    exact if_pos hx
  · rw [if_neg hx, if_neg hx]
    exact if_neg hx

/-- A check that leaves `left` of the key's tokens behind, and the others theirs, is
one a meter may make. -/
theorem charged_of {lvl lvl' : String → ℚ → ℚ} (hf : Fills rl.toRate now (lvl k))
    (hown : ∀ t, now ≤ t → lvl' k t = level rl.toRate ⟨left (lvl k now), now⟩ t)
    (hothers : ∀ j, j ≠ k → ∀ t, now ≤ t → lvl' j t = lvl j t) :
    Charged rl.toRate lvl lvl' ⟨k, now, decide (verdict rl (lvl k now) = .ok ())⟩ := by
  refine ⟨fun ha => ?_, fun ha t hle => ?_, fun ha t hle => ?_, fun j hj t hle => hothers j hj t hle⟩
  · exact verdict_ok.mp (by simpa using ha)
  · have hwhole : 1 ≤ lvl k now := verdict_ok.mp (by simpa using ha)
    have hleft : left (lvl k now) = lvl k now - 1 := if_pos hwhole
    rw [← hleft]
    exact hown t hle
  · have hshort : ¬ 1 ≤ lvl k now := fun hwhole => by simp [verdict_ok.mpr hwhole] at ha
    have hleft : left (lvl k now) = lvl k now := if_neg hshort
    show lvl' k t = lvl k t
    rw [hown t hle, hleft]
    exact level_stored _ hf (le_refl _) hle

/-- What the check of `q` may have done to the map, and how it was answered. -/
structure Checked (rl : RateLimiter) (past : List Request) (q : Request) (inner : Inner)
    (r : Inner × Answer) : Prop where
  inv : Inv (past ++ [q]) q.now r.1
  charged : Charged rl.toRate (held rl inner) (held rl r.1) ⟨q.key, q.now, decide (r.2 = .ok ())⟩
  answered : r.2 = verdict rl (held rl inner q.key q.now) ∨ MAX_TRACKED ≤ (live past q).length

variable {q : Request}

theorem one_put {bs : List Tracked} {j : String} (b : Bucket ℚ) :
    one (fun e => e.key == j) (update (fun a => a.key == k) (fun a => { a with bucket := b }) bs)
      = (one (fun e => e.key == j) bs).map fun a => if a.key == k then { a with bucket := b } else a :=
  one_update fun _ => rfl

theorem mem_past {x : Request} (h : x ∈ past) : x ∈ past ++ [q] := List.mem_append_left _ h

/-- A tracked key: its bucket is charged in place. -/
theorem checked_tracked (h : Inv past q.now inner) {e : Tracked}
    (he : one (fun e => e.key == q.key) inner.buckets = some e) :
    Checked rl past q inner
      (⟨update (fun a => a.key == q.key) (fun a => { a with bucket := (charge rl q.now e.bucket).1 })
          inner.buckets, inner.since_sweep⟩, (charge rl q.now e.bucket).2) := by
  have hmem := mem_of_one he
  have hheld : held rl inner q.key q.now = level rl.toRate e.bucket q.now := held_some he
  have hnonneg := (h.fills rl q.key).nonneg q.now (le_refl _)
  rw [charge_eq (h.last e hmem), ← hheld]
  refine ⟨⟨?_, fun a ha => ?_, fun a ha => ?_, fun a ha => ?_⟩, charged_of (h.fills rl q.key) ?_ ?_, Or.inl rfl⟩
  · exact h.keyed.update fun _ => rfl
  · rcases mem_update.mp ha with ⟨b, hb, rfl⟩
    split
    · exact left_nonneg hnonneg
    · exact h.tokens b hb
  · rcases mem_update.mp ha with ⟨b, hb, rfl⟩
    split
    · exact le_refl _
    · exact h.last b hb
  · rcases mem_update.mp ha with ⟨b, hb, rfl⟩
    by_cases hk : (b.key == q.key) = true
    · -- The charged bucket was last used by this very request.
      rw [if_pos hk]
      have hkey : b.key = q.key := by simpa using hk
      show (⟨b.key, q.now⟩ : Request) ∈ past ++ [q]
      rw [hkey]
      exact List.mem_append_right _ (List.mem_singleton.mpr rfl)
    · rw [if_neg hk]
      exact mem_past (h.asked b hb)
  · intro t _
    refine held_some (e := ⟨e.key, ⟨left (held rl inner q.key q.now), q.now⟩⟩) ?_
    show one _ (update _ _ inner.buckets) = _
    rw [one_put, he, Option.map_some, if_pos (pos_of_one he)]
  · intro j hj t _
    unfold held
    simp only [one_put]
    by_cases hone : ∃ a, one (fun e => e.key == j) inner.buckets = some a
    · rcases hone with ⟨a, ha⟩
      have hak : a.key = j := by simpa using pos_of_one ha
      have hne : ¬ (a.key == q.key) = true := by
        rw [beq_iff_eq, hak]
        exact hj
      rw [ha, Option.map_some, if_neg hne]
    · have hnone : one (fun e => e.key == j) inner.buckets = none :=
        Option.eq_none_iff_forall_ne_some.mpr fun a ha => hone ⟨a, ha⟩
      rw [hnone, Option.map_none]

/-- A new key with room for it: a full bucket is charged. -/
theorem checked_new (h : Inv past q.now inner) (hnone : one (fun e => e.key == q.key) inner.buckets = none) :
    Checked rl past q inner
      (⟨insert_into ⟨q.key, (charge rl q.now ⟨rl.burst, q.now⟩).1⟩ inner.buckets, inner.since_sweep⟩,
        (charge rl q.now ⟨rl.burst, q.now⟩).2) := by
  have hfresh : level rl.toRate ⟨rl.burst, q.now⟩ q.now = held rl inner q.key q.now := by
    rw [held_none hnone]
    unfold level
    simp
  have hnonneg := (h.fills rl q.key).nonneg q.now (le_refl _)
  have hcases : ∀ a ∈ insert_into (⟨q.key, ⟨left (held rl inner q.key q.now), q.now⟩⟩ : Tracked) inner.buckets,
      a ∈ inner.buckets ∨ a = ⟨q.key, ⟨left (held rl inner q.key q.now), q.now⟩⟩ := by
    intro a ha
    rcases List.mem_append.mp ha with ha | ha
    · exact Or.inl ha
    · exact Or.inr (List.mem_singleton.mp ha)
  rw [charge_eq (b := ⟨rl.burst, q.now⟩) (le_refl _), hfresh]
  refine ⟨⟨?_, fun a ha => ?_, fun a ha => ?_, fun a ha => ?_⟩, charged_of (h.fills rl q.key) ?_ ?_, Or.inl rfl⟩
  · refine h.keyed.insert_into fun a ha hk => ?_
    have hno := one_eq_none.mp hnone a ha
    exact absurd hk (by simpa using hno)
  · rcases hcases a ha with ha | rfl
    · exact h.tokens a ha
    · exact left_nonneg hnonneg
  · rcases hcases a ha with ha | rfl
    · exact h.last a ha
    · exact le_refl _
  · rcases hcases a ha with ha | rfl
    · exact mem_past (h.asked a ha)
    · exact List.mem_append_right _ (List.mem_singleton.mpr rfl)
  · intro t _
    refine held_some (e := ⟨q.key, ⟨left (held rl inner q.key q.now), q.now⟩⟩) ?_
    show one _ (insert_into _ inner.buckets) = _
    rw [one_insert_into, hnone, Option.none_or]
    exact if_pos (by simp)
  · intro j hj t _
    unfold held
    have hother : ¬ (q.key == j) = true := by
      rw [beq_iff_eq]
      exact fun heq => hj heq.symm
    simp only [one_insert_into]
    rw [if_neg hother, Option.or_none]

/-- A new key without room: every tracked key asked within the last ten minutes. -/
theorem checked_full (h : Inv past q.now inner) (hnone : one (fun e => e.key == q.key) inner.buckets = none)
    (hactive : ∀ e ∈ inner.buckets, duration_since q.now e.bucket.last < IDLE_EVICTION)
    (hfull : MAX_TRACKED ≤ inner.buckets.length) :
    Checked rl past q inner (inner, .error ⟨60⟩) := by
  refine ⟨?_, ⟨fun ha => ?_, fun ha => ?_, fun _ _ _ => rfl, fun _ _ _ _ => rfl⟩, Or.inr ?_⟩
  · exact ⟨h.keyed, h.tokens, h.last, fun e he => mem_past (h.asked e he)⟩
  · simp at ha
  · simp at ha
  · have hsub : inner.buckets.map (fun e => e.key) ⊆ live past q := by
      intro k hk
      rcases List.mem_map.mp hk with ⟨e, he, rfl⟩
      unfold live
      rw [List.mem_dedup, List.mem_map]
      refine ⟨_, List.mem_filter.mpr ⟨h.asked e he, ?_⟩, rfl⟩
      have hne := one_eq_none.mp hnone e he
      have hrecent := hactive e he
      rw [duration_since_eq (h.last e he)] at hrecent
      simp only [Bool.and_eq_true, decide_eq_true_eq]
      exact ⟨by simpa using hne, hrecent⟩
    have hle := (List.subperm_of_subset h.keyed hsub).length_le
    rw [List.length_map] at hle
    exact le_trans hfull hle

/-- A check begins with the map as it is, or with idle buckets dropped from it. -/
theorem Checked.of_held {s : Inner} {r : Inner × Answer} (h : Checked rl past q s r)
    (heq : ∀ k t, q.now ≤ t → held rl s k t = held rl inner k t) : Checked rl past q inner r := by
  have hnow := heq q.key q.now (le_refl _)
  refine ⟨h.inv, ⟨fun ha => ?_, fun ha t hle => ?_, fun ha t hle => ?_, fun j hj t hle => ?_⟩, ?_⟩
  · have hwhole := h.charged.enough ha
    show 1 ≤ held rl inner q.key q.now
    rw [← hnow]
    exact hwhole
  · have hspent := h.charged.spent ha t hle
    show held rl r.1 q.key t = level rl.toRate ⟨held rl inner q.key q.now - 1, q.now⟩ t
    rw [← hnow]
    exact hspent
  · rw [h.charged.refused ha t hle]
    exact heq q.key t hle
  · rw [h.charged.others j hj t hle]
    exact heq j t hle
  · rw [← hnow]
    exact h.answered

/-- **One check** does what a meter may do, and answers by the key's bucket unless as
many other keys as can be tracked have asked within the last ten minutes. -/
theorem check_spec (rl : RateLimiter) (h : Inv past t₀ inner) (hle : t₀ ≤ q.now) :
    Checked rl past q inner (check rl inner q.key q.now) := by
  have hs := h.swept hle
  apply Checked.of_held (s := swept q.now inner) _ fun k t ht => h.held_swept hle ht k
  generalize hgen : swept q.now inner = s at hs
  unfold check
  rw [hgen]
  by_cases htracked : ∃ e, one (fun e => e.key == q.key) s.buckets = some e
  · rcases htracked with ⟨e, he⟩
    simp only [he]
    exact checked_tracked hs he
  · have hnone : one (fun e => e.key == q.key) s.buckets = none :=
      Option.eq_none_iff_forall_ne_some.mpr fun e he => htracked ⟨e, he⟩
    simp only [hnone]
    by_cases hceiling : MAX_TRACKED ≤ s.buckets.length
    · -- The ceiling: the idle buckets go first.
      rw [if_pos hceiling]
      have hr : Inv past q.now ⟨retain_active q.now s.buckets, s.since_sweep⟩ :=
        hs.fewer (le_refl _) List.filter_sublist _
      have hgone : one (fun e => e.key == q.key) (retain_active q.now s.buckets) = none := by
        rw [one_eq_none]
        intro a ha
        exact one_eq_none.mp hnone a (List.mem_filter.mp ha).1
      apply Checked.of_held (s := ⟨retain_active q.now s.buckets, s.since_sweep⟩) _
        fun k t ht => hs.held_retain (le_refl _) ht k _
      by_cases hstill : MAX_TRACKED ≤ (retain_active q.now s.buckets).length
      · rw [if_pos hstill]
        refine checked_full hr hgone (fun e he => ?_) hstill
        have hactive := (List.mem_filter.mp he).2
        simpa using hactive
      · rw [if_neg hstill]
        exact checked_new hr hgone
    · rw [if_neg hceiling, if_neg hceiling]
      exact checked_new hs hnone

/-- The ideal bucket answers by what it holds. -/
theorem ideal_check_answer (m : Ideal String ℚ) :
    (ideal_check rl m k now).2 = verdict rl (m.level rl.toRate k now) := by
  unfold ideal_check Ideal.check verdict
  by_cases hwhole : 1 ≤ m.level rl.toRate k now
  · simp only [if_pos hwhole]
  · simp only [if_neg hwhole]

theorem ideal_check_charged {m : Ideal String ℚ} (hf : ∀ j, Fills rl.toRate t₀ (m.level rl.toRate j)) (hle : t₀ ≤ now) :
    Charged rl.toRate (m.level rl.toRate) ((ideal_check rl m k now).1.level rl.toRate)
      ⟨k, now, decide (verdict rl (m.level rl.toRate k now) = .ok ())⟩ := by
  have hiff : decide (verdict rl (m.level rl.toRate k now) = .ok ()) = decide (1 ≤ m.level rl.toRate k now) :=
    decide_eq_decide.mpr verdict_ok
  rw [hiff]
  exact Ideal.check_charged hf hle

end OneCheck

/-! ## Every sequence of checks -/

section Sequences

variable {rl : RateLimiter} {past : List Request} {inner : Inner} {t₀ : ℚ} {q : Request}
  {qs : List Request} {σ : Type} {th : Throttled}

/-- The requests to come are in order, and none is older than the last one served. -/
structure Coming (t₀ : ℚ) (qs : List Request) : Prop where
  later : ∀ q ∈ qs, t₀ ≤ q.now
  order : InOrder qs

theorem Coming.head (h : Coming t₀ (q :: qs)) : t₀ ≤ q.now := h.later q List.mem_cons_self

theorem Coming.tail (h : Coming t₀ (q :: qs)) : Coming q.now qs :=
  ⟨(List.pairwise_cons.mp h.order).1, (List.pairwise_cons.mp h.order).2⟩

/-- Any sequence in order starts somewhere. -/
theorem InOrder.coming (h : InOrder qs) : ∃ t₀, Coming t₀ qs := by
  cases qs with
  | nil => exact ⟨0, fun _ hq => absurd hq List.not_mem_nil, h⟩
  | cons q qs =>
    refine ⟨q.now, fun x hx => ?_, h⟩
    rcases List.mem_cons.mp hx with rfl | hx
    · exact le_refl _
    · exact (List.pairwise_cons.mp h).1 x hx

/-- An answered request, as the meter sees it. -/
def entry (e : Request × Answer) : Entry String ℚ := ⟨e.1.key, e.1.now, decide (e.2 = .ok ())⟩

theorem map_answers (check : σ → String → ℚ → σ × Answer) (s : σ) (qs : List Request) :
    (answers check s qs).map (·.1) = qs := by
  induction qs generalizing s with
  | nil => rfl
  | cons q qs ih =>
    unfold answers
    rw [List.map_cons, ih]

/-- Between any two answers the map is as it should be, and the answers before are
those of a meter. -/
theorem served (h : Inv past t₀ inner) (hq : Coming t₀ qs) {l₁ l₂ : List (Request × Answer)}
    (hlog : answers (check rl) inner qs = l₁ ++ l₂) :
    ∃ past' t₁ inner' qs', Inv past' t₁ inner' ∧ Coming t₁ qs' ∧
      answers (check rl) inner' qs' = l₂ ∧
      Metered rl.toRate (held rl inner) (l₁.map entry) (held rl inner') ∧
      (BelowCeiling past qs → BelowCeiling past' qs') := by
  induction l₁ generalizing past t₀ inner qs with
  | nil => exact ⟨past, t₀, inner, qs, h, hq, hlog, Metered.nil, id⟩
  | cons e l₁ ih =>
    cases qs with
    | nil =>
      unfold answers at hlog
      exact nomatch hlog.symm
    | cons q qs =>
      unfold answers at hlog
      rw [List.cons_append] at hlog
      have hparts := List.cons.inj hlog
      have hone := check_spec rl h hq.head
      obtain ⟨past', t₁, inner', qs', hinv, hcoming, hrest, hmeter, hbelow⟩ :=
        ih hone.inv hq.tail hparts.2
      refine ⟨past', t₁, inner', qs', hinv, hcoming, hrest, ?_, fun hb => hbelow hb.2⟩
      rw [← hparts.1, List.map_cons]
      exact Metered.cons hone.charged hmeter

/-- Below the ceiling the next request is answered by its bucket. -/
theorem next_answer (h : Inv past t₀ inner) (hq : Coming t₀ qs) (hb : BelowCeiling past qs)
    {e : Request × Answer} {l : List (Request × Answer)} (hlog : answers (check rl) inner qs = e :: l) :
    e.2 = verdict rl (held rl inner e.1.key e.1.now) ∧ t₀ ≤ e.1.now := by
  cases qs with
  | nil =>
    unfold answers at hlog
    exact nomatch hlog.symm
  | cons q qs =>
    unfold answers at hlog
    have hparts := List.cons.inj hlog
    have hone := check_spec rl h hq.head
    rw [← hparts.1]
    refine ⟨hone.answered.resolve_right fun hfull => ?_, hq.head⟩
    have hroom := hb.1
    omega

/-- Below the ceiling the map answers as a bucket for every key would. -/
theorem answers_eq (h : Inv past t₀ inner) (hq : Coming t₀ qs) (hb : BelowCeiling past qs)
    {m : Ideal String ℚ} (hlevel : ∀ k t, t₀ ≤ t → held rl inner k t = m.level rl.toRate k t) :
    answers (check rl) inner qs = answers (ideal_check rl) m qs := by
  induction qs generalizing past t₀ inner m with
  | nil => rfl
  | cons q qs ih =>
    have hone := check_spec rl h hq.head
    have hreal : (check rl inner q.key q.now).2 = verdict rl (held rl inner q.key q.now) :=
      (next_answer h hq hb rfl).1
    have hsame : (check rl inner q.key q.now).2 = (ideal_check rl m q.key q.now).2 := by
      rw [hreal, ideal_check_answer, hlevel q.key q.now hq.head]
    have hideal := ideal_check_charged (k := q.key)
      (fun j => (h.fills rl j).congr fun t ht => (hlevel j t ht).symm) hq.head
    have hcharged := hone.charged
    rw [hreal, hlevel q.key q.now hq.head] at hcharged
    unfold answers
    rw [hsame]
    congr 1
    apply ih hone.inv hq.tail hb.2
    intro k t ht
    exact hcharged.agree hideal (fun j s hs => hlevel j s (le_trans hq.head hs)) ht

theorem wait_le_whole_secs (wait : ℚ) : wait ≤ whole_secs wait := by
  have hceil : wait ≤ (⌈wait⌉ : ℤ) := Int.le_ceil wait
  have hmax : ((⌈wait⌉ : ℤ) : ℚ) ≤ ((max ⌈wait⌉ 1 : ℤ) : ℚ) := Int.cast_le.mpr (le_max_left _ _)
  have hnat : ((whole_secs wait : ℕ) : ℤ) = max ⌈wait⌉ 1 := by
    unfold whole_secs
    exact Int.toNat_of_nonneg (le_trans zero_le_one (le_max_right _ _))
  have hcast : ((whole_secs wait : ℕ) : ℚ) = ((max ⌈wait⌉ 1 : ℤ) : ℚ) := by
    rw [← hnat]
    exact (Int.cast_natCast _).symm
  linarith

theorem order_answers (check : σ → String → ℚ → σ × Answer) (s : σ) (h : InOrder qs) :
    (answers check s qs).Pairwise fun e e' => e.1.now ≤ e'.1.now := by
  have hmap : InOrder ((answers check s qs).map (·.1)) := by
    rw [map_answers]
    exact h
  unfold InOrder at hmap
  rw [List.pairwise_map] at hmap
  exact hmap

theorem timely_answers (check : σ → String → ℚ → σ × Answer) (s : σ) (h : Coming t₀ qs) :
    Timely t₀ ((answers check s qs).map entry) := by
  refine ⟨fun e he => ?_, List.pairwise_map.mpr (order_answers check s h.order)⟩
  rcases List.mem_map.mp he with ⟨x, hx, rfl⟩
  apply h.later x.1
  rw [← map_answers check s qs]
  exact List.mem_map_of_mem hx

theorem length_let_through (key : String) (a b : ℚ) (log : List (Request × Answer)) : (let_through key a b log).length
      = ((passed key b (log.map entry)).filter fun e => decide (a ≤ e.now)).length := by
  unfold let_through passed
  rw [List.filter_filter, List.filter_map, List.length_map]
  congr 2
  funext e
  simp only [Function.comp, entry]
  rw [Bool.eq_iff_iff]
  simp only [Bool.and_eq_true, decide_eq_true_eq]
  constructor
  · rintro ⟨⟨⟨hk, ha⟩, hb⟩, hok⟩
    exact ⟨decide_eq_true ha, ⟨decide_eq_true hk, decide_eq_true hb⟩, hok⟩
  · rintro ⟨ha, ⟨hk, hb⟩, hok⟩
    exact ⟨⟨⟨of_decide_eq_true hk, of_decide_eq_true ha⟩, of_decide_eq_true hb⟩, hok⟩

/-- Who is told to wait has less than one token, and the wait covers the rest. -/
theorem verdict_error {x : ℚ} (h : Except.error th = verdict rl x) : (1 - x) / rl.refill ≤ th.retry_after_secs := by
  unfold verdict at h
  by_cases hwhole : 1 ≤ x
  · rw [if_pos hwhole] at h
    cases h
  · rw [if_neg hwhole] at h
    rw [Except.error.inj h]
    exact wait_le_whole_secs _

/-- A refused key that stays away until `t'` then has a token, if it waited for one. -/
theorem waited {key : String} {t t' : ℚ} {between : List (Request × Answer)} {inner' : Inner}
    (h : Inv past t₀ inner) (hle : t₀ ≤ t)
    (hmeter : Metered rl.toRate (held rl inner) (((⟨key, t⟩, .error th) :: between).map entry) (held rl inner'))
    (hrefused : Except.error th = verdict rl (held rl inner key t))
    (hbetween : ∀ e ∈ between, e.1.key ≠ key) (htimes : ∀ e ∈ between, e.1.now ≤ t')
    (hwait : t + th.retry_after_secs ≤ t') : 1 ≤ held rl inner' key t' := by
  have hsecs : (0 : ℚ) ≤ th.retry_after_secs := Nat.cast_nonneg _
  have hlater : t ≤ t' := by linarith
  rw [List.map_cons] at hmeter
  cases hmeter with
  | cons hcharged hrest =>
    -- The refused request and those of other keys leave the bucket alone.
    have hrest' := hrest.kept (k := key) (t := t')
      (fun e he => by
        rcases List.mem_map.mp he with ⟨x, hx, rfl⟩
        exact (hbetween x hx).symm)
      (fun e he => by
        rcases List.mem_map.mp he with ⟨x, hx, rfl⟩
        exact htimes x hx)
    have hown := hcharged.kept (k := key) (Or.inr (by simp [entry])) t' hlater
    rw [hrest', hown]
    have hdeficit := verdict_error hrefused
    exact (h.fills rl key).waited hle hlater (by linarith)

/-- **The limiter enforces its bucket.** While fewer keys than can be tracked are live,
sweeps and evictions cannot be told from a bucket kept for every key; no interval lets
a key through more often than a full bucket and the rate allow; and whoever waits as
long as it is told to is let through. -/
theorem limiter_enforces_its_bucket (rl : RateLimiter) (qs : List Request) (horder : InOrder qs) :
    (BelowCeiling [] qs →
      answers (check rl) Inner.new qs = answers (ideal_check rl) Ideal.new qs) ∧
    (∀ (key : String) (a T : ℚ), 0 ≤ T →
      ((let_through key a (a + T) (answers (check rl) Inner.new qs)).length : ℚ)
        ≤ rl.burst + rl.refill * T) ∧
    (BelowCeiling [] qs → ∀ (key : String) (t t' : ℚ) (th : Throttled) (answer : Answer)
      (before between after : List (Request × Answer)),
      answers (check rl) Inner.new qs
        = before ++ (⟨key, t⟩, .error th) :: (between ++ (⟨key, t'⟩, answer) :: after) →
      (∀ e ∈ between, e.1.key ≠ key) → t + th.retry_after_secs ≤ t' → answer = .ok ()) := by
  obtain ⟨t₀, hq⟩ := horder.coming
  have hstart := Inv.new t₀
  refine ⟨fun hb => answers_eq hstart hq hb fun _ _ _ => rfl, fun key a T hT => ?_, ?_⟩
  · obtain ⟨_, _, _, _, _, _, _, hmeter, _⟩ :=
      served hstart hq (List.append_nil (answers (check rl) Inner.new qs)).symm
    have hcount := hmeter.count_le (hstart.fills rl) (timely_answers (check rl) Inner.new hq) key
      (a := a) (b := a + T) (by linarith)
    rw [length_let_through]
    linarith
  · intro hb key t t' th answer before between after hlog hbetween hwait
    -- The state the refused request found, and the one its repetition found.
    obtain ⟨past₁, t₁, inner₁, qs₁, hinv₁, hq₁, hlog₁, _, hb₁⟩ := served hstart hq hlog
    have hrefused := next_answer hinv₁ hq₁ (hb₁ hb) hlog₁
    have hsplit : answers (check rl) inner₁ qs₁
        = ((⟨key, t⟩, .error th) :: between) ++ (⟨key, t'⟩, answer) :: after := hlog₁
    obtain ⟨past₂, t₂, inner₂, qs₂, hinv₂, hq₂, hlog₂, hmeter, hb₂⟩ := served hinv₁ hq₁ hsplit
    have hnext := (next_answer hinv₂ hq₂ (hb₂ (hb₁ hb)) hlog₂).1
    have horder₁ := order_answers (check rl) inner₁ hq₁.order
    rw [hlog₁] at horder₁
    have htimes : ∀ e ∈ between, e.1.now ≤ t' := fun e he =>
      (List.pairwise_append.mp (List.pairwise_cons.mp horder₁).2).2.2 e he _ List.mem_cons_self
    have hwhole := waited hinv₁ hrefused.2 hmeter hrefused.1 hbetween htimes hwait
    exact hnext.trans (verdict_ok.mpr hwhole)

/-- A limiter that only few keys ever ask is below its ceiling. -/
theorem belowCeiling_of_keys {keys : List String} (hkeys : ∀ q ∈ past ++ qs, q.key ∈ keys)
    (hlt : keys.length < MAX_TRACKED) : BelowCeiling past qs := by
  induction qs generalizing past with
  | nil => trivial
  | cons q qs ih =>
    refine ⟨?_, ih (by simpa using hkeys)⟩
    have hsub : live past q ⊆ keys := by
      intro k hk
      rcases List.mem_map.mp (List.mem_dedup.mp hk) with ⟨p, hp, rfl⟩
      exact hkeys p (List.mem_append_left _ (List.mem_filter.mp hp).1)
    exact lt_of_le_of_lt (List.subperm_of_subset (List.nodup_dedup _) hsub).length_le hlt

def sixty : RateLimiter where
  burst := 10
  refill := 1
  one_le_burst := by norm_num
  refill_pos := by norm_num
  idle_fills := by norm_num [IDLE_EVICTION]

/-- At sixty a minute: `ben` asks once and `ada` until the next request sweeps, ten
minutes later she empties another bucket, and waits the second she is told to. -/
def rush : List Request :=
  ⟨"ben", 0⟩ :: (List.replicate 10 ⟨"ada", 0⟩ ++ (List.replicate 500 ⟨"ada", 0⟩ ++
    (List.replicate 11 ⟨"ada", 600⟩ ++ [⟨"ada", 601⟩])))

/-- Buckets between the two visits. -/
def emptied : List Tracked := [⟨"ben", ⟨9, 0⟩⟩, ⟨"ada", ⟨0, 0⟩⟩]

/-- The state the requests leave. -/
def after (check : σ → String → ℚ → σ × Answer) (s : σ) (qs : List Request) : σ :=
  qs.foldl (fun s q => (check s q.key q.now).1) s

theorem answers_append (check : σ → String → ℚ → σ × Answer) (s : σ) (qs qs' : List Request) :
    answers check s (qs ++ qs') = answers check s qs ++ answers check (after check s qs) qs' := by
  induction qs generalizing s with
  | nil => rfl
  | cons q qs ih => exact congrArg _ (ih _)

theorem check_emptied {n : ℕ} (h : n + 1 < SWEEP_EVERY) :
    check sixty ⟨emptied, n⟩ "ada" 0 = (⟨emptied, n + 1⟩, .error ⟨1⟩) := by
  have hs : swept 0 ⟨emptied, n⟩ = ⟨emptied, n + 1⟩ := if_neg (not_le.mpr h)
  have hone : one (fun e => e.key == "ada") emptied = some ⟨"ada", ⟨0, 0⟩⟩ := by decide
  have hcharge : charge sixty 0 ⟨0, 0⟩ = (⟨0, 0⟩, .error ⟨1⟩) := by decide +kernel
  unfold check
  simp only [hs, hone, hcharge]
  congr 1

/-- Until the sweep, asking again changes the count alone. -/
theorem after_emptied {m n : ℕ} (h : n + m < SWEEP_EVERY) :
    after (check sixty) ⟨emptied, n⟩ (List.replicate m ⟨"ada", 0⟩) = ⟨emptied, n + m⟩ ∧
      answers (check sixty) ⟨emptied, n⟩ (List.replicate m ⟨"ada", 0⟩)
        = List.replicate m (⟨"ada", 0⟩, .error ⟨1⟩) := by
  induction m generalizing n with
  | zero => exact ⟨rfl, rfl⟩
  | succ m ih =>
    have hrest := ih (n := n + 1) (by omega)
    rw [add_right_comm, add_assoc] at hrest
    rw [List.replicate_succ, List.replicate_succ, after, List.foldl_cons, answers, check_emptied (by omega)]
    exact ⟨hrest.1, congrArg _ hrest.2⟩

theorem limiter_enforces_its_bucket_rush :
    new 60 = some sixty ∧
    check sixty ⟨emptied, 511⟩ "ada" 600 = (⟨[⟨"ada", ⟨9, 600⟩⟩], 0⟩, .ok ()) ∧
    answers (check sixty) Inner.new rush
      = (⟨"ben", 0⟩, .ok ()) :: (List.replicate 10 (⟨"ada", 0⟩, .ok ()) ++
          (List.replicate 500 (⟨"ada", 0⟩, .error ⟨1⟩) ++
          (List.replicate 10 (⟨"ada", 600⟩, .ok ()) ++
            [(⟨"ada", 600⟩, .error ⟨1⟩), (⟨"ada", 601⟩, .ok ())]))) ∧
    answers (check sixty) Inner.new rush = answers (ideal_check sixty) Ideal.new rush := by
  refine ⟨?_, by decide +kernel, ?_, ?_⟩
  · unfold new
    rw [dif_neg (by norm_num)]
    norm_num [sixty]
  · have hbusy := after_emptied (m := 500) (n := 11) (by decide)
    have hfirst : after (check sixty) Inner.new (⟨"ben", 0⟩ :: List.replicate 10 ⟨"ada", 0⟩) = ⟨emptied, 11⟩ := by
      decide +kernel
    unfold rush
    rw [← List.cons_append, answers_append, hfirst, answers_append, hbusy.1, hbusy.2, ← List.cons_append]
    exact congr_arg₂ _ (by decide +kernel) (congrArg _ (by decide +kernel))
  · have hkeys : ∀ q ∈ [] ++ rush, q.key ∈ ["ada", "ben"] := by
      unfold rush
      simp [-List.reduceReplicate]
    refine (limiter_enforces_its_bucket sixty rush ?_).1 (belowCeiling_of_keys hkeys (by decide))
    unfold rush InOrder
    rw [List.pairwise_cons]
    simp only [List.pairwise_append, List.pairwise_replicate, List.mem_append, List.mem_replicate]
    norm_num

end Sequences

end CrewSync.RateLimit
