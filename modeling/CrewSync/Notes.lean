/-
`store/notes.rs`: what is written to a note, and the trail of what was written.

`set_note` is one transaction of two statements. The first inserts the note or rewrites it
in place, and either way holds its key against every other writer until the transaction
ends; a first write that has not committed is waited for like any other. The second adds
the revision, whose id is drawn from a sequence at that moment and stays drawn if the
transaction is rolled back. `delete_note` is a single statement, and the revisions go with
the row they belong to: what is written under the same name afterwards is another note.

The state keeps, besides the tables and the transactions that are open, what was committed
under each name: `all` in full, `since` only since the note there was last created.

Left out: what is read (`get_note`, `list_notes`, `search_notes`), and `prune`, which
removes old revisions on purpose.
-/
import CrewSync.Send
import CrewSync.Runs

set_option autoImplicit false

namespace CrewSync.Notes

open Error Schema Rows Auth Send Runs Crew

/-! ## The tables -/

/-- `MAX_VALUE_BYTES`, `MAX_TAGS`, `MAX_TAG_BYTES`, `MAX_SCOPE_BYTES` and `MAX_KEY_BYTES`. -/
def MAX_VALUE_BYTES : ℕ := 1048576

def MAX_TAGS : ℕ := 16

def MAX_TAG_BYTES : ℕ := 64

def MAX_SCOPE_BYTES : ℕ := 64

def MAX_KEY_BYTES : ℕ := 256

/-- `notes`, `UNIQUE (team_id, scope, key)`. -/
structure Note where
  id : Uuid
  team_id : Uuid
  scope : String
  key : String
  value : String
  tags : List String
  updated_by : Option Uuid
  updated_at : ℕ
  deriving DecidableEq, Repr

/-- `note_revisions`, with `id BIGSERIAL` and `note_id … ON DELETE CASCADE`. -/
structure NoteRevision where
  id : ℕ
  note_id : Uuid
  value : String
  updated_by : Option Uuid
  deriving DecidableEq, Repr

/-- `SetInput`. -/
structure SetInput where
  scope : Option String
  key : String
  value : String
  tags : Option (List String)
  deriving DecidableEq, Repr

/-- Where a note is: its team, its scope and its key. -/
abbrev Place := Uuid × String × String

def place (n : Note) : Place := (n.team_id, n.scope, n.key)

section Input

-- `str::to_lowercase`
variable (lower : String → String)

/-- `normalize_scope`. -/
def normalize_scope (scope : Option String) : String :=
  ((scope.map fun s => lower (trim s)).filter fun s => !s.isEmpty).getD "global"

/-- What `set_note` checks before it writes: the scope, the key and the tags it will write. -/
def check_note (input : SetInput) : BusResult (String × String × List String) := do
  let scope := normalize_scope lower input.scope
  ensure (scope.utf8ByteSize ≤ MAX_SCOPE_BYTES) (.Invalid
    (s!"note scope is {scope.utf8ByteSize} bytes; the limit is {MAX_SCOPE_BYTES}. A scope is a " ++
      "namespace such as a repository name; the content belongs in `value`"))
  let key := trim input.key
  ensure (!key.isEmpty) (.Invalid "note key cannot be empty")
  ensure (key.utf8ByteSize ≤ MAX_KEY_BYTES) (.Invalid
    (s!"note key is {key.utf8ByteSize} bytes; the limit is {MAX_KEY_BYTES}. A key is a name such as " ++
      "\"deploy-runbook\"; the content belongs in `value`"))
  ensure (input.value.utf8ByteSize ≤ MAX_VALUE_BYTES) (.Invalid
    s!"note value is {input.value.utf8ByteSize} bytes; the limit is {MAX_VALUE_BYTES}")
  let tags := ((input.tags.getD []).map fun t => lower (trim t)).filter fun t => !t.isEmpty
  ensure (tags.length ≤ MAX_TAGS) (.Invalid
    s!"a note carries at most {MAX_TAGS} tags; got {tags.length}")
  let _ ← tags.mapM fun tag => check_text "note tag" tag MAX_TAG_BYTES
  pure (scope, key, tags)

end Input

/-! ## The system -/

/-- A `set_note` whose first statement has run. -/
structure Tx where
  xid : ℕ
  now : ℕ
  agent_id : Uuid
  place : Place
  value : String
  tags : List String
  /-- The note it rewrites, or inserts. -/
  note_id : Uuid
  /-- The revision's id, once it is drawn. -/
  revision : Option ℕ
  deriving DecidableEq, Repr

/-- The state of the system. -/
structure Sys where
  notes : List Note
  revisions : List NoteRevision
  /-- The next value of the sequence behind `note_revisions.id`. -/
  next_id : ℕ
  txs : List Tx
  /-- What was committed where, in commit order. -/
  all : List (Place × String)
  /-- The same, without what was committed before a deletion. -/
  since : List (Place × String)

/-- What can happen next. -/
inductive Act where
  /-- A `set_note` begins and runs its first statement. `fresh` is the `gen_random_uuid()` of an
  insert. -/
  | upsert (x now : ℕ) (auth : AuthCtx) (input : SetInput) (fresh : Uuid)
  /-- It adds the revision. -/
  | revise (x : ℕ)
  | commit (x : ℕ)
  | rollback (x : ℕ)
  | delete_note (auth : AuthCtx) (scope : Option String) (key : String)

/-- The state without a note. -/
def Sys.start : Sys := { notes := [], revisions := [], next_id := 1, txs := [], all := [], since := [] }

/-- The note as a transaction leaves it. -/
def written (t : Tx) (n : Note) : Note :=
  { n with value := t.value, tags := t.tags, updated_by := some t.agent_id, updated_at := t.now }

/-- The note as a transaction inserts it. -/
def inserted (t : Tx) : Note :=
  { id := t.note_id, team_id := t.place.1, scope := t.place.2.1, key := t.place.2.2, value := t.value,
    tags := t.tags, updated_by := some t.agent_id, updated_at := t.now }

/-- The revision of a transaction. -/
def revision_of (t : Tx) (r : ℕ) : NoteRevision :=
  { id := r, note_id := t.note_id, value := t.value, updated_by := some t.agent_id }

/-- A transaction holds the key. -/
def Sys.held (s : Sys) (p : Place) : Bool := s.txs.any fun t => t.place == p

/-- The id is nobody's yet. -/
def Sys.unused (s : Sys) (id : Uuid) : Bool :=
  s.notes.all (fun n => n.id != id) && s.txs.all fun t => t.note_id != id

section Step

variable (lower : String → String)

/-- One step. A statement that finds its key held waits: it has no step. -/
def step (s : Sys) : Act → Option Sys
  | .upsert x now auth input fresh =>
    match check_note lower input with
    | .error _ => some s
    | .ok (scope, key, tags) =>
      let p := (auth.team_id, scope, key)
      if s.held p || s.txs.any fun t => t.xid == x then none
      else
        match one (fun n => place n == p) s.notes with
        | some n => some { s with
            txs := insert_into ⟨x, now, auth.agent_id, p, input.value, tags, n.id, none⟩ s.txs }
        | none =>
          if s.unused fresh then some { s with
            txs := insert_into ⟨x, now, auth.agent_id, p, input.value, tags, fresh, none⟩ s.txs }
          else none
  | .revise x =>
    match one (fun t => t.xid == x) s.txs with
    | some t =>
      if t.revision.isSome then none
      else some { s with
        txs := update (fun u => u.xid == x) (fun u => { u with revision := some s.next_id }) s.txs
        next_id := s.next_id + 1 }
    | none => none
  | .commit x =>
    match one (fun t => t.xid == x) s.txs with
    | some t =>
      match t.revision with
      | some r => some { s with
          notes := upsert (fun n => n.id == t.note_id) (written t) (inserted t) s.notes
          revisions := insert_into (revision_of t r) s.revisions
          txs := delete (fun u => u.xid == x) s.txs
          all := s.all ++ [(t.place, t.value)]
          since := s.since ++ [(t.place, t.value)] }
      | none => none
    | none => none
  | .rollback x => some { s with txs := delete (fun u => u.xid == x) s.txs }
  | .delete_note auth scope key =>
    let p := (auth.team_id, normalize_scope lower scope, trim key)
    if s.held p then none
    else some { s with
      notes := delete (fun n => place n == p) s.notes
      revisions := delete (fun r => s.notes.any fun n => place n == p && n.id == r.note_id) s.revisions
      since := delete (fun e => e.1 == p) s.since }

end Step

/-! ## The law -/

/-- `WHERE note_id = $1 ORDER BY id`. -/
def Sys.revisions_of (s : Sys) (id : Uuid) : List NoteRevision :=
  select (fun r => r.note_id == id) NoteRevision.id s.revisions

/-- What was committed at a place. -/
def values_at (p : Place) (h : List (Place × String)) : List String :=
  (h.filter fun e => e.1 == p).map Prod.snd

/-- The revisions are what the history `h` says was committed. -/
structure Recorded (h : List (Place × String)) (s : Sys) : Prop where
  /-- Those of a note, by their ids, are the values it held in commit order. -/
  revisions : ∀ n ∈ s.notes, (s.revisions_of n.id).map NoteRevision.value = values_at (place n) h
  /-- The newest is the value it has. -/
  newest : ∀ n ∈ s.notes, (s.revisions_of n.id).getLast?.map NoteRevision.value = some n.value
  /-- No value is missing. -/
  complete : ∀ e ∈ h, ∃ n ∈ s.notes, place n = e.1 ∧ ∃ r ∈ s.revisions_of n.id, r.value = e.2

/-- Nothing is left of a note that is not there. -/
def NothingLeft (s : Sys) : Prop := ∀ r ∈ s.revisions, ∃ n ∈ s.notes, n.id = r.note_id

/-! ## Trails -/

/-- The revisions of a note, in the order they were committed. -/
def trail (id : Uuid) (l : List NoteRevision) : List NoteRevision := l.filter fun r => r.note_id == id

section Trails

variable {id : Uuid} {l : List NoteRevision} {r : NoteRevision} {p : Place} {h : List (Place × String)}
  {e : Place × String}

theorem mem_trail : r ∈ trail id l ↔ r ∈ l ∧ r.note_id = id := by
  simp [trail]

theorem trail_insert_into :
    trail id (insert_into r l) = trail id l ++ if r.note_id == id then [r] else [] := by
  unfold trail insert_into
  rw [List.filter_append, List.filter_singleton]
  cases r.note_id == id <;> rfl

theorem values_at_append :
    values_at p (h ++ [e]) = values_at p h ++ if e.1 == p then [e.2] else [] := by
  unfold values_at
  rw [List.filter_append, List.filter_singleton, List.map_append]
  cases e.1 == p <;> rfl

theorem mem_values_at {v : String} : v ∈ values_at p h ↔ (p, v) ∈ h := by
  simp only [values_at, List.mem_map, List.mem_filter, beq_iff_eq]
  constructor
  · rintro ⟨⟨q, w⟩, ⟨hin, rfl⟩, rfl⟩
    exact hin
  · exact fun hin => ⟨(p, v), ⟨hin, rfl⟩, rfl⟩

/-- A deletion elsewhere is not felt. -/
theorem values_at_delete {q : Place} (hne : p ≠ q) :
    values_at p (delete (fun e => e.1 == q) h) = values_at p h := by
  unfold values_at delete
  rw [List.filter_filter]
  congr 1
  refine List.filter_congr fun e _ => ?_
  by_cases hp : e.1 = p
  · have hq : (e.1 == q) = false := by simpa [hp] using hne
    simp only [hq, Bool.not_false, Bool.and_true]
  · have hno : (e.1 == p) = false := by simpa using hp
    simp only [hno, Bool.false_and]

/-- The trail of a note that holds what was committed at its place, and ends with its value. -/
structure Trail (n : Note) (l : List NoteRevision) (h : List (Place × String)) : Prop where
  sorted : (trail n.id l).Pairwise fun a b => a.id < b.id
  values : (trail n.id l).map NoteRevision.value = values_at (place n) h
  newest : (trail n.id l).getLast?.map NoteRevision.value = some n.value

/-- Ordered by their ids, the revisions are the trail. -/
theorem Trail.select {n : Note} (ht : Trail n l h) :
    select (fun r => r.note_id == n.id) NoteRevision.id l = trail n.id l := by
  have hle : (trail n.id l).Pairwise fun a b => a.id ≤ b.id := ht.sorted.imp fun hlt => hlt.le
  exact hle.insertionSort_eq

end Trails

/-! ## The invariant -/

section Invariant

variable {lower : String → String} {s t : Sys} {a : Act} {x : Tx} {n : ℕ} {auth : AuthCtx}

/-- A transaction rewrites the note at its place, or there is none; and the id it has drawn is past
those of the note. -/
structure TxOk (s : Sys) (x : Tx) : Prop where
  note : (∃ n ∈ s.notes, n.id = x.note_id ∧ place n = x.place) ∨
    ∀ n ∈ s.notes, n.id ≠ x.note_id ∧ place n ≠ x.place
  drawn : ∀ r, x.revision = some r →
    r < s.next_id ∧ ∀ v ∈ s.revisions, v.note_id = x.note_id → v.id < r

/-- What holds in every state. -/
structure Inv (s : Sys) : Prop where
  ids : Keyed Note.id s.notes
  places : Keyed place s.notes
  /-- Each key is held once, and each note written once at a time. -/
  held : Keyed Tx.place s.txs
  owned : Keyed Tx.note_id s.txs
  txs : ∀ x ∈ s.txs, TxOk s x
  left : NothingLeft s
  below : ∀ r ∈ s.revisions, r.id < s.next_id
  trails : ∀ n ∈ s.notes, Trail n s.revisions s.since
  there : ∀ e ∈ s.since, ∃ n ∈ s.notes, place n = e.1

theorem start_inv : Inv Sys.start :=
  ⟨Keyed.nil _, Keyed.nil _, Keyed.nil _, Keyed.nil _, fun _ h => absurd h List.not_mem_nil,
    fun _ h => absurd h List.not_mem_nil, fun _ h => absurd h List.not_mem_nil,
    fun _ h => absurd h List.not_mem_nil, fun _ h => absurd h List.not_mem_nil⟩

theorem recorded_of_inv (hs : Inv s) : Recorded s.since s ∧ NothingLeft s := by
  have hselect : ∀ n ∈ s.notes, s.revisions_of n.id = trail n.id s.revisions :=
    fun n hn => (hs.trails n hn).select
  refine ⟨⟨fun n hn => ?_, fun n hn => ?_, fun e he => ?_⟩, hs.left⟩
  · rw [hselect n hn]
    exact (hs.trails n hn).values
  · rw [hselect n hn]
    exact (hs.trails n hn).newest
  · obtain ⟨n, hn, hplace⟩ := hs.there e he
    have hin : e.2 ∈ values_at (place n) s.since := mem_values_at.mpr (by rw [hplace]; exact he)
    rw [← (hs.trails n hn).values] at hin
    obtain ⟨r, hr, hvalue⟩ := List.mem_map.mp hin
    exact ⟨n, hn, hplace, r, by rw [hselect n hn]; exact hr, hvalue⟩

/-! ## The steps -/

/-- A transaction that begins holds a key nobody held, and writes a note nobody writes. -/
theorem Inv.insert (hs : Inv s) {place : Place} (hplace : x.place = place) (hfree : s.held place = false)
    (howned : ∀ u ∈ s.txs, u.note_id ≠ x.note_id) (hx : TxOk s x) :
    Inv { s with txs := insert_into x s.txs } := by
  refine ⟨hs.ids, hs.places, hs.held.insert_into fun u hu heq => ?_, hs.owned.insert_into howned,
    fun u hu => ?_, hs.left, hs.below, hs.trails, hs.there⟩
  · rw [Sys.held, List.any_eq_false] at hfree
    exact hfree u hu (by rw [heq, hplace]; exact beq_self_eq_true _)
  · rcases mem_insert_into.mp hu with hu | rfl
    · exact ⟨(hs.txs u hu).note, (hs.txs u hu).drawn⟩
    · exact ⟨hx.note, hx.drawn⟩

theorem upsert_inv {now : ℕ} {input : SetInput} {fresh : Uuid} (hs : Inv s)
    (h : step lower s (.upsert n now auth input fresh) = some t) : Inv t := by
  simp only [step] at h
  split at h
  · rw [← Option.some.inj h]
    exact hs
  rename_i scope key tags hok
  split at h
  · cases h
  rename_i hno
  simp only [Bool.or_eq_true, not_or, Bool.not_eq_true] at hno
  split at h
  · rename_i m hone
    have hm := mem_of_one hone
    have hplace : place m = (auth.team_id, scope, key) := by simpa using pos_of_one hone
    rw [← Option.some.inj h]
    refine hs.insert rfl hno.1 (fun u hu heq => ?_)
      ⟨Or.inl ⟨m, hm, rfl, hplace⟩, fun r hr => nomatch hr⟩
    -- whoever writes this note holds its key
    rcases (hs.txs u hu).note with ⟨m', hm', hid, hp⟩ | hnone
    · rw [hs.ids.eq hm' hm (hid.trans heq)] at hp
      have hheld := hno.1
      rw [Sys.held, List.any_eq_false] at hheld
      exact hheld u hu (by rw [← hp, hplace]; exact beq_self_eq_true _)
    · exact (hnone m hm).1 heq.symm
  · rename_i hnone
    split at h
    · rename_i hunused
      simp only [Sys.unused, Bool.and_eq_true, List.all_eq_true, bne_iff_ne] at hunused
      rw [← Option.some.inj h]
      refine hs.insert rfl hno.1 (fun u hu heq => hunused.2 u hu heq)
        ⟨Or.inr fun m hm => ⟨hunused.1 m hm, fun hp => ?_⟩, fun r hr => nomatch hr⟩
      have := one_eq_none.mp hnone m hm
      rw [hp] at this
      simp at this
    · cases h

theorem revise_inv (hs : Inv s) (h : step lower s (.revise n) = some t) : Inv t := by
  simp only [step] at h
  split at h
  swap
  · cases h
  split at h
  · cases h
  rw [← Option.some.inj h]
  refine ⟨hs.ids, hs.places, hs.held.update fun _ => rfl, hs.owned.update fun _ => rfl, fun u hu => ?_, hs.left,
    fun r hr => Nat.lt_succ_of_lt (hs.below r hr), hs.trails, hs.there⟩
  obtain ⟨y, hy, rfl⟩ := mem_update.mp hu
  split
  · -- the id just drawn is past all of them
    refine ⟨(hs.txs y hy).note, fun r hr => ?_⟩
    obtain rfl := Option.some.inj hr
    exact ⟨Nat.lt_succ_self _, fun v hv _ => hs.below v hv⟩
  · refine ⟨(hs.txs y hy).note, fun r hr => ?_⟩
    obtain ⟨hlt, hpast⟩ := (hs.txs y hy).drawn r hr
    exact ⟨Nat.lt_succ_of_lt hlt, hpast⟩

theorem rollback_inv (hs : Inv s) (h : step lower s (.rollback n) = some t) : Inv t := by
  rw [← Option.some.inj h]
  exact ⟨hs.ids, hs.places, hs.held.delete _, hs.owned.delete _,
    fun u hu => ⟨(hs.txs u (mem_delete.mp hu).1).note, (hs.txs u (mem_delete.mp hu).1).drawn⟩, hs.left, hs.below,
    hs.trails, hs.there⟩

/-- Before a transaction commits, the trail of its note is what was committed at its place. -/
theorem Inv.before (hs : Inv s) (hx : x ∈ s.txs) : (trail x.note_id s.revisions).Pairwise (fun a b => a.id < b.id) ∧
      (trail x.note_id s.revisions).map NoteRevision.value = values_at x.place s.since := by
  rcases (hs.txs x hx).note with ⟨n, hn, hid, hplace⟩ | hnone
  · rw [← hid, ← hplace]
    exact ⟨(hs.trails n hn).sorted, (hs.trails n hn).values⟩
  · -- a new note: nothing was committed, and nothing is left of another
    have htrail : trail x.note_id s.revisions = [] := by
      refine List.filter_eq_nil_iff.mpr fun r hr heq => ?_
      obtain ⟨n, hn, hid⟩ := hs.left r hr
      exact (hnone n hn).1 (hid.trans (by simpa using heq))
    have hvalues : values_at x.place s.since = [] := by
      refine List.eq_nil_iff_forall_not_mem.mpr fun v hv => ?_
      obtain ⟨n, hn, hplace⟩ := hs.there _ (mem_values_at.mp hv)
      exact (hnone n hn).2 hplace
    rw [htrail, hvalues]
    exact ⟨List.Pairwise.nil, rfl⟩

/-- The notes after a commit: the transaction's, and the others as they were. -/
theorem Inv.mem_committed (hs : Inv s) (hx : x ∈ s.txs) {n : Note}
    (hn : n ∈ upsert (fun n => n.id == x.note_id) (written x) (inserted x) s.notes) :
    n.id = x.note_id ∧ place n = x.place ∧ n.value = x.value ∨
      n ∈ s.notes ∧ n.id ≠ x.note_id ∧ place n ≠ x.place := by
  rcases mem_upsert hn with ⟨m, hm, rfl⟩ | ⟨rfl, -⟩
  · by_cases hid : (m.id == x.note_id) = true
    · rw [if_pos hid]
      rw [beq_iff_eq] at hid
      rcases (hs.txs x hx).note with ⟨m', hm', hid', hplace⟩ | hnone
      · rw [hs.ids.eq hm' hm (hid'.trans hid.symm)] at hplace
        exact Or.inl ⟨hid, hplace, rfl⟩
      · exact absurd hid (hnone m hm).1
    · rw [if_neg hid]
      rw [beq_iff_eq] at hid
      refine Or.inr ⟨hm, hid, fun hplace => ?_⟩
      rcases (hs.txs x hx).note with ⟨m', hm', hid', hplace'⟩ | hnone
      · rw [hs.places.eq hm' hm (hplace'.trans hplace.symm)] at hid'
        exact hid hid'
      · exact (hnone m hm).2 hplace
  · exact Or.inl ⟨rfl, rfl, rfl⟩

theorem committed_mem (x : Tx) (l : List Note) :
    ∃ n ∈ upsert (fun n => n.id == x.note_id) (written x) (inserted x) l, n.id = x.note_id := by
  unfold upsert
  split
  · rename_i hany
    obtain ⟨n, hn, hid⟩ := List.any_eq_true.mp hany
    exact ⟨_, mem_update_of_pos hn hid, beq_iff_eq.mp hid⟩
  · exact ⟨_, mem_insert_into.mpr (Or.inr rfl), rfl⟩

/-- What is there stays there. -/
theorem committed_kept {n : Note} {l : List Note} (hn : n ∈ l) :
    ∃ m ∈ upsert (fun n => n.id == x.note_id) (written x) (inserted x) l, m.id = n.id ∧ place m = place n := by
  unfold upsert
  split
  · refine ⟨_, mem_update_of_mem hn, ?_⟩
    split <;> exact ⟨rfl, rfl⟩
  · exact ⟨n, mem_insert_into.mpr (Or.inl hn), rfl, rfl⟩

/-- The note of a commit has the trail it had, and the revision after it. -/
theorem Inv.trail_committed (hs : Inv s) (hx : x ∈ s.txs) {r : ℕ} (hr : x.revision = some r) {n : Note}
    (hid : n.id = x.note_id) (hplace : place n = x.place) (hvalue : n.value = x.value) :
    Trail n (insert_into (revision_of x r) s.revisions) (s.since ++ [(x.place, x.value)]) := by
  obtain ⟨hsorted, hvalues⟩ := hs.before hx
  obtain ⟨-, hpast⟩ := (hs.txs x hx).drawn r hr
  have htrail : trail n.id (insert_into (revision_of x r) s.revisions) =
      trail x.note_id s.revisions ++ [revision_of x r] := by
    rw [trail_insert_into, hid, if_pos (by simp [revision_of])]
  refine ⟨?_, ?_, ?_⟩
  · rw [htrail, List.pairwise_append]
    refine ⟨hsorted, List.pairwise_singleton _ _, fun v hv w hw => ?_⟩
    obtain ⟨hmem, hnote⟩ := mem_trail.mp hv
    rw [List.mem_singleton.mp hw]
    exact hpast v hmem hnote
  · rw [htrail, List.map_append, hvalues, values_at_append, hplace, if_pos (beq_self_eq_true x.place)]
    rfl
  · rw [htrail, List.getLast?_append]
    simp [hvalue, revision_of]

/-- The other notes have the trails they had. -/
theorem Trail.other {n : Note} {l : List NoteRevision} {h : List (Place × String)} {r : NoteRevision}
    {e : Place × String} (ht : Trail n l h) (hid : r.note_id ≠ n.id) (hplace : e.1 ≠ place n) :
    Trail n (insert_into r l) (h ++ [e]) := by
  have htrail : trail n.id (insert_into r l) = trail n.id l := by
    rw [trail_insert_into, if_neg (by simpa using hid), List.append_nil]
  have hvalues : values_at (place n) (h ++ [e]) = values_at (place n) h := by
    rw [values_at_append, if_neg (by simpa using hplace), List.append_nil]
  refine ⟨?_, ?_, ?_⟩
  · rw [htrail]
    exact ht.sorted
  · rw [htrail, hvalues]
    exact ht.values
  · rw [htrail]
    exact ht.newest

theorem commit_inv (hs : Inv s) (h : step lower s (.commit n) = some t) : Inv t := by
  simp only [step] at h
  split at h
  swap
  · cases h
  rename_i x hone
  split at h
  swap
  · cases h
  rename_i r hr
  have hx := mem_of_one hone
  have hxid : x.xid = n := by simpa using pos_of_one hone
  rw [← Option.some.inj h]
  obtain ⟨hlt, hpast⟩ := (hs.txs x hx).drawn r hr
  refine ⟨hs.ids.upsert (fun _ => rfl) fun a ha => by simpa [inserted] using ha, ?_, hs.held.delete _,
    hs.owned.delete _, fun u hu => ?_, fun v hv => ?_, fun v hv => ?_, fun m hm => ?_, fun e he => ?_⟩
  · unfold upsert
    split
    · exact hs.places.update fun _ => rfl
    · rename_i hany
      refine hs.places.insert_into fun m hm hplace => ?_
      rcases (hs.txs x hx).note with ⟨m', hm', hid, -⟩ | hnone
      · exact hany (List.any_eq_true.mpr ⟨m', hm', by simpa using hid⟩)
      · exact (hnone m hm).2 hplace
  · -- another transaction writes another note, at another place
    obtain ⟨hu, hux⟩ := mem_delete.mp hu
    have hne : u ≠ x := by
      rintro rfl
      rw [hxid] at hux
      simp at hux
    have hplace : u.place ≠ x.place := fun heq => hne (hs.held.eq hu hx heq)
    have hnote : u.note_id ≠ x.note_id := fun heq => hne (hs.owned.eq hu hx heq)
    refine ⟨?_, fun q hq => ?_⟩
    · rcases (hs.txs u hu).note with ⟨m, hm, hid, hp⟩ | hnone
      · obtain ⟨m', hm', hid', hp'⟩ := committed_kept (x := x) hm
        exact Or.inl ⟨m', hm', hid'.trans hid, hp'.trans hp⟩
      · refine Or.inr fun m hm => ?_
        rcases hs.mem_committed hx hm with ⟨hid, hp, -⟩ | ⟨hm, -⟩
        · rw [hid, hp]
          exact ⟨hnote.symm, hplace.symm⟩
        · exact hnone m hm
    · obtain ⟨hlt', hpast'⟩ := (hs.txs u hu).drawn q hq
      refine ⟨hlt', fun v hv hvn => ?_⟩
      rcases mem_insert_into.mp hv with hv | rfl
      · exact hpast' v hv hvn
      · exact absurd hvn.symm hnote
  · rcases mem_insert_into.mp hv with hv | rfl
    · obtain ⟨m, hm, hid⟩ := hs.left v hv
      obtain ⟨m', hm', hid', -⟩ := committed_kept (x := x) hm
      exact ⟨m', hm', hid'.trans hid⟩
    · exact committed_mem x s.notes
  · rcases mem_insert_into.mp hv with hv | rfl
    · exact hs.below v hv
    · exact hlt
  · rcases hs.mem_committed hx hm with ⟨hid, hplace, hvalue⟩ | ⟨hm, hid, hplace⟩
    · exact hs.trail_committed hx hr hid hplace hvalue
    · exact (hs.trails m hm).other (fun heq => hid heq.symm) fun heq => hplace heq.symm
  · rcases List.mem_append.mp he with he | he
    · obtain ⟨m, hm, hplace⟩ := hs.there e he
      obtain ⟨m', hm', -, hplace'⟩ := committed_kept (x := x) hm
      exact ⟨m', hm', hplace'.trans hplace⟩
    · rw [List.mem_singleton.mp he]
      obtain ⟨m, hm, hid⟩ := committed_mem x s.notes
      rcases hs.mem_committed hx hm with ⟨-, hplace, -⟩ | ⟨-, hno, -⟩
      · exact ⟨m, hm, hplace⟩
      · exact absurd hid hno

theorem delete_note_inv {scope : Option String} {key : String} (hs : Inv s)
    (h : step lower s (.delete_note auth scope key) = some t) : Inv t := by
  simp only [step] at h
  split at h
  · cases h
  rename_i hfree
  rw [Bool.not_eq_true] at hfree
  rw [← Option.some.inj h]
  generalize (auth.team_id, normalize_scope lower scope, trim key) = p at hfree ⊢
  -- the revisions of a note elsewhere stay
  have hstay : ∀ n ∈ s.notes, place n ≠ p →
      ∀ r : NoteRevision, r.note_id = n.id → (s.notes.any fun m => place m == p && m.id == r.note_id) = false := by
    intro n hn hne r hr
    rw [List.any_eq_false]
    intro m hm hboth
    simp only [Bool.and_eq_true, beq_iff_eq] at hboth
    rw [hs.ids.eq hm hn (hboth.2.trans hr)] at hboth
    exact hne hboth.1
  refine ⟨hs.ids.delete _, hs.places.delete _, hs.held, hs.owned, fun u hu => ?_, fun v hv => ?_,
    fun v hv => hs.below v (mem_delete.mp hv).1, fun n hn => ?_, fun e he => ?_⟩
  · have hne : u.place ≠ p := by
      rw [Sys.held, List.any_eq_false] at hfree
      simpa using hfree u hu
    refine ⟨?_, fun q hq => ?_⟩
    · rcases (hs.txs u hu).note with ⟨m, hm, hid, hplace⟩ | hnone
      · exact Or.inl ⟨m, mem_delete.mpr ⟨hm, by simpa [hplace] using hne⟩, hid, hplace⟩
      · exact Or.inr fun m hm => hnone m (mem_delete.mp hm).1
    · obtain ⟨hlt, hpast⟩ := (hs.txs u hu).drawn q hq
      exact ⟨hlt, fun v hv => hpast v (mem_delete.mp hv).1⟩
  · obtain ⟨hv, hgone⟩ := mem_delete.mp hv
    obtain ⟨m, hm, hid⟩ := hs.left v hv
    refine ⟨m, mem_delete.mpr ⟨hm, ?_⟩, hid⟩
    rw [List.any_eq_false] at hgone
    have := hgone m hm
    simpa [hid] using this
  · obtain ⟨hn, hne⟩ := mem_delete.mp hn
    rw [beq_eq_false_iff_ne] at hne
    have htrail : trail n.id (delete (fun r => s.notes.any fun m => place m == p && m.id == r.note_id) s.revisions) =
        trail n.id s.revisions := by
      unfold trail delete
      rw [List.filter_filter]
      refine List.filter_congr fun r _ => ?_
      by_cases hr : r.note_id = n.id
      · simp only [hstay n hn hne r hr, Bool.not_false, Bool.and_true]
      · have hno : (r.note_id == n.id) = false := by simpa using hr
        simp only [hno, Bool.false_and]
    have ht := hs.trails n hn
    refine ⟨?_, ?_, ?_⟩
    · rw [htrail]
      exact ht.sorted
    · rw [htrail, values_at_delete hne]
      exact ht.values
    · rw [htrail]
      exact ht.newest
  · obtain ⟨he, hne⟩ := mem_delete.mp he
    obtain ⟨m, hm, hplace⟩ := hs.there e he
    exact ⟨m, mem_delete.mpr ⟨hm, by rw [hplace]; exact hne⟩, hplace⟩

theorem Inv.step (hs : Inv s) (h : step lower s a = some t) : Inv t := by
  cases a with
  | upsert n now auth input fresh => exact upsert_inv hs h
  | revise n => exact revise_inv hs h
  | commit n => exact commit_inv hs h
  | rollback n => exact rollback_inv hs h
  | delete_note auth scope key => exact delete_note_inv hs h

end Invariant

/-! ## The law -/

/-- **A note's revisions are its history** since it was last created, in every run, and nothing is
left of a note that was deleted. -/
theorem revisions_are_the_history {lower : String → String} {tr : List (Trans Sys Act)} {s : Sys}
    (hrun : Run (Rel (step lower)) Sys.start tr s) : Recorded s.since s ∧ NothingLeft s :=
  recorded_of_inv (hrun.invariant' start_inv fun _ _ _ hs hr => hs.step hr)

/-! ## A runbook -/

/-- What is written to the runbook. -/
def runbook (value : String) : SetInput := { scope := none, key := "runbook", value := value, tags := none }

/-- Ada writes the runbook, deletes it, and writes it again. -/
def rewrite : List Act :=
  [.upsert 1 0 ada_at_desk (runbook "restart") 10, .revise 1, .commit 1, .delete_note ada_at_desk none "runbook",
    .upsert 2 0 ada_at_desk (runbook "reboot") 11, .revise 2, .commit 2]

theorem rewrite_run : (exec (step to_lowercase) Sys.start rewrite).isSome = true := by decide

/-- The run, and where it ends. -/
def rewrite_end : List (Trans Sys Act) × Sys := (exec (step to_lowercase) Sys.start rewrite).get rewrite_run

theorem revisions_are_the_history_rewrite :
    rewrite_end.2.since = [((1, "global", "runbook"), "reboot")] ∧
      Recorded rewrite_end.2.since rewrite_end.2 ∧ NothingLeft rewrite_end.2 :=
  ⟨by decide, revisions_are_the_history (exec_get rewrite_run)⟩

/-- Of the two values the runbook held, one is missing from its revisions. -/
theorem revisions_forget_what_was_deleted :
    Run (Rel (step to_lowercase)) Sys.start rewrite_end.1 rewrite_end.2 ∧
      values_at (1, "global", "runbook") rewrite_end.2.all = ["restart", "reboot"] ∧
      rewrite_end.2.revisions.map NoteRevision.value = ["reboot"] ∧
      ¬ Recorded rewrite_end.2.all rewrite_end.2 := by
  refine ⟨exec_get rewrite_run, by decide, by decide, fun hrec => ?_⟩
  have hno : ∀ r ∈ rewrite_end.2.revisions, r.value ≠ "restart" := by decide
  obtain ⟨n, -, -, r, hr, hvalue⟩ := hrec.complete ((1, "global", "runbook"), "restart") (by decide)
  exact hno r (mem_select.mp hr).1 hvalue

end CrewSync.Notes
