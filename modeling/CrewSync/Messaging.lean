/-
`store/messaging.rs`: posting, and the incremental read of a scope.

`read_messages` with `only_new` is three statements with nothing held between
them: it reads its cursor, it reads the oldest page past the cursor, and it moves
the cursor to the end of that page in a transaction of its own. They are three
definitions here (`cursor_of`, `page`, `advance_cursor`), so that a run can put
anything between them.

A cursor is filed under a text key. Which view of which window a key belongs to
is decided by that text alone, so that two views never share a cursor is a fact
about strings; it is the last section.
-/
import CrewSync.Sessions

set_option autoImplicit false

namespace CrewSync.Messaging

open Error Schema Rows Sessions

/-- `MAX_LIMIT`. -/
def MAX_LIMIT : ℤ := 200

/-- `Scope`, over what a channel is known by. -/
inductive ScopeOf (ι : Type) where
  | All
  | Inbox
  | Channel (id : ι) (name : String)
  deriving DecidableEq, Repr

abbrev Scope := ScopeOf Uuid

/-- `cursor_scope_for`. -/
def cursor_scope_for (base session : String) (all_sessions : Bool) : String :=
  match session.isEmpty, all_sessions with
  | true, false => base
  | _, false => base ++ "/s/" ++ session
  | _, true => base ++ "/a/" ++ session

/-- The base of a cursor key, in which `text` writes the channel. -/
def ScopeOf.base_with {ι : Type} (text : ι → String) : ScopeOf ι → String
  | .All => "all"
  | .Inbox => "inbox"
  | .Channel id _ => "channel:" ++ text id

def Scope.base (scope : Scope) : String := scope.base_with Nat.repr

/-- One scope; a channel is its id, whatever it is called. -/
def ScopeOf.Same {ι : Type} : ScopeOf ι → ScopeOf ι → Prop
  | .All, .All => True
  | .Inbox, .Inbox => True
  | .Channel id _, .Channel id' _ => id = id'
  | _, _ => False

/-- What a reading looks at: a window of an agent, a scope, and whether the
direct messages of the agent's other windows count. -/
structure View where
  team_id : Uuid
  agent_id : Uuid
  session : String
  scope : Scope
  all_sessions : Bool
  deriving DecidableEq, Repr

/-- The view of a call. -/
def view_of (auth : AuthCtx) (scope : Scope) (all_sessions : Bool) : View :=
  ⟨auth.team_id, auth.agent_id, auth.session, scope, all_sessions⟩

/-- `Scope::cursor_key_for`. -/
def View.cursor_key (v : View) : String :=
  cursor_scope_for v.scope.base v.session v.all_sessions

/-- A direct message this window should see. -/
def View.addressed (v : View) (m : Message) : Bool :=
  m.recipient_agent_id == some v.agent_id &&
    (v.all_sessions || m.recipient_session == none || m.recipient_session == some v.session)

/-- The `WHERE` clause of a read, but for the cursor. -/
def View.sees (v : View) (m : Message) : Bool :=
  match v.scope with
  | .All => m.team_id == v.team_id &&
      (m.channel_id.isSome || v.addressed m || m.sender_agent_id == v.agent_id)
  | .Inbox => v.addressed m
  | .Channel id _ => m.channel_id == some id

/-! ## Posting -/

/-- `session_label`. -/
def session_label (auth : AuthCtx) : Option String :=
  if auth.session.isEmpty then none else some auth.session

/-- Where a message goes, resolved: exactly one of a channel and an agent
(`messages_target_check`). -/
inductive Target where
  | channel (id : Uuid)
  | direct (agent : Uuid) (session : Option String)
  deriving DecidableEq, Repr

/-- The row `post_message` inserts, under the `id` its `INSERT` drew from the
sequence. It is visible to others when the transaction commits, not before. -/
def message_row (auth : AuthCtx) (target : Target) (body : String) (id : ℕ) : Message :=
  match target with
  | .channel c => ⟨id, auth.team_id, some c, none, none, auth.agent_id, session_label auth, body⟩
  | .direct a s => ⟨id, auth.team_id, none, some a, s, auth.agent_id, session_label auth, body⟩

/-! ## The three statements of a read -/

/-- `WHERE agent_id = $1 AND scope = $2`. -/
def View.owns (v : View) (c : ReadCursor) : Bool :=
  c.agent_id == v.agent_id && c.scope == v.cursor_key

/-- `SELECT last_message_id FROM read_cursors`, and 0 without a row. -/
def cursor_of (v : View) (db : Db) : ℕ :=
  ((one v.owns db.read_cursors).map ReadCursor.last_message_id).getD 0

/-- The page of an incremental read: the oldest `limit` messages of the view past
`since`. -/
def page (v : View) (since limit : ℕ) (db : Db) : List Message :=
  (select (fun m => v.sees m && since < m.id) Message.id db.messages).take limit

/-- `limit.clamp(1, MAX_LIMIT)`. -/
def clamp_limit (limit : ℤ) : ℕ := clamp limit MAX_LIMIT

/-- `messages.iter().map(|m| m.id).max().unwrap_or(since)`. -/
def new_cursor (since : ℕ) : List Message → ℕ
  | [] => since
  | m :: ms => (ms.map Message.id).foldl max m.id

/-- `SET last_message_id = GREATEST(read_cursors.last_message_id, $3)`. -/
def forward (cursor : ℕ) (c : ReadCursor) : ReadCursor :=
  { c with last_message_id := max c.last_message_id cursor }

/-- The cursor's own transaction: guarded, and never backwards. -/
def advance_cursor (now : ℕ) (auth : AuthCtx) (v : View) (cursor : ℕ) (db : Db) :
    BusResult (Unit × Db) := do
  guard now auth db
  pure ((), { db with
    read_cursors := upsert v.owns (forward cursor) ⟨v.agent_id, v.cursor_key, cursor⟩
      db.read_cursors })

/-! ## Pages -/

theorem clamp_limit_pos (limit : ℤ) : 0 < clamp_limit limit := clamp_pos _ _

theorem mem_page {v : View} {since limit : ℕ} {db : Db} {m : Message}
    (h : m ∈ page v since limit db) : m ∈ db.messages ∧ v.sees m = true ∧ since < m.id := by
  have hm := mem_select.mp (List.mem_of_mem_take h)
  simpa [and_assoc] using hm

theorem foldl_max_mem (l : List ℕ) (a : ℕ) : l.foldl max a = a ∨ l.foldl max a ∈ l := by
  induction l generalizing a with
  | nil => exact Or.inl rfl
  | cons y l ih =>
    rw [List.foldl_cons]
    rcases ih (max a y) with h | h
    · rcases Nat.le_total a y with hay | hay
      · rw [h, Nat.max_eq_right hay]
        exact Or.inr (List.mem_cons_self)
      · rw [h, Nat.max_eq_left hay]
        exact Or.inl rfl
    · exact Or.inr (List.mem_cons_of_mem _ h)

theorem new_cursor_mem (since : ℕ) {p : List Message} (h : p ≠ []) :
    ∃ m ∈ p, m.id = new_cursor since p := by
  cases p with
  | nil => exact absurd rfl h
  | cons a p =>
    rcases foldl_max_mem (p.map Message.id) a.id with hmax | hmax
    · exact ⟨a, List.mem_cons_self, hmax.symm⟩
    · obtain ⟨m, hm, hid⟩ := List.mem_map.mp hmax
      exact ⟨m, List.mem_cons_of_mem _ hm, hid⟩

/-- In a list sorted by `k`, what is before an element of the first `n` with a
smaller `k` fits in `n - 1` places. -/
theorem length_filter_lt_of_mem_take {ρ : Type} {k : ρ → ℕ} {l : List ρ} {n : ℕ} {m : ρ}
    (hsort : l.Pairwise fun a b => k a ≤ k b) (hm : m ∈ l.take n) : (l.filter fun x => k x < k m).length < n := by
  obtain ⟨i, hi, rfl⟩ := List.getElem_of_mem hm
  rw [List.length_take] at hi
  have hlen : i < l.length := by omega
  -- everything from `m` on is at least `m`
  have hdrop : ((l.drop i).filter fun x => k x < k (l.take n)[i]) = [] := by
    refine List.filter_eq_nil_iff.mpr fun x hx => ?_
    obtain ⟨j, hj, rfl⟩ := List.getElem_of_mem hx
    rw [List.length_drop] at hj
    rw [List.getElem_take, List.getElem_drop]
    rcases Nat.eq_zero_or_pos j with rfl | hpos
    · simp
    · have hle := List.pairwise_iff_getElem.mp hsort i (i + j) hlen (by omega) (by omega)
      simp only [decide_eq_true_eq]
      omega
  calc (l.filter fun x => k x < k (l.take n)[i]).length
      = ((l.take i ++ l.drop i).filter fun x => k x < k (l.take n)[i]).length := by
        rw [List.take_append_drop]
    _ = ((l.take i).filter fun x => k x < k (l.take n)[i]).length := by
        rw [List.filter_append, hdrop, List.append_nil]
    _ ≤ (l.take i).length := List.length_filter_le _ _
    _ < n := by rw [List.length_take]; omega

/-- A message of the page has fewer than `limit` messages of the view between the
cursor and itself. -/
theorem ahead_of_mem_page {v : View} {since limit : ℕ} {db : Db} {m : Message} (h : m ∈ page v since limit db) :
    (db.messages.filter fun x => v.sees x && since < x.id && x.id < m.id).length < limit := by
  have hlt := length_filter_lt_of_mem_take (pairwise_select _ _ _) h
  have hperm := (perm_select (fun x => v.sees x && decide (since < x.id)) Message.id
    db.messages).filter fun x => decide (x.id < m.id)
  rw [hperm.length_eq, List.filter_filter] at hlt
  refine lt_of_eq_of_lt (congrArg List.length (List.filter_congr fun x _ => ?_)) hlt
  exact Bool.and_comm _ _

/-- A message past the cursor is on the page, or behind all of a full page. -/
theorem mem_page_or_full {v : View} {since : ℕ} (limit : ℕ) {db : Db} {m : Message}
    (hm : m ∈ db.messages) (hsees : v.sees m = true) (hlt : since < m.id) :
    m ∈ page v since limit db ∨
      (page v since limit db).length = limit ∧ ∀ x ∈ page v since limit db, x.id ≤ m.id := by
  have hsel : m ∈ select (fun m => v.sees m && since < m.id) Message.id db.messages :=
    mem_select.mpr ⟨hm, by simp [hsees, hlt]⟩
  have hsort := pairwise_select (fun m => v.sees m && since < m.id) Message.id db.messages
  unfold page
  generalize select (fun m => v.sees m && since < m.id) Message.id db.messages = l at hsel hsort ⊢
  rw [← List.take_append_drop limit l] at hsel hsort
  rcases List.mem_append.mp hsel with h | h
  · exact Or.inl h
  · refine Or.inr ⟨?_, fun x hx => (List.pairwise_append.mp hsort).2.2 x hx m h⟩
    rw [List.length_take]
    have hpos := List.length_pos_of_mem h
    rw [List.length_drop] at hpos
    omega

/-! ## Keys do not collide -/

/-- The number a run of decimal digits stands for. -/
def value (l : List Char) : ℕ := l.foldl (fun n c => n * 10 + (c.toNat - 48)) 0

theorem value_toDigits (n : ℕ) : value (Nat.toDigits 10 n) = n := by
  induction n using Nat.strongRecOn with
  | ind n ih =>
    have hdigit : ∀ d < 10, (Nat.digitChar d).toNat - 48 = d := by decide
    by_cases hn : n < 10
    · rw [Nat.toDigits_of_lt_base hn]
      simp [value, hdigit n hn]
    · rw [Nat.toDigits_of_base_le (by omega) (by omega)]
      have hrec := ih (n / 10) (by omega)
      unfold value at hrec ⊢
      rw [List.foldl_append, hrec]
      simp only [List.foldl_cons, List.foldl_nil, hdigit (n % 10) (by omega)]
      omega

theorem repr_injective {a b : ℕ} (h : a.repr = b.repr) : a = b := by
  have hd : Nat.toDigits 10 a = Nat.toDigits 10 b := by
    rw [← Nat.toList_repr, ← Nat.toList_repr, h]
  rw [← value_toDigits a, ← value_toDigits b, hd]

/-- Texts that differ after a part without a separator differ there: both parts
can be read off the whole. -/
theorem append_inj_of_separator {a b x y : List Char} (ha : '/' ∉ a) (hb : '/' ∉ b)
    (hx : x = [] ∨ ∃ x', x = '/' :: x') (hy : y = [] ∨ ∃ y', y = '/' :: y') (h : a ++ x = b ++ y) : a = b ∧ x = y := by
  have htake : ∀ (l z : List Char), '/' ∉ l → (z = [] ∨ ∃ z', z = '/' :: z') →
      (l ++ z).takeWhile (· != '/') = l := by
    intro l z hl hz
    have hall : ∀ c ∈ l, (c != '/') = true := by
      intro c hc
      simp only [bne_iff_ne, ne_eq]
      rintro rfl
      exact hl hc
    rw [List.takeWhile_append_of_pos hall]
    rcases hz with rfl | ⟨z', rfl⟩ <;> simp
  have hab : a = b := by rw [← htake a x ha hx, ← htake b y hb hy, h]
  subst hab
  exact ⟨rfl, List.append_cancel_left h⟩

/-- What follows the base in a key. -/
def key_suffix (session : String) (all_sessions : Bool) : List Char :=
  match session.isEmpty, all_sessions with
  | true, false => []
  | _, false => '/' :: 's' :: '/' :: session.toList
  | _, true => '/' :: 'a' :: '/' :: session.toList

theorem cursor_scope_toList (base session : String) (all_sessions : Bool) :
    (cursor_scope_for base session all_sessions).toList = base.toList ++ key_suffix session all_sessions := by
  unfold cursor_scope_for key_suffix
  cases session.isEmpty <;> cases all_sessions <;> simp [String.toList_append]

theorem key_suffix_cases (session : String) (all_sessions : Bool) :
    key_suffix session all_sessions = [] ∨ ∃ x, key_suffix session all_sessions = '/' :: x := by
  unfold key_suffix
  cases session.isEmpty <;> cases all_sessions <;> simp

theorem key_suffix_inj {s s' : String} {b b' : Bool} (h : key_suffix s b = key_suffix s' b') :
    s = s' ∧ b = b' := by
  cases hs : s.isEmpty <;> cases hs' : s'.isEmpty <;> cases b <;> cases b' <;>
    simp only [key_suffix, hs, hs', List.cons.injEq, reduceCtorEq, Char.reduceEq, and_false,
      false_and, true_and] at h <;>
    simp_all [String.toList_inj, String.isEmpty_iff]

section Bases

variable {ι : Type} {text : ι → String} {a b : ScopeOf ι}

/-- `'/'` is the separator: it occurs in no base. -/
theorem slash_not_mem_base (htext : ∀ id, '/' ∉ (text id).toList) (scope : ScopeOf ι) :
    '/' ∉ (scope.base_with text).toList := by
  cases scope with
  | All => exact (by decide : '/' ∉ "all".toList)
  | Inbox => exact (by decide : '/' ∉ "inbox".toList)
  | Channel id name =>
    rw [ScopeOf.base_with, String.toList_append]
    intro h
    rcases List.mem_append.mp h with h | h
    · exact absurd h (by decide)
    · exact htext id h

theorem base_inj (hinj : Function.Injective text) (h : a.base_with text = b.base_with text) : a.Same b := by
  have hlist := congrArg String.toList h
  cases a with
  | All =>
    cases b with
    | All => trivial
    | Inbox => exact absurd h (by simp [ScopeOf.base_with])
    | Channel id name => simp [ScopeOf.base_with, String.toList_append] at hlist
  | Inbox =>
    cases b with
    | All => exact absurd h (by simp [ScopeOf.base_with])
    | Inbox => trivial
    | Channel id name => simp [ScopeOf.base_with, String.toList_append] at hlist
  | Channel id name =>
    cases b with
    | All | Inbox => simp [ScopeOf.base_with, String.toList_append] at hlist
    | Channel id' name' =>
      rw [ScopeOf.base_with, ScopeOf.base_with, String.toList_append, String.toList_append] at hlist
      exact hinj (String.toList_injective (List.append_cancel_left hlist))

/-- **A key tells its scope, its window and its view.** -/
theorem cursor_scope_inj (htext : ∀ id, '/' ∉ (text id).toList) (hinj : Function.Injective text) {s t : String}
    {all all' : Bool} (h : cursor_scope_for (a.base_with text) s all = cursor_scope_for (b.base_with text) t all') :
    a.Same b ∧ s = t ∧ all = all' := by
  have hlist := congrArg String.toList h
  rw [cursor_scope_toList, cursor_scope_toList] at hlist
  obtain ⟨hbase, hsuffix⟩ := append_inj_of_separator (slash_not_mem_base htext a) (slash_not_mem_base htext b)
    (key_suffix_cases s all) (key_suffix_cases t all') hlist
  exact ⟨base_inj hinj (String.toList_injective hbase), key_suffix_inj hsuffix⟩

end Bases

theorem slash_not_mem_repr (n : ℕ) : '/' ∉ n.repr.toList := by
  rw [Nat.toList_repr]
  intro h
  exact absurd (Nat.isDigit_of_mem_toDigits (by decide) (by decide) h) (by decide)

/-- **One key, one view.** Two windows of one agent that share a cursor key see
the same messages. -/
theorem sees_eq_of_key {v w : View} (hteam : v.team_id = w.team_id)
    (hagent : v.agent_id = w.agent_id) (hkey : v.cursor_key = w.cursor_key) (m : Message) :
    v.sees m = w.sees m := by
  obtain ⟨hsame, hsession, hall⟩ :=
    cursor_scope_inj slash_not_mem_repr (fun _ _ => repr_injective) hkey
  obtain ⟨t, a, s, sc, b⟩ := v
  obtain ⟨t', a', s', sc', b'⟩ := w
  simp only at hteam hagent hsession hall hsame
  subst hteam hagent hsession hall
  cases sc <;> cases sc' <;> first
    | rfl
    | exact hsame.elim
    | exact congrArg (fun id => m.channel_id == some id) hsame

end CrewSync.Messaging
