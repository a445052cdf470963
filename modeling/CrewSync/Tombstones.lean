/-
Tombstones, over whole runs of the system of moves.

A reader that is told by the broker that a body is gone marks the message, for good.
It decides by the row as it was when it read it, and the mark is unconditional: by the
time it commits, the message may have been moved, and the copy that was not found may
have been dropped because nobody needed it any more.

Where the row still names the place the reader asked, the mark is right. The broker
issued that locator (every locator in a row, in an item of a move or in the hands of a
process is one the broker answered with), nothing was found there, and what is gone
stays gone.
-/
import CrewSync.Moves

set_option autoImplicit false

namespace CrewSync.Tombstones

open Error Schema Rows Outbox Migrate Release
open Broker Moves Runs Crew

/-! ## The law -/

/-- The row has the body, and is where it belongs: on Postgres, or not published yet. -/
def in_row (m : ConversationMessage) : Bool :=
  m.body != "" && (m.backend == .postgres || m.canonical_locator.isNone)

/-- The broker has the body where the row says it is. -/
def on_broker (b : List Entry) (m : ConversationMessage) : Bool :=
  m.canonical_locator.any fun l => holds l m.id b

/-- The body of the message is not lost. -/
def body_held (s : Sys) (message_id : Uuid) : Bool :=
  s.db.conversation_messages.any fun m => m.id == message_id && (in_row m || on_broker s.broker m)

/-- A message is only given a tombstone when its body is gone. -/
def TombstoneLaw (tr : List (Trans Sys Act)) : Prop :=
  ∀ e ∈ tr, ∀ i now k, e.act = .tombstone i now → e.pre.looks[i]? = some k →
    body_held e.pre k.message_id = false

/-- The row of the message names the place the reader asked. -/
def still_there (k : Look) (db : Db) : Bool :=
  db.conversation_messages.all fun m => m.id != k.message_id ||
    (m.backend == k.row.backend && m.canonical_locator == k.row.locator)

/-- A tombstone commits while the row names the place the reader asked. -/
def heeds_moves (s : Sys) : Act → Bool
  | .tombstone i _ => s.looks[i]?.all fun k => still_there k s.db
  | _ => true

/-! ## Locators -/

/-- What a process is about to record, or is reading back, was issued. -/
def Knows (b : List Entry) : Phase → Prop
  | .holding _ (.recording l) _ => Issued b l
  | _ => True

/-- What a reader has in hand was issued, and what it was not given is gone. -/
structure Honest (b : List Entry) (k : Look) : Prop where
  issued : ∀ l, k.row.locator = some l → Issued b l
  gone : k.stage = .gone → k.row.backend = .jetstream ∧ ∃ l, k.row.locator = some l ∧ Spent b l

/-- What holds in every reachable state. -/
structure Inv (s : Sys) : Prop where
  rows : ∀ m ∈ s.db.conversation_messages, ∀ l, m.canonical_locator = some l → Issued s.broker l
  items : ∀ i ∈ s.db.conversation_migration_items, ∀ l, i.target_locator = some l →
    Issued s.broker l
  movers : ∀ m ∈ s.movers, Knows s.broker m.phase
  looks : ∀ k ∈ s.looks, Honest s.broker k

/-- Every locator in the rows and the items of `db'` is one of `db`'s, or was issued. -/
structure Placed (b : List Entry) (db db' : Db) : Prop where
  rows : ∀ m' ∈ db'.conversation_messages, ∀ l, m'.canonical_locator = some l →
    Issued b l ∨ (∃ m ∈ db.conversation_messages, m.canonical_locator = some l) ∨
      ∃ i ∈ db.conversation_migration_items, i.target_locator = some l
  items : ∀ i' ∈ db'.conversation_migration_items, ∀ l, i'.target_locator = some l →
    Issued b l ∨ ∃ i ∈ db.conversation_migration_items, i.target_locator = some l

section Locators

variable {sha256 : String → String} {s t : Sys} {a : Act} {b b' : List Entry} {db db' : Db} {message_id id : Uuid}
  {now : ℕ} {m : Mover} {ph : Phase} {k : Look}

theorem Placed.mk_of (hm : ∀ m' ∈ db'.conversation_messages, m'.canonical_locator.isSome = true →
      ∃ m ∈ db.conversation_messages, m.canonical_locator = m'.canonical_locator)
    (hi : db'.conversation_migration_items = db.conversation_migration_items) : Placed b db db' := by
  constructor
  · intro m' hm' l hl
    obtain ⟨m, hin, heq⟩ := hm m' hm' (by rw [hl]; rfl)
    exact Or.inr (Or.inl ⟨m, hin, heq.trans hl⟩)
  · intro i hi' l hl
    rw [hi] at hi'
    exact Or.inr ⟨i, hi', hl⟩

/-- A statement about messages that leaves their locators alone. -/
theorem Placed.kept (hm : db'.conversation_messages.map ConversationMessage.canonical_locator =
      db.conversation_messages.map ConversationMessage.canonical_locator)
    (hi : db'.conversation_migration_items = db.conversation_migration_items) : Placed b db db' := by
  refine .mk_of (fun m' hm' _ => ?_) hi
  obtain ⟨m, hin, heq⟩ := of_map_eq hm m' hm'
  exact ⟨m, hin, heq⟩

theorem Placed.same (hm : db'.conversation_messages = db.conversation_messages)
    (hi : db'.conversation_migration_items = db.conversation_migration_items) : Placed b db db' :=
  .mk_of (fun m' hm' _ => ⟨m', hm ▸ hm', rfl⟩) hi

/-- A statement about the items of moves. -/
theorem Placed.items_only {items : List ConversationMigrationItem} (h : ∀ i' ∈ items, ∀ l, i'.target_locator = some l →
      Issued b l ∨ ∃ i ∈ db.conversation_migration_items, i.target_locator = some l) :
    Placed b db { db with conversation_migration_items := items } :=
  ⟨fun m hm _ hl => Or.inr (Or.inl ⟨m, hm, hl⟩), h⟩

/-- An `UPDATE` of an item. -/
theorem Placed.set_item {run : Uuid} {f : ConversationMigrationItem → ConversationMigrationItem}
    (hf : ∀ i l, (f i).target_locator = some l → Issued b l ∨ i.target_locator = some l) :
    Placed b db (set_item run message_id f db) := by
  refine .items_only fun i' hi' l hl => ?_
  obtain ⟨i, hi, rfl⟩ := mem_update.mp hi'
  by_cases hp : is_item run message_id i = true
  · rw [if_pos hp] at hl
    rcases hf i l hl with h | h
    · exact Or.inl h
    · exact Or.inr ⟨i, hi, h⟩
  · rw [if_neg hp] at hl
    exact Or.inr ⟨i, hi, hl⟩

/-- A cutover puts a message where a verified item says, or leaves it. -/
theorem Placed.cutover {run id copied bytes : ℕ} {direction : Direction}
    (h : cutover now run id direction copied bytes db = .ok db') : Placed b db db' := by
  simp only [Migrate.cutover, bind_eq_ok, pure_eq_ok] at h
  obtain ⟨_, -, rfl⟩ := h
  refine ⟨fun m' hm' l hl => ?_, fun i hi l hl => Or.inr ⟨i, hi, hl⟩⟩
  obtain ⟨m, hm, rfl⟩ := List.mem_map.mp hm'
  -- the second `UPDATE` takes locators away, it gives none
  have hmoved : (moved run id direction db m).canonical_locator = some l := by
    rw [← hl]
    unfold settled_row at hl ⊢
    split at hl
    · cases hl
    · rename_i hn
      rw [if_neg hn]
  unfold moved at hmoved
  split at hmoved
  · split at hmoved
    · rename_i i hi
      exact Or.inr (Or.inr ⟨i, mem_of_one hi, hmoved⟩)
    · exact Or.inr (Or.inl ⟨m, hm, hmoved⟩)
  · exact Or.inr (Or.inl ⟨m, hm, hmoved⟩)

theorem Placed.abort (now run : ℕ) (why : String) : Placed b db (abort now run why db) := by
  unfold Migrate.abort
  split
  · exact .same rfl rfl
  · dsimp only
    split
    · exact .kept (map_key_update fun _ => rfl) rfl
    · exact .same rfl rfl

/-- What one statement of a move does to locators. -/
theorem placed_of_ran (hm : Knows b m.phase) (h : Ran sha256 now id db m db' ph) : Placed b db db' := by
  cases h with
  | opened _ _ _ _ | paused _ => exact .same rfl rfl
  | cut_over _ hok => exact .cutover hok
  | planned hph =>
    refine .items_only fun i' hi' l hl => ?_
    rcases mem_upsert hi' with ⟨i, hi, rfl⟩ | ⟨rfl, -⟩
    · refine Or.inr ⟨i, hi, ?_⟩
      rw [← hl]
      split <;> rfl
    · exact absurd hl (by simp [item_row])
  | verified _ _ | differed _ => exact .set_item fun i l hl => Or.inr hl
  | wrote _ _ => exact .kept (map_key_update fun _ => rfl) rfl
  | recorded hph =>
    rw [hph] at hm
    refine .set_item fun i l hl => Or.inl ?_
    rw [← Option.some.inj hl]
    exact hm
  | given_up _ => exact .abort _ _ _
  | _ => exact .same rfl rfl

/-- What a process knows after one statement. -/
theorem knows_of_ran (h : Ran sha256 now id db m db' ph) : Knows b ph := by
  cases h with
  | wrote _ _ | verified _ _ => exact trivial
  | compared _ _ hat => rcases hat with rfl | rfl <;> exact trivial
  | _ => exact trivial

/-- And with an answer of the broker. -/
theorem knows_of_heard {q : Ask} {answer : Answer}
    (hq : Migrate.asks m = some q) (hans : answers b m.team_id q answer = true)
    (h : Heard sha256 answer m ph) : Knows b ph := by
  cases h with
  | published hph hconf =>
    subst hconf
    cases q with
    | fetch l message_id => exact absurd hans (by simp [answers])
    | publish e => exact Issued.of_acknowledges hans
  | compared _ hat => rcases hat with rfl | rfl <;> exact trivial
  | _ => exact trivial

theorem Knows.later (h : Later b b') (hk : Knows b ph) : Knows b' ph := by
  unfold Knows at hk ⊢
  split
  · exact h.issued hk
  · exact trivial

theorem Honest.later (h : Later b b') (hk : Honest b k) : Honest b' k := by
  refine ⟨fun l hl => h.issued (hk.issued l hl), fun hgone => ?_⟩
  obtain ⟨hb, l, hl, hsp⟩ := hk.gone hgone
  exact ⟨hb, l, hl, h.spent hsp⟩

/-! ## Every step keeps it -/

theorem Inv.placed (hs : Inv s) (h : Placed s.broker s.db db') :
    (∀ m ∈ db'.conversation_messages, ∀ l, m.canonical_locator = some l → Issued s.broker l) ∧
      ∀ i ∈ db'.conversation_migration_items, ∀ l, i.target_locator = some l → Issued s.broker l := by
  constructor
  · intro m hm l hl
    rcases h.rows m hm l hl with h | ⟨m₀, hm₀, hl₀⟩ | ⟨i, hi, hil⟩
    · exact h
    · exact hs.rows m₀ hm₀ l hl₀
    · exact hs.items i hi l hil
  · intro i hi l hl
    rcases h.items i hi l hl with h | ⟨i₀, hi₀, hl₀⟩
    · exact h
    · exact hs.items i₀ hi₀ l hl₀

/-- A commit that leaves the processes as they are. -/
theorem Inv.commit (hs : Inv s) (h : Placed s.broker s.db t.db) (hb : t.broker = s.broker)
    (hm : t.movers = s.movers) (hl : t.looks = s.looks) : Inv t := by
  obtain ⟨hrows, hitems⟩ := hs.placed h
  constructor
  · rw [hb]
    exact hrows
  · rw [hb]
    exact hitems
  · rw [hb, hm]
    exact hs.movers
  · rw [hb, hl]
    exact hs.looks

/-- The broker goes on by itself. -/
theorem Inv.stream (hs : Inv s) (h : Later s.broker b) : Inv { s with broker := b } :=
  ⟨fun m hm l hl => h.issued (hs.rows m hm l hl), fun i hi l hl => h.issued (hs.items i hi l hl),
    fun m hm => (hs.movers m hm).later h, fun k hk => (hs.looks k hk).later h⟩

theorem Inv.move (hs : Inv s) {i : ℕ} (hm : Knows s.broker m.phase) : Inv (s.move i m) := by
  refine ⟨hs.rows, hs.items, fun x hx => ?_, hs.looks⟩
  rcases List.mem_or_eq_of_mem_set hx with hx | rfl
  · exact hs.movers x hx
  · exact hm

/-- A reader takes up a message: what it reads of its place is in the row now. -/
theorem Inv.looked (hs : Inv s) {v : Db} {team_id : Uuid}
    (h : look_of v s.db message_id team_id = some k) : Honest s.broker k := by
  simp only [look_of, Option.bind_eq_bind, Option.bind_eq_some_iff, Option.pure_def,
    Option.some.injEq] at h
  obtain ⟨old, -, m, hm, rfl⟩ := h
  exact ⟨fun l hl => hs.rows m (mem_of_one hm) l hl, fun hgone => nomatch hgone⟩

theorem asks_jetstream {row : History.BodyRow} {l : Locator} (h : Release.asks row = some l) :
    row.backend = .jetstream ∧ row.locator = some l := by
  unfold Release.asks at h
  split at h
  · cases h
  · rename_i hn
    refine ⟨?_, h⟩
    cases hb : row.backend with
    | postgres => simp [hb] at hn
    | jetstream => rfl

theorem Inv.step (hs : Inv s) (h : Did sha256 s a t) : Inv t := by
  cases h with
  | beside hbeside _ =>
    refine hs.commit (.mk_of (fun m' hm' _ => ?_) hbeside.items) rfl rfl rfl
    obtain ⟨m, hm, heq⟩ := of_map_eq hbeside.messages m' hm'
    obtain ⟨u, rfl⟩ := custody_eq heq.symm
    exact ⟨m, hm, rfl⟩
  | sent hsent =>
    refine hs.commit (.mk_of (fun m' hm' hsome => ?_) hsent.items) rfl rfl rfl
    rw [Sys.after, hsent.messages] at hm'
    rcases mem_insert_into.mp hm' with hm' | rfl
    · exact ⟨m', hm', rfl⟩
    -- a new message has no locator yet
    · rw [hsent.row_locator] at hsome
      cases hsome
  | @stored now l locator o db' _ hack _ _ _ _ hm _ hi _ =>
    refine hs.commit ⟨fun m' hm' l' hl' => ?_, fun i hi' l' hl' => ?_⟩ rfl rfl rfl
    · rw [Sys.after, hm] at hm'
      obtain ⟨m, hin, rfl⟩ := mem_update.mp hm'
      by_cases hid : (m.id == l.message_id) = true
      · rw [if_pos hid] at hl'
        rw [← Option.some.inj hl']
        exact Or.inl (Issued.of_acknowledges hack)
      · rw [if_neg hid] at hl'
        exact Or.inr (Or.inl ⟨m, hin, hl'⟩)
    · rw [Sys.after, hi] at hi'
      exact Or.inr ⟨i, hi', hl'⟩
  | failed _ _ _ | cleanup | cleared => exact hs.commit (.kept (map_key_update fun _ => rfl) rfl) rfl rfl rfl
  | presented _ | swept => exact ⟨hs.rows, hs.items, hs.movers, hs.looks⟩
  | put _ hput => exact hs.stream (store_later hput)
  | dropped => exact hs.stream (drop_later _ _)
  | start _ _ _ =>
    refine ⟨hs.rows, hs.items, fun m hm => ?_, hs.looks⟩
    rcases List.mem_append.mp hm with hm | hm
    · exact hs.movers m hm
    · rw [List.mem_singleton.mp hm]
      exact trivial
  | ran hm hran =>
    have hknows := hs.movers _ (List.mem_of_getElem? hm)
    have hcommit : Inv (s.after _) := hs.commit (placed_of_ran hknows hran) rfl rfl rfl
    exact hcommit.move (m := _) (knows_of_ran hran)
  | heard hm hq hans hheard => exact hs.move (knows_of_heard hq hans hheard)
  | broken hm hph =>
    refine hs.move ?_
    rcases hph with ⟨e, rfl⟩ | ⟨run, e, rfl⟩ <;> exact trivial
  | abort => exact hs.commit (.abort _ _ _) rfl rfl rfl
  | refused => exact hs
  | looked hk =>
    refine ⟨hs.rows, hs.items, hs.movers, fun x hx => ?_⟩
    rcases List.mem_append.mp hx with hx | hx
    · exact hs.looks x hx
    · rw [List.mem_singleton.mp hx]
      exact hs.looked hk
  | @listened i k l stage hk hl hgone _ =>
    refine ⟨hs.rows, hs.items, hs.movers, fun x hx => ?_⟩
    rcases List.mem_or_eq_of_mem_set hx with hx | rfl
    · exact hs.looks x hx
    · have hk' := hs.looks k (List.mem_of_getElem? hk)
      obtain ⟨hb, hloc⟩ := asks_jetstream hl
      exact ⟨hk'.issued, fun hst => ⟨hb, l, hloc, fetch_gone (hk'.issued l hloc) (hgone hst)⟩⟩
  | @tombstone i now k hk _ =>
    have hk' := hs.looks k (List.mem_of_getElem? hk)
    have hcommit := hs.commit (t := s.after (tombstone now k.message_id "missing from backend" s.db))
      (.kept (map_key_update fun _ => rfl) rfl) rfl rfl rfl
    refine ⟨hcommit.rows, hcommit.items, hcommit.movers, fun x hx => ?_⟩
    rcases List.mem_or_eq_of_mem_set hx with hx | rfl
    · exact hs.looks x hx
    · exact ⟨hk'.issued, fun h => nomatch h⟩

end Locators

/-! ## The law -/

/-- Where a row still names the place that was asked, and nothing was there, nothing of
its body is left. -/
theorem Honest.lost {s : Sys} {k : Look} (hk : Honest s.broker k) (hgone : k.stage = .gone)
    (hthere : still_there k s.db = true) : body_held s k.message_id = false := by
  obtain ⟨hb, l, hl, hspent⟩ := hk.gone hgone
  rw [body_held, List.any_eq_false]
  intro m hm hp
  simp only [Bool.and_eq_true, beq_iff_eq] at hp
  obtain ⟨hid, hp⟩ := hp
  have hplace := List.all_eq_true.mp hthere m hm
  simp only [hid, bne_self_eq_false, Bool.false_or, Bool.and_eq_true, beq_iff_eq] at hplace
  rw [Bool.or_eq_true] at hp
  rcases hp with hrow | hon
  · simp [in_row, hplace.1, hb, hplace.2, hl] at hrow
  · simp only [on_broker, hplace.2, hl, Option.any_some] at hon
    rw [hspent.not_holds] at hon
    cases hon

/-- **Only a body that is gone is given a tombstone**, in every run whose tombstones
commit while the row names the place the reader asked. -/
theorem tombstones_are_true {sha256 : String → String} {s₀ s : Sys} {tr : List (Trans Sys Act)}
    (hs : Inv s₀) (hrun : Run (Rel (step sha256)) s₀ tr s)
    (hheeds : ∀ e ∈ tr, heeds_moves e.pre e.act = true) : TombstoneLaw tr := by
  intro e he i now k hact hk
  have hinv : Inv e.pre := hrun.invariant_pre (C := fun _ _ => True) hs
    (fun _ _ _ hI _ h => hI.step (step_did h)) (fun _ _ => trivial) e he
  have hstep := hrun.rel e he
  rw [hact] at hstep
  simp only [Runs.Rel, step, hk, Option.bind_eq_bind, Option.bind_some, Option.ite_none_right_eq_some] at hstep
  have hthere := hheeds e he
  rw [hact] at hthere
  simp only [heeds_moves, hk, Option.all_some] at hthere
  exact (hinv.looks k (List.mem_of_getElem? hk)).lost hstep.1 hthere

/-! ## Two runs -/

/-- Ada and Bob sit in a thread on JetStream. -/
def crew : Db :=
  { seated .jetstream "" with
    conversation_memberships := [Conversations.owners_seat 0 ada 7 10, Conversations.owners_seat 0 bob 7 11] }

/-- The lease of Ada's message. -/
def held : Lease := ⟨100, 7, 1, .jetstream, "hello", 60, 1, 1⟩

/-- Where the broker puts it. -/
def place : Locator := .jetstream 1 1

/-- Ada's message is published, a sweep releases its local body, and Bob reads the row. -/
def read_after_release : List Act :=
  [.send ⟨0, 1, ada, 7, ⟨"hello", 1, none⟩, 100, 60⟩, .lease 2 "worker" fun _ => false,
    .present held, .store 1 (envelope_of held), .settle 3 held (.Confirmed place),
    .sweep none 0, .scan 0 4, .confirm 0 true, .scan 0 5, .clear 0, .look 0 100 1]

/-- The thread is moved back to Postgres. -/
def moved_back : List Act :=
  [.start 1 7 .to_postgres, .statement 0 6 50, .statement 0 6 0, .statement 0 6 0, .statement 0 6 0,
    .told 0 (.fetched (.ok (some "hello"))), .statement 0 7 0, .statement 0 7 0, .statement 0 7 0,
    .statement 0 7 0, .statement 0 7 0, .statement 0 7 0, .statement 0 8 0]

/-- The broker drops the body, Bob's read does not find it, and marks the message. -/
def marked : List Act := [.drop place, .heard 0, .tombstone 0 9]

theorem start_inv : Inv (Sys.start crew) := by
  refine ⟨fun m hm => ?_, fun i hi => ?_, fun m hm => ?_, fun k hk => ?_⟩
  · exact absurd hm List.not_mem_nil
  · exact absurd hi List.not_mem_nil
  · exact absurd hm List.not_mem_nil
  · exact absurd hk List.not_mem_nil

theorem lost_run : (exec (step digest) (Sys.start crew) (read_after_release ++ marked)).isSome = true := by
  decide

/-- The broker has lost the body, and the mark says so. -/
theorem tombstones_are_true_lost :
    TombstoneLaw ((exec (step digest) (Sys.start crew) (read_after_release ++ marked)).get lost_run).1 :=
  tombstones_are_true start_inv (exec_get lost_run) (by decide)

theorem moved_run : (exec (step digest) (Sys.start crew)
    (read_after_release ++ moved_back ++ marked)).isSome = true := by
  decide

/-- The message was moved to Postgres meanwhile: it is there, and is marked as gone. -/
theorem tombstone_on_a_moved_body : ¬ TombstoneLaw ((exec (step digest) (Sys.start crew)
    (read_after_release ++ moved_back ++ marked)).get moved_run).1 := by
  intro h
  have hlast : ∃ e ∈ ((exec (step digest) (Sys.start crew)
      (read_after_release ++ moved_back ++ marked)).get moved_run).1, e.act = .tombstone 0 9 ∧
      (e.pre.looks[0]?.map fun k => k.message_id) = some 100 ∧ body_held e.pre 100 = true :=
    ⟨_, List.mem_of_getElem? (i := 26) rfl, rfl, by decide, by decide⟩
  obtain ⟨e, he, hact, hk, hheld⟩ := hlast
  obtain ⟨k, hlook, hid⟩ := Option.map_eq_some_iff.mp hk
  have hlost := h e he 0 9 k hact hlook
  rw [hid, hheld] at hlost
  exact absurd hlost (by decide)

end CrewSync.Tombstones
