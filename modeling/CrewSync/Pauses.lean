/-
The pause of a thread, and the runs it belongs to, over whole runs of the system of
moves.

A second process that runs the same move joins the run that is open, and `abort` closes
a run and lifts the pause whoever else is at work on it. The cutover then neither looks
whether its run is open, nor whether what it had verified is verified still. Where it
finds both, everything composes. At most one run of a thread is open, a run that was
closed stays closed, and while a run is open the thread of every process that has paused
for it is paused: the pause is only lifted with the last open run. So nothing is accepted
between the list a process works through and its cutover, and every message of the list
is at the target, or has an item.

An operator's process that is not at the statement in question is a **bystander**: what
it needs of the tables is small (`Leaves`), and every step leaves it that.
-/
import CrewSync.Moves

set_option autoImplicit false

namespace CrewSync.Pauses

open Schema Rows Outbox Migrate Release
open Moves Runs Crew

/-! ## The law -/

/-- The thread is paused. -/
def Paused (id : Uuid) (db : Db) : Prop :=
  ∃ c ∈ db.conversations, c.id = id ∧ c.write_paused_at.isSome = true

/-- Process `i`, at work for thread `m.conversation_id`, cuts run `run` over. -/
def cuts_over (e : Trans Sys Act) (i : ℕ) (m : Mover) (run : Uuid) : Prop :=
  ∃ now id t o, e.act = .statement i now id ∧ e.pre.movers[i]? = some m ∧
    m.phase = .looping run [] t ∧ (e.post.movers[i]?.map fun m' => m'.phase) = some (.ended (.ok o))

/-- Process `i` reads the rows it is going to work through. -/
def lists (e : Trans Sys Act) (i : ℕ) : Prop :=
  ∃ now id m run, e.act = .statement i now id ∧ e.pre.movers[i]? = some m ∧ m.phase = .reading run

/-- What a supervised move promises. -/
structure MoveLaw (tr : List (Trans Sys Act)) : Prop where
  /-- A run that was given up, or is over, never cuts over. -/
  opened : ∀ e ∈ tr, ∀ i m run, cuts_over e i m run → run_open run e.pre.db = true
  /-- No run cuts over twice. -/
  once : ∀ tr₁ e tr₂ e' tr₃, tr = tr₁ ++ e :: (tr₂ ++ e' :: tr₃) → ∀ i m run i' m' run',
    cuts_over e i m run → cuts_over e' i' m' run' → run ≠ run'
  /-- The thread is paused from the list on to the cutover. -/
  paused : ∀ tr₁ x tr₂ e tr₃, tr = tr₁ ++ x :: (tr₂ ++ e :: tr₃) → ∀ i m run, lists x i →
    cuts_over e i m run → ∀ y ∈ x :: tr₂, Paused m.conversation_id y.post.db
  /-- Every message that has a body is where its thread is. -/
  settled : ∀ e ∈ tr, ∀ i m run, cuts_over e i m run → ∀ x ∈ e.post.db.conversation_messages,
    is_copied m.conversation_id x = true → ∀ c ∈ e.post.db.conversations,
    c.id = m.conversation_id → x.backend = c.backend

/-- Every item of the run is verified, but for messages whose body is gone. -/
def items_verified (run : Uuid) (db : Db) : Bool :=
  db.conversation_migration_items.all fun i => i.migration_id != run || i.state == .verified ||
    db.conversation_messages.any fun x => x.id == i.message_id && x.tombstoned_at.isSome

/-- A cutover finds its own run open, and its items verified. -/
def heeds_run (s : Sys) : Act → Bool
  | .statement i _ _ => s.movers[i]?.all fun m =>
    match m.phase with
    | .looping run [] _ => run_open run s.db && items_verified run s.db
    | _ => true
  | _ => true

/-! ## What holds of a process -/

/-- The run a process is at work on. -/
def run_of : Phase → Option Uuid
  | .pausing run | .reading run | .looping run _ _ | .fetching run _ _ _ _ | .holding run _ _ => some run
  | _ => none

/-- The run a process has paused its thread for. -/
def past_pause : Phase → Option Uuid
  | .reading run | .looping run _ _ | .fetching run _ _ _ _ | .holding run _ _ => some run
  | _ => none

/-- The run of a process at its list, and the rows it has no items for yet. -/
def left_to_copy : Phase → Option (Uuid × List CopyRow)
  | .looping run rows _ => some (run, rows)
  | .fetching run _ row rows _ => some (run, row :: rows)
  | .holding run .planning h => some (run, h.row :: h.rows)
  | .holding run _ h => some (run, h.rows)
  | _ => none

/-- The process has come to an end, or is giving its run up. -/
def is_over : Phase → Bool
  | .failing _ _ | .ended _ => true
  | _ => false

/-- Every message is in the list, at the target, or has an item; and the list says where
messages are. -/
structure Covered (db : Db) (id : Uuid) (d : Direction) (run : Uuid) (rows : List CopyRow) : Prop where
  all : ∀ x ∈ db.conversation_messages, is_copied id x = true →
    (∃ row ∈ rows, row.message_id = x.id) ∨ x.backend = target d ∨ Planned db run x.id
  fresh : ∀ row ∈ rows, ∀ x ∈ db.conversation_messages, is_copied id x = true →
    x.id = row.message_id → x.backend = row.backend

/-- What holds of a process. What depends on its run being open holds while it is. -/
structure Holds (db : Db) (m : Mover) : Prop where
  there : ∃ c ∈ db.conversations, c.id = m.conversation_id
  on_run : ∀ run, run_of m.phase = some run → ∃ g ∈ db.conversation_migrations,
    g.id = run ∧ g.conversation_id = m.conversation_id
  paused : ∀ run, past_pause m.phase = some run → run_open run db = true → Paused m.conversation_id db
  covered : ∀ run rows, left_to_copy m.phase = some (run, rows) → run_open run db = true →
    Covered db m.conversation_id m.direction run rows

/-- At most one run of a thread is open. -/
def OneOpen (runs : List ConversationMigration) : Prop :=
  ∀ g ∈ runs, ∀ g' ∈ runs, is_open g = true → is_open g' = true →
    g.conversation_id = g'.conversation_id → g.id = g'.id

/-- What holds of the tables in every reachable state. -/
structure Tidy (db : Db) : Prop where
  messages : db.MessagesKeyed
  threads : Keyed Conversation.id db.conversations
  runs : Keyed ConversationMigration.id db.conversation_migrations
  one_open : OneOpen db.conversation_migrations

/-- What holds in every reachable state. -/
structure Inv (s : Sys) : Prop where
  tidy : Tidy s.db
  movers : ∀ m ∈ s.movers, Holds s.db m

/-! ## What a step leaves to a bystander -/

/-- The columns of a run that are never written again. -/
def run_key (g : ConversationMigration) : Uuid × Uuid := (g.id, g.conversation_id)

/-- What a step does to runs: none is lost, none opens again, and one that is new is the
only open one of its thread. -/
structure RunsGo (db db' : Db) : Prop where
  old : ∀ g ∈ db.conversation_migrations, ∃ g' ∈ db'.conversation_migrations, run_key g' = run_key g
  new : ∀ g' ∈ db'.conversation_migrations, is_open g' = true →
    (∃ g ∈ db.conversation_migrations, run_key g = run_key g' ∧ is_open g = true) ∨
      ∀ g ∈ db.conversation_migrations, g.id ≠ g'.id

/-- A run of the thread is open. -/
def OpenHere (id : Uuid) (db : Db) : Prop :=
  ∃ g ∈ db.conversation_migrations, g.conversation_id = id ∧ is_open g = true

/-- What a step leaves to a process at work for thread `id`. -/
structure Leaves (id : Uuid) (db db' : Db) : Prop where
  there : (∃ c ∈ db.conversations, c.id = id) → ∃ c' ∈ db'.conversations, c'.id = id
  paused : OpenHere id db' → Paused id db → Paused id db'
  messages : OpenHere id db' → Paused id db → ∀ x' ∈ db'.conversation_messages,
    is_copied id x' = true → ∃ x ∈ db.conversation_messages, is_copied id x = true ∧ x.id = x'.id ∧
      x.backend = x'.backend
  planned : ∀ run k, Planned db run k → Planned db' run k

section Bystanders

variable {sha256 : String → String} {t : Sys} {db db' : Db} {id run : Uuid} {m : Mover} {ph : Phase}
  {rows : List CopyRow} {p : ConversationMessage → Bool} {f : ConversationMessage → ConversationMessage}
  {g : ConversationMigration}

theorem run_open_iff : run_open run db = true ↔
    ∃ g ∈ db.conversation_migrations, g.id = run ∧ is_open g = true := by
  simp [run_open, List.any_eq_true]

theorem run_of_past_pause (h : past_pause ph = some run) : run_of ph = some run := by
  cases ph with
  | opening | pausing | failing | ended => exact absurd h (by simp [past_pause])
  | _ => exact h

theorem past_pause_of_left (h : left_to_copy ph = some (run, rows)) : past_pause ph = some run := by
  cases ph with
  | looping | fetching => exact congrArg some (Prod.mk.inj (Option.some.inj h)).1
  | holding r at_ hand =>
    cases at_ <;> exact congrArg some (Prod.mk.inj (Option.some.inj h)).1
  | _ => exact absurd h (by simp [left_to_copy])

theorem RunsGo.of_eq (h : db'.conversation_migrations = db.conversation_migrations) : RunsGo db db' := by
  constructor
  · intro g hg
    rw [← h] at hg
    exact ⟨g, hg, rfl⟩
  · intro g hg ho
    rw [h] at hg
    exact Or.inl ⟨g, hg, rfl, ho⟩

/-- A run that is there and is open was open. -/
theorem RunsGo.was_open (h : RunsGo db db') (hthere : ∃ g ∈ db.conversation_migrations, g.id = run)
    (ho : run_open run db' = true) : run_open run db = true := by
  obtain ⟨g', hg', rfl, hopen⟩ := run_open_iff.mp ho
  rcases h.new g' hg' hopen with ⟨g, hg, hk, hopen'⟩ | hfresh
  · exact run_open_iff.mpr ⟨g, hg, (Prod.mk.inj hk).1, hopen'⟩
  · obtain ⟨g, hg, hid⟩ := hthere
    exact absurd hid (hfresh g hg)

/-- What holds of a bystander holds after the step. -/
theorem Holds.bystander (hm : Holds db m) (hruns : RunsGo db db')
    (hk : Keyed ConversationMigration.id db'.conversation_migrations)
    (hl : Leaves m.conversation_id db db') : Holds db' m := by
  have hon : ∀ run, run_of m.phase = some run → ∃ g ∈ db'.conversation_migrations,
      g.id = run ∧ g.conversation_id = m.conversation_id := by
    intro run hrun
    obtain ⟨g, hg, hid, hconv⟩ := hm.on_run run hrun
    obtain ⟨g', hg', hkey⟩ := hruns.old g hg
    exact ⟨g', hg', (Prod.mk.inj hkey).1.trans hid, (Prod.mk.inj hkey).2.trans hconv⟩
  -- while the run is open after the step, it was open before, and its thread paused
  have hwas : ∀ run, past_pause m.phase = some run → run_open run db' = true →
      OpenHere m.conversation_id db' ∧ run_open run db = true ∧ Paused m.conversation_id db := by
    intro run hpast ho
    have hof := run_of_past_pause hpast
    obtain ⟨g, hg, hid, hconv⟩ := hon run hof
    obtain ⟨g', hg', hid', hopen⟩ := run_open_iff.mp ho
    rw [hk.eq hg' hg (hid'.trans hid.symm)] at hopen
    obtain ⟨g₀, hg₀, hid₀, -⟩ := hm.on_run run hof
    have ho₀ := hruns.was_open ⟨g₀, hg₀, hid₀⟩ ho
    exact ⟨⟨g, hg, hconv, hopen⟩, ho₀, hm.paused run hpast ho₀⟩
  constructor
  · exact hl.there hm.there
  · exact hon
  · intro run hpast ho
    obtain ⟨hhere, -, hpaused⟩ := hwas run hpast ho
    exact hl.paused hhere hpaused
  · intro run rows hleft ho
    obtain ⟨hhere, ho₀, hpaused⟩ := hwas run (past_pause_of_left hleft) ho
    have hcov := hm.covered run rows hleft ho₀
    constructor
    · intro x' hx' hc'
      obtain ⟨x, hx, hc, hid, hb⟩ := hl.messages hhere hpaused x' hx' hc'
      rcases hcov.all x hx hc with ⟨row, hrow, hrid⟩ | hback | hplan
      · exact Or.inl ⟨row, hrow, hrid.trans hid⟩
      · exact Or.inr (Or.inl (hb.symm.trans hback))
      · exact Or.inr (Or.inr (hl.planned run x'.id (hid ▸ hplan)))
    · intro row hrow x' hx' hc' hid'
      obtain ⟨x, hx, hc, hid, hb⟩ := hl.messages hhere hpaused x' hx' hc'
      exact hb.symm.trans (hcov.fresh row hrow x hx hc (hid.trans hid'))

/-! ## What each statement leaves -/

/-- What a commit keeps, and leaves to everybody. -/
structure Commits (db db' : Db) : Prop where
  tidy : Tidy db'
  go : RunsGo db db'
  leaves : ∀ id, Leaves id db db'

/-- The pause of a thread. -/
def pause_of (c : Conversation) : Uuid × Option ℕ := (c.id, c.write_paused_at)

/-- Every message of `db'` is in `db`, where it is, and has a body there if it has one now. -/
def Back (db db' : Db) : Prop :=
  ∀ x' ∈ db'.conversation_messages, ∃ x ∈ db.conversation_messages, x.id = x'.id ∧
    x.backend = x'.backend ∧ ∀ id, is_copied id x' = true → is_copied id x = true

theorem Back.of_update (hm : db'.conversation_messages = update p f db.conversation_messages)
    (hf : ∀ x, (f x).id = x.id ∧ (f x).backend = x.backend ∧
      ∀ id, is_copied id (f x) = true → is_copied id x = true) : Back db db' := by
  intro x' hx'
  rw [hm] at hx'
  obtain ⟨x, hx, rfl⟩ := mem_update.mp hx'
  refine ⟨x, hx, ?_⟩
  split
  · exact ⟨(hf x).1.symm, (hf x).2.1.symm, (hf x).2.2⟩
  · exact ⟨rfl, rfl, fun _ h => h⟩

theorem paused_of_map (h : db'.conversations.map pause_of = db.conversations.map pause_of)
    (hp : Paused id db) : Paused id db' := by
  obtain ⟨c, hc, hid, hpaused⟩ := hp
  obtain ⟨c', hc', heq⟩ := of_map_eq h.symm c hc
  obtain ⟨h1, h2⟩ := Prod.mk.inj heq
  exact ⟨c', hc', h1.trans hid, h2 ▸ hpaused⟩

theorem there_of_map (h : db'.conversations.map pause_of = db.conversations.map pause_of)
    (hc : ∃ c ∈ db.conversations, c.id = id) : ∃ c' ∈ db'.conversations, c'.id = id := by
  obtain ⟨c, hc, hid⟩ := hc
  obtain ⟨c', hc', heq⟩ := of_map_eq h.symm c hc
  exact ⟨c', hc', (Prod.mk.inj heq).1.trans hid⟩

theorem keyed_of_map {α κ : Type} {key : α → κ} {t t' : List α} (h : t'.map key = t.map key)
    (hk : Keyed key t) : Keyed key t' := by
  unfold Keyed
  rw [h]
  exact hk

theorem threads_of_map (h : db'.conversations.map pause_of = db.conversations.map pause_of)
    (hk : Keyed Conversation.id db.conversations) : Keyed Conversation.id db'.conversations := by
  have hids := congrArg (fun t => t.map Prod.fst) h
  simp only [List.map_map] at hids
  exact keyed_of_map hids hk

/-- A commit that moves no message and writes neither a pause nor a run. -/
theorem Tidy.still (ht : Tidy db) (hm : db'.conversation_messages.map ConversationMessage.id =
      db.conversation_messages.map ConversationMessage.id) (hback : Back db db')
    (hc : db'.conversations.map pause_of = db.conversations.map pause_of)
    (hg : db'.conversation_migrations = db.conversation_migrations)
    (hp : ∀ run k, Planned db run k → Planned db' run k) : Commits db db' := by
  refine ⟨⟨keyed_of_map hm ht.messages, threads_of_map hc ht.threads, ?_, ?_⟩, .of_eq hg, fun id => ?_⟩
  · rw [hg]
    exact ht.runs
  · rw [hg]
    exact ht.one_open
  · refine ⟨there_of_map hc, fun _ => paused_of_map hc, fun _ _ x' hx' hcop => ?_, hp⟩
    obtain ⟨x, hx, hid, hb, hwas⟩ := hback x' hx'
    exact ⟨x, hx, hwas id hcop, hid, hb⟩

/-- A statement about messages that leaves them where they are. -/
theorem Tidy.written (ht : Tidy db) (hm : db'.conversation_messages = update p f db.conversation_messages)
    (hf : ∀ x, (f x).id = x.id ∧ (f x).backend = x.backend ∧
      ∀ id, is_copied id (f x) = true → is_copied id x = true) (hc : db'.conversations = db.conversations)
    (hg : db'.conversation_migrations = db.conversation_migrations)
    (hi : db'.conversation_migration_items = db.conversation_migration_items) : Commits db db' := by
  refine ht.still ?_ (.of_update hm hf) (by rw [hc]) hg fun run k hp => ?_
  · rw [hm]
    exact map_key_update fun x => (hf x).1
  · obtain ⟨i, hin, hk⟩ := hp
    exact ⟨i, hi ▸ hin, hk⟩

/-- A statement about items. -/
theorem Tidy.itemised (ht : Tidy db) {items : List ConversationMigrationItem}
    (hp : ∀ i ∈ db.conversation_migration_items, ∃ i' ∈ items, item_key i' = item_key i) :
    Commits db { db with conversation_migration_items := items } := by
  refine ht.still rfl (fun x hx => ⟨x, hx, rfl, rfl, fun _ h => h⟩) rfl rfl fun run k h => ?_
  obtain ⟨i, hi, hk⟩ := h
  obtain ⟨i', hi', hk'⟩ := hp i hi
  exact ⟨i', hi', hk'.trans hk⟩

theorem Tidy.same (ht : Tidy db) : Commits db db :=
  ht.still rfl (fun x hx => ⟨x, hx, rfl, rfl, fun _ h => h⟩) rfl rfl fun _ _ h => h

/-- Runs are closed, never opened. -/
theorem Tidy.closing (ht : Tidy db) (f : ConversationMigration → ConversationMigration)
    (hf : ∀ g, run_key (f g) = run_key g ∧ (is_open (f g) = true → is_open g = true)) :
    Keyed ConversationMigration.id (db.conversation_migrations.map f) ∧
      OneOpen (db.conversation_migrations.map f) ∧
      RunsGo db { db with conversation_migrations := db.conversation_migrations.map f } := by
  have hid : ∀ g, (f g).id = g.id := fun g => (Prod.mk.inj (hf g).1).1
  have hconv : ∀ g, (f g).conversation_id = g.conversation_id := fun g => (Prod.mk.inj (hf g).1).2
  refine ⟨ht.runs.map fun g _ => hid g, ?_, ?_, ?_⟩
  · intro x hx y hy hox hoy hsame
    obtain ⟨g, hg, rfl⟩ := List.mem_map.mp hx
    obtain ⟨g', hg', rfl⟩ := List.mem_map.mp hy
    rw [hid, hid]
    refine ht.one_open g hg g' hg' ((hf g).2 hox) ((hf g').2 hoy) ?_
    rw [← hconv g, ← hconv g']
    exact hsame
  · exact fun g hg => ⟨f g, List.mem_map_of_mem hg, (hf g).1⟩
  · intro x hx hox
    obtain ⟨g, hg, rfl⟩ := List.mem_map.mp hx
    exact Or.inl ⟨g, hg, (hf g).1.symm, (hf g).2 hox⟩

/-- A run is opened, where none was open. -/
theorem Tidy.opened (ht : Tidy db) (hnone : ∀ x ∈ db.conversation_migrations, x.conversation_id = g.conversation_id →
      is_open x = false) (hfresh : ∀ x ∈ db.conversation_migrations, x.id ≠ g.id) :
    Commits db { db with conversation_migrations := insert_into g db.conversation_migrations } := by
  refine ⟨⟨ht.messages, ht.threads, ht.runs.insert_into hfresh, ?_⟩, ⟨?_, ?_⟩, fun id => ?_⟩
  · intro x hx y hy hox hoy hsame
    rcases mem_insert_into.mp hx with hx | hx <;> rcases mem_insert_into.mp hy with hy | hy
    · exact ht.one_open x hx y hy hox hoy hsame
    · rw [hnone x hx (by rw [hsame, hy])] at hox
      cases hox
    · rw [hnone y hy (by rw [← hsame, hx])] at hoy
      cases hoy
    · rw [hx, hy]
  · exact fun x hx => ⟨x, mem_insert_into.mpr (Or.inl hx), rfl⟩
  · intro x hx hox
    rcases mem_insert_into.mp hx with hx | rfl
    · exact Or.inl ⟨x, hx, rfl, hox⟩
    · exact Or.inr hfresh
  · exact ⟨fun h => h, fun _ h => h, fun _ _ x hx hc => ⟨x, hx, hc, rfl, rfl⟩, fun _ _ h => h⟩

/-- A thread is paused. -/
theorem Tidy.pausing (ht : Tidy db) (now conversation_id : ℕ) :
    Commits db { db with
      conversations := update (fun c => c.id == conversation_id)
        (fun c => { c with write_paused_at := some now }) db.conversations } := by
  refine ⟨⟨ht.messages, ht.threads.update fun _ => rfl, ht.runs, ht.one_open⟩, .of_eq rfl, fun id => ?_⟩
  refine ⟨?_, ?_, fun _ _ x hx hc => ⟨x, hx, hc, rfl, rfl⟩, fun _ _ h => h⟩
  · rintro ⟨c, hc, hid⟩
    refine ⟨_, mem_update_of_mem hc, ?_⟩
    split <;> exact hid
  · rintro - ⟨c, hc, hid, hpaused⟩
    refine ⟨_, mem_update_of_mem hc, ?_, ?_⟩
    · split <;> exact hid
    · split
      · rfl
      · exact hpaused

/-- An abort lifts a pause only with the last open run of the thread. -/
theorem Tidy.aborted (ht : Tidy db) (now run : ℕ) (why : String) : Commits db (abort now run why db) := by
  unfold abort
  split
  · exact ht.same
  · rename_i g hg
    obtain ⟨hruns, hone, hgo⟩ := ht.closing
      (fun x => if (x.id == run && is_open x) = true then given_up now why x else x) fun x => by
        split
        · exact ⟨rfl, fun h => absurd h (by simp [is_open, given_up])⟩
        · exact ⟨rfl, fun h => h⟩
    -- either way, bodies are all that is written of messages
    obtain ⟨p, f, hmsgs, hf⟩ : ∃ (p : ConversationMessage → Bool) (f : ConversationMessage → ConversationMessage),
        (if g.direction = .to_postgres then
          update (is_unverified_copy run db) (fun m => { m with body := "" }) db.conversation_messages
          else db.conversation_messages) = update p f db.conversation_messages ∧
        ∀ x, (f x).id = x.id ∧ (f x).backend = x.backend ∧
          ∀ id, is_copied id (f x) = true → is_copied id x = true := by
      split
      · exact ⟨_, _, rfl, fun x => ⟨rfl, rfl, fun _ h => h⟩⟩
      · refine ⟨fun _ => false, id, (update_eq_self fun _ _ => rfl).symm, fun x => ⟨rfl, rfl, fun _ h => h⟩⟩
    rw [hmsgs]
    refine ⟨⟨ht.messages.update fun x => (hf x).1, ht.threads.update fun _ => rfl, hruns, hone⟩,
      ⟨hgo.old, hgo.new⟩, fun id => ⟨?_, ?_, fun _ _ x' hx' hcop => ?_, fun _ _ h => h⟩⟩
    · rintro ⟨c, hc, hid⟩
      refine ⟨_, mem_update_of_mem hc, ?_⟩
      split <;> exact hid
    · rintro ⟨r, hr, hconv, hopen⟩ ⟨c, hc, hid, hpaused⟩
      refine ⟨c, mem_update_of_not hc ?_, hid, hpaused⟩
      have hany : (update (fun x => x.id == run && is_open x) (given_up now why)
          db.conversation_migrations).any (fun x => x.conversation_id == c.id && is_open x) = true :=
        List.any_eq_true.mpr ⟨r, hr, by simp [hconv, hid, hopen]⟩
      rw [hany]
      simp
    · have hback : Back db { db with conversation_messages := update p f db.conversation_messages } :=
        .of_update rfl hf
      obtain ⟨x, hx, hid, hb, hwas⟩ := hback x' hx'
      exact ⟨x, hx, hwas id hcop, hid, hb⟩

/-- A cutover of an open run closes the only open run of its thread. -/
theorem Tidy.cut (ht : Tidy db) {now run conversation_id copied bytes : ℕ} {direction : Direction}
    (hg : g ∈ db.conversation_migrations) (hid : g.id = run)
    (hconv : g.conversation_id = conversation_id) (hopen : is_open g = true)
    (h : cutover now run conversation_id direction copied bytes db = .ok db') : Commits db db' := by
  rw [cutover_ok h]
  obtain ⟨hruns, hone, hgo⟩ := ht.closing (finished now run copied bytes) fun x => by
      unfold finished
      split
      · exact ⟨rfl, fun h => absurd h (by simp [is_open])⟩
      · exact ⟨rfl, fun h => h⟩
  have hrow : ∀ x, settled_row conversation_id direction (moved run conversation_id direction db x) = x ∨
      x.conversation_id = conversation_id ∧
        (settled_row conversation_id direction (moved run conversation_id direction db x)).id = x.id ∧
        (settled_row conversation_id direction
          (moved run conversation_id direction db x)).conversation_id = conversation_id := by
    intro x
    rcases cut_over_row run conversation_id direction db x with ⟨heq, -⟩ | ⟨i, -, -, hx, heq⟩ | ⟨-, hx, -, heq⟩
    · exact Or.inl heq
    · rw [heq]
      exact Or.inr ⟨hx, rfl, hx⟩
    · rw [heq]
      exact Or.inr ⟨hx, rfl, hx⟩
  have hrouted : ∀ c, (routed conversation_id direction c).id = c.id := by
    intro c
    unfold routed
    split <;> rfl
  have hclosed : ∀ r ∈ db.conversation_migrations.map (finished now run copied bytes),
      is_open r = true → r.conversation_id ≠ conversation_id := by
    intro r hr hro hsame
    obtain ⟨x, hx, rfl⟩ := List.mem_map.mp hr
    by_cases hxid : x.id = run
    · rw [finished, if_pos hxid] at hro
      exact absurd hro (by simp [is_open])
    · rw [finished, if_neg hxid] at hro hsame
      exact hxid ((ht.one_open x hx g hg hro hopen (hsame.trans hconv.symm)).trans hid)
  refine ⟨⟨ht.messages.map fun x _ => ?_, ht.threads.map fun c _ => hrouted c, hruns, hone⟩,
    ⟨hgo.old, hgo.new⟩, fun id => ⟨?_, ?_, ?_, fun _ _ h => h⟩⟩
  · rcases hrow x with heq | ⟨-, heq, -⟩
    · rw [heq]
    · exact heq
  · rintro ⟨c, hc, hcid⟩
    exact ⟨_, List.mem_map_of_mem hc, (hrouted c).trans hcid⟩
  · rintro ⟨r, hr, hrc, hro⟩ ⟨c, hc, hcid, hpaused⟩
    have hne : c.id ≠ conversation_id := by
      rw [hcid, ← hrc]
      exact hclosed r hr hro
    refine ⟨_, List.mem_map_of_mem hc, (hrouted c).trans hcid, ?_⟩
    rw [routed, if_neg hne]
    exact hpaused
  · rintro ⟨r, hr, hrc, hro⟩ - x' hx' hcop
    obtain ⟨x, hx, rfl⟩ := List.mem_map.mp hx'
    rcases hrow x with heq | ⟨-, -, hxc⟩
    · rw [heq] at hcop ⊢
      exact ⟨x, hx, hcop, rfl, rfl⟩
    · simp only [is_copied, Bool.and_eq_true, beq_iff_eq] at hcop
      exact absurd (hrc.trans (hcop.1.1.symm.trans hxc)) (hclosed r hr hro)

/-- What else may commit. -/
theorem Tidy.beside (ht : Tidy db) (hb : Beside db db') : Commits db db' := by
  have hback : ∀ x' ∈ db'.conversation_messages, ∃ x ∈ db.conversation_messages,
      ∃ u, x' = { x with uncertain_at := u } := by
    intro x' hx'
    obtain ⟨x, hx, heq⟩ := of_map_eq hb.messages x' hx'
    exact ⟨x, hx, custody_eq heq.symm⟩
  have hids : db'.conversation_messages.map ConversationMessage.id =
      db.conversation_messages.map ConversationMessage.id := by
    have h := congrArg (List.map ConversationMessage.id) hb.messages
    rw [List.map_map, List.map_map] at h
    exact h
  refine ⟨⟨keyed_of_map hids ht.messages, hb.keyed ht.threads, ?_, ?_⟩, .of_eq hb.runs,
    fun id => ⟨?_, ?_, ?_, ?_⟩⟩
  · rw [hb.runs]
    exact ht.runs
  · rw [hb.runs]
    exact ht.one_open
  · rintro ⟨c, hc, hid⟩
    obtain ⟨c', hc', heq⟩ := hb.old c hc
    exact ⟨c', hc', (Prod.mk.inj heq).1.trans hid⟩
  · rintro - ⟨c, hc, hid, hpaused⟩
    obtain ⟨c', hc', heq⟩ := hb.old c hc
    simp only [routing, Prod.mk.injEq] at heq
    exact ⟨c', hc', heq.1.trans hid, heq.2.2.2.2 ▸ hpaused⟩
  · intro _ _ x' hx' hcop
    obtain ⟨x, hx, u, rfl⟩ := hback x' hx'
    exact ⟨x, hx, hcop, rfl, rfl⟩
  · rintro run k ⟨i, hi, hk⟩
    exact ⟨i, hb.items ▸ hi, hk⟩

/-- A message is accepted, to a thread that is not paused. -/
theorem Tidy.sent (ht : Tidy db) {c : Sequence.SendCall} {t : Conversation} {row : ConversationMessage}
    (hs : Sent sha256 c t row db db') : Commits db db' := by
  have hroutes : db'.conversations.map pause_of = db.conversations.map pause_of := by
    have h := congrArg (List.map fun r : Uuid × Uuid × Backend × Publication × Option ℕ => (r.1, r.2.2.2.2))
      hs.routes
    rw [List.map_map, List.map_map] at h
    exact h
  refine ⟨⟨?_, threads_of_map hroutes ht.threads, ?_, ?_⟩, .of_eq hs.runs, fun id =>
    ⟨there_of_map hroutes, fun _ => paused_of_map hroutes, ?_, ?_⟩⟩
  · rw [Db.MessagesKeyed, hs.messages]
    exact ht.messages.insert_into hs.fresh
  · rw [hs.runs]
    exact ht.runs
  · rw [hs.runs]
    exact ht.one_open
  · rintro - ⟨c', hc', hid, hpaused⟩ x' hx' hcop
    rw [hs.messages] at hx'
    rcases mem_insert_into.mp hx' with hx' | rfl
    · exact ⟨x', hx', hcop, rfl, rfl⟩
    · -- the thread would be the paused one
      simp only [is_copied, Bool.and_eq_true, beq_iff_eq] at hcop
      have hsame : t.id = c'.id := by rw [← hs.row_conversation, hcop.1.1, hid]
      rw [← ht.threads.eq (mem_of_one hs.thread) hc' hsame, hs.going] at hpaused
      cases hpaused
  · rintro run k ⟨i, hi, hk⟩
    exact ⟨i, hs.items ▸ hi, hk⟩

end Bystanders

/-! ## What a process leaves behind -/

section Movers

variable {sha256 : String → String} {s t : Sys} {db db' : Db} {m : Mover} {ph : Phase} {now i : ℕ} {id run : Uuid}
  {before : Phase}

/-- A process that has given up, or come to an end. -/
theorem Holds.over (hm : Holds db m) (hover : is_over ph = true) : Holds db (m.at_phase ph) := by
  have hnone : run_of ph = none := by
    cases ph with
    | failing => rfl
    | ended => rfl
    | _ => exact absurd hover (by simp [is_over])
  have hoff : ∀ run, past_pause ph ≠ some run := by
    intro run hpast
    rw [run_of_past_pause hpast] at hnone
    cases hnone
  constructor
  · exact hm.there
  · intro run hrun
    rw [Mover.at_phase, hnone] at hrun
    cases hrun
  · intro run hpast
    exact absurd hpast (hoff run)
  · intro run rows hleft
    exact absurd (past_pause_of_left hleft) (hoff run)

/-- A process that is done with the first row of its list. -/
theorem Holds.advance (hm : Holds db m) (hph : m.phase = before)
    (hpast : past_pause ph = past_pause before) (hrun : run_of ph = run_of before)
    {row : CopyRow} {rows : List CopyRow} (hbefore : left_to_copy before = some (run, row :: rows))
    (hafter : left_to_copy ph = some (run, rows))
    (hdone : row.backend = target m.direction ∨ Planned db run row.message_id) :
    Holds db (m.at_phase ph) := by
  subst hph
  constructor
  · exact hm.there
  · intro r hr
    exact hm.on_run r (hrun ▸ hr)
  · intro r hr
    exact hm.paused r (hpast ▸ hr)
  · intro r rest hleft ho
    obtain ⟨rfl, rfl⟩ := Prod.mk.inj (Option.some.inj (hafter.symm.trans hleft))
    have hcov := hm.covered run (row :: rows) hbefore ho
    constructor
    · intro x hx hc
      rcases hcov.all x hx hc with ⟨y, hy, hid⟩ | hrest
      · rcases List.mem_cons.mp hy with rfl | hy
        · rcases hdone with hback | hplan
          · exact Or.inr (Or.inl ((hcov.fresh y List.mem_cons_self x hx hc hid.symm).trans hback))
          · exact Or.inr (Or.inr (hid ▸ hplan))
        · exact Or.inl ⟨y, hy, hid⟩
      · exact Or.inr hrest
    · exact fun y hy => hcov.fresh y (List.mem_cons_of_mem _ hy)

/-- A process that goes on with the same list. -/
theorem Holds.keeps (hm : Holds db m) (hph : m.phase = before)
    (hpast : past_pause ph = past_pause before) (hrun : run_of ph = run_of before)
    (hleft : left_to_copy ph = left_to_copy before) : Holds db (m.at_phase ph) := by
  subst hph
  exact ⟨hm.there, fun r hr => hm.on_run r (hrun ▸ hr), fun r hr => hm.paused r (hpast ▸ hr),
    fun r rows hr => hm.covered r rows (hleft ▸ hr)⟩

/-- The list a process reads has every message. -/
theorem covered_of_list (hk : db.MessagesKeyed) (id : Uuid)
    (d : Direction) (run : Uuid) : Covered db id d run (copy_rows id db) := by
  constructor
  · intro x hx hc
    exact Or.inl ⟨copy_row x, List.mem_map_of_mem (mem_select.mpr ⟨hx, hc⟩), rfl⟩
  · intro row hrow x hx _ hid
    obtain ⟨y, hy, rfl⟩ := List.mem_map.mp hrow
    rw [hk.eq hx (mem_select.mp hy).1 hid]
    rfl

/-- What holds of a process that has run a statement. `h` is what held of it before, in
the tables as they are now. -/
theorem Holds.ran (hran : Ran sha256 now id db m db' ph) (ht : Tidy db') (h : Holds db' m) :
    Holds db' (m.at_phase ph) := by
  cases hran with
  | refused | stopped | differed _ | given_up _ | cut_over _ _ => exact h.over rfl
  | joined _ hg _ =>
    have hg' := mem_select.mp (List.mem_of_getLast? hg)
    simp only [Bool.and_eq_true, beq_iff_eq] at hg'
    refine ⟨h.there, fun r hr => ?_, fun r hr => absurd hr (by simp [past_pause, Mover.at_phase]),
      fun r rows hr => absurd hr (by simp [left_to_copy, Mover.at_phase])⟩
    obtain rfl := Option.some.inj hr
    exact ⟨_, hg'.1, rfl, hg'.2.1⟩
  | opened _ _ _ _ =>
    refine ⟨h.there, fun r hr => ?_, fun r hr => absurd hr (by simp [past_pause, Mover.at_phase]),
      fun r rows hr => absurd hr (by simp [left_to_copy, Mover.at_phase])⟩
    obtain rfl := Option.some.inj hr
    exact ⟨_, mem_insert_into.mpr (Or.inr rfl), rfl, rfl⟩
  | paused hph =>
    refine ⟨h.there, fun r hr => h.on_run r ?_, fun r _ _ => ?_,
      fun r rows hr => absurd hr (by simp [left_to_copy, Mover.at_phase])⟩
    · rw [hph]
      exact hr
    · obtain ⟨c, hc, hid⟩ := h.there
      obtain ⟨c₀, hc₀, rfl⟩ := mem_update.mp hc
      have hid₀ : c₀.id = m.conversation_id := by
        rw [← hid]
        split <;> rfl
      refine ⟨_, hc, hid, ?_⟩
      rw [if_pos (by simpa using hid₀)]
      rfl
  | listed hph =>
    refine ⟨h.there, fun r hr => h.on_run r ?_, fun r hr => h.paused r ?_, fun r rows hr _ => ?_⟩
    · rw [hph]
      exact hr
    · rw [hph]
      exact hr
    · obtain ⟨rfl, rfl⟩ := Prod.mk.inj (Option.some.inj hr)
      exact covered_of_list ht.messages _ _ _
  | @skipped run row rows t t' hph hwhy =>
    refine h.advance hph rfl rfl rfl rfl ?_
    rcases hwhy with hthere | hitem
    · exact Or.inl hthere
    · cases hone : item_of run row.message_id db with
      | none =>
        rw [hone] at hitem
        cases hitem
      | some i => exact Or.inr ⟨i, mem_of_one hone, is_item_iff.mp (pos_of_one hone)⟩
  | taken hph _ _ | asked hph _ _ _ | recalled hph _ _ | writes hph | wrote hph _ | recorded hph =>
    exact h.keeps hph rfl rfl rfl
  | planned hph => exact h.advance hph rfl rfl rfl rfl (Or.inr (planned_of_plan _ _ _ _))
  | verified hph hat | compared hph _ hat =>
    rcases hat with rfl | rfl
    · exact h.keeps hph rfl rfl rfl
    · exact h.keeps hph rfl rfl rfl

/-- What holds of a process that has heard from the broker. -/
theorem Holds.heard {a : Answer} (hm : Holds db m) (hheard : Heard sha256 a m ph) :
    Holds db (m.at_phase ph) := by
  cases hheard with
  | stopped => exact hm.over rfl
  | got hph _ | recognised hph _ _ | not_there hph | published hph _ => exact hm.keeps hph rfl rfl rfl
  | compared hph hat =>
    rcases hat with rfl | rfl
    · exact hm.keeps hph rfl rfl rfl
    · exact hm.keeps hph rfl rfl rfl

theorem Tidy.set_item (ht : Tidy db) (run k : Uuid)
    {f : ConversationMigrationItem → ConversationMigrationItem} (hf : ∀ i, item_key (f i) = item_key i) :
    Commits db (set_item run k f db) := by
  refine ht.itemised fun i hi => ⟨_, mem_update_of_mem hi, ?_⟩
  split
  · exact hf i
  · rfl

/-- What a statement of a process leaves. A cutover is of an open run. -/
theorem Ran.commits (hran : Ran sha256 now id db m db' ph) (ht : Tidy db) (hm : Holds db m)
    (hcut : ∀ run t, m.phase = .looping run [] t → run_open run db = true) : Commits db db' := by
  cases hran with
  | opened _ _ hnone hfresh =>
    refine ht.opened (fun x hx hsame => ?_) hfresh
    by_contra hopen
    have hsel : select (fun g => g.conversation_id == m.conversation_id && is_open g)
        (fun g => g.started_at) db.conversation_migrations = [] := List.getLast?_eq_none_iff.mp hnone
    have hin : x ∈ select (fun g => g.conversation_id == m.conversation_id && is_open g)
        (fun g => g.started_at) db.conversation_migrations :=
      mem_select.mpr ⟨hx, by simpa [migration_row] using And.intro hsame hopen⟩
    rw [hsel] at hin
    cases hin
  | paused hph => exact ht.pausing _ _
  | cut_over hph hok =>
    obtain ⟨g, hg, hid, hopen⟩ := run_open_iff.mp (hcut _ _ hph)
    obtain ⟨g', hg', hid', hconv⟩ := hm.on_run _ (by rw [hph]; rfl)
    rw [ht.runs.eq hg' hg (hid'.trans hid.symm)] at hconv
    exact ht.cut hg hid hconv hopen hok
  | planned hph =>
    refine ht.itemised fun i hi => ?_
    unfold Rows.upsert
    split
    · refine ⟨_, mem_update_of_mem hi, ?_⟩
      split <;> rfl
    · exact ⟨i, mem_insert_into.mpr (Or.inl hi), rfl⟩
  | verified _ _ | recorded _ | differed _ => exact ht.set_item _ _ fun _ => rfl
  | wrote _ _ => exact ht.written rfl (fun x => ⟨rfl, rfl, fun _ h => h⟩) rfl rfl rfl
  | given_up _ => exact ht.aborted _ _ _
  | refused | joined _ _ _ | listed _ | skipped _ _ | taken _ _ _ | asked _ _ _ _ | stopped => exact ht.same
  | recalled _ _ _ | writes _ | compared _ _ _ => exact ht.same

theorem Inv.movers_after (hinv : Inv s) (hc : Commits s.db db') : ∀ m ∈ s.movers, Holds db' m :=
  fun m hm => (hinv.movers m hm).bystander hc.go hc.tidy.runs (hc.leaves _)

/-- What a commit of somebody else keeps. -/
theorem Inv.goes (hinv : Inv s) (hc : Commits s.db t.db) (hm : t.movers = s.movers) :
    Inv t ∧ RunsGo s.db t.db := by
  refine ⟨⟨hc.tidy, ?_⟩, hc.go⟩
  rw [hm]
  exact hinv.movers_after hc

/-- What a step of process `i` keeps. -/
theorem Inv.moves (hinv : Inv s) (hc : Commits s.db db') {m' : Mover} (hm : Holds db' m')
    {movers : List Mover} (hmovers : movers = s.movers.set i m') :
    Tidy db' ∧ (∀ m ∈ movers, Holds db' m) ∧ RunsGo s.db db' := by
  refine ⟨hc.tidy, fun x hx => ?_, hc.go⟩
  rw [hmovers] at hx
  rcases List.mem_or_eq_of_mem_set hx with hx | rfl
  · exact hinv.movers_after hc x hx
  · exact hm

/-- A step keeps the invariant, and opens no run again, where a cutover finds its run
open. -/
theorem Inv.step {a : Act} (hinv : Inv s) (hheeds : heeds_run s a = true)
    (h : Moves.step sha256 s a = some t) : Inv t ∧ RunsGo s.db t.db := by
  cases step_did h with
  | beside hb _ => exact hinv.goes (hinv.tidy.beside hb) rfl
  | sent hs => exact hinv.goes (hinv.tidy.sent hs) rfl
  | stored _ _ _ _ _ _ hm hg hi hc =>
    exact hinv.goes (hinv.tidy.written hm (fun x => ⟨rfl, rfl, fun _ h => h⟩) hc hg hi) rfl
  | failed _ _ _ =>
    exact hinv.goes (hinv.tidy.written rfl (fun x => ⟨rfl, rfl, fun _ h => h⟩) rfl rfl rfl) rfl
  | presented _ | put _ _ | dropped | refused | swept | looked _ | listened _ _ _ _ => exact hinv.goes hinv.tidy.same rfl
  | start hc hid _ =>
    refine ⟨⟨hinv.tidy, fun x hx => ?_⟩, .of_eq rfl⟩
    rcases List.mem_append.mp hx with hx | hx
    · exact hinv.movers x hx
    · rw [List.mem_singleton.mp hx]
      exact ⟨⟨_, hc, hid⟩, fun r hr => absurd hr (by simp [run_of]),
        fun r hr => absurd hr (by simp [past_pause]), fun r rows hr => absurd hr (by simp [left_to_copy])⟩
  | @ran i now id m db' ph hm hran =>
    have hcom : Commits s.db db' := Ran.commits hran hinv.tidy (hinv.movers m (List.mem_of_getElem? hm))
      fun run t hph => by
        simp only [heeds_run, hm, hph, Option.all_some, Bool.and_eq_true] at hheeds
        exact hheeds.1
    have hholds := (hinv.movers_after hcom m (List.mem_of_getElem? hm)).ran hran hcom.tidy
    obtain ⟨htidy, hmovers, hgo⟩ := hinv.moves (i := i) hcom hholds rfl
    exact ⟨⟨htidy, hmovers⟩, hgo⟩
  | heard hm _ _ hheard =>
    obtain ⟨htidy, hmovers, hgo⟩ := hinv.moves hinv.tidy.same
      ((hinv.movers _ (List.mem_of_getElem? hm)).heard hheard) rfl
    exact ⟨⟨htidy, hmovers⟩, hgo⟩
  | @broken i why m ph hm hover =>
    have hover' : is_over ph = true := by
      rcases hover with ⟨e, rfl⟩ | ⟨run, e, rfl⟩
      · rfl
      · rfl
    obtain ⟨htidy, hmovers, hgo⟩ := hinv.moves hinv.tidy.same
      ((hinv.movers _ (List.mem_of_getElem? hm)).over hover') rfl
    exact ⟨⟨htidy, hmovers⟩, hgo⟩
  | abort => exact hinv.goes (hinv.tidy.aborted _ _ _) rfl
  | cleanup | cleared => exact hinv.goes (hinv.tidy.written rfl (fun x => ⟨rfl, rfl, fun _ h => h⟩) rfl rfl rfl) rfl
  | tombstone _ _ =>
    refine hinv.goes (hinv.tidy.written rfl (fun x => ⟨rfl, rfl, fun id hc => ?_⟩) rfl rfl rfl) rfl
    exact absurd hc (by simp [is_copied])

end Movers

/-! ## The law over a run -/

section Laws

variable {sha256 : String → String} {s t : Sys} {m : Mover} {i : ℕ} {run id : Uuid}
  {e : Trans Sys Act} {db db' : Db} {before ph : Phase} {now : ℕ} {a : Act}

/-- What a cutover commits. -/
theorem cuts_over_ok (hstep : Moves.step sha256 e.pre e.act = some e.post) (h : cuts_over e i m run) :
    e.pre.movers[i]? = some m ∧ ∃ now t, m.phase = .looping run [] t ∧
      cutover now run m.conversation_id m.direction t.copied t.bytes e.pre.db = .ok e.post.db := by
  obtain ⟨now, id, t, o, hact, hm, hph, hpost⟩ := h
  refine ⟨hm, now, t, hph, ?_⟩
  rw [hact] at hstep
  simp only [Moves.step, Option.bind_eq_bind, Option.bind_eq_some_iff, Option.pure_def,
    Option.some.injEq, Prod.exists] at hstep
  obtain ⟨m₀, hm₀, db', m', hst, heq⟩ := hstep
  obtain rfl := Option.some.inj (hm.symm.trans hm₀)
  rw [← heq] at hpost ⊢
  simp only [statement, hph] at hst
  split at hst <;> obtain ⟨rfl, rfl⟩ := Prod.mk.inj (Option.some.inj hst)
  · -- the process is giving up, not over
    have hi : i < e.pre.movers.length := (List.getElem?_eq_some_iff.mp hm).1
    simp [Sys.move, Sys.after, Mover.at_phase, List.getElem?_set_self hi] at hpost
  · rename_i hok
    exact hok

/-- A run that is there, and closed. -/
def Closed (run : Uuid) (db : Db) : Prop :=
  (∃ g ∈ db.conversation_migrations, g.id = run) ∧ run_open run db = false

theorem Closed.after (h : Closed run db) (hgo : RunsGo db db') : Closed run db' := by
  obtain ⟨⟨g, hg, hid⟩, hclosed⟩ := h
  obtain ⟨g', hg', hk⟩ := hgo.old g hg
  refine ⟨⟨g', hg', (Prod.mk.inj hk).1.trans hid⟩, ?_⟩
  by_contra hopen
  rw [hgo.was_open ⟨g, hg, hid⟩ (by simpa using hopen)] at hclosed
  cases hclosed

/-- After its cutover, a run is closed. -/
theorem closed_after (hstep : Moves.step sha256 e.pre e.act = some e.post) (h : cuts_over e i m run)
    (hopen : run_open run e.pre.db = true) : Closed run e.post.db := by
  obtain ⟨-, now, t, -, hok⟩ := cuts_over_ok hstep h
  rw [cutover_ok hok]
  obtain ⟨g, hg, hid, -⟩ := run_open_iff.mp hopen
  refine ⟨⟨_, List.mem_map_of_mem hg, ?_⟩, ?_⟩
  · unfold finished
    split <;> exact hid
  · by_contra hstill
    obtain ⟨x, hx, hxid, hxo⟩ := run_open_iff.mp (by simpa using hstill)
    obtain ⟨y, hy, rfl⟩ := List.mem_map.mp hx
    by_cases hyid : y.id = run
    · rw [finished, if_pos hyid] at hxo
      exact absurd hxo (by simp [is_open])
    · rw [finished, if_neg hyid] at hxid
      exact hyid hxid

/-- A process that has paused its thread stays so until it is over, and then is. -/
def Onward (before after : Phase) : Prop :=
  (∀ run, past_pause before = some run → past_pause after = some run ∨ is_over after = true) ∧
    (is_over before = true → is_over after = true)

theorem Onward.refl (ph : Phase) : Onward ph ph := ⟨fun _ h => Or.inl h, fun h => h⟩

theorem Onward.over {after : Phase} (h : is_over after = true) : Onward before after :=
  ⟨fun _ _ => Or.inr h, fun _ => h⟩

theorem Onward.of_eq {after : Phase} (hm : m.phase = before)
    (h : past_pause after = past_pause before) (hnot : is_over before = false) : Onward m.phase after := by
  rw [hm]
  refine ⟨fun run hr => Or.inl (h.trans hr), fun hover => ?_⟩
  rw [hnot] at hover
  cases hover

theorem Onward.early {after : Phase} (hm : m.phase = before) (h : past_pause before = none)
    (hnot : is_over before = false) : Onward m.phase after := by
  rw [hm]
  refine ⟨fun run hr => ?_, fun hover => ?_⟩
  · rw [h] at hr
    cases hr
  · rw [hnot] at hover
    cases hover

theorem ran_onward (h : Ran sha256 now id db m db' ph) : Onward m.phase ph := by
  cases h with
  | refused | stopped | differed _ | given_up _ | cut_over _ _ => exact .over rfl
  | joined hph _ _ | opened hph _ _ _ | paused hph => exact .early hph rfl rfl
  | listed hph | skipped hph _ | taken hph _ _ | asked hph _ _ _ | planned hph | recalled hph _ _ => exact .of_eq hph rfl rfl
  | writes hph | verified hph _ | wrote hph _ | recorded hph | compared hph _ _ => exact .of_eq hph rfl rfl

theorem heard_onward {a : Answer} (h : Heard sha256 a m ph) : Onward m.phase ph := by
  cases h with
  | stopped => exact .over rfl
  | got hph _ | recognised hph _ _ | not_there hph | published hph _ | compared hph _ => exact .of_eq hph rfl rfl

/-- What a step does to process `i`. -/
theorem mover_onward (h : Moves.step sha256 s a = some t) (hm : s.movers[i]? = some m) :
    ∃ m', t.movers[i]? = some m' ∧ m'.conversation_id = m.conversation_id ∧ Onward m.phase m'.phase := by
  have hsame : ∃ m', s.movers[i]? = some m' ∧ m'.conversation_id = m.conversation_id ∧
      Onward m.phase m'.phase := ⟨m, hm, rfl, .refl _⟩
  -- process `j` goes on
  have hmoved : ∀ {j : ℕ} {m₀ : Mover} {ph : Phase}, s.movers[j]? = some m₀ → Onward m₀.phase ph →
      ∃ m', (s.movers.set j (m₀.at_phase ph))[i]? = some m' ∧
        m'.conversation_id = m.conversation_id ∧ Onward m.phase m'.phase := by
    intro j m₀ ph hj hon
    by_cases hij : j = i
    · subst hij
      obtain rfl := Option.some.inj (hj.symm.trans hm)
      exact ⟨_, List.getElem?_set_self (List.getElem?_eq_some_iff.mp hm).1, rfl, hon⟩
    · rw [List.getElem?_set_ne hij]
      exact hsame
  cases step_did h with
  | start _ _ _ =>
    refine ⟨m, ?_, rfl, .refl _⟩
    exact (List.getElem?_append_left (List.getElem?_eq_some_iff.mp hm).1).trans hm
  | ran hj hran => exact hmoved hj (ran_onward hran)
  | heard hj _ _ hheard => exact hmoved hj (heard_onward hheard)
  | broken hj hover =>
    rcases hover with ⟨why, rfl⟩ | ⟨run, why, rfl⟩
    · exact hmoved hj (.over rfl)
    · exact hmoved hj (.over rfl)
  | _ => exact hsame

/-- Process `i` has paused its thread for run `run`, or is done. -/
def At (i : ℕ) (id run : Uuid) (s : Sys) : Prop :=
  ∃ m, s.movers[i]? = some m ∧ m.conversation_id = id ∧
    (past_pause m.phase = some run ∨ is_over m.phase = true)

theorem At.step (hat : At i id run s) (h : Moves.step sha256 s a = some t) : At i id run t := by
  obtain ⟨m, hm, hid, hph⟩ := hat
  obtain ⟨m', hm', hid', hpast, hover⟩ := mover_onward h hm
  refine ⟨m', hm', hid'.trans hid, ?_⟩
  rcases hph with hph | hph
  · exact hpast run hph
  · exact Or.inr (hover hph)

/-- Process `i` has no cutover of run `run` before it. -/
def Spent (i : ℕ) (run : Uuid) (s : Sys) : Prop :=
  Closed run s.db ∨ ∃ m, s.movers[i]? = some m ∧ is_over m.phase = true

theorem Spent.step (hs : Spent i run s) (hgo : RunsGo s.db t.db)
    (h : Moves.step sha256 s a = some t) : Spent i run t := by
  rcases hs with hclosed | ⟨m, hm, hover⟩
  · exact Or.inl (hclosed.after hgo)
  · obtain ⟨m', hm', -, -, hover'⟩ := mover_onward h hm
    exact Or.inr ⟨m', hm', hover' hover⟩

/-- A cutover leaves every message that has a body where the thread is. -/
theorem settled_after {copied bytes : ℕ} {direction : Direction} (hmsgs : db.MessagesKeyed)
    (hcov : Covered db id direction run []) (hver : items_verified run db = true)
    (h : cutover now run id direction copied bytes db = .ok db') :
    ∀ x ∈ db'.conversation_messages, is_copied id x = true → ∀ c ∈ db'.conversations, c.id = id →
      x.backend = c.backend := by
  rw [cutover_ok h]
  intro x' hx' hcop c' hc' hid
  have hto : c'.backend = target direction := by
    obtain ⟨c, hc, rfl⟩ := List.mem_map.mp hc'
    have hcid : c.id = id := by
      rw [← hid]
      unfold routed
      split <;> rfl
    rw [routed, if_pos hcid]
  rw [hto]
  obtain ⟨x, hx, rfl⟩ := List.mem_map.mp hx'
  rcases cut_over_row run id direction db x with ⟨heq, hnone⟩ | ⟨i, -, rfl, -, heq⟩ | ⟨rfl, -, -, heq⟩
  · rw [heq] at hcop ⊢
    rcases hcov.all x hx hcop with ⟨row, hrow, -⟩ | hback | ⟨i, hi, hkey⟩
    · cases hrow
    · exact hback
    · -- its item is verified, so that it would have moved
      simp only [is_copied, Bool.and_eq_true, beq_iff_eq] at hcop
      obtain ⟨hrun, hmid⟩ := Prod.mk.inj hkey
      have hv := List.all_eq_true.mp hver i hi
      simp only [Bool.or_eq_true, bne_iff_ne, ne_eq, beq_iff_eq, hrun, not_true_eq_false, false_or,
        List.any_eq_true, Bool.and_eq_true] at hv
      rcases hv with hv | ⟨y, hy, hyid, hgone⟩
      · have hnot := List.find?_eq_none.mp (hnone hcop.1.1) i hi
        exact absurd (by simp [hrun, hmid, hv]) hnot
      · rw [hmsgs.eq hy hx (hyid.trans hmid), Option.isSome_iff_exists] at hgone
        obtain ⟨when, hwhen⟩ := hgone
        rw [hwhen] at hcop
        exact absurd hcop.2 (by simp)
  · rw [heq]
    rfl
  · rw [heq]
    rfl

/-- **In every run in which each cutover finds its run open and its items verified, the
law holds.** -/
theorem moves_are_supervised {db : Db} {tr : List (Trans Sys Act)} (hdb : Tidy db)
    (hrun : Run (Rel (Moves.step sha256)) (Sys.start db) tr t)
    (hheeds : ∀ e ∈ tr, heeds_run e.pre e.act = true) : MoveLaw tr := by
  have hstart : Inv (Sys.start db) := ⟨hdb, fun m hm => absurd hm (by simp [Sys.start])⟩
  have hpre : ∀ e ∈ tr, Inv e.pre := hrun.invariant_pre (C := fun s a => heeds_run s a = true) hstart
    (fun s a t hinv hc h => (hinv.step hc h).1) hheeds
  have hopened : ∀ e ∈ tr, ∀ i m run, cuts_over e i m run →
      run_open run e.pre.db = true ∧ items_verified run e.pre.db = true := by
    intro e he i m run hcut
    obtain ⟨now, id, t, o, hact, hm, hph, -⟩ := hcut
    have h := hheeds e he
    simpa only [heeds_run, hact, hm, hph, Option.all_some, Bool.and_eq_true] using h
  -- what a segment of the run keeps, given that it started with the invariant
  have hsegment : ∀ {s u : Sys} {seg : List (Trans Sys Act)} (P : Sys → Prop),
      Run (Rel (Moves.step sha256)) s seg u → (∀ e ∈ seg, heeds_run e.pre e.act = true) → Inv s → P s →
      (∀ s a t, P s → RunsGo s.db t.db → Moves.step sha256 s a = some t → P t) → P u := by
    intro s u seg P hseg hC hinv hP hkeep
    refine (hseg.invariant (I := fun s => Inv s ∧ P s) (C := fun s a => heeds_run s a = true)
      ⟨hinv, hP⟩ (fun s a t h hc hst => ?_) hC).2
    obtain ⟨hinv', hgo⟩ := h.1.step hc hst
    exact ⟨hinv', hkeep s a t h.2 hgo hst⟩
  constructor
  · intro e he i m run hcut
    exact (hopened e he i m run hcut).1
  · intro tr₁ e tr₂ e' tr₃ htr i m run i' m' run' hcut hcut' heq
    subst htr heq
    have he : e ∈ tr₁ ++ e :: (tr₂ ++ e' :: tr₃) := by simp
    have he' : e' ∈ tr₁ ++ e :: (tr₂ ++ e' :: tr₃) := by simp
    obtain ⟨-, hstep, hafter⟩ := hrun.split
    obtain ⟨hbetween, -, -⟩ := hafter.split
    have hpost : Inv e.post := ((hpre e he).step (hheeds e he) hstep).1
    have hclosed : Closed run e'.pre.db :=
      hsegment (fun s => Closed run s.db) hbetween (fun x hx => hheeds x (by simp [hx])) hpost
        (closed_after hstep hcut (hopened e he i m run hcut).1)
        fun s a t hcl hgo _ => hcl.after hgo
    have hshut := hclosed.2
    rw [(hopened e' he' i' m' run hcut').1] at hshut
    exact absurd hshut (by decide)
  · intro tr₁ x tr₂ e tr₃ htr i m run hlists hcut y hy
    subst htr
    have hall : ∀ z ∈ x :: tr₂, z ∈ tr₁ ++ x :: (tr₂ ++ e :: tr₃) := by
      intro z hz
      rcases List.mem_cons.mp hz with rfl | hz
      · simp
      · simp [hz]
    have he : e ∈ tr₁ ++ x :: (tr₂ ++ e :: tr₃) := by simp
    obtain ⟨-, hxstep, hafter⟩ := hrun.split
    obtain ⟨hbetween, -, -⟩ := hafter.split
    have hwhole : Run (Rel (Moves.step sha256)) x.pre (x :: tr₂) e.pre :=
      (Run.single hxstep).append hbetween
    obtain ⟨l₁, l₂, hsplit⟩ := List.append_of_mem hy
    rw [hsplit] at hwhole hall
    obtain ⟨hbefore, hystep, hrest⟩ := hwhole.split
    have hyin : y ∈ l₁ ++ y :: l₂ := by simp
    have hypost : Inv y.post := ((hpre y (hall y hyin)).step (hheeds y (hall y hyin)) hystep).1
    -- the process is past its pause at `y`, for some run
    obtain ⟨now, id, m₀, run₀, -, hm₀, hph₀⟩ := hlists
    have hat₀ : At i m₀.conversation_id run₀ x.pre := ⟨m₀, hm₀, rfl, Or.inl (by rw [hph₀]; rfl)⟩
    have haty : At i m₀.conversation_id run₀ y.post := by
      refine At.step ?_ hystep
      exact hbefore.invariant' hat₀ fun s a t h hst => h.step hst
    have hate : At i m₀.conversation_id run₀ e.pre := hrest.invariant' haty fun s a t h hst => h.step hst
    -- at the cutover it is neither over, nor is its run closed
    obtain ⟨hm, -, t, hph, -⟩ := cuts_over_ok (hrun.rel e he) hcut
    obtain ⟨m₁, hm₁, hid, hpast⟩ := hate
    obtain rfl := Option.some.inj (hm.symm.trans hm₁)
    rw [hph] at hpast
    have hsame : run = run₀ := by
      rcases hpast with hpast | hover
      · exact Option.some.inj hpast
      · exact absurd hover (by simp [is_over])
    subst hsame
    have hnot : ¬ Spent i run e.pre := by
      rintro (hclosed | ⟨m', hm', hover⟩)
      · have hshut := hclosed.2
        rw [(hopened e he i m run hcut).1] at hshut
        exact absurd hshut (by decide)
      · obtain rfl := Option.some.inj (hm.symm.trans hm')
        rw [hph] at hover
        exact absurd hover (by simp [is_over])
    have hnoty : ¬ Spent i run y.post := by
      intro hspent
      refine hnot (hsegment (Spent i run) hrest (fun z hz => hheeds z (hall z (by simp [hz]))) hypost
        hspent fun s a t h hgo hst => h.step hgo hst)
    obtain ⟨my, hmy, hidy, hphy⟩ := haty
    have hholds := hypost.movers my (List.mem_of_getElem? hmy)
    rcases hphy with hphy | hover
    · rw [hid, ← hidy]
      refine hholds.paused run hphy ?_
      by_contra hshut
      obtain ⟨g, hg, hgid, -⟩ := hholds.on_run run (run_of_past_pause hphy)
      exact hnoty (Or.inl ⟨⟨g, hg, hgid⟩, by simpa using hshut⟩)
    · exact absurd (Or.inr ⟨my, hmy, hover⟩) hnoty
  · intro e he i m run hcut
    obtain ⟨hopen, hver⟩ := hopened e he i m run hcut
    obtain ⟨hm, now, t, hph, hok⟩ := cuts_over_ok (hrun.rel e he) hcut
    have hinv := hpre e he
    have hcov := (hinv.movers m (List.mem_of_getElem? hm)).covered run [] (by rw [hph]; rfl) hopen
    exact settled_after hinv.tidy.messages hcov hver hok

end Laws

/-! ## Two runs -/

/-- Ada has a thread on Postgres. -/
def crew : Db := seated .postgres ""

/-- Ada says hello. -/
def hello (now : ℕ) : Act := .send ⟨0, now, ada, 7, ⟨"hello", 1, none⟩, 100, 60⟩

/-- Two operators run the same move, and share its run. -/
def two_operators : List Act :=
  [.start 1 7 .to_jetstream, .start 1 7 .to_jetstream, .statement 0 2 50, .statement 1 2 51,
    .statement 0 2 0, .statement 1 2 0, .statement 0 2 0, .statement 1 2 0]

theorem crew_tidy : Tidy crew := by
  constructor
  · decide
  · decide
  · decide
  · exact fun g hg => absurd hg List.not_mem_nil

theorem shared_run : (exec (step digest) (Sys.start crew)
    (two_operators ++ [.statement 1 5 0, hello 6])).isSome = true := by
  decide

/-- One of them cuts over. -/
theorem moves_are_supervised_shared : MoveLaw ((exec (step digest) (Sys.start crew)
    (two_operators ++ [.statement 1 5 0, hello 6])).get shared_run).1 :=
  moves_are_supervised crew_tidy (exec_get shared_run) (by decide)

theorem abandoned_run : (exec (step digest) (Sys.start crew)
    (two_operators ++ [.broken 0 "connection lost", .statement 0 3 0, hello 4,
      .statement 1 5 0])).isSome = true := by
  decide

/-- One gives the run up, which lifts the pause; a message is accepted; and the other cuts
over a run that is closed, from a list without that message. -/
theorem abandoned_run_cuts_over : ¬ MoveLaw ((exec (step digest) (Sys.start crew)
    (two_operators ++ [.broken 0 "connection lost", .statement 0 3 0, hello 4,
      .statement 1 5 0])).get abandoned_run).1 := by
  intro h
  have hlast : ∃ e ∈ ((exec (step digest) (Sys.start crew)
      (two_operators ++ [.broken 0 "connection lost", .statement 0 3 0, hello 4,
        .statement 1 5 0])).get abandoned_run).1,
      cuts_over e 1 ⟨1, 7, .to_jetstream, .looping 50 [] ⟨0, 0, 0⟩⟩ 50 ∧
        run_open 50 e.pre.db = false := by
    refine ⟨_, List.mem_of_getElem? (i := 11) rfl, ?_, by decide⟩
    exact ⟨5, 0, ⟨0, 0, 0⟩, ⟨50, 7, 0, 0, 0, 0, "cut_over"⟩, rfl, by decide, rfl,
      by decide⟩
  obtain ⟨e, he, hcut, hshut⟩ := hlast
  rw [h.opened e he 1 _ 50 hcut] at hshut
  exact absurd hshut (by decide)

end CrewSync.Pauses
