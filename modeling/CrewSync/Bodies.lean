/-
No body is lost by moving it, over whole runs of the system of moves.

A message is authoritative in one place: its row, when it is on Postgres; otherwise its
local copy, while there is one, or the broker under its locator. Six parts of the server
fill, empty and overwrite rows: sends, the copy loop, the cutover, `abort`, the sweep
and `cleanup`. Each looks at the row once more in its last statement, but not at
everything it relies on.

What they rely on is said of one row at a time (`RowOk`): a local body is the one that
was sent, a row on Postgres has one, a locator names an entry with the message's id, and
a row that is on JetStream without a locator has one too. Entries, slots, leases and
envelopes hold what was sent; an item that is verified to JetStream names its copy; a
message that has a slot has no item. Everything that holds of a message so is kept for
good (`Goes`), so a process may rely on it whatever it has missed.

One step relies on more. A cutover to Postgres declares the row authoritative of every
message its run has verified. The copy was written back, but a `cleanup` may have
emptied the row since, or a sweep, once the run was given up by a process that shares it.
-/
import CrewSync.Moves

set_option autoImplicit false

namespace CrewSync.Bodies

open Schema Rows Outbox Migrate Release
open Broker Moves Runs Crew

/-! ## The law -/

section Law

variable (sha256 : String → String)

/-- Where the message is authoritative, there is the body that was sent. -/
def body_in_place (b : List Entry) (m : ConversationMessage) : Bool :=
  if m.backend = .postgres ∨ m.body ≠ "" then
    m.body != "" && m.body_sha256 == some (sha256 m.body)
  else m.canonical_locator.any fun l => (direct_get l b).any fun x =>
    x.envelope.message_id == m.id && m.body_sha256 == some (sha256 x.envelope.body)

/-- What moves promise of a run: a message that was accepted stays, and its body is in
place unless it is marked as gone. -/
structure BodyLaw (tr : List (Trans Sys Act)) : Prop where
  stays : ∀ e ∈ tr, ∀ m ∈ e.pre.db.conversation_messages, ∃ m' ∈ e.post.db.conversation_messages,
    m'.id = m.id ∧ m'.body_sha256 = m.body_sha256
  in_place : ∀ e ∈ tr, ∀ m ∈ e.post.db.conversation_messages, m.tombstoned_at = none →
    body_in_place sha256 e.post.broker m = true

end Law

/-- The broker drops nothing. -/
def never_drops : Act → Bool
  | .drop _ => false
  | _ => true

/-- What the run has verified of the thread is in its row still. -/
def bodies_there (run conversation_id : Uuid) (db : Db) : Bool :=
  db.conversation_messages.all fun m => m.conversation_id != conversation_id ||
    m.tombstoned_at.isSome || m.body != "" || (verified_part run db m).isNone

/-- A cutover to Postgres finds in its row every body it declares authoritative there. -/
def heeds_rows (s : Sys) : Act → Bool
  | .statement i _ _ => s.movers[i]?.all fun m =>
    match m.phase with
    | .looping run [] _ => m.direction == .to_jetstream || bodies_there run m.conversation_id s.db
    | _ => true
  | _ => true

/-! ## What holds of a row, a slot, an item -/

/-- The message is on Postgres, or has a locator. -/
def filed (m : ConversationMessage) : Prop := m.backend = .postgres ∨ m.canonical_locator.isSome = true

/-- A message under this id is. -/
def Settled (db : Db) (k : Uuid) : Prop := ∃ m ∈ db.conversation_messages, m.id = k ∧ filed m

/-- No message under this id is: its body is in its row, and that is not its place. -/
def Unfiled (db : Db) (k : Uuid) : Prop :=
  ∃ m ∈ db.conversation_messages, m.id = k ∧ m.backend = .jetstream ∧ m.canonical_locator = none

/-- The broker stored a body of the message under the locator. -/
def Kept (b : List Entry) (k : Uuid) (l : Locator) : Prop :=
  ∃ x ∈ b, x.locator = l ∧ x.envelope.message_id = k

section Rows

variable (sha256 : String → String)

/-- The body is the one that was sent as message `k`. -/
def Right (db : Db) (k : Uuid) (body : String) : Prop :=
  body ≠ "" ∧ ∃ m ∈ db.conversation_messages, m.id = k ∧ m.body_sha256 = some (sha256 body)

/-- What holds of a message's row. -/
structure RowOk (b : List Entry) (m : ConversationMessage) : Prop where
  right : m.body ≠ "" → m.body_sha256 = some (sha256 m.body)
  on_postgres : m.backend = .postgres →
    m.canonical_locator = none ∧ (m.tombstoned_at = none → m.body ≠ "")
  on_broker : ∀ l, m.canonical_locator = some l → Kept b m.id l
  unfiled : m.backend = .jetstream → m.canonical_locator = none → m.tombstoned_at = none → m.body ≠ ""

end Rows

/-- What holds of an item: its message has no slot, and if it is a copy on the broker,
the broker has it. -/
structure ItemOk (db : Db) (b : List Entry) (i : ConversationMigrationItem) : Prop where
  settled : Settled db i.message_id
  run : ∃ g ∈ db.conversation_migrations, g.id = i.migration_id ∧ (g.direction = .to_jetstream →
    (∀ l, i.target_locator = some l → Kept b i.message_id l) ∧
      (i.state = .verified → i.target_locator.isSome = true))

/-- A thread on Postgres publishes by storing, any other through the outbox. -/
def Routed (c : Conversation) : Prop := c.publication = .sync ↔ c.backend = .postgres

/-- What holds of the tables and of the broker in every reachable state. -/
structure Sound (sha256 : String → String) (s : Sys) : Prop where
  messages : s.db.MessagesKeyed
  rows : ∀ m ∈ s.db.conversation_messages, RowOk sha256 s.broker m
  slots : s.db.SlotsKeyed
  parcels : ∀ o ∈ s.db.conversation_outbox,
    Right sha256 s.db o.message_id o.payload ∧ Unfiled s.db o.message_id
  routes : ∀ c ∈ s.db.conversations, Routed c
  runs : Keyed ConversationMigration.id s.db.conversation_migrations
  item_keys : Keyed item_key s.db.conversation_migration_items
  items : ∀ i ∈ s.db.conversation_migration_items, ItemOk s.db s.broker i
  places : Keyed Entry.locator s.broker
  entries : ∀ x ∈ s.broker, x.gone = false ∧ Right sha256 s.db x.envelope.message_id x.envelope.body
  leases : ∀ l ∈ s.leases, Right sha256 s.db l.message_id l.payload
  presented : ∀ e ∈ s.presented, Right sha256 s.db e.message_id e.body

/-! ## What holds of a process -/

/-- The run has an item for the message that names a copy. -/
def Copied (db : Db) (run k : Uuid) : Prop :=
  ∃ i ∈ db.conversation_migration_items, item_key i = (run, k) ∧ i.target_locator.isSome = true

/-- The run is one in this direction. -/
def OnRun (db : Db) (run : Uuid) (d : Direction) : Prop :=
  ∃ g ∈ db.conversation_migrations, g.id = run ∧ g.direction = d

/-- What a process knows about where it stands with the message in hand. -/
def SpotKnown (db : Db) (b : List Entry) (d : Direction) (run k : Uuid) : Spot → Prop
  | .planning => True
  | .recalling | .writing | .mismatched => Planned db run k
  | .recording l => Planned db run k ∧ (d = .to_jetstream → Kept b k l)
  | .probing _ | .confirming | .reading_back _ | .verifying => Copied db run k

section Knowledge

variable (sha256 : String → String)

/-- What a row of the list said is so, and stays so. -/
structure RowKnown (db : Db) (row : CopyRow) : Prop where
  body : row.backend = .postgres → Right sha256 db row.message_id row.local_body
  settled : row.backend = .postgres ∨ row.locator.isSome = true → Settled db row.message_id

/-- What a process knows. -/
def Knows (db : Db) (b : List Entry) (d : Direction) : Phase → Prop
  | .pausing run | .reading run => OnRun db run d
  | .looping run rows _ => OnRun db run d ∧ ∀ row ∈ rows, RowKnown sha256 db row
  | .fetching run _ row rows _ =>
    OnRun db run d ∧ Settled db row.message_id ∧ ∀ row ∈ rows, RowKnown sha256 db row
  | .holding run at_ h =>
    OnRun db run d ∧ Right sha256 db h.row.message_id h.body ∧ Settled db h.row.message_id ∧
      SpotKnown db b d run h.row.message_id at_ ∧ ∀ row ∈ h.rows, RowKnown sha256 db row
  | _ => True

/-- What holds in every reachable state. -/
structure Inv (s : Sys) : Prop where
  sound : Sound sha256 s
  movers : ∀ m ∈ s.movers, Knows sha256 s.db s.broker m.direction m.phase

end Knowledge

/-! ## What is so stays so -/

/-- What every step keeps of the tables. -/
structure Goes (db db' : Db) : Prop where
  digests : ∀ m ∈ db.conversation_messages, ∃ m' ∈ db'.conversation_messages,
    m'.id = m.id ∧ m'.body_sha256 = m.body_sha256 ∧ (filed m → filed m')
  items : ∀ i ∈ db.conversation_migration_items, ∃ i' ∈ db'.conversation_migration_items,
    item_key i' = item_key i ∧ (i.target_locator.isSome = true → i'.target_locator.isSome = true)
  runs : ∀ g ∈ db.conversation_migrations, ∃ g' ∈ db'.conversation_migrations,
    g'.id = g.id ∧ g'.direction = g.direction

section Stable

variable {sha256 : String → String} {db db' : Db} {b b' : List Entry} {k run : Uuid} {d : Direction}
  {body : String} {l : Locator}

theorem Goes.refl (db : Db) : Goes db db :=
  ⟨fun m hm => ⟨m, hm, rfl, rfl, fun h => h⟩, fun i hi => ⟨i, hi, rfl, fun h => h⟩,
    fun g hg => ⟨g, hg, rfl, rfl⟩⟩

theorem Goes.right (h : Goes db db') (hr : Right sha256 db k body) : Right sha256 db' k body := by
  obtain ⟨hne, m, hm, hid, hsum⟩ := hr
  obtain ⟨m', hm', hid', hsum', -⟩ := h.digests m hm
  exact ⟨hne, m', hm', hid'.trans hid, hsum'.trans hsum⟩

theorem Goes.settled (h : Goes db db') (hs : Settled db k) : Settled db' k := by
  obtain ⟨m, hm, hid, hf⟩ := hs
  obtain ⟨m', hm', hid', -, hf'⟩ := h.digests m hm
  exact ⟨m', hm', hid'.trans hid, hf' hf⟩

theorem Goes.planned (h : Goes db db') (hp : Planned db run k) : Planned db' run k := by
  obtain ⟨i, hi, hk⟩ := hp
  obtain ⟨i', hi', hk', -⟩ := h.items i hi
  exact ⟨i', hi', hk'.trans hk⟩

theorem Goes.copied (h : Goes db db') (hc : Copied db run k) : Copied db' run k := by
  obtain ⟨i, hi, hk, hl⟩ := hc
  obtain ⟨i', hi', hk', hl'⟩ := h.items i hi
  exact ⟨i', hi', hk'.trans hk, hl' hl⟩

theorem Goes.on_run (h : Goes db db') (hr : OnRun db run d) : OnRun db' run d := by
  obtain ⟨g, hg, hid, hd⟩ := hr
  obtain ⟨g', hg', hid', hd'⟩ := h.runs g hg
  exact ⟨g', hg', hid'.trans hid, hd'.trans hd⟩

theorem kept_later (h : Later b b') (hk : Kept b k l) : Kept b' k l := by
  obtain ⟨x, hx, hl, hid⟩ := hk
  obtain ⟨x', hx', hsame⟩ := h.old x hx
  refine ⟨x', hx', hsame.locator.trans hl, ?_⟩
  rw [hsame.envelope]
  exact hid

theorem RowOk.later {m : ConversationMessage} (h : Later b b') (hm : RowOk sha256 b m) :
    RowOk sha256 b' m :=
  ⟨hm.right, hm.on_postgres, fun l hl => kept_later h (hm.on_broker l hl), hm.unfiled⟩

theorem RowKnown.mono {row : CopyRow} (h : Goes db db') (hr : RowKnown sha256 db row) :
    RowKnown sha256 db' row :=
  ⟨fun hb => h.right (hr.body hb), fun hf => h.settled (hr.settled hf)⟩

theorem SpotKnown.mono {at_ : Spot} (h : Goes db db') (hb : Later b b')
    (hs : SpotKnown db b d run k at_) : SpotKnown db' b' d run k at_ := by
  cases at_ with
  | planning => exact trivial
  | recalling | writing | mismatched => exact h.planned hs
  | probing l | confirming | reading_back l | verifying => exact h.copied hs
  | recording l => exact ⟨h.planned hs.1, fun hd => kept_later hb (hs.2 hd)⟩

/-- What a process knows it may rely on, whatever commits meanwhile. -/
theorem Knows.mono {ph : Phase} (h : Goes db db') (hb : Later b b') (hk : Knows sha256 db b d ph) :
    Knows sha256 db' b' d ph := by
  cases ph with
  | opening | failing run why | ended res => exact trivial
  | pausing run | reading run => exact h.on_run hk
  | looping run rows t => exact ⟨h.on_run hk.1, fun row hr => (hk.2 row hr).mono h⟩
  | fetching run l row rows t =>
    exact ⟨h.on_run hk.1, h.settled hk.2.1, fun row hr => (hk.2.2 row hr).mono h⟩
  | holding run at_ hand =>
    obtain ⟨hrun, hright, hset, hspot, hrows⟩ := hk
    exact ⟨h.on_run hrun, h.right hright, h.settled hset, hspot.mono h hb,
      fun row hr => (hrows row hr).mono h⟩

theorem ItemOk.mono {i : ConversationMigrationItem} (h : Goes db db') (hb : Later b b')
    (hi : ItemOk db b i) : ItemOk db' b' i := by
  obtain ⟨g, hg, hid, hto⟩ := hi.run
  obtain ⟨g', hg', hid', hd'⟩ := h.runs g hg
  refine ⟨h.settled hi.settled, g', hg', hid'.trans hid, fun hd => ?_⟩
  obtain ⟨hkept, hver⟩ := hto (hd'.symm.trans hd)
  exact ⟨fun l hl => kept_later hb (hkept l hl), hver⟩

end Stable

/-! ## Statements about messages -/

/-- The columns of a run that are never written again. -/
def run_key (g : ConversationMigration) : Uuid × Direction := (g.id, g.direction)

/-- Messages apart, a commit writes no parcel, and neither opens runs nor plans items. -/
structure Aside (db db' : Db) : Prop where
  slots : db'.conversation_outbox.map parcel = db.conversation_outbox.map parcel
  routes : ∀ c ∈ db'.conversations, Routed c
  items : db'.conversation_migration_items = db.conversation_migration_items
  runs : db'.conversation_migrations.map run_key = db.conversation_migrations.map run_key

/-- What a commit is to keep. -/
abbrev Commits (sha256 : String → String) (s : Sys) (db' : Db) : Prop := Goes s.db db' ∧ Sound sha256 (s.after db')

section Statements

variable {sha256 : String → String} {s t : Sys} {db db' : Db} {b : List Entry} {k id run : Uuid} {body : String}
  {m : Mover} {f : ConversationMessage → ConversationMessage} {p : ConversationMessage → Bool} {now : ℕ}
  {d : Direction} {e : Envelope} {ph : Phase}

theorem Unfiled.not_settled (hk : db.MessagesKeyed) (hu : Unfiled db k) : ¬ Settled db k := by
  rintro ⟨m, hm, hid, hf⟩
  obtain ⟨x, hx, hxid, hb, hl⟩ := hu
  rw [hk.eq hm hx (hid.trans hxid.symm)] at hf
  rcases hf with hf | hf
  · rw [hb] at hf
    cases hf
  · rw [hl] at hf
    cases hf

/-- What is right is right of the row itself. -/
theorem Right.sum (hk : db.MessagesKeyed) (hr : Right sha256 db k body) {m : ConversationMessage}
    (hm : m ∈ db.conversation_messages) (hid : m.id = k) : m.body_sha256 = some (sha256 body) := by
  obtain ⟨-, x, hx, hxid, hsum⟩ := hr
  rw [hk.eq hm hx (hid.trans hxid.symm)]
  exact hsum

/-- Tables of which nothing but messages changed. -/
theorem Goes.of_map (hm : db'.conversation_messages = db.conversation_messages.map f) (hid : ∀ m, (f m).id = m.id)
    (hsum : ∀ m, (f m).body_sha256 = m.body_sha256) (hfiled : ∀ m ∈ db.conversation_messages, filed m → filed (f m))
    (hi : db'.conversation_migration_items = db.conversation_migration_items)
    (hg : db'.conversation_migrations.map run_key = db.conversation_migrations.map run_key) :
    Goes db db' := by
  refine ⟨fun m hin => ⟨f m, ?_, hid m, hsum m, hfiled m hin⟩, fun i hin => ⟨i, ?_, rfl, fun h => h⟩,
    fun g hin => ?_⟩
  · rw [hm]
    exact List.mem_map_of_mem hin
  · rw [hi]
    exact hin
  · obtain ⟨g', hg', heq⟩ := of_map_eq hg.symm g hin
    exact ⟨g', hg', (Prod.mk.inj heq).1, (Prod.mk.inj heq).2⟩

/-- A commit that rewrites messages one by one, drops no more than slots, and neither
opens runs nor plans items. -/
theorem Sound.rewritten (hs : Sound sha256 s)
    (hm : db'.conversation_messages = s.db.conversation_messages.map f) (hid : ∀ m, (f m).id = m.id)
    (hsum : ∀ m, (f m).body_sha256 = m.body_sha256) (hfiled : ∀ m ∈ s.db.conversation_messages, filed m → filed (f m))
    (hrow : ∀ m ∈ s.db.conversation_messages, RowOk sha256 s.broker m → RowOk sha256 s.broker (f m))
    (hslots : (db'.conversation_outbox.map parcel).Sublist (s.db.conversation_outbox.map parcel))
    (hunfiled : ∀ o ∈ db'.conversation_outbox, ∀ m ∈ s.db.conversation_messages,
      m.id = o.message_id → m.backend = .jetstream → m.canonical_locator = none →
      (f m).backend = .jetstream ∧ (f m).canonical_locator = none) (hroutes : ∀ c ∈ db'.conversations, Routed c)
    (hi : db'.conversation_migration_items = s.db.conversation_migration_items)
    (hg : db'.conversation_migrations.map run_key = s.db.conversation_migrations.map run_key) :
    Commits sha256 s db' := by
  have hgoes : Goes s.db db' := .of_map hm hid hsum hfiled hi hg
  refine ⟨hgoes, ?_⟩
  constructor
  · show Keyed _ db'.conversation_messages
    rw [hm]
    exact hs.messages.map fun m _ => hid m
  · intro m hin
    rw [Sys.after, hm] at hin
    obtain ⟨m₀, hm₀, rfl⟩ := List.mem_map.mp hin
    exact hrow m₀ hm₀ (hs.rows m₀ hm₀)
  · have hids := hslots.map Envelope.message_id
    rw [List.map_map, List.map_map] at hids
    exact List.Nodup.sublist hids hs.slots
  · intro o ho
    obtain ⟨o₀, ho₀, heq⟩ := List.mem_map.mp (hslots.subset (List.mem_map_of_mem ho))
    have hk : o₀.message_id = o.message_id := congrArg Envelope.message_id heq
    have hbody : o₀.payload = o.payload := congrArg Envelope.body heq
    obtain ⟨hright, m, hin, hmid, hback, hloc⟩ := hs.parcels o₀ ho₀
    refine ⟨?_, f m, ?_, ?_, hunfiled o ho m hin (hmid.trans hk) hback hloc⟩
    · rw [← hk, ← hbody]
      exact hgoes.right hright
    · rw [Sys.after, hm]
      exact List.mem_map_of_mem hin
    · exact (hid m).trans (hmid.trans hk)
  · exact hroutes
  · show Keyed _ db'.conversation_migrations
    have hids := congrArg (fun l => l.map Prod.fst) hg
    simp only [List.map_map] at hids
    have hkeyed : (db'.conversation_migrations.map ConversationMigration.id).Nodup := by
      rw [show db'.conversation_migrations.map ConversationMigration.id =
        s.db.conversation_migrations.map ConversationMigration.id from hids]
      exact hs.runs
    exact hkeyed
  · show Keyed _ db'.conversation_migration_items
    rw [hi]
    exact hs.item_keys
  · intro i hin
    rw [Sys.after, hi] at hin
    exact (hs.items i hin).mono hgoes (.refl _)
  · exact hs.places
  · exact fun x hx => ⟨(hs.entries x hx).1, hgoes.right (hs.entries x hx).2⟩
  · exact fun l hl => hgoes.right (hs.leases l hl)
  · exact fun e he => hgoes.right (hs.presented e he)

/-- One that only writes bodies, or marks, and leaves every message where it is. -/
theorem Sound.bodies (hs : Sound sha256 s) (hm : db'.conversation_messages = update p f s.db.conversation_messages)
    (hplace : ∀ m, (f m).id = m.id ∧ (f m).body_sha256 = m.body_sha256 ∧
      (f m).backend = m.backend ∧ (f m).canonical_locator = m.canonical_locator)
    (hrow : ∀ m ∈ s.db.conversation_messages, p m = true → RowOk sha256 s.broker m →
      RowOk sha256 s.broker (f m)) (haside : Aside s.db db') :
    Commits sha256 s db' := by
  have hsplit : ∀ m, (if p m then f m else m).id = m.id ∧
      (if p m then f m else m).body_sha256 = m.body_sha256 ∧
      (if p m then f m else m).backend = m.backend ∧
      (if p m then f m else m).canonical_locator = m.canonical_locator := by
    intro m
    split
    · exact hplace m
    · exact ⟨rfl, rfl, rfl, rfl⟩
  refine hs.rewritten (f := fun m => if p m then f m else m) hm (fun m => (hsplit m).1)
    (fun m => (hsplit m).2.1) (fun m _ hfiled => ?_) (fun m hin hok => ?_) ?_
    (fun o _ m _ _ hb hl => ?_) haside.routes haside.items haside.runs
  · unfold filed at hfiled ⊢
    rw [(hsplit m).2.2.1, (hsplit m).2.2.2]
    exact hfiled
  · by_cases hp : p m = true
    · rw [if_pos hp]
      exact hrow m hin hp hok
    · rw [if_neg hp]
      exact hok
  · rw [haside.slots]
  · rw [(hsplit m).2.2.1, (hsplit m).2.2.2]
    exact ⟨hb, hl⟩

/-- A row that is emptied, where the broker has the body. -/
theorem RowOk.emptied {m : ConversationMessage} (hm : RowOk sha256 b m)
    (hl : m.canonical_locator.isSome = true) : RowOk sha256 b { m with body := "" } := by
  have hsome : m.canonical_locator ≠ none := by
    intro h
    rw [h] at hl
    cases hl
  exact ⟨fun h => absurd rfl h, fun hb => absurd (hm.on_postgres hb).1 hsome, hm.on_broker,
    fun _ h => absurd h hsome⟩

/-- A commit that writes no message. -/
theorem Sound.elsewhere (hs : Sound sha256 s) (hm : db'.conversation_messages = s.db.conversation_messages)
    (haside : Aside s.db db') :
    Commits sha256 s db' := by
  refine hs.rewritten (f := fun m => m) ?_ (fun _ => rfl) (fun _ => rfl) (fun _ _ h => h)
    (fun _ _ h => h) ?_ (fun _ _ _ _ _ hb hl => ⟨hb, hl⟩) haside.routes haside.items haside.runs
  · rw [hm, List.map_id']
  · rw [haside.slots]

/-! ## Each of them -/

/-- A slot is settled: the message is where the broker put it. -/
theorem Sound.stored (hs : Sound sha256 s) {l : Lease} {locator : Locator} {o : ConversationOutbox}
    (hack : acknowledges l.publish_key l.message_id locator s.broker = true)
    (ho : o ∈ s.db.conversation_outbox) (hoid : o.message_id = l.message_id) (hheld : holds now l o = true)
    (hslots : db'.conversation_outbox = delete (holds now l) s.db.conversation_outbox)
    (hm : db'.conversation_messages = update (fun m => m.id == l.message_id)
      (fun m => { m with publication_state := .stored, canonical_locator := some locator })
      s.db.conversation_messages)
    (hg : db'.conversation_migrations = s.db.conversation_migrations)
    (hi : db'.conversation_migration_items = s.db.conversation_migration_items)
    (hc : db'.conversations = s.db.conversations) : Commits sha256 s db' := by
  obtain ⟨x, hx, hloc, -, hxid⟩ := acknowledges_issued hack
  -- the message had its body in its row, and was in no place yet
  have hwas : ∀ m ∈ s.db.conversation_messages, m.id = l.message_id → m.backend = .jetstream := by
    intro m hin hid
    obtain ⟨-, y, hy, hyid, hb, -⟩ := hs.parcels o ho
    rw [hs.messages.eq hin hy (hid.trans (hoid.symm.trans hyid.symm))]
    exact hb
  refine hs.rewritten hm (fun m => ?_) (fun m => ?_) (fun m _ hf => ?_) (fun m hin hok => ?_) ?_
    (fun o' ho' m hin hid hb hl => ?_) ?_ hi ?_
  · split <;> rfl
  · split <;> rfl
  · by_cases hid : (m.id == l.message_id) = true
    · rw [if_pos hid]
      exact Or.inr rfl
    · rw [if_neg hid]
      exact hf
  · by_cases hid : (m.id == l.message_id) = true
    · rw [if_pos hid]
      have hb := hwas m hin (beq_iff_eq.mp hid)
      refine ⟨hok.right, fun h => absurd (h.symm.trans hb) (by decide), fun l' hl' => ?_,
        fun _ h => nomatch h⟩
      rw [← Option.some.inj hl']
      exact ⟨x, hx, hloc, hxid.trans (beq_iff_eq.mp hid).symm⟩
    · rw [if_neg hid]
      exact hok
  · rw [hslots]
    exact List.filter_sublist.map _
  · -- the slot that was dropped was the message's only one
    rw [hslots] at ho'
    obtain ⟨hin', hnot⟩ := mem_delete.mp ho'
    have hne : (m.id == l.message_id) = false := by
      rw [beq_eq_false_iff_ne]
      intro h
      rw [hs.slots.eq hin' ho (hid.symm.trans (h.trans hoid.symm)), hheld] at hnot
      cases hnot
    simp only [hne, Bool.false_eq_true, if_false]
    exact ⟨hb, hl⟩
  · rw [hc]
    exact hs.routes
  · rw [hg]

/-- An attempt that will not be made again. -/
theorem Sound.failed (hs : Sound sha256 s) {slots : List ConversationOutbox}
    (hslots : slots.map parcel = s.db.conversation_outbox.map parcel) :
    Commits sha256 s { s.db with
        conversation_outbox := slots
        conversation_messages := set_state .failed k s.db.conversation_messages } :=
  hs.bodies rfl (fun _ => ⟨rfl, rfl, rfl, rfl⟩)
    (fun _ _ _ hok => ⟨hok.right, hok.on_postgres, hok.on_broker, hok.unfiled⟩) ⟨hslots, hs.routes, rfl, rfl⟩

/-- What was fetched is written back. -/
theorem Sound.written_back (hs : Sound sha256 s) (hright : Right sha256 s.db k body) :
    Commits sha256 s (write_back k body s.db) := by
  refine hs.bodies rfl (fun _ => ⟨rfl, rfl, rfl, rfl⟩) (fun m hm hid hok => ?_) ⟨rfl, hs.routes, rfl, rfl⟩
  have hsum := hright.sum hs.messages hm (beq_iff_eq.mp hid)
  exact ⟨fun _ => hsum, fun hb => ⟨(hok.on_postgres hb).1, fun _ => hright.1⟩, hok.on_broker,
    fun _ _ _ => hright.1⟩

/-- Rows are emptied whose bodies are on the broker. -/
theorem Sound.emptied (hs : Sound sha256 s)
    (hm : db'.conversation_messages = update p (fun m => { m with body := "" }) s.db.conversation_messages)
    (hp : ∀ m ∈ s.db.conversation_messages, p m = true → m.canonical_locator.isSome = true)
    (haside : Aside s.db db') :
    Commits sha256 s db' :=
  hs.bodies hm (fun _ => ⟨rfl, rfl, rfl, rfl⟩) (fun m hin hpm hok => hok.emptied (hp m hin hpm)) haside

/-- Rows with a locator are emptied, and nothing else is written. -/
theorem Sound.cleared (hs : Sound sha256 s) (p : ConversationMessage → Bool)
    (hp : ∀ m ∈ s.db.conversation_messages, p m = true → m.canonical_locator.isSome = true) :
    Commits sha256 s { s.db with
        conversation_messages := update p (fun m => { m with body := "" }) s.db.conversation_messages } :=
  hs.emptied rfl hp ⟨rfl, hs.routes, rfl, rfl⟩

theorem Sound.tombstoned (hs : Sound sha256 s) (now : ℕ) (k : Uuid) (why : String) :
    Commits sha256 s (tombstone now k why s.db) :=
  hs.bodies rfl (fun _ => ⟨rfl, rfl, rfl, rfl⟩)
    (fun _ _ _ hok => ⟨hok.right, fun hb => ⟨(hok.on_postgres hb).1, fun h => nomatch h⟩,
      hok.on_broker, fun _ _ h => nomatch h⟩) ⟨rfl, hs.routes, rfl, rfl⟩

/-- The message under an id that is filed is filed there. -/
theorem Settled.filed (hk : db.MessagesKeyed)
    (hset : Settled db k) {m : ConversationMessage} (hm : m ∈ db.conversation_messages) (hid : m.id = k) : filed m := by
  obtain ⟨x, hx, hxid, hf⟩ := hset
  rw [hk.eq hm hx (hid.trans hxid.symm)]
  exact hf

/-- A move is given up: the copies that are cleared were never authoritative. -/
theorem Sound.aborted (hs : Sound sha256 s) (now run : ℕ) (why : String) :
    Commits sha256 s (abort now run why s.db) := by
  have hroutes : ∀ p : Conversation → Bool, ∀ c ∈ update p
      (fun c => { c with write_paused_at := none }) s.db.conversations, Routed c :=
    fun p => forall_update hs.routes fun _ _ _ h => h
  unfold Migrate.abort
  split
  · exact ⟨.refl _, hs.elsewhere rfl ⟨rfl, hs.routes, rfl, rfl⟩ |>.2⟩
  · rename_i g hg
    dsimp only
    split
    · refine hs.emptied rfl (fun m hm hp => ?_) ⟨rfl, hroutes _, rfl, map_key_update fun _ => rfl⟩
      -- an item is only planned for a message that is filed, and this one is not on Postgres
      simp only [is_unverified_copy, Bool.and_eq_true, bne_iff_ne, ne_eq, List.any_eq_true,
        beq_iff_eq] at hp
      obtain ⟨hb, i, hi, ⟨-, hid⟩, -⟩ := hp
      have hfiled := (hs.items i hi).settled.filed hs.messages hm hid.symm
      exact hfiled.resolve_left hb
    · exact hs.elsewhere rfl ⟨rfl, hroutes _, rfl, map_key_update fun _ => rfl⟩

theorem routed_routes {c : Conversation} (h : Routed c) : Routed (routed id d c) := by
  unfold routed
  split
  · cases d <;> simp [Routed, target]
  · exact h

/-- A move is cut over. What it declares to be on Postgres has its body in the row. -/
theorem Sound.cut_over (hs : Sound sha256 s) {run id copied bytes : ℕ}
    (hok : cutover now run id d copied bytes s.db = .ok db') (hrun : OnRun s.db run d)
    (hthere : d = .to_jetstream ∨ bodies_there run id s.db = true) :
    Commits sha256 s db' := by
  obtain rfl := cutover_ok hok
  -- a verified item of a move to the broker names a copy the broker has
  have hcopy : ∀ m i, verified_part run s.db m = some i → d = .to_jetstream →
      ∃ l, i.target_locator = some l ∧ Kept s.broker m.id l := by
    intro m i hi hd
    have hp := pos_of_one hi
    simp only [Bool.and_eq_true, beq_iff_eq] at hp
    obtain ⟨⟨hmig, hst⟩, hmid⟩ := hp
    obtain ⟨g, hg, hgid, hto⟩ := (hs.items i (mem_of_one hi)).run
    obtain ⟨g', hg', hgid', hgd'⟩ := hrun
    have hgd : g.direction = .to_jetstream := by
      rw [hs.runs.eq hg hg' (hgid.trans (hmig.trans hgid'.symm))]
      exact hgd'.trans hd
    obtain ⟨hkept, hver⟩ := hto hgd
    obtain ⟨l, hl⟩ := Option.isSome_iff_exists.mp (hver hst)
    exact ⟨l, hl, hmid ▸ hkept l hl⟩
  -- and one of a move to Postgres a row that has its body
  have hbody : ∀ m ∈ s.db.conversation_messages, d = .to_postgres → m.conversation_id = id →
      m.backend = .postgres ∨ (verified_part run s.db m).isSome = true → m.tombstoned_at = none →
      m.body ≠ "" := by
    intro m hm hd hconv hwhy htomb
    rcases hwhy with hb | hpart
    · exact ((hs.rows m hm).on_postgres hb).2 htomb
    · rcases hthere with hto | hthere
      · exact absurd (hd.symm.trans hto) (by decide)
      · have hrow := List.all_eq_true.mp hthere m hm
        obtain ⟨i, hi⟩ := Option.isSome_iff_exists.mp hpart
        simpa [hconv, htomb, hi] using hrow
  refine hs.rewritten rfl (fun m => ?_) (fun m => ?_) (fun m hm hf => ?_) (fun m hm hok => ?_) ?_
    (fun o ho m hm hid hb hl => ?_) ?_ rfl ?_
  · rcases cut_over_row run id d s.db m with ⟨heq, -⟩ | ⟨i, -, -, -, heq⟩ | ⟨-, -, -, heq⟩ <;> rw [heq]
  · rcases cut_over_row run id d s.db m with ⟨heq, -⟩ | ⟨i, -, -, -, heq⟩ | ⟨-, -, -, heq⟩ <;> rw [heq]
  · rcases cut_over_row run id d s.db m with ⟨heq, -⟩ | ⟨i, hi, hd, -, heq⟩ | ⟨-, -, -, heq⟩ <;> rw [heq]
    · exact hf
    · obtain ⟨l, hl, -⟩ := hcopy m i hi hd
      exact Or.inr (by rw [hl]; rfl)
    · exact Or.inl rfl
  · rcases cut_over_row run id d s.db m with ⟨heq, -⟩ | ⟨i, hi, hd, -, heq⟩ | ⟨hd, hconv, hwhy, heq⟩ <;>
      rw [heq]
    · exact hok
    · obtain ⟨l, hl, hkept⟩ := hcopy m i hi hd
      refine ⟨hok.right, fun h => absurd h (by simp), fun l' hl' => ?_, fun _ h => ?_⟩
      · rw [← Option.some.inj (hl.symm.trans hl')]
        exact hkept
      · exact absurd (hl.symm.trans h) (by simp)
    · exact ⟨hok.right, fun _ => ⟨rfl, hbody m hm hd hconv hwhy⟩, fun l' hl' => absurd hl' (by simp),
        fun h => nomatch h⟩
  · exact List.Sublist.refl _
  · -- a message with a slot has no item, and is not on Postgres
    have hnot : ¬ Settled s.db m.id := by
      have hunfiled := (hs.parcels o ho).2
      rw [← hid] at hunfiled
      exact hunfiled.not_settled hs.messages
    rcases cut_over_row run id d s.db m with ⟨heq, -⟩ | ⟨i, hi, -, -, -⟩ | ⟨-, -, hwhy, -⟩
    · rw [heq]
      exact ⟨hb, hl⟩
    · have hp := pos_of_one hi
      simp only [Bool.and_eq_true, beq_iff_eq] at hp
      exact absurd (hp.2 ▸ (hs.items i (mem_of_one hi)).settled) hnot
    · rcases hwhy with hb' | hpart
      · exact absurd (hb.symm.trans hb') (by decide)
      · obtain ⟨i, hi⟩ := Option.isSome_iff_exists.mp hpart
        have hp := pos_of_one hi
        simp only [Bool.and_eq_true, beq_iff_eq] at hp
        exact absurd (hp.2 ▸ (hs.items i (mem_of_one hi)).settled) hnot
  · intro c hc
    obtain ⟨c₀, hc₀, rfl⟩ := List.mem_map.mp hc
    exact routed_routes (hs.routes c₀ hc₀)
  · rw [List.map_map]
    refine List.map_congr_left fun g _ => ?_
    simp only [Function.comp_apply, finished]
    split <;> rfl

/-- A commit that writes items and runs. -/
theorem Sound.planning (hs : Sound sha256 s) {items : List ConversationMigrationItem}
    {runs : List ConversationMigration} (hgoes : Goes s.db { s.db with
      conversation_migrations := runs, conversation_migration_items := items })
    (hruns : Keyed ConversationMigration.id runs) (hkeys : Keyed item_key items)
    (hok : ∀ i ∈ items, ItemOk { s.db with
      conversation_migrations := runs, conversation_migration_items := items } s.broker i) :
    Sound sha256 (s.after { s.db with
      conversation_migrations := runs, conversation_migration_items := items }) :=
  { messages := hs.messages
    rows := hs.rows
    slots := hs.slots
    parcels := hs.parcels
    routes := hs.routes
    runs := hruns
    item_keys := hkeys
    items := hok
    places := hs.places
    entries := fun x hx => ⟨(hs.entries x hx).1, hgoes.right (hs.entries x hx).2⟩
    leases := fun l hl => hgoes.right (hs.leases l hl)
    presented := fun e he => hgoes.right (hs.presented e he) }

/-- A run is opened. -/
theorem Sound.opened (hs : Sound sha256 s) {g : ConversationMigration}
    (hfresh : ∀ x ∈ s.db.conversation_migrations, x.id ≠ g.id) :
    Commits sha256 s { s.db with
        conversation_migrations := insert_into g s.db.conversation_migrations } := by
  have hgoes : Goes s.db { s.db with
      conversation_migrations := insert_into g s.db.conversation_migrations } :=
    ⟨fun m hm => ⟨m, hm, rfl, rfl, fun h => h⟩, fun i hi => ⟨i, hi, rfl, fun h => h⟩,
      fun x hx => ⟨x, mem_insert_into.mpr (Or.inl hx), rfl, rfl⟩⟩
  exact ⟨hgoes, hs.planning hgoes (hs.runs.insert_into hfresh) hs.item_keys
    fun i hi => (hs.items i hi).mono hgoes (.refl _)⟩

/-- The message is noted in the run. -/
theorem Sound.planned (hs : Sound sha256 s) (body : String) (hrun : OnRun s.db run d) (hset : Settled s.db k) :
    Goes s.db (plan_item sha256 run k body s.db) ∧ Sound sha256 (s.after (plan_item sha256 run k body s.db)) ∧
      Planned (plan_item sha256 run k body s.db) run k := by
  obtain ⟨g, hg, hgid, hgd⟩ := hrun
  have hforth : ∀ i ∈ s.db.conversation_migration_items,
      ∃ i' ∈ (plan_item sha256 run k body s.db).conversation_migration_items,
        item_key i' = item_key i ∧ (i.target_locator.isSome = true → i'.target_locator.isSome = true) := by
    intro i hi
    show ∃ i' ∈ upsert _ _ _ s.db.conversation_migration_items, _
    unfold Rows.upsert
    split
    · refine ⟨_, mem_update_of_mem hi, ?_⟩
      split
      · exact ⟨rfl, fun h => h⟩
      · exact ⟨rfl, fun h => h⟩
    · exact ⟨i, mem_insert_into.mpr (Or.inl hi), rfl, fun h => h⟩
  have hgoes : Goes s.db (plan_item sha256 run k body s.db) :=
    ⟨fun m hm => ⟨m, hm, rfl, rfl, fun h => h⟩, hforth, fun x hx => ⟨x, hx, rfl, rfl⟩⟩
  refine ⟨hgoes, hs.planning hgoes hs.runs ?_ (fun i hi => ?_), ?_⟩
  · exact hs.item_keys.upsert (fun _ => rfl) fun i hi => is_item_iff.mpr hi
  · rcases mem_upsert hi with ⟨i₀, hi₀, rfl⟩ | ⟨rfl, -⟩
    · have hok := (hs.items i₀ hi₀).mono hgoes (Later.refl s.broker)
      split
      · exact ⟨hok.settled, hok.run⟩
      · exact hok
    · -- a new item names no copy, and is not verified
      exact ⟨hgoes.settled hset, g, hg, hgid, fun _ =>
        ⟨fun l hl => absurd hl (by simp [item_row]), fun h => absurd h (by simp [item_row])⟩⟩
  · exact planned_of_plan run k body s.db

/-- An item is marked. -/
theorem Sound.marked (hs : Sound sha256 s) (run k : Uuid) (f : ConversationMigrationItem → ConversationMigrationItem)
    (hf : ∀ i, item_key (f i) = item_key i ∧
      (i.target_locator.isSome = true → (f i).target_locator.isSome = true))
    (hok : ∀ i ∈ s.db.conversation_migration_items, item_key i = (run, k) → ItemOk s.db s.broker i →
      ItemOk s.db s.broker (f i)) :
    Commits sha256 s (set_item run k f s.db) := by
  have hgoes : Goes s.db (set_item run k f s.db) := by
    refine ⟨fun m hm => ⟨m, hm, rfl, rfl, fun h => h⟩, fun i hi => ?_, fun x hx => ⟨x, hx, rfl, rfl⟩⟩
    refine ⟨_, mem_update_of_mem hi, ?_⟩
    split
    · exact hf i
    · exact ⟨rfl, fun h => h⟩
  refine ⟨hgoes, hs.planning hgoes hs.runs (hs.item_keys.update fun i => (hf i).1) fun i hi => ?_⟩
  obtain ⟨i₀, hi₀, rfl⟩ := mem_update.mp hi
  by_cases hp : is_item run k i₀ = true
  · rw [if_pos hp]
    exact (hok i₀ hi₀ (is_item_iff.mp hp) (hs.items i₀ hi₀)).mono hgoes (.refl _)
  · rw [if_neg hp]
    exact (hs.items i₀ hi₀).mono hgoes (.refl _)

/-- A copy is recorded. -/
theorem Sound.recorded (hs : Sound sha256 s) {l : Locator}
    (hrun : OnRun s.db run d) (hplan : Planned s.db run k) (hkept : d = .to_jetstream → Kept s.broker k l) :
    Goes s.db (set_item run k (copied_item l) s.db) ∧ Sound sha256 (s.after (set_item run k (copied_item l) s.db)) ∧
      Copied (set_item run k (copied_item l) s.db) run k := by
  obtain ⟨g', hg', hgid', hgd'⟩ := hrun
  obtain ⟨hgoes, hsound⟩ := hs.marked run k (copied_item l)
    (fun i => ⟨rfl, fun _ => rfl⟩) (fun i hi hk hok => by
      obtain ⟨g, hg, hgid, -⟩ := hok.run
      refine ⟨hok.settled, g, hg, hgid, fun hd => ⟨fun l' hl' => ?_, fun _ => rfl⟩⟩
      have hsame : g = g' := hs.runs.eq hg hg' (hgid.trans ((Prod.mk.inj hk).1.trans hgid'.symm))
      rw [← Option.some.inj hl']
      show Kept s.broker i.message_id l
      rw [(Prod.mk.inj hk).2]
      exact hkept (hgd'.symm.trans (hsame ▸ hd)))
  refine ⟨hgoes, hsound, ?_⟩
  obtain ⟨i, hi, hk⟩ := hplan
  exact ⟨_, mem_update_of_pos hi (is_item_iff.mpr hk), hk, rfl⟩

/-- A copy is verified. -/
theorem Sound.verified (hs : Sound sha256 s) (hcopied : Copied s.db run k) :
    Commits sha256 s (set_item run k verified_item s.db) := by
  refine hs.marked _ _ _ (fun i => ⟨rfl, fun h => h⟩) fun i hi hk hok => ?_
  obtain ⟨g, hg, hgid, hto⟩ := hok.run
  refine ⟨hok.settled, g, hg, hgid, fun hd => ⟨(hto hd).1, fun _ => ?_⟩⟩
  obtain ⟨x, hx, hxk, hl⟩ := hcopied
  rw [hs.item_keys.eq hi hx (hk.trans hxk.symm)]
  exact hl

theorem Sound.mismatched (hs : Sound sha256 s) (run k : Uuid) :
    Commits sha256 s (set_item run k mismatched_item s.db) := by
  refine hs.marked _ _ _ (fun i => ⟨rfl, fun h => h⟩) fun i hi _ hok => ?_
  obtain ⟨g, hg, hgid, hto⟩ := hok.run
  exact ⟨hok.settled, g, hg, hgid, fun hd => ⟨(hto hd).1, fun h => absurd h (by simp [mismatched_item])⟩⟩

/-- Other parts of the server commit. -/
theorem Sound.beside (hs : Sound sha256 s) {leases : List Lease} {past : List Db}
    (h : Beside s.db db') (hl : ∀ l ∈ leases, l ∈ s.leases ∨
      ∃ o ∈ s.db.conversation_outbox, envelope_of l = parcel o) :
    Goes s.db db' ∧ Sound sha256 { s with db := db', past := past, leases := leases } := by
  have hforth : ∀ m ∈ s.db.conversation_messages, ∃ u,
      { m with uncertain_at := u } ∈ db'.conversation_messages := by
    intro m hm
    obtain ⟨m', hm', heq⟩ := of_map_eq h.messages.symm m hm
    obtain ⟨u, rfl⟩ := custody_eq heq
    exact ⟨u, hm'⟩
  have hback : ∀ m' ∈ db'.conversation_messages, ∃ m ∈ s.db.conversation_messages, ∃ u,
      m' = { m with uncertain_at := u } := by
    intro m' hm'
    obtain ⟨m, hm, heq⟩ := of_map_eq h.messages m' hm'
    exact ⟨m, hm, custody_eq heq.symm⟩
  have hgoes : Goes s.db db' := by
    refine ⟨fun m hm => ?_, fun i hi => ⟨i, h.items ▸ hi, rfl, fun h => h⟩,
      fun g hg => ⟨g, h.runs ▸ hg, rfl, rfl⟩⟩
    obtain ⟨u, hu⟩ := hforth m hm
    exact ⟨_, hu, rfl, rfl, fun h => h⟩
  refine ⟨hgoes, ?_⟩
  constructor
  · have hids := congrArg (fun t => t.map ConversationMessage.id) h.messages
    simp only [List.map_map] at hids
    have hkeyed : (db'.conversation_messages.map ConversationMessage.id).Nodup := by
      rw [show db'.conversation_messages.map ConversationMessage.id =
        s.db.conversation_messages.map ConversationMessage.id from hids]
      exact hs.messages
    exact hkeyed
  · intro m' hm'
    obtain ⟨m, hm, u, rfl⟩ := hback m' hm'
    have hok := hs.rows m hm
    exact ⟨hok.right, hok.on_postgres, hok.on_broker, hok.unfiled⟩
  · have hids := congrArg (fun t => t.map Envelope.message_id) h.slots
    simp only [List.map_map] at hids
    have hkeyed : (db'.conversation_outbox.map ConversationOutbox.message_id).Nodup := by
      rw [show db'.conversation_outbox.map ConversationOutbox.message_id =
        s.db.conversation_outbox.map ConversationOutbox.message_id from hids]
      exact hs.slots
    exact hkeyed
  · intro o' ho'
    obtain ⟨o, ho, heq⟩ := of_map_eq h.slots o' ho'
    have hk : o.message_id = o'.message_id := congrArg Envelope.message_id heq
    have hbody : o.payload = o'.payload := congrArg Envelope.body heq
    obtain ⟨hright, m, hm, hid, hplace⟩ := hs.parcels o ho
    obtain ⟨u, hu⟩ := hforth m hm
    refine ⟨?_, _, hu, hid.trans hk, hplace⟩
    rw [← hk, ← hbody]
    exact hgoes.right hright
  · intro c' hc'
    rcases h.new c' hc' with ⟨c, hc, heq⟩ | hnew
    · simp only [routing, Prod.mk.injEq] at heq
      obtain ⟨-, -, hb, hp, -⟩ := heq
      show c'.publication = .sync ↔ c'.backend = .postgres
      rw [hb, hp]
      exact hs.routes c hc
    · simp only [is_opened, Bool.and_eq_true, beq_iff_eq] at hnew
      unfold Routed
      rw [hnew.2]
      cases c'.backend <;> decide
  · show Keyed _ db'.conversation_migrations
    rw [h.runs]
    exact hs.runs
  · show Keyed _ db'.conversation_migration_items
    rw [h.items]
    exact hs.item_keys
  · intro i hi
    exact (hs.items i (h.items ▸ hi)).mono hgoes (.refl _)
  · exact hs.places
  · exact fun x hx => ⟨(hs.entries x hx).1, hgoes.right (hs.entries x hx).2⟩
  · intro l hl'
    rcases hl l hl' with hin | ⟨o, ho, heq⟩
    · exact hgoes.right (hs.leases l hin)
    · have hk : l.message_id = o.message_id := congrArg Envelope.message_id heq
      have hbody : l.payload = o.payload := congrArg Envelope.body heq
      rw [hk, hbody]
      exact hgoes.right (hs.parcels o ho).1
  · exact fun e he => hgoes.right (hs.presented e he)

/-- A message is accepted. -/
theorem Sound.sent (hs : Sound sha256 s) {c : Sequence.SendCall} {th : Conversation}
    {row : ConversationMessage} (h : Sent sha256 c th row s.db db') :
    Commits sha256 s db' := by
  have hgoes : Goes s.db db' := by
    refine ⟨fun m hm => ⟨m, ?_, rfl, rfl, fun h => h⟩, fun i hi => ⟨i, h.items ▸ hi, rfl, fun h => h⟩,
      fun g hg => ⟨g, h.runs ▸ hg, rfl, rfl⟩⟩
    rw [h.messages]
    exact mem_insert_into.mpr (Or.inl hm)
  have hrow : row ∈ db'.conversation_messages := by
    rw [h.messages]
    exact mem_insert_into.mpr (Or.inr rfl)
  have hth := mem_of_one h.thread
  -- an old slot is of an old message, which is where it was
  have hold : ∀ o ∈ s.db.conversation_outbox,
      Right sha256 db' o.message_id o.payload ∧ Unfiled db' o.message_id := by
    intro o ho
    obtain ⟨hright, m, hm, hid, hplace⟩ := hs.parcels o ho
    refine ⟨hgoes.right hright, m, ?_, hid, hplace⟩
    rw [h.messages]
    exact mem_insert_into.mpr (Or.inl hm)
  constructor
  · exact hgoes
  constructor
  · show Keyed _ db'.conversation_messages
    rw [h.messages]
    exact hs.messages.insert_into h.fresh
  · intro m hm
    rw [Sys.after, h.messages] at hm
    rcases mem_insert_into.mp hm with hm | rfl
    · exact hs.rows m hm
    · exact ⟨fun _ => h.row_body.2, fun _ => ⟨h.row_locator, fun _ => h.row_body.1⟩,
        fun l hl => absurd (h.row_locator.symm.trans hl) (by simp), fun _ _ _ => h.row_body.1⟩
  · show Keyed _ db'.conversation_outbox
    rcases h.slots with heq | ⟨-, o, ho, heq⟩ <;> rw [heq]
    · exact hs.slots
    · refine hs.slots.insert_into fun x hx hk => ?_
      obtain ⟨-, m, hm, hid, -⟩ := hs.parcels x hx
      have hoid : o.message_id = row.id := congrArg Envelope.message_id ho
      exact h.fresh m hm (hid.trans (hk.trans hoid))
  · intro o ho
    rcases h.slots with heq | ⟨hout, o', hpar, heq⟩
    · rw [Sys.after, heq] at ho
      exact hold o ho
    · rw [Sys.after, heq] at ho
      rcases mem_insert_into.mp ho with ho | rfl
      · exact hold o ho
      · have hoid : o.message_id = row.id := congrArg Envelope.message_id hpar
        have hbody : o.payload = row.body := congrArg Envelope.body hpar
        refine ⟨⟨hbody ▸ h.row_body.1, row, hrow, hoid.symm, hbody ▸ h.row_body.2⟩, row, hrow, hoid.symm,
          ?_, h.row_locator⟩
        -- a thread with an outbox is on JetStream
        rw [h.row_backend]
        cases hb : th.backend with
        | jetstream => rfl
        | postgres =>
          have hsync := (hs.routes th hth).mpr hb
          rw [hout] at hsync
          cases hsync
  · intro c' hc'
    obtain ⟨c₀, hc₀, heq⟩ := of_map_eq h.routes c' hc'
    simp only [routing, Prod.mk.injEq] at heq
    obtain ⟨-, -, hb, hp, -⟩ := heq
    show c'.publication = .sync ↔ c'.backend = .postgres
    rw [← hb, ← hp]
    exact hs.routes c₀ hc₀
  · show Keyed _ db'.conversation_migrations
    rw [h.runs]
    exact hs.runs
  · show Keyed _ db'.conversation_migration_items
    rw [h.items]
    exact hs.item_keys
  · exact fun i hi => (hs.items i (h.items ▸ hi)).mono hgoes (.refl _)
  · exact hs.places
  · exact fun x hx => ⟨(hs.entries x hx).1, hgoes.right (hs.entries x hx).2⟩
  · exact fun l hl => hgoes.right (hs.leases l hl)
  · exact fun e he => hgoes.right (hs.presented e he)

/-- The broker stores what was presented to it. -/
theorem Sound.put (hs : Sound sha256 s) {seq : ℕ} (he : e ∈ s.presented)
    (hput : store seq e s.broker = some b) : Sound sha256 { s with broker := b } := by
  have hlater := store_later hput
  obtain ⟨rfl, hfresh⟩ := store_ok hput
  exact
    { messages := hs.messages
      rows := fun m hm => (hs.rows m hm).later hlater
      slots := hs.slots
      parcels := hs.parcels
      routes := hs.routes
      runs := hs.runs
      item_keys := hs.item_keys
      items := fun i hi => (hs.items i hi).mono (.refl _) hlater
      places := hs.places.insert_into hfresh
      entries := forall_insert_into hs.entries ⟨rfl, hs.presented e he⟩
      leases := hs.leases
      presented := hs.presented }

/-! ## What a process does -/

theorem copy_rows_known (hs : Sound sha256 s) : ∀ row ∈ copy_rows id s.db, RowKnown sha256 s.db row := by
  intro row hrow
  obtain ⟨m, hm, rfl⟩ := List.mem_map.mp hrow
  obtain ⟨hin, hp⟩ := mem_select.mp hm
  simp only [is_copied, Bool.and_eq_true, Option.isNone_iff_eq_none] at hp
  have hok := hs.rows m hin
  constructor
  · intro hb
    have hne : m.body ≠ "" := (hok.on_postgres hb).2 hp.2
    exact ⟨hne, m, hin, rfl, hok.right hne⟩
  · intro hf
    exact ⟨m, hin, rfl, hf⟩

/-- What one statement of a process keeps, and what the process knows afterwards. -/
theorem ran_keeps (hs : Sound sha256 s)
    (hm : Knows sha256 s.db s.broker m.direction m.phase) (h : Ran sha256 now id s.db m db' ph)
    (hthere : ∀ run t, m.phase = .looping run [] t →
      m.direction = .to_jetstream ∨ bodies_there run m.conversation_id s.db = true) :
    Goes s.db db' ∧ Sound sha256 (s.after db') ∧ Knows sha256 db' s.broker m.direction ph := by
  have hrefl := Goes.refl s.db
  have hsame : Sound sha256 (s.after s.db) := (hs.elsewhere rfl ⟨rfl, hs.routes, rfl, rfl⟩).2
  have hb := Later.refl s.broker
  cases h with
  | refused | stopped => exact ⟨hrefl, hsame, trivial⟩
  | joined hph hg hd =>
    refine ⟨hrefl, hsame, ?_⟩
    have hin := List.mem_of_getLast? hg
    exact ⟨_, (mem_select.mp hin).1, rfl, hd⟩
  | opened hph hc hnone hfresh =>
    obtain ⟨hgoes, hsound⟩ := hs.opened (g := migration_row now m.team_id m.conversation_id m.direction id)
      hfresh
    exact ⟨hgoes, hsound, _, mem_insert_into.mpr (Or.inr rfl), rfl, rfl⟩
  | paused hph =>
    rw [hph] at hm
    have hpaused : Commits sha256 s { s.db with
          conversations := update (fun c => c.id == m.conversation_id)
            (fun c => { c with write_paused_at := some now }) s.db.conversations } :=
      hs.elsewhere rfl ⟨rfl, forall_update hs.routes fun _ _ _ h => h, rfl, rfl⟩
    exact ⟨hpaused.1, hpaused.2, hpaused.1.on_run hm⟩
  | listed hph =>
    rw [hph] at hm
    exact ⟨hrefl, hsame, hm, copy_rows_known hs⟩
  | cut_over hph hok =>
    have hrun := hm
    rw [hph] at hrun
    obtain ⟨hgoes, hsound⟩ := hs.cut_over hok hrun.1 (hthere _ _ hph)
    exact ⟨hgoes, hsound, trivial⟩
  | skipped hph _ =>
    rw [hph] at hm
    exact ⟨hrefl, hsame, hm.1, fun row hr => hm.2 row (List.mem_cons_of_mem _ hr)⟩
  | taken hph hd hback =>
    rw [hph] at hm
    have hrow := hm.2 _ List.mem_cons_self
    exact ⟨hrefl, hsame, hm.1, hrow.body hback, hrow.settled (Or.inl hback), trivial,
      fun row hr => hm.2 row (List.mem_cons_of_mem _ hr)⟩
  | asked hph hd hback hl =>
    rw [hph] at hm
    have hrow := hm.2 _ List.mem_cons_self
    refine ⟨hrefl, hsame, hm.1, hrow.settled (Or.inr ?_), fun row hr =>
      hm.2 row (List.mem_cons_of_mem _ hr)⟩
    rw [hl]
    rfl
  | @planned run hand t hph =>
    rw [hph] at hm
    obtain ⟨hrun, hright, hset, -, hrows⟩ := hm
    obtain ⟨hgoes, hsound, hplan⟩ := hs.planned hand.body hrun hset
    exact ⟨hgoes, hsound, hgoes.on_run hrun, hgoes.right hright, hgoes.settled hset, hplan,
      fun row hr => (hrows row hr).mono hgoes⟩
  | recalled hph hd hl =>
    rw [hph] at hm
    obtain ⟨hrun, hright, hset, -, hrows⟩ := hm
    refine ⟨hrefl, hsame, hrun, hright, hset, ?_, hrows⟩
    obtain ⟨i, hi, hil⟩ := Option.bind_eq_some_iff.mp hl
    refine ⟨i, mem_of_one hi, is_item_iff.mp (pos_of_one hi), ?_⟩
    rw [hil]
    rfl
  | writes hph =>
    rw [hph] at hm
    exact ⟨hrefl, hsame, hm⟩
  | @verified run hand at_ hph hat =>
    rw [hph] at hm
    obtain ⟨hrun, -, -, hspot, hrows⟩ := hm
    have hcopied : Copied s.db run hand.row.message_id := by
      rcases hat with rfl | rfl
      · exact hspot
      · exact hspot
    obtain ⟨hgoes, hsound⟩ := hs.verified hcopied
    exact ⟨hgoes, hsound, hgoes.on_run hrun, fun row hr => (hrows row hr).mono hgoes⟩
  | wrote hph hd =>
    rw [hph] at hm
    obtain ⟨hrun, hright, hset, hspot, hrows⟩ := hm
    obtain ⟨hgoes, hsound⟩ := hs.written_back hright
    exact ⟨hgoes, hsound, hgoes.on_run hrun, hgoes.right hright, hgoes.settled hset,
      ⟨hgoes.planned hspot, fun hto => absurd (hd.symm.trans hto) (by decide)⟩,
      fun row hr => (hrows row hr).mono hgoes⟩
  | recorded hph =>
    rw [hph] at hm
    obtain ⟨hrun, hright, hset, hspot, hrows⟩ := hm
    obtain ⟨hgoes, hsound, hcopied⟩ := hs.recorded hrun hspot.1 hspot.2
    exact ⟨hgoes, hsound, hgoes.on_run hrun, hgoes.right hright, hgoes.settled hset, hcopied,
      fun row hr => (hrows row hr).mono hgoes⟩
  | compared hph hd hat =>
    rw [hph] at hm
    obtain ⟨hrun, hright, hset, hspot, hrows⟩ := hm
    refine ⟨hrefl, hsame, hrun, hright, hset, ?_, hrows⟩
    rcases hat with rfl | rfl
    · exact hspot
    · obtain ⟨i, hi, hk, -⟩ := hspot
      exact ⟨i, hi, hk⟩
  | differed hph =>
    obtain ⟨hgoes, hsound⟩ := hs.mismatched _ _
    exact ⟨hgoes, hsound, trivial⟩
  | given_up hph =>
    obtain ⟨hgoes, hsound⟩ := hs.aborted now _ _
    exact ⟨hgoes, hsound, trivial⟩

/-- What a process knows once it has heard from the broker. -/
theorem heard_knows (hs : Sound sha256 s) {q : Ask} {answer : Answer}
    (hm : Knows sha256 s.db s.broker m.direction m.phase) (hq : Migrate.asks m = some q)
    (hans : answers s.broker m.team_id q answer = true) (h : Heard sha256 answer m ph) :
    Knows sha256 s.db s.broker m.direction ph := by
  cases h with
  | stopped => exact trivial
  | @got run l row rows t body hph ha =>
    rw [hph] at hm
    obtain ⟨hrun, hset, hrows⟩ := hm
    simp only [Migrate.asks, hph, Option.some.injEq] at hq
    subst ha hq
    obtain ⟨x, hx, -, -, hid, hbody⟩ := fetch_found (decide_eq_true_eq.mp hans)
    refine ⟨hrun, ?_, hset, trivial, hrows⟩
    have hright := (hs.entries x hx).2
    rw [hid, hbody] at hright
    exact hright
  | recognised hph _ _ =>
    rw [hph] at hm
    exact hm
  | not_there hph =>
    rw [hph] at hm
    obtain ⟨hrun, hright, hset, ⟨i, hi, hk, -⟩, hrows⟩ := hm
    exact ⟨hrun, hright, hset, ⟨i, hi, hk⟩, hrows⟩
  | published hph ha =>
    rw [hph] at hm
    obtain ⟨hrun, hright, hset, hspot, hrows⟩ := hm
    subst ha
    refine ⟨hrun, hright, hset, ⟨hspot, fun hd => ?_⟩, hrows⟩
    simp only [Migrate.asks, hph, hd, Option.some.injEq] at hq
    subst hq
    obtain ⟨x, hx, hl, -, hid⟩ := acknowledges_issued hans
    exact ⟨x, hx, hl, hid⟩
  | compared hph hat =>
    rw [hph] at hm
    obtain ⟨hrun, hright, hset, hspot, hrows⟩ := hm
    refine ⟨hrun, hright, hset, ?_, hrows⟩
    rcases hat with rfl | rfl
    · exact hspot
    · obtain ⟨i, hi, hk, -⟩ := hspot
      exact ⟨i, hi, hk⟩

/-- What a process presents to the broker is right. -/
theorem Knows.asked (hm : Knows sha256 db b m.direction m.phase)
    (hq : Migrate.asks m = some (.publish e)) : Right sha256 db e.message_id e.body := by
  unfold Migrate.asks at hq
  split at hq
  · cases hq
  · cases hq
  · rename_i run hand hph
    rw [hph] at hm
    split at hq
    · obtain rfl := Ask.publish.inj (Option.some.inj hq)
      exact hm.2.1
    · cases hq
  · split at hq <;> exact nomatch hq
  · cases hq

/-! ## Every step keeps it -/

/-- A commit that leaves the processes as they are. -/
theorem Inv.commit (hs : Inv sha256 s) (hgoes : Goes s.db t.db) (hsound : Sound sha256 t)
    (hb : t.broker = s.broker) (hm : t.movers = s.movers) : Inv sha256 t := by
  refine ⟨hsound, fun m hin => ?_⟩
  rw [hm] at hin
  rw [hb]
  exact (hs.movers m hin).mono hgoes (.refl _)

theorem Inv.move (hs : Inv sha256 s) {i : ℕ}
    (hm : Knows sha256 s.db s.broker m.direction ph) : Inv sha256 (s.move i (m.at_phase ph)) := by
  refine ⟨{ hs.sound with }, fun x hx => ?_⟩
  rcases List.mem_or_eq_of_mem_set hx with hx | rfl
  · exact hs.movers x hx
  · exact hm

theorem Inv.step (hs : Inv sha256 s) {a : Act} (h : Did sha256 s a t) (hkeeps : never_drops a = true)
    (hheeds : heeds_rows s a = true) : Goes s.db t.db ∧ Inv sha256 t := by
  have hrefl := Goes.refl s.db
  cases h with
  | beside hbeside hl =>
    obtain ⟨hgoes, hsound⟩ := hs.sound.beside hbeside hl
    exact ⟨hgoes, hs.commit hgoes hsound rfl rfl⟩
  | sent hsent =>
    obtain ⟨hgoes, hsound⟩ := hs.sound.sent hsent
    exact ⟨hgoes, hs.commit hgoes hsound rfl rfl⟩
  | stored hl hack ho hoid hslots hheld hm hg hi hc =>
    obtain ⟨hgoes, hsound⟩ := hs.sound.stored hack ho hoid hheld hslots hm hg hi hc
    exact ⟨hgoes, hs.commit hgoes hsound rfl rfl⟩
  | failed _ _ hslots =>
    obtain ⟨hgoes, hsound⟩ := hs.sound.failed hslots
    exact ⟨hgoes, hs.commit hgoes hsound rfl rfl⟩
  | @presented _ e he =>
    refine ⟨hrefl, ?_, hs.movers⟩
    have hright : Right sha256 s.db e.message_id e.body := by
      rcases he with ⟨l, hl, rfl⟩ | ⟨m, hm, hq⟩
      · exact hs.sound.leases l hl
      · exact (hs.movers m hm).asked hq
    exact { hs.sound with presented := List.forall_mem_cons.mpr ⟨hright, hs.sound.presented⟩ }
  | put he hput =>
    exact ⟨hrefl, hs.sound.put he hput, fun m hm => (hs.movers m hm).mono hrefl (store_later hput)⟩
  | dropped => exact absurd hkeeps (by simp [never_drops])
  | start _ _ _ =>
    refine ⟨hrefl, { hs.sound with }, fun m hm => ?_⟩
    rcases List.mem_append.mp hm with hm | hm
    · exact hs.movers m hm
    · rw [List.mem_singleton.mp hm]
      exact trivial
  | @ran i now id m db' ph hm hran =>
    have hknows := hs.movers m (List.mem_of_getElem? hm)
    obtain ⟨hgoes, hsound, hafter⟩ := ran_keeps hs.sound hknows hran fun run t hph => by
      simpa [heeds_rows, hm, hph] using hheeds
    have hinv : Inv sha256 (s.after db') := hs.commit hgoes hsound rfl rfl
    exact ⟨hgoes, hinv.move hafter⟩
  | heard hm hq hans hheard =>
    exact ⟨hrefl, hs.move (heard_knows hs.sound (hs.movers _ (List.mem_of_getElem? hm)) hq hans hheard)⟩
  | broken hm hph =>
    refine ⟨hrefl, hs.move ?_⟩
    rcases hph with ⟨e, rfl⟩ | ⟨run, e, rfl⟩ <;> exact trivial
  | abort =>
    obtain ⟨hgoes, hsound⟩ := hs.sound.aborted _ _ _
    exact ⟨hgoes, hs.commit hgoes hsound rfl rfl⟩
  | cleanup =>
    obtain ⟨hgoes, hsound⟩ := hs.sound.cleared (is_source_copy _ _ _ s.db) fun m _ hp => by
      simp only [is_source_copy, Bool.and_eq_true] at hp
      exact hp.1.2
    exact ⟨hgoes, hs.commit hgoes hsound rfl rfl⟩
  | refused => exact ⟨hrefl, hs⟩
  | swept | looked _ | listened _ _ _ _ => exact ⟨hrefl, { hs.sound with }, hs.movers⟩
  | @cleared i confirmed sweeps =>
    obtain ⟨hgoes, hsound⟩ := hs.sound.cleared (is_cleared confirmed s.db) fun m _ hp => by
      simp only [is_cleared, Bool.and_eq_true, List.any_eq_true] at hp
      obtain ⟨-, c, -, hp⟩ := hp
      simp only [is_releasable, Bool.and_eq_true] at hp
      exact hp.1.1.2
    have hinv : Inv sha256 (s.after _) := hs.commit hgoes hsound rfl rfl
    exact ⟨hgoes, { hinv.sound with }, hinv.movers⟩
  | tombstone _ _ =>
    obtain ⟨hgoes, hsound⟩ := hs.sound.tombstoned _ _ _
    have hinv : Inv sha256 (s.after _) := hs.commit hgoes hsound rfl rfl
    exact ⟨hgoes, { hinv.sound with }, hinv.movers⟩

end Statements

/-! ## The law -/

section Runs

variable {sha256 : String → String} {s₀ s : Sys} {tr : List (Trans Sys Act)}

/-- Where a row is sound, the body is in place. -/
theorem Sound.in_place (hs : Sound sha256 s) {m : ConversationMessage}
    (hm : m ∈ s.db.conversation_messages) (htomb : m.tombstoned_at = none) :
    body_in_place sha256 s.broker m = true := by
  have hok := hs.rows m hm
  have hlocal : m.body ≠ "" → (m.body != "" && m.body_sha256 == some (sha256 m.body)) = true := by
    intro hne
    simp [hne, hok.right hne]
  unfold body_in_place
  by_cases hrow : m.backend = .postgres ∨ m.body ≠ ""
  · rw [if_pos hrow]
    refine hlocal ?_
    rcases hrow with hb | hne
    · exact (hok.on_postgres hb).2 htomb
    · exact hne
  · rw [if_neg hrow]
    rw [not_or, not_not] at hrow
    have hb : m.backend = .jetstream := by
      cases hb : m.backend with
      | postgres => exact absurd hb hrow.1
      | jetstream => rfl
    -- the row is empty, so there is a locator, and the broker has what it names
    cases hl : m.canonical_locator with
    | none => exact absurd hrow.2 (hok.unfiled hb hl htomb)
    | some l =>
      obtain ⟨x, hx, hxl, hxid⟩ := hok.on_broker l hl
      obtain ⟨hgone, hright⟩ := hs.entries x hx
      have hget : direct_get l s.broker = some x := by
        refine one_eq_some hx (by simp [hxl, hgone]) fun y hy hp => ?_
        simp only [Bool.and_eq_true, beq_iff_eq] at hp
        exact hs.places.eq hy hx (hp.1.trans hxl.symm)
      rw [hxid] at hright
      simp [hget, hxid, hright.sum hs.messages hm rfl]

/-- **No body is lost by moving it**, in every run whose cutovers to Postgres find in its
row every body they declare authoritative there. -/
theorem no_body_is_lost (hs : Inv sha256 s₀) (hrun : Run (Rel (step sha256)) s₀ tr s)
    (hkeeps : ∀ e ∈ tr, never_drops e.act = true) (hheeds : ∀ e ∈ tr, heeds_rows e.pre e.act = true) :
    BodyLaw sha256 tr := by
  have hstep : ∀ s a t, Inv sha256 s → never_drops a = true ∧ heeds_rows s a = true →
      Rel (step sha256) s a t → Inv sha256 t :=
    fun s a t hI hC h => (hI.step (step_did h) hC.1 hC.2).2
  have hC : ∀ e ∈ tr, never_drops e.act = true ∧ heeds_rows e.pre e.act = true :=
    fun e he => ⟨hkeeps e he, hheeds e he⟩
  have hpre := hrun.invariant_pre hs hstep hC
  have hpost := hrun.invariant_post hs hstep hC
  constructor
  · intro e he m hm
    obtain ⟨hgoes, -⟩ := (hpre e he).step (step_did (hrun.rel e he)) (hkeeps e he) (hheeds e he)
    obtain ⟨m', hm', hid, hsum, -⟩ := hgoes.digests m hm
    exact ⟨m', hm', hid, hsum⟩
  · exact fun e he m hm htomb => (hpost e he).sound.in_place hm htomb

end Runs

/-! ## Two runs -/

/-- Ada sits in a thread on Postgres. -/
def crew : Db := seated .postgres ""

/-- Where the broker puts the copy of Ada's message. -/
def place : Locator := .jetstream 1 1

/-- Ada writes, and the thread is moved to JetStream. -/
def moved_away : List Act :=
  [.send ⟨0, 1, ada, 7, ⟨"hello", 1, none⟩, 100, 60⟩, .start 1 7 .to_jetstream,
    .statement 0 2 50, .statement 0 2 0, .statement 0 2 0, .statement 0 2 0, .statement 0 3 0,
    .statement 0 3 0, .present_copy 0, .store 1 ⟨100, 7, 1, "hello", 100⟩,
    .told 0 (.published (.Confirmed place)), .statement 0 4 0, .told 0 (.fetched (.ok (some "hello"))),
    .statement 0 5 0, .statement 0 6 0]

/-- It is to be moved back, and the body is written back and verified. -/
def written_back : List Act :=
  [.start 1 7 .to_postgres, .statement 1 7 51, .statement 1 7 0, .statement 1 7 0, .statement 1 7 0,
    .told 1 (.fetched (.ok (some "hello"))), .statement 1 8 0, .statement 1 8 0, .statement 1 8 0,
    .statement 1 8 0, .statement 1 8 0, .statement 1 8 0]

theorem start_inv : Inv digest (Sys.start crew) := by
  refine ⟨?_, fun m hm => absurd hm List.not_mem_nil⟩
  constructor
  · decide
  · exact fun m hm => absurd hm List.not_mem_nil
  · decide
  · exact fun o ho => absurd ho List.not_mem_nil
  · intro c hc
    rw [List.mem_singleton.mp hc]
    exact Iff.intro (fun _ => rfl) fun _ => rfl
  · decide
  · decide
  · exact fun i hi => absurd hi List.not_mem_nil
  · decide
  · exact fun x hx => absurd hx List.not_mem_nil
  · exact fun l hl => absurd hl List.not_mem_nil
  · exact fun e he => absurd he List.not_mem_nil

theorem back_run : (exec (step digest) (Sys.start crew)
    (moved_away ++ written_back ++ [.statement 1 21 0])).isSome = true := by
  decide

/-- There and back again. -/
theorem no_body_is_lost_back : BodyLaw digest ((exec (step digest) (Sys.start crew)
    (moved_away ++ written_back ++ [.statement 1 21 0])).get back_run).1 :=
  no_body_is_lost start_inv (exec_get back_run) (by decide) (by decide)

theorem cleaned_run : (exec (step digest) (Sys.start crew)
    (moved_away ++ written_back ++ [.cleanup 20 1 0, .statement 1 21 0])).isSome = true := by
  decide

/-- Before the cutover an operator drops source copies, the one that was just written back
among them, and the cutover makes the empty row authoritative. -/
theorem body_lost_to_cleanup : ¬ BodyLaw digest ((exec (step digest) (Sys.start crew)
    (moved_away ++ written_back ++ [.cleanup 20 1 0, .statement 1 21 0])).get cleaned_run).1 := by
  intro h
  have hlast : ∃ e ∈ ((exec (step digest) (Sys.start crew)
      (moved_away ++ written_back ++ [.cleanup 20 1 0, .statement 1 21 0])).get cleaned_run).1,
      ∃ m ∈ e.post.db.conversation_messages, m.tombstoned_at = none ∧
        body_in_place digest e.post.broker m = false :=
    ⟨_, List.mem_of_getElem? (i := 28) rfl, _, List.mem_of_getElem? (i := 0) rfl, by decide,
      by decide⟩
  obtain ⟨e, he, m, hm, htomb, hlost⟩ := hlast
  rw [h.in_place e he m hm htomb] at hlost
  exact absurd hlost (by decide)

end CrewSync.Bodies
