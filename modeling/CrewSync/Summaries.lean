/-
The summaries of a team's work: `store/digest.rs` and `dashboard/data.rs` beside `list_tasks`.

`list_tasks` shows a task by its effective status: a claim whose lease ran out is open and
nobody's. The digest and the dashboard read the columns as they are stored, so they go on
showing such a claim as claimed and held. And the dashboard's tile counts who is online without
asking whether the agent was disabled since, where its own table and the digest do ask.

A summary is `Consistent` where the three agree, and `consistent_iff` is when they do.

Left out of a digest are its channels, notes and locks, and of the dashboard its messages, locks
and notes and what was last seen of a window's turn: none of them is counted twice.
-/
import Mathlib.Data.Int.Order.Basic
import CrewSync.Presence
import CrewSync.TaskViews

set_option autoImplicit false

namespace CrewSync.Summaries

open Schema Rows Tasks TaskLists
open TaskViews Runs
open Presence (AgentPresence Bound write_presence sweep at_window)

/-! ## `digest.rs` -/

/-- `p.expires_at > now()`. -/
def live (now : ℕ) (p : AgentPresence) : Bool := decide ((now : ℤ) < p.expires_at)

/-- `LEFT JOIN agents cb ON cb.id = t.claimed_by`. -/
def claimed_by (db : TaskDb) (t : Task) : Option String :=
  t.claimed_by.bind fun a => (one (fun x => x.id == a) db.agents).map fun x => x.name

/-- `DigestTask`. -/
structure DigestTask where
  key : String
  title : String
  status : TaskStatus
  claimed_by : Option String
  result : Option String
  updated_at : ℕ
  deriving DecidableEq, Repr

/-- `DigestAgent`. -/
structure DigestAgent where
  name : String
  activity : Option String
  last_seen : Option ℤ
  online : Bool
  deriving DecidableEq, Repr

/-- `DigestResult`. -/
structure DigestResult where
  hours : ℤ
  tasks_moved : List DigestTask
  open_tasks : ℕ
  claimed_tasks : ℕ
  agents_seen : List DigestAgent
  deriving DecidableEq, Repr

/-- `updated_at > now() - make_interval(hours => $2)`, in this team. -/
def moved (now : ℕ) (auth : AuthCtx) (hours : ℤ) (t : Task) : Bool :=
  t.team_id == auth.team_id && decide ((now : ℤ) - 3600000000 * hours < t.updated_at)

/-- The tasks that moved in the window, the last one first. -/
def tasks_moved (now : ℕ) (auth : AuthCtx) (hours : ℤ) (db : TaskDb) : List DigestTask :=
  (((db.tasks.filter (moved now auth hours)).insertionSort fun a b => b.updated_at ≤ a.updated_at).take 50).map
    fun t => ⟨t.key, t.title, t.status, claimed_by db t, t.result, t.updated_at⟩

/-- `count(*) FILTER (WHERE status = …)`, of the column as it is stored. -/
def stored_count (team_id : Uuid) (status : TaskStatus) (db : TaskDb) : ℕ :=
  db.tasks.countP fun t => t.team_id == team_id && t.status == status

/-- The presence rows of an agent. -/
def rows_of (a : Agent) (presence : List AgentPresence) : List AgentPresence :=
  presence.filter fun p => p.agent_id == a.id

/-- `(expires_at > now()) DESC, (session <> '') DESC, updated_at DESC`: what comes first is greatest. -/
def preference (now : ℕ) (p : AgentPresence) : Bool ×ₗ Bool ×ₗ ℤ :=
  toLex (live now p, toLex (decide (p.session ≠ ""), p.updated_at))

/-- The row that stands for an agent. -/
def current_row (now : ℕ) (a : Agent) (presence : List AgentPresence) : Option AgentPresence :=
  ((rows_of a presence).insertionSort fun p q => preference now q ≤ preference now p).head?

/-- `updated_at DESC NULLS LAST`. -/
def seen_place (d : DigestAgent) : Bool ×ₗ ℤ := toLex (d.last_seen.isSome, d.last_seen.getD 0)

/-- Who was around: one row per agent that is not disabled. -/
def agents_seen (now : ℕ) (auth : AuthCtx) (db : TaskDb) (presence : List AgentPresence) : List DigestAgent :=
  (((db.agents.filter fun a => a.team_id == auth.team_id && a.disabled_at.isNone).map fun a =>
    let p := current_row now a presence
    ⟨a.name, p.bind fun p => p.activity, p.map fun p => p.updated_at, p.any (live now)⟩)).insertionSort
      fun a b => seen_place b ≤ seen_place a

/-- `team_digest`. -/
def team_digest (now : ℕ) (auth : AuthCtx) (hours : ℤ) (db : TaskDb) (presence : List AgentPresence) :
    DigestResult :=
  let hours := Presence.clamp hours 1 (24 * 14)
  { hours := hours
    tasks_moved := tasks_moved now auth hours db
    open_tasks := stored_count auth.team_id .open db
    claimed_tasks := stored_count auth.team_id .claimed db
    agents_seen := agents_seen now auth db presence }

/-! ## `dashboard/data.rs` -/

/-- `Totals`. -/
structure Totals where
  agents_online : ℕ
  open_tasks : ℕ
  claimed_tasks : ℕ
  deriving DecidableEq, Repr

/-- `load_totals`. -/
def load_totals (now : ℕ) (team_id : Uuid) (db : TaskDb) (presence : List AgentPresence) : Totals where
  agents_online :=
    -- an agent is counted once, however many windows of it are there
    ((db.agents.filter fun a => a.team_id == team_id).flatMap fun a =>
      ((rows_of a presence).filter (live now)).map fun _ => a.id).dedup.length
  open_tasks := stored_count team_id .open db
  claimed_tasks := stored_count team_id .claimed db

/-- `AgentRow`. -/
structure AgentRow where
  name : String
  session : String
  status : Option String
  repo : Option String
  branch : Option String
  activity : Option String
  updated_at : Option ℤ
  online : Bool
  deriving DecidableEq, Repr

/-- The rows of an agent in `LEFT JOIN agent_presence p ON p.agent_id = a.id`. -/
def agent_rows (now : ℕ) (presence : List AgentPresence) (a : Agent) : List AgentRow :=
  if rows_of a presence = [] then [⟨a.name, "", none, none, none, none, none, false⟩]
  else (rows_of a presence).map fun p =>
    ⟨a.name, p.session, some p.status, p.repo, p.branch, p.activity, some p.updated_at, live now p⟩

/-- `online DESC, a.name, p.updated_at DESC NULLS LAST`. -/
def row_place (r : AgentRow) : Bool ×ₗ String ×ₗ Bool ×ₗ ℤ :=
  toLex (!r.online, toLex (r.name, toLex (r.updated_at.isNone, -(r.updated_at.getD 0))))

/-- `load_agents`: one row per window. -/
def load_agents (now : ℕ) (team_id : Uuid) (db : TaskDb) (presence : List AgentPresence) : List AgentRow :=
  ((db.agents.filter fun a => a.team_id == team_id && a.disabled_at.isNone).flatMap
    (agent_rows now presence)).insertionSort fun a b => row_place a ≤ row_place b

/-- `TaskRow`. -/
structure TaskRow where
  key : String
  title : String
  status : TaskStatus
  claimed_by : Option String
  result : Option String
  blocked : Bool
  updated_at : ℕ
  deriving DecidableEq, Repr

/-- `CASE t.status WHEN 'claimed' THEN 0 WHEN 'open' THEN 1 ELSE 2 END, t.updated_at DESC`. -/
def stored_place (t : Task) : ℤ ×ₗ ℤ := toLex (status_rank t.status, -(t.updated_at : ℤ))

/-- `load_tasks`. -/
def load_tasks (team_id : Uuid) (db : TaskDb) : List TaskRow :=
  (((db.tasks.filter fun t => t.team_id == team_id).insertionSort fun a b => stored_place a ≤ stored_place b).take
    30).map fun t => ⟨t.key, t.title, t.status, claimed_by db t, t.result, blocked db t.id, t.updated_at⟩

/-- `Snapshot`. -/
structure Snapshot where
  totals : Totals
  agents : List AgentRow
  tasks : List TaskRow
  deriving DecidableEq, Repr

/-- `load`, its queries at one instant. -/
def load (now : ℕ) (team_id : Uuid) (db : TaskDb) (presence : List AgentPresence) : Snapshot where
  totals := load_totals now team_id db presence
  agents := load_agents now team_id db presence
  tasks := load_tasks team_id db

/-! ## What should agree -/

/-- The digest and the dashboard say of the tasks what `list_tasks` says of them at that instant,
and all count the same agents online. -/
structure Consistent (now : ℕ) (auth : AuthCtx) (hours : ℤ) (db : TaskDb) (presence : List AgentPresence) :
    Prop where
  counts : ∀ crates query l, list_tasks crates now now auth query db db = .ok l →
    (team_digest now auth hours db presence).open_tasks = l.open ∧
      (team_digest now auth hours db presence).claimed_tasks = l.claimed ∧
      (load now auth.team_id db presence).totals.open_tasks = l.open ∧
      (load now auth.team_id db presence).totals.claimed_tasks = l.claimed
  digest_tasks : ∀ crates query l, list_tasks crates now now auth query db db = .ok l →
    ∀ d ∈ (team_digest now auth hours db presence).tasks_moved, ∀ e ∈ l.tasks, e.key = d.key →
      d.status = e.status ∧ d.claimed_by = e.claimed_by
  dashboard_tasks : ∀ crates query l, list_tasks crates now now auth query db db = .ok l →
    ∀ d ∈ (load now auth.team_id db presence).tasks, ∀ e ∈ l.tasks, e.key = d.key →
      d.status = e.status ∧ d.claimed_by = e.claimed_by ∧ d.blocked = e.blocked
  dashboard_online : (load now auth.team_id db presence).totals.agents_online =
    (((load now auth.team_id db presence).agents.filter AgentRow.online).map AgentRow.name).dedup.length
  digest_online : (load now auth.team_id db presence).totals.agents_online =
    (team_digest now auth hours db presence).agents_seen.countP DigestAgent.online

/-- The lease of the claim has run out. -/
def Lapsed (now : ℕ) (t : Task) : Prop := t.status = .claimed ∧ ∃ x, t.lease_expires_at = some x ∧ x ≤ now

/-- No claim of the team has lapsed, and no disabled agent of it is there. -/
structure Settled (now : ℕ) (team_id : Uuid) (db : TaskDb) (presence : List AgentPresence) : Prop where
  leases : ∀ t ∈ db.tasks, t.team_id = team_id → ¬Lapsed now t
  agents : ∀ a ∈ db.agents, a.team_id = team_id → a.disabled_at.isSome = true →
    ∀ p ∈ presence, p.agent_id = a.id → live now p = false

/-- `agents`, `PRIMARY KEY (id)` and `UNIQUE (team_id, name)`. -/
structure Roster (agents : List Agent) : Prop where
  ids : Keyed Agent.id agents
  names : Keyed (fun a : Agent => (a.team_id, a.name)) agents

instance (agents : List Agent) : Decidable (Roster agents) :=
  decidable_of_iff (Keyed Agent.id agents ∧ Keyed (fun a : Agent => (a.team_id, a.name)) agents)
    ⟨fun h => ⟨h.1, h.2⟩, fun h => ⟨h.ids, h.names⟩⟩

/-! ## Counting -/

section Counting

variable {ρ κ β : Type} [DecidableEq κ]

/-- The rows of a keyed table, each as often as it has partners, have as many distinct keys as there
are rows with a partner. -/
theorem distinct_keys {key : ρ → κ} {l : List ρ} (h : Keyed key l) (partners : ρ → List β) :
    (l.flatMap fun a => (partners a).map fun _ => key a).dedup.length =
      l.countP fun a => !(partners a).isEmpty := by
  have hfilter : ((l.filter fun a => !(partners a).isEmpty).map key).Nodup :=
    List.Nodup.sublist (List.Sublist.map key List.filter_sublist) h
  have hperm : (l.flatMap fun a => (partners a).map fun _ => key a).dedup.Perm
      ((l.filter fun a => !(partners a).isEmpty).map key) := by
    refine (List.perm_ext_iff_of_nodup (List.nodup_dedup _) hfilter).mpr fun k => ?_
    simp only [List.mem_dedup, List.mem_flatMap, List.mem_map, List.mem_filter, Bool.not_eq_true',
      List.isEmpty_eq_false_iff]
    constructor
    · rintro ⟨a, ha, b, hb, rfl⟩
      exact ⟨a, ⟨ha, List.ne_nil_of_mem hb⟩, rfl⟩
    · rintro ⟨a, ⟨ha, hne⟩, rfl⟩
      obtain ⟨b, hb⟩ := List.exists_mem_of_ne_nil _ hne
      exact ⟨a, ha, b, hb, rfl⟩
  rw [hperm.length_eq, List.length_map, List.countP_eq_length_filter]

end Counting

/-! ## Who is online -/

section Online

variable {now : ℕ} {auth : AuthCtx} {team_id : Uuid} {db : TaskDb} {presence : List AgentPresence} {a : Agent}

/-- A window of the agent is there. -/
def online (now : ℕ) (presence : List AgentPresence) (a : Agent) : Bool := (rows_of a presence).any (live now)

theorem filter_live_nonempty : (!((rows_of a presence).filter (live now)).isEmpty) = online now presence a := by
  rw [online, Bool.eq_iff_iff, Bool.not_eq_true', List.isEmpty_eq_false_iff, List.any_eq_true]
  constructor
  · intro hne
    obtain ⟨p, hp⟩ := List.exists_mem_of_ne_nil _ hne
    exact ⟨p, List.mem_filter.mp hp⟩
  · rintro ⟨p, hp, hlive⟩
    exact List.ne_nil_of_mem (List.mem_filter.mpr ⟨hp, hlive⟩)

/-- The tile counts the agents of the team of which a window is there. -/
theorem agents_online_eq (h : Roster db.agents) : (load_totals now team_id db presence).agents_online =
    db.agents.countP fun a => a.team_id == team_id && online now presence a := by
  have hkeyed : Keyed Agent.id (db.agents.filter fun a => a.team_id == team_id) :=
    List.Nodup.sublist (List.Sublist.map _ List.filter_sublist) h.ids
  rw [load_totals, distinct_keys hkeyed, List.countP_filter]
  simp only [filter_live_nonempty, Bool.and_comm]

/-- The row that stands for an agent is of a window that is there, if one is. -/
theorem current_row_live : (current_row now a presence).any (live now) = online now presence a := by
  have hperm := List.perm_insertionSort (fun p q => preference now q ≤ preference now p) (rows_of a presence)
  have hsorted := List.pairwise_insertionSort (fun p q => preference now q ≤ preference now p) (rows_of a presence)
  rw [current_row, online, ← hperm.any_eq]
  cases hrows : (rows_of a presence).insertionSort fun p q => preference now q ≤ preference now p with
  | nil => rfl
  | cons p rows =>
    rw [hrows, List.pairwise_cons] at hsorted
    rw [List.head?_cons, Option.any_some, List.any_cons]
    by_cases hp : live now p = true
    · rw [hp, Bool.true_or]
    · rw [Bool.not_eq_true] at hp
      rw [hp, Bool.false_or, eq_comm, List.any_eq_false]
      intro q hq hlive
      have hle := hsorted.1 q hq
      rw [preference, preference, Prod.Lex.toLex_le_toLex, hp, hlive] at hle
      rcases hle with hlt | ⟨heq, -⟩
      · have hbool : true < false := hlt
        cases hbool
      · have hbool : true = false := heq
        cases hbool

/-- The digest marks the agents that are not disabled and of which a window is there. -/
theorem agents_seen_online : (agents_seen now auth db presence).countP DigestAgent.online =
    db.agents.countP fun a => a.team_id == auth.team_id && a.disabled_at.isNone && online now presence a := by
  rw [agents_seen, (List.perm_insertionSort _ _).countP_eq, List.countP_map, List.countP_filter]
  refine List.countP_congr fun a _ => ?_
  rw [Function.comp_apply]
  dsimp only
  rw [current_row_live, Bool.and_comm]

theorem agent_rows_online : ((agent_rows now presence a).filter AgentRow.online).map AgentRow.name =
    ((rows_of a presence).filter (live now)).map fun _ => a.name := by
  unfold agent_rows
  by_cases hrows : rows_of a presence = []
  · rw [if_pos hrows, hrows]
    rfl
  · rw [if_neg hrows, List.filter_map, List.map_map]
    rfl

/-- Its own table shows the same agents online. -/
theorem load_agents_online (h : Roster db.agents) :
    (((load_agents now team_id db presence).filter AgentRow.online).map AgentRow.name).dedup.length =
      db.agents.countP fun a => a.team_id == team_id && a.disabled_at.isNone && online now presence a := by
  have hkeyed : Keyed Agent.name (db.agents.filter fun a => a.team_id == team_id && a.disabled_at.isNone) := by
    have hnames : Keyed (fun a : Agent => (a.team_id, a.name))
        (db.agents.filter fun a => a.team_id == team_id && a.disabled_at.isNone) :=
      List.Nodup.sublist (List.Sublist.map _ List.filter_sublist) h.names
    refine List.Nodup.map_on ?_ (List.Nodup.of_map _ hnames)
    intro x hx y hy hname
    have hteam : ∀ {z : Agent}, z ∈ db.agents.filter (fun a => a.team_id == team_id && a.disabled_at.isNone) →
        z.team_id = team_id := by
      intro z hz
      have hz := (List.mem_filter.mp hz).2
      simp only [Bool.and_eq_true, beq_iff_eq] at hz
      exact hz.1
    exact hnames.eq hx hy (Prod.ext ((hteam hx).trans (hteam hy).symm) hname)
  have hperm := ((List.perm_insertionSort (fun a b => row_place a ≤ row_place b)
    ((db.agents.filter fun a => a.team_id == team_id && a.disabled_at.isNone).flatMap
      (agent_rows now presence))).filter AgentRow.online).map AgentRow.name
  rw [load_agents, hperm.dedup.length_eq, List.filter_flatMap, List.map_flatMap]
  simp only [agent_rows_online]
  rw [distinct_keys hkeyed, List.countP_filter]
  simp only [filter_live_nonempty, Bool.and_comm]

/-- The tile and the two tables agree where no disabled agent is there. -/
theorem online_agrees_iff :
    db.agents.countP (fun a => a.team_id == team_id && online now presence a) =
        db.agents.countP (fun a => a.team_id == team_id && a.disabled_at.isNone && online now presence a) ↔
      ∀ a ∈ db.agents, a.team_id = team_id → a.disabled_at.isSome = true →
        ∀ p ∈ presence, p.agent_id = a.id → live now p = false := by
  rw [countP_eq_iff]
  · refine forall₂_congr fun a ha => ?_
    simp only [Bool.and_eq_true, beq_iff_eq, online, List.any_eq_true, rows_of, List.mem_filter,
      Option.isNone_iff_eq_none, Option.isSome_iff_ne_none, Bool.eq_false_iff]
    constructor
    · intro hgone hteam hdisabled p hp hof hlive
      exact hdisabled (hgone ⟨hteam, p, ⟨hp, hof⟩, hlive⟩).1.2
    · rintro hgone ⟨hteam, p, ⟨hp, hof⟩, hlive⟩
      refine ⟨⟨hteam, ?_⟩, p, ⟨hp, hof⟩, hlive⟩
      by_contra hdisabled
      exact hgone hteam hdisabled p hp hof hlive
  · intro a _
    simp only [Bool.and_eq_true]
    rintro ⟨⟨hteam, -⟩, hthere⟩
    exact ⟨hteam, hthere⟩

end Online

/-! ## What the summaries say of a task -/

section Shown

variable {now : ℕ} {auth : AuthCtx} {db : TaskDb} {t : Task}

/-- The effective status is the stored one exactly for a claim that has not lapsed. -/
theorem effective_eq_iff : effective_status now t = t.status ↔ ¬Lapsed now t := by
  unfold effective_status Lapsed
  cases hstatus : t.status with
  | claimed =>
    cases hlease : t.lease_expires_at with
    | none => simp
    | some x => simp
  | «open» => simp
  | done => simp
  | cancelled => simp

/-- A claim that has not lapsed is shown as it is stored. -/
theorem entry_of_not_lapsed (h : ¬Lapsed now t) : (task_entry now db t).status = t.status ∧
    (task_entry now db t).claimed_by = claimed_by db t ∧ (task_entry now db t).blocked = blocked db t.id := by
  have hstatus : (task_entry now db t).status = effective_status now t := task_info_status
  refine ⟨hstatus.trans (effective_eq_iff.mpr h), ?_, task_info_blocked⟩
  have hnot : ¬((t.status == .claimed && t.lease_expires_at.any fun x => x ≤ now) = true) := by
    intro hlapsed
    simp only [Bool.and_eq_true, beq_iff_eq, Option.any_eq_true, decide_eq_true_iff] at hlapsed
    exact h hlapsed
  have hholder : (task_info now db t).claimed_by = claimed_by db t := by
    unfold task_info
    simp only
    rw [if_neg hnot]
    rfl
  exact hholder

/-- Counted as stored and counted by what is shown. -/
theorem stored_count_eq (h : ∀ t ∈ db.tasks, t.team_id = auth.team_id → ¬Lapsed now t) (status : TaskStatus) :
    stored_count auth.team_id status db = count_of now auth status db := by
  refine List.countP_congr fun t ht => ?_
  simp only [Bool.and_eq_true, beq_iff_eq]
  refine and_congr_right fun hteam => ?_
  rw [effective_eq_iff.mpr (h t ht hteam)]

/-- A claim that lapsed is stored as claimed and shown as open. -/
theorem claimed_count_iff : stored_count auth.team_id .claimed db = count_of now auth .claimed db ↔
    ∀ t ∈ db.tasks, t.team_id = auth.team_id → ¬Lapsed now t := by
  unfold stored_count count_of
  rw [countP_eq_iff]
  · refine forall₂_congr fun t _ => ?_
    simp only [Bool.and_eq_true, beq_iff_eq]
    constructor
    · intro hshown hteam hlapsed
      have heffective := (hshown ⟨hteam, hlapsed.1⟩).2
      rw [← hlapsed.1] at heffective
      exact effective_eq_iff.mp heffective hlapsed
    · rintro hlive ⟨hteam, hclaimed⟩
      exact ⟨hteam, (effective_eq_iff.mpr (hlive hteam)).trans hclaimed⟩
  · intro t _
    simp only [Bool.and_eq_true, beq_iff_eq]
    rintro ⟨hteam, heffective⟩
    exact ⟨hteam, (effective_claimed.mp heffective).1⟩

/-- A page without filters is always answered. -/
theorem list_tasks_plain (crates : Crates) :
    ∃ l, list_tasks crates now now auth ⟨none, false, 50, none, none⟩ db db = .ok l :=
  ⟨_, rfl⟩

end Shown

section Agreement

variable {now : ℕ} {auth : AuthCtx} {hours : ℤ} {db : TaskDb} {presence : List AgentPresence}

/-- What a task of a page is. -/
theorem entry_of_key (hb : Board db) {crates : Crates} {query : TaskPageQuery} {l : TaskList} {e : TaskEntry} {t : Task}
    (hl : list_tasks crates now now auth query db db = .ok l) (he : e ∈ l.tasks) (ht : t ∈ db.tasks)
    (hteam : t.team_id = auth.team_id) (hkey : e.key = t.key) : e = task_entry now db t := by
  obtain ⟨x, hx, hxteam, rfl⟩ := (list_tasks_ok hl).1 e he
  rw [hb.keys.eq hx ht (Prod.ext (hxteam.trans hteam.symm) hkey)]

theorem mem_tasks_moved {d : DigestTask} (h : d ∈ tasks_moved now auth hours db) :
    ∃ t ∈ db.tasks, t.team_id = auth.team_id ∧
      d = ⟨t.key, t.title, t.status, claimed_by db t, t.result, t.updated_at⟩ := by
  obtain ⟨t, ht, rfl⟩ := List.mem_map.mp h
  have hmem := List.mem_filter.mp ((List.mem_insertionSort _).mp (List.mem_of_mem_take ht))
  have hmoved := hmem.2
  simp only [moved, Bool.and_eq_true, beq_iff_eq] at hmoved
  exact ⟨t, hmem.1, hmoved.1, rfl⟩

theorem mem_load_tasks {team_id : Uuid} {d : TaskRow} (h : d ∈ load_tasks team_id db) :
    ∃ t ∈ db.tasks, t.team_id = team_id ∧
      d = ⟨t.key, t.title, t.status, claimed_by db t, t.result, blocked db t.id, t.updated_at⟩ := by
  obtain ⟨t, ht, rfl⟩ := List.mem_map.mp h
  have hmem := List.mem_filter.mp ((List.mem_insertionSort _).mp (List.mem_of_mem_take ht))
  exact ⟨t, hmem.1, by simpa using hmem.2, rfl⟩

/-- **The summaries agree** exactly where no claim of the team has lapsed and no disabled agent of
it is there. -/
theorem consistent_iff_settled (hb : Board db) (hr : Roster db.agents) :
    Consistent now auth hours db presence ↔ Settled now auth.team_id db presence := by
  constructor
  · intro h
    refine ⟨?_, ?_⟩
    · obtain ⟨l, hl⟩ := @list_tasks_plain now auth db strokes
      have hclaimed := (h.counts _ _ _ hl).2.1
      rw [(list_tasks_ok hl).2.2] at hclaimed
      exact claimed_count_iff.mp hclaimed
    · have hcount := h.dashboard_online
      unfold load at hcount
      simp only at hcount
      rw [agents_online_eq hr, load_agents_online hr] at hcount
      exact online_agrees_iff.mp hcount
  · intro h
    have honline := online_agrees_iff.mpr h.agents
    refine ⟨?_, ?_, ?_, ?_, ?_⟩
    · intro crates query l hl
      obtain ⟨-, hopen, hclaimed⟩ := list_tasks_ok hl
      rw [hopen, hclaimed, ← stored_count_eq h.leases, ← stored_count_eq h.leases]
      exact ⟨rfl, rfl, rfl, rfl⟩
    · intro crates query l hl d hd e he hkey
      obtain ⟨t, ht, hteam, rfl⟩ := mem_tasks_moved hd
      obtain ⟨hstatus, hholder, -⟩ := @entry_of_not_lapsed now db t (h.leases t ht hteam)
      rw [entry_of_key hb hl he ht hteam hkey]
      exact ⟨hstatus.symm, hholder.symm⟩
    · intro crates query l hl d hd e he hkey
      obtain ⟨t, ht, hteam, rfl⟩ := mem_load_tasks hd
      obtain ⟨hstatus, hholder, hblocked⟩ := @entry_of_not_lapsed now db t (h.leases t ht hteam)
      rw [entry_of_key hb hl he ht hteam hkey]
      exact ⟨hstatus.symm, hholder.symm, hblocked.symm⟩
    · unfold load
      simp only
      rw [agents_online_eq hr, load_agents_online hr]
      exact honline
    · unfold load team_digest
      simp only
      rw [agents_online_eq hr, agents_seen_online]
      exact honline

end Agreement

/-! ## Over whole runs -/

/-- The state: the board with its agents, and the presence rows. -/
structure Sys where
  board : TaskClaims.Sys
  presence : List AgentPresence

/-- What can happen next. -/
inductive Act where
  /-- A step of the board, or any other part of the server commits. -/
  | board (a : TaskClaims.Act)
  | heartbeat (now : ℕ) (auth : AuthCtx) (b : Bound)
  /-- `read_messages` stamps the window's row. -/
  | inbox_read (now : ℕ) (auth : AuthCtx)

/-- One step. What would break a key of `agents` is refused by the database. -/
def step (s : Sys) : Act → Option Sys
  | .board a => (TaskClaims.step s.board a).bind fun board =>
    if Roster board.db.agents then some { s with board := board } else none
  | .heartbeat now auth b =>
    if now ≤ s.board.clock then
      some { s with presence := sweep auth now (write_presence now auth b s.presence) }
    else none
  | .inbox_read now auth =>
    if now ≤ s.board.clock then
      let stamped (p : AgentPresence) : AgentPresence := { p with last_inbox_read_at := some now }
      some { s with presence := update (at_window auth.agent_id auth.session) stamped s.presence }
    else none

/-- What the tables see to. -/
structure Inv (s : Sys) : Prop where
  board : Board s.board.db
  roster : Roster s.board.db.agents

section Run

variable {s t : Sys} {a : Act}

theorem Inv.step (hs : Inv s) (h : step s a = some t) : Inv t := by
  cases a with
  | board a =>
    simp only [Summaries.step] at h
    obtain ⟨board, hboard, h⟩ := Option.bind_eq_some_iff.mp h
    by_cases hr : Roster board.db.agents
    · rw [if_pos hr] at h
      cases h
      exact ⟨hs.board.step hboard, hr⟩
    · rw [if_neg hr] at h
      cases h
  | heartbeat now auth b | inbox_read now auth =>
    simp only [Summaries.step] at h
    split at h
    · cases h
      exact ⟨hs.board, hs.roster⟩
    · cases h

/-- **Every summary counts the same thing** in a reachable state and at an instant exactly where no
claim of the team has lapsed and no disabled agent of it is there. -/
theorem summaries_agree_iff {db : TaskDb} {clock : ℕ} {presence : List AgentPresence} (hb : Board db)
    (hr : Roster db.agents) {tr : List (Trans Sys Act)} (h : Run (Rel step) ⟨⟨⟨db, []⟩, clock⟩, presence⟩ tr s)
    (now : ℕ) (auth : AuthCtx) (hours : ℤ) :
    Consistent now auth hours s.board.db s.presence ↔ Settled now auth.team_id s.board.db s.presence := by
  have hinv : Inv s := h.invariant' ⟨hb, hr⟩ fun _ _ _ hs hstep => hs.step hstep
  exact consistent_iff_settled hinv.board hinv.roster

end Run

/-- Ada claims a task for thirty seconds, and the lease ends. -/
def lapse : List Act :=
  [.board (.create_task 0 (TaskClaims.worker 1 "ada") ⟨"build", "Build", none, []⟩),
    .board (.claim_task 0 0 (TaskClaims.worker 1 "ada") "build" (some 30)), .board (.tick 30000000)]

/-- Bob's window says that it is there for ten minutes, and Bob is disabled. -/
def dismissal : List Act :=
  [.heartbeat 0 (TaskClaims.worker 2 "bob")
      ⟨"active", none, none, none, 600, none, none, none, false, none, 3600, false, none, none, none⟩,
    .board (.other { agents := [⟨1, 1, "ada", none⟩, ⟨2, 1, "bob", some 0⟩] } [])]

/-- The board of Ada and Bob, and nobody there. -/
def outset : Sys := ⟨⟨⟨TaskClaims.board, []⟩, 0⟩, []⟩

theorem lapse_run : (exec step outset lapse).isSome = true := by decide

theorem dismissal_run : (exec step outset dismissal).isSome = true := by decide

def lapsed : Sys := ((exec step outset lapse).get lapse_run).2

def dismissed : Sys := ((exec step outset dismissal).get dismissal_run).2

/-- A moment before the lease ends they agree. -/
theorem summaries_agree_lapsed :
    Consistent 29999999 (TaskClaims.worker 1 "ada") 24 lapsed.board.db lapsed.presence ↔
      Settled 29999999 1 lapsed.board.db lapsed.presence :=
  summaries_agree_iff board_empty (by decide) (exec_get lapse_run) 29999999 (TaskClaims.worker 1 "ada") 24

/-- At the end of the lease the digest and the dashboard count a claim that the list does not, and
Bob is online on the tile alone. -/
theorem summaries_differ :
    (∃ tr, Run (Rel step) outset tr lapsed ∧
      ¬Consistent 30000000 (TaskClaims.worker 1 "ada") 24 lapsed.board.db lapsed.presence ∧
      (team_digest 30000000 (TaskClaims.worker 1 "ada") 24 lapsed.board.db lapsed.presence).claimed_tasks = 1 ∧
      (load 30000000 1 lapsed.board.db lapsed.presence).totals.claimed_tasks = 1 ∧
      count_of 30000000 (TaskClaims.worker 1 "ada") .claimed lapsed.board.db = 0) ∧
    ∃ tr, Run (Rel step) outset tr dismissed ∧
      ¬Consistent 0 (TaskClaims.worker 1 "ada") 24 dismissed.board.db dismissed.presence ∧
      (load 0 1 dismissed.board.db dismissed.presence).totals.agents_online = 1 ∧
      (load 0 1 dismissed.board.db dismissed.presence).agents.filter AgentRow.online = [] := by
  have hcounts :
      (team_digest 30000000 (TaskClaims.worker 1 "ada") 24 lapsed.board.db lapsed.presence).claimed_tasks = 1 ∧
      (load 30000000 1 lapsed.board.db lapsed.presence).totals.claimed_tasks = 1 ∧
      count_of 30000000 (TaskClaims.worker 1 "ada") .claimed lapsed.board.db = 0 := by decide
  have honline : (load 0 1 dismissed.board.db dismissed.presence).totals.agents_online = 1 ∧
      (load 0 1 dismissed.board.db dismissed.presence).agents.filter AgentRow.online = [] := by decide
  refine ⟨⟨_, exec_get lapse_run, fun h => ?_, hcounts⟩, _, exec_get dismissal_run, fun h => ?_, honline⟩
  · obtain ⟨l, hl⟩ := @list_tasks_plain 30000000 (TaskClaims.worker 1 "ada") lapsed.board.db strokes
    have hclaimed := (h.counts _ _ _ hl).2.1
    rw [(list_tasks_ok hl).2.2, hcounts.1, hcounts.2.2] at hclaimed
    cases hclaimed
  · have hsame := h.dashboard_online
    rw [show (TaskClaims.worker 1 "ada").team_id = 1 from rfl, honline.1, honline.2] at hsame
    cases hsame

end CrewSync.Summaries
