/-
`store/conversations.rs`: who has a project, and the end of a thread.

A grant is a row of `project_agent_access`. Whoever holds one may give another and
take one away, except their own. A thread of a project is open to those who hold
the grant at that moment, whatever their seat says.

`project` in a request is a name or an id; `by_id` is what it parses to as an id.
-/
import CrewSync.Conversations

set_option autoImplicit false

namespace CrewSync.Projects

open Error Schema Rows Auth Sessions
open Conversations

/-- A project as a request names it. -/
structure ProjectName where
  text : String
  by_id : Option Uuid
  deriving DecidableEq, Repr

/-- `WHERE project_id = $1 AND agent_id = $2`. -/
def is_grant (project_id agent_id : Uuid) (g : ProjectAgentAccess) : Bool :=
  g.project_id == project_id && g.agent_id == agent_id

/-- `project_id_for`. -/
def project_id_for (auth : AuthCtx) (project : ProjectName) (db : Db) : BusResult Uuid := do
  let p ← fetch (one (fun p => p.team_id == auth.team_id &&
      ((project.by_id.any fun id => p.id == id) || p.name == to_lowercase (trim project.text)) &&
      db.project_agent_access.any (is_grant p.id auth.agent_id)) db.projects) (.NotFound
    (s!"no project '{project.text}' you have access to. Create it with create_project, or ask " ++
      "a member to grant you access."))
  pure p.id

/-- The row a grant inserts. -/
def grant_row (auth : AuthCtx) (project_id target : Uuid) : ProjectAgentAccess :=
  ⟨project_id, target, auth.team_id⟩

/-- `INSERT … ON CONFLICT DO NOTHING`. -/
def give (auth : AuthCtx) (project_id target : Uuid) (t : List ProjectAgentAccess) :
    List ProjectAgentAccess :=
  if t.any (is_grant project_id target) then t else insert_into (grant_row auth project_id target) t

/-- `set_project_access`. -/
def set_project_access (now : ℕ) (seen : Db) (auth : AuthCtx) (project : ProjectName)
    (agent : String) (grant : Bool) (db : Db) : BusResult (Unit × Db) := do
  require_capability auth seen
  let project_id ← project_id_for auth project seen
  let target ← agent_id_by_name auth.team_id agent seen
  guard now auth db
  ensure (db.project_agent_access.any (is_grant project_id auth.agent_id)) (.Forbidden
    ("your access to this project has been revoked, so you cannot change anyone else's. " ++
      "Nothing was written."))
  ensure (grant = true ∨ target ≠ auth.agent_id) (.Invalid
    "you cannot revoke your own access; ask another member to do it")
  pure ((), { db with
    project_agent_access :=
      if grant then give auth project_id target db.project_agent_access
      else delete (is_grant project_id target) db.project_agent_access })

/-- `archive_conversation`. -/
def archive_conversation (now : ℕ) (seen : Db) (auth : AuthCtx) (id : Uuid) (db : Db) :
    BusResult (Unit × Db) := do
  require_capability auth seen
  let a ← readable auth id seen
  ensure a.can_moderate (.Forbidden
    "only an owner or moderator of this conversation can archive it")
  guard now auth db
  require_project_open auth id db
  pure ((), { db with
    conversations := update (fun c => c.id == id && c.archived_at.isNone)
      (fun c => { c with archived_at := some now }) db.conversations })

section Specs

variable {now : ℕ} {seen db db' : Db} {auth : AuthCtx} {u : Unit}

/-- A change of access is made by someone who has it, and not to themselves. -/
theorem set_project_access_ok {project : ProjectName} {agent : String} {grant : Bool}
    (h : set_project_access now seen auth project agent grant db = .ok (u, db')) :
    ∃ p target, project_id_for auth project seen = .ok p ∧
      agent_id_by_name auth.team_id agent seen = .ok target ∧
      db.project_agent_access.any (is_grant p auth.agent_id) = true ∧
      (grant = true ∨ target ≠ auth.agent_id) ∧
      db' = { db with
        project_agent_access :=
          if grant then give auth p target db.project_agent_access
          else delete (is_grant p target) db.project_agent_access } := by
  simp only [set_project_access, bind_eq_ok, ensure_eq_ok, pure_eq_ok, Prod.mk.injEq, true_and] at h
  obtain ⟨_, -, p, hp, target, htarget, _, -, _, hmine, _, hself, rfl⟩ := h
  exact ⟨p, target, hp, htarget, hmine, hself, rfl⟩

theorem archive_conversation_ok {id : Uuid} (h : archive_conversation now seen auth id db = .ok (u, db')) :
    require_project_open auth id db = .ok () ∧
      db' = { db with
        conversations := update (fun c => c.id == id && c.archived_at.isNone)
          (fun c => { c with archived_at := some now }) db.conversations } := by
  simp only [archive_conversation, bind_eq_ok, ensure_eq_ok, pure_eq_ok, Prod.mk.injEq,
    true_and] at h
  obtain ⟨_, -, _, -, _, -, _, -, _, hopen, rfl⟩ := h
  exact ⟨hopen, rfl⟩

end Specs

end CrewSync.Projects
