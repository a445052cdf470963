/-
`store/attachments.rs` and the quota of `store/quota.rs`: files on tasks and messages.

An upload counts and sums before it inserts. What it counts may be stale by the time it
commits unless nobody else can add to it meanwhile, and that is what two row locks are for:
the row of the task or message, which is locked before its files are counted, and the row
of the team, which is locked before its bytes are summed. Both are held to the end of the
transaction. `post_message` locks no message: its files are on a row nobody else can see
yet, and how many they are is checked by the tool that calls it.

An upload is taken apart into its statements, and between any two of them anything may
happen: other uploads, retention, a new quota. A statement waits for a lock by not being
possible yet. A call that fails, also because the database made it the victim of a deadlock
or the connection is gone, is rolled back. The shared locks that foreign keys take are left
out: they only make more calls wait.

Sums are natural numbers. They are `i64` in the source, and a table of the database ends
long before them.
-/
import Mathlib.Algebra.Order.BigOperators.Group.List
import Mathlib.Algebra.Order.Group.Nat
import Mathlib.Algebra.Ring.Nat
import Mathlib.Logic.Function.Basic
import CrewSync.Messaging
import CrewSync.Runs
import CrewSync.TaskClaims

set_option autoImplicit false

namespace CrewSync.Attachments

open Error Schema Rows Auth Tasks Runs

/-- `MAX_ATTACHMENT_BYTES` and `MAX_ATTACHMENTS_PER_TARGET`. -/
def MAX_ATTACHMENT_BYTES : ℕ := 256 * 1024

def MAX_ATTACHMENTS_PER_TARGET : ℕ := 8

/-! ## The table -/

/-- What a file is on: `CHECK ((message_id IS NULL) <> (task_id IS NULL))`. -/
inductive Target where
  | message (id : ℕ)
  | task (id : Uuid)
  deriving DecidableEq, Repr

/-- `attachments`, whose `id` is a `BIGSERIAL`; `data` is left out. -/
structure Attachment where
  id : ℕ
  team_id : Uuid
  target : Target
  uploader_agent_id : Uuid
  filename : String
  content_type : String
  size_bytes : ℕ
  deriving DecidableEq, Repr

/-- The database with its files, and `teams.attachment_bytes_limit`. -/
structure FileDb extends TaskDb where
  attachments : List Attachment := []
  attachment_bytes_limit : Uuid → Option ℕ := fun _ => none

/-- `SELECT count(*) … WHERE task_id = $1`, and the same of a message. -/
def count_on (t : Target) (rows : List Attachment) : ℕ := rows.countP fun a => a.target == t

/-- `SELECT COALESCE(sum(size_bytes), 0) … WHERE team_id = $1`. -/
def stored_bytes (team_id : Uuid) (rows : List Attachment) : ℕ :=
  ((rows.filter fun a => a.team_id == team_id).map Attachment.size_bytes).sum

/-! ## What is checked before a transaction -/

/-- A file as the caller gives it. -/
structure AttachmentInput where
  filename : String
  content_type : Option String
  data_base64 : String
  deriving DecidableEq, Repr

/-- `NewAttachment`. -/
structure NewAttachment where
  filename : String
  content_type : String
  data : List UInt8
  deriving DecidableEq, Repr

/-- `decode_input`; `decode` is the standard base64 alphabet with padding. -/
def decode_input (decode : String → Option (List UInt8)) (input : AttachmentInput) :
    BusResult NewAttachment := do
  let filename := trim input.filename
  ensure (!filename.isEmpty) (.Invalid "attachment filename cannot be empty")
  ensure (filename.utf8ByteSize ≤ 255) (.Invalid "attachment filename is limited to 255 characters")
  let data ← fetch (decode (trim input.data_base64)) (.Invalid
    s!"attachment '{filename}': data_base64 is not valid base64")
  ensure (data ≠ []) (.Invalid s!"attachment '{filename}' is empty")
  ensure (data.length ≤ MAX_ATTACHMENT_BYTES) (.Invalid
    (s!"attachment '{filename}' is {data.length} bytes; the limit is {MAX_ATTACHMENT_BYTES} " ++
      "(share a link or trim the file instead)"))
  let content_type := ((input.content_type.map trim).filter fun c => !c.isEmpty).getD
    "application/octet-stream"
  pure ⟨filename, content_type, data⟩

/-- The tool `post_message`, as far as its files go. -/
def message_files (decode : String → Option (List UInt8)) (raw : List AttachmentInput) :
    BusResult (List NewAttachment) := do
  ensure (raw.length ≤ 8) (.Invalid "a message carries at most 8 attachments")
  raw.mapM (decode_input decode)

/-! ## The system -/

/-- How far an upload is with its next file. -/
inductive Stage where
  | found
  | locked
  | counted
  | limited (limit : Option ℕ)
  | charged
  deriving DecidableEq, Repr

/-- A call that uploads: the message it posts, if it does, the files it still has to insert,
and what its transaction inserted so far. -/
structure Upload where
  xid : ℕ
  auth : AuthCtx
  target : Target
  message : Option Message
  files : List NewAttachment
  rows : List Attachment
  team_locked : Bool
  stage : Stage
  deriving DecidableEq, Repr

/-- It has locked its target, or has just made it. -/
def Upload.holds (x : Upload) : Bool := x.stage != .found

/-- The state: the database, the uploads that are open and those that were refused, and the
sequences numbers are drawn from. -/
structure Sys where
  db : FileDb
  txs : List Upload
  refused : List Upload
  next_xid : ℕ
  next_message : ℕ
  next_attachment : ℕ

/-- What can happen next. -/
inductive Act where
  | attach_to_task (auth : AuthCtx) (task_key : String) (file : AttachmentInput)
  | attach_to_message (auth : AuthCtx) (message_id : ℕ) (file : AttachmentInput)
  | post_message (now : ℕ) (auth : AuthCtx) (target : Messaging.Target) (body : String)
      (files : List AttachmentInput)
  /-- `SELECT … FOR UPDATE` of the target. -/
  | lock (xid : ℕ)
  /-- `SELECT count(*)`. -/
  | count (xid : ℕ)
  /-- `check_attachment_quota`: the team's row is locked and its limit read. -/
  | limit (xid : ℕ)
  /-- `check_attachment_quota`: the sum. -/
  | sum (xid : ℕ)
  | insert (xid : ℕ)
  | commit (xid : ℕ)
  | rollback (xid : ℕ)
  /-- `prune`: these messages of the team are old. -/
  | prune (team_id : Uuid) (old : List ℕ)
  | team_quota (team_id : Uuid) (bytes : Option ℤ)
  /-- Any other part of the server commits. -/
  | other (db' : TaskDb)

/-- The upload `xid`. -/
def Sys.tx (s : Sys) (xid : ℕ) : Option Upload := one (fun x => x.xid == xid) s.txs

/-- A new one. -/
def Sys.opened (s : Sys) (x : Upload) : Sys :=
  { s with txs := s.txs ++ [x], next_xid := s.next_xid + 1 }

/-- It goes on as `x`. -/
def Sys.put (s : Sys) (x : Upload) : Sys :=
  { s with txs := update (fun y => y.xid == x.xid) (fun _ => x) s.txs }

/-- It is rolled back. -/
def Sys.refuse (s : Sys) (x : Upload) : Sys :=
  { s with txs := delete (fun y => y.xid == x.xid) s.txs, refused := x :: s.refused }

/-- What it inserted is there. -/
def Sys.committed (s : Sys) (x : Upload) : Sys := { s with
  db := { s.db with
    messages := s.db.messages ++ x.message.toList
    attachments := s.db.attachments ++ x.rows }
  txs := delete (fun y => y.xid == x.xid) s.txs }

/-- What an upload to a task or a message begins with. -/
def Sys.upload (s : Sys) (auth : AuthCtx) (target : Target) (file : NewAttachment) : Upload :=
  ⟨s.next_xid, auth, target, none, [file], [], false, .found⟩

/-- What `post_message` begins with, its message inserted. -/
def Sys.posting (s : Sys) (auth : AuthCtx) (target : Messaging.Target) (body : String)
    (files : List NewAttachment) : Upload :=
  ⟨s.next_xid, auth, .message s.next_message,
    some (Messaging.message_row auth target body s.next_message), files, [], false, .counted⟩

/-- The row of the next file. -/
def Upload.row (x : Upload) (f : NewAttachment) (id : ℕ) : Attachment :=
  ⟨id, x.auth.team_id, x.target, x.auth.agent_id, f.filename, f.content_type, f.data.length⟩

/-- The target is there. -/
def has (db : FileDb) : Target → Bool
  | .message id => db.messages.any fun m => m.id == id
  | .task id => db.tasks.any fun t => t.id == id

/-- `used + incoming_bytes > limit`. -/
def exceeds (limit : Option ℕ) (used incoming_bytes : ℕ) : Bool :=
  limit.any fun l => l < used + incoming_bytes

/-- The message goes with `prune`. -/
def pruned (team_id : Uuid) (old : List ℕ) (m : Message) : Bool :=
  m.team_id == team_id && old.contains m.id

/-- What is on one of these messages goes with it (`ON DELETE CASCADE`). -/
def cascaded (gone : List Message) (t : Target) : Bool := gone.any fun m => t == .message m.id

/-- The database after `prune`. -/
def after_prune (team_id : Uuid) (old : List ℕ) (db : FileDb) : FileDb := { db with
  messages := delete (pruned team_id old) db.messages
  attachments := delete (fun a => cascaded (db.messages.filter (pruned team_id old)) a.target)
    db.attachments }

/-- The database with another limit of a team. -/
def FileDb.with_limit (db : FileDb) (team_id : Uuid) (limit : Option ℕ) : FileDb :=
  { db with attachment_bytes_limit := Function.update db.attachment_bytes_limit team_id limit }

/-- The statement of upload `xid`. -/
def Sys.statement (s : Sys) (xid : ℕ) (run : Upload → Option Sys) : Option Sys :=
  match s.tx xid with
  | some x => run x
  | none => none

/-- One step. A call that is refused before its transaction leaves everything as it is. -/
def step (decode : String → Option (List UInt8)) (s : Sys) : Act → Option Sys
  | .attach_to_task auth task_key file =>
    match decode_input decode file, one (at_key auth (trim task_key)) s.db.tasks with
    | .ok f, some t => some (s.opened (s.upload auth (.task t.id) f))
    | _, _ => some s
  | .attach_to_message auth message_id file =>
    match decode_input decode file,
      one (fun m => m.id == message_id && m.team_id == auth.team_id) s.db.messages with
    | .ok f, some m =>
      if m.sender_agent_id = auth.agent_id then some (s.opened (s.upload auth (.message m.id) f))
      else some s
    | _, _ => some s
  | .post_message now auth target body files =>
    match message_files decode files, Sessions.guard now auth s.db.toDb with
    | .ok fs, .ok _ =>
      let s' := s.opened (s.posting auth target body fs)
      some { s' with next_message := s.next_message + 1 }
    | _, _ => some s
  | .lock xid => s.statement xid fun x =>
    if x.stage = .found then
      if s.txs.any fun y => y.xid != x.xid && y.holds && y.target == x.target then none
      else if has s.db x.target then some (s.put { x with stage := .locked })
      else some (s.refuse x)
    else none
  | .count xid => s.statement xid fun x =>
    if x.stage = .locked then
      if MAX_ATTACHMENTS_PER_TARGET ≤ count_on x.target (s.db.attachments ++ x.rows) then
        some (s.refuse x)
      else some (s.put { x with stage := .counted })
    else none
  | .limit xid => s.statement xid fun x =>
    if x.stage = .counted ∧ x.files ≠ [] then
      if s.txs.any fun y => y.xid != x.xid && y.team_locked && y.auth.team_id == x.auth.team_id then none
      else some (s.put { x with
        stage := .limited (s.db.attachment_bytes_limit x.auth.team_id), team_locked := true })
    else none
  | .sum xid => s.statement xid fun x =>
    match x.stage, x.files with
    | .limited limit, f :: _ =>
      if exceeds limit (stored_bytes x.auth.team_id (s.db.attachments ++ x.rows)) f.data.length then
        some (s.refuse x)
      else some (s.put { x with stage := .charged })
    | _, _ => none
  | .insert xid => s.statement xid fun x =>
    match x.stage, x.files with
    | .charged, f :: fs =>
      let s' := s.put { x with
        rows := x.rows ++ [x.row f s.next_attachment], files := fs, stage := .counted }
      some { s' with next_attachment := s.next_attachment + 1 }
    | _, _ => none
  | .commit xid => s.statement xid fun x =>
    if x.stage = .counted ∧ x.files = [] then some (s.committed x) else none
  | .rollback xid => s.statement xid fun x => some (s.refuse x)
  | .prune team_id old =>
    -- it waits for a message whose files are being counted
    let gone := s.db.messages.filter (pruned team_id old)
    if s.txs.any fun x => x.holds && cascaded gone x.target then none
    else some { s with db := after_prune team_id old s.db }
  | .team_quota team_id bytes =>
    if bytes.any (· ≤ 0) then some s
    else if s.txs.any fun x => x.team_locked && x.auth.team_id == team_id then none
    else some { s with db := s.db.with_limit team_id (bytes.map Int.toNat) }
  | .other db' =>
    if db'.messages = s.db.messages then some { s with db := { s.db with toTaskDb := db' } } else none

/-! ## The law -/

/-- The rows an upload or a database has, by the numbers they were drawn. -/
inductive RowId where
  | attachment (id : ℕ)
  | message (id : ℕ)
  deriving DecidableEq, Repr

/-- The rows of an upload. -/
def Upload.row_ids (x : Upload) : List RowId :=
  x.rows.map (fun a => .attachment a.id) ++ x.message.toList.map fun m => .message m.id

/-- The rows that are there. -/
def FileDb.row_ids (db : FileDb) : List RowId :=
  db.attachments.map (fun a => .attachment a.id) ++ db.messages.map fun m => .message m.id

/-- The team stores no more than it may. -/
def WithinQuota (team_id : Uuid) (db : FileDb) : Prop :=
  ∀ limit, db.attachment_bytes_limit team_id = some limit → stored_bytes team_id db.attachments ≤ limit

/-- The step lowers the team's limit. -/
def lowers (team_id : Uuid) (s : Sys) : Act → Bool
  | .team_quota t (some bytes) => t == team_id && decide (0 < bytes) &&
      (s.db.attachment_bytes_limit t).all fun limit => bytes.toNat < limit
  | _ => false

/-- The steps that change which rows are there. -/
def writes : Act → Bool
  | .commit _ | .prune _ _ => true
  | _ => false

/-- What quotas promise of a run from `s₀` to `s`. -/
structure QuotaLaw (s₀ : Sys) (tr : List (Trans Sys Act)) (s : Sys) : Prop where
  /-- The bytes of a team whose limit is not lowered. -/
  bytes : ∀ team_id, (∀ e ∈ tr, lowers team_id e.pre e.act = false) →
    WithinQuota team_id s₀.db → WithinQuota team_id s.db
  /-- The files on a task or a message. -/
  count : ∀ target, count_on target s.db.attachments ≤ MAX_ATTACHMENTS_PER_TARGET
  /-- A refused call left nothing. -/
  refused : ∀ x ∈ s.refused, ∀ k ∈ x.row_ids, k ∉ s.db.row_ids
  /-- A call that is open shows nothing either: rows come with its commit. -/
  shown : ∀ e ∈ tr, writes e.act = false → e.post.db.row_ids = e.pre.db.row_ids
  /-- A call that is over has committed what it inserted, or was refused. -/
  ended : ∀ e ∈ tr, ∀ x ∈ e.pre.txs, (∃ y ∈ e.post.txs, y.xid = x.xid) ∨
    x ∈ e.post.refused ∨ x.files = [] ∧ ∀ k ∈ x.row_ids, k ∈ e.post.db.row_ids

/-! ## The steps -/

/-- What a step does. -/
inductive Did (s : Sys) : Act → Sys → Prop
  | quiet {a : Act} : Did s a s
  | uploads {a : Act} {auth : AuthCtx} {target : Target} {f : NewAttachment} :
      has s.db target = true → Did s a (s.opened (s.upload auth target f))
  | posts {a : Act} {auth : AuthCtx} {target : Messaging.Target} {body : String}
      {files : List NewAttachment} : files.length ≤ MAX_ATTACHMENTS_PER_TARGET →
      Did s a { s.opened (s.posting auth target body files) with next_message := s.next_message + 1 }
  | locked {a : Act} {x : Upload} : x ∈ s.txs → x.stage = .found →
      (∀ y ∈ s.txs, y.xid ≠ x.xid → y.holds = true → y.target ≠ x.target) →
      Did s a (s.put { x with stage := .locked })
  | counted {a : Act} {x : Upload} : x ∈ s.txs → x.stage = .locked →
      count_on x.target (s.db.attachments ++ x.rows) < MAX_ATTACHMENTS_PER_TARGET →
      Did s a (s.put { x with stage := .counted })
  | limited {a : Act} {x : Upload} : x ∈ s.txs → x.stage = .counted →
      (∀ y ∈ s.txs, y.xid ≠ x.xid → y.team_locked = true → y.auth.team_id ≠ x.auth.team_id) →
      Did s a (s.put { x with
        stage := .limited (s.db.attachment_bytes_limit x.auth.team_id), team_locked := true })
  | charged {a : Act} {x : Upload} {limit : Option ℕ} {f : NewAttachment} {fs : List NewAttachment} :
      x ∈ s.txs → x.stage = .limited limit → x.files = f :: fs →
      exceeds limit (stored_bytes x.auth.team_id (s.db.attachments ++ x.rows)) f.data.length = false →
      Did s a (s.put { x with stage := .charged })
  | inserted {a : Act} {x : Upload} {f : NewAttachment} {fs : List NewAttachment} : x ∈ s.txs →
      x.stage = .charged → x.files = f :: fs →
      Did s a { s.put { x with
        rows := x.rows ++ [x.row f s.next_attachment], files := fs, stage := .counted } with
          next_attachment := s.next_attachment + 1 }
  | refused {a : Act} {x : Upload} : x ∈ s.txs → Did s a (s.refuse x)
  | committed {xid : ℕ} {x : Upload} : x ∈ s.txs → x.stage = .counted → x.files = [] →
      Did s (.commit xid) (s.committed x)
  | pruned {team_id : Uuid} {old : List ℕ} :
      (∀ x ∈ s.txs, x.holds = true →
        cascaded (s.db.messages.filter (pruned team_id old)) x.target = false) →
      Did s (.prune team_id old) { s with db := after_prune team_id old s.db }
  | quota {team_id : Uuid} {bytes : Option ℤ} : (∀ b, bytes = some b → 0 < b) →
      (∀ x ∈ s.txs, x.team_locked = true → x.auth.team_id ≠ team_id) →
      Did s (.team_quota team_id bytes) { s with db := s.db.with_limit team_id (bytes.map Int.toNat) }
  | other {db' : TaskDb} : db'.messages = s.db.messages →
      Did s (.other db') { s with db := { s.db with toTaskDb := db' } }

section Steps

variable {decode : String → Option (List UInt8)} {s t : Sys} {a : Act} {x y : Upload} {files : List NewAttachment}
  {k : RowId} {n : ℕ} {db : FileDb} {team_id : Uuid} {rows : List Attachment}

theorem statement_some {xid : ℕ} {run : Upload → Option Sys} (h : s.statement xid run = some t) :
    ∃ x ∈ s.txs, x.xid = xid ∧ run x = some t := by
  unfold Sys.statement at h
  split at h
  · rename_i x hx
    have hid := pos_of_one hx
    exact ⟨x, mem_of_one hx, by simpa using hid, h⟩
  · cases h

/-- A message is posted with at most as many files as it may have. -/
theorem message_files_length {raw : List AttachmentInput}
    (h : message_files decode raw = .ok files) : files.length ≤ MAX_ATTACHMENTS_PER_TARGET := by
  simp only [message_files, bind_eq_ok, ensure_eq_ok] at h
  obtain ⟨_, hle, hfiles⟩ := h
  rw [length_of_mapM_ok hfiles]
  exact hle

theorem step_did (h : step decode s a = some t) : Did s a t := by
  cases a with
  | attach_to_task auth task_key file =>
    simp only [step] at h
    split at h
    · rename_i f task hf ht
      obtain rfl := Option.some.inj h
      refine .uploads ?_
      simp only [has, List.any_eq_true, beq_iff_eq]
      exact ⟨task, mem_of_one ht, rfl⟩
    · obtain rfl := Option.some.inj h
      exact .quiet
  | attach_to_message auth message_id file =>
    simp only [step] at h
    split at h
    · rename_i f m hf hm
      split at h
      · obtain rfl := Option.some.inj h
        refine .uploads ?_
        simp only [has, List.any_eq_true, beq_iff_eq]
        exact ⟨m, mem_of_one hm, rfl⟩
      · obtain rfl := Option.some.inj h
        exact .quiet
    · obtain rfl := Option.some.inj h
      exact .quiet
  | post_message now auth target body files =>
    simp only [step] at h
    split at h
    · rename_i fs _ hfs _
      obtain rfl := Option.some.inj h
      exact .posts (message_files_length hfs)
    · obtain rfl := Option.some.inj h
      exact .quiet
  | lock xid =>
    obtain ⟨x, hx, -, h⟩ := statement_some h
    split at h
    · rename_i hst
      split at h
      · cases h
      · rename_i hfree
        split at h
        · obtain rfl := Option.some.inj h
          refine .locked hx hst fun y hy hne hholds heq => hfree ?_
          simp only [List.any_eq_true, Bool.and_eq_true, bne_iff_ne, beq_iff_eq]
          exact ⟨y, hy, ⟨hne, hholds⟩, heq⟩
        · obtain rfl := Option.some.inj h
          exact .refused hx
    · cases h
  | count xid =>
    obtain ⟨x, hx, -, h⟩ := statement_some h
    split at h
    · rename_i hst
      split at h
      · obtain rfl := Option.some.inj h
        exact .refused hx
      · obtain rfl := Option.some.inj h
        exact .counted hx hst (by omega)
    · cases h
  | limit xid =>
    obtain ⟨x, hx, -, h⟩ := statement_some h
    split at h
    · rename_i hst
      split at h
      · cases h
      · rename_i hfree
        obtain rfl := Option.some.inj h
        refine .limited hx hst.1 fun y hy hne hlocked heq => hfree ?_
        simp only [List.any_eq_true, Bool.and_eq_true, bne_iff_ne, beq_iff_eq]
        exact ⟨y, hy, ⟨hne, hlocked⟩, heq⟩
    · cases h
  | sum xid =>
    obtain ⟨x, hx, -, h⟩ := statement_some h
    split at h
    · rename_i limit f fs hst hfiles
      split at h
      · obtain rfl := Option.some.inj h
        exact .refused hx
      · rename_i hroom
        obtain rfl := Option.some.inj h
        exact .charged hx hst hfiles (by simpa using hroom)
    · cases h
  | insert xid =>
    obtain ⟨x, hx, -, h⟩ := statement_some h
    split at h
    · rename_i f fs hst hfiles
      obtain rfl := Option.some.inj h
      exact .inserted hx hst hfiles
    · cases h
  | commit xid =>
    obtain ⟨x, hx, -, h⟩ := statement_some h
    split at h
    · rename_i hdone
      obtain rfl := Option.some.inj h
      exact .committed hx hdone.1 hdone.2
    · cases h
  | rollback xid =>
    obtain ⟨x, hx, -, h⟩ := statement_some h
    obtain rfl := Option.some.inj h
    exact .refused hx
  | prune team_id old =>
    simp only [step] at h
    split at h
    · cases h
    · rename_i hfree
      obtain rfl := Option.some.inj h
      refine .pruned fun x hx hholds => ?_
      by_contra hgone
      refine hfree (List.any_eq_true.mpr ⟨x, hx, ?_⟩)
      rw [hholds, Bool.true_and]
      simpa using hgone
  | team_quota team_id bytes =>
    simp only [step] at h
    split at h
    · obtain rfl := Option.some.inj h
      exact .quiet
    · rename_i hpos
      split at h
      · cases h
      · rename_i hfree
        obtain rfl := Option.some.inj h
        refine .quota (fun b hb => ?_) fun x hx hlocked heq => hfree ?_
        · rw [hb] at hpos
          simpa using hpos
        · simp only [List.any_eq_true, Bool.and_eq_true, beq_iff_eq]
          exact ⟨x, hx, hlocked, heq⟩
  | other db' =>
    simp only [step] at h
    split at h
    · rename_i hsame
      obtain rfl := Option.some.inj h
      exact .other hsame
    · cases h

/-! ### Which rows are whose -/

/-- The number has been drawn. -/
def Drawn (s : Sys) : RowId → Prop
  | .attachment id => id < s.next_attachment
  | .message id => id < s.next_message

/-- No two of the database, the open uploads and the refused ones share a row. -/
structure Ids (s : Sys) : Prop where
  xids : Keyed Upload.xid s.txs
  below : ∀ x ∈ s.txs, x.xid < s.next_xid
  drawn : ∀ k ∈ s.db.row_ids, Drawn s k
  drawn_open : ∀ x ∈ s.txs, ∀ k ∈ x.row_ids, Drawn s k
  drawn_refused : ∀ x ∈ s.refused, ∀ k ∈ x.row_ids, Drawn s k
  hidden : ∀ x ∈ s.txs, ∀ k ∈ x.row_ids, k ∉ s.db.row_ids
  refused : ∀ x ∈ s.refused, ∀ k ∈ x.row_ids, k ∉ s.db.row_ids
  apart : ∀ x ∈ s.txs, ∀ y ∈ s.txs, x.xid ≠ y.xid → ∀ k ∈ x.row_ids, k ∉ y.row_ids
  refused_apart : ∀ x ∈ s.refused, ∀ y ∈ s.txs, ∀ k ∈ x.row_ids, k ∉ y.row_ids

theorem mem_put (h : y ∈ (s.put x).txs) : y = x ∨ y ∈ s.txs ∧ y.xid ≠ x.xid := by
  obtain ⟨z, hz, rfl⟩ := mem_update.mp h
  by_cases heq : z.xid = x.xid
  · left
    simp [heq]
  · right
    rw [if_neg (by simpa using heq)]
    exact ⟨hz, heq⟩

theorem mem_others {k : ℕ} (h : y ∈ delete (fun z => z.xid == k) s.txs) : y ∈ s.txs ∧ y.xid ≠ k := by
  obtain ⟨hmem, hne⟩ := mem_delete.mp h
  exact ⟨hmem, by simpa using hne⟩

theorem mem_committed_row_ids : k ∈ (s.committed x).db.row_ids ↔ k ∈ s.db.row_ids ∨ k ∈ x.row_ids := by
  simp only [Sys.committed, FileDb.row_ids, Upload.row_ids, List.map_append, List.mem_append]
  tauto

/-- An upload is opened, with a message of its own or with none. -/
theorem Ids.opened (hs : Ids s) (hn : s.next_message ≤ n) (hxid : x.xid = s.next_xid)
    (hnew : ∀ k ∈ x.row_ids, ¬ Drawn s k ∧ Drawn { s with next_message := n } k) :
    Ids { s.opened x with next_message := n } := by
  have hmono : ∀ k, Drawn s k → Drawn { s.opened x with next_message := n } k := by
    intro k hk
    cases k with
    | attachment id => exact hk
    | message id => exact lt_of_lt_of_le hk hn
  have hcases : ∀ y ∈ s.txs ++ [x], y ∈ s.txs ∨ y = x := by
    intro y hy
    rcases List.mem_append.mp hy with hy | hy
    · exact Or.inl hy
    · exact Or.inr (List.mem_singleton.mp hy)
  refine ⟨?_, fun y hy => ?_, fun k hk => hmono k (hs.drawn k hk), fun y hy k hk => ?_,
    fun y hy k hk => hmono k (hs.drawn_refused y hy k hk), fun y hy k hk => ?_, hs.refused,
    fun y hy z hz hne k hk => ?_, fun y hy z hz k hk hkz => ?_⟩
  · refine hs.xids.insert_into fun y hy => ?_
    have hlt := hs.below y hy
    omega
  · rcases hcases y hy with hy | rfl
    · exact Nat.lt_succ_of_lt (hs.below y hy)
    · rw [hxid]
      exact Nat.lt_succ_self _
  · rcases hcases y hy with hy | rfl
    · exact hmono k (hs.drawn_open y hy k hk)
    · exact (hnew k hk).2
  · rcases hcases y hy with hy | rfl
    · exact hs.hidden y hy k hk
    · exact fun hin => (hnew k hk).1 (hs.drawn k hin)
  · rcases hcases y hy with hy' | rfl
    · rcases hcases z hz with hz' | rfl
      · exact hs.apart y hy' z hz' hne k hk
      · exact fun hin => (hnew k hin).1 (hs.drawn_open y hy' k hk)
    · rcases hcases z hz with hz' | rfl
      · exact fun hin => (hnew k hk).1 (hs.drawn_open z hz' k hin)
      · exact absurd rfl hne
  · rcases hcases z hz with hz | rfl
    · exact hs.refused_apart y hy z hz k hk hkz
    · exact (hnew k hkz).1 (hs.drawn_refused y hy k hk)

/-- An upload goes on, with a row that was drawn for it or with none. -/
theorem Ids.put (hs : Ids s) (hx : x ∈ s.txs) (hn : s.next_attachment ≤ n) (hxid : y.xid = x.xid)
    (hnew : ∀ k ∈ y.row_ids, k ∈ x.row_ids ∨ ¬ Drawn s k ∧ Drawn { s with next_attachment := n } k) :
    Ids { s.put y with next_attachment := n } := by
  have hmono : ∀ k, Drawn s k → Drawn { s.put y with next_attachment := n } k := by
    intro k hk
    cases k with
    | attachment id => exact lt_of_lt_of_le hk hn
    | message id => exact hk
  have hnot : ∀ k ∈ y.row_ids, ∀ l : List RowId, (∀ i ∈ l, Drawn s i) → (∀ i ∈ x.row_ids, i ∉ l) → k ∉ l := by
    intro k hk l hdrawn hapart hin
    rcases hnew k hk with hold | ⟨hfresh, -⟩
    · exact hapart k hold hin
    · exact hfresh (hdrawn k hin)
  refine ⟨?_, fun z hz => ?_, fun k hk => hmono k (hs.drawn k hk), fun z hz k hk => ?_,
    fun z hz k hk => hmono k (hs.drawn_refused z hz k hk), fun z hz k hk => ?_, hs.refused,
    fun z hz w hw hne k hk hkw => ?_, fun z hz w hw k hk hkw => ?_⟩
  · refine hs.xids.update_one (fun a ha b hb hpa hpb => ?_) fun a ha hpa b hb hpb => ?_
    · exact hs.xids.eq ha hb (by rw [beq_iff_eq.mp hpa, beq_iff_eq.mp hpb])
    · exact fun heq => absurd heq.symm (by simpa using hpb)
  · rcases mem_put hz with rfl | ⟨hz, -⟩
    · rw [hxid]
      exact hs.below x hx
    · exact hs.below z hz
  · rcases mem_put hz with rfl | ⟨hz, -⟩
    · rcases hnew k hk with hold | ⟨-, hdrawn⟩
      · exact hmono k (hs.drawn_open x hx k hold)
      · exact hdrawn
    · exact hmono k (hs.drawn_open z hz k hk)
  · rcases mem_put hz with rfl | ⟨hz, -⟩
    · exact hnot k hk _ hs.drawn (hs.hidden x hx)
    · exact hs.hidden z hz k hk
  · rcases mem_put hz with rfl | ⟨hz', hzne⟩
    · rcases mem_put hw with rfl | ⟨hw', hwne⟩
      · exact hne rfl
      · exact hnot k hk _ (hs.drawn_open w hw')
          (hs.apart x hx w hw' fun heq => hwne (heq.symm.trans hxid.symm)) hkw
    · rcases mem_put hw with rfl | ⟨hw', -⟩
      · refine hnot k hkw _ (hs.drawn_open z hz') ?_ hk
        exact hs.apart x hx z hz' fun heq => hzne (heq.symm.trans hxid.symm)
      · exact hs.apart z hz' w hw' hne k hk hkw
  · rcases mem_put hw with rfl | ⟨hw, -⟩
    · refine hnot k hkw _ (hs.drawn_refused z hz) (fun i hi hin => ?_) hk
      exact hs.refused_apart z hz x hx i hin hi
    · exact hs.refused_apart z hz w hw k hk hkw

theorem Ids.refuse (hs : Ids s) (hx : x ∈ s.txs) : Ids (s.refuse x) := by
  refine ⟨hs.xids.delete _, fun y hy => hs.below y (mem_others hy).1, hs.drawn,
    fun y hy => hs.drawn_open y (mem_others hy).1, fun y hy => ?_,
    fun y hy => hs.hidden y (mem_others hy).1, fun y hy => ?_,
    fun y hy z hz => hs.apart y (mem_others hy).1 z (mem_others hz).1, fun y hy z hz => ?_⟩
  · rcases List.mem_cons.mp hy with rfl | hy
    · exact hs.drawn_open y hx
    · exact hs.drawn_refused y hy
  · rcases List.mem_cons.mp hy with rfl | hy
    · exact hs.hidden y hx
    · exact hs.refused y hy
  · obtain ⟨hz', hne⟩ := mem_others hz
    rcases List.mem_cons.mp hy with rfl | hy'
    · exact hs.apart y hx z hz' hne.symm
    · exact hs.refused_apart y hy' z hz'

theorem Ids.commit (hs : Ids s) (hx : x ∈ s.txs) : Ids (s.committed x) := by
  refine ⟨hs.xids.delete _, fun y hy => hs.below y (mem_others hy).1, fun k hk => ?_,
    fun y hy => hs.drawn_open y (mem_others hy).1, hs.drawn_refused, fun y hy k hk hin => ?_,
    fun y hy k hk hin => ?_, fun y hy z hz => hs.apart y (mem_others hy).1 z (mem_others hz).1,
    fun y hy z hz => hs.refused_apart y hy z (mem_others hz).1⟩
  · rcases mem_committed_row_ids.mp hk with hk | hk
    · exact hs.drawn k hk
    · exact hs.drawn_open x hx k hk
  · obtain ⟨hy, hne⟩ := mem_others hy
    rcases mem_committed_row_ids.mp hin with hin | hin
    · exact hs.hidden y hy k hk hin
    · exact hs.apart y hy x hx hne k hk hin
  · rcases mem_committed_row_ids.mp hin with hin | hin
    · exact hs.refused y hy k hk hin
    · exact hs.refused_apart y hy x hx k hk hin

/-- Rows that are there may go. -/
theorem Ids.fewer (hs : Ids s) (hsub : ∀ k ∈ db.row_ids, k ∈ s.db.row_ids) : Ids { s with db := db } :=
  ⟨hs.xids, hs.below, fun k hk => hs.drawn k (hsub k hk), hs.drawn_open, hs.drawn_refused,
    fun x hx k hk hin => hs.hidden x hx k hk (hsub k hin),
    fun x hx k hk hin => hs.refused x hx k hk (hsub k hin), hs.apart, hs.refused_apart⟩

theorem after_prune_row_ids {old : List ℕ} (h : k ∈ (after_prune team_id old db).row_ids) : k ∈ db.row_ids := by
  simp only [after_prune, FileDb.row_ids, List.mem_append, List.mem_map, mem_delete] at h ⊢
  rcases h with ⟨r, hr, rfl⟩ | ⟨m, hm, rfl⟩
  · exact Or.inl ⟨r, hr.1, rfl⟩
  · exact Or.inr ⟨m, hm.1, rfl⟩

theorem message_row_id (auth : AuthCtx) (target : Messaging.Target) (body : String) (id : ℕ) :
    (Messaging.message_row auth target body id).id = id := by
  cases target <;> rfl

theorem Ids.step (hs : Ids s) (h : Did s a t) : Ids t := by
  cases h with
  | quiet => exact hs
  | uploads hhas =>
    refine hs.opened (Nat.le_refl _) rfl fun k hk => ?_
    exact absurd hk (by simp [Sys.upload, Upload.row_ids])
  | posts hlen =>
    refine hs.opened (Nat.le_succ _) rfl fun k hk => ?_
    -- its only row is the message, under the number just drawn
    obtain rfl : k = .message s.next_message := by
      simpa [Sys.posting, Upload.row_ids, message_row_id] using hk
    exact ⟨Nat.lt_irrefl _, Nat.lt_succ_self _⟩
  | locked hx | counted hx | limited hx | charged hx => exact hs.put hx (Nat.le_refl _) rfl fun k hk => Or.inl hk
  | inserted hx =>
    refine hs.put hx (Nat.le_succ _) rfl fun k hk => ?_
    simp only [Upload.row_ids, List.map_append, List.mem_append] at hk ⊢
    rcases hk with (hk | hk) | hk
    · exact Or.inl (Or.inl hk)
    · obtain rfl := List.mem_singleton.mp hk
      exact Or.inr ⟨Nat.lt_irrefl _, Nat.lt_succ_self _⟩
    · exact Or.inl (Or.inr hk)
  | refused hx => exact hs.refuse hx
  | committed hx => exact hs.commit hx
  | pruned => exact hs.fewer fun k hk => after_prune_row_ids hk
  | quota => exact hs.fewer fun k hk => hk
  | @other db' hsame =>
    refine hs.fewer fun k hk => ?_
    simp only [FileDb.row_ids, hsame] at hk
    exact hk

/-! ### How many, and how much -/

theorem count_on_append (target : Target) (l l' : List Attachment) :
    count_on target (l ++ l') = count_on target l + count_on target l' := List.countP_append

theorem stored_bytes_append (team_id : Uuid) (l l' : List Attachment) :
    stored_bytes team_id (l ++ l') = stored_bytes team_id l + stored_bytes team_id l' := by
  simp only [stored_bytes, List.filter_append, List.map_append, List.sum_append]

theorem count_on_delete (target : Target) (p : Attachment → Bool) (l : List Attachment) :
    count_on target (delete p l) ≤ count_on target l :=
  List.filter_sublist.countP_le

theorem stored_bytes_delete (team_id : Uuid) (p : Attachment → Bool) (l : List Attachment) :
    stored_bytes team_id (delete p l) ≤ stored_bytes team_id l := by
  have hsub := ((List.filter_sublist (p := fun a => !p a) (l := l)).filter
    fun a => a.team_id == team_id).map Attachment.size_bytes
  exact hsub.sum_le_sum fun _ _ => Nat.zero_le _

/-- Rows of one target are counted there only. -/
theorem count_on_rows {target target' : Target} (h : ∀ r ∈ rows, r.target = target) :
    count_on target' rows = if target = target' then rows.length else 0 := by
  split
  · rename_i heq
    refine List.countP_eq_length.mpr fun r hr => ?_
    simpa [h r hr] using heq
  · rename_i hne
    refine List.countP_eq_zero.mpr fun r hr => ?_
    simpa [h r hr] using hne

/-- Rows of another team add nothing. -/
theorem stored_bytes_rows {other : Uuid}
    (h : ∀ r ∈ rows, r.team_id = other) (hne : other ≠ team_id) : stored_bytes team_id rows = 0 := by
  have hnone : rows.filter (fun a => a.team_id == team_id) = [] := by
    refine List.filter_eq_nil_iff.mpr fun r hr => ?_
    simpa [h r hr] using hne
  rw [stored_bytes, hnone]
  rfl

/-- What holds of an open upload. -/
structure Sound (s : Sys) (x : Upload) : Prop where
  target : ∀ m, x.target = .message m → m < s.next_message
  rows : ∀ r ∈ x.rows, r.target = x.target ∧ r.team_id = x.auth.team_id
  early : x.stage = .found ∨ x.stage = .locked → x.rows = [] ∧ x.files.length = 1
  /-- Once its files are counted there is room for those that are to come. -/
  room : x.stage ≠ .found → x.stage ≠ .locked →
    count_on x.target s.db.attachments + x.rows.length + x.files.length ≤ MAX_ATTACHMENTS_PER_TARGET
  team : x.rows ≠ [] ∨ x.stage = .charged ∨ (∃ l, x.stage = .limited l) → x.team_locked = true
  limit : ∀ l, x.stage = .limited l → s.db.attachment_bytes_limit x.auth.team_id = l

/-- The invariant of the locks. -/
structure Locked (s : Sys) : Prop where
  sound : ∀ x ∈ s.txs, Sound s x
  targets : ∀ x ∈ s.txs, ∀ y ∈ s.txs, x.xid ≠ y.xid → x.holds = true → y.holds = true →
    x.target ≠ y.target
  teams : ∀ x ∈ s.txs, ∀ y ∈ s.txs, x.xid ≠ y.xid → x.team_locked = true → y.team_locked = true →
    x.auth.team_id ≠ y.auth.team_id
  count : ∀ target, count_on target s.db.attachments ≤ MAX_ATTACHMENTS_PER_TARGET
  attached : ∀ a ∈ s.db.attachments, ∀ m, a.target = .message m → m < s.next_message

theorem holds_iff : x.holds = true ↔ x.stage ≠ .found := by
  simp [Upload.holds]

/-- What an upload relies on: the files on what it has locked grow by nobody else, and so the
limit of the team it has locked stays. -/
theorem Sound.frame (hx : Sound s x) (hn : s.next_message ≤ t.next_message)
    (hcount : x.holds = true → count_on x.target t.db.attachments ≤ count_on x.target s.db.attachments)
    (hlimit : x.team_locked = true → t.db.attachment_bytes_limit x.auth.team_id =
      s.db.attachment_bytes_limit x.auth.team_id) : Sound t x := by
  refine ⟨fun m hm => (hx.target m hm).trans_le hn, hx.rows, hx.early, fun hfound hlocked => ?_, hx.team,
    fun l hl => ?_⟩
  · have hroom := hx.room hfound hlocked
    have hle := hcount (holds_iff.mpr hfound)
    omega
  · rw [hlimit (hx.team (Or.inr (Or.inr ⟨l, hl⟩)))]
    exact hx.limit l hl

/-- One upload goes on, and nobody else notices. -/
theorem Locked.put (hs : Locked s) (hx : x ∈ s.txs) (hy : Sound s y) (hxid : y.xid = x.xid)
    (htarget : y.target = x.target) (hteam : y.auth = x.auth) (htargets : y.holds = true → x.holds = true ∨
      ∀ z ∈ s.txs, z.xid ≠ x.xid → z.holds = true → z.target ≠ x.target)
    (hteams : y.team_locked = true → x.team_locked = true ∨
      ∀ z ∈ s.txs, z.xid ≠ x.xid → z.team_locked = true → z.auth.team_id ≠ x.auth.team_id) :
    Locked { s.put y with next_attachment := n } := by
  -- what keeps the upload from another one
  have hapart : ∀ z ∈ s.txs, z.xid ≠ y.xid → y.holds = true → z.holds = true → z.target ≠ y.target := by
    intro z hz hne hyh hzh
    rw [htarget]
    rw [hxid] at hne
    rcases htargets hyh with hxh | hfree
    · exact hs.targets z hz x hx hne hzh hxh
    · exact hfree z hz hne hzh
  have hapart' : ∀ z ∈ s.txs, z.xid ≠ y.xid → y.team_locked = true → z.team_locked = true →
      z.auth.team_id ≠ y.auth.team_id := by
    intro z hz hne hyl hzl
    rw [hteam]
    rw [hxid] at hne
    rcases hteams hyl with hxl | hfree
    · exact hs.teams z hz x hx hne hzl hxl
    · exact hfree z hz hne hzl
  refine ⟨fun z hz => ?_, fun z hz w hw hne hzh hwh => ?_, fun z hz w hw hne hzl hwl => ?_, hs.count,
    hs.attached⟩
  · rcases mem_put hz with rfl | ⟨hz, -⟩
    · exact hy.frame (Nat.le_refl _) (fun _ => Nat.le_refl _) fun _ => rfl
    · exact (hs.sound z hz).frame (Nat.le_refl _) (fun _ => Nat.le_refl _) fun _ => rfl
  · rcases mem_put hz with rfl | ⟨hz', hzne⟩
    · rcases mem_put hw with rfl | ⟨hw', hwne⟩
      · exact absurd rfl hne
      · exact (hapart w hw' hwne hzh hwh).symm
    · rcases mem_put hw with rfl | ⟨hw', -⟩
      · exact hapart z hz' hzne hwh hzh
      · exact hs.targets z hz' w hw' hne hzh hwh
  · rcases mem_put hz with rfl | ⟨hz', hzne⟩
    · rcases mem_put hw with rfl | ⟨hw', hwne⟩
      · exact absurd rfl hne
      · exact (hapart' w hw' hwne hzl hwl).symm
    · rcases mem_put hw with rfl | ⟨hw', -⟩
      · exact hapart' z hz' hzne hwl hzl
      · exact hs.teams z hz' w hw' hne hzl hwl

/-- An upload is opened: it holds nothing yet, or a message that was nobody's. -/
theorem Locked.opened (hs : Locked s) (hn : s.next_message ≤ n) (hxid : ∀ y ∈ s.txs, y.xid ≠ x.xid)
    (hx : Sound { s with next_message := n } x) (hteam : x.team_locked = false)
    (hheld : x.holds = true → ∀ y ∈ s.txs, y.target ≠ x.target) :
    Locked { s.opened x with next_message := n } := by
  have hcases : ∀ y ∈ s.txs ++ [x], y ∈ s.txs ∨ y = x := by
    intro y hy
    rcases List.mem_append.mp hy with hy | hy
    · exact Or.inl hy
    · exact Or.inr (List.mem_singleton.mp hy)
  refine ⟨fun y hy => ?_, fun y hy z hz hne hyh hzh => ?_, fun y hy z hz hne hyl hzl => ?_, hs.count,
    fun r hr m hm => (hs.attached r hr m hm).trans_le hn⟩
  · rcases hcases y hy with hy | rfl
    · exact (hs.sound y hy).frame hn (fun _ => Nat.le_refl _) fun _ => rfl
    · exact hx.frame (Nat.le_refl _) (fun _ => Nat.le_refl _) fun _ => rfl
  · rcases hcases y hy with hy' | rfl
    · rcases hcases z hz with hz' | rfl
      · exact hs.targets y hy' z hz' hne hyh hzh
      · exact hheld hzh y hy'
    · rcases hcases z hz with hz' | rfl
      · exact (hheld hyh z hz').symm
      · exact absurd rfl hne
  · rcases hcases y hy with hy' | rfl
    · rcases hcases z hz with hz' | rfl
      · exact hs.teams y hy' z hz' hne hyl hzl
      · rw [hteam] at hzl
        cases hzl
    · rw [hteam] at hyl
      cases hyl

/-- Uploads end, and what is there changes by as much as the others can bear. -/
theorem Locked.ended (hs : Locked s) (hn : s.next_message = t.next_message) (htxs : ∀ y ∈ t.txs, y ∈ s.txs)
    (hcount : ∀ y ∈ t.txs, y.holds = true →
      count_on y.target t.db.attachments ≤ count_on y.target s.db.attachments)
    (hlimit : ∀ y ∈ t.txs, y.team_locked = true → t.db.attachment_bytes_limit y.auth.team_id =
      s.db.attachment_bytes_limit y.auth.team_id)
    (hall : ∀ target, count_on target t.db.attachments ≤ MAX_ATTACHMENTS_PER_TARGET)
    (hattached : ∀ a ∈ t.db.attachments, ∀ m, a.target = .message m → m < s.next_message) : Locked t :=
  ⟨fun y hy => (hs.sound y (htxs y hy)).frame hn.le (hcount y hy) (hlimit y hy),
    fun y hy z hz => hs.targets y (htxs y hy) z (htxs z hz),
    fun y hy z hz => hs.teams y (htxs y hy) z (htxs z hz), hall,
    fun a ha m hm => (hattached a ha m hm).trans_eq hn⟩

theorem mem_message_ids {m : Message} (hm : m ∈ db.messages) : RowId.message m.id ∈ db.row_ids :=
  List.mem_append_right _ (List.mem_map.mpr ⟨m, hm, rfl⟩)

/-- A message is posted: no upload has it, and there is room for its files. -/
theorem Locked.posts (hs : Locked s) (hxids : ∀ y ∈ s.txs, y.xid ≠ s.next_xid) {auth : AuthCtx}
    {target : Messaging.Target} {body : String} (hlen : files.length ≤ MAX_ATTACHMENTS_PER_TARGET) :
    Locked { s.opened (s.posting auth target body files) with next_message := s.next_message + 1 } := by
  have hnew : count_on (.message s.next_message) s.db.attachments = 0 := by
    refine List.countP_eq_zero.mpr fun r hr hp => ?_
    have hlt := hs.attached r hr s.next_message (by simpa using hp)
    omega
  refine hs.opened (Nat.le_succ _) hxids ⟨fun m hm => ?_, ?_, fun hor => ?_, fun _ _ => ?_, ?_, ?_⟩ rfl ?_
  · have hid : s.next_message = m := by simpa [Sys.posting] using hm
    rw [← hid]
    exact Nat.lt_succ_self _
  · exact fun r hr => absurd hr List.not_mem_nil
  · exact absurd hor (by simp [Sys.posting])
  · have hzero : count_on (.message s.next_message) s.db.attachments + 0 + files.length ≤
        MAX_ATTACHMENTS_PER_TARGET := by omega
    exact hzero
  · exact fun hor => absurd hor (by simp [Sys.posting])
  · exact fun l hl => absurd hl (by simp [Sys.posting])
  · intro _ y hy heq
    have hlt := (hs.sound y hy).target s.next_message heq
    omega

/-- A file is inserted: it takes of the room that was counted. -/
theorem Locked.inserts (hs : Locked s) {f : NewAttachment} {fs : List NewAttachment} (hx : x ∈ s.txs)
    (hst : x.stage = .charged) (hfiles : x.files = f :: fs) :
    Locked { s.put { x with
      rows := x.rows ++ [x.row f s.next_attachment], files := fs, stage := .counted } with
        next_attachment := s.next_attachment + 1 } := by
  have hso := hs.sound x hx
  have hteam := hso.team (Or.inr (Or.inl hst))
  refine hs.put hx ⟨hso.target, fun r hr => ?_, fun hor => ?_, fun _ _ => ?_, fun _ => hteam,
    fun l hl => ?_⟩ rfl rfl rfl (fun _ => Or.inl ?_) fun _ => Or.inl hteam
  · rcases List.mem_append.mp hr with hr | hr
    · exact hso.rows r hr
    · rw [List.mem_singleton.mp hr]
      exact ⟨rfl, rfl⟩
  · exact nomatch hor
  · have hroom := hso.room (by simp [hst]) (by simp [hst])
    rw [hfiles, List.length_cons] at hroom
    show count_on x.target s.db.attachments + (x.rows ++ [x.row f s.next_attachment]).length +
      fs.length ≤ _
    rw [List.length_append, List.length_singleton]
    omega
  · cases hl
  · rw [holds_iff, hst]
    simp

/-- An upload commits: nobody else holds its target, and its rows were counted. -/
theorem Locked.commits (hs : Locked s) (hx : x ∈ s.txs) (hst : x.stage = .counted) :
    Locked (s.committed x) := by
  have hso := hs.sound x hx
  have hown : ∀ r ∈ x.rows, r.target = x.target := fun r hr => (hso.rows r hr).1
  refine hs.ended rfl (fun y hy => (mem_others hy).1) (fun y hy hholds => ?_) (fun _ _ _ => rfl)
    (fun target => ?_) fun r hr m hm => ?_
  · obtain ⟨hy, hne⟩ := mem_others hy
    have hxh : x.holds = true := by
      rw [holds_iff, hst]
      simp
    rw [Sys.committed, count_on_append, count_on_rows hown,
      if_neg (hs.targets x hx y hy (Ne.symm hne) hxh hholds)]
    exact Nat.le_refl _
  · rw [Sys.committed, count_on_append, count_on_rows hown]
    split
    · rename_i heq
      have hroom := hso.room (by simp [hst]) (by simp [hst])
      rw [heq] at hroom
      omega
    · exact hs.count target
  · rcases List.mem_append.mp hr with hr | hr
    · exact hs.attached r hr m hm
    · exact hso.target m ((hown r hr).symm.trans hm)

theorem Locked.step (hs : Locked s) (hi : Ids s) (h : Did s a t) : Locked t := by
  have hxids : ∀ y ∈ s.txs, y.xid ≠ s.next_xid := fun y hy => (hi.below y hy).ne
  cases h with
  | quiet => exact hs
  | @uploads _ auth target f hhas =>
    refine hs.opened (Nat.le_refl _) hxids ⟨fun m hm => ?_, ?_, fun _ => ⟨rfl, rfl⟩, fun hne => ?_, ?_, ?_⟩
      rfl ?_
    · -- a message that is found was inserted before
      have htarget : target = .message m := hm
      rw [htarget] at hhas
      simp only [has, List.any_eq_true, beq_iff_eq] at hhas
      obtain ⟨msg, hmsg, rfl⟩ := hhas
      exact hi.drawn _ (mem_message_ids hmsg)
    · exact fun r hr => absurd hr List.not_mem_nil
    · exact absurd rfl hne
    · exact fun hor => absurd hor (by simp [Sys.upload])
    · exact fun l hl => absurd hl (by simp [Sys.upload])
    · exact fun hh => absurd hh (by simp [Upload.holds, Sys.upload])
  | posts hlen => exact hs.posts hxids hlen
  | @locked _ x hx hst hfree =>
    have hso := hs.sound x hx
    refine hs.put hx ⟨hso.target, hso.rows, fun _ => hso.early (Or.inl hst), fun _ hne => ?_, fun hor => ?_,
      fun l hl => ?_⟩ rfl rfl rfl (fun _ => Or.inr hfree) fun hl => Or.inl hl
    · exact absurd rfl hne
    · refine hso.team ?_
      rcases hor with hrows | hch | ⟨l, hl⟩
      · exact Or.inl hrows
      · cases hch
      · cases hl
    · cases hl
  | @counted _ x hx hst hroom =>
    have hso := hs.sound x hx
    obtain ⟨hrows, hone⟩ := hso.early (Or.inr hst)
    refine hs.put hx ⟨hso.target, hso.rows, fun hor => ?_, fun _ _ => ?_, fun hor => ?_, fun l hl => ?_⟩
      rfl rfl rfl (fun _ => Or.inl ?_) fun hl => Or.inl hl
    · exact nomatch hor
    · -- the one file still fits
      rw [hrows, List.append_nil] at hroom
      show count_on x.target s.db.attachments + x.rows.length + x.files.length ≤ _
      rw [hrows, hone, List.length_nil]
      omega
    · rcases hor with hne | hch | ⟨l, hl⟩
      · exact absurd hrows hne
      · cases hch
      · cases hl
    · cases hl
    · rw [holds_iff, hst]
      simp
  | @limited _ x hx hst hfree =>
    have hso := hs.sound x hx
    refine hs.put hx ⟨hso.target, hso.rows, fun hor => ?_, fun _ _ => ?_, fun _ => rfl, fun l hl => ?_⟩
      rfl rfl rfl (fun _ => Or.inl ?_) fun _ => Or.inr hfree
    · exact nomatch hor
    · exact hso.room (by simp [hst]) (by simp [hst])
    · simpa using hl
    · rw [holds_iff, hst]
      simp
  | @charged _ x limit f fs hx hst hfiles hroom =>
    have hso := hs.sound x hx
    have hteam := hso.team (Or.inr (Or.inr ⟨limit, hst⟩))
    refine hs.put hx ⟨hso.target, hso.rows, fun hor => ?_, fun _ _ => ?_, fun _ => hteam, fun l hl => ?_⟩
      rfl rfl rfl (fun _ => Or.inl ?_) fun _ => Or.inl hteam
    · exact nomatch hor
    · exact hso.room (by simp [hst]) (by simp [hst])
    · cases hl
    · rw [holds_iff, hst]
      simp
  | inserted hx hst hfiles => exact hs.inserts hx hst hfiles
  | @refused _ x hx =>
    exact hs.ended rfl (fun y hy => (mem_others hy).1) (fun _ _ _ => Nat.le_refl _) (fun _ _ _ => rfl)
      hs.count hs.attached
  | committed hx hst _ => exact hs.commits hx hst
  | pruned =>
    exact hs.ended rfl (fun y hy => hy) (fun y _ _ => count_on_delete _ _ _) (fun _ _ _ => rfl)
      (fun target => (count_on_delete _ _ _).trans (hs.count target))
      fun r hr => hs.attached r (mem_delete.mp hr).1
  | @quota team_id bytes _ hfree =>
    refine hs.ended rfl (fun y hy => hy) (fun _ _ _ => Nat.le_refl _) (fun y hy hlocked => ?_) hs.count
      hs.attached
    exact Function.update_of_ne (hfree y hy hlocked) _ _
  | other =>
    exact hs.ended rfl (fun y hy => hy) (fun _ _ _ => Nat.le_refl _) (fun _ _ _ => rfl) hs.count hs.attached

/-! ### How many bytes -/

/-- The size of the file an upload has been charged for and not inserted. -/
def Upload.pending (x : Upload) : ℕ :=
  if x.stage = .charged then (x.files.head?.map fun f => f.data.length).getD 0 else 0

/-- The team is within its limit, and so is who has locked it, with what is inserted and
charged. -/
structure Room (team_id : Uuid) (s : Sys) : Prop where
  within : WithinQuota team_id s.db
  room : ∀ x ∈ s.txs, x.auth.team_id = team_id → x.team_locked = true →
    ∀ limit, s.db.attachment_bytes_limit team_id = some limit →
      stored_bytes team_id (s.db.attachments ++ x.rows) + x.pending ≤ limit

/-- One upload goes on. -/
theorem Room.put (hs : Room team_id s) (hy : y.auth.team_id = team_id → y.team_locked = true →
      ∀ limit, s.db.attachment_bytes_limit team_id = some limit →
        stored_bytes team_id (s.db.attachments ++ y.rows) + y.pending ≤ limit) :
    Room team_id { s.put y with next_attachment := n } := by
  refine ⟨hs.within, fun z hz => ?_⟩
  rcases mem_put hz with rfl | ⟨hz, -⟩
  · exact hy
  · exact hs.room z hz

theorem Room.opened (hs : Room team_id s) (hx : x.team_locked = false) :
    Room team_id { s.opened x with next_message := n } := by
  refine ⟨hs.within, fun y hy hteam hlocked => ?_⟩
  rcases List.mem_append.mp hy with hy | hy
  · exact hs.room y hy hteam hlocked
  · rw [List.mem_singleton.mp hy, hx] at hlocked
    cases hlocked

theorem Room.step (hs : Room team_id s) (hl : Locked s) (hlow : lowers team_id s a = false)
    (h : Did s a t) : Room team_id t := by
  cases h with
  | quiet => exact hs
  | uploads | posts => exact hs.opened rfl
  | @locked _ x hx hst | @counted _ x hx hst =>
    refine hs.put fun hteam hlocked limit hlimit => ?_
    have hroom := hs.room x hx hteam hlocked limit hlimit
    rw [Upload.pending, hst, if_neg (by simp)] at hroom
    rw [Upload.pending, if_neg (by simp)]
    exact hroom
  | @limited _ x hx hst =>
    refine hs.put fun hteam _ limit hlimit => ?_
    rw [Upload.pending, if_neg (by simp)]
    by_cases hlocked : x.team_locked = true
    · have hroom := hs.room x hx hteam hlocked limit hlimit
      rw [Upload.pending, hst, if_neg (by simp)] at hroom
      exact hroom
    · -- it has inserted nothing yet
      have hrows : x.rows = [] := by
        by_contra hne
        exact hlocked ((hl.sound x hx).team (Or.inl hne))
      rw [hrows, List.append_nil]
      exact hs.within limit hlimit
  | @charged _ x l f fs hx hst hfiles hfits =>
    refine hs.put fun hteam hlocked limit hlimit => ?_
    have hteam' : x.auth.team_id = team_id := hteam
    have hread := (hl.sound x hx).limit l hst
    rw [hteam', hlimit] at hread
    rw [← hread, hteam'] at hfits
    simp only [exceeds, Option.any_some, decide_eq_false_iff_not, not_lt] at hfits
    rw [Upload.pending, if_pos rfl, hfiles]
    exact hfits
  | @inserted _ x f fs hx hst hfiles =>
    refine hs.put fun hteam hlocked limit hlimit => ?_
    have hteam' : x.auth.team_id = team_id := hteam
    have hroom := hs.room x hx hteam hlocked limit hlimit
    rw [Upload.pending, if_pos hst, hfiles] at hroom
    rw [Upload.pending, if_neg (by simp)]
    -- what was charged is now inserted
    have hrow : stored_bytes team_id [x.row f s.next_attachment] = f.data.length := by
      simp [stored_bytes, Upload.row, hteam']
    show stored_bytes team_id (s.db.attachments ++ (x.rows ++ [x.row f s.next_attachment])) + 0 ≤ limit
    rw [← List.append_assoc, stored_bytes_append, hrow]
    exact hroom
  | refused => exact ⟨hs.within, fun y hy => hs.room y (mem_others hy).1⟩
  | @committed xid x hx hst hfiles =>
    have hso := hl.sound x hx
    by_cases hteam : x.auth.team_id = team_id
    · by_cases hlocked : x.team_locked = true
      · refine ⟨fun limit hlimit => ?_, fun y hy hyteam hylocked => ?_⟩
        · have hroom := hs.room x hx hteam hlocked limit hlimit
          exact le_of_add_le_left hroom
        · -- nobody else has the team locked
          obtain ⟨hy, hne⟩ := mem_others hy
          exact absurd (hteam.trans hyteam.symm) (hl.teams x hx y hy (Ne.symm hne) hlocked hylocked)
      · have hrows : x.rows = [] := by
          by_contra hne
          exact hlocked (hso.team (Or.inl hne))
        refine ⟨?_, fun y hy => ?_⟩
        · rw [Sys.committed, WithinQuota, hrows, List.append_nil]
          exact hs.within
        · rw [Sys.committed, hrows, List.append_nil]
          exact hs.room y (mem_others hy).1
    · have hzero := stored_bytes_rows (fun r hr => (hso.rows r hr).2) hteam
      refine ⟨fun limit hlimit => ?_, fun y hy hyteam hylocked limit hlimit => ?_⟩
      · rw [Sys.committed, stored_bytes_append, hzero]
        exact hs.within limit hlimit
      · have hroom := hs.room y (mem_others hy).1 hyteam hylocked limit hlimit
        rw [stored_bytes_append] at hroom
        rw [Sys.committed, stored_bytes_append, stored_bytes_append, hzero]
        exact hroom
  | @pruned team old _ =>
    have hless : stored_bytes team_id (after_prune team old s.db).attachments ≤
        stored_bytes team_id s.db.attachments := stored_bytes_delete _ _ _
    refine ⟨fun limit hlimit => ?_, fun y hy hteam hlocked limit hlimit => ?_⟩
    · exact hless.trans (hs.within limit hlimit)
    · have hroom := hs.room y hy hteam hlocked limit hlimit
      rw [stored_bytes_append] at hroom ⊢
      refine le_trans (Nat.add_le_add_right (Nat.add_le_add_right ?_ _) _) hroom
      exact hless
  | @quota team bytes hpos hfree =>
    by_cases heq : team = team_id
    · subst heq
      refine ⟨fun limit hlimit => ?_, fun y hy hteam hlocked => absurd hteam (hfree y hy hlocked)⟩
      have hnew : bytes.map Int.toNat = some limit := (Function.update_self team _ _).symm.trans hlimit
      obtain ⟨b, rfl, rfl⟩ := Option.map_eq_some_iff.mp hnew
      -- a limit that is not lower: there was one, and it was no higher
      simp only [lowers, beq_self_eq_true, Bool.true_and, hpos b rfl, decide_true,
        Option.all_eq_false, decide_eq_false_iff_not, not_lt] at hlow
      obtain ⟨old, hold, hle⟩ := hlow
      exact (hs.within old hold).trans hle
    · have hsame : (s.db.with_limit team (bytes.map Int.toNat)).attachment_bytes_limit team_id =
          s.db.attachment_bytes_limit team_id := Function.update_of_ne (Ne.symm heq) _ _
      refine ⟨fun limit hlimit => ?_, fun y hy hteam hlocked limit hlimit => ?_⟩
      · exact hs.within limit (hsame.symm.trans hlimit)
      · exact hs.room y hy hteam hlocked limit (hsame.symm.trans hlimit)
  | other => exact ⟨hs.within, hs.room⟩

end Steps

/-! ## The law of a run -/

/-- A state with no upload open, in which nothing has more files than it may. -/
structure Start (s : Sys) : Prop where
  txs : s.txs = []
  refused : s.refused = []
  drawn : ∀ k ∈ s.db.row_ids, Drawn s k
  attached : ∀ a ∈ s.db.attachments, ∀ m, a.target = .message m → m < s.next_message
  count : ∀ a ∈ s.db.attachments, count_on a.target s.db.attachments ≤ MAX_ATTACHMENTS_PER_TARGET

section Law

variable {decode : String → Option (List UInt8)} {s t : Sys} {a : Act}

theorem Start.ids (h : Start s) : Ids s := by
  have htxs : ∀ x, x ∉ s.txs := by
    rw [h.txs]
    exact fun x => List.not_mem_nil
  have href : ∀ x, x ∉ s.refused := by
    rw [h.refused]
    exact fun x => List.not_mem_nil
  refine ⟨?_, fun x hx => absurd hx (htxs x), h.drawn, fun x hx => absurd hx (htxs x),
    fun x hx => absurd hx (href x), fun x hx => absurd hx (htxs x), fun x hx => absurd hx (href x),
    fun x hx => absurd hx (htxs x), fun x hx => absurd hx (href x)⟩
  rw [h.txs]
  exact .nil _

theorem Start.locked (h : Start s) : Locked s := by
  refine ⟨?_, ?_, ?_, fun target => ?_, h.attached⟩
  · rw [h.txs]
    exact fun x hx => absurd hx List.not_mem_nil
  · rw [h.txs]
    exact fun x hx => absurd hx List.not_mem_nil
  · rw [h.txs]
    exact fun x hx => absurd hx List.not_mem_nil
  · by_cases hany : ∃ a ∈ s.db.attachments, a.target = target
    · obtain ⟨a, ha, rfl⟩ := hany
      exact h.count a ha
    · have hnone : count_on target s.db.attachments = 0 :=
        List.countP_eq_zero.mpr fun a ha hp => hany ⟨a, ha, by simpa using hp⟩
      omega

theorem Start.room (h : Start s) {team_id : Uuid} (hw : WithinQuota team_id s.db) : Room team_id s := by
  refine ⟨hw, ?_⟩
  rw [h.txs]
  exact fun x hx => absurd hx List.not_mem_nil

theorem shown_step (h : Did s a t) (hw : writes a = false) : t.db.row_ids = s.db.row_ids := by
  cases h with
  | committed | pruned => exact absurd hw (by simp [writes])
  | other hsame => simp only [FileDb.row_ids, hsame]
  | _ => rfl

theorem ended_step (hi : Ids s) (h : Did s a t) {x : Upload} (hx : x ∈ s.txs) :
    (∃ y ∈ t.txs, y.xid = x.xid) ∨ x ∈ t.refused ∨
      x.files = [] ∧ ∀ k ∈ x.row_ids, k ∈ t.db.row_ids := by
  have hput : ∀ {z y : Upload}, y.xid = z.xid → ∃ w ∈ (s.put y).txs, w.xid = x.xid := by
    intro z y hxid
    refine ⟨_, mem_update_of_mem hx, ?_⟩
    split
    · rename_i heq
      exact (beq_iff_eq.mp heq).symm
    · rfl
  have hrest : ∀ {y : Upload}, y.xid ≠ x.xid →
      ∃ w ∈ delete (fun z => z.xid == y.xid) s.txs, w.xid = x.xid := by
    intro y hne
    exact ⟨x, mem_delete.mpr ⟨hx, by simpa using hne.symm⟩, rfl⟩
  cases h with
  | quiet | pruned | quota | other => exact Or.inl ⟨x, hx, rfl⟩
  | uploads | posts => exact Or.inl ⟨x, List.mem_append_left _ hx, rfl⟩
  | @locked _ z | @counted _ z | @limited _ z | @charged _ z | @inserted _ z => exact Or.inl (hput (z := z) rfl)
  | @refused _ y hy =>
    by_cases heq : y.xid = x.xid
    · obtain rfl := hi.xids.eq hy hx heq
      exact Or.inr (Or.inl List.mem_cons_self)
    · exact Or.inl (hrest heq)
  | @committed _ y hy _ hfiles =>
    by_cases heq : y.xid = x.xid
    · obtain rfl := hi.xids.eq hy hx heq
      exact Or.inr (Or.inr ⟨hfiles, fun k hk => mem_committed_row_ids.mpr (Or.inr hk)⟩)
    · exact Or.inl (hrest heq)

/-- **Quotas hold under concurrency**, in every run of uploads, retention and changes of the
quota: a team whose limit is not lowered stays within it, nothing has more files than it may,
and a call that is refused leaves nothing. -/
theorem attachment_quotas_hold {s₀ : Sys} (hstart : Start s₀) {tr : List (Trans Sys Act)}
    (h : Run (Rel (step decode)) s₀ tr s) : QuotaLaw s₀ tr s := by
  have hkeep : ∀ s a t, Ids s ∧ Locked s → Rel (step decode) s a t → Ids t ∧ Locked t :=
    fun s a t hs hr => ⟨hs.1.step (step_did hr), hs.2.step hs.1 (step_did hr)⟩
  obtain ⟨hids, hlocked⟩ := h.invariant' (I := fun s => Ids s ∧ Locked s) ⟨hstart.ids, hstart.locked⟩ hkeep
  have hpre := h.invariant_pre (I := fun s => Ids s ∧ Locked s) (C := fun _ _ => True)
    ⟨hstart.ids, hstart.locked⟩ (fun s a t hs _ hr => hkeep s a t hs hr) fun _ _ => trivial
  refine ⟨fun team_id hlow hw => ?_, hlocked.count, hids.refused, fun e he hsilent => ?_,
    fun e he x hx => ?_⟩
  · have hroom := h.invariant (I := fun s => (Ids s ∧ Locked s) ∧ Room team_id s)
      (C := fun s a => lowers team_id s a = false) ⟨⟨hstart.ids, hstart.locked⟩, hstart.room hw⟩
      (fun s a t hs hc hr => ⟨hkeep s a t hs.1 hr, hs.2.step hs.1.2 hc (step_did hr)⟩) hlow
    exact hroom.2.within
  · exact shown_step (step_did (h.rel e he)) hsilent
  · exact ended_step (hpre e he).1 (step_did (h.rel e he)) hx

end Law

/-! ## A run -/

/-- A file of two bytes. -/
def hi_txt : AttachmentInput := ⟨"hi.txt", none, "aGk="⟩

/-- Base64, of the one text that occurs. -/
def decode_hi (text : String) : Option (List UInt8) := if text = "aGk=" then some [104, 105] else none

/-- A crew with one task that may store five bytes. -/
def crew : Sys where
  db := { TaskClaims.board with
    tasks := [task_row 0 (TaskClaims.worker 1 "ada") "build" "Build" none 1]
    attachment_bytes_limit := fun _ => some 5 }
  txs := []
  refused := []
  next_xid := 0
  next_message := 1
  next_attachment := 1

/-- Ada uploads to the task and posts a message with a file, Bob uploads to the task as well.
His upload waits for hers and for the team, and its two bytes are two too many. -/
def rush : List Act :=
  [.attach_to_task (TaskClaims.worker 1 "ada") "build" hi_txt,
    .attach_to_task (TaskClaims.worker 2 "bob") " build" hi_txt,
    .lock 0, .count 0, .limit 0, .sum 0, .insert 0,
    .post_message 0 (TaskClaims.worker 1 "ada") (.direct 2 none) "see the file" [hi_txt],
    .commit 0, .lock 1, .count 1, .limit 2, .sum 2, .insert 2, .commit 2, .limit 1, .sum 1]

theorem rush_run : (exec (step decode_hi) crew rush).isSome = true := by decide

theorem attachment_quotas_hold_rush :
    QuotaLaw crew ((exec (step decode_hi) crew rush).get rush_run).1
      ((exec (step decode_hi) crew rush).get rush_run).2 :=
  attachment_quotas_hold
    ⟨rfl, rfl, fun _ hk => absurd hk List.not_mem_nil, fun _ ha => absurd ha List.not_mem_nil,
      fun _ ha => absurd ha List.not_mem_nil⟩ (exec_get rush_run)

end CrewSync.Attachments
