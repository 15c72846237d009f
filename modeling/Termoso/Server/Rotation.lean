import Termoso.Server.Db
import Termoso.Lib.Threads

/-!
# Rotation jobs

A job asks for a secret of a vault to be replaced.  The server only keeps the status of the job:
members report that they started it and how it ended, in requests that each run statement by
statement between those of the others.
-/

namespace Termoso.Server

/-- Kinds whose age is governed by the age of keys. -/
def KEY_KINDS : List String := ["ssh_key", "ssh_certificate"]

/-- Kinds whose age is governed by the age of passwords. -/
def PASSWORD_KINDS : List String := ["identity", "host"]

inductive JobStatus
  | pending
  | running
  | done
  | failed
  | cancelled
deriving DecidableEq

namespace JobStatus

/-- A status by its text. -/
def ofText (s : String) : Option JobStatus :=
  if s = "pending" then some pending
  else if s = "running" then some running
  else if s = "done" then some done
  else if s = "failed" then some failed
  else if s = "cancelled" then some cancelled
  else none

/-- Whether a job has reached its end. -/
def finished (s : JobStatus) : Bool := decide (s = done ∨ s = failed ∨ s = cancelled)

end JobStatus

structure RotationJob where
  id : Uuid
  teamId : Uuid
  vaultId : Uuid
  entityId : Uuid
  entityKind : String
  status : JobStatus
  note : String
  error : Option String
  requestedBy : Uuid
  claimedBy : Option Uuid
  createdAt : DateTime
  updatedAt : DateTime
  finishedAt : Option DateTime
deriving DecidableEq

instance : Keyed RotationJob Uuid := ⟨RotationJob.id⟩

@[simp] theorem key_rotationJob (j : RotationJob) : key j = j.id := rfl

structure CreateRotationJobsRequest where
  vaultId : Uuid
  entityIds : List Uuid
  note : String

structure UpdateRotationJobRequest where
  status : String
  error : Option String
deriving DecidableEq

/-- The database with its jobs. `locks` gives the thread whose transaction has written a job and not
ended. -/
structure JobDb where
  db : Db
  jobs : Table RotationJob
  locks : Uuid → Option ℕ

/-- Membership that holds a permission of a team. -/
def Db.require (db : Db) (teamId userId : Uuid) (perm : String) : Except Error Unit :=
  match (db.teamMembers.get? (teamId, userId)).bind (fun m => m.permissions.map (fun p => (m, p))) with
  | none => .error (.notFound "Team")
  | some (m, perms) =>
    if m.role = "owner" ∨ "*" ∈ perms ∨ perm ∈ perms then .ok ()
    else .error (.forbidden s!"This needs the {perm} permission in the team")

/-! ### Creating jobs -/

/-- The live entities of a vault whose secrets are rotated, among those asked for. -/
def Db.rotatable (db : Db) (req : CreateRotationJobsRequest) : List SyncEntity :=
  db.entities.select (fun e => decide (e.vaultId = req.vaultId) && decide (e.id ∈ req.entityIds)
    && !e.deleted && decide (e.kind ∈ KEY_KINDS ++ PASSWORD_KINDS))

/-- Whether an entity has a job that has not finished, besides the job `id`. -/
def JobDb.hasOpenJob (s : JobDb) (entityId : Uuid) (id : Option Uuid) : Bool :=
  s.jobs.rows.any (fun j =>
    decide (j.entityId = entityId) && !j.status.finished && decide (some j.id ≠ id))

/-- Insert a job for each entity that has no open one, under new identifiers. -/
def insertJobs (teamId userId : Uuid) (note : String) (now : DateTime) :
    JobDb → List (SyncEntity × Uuid) → Except Error JobDb
  | s, [] => .ok s
  | s, (e, id) :: targets =>
    if s.hasOpenJob e.id none then insertJobs teamId userId note now s targets
    else
      match s.jobs.insert ⟨id, teamId, e.vaultId, e.id, e.kind, .pending, note, none, userId, none, now,
          now, none⟩ with
      | none => .error .internal
      | some jobs => insertJobs teamId userId note now { s with jobs } targets

/-- Queue rotation of the given entities. `fresh` are the identifiers the database draws. -/
def createJobs (s : JobDb) (auth : Auth) (teamId : Uuid) (req : CreateRotationJobsRequest)
    (now : DateTime) (fresh : List Uuid) : Except Error JobDb := do
  s.db.require teamId auth.userId "rotation.manage"
  if req.entityIds = [] ∨ req.entityIds.length > 1000 then
    throw (.badRequest "entity_ids must hold 1..=1000 ids")
  if (trim req.note).length > 500 then
    throw (.tooLarge "Notes are limited to 500 characters")
  if !(s.db.vaults.get? req.vaultId).any (fun v =>
      decide (v.teamId = some teamId) && decide (v.kind = .team)) then
    throw (.notFound "Team vault")
  let targets := s.db.rotatable req
  if targets.length ≠ req.entityIds.length then
    throw (.badRequest "Every entity must be a live identity, key, certificate or host of that vault")
  insertJobs teamId auth.userId (trim req.note) now s (targets.zip fresh)

/-! ### Updating a job -/

/-- An update of a job. -/
structure UpdateCall where
  auth : Auth
  id : Uuid
  req : UpdateRotationJobRequest

/-- The status an update asks for. -/
def UpdateRotationJobRequest.asked (req : UpdateRotationJobRequest) : Option JobStatus :=
  (JobStatus.ofText req.status).filter (fun s => decide (s ≠ .pending))

/-- What an update checks on the job as it read it. -/
def checkJob (req : UpdateRotationJobRequest) (row : Option RotationJob) :
    Except Error (RotationJob × JobStatus) := do
  let cur ← row.elim (throw (.notFound "Rotation job")) pure
  let status ← req.asked.elim
    (throw (.badRequest "status must be running, done, failed or cancelled")) pure
  if cur.status.finished then throw (.conflict "Rotation job already finished")
  return (cur, status)

/-- Whether a member may take a job as it is. -/
def claimable (job : RotationJob) (status : JobStatus) (userId : Uuid) : Bool :=
  !(decide (status = .running) && decide (job.status = .running)
    && decide (job.claimedBy ≠ some userId))

/-- Whether the caller may give the job its new status. -/
def checkCaller (db : Db) (auth : Auth) (cur : RotationJob) (status : JobStatus) :
    Except Error Unit := do
  if status = .cancelled then
    db.require cur.teamId auth.userId "rotation.manage"
  else
    let _ ← db.requireWrite cur.vaultId auth.userId
  if !claimable cur status auth.userId then
    throw (.conflict "Another member is already rotating this secret")

/-- The error text that is stored. -/
def errorText (req : UpdateRotationJobRequest) : Option String :=
  ((req.error.map trim).filter (fun e => decide (e ≠ ""))).map (fun e =>
    String.ofList (e.toList.take 1000))

/-- A job after an update. -/
def RotationJob.updated (job : RotationJob) (call : UpdateCall) (status : JobStatus)
    (now : DateTime) : RotationJob :=
  { job with
    status
    claimedBy := job.claimedBy.or (some call.auth.userId)
    error := errorText call.req
    updatedAt := now
    finishedAt := if status ≠ .running then some now else none }

theorem RotationJob.key_updated (job : RotationJob) (call : UpdateCall) (status : JobStatus)
    (now : DateTime) :
  key (job.updated call status now) = key job
  := rfl

/-- Stamp an entity as rotated, never back in time. -/
def Db.stampRotated (db : Db) (entityId : Uuid) (now : DateTime) : Db :=
  { db with
    entities := db.entities.set entityId
      (fun e => { e with secretRotatedAt := some (max (e.secretRotatedAt.getD 0) now) })
      (fun _ => rfl) }

/-- The statement that an update runs next. -/
inductive UpdateAt
  /-- Read the job. -/
  | read
  /-- Read who may do what. -/
  | authorize (cur : RotationJob) (status : JobStatus)
  /-- Begin a transaction, and write the job. -/
  | write (cur : RotationJob) (status : JobStatus)
  /-- Stamp the entity. -/
  | stamp (cur : RotationJob) (status : JobStatus) (now : DateTime)
  /-- Commit the job, and the stamp of the entity. -/
  | commit (status : JobStatus) (now : DateTime) (entityId : Option Uuid)
  /-- Read the job for the answer. -/
  | reload
  | done (result : Except Error RotationJob)

/-- Whether the next statement is in the transaction. -/
def UpdateAt.inTransaction : UpdateAt → Bool
  | .stamp .. | .commit .. => true
  | _ => false

/-- An update in progress. -/
structure UpdateThread extends UpdateCall where
  pc : UpdateAt

/-- Whether an update was answered with the job. -/
def UpdateThread.answered (t : UpdateThread) : Bool :=
  match t.pc with
  | .done (.ok _) => true
  | _ => false

namespace UpdateCall

variable (call : UpdateCall)

/-- Commit an update. -/
def committed (s : JobDb) (status : JobStatus) (now : DateTime) (entityId : Option Uuid) :
    JobDb where
  db := entityId.elim s.db (fun e => s.db.stampRotated e now)
  jobs := s.jobs.set call.id (fun job => job.updated call status now)
    (fun job => job.key_updated call status now)
  locks := Function.update s.locks call.id none

/-- Whether writing a job leaves its entity with two jobs that have not finished. -/
def violates (s : JobDb) (status : JobStatus) : Bool :=
  !status.finished && (s.jobs.get? call.id).any (fun job => s.hasOpenJob job.entityId (some job.id))

/-- Run the next statement of an update. Writing a job waits until another transaction that has
written it ends. -/
def exec (thread : ℕ) (now : DateTime) (s : JobDb) : UpdateAt → Option (JobDb × UpdateAt)
  | .read =>
    match checkJob call.req (s.jobs.get? call.id) with
    | .error e => some (s, .done (.error e))
    | .ok (cur, status) => some (s, .authorize cur status)
  | .authorize cur status =>
    match checkCaller s.db call.auth cur status with
    | .error e => some (s, .done (.error e))
    | .ok () => some (s, .write cur status)
  | .write cur status =>
    if (s.locks call.id).isSome then none
    else if call.violates s status then some (s, .done (.error .internal))
    else
      some ({ s with locks := Function.update s.locks call.id (some thread) },
        if status = .done then .stamp cur status now else .commit status now none)
  | .stamp cur status now => some (s, .commit status now (some cur.entityId))
  | .commit status now entityId => some (call.committed s status now entityId, .reload)
  | .reload => some (s, .done ((s.jobs.get? call.id).elim (.error (.notFound "Rotation job")) .ok))
  | .done _ => none

/-- A statement fails: the transaction is rolled back. -/
def fail (s : JobDb) (pc : UpdateAt) : JobDb × UpdateAt :=
  (if pc.inTransaction then { s with locks := Function.update s.locks call.id none } else s,
    .done (.error .internal))

end UpdateCall

/-! ### Requests running side by side -/

/-- A thread receives its request, runs its next statement, or fails in it. -/
inductive UpdateEvent
  | receive (call : UpdateCall)
  | next (now : DateTime)
  | fail

/-- Jobs are created, or another handler changes the rest of the database. -/
inductive JobEvent
  | create (auth : Auth) (teamId : Uuid) (req : CreateRotationJobsRequest) (now : DateTime)
      (fresh : List Uuid)
  | others (db : Db)

/-- Updates of jobs, each in a thread of its own, beside other requests. The dates of the entities
are left to the updates. -/
def updates : Threads JobDb (Option UpdateThread) UpdateEvent JobEvent where
  init s := s.jobs = .empty ∧ ∀ id, s.locks id = none
  start t := t = none
  exec thread e s t :=
    match e, t with
    | .receive call, none => some (s, some ⟨call, .read⟩)
    | .next now, some t =>
      (t.exec thread now s t.pc).map (fun (s', pc) => (s', some ⟨t.toUpdateCall, pc⟩))
    | .fail, some t =>
      match t.pc with
      | .done _ => none
      | pc => some ((t.fail s pc).1, some ⟨t.toUpdateCall, (t.fail s pc).2⟩)
    | _, _ => none
  env e s :=
    match e with
    | .create auth teamId req now fresh => (createJobs s auth teamId req now fresh).toOption
    | .others db => some { s with db := { db with entities := s.db.entities } }

end Termoso.Server
