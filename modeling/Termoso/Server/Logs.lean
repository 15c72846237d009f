import Termoso.Server.Db
import Termoso.Crypto
import Termoso.Lib.Paging

/-!
# Session logs on the server

Metadata of recordings.  A change of a log is numbered twice, from the counter of its author
and from the counter of its vault, and is listed by either.
-/

namespace Termoso.Server

/-- Which counter a listing is paged by. -/
inductive Cursor
  | author
  | vault
deriving DecidableEq

/-- The number of a row in a listing. -/
def LogRow.cursorSeq (r : LogRow) : Cursor → ℤ
  | .author => r.seq
  | .vault => r.vaultSeq

/-- What the caller may do with a log: the author owns it, other members of a team vault act
through their vault role. -/
structure Grant where
  log : LogRow
  owner : Bool
  access : Option Access
deriving DecidableEq

namespace Grant

def canWrite (g : Grant) : Bool := g.owner || g.access.any (fun a => a.role.canWrite)

def canManage (g : Grant) : Bool := g.owner || g.access.any (fun a => a.role.canManage)

def teamId (g : Grant) : Option Uuid := g.access.bind Access.teamId

end Grant

/-- The listed form of a row. -/
def toLog (users : Table User) (cursor : Cursor) (r : LogRow) : SessionLog where
  id := r.id
  vaultId := r.vaultId
  userId := r.userId
  author := if r.deleted then none else
    (users.get? r.userId).map (fun u => ⟨r.userId, u.email, u.displayName, u.avatarTag⟩)
  metadata := r.metadata
  keyVersion := r.keyVersion
  sizeBytes := r.sizeBytes
  completed := r.completed
  createdAt := r.createdAt
  seq := r.cursorSeq cursor
  deleted := r.deleted
  pinned := r.pinned
  note := r.note
  noteBy := r.noteBy

/-- Check the metadata of a log. -/
def validateMeta [Primitives] (metadata : String) (max : ℕ) : Except Error Unit :=
  if metadata.utf8ByteSize > max ∨ (Primitives.unb64 metadata).isNone then
    .error (.tooLarge "Log metadata too large")
  else .ok ()

/-- Trim a note and check it. -/
def cleanNote (note : String) : Except Error String :=
  let note := trim note
  if note.length > MAX_NOTE_CHARS then
    .error (.tooLarge s!"Notes are limited to {MAX_NOTE_CHARS} characters")
  else if note.toList.any (fun c => isControl c && c ≠ '\n' && c ≠ '\t') then
    .error (.badRequest "Note contains control characters")
  else .ok note

namespace Db

/-- Load a log the caller may at least read. -/
def logGrant (db : Db) (auth : Auth) (id : Uuid) : Except Error Grant :=
  match db.sessionLogs.get? id with
  | none => .error (.notFound "Log")
  | some log =>
    let owner := decide (log.userId = auth.userId)
    let grant (access : Option Access) : Except Error Grant :=
      if owner || access.any (fun a => decide (a.kind = .team) && !a.pending) then
        .ok ⟨log, owner, access⟩
      else .error (.notFound "Log")
    match db.access log.vaultId auth.userId with
    | .ok a => grant (some a)
    | .error (.notFound what) => if owner then grant none else .error (.notFound what)
    | .error e => .error e

/-- Reserve a log. -/
def logCreate [Primitives] (settings : Settings) (auth : Auth) (now : DateTime) (db : Db)
    (req : CreateLogRequest) : Except Error Db := do
  validateMeta req.metadata settings.maxEntityBytes
  if req.sizeBytes ≤ 0 ∨ req.sizeBytes > settings.maxLogBytes then
    throw (.tooLarge s!"Logs are limited to {settings.maxLogBytes} bytes")
  let a ← db.requireWrite req.vaultId auth.userId
  if a.keyVersion ≠ req.keyVersion then throw (.conflict "Stale vault key version")
  let used := ((db.sessionLogs.select (fun r => decide (r.userId = auth.userId) && !r.deleted)).map
    LogRow.sizeBytes).sum
  if settings.logQuotaBytes > 0 ∧ used + req.sizeBytes > settings.logQuotaBytes then
    throw (.quotaExceeded "Session log storage quota exceeded")
  let (seq, vaultSeq, db) ← db.nextSeqs auth.userId req.vaultId
  match db.sessionLogs.insert
      { id := req.id, userId := auth.userId, vaultId := req.vaultId, metadata := req.metadata,
        keyVersion := req.keyVersion, sizeBytes := req.sizeBytes, completed := false,
        createdAt := now, seq, vaultSeq, deleted := false, pinned := false, note := "",
        noteBy := none } with
  | some sessionLogs => return { db with sessionLogs }
  | none => throw (.conflict "Log already exists")

/-- Check the size declared for an upload against the size of the stored object. -/
def checkUpload (settings : Settings) (declared : ℤ) (actual : Option ℤ) : Except Error ℤ :=
  match actual with
  | none => .error (.badRequest "Upload not found in storage")
  | some actual =>
    if actual ≠ declared then
      .error (.badRequest "Declared size does not match the uploaded object")
    else if actual > settings.maxLogBytes then
      .error (.tooLarge "Uploaded object exceeds the limit")
    else .ok actual

/-- Update a log. `actual` is the size of its object in storage. -/
def logUpdate [Primitives] (settings : Settings) (auth : Auth) (actual : Option ℤ) (db : Db)
    (id : Uuid) (req : UpdateLogRequest) : Except Error Db := do
  let grant ← db.logGrant auth id
  let log := grant.log
  if log.deleted then throw (.notFound "Log")
  if (req.metadata.isSome || req.sizeBytes.isSome) && !grant.owner then
    throw (.forbidden "Only the author can change a recording")
  if (req.pinned.isSome || req.note.isSome) && !grant.canWrite then
    throw (.forbidden "Editor role required to pin or annotate")
  let _ ← req.metadata.mapM (fun m => validateMeta m settings.maxEntityBytes)
  let note ← req.note.mapM cleanNote
  let uploaded ← req.sizeBytes.mapM (fun declared => checkUpload settings declared actual)
  let size := uploaded.getD log.sizeBytes
  let completed := log.completed || req.sizeBytes.isSome
  let noteBy := match note with
    | some n => if n.isEmpty then none else some auth.userId
    | none => log.noteBy
  let (seq, vaultSeq, db) ← db.nextSeqs log.userId log.vaultId
  return { db with
    sessionLogs := db.sessionLogs.set id
      (fun r => { r with
        metadata := req.metadata.getD r.metadata, sizeBytes := size, completed, seq, vaultSeq
        pinned := req.pinned.getD log.pinned, note := note.getD r.note, noteBy })
      (fun _ => rfl) }

/-- The tombstone of a log. -/
def tombstone (seq vaultSeq : ℤ) (keepPin : Bool) (r : LogRow) : LogRow :=
  { r with
    deleted := true, metadata := "", sizeBytes := 0, pinned := keepPin && r.pinned, note := ""
    noteBy := none, seq, vaultSeq }

/-- Delete a log. `recordingRequired` says that the team's policy makes recording mandatory,
`mayDelete` that the caller has the permission to delete logs nevertheless. -/
def logDelete (auth : Auth) (recordingRequired mayDelete : Bool) (db : Db) (id : Uuid) :
    Except Error Db := do
  let grant ← db.logGrant auth id
  let log := grant.log
  if log.deleted then return db
  if !grant.canManage then
    throw (.forbidden "Only the author or a vault manager can delete a recording")
  if grant.teamId.isSome && recordingRequired && !mayDelete then
    throw (.forbidden
      "Recording is mandatory in this team; logs.delete permission required")
  let (seq, vaultSeq, db) ← db.nextSeqs log.userId log.vaultId
  return { db with
    sessionLogs := db.sessionLogs.set id (tombstone seq vaultSeq false) (fun _ => rfl) }

/-- The unpinned recordings in team vaults that are past the retention of their team. -/
def expiredLogs (now : DateTime) (db : Db) : List LogRow :=
  db.sessionLogs.select (fun r =>
    match db.vaults.get? r.vaultId with
    | none => false
    | some v =>
      let days := ((v.teamId.bind db.teamPolicies.get?).map TeamPolicy.logRetentionDays).getD 0
      decide (v.kind = .team) && decide (days > 0) && !r.deleted && !r.pinned
        && decide (r.createdAt < now - days * day))

/-- Tombstone one recording past its retention. -/
def retireLog (db : Db) (r : LogRow) : Except Error Db := do
  let (seq, vaultSeq, db) ← db.nextSeqs r.userId r.vaultId
  return { db with
    sessionLogs := db.sessionLogs.set r.id (tombstone seq vaultSeq true) (fun _ => rfl) }

/-- Delete the recordings past their retention, oldest first. -/
def retentionPass (now : DateTime) (db : Db) : Except Error Db :=
  ((db.expiredLogs now).insertionSort (fun r r' => r.createdAt ≤ r'.createdAt)).foldlM retireLog db

/-- A page of rows as a response. -/
def logPage (users : Table User) (rows : List LogRow) (limit : ℕ) (since : ℤ) (cursor : Cursor) :
    LogListResponse :=
  let logs := (rows.take limit).map (toLog users cursor)
  ⟨logs, (logs.getLast?.map SessionLog.seq).getD since, decide (rows.length > limit)⟩

/-- The rows of an author. -/
def authorLogs (db : Db) (userId : Uuid) : List LogRow :=
  db.sessionLogs.select (fun r => decide (r.userId = userId))

/-- The rows of a vault. -/
def vaultLogs (db : Db) (vaultId : Uuid) : List LogRow :=
  db.sessionLogs.select (fun r => decide (r.vaultId = vaultId))

/-- A page of the caller's own logs. -/
def logList (db : Db) (auth : Auth) (limit : ℕ) (since : ℤ) : LogListResponse :=
  logPage db.users ((Paging.newer LogRow.seq (db.authorLogs auth.userId) since).take (limit + 1))
    limit since .author

/-- A page of the logs of every member of a vault. -/
def logListVault (db : Db) (auth : Auth) (vaultId : Uuid) (limit : ℕ) (since : ℤ) :
    Except Error LogListResponse := do
  let a ← db.access vaultId auth.userId
  if a.pending then throw (.forbidden "No key for this vault yet")
  return logPage db.users
    ((Paging.newer LogRow.vaultSeq (db.vaultLogs vaultId) since).take (limit + 1))
    limit since .vault

end Db

end Termoso.Server
