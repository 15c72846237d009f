import Termoso.Lib.Locks
import Termoso.Lib.Threads
import Termoso.Server.MemberKeys
import Termoso.Server.Sync

/-!
# Pushes and key rotations side by side

Any number of pushes and rotations run their statements one by one between those of the others.  A
transaction keeps what it writes to itself until it commits, and keeps the rows it wrote locked: a
push the vaults whose sequence number it drew and the entities it fetched or wrote, a rotation its
vault.  A push reads its access, with the version of the key, before its transaction begins.
-/

namespace Termoso.Server

/-! ### Pushes -/

/-- The statements that a push has still to run. -/
inductive PushHandler
  | done (result : Except Error (List PushResult))
  | select (k : Db → PushHandler)
  /-- Read an entity and lock its row. -/
  | fetchEntity (id : Uuid) (k : Option SyncEntity → PushHandler)
  /-- Lock the row of a vault and bump its sequence number. -/
  | nextSeq (vaultId : Uuid) (k : ℤ → PushHandler)
  | insertEntity (e : SyncEntity) (k : PushHandler)
  | updateEntity (e : SyncEntity) (k : PushHandler)
  | commit (k : PushHandler)

namespace PushHandler

/-- What a push may do, for the vaults it has looked up. -/
abbrev AccessMap := Uuid → Option (Option Access)

/-- The modes of the rules on entities, for the vaults it has looked up. -/
abbrev AclMap := Uuid → Option (Uuid → Option String)

/-- Resolve write access to a vault of the session's scope. -/
def readAccess (auth : Auth) (vaultId : Uuid) (k : Option Access → PushHandler) : PushHandler :=
  .select fun db =>
    if db.inScope auth vaultId then
      .select fun db => k (db.requireWrite vaultId auth.userId).toOption
    else k none

/-- Resolve write access once per vault. -/
def readAccesses (auth : Auth) : List Uuid → AccessMap → (AccessMap → PushHandler) → PushHandler
  | [], access, k => k access
  | v :: vs, access, k =>
    readAccess auth v fun a => readAccesses auth vs (Function.update access v (some a)) k

/-- Read the rules on the entities of a vault. -/
def readAcl (auth : Auth) (vaultId : Uuid) (acl : AclMap) (k : AclMap → PushHandler) :
    PushHandler :=
  .select fun db =>
    k (Function.update acl vaultId (some (fun id => db.directModes vaultId auth.userId id)))

/-- Read the rules of the team vaults among some. -/
def readAcls (auth : Auth) (access : AccessMap) : List Uuid → AclMap → (AclMap → PushHandler) →
    PushHandler
  | [], acl, k => k acl
  | v :: vs, acl, k =>
    if ((access v).bind id).any (fun a => a.teamId.isSome) then
      readAcl auth v acl fun acl => readAcls auth access vs acl k
    else readAcls auth access vs acl k

def blocksWrite (mode : String) : Bool := decide (mode ≠ "edit")

/-- Whether the rule on an entity blocks writes. -/
def blocked (acl : AclMap) (vaultId id : Uuid) : Bool :=
  ((acl vaultId).bind (· id)).any blocksWrite

/-- The entity that a change makes, under a version and a sequence number. -/
def changed (deviceId : Uuid) (now : DateTime) (c : EntityChange) (version seq : ℤ) :
    SyncEntity where
  secretRotatedAt := some (Db.least c.secretRotatedAt now)
  id := c.id
  kind := c.kind
  vaultId := c.vaultId
  version := version
  seq := seq
  deleted := false
  keyVersion := c.keyVersion
  data := c.data
  updatedAt := min c.updatedAt now
  updatedByDevice := some deviceId

/-- Create or update one entity. -/
def pushChange [Primitives] (settings : Settings) (access : AccessMap) (acl : AclMap)
    (deviceId : Uuid) (now : DateTime) (c : EntityChange) (next : PushResult → PushHandler) :
    PushHandler :=
  match (access c.vaultId).bind id with
  | none => next (.error c.id "forbidden")
  | some a =>
    if !isKnownKind c.kind then next (.error c.id "unknown_kind")
    else if c.data.utf8ByteSize > settings.maxEntityBytes ∨ (Primitives.unb64 c.data).isNone then
      next (.error c.id "payload_too_large")
    else if c.keyVersion ≠ a.keyVersion then next (.error c.id "stale_key_version")
    else if blocked acl c.vaultId c.id then next (.error c.id "forbidden")
    else
      .fetchEntity c.id fun existing =>
        match existing, c.baseVersion with
        | some e, base =>
          if e.vaultId ≠ c.vaultId then next (.error c.id "forbidden")
          else if base = some e.version then
            .nextSeq c.vaultId fun seq =>
              .updateEntity (changed deviceId now c (e.version + 1) seq)
                (next (.ok c.id (e.version + 1) seq))
          else next (.conflict c.id e)
        | none, none =>
          .nextSeq c.vaultId fun seq =>
            .insertEntity (changed deviceId now c 1 seq) (next (.ok c.id 1 seq))
        | none, some _ => next (.error c.id "not_found")

def pushChanges [Primitives] (settings : Settings) (access : AccessMap) (acl : AclMap)
    (deviceId : Uuid) (now : DateTime) : List EntityChange → List PushResult →
    (List PushResult → PushHandler) → PushHandler
  | [], results, k => k results
  | c :: changes, results, k =>
    pushChange settings access acl deviceId now c fun r =>
      pushChanges settings access acl deviceId now changes (results ++ [r]) k

/-- The tombstone of an entity, under the next version and a sequence number. -/
def tombstone (deviceId : Uuid) (now : DateTime) (e : SyncEntity) (seq : ℤ) : SyncEntity :=
  { e with
    version := e.version + 1, seq := seq, deleted := true, data := "", updatedAt := now
    updatedByDevice := some deviceId }

/-- Delete one entity, once access to its vault and the rules there are known. -/
def pushDelete (acl : AclMap) (deviceId : Uuid) (now : DateTime) (d : EntityDelete) (e : SyncEntity)
    (next : PushResult → PushHandler) : PushHandler :=
  if blocked acl e.vaultId d.id then next (.error d.id "forbidden")
  else if e.deleted then next (.ok d.id e.version e.seq)
  else if e.version ≠ d.baseVersion then next (.conflict d.id e)
  else
    .nextSeq e.vaultId fun seq =>
      .updateEntity (tombstone deviceId now e seq) (next (.ok d.id (e.version + 1) seq))

/-- Delete entities, looking up access to vaults that were not looked up before. -/
def pushDeletes (auth : Auth) (now : DateTime) : List EntityDelete → AccessMap → AclMap →
    List PushResult → (List PushResult → PushHandler) → PushHandler
  | [], _, _, results, k => k results
  | d :: deletes, access, acl, results, k =>
    .fetchEntity d.id fun existing =>
      match existing with
      | none => pushDeletes auth now deletes access acl (results ++ [.error d.id "not_found"]) k
      | some e =>
        let delete (a : Option Access) (access : AccessMap) : PushHandler :=
          match a with
          | none => pushDeletes auth now deletes access acl (results ++ [.error d.id "forbidden"]) k
          | some a =>
            if a.teamId.isSome && (acl e.vaultId).isNone then
              readAcl auth e.vaultId acl fun acl =>
                pushDelete acl auth.deviceId now d e fun r =>
                  pushDeletes auth now deletes access acl (results ++ [r]) k
            else
              pushDelete acl auth.deviceId now d e fun r =>
                pushDeletes auth now deletes access acl (results ++ [r]) k
        match access e.vaultId with
        | some a => delete a access
        | none =>
          readAccess auth e.vaultId fun a => delete a (Function.update access e.vaultId (some a))

def push [Primitives] (settings : Settings) (auth : Auth) (now : DateTime) (req : PushRequest) :
    PushHandler :=
  if req.changes.length + req.deletes.length > MAX_BATCH then
    .done (.error (.tooLarge s!"At most {MAX_BATCH} items per push"))
  else
    let vaultIds := (req.changes.map EntityChange.vaultId).dedup
    readAccesses auth vaultIds (fun _ => none) fun access =>
      readAcls auth access vaultIds (fun _ => none) fun acl =>
        pushChanges settings access acl auth.deviceId now req.changes [] fun results =>
          pushDeletes auth now req.deletes access acl results fun results =>
            .commit (.done (.ok results))

end PushHandler

/-! ### Transactions -/

/-- The rows that a transaction locks. -/
inductive RowLock
  | vault (id : Uuid)
  | entity (id : Uuid)
deriving DecidableEq

instance : Lockable RowLock := ⟨fun l l' => decide (l = l')⟩

/-- What a push has not committed: the vaults whose number it drew, once for each number, and the
entities it wrote. -/
structure PushTx where
  drawn : List Uuid
  written : List SyncEntity

/-- A push or a rotation, with what it has not committed. -/
inductive SyncThread
  | push (h : PushHandler) (tx : PushTx)
  | rotate (h : Handler) (tx : Option Rotation)

/-- The database as committed, and the locks. `rotated` are the versions that rotations of a vault
have committed, `accepted` the live entities that pushes to it have committed, each with the
versions rotated to before, and `leftOver` the live entities that were there at the last rotation
and that no push has written since. -/
structure PushStore where
  db : Db
  locks : HeldLocks RowLock
  rotated : List ℤ
  accepted : List (List ℤ × SyncEntity)
  leftOver : List Uuid

/-- Put an entity under its id. -/
def Db.putEntity (db : Db) (e : SyncEntity) : Db :=
  { db with entities := db.entities.upsert e (fun r => { e with id := r.id }) (fun _ => rfl) }

theorem VaultRow.key_countSeq (v : VaultRow) : key { v with seq := v.seq + 1 } = key v := rfl

/-- Bump the sequence number of a vault. -/
def Db.bumpSeq (db : Db) (vaultId : Uuid) : Db :=
  { db with
    vaults := db.vaults.set vaultId (fun v => { v with seq := v.seq + 1 }) VaultRow.key_countSeq }

namespace PushStore

variable (id : Uuid) (s : PushStore)

/-- The version of the key of a vault. -/
def keyVersion (vaultId : Uuid) : Option ℤ := (s.db.vaults.get? vaultId).map VaultRow.keyVersion

/-- The entity a push sees: as it wrote it itself, or as committed. -/
def see (tx : PushTx) (entityId : Uuid) : Option SyncEntity :=
  (tx.written.reverse.find? (fun e => decide (e.id = entityId))).or (s.db.entities.get? entityId)

/-- Commit a push. -/
def commitPush (i : ℕ) (tx : PushTx) : PushStore :=
  let mine := tx.written.filter (fun e => decide (e.vaultId = id) && !e.deleted)
  { s with
    db := tx.written.foldl Db.putEntity (tx.drawn.foldl Db.bumpSeq s.db)
    locks := s.locks.release i
    accepted := mine.map (fun e => (s.rotated, e)) ++ s.accepted
    leftOver := s.leftOver.filter (fun x => decide (x ∉ tx.written.map SyncEntity.id)) }

/-- The live entities of a vault. -/
def live (vaultId : Uuid) : List Uuid :=
  (s.db.entities.select (fun e => decide (e.vaultId = vaultId) && !e.deleted)).map SyncEntity.id

/-- Commit a rotation. -/
def commitRotation (i : ℕ) (r : Rotation) : PushStore :=
  { s with
    db := Shared.committed ⟨s.db, none⟩ r
    locks := s.locks.release i
    rotated := if r.vaultId = id then r.newVersion :: s.rotated else s.rotated
    leftOver := if r.vaultId = id then s.live id else s.leftOver }

/-- Roll back what a thread has not committed, and end it with an error. -/
def rollback (i : ℕ) : SyncThread → PushStore × SyncThread
  | .push _ _ => ({ s with locks := s.locks.release i }, .push (.done (.error .internal)) ⟨[], []⟩)
  | .rotate _ _ => ({ s with locks := s.locks.release i }, .rotate (.done (.error .internal)) none)

/-- Run the next statement of a push. -/
def execPush (i : ℕ) (tx : PushTx) : PushHandler → Option (PushStore × SyncThread)
  | .done _ => none
  | .select k => some (s, .push (k s.db) tx)
  | .fetchEntity entityId k =>
    match s.see tx entityId with
    | none => some (s, .push (k none) tx)
    | some e =>
      if s.locks.waits i (.entity entityId) then none
      else some ({ s with locks := s.locks.take i [.entity entityId] }, .push (k (some e)) tx)
  | .nextSeq vaultId k =>
    if s.locks.waits i (.vault vaultId) then none
    else
      match s.db.vaults.get? vaultId with
      | none => some (s.rollback i (.push (.done (.error .internal)) tx))
      | some v =>
        some ({ s with locks := s.locks.take i [.vault vaultId] },
          .push (k (v.seq + tx.drawn.count vaultId + 1)) { tx with drawn := vaultId :: tx.drawn })
  | .insertEntity e k =>
    if s.locks.waits i (.entity e.id) then none
    else if (s.see tx e.id).isSome then some (s.rollback i (.push (.done (.error .internal)) tx))
    else
      some ({ s with locks := s.locks.take i [.entity e.id] },
        .push k { tx with written := tx.written ++ [e] })
  | .updateEntity e k => some (s, .push k { tx with written := tx.written ++ [e] })
  | .commit k => some (s.commitPush id i tx, .push k ⟨[], []⟩)

/-- Run the next statement of a rotation. -/
def execRotate (i : ℕ) (tx : Option Rotation) : Handler → Option (PushStore × SyncThread)
  | .select k => some (s, .rotate (k s.db) tx)
  | .beginRotation vaultId newVersion baseVersion k =>
    if s.locks.waits i (.vault vaultId) then none
    else if s.keyVersion vaultId = some baseVersion then
      some ({ s with locks := s.locks.take i [.vault vaultId] },
        .rotate (k 1) (some ⟨i, vaultId, newVersion, false, false, .empty⟩))
    else some (s, .rotate (k 0) tx)
  | .clearMembers vaultId newVersion k =>
    tx.map (fun r => (s, .rotate k (some (Shared.clear ⟨s.db, none⟩ r vaultId newVersion))))
  | .clearBridges _ k => tx.map (fun r => (s, .rotate k (some { r with bridgesCleared := true })))
  | .sealMember vaultId userId sealedKey newVersion k =>
    tx.map (fun r => (s, .rotate k
      (some (Shared.sealKey ⟨s.db, none⟩ r vaultId userId sealedKey newVersion))))
  | .commit k => tx.map (fun r => (s.commitRotation id i r, .rotate k none))
  | .done _ | .upsertMember .. | .resealMember .. | .deleteMember .. => none

end PushStore

/-! ### Runs -/

/-- A thread runs its next statement, or stops where it is. -/
inductive SyncStep
  | next
  | stop

/-- A request to push, or to rotate the key of a vault. -/
inductive SyncRequest
  | push (settings : Settings) (auth : Auth) (now : DateTime) (req : PushRequest)
  | rotateKey (auth : Auth) (vaultId : Uuid) (req : RotateVaultKeyRequest)

/-- The thread of a request. -/
def SyncRequest.thread [Primitives] : SyncRequest → SyncThread
  | .push settings auth now req => .push (PushHandler.push settings auth now req) ⟨[], []⟩
  | .rotateKey auth vaultId req => .rotate (Server.rotateKey auth vaultId req) none

/-- Run the next statement of a thread, or roll it back. -/
def SyncThread.exec (id : Uuid) (i : ℕ) (step : SyncStep) (s : PushStore) :
    SyncThread → Option (PushStore × SyncThread)
  | t =>
    match step, t with
    | .next, .push h tx => s.execPush id i tx h
    | .next, .rotate h tx => s.execRotate id i tx h
    | .stop, t => some (s.rollback i t)

/-- The runs of pushes and rotations, each thread with a request, from a database in which the live
entities of a vault are under the version of its key. -/
def pushThreads [Primitives] (id : Uuid) : Threads PushStore SyncThread SyncStep Empty where
  init s := (∀ e ∈ s.db.entities.rows, e.vaultId = id → e.deleted = false →
      s.keyVersion id = some e.keyVersion)
    ∧ s.locks = [] ∧ s.rotated = [] ∧ s.accepted = [] ∧ s.leftOver = []
  start t := ∃ req : SyncRequest, t = req.thread
  exec i step s t := t.exec id i step s
  env x _ := nomatch x

end Termoso.Server
