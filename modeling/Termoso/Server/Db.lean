import Termoso.Proto
import Termoso.Lib.Table
import Termoso.Lib.Result
import Mathlib.Data.List.Sort

/-!
# The database of the server

The tables the handlers read and write, who may do what in a vault, and the counters from
which rows draw their sequence numbers.  A handler either fails and leaves the database as
it is, since its transaction is rolled back, or succeeds with a new database and a response.
-/

namespace Termoso.Server

/-- Errors of the handlers. -/
inductive Error
  | notFound (what : String)
  | forbidden (msg : String)
  | badRequest (msg : String)
  | conflict (msg : String)
  | tooLarge (msg : String)
  | quotaExceeded (msg : String)
  | mfaRequired (teamId : Option Uuid) (level : String)
  | internal
deriving DecidableEq

/-! ### Tables -/

structure User where
  id : Uuid
  email : String
  displayName : Option String
  avatarTag : Option String
  totpEnabled : Bool
  passkey : Bool
  historySeq : ℤ
  logsSeq : ℤ
deriving DecidableEq

instance : Keyed User Uuid := ⟨User.id⟩

structure VaultRow where
  id : Uuid
  kind : VaultKind
  teamId : Option Uuid
  name : String
  keyVersion : ℤ
  seq : ℤ
  logsSeq : ℤ
  sessionLogging : Bool
  isDefault : Bool
  deleted : Bool
deriving DecidableEq

instance : Keyed VaultRow Uuid := ⟨VaultRow.id⟩

structure VaultMember where
  vaultId : Uuid
  userId : Uuid
  role : VaultRole
  sealedKey : Option String
  keyVersion : ℤ
deriving DecidableEq

instance : Keyed VaultMember (Uuid × Uuid) := ⟨fun m => (m.vaultId, m.userId)⟩

/-- A member of a team, with the permissions of the role held there. -/
structure TeamMember where
  teamId : Uuid
  userId : Uuid
  role : String
  permissions : Option (List String)
deriving DecidableEq

instance : Keyed TeamMember (Uuid × Uuid) := ⟨fun m => (m.teamId, m.userId)⟩

structure TeamPolicy where
  teamId : Uuid
  mfa : String
  logRetentionDays : ℤ
deriving DecidableEq

instance : Keyed TeamPolicy Uuid := ⟨TeamPolicy.teamId⟩

instance : Keyed SyncEntity Uuid := ⟨SyncEntity.id⟩

structure HistoryRow where
  id : Uuid
  userId : Uuid
  kind : HistoryKind
  data : String
  keyVersion : ℤ
  createdAt : DateTime
  seq : ℤ
  deleted : Bool
deriving DecidableEq

instance : Keyed HistoryRow Uuid := ⟨HistoryRow.id⟩

structure LogRow where
  id : Uuid
  userId : Uuid
  vaultId : Uuid
  metadata : String
  keyVersion : ℤ
  sizeBytes : ℤ
  completed : Bool
  createdAt : DateTime
  seq : ℤ
  vaultSeq : ℤ
  deleted : Bool
  pinned : Bool
  note : String
  noteBy : Option Uuid
deriving DecidableEq

instance : Keyed LogRow Uuid := ⟨LogRow.id⟩

/-- The database. `bridgeScope b v` says that bridge `b` holds a sealed key of vault `v`;
`directModes v u` gives the entities of `v` under an access rule for user `u`, with the mode
of the rule. -/
structure Db where
  users : Table User
  vaults : Table VaultRow
  vaultMembers : Table VaultMember
  teamMembers : Table TeamMember
  teamPolicies : Table TeamPolicy
  entities : Table SyncEntity
  historyEntries : Table HistoryRow
  sessionLogs : Table LogRow
  bridgeScope : Uuid → Uuid → Bool
  directModes : Uuid → Uuid → Uuid → Option String

@[simp] theorem key_user (u : User) : key u = u.id := rfl
@[simp] theorem key_vaultRow (v : VaultRow) : key v = v.id := rfl
@[simp] theorem key_member (m : VaultMember) : key m = (m.vaultId, m.userId) := rfl
@[simp] theorem key_syncEntity (e : SyncEntity) : key e = e.id := rfl
@[simp] theorem key_historyRow (h : HistoryRow) : key h = h.id := rfl
@[simp] theorem key_logRow (l : LogRow) : key l = l.id := rfl

/-- Who is asking. -/
structure Auth where
  userId : Uuid
  deviceId : Uuid
  bridgeId : Option Uuid
deriving DecidableEq

/-- Server settings. -/
structure Settings where
  maxEntityBytes : ℕ
  maxLogBytes : ℤ
  logQuotaBytes : ℤ
deriving DecidableEq

/-! ### Access -/

/-- Access info for one user in one vault. -/
structure Access where
  vaultId : Uuid
  kind : VaultKind
  teamId : Option Uuid
  role : VaultRole
  keyVersion : ℤ
  pending : Bool
deriving DecidableEq

/-- Whether the factors of a user satisfy the level a team asks for. -/
def satisfies (level : String) (totp passkey : Bool) : Bool :=
  if level = "passkey" then passkey
  else if level = "any" then totp || passkey
  else true

/-- The larger of a role and the manager role a team administrator has. -/
def roleOf (vaultRole : Option VaultRole) (teamAdmin : Bool) : Option VaultRole :=
  match vaultRole, teamAdmin with
  | some _, true => some .manager
  | some r, false => some r
  | none, true => some .manager
  | none, false => none

namespace Db

/-- A user's membership in a vault. Members of a team whose role may manage vault members act
as managers. -/
def access (db : Db) (vaultId userId : Uuid) : Except Error Access :=
  match (db.vaults.get? vaultId).filter (fun v => !v.deleted) with
  | none => .error (.notFound "Vault")
  | some v =>
    let member := db.vaultMembers.get? (vaultId, userId)
    let teamMember := v.teamId.bind (fun t => db.teamMembers.get? (t, userId))
    let permissions := teamMember.bind TeamMember.permissions
    let level := ((v.teamId.bind db.teamPolicies.get?).map TeamPolicy.mfa).getD "off"
    let user := db.users.get? userId
    if !satisfies level (user.any User.totpEnabled) (user.any User.passkey)
        && (member.isSome || permissions.isSome) then
      .error (.mfaRequired v.teamId level)
    else
      let teamAdmin := permissions.any (fun p => p.any (fun x => x = "*" || x = "vaults.members"))
      match roleOf (member.map VaultMember.role) teamAdmin with
      | none => .error (.notFound "Vault")
      | some role =>
        .ok ⟨vaultId, v.kind, v.teamId, role, v.keyVersion, member.all (fun m => m.sealedKey.isNone)⟩

def requireWrite (db : Db) (vaultId userId : Uuid) : Except Error Access := do
  let a ← db.access vaultId userId
  if !a.role.canWrite || a.pending then throw (.forbidden "No write access to this vault")
  return a

def requireManage (db : Db) (vaultId userId : Uuid) : Except Error Access := do
  let a ← db.access vaultId userId
  if !a.role.canManage then throw (.forbidden "Vault manager role required")
  return a

/-- Whether a vault is in the scope of the session: always, except for bridges. -/
def inScope (db : Db) (auth : Auth) (vaultId : Uuid) : Bool :=
  auth.bridgeId.all (fun b => db.bridgeScope b vaultId)

/-! ### Counters -/

/-- The last sequence number of a vault. -/
def vaultSeq (db : Db) (vaultId : Uuid) : ℤ := ((db.vaults.get? vaultId).map VaultRow.seq).getD 0

/-- The last log sequence number of a vault. -/
def vaultLogsSeq (db : Db) (vaultId : Uuid) : ℤ :=
  ((db.vaults.get? vaultId).map VaultRow.logsSeq).getD 0

/-- The last log sequence number of a user. -/
def userLogsSeq (db : Db) (userId : Uuid) : ℤ := ((db.users.get? userId).map User.logsSeq).getD 0

/-- The last history sequence number of a user. -/
def userHistorySeq (db : Db) (userId : Uuid) : ℤ :=
  ((db.users.get? userId).map User.historySeq).getD 0

/-- Bump the sequence number of a vault. -/
def nextSeq (db : Db) (vaultId : Uuid) : Except Error (ℤ × Db) :=
  match db.vaults.get? vaultId with
  | none => .error .internal
  | some v =>
    .ok (v.seq + 1, { db with
      vaults := db.vaults.set vaultId (fun v => { v with seq := v.seq + 1 }) (fun _ => rfl) })

/-- Bump the history sequence number of a user. -/
def nextHistorySeq (db : Db) (userId : Uuid) : Except Error (ℤ × Db) :=
  match db.users.get? userId with
  | none => .error .internal
  | some u =>
    .ok (u.historySeq + 1, { db with
      users := db.users.set userId (fun u => { u with historySeq := u.historySeq + 1 })
        (fun _ => rfl) })

/-- Advance both counters a log is published under: the author's and the vault's. -/
def nextSeqs (db : Db) (userId vaultId : Uuid) : Except Error (ℤ × ℤ × Db) :=
  match db.users.get? userId, db.vaults.get? vaultId with
  | some u, some v =>
    .ok (u.logsSeq + 1, v.logsSeq + 1, { db with
      users := db.users.set userId (fun u => { u with logsSeq := u.logsSeq + 1 }) (fun _ => rfl)
      vaults := db.vaults.set vaultId (fun v => { v with logsSeq := v.logsSeq + 1 })
        (fun _ => rfl) })
  | _, _ => .error .internal

section
variable {db db' : Db} {vaultId userId : Uuid} {seq vseq : ℤ}

/-- A sequence number drawn from a vault is its next one. -/
theorem nextSeq_eq_ok (h : db.nextSeq vaultId = .ok (seq, db')) :
  seq = db.vaultSeq vaultId + 1
    ∧ (∀ v, db'.vaultSeq v = if v = vaultId then seq else db.vaultSeq v)
    ∧ (∀ v, db'.vaultLogsSeq v = db.vaultLogsSeq v)
    ∧ db' = { db with vaults := db'.vaults }
  := by
  rw [nextSeq] at h
  split at h
  · cases h
  · rename_i row hget
    cases h
    refine ⟨by simp [vaultSeq, hget], ?_, ?_, rfl⟩
    · intro v
      simp only [vaultSeq, Table.get?_set]
      split <;> simp [hget]
    · intro v
      simp only [vaultLogsSeq, Table.get?_set]
      split
      · rename_i heq
        simp [heq, hget]
      · rfl

/-- A sequence number drawn from the history counter of a user is the next one. -/
theorem nextHistorySeq_eq_ok (h : db.nextHistorySeq userId = .ok (seq, db')) :
  seq = db.userHistorySeq userId + 1
    ∧ (∀ u, db'.userHistorySeq u = if u = userId then seq else db.userHistorySeq u)
    ∧ (∀ u, db'.userLogsSeq u = db.userLogsSeq u)
    ∧ db' = { db with users := db'.users }
  := by
  rw [nextHistorySeq] at h
  split at h
  · cases h
  · rename_i row hget
    cases h
    refine ⟨by simp [userHistorySeq, hget], ?_, ?_, rfl⟩
    · intro u
      simp only [userHistorySeq, Table.get?_set]
      split <;> simp [hget]
    · intro u
      simp only [userLogsSeq, Table.get?_set]
      split
      · rename_i heq
        simp [heq, hget]
      · rfl

/-- The sequence numbers of a log are the next ones of its author and of its vault. -/
theorem nextSeqs_eq_ok (h : db.nextSeqs userId vaultId = .ok (seq, vseq, db')) :
  seq = db.userLogsSeq userId + 1 ∧ vseq = db.vaultLogsSeq vaultId + 1
    ∧ (∀ u, db'.userLogsSeq u = if u = userId then seq else db.userLogsSeq u)
    ∧ (∀ v, db'.vaultLogsSeq v = if v = vaultId then vseq else db.vaultLogsSeq v)
    ∧ (∀ v, db'.vaultSeq v = db.vaultSeq v)
    ∧ db' = { db with users := db'.users, vaults := db'.vaults }
  := by
  rw [nextSeqs] at h
  split at h
  · rename_i u v hu hv
    cases h
    refine ⟨by simp [userLogsSeq, hu], by simp [vaultLogsSeq, hv], ?_, ?_, ?_, rfl⟩
    · intro w
      simp only [userLogsSeq, Table.get?_set]
      split <;> simp [hu]
    · intro w
      simp only [vaultLogsSeq, Table.get?_set]
      split <;> simp [hv]
    · intro w
      simp only [vaultSeq, Table.get?_set]
      split
      · rename_i heq
        simp [heq, hv]
      · rfl
  · cases h

end

end Db

end Termoso.Server
