import Termoso.Server.Db
import Termoso.Crypto

/-!
# Vault members and their keys

The handlers that write members of a vault, as the sequences of their SQL statements.  A
statement reads or writes the database as it is when the statement runs; only the statements
of a key rotation, from `beginRotation` to `commit`, are one transaction.
-/

namespace Termoso.Server

/-- What a handler answers. -/
inductive Response
  | noContent
  | rotated (keyVersion : ℤ)
deriving DecidableEq

/-- The statements a handler has still to run. A statement that returns the number of rows it
affected goes on with it. -/
inductive Handler
  | done (result : Except Error Response)
  | select (k : Db → Handler)
  /-- Insert a member, or set the role, sealed key and key version of the member there. -/
  | upsertMember (m : VaultMember) (k : Handler)
  /-- Set the sealed key of a member who holds one of this version. -/
  | resealMember (vaultId userId : Uuid) (sealedKey : String) (keyVersion : ℤ) (k : ℕ → Handler)
  | deleteMember (vaultId userId : Uuid) (k : ℕ → Handler)
  /-- Begin a transaction, and set the key version of a vault that has the base version. The
  transaction is rolled back when there is none. -/
  | beginRotation (vaultId : Uuid) (newVersion baseVersion : ℤ) (k : ℕ → Handler)
  /-- Take the sealed keys of all members. -/
  | clearMembers (vaultId : Uuid) (newVersion : ℤ) (k : Handler)
  /-- Take the sealed keys of all bridges. -/
  | clearBridges (vaultId : Uuid) (k : Handler)
  /-- Set the sealed key of a member. -/
  | sealMember (vaultId userId : Uuid) (sealedKey : String) (newVersion : ℤ) (k : Handler)
  | commit (k : Handler)

namespace Handler

/-- Answer with an error, or go on. -/
def orFail {α : Type} : Except Error α → (α → Handler) → Handler
  | .error e, _ => .done (.error e)
  | .ok a, k => k a

end Handler

/-! ### Checks -/

def validateSealed [Primitives] (sealedKey : String) : Except Error Unit :=
  match Primitives.unb64 sealedKey with
  | none => .error (.badRequest "sealed_key is not valid base64")
  | some b =>
    if b.length < 48 ∨ b.length > 512 then
      .error (.badRequest "sealed_key has an unexpected length")
    else .ok ()

namespace Db

/-- The users who are members of a vault. -/
def memberIds (db : Db) (vaultId : Uuid) : List Uuid :=
  (db.vaultMembers.select (fun m => decide (m.vaultId = vaultId))).map VaultMember.userId

/-- The number of managers of a vault besides a user, and of those who hold a key. -/
def otherManagers (db : Db) (vaultId userId : Uuid) : ℕ :=
  (db.vaultMembers.select (fun m => decide (m.vaultId = vaultId)
    && decide (m.role = .manager) && decide (m.userId ≠ userId))).length

def otherKeyedManagers (db : Db) (vaultId userId : Uuid) : ℕ :=
  (db.vaultMembers.select (fun m => decide (m.vaultId = vaultId)
    && decide (m.role = .manager) && decide (m.userId ≠ userId) && m.sealedKey.isSome)).length

/-- The number of administrators of a team besides a user. -/
def otherAdmins (db : Db) (teamId userId : Uuid) : ℕ :=
  (db.teamMembers.select (fun m => decide (m.teamId = teamId)
    && decide (m.role = "owner" ∨ m.role = "admin") && decide (m.userId ≠ userId))).length

/-! ### Listing -/

/-- The vaults a user is a member of, the personal one first. -/
def vaultList (db : Db) (userId : Uuid) : List Vault :=
  ((db.vaults.select (fun v => !v.deleted)).insertionSort
    (fun v w => v.kind = .personal ∨ w.kind = .team)).filterMap (fun v =>
      (db.vaultMembers.get? (v.id, userId)).map (fun m =>
        ⟨v.id, v.kind, v.teamId, v.name, m.role, m.sealedKey, v.keyVersion, v.sessionLogging,
          v.isDefault⟩))

end Db

/-! ### Handlers -/

section
variable [Primitives]

/-- Add a member or update their role and sealed key. -/
def upsertMember (auth : Auth) (id userId : Uuid) (req : VaultMemberUpsert) : Handler :=
  .select fun db => .orFail (db.requireManage id auth.userId) fun a =>
    .orFail (do
      if a.kind = .personal then throw (.forbidden "The personal vault cannot be shared")
      if req.userId ≠ userId then throw (.badRequest "user_id mismatch")
      validateSealed req.sealedKey
      a.teamId.elim (throw .internal) .ok) fun teamId =>
    .select fun db =>
      if (db.teamMembers.get? (teamId, userId)).isNone then
        .done (.error (.badRequest "User is not a member of the team"))
      else
        let write : Handler :=
          .select fun _ =>
            .upsertMember ⟨id, userId, req.role, some req.sealedKey, a.keyVersion⟩
              (.done (.ok .noContent))
        if userId = auth.userId ∧ req.role ≠ .manager then
          .select fun db =>
            if db.otherManagers id userId = 0 then
              .done (.error (.conflict "A vault needs at least one manager"))
            else write
        else write

/-- Remove a member. -/
def removeMember (auth : Auth) (id userId : Uuid) : Handler :=
  let remove : Handler :=
    .deleteMember id userId fun rows =>
      .done (if rows = 0 then .error (.notFound "Member") else .ok .noContent)
  .select fun db =>
    .orFail (if userId = auth.userId then db.access id auth.userId
      else db.requireManage id auth.userId) fun a =>
    if a.kind = .personal then
      .done (.error (.forbidden "The personal vault has a fixed membership"))
    else
      .select fun db =>
        if db.otherKeyedManagers id userId = 0 then
          match a.teamId with
          | some teamId =>
            .select fun db =>
              if db.otherAdmins teamId userId = 0 then
                .done (.error (.conflict "A vault needs at least one manager"))
              else remove
          | none => .done (.error (.conflict "A vault needs at least one manager"))
        else remove

/-- Replace the caller's own sealed copy of the current key. -/
def resealMyKey (auth : Auth) (id : Uuid) (req : ResealMyKeyRequest) : Handler :=
  .orFail (validateSealed req.sealedKey) fun _ =>
  .select fun db => .orFail (db.access id auth.userId) fun a =>
    if a.pending then .done (.error (.forbidden "You do not hold a key for this vault"))
    else if a.keyVersion ≠ req.keyVersion then .done (.error (.conflict "Vault key was rotated"))
    else
      .resealMember id auth.userId req.sealedKey req.keyVersion fun rows =>
        .done (if rows = 0 then .error (.conflict "Vault key was rotated") else .ok .noContent)

/-- Seal the new key for members, one by one, and commit. -/
def sealMembers (id : Uuid) (newVersion : ℤ) : List SealedKeyFor → Handler
  | [] => .commit (.done (.ok (.rotated newVersion)))
  | m :: members =>
    .sealMember id m.userId m.sealedKey newVersion (sealMembers id newVersion members)

/-- Rotate the vault key: install a new version, sealed to the members given. Members without a
new sealed key lose access. -/
def rotateKey (auth : Auth) (id : Uuid) (req : RotateVaultKeyRequest) : Handler :=
  .select fun db => .orFail (db.requireManage id auth.userId) fun a =>
    if a.keyVersion ≠ req.baseKeyVersion then
      .done (.error (.conflict "Vault key was rotated by someone else"))
    else
      .select fun db =>
        let current := db.memberIds id
        .orFail (do
          req.members.forM (fun m => do
            validateSealed m.sealedKey
            if m.userId ∉ current then throw (.badRequest "Unknown member in rotation set"))
          if auth.userId ∉ req.members.map SealedKeyFor.userId ∧ a.kind = .team
              ∧ auth.userId ∈ current then
            throw (.badRequest "Include your own sealed key")) fun _ =>
        let newVersion := a.keyVersion + 1
        .beginRotation id newVersion req.baseKeyVersion fun rows =>
          if rows = 0 then .done (.error (.conflict "Vault key was rotated by someone else"))
          else
            .clearMembers id newVersion (.clearBridges id (sealMembers id newVersion req.members))

end

end Termoso.Server
