import Termoso.Crypto
import Termoso.Lib.Table
import Termoso.Lib.Result
import Mathlib.Data.List.Sort

/-!
# The local store

The database of a device: its vaults with their keys, the entities, history entries and
session logs in them, and the cursors of the signed-in account.  This module has the rows
of the tables and the operations on vaults.  Times and fresh identifiers are arguments of
the operations that use them.

The key of a vault is held wrapped in its row and, unwrapped, in a cache that follows the
row; here it is one field, `wrappedKey`.
-/

namespace Termoso.Core

/-- Everything that can go wrong in the store. -/
inductive CoreError
  | db
  | crypto (e : CryptoError)
  | json
  | notFound (what : String)
  | invalid (what : String)
  | vaultLocked (id : Uuid)
  | vaultReadOnly (id : Uuid)
  | notSignedIn
deriving DecidableEq

/-- A cryptographic failure as an error of the store. -/
def CoreError.lift {α : Type*} (x : Except CryptoError α) : Except CoreError α :=
  x.mapError .crypto

@[simp]
theorem lift_eq_ok {α : Type*} {x : Except CryptoError α} {a : α} :
  CoreError.lift x = .ok a ↔ x = .ok a
  := by
  cases x <;> simp [CoreError.lift, Except.mapError]

/-! ### Rows -/

/-- Vault kind including the device-only local vault. -/
inductive LocalVaultKind
  | local
  | personal
  | team
deriving DecidableEq

namespace LocalVaultKind

/-- Whether this vault participates in sync. -/
def isSynced : LocalVaultKind → Bool
  | .local => false
  | personal => true
  | team => true

/-- The kind of a vault on the server. -/
def ofKind : VaultKind → LocalVaultKind
  | .personal => personal
  | .team => team

/-- The position of the kind in listings. -/
def rank : LocalVaultKind → ℕ
  | .local => 0
  | personal => 1
  | team => 2

theorem isSynced_ofKind (k : VaultKind) :
  (ofKind k).isSynced = true
  := by
  cases k <;> rfl

end LocalVaultKind

/-- A vault of this device. -/
structure LocalVault where
  id : Uuid
  kind : LocalVaultKind
  name : String
  teamId : Option Uuid
  role : VaultRole
  wrappedKey : Option SymmetricKey
  keyVersion : ℤ
  cursor : ℤ
  sessionLogging : Bool
  logsCursor : ℤ
  isDefault : Bool
deriving DecidableEq

instance : Keyed LocalVault Uuid := ⟨LocalVault.id⟩

/-- The vault key is available. -/
def LocalVault.unlocked (v : LocalVault) : Bool := v.wrappedKey.isSome

/-- Entity row. A version of zero means never pushed. -/
structure EntityRow where
  id : Uuid
  kind : String
  vaultId : Uuid
  version : ℤ
  seq : ℤ
  deleted : Bool
  keyVersion : ℤ
  data : String
  updatedAt : DateTime
  dirty : Bool
deriving DecidableEq

instance : Keyed EntityRow Uuid := ⟨EntityRow.id⟩

/-- History row. -/
structure HistoryRow where
  id : Uuid
  kind : HistoryKind
  vaultId : Uuid
  data : String
  keyVersion : ℤ
  createdAt : DateTime
  seq : ℤ
  deleted : Bool
  dirty : Bool
deriving DecidableEq

instance : Keyed HistoryRow Uuid := ⟨HistoryRow.id⟩

/-- Session log row. The author is absent for a log recorded on this device that the server
has not echoed back. -/
structure LogRow where
  id : Uuid
  vaultId : Uuid
  metadata : String
  keyVersion : ℤ
  sizeBytes : ℤ
  localPath : Option String
  uploaded : Bool
  completed : Bool
  createdAt : DateTime
  seq : ℤ
  deleted : Bool
  authorId : Option Uuid
  author : Option LogAuthor
  pinned : Bool
  note : String
  noteBy : Option Uuid
deriving DecidableEq

instance : Keyed LogRow Uuid := ⟨LogRow.id⟩

/-- The signed-in account. -/
structure StoredAccount where
  userId : Uuid
  email : String
  displayName : Option String
  avatar : Option String
  historyCursor : ℤ
  logsCursor : ℤ
deriving DecidableEq

/-- The database of a device, and the files next to it. -/
@[ext]
structure Store where
  vaults : Table LocalVault
  entities : Table EntityRow
  history : Table HistoryRow
  sessionLogs : Table LogRow
  account : Option StoredAccount
  files : String → Option Bytes

@[simp] theorem key_vault (v : LocalVault) : key v = v.id := rfl
@[simp] theorem key_entity (r : EntityRow) : key r = r.id := rfl
@[simp] theorem key_history (r : HistoryRow) : key r = r.id := rfl
@[simp] theorem key_log (r : LogRow) : key r = r.id := rfl

/-! ### Vaults -/

namespace Store

/-- The store of a device without data. -/
def empty : Store := ⟨.empty, .empty, .empty, .empty, none, fun _ => none⟩

/-- The key of a vault. -/
def vaultKey (s : Store) (vaultId : Uuid) : Except CoreError SymmetricKey :=
  match (s.vaults.get? vaultId).bind LocalVault.wrappedKey with
  | some k => .ok k
  | none => .error (.vaultLocked vaultId)

/-- Single vault. -/
def vault (s : Store) (id : Uuid) : Except CoreError LocalVault :=
  match s.vaults.get? id with
  | some v => .ok v
  | none => .error (.notFound s!"vault {id}")

/-- All vaults: the local one first, then by kind and name. -/
def listVaults (s : Store) : List LocalVault :=
  s.vaults.rows.insertionSort
    (fun v w => v.kind.rank < w.kind.rank ∨ v.kind.rank = w.kind.rank ∧ v.name ≤ w.name)

/-- The device-local vault. -/
def localVault (s : Store) : Except CoreError LocalVault :=
  match s.listVaults.find? (fun v => decide (v.kind = .local)) with
  | some v => .ok v
  | none => .error (.notFound "local vault")

/-- Personal vault of the signed-in account, if any. -/
def personalVault (s : Store) : Option LocalVault :=
  s.listVaults.find? (fun v => decide (v.kind = .personal))

/-- Insert or update a synced vault. A missing key leaves the key held as it is. -/
def upsertVault (s : Store) (id : Uuid) (kind : LocalVaultKind) (name : String)
    (teamId : Option Uuid) (role : VaultRole) (key : Option SymmetricKey) (keyVersion : ℤ) :
    Except CoreError Store :=
  if kind = .local then .error (.invalid "cannot upsert the local vault")
  else
    .ok { s with
      vaults := s.vaults.upsert
        { id, kind, name, teamId, role, wrappedKey := key, keyVersion, cursor := 0,
          sessionLogging := false, logsCursor := 0, isDefault := false }
        (fun v => { v with kind, name, teamId, role, wrappedKey := key.or v.wrappedKey, keyVersion })
        (fun _ => rfl) }

/-- Remove a synced vault and everything in it. -/
def removeVault (s : Store) (id : Uuid) : Except CoreError Store := do
  let v ← s.vault id
  if v.kind = .local then throw (.invalid "cannot remove the local vault")
  return { s with
    vaults := s.vaults.erase id
    entities := s.entities.delete (fun r => decide (r.vaultId = id))
    history := s.history.delete (fun r => decide (r.vaultId = id))
    sessionLogs := s.sessionLogs.delete (fun r => decide (r.vaultId = id)) }

/-- Update the pull cursor of a vault. -/
def setVaultCursor (s : Store) (id : Uuid) (cursor : ℤ) : Store :=
  { s with
    vaults := s.vaults.set id (fun v => { v with cursor })
      (fun _ => rfl) }

/-- Mirror the server's per-vault session logging flag. -/
def setVaultSessionLogging (s : Store) (id : Uuid) (on : Bool) : Store :=
  { s with
    vaults := s.vaults.set id (fun v => { v with sessionLogging := on })
      (fun _ => rfl) }

/-- Mirror the server's default-vault flag. -/
def setVaultDefault (s : Store) (id : Uuid) (on : Bool) : Store :=
  { s with
    vaults := s.vaults.set id (fun v => { v with isDefault := on })
      (fun _ => rfl) }

/-- Update the cursors of the account. -/
def setAccountCursors (s : Store) (history logs : Option ℤ) : Store :=
  { s with account := s.account.map (fun a =>
      { a with
        historyCursor := history.getD a.historyCursor
        logsCursor := logs.getD a.logsCursor }) }

section
variable {s s' : Store} {id : Uuid}

theorem vault_eq_ok {v : LocalVault} :
  s.vault id = .ok v ↔ s.vaults.get? id = some v
  := by
  rw [vault]
  cases s.vaults.get? id <;> simp

theorem vaultKey_eq_ok {k : SymmetricKey} :
  s.vaultKey id = .ok k ↔ ∃ v, s.vaults.get? id = some v ∧ v.wrappedKey = some k
  := by
  rw [vaultKey]
  cases hv : s.vaults.get? id with
  | none => simp
  | some v => cases hk : v.wrappedKey <;> simp [hk]

/-- The personal vault is a vault of the store, of the kind asked for. -/
theorem personalVault_eq_some {v : LocalVault} (h : s.personalVault = some v) :
  s.vaults.get? v.id = some v ∧ v.kind = .personal
  := by
  have hmem := List.mem_of_find?_eq_some h
  rw [listVaults, List.mem_insertionSort] at hmem
  exact ⟨Table.get?_of_mem hmem, by simpa using List.find?_some h⟩

end

end Store

end Termoso.Core
