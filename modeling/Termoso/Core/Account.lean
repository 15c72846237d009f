import Termoso.Core.Entities
import Termoso.Core.History
import Termoso.Core.Logs

/-!
# Mirroring the vault list of the server

`applyVaultList` copies the server's vault list into the store and decides for each vault
whether the key offered replaces the key held.  It runs statement by statement, so that it
is a script: an error or an interruption leaves the store between two statements.
-/

namespace Termoso.Core

/-- What a pass over the vault list reports: the vaults whose key is held, personal vault first,
and the personal vaults whose envelope on the server should be sealed again. -/
structure AppliedVaults where
  unlocked : List Uuid
  reseal : List (Uuid × ℤ)
deriving DecidableEq

/-- The key to install, the key to re-encrypt from, and the key version to record. -/
structure KeyDecision where
  install : Option SymmetricKey
  rotatedFrom : Option SymmetricKey
  keyVersion : ℤ
deriving DecidableEq

/-- Decide about the key `offered` at `version` for a vault whose key is `held`. -/
def decideKey (held : Option (SymmetricKey × ℤ))
    (offered : Option (SymmetricKey × SealedKeyOrigin)) (personal : Bool) (version : ℤ) :
    KeyDecision :=
  match held, offered with
  | none, some (k, _) => ⟨some k, none, version⟩
  | none, none => ⟨none, none, version⟩
  | some (h, heldVersion), some (k, origin) =>
    if heldVersion = version then ⟨none, none, heldVersion⟩
    else if version < heldVersion then ⟨none, none, heldVersion⟩
    else if personal ∧ origin ≠ .selfAuthenticated then ⟨none, none, heldVersion⟩
    else ⟨some k, some h, version⟩
  | some (_, heldVersion), none => ⟨none, none, heldVersion⟩

section
variable [Boxes]

/-- The key a vault of the list offers, when its envelope opens. -/
def offeredKey (privateKey : KeyPair) (v : Vault) : Option (SymmetricKey × SealedKeyOrigin) :=
  v.sealedKey.bind (fun sealed => (openVaultKeyChecked privateKey sealed).toOption)

/-- The key held for a vault and its version, given the row the vault had at the start of the
pass. -/
def Store.heldKey (s : Store) (existing : Option LocalVault) :
    Except CoreError (Option (SymmetricKey × ℤ)) :=
  match existing with
  | some l =>
    if l.unlocked then (s.vaultKey l.id).map (fun k => some (k, l.keyVersion)) else .ok none
  | none => .ok none

open Script in
/-- Mirror one vault of the list. `vaults` are the vaults at the start of the pass. Reports
whether the key is held, and whether it should be sealed again. -/
def mirrorVault (privateKey : KeyPair) (vaults : List LocalVault) (nonce : Uuid → Nonce)
    (v : Vault) : Script Store CoreError (Bool × Bool) := do
  let existing := vaults.find? (fun l => decide (l.id = v.id))
  let offered := offeredKey privateKey v
  let s ← read
  let held ← lift (s.heldKey existing)
  let personal := decide (v.kind = .personal)
  let d := decideKey held offered personal v.keyVersion
  attempt (fun s => s.upsertVault v.id (.ofKind v.kind) v.name v.teamId v.myRole d.install
    d.keyVersion)
  exec (fun s => s.setVaultSessionLogging v.id v.sessionLogging)
  exec (fun s => s.setVaultDefault v.id v.isDefault)
  match d.rotatedFrom with
  | some old => do let _ ← Store.reencryptVault v.id old nonce
  | none => ret ()
  let nowUnlocked := d.install.isSome || existing.any LocalVault.unlocked
  return (nowUnlocked, personal && nowUnlocked && decide (d.keyVersion = v.keyVersion)
    && decide (offered.map Prod.snd = some .anonymous))

/-- Mirror the vaults of the list, one by one. -/
def mirrorVaults (privateKey : KeyPair) (vaults : List LocalVault) (nonce : ℕ → Uuid → Nonce) :
    List Vault → Script Store CoreError AppliedVaults
  | [] => return ⟨[], []⟩
  | v :: vs => do
    let (nowUnlocked, reseal) ← mirrorVault privateKey vaults (nonce vs.length) v
    let rest ← mirrorVaults privateKey vaults nonce vs
    return ⟨(if nowUnlocked then [v.id] else []) ++ rest.unlocked,
      (if reseal then [(v.id, v.keyVersion)] else []) ++ rest.reseal⟩

end

/-- The synced vaults the list does not have. -/
def unlisted (remote : List Vault) (vaults : List LocalVault) : List LocalVault :=
  vaults.filter (fun l => l.kind.isSynced && !remote.any (fun v => decide (v.id = l.id)))

/-- Remove the synced vaults the list does not have. -/
def dropVaults (remote : List Vault) (vaults : List LocalVault) : Script Store CoreError Unit :=
  Script.each (fun l => .attempt (fun s => s.removeVault l.id)) (unlisted remote vaults)

/-- The place of a vault in reports: personal vaults first, then in the order of the list. -/
def reportRank (remote : List Vault) (id : Uuid) : ℕ :=
  match remote.find? (fun v => decide (v.id = id)) with
  | some v => (if v.kind = .personal then 0 else remote.length)
      + remote.findIdx (fun v => decide (v.id = id))
  | none => 0

/-- Mirror the server's vault list into the store. -/
def applyVaultList [Boxes] (privateKey : KeyPair) (remote : List Vault)
    (nonce : ℕ → Uuid → Nonce) : Script Store CoreError AppliedVaults := do
  let s ← .read
  let vaults := s.listVaults
  let applied ← mirrorVaults privateKey vaults nonce remote
  dropVaults remote vaults
  return { applied with
    unlocked := applied.unlocked.insertionSort
      (fun a b => reportRank remote a ≤ reportRank remote b) }

end Termoso.Core
