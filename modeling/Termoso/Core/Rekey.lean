import Termoso.Core.Logs

/-!
# A new master key

The database seals the keys of its vaults, the secrets of the account and some of its settings with
the master key of the device.  An open store holds the keys of its vaults unwrapped; the contents of
the vaults, the files of recordings among them, are under these keys.

Changing the master key seals everything anew, row by row.  There is no transaction.  Settings are
found by the prefix of their names, which whoever writes a secret setting has to respect.
-/

namespace Termoso.Core

/-! ### The database -/

/-- A vault key, wrapped with the master key. -/
structure WrappedKey where
  id : Uuid
  wrapped : String
deriving DecidableEq

instance : Keyed WrappedKey Uuid := ⟨WrappedKey.id⟩

/-- A setting. Secret ones are sealed with the master key. -/
structure Setting where
  name : String
  value : String
deriving DecidableEq

instance : Keyed Setting String := ⟨Setting.name⟩

/-- The secrets of the account, sealed with the master key. -/
structure SealedAccount where
  token : String
  wrappedPrivateKey : String
deriving DecidableEq

/-- Token and private key of the signed-in account. -/
structure AccountSecrets where
  token : String
  privateKey : SymmetricKey
deriving DecidableEq

/-- What a database holds: what the master key seals, and the rest, without vault keys. -/
structure Database where
  wrappedKeys : Table WrappedKey
  account : Option SealedAccount
  settings : Table Setting
  contents : Store

/-- An open store. The cache has the keys of the vaults. -/
structure OpenStore where
  master : SymmetricKey
  keys : List (Uuid × SymmetricKey)
  db : Database

/-- The sealed texts, each of which is given a nonce of its own. -/
inductive Secret
  | vaultKey (id : Uuid)
  | token
  | privateKey
  | setting (name : String)
deriving DecidableEq

def wrapAad (vaultId : Uuid) : Aad := Aad.label ["local", "vault-key", toString vaultId]
def tokenAad : Aad := Aad.label ["local", "session-token"]
def privateKeyAad : Aad := Aad.label ["local", "account-private-key"]
def settingAad (name : String) : Aad := Aad.label ["local", "meta", name]

section
variable [Primitives]

/-- Wrap a symmetric key with another key. -/
def wrapKey (kek : SymmetricKey) (aad : Aad) (nonce : Nonce) (key : SymmetricKey) : String :=
  encryptB64 kek aad nonce key.toList

/-- Unwrap a symmetric key. -/
def unwrapKey (kek : SymmetricKey) (aad : Aad) (wrapped : String) :
    Except CryptoError SymmetricKey := do
  SymmetricKey.fromSlice (← decryptB64 kek aad wrapped)

/-- The cache of the keys of some rows. A key that cannot be unwrapped ends it. -/
def loadKeys (master : SymmetricKey) :
    List WrappedKey → Except CoreError (List (Uuid × SymmetricKey))
  | [] => .ok []
  | r :: rows =>
    match unwrapKey master (wrapAad r.id) r.wrapped with
    | .error e => .error (.crypto e)
    | .ok key => (loadKeys master rows).map ((r.id, key) :: ·)

/-- Open a database with a local vault. -/
def Database.open (db : Database) (master : SymmetricKey) : Except CoreError OpenStore :=
  (loadKeys master db.wrappedKeys.rows).map (fun keys => ⟨master, keys, db⟩)

namespace OpenStore

/-! ### Reading -/

/-- Vault key, if unlocked. -/
def vaultKey (s : OpenStore) (vaultId : Uuid) : Except CoreError SymmetricKey :=
  match s.keys.lookup vaultId with
  | some key => .ok key
  | none => .error (.vaultLocked vaultId)

/-- Read a setting that is encrypted with the master key. -/
def secretMeta (s : OpenStore) (name : String) : Except CoreError (Option String) :=
  match s.db.settings.get? name with
  | none => .ok none
  | some m => (CoreError.lift (decryptStr s.master (settingAad name) m.value)).map some

/-- Token and private key of the signed-in account. -/
def accountSecrets (s : OpenStore) : Except CoreError AccountSecrets := do
  let some account := s.db.account | throw .notSignedIn
  let token ← CoreError.lift (decryptStr s.master tokenAad account.token)
  let sk ← CoreError.lift (decryptB64 s.master privateKeyAad account.wrappedPrivateKey)
  let privateKey ← CoreError.lift (SymmetricKey.fromSlice sk)
  return ⟨token, privateKey⟩

/-- The contents with the keys of the vaults, as every reader of them sees it. -/
def view (s : OpenStore) : Store :=
  { s.db.contents with
    vaults := s.db.contents.vaults.update (fun _ => true)
      (fun v => { v with wrappedKey := s.keys.lookup v.id }) (fun _ => rfl) }

/-! ### Writing -/

/-- Write a setting encrypted with the master key. -/
def setSecretMeta (s : OpenStore) (name value : String) (nonce : Nonce) : OpenStore :=
  let ct := encryptStr s.master (settingAad name) nonce value
  { s with
    db := { s.db with
      settings := s.db.settings.upsert ⟨name, ct⟩ (fun m => { m with value := ct })
        (fun _ => rfl) } }

/-- The device keys, the workspaces, and the secrets of the cloud imports: what is written. -/
def KEYS_META : String := "sshid.device_keys"
def META_KEY : String := "desktop.workspaces"
def SECRET_PREFIX : String := "secret:cloud_sync:"

/-- Whether a name is like `secret:%`, letters of either case. -/
def likeSecret (name : String) : Bool :=
  "secret:".toList.isPrefixOf (name.toList.map Char.toLower)

end OpenStore

/-! ### The change -/

/-- Store a wrapped vault key. -/
def OpenStore.setWrappedKey (s : OpenStore) (id : Uuid) (wrapped : String) : OpenStore :=
  { s with
    db := { s.db with
      wrappedKeys := s.db.wrappedKeys.set id (fun r => { r with wrapped }) (fun _ => rfl) } }

/-- Store the secrets of the account. -/
def OpenStore.setAccountSecrets (s : OpenStore) (token wrappedPrivateKey : String) : OpenStore :=
  { s with db := { s.db with account := s.db.account.map (fun _ => ⟨token, wrappedPrivateKey⟩) } }

/-- Store the value of a setting that exists. -/
def OpenStore.updateSetting (s : OpenStore) (name value : String) : OpenStore :=
  { s with
    db := { s.db with
      settings := s.db.settings.set name (fun m => { m with value }) (fun _ => rfl) } }

variable (old new : SymmetricKey) (nonce : Secret → Nonce)

/-- Wrap the vault keys of the cache anew. -/
def resealKeys (keys : List (Uuid × SymmetricKey)) : Script OpenStore CoreError Unit :=
  Script.each (fun x => .exec (fun s =>
    s.setWrappedKey x.1 (wrapKey new (wrapAad x.1) (nonce (.vaultKey x.1)) x.2))) keys

/-- Seal the secrets of the account anew, when they could be read. -/
def resealAccount (account : Option AccountSecrets) : Script OpenStore CoreError Unit :=
  match account with
  | some a =>
    .exec (fun s => s.setAccountSecrets (encryptStr new tokenAad (nonce .token) a.token)
      (encryptB64 new privateKeyAad (nonce .privateKey) a.privateKey.toList))
  | none => .ret ()

/-- Seal settings anew. -/
def resealSettings (settings : List Setting) : Script OpenStore CoreError Unit :=
  Script.each (fun m => .attempt (fun s => do
    let pt ← CoreError.lift (decryptStr old (settingAad m.name) m.value)
    return s.updateSetting m.name
      (encryptStr new (settingAad m.name) (nonce (.setting m.name)) pt))) settings

end

/-- Re-encrypt every row with a new master key. The keys of the cache are visited in any order. -/
def rekey [Primitives] (new : SymmetricKey) (order : List (Uuid × SymmetricKey))
    (nonce : Secret → Nonce) : Script OpenStore CoreError Unit := do
  let s ← Script.read
  let account := s.accountSecrets.toOption
  let secretMeta := s.db.settings.select (fun m => OpenStore.likeSecret m.name)
  Script.exec (fun s => { s with master := new })
  resealKeys new nonce order
  resealAccount new nonce account
  resealSettings s.master new nonce secretMeta

/-- Decrypted recording body. -/
def Store.readLog [Primitives] (s : Store) (id : Uuid) : Except CoreError Bytes := do
  let some row := s.logRow id | throw (.notFound s!"log {id}")
  let some path := row.localPath | throw (.notFound s!"log {id} body not cached")
  let key ← s.vaultKey row.vaultId
  let some ct := s.files path | throw .db
  CoreError.lift (decrypt key (bodyAad id) ct)

end Termoso.Core
