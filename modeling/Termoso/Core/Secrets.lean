import Termoso.Crypto
import Termoso.Lib.Faults
import Termoso.Lib.Result
import Termoso.Lib.Transition

/-!
# The master key of the device

One key for each profile protects what the local database holds.  It is in the keychain of the
system, or in the file `master.key` when there is no keychain, or wrapped under a password in the
file `master.pw`.  Every call of the keychain and of the file system may fail, or be the last
one before the process ends; a write may then be done in part.

The password hash and the text of a password record are libraries', and so is base64, of which
the program relies on that a line torn off early is not the text of another key.
-/

namespace Termoso.Core

def PASSWORD_FORMAT_VERSION : ℕ := 1

/-- Shortest master password accepted. -/
def MIN_PASSWORD_CHARS : ℕ := 8

/-- Where the master key came from. -/
inductive MasterKeySource
  | keychain
  | file
  | password
deriving DecidableEq

/-- Cost of the password hash. -/
structure PasswordParams where
  mCost : ℕ
  tCost : ℕ
  pCost : ℕ
deriving DecidableEq

/-- The default cost. -/
def PasswordParams.default : PasswordParams := ⟨64 * 1024, 3, 1⟩

/-- What is in `master.pw`. -/
structure PasswordRecord where
  version : ℕ
  kdf : String
  params : PasswordParams
  salt : String
  wrapped : String
deriving DecidableEq

/-- The password hash, the text of a record, and lines of base64. -/
class KeyStorage extends Primitives where
  passwordKey : Bytes → Bytes → PasswordParams → Except CryptoError SymmetricKey
  toJson : PasswordRecord → Bytes
  fromJson : Bytes → Option PasswordRecord
  unb64_line : ∀ bytes, unb64 (b64 bytes ++ "\n") = some bytes
  unb64_torn : ∀ bytes bytes' n, unb64 (String.ofList ((b64 bytes ++ "\n").toList.take n)) = some bytes' →
    bytes' = bytes ∨ bytes'.length ≠ bytes.length

/-- Errors. -/
inductive SecretsError
  | invalid (what : String)
  | keychain (what : String)
  | wrongPassword
  | io
  | json
  | crypto (e : CryptoError)
deriving DecidableEq

/-- Loaded master key and its provenance. -/
structure MasterKey where
  key : SymmetricKey
  source : MasterKeySource
deriving DecidableEq

/-- Where the key of a profile is kept: the entry of the keychain, and the files. -/
structure Profile where
  keychain : Option String
  masterKey : Option String
  masterPw : Option Bytes
  masterPwTmp : Option Bytes
deriving DecidableEq

/-- A profile without a key. -/
def Profile.empty : Profile := ⟨none, none, none, none⟩

/-- A program on a profile. -/
abbrev Secrets (α : Type) := Faulty Profile SecretsError α

namespace Secrets

/-- Fail with an error. -/
def fail {α : Type} (e : SecretsError) : Secrets α := Faulty.lift (.error e)

/-- A call of the file system that changes nothing here. -/
def touch : Secrets Unit := Faulty.call .io (fun p => .ok ((), p))

section
variable [KeyStorage]

open KeyStorage

/-- The base64 text of a key. -/
def toB64 (key : SymmetricKey) : String := Primitives.b64 key.toList

/-- The key with a base64 text. -/
def fromB64 (s : String) : Except CryptoError SymmetricKey := do
  SymmetricKey.fromSlice (← unb64 s)

/-! ### The keychain -/

def keychainGet : Secrets (Option SymmetricKey) := do
  let entry ← Faulty.call (.keychain "unavailable") (fun p : Profile => .ok (p.keychain, p))
  match entry with
  | none => pure none
  | some s =>
    let key ← Faulty.lift ((fromB64 s).mapError (fun _ => .keychain "corrupt keychain entry"))
    pure (some key)

def keychainSet (key : SymmetricKey) : Secrets Unit :=
  Faulty.call (.keychain "unavailable") (fun p => .ok ((), { p with keychain := some (toB64 key) }))

omit [KeyStorage] in
def keychainDelete : Secrets Unit :=
  Faulty.call (.keychain "unavailable") (fun p => .ok ((), { p with keychain := none }))

/-! ### The key file -/

def readFile : Secrets SymmetricKey := do
  let s ← Faulty.call .io (fun p : Profile =>
    match p.masterKey with
    | some s => .ok (s, p)
    | none => .error .io)
  Faulty.lift ((fromB64 s).mapError (fun _ => .keychain "corrupt master.key"))

/-- Append to the key file. -/
def appendFile (text : String) : Secrets Unit :=
  Faulty.write .io text.toList.length (fun n p =>
    { p with masterKey := p.masterKey.map (fun s => s ++ String.ofList (text.toList.take n)) })

/-- Write the key file, which must not be there. -/
def writeFile (key : SymmetricKey) : Secrets Unit := do
  touch
  Faulty.call .io (fun p =>
    if p.masterKey.isSome then .error .io else .ok ((), { p with masterKey := some "" }))
  appendFile (toB64 key)
  appendFile "\n"

def removeFile : Secrets Unit :=
  Faulty.call .io (fun p =>
    if p.masterKey.isSome then .ok ((), { p with masterKey := none }) else .error .io)

/-- Best effort: remove the plain copies of the key. -/
def removePlainCopies : Secrets Unit := do
  let p ← Faulty.read
  if p.masterKey.isSome then
    let _ ← Faulty.attempt removeFile
  let _ ← Faulty.attempt keychainDelete

/-! ### The password record -/

def recordAad (record : PasswordRecord) : Aad :=
  Aad.label ["master-key", "password", toString record.version, record.salt]

/-- Wrap a key under a password. -/
def wrapRecord (key : SymmetricKey) (password : String) (params : PasswordParams)
    (salt : Vector UInt8 16) (nonce : Nonce) : Except SecretsError PasswordRecord := do
  let record : PasswordRecord :=
    ⟨PASSWORD_FORMAT_VERSION, "argon2id", params, Primitives.b64 salt.toList, ""⟩
  let wrapping ← (passwordKey (utf8 password) salt.toList params).mapError .crypto
  pure { record with wrapped := encryptB64 wrapping (recordAad record) nonce key.toList }

/-- Unwrap the key of a record. -/
def unwrapRecord (record : PasswordRecord) (password : String) : Except SecretsError SymmetricKey := do
  if record.version ≠ PASSWORD_FORMAT_VERSION ∨ record.kdf ≠ "argon2id" then
    throw (.invalid ("unsupported master.pw format (version " ++ toString record.version ++ ", "
      ++ record.kdf ++ ")"))
  if record.params.mCost > 4 * 1024 * 1024 ∨ record.params.tCost > 64 ∨ record.params.pCost > 16 then
    throw (.invalid "master.pw asks for unreasonable KDF cost")
  let salt ← (unb64 record.salt).mapError (fun _ => .invalid "master.pw is corrupted")
  let wrapping ← (passwordKey (utf8 password) salt record.params).mapError .crypto
  let raw ← (decryptB64 wrapping (recordAad record) record.wrapped).mapError (fun _ => .wrongPassword)
  (SymmetricKey.fromSlice raw).mapError (fun _ => .invalid "master.pw is corrupted")

/-- Read the text of a record. -/
def parseRecord (bytes : Bytes) : Except SecretsError PasswordRecord :=
  match fromJson bytes with
  | some record => .ok record
  | none => .error .json

/-- Check that a text is that of a record of a key under a password. -/
def verifyRecord (key : SymmetricKey) (password : String) (onDisk : Bytes) :
    Except SecretsError Unit := do
  let record ← parseRecord onDisk
  let unwrapped ← unwrapRecord record password
  if unwrapped = key then pure () else throw (.invalid "master.pw read-back mismatch")

omit [KeyStorage] in
def removeTmp : Secrets Unit :=
  Faulty.call .io (fun p =>
    if p.masterPwTmp.isSome then .ok ((), { p with masterPwTmp := none }) else .error .io)

omit [KeyStorage] in
def readTmp : Secrets Bytes :=
  Faulty.call .io (fun p : Profile =>
    match p.masterPwTmp with
    | some bytes => .ok (bytes, p)
    | none => .error .io)

omit [KeyStorage] in
/-- Rename the file beside `master.pw`, which replaces what was there. -/
def renameTmp : Secrets Unit :=
  Faulty.call .io (fun p =>
    match p.masterPwTmp with
    | some bytes => .ok ((), { p with masterPw := some bytes, masterPwTmp := none })
    | none => .error .io)

omit [KeyStorage] in
/-- Write `master.pw` by way of a file beside it, which is read back and renamed. -/
def writeAtomic (contents : Bytes) (verify : Bytes → Except SecretsError Unit) : Secrets Unit := do
  touch
  let p ← Faulty.read
  (if p.masterPwTmp.isSome then removeTmp else pure () : Secrets Unit)
  Faulty.call .io (fun p =>
    if p.masterPwTmp.isSome then .error .io else .ok ((), { p with masterPwTmp := some [] }))
  Faulty.write .io contents.length (fun n p =>
    { p with masterPwTmp := p.masterPwTmp.map (fun s => s ++ contents.take n) })
  touch
  let onDisk ← Faulty.attempt readTmp
  match onDisk.bind verify with
  | .error e =>
    let _ ← Faulty.attempt removeTmp
    fail e
  | .ok () =>
    renameTmp
    let _ ← Faulty.attempt touch

/-! ### The operations -/

/-- Store a fresh key in the keychain, or in a file when that fails. -/
def create (fresh : SymmetricKey) (allowFile : Bool) : Secrets MasterKey := do
  let set ← Faulty.attempt (keychainSet fresh)
  match set with
  | .ok () => pure ⟨fresh, .keychain⟩
  | .error e =>
    if allowFile then
      writeFile fresh
      pure ⟨fresh, .file⟩
    else fail e

/-- Load the master key, or create it. -/
def loadOrCreate (fresh : SymmetricKey) (allowFile : Bool) : Secrets MasterKey := do
  let p ← Faulty.read
  if p.masterPw.isSome then fail (.invalid "the master key is protected by a password")
  else
    let got ← Faulty.attempt keychainGet
    match got with
    | .ok (some key) => pure ⟨key, .keychain⟩
    | _ =>
      let p ← Faulty.read
      if p.masterKey.isSome then
        let key ← readFile
        pure ⟨key, .file⟩
      else create fresh allowFile

/-- Move a key from the file into the keychain. -/
def migrateFileToKeychain : Secrets Bool := do
  let p ← Faulty.read
  if p.masterKey.isNone then pure false
  else
    let key ← readFile
    keychainSet key
    removeFile
    pure true

/-- Unwrap the master key of a profile with a password. -/
def unlockWithPassword (password : String) : Secrets MasterKey := do
  let bytes ← Faulty.call .io (fun p : Profile =>
    match p.masterPw with
    | some bytes => .ok (bytes, p)
    | none => .error .io)
  let record ← Faulty.lift (parseRecord bytes)
  let key ← Faulty.lift (unwrapRecord record password)
  removePlainCopies
  pure ⟨key, .password⟩

/-- Put a key behind a password. -/
def setPassword (key : SymmetricKey) (password : String) (salt : Vector UInt8 16) (nonce : Nonce) :
    Secrets Unit := do
  if password.toList.length < MIN_PASSWORD_CHARS then
    fail (.invalid ("master password must be at least " ++ toString MIN_PASSWORD_CHARS ++ " characters"))
  else
    let record ← Faulty.lift (wrapRecord key password .default salt nonce)
    writeAtomic (toJson record) (verifyRecord key password)
    removePlainCopies

/-- Store a key in the keychain, or in a file when that fails. -/
def storePlain (key : SymmetricKey) (allowFile : Bool) : Secrets MasterKeySource := do
  let set ← Faulty.attempt (keychainSet key)
  match set with
  | .ok () => pure .keychain
  | .error e =>
    if allowFile then
      let p ← Faulty.read
      (if p.masterKey.isSome then removeFile else pure () : Secrets Unit)
      writeFile key
      pure .file
    else fail e

/-- Drop the password: store the key, then delete `master.pw`. -/
def removePassword (key : SymmetricKey) (allowFile : Bool) : Secrets MasterKeySource := do
  let source ← storePlain key allowFile
  Faulty.call .io (fun p =>
    if p.masterPw.isSome then .ok ((), { p with masterPw := none }) else .error .io)
  pure source

end

end Secrets

/-! ### Sessions -/

/-- A profile, the key in memory, the passwords that may be set, and the keys that were returned. -/
structure Session where
  profile : Profile
  held : Option SymmetricKey
  passwords : List String
  returned : List SymmetricKey
deriving DecidableEq

/-- An operation on the key of a profile, what it draws at random, and what becomes of its calls. -/
inductive SessionEvent
  | load (fresh : SymmetricKey) (allowFile : Bool) (fates : List Fate)
  | migrate (fates : List Fate)
  | setPassword (password : String) (salt : Vector UInt8 16) (nonce : Nonce) (fates : List Fate)
  | unlock (password : String) (fates : List Fate)
  | removePassword (allowFile : Bool) (fates : List Fate)

namespace Session

/-- A key is loaded. When the process ends, it is out of memory. -/
def opened (s : Session) : Outcome SecretsError MasterKey × Profile × List Fate → Session
  | (.ok m, p, _) => { s with profile := p, held := some m.key, returned := s.returned ++ [m.key] }
  | (.error _, p, _) => { s with profile := p }
  | (.stopped, p, _) => { s with profile := p, held := none }

/-- An operation that loads no key. -/
def ran {α : Type} (s : Session) : Outcome SecretsError α × Profile × List Fate → Session
  | (.stopped, p, _) => { s with profile := p, held := none }
  | (_, p, _) => { s with profile := p }

/-- A password is set, or may be. -/
def passwordSet (s : Session) (password : String) :
    Outcome SecretsError Unit × Profile × List Fate → Session
  | (.ok _, p, _) => { s with profile := p, passwords := [password] }
  | (.error _, p, _) => { s with profile := p }
  | (.stopped, p, _) =>
    { s with profile := p, held := none, passwords := s.passwords ++ [password] }

variable [KeyStorage]

/-- The session after an operation. -/
def step (s : Session) : SessionEvent → Option Session
  | .load fresh allowFile fates => some (s.opened (Secrets.loadOrCreate fresh allowFile s.profile fates))
  | .migrate fates => some (s.ran (Secrets.migrateFileToKeychain s.profile fates))
  | .setPassword password salt nonce fates =>
    s.held.map (fun key =>
      s.passwordSet password (Secrets.setPassword key password salt nonce s.profile fates))
  | .unlock password fates => some (s.opened (Secrets.unlockWithPassword password s.profile fates))
  | .removePassword allowFile fates =>
    s.held.map (fun key => s.ran (Secrets.removePassword key allowFile s.profile fates))

/-- Sessions of a profile, on from when its key was first loaded. -/
def system : TransitionSystem Session SessionEvent where
  init s := ∃ fresh allowFile fates m p rest,
    Secrets.loadOrCreate fresh allowFile .empty fates = (.ok m, p, rest)
      ∧ s = ⟨p, some m.key, [], [m.key]⟩
  step := step

end Session

end Termoso.Core
