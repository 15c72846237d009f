import Termoso.Proto

/-!
# The keychain

SSH keys of a vault, and what their public halves are.  Reading and making keys is a library,
and enters as a parameter.  A host keeps the public keys it lets in, one on a line; a line is
known by its type and body, whatever comment follows.
-/

namespace Termoso.Client

/-- Key algorithm for generation. -/
inductive KeyAlgorithm
  | ed25519
  | rsa (bits : ℕ)
  | ecdsaP256
  | ecdsaP384
  | ecdsaP521
deriving DecidableEq

/-- Summary of a key. -/
structure KeyInfo where
  keyType : String
  bits : ℕ
  publicKey : String
deriving DecidableEq

/-- A freshly generated or imported key, in text form. -/
structure KeyMaterial where
  privateKey : String
  publicKey : String
  info : KeyInfo
deriving DecidableEq

/-- Reading and making keys. `generate` draws what is random from its last argument. -/
class KeyLibrary where
  inspect : String → Option KeyInfo
  generate : KeyAlgorithm → String → Option String → ℕ → Except String KeyMaterial
  importKey : String → Option String → Except String KeyMaterial
  /-- Whether a certificate is for a public key, when it is one. -/
  certificateMatches : String → String → Except String Bool

/-- An SSH key in a vault. -/
structure SshKey where
  label : String
  privateKey : String
  publicKey : Option String
  passphrase : Option String
  keyType : String
  fido2CredentialId : Option String
  sshId : Bool
deriving DecidableEq

/-- The words of a text. -/
def splitWhitespace (s : String) : List String :=
  ((s.toList.splitOnP isWhitespace).filter (fun w => !w.isEmpty)).map String.ofList

/-- What identifies a key regardless of its comment. -/
def keyBlob (line : String) : String := " ".intercalate ((splitWhitespace line).take 2)

/-! ### Keys of the vault -/

/-- The short name a key type is stored under. -/
def shortType (info : KeyInfo) : String :=
  if info.keyType = "ssh-ed25519" then "ed25519"
  else if info.keyType = "ssh-rsa" then "rsa"
  else if info.keyType = "sk-ssh-ed25519@openssh.com" then "sk-ed25519"
  else if info.keyType = "sk-ecdsa-sha2-nistp256@openssh.com" then "sk-ecdsa"
  else if "ecdsa".toList.isPrefixOf info.keyType.toList then "ecdsa"
  else info.keyType

/-- A label as it is stored. -/
def labelOf (s what : String) : Except String String :=
  if trim s = "" then .error (what ++ " label is required")
  else if (trim s).length > 200 then .error (what ++ " label is too long")
  else .ok (trim s)

/-- A text, unless it is empty. -/
def nonEmpty (s : Option String) : Option String := s.filter (fun p => decide (p ≠ ""))

structure GenerateForm where
  label : String
  algorithm : KeyAlgorithm
  comment : String
  passphrase : Option String
  rememberPassphrase : Bool

structure ImportForm where
  label : String
  privateKey : String
  passphrase : Option String
  rememberPassphrase : Bool
  certificate : Option String

section
variable [KeyLibrary]

/-- The record of a key. -/
def recordOf (label : String) (material : KeyMaterial) (passphrase : Option String)
    (remember : Bool) : SshKey :=
  ⟨label, material.privateKey, some material.publicKey, if remember then passphrase else none,
    shortType material.info, none, false⟩

/-- Make a key. -/
def generate (form : GenerateForm) (random : ℕ) : Except String SshKey := do
  let label ← labelOf form.label "key"
  let passphrase := nonEmpty form.passphrase
  let material ← KeyLibrary.generate form.algorithm (trim form.comment) passphrase random
  return recordOf label material passphrase form.rememberPassphrase

/-- Check a certificate that comes with a key. -/
def checkCertificate (publicKey : String) : Option String → Except String Unit
  | none => .ok ()
  | some c => do
    if !(← KeyLibrary.certificateMatches c publicKey) then
      throw "the certificate is for another key"

/-- Take in a key, with the certificate that goes with it. -/
def importKey (form : ImportForm) : Except String (SshKey × Option String) := do
  let label ← labelOf form.label "key"
  let passphrase := nonEmpty form.passphrase
  let material ← KeyLibrary.importKey form.privateKey passphrase
  let certificate := nonEmpty (form.certificate.map trim)
  checkCertificate material.publicKey certificate
  return (recordOf label material passphrase form.rememberPassphrase, certificate)

/-- The public half of a key. -/
def publicKey (key : SshKey) : Except String String :=
  match KeyLibrary.inspect key.privateKey with
  | some info => .ok info.publicKey
  | none => key.publicKey.elim (.error "key has no public half") .ok

end

/-! ### Keys a host lets in -/

/-- Whether a host lets in a key. -/
def hasKey (line : String) (authorizedKeys : List String) : Bool :=
  authorizedKeys.any (fun l => decide (keyBlob l = keyBlob line))

/-- Let in a key, unless the host does already. -/
def exportKey (line : String) (authorizedKeys : List String) : List String :=
  if hasKey line authorizedKeys then authorizedKeys else authorizedKeys ++ [line]

/-- No longer let in a key. -/
def removeKey (line : String) (authorizedKeys : List String) : List String :=
  authorizedKeys.filter (fun l => decide (keyBlob l ≠ keyBlob line))

@[simp]
theorem hasKey_exportKey (line line' : String) (authorizedKeys : List String) :
  hasKey line' (exportKey line authorizedKeys)
    = (hasKey line' authorizedKeys || decide (keyBlob line = keyBlob line'))
  := by
  rw [exportKey]
  split
  · rename_i h
    by_cases heq : keyBlob line = keyBlob line'
    · rw [hasKey, heq] at h
      simp [heq, hasKey, h]
    · simp [heq]
  · simp [hasKey]

@[simp]
theorem hasKey_removeKey (line line' : String) (authorizedKeys : List String) :
  hasKey line' (removeKey line authorizedKeys)
    = (hasKey line' authorizedKeys && decide (keyBlob line ≠ keyBlob line'))
  := by
  rw [Bool.eq_iff_iff]
  simp only [hasKey, removeKey, List.any_eq_true, List.mem_filter, decide_eq_true_eq,
    Bool.and_eq_true]
  constructor
  · rintro ⟨l, ⟨hl, hne⟩, heq⟩
    exact ⟨⟨l, hl, heq⟩, fun h => hne (heq.trans h.symm)⟩
  · rintro ⟨⟨l, hl, heq⟩, hne⟩
    exact ⟨l, ⟨hl, fun h => hne (h.symm.trans heq)⟩, heq⟩

end Termoso.Client
