import Termoso.Proto
import Mathlib.Data.List.Basic

/-!
# Encryption

Envelopes are sealed with XChaCha20-Poly1305 under a symmetric key and bound to associated
data; they travel as base64 texts.  The cipher and base64 come from libraries, and enter as
the class `Primitives` with the laws the program relies on: what is sealed opens, what opens
was sealed, and opens only under the key it was sealed with.  The layout of envelopes is the program's own.

A vault key is handed to a member in a sealed box, anonymous or self-authenticated;
`openVaultKeyChecked` reports which.
-/

namespace Termoso

abbrev Bytes := List UInt8

/-- A symmetric key of 32 bytes. -/
abbrev SymmetricKey := Vector UInt8 32

/-- XChaCha20 nonce. -/
abbrev Nonce := Vector UInt8 24

/-- Base64 and the authenticated cipher. -/
class Primitives where
  b64 : Bytes → String
  /-- The bytes of a base64 text, ignoring surrounding blanks. -/
  unb64 : String → Option Bytes
  unb64_b64 : ∀ bytes, unb64 (b64 bytes) = some bytes
  /-- Ciphertext and tag of a plaintext. -/
  cipherEncrypt : SymmetricKey → Bytes → Bytes → Bytes → Bytes
  /-- The plaintext of a ciphertext with a valid tag. -/
  cipherDecrypt : SymmetricKey → Bytes → Bytes → Bytes → Option Bytes
  tagged : ∀ key nonce aad plaintext, 16 ≤ (cipherEncrypt key nonce aad plaintext).length
  decrypt_encrypt : ∀ key nonce aad plaintext,
    cipherDecrypt key nonce aad (cipherEncrypt key nonce aad plaintext) = some plaintext
  encrypt_of_decrypt : ∀ key nonce aad ciphertext plaintext,
    cipherDecrypt key nonce aad ciphertext = some plaintext →
      ciphertext = cipherEncrypt key nonce aad plaintext
  key_of_decrypt : ∀ key key' nonce aad aad' plaintext plaintext',
    cipherDecrypt key' nonce aad' (cipherEncrypt key nonce aad plaintext) = some plaintext' →
      key' = key

inductive CryptoError
  | base64
  | decrypt
  | envelope
  | key
deriving DecidableEq

/-! ### Associated data -/

def PROTOCOL_VERSION : String := "termoso/v1"

/-- Associated data of an envelope, in UTF-8. -/
abbrev Aad := String

namespace Aad

/-- Label under the protocol namespace. -/
def label (parts : List String) : Aad :=
  parts.foldl (fun s p => s ++ "/" ++ p) PROTOCOL_VERSION

/-- Associated data of a whole entity payload. -/
def entity (kind : String) (id : Uuid) : Aad := label ["entity", kind, toString id]

end Aad

/-- The UTF-8 bytes of a text. -/
def utf8 (s : String) : Bytes := s.toUTF8.data.toList

/-- The text with the given UTF-8 bytes. -/
def fromUtf8 (bytes : Bytes) : Option String := String.fromUTF8? ⟨bytes.toArray⟩

theorem fromUtf8_utf8 (s : String) :
  fromUtf8 (utf8 s) = some s
  := by
  simp only [fromUtf8, String.fromUTF8?, Option.dite_none_right_eq_some, Option.some.injEq]
  exact ⟨s.isValidUTF8, rfl⟩

/-! ### Envelopes -/

def ENVELOPE_V1 : UInt8 := 1
def NONCE_LEN : ℕ := 24
def TAG_LEN : ℕ := 16

section
variable [Primitives]

open Primitives

/-- Decode a base64 text. -/
def unb64 (s : String) : Except CryptoError Bytes :=
  match Primitives.unb64 s with
  | some bytes => .ok bytes
  | none => .error .base64

/-- Encrypt `plaintext` under `key`, binding `aad`, with a fresh `nonce`. -/
def encrypt (key : SymmetricKey) (aad : Aad) (nonce : Nonce) (plaintext : Bytes) : Bytes :=
  ENVELOPE_V1 :: (nonce.toList ++ cipherEncrypt key nonce.toList (utf8 aad) plaintext)

/-- Decrypt a binary envelope. -/
def decrypt (key : SymmetricKey) (aad : Aad) (envelope : Bytes) : Except CryptoError Bytes :=
  if envelope.length < 1 + NONCE_LEN + TAG_LEN then .error .envelope
  else
    match envelope with
    | [] => .error .envelope
    | version :: rest =>
      if version ≠ ENVELOPE_V1 then .error .envelope
      else
        match cipherDecrypt key (rest.take NONCE_LEN) (utf8 aad) (rest.drop NONCE_LEN) with
        | some plaintext => .ok plaintext
        | none => .error .decrypt

/-- Encrypt and return a base64 envelope. -/
def encryptB64 (key : SymmetricKey) (aad : Aad) (nonce : Nonce) (plaintext : Bytes) : String :=
  b64 (encrypt key aad nonce plaintext)

/-- Decrypt a base64 envelope. -/
def decryptB64 (key : SymmetricKey) (aad : Aad) (envelope : String) :
    Except CryptoError Bytes := do
  decrypt key aad (← unb64 envelope)

/-- Encrypt a text. -/
def encryptStr (key : SymmetricKey) (aad : Aad) (nonce : Nonce) (value : String) : String :=
  encryptB64 key aad nonce (utf8 value)

/-- Decrypt to a text. -/
def decryptStr (key : SymmetricKey) (aad : Aad) (envelope : String) :
    Except CryptoError String := do
  match fromUtf8 (← decryptB64 key aad envelope) with
  | some value => .ok value
  | none => .error .decrypt

variable {key key' : SymmetricKey} {aad aad' : Aad} {nonce : Nonce} {plaintext : Bytes}

@[simp]
theorem unb64_encryptB64 :
  unb64 (encryptB64 key aad nonce plaintext) = .ok (encrypt key aad nonce plaintext)
  := by
  simp [unb64, encryptB64, Primitives.unb64_b64]

theorem length_encrypt :
  ¬ (encrypt key aad nonce plaintext).length < 1 + NONCE_LEN + TAG_LEN
  := by
  have := tagged key nonce.toList (utf8 aad) plaintext
  simp [encrypt, NONCE_LEN, TAG_LEN]
  omega

/-- What is decrypted from an envelope that the program made. -/
theorem decrypt_encrypt_eq :
  decrypt key' aad' (encrypt key aad nonce plaintext)
    = match cipherDecrypt key' nonce.toList (utf8 aad')
          (cipherEncrypt key nonce.toList (utf8 aad) plaintext) with
      | some plaintext' => .ok plaintext'
      | none => .error .decrypt
  := by
  unfold decrypt
  rw [if_neg length_encrypt]
  simp only [encrypt, ne_eq, not_true_eq_false, if_false]
  rw [List.take_left' (by simp [NONCE_LEN]), List.drop_left' (by simp [NONCE_LEN])]

/-- An envelope opens under the key and associated data it was made with. -/
@[simp]
theorem decrypt_encrypt :
  decrypt key aad (encrypt key aad nonce plaintext) = .ok plaintext
  := by
  rw [decrypt_encrypt_eq, Primitives.decrypt_encrypt]

/-- An envelope opens only under the key it was made with. -/
theorem key_of_decrypt {plaintext' : Bytes}
    (h : decrypt key' aad' (encrypt key aad nonce plaintext) = .ok plaintext') :
  key' = key
  := by
  rw [decrypt_encrypt_eq] at h
  split at h
  · exact Primitives.key_of_decrypt _ _ _ _ _ _ _ ‹_›
  · cases h

/-- An envelope opens under one key. -/
theorem eq_of_decrypt {envelope plaintext' : Bytes} (h : decrypt key aad envelope = .ok plaintext)
    (h' : decrypt key' aad' envelope = .ok plaintext') :
  key' = key
  := by
  unfold decrypt at h h'
  split at h
  · cases h
  rename_i hlength
  rw [if_neg hlength] at h'
  cases envelope with
  | nil => cases h
  | cons version rest =>
      dsimp only at h h'
      split at h
      · cases h
      rename_i hversion
      rw [if_neg hversion] at h'
      split at h
      · rename_i opened hopen
        split at h'
        · rename_i opened' hopen'
          rw [Primitives.encrypt_of_decrypt _ _ _ _ _ hopen] at hopen'
          exact Primitives.key_of_decrypt _ _ _ _ _ _ _ hopen'
        · cases h'
      · cases h

@[simp]
theorem decryptB64_encryptB64 :
  decryptB64 key aad (encryptB64 key aad nonce plaintext) = .ok plaintext
  := by
  simp [decryptB64, bind, Except.bind]

theorem key_of_decryptB64 {plaintext' : Bytes}
    (h : decryptB64 key' aad' (encryptB64 key aad nonce plaintext) = .ok plaintext') :
  key' = key
  := by
  simp only [decryptB64, unb64_encryptB64, bind, Except.bind] at h
  exact key_of_decrypt h

@[simp]
theorem decryptStr_encryptStr {value : String} :
  decryptStr key aad (encryptStr key aad nonce value) = .ok value
  := by
  simp [decryptStr, encryptStr, bind, Except.bind, fromUtf8_utf8]

/-- A text that opens under a key is valid base64. -/
theorem unb64_of_decryptB64 {envelope : String} (h : decryptB64 key aad envelope = .ok plaintext) :
  ∃ bytes, unb64 envelope = .ok bytes ∧ decrypt key aad bytes = .ok plaintext
  := by
  rw [decryptB64] at h
  cases hb : unb64 envelope with
  | error e =>
      rw [hb] at h
      cases h
  | ok bytes =>
      rw [hb] at h
      exact ⟨bytes, rfl, h⟩

/-- A text opens under one key. -/
theorem eq_of_decryptB64 {envelope : String} {plaintext' : Bytes}
    (h : decryptB64 key aad envelope = .ok plaintext)
    (h' : decryptB64 key' aad' envelope = .ok plaintext') :
  key' = key
  := by
  obtain ⟨bytes, hbytes, hopen⟩ := unb64_of_decryptB64 h
  obtain ⟨bytes', hbytes', hopen'⟩ := unb64_of_decryptB64 h'
  rw [hbytes] at hbytes'
  cases hbytes'
  exact eq_of_decrypt hopen hopen'

/-- A text opens as a string when it opens as bytes in UTF-8. -/
theorem decryptStr_eq_ok {envelope value : String} :
  decryptStr key aad envelope = .ok value
    ↔ ∃ bytes, decryptB64 key aad envelope = .ok bytes ∧ fromUtf8 bytes = some value
  := by
  rw [decryptStr]
  cases hb : decryptB64 key aad envelope with
  | error e => simp [bind, Except.bind]
  | ok bytes =>
      simp only [bind, Except.bind, Except.ok.injEq, exists_eq_left']
      cases hs : fromUtf8 bytes <;> simp

end

/-! ### Sealed vault keys -/

/-- The key pair of an account. -/
structure KeyPair where
  publicKey : Bytes
  secretKey : Bytes
deriving DecidableEq

/-- The sealed boxes of the box library. -/
class Boxes extends Primitives where
  /-- Open an anonymous sealed box with a secret key. -/
  openSeal : Bytes → Bytes → Option Bytes
  /-- Open a box from a public to a secret key, with a nonce. -/
  boxDecrypt : Bytes → Bytes → Bytes → Bytes → Option Bytes

/-- How a vault key was sealed to us. -/
inductive SealedKeyOrigin
  /-- Anyone who knows our public key could have produced it, including the server. -/
  | anonymous
  /-- Only a holder of our account private key could have produced it. -/
  | selfAuthenticated
deriving DecidableEq

def SELF_TAG : UInt8 := 1
def SELF_SEALED_LEN : ℕ := 1 + NONCE_LEN + 32 + 16
def ANON_SEALED_LEN : ℕ := 32 + 32 + 16

/-- The symmetric key with the given bytes. -/
def SymmetricKey.fromSlice (bytes : Bytes) : Except CryptoError SymmetricKey :=
  if h : bytes.length = 32 then .ok ⟨bytes.toArray, by simpa using h⟩ else .error .key

/-- Open a sealed vault key and report which format it used. -/
def openVaultKeyChecked [Boxes] (recipient : KeyPair) (sealed : String) :
    Except CryptoError (SymmetricKey × SealedKeyOrigin) := do
  let bytes ← unb64 sealed
  if bytes.length = ANON_SEALED_LEN then
    match Boxes.openSeal recipient.secretKey bytes with
    | some key => return (← SymmetricKey.fromSlice key, .anonymous)
    | none => .error .decrypt
  else if bytes.length = SELF_SEALED_LEN ∧ bytes.head? = some SELF_TAG then
    let rest := bytes.tail
    match Boxes.boxDecrypt recipient.publicKey recipient.secretKey (rest.take NONCE_LEN)
        (rest.drop NONCE_LEN) with
    | some key => return (← SymmetricKey.fromSlice key, .selfAuthenticated)
    | none => .error .decrypt
  else
    .error .envelope

/-! ### A symbolic instance -/

namespace Symbolic

/-- Bytes as letters, from the letter `@` on. -/
def b64 (bytes : Bytes) : String := String.ofList (bytes.map (fun b => Char.ofNat (b.toNat + 64)))

/-- The bytes of letters, from the letter `@` on. -/
def unb64 (s : String) : Option Bytes :=
  s.toList.mapM (fun c =>
    if 64 ≤ c.toNat ∧ c.toNat < 64 + 256 then some (UInt8.ofNat (c.toNat - 64)) else none)

/-- A ciphertext spells out its key, its nonce and its associated data. -/
def header (key : SymmetricKey) (nonce aad : Bytes) : Bytes :=
  key.toList ++ (List.replicate nonce.length 0 ++ 1 :: nonce)
    ++ (List.replicate aad.length 0 ++ 1 :: aad)

def cipherDecrypt (key : SymmetricKey) (nonce aad ciphertext : Bytes) : Option Bytes :=
  if (header key nonce aad).isPrefixOf ciphertext then
    some (ciphertext.drop (header key nonce aad).length)
  else none

theorem unb64_b64 (bytes : Bytes) :
  unb64 (b64 bytes) = some bytes
  := by
  have hvalid : ∀ b : UInt8, (Char.ofNat (b.toNat + 64)).toNat = b.toNat + 64 := by
    intro b
    have := b.toNat_lt
    rw [Char.ofNat, dif_pos (.inl (by omega))]
    rfl
  simp only [unb64, b64, String.toList_ofList]
  induction bytes with
  | nil => rfl
  | cons b bytes ih =>
      have := b.toNat_lt
      rw [List.map_cons, List.mapM_cons, ih, hvalid, if_pos (by omega)]
      simp

/-- Sealed boxes that spell out the key after the public or secret key. -/
scoped instance boxes : Boxes where
  b64 := b64
  unb64 := unb64
  unb64_b64 := unb64_b64
  cipherEncrypt key nonce aad plaintext := header key nonce aad ++ plaintext
  cipherDecrypt := cipherDecrypt
  tagged key nonce aad plaintext := by
    simp only [header, List.length_append, Vector.length_toList]
    omega
  decrypt_encrypt key nonce aad plaintext := by
    simp [cipherDecrypt]
  encrypt_of_decrypt key nonce aad ciphertext plaintext h := by
    rw [cipherDecrypt] at h
    split at h
    · rename_i hlabel
      obtain ⟨rest, rfl⟩ := List.isPrefixOf_iff_prefix.mp hlabel
      simpa using h
    · cases h
  key_of_decrypt key key' nonce aad aad' plaintext plaintext' h := by
    simp only [cipherDecrypt] at h
    split at h
    · rename_i hlabel
      obtain ⟨rest, hrest⟩ := List.isPrefixOf_iff_prefix.mp hlabel
      simp only [header, List.append_assoc] at hrest
      have := (List.append_inj hrest (by simp)).1
      exact Vector.toList_inj.mp this
    · cases h
  openSeal secret bytes :=
    if bytes.take 32 = secret then some ((bytes.drop 32).take 32) else none
  boxDecrypt publicKey secret nonce ct :=
    if nonce.take 16 = publicKey.take 16 ∧ ct.drop 32 = secret.take 16 then some (ct.take 32)
    else none

/-- A key spelled with one byte. -/
def vaultKey (b : UInt8) : SymmetricKey := Vector.replicate 32 b

/-- A nonce of zeros. -/
def nonce : Nonce := Vector.replicate 24 0

/-- The keys of an account. -/
def account : KeyPair := ⟨List.replicate 32 1, List.replicate 32 2⟩

/-- An anonymous envelope for the account, as anyone who knows its public key makes it. -/
def anonymousEnvelope (k : SymmetricKey) : String :=
  b64 (List.replicate 32 2 ++ k.toList ++ List.replicate 16 0)

/-- A self-authenticated envelope for the account. -/
def selfEnvelope (k : SymmetricKey) : String :=
  b64 (SELF_TAG :: (List.replicate 24 1 ++ k.toList ++ List.replicate 16 2))

/-- The letters of a field, each after a mark, and an end. -/
def field (s : String) : List Char := s.toList.flatMap (fun c => ['|', c]) ++ [';']

/-- The first field of a text, and what follows it. -/
def readField : List Char → Option (List Char × List Char)
  | '|' :: c :: rest => (readField rest).map (fun x => (c :: x.1, x.2))
  | ';' :: rest => some ([], rest)
  | _ => none

theorem readField_field (s : String) (rest : List Char) :
  readField (field s ++ rest) = some (s.toList, rest)
  := by
  rw [field]
  induction s.toList with
  | nil => rfl
  | cons c cs ih =>
      simp only [List.flatMap_cons, List.cons_append, List.nil_append, List.append_assoc] at ih ⊢
      rw [readField, ih]
      rfl

end Symbolic

end Termoso
