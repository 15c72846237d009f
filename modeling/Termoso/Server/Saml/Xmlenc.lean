import Termoso.Server.Saml.Dsig

/-!
# Encrypted assertions

An encrypted assertion holds a content key, wrapped for the service provider, and the assertion,
encrypted under that key.  What is decrypted is wrapped again in an element that declares the
namespaces in scope where the encrypted element stood.
-/

namespace Termoso.Xmlenc

open Xml

def NS : Text := "http://www.w3.org/2001/04/xmlenc#".toList

def RSA_1_5 : Text := "http://www.w3.org/2001/04/xmlenc#rsa-1_5".toList

def RSA_OAEP_MGF1P : Text := "http://www.w3.org/2001/04/xmlenc#rsa-oaep-mgf1p".toList

def RSA_OAEP : Text := "http://www.w3.org/2009/xmlenc11#rsa-oaep".toList

def AES128_CBC : Text := "http://www.w3.org/2001/04/xmlenc#aes128-cbc".toList

def AES192_CBC : Text := "http://www.w3.org/2001/04/xmlenc#aes192-cbc".toList

def AES256_CBC : Text := "http://www.w3.org/2001/04/xmlenc#aes256-cbc".toList

def AES128_GCM : Text := "http://www.w3.org/2009/xmlenc11#aes128-gcm".toList

def AES256_GCM : Text := "http://www.w3.org/2009/xmlenc11#aes256-gcm".toList

def NS11 : Text := "http://www.w3.org/2009/xmlenc11#".toList

def MGF1_SHA1 : Text := "http://www.w3.org/2009/xmlenc11#mgf1sha1".toList

def MGF1_SHA256 : Text := "http://www.w3.org/2009/xmlenc11#mgf1sha256".toList

def MGF1_SHA384 : Text := "http://www.w3.org/2009/xmlenc11#mgf1sha384".toList

def MGF1_SHA512 : Text := "http://www.w3.org/2009/xmlenc11#mgf1sha512".toList

def digestHash (uri : Text) : Option Hash :=
  if uri = Dsig.DIGEST_SHA1 then some .sha1
  else if uri = Dsig.DIGEST_SHA256 then some .sha256
  else if uri = Dsig.DIGEST_SHA384 then some .sha384
  else if uri = Dsig.DIGEST_SHA512 then some .sha512
  else none

def mgf1Hash (uri : Text) : Option Hash :=
  if uri = MGF1_SHA1 then some .sha1
  else if uri = MGF1_SHA256 then some .sha256
  else if uri = MGF1_SHA384 then some .sha384
  else if uri = MGF1_SHA512 then some .sha512
  else none

end Xmlenc

/-- Why an encrypted assertion is refused. -/
inductive EncError
  | malformed (what : String)
  | unsupported (algorithm : Xml.Text)
  | decrypt
deriving DecidableEq

namespace Xmlenc

open Xml

/-- The text of the cipher value of an element. -/
def cipherText (n : Node) : Option Text :=
  ((child n NS "CipherData".toList).bind (child · NS "CipherValue".toList)).bind Node.firstText

/-- The attribute `Algorithm` of the encryption method of an element. -/
def methodOf (n : Node) : Option Text :=
  (child n NS "EncryptionMethod".toList).bind (Node.getAttribute "Algorithm".toList)

/-- The wrapped content key: in the key info of the data, or next to the data, perhaps referred to
by its `Id`. -/
def encryptedKey (encrypted data : Node) : Option Node :=
  let keyInfo := child data Dsig.NS "KeyInfo".toList
  (keyInfo.bind (child · NS "EncryptedKey".toList)).or
    (let uri := ((keyInfo.bind (child · Dsig.NS "RetrievalMethod".toList)).bind
      (Node.getAttribute "URI".toList)).bind
        (fun u => if u.head? = some '#' then some u.tail else none)
    encrypted.children.find? (fun c => is c NS "EncryptedKey".toList
      && uri.all (fun u => c.getAttribute "Id".toList = some u)))

/-- How the content key is padded.  The oldest padding is only taken when legacy algorithms are
allowed. -/
def keyPadding (keyMethod : Node) (allowLegacy : Bool) : Except EncError Padding :=
  let keyAlg := (keyMethod.getAttribute "Algorithm".toList).getD []
  if keyAlg = RSA_1_5 ∧ allowLegacy then .ok .pkcs1v15
  else if keyAlg = RSA_OAEP_MGF1P then .ok (.oaep .sha1 .sha1)
  else if keyAlg = RSA_OAEP then
    let digest := ((child keyMethod Dsig.NS "DigestMethod".toList).bind
      (Node.getAttribute "Algorithm".toList)).getD Dsig.DIGEST_SHA1
    let mgf := ((child keyMethod NS11 "MGF".toList).bind
      (Node.getAttribute "Algorithm".toList)).getD MGF1_SHA1
    match digestHash digest, mgf1Hash mgf with
    | some digest, some mgf1 => .ok (.oaep digest mgf1)
    | _, _ => .error (.unsupported (keyAlg ++ ' ' :: digest ++ ' ' :: mgf))
  else .error (.unsupported keyAlg)

/-- The text that bytes encode. -/
def fromUtf8 (bytes : Bytes) : Option Text :=
  (String.fromUTF8? ⟨bytes.toArray⟩).map String.toList

def esc (s : Text) : Text :=
  s.flatMap (fun c =>
    match c with
    | '&' => "&amp;".toList
    | '"' => "&quot;".toList
    | '<' => "&lt;".toList
    | c => [c])

/-- Wrap what was decrypted, with the namespaces in scope where the encrypted element stood. -/
def wrap (namespaces : List Namespace) (fragment : Text) : Text :=
  "<w".toList ++ namespaces.flatMap (fun ns =>
      match ns.name with
      | some p => " xmlns:".toList ++ p ++ "=\"".toList ++ esc ns.uri ++ ['"']
      | none => " xmlns=\"".toList ++ esc ns.uri ++ ['"'])
    ++ '>' :: fragment ++ "</w>".toList

variable [SamlLibraries]

def cipherValue (n : Node) : Except EncError Bytes := do
  let v ← (cipherText n).elim (.error (.malformed "CipherValue")) .ok
  (SamlLibraries.decodeBase64 (stripWs v)).elim (.error (.malformed "CipherValue base64")) .ok

/-- Decrypt in CBC mode.  The last byte tells how many bytes of padding there are. -/
def cbcDecrypt (bits : ℕ) (key data : Bytes) : Except EncError Bytes := do
  if data.length < 16 then throw .decrypt
  let iv := data.take 16
  let body := data.drop 16
  if body = [] ∨ body.length % 16 ≠ 0 then throw .decrypt
  let buf ← (SamlLibraries.aesCbc bits key iv body).elim (.error .decrypt) .ok
  let last ← buf.getLast?.elim (.error .decrypt) .ok
  let pad := last.toNat
  if pad = 0 ∨ 16 < pad ∨ buf.length < pad then throw .decrypt
  return buf.take (buf.length - pad)

/-- Decrypt in GCM mode. -/
def gcmDecrypt (bits : ℕ) (key data : Bytes) : Except EncError Bytes := do
  if data.length < 12 then throw .decrypt
  (SamlLibraries.aesGcm bits key (data.take 12) (data.drop 12)).elim (.error .decrypt) .ok

/-- Decrypt by the algorithm of the data. -/
def decryptData (dataAlg : Text) (key data : Bytes) : Except EncError Bytes :=
  if dataAlg = AES128_CBC then cbcDecrypt 128 key data
  else if dataAlg = AES192_CBC then cbcDecrypt 192 key data
  else if dataAlg = AES256_CBC then cbcDecrypt 256 key data
  else if dataAlg = AES128_GCM then gcmDecrypt 128 key data
  else if dataAlg = AES256_GCM then gcmDecrypt 256 key data
  else .error (.unsupported dataAlg)

/-- Decrypt an encrypted assertion to the text of the wrapped assertion. -/
def decryptAssertion (encrypted : Node) (spKey : SamlLibraries.SpKey) (allowLegacy : Bool) :
    Except EncError Text := do
  let data ← (child encrypted NS "EncryptedData".toList).elim (.error (.malformed "EncryptedData")) .ok
  let dataAlg ← (methodOf data).elim (.error (.malformed "EncryptionMethod")) .ok
  let encKey ← (encryptedKey encrypted data).elim (.error (.malformed "EncryptedKey")) .ok
  let keyMethod ← (child encKey NS "EncryptionMethod".toList).elim
    (.error (.malformed "key EncryptionMethod")) .ok
  let wrapped ← cipherValue encKey
  let padding ← keyPadding keyMethod allowLegacy
  let contentKey ← (SamlLibraries.unwrapKey spKey padding wrapped).elim (.error .decrypt) .ok
  let ciphertext ← cipherValue data
  let plain ← decryptData dataAlg contentKey ciphertext
  let fragment ← (fromUtf8 plain).elim (.error .decrypt) .ok
  return wrap encrypted.namespaces (trimText (fragment.dropWhile (· = '\uFEFF')))

end Xmlenc

end Termoso
