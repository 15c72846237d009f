import Termoso.Proto
import Termoso.Crypto
import Termoso.Lib.Result
import Termoso.Server.Saml.C14n

/-!
# Enveloped signatures

XML signatures as SAML uses them: one signature in the signed element, with one reference to that
element by its `ID`, the enveloped-signature transform and at most one canonicalization.  Only the
keys of the caller are trusted.
-/

namespace Termoso

open Xml C14n

/-- The hashes of signatures, digests and key transport. -/
inductive Hash
  | sha1
  | sha256
  | sha384
  | sha512
deriving DecidableEq

/-- How a content key is padded. -/
inductive Padding
  | pkcs1v15
  | oaep (digest mgf1 : Hash)
deriving DecidableEq

/-- The libraries that the service provider rests on. -/
class SamlLibraries where
  PublicKey : Type
  Signature : Type
  SpKey : Type
  /-- Standard base64. -/
  decodeBase64 : Text → Option Bytes
  /-- The XML parser; its errors are texts. -/
  parseDocument : Text → Except Text Document
  /-- A timestamp of RFC 3339. -/
  parseRfc3339 : Text → Option DateTime
  /-- A text between quotes, as it is shown to a developer. -/
  debug : Text → Text
  hash : Hash → Text → Bytes
  parseSignature : Bytes → Option Signature
  verify : Hash → PublicKey → Text → Signature → Bool
  unwrapKey : SpKey → Padding → Bytes → Option Bytes
  /-- AES in CBC mode, without padding, for a key of that many bits. -/
  aesCbc : ℕ → (key iv body : Bytes) → Option Bytes
  /-- AES in GCM mode, for a key of that many bits. -/
  aesGcm : ℕ → (key iv body : Bytes) → Option Bytes

/-! ### Texts -/

/-- A text without leading and trailing white space. -/
def trimText (s : Text) : Text :=
  ((s.dropWhile isWhitespace).reverse.dropWhile isWhitespace).reverse

/-- A text without white space. -/
def stripWs (s : Text) : Text := s.filter (fun c => !isWhitespace c)

/-- The words of a text. -/
def splitWhitespace (s : Text) : List Text := (s.splitOnP isWhitespace).filter (· ≠ [])

namespace Dsig

def NS : Text := "http://www.w3.org/2000/09/xmldsig#".toList

def ENVELOPED : Text := "http://www.w3.org/2000/09/xmldsig#enveloped-signature".toList

def EXC_C14N_NS : Text := "http://www.w3.org/2001/10/xml-exc-c14n#".toList

def RSA_SHA1 : Text := "http://www.w3.org/2000/09/xmldsig#rsa-sha1".toList

def RSA_SHA256 : Text := "http://www.w3.org/2001/04/xmldsig-more#rsa-sha256".toList

def RSA_SHA384 : Text := "http://www.w3.org/2001/04/xmldsig-more#rsa-sha384".toList

def RSA_SHA512 : Text := "http://www.w3.org/2001/04/xmldsig-more#rsa-sha512".toList

def DIGEST_SHA1 : Text := "http://www.w3.org/2000/09/xmldsig#sha1".toList

def DIGEST_SHA256 : Text := "http://www.w3.org/2001/04/xmlenc#sha256".toList

def DIGEST_SHA384 : Text := "http://www.w3.org/2001/04/xmldsig-more#sha384".toList

def DIGEST_SHA512 : Text := "http://www.w3.org/2001/04/xmlenc#sha512".toList

end Dsig

/-- Why a signature is refused. -/
inductive DsigError
  | unsigned
  | malformed (what : String)
  | unsupported (algorithm : Text)
  | sha1Disabled
  | badId
  | badReference
  | digest
  | signature
deriving DecidableEq

namespace Dsig

/-- Whether an element has a signature as its child. -/
def isSigned (element : Node) : Bool := (child element NS "Signature".toList).isSome

/-- The attribute `Algorithm` of the first child of a name. -/
def algorithmOf (n : Node) (name : String) : Option Text :=
  (child n NS name.toList).bind (Node.getAttribute "Algorithm".toList)

/-- Take account of one more transform: the enveloped-signature one, or the only
canonicalization. -/
def addTransform (seen : Bool × Option Method) (t : Node) : Except DsigError (Bool × Option Method) :=
  let alg := (t.getAttribute "Algorithm".toList).getD []
  if alg = ENVELOPED then .ok (true, seen.2)
  else
    match Method.fromAlgorithm alg [] with
    | none => .error (.unsupported alg)
    | some m =>
      if seen.2.isSome then .error (.malformed "multiple c14n transforms")
      else
        let prefixes := (child t EXC_C14N_NS "InclusiveNamespaces".toList).elim m.inclusivePrefixes
          (fun inc => splitWhitespace ((inc.getAttribute "PrefixList".toList).getD []))
        .ok (seen.1, some ⟨m.mode, m.withComments, prefixes⟩)

/-- What the signature of an element says. -/
structure Reading where
  sig : Node
  signedInfo : Node
  sigBytes : Bytes
  c14nMethod : Method
  sigAlg : Text
  refC14n : Method
  digestAlg : Text
  expected : Bytes

variable [SamlLibraries]

/-- Read the signature of an element of a document. -/
def readSignature (doc : Document) (element : Node) : Except DsigError Reading := do
  let sigs := Xml.children element NS "Signature".toList
  let sig ← sigs.head?.elim (.error .unsigned) .ok
  if 1 < sigs.length then throw (.malformed "multiple signatures")
  let signedInfo ← (child sig NS "SignedInfo".toList).elim (.error (.malformed "no SignedInfo")) .ok
  let sigValue ← ((child sig NS "SignatureValue".toList).bind Node.firstText).elim
    (.error (.malformed "no SignatureValue")) .ok
  let sigBytes ← (SamlLibraries.decodeBase64 (stripWs sigValue)).elim
    (.error (.malformed "SignatureValue base64")) .ok
  let c14nAlg ← (algorithmOf signedInfo "CanonicalizationMethod").elim
    (.error (.malformed "no CanonicalizationMethod")) .ok
  let c14nMethod ← (Method.fromAlgorithm c14nAlg []).elim (.error (.unsupported c14nAlg)) .ok
  let sigAlg ← (algorithmOf signedInfo "SignatureMethod").elim
    (.error (.malformed "no SignatureMethod")) .ok
  let refs := Xml.children signedInfo NS "Reference".toList
  let reference ← refs.head?.elim (.error (.malformed "no Reference")) .ok
  if 1 < refs.length then throw (.malformed "multiple references")
  let id ← (element.getAttribute "ID".toList).elim (.error .badId) .ok
  if id = [] ∨ (doc.descendants.filter (fun n => n.getAttribute "ID".toList = some id)).length ≠ 1 then
    throw .badId
  if (reference.getAttribute "URI".toList).getD [] ≠ '#' :: id then throw .badReference
  let seen ← ((child reference NS "Transforms".toList).elim []
    (fun ts => Xml.children ts NS "Transform".toList)).foldlM addTransform (false, none)
  if seen.1 = false then throw (.malformed "missing enveloped-signature transform")
  let digestAlg ← (algorithmOf reference "DigestMethod").elim
    (.error (.malformed "no DigestMethod")) .ok
  let expected ← (((child reference NS "DigestValue".toList).bind Node.firstText).bind
    (fun t => SamlLibraries.decodeBase64 (stripWs t))).elim (.error (.malformed "DigestValue")) .ok
  return ⟨sig, signedInfo, sigBytes, c14nMethod, sigAlg,
    seen.2.getD ⟨.inclusive, false, []⟩, digestAlg, expected⟩

/-- The digest of an algorithm. -/
def digest (alg data : Text) (allowSha1 : Bool) : Except DsigError Bytes :=
  if alg = DIGEST_SHA256 then .ok (SamlLibraries.hash .sha256 data)
  else if alg = DIGEST_SHA384 then .ok (SamlLibraries.hash .sha384 data)
  else if alg = DIGEST_SHA512 then .ok (SamlLibraries.hash .sha512 data)
  else if alg = DIGEST_SHA1 then
    if allowSha1 then .ok (SamlLibraries.hash .sha1 data) else .error .sha1Disabled
  else .error (.unsupported alg)

/-- The hash of a signature algorithm. -/
def signatureHash (alg : Text) (allowSha1 : Bool) : Except DsigError Hash :=
  if alg = RSA_SHA256 then .ok .sha256
  else if alg = RSA_SHA384 then .ok .sha384
  else if alg = RSA_SHA512 then .ok .sha512
  else if alg = RSA_SHA1 then if allowSha1 then .ok .sha1 else .error .sha1Disabled
  else .error (.unsupported alg)

/-- Whether a signature verifies with a key. -/
def verifyWith (alg : Text) (key : SamlLibraries.PublicKey) (msg : Text)
    (sig : SamlLibraries.Signature) (allowSha1 : Bool) : Except DsigError Bool :=
  (signatureHash alg allowSha1).map (fun h => SamlLibraries.verify h key msg sig)

/-- Try the keys one after the other. -/
def verifyAny (alg msg : Text) (sig : SamlLibraries.Signature) (allowSha1 : Bool) :
    List SamlLibraries.PublicKey → Except DsigError Unit
  | [] => .error .signature
  | key :: keys => do
    if ← verifyWith alg key msg sig allowSha1 then .ok ()
    else verifyAny alg msg sig allowSha1 keys

/-- The bytes that a signature covers: the canonical form of its element, without the signature. -/
def Reading.form (r : Reading) (element : Node) : Text := canonicalize element r.sig.id r.refC14n

/-- The bytes that are signed: the canonical form of what says what the signature covers. -/
def Reading.message (r : Reading) : Text := canonicalize r.signedInfo none r.c14nMethod

/-- Verify the signature of an element with one of the keys. -/
def verifyEnveloped (doc : Document) (element : Node) (keys : List SamlLibraries.PublicKey)
    (allowSha1 : Bool) : Except DsigError Unit := do
  let r ← readSignature doc element
  let actual ← digest r.digestAlg (r.form element) allowSha1
  if actual ≠ r.expected then throw .digest
  let signature ← (SamlLibraries.parseSignature r.sigBytes).elim (.error .signature) .ok
  verifyAny r.sigAlg r.message signature allowSha1 keys

/-! ### What a verified signature tells -/

variable {doc : Document} {element : Node} {keys : List SamlLibraries.PublicKey} {allowSha1 : Bool}

theorem exists_key_of_verifyAny {alg msg : Text} {sig : SamlLibraries.Signature}
    (h : verifyAny alg msg sig allowSha1 keys = .ok ()) :
  ∃ key ∈ keys, ∃ hash, SamlLibraries.verify hash key msg sig = true
  := by
  induction keys with
  | nil => cases h
  | cons key keys ih =>
      obtain ⟨verified, hverified, h⟩ := bind_eq_ok.mp h
      split at h
      · rename_i htrue
        obtain ⟨hash, -, heq⟩ := map_eq_ok.mp hverified
        use key, List.mem_cons_self, hash
        rw [heq, htrue]
      · obtain ⟨key', hmem, hash, hverify⟩ := ih h
        use key', List.mem_cons_of_mem key hmem, hash

/-- A verified signature is read, covers a form with the digest it names, and was made over its
message for one of the keys. -/
theorem of_verifyEnveloped (h : verifyEnveloped doc element keys allowSha1 = .ok ()) :
  ∃ r, readSignature doc element = .ok r
    ∧ digest r.digestAlg (r.form element) allowSha1 = .ok r.expected
    ∧ ∃ key ∈ keys, ∃ hash sig, SamlLibraries.verify hash key r.message sig = true
  := by
  obtain ⟨r, hr, h⟩ := bind_eq_ok.mp h
  obtain ⟨actual, hactual, h⟩ := bind_eq_ok.mp h
  obtain ⟨heq, h⟩ := check_eq_ok.mp h
  obtain ⟨sig, -, h⟩ := bind_eq_ok.mp h
  obtain ⟨key, hkey, hash, hverify⟩ := exists_key_of_verifyAny h
  rw [not_not.mp heq] at hactual
  exact ⟨r, hr, hactual, key, hkey, hash, sig, hverify⟩

end Dsig

end Termoso
