import Termoso.Server.Saml.Xmlenc

/-!
# SAML responses

What the assertion consumer service does with the response that a browser brings: it checks that
the response answers the request of this login, that the response or its assertion is signed, that
the assertion is meant for this service and holds now, and reads the identity it asserts.
-/

namespace Termoso.Saml

open Xml

def NS_PROTOCOL : Text := "urn:oasis:names:tc:SAML:2.0:protocol".toList

def NS_ASSERTION : Text := "urn:oasis:names:tc:SAML:2.0:assertion".toList

def STATUS_SUCCESS : Text := "urn:oasis:names:tc:SAML:2.0:status:Success".toList

def CM_BEARER : Text := "urn:oasis:names:tc:SAML:2.0:cm:bearer".toList

def NAMEID_TRANSIENT : Text := "urn:oasis:names:tc:SAML:2.0:nameid-format:transient".toList

def NAMEID_EMAIL : Text := "urn:oasis:names:tc:SAML:1.1:nameid-format:emailAddress".toList

def MAX_RESPONSE_BYTES : ℕ := 1048576

/-- Attribute names that commonly carry the email, in preference order. -/
def EMAIL_ATTRS : List Text :=
  ["email".toList, "mail".toList, "emailAddress".toList, "emailaddress".toList,
    "urn:oid:0.9.2342.19200300.100.1.3".toList,
    "http://schemas.xmlsoap.org/ws/2005/05/identity/claims/emailaddress".toList,
    "http://schemas.xmlsoap.org/claims/EmailAddress".toList]

def NAME_ATTRS : List Text :=
  ["displayName".toList, "displayname".toList, "name".toList, "cn".toList,
    "urn:oid:2.16.840.1.113730.3.1.241".toList, "urn:oid:2.5.4.3".toList,
    "http://schemas.microsoft.com/identity/claims/displayname".toList,
    "http://schemas.xmlsoap.org/ws/2005/05/identity/claims/name".toList]

def GIVEN_NAME_ATTRS : List Text :=
  ["givenName".toList, "firstName".toList, "urn:oid:2.5.4.42".toList,
    "http://schemas.xmlsoap.org/ws/2005/05/identity/claims/givenname".toList]

def SURNAME_ATTRS : List Text :=
  ["sn".toList, "surname".toList, "lastName".toList, "urn:oid:2.5.4.4".toList,
    "http://schemas.xmlsoap.org/ws/2005/05/identity/claims/surname".toList]

/-- Attribute names that carry group membership. -/
def GROUP_ATTRIBUTES : List Text :=
  ["memberOf".toList, "groups".toList, "http://schemas.xmlsoap.org/claims/Group".toList,
    "http://schemas.microsoft.com/ws/2008/06/identity/claims/groups".toList]

/-- Why a response is refused. -/
inductive SamlError
  | malformed (what : Text)
  | inResponseTo
  | destination
  | issuer
  | status (detail : Text)
  | unsigned
  | signature (e : DsigError)
  | encrypted (e : EncError)
  | noDecryptionKey
  | expired
  | audience
  | recipient
  | noEmail
deriving DecidableEq

/-- What the identity provider asserted about the user. -/
structure SamlIdentity where
  subject : Text
  email : Text
  name : Option Text
  sessionIndex : Option Text
  groups : List Text
deriving DecidableEq

variable [SamlLibraries]

/-- The service provider. -/
structure SpConfig where
  entityId : Text
  acsUrl : Text
  key : Option SamlLibraries.SpKey
  allowSha1 : Bool
  emailAttribute : Option Text
  nameAttribute : Option Text
  clockSkew : ℤ

/-- What the metadata of the identity provider says. -/
structure IdpMetadata where
  entityId : Text
  signingKeys : List SamlLibraries.PublicKey

structure ServiceProvider where
  sp : SpConfig
  idp : IdpMetadata

/-! ### Times -/

def parseTime (s : Text) : Except SamlError DateTime :=
  (SamlLibraries.parseRfc3339 (trimText s)).elim
    (.error (.malformed ("bad timestamp ".toList ++ SamlLibraries.debug s))) .ok

/-- Check that an element holds already, up to the skew. -/
def checkNotBefore (n : Node) (now : DateTime) (skew : ℤ) : Except SamlError Unit :=
  match n.getAttribute "NotBefore".toList with
  | none => .ok ()
  | some nb => do if now + skew < (← parseTime nb) then throw .expired

/-- Check that an element still holds, up to the skew. -/
def checkNotOnOrAfter (n : Node) (now : DateTime) (skew : ℤ) : Except SamlError Unit :=
  match n.getAttribute "NotOnOrAfter".toList with
  | none => .ok ()
  | some na => do if (← parseTime na) ≤ now - skew then throw .expired

/-! ### The identity -/

/-- Whether two texts agree up to the case of letters of ASCII. -/
def eqIgnoreAsciiCase (a b : Text) : Bool := a.map Char.toLower = b.map Char.toLower

/-- The texts of the values of an attribute. -/
def attributeValues (a : Node) : List Text :=
  (((Xml.children a NS_ASSERTION "AttributeValue".toList).filterMap Node.firstText).map
    trimText).filter (· ≠ [])

/-- The attributes of an assertion, with their values. -/
def attributesOf (assertion : Node) : List (Text × List Text) :=
  ((Xml.children assertion NS_ASSERTION "AttributeStatement".toList).flatMap
    (Xml.children · NS_ASSERTION "Attribute".toList)).map
      (fun a => ((a.getAttribute "Name".toList).getD [], attributeValues a))

/-- The first value of the first attribute of one of the names. -/
def lookup (attrs : List (Text × List Text)) (names : List Text) : Option Text :=
  names.findSome? (fun n =>
    (attrs.find? (fun a => eqIgnoreAsciiCase a.1 n && a.2 ≠ [])).bind (fun a => a.2.head?))

/-- What the identity is made of: the name of the subject with its format, the attributes, and the
session. -/
structure Statements where
  nameIdValue : Option Text
  nameIdFormat : Option Text
  attrs : List (Text × List Text)
  sessionIndex : Option Text

/-- Read what the identity is made of. -/
def readStatements (assertion subject : Node) : Statements where
  nameIdValue := (((child subject NS_ASSERTION "NameID".toList).bind Node.firstText).map
    trimText).filter (· ≠ [])
  nameIdFormat := (child subject NS_ASSERTION "NameID".toList).bind
    (Node.getAttribute "Format".toList)
  attrs := attributesOf assertion
  sessionIndex := (Xml.children assertion NS_ASSERTION "AuthnStatement".toList).findSome?
    (Node.getAttribute "SessionIndex".toList)

def emailOf (sp : SpConfig) (s : Statements) : Option Text :=
  match sp.emailAttribute with
  | some attr => lookup s.attrs [attr]
  | none => (lookup s.attrs EMAIL_ATTRS).or
      (s.nameIdValue.filter (fun v => s.nameIdFormat = some NAMEID_EMAIL || v.contains '@'))

def nameOf (sp : SpConfig) (s : Statements) : Option Text :=
  match sp.nameAttribute with
  | some attr => lookup s.attrs [attr]
  | none => (lookup s.attrs NAME_ATTRS).or
      (match lookup s.attrs GIVEN_NAME_ATTRS, lookup s.attrs SURNAME_ATTRS with
      | some g, some s => some (g ++ ' ' :: s)
      | some g, none => some g
      | none, some s => some s
      | none, none => none)

/-- Make the identity. -/
def identify (sp : SpConfig) (s : Statements) : Except SamlError SamlIdentity := do
  let email ← (emailOf sp s).elim (.error .noEmail) .ok
  let subject :=
    match s.nameIdValue, s.nameIdFormat with
    | some v, some format => if format = NAMEID_TRANSIENT ∧ v ≠ [] then email else v
    | some v, none => v
    | none, _ => email
  let groups := (s.attrs.filter (fun a => GROUP_ATTRIBUTES.any (eqIgnoreAsciiCase · a.1))).flatMap
    Prod.snd
  return ⟨subject, email, nameOf sp s, s.sessionIndex, groups⟩

/-! ### The assertion -/

/-- Whether one of the audiences of a restriction is a service. -/
def hasAudience (entityId : Text) (restriction : Node) : Bool :=
  (Xml.children restriction NS_ASSERTION "Audience".toList).any
    (fun a => a.firstText.map trimText = some entityId)

def audienceRestrictions (conditions : Node) : List Node :=
  Xml.children conditions NS_ASSERTION "AudienceRestriction".toList

/-- The confirmations of a subject by its bearer. -/
def bearers (subject : Node) : List Node :=
  (Xml.children subject NS_ASSERTION "SubjectConfirmation".toList).filter
    (fun sc => sc.getAttribute "Method".toList = some CM_BEARER)

def confirmationData (sc : Node) : Option Node :=
  child sc NS_ASSERTION "SubjectConfirmationData".toList

/-- Check a confirmation by the bearer, if it says more than that. -/
def checkBearer (sp : SpConfig) (requestId : Text) (now : DateTime) (sc : Node) :
    Except SamlError Unit :=
  match confirmationData sc with
  | none => .ok ()
  | some d => do
    if (d.getAttribute "Recipient".toList).any (· ≠ sp.acsUrl) then throw .recipient
    checkNotOnOrAfter d now sp.clockSkew
    checkNotBefore d now sp.clockSkew
    if (d.getAttribute "InResponseTo".toList).any (· ≠ requestId) then throw .inResponseTo

/-- Check the confirmations one after the other: one that holds is enough, and where none does the
error is that of the last. -/
def checkBearers (sp : SpConfig) (requestId : Text) (now : DateTime) (scs : List Node) :
    Except SamlError Unit :=
  let results := scs.map (checkBearer sp requestId now)
  if results.any (fun r => r.toOption.isSome) then .ok ()
  else
    match results.getLast? with
    | some (.error e) => .error e
    | _ => .error (.malformed "no bearer SubjectConfirmation".toList)

/-- Verify the signature of an element, if it carries one. -/
def verifyIfSigned (p : ServiceProvider) (doc : Document) (element : Node) : Except SamlError Unit :=
  if Dsig.isSigned element then
    (Dsig.verifyEnveloped doc element p.idp.signingKeys p.sp.allowSha1).mapError .signature
  else .ok ()

/-- Check an assertion of a document, and read the identity it asserts. -/
def consumeAssertion (p : ServiceProvider) (doc : Document) (assertion : Node)
    (responseSigned : Bool) (requestId : Text) (now : DateTime) : Except SamlError SamlIdentity := do
  verifyIfSigned p doc assertion
  if Dsig.isSigned assertion = false ∧ responseSigned = false then throw .unsigned
  if assertion.getAttribute "Version".toList ≠ some "2.0".toList then
    throw (.malformed "unsupported assertion version".toList)
  let issuer ← (((child assertion NS_ASSERTION "Issuer".toList).bind Node.firstText).map
    trimText).elim (.error (.malformed "assertion without Issuer".toList)) .ok
  if issuer ≠ p.idp.entityId then throw .issuer
  let conditions ← (child assertion NS_ASSERTION "Conditions".toList).elim
    (.error (.malformed "assertion without Conditions".toList)) .ok
  checkNotBefore conditions now p.sp.clockSkew
  checkNotOnOrAfter conditions now p.sp.clockSkew
  if (audienceRestrictions conditions).any (hasAudience p.sp.entityId) = false then throw .audience
  let subject ← (child assertion NS_ASSERTION "Subject".toList).elim
    (.error (.malformed "assertion without Subject".toList)) .ok
  checkBearers p.sp requestId now (bearers subject)
  identify p.sp (readStatements assertion subject)

/-! ### The response -/

/-- What follows the last colon. -/
def afterColon (s : Text) : Text := (s.reverse.takeWhile (· ≠ ':')).reverse

/-- Check the status.  The message of the identity provider is only shown when the response is
signed. -/
def checkStatus (response : Node) (signed : Bool) : Except SamlError Unit := do
  let status ← (child response NS_PROTOCOL "Status".toList).elim
    (.error (.malformed "no Status".toList)) .ok
  let code ← (child status NS_PROTOCOL "StatusCode".toList).elim
    (.error (.malformed "no StatusCode".toList)) .ok
  if code.getAttribute "Value".toList = some STATUS_SUCCESS then .ok ()
  else
    let detail := afterColon ((code.getAttribute "Value".toList).getD "unknown".toList)
    let sub := ((child code NS_PROTOCOL "StatusCode".toList).bind
      (Node.getAttribute "Value".toList)).elim [] (fun v => " / ".toList ++ afterColon v)
    let msg := if signed then
        (((child status NS_PROTOCOL "StatusMessage".toList).bind Node.firstText).map
          (fun m => (trimText m).take 200)).elim []
            (fun m => if m = [] then [] else ": ".toList ++ m)
      else []
    .error (.status (detail ++ sub ++ msg))

/-- The only assertion of a response, with the document it stands in: plain, or decrypted. -/
def findAssertion (p : ServiceProvider) (doc : Document) : Except SamlError (Document × Node) :=
  let plain := Xml.children doc.root NS_ASSERTION "Assertion".toList
  let encrypted := Xml.children doc.root NS_ASSERTION "EncryptedAssertion".toList
  match plain, encrypted with
  | [assertion], [] => .ok (doc, assertion)
  | [], [encrypted] => do
    let key ← p.sp.key.elim (.error .noDecryptionKey) .ok
    let wrapped ← (Xmlenc.decryptAssertion encrypted key p.sp.allowSha1).mapError .encrypted
    let adoc ← (SamlLibraries.parseDocument wrapped).mapError .malformed
    let assertion ← ((adoc.root.children.find? Node.isElement).filter
      (is · NS_ASSERTION "Assertion".toList)).elim
        (.error (.malformed "decrypted content is not an Assertion".toList)) .ok
    .ok (adoc, assertion)
  | [], [] => .error (.malformed "response has no assertion".toList)
  | _, _ => .error (.malformed "response has more than one assertion".toList)

/-- The document in what the browser posted. -/
def readResponse (samlResponse : Text) : Except SamlError Document := do
  let compact := stripWs samlResponse
  if MAX_RESPONSE_BYTES < (compact.map Char.utf8Size).sum then
    throw (.malformed "response too large".toList)
  let bytes ← (SamlLibraries.decodeBase64 compact).elim
    (.error (.malformed "SAMLResponse is not base64".toList)) .ok
  let xml ← (Xmlenc.fromUtf8 bytes).elim (.error (.malformed "not UTF-8".toList)) .ok
  (SamlLibraries.parseDocument xml).mapError .malformed

/-- Check the response of a document, and read the identity it asserts. -/
def consumeDocument (p : ServiceProvider) (doc : Document) (requestId : Text) (now : DateTime) :
    Except SamlError SamlIdentity := do
  let response := doc.root
  if is response NS_PROTOCOL "Response".toList = false then
    throw (.malformed "root is not samlp:Response".toList)
  if response.getAttribute "Version".toList ≠ some "2.0".toList then
    throw (.malformed "unsupported SAML version".toList)
  if response.getAttribute "InResponseTo".toList ≠ some requestId then throw .inResponseTo
  if (response.getAttribute "Destination".toList).any (· ≠ p.sp.acsUrl) then throw .destination
  if (child response NS_ASSERTION "Issuer".toList).any
      (fun issuer => issuer.firstText.map trimText ≠ some p.idp.entityId) then throw .issuer
  verifyIfSigned p doc response
  checkStatus response (Dsig.isSigned response)
  let (adoc, assertion) ← findAssertion p doc
  consumeAssertion p adoc assertion (Dsig.isSigned response) requestId now

/-- Validate what the browser posted for the login that sent `requestId`. -/
def consumeResponse (p : ServiceProvider) (samlResponse requestId : Text) (now : DateTime) :
    Except SamlError SamlIdentity := do
  let doc ← readResponse samlResponse
  consumeDocument p doc requestId now

end Termoso.Saml
