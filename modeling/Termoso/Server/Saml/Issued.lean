import Termoso.Server.Saml.Response

/-!
# Which login an assertion was issued for

An assertion that is accepted should have been issued for this login and this service: what the
identity provider signed should name the request, the address of this service and, in every
restriction of its audience, this service, and it should hold now.

Where a confirmation says nothing of the request or of the recipient, nothing is compared, and what
an unsigned response says is the word of whoever posted it; and one restriction of the audience that
names the service is enough.  An assertion is issued for this login exactly when what is signed says
so of its own accord.
-/

namespace Termoso.Saml

open Xml

variable [SamlLibraries] {p : ServiceProvider} {doc adoc : Document} {assertion : Node}
  {requestId : Text} {now : DateTime} {identity : SamlIdentity}

/-! ### What is signed -/

/-- Signatures made with the keys of the identity provider cannot be forged: whatever verifies was
issued. -/
def Unforgeable (p : ServiceProvider) (issued : Set Text) : Prop :=
  ∀ hash, ∀ key ∈ p.idp.signingKeys, ∀ msg sig, SamlLibraries.verify hash key msg sig = true →
    msg ∈ issued

/-- Whether an element carries a signature that was issued, over its own digest. -/
def Signed (p : ServiceProvider) (issued : Set Text) (doc : Document) (element : Node) : Prop :=
  Dsig.isSigned element = true ∧ ∃ r, Dsig.readSignature doc element = .ok r
    ∧ Dsig.digest r.digestAlg (r.form element) p.sp.allowSha1 = .ok r.expected
    ∧ r.message ∈ issued

/-- Whether an element holds now, up to the skew. -/
structure InWindow (n : Node) (now : DateTime) (skew : ℤ) : Prop where
  notBefore : ∀ nb ∈ n.getAttribute "NotBefore".toList,
    ∃ t, SamlLibraries.parseRfc3339 (trimText nb) = some t ∧ t ≤ now + skew
  notOnOrAfter : ∀ na ∈ n.getAttribute "NotOnOrAfter".toList,
    ∃ t, SamlLibraries.parseRfc3339 (trimText na) = some t ∧ now - skew < t

/-- Whether a confirmation confirms this login: it names no other recipient and no other request,
and holds now. -/
structure Confirms (sp : SpConfig) (requestId : Text) (now : DateTime) (sc : Node) : Prop where
  recipient : ∀ d ∈ confirmationData sc, ∀ r ∈ d.getAttribute "Recipient".toList, r = sp.acsUrl
  window : ∀ d ∈ confirmationData sc, InWindow d now sp.clockSkew
  request : ∀ d ∈ confirmationData sc, ∀ r ∈ d.getAttribute "InResponseTo".toList, r = requestId

/-- Whether a restriction of the audience names a service, by all that one of its audiences says. -/
def NamesAudience (entityId : Text) (restriction : Node) : Prop :=
  ∃ a ∈ Xml.children restriction NS_ASSERTION "Audience".toList, trimText a.characters = entityId

/-- Whether what is signed, an assertion or a response with it, was issued for this login and this
service: with one of the confirmations by the bearer it names the request and the address of the
service, it names the service in every restriction of its audience, and it holds now. -/
def IssuedFor (sp : SpConfig) (requestId : Text) (now : DateTime) (response : Option Node)
    (assertion : Node) : Prop :=
  ∃ conditions subject, child assertion NS_ASSERTION "Conditions".toList = some conditions
    ∧ child assertion NS_ASSERTION "Subject".toList = some subject
    ∧ (∃ sc ∈ bearers subject, Confirms sp requestId now sc
      ∧ (response.bind (Node.getAttribute "InResponseTo".toList) = some requestId
        ∨ (confirmationData sc).bind (Node.getAttribute "InResponseTo".toList) = some requestId)
      ∧ (response.bind (Node.getAttribute "Destination".toList) = some sp.acsUrl
        ∨ (confirmationData sc).bind (Node.getAttribute "Recipient".toList) = some sp.acsUrl))
    ∧ (∀ ar ∈ audienceRestrictions conditions, NamesAudience sp.entityId ar)
    ∧ InWindow conditions now sp.clockSkew

/-- Whether some signed element of a document was issued for this login and this service: the
response, or the assertion. -/
def SignedForLogin (p : ServiceProvider) (issued : Set Text) (doc : Document) (requestId : Text)
    (now : DateTime) : Prop :=
  ∃ adoc assertion, findAssertion p doc = .ok (adoc, assertion)
    ∧ (Signed p issued doc doc.root ∧ IssuedFor p.sp requestId now (some doc.root) assertion
      ∨ Signed p issued adoc assertion ∧ IssuedFor p.sp requestId now none assertion)

/-- Whether what is signed names its login: one of the confirmations by the bearer that pass names a
request, unless the response is signed, and a recipient, unless the response is signed and names its
destination; and every restriction of the audience names the service. -/
def NamesLogin (p : ServiceProvider) (doc : Document) (requestId : Text) (now : DateTime) : Prop :=
  ∃ adoc assertion conditions subject, findAssertion p doc = .ok (adoc, assertion)
    ∧ child assertion NS_ASSERTION "Conditions".toList = some conditions
    ∧ child assertion NS_ASSERTION "Subject".toList = some subject
    ∧ (∃ sc ∈ bearers subject, checkBearer p.sp requestId now sc = .ok ()
      ∧ (Dsig.isSigned doc.root = true
        ∨ ((confirmationData sc).bind (Node.getAttribute "InResponseTo".toList)).isSome = true)
      ∧ (Dsig.isSigned doc.root = true
          ∧ (doc.root.getAttribute "Destination".toList).isSome = true
        ∨ ((confirmationData sc).bind (Node.getAttribute "Recipient".toList)).isSome = true))
    ∧ ∀ ar ∈ audienceRestrictions conditions, NamesAudience p.sp.entityId ar

/-! ### What the checks tell -/

omit [SamlLibraries] in
theorem any_ne_eq_false {o : Option Text} {s : Text} :
  o.any (· ≠ s) = false ↔ ∀ r ∈ o, r = s
  := by
  cases o <;> simp

omit [SamlLibraries] in
theorem bind_eq_some_of_isSome {o : Option Node} {f : Node → Option Text} {s : Text}
    (h : ∀ d ∈ o, ∀ r ∈ f d, r = s) (hsome : (o.bind f).isSome = true) :
  o.bind f = some s
  := by
  obtain ⟨r, hr⟩ := Option.isSome_iff_exists.mp hsome
  obtain ⟨d, hd, hfd⟩ := Option.bind_eq_some_iff.mp hr
  rw [hr, h d hd r hfd]

theorem parseTime_eq_ok {s : Text} {t : DateTime} :
  parseTime s = .ok t ↔ SamlLibraries.parseRfc3339 (trimText s) = some t
  := elim_eq_ok

theorem checkNotBefore_eq_ok {n : Node} {skew : ℤ} :
  checkNotBefore n now skew = .ok () ↔ ∀ nb ∈ n.getAttribute "NotBefore".toList,
    ∃ t, SamlLibraries.parseRfc3339 (trimText nb) = some t ∧ t ≤ now + skew
  := by
  unfold checkNotBefore
  cases n.getAttribute "NotBefore".toList with
  | none => simp
  | some nb =>
      simp only [bind_eq_ok, parseTime_eq_ok, Option.mem_some_iff, forall_eq']
      apply exists_congr
      intro t
      apply and_congr_right
      intro _
      split
      · rename_i hlt
        simp [Int.not_le.mpr hlt]
      · rename_i hle
        simp [Int.not_lt.mp hle, pure, Except.pure]

theorem checkNotOnOrAfter_eq_ok {n : Node} {skew : ℤ} :
  checkNotOnOrAfter n now skew = .ok () ↔ ∀ na ∈ n.getAttribute "NotOnOrAfter".toList,
    ∃ t, SamlLibraries.parseRfc3339 (trimText na) = some t ∧ now - skew < t
  := by
  unfold checkNotOnOrAfter
  cases n.getAttribute "NotOnOrAfter".toList with
  | none => simp
  | some na =>
      simp only [bind_eq_ok, parseTime_eq_ok, Option.mem_some_iff, forall_eq']
      apply exists_congr
      intro t
      apply and_congr_right
      intro _
      split
      · rename_i hle
        simp [Int.not_lt.mpr hle]
      · rename_i hlt
        simp [Int.not_le.mp hlt, pure, Except.pure]

/-- A confirmation passes when it confirms this login. -/
theorem checkBearer_eq_ok {sp : SpConfig} {sc : Node} :
  checkBearer sp requestId now sc = .ok () ↔ Confirms sp requestId now sc
  := by
  unfold checkBearer
  cases hdata : confirmationData sc with
  | none =>
      constructor
      · intro _
        constructor <;> simp [hdata]
      · intro _
        rfl
  | some d =>
      dsimp only
      rw [check_eq_ok, Bool.not_eq_true, any_ne_eq_false]
      constructor
      · rintro ⟨hrecipient, h⟩
        obtain ⟨_, hafter, h⟩ := bind_eq_ok.mp h
        obtain ⟨_, hbefore, h⟩ := bind_eq_ok.mp h
        have hrequest : ∀ r ∈ d.getAttribute "InResponseTo".toList, r = requestId := by
          apply any_ne_eq_false.mp
          split at h
          · cases h
          · rename_i hany
            apply Bool.not_eq_true _ ▸ hany
        constructor
        · rw [hdata]
          rintro _ ⟨⟩
          exact hrecipient
        · rw [hdata]
          rintro _ ⟨⟩
          exact ⟨checkNotBefore_eq_ok.mp hbefore, checkNotOnOrAfter_eq_ok.mp hafter⟩
        · rw [hdata]
          rintro _ ⟨⟩
          exact hrequest
      · intro h
        have hwindow := h.window d hdata
        use h.recipient d hdata
        rw [checkNotOnOrAfter_eq_ok.mpr hwindow.notOnOrAfter, checkNotBefore_eq_ok.mpr hwindow.notBefore]
        have hrequest := any_ne_eq_false.mpr (h.request d hdata)
        simp only [bind, Except.bind]
        rw [hrequest]
        rfl

/-- The confirmations pass when one of them does. -/
theorem checkBearers_eq_ok {sp : SpConfig} {scs : List Node} :
  checkBearers sp requestId now scs = .ok () ↔ ∃ sc ∈ scs, checkBearer sp requestId now sc = .ok ()
  := by
  have hany : (scs.map (checkBearer sp requestId now)).any (fun r => r.toOption.isSome) = true
      ↔ ∃ sc ∈ scs, checkBearer sp requestId now sc = .ok () := by
    rw [List.any_map, List.any_eq_true]
    apply exists_congr
    intro sc
    apply and_congr_right
    intro _
    rw [Function.comp_apply, Option.isSome_iff_exists]
    simp only [toOption_eq_some]
    constructor
    · rintro ⟨⟨⟩, h⟩
      exact h
    · intro h
      exact ⟨(), h⟩
  unfold checkBearers
  dsimp only
  split
  · rename_i htrue
    simp [hany.mp htrue]
  · rename_i hfalse
    rw [← hany]
    split <;> simp_all

theorem of_verifyIfSigned {element : Node} (h : verifyIfSigned p doc element = .ok ())
    (hsigned : Dsig.isSigned element = true) :
  Dsig.verifyEnveloped doc element p.idp.signingKeys p.sp.allowSha1 = .ok ()
  := by
  rw [verifyIfSigned, if_pos hsigned] at h
  apply mapError_eq_ok.mp h

/-- What an accepted assertion was checked for. -/
theorem of_consumeAssertion {signed : Bool}
    (h : consumeAssertion p doc assertion signed requestId now = .ok identity) :
  verifyIfSigned p doc assertion = .ok ()
    ∧ (Dsig.isSigned assertion = true ∨ signed = true)
    ∧ ∃ conditions subject, child assertion NS_ASSERTION "Conditions".toList = some conditions
      ∧ InWindow conditions now p.sp.clockSkew
      ∧ child assertion NS_ASSERTION "Subject".toList = some subject
      ∧ (∃ sc ∈ bearers subject, checkBearer p.sp requestId now sc = .ok ())
      ∧ identify p.sp (readStatements assertion subject) = .ok identity
  := by
  obtain ⟨_, hverify, h⟩ := bind_eq_ok.mp h
  obtain ⟨hsigned, h⟩ := check_eq_ok.mp h
  obtain ⟨-, h⟩ := check_eq_ok.mp h
  obtain ⟨_, -, h⟩ := bind_eq_ok.mp h
  obtain ⟨-, h⟩ := check_eq_ok.mp h
  obtain ⟨conditions, hconditions, h⟩ := bind_eq_ok.mp h
  obtain ⟨_, hbefore, h⟩ := bind_eq_ok.mp h
  obtain ⟨_, hafter, h⟩ := bind_eq_ok.mp h
  obtain ⟨-, h⟩ := check_eq_ok.mp h
  obtain ⟨subject, hsubject, h⟩ := bind_eq_ok.mp h
  obtain ⟨_, hbearers, h⟩ := bind_eq_ok.mp h
  refine ⟨hverify, ?_, conditions, subject, elim_eq_ok.mp hconditions,
    ⟨checkNotBefore_eq_ok.mp hbefore, checkNotOnOrAfter_eq_ok.mp hafter⟩,
    elim_eq_ok.mp hsubject, checkBearers_eq_ok.mp hbearers, h⟩
  cases hassertion : Dsig.isSigned assertion with
  | true => exact .inl rfl
  | false =>
      right
      rw [← Bool.not_eq_false]
      intro hnot
      exact hsigned ⟨hassertion, hnot⟩

/-- What an accepted response was checked for. -/
theorem of_consumeDocument (h : consumeDocument p doc requestId now = .ok identity) :
  is doc.root NS_PROTOCOL "Response".toList = true
    ∧ doc.root.getAttribute "InResponseTo".toList = some requestId
    ∧ (∀ d ∈ doc.root.getAttribute "Destination".toList, d = p.sp.acsUrl)
    ∧ verifyIfSigned p doc doc.root = .ok ()
    ∧ ∃ adoc assertion, findAssertion p doc = .ok (adoc, assertion)
      ∧ consumeAssertion p adoc assertion (Dsig.isSigned doc.root) requestId now = .ok identity
  := by
  obtain ⟨hroot, h⟩ := check_eq_ok.mp h
  obtain ⟨-, h⟩ := check_eq_ok.mp h
  obtain ⟨hrequest, h⟩ := check_eq_ok.mp h
  obtain ⟨hdestination, h⟩ := check_eq_ok.mp h
  obtain ⟨-, h⟩ := check_eq_ok.mp h
  obtain ⟨_, hverify, h⟩ := bind_eq_ok.mp h
  obtain ⟨_, -, h⟩ := bind_eq_ok.mp h
  obtain ⟨⟨adoc, assertion⟩, hfind, h⟩ := bind_eq_ok.mp h
  exact ⟨Bool.not_eq_false _ ▸ hroot, not_not.mp hrequest,
    any_ne_eq_false.mp (Bool.not_eq_true _ ▸ hdestination), hverify, adoc, assertion, hfind, h⟩

/-- An element whose signature was verified is signed. -/
theorem signed_of_verifyIfSigned {issued : Set Text} {element : Node} (hforge : Unforgeable p issued)
    (h : verifyIfSigned p doc element = .ok ()) (hsigned : Dsig.isSigned element = true) :
  Signed p issued doc element
  := by
  obtain ⟨r, hread, hdigest, key, hkey, hash, sig, hverify⟩ :=
    Dsig.of_verifyEnveloped (of_verifyIfSigned h hsigned)
  exact ⟨hsigned, r, hread, hdigest, hforge hash key hkey r.message sig hverify⟩

/-- What was accepted is signed for this login exactly when what is signed names it. -/
theorem signedForLogin_iff {issued : Set Text} {samlResponse : Text} (hforge : Unforgeable p issued)
    (hread : readResponse samlResponse = .ok doc)
    (hok : consumeResponse p samlResponse requestId now = .ok identity) :
  SignedForLogin p issued doc requestId now ↔ NamesLogin p doc requestId now
  := by
  obtain ⟨doc', hread', hdoc⟩ := bind_eq_ok.mp hok
  obtain rfl : doc = doc' := Except.ok.inj (hread.symm.trans hread')
  obtain ⟨-, hrequest, hdestination, hverify, adoc, assertion, hfind, hassertion⟩ :=
    of_consumeDocument hdoc
  obtain ⟨hverifyA, hsigned, conditions, subject, hconditions, hwindow, hsubject, -, -⟩ :=
    of_consumeAssertion hassertion
  constructor
  · rintro ⟨adoc', assertion', hfind', h⟩
    obtain ⟨rfl, rfl⟩ := Prod.mk.inj (Except.ok.inj (hfind.symm.trans hfind'))
    rcases h with ⟨⟨hroot, -⟩, c, s, hc, hs, ⟨sc, hsc, hconfirms, -, hservice⟩, haudience, -⟩
      | ⟨-, c, s, hc, hs, ⟨sc, hsc, hconfirms, hnames, hservice⟩, haudience, -⟩
    · refine ⟨adoc, assertion, c, s, hfind, hc, hs, ⟨sc, hsc, checkBearer_eq_ok.mpr hconfirms,
        .inl hroot, ?_⟩, haudience⟩
      rcases hservice with hservice | hservice
      · exact .inl ⟨hroot, Option.isSome_of_mem hservice⟩
      · exact .inr (Option.isSome_of_mem hservice)
    · refine ⟨adoc, assertion, c, s, hfind, hc, hs, ⟨sc, hsc, checkBearer_eq_ok.mpr hconfirms,
        .inr (Option.isSome_of_mem (hnames.resolve_left nofun)),
        .inr (Option.isSome_of_mem (hservice.resolve_left nofun))⟩, haudience⟩
  · rintro ⟨adoc', assertion', c, s, hfind', hc, hs, ⟨sc, hsc, hpass, hnames, hservice⟩, haudience⟩
    obtain ⟨rfl, rfl⟩ := Prod.mk.inj (Except.ok.inj (hfind.symm.trans hfind'))
    obtain rfl := Option.some.inj (hc.symm.trans hconditions)
    have hconfirms := checkBearer_eq_ok.mp hpass
    use adoc, assertion, hfind
    have hrecipient : ((confirmationData sc).bind (Node.getAttribute "Recipient".toList)).isSome = true →
        (confirmationData sc).bind (Node.getAttribute "Recipient".toList) = some p.sp.acsUrl :=
      bind_eq_some_of_isSome hconfirms.recipient
    by_cases hroot : Dsig.isSigned doc.root = true
    · left
      refine ⟨signed_of_verifyIfSigned hforge hverify hroot, c, s, hc, hs,
        ⟨sc, hsc, hconfirms, .inl hrequest, ?_⟩, haudience, hwindow⟩
      rcases hservice with ⟨-, hsome⟩ | hsome
      · left
        obtain ⟨d, hd⟩ := Option.isSome_iff_exists.mp hsome
        rw [Option.bind_some, hd, hdestination d hd]
      · exact .inr (hrecipient hsome)
    · right
      have hrequest' := bind_eq_some_of_isSome hconfirms.request (hnames.resolve_left hroot)
      refine ⟨signed_of_verifyIfSigned hforge hverifyA (hsigned.resolve_right hroot), c, s, hc, hs,
        ⟨sc, hsc, hconfirms, .inr hrequest', ?_⟩, haudience, hwindow⟩
      exact .inr (hrecipient (hservice.resolve_left (fun h => hroot h.1)))

/-! ### An assertion wrapped again -/

/-- The bytes of a text. -/
def utf8Bytes (s : Text) : Bytes := s.flatMap String.utf8EncodeChar

/-- The signs of base64. -/
def signs64 : Text := "ABCDEFGHIJKLMNOPQRSTUVWXYZabcdefghijklmnopqrstuvwxyz0123456789+/".toList

def sign64 (n : ℕ) : Char := signs64[n]?.getD '='

/-- Bytes in base64. -/
def encode64 : Bytes → Text
  | a :: b :: c :: rest =>
    let n := a.toNat * 65536 + b.toNat * 256 + c.toNat
    sign64 (n / 262144) :: sign64 (n / 4096 % 64) :: sign64 (n / 64 % 64) :: sign64 (n % 64)
      :: encode64 rest
  | [a, b] =>
    let n := a.toNat * 256 + b.toNat
    [sign64 (n / 1024), sign64 (n / 16 % 64), sign64 (n % 16 * 4), '=']
  | [a] => [sign64 (a.toNat / 4), sign64 (a.toNat % 4 * 16), '=', '=']
  | [] => []

def samlp : Namespace := ⟨some "samlp".toList, NS_PROTOCOL⟩

def saml : Namespace := ⟨some "saml".toList, NS_ASSERTION⟩

def ds : Namespace := ⟨some "ds".toList, Dsig.NS⟩

/-- The start of an element of a namespace, with attributes in none. -/
def tag (ns : Namespace) (name : String) (scope : List Namespace) (attributes : List (String × Text)) :
    Tag :=
  ⟨some ns.uri, name.toList, ns.name, scope, attributes.map (fun a => ⟨none, a.1.toList, none, a.2⟩)⟩

/-- What the signature of the assertion covers. -/
def signedInfo (digest : Text) : Node :=
  let dsTag (name : String) (attributes : List (String × Text)) := tag ds name [ds, saml, samlp] attributes
  .element 6 (dsTag "SignedInfo" [])
    [.element 7 (dsTag "CanonicalizationMethod" [("Algorithm", C14n.EXCLUSIVE)]) [],
      .element 8 (dsTag "SignatureMethod" [("Algorithm", Dsig.RSA_SHA256)]) [],
      .element 9 (dsTag "Reference" [("URI", "#_a".toList)])
        [.element 10 (dsTag "Transforms" [])
          [.element 11 (dsTag "Transform" [("Algorithm", Dsig.ENVELOPED)]) [],
            .element 12 (dsTag "Transform" [("Algorithm", C14n.EXCLUSIVE)]) []],
          .element 13 (dsTag "DigestMethod" [("Algorithm", Dsig.DIGEST_SHA256)]) [],
          .element 14 (dsTag "DigestValue" []) [.text digest]]]

/-- The signature of the assertion. -/
def assertionSignature (digest : Text) : Node :=
  let dsTag (name : String) (attributes : List (String × Text)) := tag ds name [ds, saml, samlp] attributes
  .element 5 (dsTag "Signature" [])
    [signedInfo digest, .element 15 (dsTag "SignatureValue" []) [.text "c2lnbmVk".toList]]

/-- The SHA-256 digest of the canonical form of the assertion. -/
def formDigest : Bytes :=
  [93, 194, 10, 243, 68, 79, 128, 156, 180, 80, 64, 69, 119, 48, 85, 65,
    19, 47, 207, 19, 239, 161, 37, 102, 2, 66, 237, 45, 36, 250, 139, 88]

/-- An assertion of the identity provider, with the name of its subject.  The confirmation by the
bearer says nothing of a request. -/
def assertionWith (nameId : List Node) : Node :=
  let samlTag (name : String) (attributes : List (String × Text)) := tag saml name [saml, samlp] attributes
  .element 3 (samlTag "Assertion" [("ID", "_a".toList), ("Version", "2.0".toList)])
    [.element 4 (samlTag "Issuer" []) [.text "https://idp.example/saml".toList],
      assertionSignature (encode64 formDigest),
      .element 16 (samlTag "Subject" [])
        [.element 17 (samlTag "NameID" []) nameId,
          .element 18 (samlTag "SubjectConfirmation" [("Method", CM_BEARER)]) []],
      .element 19 (samlTag "Conditions" [])
        [.element 20 (samlTag "AudienceRestriction" [])
          [.element 21 (samlTag "Audience" []) [.text "https://sp.example".toList]]]]

/-- The assertion in a response without a signature, which names the request of whoever posts it. -/
def wrapped (nameId : List Node) : Node :=
  let samlpTag (name : String) (attributes : List (String × Text)) := tag samlp name [samlp] attributes
  .element 0 (samlpTag "Response" [("ID", "_r".toList), ("Version", "2.0".toList),
      ("InResponseTo", "_mine".toList)])
    [.element 1 (samlpTag "Status" [])
      [.element 2 (samlpTag "StatusCode" [("Value", STATUS_SUCCESS)]) []],
      assertionWith nameId]

/-- The name of the subject, as the identity provider wrote it. -/
def plainName : List Node := [.text "ada@example.com.evil.example".toList]

/-- The name of the subject, with a comment put into it. -/
def cutName : List Node := [.text "ada@example.com".toList, .comment [], .text ".evil.example".toList]

/-- The document that is posted, with the name of its subject as it was written. -/
def plainDocument : Document where
  root := wrapped plainName
  isElement := rfl
  wellFormed := by decide +kernel
  distinct := by decide +kernel

/-- The document with a comment in the name of its subject. -/
def cutDocument : Document where
  root := wrapped cutName
  isElement := rfl
  wellFormed := by decide +kernel
  distinct := by decide +kernel

/-- The text of a document. -/
def source (doc : Document) : Text := C14n.canonicalize doc.root none ⟨.inclusive, true, []⟩

/-- What the browser posts for a document. -/
def posted (doc : Document) : Text := encode64 (utf8Bytes (source doc))

/-- The form that the signature of the assertion covers. -/
def signedForm : Text := C14n.canonicalize (assertionWith plainName) (some 5) ⟨.exclusive, false, []⟩

/-- What the identity provider signed. -/
def signedMessage : Text :=
  C14n.canonicalize (signedInfo (encode64 formDigest)) none ⟨.exclusive, false, []⟩

end Termoso.Saml

namespace Termoso.Symbolic

open Xml Saml

/-- The libraries, on what is posted: base64 and the parser read the documents, and the digest and
the signature of the assertion are those of the identity provider. -/
@[reducible]
def postedLibraries : SamlLibraries where
  PublicKey := Unit
  Signature := Bytes
  SpKey := Unit
  decodeBase64 s :=
    if s = encode64 formDigest then some formDigest
    else if s = "c2lnbmVk".toList then some (utf8Bytes "signed".toList)
    else if s = posted plainDocument then some (utf8Bytes (source plainDocument))
    else if s = posted cutDocument then some (utf8Bytes (source cutDocument))
    else none
  parseDocument s :=
    if s = source plainDocument then .ok plainDocument
    else if s = source cutDocument then .ok cutDocument
    else .error "not a document".toList
  parseRfc3339 _ := none
  debug s := '"' :: s ++ ['"']
  hash h s := if h = .sha256 ∧ s = signedForm then formDigest else []
  parseSignature := some
  verify h _ msg sig := h = .sha256 ∧ msg = signedMessage ∧ sig = utf8Bytes "signed".toList
  unwrapKey _ _ _ := none
  aesCbc _ _ _ _ := none
  aesGcm _ _ _ _ := none

/-- The service that the assertion is meant for. -/
def provider : @ServiceProvider postedLibraries :=
  letI := postedLibraries
  { sp :=
      { entityId := "https://sp.example".toList
        acsUrl := "https://sp.example/acs".toList
        key := none
        allowSha1 := false
        emailAttribute := none
        nameAttribute := none
        clockSkew := 120 }
    idp := ⟨"https://idp.example/saml".toList, [()]⟩ }

end Termoso.Symbolic

namespace Termoso.Saml

open Xml Symbolic

theorem fromUtf8_utf8Bytes (s : Text) :
  Xmlenc.fromUtf8 (utf8Bytes s) = some s
  := by
  have hbytes : (⟨(utf8Bytes s).toArray⟩ : ByteArray) = (String.ofList s).toByteArray := by
    apply ByteArray.ext
    apply List.data_toByteArray.symm
  rw [Xmlenc.fromUtf8, hbytes, String.fromUTF8?, dif_pos (String.ofList s).isValidUTF8]
  exact congrArg some String.toList_ofList

theorem sign64_plain (n : ℕ) :
  isWhitespace (sign64 n) = false ∧ (sign64 n).utf8Size = 1
  := by
  have hall : signs64.all (fun c => !isWhitespace c && decide (c.utf8Size = 1)) = true := by
    decide
  have hsigns : ∀ c ∈ signs64, isWhitespace c = false ∧ c.utf8Size = 1 := by
    intro c hc
    have hsign := List.all_eq_true.mp hall c hc
    rw [Bool.and_eq_true, Bool.not_eq_true', decide_eq_true_eq] at hsign
    exact hsign
  rw [sign64]
  cases hc : signs64[n]? with
  | none => decide
  | some c => apply hsigns c (List.mem_of_getElem? hc)

/-- Base64 has no white space, and each of its signs is one byte. -/
theorem plain_of_mem_encode64 (bytes : Bytes) :
  ∀ c ∈ encode64 bytes, isWhitespace c = false ∧ c.utf8Size = 1
  := by
  have hequals : isWhitespace '=' = false ∧ '='.utf8Size = 1 := by decide
  induction bytes using encode64.induct with
  | case1 a b c rest ih =>
      intro c hc
      simp only [encode64, List.mem_cons] at hc
      rcases hc with rfl | rfl | rfl | rfl | hc
      · apply sign64_plain
      · apply sign64_plain
      · apply sign64_plain
      · apply sign64_plain
      · apply ih c hc
  | case2 a b =>
      intro c hc
      simp only [encode64, List.mem_cons, List.not_mem_nil, or_false] at hc
      rcases hc with rfl | rfl | rfl | rfl
      · apply sign64_plain
      · apply sign64_plain
      · apply sign64_plain
      · exact hequals
  | case3 a =>
      intro c hc
      simp only [encode64, List.mem_cons, List.not_mem_nil, or_false] at hc
      rcases hc with rfl | rfl | rfl | rfl
      · apply sign64_plain
      · apply sign64_plain
      · exact hequals
      · exact hequals
  | case4 => nofun

theorem length_encode64 (bytes : Bytes) :
  (encode64 bytes).length ≤ 4 * bytes.length
  := by
  induction bytes using encode64.induct with
  | case1 a b c rest ih =>
      simp only [encode64, List.length_cons]
      omega
  | case2 a b => simp [encode64]
  | case3 a => simp [encode64]
  | case4 => simp [encode64]

theorem length_utf8Bytes (s : Text) :
  (utf8Bytes s).length ≤ 4 * s.length
  := by
  induction s with
  | nil => apply Nat.le_refl
  | cons c s ih =>
      have hc := c.utf8Size_le_four
      rw [← String.length_utf8EncodeChar] at hc
      simp only [utf8Bytes, List.flatMap_cons, List.length_append, List.length_cons] at ih ⊢
      omega

/-- What is posted for a document that is not too long is read as that document. -/
theorem readResponse_posted [SamlLibraries] {doc : Document} (hsize : (source doc).length ≤ 65536)
    (hdecode : SamlLibraries.decodeBase64 (posted doc) = some (utf8Bytes (source doc)))
    (hparse : SamlLibraries.parseDocument (source doc) = .ok doc) :
  readResponse (posted doc) = .ok doc
  := by
  have hplain := plain_of_mem_encode64 (utf8Bytes (source doc))
  have hstrip : stripWs (posted doc) = posted doc := by
    apply List.filter_eq_self.mpr
    intro c hc
    rw [(hplain c hc).1]
    rfl
  have hlength : ((posted doc).map Char.utf8Size).sum = (posted doc).length := by
    have hsizes : (posted doc).map Char.utf8Size = (posted doc).map (fun _ => 1) :=
      List.map_congr_left (fun c hc => (hplain c hc).2)
    rw [hsizes]
    simp
  have hbound : ((posted doc).map Char.utf8Size).sum ≤ MAX_RESPONSE_BYTES := by
    rw [hlength, MAX_RESPONSE_BYTES]
    have hencode := length_encode64 (utf8Bytes (source doc))
    have hbytes := length_utf8Bytes (source doc)
    change (encode64 (utf8Bytes (source doc))).length ≤ _
    omega
  rw [readResponse, hstrip]
  dsimp only
  rw [if_neg (Nat.not_lt.mpr hbound), hdecode, Option.elim_some]
  change ((Xmlenc.fromUtf8 (utf8Bytes (source doc))).elim _ Except.ok >>= _) = _
  rw [fromUtf8_utf8Bytes, Option.elim_some]
  change (SamlLibraries.parseDocument (source doc)).mapError _ = _
  rw [hparse]
  rfl

theorem readResponse_plainDocument :
  @readResponse postedLibraries (posted plainDocument) = .ok plainDocument
  := by
  apply @readResponse_posted postedLibraries
  · decide +kernel
  · change (if posted plainDocument = encode64 formDigest then _ else
      if posted plainDocument = "c2lnbmVk".toList then _ else
      if posted plainDocument = posted plainDocument then _ else _) = _
    rw [if_neg (by decide +kernel), if_neg (by decide +kernel), if_pos rfl]
  · change (if source plainDocument = source plainDocument then _ else _) = _
    rw [if_pos rfl]

theorem consumeDocument_plainDocument :
  @consumeDocument postedLibraries provider plainDocument "_mine".toList 0
    = .ok ⟨"ada@example.com.evil.example".toList, "ada@example.com.evil.example".toList, none, none, []⟩
  := by
  decide +kernel

theorem consumeResponse_plainDocument :
  @consumeResponse postedLibraries provider (posted plainDocument) "_mine".toList 0
    = .ok ⟨"ada@example.com.evil.example".toList, "ada@example.com.evil.example".toList, none, none, []⟩
  := by
  apply bind_eq_ok.mpr
  exact ⟨plainDocument, readResponse_plainDocument, consumeDocument_plainDocument⟩

theorem unforgeable_posted :
  @Unforgeable postedLibraries provider {signedMessage}
  := by
  intro hash key _ msg sig h
  apply (of_decide_eq_true h).2.1

/-- On what is posted, the condition is all that is asked for. -/
theorem signedForLogin_iff_posted :
  @Unforgeable postedLibraries provider {signedMessage}
    ∧ @readResponse postedLibraries (posted plainDocument) = .ok plainDocument
    ∧ (@SignedForLogin postedLibraries provider {signedMessage} plainDocument "_mine".toList 0
      ↔ @NamesLogin postedLibraries provider plainDocument "_mine".toList 0)
  := by
  refine ⟨unforgeable_posted, readResponse_plainDocument, ?_⟩
  apply @signedForLogin_iff postedLibraries
  · exact unforgeable_posted
  · exact readResponse_plainDocument
  · exact consumeResponse_plainDocument

theorem findAssertion_plainDocument :
  @findAssertion postedLibraries provider plainDocument
    = .ok (plainDocument, assertionWith plainName)
  := rfl

/-- An assertion that says nothing of a request is accepted for the request of whoever posts it,
though nothing that is signed names that request. -/
theorem not_signedForLogin_wrappedAgain :
  @Unforgeable postedLibraries provider {signedMessage}
    ∧ @readResponse postedLibraries (posted plainDocument) = .ok plainDocument
    ∧ @consumeResponse postedLibraries provider (posted plainDocument) "_mine".toList 0
      = .ok ⟨"ada@example.com.evil.example".toList, "ada@example.com.evil.example".toList, none, none,
        []⟩
    ∧ ¬ @SignedForLogin postedLibraries provider {signedMessage} plainDocument "_mine".toList 0
  := by
  refine ⟨unforgeable_posted, readResponse_plainDocument, consumeResponse_plainDocument, ?_⟩
  rintro ⟨adoc, assertion, hfind, h⟩
  obtain ⟨rfl, rfl⟩ := Prod.mk.inj (Except.ok.inj (hfind.symm.trans findAssertion_plainDocument))
  rcases h with ⟨⟨hsigned, -⟩, -⟩ | ⟨-, -, subject, -, hsubject, ⟨sc, hsc, -, hnames, -⟩, -⟩
  · revert hsigned
    decide +kernel
  · have hnone : (child (assertionWith plainName) NS_ASSERTION "Subject".toList).all
        (fun subject => (bearers subject).all (fun sc => (confirmationData sc).isNone)) = true := by
      decide +kernel
    rw [hsubject, Option.all_some, List.all_eq_true] at hnone
    rw [Option.isNone_iff_eq_none.mp (hnone sc hsc)] at hnames
    rcases hnames with hnames | hnames <;> cases hnames

end Termoso.Saml
