import Mathlib.Data.List.Basic
import Mathlib.Data.List.Nodup
import Mathlib.Data.List.Range
import Mathlib.Logic.Function.Basic
import Termoso.Core.Challenges
import Termoso.Lib.Result
import Termoso.Lib.Split
import Termoso.Lib.Transition

/-!
# Negotiating with a WebDAV server

The clones of a connection share what they know of the scheme that the server asks for.  A request
that is refused adopts a challenge and is sent again; between the steps of one request come the
steps of others.  A server that takes Digest counts the requests that carry a nonce, so that none
of them can be replayed.

A request is sent three times at most.
-/

namespace Termoso.Core.WebDav

/-! ### Digest challenges -/

inductive DigestAlgorithm
  | md5
  | md5Sess
  | sha256
  | sha256Sess
deriving DecidableEq

namespace DigestAlgorithm

def parse : Option Text → Option DigestAlgorithm
  | none => some md5
  | some s =>
    let s := s.map Char.toUpper
    if s = "MD5".toList then some md5
    else if s = "MD5-SESS".toList then some md5Sess
    else if s = "SHA-256".toList then some sha256
    else if s = "SHA-256-SESS".toList then some sha256Sess
    else none

end DigestAlgorithm

structure DigestChallenge where
  realm : Text
  nonce : Text
  opaqueData : Option Text
  algorithm : DigestAlgorithm
  /-- The server offers to protect the count. -/
  qopAuth : Bool
  stale : Bool
deriving DecidableEq

/-- Why a request is given up. -/
inductive AuthError
  | webdav (message : String)
  | authFailed (remaining : List Text)
deriving DecidableEq

/-- The client speaks the kind of protection that a challenge names. -/
def qopAuth : Option Text → Except AuthError Bool
  | none => .ok false
  | some q =>
    if (Split.splitBy [','] q).any (fun v => lower (Split.trimBy isBlank v) == "auth".toList) then
      .ok true
    else .error (.webdav s!"digest qop {(String.ofList q).quote} is not supported (need auth)")

def digestChallenge (c : Challenge) : Except AuthError DigestChallenge := do
  let nonce ← (c.param "nonce").elim (.error (.webdav "digest challenge without nonce")) .ok
  let algorithm ← (DigestAlgorithm.parse (c.param "algorithm")).elim
    (.error (.webdav ("unsupported digest algorithm " ++
      ((c.param "algorithm").map String.ofList).getD "?"))) .ok
  let qopAuth ← qopAuth (c.param "qop")
  return {
    realm := (c.param "realm").getD []
    nonce
    opaqueData := c.param "opaque"
    algorithm
    qopAuth
    stale := (c.param "stale").any (fun s => lower s == "true".toList) }

/-! ### What the clones share -/

/-- Which `Authorization` the server asked for. -/
inductive AuthScheme
  | none
  | basic
  | digest (ch : DigestChallenge)
  | bearer
deriving DecidableEq

structure AuthState where
  scheme : AuthScheme
  /-- Digest nonce-count for the current nonce. -/
  nc : UInt32
deriving DecidableEq

/-- The credentials of a connection. -/
structure Credentials where
  username : Option Text
  password : Text
  bearerToken : Option Text

/-- Characters that a header may have to be read as a text. -/
def isVisible (c : Char) : Bool := c == '\t' || (32 ≤ c.toNat && c.toNat < 127)

/-- What an `Authorization` of the Digest scheme carries. -/
structure DigestHeader where
  username : Text
  realm : Text
  nonce : Text
  uri : Text
  algorithm : DigestAlgorithm
  /-- The count and the nonce of the client are protected. -/
  qopAuth : Bool
  nc : UInt32
  cnonce : Text
  opaqueData : Option Text
deriving DecidableEq

inductive Authorization
  | bearer (token : Text)
  | basic (username password : Text)
  | digest (header : DigestHeader)
deriving DecidableEq

/-- What a request for `uri` is sent with. `fits` are the texts that a header may have: a count is
drawn even if the header cannot be formed. -/
def authorization (fits : Text → Bool) (cfg : Credentials) (st : AuthState) (uri cnonce : Text) :
    AuthState × Option Authorization :=
  match cfg.bearerToken, cfg.username with
  | some token, _ => (st, if fits token then some (.bearer token) else none)
  | none, none => (st, none)
  | none, some user =>
    match st.scheme with
    | .none | .bearer => (st, none)
    | .basic => (st, some (.basic user cfg.password))
    | .digest ch =>
      let nc := st.nc + 1
      ({ st with nc },
        if fits user then
          some (.digest {
            username := user
            realm := ch.realm
            nonce := ch.nonce
            uri
            algorithm := ch.algorithm
            qopAuth := ch.qopAuth
            nc
            cnonce
            opaqueData := ch.opaqueData })
        else none)

/-- The challenges of a response. A value with characters that a header may not have is skipped. -/
def offered (values : List Text) : List Challenge :=
  (values.filter (fun v => v.all isVisible)).flatMap parseChallenges

/-- The first Digest challenge. -/
def firstDigest (cs : List Challenge) : Option Challenge :=
  cs.find? (fun c => decide (c.scheme = "digest".toList))

/-- Adopt the strongest challenge we support. -/
def adoptChallenge (cfg : Credentials) (st : AuthState) (values : List Text) (hadAuth : Bool) :
    Except AuthError AuthState :=
  let challenges := offered values
  let failed := AuthError.authFailed (challenges.map Challenge.scheme)
  if cfg.username.isNone ∨ cfg.bearerToken.isSome then .error failed
  else
    match firstDigest challenges with
    | some d => do
      let ch ← digestChallenge d
      let freshNonce :=
        match st.scheme with
        | .digest prev => decide (prev.nonce ≠ ch.nonce)
        | _ => true
      if hadAuth && !ch.stale && !freshNonce then throw failed
      return { scheme := .digest ch, nc := 0 }
    | none =>
      if challenges.any (fun c => decide (c.scheme = "basic".toList)) then
        if hadAuth ∧ st.scheme = .basic then .error failed
        else .ok { st with scheme := .basic }
      else .error failed

/-! ### Requests -/

/-- Where a request is: to be sent, for the first time or after it was refused with some
challenges, or sent, or refused. -/
inductive Phase
  | fresh (attempt : ℕ) (answers : Option (List Text))
  | waiting (attempt : ℕ) (hadAuth : Bool)
  | refused (attempt : ℕ) (hadAuth : Bool) (values : List Text)
  | done
deriving DecidableEq

/-- The requests of the clones of a connection, and the Digest headers that they carried so far. -/
structure Session where
  auth : AuthState
  phase : ℕ → Phase
  carried : List DigestHeader

/-- The steps of requests: one is sent, its response arrives, with challenges if it is refused, and
a challenge is adopted. -/
inductive Step
  | send (i : ℕ) (uri cnonce : Text)
  | respond (i : ℕ) (challenges : Option (List Text))
  | adopt (i : ℕ)

/-- The headers that an authorization adds to those carried. -/
def Authorization.headers : Option Authorization → List DigestHeader
  | some (.digest h) => [h]
  | _ => []

namespace Session

/-- The state in which a connection is made. -/
def new (cfg : Credentials) : Session where
  auth := { scheme := if cfg.bearerToken.isSome then .bearer else .none, nc := 0 }
  phase _ := .fresh 0 none
  carried := []

def setPhase (s : Session) (i : ℕ) (p : Phase) : Session :=
  { s with phase := Function.update s.phase i p }

/-- Take a step of one request. -/
def step (fits : Text → Bool) (cfg : Credentials) (s : Session) : Step → Option Session
  | .send i uri cnonce =>
    match s.phase i with
    | .fresh attempt _ =>
      let sent := authorization fits cfg s.auth uri cnonce
      some { s.setPhase i (.waiting attempt sent.2.isSome) with
        auth := sent.1
        carried := s.carried ++ Authorization.headers sent.2 }
    | _ => none
  | .respond i challenges =>
    match s.phase i, challenges with
    | .waiting attempt hadAuth, some values =>
      some (s.setPhase i (if attempt = 2 then .done else .refused attempt hadAuth values))
    | .waiting _ _, none => some (s.setPhase i .done)
    | _, _ => none
  | .adopt i =>
    match s.phase i with
    | .refused attempt hadAuth values =>
      match adoptChallenge cfg s.auth values hadAuth with
      | .ok auth => some { s.setPhase i (.fresh (attempt + 1) (some values)) with auth }
      | .error _ => some (s.setPhase i .done)
    | _ => none

/-- The requests of the clones of a connection, in any order. -/
def system (fits : Text → Bool) (cfg : Credentials) : TransitionSystem Session Step where
  init s := s = new cfg
  step := step fits cfg

end Session

/-! ### What a challenge leads to -/

section
variable {cfg : Credentials} {st st' : AuthState} {values : List Text} {hadAuth : Bool}
  {c : Challenge} {d : DigestChallenge}

/-- The credentials were just refused for a nonce. -/
def Repeats (st : AuthState) (hadAuth : Bool) (nonce : Text) (stale : Bool) : Prop :=
  hadAuth = true ∧ stale = false ∧ ∃ prev, st.scheme = .digest prev ∧ prev.nonce = nonce

instance (nonce : Text) (stale : Bool) : Decidable (Repeats st hadAuth nonce stale) := by
  unfold Repeats
  cases hscheme : st.scheme with
  | digest prev =>
      exact decidable_of_iff (hadAuth = true ∧ stale = false ∧ prev.nonce = nonce) (by simp)
  | none => exact isFalse (by simp)
  | basic => exact isFalse (by simp)
  | bearer => exact isFalse (by simp)

/-- The client has credentials to negotiate with. -/
def Negotiates (cfg : Credentials) : Prop := cfg.username.isSome ∧ cfg.bearerToken = none

instance : Decidable (Negotiates cfg) := inferInstanceAs (Decidable (_ ∧ _))

theorem negotiates_iff :
  Negotiates cfg ↔ ¬(cfg.username.isNone ∨ cfg.bearerToken.isSome)
  := by
  rw [Negotiates, not_or, Option.isNone_iff_eq_none, ← ne_eq, Option.ne_none_iff_isSome,
    Option.not_isSome_iff_eq_none]

theorem adoptChallenge_none (hcfg : ¬Negotiates cfg) :
  adoptChallenge cfg st values hadAuth =
    .error (.authFailed ((offered values).map Challenge.scheme))
  := by
  rw [negotiates_iff, not_not] at hcfg
  simp only [adoptChallenge, if_pos hcfg]

theorem adoptChallenge_digest (hcfg : Negotiates cfg) (hc : firstDigest (offered values) = some c) :
  adoptChallenge cfg st values hadAuth =
    digestChallenge c >>= fun d =>
      if Repeats st hadAuth d.nonce d.stale then
        .error (.authFailed ((offered values).map Challenge.scheme))
      else .ok { scheme := .digest d, nc := 0 }
  := by
  rw [negotiates_iff] at hcfg
  simp only [adoptChallenge, if_neg hcfg, hc]
  congr 1
  funext d
  have hiff : (hadAuth && !d.stale && !(match st.scheme with
      | .digest prev => decide (prev.nonce ≠ d.nonce)
      | _ => true)) = true ↔ Repeats st hadAuth d.nonce d.stale := by
    rw [Repeats]
    cases st.scheme <;> simp [and_assoc]
  by_cases hrepeats : Repeats st hadAuth d.nonce d.stale
  · rw [if_pos (hiff.mpr hrepeats), if_pos hrepeats]
    rfl
  · rw [if_neg (fun h => hrepeats (hiff.mp h)), if_neg hrepeats]
    rfl

theorem adoptChallenge_basic (hcfg : Negotiates cfg) (hc : firstDigest (offered values) = none) :
  adoptChallenge cfg st values hadAuth =
    if (∃ c ∈ offered values, c.scheme = "basic".toList) ∧
        ¬(hadAuth = true ∧ st.scheme = .basic) then
      .ok { st with scheme := .basic }
    else .error (.authFailed ((offered values).map Challenge.scheme))
  := by
  rw [negotiates_iff] at hcfg
  simp only [adoptChallenge, if_neg hcfg, hc]
  by_cases hbasic : ∃ c ∈ offered values, c.scheme = "basic".toList
  · have hany : (offered values).any (fun c => decide (c.scheme = "basic".toList)) = true := by
      simpa using hbasic
    rw [if_pos hany]
    by_cases hused : hadAuth = true ∧ st.scheme = .basic
    · rw [if_pos hused, if_neg (fun h => h.2 hused)]
    · rw [if_neg hused, if_pos ⟨hbasic, hused⟩]
  · have hany : ¬(offered values).any (fun c => decide (c.scheme = "basic".toList)) = true := by
      simpa using hbasic
    rw [if_neg hany, if_neg (fun h => hbasic h.1)]

/-- The scheme of a challenge, if the client supports it. -/
def support (cfg : Credentials) (c : Challenge) : Option AuthScheme :=
  if ¬Negotiates cfg then none
  else if c.scheme = "digest".toList then (digestChallenge c).toOption.map .digest
  else if c.scheme = "basic".toList then some .basic
  else none

/-- What the client supports of what is offered. -/
def supported (cfg : Credentials) (values : List Text) : List AuthScheme :=
  (offered values).filterMap (support cfg)

def firstBasic (cs : List Challenge) : Option Challenge :=
  cs.find? (fun c => decide (c.scheme = "basic".toList))

/-- The first Digest challenge that is offered, or the first of Basic if there is none, in case the
client supports it. -/
def firstChoice (cfg : Credentials) (values : List Text) : Option AuthScheme :=
  ((firstDigest (offered values)).or (firstBasic (offered values))).bind (support cfg)

/-- The client was just refused with a scheme. -/
def JustRefused (st : AuthState) (hadAuth : Bool) : AuthScheme → Prop
  | .digest d => Repeats st hadAuth d.nonce d.stale
  | _ => hadAuth = true ∧ st.scheme = .basic

/-- Take up a scheme. Only that of Digest has a count. -/
def AuthState.adopted (st : AuthState) : AuthScheme → AuthState
  | .digest d => { scheme := .digest d, nc := 0 }
  | scheme => { st with scheme }

@[simp]
theorem AuthState.adopted_scheme (scheme : AuthScheme) :
  (st.adopted scheme).scheme = scheme
  := by
  cases scheme <;> rfl

theorem firstDigest_eq_some (h : firstDigest (offered values) = some c) :
  c ∈ offered values ∧ c.scheme = "digest".toList
  := ⟨List.mem_of_find?_eq_some h, by simpa using List.find?_some h⟩

theorem firstBasic_eq_some (h : firstBasic (offered values) = some c) :
  c ∈ offered values ∧ c.scheme = "basic".toList
  := ⟨List.mem_of_find?_eq_some h, by simpa using List.find?_some h⟩

theorem support_digest (hcfg : Negotiates cfg) (hc : c.scheme = "digest".toList)
    {scheme : AuthScheme} :
  support cfg c = some scheme ↔ ∃ d, digestChallenge c = .ok d ∧ scheme = .digest d
  := by
  rw [support, if_neg (not_not.mpr hcfg), if_pos hc, Option.map_eq_some_iff]
  constructor
  · rintro ⟨d, hd, rfl⟩
    exact ⟨d, toOption_eq_some.mp hd, rfl⟩
  · rintro ⟨d, hd, rfl⟩
    exact ⟨d, toOption_eq_some.mpr hd, rfl⟩

theorem support_basic (hcfg : Negotiates cfg) (hc : c.scheme = "basic".toList) :
  support cfg c = some .basic
  := by
  have hnot : c.scheme ≠ "digest".toList := by
    rw [hc]
    decide
  rw [support, if_neg (not_not.mpr hcfg), if_neg hnot, if_pos hc]

theorem support_none (hcfg : ¬Negotiates cfg) :
  support cfg c = none
  := if_pos hcfg

/-- What the client takes up is its first choice, and not what it was just refused with. -/
theorem adoptChallenge_eq_ok :
  adoptChallenge cfg st values hadAuth = .ok st' ↔
    ∃ scheme, firstChoice cfg values = some scheme ∧ ¬JustRefused st hadAuth scheme ∧
      st' = st.adopted scheme
  := by
  by_cases hcfg : Negotiates cfg
  · cases hc : firstDigest (offered values) with
    | some c =>
        have hdigest := (firstDigest_eq_some hc).2
        rw [adoptChallenge_digest hcfg hc, firstChoice, hc, Option.some_or, Option.bind_some,
          bind_eq_ok]
        constructor
        · rintro ⟨d, hd, h⟩
          split at h
          · cases h
          · rename_i hrepeats
            cases h
            exact ⟨.digest d, (support_digest hcfg hdigest).mpr ⟨d, hd, rfl⟩, hrepeats, rfl⟩
        · rintro ⟨scheme, hscheme, hrepeats, rfl⟩
          obtain ⟨d, hd, rfl⟩ := (support_digest hcfg hdigest).mp hscheme
          exact ⟨d, hd, if_neg hrepeats⟩
    | none =>
        rw [adoptChallenge_basic hcfg hc, firstChoice, hc, Option.none_or]
        cases hb : firstBasic (offered values) with
        | some c =>
            obtain ⟨hmem, hbasic⟩ := firstBasic_eq_some hb
            rw [Option.bind_some, support_basic hcfg hbasic]
            by_cases hused : hadAuth = true ∧ st.scheme = .basic
            · rw [if_neg (fun h => h.2 hused)]
              constructor
              · intro h
                cases h
              · rintro ⟨scheme, hscheme, hrefused, -⟩
                cases hscheme
                exact absurd hused hrefused
            · rw [if_pos ⟨⟨c, hmem, hbasic⟩, hused⟩]
              constructor
              · intro h
                cases h
                exact ⟨.basic, rfl, hused, rfl⟩
              · rintro ⟨scheme, hscheme, -, rfl⟩
                cases hscheme
                rfl
        | none =>
            have hnot : ¬∃ c ∈ offered values, c.scheme = "basic".toList := by
              simpa [firstBasic] using hb
            rw [if_neg (fun h => hnot h.1), Option.bind_none]
            constructor
            · intro h
              cases h
            · rintro ⟨scheme, hscheme, -⟩
              cases hscheme
  · rw [adoptChallenge_none hcfg, firstChoice]
    constructor
    · intro h
      cases h
    · rintro ⟨scheme, hscheme, -⟩
      obtain ⟨c, -, hc⟩ := Option.bind_eq_some_iff.mp hscheme
      rw [support_none hcfg] at hc
      cases hc

/-! ### The strongest challenge -/

def DigestAlgorithm.strength : DigestAlgorithm → ℕ
  | .md5 | .md5Sess => 2
  | .sha256 | .sha256Sess => 3

/-- Digest is stronger than Basic, and the stronger with a stronger algorithm. -/
def AuthScheme.strength : AuthScheme → ℕ
  | .none | .bearer => 0
  | .basic => 1
  | .digest d => d.algorithm.strength

/-- A scheme is as strong as any that is offered and supported. -/
def Strongest (cfg : Credentials) (values : List Text) (scheme : AuthScheme) : Prop :=
  ∀ other ∈ supported cfg values, other.strength ≤ scheme.strength

/-- When something is offered that the client supports, a refused request is sent again with the
strongest of it. -/
def RetriesStrongest (cfg : Credentials) (st : AuthState) (hadAuth : Bool) (values : List Text) :
    Prop :=
  supported cfg values ≠ [] →
    ∃ st', adoptChallenge cfg st values hadAuth = .ok st' ∧ st'.scheme ∈ supported cfg values ∧
      Strongest cfg values st'.scheme

theorem mem_supported {scheme : AuthScheme} :
  scheme ∈ supported cfg values ↔ ∃ c ∈ offered values, support cfg c = some scheme
  := List.mem_filterMap

/-- The first choice is supported. -/
theorem mem_supported_of_firstChoice {scheme : AuthScheme}
    (h : firstChoice cfg values = some scheme) :
  scheme ∈ supported cfg values
  := by
  obtain ⟨c, hc, hsupport⟩ := Option.bind_eq_some_iff.mp h
  have hmem : c ∈ offered values := by
    rcases Option.or_eq_some_iff.mp hc with h | ⟨-, h⟩
    · exact (firstDigest_eq_some h).1
    · exact (firstBasic_eq_some h).1
  exact mem_supported.mpr ⟨c, hmem, hsupport⟩

/-- A refused request is sent again with the strongest scheme exactly when the first choice is as
strong as any and was not just refused, or when nothing is supported. -/
theorem retriesStrongest_iff :
  RetriesStrongest cfg st hadAuth values ↔
    supported cfg values = [] ∨ ∃ scheme, firstChoice cfg values = some scheme ∧
      ¬JustRefused st hadAuth scheme ∧ Strongest cfg values scheme
  := by
  rw [RetriesStrongest, ne_eq, ← or_iff_not_imp_left]
  apply or_congr Iff.rfl
  constructor
  · rintro ⟨st', hadopt, -, hstrongest⟩
    obtain ⟨scheme, hchoice, hrefused, rfl⟩ := adoptChallenge_eq_ok.mp hadopt
    rw [AuthState.adopted_scheme] at hstrongest
    exact ⟨scheme, hchoice, hrefused, hstrongest⟩
  · rintro ⟨scheme, hchoice, hrefused, hstrongest⟩
    refine ⟨st.adopted scheme, adoptChallenge_eq_ok.mpr ⟨scheme, hchoice, hrefused, rfl⟩, ?_⟩
    rw [AuthState.adopted_scheme]
    exact ⟨mem_supported_of_firstChoice hchoice, hstrongest⟩

end

/-! ### Runs -/

namespace Session

section
variable {fits : Text → Bool} {cfg : Credentials} {s s' : Session} {n : Text}

/-- The counts that were sent with a nonce. -/
def counts (s : Session) (n : Text) : List ℕ :=
  (s.carried.filter (fun h => decide (h.nonce = n))).map (fun h => h.nc.toNat)

/-- With each nonce the counts are 1, 2, 3 and so on, and no nonce is sent twice with one count. -/
def Counted (s : Session) : Prop :=
  (∀ n, s.counts n = List.range' 1 (s.counts n).length) ∧
    (s.carried.map (fun h => (h.nonce, h.nc))).Nodup

/-- A request that is to be sent again is sent with the strongest scheme that its refusal offered.
-/
def Answered (cfg : Credentials) (s : Session) : Prop :=
  ∀ i attempt values, s.phase i = .fresh attempt (some values) →
    Strongest cfg values s.auth.scheme

/-- The count does not overflow, and what a refusal leads to is as strong as anything it offers,
no weaker than what other requests wait to be sent again with, and, if it is Digest, has a nonce
that no request has carried. -/
def Cautious (cfg : Credentials) (s : Session) : Step → Prop
  | .send _ _ _ => s.auth.nc.toNat + 1 < UInt32.size
  | .respond _ _ => True
  | .adopt i => ∀ attempt hadAuth values, s.phase i = .refused attempt hadAuth values →
    ∀ scheme, firstChoice cfg values = some scheme → ¬JustRefused s.auth hadAuth scheme →
      Strongest cfg values scheme ∧
        (∀ j attempt' values', s.phase j = .fresh attempt' (some values') →
          Strongest cfg values' scheme) ∧
        ∀ d, scheme = .digest d → ∀ h ∈ s.carried, h.nonce ≠ d.nonce

/-- What a run keeps: the count of the connection is how often its nonce was sent. -/
structure Inv (fits : Text → Bool) (cfg : Credentials) (s : Session) : Prop where
  counted : s.Counted
  current : ∀ ch, s.auth.scheme = .digest ch → (∀ user ∈ cfg.username, fits user = true) →
    s.auth.nc.toNat = (s.counts ch.nonce).length
  answered : s.Answered cfg

theorem inv_new (fits : Text → Bool) (cfg : Credentials) :
  Inv fits cfg (new cfg)
  := by
  constructor
  · exact ⟨fun n => rfl, List.nodup_nil⟩
  · intro ch hch
    rw [new] at hch
    dsimp only at hch
    split at hch <;> cases hch
  · intro i attempt values hi
    cases hi

/-- Sending a header with the next count of its nonce keeps the counts. -/
theorem Counted.append (h : s.Counted) {hd : DigestHeader}
    (hnc : hd.nc.toNat = (s.counts hd.nonce).length + 1)
    (hs' : s'.carried = s.carried ++ [hd]) :
  s'.Counted ∧ ∀ n, (s'.counts n).length =
    (s.counts n).length + if hd.nonce = n then 1 else 0
  := by
  have hcounts : ∀ n, s'.counts n = s.counts n ++ if hd.nonce = n then [hd.nc.toNat] else [] := by
    intro n
    rw [counts, hs', List.filter_append, List.map_append, counts]
    congr 1
    by_cases hn : hd.nonce = n <;> simp [hn]
  refine ⟨⟨?_, ?_⟩, ?_⟩
  · intro n
    rw [hcounts]
    by_cases hn : hd.nonce = n
    · cases hn
      rw [if_pos rfl, List.length_append, List.length_singleton, List.range'_concat, ← h.1, hnc]
      congr 2
      omega
    · rw [if_neg hn, List.append_nil]
      exact h.1 n
  · rw [hs', List.map_append, List.nodup_append]
    refine ⟨h.2, List.nodup_singleton _, ?_⟩
    rintro x hx y hy rfl
    rw [List.map_singleton, List.mem_singleton] at hy
    obtain ⟨e, he, rfl⟩ := List.mem_map.mp hx
    obtain ⟨hnonce, hcount⟩ := Prod.mk.inj hy
    have hmem : e.nc.toNat ∈ s.counts hd.nonce :=
      List.mem_map.mpr ⟨e, List.mem_filter.mpr ⟨he, decide_eq_true hnonce⟩, rfl⟩
    rw [h.1, List.mem_range'_1, hcount, hnc] at hmem
    omega
  · intro n
    rw [hcounts]
    by_cases hn : hd.nonce = n <;> simp [hn]

/-- A nonce that no request has carried has no counts. -/
theorem counts_eq_nil (h : ∀ hd ∈ s.carried, hd.nonce ≠ n) :
  s.counts n = []
  := by
  rw [counts, List.map_eq_nil_iff, List.filter_eq_nil_iff]
  intro hd hmem
  simpa using h hd hmem

/-- What an authorization draws and carries: nothing, or the next count of the nonce, with a header
if the name fits one. -/
theorem authorization_cases (fits : Text → Bool) (cfg : Credentials) (st : AuthState)
    (uri cnonce : Text) :
  ((authorization fits cfg st uri cnonce).1 = st ∧
      Authorization.headers (authorization fits cfg st uri cnonce).2 = []) ∨
    ∃ ch user, st.scheme = .digest ch ∧ cfg.username = some user ∧
      (authorization fits cfg st uri cnonce).1 = { st with nc := st.nc + 1 } ∧
      ((fits user = false ∧
          Authorization.headers (authorization fits cfg st uri cnonce).2 = []) ∨
        fits user = true ∧ ∃ hd, hd.nonce = ch.nonce ∧ hd.nc = st.nc + 1 ∧
          Authorization.headers (authorization fits cfg st uri cnonce).2 = [hd])
  := by
  unfold authorization
  cases htoken : cfg.bearerToken with
  | some token =>
      left
      cases hfits : fits token <;> simp [hfits, Authorization.headers]
  | none =>
      cases huser : cfg.username with
      | none => exact .inl ⟨rfl, rfl⟩
      | some user =>
          cases hscheme : st.scheme with
          | none => exact .inl ⟨rfl, rfl⟩
          | basic => exact .inl ⟨rfl, rfl⟩
          | bearer => exact .inl ⟨rfl, rfl⟩
          | digest ch =>
              refine .inr ⟨ch, user, rfl, rfl, ?_, ?_⟩
              · simp
              · cases hfits : fits user with
                | false => exact .inl ⟨rfl, by simp [hfits, Authorization.headers]⟩
                | true =>
                    right
                    simp only [hfits, if_true, Authorization.headers]
                    exact ⟨trivial, _, rfl, rfl, rfl⟩

/-- What was carried determines the counts. -/
theorem counts_congr (hcarried : s'.carried = s.carried) (n : Text) :
  s'.counts n = s.counts n
  := by
  rw [counts, hcarried, counts]

theorem Counted.congr (h : s.Counted) (hcarried : s'.carried = s.carried) :
  s'.Counted
  := by
  constructor
  · intro n
    rw [counts_congr hcarried]
    exact h.1 n
  · rw [hcarried]
    exact h.2

/-- A step that sends no header and sends nothing again keeps the invariant. -/
theorem Inv.idle (h : Inv fits cfg s) (hauth : s'.auth = s.auth) (hcarried : s'.carried = s.carried)
    (hphase : ∀ j attempt values, s'.phase j = .fresh attempt (some values) →
      s.phase j = .fresh attempt (some values)) :
  Inv fits cfg s'
  := by
  constructor
  · exact h.counted.congr hcarried
  · intro ch hch hfits
    rw [hauth] at hch ⊢
    rw [counts_congr hcarried]
    exact h.current ch hch hfits
  · intro j attempt values hj
    rw [hauth]
    exact h.answered j attempt values (hphase j attempt values hj)

theorem phase_setPhase (s : Session) (i : ℕ) (p : Phase) (j : ℕ) :
  (s.setPhase i p).phase j = if j = i then p else s.phase j
  := Function.update_apply s.phase i p j

/-- A request that waits to be sent again waited before another did something else. -/
theorem fresh_of_setPhase {i : ℕ} {p : Phase}
    (hp : ∀ attempt values, p ≠ .fresh attempt (some values))
    (j attempt : ℕ) (values : List Text)
    (hj : (s.setPhase i p).phase j = .fresh attempt (some values)) :
  s.phase j = .fresh attempt (some values)
  := by
  rw [phase_setPhase] at hj
  split at hj
  · exact absurd hj (hp attempt values)
  · exact hj

/-- The next request draws the next count. -/
theorem Inv.send (h : Inv fits cfg s) {uri cnonce : Text} (hnc : s.auth.nc.toNat + 1 < UInt32.size)
    (hauth : s'.auth = (authorization fits cfg s.auth uri cnonce).1)
    (hcarried : s'.carried =
      s.carried ++ Authorization.headers (authorization fits cfg s.auth uri cnonce).2)
    (hphase : ∀ j attempt values, s'.phase j = .fresh attempt (some values) →
      s.phase j = .fresh attempt (some values)) :
  Inv fits cfg s'
  := by
  rcases authorization_cases fits cfg s.auth uri cnonce with
    ⟨hsame, hnone⟩ | ⟨ch, user, hscheme, huser, hdrawn, hheaders⟩
  · rw [hnone, List.append_nil] at hcarried
    exact h.idle (hauth.trans hsame) hcarried hphase
  rw [hdrawn] at hauth
  have hnext : (s.auth.nc + 1).toNat = s.auth.nc.toNat + 1 := by
    rw [UInt32.toNat_add, UInt32.toNat_one]
    exact Nat.mod_eq_of_lt hnc
  have hanswered : s'.Answered cfg := by
    intro j attempt values hj
    rw [hauth]
    exact h.answered j attempt values (hphase j attempt values hj)
  rcases hheaders with ⟨hunfit, hnone⟩ | ⟨hfits, hd, hnonce, hcount, hone⟩
  · rw [hnone, List.append_nil] at hcarried
    refine ⟨?_, ?_, hanswered⟩
    · exact h.counted.congr hcarried
    · intro _ _ hfits
      rw [hfits user huser] at hunfit
      cases hunfit
  · rw [hone] at hcarried
    have hcurrent : s.auth.nc.toNat = (s.counts ch.nonce).length := by
      apply h.current ch hscheme
      intro user' huser'
      cases huser.symm.trans huser'
      exact hfits
    have happend := h.counted.append (by rw [hcount, hnext, hcurrent, hnonce]) hcarried
    refine ⟨happend.1, ?_, hanswered⟩
    intro ch' hch' _
    rw [hauth] at hch' ⊢
    cases hscheme.symm.trans hch'
    rw [happend.2, if_pos hnonce, hnext, hcurrent]

theorem Inv.step {l : Step} (h : Inv fits cfg s) (hcautious : Cautious cfg s l)
    (hstep : Session.step fits cfg s l = some s') :
  Inv fits cfg s'
  := by
  cases l with
  | send i uri cnonce =>
      cases hi : s.phase i with
      | fresh attempt answers =>
          simp only [Session.step, hi] at hstep
          cases hstep
          apply h.send hcautious rfl rfl
          apply fresh_of_setPhase
          rintro _ _ ⟨⟩
      | _ =>
          simp only [Session.step, hi] at hstep
          cases hstep
  | respond i challenges =>
      cases hi : s.phase i with
      | waiting attempt hadAuth =>
          cases challenges with
          | none =>
              simp only [Session.step, hi] at hstep
              cases hstep
              apply h.idle (by rfl) (by rfl)
              apply fresh_of_setPhase
              rintro _ _ ⟨⟩
          | some values =>
              simp only [Session.step, hi] at hstep
              cases hstep
              apply h.idle (by rfl) (by rfl)
              apply fresh_of_setPhase
              intro _ _ hfresh
              split at hfresh <;> cases hfresh
      | _ =>
          simp only [Session.step, hi] at hstep
          cases hstep
  | adopt i =>
      cases hi : s.phase i with
      | refused attempt hadAuth values =>
          cases hadopt : adoptChallenge cfg s.auth values hadAuth with
          | error e =>
              simp only [Session.step, hi, hadopt] at hstep
              cases hstep
              apply h.idle (by rfl) (by rfl)
              apply fresh_of_setPhase
              rintro _ _ ⟨⟩
          | ok auth =>
              simp only [Session.step, hi, hadopt] at hstep
              cases hstep
              obtain ⟨scheme, hchoice, hrefused, rfl⟩ := adoptChallenge_eq_ok.mp hadopt
              obtain ⟨hstrongest, hothers, hnonce⟩ :=
                hcautious attempt hadAuth values hi scheme hchoice hrefused
              refine ⟨h.counted, ?_, ?_⟩
              · intro ch hch _
                rw [AuthState.adopted_scheme] at hch
                cases hch
                exact (congrArg List.length (counts_eq_nil (hnonce ch rfl))).symm
              · intro j attempt' values' hj
                rw [AuthState.adopted_scheme]
                change (s.setPhase i _).phase j = _ at hj
                rw [phase_setPhase] at hj
                split at hj
                · cases hj
                  exact hstrongest
                · exact hothers j attempt' values' hj
      | _ =>
          simp only [Session.step, hi] at hstep
          cases hstep

/-- In a cautious run the requests are counted, and sent again with the strongest scheme. -/
theorem inv_of_reaches (h : (system fits cfg).Reaches (Cautious cfg) s) :
  Inv fits cfg s
  := by
  apply TransitionSystem.Reaches.invariant (G := Cautious cfg) ?_ ?_ h
  · rintro _ rfl
    apply inv_new
  · exact fun _ _ _ hi hg hs => Inv.step hi hg hs

end

end Session

/-- A cautious run counts the requests and sends them again with the strongest scheme. One refused
request is sent again with it exactly when the first choice is that. Challenges that are rendered
are parsed. -/
theorem negotiation_sound (fits : Text → Bool) (cfg : Credentials) :
  (∀ s, (Session.system fits cfg).Reaches (Session.Cautious cfg) s →
      s.Counted ∧ s.Answered cfg) ∧
    (∀ st hadAuth values, RetriesStrongest cfg st hadAuth values ↔
      supported cfg values = [] ∨ ∃ scheme, firstChoice cfg values = some scheme ∧
        ¬JustRefused st hadAuth scheme ∧ Strongest cfg values scheme) ∧
    ∀ cs text, Rendered (cs.flatMap Challenge.toItems) text → parseChallenges text = cs
  := by
  refine ⟨?_, ?_, ?_⟩
  · intro s h
    have hinv := Session.inv_of_reaches h
    exact ⟨hinv.counted, hinv.answered⟩
  · intro st hadAuth values
    apply retriesStrongest_iff
  · intro cs text
    apply parseChallenges_of_rendered

/-! ### A nonce that is adopted twice -/

theorem isWord_of_all {t : Text} (h : (!t.isEmpty && t.all isWord) = true) :
  IsWord t
  := by
  obtain ⟨hne, hall⟩ := Bool.and_eq_true_iff.mp h
  refine ⟨?_, List.all_eq_true.mp hall⟩
  rintro rfl
  cases hne

theorem rendered_one {scheme name value : Text} (hscheme : IsWord scheme) (hname : IsWord name)
    (hvalue : IsWord value) :
  Rendered [.scheme (lower scheme), .param (lower name) value]
    (scheme ++ ' ' :: (name ++ '=' :: value))
  := by
  have hgap : ∀ c ∈ [' '], isGap c = true := List.all_eq_true.mp rfl
  have hparam := Rendered.cons hgap
    (.param hname (List.forall_mem_nil _) (List.forall_mem_nil _) (.word hvalue))
    (.nil (List.forall_mem_nil _)) (.inl rfl)
  simpa using Rendered.cons (List.forall_mem_nil _) (.scheme hscheme) hparam
    (.inr ⟨' ', _, rfl, rfl⟩)

/-- A scheme with one parameter is parsed. -/
theorem parseChallenges_one {scheme name value : Text} (hscheme : IsWord scheme)
    (hname : IsWord name) (hvalue : IsWord value) :
  parseChallenges (scheme ++ ' ' :: (name ++ '=' :: value)) =
    [{ scheme := lower scheme, params := [(lower name, value)] }]
  := parseChallenges_of_rendered (rendered_one hscheme hname hvalue)

/-- Credentials with a name and a password. -/
def twoClones : Credentials where
  username := some "u".toList
  password := "p".toList
  bearerToken := none

/-- The Digest challenge whose nonce is `n`. -/
def sameNonce : List Text := ["Digest nonce=n".toList]

/-- A Digest challenge with an algorithm that the client does not have, and Basic. -/
def unknownFirst : List Text := ["Digest algorithm=SHA-512-256".toList, "Basic realm=r".toList]

theorem offered_sameNonce :
  offered sameNonce = [{ scheme := "digest".toList, params := [("nonce".toList, "n".toList)] }]
  := by
  have hparse : parseChallenges ("Digest".toList ++ ' ' :: ("nonce".toList ++ '=' :: "n".toList)) =
      [{ scheme := "digest".toList, params := [("nonce".toList, "n".toList)] }] :=
    parseChallenges_one (isWord_of_all rfl) (isWord_of_all rfl) (isWord_of_all rfl)
  have hvisible : sameNonce.filter (fun v => v.all isVisible) = sameNonce := by decide
  rw [offered, hvisible, sameNonce, List.flatMap_singleton]
  exact hparse

theorem offered_unknownFirst :
  offered unknownFirst =
    [{ scheme := "digest".toList, params := [("algorithm".toList, "SHA-512-256".toList)] },
      { scheme := "basic".toList, params := [("realm".toList, "r".toList)] }]
  := by
  have hdigest : parseChallenges
      ("Digest".toList ++ ' ' :: ("algorithm".toList ++ '=' :: "SHA-512-256".toList)) =
      [{ scheme := "digest".toList, params := [("algorithm".toList, "SHA-512-256".toList)] }] :=
    parseChallenges_one (isWord_of_all rfl) (isWord_of_all rfl) (isWord_of_all rfl)
  have hbasic : parseChallenges ("Basic".toList ++ ' ' :: ("realm".toList ++ '=' :: "r".toList)) =
      [{ scheme := "basic".toList, params := [("realm".toList, "r".toList)] }] :=
    parseChallenges_one (isWord_of_all rfl) (isWord_of_all rfl) (isWord_of_all rfl)
  have hvisible : unknownFirst.filter (fun v => v.all isVisible) = unknownFirst := by decide
  rw [offered, hvisible, unknownFirst, List.flatMap_cons, List.flatMap_singleton]
  exact congrArg₂ (· ++ ·) hdigest hbasic

/-- The challenge of the nonce, parsed. -/
def nonceN : DigestChallenge where
  realm := []
  nonce := "n".toList
  opaqueData := none
  algorithm := .md5
  qopAuth := false
  stale := false

/-- A request that was sent without credentials takes up the nonce, with a count that starts over.
-/
theorem adoptChallenge_sameNonce (st : AuthState) :
  adoptChallenge twoClones st sameNonce false = .ok { scheme := .digest nonceN, nc := 0 }
  := by
  refine adoptChallenge_eq_ok.mpr ⟨.digest nonceN, ?_, ?_, rfl⟩
  · rw [firstChoice, offered_sameNonce]
    decide
  · rintro ⟨h, -⟩
    cases h

/-- Two requests were sent without credentials, and refused. -/
def bothRefused : Session :=
  let waiting :=
    ((Session.new twoClones).setPhase 0 (.waiting 0 false)).setPhase 1 (.waiting 0 false)
  (waiting.setPhase 0 (.refused 0 false sameNonce)).setPhase 1 (.refused 0 false sameNonce)

/-- The nonce is taken up by one of the requests. -/
def adoptedBy (s : Session) (i : ℕ) : Session :=
  { s.setPhase i (.fresh 1 (some sameNonce)) with auth := { scheme := .digest nonceN, nc := 0 } }

theorem reaches_adoptedBy {fits : Text → Bool} {s : Session} {i : ℕ}
    (h : (Session.system fits twoClones).Reachable s)
    (hi : s.phase i = .refused 0 false sameNonce) :
  (Session.system fits twoClones).Reachable (adoptedBy s i)
  := by
  have hstep : (Session.system fits twoClones).step s (.adopt i) = some (adoptedBy s i) := by
    change Session.step fits twoClones s (.adopt i) = some (adoptedBy s i)
    simp only [Session.step, hi, adoptChallenge_sameNonce, adoptedBy]
  exact .step h trivial hstep

/-- Two requests that were refused with one nonce are both sent with its first count. A supported
scheme is not taken up when a Digest challenge that is not supported is offered too. -/
theorem not_negotiation_sound :
  (∃ s, (Session.system (fun _ => true) twoClones).Reachable s ∧
      s.carried.map (fun h => (h.nonce, h.nc)) = [("n".toList, 1), ("n".toList, 1)]) ∧
    ∃ st, ¬RetriesStrongest twoClones st false unknownFirst
  := by
  constructor
  · have hnew : (Session.system (fun _ => true) twoClones).Reachable (Session.new twoClones) :=
      .init rfl
    have hfirst := TransitionSystem.Reaches.step (l := .send 0 [] []) hnew trivial rfl
    have hsecond := TransitionSystem.Reaches.step (l := .send 1 [] []) hfirst trivial rfl
    have hone :=
      TransitionSystem.Reaches.step (l := .respond 0 (some sameNonce)) hsecond trivial rfl
    have hboth : (Session.system (fun _ => true) twoClones).Reachable bothRefused :=
      .step (l := .respond 1 (some sameNonce)) hone trivial rfl
    have hsent := TransitionSystem.Reaches.step (l := .send 0 [] [])
      (reaches_adoptedBy (i := 0) hboth rfl) trivial rfl
    have hreplayed := TransitionSystem.Reaches.step (l := .send 1 [] [])
      (reaches_adoptedBy (i := 1) hsent rfl) trivial rfl
    exact ⟨_, hreplayed, rfl⟩
  · refine ⟨{ scheme := .none, nc := 0 }, ?_⟩
    rw [retriesStrongest_iff, supported, firstChoice, offered_unknownFirst]
    have hchoice : ((firstDigest
        [{ scheme := "digest".toList, params := [("algorithm".toList, "SHA-512-256".toList)] },
          { scheme := "basic".toList, params := [("realm".toList, "r".toList)] }]).or
        (firstBasic
        [{ scheme := "digest".toList, params := [("algorithm".toList, "SHA-512-256".toList)] },
          { scheme := "basic".toList, params := [("realm".toList, "r".toList)] }])).bind
        (support twoClones) = none := by decide
    rintro (h | ⟨scheme, h, -⟩)
    · revert h
      decide
    · rw [hchoice] at h
      cases h

end Termoso.Core.WebDav
