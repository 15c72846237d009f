import Termoso.Core.Proxy

/-!
# What a proxy is asked

Requests are decoded as their protocols have them, apart from how they were written, and compared
with what was asked for: a host or its address, a port, a user and a password, and nothing else.
And what is left for the tunnel after a positive reply.
-/

namespace Termoso.Core.Proxy

open Duplex IpAddr Split Utf8
open Http (CRLF chars decimal)

/-! ### What is asked for -/

def ProxyConfig.user (proxy : ProxyConfig) : Bytes := proxy.username.getD []

def ProxyConfig.pw (proxy : ProxyConfig) : Bytes := proxy.password.getD []

/-- The user and the password, unless there are none. -/
def ProxyConfig.credentials (proxy : ProxyConfig) : Option (Bytes × Bytes) :=
  if proxy.username = none ∧ proxy.pw = [] then none else some (proxy.user, proxy.pw)

/-- Where to connect to. -/
inductive Destination
  | addr (i : Addr)
  | name (n : Bytes)

/-- A destination is a host: its name, or the address that it writes. -/
def Destination.Is (host : Bytes) : Destination → Prop
  | .addr i => parseIpAddr host = some i
  | .name n => n = host

/-- A host of a URI is a host: itself, or its address in brackets. -/
def Names (host uriHost : Bytes) : Prop :=
  uriHost = host ∨ ∃ literal i, uriHost = 91 :: literal ++ [93]
    ∧ parseIpAddr literal = some (.v6 i) ∧ parseIpAddr host = some (.v6 i)

/-! ### HTTP -/

/-- A request says what was asked for, and has no other field. -/
structure SaysHttp (proxy : ProxyConfig) (host : Bytes) (port : UInt16) (r : Http.Request) :
    Prop where
  host : Names host r.host
  port : r.port = port.toNat
  fields : ∃ more, r.fields = (ascii "host", r.host ++ 58 :: decimal r.port) :: more
    ∧ match proxy.credentials with
      | none => more = []
      | some c => ∃ value, more = [(ascii "proxy-authorization", value)]
          ∧ Http.readBasic value = some c

/-- The host is one of a URI, and the user has no colon. -/
def HttpSayable (proxy : ProxyConfig) (host : Bytes) : Prop :=
  Http.isUriHost host = true ∧
    match proxy.username with
    | some user => (58 : UInt8) ∉ user
    | none => proxy.pw = []

/-! ### SOCKS4 -/

structure Socks4Request where
  port : UInt16
  destination : Destination
  user : Bytes

/-- A request of SOCKS4, or of its extension for names, with nothing after it. -/
def decodeSocks4 : Bytes → Option Socks4Request
  | 4 :: 1 :: p :: q :: a :: b :: c :: d :: rest =>
    (cut [0] rest).bind fun (user, rest) =>
      if a = 0 ∧ b = 0 ∧ c = 0 ∧ d ≠ 0 then
        (cut [0] rest).bind fun (name, rest) =>
          if rest = [] then some ⟨Word.read false p q, .name name, user⟩ else none
      else if rest = [] then
        (ofOctets [a, b, c, d]).map (fun i => ⟨Word.read false p q, .addr i, user⟩)
      else none
  | _ => none

/-- An address that tells the proxy that a name follows. -/
def Announces (i : Ipv4Addr) : Prop := i.a = 0 ∧ i.b = 0 ∧ i.c = 0 ∧ i.d ≠ 0

instance (i : Ipv4Addr) : Decidable (Announces i) := inferInstanceAs (Decidable (_ ∧ _))

/-! ### SOCKS5 -/

/-- What was said so far: the methods, and the credentials and the destination when they were. -/
structure Socks5Session where
  methods : Bytes
  credentials : Option (Bytes × Bytes)
  destination : Option (Destination × UInt16)

/-- A text after its length, and what follows. -/
def decodeText : Bytes → Option (Bytes × Bytes)
  | n :: rest => if n.toNat ≤ rest.length then some (rest.splitAt n.toNat) else none
  | [] => none

/-- A name and a password of at least one byte each, when there are. -/
def decodeCredentials : Bytes → Option (Option (Bytes × Bytes) × Bytes)
  | 1 :: rest =>
    (decodeText rest).bind fun (user, rest) =>
    (decodeText rest).bind fun (pw, rest) =>
      if user ≠ [] ∧ pw ≠ [] then some (some (user, pw), rest) else none
  | rest => some (none, rest)

/-- An address after its kind, and what follows. -/
def decodeAddress : Bytes → Option (Destination × Bytes)
  | 1 :: rest => (ofOctets (rest.take 4)).map (fun i => (.addr i, rest.drop 4))
  | 4 :: rest => (ofOctets (rest.take 16)).map (fun i => (.addr i, rest.drop 16))
  | 3 :: rest => (decodeText rest).map (fun r => (.name r.1, r.2))
  | _ => none

/-- A request to connect with nothing after it, when there is one. -/
def decodeRequest : Bytes → Option (Option (Destination × UInt16))
  | [] => some none
  | 5 :: 1 :: 0 :: rest =>
    (decodeAddress rest).bind fun (destination, rest) =>
      match rest with
      | [p, q] => some (some (destination, Word.read false p q))
      | _ => none
  | _ => none

def decodeSocks5 : Bytes → Option Socks5Session
  | 5 :: rest =>
    (decodeText rest).bind fun (methods, rest) =>
    (decodeCredentials rest).bind fun (credentials, rest) =>
    (decodeRequest rest).map fun destination => ⟨methods, credentials, destination⟩
  | _ => none

/-- The proxy asks for a name and a password. -/
def Chosen (stream : Bytes) : Prop := stream.take 2 = [5, 2]

instance (stream : Bytes) : Decidable (Chosen stream) := inferInstanceAs (Decidable (_ = _))

/-- A session says what was asked for, and gives the credentials when the proxy wants them. -/
structure SaysSocks5 (proxy : ProxyConfig) (host : Bytes) (port : UInt16) (stream : Bytes)
    (s : Socks5Session) : Prop where
  methods : s.methods = if proxy.username.isSome then [0, 2] else [0]
  credentials : ∀ c, s.credentials = some c → c = (proxy.user, proxy.pw)
  destination : ∀ d p, s.destination = some (d, p) → d.Is host ∧ p = port
  chosen : s.destination ≠ none → (s.credentials ≠ none ↔ Chosen stream)

/-! ### The three of them -/

/-- What was sent says exactly what was asked for. -/
def Says (proxy : ProxyConfig) (host : Bytes) (port : UInt16) (stream sent : Bytes) : Prop :=
  match proxy.kind with
  | .http => ∃ r, Http.readConnect sent = some r ∧ SaysHttp proxy host port r
  | .socks4 => sent ≠ [] → ∃ r, decodeSocks4 sent = some r ∧ r.destination.Is host
      ∧ r.port = port ∧ r.user = proxy.user
  | .socks5 => ∃ s, decodeSocks5 sent = some s ∧ SaysSocks5 proxy host port stream s

/-- What the protocol can say. -/
def Sayable (proxy : ProxyConfig) (host : Bytes) (stream : Bytes) : Prop :=
  match proxy.kind with
  | .http => HttpSayable proxy host
  | .socks4 => ¬ (0 ∉ proxy.user ∧ ∃ i, parseIpv4Addr host = some i ∧ Announces i)
  | .socks5 => ¬ (Chosen stream ∧ proxy.user.length ≤ 255 ∧ proxy.pw.length ≤ 255
      ∧ (proxy.user = [] ∨ proxy.pw = []))

/-- The address that a proxy bound, after its kind, and the port. -/
def IsBound (bound : Bytes) : Prop :=
  ∃ address port, port.length = 2 ∧ bound = address ++ port
    ∧ ((∃ a, a.length = 4 ∧ address = 1 :: a) ∨ (∃ a, a.length = 16 ∧ address = 4 :: a)
      ∨ ∃ n : UInt8, ∃ a, a.length = n.toNat ∧ address = 3 :: n :: a)

/-- All that a proxy answers when it opens the tunnel. -/
def Positive (proxy : ProxyConfig) (reply : Bytes) : Prop :=
  match proxy.kind with
  | .http => Http.IsPositive reply
  | .socks4 => ∃ rest, rest.length = 6 ∧ reply = 0 :: 0x5a :: rest
  | .socks5 => ∃ method auth bound, reply = 5 :: method :: (auth ++ 5 :: 0 :: 0 :: bound)
      ∧ (method = 0 ∧ auth = [] ∨ method = 2 ∧ proxy.username.isSome = true ∧ auth = [1, 0])
      ∧ IsBound bound

/-- The reply is no longer than a head may be; the request is one that is sent. -/
def Fits (proxy : ProxyConfig) (host reply : Bytes) : Prop :=
  match proxy.kind with
  | .http => reply.length ≤ 16 * 1024 + 1
  | .socks4 => 0 ∉ proxy.user ∧ (parseIpv4Addr host = none → 0 ∉ host)
  | .socks5 => (parseIpAddr host = none → host.length ≤ 255)
      ∧ (Chosen reply → proxy.user.length ≤ 255 ∧ proxy.pw.length ≤ 255)

/-! ### Requests of HTTP -/

section
variable {proxy : ProxyConfig} {host : Bytes} {port : UInt16}

/-- The fields of a request after the first. -/
def httpFields (proxy : ProxyConfig) : List (Bytes × Bytes) :=
  match proxy.username with
  | some user => [(ascii "proxy-authorization",
      ascii "Basic" ++ 32 :: Base64.encode (user ++ 58 :: proxy.pw))]
  | none => []

theorem readField_visible {name value : Bytes} (hne : name ≠ [])
    (hname : name.all Http.isTokenChar = true) (hvalue : ∀ b ∈ value, Http.Visible b) :
  Http.readField (name ++ 58 :: 32 :: value) = some (name.map Http.lower, value)
  := by
  apply Http.readField_of hne hname
  · exact fun b hb => (Http.isFieldChar_of_visible b (hvalue b hb)).1
  · exact trimBy_eq_self_of_forall fun b hb => (Http.isFieldChar_of_visible b (hvalue b hb)).2

/-- The value of credentials begins and ends with no blank. -/
theorem trimBy_basic {token : Bytes} (hne : token ≠ []) (htoken : ∀ b ∈ token, Http.Visible b) :
  trimBy Http.isBlank (ascii "Basic" ++ 32 :: token) = ascii "Basic" ++ 32 :: token
  := by
  have hlast : (ascii "Basic" ++ 32 :: token).getLast? = some (token.getLast hne) := by
    rw [List.append_cons, List.getLast?_append_of_ne_nil _ hne]
    exact List.getLast?_eq_some_getLast hne
  apply trimBy_eq_self (c := 66) rfl hlast rfl
  exact (Http.isFieldChar_of_visible _ (htoken _ (List.getLast_mem hne))).2

/-- The credentials are read as a field. -/
theorem readFields_credentials (proxy : ProxyConfig) :
  Http.readFields (httpAuthorization proxy ++ CRLF) = some (httpFields proxy, [])
  := by
  rw [httpAuthorization, httpFields]
  cases proxy.username with
  | none => exact Http.readFields_nil []
  | some user =>
      dsimp only
      have htoken : ∀ b ∈ Base64.encode (user ++ 58 :: proxy.pw), Http.Visible b :=
        fun b hb => Base64.printable_of_mem_encode hb
      have hne : Base64.encode (user ++ 58 :: proxy.pw) ≠ [] :=
        Base64.encode_ne_nil (List.append_ne_nil_of_right_ne_nil _ (List.cons_ne_nil _ _))
      generalize htok : Base64.encode (user ++ 58 :: proxy.pw) = token at htoken hne ⊢
      have hvalue : ∀ b ∈ ascii "Basic" ++ 32 :: token, Http.isFieldChar b = true := by
        intro b hb
        rcases List.mem_append.mp hb with hb | hb
        · have hbasic : ∀ b ∈ ascii "Basic", Http.isFieldChar b = true :=
            List.all_eq_true.mp rfl
          exact hbasic b hb
        rcases List.mem_cons.mp hb with rfl | hb
        · rfl
        · exact (Http.isFieldChar_of_visible b (htoken b hb)).1
      have hfield : Http.readField (ascii "Proxy-Authorization" ++ 58 :: 32
          :: (ascii "Basic" ++ 32 :: token)) = some (ascii "proxy-authorization",
            ascii "Basic" ++ 32 :: token) :=
        Http.readField_of (by decide) (by decide) hvalue (trimBy_basic hne htoken)
      have hcr : (13 : UInt8) ∉ ascii "Proxy-Authorization" ++ 58 :: 32
          :: (ascii "Basic" ++ 32 :: token) := by
        intro h
        rcases List.mem_append.mp h with h | h
        · exact absurd h (by decide)
        rcases List.mem_cons.mp h with h | h
        · cases h
        rcases List.mem_cons.mp h with h | h
        · cases h
        · exact absurd (hvalue 13 h) (by decide)
      have hread := @Http.readFields_cons _ CRLF _ hcr
        (List.append_ne_nil_of_right_ne_nil _ (List.cons_ne_nil _ _)) hfield
      have hnil := Http.readFields_nil []
      rw [List.append_nil] at hnil
      rw [hnil] at hread
      have hline : ascii "Proxy-Authorization: Basic " ++ token ++ CRLF ++ CRLF
          = ascii "Proxy-Authorization" ++ 58 :: 32 :: (ascii "Basic" ++ 32 :: token)
            ++ (CRLF ++ CRLF) := by
        rw [List.append_assoc, List.append_assoc, List.append_assoc]
        rfl
      have hpw : proxy.password.getD [] = proxy.pw := rfl
      rw [hpw, htok, hline, hread]
      rfl

/-- A request to a host of a URI is read as what was asked for. -/
theorem readConnect_httpRequest (proxy : ProxyConfig) (port : UInt16)
    (hhost : Http.isUriHost host = true) :
  Http.readConnect (httpRequest proxy host port) = some ⟨host, port.toNat,
    (ascii "host", host ++ 58 :: decimal port.toNat) :: httpFields proxy⟩
  := by
  have hauthority : ∀ b ∈ host ++ 58 :: decimal port.toNat, Http.Visible b := by
    intro b hb
    rcases List.mem_append.mp hb with hb | hb
    · exact Http.visible_of_isUriHost hhost b hb
    rcases List.mem_cons.mp hb with rfl | hb
    · decide
    · exact (Http.visible_of_isDigit b (Http.isDigit_of_mem_decimal hb)).1
  have hfield : Http.readField (ascii "Host" ++ 58 :: 32 :: (host ++ 58 :: decimal port.toNat))
      = some (ascii "host", host ++ 58 :: decimal port.toNat) :=
    readField_visible (by decide) (by decide) hauthority
  have hcr : (13 : UInt8) ∉ ascii "Host" ++ 58 :: 32 :: (host ++ 58 :: decimal port.toNat) := by
    intro h
    rcases List.mem_append.mp h with h | h
    · exact absurd h (by decide)
    rcases List.mem_cons.mp h with h | h
    · cases h
    rcases List.mem_cons.mp h with h | h
    · cases h
    · exact absurd (hauthority 13 h) (by decide)
  have hfields := @Http.readFields_cons _ (httpAuthorization proxy ++ CRLF) _ hcr
    (List.append_ne_nil_of_right_ne_nil _ (List.cons_ne_nil _ _)) hfield
  rw [readFields_credentials] at hfields
  have hread := Http.readConnect_of hhost port.toNat_lt hfields
  refine (congrArg Http.readConnect ?_).trans hread
  rw [httpRequest]
  have hget : ascii "CONNECT " = ascii "CONNECT" ++ [32] := rfl
  have hversion : ascii " HTTP/1.1" = [32] ++ ascii "HTTP/1.1" := rfl
  have hname : ascii "Host: " = ascii "Host" ++ [58, 32] := rfl
  rw [hget, hversion, hname]
  simp only [List.append_assoc, List.cons_append, List.nil_append]

theorem httpRequest_eq (proxy : ProxyConfig) (host : Bytes) (port : UInt16) :
  ∃ rest, httpRequest proxy host port = ascii "CONNECT" ++ 32 :: (host ++ rest)
  := by
  refine ⟨58 :: decimal port.toNat ++ (ascii " HTTP/1.1" ++ (CRLF ++ (ascii "Host: " ++ (host
    ++ 58 :: decimal port.toNat ++ (CRLF ++ (httpAuthorization proxy ++ CRLF)))))), ?_⟩
  have hget : ascii "CONNECT " = ascii "CONNECT" ++ [32] := rfl
  rw [httpRequest, hget]
  simp only [List.append_assoc, List.cons_append, List.nil_append]

/-- An address does not begin with a bracket. -/
theorem exists_of_parseIpAddr {i : Addr} (h : parseIpAddr host = some i) :
  ∃ c rest, host = c :: rest ∧ c ≠ 91
  := by
  cases host with
  | nil => cases h
  | cons c rest =>
      refine ⟨c, rest, rfl, ?_⟩
      rintro rfl
      have hc := addrChar_of_parse h (Char.ofNat (91 : UInt8).toNat) List.mem_cons_self
      obtain hc | hc | hc := hc
      · cases hc
      · exact absurd hc (by decide)
      · exact absurd hc (by decide)

/-- A request is read only when its host is one of a URI. -/
theorem isUriHost_of_says {r : Http.Request}
    (h : Http.readConnect (httpRequest proxy host port) = some r) (hr : Names host r.host) :
  Http.isUriHost host = true
  := by
  obtain ⟨huri, rest, hsent⟩ := Http.readConnect_eq_some h
  obtain heq | ⟨literal, i, heq, _, hhost⟩ := hr
  · rwa [heq] at huri
  · obtain ⟨rest', hsent'⟩ := httpRequest_eq proxy host port
    obtain ⟨c, host', rfl, hc⟩ := exists_of_parseIpAddr hhost
    rw [hsent', heq] at hsent
    have htail := (List.cons.inj (List.append_cancel_left hsent)).2
    exact absurd (List.cons.inj htail).1 hc

/-- The credentials are said when the user has no colon, and are not there only when there are
none. -/
theorem httpFields_iff (proxy : ProxyConfig) :
  (match proxy.credentials with
    | none => httpFields proxy = []
    | some c => ∃ value, httpFields proxy = [(ascii "proxy-authorization", value)]
        ∧ Http.readBasic value = some c)
    ↔ match proxy.username with
      | some user => (58 : UInt8) ∉ user
      | none => proxy.pw = []
  := by
  rw [ProxyConfig.credentials, httpFields, ProxyConfig.user]
  cases husername : proxy.username with
  | none =>
      by_cases hpw : proxy.pw = []
      · rw [if_pos ⟨rfl, hpw⟩]
        exact ⟨fun _ => hpw, fun _ => rfl⟩
      · rw [if_neg (fun h => hpw h.2)]
        constructor
        · rintro ⟨value, hvalue, _⟩
          cases hvalue
        · exact fun h => absurd h hpw
  | some user =>
      rw [if_neg (fun h => nomatch h.1)]
      dsimp only
      constructor
      · rintro ⟨value, hvalue, hread⟩
        cases hvalue
        exact (Http.readBasic_encode user proxy.pw).mp hread
      · exact fun h => ⟨_, rfl, (Http.readBasic_encode user proxy.pw).mpr h⟩

theorem says_http_iff :
  (∃ r, Http.readConnect (httpRequest proxy host port) = some r ∧ SaysHttp proxy host port r)
    ↔ HttpSayable proxy host
  := by
  constructor
  · rintro ⟨r, hread, hsays⟩
    have hhost := isUriHost_of_says hread hsays.host
    rw [readConnect_httpRequest proxy port hhost] at hread
    cases hread
    obtain ⟨more, hmore, hcredentials⟩ := hsays.fields
    refine ⟨hhost, (httpFields_iff proxy).mp ?_⟩
    rw [(List.cons.inj hmore).2]
    exact hcredentials
  · rintro ⟨hhost, hcredentials⟩
    refine ⟨_, readConnect_httpRequest proxy port hhost, .inl rfl, rfl, httpFields proxy, rfl, ?_⟩
    exact (httpFields_iff proxy).mpr hcredentials

end

/-- An IPv6 address without brackets, and a host with a line end, are hosts of no URI. -/
example : Http.isUriHost (ascii "fe80::1") = false
    ∧ Http.isUriHost (ascii "h:1 HTTP/1.1\r\nX: y") = false
    ∧ Http.isUriHost (ascii "[fe80::1]") = true := by
  decide

/-! ### Requests of SOCKS4 -/

section
variable {proxy : ProxyConfig} {host : Bytes} {port : UInt16}

theorem parseIpAddr_of_parseIpv4Addr {i : Ipv4Addr} (h : parseIpv4Addr host = some i) :
  parseIpAddr host = some (.v4 i)
  := by
  rw [parseIpv4Addr] at h
  split at h
  · rename_i i' hread
    cases h
    rw [parseIpAddr, IpAddr.parse, hread]
    rfl
  · cases h

theorem cut_nul {s : Bytes} (h : (0 : UInt8) ∉ s) (rest : Bytes) :
  cut [0] (s ++ 0 :: rest) = some (s, rest)
  := by
  have hcut := cut_append (List.cons_ne_nil 0 []) (apart_singleton h) rest
  rw [List.append_assoc] at hcut
  exact hcut

theorem ofBitVec_eq_zero {x : BitVec 8} :
  (⟨x⟩ : UInt8) = 0 ↔ x = 0
  := by
  constructor
  · exact congrArg UInt8.toBitVec
  · rintro rfl
    rfl

/-- A request with an address is read, unless the address tells that a name follows. -/
theorem decodeSocks4_addr {user : Bytes} {i : Ipv4Addr} (hhost : parseIpv4Addr host = some i)
    (huser : 0 ∉ user) :
  decodeSocks4 (socks4Request host user port)
    = if Announces i then none else some ⟨port, .addr (.v4 i), user⟩
  := by
  obtain ⟨p, q, hport, hread⟩ := Word.exists_bytes false port
  have hrequest : socks4Request host user port
      = 4 :: 1 :: p :: q :: ⟨i.a⟩ :: ⟨i.b⟩ :: ⟨i.c⟩ :: ⟨i.d⟩ :: (user ++ 0 :: []) := by
    rw [socks4Request, hport, hhost]
    rfl
  rw [hrequest, decodeSocks4, cut_nul huser, Option.bind_some]
  dsimp only
  have hannounces : ((⟨i.a⟩ : UInt8) = 0 ∧ (⟨i.b⟩ : UInt8) = 0 ∧ (⟨i.c⟩ : UInt8) = 0
      ∧ (⟨i.d⟩ : UInt8) ≠ 0) ↔ Announces i := by
    rw [Announces, ne_eq, ofBitVec_eq_zero, ofBitVec_eq_zero, ofBitVec_eq_zero, ofBitVec_eq_zero]
  by_cases h : Announces i
  · rw [if_pos (hannounces.mpr h), if_pos h]
    rfl
  · rw [if_neg (fun h' => h (hannounces.mp h')), if_neg h, if_pos rfl, hread]
    rfl

/-- A request with a name is read. -/
theorem decodeSocks4_name {user : Bytes} (hhost : parseIpv4Addr host = none) (huser : 0 ∉ user)
    (hname : 0 ∉ host) :
  decodeSocks4 (socks4Request host user port) = some ⟨port, .name host, user⟩
  := by
  obtain ⟨p, q, hport, hread⟩ := Word.exists_bytes false port
  have hrequest : socks4Request host user port
      = 4 :: 1 :: p :: q :: 0 :: 0 :: 0 :: 1 :: (user ++ 0 :: (host ++ 0 :: [])) := by
    rw [socks4Request, hport, hhost]
    simp
  rw [hrequest, decodeSocks4, cut_nul huser, Option.bind_some]
  dsimp only
  rw [if_pos (by decide), cut_nul hname, Option.bind_some]
  dsimp only
  rw [if_pos rfl, hread]

theorem silent_socks4Reply :
  Silent socks4Reply
  := by
  apply silent_andThen (silent_readExact _ _)
  intro resp
  split
  · exact silent_fail _
  · split
    · exact silent_ret _
    all_goals exact silent_fail _

theorem sent_socks4Connect (proxy : ProxyConfig) (host : Bytes) (port : UInt16) (s : Bytes) :
  (socks4Connect proxy host port s).sent
    = if 0 ∈ proxy.user ∨ (parseIpv4Addr host = none ∧ 0 ∈ host) then []
      else socks4Request host proxy.user port
  := by
  rw [socks4Connect, ← ProxyConfig.user]
  by_cases huser : 0 ∈ proxy.user
  · rw [if_pos huser, if_pos (.inl huser)]
    rfl
  by_cases hhost : parseIpv4Addr host = none ∧ 0 ∈ host
  · rw [if_neg huser, if_pos hhost, if_pos (.inr hhost)]
    rfl
  · rw [if_neg huser, if_neg hhost, if_neg (fun h => h.elim huser hhost), send_andThen,
      silent_socks4Reply s, List.append_nil]

theorem socks4Request_ne_nil (host user : Bytes) (port : UInt16) :
  socks4Request host user port ≠ []
  := by
  rw [socks4Request]
  exact List.cons_ne_nil _ _

theorem says_socks4_iff (proxy : ProxyConfig) (host : Bytes) (port : UInt16) (s : Bytes) :
  ((socks4Connect proxy host port s).sent ≠ [] →
      ∃ r, decodeSocks4 (socks4Connect proxy host port s).sent = some r ∧ r.destination.Is host
        ∧ r.port = port ∧ r.user = proxy.user)
    ↔ ¬ (0 ∉ proxy.user ∧ ∃ i, parseIpv4Addr host = some i ∧ Announces i)
  := by
  rw [sent_socks4Connect]
  by_cases huser : 0 ∈ proxy.user
  · rw [if_pos (.inl huser)]
    exact iff_of_true (fun h => absurd rfl h) (fun h => h.1 huser)
  cases hhost : parseIpv4Addr host with
  | none =>
      by_cases hname : 0 ∈ host
      · rw [if_pos (.inr ⟨rfl, hname⟩)]
        exact iff_of_true (fun h => absurd rfl h) (fun ⟨_, i, hi, _⟩ => nomatch hi)
      · rw [if_neg (fun h => h.elim huser (fun h => hname h.2)),
          decodeSocks4_name hhost huser hname]
        exact iff_of_true (fun _ => ⟨_, rfl, rfl, rfl, rfl⟩) (fun ⟨_, i, hi, _⟩ => nomatch hi)
  | some i =>
      rw [if_neg (fun h => h.elim huser (fun h => nomatch h.1)), decodeSocks4_addr hhost huser]
      by_cases hi : Announces i
      · rw [if_pos hi]
        refine iff_of_false ?_ (fun h => h ⟨huser, i, rfl, hi⟩)
        intro h
        obtain ⟨r, hr, _⟩ := h (socks4Request_ne_nil host proxy.user port)
        cases hr
      · rw [if_neg hi]
        refine iff_of_true ?_ ?_
        · exact fun _ => ⟨_, rfl, parseIpAddr_of_parseIpv4Addr hhost, rfl, rfl⟩
        · rintro ⟨_, j, hj, hannounces⟩
          cases hj
          exact hi hannounces

end

/-! ### Sessions of SOCKS5 -/

theorem decodeText_append {n : UInt8} {text : Bytes} (hn : n.toNat = text.length) (rest : Bytes) :
  decodeText (n :: (text ++ rest)) = some (text, rest)
  := by
  rw [decodeText, if_pos (by rw [hn, List.length_append]; exact Nat.le_add_right _ _), hn,
    List.splitAt_eq, List.take_left, List.drop_left]

theorem toNat_ofNat_length {text : Bytes} (h : text.length ≤ 255) :
  (UInt8.ofNat text.length).toNat = text.length
  := by
  rw [UInt8.toNat_ofNat', Nat.mod_eq_of_lt (Nat.lt_succ_of_le h)]

/-- Credentials are read when neither of them is empty. -/
theorem decodeCredentials_append {user pw : Bytes} (huser : user.length ≤ 255)
    (hpw : pw.length ≤ 255) (rest : Bytes) :
  decodeCredentials (socks5Credentials user pw ++ rest)
    = if user ≠ [] ∧ pw ≠ [] then some (some (user, pw), rest) else none
  := by
  have heq : socks5Credentials user pw ++ rest
      = 1 :: .ofNat user.length :: (user ++ .ofNat pw.length :: (pw ++ rest)) := by
    simp [socks5Credentials]
  rw [heq, decodeCredentials, decodeText_append (toNat_ofNat_length huser), Option.bind_some]
  dsimp only
  rw [decodeText_append (toNat_ofNat_length hpw), Option.bind_some]

theorem decodeCredentials_of_ne {rest : Bytes} (h : rest.head? ≠ some 1) :
  decodeCredentials rest = some (none, rest)
  := by
  unfold decodeCredentials
  split
  · exact absurd rfl h
  · rfl

section
variable {proxy : ProxyConfig} {host : Bytes} {port : UInt16} {s : Bytes}

/-- An address is read as one that is the host. -/
theorem decodeAddress_append {address : Bytes} (h : socks5Address host = some address) :
  ∃ d : Destination, d.Is host ∧ ∀ rest, decodeAddress (address ++ rest) = some (d, rest)
  := by
  rw [socks5Address] at h
  split at h
  · rename_i i hhost
    cases h
    refine ⟨.addr (.v4 i), hhost, fun rest => ?_⟩
    rw [List.cons_append, decodeAddress, ← i.length_octets, List.take_left, List.drop_left,
      ofOctets_v4]
    rfl
  · rename_i i hhost
    cases h
    refine ⟨.addr (.v6 i), hhost, fun rest => ?_⟩
    rw [List.cons_append, decodeAddress, ← i.length_octets, List.take_left, List.drop_left,
      ofOctets_v6]
    rfl
  · split at h
    · cases h
    · rename_i hlen
      cases h
      refine ⟨.name host, rfl, fun rest => ?_⟩
      have htext := decodeText_append (toNat_ofNat_length (Nat.le_of_not_gt hlen)) rest
      rw [List.append_assoc, List.cons_append, List.cons_append, List.nil_append, decodeAddress,
        htext]
      rfl

/-- What is written to ask for a connection. -/
def socks5Ask (host : Bytes) (port : UInt16) : Bytes :=
  match socks5Address host with
  | some address => [5, 1, 0] ++ address ++ Word.bytes false port
  | none => []

theorem decodeRequest_ask (host : Bytes) (port : UInt16) :
  ∃ asked, decodeRequest (socks5Ask host port) = some asked
    ∧ ∀ d p, asked = some (d, p) → d.Is host ∧ p = port
  := by
  rw [socks5Ask]
  cases haddress : socks5Address host with
  | none => exact ⟨none, rfl, fun _ _ h => nomatch h⟩
  | some address =>
      obtain ⟨d, hd, hread⟩ := decodeAddress_append haddress
      obtain ⟨p, q, hport, hword⟩ := Word.exists_bytes false port
      refine ⟨some (d, port), ?_, ?_⟩
      · dsimp only
        rw [List.append_assoc, hport]
        change (decodeAddress (address ++ [p, q])).bind _ = _
        rw [hread, Option.bind_some]
        dsimp only
        rw [hword]
      · rintro d' p' h
        cases h
        exact ⟨hd, rfl⟩

theorem head?_ask (host : Bytes) (port : UInt16) :
  (socks5Ask host port).head? ≠ some 1
  := by
  rw [socks5Ask]
  split
  · exact fun h => nomatch h
  · exact fun h => nomatch h

theorem silent_socks5Reply :
  Silent socks5Reply
  := by
  apply silent_andThen (silent_readExact _ _)
  intro head
  split
  · exact silent_fail _
  · apply silent_andThen
    · unfold socks5AddrLen
      split
      · exact silent_ret _
      · exact silent_ret _
      · exact silent_andThen (silent_readExact _ _) (fun _ => silent_ret _)
      · exact silent_fail _
    · exact fun _ => silent_andThen (silent_readExact _ _) (fun _ => silent_ret _)

theorem sent_socks5Request (host : Bytes) (port : UInt16) (s : Bytes) :
  (socks5Request host port s).sent = socks5Ask host port
  := by
  rw [socks5Request, socks5Ask]
  cases socks5Address host with
  | none => rfl
  | some address =>
      dsimp only
      rw [send_andThen, silent_socks5Reply s, List.append_nil]

/-- The credentials are short enough to be sent. -/
def ProxyConfig.Short (proxy : ProxyConfig) : Prop :=
  proxy.user.length ≤ 255 ∧ proxy.pw.length ≤ 255

instance (proxy : ProxyConfig) : Decidable proxy.Short := inferInstanceAs (Decidable (_ ∧ _))

/-- The credentials are sent when they are short. -/
theorem socks5Login_spec (proxy : ProxyConfig) (s : Bytes) :
  (socks5Login proxy s).sent
      = (if proxy.Short then socks5Credentials proxy.user proxy.pw else [])
    ∧ ((socks5Login proxy s).result = .ok ⟨⟩ → proxy.Short)
  := by
  rw [socks5Login, ← ProxyConfig.user, ← ProxyConfig.pw]
  by_cases hshort : proxy.Short
  · have hlong : ¬ (proxy.user.length > 255 ∨ proxy.pw.length > 255) := by
      rw [not_or]
      exact ⟨Nat.not_lt.mpr hshort.1, Nat.not_lt.mpr hshort.2⟩
    rw [if_neg hlong, if_pos hshort, send_andThen]
    refine ⟨?_, fun _ => hshort⟩
    have hsilent : Silent (do
        let r ← (readExact .io 2 : Talk _)
        if r.getD 1 0 ≠ 0 then fail (.ssh "socks5: authentication rejected") else ret ⟨⟩
          : Talk PUnit) := by
      apply silent_andThen (silent_readExact _ _)
      intro r
      split
      · exact silent_fail _
      · exact silent_ret _
    dsimp only
    rw [hsilent s, List.append_nil]
  · have hlong : proxy.user.length > 255 ∨ proxy.pw.length > 255 := by
      rw [ProxyConfig.Short, not_and_or, Nat.not_le, Nat.not_le] at hshort
      exact hshort
    rw [if_pos hlong, if_neg hshort]
    exact ⟨rfl, fun h => nomatch h⟩

/-- The credentials are sent when the proxy asks for them; it goes on when it asks for nothing, or
after them. -/
theorem socks5Authenticate_spec (proxy : ProxyConfig) (m : UInt8) (s : Bytes) :
  (socks5Authenticate proxy m s).sent
      = (if m = 2 ∧ proxy.Short then socks5Credentials proxy.user proxy.pw else [])
    ∧ ((socks5Authenticate proxy m s).result = .ok ⟨⟩ → m = 0 ∨ (m = 2 ∧ proxy.Short))
  := by
  unfold socks5Authenticate
  split
  · exact ⟨rfl, fun _ => .inl rfl⟩
  · obtain ⟨hsent, hok⟩ := socks5Login_spec proxy s
    refine ⟨?_, fun h => .inr ⟨rfl, hok h⟩⟩
    rw [hsent]
    simp only [true_and]
  · exact ⟨rfl, fun h => nomatch h⟩
  · rename_i h0 h2 hff
    rw [if_neg (fun h => h2 h.1)]
    exact ⟨rfl, fun h => nomatch h⟩

/-- What is written: the greeting, the credentials when the proxy asks for them and they are short,
and what asks for the connection, unless it did not come to that. -/
theorem sent_socks5Connect (proxy : ProxyConfig) (host : Bytes) (port : UInt16) (s : Bytes) :
  ∃ login asked, (socks5Connect proxy host port s).sent = socks5Greeting proxy ++ (login ++ asked)
    ∧ (login = if Chosen s ∧ proxy.Short then socks5Credentials proxy.user proxy.pw else [])
    ∧ (asked = [] ∨ asked = socks5Ask host port ∧ (Chosen s → proxy.Short))
  := by
  rw [socks5Connect, send_andThen]
  match s with
  | [] => exact ⟨[], [], rfl, rfl, .inl rfl⟩
  | [a] => exact ⟨[], [], rfl, (if_neg (fun h => nomatch h.1)).symm, .inl rfl⟩
  | a :: m :: s =>
      have hread : (readExact .io 2 : Talk Bytes) (a :: m :: s) = ⟨.ok [a, m], [], s⟩ :=
        readExact_append .io [a, m] s
      rw [andThen_eq hread]
      change ∃ login asked, socks5Greeting proxy ++ ((if a ≠ 5 then
          fail (.ssh "socks5: bad version")
        else (socks5Authenticate proxy m >>= fun _ => socks5Request host port) : Talk PUnit) s).sent
          = _ ∧ _
      have hchosen : Chosen (a :: m :: s) ↔ a = 5 ∧ m = 2 := by
        rw [Chosen]
        simp
      by_cases ha : a = 5
      · rw [if_neg (not_not_intro ha)]
        obtain ⟨hsent, hok⟩ := socks5Authenticate_spec proxy m s
        have hlogin : (if m = 2 ∧ proxy.Short then socks5Credentials proxy.user proxy.pw else [])
            = if Chosen (a :: m :: s) ∧ proxy.Short then socks5Credentials proxy.user proxy.pw
              else [] := by
          apply if_congr _ rfl rfl
          rw [hchosen]
          simp only [ha, true_and]
        rw [hlogin] at hsent
        cases hresult : (socks5Authenticate proxy m s).result with
        | error e =>
            refine ⟨_, [], ?_, rfl, .inl rfl⟩
            rw [andThen_error hresult, hsent, List.append_nil]
        | ok u =>
            refine ⟨_, socks5Ask host port, ?_, rfl, .inr ⟨rfl, fun h => ?_⟩⟩
            · rw [andThen_ok hresult, hsent, sent_socks5Request]
            · obtain hzero | htwo := hok hresult
              · exact absurd ((hchosen.mp h).2.symm.trans hzero) (by decide)
              · exact htwo.2
      · rw [if_pos ha]
        refine ⟨[], [], rfl, ?_, .inl rfl⟩
        rw [if_neg (fun h => ha (hchosen.mp h.1).1)]

theorem decodeSocks5_greeting (proxy : ProxyConfig) (rest : Bytes) :
  decodeSocks5 (socks5Greeting proxy ++ rest)
    = (decodeCredentials rest).bind fun (credentials, rest) =>
      (decodeRequest rest).map fun destination =>
        ⟨if proxy.username.isSome then [0, 2] else [0], credentials, destination⟩
  := by
  rw [socks5Greeting]
  cases proxy.username.isSome with
  | true =>
      have htext := @decodeText_append 2 [0, 2] rfl rest
      simp only [↓reduceIte]
      rw [List.cons_append, decodeSocks5, List.cons_append, htext, Option.bind_some]
  | false =>
      have htext := @decodeText_append 1 [0] rfl rest
      simp only [Bool.false_eq_true, ↓reduceIte]
      rw [List.cons_append, decodeSocks5, List.cons_append, htext, Option.bind_some]

theorem says_socks5_iff (proxy : ProxyConfig) (host : Bytes) (port : UInt16) (s : Bytes) :
  (∃ session, decodeSocks5 (socks5Connect proxy host port s).sent = some session
      ∧ SaysSocks5 proxy host port s session)
    ↔ ¬ (Chosen s ∧ proxy.user.length ≤ 255 ∧ proxy.pw.length ≤ 255
      ∧ (proxy.user = [] ∨ proxy.pw = []))
  := by
  obtain ⟨login, asked, hsent, hlogin, hasked⟩ := sent_socks5Connect proxy host port s
  rw [hsent, decodeSocks5_greeting]
  have hrequest : ∃ d, decodeRequest asked = some d
      ∧ ∀ d' p, d = some (d', p) → d'.Is host ∧ p = port := by
    obtain rfl | ⟨rfl, _⟩ := hasked
    · exact ⟨none, rfl, fun _ _ h => nomatch h⟩
    · exact decodeRequest_ask host port
  have hhead : asked.head? ≠ some 1 := by
    obtain rfl | ⟨rfl, _⟩ := hasked
    · exact fun h => nomatch h
    · exact head?_ask host port
  obtain ⟨d, hd, hsays⟩ := hrequest
  by_cases hlog : Chosen s ∧ proxy.Short
  · rw [if_pos hlog] at hlogin
    rw [hlogin, decodeCredentials_append hlog.2.1 hlog.2.2]
    by_cases hempty : proxy.user ≠ [] ∧ proxy.pw ≠ []
    · rw [if_pos hempty, Option.bind_some]
      dsimp only
      rw [hd, Option.map_some]
      refine iff_of_true ⟨_, rfl, rfl, ?_, hsays, ?_⟩ ?_
      · rintro c ⟨⟩
        rfl
      · exact fun _ => iff_of_true (fun h => nomatch h) hlog.1
      · exact fun h => h.2.2.2.elim hempty.1 hempty.2
    · rw [if_neg hempty]
      refine iff_of_false (fun ⟨_, h, _⟩ => nomatch h) (not_not_intro ?_)
      rw [not_and_or, not_ne_iff, not_ne_iff] at hempty
      exact ⟨hlog.1, hlog.2.1, hlog.2.2, hempty⟩
  · rw [if_neg hlog] at hlogin
    rw [hlogin, List.nil_append, decodeCredentials_of_ne hhead, Option.bind_some]
    dsimp only
    rw [hd, Option.map_some]
    refine iff_of_true ⟨_, rfl, rfl, (fun _ h => nomatch h), hsays, ?_⟩ ?_
    · intro hdest
      refine iff_of_false (fun h => h rfl) ?_
      intro hchosen
      obtain rfl | ⟨_, hshort⟩ := hasked
      · cases hd
        exact hdest rfl
      · exact hlog ⟨hchosen, hshort hchosen⟩
    · exact fun h => hlog ⟨h.1, h.2.1, h.2.2.1⟩

end

end Termoso.Core.Proxy
