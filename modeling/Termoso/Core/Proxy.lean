import Termoso.Lib.Duplex
import Termoso.Lib.HttpHead
import Termoso.Lib.Word
import Termoso.Crypto
import Termoso.Proto

/-!
# Outbound proxies

The three protocols in which a proxy is asked for a connection: HTTP `CONNECT`, SOCKS4 with its
extension for names, and SOCKS5 with an optional name and password.  A program writes to the proxy
and reads what the proxy answers; what it leaves unread belongs to the tunnel.

Texts stand for the bytes they are written with, as the requests and the address parsers take
them.
-/

namespace Termoso.Core.Proxy

open Duplex IpAddr Utf8
open Http (CRLF chars decimal)

/-- Proxy type. -/
inductive ProxyKind
  | http
  | socks4
  | socks5
deriving DecidableEq

/-- Proxy settings. -/
structure ProxyConfig where
  kind : ProxyKind
  username : Option Bytes
  password : Option Bytes

inductive ProxyError
  | ssh (message : String)
  /-- The stream ended. -/
  | io
deriving DecidableEq

/-- A conversation with a proxy. -/
abbrev Talk (α : Type) := Duplex UInt8 ProxyError α

/-- Read a text as an IPv4 address. -/
def parseIpv4Addr (s : Bytes) : Option Ipv4Addr :=
  match readIpv4Addr (chars s) with
  | some (i, []) => some i
  | _ => none

/-- Read a text as an address. -/
def parseIpAddr (s : Bytes) : Option Addr := IpAddr.parse (chars s)

/-! ### HTTP -/

/-- The field with the credentials. -/
def httpAuthorization (proxy : ProxyConfig) : Bytes :=
  match proxy.username with
  | some user =>
    let cred := Base64.encode (user ++ 58 :: proxy.password.getD [])
    ascii "Proxy-Authorization: Basic " ++ cred ++ CRLF
  | none => []

def httpRequest (proxy : ProxyConfig) (host : Bytes) (port : UInt16) : Bytes :=
  let authority := host ++ 58 :: decimal port.toNat
  ascii "CONNECT " ++ authority ++ ascii " HTTP/1.1" ++ CRLF ++ ascii "Host: " ++ authority ++ CRLF
    ++ httpAuthorization proxy ++ CRLF

/-- Read a head byte by byte up to an empty line. -/
def readHead (buf : Bytes) (s : List UInt8) : Outcome UInt8 ProxyError Bytes :=
  if (CRLF ++ CRLF).isSuffixOf buf then ⟨.ok buf, [], s⟩
  else if buf.length > 16 * 1024 then ⟨.error (.ssh "proxy: response headers too large"), [], s⟩
  else
    match s with
    | [] => ⟨.error (.ssh "proxy: connection closed during CONNECT"), [], []⟩
    | b :: s => readHead (buf ++ [b]) s

/-- The first line of a text, without its end. -/
def firstLine (text : List Char) : List Char :=
  let line := text.takeWhile (· != '\n')
  if line.length < text.length ∧ line.getLast? = some '\r' then line.dropLast else line

def splitWhitespace (s : List Char) : List (List Char) := (s.splitOnP isWhitespace).filter (· ≠ [])

/-- The status in the first line of a head. -/
def readStatus (head : Bytes) : Option ℕ :=
  ((splitWhitespace (firstLine (lossy head)))[1]?).bind (Digits.parseUnsigned 65535)

def httpConnect (proxy : ProxyConfig) (host : Bytes) (port : UInt16) : Talk PUnit := do
  send (httpRequest proxy host port)
  let head ← readHead []
  match readStatus head with
  | none => fail (.ssh "proxy: malformed CONNECT response")
  | some status =>
    if 200 ≤ status ∧ status < 300 then ret ⟨⟩
    else fail (.ssh s!"proxy: CONNECT failed with HTTP {status}")

/-! ### SOCKS4 -/

def socks4Request (host user : Bytes) (port : UInt16) : Bytes :=
  [4, 1] ++ Word.bytes false port
    ++ match parseIpv4Addr host with
      | some ip => ip.octets ++ user ++ [0]
      -- this address tells the proxy to resolve the name that follows
      | none => [0, 0, 0, 1] ++ user ++ [0] ++ host ++ [0]

/-- Read the reply to a request. -/
def socks4Reply : Talk PUnit := do
  let resp ← readExact .io 8
  if resp.getD 0 0 ≠ 0 then fail (.ssh s!"socks4: bad reply version {(resp.getD 0 0).toNat}")
  else
    match resp.getD 1 0 with
    | 0x5a => ret ⟨⟩
    | 0x5b => fail (.ssh "socks4: request rejected or failed")
    | 0x5c => fail (.ssh "socks4: rejected — proxy cannot reach identd on the client")
    | 0x5d => fail (.ssh "socks4: rejected — user id does not match identd")
    | c => fail (.ssh ("socks4: unexpected reply 0x" ++ String.ofList (Nat.toDigits 16 c.toNat)))

def socks4Connect (proxy : ProxyConfig) (host : Bytes) (port : UInt16) : Talk PUnit :=
  let user := proxy.username.getD []
  if 0 ∈ user then fail (.ssh "socks4: user id contains NUL")
  else if parseIpv4Addr host = none ∧ 0 ∈ host then fail (.ssh "socks4: hostname contains NUL")
  else do
    send (socks4Request host user port)
    socks4Reply

/-! ### SOCKS5 -/

def socks5Greeting (proxy : ProxyConfig) : Bytes :=
  if proxy.username.isSome then [5, 2, 0, 2] else [5, 1, 0]

/-- The name and the password, each after its length. -/
def socks5Credentials (user pw : Bytes) : Bytes :=
  [1, .ofNat user.length] ++ user ++ [.ofNat pw.length] ++ pw

/-- Give the name and the password. -/
def socks5Login (proxy : ProxyConfig) : Talk PUnit :=
  let user := proxy.username.getD []
  let pw := proxy.password.getD []
  if user.length > 255 ∨ pw.length > 255 then fail (.ssh "socks5: credentials too long")
  else do
    send (socks5Credentials user pw)
    let r ← readExact .io 2
    if r.getD 1 0 ≠ 0 then fail (.ssh "socks5: authentication rejected") else ret ⟨⟩

/-- Authenticate in the way that the proxy chose. -/
def socks5Authenticate (proxy : ProxyConfig) (method : UInt8) : Talk PUnit :=
  match method with
  | 0 => ret ⟨⟩
  | 2 => socks5Login proxy
  | 0xff => fail (.ssh "socks5: no acceptable auth method")
  | m => fail (.ssh s!"socks5: unexpected auth method {m.toNat}")

/-- Where to connect to, after the kind of address; a name is resolved by the proxy. -/
def socks5Address (host : Bytes) : Option Bytes :=
  match parseIpAddr host with
  | some (.v4 v4) => some (1 :: v4.octets)
  | some (.v6 v6) => some (4 :: v6.octets)
  | none => if host.length > 255 then none else some ([3, .ofNat host.length] ++ host)

def socks5Reason (code : UInt8) : String :=
  match code with
  | 1 => "general failure"
  | 2 => "connection not allowed"
  | 3 => "network unreachable"
  | 4 => "host unreachable"
  | 5 => "connection refused"
  | 6 => "TTL expired"
  | 7 => "command not supported"
  | 8 => "address type not supported"
  | _ => "unknown error"

/-- The length of an address of a kind; that of a name is in the stream. -/
def socks5AddrLen (kind : UInt8) : Talk ℕ :=
  match kind with
  | 1 => ret 4
  | 4 => ret 16
  | 3 => do
    let l ← readExact .io 1
    ret (l.getD 0 0).toNat
  | t => fail (.ssh s!"socks5: bad bound address type {t.toNat}")

/-- Read the reply to a request, with the address that the proxy bound. -/
def socks5Reply : Talk PUnit := do
  let head ← readExact .io 4
  if head.getD 1 0 ≠ 0 then fail (.ssh ("socks5: " ++ socks5Reason (head.getD 1 0)))
  else do
    let addrLen ← socks5AddrLen (head.getD 3 0)
    let _ ← readExact .io (addrLen + 2)
    ret ⟨⟩

/-- Ask for a connection. -/
def socks5Request (host : Bytes) (port : UInt16) : Talk PUnit :=
  match socks5Address host with
  | none => fail (.ssh "socks5: hostname too long")
  | some address => do
    send ([5, 1, 0] ++ address ++ Word.bytes false port)
    socks5Reply

def socks5Connect (proxy : ProxyConfig) (host : Bytes) (port : UInt16) : Talk PUnit := do
  send (socks5Greeting proxy)
  let resp ← readExact .io 2
  if resp.getD 0 0 ≠ 5 then fail (.ssh "socks5: bad version")
  else do
    socks5Authenticate proxy (resp.getD 1 0)
    socks5Request host port

/-- Ask a proxy for a connection, once it is connected to. -/
def connect (proxy : ProxyConfig) (host : Bytes) (port : UInt16) : Talk PUnit :=
  match proxy.kind with
  | .http => httpConnect proxy host port
  | .socks4 => socks4Connect proxy host port
  | .socks5 => socks5Connect proxy host port

end Termoso.Core.Proxy
