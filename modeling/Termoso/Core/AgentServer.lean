import Termoso.Crypto
import Termoso.Lib.Threads
import Termoso.Lib.Result

/-!
# The SSH agent

The agent serves the keys of the vault to local tools.  A task accepts connections, and each is
served by a task of its own, which shares the list of keys with the server.  A client lists the
keys, or asks for a signature, which a policy lets through or not; any other message is refused.
Dropping the server ends the task that accepts, and leaves those of the connections.

Keys and signatures are a library's, and enter as a parameter.  What happens is recorded in a
trace, which no task reads.
-/

namespace Termoso.Core

def REQUEST_IDENTITIES : UInt8 := 11

def IDENTITIES_ANSWER : UInt8 := 12

def SIGN_REQUEST : UInt8 := 13

def SIGN_RESPONSE : UInt8 := 14

def FAILURE : UInt8 := 5

def FLAG_RSA_SHA2_256 : ℕ := 2

def FLAG_RSA_SHA2_512 : ℕ := 4

def MAX_MESSAGE : ℕ := 256 * 1024

inductive HashAlg
  | sha256
  | sha512
deriving DecidableEq

/-- Private keys: their public halves on the wire, and signing. -/
class PrivateKeys (K : Type) where
  Signature : Type
  toBytes : K → Except String Bytes
  isRsa : K → Bool
  trySignRsa : K → Option HashAlg → Bytes → Except String Signature
  trySign : K → Bytes → Except String Signature
  encodeVec : Signature → Except String Bytes

/-- A key the agent offers. -/
structure ServedKey (K : Type) where
  label : String
  key : K
deriving DecidableEq

/-- Who connected. -/
structure Peer where
  pid : Option ℕ
  process : Option String
deriving DecidableEq

/-! ### Messages -/

/-- A number as four bytes, the first the most significant. -/
def toBeBytes (n : ℕ) : Bytes :=
  [UInt8.ofNat (n / 2 ^ 24), UInt8.ofNat (n / 2 ^ 16), UInt8.ofNat (n / 2 ^ 8), UInt8.ofNat n]

/-- A text on the wire, after its length. -/
def putString (s : Bytes) : Bytes := toBeBytes s.length ++ s

/-- Read a number. -/
def readU32 : Bytes → Except String (ℕ × Bytes)
  | a :: b :: c :: d :: rest =>
    .ok (((a.toNat * 2 ^ 8 + b.toNat) * 2 ^ 8 + c.toNat) * 2 ^ 8 + d.toNat, rest)
  | _ => .error "truncated agent message"

/-- Read a text. -/
def readString (r : Bytes) : Except String (Bytes × Bytes) := do
  let (n, rest) ← readU32 r
  if rest.length < n then throw "truncated agent message"
  pure (rest.take n, rest.drop n)

/-- What a request for a signature asks for. -/
structure SignRequest where
  blob : Bytes
  data : Bytes
  flags : ℕ
deriving DecidableEq

/-- Read a request for a signature. -/
def readSignRequest (body : Bytes) : Except String SignRequest := do
  let (blob, r) ← readString body
  let (data, r) ← readString r
  let (flags, _) ← readU32 r
  pure ⟨blob, data, flags⟩

/-- The hash that the flags of a request ask for. -/
def hashOf (flags : ℕ) : Option HashAlg :=
  if flags &&& FLAG_RSA_SHA2_512 ≠ 0 then some .sha512
  else if flags &&& FLAG_RSA_SHA2_256 ≠ 0 then some .sha256
  else none

section
variable {K : Type} [PrivateKeys K]

open PrivateKeys

/-- A signature on the wire. -/
def sign (key : K) (hash : Option HashAlg) (data : Bytes) : Except String Bytes := do
  let sig ←
    if isRsa key then
      (trySignRsa key hash data).mapError (fun e => "rsa signing failed: " ++ e)
    else (trySign key data).mapError (fun e => "signing failed: " ++ e)
  (encodeVec sig).mapError (fun e => "signature encoding failed: " ++ e)

/-- The keys of a list on the wire. -/
def putKeys : List (ServedKey K) → Except String Bytes
  | [] => .ok []
  | k :: ks => do
    let blob ← toBytes k.key
    let out ← putKeys ks
    pure (putString blob ++ putString (utf8 k.label) ++ out)

/-- The answer to a request for the keys. -/
def identities (keys : List (ServedKey K)) : Except String Bytes := do
  let out ← putKeys keys
  pure (IDENTITIES_ANSWER :: toBeBytes keys.length ++ out)

/-- The answer to a request for a signature. -/
def signature (key : ServedKey K) (r : SignRequest) : Except String Bytes := do
  let sig ← sign key.key (hashOf r.flags) r.data
  pure (SIGN_RESPONSE :: putString sig)

/-- Whether a key has a public half. -/
def ServedKey.hasBlob (k : ServedKey K) (blob : Bytes) : Bool :=
  match toBytes k.key with
  | .ok b => decide (b = blob)
  | .error _ => false

/-- What is done with a message before the policy is asked. -/
inductive Handled (K : Type)
  | reply (out : Bytes)
  | ask (key : ServedKey K) (r : SignRequest)

/-- Handle a message, up to the question to the policy. -/
def handle (keys : List (ServedKey K)) : Bytes → Except String (Handled K)
  | [] => throw "empty agent message"
  | kind :: body =>
    if kind = REQUEST_IDENTITIES then (identities keys).map .reply
    else if kind = SIGN_REQUEST then do
      let r ← readSignRequest body
      match keys.find? (fun k => k.hasBlob r.blob) with
      | none => throw "sign request for a key we do not hold"
      | some key => pure (.ask key r)
    else throw ("agent message " ++ toString kind.toNat ++ " not supported")

/-- What a client that is not let through gets. -/
def refused (key : ServedKey K) : Except String Bytes :=
  throw ("signing with " ++ key.label ++ " refused")

/-- An error is answered with a failure. -/
def replyOf : Except String Bytes → Bytes
  | .ok reply => reply
  | .error _ => [FAILURE]

end

/-! ### Connections -/

/-- What happens: a message is received, the policy answers, a message is replied to, the keys are
replaced, and the server is dropped.  Messages are numbered. -/
inductive AgentEvent (K : Type)
  | received (n connection : ℕ) (msg : Bytes)
  | answered (n : ℕ) (key : ServedKey K) (peer : Peer) (allowed : Bool)
  | replied (n : ℕ) (reply : Bytes)
  | keysSet (keys : List (ServedKey K))
  | dropped

/-- The server, with what happened. -/
structure Agent (K : Type) where
  keys : List (ServedKey K)
  running : Bool
  connections : ℕ
  requests : ℕ
  trace : List (AgentEvent K)

/-- Where the task of a connection is. -/
inductive Connection (K : Type)
  /-- Not accepted, or at its end. -/
  | closed
  /-- About to read the length of a message. -/
  | header (peer : Peer)
  /-- About to read a message. -/
  | body (peer : Peer) (len : ℕ)
  /-- About to handle a message. -/
  | handling (peer : Peer) (n : ℕ) (msg : Bytes)
  /-- Waiting for the policy. -/
  | asking (peer : Peer) (n : ℕ) (key : ServedKey K) (r : SignRequest)
  /-- About to sign. -/
  | signing (peer : Peer) (n : ℕ) (key : ServedKey K) (r : SignRequest)
  /-- About to write a reply. -/
  | writing (peer : Peer) (reply : Bytes)

/-- A connection is accepted, a length or a message arrives, the policy answers, the task takes its
next step, or the stream or the task fails. -/
inductive ConnectionEvent
  | connect (peer : Peer)
  | header (len : ℕ)
  | body (msg : Bytes)
  | answered (allowed : Bool)
  | next
  | hangUp

/-- Keys are set, or the server is dropped. -/
inductive ServerEvent (K : Type)
  | setKeys (keys : List (ServedKey K))
  | drop

section
variable {K : Type} [PrivateKeys K]

/-- Record an event. -/
def Agent.log (s : Agent K) (e : AgentEvent K) : Agent K := { s with trace := s.trace ++ [e] }

/-- Reply to a message. -/
def Agent.reply (s : Agent K) (peer : Peer) (n : ℕ) (out : Except String Bytes) :
    Agent K × Connection K :=
  (s.log (.replied n (replyOf out)), .writing peer (replyOf out))

/-- A step of the task of a connection. -/
def serveConnection (i : ℕ) (e : ConnectionEvent) (s : Agent K) (t : Connection K) :
    Option (Agent K × Connection K) :=
  match e, t with
  | .connect peer, .closed =>
    if s.running && decide (i = s.connections) then
      some ({ s with connections := s.connections + 1 }, .header peer)
    else none
  | .header len, .header peer =>
    if len = 0 ∨ len > MAX_MESSAGE then some (s, .closed) else some (s, .body peer len)
  | .body msg, .body peer len =>
    if msg.length = len then
      some ({ s with requests := s.requests + 1 }.log (.received s.requests i msg),
        .handling peer s.requests msg)
    else none
  | .next, .handling peer n msg =>
    match handle s.keys msg with
    | .ok (.reply out) => some (s.reply peer n (.ok out))
    | .ok (.ask key r) => some (s, .asking peer n key r)
    | .error e => some (s.reply peer n (.error e))
  | .answered allowed, .asking peer n key r =>
    let s := s.log (.answered n key peer allowed)
    if !allowed then some (s.reply peer n (refused key)) else some (s, .signing peer n key r)
  | .next, .signing peer n key r => some (s.reply peer n (signature key r))
  | .next, .writing peer _ => some (s, .header peer)
  | .hangUp, .closed => none
  | .hangUp, _ => some (s, .closed)
  | _, _ => none

/-- Connections of any number of clients, beside what is done with the server. -/
def agentServer (K : Type) [PrivateKeys K] :
    Threads (Agent K) (Connection K) ConnectionEvent (ServerEvent K) where
  init s := s = ⟨[], true, 0, 0, []⟩
  start t := t = .closed
  exec := serveConnection
  env e s :=
    if s.running then
      match e with
      | .setKeys keys => some ({ s with keys }.log (.keysSet keys))
      | .drop => some ({ s with running := false }.log .dropped)
    else none

end

end Termoso.Core
