import Termoso.Client.Keychain
import Termoso.Core.RotationLists

/-!
# Trust in host keys

The keys of servers are pinned as entities, in any vault.  A key that a server presents is compared
with the pins of every unlocked vault; a pin is made in one vault, where it replaces those of the
same type.  Pins are read from files in the format of OpenSSH, and written to them.
-/

namespace Termoso.Core

/-! ### Pins -/

/-- Pinned server host key. -/
structure KnownHost where
  hostname : String
  keyType : String
  publicKey : String
  fingerprint : String
deriving DecidableEq

/-- What writes public keys and pins as texts, and reads them. Base64 has no blanks. -/
class HostKeyLibrary where
  PublicKey : Type
  algorithm : PublicKey → String
  fingerprint : PublicKey → String
  keyB64 : PublicKey → String
  publicKeyOfB64 : String → Option PublicKey
  trim_keyB64 : ∀ key, trim (keyB64 key) = keyB64 key
  toJson : KnownHost → String
  fromJson : String → Option KnownHost
  fromJson_toJson : ∀ pin, fromJson (toJson pin) = some pin

section
variable [HostKeyLibrary]

/-- A public key. -/
abbrev PublicKey : Type := HostKeyLibrary.PublicKey

instance : Payload KnownHost where
  toJson := HostKeyLibrary.toJson
  fromJson := HostKeyLibrary.fromJson
  KIND := "known_host"

/-- Displayable facts about a host key. -/
structure HostKeyInfo where
  host : String
  keyType : String
  fingerprint : String
  publicKey : String
deriving DecidableEq

/-- Result of checking a presented key. -/
inductive HostKeyVerdict
  | known
  | unknown (key : HostKeyInfo)
  | changed (old new : HostKeyInfo)
deriving DecidableEq

/-- A text with its ASCII letters in lower case. -/
def toAsciiLowercase (s : String) : String := String.ofList (s.toList.map Char.toLower)

/-- Canonical form of a host and port, without the port when it is 22. -/
def hostId (host : String) (port : UInt16) : String :=
  let h := toAsciiLowercase (trim host)
  if port = 22 then h else "[" ++ h ++ "]:" ++ toString port.toNat

def keyInfo (host : String) (port : UInt16) (key : PublicKey) : HostKeyInfo where
  host := hostId host port
  keyType := HostKeyLibrary.algorithm key
  fingerprint := HostKeyLibrary.fingerprint key
  publicKey := HostKeyLibrary.keyB64 key

/-- The key of a base64 text. -/
def keyFromB64 (s : String) : Option PublicKey := HostKeyLibrary.publicKeyOfB64 (trim s)

/-- The displayable facts about a pin. -/
def KnownHost.info (pin : KnownHost) : HostKeyInfo :=
  ⟨pin.hostname, pin.keyType, pin.fingerprint, pin.publicKey⟩

/-- Compare a presented key with pins. A pin of the same type with another key ends the comparison.
-/
def comparePins (presented : HostKeyInfo) (known : Bool) :
    List (Entity KnownHost) → HostKeyVerdict
  | [] => if known then .known else .unknown presented
  | p :: pins =>
    if p.data.keyType ≠ presented.keyType then comparePins presented known pins
    else if trim p.data.publicKey = presented.publicKey then comparePins presented true pins
    else .changed p.data.info presented

/-- What an insertion draws: a fresh identifier, the time, and a nonce. -/
structure Drawn where
  id : Uuid
  now : DateTime
  nonce : Nonce

namespace Store

variable [Primitives]

/-- Whether a pin is for a host. -/
def pinsHost (host : String) (port : UInt16) (e : Entity KnownHost) : Bool :=
  decide (toAsciiLowercase e.data.hostname = toAsciiLowercase (hostId host port))

/-- All pinned keys across unlocked vaults. -/
def allPins (s : Store) : Except CoreError (List (Entity KnownHost)) := s.list KnownHost none

/-- Pinned entries for a host. -/
def forHost (s : Store) (host : String) (port : UInt16) :
    Except CoreError (List (Entity KnownHost)) :=
  s.allPins.map (fun pins => pins.filter (pinsHost host port))

/-- Compare a presented key with the pins for the host. -/
def check (s : Store) (host : String) (port : UInt16) (key : PublicKey) :
    Except CoreError HostKeyVerdict :=
  (s.forHost host port).map (comparePins (keyInfo host port key) false)

/-- Insert an entity under a fresh identifier. -/
def insertPin (s : Store) (vaultId : Uuid) (pin : KnownHost) (d : Drawn) :
    Except CoreError Store :=
  s.putRaw vaultId (Payload.KIND KnownHost) d.id (Serde.toJson pin) d.now d.nonce

end Store

variable [Primitives] (vaultId : Uuid)

/-- Pin a key into the vault, replacing any pin of the same type that the vault holds. -/
def trust (host : String) (port : UInt16) (key : PublicKey) (d : Drawn) :
    Script Store CoreError Uuid := do
  let i := keyInfo host port key
  let s ← .read
  let pins ← .lift (s.forHost host port)
  Script.each (fun e =>
    if e.vaultId = vaultId ∧ e.data.keyType = i.keyType then
      .attempt (fun s => s.delete e.id d.now)
    else .ret ()) pins
  Script.attempt (fun s =>
    s.insertPin vaultId ⟨i.host, i.keyType, i.publicKey, i.fingerprint⟩ d)
  return d.id

/-- Remove every pin the vault holds for a host. -/
def forget (host : String) (port : UInt16) (now : DateTime) : Script Store CoreError ℕ := do
  let s ← .read
  let all ← .lift (s.forHost host port)
  let pins := all.filter (fun e => decide (e.vaultId = vaultId))
  Script.each (fun e => .attempt (fun s => s.delete e.id now)) pins
  return pins.length

/-! ### OpenSSH files -/

/-- The number a text of digits stands for, with a sign `+` or without, when it fits 16 bits. -/
def parsePort (s : List Char) : Option UInt16 :=
  let digits := if s.head? = some '+' then s.tail else s
  if digits.isEmpty || !digits.all Char.isDigit then none
  else
    let n := digits.foldl (fun n c => n * 10 + (c.toNat - 48)) 0
    if n < 65536 then some (UInt16.ofNat n) else none

/-- The parts of a text before and after the first `]:`. -/
def splitBracket : List Char → Option (List Char × List Char)
  | ']' :: ':' :: rest => some ([], rest)
  | c :: rest => (splitBracket rest).map (fun x => (c :: x.1, x.2))
  | [] => none

/-- A host with its port, in brackets when the port is not 22. -/
def parseHostPort (s : String) : String × UInt16 :=
  match s.toList with
  | '[' :: rest =>
    match splitBracket rest with
    | some (host, port) => (String.ofList host, (parsePort port).getD 22)
    | none => (s, 22)
  | _ => (s, 22)

/-- A host, port and key of a file. -/
abbrev Entry := String × UInt16 × PublicKey

/-- The entries of a line. Comments, markers and hashed hosts have none, and neither have patterns
nor keys that cannot be read or are of another type than the line says. -/
def entriesOfLine (line : String) : List Entry :=
  let line := trim line
  if line = "" || line.toList.head? = some '#' || line.toList.head? = some '@' then []
  else
    match Client.splitWhitespace line with
    | hosts :: algo :: blob :: _ =>
      if "|1|".toList.isPrefixOf hosts.toList then []
      else
        match keyFromB64 blob with
        | none => []
        | some key =>
          if HostKeyLibrary.algorithm key ≠ algo then []
          else
            ((hosts.toList.splitOn ',').map (fun h => parseHostPort (String.ofList h))).filterMap
              (fun x =>
                if x.1.toList.contains '*' || x.1.toList.contains '?' then none
                else some (x.1, x.2, key))
    | _ => []

/-- The entries of a file, in order. -/
def entriesOf (contents : String) : List Entry :=
  (contents.toList.splitOn '\n').flatMap (fun line => entriesOfLine (String.ofList line))

/-- Pin entries that are not known yet. The number of pins added. -/
def importEntries (draw : ℕ → Drawn) : List Entry → Script Store CoreError ℕ
  | [] => return 0
  | (host, port, key) :: rest => do
    let s ← Script.read
    let verdict ← Script.lift (s.check host port key)
    if verdict = .known then importEntries draw rest
    else do
      let _ ← trust vaultId host port key (draw rest.length)
      let n ← importEntries draw rest
      return n + 1

/-- Import the lines of a file. -/
def importOpenssh (contents : String) (draw : ℕ → Drawn) : Script Store CoreError ℕ :=
  importEntries vaultId draw (entriesOf contents)

/-- Export pins as lines of a file. -/
def Store.exportOpenssh (s : Store) : Except CoreError String :=
  s.allPins.map (fun pins => pins.foldl (fun out e =>
    out ++ (e.data.hostname ++ " " ++ e.data.keyType ++ " " ++ e.data.publicKey ++ "\n")) "")

end

end Termoso.Core
