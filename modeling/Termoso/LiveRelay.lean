import Termoso.Lib.Table
import Termoso.Lib.Threads
import Termoso.Proto
import Mathlib.Data.List.Sort

/-!
# Shared terminals

The host of a shared terminal sends its output to a relay, which hands it to the viewers, and what
viewers with remote control type to the host.  The relay keeps who takes part, and who may write, in
a hash; what is relayed, and the news that the hash has changed, goes over a bus that every
connection reads at its own pace, and of which a slow connection skips a part.

Any number of viewers join, leave and join again; each connection is a thread.  The host, which holds
one connection, and the relay's side of it are the surroundings.  Sockets keep the order of what is
sent over them.
-/

namespace Termoso.Live

/-- The scrollback the host keeps for those who join late, in bytes. -/
def REPLAY_BYTES : ℕ := 128 * 1024

/-! ### Frames -/

structure TermSize where
  cols : ℕ
  rows : ℕ
deriving DecidableEq

/-- What a sealed frame holds. -/
inductive Payload
  | output (bytes : List UInt8)
  | info (size : Option TermSize) (title : Option String) (typing : Option Uuid)
  | input (data : List UInt8)
  | resize (userId : Uuid) (size : TermSize)
  | typing (userId : Uuid)
deriving DecidableEq

/-- Whether a payload drives the terminal of the host. -/
def Payload.drives : Payload → Bool
  | .input _ | .resize _ _ => true
  | .output _ | .info _ _ _ | .typing _ => false

def Payload.bytes : Payload → List UInt8
  | .output bytes => bytes
  | .info _ _ _ | .input _ | .resize _ _ | .typing _ => []

/-- A sealed frame. Beside it stands, of a frame of a viewer, whether the viewer was without control
when it was sent, and, of a frame of the host, whom the host had seen by then. -/
structure LiveFrame where
  payload : Payload
  revoked : Bool
  seen : List Uuid
deriving DecidableEq

inductive BusKind
  | data (f : LiveFrame)
  | presence
  | control (enabled : Bool)
deriving DecidableEq

/-- A frame on the bus, for one participant or for all viewers. -/
structure BusFrame where
  sender : Uuid
  dest : Option Uuid
  kind : BusKind
deriving DecidableEq

/-- The entry of a participant in the hash, with the connection that wrote it. -/
structure Presence where
  userId : Uuid
  isHost : Bool
  canWrite : Bool
  conn : Uuid
  joinedAt : ℕ
deriving DecidableEq

instance : Keyed Presence Uuid := ⟨Presence.userId⟩

/-- What the host sends to the relay. -/
inductive HostMsg
  | frame (f : LiveFrame)
  | control (userId : Uuid) (enabled : Bool)
  | direct (userId : Uuid) (f : LiveFrame)
deriving DecidableEq

/-- What the relay sends to the host. -/
inductive RelayMsg
  | frame (f : LiveFrame)
  | participants (ps : List Presence)
deriving DecidableEq

/-! ### The host -/

inductive HostCmd
  | output (bytes : List UInt8)
  | resize (size : TermSize)
  | title (title : String)
  | typing
  | control (userId : Uuid) (enabled : Bool)
deriving DecidableEq

/-- What a viewer does to the terminal of the host, and whether it was without control when it sent
it. -/
inductive TermEvent
  | write (data : List UInt8) (revoked : Bool)
  | resize (userId : Uuid) (size : TermSize) (revoked : Bool)
deriving DecidableEq

def TermEvent.revoked : TermEvent → Bool
  | .write _ revoked | .resize _ _ revoked => revoked

structure HostLoop where
  me : Uuid
  size : TermSize
  title : String
  seen : List Uuid
  controllers : List Uuid
  replay : List UInt8
deriving DecidableEq

/-- The last bytes of some, no more than a number. -/
def lastBytes (n : ℕ) (bytes : List UInt8) : List UInt8 :=
  if bytes.length > n then bytes.drop (bytes.length - n) else bytes

namespace HostLoop

variable (h : HostLoop)

def sealFrame (payload : Payload) : LiveFrame := ⟨payload, false, h.seen⟩

def info : LiveFrame := h.sealFrame (.info (some h.size) (some h.title) none)

def typingFrame (userId : Uuid) : LiveFrame := h.sealFrame (.info none none (some userId))

/-- What the host does at a command. -/
def cmd : HostCmd → HostLoop × List HostMsg
  | .output bytes =>
    ({ h with replay := lastBytes REPLAY_BYTES (h.replay ++ bytes) },
      [.frame (h.sealFrame (.output bytes))])
  | .resize size =>
    let h := { h with size }
    (h, [.frame h.info])
  | .title title =>
    let h := { h with title }
    (h, [.frame h.info])
  | .typing => (h, [.frame (h.typingFrame h.me)])
  | .control userId enabled =>
    ({ h with
      controllers := if enabled then userId :: h.controllers
        else h.controllers.filter (fun u => decide (u ≠ userId)) }, [.control userId enabled])

/-- What the host sends to a participant that it has not seen before: its size and title, and the
scrollback. -/
def greet (p : Presence) : HostLoop × List HostMsg :=
  if p.isHost ∨ p.userId ∈ h.seen then (h, [])
  else
    let h := { h with seen := p.userId :: h.seen }
    (h, .direct p.userId h.info
      :: if h.replay = [] then [] else [.direct p.userId (h.sealFrame (.output h.replay))])

def greetAll (h : HostLoop) : List Presence → HostLoop × List HostMsg
  | [] => (h, [])
  | p :: ps =>
    let (h, msgs) := h.greet p
    ((h.greetAll ps).1, msgs ++ (h.greetAll ps).2)

/-- What the host does with a frame of a viewer. -/
def openFrame (f : LiveFrame) : HostLoop × List HostMsg × List TermEvent :=
  match f.payload with
  | .input data => (h, [], [.write data f.revoked])
  | .typing userId => (h, if userId ∈ h.seen then [.frame (h.typingFrame userId)] else [], [])
  | .resize userId size =>
    let size : TermSize := ⟨max size.cols 2, max size.rows 1⟩
    if userId ∈ h.controllers ∧ h.size ≠ size then
      let h := { h with size }
      (h, [.frame h.info], [.resize userId size f.revoked])
    else (h, [], [])
  | .output _ | .info _ _ _ => (h, [], [])

/-- What the host does with a message of the relay. -/
def recv : RelayMsg → HostLoop × List HostMsg × List TermEvent
  | .frame f => h.openFrame f
  | .participants ps => ((h.greetAll ps).1, (h.greetAll ps).2, [])

end HostLoop

/-! ### The relay -/

/-- How far the relay has come with a change of control. -/
inductive SetControl
  | idle
  | get (userId : Uuid) (enabled : Bool)
  | set (p : Presence) (enabled : Bool)
  | announce
deriving DecidableEq

/-- The host, the sockets between it and the relay, the hash, the bus, and the relay's side of the
host's connection. Beside them stand who is without control, what was done to the terminal of the
host, all its output, and how much of it there was when the host first saw each participant. -/
structure Relay where
  hostId : Uuid
  host : HostLoop
  toRelay : List HostMsg
  toHost : List RelayMsg
  presence : Table Presence
  bus : List BusFrame
  hostPos : ℕ
  hostCall : SetControl
  revoked : Uuid → Bool
  terminal : List TermEvent
  produced : List UInt8
  learnedAt : Uuid → ℕ

namespace Relay

variable (r : Relay)

def publish (f : BusFrame) : Relay := { r with bus := r.bus ++ [f] }

def presenceChanged (sender : Uuid) : Relay := r.publish ⟨sender, none, .presence⟩

/-- The participants, the host first, in the order in which they joined. -/
def participants : List Presence :=
  r.presence.rows.insertionSort (fun p q => p.isHost && !q.isHost
    || (decide (p.isHost = q.isHost) && decide (p.joinedAt ≤ q.joinedAt)))

/-- Write an entry of the hash. -/
def hset (p : Presence) : Relay :=
  { r with presence := r.presence.upsert p (fun q => { p with userId := q.userId }) (fun _ => rfl) }

def hdel (userId : Uuid) : Relay := { r with presence := r.presence.erase userId }

/-- A change of control has come to its end. -/
def controlled (userId : Uuid) (enabled : Bool) (call : SetControl) : Relay :=
  { r with
    hostCall := call
    revoked := if enabled then r.revoked else Function.update r.revoked userId true }

/-- The next statement of a change of control. -/
def setControl : Option Relay :=
  match r.hostCall with
  | .idle => none
  | .get userId enabled =>
    match r.presence.get? userId with
    | none => some (r.controlled userId enabled .idle)
    | some p =>
      if p.isHost ∨ p.canWrite = enabled then some (r.controlled userId enabled .idle)
      else some { r with hostCall := .set p enabled }
  | .set p enabled =>
    some ((r.hset { p with canWrite := enabled }).controlled p.userId enabled .announce)
  | .announce => some { r.presenceChanged r.hostId with hostCall := .idle }

/-- The relay reads a message of the host. A change of control begins. -/
def fromHost : HostMsg → Relay
  | .frame f => r.publish ⟨r.hostId, none, .data f⟩
  | .direct userId f => r.publish ⟨r.hostId, some userId, .data f⟩
  | .control userId enabled =>
    { r with
      hostCall := .get userId enabled
      revoked := if enabled then Function.update r.revoked userId false else r.revoked }

/-- What the relay hands to the host of a frame on the bus. -/
def forHost (f : BusFrame) : List RelayMsg :=
  match f.kind with
  | .data lf => if f.dest = some r.hostId ∧ f.sender ≠ r.hostId then [.frame lf] else []
  | .presence => [.participants r.participants]
  | .control _ => []

end Relay

/-- A step of the host, or of the relay's side of its connection. -/
inductive HostStep
  | cmd (c : HostCmd)
  | recv
  | relay
  | control
  | bus
  | lag (n : ℕ)
deriving DecidableEq

/-- The output of a command. -/
def HostCmd.bytes : HostCmd → List UInt8
  | .output bytes => bytes
  | .resize _ | .title _ | .typing | .control _ _ => []

def HostStep.exec (r : Relay) : HostStep → Option Relay
  | .cmd c =>
    some { r with
      host := (r.host.cmd c).1
      toRelay := r.toRelay ++ (r.host.cmd c).2
      produced := r.produced ++ c.bytes }
  | .recv =>
    match r.toHost with
    | [] => none
    | m :: rest =>
      let (host, msgs, events) := r.host.recv m
      some { r with
        host
        toHost := rest
        toRelay := r.toRelay ++ msgs
        terminal := events ++ r.terminal
        learnedAt := fun u =>
          if u ∈ host.seen ∧ u ∉ r.host.seen then r.produced.length else r.learnedAt u }
  | .relay =>
    if r.hostCall = .idle then
      match r.toRelay with
      | [] => none
      | m :: rest => some ({ r with toRelay := rest }.fromHost m)
    else none
  | .control => r.setControl
  | .bus =>
    if r.hostCall = .idle then
      (r.bus[r.hostPos]?).map (fun f =>
        { r with hostPos := r.hostPos + 1, toHost := r.toHost ++ r.forHost f })
    else none
  | .lag n =>
    if r.hostCall = .idle ∧ r.hostPos + n ≤ r.bus.length then some { r with hostPos := r.hostPos + n }
    else none

/-! ### Viewers -/

/-- How far the connection of a viewer has come. -/
inductive Stage
  | idle
  | subscribe
  | announce
  | hello
  | pump
  | leaveGet
  | leaveDel
  | leaveAnnounce
  | gone
deriving DecidableEq

/-- The connection of a viewer: whether it may write, as far as the connection knows, up to where it
has read the bus, whether it has skipped a part, the frames the viewer has sent that were not read,
and what it was handed. -/
structure Viewer where
  stage : Stage
  userId : Uuid
  conn : Uuid
  canWrite : Bool
  pos : ℕ
  lagged : Bool
  socket : List LiveFrame
  received : List Payload
deriving DecidableEq

/-- A connection that nobody uses. -/
def unused : Viewer := ⟨.idle, 0, 0, false, 0, false, [], []⟩

/-- A step of a connection. -/
inductive ViewerStep
  | join (userId conn : Uuid) (joinedAt : ℕ)
  | send (p : Payload)
  /-- Run the next statement; a subscription begins at some frame on the bus. -/
  | next (pos : ℕ)
  | bus
  | socket
  | lag (n : ℕ)
  | close
  | fail
deriving DecidableEq

namespace Viewer

variable (v : Viewer) (r : Relay)

/-- Whether a frame on the bus is for a viewer. -/
def forMe (f : BusFrame) : Bool :=
  match f.dest with
  | some dest => decide (dest = v.userId) && decide (f.sender ≠ v.userId)
  | none => decide (f.sender = r.hostId)

/-- The connection handles a frame on the bus. -/
def handle (f : BusFrame) : Viewer :=
  match f.kind with
  | .data lf => if v.forMe r f then { v with received := v.received ++ [lf.payload] } else v
  | .presence =>
    match r.participants.find? (fun p => decide (p.userId = v.userId)) with
    | none => v
    | some me => { v with canWrite := me.canWrite }
  | .control enabled => if f.dest = some v.userId then { v with canWrite := enabled } else v

/-- The next statement of a connection that joins or leaves. -/
def next (pos : ℕ) : Option (Relay × Viewer) :=
  match v.stage with
  | .subscribe => if pos ≤ r.bus.length then some (r, { v with stage := .announce, pos }) else none
  | .announce => some (r.presenceChanged v.userId, { v with stage := .hello })
  | .hello => some (r, { v with stage := .pump })
  | .leaveGet =>
    if (r.presence.get? v.userId).any (fun p => decide (p.conn = v.conn)) then
      some (r, { v with stage := .leaveDel })
    else some (r, { v with stage := .gone })
  | .leaveDel => some (r.hdel v.userId, { v with stage := .leaveAnnounce })
  | .leaveAnnounce => some (r.presenceChanged v.userId, { v with stage := .gone })
  | .idle | .pump | .gone => none

/-- The relay reads a frame of the viewer. -/
def fromViewer (f : LiveFrame) : Relay :=
  if v.canWrite then r.publish ⟨v.userId, some r.hostId, .data f⟩ else r

def exec (step : ViewerStep) : Option (Relay × Viewer) :=
  match step with
  | .join userId conn joinedAt =>
    if v.stage = .idle ∧ userId ≠ r.hostId then
      some (r.hset ⟨userId, false, false, conn, joinedAt⟩,
        { v with stage := .subscribe, userId, conn, canWrite := false })
    else none
  | .send p =>
    if v.stage = .idle then none
    else some (r, { v with socket := v.socket ++ [⟨p, r.revoked v.userId, []⟩] })
  | .next pos => v.next r pos
  | .bus =>
    if v.stage = .pump then
      (r.bus[v.pos]?).map (fun f => (r, { v.handle r f with pos := v.pos + 1 }))
    else none
  | .socket =>
    if v.stage = .pump then
      match v.socket with
      | [] => none
      | f :: rest => some (v.fromViewer r f, { v with socket := rest })
    else none
  | .lag n =>
    if v.stage = .pump ∧ v.pos + n ≤ r.bus.length then
      some (r, { v with pos := v.pos + n, lagged := v.lagged || decide (0 < n) })
    else none
  | .close => if v.stage = .pump then some (r, { v with stage := .leaveGet }) else none
  | .fail =>
    match v.stage with
    | .idle | .gone => none
    | .pump => some (r, { v with stage := .leaveGet })
    | _ => some (r, { v with stage := .gone })

end Viewer

/-- A shared terminal. At first only the host takes part, and nobody else has control. -/
def shared : Threads Relay Viewer ViewerStep HostStep where
  init r := (∀ p ∈ r.presence.rows, p.userId = r.hostId) ∧ r.host.seen = [] ∧ r.host.replay = []
    ∧ r.toRelay = [] ∧ r.toHost = [] ∧ r.bus = [] ∧ r.hostPos = 0 ∧ r.hostCall = .idle
    ∧ (∀ u, r.revoked u = true) ∧ r.terminal = [] ∧ r.produced = []
  start v := v = unused
  exec _ step r v := v.exec r step
  env step r := step.exec r

end Termoso.Live
