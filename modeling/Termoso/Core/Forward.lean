import Termoso.Core.ProxyReplies

/-!
# Dynamic port forwarding

A dynamic forward is a SOCKS5 server without authentication, whose connections are opened by the far
end of an SSH session.  The server and a client of the same protocol read what the other writes; each
then leaves to the tunnel what follows.
-/

namespace Termoso.Core.Forward

open Duplex Utf8 Proxy
open IpAddr (Addr ofOctets ofOctets_v4 ofOctets_v6 parse_display)

inductive SocksError
  | invalid (message : String)
  /-- The stream ended. -/
  | io
  /-- The far end opened no channel. -/
  | channel
deriving DecidableEq

/-- A conversation with a client. -/
abbrev Session (α : Type) := Duplex UInt8 SocksError α

/-- A reply that gives no address. -/
def socks5Answer (code : UInt8) : Bytes := [5, code, 0, 1, 0, 0, 0, 0, 0, 0]

/-- Read an address of a number of bytes, as its text. -/
def readAddr (len : ℕ) : Session Text := do
  let a ← readExact .io len
  ret ((ofOctets a).elim [] Addr.display)

/-- Read the host of a request, after the kind of its address. -/
def readHost (kind : UInt8) : Session Text :=
  match kind with
  | 1 => readAddr 4
  | 4 => readAddr 16
  | 3 => do
    let l ← readExact .io 1
    let name ← readExact .io (l.getD 0 0).toNat
    ret (lossy name)
  | _ => do
    send (socks5Answer 8)
    fail (.invalid "socks: bad address type")

/-- Answer a request, by what the far end opens. -/
def answerRequest (opens : Text → UInt16 → Bool) (host : Text) (p : Bytes) :
    Session (Text × UInt16) :=
  let port := Word.read false (p.getD 0 0) (p.getD 1 0)
  if opens host port then do
    send (socks5Answer 0)
    ret (host, port)
  else do
    send (socks5Answer 5)
    fail .channel

/-- Serve a request. -/
def serveRequest (opens : Text → UInt16 → Bool) : Session (Text × UInt16) := do
  let req ← readExact .io 4
  if req.getD 1 0 ≠ 1 then do
    send (socks5Answer 7)
    fail (.invalid "socks: only CONNECT supported")
  else do
    let host ← readHost (req.getD 3 0)
    let p ← readExact .io 2
    answerRequest opens host p

/-- Serve a client, up to the tunnel to the host and the port that it asked for. -/
def socks5Serve (opens : Text → UInt16 → Bool) : Session (Text × UInt16) := do
  let hdr ← readExact .io 2
  if hdr.getD 0 0 ≠ 5 then fail (.invalid "socks: not version 5")
  else do
    let methods ← readExact .io (hdr.getD 1 0).toNat
    if 0 ∉ methods then do
      send [5, 0xff]
      fail (.invalid "socks: client requires auth")
    else do
      send [5, 0]
      serveRequest opens

/-! ### What the server reads -/

/-- A text is the host that was asked for, or writes the same address. -/
def Hears (host text : Text) : Prop :=
  match parseIpAddr (encode host) with
  | some i => IpAddr.parse text = some i
  | none => text = host

section
variable {opens : Text → UInt16 → Bool} {host : Text} {port : UInt16} {proxy : ProxyConfig}

theorem readAddr_octets {octets : Bytes} {len : ℕ} (hlen : octets.length = len) {i : Addr}
    (hread : ofOctets octets = some i) (rest : Bytes) :
  readAddr len (octets ++ rest) = ⟨.ok i.display, [], rest⟩
  := by
  subst hlen
  rw [readAddr, andThen_eq (readExact_append SocksError.io octets rest), hread]
  rfl

/-- The host of a request is heard by the server. -/
theorem readHost_append {address : Bytes} (h : socks5Address (encode host) = some address) :
  ∃ kind octets text, address = kind :: octets ∧ Hears host text
    ∧ ∀ rest, readHost kind (octets ++ rest) = ⟨.ok text, [], rest⟩
  := by
  rw [socks5Address] at h
  split at h
  · rename_i i hhost
    cases h
    refine ⟨1, i.octets, _, rfl, ?_, readAddr_octets i.length_octets (ofOctets_v4 i)⟩
    rw [Hears, hhost]
    apply parse_display
  · rename_i i hhost
    cases h
    refine ⟨4, i.octets, _, rfl, ?_, readAddr_octets i.length_octets (ofOctets_v6 i)⟩
    rw [Hears, hhost]
    apply parse_display
  · rename_i hhost
    split at h
    · cases h
    · rename_i hlen
      cases h
      refine ⟨3, .ofNat (encode host).length :: encode host, host, rfl, ?_, ?_⟩
      · rw [Hears, hhost]
      · intro rest
        have hname : (readExact .io (UInt8.ofNat (encode host).length).toNat : Session Bytes)
            (encode host ++ rest) = ⟨.ok (encode host), [], rest⟩ := by
          rw [toNat_ofNat_length (Nat.le_of_not_gt hlen)]
          apply readExact_append
        have hlength : (readExact .io 1 : Session Bytes)
            (.ofNat (encode host).length :: (encode host ++ rest))
            = ⟨.ok [.ofNat (encode host).length], [], encode host ++ rest⟩ :=
          readExact_append SocksError.io [_] _
        have htext : (ret (lossy (encode host)) : Session Text) rest = ⟨.ok host, [], rest⟩ := by
          rw [lossy_encode]
          rfl
        exact (andThen_eq hlength).trans ((andThen_eq hname).trans htext)

/-- A request is answered by what the far end opens, and what follows it is left. -/
theorem serveRequest_ask (opens : Text → UInt16 → Bool) (port : UInt16) {address : Bytes}
    (h : socks5Address (encode host) = some address) :
  ∃ text, Hears host text ∧ ∀ rest,
    serveRequest opens ([5, 1, 0] ++ address ++ Word.bytes false port ++ rest)
      = if opens text port then ⟨.ok (text, port), socks5Answer 0, rest⟩
        else ⟨.error .channel, socks5Answer 5, rest⟩
  := by
  obtain ⟨kind, octets, text, rfl, hears, hread⟩ := readHost_append h
  obtain ⟨p, q, hport, hword⟩ := Word.exists_bytes false port
  refine ⟨text, hears, fun rest => ?_⟩
  rw [hport]
  have hhead : (readExact .io 4 : Session Bytes) ([5, 1, 0] ++ (kind :: octets) ++ [p, q] ++ rest)
      = ⟨.ok [5, 1, 0, kind], [], octets ++ ([p, q] ++ rest)⟩ := by
    have happend := readExact_append (ω := UInt8) SocksError.io [5, 1, 0, kind]
      (octets ++ ([p, q] ++ rest))
    simpa using happend
  have hasked : (readExact .io 2 : Session Bytes) ([p, q] ++ rest) = ⟨.ok [p, q], [], rest⟩ :=
    readExact_append SocksError.io [p, q] rest
  have hp : Word.read false ([p, q].getD 0 0) ([p, q].getD 1 0) = port := hword
  rw [serveRequest, andThen_eq hhead]
  apply (andThen_eq (hread _)).trans
  apply (andThen_eq hasked).trans
  rw [answerRequest, hp]
  split <;> rfl

/-- The greeting of a client is answered, with or without credentials. -/
theorem socks5Serve_greeting (rest : Bytes) :
  socks5Serve opens (socks5Greeting proxy ++ rest)
    = ⟨(serveRequest opens rest).result, [5, 0] ++ (serveRequest opens rest).sent,
      (serveRequest opens rest).unread⟩
  := by
  rw [socks5Greeting]
  split
  · rfl
  · rfl

/-! ### The two ends of a connection -/

/-- The client greets, whatever it reads. -/
theorem sent_greeting (proxy : ProxyConfig) (host : Bytes) (port : UInt16) (x : Bytes) :
  ∃ rest, (socks5Connect proxy host port x).sent = socks5Greeting proxy ++ rest
  := by
  rw [socks5Connect, send_andThen]
  exact ⟨_, rfl⟩

/-- The client asks right after the method that needs no credentials. -/
theorem socks5Connect_plain (host : Bytes) (x : Bytes) :
  socks5Connect proxy host port (5 :: 0 :: x)
    = ⟨(socks5Request host port x).result,
      socks5Greeting proxy ++ (socks5Request host port x).sent, (socks5Request host port x).unread⟩
  := by
  have hread : (readExact .io 2 : Talk Bytes) (5 :: 0 :: x) = ⟨.ok [5, 0], [], x⟩ :=
    readExact_append ProxyError.io [5, 0] x
  rw [socks5Connect, send_andThen, andThen_eq hread]
  rfl

/-- What a client makes of an answer to its request. -/
theorem socks5Reply_answer (down : Bytes) :
  socks5Reply (socks5Answer 0 ++ down) = ⟨.ok ⟨⟩, [], down⟩
    ∧ (socks5Reply (socks5Answer 5 ++ down)).result = .error (.ssh "socks5: connection refused")
  := by
  constructor
  · have hbound : IsBound [1, 0, 0, 0, 0, 0, 0] :=
      ⟨[1, 0, 0, 0, 0], [0, 0], rfl, rfl, .inl ⟨[0, 0, 0, 0], rfl, rfl⟩⟩
    exact socks5Reply_append hbound down
  · rfl

/-- A client that asks a forward for a host it can name: the far end is asked for that host and that
port; when it opens the channel, each of the two leaves to the tunnel exactly what the other writes
after the protocol, and otherwise both fail. -/
theorem socks5_conversation (hfits : parseIpAddr (encode host) = none → (encode host).length ≤ 255)
    {x y up down : Bytes} (hx : x = (socks5Serve opens y).sent ++ down)
    (hy : y = (socks5Connect proxy (encode host) port x).sent ++ up) :
  ∃ text, Hears host text ∧
    if opens text port then
      (socks5Connect proxy (encode host) port x).result = .ok ⟨⟩
        ∧ (socks5Connect proxy (encode host) port x).unread = down
        ∧ (socks5Serve opens y).result = .ok (text, port) ∧ (socks5Serve opens y).unread = up
    else
      (socks5Connect proxy (encode host) port x).result = .error (.ssh "socks5: connection refused")
        ∧ (socks5Serve opens y).result = .error .channel
  := by
  obtain ⟨address, haddress⟩ : ∃ address, socks5Address (encode host) = some address := by
    apply Option.ne_none_iff_exists'.mp
    intro hnone
    obtain ⟨hname, hlong⟩ := socks5Address_eq_none.mp hnone
    exact absurd (hfits hname) (Nat.not_le.mpr hlong)
  obtain ⟨text, hears, hserve⟩ := serveRequest_ask opens port haddress
  refine ⟨text, hears, ?_⟩
  -- the server chooses its method on the greeting alone, so the client asks
  obtain ⟨rest, hgreets⟩ := sent_greeting proxy (encode host) port x
  obtain ⟨x', rfl⟩ : ∃ x', x = 5 :: 0 :: x' := by
    rw [hgreets, List.append_assoc] at hy
    rw [hy, socks5Serve_greeting] at hx
    exact ⟨_, hx⟩
  have hask : socks5Ask (encode host) port = [5, 1, 0] ++ address ++ Word.bytes false port := by
    rw [socks5Ask, haddress]
  rw [socks5Connect_plain] at hy
  rw [socks5Connect_plain]
  dsimp only at hy ⊢
  rw [sent_socks5Request, hask, List.append_assoc] at hy
  rw [hy, socks5Serve_greeting, hserve] at hx ⊢
  have hrequest : (socks5Request (encode host) port x').result = (socks5Reply x').result
      ∧ (socks5Request (encode host) port x').unread = (socks5Reply x').unread := by
    rw [socks5Request, haddress]
    exact ⟨rfl, rfl⟩
  obtain ⟨hopened, hrefused⟩ := socks5Reply_answer down
  split
  · rename_i hopens
    rw [if_pos hopens] at hx
    obtain rfl : x' = socks5Answer 0 ++ down := (List.cons.inj (List.cons.inj hx).2).2
    rw [hrequest.1, hrequest.2, hopened]
    exact ⟨rfl, rfl, rfl, rfl⟩
  · rename_i hopens
    rw [if_neg hopens] at hx
    obtain rfl : x' = socks5Answer 5 ++ down := (List.cons.inj (List.cons.inj hx).2).2
    rw [hrequest.1]
    exact ⟨hrefused, rfl⟩

end

/-! ### A host that is named -/

/-- A client without credentials. -/
def plainProxy : ProxyConfig := ⟨.socks5, none, none⟩

def askedHost : Text := ['h']

/-- What the two write, with a byte of the tunnel behind it. -/
def clientStream : Bytes := socks5Greeting plainProxy ++ socks5Ask (encode askedHost) 80 ++ [1]

def serverStream : Bytes := [5, 0] ++ socks5Answer 0 ++ [2]

theorem clientStream_eq :
  clientStream = (socks5Connect plainProxy (encode askedHost) 80 serverStream).sent ++ [1]
  := by
  have hstream : serverStream = 5 :: 0 :: (socks5Answer 0 ++ [2]) := rfl
  rw [hstream, socks5Connect_plain]
  dsimp only
  rw [sent_socks5Request, clientStream]

theorem serverStream_eq :
  serverStream = (socks5Serve (fun _ _ => true) clientStream).sent ++ [2]
  := by
  have haddress : socks5Address (encode askedHost) = some [3, 1, 104] := by decide
  obtain ⟨text, -, hserve⟩ := serveRequest_ask (fun _ _ => true) 80 haddress
  have hask : socks5Ask (encode askedHost) 80
      = [5, 1, 0] ++ [3, 1, 104] ++ Word.bytes false 80 := by
    rw [socks5Ask, haddress]
  rw [clientStream, List.append_assoc, socks5Serve_greeting, hask, hserve]
  rfl

theorem conversation_named :
  ∃ text, Hears askedHost text ∧
    if true then
      (socks5Connect plainProxy (encode askedHost) 80 serverStream).result = .ok ⟨⟩
        ∧ (socks5Connect plainProxy (encode askedHost) 80 serverStream).unread = [2]
        ∧ (socks5Serve (fun _ _ => true) clientStream).result = .ok (text, 80)
        ∧ (socks5Serve (fun _ _ => true) clientStream).unread = [1]
    else
      (socks5Connect plainProxy (encode askedHost) 80 serverStream).result
          = .error (.ssh "socks5: connection refused")
        ∧ (socks5Serve (fun _ _ => true) clientStream).result = .error .channel
  := @socks5_conversation (fun _ _ => true) askedHost 80 plainProxy (fun _ => by decide)
    serverStream clientStream [1] [2] serverStream_eq clientStream_eq

end Termoso.Core.Forward
