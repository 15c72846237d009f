import Mathlib.Data.List.GetD
import Termoso.Lib.Duplex
import Termoso.Lib.Result
import Termoso.Lib.Utf8
import Termoso.Lib.Word
import Termoso.Crypto

/-!
# Forwarding of X11 connections

Programs on the remote side present a cookie that was made for them when they open a connection.
Before the local display is contacted the first packet is read and checked, and the fake cookie in
it is replaced with the real one; what follows is relayed as it is.

The packet is read twice, once to count its bytes as its header announces them and once to cut them
out.  `IsSetup` states apart from both how the protocol lays it out.
-/

namespace Termoso.Core.X11

open Duplex Utf8

/-- Authorization protocol offered to the server. -/
def AUTH_PROTOCOL : Bytes := ascii "MIT-MAGIC-COOKIE-1"

/-- Largest connection-setup packet that is accepted. -/
def MAX_SETUP : ℕ := 12 + 4 * 1024

inductive X11Error
  | ssh (message : String)
  /-- The stream ended. -/
  | closed
  /-- The local display did not answer. -/
  | unreachable
deriving DecidableEq

/-- What the local display sees of a channel. -/
inductive Act
  | contact
  | byte (b : UInt8)
deriving DecidableEq

/-! ### Numbers -/

/-- The number that two bytes hold. -/
def u16At (littleEndian : Bool) (p : Bytes) (i : ℕ) : UInt16 :=
  Word.read littleEndian (p.getD i 0) (p.getD (i + 1) 0)

/-- The two bytes of a number. -/
def bytesOf (littleEndian : Bool) (v : UInt16) : Bytes := Word.bytes littleEndian v

/-- How many bytes follow `n` bytes so that the next field begins at a multiple of four. -/
def pad4 (n : ℕ) : ℕ := (4 - n % 4) % 4

@[simp]
theorem length_bytesOf (littleEndian : Bool) (v : UInt16) :
  (bytesOf littleEndian v).length = 2
  := Word.length_bytes littleEndian v

/-- The number after `p`. -/
theorem u16At_append (littleEndian : Bool) (a b : UInt8) (p rest : Bytes) :
  u16At littleEndian (p ++ a :: b :: rest) p.length = Word.read littleEndian a b
  := by
  have ha : (p ++ a :: b :: rest).getD p.length 0 = a := by
    rw [List.getD_append_right _ _ _ _ (Nat.le_refl _), Nat.sub_self, List.getD_cons_zero]
  have hb : (p ++ a :: b :: rest).getD (p.length + 1) 0 = b := by
    rw [List.getD_append_right _ _ _ _ (Nat.le_add_right _ 1), Nat.add_sub_cancel_left,
      List.getD_cons_succ, List.getD_cons_zero]
  rw [u16At, ha, hb]

/-- A number that is written is read back. -/
theorem u16At_bytesOf (littleEndian : Bool) (v : UInt16) (p rest : Bytes) :
  u16At littleEndian (p ++ (bytesOf littleEndian v ++ rest)) p.length = v
  := by
  obtain ⟨a, b, hbytes, hread⟩ := Word.exists_bytes littleEndian v
  rw [bytesOf, hbytes]
  exact (u16At_append littleEndian a b p rest).trans hread

/-- A number that is read is written back. -/
theorem bytesOf_u16At (littleEndian : Bool) (a b : UInt8) (p rest : Bytes) :
  bytesOf littleEndian (u16At littleEndian (p ++ a :: b :: rest) p.length) = [a, b]
  := by
  rw [u16At_append, bytesOf, Word.bytes_read]

/-! ### Cookies -/

/-- How a local X server is reached. -/
inductive DisplayTarget
  | unix (path : String)
  | tcp (host : String) (port : UInt16)
deriving DecidableEq

/-- A parsed `DISPLAY` value. -/
structure LocalDisplay where
  target : DisplayTarget
  number : UInt32
  screen : UInt32
deriving DecidableEq

def FAMILY_LOCAL : UInt16 := 256

def FAMILY_WILD : UInt16 := 65535

structure XauthEntry where
  family : UInt16
  number : Bytes
  name : Bytes
  data : Bytes

/-- A field of an Xauthority file, its length first, and what follows it. -/
def xauthField (b : Bytes) : Option (Bytes × Bytes) :=
  if b.length < 2 then none
  else
    let n := (u16At false b 0).toNat
    if b.length < 2 + n then none
    else some ((b.drop 2).take n, (b.drop 2).drop n)

/-- A field is cut off what it is read from, and is no longer than its length can say. -/
theorem length_xauthField {b value rest : Bytes} (h : xauthField b = some (value, rest)) :
  value.length < 2 ^ 16 ∧ rest.length < b.length
  := by
  have hn := (u16At false b 0).toNat_lt
  rw [xauthField] at h
  split at h
  · cases h
  · dsimp only at h
    split at h
    · cases h
    · cases h
      simp only [List.length_take, List.length_drop]
      omega

/-- The address of an entry is read over. -/
def xauthEntry (b : Bytes) : Option (XauthEntry × Bytes) :=
  (xauthField (b.drop 2)).bind fun (_, rest) =>
  (xauthField rest).bind fun (number, rest) =>
  (xauthField rest).bind fun (name, rest) =>
  (xauthField rest).map fun (data, rest) => (⟨u16At false b 0, number, name, data⟩, rest)

theorem xauthEntry_eq_some {b rest : Bytes} {e : XauthEntry} (h : xauthEntry b = some (e, rest)) :
  e.data.length < 2 ^ 16 ∧ rest.length < b.length
  := by
  simp only [xauthEntry, Option.bind_eq_some_iff, Option.map_eq_some_iff, Prod.exists] at h
  obtain ⟨addr, rest₁, h₁, number, rest₂, h₂, name, rest₃, h₃, data, rest₄, h₄, heq⟩ := h
  cases heq
  have hdrop : (b.drop 2).length ≤ b.length := by
    rw [List.length_drop]
    exact Nat.sub_le _ _
  have hlt₁ := (length_xauthField h₁).2
  have hlt₂ := (length_xauthField h₂).2
  have hlt₃ := (length_xauthField h₃).2
  have hlt₄ := (length_xauthField h₄).2
  exact ⟨(length_xauthField h₄).1, by omega⟩

/-- The entries of an Xauthority file, up to one that is cut off. -/
def parseXauthority (b : Bytes) : List XauthEntry :=
  if b.length < 2 then []
  else
    match _ : xauthEntry b with
    | none => []
    | some (e, rest) => e :: parseXauthority rest
termination_by b.length
decreasing_by exact (xauthEntry_eq_some ‹_›).2

theorem length_of_mem_parseXauthority {e : XauthEntry} :
  ∀ b : Bytes, e ∈ parseXauthority b → e.data.length < 2 ^ 16
  := by
  intro b
  fun_induction parseXauthority b with
  | case1 b _ => exact fun h => absurd h List.not_mem_nil
  | case2 b _ _ => exact fun h => absurd h List.not_mem_nil
  | case3 b _ e' rest heq ih =>
      intro h
      obtain rfl | h := List.mem_cons.mp h
      · exact (xauthEntry_eq_some heq).1
      · exact ih h

def LocalDisplay.isUnix (display : LocalDisplay) : Bool :=
  match display.target with
  | .unix _ => true
  | .tcp _ _ => false

/-- The first entry for a display whose family fits, or else the first for it. -/
def pickCookie (display : LocalDisplay) : List XauthEntry → Option Bytes → Option Bytes
  | [], fallback => fallback
  | e :: es, fallback =>
    if e.name ≠ AUTH_PROTOCOL then pickCookie display es fallback
    else if e.number ≠ [] ∧ e.number ≠ ascii (toString display.number.toNat) then
      pickCookie display es fallback
    else if (e.family == FAMILY_LOCAL || e.family == FAMILY_WILD) = display.isUnix then some e.data
    else pickCookie display es (fallback.or (some e.data))

/-- What is picked is the cookie of an entry. -/
theorem pickCookie_eq_some {display : LocalDisplay} {es : List XauthEntry} {fallback : Option Bytes}
    {cookie : Bytes} (h : pickCookie display es fallback = some cookie) :
  fallback = some cookie ∨ ∃ e ∈ es, e.data = cookie
  := by
  induction es generalizing fallback with
  | nil => exact .inl h
  | cons e es ih =>
      have hlater : ∀ {fallback'}, pickCookie display es fallback' = some cookie →
          fallback' = some cookie ∨ ∃ e' ∈ e :: es, e'.data = cookie := by
        intro fallback' h'
        obtain hf | ⟨e', he', hdata⟩ := ih h'
        · exact .inl hf
        · exact .inr ⟨e', List.mem_cons_of_mem e he', hdata⟩
      rw [pickCookie] at h
      split at h
      · exact hlater h
      · split at h
        · exact hlater h
        · split at h
          · exact .inr ⟨e, List.mem_cons_self, Option.some.inj h⟩
          · obtain hf | hf := hlater h
            · cases fallback with
              | none => exact .inr ⟨e, List.mem_cons_self, Option.some.inj hf⟩
              | some first => exact .inl hf
            · exact .inr hf

/-- Pick the cookie for a display out of an Xauthority file. -/
def findCookie (xauth : Bytes) (display : LocalDisplay) : Option Bytes :=
  pickCookie display (parseXauthority xauth) none

theorem length_findCookie {xauth cookie : Bytes} {display : LocalDisplay}
    (h : findCookie xauth display = some cookie) :
  cookie.length < 2 ^ 16
  := by
  obtain hnone | ⟨e, he, rfl⟩ := pickCookie_eq_some h
  · cases hnone
  · exact length_of_mem_parseXauthority xauth he

/-- The display to forward to, the cookie handed to the server, and the one the local X server
wants. -/
structure X11Forward where
  display : LocalDisplay
  fake : Vector UInt8 16
  real : Option Bytes

/-- Set up forwarding to a display, with the Xauthority file if there is one. -/
def X11Forward.new (display : LocalDisplay) (xauthority : Option Bytes) (fake : Vector UInt8 16) :
    X11Forward where
  display := display
  fake := fake
  real := xauthority.bind (fun xauth => findCookie xauth display)

theorem X11Forward.length_real {display : LocalDisplay} {xauthority : Option Bytes}
    {fake : Vector UInt8 16} {cookie : Bytes}
    (h : (X11Forward.new display xauthority fake).real = some cookie) :
  cookie.length < 2 ^ 16
  := by
  obtain ⟨xauth, _, hfind⟩ := Option.bind_eq_some_iff.mp h
  exact length_findCookie hfind

/-! ### The first packet -/

/-- The connection-setup request, the first packet a client sends. -/
structure Setup where
  littleEndian : Bool
  major : UInt16
  minor : UInt16
  name : Bytes
  data : Bytes
deriving DecidableEq

/-- The byte order that a packet begins with. -/
def byteOrder (b : UInt8) : Option Bool :=
  if b = 0x6c then some true else if b = 0x42 then some false else none

def Setup.parse (p : Bytes) : Except X11Error Setup :=
  if p.length < 12 then .error (.ssh "malformed X11 connection setup")
  else
    match byteOrder (p.getD 0 0) with
    | none => .error (.ssh "malformed X11 connection setup")
    | some littleEndian =>
      let n := (u16At littleEndian p 6).toNat
      let d := (u16At littleEndian p 8).toNat
      let nameEnd := 12 + n
      let dataStart := nameEnd + pad4 n
      let dataEnd := dataStart + d
      if p.length < dataEnd then .error (.ssh "malformed X11 connection setup")
      else .ok {
        littleEndian := littleEndian
        major := u16At littleEndian p 2
        minor := u16At littleEndian p 4
        name := (p.drop 12).take n
        data := (p.drop dataStart).take d }

/-- The packet with another authorization. -/
def Setup.withAuth (s : Setup) (name data : Bytes) : Bytes :=
  [if s.littleEndian then 0x6c else 0x42, 0]
    ++ bytesOf s.littleEndian s.major ++ bytesOf s.littleEndian s.minor
    ++ bytesOf s.littleEndian (.ofNat name.length) ++ bytesOf s.littleEndian (.ofNat data.length)
    ++ [0, 0] ++ name ++ List.replicate (pad4 name.length) 0
    ++ data ++ List.replicate (pad4 data.length) 0

/-- Read exactly one connection-setup packet. -/
def readSetup : Duplex Act X11Error Bytes := do
  let head ← readExact .closed 12
  match byteOrder (head.getD 0 0) with
  | none => fail (.ssh "malformed X11 connection setup")
  | some littleEndian =>
    let n := (u16At littleEndian head 6).toNat
    let d := (u16At littleEndian head 8).toNat
    let rest := n + pad4 n + d + pad4 d
    if 12 + rest > MAX_SETUP then fail (.ssh "oversized X11 connection setup")
    else do
      let tail ← readExact .closed rest
      return head ++ tail

/-- Replace the fake cookie with the real one, or with no authorization when there is none. -/
def X11Forward.rewriteSetup (fwd : X11Forward) (packet : Bytes) : Except X11Error Bytes := do
  let setup ← Setup.parse packet
  if setup.name ≠ AUTH_PROTOCOL ∨ setup.data ≠ fwd.fake.toList then
    .error (.ssh "X11 connection presented an unknown cookie")
  else
    match fwd.real with
    | some real => .ok (setup.withAuth AUTH_PROTOCOL real)
    | none => .ok (setup.withAuth [] [])

/-- Relay one channel to the local display, which may not answer and takes what it is sent. -/
def X11Forward.bridge (fwd : X11Forward) (connects : Bool) : Duplex Act X11Error PUnit := do
  let packet ← readSetup
  match fwd.rewriteSetup packet with
  | .error e => fail e
  | .ok setup =>
    send [.contact]
    if connects then do
      send (setup.map .byte)
      relay .byte
    else fail .unreachable

/-! ### What a setup packet is -/

/-- The bytes of a packet that mean nothing: three in its head, and what fills up name and data. -/
structure Unused where
  second : UInt8
  eleventh : UInt8
  twelfth : UInt8
  afterName : Bytes
  afterData : Bytes

/-- The first twelve bytes of a packet: its byte order, the versions, the lengths of name and
data. -/
def Setup.head (s : Setup) (u : Unused) : Bytes :=
  (if s.littleEndian then 0x6c else 0x42) :: u.second
    :: (bytesOf s.littleEndian s.major ++ (bytesOf s.littleEndian s.minor
    ++ (bytesOf s.littleEndian (.ofNat s.name.length)
    ++ (bytesOf s.littleEndian (.ofNat s.data.length) ++ [u.eleventh, u.twelfth]))))

/-- What follows the head. -/
def Setup.tail (s : Setup) (u : Unused) : Bytes :=
  s.name ++ (u.afterName ++ (s.data ++ u.afterData))

/-- Bytes that fill a field of length `n` up to a multiple of four. -/
def Fills (n : ℕ) (fill : Bytes) : Prop := fill.length < 4 ∧ (n + fill.length) % 4 = 0

/-- A packet says what a setup does, with these unused bytes. -/
structure LaidOut (s : Setup) (u : Unused) (packet : Bytes) : Prop where
  name : s.name.length < 2 ^ 16
  data : s.data.length < 2 ^ 16
  afterName : Fills s.name.length u.afterName
  afterData : Fills s.data.length u.afterData
  eq : packet = s.head u ++ s.tail u

/-- A well-formed packet, and what it says. -/
def IsSetup (s : Setup) (packet : Bytes) : Prop := ∃ u, LaidOut s u packet

/-- The length that the head of a packet announces: name and data reach to the next multiple of
four each. -/
def announced (packet : Bytes) : ℕ :=
  let littleEndian := packet.getD 0 0 == 0x6c
  let n := (u16At littleEndian packet 6).toNat
  let d := (u16At littleEndian packet 8).toNat
  12 + (n + 3) / 4 * 4 + (d + 3) / 4 * 4

theorem fills_iff {n : ℕ} {fill : Bytes} :
  Fills n fill ↔ fill.length = pad4 n
  := by
  rw [Fills, pad4]
  omega

theorem fills_replicate (n : ℕ) :
  Fills n (List.replicate (pad4 n) 0)
  := by
  rw [fills_iff, List.length_replicate]

section
variable (s : Setup) (u : Unused) (rest : Bytes)

@[simp]
theorem Setup.length_head :
  (s.head u).length = 12
  := by
  simp [Setup.head]

theorem byteOrder_head :
  byteOrder ((s.head u ++ rest).getD 0 0) = some s.littleEndian
  := by
  rw [Setup.head]
  cases s.littleEndian <;> rfl

theorem major_head :
  u16At s.littleEndian (s.head u ++ rest) 2 = s.major
  := by
  have hat := u16At_bytesOf s.littleEndian s.major
    [if s.littleEndian then 0x6c else 0x42, u.second]
  rw [Setup.head]
  simpa using hat _

theorem minor_head :
  u16At s.littleEndian (s.head u ++ rest) 4 = s.minor
  := by
  have hat := u16At_bytesOf s.littleEndian s.minor
    ((if s.littleEndian then 0x6c else 0x42) :: u.second :: bytesOf s.littleEndian s.major)
  rw [Setup.head]
  simpa using hat _

theorem nameLength_head :
  u16At s.littleEndian (s.head u ++ rest) 6 = .ofNat s.name.length
  := by
  have hat := u16At_bytesOf s.littleEndian (.ofNat s.name.length)
    ((if s.littleEndian then 0x6c else 0x42) :: u.second
      :: (bytesOf s.littleEndian s.major ++ bytesOf s.littleEndian s.minor))
  rw [Setup.head]
  simpa using hat _

theorem dataLength_head :
  u16At s.littleEndian (s.head u ++ rest) 8 = .ofNat s.data.length
  := by
  have hat := u16At_bytesOf s.littleEndian (.ofNat s.data.length)
    ((if s.littleEndian then 0x6c else 0x42) :: u.second
      :: (bytesOf s.littleEndian s.major ++ (bytesOf s.littleEndian s.minor
      ++ bytesOf s.littleEndian (.ofNat s.name.length))))
  rw [Setup.head]
  simpa using hat _

end

section
variable {s : Setup} {u : Unused} {packet : Bytes} (h : LaidOut s u packet)
include h

theorem LaidOut.nameLength (rest : Bytes) :
  (u16At s.littleEndian (s.head u ++ rest) 6).toNat = s.name.length
  := by
  rw [nameLength_head, UInt16.toNat_ofNat', Nat.mod_eq_of_lt h.name]

theorem LaidOut.dataLength (rest : Bytes) :
  (u16At s.littleEndian (s.head u ++ rest) 8).toNat = s.data.length
  := by
  rw [dataLength_head, UInt16.toNat_ofNat', Nat.mod_eq_of_lt h.data]

theorem LaidOut.length_tail :
  (s.tail u).length
    = s.name.length + pad4 s.name.length + s.data.length + pad4 s.data.length
  := by
  rw [Setup.tail, List.length_append, List.length_append, List.length_append,
    fills_iff.mp h.afterName, fills_iff.mp h.afterData]
  omega

theorem LaidOut.length_eq :
  packet.length
    = 12 + (s.name.length + pad4 s.name.length + s.data.length + pad4 s.data.length)
  := by
  rw [h.eq, List.length_append, Setup.length_head, h.length_tail]

/-- What a packet says is cut out of it. -/
theorem LaidOut.parse :
  Setup.parse packet = .ok s
  := by
  have hlen := h.length_eq
  rw [Setup.parse, if_neg (by omega)]
  rw [h.eq] at hlen ⊢
  rw [byteOrder_head]
  dsimp only
  rw [h.nameLength, h.dataLength, if_neg (by omega), major_head, minor_head]
  have hname : ((s.head u ++ s.tail u).drop 12).take s.name.length = s.name := by
    rw [← s.length_head u, List.drop_left, Setup.tail, List.take_left]
  have hdata : ((s.head u ++ s.tail u).drop (12 + s.name.length + pad4 s.name.length)).take
      s.data.length = s.data := by
    rw [← fills_iff.mp h.afterName, ← s.length_head u, Nat.add_assoc, ← List.drop_drop,
      List.drop_left, Setup.tail, ← List.drop_drop, List.drop_left, List.drop_left, List.take_left]
  rw [hname, hdata]

/-- A packet has the length it announces. -/
theorem LaidOut.announced :
  packet.length = announced packet
  := by
  have horder : ((s.head u ++ s.tail u).getD 0 0 == 0x6c) = s.littleEndian := by
    rw [Setup.head]
    cases s.littleEndian <;> rfl
  rw [h.length_eq, X11.announced, h.eq]
  rw [horder, h.nameLength, h.dataLength, pad4, pad4]
  omega

/-- A packet within the limit is read, and nothing of what follows. -/
theorem LaidOut.readSetup (hmax : packet.length ≤ MAX_SETUP) (rest : Bytes) :
  readSetup (packet ++ rest) = ⟨.ok packet, [], rest⟩
  := by
  have hlen := h.length_eq
  have hhead : (readExact .closed 12 : Duplex Act X11Error Bytes) (packet ++ rest)
      = ⟨.ok (s.head u), [], s.tail u ++ rest⟩ := by
    rw [h.eq, List.append_assoc, ← s.length_head u]
    exact readExact_append _ _ _
  have htail : (readExact .closed (s.name.length + pad4 s.name.length + s.data.length
      + pad4 s.data.length) : Duplex Act X11Error Bytes) (s.tail u ++ rest)
      = ⟨.ok (s.tail u), [], rest⟩ := by
    rw [← h.length_tail]
    exact readExact_append _ _ _
  have horder := byteOrder_head s u []
  have hname := h.nameLength []
  have hdata := h.dataLength []
  rw [List.append_nil] at horder hname hdata
  rw [X11.readSetup, andThen_eq hhead, horder]
  dsimp only
  rw [hname, hdata, if_neg (by omega), andThen_eq htail, h.eq]
  rfl

end

/-! ### What the code makes of a stream -/

theorem exists_of_length_head {head : Bytes} (h : head.length = 12) :
  ∃ b₀ b₁ b₂ b₃ b₄ b₅ b₆ b₇ b₈ b₉ b₁₀ b₁₁,
    head = [b₀, b₁, b₂, b₃, b₄, b₅, b₆, b₇, b₈, b₉, b₁₀, b₁₁]
  := by
  match head, h with
  | [b₀, b₁, b₂, b₃, b₄, b₅, b₆, b₇, b₈, b₉, b₁₀, b₁₁], _ =>
      exact ⟨b₀, b₁, b₂, b₃, b₄, b₅, b₆, b₇, b₈, b₉, b₁₀, b₁₁, rfl⟩

theorem byteOrder_eq_some {b : UInt8} {littleEndian : Bool} (h : byteOrder b = some littleEndian) :
  b = if littleEndian then 0x6c else 0x42
  := by
  rw [byteOrder] at h
  split at h
  · cases h
    assumption
  · split at h
    · cases h
      assumption
    · cases h

/-- Twelve bytes that begin with a byte order are the head of a packet, and as many bytes after
them as they announce are the rest of it. -/
theorem exists_laidOut {head tail : Bytes} {littleEndian : Bool} (hlen : head.length = 12)
    (horder : byteOrder (head.getD 0 0) = some littleEndian)
    (htail : tail.length = (u16At littleEndian head 6).toNat
      + pad4 (u16At littleEndian head 6).toNat + (u16At littleEndian head 8).toNat
      + pad4 (u16At littleEndian head 8).toNat) :
  ∃ s, IsSetup s (head ++ tail)
  := by
  obtain ⟨b₀, b₁, b₂, b₃, b₄, b₅, b₆, b₇, b₈, b₉, b₁₀, b₁₁, rfl⟩ := exists_of_length_head hlen
  have hmajor := bytesOf_u16At littleEndian b₂ b₃ [b₀, b₁]
    [b₄, b₅, b₆, b₇, b₈, b₉, b₁₀, b₁₁]
  have hminor := bytesOf_u16At littleEndian b₄ b₅ [b₀, b₁, b₂, b₃]
    [b₆, b₇, b₈, b₉, b₁₀, b₁₁]
  have hname := bytesOf_u16At littleEndian b₆ b₇ [b₀, b₁, b₂, b₃, b₄, b₅]
    [b₈, b₉, b₁₀, b₁₁]
  have hdata := bytesOf_u16At littleEndian b₈ b₉ [b₀, b₁, b₂, b₃, b₄, b₅, b₆, b₇] [b₁₀, b₁₁]
  have hfirst := byteOrder_eq_some horder
  simp only [List.cons_append, List.nil_append, List.length_cons, List.length_nil, Nat.reduceAdd,
    List.getD_cons_zero] at hmajor hminor hname hdata hfirst
  generalize hn : u16At littleEndian [b₀, b₁, b₂, b₃, b₄, b₅, b₆, b₇, b₈, b₉, b₁₀, b₁₁] 6 = n
    at htail hname
  generalize hd : u16At littleEndian [b₀, b₁, b₂, b₃, b₄, b₅, b₆, b₇, b₈, b₉, b₁₀, b₁₁] 8 = d
    at htail hdata
  have hnlt := n.toNat_lt
  have hdlt := d.toNat_lt
  have hnameLen : (tail.take n.toNat).length = n.toNat := List.length_take_of_le (by omega)
  have hdataLen : ((tail.drop (n.toNat + pad4 n.toNat)).take d.toNat).length = d.toNat := by
    apply List.length_take_of_le
    rw [List.length_drop]
    omega
  use {
    littleEndian := littleEndian
    major := u16At littleEndian [b₀, b₁, b₂, b₃, b₄, b₅, b₆, b₇, b₈, b₉, b₁₀, b₁₁] 2
    minor := u16At littleEndian [b₀, b₁, b₂, b₃, b₄, b₅, b₆, b₇, b₈, b₉, b₁₀, b₁₁] 4
    name := tail.take n.toNat
    data := (tail.drop (n.toNat + pad4 n.toNat)).take d.toNat }
  use {
    second := b₁
    eleventh := b₁₀
    twelfth := b₁₁
    afterName := (tail.drop n.toNat).take (pad4 n.toNat)
    afterData := tail.drop (n.toNat + pad4 n.toNat + d.toNat) }
  constructor
  · dsimp only
    omega
  · dsimp only
    omega
  · rw [fills_iff, hnameLen]
    apply List.length_take_of_le
    rw [List.length_drop]
    omega
  · rw [fills_iff, hdataLen]
    dsimp only
    rw [List.length_drop]
    omega
  · have hcut := List.take_append_drop n.toNat tail
    have hcutName := List.take_append_drop (pad4 n.toNat) (tail.drop n.toNat)
    have hcutData := List.take_append_drop d.toNat (tail.drop (n.toNat + pad4 n.toNat))
    rw [List.drop_drop] at hcutName hcutData
    rw [Setup.head, Setup.tail]
    dsimp only
    rw [hnameLen, hdataLen, UInt16.ofNat_toNat, UInt16.ofNat_toNat, hmajor, hminor, hname, hdata,
      ← hfirst, hcutData, hcutName, hcut]
    rfl

/-- What is read is a packet within the limit, and nothing after it is lost. -/
theorem readSetup_eq_ok {stream packet : Bytes} (h : (readSetup stream).result = .ok packet) :
  stream = packet ++ (readSetup stream).unread ∧ packet.length ≤ MAX_SETUP
    ∧ ∃ s, IsSetup s packet
  := by
  obtain ⟨head, hhead, hrest⟩ := andThen_eq_ok h
  obtain ⟨hlen, hstream⟩ := readExact_eq_ok hhead
  rw [readSetup, andThen_ok hhead]
  generalize ((readExact .closed 12 : Duplex Act X11Error Bytes) stream).unread = after
    at hrest hstream ⊢
  cases horder : byteOrder (head.getD 0 0) with
  | none =>
      rw [horder] at hrest
      cases hrest
  | some littleEndian =>
      rw [horder] at hrest
      dsimp only at hrest ⊢
      split at hrest
      · cases hrest
      · rename_i hmax
        rw [if_neg hmax]
        obtain ⟨tail, htail, hpacket⟩ := andThen_eq_ok hrest
        obtain ⟨hlenTail, hafter⟩ := readExact_eq_ok htail
        rw [andThen_ok htail]
        cases hpacket
        refine ⟨?_, ?_, exists_laidOut hlen horder hlenTail⟩
        · rw [List.append_assoc]
          exact hstream.trans (congrArg (head ++ ·) hafter)
        · rw [List.length_append, hlen, hlenTail]
          exact Nat.le_of_not_gt hmax

/-- A setup with another authorization is written as the protocol lays it out. -/
theorem isSetup_withAuth (s : Setup) {name data : Bytes} (hname : name.length < 2 ^ 16)
    (hdata : data.length < 2 ^ 16) :
  IsSetup { s with name := name, data := data } (s.withAuth name data)
  := by
  use {
    second := 0
    eleventh := 0
    twelfth := 0
    afterName := List.replicate (pad4 name.length) 0
    afterData := List.replicate (pad4 data.length) 0 }
  constructor
  · exact hname
  · exact hdata
  · exact fills_replicate name.length
  · exact fills_replicate data.length
  · simp [Setup.withAuth, Setup.head, Setup.tail]

theorem length_AUTH_PROTOCOL :
  AUTH_PROTOCOL.length < 2 ^ 16
  := by
  decide

/-- A setup with the real cookie in place of its own, or with no authorization. -/
def Setup.withReal (s : Setup) : Option Bytes → Setup
  | some real => { s with name := AUTH_PROTOCOL, data := real }
  | none => { s with name := [], data := [] }

/-- A setup presents the fake cookie. -/
def Setup.Presents (s : Setup) (fake : Vector UInt8 16) : Prop :=
  s.name = AUTH_PROTOCOL ∧ s.data = fake.toList

section
variable {fwd : X11Forward} {s : Setup} {packet : Bytes}

/-- A packet that presents another cookie is turned down. -/
theorem rewriteSetup_eq_ok {packet' : Bytes} (h : fwd.rewriteSetup packet = .ok packet') :
  ∃ s, Setup.parse packet = .ok s ∧ s.Presents fwd.fake
  := by
  obtain ⟨s, hparse, h⟩ := bind_eq_ok.mp h
  split at h
  · cases h
  · rename_i hcookie
    exact ⟨s, hparse, not_ne_iff.mp (fun hn => hcookie (.inl hn)),
      not_ne_iff.mp (fun hd => hcookie (.inr hd))⟩

/-- A packet that presents the fake cookie is rewritten to one that presents the real one. -/
theorem rewriteSetup_of_presents (hreal : ∀ real, fwd.real = some real → real.length < 2 ^ 16)
    (hpacket : IsSetup s packet) (hs : s.Presents fwd.fake) :
  ∃ packet', fwd.rewriteSetup packet = .ok packet' ∧ IsSetup (s.withReal fwd.real) packet'
  := by
  obtain ⟨u, hlaid⟩ := hpacket
  obtain ⟨hname, hdata⟩ := hs
  have hcookie : ¬ (s.name ≠ AUTH_PROTOCOL ∨ s.data ≠ fwd.fake.toList) := by
    rw [not_or]
    exact ⟨not_not_intro hname, not_not_intro hdata⟩
  rw [X11Forward.rewriteSetup, hlaid.parse]
  change ∃ packet', (if s.name ≠ AUTH_PROTOCOL ∨ s.data ≠ fwd.fake.toList then _ else _) = _ ∧ _
  rw [if_neg hcookie]
  cases h : fwd.real with
  | some real => exact ⟨_, rfl, isSetup_withAuth s length_AUTH_PROTOCOL (hreal real h)⟩
  | none => exact ⟨_, rfl, isSetup_withAuth s (Nat.two_pow_pos 16) (Nat.two_pow_pos 16)⟩

/-- A packet that presents the fake cookie is far below the limit. -/
theorem length_of_presents (hpacket : IsSetup s packet) (hs : s.Presents fwd.fake) :
  packet.length ≤ MAX_SETUP
  := by
  obtain ⟨u, hlaid⟩ := hpacket
  obtain ⟨hname, hdata⟩ := hs
  have hlen : AUTH_PROTOCOL.length = 18 := rfl
  rw [hlaid.length_eq, hname, hdata, hlen, Vector.length_toList]
  decide

end

/-- Nothing is sent while the packet is read. -/
theorem silent_readSetup :
  Silent readSetup
  := by
  apply silent_andThen (silent_readExact _ _)
  intro head
  split
  · exact silent_fail _
  · dsimp only
    split
    · exact silent_fail _
    · exact silent_andThen (silent_readExact _ _) (fun _ => silent_ret _)

/-- The local display sees something only when the stream starts with a packet that presents the
fake cookie. -/
theorem presents_of_sent {fwd : X11Forward} {connects : Bool} {stream : Bytes} {a : Act}
    (h : a ∈ (fwd.bridge connects stream).sent) :
  ∃ s packet rest, stream = packet ++ rest ∧ IsSetup s packet ∧ s.Presents fwd.fake
  := by
  rw [X11Forward.bridge] at h
  cases hread : (readSetup stream).result with
  | error e =>
      rw [andThen_error hread, silent_readSetup] at h
      cases h
  | ok packet =>
      rw [andThen_ok hread, silent_readSetup, List.nil_append] at h
      cases hrewrite : fwd.rewriteSetup packet with
      | error e =>
          rw [hrewrite] at h
          cases h
      | ok packet' =>
          obtain ⟨hstream, _, s, hs⟩ := readSetup_eq_ok hread
          obtain ⟨s', hparse, hpresents⟩ := rewriteSetup_eq_ok hrewrite
          have heq : s' = s := by
            obtain ⟨u, hlaid⟩ := hs
            exact Except.ok.inj (hparse.symm.trans hlaid.parse)
          exact ⟨s, packet, _, hstream, hs, heq ▸ hpresents⟩

/-- For a packet that presents the fake cookie the display is contacted, and is sent a packet with
the real one and what follows in the stream. -/
theorem sent_of_presents {fwd : X11Forward} {s : Setup} {packet : Bytes}
    (hreal : ∀ real, fwd.real = some real → real.length < 2 ^ 16)
    (hpacket : IsSetup s packet) (hs : s.Presents fwd.fake) (connects : Bool) (rest : Bytes) :
  ∃ packet', IsSetup (s.withReal fwd.real) packet' ∧
    (fwd.bridge connects (packet ++ rest)).sent
      = .contact :: (if connects then (packet' ++ rest).map .byte else [])
  := by
  obtain ⟨packet', hrewrite, hpacket'⟩ := rewriteSetup_of_presents hreal hpacket hs
  have hmax := length_of_presents hpacket hs
  obtain ⟨u, hlaid⟩ := hpacket
  use packet', hpacket'
  rw [X11Forward.bridge, andThen_eq (hlaid.readSetup hmax rest), hrewrite]
  dsimp only
  rw [send_andThen]
  cases connects with
  | true =>
      rw [if_pos rfl, if_pos rfl, send_andThen, List.map_append]
      rfl
  | false => rfl

/-- Forwarding swaps the cookie and nothing else. -/
structure Swaps (fwd : X11Forward) (stream : Bytes) : Prop where
  /-- The display is contacted when the stream starts with a packet that presents the fake
  cookie, and at no other time sees anything. -/
  contact_iff (connects : Bool) : Act.contact ∈ (fwd.bridge connects stream).sent ↔
    ∃ s packet rest, stream = packet ++ rest ∧ IsSetup s packet ∧ s.Presents fwd.fake
  contact_first (connects : Bool) (b : UInt8) : Act.byte b ∈ (fwd.bridge connects stream).sent →
    Act.contact ∈ (fwd.bridge connects stream).sent
  /-- It is sent a packet with the real cookie, and then the rest of the stream. -/
  sent {s : Setup} {packet rest : Bytes} : stream = packet ++ rest → IsSetup s packet →
    s.Presents fwd.fake → ∃ packet', IsSetup (s.withReal fwd.real) packet'
      ∧ Setup.parse packet' = .ok (s.withReal fwd.real)
      ∧ (fwd.bridge true stream).sent = .contact :: (packet' ++ rest).map .byte
  /-- A packet that is read is well formed and has the length it announces, and what follows it
  is still to be read. -/
  read {packet : Bytes} : (readSetup stream).result = .ok packet →
    stream = packet ++ (readSetup stream).unread ∧ packet.length = announced packet
      ∧ ∃ s, IsSetup s packet
  /-- Every well-formed packet up to the limit is read. -/
  reads {s : Setup} {packet rest : Bytes} : stream = packet ++ rest → IsSetup s packet →
    packet.length ≤ MAX_SETUP → readSetup stream = ⟨.ok packet, [], rest⟩

theorem swaps_new (display : LocalDisplay) (xauthority : Option Bytes) (fake : Vector UInt8 16)
    (stream : Bytes) :
  Swaps (X11Forward.new display xauthority fake) stream
  := by
  have hreal : ∀ real, (X11Forward.new display xauthority fake).real = some real →
      real.length < 2 ^ 16 := fun _ => X11Forward.length_real
  have hcontact : ∀ connects, (∃ s packet rest, stream = packet ++ rest ∧ IsSetup s packet
      ∧ s.Presents fake) →
      Act.contact ∈ ((X11Forward.new display xauthority fake).bridge connects stream).sent := by
    rintro connects ⟨s, packet, rest, rfl, hpacket, hs⟩
    obtain ⟨packet', _, hsent⟩ := sent_of_presents hreal hpacket hs connects rest
    rw [hsent]
    exact List.mem_cons_self
  constructor
  case contact_iff => exact fun connects => ⟨presents_of_sent, hcontact connects⟩
  case contact_first => exact fun connects b h => hcontact connects (presents_of_sent h)
  case sent =>
    rintro s packet rest rfl hpacket hs
    obtain ⟨packet', hpacket', hsent⟩ := sent_of_presents hreal hpacket hs true rest
    obtain ⟨u, hlaid⟩ := hpacket'
    exact ⟨packet', ⟨u, hlaid⟩, hlaid.parse, hsent⟩
  case read =>
    intro packet h
    obtain ⟨hstream, _, s, u, hlaid⟩ := readSetup_eq_ok h
    exact ⟨hstream, hlaid.announced, s, u, hlaid⟩
  case reads =>
    rintro s packet rest rfl ⟨u, hlaid⟩ hmax
    exact hlaid.readSetup hmax rest

/-- A client of the other byte order than the network's, with the fake cookie and an unused byte
that is not zero. -/
example :
    Setup.parse ([0x6c, 7, 11, 0, 0, 0, 2, 0, 3, 0, 0, 0] ++ [77, 73, 0, 0] ++ [1, 2, 3, 0])
      = .ok ⟨true, 11, 0, [77, 73], [1, 2, 3]⟩ := by
  rfl

end Termoso.Core.X11
