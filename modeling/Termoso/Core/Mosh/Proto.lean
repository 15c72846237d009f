import Termoso.Lib.Wire

/-!
# Messages of the mosh protocol

An instruction takes the other side from one state to the next, and carries a diff.  The diff of the
client is a user message, which lists keystrokes and sizes of the terminal; that of the server is a
host message, which lists bytes for the terminal, sizes, and acknowledged echoes.

Keystrokes that follow each other are written as one.  What a user message is read as is the input
it was written from.
-/

namespace Termoso.Core.Mosh

open Wire (Bytes)

def PROTOCOL_VERSION : ℕ := 2

/-- The state number that means "I am shutting down". -/
def SHUTDOWN_NUM : ℕ := 2 ^ 64 - 1

inductive MoshError
  | version (version : ℕ)
  /-- Fragment header or reassembly inconsistency. -/
  | fragment
  /-- zlib stream did not inflate. -/
  | compression
  | protobuf
  | closed
deriving DecidableEq

/-- One step of the synchronisation. -/
structure Instruction where
  protocolVersion : ℕ
  oldNum : ℕ
  newNum : ℕ
  ackNum : ℕ
  throwawayNum : ℕ
  diff : Bytes
  chaff : Bytes
deriving DecidableEq

/-! ### What the client tells the server -/

inductive UserInstruction
  | keystroke (keys : Bytes)
  | resize (width height : Int32)
deriving DecidableEq

def putUint (field v : ℕ) : Bytes := Wire.encode [.uint field v]

def putBytes (field : ℕ) (v : Bytes) : Bytes := Wire.encode [.bytes field v]

/-- A number of 32 bits as one of 64, without its sign. -/
def encodeI32 (v : Int32) : ℕ := v.toInt64.toUInt64.toNat

/-- Write the keystrokes pending. -/
def flush (pending : Bytes) : Bytes :=
  if pending = [] then [] else putBytes 1 (putBytes 2 (putBytes 4 pending))

/-- Write instructions after keystrokes that are pending. -/
def encodeAfter : Bytes → List UserInstruction → Bytes
  | pending, [] => flush pending
  | pending, .keystroke keys :: l => encodeAfter (pending ++ keys) l
  | pending, .resize width height :: l =>
    flush pending
      ++ putBytes 1 (putBytes 3 (putUint 5 (encodeI32 width) ++ putUint 6 (encodeI32 height)))
      ++ encodeAfter [] l

def encodeUserMessage (instructions : List UserInstruction) : Bytes := encodeAfter [] instructions

/-! ### What a user message is read as -/

/-- What is typed: a byte, or a size of the terminal. -/
inductive Input
  | key (b : UInt8)
  | resize (width height : Int32)
deriving DecidableEq

def UserInstruction.inputs : UserInstruction → List Input
  | .keystroke keys => keys.map Input.key
  | .resize width height => [.resize width height]

/-- The input that instructions stand for. -/
def inputs (instructions : List UserInstruction) : List Input :=
  instructions.flatMap UserInstruction.inputs

/-- What the server reads an instruction as. -/
def readInstruction : Wire.Field → Option (List Input)
  | .bytes 1 b =>
    match Wire.decode b with
    | some [.bytes 2 keystroke] =>
      match Wire.decode keystroke with
      | some [.bytes 4 keys] => some (keys.map Input.key)
      | _ => none
    | some [.bytes 3 resize] =>
      match Wire.decode resize with
      | some [.uint 5 width, .uint 6 height] =>
        some [.resize (UInt64.ofNat width).toInt64.toInt32 (UInt64.ofNat height).toInt64.toInt32]
      | _ => none
    | _ => none
  | _ => none

/-- What the server reads a user message as. -/
def readUserMessage (buf : Bytes) : Option (List Input) :=
  (Wire.decode buf).bind (fun fields => (fields.mapM readInstruction).map List.flatten)

@[simp]
theorem inputs_append (l l' : List UserInstruction) :
  inputs (l ++ l') = inputs l ++ inputs l'
  := List.flatMap_append

theorem decode_putBytes (field : ℕ) (v : Bytes) :
  Wire.decode (putBytes field v) = some [.bytes field v]
  := Wire.decode_encode _

theorem readInstruction_keystroke (keys : Bytes) :
  readInstruction (.bytes 1 (putBytes 2 (putBytes 4 keys))) = some (keys.map Input.key)
  := by
  simp only [readInstruction, decode_putBytes]

theorem readInstruction_resize (width height : Int32) :
  readInstruction (.bytes 1 (putBytes 3
      (putUint 5 (encodeI32 width) ++ putUint 6 (encodeI32 height)))) = some [.resize width height]
  := by
  have hsize : putUint 5 (encodeI32 width) ++ putUint 6 (encodeI32 height)
      = Wire.encode [.uint 5 (encodeI32 width), .uint 6 (encodeI32 height)] := by
    simp [putUint, Wire.encode]
  rw [hsize]
  simp only [readInstruction, decode_putBytes, Wire.decode_encode, encodeI32, UInt64.ofNat_toNat,
    Int64.toInt64_toUInt64, Int32.toInt32_toInt64]

/-- What is written after pending keystrokes is a list of fields, read as these and the input. -/
theorem exists_fields_encodeAfter (pending : Bytes) (l : List UserInstruction) :
  ∃ fields, encodeAfter pending l = Wire.encode fields
    ∧ (fields.mapM readInstruction).map List.flatten = some (pending.map Input.key ++ inputs l)
  := by
  have hflush : ∀ pending, ∃ fields, flush pending = Wire.encode fields
      ∧ (fields.mapM readInstruction).map List.flatten = some (pending.map Input.key) := by
    intro pending
    unfold flush
    split
    · rename_i hnil
      exact ⟨[], rfl, by simp [hnil]⟩
    · exact ⟨[.bytes 1 (putBytes 2 (putBytes 4 pending))], rfl, by
        simp [readInstruction_keystroke]⟩
  induction l generalizing pending with
  | nil =>
      obtain ⟨fields, heq, hread⟩ := hflush pending
      exact ⟨fields, heq, by rw [hread]; simp [inputs]⟩
  | cons i l ih =>
      cases i with
      | keystroke keys =>
          obtain ⟨fields, heq, hread⟩ := ih (pending ++ keys)
          refine ⟨fields, heq, hread.trans ?_⟩
          simp [inputs, UserInstruction.inputs]
      | resize width height =>
          obtain ⟨before, heq, hread⟩ := hflush pending
          obtain ⟨after, heq', hread'⟩ := ih []
          obtain ⟨parts, hparts, hflat⟩ := Option.map_eq_some_iff.mp hread
          obtain ⟨parts', hparts', hflat'⟩ := Option.map_eq_some_iff.mp hread'
          refine ⟨before ++ .bytes 1 (putBytes 3
            (putUint 5 (encodeI32 width) ++ putUint 6 (encodeI32 height))) :: after, ?_, ?_⟩
          · rw [encodeAfter, heq, heq']
            simp [Wire.encode, putBytes]
          · simp only [List.mapM_append, List.mapM_cons, hparts, hparts', readInstruction_resize]
            simp [hflat, hflat', inputs, UserInstruction.inputs]

/-- A user message is read as the input it was written from. -/
theorem readUserMessage_encodeUserMessage (l : List UserInstruction) :
  readUserMessage (encodeUserMessage l) = some (inputs l)
  := by
  obtain ⟨fields, heq, hread⟩ := exists_fields_encodeAfter [] l
  rw [encodeUserMessage, heq, readUserMessage, Wire.decode_encode, Option.bind_some, hread]
  rfl

/-- Instructions without input are written as nothing. -/
theorem encodeAfter_append {l : List UserInstruction} (h : inputs l = []) (pending : Bytes)
    (l' : List UserInstruction) :
  encodeAfter pending (l ++ l') = encodeAfter pending l'
  := by
  induction l generalizing pending with
  | nil => rfl
  | cons i l ih =>
      obtain ⟨hi, hl⟩ := List.append_eq_nil_iff.mp h
      cases i with
      | keystroke keys =>
          have hkeys : keys = [] := List.map_eq_nil_iff.mp hi
          rw [List.cons_append, encodeAfter, hkeys, List.append_nil, ih hl]
      | resize width height => cases hi

/-! ### What the server tells the client -/

inductive HostInstruction
  /-- Terminal bytes to feed the local emulator. -/
  | hostBytes (bytes : Bytes)
  /-- The server's framebuffer now has this size. -/
  | resize (width height : Int32)
  | echoAck (num : UInt64)
deriving DecidableEq

namespace Reader

def VARINT : UInt64 := 0
def FIXED64 : UInt64 := 1
def LEN : UInt64 := 2
def FIXED32 : UInt64 := 5

/-- Read the bytes of a number, of which so many may come. -/
def varintFrom : ℕ → UInt64 → UInt64 → Bytes → Except MoshError (UInt64 × Bytes)
  | 0, _, _, _ | _, _, _, [] => .error .protobuf
  | n + 1, shift, v, b :: buf =>
    let v := v ||| ((b &&& 0x7f).toUInt64 <<< shift)
    if b &&& 0x80 = 0 then .ok (v, buf) else varintFrom n (shift + 7) v buf

def varint (buf : Bytes) : Except MoshError (UInt64 × Bytes) := varintFrom 10 0 0 buf

def advance (n : ℕ) (buf : Bytes) : Except MoshError (Bytes × Bytes) :=
  if n ≤ buf.length then .ok (buf.take n, buf.drop n) else .error .protobuf

def bytes (buf : Bytes) : Except MoshError (Bytes × Bytes) := do
  let (len, buf) ← varint buf
  advance len.toNat buf

/-- Next `(field, wire_type)` pair. -/
def tag (buf : Bytes) : Except MoshError ((UInt64 × UInt64) × Bytes) := do
  let (t, buf) ← varint buf
  if (t >>> 3).toNat < 2 ^ 32 then .ok ((t >>> 3, t &&& 7), buf) else .error .protobuf

def skip (wire : UInt64) (buf : Bytes) : Except MoshError Bytes :=
  if wire = VARINT then (varint buf).map Prod.snd
  else if wire = LEN then (bytes buf).map Prod.snd
  else if wire = FIXED64 then (advance 8 buf).map Prod.snd
  else if wire = FIXED32 then (advance 4 buf).map Prod.snd
  else .error .protobuf

/-- Read fields to the end. Each takes a byte at least, so the bytes there are bound their number.
-/
def fields {α : Type} (field : UInt64 × UInt64 → α → Bytes → Except MoshError (α × Bytes)) :
    ℕ → α → Bytes → Except MoshError α
  | _, a, [] => .ok a
  | 0, _, _ :: _ => .error .protobuf
  | n + 1, a, buf => do
    let (t, buf) ← tag buf
    let (a, buf) ← field t a buf
    fields field n a buf

end Reader

open Reader

def decodeI32 (v : UInt64) : Int32 := v.toInt64.toInt32

/-- Skip a field that is not known. -/
def skipping {α : Type} (wire : UInt64) (a : α) (buf : Bytes) : Except MoshError (α × Bytes) :=
  (skip wire buf).map (fun buf => (a, buf))

def decodeHostBytes (out : List HostInstruction) (buf : Bytes) :
    Except MoshError (List HostInstruction) :=
  fields (fun t out buf =>
    if t = (4, LEN) then (bytes buf).map (fun r => (out ++ [.hostBytes r.1], r.2))
    else skipping t.2 out buf) buf.length out buf

def decodeResize (out : List HostInstruction) (buf : Bytes) :
    Except MoshError (List HostInstruction) :=
  (fields (fun t (size : Int32 × Int32) buf =>
    if t = (5, VARINT) then (varint buf).map (fun r => ((decodeI32 r.1, size.2), r.2))
    else if t = (6, VARINT) then (varint buf).map (fun r => ((size.1, decodeI32 r.1), r.2))
    else skipping t.2 size buf) buf.length (0, 0) buf).map
      (fun size => out ++ [.resize size.1 size.2])

def decodeEchoAck (out : List HostInstruction) (buf : Bytes) :
    Except MoshError (List HostInstruction) :=
  fields (fun t out buf =>
    if t = (8, VARINT) then (varint buf).map (fun r => (out ++ [.echoAck r.1], r.2))
    else skipping t.2 out buf) buf.length out buf

/-- Read the extensions of an instruction. -/
def decodeHostInstruction (out : List HostInstruction) (buf : Bytes) :
    Except MoshError (List HostInstruction) :=
  let within (decode : List HostInstruction → Bytes → Except MoshError (List HostInstruction))
      (out : List HostInstruction) (buf : Bytes) : Except MoshError (List HostInstruction × Bytes) :=
    do
      let (b, buf) ← bytes buf
      let out ← decode out b
      return (out, buf)
  fields (fun t out buf =>
    if t = (2, LEN) then within decodeHostBytes out buf
    else if t = (3, LEN) then within decodeResize out buf
    else if t = (7, LEN) then within decodeEchoAck out buf
    else skipping t.2 out buf) buf.length out buf

def decodeHostMessage (buf : Bytes) : Except MoshError (List HostInstruction) :=
  fields (fun t out buf =>
    if t ≠ (1, LEN) then skipping t.2 out buf
    else do
      let (b, buf) ← bytes buf
      let out ← decodeHostInstruction out b
      return (out, buf)) buf.length [] buf

end Termoso.Core.Mosh
