import Mathlib.Data.List.Basic
import Termoso.Lib.Positional

/-!
# Open remote files

Positional access to a file of an SFTP server, of a WebDAV server and of the local disk.  The
client of SFTP reads a stream, and remembers where it is so as not to seek without need.  WebDAV
has no open files: what is read is asked for piece by piece, and what is written is kept in a local
file until it is sent whole.

What the surroundings do in a call is an argument: which accesses fail, how many bytes a read
moves, and how the server answers a request for a range.  An access that fails changes no file.
-/

namespace Termoso.Core

open Positional

/-- How a remote file is opened. -/
inductive OpenMode
  /-- Existing file, reads only. -/
  | read
  /-- Create or truncate, writes only. -/
  | write
  /-- Create if missing, keep contents, reads and writes at any offset. -/
  | readWrite
deriving DecidableEq

/-- What a file that is opened begins with. -/
def OpenMode.initial (mode : OpenMode) (resource : Option (List UInt8)) : List UInt8 :=
  if mode = .write then [] else resource.getD []

/-! ### Streams -/

/-- What becomes of an access. -/
inductive Chance
  /-- It is done. A read moves up to one byte more than this. -/
  | does (n : ℕ)
  /-- It fails. Where a read or a write leaves the stream then is not known. -/
  | fails (pos : ℕ)

/-- The next access is done. After the last chance everything is. -/
def succeeds : List Chance → Bool
  | .fails _ :: _ => false
  | _ => true

/-- An open file and where its next access is. -/
structure Stream where
  bytes : List UInt8
  pos : ℕ

namespace Stream

def seek (s : Stream) (offset : ℕ) (chances : List Chance) : Bool × Stream :=
  if succeeds chances then (true, { s with pos := offset }) else (false, s)

/-- Read until `want` bytes are there or the file ends. -/
def fill (s : Stream) (want : ℕ) : List Chance → Option (List UInt8) × Stream
  | [] =>
    let b := slice s.bytes s.pos want
    (some b, { s with pos := s.pos + b.length })
  | chance :: chances =>
    if want = 0 then (some [], s)
    else
      match chance with
      | .fails pos => (none, { s with pos })
      | .does n =>
        let b := slice s.bytes s.pos (min (n + 1) want)
        if b = [] then (some [], s)
        else
          let (out, s) :=
            fill { s with pos := s.pos + b.length } (want - b.length) chances
          (out.map (fun rest => b ++ rest), s)

/-- Write all of some data, and wait until it has arrived. -/
def write (s : Stream) (data : List UInt8) : List Chance → Bool × Stream
  | .fails pos :: _ => (false, { s with pos })
  | _ => (true, { bytes := patch 0 s.bytes s.pos data, pos := s.pos + data.length })

def setLength (s : Stream) (size : ℕ) (chances : List Chance) : Bool × Stream :=
  if succeeds chances then (true, { s with bytes := resize 0 s.bytes size }) else (false, s)

end Stream

/-! ### SFTP -/

/-- The handle plus the offset its stream is known to sit at. -/
structure SftpFile where
  stream : Stream
  pos : Option ℕ

namespace SftpFile

def openFile (mode : OpenMode) (resource : Option (List UInt8)) : Option SftpFile :=
  if mode = .read ∧ resource = none then none
  else some { stream := { bytes := mode.initial resource, pos := 0 }, pos := some 0 }

/-- Seek unless the stream is there already, and say what chances are left. -/
def seekTo (f : SftpFile) (offset : ℕ) (chances : List Chance) :
    Bool × SftpFile × List Chance :=
  if f.pos ≠ some offset then
    match f.stream.seek offset chances with
    | (true, stream) => (true, { stream, pos := some offset }, chances.tail)
    | (false, stream) => (false, { f with stream }, chances.tail)
  else (true, f, chances)

def readAt (f : SftpFile) (offset len : ℕ) (chances : List Chance) : Reply UInt8 × SftpFile :=
  match f.seekTo offset chances with
  | (false, f, _) => (.failed, f)
  | (true, f, chances) =>
    match f.stream.fill len chances with
    | (none, stream) => (.failed, { stream, pos := none })
    | (some out, stream) =>
      (.bytes out,
        { stream, pos := if out.length = len then some (offset + out.length) else none })

def writeAt (f : SftpFile) (offset : ℕ) (data : List UInt8) (chances : List Chance) :
    Reply UInt8 × SftpFile :=
  match f.seekTo offset chances with
  | (false, f, _) => (.failed, f)
  | (true, f, chances) =>
    match f.stream.write data chances with
    | (true, stream) => (.done, { stream, pos := some (offset + data.length) })
    | (false, stream) => (.failed, { stream, pos := none })

def truncate (f : SftpFile) (size : ℕ) (chances : List Chance) : Reply UInt8 × SftpFile :=
  match f.stream.setLength size chances with
  | (true, stream) => (.done, { stream, pos := none })
  | (false, stream) => (.failed, { f with stream })

/-- The size that the server reports. -/
def size (f : SftpFile) (chances : List Chance) : Reply UInt8 :=
  if succeeds chances then .length f.stream.bytes.length else .failed

def implementation : Implementation UInt8 SftpFile (List Chance) where
  step f call chances :=
    match call with
    | .readAt offset len => f.readAt offset len chances
    | .writeAt offset data => f.writeAt offset data chances
    | .truncate n => f.truncate n chances
    | .size => (f.size chances, f)
    | .sync => (if succeeds chances then .done else .failed, f)
  close f chances := (succeeds chances, f)
  server f := f.stream.bytes

end SftpFile

/-! ### The local disk -/

/-- A local file is a stream, and every access seeks. -/
structure LocalFile where
  file : Stream

namespace LocalFile

def openFile (mode : OpenMode) (resource : Option (List UInt8)) : Option LocalFile :=
  if mode = .read ∧ resource = none then none
  else some { file := { bytes := mode.initial resource, pos := 0 } }

def readAt (f : LocalFile) (offset len : ℕ) (chances : List Chance) : Reply UInt8 × LocalFile :=
  match f.file.seek offset chances with
  | (false, file) => (.failed, { file })
  | (true, file) =>
    match file.fill len chances.tail with
    | (none, file) => (.failed, { file })
    | (some out, file) => (.bytes out, { file })

def writeAt (f : LocalFile) (offset : ℕ) (data : List UInt8) (chances : List Chance) :
    Reply UInt8 × LocalFile :=
  match f.file.seek offset chances with
  | (false, file) => (.failed, { file })
  | (true, file) =>
    match file.write data chances.tail with
    | (true, file) => (.done, { file })
    | (false, file) => (.failed, { file })

def truncate (f : LocalFile) (size : ℕ) (chances : List Chance) : Reply UInt8 × LocalFile :=
  match f.file.setLength size chances with
  | (true, file) => (.done, { file })
  | (false, file) => (.failed, { file })

def implementation : Implementation UInt8 LocalFile (List Chance) where
  step f call chances :=
    match call with
    | .readAt offset len => f.readAt offset len chances
    | .writeAt offset data => f.writeAt offset data chances
    | .truncate n => f.truncate n chances
    | .size => (if succeeds chances then .length f.file.bytes.length else .failed, f)
    | .sync => (if succeeds chances then .done else .failed, f)
  close f chances := (succeeds chances, f)
  server f := f.file.bytes

end LocalFile

/-! ### WebDAV -/

/-- How a server answers a request for a range. -/
inductive Manner
  | fails
  | honoursRange
  /-- It sends the whole file, in chunks of some sizes, and may break off after some of them. -/
  | ignoresRange (sizes : List ℕ) (breaksOff : Option ℕ)

/-- An answer to a request for a range. -/
inductive RangeAnswer
  | refused
  | rangeNotSatisfiable
  | partialContent (body : List UInt8)
  /-- The chunks of the whole file, with an error where the answer breaks off. -/
  | content (chunks : List (Option (List UInt8)))

/-- Cut bytes into chunks. -/
def cutAt : List ℕ → List UInt8 → List (List UInt8)
  | [], bytes => [bytes]
  | n :: sizes, bytes => bytes.take n :: cutAt sizes (bytes.drop n)

/-- The answer of a server that has some bytes to a request for those from `offset` to `stop`. -/
def serve (bytes : List UInt8) (offset stop : ℕ) : Manner → RangeAnswer
  | .fails => .refused
  | .honoursRange =>
    if bytes.length ≤ offset then .rangeNotSatisfiable
    else .partialContent (slice bytes offset (stop + 1 - offset))
  | .ignoresRange sizes none => .content ((cutAt sizes bytes).map some)
  | .ignoresRange sizes (some n) => .content (((cutAt sizes bytes).take n).map some ++ [none])

/-- Take the slice we need from the chunks and drop the rest of the stream. -/
def gather (offset stop : ℕ) : ℕ → List UInt8 → List (Option (List UInt8)) → Option (List UInt8)
  | _, out, [] => some out
  | _, _, none :: _ => none
  | pos, out, some chunk :: chunks =>
    let chunkEnd := pos + chunk.length
    let out :=
      if chunkEnd > offset then
        out ++ slice chunk (offset - pos) (min (stop + 1) chunkEnd - max pos offset)
      else out
    if chunkEnd > stop then some out else gather offset stop chunkEnd out chunks

def getRange (server : List UInt8) (offset len : ℕ) (manner : Manner) : Option (List UInt8) :=
  if len = 0 then some []
  else
    let stop := offset + len - 1
    match serve server offset stop manner with
    | .refused => none
    | .rangeNotSatisfiable => some []
    | .partialContent b => some (if b.length > len then b.take len else b)
    | .content chunks => gather offset stop 0 [] chunks

inductive FileState
  /-- Read-only: every read is a ranged GET. -/
  | read (size : ℕ)
  /-- Writable: a local spool file, PUT on sync and close. -/
  | spool (file : Stream) (dirty : Bool)

/-- Positional access to one WebDAV resource, and what the server has. -/
structure WebDavFile where
  state : FileState
  server : List UInt8

/-- What the surroundings of a WebDAV file do in a call. -/
structure DavEnv where
  manner : Manner
  chances : List Chance
  /-- A PUT is taken. -/
  puts : Bool

namespace WebDavFile

/-- Open a resource, of which the server reports a size or does not. -/
def openFile (mode : OpenMode) (resource : Option (List UInt8)) (reported : Option ℕ) :
    Option WebDavFile :=
  match mode, resource with
  | .read, none => none
  | .read, some bytes => some { state := .read (reported.getD 0), server := bytes }
  | .write, _ => some { state := .spool { bytes := [], pos := 0 } true, server := resource.getD [] }
  | .readWrite, none => some { state := .spool { bytes := [], pos := 0 } true, server := [] }
  | .readWrite, some bytes =>
    some { state := .spool { bytes, pos := bytes.length } true, server := bytes }

/-- The length of the spool file, which is only accurate after a flush. -/
def spoolLen (file : Stream) (chances : List Chance) : Option ℕ :=
  if succeeds chances then some file.bytes.length else none

def size (f : WebDavFile) (env : DavEnv) : Reply UInt8 :=
  match f.state with
  | .read size => .length size
  | .spool file _ => (spoolLen file env.chances).elim .failed .length

def readAt (f : WebDavFile) (offset len : ℕ) (env : DavEnv) : Reply UInt8 × WebDavFile :=
  match f.state with
  | .read size =>
    if offset ≥ size then (.bytes [], f)
    else
      match getRange f.server offset (min len (size - offset)) env.manner with
      | some b => (.bytes b, f)
      | none => (.failed, f)
  | .spool file dirty =>
    match spoolLen file env.chances with
    | none => (.failed, f)
    | some stop =>
      if offset ≥ stop then (.bytes [], f)
      else
        match file.seek offset env.chances.tail with
        | (false, file) => (.failed, { f with state := .spool file dirty })
        | (true, file) =>
          match file.fill (min len (stop - offset)) env.chances.tail.tail with
          | (none, file) => (.failed, { f with state := .spool file dirty })
          | (some out, file) => (.bytes out, { f with state := .spool file dirty })

def writeAt (f : WebDavFile) (offset : ℕ) (data : List UInt8) (env : DavEnv) :
    Reply UInt8 × WebDavFile :=
  match f.state with
  | .read _ => (.failed, f)
  | .spool file dirty =>
    match file.seek offset env.chances with
    | (false, file) => (.failed, { f with state := .spool file dirty })
    | (true, file) =>
      match file.write data env.chances.tail with
      | (true, file) => (.done, { f with state := .spool file true })
      | (false, file) => (.failed, { f with state := .spool file dirty })

def truncate (f : WebDavFile) (size : ℕ) (env : DavEnv) : Reply UInt8 × WebDavFile :=
  match f.state with
  | .read _ => (.failed, f)
  | .spool file dirty =>
    match file.setLength size env.chances with
    | (true, file) => (.done, { f with state := .spool file true })
    | (false, file) => (.failed, { f with state := .spool file dirty })

/-- Send the spool file, if it has changed since it was sent. -/
def flushSpool (f : WebDavFile) (env : DavEnv) : Bool × WebDavFile :=
  match f.state with
  | .read _ | .spool _ false => (true, f)
  | .spool file true =>
    if (spoolLen file env.chances).isSome ∧ env.puts = true then
      (true, { state := .spool file false, server := file.bytes })
    else (false, f)

def implementation : Implementation UInt8 WebDavFile DavEnv where
  step f call env :=
    match call with
    | .readAt offset len => f.readAt offset len env
    | .writeAt offset data => f.writeAt offset data env
    | .truncate n => f.truncate n env
    | .size => (f.size env, f)
    | .sync => (if (f.flushSpool env).1 then .done else .failed, (f.flushSpool env).2)
  close f env := f.flushSpool env
  server f := f.server

end WebDavFile

/-! ### Streams keep their bytes -/

section
variable {s s' : Stream} {out : Option (List UInt8)} {b : List UInt8}

/-- A slice is what one read gives of it, and the rest. -/
theorem slice_read (a : List UInt8) (pos : ℕ) {k want : ℕ} (hk : k ≤ want) :
  slice a pos k ++ slice a (pos + (slice a pos k).length) (want - (slice a pos k).length) =
    slice a pos want
  := by
  have hlength := length_slice a pos k
  have hmin := slice_min a pos k
  rw [← hlength] at hmin
  calc slice a pos k ++ slice a (pos + (slice a pos k).length) (want - (slice a pos k).length)
      = slice a pos (slice a pos k).length ++
          slice a (pos + (slice a pos k).length) (want - (slice a pos k).length) := by rw [hmin]
    _ = slice a pos ((slice a pos k).length + (want - (slice a pos k).length)) :=
        slice_append a pos _ _
    _ = slice a pos want := by
        congr 1
        omega

/-- Reading until enough is there or the file ends gives the slice, however many bytes each read
moves. -/
theorem Stream.fill_spec (s : Stream) (want : ℕ) (chances : List Chance) :
  (s.fill want chances).2.bytes = s.bytes ∧
    ∀ b, (s.fill want chances).1 = some b →
      b = slice s.bytes s.pos want ∧ (s.fill want chances).2.pos = s.pos + b.length
  := by
  induction chances generalizing s want with
  | nil =>
      refine ⟨rfl, fun b hb => ?_⟩
      cases hb
      exact ⟨rfl, rfl⟩
  | cons chance chances ih =>
      unfold fill
      by_cases hwant : want = 0
      · rw [if_pos hwant]
        refine ⟨rfl, fun b hb => ?_⟩
        cases hb
        rw [hwant]
        exact ⟨rfl, rfl⟩
      rw [if_neg hwant]
      cases chance with
      | fails pos => exact ⟨rfl, fun b hb => by cases hb⟩
      | does n =>
          dsimp only
          by_cases hnil : slice s.bytes s.pos (min (n + 1) want) = []
          · rw [if_pos hnil]
            refine ⟨rfl, fun b hb => ?_⟩
            cases hb
            have hend : s.bytes.length ≤ s.pos := by
              rcases (slice_eq_nil_iff _ _ _).mp hnil with h | h
              · omega
              · exact h
            exact ⟨(slice_of_length_le want hend).symm, rfl⟩
          · rw [if_neg hnil]
            have hrest := ih
              { s with pos := s.pos + (slice s.bytes s.pos (min (n + 1) want)).length }
              (want - (slice s.bytes s.pos (min (n + 1) want)).length)
            refine ⟨hrest.1, fun b hb => ?_⟩
            obtain ⟨rest, hsome, rfl⟩ := Option.map_eq_some_iff.mp hb
            obtain ⟨hslice, hpos⟩ := hrest.2 rest hsome
            rw [hslice] at hpos ⊢
            refine ⟨slice_read s.bytes s.pos (Nat.min_le_right _ _), ?_⟩
            rw [hpos, List.length_append, Nat.add_assoc]

theorem Stream.fill_some {want : ℕ} {chances : List Chance}
    (h : s.fill want chances = (some b, s')) :
  b = slice s.bytes s.pos want ∧ s'.bytes = s.bytes ∧ s'.pos = s.pos + b.length
  := by
  obtain ⟨hbytes, hsome⟩ := s.fill_spec want chances
  rw [h] at hbytes hsome
  obtain ⟨hslice, hpos⟩ := hsome b rfl
  exact ⟨hslice, hbytes, hpos⟩

theorem Stream.fill_none {want : ℕ} {chances : List Chance}
    (h : s.fill want chances = (none, s')) :
  s'.bytes = s.bytes
  := by
  have hbytes := (s.fill_spec want chances).1
  rw [h] at hbytes
  exact hbytes

theorem Stream.seek_true {offset : ℕ} {chances : List Chance}
    (h : s.seek offset chances = (true, s')) :
  s' = { s with pos := offset }
  := by
  rw [seek] at h
  split at h <;> cases h
  rfl

theorem Stream.seek_false {offset : ℕ} {chances : List Chance}
    (h : s.seek offset chances = (false, s')) :
  s' = s
  := by
  rw [seek] at h
  split at h <;> cases h
  rfl

theorem Stream.write_true {data : List UInt8} {chances : List Chance}
    (h : s.write data chances = (true, s')) :
  s' = { bytes := patch 0 s.bytes s.pos data, pos := s.pos + data.length }
  := by
  unfold write at h
  split at h <;> cases h
  rfl

theorem Stream.write_false {data : List UInt8} {chances : List Chance}
    (h : s.write data chances = (false, s')) :
  s'.bytes = s.bytes
  := by
  unfold write at h
  split at h <;> cases h
  rfl

theorem Stream.setLength_true {size : ℕ} {chances : List Chance}
    (h : s.setLength size chances = (true, s')) :
  s' = { s with bytes := resize 0 s.bytes size }
  := by
  rw [setLength] at h
  split at h <;> cases h
  rfl

theorem Stream.setLength_false {size : ℕ} {chances : List Chance}
    (h : s.setLength size chances = (false, s')) :
  s' = s
  := by
  rw [setLength] at h
  split at h <;> cases h
  rfl

end

/-! ### SFTP -/

namespace SftpFile

/-- The offset that is remembered is where the stream is. -/
def Placed (f : SftpFile) : Prop := ∀ p, f.pos = some p → f.stream.pos = p

section
variable {f f' : SftpFile} {offset : ℕ} {chances left : List Chance}

theorem seekTo_true (hf : f.Placed) (h : f.seekTo offset chances = (true, f', left)) :
  f'.stream.bytes = f.stream.bytes ∧ f'.stream.pos = offset ∧ f'.pos = some offset
  := by
  rw [seekTo] at h
  split at h
  · split at h <;> cases h
    rename_i stream hseek
    rw [Stream.seek_true hseek]
    exact ⟨rfl, rfl, rfl⟩
  · rename_i hpos
    cases h
    rw [not_not] at hpos
    exact ⟨rfl, hf offset hpos, hpos⟩

theorem seekTo_false (h : f.seekTo offset chances = (false, f', left)) :
  f' = f
  := by
  rw [seekTo] at h
  split at h
  · split at h <;> cases h
    rename_i stream hseek
    rw [Stream.seek_false hseek]
  · cases h

theorem placed_none (stream : Stream) :
  Placed { stream, pos := none }
  := by
  intro p hp
  cases hp

theorem represents :
  implementation.Represents 0 (fun f => f.stream.bytes) Placed
  := by
  constructor
  · intro f call chances hf
    cases call with
    | readAt offset len =>
        change Placed (f.readAt offset len chances).2 ∧ _
        simp only [implementation, readAt]
        split
        · rename_i f' left hseek
          rw [seekTo_false hseek]
          exact ⟨hf, trivial, rfl⟩
        · rename_i f' left hseek
          obtain ⟨hbytes, hpos, -⟩ := seekTo_true hf hseek
          split
          · rename_i stream hfill
            refine ⟨placed_none _, trivial, ?_⟩
            exact (Stream.fill_none hfill).trans hbytes
          · rename_i out stream hfill
            obtain ⟨hout, hsame, hmoved⟩ := Stream.fill_some hfill
            rw [hbytes, hpos] at hout
            refine ⟨fun p hp => ?_, hout, hsame.trans hbytes⟩
            dsimp only at hp ⊢
            split at hp <;> cases hp
            rw [hmoved, hpos]
    | writeAt offset data =>
        simp only [implementation, writeAt]
        split
        · rename_i f' left hseek
          rw [seekTo_false hseek]
          exact ⟨hf, trivial, rfl⟩
        · rename_i f' left hseek
          obtain ⟨hbytes, hpos, -⟩ := seekTo_true hf hseek
          split
          · rename_i stream hwrite
            rw [Stream.write_true hwrite, hpos, hbytes]
            refine ⟨fun p hp => ?_, trivial, rfl⟩
            cases hp
            rfl
          · rename_i stream hwrite
            refine ⟨placed_none _, trivial, ?_⟩
            exact (Stream.write_false hwrite).trans hbytes
    | truncate n =>
        simp only [implementation, truncate]
        split
        · rename_i stream hset
          rw [Stream.setLength_true hset]
          exact ⟨placed_none _, trivial, rfl⟩
        · rename_i stream hset
          rw [Stream.setLength_false hset]
          exact ⟨hf, trivial, rfl⟩
    | size =>
        simp only [implementation, size]
        split
        · exact ⟨hf, rfl, rfl⟩
        · exact ⟨hf, trivial, rfl⟩
    | sync =>
        simp only [implementation]
        split <;> exact ⟨hf, trivial, rfl⟩
  · intro f chances _ _
    rfl

end

/-- A file that is opened on an SFTP server behaves like the array it begins with. -/
theorem sound {mode : OpenMode} {resource : Option (List UInt8)} {f : SftpFile}
    (h : openFile mode resource = some f) :
  implementation.Sound 0 f (mode.initial resource)
  := by
  rw [openFile] at h
  split at h <;> cases h
  apply represents.sound
  intro p hp
  cases hp
  rfl

end SftpFile

/-! ### The local disk -/

namespace LocalFile

theorem represents :
  implementation.Represents 0 (fun f => f.file.bytes) (fun _ => True)
  := by
  constructor
  · rintro ⟨file⟩ call chances -
    refine ⟨trivial, ?_⟩
    cases call with
    | readAt offset len =>
        simp only [implementation, readAt]
        split
        · rename_i file' hseek
          rw [Stream.seek_false hseek]
          exact ⟨trivial, rfl⟩
        · rename_i file' hseek
          cases Stream.seek_true hseek
          split
          · rename_i stream hfill
            have hsame := Stream.fill_none hfill
            exact ⟨trivial, hsame⟩
          · rename_i out stream hfill
            obtain ⟨hout, hsame, -⟩ := Stream.fill_some hfill
            exact ⟨hout, hsame⟩
    | writeAt offset data =>
        simp only [implementation, writeAt]
        split
        · rename_i file' hseek
          rw [Stream.seek_false hseek]
          exact ⟨trivial, rfl⟩
        · rename_i file' hseek
          cases Stream.seek_true hseek
          split
          · rename_i stream hwrite
            rw [Stream.write_true hwrite]
            exact ⟨trivial, rfl⟩
          · rename_i stream hwrite
            have hsame := Stream.write_false hwrite
            exact ⟨trivial, hsame⟩
    | truncate n =>
        simp only [implementation, truncate]
        split
        · rename_i stream hset
          rw [Stream.setLength_true hset]
          exact ⟨trivial, rfl⟩
        · rename_i stream hset
          rw [Stream.setLength_false hset]
          exact ⟨trivial, rfl⟩
    | size =>
        simp only [implementation]
        split
        · exact ⟨rfl, rfl⟩
        · exact ⟨trivial, rfl⟩
    | sync =>
        simp only [implementation]
        split <;> exact ⟨trivial, rfl⟩
  · intro f chances _ _
    rfl

/-- A file that is opened on the local disk behaves like the array it begins with. -/
theorem sound {mode : OpenMode} {resource : Option (List UInt8)} {f : LocalFile}
    (h : openFile mode resource = some f) :
  implementation.Sound 0 f (mode.initial resource)
  := by
  rw [openFile] at h
  split at h <;> cases h
  exact represents.sound trivial

end LocalFile

/-! ### Ranges -/

/-- However bytes are cut into chunks, nothing of them is lost. -/
theorem flatten_cut (sizes : List ℕ) (bytes : List UInt8) :
  (cutAt sizes bytes).flatten = bytes
  := by
  induction sizes generalizing bytes with
  | nil => simp [cutAt]
  | cons n sizes ih => rw [cutAt, List.flatten_cons, ih, List.take_append_drop]

theorem slice_append_left (a b : List UInt8) (offset len : ℕ) :
  slice (a ++ b) offset len =
    slice a offset len ++ slice b (offset - a.length) (len - (a.length - offset))
  := by
  rw [slice, slice, slice, List.drop_append, List.take_append, List.length_drop]

/-- Once a slice is complete what follows it does not matter. -/
theorem slice_of_length_ge {a : List UInt8} (b : List UInt8) {offset len : ℕ}
    (h : offset + len ≤ a.length) :
  slice (a ++ b) offset len = slice a offset len
  := by
  have hnone : slice b (offset - a.length) (len - (a.length - offset)) = [] := by
    rw [slice_eq_nil_iff]
    omega
  rw [slice_append_left, hnone, List.append_nil]

/-- One chunk more. -/
theorem gather_cons {offset len stop : ℕ} (hstop : stop + 1 = offset + len) (seen : List UInt8)
    (hseen : seen.length ≤ stop) (chunk : List UInt8) (chunks : List (Option (List UInt8))) :
  gather offset stop seen.length (slice seen offset len) (some chunk :: chunks) =
    if (seen ++ chunk).length > stop then some (slice (seen ++ chunk) offset len)
    else gather offset stop (seen ++ chunk).length (slice (seen ++ chunk) offset len) chunks
  := by
  have hout : (if seen.length + chunk.length > offset then
      slice seen offset len ++ slice chunk (offset - seen.length)
        (min (stop + 1) (seen.length + chunk.length) - max seen.length offset)
      else slice seen offset len) = slice (seen ++ chunk) offset len := by
    rw [slice_append_left]
    split
    · congr 1
      rw [slice, slice, List.take_eq_take_iff, List.length_drop]
      omega
    · rw [slice_of_length_le _ (by omega : chunk.length ≤ offset - seen.length), List.append_nil]
  rw [gather, hout, List.length_append]

/-- What is gathered from chunks is the slice of the whole, whatever the chunks are. -/
theorem gather_chunks {offset len stop : ℕ} (hstop : stop + 1 = offset + len)
    (seen : List UInt8) (hseen : seen.length ≤ stop) (chunks : List (List UInt8)) :
  gather offset stop seen.length (slice seen offset len) (chunks.map some) =
    some (slice (seen ++ chunks.flatten) offset len)
  := by
  induction chunks generalizing seen with
  | nil => rw [List.map_nil, gather, List.flatten_nil, List.append_nil]
  | cons chunk chunks ih =>
      rw [List.map_cons, gather_cons hstop seen hseen, List.flatten_cons, ← List.append_assoc]
      split
      · rename_i hdone
        rw [slice_of_length_ge chunks.flatten (by omega : offset + len ≤ (seen ++ chunk).length)]
      · rename_i hmore
        exact ih (seen ++ chunk) (Nat.le_of_not_lt hmore)

/-- Chunks that break off give the slice of the whole, or an error. -/
theorem gather_breaks {offset len stop : ℕ} (hstop : stop + 1 = offset + len)
    (seen : List UInt8) (hseen : seen.length ≤ stop) (chunks : List (List UInt8))
    (rest : List UInt8) {b : List UInt8}
    (h : gather offset stop seen.length (slice seen offset len) (chunks.map some ++ [none]) =
      some b) :
  b = slice (seen ++ (chunks.flatten ++ rest)) offset len
  := by
  induction chunks generalizing seen with
  | nil => cases h
  | cons chunk chunks ih =>
      rw [List.map_cons, List.cons_append, gather_cons hstop seen hseen] at h
      rw [List.flatten_cons, List.append_assoc, ← List.append_assoc seen]
      split at h
      · rename_i hdone
        cases h
        rw [slice_of_length_ge _ (by omega : offset + len ≤ (seen ++ chunk).length)]
      · rename_i hmore
        exact ih (seen ++ chunk) (Nat.le_of_not_lt hmore) h

/-- What a server answers to a request for a range is that range, or an error. -/
theorem getRange_eq_some {server : List UInt8} {offset len : ℕ} {manner : Manner}
    {b : List UInt8} (h : getRange server offset len manner = some b) :
  b = slice server offset len
  := by
  rw [getRange] at h
  split at h
  · rename_i hlen
    cases h
    rw [hlen]
    rfl
  rename_i hlen
  have hstop : offset + len - 1 + 1 = offset + len := by omega
  have hslice : slice server offset (offset + len - 1 + 1 - offset) = slice server offset len := by
    rw [hstop, Nat.add_sub_cancel_left]
  have hnil : slice ([] : List UInt8) offset len = [] := slice_of_length_le len (Nat.zero_le _)
  cases manner with
  | fails => cases h
  | honoursRange =>
      simp only [serve] at h
      split at h
      · cases h
      · rename_i hnone
        split at hnone
        · cases h
          rename_i hend
          exact (slice_of_length_le len hend).symm
        · cases hnone
      · rename_i body hbody
        split at hbody
        · cases hbody
        · cases hbody
          rw [hslice] at h
          rw [← Option.some.inj h]
          split
          · rename_i hlong
            rw [length_slice] at hlong
            omega
          · rfl
      · rename_i chunks hchunks
        split at hchunks <;> cases hchunks
  | ignoresRange sizes breaksOff =>
      cases breaksOff with
      | none =>
          have hall := gather_chunks hstop [] (Nat.zero_le _) (cutAt sizes server)
          rw [hnil, flatten_cut, List.nil_append] at hall
          exact Option.some.inj (h.symm.trans hall)
      | some n =>
          have hbreaks := gather_breaks hstop [] (Nat.zero_le _) ((cutAt sizes server).take n)
            ((cutAt sizes server).drop n).flatten (b := b)
          rw [hnil, ← List.flatten_append, List.take_append_drop, flatten_cut] at hbreaks
          exact hbreaks h

/-! ### WebDAV -/

namespace WebDavFile

/-- The array that a file stands for. -/
def bytes (f : WebDavFile) : List UInt8 :=
  match f.state with
  | .read _ => f.server
  | .spool file _ => file.bytes

/-- The size of a file that is read is that of the resource, and a spool file that has not changed
was sent. -/
def Synced (f : WebDavFile) : Prop :=
  match f.state with
  | .read size => size = f.server.length
  | .spool file dirty => dirty = false → f.server = file.bytes

theorem flushSpool_spec {f : WebDavFile} (hf : f.Synced) (env : DavEnv) :
  (f.flushSpool env).2.Synced ∧ (f.flushSpool env).2.bytes = f.bytes ∧
    ((f.flushSpool env).1 = true → (f.flushSpool env).2.server = f.bytes)
  := by
  obtain ⟨state, server⟩ := f
  cases state with
  | read size => exact ⟨hf, rfl, fun _ => rfl⟩
  | spool file dirty =>
      cases dirty with
      | false => exact ⟨hf, rfl, fun _ => hf rfl⟩
      | true =>
          simp only [flushSpool]
          split
          · exact ⟨fun _ => rfl, rfl, fun _ => rfl⟩
          · exact ⟨hf, rfl, fun h => by cases h⟩

theorem represents :
  implementation.Represents 0 bytes Synced
  := by
  constructor
  · rintro ⟨state, server⟩ call env hf
    cases state with
    | read size =>
        cases call with
        | readAt offset len =>
            simp only [implementation, readAt]
            split
            · rename_i hend
              refine ⟨hf, ?_, rfl⟩
              rw [hf] at hend
              exact (slice_of_length_le len hend).symm
            · split
              · rename_i b hb
                refine ⟨hf, ?_, rfl⟩
                rw [getRange_eq_some hb, hf]
                exact slice_min server offset len
              · exact ⟨hf, trivial, rfl⟩
        | writeAt offset data => exact ⟨hf, trivial, rfl⟩
        | truncate n => exact ⟨hf, trivial, rfl⟩
        | size => exact ⟨hf, hf, rfl⟩
        | sync => exact ⟨hf, trivial, rfl⟩
    | spool file dirty =>
        cases call with
        | readAt offset len =>
            simp only [implementation, readAt]
            split
            · exact ⟨hf, trivial, rfl⟩
            rename_i stop hstop
            rw [spoolLen] at hstop
            split at hstop <;> cases hstop
            split
            · rename_i hend
              exact ⟨hf, (slice_of_length_le len hend).symm, rfl⟩
            split
            · rename_i file' hseek
              rw [Stream.seek_false hseek]
              exact ⟨hf, trivial, rfl⟩
            rename_i file' hseek
            cases Stream.seek_true hseek
            split
            · rename_i stream hfill
              have hsame := Stream.fill_none hfill
              exact ⟨fun hdirty => (hf hdirty).trans hsame.symm, trivial, hsame⟩
            · rename_i out stream hfill
              obtain ⟨hout, hsame, -⟩ := Stream.fill_some hfill
              rw [slice_min] at hout
              exact ⟨fun hdirty => (hf hdirty).trans hsame.symm, hout, hsame⟩
        | writeAt offset data =>
            simp only [implementation, writeAt]
            split
            · rename_i file' hseek
              rw [Stream.seek_false hseek]
              exact ⟨hf, trivial, rfl⟩
            rename_i file' hseek
            cases Stream.seek_true hseek
            split
            · rename_i stream hwrite
              rw [Stream.write_true hwrite]
              exact ⟨fun hdirty => absurd hdirty (by decide), trivial, rfl⟩
            · rename_i stream hwrite
              have hsame := Stream.write_false hwrite
              exact ⟨fun hdirty => (hf hdirty).trans hsame.symm, trivial, hsame⟩
        | truncate n =>
            simp only [implementation, truncate]
            split
            · rename_i stream hset
              rw [Stream.setLength_true hset]
              exact ⟨fun hdirty => absurd hdirty (by decide), trivial, rfl⟩
            · rename_i stream hset
              rw [Stream.setLength_false hset]
              exact ⟨hf, trivial, rfl⟩
        | size =>
            simp only [implementation, size, spoolLen]
            split
            · exact ⟨hf, rfl, rfl⟩
            · exact ⟨hf, trivial, rfl⟩
        | sync =>
            obtain ⟨hsynced, hbytes, -⟩ := flushSpool_spec hf env
            simp only [implementation]
            split <;> exact ⟨hsynced, trivial, hbytes⟩
  · intro f env hf
    exact (flushSpool_spec hf env).2.2

section
variable {mode : OpenMode} {resource : Option (List UInt8)} {reported : Option ℕ} {f : WebDavFile}

/-- What is opened stands for what the file begins with. -/
theorem bytes_openFile (h : openFile mode resource reported = some f) :
  f.bytes = mode.initial resource
  := by
  cases mode <;> cases resource <;> cases h <;> rfl

/-- What is opened is in step with the server, unless a file with something in it is opened to be
read and the server does not report its size. -/
theorem synced_openFile (h : openFile mode resource reported = some f)
    (hreported : ∀ n, reported = some n → resource.map List.length = some n)
    (hsize : mode = .read → reported = none → resource = some []) :
  f.Synced
  := by
  cases mode with
  | read =>
      cases resource with
      | none => cases h
      | some bytes =>
          cases h
          cases reported with
          | none =>
              cases hsize rfl rfl
              rfl
          | some n => exact (Option.some.inj (hreported n rfl)).symm
  | write =>
      cases h
      intro hdirty
      cases hdirty
  | readWrite =>
      cases resource <;> cases h <;> intro hdirty <;> cases hdirty

/-- Without a size nothing is read. -/
theorem nil_of_sound (h : openFile .read resource none = some f)
    (hsound : implementation.Sound 0 f (OpenMode.initial .read resource)) :
  resource = some []
  := by
  cases resource with
  | none => cases h
  | some bytes =>
      cases h
      have hread := (hsound
        [(.readAt 0 1, { manner := .fails, chances := [], puts := true })]).1.1
      rcases (slice_eq_nil_iff bytes 0 1).mp (Eq.symm hread) with hnone | hnil
      · cases hnone
      · rw [List.length_eq_zero_iff.mp (Nat.le_zero.mp hnil)]

/-- A WebDAV file behaves like the array it begins with exactly unless a file with something in it
is opened to be read and the server does not report its size. -/
theorem sound_iff (h : openFile mode resource reported = some f)
    (hreported : ∀ n, reported = some n → resource.map List.length = some n) :
  implementation.Sound 0 f (mode.initial resource) ↔
    (mode = .read → reported = none → resource = some [])
  := by
  constructor
  · rintro hsound rfl rfl
    exact nil_of_sound h hsound
  · intro hsize
    rw [← bytes_openFile h]
    exact represents.sound (synced_openFile h hreported hsize)

end

end WebDavFile

/-- Open files behave like arrays of bytes, unless a WebDAV file with something in it is opened to
be read and the server does not report its size. -/
theorem openFile_sound_iff (mode : OpenMode) (resource : Option (List UInt8)) :
  (∀ f, SftpFile.openFile mode resource = some f →
      SftpFile.implementation.Sound 0 f (mode.initial resource)) ∧
    (∀ f, LocalFile.openFile mode resource = some f →
      LocalFile.implementation.Sound 0 f (mode.initial resource)) ∧
    ∀ reported f, WebDavFile.openFile mode resource reported = some f →
      (∀ n, reported = some n → resource.map List.length = some n) →
        (WebDavFile.implementation.Sound 0 f (mode.initial resource) ↔
          (mode = .read → reported = none → resource = some []))
  := by
  refine ⟨?_, ?_, ?_⟩
  · intro f
    apply SftpFile.sound
  · intro f
    apply LocalFile.sound
  · intro reported f h hreported
    exact WebDavFile.sound_iff h hreported

/-- One byte, of which the server does not report the size, is read as nothing. -/
theorem not_openFile_sound :
  ∃ f, WebDavFile.openFile .read (some [1]) none = some f ∧
    (WebDavFile.implementation.step f (.readAt 0 1)
      { manner := .honoursRange, chances := [], puts := true }).1 = .bytes [] ∧
    ¬WebDavFile.implementation.Sound 0 f (OpenMode.initial .read (some [1]))
  := by
  refine ⟨_, rfl, rfl, fun hsound => ?_⟩
  cases WebDavFile.nil_of_sound rfl hsound

end Termoso.Core
