import Termoso.Core.OpenFiles
import Termoso.Core.Remote
import Termoso.Lib.Disk

/-!
# A directory as a remote file system

The device's own file system, confined to one directory.  Callers see virtual absolute paths where
`/` is that directory; nothing above it can be named, and a symbolic link that leaves it is treated
as dangling.

Before a call is made on the disk, the directory that holds the entry, the entry itself with links
followed, or the deepest ancestor that exists is checked to be inside.  What the links of a virtual
path lead to is seen only then.
-/

namespace Termoso.Core

open Disk FileTree

/-- What is known of an object besides its content. -/
structure FileInfo where
  mode : ℕ
  uid : ℕ
  gid : ℕ
  mtime : Option ℕ
  atime : Option ℕ
deriving DecidableEq

inductive LocalError
  | notFound (path : List String)
  | invalid (message : String)
  | io (e : FileError)
  | cancelled
deriving DecidableEq

/-- The text of a virtual path. -/
def render (norm : List String) : String := "/" ++ "/".intercalate norm

/-- A caller path as segments. `.` and `..` are resolved and paths escaping the root rejected. -/
def virtualPath (path : String) : Except LocalError (List String) :=
  if '\x00' ∈ path.toList then .error (.invalid "path contains NUL")
  else
    (normalizeSegments [] ((path.toList.splitOn '/').map String.ofList)).elim
      (.error (.invalid s!"path escapes root: {path}")) .ok

/-- A missing object is told by its virtual path. -/
def notFoundOr (norm : List String) : FileError → LocalError
  | .notFound => .notFound norm
  | e => .io e

def kindOf : Content → EntryKind
  | .dir => .dir
  | .file _ => .file
  | .link _ => .symlink
  | .special => .other

structure LocalEntry where
  name : String
  path : List String
  kind : EntryKind
  size : Option ℕ
  info : FileInfo
  linkTarget : Option LinkTarget
  targetKind : Option EntryKind

/-- How a transfer is made: whether what is there already is kept, whether times are, and before
which chunk it is cancelled. -/
structure TransferOptions where
  resume : Bool
  preserveMtime : Bool
  cancel : Option ℕ

/-- The bytes of a chunk. -/
def CHUNK : ℕ := 256 * 1024

/-- A read of a whole file refuses files above this. -/
def MAX_IN_MEMORY : ℕ := 64 * 1024 * 1024

/-- A directory on this device served as a remote file system. -/
structure LocalFs where
  /-- The real location of the directory. -/
  root : Location
  home : List String

namespace LocalFs

variable (P : Platform FileInfo) (fs : LocalFs)

/-- Create the directory where browsers start, if it is not the root. -/
def createHome (root home : List String) : Disk FileInfo FileError Unit :=
  if home ≠ [] then createDirAll P (root ++ home) else ret ()

/-- Serve a directory, creating it if needed, with browsers starting in `home`. -/
def openAt (root : List String) (home : String) : Disk FileInfo LocalError LocalFs := do
  (createDirAll P root).orElse .io
  let root ← (look (fun t => t.canonicalize P root)).orElse .io
  let home ← look (fun _ => virtualPath home)
  (createHome P root home).orElse .io
  return { root, home }

/-! ### Finding what a path names -/

/-- A virtual path, and the real path under the root. -/
def real (path : String) : Except LocalError (List String × List String) := do
  let norm ← virtualPath path
  return (norm, fs.root ++ norm)

/-- The virtual path of a real one, if it lies inside the root. -/
def virt (real : Location) : Option (List String) :=
  if fs.root <+: real then some (real.drop fs.root.length) else none

section
variable (t : FileTree FileInfo)

/-- Fail unless `probe`, links followed, lies under the root. -/
def confine (norm : List String) (probe : List String) : Except LocalError Unit :=
  match t.canonicalize P probe with
  | .ok c => if fs.root <+: c then .ok () else .error (.notFound norm)
  | .error _ => .error (.notFound norm)

/-- Check that the directory holding `path` is inside the root. The entry itself is not followed. -/
def locate (path : String) : Except LocalError (List String × List String) := do
  let (norm, real) ← fs.real path
  if real ≠ [] ∧ real ≠ fs.root then
    fs.confine P t norm real.dropLast
  return (norm, real)

/-- And when the entry exists, following it must stay inside the root. -/
def locateTarget (path : String) : Except LocalError (List String × List String) := do
  let (norm, real) ← fs.locate P t path
  match t.symlinkMetadata P real with
  | .ok _ => fs.confine P t norm real
  | .error .notFound => .ok ()
  | .error e => .error (.io e)
  return (norm, real)

/-- The deepest ancestor of a path that exists. -/
def deepest (path : List String) : List String :=
  if _here : (t.symlinkMetadata P path).toOption.isSome ∨ path = [] then path
  else deepest path.dropLast
termination_by path.length
decreasing_by
  rw [List.length_dropLast]
  have := List.length_pos_of_ne_nil (not_or.mp _here).2
  omega

end

/-! ### Entries -/

/-- What a link holds, and the kind of what it leads to when that is inside the root. -/
def linkInfo (real : List String) :
    Disk FileInfo LocalError (Option LinkTarget × Option EntryKind) := do
  let target ← attempt (readLink P real)
  let targetKind ← look (fun t => .ok (
    match t.canonicalize P real with
    | .ok c =>
      if fs.root <+: c then (t.metadata P c).toOption.map (fun n => kindOf n.content) else none
    | .error _ => none))
  return (target.toOption, targetKind)

/-- Only of a link there is something to say. -/
def linksOf (node : Node FileInfo) (real : List String) :
    Disk FileInfo LocalError (Option LinkTarget × Option EntryKind) :=
  if kindOf node.content = .symlink then fs.linkInfo P real else ret (none, none)

def entry (norm real : List String) : Disk FileInfo LocalError LocalEntry := do
  let node ← (look (fun t => t.symlinkMetadata P real)).orElse (notFoundOr norm)
  let links ← fs.linksOf P node real
  return {
    name := norm.getLast?.getD ""
    path := norm
    kind := kindOf node.content
    size := match node.content with | .file bytes => some bytes.length | _ => none
    info := node.info
    linkTarget := links.1
    targetKind := links.2 }

/-- The entries of a directory. One that cannot be read is left out. -/
def entries (norm real : List String) : List String → Disk FileInfo LocalError (List LocalEntry)
  | [] => ret []
  | name :: names => do
    let e ← attempt (fs.entry P (norm ++ [name]) (real ++ [name]))
    let es ← entries norm real names
    return (e : Except LocalError LocalEntry).toOption.toList ++ es

/-! ### Copies -/

/-- Copy the bytes of a file, and its permissions. -/
def copyFile (source dest : List String) : Disk FileInfo FileError Unit := do
  let node ← look (fun t => t.metadata P source)
  let bytes ← readFile P source
  writeFile P true dest (fun _ => bytes)
  setPermissions P dest (fun info => { info with mode := node.info.mode })

/-- Copy the entries of a directory. Those that are directories are still to be walked. -/
def copyEntries (src dst : List String) :
    List String → List (List String × List String) →
      Disk FileInfo FileError (List (List String × List String))
  | [], stack => ret stack
  | name :: names, stack => do
    let node ← look (fun t => t.symlinkMetadata P (src ++ [name]))
    match node.content with
    | .dir => do
      createDir P (dst ++ [name])
      copyEntries src dst names ((src ++ [name], dst ++ [name]) :: stack)
    | .file _ => do
      copyFile P (src ++ [name]) (dst ++ [name])
      copyEntries src dst names stack
    -- Symlinks and special files are not copied.
    | _ => copyEntries src dst names stack

/-- Copy directories, as long as there are any and the fuel lasts. -/
def walk : ℕ → List (List String × List String) → Disk FileInfo FileError (Option Unit)
  | _, [] => ret (some ())
  | 0, _ :: _ => ret none
  | fuel + 1, (src, dst) :: stack => do
    let names ← readDir P src
    let stack ← copyEntries P src dst names stack
    walk fuel stack

/-- Copy a file or a directory tree. Nothing is returned when the fuel does not suffice. -/
def copyTree (fuel : ℕ) (source dest : List String) : Disk FileInfo LocalError (Option Unit) := do
  let node ← (look (fun t => t.symlinkMetadata P source)).orElse .io
  match node.content with
  | .dir => do
    (createDir P dest).orElse .io
    (walk P fuel [(source, dest)]).orElse .io
  | .file _ => do
    (copyFile P source dest).orElse .io
    return some ()
  | _ => fail (.invalid s!"not a regular file or directory: {render source}")

/-- How many of some bytes are moved before a transfer is cancelled, if it is. -/
def TransferOptions.stopsAfter (opts : TransferOptions) (bytes : ℕ) : Option ℕ :=
  (opts.cancel.filter (fun k => decide (k ≤ (bytes + CHUNK - 1) / CHUNK))).map (· * CHUNK)

/-- Create the directory of a file, if it is not the top. -/
def createParent (dst : List String) : Disk FileInfo FileError Unit :=
  if dst ≠ [] then createDirAll P dst.dropLast else ret ()

/-- Open the destination of a transfer of `total` bytes. Gives how many bytes of it are kept. -/
def openDest (total : ℕ) (dst : List String) (opts : TransferOptions) :
    Disk FileInfo FileError ℕ := do
  let old ← look (fun t => .ok (t.metadata P dst).toOption)
  match old.filter (fun _ => opts.resume) with
  | some n => do
    let kept := match n.content with | .file bytes => bytes.length | _ => 0
    if kept > total then do
      writeFile P true dst (fun _ => [])
      return 0
    else do
      writeFile P false dst id
      return kept
  | none => do
    createParent P dst
    writeFile P true dst (fun _ => [])
    return 0

/-- Copy bytes to a file, appending to what it already holds when asked for. Gives how many are
moved. -/
def streamCopy (bytes : List UInt8) (dst : List String) (opts : TransferOptions) :
    Disk FileInfo LocalError ℕ := do
  let offset ← (openDest P bytes.length dst opts).orElse .io
  let rest := bytes.drop offset
  match TransferOptions.stopsAfter opts rest.length with
  | some n => do
    (writeFile P false dst (fun old => old ++ rest.take n)).orElse .io
    fail .cancelled
  | none => do
    (writeFile P false dst (fun old => old ++ rest)).orElse .io
    return rest.length

/-- Keep the time of a file that was copied, if that is asked for. -/
def keepTime (opts : TransferOptions) (info : FileInfo) (dst : List String) :
    Disk FileInfo LocalError Unit :=
  match info.mtime with
  | some mtime =>
    if opts.preserveMtime then
      (setPermissions P dst (fun info => { info with mtime := some mtime })).orElse .io
    else ret ()
  | none => ret ()

/-- Open a file for positional access. -/
def openHandle (mode : OpenMode) (real : List String) : Disk FileInfo FileError Location := do
  match mode with
  | .read => do
    let _ ← readFile P real
    look (fun t => t.canonicalize P real)
  | .write => do
    writeFile P true real (fun _ => [])
    look (fun t => t.canonicalize P real)
  | .readWrite => do
    writeFile P true real id
    let _ ← readFile P real
    look (fun t => t.canonicalize P real)

/-! ### Operations -/

/-- What is asked of a remote file system. -/
inductive Operation
  | canonicalize (path : String)
  | list (dir : String)
  | stat (path : String)
  | exists_ (path : String)
  | mkdir (path : String)
  | mkdirAll (path : String)
  | rename (source dest : String)
  | copy (source dest : String)
  | removeFile (path : String)
  | removeDir (path : String)
  | removeDirAll (path : String) (cancelled : Bool)
  | chmod (path : String) (mode : ℕ)
  | read (path : String)
  | write (path : String) (data : List UInt8)
  | openFile (path : String) (mode : OpenMode)
  | download (remote : String) (file : List String) (opts : TransferOptions)
  | upload (file : List String) (remote : String) (opts : TransferOptions)
  | close

/-- What an operation returns. A copy that has not ended yet is pending. -/
inductive Answer
  | done
  | pending
  | path (p : List String)
  | entries (es : List LocalEntry)
  | entry (e : LocalEntry)
  | found (b : Bool)
  | bytes (b : List UInt8)
  | handle (p : Location)
  | moved (n : ℕ)

section
variable (lower : String → String)

def canonicalize (path : String) : Disk FileInfo LocalError Answer := do
  let (norm, real) ← look (fun t => fs.locateTarget P t path)
  match ← attempt (look (fun t => t.canonicalize P real)) with
  | .ok c => (fs.virt c).elim (fail (.notFound norm)) (fun p => ret (.path p))
  | .error .notFound => ret (.path norm)
  | .error e => fail (.io e)

/-- Directories first, then by name. -/
def sortLocal (es : List LocalEntry) : List LocalEntry :=
  es.insertionSort (fun a b =>
    (a.kind = .dir ∧ b.kind ≠ .dir)
      ∨ ((a.kind = .dir ↔ b.kind = .dir) ∧ lower a.name ≤ lower b.name))

def list (dir : String) : Disk FileInfo LocalError Answer := do
  let (norm, real) ← look (fun t => fs.locateTarget P t dir)
  let names ← (readDir P real).orElse (notFoundOr norm)
  let es ← fs.entries P norm real names
  return .entries (sortLocal lower es)

def stat (path : String) : Disk FileInfo LocalError Answer := do
  let (norm, real) ← look (fun t => fs.locate P t path)
  let e ← fs.entry P norm real
  return .entry e

def exists_ (path : String) : Disk FileInfo LocalError Answer := do
  match ← attempt (look (fun t => fs.locate P t path)) with
  | .ok (_, real) => look (fun t => .ok (.found (t.symlinkMetadata P real).toOption.isSome))
  | .error (.notFound _) => ret (.found false)
  | .error e => fail e

def mkdir (path : String) : Disk FileInfo LocalError Answer := do
  let (_, real) ← look (fun t => fs.locate P t path)
  (createDir P real).orElse .io
  return .done

def mkdirAll (path : String) : Disk FileInfo LocalError Answer := do
  let (norm, real) ← look (fun _ => fs.real path)
  look (fun t => fs.confine P t norm (deepest P t real))
  (createDirAll P real).orElse .io
  return .done

def rename (source dest : String) : Disk FileInfo LocalError Answer := do
  let (sourceNorm, sourceReal) ← look (fun t => fs.locate P t source)
  let (destNorm, destReal) ← look (fun t => fs.locate P t dest)
  if sourceNorm = [] then fail (.invalid "cannot rename the root")
  else do
    let there ← look (fun t => .ok (t.symlinkMetadata P destReal).toOption.isSome)
    if there then fail (.invalid s!"already exists: {render destNorm}")
    else do
      (Disk.rename P sourceReal destReal).orElse (notFoundOr sourceNorm)
      return .done

def copy (fuel : ℕ) (source dest : String) : Disk FileInfo LocalError Answer := do
  let (sourceNorm, sourceReal) ← look (fun t => fs.locateTarget P t source)
  let (destNorm, destReal) ← look (fun t => fs.locate P t dest)
  if sourceNorm = [] ∨ destNorm = [] then fail (.invalid "cannot copy the root")
  else if sourceNorm <+: destNorm ∧ sourceNorm ≠ destNorm then
    fail (.invalid "cannot copy a directory into itself")
  else do
    let there ← look (fun t => .ok (t.symlinkMetadata P destReal).toOption.isSome)
    if there then fail (.invalid s!"already exists: {render destNorm}")
    else do
      let found ← look (fun t => .ok (t.symlinkMetadata P sourceReal).toOption.isSome)
      if found then do
        let ended ← copyTree P fuel sourceReal destReal
        return ended.elim .pending (fun _ => .done)
      else fail (.notFound sourceNorm)

def removeFile (path : String) : Disk FileInfo LocalError Answer := do
  let (norm, real) ← look (fun t => fs.locate P t path)
  (Disk.removeFile P real).orElse (notFoundOr norm)
  return .done

def removeDir (path : String) : Disk FileInfo LocalError Answer := do
  let (norm, real) ← look (fun t => fs.locate P t path)
  if norm = [] then fail (.invalid "cannot remove the root")
  else do
    (Disk.removeDir P real).orElse (notFoundOr norm)
    return .done

/-- A removal that is cancelled goes on behind. -/
def removeDirAll (path : String) (cancelled : Bool) : Disk FileInfo LocalError Answer := do
  let (norm, real) ← look (fun t => fs.locate P t path)
  if norm = [] then fail (.invalid "cannot remove the root")
  else do
    let node ← (look (fun t => t.symlinkMetadata P real)).orElse (notFoundOr norm)
    if node.content ≠ .dir then do
      -- A symlink to a directory is unlinked, never followed.
      (Disk.removeFile P real).orElse .io
      return .done
    else do
      (Disk.removeDirAll P real).orElse .io
      if cancelled then fail .cancelled else return .done

def chmod (path : String) (mode : ℕ) : Disk FileInfo LocalError Answer := do
  let (norm, real) ← look (fun t => fs.locateTarget P t path)
  let _ ← (look (fun t => t.metadata P real)).orElse (notFoundOr norm)
  (setPermissions P real (fun info => { info with mode := mode % 0o10000 })).orElse .io
  return .done

def read (path : String) : Disk FileInfo LocalError Answer := do
  let (norm, real) ← look (fun t => fs.locateTarget P t path)
  let node ← (look (fun t => t.metadata P real)).orElse (notFoundOr norm)
  match node.content with
  | .dir => fail (.invalid s!"{render norm} is a directory")
  | .file bytes =>
    if bytes.length > MAX_IN_MEMORY then fail (.invalid "file too large to read into memory")
    else do
      let b ← (readFile P real).orElse .io
      return .bytes b
  | _ => do
    let b ← (readFile P real).orElse .io
    return .bytes b

def write (path : String) (data : List UInt8) : Disk FileInfo LocalError Answer := do
  let (_, real) ← look (fun t => fs.locateTarget P t path)
  (writeFile P true real (fun _ => data)).orElse .io
  return .done

/-- There is a directory where a path leads. -/
def leadsToDir (t : FileTree FileInfo) (path : List String) : Bool :=
  (t.metadata P path).toOption.any (fun n => decide (n.content = .dir))

def openFile (path : String) (mode : OpenMode) : Disk FileInfo LocalError Answer := do
  let (norm, real) ← look (fun t => fs.locateTarget P t path)
  let dir ← look (fun t => .ok (leadsToDir P t real))
  if dir then fail (.invalid s!"{render norm} is a directory")
  else do
    let p ← (openHandle P mode real).orElse (notFoundOr norm)
    return .handle p

def download (remote : String) (file : List String) (opts : TransferOptions) :
    Disk FileInfo LocalError Answer := do
  let (norm, real) ← look (fun t => fs.locateTarget P t remote)
  let node ← (look (fun t => t.metadata P real)).orElse (notFoundOr norm)
  if node.content = .dir then fail (.invalid s!"{render norm} is a directory")
  else do
    let bytes ← (readFile P real).orElse .io
    let moved ← streamCopy P bytes file opts
    keepTime P opts node.info file
    return .moved moved

def upload (file : List String) (remote : String) (opts : TransferOptions) :
    Disk FileInfo LocalError Answer := do
  let (norm, real) ← look (fun t => fs.locateTarget P t remote)
  let dir ← look (fun t => .ok (leadsToDir P t real))
  if dir then fail (.invalid s!"{render norm} is a directory")
  else do
    let node ← (look (fun t => t.metadata P file)).orElse .io
    if node.content = .dir then fail (.invalid s!"{render file} is a directory")
    else do
      let bytes ← (readFile P file).orElse .io
      let moved ← streamCopy P bytes real opts
      keepTime P opts node.info real
      return .moved moved

def perform (fuel : ℕ) : Operation → Disk FileInfo LocalError Answer
  | .canonicalize path => fs.canonicalize P path
  | .list dir => fs.list P lower dir
  | .stat path => fs.stat P path
  | .exists_ path => fs.exists_ P path
  | .mkdir path => fs.mkdir P path
  | .mkdirAll path => fs.mkdirAll P path
  | .rename source dest => fs.rename P source dest
  | .copy source dest => fs.copy P fuel source dest
  | .removeFile path => fs.removeFile P path
  | .removeDir path => fs.removeDir P path
  | .removeDirAll path cancelled => fs.removeDirAll P path cancelled
  | .chmod path mode => fs.chmod P path mode
  | .read path => fs.read P path
  | .write path data => fs.write P path data
  | .openFile path mode => fs.openFile P path mode
  | .download remote file opts => fs.download P remote file opts
  | .upload file remote opts => fs.upload P file remote opts
  | .close => ret .done

end

end LocalFs

end Termoso.Core
