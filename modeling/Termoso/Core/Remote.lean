import Termoso.Lib.Path
import Mathlib.Data.List.Sort
import Mathlib.Data.List.TakeWhile

/-!
# Remote listings

What a client makes of the answers of a file server: entries of a directory over SFTP, and over
WebDAV.  Remote paths are texts with slashes, whatever the server sends.  Resolving a reference
against a URL, decoding percent signs and lower-casing are library functions, and enter as
parameters.
-/

namespace Termoso.Core

/-- What an entry is. -/
inductive EntryKind
  | dir
  | file
  | symlink
  | other
deriving DecidableEq

/-- An entry of a remote directory. -/
structure RemoteEntry where
  name : String
  path : String
  kind : EntryKind
  size : Option ℕ
deriving DecidableEq

/-! ### Remote paths -/

/-- Characters up to the trailing slashes. -/
def trimEndSlashes (cs : List Char) : List Char :=
  (cs.reverse.dropWhile (fun c => decide (c = '/'))).reverse

/-- Join a directory and a name. -/
def joinPath (dir name : String) : String :=
  if dir.toList.getLast? = some '/' then dir ++ name else dir ++ "/" ++ name

/-- The directory of a path. -/
def parent (path : String) : Option String :=
  let trimmed := trimEndSlashes path.toList
  if '/' ∈ trimmed then
    let dir := ((trimmed.reverse.dropWhile (fun c => decide (c ≠ '/'))).drop 1).reverse
    some (if dir.isEmpty then "/" else String.ofList dir)
  else none

/-- The last segment of a path. -/
def nameOf (path : String) : String :=
  String.ofList ((trimEndSlashes path.toList).reverse.takeWhile (fun c => decide (c ≠ '/'))).reverse

/-- The segments of an absolute path, `.` and `..` resolved. -/
def normalizeSegments : List String → List String → Option (List String)
  | parts, [] => some parts
  | parts, seg :: segs =>
    if seg = "" ∨ seg = "." then normalizeSegments parts segs
    else if seg = ".." then
      if parts = [] then none else normalizeSegments parts.dropLast segs
    else normalizeSegments (parts ++ [seg]) segs

/-- Make a path absolute and plain. A path that climbs over the root has none. -/
def normalizePath (path : String) : Option String :=
  if '\x00' ∈ path.toList then none
  else
    (normalizeSegments [] ((path.toList.splitOn '/').map String.ofList)).map
      (fun parts => "/" ++ "/".intercalate parts)

/-! ### Listings -/

/-- A server protocol: what a listing of a directory gives, for each answer of the server. -/
structure RemoteFs where
  Answer : Type
  list : Answer → String → Option (List RemoteEntry)

section
variable (lower : String → String)

/-- Directories first, then by name. -/
def sortEntries (entries : List RemoteEntry) : List RemoteEntry :=
  entries.insertionSort (fun a b =>
    (a.kind = .dir ∧ b.kind ≠ .dir)
      ∨ ((a.kind = .dir ↔ b.kind = .dir) ∧ lower a.name ≤ lower b.name))

/-- What an SFTP server answers to a listing: the canonical directory, and the entries with their
attributes. -/
structure SftpAnswer where
  canonical : Option String
  readDir : Option (List (String × EntryKind × Option ℕ))

/-- List a directory over SFTP. -/
def Sftp.list (answer : SftpAnswer) (_dir : String) : Option (List RemoteEntry) := do
  let dir ← answer.canonical
  let rd ← answer.readDir
  return sortEntries lower
    ((rd.filter (fun e => decide (¬ (e.1 = "." ∨ e.1 = "..")))).map (fun e =>
      ⟨e.1, joinPath dir e.1, e.2.1, e.2.2⟩))

/-- An SFTP session. -/
def Sftp : RemoteFs := ⟨SftpAnswer, Sftp.list lower⟩

/-- A WebDAV collection: the decoded path of its base, and the URL library. -/
structure WebDav where
  basePath : String
  /-- The path of the URL that a reference resolves to, at the URL of a directory. -/
  resolve : String → String → Option String
  percentDecode : String → String

/-- One response of a multistatus. -/
structure DavResponse where
  href : Option String
  isDir : Bool
  size : Option ℕ

/-- A text without the prefix `pre`. -/
def stripPrefix (pre s : List Char) : Option (List Char) :=
  if pre.isPrefixOf s then some (s.drop pre.length) else none

namespace WebDav

/-- What a path is below the base. -/
def belowBase (d : WebDav) (decoded : List Char) : Option (List Char) :=
  if d.basePath = "/" then some decoded
  else Option.filter (fun r => r.isEmpty || decide (r.head? = some '/'))
    (stripPrefix (trimEndSlashes d.basePath.toList) decoded)

/-- The path that a reference of a multistatus names. -/
def hrefToPath (d : WebDav) (dir href : String) : Option String := do
  let resolved ← d.resolve dir href
  let rel ← d.belowBase (d.percentDecode resolved).toList
  let trimmed := trimEndSlashes rel
  return if trimmed.isEmpty then "/" else String.ofList trimmed

/-- The resources that a multistatus names. -/
def parseMultistatus (d : WebDav) (dir : String) (responses : List DavResponse) :
    List (String × Bool × Option ℕ) :=
  responses.filterMap (fun resp =>
    (resp.href.bind (d.hrefToPath dir)).map (fun path => (path, resp.isDir, resp.size)))

/-- The entry of a resource. -/
def intoEntry (res : String × Bool × Option ℕ) : RemoteEntry :=
  ⟨nameOf res.1, res.1, if res.2.1 then .dir else .file, if res.2.1 then none else res.2.2⟩

/-- List a directory over WebDAV. -/
def list (d : WebDav) (answer : Option (List DavResponse)) (dir : String) :
    Option (List RemoteEntry) := do
  let dir ← normalizePath dir
  let found := d.parseMultistatus dir (← answer)
  return sortEntries lower
    ((found.filter (fun r => decide (r.1 ≠ dir ∧ parent r.1 = some dir))).map intoEntry)

/-- A WebDAV session. -/
def fs (d : WebDav) : RemoteFs := ⟨Option (List DavResponse), d.list lower⟩

end WebDav

end

/-! ### Paths that are plain -/

/-- The segments of a plain path are those of the path that are no dots. -/
theorem mem_normalizeSegments {parts segs norm : List String}
    (h : normalizeSegments parts segs = some norm) {x : String} (hx : x ∈ norm) :
  x ∈ parts ∨ (x ∈ segs ∧ x ≠ "" ∧ x ≠ "." ∧ x ≠ "..")
  := by
  induction segs generalizing parts with
  | nil =>
      cases h
      exact .inl hx
  | cons seg segs ih =>
      rw [normalizeSegments] at h
      split at h
      · exact (ih h).imp_right (fun hmem => ⟨List.mem_cons_of_mem _ hmem.1, hmem.2⟩)
      · rename_i hskip
        rw [not_or] at hskip
        split at h
        · split at h
          · cases h
          · rcases ih h with hmem | hmem
            · exact .inl (List.dropLast_subset _ hmem)
            · exact .inr ⟨List.mem_cons_of_mem _ hmem.1, hmem.2⟩
        · rename_i hup
          rcases ih h with hmem | hmem
          · rcases List.mem_append.mp hmem with hmem | hmem
            · exact .inl hmem
            · rw [List.mem_singleton.mp hmem]
              exact .inr ⟨List.mem_cons_self, hskip.1, hskip.2, hup⟩
          · exact .inr ⟨List.mem_cons_of_mem _ hmem.1, hmem.2⟩

/-! ### Names of WebDAV entries -/

theorem slash_not_mem_nameOf (path : String) :
  '/' ∉ (nameOf path).toList
  := by
  rw [nameOf, String.toList_ofList, List.mem_reverse]
  intro h
  simpa using List.mem_takeWhile_imp h

/-- An entry of a WebDAV listing is named by one segment. -/
theorem WebDav.slash_not_mem_name {lower : String → String} {d : WebDav}
    {answer : Option (List DavResponse)} {dir : String} {entries : List RemoteEntry}
    (h : d.list lower answer dir = some entries) {e : RemoteEntry} (he : e ∈ entries) :
  '/' ∉ e.name.toList
  := by
  obtain ⟨dir', -, h⟩ := Option.bind_eq_some_iff.mp h
  obtain ⟨responses, -, h⟩ := Option.bind_eq_some_iff.mp h
  obtain rfl := Option.some.inj h
  rw [sortEntries, List.mem_insertionSort] at he
  obtain ⟨res, -, rfl⟩ := List.mem_map.mp he
  exact slash_not_mem_nameOf res.1

end Termoso.Core
