import Termoso.Lib.FileTree

/-!
# Calls on a file tree

What the calls of an operating system do to a file tree, and which objects they touch: those they
create, delete, move, read, write or change the permissions of.  Looking an object up, or at what
kind of object it is, touches nothing.

`Only L m t` says that a program `m` of such calls, run on the tree `t`, touches only what `L`
allows.
-/

universe u

inductive TouchKind
  | creates
  | deletes
  | renames
  | reads
  | writes
  | permits
deriving DecidableEq

/-- An object is touched. -/
structure Touch where
  kind : TouchKind
  location : Location
deriving DecidableEq

/-- How a program ends, the tree then, and what it touched. -/
structure Disk.Outcome (μ ε : Type) (α : Type u) where
  result : Except ε α
  tree : FileTree μ
  touched : List Touch

/-- A program of calls on a file tree. -/
def Disk (μ ε : Type) (α : Type u) := FileTree μ → Disk.Outcome μ ε α

namespace Disk

variable {μ ε ε' : Type} {α β : Type}

def ret (a : α) : Disk μ ε α := fun t => ⟨.ok a, t, []⟩

def andThen (m : Disk μ ε α) (f : α → Disk μ ε β) : Disk μ ε β := fun t =>
  match m t with
  | ⟨.ok a, t, touched⟩ => ⟨(f a t).result, (f a t).tree, touched ++ (f a t).touched⟩
  | ⟨.error e, t, touched⟩ => ⟨.error e, t, touched⟩

instance : Monad (Disk μ ε) where
  pure := ret
  bind := andThen

def fail (e : ε) : Disk μ ε α := fun t => ⟨.error e, t, []⟩

/-- Look at the tree. -/
def look (f : FileTree μ → Except ε α) : Disk μ ε α := fun t => ⟨f t, t, []⟩

/-- What a program returns, or the error that ends it. -/
def attempt (m : Disk μ ε α) : Disk μ ε' (Except ε α) := fun t =>
  ⟨.ok (m t).result, (m t).tree, (m t).touched⟩

/-- Call an error by another name. -/
def orElse (m : Disk μ ε α) (f : ε → ε') : Disk μ ε' α := fun t =>
  ⟨(m t).result.mapError f, (m t).tree, (m t).touched⟩

/-! ### What a program touches -/

/-- Run on a tree, a program touches only what `L` allows. -/
def Only (L : Touch → Prop) (m : Disk μ ε α) (t : FileTree μ) : Prop :=
  ∀ τ ∈ (m t).touched, L τ

section
variable {L L' : Touch → Prop} {m : Disk μ ε α} {f : α → Disk μ ε β} {t : FileTree μ}

theorem andThen_ok {a : α} (h : (m t).result = .ok a) :
  (m >>= f) t = ⟨(f a (m t).tree).result, (f a (m t).tree).tree,
    (m t).touched ++ (f a (m t).tree).touched⟩
  := by
  change andThen m f t = _
  unfold andThen
  split
  · rename_i b t' touched heq
    rw [heq] at h ⊢
    cases h
    rfl
  · rename_i e t' touched heq
    rw [heq] at h
    cases h

theorem andThen_error {e : ε} (h : (m t).result = .error e) :
  (m >>= f) t = ⟨.error e, (m t).tree, (m t).touched⟩
  := by
  change andThen m f t = _
  unfold andThen
  split
  · rename_i b t' touched heq
    rw [heq] at h
    cases h
  · rename_i e' t' touched heq
    rw [heq] at h ⊢
    cases h
    rfl

/-- A program ends well when its parts do. -/
theorem andThen_eq_ok {b : β} (h : ((m >>= f) t).result = .ok b) :
  ∃ a, (m t).result = .ok a ∧ (f a (m t).tree).result = .ok b
  := by
  cases hm : (m t).result with
  | error e =>
      rw [andThen_error hm] at h
      cases h
  | ok a =>
      rw [andThen_ok hm] at h
      exact ⟨a, rfl, h⟩

/-- A program touches what its parts touch. -/
theorem only_andThen (hm : Only L m t)
    (hf : ∀ a, (m t).result = .ok a → Only L (f a) (m t).tree) :
  Only L (m >>= f) t
  := by
  cases h : (m t).result with
  | error e =>
      rw [Only, andThen_error h]
      exact hm
  | ok a =>
      rw [Only, andThen_ok h]
      intro τ hτ
      rcases List.mem_append.mp hτ with h' | h'
      · exact hm τ h'
      · exact hf a h τ h'

theorem only_ret {a : α} :
  Only L (ret a : Disk μ ε α) t
  := by
  intro τ hτ
  cases hτ

theorem only_fail {e : ε} :
  Only L (fail e : Disk μ ε α) t
  := by
  intro τ hτ
  cases hτ

theorem only_look {g : FileTree μ → Except ε α} :
  Only L (look g) t
  := by
  intro τ hτ
  cases hτ

/-- Looking does not change the tree. -/
theorem only_look_andThen {g : FileTree μ → Except ε α} (hf : ∀ a, g t = .ok a → Only L (f a) t) :
  Only L (look g >>= f) t
  := only_andThen only_look hf

theorem only_orElse {g : ε → ε'} (h : Only L m t) :
  Only L (m.orElse g) t
  := h

end

end Disk

/-! ### Calls -/

/-- How many links a path may go through, and what is known of an object that was just created. -/
structure Platform (μ : Type) where
  hops : ℕ
  fresh : μ

namespace FileTree

variable {μ : Type}

section
variable (P : Platform μ) (t : FileTree μ)

/-- The location of the last name of a path, without following it. -/
def entryAt (path : List String) : Except FileError Location :=
  match path.getLast? with
  | none => .ok []
  | some x => do
    let (dir, _) ← t.resolve false P.hops [] path.dropLast
    if t.isDir dir then return dir ++ [x] else throw .notADirectory

/-- What is at the end of a path, links followed. -/
def canonicalize (path : List String) : Except FileError Location :=
  (t.resolve false P.hops [] path).map Prod.fst

def symlinkMetadata (path : List String) : Except FileError (Node μ) := do
  let p ← t.entryAt P path
  (t.node p).elim (throw .notFound) pure

def metadata (path : List String) : Except FileError (Node μ) := do
  let p ← t.canonicalize P path
  (t.node p).elim (throw .notFound) pure

/-- Put an object where there is none. -/
def create (p : Location) (n : Node μ) : Option (FileTree μ) :=
  match p.getLast? with
  | none => none
  | some x => if h : t.Free p.dropLast x then some (t.add p.dropLast x n h) else none

/-- Move an object to where there is none. -/
def moveTo (p q : Location) : Option (FileTree μ) :=
  match q.getLast? with
  | none => none
  | some x =>
    if h : t.Free q.dropLast x ∧ p ≠ [] ∧ ¬p <+: q.dropLast then
      some (t.move p q.dropLast x h.1 h.2.1 h.2.2)
    else none

/-- Give a file other bytes. -/
def setBytes (p : Location) (f : List UInt8 → List UInt8) : FileTree μ :=
  t.alter p
    (fun n => match n.content with
      | .file bytes => { n with content := .file (f bytes) }
      | _ => n)
    (by
      rintro ⟨content, info⟩
      cases content <;> simp)

/-- Change what is known of an object. -/
def setInfo (p : Location) (f : μ → μ) : FileTree μ :=
  t.alter p (fun n => { n with info := f n.info }) (fun _ => Iff.rfl)

end

section
variable {t t' : FileTree μ} {p q : Location} {x : String} {n : Node μ}

theorem create_eq_some (h : t.create p n = some t') :
  ∃ q x, p = q ++ [x] ∧ t.Free q x ∧ ∀ r, t'.node r = if r = p then some n else t.node r
  := by
  rw [create] at h
  split at h
  · cases h
  · rename_i x hx
    split at h
    · rename_i hfree
      cases h
      refine ⟨p.dropLast, x, (List.dropLast_append_getLast? x hx).symm, hfree, fun r => ?_⟩
      change Function.update t.node (p.dropLast ++ [x]) (some n) r = _
      rw [List.dropLast_append_getLast? x hx, Function.update_apply]
    · cases h

/-- In a directory an entry is created that is not there. -/
theorem create_concat (h : t.Free p x) (n : Node μ) :
  ∃ t', t.create (p ++ [x]) n = some t'
  := by
  rw [create]
  split
  · rename_i hnil
    rw [List.getLast?_concat] at hnil
    cases hnil
  · rename_i y hy
    cases List.getLast?_concat.symm.trans hy
    have hfree : t.Free (p ++ [x]).dropLast x := by
      rw [List.dropLast_concat]
      exact h
    exact ⟨_, dif_pos hfree⟩

end

end FileTree

namespace Disk

open FileTree

variable {μ α : Type} (P : Platform μ)

/-- Change the tree at one location. -/
def change (kind : TouchKind) (p : Location) (t' : FileTree μ) : Disk μ FileError Unit :=
  fun _ => ⟨.ok (), t', [⟨kind, p⟩]⟩

/-- Read an object. -/
def reading (p : Location) (a : α) : Disk μ FileError α := fun t => ⟨.ok a, t, [⟨.reads, p⟩]⟩

/-- Put an object at a location. -/
def createAt (p : Location) (content : Content) : Disk μ FileError Unit := do
  let t ← look .ok
  if (t.node p).isSome then fail .alreadyExists
  else
    match t.create p ⟨content, P.fresh⟩ with
    | some t' => change .creates p t'
    | none => fail .invalidInput

def createDir (path : List String) : Disk μ FileError Unit := do
  let p ← look (fun t => t.entryAt P path)
  createAt P p .dir

/-- Create a directory, or find one. -/
def makeDir (path : List String) : Disk μ FileError Unit := do
  match ← attempt (createDir P path) with
  | .ok () => ret ()
  | .error e =>
    match ← attempt (look (fun t => t.metadata P path)) with
    | .ok n => if n.content = .dir then ret () else fail e
    | .error (_ : FileError) => fail e

/-- Create a directory and those that are missing above it. -/
def createDirAll (path : List String) : Disk μ FileError Unit := do
  match ← attempt (makeDir P path) with
  | .ok () => ret ()
  | .error e =>
    if _here : e = .notFound ∧ path ≠ [] then do
      createDirAll path.dropLast
      makeDir P path
    else fail e
termination_by path.length
decreasing_by
  rw [List.length_dropLast]
  have := List.length_pos_of_ne_nil _here.2
  omega

/-- Move an object and everything below it to a free place. -/
def moveAt (t : FileTree μ) (p q : Location) : Disk μ FileError Unit := fun _ =>
  match t.moveTo p q with
  | some t' => ⟨.ok (), t', [⟨.renames, p⟩, ⟨.creates, q⟩]⟩
  | none => ⟨.error .invalidInput, t, []⟩

/-- Move an object to where there is none. -/
def rename (source dest : List String) : Disk μ FileError Unit := do
  let p ← look (fun t => t.entryAt P source)
  let q ← look (fun t => t.entryAt P dest)
  let t ← look .ok
  if (t.node p).isNone then fail .notFound
  else if (t.node q).isSome then fail .alreadyExists
  else moveAt t p q

/-- Remove an object and everything below it. -/
def pruneAt (t : FileTree μ) (p : Location) : Disk μ FileError Unit := fun _ =>
  if h : p ≠ [] then
    ⟨.ok (), t.prune p h,
      (t.listing.filter (fun r => decide (p <+: r))).map (fun r => ⟨.deletes, r⟩)⟩
  else ⟨.error .invalidInput, t, []⟩

def removeFile (path : List String) : Disk μ FileError Unit := do
  let p ← look (fun t => t.entryAt P path)
  let t ← look .ok
  match t.node p with
  | none => fail .notFound
  | some n => if n.content = .dir then fail .isADirectory else pruneAt t p

def removeDir (path : List String) : Disk μ FileError Unit := do
  let p ← look (fun t => t.entryAt P path)
  let t ← look .ok
  match t.node p with
  | none => fail .notFound
  | some n =>
    if n.content ≠ .dir then fail .notADirectory
    else if t.children p ≠ [] then fail .notEmpty
    else pruneAt t p

/-- Remove a directory tree. Links in it are removed, not followed. -/
def removeDirAll (path : List String) : Disk μ FileError Unit := do
  let p ← look (fun t => t.entryAt P path)
  let t ← look .ok
  match t.node p with
  | none => fail .notFound
  | some n => if n.content ≠ .dir then fail .notADirectory else pruneAt t p

/-- The names in a directory. -/
def readDir (path : List String) : Disk μ FileError (List String) := do
  let p ← look (fun t => t.canonicalize P path)
  let t ← look .ok
  if t.isDir p then reading p (t.children p)
  else fail .notADirectory

/-- What a link holds. -/
def readLink (path : List String) : Disk μ FileError LinkTarget := do
  let p ← look (fun t => t.entryAt P path)
  let t ← look .ok
  match t.node p with
  | none => fail .notFound
  | some n =>
    match n.content with
    | .link target => reading p target
    | _ => fail .invalidInput

/-- The bytes of a file. -/
def readFile (path : List String) : Disk μ FileError (List UInt8) := do
  let p ← look (fun t => t.canonicalize P path)
  let t ← look .ok
  match t.node p with
  | none => fail .notFound
  | some n =>
    match n.content with
    | .file bytes => reading p bytes
    | .dir => fail .isADirectory
    | _ => fail .invalidInput

/-- Change the bytes of a file, which is created if it is not there and `new` is set. -/
def writeFile (new : Bool) (path : List String) (f : List UInt8 → List UInt8) :
    Disk μ FileError Unit := do
  let (p, _) ← look (fun t => t.resolve new P.hops [] path)
  let t ← look .ok
  match t.node p with
  | none => createAt P p (.file (f []))
  | some n =>
    match n.content with
    | .file _ => change .writes p (t.setBytes p f)
    | .dir => fail .isADirectory
    | _ => fail .invalidInput

def setPermissions (path : List String) (f : μ → μ) : Disk μ FileError Unit := do
  let p ← look (fun t => t.canonicalize P path)
  let t ← look .ok
  match t.node p with
  | none => fail .notFound
  | some _ => change .permits p (t.setInfo p f)

/-! ### What the calls touch -/

section
variable {P} {L : Touch → Prop} {t : FileTree μ} {path : List String} {p : Location}

theorem only_moveAt {q : Location} (hsource : L ⟨.renames, p⟩) (hdest : L ⟨.creates, q⟩) :
  Only L (moveAt t p q) t
  := by
  intro τ hτ
  rw [moveAt] at hτ
  split at hτ
  · rcases List.mem_pair.mp hτ with rfl | rfl
    · exact hsource
    · exact hdest
  · cases hτ

theorem only_reading {a : α} (h : L ⟨.reads, p⟩) :
  Only L (reading p a) t
  := by
  intro τ hτ
  cases List.mem_singleton.mp hτ
  exact h

theorem only_change {kind : TouchKind} {t' : FileTree μ} (h : L ⟨kind, p⟩) :
  Only L (change kind p t') t
  := by
  intro τ hτ
  cases List.mem_singleton.mp hτ
  exact h

theorem only_createAt {content : Content} (h : L ⟨.creates, p⟩) :
  Only L (createAt P p content) t
  := by
  refine only_look_andThen (fun t' _ => ?_)
  split
  · exact only_fail
  · split
    · exact only_change h
    · exact only_fail

theorem only_createDir (h : ∀ p, t.entryAt P path = .ok p → L ⟨.creates, p⟩) :
  Only L (createDir P path) t
  := only_look_andThen (fun p hp => only_createAt (h p hp))

theorem only_rename {source dest : List String}
    (hsource : ∀ p, t.entryAt P source = .ok p → L ⟨.renames, p⟩)
    (hdest : ∀ p, t.entryAt P dest = .ok p → L ⟨.creates, p⟩) :
  Only L (rename P source dest) t
  := by
  refine only_look_andThen (fun p hp => only_look_andThen (fun q hq => only_look_andThen ?_))
  rintro t' ⟨⟩
  split
  · exact only_fail
  split
  · exact only_fail
  · exact only_moveAt (hsource p hp) (hdest q hq)

theorem only_pruneAt (h : ∀ r, p <+: r → L ⟨.deletes, r⟩) :
  Only L (pruneAt t p) t
  := by
  intro τ hτ
  rw [pruneAt] at hτ
  split at hτ
  · obtain ⟨r, hr, rfl⟩ := List.mem_map.mp hτ
    exact h r (of_decide_eq_true (List.mem_filter.mp hr).2)
  · cases hτ

section
variable (h : ∀ p r, t.entryAt P path = .ok p → p <+: r → L ⟨.deletes, r⟩)
include h

theorem only_removeFile :
  Only L (removeFile P path) t
  := by
  refine only_look_andThen (fun p hp => only_look_andThen ?_)
  rintro t' ⟨⟩
  split
  · exact only_fail
  split
  · exact only_fail
  · exact only_pruneAt (fun r => h p r hp)

theorem only_removeDir :
  Only L (removeDir P path) t
  := by
  refine only_look_andThen (fun p hp => only_look_andThen ?_)
  rintro t' ⟨⟩
  split
  · exact only_fail
  split
  · exact only_fail
  split
  · exact only_fail
  · exact only_pruneAt (fun r => h p r hp)

theorem only_removeDirAll :
  Only L (removeDirAll P path) t
  := by
  refine only_look_andThen (fun p hp => only_look_andThen ?_)
  rintro t' ⟨⟩
  split
  · exact only_fail
  split
  · exact only_fail
  · exact only_pruneAt (fun r => h p r hp)

end

theorem only_readLink (h : ∀ p, t.entryAt P path = .ok p → L ⟨.reads, p⟩) :
  Only L (readLink P path) t
  := by
  refine only_look_andThen (fun p hp => only_look_andThen ?_)
  rintro t' ⟨⟩
  split
  · exact only_fail
  split
  · exact only_reading (h p hp)
  · exact only_fail

section
variable (h : ∀ p kind, t.canonicalize P path = .ok p → L ⟨kind, p⟩)
include h

theorem only_readDir :
  Only L (readDir P path) t
  := by
  refine only_look_andThen (fun p hp => only_look_andThen ?_)
  rintro t' ⟨⟩
  split
  · exact only_reading (h p _ hp)
  · exact only_fail

theorem only_readFile :
  Only L (readFile P path) t
  := by
  refine only_look_andThen (fun p hp => only_look_andThen ?_)
  rintro t' ⟨⟩
  split
  · exact only_fail
  split
  · exact only_reading (h p _ hp)
  · exact only_fail
  · exact only_fail

theorem only_setPermissions {f : μ → μ} :
  Only L (setPermissions P path f) t
  := by
  refine only_look_andThen (fun p hp => only_look_andThen ?_)
  rintro t' ⟨⟩
  split
  · exact only_fail
  · exact only_change (h p _ hp)

end

theorem only_writeFile {new : Bool} {f : List UInt8 → List UInt8}
    (h : ∀ p left kind, t.resolve new P.hops [] path = .ok (p, left) → L ⟨kind, p⟩) :
  Only L (writeFile P new path f) t
  := by
  refine only_look_andThen (fun p hp => only_look_andThen ?_)
  rintro t' ⟨⟩
  split
  · exact only_createAt (h p.1 p.2 _ hp)
  split
  · exact only_change (h p.1 p.2 _ hp)
  · exact only_fail
  · exact only_fail

end

end Disk
