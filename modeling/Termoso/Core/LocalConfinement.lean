import Termoso.Core.LocalFs
import Termoso.Lib.DiskGrowth
import Termoso.Lib.Result

/-!
# Confinement

No operation on a directory that is served touches an object outside of it, whatever the links in
the tree are.  What a real path leads to is told once for the tree in which it was checked and for
every tree that grows from it, since operations make several calls.

The local file of a download or an upload is named by the caller and may be anywhere.
-/

namespace Termoso.Core

open Disk FileTree

/-! ### Virtual paths -/

theorem isName_of_normalizeSegments {parts segs norm : List String}
    (hparts : ∀ x ∈ parts, IsName x) (h : normalizeSegments parts segs = some norm) :
  ∀ x ∈ norm, IsName x
  := by
  induction segs generalizing parts with
  | nil =>
      cases h
      exact hparts
  | cons seg segs ih =>
      rw [normalizeSegments] at h
      split at h
      · exact ih hparts h
      · rename_i hskip
        rw [not_or] at hskip
        split at h
        · split at h
          · cases h
          · exact ih (fun x hx => hparts x (List.dropLast_subset _ hx)) h
        · rename_i hup
          refine ih (fun x hx => ?_) h
          rcases List.mem_append.mp hx with hx | hx
          · exact hparts x hx
          · rw [List.mem_singleton.mp hx]
            exact ⟨hskip.1, hskip.2, hup⟩

theorem isName_of_virtualPath {path : String} {norm : List String}
    (h : virtualPath path = .ok norm) :
  ∀ x ∈ norm, IsName x
  := by
  rw [virtualPath] at h
  split at h
  · cases h
  · have hsegs := elim_eq_ok.mp h
    exact isName_of_normalizeSegments (fun x hx => by cases hx) hsegs

namespace LocalFs

variable {P : Platform FileInfo} {fs : LocalFs} {t t' : FileTree FileInfo} {path : String}
  {norm real : List String} {lower : String → String} {fuel : ℕ}

/-! ### Where real paths lead -/

/-- The entry that a real path names is inside, also when the tree has grown. -/
def EntryInside (P : Platform FileInfo) (root : Location) (real : List String)
    (t : FileTree FileInfo) : Prop :=
  ∀ t', Grown t t' → ∀ p, t'.entryAt P real = .ok p → root <+: p

/-- What a real path leads to is inside, also when the tree has grown. -/
def TargetInside (P : Platform FileInfo) (root : Location) (real : List String)
    (t : FileTree FileInfo) : Prop :=
  ∀ t', Grown t t' → ∀ new p left, t'.resolve new P.hops [] real = .ok (p, left) → root <+: p

theorem TargetInside.grown {root : Location} (h : TargetInside P root real t) (ht : Grown t t') :
  TargetInside P root real t'
  := fun t'' ht'' => h t'' (ht.trans ht'')

theorem TargetInside.canonical {root : Location} (h : TargetInside P root real t) {p : Location}
    (hp : t.canonicalize P real = .ok p) :
  root <+: p
  := by
  obtain ⟨left, hp⟩ := canonicalize_eq_ok.mp hp
  exact h t (Grown.refl t) false p left hp

theorem confine_eq_ok {probe : List String} {u : Unit} (h : fs.confine P t norm probe = .ok u) :
  ∃ c, t.canonicalize P probe = .ok c ∧ fs.root <+: c
  := by
  rw [confine] at h
  split at h
  · rename_i c hc
    split at h
    · exact ⟨c, hc, ‹_›⟩
    · cases h
  · cases h

theorem confine_of_inside {probe : List String} {c : Location}
    (hc : t.canonicalize P probe = .ok c) (hinside : fs.root <+: c) :
  fs.confine P t norm probe = .ok ()
  := by
  rw [confine, hc]
  exact if_pos hinside

/-- A path that is located names the root, or an entry of a directory inside. -/
theorem locate_eq_ok (h : fs.locate P t path = .ok (norm, real)) :
  real = fs.root ++ norm ∧ (∀ x ∈ norm, IsName x) ∧
    (norm ≠ [] → ∃ c, t.canonicalize P real.dropLast = .ok c ∧ fs.root <+: c)
  := by
  rw [locate] at h
  obtain ⟨⟨norm', real'⟩, hreal, h⟩ := bind_eq_ok.mp h
  rw [LocalFs.real] at hreal
  obtain ⟨norm'', hvirtual, hreal⟩ := bind_eq_ok.mp hreal
  cases hreal
  have hnames := isName_of_virtualPath hvirtual
  dsimp only at h
  split at h
  · obtain ⟨u, hconfine, h⟩ := bind_eq_ok.mp h
    cases h
    exact ⟨rfl, hnames, fun _ => confine_eq_ok hconfine⟩
  · rename_i hroot
    cases h
    refine ⟨rfl, hnames, fun hnorm => absurd ?_ hroot⟩
    constructor
    · intro hnil
      exact hnorm (List.append_eq_nil_iff.mp hnil).2
    · intro heq
      exact hnorm (List.append_right_eq_self.mp heq)

theorem entryInside_root (hroot : t.isDir fs.root = true) :
  EntryInside P fs.root fs.root t
  := by
  intro t' ht p hp
  rw [entryAt_location (isSome_of_isDir (ht.isDir hroot))] at hp
  cases hp
  exact List.prefix_rfl

/-- A path that is located names an entry inside. -/
theorem entryInside_of_locate (hroot : t.isDir fs.root = true)
    (h : fs.locate P t path = .ok (norm, real)) :
  EntryInside P fs.root real t
  := by
  obtain ⟨rfl, -, hparent⟩ := locate_eq_ok h
  cases norm using List.reverseRecOn with
  | nil =>
      rw [List.append_nil]
      exact entryInside_root hroot
  | append_singleton norm x =>
      obtain ⟨c, hc, hinside⟩ := hparent (by simp)
      rw [← List.append_assoc, List.dropLast_concat] at hc
      obtain ⟨left, hc⟩ := canonicalize_eq_ok.mp hc
      intro t' ht p hp
      rw [← List.append_assoc] at hp
      obtain ⟨d, left', hd, -, rfl⟩ := entryAt_concat.mp hp
      cases (ht.resolve hc false).symm.trans hd
      exact hinside.trans (List.prefix_append _ _)

theorem locateTarget_eq_ok (h : fs.locateTarget P t path = .ok (norm, real)) :
  fs.locate P t path = .ok (norm, real) ∧
    ((∃ c, t.canonicalize P real = .ok c ∧ fs.root <+: c) ∨
      t.symlinkMetadata P real = .error .notFound)
  := by
  rw [locateTarget] at h
  obtain ⟨⟨norm', real'⟩, hlocate, h⟩ := bind_eq_ok.mp h
  dsimp only at h
  cases hmeta : t.symlinkMetadata P real' with
  | ok n =>
      rw [hmeta] at h
      obtain ⟨u, hconfine, h⟩ := bind_eq_ok.mp h
      cases h
      exact ⟨hlocate, .inl (confine_eq_ok hconfine)⟩
  | error e =>
      rw [hmeta] at h
      cases e <;> cases h
      exact ⟨hlocate, .inr hmeta⟩

/-- A path that is located and where there is nothing leads to inside when it is created. -/
theorem targetInside_of_missing (hroot : t.isDir fs.root = true)
    (h : fs.locate P t path = .ok (norm, real)) (hmissing : ∀ n, t.symlinkMetadata P real ≠ .ok n) :
  TargetInside P fs.root real t
  := by
  obtain ⟨hreal, hnames, hparent⟩ := locate_eq_ok h
  cases norm using List.reverseRecOn with
  | nil =>
      rw [List.append_nil] at hreal
      obtain ⟨n, hn⟩ := Option.isSome_iff_exists.mp (isSome_of_isDir hroot)
      have hfound := entryAt_location (P := P) (isSome_of_isDir hroot)
      rw [← hreal] at hfound hn
      exact absurd (symlinkMetadata_eq_ok.mpr ⟨real, hfound, hn⟩) (hmissing n)
  | append_singleton norm x =>
      rw [← List.append_assoc] at hreal
      obtain ⟨c, hc, hinside⟩ := hparent (by simp)
      rw [hreal, List.dropLast_concat] at hc
      obtain ⟨left, hc⟩ := canonicalize_eq_ok.mp hc
      intro t' ht new p left' hp
      rw [hreal] at hp
      obtain ⟨d, left'', hd, hdir, hstep⟩ := resolve_split (isDir_top t') (by simp) hp
      cases (ht.resolve hc false).symm.trans hd
      have hx := hnames x (by simp)
      have hnone : t.node (c ++ [x]) = none := by
        by_contra hsome
        obtain ⟨n, hn⟩ := Option.ne_none_iff_exists'.mp hsome
        refine hmissing n (symlinkMetadata_eq_ok.mpr ⟨c ++ [x], ?_, hn⟩)
        rw [hreal]
        exact entryAt_concat.mpr ⟨c, left, hc, isDir_of_node hn, rfl⟩
      rw [resolve_name hx (ht.not_link hnone) hstep]
      exact hinside.trans (List.prefix_append _ _)

/-- A path whose target is located leads to inside, and so it does when it is created. -/
theorem targetInside_of_locateTarget (hroot : t.isDir fs.root = true)
    (h : fs.locateTarget P t path = .ok (norm, real)) :
  TargetInside P fs.root real t
  := by
  obtain ⟨hlocate, ⟨c, hc, hinside⟩ | hmissing⟩ := locateTarget_eq_ok h
  · obtain ⟨left, hc⟩ := canonicalize_eq_ok.mp hc
    intro t' ht new p left' hp
    cases (ht.resolve hc new).symm.trans hp
    exact hinside
  · refine targetInside_of_missing hroot hlocate (fun n hn => ?_)
    rw [hmissing] at hn
    cases hn

/-! ### What the operations touch -/

/-- An object inside a directory. -/
def Inside (root : Location) (τ : Touch) : Prop := root <+: τ.location

section
variable {root : Location}

theorem extends_createDir (h : EntryInside P root real t) :
  Extends (Inside root) (createDir P real) t
  := ⟨only_createDir (fun p hp => h t (Grown.refl t) p hp), grows_createDir⟩

theorem extends_readLink (h : EntryInside P root real t) :
  Extends (Inside root) (readLink P real) t
  := ⟨only_readLink (fun p hp => h t (Grown.refl t) p hp), grows_readLink⟩

theorem extends_readFile (h : TargetInside P root real t) :
  Extends (Inside root) (readFile P real) t
  := ⟨only_readFile (fun _ _ hp => h.canonical hp), grows_readFile⟩

theorem extends_readDir (h : TargetInside P root real t) :
  Extends (Inside root) (readDir P real) t
  := ⟨only_readDir (fun _ _ hp => h.canonical hp), grows_readDir⟩

theorem extends_writeFile (h : TargetInside P root real t) {new : Bool}
    {f : List UInt8 → List UInt8} :
  Extends (Inside root) (writeFile P new real f) t
  := ⟨only_writeFile (fun p left _ hp => h t (Grown.refl t) new p left hp), grows_writeFile⟩

theorem extends_setPermissions (h : TargetInside P root real t) {f : FileInfo → FileInfo} :
  Extends (Inside root) (setPermissions P real f) t
  := ⟨only_setPermissions (fun _ _ hp => h.canonical hp), grows_setPermissions⟩

theorem extends_linkInfo (h : EntryInside P root real t) :
  Extends (Inside root) (fs.linkInfo P real) t
  := extends_andThen (extends_attempt (extends_readLink h))
    (fun _ _ _ => extends_look_andThen (fun _ _ => extends_ret))

theorem extends_entry (h : EntryInside P root real t) :
  Extends (Inside root) (fs.entry P norm real) t
  := by
  refine extends_orElse_andThen (fun node _ => extends_andThen ?_ (fun _ _ _ => extends_ret))
  rw [linksOf]
  split
  · exact extends_linkInfo h
  · exact extends_ret

/-- The entries of a directory inside are inside. -/
theorem entryInside_child (h : TargetInside P root real t) (name : String) :
  EntryInside P root (real ++ [name]) t
  := by
  intro t' ht p hp
  obtain ⟨d, left, hd, -, rfl⟩ := entryAt_concat.mp hp
  exact (h t' ht false d left hd).trans (List.prefix_append _ _)

theorem extends_entries (h : TargetInside P root real t) (names : List String) :
  Extends (Inside root) (fs.entries P norm real names) t
  := by
  induction names generalizing t with
  | nil => exact extends_ret
  | cons name names ih =>
      refine extends_andThen (extends_attempt (extends_entry (entryInside_child h name)))
        (fun _ ht _ => extends_andThen (ih (h.grown ht)) (fun _ _ _ => extends_ret))

/-! ### Copies -/

/-- A directory to be copied and the one for the copy are inside, and the second is new. -/
def PairInside (P : Platform FileInfo) (root : Location) (t₀ t : FileTree FileInfo)
    (pair : List String × List String) : Prop :=
  (∃ c, t.canonicalize P pair.1 = .ok c ∧ root <+: c) ∧
    ∃ c, t.canonicalize P pair.2 = .ok c ∧ root <+: c ∧ t.isDir c = true ∧ t₀.node c = none

theorem PairInside.grown {t₀ : FileTree FileInfo} {pair : List String × List String}
    (h : PairInside P root t₀ t pair) (ht : Grown t t') :
  PairInside P root t₀ t' pair
  := by
  obtain ⟨⟨c, hc, hinside⟩, c', hc', hinside', hdir, hnew⟩ := h
  exact ⟨⟨c, canonicalize_grown ht hc, hinside⟩, c', canonicalize_grown ht hc', hinside',
    ht.isDir hdir, hnew⟩

/-- What a directory path leads to, inside, is inside also after the tree has grown. -/
theorem targetInside_of_canonicalize {c : Location} (hc : t.canonicalize P real = .ok c)
    (hinside : root <+: c) :
  TargetInside P root real t
  := by
  obtain ⟨left, hc⟩ := canonicalize_eq_ok.mp hc
  intro t' ht new p left' hp
  cases (ht.resolve hc new).symm.trans hp
  exact hinside

/-- An entry of a new directory leads to inside. -/
theorem targetInside_new {t₀ : FileTree FileInfo} (ht₀ : Grown t₀ t) {c : Location} {name : String}
    (hc : t.canonicalize P real = .ok c) (hinside : root <+: c) (hnew : t₀.node c = none)
    (hname : IsName name) :
  TargetInside P root (real ++ [name]) t
  := by
  obtain ⟨left, hc⟩ := canonicalize_eq_ok.mp hc
  intro t' ht new p left' hp
  obtain ⟨d, left'', hd, -, hstep⟩ := resolve_split (isDir_top t') (by simp) hp
  cases (ht.resolve hc false).symm.trans hd
  have hnone := node_eq_none hnew (List.prefix_append c [name])
  rw [resolve_name hname ((ht₀.trans ht).not_link hnone) hstep]
  exact hinside.trans (List.prefix_append _ _)

theorem extends_copyFile {dest : List String} (hsource : TargetInside P root real t)
    (hdest : TargetInside P root dest t) :
  Extends (Inside root) (copyFile P real dest) t
  := by
  refine extends_look_andThen (fun node _ => ?_)
  refine extends_andThen (extends_readFile hsource) (fun _ ht _ => ?_)
  refine extends_andThen (extends_writeFile (hdest.grown ht)) (fun _ ht' _ => ?_)
  exact extends_setPermissions ((hdest.grown ht).grown ht')

/-- An entry that is a file, or a directory, has a name and leads to itself. -/
theorem entry_child {src : List String} {name : String} {c : Location} {node : Node FileInfo}
    (hc : t.canonicalize P src = .ok c)
    (hnode : t.symlinkMetadata P (src ++ [name]) = .ok node)
    (hlink : ∀ target, node.content ≠ .link target) :
  IsName name ∧ t.canonicalize P (src ++ [name]) = .ok (c ++ [name]) ∧
    t.node (c ++ [name]) = some node
  := by
  obtain ⟨left, hc⟩ := canonicalize_eq_ok.mp hc
  obtain ⟨p, hp, hn⟩ := symlinkMetadata_eq_ok.mp hnode
  have hself := canonicalize_of_entryAt hp hn hlink
  obtain ⟨d, left', hd, -, rfl⟩ := entryAt_concat.mp hp
  cases hc.symm.trans hd
  exact ⟨(t.parents c name node hn).1, hself, hn⟩

/-- A pair of directories that a pair leaves to be walked. -/
theorem pairInside_created {t₀ : FileTree FileInfo} (ht₀ : Grown t₀ t) {src dst : List String}
    {name : String} (hpair : PairInside P root t₀ t (src, dst)) {node : Node FileInfo}
    (hnode : t.symlinkMetadata P (src ++ [name]) = .ok node) (hdir : node.content = .dir)
    {u : Unit} (hcreate : (createDir P (dst ++ [name]) t).result = .ok u) :
  PairInside P root t₀ (createDir P (dst ++ [name]) t).tree (src ++ [name], dst ++ [name])
  := by
  obtain ⟨⟨c, hc, hinside⟩, c', hc', hinside', -, hnew⟩ := hpair
  obtain ⟨p, hentry, hnone, hp, hpdir⟩ := createDir_ok hcreate
  obtain ⟨-, hsource, -⟩ := entry_child hc hnode (fun _ h => by rw [hdir] at h; cases h)
  have hdst := entryInside_child (targetInside_of_canonicalize hc' hinside') name
  exact ⟨⟨c ++ [name], canonicalize_grown grows_createDir hsource,
      hinside.trans (List.prefix_append _ _)⟩,
    p, hp, hdst t (Grown.refl t) p hentry, hpdir, node_of_grown ht₀ hnone⟩

/-- Copying entries stays inside, and so do the pairs of directories that it leaves to be walked. -/
theorem leaves_copyEntries {t₀ : FileTree FileInfo} {src dst : List String} (names : List String)
    {stack : List (List String × List String)} (ht₀ : Grown t₀ t)
    (hpair : PairInside P root t₀ t (src, dst))
    (hstack : ∀ pair ∈ stack, PairInside P root t₀ t pair) :
  Leaves (Inside root) (fun stack' t' => ∀ pair ∈ stack', PairInside P root t₀ t' pair)
    (copyEntries P src dst names stack) t
  := by
  induction names generalizing t stack with
  | nil => exact leaves_ret hstack
  | cons name names ih =>
      obtain ⟨⟨c, hc, hinside⟩, c', hc', hinside', hdir', hnew⟩ := hpair
      have hpair : PairInside P root t₀ t (src, dst) :=
        ⟨⟨c, hc, hinside⟩, c', hc', hinside', hdir', hnew⟩
      refine leaves_look_andThen (fun node hnode => ?_)
      have hdst := targetInside_of_canonicalize hc' hinside'
      split
      · rename_i hdir
        refine leaves_andThen (extends_createDir (entryInside_child hdst name)) (fun u ht hu => ?_)
        refine ih (ht₀.trans ht) (hpair.grown ht) (fun pair hmem => ?_)
        rcases List.mem_cons.mp hmem with rfl | hmem
        · exact pairInside_created ht₀ hpair hnode hdir hu
        · exact (hstack pair hmem).grown ht
      · rename_i bytes hfile
        obtain ⟨hname, hsource, -⟩ := entry_child hc hnode (fun _ h => by rw [hfile] at h; cases h)
        have hcopy : Extends (Inside root) (copyFile P (src ++ [name]) (dst ++ [name])) t :=
          extends_copyFile
            (targetInside_of_canonicalize hsource (hinside.trans (List.prefix_append _ _)))
            (targetInside_new ht₀ hc' hinside' hnew hname)
        refine leaves_andThen hcopy (fun u ht _ => ?_)
        exact ih (ht₀.trans ht) (hpair.grown ht) (fun pair hmem => (hstack pair hmem).grown ht)
      · exact ih ht₀ hpair hstack

/-- So does the whole walk. -/
theorem extends_walk {t₀ : FileTree FileInfo} (fuel : ℕ) {stack : List (List String × List String)}
    (ht₀ : Grown t₀ t) (hstack : ∀ pair ∈ stack, PairInside P root t₀ t pair) :
  Extends (Inside root) (walk P fuel stack) t
  := by
  induction fuel generalizing t stack with
  | zero =>
      cases stack with
      | nil => exact extends_ret
      | cons pair stack => exact extends_ret
  | succ fuel ih =>
      cases stack with
      | nil => exact extends_ret
      | cons pair stack =>
          obtain ⟨src, dst⟩ := pair
          have hpair := hstack (src, dst) List.mem_cons_self
          obtain ⟨⟨c, hc, hinside⟩, -⟩ := hpair
          refine extends_andThen
            (extends_readDir (targetInside_of_canonicalize hc hinside)) (fun names ht _ => ?_)
          have hleaves := leaves_copyEntries names (ht₀.trans ht)
            ((hstack (src, dst) List.mem_cons_self).grown ht)
            (fun pair hmem => (hstack pair (List.mem_cons_of_mem _ hmem)).grown ht)
          refine extends_andThen hleaves.1 (fun stack' ht' hstack' => ?_)
          exact ih ((ht₀.trans ht).trans ht') (hleaves.2 stack' hstack')

/-- A tree that is inside is copied inside. -/
theorem extends_copyTree {source dest : List String} (hsource : TargetInside P root source t)
    (hentry : EntryInside P root dest t) (htarget : TargetInside P root dest t) :
  Extends (Inside root) (copyTree P fuel source dest) t
  := by
  refine extends_orElse_andThen (fun node hnode => ?_)
  split
  · rename_i hdir
    refine extends_andThen (extends_orElse (extends_createDir hentry)) (fun u ht hu => ?_)
    obtain ⟨p, hp, hnone, hcanonical, hpdir⟩ := createDir_ok (mapError_eq_ok.mp hu)
    obtain ⟨c, hc, hn⟩ := symlinkMetadata_eq_ok.mp hnode
    have hc := canonicalize_of_entryAt hc hn (fun _ h => by rw [hdir] at h; cases h)
    refine extends_orElse (extends_walk fuel ht (fun pair hpair => ?_))
    cases List.mem_singleton.mp hpair
    exact ⟨⟨c, canonicalize_grown ht hc, hsource.canonical hc⟩,
      p, hcanonical, hentry t (Grown.refl t) p hp, hpdir, hnone⟩
  · exact extends_andThen (extends_orElse (extends_copyFile hsource htarget))
      (fun _ _ _ => extends_ret)
  · exact extends_fail

end

end LocalFs

end Termoso.Core
