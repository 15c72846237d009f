import Termoso.Core.LocalConfinement

/-!
# What operations touch and answer

Each operation on a directory that is served touches objects inside only, and what it answers
describes objects inside.  The local file of a download or an upload is named by the caller and may
be anywhere: a download writes it, and creates it and the directories above it, and an upload reads
it.
-/

namespace Termoso.Core

open Disk FileTree

namespace LocalFs

variable {P : Platform FileInfo} {fs : LocalFs} {t t' : FileTree FileInfo} {path : String}
  {norm real : List String} {lower : String → String} {fuel : ℕ} {root : Location}

/-! ### Answers -/

/-- An entry tells what is at a location inside. -/
structure Describes (root : Location) (t : FileTree FileInfo) (p : Location) (e : LocalEntry) :
    Prop where
  inside : root <+: p
  there : ∃ n, t.node p = some n ∧ e.kind = kindOf n.content ∧ e.info = n.info ∧
    e.size = (match n.content with | .file bytes => some bytes.length | _ => none) ∧
    ∀ target, e.linkTarget = some target → n.content = .link target
  target : ∀ kind, e.targetKind = some kind →
    ∃ q n, root <+: q ∧ t.node q = some n ∧ kind = kindOf n.content

/-- What is in an answer is in objects inside. -/
def Shows (root : Location) (t : FileTree FileInfo) : Answer → Prop
  | .bytes b => ∃ p n, root <+: p ∧ t.node p = some n ∧ n.content = .file b
  | .entry e => ∃ p, Describes root t p e
  | .entries es => ∀ e ∈ es, ∃ p, Describes root t p e ∧ p.getLast? = some e.name
  | .handle p => root <+: p
  | _ => True

/-- An operation that lets the tree grow touches objects inside and answers what is there. -/
abbrev Serves (fs : LocalFs) (m : Disk FileInfo LocalError Answer) (t : FileTree FileInfo) : Prop :=
  Leaves (Inside fs.root) (fun a t' => Shows fs.root t' a) m t

theorem readLink_tree :
  (readLink P real t).tree = t
  := by
  rcases readLink_cases P t real with ⟨_, _, _, _, _, _, h⟩ | ⟨_, h⟩ <;> rw [h]

theorem linkInfo_tree :
  (fs.linkInfo P real t).tree = t
  := tree_andThen readLink_tree (fun _ _ => tree_andThen rfl (fun _ _ => rfl))

theorem entry_tree :
  (fs.entry P norm real t).tree = t
  := by
  refine tree_andThen rfl (fun node _ => tree_andThen ?_ (fun _ _ => rfl))
  rw [linksOf]
  split
  · exact linkInfo_tree
  · rfl

theorem yields_linkInfo {p : Location} {n : Node FileInfo} (hp : t.entryAt P real = .ok p)
    (hn : t.node p = some n) :
  Yields (fun links _ => (∀ target, links.1 = some target → n.content = .link target) ∧
      ∀ kind, links.2 = some kind → ∃ q n, fs.root <+: q ∧ t.node q = some n ∧
        kind = kindOf n.content)
    (fs.linkInfo P real) t
  := by
  refine yields_andThen (fun target htarget => ?_)
  refine yields_andThen (fun kind hkind => yields_ret ⟨fun target' heq => ?_, fun kind' heq => ?_⟩)
  · have hread : (readLink P real t).result = target := Except.ok.inj htarget
    rcases readLink_cases P t real with ⟨p', n', l, hp', hn', hl, h⟩ | ⟨e, h⟩
    · cases hp.symm.trans hp'
      cases hn.symm.trans hn'
      rw [h] at hread
      rw [← hread] at heq
      cases heq
      exact hl
    · rw [h] at hread
      rw [← hread] at heq
      cases heq
  · have hkind := Except.ok.inj hkind
    rw [show ((readLink P real).attempt t : Disk.Outcome FileInfo LocalError _).tree = t from
      readLink_tree, show kind = some kind' from heq] at hkind
    split at hkind
    · rename_i c hc
      split at hkind
      · rename_i hinside
        obtain ⟨m, hm, rfl⟩ := Option.map_eq_some_iff.mp hkind
        obtain ⟨q, hq, hm⟩ := metadata_eq_ok.mp (toOption_eq_some.mp hm)
        obtain ⟨left, hc⟩ := canonicalize_eq_ok.mp hc
        have hself : t.resolve false P.hops [] c = .ok (c, P.hops) :=
          resolve_location (isSome_of_resolve (isDir_top t) hc)
            (shapeAt_of_resolve (isDir_top t) hc)
        cases hq.symm.trans (canonicalize_eq_ok.mpr ⟨_, hself⟩)
        exact ⟨c, m, hinside, hm, rfl⟩
      · cases hkind
    · cases hkind

/-- What is told of an entry inside. -/
theorem yields_entry (h : EntryInside P fs.root real t) :
  Yields (fun e _ => ∃ p, t.entryAt P real = .ok p ∧ Describes fs.root t p e ∧
      e.name = norm.getLast?.getD "")
    (fs.entry P norm real) t
  := by
  refine yields_andThen (fun node hnode => ?_)
  obtain ⟨p, hp, hn⟩ := symlinkMetadata_eq_ok.mp (mapError_eq_ok.mp hnode)
  have hinside := h t (Grown.refl t) p hp
  refine yields_andThen (fun links hlinks => yields_ret ?_)
  refine ⟨p, hp, ⟨hinside, ⟨node, hn, rfl, rfl, rfl, ?_⟩, ?_⟩, rfl⟩
  all_goals
    change (fs.linksOf P node real t).result = .ok links at hlinks
    rw [linksOf] at hlinks
    split at hlinks
  · exact (yields_linkInfo hp hn links hlinks).1
  · cases hlinks
    intro target htarget
    cases htarget
  · exact (yields_linkInfo hp hn links hlinks).2
  · cases hlinks
    intro kind hkind
    cases hkind

theorem entries_tree (names : List String) :
  (fs.entries P norm real names t).tree = t
  := by
  induction names with
  | nil => rfl
  | cons name names ih =>
      exact tree_andThen entry_tree (fun _ _ => tree_andThen ih (fun _ _ => rfl))

theorem yields_entries (h : TargetInside P fs.root real t) (names : List String) :
  Yields (fun es _ => ∀ e ∈ es, ∃ p, Describes fs.root t p e ∧ p.getLast? = some e.name)
    (fs.entries P norm real names) t
  := by
  induction names with
  | nil => exact yields_ret (fun e he => by cases he)
  | cons name names ih =>
      refine yields_andThen (fun e he => ?_)
      have htree : ((fs.entry P (norm ++ [name]) (real ++ [name])).attempt t :
          Disk.Outcome FileInfo LocalError _).tree = t := entry_tree
      rw [htree]
      refine yields_andThen (fun es hes => yields_ret (fun e' he' => ?_))
      rcases List.mem_append.mp he' with he' | he'
      · have hresult : (fs.entry P (norm ++ [name]) (real ++ [name]) t).result = e :=
          Except.ok.inj he
        rw [Option.mem_toList, toOption_eq_some] at he'
        obtain ⟨p, hp, hdescribes, hname⟩ :=
          yields_entry (entryInside_child h name) e' (hresult.trans he')
        refine ⟨p, hdescribes, ?_⟩
        obtain ⟨d, left, -, -, rfl⟩ := entryAt_concat.mp hp
        rw [hname, List.getLast?_concat, List.getLast?_concat]
        rfl
      · exact ih es hes e' he'

theorem yields_canonicalize (h : TargetInside P root real t) :
  Yields (fun p _ => root <+: p) (look (fun t => t.canonicalize P real)) t
  := fun _ hp => h.canonical hp

theorem leaves_openHandle (mode : OpenMode) (h : TargetInside P root real t) :
  Leaves (Inside root) (fun p _ => root <+: p) (openHandle P mode real) t
  := by
  have hlook : ∀ t', Grown t t' → Leaves (Inside root) (fun p _ => root <+: p)
      (look (fun t => t.canonicalize P real)) t' :=
    fun t' ht => ⟨extends_look, yields_canonicalize (h.grown ht)⟩
  cases mode with
  | read => exact leaves_andThen (extends_readFile h) (fun _ ht _ => hlook _ ht)
  | write => exact leaves_andThen (extends_writeFile h) (fun _ ht _ => hlook _ ht)
  | readWrite =>
      refine leaves_andThen (extends_writeFile h) (fun _ ht _ => ?_)
      exact leaves_andThen (extends_readFile (h.grown ht)) (fun _ ht' _ => hlook _ (ht.trans ht'))

/-! ### Directories that are missing -/

theorem deepest_above (P : Platform FileInfo) (t : FileTree FileInfo) (path : List String) :
  deepest P t path <+: path
  := by
  fun_induction deepest P t path with
  | case1 => exact List.prefix_rfl
  | case2 path _ ih => exact ih.trans (List.dropLast_prefix path)

/-- Everything on a path that exists is above the deepest. -/
theorem prefix_deepest {path probe : List String} (hpre : probe <+: path)
    (h : (t.symlinkMetadata P probe).toOption.isSome) :
  probe <+: deepest P t path
  := by
  fun_induction deepest P t path with
  | case1 => exact hpre
  | case2 path hmissing ih =>
      apply ih
      rw [not_or] at hmissing
      rw [← List.dropLast_append_getLast hmissing.2] at hpre
      rcases List.prefix_concat_iff.mp hpre with rfl | hpre
      · rw [List.dropLast_append_getLast] at h
        exact absurd h hmissing.1
      · exact hpre

/-- The directories that are created below the deepest one that exists are inside. -/
theorem inside_of_createDirAll (hroot : t.isDir fs.root = true) (hnames : ∀ x ∈ norm, IsName x)
    {c : Location} (hc : t.canonicalize P (deepest P t (fs.root ++ norm)) = .ok c)
    (hinside : fs.root <+: c) {τ : Touch}
    (hτ : τ ∈ (createDirAll P (fs.root ++ norm) t).touched) :
  Inside fs.root τ
  := by
  have ht : Grown t (createDirAll P (fs.root ++ norm) t).tree := grows_createDirAll
  obtain ⟨-, hnone, q, hq, hfound⟩ := createDirAll_touched P t _ τ hτ
  have hnot := not_prefix_of_missing hnone hfound ht hc
  obtain ⟨n, hn⟩ := Option.isSome_iff_exists.mp (isSome_of_isDir hroot)
  have hrootProbe : fs.root <+: deepest P t (fs.root ++ norm) := by
    apply prefix_deepest (List.prefix_append _ _)
    rw [symlinkMetadata_eq_ok.mpr ⟨fs.root, entryAt_location (isSome_of_isDir hroot), hn⟩]
    rfl
  have hdeepest := deepest_above P t (fs.root ++ norm)
  have hmax := fun probe => @prefix_deepest P t (fs.root ++ norm) probe
  revert hc hnot hrootProbe hdeepest hmax
  generalize deepest P t (fs.root ++ norm) = probe
  intro hc hnot hrootProbe hdeepest hmax
  obtain ⟨left, hc⟩ := canonicalize_eq_ok.mp hc
  obtain ⟨left', hfound⟩ := canonicalize_eq_ok.mp hfound
  -- The object is below the probe, by names that the path has.
  obtain ⟨r, rfl⟩ := (List.prefix_or_prefix_of_prefix hq hdeepest).resolve_left hnot
  obtain ⟨above, rfl⟩ := hrootProbe
  cases r with
  | nil => exact absurd (by rw [List.append_nil]) hnot
  | cons x r =>
      obtain ⟨d, left'', hd, -, hstep⟩ := resolve_split (isDir_top _) (by simp) hfound
      cases (ht.resolve hc false).symm.trans hd
      have hnew : t.node (c ++ [x]) = none := by
        by_contra hsome
        obtain ⟨m, hm⟩ := Option.ne_none_iff_exists'.mp hsome
        have hentry : t.entryAt P (fs.root ++ above ++ [x]) = .ok (c ++ [x]) :=
          entryAt_concat.mpr ⟨c, left, hc, isDir_of_node hm, rfl⟩
        have hpre : fs.root ++ above ++ [x] <+: fs.root ++ norm := by
          apply List.IsPrefix.trans _ hq
          exact (List.prefix_append_right_inj _).mpr (List.prefix_append [x] r)
        have hlength := (hmax _ hpre (by
          rw [symlinkMetadata_eq_ok.mpr ⟨_, hentry, hm⟩]
          rfl)).length_le
        rw [List.length_append, List.length_singleton] at hlength
        omega
      rw [Inside, resolve_names ?_ ?_ hstep]
      · exact hinside.trans (List.prefix_append _ _)
      · intro y hy
        apply hnames
        rw [List.append_assoc, List.prefix_append_right_inj] at hq
        exact hq.subset (List.mem_append_right _ hy)
      · rintro (_ | ⟨y, s⟩) target hs hpre
        · exact absurd rfl hs
        · obtain ⟨rfl, -⟩ := List.cons_prefix_cons.mp hpre
          apply ht.not_link (node_eq_none hnew _) target
          exact (List.prefix_append_right_inj _).mpr (List.prefix_append [y] s)

/-! ### Operations that let the tree grow -/

theorem serves_canonicalize :
  Serves fs (fs.canonicalize P path) t
  := by
  refine leaves_look_andThen (fun located _ => ?_)
  obtain ⟨norm, real⟩ := located
  refine leaves_andThen (extends_attempt extends_look) (fun r _ _ => ?_)
  split
  · rename_i c _
    cases fs.virt c with
    | none => exact leaves_fail
    | some p => exact leaves_ret trivial
  · exact leaves_ret trivial
  · exact leaves_fail

theorem serves_exists :
  Serves fs (fs.exists_ P path) t
  := by
  refine leaves_andThen (extends_attempt extends_look) (fun r _ _ => ?_)
  split
  · refine ⟨extends_look, fun a ha => ?_⟩
    cases ha
    exact trivial
  · exact leaves_ret trivial
  · exact leaves_fail

section
variable (hroot : t.isDir fs.root = true)
include hroot

theorem serves_list :
  Serves fs (fs.list P lower path) t
  := by
  refine leaves_look_andThen (fun located h => ?_)
  obtain ⟨norm, real⟩ := located
  have hinside := targetInside_of_locateTarget hroot h
  refine leaves_andThen (extends_orElse (extends_readDir hinside)) (fun names ht hnames => ?_)
  refine leaves_andThen (extends_entries (hinside.grown ht) names) (fun es ht' hes => ?_)
  refine leaves_ret (fun e he => ?_)
  have he := (List.mem_insertionSort _).mp he
  rw [entries_tree]
  exact yields_entries (hinside.grown ht) names es hes e he

theorem serves_stat :
  Serves fs (fs.stat P path) t
  := by
  refine leaves_look_andThen (fun located h => ?_)
  obtain ⟨norm, real⟩ := located
  have hinside := entryInside_of_locate hroot h
  refine leaves_andThen (extends_entry hinside) (fun e ht he => leaves_ret ?_)
  obtain ⟨p, -, hdescribes, -⟩ := yields_entry hinside e he
  rw [entry_tree]
  exact ⟨p, hdescribes⟩

theorem serves_mkdir :
  Serves fs (fs.mkdir P path) t
  := by
  refine leaves_look_andThen (fun located h => ?_)
  obtain ⟨norm, real⟩ := located
  exact leaves_andThen (extends_orElse (extends_createDir (entryInside_of_locate hroot h)))
    (fun _ _ _ => leaves_ret trivial)

theorem serves_chmod {mode : ℕ} :
  Serves fs (fs.chmod P path mode) t
  := by
  refine leaves_look_andThen (fun located h => ?_)
  obtain ⟨norm, real⟩ := located
  refine leaves_orElse_andThen (fun _ _ => ?_)
  exact leaves_andThen
    (extends_orElse (extends_setPermissions (targetInside_of_locateTarget hroot h)))
    (fun _ _ _ => leaves_ret trivial)

theorem serves_write {data : List UInt8} :
  Serves fs (fs.write P path data) t
  := by
  refine leaves_look_andThen (fun located h => ?_)
  obtain ⟨norm, real⟩ := located
  exact leaves_andThen (extends_orElse (extends_writeFile (targetInside_of_locateTarget hroot h)))
    (fun _ _ _ => leaves_ret trivial)

theorem serves_read :
  Serves fs (fs.read P path) t
  := by
  refine leaves_look_andThen (fun located h => ?_)
  obtain ⟨norm, real⟩ := located
  have hinside := targetInside_of_locateTarget hroot h
  have hread : Serves fs ((readFile P real).orElse .io >>= fun b => ret (.bytes b)) t := by
    refine leaves_andThen (extends_orElse (extends_readFile hinside)) (fun b _ hb => leaves_ret ?_)
    have hb : (readFile P real t).result = .ok b := mapError_eq_ok.mp hb
    rcases readFile_cases P t real with ⟨p, n, bytes, hp, hn, hbytes, hread⟩ | ⟨e, hread⟩
    · change Shows fs.root (readFile P real t).tree _
      rw [hread] at hb ⊢
      cases hb
      exact ⟨p, n, hinside.canonical hp, hn, hbytes⟩
    · rw [hread] at hb
      cases hb
  refine leaves_orElse_andThen (fun node _ => ?_)
  split
  · exact leaves_fail
  · split
    · exact leaves_fail
    · exact hread
  · exact hread

theorem serves_openFile {mode : OpenMode} :
  Serves fs (fs.openFile P path mode) t
  := by
  refine leaves_look_andThen (fun located h => ?_)
  obtain ⟨norm, real⟩ := located
  have hinside := targetInside_of_locateTarget hroot h
  refine leaves_look_andThen (fun dir _ => ?_)
  split
  · exact leaves_fail
  · have hopen := leaves_openHandle mode hinside
    exact leaves_andThen (extends_orElse hopen.1)
      (fun p _ hp => leaves_ret (hopen.2 p (mapError_eq_ok.mp hp)))

theorem serves_copy {source dest : String} :
  Serves fs (fs.copy P fuel source dest) t
  := by
  refine leaves_look_andThen (fun located hsource => ?_)
  obtain ⟨sourceNorm, sourceReal⟩ := located
  refine leaves_look_andThen (fun located hdest => ?_)
  obtain ⟨destNorm, destReal⟩ := located
  dsimp only
  split
  · exact leaves_fail
  split
  · exact leaves_fail
  refine leaves_look_andThen (fun there hthere => ?_)
  split
  · exact leaves_fail
  rename_i hmissing
  refine leaves_look_andThen (fun found hfound => ?_)
  split
  · refine leaves_andThen (extends_copyTree (targetInside_of_locateTarget hroot hsource)
      (entryInside_of_locate hroot hdest) (targetInside_of_missing hroot hdest ?_))
      (fun ended _ _ => leaves_ret ?_)
    · intro n hn
      apply hmissing
      rw [← Except.ok.inj hthere, hn]
      rfl
    · cases ended <;> exact trivial
  · exact leaves_fail

theorem serves_mkdirAll :
  Serves fs (fs.mkdirAll P path) t
  := by
  refine leaves_look_andThen (fun located h => ?_)
  obtain ⟨norm, real⟩ := located
  refine leaves_look_andThen (fun _ hconfine => ?_)
  refine leaves_andThen (extends_orElse ⟨?_, grows_createDirAll⟩) (fun _ _ _ => leaves_ret trivial)
  rw [LocalFs.real] at h
  obtain ⟨norm', hvirtual, hreal⟩ := bind_eq_ok.mp h
  cases hreal
  obtain ⟨c, hc, hinside⟩ := confine_eq_ok hconfine
  intro τ hτ
  exact inside_of_createDirAll hroot (isName_of_virtualPath hvirtual) hc hinside hτ

end

/-! ### Operations that remove and move objects -/

/-- An operation touches objects inside and answers what is there. -/
def Confined (fs : LocalFs) (m : Disk FileInfo LocalError Answer) (t : FileTree FileInfo) : Prop :=
  Only (Inside fs.root) m t ∧ Yields (fun a t' => Shows fs.root t' a) m t

theorem confined_fail {e : LocalError} :
  Confined fs (fail e) t
  := ⟨only_fail, yields_fail⟩

theorem confined_done :
  Confined fs (ret .done) t
  := ⟨only_ret, yields_ret trivial⟩

theorem confined_andThen {α : Type} {m : Disk FileInfo LocalError α}
    {f : α → Disk FileInfo LocalError Answer} (hm : Only (Inside fs.root) m t)
    (hf : ∀ a, (m t).result = .ok a → Confined fs (f a) (m t).tree) :
  Confined fs (m >>= f) t
  := ⟨only_andThen hm (fun a ha => (hf a ha).1), yields_andThen (fun a ha => (hf a ha).2)⟩

section
variable (hroot : t.isDir fs.root = true)
include hroot

/-- What is below an entry inside is inside. -/
theorem inside_below (h : fs.locate P t path = .ok (norm, real)) (p r : Location)
    (hp : t.entryAt P real = .ok p) (hr : p <+: r) :
  Inside fs.root ⟨.deletes, r⟩
  := (entryInside_of_locate hroot h t (Grown.refl t) p hp).trans hr

theorem confined_rename {source dest : String} :
  Confined fs (fs.rename P source dest) t
  := by
  refine confined_andThen only_look (fun located hsource => ?_)
  obtain ⟨sourceNorm, sourceReal⟩ := located
  refine confined_andThen only_look (fun located hdest => ?_)
  obtain ⟨destNorm, destReal⟩ := located
  dsimp only
  split
  · exact confined_fail
  refine confined_andThen only_look (fun there _ => ?_)
  split
  · exact confined_fail
  refine confined_andThen (only_orElse (only_rename ?_ ?_)) (fun _ _ => confined_done)
  · exact fun p hp => entryInside_of_locate hroot hsource t (Grown.refl t) p hp
  · exact fun p hp => entryInside_of_locate hroot hdest t (Grown.refl t) p hp

theorem confined_removeFile :
  Confined fs (fs.removeFile P path) t
  := by
  refine confined_andThen only_look (fun located h => ?_)
  obtain ⟨norm, real⟩ := located
  exact confined_andThen (only_orElse (only_removeFile (inside_below hroot h)))
    (fun _ _ => confined_done)

theorem confined_removeDir :
  Confined fs (fs.removeDir P path) t
  := by
  refine confined_andThen only_look (fun located h => ?_)
  obtain ⟨norm, real⟩ := located
  dsimp only
  split
  · exact confined_fail
  · exact confined_andThen (only_orElse (only_removeDir (inside_below hroot h)))
      (fun _ _ => confined_done)

theorem confined_removeDirAll {cancelled : Bool} :
  Confined fs (fs.removeDirAll P path cancelled) t
  := by
  refine confined_andThen only_look (fun located h => ?_)
  obtain ⟨norm, real⟩ := located
  dsimp only
  split
  · exact confined_fail
  refine confined_andThen (only_orElse only_look) (fun node _ => ?_)
  split
  · exact confined_andThen (only_orElse (only_removeFile (inside_below hroot h)))
      (fun _ _ => confined_done)
  · refine confined_andThen (only_orElse (only_removeDirAll (inside_below hroot h)))
      (fun _ _ => ?_)
    split
    · exact confined_fail
    · exact confined_done

end

/-! ### Transfers -/

/-- A transfer touches the file it writes, and creates directories above it that were missing. -/
def Led (P : Platform FileInfo) (t t' : FileTree FileInfo) (dst : List String) (τ : Touch) : Prop :=
  FoundBelow P t t' dst.dropLast τ ∨
    (τ.kind = .creates ∨ τ.kind = .writes ∨ τ.kind = .permits) ∧
      t'.canonicalize P dst = .ok τ.location

theorem Led.grown {t₀ : FileTree FileInfo} {dst : List String} {τ : Touch}
    (h : Led P t₀ t dst τ) (ht : Grown t t') :
  Led P t₀ t' dst τ
  := by
  rcases h with ⟨hkind, hnone, q, hq, hfound⟩ | ⟨hkind, hfound⟩
  · exact .inl ⟨hkind, hnone, q, hq, canonicalize_grown ht hfound⟩
  · exact .inr ⟨hkind, canonicalize_grown ht hfound⟩

section
variable {t₀ : FileTree FileInfo} {dst : List String}

theorem led_andThen {ε α β : Type} {m : Disk FileInfo ε α} {f : α → Disk FileInfo ε β}
    (hm : Lands (fun t' => Led P t₀ t' dst) m t)
    (hf : ∀ a, Grown t (m t).tree → (m t).result = .ok a →
      Lands (fun t' => Led P t₀ t' dst) (f a) (m t).tree) :
  Lands (fun t' => Led P t₀ t' dst) (m >>= f) t
  := lands_andThen (fun _ _ _ ht h => h.grown ht) hm hf

theorem lands_writeFile {new : Bool} {f : List UInt8 → List UInt8} :
  Lands (fun t' => Led P t₀ t' dst) (writeFile P new dst f) t
  := by
  refine ⟨grows_writeFile, fun τ hτ => ?_⟩
  obtain ⟨hkind, hfound⟩ := writeFile_touched P t new dst f τ hτ
  exact .inr ⟨hkind.imp_right .inl, hfound⟩

theorem lands_setPermissions {f : FileInfo → FileInfo} :
  Lands (fun t' => Led P t₀ t' dst) (setPermissions P dst f) t
  := by
  refine ⟨grows_setPermissions, fun τ hτ => ?_⟩
  obtain ⟨hkind, hfound⟩ := setPermissions_touched P t dst f τ hτ
  exact .inr ⟨.inr (.inr hkind), hfound⟩

theorem lands_createParent :
  Lands (fun t' => Led P t t' dst) (createParent P dst) t
  := by
  rw [createParent]
  split
  · exact ⟨grows_createDirAll, fun τ hτ => .inl (createDirAll_touched P t _ τ hτ)⟩
  · exact lands_ret

theorem lands_openDest {total : ℕ} {opts : TransferOptions} :
  Lands (fun t' => Led P t t' dst) (openDest P total dst opts) t
  := by
  refine lands_look_andThen (fun old _ => ?_)
  split
  · dsimp only
    split <;> split <;> exact led_andThen lands_writeFile (fun _ _ _ => lands_ret)
  · exact led_andThen lands_createParent
      (fun _ _ _ => led_andThen lands_writeFile (fun _ _ _ => lands_ret))

theorem lands_streamCopy (dst : List String) (bytes : List UInt8) (opts : TransferOptions) :
  Lands (fun t' => Led P t t' dst) (streamCopy P bytes dst opts) t
  := by
  refine led_andThen (lands_orElse lands_openDest) (fun offset _ _ => ?_)
  dsimp only
  split
  · exact led_andThen (lands_orElse lands_writeFile) (fun _ _ _ => lands_fail)
  · exact led_andThen (lands_orElse lands_writeFile) (fun _ _ _ => lands_ret)

theorem lands_keepTime (t₀ t : FileTree FileInfo) (dst : List String) (opts : TransferOptions)
    (info : FileInfo) :
  Lands (fun t' => Led P t₀ t' dst) (keepTime P opts info dst) t
  := by
  rw [keepTime]
  split
  · split
    · exact lands_orElse lands_setPermissions
    · exact lands_ret
  · exact lands_ret

/-- A transfer to a file inside, in a directory that is there, stays inside. -/
theorem inside_of_led {τ : Touch} (hinside : TargetInside P root dst t) {c : Location}
    (hparent : t.canonicalize P dst.dropLast = .ok c) (ht : Grown t t')
    (h : Led P t t' dst τ) :
  Inside root τ
  := by
  rcases h with ⟨-, hnone, q, hq, hfound⟩ | ⟨-, hfound⟩
  · exact absurd hq (not_prefix_of_missing hnone hfound ht hparent)
  · exact (hinside.grown ht).canonical hfound

end

/-- The directory of a path that is located is there. -/
theorem parent_of_locate (hroot : t.isDir fs.root = true)
    (h : fs.locate P t path = .ok (norm, real)) :
  ∃ c, t.canonicalize P real.dropLast = .ok c
  := by
  obtain ⟨rfl, -, hparent⟩ := locate_eq_ok h
  by_cases hnorm : norm = []
  · rw [hnorm, List.append_nil]
    refine ⟨fs.root.dropLast, canonicalize_eq_ok.mpr ⟨P.hops, resolve_isDir ?_⟩⟩
    exact isDir_dropLast (isSome_of_isDir hroot)
  · obtain ⟨c, hc, -⟩ := hparent hnorm
    exact ⟨c, hc⟩

/-- What an operation may touch at the local file that it is given. -/
def LocalSide (P : Platform FileInfo) (t t' : FileTree FileInfo) : Operation → Touch → Prop
  | .download _ file _, τ => Led P t t' file τ
  | .upload file _ _, τ => τ.kind = .reads ∧ t'.canonicalize P file = .ok τ.location
  | _, _ => False

/-- What an operation touches is inside, or at the local file that it is given. -/
def InsideOrLocal (P : Platform FileInfo) (fs : LocalFs) (op : Operation)
    (t t' : FileTree FileInfo) (τ : Touch) : Prop :=
  Inside fs.root τ ∨ LocalSide P t t' op τ

section
variable (hroot : t.isDir fs.root = true)
include hroot

theorem lands_download {file : List String} {opts : TransferOptions} :
  Lands (InsideOrLocal P fs (.download path file opts) t) (fs.download P path file opts) t
  := by
  have hS : ∀ t₁ t₂ τ, Grown t₁ t₂ → InsideOrLocal P fs (.download path file opts) t t₁ τ →
      InsideOrLocal P fs (.download path file opts) t t₂ τ :=
    fun t₁ t₂ τ ht h => h.imp_right (fun h => Led.grown h ht)
  refine lands_look_andThen (fun located h => ?_)
  obtain ⟨norm, real⟩ := located
  have hinside := targetInside_of_locateTarget hroot h
  refine lands_andThen hS (lands_orElse ⟨grows_look, fun τ hτ => by cases hτ⟩) (fun node _ _ => ?_)
  change Lands _ _ t
  split
  · exact lands_fail
  refine lands_andThen hS (lands_of_extends (extends_orElse (extends_readFile hinside))
    (fun τ t' h => .inl h)) (fun bytes _ _ => ?_)
  have htree : (readFile P real t).tree = t := by
    rcases readFile_cases P t real with ⟨_, _, _, _, _, _, h⟩ | ⟨_, h⟩ <;> rw [h]
  change Lands _ _ (readFile P real t).tree
  rw [htree]
  have hstream := @lands_streamCopy P t file bytes opts
  refine lands_andThen hS ⟨hstream.1, fun τ hτ => .inr (hstream.2 τ hτ)⟩ (fun moved _ _ => ?_)
  have hkeep := @lands_keepTime P t (streamCopy P bytes file opts t).tree file opts node.info
  exact lands_andThen hS ⟨hkeep.1, fun τ hτ => .inr (hkeep.2 τ hτ)⟩ (fun _ _ _ => lands_ret)

theorem lands_upload {file : List String} {opts : TransferOptions} :
  Lands (InsideOrLocal P fs (.upload file path opts) t) (fs.upload P file path opts) t
  := by
  have hS : ∀ t₁ t₂ τ, Grown t₁ t₂ → InsideOrLocal P fs (.upload file path opts) t t₁ τ →
      InsideOrLocal P fs (.upload file path opts) t t₂ τ :=
    fun t₁ t₂ τ ht h => h.imp_right (fun h => ⟨h.1, canonicalize_grown ht h.2⟩)
  refine lands_look_andThen (fun located h => ?_)
  obtain ⟨norm, real⟩ := located
  have hinside := targetInside_of_locateTarget hroot h
  obtain ⟨c, hparent⟩ := parent_of_locate hroot (locateTarget_eq_ok h).1
  refine lands_look_andThen (fun dir _ => ?_)
  split
  · exact lands_fail
  refine lands_andThen hS (lands_orElse ⟨grows_look, fun τ hτ => by cases hτ⟩) (fun node _ _ => ?_)
  change Lands _ _ t
  split
  · exact lands_fail
  refine lands_andThen hS ⟨grows_readFile, fun τ hτ => .inr (readFile_touched P t file τ hτ)⟩
    (fun bytes _ _ => ?_)
  have htree : (readFile P file t).tree = t := by
    rcases readFile_cases P t file with ⟨_, _, _, _, _, _, h⟩ | ⟨_, h⟩ <;> rw [h]
  change Lands _ _ (readFile P file t).tree
  rw [htree]
  have hstream := @lands_streamCopy P t real bytes opts
  refine lands_andThen hS ⟨hstream.1, fun τ hτ => .inl ?_⟩ (fun moved ht _ => ?_)
  · exact inside_of_led hinside hparent hstream.1 (hstream.2 τ hτ)
  have hkeep := @lands_keepTime P t (streamCopy P bytes real opts t).tree real opts node.info
  refine lands_andThen hS ⟨hkeep.1, fun τ hτ => .inl ?_⟩ (fun _ _ _ => lands_ret)
  exact inside_of_led hinside hparent (ht.trans hkeep.1) (hkeep.2 τ hτ)

end

/-! ### All operations -/

theorem yields_download {file : List String} {opts : TransferOptions} :
  Yields (fun a t' => Shows fs.root t' a) (fs.download P path file opts) t
  := by
  refine yields_andThen (fun located _ => ?_)
  obtain ⟨norm, real⟩ := located
  refine yields_andThen (fun node _ => ?_)
  split
  · exact yields_fail
  · exact yields_andThen (fun _ _ => yields_andThen (fun _ _ => yields_andThen
      (fun _ _ => yields_ret trivial)))

theorem yields_upload {file : List String} {opts : TransferOptions} :
  Yields (fun a t' => Shows fs.root t' a) (fs.upload P file path opts) t
  := by
  refine yields_andThen (fun located _ => ?_)
  obtain ⟨norm, real⟩ := located
  refine yields_andThen (fun dir _ => ?_)
  split
  · exact yields_fail
  refine yields_andThen (fun node _ => ?_)
  split
  · exact yields_fail
  · exact yields_andThen (fun _ _ => yields_andThen (fun _ _ => yields_andThen
      (fun _ _ => yields_ret trivial)))

/-- An operation touches objects inside, or the local file that it is given, and answers what is in
objects inside. -/
def Keeps (P : Platform FileInfo) (fs : LocalFs) (lower : String → String) (fuel : ℕ)
    (op : Operation) (t : FileTree FileInfo) : Prop :=
  (∀ τ ∈ (fs.perform P lower fuel op t).touched,
      InsideOrLocal P fs op t (fs.perform P lower fuel op t).tree τ) ∧
    Yields (fun a t' => Shows fs.root t' a) (fs.perform P lower fuel op) t

theorem keeps_of_confined {op : Operation} (h : Confined fs (fs.perform P lower fuel op) t) :
  Keeps P fs lower fuel op t
  := ⟨fun τ hτ => .inl (h.1 τ hτ), h.2⟩

theorem keeps_of_serves {op : Operation} (h : Serves fs (fs.perform P lower fuel op) t) :
  Keeps P fs lower fuel op t
  := keeps_of_confined ⟨h.1.1, h.2⟩

/-- No operation leaves the directory that is served. -/
theorem keeps_perform (P : Platform FileInfo) (fs : LocalFs) (lower : String → String) (fuel : ℕ)
    (op : Operation) (t : FileTree FileInfo) (hroot : t.isDir fs.root = true) :
  Keeps P fs lower fuel op t
  := by
  cases op with
  | canonicalize path => exact keeps_of_serves serves_canonicalize
  | list dir => exact keeps_of_serves (serves_list hroot)
  | stat path => exact keeps_of_serves (serves_stat hroot)
  | exists_ path => exact keeps_of_serves serves_exists
  | mkdir path => exact keeps_of_serves (serves_mkdir hroot)
  | mkdirAll path => exact keeps_of_serves (serves_mkdirAll hroot)
  | rename source dest => exact keeps_of_confined (confined_rename hroot)
  | copy source dest => exact keeps_of_serves (serves_copy hroot)
  | removeFile path => exact keeps_of_confined (confined_removeFile hroot)
  | removeDir path => exact keeps_of_confined (confined_removeDir hroot)
  | removeDirAll path cancelled => exact keeps_of_confined (confined_removeDirAll hroot)
  | chmod path mode => exact keeps_of_serves (serves_chmod hroot)
  | read path => exact keeps_of_serves (serves_read hroot)
  | write path data => exact keeps_of_serves (serves_write hroot)
  | openFile path mode => exact keeps_of_serves (serves_openFile hroot)
  | download remote file opts => exact ⟨(lands_download hroot).2, yields_download⟩
  | upload file remote opts => exact ⟨(lands_upload hroot).2, yields_upload⟩
  | close => exact keeps_of_confined confined_done

/-- A device that follows forty links. -/
def plainPlatform : Platform FileInfo where
  hops := 40
  fresh := ⟨0o644, 0, 0, none, none⟩

/-- A file beside a directory that is served. -/
def besideTree : FileTree FileInfo :=
  ofList [([], ⟨.dir, plainPlatform.fresh⟩), (["served"], ⟨.dir, plainPlatform.fresh⟩),
    (["beside"], ⟨.file [7], plainPlatform.fresh⟩)] (by decide)

def besideFs : LocalFs := ⟨["served"], []⟩

def besideUpload : Operation := .upload ["beside"] "new" ⟨false, false, none⟩

theorem keeps_upload_beside :
  besideTree.isDir besideFs.root = true ∧
    Keeps plainPlatform besideFs id 0 besideUpload besideTree
  := ⟨rfl, keeps_perform plainPlatform besideFs id 0 besideUpload besideTree rfl⟩

theorem locateTarget_beside :
  besideFs.locateTarget plainPlatform besideTree "new" = .ok (["new"], ["served", "new"])
  := by
  have hdir : besideTree.isDir ["served"] = true := rfl
  have hresolve : besideTree.resolve false 40 [] ["served"] = .ok (["served"], 40) :=
    resolve_isDir hdir
  have hserved : besideTree.canonicalize plainPlatform ["served"] = .ok ["served"] :=
    canonicalize_eq_ok.mpr ⟨40, hresolve⟩
  have hlocate : besideFs.locate plainPlatform besideTree "new" =
      .ok (["new"], ["served", "new"]) := by
    refine bind_eq_ok.mpr ⟨(["new"], ["served", "new"]), by decide, ?_⟩
    dsimp only
    rw [if_pos (by decide)]
    exact bind_eq_ok.mpr ⟨(), confine_of_inside hserved (by decide), rfl⟩
  have hentry : besideTree.entryAt plainPlatform (["served"] ++ ["new"]) =
      .ok ["served", "new"] :=
    entryAt_concat.mpr ⟨["served"], 40, hresolve, hdir, rfl⟩
  have hmissing : besideTree.symlinkMetadata plainPlatform ["served", "new"] =
      .error .notFound := by
    rw [symlinkMetadata, show besideTree.entryAt plainPlatform ["served", "new"] = _ from hentry]
    rfl
  refine bind_eq_ok.mpr ⟨(["new"], ["served", "new"]), hlocate, ?_⟩
  dsimp only
  rw [hmissing]
  rfl

theorem leadsToDir_beside :
  leadsToDir plainPlatform besideTree ["served", "new"] = false
  := by
  have hdir : besideTree.isDir ["served"] = true := rfl
  have hresolve : besideTree.resolve false 40 [] ["served"] = .ok (["served"], 40) :=
    resolve_isDir hdir
  have hmissing : besideTree.resolve false 40 [] (["served"] ++ ["new"]) = .error .notFound := by
    rw [resolve_append hresolve hdir, resolve_none (by decide) (by decide) rfl]
    rfl
  rw [leadsToDir, metadata, FileTree.canonicalize,
    show besideTree.resolve false plainPlatform.hops [] ["served", "new"] = _ from hmissing]
  rfl

theorem canonicalize_beside :
  besideTree.canonicalize plainPlatform ["beside"] = .ok ["beside"]
  := canonicalize_eq_ok.mpr ⟨40, resolve_location rfl (fun _ h => by cases h)⟩

/-- An upload reads the local file that it is given, also when that is not in the directory. -/
theorem not_inside_perform :
  ¬∀ (P : Platform FileInfo) (fs : LocalFs) (lower : String → String) (fuel : ℕ) (op : Operation)
    (t : FileTree FileInfo), t.isDir fs.root = true →
      ∀ τ ∈ (fs.perform P lower fuel op t).touched, Inside fs.root τ
  := by
  intro h
  have hmem : ⟨.reads, ["beside"]⟩ ∈
      (besideFs.perform plainPlatform id 0 besideUpload besideTree).touched := by
    change _ ∈ (besideFs.upload plainPlatform ["beside"] "new" ⟨false, false, none⟩
      besideTree).touched
    rw [upload, look_andThen locateTarget_beside]
    dsimp only
    rw [look_andThen (a := false) (congrArg Except.ok leadsToDir_beside),
      if_neg Bool.false_ne_true]
    have hmeta : besideTree.metadata plainPlatform ["beside"] =
        .ok ⟨.file [7], plainPlatform.fresh⟩ :=
      metadata_eq_ok.mpr ⟨_, canonicalize_beside, rfl⟩
    rw [andThen_ok (mapError_eq_ok.mpr hmeta), if_neg (by decide)]
    have hread : readFile plainPlatform ["beside"] besideTree =
        ⟨.ok [7], besideTree, [⟨.reads, ["beside"]⟩]⟩ := by
      rw [readFile, look_andThen canonicalize_beside]
      rfl
    apply List.mem_append_right
    change _ ∈ (((readFile plainPlatform ["beside"]).orElse LocalError.io >>= _) besideTree).touched
    rw [andThen_ok (mapError_eq_ok.mpr (congrArg Disk.Outcome.result hread))]
    apply List.mem_append_left
    change _ ∈ (readFile plainPlatform ["beside"] besideTree).touched
    rw [hread]
    exact List.mem_singleton_self _
  have hinside : ["served"] <+: ["beside"] :=
    h plainPlatform besideFs id 0 besideUpload besideTree rfl _ hmem
  exact absurd hinside (by decide)

end LocalFs

end Termoso.Core
