import Termoso.Core.LocalOperations
import Termoso.Lib.TreeCopy

/-!
# Copies of a snapshot

A copy of a directory fills the destination with what the source held, unless the destination lies
in the source.  That is refused when the virtual paths tell it.  Where a link on the way to the
destination leads back into the source they do not, and the copy creates directories in the
directory that it reads.
-/

namespace Termoso.Core

open Disk FileTree

namespace LocalFs

variable {P : Platform FileInfo} {fs : LocalFs} {t t₀ t' : FileTree FileInfo}
  {source dest : String} {src dst : List String} {s d : Location} {fuel : ℕ}

/-- Only directories and regular files are copied. -/
def copied : Content → Option Content
  | .dir => some .dir
  | .file bytes => some (.file bytes)
  | _ => none

/-! ### Single calls -/

/-- Where there is nothing yet, a path leads to its entry. -/
theorem resolve_of_entryAt {path : List String} {p q : Location} {left : ℕ} {new : Bool}
    (hname : ∀ x, path.getLast? = some x → IsName x) (hp : t.entryAt P path = .ok p)
    (hnone : t.node p = none) (h : t.resolve new P.hops [] path = .ok (q, left)) :
  q = p
  := by
  cases path using List.reverseRecOn with
  | nil =>
      cases hp
      rw [resolve_nil] at h
      cases h
      rfl
  | append_singleton path x =>
      obtain ⟨d, left', hd, -, rfl⟩ := entryAt_concat.mp hp
      obtain ⟨d', left'', hd', -, hstep⟩ := resolve_split (isDir_top t) (by simp) h
      cases hd.symm.trans hd'
      apply resolve_name (hname x List.getLast?_concat) _ hstep
      intro target htarget
      rw [shapeAt, hnone] at htarget
      cases htarget

/-- A directory is created where there is nothing. -/
theorem createDir_succeeds {p : Location} (hp : t.entryAt P dst = .ok p) (hne : dst ≠ [])
    (hname : ∀ x, dst.getLast? = some x → IsName x) (hnone : t.node p = none) :
  (createDir P dst t).result = .ok ()
  := by
  rw [createDir, look_andThen hp, createAt, look_andThen (a := t) rfl, hnone,
    if_neg (by simp)]
  cases dst using List.reverseRecOn with
  | nil => exact absurd rfl hne
  | append_singleton path x =>
      obtain ⟨d, left, -, hdir, rfl⟩ := entryAt_concat.mp hp
      obtain ⟨t', ht'⟩ := create_concat ⟨hname x List.getLast?_concat, hdir, hnone⟩
        ⟨.dir, P.fresh⟩
      rw [ht']
      rfl

theorem grows_copyFile :
  Grows (copyFile P src dst) t
  := grows_look_andThen (fun _ _ => grows_andThen grows_readFile (fun _ _ =>
    grows_andThen grows_writeFile (fun _ _ => grows_setPermissions)))

/-- A file that is copied to where there is nothing is there with its bytes. -/
theorem copyFile_ok {p q : Location} {n : Node FileInfo} {bytes : List UInt8}
    (hsrc : t.canonicalize P src = .ok p) (hn : t.node p = some n)
    (hbytes : n.content = .file bytes)
    (hdst : ∀ q' left, t.resolve true P.hops [] dst = .ok (q', left) → q' = q)
    (hnone : t.node q = none) {u : Unit} (h : (copyFile P src dst t).result = .ok u) :
  ∃ m : Node FileInfo, m.content = .file bytes ∧
    ∀ r, (copyFile P src dst t).tree.node r = if r = q then some m else t.node r
  := by
  have hread : readFile P src t = ⟨.ok bytes, t, [⟨.reads, p⟩]⟩ := by
    rcases readFile_cases P t src with ⟨p', n', bytes', hp', hn', hbytes', h⟩ | ⟨e, he⟩
    · cases hsrc.symm.trans hp'
      cases hn.symm.trans hn'
      cases hbytes.symm.trans hbytes'
      exact h
    · rw [readFile, look_andThen hsrc, look_andThen (a := t) rfl, hn] at he
      obtain ⟨content, info⟩ := n
      cases hbytes
      cases congrArg Outcome.result he
  have hmeta : t.metadata P src = .ok n := metadata_eq_ok.mpr ⟨p, hsrc, hn⟩
  rw [copyFile, look_andThen hmeta, andThen_ok (congrArg Outcome.result hread), hread] at h ⊢
  dsimp only at h ⊢
  rcases writeFile_cases P t true dst (fun _ => bytes) with
    ⟨q', left, t', hresolve, hnew, hcreate, hwrite⟩ |
    ⟨q', left, bytes', info, hresolve, hthere, hwrite⟩ | ⟨e, hwrite⟩
  · cases hdst q' left hresolve
    rw [andThen_ok (congrArg Outcome.result hwrite), hwrite] at h ⊢
    dsimp only at h ⊢
    obtain ⟨-, -, -, -, hnode⟩ := create_eq_some hcreate
    have hself : t'.node q = some ⟨.file bytes, P.fresh⟩ := by rw [hnode, if_pos rfl]
    have hcanonical : t'.canonicalize P dst = .ok q := by
      refine canonicalize_landed (grown_create hcreate (fun _ h => by cases h)) hresolve ?_
      rw [shapeAt, hself]
      rfl
    rw [setPermissions, look_andThen hcanonical, look_andThen (a := t') rfl, hself]
    refine ⟨⟨.file bytes, { P.fresh with mode := n.info.mode }⟩, rfl, fun r => ?_⟩
    change Function.update t'.node q ((t'.node q).map _) r = _
    rw [Function.update_apply, hself, hnode]
    split <;> rfl
  · cases hdst q' left hresolve
    rw [hnone] at hthere
    cases hthere
  · rw [andThen_error (congrArg Outcome.result hwrite)] at h
    cases h

/-! ### The walk -/

theorem grows_copyEntries (names : List String) {stack : List (List String × List String)} :
  Grows (copyEntries P src dst names stack) t
  := by
  induction names generalizing t stack with
  | nil => exact grows_ret
  | cons name names ih =>
      refine grows_look_andThen (fun node _ => ?_)
      split
      · exact grows_andThen grows_createDir (fun _ _ => ih)
      · exact grows_andThen grows_copyFile (fun _ _ => ih)
      · exact ih

theorem grows_walk (fuel : ℕ) {stack : List (List String × List String)} :
  Grows (walk P fuel stack) t
  := by
  induction fuel generalizing t stack with
  | zero => cases stack <;> exact grows_ret
  | succ fuel ih =>
      cases stack with
      | nil => exact grows_ret
      | cons pair stack =>
          exact grows_andThen grows_readDir
            (fun names _ => grows_andThen (grows_copyEntries names) (fun _ _ => ih))

/-- A pair of paths leads to a directory that is copied and to its copy. -/
structure Leads (P : Platform FileInfo) (t₀ t : FileTree FileInfo) (s d : Location)
    (pair : List String × List String) (r : List String) : Prop where
  source : t.canonicalize P pair.1 = .ok (s ++ r)
  dest : t.canonicalize P pair.2 = .ok (d ++ r)
  dir : t₀.isDir (s ++ r) = true

/-- How far a copy has come: the directories on the stack are at `rs`, and the entries `ws` of the
one being walked are to come. -/
structure Walking (P : Platform FileInfo) (t₀ t : FileTree FileInfo) (s d : Location)
    (stack : List (List String × List String)) (rs ws : List (List String)) : Prop where
  grown : Grown t₀ t
  paths : List.Forall₂ (Leads P t₀ t s d) stack rs
  chain : Antichain (rs ++ ws)
  filled : Filled copied t₀ t s d (Pending rs ws)

section
variable {stack : List (List String × List String)} {rs ws : List (List String)}
  {r w : List String} {name : String}

theorem Leads.grown {pair : List String × List String} (h : Leads P t₀ t s d pair r)
    (ht : Grown t t') :
  Leads P t₀ t' s d pair r
  := ⟨canonicalize_grown ht h.source, canonicalize_grown ht h.dest, h.dir⟩

theorem leads_grown (h : List.Forall₂ (Leads P t₀ t s d) stack rs) (ht : Grown t t') :
  List.Forall₂ (Leads P t₀ t' s d) stack rs
  := h.imp (fun _ _ h => h.grown ht)

section
variable (hout : ∀ q, ¬d <+: s ++ q)
include hout

/-- The source is as it was. -/
theorem Walking.unchanged (h : Walking P t₀ t s d stack rs ws) (q : List String) :
  t.node (s ++ q) = t₀.node (s ++ q)
  := h.filled.outside _ (hout q)

/-- An entry of the directory being walked is where it is to be, and its copy is to come. -/
theorem Walking.entry (h : Walking P t₀ t s d stack rs (w :: ws)) (hw : w = r ++ [name])
    (hpair : Leads P t₀ t s d (src, dst) r) {node : Node FileInfo}
    (hnode : t.symlinkMetadata P (src ++ [name]) = .ok node) :
  IsName name ∧ t.entryAt P (src ++ [name]) = .ok (s ++ w) ∧ t₀.node (s ++ w) = some node ∧
    (∀ p, t.entryAt P (dst ++ [name]) = .ok p → p = d ++ w) ∧ t.node (d ++ w) = none
  := by
  obtain ⟨left, hsource⟩ := canonicalize_eq_ok.mp hpair.source
  obtain ⟨left', hdest⟩ := canonicalize_eq_ok.mp hpair.dest
  obtain ⟨p, hp, hn⟩ := symlinkMetadata_eq_ok.mp hnode
  obtain ⟨c, _, hc, -, heq⟩ := entryAt_concat.mp hp
  cases hsource.symm.trans hc
  rw [List.append_assoc, ← hw] at heq
  rw [heq] at hp hn
  refine ⟨?_, hp, (h.unchanged hout w).symm.trans hn, fun q hq => ?_, ?_⟩
  · rw [hw, ← List.append_assoc] at hn
    exact (t.parents _ _ _ hn).1
  · obtain ⟨c', _, hc', -, rfl⟩ := entryAt_concat.mp hq
    cases hdest.symm.trans hc'
    rw [hw, List.append_assoc]
  · exact h.filled.pending w (.inr ⟨w, List.mem_cons_self, List.prefix_rfl⟩)

/-- A directory among the entries is created, and waits. -/
theorem Walking.push (h : Walking P t₀ t s d stack rs (w :: ws)) (hw : w = r ++ [name])
    (hpair : Leads P t₀ t s d (src, dst) r) {node : Node FileInfo}
    (hnode : t.symlinkMetadata P (src ++ [name]) = .ok node) (hdir : node.content = .dir)
    {u : Unit} (hcreate : (createDir P (dst ++ [name]) t).result = .ok u) :
  Walking P t₀ (createDir P (dst ++ [name]) t).tree s d ((src ++ [name], dst ++ [name]) :: stack)
    (w :: rs) ws
  := by
  obtain ⟨-, hsource, hn, hdest, -⟩ := h.entry hout hw hpair hnode
  have ht : Grown t (createDir P (dst ++ [name]) t).tree := grows_createDir
  have hn' : t.node (s ++ w) = some node := (h.unchanged hout w).trans hn
  have hself := canonicalize_of_entryAt hsource hn' (fun _ h => by rw [hdir] at h; cases h)
  rcases createDir_cases P t (dst ++ [name]) with ⟨p, t', hp, hnone, hput, heq⟩ | ⟨e, heq⟩
  · rw [heq] at ht ⊢
    dsimp only at ht ⊢
    cases hdest p hp
    obtain ⟨-, -, -, -, hnodes⟩ := create_eq_some hput
    refine ⟨h.grown.trans ht, .cons ⟨canonicalize_grown ht hself, ?_, ?_⟩ (leads_grown h.paths ht),
      antichain_push h.chain, h.filled.pushed h.chain ?_ hnodes⟩
    · exact canonicalize_created hp hput (fun _ h => by cases h)
    · exact isDir_iff.mpr ⟨node, hn, hdir⟩
    · rw [kept, hn, Option.bind_some, hdir]
      rfl
  · rw [heq] at hcreate
    cases hcreate

/-- A file among the entries is copied. -/
theorem Walking.file (h : Walking P t₀ t s d stack rs (w :: ws)) (hw : w = r ++ [name])
    (hpair : Leads P t₀ t s d (src, dst) r) {node : Node FileInfo}
    (hnode : t.symlinkMetadata P (src ++ [name]) = .ok node) {bytes : List UInt8}
    (hbytes : node.content = .file bytes) {u : Unit}
    (hcopy : (copyFile P (src ++ [name]) (dst ++ [name]) t).result = .ok u) :
  Walking P t₀ (copyFile P (src ++ [name]) (dst ++ [name]) t).tree s d stack rs ws
  := by
  obtain ⟨hname, hsource, hn, hdest, hnone⟩ := h.entry hout hw hpair hnode
  have ht : Grown t (copyFile P (src ++ [name]) (dst ++ [name]) t).tree := grows_copyFile
  have hn' : t.node (s ++ w) = some node := (h.unchanged hout w).trans hn
  have hself := canonicalize_of_entryAt hsource hn' (fun _ h => by rw [hbytes] at h; cases h)
  have hland : ∀ q' left, t.resolve true P.hops [] (dst ++ [name]) = .ok (q', left) →
      q' = d ++ w := by
    intro q' left hresolve
    obtain ⟨c, left', hc, hcdir, hstep⟩ := resolve_split (isDir_top t) (by simp) hresolve
    have hp : t.entryAt P (dst ++ [name]) = .ok (c ++ [name]) :=
      entryAt_concat.mpr ⟨c, left', hc, hcdir, rfl⟩
    rw [← hdest _ hp] at hnone ⊢
    exact resolve_of_entryAt
      (fun x hx => by cases List.getLast?_concat.symm.trans hx; exact hname) hp hnone hresolve
  obtain ⟨m, hm, hnodes⟩ := copyFile_ok hself hn' hbytes hland hnone hcopy
  refine ⟨h.grown.trans ht, leads_grown h.paths ht, antichain_skip h.chain, ?_⟩
  refine h.filled.copied h.chain hn (by rw [hbytes]; simp) ?_ hnodes
  rw [hbytes, hm]
  rfl

/-- Links and special files are left out. -/
theorem Walking.skip (h : Walking P t₀ t s d stack rs (w :: ws)) (hw : w = r ++ [name])
    (hpair : Leads P t₀ t s d (src, dst) r) {node : Node FileInfo}
    (hnode : t.symlinkMetadata P (src ++ [name]) = .ok node) (hdir : node.content ≠ .dir)
    (hfile : ∀ bytes, node.content ≠ .file bytes) :
  Walking P t₀ t s d stack rs ws
  := by
  obtain ⟨-, -, hn, -, -⟩ := h.entry hout hw hpair hnode
  refine ⟨h.grown, h.paths, antichain_skip h.chain, h.filled.skipped hn hdir ?_⟩
  cases hcontent : node.content with
  | dir => exact absurd hcontent hdir
  | file bytes => exact absurd hcontent (hfile bytes)
  | link target => rfl
  | special => rfl

/-- Copying the entries of a directory leaves those that are directories on the stack. -/
theorem yields_copyEntries (names : List String) (hpair : Leads P t₀ t s d (src, dst) r)
    (h : Walking P t₀ t s d stack rs (names.map (fun x => r ++ [x]))) :
  Yields (fun stack' t' => ∃ rs', Walking P t₀ t' s d stack' rs' [] ∧
      ∀ p ∈ rs', p ∈ rs ∨ ∃ x, p = r ++ [x])
    (copyEntries P src dst names stack) t
  := by
  induction names generalizing t stack rs with
  | nil => exact yields_ret ⟨rs, h, fun p hp => .inl hp⟩
  | cons name names ih =>
      refine yields_andThen (fun node hnode => ?_)
      split
      · rename_i hdir
        refine yields_andThen (fun u hcreate => ?_)
        have hpush := h.push hout rfl hpair hnode hdir hcreate
        intro stack' hstack'
        obtain ⟨rs', hrs', hsub⟩ := ih (hpair.grown grows_createDir) hpush stack' hstack'
        refine ⟨rs', hrs', fun p hp => ?_⟩
        rcases hsub p hp with hp | hp
        · rcases List.mem_cons.mp hp with rfl | hp
          · exact .inr ⟨name, rfl⟩
          · exact .inl hp
        · exact .inr hp
      · rename_i bytes hbytes
        refine yields_andThen (fun u hcopy => ?_)
        exact ih (hpair.grown grows_copyFile) (h.file hout rfl hpair hnode hbytes hcopy)
      · rename_i hdir hfile
        exact ih hpair (h.skip hout rfl hpair hnode hdir hfile)

/-- With as much fuel as there are objects at directories that wait or below, the walk ends and the
copy is filled. -/
theorem yields_walk (fuel : ℕ) (h : Walking P t₀ t s d stack rs [])
    (hfuel : weight t₀ s rs ≤ fuel) :
  Yields (fun ended t' => ended = some () ∧ Filled copied t₀ t' s d (Pending [] []))
    (walk P fuel stack) t
  := by
  induction fuel generalizing t stack rs with
  | zero =>
      obtain ⟨hgrown, hpaths, hchain, hfilled⟩ := h
      cases hpaths with
      | nil => exact yields_ret ⟨rfl, hfilled⟩
      | cons hpair _ =>
          rw [List.append_nil] at hchain
          have hlt : weight t₀ s [] < weight t₀ s _ :=
            weight_lt (isSome_of_isDir hpair.dir) hchain (fun _ h => by cases h)
          omega
  | succ fuel ih =>
      obtain ⟨hgrown, hpaths, hchain, hfilled⟩ := h
      cases hpaths with
      | nil => exact yields_ret ⟨rfl, hfilled⟩
      | @cons pair r stack rs hpair hpaths =>
          rw [List.append_nil] at hchain
          refine yields_andThen (fun names hnames => ?_)
          rcases readDir_cases P t pair.1 with ⟨p, hp, -, heq⟩ | ⟨e, heq⟩
          · rw [heq] at hnames
            rw [heq]
            cases hnames
            cases hpair.source.symm.trans hp
            have hopen : Walking P t₀ t s d stack rs
                ((t.children (s ++ r)).map (fun x => r ++ [x])) := by
              refine ⟨hgrown, hpaths, antichain_open hchain (nodup_children t _),
                hfilled.opened (fun x hx => ?_)⟩
              rw [mem_children, List.append_assoc, hfilled.outside _ (hout _)]
              exact hx
            refine yields_andThen (fun stack' hstack' => ?_)
            obtain ⟨rs', hrs', hsub⟩ := yields_copyEntries hout _ hpair hopen stack' hstack'
            have := weight_lt (isSome_of_isDir hpair.dir) hchain hsub
            exact ih hrs' (by omega)
          · rw [heq] at hnames
            cases hnames

end

end

/-! ### Whole copies -/

/-- A copy holds the directories and regular files that there were at a location and below, and the
rest of the tree is as it was. -/
structure HoldsCopy (t t' : FileTree FileInfo) (s d : Location) : Prop where
  copy : ∀ q, (t'.node (d ++ q)).map Node.content = kept copied t (s ++ q)
  source : ∀ q, t'.node (s ++ q) = t.node (s ++ q)
  outside : ∀ r, ¬d <+: r → t'.node r = t.node r

theorem holdsCopy_of_filled (hout : ∀ q, ¬d <+: s ++ q)
    (h : Filled copied t t' s d (Pending [] [])) :
  HoldsCopy t t' s d
  where
  copy q := h.filled q (not_pending_nil q)
  source q := h.outside _ (hout q)
  outside := h.outside

/-- What does not lie in an object that is there has nothing of it below. -/
theorem not_below {n : Node FileInfo} (hs : t.node s = some n) (hd : t.node d = none)
    (hin : ¬s <+: d) (q : List String) :
  ¬d <+: s ++ q
  := by
  intro hpre
  rcases List.prefix_or_prefix_of_prefix hpre (List.prefix_append s q) with h | h
  · rw [node_eq_none hd h] at hs
    cases hs
  · exact hin h

theorem yields_copyTree_dir {n : Node FileInfo} (hsource : t.entryAt P src = .ok s)
    (hn : t.node s = some n) (hdir : n.content = .dir) (hdest : t.entryAt P dst = .ok d)
    (hnone : t.node d = none) (hin : ¬s <+: d) (hfuel : t.listing.length ≤ fuel) :
  Yields (fun ended t' => ended = some () ∧ HoldsCopy t t' s d) (copyTree P fuel src dst) t
  := by
  have hout := not_below hn hnone hin
  have hlink : ∀ target, n.content ≠ .link target := fun _ h => by rw [hdir] at h; cases h
  have hself := canonicalize_of_entryAt hsource hn hlink
  have hmeta : t.symlinkMetadata P src = .ok n := symlinkMetadata_eq_ok.mpr ⟨s, hsource, hn⟩
  refine yields_andThen (fun node hnode => ?_)
  cases hmeta.symm.trans (mapError_eq_ok.mp hnode)
  change Yields _ _ t
  rw [hdir]
  refine yields_andThen (fun u hcreate => ?_)
  rcases createDir_cases P t dst with ⟨p, t', hp, -, hput, heq⟩ | ⟨e, heq⟩
  · change Yields _ _ (createDir P dst t).tree
    rw [heq]
    dsimp only
    cases hdest.symm.trans hp
    have ht : Grown t t' := grown_create hput (fun _ h => by cases h)
    obtain ⟨-, -, -, -, hnodes⟩ := create_eq_some hput
    have hfilled : Filled copied t t' s d (Pending [[]] []) := by
      refine (filled_blank hnone).pushed (List.pairwise_singleton _ _) (m := ⟨.dir, P.fresh⟩) ?_ ?_
      · rw [List.append_nil, kept, hn, Option.bind_some, hdir]
        rfl
      · rw [List.append_nil]
        exact hnodes
    have hwalking : Walking P t t' s d [(src, dst)] [[]] [] := by
      refine ⟨ht, .cons ⟨?_, ?_, ?_⟩ .nil, List.pairwise_singleton _ _, hfilled⟩
      · rw [List.append_nil]
        exact canonicalize_grown ht hself
      · rw [List.append_nil]
        exact canonicalize_created hp hput (fun _ h => by cases h)
      · rw [List.append_nil]
        exact isDir_iff.mpr ⟨n, hn, hdir⟩
    intro ended hended
    obtain ⟨hsome, hfilled'⟩ := yields_walk hout fuel hwalking
      ((weight_le_length t s [[]]).trans hfuel) ended (mapError_eq_ok.mp hended)
    exact ⟨hsome, holdsCopy_of_filled hout hfilled'⟩
  · have hcreate : (createDir P dst t).result = .ok u := mapError_eq_ok.mp hcreate
    rw [heq] at hcreate
    cases hcreate

theorem yields_copyTree_file {n : Node FileInfo} {bytes : List UInt8}
    (hsource : t.entryAt P src = .ok s) (hn : t.node s = some n)
    (hbytes : n.content = .file bytes) (hdest : t.entryAt P dst = .ok d)
    (hname : ∀ x, dst.getLast? = some x → IsName x) (hnone : t.node d = none) (hin : ¬s <+: d) :
  Yields (fun ended t' => ended = some () ∧ HoldsCopy t t' s d) (copyTree P fuel src dst) t
  := by
  have hlink : ∀ target, n.content ≠ .link target := fun _ h => by rw [hbytes] at h; cases h
  have hself := canonicalize_of_entryAt hsource hn hlink
  have hmeta : t.symlinkMetadata P src = .ok n := symlinkMetadata_eq_ok.mpr ⟨s, hsource, hn⟩
  refine yields_andThen (fun node hnode => ?_)
  cases hmeta.symm.trans (mapError_eq_ok.mp hnode)
  change Yields _ _ t
  rw [hbytes]
  refine yields_andThen (fun u hcopy => yields_ret ⟨rfl, ?_⟩)
  have hland := fun q' left => @resolve_of_entryAt P t dst d q' left true hname hdest hnone
  obtain ⟨m, hm, hnodes⟩ := copyFile_ok hself hn hbytes hland hnone (mapError_eq_ok.mp hcopy)
  refine holdsCopy_of_filled (not_below hn hnone hin) ?_
  refine (filled_blank hnone).copied (List.pairwise_singleton _ _) (n := n) (m := m) ?_ ?_ ?_ ?_
  · rw [List.append_nil, hn]
  · rw [hbytes]
    simp
  · rw [hbytes, hm]
    rfl
  · rw [List.append_nil]
    exact hnodes

theorem entryAt_of_copyFile (hne : dst ≠ []) {u : Unit}
    (h : (copyFile P src dst t).result = .ok u) :
  ∃ d, t.entryAt P dst = .ok d
  := by
  obtain ⟨n, -, h⟩ := andThen_eq_ok h
  obtain ⟨bytes, hread, h⟩ := andThen_eq_ok h
  obtain ⟨u', hwrite, -⟩ := andThen_eq_ok h
  have htree : (readFile P src t).tree = t := by
    rcases readFile_cases P t src with ⟨_, _, _, _, _, _, h⟩ | ⟨_, h⟩ <;> rw [h]
  change (writeFile P true dst _ (readFile P src t).tree).result = _ at hwrite
  rw [htree] at hwrite
  have hresolve : ∃ q left, t.resolve true P.hops [] dst = .ok (q, left) := by
    rcases writeFile_cases P t true dst (fun _ => bytes) with
      ⟨q, left, -, hresolve, -⟩ | ⟨q, left, -, -, hresolve, -⟩ | ⟨e, heq⟩
    · exact ⟨q, left, hresolve⟩
    · exact ⟨q, left, hresolve⟩
    · rw [heq] at hwrite
      cases hwrite
  obtain ⟨q, left, hresolve⟩ := hresolve
  cases dst using List.reverseRecOn with
  | nil => exact absurd rfl hne
  | append_singleton path x =>
      obtain ⟨c, left', hc, hdir, -⟩ := resolve_split (isDir_top t) (by simp) hresolve
      exact ⟨c ++ [x], entryAt_concat.mpr ⟨c, left', hc, hdir, rfl⟩⟩

/-- Nothing can be created in what is no directory. -/
theorem not_prefix_of_entryAt {n : Node FileInfo} (hn : t.node s = some n)
    (hdir : n.content ≠ .dir) (hne : dst ≠ []) (hdest : t.entryAt P dst = .ok d)
    (hnone : t.node d = none) :
  ¬s <+: d
  := by
  intro hpre
  cases dst using List.reverseRecOn with
  | nil => exact absurd rfl hne
  | append_singleton path x =>
      obtain ⟨c, left, -, hc, rfl⟩ := entryAt_concat.mp hdest
      rcases List.prefix_concat_iff.mp hpre with rfl | hpre
      · rw [hnone] at hn
        cases hn
      · obtain ⟨m, hm, hmdir⟩ := isDir_iff.mp hc
        by_cases heq : s = c
        · rw [heq, hm] at hn
          cases hn
          exact hdir hmdir
        · rw [node_below hn hdir hpre heq] at hm
          cases hm

/-- A copy to where there is nothing ends, and when it ends well it holds what the source held. -/
theorem yields_copyTree {n : Node FileInfo} (hsource : t.entryAt P src = .ok s)
    (hn : t.node s = some n) (hne : dst ≠ []) (hname : ∀ x, dst.getLast? = some x → IsName x)
    (hmissing : ∀ d, t.entryAt P dst = .ok d → t.node d = none)
    (hin : n.content = .dir → ∀ d, t.entryAt P dst = .ok d → ¬s <+: d)
    (hfuel : t.listing.length ≤ fuel) :
  Yields (fun ended t' => ended = some () ∧ ∃ d, t.entryAt P dst = .ok d ∧ HoldsCopy t t' s d)
    (copyTree P fuel src dst) t
  := by
  have hmeta : t.symlinkMetadata P src = .ok n := symlinkMetadata_eq_ok.mpr ⟨s, hsource, hn⟩
  -- A copy that ends well has found the directory of the destination.
  have hfound : ∀ ended, (copyTree P fuel src dst t).result = .ok ended →
      ∃ d, t.entryAt P dst = .ok d := by
    intro ended h
    obtain ⟨node, hnode, h⟩ := andThen_eq_ok h
    cases hmeta.symm.trans (mapError_eq_ok.mp hnode)
    cases hcontent : n.content with
    | dir =>
        rw [hcontent] at h
        obtain ⟨u, hcreate, -⟩ := andThen_eq_ok h
        obtain ⟨p, hp, -⟩ := createDir_ok (mapError_eq_ok.mp hcreate)
        exact ⟨p, hp⟩
    | file bytes =>
        rw [hcontent] at h
        obtain ⟨u, hcopy, -⟩ := andThen_eq_ok h
        exact entryAt_of_copyFile hne (mapError_eq_ok.mp hcopy)
    | link target =>
        rw [hcontent] at h
        cases h
    | special =>
        rw [hcontent] at h
        cases h
  intro ended hended
  obtain ⟨d, hdest⟩ := hfound ended hended
  have hnone := hmissing d hdest
  obtain ⟨hsome, hholds⟩ : ended = some () ∧ HoldsCopy t (copyTree P fuel src dst t).tree s d := by
    cases hcontent : n.content with
    | dir =>
        exact yields_copyTree_dir hsource hn hcontent hdest hnone (hin hcontent d hdest) hfuel
          ended hended
    | file bytes =>
        have hdir : n.content ≠ .dir := by
          rw [hcontent]
          simp
        exact yields_copyTree_file hsource hn hcontent hdest hname hnone
          (not_prefix_of_entryAt hn hdir hne hdest hnone) ended hended
    | link target =>
        obtain ⟨node, hnode, h⟩ := andThen_eq_ok hended
        cases hmeta.symm.trans (mapError_eq_ok.mp hnode)
        rw [hcontent] at h
        cases h
    | special =>
        obtain ⟨node, hnode, h⟩ := andThen_eq_ok hended
        cases hmeta.symm.trans (mapError_eq_ok.mp hnode)
        rw [hcontent] at h
        cases h
  exact ⟨hsome, d, hdest, hholds⟩

/-! ### What a copy checks -/

/-- What a copy has found when its checks pass: the real paths of the source and the destination. -/
def Cleared (P : Platform FileInfo) (fs : LocalFs) (t : FileTree FileInfo) (source dest : String)
    (src dst : List String) : Prop :=
  ∃ sourceNorm destNorm, fs.locateTarget P t source = .ok (sourceNorm, src) ∧
    fs.locate P t dest = .ok (destNorm, dst) ∧ ¬(sourceNorm = [] ∨ destNorm = []) ∧
    ¬(sourceNorm <+: destNorm ∧ sourceNorm ≠ destNorm) ∧
    (t.symlinkMetadata P dst).toOption.isSome = false ∧
    (t.symlinkMetadata P src).toOption.isSome = true

/-- Either a check fails, and nothing is done, or the tree is copied. -/
theorem copy_cases (P : Platform FileInfo) (fs : LocalFs) (fuel : ℕ) (source dest : String)
    (t : FileTree FileInfo) :
  (∃ src dst, Cleared P fs t source dest src dst ∧
      fs.copy P fuel source dest t =
        (copyTree P fuel src dst >>= fun ended => ret (ended.elim .pending (fun _ => .done))) t) ∨
    (∀ src dst, ¬Cleared P fs t source dest src dst) ∧
      ∃ e, fs.copy P fuel source dest t = ⟨.error e, t, []⟩
  := by
  cases hsource : fs.locateTarget P t source with
  | error e =>
      refine .inr ⟨?_, e, look_andThen_error hsource _⟩
      rintro src dst ⟨_, _, h, -⟩
      cases hsource.symm.trans h
  | ok located =>
      obtain ⟨sourceNorm, src⟩ := located
      rw [copy, look_andThen hsource]
      dsimp only
      cases hdest : fs.locate P t dest with
      | error e =>
          refine .inr ⟨?_, e, look_andThen_error hdest _⟩
          rintro src' dst ⟨_, _, -, h, -⟩
          cases hdest.symm.trans h
      | ok located =>
          obtain ⟨destNorm, dst⟩ := located
          rw [look_andThen hdest]
          dsimp only
          have hsame : ∀ src' dst', Cleared P fs t source dest src' dst' →
              ¬(sourceNorm = [] ∨ destNorm = []) ∧
              ¬(sourceNorm <+: destNorm ∧ sourceNorm ≠ destNorm) ∧
              (t.symlinkMetadata P dst).toOption.isSome = false ∧
              (t.symlinkMetadata P src).toOption.isSome = true := by
            rintro src' dst' ⟨_, _, hs, hd, hchecks⟩
            cases hsource.symm.trans hs
            cases hdest.symm.trans hd
            exact hchecks
          by_cases htop : sourceNorm = [] ∨ destNorm = []
          · rw [if_pos htop]
            exact .inr ⟨fun _ _ h => (hsame _ _ h).1 htop, _, rfl⟩
          rw [if_neg htop]
          by_cases hin : sourceNorm <+: destNorm ∧ sourceNorm ≠ destNorm
          · rw [if_pos hin]
            exact .inr ⟨fun _ _ h => (hsame _ _ h).2.1 hin, _, rfl⟩
          rw [if_neg hin, look_andThen (a := (t.symlinkMetadata P dst).toOption.isSome) rfl]
          cases hthere : (t.symlinkMetadata P dst).toOption.isSome with
          | true =>
              refine .inr ⟨fun _ _ h => ?_, _, rfl⟩
              rw [(hsame _ _ h).2.2.1] at hthere
              cases hthere
          | false =>
              rw [if_neg Bool.false_ne_true,
                look_andThen (a := (t.symlinkMetadata P src).toOption.isSome) rfl]
              cases hfound : (t.symlinkMetadata P src).toOption.isSome with
              | false =>
                  refine .inr ⟨fun _ _ h => ?_, _, rfl⟩
                  rw [(hsame _ _ h).2.2.2] at hfound
                  cases hfound
              | true =>
                  rw [if_pos rfl]
                  exact .inl ⟨src, dst, ⟨sourceNorm, destNorm, hsource, hdest, htop, hin, hthere,
                    hfound⟩, rfl⟩

/-- What the source of a copy leads to. -/
def SourceAt (P : Platform FileInfo) (fs : LocalFs) (t : FileTree FileInfo) (source : String)
    (s : Location) : Prop :=
  ∃ norm src, fs.locateTarget P t source = .ok (norm, src) ∧ t.canonicalize P src = .ok s

/-- Where the destination of a copy is. -/
def DestAt (P : Platform FileInfo) (fs : LocalFs) (t : FileTree FileInfo) (dest : String)
    (d : Location) : Prop :=
  ∃ norm dst, fs.locate P t dest = .ok (norm, dst) ∧ t.entryAt P dst = .ok d

/-- A copy ends, when enough steps are allowed.  When it ends well the destination holds what the
source held, and the source is as it was; a destination in the source is refused, and nothing is
changed then. -/
def CopiesSnapshot (P : Platform FileInfo) (fs : LocalFs) (t : FileTree FileInfo)
    (source dest : String) : Prop :=
  ∃ enough, ∀ fuel, enough ≤ fuel →
    (fs.copy P fuel source dest t).result ≠ .ok .pending ∧
    ((fs.copy P fuel source dest t).result = .ok .done → ∃ s d, SourceAt P fs t source s ∧
      DestAt P fs t dest d ∧ HoldsCopy t (fs.copy P fuel source dest t).tree s d) ∧
    ∀ s d, SourceAt P fs t source s → DestAt P fs t dest d → s <+: d →
      (∃ e, (fs.copy P fuel source dest t).result = .error e) ∧
        (fs.copy P fuel source dest t).tree = t

/-- The checks of a copy pass, but its source is a directory and its destination is in it. -/
def FeedsItself (P : Platform FileInfo) (fs : LocalFs) (t : FileTree FileInfo)
    (source dest : String) : Prop :=
  ∃ src dst s d n, Cleared P fs t source dest src dst ∧ t.entryAt P src = .ok s ∧
    t.node s = some n ∧ n.content = .dir ∧ t.entryAt P dst = .ok d ∧ s <+: d

section
variable {n : Node FileInfo}

theorem not_isSome_of_cleared (h : Cleared P fs t source dest src dst)
    (hd : t.entryAt P dst = .ok d) :
  t.node d = none
  := by
  obtain ⟨_, _, -, -, -, -, hmissing, -⟩ := h
  by_contra hsome
  obtain ⟨m, hm⟩ := Option.ne_none_iff_exists'.mp hsome
  rw [symlinkMetadata_eq_ok.mpr ⟨d, hd, hm⟩] at hmissing
  cases hmissing

/-- The last name of a destination can be the name of an entry. -/
theorem name_of_cleared (h : Cleared P fs t source dest src dst) :
  dst ≠ [] ∧ ∀ x, dst.getLast? = some x → IsName x
  := by
  obtain ⟨_, destNorm, -, hdest, htop, -⟩ := h
  obtain ⟨rfl, hnames, -⟩ := locate_eq_ok hdest
  have hne : destNorm ≠ [] := fun h => htop (.inr h)
  refine ⟨fun h => hne (List.append_eq_nil_iff.mp h).2, fun x hx => ?_⟩
  rw [List.getLast?_append_of_ne_nil _ hne] at hx
  exact hnames x (List.mem_of_getLast? hx)

/-- A copy whose destination is in its source begins to fill it. -/
theorem not_copiesSnapshot_of_feedsItself (h : FeedsItself P fs t source dest) :
  ¬CopiesSnapshot P fs t source dest
  := by
  obtain ⟨src, dst, s, d, n, hcleared, hsource, hn, hdir, hdest, hin⟩ := h
  rintro ⟨enough, hcopies⟩
  have hnone := not_isSome_of_cleared hcleared hdest
  obtain ⟨hne, hname⟩ := name_of_cleared hcleared
  have hself := canonicalize_of_entryAt hsource hn (fun _ h => by rw [hdir] at h; cases h)
  have hlocated := hcleared
  obtain ⟨sourceNorm, destNorm, hlocateSource, hlocateDest, -⟩ := hlocated
  obtain ⟨-, -, hrefused⟩ := hcopies enough (Nat.le_refl _)
  obtain ⟨-, htree⟩ := hrefused s d ⟨_, _, hlocateSource, hself⟩ ⟨_, _, hlocateDest, hdest⟩ hin
  obtain ⟨u, hcreate⟩ : ∃ u, (createDir P dst t).result = .ok u :=
    ⟨(), createDir_succeeds hdest hne hname hnone⟩
  rcases copy_cases P fs enough source dest t with ⟨src', dst', hcleared', hcopy⟩ | ⟨hnot, -⟩
  · obtain ⟨_, _, hs, hd, -⟩ := hcleared'
    cases hlocateSource.symm.trans hs
    cases hlocateDest.symm.trans hd
    -- The directory that is created stays.
    have hgrown : Grown (createDir P dst t).tree (fs.copy P enough source dest t).tree := by
      have hmeta : t.symlinkMetadata P src = .ok n := symlinkMetadata_eq_ok.mpr ⟨s, hsource, hn⟩
      rw [hcopy]
      have htail : Grown (createDir P dst t).tree (copyTree P enough src dst t).tree := by
        rw [copyTree, andThen_ok (mapError_eq_ok.mpr hmeta), hdir]
        change Grown _ (((createDir P dst).orElse LocalError.io >>= _) t).tree
        rw [andThen_ok (mapError_eq_ok.mpr hcreate)]
        exact grows_walk enough
      cases hresult : (copyTree P enough src dst t).result with
      | error e =>
          rw [andThen_error hresult]
          exact htail
      | ok ended =>
          rw [andThen_ok hresult]
          exact htail
    obtain ⟨p, hp, -, -, hpdir⟩ := createDir_ok hcreate
    cases hdest.symm.trans hp
    have hthere := hgrown.isDir hpdir
    rw [htree, isDir, hnone] at hthere
    cases hthere
  · exact hnot _ _ hcleared

/-- A copy does what it is to do unless its checks pass although its source is a directory that its
destination is in. -/
theorem copiesSnapshot_iff (P : Platform FileInfo) (fs : LocalFs) (t : FileTree FileInfo)
    (source dest : String) :
  CopiesSnapshot P fs t source dest ↔ ¬FeedsItself P fs t source dest
  := by
  refine ⟨fun h hfeeds => not_copiesSnapshot_of_feedsItself hfeeds h, fun hnot => ?_⟩
  refine ⟨t.listing.length, fun fuel hfuel => ?_⟩
  rcases copy_cases P fs fuel source dest t with ⟨src, dst, hcleared, hcopy⟩ | ⟨-, e, hcopy⟩
  · have hlocated := hcleared
    obtain ⟨sourceNorm, destNorm, hlocateSource, hlocateDest, -, -, -, hfound⟩ := hlocated
    obtain ⟨hne, hname⟩ := name_of_cleared hcleared
    obtain ⟨n, hmeta⟩ := Option.isSome_iff_exists.mp hfound
    have hmeta := toOption_eq_some.mp hmeta
    obtain ⟨s, hsource, hn⟩ := symlinkMetadata_eq_ok.mp hmeta
    have hyields := yields_copyTree hsource hn hne hname
      (fun d hd => not_isSome_of_cleared hcleared hd)
      (fun hdir d hd hin => hnot ⟨src, dst, s, d, n, hcleared, hsource, hn, hdir, hd, hin⟩) hfuel
    rw [hcopy]
    refine ⟨fun hpending => ?_, fun hdone => ?_, fun s' d' hs hd hin => ?_⟩
    · obtain ⟨ended, hended, hret⟩ := andThen_eq_ok hpending
      rw [(hyields ended hended).1] at hret
      cases hret
    · obtain ⟨ended, hended, -⟩ := andThen_eq_ok hdone
      obtain ⟨-, d, hdest, hholds⟩ := hyields ended hended
      rw [andThen_ok hended]
      refine ⟨s, d, ⟨_, _, hlocateSource, ?_⟩, ⟨_, _, hlocateDest, hdest⟩, hholds⟩
      apply canonicalize_of_entryAt hsource hn
      intro target hlink
      rw [copyTree, andThen_ok (mapError_eq_ok.mpr hmeta), hlink] at hended
      cases hended
    · obtain ⟨_, _, hs, hself⟩ := hs
      obtain ⟨_, _, hd, hdest⟩ := hd
      cases hlocateSource.symm.trans hs
      cases hlocateDest.symm.trans hd
      have hfails : (∃ e, (copyTree P fuel src dst t).result = .error e) ∧
          (copyTree P fuel src dst t).tree = t := by
        rw [copyTree, andThen_ok (mapError_eq_ok.mpr hmeta)]
        cases hcontent : n.content with
        | dir =>
            have hself' := canonicalize_of_entryAt hsource hn
              (fun _ h => by rw [hcontent] at h; cases h)
            cases hself.symm.trans hself'
            exact absurd ⟨src, dst, s, d', n, hcleared, hsource, hn, hcontent, hdest, hin⟩ hnot
        | file bytes =>
            have hself' := canonicalize_of_entryAt hsource hn
              (fun _ h => by rw [hcontent] at h; cases h)
            cases hself.symm.trans hself'
            refine absurd hin (not_prefix_of_entryAt hn ?_ hne hdest
              (not_isSome_of_cleared hcleared hdest))
            rw [hcontent]
            simp
        | link target => exact ⟨⟨_, rfl⟩, rfl⟩
        | special => exact ⟨⟨_, rfl⟩, rfl⟩
      obtain ⟨⟨e, hresult⟩, htree⟩ := hfails
      rw [andThen_error hresult]
      exact ⟨⟨e, rfl⟩, htree⟩
  · rw [hcopy]
    refine ⟨fun h => ?_, fun h => ?_, fun _ _ _ _ _ => ⟨⟨e, rfl⟩, rfl⟩⟩
    · cases h
    · cases h

end

/-! ### A link back into the source -/

/-- A directory, and a link to it beside it. -/
def linkedTree : FileTree FileInfo :=
  ofList [([], ⟨.dir, plainPlatform.fresh⟩), (["served"], ⟨.dir, plainPlatform.fresh⟩),
    (["served", "d"], ⟨.dir, plainPlatform.fresh⟩),
    (["served", "l"], ⟨.link ⟨false, ["d"]⟩, plainPlatform.fresh⟩)] (by decide)

theorem resolve_linked :
  linkedTree.resolve false 40 [] ["served", "l"] = .ok (["served", "d"], 39)
  := by
  have hserved : linkedTree.resolve false 40 [] ["served"] = .ok (["served"], 40) :=
    resolve_isDir rfl
  have hlink : linkedTree.shapeAt (["served"] ++ ["l"]) = some (.link ⟨false, ["d"]⟩) := rfl
  have hdir : linkedTree.shapeAt (["served"] ++ ["d"]) = some .dir := rfl
  change linkedTree.resolve false 40 [] (["served"] ++ ["l"]) = _
  rw [resolve_append hserved rfl, resolve_link (by decide) (by decide) hlink]
  change linkedTree.resolve false 39 ["served"] ["d"] = _
  rw [resolve_dir (by decide) (by decide) hdir, resolve_nil]
  rfl

theorem feedsItself_linked :
  FeedsItself plainPlatform besideFs linkedTree "d" "l/x"
  := by
  have hserved : linkedTree.canonicalize plainPlatform ["served"] = .ok ["served"] :=
    canonicalize_eq_ok.mpr ⟨40, resolve_isDir rfl⟩
  have hdir : linkedTree.canonicalize plainPlatform ["served", "d"] = .ok ["served", "d"] :=
    canonicalize_eq_ok.mpr ⟨40, resolve_isDir rfl⟩
  have hlink : linkedTree.canonicalize plainPlatform ["served", "l"] = .ok ["served", "d"] :=
    canonicalize_eq_ok.mpr ⟨39, resolve_linked⟩
  have hsource : linkedTree.entryAt plainPlatform ["served", "d"] = .ok ["served", "d"] :=
    entryAt_location rfl
  have hdest : linkedTree.entryAt plainPlatform (["served", "l"] ++ ["x"]) =
      .ok (["served", "d"] ++ ["x"]) :=
    entryAt_concat.mpr ⟨["served", "d"], 39, resolve_linked, rfl, rfl⟩
  have hthere : linkedTree.symlinkMetadata plainPlatform ["served", "d"] =
      .ok ⟨.dir, plainPlatform.fresh⟩ :=
    symlinkMetadata_eq_ok.mpr ⟨["served", "d"], hsource, rfl⟩
  have hmissing : linkedTree.symlinkMetadata plainPlatform (["served", "l"] ++ ["x"]) =
      .error .notFound := by
    rw [symlinkMetadata, hdest]
    rfl
  have hlocate : besideFs.locate plainPlatform linkedTree "d" =
      .ok (["d"], ["served", "d"]) := by
    refine bind_eq_ok.mpr ⟨(["d"], ["served", "d"]), by decide, ?_⟩
    dsimp only
    rw [if_pos (by decide)]
    exact bind_eq_ok.mpr ⟨(), confine_of_inside hserved (by decide), rfl⟩
  have hlocateTarget : besideFs.locateTarget plainPlatform linkedTree "d" =
      .ok (["d"], ["served", "d"]) := by
    refine bind_eq_ok.mpr ⟨(["d"], ["served", "d"]), hlocate, ?_⟩
    dsimp only
    rw [hthere]
    exact bind_eq_ok.mpr ⟨(), confine_of_inside hdir (by decide), rfl⟩
  have hlocateDest : besideFs.locate plainPlatform linkedTree "l/x" =
      .ok (["l", "x"], ["served", "l", "x"]) := by
    refine bind_eq_ok.mpr ⟨(["l", "x"], ["served", "l", "x"]), by decide, ?_⟩
    dsimp only
    rw [if_pos (by decide)]
    exact bind_eq_ok.mpr ⟨(), confine_of_inside hlink (by decide), rfl⟩
  refine ⟨["served", "d"], ["served", "l"] ++ ["x"], ["served", "d"], ["served", "d"] ++ ["x"],
    ⟨.dir, plainPlatform.fresh⟩, ⟨["d"], ["l", "x"], hlocateTarget, hlocateDest, by decide,
      by decide, ?_, ?_⟩, hsource, rfl, rfl, hdest, List.prefix_append _ _⟩
  · rw [hmissing]
    rfl
  · rw [hthere]
    rfl

/-- A destination below a link to the source is not refused. -/
theorem not_copiesSnapshot :
  ¬∀ (P : Platform FileInfo) (fs : LocalFs) (t : FileTree FileInfo) (source dest : String),
    t.isDir fs.root = true → CopiesSnapshot P fs t source dest
  := fun h => not_copiesSnapshot_of_feedsItself feedsItself_linked
    (h plainPlatform besideFs linkedTree "d" "l/x" rfl)

end LocalFs

end Termoso.Core
