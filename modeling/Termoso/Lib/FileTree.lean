import Mathlib.Data.List.Infix
import Mathlib.Data.List.Nodup
import Mathlib.Logic.Function.Basic

/-!
# File trees with symbolic links

A file tree has an object at each of finitely many locations: a directory, a file, a symbolic link
or something else.  A location is spelled by the names on the way to it from the top, and whatever
holds an object is a directory.

`resolve` follows a path as an operating system does: through links, wherever they lead, up to a
number of them.
-/

/-- The names on the way to an object from the top. -/
abbrev Location := List String

/-- What a symbolic link holds: a path, from the top or from the directory of the link. -/
structure LinkTarget where
  rooted : Bool
  segments : List String
deriving DecidableEq

inductive Content
  | dir
  | file (bytes : List UInt8)
  | link (target : LinkTarget)
  | special
deriving DecidableEq

structure Node (μ : Type) where
  content : Content
  info : μ

/-- A directory cannot have an entry of every name. -/
def IsName (x : String) : Prop := x ≠ "" ∧ x ≠ "." ∧ x ≠ ".."

instance (x : String) : Decidable (IsName x) := inferInstanceAs (Decidable (_ ∧ _ ∧ _))

/-- The objects at finitely many locations. `listing` has the locations in some order. -/
structure FileTree (μ : Type) where
  node : Location → Option (Node μ)
  listing : List Location
  nodup : listing.Nodup
  mem_listing : ∀ p, p ∈ listing ↔ (node p).isSome
  top : ∃ n, node [] = some n ∧ n.content = .dir
  parents : ∀ p x n, node (p ++ [x]) = some n →
    IsName x ∧ ∃ d, node p = some d ∧ d.content = .dir

namespace FileTree

variable {μ : Type}

/-! ### Locations -/

section
variable (t : FileTree μ)

/-- There is a directory at a location. -/
def isDir (p : Location) : Bool := (t.node p).any (fun n => decide (n.content = .dir))

/-- The names of the entries of a directory. -/
def children (p : Location) : List String :=
  t.listing.filterMap (fun r => if r ≠ [] ∧ r.dropLast = p then r.getLast? else none)

/-- A directory can get an entry of some name. -/
def Free (p : Location) (x : String) : Prop :=
  IsName x ∧ t.isDir p = true ∧ t.node (p ++ [x]) = none

instance (p : Location) (x : String) : Decidable (t.Free p x) :=
  decidable_of_iff (IsName x ∧ t.isDir p = true ∧ (t.node (p ++ [x])).isNone)
    (by rw [Free, Option.isNone_iff_eq_none])

end

section
variable {t : FileTree μ} {p r : Location} {x : String} {n : Node μ}

theorem isDir_iff :
  t.isDir p = true ↔ ∃ d, t.node p = some d ∧ d.content = .dir
  := by
  rw [isDir, Option.any_eq_true]
  apply exists_congr
  intro d
  rw [decide_eq_true_iff]

theorem isDir_top (t : FileTree μ) :
  t.isDir [] = true
  := isDir_iff.mpr t.top

theorem isDir_of_node (h : t.node (p ++ [x]) = some n) :
  t.isDir p = true
  := isDir_iff.mpr (t.parents p x n h).2

theorem isSome_of_isDir (h : t.isDir p = true) :
  (t.node p).isSome
  := by
  obtain ⟨d, hd, -⟩ := isDir_iff.mp h
  rw [hd]
  rfl

/-- Above an object there are directories. -/
theorem isDir_of_append (h : (t.node (p ++ r)).isSome) (hr : r ≠ []) :
  t.isDir p = true
  := by
  induction r using List.reverseRecOn with
  | nil => exact absurd rfl hr
  | append_singleton r x ih =>
      obtain ⟨n, hn⟩ := Option.isSome_iff_exists.mp h
      rw [← List.append_assoc] at hn
      have hdir := isDir_of_node hn
      by_cases hnil : r = []
      · rw [hnil, List.append_nil] at hdir
        exact hdir
      · exact ih (isSome_of_isDir hdir) hnil

theorem isDir_of_above (h : (t.node r).isSome) (hp : p <+: r) (hne : p ≠ r) :
  t.isDir p = true
  := by
  obtain ⟨rest, rfl⟩ := hp
  apply isDir_of_append h
  rintro rfl
  exact hne (List.append_nil p).symm

/-- The directory that holds an object. -/
theorem isDir_dropLast (h : (t.node p).isSome) :
  t.isDir p.dropLast = true
  := by
  cases p using List.reverseRecOn with
  | nil => exact isDir_top t
  | append_singleton p x =>
      rw [List.dropLast_concat]
      obtain ⟨n, hn⟩ := Option.isSome_iff_exists.mp h
      exact isDir_of_node hn

theorem mem_children :
  x ∈ t.children p ↔ (t.node (p ++ [x])).isSome
  := by
  rw [children, List.mem_filterMap]
  constructor
  · rintro ⟨r, hr, hx⟩
    split at hx
    · rename_i h
      have hsplit := List.dropLast_append_getLast? x hx
      rw [h.2] at hsplit
      rw [hsplit]
      exact (t.mem_listing r).mp hr
    · cases hx
  · intro h
    refine ⟨p ++ [x], (t.mem_listing _).mpr h, ?_⟩
    simp

theorem nodup_children (t : FileTree μ) (p : Location) :
  (t.children p).Nodup
  := by
  rw [children]
  apply List.Nodup.filterMap _ t.nodup
  intro r r' x hr hr'
  split at hr
  · rename_i h
    split at hr'
    · rename_i h'
      have hsplit := List.dropLast_append_getLast? x hr
      rw [h.2] at hsplit
      rw [← hsplit, ← h'.2]
      exact List.dropLast_append_getLast? x hr'
    · cases hr'
  · cases hr

end

/-! ### Changing a tree -/

section
variable (t : FileTree μ)

/-- A new entry of a directory. -/
def add (p : Location) (x : String) (n : Node μ) (h : t.Free p x) : FileTree μ where
  node := Function.update t.node (p ++ [x]) (some n)
  listing := t.listing ++ [p ++ [x]]
  nodup := by
    rw [List.nodup_append]
    refine ⟨t.nodup, List.nodup_singleton _, ?_⟩
    rintro q hq r hr rfl
    rw [List.mem_singleton.mp hr, t.mem_listing, h.2.2] at hq
    cases hq
  mem_listing q := by
    rw [List.mem_append, List.mem_singleton, Function.update_apply, t.mem_listing]
    split <;> simp_all
  top := by
    rw [Function.update_of_ne (by simp)]
    exact t.top
  parents q y m hm := by
    have hdir : ∀ q, t.isDir q = true →
        ∃ d, Function.update t.node (p ++ [x]) (some n) q = some d ∧ d.content = .dir := by
      intro q hq
      have hne : q ≠ p ++ [x] := by
        rintro rfl
        rw [isDir, h.2.2] at hq
        cases hq
      rw [Function.update_of_ne hne]
      exact isDir_iff.mp hq
    rw [Function.update_apply] at hm
    split at hm
    · rename_i heq
      obtain ⟨rfl, hxy⟩ := List.append_inj' heq rfl
      cases hxy
      exact ⟨h.1, hdir _ h.2.1⟩
    · exact ⟨(t.parents q y m hm).1, hdir _ (isDir_iff.mpr (t.parents q y m hm).2)⟩

/-- Change an object, but not whether it is a directory. -/
def alter (p : Location) (f : Node μ → Node μ)
    (hf : ∀ n, (f n).content = .dir ↔ n.content = .dir) : FileTree μ where
  node := Function.update t.node p ((t.node p).map f)
  listing := t.listing
  nodup := t.nodup
  mem_listing q := by
    rw [t.mem_listing, Function.update_apply]
    split
    · rename_i heq
      rw [Option.isSome_map, heq]
    · rfl
  top := by
    obtain ⟨n, hn, hdir⟩ := t.top
    rw [Function.update_apply]
    split
    · rename_i heq
      rw [← heq, hn]
      exact ⟨f n, rfl, (hf n).mpr hdir⟩
    · exact ⟨n, hn, hdir⟩
  parents q y m hm := by
    have hsome : ∃ m', t.node (q ++ [y]) = some m' := by
      rw [Function.update_apply] at hm
      split at hm
      · rename_i heq
        obtain ⟨m', hm', -⟩ := Option.map_eq_some_iff.mp hm
        rw [heq]
        exact ⟨m', hm'⟩
      · exact ⟨m, hm⟩
    obtain ⟨m', hm'⟩ := hsome
    obtain ⟨hname, d, hd, hdir⟩ := t.parents q y m' hm'
    refine ⟨hname, ?_⟩
    rw [Function.update_apply]
    split
    · rename_i heq
      rw [← heq, hd]
      exact ⟨f d, rfl, (hf d).mpr hdir⟩
    · exact ⟨d, hd, hdir⟩

/-- Remove everything at a location and below. -/
def prune (p : Location) (hp : p ≠ []) : FileTree μ where
  node r := if p <+: r then none else t.node r
  listing := t.listing.filter (fun r => decide (¬p <+: r))
  nodup := t.nodup.filter _
  mem_listing r := by
    rw [List.mem_filter, t.mem_listing]
    split <;> simp_all
  top := by
    rw [if_neg (fun h => hp (List.prefix_nil.mp h))]
    exact t.top
  parents q y m hm := by
    split at hm
    · cases hm
    · rename_i hnot
      rw [if_neg (fun h => hnot (h.trans (List.prefix_append q [y])))]
      exact t.parents q y m hm

/-- Where an object below `p` is after `p` was moved to `q`. -/
def relocate (p q r : Location) : Location := if p <+: r then q ++ r.drop p.length else r

/-- What `q` and everything below it came from when `p` was moved to it. -/
def moved (p q r : Location) : Option (Node μ) :=
  if q <+: r then t.node (p ++ r.drop q.length) else if p <+: r then none else t.node r

end

section
variable {t : FileTree μ} {p q r : Location} {x : String}

/-- Nothing is below what is not there. -/
theorem node_eq_none (h : t.node q = none) (hr : q <+: r) :
  t.node r = none
  := by
  by_contra hsome
  rw [← ne_eq, Option.ne_none_iff_isSome] at hsome
  by_cases hne : q = r
  · rw [← hne, h] at hsome
    cases hsome
  · have hdir := isDir_of_above hsome hr hne
    rw [isDir, h] at hdir
    cases hdir

theorem drop_of_above (h : p <+: r) :
  p ++ r.drop p.length = r
  := by
  obtain ⟨rest, rfl⟩ := h
  rw [List.drop_left]

end

/-- Move an object and everything below it to a free place that is not below it. -/
def move (t : FileTree μ) (p q : Location) (x : String) (h : t.Free q x) (hp : p ≠ [])
    (hin : ¬p <+: q) : FileTree μ where
  node := t.moved p (q ++ [x])
  listing := t.listing.map (relocate p (q ++ [x]))
  nodup := by
    apply List.Nodup.map_on _ t.nodup
    intro r hr r' hr' heq
    have hfree : ∀ r ∈ t.listing, ¬q ++ [x] <+: r := by
      intro r hr hbelow
      rw [t.mem_listing, node_eq_none h.2.2 hbelow] at hr
      cases hr
    rw [relocate, relocate] at heq
    split at heq <;> split at heq
    · rename_i hr hr'
      rw [← drop_of_above hr, ← drop_of_above hr', List.append_cancel_left heq]
    · exact absurd ⟨_, heq⟩ (hfree r' hr')
    · exact absurd ⟨_, heq.symm⟩ (hfree r hr)
    · exact heq
  mem_listing r := by
    rw [List.mem_map, moved]
    constructor
    · rintro ⟨r', hr', rfl⟩
      rw [t.mem_listing] at hr'
      rw [relocate]
      split
      · rename_i hbelow
        rw [if_pos (List.prefix_append _ _), List.drop_left, drop_of_above hbelow]
        exact hr'
      · rename_i hbelow
        have habove : ¬q ++ [x] <+: r' := by
          intro habove
          rw [node_eq_none h.2.2 habove] at hr'
          cases hr'
        rw [if_neg habove]
        exact hr'
    · intro hr
      split at hr
      · rename_i habove
        refine ⟨p ++ r.drop (q ++ [x]).length, (t.mem_listing _).mpr hr, ?_⟩
        rw [relocate, if_pos (List.prefix_append _ _), List.drop_left, drop_of_above habove]
      · split at hr
        · cases hr
        · rename_i hbelow
          exact ⟨r, (t.mem_listing _).mpr hr, if_neg hbelow⟩
  top := by
    rw [moved, if_neg (by simp), if_neg (fun h => hp (List.prefix_nil.mp h))]
    exact t.top
  parents r y m hm := by
    rw [moved] at hm
    split at hm
    · rename_i habove
      rcases List.prefix_concat_iff.mp habove with heq | habove
      · obtain ⟨rfl, hxy⟩ := List.append_inj' heq rfl
        cases hxy
        refine ⟨h.1, ?_⟩
        rw [moved, if_neg, if_neg hin]
        · exact isDir_iff.mp h.2.1
        · intro hpre
          have := hpre.length_le
          rw [List.length_append, List.length_singleton] at this
          omega
      · rw [List.drop_append_of_le_length habove.length_le, ← List.append_assoc] at hm
        rw [moved, if_pos habove]
        exact t.parents _ y m hm
    · rename_i habove
      split at hm
      · cases hm
      · rename_i hbelow
        rw [moved, if_neg (fun h => habove (h.trans (List.prefix_append r [y]))),
          if_neg (fun h => hbelow (h.trans (List.prefix_append r [y])))]
        exact t.parents r y m hm

/-- Objects that are listed, each once, with the directories that hold them. -/
structure Listed (l : List (Location × Node μ)) : Prop where
  nodup : (l.map Prod.fst).Nodup
  top : (List.lookup [] l).any (fun n => decide (n.content = .dir))
  parents : ∀ e ∈ l, e.1 = [] ∨ IsName (e.1.getLast?.getD "") ∧
    (List.lookup e.1.dropLast l).any (fun n => decide (n.content = .dir))

instance (l : List (Location × Node μ)) : Decidable (Listed l) :=
  decidable_of_iff ((l.map Prod.fst).Nodup ∧ _ ∧ _)
    ⟨fun ⟨h, h', h''⟩ => ⟨h, h', h''⟩, fun ⟨h, h', h''⟩ => ⟨h, h', h''⟩⟩

/-- The file tree with the objects that are listed. -/
def ofList (l : List (Location × Node μ)) (h : Listed l) : FileTree μ where
  node p := List.lookup p l
  listing := l.map Prod.fst
  nodup := h.nodup
  mem_listing p := by
    rw [List.mem_map, List.lookup_isSome_iff]
    simp
  top := by
    obtain ⟨n, hn, hdir⟩ := Option.any_eq_true _ _ |>.mp h.top
    exact ⟨n, hn, of_decide_eq_true hdir⟩
  parents p x n hn := by
    have hmem : (p ++ [x], n) ∈ l := by
      obtain ⟨l₁, l₂, heq, -⟩ := List.lookup_eq_some_iff.mp hn
      exact heq ▸ List.mem_append_right _ List.mem_cons_self
    rcases h.parents _ hmem with hnil | ⟨hname, hdir⟩
    · simp at hnil
    · rw [List.getLast?_concat] at hname
      rw [List.dropLast_concat, Option.any_eq_true] at hdir
      obtain ⟨d, hd, hdir⟩ := hdir
      exact ⟨hname, d, hd, of_decide_eq_true hdir⟩

/-! ### Following paths -/

/-- Why a call of the operating system fails. -/
inductive FileError
  | notFound
  | notADirectory
  | tooManyLinks
  | alreadyExists
  | isADirectory
  | notEmpty
  | invalidInput
deriving DecidableEq

/-- What an object is to a path that goes through it. -/
inductive Shape
  | dir
  | link (target : LinkTarget)
  | other
deriving DecidableEq

def shape : Content → Shape
  | .dir => .dir
  | .link target => .link target
  | .file _ | .special => .other

/-- The shape of what is at a location. -/
def shapeAt (t : FileTree μ) (p : Location) : Option Shape :=
  (t.node p).map (fun n => shape n.content)

/-- Where the path of a link starts that is in a directory. -/
def startOf (target : LinkTarget) (dir : Location) : Location := if target.rooted then [] else dir

/-- Follow a path from a directory, through as many links as `hops`. Gives the location and the hops
that are left. With `new` the last name need not be there yet. -/
def resolve (t : FileTree μ) (new : Bool) (hops : ℕ) (dir : Location) (path : List String) :
    Except FileError (Location × ℕ) :=
  match path with
  | [] => .ok (dir, hops)
  | c :: cs =>
    if c = "" ∨ c = "." then t.resolve new hops dir cs
    else if c = ".." then t.resolve new hops dir.dropLast cs
    else
      match t.shapeAt (dir ++ [c]) with
      | none => if new = true ∧ cs = [] then .ok (dir ++ [c], hops) else .error .notFound
      | some .dir => t.resolve new hops (dir ++ [c]) cs
      | some (.link target) =>
        match hops with
        | 0 => .error .tooManyLinks
        | hops + 1 => t.resolve new hops (startOf target dir) (target.segments ++ cs)
      | some .other => if cs = [] then .ok (dir ++ [c], hops) else .error .notADirectory
termination_by (hops, path.length)

section
variable {t t' : FileTree μ} {new : Bool} {hops left : ℕ} {dir p : Location}
  {path rest cs : List String} {x c : String} {n : Node μ} {result : Location × ℕ}

theorem isDir_iff_shapeAt :
  t.isDir p = true ↔ t.shapeAt p = some .dir
  := by
  rw [isDir_iff, shapeAt, Option.map_eq_some_iff]
  apply exists_congr
  intro d
  apply and_congr_right
  intro _
  cases d.content <;> simp [shape]

theorem isSome_shapeAt :
  (t.shapeAt p).isSome = (t.node p).isSome
  := Option.isSome_map ..

theorem isDir_startOf {target : LinkTarget} (h : t.isDir dir = true) :
  t.isDir (startOf target dir) = true
  := by
  rw [startOf]
  split
  · exact isDir_top t
  · exact h

theorem resolve_nil :
  t.resolve new hops dir [] = .ok (dir, hops)
  := by
  rw [resolve]

theorem resolve_skip (hc : c = "" ∨ c = ".") :
  t.resolve new hops dir (c :: cs) = t.resolve new hops dir cs
  := by
  rw [resolve, if_pos hc]

theorem resolve_up :
  t.resolve new hops dir (".." :: cs) = t.resolve new hops dir.dropLast cs
  := by
  rw [resolve, if_neg (by decide), if_pos rfl]

section
variable (hskip : ¬(c = "" ∨ c = ".")) (hup : ¬c = "..")
include hskip hup

/-- A name is looked up in the directory. -/
theorem resolve_lookup :
  t.resolve new hops dir (c :: cs) =
    match t.shapeAt (dir ++ [c]) with
    | none => if new = true ∧ cs = [] then .ok (dir ++ [c], hops) else .error .notFound
    | some .dir => t.resolve new hops (dir ++ [c]) cs
    | some (.link target) =>
      match hops with
      | 0 => .error .tooManyLinks
      | hops + 1 => t.resolve new hops (startOf target dir) (target.segments ++ cs)
    | some .other => if cs = [] then .ok (dir ++ [c], hops) else .error .notADirectory
  := by
  rw [resolve, if_neg hskip, if_neg hup]

theorem resolve_none (h : t.shapeAt (dir ++ [c]) = none) :
  t.resolve new hops dir (c :: cs) =
    if new = true ∧ cs = [] then .ok (dir ++ [c], hops) else .error .notFound
  := by
  rw [resolve_lookup hskip hup, h]

theorem resolve_dir (h : t.shapeAt (dir ++ [c]) = some .dir) :
  t.resolve new hops dir (c :: cs) = t.resolve new hops (dir ++ [c]) cs
  := by
  rw [resolve_lookup hskip hup, h]

theorem resolve_link {target : LinkTarget} (h : t.shapeAt (dir ++ [c]) = some (.link target)) :
  t.resolve new (hops + 1) dir (c :: cs) =
    t.resolve new hops (startOf target dir) (target.segments ++ cs)
  := by
  rw [resolve_lookup hskip hup, h]

theorem resolve_link_zero {target : LinkTarget}
    (h : t.shapeAt (dir ++ [c]) = some (.link target)) :
  t.resolve new 0 dir (c :: cs) = .error .tooManyLinks
  := by
  rw [resolve_lookup hskip hup, h]

theorem resolve_other (h : t.shapeAt (dir ++ [c]) = some .other) :
  t.resolve new hops dir (c :: cs) =
    if cs = [] then .ok (dir ++ [c], hops) else .error .notADirectory
  := by
  rw [resolve_lookup hskip hup, h]

end

/-- How a path leads to something that is there, and which hops are left. -/
inductive Leads (t : FileTree μ) : ℕ → Location → List String → Location → ℕ → Prop
  | here {hops : ℕ} {dir : Location} : Leads t hops dir [] dir hops
  | skip {hops left : ℕ} {dir p : Location} {c : String} {cs : List String} :
    c = "" ∨ c = "." → Leads t hops dir cs p left → Leads t hops dir (c :: cs) p left
  | up {hops left : ℕ} {dir p : Location} {cs : List String} :
    Leads t hops dir.dropLast cs p left → Leads t hops dir (".." :: cs) p left
  | dir {hops left : ℕ} {dir p : Location} {c : String} {cs : List String} :
    ¬(c = "" ∨ c = ".") → ¬c = ".." → t.shapeAt (dir ++ [c]) = some .dir →
    Leads t hops (dir ++ [c]) cs p left → Leads t hops dir (c :: cs) p left
  | link {hops left : ℕ} {dir p : Location} {c : String} {cs : List String}
    {target : LinkTarget} :
    ¬(c = "" ∨ c = ".") → ¬c = ".." → t.shapeAt (dir ++ [c]) = some (.link target) →
    Leads t hops (startOf target dir) (target.segments ++ cs) p left →
    Leads t (hops + 1) dir (c :: cs) p left
  | other {hops : ℕ} {dir : Location} {c : String} :
    ¬(c = "" ∨ c = ".") → ¬c = ".." → t.shapeAt (dir ++ [c]) = some .other →
    Leads t hops dir [c] (dir ++ [c]) hops

theorem leads_of_resolve (h : t.resolve false hops dir path = .ok (p, left)) :
  t.Leads hops dir path p left
  := by
  fun_induction resolve t false hops dir path with
  | case1 =>
      cases h
      exact .here
  | case2 _ _ _ _ hskip ih => exact .skip hskip (ih h)
  | case3 _ _ _ _ ih => exact .up (ih h)
  | case4 _ _ _ _ _ _ _ hnew => cases hnew.1
  | case5 => cases h
  | case6 _ _ _ _ hskip hup hdir ih => exact .dir hskip hup hdir (ih h)
  | case7 => cases h
  | case8 _ _ _ hskip hup _ hlink _ ih => exact .link hskip hup hlink (ih h)
  | case9 _ _ _ hskip hup hother =>
      cases h
      exact .other hskip hup hother
  | case10 => cases h

/-- A path that leads to something leads to the same in a tree with more, and when it may lead to
something new. -/
theorem resolve_mono (ht : ∀ p s, t.shapeAt p = some s → t'.shapeAt p = some s)
    (new : Bool) (h : t.resolve false hops dir path = .ok result) :
  t'.resolve new hops dir path = .ok result
  := by
  obtain ⟨p, left⟩ := result
  have hleads := leads_of_resolve h
  clear h
  induction hleads with
  | here => exact resolve_nil
  | skip hskip _ ih =>
      rw [resolve_skip hskip]
      exact ih
  | up _ ih =>
      rw [resolve_up]
      exact ih
  | dir hskip hup hdir _ ih =>
      rw [resolve_dir hskip hup (ht _ _ hdir)]
      exact ih
  | link hskip hup hlink _ ih =>
      rw [resolve_link hskip hup (ht _ _ hlink)]
      exact ih
  | other hskip hup hother => rw [resolve_other hskip hup (ht _ _ hother), if_pos rfl]

/-- A path to a directory is followed, and then the rest. -/
theorem resolve_append (h : t.resolve false hops dir path = .ok (p, left)) (hp : t.isDir p = true)
    (new : Bool) (rest : List String) :
  t.resolve new hops dir (path ++ rest) = t.resolve new left p rest
  := by
  have hleads := leads_of_resolve h
  clear h
  induction hleads with
  | here => rfl
  | skip hskip _ ih =>
      rw [List.cons_append, resolve_skip hskip]
      exact ih hp
  | up _ ih =>
      rw [List.cons_append, resolve_up]
      exact ih hp
  | dir hskip hup hdir _ ih =>
      rw [List.cons_append, resolve_dir hskip hup hdir]
      exact ih hp
  | link hskip hup hlink _ ih =>
      rw [List.cons_append, resolve_link hskip hup hlink, ← List.append_assoc]
      exact ih hp
  | other _ _ hother =>
      rw [isDir_iff_shapeAt, hother] at hp
      cases hp

/-- What a path leads to goes on from a directory. -/
theorem resolve_split (hdir : t.isDir dir = true) (hrest : rest ≠ [])
    (h : t.resolve new hops dir (path ++ rest) = .ok result) :
  ∃ p left, t.resolve false hops dir path = .ok (p, left) ∧ t.isDir p = true ∧
    t.resolve new left p rest = .ok result
  := by
  fun_induction resolve t false hops dir path with
  | case1 hops dir => exact ⟨dir, hops, rfl, hdir, h⟩
  | case2 _ _ _ _ hskip ih =>
      rw [List.cons_append, resolve_skip hskip] at h
      exact ih hdir h
  | case3 _ _ _ _ ih =>
      rw [List.cons_append, resolve_up] at h
      exact ih (isDir_dropLast (isSome_of_isDir hdir)) h
  | case4 _ _ _ _ _ _ _ hnew => cases hnew.1
  | case5 _ _ _ _ hskip hup hnone =>
      rw [List.cons_append, resolve_none hskip hup hnone,
        if_neg (fun h => hrest (List.append_eq_nil_iff.mp h.2).2)] at h
      cases h
  | case6 _ _ _ _ hskip hup hd ih =>
      rw [List.cons_append, resolve_dir hskip hup hd] at h
      exact ih (isDir_iff_shapeAt.mpr hd) h
  | case7 _ _ _ hskip hup _ hlink =>
      rw [List.cons_append, resolve_link_zero hskip hup hlink] at h
      cases h
  | case8 _ _ _ hskip hup _ hlink _ ih =>
      rw [List.cons_append, resolve_link hskip hup hlink, ← List.append_assoc] at h
      exact ih (isDir_startOf hdir) h
  | case9 _ _ _ hskip hup hother =>
      rw [List.cons_append, resolve_other hskip hup hother, List.nil_append, if_neg hrest] at h
      cases h
  | case10 _ _ _ _ hskip hup hother =>
      rw [List.cons_append, resolve_other hskip hup hother,
        if_neg (fun h => hrest (List.append_eq_nil_iff.mp h).2)] at h
      cases h

/-- A path that does not lead to something new leads to something. -/
theorem isSome_of_resolve (hdir : t.isDir dir = true)
    (h : t.resolve false hops dir path = .ok (p, left)) :
  (t.node p).isSome
  := by
  have hleads := leads_of_resolve h
  clear h
  induction hleads with
  | here => exact isSome_of_isDir hdir
  | skip _ _ ih => exact ih hdir
  | up _ ih => exact ih (isDir_dropLast (isSome_of_isDir hdir))
  | dir _ _ hd _ ih => exact ih (isDir_iff_shapeAt.mpr hd)
  | link _ _ _ _ ih => exact ih (isDir_startOf hdir)
  | other _ _ hother =>
      rw [← isSome_shapeAt, hother]
      rfl

/-- The location of an object leads to it. -/
theorem resolve_location (h : (t.node p).isSome)
    (hlink : ∀ target, t.shapeAt p ≠ some (.link target)) :
  t.resolve new hops [] p = .ok (p, hops)
  := by
  induction p using List.reverseRecOn generalizing new with
  | nil => exact resolve_nil
  | append_singleton p x ih =>
      obtain ⟨n, hn⟩ := Option.isSome_iff_exists.mp h
      have hdir := isDir_of_node hn
      have hname := (t.parents p x n hn).1
      have hshape := isDir_iff_shapeAt.mp hdir
      have hp := @ih false (isSome_of_isDir hdir) (by simp [hshape])
      rw [resolve_append hp hdir]
      have hskip : ¬(x = "" ∨ x = ".") := by
        rintro (h | h)
        · exact hname.1 h
        · exact hname.2.1 h
      cases hx : t.shapeAt (p ++ [x]) with
      | none =>
          rw [← isSome_shapeAt, hx] at h
          cases h
      | some s =>
          cases s with
          | dir => rw [resolve_dir hskip hname.2.2 hx, resolve_nil]
          | link target => exact absurd hx (hlink target)
          | other => rw [resolve_other hskip hname.2.2 hx, if_pos rfl]

theorem resolve_isDir (h : t.isDir p = true) :
  t.resolve new hops [] p = .ok (p, hops)
  := resolve_location (isSome_of_isDir h) (by simp [isDir_iff_shapeAt.mp h])

/-- Where a path leads there is no link. -/
theorem shapeAt_of_resolve (hdir : t.isDir dir = true)
    (h : t.resolve false hops dir path = .ok (p, left)) (target : LinkTarget) :
  t.shapeAt p ≠ some (.link target)
  := by
  have hleads := leads_of_resolve h
  clear h
  induction hleads with
  | here =>
      rw [isDir_iff_shapeAt.mp hdir]
      intro h
      cases h
  | skip _ _ ih => exact ih hdir
  | up _ ih => exact ih (isDir_dropLast (isSome_of_isDir hdir))
  | dir _ _ hd _ ih => exact ih (isDir_iff_shapeAt.mpr hd)
  | link _ _ _ _ ih => exact ih (isDir_startOf hdir)
  | other _ _ hother =>
      rw [hother]
      intro h
      cases h

end

end FileTree
