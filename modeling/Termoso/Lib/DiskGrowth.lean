import Termoso.Lib.Disk
import Termoso.Lib.Result

/-!
# Growing file trees

Most calls let a tree grow: what was there keeps its shape, and what is new is no link.  So a path
that led somewhere leads there still, and where an object was created its path leads to it.
-/

/-! ### Looking objects up -/

namespace FileTree

section
variable {μ : Type} {P : Platform μ} {t t' : FileTree μ} {path : List String} {p : Location}
  {x : String} {n : Node μ}

theorem canonicalize_eq_ok :
  t.canonicalize P path = .ok p ↔ ∃ left, t.resolve false P.hops [] path = .ok (p, left)
  := by
  rw [canonicalize]
  cases t.resolve false P.hops [] path with
  | error e =>
      constructor
      · intro h
        cases h
      · rintro ⟨left, h⟩
        cases h
  | ok result =>
      constructor
      · intro h
        cases h
        exact ⟨result.2, rfl⟩
      · rintro ⟨left, h⟩
        cases h
        rfl

theorem entryAt_concat :
  t.entryAt P (path ++ [x]) = .ok p ↔
    ∃ d left, t.resolve false P.hops [] path = .ok (d, left) ∧ t.isDir d = true ∧ p = d ++ [x]
  := by
  rw [entryAt, List.getLast?_concat, List.dropLast_concat]
  dsimp only
  cases t.resolve false P.hops [] path with
  | error e =>
      constructor
      · intro h
        cases h
      · rintro ⟨d, left, h, -⟩
        cases h
  | ok result =>
      obtain ⟨d, left⟩ := result
      change (if t.isDir d = true then Except.ok (d ++ [x]) else Except.error _) = _ ↔ _
      split
      · rename_i hd
        constructor
        · intro h
          cases h
          exact ⟨d, left, rfl, hd, rfl⟩
        · rintro ⟨d', left', h, -, rfl⟩
          cases h
          rfl
      · rename_i hd
        constructor
        · intro h
          cases h
        · rintro ⟨d', left', h, hd', -⟩
          cases h
          exact absurd hd' hd

/-- The location of an object is where its own entry is. -/
theorem entryAt_location (h : (t.node p).isSome) :
  t.entryAt P p = .ok p
  := by
  cases p using List.reverseRecOn with
  | nil => rfl
  | append_singleton p x =>
      obtain ⟨n, hn⟩ := Option.isSome_iff_exists.mp h
      have hdir := isDir_of_node hn
      exact entryAt_concat.mpr ⟨p, P.hops, resolve_isDir hdir, hdir, rfl⟩

theorem symlinkMetadata_eq_ok :
  t.symlinkMetadata P path = .ok n ↔ ∃ p, t.entryAt P path = .ok p ∧ t.node p = some n
  := by
  rw [symlinkMetadata]
  cases t.entryAt P path with
  | error e =>
      constructor
      · intro h
        cases h
      · rintro ⟨p, h, -⟩
        cases h
  | ok p =>
      change (t.node p).elim (throw FileError.notFound) pure = Except.ok n ↔ _
      constructor
      · intro h
        refine ⟨p, rfl, ?_⟩
        cases hp : t.node p with
        | none =>
            rw [hp] at h
            cases h
        | some m =>
            rw [hp] at h
            cases h
            rfl
      · rintro ⟨p', h, hn⟩
        cases h
        rw [hn]
        rfl

theorem metadata_eq_ok :
  t.metadata P path = .ok n ↔ ∃ p, t.canonicalize P path = .ok p ∧ t.node p = some n
  := by
  rw [metadata]
  cases t.canonicalize P path with
  | error e =>
      constructor
      · intro h
        cases h
      · rintro ⟨p, h, -⟩
        cases h
  | ok p =>
      change (t.node p).elim (throw FileError.notFound) pure = Except.ok n ↔ _
      constructor
      · intro h
        refine ⟨p, rfl, ?_⟩
        cases hp : t.node p with
        | none =>
            rw [hp] at h
            cases h
        | some m =>
            rw [hp] at h
            cases h
            rfl
      · rintro ⟨p', h, hn⟩
        cases h
        rw [hn]
        rfl

theorem isName_iff :
  IsName x ↔ ¬(x = "" ∨ x = ".") ∧ ¬x = ".."
  := by
  rw [IsName, not_or, and_assoc]

/-- What is no link is where its path leads. -/
theorem canonicalize_of_entryAt (hp : t.entryAt P path = .ok p) (hn : t.node p = some n)
    (hlink : ∀ target, n.content ≠ .link target) :
  t.canonicalize P path = .ok p
  := by
  cases path using List.reverseRecOn with
  | nil =>
      cases hp
      exact canonicalize_eq_ok.mpr ⟨P.hops, resolve_nil⟩
  | append_singleton path x =>
      obtain ⟨d, left, hd, hdir, rfl⟩ := entryAt_concat.mp hp
      obtain ⟨hskip, hup⟩ := isName_iff.mp (t.parents d x n hn).1
      have hshape : t.shapeAt (d ++ [x]) = some (shape n.content) := by
        rw [shapeAt, hn]
        rfl
      refine canonicalize_eq_ok.mpr ⟨left, ?_⟩
      rw [resolve_append hd hdir]
      cases hcontent : n.content with
      | dir =>
          rw [hcontent] at hshape
          rw [resolve_dir hskip hup hshape, resolve_nil]
      | link target => exact absurd hcontent (hlink target)
      | file bytes =>
          rw [hcontent] at hshape
          rw [resolve_other hskip hup hshape, if_pos rfl]
      | special =>
          rw [hcontent] at hshape
          rw [resolve_other hskip hup hshape, if_pos rfl]

/-- A name that is there or can be there is one step. -/
theorem resolve_name (hx : IsName x) (hlink : ∀ target, t.shapeAt (p ++ [x]) ≠ some (.link target))
    {new : Bool} {hops left : ℕ} {q : Location}
    (h : t.resolve new hops p [x] = .ok (q, left)) :
  q = p ++ [x]
  := by
  obtain ⟨hskip, hup⟩ := isName_iff.mp hx
  cases hshape : t.shapeAt (p ++ [x]) with
  | none =>
      rw [resolve_none hskip hup hshape] at h
      split at h <;> cases h
      rfl
  | some s =>
      cases s with
      | dir =>
          rw [resolve_dir hskip hup hshape, resolve_nil] at h
          cases h
          rfl
      | link target => exact absurd hshape (hlink target)
      | other =>
          rw [resolve_other hskip hup hshape, if_pos rfl] at h
          cases h
          rfl

end

end FileTree

/-! ### Trees that grow -/

namespace FileTree

variable {μ : Type} {t t' t'' : FileTree μ}

/-- What was there is there with its shape, and what was not is no link. -/
def Grown (t t' : FileTree μ) : Prop :=
  ∀ r, t'.shapeAt r = t.shapeAt r ∨
    t.shapeAt r = none ∧ ∃ s, t'.shapeAt r = some s ∧ ∀ target, s ≠ .link target

theorem Grown.refl (t : FileTree μ) :
  Grown t t
  := fun _ => .inl rfl

theorem Grown.mono (h : Grown t t') {r : Location} {s : Shape} (hs : t.shapeAt r = some s) :
  t'.shapeAt r = some s
  := by
  rcases h r with heq | ⟨hnone, -⟩
  · rw [heq, hs]
  · rw [hnone] at hs
    cases hs

/-- What is new is no link. -/
theorem Grown.not_link (h : Grown t t') {r : Location} (hnone : t.node r = none)
    (target : LinkTarget) :
  t'.shapeAt r ≠ some (.link target)
  := by
  have hshape : t.shapeAt r = none := by
    rw [shapeAt, hnone]
    rfl
  intro htarget
  rcases h r with heq | ⟨-, s, hs, hlink⟩
  · rw [heq, hshape] at htarget
    cases htarget
  · rw [hs] at htarget
    exact hlink target (Option.some.inj htarget)

theorem Grown.trans (h : Grown t t') (h' : Grown t' t'') :
  Grown t t''
  := by
  intro r
  rcases h r with heq | ⟨hnone, s, hs, hlink⟩
  · rw [← heq]
    exact h' r
  · exact .inr ⟨hnone, s, h'.mono hs, hlink⟩

theorem Grown.isDir (h : Grown t t') {p : Location} (hp : t.isDir p = true) :
  t'.isDir p = true
  := isDir_iff_shapeAt.mpr (h.mono (isDir_iff_shapeAt.mp hp))

theorem Grown.resolve (h : Grown t t') {hops : ℕ} {dir : Location} {path : List String}
    {result : Location × ℕ} (hresolve : t.resolve false hops dir path = .ok result) (new : Bool) :
  t'.resolve new hops dir path = .ok result
  := resolve_mono (fun _ _ => h.mono) new hresolve

/-- A tree with the same shapes. -/
theorem grown_of_eq (h : ∀ r, t'.shapeAt r = t.shapeAt r) :
  Grown t t'
  := fun r => .inl (h r)

/-- What is created is no link. -/
theorem grown_create {p : Location} {n : Node μ} (h : t.create p n = some t')
    (hn : ∀ target, n.content ≠ .link target) :
  Grown t t'
  := by
  obtain ⟨q, x, rfl, hfree, hnode⟩ := create_eq_some h
  intro r
  rw [shapeAt, shapeAt, hnode]
  split
  · rename_i hr
    rw [hr, hfree.2.2]
    refine .inr ⟨rfl, shape n.content, rfl, fun target htarget => ?_⟩
    cases hcontent : n.content with
    | link target' => exact hn target' hcontent
    | _ =>
        rw [hcontent] at htarget
        cases htarget
  · exact .inl rfl

theorem shapeAt_setBytes (p : Location) (f : List UInt8 → List UInt8) (r : Location) :
  (t.setBytes p f).shapeAt r = t.shapeAt r
  := by
  change ((Function.update t.node p _) r).map _ = _
  rw [Function.update_apply]
  split
  · rename_i hr
    rw [hr, shapeAt, Option.map_map]
    congr 1
    funext n
    obtain ⟨content, info⟩ := n
    cases content <;> rfl
  · rfl

theorem shapeAt_setInfo (p : Location) (f : μ → μ) (r : Location) :
  (t.setInfo p f).shapeAt r = t.shapeAt r
  := by
  change ((Function.update t.node p _) r).map _ = _
  rw [Function.update_apply]
  split
  · rename_i hr
    rw [hr, shapeAt, Option.map_map]
    rfl
  · rfl

end FileTree

namespace Disk

open FileTree

variable {μ ε ε' α β : Type} {P : Platform μ} {t : FileTree μ}

/-- Run on a tree, a program lets it grow. -/
def Grows (m : Disk μ ε α) (t : FileTree μ) : Prop := Grown t (m t).tree

section
variable {m : Disk μ ε α} {f : α → Disk μ ε β}

theorem grows_ret {a : α} :
  Grows (ret a : Disk μ ε α) t
  := Grown.refl t

theorem grows_fail {e : ε} :
  Grows (fail e : Disk μ ε α) t
  := Grown.refl t

theorem grows_look {g : FileTree μ → Except ε α} :
  Grows (look g) t
  := Grown.refl t

theorem grows_andThen (hm : Grows m t)
    (hf : ∀ a, (m t).result = .ok a → Grows (f a) (m t).tree) :
  Grows (m >>= f) t
  := by
  cases h : (m t).result with
  | error e =>
      rw [Grows, andThen_error h]
      exact hm
  | ok a =>
      rw [Grows, andThen_ok h]
      exact hm.trans (hf a h)

theorem grows_look_andThen {g : FileTree μ → Except ε α}
    (hf : ∀ a, g t = .ok a → Grows (f a) t) :
  Grows (look g >>= f) t
  := grows_andThen grows_look hf

theorem grows_attempt (h : Grows m t) :
  Grows (attempt m : Disk μ ε' (Except ε α)) t
  := h

end

section
variable {path : List String} {p : Location}

theorem grows_createAt {content : Content} (h : ∀ target, content ≠ .link target) :
  Grows (createAt P p content) t
  := by
  refine grows_look_andThen ?_
  rintro t' ⟨⟩
  split
  · exact grows_fail
  · split
    · rename_i t' ht'
      exact grown_create ht' h
    · exact grows_fail

theorem grows_createDir :
  Grows (createDir P path) t
  := grows_look_andThen (fun _ _ => grows_createAt (fun _ h => by cases h))

theorem grows_makeDir :
  Grows (makeDir P path) t
  := by
  refine grows_andThen (grows_attempt grows_createDir) (fun r _ => ?_)
  split
  · exact grows_ret
  · refine grows_andThen (grows_attempt grows_look) (fun r _ => ?_)
    split
    · split
      · exact grows_ret
      · exact grows_fail
    · exact grows_fail

theorem grows_createDirAll :
  Grows (createDirAll P path) t
  := by
  induction hn : path.length using Nat.strong_induction_on generalizing path t with
  | _ n ih =>
      rw [createDirAll]
      refine grows_andThen (grows_attempt grows_makeDir) (fun r _ => ?_)
      split
      · exact grows_ret
      · split
        · rename_i h
          refine grows_andThen (ih path.dropLast.length ?_ rfl) (fun _ _ => grows_makeDir)
          rw [List.length_dropLast, ← hn]
          have := List.length_pos_of_ne_nil h.2
          omega
        · exact grows_fail

theorem grows_readFile :
  Grows (readFile P path) t
  := by
  refine grows_look_andThen (fun p _ => grows_look_andThen ?_)
  rintro t' ⟨⟩
  split
  · exact grows_fail
  split
  · exact Grown.refl t
  · exact grows_fail
  · exact grows_fail

theorem grows_readDir :
  Grows (readDir P path) t
  := by
  refine grows_look_andThen (fun p _ => grows_look_andThen ?_)
  rintro t' ⟨⟩
  split
  · exact Grown.refl t
  · exact grows_fail

theorem grows_writeFile {new : Bool} {f : List UInt8 → List UInt8} :
  Grows (writeFile P new path f) t
  := by
  refine grows_look_andThen (fun p _ => grows_look_andThen ?_)
  rintro t' ⟨⟩
  split
  · exact grows_createAt (fun _ h => by cases h)
  split
  · exact grown_of_eq (shapeAt_setBytes _ _)
  · exact grows_fail
  · exact grows_fail

theorem grows_setPermissions {f : μ → μ} :
  Grows (setPermissions P path f) t
  := by
  refine grows_look_andThen (fun p _ => grows_look_andThen ?_)
  rintro t' ⟨⟩
  split
  · exact grows_fail
  · exact grown_of_eq (shapeAt_setInfo _ _)

end

end Disk

/-! ### Programs that let a tree grow -/

namespace Disk

open FileTree

variable {μ ε ε' α β : Type} {P : Platform μ} {t : FileTree μ}

/-- Run on a tree, a program touches only what `L` allows and lets the tree grow. -/
def Extends (L : Touch → Prop) (m : Disk μ ε α) (t : FileTree μ) : Prop := Only L m t ∧ Grows m t

section
variable {L : Touch → Prop} {m : Disk μ ε α} {f : α → Disk μ ε β}

theorem extends_ret {a : α} :
  Extends L (ret a : Disk μ ε α) t
  := ⟨only_ret, grows_ret⟩

theorem extends_fail {e : ε} :
  Extends L (fail e : Disk μ ε α) t
  := ⟨only_fail, grows_fail⟩

theorem extends_look {g : FileTree μ → Except ε α} :
  Extends L (look g) t
  := ⟨only_look, grows_look⟩

theorem extends_andThen (hm : Extends L m t)
    (hf : ∀ a, Grown t (m t).tree → (m t).result = .ok a → Extends L (f a) (m t).tree) :
  Extends L (m >>= f) t
  := ⟨only_andThen hm.1 (fun a ha => (hf a hm.2 ha).1),
    grows_andThen hm.2 (fun a ha => (hf a hm.2 ha).2)⟩

theorem extends_look_andThen {g : FileTree μ → Except ε α}
    (hf : ∀ a, g t = .ok a → Extends L (f a) t) :
  Extends L (look g >>= f) t
  := extends_andThen extends_look (fun a _ ha => hf a ha)

theorem extends_attempt (h : Extends L m t) :
  Extends L (attempt m : Disk μ ε' (Except ε α)) t
  := h

theorem extends_orElse {g : ε → ε'} (h : Extends L m t) :
  Extends L (m.orElse g) t
  := h

/-- Looking, with an error called by another name. -/
theorem extends_orElse_andThen {ε'' : Type} {g : FileTree μ → Except ε'' α} {e : ε'' → ε}
    (hf : ∀ a, g t = .ok a → Extends L (f a) t) :
  Extends L ((look g).orElse e >>= f) t
  := extends_andThen (extends_orElse extends_look) (fun a _ ha => hf a (mapError_eq_ok.mp ha))

end

/-- What a program returns is what `Q` says of the tree then. -/
def Yields (Q : α → FileTree μ → Prop) (m : Disk μ ε α) (t : FileTree μ) : Prop :=
  ∀ a, (m t).result = .ok a → Q a (m t).tree

def Leaves (L : Touch → Prop) (Q : α → FileTree μ → Prop) (m : Disk μ ε α) (t : FileTree μ) :
    Prop :=
  Extends L m t ∧ Yields Q m t

section
variable {L : Touch → Prop} {m : Disk μ ε α} {f : α → Disk μ ε β} {Q : β → FileTree μ → Prop}

theorem yields_ret {b : β} (h : Q b t) :
  Yields Q (ret b : Disk μ ε β) t
  := by
  intro b' hb
  cases hb
  exact h

theorem yields_fail {e : ε} :
  Yields Q (fail e : Disk μ ε β) t
  := by
  intro b' hb
  cases hb

theorem yields_andThen (hf : ∀ a, (m t).result = .ok a → Yields Q (f a) (m t).tree) :
  Yields Q (m >>= f) t
  := by
  intro b hb
  cases h : (m t).result with
  | error e =>
      rw [andThen_error h] at hb
      cases hb
  | ok a =>
      rw [andThen_ok h] at hb ⊢
      exact hf a h b hb

theorem leaves_ret {b : β} (h : Q b t) :
  Leaves L Q (ret b : Disk μ ε β) t
  := ⟨extends_ret, yields_ret h⟩

theorem leaves_fail {e : ε} :
  Leaves L Q (fail e : Disk μ ε β) t
  := ⟨extends_fail, yields_fail⟩

theorem leaves_andThen (hm : Extends L m t)
    (hf : ∀ a, Grown t (m t).tree → (m t).result = .ok a → Leaves L Q (f a) (m t).tree) :
  Leaves L Q (m >>= f) t
  := ⟨extends_andThen hm (fun a ht ha => (hf a ht ha).1),
    yields_andThen (fun a ha => (hf a hm.2 ha).2)⟩

theorem leaves_look_andThen {g : FileTree μ → Except ε α}
    (hf : ∀ a, g t = .ok a → Leaves L Q (f a) t) :
  Leaves L Q (look g >>= f) t
  := leaves_andThen extends_look (fun a _ ha => hf a ha)

/-- Looking, with an error called by another name. -/
theorem leaves_orElse_andThen {ε'' : Type} {g : FileTree μ → Except ε'' α} {e : ε'' → ε}
    (hf : ∀ a, g t = .ok a → Leaves L Q (f a) t) :
  Leaves L Q ((look g).orElse e >>= f) t
  := leaves_andThen (extends_orElse extends_look) (fun a _ ha => hf a (mapError_eq_ok.mp ha))

/-- A program whose parts do not change the tree does not. -/
theorem tree_andThen (hm : (m t).tree = t) (hf : ∀ a, (m t).result = .ok a → (f a t).tree = t) :
  ((m >>= f) t).tree = t
  := by
  cases h : (m t).result with
  | error e => rw [andThen_error h, hm]
  | ok a =>
      rw [andThen_ok h, hm]
      exact hf a h

end

/-- A program lets a tree grow and touches what `S` allows in the tree then. -/
def Lands (S : FileTree μ → Touch → Prop) (m : Disk μ ε α) (t : FileTree μ) : Prop :=
  Grows m t ∧ ∀ τ ∈ (m t).touched, S (m t).tree τ

section
variable {S : FileTree μ → Touch → Prop} {L : Touch → Prop} {m : Disk μ ε α} {f : α → Disk μ ε β}

theorem lands_ret {a : α} :
  Lands S (ret a : Disk μ ε α) t
  := ⟨grows_ret, fun τ hτ => by cases hτ⟩

theorem lands_fail {e : ε} :
  Lands S (fail e : Disk μ ε α) t
  := ⟨grows_fail, fun τ hτ => by cases hτ⟩

theorem lands_of_extends (h : Extends L m t) (hL : ∀ τ t', L τ → S t' τ) :
  Lands S m t
  := ⟨h.2, fun τ hτ => hL τ _ (h.1 τ hτ)⟩

theorem lands_orElse {g : ε → ε'} (h : Lands S m t) :
  Lands S (m.orElse g) t
  := h

/-- What `S` allows in a tree it allows in every tree that grows from it. -/
theorem lands_andThen (hS : ∀ t t' τ, Grown t t' → S t τ → S t' τ) (hm : Lands S m t)
    (hf : ∀ a, Grown t (m t).tree → (m t).result = .ok a → Lands S (f a) (m t).tree) :
  Lands S (m >>= f) t
  := by
  refine ⟨grows_andThen hm.1 (fun a ha => (hf a hm.1 ha).1), ?_⟩
  cases h : (m t).result with
  | error e =>
      rw [andThen_error h]
      exact hm.2
  | ok a =>
      rw [andThen_ok h]
      intro τ hτ
      rcases List.mem_append.mp hτ with hτ | hτ
      · exact hS _ _ τ (hf a hm.1 h).1 (hm.2 τ hτ)
      · exact (hf a hm.1 h).2 τ hτ

theorem lands_look_andThen {g : FileTree μ → Except ε α}
    (hf : ∀ a, g t = .ok a → Lands S (f a) t) :
  Lands S (look g >>= f) t
  := by
  cases h : g t with
  | error e => exact ⟨by rw [Grows, andThen_error h]; exact Grown.refl t,
      by rw [andThen_error h]; intro τ hτ; cases hτ⟩
  | ok a =>
      have heq : (look g >>= f) t = f a t := by
        rw [andThen_ok (a := a) h]
        rfl
      rw [Lands, Grows, heq]
      exact hf a h

end

theorem grows_readLink {path : List String} :
  Grows (readLink P path) t
  := by
  refine grows_look_andThen (fun p _ => grows_look_andThen ?_)
  rintro t' ⟨⟩
  split
  · exact grows_fail
  split
  · exact Grown.refl t
  · exact grows_fail

end Disk

/-! ### What is created is found -/

namespace FileTree

section
variable {μ : Type} {P : Platform μ} {t t' : FileTree μ} {path : List String} {p q : Location}
  {x : String} {n : Node μ}

/-- A path may lead to something new. When it is there, the path leads to it. -/
theorem resolve_landed (ht : Grown t t') (hsome : (t'.node p).isSome)
    (hlink : ∀ target, t'.shapeAt p ≠ some (.link target)) {hops left : ℕ} {dir : Location}
    (h : t.resolve true hops dir path = .ok (p, left)) :
  t'.resolve false hops dir path = .ok (p, left)
  := by
  fun_induction resolve t true hops dir path with
  | case1 =>
      rw [resolve_nil]
      exact h
  | case2 _ _ _ _ hskip ih =>
      rw [resolve_skip hskip]
      exact ih h
  | case3 _ _ _ _ ih =>
      rw [resolve_up]
      exact ih h
  | case4 _ dir c _ hskip hup _ hnew =>
      cases h
      cases hnew.2
      cases hshape : t'.shapeAt (dir ++ [c]) with
      | none =>
          rw [← isSome_shapeAt, hshape] at hsome
          cases hsome
      | some s =>
          cases s with
          | dir => rw [resolve_dir hskip hup hshape, resolve_nil]
          | link target => exact absurd hshape (hlink target)
          | other => rw [resolve_other hskip hup hshape, if_pos rfl]
  | case5 => cases h
  | case6 _ _ _ _ hskip hup hdir ih =>
      rw [resolve_dir hskip hup (ht.mono hdir)]
      exact ih h
  | case7 => cases h
  | case8 _ _ _ hskip hup _ hl _ ih =>
      rw [resolve_link hskip hup (ht.mono hl)]
      exact ih h
  | case9 _ _ _ hskip hup hother =>
      rw [resolve_other hskip hup (ht.mono hother), if_pos rfl]
      exact h
  | case10 => cases h

/-- Where there are no links on the way, a path of names leads where it says. -/
theorem resolve_names (hpath : ∀ x ∈ path, IsName x)
    (hlink : ∀ r target, r ≠ [] → r <+: path → t.shapeAt (p ++ r) ≠ some (.link target))
    {new : Bool} {hops left : ℕ} (h : t.resolve new hops p path = .ok (q, left)) :
  q = p ++ path
  := by
  induction path generalizing p with
  | nil =>
      rw [resolve_nil] at h
      cases h
      exact (List.append_nil _).symm
  | cons x path ih =>
      obtain ⟨hskip, hup⟩ := isName_iff.mp (hpath x List.mem_cons_self)
      have hhead := fun target => hlink [x] target (by simp) (List.prefix_append [x] path)
      cases hshape : t.shapeAt (p ++ [x]) with
      | none =>
          rw [resolve_none hskip hup hshape] at h
          split at h
          · rename_i hnew
            cases h
            rw [hnew.2]
          · cases h
      | some s =>
          cases s with
          | dir =>
              rw [resolve_dir hskip hup hshape] at h
              rw [ih (fun y hy => hpath y (List.mem_cons_of_mem _ hy)) ?_ h, List.append_assoc,
                List.singleton_append]
              intro r target hr hpre
              rw [List.append_assoc, List.singleton_append]
              exact hlink (x :: r) target (by simp) (List.cons_prefix_cons.mpr ⟨rfl, hpre⟩)
          | link target => exact absurd hshape (hhead target)
          | other =>
              rw [resolve_other hskip hup hshape] at h
              split at h
              · rename_i hnil
                cases h
                rw [hnil]
              · cases h

/-- What is created at the entry of a path is where the path leads. -/
theorem canonicalize_created (hentry : t.entryAt P path = .ok p) (hcreate : t.create p n = some t')
    (hn : ∀ target, n.content ≠ .link target) :
  t'.canonicalize P path = .ok p
  := by
  obtain ⟨d, x, rfl, hfree, hnode⟩ := create_eq_some hcreate
  have ht := grown_create hcreate hn
  cases path using List.reverseRecOn with
  | nil =>
      have hnil := Except.ok.inj hentry
      simp at hnil
  | append_singleton r y =>
      obtain ⟨d', left, hd, hdir, heq⟩ := entryAt_concat.mp hentry
      obtain ⟨rfl, hxy⟩ := List.append_inj' heq rfl
      cases hxy
      refine canonicalize_eq_ok.mpr ⟨left, ?_⟩
      rw [resolve_append (ht.resolve hd false) (ht.isDir hdir)]
      have hland : t.resolve true left d [x] = .ok (d ++ [x], left) := by
        obtain ⟨hskip, hup⟩ := isName_iff.mp hfree.1
        rw [resolve_none hskip hup (by rw [shapeAt, hfree.2.2]; rfl), if_pos ⟨rfl, rfl⟩]
      apply resolve_landed ht _ _ hland
      · rw [hnode, if_pos rfl]
        rfl
      · intro target htarget
        rw [shapeAt, hnode, if_pos rfl] at htarget
        cases hcontent : n.content with
        | link target' => exact hn target' hcontent
        | _ =>
            rw [Option.map_some, hcontent] at htarget
            cases htarget

end

end FileTree

namespace Disk

open FileTree

section
variable {μ : Type} {P : Platform μ} {t : FileTree μ} {path : List String} {p : Location}

theorem createAt_cases (P : Platform μ) (t : FileTree μ) (p : Location) (content : Content) :
  (∃ t', t.node p = none ∧ t.create p ⟨content, P.fresh⟩ = some t' ∧
      createAt P p content t = ⟨.ok (), t', [⟨.creates, p⟩]⟩) ∨
    ∃ e, createAt P p content t = ⟨.error e, t, []⟩
  := by
  rw [createAt, andThen_ok (a := t) rfl]
  by_cases hsome : (t.node p).isSome
  · rw [if_pos hsome]
    exact .inr ⟨_, rfl⟩
  · rw [if_neg hsome]
    cases hcreate : t.create p ⟨content, P.fresh⟩ with
    | none => exact .inr ⟨_, rfl⟩
    | some t' => exact .inl ⟨t', by simpa using hsome, rfl, rfl⟩

theorem createDir_cases (P : Platform μ) (t : FileTree μ) (path : List String) :
  (∃ p t', t.entryAt P path = .ok p ∧ t.node p = none ∧
      t.create p ⟨.dir, P.fresh⟩ = some t' ∧
      createDir P path t = ⟨.ok (), t', [⟨.creates, p⟩]⟩) ∨
    ∃ e, createDir P path t = ⟨.error e, t, []⟩
  := by
  cases hentry : t.entryAt P path with
  | error e =>
      right
      refine ⟨e, ?_⟩
      rw [createDir, andThen_error (e := e) hentry]
      rfl
  | ok p =>
      rw [createDir, andThen_ok (a := p) hentry]
      rcases createAt_cases P t p .dir with ⟨t', hnone, hcreate, h⟩ | ⟨e, h⟩
      · left
        refine ⟨p, t', rfl, hnone, hcreate, ?_⟩
        change Outcome.mk (createAt P p .dir t).result (createAt P p .dir t).tree
          ([] ++ (createAt P p .dir t).touched) = _
        rw [h]
        rfl
      · right
        refine ⟨e, ?_⟩
        change Outcome.mk (createAt P p .dir t).result (createAt P p .dir t).tree
          ([] ++ (createAt P p .dir t).touched) = _
        rw [h]
        rfl

theorem makeDir_cases (P : Platform μ) (t : FileTree μ) (path : List String) :
  (∃ p t', t.entryAt P path = .ok p ∧ t.node p = none ∧
      t.create p ⟨.dir, P.fresh⟩ = some t' ∧
      makeDir P path t = ⟨.ok (), t', [⟨.creates, p⟩]⟩) ∨
    ∃ r, makeDir P path t = ⟨r, t, []⟩
  := by
  have hattempt : (attempt (createDir P path) : Disk μ FileError _) t =
      ⟨.ok (createDir P path t).result, (createDir P path t).tree, (createDir P path t).touched⟩ :=
    rfl
  rcases createDir_cases P t path with ⟨p, t', hentry, hnone, hcreate, h⟩ | ⟨e, h⟩
  · left
    refine ⟨p, t', hentry, hnone, hcreate, ?_⟩
    rw [h] at hattempt
    rw [makeDir, andThen_ok (a := .ok ()) (by rw [hattempt]), hattempt]
    rfl
  · right
    rw [h] at hattempt
    rw [makeDir, andThen_ok (a := .error e) (by rw [hattempt]), hattempt]
    dsimp only
    cases hmeta : t.metadata P path with
    | error e' =>
        rw [andThen_ok (a := .error e') (by change Except.ok (t.metadata P path) = _; rw [hmeta])]
        exact ⟨_, rfl⟩
    | ok n =>
        rw [andThen_ok (a := .ok n) (by change Except.ok (t.metadata P path) = _; rw [hmeta])]
        dsimp only
        split <;> exact ⟨_, rfl⟩

/-- A directory that is created is new, and its path leads to it. -/
theorem createDir_ok {u : Unit} (h : (createDir P path t).result = .ok u) :
  ∃ p, t.entryAt P path = .ok p ∧ t.node p = none ∧
    (createDir P path t).tree.canonicalize P path = .ok p ∧
    (createDir P path t).tree.isDir p = true
  := by
  rcases createDir_cases P t path with ⟨p, t', hentry, hnone, hcreate, heq⟩ | ⟨e, heq⟩
  · rw [heq]
    refine ⟨p, hentry, hnone, canonicalize_created hentry hcreate (fun _ h => by cases h), ?_⟩
    obtain ⟨-, -, -, -, hnode⟩ := create_eq_some hcreate
    exact isDir_iff.mpr ⟨_, by rw [hnode, if_pos rfl], rfl⟩
  · rw [heq] at h
    cases h

/-- An object that is touched is new, and found where a part of the path leads. -/
def FoundBelow (P : Platform μ) (t t' : FileTree μ) (path : List String) (τ : Touch) : Prop :=
  τ.kind = .creates ∧ t.node τ.location = none ∧
    ∃ q, q <+: path ∧ t'.canonicalize P q = .ok τ.location

theorem canonicalize_grown {t' : FileTree μ} (h : Grown t t')
    (hp : t.canonicalize P path = .ok p) :
  t'.canonicalize P path = .ok p
  := by
  obtain ⟨left, hp⟩ := canonicalize_eq_ok.mp hp
  exact canonicalize_eq_ok.mpr ⟨left, h.resolve hp false⟩

theorem node_of_grown {t' : FileTree μ} (h : Grown t t') (hp : t'.node p = none) :
  t.node p = none
  := by
  by_contra hsome
  rw [← ne_eq, Option.ne_none_iff_isSome, ← isSome_shapeAt] at hsome
  obtain ⟨s, hs⟩ := Option.isSome_iff_exists.mp hsome
  have hs' := h.mono hs
  rw [shapeAt, hp] at hs'
  cases hs'

theorem makeDir_touched (P : Platform μ) (t : FileTree μ) (path : List String) :
  ∀ τ ∈ (makeDir P path t).touched, FoundBelow P t (makeDir P path t).tree path τ
  := by
  rcases makeDir_cases P t path with ⟨p, t', hentry, hnone, hcreate, h⟩ | ⟨r, h⟩
  · rw [h]
    intro τ hτ
    cases List.mem_singleton.mp hτ
    exact ⟨rfl, hnone, path, List.prefix_rfl,
      canonicalize_created hentry hcreate (fun _ h => by cases h)⟩
  · rw [h]
    intro τ hτ
    cases hτ

theorem createDirAll_touched (P : Platform μ) (t : FileTree μ) (path : List String) :
  ∀ τ ∈ (createDirAll P path t).touched, FoundBelow P t (createDirAll P path t).tree path τ
  := by
  induction hn : path.length using Nat.strong_induction_on generalizing path with
  | _ n ih =>
      have hmake := makeDir_touched P t path
      have hattempt : (attempt (makeDir P path) : Disk μ FileError _) t =
          ⟨.ok (makeDir P path t).result, (makeDir P path t).tree, (makeDir P path t).touched⟩ :=
        rfl
      rw [createDirAll]
      cases hresult : (makeDir P path t).result with
      | ok u =>
          rw [andThen_ok (a := .ok u) (by rw [hattempt, hresult]), hattempt]
          dsimp only [ret]
          rw [List.append_nil]
          exact hmake
      | error e =>
          obtain ⟨htree, htouched⟩ : (makeDir P path t).tree = t ∧
              (makeDir P path t).touched = [] := by
            rcases makeDir_cases P t path with ⟨p, t', -, -, -, h⟩ | ⟨r, h⟩
            · rw [h] at hresult
              cases hresult
            · rw [h]
              exact ⟨rfl, rfl⟩
          rw [andThen_ok (a := .error e) (by rw [hattempt, hresult]), hattempt, htree, htouched]
          dsimp only
          rw [List.nil_append]
          by_cases hup : e = .notFound ∧ path ≠ []
          · rw [dif_pos hup]
            have hlength : path.dropLast.length < n := by
              rw [List.length_dropLast, ← hn]
              have := List.length_pos_of_ne_nil hup.2
              omega
            have habove := ih _ hlength path.dropLast rfl
            have hgrows : Grown t (createDirAll P path.dropLast t).tree := grows_createDirAll
            cases habove' : (createDirAll P path.dropLast t).result with
            | error e' =>
                rw [andThen_error habove']
                intro τ hτ
                obtain ⟨hkind, hnone, q, hq, hfound⟩ := habove τ hτ
                exact ⟨hkind, hnone, q, hq.trans (List.dropLast_prefix path), hfound⟩
            | ok u =>
                rw [andThen_ok habove']
                intro τ hτ
                rcases List.mem_append.mp hτ with hτ | hτ
                · obtain ⟨hkind, hnone, q, hq, hfound⟩ := habove τ hτ
                  exact ⟨hkind, hnone, q, hq.trans (List.dropLast_prefix path),
                    canonicalize_grown grows_makeDir hfound⟩
                · obtain ⟨hkind, hnone, q, hq, hfound⟩ := makeDir_touched P _ path τ hτ
                  exact ⟨hkind, node_of_grown hgrows hnone, q, hq, hfound⟩
          · rw [dif_neg hup]
            intro τ hτ
            cases hτ

/-- A path that leads to something has nothing missing on its way. -/
theorem not_prefix_of_missing {t' : FileTree μ} {τ : Touch} {probe : List String} {q : List String}
    (hnone : t.node τ.location = none) (hfound : t'.canonicalize P q = .ok τ.location)
    (ht : Grown t t') (hprobe : t.canonicalize P probe = .ok p) :
  ¬q <+: probe
  := by
  rintro ⟨rest, rfl⟩
  obtain ⟨left, hprobe⟩ := canonicalize_eq_ok.mp hprobe
  obtain ⟨d, left', hd⟩ : ∃ d left', t.resolve false P.hops [] q = .ok (d, left') := by
    by_cases hrest : rest = []
    · rw [hrest, List.append_nil] at hprobe
      exact ⟨p, left, hprobe⟩
    · obtain ⟨d, left', hd, -⟩ := resolve_split (isDir_top t) hrest hprobe
      exact ⟨d, left', hd⟩
  have hsome := isSome_of_resolve (isDir_top t) hd
  obtain ⟨left'', hfound⟩ := canonicalize_eq_ok.mp hfound
  cases (ht.resolve hd false).symm.trans hfound
  rw [hnone] at hsome
  cases hsome

/-- Looking does nothing else. -/
theorem look_andThen {ε α β : Type} {g : FileTree μ → Except ε α} {a : α} (h : g t = .ok a)
    (f : α → Disk μ ε β) :
  (look g >>= f) t = f a t
  := by
  rw [andThen_ok (a := a) h]
  rfl

theorem look_andThen_error {ε α β : Type} {g : FileTree μ → Except ε α} {e : ε}
    (h : g t = .error e) (f : α → Disk μ ε β) :
  (look g >>= f) t = ⟨.error e, t, []⟩
  := andThen_error h

theorem writeFile_cases (P : Platform μ) (t : FileTree μ) (new : Bool) (path : List String)
    (f : List UInt8 → List UInt8) :
  (∃ p left t', t.resolve new P.hops [] path = .ok (p, left) ∧ t.node p = none ∧
      t.create p ⟨.file (f []), P.fresh⟩ = some t' ∧
      writeFile P new path f t = ⟨.ok (), t', [⟨.creates, p⟩]⟩) ∨
    (∃ p left bytes info, t.resolve new P.hops [] path = .ok (p, left) ∧
      t.node p = some ⟨.file bytes, info⟩ ∧
      writeFile P new path f t = ⟨.ok (), t.setBytes p f, [⟨.writes, p⟩]⟩) ∨
    ∃ e, writeFile P new path f t = ⟨.error e, t, []⟩
  := by
  cases hresolve : t.resolve new P.hops [] path with
  | error e => exact .inr (.inr ⟨e, look_andThen_error hresolve _⟩)
  | ok result =>
      obtain ⟨p, left⟩ := result
      rw [writeFile, look_andThen hresolve]
      dsimp only
      rw [look_andThen (a := t) rfl]
      cases hnode : t.node p with
      | none =>
          rcases createAt_cases P t p (.file (f [])) with ⟨t', hnone, hcreate, h⟩ | ⟨e, h⟩
          · exact .inl ⟨p, left, t', rfl, hnode, hcreate, h⟩
          · exact .inr (.inr ⟨e, h⟩)
      | some n =>
          obtain ⟨content, info⟩ := n
          cases content with
          | file bytes => exact .inr (.inl ⟨p, left, bytes, info, rfl, hnode, rfl⟩)
          | dir => exact .inr (.inr ⟨_, rfl⟩)
          | link target => exact .inr (.inr ⟨_, rfl⟩)
          | special => exact .inr (.inr ⟨_, rfl⟩)

/-- What a path led to is still there, or was created there. -/
theorem canonicalize_landed {t' : FileTree μ} (ht : Grown t t') {new : Bool} {left : ℕ}
    (h : t.resolve new P.hops [] path = .ok (p, left)) (hother : t'.shapeAt p = some .other) :
  t'.canonicalize P path = .ok p
  := by
  cases new with
  | false => exact canonicalize_eq_ok.mpr ⟨left, ht.resolve h false⟩
  | true =>
      refine canonicalize_eq_ok.mpr ⟨left, resolve_landed ht ?_ ?_ h⟩
      · rw [← isSome_shapeAt, hother]
        rfl
      · intro target htarget
        rw [hother] at htarget
        cases htarget

theorem readLink_cases (P : Platform μ) (t : FileTree μ) (path : List String) :
  (∃ p n target, t.entryAt P path = .ok p ∧ t.node p = some n ∧ n.content = .link target ∧
      readLink P path t = ⟨.ok target, t, [⟨.reads, p⟩]⟩) ∨
    ∃ e, readLink P path t = ⟨.error e, t, []⟩
  := by
  cases hentry : t.entryAt P path with
  | error e => exact .inr ⟨e, look_andThen_error hentry _⟩
  | ok p =>
      rw [readLink, look_andThen hentry, look_andThen (a := t) rfl]
      cases hnode : t.node p with
      | none => exact .inr ⟨_, rfl⟩
      | some n =>
          obtain ⟨content, info⟩ := n
          cases content with
          | link target => exact .inl ⟨p, _, target, rfl, hnode, rfl, rfl⟩
          | _ => exact .inr ⟨_, rfl⟩

theorem readFile_cases (P : Platform μ) (t : FileTree μ) (path : List String) :
  (∃ p n bytes, t.canonicalize P path = .ok p ∧ t.node p = some n ∧ n.content = .file bytes ∧
      readFile P path t = ⟨.ok bytes, t, [⟨.reads, p⟩]⟩) ∨
    ∃ e, readFile P path t = ⟨.error e, t, []⟩
  := by
  cases hp : t.canonicalize P path with
  | error e => exact .inr ⟨e, look_andThen_error hp _⟩
  | ok p =>
      rw [readFile, look_andThen hp, look_andThen (a := t) rfl]
      cases hnode : t.node p with
      | none => exact .inr ⟨_, rfl⟩
      | some n =>
          obtain ⟨content, info⟩ := n
          cases content with
          | file bytes => exact .inl ⟨p, _, bytes, rfl, hnode, rfl, rfl⟩
          | _ => exact .inr ⟨_, rfl⟩

theorem readDir_cases (P : Platform μ) (t : FileTree μ) (path : List String) :
  (∃ p, t.canonicalize P path = .ok p ∧ t.isDir p = true ∧
      readDir P path t = ⟨.ok (t.children p), t, [⟨.reads, p⟩]⟩) ∨
    ∃ e, readDir P path t = ⟨.error e, t, []⟩
  := by
  cases hp : t.canonicalize P path with
  | error e => exact .inr ⟨e, look_andThen_error hp _⟩
  | ok p =>
      rw [readDir, look_andThen hp, look_andThen (a := t) rfl]
      by_cases hdir : t.isDir p = true
      · rw [if_pos hdir]
        exact .inl ⟨p, rfl, hdir, rfl⟩
      · rw [if_neg hdir]
        exact .inr ⟨_, rfl⟩

/-- What is written is where the path leads. -/
theorem writeFile_touched (P : Platform μ) (t : FileTree μ) (new : Bool) (path : List String)
    (f : List UInt8 → List UInt8) :
  ∀ τ ∈ (writeFile P new path f t).touched, (τ.kind = .creates ∨ τ.kind = .writes) ∧
    (writeFile P new path f t).tree.canonicalize P path = .ok τ.location
  := by
  have hgrows : Grown t (writeFile P new path f t).tree := grows_writeFile
  rcases writeFile_cases P t new path f with ⟨p, left, t', hresolve, -, hcreate, h⟩ |
    ⟨p, left, bytes, info, hresolve, hnode, h⟩ | ⟨e, h⟩
  · rw [h] at hgrows ⊢
    intro τ hτ
    cases List.mem_singleton.mp hτ
    refine ⟨.inl rfl, canonicalize_landed hgrows hresolve ?_⟩
    obtain ⟨-, -, -, -, hnode⟩ := create_eq_some hcreate
    rw [shapeAt, hnode, if_pos rfl]
    rfl
  · rw [h] at hgrows ⊢
    intro τ hτ
    cases List.mem_singleton.mp hτ
    refine ⟨.inr rfl, canonicalize_landed hgrows hresolve ?_⟩
    rw [shapeAt_setBytes, shapeAt, hnode]
    rfl
  · rw [h]
    intro τ hτ
    cases hτ

/-- What is read is where the path leads. -/
theorem readFile_touched (P : Platform μ) (t : FileTree μ) (path : List String) :
  ∀ τ ∈ (readFile P path t).touched, τ.kind = .reads ∧
    (readFile P path t).tree.canonicalize P path = .ok τ.location
  := by
  rcases readFile_cases P t path with ⟨p, n, bytes, hp, -, -, h⟩ | ⟨e, h⟩
  · rw [h]
    intro τ hτ
    cases List.mem_singleton.mp hτ
    exact ⟨rfl, hp⟩
  · rw [h]
    intro τ hτ
    cases hτ

theorem setPermissions_touched (P : Platform μ) (t : FileTree μ) (path : List String) (f : μ → μ) :
  ∀ τ ∈ (setPermissions P path f t).touched, τ.kind = .permits ∧
    (setPermissions P path f t).tree.canonicalize P path = .ok τ.location
  := by
  have hgrows : Grown t (setPermissions P path f t).tree := grows_setPermissions
  rw [setPermissions] at hgrows ⊢
  cases hp : t.canonicalize P path with
  | error e =>
      rw [look_andThen_error hp]
      intro τ hτ
      cases hτ
  | ok p =>
      rw [look_andThen hp, look_andThen (a := t) rfl] at hgrows ⊢
      cases hnode : t.node p with
      | none =>
          rw [hnode] at hgrows
          intro τ hτ
          cases hτ
      | some n =>
          rw [hnode] at hgrows
          intro τ hτ
          cases List.mem_singleton.mp hτ
          exact ⟨rfl, canonicalize_grown hgrows hp⟩

end

end Disk
