import Mathlib.Data.Finset.Card
import Termoso.Lib.FileTree

/-!
# Copying a tree by a stack

A tree below one location is copied to below another, directory by directory, while the directories
still to be walked wait on a stack.  At each moment the copy is filled except below what is pending:
strictly below a directory that waits, and at or below an entry of the one being walked.

Pending places are relative to both locations, and none of them is below another.
-/

namespace FileTree

variable {μ : Type}

/-! ### Pending places -/

/-- A place is strictly below one of some. -/
def Beneath (rs : List (List String)) (q : List String) : Prop := ∃ r ∈ rs, r <+: q ∧ r ≠ q

/-- A place is one of some, or below. -/
def Within (ws : List (List String)) (q : List String) : Prop := ∃ w ∈ ws, w <+: q

/-- A place that is not filled yet: directories `rs` wait, and the entries `ws` are to come. -/
def Pending (rs ws : List (List String)) (q : List String) : Prop := Beneath rs q ∨ Within ws q

/-- Neither of two places is below the other. -/
def Apart (r w : List String) : Prop := ¬r <+: w ∧ ¬w <+: r

theorem Apart.symm {r w : List String} (h : Apart r w) :
  Apart w r
  := ⟨h.2, h.1⟩

/-- Places none of which is below another. -/
def Antichain (rs : List (List String)) : Prop := rs.Pairwise Apart

section
variable {rs ws : List (List String)} {r w q : List String} {x y : String} {names : List String}

theorem concat_prefix_concat (h : r ++ [x] <+: r ++ [y]) :
  x = y
  := by
  rw [List.prefix_append_right_inj] at h
  exact List.cons_prefix_cons.mp h |>.1

/-- Distinct entries of a directory are apart. -/
theorem antichain_entries (hnames : names.Nodup) (r : List String) :
  Antichain (names.map (fun x => r ++ [x]))
  := by
  rw [Antichain, List.pairwise_map]
  apply hnames.imp
  intro x y hne
  exact ⟨fun h => hne (concat_prefix_concat h), fun h => hne (concat_prefix_concat h).symm⟩

/-- What is apart from a directory is apart from its entries. -/
theorem Apart.entry (h : Apart r w) (x : String) :
  Apart r (w ++ [x])
  := by
  refine ⟨fun hpre => ?_, fun hpre => h.2 ((List.prefix_append w [x]).trans hpre)⟩
  rcases List.prefix_concat_iff.mp hpre with rfl | hpre
  · exact h.2 (List.prefix_append w [x])
  · exact h.1 hpre

/-- A directory that waits gives way to its entries. -/
theorem antichain_open (h : Antichain (r :: rs)) (hnames : names.Nodup) :
  Antichain (rs ++ names.map (fun x => r ++ [x]))
  := by
  obtain ⟨hr, hrs⟩ := List.pairwise_cons.mp h
  refine List.pairwise_append.mpr ⟨hrs, antichain_entries hnames r, fun w hw v hv => ?_⟩
  obtain ⟨x, -, rfl⟩ := List.mem_map.mp hv
  exact (hr w hw).symm.entry x

/-- An entry that is a directory waits in turn. -/
theorem antichain_push (h : Antichain (rs ++ w :: ws)) :
  Antichain ((w :: rs) ++ ws)
  := List.Pairwise.perm h List.perm_middle (fun h => h.symm)

theorem antichain_skip (h : Antichain (rs ++ w :: ws)) :
  Antichain (rs ++ ws)
  := h.sublist (List.Sublist.append_left (List.sublist_cons_self w ws) rs)

/-- An entry that was pending is not when it is taken up. -/
theorem not_pending_skip (h : Antichain (rs ++ w :: ws)) :
  ¬Pending rs ws w
  := by
  obtain ⟨-, hws, happart⟩ := List.pairwise_append.mp h
  rintro (⟨r, hr, hpre, -⟩ | ⟨v, hv, hpre⟩)
  · exact (happart r hr w List.mem_cons_self).1 hpre
  · exact ((List.pairwise_cons.mp hws).1 v hv).2 hpre

theorem not_pending_push (h : Antichain (rs ++ w :: ws)) :
  ¬Pending (w :: rs) ws w
  := by
  rintro (⟨r, hr, hpre, hne⟩ | hwithin)
  · rcases List.mem_cons.mp hr with rfl | hr
    · exact hne rfl
    · exact not_pending_skip h (.inl ⟨r, hr, hpre, hne⟩)
  · exact not_pending_skip h (.inr hwithin)

theorem pending_of_skip (h : Pending rs ws q) :
  Pending rs (w :: ws) q
  := by
  rcases h with h | ⟨v, hv, hpre⟩
  · exact .inl h
  · exact .inr ⟨v, List.mem_cons_of_mem w hv, hpre⟩

theorem pending_of_push (h : Pending (w :: rs) ws q) :
  Pending rs (w :: ws) q
  := by
  rcases h with ⟨r, hr, hpre, hne⟩ | ⟨v, hv, hpre⟩
  · rcases List.mem_cons.mp hr with rfl | hr
    · exact .inr ⟨r, List.mem_cons_self, hpre⟩
    · exact .inl ⟨r, hr, hpre, hne⟩
  · exact .inr ⟨v, List.mem_cons_of_mem w hv, hpre⟩

/-- What is no longer pending when an entry is taken up is at the entry or below. -/
theorem within_of_not_skip (h : Pending rs (w :: ws) q) (hnot : ¬Pending rs ws q) :
  w <+: q
  := by
  rcases h with h | ⟨v, hv, hpre⟩
  · exact absurd (.inl h) hnot
  · rcases List.mem_cons.mp hv with rfl | hv
    · exact hpre
    · exact absurd (.inr ⟨v, hv, hpre⟩) hnot

theorem eq_of_not_push (h : Pending rs (w :: ws) q) (hnot : ¬Pending (w :: rs) ws q) :
  q = w
  := by
  by_contra hne
  have hskip : ¬Pending rs ws q := by
    rintro (⟨r, hr, hpre⟩ | hwithin)
    · exact hnot (.inl ⟨r, List.mem_cons_of_mem w hr, hpre⟩)
    · exact hnot (.inr hwithin)
  have hpre := within_of_not_skip h hskip
  exact hnot (.inl ⟨w, List.mem_cons_self, hpre, fun heq => hne heq.symm⟩)

theorem pending_of_open (h : Pending rs (names.map (fun x => r ++ [x])) q) :
  Pending (r :: rs) [] q
  := by
  rcases h with ⟨w, hw, hpre, hne⟩ | ⟨v, hv, hpre⟩
  · exact .inl ⟨w, List.mem_cons_of_mem r hw, hpre, hne⟩
  · obtain ⟨x, -, rfl⟩ := List.mem_map.mp hv
    refine .inl ⟨r, List.mem_cons_self, (List.prefix_append r [x]).trans hpre, ?_⟩
    rintro rfl
    have := hpre.length_le
    rw [List.length_append, List.length_singleton] at this
    omega

/-- What is no longer pending when a directory is opened is no entry of it, or below none. -/
theorem entry_of_not_open (h : Pending (r :: rs) [] q)
    (hnot : ¬Pending rs (names.map (fun x => r ++ [x])) q) :
  ∃ x rest, q = r ++ x :: rest ∧ x ∉ names
  := by
  rcases h with ⟨w, hw, hpre, hne⟩ | ⟨v, hv, -⟩
  · rcases List.mem_cons.mp hw with rfl | hw
    · obtain ⟨_ | ⟨x, rest⟩, rfl⟩ := hpre
      · rw [List.append_nil] at hne
        exact absurd rfl hne
      · refine ⟨x, rest, rfl, fun hx => hnot (.inr ⟨w ++ [x], List.mem_map_of_mem hx, ?_⟩)⟩
        exact (List.prefix_append_right_inj w).mpr (List.prefix_append [x] rest)
    · exact absurd (.inl ⟨w, hw, hpre, hne⟩) hnot
  · cases hv

end

/-! ### Filling -/

section
variable {keep : Content → Option Content} {t₀ t t' : FileTree μ} {s d : Location}
  {B B' : List String → Prop}

/-- What a copy is to hold of what is at a location. -/
def kept (keep : Content → Option Content) (t : FileTree μ) (p : Location) : Option Content :=
  (t.node p).bind (fun n => keep n.content)

/-- What is below `d` is the copy of what was below `s`, except where that is pending, and the rest
is as it was. -/
structure Filled (keep : Content → Option Content) (t₀ t : FileTree μ) (s d : Location)
    (B : List String → Prop) : Prop where
  outside : ∀ r, ¬d <+: r → t.node r = t₀.node r
  pending : ∀ q, B q → t.node (d ++ q) = none
  filled : ∀ q, ¬B q → (t.node (d ++ q)).map Node.content = kept keep t₀ (s ++ q)

/-- Places that are no longer pending, where there is nothing to copy. -/
theorem Filled.shift (h : Filled keep t₀ t s d B) (hB : ∀ q, B' q → B q)
    (hrest : ∀ q, B q → ¬B' q → kept keep t₀ (s ++ q) = none) :
  Filled keep t₀ t s d B'
  where
  outside := h.outside
  pending q hq := h.pending q (hB q hq)
  filled q hq := by
    by_cases hBq : B q
    · rw [h.pending q hBq, hrest q hBq hq]
      rfl
    · exact h.filled q hBq

/-- An object is put where it was pending. -/
theorem Filled.put (h : Filled keep t₀ t s d B) {w : List String} {n : Node μ}
    (hnode : ∀ r, t'.node r = if r = d ++ w then some n else t.node r)
    (hn : kept keep t₀ (s ++ w) = some n.content) (hB : ∀ q, B' q → B q) (hw : ¬B' w)
    (hrest : ∀ q, B q → ¬B' q → q ≠ w → kept keep t₀ (s ++ q) = none) :
  Filled keep t₀ t' s d B'
  where
  outside r hr := by
    rw [hnode, if_neg]
    · exact h.outside r hr
    · rintro rfl
      exact hr (List.prefix_append d w)
  pending q hq := by
    rw [hnode, if_neg]
    · exact h.pending q (hB q hq)
    · intro heq
      rw [List.append_cancel_left heq] at hq
      exact hw hq
  filled q hq := by
    rw [hnode]
    split
    · rename_i heq
      rw [List.append_cancel_left heq, hn]
      rfl
    · rename_i hne
      by_cases hBq : B q
      · rw [h.pending q hBq, hrest q hBq hq (fun heq => hne (congrArg (d ++ ·) heq))]
        rfl
      · exact h.filled q hBq

/-- Nothing is copied from where there is nothing. -/
theorem kept_eq_none {p : Location} (h : t.node p = none) :
  kept keep t p = none
  := by
  rw [kept, h]
  rfl

end

section
variable {keep : Content → Option Content} {t₀ t t' : FileTree μ} {s d : Location}
  {rs ws : List (List String)} {r w : List String} {names : List String}

/-- A directory that waited is opened: its entries are to come. -/
theorem Filled.opened (h : Filled keep t₀ t s d (Pending (r :: rs) []))
    (hnames : ∀ x, (t₀.node (s ++ (r ++ [x]))).isSome → x ∈ names) :
  Filled keep t₀ t s d (Pending rs (names.map (fun x => r ++ [x])))
  := by
  refine h.shift (fun _ => pending_of_open) (fun q hq hnot => ?_)
  obtain ⟨x, rest, rfl, hx⟩ := entry_of_not_open hq hnot
  have hnone : t₀.node (s ++ (r ++ [x])) = none := by
    rw [← Option.not_isSome_iff_eq_none]
    exact fun hsome => hx (hnames x hsome)
  refine kept_eq_none (node_eq_none hnone ?_)
  apply (List.prefix_append_right_inj s).mpr
  exact (List.prefix_append_right_inj r).mpr (List.prefix_append [x] rest)

/-- Nothing is strictly below what is no directory. -/
theorem node_below {n : Node μ} {p q : Location} (hn : t.node p = some n) (hdir : n.content ≠ .dir)
    (hpre : p <+: q) (hne : p ≠ q) :
  t.node q = none
  := by
  by_contra hsome
  obtain ⟨m, hm, hmdir⟩ := isDir_iff.mp
    (isDir_of_above (Option.ne_none_iff_isSome.mp hsome) hpre hne)
  cases hn.symm.trans hm
  exact hdir hmdir

/-- An entry is left out. -/
theorem Filled.skipped (h : Filled keep t₀ t s d (Pending rs (w :: ws))) {n : Node μ}
    (hn : t₀.node (s ++ w) = some n) (hdir : n.content ≠ .dir) (hkeep : keep n.content = none) :
  Filled keep t₀ t s d (Pending rs ws)
  := by
  refine h.shift (fun _ => pending_of_skip) (fun q hq hnot => ?_)
  have hpre := (List.prefix_append_right_inj s).mpr (within_of_not_skip hq hnot)
  by_cases heq : s ++ w = s ++ q
  · rw [← heq, kept, hn]
    exact hkeep
  · exact kept_eq_none (node_below hn hdir hpre heq)

/-- An entry that holds no others is put. -/
theorem Filled.copied (h : Filled keep t₀ t s d (Pending rs (w :: ws)))
    (hchain : Antichain (rs ++ w :: ws)) {n m : Node μ} (hn : t₀.node (s ++ w) = some n)
    (hdir : n.content ≠ .dir) (hkeep : keep n.content = some m.content)
    (hnode : ∀ r, t'.node r = if r = d ++ w then some m else t.node r) :
  Filled keep t₀ t' s d (Pending rs ws)
  := by
  refine h.put hnode (by rw [kept, hn]; exact hkeep) (fun _ => pending_of_skip)
    (not_pending_skip hchain) (fun q hq hnot hne => ?_)
  have hpre := (List.prefix_append_right_inj s).mpr (within_of_not_skip hq hnot)
  exact kept_eq_none (node_below hn hdir hpre (fun heq => hne (List.append_cancel_left heq).symm))

/-- A directory is put, and waits. -/
theorem Filled.pushed (h : Filled keep t₀ t s d (Pending rs (w :: ws)))
    (hchain : Antichain (rs ++ w :: ws)) {m : Node μ}
    (hkeep : kept keep t₀ (s ++ w) = some m.content)
    (hnode : ∀ r, t'.node r = if r = d ++ w then some m else t.node r) :
  Filled keep t₀ t' s d (Pending (w :: rs) ws)
  := h.put hnode hkeep (fun _ => pending_of_push) (not_pending_push hchain)
    (fun _ hq hnot hne => absurd (eq_of_not_push hq hnot) hne)

/-- At first everything is to come. -/
theorem filled_blank (hnone : t.node d = none) :
  Filled keep t t s d (Pending [] [[]])
  where
  outside _ _ := rfl
  pending q _ := node_eq_none hnone (List.prefix_append d q)
  filled _ hq := absurd (.inr ⟨[], List.mem_singleton_self _, List.nil_prefix⟩) hq

/-- At last nothing is. -/
theorem not_pending_nil (q : List String) :
  ¬Pending [] [] q
  := by
  rintro (⟨r, hr, -⟩ | ⟨w, hw, -⟩)
  · cases hr
  · cases hw

end

/-! ### The measure -/

section
variable {t : FileTree μ} {s : Location} {rs rs' : List (List String)} {r : List String}

/-- How many objects are at directories that wait or below. -/
def weight (t : FileTree μ) (s : Location) (rs : List (List String)) : ℕ :=
  (t.listing.toFinset.filter (fun q => ∃ r ∈ rs, s ++ r <+: q)).card

theorem weight_le_length (t : FileTree μ) (s : Location) (rs : List (List String)) :
  weight t s rs ≤ t.listing.length
  := (Finset.card_filter_le _ _).trans (List.toFinset_card_le _)

/-- A directory that is walked weighs no more, when only entries of it wait in turn. -/
theorem weight_lt (hr : (t.node (s ++ r)).isSome) (hchain : Antichain (r :: rs))
    (hsub : ∀ p ∈ rs', p ∈ rs ∨ ∃ x, p = r ++ [x]) :
  weight t s rs' < weight t s (r :: rs)
  := by
  apply Finset.card_lt_card
  rw [Finset.ssubset_iff_of_subset]
  · refine ⟨s ++ r, ?_, ?_⟩
    · rw [Finset.mem_filter, List.mem_toFinset, t.mem_listing]
      exact ⟨hr, r, List.mem_cons_self, List.prefix_rfl⟩
    · rw [Finset.mem_filter]
      rintro ⟨-, p, hp, hpre⟩
      rw [List.prefix_append_right_inj] at hpre
      rcases hsub p hp with hp | ⟨x, rfl⟩
      · exact ((List.pairwise_cons.mp hchain).1 p hp).2 hpre
      · have := hpre.length_le
        rw [List.length_append, List.length_singleton] at this
        omega
  · intro q hq
    rw [Finset.mem_filter] at hq ⊢
    obtain ⟨hmem, p, hp, hpre⟩ := hq
    refine ⟨hmem, ?_⟩
    rcases hsub p hp with hp | ⟨x, rfl⟩
    · exact ⟨p, List.mem_cons_of_mem r hp, hpre⟩
    · refine ⟨r, List.mem_cons_self, List.IsPrefix.trans ?_ hpre⟩
      exact (List.prefix_append_right_inj s).mpr (List.prefix_append r [x])

end

end FileTree
