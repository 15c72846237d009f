import Termoso.Lib.Needle
import Mathlib.Data.List.Basic
import Mathlib.Data.List.TakeWhile

/-!
# Taking a sequence apart

A sequence is cut at the first occurrence of a separator, or split at every one, from left to
right; and it is trimmed at both ends.  Pieces in which the separator does not start come back
when they were joined with it.
-/

namespace Split

open Needle

variable {α : Type*} [DecidableEq α] {sep front back s t acc : List α} {k : ℕ}

/-- Cut a sequence at the first occurrence of a separator. -/
def cut (sep : List α) : List α → Option (List α × List α)
  | [] => none
  | c :: s =>
    if sep.isPrefixOf (c :: s) then some ([], (c :: s).drop sep.length)
    else (cut sep s).map (fun r => (c :: r.1, r.2))

/-- Split a sequence at each occurrence of a separator. `k` symbols of a separator are still to be
passed, and `acc` is what came since the last one. -/
def splitAux (sep : List α) : ℕ → List α → List α → List (List α)
  | _, acc, [] => [acc.reverse]
  | 0, acc, c :: s =>
    if sep.isPrefixOf (c :: s) then acc.reverse :: splitAux sep (sep.length - 1) [] s
    else splitAux sep 0 (c :: acc) s
  | k + 1, acc, _ :: s => splitAux sep k acc s

/-- Split a sequence at each occurrence of a separator, from left to right. -/
def splitBy (sep s : List α) : List (List α) := splitAux sep 0 [] s

theorem splitAux_drop (sep : List α) (k : ℕ) (acc s : List α) :
  splitAux sep k acc s = splitAux sep 0 acc (s.drop k)
  := by
  induction s generalizing k with
  | nil => simp [splitAux]
  | cons c s ih =>
      cases k with
      | zero => rfl
      | succ k => exact ih k

theorem splitAux_eq (hne : sep ≠ []) (acc s : List α) :
  splitAux sep 0 acc s
    = (cut sep s).elim [acc.reverse ++ s] (fun r => (acc.reverse ++ r.1) :: splitBy sep r.2)
  := by
  induction s generalizing acc with
  | nil => simp [splitAux, cut]
  | cons c s ih =>
      rw [splitAux, cut]
      split
      · obtain ⟨d, sep', rfl⟩ := List.exists_cons_of_ne_nil hne
        rw [splitAux_drop]
        simp [splitBy]
      · rw [ih]
        cases cut sep s with
        | none => simp
        | some r => simp

theorem splitBy_eq (hne : sep ≠ []) (s : List α) :
  splitBy sep s = (cut sep s).elim [s] (fun r => r.1 :: splitBy sep r.2)
  := by
  rw [splitBy, splitAux_eq hne]
  simp only [List.reverse_nil, List.nil_append]

/-- No separator starts in a piece, whatever follows it. -/
def Apart (sep t : List α) : Prop := ∀ s, ∀ i < t.length, ¬ OccursAt sep (t ++ s) i

omit [DecidableEq α] in
theorem Apart.tail {c : α} (h : Apart sep (c :: t)) :
  Apart sep t
  := fun s i hi => h s (i + 1) (Nat.succ_lt_succ hi)

omit [DecidableEq α] in
/-- A piece that ends with a symbol which the separator does not have is apart, unless the
separator is in it. -/
theorem apart_of_last {c : α} (hc : c ∉ sep) (ht : ¬ sep <:+: t ++ [c]) :
  Apart sep (t ++ [c])
  := by
  intro s i hi hocc
  rcases Nat.lt_or_ge (t ++ [c]).length (i + sep.length) with hlong | hshort
  · -- the last symbol of the piece would be one of the separator
    apply hc
    obtain ⟨rest, hrest⟩ := hocc
    rw [List.length_append, List.length_singleton] at hi hlong
    have hget : (sep ++ rest)[t.length - i]? = some c := by
      rw [hrest, List.getElem?_drop, Nat.add_sub_cancel' (by omega), List.append_assoc,
        List.getElem?_append_right le_rfl]
      simp
    rw [List.getElem?_append_left (by omega)] at hget
    exact List.mem_of_getElem? hget
  · have hinside := hocc.of_append hshort
    exact ht (hinside.isInfix.trans (List.drop_suffix i _).isInfix)

omit [DecidableEq α] in
/-- A separator does not start in a piece without its first symbol. -/
theorem apart_of_head {c : α} (h : c ∉ t) :
  Apart (c :: sep) t
  := by
  intro s i hi hocc
  obtain ⟨rest, hrest⟩ := hocc
  apply h
  have hget : (c :: sep ++ rest)[0]? = some c := rfl
  rw [hrest, List.getElem?_drop, Nat.add_zero, List.getElem?_append_left hi] at hget
  exact List.mem_of_getElem? hget

omit [DecidableEq α] in
/-- A symbol that a piece does not have does not start in it. -/
theorem apart_singleton {c : α} (h : c ∉ t) :
  Apart [c] t
  := apart_of_head h

theorem cut_append (hne : sep ≠ []) (ht : Apart sep t) (s : List α) :
  cut sep (t ++ sep ++ s) = some (t, s)
  := by
  induction t with
  | nil =>
      obtain ⟨d, sep', rfl⟩ := List.exists_cons_of_ne_nil hne
      rw [List.nil_append, List.cons_append, cut, if_pos]
      · simp
      · exact List.isPrefixOf_iff_prefix.mpr (List.prefix_append (d :: sep') s)
  | cons c t ih =>
      have hnot : ¬ sep.isPrefixOf (c :: (t ++ sep ++ s)) = true := by
        intro hpre
        apply ht (sep ++ s) 0 (Nat.succ_pos _)
        rw [OccursAt, List.drop_zero]
        simpa using List.isPrefixOf_iff_prefix.mp hpre
      rw [List.cons_append, List.cons_append, cut, if_neg hnot, ih ht.tail]
      rfl

/-- The pieces of a sequence that is cut, and the separator between them. -/
theorem cut_eq_some {x y : List α} (h : cut sep s = some (x, y)) :
  s = x ++ sep ++ y
  := by
  induction s generalizing x with
  | nil => cases h
  | cons c s ih =>
      rw [cut] at h
      split at h
      · rename_i hsep
        cases h
        exact (List.prefix_iff_eq_append.mp (List.isPrefixOf_iff_prefix.mp hsep)).symm
      · obtain ⟨⟨x', y'⟩, hcut, heq⟩ := Option.map_eq_some_iff.mp h
        cases heq
        rw [ih hcut]
        rfl

/-- A symbol does not stand before the place where it is first cut at. -/
theorem not_mem_of_cut {c : α} {x y : List α} (h : cut [c] s = some (x, y)) :
  c ∉ x
  := by
  induction s generalizing x with
  | nil => cases h
  | cons d s ih =>
      rw [cut] at h
      split at h
      · cases h
        exact List.not_mem_nil
      · rename_i hsep
        obtain ⟨⟨x', y'⟩, hcut, heq⟩ := Option.map_eq_some_iff.mp h
        cases heq
        rw [List.mem_cons, not_or]
        refine ⟨?_, ih hcut⟩
        rintro rfl
        simp at hsep

theorem cut_eq_none_of_apart (ht : Apart sep t) :
  cut sep t = none
  := by
  induction t with
  | nil => rfl
  | cons c t ih =>
      have hnot : ¬ sep.isPrefixOf (c :: t) = true := by
        intro hpre
        apply ht [] 0 (Nat.succ_pos _)
        rw [OccursAt, List.drop_zero]
        simpa using List.isPrefixOf_iff_prefix.mp hpre
      rw [cut, if_neg hnot, ih ht.tail]
      rfl

/-- Where a sequence is cut at a symbol does not depend on what stands at its ends. -/
theorem cut_singleton_append {c : α} {x y : List α} (hx : c ∉ x) (hy : c ∉ y) (s : List α) :
  cut [c] (x ++ s ++ y) = (cut [c] s).map (fun r => (x ++ r.1, r.2 ++ y))
  := by
  induction x with
  | cons d x ih =>
      have hne : ¬ [c].isPrefixOf (d :: (x ++ s ++ y)) = true := by
        have hcd : c ≠ d := fun h => hx (List.mem_cons.mpr (.inl h))
        simp [hcd]
      rw [List.cons_append, List.cons_append, cut, if_neg hne,
        ih (fun h => hx (List.mem_cons_of_mem _ h)), Option.map_map]
      rfl
  | nil =>
      induction s with
      | nil =>
          rw [List.nil_append, List.nil_append, cut_eq_none_of_apart (apart_singleton hy)]
          rfl
      | cons d s ih =>
          rw [List.nil_append] at ih ⊢
          rw [List.cons_append, cut, cut]
          by_cases hd : c = d
          · subst hd
            rw [if_pos (by simp), if_pos (by simp)]
            rfl
          · rw [if_neg (by simp [hd]), if_neg (by simp [hd]), ih, Option.map_map, Option.map_map]
            rfl

/-- What was joined comes back. -/
theorem splitBy_intercalate (hne : sep ≠ []) {ts : List (List α)} (hts : ts ≠ [])
    (hapart : ∀ t ∈ ts, Apart sep t) :
  splitBy sep (sep.intercalate ts) = ts
  := by
  induction ts with
  | nil => exact absurd rfl hts
  | cons t ts ih =>
      have ht := hapart t List.mem_cons_self
      cases ts with
      | nil =>
          rw [List.intercalate_singleton, splitBy_eq hne, cut_eq_none_of_apart ht]
          rfl
      | cons u us =>
          rw [List.intercalate_cons_cons, splitBy_eq hne, cut_append hne ht]
          have hrest := ih (List.cons_ne_nil _ _) (fun v hv => hapart v (List.mem_cons_of_mem _ hv))
          exact congrArg (t :: ·) hrest

/-- What stands between separators is of the sequence, and has no separator. -/
theorem mem_splitOn {c : α} (h : t ∈ s.splitOn c) :
  c ∉ t ∧ t ⊆ s
  := by
  induction s generalizing t with
  | nil =>
      rw [List.splitOn_nil, List.mem_singleton] at h
      subst h
      exact ⟨List.not_mem_nil, List.Subset.refl _⟩
  | cons d s ih =>
      rw [List.splitOn_cons_eq_if_modifyHead] at h
      split at h
      · rcases List.mem_cons.mp h with rfl | h
        · exact ⟨List.not_mem_nil, List.nil_subset _⟩
        · exact ⟨(ih h).1, List.subset_cons_of_subset d (ih h).2⟩
      · rename_i hne
        have hcd : c ≠ d := by
          rintro rfl
          exact hne (beq_self_eq_true c)
        cases hs : s.splitOn c with
        | nil => exact absurd hs (List.splitOn_ne_nil c s)
        | cons u us =>
            rw [hs, List.modifyHead_cons] at h
            rcases List.mem_cons.mp h with rfl | h
            · have hu := ih (hs ▸ List.mem_cons_self)
              exact ⟨fun hc => (List.mem_cons.mp hc).elim hcd hu.1, List.cons_subset_cons d hu.2⟩
            · have ht := ih (hs ▸ List.mem_cons_of_mem u h)
              exact ⟨ht.1, List.subset_cons_of_subset d ht.2⟩

/-- Take the symbols of a kind from both ends. -/
def trimBy (p : α → Bool) (s : List α) : List α := ((s.dropWhile p).reverse.dropWhile p).reverse

omit [DecidableEq α] in
/-- Nothing is taken from a sequence that neither starts nor ends with such a symbol. -/
theorem trimBy_eq_self {p : α → Bool} {c d : α} (hc : s.head? = some c) (hd : s.getLast? = some d)
    (hpc : p c = false) (hpd : p d = false) :
  trimBy p s = s
  := by
  have hfront : s.dropWhile p = s := by
    cases s with
    | nil => rfl
    | cons a s =>
        cases hc
        rw [List.dropWhile_cons_of_neg (by simp [hpc])]
  have hback : s.reverse.dropWhile p = s.reverse := by
    rw [← List.head?_reverse] at hd
    cases hs : s.reverse with
    | nil => rfl
    | cons a s' =>
        rw [hs] at hd
        cases hd
        rw [List.dropWhile_cons_of_neg (by simp [hpd])]
  rw [trimBy, hfront, hback, List.reverse_reverse]

omit [DecidableEq α] in
theorem trimBy_eq_self_of_forall {p : α → Bool} (h : ∀ c ∈ s, p c = false) :
  trimBy p s = s
  := by
  cases s with
  | nil => rfl
  | cons c s =>
      have hlast := List.getLast?_eq_some_getLast (List.cons_ne_nil c s)
      exact trimBy_eq_self rfl hlast (h c List.mem_cons_self) (h _ (List.getLast_mem _))

omit [DecidableEq α] in
/-- What is trimmed at both ends can be taken away before. -/
theorem trimBy_append {p : α → Bool} {x y : List α} (hx : ∀ c ∈ x, p c = true)
    (hy : ∀ c ∈ y, p c = true) (s : List α) :
  trimBy p (x ++ s ++ y) = trimBy p s
  := by
  have hfront : (x ++ s ++ y).dropWhile p = (s ++ y).dropWhile p := by
    rw [List.append_assoc, List.dropWhile_append_of_pos hx]
  rw [trimBy, trimBy, hfront]
  congr 1
  rw [List.dropWhile_append]
  split
  · rename_i hempty
    rw [List.isEmpty_iff] at hempty
    rw [hempty, List.dropWhile_eq_nil_iff.mpr hy]
  · rw [List.reverse_append, List.dropWhile_append_of_pos]
    intro c hc
    exact hy c (List.mem_reverse.mp hc)

omit [DecidableEq α] in
/-- A sequence is what is left of it when it is trimmed, between what is taken away. -/
theorem exists_eq_trimBy (p : α → Bool) (s : List α) :
  ∃ x y, s = x ++ trimBy p s ++ y ∧ (∀ c ∈ x, p c = true) ∧ ∀ c ∈ y, p c = true
  := by
  refine ⟨s.takeWhile p, ((s.dropWhile p).reverse.takeWhile p).reverse, ?_, ?_, ?_⟩
  · rw [trimBy, List.append_assoc, ← List.reverse_append, List.takeWhile_append_dropWhile,
      List.reverse_reverse, List.takeWhile_append_dropWhile]
  · exact fun c hc => List.mem_takeWhile_imp hc
  · exact fun c hc => List.mem_takeWhile_imp (List.mem_reverse.mp hc)

omit [DecidableEq α] in
/-- What is left of a sequence that is trimmed has no such symbol at its ends. -/
theorem trimBy_ends (p : α → Bool) (s : List α) {c : α} :
  ((trimBy p s).head? = some c → p c = false) ∧ ((trimBy p s).getLast? = some c → p c = false)
  := by
  have hdrop : ∀ u : List α, (u.dropWhile p).head? = some c → p c = false := by
    intro u h
    have hnot := List.head?_dropWhile_not p u
    rw [h] at hnot
    exact hnot
  constructor
  · intro h
    apply hdrop s
    have heq : s.dropWhile p
        = trimBy p s ++ ((s.dropWhile p).reverse.takeWhile p).reverse := by
      rw [trimBy, ← List.reverse_append, List.takeWhile_append_dropWhile, List.reverse_reverse]
    rw [heq, List.head?_append_of_ne_nil, h]
    rintro hnil
    rw [hnil] at h
    cases h
  · intro h
    rw [trimBy, List.getLast?_reverse] at h
    exact hdrop _ h

end Split
