import Mathlib.Data.List.MinMax
import Mathlib.Data.Prod.Lex
import Mathlib.Logic.Function.Basic

/-!
# The best of each kind

A pass over a list keeps one element of each key, and replaces it by one that is better.  What is
left for a key is an element with the highest rank, in whatever order the elements come.
-/

universe u v w

namespace Best

variable {α : Type u} {K : Type v} {β : Type w} [DecidableEq K]

/-- Keep an element for its key, unless the one kept is at least as good. -/
def keep (key : α → K) (better : α → α → Bool) (best : K → Option α) (x : α) : K → Option α :=
  if (best (key x)).all (fun y => better x y) then Function.update best (key x) (some x) else best

/-- The elements kept after a pass over a list. -/
def pass (key : α → K) (better : α → α → Bool) (xs : List α) : K → Option α :=
  xs.foldl (keep key better) (fun _ => none)

section
variable [LinearOrder β] {key : α → K} {better : α → α → Bool} {rank : α → β}
  {xs ys : List α} {x : α} {k : K}

/-- What is kept for a key is the first element with the highest rank among those with the key. -/
theorem pass_eq_argmax (hbetter : ∀ x y, better x y = true ↔ rank y < rank x) :
  pass key better xs k = (xs.filter (fun x => decide (key x = k))).argmax rank
  := by
  induction xs using List.reverseRecOn with
  | nil => rfl
  | append_singleton xs x ih =>
      have hstep : pass key better (xs ++ [x]) = keep key better (pass key better xs) x := by
        rw [pass, List.foldl_append]
        rfl
      rw [hstep, keep, List.filter_append]
      by_cases hk : key x = k
      · subst hk
        rw [show [x].filter (fun y => decide (key y = key x)) = [x] by simp, List.argmax_concat,
          ← ih]
        cases hbest : pass key better xs (key x) with
        | none => simp
        | some y =>
            by_cases hxy : better x y = true
            · simp [hxy, (hbetter x y).mp hxy]
            · have hnot : ¬ rank y < rank x := mt (hbetter x y).mpr hxy
              simp [hxy, hnot, hbest]
      · rw [show [x].filter (fun y => decide (key y = k)) = [] by simp [hk], List.append_nil, ← ih]
        split
        · rw [Function.update_of_ne (Ne.symm hk)]
        · rfl

/-- An element is kept for each key that an element has. -/
theorem pass_eq_none_iff (hbetter : ∀ x y, better x y = true ↔ rank y < rank x) :
  pass key better xs k = none ↔ ∀ x ∈ xs, key x ≠ k
  := by
  rw [pass_eq_argmax hbetter, List.argmax_eq_none, List.filter_eq_nil_iff]
  simp

/-- The element kept has the highest rank among those with its key. -/
theorem of_pass_eq_some (hbetter : ∀ x y, better x y = true ↔ rank y < rank x)
    (h : pass key better xs k = some x) :
  x ∈ xs ∧ key x = k ∧ ∀ y ∈ xs, key y = k → rank y ≤ rank x
  := by
  rw [pass_eq_argmax hbetter] at h
  obtain ⟨hx, hk⟩ := List.mem_filter.mp (List.argmax_mem h)
  refine ⟨hx, of_decide_eq_true hk, ?_⟩
  intro y hy hky
  exact List.le_of_mem_argmax (List.mem_filter.mpr ⟨hy, decide_eq_true hky⟩) h

/-- The rank kept for a key is the highest one, whatever the order of the list. -/
theorem map_pass_eq_some_iff {γ : Type*} {f : α → γ}
    (hbetter : ∀ x y, better x y = true ↔ rank y < rank x)
    (hf : ∀ x y, rank x = rank y → f x = f y) {c : γ} :
  (pass key better xs k).map f = some c
    ↔ ∃ x ∈ xs, key x = k ∧ f x = c ∧ ∀ y ∈ xs, key y = k → rank y ≤ rank x
  := by
  constructor
  · intro h
    obtain ⟨x, hx, rfl⟩ := Option.map_eq_some_iff.mp h
    obtain ⟨hmem, hk, hmax⟩ := of_pass_eq_some hbetter hx
    exact ⟨x, hmem, hk, rfl, hmax⟩
  · rintro ⟨x, hx, hk, rfl, hmax⟩
    cases hkept : pass key better xs k with
    | none => exact absurd hk ((pass_eq_none_iff hbetter).mp hkept x hx)
    | some y =>
        obtain ⟨hy, hky, hmaxY⟩ := of_pass_eq_some hbetter hkept
        rw [Option.map_some, hf y x (le_antisymm (hmax y hy hky) (hmaxY x hx hk))]

end

end Best
