import Mathlib.Data.List.ReduceOption

/-!
# Inheriting settings

Nodes have a parent each, perhaps one that does not exist, perhaps one below themselves.  A walk
from a node upwards stops after some nodes.  Settings are laid over each other from the far end of
the walk to the near one; what is left of a setting is what the nearest layer says that sets it.
-/

universe u v w

namespace Inherit

variable {K : Type u} {N : Type v} {V : Type w}

/-! ### Walking upwards -/

section
variable (find : K → Option N) (parent : N → Option K)

/-- The nodes from a key upwards, so many at most. -/
def climb : ℕ → Option K → List N
  | 0, _ => []
  | _ + 1, none => []
  | n + 1, some k =>
    match find k with
    | none => []
    | some g => g :: climb n (parent g)

/-- The node so many steps above the one with a key. -/
inductive Above : Option K → ℕ → N → Prop
  | here {k : K} {g : N} : find k = some g → Above (some k) 0 g
  | up {k : K} {g g' : N} {i : ℕ} : find k = some g → Above (parent g) i g' →
    Above (some k) (i + 1) g'

end

section
variable {find : K → Option N} {parent : N → Option K} {start : Option K} {i n : ℕ} {g g' : N}

/-- The nodes of a walk are those above its start, up to its length. -/
theorem getElem?_climb :
  (climb find parent n start)[i]? = some g ↔ i < n ∧ Above find parent start i g
  := by
  induction n generalizing start i with
  | zero => simp [climb]
  | succ n ih =>
      cases start with
      | none =>
          simp only [climb, List.getElem?_nil, reduceCtorEq, false_iff, not_and]
          intro _ h
          cases h
      | some k =>
          rw [climb]
          cases hfind : find k with
          | none =>
              simp only [List.getElem?_nil, reduceCtorEq, false_iff, not_and]
              intro _ h
              cases h with
              | here h => simp [hfind] at h
              | up h => simp [hfind] at h
          | some g₀ =>
              cases i with
              | zero =>
                  simp only [List.getElem?_cons_zero, Option.some.injEq, Nat.zero_lt_succ,
                    true_and]
                  constructor
                  · rintro rfl
                    exact .here hfind
                  · intro h
                    cases h with
                    | here h => exact Option.some.inj (hfind.symm.trans h)
              | succ i =>
                  rw [List.getElem?_cons_succ, ih, Nat.succ_lt_succ_iff]
                  apply and_congr_right
                  intro _
                  constructor
                  · exact .up hfind
                  · intro h
                    cases h with
                    | up h h' =>
                        rw [hfind] at h
                        cases h
                        exact h'

/-- A node of a walk is so many steps above its start. -/
theorem mem_climb :
  g ∈ climb find parent n start ↔ ∃ i < n, Above find parent start i g
  := by
  rw [List.mem_iff_getElem?]
  simp only [getElem?_climb]

theorem Above.found (h : Above find parent start i g) :
  ∃ k, find k = some g
  := by
  induction h with
  | here h => exact ⟨_, h⟩
  | up _ _ ih => exact ih

end

/-! ### Layers -/

/-- A setting laid over another one. -/
def layer (under top : Option V) : Option V := top.or under

/-- Laying settings over each other, the far ones first, leaves the nearest one. -/
theorem foldl_layer_reverse {layers : List (Option V)} {init : Option V} :
  layers.reverse.foldl layer init = (layers.findSome? id).or init
  := by
  induction layers with
  | nil => rfl
  | cons x layers ih =>
      rw [List.reverse_cons, List.foldl_append, ih]
      cases x <;> simp [layer]

/-- Layers that are not there set nothing. -/
theorem findSome?_reduceOption {L : Type*} {layers : List (Option L)} {get : L → Option V} :
  (layers.reduceOption.map get).findSome? id = (layers.map (fun x => x.bind get)).findSome? id
  := by
  induction layers with
  | nil => rfl
  | cons x layers ih =>
      cases x with
      | none => simpa using ih
      | some c =>
          rw [List.reduceOption_cons_of_some, List.map_cons, List.map_cons, List.findSome?_cons,
            List.findSome?_cons, ih]
          rfl

/-- The first setting of a list, by its place. -/
theorem findSome?_id_eq_some_iff {layers : List (Option V)} {v : V} :
  layers.findSome? id = some v
    ↔ ∃ p : ℕ, layers[p]? = some (some v) ∧ ∀ q < p, layers[q]? = some none
  := by
  induction layers with
  | nil => simp
  | cons x layers ih =>
      cases x with
      | none =>
          rw [List.findSome?_cons_of_isNone (by rfl), ih]
          constructor
          · rintro ⟨p, hp, hbefore⟩
            refine ⟨p + 1, by simpa using hp, ?_⟩
            intro q hq
            cases q with
            | zero => rfl
            | succ q => simpa using hbefore q (Nat.lt_of_succ_lt_succ hq)
          · rintro ⟨p, hp, hbefore⟩
            cases p with
            | zero => simp at hp
            | succ p =>
                refine ⟨p, by simpa using hp, ?_⟩
                intro q hq
                simpa using hbefore (q + 1) (Nat.succ_lt_succ hq)
      | some y =>
          constructor
          · intro h
            refine ⟨0, by simpa using h, ?_⟩
            intro q hq
            cases hq
          · rintro ⟨p, hp, hbefore⟩
            cases p with
            | zero => simpa using hp
            | succ p => simpa using hbefore 0 (Nat.succ_pos p)

end Inherit
