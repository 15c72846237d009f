import Mathlib.Data.List.Induction
import Mathlib.Data.Set.Lattice

/-!
# Pinning

Places pin keys in slots; what is pinned is read over all places at once.  A key is known in a slot
when the slot has that key and no other.  Admitting a key at a place leaves everything as it is when
the key is known, and otherwise puts the key in place of those the place has in the slot.

Admitting a list of keys keeps what is pinned, and leaves every key of the list known, exactly when
no key of the list contradicts a pin or another key of the list.
-/

universe u v w

/-- The keys that each place pins in each slot. -/
abbrev Pins (V : Type u) (S : Type v) (K : Type w) := V → S → Set K

namespace Pins

open scoped Classical

variable {V : Type u} {S : Type v} {K : Type w} {P P' : Pins V S K} {place : V} {slot slot' : S}
  {k : K} {e : S × K} {es : List (S × K)}

/-- The keys pinned in a slot at some place. -/
def everywhere (P : Pins V S K) (slot : S) : Set K := {k | ∃ p, k ∈ P p slot}

/-- The slot has the key, and no other. -/
def Known (P : Pins V S K) (slot : S) (k : K) : Prop := P.everywhere slot = {k}

/-- Put a key in place of those that a place has in a slot. -/
def replace (place : V) (P : Pins V S K) (slot : S) (k : K) : Pins V S K :=
  fun p σ => {k' | if p = place ∧ σ = slot then k' = k else k' ∈ P p σ}

/-- Admit a key at a place. -/
def accept (place : V) (P : Pins V S K) (e : S × K) : Pins V S K :=
  fun p σ => {k' | if P.Known e.1 e.2 then k' ∈ P p σ else k' ∈ replace place P e.1 e.2 p σ}

/-- No key of the list contradicts a pin, or another key of the list. -/
def Consistent (P : Pins V S K) (es : List (S × K)) : Prop :=
  (∀ e ∈ es, ∀ k ∈ P.everywhere e.1, k = e.2)
    ∧ ∀ e ∈ es, ∀ e' ∈ es, e.1 = e'.1 → e.2 = e'.2

theorem known_iff :
  P.Known slot k ↔ k ∈ P.everywhere slot ∧ ∀ k' ∈ P.everywhere slot, k' = k
  := by
  rw [Known, Set.eq_singleton_iff_unique_mem]

theorem admit_of_known (h : P.Known e.1 e.2) :
  accept place P e = P
  := by
  funext p σ
  simp [accept, h]

theorem admit_of_not_known (h : ¬ P.Known e.1 e.2) :
  accept place P e = replace place P e.1 e.2
  := by
  funext p σ
  simp [accept, h]

theorem mem_replace {p : V} {k' : K} :
  k' ∈ replace place P slot k p slot' ↔ if p = place ∧ slot' = slot then k' = k else k' ∈ P p slot'
  := Iff.rfl

theorem everywhere_replace_other (h : slot' ≠ slot) :
  (replace place P slot k).everywhere slot' = P.everywhere slot'
  := by
  ext k'
  simp [everywhere, mem_replace, h]

theorem mem_everywhere_replace {k' : K} :
  k' ∈ (replace place P slot k).everywhere slot ↔ k' = k ∨ ∃ p, p ≠ place ∧ k' ∈ P p slot
  := by
  simp only [everywhere, Set.mem_ofPred_eq, mem_replace, and_true]
  constructor
  · rintro ⟨p, hp⟩
    by_cases hplace : p = place
    · rw [if_pos hplace] at hp
      exact .inl hp
    · rw [if_neg hplace] at hp
      exact .inr ⟨p, hplace, hp⟩
  · rintro (rfl | ⟨p, hplace, hp⟩)
    · exact ⟨place, by simp⟩
    · exact ⟨p, by simpa [hplace] using hp⟩

theorem Known.mem (h : P.Known slot k) : k ∈ P.everywhere slot := (known_iff.mp h).1

/-- A slot has one known key. -/
theorem Known.unique {k' : K} (h : P.Known slot k) (h' : P.Known slot k') :
  k = k'
  := (known_iff.mp h').2 k h.mem

/-! ### Admitting a list -/

/-- What is known of a list keeps the list consistent with everything pinned before. -/
theorem consistent_of_known (hle : P ≤ P') (h : ∀ e ∈ es, P'.Known e.1 e.2) :
  P.Consistent es
  := by
  constructor
  · intro e he k hk
    obtain ⟨p, hp⟩ := hk
    exact (known_iff.mp (h e he)).2 k ⟨p, hle p e.1 hp⟩
  · intro e he e' he' heq
    have hknown := h e' he'
    rw [← heq] at hknown
    exact (h e he).unique hknown

/-- A key that contradicts no pin is known once admitted, and nothing pinned is lost. -/
theorem le_admit (h : ∀ k ∈ P.everywhere e.1, k = e.2) :
  P ≤ accept place P e ∧ (accept place P e).Known e.1 e.2
  := by
  by_cases hknown : P.Known e.1 e.2
  · rw [admit_of_known hknown]
    exact ⟨le_refl P, hknown⟩
  · rw [admit_of_not_known hknown, known_iff]
    refine ⟨?_, mem_everywhere_replace.mpr (.inl rfl), ?_⟩
    · intro p σ k hk
      rw [mem_replace]
      split
      · rename_i heq
        rw [heq.2] at hk
        exact h k ⟨p, hk⟩
      · exact hk
    · intro k hk
      rcases mem_everywhere_replace.mp hk with rfl | ⟨p, -, hp⟩
      · rfl
      · exact h k ⟨p, hp⟩

/-- Admitting a consistent key leaves other keys consistent. -/
theorem Consistent.accept (h : P.Consistent (e :: es)) :
  (accept place P e).Consistent es
  := by
  obtain ⟨hpins, hlist⟩ := h
  refine ⟨?_, fun e' he' e'' he'' => hlist e' (.tail e he') e'' (.tail e he'')⟩
  intro e' he' k hk
  by_cases hknown : P.Known e.1 e.2
  · rw [admit_of_known hknown] at hk
    exact hpins e' (.tail e he') k hk
  · rw [admit_of_not_known hknown] at hk
    by_cases hslot : e'.1 = e.1
    · rw [hslot] at hk
      rcases mem_everywhere_replace.mp hk with rfl | ⟨p, -, hp⟩
      · exact hlist e (.head es) e' (.tail e he') hslot.symm
      · rw [← hslot] at hp
        exact hpins e' (.tail e he') k ⟨p, hp⟩
    · rw [everywhere_replace_other hslot] at hk
      exact hpins e' (.tail e he') k hk

/-- A known key stays known when keys consistent with it are admitted. -/
theorem Known.accept (h : P.Known slot k) (hslot : e.1 = slot → e.2 = k) :
  (accept place P e).Known slot k
  := by
  by_cases hknown : P.Known e.1 e.2
  · rw [admit_of_known hknown]
    exact h
  · have hother : slot ≠ e.1 := by
      rintro rfl
      rw [hslot rfl] at hknown
      exact hknown h
    rw [admit_of_not_known hknown, Known, everywhere_replace_other hother]
    exact h

/-- A consistent list is known once admitted, and nothing pinned is lost. -/
theorem Consistent.foldl_accept (place : V) (h : P.Consistent es) :
  P ≤ es.foldl (Pins.accept place) P ∧ ∀ e ∈ es, (es.foldl (Pins.accept place) P).Known e.1 e.2
  := by
  suffices hrun : ∀ (known : List (S × K)) (es : List (S × K)) (P : Pins V S K),
      P.Consistent es → (∀ e ∈ known, P.Known e.1 e.2) →
        (∀ e ∈ known, ∀ e' ∈ es, e'.1 = e.1 → e'.2 = e.2) →
        P ≤ es.foldl (Pins.accept place) P
          ∧ ∀ e ∈ known ++ es, (es.foldl (Pins.accept place) P).Known e.1 e.2 by
    simpa using hrun [] es P h (by simp) (by simp)
  clear h
  intro known es
  induction es generalizing known with
  | nil =>
      intro P _ hknown _
      rw [List.append_nil]
      exact ⟨le_refl P, hknown⟩
  | cons e es ih =>
      intro P h hknown hagree
      have haccept : P ≤ Pins.accept place P e ∧ (Pins.accept place P e).Known e.1 e.2 :=
        le_admit (h.1 e (.head es))
      obtain ⟨hle, hacceptted⟩ := haccept
      obtain ⟨hle', hall⟩ := ih (known ++ [e]) (Pins.accept place P e) h.accept
        (by
          intro e' he'
          rcases List.mem_append.mp he' with he' | he'
          · exact (hknown e' he').accept (hagree e' he' e (.head es))
          · rw [List.mem_singleton.mp he']
            exact hacceptted)
        (by
          intro e' he' e'' he'' hslot
          rcases List.mem_append.mp he' with he' | he'
          · exact hagree e' he' e'' (.tail e he'') hslot
          · rw [List.mem_singleton.mp he'] at hslot ⊢
            exact h.2 e'' (.tail e he'') e (.head es) hslot)
      rw [List.append_assoc, List.singleton_append] at hall
      exact ⟨hle.trans hle', hall⟩

/-! ### The last key of a slot -/

section
variable [DecidableEq S]

/-- The last key that a list has for a slot. -/
def lastOf (es : List (S × K)) (slot : S) : Option K :=
  ((es.filter (fun e => decide (e.1 = slot))).getLast?).map Prod.snd

theorem lastOf_concat :
  lastOf (es ++ [e]) slot = if e.1 = slot then some e.2 else lastOf es slot
  := by
  rw [lastOf, List.filter_append]
  split
  · simp [*]
  · simp [*, lastOf]

/-- The last key of a slot is one the list has for it. -/
theorem exists_of_lastOf (h : lastOf es slot = some k) :
  ∃ e ∈ es, e.1 = slot ∧ e.2 = k
  := by
  obtain ⟨e, he, rfl⟩ := Option.map_eq_some_iff.mp h
  have hmem := List.mem_of_getLast? he
  rw [List.mem_filter, decide_eq_true_eq] at hmem
  exact ⟨e, hmem.1, hmem.2, rfl⟩

/-- When no other place pins anything, admitting a list leaves the last key of each slot. -/
theorem everywhere_foldl_accept (h : ∀ p, p ≠ place → ∀ σ, P p σ = ∅) :
  (es.foldl (accept place) P).everywhere slot
    = (lastOf es slot).elim (P.everywhere slot) (fun k => {k})
  := by
  suffices hrun : (∀ p, p ≠ place → ∀ σ, es.foldl (accept place) P p σ = ∅)
      ∧ (es.foldl (accept place) P).everywhere slot
        = (lastOf es slot).elim (P.everywhere slot) (fun k => {k}) from hrun.2
  induction es using List.reverseRecOn with
  | nil => exact ⟨h, rfl⟩
  | append_singleton es e ih =>
      obtain ⟨hother, heq⟩ := ih
      rw [List.foldl_append, List.foldl_cons, List.foldl_nil, lastOf_concat]
      generalize es.foldl (accept place) P = Q at hother heq ⊢
      by_cases hknown : Q.Known e.1 e.2
      · rw [admit_of_known hknown]
        refine ⟨hother, ?_⟩
        split
        · rename_i hslot
          rw [← hslot]
          exact hknown
        · exact heq
      · rw [admit_of_not_known hknown]
        constructor
        · intro p hp σ
          ext k
          simp [mem_replace, hp, hother p hp σ]
        · split
          · rename_i hslot
            rw [← hslot]
            ext k
            rw [mem_everywhere_replace]
            constructor
            · rintro (rfl | ⟨p, hp, hk⟩)
              · exact rfl
              · rw [hother p hp] at hk
                exact hk.elim
            · intro hk
              exact .inl hk
          · rename_i hslot
            rw [everywhere_replace_other (Ne.symm hslot)]
            exact heq

end

end Pins
