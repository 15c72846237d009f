import Mathlib.Data.List.Basic

/-!
# Locks

A thread takes locks as it writes and gives them back when its transaction ends.  Which locks two
threads cannot hold at once is given by a relation; a statement that needs a lock waits while
another thread holds one that conflicts with it.

A thread that waits until nothing conflicts before it takes a lock is the only one to hold it,
when the lock conflicts with itself.
-/

universe u

/-- Locks of which some conflict. -/
class Lockable (L : Type u) where
  conflicts : L → L → Bool

/-- The locks that are held, with the threads that hold them. -/
abbrev HeldLocks (L : Type u) := List (L × ℕ)

namespace HeldLocks

variable {L : Type u}

/-- Take locks. -/
def take (held : HeldLocks L) (i : ℕ) (ls : List L) : HeldLocks L :=
  ls.map (fun l => (l, i)) ++ held

/-- Give back the locks of a thread. -/
def release (held : HeldLocks L) (i : ℕ) : HeldLocks L :=
  held.filter (fun x => decide (x.2 ≠ i))

/-- A lock is held by one thread at most. -/
def Exclusive (held : HeldLocks L) (l : L) : Prop :=
  ∀ i j, (l, i) ∈ held → (l, j) ∈ held → i = j

variable {held : HeldLocks L} {i j : ℕ} {l l' : L} {ls : List L}

theorem mem_take_of_mem (h : l ∈ ls) :
  (l, i) ∈ held.take i ls
  := List.mem_append_left _ (List.mem_map_of_mem h)

theorem mem_take_of_held (h : (l, j) ∈ held) :
  (l, j) ∈ held.take i ls
  := List.mem_append_right _ h

theorem mem_take :
  (l, j) ∈ held.take i ls ↔ (l ∈ ls ∧ j = i) ∨ (l, j) ∈ held
  := by
  constructor
  · intro h
    rcases List.mem_append.mp h with h | h
    · obtain ⟨l', hl, heq⟩ := List.mem_map.mp h
      cases heq
      exact .inl ⟨hl, rfl⟩
    · exact .inr h
  · rintro (⟨hl, rfl⟩ | h)
    · exact mem_take_of_mem hl
    · exact mem_take_of_held h

/-- A thread that ends keeps the locks of others. -/
theorem mem_release (h : (l, j) ∈ held) (hj : j ≠ i) :
  (l, j) ∈ held.release i
  := List.mem_filter.mpr ⟨h, decide_eq_true hj⟩

theorem Exclusive.release (h : held.Exclusive l) :
  (held.release i).Exclusive l
  := fun j k hj hk => h j k (List.mem_of_mem_filter hj) (List.mem_of_mem_filter hk)

section
variable [Lockable L]

/-- Whether a thread waits for a lock. -/
def waits (held : HeldLocks L) (i : ℕ) (l : L) : Bool :=
  held.any (fun x => decide (x.2 ≠ i) && Lockable.conflicts l x.1)

/-- Whether somebody holds a lock that conflicts with one. -/
def blocks (held : HeldLocks L) (l : L) : Bool := held.any (fun x => Lockable.conflicts l x.1)

/-- A thread that does not wait has no other thread in its way. -/
theorem not_mem_of_waits (h : held.waits i l = false) (hconflicts : Lockable.conflicts l l' = true)
    (hj : j ≠ i) :
  (l', j) ∉ held
  := by
  intro hmem
  unfold waits at h
  rw [List.any_eq_false] at h
  apply h _ hmem
  simp [hj, hconflicts]

theorem not_mem_of_blocks (h : held.blocks l = false) (hconflicts : Lockable.conflicts l l' = true) :
  (l', j) ∉ held
  := by
  intro hmem
  unfold blocks at h
  rw [List.any_eq_false] at h
  exact h _ hmem hconflicts

/-- Locks that were waited for are held by one thread still. -/
theorem Exclusive.take (h : held.Exclusive l) (hconflicts : Lockable.conflicts l l = true)
    (hfree : l ∈ ls → held.waits i l = false) :
  (held.take i ls).Exclusive l
  := by
  intro j k hj hk
  rcases mem_take.mp hj with ⟨hl, hji⟩ | hj₁ <;> rcases mem_take.mp hk with ⟨hl', hki⟩ | hk₁
  · rw [hji, hki]
  · by_contra hne
    exact not_mem_of_waits (hfree hl) hconflicts (fun heq => hne (hji.trans heq.symm)) hk₁
  · by_contra hne
    exact not_mem_of_waits (hfree hl') hconflicts (fun heq => hne (heq.trans hki.symm)) hj₁
  · exact h j k hj₁ hk₁

end

end HeldLocks
