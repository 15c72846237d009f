import Mathlib.Data.List.Basic
import Mathlib.Data.Nat.Notation

/-!
# Files with positional access

A file is an array of bytes of which any piece can be read and written.  A write past the end, or
a length that is set beyond it, fills what lies between with zeros.

An implementation of such a file answers calls from a state, and what its surroundings do in each
call is an argument.  `Represents I bytes Inv` says that it behaves like the array `bytes`: from
this it follows, for every run of calls, that each answer is that of the array on which the calls
that succeeded so far were made.
-/

universe u v w

namespace Positional

variable {α : Type u}

/-! ### Arrays -/

/-- Up to `len` elements from an offset. -/
def slice (a : List α) (offset len : ℕ) : List α := (a.drop offset).take len

/-- Cut an array to a length, or fill it with zeros. -/
def resize (zero : α) (a : List α) (size : ℕ) : List α :=
  a.take size ++ List.replicate (size - a.length) zero

/-- Put some elements at an offset. -/
def patch (zero : α) (a : List α) (offset : ℕ) (data : List α) : List α :=
  if data = [] then a else resize zero a offset ++ data ++ a.drop (offset + data.length)

section
variable (a : List α) (offset len m : ℕ)

theorem length_slice :
  (slice a offset len).length = min len (a.length - offset)
  := by
  rw [slice, List.length_take, List.length_drop]

/-- A slice is read in two pieces. -/
theorem slice_append :
  slice a offset m ++ slice a (offset + m) len = slice a offset (m + len)
  := by
  rw [slice, slice, slice, List.take_add, List.drop_drop]

/-- Past the end there is nothing. -/
theorem slice_of_length_le {a : List α} {offset : ℕ} (h : a.length ≤ offset) :
  slice a offset len = []
  := by
  rw [slice, List.drop_eq_nil_of_le h, List.take_nil]

/-- Nothing is read only at the end, or if nothing is asked for. -/
theorem slice_eq_nil_iff :
  slice a offset len = [] ↔ len = 0 ∨ a.length ≤ offset
  := by
  rw [← List.length_eq_zero_iff, length_slice]
  omega

/-- Of a slice only what lies before the end counts. -/
theorem slice_min :
  slice a offset (min len (a.length - offset)) = slice a offset len
  := by
  rw [slice, slice, List.take_eq_take_iff, List.length_drop]
  omega

end

/-! ### Calls -/

/-- What an open file is asked for. -/
inductive Call (α : Type u)
  | readAt (offset len : ℕ)
  | writeAt (offset : ℕ) (data : List α)
  | truncate (size : ℕ)
  | size
  | sync
deriving DecidableEq

inductive Reply (α : Type u)
  | bytes (b : List α)
  | length (n : ℕ)
  | done
  | failed
deriving DecidableEq

namespace Call

/-- What a call that succeeds makes of the array. -/
def apply (zero : α) (a : List α) : Call α → List α
  | .writeAt offset data => patch zero a offset data
  | .truncate n => resize zero a n
  | _ => a

/-- A reply is what the array gives, or a failure. -/
def Answers (a : List α) : Call α → Reply α → Prop
  | _, .failed => True
  | .readAt offset len, .bytes b => b = slice a offset len
  | .size, .length n => n = a.length
  | .writeAt _ _, .done | .truncate _, .done | .sync, .done => True
  | _, _ => False

end Call

/-- The array after a call. A call that failed leaves it. -/
def after (zero : α) (a : List α) (call : Call α) : Reply α → List α
  | .failed => a
  | _ => call.apply zero a

/-- Every reply is what the array gives after the calls before it. -/
def Consistent (zero : α) : List α → List (Call α × Reply α) → Prop
  | _, [] => True
  | a, (call, reply) :: log =>
    call.Answers a reply ∧ Consistent zero (after zero a call reply) log

/-- The array after the calls of a log. -/
def result (zero : α) (a : List α) (log : List (Call α × Reply α)) : List α :=
  log.foldl (fun a entry => after zero a entry.1 entry.2) a

/-! ### Implementations -/

/-- An open file on states `σ`; `ω` is what the surroundings do in one call. -/
structure Implementation (α : Type u) (σ : Type v) (ω : Type w) where
  step : σ → Call α → ω → Reply α × σ
  /-- Release the file, and whether that succeeded. -/
  close : σ → ω → Bool × σ
  /-- What the server holds. -/
  server : σ → List α

namespace Implementation

variable {σ : Type v} {ω : Type w} {I : Implementation α σ ω} {zero : α} {bytes : σ → List α}
  {Inv : σ → Prop} {s : σ}

/-- The replies to some calls, and the state after them. -/
def run (I : Implementation α σ ω) : σ → List (Call α × ω) → List (Call α × Reply α) × σ
  | s, [] => ([], s)
  | s, (call, env) :: calls =>
    let (reply, s) := I.step s call env
    let (log, s) := run I s calls
    ((call, reply) :: log, s)

/-- Where `Inv` holds the file behaves like an array. -/
structure Represents (I : Implementation α σ ω) (zero : α) (bytes : σ → List α) (Inv : σ → Prop) :
    Prop where
  step : ∀ s call env, Inv s → Inv (I.step s call env).2 ∧
    call.Answers (bytes s) (I.step s call env).1 ∧
    bytes (I.step s call env).2 = after zero (bytes s) call (I.step s call env).1
  close : ∀ s env, Inv s → (I.close s env).1 = true → I.server (I.close s env).2 = bytes s

/-- Every run of a file that behaves like an array has the replies of the array. -/
theorem Represents.run (h : I.Represents zero bytes Inv) (hs : Inv s) (calls : List (Call α × ω)) :
  Inv (I.run s calls).2 ∧ Consistent zero (bytes s) (I.run s calls).1 ∧
    bytes (I.run s calls).2 = result zero (bytes s) (I.run s calls).1
  := by
  induction calls generalizing s with
  | nil => exact ⟨hs, trivial, rfl⟩
  | cons c calls ih =>
      obtain ⟨call, env⟩ := c
      obtain ⟨hinv, hanswers, hbytes⟩ := h.step s call env hs
      obtain ⟨hinv', hconsistent, hresult⟩ := ih hinv
      rw [hbytes] at hconsistent hresult
      exact ⟨hinv', ⟨hanswers, hconsistent⟩, hresult⟩

/-- A file is sound from a state: it behaves like the array `a`, and what the server holds after it
is closed is what became of the array. -/
def Sound (I : Implementation α σ ω) (zero : α) (s : σ) (a : List α) : Prop :=
  ∀ calls, Consistent zero a (I.run s calls).1 ∧
    ∀ env, (I.close (I.run s calls).2 env).1 = true →
      I.server (I.close (I.run s calls).2 env).2 = result zero a (I.run s calls).1

theorem Represents.sound (h : I.Represents zero bytes Inv) (hs : Inv s) :
  I.Sound zero s (bytes s)
  := by
  intro calls
  obtain ⟨hinv, hconsistent, hresult⟩ := h.run hs calls
  refine ⟨hconsistent, fun env hclose => ?_⟩
  rw [← hresult]
  exact h.close _ env hinv hclose

end Implementation

end Positional
