import Mathlib.Data.List.Basic

/-!
# Programs over byte streams

A program reads a stream of bytes and writes letters of its own.  It is run on all the bytes that
are ever to be read, ends with a value or an error, and leaves some of them unread.
-/

universe u v w

/-- How a program ends, what it has written, and what it has not read. -/
structure Duplex.Outcome (ω : Type w) (ε : Type u) (α : Type v) where
  result : Except ε α
  sent : List ω
  unread : List UInt8

/-- A program that reads a stream of bytes and writes letters. -/
def Duplex (ω : Type w) (ε : Type u) (α : Type v) := List UInt8 → Duplex.Outcome ω ε α

namespace Duplex

variable {ω : Type w} {ε : Type u} {α β : Type v}

def ret (a : α) : Duplex ω ε α := fun s => ⟨.ok a, [], s⟩

def andThen (m : Duplex ω ε α) (f : α → Duplex ω ε β) : Duplex ω ε β := fun s =>
  match m s with
  | ⟨.ok a, sent, s⟩ => ⟨(f a s).result, sent ++ (f a s).sent, (f a s).unread⟩
  | ⟨.error e, sent, s⟩ => ⟨.error e, sent, s⟩

instance : Monad (Duplex ω ε) where
  pure := ret
  bind := andThen

def fail (e : ε) : Duplex ω ε α := fun s => ⟨.error e, [], s⟩

/-- Read a number of bytes. When the stream ends before, what is left of it is lost. -/
def readExact (closed : ε) (n : ℕ) : Duplex ω ε (List UInt8) := fun s =>
  if n ≤ s.length then ⟨.ok (s.take n), [], s.drop n⟩ else ⟨.error closed, [], []⟩

/-- Write letters. -/
def send (letters : List ω) : Duplex ω ε PUnit := fun s => ⟨.ok ⟨⟩, letters, s⟩

/-- Write all that is still to be read, a letter for each byte. -/
def relay (letter : UInt8 → ω) : Duplex ω ε PUnit := fun s => ⟨.ok ⟨⟩, s.map letter, []⟩

section
variable {m : Duplex ω ε α} {f : α → Duplex ω ε β} {s : List UInt8}

theorem andThen_ok {a : α} (h : (m s).result = .ok a) :
  (m >>= f) s = ⟨(f a (m s).unread).result, (m s).sent ++ (f a (m s).unread).sent,
    (f a (m s).unread).unread⟩
  := by
  change andThen m f s = _
  unfold andThen
  split
  · rename_i b sent s' heq
    rw [heq] at h ⊢
    cases h
    rfl
  · rename_i e sent s' heq
    rw [heq] at h
    cases h

theorem andThen_error {e : ε} (h : (m s).result = .error e) :
  (m >>= f) s = ⟨.error e, (m s).sent, (m s).unread⟩
  := by
  change andThen m f s = _
  unfold andThen
  split
  · rename_i b sent s' heq
    rw [heq] at h
    cases h
  · rename_i e' sent s' heq
    rw [heq] at h ⊢
    cases h
    rfl

/-- A program ends well when its parts do. -/
theorem andThen_eq_ok {b : β} (h : ((m >>= f) s).result = .ok b) :
  ∃ a, (m s).result = .ok a ∧ (f a (m s).unread).result = .ok b
  := by
  cases hm : (m s).result with
  | error e =>
      rw [andThen_error hm] at h
      cases h
  | ok a =>
      rw [andThen_ok hm] at h
      exact ⟨a, rfl, h⟩

/-- A first part that writes nothing is replaced with what it reads. -/
theorem andThen_eq {a : α} {s' : List UInt8} (h : m s = ⟨.ok a, [], s'⟩) :
  (m >>= f) s = f a s'
  := by
  rw [andThen_ok (a := a) (by rw [h]), h, List.nil_append]

theorem send_andThen (letters : List ω) (g : PUnit → Duplex ω ε β) :
  (send letters >>= g) s = ⟨(g ⟨⟩ s).result, letters ++ (g ⟨⟩ s).sent, (g ⟨⟩ s).unread⟩
  := by
  rfl

theorem readExact_append (closed : ε) (bytes rest : List UInt8) :
  (readExact closed bytes.length : Duplex ω ε _) (bytes ++ rest) = ⟨.ok bytes, [], rest⟩
  := by
  rw [readExact, if_pos (by simp), List.take_left, List.drop_left]

theorem readExact_eq_ok {closed : ε} {n : ℕ} {bytes : List UInt8}
    (h : ((readExact closed n : Duplex ω ε _) s).result = .ok bytes) :
  bytes.length = n ∧ s = bytes ++ ((readExact closed n : Duplex ω ε _) s).unread
  := by
  rw [readExact] at h ⊢
  split at h
  · rename_i hlen
    rw [if_pos hlen]
    cases h
    exact ⟨List.length_take_of_le hlen, (List.take_append_drop n s).symm⟩
  · cases h

end

/-! ### Programs that write nothing -/

/-- A program writes nothing, whatever it reads. -/
def Silent (m : Duplex ω ε α) : Prop := ∀ s, (m s).sent = []

theorem silent_ret (a : α) :
  Silent (ret a : Duplex ω ε α)
  := fun _ => rfl

theorem silent_fail (e : ε) :
  Silent (fail e : Duplex ω ε α)
  := fun _ => rfl

theorem silent_readExact (closed : ε) (n : ℕ) :
  Silent (readExact closed n : Duplex ω ε _)
  := by
  intro s
  rw [readExact]
  split <;> rfl

theorem silent_andThen {m : Duplex ω ε α} {f : α → Duplex ω ε β} (hm : Silent m)
    (hf : ∀ a, Silent (f a)) :
  Silent (m >>= f)
  := by
  intro s
  cases h : (m s).result with
  | error e => rw [andThen_error h, hm s]
  | ok a => rw [andThen_ok h, hm s, hf a, List.nil_append]

end Duplex
