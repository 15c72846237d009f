import Mathlib.Algebra.BigOperators.Group.List.Basic
import Mathlib.Algebra.Ring.Nat
import Mathlib.Data.Bool.Basic
import Termoso.Lib.Transition

/-!
# Machines that answer what they read

A machine reads a stream one symbol at a time, shows something of it, and answers with symbols of
its own.  Reading a stream in chunks is reading it whole.

Two machines are wired to each other when what one answers is what the other reads.  A tariff puts
a price on every reading and on every state: if the price of a reading pays for its answer, however
the other end reads it, then all that the two can still exchange is bounded by the bill for what is
on the wire now.
-/

universe u v w

/-- A machine with states in `σ` that reads `α`, shows `β` and answers with `α`. -/
structure Machine (σ : Type u) (α : Type v) (β : Type w) where
  next : σ → α → σ
  shows : σ → α → List β
  answers : σ → α → List α

namespace Machine

variable {σ : Type u} {α : Type v} {β : Type w} (m : Machine σ α β) {s : σ} {xs ys : List α}

/-- Read a stream: the state after it, what was shown and what was answered. -/
def feed (s : σ) : List α → σ × List β × List α
  | [] => (s, [], [])
  | x :: xs =>
    let r := feed (m.next s x) xs
    (r.1, m.shows s x ++ r.2.1, m.answers s x ++ r.2.2)

/-- Read a stream that arrives in chunks. -/
def feedAll (s : σ) : List (List α) → σ × List β × List α
  | [] => (s, [], [])
  | c :: cs =>
    let r := m.feed s c
    let rest := feedAll r.1 cs
    (rest.1, r.2.1 ++ rest.2.1, r.2.2 ++ rest.2.2)

/-- The state after a stream. -/
abbrev after (s : σ) (xs : List α) : σ := (m.feed s xs).1

/-- What a stream is answered with. -/
abbrev said (s : σ) (xs : List α) : List α := (m.feed s xs).2.2

@[simp] theorem feed_nil : m.feed s [] = (s, [], []) := rfl

theorem feed_cons {x : α} :
  m.feed s (x :: xs) = ((m.feed (m.next s x) xs).1, m.shows s x ++ (m.feed (m.next s x) xs).2.1,
    m.answers s x ++ (m.feed (m.next s x) xs).2.2)
  := rfl

theorem feed_append :
  m.feed s (xs ++ ys) = ((m.feed (m.after s xs) ys).1,
    (m.feed s xs).2.1 ++ (m.feed (m.after s xs) ys).2.1,
    m.said s xs ++ m.said (m.after s xs) ys)
  := by
  induction xs generalizing s with
  | nil => rfl
  | cons x xs ih =>
      rw [List.cons_append, feed_cons, ih]
      simp only [after, said, feed_cons, List.append_assoc]

@[simp] theorem after_append :
  m.after s (xs ++ ys) = m.after (m.after s xs) ys
  := by
  rw [after, feed_append]

@[simp] theorem said_append :
  m.said s (xs ++ ys) = m.said s xs ++ m.said (m.after s xs) ys
  := by
  rw [said, feed_append]

/-- What is shown and answered does not depend on how the stream is cut into chunks. -/
theorem feedAll_eq (cs : List (List α)) :
  m.feedAll s cs = m.feed s cs.flatten
  := by
  induction cs generalizing s with
  | nil => rfl
  | cons c cs ih =>
      rw [feedAll, ih, List.flatten_cons, feed_append]

/-! ### Readings -/

/-- Every reading of a stream is allowed by `R`. -/
def Reads (R : σ → α → Prop) : σ → List α → Prop
  | _, [] => True
  | s, x :: xs => R s x ∧ Reads R (m.next s x) xs

variable {m} {R : σ → α → Prop}

theorem reads_append :
  m.Reads R s (xs ++ ys) ↔ m.Reads R s xs ∧ m.Reads R (m.after s xs) ys
  := by
  induction xs generalizing s with
  | nil => simp [Reads, after]
  | cons x xs ih =>
      rw [List.cons_append, Reads, ih, Reads, and_assoc]
      rfl

end Machine

/-- What the readings and the states of a machine cost. -/
structure Tariff (σ : Type u) (α : Type v) where
  price : σ → α → ℕ
  deposit : σ → ℕ

namespace Tariff

variable {σ : Type u} {α : Type v} {β : Type w} {m : Machine σ α β} (t : Tariff σ α)
  {s : σ} {xs ys : List α}

/-- The price of all readings of a stream. -/
def sum (m : Machine σ α β) : σ → List α → ℕ
  | _, [] => 0
  | s, x :: xs => t.price s x + sum m (m.next s x) xs

/-- The price of all readings of a stream and of the state after it. -/
def bill (m : Machine σ α β) (s : σ) (xs : List α) : ℕ :=
  t.sum m s xs + t.deposit (m.after s xs)

theorem sum_append :
  t.sum m s (xs ++ ys) = t.sum m s xs + t.sum m (m.after s xs) ys
  := by
  induction xs generalizing s with
  | nil => simp [sum, Machine.after]
  | cons x xs ih =>
      rw [List.cons_append, sum, ih, sum, add_assoc]
      rfl

theorem bill_append :
  t.bill m s (xs ++ ys) = t.sum m s xs + t.bill m (m.after s xs) ys
  := by
  rw [bill, sum_append, bill, Machine.after_append, add_assoc]

end Tariff

/-- Two machines wired to each other: the state of each, and what is on the wire to it. -/
structure Wired (σ : Type u) (α : Type v) where
  state : Bool → σ
  wire : Bool → List α

namespace Wired

variable {σ : Type u} {α : Type v} {β : Type w} {m : Bool → Machine σ α β} {w : Wired σ α}

/-- The machine at one end reads the first `n` symbols on the wire to it. -/
def deliver (m : Bool → Machine σ α β) (w : Wired σ α) (i : Bool) (n : ℕ) : Wired σ α where
  state := Function.update w.state i ((m i).after (w.state i) ((w.wire i).take n))
  wire := Function.update (Function.update w.wire i ((w.wire i).drop n)) (!i)
    (w.wire (!i) ++ (m i).said (w.state i) ((w.wire i).take n))

/-- The steps of two wired machines: each end reads as much as it likes of what is there, at any
time. -/
def system (m : Bool → Machine σ α β) : TransitionSystem (Wired σ α) (Bool × ℕ) where
  init _ := True
  step w l := if 0 < l.2 ∧ l.2 ≤ (w.wire l.1).length then some (w.deliver m l.1 l.2) else none

/-- Only finitely many symbols are exchanged from here on, whichever way the steps are taken. -/
def Settles (m : Bool → Machine σ α β) (w : Wired σ α) : Prop :=
  ∃ n, ∀ ls w', (system m).run w ls = some w' → (ls.map Prod.snd).sum ≤ n

theorem step_eq_some {l : Bool × ℕ} {w' : Wired σ α} :
  (system m).step w l = some w' ↔
    0 < l.2 ∧ l.2 ≤ (w.wire l.1).length ∧ w.deliver m l.1 l.2 = w'
  := by
  simp only [system, Option.ite_none_right_eq_some, Option.some.injEq, and_assoc]

@[simp] theorem state_deliver (i : Bool) (n : ℕ) :
  (w.deliver m i n).state i = (m i).after (w.state i) ((w.wire i).take n)
  := by
  simp [deliver]

@[simp] theorem state_deliver_not (i : Bool) (n : ℕ) :
  (w.deliver m i n).state (!i) = w.state (!i)
  := by
  simp [deliver]

@[simp] theorem wire_deliver (i : Bool) (n : ℕ) :
  (w.deliver m i n).wire i = (w.wire i).drop n
  := by
  simp [deliver]

@[simp] theorem wire_deliver_not (i : Bool) (n : ℕ) :
  (w.deliver m i n).wire (!i) =
    w.wire (!i) ++ (m i).said (w.state i) ((w.wire i).take n)
  := by
  simp [deliver]

/-! ### Exchanges that end -/

/-- Two machines settle when every step keeps an invariant and pays for the symbols it reads. -/
theorem settles_of_pays (I : Wired σ α → Prop) (bill : Wired σ α → ℕ)
    (h : ∀ w i n, I w → 0 < n → n ≤ (w.wire i).length →
      I (w.deliver m i n) ∧ n + bill (w.deliver m i n) ≤ bill w) (hw : I w) :
  Settles m w
  := by
  refine ⟨bill w, fun ls => ?_⟩
  induction ls generalizing w with
  | nil =>
      intro w' _
      exact Nat.zero_le _
  | cons l ls ih =>
      intro w' hrun
      obtain ⟨w₁, hstep, hrest⟩ := Option.bind_eq_some_iff.mp hrun
      obtain ⟨hpos, hlen, rfl⟩ := step_eq_some.mp hstep
      obtain ⟨hI, hpay⟩ := h w l.1 l.2 hw hpos hlen
      have hsum := ih hI w' hrest
      rw [List.map_cons, List.sum_cons]
      omega

/-- Two machines never settle when an invariant always leaves a step to take. -/
theorem not_settles_of_goesOn {I : Wired σ α → Prop}
    (h : ∀ w, I w → ∃ i n, 0 < n ∧ n ≤ (w.wire i).length ∧ I (w.deliver m i n)) (hw : I w) :
  ¬Settles m w
  := by
  have hruns : ∀ k w, I w → ∃ ls w', (system m).run w ls = some w' ∧
      k ≤ (ls.map Prod.snd).sum := by
    intro k
    induction k with
    | zero =>
        intro w _
        exact ⟨[], w, rfl, Nat.zero_le _⟩
    | succ k ih =>
        intro w hw
        obtain ⟨i, n, hpos, hlen, hI⟩ := h w hw
        obtain ⟨ls, w', hrun, hk⟩ := ih _ hI
        refine ⟨(i, n) :: ls, w', ?_, ?_⟩
        · exact Option.bind_eq_some_iff.mpr ⟨_, step_eq_some.mpr ⟨hpos, hlen, rfl⟩, hrun⟩
        · rw [List.map_cons, List.sum_cons]
          omega
  rintro ⟨n, hn⟩
  obtain ⟨ls, w', hrun, hk⟩ := hruns (n + 1) w hw
  have := hn ls w' hrun
  omega

/-- The price of a reading that `R i` allows pays for its answer, in whatever state the other end
reads it, and the other end reads nothing in it that `R` does not allow. -/
def Affordable (m : Bool → Machine σ α β) (R : Bool → σ → α → Prop) (t : Bool → Tariff σ α) :
    Prop :=
  ∀ i s x s', R i s x →
    (m !i).Reads (R !i) s' ((m i).answers s x) ∧
    ((m i).answers s x).length + (t !i).bill (m !i) s' ((m i).answers s x) ≤
      (t i).price s x + (t !i).deposit s'

variable {R : Bool → σ → α → Prop} {t : Bool → Tariff σ α}

/-- What is affordable for a reading is for a stream. -/
theorem Affordable.stream (h : Affordable m R t) {i : Bool} {s : σ} (s' : σ) {xs : List α}
    (hxs : (m i).Reads (R i) s xs) :
  (m !i).Reads (R !i) s' ((m i).said s xs) ∧
    ((m i).said s xs).length + (t !i).bill (m !i) s' ((m i).said s xs) ≤
      (t i).sum (m i) s xs + (t !i).deposit s'
  := by
  induction xs generalizing s s' with
  | nil => exact ⟨trivial, by simp [Tariff.bill, Tariff.sum, Machine.after, Machine.said]⟩
  | cons x xs ih =>
      obtain ⟨hx, hxs⟩ := hxs
      obtain ⟨hreads, hpay⟩ := h i s x s' hx
      obtain ⟨hreads', hpay'⟩ := ih ((m !i).after s' ((m i).answers s x)) hxs
      have hsaid : (m i).said s (x :: xs) =
          (m i).answers s x ++ (m i).said ((m i).next s x) xs := rfl
      rw [hsaid]
      refine ⟨Machine.reads_append.mpr ⟨hreads, hreads'⟩, ?_⟩
      rw [List.length_append, Tariff.bill_append, Tariff.sum]
      rw [Tariff.bill] at hpay
      omega

/-- Two machines settle when the readings of what is on the wire are all affordable. -/
theorem settles_of_affordable (h : Affordable m R t)
    (hw : ∀ i, (m i).Reads (R i) (w.state i) (w.wire i)) :
  Settles m w
  := by
  let due (w : Wired σ α) (i : Bool) : ℕ :=
    (w.wire i).length + (t i).bill (m i) (w.state i) (w.wire i)
  apply settles_of_pays (fun w => ∀ i, (m i).Reads (R i) (w.state i) (w.wire i))
    (fun w => due w true + due w false) _ hw
  intro w i n hI _ hn
  have hdue : ∀ w, due w true + due w false = due w i + due w (!i) := by
    intro w
    cases i with
    | false => apply Nat.add_comm
    | true => rfl
  have hcut := hI i
  rw [← List.take_append_drop n (w.wire i), Machine.reads_append] at hcut
  obtain ⟨hreads, hpay⟩ := h.stream ((m !i).after (w.state !i) (w.wire !i)) hcut.1
  constructor
  · rw [Bool.forall_bool' i]
    simp only [state_deliver, wire_deliver, state_deliver_not, wire_deliver_not]
    exact ⟨hcut.2, Machine.reads_append.mpr ⟨hI (!i), hreads⟩⟩
  · rw [hdue, hdue]
    simp only [due, state_deliver, wire_deliver, state_deliver_not, wire_deliver_not]
    have hlen : (w.wire i).length = n + ((w.wire i).drop n).length := by
      rw [List.length_drop]
      omega
    have hbill : (t i).bill (m i) (w.state i) (w.wire i) =
        (t i).sum (m i) (w.state i) ((w.wire i).take n) +
          (t i).bill (m i) ((m i).after (w.state i) ((w.wire i).take n))
            ((w.wire i).drop n) := by
      rw [← Tariff.bill_append, List.take_append_drop]
    have hbill' : (t !i).bill (m !i) (w.state !i) (w.wire !i) =
        (t !i).sum (m !i) (w.state !i) (w.wire !i) +
          (t !i).deposit ((m !i).after (w.state !i) (w.wire !i)) := rfl
    rw [hbill, hlen, List.length_append, Tariff.bill_append, hbill']
    omega

end Wired
