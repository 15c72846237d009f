import Mathlib.Data.Option.Basic

/-!
# Computations that can fail

When a computation in `Except` succeeds.  Rewriting with these lemmas turns a program that
binds, checks and throws into the facts its success rests on.
-/

universe u v

variable {ε : Type u} {α β : Type v}

/-- A sequence succeeds when its parts do. -/
theorem bind_eq_ok {x : Except ε α} {f : α → Except ε β} {b : β} :
  (x >>= f) = .ok b ↔ ∃ a, x = .ok a ∧ f a = .ok b
  := by
  cases x with
  | error e => simp [bind, Except.bind]
  | ok a => simp [bind, Except.bind]

/-- A sequence fails when one of its parts does. -/
theorem bind_eq_error {x : Except ε α} {f : α → Except ε β} {e : ε} :
  (x >>= f) = .error e ↔ x = .error e ∨ ∃ a, x = .ok a ∧ f a = .error e
  := by
  cases x with
  | error e => simp [bind, Except.bind]
  | ok a => simp [bind, Except.bind]

/-- A check fails with its own error when its condition holds. -/
theorem check_eq_error {c : Prop} [Decidable c] {e e' : ε} {x : Except ε β} :
  (if c then (throw e : Except ε PUnit) >>= fun _ => x else x) = .error e'
    ↔ (c ∧ e = e') ∨ (¬ c ∧ x = .error e')
  := by
  split
  · simp [*, bind, Except.bind, throw, throwThe, MonadExceptOf.throw]
  · simp [*]

/-- A check succeeds when its condition does not hold. -/
theorem check_eq_ok {c : Prop} [Decidable c] {e : ε} {x : Except ε β} {b : β} :
  (if c then (throw e : Except ε PUnit) >>= fun _ => x else x) = .ok b ↔ ¬ c ∧ x = .ok b
  := by
  split
  · simp [*, bind, Except.bind, throw, throwThe, MonadExceptOf.throw]
  · simp [*]

@[simp]
theorem throw_eq_ok {e : ε} {a : α} :
  (throw e : Except ε α) = .ok a ↔ False
  := by
  simp [throw, throwThe, MonadExceptOf.throw]

@[simp]
theorem pure_eq_ok {a b : α} :
  (pure a : Except ε α) = .ok b ↔ a = b
  := by
  simp [pure, Except.pure]

theorem map_eq_ok {x : Except ε α} {f : α → β} {b : β} :
  x.map f = .ok b ↔ ∃ a, x = .ok a ∧ f a = b
  := by
  cases x <;> simp [Except.map]

theorem mapError_eq_ok {ε' : Type*} {x : Except ε α} {f : ε → ε'} {a : α} :
  x.mapError f = .ok a ↔ x = .ok a
  := by
  cases x <;> simp [Except.mapError]

theorem toOption_eq_some {x : Except ε α} {a : α} :
  x.toOption = some a ↔ x = .ok a
  := by
  cases x <;> simp [Except.toOption]

theorem elim_eq_ok {o : Option α} {e : ε} {a : α} :
  o.elim (.error e) Except.ok = .ok a ↔ o = some a
  := by
  cases o <;> simp

/-- Every part of a sequence of computations that succeeds does. -/
theorem of_mapM_eq_ok {f : α → Except ε β} {l : List α} {l' : List β} (h : l.mapM f = .ok l')
    {a : α} (ha : a ∈ l) :
  ∃ b, f a = .ok b
  := by
  induction l generalizing l' with
  | nil => cases ha
  | cons c l ih =>
      rw [List.mapM_cons] at h
      obtain ⟨b, hb, h⟩ := bind_eq_ok.mp h
      obtain ⟨bs, hbs, -⟩ := bind_eq_ok.mp h
      rcases List.mem_cons.mp ha with rfl | ha
      · exact ⟨b, hb⟩
      · exact ih hbs ha

theorem mapM_map_ok {γ : Type v} {f : β → Except ε γ} {g : α → β} {h : α → γ} {l : List α}
    (hf : ∀ a ∈ l, f (g a) = .ok (h a)) :
  (l.map g).mapM f = .ok (l.map h)
  := by
  induction l with
  | nil => rfl
  | cons a l ih =>
      rw [List.map_cons, List.mapM_cons, hf a List.mem_cons_self,
        ih (fun b hb => hf b (List.mem_cons_of_mem _ hb))]
      rfl

/-- What a sequence of computations that succeeds returns. -/
theorem map_of_mapM_eq_ok {f : α → Except ε β} {l : List α} {l' : List β}
    (h : l.mapM f = .ok l') :
  l.map f = l'.map Except.ok
  := by
  induction l generalizing l' with
  | nil =>
      cases h
      rfl
  | cons a l ih =>
      rw [List.mapM_cons] at h
      obtain ⟨b, hb, h⟩ := bind_eq_ok.mp h
      obtain ⟨bs, hbs, h⟩ := bind_eq_ok.mp h
      cases h
      rw [List.map_cons, List.map_cons, hb, ih hbs]
