/-!
# Computations that can fail

How the result of a chain of computations depends on the results of its links.
-/

namespace TapeLang

/-- In a chain of operations, the next one is made on what the first one gives. -/
theorem ok_bind {ε α β : Type} (a : α) (f : α → Except ε β) : (Except.ok a >>= f) = f a := by
  simp only [bind, Except.bind]

theorem map_eq_ok {ε α β : Type} {f : α → β} {e : Except ε α} {b : β} (h : e.map f = .ok b) :
    ∃ a, e = .ok a ∧ f a = b := by
  cases e with
  | error _ => cases h
  | ok a =>
    cases h
    exact ⟨a, rfl, rfl⟩

theorem bind_eq_ok {ε α β : Type} {f : α → Except ε β} {e : Except ε α} {b : β} (h : e.bind f = .ok b) :
    ∃ a, e = .ok a ∧ f a = .ok b := by
  cases e with
  | error _ => cases h
  | ok a => exact ⟨a, rfl, h⟩

theorem map_eq_error_iff {ε α β : Type} {f : α → β} {r : Except ε α} {e : ε} :
    r.map f = .error e ↔ r = .error e := by
  cases r <;> simp [Except.map]

theorem eq_or_of_map_eq {ε α β : Type} {f : α → β} {e e' : Except ε α} (h : e.map f = e'.map f) :
    e = e' ∨ ∃ a b, e = .ok a ∧ e' = .ok b ∧ f a = f b := by
  cases e with
  | error _ =>
    cases e' with
    | error _ =>
      cases h
      exact .inl rfl
    | ok _ => cases h
  | ok a =>
    cases e' with
    | error _ => cases h
    | ok b => exact .inr ⟨a, b, rfl, rfl, Except.ok.inj h⟩

theorem mapError_map {ε ε' α β : Type} (h : ε → ε') (g : α → β) (e : Except ε α) :
    (e.map g).mapError h = (e.mapError h).map g := by
  cases e <;> rfl

theorem mapError_bind {ε ε' α β : Type} (h : ε → ε') (g : α → Except ε β) (e : Except ε α) :
    (e.bind g).mapError h = (e.mapError h).bind fun a => (g a).mapError h := by
  cases e <;> rfl

end TapeLang
