/-!
# Steps

One step after another. A chain of steps that may fail succeeds if each does, with what the steps before it gave; a step
on a state goes on from where the one before it ended.
-/

namespace WikiPress

/-! ## Steps that may fail -/

section
variable {ε α β : Type}

theorem bind_eq_ok {x : Except ε α} {f : α → Except ε β} {b : β} :
    x >>= f = .ok b ↔ ∃ a, x = .ok a ∧ f a = .ok b := by
  cases x with
  | error e => simp [bind, Except.bind]
  | ok a => simp [bind, Except.bind]

theorem map_eq_ok {x : Except ε α} {f : α → β} {b : β} : x.map f = .ok b ↔ ∃ a, x = .ok a ∧ f a = b := by
  cases x with
  | error e => simp [Except.map]
  | ok a => simp [Except.map]

/-- A guard that is passed changes nothing. -/
theorem guard_eq_ok {p : Prop} [Decidable p] {e : ε} {f : α → Except ε β} {x : Except ε β} {b : β} :
    (if p then .error e >>= f else x) = .ok b ↔ ¬p ∧ x = .ok b := by
  by_cases h : p
  · simp [h, bind, Except.bind]
  · simp [h]

/-- What fails with one property, or gives a value with another. -/
def Answers (p : ε → Prop) (q : α → Prop) : Except ε α → Prop
  | .error e => p e
  | .ok a => q a

section
variable {p : ε → Prop} {q : α → Prop} {r : β → Prop} {x : Except ε α}

theorem Answers.of_error {e : ε} (h : Answers p q x) (he : x = .error e) : p e := by
  subst he
  exact h

theorem Answers.of_ok {a : α} (h : Answers p q x) (ha : x = .ok a) : q a := by
  subst ha
  exact h

theorem Answers.bind {f : α → Except ε β} (h : Answers p q x) (hf : ∀ a, q a → Answers p r (f a)) :
    Answers p r (x >>= f) := by
  cases x with
  | error e => exact h
  | ok a => exact hf a h

theorem Answers.map {f : α → β} (h : Answers p q x) (hf : ∀ a, q a → r (f a)) : Answers p r (x.map f) := by
  cases x with
  | error e => exact h
  | ok a => exact hf a h

end

end

/-! ## Steps on a state -/

section
variable {σ α β : Type}

theorem run_bind {step : StateM σ α} {next : α → StateM σ β} {state : σ} {result : α × σ}
    (h : step.run state = result) : (step >>= next).run state = (next result.1).run result.2 := by
  subst h
  rfl

end

end WikiPress
