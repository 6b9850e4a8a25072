import DenseSystem.Step

/-! # Derivations

A computation that records its steps: a result or an error, with all steps taken up to then. What
follows an error neither runs nor records.
-/
namespace DenseSystem

structure Derivation (α β : Type) where
  steps : List (Step α)
  outcome : Except Error β

namespace Derivation

variable {α β γ : Type}

protected def pure (b : β) : Derivation α β := ⟨[], .ok b⟩

protected def bind (d : Derivation α β) (f : β → Derivation α γ) : Derivation α γ :=
  match d.outcome with
  | .ok b => ⟨d.steps ++ (f b).steps, (f b).outcome⟩
  | .error e => ⟨d.steps, .error e⟩

instance : Monad (Derivation α) where
  pure := Derivation.pure
  bind := Derivation.bind

def record (step : Step α) : Derivation α Unit := ⟨[step], .ok ()⟩

def recordAll (steps : List (Step α)) : Derivation α Unit := ⟨steps, .ok ()⟩

def fail (e : Error) : Derivation α β := ⟨[], .error e⟩

def ofExcept (outcome : Except Error β) : Derivation α β := ⟨[], outcome⟩

@[simp] theorem steps_pure (b : β) : (pure b : Derivation α β).steps = [] := rfl

@[simp] theorem outcome_pure (b : β) : (pure b : Derivation α β).outcome = .ok b := rfl

theorem bind_of_ok {d : Derivation α β} {b : β} (h : d.outcome = .ok b)
    (f : β → Derivation α γ) : d >>= f = ⟨d.steps ++ (f b).steps, (f b).outcome⟩ := by
  simp only [bind, Derivation.bind, h]

theorem bind_of_error {d : Derivation α β} {e : Error} (h : d.outcome = .error e)
    (f : β → Derivation α γ) : d >>= f = ⟨d.steps, .error e⟩ := by
  simp only [bind, Derivation.bind, h]

theorem outcome_bind_eq_ok_iff {d : Derivation α β} {f : β → Derivation α γ} {c : γ} :
    (d >>= f).outcome = .ok c ↔ ∃ b, d.outcome = .ok b ∧ (f b).outcome = .ok c := by
  cases h : d.outcome with
  | ok b => simp [bind_of_ok h]
  | error e => simp [bind_of_error h]

@[simp] theorem recordAll_bind (steps : List (Step α)) (f : Unit → Derivation α γ) :
    recordAll steps >>= f = ⟨steps ++ (f ()).steps, (f ()).outcome⟩ := rfl

@[simp] theorem record_bind (step : Step α) (f : Unit → Derivation α γ) :
    record step >>= f = ⟨step :: (f ()).steps, (f ()).outcome⟩ := rfl

end Derivation

end DenseSystem
