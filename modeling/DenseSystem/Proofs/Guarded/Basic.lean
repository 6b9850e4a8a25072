import Mathlib.Tactic
import DenseSystem.Solver.Attempt

/-! # Guarded computations

An access outside of a matrix or a list aborts a program, and so does a sum that does not fit into a
machine word, or a request for more memory than a signed word counts. Guarded computations carry
these checks with them. They are aborted, or they give the result of a computation without checks.
The positions of entries fit into a word, as the entries are stored; only a width that is asked of a
shape may not.
-/
namespace DenseSystem

inductive Breach where
  | outOfRange (e : OutOfRange)
  | cell (row col rows cols : ℕ)
  | item (index length : ℕ)
  | slice (first last length : ℕ)
  /-- A slice is copied onto one of another length. -/
  | lengths (target source : ℕ)
  | overflow (value : ℕ)
  /-- More entries are asked for than an allocation can hold. -/
  | capacity (entries : ℕ)

abbrev Guarded (β : Type) : Type := Except Breach β

namespace Guarded

variable {α β σ : Type}

def wordCount : ℕ := 2 ^ 64

def require (p : Prop) [Decidable p] (b : Breach) : Guarded Unit := if p then .ok () else .error b

def word (value : ℕ) : Guarded ℕ := do
  require (value < wordCount) (.overflow value)
  return value

def item (xs : List α) (i : ℕ) : Guarded α :=
  match xs[i]? with
  | some v => .ok v
  | none => .error (.item i xs.length)

def slice (xs : List α) (first last : ℕ) : Guarded (List α) := do
  require (first ≤ last ∧ last ≤ xs.length) (.slice first last xs.length)
  return (xs.drop first).take (last - first)

def outOfRange (x : Except OutOfRange β) : Guarded β := x.mapError .outOfRange

theorem ok_bind {ε : Type} (b : β) (f : β → Except ε σ) : (Except.ok b : Except ε β) >>= f = f b :=
  rfl

theorem require_of {p : Prop} [Decidable p] (h : p) (b : Breach) : require p b = .ok () := if_pos h

theorem word_eq {value : ℕ} (h : value < wordCount) : word value = .ok value := by
  rw [word, require_of h]
  rfl

theorem item_eq [Zero α] {xs : List α} {i : ℕ} (h : i < xs.length) :
    item xs i = .ok (xs.getD i 0) := by
  simp [item, List.getElem?_eq_getElem h, List.getD_eq_getElem?_getD]

theorem slice_eq {xs : List α} {first last : ℕ} (h : first ≤ last) (hlast : last ≤ xs.length) :
    slice xs first last = .ok ((xs.drop first).take (last - first)) := by
  rw [slice, require_of ⟨h, hlast⟩]
  rfl

theorem slice_zero {xs : List α} {last : ℕ} (h : last ≤ xs.length) :
    slice xs 0 last = .ok (xs.take last) :=
  slice_eq (Nat.zero_le _) h

theorem loop_eq {ε : Type} {body : σ → ℕ → Except ε σ} (state : ℕ → σ) {first last : σ}
    {start count : ℕ}
    (hfirst : state start = first) (hlast : state (start + count) = last)
    (h : ∀ i, start ≤ i → i < start + count → body (state i) i = .ok (state (i + 1))) :
    (List.range' start count).foldlM body first = .ok last := by
  induction count generalizing start first with
  | zero =>
    rw [← hfirst, ← hlast]
    rfl
  | succ count ih =>
    rw [List.range'_succ, List.foldlM_cons, ← hfirst, h start le_rfl (by omega)]
    apply ih rfl
    · rw [Nat.add_right_comm]
      exact hlast
    · exact fun i hi hlt => h i (by omega) (by omega)

end Guarded

/-- A derivation that may be aborted, and then has no record either. -/
def Run (α β : Type) : Type := Guarded (Derivation α β)

namespace Run

variable {α β γ : Type}

def of (d : Derivation α β) : Run α β := Except.ok d

protected def bind (x : Run α β) (f : β → Run α γ) : Run α γ :=
  match x with
  | .error b => .error b
  | .ok d =>
    match d.outcome with
    | .error e => of ⟨d.steps, .error e⟩
    | .ok b =>
      match f b with
      | .error b => .error b
      | .ok rest => of ⟨d.steps ++ rest.steps, rest.outcome⟩

instance : Monad (Run α) where
  pure b := of (pure b)
  bind := Run.bind

def guarded (x : Guarded β) : Run α β :=
  match x with
  | .error b => .error b
  | .ok b => of (pure b)

def fallible (x : Guarded (Except Error β)) : Run α β := guarded x >>= fun y => of (.ofExcept y)

theorem bind_eq {x : Run α β} {d : Derivation α β} {f : β → Run α γ} {g : β → Derivation α γ}
    (hx : x = of d) (hf : ∀ b, d.outcome = .ok b → f b = of (g b)) : x >>= f = of (d >>= g) := by
  subst hx
  cases h : d.outcome with
  | ok b =>
    rw [Derivation.bind_of_ok h]
    change Run.bind (of d) f = _
    simp only [Run.bind, of, h, hf b h]
    rfl
  | error e =>
    rw [Derivation.bind_of_error h]
    change Run.bind (of d) f = _
    simp only [Run.bind, of, h]
    rfl

theorem guarded_bind {x : Guarded β} {b : β} (h : x = .ok b) (f : β → Run α γ) :
    guarded x >>= f = f b := by
  subst h
  change Run.bind (of (pure b)) f = _
  simp only [Run.bind, of, Derivation.outcome_pure]
  cases f b <;> rfl

theorem fallible_eq {x : Guarded (Except Error β)} {y : Except Error β} (h : x = .ok y) :
    (fallible x : Run α β) = of (.ofExcept y) :=
  guarded_bind h _

theorem mapM'_eq {f : β → Run α γ} {g : β → γ} {xs : List β}
    (h : ∀ x ∈ xs, f x = of (pure (g x))) : xs.mapM' f = of (pure (xs.map g)) := by
  induction xs with
  | nil => rfl
  | cons x xs ih =>
    rw [List.mapM', h x List.mem_cons_self, ih fun y hy => h y (List.mem_cons_of_mem _ hy)]
    rfl

end Run

end DenseSystem
