import Mathlib.Tactic
import DenseSystem.Solver.Log

/-! # Threaded runs

A run that is observed passes its observer from one operation to the next, and each of them may read
and change it. A run follows a derivation if it ends as the derivation does, and leaves any observer
as if the recorded steps had been shown to it in their order. An observer whose trace is not enabled
is such an observer too.
-/
namespace DenseSystem

/-- What is carried along: the trace, the log, and what became known of the system. -/
@[ext]
structure Observer (α : Type) where
  trace : Trace α
  log : List (Event α) := []
  classification : Option Classification := none
  determinant : Option α := none

namespace Observer

variable {α : Type} [Scalar α]

/-- A step is recorded, the log is told what it has to be told of it, and a classification or a
determinant is kept in the place of an earlier one. -/
def see (o : Observer α) (step : Step α) : Observer α where
  trace := o.trace.record step
  log := o.log ++ (Event.ofStep? step).toList
  classification := step.classification?.or o.classification
  determinant := step.determinant?.or o.determinant

def after (o : Observer α) (steps : List (Step α)) : Observer α := steps.foldl see o

@[simp] theorem after_nil (o : Observer α) : o.after [] = o := rfl

@[simp] theorem after_cons (o : Observer α) (step : Step α) (steps : List (Step α)) :
    o.after (step :: steps) = (o.see step).after steps := rfl

theorem after_append (o : Observer α) (first second : List (Step α)) :
    o.after (first ++ second) = (o.after first).after second := List.foldl_append

theorem log_after (o : Observer α) (steps : List (Step α)) :
    (o.after steps).log = o.log ++ steps.filterMap Event.ofStep? := by
  induction steps generalizing o with
  | nil => simp
  | cons step steps ih =>
    rw [after_cons, ih, see, List.append_assoc]
    cases h : Event.ofStep? step <;> simp [h]

/-- An enabled trace holds all steps, and any other is left as it was. -/
theorem trace_after (o : Observer α) (steps : List (Step α)) :
    (o.after steps).trace =
      if o.trace.enabled then ⟨true, o.trace.steps ++ steps⟩ else o.trace := by
  induction steps generalizing o with
  | nil =>
    obtain ⟨⟨enabled, recorded⟩, log, c, d⟩ := o
    cases enabled <;> simp
  | cons step steps ih =>
    rw [after_cons, ih]
    cases h : o.trace.enabled <;> simp [see, Trace.record, h]

/-- Of several determinants the last one is kept. -/
theorem determinant_after (o : Observer α) (steps : List (Step α)) :
    (o.after steps).determinant =
      (steps.filterMap Step.determinant?).getLast?.or o.determinant := by
  induction steps generalizing o with
  | nil => rfl
  | cons step steps ih =>
    rw [after_cons, ih, see]
    cases h : step.determinant? <;> simp [h, List.getLast?_cons]

theorem classification_after (o : Observer α) (steps : List (Step α)) :
    (o.after steps).classification =
      (steps.filterMap Step.classification?).getLast?.or o.classification := by
  induction steps generalizing o with
  | nil => rfl
  | cons step steps ih =>
    rw [after_cons, ih, see]
    cases h : step.classification? <;> simp [h, List.getLast?_cons]

end Observer

/-- A run that may fail, and changes its observer in any case. -/
abbrev Threaded (α β : Type) : Type := ExceptT Error (StateM (Observer α)) β

namespace Threaded

variable {α β γ σ : Type}

def run (x : Threaded α β) (o : Observer α) : Except Error β × Observer α := StateT.run (ExceptT.run x) o

def record (step : Step α) : Threaded α Unit :=
  modify fun o => { o with trace := o.trace.record step }

def tell (event : Event α) : Threaded α Unit := modify fun o => { o with log := o.log ++ [event] }

def setDeterminant (value : α) : Threaded α Unit := do
  modify fun o => { o with determinant := some value }
  record (.determinant value)

def ofExcept (outcome : Except Error β) : Threaded α β := ExceptT.mk (pure outcome)

/-- The ranks of a system are told before they are kept and recorded. -/
def classified [Scalar α] (system : DenseMatrix α) : Threaded α Classification := do
  let c ← ofExcept (classify system)
  tell (.classified c)
  modify fun o => { o with classification := some c }
  record (.classified c)
  return c

/-- A failure keeps what was observed until then, and nothing runs after it. -/
theorem run_bind (x : Threaded α β) (f : β → Threaded α γ) (o : Observer α) :
    run (x >>= f) o =
      match run x o with
      | (.ok b, o) => run (f b) o
      | (.error e, o) => (.error e, o) := by
  cases hx : run x o with
  | mk outcome o' =>
    rw [run] at hx ⊢
    rw [ExceptT.run_bind, StateT.run_bind, hx]
    cases outcome <;> rfl

theorem run_record_bind (step : Step α) (f : Unit → Threaded α γ) (o : Observer α) :
    run (record step >>= f) o = run (f ()) { o with trace := o.trace.record step } := rfl

theorem run_tell_bind (event : Event α) (f : Unit → Threaded α γ) (o : Observer α) :
    run (tell event >>= f) o = run (f ()) { o with log := o.log ++ [event] } := rfl

/-! ## Following a derivation -/

def Follows (x : Threaded α β) (d : Derivation α β) [Scalar α] : Prop :=
  ∀ o, x.run o = (d.outcome, o.after d.steps)

variable [Scalar α] {x : Threaded α β} {d : Derivation α β}

theorem Follows.pure (b : β) : Follows (Pure.pure b : Threaded α β) (Pure.pure b) := fun _ => rfl

theorem Follows.ofExcept (outcome : Except Error β) :
    Follows (Threaded.ofExcept outcome : Threaded α β) (.ofExcept outcome) := fun _ => rfl

theorem Follows.throw (e : Error) : Follows (MonadExcept.throw e : Threaded α β) (.fail e) :=
  fun _ => rfl

/-- A sequence of runs follows the sequence of their derivations. The second run has to be known only
for results that the first one can have. -/
theorem Follows.bind {f : β → Threaded α γ} {g : β → Derivation α γ} (hx : Follows x d)
    (hf : ∀ b, d.outcome = .ok b → Follows (f b) (g b)) : Follows (x >>= f) (d >>= g) := by
  intro o
  rw [run_bind, hx o]
  cases h : d.outcome with
  | ok b =>
    rw [Derivation.bind_of_ok h, Observer.after_append]
    exact hf b h _
  | error e => rw [Derivation.bind_of_error h]

/-- A run with a known result and known steps may take the place of their record. -/
theorem Follows.bind_recordAll {b : β} {steps : List (Step α)} {f : β → Threaded α γ}
    {g : Unit → Derivation α γ} (hx : Follows x ⟨steps, .ok b⟩) (hf : Follows (f b) (g ())) :
    Follows (x >>= f) (.recordAll steps >>= g) :=
  Follows.bind hx (g := fun _ => g ()) fun b' hb => by
    cases hb
    exact hf

/-- A step of which the log is told nothing, and which is not kept either. -/
def Quiet (step : Step α) : Prop :=
  Event.ofStep? step = none ∧ step.classification? = none ∧ step.determinant? = none

theorem Follows.record {step : Step α} (h : Quiet step) :
    Follows (Threaded.record step) (.record step) := by
  obtain ⟨hlog, hclassification, hdeterminant⟩ := h
  intro o
  have hsee : o.see step = { o with trace := o.trace.record step } := by
    simp [Observer.see, hlog, hclassification, hdeterminant]
  exact congrArg (Prod.mk _) hsee.symm

theorem Follows.record_pure {step : Step α} (h : Quiet step) (b : β) :
    Follows (do Threaded.record step; Pure.pure b) ⟨[step], .ok b⟩ :=
  Follows.bind (Follows.record h) (g := fun _ => Pure.pure b) fun _ _ => Follows.pure b

theorem Follows.setDeterminant (value : α) :
    Follows (Threaded.setDeterminant value) (.record (.determinant value)) := by
  intro o
  have hsee : o.see (.determinant value) =
      { o with trace := o.trace.record (.determinant value), determinant := some value } := by
    simp [Observer.see, Event.ofStep?, Step.classification?, Step.determinant?]
  exact congrArg (Prod.mk _) hsee.symm

theorem Follows.classified (system : DenseMatrix α) :
    Follows (Threaded.classified system) system.classified := by
  refine Follows.bind (Follows.ofExcept _) fun c _ o => ?_
  have hsee : o.see (.classified c) =
      { trace := o.trace.record (.classified c), log := o.log ++ [.classified c],
        classification := some c, determinant := o.determinant } := by
    simp [Observer.see, Event.ofStep?, Step.classification?, Step.determinant?]
  exact congrArg (Prod.mk _) hsee.symm

/-- A search for a pivot is recorded before the log is told how it ended. -/
theorem Follows.search {column row : ℕ} {value : α} (e : Error) (h : Follows x d) :
    Follows (do
      Threaded.record (.pivotSelected column row value)
      if isNearZero value then
        tell (.pivotRefused column value)
        MonadExcept.throw e
      else
        tell (.pivotTaken column row value)
        x)
      (do
        .record (.pivotSelected column row value)
        if isNearZero value then .fail e else d) := by
  intro o
  rw [run_record_bind, Derivation.record_bind]
  cases hzero : isNearZero value with
  | true =>
    have hsee : o.see (.pivotSelected column row value) =
        { o with
          trace := o.trace.record (.pivotSelected column row value)
          log := o.log ++ [.pivotRefused column value] } := by
      simp [Observer.see, Event.ofStep?, hzero, Step.classification?, Step.determinant?]
    exact congrArg (Prod.mk _) hsee.symm
  | false =>
    have hsee : o.see (.pivotSelected column row value) =
        { o with
          trace := o.trace.record (.pivotSelected column row value)
          log := o.log ++ [.pivotTaken column row value] } := by
      simp [Observer.see, Event.ofStep?, hzero, Step.classification?, Step.determinant?]
    rw [if_neg Bool.false_ne_true, if_neg Bool.false_ne_true, run_tell_bind, h, ← hsee]
    rfl

/-- A loop each pass of which goes from one state to the next one, and shows the observer the steps by
which the record grows meanwhile. -/
theorem Follows.passes {body : σ → ℕ → Threaded α σ} {progress : ℕ → σ × List (Step α)}
    {start count : ℕ}
    (h : ∀ i, start ≤ i → i < start + count → ∃ steps,
      (progress (i + 1)).2 = (progress i).2 ++ steps ∧
        Follows (body (progress i).1 i) ⟨steps, .ok (progress (i + 1)).1⟩) :
    ∃ steps, (progress (start + count)).2 = (progress start).2 ++ steps ∧
      Follows ((List.range' start count).foldlM body (progress start).1)
        ⟨steps, .ok (progress (start + count)).1⟩ := by
  induction count generalizing start with
  | zero => exact ⟨[], (List.append_nil _).symm, Follows.pure _⟩
  | succ count ih =>
    obtain ⟨head, hhead, hbody⟩ := h start le_rfl (by omega)
    obtain ⟨rest, hrest, hloop⟩ := @ih (start + 1) fun i hi hlt => h i (by omega) (by omega)
    rw [Nat.add_right_comm] at hrest hloop
    refine ⟨head ++ rest, ?_, ?_⟩
    · rw [← Nat.add_assoc, hrest, hhead, List.append_assoc]
    · rw [List.range'_succ, List.foldlM_cons]
      refine Follows.bind hbody (g := fun _ => ⟨rest, .ok _⟩) fun next hnext => ?_
      cases hnext
      exact hloop

theorem Follows.loop {body : σ → ℕ → Threaded α σ} (progress : ℕ → σ × List (Step α))
    {first last : σ} {steps : List (Step α)} {start count : ℕ}
    (hfirst : progress start = (first, [])) (hlast : progress (start + count) = (last, steps))
    (h : ∀ i, start ≤ i → i < start + count → ∃ steps,
      (progress (i + 1)).2 = (progress i).2 ++ steps ∧
        Follows (body (progress i).1 i) ⟨steps, .ok (progress (i + 1)).1⟩) :
    Follows ((List.range' start count).foldlM body first) ⟨steps, .ok last⟩ := by
  obtain ⟨told, htold, hloop⟩ := Follows.passes h
  rw [hfirst, hlast] at htold hloop
  rw [show steps = told from htold]
  exact hloop

end Threaded

end DenseSystem
