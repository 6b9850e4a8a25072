import Mathlib.Tactic
import DenseSystem.Proofs.Elimination.Reached
import DenseSystem.Proofs.Threaded.Solver

/-! # What the log is told

The log of a run opens with the system and closes with the end of the run. In between are the ranks,
once the system is accepted, and one record for each column that the elimination reaches. A closing
record is a warning in one case only: no pivot was found where the ranks had promised a solution.
-/
namespace DenseSystem

variable {α : Type} [Scalar α]

def Event.ofSearch (work : DenseMatrix α) (k : ℕ) : Event α :=
  if isNearZero (work.pivot k) then .pivotRefused k (work.pivot k)
  else .pivotTaken k (work.pivotRow k k) (work.pivot k)

@[simp] theorem Event.level_ofSearch (work : DenseMatrix α) (k : ℕ) :
    (Event.ofSearch work k).level = .trace := by
  unfold ofSearch
  split_ifs <;> rfl

namespace DenseMatrix

variable {m work system : DenseMatrix α} {method : Method} {sweep : Sweep} {k left : ℕ}

/-! ## The elimination -/

theorem ofStep?_pivotSelected (work : DenseMatrix α) (k : ℕ) :
    Event.ofStep? (.pivotSelected k (work.pivotRow k k) (work.pivot k)) =
      some (Event.ofSearch work k) := rfl

/-- Of all that is recorded of a column only the search for its pivot is told. -/
theorem told_columnSteps (work : DenseMatrix α) (k : ℕ) (sweep : Sweep) :
    (work.columnSteps k sweep).filterMap Event.ofStep? = [Event.ofSearch work k] := by
  have hswap : (if work.pivotRow k k = k then [] else
      [(.rowsSwapped k (work.pivotRow k k) : Step α)]).filterMap Event.ofStep? = [] := by
    split_ifs <;> rfl
  have heliminations : ((work.normalized k).eliminations k sweep).filterMap Event.ofStep? = [] := by
    rw [eliminations, List.filterMap_map]
    exact List.filterMap_eq_nil_iff.mpr fun _ _ => rfl
  rw [columnSteps, List.filterMap_cons_some (ofStep?_pivotSelected work k), List.filterMap_append,
    hswap, List.nil_append, List.filterMap_cons_none rfl, List.filterMap_append, heliminations]
  rfl

/-- From a column that is reached the searches go on up to the last column that is reached. -/
theorem told_reduceFrom (hreach : m.Reaches sweep k work) (hrows : k + left ≤ m.rows) :
    ∃ count ≤ left, (work.reduceFrom sweep k left).steps.filterMap Event.ofStep? =
        (List.range' k count).map (fun j => Event.ofSearch (m.reducedTo sweep j) j) ∧
      ∀ j, k ≤ j → j < k + left → (j < k + count ↔ ∃ w, m.Reaches sweep j w) := by
  induction left generalizing k work with
  | zero => exact ⟨0, le_rfl, rfl, fun j hj hlt => by omega⟩
  | succ left ih =>
    have hwork := hreach.eq_reducedTo (by omega)
    rw [reduceFrom_succ]
    split_ifs with hp
    · refine ⟨1, by omega, ?_, fun j hj hlt => ⟨fun hjk => ?_, fun ⟨w, hw⟩ => ?_⟩⟩
      · rw [List.filterMap_cons_some (ofStep?_pivotSelected work k), hwork]
        rfl
      · obtain rfl : j = k := by omega
        exact ⟨work, hreach⟩
      · by_contra hjk
        obtain ⟨d, rfl⟩ := Nat.exists_eq_add_of_lt (by omega : k < j)
        rw [Reaches, Nat.add_assoc, hreach.outcome_reduceFrom, reduceFrom_succ, if_pos hp] at hw
        cases hw
    · obtain ⟨count, hcount, htold, hiff⟩ :=
        ih (hreach.next (by simpa using hp)) (by omega)
      refine ⟨count + 1, by omega, ?_, fun j hj hlt => ?_⟩
      · rw [List.filterMap_append, told_columnSteps, htold, hwork]
        rfl
      · rcases hj.eq_or_lt with rfl | hkj
        · exact ⟨fun _ => ⟨work, hreach⟩, fun _ => by omega⟩
        · rw [← hiff j hkj (by omega)]
          omega

theorem told_reduce (m : DenseMatrix α) (sweep : Sweep) :
    ∃ count ≤ m.rows, (m.reduce sweep).steps.filterMap Event.ofStep? =
        (List.range count).map (fun j => Event.ofSearch (m.reducedTo sweep j) j) ∧
      ∀ j < m.rows, (j < count ↔ ∃ w, m.Reaches sweep j w) := by
  obtain ⟨count, hcount, htold, hiff⟩ :=
    told_reduceFrom (m.reaches_zero sweep) (Nat.zero_add m.rows).le
  refine ⟨count, hcount, ?_, fun j hj => ?_⟩
  · rw [List.range_eq_range']
    exact htold
  · rw [← hiff j (Nat.zero_le j) (by omega), Nat.zero_add]

/-! ## The attempt -/

theorem told_eq_nil {phase : Phase} {steps : List (Step α)} (h : InPhase phase steps)
    (hphase : phase = .reading ∨ phase = .closing) : steps.filterMap Event.ofStep? = [] := by
  refine List.filterMap_eq_nil_iff.mpr fun step hstep => ?_
  have hstep := h step hstep
  rcases hphase with rfl | rfl <;> cases step <;> first | rfl | cases hstep

theorem told_openingSteps (system : DenseMatrix α) (method : Method) :
    (system.openingSteps method).filterMap Event.ofStep? =
      [.classified system.classification] := by
  cases method <;> rfl

theorem accepted_iff : (system.isAugmented && system.isFinite) = true ↔ system.validate = .ok () := by
  rw [Bool.and_eq_true, validate_eq_ok_iff]

def ranksTold (system : DenseMatrix α) : List (Event α) :=
  if system.isAugmented && system.isFinite then [.classified system.classification] else []

theorem ranksTold_of_valid (h : system.validate = .ok ()) :
    system.ranksTold = [.classified system.classification] := if_pos (accepted_iff.mpr h)

theorem ranksTold_of_invalid {e : Error} (h : system.validate = .error e) :
    system.ranksTold = [] := by
  refine if_neg fun haccepted => ?_
  rw [accepted_iff.mp haccepted] at h
  cases h

/-- Ranks are told of a system that is accepted, and searches by a method that starts. -/
theorem told_attempt (system : DenseMatrix α) (method : Method) :
    ∃ count ≤ system.rows,
      (system.attempt method).steps.filterMap Event.ofStep? = system.ranksTold ++
        (List.range count).map (fun k =>
          Event.ofSearch ((system.startMatrix method).reducedTo method.sweep k) k) ∧
      ∀ k < system.rows, (k < count ↔
        Starts system method ∧ ∃ work, (system.startMatrix method).Reaches method.sweep k work) := by
  by_cases hstarts : Starts system method
  · obtain ⟨reading, closing, hsteps, hreading, hclosing⟩ := steps_attempt_of_starts hstarts
    obtain ⟨count, hcount, htold, hiff⟩ := (system.startMatrix method).told_reduce method.sweep
    rw [rows_startMatrix] at hcount hiff
    refine ⟨count, hcount, ?_, fun k hk => by rw [hiff k hk, and_iff_right hstarts]⟩
    rw [hsteps, List.filterMap_append, told_openingSteps, ranksTold_of_valid hstarts.valid,
      List.filterMap_cons_none rfl, List.filterMap_append, List.filterMap_append,
      told_eq_nil hreading (.inl rfl), told_eq_nil hclosing (.inr rfl), reduction, htold]
    simp
  · obtain ⟨closing, hsteps, hclosing⟩ := system.steps_attempt method
    refine ⟨0, Nat.zero_le _, ?_, fun k _ => by simp [hstarts]⟩
    rw [hsteps, List.filterMap_append, told_eq_nil hclosing (.inr rfl)]
    rcases strategy_of_not_starts hstarts with
      ⟨e, hinvalid, hs⟩ | ⟨hvalid, -, -, hs⟩ | ⟨hvalid, -, -, hs⟩
    · rw [hs, ranksTold_of_invalid hinvalid]
      rfl
    · rw [hs, told_openingSteps, ranksTold_of_valid hvalid]
      rfl
    · rw [hs, told_openingSteps, ranksTold_of_valid hvalid]
      rfl

/-- The ranks that an attempt keeps in mind are those that it told. -/
theorem findSome?_classification_eq_some_iff {c : Classification} :
    (system.attempt method).steps.findSome? Step.classification? = some c ↔
      system.validate = .ok () ∧ classify system = .ok c := by
  obtain ⟨closing, hsteps, hclosing⟩ := system.steps_attempt method
  cases hvalid : system.validate with
  | error e =>
    have hnone : closing.findSome? Step.classification? = none := by
      refine List.findSome?_eq_none_iff.mpr fun step hstep => ?_
      have hstep := hclosing step hstep
      cases step <;> first | rfl | cases hstep
    rw [hsteps, strategy_of_invalid hvalid, List.nil_append, hnone]
    simp
  | ok u =>
    obtain ⟨rest, hrest, -⟩ := steps_strategy_of_valid hvalid method
    have hfirst : (system.openingSteps method).findSome? Step.classification? =
        some system.classification := by
      cases method <;> rfl
    rw [hsteps, hrest, List.findSome?_append, List.findSome?_append, hfirst,
      classify_of_isAugmented (validate_eq_ok_iff.mp hvalid).1]
    simp

/-! ## The end of an attempt -/

theorem isDegenerate_iff {e : Error} :
    e.isDegenerate = true ↔ e = .singularMatrix ∨ ∃ k, e = .zeroPivot k := by
  cases e <;> simp [Error.isDegenerate]

theorem isDegenerate_of_invalid {e : Error} (h : system.validate = .error e) :
    e.isDegenerate = false := by
  unfold validate checkAugmented checkFinite at h
  cases haug : system.isAugmented <;> cases hfinite : system.isFinite <;>
    simp [haug, hfinite, bind, Except.bind] at h <;> rw [← h] <;> rfl

theorem valid_of_isDegenerate {e : Error} (h : (system.attempt method).outcome = .error e)
    (hdegenerate : e.isDegenerate = true) : system.validate = .ok () := by
  cases hvalid : system.validate with
  | ok u => rfl
  | error e' =>
    rw [attempt_of_failed (by rw [strategy_of_invalid hvalid])] at h
    cases h
    rw [isDegenerate_of_invalid hvalid] at hdegenerate
    cases hdegenerate

/-- The run fails for lack of a pivot or with a determinant near zero, and the ranks of the system had
promised a unique solution. -/
def Contradicted (system : DenseMatrix α) (method : Method) : Prop :=
  ∃ e c, (system.attempt method).outcome = .error e ∧
    (e = .singularMatrix ∨ ∃ k, e = .zeroPivot k) ∧ classify system = .ok c ∧ c.status = .unique

theorem not_contradicted_of_ok {verdict : Verdict α}
    (h : (system.attempt method).outcome = .ok verdict) : ¬ system.Contradicted method := by
  rintro ⟨e, c, he, -⟩
  rw [h] at he
  cases he

/-- The end of a run that fails is a warning or an ordinary failure. -/
theorem ending_of_failed {e : Error} (h : (system.attempt method).outcome = .error e) :
    (system.Contradicted method ∧
        Event.ending method (system.attempt method) = .contradicted method e) ∨
      (¬ system.Contradicted method ∧
        Event.ending method (system.attempt method) = .failed method e) := by
  have hiff : (e.isDegenerate && ((system.attempt method).steps.findSome?
      Step.classification?).any (·.status = .unique)) = true ↔ system.Contradicted method := by
    rw [Bool.and_eq_true, isDegenerate_iff]
    constructor
    · rintro ⟨hdegenerate, hany⟩
      obtain ⟨c, hc, hunique⟩ := (Option.any_eq_true _ _).mp hany
      rw [findSome?_classification_eq_some_iff] at hc
      exact ⟨e, c, h, hdegenerate, hc.2, of_decide_eq_true hunique⟩
    · rintro ⟨e', c, he, hdegenerate, hc, hunique⟩
      rw [h] at he
      cases he
      have hvalid := valid_of_isDegenerate h (isDegenerate_iff.mpr hdegenerate)
      refine ⟨hdegenerate, (Option.any_eq_true _ _).mpr ⟨c, ?_, decide_eq_true hunique⟩⟩
      exact findSome?_classification_eq_some_iff.mpr ⟨hvalid, hc⟩
  rw [Event.ending, h]
  by_cases hc : system.Contradicted method
  · exact .inl ⟨hc, if_pos (hiff.mpr hc)⟩
  · exact .inr ⟨hc, if_neg (mt hiff.mp hc)⟩

/-- What the end of a run tells, in agreement with the report on the run. -/
inductive EndsWith (method : Method) (report : Report α) : Event α → Prop where
  | solved (r : α) (h : report.status = .unique) (hr : report.maxResidual = some r) :
    EndsWith method report (.solved method r)
  | stopped (h : report.status = .infinite ∨ report.status = .none) :
    EndsWith method report (.stopped method report.status)
  | failed (e : Error) (h : report.status = .error) (he : report.error = some e.message) :
    EndsWith method report (.failed method e)
  | contradicted (e : Error) (h : report.status = .error) (he : report.error = some e.message) :
    EndsWith method report (.contradicted method e)

omit [Scalar α] in
theorem EndsWith.level_cases {report : Report α} {event : Event α}
    (h : EndsWith method report event) : event.level = .warn ∨ event.level = .debug := by
  cases h with
  | contradicted e h he => exact .inl rfl
  | _ => exact .inr rfl

theorem endsWith_ending (system : DenseMatrix α) (method : Method) (traced : Bool) :
    EndsWith method (DenseSystem.solve system method traced)
      (Event.ending method (system.attempt method)) := by
  cases hrun : (system.attempt method).outcome with
  | ok verdict =>
    cases verdict with
    | solved x r =>
      rw [solve_of_solved traced hrun, Event.ending, hrun]
      exact .solved r rfl rfl
    | stopped s =>
      obtain ⟨rfl, hunique⟩ := strategy_eq_stopped (attempt_eq_stopped hrun)
      have herror := system.status_classification_ne_error
      rw [solve_of_stopped traced hrun, Event.ending, hrun]
      refine .stopped ?_
      cases hstatus : system.classification.status with
      | unique => exact absurd hstatus hunique
      | infinite => exact .inl rfl
      | none => exact .inr rfl
      | error => exact absurd hstatus herror
  | error e =>
    rw [solve_of_failed traced hrun]
    rcases ending_of_failed hrun with ⟨-, hend⟩ | ⟨-, hend⟩ <;> rw [hend]
    · exact .contradicted e rfl rfl
    · exact .failed e rfl rfl

theorem level_ending_eq_warn_iff :
    (Event.ending method (system.attempt method)).level = .warn ↔ system.Contradicted method := by
  cases hrun : (system.attempt method).outcome with
  | ok verdict =>
    rw [iff_false_right (not_contradicted_of_ok hrun), Event.ending, hrun]
    cases verdict <;> simp [Event.level]
  | error e =>
    rcases ending_of_failed hrun with ⟨hc, hend⟩ | ⟨hc, hend⟩ <;> simp [hend, hc, Event.level]

end DenseMatrix

namespace Threaded

open DenseMatrix

/-- The log of a run is told the system, the ranks of a system that is accepted, each search of the
elimination in the order of the columns, and the end. The end agrees with the report, and is a warning
if no pivot was found although the ranks promised a unique solution. Nothing else is a warning. -/
theorem log_of_solve (system : DenseMatrix Float) (method : Method) (traced : Bool) :
    ∃ ranks searches final,
      (solve system method traced).2 =
        .solving method system.rows system.cols :: (ranks ++ (searches ++ [final])) ∧
      (solve system method traced).2.map Event.level =
        .debug :: (List.replicate ranks.length .debug ++
          (List.replicate searches.length .trace ++ [final.level])) ∧
      (system.isAugmented = true ∧ system.isFinite = true →
        ∃ c, classify system = .ok c ∧ ranks = [.classified c]) ∧
      (¬ (system.isAugmented = true ∧ system.isFinite = true) → ranks = []) ∧
      (∃ count ≤ system.rows,
        searches = (List.range count).map (fun k =>
          Event.ofSearch ((system.startMatrix method).reducedTo method.sweep k) k) ∧
        ∀ k < system.rows, (k < count ↔ Starts system method ∧
          ∃ work, (system.startMatrix method).Reaches method.sweep k work)) ∧
      EndsWith method (solve system method traced).1 final ∧
      (final.level = .warn ↔ system.Contradicted method) ∧
      (final.level = .warn ∨ final.level = .debug) := by
  obtain ⟨count, hcount, htold, hiff⟩ := system.told_attempt method
  set searches := (List.range count).map fun k =>
    Event.ofSearch ((system.startMatrix method).reducedTo method.sweep k) k
  have hends := system.endsWith_ending method traced
  set final := Event.ending method (system.attempt method)
  have hlog : (solve system method traced).2 =
      .solving method system.rows system.cols :: (system.ranksTold ++ (searches ++ [final])) := by
    rw [solve_eq, solveLog, htold, List.append_assoc]
  have hranks : system.ranksTold.map Event.level =
      List.replicate system.ranksTold.length .debug := by
    unfold ranksTold
    split_ifs <;> rfl
  have hlevels : searches.map Event.level = List.replicate searches.length .trace := by
    refine List.eq_replicate_iff.mpr ⟨List.length_map _, fun level hlevel => ?_⟩
    obtain ⟨event, hevent, rfl⟩ := List.mem_map.mp hlevel
    obtain ⟨k, -, rfl⟩ := List.mem_map.mp hevent
    exact Event.level_ofSearch _ k
  refine ⟨system.ranksTold, searches, final, hlog, ?_, fun haccepted => ?_, fun hrefused => ?_,
    ⟨count, hcount, rfl, hiff⟩, ?_, ?_, ?_⟩
  · rw [hlog, List.map_cons, List.map_append, List.map_append, hranks, hlevels]
    rfl
  · exact ⟨_, classify_of_isAugmented haccepted.1,
      ranksTold_of_valid (validate_eq_ok_iff.mpr haccepted)⟩
  · refine if_neg fun haccepted => hrefused ?_
    rwa [Bool.and_eq_true] at haccepted
  · rw [solve_eq]
    exact hends
  · exact level_ending_eq_warn_iff
  · exact hends.level_cases

end Threaded

end DenseSystem
