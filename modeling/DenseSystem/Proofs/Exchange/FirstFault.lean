import Mathlib
import DenseSystem.Proofs.Exchange.Padding

/-! # The first fault of a text

A rejected text is rejected for the first line that has a fault, which is told by its number among
all lines, blank ones included. What comes after that line is never looked at. Only where equations
are missing no line is at fault, and the line after the last one that counts is named.
-/
namespace DenseSystem.Exchange

open Text

/-! ## Lines and their numbers -/

theorem numbered_append (number : ℕ) (above below : List (List Char)) :
    numbered number (above ++ below) =
      numbered number above ++ numbered (number + above.length) below := by
  induction above generalizing number with
  | nil => rfl
  | cons line above ih =>
    rw [List.cons_append, numbered_cons, numbered_cons, ih, List.append_assoc, List.length_cons,
      Nat.add_right_comm, ← Nat.add_assoc]

theorem map_snd_numbered (number : ℕ) (lines : List (List Char)) :
    (numbered number lines).map Prod.snd = contentOf lines := map_numbered number lines

theorem numbered_eq_nil_iff {number : ℕ} {lines : List (List Char)} :
    numbered number lines = [] ↔ ∀ line ∈ lines, trim line = [] := by
  rw [← List.map_eq_nil_iff (f := Prod.snd), map_snd_numbered, contentOf]
  simp

/-- A line that counts is found at its number. -/
theorem numbered_eq_append_cons_iff {start number : ℕ} {lines : List (List Char)}
    {line : List Char} {before after : List (ℕ × List Char)} :
    numbered start lines = before ++ (number, line) :: after ↔
      ∃ above raw below, lines = above ++ raw :: below ∧ number = start + above.length ∧
        trim raw ≠ [] ∧ line = trim raw ∧ before = numbered start above ∧
        after = numbered (number + 1) below := by
  constructor
  · intro h
    induction lines generalizing start before with
    | nil => simp [numbered] at h
    | cons first rest ih =>
      rw [numbered_cons] at h
      by_cases hblank : trim first = []
      -- A blank line takes a number and leaves nothing else.
      · rw [hblank, List.isEmpty_nil, if_pos rfl, List.nil_append] at h
        obtain ⟨above, raw, below, rfl, rfl, hraw, hline, rfl, hafter⟩ := ih h
        refine ⟨first :: above, raw, below, rfl, ?_, hraw, hline, ?_, hafter⟩
        · rw [List.length_cons]
          omega
        · rw [numbered_cons, hblank]
          rfl
      · rw [if_neg (by simpa using hblank), List.singleton_append] at h
        cases before with
        | nil =>
          obtain ⟨hhead, rfl⟩ := List.cons.inj h
          cases hhead
          exact ⟨[], first, rest, rfl, rfl, hblank, rfl, rfl, rfl⟩
        | cons head before =>
          obtain ⟨rfl, hrest⟩ := List.cons.inj h
          obtain ⟨above, raw, below, rfl, rfl, hraw, hline, rfl, hafter⟩ := ih hrest
          refine ⟨first :: above, raw, below, rfl, ?_, hraw, hline, ?_, hafter⟩
          · rw [List.length_cons]
            omega
          · rw [numbered_cons, if_neg (by simpa using hblank)]
            rfl
  · rintro ⟨above, raw, below, rfl, rfl, hraw, rfl, rfl, rfl⟩
    rw [numbered_append, numbered_cons, if_neg (by simpa using hraw)]
    rfl

/-! ## Violations -/

/-- A line that counts and has a fault behind those above it. Lines are numbered from one. -/
def Violation (lines : List (List Char)) (number : ℕ) (fault : Fault) : Prop :=
  ∃ above line below, lines = above ++ line :: below ∧ number = above.length + 1 ∧
    trim line ≠ [] ∧ Violates (contentOf above) (trim line) fault

structure FirstViolation (lines : List (List Char)) (number : ℕ) (fault : Fault) : Prop where
  violation : Violation lines number fault
  first : ∀ earlier < number, ∀ other, ¬ Violation lines earlier other

variable {lines others : List (List Char)} {number : ℕ} {fault : Fault}

theorem Violation.le_length (h : Violation lines number fault) : number ≤ lines.length := by
  obtain ⟨above, line, below, rfl, rfl, -, -⟩ := h
  rw [List.length_append, List.length_cons]
  omega

/-- Lines below do not matter. -/
theorem violation_append_iff {above : List (List Char)} (below : List (List Char))
    (hnumber : number ≤ above.length) :
    Violation (above ++ below) number fault ↔ Violation above number fault := by
  constructor
  · rintro ⟨front, line, back, hsplit, rfl, hline, hfault⟩
    obtain ⟨more, rfl, -⟩ | ⟨more, rfl, hmore⟩ := List.append_eq_append_iff.mp hsplit
    · rw [List.length_append] at hnumber
      omega
    · cases more with
      | nil => simp at hnumber
      | cons first more =>
        obtain ⟨rfl, -⟩ := List.cons.inj hmore
        exact ⟨front, line, more, rfl, rfl, hline, hfault⟩
  · rintro ⟨front, line, back, rfl, rfl, hline, hfault⟩
    exact ⟨front, line, back ++ below, by simp, rfl, hline, hfault⟩

theorem violation_append_singleton_iff {line : List Char} :
    Violation (lines ++ [line]) number fault ↔
      Violation lines number fault ∨ number = lines.length + 1 ∧ trim line ≠ [] ∧
        Violates (contentOf lines) (trim line) fault := by
  rcases Nat.lt_or_ge lines.length number with hlt | hle
  · have hno : ¬ Violation lines number fault := fun h => absurd h.le_length (by omega)
    rw [or_iff_right hno]
    constructor
    · intro h
      have hlength := h.le_length
      rw [List.length_append, List.length_singleton] at hlength
      obtain ⟨above, raw, below, hsplit, hnumber, hraw, hfault⟩ := h
      obtain ⟨rfl, hrest⟩ := List.append_inj hsplit (by omega)
      obtain ⟨rfl, -⟩ := List.cons.inj hrest
      exact ⟨hnumber, hraw, hfault⟩
    · rintro ⟨rfl, hline, hfault⟩
      exact ⟨lines, line, [], rfl, rfl, hline, hfault⟩
  · rw [violation_append_iff [line] hle]
    exact (or_iff_left fun h => by omega).symm

theorem beginning_contentOf_iff :
    Beginning (contentOf lines) ↔ ∀ number fault, ¬ Violation lines number fault := by
  induction lines using List.reverseRecOn with
  | nil =>
    refine iff_of_true .nothing fun number fault h => ?_
    obtain ⟨above, line, below, hsplit, -⟩ := h
    simp at hsplit
  | append_singleton lines line ih =>
    simp only [violation_append_singleton_iff, not_or, forall_and, ← ih]
    by_cases hblank : trim line = []
    · rw [contentOf_append, contentOf_singleton_of_blank hblank, List.append_nil]
      simp [hblank]
    · rw [contentOf_append, contentOf_singleton hblank, beginning_append_iff]
      refine and_congr_right fun _ => ?_
      exact ⟨fun h _ fault hfault => h fault hfault.2.2, fun h fault hfault =>
        h _ fault ⟨rfl, hblank, hfault⟩⟩

theorem firstViolation_iff : FirstViolation lines number fault ↔
    ∃ above line below, lines = above ++ line :: below ∧ number = above.length + 1 ∧
      trim line ≠ [] ∧ Beginning (contentOf above) ∧
      Violates (contentOf above) (trim line) fault := by
  constructor
  · rintro ⟨⟨above, line, below, rfl, rfl, hline, hfault⟩, hfirst⟩
    refine ⟨above, line, below, rfl, rfl, hline, beginning_contentOf_iff.mpr ?_, hfault⟩
    intro earlier other h
    have hle := h.le_length
    exact hfirst earlier (by omega) other ((violation_append_iff (line :: below) hle).mpr h)
  · rintro ⟨above, line, below, rfl, rfl, hline, hbeginning, hfault⟩
    refine ⟨⟨above, line, below, rfl, rfl, hline, hfault⟩, fun earlier hlt other h => ?_⟩
    exact beginning_contentOf_iff.mp hbeginning earlier other
      ((violation_append_iff (line :: below) (by omega)).mp h)

/-- Lines with the same characters but for blanks around them have the same first fault, whatever
lines come after it. -/
theorem FirstViolation.of_agree (h : FirstViolation lines number fault)
    (hagree : (others.take number).map trim = (lines.take number).map trim) :
    FirstViolation others number fault := by
  obtain ⟨above, line, below, rfl, rfl, hline, hbeginning, hfault⟩ := firstViolation_iff.mp h
  have htake : (above ++ line :: below).take (above.length + 1) = above ++ [line] := by
    rw [List.append_cons, List.take_left' (by simp)]
  rw [htake, List.map_append, List.map_singleton, List.map_eq_append_iff] at hagree
  obtain ⟨above', last, hothers, habove, hlast⟩ := hagree
  obtain ⟨line', rfl, hline'⟩ := List.map_eq_singleton_iff.mp hlast
  have hlength : above'.length = above.length := by
    simpa using congrArg List.length habove
  have hcontent := contentOf_of_map_trim habove
  refine firstViolation_iff.mpr ⟨above', line', others.drop (above.length + 1), ?_, ?_, ?_, ?_, ?_⟩
  · rw [List.append_cons, ← hothers, List.take_append_drop]
  · rw [hlength]
  · rwa [hline']
  · rwa [hcontent]
  · rwa [hcontent, hline']

/-! ## What is reported -/

def IsLastLine (lines : List (List Char)) (number : ℕ) : Prop :=
  ∃ above line below, lines = above ++ line :: below ∧ number = above.length + 1 ∧
    trim line ≠ [] ∧ ∀ blank ∈ below, trim blank = []

theorem getLast?_numbered_iff :
    ((numbered 1 lines).map Prod.fst).getLast? = some number ↔ IsLastLine lines number := by
  rw [List.getLast?_map, Option.map_eq_some_iff]
  constructor
  · rintro ⟨⟨_, line⟩, hlast, rfl⟩
    obtain ⟨before, hsplit⟩ := List.getLast?_eq_some_iff.mp hlast
    obtain ⟨above, raw, below, hlines, hnumber, hraw, -, -, hafter⟩ :=
      numbered_eq_append_cons_iff.mp hsplit
    exact ⟨above, raw, below, hlines, hnumber.trans (Nat.add_comm 1 _), hraw,
      numbered_eq_nil_iff.mp hafter.symm⟩
  · rintro ⟨above, raw, below, hlines, hnumber, hraw, hblank⟩
    refine ⟨(number, trim raw), List.getLast?_eq_some_iff.mpr ⟨numbered 1 above, ?_⟩, rfl⟩
    exact numbered_eq_append_cons_iff.mpr ⟨above, raw, below, hlines,
      hnumber.trans (Nat.add_comm _ 1), hraw, rfl, rfl, (numbered_eq_nil_iff.mpr hblank).symm⟩

theorem Violates.ne_missing {before : List (List Char)} {line : List Char}
    (h : Violates before line fault) :
    fault ≠ .missingSize ∧ ∀ n k, fault ≠ .missingEquation n k := by
  obtain ⟨hfault⟩ | ⟨-, -, hfault⟩ | - := h
  · cases hfault <;> exact ⟨nofun, nofun⟩
  · obtain ⟨-, -, hword⟩ | - := hfault
    · cases hword <;> exact ⟨nofun, nofun⟩
    · exact ⟨nofun, nofun⟩
  · exact ⟨nofun, nofun⟩

/-- A fault of a line is reported if and only if it is the first one. -/
theorem rejects_iff_firstViolation (hsize : fault ≠ .missingSize)
    (hequation : ∀ n k, fault ≠ .missingEquation n k) :
    Rejects (numbered 1 lines) number fault ↔ FirstViolation lines number fault := by
  rw [firstViolation_iff]
  constructor
  · rintro (- | ⟨_, _, hsplit, hbeginning, hfault⟩ | -)
    · exact absurd rfl hsize
    · obtain ⟨above, raw, below, hlines, hnumber, hraw, rfl, rfl, -⟩ :=
        numbered_eq_append_cons_iff.mp hsplit
      rw [map_snd_numbered] at hbeginning hfault
      exact ⟨above, raw, below, hlines, hnumber.trans (Nat.add_comm 1 _), hraw, hbeginning, hfault⟩
    · exact absurd rfl (hequation _ _)
  · rintro ⟨above, raw, below, hlines, hnumber, hraw, hbeginning, hfault⟩
    have hsplit := numbered_eq_append_cons_iff.mpr ⟨above, raw, below, hlines,
      hnumber.trans (Nat.add_comm _ 1), hraw, rfl, rfl, rfl⟩
    rw [← map_snd_numbered 1] at hbeginning hfault
    exact .line _ _ hsplit hbeginning hfault

theorem rejects_missingSize_iff :
    Rejects (numbered 1 lines) number .missingSize ↔ number = 1 ∧ contentOf lines = [] := by
  constructor
  · rintro (hblank | ⟨_, _, -, -, hfault⟩)
    · rw [← map_snd_numbered 1, hblank]
      exact ⟨rfl, rfl⟩
    · exact absurd rfl hfault.ne_missing.1
  · rintro ⟨rfl, hblank⟩
    rw [← map_snd_numbered 1, List.map_eq_nil_iff] at hblank
    exact .blank hblank

/-- Equations are missing behind a size and equations only, and the line after the last of them is
named. -/
theorem rejects_missingEquation_iff {n k : ℕ} :
    Rejects (numbered 1 lines) number (.missingEquation n k) ↔
      ∃ size equations last, contentOf lines = size :: equations ∧ IsSize size n ∧
        equations.length = k ∧ k < n ∧ (∀ line ∈ equations, IsEquation n line) ∧
        IsLastLine lines last ∧ number = last + 1 := by
  constructor
  · rintro (- | ⟨_, _, -, -, hfault⟩ | ⟨hcontent, hsize, hlt, hequations, hlast⟩)
    · exact absurd rfl (hfault.ne_missing.2 n k)
    · rw [map_snd_numbered] at hcontent
      exact ⟨_, _, _, hcontent, hsize, rfl, hlt, hequations, getLast?_numbered_iff.mp hlast, rfl⟩
  · rintro ⟨size, equations, last, hcontent, hsize, rfl, hlt, hequations, hlast, rfl⟩
    rw [← map_snd_numbered 1] at hcontent
    exact .unfinished hcontent hsize hlt hequations (getLast?_numbered_iff.mpr hlast)

/-- What is not read as a system is rejected with a line and a fault. Unless the text ends too
early, this is the first line with a fault, and every text that agrees up to it, but for blanks
around lines, is rejected alike. Equations are missing if and only if the size and fewer equations
than it says are all that the text holds, and the line after the last of them is named. Blanks
around lines and blank lines change neither the system that is read nor the fault that is found. -/
theorem read_reports_first_fault (text : String) :
    (∀ e, read text = .error e → ∃ line fault, e = .parse line fault) ∧
    (∀ line fault, fault ≠ .missingSize → (∀ n k, fault ≠ .missingEquation n k) →
      (read text = .error (.parse line fault) ↔
        FirstViolation (Text.lines text.toList) line fault) ∧
      ∀ other : String, ((Text.lines other.toList).take line).map trim =
          ((Text.lines text.toList).take line).map trim →
        read text = .error (.parse line fault) → read other = .error (.parse line fault)) ∧
    (∀ line, read text = .error (.parse line .missingSize) ↔
      line = 1 ∧ contentLines text = []) ∧
    (∀ line n k, read text = .error (.parse line (.missingEquation n k)) ↔
      ∃ size equations last, contentLines text = size :: equations ∧ IsSize size n ∧
        equations.length = k ∧ k < n ∧ (∀ l ∈ equations, IsEquation n l) ∧
        IsLastLine (Text.lines text.toList) last ∧ line = last + 1) ∧
    ∀ padded : String, Relation.ReflTransGen Padded text.toList padded.toList →
      (∀ system, read text = .ok system → read padded = .ok system) ∧
      ∀ line fault, read text = .error (.parse line fault) →
        ∃ line', read padded = .error (.parse line' fault) := by
  have hlocated {text : String} {line : ℕ} {fault : Fault} (hsize : fault ≠ .missingSize)
      (hequation : ∀ n k, fault ≠ .missingEquation n k) :
      read text = .error (.parse line fault) ↔
        FirstViolation (Text.lines text.toList) line fault := by
    rw [read_eq_error_iff, content_eq, rejects_iff_firstViolation hsize hequation]
  refine ⟨fun e => read_error, fun line fault hsize hequation => ⟨hlocated hsize hequation, ?_⟩,
    fun line => ?_, fun line n k => ?_, fun padded hpadded => ?_⟩
  · intro other hagree hread
    exact (hlocated hsize hequation).mpr (((hlocated hsize hequation).mp hread).of_agree hagree)
  · rw [read_eq_error_iff, content_eq, rejects_missingSize_iff]
    rfl
  · rw [read_eq_error_iff, content_eq, rejects_missingEquation_iff]
    rfl
  · exact read_of_contentLines_eq (contentLines_eq_of_padded hpadded)

/-- A cell of the fourth line is no number, with other lines after it and without; the second of two
equations is missing; and a blank line and blanks at the end of a line are put into a system. -/
theorem read_reports_fourth_line :
    let text := "2\n\n1 2 3\n1 x\n9 9 9 9\n"
    let unfinished := "2\n1 2 3\n\n"
    let system : DenseMatrix Float := ⟨1, 2, #[4, 8], rfl⟩
    FirstViolation (Text.lines text.toList) 4 (.unreadableCell "x") ∧
      read "2\r\n \n 1 2 3 \n1 x" = .error (.parse 4 (.unreadableCell "x")) ∧
      IsLastLine (Text.lines unfinished.toList) 2 ∧
      read "1\n4 8\n" = .ok system ∧ read "1\n \n4 8 \r\n" = .ok system := by
  have hread : read "2\n\n1 2 3\n1 x\n9 9 9 9\n" =
      .error (.parse 4 (.unreadableCell "x")) := rfl
  have hsame : ((Text.lines "2\r\n \n 1 2 3 \n1 x".toList).take 4).map trim =
      ((Text.lines "2\n\n1 2 3\n1 x\n9 9 9 9\n".toList).take 4).map trim := rfl
  have hmissing : read "2\n1 2 3\n\n" = .error (.parse 3 (.missingEquation 2 1)) := rfl
  have hsystem : read "1\n4 8\n" = .ok ⟨1, 2, #[4, 8], rfl⟩ := rfl
  have hline : Padded "1\n4 8\n".toList "1\n \n4 8\n".toList :=
    .lineStart ['1'] [' ', '\n'] ['4', ' ', '8', '\n'] (List.all_eq_true.mp (by decide))
  have hend : Padded "1\n \n4 8\n".toList "1\n \n4 8 \r\n".toList :=
    .lineEnd ['1', '\n', ' ', '\n', '4', ' ', '8'] [' ', '\r'] []
      (List.all_eq_true.mp (by decide))
  intro text unfinished system
  obtain ⟨-, hlocated, -⟩ := read_reports_first_fault text
  obtain ⟨hfirst, hagree⟩ := hlocated 4 (.unreadableCell "x") nofun nofun
  obtain ⟨-, -, -, hunfinished, -⟩ := read_reports_first_fault unfinished
  obtain ⟨-, -, last, -, -, -, -, -, hlast, hnumber⟩ := (hunfinished 3 2 1).mp hmissing
  cases hnumber
  obtain ⟨-, -, -, -, hblanks⟩ := read_reports_first_fault "1\n4 8\n"
  obtain ⟨hkept, -⟩ := hblanks "1\n \n4 8 \r\n" (.tail (.single hline) hend)
  exact ⟨hfirst.mp hread, hagree _ hsame hread, hlast, hsystem, hkept _ hsystem⟩

end DenseSystem.Exchange
