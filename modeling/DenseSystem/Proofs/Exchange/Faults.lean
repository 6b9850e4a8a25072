import Mathlib
import DenseSystem.Proofs.Exchange.Grammar

/-! # Faults of lines

What is wrong with a line depends on the line and on what comes before it: the first line that
counts is the size, as many lines as the size says are equations, and further ones should not be
there. The reader reports the fault of the line behind the longest beginning without faults.
-/
namespace DenseSystem.Exchange

/-! ## Lines without and with a fault -/

def IsSize (line : List Char) (n : ℕ) : Prop :=
  Decimal.word? line = some n ∧ 1 ≤ n ∧ n * (n + 1) < 2 ^ 64

def IsEquation (n : ℕ) (line : List Char) : Prop := ∃ row, DescribesRow n line row

inductive SizeFault (line : List Char) : Fault → Prop
  | unreadable (h : Decimal.word? line = none) :
      SizeFault line (.unreadableSize (String.ofList line))
  | none (h : Decimal.word? line = some 0) : SizeFault line .noUnknowns
  | tooMany {n : ℕ} (h : Decimal.word? line = some n) (hpos : 1 ≤ n)
      (hlarge : 2 ^ 64 ≤ n * (n + 1)) : SizeFault line (.tooManyUnknowns n)

inductive CellFault (word : List Char) : Fault → Prop
  | unreadable (h : Decimal.float? word = none) :
      CellFault word (.unreadableCell (String.ofList word))
  | infinite {x : Float} (h : Decimal.float? word = some x) (hx : x.isFinite = false) :
      CellFault word (.infiniteCell (String.ofList word))

/-- What is wrong with a line that is no equation: the first of its words that is not read as a
finite double, and if there is none, the number of its words. -/
inductive EquationFault (n : ℕ) (line : List Char) : Fault → Prop
  | cell {good rest : List (List Char)} {word : List Char} {fault : Fault}
      (hwords : Text.words line = good ++ word :: rest) (hgood : ∀ w ∈ good, ∃ x, Denotes w x)
      (hword : CellFault word fault) : EquationFault n line fault
  | count (hwords : ∀ w ∈ Text.words line, ∃ x, Denotes w x)
      (hcount : (Text.words line).length ≠ n + 1) :
      EquationFault n line (.cellCount (n + 1) (Text.words line).length)

/-- What is wrong with a line behind other lines that count. -/
inductive Violates : List (List Char) → List Char → Fault → Prop
  | size {line : List Char} {fault : Fault} (h : SizeFault line fault) : Violates [] line fault
  | equation {size line : List Char} {equations : List (List Char)} {n : ℕ} {fault : Fault}
      (hsize : IsSize size n) (hlt : equations.length < n) (h : EquationFault n line fault) :
      Violates (size :: equations) line fault
  | excess {size : List Char} {equations : List (List Char)} {n : ℕ} (line : List Char)
      (hsize : IsSize size n) (hle : n ≤ equations.length) :
      Violates (size :: equations) line .excessContent

/-- Lines that a system can begin with. -/
inductive Beginning : List (List Char) → Prop
  | nothing : Beginning []
  | equations {size : List Char} {equations : List (List Char)} {n : ℕ} (hsize : IsSize size n)
      (hle : equations.length ≤ n) (h : ∀ line ∈ equations, IsEquation n line) :
      Beginning (size :: equations)

theorem IsSize.unique {line : List Char} {n k : ℕ} (h : IsSize line n) (h' : IsSize line k) :
    n = k :=
  Option.some.inj (h.1.symm.trans h'.1)

/-! ## One line -/

section Lines

variable {n : ℕ} {line word : List Char} {fault : Fault}

theorem readSize_eq_ok_iff_isSize : readSize line = .ok n ↔ IsSize line n := readSize_eq_ok_iff

theorem readSize_eq_error_iff : readSize line = .error fault ↔ SizeFault line fault := by
  constructor
  · intro h
    cases hline : Decimal.word? line with
    | none =>
      rw [readSize, hline] at h
      cases h
      exact .unreadable hline
    | some n =>
      rcases Nat.eq_zero_or_pos n with rfl | hpos
      · rw [readSize, hline] at h
        cases h
        exact .none hline
      · rw [readSize_of_word? hline hpos] at h
        split at h <;> cases h
        exact .tooMany hline hpos (not_lt.mp ‹_›)
  · rintro (hline | hline | ⟨hline, hpos, hlarge⟩)
    · rw [readSize, hline]
    · rw [readSize, hline]
      rfl
    · rw [readSize_of_word? hline hpos]
      exact if_neg (not_lt.mpr hlarge)

theorem readCell_eq_error_iff : readCell word = .error fault ↔ CellFault word fault := by
  constructor
  · intro h
    cases hword : Decimal.float? word with
    | none =>
      rw [readCell, hword] at h
      cases h
      exact .unreadable hword
    | some x =>
      cases hx : x.isFinite with
      | true =>
        simp only [readCell, hword, hx, if_true] at h
        cases h
      | false =>
        simp only [readCell, hword, hx, Bool.false_eq_true, if_false] at h
        cases h
        exact .infinite hword hx
  · rintro (hword | ⟨hword, hx⟩)
    · rw [readCell, hword]
    · simp [readCell, hword, hx]

theorem mapM_eq_error_iff {ε β γ : Type} {f : β → Except ε γ} {xs : List β} {e : ε} :
    xs.mapM f = .error e ↔
      ∃ good x rest, xs = good ++ x :: rest ∧ (∀ y ∈ good, ∃ z, f y = .ok z) ∧ f x = .error e := by
  induction xs with
  | nil =>
    constructor
    · intro h
      cases h
    · rintro ⟨good, x, rest, h, -⟩
      simp at h
  | cons x xs ih =>
    rw [List.mapM_cons]
    cases hx : f x with
    | error e' =>
      constructor
      · intro h
        cases h
        exact ⟨[], x, xs, rfl, by simp, hx⟩
      · rintro ⟨good, y, rest, h, hgood, hy⟩
        cases good with
        | nil =>
          obtain ⟨rfl, rfl⟩ := List.cons.inj h
          cases hx.symm.trans hy
          rfl
        | cons z good =>
          obtain ⟨rfl, -⟩ := List.cons.inj h
          obtain ⟨v, hv⟩ := hgood x List.mem_cons_self
          cases hx.symm.trans hv
    | ok z =>
      have hrest : (do return z :: (← xs.mapM f) : Except ε (List γ)) = .error e ↔
          xs.mapM f = .error e := by
        cases xs.mapM f with
        | error e' => rfl
        | ok zs => exact iff_of_false nofun nofun
      refine hrest.trans (ih.trans ⟨?_, ?_⟩)
      · rintro ⟨good, y, rest, rfl, hgood, hy⟩
        exact ⟨x :: good, y, rest, rfl, List.forall_mem_cons.mpr ⟨⟨z, hx⟩, hgood⟩, hy⟩
      · rintro ⟨good, y, rest, h, hgood, hy⟩
        cases good with
        | nil =>
          obtain ⟨rfl, rfl⟩ := List.cons.inj h
          cases hx.symm.trans hy
        | cons w good =>
          obtain ⟨rfl, rfl⟩ := List.cons.inj h
          exact ⟨good, y, rest, rfl, (List.forall_mem_cons.mp hgood).2, hy⟩

theorem CellFault.not_denotes (h : CellFault word fault) : ¬ ∃ x, Denotes word x := by
  rintro ⟨x, hx⟩
  cases (readCell_eq_ok_iff.mpr hx).symm.trans (readCell_eq_error_iff.mpr h)

theorem mapM_readCell_eq_error_iff {words : List (List Char)} :
    words.mapM readCell = .error fault ↔ ∃ good word rest, words = good ++ word :: rest ∧
      (∀ w ∈ good, ∃ x, Denotes w x) ∧ CellFault word fault := by
  simp only [mapM_eq_error_iff, readCell_eq_ok_iff, readCell_eq_error_iff]

theorem denotes_of_mapM {words : List (List Char)} {cells : List Float}
    (h : words.mapM readCell = .ok cells) : ∀ w ∈ words, ∃ x, Denotes w x := by
  intro w hw
  obtain ⟨i, hi, rfl⟩ := List.mem_iff_getElem.mp hw
  have hread := mapM_eq_ok_iff.mp h
  exact ⟨_, readCell_eq_ok_iff.mp (hread.get hi (hread.length_eq ▸ hi))⟩

theorem readEquation_eq_error_iff :
    readEquation n line = .error fault ↔ EquationFault n line fault := by
  rw [readEquation]
  cases h : (Text.words line).mapM readCell with
  | error e =>
    obtain ⟨good, word, rest, hwords, hgood, hword⟩ := mapM_readCell_eq_error_iff.mp h
    constructor
    · intro he
      cases he
      exact .cell hwords hgood hword
    · rintro (⟨hwords', hgood', hword'⟩ | ⟨hall, -⟩)
      · cases h.symm.trans (mapM_readCell_eq_error_iff.mpr ⟨_, _, _, hwords', hgood', hword'⟩)
        rfl
      · exact absurd (hall word (by simp [hwords])) hword.not_denotes
  | ok cells =>
    have hlength := (mapM_eq_ok_iff.mp h).length_eq
    have hall := denotes_of_mapM h
    -- No word has a fault, so only their number can be wrong.
    have hfault : EquationFault n line fault ↔ (Text.words line).length ≠ n + 1 ∧
        fault = .cellCount (n + 1) (Text.words line).length := by
      constructor
      · rintro (⟨hwords, -, hword⟩ | ⟨-, hcount⟩)
        · exact absurd (hall _ (hwords ▸ List.mem_append_cons_self)) hword.not_denotes
        · exact ⟨hcount, rfl⟩
      · rintro ⟨hcount, rfl⟩
        exact .count hall hcount
    rw [hfault]
    change (if cells.length = n + 1 then _ else Except.error _) = _ ↔ _
    rw [← hlength]
    split
    · next hcount =>
      refine iff_of_false (fun hok => ?_) fun hf => hf.1 hcount
      cases hok
    · next hcount => simp [hcount, eq_comm]

theorem readEquation_isOk_iff : (∃ row, readEquation n line = .ok row) ↔ IsEquation n line := by
  simp only [readEquation_eq_ok_iff]
  constructor
  · rintro ⟨row, hlength, hrow⟩
    rw [List.forall₂_iff_get] at hrow
    refine ⟨fun j => row.getD j 0, hrow.1.trans hlength, fun j hj => ?_⟩
    dsimp only
    rw [List.getD_eq_getElem _ _ (hrow.1 ▸ hj)]
    exact hrow.2 j hj _
  · rintro ⟨row, hlength, hrow⟩
    refine ⟨(List.range (n + 1)).map row, by simp, List.forall₂_iff_get.mpr ⟨by simp [hlength], ?_⟩⟩
    intro j hj hj'
    simpa using hrow j hj

theorem not_isEquation_iff : ¬ IsEquation n line ↔ ∃ fault, EquationFault n line fault := by
  rw [← readEquation_isOk_iff]
  simp only [← readEquation_eq_error_iff]
  cases readEquation n line <;> simp

theorem not_isSize_iff : (¬ ∃ n, IsSize line n) ↔ ∃ fault, SizeFault line fault := by
  simp only [← readSize_eq_ok_iff_isSize, ← readSize_eq_error_iff]
  cases readSize line <;> simp

theorem SizeFault.unique {other : Fault} (h : SizeFault line fault) (h' : SizeFault line other) :
    other = fault :=
  Except.error.inj ((readSize_eq_error_iff.mpr h').symm.trans (readSize_eq_error_iff.mpr h))

theorem EquationFault.unique {other : Fault} (h : EquationFault n line fault)
    (h' : EquationFault n line other) : other = fault :=
  Except.error.inj ((readEquation_eq_error_iff.mpr h').symm.trans (readEquation_eq_error_iff.mpr h))

end Lines

/-! ## Line after line -/

/-- A line continues a beginning unless it has a fault. -/
theorem beginning_append_iff {before : List (List Char)} {line : List Char} :
    Beginning (before ++ [line]) ↔
      Beginning before ∧ ∀ fault, ¬ Violates before line fault := by
  constructor
  · intro h
    cases before with
    | nil =>
      obtain - | ⟨hsize, -, -⟩ := h
      refine ⟨.nothing, ?_⟩
      rintro fault ⟨hfault⟩
      exact not_isSize_iff.mpr ⟨fault, hfault⟩ ⟨_, hsize⟩
    | cons size equations =>
      rw [List.cons_append] at h
      obtain - | ⟨hsize, hle, hequations⟩ := h
      rw [List.length_append, List.length_singleton] at hle
      have hline := hequations line (by simp)
      refine ⟨.equations hsize (by omega) fun l hl => hequations l (by simp [hl]), ?_⟩
      rintro fault (- | ⟨hsize', hlt, hfault⟩ | ⟨_, hsize', hge⟩)
      · cases hsize.unique hsize'
        exact not_isEquation_iff.mpr ⟨fault, hfault⟩ hline
      · cases hsize.unique hsize'
        omega
  -- A line without a fault is what is due here: a size, or one more equation.
  · rintro ⟨h, hnone⟩
    cases h with
    | nothing =>
      obtain ⟨n, hsize⟩ : ∃ n, IsSize line n := by
        by_contra hno
        obtain ⟨fault, hfault⟩ := not_isSize_iff.mp hno
        exact hnone fault (.size hfault)
      exact .equations hsize (Nat.zero_le n) (by simp)
    | @equations size equations n hsize hle hequations =>
      have hlt : equations.length < n := by
        by_contra hge
        exact hnone _ (.excess line hsize (not_lt.mp hge))
      have hline : IsEquation n line := by
        by_contra hno
        obtain ⟨fault, hfault⟩ := not_isEquation_iff.mp hno
        exact hnone fault (.equation hsize hlt hfault)
      refine .equations hsize (by simpa using hlt) fun l hl => ?_
      rcases List.mem_append.mp hl with hl | hl
      · exact hequations l hl
      · rwa [List.mem_singleton.mp hl]

section Reading

variable {n last left number : ℕ} {lines rest : List (ℕ × List Char)} {first : ℕ × List Char}
  {fault : Fault}

/-- A line that is not one of `left` equations, behind equations only. -/
def StopsAt (n left : ℕ) (lines : List (ℕ × List Char)) (number : ℕ) (fault : Fault) : Prop :=
  ∃ above line below, lines = above ++ (number, line) :: below ∧
    (∀ l ∈ above, IsEquation n l.2) ∧
    (above.length < left ∧ EquationFault n line fault ∨
      above.length = left ∧ fault = .excessContent)

/-- Fewer lines than `left`, all of them equations, behind a line with the number `last`. -/
def Lacks (n last left : ℕ) (lines : List (ℕ × List Char)) (number : ℕ) (fault : Fault) : Prop :=
  lines.length < left ∧ (∀ l ∈ lines, IsEquation n l.2) ∧
    number = (lines.map Prod.fst).getLastD last + 1 ∧
    fault = .missingEquation n (n - (left - lines.length))

theorem stopsAt_zero_iff :
    StopsAt n 0 (first :: rest) number fault ↔ number = first.1 ∧ fault = .excessContent := by
  constructor
  · rintro ⟨above, line, below, h, -, hfault⟩
    obtain ⟨hlength, rfl⟩ := hfault.resolve_left fun hlt => Nat.not_lt_zero _ hlt.1
    obtain rfl := List.eq_nil_of_length_eq_zero hlength
    obtain ⟨rfl, -⟩ := List.cons.inj h
    exact ⟨rfl, rfl⟩
  · rintro ⟨rfl, rfl⟩
    exact ⟨[], first.2, rest, rfl, by simp, .inr ⟨rfl, rfl⟩⟩

theorem stopsAt_iff_of_fault (h : EquationFault n first.2 fault) {cause : Fault} :
    StopsAt n (left + 1) (first :: rest) number cause ↔ number = first.1 ∧ cause = fault := by
  constructor
  · rintro ⟨above, line, below, hsplit, habove, hcause⟩
    cases above with
    | nil =>
      obtain ⟨rfl, -⟩ := List.cons.inj hsplit
      rcases hcause with ⟨-, hcause⟩ | ⟨hlength, -⟩
      · exact ⟨rfl, h.unique hcause⟩
      · simp at hlength
    | cons l above =>
      obtain ⟨rfl, -⟩ := List.cons.inj hsplit
      exact absurd (habove _ List.mem_cons_self) (not_isEquation_iff.mpr ⟨fault, h⟩)
  · rintro ⟨rfl, rfl⟩
    exact ⟨[], first.2, rest, rfl, by simp, .inl ⟨Nat.succ_pos left, h⟩⟩

theorem stopsAt_cons (hfirst : IsEquation n first.2) :
    StopsAt n (left + 1) (first :: rest) number fault ↔ StopsAt n left rest number fault := by
  constructor
  · rintro ⟨above, line, below, h, habove, hfault⟩
    cases above with
    | nil =>
      obtain ⟨rfl, -⟩ := List.cons.inj h
      rcases hfault with ⟨-, hfault⟩ | ⟨hlength, -⟩
      · exact absurd hfirst (not_isEquation_iff.mpr ⟨fault, hfault⟩)
      · simp at hlength
    | cons l above =>
      obtain ⟨rfl, rfl⟩ := List.cons.inj h
      refine ⟨above, line, below, rfl, (List.forall_mem_cons.mp habove).2, ?_⟩
      simpa using hfault
  · rintro ⟨above, line, below, rfl, habove, hfault⟩
    exact ⟨first :: above, line, below, rfl, List.forall_mem_cons.mpr ⟨hfirst, habove⟩,
      by simpa using hfault⟩

theorem lacks_cons (hfirst : IsEquation n first.2) :
    Lacks n last (left + 1) (first :: rest) number fault ↔
      Lacks n first.1 left rest number fault := by
  rw [Lacks, Lacks, List.length_cons, List.map_cons, List.getLastD_cons, List.forall_mem_cons,
    Nat.add_lt_add_iff_right, Nat.add_sub_add_right]
  simp only [hfirst, true_and]

/-- Where the reading of equations ends: at the first line that is none, at a line too many, or
behind the last line if there are too few. -/
theorem readEquations_eq_error_iff :
    readEquations n last left lines = .error (.parse number fault) ↔
      StopsAt n left lines number fault ∨ Lacks n last left lines number fault := by
  fun_induction readEquations n last left lines with
  | case1 => simp [StopsAt, Lacks]
  | case2 => simp [stopsAt_zero_iff, Lacks, eq_comm]
  | case3 last left =>
    constructor
    · intro h
      cases h
      exact .inr ⟨Nat.succ_pos left, by simp, rfl, rfl⟩
    · rintro (⟨above, line, below, h, -⟩ | ⟨-, -, rfl, rfl⟩)
      · simp at h
      · rfl
  | case4 last left k line rest fault' hline =>
    have hfault := readEquation_eq_error_iff.mp hline
    have hnone : ¬ Lacks n last (left + 1) ((k, line) :: rest) number fault := fun h =>
      not_isEquation_iff.mpr ⟨fault', hfault⟩ (h.2.1 (k, line) List.mem_cons_self)
    rw [or_iff_left hnone, stopsAt_iff_of_fault hfault]
    simp [eq_comm]
  | case5 last left k line rest row hline ih =>
    have hfirst : IsEquation n line := readEquation_isOk_iff.mp ⟨row, hline⟩
    rw [stopsAt_cons hfirst, lacks_cons hfirst, ← ih]
    cases readEquations n k left rest with
    | error e => rfl
    | ok rows => constructor <;> intro h <;> cases h

/-- The faults of a text whose lines that count are numbered. -/
inductive Rejects (content : List (ℕ × List Char)) : ℕ → Fault → Prop
  | blank (h : content = []) : Rejects content 1 .missingSize
  | line (above below : List (ℕ × List Char)) {number : ℕ} {line : List Char} {fault : Fault}
      (h : content = above ++ (number, line) :: below) (habove : Beginning (above.map Prod.snd))
      (hline : Violates (above.map Prod.snd) line fault) : Rejects content number fault
  | unfinished {last n : ℕ} {size : List Char} {equations : List (List Char)}
      (h : content.map Prod.snd = size :: equations) (hsize : IsSize size n)
      (hlt : equations.length < n) (hequations : ∀ line ∈ equations, IsEquation n line)
      (hlast : (content.map Prod.fst).getLast? = some last) :
      Rejects content (last + 1) (.missingEquation n equations.length)

theorem rejects_iff_of_sizeFault (h : SizeFault first.2 fault) {cause : Fault} :
    Rejects (first :: rest) number cause ↔ number = first.1 ∧ cause = fault := by
  have hnone : ¬ ∃ n, IsSize first.2 n := not_isSize_iff.mpr ⟨fault, h⟩
  constructor
  · rintro (hblank | ⟨above, below, hsplit, habove, hline⟩ | ⟨hsplit, hsize, -, -, -⟩)
    · cases hblank
    · cases above with
      | nil =>
        obtain ⟨rfl, -⟩ := List.cons.inj hsplit
        obtain ⟨hcause⟩ := hline
        exact ⟨rfl, h.unique hcause⟩
      | cons l above =>
        obtain ⟨rfl, -⟩ := List.cons.inj hsplit
        obtain - | ⟨hsize, -, -⟩ := habove
        exact absurd ⟨_, hsize⟩ hnone
    · obtain ⟨rfl, -⟩ := List.cons.inj hsplit
      exact absurd ⟨_, hsize⟩ hnone
  · rintro ⟨rfl, rfl⟩
    exact .line [] rest rfl .nothing (.size h)

theorem getLast?_numbers :
    ((first :: rest).map Prod.fst).getLast? = some ((rest.map Prod.fst).getLastD first.1) := by
  rw [List.map_cons, List.getLast?_cons, List.getLastD_eq_getLast?]

theorem rejects_iff_of_isSize (h : IsSize first.2 n) :
    Rejects (first :: rest) number fault ↔
      StopsAt n n rest number fault ∨ Lacks n first.1 n rest number fault := by
  constructor
  · rintro (hblank | ⟨above, below, hsplit, habove, hline⟩ |
      ⟨hsplit, hsize, hlt, hequations, hlast⟩)
    · cases hblank
    · cases above with
      | nil =>
        obtain ⟨rfl, -⟩ := List.cons.inj hsplit
        obtain ⟨hcause⟩ := hline
        exact absurd ⟨n, h⟩ (not_isSize_iff.mpr ⟨fault, hcause⟩)
      | cons l above =>
        obtain ⟨rfl, rfl⟩ := List.cons.inj hsplit
        obtain - | ⟨hsize, hle, hequations⟩ := habove
        cases h.unique hsize
        rw [List.length_map] at hle
        rw [List.forall_mem_map] at hequations
        refine .inl ⟨above, _, below, rfl, hequations, ?_⟩
        obtain - | ⟨hsize', hlt, hfault⟩ | ⟨_, hsize', hge⟩ := hline
        · cases h.unique hsize'
          exact .inl ⟨by simpa using hlt, hfault⟩
        · cases h.unique hsize'
          rw [List.length_map] at hge
          exact .inr ⟨le_antisymm hle hge, rfl⟩
    · obtain ⟨rfl, rfl⟩ := List.cons.inj hsplit
      cases h.unique hsize
      rw [List.length_map] at hlt
      rw [List.forall_mem_map] at hequations
      refine .inr ⟨hlt, hequations, ?_, ?_⟩
      · rw [getLast?_numbers] at hlast
        rw [Option.some.inj hlast]
      · rw [List.length_map, Nat.sub_sub_self hlt.le]
  · rintro (⟨above, line, below, rfl, habove, hcause⟩ | ⟨hlt, hall, rfl, rfl⟩)
    · have hbeginning (hle : above.length ≤ n) : Beginning ((first :: above).map Prod.snd) :=
        .equations h (by simpa using hle) (List.forall_mem_map.mpr habove)
      rcases hcause with ⟨hlt, hfault⟩ | ⟨heq, rfl⟩
      · exact .line (first :: above) below rfl (hbeginning hlt.le)
          (.equation h (by simpa using hlt) hfault)
      · exact .line (first :: above) below rfl (hbeginning heq.le)
          (.excess line h (by simpa using heq.ge))
    · rw [Nat.sub_sub_self hlt.le]
      have hlength : rest.length = (rest.map Prod.snd).length := by simp
      rw [hlength]
      exact .unfinished rfl h (by simpa using hlt) (List.forall_mem_map.mpr hall) getLast?_numbers

/-- A text is rejected for what is wrong with the lines that count. -/
theorem read_eq_error_iff {text : String} :
    read text = .error (.parse number fault) ↔ Rejects (content text) number fault := by
  rw [read]
  cases content text with
  | nil =>
    constructor
    · intro h
      cases h
      exact .blank rfl
    · rintro (- | ⟨above, below, hsplit, -, -⟩ | ⟨hsplit, -, -, -, -⟩)
      · rfl
      · simp at hsplit
      · cases hsplit
  | cons first rest =>
    obtain ⟨k, size⟩ := first
    cases hsize : readSize size with
    | error cause =>
      rw [rejects_iff_of_sizeFault (readSize_eq_error_iff.mp hsize)]
      simp [hsize, eq_comm]
    | ok n =>
      rw [rejects_iff_of_isSize (readSize_eq_ok_iff_isSize.mp hsize),
        ← readEquations_eq_error_iff]
      simp only [hsize]
      cases hrows : readEquations n k n rest with
      | error e =>
        constructor <;> intro h <;> cases h <;> rfl
      | ok rows =>
        obtain ⟨system, hsystem⟩ := ofArray_of_readEquations hrows
        have hread : (do
            let rows ← (Except.ok rows : Except Error (List (List Float)))
            DenseMatrix.ofArray rows.flatten.toArray n (n + 1)) = .ok system := hsystem
        rw [hread]
        constructor <;> intro h <;> cases h

end Reading

end DenseSystem.Exchange
