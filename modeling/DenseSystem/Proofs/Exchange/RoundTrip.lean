import DenseSystem.Exchange.Writer
import DenseSystem.Proofs.Decimal.ReadBack
import DenseSystem.Proofs.Double.Backward
import DenseSystem.Proofs.Exchange.Grammar

/-! # Written systems read back

What is written for a finite system is read as that system, bit for bit. An infinity or NaN is
written too, and the reader names the first line that has one. The text is taken apart as it was put
together: newlines end the lines, tabs separate the words, and no cell has a blank in it.
-/
namespace DenseSystem

/-! ## Words and lines -/

namespace Text

theorem words_dropWhile (cs : List Char) : words (cs.dropWhile isBlank) = words cs := by
  induction cs with
  | nil => rfl
  | cons c cs ih =>
    cases hc : isBlank c with
    | false => rw [List.dropWhile_cons_of_neg (by simp [hc])]
    | true =>
      rw [List.dropWhile_cons_of_pos hc, ih]
      exact (words_append_blank hc [] cs).symm

theorem words_of_blank {blanks : List Char} (h : ∀ c ∈ blanks, isBlank c = true) :
    words blanks = [] := by
  induction blanks with
  | nil => exact words_nil
  | cons c blanks ih =>
    have hrest := ih fun c hc => h c (List.mem_cons_of_mem _ hc)
    rw [← List.nil_append (c :: blanks), words_append_blank (h c List.mem_cons_self), hrest,
      words_nil, List.nil_append]

/-- The blanks around a line are in none of its words. -/
theorem words_trim (cs : List Char) : words (trim cs) = words cs := by
  have hend : ∀ cs : List Char, words (cs.rdropWhile isBlank) = words cs := by
    intro cs
    have hblank : ∀ c ∈ cs.rtakeWhile isBlank, isBlank c = true :=
      fun c hc => List.mem_rtakeWhile_imp hc
    conv_rhs => rw [← List.rdropWhile_append_rtakeWhile (p := isBlank) (l := cs)]
    cases htail : cs.rtakeWhile isBlank with
    | nil => rw [List.append_nil]
    | cons c blanks =>
      rw [htail] at hblank
      rw [words_append_blank (hblank c List.mem_cons_self),
        words_of_blank fun c hc => hblank c (List.mem_cons_of_mem _ hc), List.append_nil]
  rw [← words_dropWhile cs]
  exact hend _

theorem trim_of_no_blank {cs : List Char} (h : ∀ c ∈ cs, isBlank c = false) : trim cs = cs := by
  have hdrop : ∀ cs : List Char, (∀ c ∈ cs, isBlank c = false) → cs.dropWhile isBlank = cs := by
    intro cs h
    rw [List.dropWhile_eq_self_iff]
    intro hlength
    rw [h _ (List.getElem_mem hlength)]
    exact Bool.false_ne_true
  rw [trim, hdrop cs h, hdrop _ fun c hc => h c (List.mem_reverse.mp hc), List.reverse_reverse]

/-- Words with tabs between them are the words of the line. -/
theorem words_intercalate {cells : List (List Char)}
    (h : ∀ cell ∈ cells, cell ≠ [] ∧ ∀ c ∈ cell, isBlank c = false) :
    words (['\t'].intercalate cells) = cells := by
  induction cells with
  | nil => simp [List.intercalate]
  | cons cell cells ih =>
    obtain ⟨hne, hcell⟩ := h cell List.mem_cons_self
    cases cells with
    | nil => rw [List.intercalate_singleton, words_of_no_blank hne hcell]
    | cons next cells =>
      rw [List.intercalate_cons_cons, List.append_assoc, List.singleton_append,
        words_append_blank (by decide), words_of_no_blank hne hcell,
        ih fun cell hcell => h cell (List.mem_cons_of_mem _ hcell)]
      rfl

theorem lines_flatMap {ls : List (List Char)} (h : ∀ l ∈ ls, '\n' ∉ l) :
    lines (ls.flatMap (· ++ ['\n'])) = ls ++ [[]] := by
  induction ls with
  | nil => simp [lines]
  | cons l ls ih =>
    rw [List.flatMap_cons, List.append_assoc, List.singleton_append, lines,
      List.splitOn_append_cons_self_of_not_mem (h l List.mem_cons_self)]
    exact congrArg (l :: ·) (ih fun l hl => h l (List.mem_cons_of_mem _ hl))

end Text

namespace Decimal

theorem isBlank_of_isDigit {c : Char} (hc : c.isDigit) : Text.isBlank c = false := by
  have hrange : 48 ≤ c.toNat ∧ c.toNat ≤ 57 := by
    simpa [Char.isDigit, UInt32.le_iff_toNat_le] using hc
  simp only [Text.isBlank, Bool.or_eq_false_iff, Bool.and_eq_false_iff, decide_eq_false_iff_not,
    beq_eq_false_iff_ne]
  omega

theorem not_blank_of_mem_text {x : Float} {c : Char} (hc : c ∈ (Layout.plain.text x).toList) :
    Text.isBlank c = false := by
  cases h : x.isFinite with
  | false =>
    have hname : ∀ name : String, name.toList.all (!Text.isBlank ·) = true →
        c ∈ name.toList → Text.isBlank c = false := by
      intro name hall hc
      simpa using List.all_eq_true.mp hall c hc
    rcases text_of_not_isFinite h with htext | htext | htext <;> rw [htext] at hc
    · exact hname "NaN" (by decide) hc
    · exact hname "inf" (by decide) hc
    · exact hname "-inf" (by decide) hc
  | true =>
    obtain ⟨digits, leading, htext, hne, hdigits, -⟩ :=
      magnitude_eq_withoutExponent ((Magnitude.isFinite_iff x).mp h)
    have hbody : ∀ c ∈ Layout.plain.withoutExponent digits leading, Text.isBlank c = false := by
      intro c hc
      rcases isDigit_or_point_of_mem hne hdigits hc with hdigit | rfl
      · exact isBlank_of_isDigit hdigit
      · decide
    rw [text_of_isFinite h, htext] at hc
    split at hc
    · rcases List.mem_cons.mp hc with rfl | hc
      · decide
      · exact hbody c hc
    · exact hbody c hc

theorem word?_toDigits {n : ℕ} (h : n < UInt64.size) : word? (Nat.toDigits 10 n) = some n := by
  have hdigits : ∀ c ∈ Nat.toDigits 10 n, c.isDigit := fun c hc =>
    Nat.isDigit_of_mem_toDigits (by decide) (by decide) hc
  unfold word?
  split
  · next rest heq =>
    have hplus : ('+' : Char).isDigit := hdigits '+' (heq ▸ List.mem_cons_self)
    exact absurd hplus (by decide)
  · dsimp only
    rw [natural?_of_isDigit Nat.toDigits_ne_nil hdigits, Nat.ofDigitChars_ten_toDigits]
    simp [Option.filter, h]

end Decimal

namespace Exchange

open Decimal

/-! ## The lines of a written system -/

def rowLine (row : List Float) : List Char :=
  ['\t'].intercalate (row.map fun x => (Layout.plain.text x).toList)

theorem newline_not_mem_rowLine (row : List Float) : '\n' ∉ rowLine row := by
  unfold rowLine
  induction row with
  | nil => simp [List.intercalate]
  | cons x row ih =>
    have hx : '\n' ∉ (Layout.plain.text x).toList := by
      intro hmem
      exact absurd (not_blank_of_mem_text hmem) (by decide)
    cases row with
    | nil => simpa [List.intercalate_singleton] using hx
    | cons y row =>
      rw [List.map_cons, List.map_cons, List.intercalate_cons_cons]
      simp only [List.mem_append, List.mem_singleton, not_or]
      exact ⟨⟨hx, by decide⟩, ih⟩

theorem write_eq {system : DenseMatrix Float} (h : system.isAugmented = true) :
    ∃ text, write system = .ok text ∧
      Text.lines text.toList =
        (Nat.toDigits 10 system.rows :: system.toRows.map rowLine) ++ [[]] := by
  rw [write, DenseMatrix.checkAugmented_of_isAugmented h]
  refine ⟨_, rfl, ?_⟩
  have hlines : ∀ l ∈ Nat.toDigits 10 system.rows :: system.toRows.map rowLine, '\n' ∉ l := by
    intro l hl hmem
    rcases List.mem_cons.mp hl with rfl | hl
    · have hdigit := Nat.isDigit_of_mem_toDigits (by decide) (by decide) hmem
      exact absurd hdigit (by decide)
    · obtain ⟨row, -, rfl⟩ := List.mem_map.mp hl
      exact newline_not_mem_rowLine row hmem
  rw [← Text.lines_flatMap hlines]
  congr 1
  have hsize : (toString system.rows).toList = Nat.toDigits 10 system.rows := Nat.toList_repr
  have hrow : ∀ row : List Float,
      ("\t".intercalate (row.map Layout.plain.text) ++ "\n").toList = rowLine row ++ ['\n'] := by
    intro row
    rw [String.toList_append, String.toList_intercalate, List.map_map]
    rfl
  simp only [String.toList_append, String.toList_join, List.flatMap_map, hrow, hsize,
    List.flatMap_cons]
  rfl

theorem words_rowLine (row : List Float) :
    Text.words (Text.trim (rowLine row)) = row.map fun x => (Layout.plain.text x).toList := by
  rw [Text.words_trim, rowLine, Text.words_intercalate]
  intro cell hcell
  obtain ⟨x, -, rfl⟩ := List.mem_map.mp hcell
  exact ⟨text_ne_nil x, fun c hc => not_blank_of_mem_text hc⟩

theorem trim_rowLine_ne_nil {row : List Float} (h : row ≠ []) : Text.trim (rowLine row) ≠ [] := by
  intro hnil
  have hwords := words_rowLine row
  rw [hnil, Text.words_nil] at hwords
  exact h (List.map_eq_nil_iff.mp hwords.symm)

/-! ## Cells, rows and systems read back -/

theorem readCell_text (x : Float) :
    readCell (Layout.plain.text x).toList =
      if x.isFinite then .ok x else .error (.infiniteCell (Layout.plain.text x)) := by
  cases h : x.isFinite with
  | true =>
    rw [readCell, float?_text h]
    exact if_pos h
  | false =>
    obtain ⟨y, hread, hy⟩ := float?_text_of_not_isFinite h
    rw [readCell, hread]
    dsimp only
    rw [hy, String.ofList_toList]
    rfl

theorem mapM_readCell_of_isFinite {row : List Float} (h : ∀ x ∈ row, x.isFinite = true) :
    (row.map fun x => (Layout.plain.text x).toList).mapM readCell = .ok row := by
  rw [mapM_eq_ok_iff, List.forall₂_map_left_iff, List.forall₂_same]
  intro x hx
  rw [readCell_text, if_pos (h x hx)]

theorem readEquation_rowLine {n : ℕ} {row : List Float} (hlength : row.length = n + 1)
    (h : ∀ x ∈ row, x.isFinite = true) :
    readEquation n (Text.trim (rowLine row)) = .ok row := by
  rw [readEquation, words_rowLine, mapM_readCell_of_isFinite h]
  exact if_pos hlength

/-- The first cell without finite value is the one that is reported. -/
theorem readEquation_rowLine_error {n : ℕ} {before after : List Float} {x : Float}
    (hbefore : ∀ x ∈ before, x.isFinite = true) (hx : x.isFinite = false) :
    readEquation n (Text.trim (rowLine (before ++ x :: after))) =
      .error (.infiniteCell (Layout.plain.text x)) := by
  rw [readEquation, words_rowLine, List.map_append, List.map_cons, List.mapM_append,
    mapM_readCell_of_isFinite hbefore, List.mapM_cons, readCell_text, hx]
  rfl

section Lines

variable {n last : ℕ}

theorem numbered_rowLine {number : ℕ} {row : List Float} (hrow : row ≠ [])
    (lines : List (List Char)) :
    numbered number (rowLine row :: lines) =
      (number, Text.trim (rowLine row)) :: numbered (number + 1) lines := by
  rw [numbered_cons, if_neg (by simpa using trim_rowLine_ne_nil hrow)]
  rfl

theorem readEquations_rowLines {rows : List (List Float)} (number : ℕ)
    (hlength : ∀ row ∈ rows, row.length = n + 1) (h : ∀ row ∈ rows, ∀ x ∈ row, x.isFinite = true) :
    readEquations n last rows.length (numbered number (rows.map rowLine ++ [[]])) = .ok rows := by
  induction rows generalizing number last with
  | nil => rfl
  | cons row rows ih =>
    have hrow := hlength row List.mem_cons_self
    rw [List.map_cons, List.cons_append, numbered_rowLine (by rintro rfl; cases hrow),
      List.length_cons, readEquations, readEquation_rowLine hrow (h row List.mem_cons_self)]
    dsimp only
    rw [ih _ (fun row hrow => hlength row (List.mem_cons_of_mem _ hrow))
      fun row hrow => h row (List.mem_cons_of_mem _ hrow)]
    rfl

theorem readEquations_rowLines_error {done rest : List (List Float)} {bad : List Float}
    {fault : Fault} (number : ℕ) (hlength : ∀ row ∈ done, row.length = n + 1)
    (h : ∀ row ∈ done, ∀ x ∈ row, x.isFinite = true) (hbad : bad ≠ [])
    (hfault : readEquation n (Text.trim (rowLine bad)) = .error fault) :
    readEquations n last (done ++ bad :: rest).length
        (numbered number ((done ++ bad :: rest).map rowLine ++ [[]])) =
      .error (.parse (number + done.length) fault) := by
  induction done generalizing number last with
  | nil =>
    rw [List.nil_append, List.map_cons, List.cons_append, numbered_rowLine hbad, List.length_cons,
      readEquations, hfault]
    rfl
  | cons row done ih =>
    have hrow := hlength row List.mem_cons_self
    rw [List.cons_append, List.map_cons, List.cons_append,
      numbered_rowLine (by rintro rfl; cases hrow), List.length_cons, readEquations,
      readEquation_rowLine hrow (h row List.mem_cons_self)]
    dsimp only
    rw [ih _ (fun row hrow => hlength row (List.mem_cons_of_mem _ hrow))
      fun row hrow => h row (List.mem_cons_of_mem _ hrow), List.length_cons, Nat.add_right_comm,
      Nat.add_assoc]
    rfl

end Lines

/-! ## The whole text -/

section Whole

variable {system : DenseMatrix Float}

theorem content_of_lines {text : String} {n : ℕ} {rows : List (List Float)}
    (h : Text.lines text.toList = (Nat.toDigits 10 n :: rows.map rowLine) ++ [[]]) :
    content text = (1, Nat.toDigits 10 n) :: numbered 2 (rows.map rowLine ++ [[]]) := by
  have htrim : Text.trim (Nat.toDigits 10 n) = Nat.toDigits 10 n :=
    Text.trim_of_no_blank fun c hc =>
      isBlank_of_isDigit (Nat.isDigit_of_mem_toDigits (by decide) (by decide) hc)
  rw [content_eq, h, List.cons_append, numbered_cons, htrim,
    if_neg (by simp)]
  rfl

theorem read_of_lines {text : String} {n : ℕ} {rows : List (List Float)} (hpos : 1 ≤ n)
    (hfits : n * (n + 1) < UInt64.size)
    (h : Text.lines text.toList = (Nat.toDigits 10 n :: rows.map rowLine) ++ [[]]) :
    read text = readEquations n 1 n (numbered 2 (rows.map rowLine ++ [[]])) >>= fun rows =>
      DenseMatrix.ofArray rows.flatten.toArray n (n + 1) := by
  have hword : n < UInt64.size := (Nat.le_mul_of_pos_right n (Nat.succ_pos n)).trans_lt hfits
  rw [read, content_of_lines h]
  dsimp only
  rw [readSize_eq_ok_iff.mpr ⟨word?_toDigits hword, hpos, hfits⟩]

structure FirstUnreadable (system : DenseMatrix Float) (i j : ℕ) : Prop where
  row_lt : i < system.rows
  col_lt : j < system.cols
  not_finite : (system.entry i j).isFinite = false
  rows_before : ∀ k < i, ∀ l < system.cols, (system.entry k l).isFinite = true
  cells_before : ∀ l < j, (system.entry i l).isFinite = true

theorem exists_firstUnreadable (h : system.isFinite = false) :
    ∃ i j, FirstUnreadable system i j := by
  have hsome : ∃ i, i < system.rows ∧ ∃ j, j < system.cols ∧ (system.entry i j).isFinite = false := by
    by_contra hnone
    have hfinite : system.isFinite = true := by
      rw [DenseMatrix.isFinite_iff]
      intro i hi j hj
      by_contra hcell
      exact hnone ⟨i, hi, j, hj, Bool.eq_false_iff.mpr hcell⟩
    rw [h] at hfinite
    cases hfinite
  classical
  obtain ⟨hi, hrow⟩ := Nat.find_spec hsome
  obtain ⟨hj, hcell⟩ := Nat.find_spec hrow
  refine ⟨Nat.find hsome, Nat.find hrow, hi, hj, hcell, fun k hk l hl => ?_, fun l hl => ?_⟩
  · by_contra hcell
    exact Nat.find_min hsome hk ⟨hk.trans hi, l, hl, Bool.eq_false_iff.mpr hcell⟩
  · by_contra hcell
    exact Nat.find_min hrow hl ⟨hl.trans hj, Bool.eq_false_iff.mpr hcell⟩

theorem range_eq_append {i n : ℕ} (h : i < n) :
    List.range n = List.range i ++ i :: (List.range (n - i - 1)).map (i + 1 + ·) := by
  obtain ⟨k, rfl⟩ := Nat.exists_eq_add_of_lt h
  have hrest : i + k + 1 - i - 1 = k := by omega
  rw [hrest, Nat.add_assoc, List.range_add, Nat.add_comm k 1, List.range_add, List.map_append,
    List.map_map]
  simp [Function.comp_def, Nat.add_assoc]

theorem length_toRows (h : 0 < system.cols) : system.toRows.length = system.rows := by
  rw [toRows_eq h, List.length_map, List.length_range]

theorem readEquations_toRows (hpos : 0 < system.cols) (hcols : system.cols = system.rows + 1)
    (hfinite : system.isFinite = true) :
    readEquations system.rows 1 system.rows (numbered 2 (system.toRows.map rowLine ++ [[]])) =
      .ok system.toRows := by
  have hentries := DenseMatrix.isFinite_iff.mp hfinite
  have hall : ∀ row ∈ system.toRows, ∀ x ∈ row, x.isFinite = true := by
    intro row hrow x hx
    rw [toRows_eq hpos] at hrow
    obtain ⟨i, hi, rfl⟩ := List.mem_map.mp hrow
    obtain ⟨j, hj, rfl⟩ := List.mem_map.mp hx
    exact hentries i (List.mem_range.mp hi) j (List.mem_range.mp hj)
  have hread : readEquations system.rows 1 system.toRows.length
      (numbered 2 (system.toRows.map rowLine ++ [[]])) = .ok system.toRows :=
    readEquations_rowLines 2 (hcols ▸ length_of_mem_toRows hpos) hall
  rwa [length_toRows hpos] at hread

theorem readEquation_firstUnreadable {i j : ℕ} (h : FirstUnreadable system i j) :
    readEquation system.rows
        (Text.trim (rowLine ((List.range system.cols).map (system.entry i)))) =
      .error (.infiniteCell (Layout.plain.text (system.entry i j))) := by
  rw [range_eq_append h.col_lt, List.map_append, List.map_cons]
  refine readEquation_rowLine_error (fun x hx => ?_) h.not_finite
  obtain ⟨l, hl, rfl⟩ := List.mem_map.mp hx
  exact h.cells_before l (List.mem_range.mp hl)

theorem readEquations_firstUnreadable {i j : ℕ} (hcols : system.cols = system.rows + 1)
    (h : FirstUnreadable system i j) :
    readEquations system.rows 1 system.rows (numbered 2 (system.toRows.map rowLine ++ [[]])) =
      .error (.parse (2 + i) (.infiniteCell (Layout.plain.text (system.entry i j)))) := by
  have hpos : 0 < system.cols := Nat.zero_lt_of_lt h.col_lt
  have hlength := length_of_mem_toRows hpos
  have hsplit := toRows_eq hpos
  rw [range_eq_append h.row_lt, List.map_append, List.map_cons] at hsplit
  have hread : readEquations system.rows 1 system.toRows.length
      (numbered 2 (system.toRows.map rowLine ++ [[]])) =
        .error (.parse (2 + i) (.infiniteCell (Layout.plain.text (system.entry i j)))) := by
    rw [hsplit]
    refine (readEquations_rowLines_error 2 (fun row hrow => ?_) (fun row hrow x hx => ?_)
      (by simp [hcols]) (readEquation_firstUnreadable h)).trans ?_
    · rw [← hcols]
      exact hlength row (hsplit ▸ List.mem_append_left _ hrow)
    · obtain ⟨k, hk, rfl⟩ := List.mem_map.mp hrow
      obtain ⟨l, hl, rfl⟩ := List.mem_map.mp hx
      exact h.rows_before k (List.mem_range.mp hk) l (List.mem_range.mp hl)
    · rw [List.length_map, List.length_range]
  rwa [length_toRows hpos] at hread

/-- The system is read back if it is finite. Otherwise its first cell that is not finite is
reported. -/
theorem read_of_write (haugmented : system.isAugmented = true)
    (hfits : system.rows * system.cols < UInt64.size) :
    ∃ text, write system = .ok text ∧
      (system.isFinite = true → read text = .ok system) ∧
      ∀ i j, FirstUnreadable system i j → read text =
        .error (.parse (2 + i) (.infiniteCell (Layout.plain.text (system.entry i j)))) := by
  obtain ⟨hrows, hcols⟩ := DenseMatrix.isAugmented_iff.mp haugmented
  have hpos : 0 < system.cols := by omega
  obtain ⟨text, htext, hlines⟩ := write_eq haugmented
  rw [hcols] at hfits
  refine ⟨text, htext, fun hfinite => ?_, fun i j hfirst => ?_⟩ <;>
    rw [read_of_lines hrows hfits hlines]
  · rw [readEquations_toRows hpos hcols hfinite]
    exact ofArray_eq_ok_iff.mpr ⟨rfl, hcols, (flatten_toRows hpos).symm⟩
  · rw [readEquations_firstUnreadable hcols hfirst]
    rfl

theorem writable_of_read {text : String} (h : read text = .ok system) :
    system.isAugmented = true ∧ system.isFinite = true ∧
      system.rows * system.cols < UInt64.size := by
  obtain ⟨⟨hpos, hcols, size, equations, -, -, hlength, hdescribes⟩, hfits⟩ := read_eq_ok_iff.mp h
  refine ⟨DenseMatrix.isAugmented_iff.mpr ⟨hpos, hcols⟩, ?_, hcols ▸ hfits⟩
  rw [DenseMatrix.isFinite_iff]
  intro i hi j hj
  obtain ⟨hwords, hcells⟩ := hdescribes i (hlength ▸ hi)
  exact (hcells j (by rw [hwords, ← hcols]; exact hj)).2

/-- Every augmented system whose entries can be counted in a machine word is written. Read back, it
is the same in all bits if it is finite; if not, the line of its first row with an infinity or NaN is
reported. And what is read from any text is written so that it is read again. -/
theorem read_write :
    (∀ system : DenseMatrix Float, system.isAugmented = true →
      system.rows * system.cols < UInt64.size →
        ∃ text, write system = .ok text ∧
          (system.isFinite = true → read text = .ok system) ∧
          (system.isFinite = false → ∃ i j, FirstUnreadable system i j ∧ read text =
            .error (.parse (2 + i) (.infiniteCell (Layout.plain.text (system.entry i j)))))) ∧
      ∀ (text : String) (system : DenseMatrix Float), read text = .ok system →
        ∃ text', write system = .ok text' ∧ read text' = .ok system := by
  refine ⟨fun system haugmented hfits => ?_, fun text system h => ?_⟩
  · obtain ⟨text, hwrite, hfinite, hunreadable⟩ := read_of_write haugmented hfits
    refine ⟨text, hwrite, hfinite, fun hinfinite => ?_⟩
    obtain ⟨i, j, hfirst⟩ := exists_firstUnreadable hinfinite
    exact ⟨i, j, hfirst, hunreadable i j hfirst⟩
  · obtain ⟨haugmented, hfinite, hfits⟩ := writable_of_read h
    obtain ⟨text', hwrite, hread, -⟩ := read_of_write haugmented hfits
    exact ⟨text', hwrite, hread hfinite⟩

/-- Negative zero and the least double come back; an infinity is reported. -/
theorem read_write_least_and_infinite :
    let least : DenseMatrix Float := ⟨1, 2, #[-0.0, Float.ofBits 1], rfl⟩
    let infinite : DenseMatrix Float := ⟨1, 2, #[1.0, 1.0 / 0.0], rfl⟩
    let tenth : DenseMatrix Float := ⟨1, 2, #[-0.0, 0.1], rfl⟩
    (least.isAugmented = true ∧ least.rows * least.cols < UInt64.size ∧ least.isFinite = true ∧
      ∃ text, write least = .ok text ∧ read text = .ok least) ∧
    (infinite.isAugmented = true ∧ infinite.rows * infinite.cols < UInt64.size ∧
      infinite.isFinite = false ∧ ∃ text, write infinite = .ok text ∧ ∃ i j,
        FirstUnreadable infinite i j ∧ read text =
          .error (.parse (2 + i) (.infiniteCell (Layout.plain.text (infinite.entry i j))))) ∧
    read "\n1\n -0 \t+.1" = .ok tenth ∧
      ∃ text', write tenth = .ok text' ∧ read text' = .ok tenth := by
  intro least infinite tenth
  obtain ⟨hwrite, hagain⟩ := read_write
  have hleast : least.isFinite = true := by decide +kernel
  have hinfinite : infinite.isFinite = false := by decide +kernel
  have hread : read "\n1\n -0 \t+.1" = .ok tenth := rfl
  obtain ⟨text, htext, hback, -⟩ := hwrite least rfl (by decide)
  obtain ⟨text', htext', -, hreport⟩ := hwrite infinite rfl (by decide)
  exact ⟨⟨rfl, by decide, hleast, text, htext, hback hleast⟩,
    ⟨rfl, by decide, hinfinite, text', htext', hreport hinfinite⟩, hread, hagain _ _ hread⟩

end Whole

end Exchange

end DenseSystem
