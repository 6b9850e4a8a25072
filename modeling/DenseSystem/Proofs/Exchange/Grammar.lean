import Mathlib
import DenseSystem.Exchange.Reader

/-! # The grammar of exchanged texts

The reader accepts the texts of a grammar that knows nothing of reading order, line numbers or
faults, and gives the matrix that the grammar assigns to them. A text of the grammar has a character
for each entry, so the number of its entries always fits into a machine word.
-/
namespace DenseSystem.Exchange

/-- The lines of a text that count, without the blanks around them. -/
def contentLines (text : String) : List (List Char) :=
  ((Text.lines text.toList).map Text.trim).filter (!·.isEmpty)

def Denotes (word : List Char) (x : Float) : Prop :=
  Decimal.float? word = some x ∧ x.isFinite = true

def DescribesRow (n : ℕ) (line : List Char) (row : ℕ → Float) : Prop :=
  (Text.words line).length = n + 1 ∧
    ∀ j (hj : j < (Text.words line).length), Denotes (Text.words line)[j] (row j)

/-- A line with the number of unknowns, then a line for each equation, and nothing else. -/
def Describes (text : String) (system : DenseMatrix Float) : Prop :=
  1 ≤ system.rows ∧ system.cols = system.rows + 1 ∧
    ∃ size equations, contentLines text = size :: equations ∧
      Decimal.word? size = some system.rows ∧ equations.length = system.rows ∧
      ∀ i (hi : i < equations.length), DescribesRow system.rows equations[i] (system.entry i)

/-! ## Words in a text -/

section Count

theorem flatten_splitOnP {β : Type} (p : β → Bool) (cs : List β) :
    (cs.splitOnP p).flatten = cs.filter (!p ·) := by
  induction cs with
  | nil => simp [List.splitOnP_nil]
  | cons c cs ih =>
    rw [List.splitOnP_cons_eq_if_modifyHead]
    cases hc : p c with
    | true => simp [hc, ih]
    | false =>
      obtain ⟨first, others, hsplit⟩ := List.exists_cons_of_ne_nil (List.splitOnP_ne_nil p cs)
      rw [hsplit] at ih ⊢
      rw [List.filter_cons_of_pos (by simp [hc]), ← ih]
      rfl

theorem length_splitOnP {β : Type} (p : β → Bool) (cs : List β) :
    (cs.splitOnP p).length = (cs.filter p).length + 1 := by
  induction cs with
  | nil => simp [List.splitOnP_nil]
  | cons c cs ih =>
    rw [List.splitOnP_cons_eq_if_modifyHead]
    cases hc : p c with
    | true => simp [hc, ih]
    | false => simp [hc, ih]

/-- Words have a character at least, and a blank between any two of them. -/
theorem two_mul_length_words_le (line : List Char) :
    2 * (Text.words line).length ≤ line.length + 1 := by
  have hpieces : (Text.words line).length ≤ (line.filter Text.isBlank).length + 1 := by
    rw [← length_splitOnP]
    exact List.length_filter_le _ _
  have hflatten : (Text.words line).flatten = line.filter (!Text.isBlank ·) := by
    rw [Text.words, List.flatten_filter_not_isEmpty, flatten_splitOnP]
  have hcount : (Text.words line).length ≤ (Text.words line).flatten.length := by
    rw [List.length_flatten]
    calc (Text.words line).length = (Text.words line).length • 1 := (Nat.mul_one _).symm
      _ = ((Text.words line).map List.length).length • 1 := by rw [List.length_map]
      _ ≤ ((Text.words line).map List.length).sum := by
        refine List.card_nsmul_le_sum _ _ fun k hk => ?_
        obtain ⟨word, hword, rfl⟩ := List.mem_map.mp hk
        have hne := (List.mem_filter.mp hword).2
        exact List.length_pos_iff.mpr (by simpa using hne)
  rw [hflatten] at hcount
  have := List.length_eq_length_filter_add (l := line) Text.isBlank
  omega

theorem length_trim_le (line : List Char) : (Text.trim line).length ≤ line.length := by
  rw [Text.trim, List.length_reverse]
  calc _ ≤ (line.dropWhile Text.isBlank).reverse.length := List.length_dropWhile_le _ _
    _ ≤ line.length := by
      rw [List.length_reverse]
      exact List.length_dropWhile_le _ _

theorem sum_length_lines (cs : List Char) :
    ((Text.lines cs).map fun line => line.length + 1).sum = cs.length + 1 := by
  have hflatten : ((Text.lines cs).map List.length).sum = (cs.filter (!· == '\n')).length := by
    rw [← List.length_flatten, Text.lines, List.splitOn, flatten_splitOnP]
  have hlength : (Text.lines cs).length = (cs.filter (· == '\n')).length + 1 := length_splitOnP _ _
  have := List.length_eq_length_filter_add (l := cs) (· == '\n')
  rw [List.sum_map_add, hflatten, List.map_const', List.sum_replicate, hlength, smul_eq_mul]
  omega

def wordsIn (lines : List (List Char)) : ℕ := (lines.map fun line => (Text.words line).length).sum

theorem wordsIn_cons (line : List Char) (lines : List (List Char)) :
    wordsIn (line :: lines) = (Text.words line).length + wordsIn lines := by
  rw [wordsIn, List.map_cons, List.sum_cons, wordsIn]

theorem two_mul_wordsIn_le (text : String) :
    2 * wordsIn (contentLines text) ≤ text.toList.length + 1 := by
  rw [wordsIn, ← List.sum_map_mul_left]
  calc ((contentLines text).map fun line => 2 * (Text.words line).length).sum
      ≤ (((Text.lines text.toList).map Text.trim).map
          fun line => 2 * (Text.words line).length).sum :=
        (List.filter_sublist.map _).sum_le_sum fun _ _ => Nat.zero_le _
    _ ≤ ((Text.lines text.toList).map fun line => line.length + 1).sum := by
        rw [List.map_map]
        exact List.sum_le_sum fun line _ => (two_mul_length_words_le _).trans
          (Nat.succ_le_succ (length_trim_le line))
    _ = text.toList.length + 1 := sum_length_lines text.toList

theorem length_toList_le (text : String) : text.toList.length ≤ text.utf8ByteSize := by
  have hlist : ∀ cs : List Char, cs.length ≤ String.utf8Len cs := by
    intro cs
    induction cs with
    | nil => exact Nat.zero_le _
    | cons c cs ih =>
      have := c.utf8Size_pos
      rw [String.utf8Len_cons, List.length_cons]
      omega
  have h := hlist text.toList
  rwa [← String.utf8ByteSize_ofList, String.ofList_toList] at h

/-- Every entry of a described system is a word of the text. -/
theorem entries_le_of_describes {text : String} {system : DenseMatrix Float}
    (h : Describes text system) : system.rows * (system.rows + 1) ≤ text.utf8ByteSize := by
  obtain ⟨hpos, -, size, equations, hcontent, -, hlength, hrows⟩ := h
  have hentries : system.rows * (system.rows + 1) = wordsIn equations := by
    rw [wordsIn, ← hlength, ← smul_eq_mul, ← List.sum_replicate, ← List.map_const']
    refine congrArg List.sum (List.map_congr_left fun line hline => ?_)
    obtain ⟨i, hi, rfl⟩ := List.mem_iff_getElem.mp hline
    rw [(hrows i hi).1, hlength]
  have hle : wordsIn equations ≤ wordsIn (contentLines text) := by
    rw [hcontent, wordsIn_cons]
    exact Nat.le_add_left _ _
  have := two_mul_wordsIn_le text
  have := length_toList_le text
  have : 2 ≤ system.rows * (system.rows + 1) := Nat.mul_le_mul hpos (Nat.succ_le_succ hpos)
  omega

end Count

/-! ## What the reader accepts -/

theorem mapM_eq_ok_iff {ε β γ : Type} {f : β → Except ε γ} {xs : List β} {ys : List γ} :
    xs.mapM f = .ok ys ↔ List.Forall₂ (fun x y => f x = .ok y) xs ys := by
  induction xs generalizing ys with
  | nil =>
    rw [List.forall₂_nil_left_iff]
    exact ⟨fun h => (Except.ok.inj h).symm, fun h => congrArg Except.ok h.symm⟩
  | cons x xs ih =>
    rw [List.mapM_cons, List.forall₂_cons_left_iff]
    constructor
    · intro h
      cases hx : f x with
      | error e =>
        rw [hx] at h
        cases h
      | ok y =>
        cases hxs : xs.mapM f with
        | error e =>
          rw [hx, hxs] at h
          cases h
        | ok zs =>
          rw [hx, hxs] at h
          cases h
          exact ⟨y, zs, rfl, ih.mp hxs, rfl⟩
    · rintro ⟨y, zs, hx, hxs, rfl⟩
      rw [hx, ih.mpr hxs]
      rfl

theorem readCell_eq_ok_iff {word : List Char} {x : Float} :
    readCell word = .ok x ↔ Denotes word x := by
  unfold readCell Denotes
  cases hword : Decimal.float? word with
  | none => simp
  | some y =>
    cases hy : y.isFinite with
    | false =>
      simp only [hy, Bool.false_eq_true, if_false, reduceCtorEq, Option.some.injEq, false_iff]
      rintro ⟨rfl, hx⟩
      rw [hy] at hx
      cases hx
    | true =>
      simp only [hy, if_true, Except.ok.injEq, Option.some.injEq]
      exact ⟨fun h => ⟨h, h ▸ hy⟩, fun h => h.1⟩

theorem readEquation_eq_ok_iff {n : ℕ} {line : List Char} {row : List Float} :
    readEquation n line = .ok row ↔
      row.length = n + 1 ∧ List.Forall₂ Denotes (Text.words line) row := by
  have hcells : (Text.words line).mapM readCell = .ok row ↔
      List.Forall₂ Denotes (Text.words line) row := by
    simp only [mapM_eq_ok_iff, readCell_eq_ok_iff]
  rw [← hcells, readEquation]
  cases h : (Text.words line).mapM readCell with
  | error fault =>
    constructor
    · intro hok
      cases hok
    · rintro ⟨-, hok⟩
      cases hok
  | ok cells =>
    change (if cells.length = n + 1 then Except.ok cells else _) = _ ↔ _
    split
    · next hlength =>
      exact ⟨fun hok => by cases hok; exact ⟨hlength, rfl⟩, fun hok => hok.2⟩
    · next hlength =>
      constructor
      · intro hok
        cases hok
      · rintro ⟨hrow, hok⟩
        cases hok
        exact absurd hrow hlength

variable {n last left : ℕ} {lines : List (ℕ × List Char)} {rows : List (List Float)}

theorem readEquations_eq_ok_iff :
    readEquations n last left lines = .ok rows ↔ lines.length = left ∧
      List.Forall₂ (fun line row => readEquation n line.2 = .ok row) lines rows := by
  fun_induction readEquations n last left lines generalizing rows with
  | case1 => simp [eq_comm]
  | case2 => simp
  | case3 => simp
  | case4 last left number line rest fault hline =>
    rw [List.forall₂_cons_left_iff]
    simp [hline]
  | case5 last left number line rest row hline ih =>
    rw [List.forall₂_cons_left_iff]
    simp only [hline, List.length_cons, Nat.succ_eq_add_one, Nat.add_right_cancel_iff,
      Except.ok.injEq]
    cases hrest : readEquations n number left rest with
    | error e =>
      rw [hrest] at ih
      constructor
      · intro h
        cases h
      · rintro ⟨hlength, -, others, -, hothers, -⟩
        cases ih.mpr ⟨hlength, hothers⟩
    | ok others =>
      rw [hrest] at ih
      constructor
      · intro h
        cases h
        obtain ⟨hlength, hothers⟩ := ih.mp rfl
        exact ⟨hlength, row, others, rfl, hothers, rfl⟩
      · rintro ⟨hlength, -, others', rfl, hothers, rfl⟩
        cases ih.mpr ⟨hlength, hothers⟩
        rfl

theorem readEquations_error {e : Error} (h : readEquations n last left lines = .error e) :
    ∃ line fault, e = .parse line fault := by
  fun_induction readEquations n last left lines with
  | case1 => cases h
  | case2 => exact ⟨_, _, (Except.error.inj h).symm⟩
  | case3 => exact ⟨_, _, (Except.error.inj h).symm⟩
  | case4 => exact ⟨_, _, (Except.error.inj h).symm⟩
  | case5 last left number line rest row hline ih =>
    cases hrest : readEquations n number left rest with
    | error e' =>
      rw [hrest] at h
      cases h
      exact ih hrest
    | ok others =>
      rw [hrest] at h
      cases h

/-! ## Rows in one array -/

section Rows

variable {α : Type} {width i j : ℕ}

theorem length_flatten_of_length {rows : List (List α)}
    (hlength : ∀ row ∈ rows, row.length = width) :
    rows.flatten.length = rows.length * width := by
  rw [List.length_flatten, List.map_congr_left hlength, List.map_const', List.sum_replicate,
    smul_eq_mul]

variable [Zero α]

theorem getD_flatten {rows : List (List α)} (hlength : ∀ row ∈ rows, row.length = width)
    (hi : i < rows.length) (hj : j < width) :
    rows.flatten.getD (i * width + j) 0 = rows[i].getD j 0 := by
  induction rows generalizing i with
  | nil => cases hi
  | cons row rows ih =>
    have hrow := hlength row List.mem_cons_self
    cases i with
    | zero =>
      rw [List.flatten_cons, Nat.zero_mul, Nat.zero_add, List.getElem_cons_zero,
        List.getD_append _ _ _ _ (by omega)]
    | succ i =>
      have hshift : (i + 1) * width + j - row.length = i * width + j := by
        rw [Nat.succ_mul, hrow]
        omega
      rw [List.flatten_cons, List.getElem_cons_succ, List.getD_append_right _ _ _ _
        (by rw [hrow, Nat.succ_mul]; omega), hshift]
      exact ih (fun row hrow => hlength row (List.mem_cons_of_mem _ hrow)) (by simpa using hi)

/-- Rows of one length, put into an array one after the other, are the rows of the matrix. -/
theorem entry_of_flatten {system : DenseMatrix α} {rows : List (List α)}
    (hdata : system.data = rows.flatten.toArray)
    (hlength : ∀ row ∈ rows, row.length = system.cols) (hi : i < rows.length)
    (hj : j < system.cols) : system.entry i j = rows[i].getD j 0 := by
  rw [DenseMatrix.entry, if_pos hj, hdata, ← getD_flatten hlength hi hj]
  simp [Array.getD_eq_getD_getElem?, List.getD_eq_getElem?_getD]

theorem toRows_eq {system : DenseMatrix α} (h : 0 < system.cols) :
    system.toRows =
      (List.range system.rows).map fun i => (List.range system.cols).map (system.entry i) :=
  if_neg h.ne'

theorem length_of_mem_toRows {system : DenseMatrix α} (h : 0 < system.cols) :
    ∀ row ∈ system.toRows, row.length = system.cols := by
  intro row hrow
  rw [toRows_eq h] at hrow
  obtain ⟨i, -, rfl⟩ := List.mem_map.mp hrow
  rw [List.length_map, List.length_range]

theorem flatten_toRows {system : DenseMatrix α} (h : 0 < system.cols) :
    system.toRows.flatten.toArray = system.data := by
  have hlength := length_of_mem_toRows h
  have hrows : system.toRows.length = system.rows := by
    rw [toRows_eq h, List.length_map, List.length_range]
  have hsize : system.toRows.flatten.toArray.size = system.rows * system.cols := by
    rw [List.size_toArray, length_flatten_of_length hlength, hrows]
  let copy : DenseMatrix α := ⟨system.rows, system.cols, system.toRows.flatten.toArray, hsize⟩
  have hlength' : ∀ row ∈ system.toRows, row.length = copy.cols := hlength
  have hself : copy = system := by
    refine DenseMatrix.ext_entry rfl rfl fun i hi j hj => ?_
    have hj' : j < system.cols := hj
    rw [entry_of_flatten rfl hlength' (hrows.symm ▸ hi) hj]
    simp [toRows_eq h, hj']
  exact congrArg DenseMatrix.data hself

end Rows

/-! ## The reader and the grammar -/

/-- The lines that count, with the number of the first line to come. -/
def numbered (number : ℕ) (lines : List (List Char)) : List (ℕ × List Char) :=
  (lines.zipIdx number).filterMap fun (line, number) =>
    if (Text.trim line).isEmpty then none else some (number, Text.trim line)

theorem numbered_cons (number : ℕ) (line : List Char) (lines : List (List Char)) :
    numbered number (line :: lines) =
      (if (Text.trim line).isEmpty then [] else [(number, Text.trim line)]) ++
        numbered (number + 1) lines := by
  by_cases h : Text.trim line = [] <;> simp [numbered, List.zipIdx_cons, h]

theorem content_eq (text : String) : content text = numbered 1 (Text.lines text.toList) := rfl

theorem map_numbered (number : ℕ) (lines : List (List Char)) :
    (numbered number lines).map Prod.snd = (lines.map Text.trim).filter (!·.isEmpty) := by
  induction lines generalizing number with
  | nil => rfl
  | cons line lines ih =>
    rw [numbered_cons, List.map_append, ih, List.map_cons, List.filter_cons]
    cases (Text.trim line).isEmpty <;> rfl

theorem map_content (text : String) : (content text).map Prod.snd = contentLines text :=
  map_numbered 1 _

theorem describes_iff {text : String} {system : DenseMatrix Float} :
    Describes text system ↔ 1 ≤ system.rows ∧ system.cols = system.rows + 1 ∧
      ∃ size equations rows, contentLines text = size :: equations ∧
        Decimal.word? size = some system.rows ∧ equations.length = system.rows ∧
        List.Forall₂ (fun line row => readEquation system.rows line = .ok row) equations rows ∧
        system.data = rows.flatten.toArray := by
  unfold Describes
  refine and_congr_right fun hrows => and_congr_right fun hcols => ?_
  constructor
  · rintro ⟨size, equations, hcontent, hsize, hlength, hdescribes⟩
    have hpos : 0 < system.cols := by omega
    refine ⟨size, equations, system.toRows, hcontent, hsize, hlength, ?_,
      (flatten_toRows hpos).symm⟩
    rw [toRows_eq hpos, List.forall₂_iff_get]
    refine ⟨by simp [hlength], fun i hi hi' => ?_⟩
    obtain ⟨hwords, hcells⟩ := hdescribes i hi
    rw [readEquation_eq_ok_iff, List.forall₂_iff_get]
    refine ⟨by simp [hcols], by simp [hwords, hcols], fun j hj hj' => ?_⟩
    simpa using hcells j hj
  · rintro ⟨size, equations, rows, hcontent, hsize, hlength, hread, hdata⟩
    refine ⟨size, equations, hcontent, hsize, hlength, fun i hi => ?_⟩
    rw [List.forall₂_iff_get] at hread
    obtain ⟨hcount, hread⟩ := hread
    have hrow : ∀ row ∈ rows, row.length = system.cols := by
      intro row hrow
      obtain ⟨k, hk, rfl⟩ := List.mem_iff_getElem.mp hrow
      rw [hcols]
      exact (readEquation_eq_ok_iff.mp (hread k (hcount ▸ hk) hk)).1
    have hi' : i < rows.length := hcount ▸ hi
    obtain ⟨hlen, hcells⟩ := readEquation_eq_ok_iff.mp (hread i hi hi')
    rw [List.forall₂_iff_get] at hcells
    obtain ⟨hwords, hcells⟩ := hcells
    refine ⟨hwords.trans hlen, fun j hj => ?_⟩
    have hj' : j < rows[i].length := hwords ▸ hj
    rw [entry_of_flatten hdata hrow hi' (hcols ▸ hlen ▸ hj'), List.getD_eq_getElem _ _ hj']
    exact hcells j hj hj'

theorem readSize_of_word? {line : List Char} {n : ℕ} (hline : Decimal.word? line = some n)
    (hpos : 0 < n) :
    readSize line =
      if n * (n + 1) < UInt64.size then .ok n else .error (.tooManyUnknowns n) := by
  obtain ⟨k, rfl⟩ := Nat.exists_eq_succ_of_ne_zero hpos.ne'
  rw [readSize, hline]
  rfl

theorem readSize_eq_ok_iff {line : List Char} {n : ℕ} :
    readSize line = .ok n ↔
      Decimal.word? line = some n ∧ 1 ≤ n ∧ n * (n + 1) < UInt64.size := by
  constructor
  · intro h
    cases hline : Decimal.word? line with
    | none =>
      rw [readSize, hline] at h
      cases h
    | some k =>
      rcases Nat.eq_zero_or_pos k with rfl | hpos
      · rw [readSize, hline] at h
        cases h
      · rw [readSize_of_word? hline hpos] at h
        split at h <;> cases h
        exact ⟨rfl, hpos, ‹_›⟩
  · rintro ⟨hline, hpos, hfits⟩
    rw [readSize_of_word? hline hpos, if_pos hfits]

theorem ofArray_eq_ok_iff {α : Type} {data : Array α} {rows cols : ℕ} {m : DenseMatrix α} :
    DenseMatrix.ofArray data rows cols = .ok m ↔
      m.rows = rows ∧ m.cols = cols ∧ m.data = data := by
  unfold DenseMatrix.ofArray
  constructor
  · intro h
    split at h <;> cases h
    exact ⟨rfl, rfl, rfl⟩
  · rintro ⟨rfl, rfl, rfl⟩
    rw [dif_pos m.size_eq]

theorem ofArray_of_readEquations {number : ℕ} {lines : List (ℕ × List Char)}
    (h : readEquations n number n lines = .ok rows) :
    ∃ system, DenseMatrix.ofArray rows.flatten.toArray n (n + 1) = .ok system := by
  obtain ⟨hlength, hrows⟩ := readEquations_eq_ok_iff.mp h
  have hrow : ∀ row ∈ rows, row.length = n + 1 := by
    intro row hrow
    obtain ⟨i, hi, rfl⟩ := List.mem_iff_getElem.mp hrow
    exact (readEquation_eq_ok_iff.mp (hrows.get (hrows.length_eq ▸ hi) hi)).1
  have hsize : rows.flatten.toArray.size = n * (n + 1) := by
    rw [List.size_toArray, length_flatten_of_length hrow, ← hrows.length_eq, hlength]
  exact ⟨_, dif_pos hsize⟩

/-- The reader accepts what the grammar describes, if the number of entries fits into a word. -/
theorem read_eq_ok_iff {text : String} {system : DenseMatrix Float} :
    read text = .ok system ↔
      Describes text system ∧ system.rows * (system.rows + 1) < UInt64.size := by
  rw [describes_iff, ← map_content, read]
  cases content text with
  | nil => simp
  | cons head rest =>
    obtain ⟨number, size⟩ := head
    simp only [List.map_cons, List.cons.injEq]
    constructor
    · intro h
      cases hsize : readSize size with
      | error fault =>
        rw [hsize] at h
        cases h
      | ok n =>
        obtain ⟨hword, hpos, hfits⟩ := readSize_eq_ok_iff.mp hsize
        cases hrows : readEquations n number n rest with
        | error e =>
          rw [hsize] at h
          dsimp only at h
          rw [hrows] at h
          cases h
        | ok rows =>
          rw [hsize] at h
          dsimp only at h
          rw [hrows] at h
          obtain ⟨rfl, hcols, hdata⟩ := ofArray_eq_ok_iff.mp h
          obtain ⟨hlength, hread⟩ := readEquations_eq_ok_iff.mp hrows
          exact ⟨⟨hpos, hcols, size, _, rows, ⟨rfl, rfl⟩, hword, by rw [List.length_map, hlength],
            List.forall₂_map_left_iff.mpr hread, hdata⟩, hfits⟩
    · rintro ⟨⟨hpos, hcols, _, _, rows, ⟨rfl, rfl⟩, hword, hlength, hread, hdata⟩, hfits⟩
      rw [List.length_map] at hlength
      rw [List.forall₂_map_left_iff] at hread
      rw [readSize_eq_ok_iff.mpr ⟨hword, hpos, hfits⟩]
      dsimp only
      rw [readEquations_eq_ok_iff.mpr ⟨hlength, hread⟩]
      exact ofArray_eq_ok_iff.mpr ⟨rfl, hcols, hdata⟩

/-- What is not read has a fault on one of its lines. -/
theorem read_error {text : String} {e : Error} (h : read text = .error e) :
    ∃ line fault, e = .parse line fault := by
  unfold read at h
  split at h
  · exact ⟨_, _, (Except.error.inj h).symm⟩
  · next number line rest _ =>
    split at h
    · exact ⟨_, _, (Except.error.inj h).symm⟩
    · next n _ =>
      cases hrows : readEquations n number n rest with
      | error e' =>
        rw [hrows] at h
        cases h
        exact readEquations_error hrows
      | ok rows =>
        obtain ⟨system, hsystem⟩ := ofArray_of_readEquations hrows
        rw [hrows] at h
        change DenseMatrix.ofArray rows.flatten.toArray n (n + 1) = .error e at h
        rw [hsystem] at h
        cases h

end DenseSystem.Exchange
