import DenseSystem.Proofs.Exchange.Grammar
import DenseSystem.Proofs.Guarded.Buffer

/-! # The reading loop

A loop reads a text with all entries in one buffer: each pass takes a line, pushes its cells and
counts what it has pushed. Room for the entries is set aside before, for as many as the first line
announces but not for more than there are bytes in the text. Without this bound a short text could
ask for more room than there is. With it, and while the sums and differences fit into machine words,
the loop ends as the reader does; how much room there was makes no difference.
-/
namespace DenseSystem.Exchange

open Guarded

def difference (x y : ℕ) : Guarded ℕ := do
  require (y ≤ x) (.overflow y)
  return x - y

def fitting (value : ℕ) : Option ℕ := if value < wordCount then some value else none

/-- The number of entries, if it and the number of columns fit into a word. -/
def entryCount? (n : ℕ) : Option ℕ := do
  let cols ← fitting (n + 1)
  fitting (n * cols)

structure Pushed where
  lines : List (ℕ × List Char)
  /-- The number of the line that was read last. -/
  last : ℕ
  buffer : Buffer

def pushCells : List (List Char) → Buffer → Guarded (Except Fault Buffer)
  | [], buffer => return .ok buffer
  | word :: words, buffer =>
    match readCell word with
    | .error fault => return .error fault
    | .ok x => do
      let buffer ← buffer.push x
      pushCells words buffer

def pushEquation (n row : ℕ) (state : Pushed) : Guarded (Except Error Pushed) :=
  match state.lines with
  | [] => do
    let line ← word (state.last + 1)
    return .error (.parse line (.missingEquation n row))
  | (number, line) :: rest => do
    match ← pushCells (Text.words line) state.buffer with
    | .error fault => return .error (.parse number fault)
    | .ok buffer =>
      let found ← difference buffer.data.size state.buffer.data.size
      let expected ← word (n + 1)
      if found = expected then return .ok ⟨rest, number, buffer⟩
      else return .error (.parse number (.cellCount expected found))

/-- The passes for `left` equations from number `row` on. -/
def pushEquations (n : ℕ) : ℕ → ℕ → Pushed → Guarded (Except Error Pushed)
  | _, 0, state => return .ok state
  | row, left + 1, state => do
    match ← pushEquation n row state with
    | .error e => return .error e
    | .ok state => pushEquations n (row + 1) left state

def finish (n : ℕ) (state : Except Error Pushed) : Guarded (Except Error (DenseMatrix Float)) :=
  match state with
  | .error e => return .error e
  | .ok ⟨(number, _) :: _, _, _⟩ => return .error (.parse number .excessContent)
  | .ok ⟨[], _, buffer⟩ => do
    let cols ← word (n + 1)
    return DenseMatrix.ofArray buffer.data n cols

/-- The loop, after room was set aside for as many entries as `room` makes of the number that is
announced and of the size of the text. -/
def readPushing (room : ℕ → ℕ → ℕ) (text : String) : Guarded (Except Error (DenseMatrix Float)) :=
  match content text with
  | [] => return .error (.parse 1 .missingSize)
  | (number, size) :: rest =>
    match Decimal.word? size with
    | none => return .error (.parse number (.unreadableSize (String.ofList size)))
    | some n =>
      if n = 0 then return .error (.parse number .noUnknowns)
      else
        match entryCount? n with
        | none => return .error (.parse number (.tooManyUnknowns n))
        | some count => do
          let buffer ← Buffer.withRoom (room count text.utf8ByteSize)
          let state ← pushEquations n 0 n ⟨rest, number, buffer⟩
          finish n state

/-- Every entry takes at least one byte. -/
def readBounded (text : String) : Guarded (Except Error (DenseMatrix Float)) :=
  readPushing min text

/-- The number of entries that room is set aside for, if a text announces one. -/
def announced? (text : String) : Option ℕ := do
  let (_, size) ← (content text).head?
  let n ← Decimal.word? size
  if n = 0 then none else entryCount? n

theorem entryCount?_eq {n : ℕ} (h : 1 ≤ n) :
    entryCount? n = if n * (n + 1) < UInt64.size then some (n * (n + 1)) else none := by
  have hle : n + 1 ≤ n * (n + 1) := Nat.le_mul_of_pos_left _ h
  have hword : UInt64.size = wordCount := rfl
  rw [hword]
  unfold entryCount? fitting
  by_cases hcols : n + 1 < wordCount
  · rw [if_pos hcols]
    rfl
  · rw [if_neg hcols, if_neg (by omega)]
    rfl

/-- Words that are few enough are pushed into the buffer without its room being seen. -/
theorem pushCells_holding (room : ℕ) {data : Array Float} {words : List (List Char)}
    (h : data.size + words.length ≤ 2 ^ 59) :
    pushCells words (.holding room data) =
      .ok ((words.mapM readCell).map fun cells => .holding room (data ++ cells.toArray)) := by
  induction words generalizing data with
  | nil =>
    rw [pushCells, List.mapM_nil]
    change Except.ok (Except.ok (Buffer.holding room data)) =
      .ok (.ok (.holding room (data ++ #[])))
    rw [Array.append_empty]
  | cons word words ih =>
    rw [List.length_cons] at h
    rw [pushCells, List.mapM_cons]
    cases readCell word with
    | error fault => rfl
    | ok x =>
      dsimp only
      rw [Buffer.push_holding room x (by omega), ok_bind,
        ih (by rw [Array.size_push]; omega)]
      cases words.mapM readCell with
      | error fault => rfl
      | ok cells =>
        have hdata : data.push x ++ cells.toArray = data ++ (x :: cells).toArray := by simp
        exact congrArg (fun data => Except.ok (Except.ok (Buffer.holding room data))) hdata

variable {n row left number last room : ℕ} {line : List Char} {lines : List (ℕ × List Char)}
  {data : Array Float}

theorem pushEquation_of_cons (hword : n + 1 < wordCount)
    (hwords : data.size + (Text.words line).length ≤ 2 ^ 59) :
    pushEquation n row ⟨(number, line) :: lines, last, .holding room data⟩ =
      .ok (((readEquation n line).mapError (.parse number)).map
        fun cells => ⟨lines, number, .holding room (data ++ cells.toArray)⟩) := by
  rw [pushEquation, readEquation]
  dsimp only
  rw [pushCells_holding room hwords, ok_bind]
  cases (Text.words line).mapM readCell with
  | error fault => rfl
  | ok cells =>
    change (difference (data ++ cells.toArray).size data.size >>= _) = _
    have hfound : difference (data ++ cells.toArray).size data.size = .ok cells.length := by
      rw [difference, require_of (by simp)]
      simp
    rw [hfound, ok_bind, word_eq hword, ok_bind]
    change (if cells.length = n + 1 then _ else _) =
      Except.ok (Except.map _ (Except.mapError _ (if cells.length = n + 1 then _ else _)))
    by_cases hcount : cells.length = n + 1
    · rw [if_pos hcount, if_pos hcount]
      rfl
    · rw [if_neg hcount, if_neg hcount]
      rfl

theorem pushEquation_of_nil (buffer : Buffer) (hlast : last + 1 < wordCount) :
    pushEquation n row ⟨[], last, buffer⟩ =
      .ok (.error (.parse (last + 1) (.missingEquation n row))) := by
  rw [pushEquation]
  dsimp only
  rw [word_eq hlast, ok_bind]
  rfl

theorem finish_eq (hword : n + 1 < wordCount) :
    finish n (.ok ⟨lines, last, .holding room data⟩) =
      .ok (readEquations n last 0 lines >>= fun rows =>
        DenseMatrix.ofArray (data ++ rows.flatten.toArray) n (n + 1)) := by
  cases lines with
  | nil =>
    rw [finish, word_eq hword, ok_bind, readEquations]
    change Except.ok (DenseMatrix.ofArray data n (n + 1)) =
      Except.ok (DenseMatrix.ofArray (data ++ #[]) n (n + 1))
    rw [Array.append_empty]
  | cons line rest => rfl

/-- The loop and its end from any state are the recursion over the lines, with the entries behind
those pushed before. -/
theorem pushEquations_eq (hrow : row + left = n) (hword : n + 1 < wordCount)
    (hlast : last + 1 < wordCount) (hlines : ∀ line ∈ lines, line.1 + 1 < wordCount)
    (hwords : data.size + wordsIn (lines.map Prod.snd) ≤ 2 ^ 59) :
    (pushEquations n row left ⟨lines, last, .holding room data⟩ >>= finish n) =
      .ok (readEquations n last left lines >>= fun rows =>
        DenseMatrix.ofArray (data ++ rows.flatten.toArray) n (n + 1)) := by
  induction left generalizing row lines last data with
  | zero => exact finish_eq hword
  | succ left ih =>
    rw [pushEquations]
    cases lines with
    | nil =>
      have hfound : n - (left + 1) = row := by omega
      rw [pushEquation_of_nil _ hlast, readEquations, hfound]
      rfl
    | cons line rest =>
      obtain ⟨number, line⟩ := line
      rw [List.map_cons, wordsIn_cons] at hwords
      dsimp only at hwords
      rw [pushEquation_of_cons hword (by omega), readEquations]
      cases hline : readEquation n line with
      | error fault => rfl
      | ok cells =>
        have hcells : cells.length = (Text.words line).length :=
          (readEquation_eq_ok_iff.mp hline).2.length_eq.symm
        have hsize : (data ++ cells.toArray).size + wordsIn (rest.map Prod.snd) ≤ 2 ^ 59 := by
          rw [Array.size_append]
          change data.size + cells.length + _ ≤ _
          omega
        let next : Pushed := ⟨rest, number, .holding room (data ++ cells.toArray)⟩
        have hrest : (pushEquations n (row + 1) left next >>= finish n) = _ :=
          ih (by omega) (hlines _ List.mem_cons_self)
            (fun line hline => hlines line (List.mem_cons_of_mem _ hline)) hsize
        change (pushEquations n (row + 1) left next >>= finish n) = _
        rw [hrest]
        cases readEquations n number left rest with
        | error e => rfl
        | ok rows =>
          have hdata : data ++ cells.toArray ++ rows.flatten.toArray =
              data ++ (cells :: rows).flatten.toArray := by simp
          change Except.ok (DenseMatrix.ofArray _ _ _) = Except.ok (DenseMatrix.ofArray _ _ _)
          rw [hdata]

/-! ## The whole text -/

theorem number_lt_of_mem_numbered {number : ℕ} {lines : List (List Char)} {line : ℕ × List Char}
    (h : line ∈ numbered number lines) : line.1 < number + lines.length := by
  induction lines generalizing number with
  | nil => cases h
  | cons first lines ih =>
    rw [numbered_cons] at h
    rw [List.length_cons]
    rcases List.mem_append.mp h with h | h
    · split at h
      · cases h
      · rw [List.mem_singleton.mp h]
        omega
    · have := ih h
      omega

theorem number_lt_of_mem_content {text : String} {line : ℕ × List Char}
    (h : line ∈ content text) : line.1 < text.utf8ByteSize + 2 := by
  have hnumber := number_lt_of_mem_numbered h
  have hlines : (Text.lines text.toList).length = (text.toList.filter (· == '\n')).length + 1 :=
    length_splitOnP _ _
  have hnewlines := List.length_filter_le (· == '\n') text.toList
  have hsize := length_toList_le text
  omega

/-- The words of a text of less than `2 ^ 60` bytes fit into a buffer that has to grow for them. -/
theorem wordsIn_rest_le {text : String} {first : ℕ × List Char} {rest : List (ℕ × List Char)}
    (hcontent : content text = first :: rest) (hsize : text.utf8ByteSize < 2 ^ 60) :
    wordsIn (rest.map Prod.snd) ≤ 2 ^ 59 := by
  have hle := two_mul_wordsIn_le text
  rw [← map_content, hcontent, List.map_cons, wordsIn_cons] at hle
  have := length_toList_le text
  omega

theorem announced?_eq {text : String} {number n : ℕ} {size : List Char}
    {rest : List (ℕ × List Char)} (hcontent : content text = (number, size) :: rest)
    (hsize : Decimal.word? size = some n) (hpos : 1 ≤ n) :
    announced? text = if n * (n + 1) < UInt64.size then some (n * (n + 1)) else none := by
  rw [← entryCount?_eq hpos, announced?, hcontent]
  change (Decimal.word? size >>= _) = _
  rw [hsize]
  exact if_neg (Nat.ne_of_gt hpos)

/-- With room that can be allocated the loop is not aborted, and ends as the reader does. -/
theorem readPushing_eq {room : ℕ → ℕ → ℕ} {text : String} (hsize : text.utf8ByteSize < 2 ^ 60)
    (hroom : ∀ count, announced? text = some count → Allocatable (room count text.utf8ByteSize)) :
    readPushing room text = .ok (read text) := by
  have hnumber : ∀ line ∈ content text, line.1 + 1 < wordCount := by
    intro line hline
    have := number_lt_of_mem_content hline
    unfold wordCount
    omega
  rw [readPushing, read]
  cases hcontent : content text with
  | nil => rfl
  | cons line rest =>
    have hwords := wordsIn_rest_le hcontent hsize
    obtain ⟨number, size⟩ := line
    rw [hcontent] at hnumber
    dsimp only
    cases hn : Decimal.word? size with
    | none =>
      rw [readSize, hn]
      rfl
    | some n =>
      rcases Nat.eq_zero_or_pos n with rfl | hpos
      · rw [readSize, hn]
        rfl
      · have hannounced := announced?_eq hcontent hn hpos
        rw [readSize_of_word? hn hpos]
        dsimp only
        rw [if_neg hpos.ne', entryCount?_eq hpos]
        by_cases hfits : n * (n + 1) < UInt64.size
        · have hword : n + 1 < wordCount := (Nat.le_mul_of_pos_left _ hpos).trans_lt hfits
          rw [if_pos hfits] at hannounced
          rw [if_pos hfits, if_pos hfits]
          dsimp only
          rw [Buffer.withRoom_eq (hroom _ hannounced), ok_bind]
          refine (pushEquations_eq (Nat.zero_add n) hword (hnumber _ List.mem_cons_self)
            (fun line hline => hnumber line (List.mem_cons_of_mem _ hline)) (by simpa)).trans ?_
          simp
        · rw [if_neg hfits, if_neg hfits]
          rfl

theorem exists_of_announced? {text : String} {count : ℕ} (h : announced? text = some count) :
    ∃ number size rest n, content text = (number, size) :: rest ∧ Decimal.word? size = some n ∧
      n ≠ 0 ∧ entryCount? n = some count := by
  rw [announced?] at h
  cases hcontent : content text with
  | nil => simp [hcontent] at h
  | cons line rest =>
    obtain ⟨number, size⟩ := line
    rw [hcontent] at h
    change (Decimal.word? size >>= _) = _ at h
    obtain ⟨n, hn, hcount⟩ := Option.bind_eq_some_iff.mp h
    split_ifs at hcount with hzero
    exact ⟨number, size, rest, n, rfl, hn, hzero, hcount⟩

/-- With more room than can be allocated the loop is aborted before it starts. -/
theorem readPushing_eq_error {room : ℕ → ℕ → ℕ} {text : String} {count : ℕ}
    (hannounced : announced? text = some count)
    (hroom : ¬ Allocatable (room count text.utf8ByteSize)) :
    readPushing room text = .error (.capacity (room count text.utf8ByteSize)) := by
  have hallocate : Buffer.withRoom (room count text.utf8ByteSize) =
      .error (.capacity (room count text.utf8ByteSize)) := by
    rw [Buffer.withRoom, allocate, require, if_neg hroom]
    rfl
  obtain ⟨number, size, rest, n, hcontent, hn, hzero, hcount⟩ := exists_of_announced? hannounced
  rw [readPushing, hcontent]
  dsimp only
  rw [hn]
  dsimp only
  rw [if_neg hzero, hcount]
  dsimp only
  rw [hallocate]
  rfl

/-- Entries that are not announced in more bytes than they take are never too many. -/
theorem readBounded_eq {text : String} (hsize : text.utf8ByteSize < 2 ^ 60) :
    readBounded text = .ok (read text) := by
  refine readPushing_eq hsize fun count _ => ?_
  have hle : min count text.utf8ByteSize ≤ text.utf8ByteSize := Nat.min_le_right _ _
  unfold Allocatable
  omega

theorem readPushing_eq_iff (room : ℕ → ℕ → ℕ) {text : String} (hsize : text.utf8ByteSize < 2 ^ 60) :
    readPushing room text = .ok (read text) ↔
      ∀ count, announced? text = some count → Allocatable (room count text.utf8ByteSize) := by
  refine ⟨fun hread count hannounced => ?_, readPushing_eq hsize⟩
  by_contra hroom
  rw [readPushing_eq_error hannounced hroom] at hread
  cases hread

/-- The reader accepts the texts of the grammar and gives the matrix that they describe. Every other
text has a fault on one of its lines. The loop, which an allocation, a sum or a difference might
abort, does the same for texts of less than `2 ^ 60` bytes, more than which cannot be addressed.
Whatever other room it asks for, it still does the same, unless that room is not to be had. -/
theorem read_iff_describes (text : String) (hsize : text.utf8ByteSize < 2 ^ 63) :
    (∀ system, read text = .ok system ↔ Describes text system) ∧
      ((∀ system, ¬Describes text system) → ∃ line fault, read text = .error (.parse line fault)) ∧
      (text.utf8ByteSize < 2 ^ 60 → readBounded text = .ok (read text) ∧
        ∀ room, readPushing room text = .ok (read text) ↔
          ∀ count, announced? text = some count →
            Allocatable (room count text.utf8ByteSize)) := by
  have hread : ∀ system, read text = .ok system ↔ Describes text system := by
    intro system
    rw [read_eq_ok_iff, and_iff_left_iff_imp]
    intro hdescribes
    have hword : UInt64.size = 2 ^ 64 := rfl
    have := entries_le_of_describes hdescribes
    omega
  refine ⟨hread, fun hnone => ?_, fun hplace =>
    ⟨readBounded_eq hplace, fun room => readPushing_eq_iff room hplace⟩⟩
  cases h : read text with
  | error e =>
    obtain ⟨line, fault, rfl⟩ := read_error h
    exact ⟨line, fault, rfl⟩
  | ok system => exact absurd ((hread system).mp h) (hnone system)

/-- A text with blanks in many places, and one that announces more entries than it has and than could
be allocated. -/
theorem read_padded_and_unfinished_text :
    let padded := "\r\n  1 \r\n 4\t 8 \r\n\r\n"
    let unfinished := "4000000000\n1\t2\n"
    padded.utf8ByteSize < 2 ^ 60 ∧ unfinished.utf8ByteSize < 2 ^ 60 ∧
      Describes padded ⟨1, 2, #[4, 8], rfl⟩ ∧
      readBounded padded = .ok (.ok ⟨1, 2, #[4, 8], rfl⟩) ∧
      (∀ system, ¬Describes unfinished system) ∧
      readBounded unfinished = .ok (.error (.parse 2 (.cellCount 4000000001 2))) ∧
      readPushing (fun count _ => count) unfinished ≠ .ok (read unfinished) := by
  have hpadded : "\r\n  1 \r\n 4\t 8 \r\n\r\n".utf8ByteSize < 2 ^ 60 := by decide
  have hunfinished : "4000000000\n1\t2\n".utf8ByteSize < 2 ^ 60 := by decide
  have hok : read "\r\n  1 \r\n 4\t 8 \r\n\r\n" = .ok ⟨1, 2, #[4, 8], rfl⟩ := rfl
  have herror : read "4000000000\n1\t2\n" = .error (.parse 2 (.cellCount 4000000001 2)) := rfl
  obtain ⟨haccepts, -, hloop⟩ := read_iff_describes _ (hpadded.trans (by decide))
  obtain ⟨hrejects, -, hloop'⟩ := read_iff_describes _ (hunfinished.trans (by decide))
  have hnone : ∀ system, ¬Describes "4000000000\n1\t2\n" system := by
    intro system h
    have hread := (hrejects system).mpr h
    rw [herror] at hread
    cases hread
  have hannounced : announced? "4000000000\n1\t2\n" = some 16000000004000000000 := rfl
  refine ⟨hpadded, hunfinished, (haccepts _).mp hok, (hloop hpadded).1.trans (congrArg _ hok),
    hnone, (hloop' hunfinished).1.trans (congrArg _ herror), fun hread => ?_⟩
  have hroom := ((hloop' hunfinished).2 _).mp hread _ hannounced
  exact absurd hroom (by decide)

end DenseSystem.Exchange
