import Mathlib
import DenseSystem.Proofs.Exchange.Faults

/-! # Blanks around lines

Blanks may be put in at the beginning and at the end of any line, and blank lines between any two. A
text with further blanks of this kind describes the same system, and where it describes none it is
rejected for the same reason, though the line that is named may have moved.
-/
namespace DenseSystem

namespace Text

theorem trim_nil : trim [] = [] := rfl

theorem trim_cons_blank {c : Char} (hc : isBlank c = true) (cs : List Char) :
    trim (c :: cs) = trim cs := by
  rw [trim, List.dropWhile_cons_of_pos hc, trim]

theorem trim_append_blank {c : Char} (hc : isBlank c = true) (cs : List Char) :
    trim (cs ++ [c]) = trim cs := by
  rw [trim, trim, List.dropWhile_append]
  cases hdrop : cs.dropWhile isBlank with
  | nil => simp [hc]
  | cons first rest => simp [List.dropWhile_cons_of_pos hc]

/-- A newline ends one line and begins another. -/
theorem lines_append_newline (cs rest : List Char) :
    lines (cs ++ '\n' :: rest) = lines cs ++ lines rest :=
  List.splitOnP_append_cons cs rest (by simp)

theorem lines_of_no_newline {cs : List Char} (h : '\n' ∉ cs) : lines cs = [cs] :=
  List.splitOn_eq_singleton h

end Text

namespace Exchange

open Text

def contentOf (lines : List (List Char)) : List (List Char) :=
  (lines.map trim).filter (!·.isEmpty)

theorem contentOf_append (above below : List (List Char)) :
    contentOf (above ++ below) = contentOf above ++ contentOf below := by
  rw [contentOf, List.map_append, List.filter_append]
  rfl

theorem contentOf_of_map_trim {ls others : List (List Char)} (h : others.map trim = ls.map trim) :
    contentOf others = contentOf ls := by
  rw [contentOf, contentOf, h]

theorem contentOf_singleton_of_blank {line : List Char} (h : trim line = []) :
    contentOf [line] = [] := by
  simp [contentOf, h]

theorem contentOf_singleton {line : List Char} (h : trim line ≠ []) :
    contentOf [line] = [trim line] := by
  simp [contentOf, h]

/-! ## Blanks at the ends of a text -/

theorem contentOf_lines_newline (cs rest : List Char) :
    contentOf (lines (cs ++ '\n' :: rest)) = contentOf (lines cs) ++ contentOf (lines rest) := by
  rw [lines_append_newline, contentOf_append]

theorem contentOf_lines_nil : contentOf (lines []) = [] := by
  rw [lines_of_no_newline List.not_mem_nil]
  exact contentOf_singleton_of_blank trim_nil

theorem contentOf_cons_blank {c : Char} (hc : isBlank c = true) (cs : List Char) :
    contentOf (lines (c :: cs)) = contentOf (lines cs) := by
  by_cases hnewline : c = '\n'
  · rw [hnewline, ← List.nil_append ('\n' :: cs), contentOf_lines_newline, contentOf_lines_nil,
      List.nil_append]
  · obtain ⟨first, rest, hlines⟩ :=
      List.exists_cons_of_ne_nil (List.splitOnP_ne_nil (· == '\n') cs)
    have hcons : lines (c :: cs) = (c :: first) :: rest := by
      rw [lines, List.splitOn, List.splitOnP_cons_eq_if_modifyHead,
        if_neg (by simpa using hnewline), hlines, List.modifyHead_cons]
    have hcs : lines cs = first :: rest := hlines
    refine contentOf_of_map_trim ?_
    rw [hcons, hcs, List.map_cons, List.map_cons, trim_cons_blank hc]

theorem contentOf_append_blank {c : Char} (hc : isBlank c = true) (cs : List Char) :
    contentOf (lines (cs ++ [c])) = contentOf (lines cs) := by
  by_cases hnewline : c = '\n'
  · rw [hnewline, contentOf_lines_newline, contentOf_lines_nil, List.append_nil]
  -- The blank belongs to the last line, so the induction leaves out one line after the other.
  · induction hlength : cs.length using Nat.strong_induction_on generalizing cs with
    | _ length ih =>
      by_cases hmem : '\n' ∈ cs
      · obtain ⟨line, rest, rfl, -⟩ := List.eq_append_cons_of_mem hmem
        have hshorter : rest.length < length := by
          rw [← hlength, List.length_append, List.length_cons]
          omega
        rw [List.append_assoc, List.cons_append, contentOf_lines_newline, contentOf_lines_newline,
          ih rest.length hshorter rest rfl]
      · have hmem' : '\n' ∉ cs ++ [c] := by simp [hmem, Ne.symm hnewline]
        refine contentOf_of_map_trim ?_
        rw [lines_of_no_newline hmem, lines_of_no_newline hmem', List.map_singleton,
          List.map_singleton, trim_append_blank hc]

theorem contentOf_blanks_append {blanks : List Char} (h : ∀ c ∈ blanks, isBlank c = true)
    (cs : List Char) : contentOf (lines (blanks ++ cs)) = contentOf (lines cs) := by
  induction blanks with
  | nil => rfl
  | cons c blanks ih =>
    obtain ⟨hc, hblanks⟩ := List.forall_mem_cons.mp h
    rw [List.cons_append, contentOf_cons_blank hc, ih hblanks]

theorem contentOf_append_blanks {blanks : List Char} (h : ∀ c ∈ blanks, isBlank c = true)
    (cs : List Char) : contentOf (lines (cs ++ blanks)) = contentOf (lines cs) := by
  induction blanks generalizing cs with
  | nil => rw [List.append_nil]
  | cons c blanks ih =>
    obtain ⟨hc, hblanks⟩ := List.forall_mem_cons.mp h
    rw [List.append_cons, ih hblanks, contentOf_append_blank hc]

/-! ## Blanks between lines -/

/-- A text with further blanks, newlines among them, in one place where a line begins or ends. -/
inductive Padded : List Char → List Char → Prop
  | first (blanks after : List Char) (h : ∀ c ∈ blanks, isBlank c = true) :
      Padded after (blanks ++ after)
  | lineStart (before blanks after : List Char) (h : ∀ c ∈ blanks, isBlank c = true) :
      Padded (before ++ '\n' :: after) (before ++ '\n' :: (blanks ++ after))
  | lineEnd (before blanks after : List Char) (h : ∀ c ∈ blanks, isBlank c = true) :
      Padded (before ++ '\n' :: after) (before ++ blanks ++ '\n' :: after)
  | last (before blanks : List Char) (h : ∀ c ∈ blanks, isBlank c = true) :
      Padded before (before ++ blanks)

theorem Padded.contentOf_eq {cs padded : List Char} (h : Padded cs padded) :
    contentOf (lines padded) = contentOf (lines cs) := by
  cases h with
  | first blanks _ h => exact contentOf_blanks_append h _
  | lineStart before blanks after h =>
    rw [contentOf_lines_newline, contentOf_lines_newline, contentOf_blanks_append h]
  | lineEnd before blanks after h =>
    rw [contentOf_lines_newline, contentOf_lines_newline, contentOf_append_blanks h]
  | last _ blanks h => exact contentOf_append_blanks h _

theorem contentLines_eq_of_padded {text padded : String}
    (h : Relation.ReflTransGen Padded text.toList padded.toList) :
    contentLines padded = contentLines text := by
  have hcontent : ∀ cs, Relation.ReflTransGen Padded text.toList cs →
      contentOf (lines cs) = contentOf (lines text.toList) := by
    intro cs hcs
    induction hcs with
    | refl => rfl
    | tail _ hstep ih => exact hstep.contentOf_eq.trans ih
  exact hcontent _ h

/-! ## What the reader makes of it -/

/-- A reason depends on the lines that count and not on their numbers. -/
theorem Rejects.of_map_snd {content other : List (ℕ × List Char)} {number : ℕ} {fault : Fault}
    (h : Rejects content number fault) (hsame : other.map Prod.snd = content.map Prod.snd) :
    ∃ number', Rejects other number' fault := by
  cases h with
  | blank h =>
    rw [h, List.map_nil, List.map_eq_nil_iff] at hsame
    exact ⟨1, .blank hsame⟩
  | line above below h habove hline =>
    rw [h, List.map_append, List.map_cons, List.map_eq_append_iff] at hsame
    obtain ⟨above', rest, hother, habove', hrest⟩ := hsame
    obtain ⟨⟨number', line'⟩, below', rfl, rfl, -⟩ := List.map_eq_cons_iff.mp hrest
    rw [← habove'] at habove hline
    exact ⟨number', .line above' _ hother habove hline⟩
  | unfinished h hsize hlt hequations hlast =>
    have hne : other.map Prod.fst ≠ [] := by
      rw [h] at hsame
      intro hnil
      rw [List.map_eq_nil_iff.mp hnil] at hsame
      cases hsame
    exact ⟨_, .unfinished (hsame.trans h) hsize hlt hequations (List.getLast?_eq_some_getLast hne)⟩

theorem read_of_contentLines_eq {text other : String}
    (h : contentLines other = contentLines text) :
    (∀ system, read text = .ok system → read other = .ok system) ∧
      ∀ line fault, read text = .error (.parse line fault) →
        ∃ line', read other = .error (.parse line' fault) := by
  constructor
  · intro system hread
    rw [read_eq_ok_iff, Describes] at hread ⊢
    rwa [h]
  · intro line fault hread
    rw [← map_content, ← map_content] at h
    obtain ⟨line', hrejects⟩ := (read_eq_error_iff.mp hread).of_map_snd h
    exact ⟨line', read_eq_error_iff.mpr hrejects⟩

end Exchange

end DenseSystem
