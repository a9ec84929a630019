import Jarwright.Text.Blank

/-!
# Pieces between separators, and words

Splitting collects its pieces character by character. It gives the pieces that core's `List.splitOn`
gives (`splitOn_eq`), so that joining them with the separator is its inverse: no piece has the
separator in it, and pieces without the separator are got back.

Words are the pieces between blanks that are not empty (`words_eq`), so that no word has a blank in
it.
-/

namespace Jarwright.Text

variable {sep : Char} {cs piece : List Char}

/-- A run of characters of a kind goes up to the first one of another kind. -/
theorem takeWhile_append_of_head? {p : Char → Bool} {front back : List Char}
    (hfront : ∀ c ∈ front, p c = true) (hback : ∀ c, back.head? = some c → p c = false) :
    (front ++ back).takeWhile p = front := by
  rw [List.takeWhile_append_of_pos hfront]
  cases back with
  | nil => rw [List.takeWhile_nil, List.append_nil]
  | cons c back => rw [List.takeWhile_cons_of_neg (by simp [hback c rfl]), List.append_nil]

/-- What stands before the first separator. -/
theorem takeWhile_append_of_not_mem {front back : List Char} (hfront : sep ∉ front)
    (hback : back = [] ∨ back.head? = some sep) :
    (front ++ back).takeWhile (· != sep) = front := by
  refine takeWhile_append_of_head? (fun c hc => ?_) fun c hc => ?_
  · rw [bne_iff_ne]
    rintro rfl
    exact hfront hc
  · rcases hback with rfl | hback
    · cases hc
    · rw [hback] at hc
      simpa using hc.symm

theorem splitOnFrom_eq (sep : Char) (piece cs : List Char) :
    splitOnFrom sep piece cs = (cs.splitOn sep).modifyHead (piece.reverse ++ ·) := by
  induction cs generalizing piece with
  | nil => simp [splitOnFrom]
  | cons c cs ih =>
    rw [splitOnFrom, List.splitOn_cons_eq_if_modifyHead]
    by_cases h : c = sep
    · rw [if_pos h, if_pos (beq_iff_eq.2 h), ih, List.modifyHead_cons, List.append_nil]
      cases hsplit : cs.splitOn sep with
      | nil => rfl
      | cons first rest => rw [List.modifyHead_cons, List.reverse_nil, List.nil_append]
    · rw [if_neg h, if_neg (by simpa using h), ih, List.modifyHead_modifyHead]
      congr 1
      funext first
      simp

theorem splitOn_eq (sep : Char) (cs : List Char) : splitOn sep cs = cs.splitOn sep := by
  rw [splitOn, splitOnFrom_eq]
  cases cs.splitOn sep with
  | nil => rfl
  | cons first rest => rw [List.modifyHead_cons, List.reverse_nil, List.nil_append]

theorem splitOn_ne_nil : splitOn sep cs ≠ [] := by
  rw [splitOn_eq]
  exact cs.splitOn_ne_nil sep

/-- No piece has a separator in it, where the separators are the characters with a property. -/
theorem eq_false_of_mem_splitOnP {p : Char → Bool} {c : Char} (h : piece ∈ cs.splitOnP p)
    (hc : c ∈ piece) : p c = false := by
  induction cs generalizing piece with
  | nil =>
    rw [List.splitOnP_nil, List.mem_singleton] at h
    simp [h] at hc
  | cons first cs ih =>
    rw [List.splitOnP_cons_eq_if_modifyHead] at h
    split at h
    · rcases List.mem_cons.1 h with rfl | h
      · cases hc
      · exact ih h hc
    · rename_i hfirst
      cases hsplit : cs.splitOnP p with
      | nil => simp [hsplit] at h
      | cons front rest =>
        rw [hsplit] at h ih
        rcases List.mem_cons.1 h with rfl | h
        · rcases List.mem_cons.1 hc with rfl | hc
          · simpa using hfirst
          · exact ih List.mem_cons_self hc
        · exact ih (List.mem_cons_of_mem _ h) hc

/-- No piece has the separator in it. -/
theorem not_mem_of_mem_splitOn (h : piece ∈ splitOn sep cs) : sep ∉ piece := by
  rw [splitOn_eq, List.splitOn_eq_splitOnP] at h
  intro hsep
  simpa using eq_false_of_mem_splitOnP h hsep

theorem intercalate_splitOn (sep : Char) (cs : List Char) :
    [sep].intercalate (splitOn sep cs) = cs := by
  rw [splitOn_eq, List.intercalate_splitOn]

theorem splitOn_intercalate {pieces : List (List Char)} (hne : pieces ≠ [])
    (hpieces : ∀ piece ∈ pieces, sep ∉ piece) :
    splitOn sep ([sep].intercalate pieces) = pieces := by
  rw [splitOn_eq, List.splitOn_intercalate sep hpieces hne]

/-- A text without the separator is one piece. -/
theorem splitOn_of_not_mem (h : sep ∉ cs) : splitOn sep cs = [cs] := by
  rw [splitOn_eq, List.splitOn_eq_singleton h]

/-- A separator ends the pieces in front of it. -/
theorem splitOn_append_cons (sep : Char) (front back : List Char) :
    splitOn sep (front ++ sep :: back) = splitOn sep front ++ splitOn sep back := by
  rw [splitOn_eq, splitOn_eq, splitOn_eq, List.splitOn_append_cons_self]

/-- All that is in a piece is in the text. -/
theorem mem_of_mem_splitOn {c : Char} (h : piece ∈ splitOn sep cs) (hc : c ∈ piece) : c ∈ cs := by
  rw [← intercalate_splitOn sep cs]
  generalize splitOn sep cs = pieces at h
  induction pieces with
  | nil => cases h
  | cons first rest ih =>
    cases rest with
    | nil =>
      rw [List.intercalate_singleton]
      rwa [← List.mem_singleton.1 h]
    | cons second rest =>
      rw [List.intercalate_cons_cons]
      rcases List.mem_cons.1 h with rfl | h
      · exact List.mem_append_left _ (List.mem_append_left _ hc)
      · exact List.mem_append_right _ (ih h)

/-! ## Words -/

theorem wordsFrom_eq (word cs : List Char) :
    wordsFrom word cs = (cs.splitOnPPrepend isBlank word).filter (· ≠ []) := by
  induction cs generalizing word with
  | nil => cases word <;> simp [wordsFrom, List.splitOnPPrepend_nil]
  | cons c cs ih =>
    rw [wordsFrom, List.splitOnPPrepend_cons_eq_if, ih, List.splitOnPPrepend_nil_right, ih]
    by_cases hc : isBlank c = true
    · cases word <;> simp [hc]
    · simp [hc]

/-- The words are the pieces between blanks that are not empty. -/
theorem words_eq (cs : List Char) : words cs = (cs.splitOnP isBlank).filter (· ≠ []) := by
  rw [words, wordsFrom_eq, List.splitOnPPrepend_nil_right]

/-- No word has a blank in it. -/
theorem isBlank_eq_false_of_mem_words {word : List Char} {c : Char} (h : word ∈ words cs)
    (hc : c ∈ word) : isBlank c = false := by
  rw [words_eq] at h
  exact eq_false_of_mem_splitOnP (List.mem_filter.1 h).1 hc

end Jarwright.Text
