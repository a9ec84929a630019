import Jarwright.Proofs.Text.Splitting

/-!
# Lines

The lines of a text are the pieces between its line feeds (`lines_eq`): each that a line feed ends
loses one carriage return, and what stands behind the last line feed is a line if there is anything.
So lines without line feeds are got back when one is put behind each of them (`lines_flatMap`), but
for carriage returns.
-/

namespace Jarwright.Text

variable {cs line : List Char} {ls : List (List Char)}

/-- A line without one carriage return at its end. -/
def dropReturn (line : List Char) : List Char :=
  if line.getLast? = some '\r' then line.dropLast else line

/-- The lines of the pieces between line feeds. -/
def linesOfPieces : List (List Char) → List (List Char)
  | [] => []
  | [last] => if last.isEmpty then [] else [last]
  | piece :: next :: rest => dropReturn piece :: linesOfPieces (next :: rest)

theorem linesOfPieces_cons (piece : List Char) (hne : ls ≠ []) :
    linesOfPieces (piece :: ls) = dropReturn piece :: linesOfPieces ls := by
  obtain ⟨next, rest, rfl⟩ := List.exists_cons_of_ne_nil hne
  rfl

theorem dropReturn_append_return (line : List Char) : dropReturn (line ++ ['\r']) = line := by
  rw [dropReturn, List.getLast?_concat, if_pos rfl, List.dropLast_concat]

theorem dropReturn_of_ne (h : line.getLast? ≠ some '\r') : dropReturn line = line := if_neg h

theorem linesFrom_eq (line cs : List Char) :
    linesFrom line cs = linesOfPieces (splitOnFrom '\n' line cs) := by
  induction cs generalizing line with
  | nil => rw [linesFrom, splitOnFrom, linesOfPieces, List.isEmpty_reverse]
  | cons c cs ih =>
    have hne : splitOnFrom '\n' [] cs ≠ [] := splitOn_ne_nil
    conv => lhs; unfold linesFrom
    rw [splitOnFrom]
    split
    · rw [linesOfPieces_cons _ hne, ← ih]
      congr 1
      split
      · rw [List.reverse_cons, dropReturn_append_return]
      · rename_i hreturn
        rw [dropReturn_of_ne]
        rw [List.getLast?_reverse, ne_eq, List.head?_eq_some_iff]
        rintro ⟨rest, rfl⟩
        exact hreturn rest rfl
    · exact ih _

/-- The lines of a text are the pieces between its line feeds. -/
theorem lines_eq (cs : List Char) : lines cs = linesOfPieces (splitOn '\n' cs) := linesFrom_eq [] cs

theorem mem_of_mem_dropReturn {c : Char} (h : c ∈ dropReturn line) : c ∈ line := by
  rw [dropReturn] at h
  split at h
  · exact List.dropLast_subset _ h
  · exact h

theorem mem_linesOfPieces (h : line ∈ linesOfPieces ls) :
    line ∈ ls ∨ ∃ piece ∈ ls, line = dropReturn piece := by
  induction ls with
  | nil => cases h
  | cons piece ls ih =>
    by_cases hne : ls = []
    · subst hne
      rw [linesOfPieces] at h
      split at h
      · cases h
      · exact .inl h
    · rw [linesOfPieces_cons piece hne] at h
      rcases List.mem_cons.1 h with rfl | h
      · exact .inr ⟨piece, List.mem_cons_self, rfl⟩
      · rcases ih h with hmem | ⟨piece', hmem, rfl⟩
        · exact .inl (List.mem_cons_of_mem _ hmem)
        · exact .inr ⟨piece', List.mem_cons_of_mem _ hmem, rfl⟩

/-- No line has a line feed in it. -/
theorem newline_not_mem_of_mem_lines (h : line ∈ lines cs) : '\n' ∉ line := by
  rw [lines_eq] at h
  intro hmem
  rcases mem_linesOfPieces h with hpiece | ⟨piece, hpiece, rfl⟩
  · exact not_mem_of_mem_splitOn hpiece hmem
  · exact not_mem_of_mem_splitOn hpiece (mem_of_mem_dropReturn hmem)

/-- A line feed ends a line, which loses one carriage return. -/
theorem lines_append_cons (hline : '\n' ∉ line) (cs : List Char) :
    lines (line ++ '\n' :: cs) = dropReturn line :: lines cs := by
  rw [lines_eq, splitOn_append_cons, splitOn_of_not_mem hline, List.singleton_append,
    linesOfPieces_cons _ splitOn_ne_nil, ← lines_eq]

/-- Lines that are written with a line feed behind each are read again. -/
theorem lines_flatMap (h : ∀ line ∈ ls, '\n' ∉ line) :
    lines (ls.flatMap (· ++ ['\n'])) = ls.map dropReturn := by
  induction ls with
  | nil => rfl
  | cons line ls ih =>
    obtain ⟨hline, hrest⟩ := List.forall_mem_cons.1 h
    rw [List.flatMap_cons, List.append_assoc, List.singleton_append, lines_append_cons hline,
      ih hrest, List.map_cons]

end Jarwright.Text
