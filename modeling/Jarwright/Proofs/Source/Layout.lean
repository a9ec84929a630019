import Jarwright.Proofs.Text.Lines
import Jarwright.Proofs.Text.Trimming
import Jarwright.Source.Layout
import Mathlib.Data.List.DropRight
import Mathlib.Data.List.Forall2

/-!
# The layout of source files is a normal form

Giving a text its layout takes away the blanks at the ends of its lines, and then the blank lines at
its end (`settled_layoutLines`). The lines of the result are what is left of the lines of the text,
so that a text in its layout keeps it (`layout_normal`).

* `layout_eq`: the layout is what writing each trimmed line with a line feed, taking away the line
  feeds at the end and putting one there gives.
-/

namespace Jarwright.Source

open Text

variable {cs line kept : List Char}

/-! ## Ends -/

theorem eq_false_of_getLast?_rdropWhile {α : Type} {p : α → Bool} {l : List α} {x : α}
    (h : (l.rdropWhile p).getLast? = some x) : p x = false := by
  obtain ⟨hne, rfl⟩ := List.mem_getLast?_eq_getLast h
  simpa using List.rdropWhile_last_not p l hne

theorem rdropWhile_of_getLast? {α : Type} {p : α → Bool} {l : List α}
    (h : ∀ x, l.getLast? = some x → p x = false) : l.rdropWhile p = l := by
  rw [List.rdropWhile_eq_self_iff]
  intro hne
  simpa using h _ (List.getLast?_eq_getLast_of_ne_nil hne)

/-- Whether a text does not end in a blank. -/
def EndsPlainly (line : List Char) : Prop := ∀ c, line.getLast? = some c → isBlank c = false

/-- Whether something is a line without the blanks at its end. -/
structure Trimmed (line kept : List Char) : Prop where
  append : ∃ blanks, line = kept ++ blanks ∧ ∀ c ∈ blanks, isBlank c = true
  last : EndsPlainly kept

theorem trimmed_trimEnd (line : List Char) : Trimmed line (trimEnd line) :=
  ⟨trimEndWith_append isBlank line, fun _ h => eq_false_of_getLast?_rdropWhile h⟩

theorem EndsPlainly.trimEnd (h : EndsPlainly line) : trimEnd line = line :=
  rdropWhile_of_getLast? h

/-- A carriage return is a blank. -/
theorem EndsPlainly.dropReturn (h : EndsPlainly line) : dropReturn line = line :=
  dropReturn_of_ne fun hlast => absurd (h _ hlast) (by decide)

/-! ## The lines that are kept -/

/-- Whether lines are what is left of other ones without the blanks at their ends and without the
blank lines behind the last line that says something. -/
structure Settled (ls kept : List (List Char)) : Prop where
  append : ∃ blank, List.Forall₂ Trimmed ls (kept ++ blank) ∧ ∀ line ∈ blank, line = []
  last : kept.getLast? ≠ some []

theorem layoutLines_append (cs : List Char) :
    ∃ blank, (lines cs).map trimEnd = layoutLines cs ++ blank ∧ ∀ line ∈ blank, line = [] := by
  refine ⟨((lines cs).map trimEnd).rtakeWhile List.isEmpty, ?_, fun line h => ?_⟩
  · exact (List.rdropWhile_append_rtakeWhile ..).symm
  · exact List.isEmpty_iff.1 (List.mem_rtakeWhile_imp h)

theorem getLast?_layoutLines (cs : List Char) : (layoutLines cs).getLast? ≠ some [] :=
  fun h => absurd (eq_false_of_getLast?_rdropWhile h) (by simp)

theorem settled_layoutLines (cs : List Char) : Settled (lines cs) (layoutLines cs) := by
  obtain ⟨blank, happend, hblank⟩ := layoutLines_append cs
  refine ⟨⟨blank, ?_, hblank⟩, getLast?_layoutLines cs⟩
  rw [← happend, List.forall₂_map_right_iff, List.forall₂_same]
  exact fun line _ => trimmed_trimEnd line

theorem exists_of_mem_layoutLines (h : kept ∈ layoutLines cs) :
    ∃ line ∈ lines cs, trimEnd line = kept := by
  obtain ⟨blank, happend, -⟩ := layoutLines_append cs
  exact List.mem_map.1 (happend ▸ List.mem_append_left blank h)

theorem endsPlainly_of_mem_layoutLines (h : kept ∈ layoutLines cs) : EndsPlainly kept := by
  obtain ⟨line, -, rfl⟩ := exists_of_mem_layoutLines h
  exact (trimmed_trimEnd line).last

theorem newline_not_mem_of_mem_layoutLines (h : kept ∈ layoutLines cs) : '\n' ∉ kept := by
  obtain ⟨line, hline, rfl⟩ := exists_of_mem_layoutLines h
  obtain ⟨blanks, happend, -⟩ := (trimmed_trimEnd line).append
  exact fun hmem => newline_not_mem_of_mem_lines hline (happend ▸ List.mem_append_left blanks hmem)

/-- Lines that need no trimming and do not end with a blank one are all kept. -/
theorem layoutLines_of_lines {ls : List (List Char)} (hlines : lines cs = ls)
    (hplain : ∀ line ∈ ls, EndsPlainly line) (hlast : ls.getLast? ≠ some []) :
    layoutLines cs = ls := by
  have htrim : (lines cs).map trimEnd = ls := by
    rw [hlines]
    exact (List.map_congr_left fun line hline => (hplain line hline).trimEnd).trans (List.map_id ls)
  change ((lines cs).map trimEnd).rdropWhile List.isEmpty = ls
  rw [htrim]
  refine rdropWhile_of_getLast? fun line hline => ?_
  cases line with
  | nil => exact absurd hline hlast
  | cons c rest => rfl

/-- Nothing is kept of lines with nothing but blanks in them. -/
theorem layoutLines_eq_nil_iff :
    layoutLines cs = [] ↔ ∀ line ∈ lines cs, ∀ c ∈ line, isBlank c = true := by
  change ((lines cs).map trimEnd).rdropWhile List.isEmpty = [] ↔ _
  rw [List.rdropWhile_eq_nil_iff, List.forall_mem_map]
  refine forall₂_congr fun line _ => ?_
  rw [List.isEmpty_iff]
  exact List.rdropWhile_eq_nil_iff

/-! ## The text of the lines -/

theorem layout_of_nil (h : layoutLines cs = []) : layout cs = ['\n'] := by
  rw [layout, h]

theorem layout_of_ne_nil (h : layoutLines cs ≠ []) :
    layout cs = (layoutLines cs).flatMap (· ++ ['\n']) := by
  unfold layout
  split
  · exact absurd ‹_› h
  · rfl

theorem layout_eq (cs : List Char) :
    layout cs = trimEndWith (· == '\n') ((lines cs).flatMap (trimEnd · ++ ['\n'])) ++ ['\n'] := by
  obtain ⟨blank, happend, hblank⟩ := layoutLines_append cs
  have hfeeds : ∀ c ∈ blank.flatMap (· ++ ['\n']), (c == '\n') = true := by
    intro c hc
    obtain ⟨line, hline, hc⟩ := List.mem_flatMap.1 hc
    simpa [hblank line hline] using hc
  have htrimmed : trimEndWith (· == '\n') ((lines cs).flatMap (trimEnd · ++ ['\n']))
      = trimEndWith (· == '\n') ((layoutLines cs).flatMap (· ++ ['\n'])) := by
    rw [← List.flatMap_map (f := trimEnd) (g := (· ++ ['\n'])), happend, List.flatMap_append,
      trimEndWith_append_of_all hfeeds]
  rw [htrimmed]
  rcases List.eq_nil_or_concat (layoutLines cs) with hnil | ⟨front, last, hconcat⟩
  · rw [layout_of_nil hnil, hnil]
    rfl
  · rw [List.concat_eq_append] at hconcat
    have hmem : last ∈ layoutLines cs := by simp [hconcat]
    have hne : last ≠ [] := by
      rintro rfl
      exact getLast?_layoutLines cs (by rw [hconcat, List.getLast?_concat])
    have hlast : ∀ c, ((front.flatMap (· ++ ['\n'])) ++ last).getLast? = some c →
        (c == '\n') = false := by
      intro c hc
      rw [List.getLast?_append_of_ne_nil _ hne] at hc
      rw [beq_eq_false_iff_ne]
      rintro rfl
      exact newline_not_mem_of_mem_layoutLines hmem (List.mem_of_getLast? hc)
    have hne' : layoutLines cs ≠ [] := by simp [hconcat]
    rw [layout_of_ne_nil hne', hconcat, List.flatMap_append, List.flatMap_singleton,
      ← List.append_assoc, trimEndWith_append_of_all (by simp)]
    congr 1
    exact (rdropWhile_of_getLast? hlast).symm

/-- The lines of a text in its layout; if nothing is left, there is one without anything in it. -/
theorem lines_layout (cs : List Char) :
    lines (layout cs) = if layoutLines cs = [] then [[]] else layoutLines cs := by
  split
  · rename_i hnil
    rw [layout_of_nil hnil]
    rfl
  · rename_i hne
    rw [layout_of_ne_nil hne, lines_flatMap fun _ => newline_not_mem_of_mem_layoutLines]
    refine (List.map_congr_left fun line hline => ?_).trans (List.map_id _)
    exact (endsPlainly_of_mem_layoutLines hline).dropReturn

/-- Whatever a text is, its layout ends in exactly one line feed and no line of it ends in a blank.
The lines of the layout are those of the text without the blanks at their ends and without the blank
lines at the end, in their order; a text in which all lines are blank is left with one line feed. So
a text in its layout keeps it. -/
theorem layout_normal (cs : List Char) :
    (∃ body, layout cs = body ++ ['\n'] ∧ body.getLast? ≠ some '\n')
      ∧ (∀ line ∈ lines (layout cs), EndsPlainly line)
      ∧ (∃ kept, Settled (lines cs) kept
        ∧ lines (layout cs) = if kept = [] then [[]] else kept)
      ∧ ((∀ line ∈ lines cs, ∀ c ∈ line, isBlank c = true) → layout cs = ['\n'])
      ∧ layout (layout cs) = layout cs := by
  refine ⟨⟨_, layout_eq cs, fun h => ?_⟩, fun line hline => ?_,
    ⟨layoutLines cs, settled_layoutLines cs, lines_layout cs⟩,
    fun h => layout_of_nil (layoutLines_eq_nil_iff.2 h), ?_⟩
  · exact absurd (eq_false_of_getLast?_rdropWhile h) (by simp)
  · rw [lines_layout] at hline
    split at hline
    · rw [List.mem_singleton.1 hline]
      exact fun c hc => nomatch hc
    · exact endsPlainly_of_mem_layoutLines hline
  · by_cases hnil : layoutLines cs = []
    · rw [layout_of_nil hnil]
      rfl
    · have hlines : lines (layout cs) = layoutLines cs := by rw [lines_layout, if_neg hnil]
      have hkept : layoutLines (layout cs) = layoutLines cs := layoutLines_of_lines hlines
        (fun line => endsPlainly_of_mem_layoutLines) (getLast?_layoutLines cs)
      rw [layout_of_ne_nil (hkept ▸ hnil), hkept, layout_of_ne_nil hnil]

/-- Carriage returns and blanks behind lines, and blank lines at the end. -/
example : layout "import a.B;\r\n\timport a.C;   \r\n\r\nint x;\r\n\r\n \t\r\n".toList
    = "import a.B;\n\timport a.C;\n\nint x;\n".toList := by decide

end Jarwright.Source
