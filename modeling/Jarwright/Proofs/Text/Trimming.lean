import Jarwright.Text.Blank
import Mathlib.Data.List.TakeWhile

/-!
# What trimming takes away

Trimming takes away characters of a kind at the ends. So it does nothing to the characters of other
kinds (`mem_trim_iff`), and blanks that are put behind a text are taken away again
(`trim_append_blanks`).
-/

namespace Jarwright.Text

variable {cs : List Char} {x : Char}

/-- What is trimmed at the end is a run of characters of the kind. -/
theorem trimEndWith_append (p : Char → Bool) (cs : List Char) :
    ∃ tail, cs = trimEndWith p cs ++ tail ∧ ∀ c ∈ tail, p c = true := by
  refine ⟨(cs.reverse.takeWhile p).reverse, ?_, fun c hc => ?_⟩
  · rw [trimEndWith, ← List.reverse_append, List.takeWhile_append_dropWhile, List.reverse_reverse]
  · exact List.all_eq_true.1 List.all_takeWhile c (List.mem_reverse.1 hc)

theorem trimEndWith_append_of_all {p : Char → Bool} {tail : List Char}
    (h : ∀ c ∈ tail, p c = true) : trimEndWith p (cs ++ tail) = trimEndWith p cs := by
  rw [trimEndWith, trimEndWith, List.reverse_append, List.dropWhile_append_of_pos]
  exact fun c hc => h c (List.mem_reverse.1 hc)

/-- Blanks behind a text say nothing. -/
theorem trim_append_blanks {blanks : List Char} (h : ∀ c ∈ blanks, isBlank c = true) :
    trim (cs ++ blanks) = trim cs := by
  rw [trim, trim, List.dropWhile_append]
  split
  · rename_i hcs
    rw [List.isEmpty_iff] at hcs
    rw [hcs, List.dropWhile_eq_nil_iff.2 h]
  · exact trimEndWith_append_of_all h

theorem mem_dropWhile_iff {p : Char → Bool} (hx : p x = false) : x ∈ cs.dropWhile p ↔ x ∈ cs := by
  induction cs with
  | nil => simp
  | cons c cs ih =>
    rw [List.dropWhile_cons]
    split
    · rename_i hc
      have hne : x ≠ c := by
        rintro rfl
        simp [hx] at hc
      simp [ih, hne]
    · rfl

/-- Trimming keeps everything that is not blank. -/
theorem mem_trim_iff (hx : isBlank x = false) : x ∈ trim cs ↔ x ∈ cs := by
  rw [trim, trimEnd, trimEndWith, List.mem_reverse, mem_dropWhile_iff hx, List.mem_reverse,
    mem_dropWhile_iff hx]

end Jarwright.Text
