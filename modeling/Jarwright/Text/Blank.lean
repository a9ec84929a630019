/-!
# Blank characters, trimming and lines

The blank characters are those of the Unicode property White_Space. Everything here works on lists
of characters; the functions on `String` at the end are their outer form.

* `trimEndWith`, `trimEnd`, `trim` remove characters at the ends;
* `words` splits at runs of blanks and keeps no empty word;
* `lines` splits after each line feed, drops one carriage return before it, and has no last line
  when the text ends in a line feed.
-/

namespace Jarwright.Text

/-- The property White_Space. -/
def isBlank (c : Char) : Bool :=
  let n := c.toNat
  (0x9 ≤ n && n ≤ 0xd) || n == 0x20 || n == 0x85 || n == 0xa0 || n == 0x1680
    || (0x2000 ≤ n && n ≤ 0x200a) || n == 0x2028 || n == 0x2029 || n == 0x202f
    || n == 0x205f || n == 0x3000

/-- Every blank of the ASCII range that core knows is blank. -/
theorem isBlank_of_isWhitespace (c : Char) (h : c.isWhitespace = true) : isBlank c = true := by
  simp only [Char.isWhitespace, Bool.or_eq_true, decide_eq_true_eq] at h
  rcases h with ((rfl | rfl) | rfl) | rfl <;> rfl

/-! ## Trimming -/

/-- Without the characters at the end that satisfy `p`. -/
def trimEndWith (p : Char → Bool) (cs : List Char) : List Char :=
  (cs.reverse.dropWhile p).reverse

/-- Without the blanks at the end. -/
def trimEnd (cs : List Char) : List Char := trimEndWith isBlank cs

/-- Without the blanks at both ends. -/
def trim (cs : List Char) : List Char := trimEnd (cs.dropWhile isBlank)

/-! ## Splitting -/

/-- Collects pieces; `piece` holds the characters of the current one, latest first. -/
def splitOnFrom (sep : Char) (piece : List Char) : List Char → List (List Char)
  | [] => [piece.reverse]
  | c :: cs =>
    if c = sep then piece.reverse :: splitOnFrom sep [] cs else splitOnFrom sep (c :: piece) cs

/-- The pieces between separators; one more than there are separators. -/
def splitOn (sep : Char) (cs : List Char) : List (List Char) := splitOnFrom sep [] cs

/-- Collects words; `word` holds the characters of the current one, latest first. -/
def wordsFrom (word : List Char) : List Char → List (List Char)
  | [] => if word.isEmpty then [] else [word.reverse]
  | c :: cs =>
    if isBlank c then
      if word.isEmpty then wordsFrom [] cs else word.reverse :: wordsFrom [] cs
    else wordsFrom (c :: word) cs

/-- The maximal runs of characters that are not blank. -/
def words (cs : List Char) : List (List Char) := wordsFrom [] cs

/-- Collects lines; `line` holds the characters of the current one, latest first. A line that a
line feed ends loses one carriage return before it; the last line has none to lose. -/
def linesFrom (line : List Char) : List Char → List (List Char)
  | [] => if line.isEmpty then [] else [line.reverse]
  | c :: cs =>
    if c = '\n' then
      (match line with
        | '\r' :: rest => rest.reverse
        | _ => line.reverse) :: linesFrom [] cs
    else linesFrom (c :: line) cs

/-- The lines of a text. -/
def lines (cs : List Char) : List (List Char) := linesFrom [] cs

/-- `cs` without `front`, if it starts with it. -/
def dropFront? : List Char → List Char → Option (List Char)
  | [], cs => some cs
  | _ :: _, [] => none
  | f :: front, c :: cs => if f = c then dropFront? front cs else none

/-- `cs` without `back`, if it ends with it. -/
def dropBack? (back cs : List Char) : Option (List Char) :=
  (dropFront? back.reverse cs.reverse).map List.reverse

/-- Whether `cs` starts with `front`. -/
def startsWith (front cs : List Char) : Bool := (dropFront? front cs).isSome

/-- Whether `cs` ends with `back`. -/
def endsWith (back cs : List Char) : Bool := (dropBack? back cs).isSome

theorem dropFront?_append (front cs : List Char) : dropFront? front (front ++ cs) = some cs := by
  induction front with
  | nil => cases cs <;> rfl
  | cons f front ih => simp [dropFront?, ih]

theorem eq_append_of_dropFront? {front cs rest : List Char}
    (h : dropFront? front cs = some rest) : cs = front ++ rest := by
  induction front generalizing cs with
  | nil => cases cs <;> simp_all [dropFront?]
  | cons f front ih =>
    cases cs with
    | nil => simp [dropFront?] at h
    | cons c cs =>
      simp only [dropFront?] at h
      split at h
      · rename_i hc
        rw [hc, ih h, List.cons_append]
      · cases h

theorem dropFront?_eq_some {front cs rest : List Char} :
    dropFront? front cs = some rest ↔ cs = front ++ rest :=
  ⟨eq_append_of_dropFront?, fun h => h ▸ dropFront?_append front rest⟩

theorem dropBack?_eq_some {back cs rest : List Char} :
    dropBack? back cs = some rest ↔ cs = rest ++ back := by
  rw [dropBack?, Option.map_eq_some_iff]
  constructor
  · rintro ⟨front, h, rfl⟩
    rw [← List.reverse_reverse cs, eq_append_of_dropFront? h, List.reverse_append,
      List.reverse_reverse]
  · rintro rfl
    refine ⟨rest.reverse, ?_, List.reverse_reverse rest⟩
    rw [List.reverse_append, dropFront?_append]

theorem endsWith_iff {back cs : List Char} : endsWith back cs = true ↔ back <:+ cs := by
  rw [endsWith, Option.isSome_iff_exists]
  constructor
  · rintro ⟨rest, h⟩
    exact ⟨rest, (dropBack?_eq_some.1 h).symm⟩
  · rintro ⟨rest, rfl⟩
    exact ⟨rest, dropBack?_eq_some.2 rfl⟩

end Jarwright.Text
