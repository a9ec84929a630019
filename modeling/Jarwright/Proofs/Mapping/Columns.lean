import Jarwright.Mapping.Csv
import Mathlib.Data.List.Basic

/-!
# The written forms of a row

A row is taken apart character by character, with a flag for an open quote. What is read is told by
a small grammar without any state:

* a column is written bare (`Bare`), or as quotes around a text with doubled quotes in it, behind
  which more may stand as if it were bare (`Spells`);
* a row is columns with commas between them (`Written`), or ends behind an opening quote
  (`Unterminated`).

Every row is one or the other (`written_or_unterminated`), and the two lemmas `columnsOf_written` and
`columnsOf_unterminated` follow the characters of either. So `columnsOf_eq_ok_iff` and
`columnsOf_eq_error_iff` say what is read from every row; `columnsOf_join` is the way back, for rows
that were put together from columns.
-/

namespace Jarwright.Mapping

/-! ## Columns -/

/-- A text with each of its quotes written twice. -/
def doubled : List Char → List Char
  | [] => []
  | c :: cs => if c = '"' then '"' :: '"' :: doubled cs else c :: doubled cs

/-- The text can stand for itself in a row. -/
structure Bare (cs : List Char) : Prop where
  comma : ',' ∉ cs
  quote : cs.head? ≠ some '"'

/-- The ways to write a column. -/
inductive Spells : List Char → List Char → Prop
  | bare {cs : List Char} : Bare cs → Spells cs cs
  | quoted (inside : List Char) {tail : List Char} :
    Bare tail → Spells (inside ++ tail) ('"' :: (doubled inside ++ '"' :: tail))

/-- The row is these columns with commas between them. -/
inductive Written : List (List Char) → List Char → Prop
  | last {column written : List Char} : Spells column written → Written [column] written
  | cons {column written : List Char} {columns : List (List Char)} {row : List Char} :
    Spells column written → Written columns row → Written (column :: columns) (written ++ ',' :: row)

/-- The last column of the row opens a quote and does not close it. -/
inductive Unterminated : List Char → Prop
  | last (inside : List Char) : Unterminated ('"' :: doubled inside)
  | cons {column written row : List Char} :
    Spells column written → Unterminated row → Unterminated (written ++ ',' :: row)

/-! ## Reading what is written -/

section Reading

variable {column tail rest : List Char}

theorem columnsFrom_false_cons (column : List Char) (c : Char) (cs : List Char) :
    columnsFrom false column (c :: cs)
      = if c = '"' ∧ column = [] then columnsFrom true column cs
        else if c = ',' then (columnsFrom false [] cs).map (column.reverse :: ·)
        else columnsFrom false (c :: column) cs := by
  conv_lhs => unfold columnsFrom
  rw [if_neg Bool.false_ne_true]

@[simp]
theorem columnsFrom_open (cs : List Char) :
    columnsFrom false [] ('"' :: cs) = columnsFrom true [] cs := by
  rw [columnsFrom_false_cons, if_pos ⟨rfl, rfl⟩]

@[simp]
theorem columnsFrom_comma (column rest : List Char) :
    columnsFrom false column (',' :: rest)
      = (columnsFrom false [] rest).map (column.reverse :: ·) := by
  rw [columnsFrom_false_cons, if_neg (by simp), if_pos rfl]

/-- Doubled quotes never close a column. -/
theorem columnsFrom_doubled (column inside rest : List Char) :
    columnsFrom true column (doubled inside ++ rest)
      = columnsFrom true (inside.reverse ++ column) rest := by
  induction inside generalizing column with
  | nil => rfl
  | cons c inside ih =>
    rw [List.reverse_cons, List.append_assoc, List.singleton_append, ← ih]
    by_cases hc : c = '"'
    · subst hc
      simp [doubled, columnsFrom]
    · conv_lhs => unfold columnsFrom
      simp [doubled, hc]

theorem columnsFrom_close (hrest : rest.head? ≠ some '"') :
    columnsFrom true column ('"' :: rest) = columnsFrom false column rest := by
  rw [columnsFrom, if_pos rfl, if_pos rfl]
  rintro cs rfl
  exact hrest rfl

theorem columnsFrom_bare (hcomma : ',' ∉ tail) (hquote : column = [] → tail.head? ≠ some '"') :
    columnsFrom false column (tail ++ rest) = columnsFrom false (tail.reverse ++ column) rest := by
  induction tail generalizing column with
  | nil => rfl
  | cons c tail ih =>
    have hc : c ≠ ',' := fun h => hcomma (by simp [h])
    have hopen : ¬ (c = '"' ∧ column = []) := by
      rintro ⟨rfl, hcolumn⟩
      exact hquote hcolumn rfl
    rw [List.cons_append, columnsFrom_false_cons, if_neg hopen, if_neg hc,
      ih (fun h => hcomma (List.mem_cons_of_mem c h)) (fun h => by cases h)]
    simp

/-- A column is read as what it stands for, if the row ends behind it or goes on with a comma. -/
theorem columnsFrom_spells {written : List Char} (h : Spells column written)
    (hrest : rest.head? ≠ some '"') :
    columnsFrom false [] (written ++ rest) = columnsFrom false column.reverse rest := by
  cases h with
  | bare h =>
    have hread : columnsFrom false [] (column ++ rest)
        = columnsFrom false (column.reverse ++ []) rest :=
      columnsFrom_bare h.comma fun _ => h.quote
    rwa [List.append_nil] at hread
  | @quoted inside tail h =>
    have hclosed : (tail ++ rest).head? ≠ some '"' := by
      cases tail with
      | nil => exact hrest
      | cons c tail => exact h.quote
    calc columnsFrom false [] ('"' :: (doubled inside ++ '"' :: tail) ++ rest)
        = columnsFrom true [] (doubled inside ++ '"' :: (tail ++ rest)) := by
          simp
      _ = columnsFrom true inside.reverse ('"' :: (tail ++ rest)) := by
          rw [columnsFrom_doubled, List.append_nil]
      _ = columnsFrom false inside.reverse (tail ++ rest) := columnsFrom_close hclosed
      _ = columnsFrom false (tail.reverse ++ inside.reverse) rest :=
          columnsFrom_bare h.comma fun _ => h.quote
      _ = columnsFrom false (inside ++ tail).reverse rest := by rw [List.reverse_append]

end Reading

variable {row : List Char} {columns : List (List Char)}

theorem columnsOf_written (h : Written columns row) : columnsOf row = .ok columns := by
  induction h with
  | @last column written h =>
    have hread : columnsFrom false [] (written ++ []) = columnsFrom false column.reverse [] :=
      columnsFrom_spells h (by simp)
    simpa [columnsOf, columnsFrom] using hread
  | @cons column written columns row h _ ih =>
    rw [columnsOf, columnsFrom_spells h (by simp), columnsFrom_comma, ← columnsOf, ih,
      List.reverse_reverse]
    rfl

theorem columnsOf_unterminated (h : Unterminated row) :
    columnsOf row = .error .unterminatedQuote := by
  induction h with
  | last inside =>
    have hopen : columnsOf ('"' :: doubled inside) = columnsFrom true [] (doubled inside ++ []) := by
      simp [columnsOf]
    rw [hopen, columnsFrom_doubled]
    rfl
  | @cons column written row h _ ih =>
    rw [columnsOf, columnsFrom_spells h (by simp), columnsFrom_comma, ← columnsOf, ih]
    rfl

/-! ## Every row -/

/-- What stands behind an opening quote ends with the row, or with a quote that is not doubled. -/
theorem exists_doubled (cs : List Char) :
    ∃ inside, cs = doubled inside
      ∨ ∃ rest, cs = doubled inside ++ '"' :: rest ∧ rest.head? ≠ some '"' := by
  match cs with
  | [] => exact ⟨[], .inl rfl⟩
  | c :: cs =>
    by_cases hc : c = '"'
    · subst hc
      match cs with
      | [] => exact ⟨[], .inr ⟨[], rfl, by simp⟩⟩
      | d :: cs =>
        by_cases hd : d = '"'
        · subst hd
          obtain ⟨inside, rfl | ⟨rest, rfl, hrest⟩⟩ := exists_doubled cs
          · exact ⟨'"' :: inside, .inl (by simp [doubled])⟩
          · exact ⟨'"' :: inside, .inr ⟨rest, by simp [doubled], hrest⟩⟩
        · exact ⟨[], .inr ⟨d :: cs, rfl, by simpa using hd⟩⟩
    · obtain ⟨inside, rfl | ⟨rest, rfl, hrest⟩⟩ := exists_doubled cs
      · exact ⟨c :: inside, .inl (by simp [doubled, hc])⟩
      · exact ⟨c :: inside, .inr ⟨rest, by simp [doubled, hc], hrest⟩⟩

/-- What does not begin with a quote is bare up to its first comma. -/
theorem exists_bare {cs : List Char} (h : cs.head? ≠ some '"') :
    Bare cs ∨ ∃ front rest, cs = front ++ ',' :: rest ∧ Bare front := by
  by_cases hcomma : ',' ∈ cs
  · obtain ⟨front, rest, rfl, hfront⟩ := List.eq_append_cons_of_mem hcomma
    refine .inr ⟨front, rest, rfl, hfront, fun hquote => h ?_⟩
    cases front with
    | nil => cases hquote
    | cons c front => exact hquote
  · exact .inl ⟨hcomma, h⟩

/-- A row begins with a column, unless it does not even close its first quote. -/
theorem exists_spells (row : List Char) :
    Unterminated row ∨ ∃ column written, Spells column written
      ∧ (row = written ∨ ∃ rest, row = written ++ ',' :: rest) := by
  by_cases hquote : row.head? = some '"'
  · obtain ⟨cs, rfl⟩ := List.head?_eq_some_iff.1 hquote
    obtain ⟨inside, rfl | ⟨behind, rfl, hbehind⟩⟩ := exists_doubled cs
    · exact .inl (.last inside)
    · rcases exists_bare hbehind with hbare | ⟨front, rest, rfl, hbare⟩
      · exact .inr ⟨_, _, .quoted inside hbare, .inl rfl⟩
      · exact .inr ⟨_, _, .quoted inside hbare, .inr ⟨rest, by simp⟩⟩
  · rcases exists_bare hquote with hbare | ⟨front, rest, rfl, hbare⟩
    · exact .inr ⟨_, _, .bare hbare, .inl rfl⟩
    · exact .inr ⟨_, _, .bare hbare, .inr ⟨rest, rfl⟩⟩

theorem written_or_unterminated (row : List Char) :
    (∃ columns, Written columns row) ∨ Unterminated row := by
  rcases exists_spells row with h | ⟨column, written, hspells, rfl | ⟨rest, hrow⟩⟩
  · exact .inr h
  · exact .inl ⟨_, .last hspells⟩
  · have hshorter : rest.length < row.length := by
      rw [hrow, List.length_append, List.length_cons]
      omega
    rw [hrow]
    rcases written_or_unterminated rest with ⟨columns, h⟩ | h
    · exact .inl ⟨_, .cons hspells h⟩
    · exact .inr (.cons hspells h)
termination_by row.length

theorem columnsOf_eq_ok_iff : columnsOf row = .ok columns ↔ Written columns row := by
  constructor
  · intro h
    rcases written_or_unterminated row with ⟨found, hfound⟩ | hopen
    · rw [columnsOf_written hfound] at h
      exact Except.ok.inj h ▸ hfound
    · rw [columnsOf_unterminated hopen] at h
      cases h
  · exact columnsOf_written

theorem columnsOf_eq_error_iff {fault : RowFault} :
    columnsOf row = .error fault ↔ fault = .unterminatedQuote ∧ Unterminated row := by
  constructor
  · intro h
    rcases written_or_unterminated row with ⟨found, hfound⟩ | hopen
    · rw [columnsOf_written hfound] at h
      cases h
    · rw [columnsOf_unterminated hopen] at h
      exact ⟨(Except.error.inj h).symm, hopen⟩
  · rintro ⟨rfl, hopen⟩
    exact columnsOf_unterminated hopen

theorem Written.unique {columns' : List (List Char)} (h : Written columns row)
    (h' : Written columns' row) : columns = columns' :=
  Except.ok.inj ((columnsOf_written h).symm.trans (columnsOf_written h'))

theorem Written.not_unterminated (h : Written columns row) : ¬ Unterminated row := by
  intro hopen
  have hok := columnsOf_written h
  rw [columnsOf_unterminated hopen] at hok
  cases hok

/-! ## More text behind a row -/

section More

variable {more : List Char}

theorem Bare.append {cs : List Char} (h : Bare cs) (hmore : ∀ c ∈ more, c ≠ ',' ∧ c ≠ '"') :
    Bare (cs ++ more) := by
  constructor
  · intro hcomma
    rcases List.mem_append.1 hcomma with hc | hc
    · exact h.comma hc
    · exact (hmore _ hc).1 rfl
  · cases cs with
    | nil =>
      intro hquote
      exact (hmore _ (List.mem_of_mem_head? hquote)).2 rfl
    | cons c cs => exact h.quote

theorem Spells.append {column written : List Char} (h : Spells column written)
    (hmore : ∀ c ∈ more, c ≠ ',' ∧ c ≠ '"') : Spells (column ++ more) (written ++ more) := by
  cases h with
  | bare h => exact .bare (h.append hmore)
  | quoted inside h => simpa using Spells.quoted inside (h.append hmore)

/-- Plain text behind a row becomes part of its last column. -/
theorem Written.append (h : Written columns row) (hmore : ∀ c ∈ more, c ≠ ',' ∧ c ≠ '"') :
    ∃ front last, columns = front ++ [last]
      ∧ Written (front ++ [last ++ more]) (row ++ more) := by
  induction h with
  | @last column written h => exact ⟨[], column, rfl, .last (h.append hmore)⟩
  | @cons column written columns row h _ ih =>
    obtain ⟨front, last, rfl, hrow⟩ := ih
    exact ⟨column :: front, last, rfl, by simpa using Written.cons h hrow⟩

theorem doubled_append (cs cs' : List Char) : doubled (cs ++ cs') = doubled cs ++ doubled cs' := by
  induction cs with
  | nil => rfl
  | cons c cs ih => by_cases hc : c = '"' <;> simp [doubled, hc, ih]

theorem doubled_of_not_mem {cs : List Char} (h : '"' ∉ cs) : doubled cs = cs := by
  induction cs with
  | nil => rfl
  | cons c cs ih =>
    rw [List.mem_cons, not_or] at h
    rw [doubled, if_neg (Ne.symm h.1), ih h.2]

theorem Unterminated.append (h : Unterminated row) (hmore : ∀ c ∈ more, c ≠ ',' ∧ c ≠ '"') :
    Unterminated (row ++ more) := by
  induction h with
  | last inside =>
    have hplain : doubled more = more := doubled_of_not_mem fun h => (hmore _ h).2 rfl
    rw [List.cons_append, ← hplain, ← doubled_append]
    exact .last (inside ++ more)
  | cons h _ ih => simpa using Unterminated.cons h ih

end More

/-! ## Writing rows -/

/-- How a column is put into a row. -/
inductive Style where
  | bare | quoted
  deriving DecidableEq, Repr

namespace Style

/-- The column as it stands in the row. -/
def write : Style → List Char → List Char
  | bare, cs => cs
  | quoted, cs => '"' :: (doubled cs ++ ['"'])

/-- Whether a column may be written in this way: quotes are always right. -/
def Allows : Style → List Char → Prop
  | bare, cs => Bare cs
  | quoted, _ => True

theorem spells_write {style : Style} {column : List Char} (h : style.Allows column) :
    Spells column (style.write column) := by
  cases style with
  | bare => exact .bare h
  | quoted =>
    have hspells : Spells (column ++ []) ('"' :: (doubled column ++ '"' :: [])) :=
      .quoted column ⟨by simp, by simp⟩
    rwa [List.append_nil] at hspells

end Style

theorem written_join {columns : List (Style × List Char)} (hne : columns ≠ [])
    (h : ∀ column ∈ columns, column.1.Allows column.2) :
    Written (columns.map (·.2)) ([','].intercalate (columns.map fun c => c.1.write c.2)) := by
  induction columns with
  | nil => exact absurd rfl hne
  | cons column columns ih =>
    have hspells := Style.spells_write (h column List.mem_cons_self)
    cases columns with
    | nil => simpa using Written.last hspells
    | cons next columns =>
      have hrest := ih (by simp) fun c hc => h c (List.mem_cons_of_mem column hc)
      simpa [List.intercalate_cons_cons] using Written.cons hspells hrest

/-- **A row gives back the columns that it was put together from**, each of them written bare where
that is allowed, or between quotes. -/
theorem columnsOf_join (columns : List (Style × List Char)) (hne : columns ≠ [])
    (h : ∀ column ∈ columns, column.1.Allows column.2) :
    columnsOf ([','].intercalate (columns.map fun c => c.1.write c.2))
      = .ok (columns.map (·.2)) :=
  columnsOf_written (written_join hne h)

/-- An empty column of either style, quotes at both ends, and quotes in the middle of a bare text. -/
def sampleColumns : List (Style × List Char) :=
  [(.bare, []), (.quoted, "\"a,\"".toList), (.bare, "b\"\"c".toList), (.quoted, [])]

theorem columnsOf_join_sampleColumns :
    sampleColumns ≠ [] ∧ (∀ column ∈ sampleColumns, column.1.Allows column.2)
      ∧ columnsOf ",\"\"\"a,\"\"\",b\"\"c,\"\"".toList
        = .ok [[], "\"a,\"".toList, "b\"\"c".toList, []] := by
  have hallowed : ∀ column ∈ sampleColumns, column.1.Allows column.2 := by
    simp only [sampleColumns, List.forall_mem_cons]
    exact ⟨⟨by decide, by decide⟩, trivial, ⟨by decide, by decide⟩, trivial, by simp⟩
  exact ⟨by decide, hallowed, columnsOf_join sampleColumns (by decide) hallowed⟩

end Jarwright.Mapping
