import Jarwright.Proofs.Mapping.Columns
import Jarwright.Proofs.Text.Number
import Jarwright.Proofs.Text.Trimming

/-!
# The rows of a table

A table with commas is read row by row, from the second line on, and blank lines are passed over.
Every row is checked, whether it is for this side or not; the first one that is malformed ends the
reading.

* `Says` is what a row says, `Fails` what is wrong with it, both told by its columns and not by how
  they are read (`Row.parse_eq_ok_iff`, `Row.parse_eq_error_iff`);
* `malformed_iff`: a row is malformed, or else says something;
* `says_cleanLine`: the carriage returns at the end of a line can be left in it;
* `LastRename` is the answer that the last row for a name gives on a side, `Outcome` what can come
  of rows. `Outcome.enter` is the step for one row, `outcome_parseRows` the run over all of them.

`parse_rows` is the result on all texts.
-/

namespace Jarwright.Mapping.Csv

/-! ## What a row says -/

/-- The columns are those of a row: two names, a number of one byte, and what else there may be. -/
def Gives (columns : List (List Char)) (row : Row) : Prop :=
  ∃ third more, columns = row.old.toList :: row.new.toList :: third :: more
    ∧ Text.IsNumeral (Text.trim third) row.code ∧ row.code < 256

/-- What the line says as a row. -/
def Says (line : List Char) (row : Row) : Prop := ∃ columns, Written columns line ∧ Gives columns row

/-- What is wrong with the line as a row. -/
inductive Fails (line : List Char) : RowFault → Prop
  | unterminatedQuote : Unterminated line → Fails line .unterminatedQuote
  | tooFewColumns {columns : List (List Char)} :
    Written columns line → columns.length < 3 → Fails line (.tooFewColumns columns.length)
  /-- The third column is no number below 256. -/
  | badCode {old new third : List Char} {more : List (List Char)} {cause : Text.NumberFault} :
    Written (old :: new :: third :: more) line →
    (∀ n < 256, ¬ Text.IsNumeral (Text.trim third) n) →
    Text.unsigned 256 (Text.trim third) = .error cause →
    Fails line (.badCode (String.ofList third) cause)

/-- Something is wrong with the line as a row. -/
def Malformed (line : List Char) : Prop := ∃ cause, Fails line cause

variable {line : List Char} {row : Row} {cause : RowFault}

theorem Row.parse_of_says (h : Says line row) : Row.parse line = .ok row := by
  obtain ⟨columns, hwritten, third, more, rfl, hcode⟩ := h
  rw [Row.parse, columnsOf_written hwritten]
  simp only [Text.unsigned_eq_ok_iff.2 hcode, String.ofList_toList]

theorem Row.parse_of_fails (h : Fails line cause) : Row.parse line = .error cause := by
  cases h with
  | unterminatedQuote h => rw [Row.parse, columnsOf_unterminated h]
  | @tooFewColumns columns h hfew =>
    rw [Row.parse, columnsOf_written h]
    match columns, hfew with
    | [], _ => rfl
    | [_], _ => rfl
    | [_, _], _ => rfl
  | badCode h _ hcause =>
    rw [Row.parse, columnsOf_written h]
    simp only [hcause]

/-- Every row says something or fails. -/
theorem says_or_fails (line : List Char) : (∃ row, Says line row) ∨ Malformed line := by
  rcases written_or_unterminated line with ⟨columns, h⟩ | h
  · match columns, h with
    | [], h => exact .inr ⟨_, .tooFewColumns h (by simp)⟩
    | [_], h => exact .inr ⟨_, .tooFewColumns h (by simp)⟩
    | [_, _], h => exact .inr ⟨_, .tooFewColumns h (by simp)⟩
    | old :: new :: third :: more, h =>
      cases hcode : Text.unsigned 256 (Text.trim third) with
      | ok n =>
        refine .inl ⟨⟨String.ofList old, String.ofList new, n⟩, _, h, third, more, ?_,
          Text.unsigned_eq_ok_iff.1 hcode⟩
        rw [String.toList_ofList, String.toList_ofList]
      | error cause =>
        refine .inr ⟨_, .badCode h (fun n hn hnumeral => ?_) hcode⟩
        rw [Text.unsigned_eq_ok_iff.2 ⟨hnumeral, hn⟩] at hcode
        cases hcode
  · exact .inr ⟨_, .unterminatedQuote h⟩

theorem Row.parse_eq_ok_iff : Row.parse line = .ok row ↔ Says line row := by
  refine ⟨fun h => ?_, Row.parse_of_says⟩
  rcases says_or_fails line with ⟨found, hrow⟩ | ⟨cause, hfails⟩
  · rw [Row.parse_of_says hrow] at h
    exact Except.ok.inj h ▸ hrow
  · rw [Row.parse_of_fails hfails] at h
    cases h

theorem Row.parse_eq_error_iff : Row.parse line = .error cause ↔ Fails line cause := by
  refine ⟨fun h => ?_, Row.parse_of_fails⟩
  rcases says_or_fails line with ⟨found, hrow⟩ | ⟨cause', hfails⟩
  · rw [Row.parse_of_says hrow] at h
    cases h
  · rw [Row.parse_of_fails hfails] at h
    exact Except.error.inj h ▸ hfails

theorem says_unique {row' : Row} (h : Says line row) (h' : Says line row') : row = row' :=
  Except.ok.inj ((Row.parse_of_says h).symm.trans (Row.parse_of_says h'))

/-- A row is malformed exactly if it says nothing. -/
theorem malformed_iff : Malformed line ↔ ∀ row, ¬ Says line row := by
  constructor
  · rintro ⟨cause, hfails⟩ row hrow
    have h := Row.parse_of_says hrow
    rw [Row.parse_of_fails hfails] at h
    cases h
  · intro h
    rcases says_or_fails line with ⟨row, hrow⟩ | hfails
    · exact absurd hrow (h row)
    · exact hfails

/-! ## Carriage returns behind a row -/

section Returns

variable {returns : List Char}

/-- Blanks behind the last column change nothing in what the columns say. -/
theorem gives_append {front : List (List Char)} {last : List Char}
    (hreturns : ∀ c ∈ returns, c = '\r') :
    Gives (front ++ [last ++ returns]) row ↔ Gives (front ++ [last]) row := by
  have htrim : Text.trim (last ++ returns) = Text.trim last :=
    Text.trim_append_blanks fun c hc => by rw [hreturns c hc]; rfl
  match front with
  | [] => simp [Gives]
  | [_] => simp [Gives]
  | [_, _] => simp [Gives, htrim]
  | _ :: _ :: _ :: _ => simp [Gives]

/-- A line says the same without the carriage returns at its end. -/
theorem says_cleanLine : Says (cleanLine line) row ↔ Says line row := by
  obtain ⟨returns, hline, hall⟩ := Text.trimEndWith_append (· == '\r') line
  have hreturns : ∀ c ∈ returns, c = '\r' := fun c hc => beq_iff_eq.1 (hall c hc)
  have hplain : ∀ c ∈ returns, c ≠ ',' ∧ c ≠ '"' := fun c hc => by
    rw [hreturns c hc]
    decide
  rw [← cleanLine] at hline
  rcases written_or_unterminated (cleanLine line) with ⟨columns, h⟩ | h
  · obtain ⟨front, last, rfl, hlonger⟩ := h.append hplain
    rw [← hline] at hlonger
    calc Says (cleanLine line) row
        ↔ Gives (front ++ [last]) row :=
          ⟨fun ⟨_, h', hgives⟩ => h.unique h' ▸ hgives, fun hgives => ⟨_, h, hgives⟩⟩
      _ ↔ Gives (front ++ [last ++ returns]) row := (gives_append hreturns).symm
      _ ↔ Says line row :=
          ⟨fun hgives => ⟨_, hlonger, hgives⟩, fun ⟨_, h', hgives⟩ => hlonger.unique h' ▸ hgives⟩
  · have hopen := h.append hplain
    rw [← hline] at hopen
    exact iff_of_false (fun ⟨_, h', _⟩ => h'.not_unterminated h)
      fun ⟨_, h', _⟩ => h'.not_unterminated hopen

theorem malformed_cleanLine : Malformed (cleanLine line) ↔ Malformed line := by
  simp only [malformed_iff, says_cleanLine]

theorem isBlankLine_cleanLine : isBlankLine (cleanLine line) = isBlankLine line := by
  obtain ⟨returns, hline, hall⟩ := Text.trimEndWith_append (· == '\r') line
  have hblank : returns.all Text.isBlank = true := by
    rw [List.all_eq_true]
    intro c hc
    rw [beq_iff_eq.1 (hall c hc)]
    rfl
  conv_rhs => rw [hline]
  rw [isBlankLine, isBlankLine, List.all_append, hblank, Bool.and_true, cleanLine]

end Returns

/-! ## Tables -/

/-- The lines from this number on that are not blank, each with its number. -/
def rowsFrom (number : Nat) (lines : List (List Char)) : List (List Char × Nat) :=
  (lines.zipIdx number).filter fun (line, _) => !isBlankLine line

/-- The rows of a text, each with the number of its line: of the lines, counted from one, those
behind the first one that are not blank. -/
def rows (text : String) : List (List Char × Nat) :=
  (((Text.lines text.toList).zipIdx 1).drop 1).filter fun (line, _) => !isBlankLine line

theorem rows_eq (text : String) : rows text = rowsFrom 2 ((Text.lines text.toList).drop 1) := by
  rw [rows, rowsFrom]
  cases Text.lines text.toList <;> rfl

/-- On this side the line gives the name another one. -/
def Renames (side : Side) (line : List Char) (name new : String) : Prop :=
  ∃ code, Says line ⟨name, new, code⟩ ∧ (code = 2 ∨ code = side.code)

/-- The new name in the last row for a name, or that there is no such row. -/
def LastRename (side : Side) (rows : List (List Char × Nat)) (name : String) :
    Option String → Prop
  | some new => ∃ before row after, rows = before ++ row :: after ∧ Renames side row.1 name new
    ∧ ∀ r ∈ after, ∀ other, ¬ Renames side r.1 name other
  | none => ∀ r ∈ rows, ∀ other, ¬ Renames side r.1 name other

/-- What can come of rows: the fault of the first one that is malformed, or else a table that
answers with the last row for each name. -/
def Outcome (side : Side) (rows : List (List Char × Nat)) : Except Fault Csv → Prop
  | .error fault => ∃ before line number after cause, rows = before ++ (line, number) :: after
    ∧ (∀ row ∈ before, ¬ Malformed row.1) ∧ Malformed line ∧ Fails (cleanLine line) cause
    ∧ fault = .badRow number cause
  | .ok table => (∀ row ∈ rows, ¬ Malformed row.1)
    ∧ ∀ name, LastRename side rows name (table.get? name)

section Tables

variable {side : Side} {done : List (List Char × Nat)} {table : Csv} {number : Nat}

theorem LastRename.last {name new : String} (h : Renames side line name new) :
    LastRename side (done ++ [(line, number)]) name (some new) :=
  ⟨done, (line, number), [], rfl, h, by simp⟩

theorem LastRename.skip {name : String} {answer : Option String} (h : LastRename side done name answer)
    (hline : ∀ other, ¬ Renames side line name other) :
    LastRename side (done ++ [(line, number)]) name answer := by
  cases answer with
  | none =>
    intro r hr
    rcases List.mem_append.1 hr with hr | hr
    · exact h r hr
    · rw [List.mem_singleton.1 hr]
      exact hline
  | some new =>
    obtain ⟨before, row, after, rfl, hrow, hafter⟩ := h
    refine ⟨before, row, after ++ [(line, number)], by simp, hrow, fun r hr => ?_⟩
    rcases List.mem_append.1 hr with hr | hr
    · exact hafter r hr
    · rw [List.mem_singleton.1 hr]
      exact hline

/-- A table with the new name of a row, if the row is for this side. -/
def enter (side : Side) (table : Csv) (row : Row) : Csv :=
  if side.accepts row.code then ⟨table.names.insert row.old row.new⟩ else table

theorem accepts_iff {code : Nat} : side.accepts code = true ↔ code = 2 ∨ code = side.code := by
  simp [Side.accepts, Side.bothCode]

/-- The step for one row that says something. -/
theorem Outcome.enter (h : Outcome side done (.ok table)) (hrow : Says line row) :
    Outcome side (done ++ [(line, number)]) (.ok (enter side table row)) := by
  obtain ⟨hsound, hlast⟩ := h
  refine ⟨fun r hr => ?_, fun name => ?_⟩
  · rcases List.mem_append.1 hr with hr | hr
    · exact hsound r hr
    · rw [List.mem_singleton.1 hr, malformed_iff]
      exact fun h => h row hrow
  have hrenames {new : String} (h : Renames side line name new) :
      side.accepts row.code = true ∧ row.old = name ∧ row.new = new := by
    obtain ⟨code, hrow', hcode⟩ := h
    rw [says_unique hrow hrow']
    exact ⟨accepts_iff.2 hcode, rfl, rfl⟩
  rw [Csv.enter]
  split
  · rename_i haccepts
    by_cases hname : row.old = name
    · have hget : (⟨table.names.insert row.old row.new⟩ : Csv).get? name = some row.new := by
        simp [get?, hname]
      rw [hget]
      exact .last ⟨row.code, hname ▸ hrow, accepts_iff.1 haccepts⟩
    · have hget : (⟨table.names.insert row.old row.new⟩ : Csv).get? name = table.get? name := by
        simp [get?, Std.HashMap.getElem?_insert, hname]
      rw [hget]
      exact (hlast name).skip fun other h => hname (hrenames h).2.1
  · rename_i haccepts
    exact (hlast name).skip fun other h => haccepts (hrenames h).1

/-- The run over all lines: the invariant of the table so far becomes the outcome. -/
theorem outcome_parseRows (lines : List (List Char)) (h : Outcome side done (.ok table)) :
    Outcome side (done ++ rowsFrom number lines) (parseRows side table number lines) := by
  induction lines generalizing done table number with
  | nil => simpa [rowsFrom, parseRows] using h
  | cons line lines ih =>
    rw [parseRows]
    simp only [isBlankLine_cleanLine]
    split
    · rename_i hblank
      have hrows : rowsFrom number (line :: lines) = rowsFrom (number + 1) lines := by
        simp [rowsFrom, hblank]
      rw [hrows]
      exact ih h
    · rename_i hblank
      have hrows : rowsFrom number (line :: lines)
          = (line, number) :: rowsFrom (number + 1) lines := by
        simp [rowsFrom, hblank]
      rw [hrows]
      cases hrow : Row.parse (cleanLine line) with
      | error cause =>
        have hfails := Row.parse_eq_error_iff.1 hrow
        exact ⟨done, line, number, _, cause, rfl, h.1, malformed_cleanLine.1 ⟨cause, hfails⟩,
          hfails, rfl⟩
      | ok row =>
        have hfound := says_cleanLine.1 (Row.parse_eq_ok_iff.1 hrow)
        rw [List.append_cons]
        exact ih (h.enter hfound)

end Tables

theorem outcome_parse (text : String) (side : Side) :
    Outcome side (rows text) (parse text side) := by
  have hstart : Outcome side [] (.ok empty) := by
    refine ⟨by simp, fun name => ?_⟩
    have hget : empty.get? name = none := by simp [get?, empty]
    rw [hget]
    intro r hr
    cases hr
  rw [rows_eq]
  exact outcome_parseRows _ hstart

/-- **A table is read unless one of its rows is malformed**, and the fault then has the number of the
first such row. A table that is read answers with the last row for a name that is for its side. -/
theorem parse_rows (text : String) (side : Side) :
    ((∃ fault, parse text side = .error fault) ↔ ∃ row ∈ rows text, Malformed row.1)
      ∧ (∀ fault, parse text side = .error fault →
        ∃ before line number after cause, rows text = before ++ (line, number) :: after
          ∧ (∀ row ∈ before, ¬ Malformed row.1) ∧ Malformed line
          ∧ Fails (cleanLine line) cause ∧ fault = .badRow number cause)
      ∧ ∀ table, parse text side = .ok table →
        ∀ name, LastRename side (rows text) name (table.get? name) := by
  have h := outcome_parse text side
  refine ⟨?_, fun fault hfault => ?_, fun table htable => ?_⟩
  · cases hparse : parse text side with
    | error fault =>
      rw [hparse] at h
      obtain ⟨before, line, number, after, cause, hrows, -, hmalformed, -⟩ := h
      exact iff_of_true ⟨fault, rfl⟩ ⟨(line, number), by simp [hrows], hmalformed⟩
    | ok table =>
      rw [hparse] at h
      exact iff_of_false (by simp) fun ⟨row, hrow, hmalformed⟩ => h.1 row hrow hmalformed
  · rw [hfault] at h
    exact h
  · rw [htable] at h
    exact h.2

/-- Two blank lines, a row, and then two rows with too few columns. -/
def brokenText : String := "old,new,side\r\n\n \t\r\na,b,2\nc,\"d,e\"\r\nf\n"

/-- Four rows for the name `a`, two of them for the server. -/
def sidesText : String := "old,new,side\na,b,0\n\na,c,1\r\na,\"d,\", +2\na,e,0\r\r\n"

/-- What is read of the second text for the server. -/
def sidesTable : Csv := ⟨((∅ : Std.HashMap String String).insert "a" "c").insert "a" "d,"⟩

theorem parse_rows_samples :
    (parse brokenText .server = .error (.badRow 5 (.tooFewColumns 2))
      ∧ ∃ before line number after cause, rows brokenText = before ++ (line, number) :: after
        ∧ (∀ row ∈ before, ¬ Malformed row.1) ∧ Malformed line
        ∧ Fails (cleanLine line) cause ∧ .badRow 5 (.tooFewColumns 2) = Fault.badRow number cause)
      ∧ parse sidesText .server = .ok sidesTable ∧ sidesTable.get? "a" = some "d,"
      ∧ LastRename .server (rows sidesText) "a" (sidesTable.get? "a") := by
  have hbroken : parse brokenText .server = .error (.badRow 5 (.tooFewColumns 2)) := by cbv
  have hsides : parse sidesText .server = .ok sidesTable := by cbv
  exact ⟨⟨hbroken, (parse_rows brokenText .server).2.1 _ hbroken⟩, hsides,
    by simp [sidesTable, get?], (parse_rows sidesText .server).2.2 _ hsides "a"⟩

end Jarwright.Mapping.Csv
