import Jarwright.Mapping.Compact
import Jarwright.Proofs.Text.Splitting

/-!
# The last line for a name

A compact table is looked up in three maps, of which the one for methods joins name and descriptor
to one key. What is found is nevertheless said by the lines alone.

* `Says` is what a line says, as words; `LastSaid` is the answer that the last line for a query
  gives;
* `methodKey_inj`: words have no spaces, so that a key can be taken apart in one way and no query,
  whatever is in it, meets the key of another method;
* `lookUp_insert_self` and `lookUp_insert_of_ne` are the step for one line, `lastSaid_foldl` the run
  over all of them.

`lookups_lastSaid` is the result on all texts.
-/

namespace Jarwright.Mapping

/-! ## Lines -/

/-- The words of a line that renames something. -/
def Entry.words : Entry → List String
  | .type old new => [old, new]
  | .field owner old new => [owner, old, new]
  | .method owner old descriptor new => [owner, old, descriptor, new]

/-- The line, trimmed, is not empty and no comment, and these are its words. -/
def Says (line : List Char) (words : List String) : Prop :=
  Text.trim line ≠ [] ∧ (Text.trim line).head? ≠ some '#'
    ∧ Text.words (Text.trim line) = words.map String.toList

/-- The line has one of the three shapes. -/
def Shaped (line : List Char) : Prop :=
  ∃ words, Says line words ∧ 2 ≤ words.length ∧ words.length ≤ 4

theorem says_of_map_ofList {line : List Char} {words : List String}
    (hcomment : ∀ rest, Text.trim line ≠ '#' :: rest)
    (hwords : (Text.words (Text.trim line)).map String.ofList = words) (hne : words ≠ []) :
    Says line words := by
  subst hwords
  refine ⟨?_, ?_, by simp⟩
  · intro hempty
    rw [hempty] at hne
    exact hne rfl
  · intro hhead
    obtain ⟨rest, hrest⟩ := List.head?_eq_some_iff.1 hhead
    exact hcomment rest hrest

/-- A line is read as what it says. -/
theorem ofLine?_eq_some_iff {line : List Char} {entry : Entry} :
    Entry.ofLine? line = some entry ↔ Says line entry.words := by
  constructor
  · intro h
    unfold Entry.ofLine? at h
    split at h
    · cases h
    · rename_i hcomment
      split at h
      · cases h
        exact says_of_map_ofList hcomment ‹_› (by simp [Entry.words])
      · cases h
        exact says_of_map_ofList hcomment ‹_› (by simp [Entry.words])
      · cases h
        exact says_of_map_ofList hcomment ‹_› (by simp [Entry.words])
      · cases h
  · rintro ⟨-, hhead, hwords⟩
    have hmap : (Text.words (Text.trim line)).map String.ofList = entry.words := by
      simp [hwords, Function.comp_def]
    unfold Entry.ofLine?
    split
    · rename_i hcomment
      exact absurd (by rw [hcomment]; rfl) hhead
    · rw [hmap]
      cases entry <;> rfl

theorem shaped_iff {line : List Char} : Shaped line ↔ ∃ entry, Entry.ofLine? line = some entry := by
  simp only [ofLine?_eq_some_iff]
  constructor
  · rintro ⟨words, hsays, hmin, hmax⟩
    rcases words with _ | ⟨a, _ | ⟨b, _ | ⟨c, _ | ⟨d, _ | ⟨e, more⟩⟩⟩⟩⟩
    · cases hmin
    · simp at hmin
    · exact ⟨.type a b, hsays⟩
    · exact ⟨.field a b c, hsays⟩
    · exact ⟨.method a b c d, hsays⟩
    · simp only [List.length_cons] at hmax
      omega
  · rintro ⟨entry, hsays⟩
    exact ⟨entry.words, hsays, by cases entry <;> simp [Entry.words]⟩

/-- Words have no spaces in them. -/
theorem Says.space_not_mem {line : List Char} {words : List String} (h : Says line words)
    {word : String} (hword : word ∈ words) : ' ' ∉ word.toList := by
  intro hspace
  have hmem : word.toList ∈ Text.words (Text.trim line) := by
    rw [h.2.2]
    exact List.mem_map_of_mem hword
  exact absurd (Text.isBlank_eq_false_of_mem_words hmem hspace) (by decide)

/-! ## Queries -/

/-- What a table can be asked for. -/
inductive Query where
  | type (name : String)
  | field (owner name : String)
  | method (owner name descriptor : String)

namespace Query

/-- The words of a query. -/
def words : Query → List String
  | type name => [name]
  | field owner name => [owner, name]
  | method owner name descriptor => [owner, name, descriptor]

/-- The line that answers a query. -/
def entry (new : String) : Query → Entry
  | type name => .type name new
  | field owner name => .field owner name new
  | method owner name descriptor => .method owner name descriptor new

theorem words_entry (query : Query) (new : String) :
    (query.entry new).words = query.words ++ [new] := by
  cases query <;> rfl

end Query

namespace Compact

/-- The answer of a table to a query. -/
def lookUp (table : Compact) : Query → Option String
  | .type name => table.typeName? name
  | .field owner name => table.fieldName? owner name
  | .method owner name descriptor => table.methodName? owner name descriptor

/-! ## Keys of methods -/

/-- A key made of words can be taken apart in one way, whatever it is compared with. -/
theorem methodKey_inj {name descriptor name' descriptor' : String} (hname : ' ' ∉ name.toList)
    (hdescriptor : ' ' ∉ descriptor.toList) :
    methodKey name descriptor = methodKey name' descriptor'
      ↔ name = name' ∧ descriptor = descriptor' := by
  constructor
  · intro h
    have hchars : name.toList ++ ' ' :: descriptor.toList
        = name'.toList ++ ' ' :: descriptor'.toList := by
      simpa [methodKey] using congrArg String.toList h
    -- the longer of the two names would go on with the space of the other key
    rcases List.append_eq_append_iff.1 hchars with ⟨more, hfront, hback⟩ | ⟨more, hfront, hback⟩
    · cases more with
      | nil => exact ⟨String.toList_inj.1 (by simpa using hfront.symm),
          String.toList_inj.1 (List.cons.inj hback).2⟩
      | cons c more =>
        rw [(List.cons.inj hback).2] at hdescriptor
        simp at hdescriptor
    · cases more with
      | nil => exact ⟨String.toList_inj.1 (by simpa using hfront),
          String.toList_inj.1 (List.cons.inj hback).2.symm⟩
      | cons c more =>
        rw [hfront, ← (List.cons.inj hback).1] at hname
        simp at hname
  · rintro ⟨rfl, rfl⟩
    rfl

@[simp]
theorem methodName?_empty (owner name descriptor : String) :
    empty.methodName? owner name descriptor = none := by
  simp [methodName?, empty]

@[simp]
theorem methodName?_insert_type (table : Compact) (old new owner name descriptor : String) :
    (table.insert (.type old new)).methodName? owner name descriptor
      = table.methodName? owner name descriptor := rfl

@[simp]
theorem methodName?_insert_field (table : Compact) (owner' old new owner name descriptor : String) :
    (table.insert (.field owner' old new)).methodName? owner name descriptor
      = table.methodName? owner name descriptor := rfl

/-- One more method is found for its words alone. -/
theorem methodName?_insert (table : Compact) {old descriptor : String} (hold : ' ' ∉ old.toList)
    (hdescriptor : ' ' ∉ descriptor.toList) (owner new owner' name descriptor' : String) :
    (table.insert (.method owner old descriptor new)).methodName? owner' name descriptor'
      = if owner = owner' ∧ old = name ∧ descriptor = descriptor' then some new
        else table.methodName? owner' name descriptor' := by
  have hkey : ((owner, methodKey old descriptor) == (owner', methodKey name descriptor')) = true
      ↔ owner = owner' ∧ old = name ∧ descriptor = descriptor' := by
    rw [beq_iff_eq, Prod.mk.injEq, methodKey_inj hold hdescriptor]
  simp only [methodName?, insert, Std.HashMap.getElem?_insert, hkey]

theorem lookUp_insert_self (table : Compact) (query : Query) (new : String) :
    (table.insert (query.entry new)).lookUp query = some new := by
  cases query <;>
    simp [lookUp, insert, Query.entry, typeName?, fieldName?, methodName?]

/-- A line for another name changes nothing. -/
theorem lookUp_insert_of_ne {table : Compact} {entry : Entry} {query : Query}
    (hplain : ∀ word ∈ entry.words, ' ' ∉ word.toList) (hne : ∀ new, entry ≠ query.entry new) :
    (table.insert entry).lookUp query = table.lookUp query := by
  cases entry with
  | type old new =>
    cases query with
    | type name =>
      have hold : ¬ (old == name) = true := by
        rw [beq_iff_eq]
        rintro rfl
        exact hne new rfl
      exact Std.HashMap.getElem?_insert.trans (if_neg hold)
    | field owner name => rfl
    | method owner name descriptor => rfl
  | field owner old new =>
    cases query with
    | type name => rfl
    | field owner' name =>
      have hold : ¬ ((owner, old) == (owner', name)) = true := by
        rw [beq_iff_eq]
        rintro ⟨⟩
        exact hne new rfl
      exact Std.HashMap.getElem?_insert.trans (if_neg hold)
    | method owner' name descriptor => rfl
  | method owner old descriptor new =>
    cases query with
    | type name => rfl
    | field owner' name => rfl
    | method owner' name descriptor' =>
      refine (methodName?_insert table (hplain old (by simp [Entry.words]))
        (hplain descriptor (by simp [Entry.words])) ..).trans (if_neg ?_)
      rintro ⟨rfl, rfl, rfl⟩
      exact hne new rfl

end Compact

/-! ## Texts -/

/-- The answer of the last line for a query, or that there is no such line. -/
def LastSaid (lines : List (List Char)) (query : List String) : Option String → Prop
  | some new => ∃ before line after, lines = before ++ line :: after
      ∧ Says line (query ++ [new]) ∧ ∀ l ∈ after, ∀ other, ¬ Says l (query ++ [other])
  | none => ∀ l ∈ lines, ∀ other, ¬ Says l (query ++ [other])

namespace LastSaid

variable {lines : List (List Char)} {line : List Char} {query : List String}

theorem last {new : String} (h : Says line (query ++ [new])) :
    LastSaid (lines ++ [line]) query (some new) :=
  ⟨lines, line, [], rfl, h, by simp⟩

theorem skip {answer : Option String} (h : LastSaid lines query answer)
    (hline : ∀ other, ¬ Says line (query ++ [other])) :
    LastSaid (lines ++ [line]) query answer := by
  cases answer with
  | none =>
    intro l hl
    rcases List.mem_append.1 hl with hl | hl
    · exact h l hl
    · rw [List.mem_singleton.1 hl]
      exact hline
  | some new =>
    obtain ⟨before, found, after, rfl, hfound, hafter⟩ := h
    refine ⟨before, found, after ++ [line], by simp, hfound, fun l hl => ?_⟩
    rcases List.mem_append.1 hl with hl | hl
    · exact hafter l hl
    · rw [List.mem_singleton.1 hl]
      exact hline

end LastSaid

/-- The invariant of reading a table line by line: every answer is that of the last line so far. -/
theorem lastSaid_foldl {done lines : List (List Char)} {table : Compact} {query : Query}
    (h : LastSaid done query.words (table.lookUp query)) :
    LastSaid (done ++ lines) query.words
      (((lines.filterMap Entry.ofLine?).foldl Compact.insert table).lookUp query) := by
  induction lines generalizing done table with
  | nil => simpa using h
  | cons line lines ih =>
    rw [List.append_cons]
    cases hline : Entry.ofLine? line with
    | none =>
      rw [List.filterMap_cons_none hline]
      refine ih (h.skip fun other hsays => ?_)
      rw [← query.words_entry, ← ofLine?_eq_some_iff, hline] at hsays
      cases hsays
    | some entry =>
      rw [List.filterMap_cons_some hline, List.foldl_cons]
      have hsays := ofLine?_eq_some_iff.1 hline
      refine ih ?_
      by_cases hentry : ∃ new, entry = query.entry new
      · obtain ⟨new, rfl⟩ := hentry
        rw [Compact.lookUp_insert_self]
        rw [query.words_entry] at hsays
        exact .last hsays
      · rw [Compact.lookUp_insert_of_ne (fun _ => hsays.space_not_mem)
          fun new hnew => hentry ⟨new, hnew⟩]
        refine h.skip fun other hother => hentry ⟨other, ?_⟩
        rw [← query.words_entry, ← ofLine?_eq_some_iff, hline] at hother
        exact Option.some.inj hother

theorem lookUp_parse (text : String) (query : Query) :
    LastSaid (Text.lines text.toList) query.words ((Compact.parse text).lookUp query) := by
  have hempty : Compact.empty.lookUp query = none := by
    cases query <;>
      simp [Compact.lookUp, Compact.empty, Compact.typeName?, Compact.fieldName?,
        Compact.methodName?]
  have hstart : LastSaid [] query.words (Compact.empty.lookUp query) := by
    rw [hempty]
    intro l hl
    cases hl
  exact lastSaid_foldl hstart

/-- A line of another shape does not enter the table. -/
theorem parse_eq_of_not_shaped {text text' : String} {before after : List (List Char)}
    {line : List Char} (hlines : Text.lines text.toList = before ++ line :: after)
    (hlines' : Text.lines text'.toList = before ++ after) (hline : ¬ Shaped line) :
    Compact.parse text = Compact.parse text' := by
  have hnone : Entry.ofLine? line = none := by
    rw [shaped_iff] at hline
    exact Option.eq_none_iff_forall_ne_some.2 fun entry hentry => hline ⟨entry, hentry⟩
  rw [Compact.parse, Compact.parse, hlines, hlines', List.filterMap_append, List.filterMap_append,
    List.filterMap_cons_none hnone]

/-- **The last line for a name wins.**  For all queries, a table read from a text answers with the
last word of the last line that has the words of the query in front of it and nothing else, and
with nothing if there is no such line. Lines of other shapes can be left out. -/
theorem lookups_lastSaid (text : String) :
    (∀ name, LastSaid (Text.lines text.toList) [name] ((Compact.parse text).typeName? name))
      ∧ (∀ owner name, LastSaid (Text.lines text.toList) [owner, name]
        ((Compact.parse text).fieldName? owner name))
      ∧ (∀ owner name descriptor, LastSaid (Text.lines text.toList) [owner, name, descriptor]
        ((Compact.parse text).methodName? owner name descriptor))
      ∧ ∀ (text' : String) (before : List (List Char)) (line : List Char)
        (after : List (List Char)), Text.lines text.toList = before ++ line :: after →
        Text.lines text'.toList = before ++ after → ¬ Shaped line →
        Compact.parse text = Compact.parse text' :=
  ⟨fun name => lookUp_parse text (.type name),
    fun owner name => lookUp_parse text (.field owner name),
    fun owner name descriptor => lookUp_parse text (.method owner name descriptor),
    fun _ _ _ _ => parse_eq_of_not_shaped⟩

/-- Two lines for the type `a`, a comment between them, and a method. -/
def commentedText : String := "a b\r\n# a c\n\ta d (I)V e\na k"

/-- Without its comment the text is the same table. -/
theorem lookups_lastSaid_commentedText :
    Text.lines commentedText.toList
        = ["a b".toList] ++ "# a c".toList :: ["\ta d (I)V e".toList, "a k".toList]
      ∧ Text.lines "a b\n\ta d (I)V e\na k\n".toList
        = ["a b".toList] ++ ["\ta d (I)V e".toList, "a k".toList]
      ∧ ¬ Shaped "# a c".toList
      ∧ Compact.parse commentedText = Compact.parse "a b\n\ta d (I)V e\na k\n" := by
  have hlines : Text.lines commentedText.toList
      = ["a b".toList] ++ "# a c".toList :: ["\ta d (I)V e".toList, "a k".toList] := by
    decide +kernel
  have hlines' : Text.lines "a b\n\ta d (I)V e\na k\n".toList
      = ["a b".toList] ++ ["\ta d (I)V e".toList, "a k".toList] := by decide +kernel
  have hcomment : ¬ Shaped "# a c".toList := by
    rintro ⟨words, ⟨-, hhead, -⟩, -⟩
    exact hhead (by decide +kernel)
  exact ⟨hlines, hlines', hcomment, (lookups_lastSaid _).2.2.2 _ _ _ _ hlines hlines' hcomment⟩

end Jarwright.Mapping
