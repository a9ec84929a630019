import Jarwright.Document.Value

/-!
# Tables that are written piece by piece

A settings file spells one record as a sequence of assignments to paths of names, under headings
that are paths themselves. A table may be filled under one heading only, and not both under a
heading and by longer paths from outside; no name is assigned twice.

* `Table.assign?` adds one assignment, `Table.heading?` opens a table;
* `Table.toValue` is the record that is spelled.
-/

namespace Jarwright.Document

/-- How a table came about. -/
inductive Origin where
  /-- It has a heading of its own. -/
  | heading
  /-- It stands in the heading of a table inside it. -/
  | outer
  /-- It stands in the path of an assignment. -/
  | path
  deriving DecidableEq, Repr, Inhabited

/-- What a name stands for. -/
inductive Slot where
  | value (v : Value)
  | table (origin : Origin) (slots : List (String × Slot))
  deriving Repr, Inhabited

/-- Names and what they stand for, in the order in which they came. -/
abbrev Table := List (String × Slot)

namespace Table

/-- Puts another slot in the place of the one of a name. -/
def replace (t : Table) (name : String) (slot : Slot) : Table :=
  t.map fun e => if e.1 == name then (name, slot) else e

/-- Assigns a value to a path. -/
def assign? (t : Table) (v : Value) : List String → Option Table
  | [] => none
  | [name] => if t.any (·.1 == name) then none else some (t ++ [(name, .value v)])
  | name :: rest =>
    match t.lookup name with
    | none => (assign? [] v rest).map fun inner => t ++ [(name, .table .path inner)]
    | some (.value _) => none
    | some (.table .heading _) => none
    | some (.table origin inner) =>
      (assign? inner v rest).map fun inner => t.replace name (.table origin inner)

/-- Opens the table of a heading. -/
def heading? (t : Table) : List String → Option Table
  | [] => none
  | [name] =>
    match t.lookup name with
    | none => some (t ++ [(name, .table .heading [])])
    | some (.table .outer inner) => some (t.replace name (.table .heading inner))
    | some _ => none
  | name :: rest =>
    match t.lookup name with
    | none => (heading? [] rest).map fun inner => t ++ [(name, .table .outer inner)]
    | some (.value _) => none
    | some (.table origin inner) =>
      (heading? inner rest).map fun inner => t.replace name (.table origin inner)

/-- Assigns a value to a path under a heading that is open. -/
def assignUnder? (t : Table) (path : List String) (v : Value) : List String → Option Table
  | [] => t.assign? v path
  | name :: rest =>
    match t.lookup name with
    | some (.table origin inner) =>
      (assignUnder? inner path v rest).map fun inner => t.replace name (.table origin inner)
    | _ => none

mutual

/-- The value of a slot. -/
def slotValue : Slot → Value
  | .value v => v
  | .table _ slots => .record (fieldValues slots)

/-- The fields of a table. -/
def fieldValues : List (String × Slot) → List (String × Value)
  | [] => []
  | (name, slot) :: rest => (name, slotValue slot) :: fieldValues rest

end

/-- The record that a table spells. -/
def toValue (t : Table) : Value := .record (fieldValues t)

/-- The record that assignments spell, if they do not clash. -/
def record? (assignments : List (List String × Value)) : Option Value :=
  (assignments.foldlM (fun t (path, v) => Table.assign? t v path) ([] : Table)).map toValue

end Table

end Jarwright.Document
