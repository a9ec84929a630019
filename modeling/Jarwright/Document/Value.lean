/-!
# Document values

What a settings file or a data file says before it is known what it is about, and how records with
fixed fields are taken out of it.

A record may also be written as a list of its fields in their order. A field may be given once only;
`Form` says whether others are tolerated, and whether a list may go on behind the last field.

* `Value.fields?` gives the fields of a record;
* `required?`, `optional?` and `withDefault?` take one field out of them.
-/

namespace Jarwright.Document

/-- A value of a document. -/
inductive Value where
  | null
  | bool (b : Bool)
  | integer (n : Int)
  /-- A number with a fraction or an exponent. -/
  | fraction
  | text (s : String)
  /-- A text with half a surrogate pair in it, which can be passed over but not be read. -/
  | brokenText
  | list (xs : List Value)
  /-- Names and values in the order they are written; a name may come twice. -/
  | record (fields : List (String × Value))
  deriving Repr, Inhabited

namespace Value

/-! ## Plain values -/

/-- A text. -/
def text? : Value → Option String
  | .text s => some s
  | _ => none

/-- A truth value. -/
def bool? : Value → Option Bool
  | .bool b => some b
  | _ => none

/-- A number of 64 bits without sign. -/
def word? : Value → Option Nat
  | .integer (.ofNat n) => if n < UInt64.size then some n else none
  | _ => none

/-- A value that may be null. -/
def orNull? {α : Type} (read : Value → Option α) : Value → Option (Option α)
  | .null => some none
  | v => (read v).map some

/-- A list of values of one kind. -/
def list? {α : Type} (read : Value → Option α) : Value → Option (List α)
  | .list xs => xs.mapM read
  | _ => none

/-- A record whose names are free. Of a name that comes twice the last value counts, and it stands
where the name stood first. -/
def table? {α : Type} (read : Value → Option α) : Value → Option (List (String × α))
  | .record fields => do
    let entries ← fields.mapM fun (k, v) => (read v).map (k, ·)
    return entries.foldl put []
  | _ => none
where
  put (table : List (String × α)) (entry : String × α) : List (String × α) :=
    if table.any (·.1 == entry.1) then
      table.map fun e => if e.1 == entry.1 then entry else e
    else table ++ [entry]

mutual

/-- How deep lists and records are nested. -/
def depth : Value → Nat
  | .list xs => depths xs + 1
  | .record fields => fieldDepths fields + 1
  | _ => 0

def depths : List Value → Nat
  | [] => 0
  | v :: vs => max (depth v) (depths vs)

def fieldDepths : List (String × Value) → Nat
  | [] => 0
  | (_, v) :: fs => max (depth v) (fieldDepths fs)

end

/-! ## Records with fixed fields -/

/-- What a record may hold besides its own fields. -/
structure Form where
  /-- Whether fields of other names are passed over. -/
  otherNames : Bool
  /-- Whether a list may have more elements than there are fields. -/
  longerLists : Bool

/-- Whether a name comes twice. -/
def hasTwice (name : String) (fields : List (String × Value)) : Bool :=
  (fields.filter (·.1 == name)).length > 1

/-- The fields of a record with these names. -/
def fields? (form : Form) (names : List String) : Value → Option (List (String × Value))
  | .record fields =>
    if names.any (hasTwice · fields) then none
    else if !form.otherNames && fields.any (fun f => !names.contains f.1) then none
    else some (fields.filter fun f => names.contains f.1)
  | .list xs =>
    if !form.longerLists && names.length < xs.length then none
    else some (names.zip xs)
  | _ => none

/-- A field that has to be there. -/
def required? {α : Type} (read : Value → Option α) (name : String)
    (fields : List (String × Value)) : Option α :=
  (fields.lookup name).bind read

/-- A field in whose absence a value is given. -/
def withDefault? {α : Type} (read : Value → Option α) (name : String) (default : α)
    (fields : List (String × Value)) : Option α :=
  match fields.lookup name with
  | none => some default
  | some v => read v

/-- A field that may be absent or null. -/
def optional? {α : Type} (read : Value → Option α) (name : String)
    (fields : List (String × Value)) : Option (Option α) :=
  withDefault? (orNull? read) name none fields

end Value

end Jarwright.Document
