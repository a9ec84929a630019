import Jarwright.Mapping.Side
import Jarwright.Source.Letter
import Jarwright.Text.Blank
import Jarwright.Text.Number
import Jarwright.Text.Utf8

/-!
# Log filters

A filter says up to which level messages are logged, for all targets or for those whose name begins
in some way. It is written as directives with commas between them: a level, a target, or both with
an equals sign between them. Brackets behind the target limit a directive to spans.

* `Directive.parse?` reads a directive;
* `LogFilter.parse?` reads directives and orders them, the more specific ones first;
* `LogFilter.text` writes a filter;
* `LogFilter.choose` combines the level of the settings with the variable `RUST_LOG`.
-/

namespace Jarwright.Settings

/-- Up to which level messages are logged. -/
inductive Level where
  | off | error | warn | info | debug | trace
  deriving DecidableEq, Repr, Inhabited

namespace Level

/-- The levels in order. -/
def all : List Level := [.off, .error, .warn, .info, .debug, .trace]

/-- The name of a level. -/
def name : Level → String
  | .off => "off"
  | .error => "error"
  | .warn => "warn"
  | .info => "info"
  | .debug => "debug"
  | .trace => "trace"

/-- The level that a text names, by its name in any case or by its number. -/
def parse? (cs : List Char) : Option Level :=
  match Text.unsigned UInt64.size cs with
  | .ok n => all[n]?
  | .error _ =>
    if cs.isEmpty then some .error
    else all.find? fun level => level.name.toList == cs.map Mapping.Side.lowerAscii

end Level

/-- The level for one target, or for all. It may hold only inside spans of a name, or of a field,
which may need to have a value. -/
structure Directive where
  target : Option (List Char) := none
  span : Option (List Char) := none
  field : Option (List Char × Option (List Char)) := none
  level : Level
  deriving DecidableEq, Repr, Inhabited

namespace Directive

/-- Whether a directive may begin with a character. -/
def canStart (c : Char) : Bool :=
  c == '-' || c == ':' || Source.isWordCharacter c

/-- A number with a fraction without needless zeros; other texts are left alone. -/
def plainFraction (cs : List Char) : List Char :=
  let whole := cs.takeWhile Char.isDigit
  match cs.dropWhile Char.isDigit with
  | '.' :: part =>
    if whole.isEmpty || part.isEmpty || !part.all Char.isDigit then cs
    else
      let whole := match whole.dropWhile (· == '0') with
        | [] => ['0']
        | ds => ds
      match (part.reverse.dropWhile (· == '0')).reverse with
      | [] => whole
      | ds => whole ++ '.' :: ds
  | _ => cs

/-- The value of a field, in which numbers are written without needless digits. -/
def fieldValue (cs : List Char) : List Char :=
  match Text.unsigned UInt64.size cs with
  | .ok n => Text.decimal n
  | .error _ => plainFraction cs

/-- The field that a text spells, with the value behind an equals sign. -/
def field? (cs : List Char) : Option (List Char × Option (List Char)) :=
  match Text.splitOn '=' cs with
  | name :: value :: _ => some (name, some (fieldValue value))
  | _ => if cs.isEmpty then none else some (cs, none)

/-- The level behind an equals sign: the most verbose one if nothing stands there. -/
def levelOf? (cs : List Char) : Option Level :=
  if cs.isEmpty then some .trace else Level.parse? cs

/-- Where the reading of a directive is. The numbers are the places where a part starts. -/
inductive Progress where
  | start
  | word
  | span (since : Nat)
  | field (since : Nat)
  | fields
  | target
  | level (since : Nat)
  deriving DecidableEq, Repr, Inhabited

/-- Reads the rest of a directive from a place on. Blanks in front are passed over, but the parts
are cut out of the text with them. -/
def read? (whole : List Char) (d : Directive) (p : Progress) (i : Nat) :
    List Char → Option Directive
  | [] =>
    match p with
    | .word => match Level.parse? whole with
      | some level => some { d with level := level }
      | none => some { d with target := some whole }
    | .level since => (levelOf? (whole.drop since)).map fun level => { d with level := level }
    | .target => some d
    | _ => none
  | c :: cs =>
    let part (since : Nat) : List Char := (whole.drop since).take (i - since)
    match p with
    | .start =>
      if c = '[' then read? whole d (.span (i + 1)) (i + 1) cs
      else if canStart c then read? whole d .word (i + 1) cs
      else none
    | .word =>
      if c = '=' then read? whole { d with target := some (part 0) } (.level (i + 1)) (i + 1) cs
      else if c = '[' then
        read? whole { d with target := some (part 0) } (.span (i + 1)) (i + 1) cs
      else read? whole d p (i + 1) cs
    | .span since =>
      if c = ']' then read? whole { d with span := some (part since) } .target (i + 1) cs
      else if c = '\x7b' then
        let span := if (part since).isEmpty then none else some (part since)
        read? whole { d with span := span } (.field (i + 1)) (i + 1) cs
      else read? whole d p (i + 1) cs
    | .field since =>
      if c = '\x7d' then
        match field? (part since) with
        | some field => read? whole { d with field := some field } .fields (i + 1) cs
        | none => none
      else read? whole d p (i + 1) cs
    | .fields => if c = ']' then read? whole d .target (i + 1) cs else none
    | .target => if c = '=' then read? whole d (.level (i + 1)) (i + 1) cs else none
    | .level _ => read? whole d p (i + 1) cs

/-- The directive that a text spells. Without an equals sign or brackets it is a level if it can be
one, and else a target at the most verbose level. -/
def parse? (cs : List Char) : Option Directive :=
  read? cs { level := .trace } .start 0 (Text.trim cs)

/-- The text of a directive. -/
def text (d : Directive) : List Char :=
  let field : List Char := match d.field with
    | none => []
    | some (name, none) => '\x7b' :: name ++ ['\x7d']
    | some (name, some value) => '\x7b' :: name ++ '=' :: value ++ ['\x7d']
  let scope : List Char :=
    if d.span.isNone && d.field.isNone then [] else '[' :: d.span.getD [] ++ field ++ [']']
  match d.target.getD [] ++ scope with
  | [] => if d.target.isSome then '=' :: d.level.name.toList else d.level.name.toList
  | front => front ++ '=' :: d.level.name.toList

/-- Whether a directive asks for spans. -/
def isDynamic (d : Directive) : Bool := d.span.isSome || d.field.isSome

/-- Whether what a directive asks for is known before the program runs. -/
def isStatic (d : Directive) : Bool :=
  d.span.isNone && match d.field with
    | some (_, some _) => false
    | _ => true

/-- The order of optional texts: none comes first. -/
def compareTexts : Option (List Char) → Option (List Char) → Ordering
  | none, none => .eq
  | none, some _ => .lt
  | some _, none => .gt
  | some s, some t => compare (String.ofList s) (String.ofList t)

/-- How specific directives are: a longer target, a span and a field are more specific, and the
order of texts decides between equals. -/
def compareWith (a b : Directive) : Ordering :=
  let size (d : Directive) : Nat := (d.target.map fun t => Text.Utf8.length t + 1).getD 0
  let value (d : Directive) : Option (List Char) := d.field.bind (·.2)
  (compare (size a) (size b))
    |>.then (compare a.span.isSome b.span.isSome)
    |>.then (compare a.field.isSome b.field.isSome)
    |>.then (compareTexts a.target b.target)
    |>.then (compareTexts a.span b.span)
    |>.then (compare (value a).isSome (value b).isSome)
    |>.then (compareTexts (a.field.map (·.1)) (b.field.map (·.1)))
    |>.then (compareTexts (value a) (value b))

/-- Adds a directive to a list with the most specific ones first; it replaces one that asks for the
same. -/
def insert (d : Directive) : List Directive → List Directive
  | [] => [d]
  | e :: es =>
    match d.compareWith e with
    | .eq => d :: es
    | .gt => d :: e :: es
    | .lt => e :: insert d es

end Directive

/-- Directives, the most specific ones first: those known before the program runs, and those that
wait for spans. -/
structure LogFilter where
  fixed : List Directive
  dynamic : List Directive
  deriving DecidableEq, Repr, Inhabited

namespace LogFilter

/-- The filter of some directives; errors are logged when there are none. -/
def ofDirectives (ds : List Directive) : LogFilter :=
  let insertAll (ds : List Directive) : List Directive :=
    ds.foldl (fun found d => Directive.insert d found) []
  let (dynamic, fixed) := ds.partition Directive.isDynamic
  match ds with
  | [] => ⟨[{ level := .error }], []⟩
  | _ => ⟨insertAll (fixed ++ dynamic.filter Directive.isStatic), insertAll dynamic⟩

/-- The filter that directives spell. -/
def parse? (cs : List Char) : Option LogFilter :=
  (((Text.splitOn ',' cs).filter (!·.isEmpty)).mapM Directive.parse?).map ofDirectives

/-- The directives with commas between them. -/
def text (f : LogFilter) : String :=
  String.ofList ([','].intercalate ((f.fixed ++ f.dynamic).map Directive.text))

/-- The directives that the settings spell: the name of a level in any case, where `warning` is
another name of `warn`, or directives as they are. -/
def directivesOf (level : String) : List Char :=
  let cs := Text.trim level.toList
  let lower := cs.map Mapping.Side.lowerAscii
  if cs.isEmpty then "info".toList
  else if lower = "warning".toList then "warn".toList
  else if [Level.trace, .debug, .info, .warn, .error].any (·.name.toList == lower) then lower
  else cs

/-- The filter of the settings alone. -/
def ofLevel (level : String) : LogFilter :=
  (parse? (directivesOf level)).getD (ofDirectives [{ level := .info }])

/-- The filter of the settings with the directives of a variable behind them. What cannot be read
is left out, first the settings and then the variable. -/
def choose (level : String) (extra : Option String) : LogFilter :=
  match Text.trim (extra.getD "").toList with
  | [] => ofLevel level
  | directives =>
    ((parse? (directivesOf level ++ ',' :: directives)) <|> parse? directives).getD (ofLevel level)

end LogFilter

end Jarwright.Settings
