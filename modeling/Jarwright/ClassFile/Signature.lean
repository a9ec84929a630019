import Jarwright.ClassFile.Fault
import Jarwright.Text.Blank

/-!
# Generic signatures

A signature spells types with type parameters and arguments. It is read with a stack of goals, each
of which says what has to come next; a step of the reader either takes characters off the input or
replaces its goal by lighter ones.

* `Token` is what a signature is made of once class names are singled out: text that is copied,
  the binary name of a class, and the simple name of a class inside another one;
* `Signature.scan` cuts a signature into tokens, whatever the classes will be called;
* `Signature.map` renames the classes, and a class inside another one is called by what its new
  name adds to the new name of the other.
-/

namespace Jarwright.ClassFile

namespace Signature

/-- The three places in which a signature stands. -/
inductive Site where
  | classSite | methodSite | fieldSite
  deriving DecidableEq, Repr, Inhabited

/-- A piece of a signature. -/
inductive Token where
  /-- Characters that are copied. -/
  | text (cs : List Char)
  /-- The binary name of a class. -/
  | name (cs : List Char)
  /-- The simple name of a class inside the class of the given binary name. -/
  | inner (outer simple : List Char)
  deriving DecidableEq, Repr, Inhabited

/-- What has to come next. -/
inductive Goal where
  /-- Type parameters in angle brackets, or nothing. -/
  | formals
  /-- A type parameter up to its first bound. -/
  | formal
  /-- Further bounds, and then either the closing bracket or the next type parameter. -/
  | bounds
  | type
  | reference
  /-- Type arguments of the class of this binary name, or what can stand behind them. -/
  | afterName (binary : List Char)
  /-- A class inside the class of this binary name, or the end of the class type. -/
  | suffixes (binary : List Char)
  /-- Type arguments up to the closing bracket. -/
  | arguments
  /-- Class types up to the end of the signature. -/
  | supertypes
  | openParameters
  | parameters
  | result
  | throws
  deriving DecidableEq, Repr, Inhabited

/-- A weight that falls when a goal is replaced and nothing is read. -/
def Goal.weight : Goal → Nat
  | bounds => 2
  | afterName _ => 2
  | _ => 1

/-- The weight of a stack of goals. -/
def weight : List Goal → Nat
  | [] => 0
  | g :: goals => g.weight + weight goals

theorem weight_append (goals more : List Goal) :
    weight (goals ++ more) = weight goals + weight more := by
  induction goals with
  | nil => simp [weight]
  | cons g goals ih => simp [weight, ih, Nat.add_assoc]

/-- What a step found, what it wants next, and what it left. -/
structure Step where
  tokens : List Token
  goals : List Goal
  rest : List Char

/-- The characters before the first one that satisfies `stop`, and the rest from there on. There
has to be such a character, and one before it. -/
def nameUntil (stop : Char → Bool) (cs : List Char) : Option (List Char × List Char) :=
  let name := cs.takeWhile (fun c => !stop c)
  let rest := cs.dropWhile (fun c => !stop c)
  if name.isEmpty || rest.isEmpty then none else some (name, rest)

/-- The characters that end a class name. -/
def endsName (c : Char) : Bool := c == ';' || c == '<' || c == '.'

/-- The letters of the primitive types. -/
def isPrimitive (c : Char) : Bool :=
  c == 'B' || c == 'C' || c == 'D' || c == 'F' || c == 'I' || c == 'J' || c == 'S' || c == 'Z'

/-- The start of a class type. -/
def classType : List Char → Option Step
  | 'L' :: cs => (nameUntil endsName cs).map fun (n, rest) =>
    ⟨[.text ['L'], .name n], [.afterName n], rest⟩
  | _ => none

/-- The start of a class type, a type variable, or a dimension of an array. -/
def referenceType : List Char → Option Step
  | 'T' :: cs => (nameUntil (· == ';') cs).map fun (n, rest) =>
    ⟨[.text ('T' :: n ++ [';'])], [], rest.drop 1⟩
  | '[' :: cs => some ⟨[.text ['[']], [.type], cs⟩
  | cs => classType cs

/-- A primitive type or the start of another one. -/
def anyType : List Char → Option Step
  | [] => none
  | c :: cs =>
    if isPrimitive c then some ⟨[.text [c]], [], cs⟩ else referenceType (c :: cs)

/-- A step that leaves one more goal behind it. -/
def Step.andThen (s : Step) (goal : Goal) : Step := ⟨s.tokens, s.goals ++ [goal], s.rest⟩

/-- A step that copies one character. -/
def copy (c : Char) (goals : List Goal) (rest : List Char) : Step := ⟨[.text [c]], goals, rest⟩

/-- One step towards a goal. -/
def step : Goal → List Char → Option Step
  | .formals, '<' :: cs => some (copy '<' [.formal] cs)
  | .formals, cs => some ⟨[], [], cs⟩
  | .formal, cs => (nameUntil (· == ':') cs).map fun (n, rest) =>
    match rest.drop 1 with
    | ':' :: more => ⟨[.text (n ++ [':'])], [.bounds], ':' :: more⟩
    | '>' :: more => ⟨[.text (n ++ [':'])], [.bounds], '>' :: more⟩
    | more => ⟨[.text (n ++ [':'])], [.reference, .bounds], more⟩
  | .bounds, ':' :: cs => some (copy ':' [.reference, .bounds] cs)
  | .bounds, '>' :: cs => some (copy '>' [] cs)
  | .bounds, cs => some ⟨[], [.formal], cs⟩
  | .type, cs => anyType cs
  | .reference, cs => referenceType cs
  | .afterName binary, '<' :: cs => some (copy '<' [.arguments, .suffixes binary] cs)
  | .afterName binary, cs => some ⟨[], [.suffixes binary], cs⟩
  | .suffixes _, ';' :: cs => some (copy ';' [] cs)
  | .suffixes binary, '.' :: cs => (nameUntil endsName cs).map fun (n, rest) =>
    ⟨[.text ['.'], .inner binary n], [.afterName (binary ++ '$' :: n)], rest⟩
  | .suffixes _, _ => none
  | .arguments, '>' :: cs => some (copy '>' [] cs)
  | .arguments, '*' :: cs => some (copy '*' [.arguments] cs)
  | .arguments, '+' :: cs => some (copy '+' [.reference, .arguments] cs)
  | .arguments, '-' :: cs => some (copy '-' [.reference, .arguments] cs)
  | .arguments, cs => (referenceType cs).map (·.andThen .arguments)
  | .supertypes, [] => some ⟨[], [], []⟩
  | .supertypes, cs => (classType cs).map (·.andThen .supertypes)
  | .openParameters, '(' :: cs => some (copy '(' [.parameters] cs)
  | .openParameters, _ => none
  | .parameters, ')' :: cs => some (copy ')' [] cs)
  | .parameters, cs => (anyType cs).map (·.andThen .parameters)
  | .result, 'V' :: cs => some (copy 'V' [] cs)
  | .result, cs => anyType cs
  | .throws, '^' :: cs => some (copy '^' [.reference, .throws] cs)
  | .throws, cs => some ⟨[], [], cs⟩

/-! ## The reader ends -/

theorem length_of_nameUntil {stop : Char → Bool} {cs name rest : List Char}
    (h : nameUntil stop cs = some (name, rest)) : rest.length < cs.length := by
  have hl := congrArg List.length
    (List.takeWhile_append_dropWhile (p := fun c => !stop c) (l := cs))
  simp only [nameUntil] at h
  split at h
  · cases h
  · rename_i hne
    simp only [Bool.or_eq_true, List.isEmpty_iff, not_or] at hne
    obtain ⟨rfl, rfl⟩ := Prod.mk.injEq .. ▸ Option.some.injEq .. ▸ h
    have := List.length_pos_iff.2 hne.1
    rw [List.length_append] at hl
    omega

theorem length_of_classType {cs : List Char} {s : Step} (h : classType cs = some s) :
    s.rest.length < cs.length := by
  unfold classType at h
  split at h
  · obtain ⟨⟨n, rest⟩, hn, rfl⟩ := Option.map_eq_some_iff.1 h
    have := length_of_nameUntil hn
    simp only [List.length_cons]
    omega
  · cases h

theorem length_of_referenceType {cs : List Char} {s : Step} (h : referenceType cs = some s) :
    s.rest.length < cs.length := by
  unfold referenceType at h
  split at h
  · obtain ⟨⟨n, rest⟩, hn, rfl⟩ := Option.map_eq_some_iff.1 h
    have := length_of_nameUntil hn
    simp only [List.length_drop, List.length_cons]
    omega
  · cases h
    simp
  · exact length_of_classType h

theorem length_of_anyType {cs : List Char} {s : Step} (h : anyType cs = some s) :
    s.rest.length < cs.length := by
  unfold anyType at h
  split at h
  · cases h
  · split at h
    · cases h
      simp
    · exact length_of_referenceType h

/-- A step takes characters or makes its goal lighter. -/
theorem step_decreases {g : Goal} {cs : List Char} {s : Step} (h : step g cs = some s) :
    s.rest.length < cs.length ∨ s.rest.length = cs.length ∧ weight s.goals < g.weight := by
  unfold step at h
  split at h
  all_goals first
    | (simp only [Option.some.injEq] at h; subst h; simp [copy, weight, Goal.weight])
    | (exact .inl (length_of_anyType h))
    | (exact .inl (length_of_referenceType h))
    | cases h
    | skip
  · obtain ⟨⟨n, rest⟩, hn, rfl⟩ := Option.map_eq_some_iff.1 h
    have hl := length_of_nameUntil hn
    have hd : (rest.drop 1).length ≤ rest.length := by simp
    refine .inl ?_
    dsimp only
    split <;> rename_i he
    · rw [he] at hd; simp only [List.length_cons] at hd ⊢; omega
    · rw [he] at hd; simp only [List.length_cons] at hd ⊢; omega
    · exact Nat.lt_of_le_of_lt hd hl
  · obtain ⟨⟨n, rest⟩, hn, rfl⟩ := Option.map_eq_some_iff.1 h
    have := length_of_nameUntil hn
    exact .inl (by simp only [List.length_cons]; omega)
  · obtain ⟨t, ht, rfl⟩ := Option.map_eq_some_iff.1 h
    exact .inl (show t.rest.length < _ from length_of_referenceType ht)
  · obtain ⟨t, ht, rfl⟩ := Option.map_eq_some_iff.1 h
    exact .inl (show t.rest.length < _ from length_of_classType ht)
  · obtain ⟨t, ht, rfl⟩ := Option.map_eq_some_iff.1 h
    exact .inl (show t.rest.length < _ from length_of_anyType ht)

/-- The tokens of an input, and whether it reaches all goals and then ends. -/
structure Scan where
  tokens : List Token
  complete : Bool
  deriving DecidableEq, Repr, Inhabited

/-- Reads towards a stack of goals; `done` holds the tokens read so far, latest first. -/
def scanFrom (done : List Token) (goals : List Goal) (cs : List Char) : Scan :=
  match goals with
  | [] => ⟨done.reverse, cs.isEmpty⟩
  | g :: more =>
    match _hs : step g cs with
    | none => ⟨done.reverse, false⟩
    | some s => scanFrom (s.tokens.reverse ++ done) (s.goals ++ more) s.rest
termination_by (cs.length, weight goals)
decreasing_by
  rcases step_decreases _hs with hl | ⟨hl, hw⟩
  · exact Prod.Lex.left _ _ hl
  · rw [hl]
    refine Prod.Lex.right _ ?_
    rw [weight_append, weight]
    omega

/-! ## Renaming -/

/-- What a signature in a place consists of. -/
def Site.goals : Site → List Goal
  | .classSite => [.formals, .supertypes]
  | .methodSite => [.formals, .openParameters, .result, .throws]
  | .fieldSite => [.reference]

/-- Cuts a signature into tokens. -/
def scan (site : Site) (cs : List Char) : Scan := scanFrom [] site.goals cs

/-- What follows the last `$` of a name, or the name if it has none. -/
def afterDollar (cs : List Char) : List Char :=
  (cs.reverse.takeWhile (· ≠ '$')).reverse

/-- What the new name of an inner class adds to the new name of its outer class; what follows the
last `$` if it is not built on that name. -/
def innerName (outer inner : List Char) : List Char :=
  match Text.dropFront? (outer ++ ['$']) inner with
  | some simple => simple
  | none => afterDollar inner

namespace Token

/-- The names of which a renaming is asked, in order. -/
def names : Token → List String
  | text _ => []
  | name cs => [String.ofList cs]
  | inner outer simple => [String.ofList outer, String.ofList (outer ++ '$' :: simple)]

/-- The characters of a token after a renaming. -/
def render (f : String → String) : Token → List Char
  | text cs => cs
  | name cs => (f (String.ofList cs)).toList
  | inner outer simple =>
    innerName (f (String.ofList outer)).toList (f (String.ofList (outer ++ '$' :: simple))).toList

end Token

/-- The names of which a renaming is asked, in order, also before a place that is malformed. -/
def names (site : Site) (signature : String) : List String :=
  (scan site signature.toList).tokens.flatMap Token.names

/-- Renames the classes of a signature. -/
def map (site : Site) (f : String → String) (signature : String) : Except Fault String :=
  let s := scan site signature.toList
  if s.complete then .ok (String.ofList (s.tokens.flatMap (Token.render f)))
  else .error (.badSignature signature)

end Signature

end Jarwright.ClassFile
