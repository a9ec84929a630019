import Mathlib.Data.List.TakeWhile
import Mathlib.Tactic.MkIffOfInductiveProp
import Jarwright.Proofs.ClassFile.Signature

/-!
# The grammar of signatures

A signature as a tree, after JVMS 4.7.9.1. A class inside another one stands around the type of the
other, so `ClassType` nests to the left, as the binary names do.

* `print` writes a tree, `WellFormed` says which names may stand in it;
* `rename` gives the classes of a tree other names and leaves everything else as it is;
* `binaryNames` lists the binary names of all class types of a tree.

`Tree.binaryNames_rename` is the reason to call a class inside another one by what its new name
adds: if the new names are built as the old ones, each class type denotes the new name of what it
denoted.
-/

namespace Jarwright.ClassFile.Signature

/-- The primitive types. -/
inductive Primitive where
  | byte | char | double | float | int | long | short | boolean
  deriving DecidableEq, Repr

/-- The letter of a primitive type. -/
def Primitive.letter : Primitive → Char
  | byte => 'B'
  | char => 'C'
  | double => 'D'
  | float => 'F'
  | int => 'I'
  | long => 'J'
  | short => 'S'
  | boolean => 'Z'

/-- Whether a wildcard is bounded from above or from below. -/
inductive Wildcard where
  | upper | lower
  deriving DecidableEq, Repr

/-- The sign of a bounded wildcard. -/
def Wildcard.sign : Wildcard → Char
  | upper => '+'
  | lower => '-'

mutual

/-- A class with its type arguments. -/
inductive ClassType where
  /-- A class by its binary name. -/
  | named (name : List Char) (arguments : List Argument)
  /-- A class inside another one, by its simple name. -/
  | inside (outer : ClassType) (simple : List Char) (arguments : List Argument)

/-- A type argument. -/
inductive Argument where
  | any
  | exactly (type : Reference)
  | bounded (wildcard : Wildcard) (type : Reference)

/-- A reference type. -/
inductive Reference where
  | ofClass (type : ClassType)
  | typeVariable (name : List Char)
  | array (element : JavaType)

/-- A primitive or a reference type. -/
inductive JavaType where
  | primitive (type : Primitive)
  | reference (type : Reference)

end

/-- A type parameter with its bounds. -/
structure TypeParameter where
  name : List Char
  classBound : Option Reference
  interfaceBounds : List Reference

/-- What a method throws. -/
inductive Thrown where
  | ofClass (type : ClassType)
  | typeVariable (name : List Char)

/-- What is thrown, as a type. -/
def Thrown.toReference : Thrown → Reference
  | ofClass type => .ofClass type
  | typeVariable name => .typeVariable name

/-- A signature. -/
inductive Tree where
  | ofClass (parameters : List TypeParameter) (superclass : ClassType) (interfaces : List ClassType)
  /-- A method; without a result it is void. -/
  | ofMethod (parameters : List TypeParameter) (arguments : List JavaType)
      (result : Option JavaType) (throws : List Thrown)
  | ofField (type : Reference)

/-- The place in which a signature stands. -/
def Tree.site : Tree → Site
  | ofClass .. => .classSite
  | ofMethod .. => .methodSite
  | ofField _ => .fieldSite

/-! ## Written form -/

/-- A list in angle brackets, and nothing for the empty list. -/
def bracketed : List Char → List Char
  | [] => []
  | cs => '<' :: cs ++ ['>']

mutual

/-- A class type without the letter in front and the semicolon behind it. -/
def ClassType.body : ClassType → List Char
  | .named name arguments => name ++ bracketed (printArguments arguments)
  | .inside outer simple arguments =>
    outer.body ++ '.' :: simple ++ bracketed (printArguments arguments)

/-- The written form of a type argument. -/
def Argument.print : Argument → List Char
  | .any => ['*']
  | .exactly type => type.print
  | .bounded wildcard type => wildcard.sign :: type.print

/-- Type arguments one after the other. -/
def printArguments : List Argument → List Char
  | [] => []
  | a :: rest => a.print ++ printArguments rest

/-- The written form of a reference type. -/
def Reference.print : Reference → List Char
  | .ofClass type => 'L' :: type.body ++ [';']
  | .typeVariable name => 'T' :: name ++ [';']
  | .array element => '[' :: element.print

/-- The written form of a type. -/
def JavaType.print : JavaType → List Char
  | .primitive type => [type.letter]
  | .reference type => type.print

end

/-- The written form of a class type. -/
def ClassType.print (c : ClassType) : List Char := (Reference.ofClass c).print

/-- The written form of a type parameter: there can be nothing behind the first colon. -/
def TypeParameter.print (p : TypeParameter) : List Char :=
  p.name ++ ':' :: (p.classBound.elim [] Reference.print
    ++ p.interfaceBounds.flatMap fun r => ':' :: r.print)

/-- The written form of what a method throws. -/
def Thrown.print (t : Thrown) : List Char := '^' :: t.toReference.print

/-- The written form of a signature. -/
def Tree.print : Tree → List Char
  | ofClass parameters superclass interfaces =>
    bracketed (parameters.flatMap TypeParameter.print) ++ superclass.print
      ++ interfaces.flatMap ClassType.print
  | ofMethod parameters arguments result throws =>
    bracketed (parameters.flatMap TypeParameter.print) ++ '(' :: arguments.flatMap JavaType.print
      ++ ')' :: result.elim ['V'] JavaType.print ++ throws.flatMap Thrown.print
  | ofField type => type.print

/-! ## Names -/

/-- A name without the characters that mean something in a signature. -/
def IsIdentifier (name : List Char) : Prop :=
  name ≠ [] ∧ ∀ c ∈ name, c ∉ ['.', ';', '[', '/', '<', '>', ':']

/-- A binary name; slashes may stand anywhere in it. -/
def IsBinaryName (name : List Char) : Prop :=
  name ≠ [] ∧ ∀ c ∈ name, c ∉ ['.', ';', '[', '<', '>', ':']

instance (name : List Char) : Decidable (IsIdentifier name) :=
  inferInstanceAs (Decidable (_ ∧ _))

instance (name : List Char) : Decidable (IsBinaryName name) :=
  inferInstanceAs (Decidable (_ ∧ _))

mutual

/-- The names of a class type are names. -/
def ClassType.WellFormed : ClassType → Prop
  | .named name arguments => IsBinaryName name ∧ WellFormedArguments arguments
  | .inside outer simple arguments =>
    outer.WellFormed ∧ IsIdentifier simple ∧ WellFormedArguments arguments

/-- The names of a type argument are names. -/
def Argument.WellFormed : Argument → Prop
  | .any => True
  | .exactly type => type.WellFormed
  | .bounded _ type => type.WellFormed

/-- The names of type arguments are names. -/
def WellFormedArguments : List Argument → Prop
  | [] => True
  | a :: rest => a.WellFormed ∧ WellFormedArguments rest

/-- The names of a reference type are names. -/
def Reference.WellFormed : Reference → Prop
  | .ofClass type => type.WellFormed
  | .typeVariable name => IsIdentifier name
  | .array element => element.WellFormed

/-- The names of a type are names. -/
def JavaType.WellFormed : JavaType → Prop
  | .primitive _ => True
  | .reference type => type.WellFormed

end

/-- The names of a type parameter and its bounds are names. -/
@[mk_iff] structure TypeParameter.WellFormed (p : TypeParameter) : Prop where
  name : IsIdentifier p.name
  classBound : ∀ r ∈ p.classBound, r.WellFormed
  interfaceBounds : ∀ r ∈ p.interfaceBounds, r.WellFormed

/-- The names of a signature are names. -/
def Tree.WellFormed : Tree → Prop
  | ofClass parameters superclass interfaces =>
    (∀ p ∈ parameters, p.WellFormed) ∧ superclass.WellFormed ∧ ∀ c ∈ interfaces, c.WellFormed
  | ofMethod parameters arguments result throws =>
    (∀ p ∈ parameters, p.WellFormed) ∧ (∀ t ∈ arguments, t.WellFormed)
      ∧ (∀ t ∈ result, t.WellFormed) ∧ ∀ t ∈ throws, t.toReference.WellFormed
  | ofField type => type.WellFormed

/-! ## Renaming -/

/-- A renaming on lists of characters. -/
def renamed (f : String → String) (name : List Char) : List Char :=
  (f (String.ofList name)).toList

/-- The binary name of the class that a class type denotes. -/
def ClassType.binaryName : ClassType → List Char
  | .named name _ => name
  | .inside outer simple _ => outer.binaryName ++ '$' :: simple

mutual

/-- A class type with other names. -/
def ClassType.rename (f : String → String) : ClassType → ClassType
  | .named name arguments => .named (renamed f name) (renameArguments f arguments)
  | .inside outer simple arguments =>
    .inside (outer.rename f)
      (innerName (renamed f outer.binaryName) (renamed f (outer.binaryName ++ '$' :: simple)))
      (renameArguments f arguments)

/-- A type argument with other names. -/
def Argument.rename (f : String → String) : Argument → Argument
  | .any => .any
  | .exactly type => .exactly (type.rename f)
  | .bounded wildcard type => .bounded wildcard (type.rename f)

/-- Type arguments with other names. -/
def renameArguments (f : String → String) : List Argument → List Argument
  | [] => []
  | a :: rest => a.rename f :: renameArguments f rest

/-- A reference type with other names. -/
def Reference.rename (f : String → String) : Reference → Reference
  | .ofClass type => .ofClass (type.rename f)
  | .typeVariable name => .typeVariable name
  | .array element => .array (element.rename f)

/-- A type with other names. -/
def JavaType.rename (f : String → String) : JavaType → JavaType
  | .primitive type => .primitive type
  | .reference type => .reference (type.rename f)

end

/-- A type parameter with other names in its bounds. -/
def TypeParameter.rename (f : String → String) (p : TypeParameter) : TypeParameter where
  name := p.name
  classBound := p.classBound.map (Reference.rename f)
  interfaceBounds := p.interfaceBounds.map (Reference.rename f)

/-- What a method throws, with other names. -/
def Thrown.rename (f : String → String) : Thrown → Thrown
  | ofClass type => .ofClass (type.rename f)
  | typeVariable name => .typeVariable name

@[simp] theorem Thrown.toReference_rename (f : String → String) (t : Thrown) :
    (t.rename f).toReference = t.toReference.rename f := by
  cases t <;> rfl

/-- A signature with other names. -/
def Tree.rename (f : String → String) : Tree → Tree
  | ofClass parameters superclass interfaces =>
    .ofClass (parameters.map (TypeParameter.rename f)) (superclass.rename f)
      (interfaces.map (ClassType.rename f))
  | ofMethod parameters arguments result throws =>
    .ofMethod (parameters.map (TypeParameter.rename f)) (arguments.map (JavaType.rename f))
      (result.map (JavaType.rename f)) (throws.map (Thrown.rename f))
  | ofField type => .ofField (type.rename f)

/-! ## Binary names -/

mutual

/-- The binary names of a class type, of those around it and of those in their arguments. -/
def ClassType.binaryNames : ClassType → List (List Char)
  | .named name arguments => name :: binaryNamesOf arguments
  | .inside outer simple arguments =>
    outer.binaryNames ++ (outer.binaryName ++ '$' :: simple) :: binaryNamesOf arguments

/-- The binary names in a type argument. -/
def Argument.binaryNames : Argument → List (List Char)
  | .any => []
  | .exactly type => type.binaryNames
  | .bounded _ type => type.binaryNames

/-- The binary names in type arguments. -/
def binaryNamesOf : List Argument → List (List Char)
  | [] => []
  | a :: rest => a.binaryNames ++ binaryNamesOf rest

/-- The binary names in a reference type. -/
def Reference.binaryNames : Reference → List (List Char)
  | .ofClass type => type.binaryNames
  | .typeVariable _ => []
  | .array element => element.binaryNames

/-- The binary names in a type. -/
def JavaType.binaryNames : JavaType → List (List Char)
  | .primitive _ => []
  | .reference type => type.binaryNames

end

/-- The binary names in the bounds of a type parameter. -/
def TypeParameter.binaryNames (p : TypeParameter) : List (List Char) :=
  p.classBound.elim [] Reference.binaryNames ++ p.interfaceBounds.flatMap Reference.binaryNames

/-- The binary names of all class types of a signature. -/
def Tree.binaryNames : Tree → List (List Char)
  | ofClass parameters superclass interfaces =>
    parameters.flatMap TypeParameter.binaryNames ++ superclass.binaryNames
      ++ interfaces.flatMap ClassType.binaryNames
  | ofMethod parameters arguments result throws =>
    parameters.flatMap TypeParameter.binaryNames ++ arguments.flatMap JavaType.binaryNames
      ++ result.elim [] JavaType.binaryNames
      ++ throws.flatMap fun t => t.toReference.binaryNames
  | ofField type => type.binaryNames

/-! ## What a class inside another one is called -/

/-- The simple name of a class by its new name and that of the class around it: what the one adds to
the other, or what follows the last dollar sign if it is not built on it. -/
inductive IsSimpleName (outer inner : List Char) : List Char → Prop where
  | added {simple : List Char} : inner = outer ++ '$' :: simple → IsSimpleName outer inner simple
  | last {front simple : List Char} : ¬ outer ++ ['$'] <+: inner → inner = front ++ '$' :: simple →
      '$' ∉ simple → IsSimpleName outer inner simple
  | whole : '$' ∉ inner → IsSimpleName outer inner inner

theorem afterDollar_of_not_mem {cs : List Char} (h : '$' ∉ cs) : afterDollar cs = cs := by
  have hall : cs.reverse.takeWhile (· ≠ '$') = cs.reverse :=
    List.takeWhile_eq_self_iff.2 fun c hc => by
      simpa using ne_of_mem_of_not_mem (List.mem_reverse.1 hc) h
  rw [afterDollar, hall, List.reverse_reverse]

theorem dollar_not_mem_afterDollar (cs : List Char) : '$' ∉ afterDollar cs := by
  intro h
  simpa using List.mem_takeWhile_imp (List.mem_reverse.1 h)

theorem exists_eq_append_afterDollar {cs : List Char} (h : '$' ∈ cs) :
    ∃ front, cs = front ++ '$' :: afterDollar cs := by
  have hsplit := List.takeWhile_append_dropWhile (p := (· ≠ '$')) (l := cs.reverse)
  have hne : cs.reverse.dropWhile (· ≠ '$') ≠ [] := by
    intro hnil
    have hall := List.dropWhile_eq_nil_iff.1 hnil '$' (List.mem_reverse.2 h)
    simp at hall
  obtain ⟨c, back, hback⟩ := List.exists_cons_of_ne_nil hne
  have hc : c = '$' := by
    have hhead := List.head?_dropWhile_not (· ≠ '$') cs.reverse
    rw [hback] at hhead
    simpa using hhead
  rw [hback, hc] at hsplit
  refine ⟨back.reverse, ?_⟩
  have hreverse := congrArg List.reverse hsplit
  rw [List.reverse_append, List.reverse_cons, List.append_assoc, List.reverse_reverse] at hreverse
  exact hreverse.symm

theorem isSimpleName_innerName (outer inner : List Char) :
    IsSimpleName outer inner (innerName outer inner) := by
  unfold innerName
  split
  · rename_i simple hadded
    have happend := Text.eq_append_of_dropFront? hadded
    exact .added (by rwa [List.append_assoc, List.singleton_append] at happend)
  · rename_i hnone
    by_cases hdollar : '$' ∈ inner
    · obtain ⟨front, hfront⟩ := exists_eq_append_afterDollar hdollar
      refine .last ?_ hfront (dollar_not_mem_afterDollar inner)
      rintro ⟨simple, rfl⟩
      rw [Text.dropFront?_append] at hnone
      cases hnone
    · rw [afterDollar_of_not_mem hdollar]
      exact .whole hdollar

/-! ## What a renamed tree denotes -/

/-- The new name of a class inside another one is always built on the new name of the other. -/
def Nests (f : String → String) : Prop :=
  ∀ outer simple, renamed f outer ++ ['$'] <+: renamed f (outer ++ '$' :: simple)

theorem ClassType.binaryName_rename {f : String → String} (hf : Nests f) (c : ClassType) :
    (c.rename f).binaryName = renamed f c.binaryName := by
  match c with
  | .named name arguments => rfl
  | .inside outer simple arguments =>
    obtain ⟨added, hadded⟩ := hf outer.binaryName simple
    rw [List.append_assoc, List.singleton_append] at hadded
    rw [rename, binaryName, binaryName, outer.binaryName_rename hf, ← hadded, innerName_append]

mutual

theorem ClassType.binaryNames_rename {f : String → String} (hf : Nests f) (c : ClassType) :
    (c.rename f).binaryNames = c.binaryNames.map (renamed f) := by
  match c with
  | .named name arguments =>
    rw [ClassType.rename, ClassType.binaryNames, ClassType.binaryNames,
      binaryNamesOf_rename hf arguments, List.map_cons]
  | .inside outer simple arguments =>
    have hname := (ClassType.inside outer simple arguments).binaryName_rename hf
    rw [ClassType.rename, ClassType.binaryName, ClassType.binaryName] at hname
    rw [ClassType.rename, ClassType.binaryNames, ClassType.binaryNames, hname,
      outer.binaryNames_rename hf, binaryNamesOf_rename hf arguments, List.map_append,
      List.map_cons]

theorem Argument.binaryNames_rename {f : String → String} (hf : Nests f) (a : Argument) :
    (a.rename f).binaryNames = a.binaryNames.map (renamed f) := by
  match a with
  | .any => rfl
  | .exactly type => exact type.binaryNames_rename hf
  | .bounded _ type => exact type.binaryNames_rename hf

theorem binaryNamesOf_rename {f : String → String} (hf : Nests f) (arguments : List Argument) :
    binaryNamesOf (renameArguments f arguments) = (binaryNamesOf arguments).map (renamed f) := by
  match arguments with
  | [] => rfl
  | a :: rest =>
    rw [renameArguments, binaryNamesOf, binaryNamesOf, a.binaryNames_rename hf,
      binaryNamesOf_rename hf rest, List.map_append]

theorem Reference.binaryNames_rename {f : String → String} (hf : Nests f) (r : Reference) :
    (r.rename f).binaryNames = r.binaryNames.map (renamed f) := by
  match r with
  | .ofClass type => exact type.binaryNames_rename hf
  | .typeVariable _ => rfl
  | .array element => exact element.binaryNames_rename hf

theorem JavaType.binaryNames_rename {f : String → String} (hf : Nests f) (t : JavaType) :
    (t.rename f).binaryNames = t.binaryNames.map (renamed f) := by
  match t with
  | .primitive _ => rfl
  | .reference type => exact type.binaryNames_rename hf

end

theorem TypeParameter.binaryNames_rename {f : String → String} (hf : Nests f) (p : TypeParameter) :
    (p.rename f).binaryNames = p.binaryNames.map (renamed f) := by
  obtain ⟨name, classBound, interfaceBounds⟩ := p
  have hreference (r : Reference) := r.binaryNames_rename hf
  cases classBound <;>
    simp [rename, binaryNames, List.flatMap_map, List.map_flatMap, hreference]

/-- Each class type of a renamed tree denotes the new name of what it denoted. -/
theorem Tree.binaryNames_rename {f : String → String} (hf : Nests f) (t : Tree) :
    (t.rename f).binaryNames = t.binaryNames.map (renamed f) := by
  have hparameter (p : TypeParameter) := p.binaryNames_rename hf
  have hclass (c : ClassType) := c.binaryNames_rename hf
  have hreference (r : Reference) := r.binaryNames_rename hf
  have htype (t : JavaType) := t.binaryNames_rename hf
  cases t with
  | ofClass parameters superclass interfaces =>
    simp [rename, binaryNames, List.flatMap_map, List.map_flatMap, hparameter, hclass]
  | ofMethod parameters arguments result throws =>
    cases result <;>
      simp [rename, binaryNames, List.flatMap_map, List.map_flatMap, hparameter, htype, hreference]
  | ofField type => exact hreference type

end Jarwright.ClassFile.Signature
