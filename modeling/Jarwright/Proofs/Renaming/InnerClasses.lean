import Jarwright.Proofs.ClassFile.Signature.Reading
import Jarwright.Proofs.Renaming.Linkage

/-!
# Simple names of inner classes

The simple name of a class inside another one stands in two kinds of attributes: in the list of
inner classes, and as a suffix of a class type in a signature. A renaming finds the new one in the
new binary name, in either kind for itself.

* A signature calls a class by what its new name adds to that of the class around it
  (`rename_inside`).
* The list of inner classes knows the class around it too, but is content with what follows the last
  dollar sign and any digits. So of a name that was added it keeps only `cutName`, and a dollar sign
  in a simple name is lost together with what is in front of it (`cutName_eq_iff`).

`rename_innerClasses` puts both together, for every entry of every class that is renamed. In
`dollarClass` a renaming that renames nothing gives an inner class another simple name.
-/

namespace Jarwright.Renaming

open ClassFile ConstantPool
open Reader (Counted)

/-! ## Lists of inner classes -/

namespace InnerClass

/-- Reads one entry. -/
def read : Reader InnerClass := do
  let inner ← Reader.u2
  let outer ← Reader.u2
  let name ← Reader.u2
  let flags ← Reader.u2
  return ⟨inner, outer, name, flags⟩

/-- The entries that the payload of a list of inner classes holds. -/
def parseAll (payload : Bytes) : Except Fault (List InnerClass) :=
  Reader.eval (Reader.whole (.badLayout .innerClasses) do
    let count ← Reader.u2
    Reader.times count.toNat read) payload

theorem read_eq_ok {bs rest : Bytes} {c : InnerClass} :
    read bs = .ok c rest ↔ True ∧ bs = c.encode ++ rest := by
  obtain ⟨inner, outer, name, flags⟩ := c
  simp only [read, bind_eq_ok, Reader.u2_eq_ok, pure_eq_ok, encode, InnerClass.mk.injEq,
    List.append_assoc, true_and]
  constructor
  · rintro ⟨_, _, rfl, _, _, rfl, _, _, rfl, _, _, rfl, ⟨rfl, rfl, rfl, rfl⟩, rfl⟩
    rfl
  · rintro rfl
    exact ⟨_, _, rfl, _, _, rfl, _, _, rfl, _, _, rfl, ⟨rfl, rfl, rfl, rfl⟩, rfl⟩

theorem parseAll_eq_ok {payload : Bytes} {cs : List InnerClass} :
    parseAll payload = .ok cs ↔ cs.length < UInt16.size ∧ payload = putList encode cs := by
  simp only [parseAll, Reader.eval_eq_ok, Reader.whole_eq_ok, Reader.counted_eq_ok read_eq_ok,
    List.append_nil, Counted, implies_true, and_true]
  constructor
  · rintro ⟨_, h, -⟩
    exact h
  · intro h
    exact ⟨[], h, rfl⟩

/-- What an entry says of a class inside another one: the names of both classes, of which the one is
built on the other, and the simple name that the one adds. -/
structure Names (e : InnerClass) (pool : ConstantPool) (outer simple : String) : Prop where
  inner : pool.className e.inner = .ok (outer ++ "$" ++ simple)
  outer : pool.className e.outer = .ok outer
  name_ne : e.name ≠ 0
  name : pool.utf8 e.name = .ok simple

end InnerClass

/-- The entry in a place of a list of inner classes of a class; a class has at most one such list,
but may be written with several. -/
def innerClassAt? (c : ClassFile) (k i : Nat) : Option InnerClass :=
  ((attributesNamed c.pool "InnerClasses" c.attributes)[k]?).bind fun a =>
    (InnerClass.parseAll a.payload).toOption.bind fun cs => cs[i]?

namespace Context

variable {ctx : Context} {final : ConstantPool} {c c' : ClassFile}

theorem ClassPayloadRenamed.innerClasses_inv {name : String} {p p' : Bytes}
    (h : ctx.ClassPayloadRenamed final name p p') (hname : name = "InnerClasses") :
    ∃ cs cs', InnerClass.parseAll p = .ok cs ∧ InnerClass.parseAll p' = .ok cs'
      ∧ List.Forall₂ (ctx.InnerClassRenamed final) cs cs' := by
  cases h with
  | innerClasses hcount hcs =>
    have hcount' := hcs.length_eq ▸ hcount
    exact ⟨_, _, InnerClass.parseAll_eq_ok.2 ⟨hcount, rfl⟩,
      InnerClass.parseAll_eq_ok.2 ⟨hcount', rfl⟩, hcs⟩
  | enclosingMethod _ => simp at hname
  | record _ _ _ => simp at hname
  | leaf hinner _ _ _ => exact absurd hname hinner

/-- Every entry stays in its place. -/
theorem ClassRenamed.innerClassAt (h : ctx.ClassRenamed c c') (hold : ctx.oldPool = c.pool)
    {k i : Nat} {e : InnerClass} (he : innerClassAt? c k i = some e) :
    ∃ e', innerClassAt? c' k i = some e' ∧ ctx.InnerClassRenamed c'.pool e e' := by
  obtain ⟨a, ha, hrest⟩ := Option.bind_eq_some_iff.1 he
  obtain ⟨cs, hcs, hentry⟩ := Option.bind_eq_some_iff.1 hrest
  have hnamed := h.attributes.named "InnerClasses" (by decide)
  rw [hold] at hnamed
  obtain ⟨a', ha', hpayload⟩ := exists_getElem?_of_forall₂ hnamed ha
  obtain ⟨cs₀, cs', hcs₀, hcs', hall⟩ := hpayload.innerClasses_inv rfl
  obtain rfl : cs₀ = cs := Except.ok.inj (hcs₀.symm.trans (toOption_eq_some.1 hcs))
  obtain ⟨e', he', hrenamed⟩ := exists_getElem?_of_forall₂ hall hentry
  exact ⟨e', Option.bind_eq_some_iff.2 ⟨a', ha',
    Option.bind_eq_some_iff.2 ⟨cs', toOption_eq_some.2 hcs', he'⟩⟩, hrenamed⟩

/-- A class that is renamed is called by the text that its new name gives. -/
theorem InnerClassRenamed.exchanged {e e' : InnerClass} {binary simple : String}
    (h : ctx.InnerClassRenamed final e e') (hname : e.name ≠ 0)
    (hbinary : ctx.oldPool.className e.inner = .ok binary)
    (hsimple : ctx.oldPool.utf8 e.name = .ok simple) :
    ctx.Exchanged final simple (newSimpleName (ctx.resolver.type binary) simple) e.name
      e'.name := by
  obtain ⟨hzero, -⟩ | ⟨-, binary₀, simple₀, hbinary₀, hexchanged⟩ := h.name
  · exact absurd hzero hname
  obtain rfl : binary₀ = binary := Except.ok.inj (hbinary₀.symm.trans hbinary)
  obtain rfl : simple₀ = simple := Except.ok.inj (hexchanged.before.symm.trans hsimple)
  exact hexchanged

end Context

/-! ## What the list makes of an added name -/

/-- What is kept of the name that a class adds to the class around it: the end behind its last
dollar sign and any digits, or the old simple name where that is nothing. -/
def cutName (added simple : String) : String :=
  match simpleTail added.toList with
  | [] => simple
  | tail => String.ofList tail

theorem afterDollar_append (front back : List Char) :
    Signature.afterDollar (front ++ '$' :: back) = Signature.afterDollar back := by
  have hstop : ('$' :: front.reverse).takeWhile (· ≠ '$') = [] := by simp
  rw [Signature.afterDollar, Signature.afterDollar, List.reverse_append, List.reverse_cons,
    List.append_assoc, List.singleton_append, List.takeWhile_append, hstop, List.append_nil]
  split
  · rename_i hlength
    rw [(List.takeWhile_prefix _).eq_of_length hlength]
  · rfl

/-- The list of inner classes forgets the class around a class. -/
theorem newSimpleName_append (outer added simple : String) :
    newSimpleName (outer ++ "$" ++ added) simple = cutName added simple := by
  have htext : (outer ++ "$" ++ added).toList = outer.toList ++ '$' :: added.toList := by
    simp [String.toList_append]
  have hdollar : (outer.toList ++ '$' :: added.toList).contains '$' = true := by simp
  have htail : simpleTail (outer.toList ++ '$' :: added.toList) = simpleTail added.toList := by
    rw [simpleTail, afterDollar_append, simpleTail]
  rw [newSimpleName, htext, if_pos hdollar, htail]
  rfl

/-- An added name without a dollar sign is kept, unless it starts with a digit. -/
theorem simpleTail_of_not_mem {added : List Char} (hdollar : '$' ∉ added)
    (hdigit : ∀ c ∈ added.head?, c.isDigit = false) : simpleTail added = added := by
  rw [simpleTail, Signature.afterDollar_of_not_mem hdollar]
  cases added with
  | nil => rfl
  | cons c cs => rw [List.dropWhile_cons_of_neg (by simp [hdigit c rfl])]

theorem dollar_not_mem_simpleTail (added : List Char) : '$' ∉ simpleTail added := fun h =>
  Signature.dollar_not_mem_afterDollar added ((List.dropWhile_suffix _).mem h)

/-- The added name is kept exactly if it has no dollar sign in it, or if nothing follows the last
one but the old simple name was the same. -/
theorem cutName_eq_iff {added simple : String} (hne : added ≠ "")
    (hdigit : ∀ c ∈ added.toList.head?, c.isDigit = false) :
    cutName added simple = added
      ↔ '$' ∉ added.toList ∨ simpleTail added.toList = [] ∧ simple = added := by
  unfold cutName
  constructor
  · intro h
    split at h
    · rename_i hnil
      exact .inr ⟨hnil, h⟩
    · refine .inl ?_
      rw [← h, String.toList_ofList]
      exact dollar_not_mem_simpleTail _
  · rintro (hdollar | ⟨hnil, rfl⟩)
    · have hkept := simpleTail_of_not_mem hdollar hdigit
      split
      · rename_i hnil
        exact absurd (String.toList_eq_nil_iff.1 (hkept.symm.trans hnil)) hne
      · rw [hkept, String.ofList_toList]
    · rw [hnil]

/-! ## What a signature makes of an added name -/

section Signatures

open Signature (Token ClassType Argument renamed renameArguments)

variable {f : String → String} {outer simple added : String}

/-- A suffix of a class type becomes the added name. -/
theorem render_inner (hadded : f (outer ++ "$" ++ simple) = f outer ++ "$" ++ added) :
    Token.render f (.inner outer.toList simple.toList) = added.toList := by
  have hinner : String.ofList (outer.toList ++ '$' :: simple.toList) = outer ++ "$" ++ simple := by
    rw [← String.toList_inj]
    simp [String.toList_append]
  rw [Token.render, String.ofList_toList, hinner, hadded]
  simpa [String.toList_append] using Signature.innerName_append (f outer).toList added.toList

/-- A class inside another one is called by the added name, wherever its type stands. -/
theorem rename_inside (hadded : f (outer ++ "$" ++ simple) = f outer ++ "$" ++ added)
    {type : ClassType} (htype : type.binaryName = outer.toList) (arguments : List Argument) :
    (ClassType.inside type simple.toList arguments).rename f
      = .inside (type.rename f) added.toList (renameArguments f arguments) := by
  rw [Signature.ClassType.rename, htype]
  exact congrArg (ClassType.inside (type.rename f) · (renameArguments f arguments))
    (render_inner hadded)

/-- A field signature of the class. -/
theorem map_inside (hadded : f (outer ++ "$" ++ simple) = f outer ++ "$" ++ added)
    {type : ClassType} (htype : type.binaryName = outer.toList) {arguments : List Argument}
    (hwell : (ClassType.inside type simple.toList arguments).WellFormed) :
    Signature.map .fieldSite f
        (String.ofList (ClassType.inside type simple.toList arguments).print)
      = .ok (String.ofList (ClassType.inside (type.rename f) added.toList
          (renameArguments f arguments)).print) := by
  rw [← rename_inside hadded htype arguments]
  exact Signature.map_of_reads
    (Signature.Reference.reads (.ofClass (.inside type simple.toList arguments)) hwell)

end Signatures

/-! ## Both kinds of attributes -/

/-- **What a renaming makes of the simple names of inner classes.**  Take an entry of a list of
inner classes, of a class whose new name is the new name of the class around it with a dollar sign
and an added name behind. The entry stays in its place and changes at most its simple name, which
becomes the cut added name, and it does not change at all if that is the old simple name. A
signature calls the class by the added name itself. The two are the same exactly if the added name
has no dollar sign in it, or nothing behind the last one but is the old simple name. -/
theorem rename_innerClasses {r : Resolver} {bytes : Bytes} {out : RenamedClass}
    (h : rename r bytes = .ok out) :
    ∃ c c', ClassFile.parse bytes = .ok c ∧ ClassFile.parse out.bytes = .ok c'
      ∧ ∀ k i e outer simple added, innerClassAt? c k i = some e → e.Names c.pool outer simple →
        r.type (outer ++ "$" ++ simple) = r.type outer ++ "$" ++ added →
        added ≠ "" → (∀ x ∈ added.toList.head?, x.isDigit = false) →
        (∃ e', innerClassAt? c' k i = some e' ∧ e'.inner = e.inner ∧ e'.outer = e.outer
          ∧ e'.flags = e.flags ∧ c'.pool.utf8 e'.name = .ok (cutName added simple)
          ∧ (cutName added simple = simple → e' = e))
        ∧ (cutName added simple = added
          ↔ '$' ∉ added.toList ∨ simpleTail added.toList = [] ∧ simple = added)
        ∧ Signature.Token.render r.type (.inner outer.toList simple.toList) = added.toList
        ∧ ∀ type arguments, Signature.ClassType.binaryName type = outer.toList →
          (Signature.ClassType.inside type simple.toList arguments).WellFormed →
          Signature.map .fieldSite r.type
              (String.ofList (Signature.ClassType.inside type simple.toList arguments).print)
            = .ok (String.ofList (Signature.ClassType.inside (type.rename r.type) added.toList
                (Signature.renameArguments r.type arguments)).print) := by
  obtain ⟨c, c', hparse, -, hparse', -, hrenamed⟩ := rename_spec h
  refine ⟨c, c', hparse, hparse', fun k i e outer simple added he hnames hadded hne hdigit => ?_⟩
  refine ⟨?_, cutName_eq_iff hne hdigit, render_inner hadded,
    fun type arguments htype hwell => map_inside hadded htype hwell⟩
  obtain ⟨e', he', hentry⟩ := hrenamed.innerClassAt rfl he
  have hexchanged := hentry.exchanged hnames.name_ne hnames.inner hnames.name
  rw [show r.type (outer ++ "$" ++ simple) = _ from hadded, newSimpleName_append] at hexchanged
  refine ⟨e', he', hentry.inner, hentry.outer, hentry.flags, hexchanged.after, fun hsame => ?_⟩
  obtain ⟨inner, outer', name, flags⟩ := e
  obtain ⟨inner', outer'', name', flags'⟩ := e'
  obtain rfl : inner' = inner := hentry.inner
  obtain rfl : outer'' = outer' := hentry.outer
  obtain rfl : flags' = flags := hentry.flags
  obtain rfl : name' = name := hexchanged.same hsame
  rfl

/-! ## A dollar sign in a simple name -/

/-- The class `P` with a class inside whose simple name is `A$B`. -/
def dollarClass : Bytes :=
  [0xca, 0xfe, 0xba, 0xbe, 0, 0, 0, 52, 0, 9,
    1, 0, 1, 80, 7, 0, 1,
    1, 0, 16, 106, 97, 118, 97, 47, 108, 97, 110, 103, 47, 79, 98, 106, 101, 99, 116, 7, 0, 3,
    1, 0, 5, 80, 36, 65, 36, 66, 7, 0, 5, 1, 0, 3, 65, 36, 66,
    1, 0, 12, 73, 110, 110, 101, 114, 67, 108, 97, 115, 115, 101, 115,
    0, 33, 0, 2, 0, 4, 0, 0, 0, 0, 0, 0,
    0, 1, 0, 8, 0, 0, 0, 10, 0, 1, 0, 6, 0, 2, 0, 7, 0, 8]

/-- The class after a renaming that renames nothing: the class inside is called `B`. -/
def cutDollarClass : RenamedClass where
  oldName := "P"
  name := "P"
  bytes :=
    [0xca, 0xfe, 0xba, 0xbe, 0, 0, 0, 52, 0, 10,
      1, 0, 1, 80, 7, 0, 1,
      1, 0, 16, 106, 97, 118, 97, 47, 108, 97, 110, 103, 47, 79, 98, 106, 101, 99, 116, 7, 0, 3,
      1, 0, 5, 80, 36, 65, 36, 66, 7, 0, 5, 1, 0, 3, 65, 36, 66,
      1, 0, 12, 73, 110, 110, 101, 114, 67, 108, 97, 115, 115, 101, 115, 1, 0, 1, 66,
      0, 33, 0, 2, 0, 4, 0, 0, 0, 0, 0, 0,
      0, 1, 0, 8, 0, 0, 0, 10, 0, 1, 0, 6, 0, 2, 0, 9, 0, 8]

/-- Calls the class inside `P` by a name without a second dollar sign. -/
def plainResolver : Resolver :=
  { Resolver.identity with type := fun name => if name = "P$A$B" then "P$C" else name }

/-- The class as `plainResolver` renames it. -/
def plainDollarClass : RenamedClass where
  oldName := "P"
  name := "P"
  bytes :=
    [0xca, 0xfe, 0xba, 0xbe, 0, 0, 0, 52, 0, 11,
      1, 0, 1, 80, 7, 0, 1,
      1, 0, 16, 106, 97, 118, 97, 47, 108, 97, 110, 103, 47, 79, 98, 106, 101, 99, 116, 7, 0, 3,
      1, 0, 5, 80, 36, 65, 36, 66, 7, 0, 9, 1, 0, 3, 65, 36, 66,
      1, 0, 12, 73, 110, 110, 101, 114, 67, 108, 97, 115, 115, 101, 115,
      1, 0, 3, 80, 36, 67, 1, 0, 1, 67,
      0, 33, 0, 2, 0, 4, 0, 0, 0, 0, 0, 0,
      0, 1, 0, 8, 0, 0, 0, 10, 0, 1, 0, 6, 0, 2, 0, 10, 0, 8]

/-- The first entry of the first list of inner classes, and the texts of an entry. -/
def firstInnerClass (e : InnerClass) (c : ClassFile) :
    Option InnerClass × Except Fault String × Except Fault String × Except Fault String :=
  (innerClassAt? c 0 0, c.pool.className e.inner, c.pool.className e.outer, c.pool.utf8 e.name)

set_option maxRecDepth 10000 in
theorem firstInnerClass_dollarClass :
    (ClassFile.parse dollarClass).toOption.map (firstInnerClass ⟨6, 2, 7, 8⟩)
      = some (some ⟨6, 2, 7, 8⟩, .ok "P$A$B", .ok "P", .ok "A$B") := by
  decide +kernel

set_option maxRecDepth 10000 in
theorem firstInnerClass_cutDollarClass :
    (ClassFile.parse cutDollarClass.bytes).toOption.map (firstInnerClass ⟨6, 2, 9, 8⟩)
      = some (some ⟨6, 2, 9, 8⟩, .ok "P$A$B", .ok "P", .ok "B") := by
  decide +kernel

set_option maxRecDepth 10000 in
theorem rename_dollarClass :
    rename Resolver.identity dollarClass = .ok cutDollarClass
      ∧ rename plainResolver dollarClass = .ok plainDollarClass := by
  decide +kernel

theorem names_dollarClass {c : ClassFile} (h : ClassFile.parse dollarClass = .ok c) :
    innerClassAt? c 0 0 = some ⟨6, 2, 7, 8⟩
      ∧ (⟨6, 2, 7, 8⟩ : InnerClass).Names c.pool "P" "A$B" := by
  have hfirst := firstInnerClass_dollarClass
  rw [h] at hfirst
  simp only [Except.toOption, Option.map_some, firstInnerClass, Option.some.injEq,
    Prod.mk.injEq] at hfirst
  obtain ⟨hentry, hinner, houter, hname⟩ := hfirst
  exact ⟨hentry, hinner, houter, by decide, hname⟩

theorem rename_innerClasses_dollarClass :
    ∃ c c' e', ClassFile.parse dollarClass = .ok c
      ∧ ClassFile.parse plainDollarClass.bytes = .ok c'
      ∧ innerClassAt? c 0 0 = some ⟨6, 2, 7, 8⟩
      ∧ (⟨6, 2, 7, 8⟩ : InnerClass).Names c.pool "P" "A$B"
      ∧ innerClassAt? c' 0 0 = some e' ∧ c'.pool.utf8 e'.name = .ok "C"
      ∧ Signature.map .fieldSite plainResolver.type "LP.A$B;" = .ok "LP.C;" := by
  obtain ⟨c, c', hparse, hparse', hall⟩ := rename_innerClasses rename_dollarClass.2
  obtain ⟨hentry, hnames⟩ := names_dollarClass hparse
  obtain ⟨⟨e', he', -, -, -, hname, -⟩, hkept, -, hsignature⟩ :=
    hall 0 0 _ "P" "A$B" "C" hentry hnames (by decide) (by decide) (by simp)
  rw [hkept.2 (.inl (by decide))] at hname
  exact ⟨c, c', e', hparse, hparse', hentry, hnames, he', hname,
    hsignature (.named ['P'] []) [] rfl (by
      simp [Signature.ClassType.WellFormed, Signature.WellFormedArguments, Signature.IsIdentifier,
        Signature.IsBinaryName])⟩

/-- An added name is not always what an entry is called, also where it is the old simple name. -/
theorem not_agree_innerClasses :
    ¬ ∀ (r : Resolver) (bytes : Bytes) (out : RenamedClass) (c c' : ClassFile) (k i : Nat)
        (e : InnerClass) (outer simple added : String),
      rename r bytes = .ok out → ClassFile.parse bytes = .ok c →
      ClassFile.parse out.bytes = .ok c' → innerClassAt? c k i = some e →
      e.Names c.pool outer simple → r.type (outer ++ "$" ++ simple) = r.type outer ++ "$" ++ added →
      added ≠ "" → (∀ x ∈ added.toList.head?, x.isDigit = false) →
      ∃ e', innerClassAt? c' k i = some e' ∧ c'.pool.utf8 e'.name = .ok added := by
  intro hagree
  have hfirst := firstInnerClass_cutDollarClass
  obtain ⟨c, c', hparse, -, hparse', -⟩ := rename_spec rename_dollarClass.1
  rw [hparse'] at hfirst
  simp only [Except.toOption, Option.map_some, firstInnerClass, Option.some.injEq,
    Prod.mk.injEq] at hfirst
  obtain ⟨hcut, -, -, hcutName⟩ := hfirst
  obtain ⟨hentry, hnames⟩ := names_dollarClass hparse
  obtain ⟨e', he', hname⟩ := hagree _ _ _ c c' 0 0 _ "P" "A$B" "A$B" rename_dollarClass.1 hparse
    hparse' hentry hnames rfl (by decide) (by simp)
  obtain rfl : e' = ⟨6, 2, 9, 8⟩ := Option.some.inj (he'.symm.trans hcut)
  rw [hcutName] at hname
  revert hname
  decide

end Jarwright.Renaming
