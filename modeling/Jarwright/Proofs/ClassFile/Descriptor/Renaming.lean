import Jarwright.Proofs.ClassFile.Descriptor
import Jarwright.Proofs.ClassFile.Signature.Tree
import Jarwright.Resolver

/-!
# Renaming descriptors

Renaming works on a scan and not on a grammar: a name stands between an `L` and the next semicolon,
whatever is around it. This file says what follows for renamings and for descriptors that do have a
structure.

* A scan asks no renaming, so all renamings accept the same texts (`exists_map_eq_ok_iff`).
* `scan_render`: a renamed text is cut where the old one was, if no new name has a semicolon in it.
  So a second renaming finds the names that the first one gave, and two renamings one after the
  other are their composition (`map_comp`).
* `Tree` is a descriptor after JVMS 4.3. `Copies f cs out` says what a scan makes of a part of a
  descriptor, whatever stands around it, and `map_written` puts the parts of a tree together.

`map_functor` collects these laws, and what they mean for two resolvers.
-/

namespace Jarwright.ClassFile.Descriptor

open Signature (Primitive renamed)

variable {f g : String → String} {d : String}

/-! ## What is accepted -/

/-- A text is accepted if every name in it ends. -/
theorem exists_map_eq_ok_iff :
    (∃ d', map f d = .ok d') ↔ ∃ tail, (scan d.toList).tail = some tail := by
  unfold map
  dsimp only
  cases (scan d.toList).tail <;> simp

theorem map_eq_ok {tail : List Char} (h : (scan d.toList).tail = some tail) :
    map f d = .ok (String.ofList (render f (scan d.toList).spans tail)) := by
  unfold map
  dsimp only
  rw [h]

theorem map_eq_error (h : (scan d.toList).tail = none) :
    map f d = .error (.badDescriptor d) := by
  unfold map
  dsimp only
  rw [h]

/-- What one renaming refuses, every renaming refuses, and for the same reason. -/
theorem map_eq_error_of_not (h : ¬ ∃ d', map g d = .ok d') :
    map f d = .error (.badDescriptor d) :=
  map_eq_error (Option.eq_none_iff_forall_ne_some.2 fun tail htail =>
    h (exists_map_eq_ok_iff.2 ⟨tail, htail⟩))

/-! ## Scanning what was renamed -/

/-- A span with its name replaced. -/
def renameSpan (f : String → String) (span : List Char × List Char) : List Char × List Char :=
  (span.1, renamed f span.2)

theorem render_eq (f : String → String) (spans : List (List Char × List Char))
    (tail : List Char) :
    render f spans tail = spans.flatMap (fun s => s.1 ++ renamed f s.2) ++ tail := rfl

theorem scanText_of_ne {c : Char} (hc : c ≠ 'L') (text cs : List Char) :
    scanText text (c :: cs) = scanText (c :: text) cs := by
  rw [scanText, if_neg hc]

theorem scanText_L (text cs : List Char) :
    scanText text ('L' :: cs) = scanName ('L' :: text).reverse [] cs := by
  rw [scanText, if_pos rfl]

/-- A name is scanned up to the next semicolon. -/
theorem scanName_append {n : List Char} (hn : ';' ∉ n) (text name cs : List Char) :
    scanName text name (n ++ ';' :: cs)
      = (scanText [';'] cs).cons (text, name.reverse ++ n) := by
  induction n generalizing name with
  | nil => simp [scanName]
  | cons c n ih =>
    obtain ⟨hc, hn⟩ := not_or.1 (mt List.mem_cons.2 hn)
    rw [List.cons_append, scanName, if_neg (Ne.symm hc), ih hn]
    simp

/-- What a scan is rendered as is scanned into the same spans, with the new names. The first text
of a scan starts with what was read before, and so does the rendered one. -/
theorem scan_render_from (cs : List Char) :
    (∀ text tail, (scanText text cs).tail = some tail →
      (∀ s ∈ (scanText text cs).spans, ';' ∉ renamed f s.2) →
      ∃ out, render f (scanText text cs).spans tail = text.reverse ++ out
        ∧ scanText text out = ⟨(scanText text cs).spans.map (renameSpan f), some tail⟩)
    ∧ ∀ text name tail, (scanName text name cs).tail = some tail →
      (∀ s ∈ (scanName text name cs).spans, ';' ∉ renamed f s.2) →
      ∃ out, render f (scanName text name cs).spans tail = text ++ out
        ∧ scanName text [] out = ⟨(scanName text name cs).spans.map (renameSpan f), some tail⟩ := by
  -- a scan passes from texts to names and back, so both halves go through together
  induction cs with
  | nil =>
    refine ⟨fun text tail h _ => ⟨[], ?_, ?_⟩, fun text name tail h _ => ?_⟩
    · obtain rfl : text.reverse = tail := by simpa [scanText] using h
      simp [scanText, render]
    · simpa [scanText] using h
    · simp [scanName] at h
  | cons c cs ih =>
    obtain ⟨ihText, ihName⟩ := ih
    refine ⟨fun text tail h hnames => ?_, fun text name tail h hnames => ?_⟩
    · by_cases hc : c = 'L'
      · subst hc
        rw [scanText_L] at h hnames ⊢
        obtain ⟨out, hout, hscan⟩ := ihName _ _ _ h hnames
        exact ⟨'L' :: out, by rw [hout]; simp, by rw [scanText_L, hscan]⟩
      · rw [scanText_of_ne hc] at h hnames ⊢
        obtain ⟨out, hout, hscan⟩ := ihText _ _ h hnames
        exact ⟨c :: out, by rw [hout]; simp, by rw [scanText_of_ne hc, hscan]⟩
    · by_cases hc : c = ';'
      · subst hc
        have hstep : scanName text name (';' :: cs)
            = (scanText [';'] cs).cons (text, name.reverse) := by
          rw [scanName, if_pos rfl]
        rw [hstep] at h hnames ⊢
        obtain ⟨hname, hrest⟩ := List.forall_mem_cons.1 hnames
        obtain ⟨out, hout, hscan⟩ := ihText _ _ h hrest
        refine ⟨renamed f name.reverse ++ ';' :: out, ?_, ?_⟩
        · rw [render_eq] at hout ⊢
          simp only [Scan.cons, List.flatMap_cons, List.append_assoc, hout]
          rfl
        · rw [scanName_append hname, hscan]
          rfl
      · have hstep : scanName text name (c :: cs) = scanName text (c :: name) cs := by
          rw [scanName, if_neg hc]
        rw [hstep] at h hnames ⊢
        exact ihName _ _ _ h hnames

/-- A renamed text is cut where the old one was, if no new name has a semicolon in it. -/
theorem scan_render {cs tail : List Char} (htail : (scan cs).tail = some tail)
    (hnames : ∀ s ∈ (scan cs).spans, ';' ∉ renamed f s.2) :
    scan (render f (scan cs).spans tail) = ⟨(scan cs).spans.map (renameSpan f), some tail⟩ := by
  obtain ⟨out, hout, hscan⟩ := (scan_render_from cs).1 [] tail htail hnames
  rw [List.reverse_nil, List.nil_append] at hout
  exact (congrArg scan hout).trans hscan

/-- Renaming what was renamed is renaming once by both, if the first renaming puts no semicolon into
a name. Where the first one fails, both fail on the text itself. -/
theorem map_comp (hnames : ∀ n ∈ classNames d, ';' ∉ (f n).toList) :
    (map f d >>= map g) = map (g ∘ f) d := by
  cases htail : (scan d.toList).tail with
  | none => rw [map_eq_error htail, map_eq_error htail]; rfl
  | some tail =>
    have hspans : ∀ s ∈ (scan d.toList).spans, ';' ∉ renamed f s.2 :=
      fun s hs => hnames _ (List.mem_map.2 ⟨s, hs, rfl⟩)
    have hscan := scan_render htail hspans
    have htail' : (scan (String.ofList (render f (scan d.toList).spans tail)).toList).tail
        = some tail := by
      rw [String.toList_ofList, hscan]
    have hsecond := map_eq_ok (f := g) htail'
    rw [String.toList_ofList, hscan] at hsecond
    rw [map_eq_ok htail, map_eq_ok htail]
    refine (pure_bind _ (map g)).trans (hsecond.trans ?_)
    simp [render, renameSpan, renamed, List.flatMap_map]

/-! ## Resolvers one after the other -/

theorem compose_descriptor {first second : Resolver}
    (hnames : ∀ n ∈ classNames d, ';' ∉ (first.type n).toList) :
    (first.compose second).descriptor d = (first.descriptor d >>= second.descriptor) :=
  (map_comp hnames).symm

/-- A descriptor that the first resolver refuses is handed on as it is, and the second one refuses
it too. -/
theorem bind_descriptor_eq (first second : Resolver) (d : String) :
    (first.descriptor d >>= second.descriptor) = second.descriptor (first.forward d) := by
  unfold Resolver.forward
  cases hd : first.descriptor d with
  | ok d' => exact pure_bind d' second.descriptor
  | error e =>
    have hfirst : ¬ ∃ d', map first.type d = .ok d' := by
      rintro ⟨d', hd'⟩
      have hok : first.descriptor d = .ok d' := hd'
      rw [hd] at hok
      cases hok
    have herror (r : Resolver) : r.descriptor d = .error (.badDescriptor d) :=
      map_eq_error_of_not hfirst
    rw [← hd, herror first, herror second]
    rfl

/-- What is refused is handed on as it is. -/
theorem forward_eq_self {r : Resolver} (h : ¬ ∃ d', r.descriptor d = .ok d') :
    r.forward d = d := by
  have herror : r.descriptor d = .error (.badDescriptor d) := map_eq_error_of_not h
  rw [Resolver.forward, herror]

/-! ## Descriptors as trees -/

/-- The type of a field. -/
inductive FieldType where
  | base (type : Primitive)
  | object (name : List Char)
  | array (element : FieldType)
  deriving DecidableEq, Repr

namespace FieldType

/-- The written form of a type. -/
def print : FieldType → List Char
  | base type => [type.letter]
  | object name => 'L' :: name ++ [';']
  | array element => '[' :: element.print

/-- No semicolon stands in the name of a class. -/
def WellFormed : FieldType → Prop
  | base _ => True
  | object name => ';' ∉ name
  | array element => element.WellFormed

/-- A type with another name of its class. -/
def rename (f : String → String) : FieldType → FieldType
  | base type => .base type
  | object name => .object (renamed f name)
  | array element => .array (element.rename f)

end FieldType

/-- A descriptor. -/
inductive Tree where
  | ofField (type : FieldType)
  /-- A method; without a result it is void. -/
  | ofMethod (parameters : List FieldType) (result : Option FieldType)
  deriving DecidableEq, Repr

namespace Tree

/-- The written form of a descriptor. -/
def print : Tree → List Char
  | ofField type => type.print
  | ofMethod parameters result =>
    '(' :: parameters.flatMap FieldType.print ++ ')' :: result.elim ['V'] FieldType.print

/-- No semicolon stands in the name of a class. -/
def WellFormed : Tree → Prop
  | ofField type => type.WellFormed
  | ofMethod parameters result => (∀ t ∈ parameters, t.WellFormed) ∧ ∀ t ∈ result, t.WellFormed

/-- A descriptor with other names of classes. -/
def rename (f : String → String) : Tree → Tree
  | ofField type => .ofField (type.rename f)
  | ofMethod parameters result =>
    .ofMethod (parameters.map (FieldType.rename f)) (result.map (FieldType.rename f))

end Tree

/-! ## Scanning the parts of a tree -/

/-- Wherever a scan meets `cs`, it makes spans of it which render as `out`, behind what was read
since the last name. -/
def Copies (f : String → String) (cs out : List Char) : Prop :=
  ∀ text, ∃ spans text', render f spans text'.reverse = text.reverse ++ out
    ∧ ∀ rest, scanText text (cs ++ rest)
      = ⟨spans ++ (scanText text' rest).spans, (scanText text' rest).tail⟩

namespace Copies

variable {cs cs' out out' : List Char}

theorem nil : Copies f [] [] := fun text => ⟨[], text, by simp [render], fun _ => rfl⟩

theorem append (h : Copies f cs out) (h' : Copies f cs' out') :
    Copies f (cs ++ cs') (out ++ out') := by
  intro text
  obtain ⟨spans, text', hout, hscan⟩ := h text
  obtain ⟨spans', text'', hout', hscan'⟩ := h' text'
  refine ⟨spans ++ spans', text'', ?_, fun rest => ?_⟩
  · rw [render_eq] at hout hout' ⊢
    rw [List.flatMap_append, List.append_assoc, hout', ← List.append_assoc, hout,
      List.append_assoc]
  · rw [List.append_assoc, hscan, hscan', List.append_assoc]

/-- A character outside of names is copied. -/
theorem char {c : Char} (hc : c ≠ 'L') : Copies f [c] [c] := by
  intro text
  refine ⟨[], c :: text, by simp [render], fun rest => ?_⟩
  rw [List.singleton_append, scanText_of_ne hc]
  rfl

/-- A name is replaced. -/
theorem object {n : List Char} (hn : ';' ∉ n) :
    Copies f ('L' :: n ++ [';']) ('L' :: renamed f n ++ [';']) := by
  intro text
  refine ⟨[(('L' :: text).reverse, n)], [';'], by simp [render_eq], fun rest => ?_⟩
  rw [List.append_assoc, List.cons_append, scanText_L, List.singleton_append,
    scanName_append hn]
  rfl

theorem flatMap {α : Type} {xs : List α} {print print' : α → List Char}
    (h : ∀ x ∈ xs, Copies f (print x) (print' x)) :
    Copies f (xs.flatMap print) (xs.flatMap print') := by
  induction xs with
  | nil => exact nil
  | cons x xs ih =>
    obtain ⟨hx, hxs⟩ := List.forall_mem_cons.1 h
    exact hx.append (ih hxs)

/-- A whole text that is copied is renamed to what it is copied to. -/
theorem map_eq_ok (h : Copies f cs out) :
    Descriptor.map f (String.ofList cs) = .ok (String.ofList out) := by
  obtain ⟨spans, text', hout, hscan⟩ := h []
  have hwhole : scan (String.ofList cs).toList = ⟨spans, some text'.reverse⟩ := by
    simpa [scan, scanText] using hscan []
  rw [Descriptor.map_eq_ok (by rw [hwhole]), hwhole]
  exact congrArg (fun cs => Except.ok (String.ofList cs)) hout

end Copies

/-- A text without an `L` has no names and is returned as it is, so it need not be scanned. -/
theorem map_of_not_mem (h : 'L' ∉ d.toList) : map f d = .ok d := by
  have hcopies : Copies f d.toList d.toList := by
    revert h
    induction d.toList with
    | nil => exact fun _ => .nil
    | cons c cs ih =>
      intro h
      obtain ⟨hc, hcs⟩ := not_or.1 (mt List.mem_cons.2 h)
      exact (Copies.char (Ne.symm hc)).append (ih hcs)
  simpa using hcopies.map_eq_ok

theorem FieldType.copies {t : FieldType} (h : t.WellFormed) :
    Copies f t.print (t.rename f).print := by
  induction t with
  | base type => exact .char (by cases type <;> decide)
  | object name => exact .object h
  | array element ih => exact (Copies.char (c := '[') (by decide)).append (ih h)

theorem Tree.copies {t : Tree} (h : t.WellFormed) : Copies f t.print (t.rename f).print := by
  cases t with
  | ofField type => exact type.copies h
  | ofMethod parameters result =>
    obtain ⟨hparameters, hresult⟩ := h
    have hopen : Copies f ['('] ['('] := .char (by decide)
    have hclose : Copies f [')'] [')'] := .char (by decide)
    have hall := Copies.flatMap fun t ht => FieldType.copies (f := f) (hparameters t ht)
    have hback : Copies f (result.elim ['V'] FieldType.print)
        ((result.map (FieldType.rename f)).elim ['V'] FieldType.print) := by
      cases result with
      | none => exact .char (by decide)
      | some t => exact t.copies (hresult t rfl)
    simpa [print, rename, List.flatMap_map] using
      (hopen.append hall).append (hclose.append hback)

/-- The written form of a tree is accepted, and becomes the written form of the renamed tree. -/
theorem map_written {t : Tree} (h : t.WellFormed) :
    map f (String.ofList t.print) = .ok (String.ofList (t.rename f).print) :=
  (t.copies h).map_eq_ok

/-! ## All laws -/

/-- **Renaming descriptors is a functor.**  Every renaming accepts the same texts and refuses the
others in the same way, and the renaming that renames nothing returns what it accepts. A renaming
that puts no semicolon into a name, and then another one, are their composition. The written form of
a tree becomes the written form of the renamed tree. So a composed resolver renames a descriptor as
its two resolvers do one after the other, also one that is refused and handed on as it is. -/
theorem map_functor (f g : String → String) (d : String) :
    ((∃ d', map f d = .ok d') ↔ ∃ d', map g d = .ok d')
      ∧ (¬ (∃ d', map f d = .ok d') → map f d = .error (.badDescriptor d))
      ∧ ((∃ d', map id d = .ok d') → map id d = .ok d)
      ∧ ((∀ n ∈ classNames d, ';' ∉ (f n).toList) → (map f d >>= map g) = map (g ∘ f) d)
      ∧ (∀ t : Tree, t.WellFormed →
        map f (String.ofList t.print) = .ok (String.ofList (t.rename f).print))
      ∧ ∀ first second : Resolver, (∀ n, ';' ∉ (first.type n).toList) →
        (first.compose second).descriptor d = (first.descriptor d >>= second.descriptor)
          ∧ (first.compose second).descriptor d = second.descriptor (first.forward d)
          ∧ (¬ (∃ d', first.descriptor d = .ok d') → first.forward d = d) := by
  refine ⟨exists_map_eq_ok_iff.trans exists_map_eq_ok_iff.symm, map_eq_error_of_not, ?_, map_comp,
    fun t => map_written, fun first second hfirst => ?_⟩
  · rintro ⟨d', hd'⟩
    rw [hd', eq_of_map_id hd']
  · have hcompose : (first.compose second).descriptor d
        = (first.descriptor d >>= second.descriptor) := compose_descriptor fun n _ => hfirst n
    exact ⟨hcompose, hcompose.trans (bind_descriptor_eq first second d), forward_eq_self⟩

/-- A class whose name starts with an `L` stands in an array and alone, and a resolver meets a
descriptor with a name that does not end. -/
theorem map_functor_method :
    classNames "([La;LL;)V" = ["a", "L"]
      ∧ (∃ d', map ("x/" ++ ·) "([La;LL;)V" = .ok d')
      ∧ (map ("x/" ++ ·) "([La;LL;)V" >>= map (· ++ "$")) = .ok "([Lx/a$;Lx/L$;)V"
      ∧ map ("x/" ++ ·) (String.ofList
          (Tree.ofMethod [.array (.object ['a']), .object ['L']] none).print)
        = .ok "([Lx/a;Lx/L;)V"
      ∧ map ("x/" ++ ·) "(La)V" = .error (.badDescriptor "(La)V")
      ∧ (Resolver.compose ⟨fun _ => "A", fun _ n _ => n, fun _ n _ => n⟩
          Resolver.identity).descriptor "(La)V"
        = Resolver.identity.descriptor "(La)V" := by
  have hnames : classNames "([La;LL;)V" = ["a", "L"] := by decide
  have hclean : ∀ n ∈ classNames "([La;LL;)V", ';' ∉ ("x/" ++ n).toList := by decide
  have hwell : (Tree.ofMethod [.array (.object ['a']), .object ['L']] none).WellFormed := by
    simp [Tree.WellFormed, FieldType.WellFormed]
  have hbad : ¬ ∃ d', map ("x/" ++ ·) "(La)V" = .ok d' := by
    rintro ⟨d', hd'⟩
    cases hd'
  obtain ⟨-, -, -, hcomp, htree, -⟩ := map_functor ("x/" ++ ·) (· ++ "$") "([La;LL;)V"
  obtain ⟨-, herror, -, -, -, hresolve⟩ := map_functor ("x/" ++ ·) (· ++ "$") "(La)V"
  obtain ⟨-, htwo, -⟩ := hresolve ⟨fun _ => "A", fun _ n _ => n, fun _ n _ => n⟩
    Resolver.identity (fun _ => (by decide : ';' ∉ "A".toList))
  exact ⟨hnames, ⟨_, rfl⟩, (hcomp hclean).trans (by decide), (htree _ hwell).trans (by decide),
    herror hbad, htwo.trans (by decide)⟩

end Jarwright.ClassFile.Descriptor
