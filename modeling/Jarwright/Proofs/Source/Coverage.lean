import Jarwright.Proofs.Source.Access

/-!
# Files that a map may touch

A map need not look at a file if it says nothing about the type that the file is named for, nor
about a type inside that: `mayTouch` decides it from the name of the file alone. The names of nested
types begin with that of the type around them, whatever stands in the file.

* `names` lists a type and the types inside it, and `inside_of_scan?` says how they are called;
* `typeName_of_inside`: such a name is looked up under the name of the file or one behind it;
* `typesEdits_eq_nil`: what a map says nothing about is not edited;
* `apply_of_not_mayTouch` is the result. It needs a proviso: the name of a type may end as files do,
  and then the map is asked about another type (`apply_java`).
-/

namespace Jarwright.Source

/-! ## Names of types -/

mutual

/-- The name of a type and those of the types inside it. -/
def TypeDeclaration.names : TypeDeclaration → List String
  | ⟨_, _, qualifiedName, _, _, _, types⟩ => qualifiedName :: namesOf types

def namesOf : List TypeDeclaration → List String
  | [] => []
  | t :: ts => t.names ++ namesOf ts

end

theorem TypeDeclaration.names_eq (t : TypeDeclaration) :
    t.names = t.qualifiedName :: namesOf t.types := by
  cases t
  rfl

theorem mem_namesOf {ts : List TypeDeclaration} {name : String} :
    name ∈ namesOf ts ↔ ∃ t ∈ ts, name ∈ t.names := by
  induction ts with
  | nil => simp [namesOf]
  | cons t ts ih => simp [namesOf, ih]

theorem mem_namesOf_append {ts ts' : List TypeDeclaration} {name : String} :
    name ∈ namesOf (ts ++ ts') ↔ name ∈ namesOf ts ∨ name ∈ namesOf ts' := by
  simp only [mem_namesOf, List.mem_append, or_and_right, exists_or]

/-- The name of something inside another one. -/
def Inside (owner name : String) : Prop := ∃ rest, name = owner ++ "." ++ rest

theorem Inside.trans {a b c : String} (h : Inside a b) (h' : Inside b c) : Inside a c := by
  obtain ⟨rest, rfl⟩ := h
  obtain ⟨rest', rfl⟩ := h'
  exact ⟨rest ++ "." ++ rest', by simp only [String.append_assoc]⟩

theorem Inside.ne_empty {a b : String} (h : Inside a b) : b ≠ "" := by
  obtain ⟨rest, rfl⟩ := h
  intro hempty
  have := congrArg String.toList hempty
  simp at this

theorem inside_qualified {owner : String} (h : owner ≠ "") (ns : List (Node Part)) :
    Inside owner (qualified owner ns) := by
  have : owner.isEmpty = false := by simpa using h
  rw [qualified, this]
  exact ⟨_, rfl⟩

theorem names_ofNode? (owner : String) (kind : TypeKind) (cs : List (Node Part)) :
    namesOf (TypeDeclaration.ofNode? owner (.branch (.type kind) cs)).toList
      = qualified owner cs :: namesOf (TypeDeclaration.ofBody (qualified owner cs) cs) := by
  simp [TypeDeclaration.ofNode?, namesOf, TypeDeclaration.names, qualified]

mutual

theorem inside_ofNode? {owner : String} (howner : owner ≠ "") (n : Node Part) :
    ∀ name ∈ namesOf (TypeDeclaration.ofNode? owner n).toList, Inside owner name := by
  match n with
  | .leaf t => simp [TypeDeclaration.ofNode?, namesOf]
  | .branch l cs =>
    cases l with
    | type kind =>
      intro name hname
      have hqualified := inside_qualified howner cs
      rw [names_ofNode?, List.mem_cons] at hname
      rcases hname with rfl | hname
      · exact hqualified
      · exact hqualified.trans (inside_ofBody hqualified.ne_empty cs name hname)
    | _ => simp [TypeDeclaration.ofNode?, namesOf]

theorem inside_ofBody {owner : String} (howner : owner ≠ "") (ns : List (Node Part)) :
    ∀ name ∈ namesOf (TypeDeclaration.ofBody owner ns), Inside owner name := by
  match ns with
  | [] => simp [TypeDeclaration.ofBody, namesOf]
  | n :: ns =>
    cases hbody : isBody n with
    | false =>
      rw [ofBody_skip hbody]
      exact inside_ofBody howner ns
    | true =>
      match n with
      | .branch .body cs =>
        rw [TypeDeclaration.ofBody]
        exact inside_ofMembers howner cs

theorem inside_ofMembers {owner : String} (howner : owner ≠ "") (ns : List (Node Part)) :
    ∀ name ∈ namesOf (TypeDeclaration.ofMembers owner ns), Inside owner name := by
  match ns with
  | [] => simp [TypeDeclaration.ofMembers, namesOf]
  | n :: ns =>
    intro name hname
    rw [TypeDeclaration.ofMembers, mem_namesOf_append] at hname
    exact hname.elim (inside_ofNode? howner n name) (inside_ofMembers howner ns name)

end

theorem Token.StandsIn.text_ne_empty {source : List Char} {t : Token} (h : t.StandsIn source) :
    t.text ≠ "" := by
  intro hempty
  have hlength := congrArg List.length h.text
  rw [hempty, List.length_take, List.length_drop] at hlength
  have := h.start_lt
  have := h.stop_le
  simp only [String.toList_empty, List.length_nil] at hlength
  omega

theorem exists_name {source : List Char} {cs : List (Node Part)} (h : HeadsType cs)
    (hin : InPlace source (tokensOf cs)) : ∃ name, nameIn? cs = some name ∧ name ≠ "" := by
  obtain ⟨front, word, name, behind, rfl, hfront⟩ := h
  have hname : name ∈ tokensOf (front ++ .leaf word :: .branch .name [.leaf name] :: behind) := by
    simp [tokensOf_append, tokensOf]
  refine ⟨name.text, ?_, (hin.stands name hname).text_ne_empty⟩
  rcases hfront with rfl | ⟨ms, rfl⟩ <;> simp [nameIn?, partOf?, tokensOf]

/-- A type that a file declares has a name, and the names of the types inside it begin with that. -/
theorem inside_of_ofNode? {source : List Char} {owner : String} {n : Node Part}
    {t : TypeDeclaration} (hformed : Formed [n]) (hin : InPlace source (tokensOf [n]))
    (h : TypeDeclaration.ofNode? owner n = some t) :
    t.qualifiedName ≠ "" ∧ ∀ name ∈ namesOf t.types, Inside t.qualifiedName name := by
  cases n with
  | leaf t => simp [TypeDeclaration.ofNode?] at h
  | branch l cs =>
    cases l with
    | type kind =>
      obtain ⟨hheads, -⟩ : HeadsType cs ∧ Formed cs := by simpa [Formed, Shaped] using hformed
      rw [tokensOf_singleton] at hin
      obtain ⟨name, hname, hne⟩ := exists_name hheads hin
      have hqualified : qualified owner cs ≠ "" := by
        by_cases howner : owner = ""
        · simpa [qualified, howner, hname] using hne
        · exact (inside_qualified howner cs).ne_empty
      rw [TypeDeclaration.ofNode?] at h
      cases h
      exact ⟨hqualified, inside_ofBody hqualified cs⟩
    | _ => simp [TypeDeclaration.ofNode?] at h

theorem exists_node {source : List Char} {u : Unit} {ns : List (Node Part)} {t : TypeDeclaration}
    (h : t ∈ (Unit.ofNodes source u ns).types) :
    t ∈ u.types ∨ ∃ owner, ∃ n ∈ ns, TypeDeclaration.ofNode? owner n = some t := by
  fun_induction Unit.ofNodes source u ns with
  | case1 u => exact .inl h
  | case2 u cs ns ih =>
    rcases ih h with hmem | ⟨owner, n, hn, hnode⟩
    · exact .inl hmem
    · exact .inr ⟨owner, n, List.mem_cons_of_mem _ hn, hnode⟩
  | case3 u n ns _ found ih =>
    rcases ih h with hmem | ⟨owner, n', hn', hnode⟩
    · rcases List.mem_append.1 hmem with hmem | hmem
      · exact .inl hmem
      · exact .inr ⟨_, n, List.mem_cons_self, Option.mem_toList.1 hmem⟩
    · exact .inr ⟨owner, n', List.mem_cons_of_mem _ hn', hnode⟩

/-- **Every type of a file has a name, and the types inside it are called after it.** -/
theorem inside_of_scan? {source : List Char} {u : Unit} {t : TypeDeclaration}
    (h : Unit.scan? source = some u) (ht : t ∈ u.types) :
    t.qualifiedName ≠ "" ∧ ∀ name ∈ namesOf t.types, Inside t.qualifiedName name := by
  obtain ⟨nodes, hformed, hin, rfl⟩ := exists_forest h
  rcases exists_node ht with hmem | ⟨owner, n, hn, hnode⟩
  · cases hmem
  · obtain ⟨before, behind, rfl⟩ := List.append_of_mem hn
    rw [List.append_cons, tokensOf_append, tokensOf_append] at hin
    rw [List.append_cons, formed_append, formed_append] at hformed
    exact inside_of_ofNode? hformed.1.2 hin.left.right hnode

namespace AccessMap

/-! ## Names in a map -/

/-- The ending of source files. -/
def ending : List Char := ".java".toList

/-- A character of a name as maps spell it. -/
def dotted (c : Char) : Char := if c = '/' ∨ c = '$' then '.' else c

theorem typeName_of_ending {s : String} {stem : List Char} (h : s.toList = stem ++ ending) :
    (typeName s).toList = stem.map dotted := by
  rw [typeName, h, show Text.dropBack? ".java".toList (stem ++ ending) = some stem from
    Text.dropBack?_eq_some.2 rfl, String.toList_ofList]
  rfl

theorem typeName_of_not_ending {s : String} (h : ¬ ending <:+ s.toList) :
    (typeName s).toList = s.toList.map dotted := by
  have hnone : Text.dropBack? ".java".toList s.toList = none := by
    rw [Option.eq_none_iff_forall_ne_some]
    rintro stem hstem
    exact h ⟨stem, (Text.dropBack?_eq_some.1 hstem).symm⟩
  rw [typeName, hnone, String.toList_ofList]
  rfl

/-- The name of the type that a file is for: that of the file with dots and without its ending. -/
def IsFileOf (path name : String) : Prop :=
  ∃ stem, path.toList = stem ++ ending
    ∧ name.toList = stem.map fun c => if c = '/' then '.' else c

theorem IsFileOf.typeName_eq {path name : String} (h : IsFileOf path name) :
    (typeName path).toList = name.toList.map dotted := by
  obtain ⟨stem, hpath, hname⟩ := h
  rw [typeName_of_ending hpath, hname, List.map_map]
  refine List.map_congr_left fun c _ => ?_
  by_cases hc : c = '/' <;> simp [dotted, hc]

/-- What is inside a type is looked up under the name of the type or a name inside that. -/
theorem typeName_of_inside {owner name : String} (h : Inside owner name) :
    (typeName name).toList = owner.toList.map dotted
      ∨ ∃ rest, (typeName name).toList = owner.toList.map dotted ++ '.' :: rest := by
  obtain ⟨rest, rfl⟩ := h
  have hlist : (owner ++ "." ++ rest).toList = owner.toList ++ '.' :: rest.toList := by simp
  by_cases hending : ending <:+ (owner ++ "." ++ rest).toList
  · obtain ⟨stem, hstem⟩ := hending
    rw [typeName_of_ending hstem.symm]
    rw [hlist, List.append_eq_append_iff] at hstem
    -- the ending begins with a dot and has no other, so it takes the dot behind the owner or comes
    -- later
    rcases hstem with ⟨front, howner, hdot⟩ | ⟨behind, hbehind, hrest⟩
    · cases front with
      | nil => exact .inl (by rw [howner, List.append_nil])
      | cons c front =>
        have hjava : ['j', 'a', 'v', 'a'] = front ++ '.' :: rest.toList := (List.cons.inj hdot).2
        have hmem : '.' ∈ front ++ '.' :: rest.toList :=
          List.mem_append_right _ List.mem_cons_self
        rw [← hjava] at hmem
        exact absurd hmem (by decide)
    · cases behind with
      | nil => exact .inl (by rw [hbehind, List.append_nil])
      | cons c behind =>
        obtain ⟨rfl, -⟩ := List.cons.inj hrest
        exact .inr ⟨behind.map dotted, by rw [hbehind, List.map_append]; rfl⟩
  · right
    refine ⟨rest.toList.map dotted, ?_⟩
    rw [typeName_of_not_ending hending, hlist, List.map_append]
    rfl

/-- A map that does not touch a file has no entry for the name of the file, and none for a name
inside that. -/
theorem get?_of_not_mayTouch {m : AccessMap} {path name : String} (h : m.mayTouch path = false)
    (hname : (typeName name).toList = (typeName path).toList
      ∨ ∃ rest, (typeName name).toList = (typeName path).toList ++ '.' :: rest) :
    m.get? name = none := by
  rw [mayTouch, List.any_eq_false] at h
  refine Option.eq_none_iff_forall_ne_some.2 fun o ho => ?_
  obtain ⟨before, behind, hentries, -⟩ := List.lookup_eq_some_iff.1 ho
  have hkey := h (typeName name, o) (hentries ▸ List.mem_append_right _ List.mem_cons_self)
  dsimp only at hkey
  rcases hname with hname | ⟨rest, hname⟩
  · rw [hname, Text.dropFront?_eq_some.2 (List.append_nil _).symm] at hkey
    exact hkey rfl
  · rw [hname, Text.dropFront?_eq_some.2 rfl] at hkey
    exact hkey rfl

/-! ## Edits that are not made -/

mutual

theorem typeEdits_eq_nil {m : AccessMap} (source : List Char) (t : TypeDeclaration)
    (h : ∀ name ∈ t.names, m.get? name = none) : m.typeEdits source t = [] := by
  obtain ⟨kind, name, qualifiedName, modifiers, fields, methods, types⟩ := t
  rw [TypeDeclaration.names, List.forall_mem_cons] at h
  rw [typeEdits, h.1, typesEdits_eq_nil source types h.2]
  rfl

theorem typesEdits_eq_nil {m : AccessMap} (source : List Char) (ts : List TypeDeclaration)
    (h : ∀ name ∈ namesOf ts, m.get? name = none) : m.typesEdits source ts = [] := by
  match ts with
  | [] => rfl
  | t :: ts =>
    rw [namesOf, List.forall_mem_append] at h
    rw [typesEdits, typeEdits_eq_nil source t h.1, typesEdits_eq_nil source ts h.2, List.append_nil]

end

/-- **A map leaves a file alone that it does not touch**, if the file has one type, that which it
is named for. The proviso is for types whose names end as files do: without it, the map could have
an entry for another type that it takes for this one. -/
theorem apply_of_not_mayTouch {m : AccessMap} {path text : String} {u : Unit} {t : TypeDeclaration}
    (hscan : Unit.scan? text.toList = some u) (htypes : u.types = [t])
    (hfile : IsFileOf path t.qualifiedName) (htouch : m.mayTouch path = false)
    (hending : ending <:+ t.qualifiedName.toList → m.get? t.qualifiedName = none) :
    m.apply text = .ok text := by
  have hinside := (inside_of_scan? hscan (htypes ▸ List.mem_singleton_self t)).2
  have houter := hfile.typeName_eq
  have hnone : ∀ name ∈ namesOf u.types, m.get? name = none := by
    intro name hname
    rw [htypes, namesOf, namesOf, List.append_nil, t.names_eq, List.mem_cons] at hname
    rcases hname with rfl | hname
    · by_cases hends : ending <:+ t.qualifiedName.toList
      · exact hending hends
      · exact get?_of_not_mayTouch htouch
          (.inl (by rw [houter, typeName_of_not_ending hends]))
    · exact get?_of_not_mayTouch htouch (by rw [houter]; exact typeName_of_inside (hinside name hname))
  rw [apply_eq m hscan, applyTo, edits, typesEdits_eq_nil _ _ hnone, Edit.applyAll_nil,
    String.ofList_toList]

end AccessMap

end Jarwright.Source
