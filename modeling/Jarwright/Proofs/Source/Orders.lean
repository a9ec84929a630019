import Jarwright.Proofs.Associations
import Jarwright.Proofs.Source.Access
import Mathlib.Data.List.Induction
import Mathlib.Data.List.Perm.Basic

/-!
# The order of the overrides

A document may spell the name of one type in several ways, and name it once in each. The overrides
come out of a hash table, so in any order, and of those of one type the last one counts.

* `AccessMap.get?_ofList`: an answer is that of the last spelling;
* `AccessMap.exists_order_iff`: each spelling is the last one in some order;
* `AccessMap.Agree`: two maps that nothing tells apart;
* `AccessMap.orders_agree_iff`: the order does not matter just if all spellings of a type say the
  same.
-/

namespace Jarwright.Source

/-- Whether two overrides ask for the same, in whatever order they list it. -/
structure Override.Same (o o' : Override) : Prop where
  visibility : o.visibility = o'.visibility
  field : ∀ name, o.field? name = o'.field? name
  method : ∀ name, o.method? name = o'.method? name

namespace AccessMap

variable {m m' : AccessMap} {entries order order' : List (String × Override)} {name : String}
  {o : Override}

/-! ## What a list of overrides says -/

/-- Whether an answer about a type is that of one of the overrides, or nothing if none is about the
type. -/
def Answers (entries : List (String × Override)) (name : String) : Option Override → Prop
  | some o => ∃ e ∈ entries, typeName e.1 = typeName name ∧ e.2 = o
  | none => ∀ e ∈ entries, typeName e.1 ≠ typeName name

theorem Answers.perm {answer : Option Override} (h : Answers order name answer)
    (hperm : order.Perm entries) : Answers entries name answer := by
  cases answer with
  | none => exact fun e he => h e (hperm.mem_iff.2 he)
  | some o =>
    obtain ⟨e, he, hsays⟩ := h
    exact ⟨e, hperm.mem_iff.1 he, hsays⟩

theorem ofList_concat (entries : List (String × Override)) (e : String × Override) :
    ofList (entries ++ [e]) = (ofList entries).insert e.1 e.2 := by
  rw [ofList, List.foldl_append]
  rfl

theorem get?_insert (m : AccessMap) (key : String) (o : Override) (name : String) :
    (m.insert key o).get? name
      = if typeName name = typeName key then some o else m.get? name :=
  Associations.lookup_put m.entries (typeName key, o) (typeName name)

theorem answers_ofList (entries : List (String × Override)) (name : String) :
    Answers entries name ((ofList entries).get? name) := by
  induction entries using List.reverseRecOn with
  | nil => simp [ofList, empty, get?, Answers]
  | append_singleton entries e ih =>
    rw [ofList_concat, get?_insert]
    by_cases hname : typeName name = typeName e.1
    · rw [if_pos hname]
      exact ⟨e, by simp, hname.symm, rfl⟩
    · rw [if_neg hname]
      cases hanswer : (ofList entries).get? name with
      | none =>
        rw [hanswer] at ih
        intro e' he'
        rcases List.mem_append.1 he' with he' | he'
        · exact ih e' he'
        · rw [List.mem_singleton.1 he']
          exact Ne.symm hname
      | some o =>
        rw [hanswer] at ih
        obtain ⟨e', he', hsays⟩ := ih
        exact ⟨e', List.mem_append_left _ he', hsays⟩

/-- Of the overrides of a type each is the last one in some order. -/
theorem exists_order_last {e : String × Override} (he : e ∈ entries) :
    ∃ order, order.Perm entries
      ∧ ∀ name, typeName e.1 = typeName name → (ofList order).get? name = some e.2 := by
  obtain ⟨before, behind, rfl⟩ := List.append_of_mem he
  refine ⟨before ++ behind ++ [e], ?_, fun name hname => ?_⟩
  · rw [List.append_assoc]
    exact (List.perm_append_singleton e behind).append_left before
  · rw [ofList_concat, get?_insert, if_pos hname.symm]

/-- The answers that are possible are those of the overrides of the type. -/
theorem exists_order_iff {answer : Option Override} :
    (∃ order, order.Perm entries ∧ (ofList order).get? name = answer)
      ↔ Answers entries name answer := by
  constructor
  · rintro ⟨order, hperm, rfl⟩
    exact (answers_ofList order name).perm hperm
  · intro h
    cases answer with
    | some o =>
      obtain ⟨e, he, hname, rfl⟩ := h
      obtain ⟨order, hperm, hlast⟩ := exists_order_last he
      exact ⟨order, hperm, hlast name hname⟩
    | none =>
      refine ⟨entries, List.Perm.refl _, ?_⟩
      have hanswers := answers_ofList entries name
      cases hanswer : (ofList entries).get? name with
      | none => rfl
      | some o =>
        rw [hanswer] at hanswers
        obtain ⟨e, he, hname, -⟩ := hanswers
        exact absurd hname (h e he)

/-! ## The types of a map -/

theorem keys_insert (m : AccessMap) (key : String) (o : Override) :
    (m.insert key o).entries.map Prod.fst
      = if typeName key ∈ m.entries.map Prod.fst then m.entries.map Prod.fst
        else m.entries.map Prod.fst ++ [typeName key] :=
  Associations.keys_put m.entries (typeName key, o)

theorem keys_ofList (entries : List (String × Override)) :
    ((ofList entries).entries.map Prod.fst).Nodup
      ∧ ∀ key, key ∈ (ofList entries).entries.map Prod.fst
        ↔ key ∈ entries.map fun e => typeName e.1 := by
  induction entries using List.reverseRecOn with
  | nil => simp [ofList, empty]
  | append_singleton entries e ih =>
    obtain ⟨hnodup, hmem⟩ := ih
    rw [ofList_concat, keys_insert, List.map_append, List.map_singleton]
    split
    · rename_i hthere
      refine ⟨hnodup, fun key => ?_⟩
      rw [hmem, List.mem_append, List.mem_singleton]
      refine ⟨.inl, ?_⟩
      rintro (h | rfl)
      · exact h
      · exact (hmem _).1 hthere
    · rename_i hnew
      refine ⟨?_, fun key => by rw [List.mem_append, List.mem_append, hmem]⟩
      exact List.nodup_append.2 ⟨hnodup, List.pairwise_singleton _ _,
        fun a ha b hb => by rintro rfl; exact hnew (List.mem_singleton.1 hb ▸ ha)⟩

/-- The types that a map is about do not depend on the order. -/
theorem keys_perm (h : order.Perm order') :
    ((ofList order).entries.map Prod.fst).Perm ((ofList order').entries.map Prod.fst) := by
  obtain ⟨hnodup, hmem⟩ := keys_ofList order
  obtain ⟨hnodup', hmem'⟩ := keys_ofList order'
  refine (List.perm_ext_iff_of_nodup hnodup hnodup').2 fun key => ?_
  rw [hmem, hmem', (h.map _).mem_iff]

/-! ## Maps that agree -/

/-- Whether two maps are about the same types and say the same about them, so that no question and
no file tells them apart. -/
structure Agree (m m' : AccessMap) : Prop where
  types : (m.entries.map Prod.fst).Perm (m'.entries.map Prod.fst)
  get : ∀ name, Option.Rel Override.Same (m.get? name) (m'.get? name)
  touch : ∀ path, m.mayTouch path = m'.mayTouch path
  apply : ∀ source, m.apply source = m'.apply source

theorem editsOf_congr {o' : Override} (source : List Char) (t : TypeDeclaration) (h : o.Same o') :
    editsOf source t o = editsOf source t o' := by
  have hfield : o.field? = o'.field? := funext h.field
  have hmethod : o.method? = o'.method? := funext h.method
  rw [editsOf, editsOf, h.visibility, hfield, hmethod]

mutual

theorem typeEdits_congr (h : ∀ name, Option.Rel Override.Same (m.get? name) (m'.get? name))
    (source : List Char) (t : TypeDeclaration) :
    m.typeEdits source t = m'.typeEdits source t := by
  match t with
  | ⟨kind, name, qualifiedName, modifiers, fields, methods, types⟩ =>
    rw [typeEdits, typeEdits, typesEdits_congr h source types]
    have hname := h qualifiedName
    generalize m.get? qualifiedName = answer at hname ⊢
    generalize m'.get? qualifiedName = answer' at hname ⊢
    cases hname with
    | none => rfl
    | some hsame => simp only [editsOf_congr source _ hsame]

theorem typesEdits_congr (h : ∀ name, Option.Rel Override.Same (m.get? name) (m'.get? name))
    (source : List Char) (ts : List TypeDeclaration) :
    m.typesEdits source ts = m'.typesEdits source ts := by
  match ts with
  | [] => rfl
  | t :: ts =>
    rw [typesEdits, typesEdits, typeEdits_congr h source t, typesEdits_congr h source ts]

end

/-- Maps that say the same about the same types agree. -/
theorem agree_of_get (htypes : (m.entries.map Prod.fst).Perm (m'.entries.map Prod.fst))
    (hget : ∀ name, Option.Rel Override.Same (m.get? name) (m'.get? name)) : Agree m m' := by
  refine ⟨htypes, hget, fun path => ?_, fun source => ?_⟩
  · -- whether a file is covered depends on the names of the types only
    let covered (key : String) : Bool := mayTouch ⟨[(key, default)]⟩ path
    have hany (k : AccessMap) : k.mayTouch path = (k.entries.map Prod.fst).any covered := by
      rw [List.any_map]
      simp only [mayTouch, covered, List.any_cons, List.any_nil, Bool.or_false,
        Function.comp_def]
    rw [hany, hany, htypes.any_eq]
  · have hempty : m.entries.isEmpty = m'.entries.isEmpty := by
      rw [← List.isEmpty_map (f := Prod.fst) (l := m.entries),
        ← List.isEmpty_map (f := Prod.fst) (l := m'.entries), htypes.isEmpty_eq]
    rw [apply, apply, hempty]
    simp only [applyTo, edits, typesEdits_congr hget]

/-- Whether all spellings of a type say the same. -/
def Unanimous (entries : List (String × Override)) : Prop :=
  ∀ e ∈ entries, ∀ e' ∈ entries, typeName e.1 = typeName e'.1 → e.2.Same e'.2

theorem Unanimous.rel (h : Unanimous entries) {answer answer' : Option Override}
    (hanswer : Answers entries name answer) (hanswer' : Answers entries name answer') :
    Option.Rel Override.Same answer answer' := by
  cases answer with
  | none =>
    cases answer' with
    | none => exact .none
    | some o' =>
      obtain ⟨e', he', hname', -⟩ := hanswer'
      exact absurd hname' (hanswer e' he')
  | some o =>
    obtain ⟨e, he, hname, rfl⟩ := hanswer
    cases answer' with
    | none => exact absurd hname (hanswer' e he)
    | some o' =>
      obtain ⟨e', he', hname', rfl⟩ := hanswer'
      exact .some (h e he e' he' (hname.trans hname'.symm))

/-- The overrides of a document come in any order. What a map may answer about a type is what one of
the spellings of the type says, and each of them is the answer in some order. So all maps that can
come of a document agree, in their answers and in what becomes of every file, just if all spellings
of each type say the same. -/
theorem orders_agree_iff (entries : List (String × Override)) :
    (∀ name answer, (∃ order, order.Perm entries ∧ (ofList order).get? name = answer)
        ↔ Answers entries name answer)
      ∧ ((∀ order order', order.Perm entries → order'.Perm entries →
          Agree (ofList order) (ofList order')) ↔ Unanimous entries) := by
  refine ⟨fun _ _ => exists_order_iff, fun h e he e' he' hname => ?_,
    fun h order order' ho ho' => ?_⟩
  · obtain ⟨order, hperm, hlast⟩ := exists_order_last he
    obtain ⟨order', hperm', hlast'⟩ := exists_order_last he'
    have hrel := (h order order' hperm hperm').get e'.1
    rw [hlast e'.1 hname, hlast' e'.1 rfl] at hrel
    cases hrel with
    | some hsame => exact hsame
  · refine agree_of_get (keys_perm (ho.trans ho'.symm)) fun name => ?_
    exact h.rel ((answers_ofList order name).perm ho) ((answers_ofList order' name).perm ho')

/-- Two spellings of the name of one type that ask for different visibilities. -/
def rivals : List (String × Override) :=
  [("a.B", ⟨some .open, [], []⟩), ("a/B", ⟨some .closed, [], []⟩)]

/-- Different spellings of a type may contradict each other, and then the answer depends on the
order. -/
theorem not_orders_agree :
    ¬ ∀ entries : List (String × Override), (entries.map Prod.fst).Nodup →
      ∀ order order', order.Perm entries → order'.Perm entries →
        ∀ name, (ofList order).get? name = (ofList order').get? name := by
  intro h
  have hsame := h rivals (by decide) rivals rivals.reverse (List.Perm.refl _)
    (List.reverse_perm _) "a.B"
  revert hsame
  decide +kernel

end AccessMap

end Jarwright.Source
