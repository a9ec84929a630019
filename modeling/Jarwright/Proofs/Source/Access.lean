import Jarwright.Proofs.Source.Edits
import Jarwright.Proofs.Source.Headers
import Jarwright.Proofs.Text.Splitting

/-!
# What an access map changes in a source

A scan says where the modifiers of each declaration stand; an access map says which visibility some
of them get. The text changes at those modifiers and nowhere else.

* `Overrides` says which visibility a map gives a declaration, `Sets` what that is in the text;
* `wishes` goes through a type once and pairs both; every edit comes from one of its entries
  (`typeEdits_eq`), and stays in the header of that entry, blanks included (`InHeader`).

`applyTo_changes` is the result for all texts, maps and scans in which each declaration has a header
of its own, and `apply_changes` for all files that can be read.
-/

namespace Jarwright.Source.AccessMap

/-! ## What a map asks for -/

/-- The visibility that a map gives to a declaration in a type. Types have an entry each, by their
own names. Of the variables of a field the first one that is mentioned counts, and constructors are
left out. -/
inductive Overrides (m : AccessMap) : TypeDeclaration → Modifiers → Visibility → Prop
  | type {t : TypeDeclaration} {o : Override} {v : Visibility} :
    m.get? t.qualifiedName = some o → o.visibility = some v → Overrides m t t.modifiers v
  | field {t : TypeDeclaration} {o : Override} {v : Visibility} {f : FieldDeclaration}
    {before after : List String} {name : String} :
    m.get? t.qualifiedName = some o → f ∈ t.fields → f.names = before ++ name :: after →
    (∀ n ∈ before, o.field? n = none) → o.field? name = some v → Overrides m t f.modifiers v
  | method {t : TypeDeclaration} {o : Override} {v : Visibility} {f : MethodDeclaration} :
    m.get? t.qualifiedName = some o → f ∈ t.methods → f.isConstructor = false →
    o.method? f.name = some v → Overrides m t f.modifiers v
  | inside {t t' : TypeDeclaration} {d : Modifiers} {v : Visibility} :
    t' ∈ t.types → Overrides m t' d v → Overrides m t d v

/-- What another visibility of a declaration changes in the text. -/
inductive Sets (source : List Char) (d : Modifiers) : Visibility → Change → Prop
  | replaced {k : Keyword} {v : Visibility} {old word : String} :
    d.keyword = some k → k.visibility.keyword? = some old → v.keyword? = some word →
    Sets source d v ⟨k.start, old.toList, word.toList⟩
  /-- With the keyword go all blanks behind it. -/
  | removed {k : Keyword} {old : String} {blanks rest : List Char} :
    d.keyword = some k → k.visibility.keyword? = some old →
    source.drop k.stop = blanks ++ rest → (∀ c ∈ blanks, Text.isBlank c = true) →
    (∀ c, rest.head? = some c → Text.isBlank c = false) →
    Sets source d .package ⟨k.start, old.toList ++ blanks, []⟩
  | inserted {v : Visibility} {word : String} :
    d.keyword = none → v.keyword? = some word →
    Sets source d v ⟨d.insertAt, [], word.toList ++ [' ']⟩

/-- The changes to a file: one for each declaration that gets another visibility than it has. -/
def IsChange (m : AccessMap) (source : List Char) (u : Unit) (change : Change) : Prop :=
  ∃ t ∈ u.types, ∃ d v, m.Overrides t d v ∧ v ≠ d.visibility ∧ Sets source d v change

/-! ## One pass over the declarations -/

mutual

/-- All declarations in a type, each with the visibility that the map gives it. -/
def wishes (m : AccessMap) : TypeDeclaration → List (Modifiers × Option Visibility)
  | ⟨_, _, qualifiedName, modifiers, fields, methods, types⟩ =>
    let o := m.get? qualifiedName
    (modifiers, o.bind (·.visibility))
      :: (fields.map (fun f => (f.modifiers, o.bind fun o => f.names.findSome? o.field?))
        ++ methods.map (fun f =>
          (f.modifiers, if f.isConstructor then none else o.bind (·.method? f.name)))
        ++ wishesIn m types)

def wishesIn (m : AccessMap) : List TypeDeclaration → List (Modifiers × Option Visibility)
  | [] => []
  | t :: ts => wishes m t ++ wishesIn m ts

end

/-- The edit for an entry, if it asks for anything else than there is. -/
def editFor (source : List Char) (wish : Modifiers × Option Visibility) : Option Edit :=
  wish.2.bind (changeTo source wish.1)

mutual

theorem map_wishes (m : AccessMap) (t : TypeDeclaration) :
    (wishes m t).map (·.1) = t.declared := by
  obtain ⟨_, _, _, modifiers, fields, methods, types⟩ := t
  simp [wishes, TypeDeclaration.declared, Function.comp_def, map_wishesIn m types]

theorem map_wishesIn (m : AccessMap) (ts : List TypeDeclaration) :
    (wishesIn m ts).map (·.1) = declaredIn ts := by
  match ts with
  | [] => rfl
  | t :: ts => simp [wishesIn, declaredIn, map_wishes m t, map_wishesIn m ts]

end

/-- The edits of a type without those of the types inside it. -/
theorem editsOf_eq (source : List Char) (t : TypeDeclaration) (o : Override) :
    editsOf source t o = ((t.modifiers, o.visibility)
      :: (t.fields.map (fun f => (f.modifiers, f.names.findSome? o.field?))
        ++ t.methods.map (fun f =>
          (f.modifiers, if f.isConstructor then none else o.method? f.name)))).filterMap
      (editFor source) := by
  have htype : (o.visibility.bind (changeTo source t.modifiers)).toList
      = [(t.modifiers, o.visibility)].filterMap (editFor source) := by
    cases hedit : o.visibility.bind (changeTo source t.modifiers) <;> simp [editFor, hedit]
  have hmethods : ((t.methods.filter (!·.isConstructor)).filterMap fun f =>
        (o.method? f.name).bind (changeTo source f.modifiers))
      = (t.methods.map fun f =>
        (f.modifiers, if f.isConstructor then none else o.method? f.name)).filterMap
        (editFor source) := by
    rw [List.filterMap_filter, List.filterMap_map]
    refine List.filterMap_congr fun f _ => ?_
    cases hf : f.isConstructor <;> simp [editFor, hf]
  have hfields : (t.fields.filterMap fun f =>
        (f.names.findSome? o.field?).bind (changeTo source f.modifiers))
      = (t.fields.map fun f => (f.modifiers, f.names.findSome? o.field?)).filterMap
        (editFor source) := by
    rw [List.filterMap_map]
    rfl
  rw [editsOf, htype, hfields, hmethods, ← List.filterMap_append, ← List.filterMap_append]
  rfl

mutual

/-- Every edit is made for one declaration. -/
theorem typeEdits_eq (m : AccessMap) (source : List Char) (t : TypeDeclaration) :
    m.typeEdits source t = (wishes m t).filterMap (editFor source) := by
  obtain ⟨_, _, qualifiedName, modifiers, fields, methods, types⟩ := t
  rw [typeEdits, wishes, typesEdits_eq m source types, ← List.cons_append, List.filterMap_append]
  congr 1
  cases m.get? qualifiedName with
  | none =>
    refine (List.filterMap_eq_nil_iff.2 fun wish hwish => ?_).symm
    have hnone : wish.2 = none := by
      simp only [Option.bind_none, ite_self, List.mem_cons, List.mem_append, List.mem_map] at hwish
      rcases hwish with rfl | ⟨f, -, rfl⟩ | ⟨f, -, rfl⟩ <;> rfl
    rw [editFor, hnone, Option.bind_none]
  | some o => exact editsOf_eq source _ o

theorem typesEdits_eq (m : AccessMap) (source : List Char) (ts : List TypeDeclaration) :
    m.typesEdits source ts = (wishesIn m ts).filterMap (editFor source) := by
  match ts with
  | [] => rfl
  | t :: ts =>
    rw [typesEdits, wishesIn, List.filterMap_append, typeEdits_eq m source t,
      typesEdits_eq m source ts]

end

mutual

theorem mem_wishes_iff (m : AccessMap) (t : TypeDeclaration) (d : Modifiers) (v : Visibility) :
    (d, some v) ∈ wishes m t ↔ m.Overrides t d v := by
  obtain ⟨kind, name, qualifiedName, modifiers, fields, methods, types⟩ := t
  have hinside := mem_wishesIn_iff m types d v
  rw [wishes, List.mem_cons, List.mem_append, List.mem_append, List.mem_map, List.mem_map, hinside]
  constructor
  · rintro (h | (⟨f, hf, h⟩ | ⟨f, hf, h⟩) | ⟨t', ht', h⟩)
    · obtain ⟨rfl, hv⟩ := Prod.mk.inj h
      obtain ⟨o, ho, hv⟩ := Option.bind_eq_some_iff.1 hv.symm
      exact .type ho hv
    · obtain ⟨rfl, hv⟩ := Prod.mk.inj h
      obtain ⟨o, ho, hv⟩ := Option.bind_eq_some_iff.1 hv
      obtain ⟨before, found, after, hnames, hfound, hbefore⟩ := List.findSome?_eq_some_iff.1 hv
      exact .field ho hf hnames hbefore hfound
    · obtain ⟨rfl, hv⟩ := Prod.mk.inj h
      split at hv
      · cases hv
      · rename_i hmethod
        obtain ⟨o, ho, hv⟩ := Option.bind_eq_some_iff.1 hv
        exact .method ho hf (by simpa using hmethod) hv
    · exact .inside ht' h
  · intro h
    cases h with
    | type ho hv => exact .inl (Prod.ext rfl (Option.bind_eq_some_iff.2 ⟨_, ho, hv⟩).symm)
    | @field _ o _ f _ _ _ ho hf hnames hbefore hfound =>
      have hv : f.names.findSome? o.field? = some v :=
        List.findSome?_eq_some_iff.2 ⟨_, _, _, hnames, hfound, hbefore⟩
      exact .inr (.inl (.inl ⟨f, hf, Prod.ext rfl (Option.bind_eq_some_iff.2 ⟨o, ho, hv⟩)⟩))
    | @method _ o _ f ho hf hmethod hv =>
      refine .inr (.inl (.inr ⟨f, hf, Prod.ext rfl ?_⟩))
      rw [hmethod]
      exact Option.bind_eq_some_iff.2 ⟨o, ho, hv⟩
    | inside ht' h => exact .inr (.inr ⟨_, ht', h⟩)

theorem mem_wishesIn_iff (m : AccessMap) (ts : List TypeDeclaration) (d : Modifiers)
    (v : Visibility) : (d, some v) ∈ wishesIn m ts ↔ ∃ t ∈ ts, m.Overrides t d v := by
  match ts with
  | [] => simp [wishesIn]
  | t :: ts =>
    rw [wishesIn, List.mem_append, mem_wishes_iff m t d v, mem_wishesIn_iff m ts d v]
    simp

end

/-! ## One edit -/

/-- What sets a visibility is told by the text: the blanks that go are as many as there are. -/
theorem Sets.unique {source : List Char} {d : Modifiers} {v : Visibility} {c c' : Change}
    (h : Sets source d v c) (h' : Sets source d v c') : c = c' := by
  cases h with
  | replaced hk hold hword =>
    cases h' with
    | replaced hk' hold' hword' =>
      cases hk.symm.trans hk'
      cases hold.symm.trans hold'
      cases hword.symm.trans hword'
      rfl
    | removed => cases hword
    | inserted hk' => cases hk.symm.trans hk'
  | removed hk hold hcs hall hrest =>
    cases h' with
    | replaced _ _ hword => cases hword
    | removed hk' hold' hcs' hall' hrest' =>
      cases hk.symm.trans hk'
      cases hold.symm.trans hold'
      have hsame := Text.takeWhile_append_of_head? hall hrest
      rw [← hcs, hcs', Text.takeWhile_append_of_head? hall' hrest'] at hsame
      rw [hsame]
    | inserted _ hword => cases hword
  | inserted hk hword =>
    cases h' with
    | replaced hk' => cases hk.symm.trans hk'
    | removed hk' => cases hk.symm.trans hk'
    | inserted _ hword' =>
      cases hword.symm.trans hword'
      rfl

/-- The edit starts in the header, and ends before any other header that begins behind it. -/
structure InHeader (source : List Char) (h : Header) (e : Edit) : Prop where
  fits : e.Fits source
  le_start : h.start ≤ e.start
  start_lt : e.start < h.stop
  stop_le : ∀ h' : Header, h.stop ≤ h'.start → ShowsAt source h'.start → e.stop ≤ h'.start

theorem InHeader.before {source : List Char} {h h' : Header} {e e' : Edit}
    (he : InHeader source h e) (he' : InHeader source h' e') (hstop : h.stop ≤ h'.start)
    (hshows : ShowsAt source h'.start) : e.Before e' where
  start_lt := Nat.lt_of_lt_of_le he.start_lt (Nat.le_trans hstop he'.le_start)
  stop_le := Nat.le_trans (he.stop_le h' hstop hshows) he'.le_start

/-- Behind a run of blanks no header begins inside the run. -/
theorem not_lt_of_blanks {source : List Char} {n i : Nat} (hn : n ≤ i)
    (hshows : ShowsAt source i) : n + ((source.drop n).takeWhile Text.isBlank).length ≤ i := by
  by_contra hlt
  obtain ⟨c, hc, hblank⟩ := hshows
  have hi : i - n < ((source.drop n).takeWhile Text.isBlank).length := by omega
  have hget : ((source.drop n).takeWhile Text.isBlank)[i - n]? = some c := by
    obtain ⟨rest, hrest⟩ := List.takeWhile_prefix (l := source.drop n) Text.isBlank
    have hfront : ((source.drop n).takeWhile Text.isBlank ++ rest)[i - n]?
        = ((source.drop n).takeWhile Text.isBlank)[i - n]? := List.getElem?_append_left hi
    rw [← hfront, hrest, List.getElem?_drop, Nat.add_sub_cancel' hn, hc]
  have hmem := List.mem_of_getElem? hget
  rw [List.all_eq_true.1 List.all_takeWhile c hmem] at hblank
  cases hblank

theorem visibility_of_none {d : Modifiers} (hk : d.keyword = none) : d.visibility = .package := by
  rw [Modifiers.visibility, hk]
  rfl

theorem visibility_of_some {d : Modifiers} {k : Keyword} (hk : d.keyword = some k) :
    d.visibility = k.visibility := by
  rw [Modifiers.visibility, hk]
  rfl

theorem keyword?_eq_none {v : Visibility} (h : v.keyword? = none) : v = .package := by
  cases v with
  | package => rfl
  | «open» => cases h
  | family => cases h
  | closed => cases h

theorem exists_behind_blanks (cs : List Char) :
    ∃ rest, cs = cs.takeWhile Text.isBlank ++ rest
      ∧ ∀ c, rest.head? = some c → Text.isBlank c = false := by
  refine ⟨cs.dropWhile Text.isBlank, List.takeWhile_append_dropWhile.symm, fun c hc => ?_⟩
  have h := List.head?_dropWhile_not Text.isBlank cs
  rw [hc] at h
  exact h

section Edit

variable {source : List Char} {d : Modifiers} {h : Header} {v : Visibility} {k : Keyword}

theorem start_lt_stop (hk : k.IsSpelled source) : k.start < k.stop := by
  obtain ⟨word, hword, hspelled, -⟩ := hk
  by_contra hle
  rw [Nat.sub_eq_zero_of_le (Nat.le_of_not_lt hle), List.take_zero] at hspelled
  cases hv : k.visibility with
  | package => simp [hv, Visibility.keyword?] at hword
  | «open» | family | closed =>
    rw [hv] at hword
    cases hword
    simp at hspelled

theorem sets_inserted (hd : d.LiesIn source h) (hk : d.keyword = none) {word : String}
    (hv : v.keyword? = some word) :
    v ≠ d.visibility
      ∧ Sets source d v (Edit.change source ⟨d.insertAt, d.insertAt, word.toList ++ [' ']⟩)
      ∧ InHeader source h ⟨d.insertAt, d.insertAt, word.toList ++ [' ']⟩ := by
  refine ⟨?_, ?_, ⟨⟨Nat.le_refl _, ?_⟩, hd.le_insertAt, hd.insertAt_lt, fun h' hle _ => ?_⟩⟩
  · rintro rfl
    rw [visibility_of_none hk] at hv
    cases hv
  · have hsets : Sets source d v ⟨d.insertAt, [], word.toList ++ [' ']⟩ := .inserted hk hv
    simpa [Edit.change] using hsets
  · exact Nat.le_of_lt (Nat.lt_of_lt_of_le hd.insertAt_lt hd.stop_le)
  · exact Nat.le_trans (Nat.le_of_lt hd.insertAt_lt) hle

theorem sets_replaced (hd : d.LiesIn source h) (hk : d.keyword = some k) {word : String}
    (hv : v.keyword? = some word) :
    Sets source d v (Edit.change source ⟨k.start, k.stop, word.toList⟩)
      ∧ InHeader source h ⟨k.start, k.stop, word.toList⟩ := by
  obtain ⟨hstart, hstop, hspelled⟩ := hd.keyword k hk
  have hlt := start_lt_stop hspelled
  obtain ⟨old, hold, htext, hle⟩ := hspelled
  refine ⟨?_, ⟨⟨hle, Nat.le_trans hstop hd.stop_le⟩, hstart, Nat.lt_of_lt_of_le hlt hstop,
    fun h' hnext _ => Nat.le_trans hstop hnext⟩⟩
  rw [Edit.change, htext]
  exact .replaced hk hold hv

theorem sets_removed (hd : d.LiesIn source h) (hk : d.keyword = some k) :
    let stop := k.stop + ((source.drop k.stop).takeWhile Text.isBlank).length
    Sets source d .package (Edit.change source ⟨k.start, stop, []⟩)
      ∧ InHeader source h ⟨k.start, stop, []⟩ := by
  intro stop
  obtain ⟨hstart, hstop, hspelled⟩ := hd.keyword k hk
  have hlt := start_lt_stop hspelled
  obtain ⟨old, hold, htext, hle⟩ := hspelled
  obtain ⟨rest, hrest, hbehind⟩ := exists_behind_blanks (source.drop k.stop)
  have hlength : stop ≤ source.length := by
    have hshort := congrArg List.length hrest
    rw [List.length_append, List.length_drop] at hshort
    have := hd.stop_le
    omega
  have hold' : (source.drop k.start).take (stop - k.start)
      = old.toList ++ (source.drop k.stop).takeWhile Text.isBlank := by
    have hcount : stop - k.start
        = (k.stop - k.start) + ((source.drop k.stop).takeWhile Text.isBlank).length := by omega
    rw [hcount, List.take_add, htext, List.drop_drop, Nat.add_sub_cancel' hle]
    congr 1
    exact (List.prefix_iff_eq_take.1 (List.takeWhile_prefix _)).symm
  refine ⟨?_, ⟨⟨?_, hlength⟩, hstart, Nat.lt_of_lt_of_le hlt hstop, fun h' hnext hshows => ?_⟩⟩
  · rw [Edit.change, hold']
    exact .removed hk hold hrest
      (fun c hc => List.all_eq_true.1 List.all_takeWhile c hc) hbehind
  · exact Nat.le_trans hle (Nat.le_add_right _ _)
  · exact not_lt_of_blanks (Nat.le_trans hstop hnext) hshows

/-- The edit for another visibility is what that changes in the text, in the header. -/
theorem changeTo_spec {e : Edit} (hd : d.LiesIn source h) (he : changeTo source d v = some e) :
    v ≠ d.visibility ∧ Sets source d v (e.change source) ∧ InHeader source h e := by
  rw [changeTo] at he
  cases hk : d.keyword with
  | none =>
    cases hv : v.keyword? with
    | none =>
      rw [hk, hv] at he
      cases he
    | some word =>
      rw [hk, hv] at he
      cases he
      exact sets_inserted hd hk hv
  | some k =>
    rw [hk] at he
    simp only at he
    split at he
    · cases he
    · rename_i hne
      refine ⟨fun hsame => hne ?_, ?_⟩
      · rw [hsame, visibility_of_some hk]
      · cases hv : v.keyword? with
        | none =>
          rw [hv] at he
          cases he
          rw [keyword?_eq_none hv]
          exact sets_removed hd hk
        | some word =>
          rw [hv] at he
          cases he
          exact sets_replaced hd hk hv

theorem exists_changeTo (source : List Char) (hv : v ≠ d.visibility) : ∃ e, changeTo source d v = some e := by
  rw [changeTo]
  cases hk : d.keyword with
  | none =>
    rw [visibility_of_none hk] at hv
    cases hword : v.keyword? with
    | none => exact absurd (keyword?_eq_none hword) hv
    | some word => exact ⟨_, rfl⟩
  | some k =>
    rw [visibility_of_some hk] at hv
    simp only [if_neg (Ne.symm hv)]
    cases v.keyword? with
    | none => exact ⟨_, rfl⟩
    | some word => exact ⟨_, rfl⟩

end Edit

/-! ## All edits of a file -/

section File

variable {m : AccessMap} {source : List Char} {u : Unit}

/-- All declarations of a file, each with the visibility that the map gives it. -/
theorem edits_eq (m : AccessMap) (source : List Char) (u : Unit) :
    m.edits source u = (wishesIn m u.types).filterMap (editFor source) :=
  typesEdits_eq m source u.types

theorem mem_declaredIn {wish : Modifiers × Option Visibility} (h : wish ∈ wishesIn m u.types) :
    wish.1 ∈ declaredIn u.types := by
  rw [← map_wishesIn m]
  exact List.mem_map_of_mem h

theorem editFor_eq_some {wish : Modifiers × Option Visibility} {e : Edit} :
    editFor source wish = some e ↔ ∃ v, wish.2 = some v ∧ changeTo source wish.1 v = some e :=
  Option.bind_eq_some_iff

theorem mem_edits {e : Edit} : e ∈ m.edits source u
    ↔ ∃ t ∈ u.types, ∃ d v, m.Overrides t d v ∧ changeTo source d v = some e := by
  rw [edits_eq, List.mem_filterMap]
  constructor
  · rintro ⟨⟨d, w⟩, hwish, hedit⟩
    obtain ⟨v, rfl, he⟩ := editFor_eq_some.1 hedit
    obtain ⟨t, ht, hover⟩ := (mem_wishesIn_iff m u.types d v).1 hwish
    exact ⟨t, ht, d, v, hover, he⟩
  · rintro ⟨t, ht, d, v, hover, he⟩
    exact ⟨(d, some v), (mem_wishesIn_iff m u.types d v).2 ⟨t, ht, hover⟩,
      editFor_eq_some.2 ⟨v, rfl, he⟩⟩

theorem Overrides.mem_declaredIn {t : TypeDeclaration} {d : Modifiers} {v : Visibility}
    (ht : t ∈ u.types) (h : m.Overrides t d v) : d ∈ declaredIn u.types :=
  AccessMap.mem_declaredIn ((mem_wishesIn_iff m u.types d v).2 ⟨t, ht, h⟩)

theorem fits_edits (h : HasHeaders source u) : ∀ e ∈ m.edits source u, e.Fits source := by
  intro e he
  obtain ⟨t, ht, d, v, hover, he⟩ := mem_edits.1 he
  obtain ⟨header, hlies⟩ := h.exists_header (hover.mem_declaredIn ht)
  exact (changeTo_spec hlies he).2.2.fits

/-- The edits lie apart, since each stays in its header. -/
theorem pairwise_edits (h : HasHeaders source u) : (m.edits source u).Pairwise Edit.Apart := by
  have hpairs := h.pairwise
  rw [← map_wishesIn m, List.pairwise_map] at hpairs
  rw [edits_eq, List.pairwise_filterMap]
  refine hpairs.imp fun ⟨header, header', hlies, hlies', hapart⟩ e he e' he' => ?_
  obtain ⟨v, -, hchange⟩ := editFor_eq_some.1 he
  obtain ⟨v', -, hchange'⟩ := editFor_eq_some.1 he'
  have hin := (changeTo_spec hlies hchange).2.2
  have hin' := (changeTo_spec hlies' hchange').2.2
  rcases hapart with hle | hle
  · exact .inl (hin.before hin' hle hlies'.shows)
  · exact .inr (hin'.before hin hle hlies.shows)

/-- The changes that edits make are those that the map asks for. -/
theorem isChange_iff (h : HasHeaders source u) {change : Change} :
    m.IsChange source u change ↔ ∃ e ∈ m.edits source u, e.change source = change := by
  constructor
  · rintro ⟨t, ht, d, v, hover, hne, hsets⟩
    obtain ⟨header, hlies⟩ := h.exists_header (hover.mem_declaredIn ht)
    obtain ⟨e, he⟩ := exists_changeTo source hne
    exact ⟨e, mem_edits.2 ⟨t, ht, d, v, hover, he⟩, (changeTo_spec hlies he).2.1.unique hsets⟩
  · rintro ⟨e, he, rfl⟩
    obtain ⟨t, ht, d, v, hover, he⟩ := mem_edits.1 he
    obtain ⟨header, hlies⟩ := h.exists_header (hover.mem_declaredIn ht)
    obtain ⟨hne, hsets, -⟩ := changeTo_spec hlies he
    exact ⟨t, ht, d, v, hover, hne, hsets⟩

/-- A file becomes what its scan and the map say; the empty map, which does not scan it, asks for
nothing. -/
theorem apply_eq (m : AccessMap) {text : String} {u : Unit}
    (hscan : Unit.scan? text.toList = some u) :
    m.apply text = .ok (String.ofList (m.applyTo text.toList u)) := by
  rw [apply]
  split
  · rename_i hempty
    have hnone : m.edits text.toList u = [] := by
      refine List.eq_nil_iff_forall_not_mem.2 fun e he => ?_
      obtain ⟨t, -, d, v, hover, -⟩ := mem_edits.1 he
      have hget (name : String) : m.get? name = none := by
        rw [get?, List.isEmpty_iff.1 hempty]
        rfl
      induction hover with
      | type ho => simp [hget] at ho
      | field ho => simp [hget] at ho
      | method ho => simp [hget] at ho
      | inside _ _ ih => exact ih
    rw [applyTo, hnone, Edit.applyAll_nil, String.ofList_toList]
  · rw [hscan]

/-- The changes that the map asks for, each at its place. -/
theorem changed_applyTo (m : AccessMap) (h : HasHeaders source u) :
    ∃ changes, Changed 0 changes source (m.applyTo source u)
      ∧ changes.Pairwise (fun c c' => c.start < c'.start)
      ∧ ∀ change, change ∈ changes ↔ m.IsChange source u change := by
  have hapart := pairwise_edits (m := m) h
  refine ⟨_, Edit.applyAll_changed (fits_edits h) hapart, ?_, fun change => ?_⟩
  · rw [List.pairwise_map]
    exact (Edit.pairwise_inOrder hapart).imp fun hbefore => hbefore.start_lt
  · rw [isChange_iff h, List.mem_map]
    simp only [(Edit.inOrder_perm _).mem_iff]

/-- Every file that can be read is changed so. -/
theorem apply_changes (m : AccessMap) {text : String} (hscan : Unit.scan? text.toList = some u) :
    ∃ text', m.apply text = .ok text'
      ∧ ∃ changes, Changed 0 changes text.toList text'.toList
        ∧ ∀ change, change ∈ changes ↔ m.IsChange text.toList u change := by
  obtain ⟨changes, hchanged, -, hchanges⟩ := changed_applyTo m (hasHeaders_of_scan? hscan)
  exact ⟨_, apply_eq m hscan, changes, by rwa [String.toList_ofList], hchanges⟩

/-- **A map changes the modifiers it is about, and nothing else.** For every text and every scan of
it in which each declaration has a header of its own: the new text is the old one with exactly the
changes that the map asks for, each at its place, whatever the order they are collected in. -/
theorem applyTo_changes (m : AccessMap) (source : List Char) (u : Unit) (h : HasHeaders source u) :
    (∃ changes, Changed 0 changes source (m.applyTo source u)
        ∧ changes.Pairwise (fun c c' => c.start < c'.start)
        ∧ ∀ change, change ∈ changes ↔ m.IsChange source u change)
      ∧ (∀ t ∈ u.types, ∀ d v, m.Overrides t d v → v ≠ d.visibility →
        ∃ change, Sets source d v change)
      ∧ (∀ edits : List Edit, edits.Perm (m.edits source u) →
        Edit.applyAll edits source = m.applyTo source u)
      ∧ ∀ text : String, text.toList = source → Unit.scan? source = some u →
        m.apply text = .ok (String.ofList (m.applyTo source u)) := by
  refine ⟨changed_applyTo m h, ?_, ?_, ?_⟩
  · intro t ht d v hover hne
    obtain ⟨header, hlies⟩ := h.exists_header (hover.mem_declaredIn ht)
    obtain ⟨e, he⟩ := exists_changeTo source hne
    exact ⟨_, (changeTo_spec hlies he).2.1⟩
  · exact fun edits hperm => Edit.applyAll_perm (pairwise_edits h) hperm
  · rintro text rfl hscan
    exact apply_eq m hscan

end File

/-! ## A sample -/

/-- A class with two variables that share their modifiers, and a class inside it. -/
def sampleSource : List Char :=
  "public class A \x7b\n  private  int a, b;\n  static class B \x7b A() \x7b\x7d \x7d\n\x7d\n".toList

def sampleUnit : Unit :=
  ⟨none, [⟨.classType, "A", "A", ⟨some ⟨.open, 0, 6⟩, 0⟩,
    [⟨["a", "b"], ⟨some ⟨.closed, 19, 26⟩, 19⟩⟩], [],
    [⟨.classType, "B", "A.B", ⟨none, 40⟩, [], [⟨"A", true, ⟨none, 57⟩⟩], []⟩]⟩]⟩

/-- A map with a replacement, a removal and an insertion; what it says of `A` in `B` is about
methods, and there is only a constructor. -/
def sampleMap : AccessMap :=
  ofList [("A", ⟨some .family, [("b", .package)], []⟩),
    ("A$B.java", ⟨some .closed, [], [("A", .open)]⟩)]

def sampleResult : List Char :=
  "protected class A \x7b\n  int a, b;\n  private static class B \x7b A() \x7b\x7d \x7d\n\x7d\n".toList

theorem hasHeaders_sampleUnit : HasHeaders sampleSource sampleUnit := by
  refine ⟨[(⟨some ⟨.open, 0, 6⟩, 0⟩, ⟨0, 15⟩), (⟨some ⟨.closed, 19, 26⟩, 19⟩, ⟨19, 37⟩),
    (⟨none, 40⟩, ⟨40, 55⟩), (⟨none, 57⟩, ⟨57, 63⟩)], .refl _, ?_, ?_⟩
  · simp only [List.forall_mem_cons, List.not_mem_nil, false_imp_iff, implies_true, and_true]
    refine ⟨⟨by decide, ⟨'p', rfl, rfl⟩, by decide, by decide, fun k hk => ?_⟩,
      ⟨by decide, ⟨'p', rfl, rfl⟩, by decide, by decide, fun k hk => ?_⟩,
      ⟨by decide, ⟨'s', rfl, rfl⟩, by decide, by decide, nofun⟩,
      ⟨by decide, ⟨'A', rfl, rfl⟩, by decide, by decide, nofun⟩⟩
    · cases hk
      exact ⟨by decide, by decide, "public", rfl, by decide, by decide⟩
    · cases hk
      exact ⟨by decide, by decide, "private", rfl, by decide, by decide⟩
  · simp [Header.Apart]

theorem edits_sampleUnit : sampleMap.edits sampleSource sampleUnit
    = [⟨0, 6, "protected".toList⟩, ⟨19, 28, []⟩, ⟨40, 40, "private ".toList⟩] := by
  decide +kernel

theorem applyTo_sampleUnit : sampleMap.applyTo sampleSource sampleUnit = sampleResult := by
  have hbefore : [⟨0, 6, "protected".toList⟩, ⟨19, 28, []⟩,
      ⟨40, 40, "private ".toList⟩].Pairwise Edit.Before := by
    simp [Edit.before_iff]
  rw [applyTo, edits_sampleUnit, Edit.applyAll_of_pairwise hbefore]
  decide +kernel

theorem applyTo_changes_sampleUnit :
    HasHeaders sampleSource sampleUnit
      ∧ (∃ changes, Changed 0 changes sampleSource sampleResult
        ∧ ∀ change, change ∈ changes ↔ sampleMap.IsChange sampleSource sampleUnit change)
      ∧ Edit.applyAll [⟨19, 28, []⟩, ⟨40, 40, "private ".toList⟩, ⟨0, 6, "protected".toList⟩]
        sampleSource = sampleResult := by
  obtain ⟨⟨changes, hchanged, -, hchanges⟩, -, hperm, -⟩ :=
    applyTo_changes sampleMap sampleSource sampleUnit hasHeaders_sampleUnit
  rw [applyTo_sampleUnit] at hchanged hperm
  refine ⟨hasHeaders_sampleUnit, ⟨changes, hchanged, hchanges⟩, hperm _ ?_⟩
  rw [edits_sampleUnit]
  decide

end Jarwright.Source.AccessMap
