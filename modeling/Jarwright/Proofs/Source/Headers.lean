import Jarwright.Proofs.Source.Matching
import Jarwright.Proofs.Source.Tokens
import Mathlib.Data.List.Perm.Basic

/-!
# The headers of declarations

The modifiers of a declaration belong to its header: all of a field, a method or a constructor, and
a type up to its body. The headers of a file lie apart, since its tokens do and those of a header
follow each other.

* `TypeDeclaration.declared` lists the modifiers of all declarations in a type, and `HasHeaders` is
  what has to hold of their places in a file;
* `Headed` says it of a part of the tokens, and is put together in their order (`Headed.append`);
* `headed_ofParts` is the step, for one declaration; `headed_ofNode?` and `headed_ofMembers` go
  through a forest;
* `hasHeaders_of_scan?` is the result, for every file that can be read.
-/

namespace Jarwright.Source

/-! ## Declarations and their headers -/

mutual

/-- The modifiers of the declarations in a type: of the type itself, of its fields, methods and
constructors, and of what is declared in the types inside it. -/
def TypeDeclaration.declared : TypeDeclaration → List Modifiers
  | ⟨_, _, _, modifiers, fields, methods, types⟩ =>
    modifiers :: (fields.map (·.modifiers) ++ methods.map (·.modifiers) ++ declaredIn types)

def declaredIn : List TypeDeclaration → List Modifiers
  | [] => []
  | t :: ts => t.declared ++ declaredIn ts

end

/-- A stretch of characters. -/
structure Header where
  start : Nat
  stop : Nat

/-- The headers have no character in common. -/
def Header.Apart (h h' : Header) : Prop := h.stop ≤ h'.start ∨ h'.stop ≤ h.start

/-- The keyword is what is spelled at its place. -/
def Keyword.IsSpelled (source : List Char) (k : Keyword) : Prop :=
  ∃ word, k.visibility.keyword? = some word
    ∧ (source.drop k.start).take (k.stop - k.start) = word.toList ∧ k.start ≤ k.stop

/-- The modifiers belong to a declaration with this header. -/
structure Modifiers.LiesIn (source : List Char) (d : Modifiers) (h : Header) : Prop where
  stop_le : h.stop ≤ source.length
  /-- A header begins with a token. -/
  shows : ShowsAt source h.start
  le_insertAt : h.start ≤ d.insertAt
  insertAt_lt : d.insertAt < h.stop
  keyword : ∀ k, d.keyword = some k →
    h.start ≤ k.start ∧ k.stop ≤ h.stop ∧ k.IsSpelled source

/-- Every declaration of the file has a header of its own. -/
def HasHeaders (source : List Char) (u : Unit) : Prop :=
  ∃ headers : List (Modifiers × Header), (headers.map (·.1)).Perm (declaredIn u.types)
    ∧ (∀ p ∈ headers, p.1.LiesIn source p.2)
    ∧ headers.Pairwise fun p p' => p.2.Apart p'.2

theorem HasHeaders.exists_header {source : List Char} {u : Unit} {d : Modifiers}
    (h : HasHeaders source u) (hd : d ∈ declaredIn u.types) : ∃ header, d.LiesIn source header := by
  obtain ⟨headers, hdeclared, hlies, -⟩ := h
  obtain ⟨p, hp, rfl⟩ := List.mem_map.1 (hdeclared.mem_iff.2 hd)
  exact ⟨p.2, hlies p hp⟩

theorem HasHeaders.pairwise {source : List Char} {u : Unit} (h : HasHeaders source u) :
    (declaredIn u.types).Pairwise fun d d' => ∃ header header' : Header,
      d.LiesIn source header ∧ d'.LiesIn source header' ∧ header.Apart header' := by
  obtain ⟨headers, hdeclared, hlies, hapart⟩ := h
  refine hdeclared.pairwise (List.pairwise_map.2 ?_) ?_
  · exact hapart.imp_of_mem fun hp hp' hpp' => ⟨_, _, hlies _ hp, hlies _ hp', hpp'⟩
  · rintro d d' ⟨header, header', hd, hd', happ⟩
    exact ⟨header', header, hd', hd, happ.symm⟩

theorem declaredIn_append (ts ts' : List TypeDeclaration) :
    declaredIn (ts ++ ts') = declaredIn ts ++ declaredIn ts' := by
  induction ts with
  | nil => rfl
  | cons t ts ih => rw [List.cons_append, declaredIn, declaredIn, ih, List.append_assoc]

/-! ## Tokens in place -/

section Tokens

variable {source : List Char} {ts ts' : List Token}

theorem InPlace.left (h : InPlace source (ts ++ ts')) : InPlace source ts :=
  ⟨fun t ht => h.stands t (List.mem_append_left _ ht), (List.pairwise_append.1 h.ordered).1⟩

theorem InPlace.right (h : InPlace source (ts ++ ts')) : InPlace source ts' :=
  ⟨fun t ht => h.stands t (List.mem_append_right _ ht), (List.pairwise_append.1 h.ordered).2.1⟩

theorem InPlace.stop_le_lead (h : InPlace source (ts ++ ts')) {t t' : Token} (ht : t ∈ ts)
    (ht' : t' ∈ ts') : t.stop ≤ t'.lead :=
  (List.pairwise_append.1 h.ordered).2.2 t ht t' ht'

/-- The stretch of a header is that from one of the tokens to another one. -/
def Header.Spans (h : Header) (ts : List Token) : Prop :=
  (∃ t ∈ ts, t.start = h.start) ∧ ∃ t ∈ ts, t.stop = h.stop

theorem Header.Spans.mono {h : Header} (hspans : h.Spans ts) (hsub : ts ⊆ ts') : h.Spans ts' :=
  let ⟨⟨t, ht, hstart⟩, t', ht', hstop⟩ := hspans
  ⟨⟨t, hsub ht, hstart⟩, t', hsub ht', hstop⟩

theorem InPlace.head_le {t t' : Token} (h : InPlace source (t :: ts)) (ht' : t' ∈ t :: ts) :
    t.start ≤ t'.start := by
  rcases List.mem_cons.1 ht' with rfl | ht'
  · exact Nat.le_refl _
  · have hstands := h.stands t List.mem_cons_self
    have hstands' := h.stands t' (List.mem_cons_of_mem t ht')
    have hbehind := (List.pairwise_cons.1 h.ordered).1 t' ht'
    have := hstands.start_lt
    have := hstands'.lead_le
    omega

theorem InPlace.le_last {t t' : Token} (h : InPlace source (ts ++ [t])) (ht' : t' ∈ ts ++ [t]) :
    t'.stop ≤ t.stop := by
  rcases List.mem_append.1 ht' with ht' | ht'
  · have hstands := h.stands t (List.mem_append_right _ (List.mem_singleton_self t))
    have hbefore := h.stop_le_lead ht' (List.mem_singleton_self t)
    have := hstands.start_lt
    have := hstands.lead_le
    omega
  · exact List.mem_singleton.1 ht' ▸ Nat.le_refl _

/-- The stretch from the first token to the last one. -/
theorem InPlace.exists_span (h : InPlace source ts) (hne : ts ≠ []) :
    ∃ header : Header, header.Spans ts ∧ header.stop ≤ source.length
      ∧ ShowsAt source header.start
      ∧ ∀ t ∈ ts, header.start ≤ t.start ∧ t.stop ≤ header.stop := by
  obtain ⟨first, behind, hfirst⟩ := List.exists_cons_of_ne_nil hne
  obtain ⟨before, last, hlast⟩ := (List.eq_nil_or_concat' ts).resolve_left hne
  have hmem : first ∈ ts := hfirst ▸ List.mem_cons_self
  have hmem' : last ∈ ts := hlast ▸ List.mem_append_right _ (List.mem_singleton_self last)
  refine ⟨⟨first.start, last.stop⟩, ⟨⟨first, hmem, rfl⟩, last, hmem', rfl⟩,
    (h.stands last hmem').stop_le, (h.stands first hmem).shows, fun t ht => ⟨?_, ?_⟩⟩
  · exact (hfirst ▸ h).head_le (hfirst ▸ ht)
  · exact (hlast ▸ h).le_last (hlast ▸ ht)

end Tokens

/-! ## Headers among tokens -/

/-- The declarations have headers of their own among the tokens. -/
def Headed (source : List Char) (ts : List Token) (ds : List Modifiers) : Prop :=
  ∃ headers : List (Modifiers × Header), (headers.map (·.1)).Perm ds
    ∧ (∀ p ∈ headers, p.1.LiesIn source p.2 ∧ p.2.Spans ts)
    ∧ headers.Pairwise fun p p' => p.2.Apart p'.2

section Headed

variable {source : List Char} {ts ts' : List Token} {ds ds' : List Modifiers}

theorem headed_nil (source : List Char) (ts : List Token) : Headed source ts [] :=
  ⟨[], .refl _, nofun, .nil⟩

theorem Headed.perm (h : Headed source ts ds) (hperm : ds.Perm ds') : Headed source ts ds' :=
  let ⟨headers, hdeclared, hlies, hapart⟩ := h
  ⟨headers, hdeclared.trans hperm, hlies, hapart⟩

theorem InPlace.apart {h h' : Header} (hin : InPlace source (ts ++ ts')) (hs : h.Spans ts)
    (hs' : h'.Spans ts') : h.Apart h' := by
  obtain ⟨-, t, ht, hstop⟩ := hs
  obtain ⟨⟨t', ht', hstart⟩, -⟩ := hs'
  have hle := hin.stop_le_lead ht ht'
  have := (hin.right.stands t' ht').lead_le
  exact .inl (by omega)

/-- What is declared in one part of the tokens stays apart from what is declared behind it. -/
theorem Headed.append (hin : InPlace source (ts ++ ts')) (h : Headed source ts ds)
    (h' : Headed source ts' ds') : Headed source (ts ++ ts') (ds ++ ds') := by
  obtain ⟨headers, hdeclared, hlies, hapart⟩ := h
  obtain ⟨headers', hdeclared', hlies', hapart'⟩ := h'
  refine ⟨headers ++ headers', ?_, fun p hp => ?_, List.pairwise_append.2 ⟨hapart, hapart', ?_⟩⟩
  · rw [List.map_append]
    exact hdeclared.append hdeclared'
  · rcases List.mem_append.1 hp with hp | hp
    · exact ⟨(hlies p hp).1, (hlies p hp).2.mono (List.subset_append_left _ _)⟩
    · exact ⟨(hlies' p hp).1, (hlies' p hp).2.mono (List.subset_append_right _ _)⟩
  · exact fun p hp p' hp' => hin.apart (hlies p hp).2 (hlies' p' hp').2

end Headed

/-! ## One declaration -/

theorem Visibility.keyword?_of_ofKeyword? {text : String} {v : Visibility}
    (h : Visibility.ofKeyword? text = some v) : v.keyword? = some text := by
  unfold ofKeyword? at h
  split at h
  · cases h
    simp [keyword?, *]
  · split at h
    · cases h
      simp [keyword?, *]
    · split at h
      · cases h
        simp [keyword?, *]
      · cases h

theorem mem_tokensOf_of_mem_modifierTokens {ns : List (Node Part)} {t : Token}
    (h : t ∈ modifierTokens ns) : t ∈ tokensOf ns := by
  obtain ⟨n, hn, ht⟩ := List.mem_filterMap.1 h
  obtain ⟨before, behind, rfl⟩ := List.append_of_mem hn
  cases n with
  | leaf t' =>
    cases ht
    simp [tokensOf_append, tokensOf]
  | branch l cs => cases ht

theorem exists_head? {ts : List Token} (h : ts ≠ []) : ∃ t, ts.head? = some t :=
  ⟨ts.head h, List.head?_eq_some_head h⟩

theorem head?_tokensOf_append {xs : List (Node Part)} (h : tokensOf xs ≠ [])
    (ys : List (Node Part)) : (tokensOf (xs ++ ys)).head? = (tokensOf xs).head? := by
  rw [tokensOf_append, List.head?_append_of_ne_nil _ h]

theorem headed_singleton {source : List Char} {ts : List Token} {d : Modifiers} {h : Header}
    (hlies : d.LiesIn source h) (hspans : h.Spans ts) : Headed source ts [d] :=
  ⟨[(d, h)], .refl _, fun _ hp => List.mem_singleton.1 hp ▸ ⟨hlies, hspans⟩,
    List.pairwise_singleton _ _⟩

section One

variable {source : List Char}

/-- Without modifiers, a declaration begins where its first token does. -/
theorem headed_bare {ts : List Token} {first : Token} (hin : InPlace source ts)
    (hfirst : ts.head? = some first) : Headed source ts [⟨none, first.start⟩] := by
  have hmem : first ∈ ts := List.mem_of_head? hfirst
  obtain ⟨header, hspans, hstop, hshows, hwithin⟩ := hin.exists_span (List.ne_nil_of_mem hmem)
  refine headed_singleton ⟨hstop, hshows, (hwithin first hmem).1, ?_, nofun⟩ hspans
  exact Nat.lt_of_lt_of_le (hin.stands first hmem).start_lt (hwithin first hmem).2

/-- Behind modifiers, a keyword goes in front of the first word among them or, if there are only
markers, in front of what follows. -/
theorem headed_modified {ms : List (Node Part)} {ts : List Token} {next : Token}
    (hin : InPlace source (tokensOf ms ++ ts)) (hms : tokensOf ms ≠ [])
    (hnext : ts.head? = some next) :
    Headed source (tokensOf ms ++ ts)
      [⟨(modifierTokens ms).findSome? fun t =>
          (Visibility.ofKeyword? t.text).map fun v => ⟨v, t.start, t.stop⟩,
        ((modifierTokens ms).head?.map (·.start)).getD next.lead⟩] := by
  obtain ⟨header, hspans, hstop, hshows, hwithin⟩ := hin.exists_span (by simp [hms])
  have hword {t : Token} (ht : t ∈ modifierTokens ms) : t ∈ tokensOf ms ++ ts :=
    List.mem_append_left _ (mem_tokensOf_of_mem_modifierTokens ht)
  have hmem : next ∈ ts := List.mem_of_head? hnext
  have hmem' : next ∈ tokensOf ms ++ ts := List.mem_append_right _ hmem
  have hplace : header.start ≤ ((modifierTokens ms).head?.map (·.start)).getD next.lead
      ∧ ((modifierTokens ms).head?.map (·.start)).getD next.lead < header.stop := by
    cases hwords : (modifierTokens ms).head? with
    | some t =>
      have ht := hword (List.mem_of_head? hwords)
      exact ⟨(hwithin t ht).1, Nat.lt_of_lt_of_le (hin.stands t ht).start_lt (hwithin t ht).2⟩
    | none =>
      -- there are only markers, and what follows them begins in the header, behind the first one
      obtain ⟨first, others, heq⟩ := List.exists_cons_of_ne_nil hms
      have hfirst : first ∈ tokensOf ms := heq ▸ List.mem_cons_self
      have hwithin' := hwithin first (List.mem_append_left _ hfirst)
      have hle := hin.stop_le_lead hfirst hmem
      have hnextIn := hin.stands next hmem'
      have := (hin.stands first (List.mem_append_left _ hfirst)).start_lt
      have := hnextIn.lead_le
      have := hnextIn.start_lt
      have := (hwithin next hmem').2
      exact ⟨by simp only [Option.map_none, Option.getD_none]; omega,
        by simp only [Option.map_none, Option.getD_none]; omega⟩
  refine headed_singleton ⟨hstop, hshows, hplace.1, hplace.2, fun k hk => ?_⟩ hspans
  obtain ⟨t, ht, hk⟩ := List.exists_of_findSome?_eq_some hk
  obtain ⟨v, hv, rfl⟩ := Option.map_eq_some_iff.1 hk
  have hstands := hin.stands t (hword ht)
  obtain ⟨hstart, hend⟩ := hwithin t (hword ht)
  exact ⟨hstart, hend, t.text, Visibility.keyword?_of_ofKeyword? hv, hstands.text.symm,
    Nat.le_of_lt hstands.start_lt⟩

/-- The place of a declaration lies among the tokens it begins with, if there is more than its
modifiers. -/
theorem headed_ofParts {front : List (Node Part)} (hformed : Formed front)
    (hcontent : HasContent front) (hin : InPlace source (tokensOf front))
    (behind : List (Node Part)) :
    Headed source (tokensOf front) [Modifiers.ofParts (front ++ behind)] := by
  unfold Modifiers.ofParts
  split
  · rename_i ms rest heq
    obtain ⟨n, hn, hother, hcontent⟩ := hcontent
    cases front with
    | nil => cases hn
    | cons n' front =>
      rw [List.cons_append, List.cons.injEq] at heq
      obtain ⟨rfl, rfl⟩ := heq
      have hn : n ∈ front := (List.mem_cons.1 hn).resolve_left (hother ms)
      have hfront : HasContent front := ⟨n, hn, hother, hcontent⟩
      obtain ⟨next, hnext⟩ := exists_head? hfront.tokensOf_ne_nil
      obtain ⟨hms, -⟩ : Shaped .modifiers ms ∧ _ := by simpa [Formed] using hformed
      rw [tokensOf] at hin ⊢
      rw [head?_tokensOf_append hfront.tokensOf_ne_nil, hnext]
      exact headed_modified hin hms.tokensOf_ne_nil hnext
  · obtain ⟨first, hfirst⟩ := exists_head? hcontent.tokensOf_ne_nil
    rw [head?_tokensOf_append hcontent.tokensOf_ne_nil, hfirst]
    exact headed_bare hin hfirst

end One

/-! ## A forest -/

theorem tokensOf_singleton (l : Part) (cs : List (Node Part)) :
    tokensOf [.branch l cs] = tokensOf cs := by
  simp [tokensOf]

/-- What is declared by members of a type. -/
def membersDeclared (owner : String) (ns : List (Node Part)) : List Modifiers :=
  (fieldsOf ns).map (·.modifiers) ++ (methodsOf ns).map (·.modifiers)
    ++ declaredIn (TypeDeclaration.ofMembers owner ns)

/-- What is declared in the first body among the parts of a type. -/
def bodyDeclared (owner : String) (ns : List (Node Part)) : List Modifiers :=
  let members := (partOf? .body ns).getD []
  (fieldsOf members).map (·.modifiers) ++ (methodsOf members).map (·.modifiers)
    ++ declaredIn (TypeDeclaration.ofBody owner ns)

/-- The name of a type with these parts inside `owner`. -/
def qualified (owner : String) (ns : List (Node Part)) : String :=
  let name := (nameIn? ns).getD ""
  if owner.isEmpty then name else owner ++ "." ++ name

theorem membersDeclared_type (owner : String) (kind : TypeKind) (cs : List (Node Part)) :
    membersDeclared owner [.branch (.type kind) cs]
      = [Modifiers.ofParts cs] ++ bodyDeclared (qualified owner cs) cs := by
  simp [membersDeclared, fieldsOf, methodsOf, TypeDeclaration.ofMembers, TypeDeclaration.ofNode?,
    declaredIn, TypeDeclaration.declared, bodyDeclared, qualified]

theorem membersDeclared_method (owner : String) (cs : List (Node Part)) :
    membersDeclared owner [.branch .method cs]
      = ((nameIn? cs).map fun _ => Modifiers.ofParts cs).toList := by
  cases hname : nameIn? cs <;>
    simp [membersDeclared, fieldsOf, methodsOf, TypeDeclaration.ofMembers, TypeDeclaration.ofNode?,
      declaredIn, hname]

theorem membersDeclared_constructor (owner : String) (cs : List (Node Part)) :
    membersDeclared owner [.branch .constructor cs]
      = ((nameIn? cs).map fun _ => Modifiers.ofParts cs).toList := by
  cases hname : nameIn? cs <;>
    simp [membersDeclared, fieldsOf, methodsOf, TypeDeclaration.ofMembers, TypeDeclaration.ofNode?,
      declaredIn, hname]

def isBody : Node Part → Bool
  | .branch .body _ => true
  | _ => false

theorem bodyDeclared_body (owner : String) (cs ns : List (Node Part)) :
    bodyDeclared owner (.branch .body cs :: ns) = membersDeclared owner cs := by
  simp [bodyDeclared, membersDeclared, partOf?, TypeDeclaration.ofBody]

theorem ofBody_skip {n : Node Part} (h : isBody n = false) (owner : String)
    (ns : List (Node Part)) :
    TypeDeclaration.ofBody owner (n :: ns) = TypeDeclaration.ofBody owner ns := by
  cases n with
  | leaf t => simp [TypeDeclaration.ofBody]
  | branch l cs =>
    cases l with
    | body => cases h
    | _ => simp [TypeDeclaration.ofBody]

theorem bodyDeclared_skip {n : Node Part} (h : isBody n = false) (owner : String)
    (ns : List (Node Part)) : bodyDeclared owner (n :: ns) = bodyDeclared owner ns := by
  have hpart : partOf? .body (n :: ns) = partOf? .body ns := by
    cases n with
    | leaf t => simp [partOf?]
    | branch l cs =>
      cases l with
      | body => cases h
      | _ => simp [partOf?]
  rw [bodyDeclared, bodyDeclared, hpart, ofBody_skip h]

/-- Fields, methods and types are listed apart, but are the same as what the members declare one
after the other. -/
theorem membersDeclared_cons (owner : String) (n : Node Part) (ns : List (Node Part)) :
    (membersDeclared owner [n] ++ membersDeclared owner ns).Perm
      (membersDeclared owner (n :: ns)) := by
  have hfields : fieldsOf (n :: ns) = fieldsOf [n] ++ fieldsOf ns := List.filterMap_append (l := [n])
  have hmethods : methodsOf (n :: ns) = methodsOf [n] ++ methodsOf ns :=
    List.filterMap_append (l := [n])
  have htypes : TypeDeclaration.ofMembers owner (n :: ns)
      = TypeDeclaration.ofMembers owner [n] ++ TypeDeclaration.ofMembers owner ns := by
    simp [TypeDeclaration.ofMembers]
  refine List.perm_iff_count.2 fun d => ?_
  simp only [membersDeclared, hfields, hmethods, htypes, List.map_append, declaredIn_append,
    List.count_append]
  omega

section Forest

variable {source : List Char}

/-- A type stands behind its modifiers, in front of any body. -/
theorem HeadsType.takeWhile {ns : List (Node Part)} (h : HeadsType ns) :
    HasContent (ns.takeWhile (!isBody ·)) := by
  obtain ⟨front, word, name, behind, rfl, hfront⟩ := h
  have hword (ns : List (Node Part)) :
      HasContent ((Node.leaf word :: ns).takeWhile (!isBody ·)) :=
    (hasContent_leaf word).left _
  rcases hfront with rfl | ⟨ms, rfl⟩
  · exact hword _
  · exact (hword _).right [.branch .modifiers ms]

mutual

theorem headed_ofMember (owner : String) (n : Node Part) (hformed : Formed [n])
    (hin : InPlace source (tokensOf [n])) :
    Headed source (tokensOf [n]) (membersDeclared owner [n]) := by
  match n with
  | .leaf t => exact headed_nil source _
  | .branch l cs =>
    obtain ⟨hshape, hparts⟩ : Shaped l cs ∧ Formed cs := by simpa [Formed] using hformed
    rw [tokensOf_singleton] at hin ⊢
    have hone (hcontent : HasContent cs) : Headed source (tokensOf cs) [Modifiers.ofParts cs] := by
      simpa using headed_ofParts hparts hcontent hin []
    cases l with
    | type kind =>
      -- the type itself is declared in front of its body, and its members in the body
      rw [membersDeclared_type]
      have hsplit := List.takeWhile_append_dropWhile (p := (!isBody ·)) (l := cs)
      have hbody := headed_ofBody (qualified owner cs) cs hparts hin
      rw [← hsplit] at hparts hin
      rw [tokensOf_append] at hin
      have hfront := headed_ofParts (formed_append.1 hparts).1 hshape.takeWhile hin.left
        (cs.dropWhile (!isBody ·))
      rw [hsplit] at hfront
      rw [← hsplit, tokensOf_append]
      rw [hsplit]
      exact hfront.append hin hbody
    | field => exact hone hshape
    | method =>
      rw [membersDeclared_method]
      cases nameIn? cs with
      | none => exact headed_nil source _
      | some name => exact hone hshape
    | constructor =>
      rw [membersDeclared_constructor]
      cases nameIn? cs with
      | none => exact headed_nil source _
      | some name => exact hone hshape
    | _ => exact headed_nil source _

theorem headed_ofBody (owner : String) (ns : List (Node Part)) (hformed : Formed ns)
    (hin : InPlace source (tokensOf ns)) :
    Headed source (tokensOf (ns.dropWhile (!isBody ·))) (bodyDeclared owner ns) := by
  match ns with
  | [] => exact headed_nil source _
  | n :: ns =>
    have hns := formed_append.1 (List.singleton_append (x := n) ▸ hformed)
    rw [← List.singleton_append, tokensOf_append] at hin
    cases hbody : isBody n with
    | false =>
      rw [bodyDeclared_skip hbody, List.dropWhile_cons_of_pos (by simp [hbody])]
      exact headed_ofBody owner ns hns.2 hin.right
    | true =>
      match n with
      | .branch .body cs =>
        have hcs : Formed cs := by simpa [Formed, Shaped] using hns.1
        rw [tokensOf_singleton] at hin
        rw [List.dropWhile_cons_of_neg (by simp [isBody]), bodyDeclared_body,
          ← List.singleton_append, tokensOf_append, tokensOf_singleton]
        simpa using (headed_ofMembers owner cs hcs hin.left).append hin
          (headed_nil source (tokensOf ns))

theorem headed_ofMembers (owner : String) (ns : List (Node Part)) (hformed : Formed ns)
    (hin : InPlace source (tokensOf ns)) :
    Headed source (tokensOf ns) (membersDeclared owner ns) := by
  match ns with
  | [] => exact headed_nil source _
  | n :: ns =>
    rw [← List.singleton_append, formed_append] at hformed
    rw [← List.singleton_append, tokensOf_append] at hin ⊢
    exact ((headed_ofMember owner n hformed.1 hin.left).append hin
      (headed_ofMembers owner ns hformed.2 hin.right)).perm (membersDeclared_cons owner n ns)

end

theorem headed_ofNode? (owner : String) (n : Node Part) (hformed : Formed [n])
    (hin : InPlace source (tokensOf [n])) :
    Headed source (tokensOf [n]) (declaredIn (TypeDeclaration.ofNode? owner n).toList) := by
  have hmember := headed_ofMember owner n hformed hin
  cases n with
  | leaf t => exact headed_nil source _
  | branch l cs =>
    cases l with
    | type kind =>
      simpa [membersDeclared, fieldsOf, methodsOf, TypeDeclaration.ofMembers] using hmember
    | _ => exact headed_nil source _

/-- Types are listed as they are found. -/
theorem headed_ofNodes {ns : List (Node Part)} (hformed : Formed ns) (u : Unit) {ts : List Token}
    (hin : InPlace source (ts ++ tokensOf ns)) (h : Headed source ts (declaredIn u.types)) :
    Headed source (ts ++ tokensOf ns) (declaredIn (Unit.ofNodes source u ns).types) := by
  fun_induction Unit.ofNodes source u ns generalizing ts with
  | case1 u => simpa [tokensOf] using h
  | case2 u cs ns ih =>
    rw [← List.singleton_append, tokensOf_append, ← List.append_assoc] at hin ⊢
    refine ih (formed_append.1 (List.singleton_append ▸ hformed)).2 hin ?_
    simpa using h.append hin.left (headed_nil source _)
  | case3 u n ns _ found ih =>
    rw [← List.singleton_append, formed_append] at hformed
    rw [← List.singleton_append, tokensOf_append, ← List.append_assoc] at hin ⊢
    refine ih hformed.2 hin ?_
    rw [declaredIn_append]
    exact h.append hin.left (headed_ofNode? _ n hformed.1 hin.left.right)

/-- A file is read from a forest of its tokens. -/
theorem exists_forest {u : Unit} (h : Unit.scan? source = some u) :
    ∃ nodes, Formed nodes ∧ InPlace source (tokensOf nodes)
      ∧ u = Unit.ofNodes source ⟨none, []⟩ nodes := by
  obtain ⟨ts, hts, h⟩ := Option.bind_eq_some_iff.1 h
  obtain ⟨nodes, hnodes, h⟩ := Option.bind_eq_some_iff.1 h
  cases h
  obtain ⟨htokens, hformed⟩ := Pattern.takes_parse? hnodes
  have hin := inPlace_tokenize? hts
  rw [← htokens, List.append_nil] at hin
  exact ⟨nodes, hformed, hin, rfl⟩

/-- **Every declaration of a file has a header of its own**, whatever the file declares. -/
theorem hasHeaders_of_scan? {u : Unit} (h : Unit.scan? source = some u) : HasHeaders source u := by
  obtain ⟨nodes, hformed, hin, rfl⟩ := exists_forest h
  rw [← List.nil_append (tokensOf nodes)] at hin
  obtain ⟨headers, hdeclared, hlies, hapart⟩ :=
    headed_ofNodes hformed ⟨none, []⟩ hin (headed_nil source [])
  exact ⟨headers, hdeclared, fun p hp => (hlies p hp).1, hapart⟩

end Forest

end Jarwright.Source
