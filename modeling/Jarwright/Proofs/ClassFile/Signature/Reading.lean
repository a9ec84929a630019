import Jarwright.Proofs.ClassFile.Signature.Tree

/-!
# Written trees are read back

The reader works with a stack of goals, so what it does with a part of a signature can be said of
that part alone: `Reads f goals cs out goals' rest` says that it takes `cs` off the input before
`rest`, that what it found is `out` once it is renamed, and that `goals'` are left of the goals. The
rules `trans` and `frame` put the parts together, and there is one lemma for each kind of tree.

`map_print` is the result: a signature that is the written form of a tree is accepted, and becomes
the written form of the renamed tree.

The grammar lets a type parameter be without any bound. The reader takes what follows the colon as a
bound, unless it is another colon or the closing bracket. So an unbounded type parameter has to be
the last one of its list (`Tree.Bounded`): `not_map_print` shows one in front of another.
-/

namespace Jarwright.ClassFile.Signature

/-- Reading towards `goals` takes `cs` off the input before `rest`. What it finds is `out` after the
renaming, and it goes on towards `goals'`. -/
def Reads (f : String → String) (goals : List Goal) (cs out : List Char) (goals' : List Goal)
    (rest : List Char) : Prop :=
  ∃ tokens : List Token, tokens.flatMap (Token.render f) = out ∧ ∀ done more,
    scanFrom done (goals ++ more) (cs ++ rest)
      = scanFrom (tokens.reverse ++ done) (goals' ++ more) rest

namespace Reads

variable {f : String → String} {goals goals' goals'' : List Goal} {g g' later : Goal}
  {cs cs' out out' rest : List Char}

theorem refl : Reads f goals [] [] goals rest := ⟨[], rfl, fun _ _ => rfl⟩

theorem trans (h : Reads f goals cs out goals' (cs' ++ rest))
    (h' : Reads f goals' cs' out' goals'' rest) :
    Reads f goals (cs ++ cs') (out ++ out') goals'' rest := by
  obtain ⟨tokens, rfl, hscan⟩ := h
  obtain ⟨tokens', rfl, hscan'⟩ := h'
  refine ⟨tokens ++ tokens', List.flatMap_append, fun done more => ?_⟩
  rw [List.append_assoc, hscan, hscan', List.reverse_append, List.append_assoc]

/-- Goals further down the stack wait. -/
theorem frame (h : Reads f goals cs out goals' rest) (more : List Goal) :
    Reads f (goals ++ more) cs out (goals' ++ more) rest := by
  obtain ⟨tokens, hout, hscan⟩ := h
  refine ⟨tokens, hout, fun done others => ?_⟩
  rw [List.append_assoc, hscan, List.append_assoc]

/-- One step of the reader. -/
theorem of_step (tokens : List Token) (h : step g (cs ++ rest) = some ⟨tokens, goals, rest⟩)
    (hout : tokens.flatMap (Token.render f) = out) : Reads f [g] cs out goals rest := by
  refine ⟨tokens, hout, fun done more => ?_⟩
  rw [List.singleton_append, scanFrom_of_step h]

/-- A goal reads what another one reads that takes the same step. -/
theorem of_same (h : step g (cs ++ rest) = step g' (cs ++ rest))
    (hreads : Reads f [g'] cs out goals rest) : Reads f [g] cs out goals rest := by
  obtain ⟨tokens, hout, hscan⟩ := hreads
  refine ⟨tokens, hout, fun done more => ?_⟩
  rw [← hscan, List.singleton_append, List.singleton_append, scanFrom, scanFrom, h]

/-- A goal that takes the step of another one and comes back behind it. -/
theorem of_andThen (h : step g (cs ++ rest) = (step g' (cs ++ rest)).map (·.andThen later))
    (hreads : Reads f [g', later] cs out goals rest) : Reads f [g] cs out goals rest := by
  obtain ⟨tokens, hout, hscan⟩ := hreads
  refine ⟨tokens, hout, fun done more => ?_⟩
  rw [← hscan, List.singleton_append, List.cons_append, List.singleton_append, scanFrom, scanFrom,
    h]
  cases step g' (cs ++ rest) with
  | none => rfl
  | some s => simp [Step.andThen]

end Reads

/-- A signature that is read to its end is mapped to what was found in it. -/
theorem map_of_reads {f : String → String} {site : Site} {cs out : List Char}
    (h : Reads f site.goals cs out [] []) :
    map site f (String.ofList cs) = .ok (String.ofList out) := by
  obtain ⟨tokens, rfl, hscan⟩ := h
  have hscan : scan site cs = ⟨tokens, true⟩ := by
    have h := hscan [] []
    rw [List.append_nil, List.append_nil, List.append_nil, List.append_nil] at h
    rw [scan, h, scanFrom, List.reverse_reverse]
    rfl
  rw [map, String.toList_ofList, hscan]
  rfl

/-! ## Where a part begins and ends -/

theorem nameUntil_append {stop : Char → Bool} {name more : List Char} {c : Char} (hne : name ≠ [])
    (hname : ∀ c ∈ name, stop c = false) (hc : stop c = true) :
    nameUntil stop (name ++ c :: more) = some (name, c :: more) := by
  have hkeep : ∀ c ∈ name, (!stop c) = true := fun c h => by rw [hname c h]; rfl
  have htake : (name ++ c :: more).takeWhile (fun c => !stop c) = name := by
    rw [List.takeWhile_append_of_pos hkeep, List.takeWhile_cons_of_neg (by simp [hc]),
      List.append_nil]
  have hdrop : (name ++ c :: more).dropWhile (fun c => !stop c) = c :: more := by
    rw [List.dropWhile_append_of_pos hkeep, List.dropWhile_cons_of_neg (by simp [hc])]
  simp [nameUntil, htake, hdrop, hne]

theorem IsIdentifier.isBinaryName {name : List Char} (h : IsIdentifier name) :
    IsBinaryName name :=
  ⟨h.1, fun c hc => by have := h.2 c hc; grind⟩

theorem IsIdentifier.ne {name : List Char} (h : IsIdentifier name) {d : Char}
    (hd : d ∈ ['.', ';', '[', '/', '<', '>', ':']) : ∀ c ∈ name, c ≠ d := by
  rintro c hc rfl
  exact h.2 c hc hd

theorem IsBinaryName.endsName {name : List Char} (h : IsBinaryName name) :
    ∀ c ∈ name, endsName c = false := by
  intro c hc
  have := h.2 c hc
  simp_all [Signature.endsName]

/-- A reference type begins with the letter of its kind. -/
theorem Reference.exists_print (r : Reference) :
    ∃ c cs, r.print = c :: cs ∧ (c = 'L' ∨ c = 'T' ∨ c = '[') := by
  cases r with
  | ofClass type => exact ⟨'L', _, rfl, .inl rfl⟩
  | typeVariable name => exact ⟨'T', _, rfl, .inr (.inl rfl)⟩
  | array element => exact ⟨'[', _, rfl, .inr (.inr rfl)⟩

theorem Argument.print_ne_nil (a : Argument) : a.print ≠ [] := by
  cases a with
  | any => simp [print]
  | exactly type =>
    obtain ⟨c, cs, hprint, -⟩ := type.exists_print
    simp [print, hprint]
  | bounded wildcard type => simp [print]

theorem bracketed_of_ne_nil {cs : List Char} (h : cs ≠ []) : bracketed cs = '<' :: cs ++ ['>'] := by
  cases cs with
  | nil => exact absurd rfl h
  | cons c cs => rfl

/-- What stands behind the arguments of a class. -/
def EndsArguments (rest : List Char) : Prop := ∃ more, rest = ';' :: more ∨ rest = '.' :: more

theorem EndsArguments.exists_cons {rest : List Char} (h : EndsArguments rest) (cs : List Char) :
    ∃ c more, bracketed cs ++ rest = c :: more ∧ endsName c = true := by
  cases cs with
  | nil =>
    obtain ⟨more, rfl | rfl⟩ := h
    · exact ⟨';', more, rfl, rfl⟩
    · exact ⟨'.', more, rfl, rfl⟩
  | cons c cs => exact ⟨'<', _, rfl, rfl⟩

/-! ## Types -/

section Types

variable {f : String → String} {rest : List Char}

/-- Goals that a reference type meets step by step as it meets its own. -/
theorem step_of_reference {c : Char} (hc : c = 'L' ∨ c = 'T' ∨ c = '[') (cs : List Char) :
    step .type (c :: cs) = step .reference (c :: cs)
      ∧ step .arguments (c :: cs) = (step .reference (c :: cs)).map (·.andThen .arguments) := by
  rcases hc with rfl | rfl | rfl <;> exact ⟨rfl, rfl⟩

/-- One character that is copied. -/
theorem reads_copy {g : Goal} {goals : List Goal} {c : Char}
    (h : step g (c :: rest) = some (copy c goals rest)) : Reads f [g] [c] [c] goals rest :=
  .of_step [.text [c]] h rfl

/-- A goal that takes nothing. -/
theorem reads_nothing {g : Goal} {goals : List Goal} (h : step g rest = some ⟨[], goals, rest⟩) :
    Reads f [g] [] [] goals rest :=
  .of_step [] h rfl

/-- The name at the start of a class type. -/
theorem reads_name {name more : List Char} (hname : IsBinaryName name) {c : Char}
    (hc : endsName c = true) :
    Reads f [.reference] ('L' :: name) ('L' :: renamed f name) [.afterName name] (c :: more) := by
  have hstep (cs : List Char) : step .reference ('L' :: cs) = (nameUntil endsName cs).map
      fun p => ⟨[.text ['L'], .name p.1], [.afterName p.1], p.2⟩ := rfl
  refine .of_step [.text ['L'], .name name] ?_ (by simp [Token.render, renamed])
  rw [List.cons_append, hstep, nameUntil_append hname.1 hname.endsName hc]
  rfl

/-- The simple name of a class inside another one. -/
theorem reads_simple {simple more : List Char} (hsimple : IsIdentifier simple) {c : Char}
    (hc : endsName c = true) (outer : List Char) :
    Reads f [.suffixes outer] ('.' :: simple)
      ('.' :: innerName (renamed f outer) (renamed f (outer ++ '$' :: simple)))
      [.afterName (outer ++ '$' :: simple)] (c :: more) := by
  have hstep (cs : List Char) : step (.suffixes outer) ('.' :: cs) = (nameUntil endsName cs).map
      fun p => ⟨[.text ['.'], .inner outer p.1], [.afterName (outer ++ '$' :: p.1)], p.2⟩ := rfl
  refine .of_step [.text ['.'], .inner outer simple] ?_
    (by simp [Token.render, renamed])
  rw [List.cons_append, hstep, nameUntil_append hsimple.1 hsimple.isBinaryName.endsName hc]
  rfl

theorem reads_typeVariable {name : List Char} (hname : IsIdentifier name) :
    Reads f [.reference] ('T' :: name ++ [';']) ('T' :: name ++ [';']) [] rest := by
  have hstep (cs : List Char) : step .reference ('T' :: cs) = (nameUntil (· == ';') cs).map
      fun p => ⟨[.text ('T' :: p.1 ++ [';'])], [], p.2.drop 1⟩ := rfl
  have hstop : ∀ c ∈ name, (c == ';') = false := fun c hc =>
    beq_false_of_ne (hname.ne (by simp) c hc)
  refine .of_step [.text ('T' :: name ++ [';'])] ?_ (by simp [Token.render])
  rw [List.append_assoc, List.cons_append, hstep, List.singleton_append,
    nameUntil_append hname.1 hstop rfl]
  rfl

mutual

/-- A class type is read up to the semicolon, or up to a class inside it. -/
theorem ClassType.reads (c : ClassType) (hc : c.WellFormed) {rest : List Char}
    (hrest : EndsArguments rest) :
    Reads f [.reference] ('L' :: c.body) ('L' :: (c.rename f).body) [.suffixes c.binaryName]
      rest := by
  match c with
  | .named name arguments =>
    obtain ⟨c, more, hmore, hends⟩ := hrest.exists_cons (printArguments arguments)
    refine (hmore ▸ reads_name hc.1 hends).trans ?_
    exact reads_arguments arguments hc.2 name hrest
  | .inside outer simple arguments =>
    obtain ⟨c, more, hmore, hends⟩ := hrest.exists_cons (printArguments arguments)
    have hsimple := hmore ▸ reads_simple (f := f) hc.2.1 hends outer.binaryName
    have houter := outer.reads hc.1
      ⟨simple ++ (bracketed (printArguments arguments) ++ rest), .inr rfl⟩
    exact (houter.trans hsimple).trans (reads_arguments arguments hc.2.2 _ hrest)

/-- The arguments of a class are read in their brackets. -/
theorem reads_arguments (arguments : List Argument) (h : WellFormedArguments arguments)
    (binary : List Char) {rest : List Char} (hrest : EndsArguments rest) :
    Reads f [.afterName binary] (bracketed (printArguments arguments))
      (bracketed (printArguments (renameArguments f arguments))) [.suffixes binary] rest := by
  match arguments with
  | [] =>
    obtain ⟨more, rfl | rfl⟩ := hrest <;> exact reads_nothing rfl
  | a :: others =>
    have hopen : Reads f [.afterName binary] ['<'] ['<'] [.arguments, .suffixes binary]
        (printArguments (a :: others) ++ ['>'] ++ rest) := reads_copy rfl
    have hclosed := (reads_printArguments (a :: others) h rest).frame [.suffixes binary]
    rw [bracketed_of_ne_nil (by simp [printArguments, a.print_ne_nil]), bracketed_of_ne_nil
      (by simp [renameArguments, printArguments, (a.rename f).print_ne_nil])]
    exact hopen.trans hclosed

/-- Type arguments are read up to the closing bracket. -/
theorem reads_printArguments (arguments : List Argument) (h : WellFormedArguments arguments)
    (rest : List Char) :
    Reads f [.arguments] (printArguments arguments ++ ['>'])
      (printArguments (renameArguments f arguments) ++ ['>']) [] rest := by
  match arguments with
  | [] => exact reads_copy rfl
  | a :: others =>
    have hothers := reads_printArguments others h.2 rest
    have hfirst : Reads f [.arguments] a.print (a.rename f).print [.arguments]
        (printArguments others ++ ['>'] ++ rest) := by
      match a with
      | .any => exact reads_copy rfl
      | .exactly type =>
        obtain ⟨c, cs, hprint, hc⟩ := type.exists_print
        refine .of_andThen ?_ ((type.reads h.1).frame [.arguments])
        rw [Argument.print, hprint]
        exact (step_of_reference hc _).2
      | .bounded wildcard type =>
        have hsign : Reads f [.arguments] [wildcard.sign] [wildcard.sign] [.reference, .arguments]
            (type.print ++ (printArguments others ++ ['>'] ++ rest)) := by
          cases wildcard <;> exact reads_copy rfl
        exact hsign.trans ((type.reads h.1).frame [.arguments])
    simpa only [printArguments, renameArguments, List.append_assoc] using hfirst.trans hothers

theorem Reference.reads (r : Reference) (h : r.WellFormed) {rest : List Char} :
    Reads f [.reference] r.print (r.rename f).print [] rest := by
  match r with
  | .ofClass type =>
    exact (type.reads h ⟨rest, .inl rfl⟩).trans (reads_copy rfl)
  | .typeVariable name => exact reads_typeVariable h
  | .array element =>
    have hbracket : Reads f [.reference] ['['] ['['] [.type] (element.print ++ rest) :=
      reads_copy rfl
    exact hbracket.trans (element.reads h)

theorem JavaType.reads (t : JavaType) (h : t.WellFormed) {rest : List Char} :
    Reads f [.type] t.print (t.rename f).print [] rest := by
  match t with
  | .primitive type => cases type <;> exact reads_copy rfl
  | .reference type =>
    obtain ⟨c, cs, hprint, hc⟩ := type.exists_print
    refine .of_same ?_ (type.reads h)
    rw [JavaType.print, hprint]
    exact (step_of_reference hc _).1

end

/-! ## Type parameters -/

/-- What stands behind the first colon of a type parameter when it has no class bound. -/
def EndsBounds (rest : List Char) : Prop := ∃ more, rest = ':' :: more ∨ rest = '>' :: more

/-- Whether a type parameter has a bound. -/
def TypeParameter.IsBounded (p : TypeParameter) : Prop :=
  p.classBound ≠ none ∨ p.interfaceBounds ≠ []

/-- The name of a type parameter and the colon behind it; what is wanted next depends on what comes
next. -/
theorem step_formal {name : List Char} (hname : IsIdentifier name) (cs : List Char) :
    step .formal (name ++ ':' :: cs) = some (match cs with
      | ':' :: more => ⟨[.text (name ++ [':'])], [.bounds], ':' :: more⟩
      | '>' :: more => ⟨[.text (name ++ [':'])], [.bounds], '>' :: more⟩
      | more => ⟨[.text (name ++ [':'])], [.reference, .bounds], more⟩) := by
  have hstop : ∀ c ∈ name, (c == ':') = false := fun c hc =>
    beq_false_of_ne (hname.ne (by simp) c hc)
  rw [step, nameUntil_append hname.1 hstop rfl]
  rfl

theorem reads_formalName {name : List Char} (hname : IsIdentifier name) (hrest : EndsBounds rest) :
    Reads f [.formal] (name ++ [':']) (name ++ [':']) [.bounds] rest := by
  refine .of_step [.text (name ++ [':'])] ?_ (by simp [Token.render])
  rw [List.append_assoc, List.singleton_append, step_formal hname]
  obtain ⟨more, rfl | rfl⟩ := hrest <;> rfl

theorem reads_formalName_bound {name : List Char} (hname : IsIdentifier name) (r : Reference)
    (rest : List Char) :
    Reads f [.formal] (name ++ [':']) (name ++ [':']) [.reference, .bounds] (r.print ++ rest) := by
  refine .of_step [.text (name ++ [':'])] ?_ (by simp [Token.render])
  obtain ⟨c, cs, hprint, hc⟩ := r.exists_print
  rw [List.append_assoc, List.singleton_append, step_formal hname, hprint]
  rcases hc with rfl | rfl | rfl <;> rfl

/-- Bounds are read each behind its own colon. -/
theorem reads_interfaceBounds (rs : List Reference) (h : ∀ r ∈ rs, r.WellFormed)
    (rest : List Char) :
    Reads f [.bounds] (rs.flatMap fun r => ':' :: r.print)
      ((rs.map (Reference.rename f)).flatMap fun r => ':' :: r.print) [.bounds] rest := by
  induction rs with
  | nil => exact .refl
  | cons r rs ih =>
    have hcolon : Reads f [.bounds] [':'] [':'] [.reference, .bounds]
        (r.print ++ ((rs.flatMap fun r => ':' :: r.print) ++ rest)) := reads_copy rfl
    have hbound := hcolon.trans ((r.reads (h r List.mem_cons_self)).frame [.bounds])
    exact hbound.trans (ih fun r hr => h r (List.mem_cons_of_mem _ hr))

/-- A type parameter is read up to the next one or to the closing bracket, if it has a bound; one
without bounds only up to the bracket. -/
theorem TypeParameter.reads (p : TypeParameter) (h : p.WellFormed)
    (hrest : p.IsBounded ∨ ∃ more, rest = '>' :: more) :
    Reads f [.formal] p.print (p.rename f).print [.bounds] rest := by
  obtain ⟨name, classBound, interfaceBounds⟩ := p
  have hbounds := reads_interfaceBounds (f := f) interfaceBounds h.interfaceBounds rest
  cases classBound with
  | some r =>
    have hname := reads_formalName_bound (f := f) h.name r
      ((interfaceBounds.flatMap fun r => ':' :: r.print) ++ rest)
    have hbound := hname.trans ((r.reads (h.classBound r rfl)).frame [.bounds])
    simpa [print, rename] using hbound.trans hbounds
  | none =>
    have hends : EndsBounds ((interfaceBounds.flatMap fun r => ':' :: r.print) ++ rest) := by
      cases interfaceBounds with
      | nil =>
        obtain ⟨more, rfl⟩ := hrest.resolve_left (by simp [IsBounded])
        exact ⟨more, .inr rfl⟩
      | cons r rs => exact ⟨_, .inl rfl⟩
    simpa [print, rename] using (reads_formalName h.name hends).trans hbounds

theorem step_bounds {c : Char} (hcolon : c ≠ ':') (hclose : c ≠ '>') (cs : List Char) :
    step .bounds (c :: cs) = some ⟨[], [.formal], c :: cs⟩ := by
  unfold step
  split <;> simp_all

/-- Type parameters are read up to the closing bracket, if none but the last is without bounds. -/
theorem reads_parameters (p : TypeParameter) (ps : List TypeParameter)
    (h : ∀ q ∈ p :: ps, q.WellFormed) (hbounded : ∀ q ∈ (p :: ps).dropLast, q.IsBounded)
    (rest : List Char) :
    Reads f [.formal] ((p :: ps).flatMap TypeParameter.print ++ ['>'])
      (((p :: ps).map (TypeParameter.rename f)).flatMap TypeParameter.print ++ ['>']) [] rest := by
  induction ps generalizing p with
  | nil =>
    have hp : Reads f [.formal] p.print (p.rename f).print [.bounds] ('>' :: rest) :=
      p.reads (h p List.mem_cons_self) (.inr ⟨rest, rfl⟩)
    simpa using hp.trans (reads_copy rfl)
  | cons q qs ih =>
    have hothers := ih q (fun x hx => h x (List.mem_cons_of_mem p hx))
      (fun x hx => hbounded x (List.mem_cons_of_mem p hx))
    have hp : Reads f [.formal] p.print (p.rename f).print [.bounds]
        ((q :: qs).flatMap TypeParameter.print ++ ['>'] ++ rest) :=
      p.reads (h p List.mem_cons_self) (.inl (hbounded p List.mem_cons_self))
    have hnext : Reads f [.bounds] [] [] [.formal]
        ((q :: qs).flatMap TypeParameter.print ++ ['>'] ++ rest) := by
      have hname := (h q (by simp)).name
      obtain ⟨c, cs, hcs⟩ := List.exists_cons_of_ne_nil hname.1
      have hmem : c ∈ q.name := hcs ▸ List.mem_cons_self
      simp only [List.flatMap_cons, TypeParameter.print, hcs, List.cons_append]
      exact reads_nothing (step_bounds (hname.ne (by simp) c hmem) (hname.ne (by simp) c hmem) _)
    simpa using hp.trans (hnext.trans hothers)

/-- Type parameters in brackets, or nothing. -/
theorem reads_formals (ps : List TypeParameter) (h : ∀ p ∈ ps, p.WellFormed)
    (hbounded : ∀ p ∈ ps.dropLast, p.IsBounded) {c : Char} (hc : c ≠ '<') (more : List Char) :
    Reads f [.formals] (bracketed (ps.flatMap TypeParameter.print))
      (bracketed ((ps.map (TypeParameter.rename f)).flatMap TypeParameter.print)) []
      (c :: more) := by
  cases ps with
  | nil =>
    refine reads_nothing ?_
    unfold step
    split <;> simp_all
  | cons p ps =>
    have hopen : Reads f [.formals] ['<'] ['<'] [.formal]
        ((p :: ps).flatMap TypeParameter.print ++ ['>'] ++ c :: more) := reads_copy rfl
    rw [bracketed_of_ne_nil (by simp [TypeParameter.print]),
      bracketed_of_ne_nil (by simp [TypeParameter.print])]
    exact hopen.trans (reads_parameters p ps h hbounded (c :: more))

/-! ## What stands behind the type parameters -/

/-- Class types up to the end. -/
theorem reads_supertypes (cs : List ClassType) (h : ∀ c ∈ cs, c.WellFormed) :
    Reads f [.supertypes] (cs.flatMap ClassType.print)
      ((cs.map (ClassType.rename f)).flatMap ClassType.print) [] [] := by
  induction cs with
  | nil => exact reads_nothing rfl
  | cons c cs ih =>
    have hc : Reads f [.reference] c.print (c.rename f).print []
        (cs.flatMap ClassType.print ++ []) := (Reference.ofClass c).reads (h c List.mem_cons_self)
    have hfirst : Reads f [.supertypes] c.print (c.rename f).print [.supertypes]
        (cs.flatMap ClassType.print ++ []) := .of_andThen rfl (hc.frame [.supertypes])
    exact hfirst.trans (ih fun d hd => h d (List.mem_cons_of_mem c hd))

/-- Goals that a type meets step by step as it meets its own. -/
theorem step_of_type (t : JavaType) (rest : List Char) :
    step .parameters (t.print ++ rest) = (step .type (t.print ++ rest)).map (·.andThen .parameters)
      ∧ step .result (t.print ++ rest) = step .type (t.print ++ rest) := by
  cases t with
  | primitive type => cases type <;> exact ⟨rfl, rfl⟩
  | reference type =>
    obtain ⟨c, cs, hprint, hc⟩ := type.exists_print
    rw [JavaType.print, hprint]
    rcases hc with rfl | rfl | rfl <;> exact ⟨rfl, rfl⟩

/-- The types of the parameters up to the closing parenthesis. -/
theorem reads_argumentTypes (ts : List JavaType) (h : ∀ t ∈ ts, t.WellFormed) (rest : List Char) :
    Reads f [.parameters] (ts.flatMap JavaType.print ++ [')'])
      ((ts.map (JavaType.rename f)).flatMap JavaType.print ++ [')']) [] rest := by
  induction ts with
  | nil => exact reads_copy rfl
  | cons t ts ih =>
    have hfirst : Reads f [.parameters] t.print (t.rename f).print [.parameters]
        (ts.flatMap JavaType.print ++ [')'] ++ rest) :=
      .of_andThen (step_of_type t _).1 ((t.reads (h t List.mem_cons_self)).frame [.parameters])
    simpa using hfirst.trans (ih fun u hu => h u (List.mem_cons_of_mem t hu))

theorem reads_result (result : Option JavaType) (h : ∀ t ∈ result, t.WellFormed) :
    Reads f [.result] (result.elim ['V'] JavaType.print)
      ((result.map (JavaType.rename f)).elim ['V'] JavaType.print) [] rest := by
  cases result with
  | none => exact reads_copy rfl
  | some t => exact .of_same (step_of_type t _).2 (t.reads (h t rfl))

/-- What a method throws, up to the end. -/
theorem reads_throws (ts : List Thrown) (h : ∀ t ∈ ts, t.toReference.WellFormed) :
    Reads f [.throws] (ts.flatMap Thrown.print)
      ((ts.map (Thrown.rename f)).flatMap Thrown.print) [] [] := by
  induction ts with
  | nil => exact reads_nothing rfl
  | cons t ts ih =>
    have hsign : Reads f [.throws] ['^'] ['^'] [.reference, .throws]
        (t.toReference.print ++ (ts.flatMap Thrown.print ++ [])) := reads_copy rfl
    have hfirst := hsign.trans ((t.toReference.reads (h t List.mem_cons_self)).frame [.throws])
    simpa [Thrown.print] using hfirst.trans (ih fun u hu => h u (List.mem_cons_of_mem t hu))

/-- A method type behind its type parameters. -/
theorem reads_methodType (arguments : List JavaType) (result : Option JavaType)
    (throws : List Thrown) (harguments : ∀ t ∈ arguments, t.WellFormed)
    (hresult : ∀ t ∈ result, t.WellFormed) (hthrows : ∀ t ∈ throws, t.toReference.WellFormed) :
    Reads f [.openParameters, .result, .throws]
      ('(' :: (arguments.flatMap JavaType.print ++ [')'] ++ (result.elim ['V'] JavaType.print
        ++ throws.flatMap Thrown.print)))
      ('(' :: ((arguments.map (JavaType.rename f)).flatMap JavaType.print ++ [')']
        ++ ((result.map (JavaType.rename f)).elim ['V'] JavaType.print
        ++ (throws.map (Thrown.rename f)).flatMap Thrown.print))) [] [] := by
  have hopen : Reads f [.openParameters] ['('] ['('] [.parameters]
      (arguments.flatMap JavaType.print ++ [')'] ++ (result.elim ['V'] JavaType.print
        ++ throws.flatMap Thrown.print) ++ []) := reads_copy rfl
  have htypes := reads_argumentTypes (f := f) arguments harguments
    (result.elim ['V'] JavaType.print ++ throws.flatMap Thrown.print ++ [])
  have hbehind := ((reads_result (f := f) result hresult).frame [.throws]).trans
    (reads_throws (f := f) throws hthrows)
  have htypes := (htypes.frame [.result, .throws]).trans hbehind
  exact (hopen.frame [.result, .throws]).trans htypes

end Types

/-! ## Signatures -/

/-- The type parameters of a signature. -/
def Tree.parameters : Tree → List TypeParameter
  | ofClass parameters .. => parameters
  | ofMethod parameters .. => parameters
  | ofField _ => []

/-- No type parameter but the last one is without a bound. -/
def Tree.Bounded (t : Tree) : Prop := ∀ p ∈ t.parameters.dropLast, p.IsBounded

/-- The written form of a tree is read to its end. -/
theorem Tree.reads (f : String → String) (t : Tree) (h : t.WellFormed) (hbounded : t.Bounded) :
    Reads f t.site.goals t.print (t.rename f).print [] [] := by
  match t with
  | .ofClass parameters superclass interfaces =>
    obtain ⟨hparameters, hsuperclass, hinterfaces⟩ := h
    have hformals : Reads f [.formals] (bracketed (parameters.flatMap TypeParameter.print))
        (bracketed ((parameters.map (TypeParameter.rename f)).flatMap TypeParameter.print)) []
        ((superclass :: interfaces).flatMap ClassType.print ++ []) := by
      rw [List.append_nil]
      exact reads_formals parameters hparameters hbounded (c := 'L') (by decide) _
    have hsupertypes := reads_supertypes (f := f) (superclass :: interfaces)
      (List.forall_mem_cons.2 ⟨hsuperclass, hinterfaces⟩)
    simpa [site, Site.goals, print, rename] using (hformals.frame [.supertypes]).trans hsupertypes
  | .ofMethod parameters arguments result throws =>
    obtain ⟨hparameters, harguments, hresult, hthrows⟩ := h
    have hformals := reads_formals (f := f) parameters hparameters hbounded (c := '(') (by decide)
      (arguments.flatMap JavaType.print ++ [')'] ++ (result.elim ['V'] JavaType.print
        ++ throws.flatMap Thrown.print) ++ [])
    have hmethod := reads_methodType (f := f) arguments result throws harguments hresult hthrows
    simpa [site, Site.goals, print, rename] using
      (hformals.frame [.openParameters, .result, .throws]).trans hmethod
  | .ofField type => exact type.reads h

/-- The written form of a tree becomes the written form of the renamed tree. A class inside another
one gets the simple name that its new name gives it beside the new name of the other; where new
names are built as the old ones, each class type denotes the new name of what it denoted. -/
theorem map_print (f : String → String) (t : Tree) (h : t.WellFormed) (hbounded : t.Bounded) :
    map t.site f (String.ofList t.print) = .ok (String.ofList (t.rename f).print)
      ∧ (∀ outer inner, IsSimpleName outer inner (innerName outer inner))
      ∧ (Nests f → (t.rename f).binaryNames = t.binaryNames.map (renamed f)) :=
  ⟨map_of_reads (t.reads f h hbounded), isSimpleName_innerName, t.binaryNames_rename⟩

/-- A method signature with type parameters, wildcards, arrays and classes inside others. -/
def sampleTree : Tree :=
  .ofMethod
    [⟨['E'], some (.ofClass (.named ['p', '/', 'N'] [])),
      [.ofClass (.named ['I'] [.exactly (.typeVariable ['E'])])]⟩,
     ⟨['U'], none, []⟩]
    [.primitive .int, .reference (.array (.reference (.ofClass
      (.inside (.named ['O'] [.any, .bounded .lower (.array (.primitive .long))]) ['P'] []))))]
    none [.typeVariable ['U']]

/-- A renaming that moves all classes below a package. -/
def moved (name : String) : String := "x/" ++ name

theorem renamed_moved (name : List Char) : renamed moved name = 'x' :: '/' :: name := by
  simp [renamed, moved]

theorem nests_moved : Nests moved := fun outer simple =>
  ⟨simple, by simp [renamed_moved]⟩

theorem map_print_sampleTree :
    sampleTree.WellFormed ∧ sampleTree.Bounded ∧ Nests moved
      ∧ map .methodSite moved "<E:Lp/N;:LI<TE;>;U:>(I[LO<*-[J>.P;)V^TU;"
        = .ok "<E:Lx/p/N;:Lx/I<TE;>;U:>(I[Lx/O<*-[J>.P;)V^TU;"
      ∧ (sampleTree.rename moved).binaryNames = sampleTree.binaryNames.map (renamed moved) := by
  have hwell : sampleTree.WellFormed := by
    simp [sampleTree, Tree.WellFormed, TypeParameter.wellFormed_iff, Reference.WellFormed,
      ClassType.WellFormed, JavaType.WellFormed, WellFormedArguments, Argument.WellFormed,
      Thrown.toReference, IsIdentifier, IsBinaryName]
  have hbounded : sampleTree.Bounded := by
    simp [sampleTree, Tree.Bounded, Tree.parameters, TypeParameter.IsBounded]
  obtain ⟨hmap, -, hnames⟩ := map_print moved sampleTree hwell hbounded
  exact ⟨hwell, hbounded, nests_moved, hmap, hnames nests_moved⟩

/-! ## A type parameter without bounds in front of another one -/

/-- The signature `<A:T:La;>La;`, in which `A` has no bound. -/
def unboundedTree : Tree :=
  .ofClass [⟨['A'], none, []⟩, ⟨['T'], some (.ofClass (.named ['a'] [])), []⟩] (.named ['a'] []) []

/-- The bound of `A` is read as the type variable `:La`. -/
theorem reads_unboundedTree (f : String → String) :
    Reads f [.formals, .supertypes] unboundedTree.print
      ("<A:T:La;>".toList ++ ('L' :: renamed f ['a'] ++ [';'])) [] [] := by
  have hopen : Reads f [.formals] ['<'] ['<'] [.formal] "A:T:La;>La;".toList := reads_copy rfl
  have hname : Reads f [.formal] ['A', ':'] ['A', ':'] [.reference, .bounds] "T:La;>La;".toList :=
    .of_step [.text ['A', ':']] rfl rfl
  have hbound : Reads f [.reference] "T:La;".toList "T:La;".toList [] ">La;".toList :=
    .of_step [.text "T:La;".toList] rfl rfl
  have hclose : Reads f [.bounds] ['>'] ['>'] [] "La;".toList := reads_copy rfl
  have hparameters := ((hopen.trans hname).trans (hbound.frame [.bounds])).trans hclose
  have hsuper := reads_supertypes (f := f) [.named ['a'] []]
    (by simp [ClassType.WellFormed, WellFormedArguments, IsBinaryName])
  have hall := (hparameters.frame [.supertypes]).trans hsuper
  simpa [unboundedTree, Tree.print, ClassType.print, Reference.print, ClassType.body, bracketed,
    TypeParameter.print, printArguments, ClassType.rename, renameArguments] using hall

theorem not_map_print : ¬ ∀ (f : String → String) (t : Tree), t.WellFormed →
    map t.site f (String.ofList t.print) = .ok (String.ofList (t.rename f).print) := by
  intro h
  have hwell : unboundedTree.WellFormed := by
    simp [unboundedTree, Tree.WellFormed, TypeParameter.wellFormed_iff, Reference.WellFormed,
      ClassType.WellFormed, WellFormedArguments, IsIdentifier, IsBinaryName]
  have hmap := h moved unboundedTree hwell
  have hread : Reads moved unboundedTree.site.goals _ _ [] [] := reads_unboundedTree moved
  rw [map_of_reads hread] at hmap
  revert hmap
  decide

end Jarwright.ClassFile.Signature
