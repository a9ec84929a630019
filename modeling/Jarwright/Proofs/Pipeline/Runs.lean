import Jarwright.Proofs.Pipeline.Computing

/-!
# Runs

A run is one build, from the world it begins in. Its visits are those of its stages, up to the first
one that fails.

* `prepare`, `provideAll`, `finish`: what a build consists of (`build_eq`);
* `course`: the visits that a sequence of stages is (`perform_provideAll`);
* `Run.prepared_disk`, `Run.visits_of_mem`: a run looks at the disk before its visits, and finds out
  about the same products as every other run with its settings;
* `Run.Orderly`: what is asked of a run.
-/

namespace Jarwright.Pipeline

open Machine Machine.Action Store Settings

/-! ## The parts of a build -/

/-- What a build does before its stages. -/
def prepare (s : Settings) (tools : Tools) : Action Fault Context := do
  orFail .settings s.validate
  let root ← repositoryRoot s
  let access ← accessMap s
  orFail .settings (context s tools root access)

/-- The paths of the products of stages. -/
def provideAll (c : Context) (stages : List Stage) : Action Fault (List String) :=
  stages.mapM fun stage => stage.provide c

/-- What a build does with the products of its stages. -/
def finish (s : Settings) (c : Context) (paths : List String) : Action Fault Report := do
  let resources ← placeResources c
  let w ← atStage "check-git" (workflow s)
  let initialized ← makeBaseline c w
  ensureSafe w
  let patches ← applySeries w
  return {
    vanilla := paths.getD 0 ""
    mapped := paths.getD 3 ""
    sources := paths.getD 4 ""
    resources
    initialized
    patches }

theorem build_eq (s : Settings) (tools : Tools) :
    build s tools = (do
      let c ← prepare s tools
      finish s c (← provideAll c stages)) := by
  unfold build prepare provideAll stages
  simp only [List.mapM_cons, List.mapM_nil, bind_assoc, pure_bind]
  rfl

/-! ## The visits of stages -/

/-- The visits of stages one after the other, up to the first that fails. -/
def course (c : Context) (s : Surroundings) : List Stage → World → List Visit
  | [], _ => []
  | stage :: rest, w =>
    let v : Visit := ⟨stage, c, s, w⟩
    match v.outcome.1 with
    | .ok _ => v :: course c s rest v.outcome.2
    | .error _ => [v]

/-- The world after visits. -/
def worldAfter (w : World) : List Visit → World
  | [] => w
  | v :: rest => worldAfter v.outcome.2 rest

section Course

variable {c : Context} {s : Surroundings}

theorem course_of_ok {stage : Stage} {rest : List Stage} {w : World} {path : String}
    (h : (⟨stage, c, s, w⟩ : Visit).outcome.1 = .ok path) :
    course c s (stage :: rest) w
      = ⟨stage, c, s, w⟩ :: course c s rest (⟨stage, c, s, w⟩ : Visit).outcome.2 := by
  rw [course, h]

theorem course_of_error {stage : Stage} {rest : List Stage} {w : World} {e : Fault}
    (h : (⟨stage, c, s, w⟩ : Visit).outcome.1 = .error e) :
    course c s (stage :: rest) w = [⟨stage, c, s, w⟩] := by
  rw [course, h]

/-- Stages are provided one after the other, until a visit fails. -/
theorem ends_provideAll_cons {stage : Stage} {rest : List Stage} {w : World} {Q : World → Prop}
    {E : Fault → World → Prop}
    (hok : ∀ path, (⟨stage, c, s, w⟩ : Visit).outcome.1 = .ok path →
      Ends (provideAll c rest) s (⟨stage, c, s, w⟩ : Visit).outcome.2 (fun _ => Q) E)
    (herror : ∀ e, (⟨stage, c, s, w⟩ : Visit).outcome.1 = .error e →
      E e (⟨stage, c, s, w⟩ : Visit).outcome.2) :
    Ends (provideAll c (stage :: rest)) s w (fun _ => Q) E := by
  unfold provideAll at hok ⊢
  rw [List.mapM_cons]
  refine .bind (.of_perform (fun path w' hpath => ?_) fun e w' he => ?_)
  · rw [Visit.perform_provide] at hpath
    obtain rfl : (⟨stage, c, s, w⟩ : Visit).outcome.2 = w' := congrArg Prod.snd hpath
    exact .bind ((hok path (congrArg Prod.fst hpath)).mono (fun _ _ hQ => .pure hQ)
      fun _ _ he => he)
  · rw [Visit.perform_provide] at he
    obtain rfl : (⟨stage, c, s, w⟩ : Visit).outcome.2 = w' := congrArg Prod.snd he
    exact herror e (congrArg Prod.fst he)

/-- Providing the products of stages is visiting them. -/
theorem perform_provideAll (c : Context) (s : Surroundings) (sequence : List Stage) (w : World) :
    ((provideAll c sequence).perform s w).2 = worldAfter w (course c s sequence w) := by
  induction sequence generalizing w with
  | nil => rfl
  | cons stage rest ih =>
    have hrest (w : World) (f : List String → List String) :
        ((do return f (← provideAll c rest) : Action Fault (List String)).perform s w).2
          = worldAfter w (course c s rest w) := by
      rw [← ih w, perform_bind]
      rcases (provideAll c rest).perform s w with ⟨_ | _, _⟩ <;> rfl
    unfold provideAll at hrest ⊢
    rw [List.mapM_cons, perform_bind, Visit.perform_provide, course]
    rcases houtcome : (⟨stage, c, s, w⟩ : Visit).outcome with ⟨e | path, w'⟩
    · dsimp only
      rw [worldAfter, worldAfter, houtcome]
    · dsimp only
      rw [hrest, worldAfter, houtcome]

/-- A visit that fails ends the sequence. -/
theorem ends_of_failed {sequence : List Stage} {w : World} {v : Visit} {e : Fault}
    (hv : v ∈ course c s sequence w) (he : v.outcome.1 = .error e) :
    Ends (provideAll c sequence) s w (fun _ _ => False) fun e' _ => e' = e := by
  induction sequence generalizing w with
  | nil => cases hv
  | cons stage rest ih =>
    refine ends_provideAll_cons (fun path hok => ?_) fun e' he' => ?_
    · rw [course_of_ok hok] at hv
      rcases List.mem_cons.1 hv with rfl | hrest
      · rw [hok] at he
        cases he
      · exact ih hrest
    · rw [course_of_error he'] at hv
      obtain rfl := List.mem_singleton.1 hv
      exact Except.error.inj (he'.symm.trans he)

/-- The visits are those of the stages, in one context. -/
theorem of_mem_course {v : Visit} {sequence : List Stage} {w : World}
    (h : v ∈ course c s sequence w) :
    v.stage ∈ sequence ∧ v.context = c ∧ v.surroundings = s := by
  induction sequence generalizing w with
  | nil => cases h
  | cons stage rest ih =>
    rw [course] at h
    split at h
    · rcases List.mem_cons.1 h with rfl | hrest
      · exact ⟨List.mem_cons_self, rfl, rfl⟩
      · obtain ⟨hstage, hcontext⟩ := ih hrest
        exact ⟨List.mem_cons_of_mem _ hstage, hcontext⟩
    · obtain rfl := List.mem_singleton.1 h
      exact ⟨List.mem_cons_self, rfl, rfl⟩

/-- What holds from each visit's beginning to its end links all that happens in between. -/
theorem isChain_course {R : World → World → Prop} {sequence : List Stage} {w w' : World}
    (hrefl : ∀ w, R w w)
    (hvisits : ∀ v ∈ course c s sequence w, R v.world v.outcome.2)
    (hend : R (worldAfter w (course c s sequence w)) w') :
    (w :: ((course c s sequence w).flatMap fun v => [v.world, v.outcome.2]) ++ [w']).IsChain R := by
  induction sequence generalizing w with
  | nil =>
    rw [course, List.flatMap_nil]
    exact .cons_cons hend (.singleton w')
  | cons stage rest ih =>
    rw [course] at hvisits hend ⊢
    split at hvisits
    · rename_i path hpath
      rw [hpath] at hend
      have hfirst := hvisits _ List.mem_cons_self
      have hrest := ih (fun v hv => hvisits v (List.mem_cons_of_mem _ hv)) hend
      exact .cons_cons (hrefl w) (.cons_cons hfirst hrest)
    · rename_i e he
      rw [he] at hend
      have hfirst := hvisits _ (List.mem_singleton_self _)
      exact .cons_cons (hrefl w) (.cons_cons hfirst (.cons_cons hend (.singleton w')))

end Course

/-! ## Contexts -/

/-- Whether a context is one of builds with the settings and the repository at a root. -/
def Context.BelongsTo (c : Context) (s : Settings) (root : String) : Prop :=
  ∃ tools access, context s tools root access = .ok c

theorem context_eq_ok {c : Context} {s : Settings} {tools : Tools} {root : String}
    {access : Option Source.AccessMap} (h : context s tools root access = .ok c) :
    ∃ distribution mappingVersion, s.requireDistribution = .ok distribution
      ∧ readMappingVersion s.mappingVersion = .ok mappingVersion
      ∧ c = {
        settings := s
        distribution
        mappingVersion
        repository := { root }
        decompiler := tools.decompiler
        formatter := tools.formatter
        accessMap := access } := by
  unfold context at h
  cases hdistribution : s.requireDistribution with
  | error e =>
    rw [hdistribution] at h
    cases h
  | ok distribution =>
    cases hversion : readMappingVersion s.mappingVersion with
    | error e =>
      rw [hdistribution, hversion] at h
      cases h
    | ok mappingVersion =>
      rw [hdistribution, hversion] at h
      exact ⟨distribution, mappingVersion, rfl, rfl, (Except.ok.inj h).symm⟩

/-- The settings alone decide about the products. -/
theorem Context.BelongsTo.same {c c' : Context} {s : Settings} {root : String}
    (h : c.BelongsTo s root) (h' : c'.BelongsTo s root) :
    c'.repository = c.repository ∧ ∀ stage ∈ stages, stage.coordinate c' = stage.coordinate c := by
  obtain ⟨tools, access, h⟩ := h
  obtain ⟨tools', access', h'⟩ := h'
  obtain ⟨distribution, version, hdistribution, hversion, rfl⟩ := context_eq_ok h
  obtain ⟨distribution', version', hdistribution', hversion', rfl⟩ := context_eq_ok h'
  obtain rfl := Except.ok.inj (hdistribution.symm.trans hdistribution')
  obtain rfl := Except.ok.inj (hversion.symm.trans hversion')
  refine ⟨rfl, fun stage hstage => ?_⟩
  simp only [stages, List.mem_cons, List.not_mem_nil, or_false] at hstage
  rcases hstage with rfl | rfl | rfl | rfl | rfl <;> rfl

/-! ## Runs -/

/-- A build with tools, from the world that it begins in. -/
structure Run where
  tools : Tools
  surroundings : Surroundings
  world : World

/-- Tools that do nothing. -/
def idleTools : Tools := ⟨fun _ directory => throw (.noDecompilerOutput directory), fun _ => none⟩

namespace Run

variable {s : Settings} {run : Run} {c : Context} {root : String}

/-- What comes of the run. -/
def outcome (run : Run) (s : Settings) : Except Fault Report × World :=
  (build s run.tools).perform run.surroundings run.world

/-- What is found out before the stages. -/
def prepared (run : Run) (s : Settings) : Except Fault Context × World :=
  (prepare s run.tools).perform run.surroundings run.world

/-- The visits of stages. -/
def visits (run : Run) (s : Settings) : List Visit :=
  match (run.prepared s).1 with
  | .ok c => course c run.surroundings stages (run.prepared s).2
  | .error _ => []

/-- The world after the visits. -/
def provided (run : Run) (s : Settings) : World := worldAfter (run.prepared s).2 (run.visits s)

/-- The worlds that a run goes through, as far as they matter here. -/
def moments (run : Run) (s : Settings) : List World :=
  run.world :: (run.prepared s).2 :: ((run.visits s).flatMap fun v => [v.world, v.outcome.2])
    ++ [(run.outcome s).2]

/-- A run in terms of its parts. -/
theorem outcome_eq (run : Run) (s : Settings) :
    run.outcome s = match run.prepared s with
      | (.error e, w) => (.error e, w)
      | (.ok c, w) => match (provideAll c stages).perform run.surroundings w with
        | (.ok paths, w') => (finish s c paths).perform run.surroundings w'
        | (.error e, w') => (.error e, w') := by
  unfold outcome prepared
  rw [build_eq, perform_bind]
  rcases (prepare s run.tools).perform run.surroundings run.world with ⟨e | c, w⟩
  · rfl
  · dsimp only
    rw [perform_bind]
    rcases (provideAll c stages).perform run.surroundings w with ⟨_ | _, _⟩ <;> rfl

/-- Where there is a visit, its context was found out. -/
theorem prepared_of_mem {v : Visit} (hv : v ∈ run.visits s) :
    ∃ w, run.prepared s = (.ok v.context, w)
      ∧ run.visits s = Pipeline.course v.context run.surroundings stages w := by
  unfold visits at hv ⊢
  rcases hprepared : run.prepared s with ⟨_ | c, w⟩
  · rw [hprepared] at hv
    cases hv
  · rw [hprepared] at hv
    obtain ⟨-, hcontext, -⟩ := of_mem_course hv
    exact ⟨w, by rw [hcontext], by rw [hcontext]⟩

/-- A run ends where one of its visits fails. -/
theorem outcome_of_failed {v : Visit} {e : Fault} (hv : v ∈ run.visits s)
    (he : v.outcome.1 = .error e) : run.outcome s = (.error e, run.provided s) := by
  rw [outcome_eq]
  unfold provided
  unfold visits at hv ⊢
  rcases hprepared : run.prepared s with ⟨_ | c, w⟩
  · rw [hprepared] at hv
    cases hv
  · rw [hprepared] at hv
    dsimp only at hv ⊢
    obtain ⟨hnever, hfailed⟩ := (ends_of_failed hv he).perform
    rw [← perform_provideAll]
    rcases hrun : (provideAll c stages).perform run.surroundings w with ⟨_ | paths, _⟩
    · obtain rfl := hfailed _ (congrArg Prod.fst hrun)
      rfl
    · exact (hnever paths (congrArg Prod.fst hrun)).elim

/-- A run looks at the disk before its stages and finds out about their context. -/
theorem keeps_prepare {t : Surroundings} {tools : Tools} {I : Disk → Prop} :
    Keeps I t (prepare s tools) (fun c => ∃ root access,
      s.repositoryRoot t.environment = .ok root ∧ context s tools root access = .ok c)
      fun e _ => e.IsPlain := by
  have hroot : Keeps I t (repositoryRoot s) (fun root =>
      s.repositoryRoot t.environment = .ok root) fun e _ => e.IsPlain :=
    .bind (.read (Q := fun t' => t' = t) rfl) fun t' ht' =>
      .orFail (fun root h => ht' ▸ h) fun _ _ _ _ h => nomatch h
  have haccess : Keeps I t (accessMap s) (fun _ => True) fun e _ => e.IsPlain := by
    unfold accessMap
    split
    · exact .pure trivial
    · exact .bind keeps_readIfThere fun _ _ =>
        .map (.orFail (fun _ _ => trivial) fun _ _ _ _ h => nomatch h)
  refine .bind (P := fun _ => True) (.orFail (fun _ _ => trivial) fun _ _ _ _ h => nomatch h)
    fun _ _ => ?_
  refine .bind hroot fun root hroot => .bind haccess fun access _ => ?_
  exact .orFail (fun c hc => ⟨root, access, hroot, hc⟩) fun _ _ _ _ h => nomatch h

theorem prepared_disk (run : Run) (s : Settings) : (run.prepared s).2.disk = run.world.disk :=
  (keeps_prepare (I := fun d => d = run.world.disk)).disk rfl

/-- Without a map of visibilities, the settings say all that is found out before the stages. -/
theorem prepared_eq_ok (hvalid : s.validate = .ok ())
    (hroot : s.repositoryRoot run.surroundings.environment = .ok root)
    (haccess : s.accessMap = none) (hcontext : context s run.tools root none = .ok c) :
    run.prepared s = (.ok c, run.world) := by
  unfold prepared prepare repositoryRoot accessMap
  rw [haccess, hvalid]
  simp only [perform_bind, perform_orFail, perform_pure, perform_read, hroot, hcontext,
    mapError_ok]

theorem belongsTo (hroot : s.repositoryRoot run.surroundings.environment = .ok root)
    (h : (run.prepared s).1 = .ok c) :
    c.BelongsTo s root ∧ c.decompiler = run.tools.decompiler := by
  obtain ⟨root', access, hroot', hcontext⟩ := (keeps_prepare (I := fun _ => True)).result trivial h
  obtain rfl : root = root' := Except.ok.inj (hroot.symm.trans hroot')
  refine ⟨⟨run.tools, access, hcontext⟩, ?_⟩
  obtain ⟨-, -, -, -, rfl⟩ := context_eq_ok hcontext
  rfl

/-- What is known about a visit of a run, where `c` is a context of the same settings and
repository. -/
structure Visits (run : Run) (c : Context) (v : Visit) : Prop where
  stage : v.stage ∈ stages
  surroundings : v.surroundings = run.surroundings
  repository : v.context.repository = c.repository
  coordinate : ∀ stage ∈ stages, stage.coordinate v.context = stage.coordinate c
  decompiler : v.context.decompiler = run.tools.decompiler

/-- The visits are those of the stages, and know about the same products. -/
theorem visits_of_mem {v : Visit} (hc : c.BelongsTo s root)
    (hroot : s.repositoryRoot run.surroundings.environment = .ok root) (hv : v ∈ run.visits s) :
    run.Visits c v := by
  unfold visits at hv
  split at hv
  · rename_i c' hprepared
    obtain ⟨hstage, rfl, hsurroundings⟩ := of_mem_course hv
    obtain ⟨hbelongs, hdecompiler⟩ := belongsTo hroot hprepared
    obtain ⟨hrepository, hcoordinate⟩ := hc.same hbelongs
    exact ⟨hstage, hsurroundings, hrepository, hcoordinate, hdecompiler⟩
  · cases hv

end Run

/-! ## Orderly runs -/

/-- Whether the coordinates of all products are read as they are written. -/
def Context.Readable (c : Context) : Prop :=
  ∀ stage ∈ stages, Coordinate.parse (stage.coordinate c).text = .ok (stage.coordinate c)

/-- What is asked of a run with some settings: it has an ordinary process around it and the
repository of the context `c`; temporary files stand aside from the ways to the products, and the
decompiler spares these; and what is computed is not too long to be recorded. -/
structure Run.Orderly (s : Settings) (c : Context) (directory : Place) (run : Run) : Prop where
  regular : Regular directory run.surroundings
  names : ∀ n, '/' ∉ (run.surroundings.freshName n).toList
  root : s.repositoryRoot run.surroundings.environment = .ok c.repository.root
  aside : Aside (productWays c directory) run.surroundings
  decompiler : ∀ input output, Moves (.sparing (productWays c directory)) run.surroundings
    (run.tools.decompiler input output) fun _ => True
  size : ∀ v ∈ run.visits s, ∀ path, v.Computes path → ∀ content,
    (v.computed path).2.disk.content? (Disk.place directory path) = some content →
      content.length < UInt64.size

/-- The visits of an orderly run are in order, and disturb nothing. -/
theorem Run.Orderly.proper {s : Settings} {c : Context} {directory : Place} {run : Run} {v : Visit}
    (h : run.Orderly s c directory) (hreadable : c.Readable)
    (hc : c.BelongsTo s c.repository.root) (hv : v ∈ run.visits s) :
    v.Proper directory ∧ v.Quiet directory := by
  have hvisit := visits_of_mem hc h.root hv
  have hproper : v.Proper directory := by
    refine ⟨hvisit.stage, fun stage hstage => ?_, hvisit.surroundings ▸ h.regular,
      hvisit.surroundings ▸ h.names, h.size v hv⟩
    rw [hvisit.coordinate stage hstage]
    exact (Coordinate.parse_eq_ok_iff.1 (hreadable stage hstage)).2
  refine ⟨hproper, v.quiet hproper ?_ fun input output => ?_⟩
  · rw [productWays_congr hvisit.repository hvisit.coordinate, hvisit.surroundings]
    exact h.aside
  · rw [productWays_congr hvisit.repository hvisit.coordinate, hvisit.surroundings,
      hvisit.decompiler]
    exact h.decompiler input output

end Jarwright.Pipeline
