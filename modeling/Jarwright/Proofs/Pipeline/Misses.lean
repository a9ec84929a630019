import Jarwright.Proofs.Pipeline.Runs

/-!
# Missed products

Stages fetch what earlier stages of the same run have provided. A run in which nobody else writes
misses such a product only if it is a snapshot whose time is over, for each fetch looks at the clock
anew.

* `Run.Alone`: nobody else writes where the products are;
* `keeps_fetch`, `Visit.misses`: fetching misses what is there only when its time is over;
* `ends_provideAll`, `ends_finish`: so do the stages and what comes after them;
* `misses_only_expired`: so does a run as a whole;
* `misses_between_visits`: the time can be over between two visits.
-/

namespace Jarwright.Pipeline

open Machine Machine.Disk Machine.Action Store Settings

/-- Whether a fault, if it is that an artifact is missing, means that the artifact is a snapshot and
its time was over at one of the first readings of the clock. -/
def MissesExpired (r : Repository) (k : Coordinate) (m : Metadata) (t : Surroundings) (e : Fault)
    (readings : Nat) : Prop :=
  e.innermost = .store (.notFound k) →
    k.isSnapshot = true ∧ ∃ n < readings, r.lifetime ≤ m.age (t.clock n)

variable {r : Repository} {k : Coordinate} {c : Context} {directory : Place} {t : Surroundings}
  {content : Bytes} {m : Metadata} {e : Fault}

theorem Fault.IsPlain.missesExpired (h : e.IsPlain) (n : Nat) : MissesExpired r k m t e n :=
  fun hmissing => absurd hmissing (h k)

theorem missesExpired_stage {name : String} {n : Nat} :
    MissesExpired r k m t (.stage name e) n ↔ MissesExpired r k m t e n := .rfl

/-- An artifact that is there is kept by fetching any, and missed only when its time is over. -/
theorem keeps_fetch (ht : t.directory = directory) (k' : Coordinate) :
    Keeps (fun d => Present c.repository k directory d content m) t (c.fetch k') (fun _ => True)
      (MissesExpired c.repository k m t) := by
  have hsame (w : World) : ((c.repository.fetch k').perform t w).2.disk = w.disk := by
    obtain ⟨n, -, hworld⟩ := Repository.fetch_world (r := c.repository) (c := k') (s := t) (w := w)
    rw [hworld]
  refine .mapFault ⟨fun w hw => .of_perform (fun path w' h => ?_) fun e w' h => ?_⟩
  · have hdisk := hsame w
    rw [h] at hdisk
    rw [hdisk]
    exact ⟨hw, trivial⟩
  · have hdisk := hsame w
    rw [h] at hdisk
    rw [hdisk]
    refine ⟨hw, fun hmissing => ?_⟩
    obtain rfl : e = .notFound k := Fault.store.inj hmissing
    obtain rfl := Repository.fetch_eq_notFound (congrArg Prod.fst h)
    have hexpired := Present.expired (ht ▸ hw) (congrArg Prod.fst h)
    rwa [h] at hexpired

/-! ## Visits -/

namespace Visit

variable {v : Visit} {stage : Stage}

/-- A visit misses the product of a stage that is there only when its time is over. -/
theorem misses (hv : v.Proper directory)
    (haside : Aside (productWays v.context directory) v.surroundings)
    (hdecompiler : ∀ content m input output,
      Keeps (fun d => Present v.context.repository (stage.coordinate v.context) directory d
        content m) v.surroundings (v.context.decompiler input output) (fun _ => True)
        (MissesExpired v.context.repository (stage.coordinate v.context) m v.surroundings))
    (hstage : stage ∈ stages)
    (h : Present v.context.repository (stage.coordinate v.context) directory v.world.disk content m)
    (he : v.outcome.1 = .error e) :
    MissesExpired v.context.repository (stage.coordinate v.context) m v.surroundings e
      v.outcome.2.readings := by
  have hlooked := h
  rw [← v.looked_disk] at hlooked
  have hI : ∀ d d', (Change.sparing (productWays v.context directory)).allows d d' →
      Present v.context.repository (stage.coordinate v.context) directory d content m →
      Present v.context.repository (stage.coordinate v.context) directory d' content m :=
    fun d d' hspared hpresent => hpresent.congr (undisturbed_of_spared hspared stage hstage)
  have hE (e : Fault) (hplain : e.IsPlain) (n : Nat) : MissesExpired v.context.repository
      (stage.coordinate v.context) m v.surroundings e n := hplain.missesExpired n
  have hopening := keeps_createFresh hI hE haside
  have hfetch (k' : Coordinate) : Keeps (fun d =>
      Present v.context.repository (stage.coordinate v.context) directory d content m) v.surroundings
      (v.context.fetch k') (fun _ => True) (MissesExpired v.context.repository
        (stage.coordinate v.context) m v.surroundings) := keeps_fetch hv.regular.directory k'
  cases v.failure he with
  | unknown hfault =>
    rw [looked] at hfault
    intro hmissing
    exact absurd (Fault.store.inj hmissing)
      (Repository.ne_notFound_of_contains hfault (stage.coordinate v.context))
  | @unfetched cause hfault hworld =>
    rw [missesExpired_stage, hworld]
    rw [fetched] at hfault ⊢
    have hmissed := (hfetch v.coordinate).error hlooked (e := .store cause) (by
      rw [Context.fetch, perform_mapFault, hfault]
      rfl)
    rw [Context.fetch, perform_mapFault] at hmissed
    dsimp only at hmissed
    exact hmissed
  | unopened hfault hworld =>
    rw [missesExpired_stage, hworld]
    rw [opened] at hfault ⊢
    exact hopening.error hlooked hfault
  | @uncomputed path _ hcomputes hfault hreadings =>
    rw [missesExpired_stage, hreadings]
    have hthere : Present v.context.repository (stage.coordinate v.context) directory
        v.opened.2.disk content m := by
      rw [opened]
      exact hopening.disk hlooked
    have hcompute := keeps_compute hI hE haside (isFresh_of_computes hcomputes) hfetch hv.stage
      (hdecompiler _ _)
    rw [computed] at hfault ⊢
    exact hcompute.error hthere hfault
  | unstored hfault =>
    rw [stored] at hfault
    obtain ⟨file, rfl⟩ := file_of_store hfault
    intro hmissing
    cases hmissing

end Visit

/-! ## Stages one after the other -/

section Course

variable {stage : Stage} {sequence : List Stage} {w : World}

/-- What is known about a visit while the product of a stage is there. -/
structure Visit.Careful (directory : Place) (stage : Stage) (v : Visit) : Prop where
  proper : v.Proper directory
  quiet : v.Quiet directory
  misses : ∀ content m e,
    Present v.context.repository (stage.coordinate v.context) directory v.world.disk content m →
      v.outcome.1 = .error e →
      MissesExpired v.context.repository (stage.coordinate v.context) m v.surroundings e
        v.outcome.2.readings

/-- A product that is there when stages begin that do not provide it is there when they end, and
missed by them only when its time is over. -/
theorem ends_others (hstage : stage ∈ stages) (hnot : stage ∉ sequence)
    (hvisits : ∀ v ∈ course c t sequence w, v.Careful directory stage)
    (h : Present c.repository (stage.coordinate c) directory w.disk content m) :
    Ends (provideAll c sequence) t w
      (fun _ w' => Present c.repository (stage.coordinate c) directory w'.disk content m)
      fun e w' => MissesExpired c.repository (stage.coordinate c) m t e w'.readings := by
  induction sequence generalizing w with
  | nil => exact .pure h
  | cons next rest ih =>
    rw [List.mem_cons, not_or] at hnot
    refine ends_provideAll_cons (fun path hok => ?_) fun e he => ?_
    · rw [course_of_ok hok, List.forall_mem_cons] at hvisits
      obtain ⟨hfirst, hrest⟩ := hvisits
      exact ih hnot.2 hrest (Visit.keeps_other hfirst.proper hfirst.quiet hstage hnot.1 h)
    · rw [course_of_error he] at hvisits
      exact (hvisits _ (List.mem_singleton_self _)).misses content m e h he

/-- A product that a visit provides is there when all stages end, and missed by them only when its
time is over. -/
theorem ends_provideAll {v : Visit} {path : String} (hv : v ∈ course c t sequence w)
    (hnodup : sequence.Nodup) (hstages : ∀ stage ∈ sequence, stage ∈ stages)
    (hvisits : ∀ v' ∈ course c t sequence w, v'.Careful directory v.stage)
    (hok : v.outcome.1 = .ok path)
    (h : Present c.repository (v.stage.coordinate c) directory v.outcome.2.disk content m) :
    Ends (provideAll c sequence) t w
      (fun _ w' => Present c.repository (v.stage.coordinate c) directory w'.disk content m)
      fun e w' => MissesExpired c.repository (v.stage.coordinate c) m t e w'.readings := by
  induction sequence generalizing w with
  | nil => cases hv
  | cons next rest ih =>
    obtain ⟨hnext, hrest⟩ := List.nodup_cons.1 hnodup
    obtain ⟨hstage, hstages⟩ := List.forall_mem_cons.1 hstages
    refine ends_provideAll_cons (fun path' hok' => ?_) fun e he => ?_
    · rw [course_of_ok hok'] at hv hvisits
      obtain ⟨-, hvisits⟩ := List.forall_mem_cons.1 hvisits
      rcases List.mem_cons.1 hv with rfl | hv
      · exact ends_others hstage hnext hvisits h
      · exact ih hv hrest hstages hvisits
    · rw [course_of_error he] at hv
      obtain rfl := List.mem_singleton.1 hv
      rw [he] at hok
      cases hok

end Course

/-! ## What comes after the stages -/

section Finish

variable {s : Settings} {w : World}

/-- What is worded anew as a plain fault is plain. -/
theorem ends_plainly {ε α : Type} {x : Action ε α} {f : ε → Fault} (hf : ∀ e, (f e).IsPlain) :
    Ends (x.mapFault f) t w (fun _ _ => True) fun e _ => e.IsPlain :=
  .mapFault (.of_perform (fun _ _ _ => trivial) fun e _ _ => hf e)

/-- What unpacks the sources misses them only when their time is over. -/
theorem ends_unpackSources {α : Type} {unpack : String → Action Fault α}
    (ht : t.directory = directory) (h : Present c.repository k directory w.disk content m)
    (hunpack : ∀ path w, Ends (unpack path) t w (fun _ _ => True) fun e _ => e.IsPlain) :
    Ends (do unpack (← c.fetch c.source)) t w (fun _ _ => True)
      fun e w' => MissesExpired c.repository k m t e w'.readings :=
  .bind (((keeps_fetch ht c.source).ends w h).mono (fun sources w' _ => (hunpack sources w').mono
    (fun _ _ => id) fun _ _ he => he.missesExpired _) fun _ _ he => he.2)

/-- Taking away what was made of a baseline needs no time. -/
theorem ends_discardBaseline {ε : Type} {workflow : Patch.Workflow} {made : Bool} :
    Ends (workflow.discardBaseline made : Action ε Unit) t w
      (fun _ w' => w'.readings = w.readings) fun _ _ => False := by
  have hremove {target : String} :
      Ends (do let _ ← attempt (removeTree target) : Action ε Unit) t w
        (fun _ w' => w'.readings = w.readings) fun _ _ => False :=
    .bind (.attempt (.step (fun _ _ => .pure rfl) fun _ _ => .pure rfl))
  unfold Patch.Workflow.discardBaseline
  refine .bind (.holds ?_)
  cases w.disk.holds t.directory _ with
  | true => exact hremove
  | false => exact .pure rfl

variable (hI : ∀ d d', (Change.sparing (productWays c directory)).allows d d' →
    Present c.repository k directory d content m → Present c.repository k directory d' content m)
  (hprograms : ∀ calls command limits d,
    (Change.sparing (productWays c directory)).allows d (t.run calls command limits d).2)

include hI hprograms

/-- Git keeps the product, and does not say that it is missing. -/
theorem keeps_git {git : Patch.Git} {arguments : List String} :
    Keeps (fun d => Present c.repository k directory d content m) t
      (do let _ ← mapFault Fault.patch (git.run arguments)) (fun _ => True)
      (MissesExpired c.repository k m t) := by
  have hrun : Moves (.sparing (productWays c directory)) t (git.run arguments) fun _ => True :=
    .bind (.mapFault (.runOrFail fun calls => hprograms calls _ _)) fun _ _ => .pure trivial
  exact .bind (keeps_worded hI (fun _ hplain => hplain.missesExpired) hrun fun _ _ h => nomatch h)
    fun _ _ => .pure trivial

theorem keeps_workflow : Keeps (fun d => Present c.repository k directory d content m) t
    (atStage "check-git" (workflow s)) (fun _ => True) (MissesExpired c.repository k m t) := by
  have hversion : Moves (.sparing (productWays c directory)) t Patch.Git.version fun _ => True :=
    .bind (.mapFault (.runOrFail fun calls => hprograms calls _ _)) fun _ _ => .pure trivial
  have hE (e : Fault) (hplain : e.IsPlain) (n : Nat) : MissesExpired c.repository k m t e n :=
    hplain.missesExpired n
  refine .mapFault (.mono ?_ (fun _ => id) fun e _ he => he)
  refine .bind (keeps_worded hI hE hversion fun _ _ h => nomatch h) fun _ _ => ?_
  refine .bind (.orFail (fun _ _ => trivial) fun _ _ => hE _ fun _ h => nomatch h) fun _ _ => ?_
  refine .bind (.orFail (fun _ _ => trivial) fun _ _ => hE _ fun _ h => nomatch h) fun _ _ => ?_
  exact .pure trivial

/-- Making the baseline misses the sources only when their time is over. -/
theorem ends_makeBaseline (ht : t.directory = directory) {workflow : Patch.Workflow}
    (h : Present c.repository k directory w.disk content m) :
    Ends (makeBaseline c workflow) t w (fun _ _ => True)
      fun e w' => MissesExpired c.repository k m t e w'.readings := by
  have hmade : Keeps (fun d => Present c.repository k directory d content m) t
      (mapFault (fun _ => Fault.patch (.file workflow.sourceDirectory))
        (makeDirectories workflow.sourceDirectory)) (fun _ => True)
      (MissesExpired c.repository k m t) :=
    .mapFault (.of_moves growing_makeDirectories (fun _ _ hgrown hpresent => hpresent.grow hgrown)
      fun _ => Fault.IsPlain.missesExpired fun _ h => nomatch h)
  have hgit {w : World} (arguments : List String) : Ends
      (do let _ ← mapFault Fault.patch (workflow.git.run arguments)) t w (fun _ _ => True)
      fun e w' => MissesExpired c.repository k m t e w'.readings :=
    .bind ((ends_plainly (f := Fault.patch) fun _ _ h => nomatch h).mono
      (fun _ _ _ => .pure trivial) fun _ _ he => he.missesExpired _)
  refine .mapFault (.mono (Q := fun _ _ => True) ?_ (fun _ _ => id) fun _ _ he => he)
  refine .bind (.holds ?_)
  split
  · exact .pure trivial
  refine .bind (.holds (.bind ((hmade.ends w h).mono ?_ fun _ _ he => he.2)))
  rintro - w₁ ⟨h₁, -⟩
  refine .bind (.attempt (Ends.mono (Q := fun _ _ => True)
    (E := fun e w' => MissesExpired c.repository k m t e w'.readings) ?_
    (fun _ _ _ => .pure trivial) fun e w' he => ?_))
  · refine .bind ((((keeps_git hI hprograms).ends w₁ h₁).mono ?_ fun _ _ he => he.2))
    rintro - w₂ ⟨h₂, -⟩
    refine .bind ((ends_unpackSources ht h₂ fun _ _ => .bind ((ends_plainly (f := Fault.archive)
      fun _ _ h => nomatch h).mono (fun _ _ _ => .pure trivial) fun _ _ he => he)).mono ?_
      fun _ _ he => he)
    rintro - w₃ -
    exact .bind ((hgit ["add", "-A"]).mono (fun _ _ _ => .bind ((hgit ["commit", "-q", "-m",
      Patch.baselineTitle]).mono (fun _ _ _ => hgit ["branch", Patch.baselineBranch])
      fun _ _ he => he)) fun _ _ he => he)
  · -- what is taken away afterwards does not take back readings of the clock
    exact .bind (ends_discardBaseline.mono (fun _ w'' hreadings => .throw (hreadings ▸ he))
      fun _ _ h => h.elim)

/-- What comes after the stages misses a product that is there, also once the resources are placed,
only when its time is over. -/
theorem ends_finish (ht : t.directory = directory) {paths : List String}
    (h : Present c.repository k directory w.disk content m)
    (hplaced : Present c.repository k directory ((placeResources c).perform t w).2.disk content m) :
    Ends (finish s c paths) t w (fun _ _ => True)
      fun e w' => MissesExpired c.repository k m t e w'.readings := by
  have hresources : Ends (placeResources c) t w (fun _ _ => True)
      fun e w' => MissesExpired c.repository k m t e w'.readings :=
    .mapFault (.bind (.orFail (fun _ _ => ends_unpackSources ht h fun _ _ =>
      ends_plainly (f := Fault.archive) fun _ _ h => nomatch h) fun cause _ =>
        Fault.IsPlain.missesExpired (e := .settings cause) (fun _ h => nomatch h) _))
  have hlater {α : Type} {x : Action Patch.Fault α} {name : String} {w : World} :
      Ends (atStage name (mapFault Fault.patch x)) t w (fun _ _ => True)
        fun e w' => MissesExpired c.repository k m t e w'.readings :=
    .mapFault ((ends_plainly (f := Fault.patch) fun _ _ h => nomatch h).mono (fun _ _ => id)
      fun _ _ he => he.missesExpired _)
  refine .bind (.of_perform (fun resources w₁ hrun => ?_) fun e w₁ hrun => ?_)
  · rw [hrun] at hplaced
    refine .bind (((keeps_workflow hI hprograms).ends w₁ hplaced).mono ?_ fun _ _ he => he.2)
    rintro workflow w₂ ⟨h₂, -⟩
    refine .bind ((ends_makeBaseline hI hprograms ht h₂).mono ?_ fun _ _ he => he)
    rintro initialized w₃ -
    exact .bind ((hlater (x := workflow.ensureSafe)).mono (fun _ _ _ =>
      .bind ((hlater (x := workflow.apply)).mono (fun _ _ _ => .pure trivial) fun _ _ he => he))
      fun _ _ he => he)
  · have hmissed := hresources.perform.2 e (congrArg Prod.fst hrun)
    rwa [hrun] at hmissed

end Finish

/-! ## Runs -/

/-- The world after the resources are placed. -/
def Run.placed (run : Run) (s : Settings) : World :=
  match (run.prepared s).1 with
  | .ok c => ((placeResources c).perform run.surroundings (run.provided s)).2
  | .error _ => run.provided s

/-- Whether nobody but the repository writes where the products are: neither the programs nor the
resources come there. The decompiler does not report that products are missing. -/
structure Run.Alone (s : Settings) (c : Context) (directory : Place) (run : Run) : Prop extends
    run.Orderly s c directory where
  plain : ∀ input output w e,
    ((run.tools.decompiler input output).perform run.surroundings w).1 = .error e → e.IsPlain
  placed : Undisturbed c directory (run.provided s).disk (run.placed s).disk
  programs : ∀ calls command limits d,
    (Change.sparing (productWays c directory)).allows d
      (run.surroundings.run calls command limits d).2

namespace Run.Alone

variable {s : Settings} {run : Run} {v : Visit}

/-- The visits of such a run miss the product of a stage only when its time is over. -/
theorem careful (h : run.Alone s c directory) (hreadable : c.Readable)
    (hc : c.BelongsTo s c.repository.root) (hv : v ∈ run.visits s) {stage : Stage}
    (hstage : stage ∈ stages) : v.Careful directory stage := by
  obtain ⟨hproper, hquiet⟩ := h.proper hreadable hc hv
  have hvisit := visits_of_mem hc h.root hv
  have hways : productWays v.context directory = productWays c directory :=
    productWays_congr hvisit.repository hvisit.coordinate
  refine ⟨hproper, hquiet, fun content m e hpresent he => ?_⟩
  refine v.misses hproper ?_ (fun content m input output => ?_) hstage hpresent he
  · rw [hways, hvisit.surroundings]
    exact h.aside
  · rw [hvisit.surroundings, hvisit.decompiler]
    have hspared := h.decompiler input output
    rw [← hways] at hspared
    refine (Keeps.of_moves hspared (fun d d' hallowed hpresent => ?_) fun _ _ => trivial).faults
      (F := fun _ _ => True) fun w e he => (h.plain input output w e he).missesExpired
    exact hpresent.congr (undisturbed_of_spared hallowed stage hstage)

end Run.Alone

/-- A run misses a product that one of its visits has provided only when its time is over. -/
theorem ends_build {s : Settings} {run : Run} {v : Visit} {path : String} {w : World}
    (hprepared : run.prepared s = (.ok c, w)) (hv : v ∈ course c run.surroundings stages w)
    (hcareful : ∀ v' ∈ course c run.surroundings stages w, v'.Careful directory v.stage)
    (ht : run.surroundings.directory = directory)
    (hprograms : ∀ calls command limits d,
      (Change.sparing (productWays c directory)).allows d
        (run.surroundings.run calls command limits d).2)
    (hplaced : SameArtifact c.repository (v.stage.coordinate c) directory (run.provided s).disk
      (run.placed s).disk)
    (hok : v.outcome.1 = .ok path)
    (h : Present c.repository (v.stage.coordinate c) directory v.outcome.2.disk content m) :
    Ends (build s run.tools) run.surroundings run.world (fun _ _ => True) fun e w' =>
      MissesExpired c.repository (v.stage.coordinate c) m run.surroundings e w'.readings := by
  have hnodup : stages.Nodup := List.Nodup.of_map _ (nodup_fileName c)
  have hstage := (of_mem_course hv).1
  unfold Run.placed Run.provided Run.visits at hplaced
  rw [hprepared] at hplaced
  rw [build_eq]
  refine .bind (.of_perform (fun c' w' hrun => ?_) fun e w' hrun => ?_)
  · obtain ⟨hc', rfl⟩ := Prod.mk.inj (hrun.symm.trans hprepared)
    obtain rfl := Except.ok.inj hc'
    have hstages := ends_provideAll hv hnodup (fun _ hstage => hstage) hcareful hok h
    have hworld : Ends (provideAll c' stages) run.surroundings w'
        (fun _ w₂ => w₂ = worldAfter w' (course c' run.surroundings stages w')) fun _ _ => True :=
      .of_perform (fun _ w₂ hrun => by rw [← perform_provideAll, hrun]) fun _ _ _ => trivial
    refine .bind ((hstages.and hworld).mono ?_ fun _ _ he => he.1)
    rintro paths w₂ ⟨hthere, rfl⟩
    refine ends_finish (fun d d' hspared hthere => ?_) hprograms ht hthere (hthere.congr hplaced)
    exact hthere.congr (undisturbed_of_spared hspared _ hstage)
  · cases hrun.symm.trans hprepared

/-- A run in which nobody else writes misses a product that it has provided only if that is a
snapshot, and its time was over at one of the readings of the clock until then. -/
theorem misses_only_expired {s : Settings} {run : Run} {v : Visit} {path : String}
    (hreadable : c.Readable) (hc : c.BelongsTo s c.repository.root)
    (hrun : run.Alone s c directory) (hv : v ∈ run.visits s) (hok : v.outcome.1 = .ok path) :
    ∃ content m,
      Present c.repository (v.stage.coordinate c) directory v.outcome.2.disk content m
      ∧ ∀ e, (run.outcome s).1 = .error e →
        e.innermost = .store (.notFound (v.stage.coordinate c)) →
          (v.stage.coordinate c).isSnapshot = true
            ∧ ∃ n < (run.outcome s).2.readings,
              c.repository.lifetime ≤ m.age (run.surroundings.clock n) := by
  have hvisit := Run.visits_of_mem hc hrun.root hv
  have hcoordinate := hvisit.coordinate _ hvisit.stage
  obtain ⟨hproper, hquiet⟩ := hrun.proper hreadable hc hv
  obtain ⟨-, content, m, hpresent⟩ := v.present_of_ok hproper hquiet hok
  obtain ⟨w, hprepared, hvisits⟩ := Run.prepared_of_mem hv
  have hcareful (v' : Visit) (hv' : v' ∈ run.visits s) :=
    hrun.careful hreadable hc hv' hvisit.stage
  have hplaced := hrun.placed v.stage hvisit.stage
  have hprograms := hrun.programs
  rw [Visit.coordinate] at hpresent
  rw [hvisits] at hv hcareful
  rw [← productWays_congr hvisit.repository hvisit.coordinate] at hprograms
  rw [← hvisit.repository, ← hcoordinate] at hplaced ⊢
  refine ⟨content, m, hpresent, fun e he => ?_⟩
  have ht := hrun.regular.directory
  have hends := ends_build hprepared hv hcareful ht hprograms hplaced hok hpresent
  rw [Run.outcome] at he ⊢
  exact hends.perform.2 e he

/-! ## Runs that find everything -/

/-- Whether the product of a stage is there, and its time is not over at the first readings of the
clock. -/
def Alive (c : Context) (directory : Place) (t : Surroundings) (readings : Nat) (d : Disk)
    (stage : Stage) : Prop :=
  ∃ content m, Present c.repository (stage.coordinate c) directory d content m
    ∧ ((stage.coordinate c).isSnapshot = true →
      ∀ n < readings, m.age (t.clock n) < c.repository.lifetime)

/-- How often the clock is read while the products of stages are found. -/
def readingsOf (c : Context) (sequence : List Stage) : Nat :=
  2 * sequence.countP fun stage => (stage.coordinate c).isSnapshot

/-- Stages whose products are all there find them one after the other, and compute nothing. -/
theorem course_of_alive {sequence : List Stage} {w : World} (ht : t.directory = directory)
    (halive : ∀ stage ∈ sequence,
      Alive c directory t (w.readings + readingsOf c sequence) w.disk stage) :
    (∃ paths, (provideAll c sequence).perform t w
        = (.ok paths, { w with readings := w.readings + readingsOf c sequence }))
      ∧ (course c t sequence w).map Visit.stage = sequence
      ∧ ∀ v ∈ course c t sequence w,
        (∃ path, v.outcome.1 = .ok path) ∧ ∀ path, ¬ v.Computes path := by
  induction sequence generalizing w with
  | nil => exact ⟨⟨[], rfl⟩, rfl, fun v hv => nomatch hv⟩
  | cons stage rest ih =>
    -- finding the product of this stage spends its share of the readings
    have hreadings : readingsOf c (stage :: rest)
        = (if (stage.coordinate c).isSnapshot then 2 else 0) + readingsOf c rest := by
      unfold readingsOf
      rw [List.countP_cons]
      split <;> omega
    obtain ⟨⟨content, m, hpresent, htime⟩, hrest⟩ := List.forall_mem_cons.1 halive
    have hfound := (⟨stage, c, t, w⟩ : Visit).of_alive ht hpresent fun hsnapshot n hn =>
      htime hsnapshot n (by
        have htwo : (stage.coordinate c).isSnapshot = true := hsnapshot
        rw [hreadings, if_pos htwo]
        exact Nat.lt_of_lt_of_le hn (by dsimp only; omega))
    have houtcome : (⟨stage, c, t, w⟩ : Visit).outcome
        = (.ok ((stage.coordinate c).contentPath c.repository.root), { w with
          readings := w.readings + if (stage.coordinate c).isSnapshot then 2 else 0 }) := hfound.1
    have hok := congrArg Prod.fst houtcome
    rw [hreadings, ← Nat.add_assoc] at hrest ⊢
    obtain ⟨⟨paths, hpaths⟩, hstages, hvisits⟩ :=
      ih (w := (⟨stage, c, t, w⟩ : Visit).outcome.2) (by rw [houtcome]; exact hrest)
    rw [course_of_ok hok, List.map_cons, hstages]
    refine ⟨⟨(stage.coordinate c).contentPath c.repository.root :: paths, ?_⟩, rfl,
      List.forall_mem_cons.2 ⟨⟨⟨_, hok⟩, hfound.2⟩, hvisits⟩⟩
    rw [houtcome] at hpaths
    unfold provideAll at hpaths ⊢
    rw [List.mapM_cons, perform_bind, Visit.perform_provide, houtcome]
    dsimp only
    rw [perform_bind, hpaths]
    rfl

/-- A run that finds all products misses the sources when it needs them again and their time is over
by then. -/
theorem misses_of_lapsed {s : Settings} {run : Run} {w : World} {root : String}
    (ht : run.surroundings.directory = directory) (hprepared : run.prepared s = (.ok c, w))
    (halive : ∀ stage ∈ stages,
      Alive c directory run.surroundings (w.readings + readingsOf c stages) w.disk stage)
    (hresources : c.settings.requireResourceDirectory = .ok root)
    (hsnapshot : c.source.isSnapshot = true)
    (hsources : Present c.repository c.source directory w.disk content m)
    (hlapsed : c.repository.lifetime
      ≤ m.age (run.surroundings.clock (w.readings + readingsOf c stages))) :
    (run.outcome s).1 = .error (.stage "extract-resources" (.store (.notFound c.source)))
      ∧ (run.placed s).disk = (run.provided s).disk := by
  obtain ⟨⟨paths, hpaths⟩, -, -⟩ := course_of_alive ht halive
  have hthere : Present c.repository c.source run.surroundings.directory
      ({ w with readings := w.readings + readingsOf c stages } : World).disk content m :=
    ht ▸ hsources
  have hplaced : (placeResources c).perform run.surroundings
        { w with readings := w.readings + readingsOf c stages }
      = (.error (.stage "extract-resources" (.store (.notFound c.source))),
          { w with readings := w.readings + readingsOf c stages + 1 }) := by
    unfold placeResources atStage Context.fetch
    rw [hresources, perform_mapFault, perform_bind, perform_orFail]
    dsimp only [mapError_ok]
    rw [perform_bind, perform_mapFault, hthere.fetch, if_pos hsnapshot,
      if_neg (Nat.not_lt.2 hlapsed)]
    rfl
  constructor
  · rw [Run.outcome_eq, hprepared]
    dsimp only
    rw [hpaths]
    dsimp only
    unfold finish
    rw [perform_bind, hplaced]
  · unfold Run.placed Run.provided Run.visits
    rw [hprepared]
    dsimp only
    rw [← perform_provideAll, hpaths]
    dsimp only
    rw [hplaced]

/-! ## A run at the end of a day -/

def liveSettings : Settings where
  distribution := "server"
  gameVersion := "1"
  mappingVersion := "live"
  group := "g"
  repository := some "/r"
  sourceDirectory := some "/s"
  patchDirectory := some "/p"
  resourceDirectory := some "/e"

def liveContext : Context where
  settings := liveSettings
  distribution := .server
  mappingVersion := .live
  repository := { root := "/r" }
  decompiler := idleTools.decompiler
  formatter := idleTools.formatter
  accessMap := none

/-- Surroundings in which a day passes when the clock was read six times. -/
def overnight : Surroundings where
  directory := []
  temporaries := "/t"
  environment := fun _ => none
  clock := fun n => if n < 6 then 0 else 24 * 60 * 60 * 1000
  run := fun _ _ _ d => (none, d)
  serve := fun _ _ => .unreachable
  mark := "7"
  freshName := fun _ => "fresh"

/-- What the sidecar of an artifact of one byte says. -/
def liveRecord (k : Coordinate) : Metadata where
  coordinate := k
  description := none
  sha256 := "cd0aa9856147b6c5b4ff2b7dfee5da20aa38253099ef1b4a64aced233c9afe29"
  size := 1
  created := 0

/-- Where the products of live mappings are. -/
def liveShelves : List (Coordinate × Place × String) :=
  [(liveContext.vanilla, ["r", "g", "server", "1"], "server-1-vanilla.jar"),
    (liveContext.srg, ["r", "g", "mappings-srg", "1"], "mappings-srg-1.zip"),
    (liveContext.mcp, ["r", "g", "mappings-mcp", "0.0.0-SNAPSHOT"],
      "mappings-mcp-0.0.0-SNAPSHOT.zip"),
    (liveContext.mapped, ["r", "g", "server", "1-0.0.0-SNAPSHOT"],
      "server-1-0.0.0-SNAPSHOT-mapped.jar"),
    (liveContext.source, ["r", "g", "server", "1-0.0.0-SNAPSHOT"],
      "server-1-0.0.0-SNAPSHOT-source.jar")]

/-- All products are in the repository. -/
def liveDisk : Disk :=
  ⟨[(["r"], .directory), (["r", "g"], .directory), (["r", "g", "server"], .directory),
      (["r", "g", "server", "1"], .directory),
      (["r", "g", "server", "1-0.0.0-SNAPSHOT"], .directory),
      (["r", "g", "mappings-srg"], .directory), (["r", "g", "mappings-srg", "1"], .directory),
      (["r", "g", "mappings-mcp"], .directory),
      (["r", "g", "mappings-mcp", "0.0.0-SNAPSHOT"], .directory)]
    ++ liveShelves.flatMap fun (k, folder, name) =>
      [(folder ++ [name], .file [103] 0),
        (folder ++ [name ++ ".meta.json"], .file (liveRecord k).encode 0)]⟩

def liveRun : Run := ⟨idleTools, overnight, .ofDisk liveDisk⟩

theorem readable_liveContext : liveContext.Readable := by
  have hparse : ∀ k ∈ stages.map fun stage => stage.coordinate liveContext,
      Coordinate.parse k.text = .ok k := by
    decide +kernel
  exact List.forall_mem_map.1 hparse

theorem present_liveDisk {stage : Stage} (hstage : stage ∈ stages) :
    Present liveContext.repository (stage.coordinate liveContext) [] liveDisk [103]
      (liveRecord (stage.coordinate liveContext)) := by
  have hnodup : (liveDisk.nodes.map Prod.fst).Nodup := by decide +kernel
  have hshelves : ∀ shelf ∈ liveShelves,
      liveDisk.locate [] (shelf.1.contentPath "/r") = .ok (shelf.2.1 ++ [shelf.2.2])
        ∧ liveDisk.locate [] (shelf.1.sidecarPath "/r")
          = .ok (shelf.2.1 ++ [shelf.2.2 ++ ".meta.json"]) := by
    decide +kernel
  have hsha : (Fingerprint.ofBytes [103]).hex
      = "cd0aa9856147b6c5b4ff2b7dfee5da20aa38253099ef1b4a64aced233c9afe29" := by
    decide +kernel
  have hread {path : String} {folder : Place} {name : String} {content : Bytes}
      (hlocate : liveDisk.locate [] path = .ok (folder ++ [name]))
      (hmem : (folder ++ [name], .file content 0) ∈ liveDisk.nodes) :
      liveDisk.read [] path = .ok content := by
    have hplace := locate_eq hlocate
    rw [hplace] at hlocate hmem
    refine read_eq_ok_iff.2 ⟨hlocate, content?_eq_some_iff.2 ⟨0, get?_of_mem hnodup ?_ hmem⟩⟩
    rw [← hplace]
    exact List.append_ne_nil_of_right_ne_nil _ (List.cons_ne_nil _ _)
  have hcoordinates : stages.map (fun stage => stage.coordinate liveContext)
      = liveShelves.map Prod.fst := rfl
  have hmapped : stage.coordinate liveContext ∈ liveShelves.map Prod.fst := by
    rw [← hcoordinates]
    exact List.mem_map.2 ⟨stage, hstage, rfl⟩
  obtain ⟨⟨k, folder, name⟩, hshelf, hk⟩ := List.mem_map.1 hmapped
  obtain ⟨hcontent, hsidecar⟩ := hshelves _ hshelf
  have hparse : Coordinate.parse k.text = .ok k := by
    have hreadable := readable_liveContext stage hstage
    rwa [← hk] at hreadable
  have hmem (e : Place × Node) (he : e ∈ [(folder ++ [name], .file [103] 0),
      (folder ++ [name ++ ".meta.json"], .file (liveRecord k).encode 0)]) : e ∈ liveDisk.nodes :=
    List.mem_append_right _ (List.mem_flatMap.2 ⟨_, hshelf, he⟩)
  rw [← hk]
  refine ⟨hread hcontent (hmem _ List.mem_cons_self), ⟨_, hread hsidecar
    (hmem _ (List.mem_cons_of_mem _ (List.mem_singleton_self _))), ?_⟩, hsha.symm⟩
  exact Metadata.parse?_encode hparse (by decide : 1 < UInt64.size) (by decide : 0 < UInt64.size)

/-- The run finds all products, misses the sources afterwards, and changes nothing. -/
theorem lapsed_liveRun :
    liveRun.prepared liveSettings = (.ok liveContext, liveRun.world)
      ∧ (∀ stage ∈ stages, ∃ v ∈ liveRun.visits liveSettings, v.stage = stage)
      ∧ (∀ v ∈ liveRun.visits liveSettings,
        (∃ path, v.outcome.1 = .ok path) ∧ ∀ path, ¬ v.Computes path)
      ∧ (liveRun.outcome liveSettings).1
        = .error (.stage "extract-resources" (.store (.notFound liveContext.source)))
      ∧ (liveRun.placed liveSettings).disk = (liveRun.provided liveSettings).disk := by
  have hprepared : liveRun.prepared liveSettings = (.ok liveContext, liveRun.world) := by
    have hvalid : liveSettings.validate = .ok () := by decide +kernel
    have hroot : liveSettings.repositoryRoot overnight.environment = .ok "/r" := by decide +kernel
    refine Run.prepared_eq_ok hvalid hroot rfl ?_
    have hdistribution : liveSettings.requireDistribution = .ok .server := by decide +kernel
    have hversion : readMappingVersion liveSettings.mappingVersion = .ok .live := by decide +kernel
    unfold context
    rw [hdistribution, hversion]
    rfl
  have hreadings : readingsOf liveContext stages = 6 := by decide +kernel
  have halive : ∀ stage ∈ stages, Alive liveContext [] overnight
      (liveRun.world.readings + readingsOf liveContext stages) liveDisk stage := by
    refine fun stage hstage => ⟨_, _, present_liveDisk hstage, fun _ n hn => ?_⟩
    rw [hreadings] at hn
    have hlt : n < 6 := hn
    change (if n < 6 then 0 else 24 * 60 * 60 * 1000) - 0 < 24 * 60 * 60 * 1000
    rw [if_pos hlt]
    decide
  obtain ⟨-, hstages, hvisits⟩ :=
    course_of_alive (t := overnight) (w := liveRun.world) rfl halive
  have hcourse : liveRun.visits liveSettings
      = course liveContext overnight stages liveRun.world := by
    unfold Run.visits
    rw [hprepared]
    rfl
  have hresources : liveSettings.requireResourceDirectory = .ok "/e" := by decide +kernel
  have hsnapshot : liveContext.source.isSnapshot = true := by decide +kernel
  have hsources := present_liveDisk (by simp [stages] : decompile ∈ stages)
  obtain ⟨houtcome, hplaced⟩ := misses_of_lapsed rfl hprepared halive hresources hsnapshot hsources
    (by rw [hreadings]; decide)
  rw [hcourse]
  refine ⟨hprepared, fun stage hstage => ?_, hvisits, houtcome, hplaced⟩
  rw [← hstages] at hstage
  exact List.mem_map.1 hstage

theorem aside_overnight : Aside (productWays liveContext overnight.directory) overnight := by
  have hdown : ∀ k ∈ stages.map fun stage => stage.coordinate liveContext,
      (∀ name ∈ Coordinate.groupNames k.group, Path.isAbsolute name = false)
        ∧ k.artifact ≠ ".." ∧ k.version ≠ ".." := by
    decide +kernel
  have houtside : (∀ q ∈ way [] "/r", ¬ place [] (Path.join "/t" ("anvil-" ++ "fresh")) <+: q)
      ∧ ¬ place [] "/r" <+: place [] (Path.join "/t" ("anvil-" ++ "fresh")) := by
    decide +kernel
  refine aside_of_outside (fun stage hstage => ?_) ?_
  · have hmem := List.mem_map_of_mem (f := fun stage => stage.coordinate liveContext) hstage
    exact ⟨(Coordinate.parse_eq_ok_iff.1 (readable_liveContext stage hstage)).2, hdown _ hmem⟩
  · rintro path ⟨n, rfl⟩
    exact houtside

theorem alone_liveRun : liveRun.Alone liveSettings liveContext [] := by
  obtain ⟨-, -, hvisits, -, hplaced⟩ := lapsed_liveRun
  refine ⟨⟨⟨rfl, by decide, fun n => ?_⟩, fun _ => ?_, by decide, ?_, fun _ _ => .throw,
    fun v hv path hpath => absurd hpath ((hvisits v hv).2 path)⟩, fun _ _ _ _ h => ?_, ?_,
    fun _ _ _ _ _ _ => rfl⟩
  · change (if n < 6 then 0 else 24 * 60 * 60 * 1000) < UInt64.size
    split <;> decide
  · change '/' ∉ "fresh".toList
    decide
  · exact aside_overnight
  · obtain rfl := Except.error.inj h
    exact fun _ h => nomatch h
  · rw [hplaced]
    exact fun stage _ => ⟨rfl, rfl⟩

/-- The run misses the sources, whose time is over by then. -/
theorem misses_only_expired_liveRun : ∃ m : Metadata,
    (liveRun.outcome liveSettings).1
        = .error (.stage "extract-resources" (.store (.notFound liveContext.source)))
      ∧ liveContext.source.isSnapshot = true
      ∧ ∃ n < (liveRun.outcome liveSettings).2.readings,
        liveContext.repository.lifetime ≤ m.age (overnight.clock n) := by
  obtain ⟨hprepared, hstages, hvisits, houtcome, -⟩ := lapsed_liveRun
  obtain ⟨v, hv, hstage⟩ := hstages decompile (by simp [stages])
  obtain ⟨⟨path, hok⟩, -⟩ := hvisits v hv
  have hroot : liveSettings.repositoryRoot overnight.environment = .ok "/r" := by decide +kernel
  have hbelongs := (liveRun.belongsTo hroot (congrArg Prod.fst hprepared)).1
  obtain ⟨content, m, -, hmissed⟩ :=
    misses_only_expired readable_liveContext hbelongs alone_liveRun hv hok
  rw [hstage] at hmissed
  exact ⟨m, houtcome, hmissed _ houtcome rfl⟩

/-- It is not so that what a stage has provided is never missed later in the same run: the time can
be over in between. -/
theorem misses_found_sources :
    ¬ ∀ (s : Settings) (run : Run) (v : Visit) (path : String) (e : Fault),
      (∀ m n, m ≤ n → run.surroundings.clock m ≤ run.surroundings.clock n) →
      (∀ calls command limits d, (run.surroundings.run calls command limits d).2 = d) →
      (∀ input output,
        Moves .still run.surroundings (run.tools.decompiler input output) fun _ => True) →
      v ∈ run.visits s → v.outcome.1 = .ok path → (run.outcome s).1 = .error e →
      e.innermost ≠ .store (.notFound v.coordinate) := by
  intro hnever
  obtain ⟨hprepared, hstages, hvisits, houtcome, -⟩ := lapsed_liveRun
  obtain ⟨v, hv, hstage⟩ := hstages decompile (by simp [stages])
  obtain ⟨⟨path, hok⟩, -⟩ := hvisits v hv
  refine hnever liveSettings liveRun v path _ (fun m n hle => ?_) (fun _ _ _ _ => rfl)
    (fun _ _ => .throw) hv hok houtcome ?_
  · change (if m < 6 then 0 else 24 * 60 * 60 * 1000) ≤ if n < 6 then 0 else 24 * 60 * 60 * 1000
    split <;> split <;> omega
  · obtain ⟨w, hcontext, -⟩ := Run.prepared_of_mem hv
    have hsame := Except.ok.inj (Prod.mk.inj (hcontext.symm.trans hprepared)).1
    rw [Visit.coordinate, hstage, hsame]
    rfl

end Jarwright.Pipeline
