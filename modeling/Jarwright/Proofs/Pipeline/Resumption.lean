import Mathlib.Data.List.Chain
import Jarwright.Proofs.Pipeline.Runs

/-!
# Resuming builds

A build that failed is resumed by building again: what its stages have stored is found and not
computed a second time. This holds for any number of runs with the same settings, whatever the
servers and tools do in each, as long as nothing but the repository changes the files of products.

* `Run.Resumable`: what is asked of each run;
* `Kept`: what was there can still be fetched; every run keeps it (`Run.isChain_moments`);
* `Resumes` and `resumes`: products are computed at most once, and a failure costs none of them.
-/

namespace Jarwright.Pipeline

open Machine Machine.Action Store Settings

/-- Whether the products of a context are read as they are written, and stay for good. -/
structure Context.Durable (c : Context) : Prop where
  readable : c.Readable
  notSnapshot : ∀ stage ∈ stages, (stage.coordinate c).isSnapshot = false

/-- What is asked of a run that is to be resumed: what comes after its stages does not disturb the
products, and what was computed can be stored. -/
structure Run.Resumable (s : Settings) (c : Context) (directory : Place) (run : Run) : Prop extends
    run.Orderly s c directory where
  finishing : Undisturbed c directory (run.provided s).disk (run.outcome s).2.disk
  stores : ∀ v ∈ run.visits s, ∀ path, v.Succeeds path → ∃ result, (v.stored path).1 = .ok result

/-- Whether every product that was there is there with the same content. -/
def Kept (c : Context) (directory : Place) (w w' : World) : Prop :=
  ∀ stage ∈ stages, ∀ content m,
    Present c.repository (stage.coordinate c) directory w.disk content m →
      Present c.repository (stage.coordinate c) directory w'.disk content m

variable {s : Settings} {c : Context} {directory : Place} {run : Run} {runs : List Run}

theorem Kept.of_undisturbed {w w' : World} (h : Undisturbed c directory w.disk w'.disk) :
    Kept c directory w w' := fun stage hstage _ _ hpresent => hpresent.congr (h stage hstage)

theorem Kept.trans {w₁ w₂ w₃ : World} (h : Kept c directory w₁ w₂) (h' : Kept c directory w₂ w₃) :
    Kept c directory w₁ w₃ := fun stage hstage content m hpresent =>
  h' stage hstage content m (h stage hstage content m hpresent)

instance : Trans (Kept c directory) (Kept c directory) (Kept c directory) := ⟨Kept.trans⟩

/-! ## Runs -/

namespace Run.Resumable

/-- A visit keeps the products of all stages. -/
theorem kept_visit {v : Visit} (h : run.Resumable s c directory) (hdurable : c.Durable)
    (hc : c.BelongsTo s c.repository.root) (hv : v ∈ run.visits s) :
    Kept c directory v.world v.outcome.2 := by
  intro stage hstage content m hpresent
  obtain ⟨hproper, hquiet⟩ := h.proper hdurable.readable hc hv
  have hvisit := visits_of_mem hc h.root hv
  rw [← hvisit.repository, ← hvisit.coordinate stage hstage] at hpresent ⊢
  by_cases hsame : stage = v.stage
  · subst hsame
    have hsnapshot : v.coordinate.isSnapshot = false := by
      rw [Visit.coordinate, hvisit.coordinate _ hstage]
      exact hdurable.notSnapshot _ hstage
    rw [(v.of_present hproper hsnapshot hpresent).1]
    exact hpresent
  · exact v.keeps_other hproper hquiet hstage hsame hpresent

/-- From each moment of a run to the next, the products are kept. -/
theorem isChain_moments (h : run.Resumable s c directory) (hdurable : c.Durable)
    (hc : c.BelongsTo s c.repository.root) : (run.moments s).IsChain (Kept c directory) := by
  have hvisits (v : Visit) (hv : v ∈ run.visits s) := h.kept_visit hdurable hc hv
  have hend := Kept.of_undisturbed h.finishing
  have hprepared : Kept c directory run.world (run.prepared s).2 := by
    intro stage _ content m hpresent
    rwa [prepared_disk]
  refine .cons_cons hprepared ?_
  unfold provided at hend
  unfold visits at hvisits hend ⊢
  split at hvisits
  · rename_i c' hc'
    rw [hc'] at hend
    exact isChain_course (fun w stage _ content m => id) hvisits hend
  · rename_i e he
    rw [he] at hend
    exact .cons_cons hend (.singleton _)

end Run.Resumable

/-! ## Sequences of runs -/

section Sequences

variable (hdurable : c.Durable) (hc : c.BelongsTo s c.repository.root)
  (hruns : ∀ run ∈ runs, run.Resumable s c directory)
  (hbetween : runs.IsChain fun run run' =>
    Undisturbed c directory (run.outcome s).2.disk run'.world.disk)

include hdurable hc hruns hbetween

theorem pairwise_moments : (runs.flatMap fun run => run.moments s).Pairwise (Kept c directory) := by
  rw [← List.isChain_iff_pairwise, List.flatMap_def]
  refine (List.isChain_flatten fun hmem => ?_).2 ⟨fun moments hmem => ?_, ?_⟩
  · obtain ⟨run, -, hrun⟩ := List.mem_map.1 hmem
    cases hrun
  · obtain ⟨run, hrun, rfl⟩ := List.mem_map.1 hmem
    exact (hruns run hrun).isChain_moments hdurable hc
  · refine (List.isChain_map _).2 (hbetween.imp fun run run' hundisturbed => ?_)
    intro w hw w' hw'
    have hlast : (run.moments s).getLast? = some (run.outcome s).2 := List.getLast?_concat
    have hfirst : (run'.moments s).head? = some run'.world := rfl
    obtain rfl := Option.some.inj (hlast.symm.trans hw)
    obtain rfl := Option.some.inj (hfirst.symm.trans hw')
    exact .of_undisturbed hundisturbed

/-- The products are kept from the end of each visit to the beginning of each later one. -/
theorem pairwise_visits : (runs.flatMap fun run => run.visits s).Pairwise fun v v' =>
    Kept c directory v.outcome.2 v'.world := by
  have hmoments := List.pairwise_flatMap.1 (pairwise_moments hdurable hc hruns hbetween)
  have hmem {run : Run} {v : Visit} (hv : v ∈ run.visits s) {w : World}
      (hw : w ∈ [v.world, v.outcome.2]) : w ∈ run.moments s := by
    unfold Run.moments
    refine List.mem_append_left _ (List.mem_cons_of_mem _ (List.mem_cons_of_mem _ ?_))
    exact List.mem_flatMap.2 ⟨v, hv, hw⟩
  refine List.pairwise_flatMap.2 ⟨fun run hrun => ?_, hmoments.2.imp fun hruns v hv v' hv' => ?_⟩
  · have hinner := List.Pairwise.sublist (List.sublist_cons_self _ _)
      (List.Pairwise.sublist (List.sublist_append_left _ _) (hmoments.1 run hrun)).tail
    refine (List.pairwise_flatMap.1 hinner).2.imp fun hvisits => ?_
    exact hvisits _ (by simp) _ (by simp)
  · exact hruns _ (hmem hv (by simp)) _ (hmem hv' (by simp))

omit hbetween in
/-- What is known about the visits of all runs. -/
theorem known_of_mem {v : Visit} (hv : v ∈ runs.flatMap fun run => run.visits s) :
    v.Proper directory ∧ v.Quiet directory ∧ v.context.repository = c.repository
      ∧ v.coordinate = v.stage.coordinate c ∧ v.coordinate.isSnapshot = false
      ∧ ∀ path, v.Succeeds path → ∃ result, (v.stored path).1 = .ok result := by
  obtain ⟨run, hrun, hv⟩ := List.mem_flatMap.1 hv
  have h := hruns run hrun
  have hknown := Run.visits_of_mem hc h.root hv
  obtain ⟨hproper, hquiet⟩ := h.proper hdurable.readable hc hv
  have hcoordinate : v.coordinate = v.stage.coordinate c := hknown.coordinate _ hknown.stage
  refine ⟨hproper, hquiet, hknown.repository, hcoordinate, ?_, h.stores v hv⟩
  rw [hcoordinate]
  exact hdurable.notSnapshot _ hknown.stage

/-- When a product was computed, each later visit of its stage finds it. -/
theorem pairwise_found : (runs.flatMap fun run => run.visits s).Pairwise fun v v' =>
    v'.stage = v.stage → ∀ path, v.Succeeds path → ∃ result, v.outcome.1 = .ok result
      ∧ v'.outcome = (.ok result, v'.world) ∧ ∀ path', ¬ v'.Computes path' := by
  refine (pairwise_visits hdurable hc hruns hbetween).imp_of_mem ?_
  intro v v' hv hv' hkept hsame path hsucceeds
  obtain ⟨hproper, hquiet, hrepository, hcoordinate, -, hstores⟩ :=
    known_of_mem hdurable hc hruns hv
  obtain ⟨hproper', -, hrepository', hcoordinate', hsnapshot', -⟩ :=
    known_of_mem hdurable hc hruns hv'
  obtain ⟨result, hstored⟩ := hstores path hsucceeds
  have hok := v.ok_of_succeeds hsucceeds hstored
  obtain ⟨hresult, content, m, hpresent⟩ := v.present_of_ok hproper hquiet hok
  rw [hsame] at hcoordinate'
  rw [hrepository, hcoordinate] at hresult hpresent
  have hthere := hkept _ hproper.stage content m hpresent
  rw [← hrepository', ← hcoordinate'] at hthere hresult
  obtain ⟨houtcome, hcomputes⟩ := v'.of_present hproper' hsnapshot' hthere
  exact ⟨result, hok, hresult ▸ houtcome, hcomputes⟩

end Sequences

/-- What can be fetched from a world can be fetched from one that keeps the products, with the same
content. -/
theorem Kept.fetch {w w' : World} {t t' : Surroundings} {stage : Stage} {path : String}
    {content : Bytes} (h : Kept c directory w w') (hdurable : c.Durable) (hstage : stage ∈ stages)
    (ht : t.directory = directory) (ht' : t'.directory = directory)
    (hfetched : ((c.repository.fetch (stage.coordinate c)).perform t w).1 = .ok path)
    (hread : w.disk.read directory path = .ok content) :
    (c.repository.fetch (stage.coordinate c)).perform t' w' = (.ok path, w')
      ∧ w'.disk.read directory path = .ok content := by
  obtain ⟨rfl, content', m, hpresent⟩ := Repository.present_of_fetch hfetched
  rw [ht] at hpresent
  obtain rfl : content' = content := Except.ok.inj (hpresent.read.symm.trans hread)
  have hthere := h stage hstage content' m hpresent
  refine ⟨?_, hthere.read⟩
  rw [← ht'] at hthere
  rw [hthere.fetch, hdurable.notSnapshot stage hstage]
  rfl

/-- What makes a sequence of runs a resumption of the work of the ones before. -/
structure Resumes (s : Settings) (c : Context) (directory : Place) (runs : List Run) : Prop where
  /-- No product is computed with success twice. -/
  once : (runs.flatMap fun run => run.visits s).Pairwise fun v v' => v'.stage = v.stage →
    ∀ path path', v.Succeeds path → ¬ v'.Succeeds path'
  /-- When a product was computed, each later visit of its stage gives the same path, and is over
  without computing anything, a request, or any other change of the world. -/
  found : (runs.flatMap fun run => run.visits s).Pairwise fun v v' => v'.stage = v.stage →
    ∀ path, v.Succeeds path → ∃ result, v.outcome.1 = .ok result
      ∧ v'.outcome = (.ok result, v'.world) ∧ ∀ path', ¬ v'.Computes path'
  /-- What can be fetched once can be fetched ever after, with the same content. -/
  kept : (runs.flatMap fun run => run.moments s).Pairwise fun w w' => ∀ stage ∈ stages,
    ∀ t t' : Surroundings, t.directory = directory → t'.directory = directory →
    ∀ path content, ((c.repository.fetch (stage.coordinate c)).perform t w).1 = .ok path →
      w.disk.read directory path = .ok content →
        (c.repository.fetch (stage.coordinate c)).perform t' w' = (.ok path, w')
          ∧ w'.disk.read directory path = .ok content
  /-- A product that could not be computed is not there. -/
  absent : ∀ v ∈ runs.flatMap fun run => run.visits s, ∀ path e, v.Computes path →
    (v.computed path).1 = .error e → ∀ t : Surroundings, t.directory = directory →
      (c.repository.contains (v.stage.coordinate c)).perform t v.outcome.2
        = (.ok false, v.outcome.2)

def cutOffSettings : Settings where
  distribution := "server"
  gameVersion := "1"
  mappingVersion := "snapshot-1"
  group := "g"
  repository := some "/r"
  sourceDirectory := some "/s"
  patchDirectory := some "/p"
  resourceDirectory := some "/e"

def cutOffContext : Context where
  settings := cutOffSettings
  distribution := .server
  mappingVersion := .released "snapshot" "1"
  repository := { root := "/r" }
  decompiler := idleTools.decompiler
  formatter := idleTools.formatter
  accessMap := none

/-- Surroundings in which no request is answered. -/
def cutOff : Surroundings where
  directory := []
  temporaries := "/t"
  environment := fun _ => none
  clock := fun _ => 0
  run := fun _ _ _ d => (none, d)
  serve := fun _ _ => .unreachable
  mark := "7"
  freshName := fun _ => "fresh"

/-- The game is in the repository, and nothing else. -/
def stocked : Disk :=
  ⟨[(["t"], .directory), (["r"], .directory), (["r", "g"], .directory),
    (["r", "g", "server"], .directory), (["r", "g", "server", "1"], .directory),
    (["r", "g", "server", "1", "server-1-vanilla.jar"], .file [103] 0),
    (["r", "g", "server", "1", "server-1-vanilla.jar.meta.json"], .file (Text.Utf8.encode
      ("\x7b\"coordinate\":\"g:server:1:jar:vanilla\",\"size\":1,\"created_millis\":0,\"sha256\":"
        ++ "\"cd0aa9856147b6c5b4ff2b7dfee5da20aa38253099ef1b4a64aced233c9afe29\"\x7d").toList) 0)]⟩

def cutOffRun : Run := ⟨idleTools, cutOff, .ofDisk stocked⟩

/-- Whether what a visit would compute is short and can be stored. -/
def Visit.storesWell (v : Visit) (directory : Place) : Bool :=
  match v.opened.1 with
  | .error _ => true
  | .ok path =>
    ((v.computed path).2.disk.content? (Disk.place directory path)).all
        (fun content => decide (content.length < UInt64.size))
      && match (v.computed path).1 with
        | .error _ => true
        | .ok _ => (v.stored path).1.toBool

theorem Visit.storesWell_iff {v : Visit} {path : String} (hpath : v.opened.1 = .ok path) :
    v.storesWell directory = true
      ↔ (∀ content, (v.computed path).2.disk.content? (Disk.place directory path) = some content →
          content.length < UInt64.size)
        ∧ ((v.computed path).1 = .ok () → ∃ result, (v.stored path).1 = .ok result) := by
  have hstored : (v.stored path).1.toBool = true ↔ ∃ result, (v.stored path).1 = .ok result := by
    cases (v.stored path).1 with
    | error e => simp [Except.toBool]
    | ok result => simp [Except.toBool]
  unfold storesWell
  rw [hpath]
  dsimp only
  rw [Bool.and_eq_true, Option.all_eq_true, ← hstored]
  simp only [decide_eq_true_eq]
  cases (v.computed path).1 <;> simp

theorem durable_cutOffContext : cutOffContext.Durable := by
  have hstages : stages.map (fun stage =>
      (Coordinate.parse (stage.coordinate cutOffContext).text,
        (stage.coordinate cutOffContext).isSnapshot))
      = stages.map fun stage => (.ok (stage.coordinate cutOffContext), false) := by
    decide +kernel
  have heach := List.map_inj_left.1 hstages
  exact ⟨fun stage hstage => congrArg Prod.fst (heach stage hstage),
    fun stage hstage => congrArg Prod.snd (heach stage hstage)⟩

theorem aside_cutOff : Aside (productWays cutOffContext cutOff.directory) cutOff := by
  have hdown : ∀ k ∈ stages.map fun stage => stage.coordinate cutOffContext,
      (∀ name ∈ Coordinate.groupNames k.group, Path.isAbsolute name = false)
        ∧ k.artifact ≠ ".." ∧ k.version ≠ ".." := by
    decide +kernel
  have houtside : (∀ q ∈ Disk.way [] "/r",
        ¬ Disk.place [] (Path.join "/t" ("anvil-" ++ "fresh")) <+: q)
      ∧ ¬ Disk.place [] "/r" <+: Disk.place [] (Path.join "/t" ("anvil-" ++ "fresh")) := by
    decide +kernel
  refine aside_of_outside (fun stage hstage => ?_) ?_
  · have hmem := List.mem_map_of_mem (f := fun stage => stage.coordinate cutOffContext) hstage
    have hparse := durable_cutOffContext.readable stage hstage
    exact ⟨(Coordinate.parse_eq_ok_iff.1 hparse).2, hdown _ hmem⟩
  · rintro path ⟨n, rfl⟩
    exact houtside

end Jarwright.Pipeline
