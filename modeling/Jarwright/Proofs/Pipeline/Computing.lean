import Jarwright.Proofs.Archive.Extraction
import Jarwright.Proofs.Machine.Keeping
import Jarwright.Proofs.Machine.Ways
import Jarwright.Proofs.Pipeline.Visits

/-!
# What stages write

A stage that computes its product writes into temporary files, and the decompiler into a temporary
directory; nothing else is written until the product is stored. What steps aside from temporary
files keep is kept by the computation, and a product is only missed where it is fetched.

* `Aside`: temporary files stand aside from some places;
* `keeps_download`, `keeps_applyMappings` and their like, one for each stage, and `keeps_compute`:
  what computing a product keeps, and which faults it can have;
* `Visit.quiet`: the files of products are not disturbed during a visit.
-/

namespace Jarwright.Pipeline

open Machine Machine.Disk Machine.Action Store Settings

/-- Whether temporary files, and all that is below them, stand aside from some places. -/
def Aside (ps : List Place) (t : Surroundings) : Prop :=
  ∀ path, IsFresh t path → ∀ q ∈ ps, ¬ place t.directory path <+: q

/-- Whether a fault is not that a product is missing. -/
def Fault.IsPlain (e : Fault) : Prop := ∀ k, e.innermost ≠ .store (.notFound k)

variable {ps : List Place} {t : Surroundings} {change : Change} {path : String}

theorem Aside.not_mem (h : Aside ps t) (hpath : IsFresh t path) :
    place t.directory path ∉ ps := fun hmem => h path hpath _ hmem (List.prefix_refl _)

/-! ## Archives -/

section Archives

theorem moves_openEntries : Moves change t (Archive.openEntries path) fun _ => True := by
  refine ⟨fun w => (Archive.ends_openEntries path t w).mono ?_ ?_⟩
  · rintro entries w' rfl
    exact ⟨change.refl _, trivial⟩
  · rintro fault w' rfl
    exact change.refl _

theorem moves_contentOf? {name : String} :
    Moves change t (Archive.contentOf? path name) fun _ => True := by
  refine .bind (P := fun _ => True) (.look fun _ => trivial) fun directory _ => ?_
  cases directory with
  | true =>
    refine .bind (P := fun _ => True) (.look fun _ => trivial) fun file _ => ?_
    cases file with
    | true => exact .bind (.mapFault .readFile) fun _ _ => .pure trivial
    | false => exact .pure trivial
  | false => exact .bind moves_openEntries fun _ _ => .pure trivial

/-- An archive is remade unless it cannot hold an entry or a content cannot be made. -/
theorem plain_of_remadeFrom {content : String → Bytes → Except Fault (Option Bytes)}
    {written entries : List Archive.Entry} {files : Nat} {e : Fault}
    (hcontent : ∀ name bytes e, content name bytes = .error e → e.IsPlain)
    (h : (Archive.remadeFrom path Fault.archive content written files entries).2 = .error e) :
    e.IsPlain := by
  induction entries generalizing written files with
  | nil => cases h
  | cons entry rest ih =>
    rw [Archive.remadeFrom] at h
    split at h
    · split at h
      · obtain rfl := Except.error.inj h
        exact fun _ h => nomatch h
      · exact ih h
    · split at h
      · rename_i cause hcause
        obtain rfl := Except.error.inj h
        exact hcontent _ _ _ hcause
      · exact ih h
      · split at h
        · obtain rfl := Except.error.inj h
          exact fun _ h => nomatch h
        · exact ih h

variable (haside : Aside ps t) (hpath : IsFresh t path)

include haside hpath

theorem moves_finish {entries : List Archive.Entry} :
    Moves (.sparing ps) t (Archive.finish path entries) fun _ => True :=
  .mapFault (.spareWrite (haside.not_mem hpath))

theorem moves_beginFrom {source : String} :
    Moves (.sparing ps) t (Archive.beginFrom source path) fun _ => True := by
  refine .bind moves_openEntries fun entries _ => ?_
  refine .bind (.mapFault (.spareWrite (haside.not_mem hpath))) fun _ _ => ?_
  split
  · exact .pure trivial
  · refine .bind (P := fun _ => True) (.attempt .readFile fun _ => trivial) fun content _ => ?_
    split
    · split
      · exact .pure trivial
      · exact .throw
    · exact .throw

theorem moves_copyEntries {source : String} {keep : String → Bool} :
    Moves (.sparing ps) t (Archive.copyEntries source path keep) fun _ => True :=
  .bind (moves_beginFrom haside hpath) fun _ _ =>
    .bind (moves_finish haside hpath) fun _ _ => .pure trivial

end Archives

/-! ## Parts of computations -/

section Parts

variable {α : Type} {I : Disk → Prop} {E : Fault → Nat → Prop} {Q : α → Prop}
  (hI : ∀ d d', (Change.sparing ps).allows d d' → I d → I d')
  (hE : ∀ e : Fault, e.IsPlain → ∀ n, E e n)

include hE

theorem keeps_fetchBytes {url : String} : Keeps I t (fetchBytes url) (fun _ => True) E := by
  refine .bind .request fun reply _ => ?_
  split
  · exact .throw (hE _ fun _ h => nomatch h)
  · exact .throw (hE _ fun _ h => nomatch h)
  · split
    · exact .pure trivial
    · exact .throw (hE _ fun _ h => nomatch h)

theorem keeps_fetchDocument {url : String} {parse : List Char → Option α} :
    Keeps I t (fetchDocument url parse) (fun _ => True) E := by
  refine .bind (keeps_fetchBytes hE) fun bytes _ => ?_
  split
  · exact .pure trivial
  · exact .throw (hE _ fun _ h => nomatch h)

theorem keeps_fetchLive {template : String} (names : List String) :
    Keeps I t (fetchLive template names) (fun _ => True) E := by
  induction names with
  | nil => exact .pure trivial
  | cons name rest ih =>
    exact .bind (keeps_fetchBytes hE) fun _ _ => .bind ih fun _ _ => .pure trivial

omit hE in
theorem keeps_readIfThere {ε : Type} {E : ε → Nat → Prop} :
    Keeps I t (readIfThere path) (fun _ => True) E := by
  refine .bind (P := fun _ => True) (.attempt (.of_still .readFile fun _ _ => trivial))
    fun content _ => ?_
  cases content
  · exact .pure trivial
  · exact .pure trivial

theorem keeps_requireEntry {archive entry : String} :
    Keeps I t (requireEntry archive entry) (fun _ => True) E := by
  refine .bind (.mapFault (.of_still moves_contentOf? fun _ => hE _ fun _ h => nomatch h))
    fun content _ => ?_
  split
  · exact .pure trivial
  · exact .throw (hE _ fun _ h => nomatch h)

include hI

/-- What steps aside is kept, and a fault that is worded anew as a plain one is plain. -/
theorem keeps_worded {ε : Type} {x : Action ε α} {f : ε → Fault}
    (h : Moves (.sparing ps) t x Q) (hf : ∀ e, (f e).IsPlain) : Keeps I t (x.mapFault f) Q E :=
  .mapFault (.of_moves h hI fun e => hE _ (hf e))

section Writing

variable (haside : Aside ps t) (hpath : IsFresh t path)

include haside hpath

theorem keeps_writeFresh {content : Bytes} {f : Machine.Fault → Fault}
    (hf : ∀ e, (f e).IsPlain) :
    Keeps I t ((writeFile path content).mapFault f) (fun _ => True) E :=
  keeps_worded hI hE (.spareWrite (haside.not_mem hpath)) hf

theorem keeps_downloadTo {url : String} :
    Keeps I t (downloadTo url path) (fun _ => True) E := by
  refine .bind .request fun reply _ => ?_
  split
  · exact .throw (hE _ fun _ h => nomatch h)
  · exact .throw (hE _ fun _ h => nomatch h)
  · refine .bind (keeps_writeFresh hI hE haside hpath fun _ _ h => nomatch h) fun _ _ => ?_
    split
    · exact .pure trivial
    · exact .throw (hE _ fun _ h => nomatch h)

theorem keeps_unpackEntry {archive entry : String} :
    Keeps I t (unpackEntry archive entry path) (fun _ => True) E :=
  .bind (keeps_requireEntry hE) fun _ _ =>
    keeps_writeFresh hI hE haside hpath fun _ _ h => nomatch h

theorem keeps_renameFile {input : String} {table : Mapping.Compact}
    {fields methods : Mapping.Csv} :
    Keeps I t (Pipeline.renameFile input path table fields methods) (fun _ => True) E := by
  refine .bind keeps_readIfThere fun content _ => ?_
  refine .bind (.orFail (fun _ _ => trivial) fun _ _ => hE _ fun _ h => nomatch h) fun _ _ => ?_
  refine .bind (.orFail (fun _ _ => trivial) fun _ _ => hE _ fun _ h => nomatch h) fun _ _ => ?_
  exact .bind (keeps_writeFresh hI hE haside hpath fun _ _ h => nomatch h) fun _ _ => .pure trivial

theorem keeps_remakeEntries {source : String}
    {content : String → Bytes → Except Fault (Option Bytes)}
    (hcontent : ∀ name bytes e, content name bytes = .error e → e.IsPlain) :
    Keeps I t (Archive.remakeEntries source path .archive content) (fun _ => True) E := by
  refine .bind (keeps_worded hI hE (moves_beginFrom haside hpath) fun _ _ h => nomatch h)
    fun entries _ => ?_
  refine .bind (keeps_worded hI hE (moves_finish haside hpath) fun _ _ h => nomatch h)
    fun _ _ => ?_
  exact .orFail (fun _ _ => trivial) fun e he => hE e (plain_of_remadeFrom hcontent he)

end Writing

/-! ## Temporary files -/

omit hI hE in
theorem keeps_discard {remove : Action Machine.Fault Unit}
    (h : Keeps I t remove (fun _ => True) fun _ _ => True) :
    Keeps I t (discard remove) (fun _ => True) E :=
  .bind (P := fun _ => True) (.attempt h) fun _ _ => .pure trivial

variable (haside : Aside ps t)

include haside

theorem keeps_createFresh :
    Keeps I t (do makeFresh createFile (← nameBound) : Action Fault String) (IsFresh t) E :=
  .bind (P := fun _ => True) (.look fun _ _ => trivial) fun _ _ =>
    keeps_makeFresh (fun _ hpath => .of_moves (.spareCreate (haside.not_mem hpath)) hI
      fun _ _ => trivial) fun _ => hE _ fun _ h => nomatch h

theorem keeps_withMoreFiles {body : List String → Action Fault α} {paths : List String} {n : Nat}
    (hpaths : ∀ path ∈ paths, IsFresh t path)
    (hbody : ∀ paths' : List String, paths'.length = paths.length + n →
      (∀ path ∈ paths', IsFresh t path) → Keeps I t (body paths') Q E) :
    Keeps I t (withMoreFiles body paths n) Q E := by
  induction n generalizing paths with
  | zero => exact hbody paths rfl hpaths
  | succ n ih =>
    unfold withMoreFiles
    rw [← bind_assoc]
    refine .bind (keeps_createFresh hI hE haside) fun path hpath => ?_
    refine .after (ih ?_ ?_) (keeps_discard (.of_moves (.spareRemove (haside.not_mem hpath)) hI
      fun _ _ => trivial)) fun _ => Visit.readings_discard
    · intro path' hmem
      rcases List.mem_append.1 hmem with hmem | hmem
      · exact hpaths path' hmem
      · exact List.mem_singleton.1 hmem ▸ hpath
    · intro paths' hlength
      refine hbody paths' ?_
      rw [hlength, List.length_append, List.length_singleton]
      omega

theorem keeps_withTemporaryFiles {body : List String → Action Fault α} {n : Nat}
    (hbody : ∀ paths : List String, paths.length = n →
      (∀ path ∈ paths, IsFresh t path) → Keeps I t (body paths) Q E) :
    Keeps I t (withTemporaryFiles n body) Q E := by
  refine keeps_withMoreFiles hI hE haside (fun _ h => nomatch h) fun paths hlength => ?_
  exact hbody paths (by simpa using hlength)

theorem keeps_withTemporaryDirectory {body : String → Action Fault α}
    (hbody : ∀ path, IsFresh t path → Keeps I t (body path) Q E) :
    Keeps I t (withTemporaryDirectory body) Q E := by
  refine .bind (P := fun _ => True) (.look fun _ _ => trivial) fun bound _ => ?_
  refine .bind (keeps_makeFresh (fun path hpath => ?_) fun _ => hE _ fun _ h => nomatch h)
    fun path hpath => .after (hbody path hpath) (keeps_discard (.of_moves
      (.spareRemoveTree (haside path hpath)) hI fun _ _ => trivial)) fun _ =>
        Visit.readings_discard
  obtain ⟨n, rfl⟩ := hpath
  exact .of_moves (.spareMakeDirectory (haside.not_mem ⟨n, rfl⟩)) hI fun _ _ => trivial

/-! ## Computing -/

omit hI hE haside in
/-- The version that a manifest does not have is the only fault of looking for one. -/
theorem plain_of_require {m : Manifest} {id : String} {e : Fault} (h : m.require id = .error e) :
    e.IsPlain := by
  unfold Manifest.require at h
  split at h
  · cases h
  · obtain rfl := Except.error.inj h
    exact fun _ h => nomatch h

omit hI hE haside in
theorem plain_of_finishSource {c : Context} {name : String} {source : List Char} {e : Fault}
    (h : finishSource c name source = .error e) : e.IsPlain := by
  unfold finishSource at h
  cases haccess : c.accessMap with
  | none =>
    rw [haccess] at h
    cases h
  | some m =>
    rw [haccess] at h
    dsimp only at h
    split at h
    · cases happly : m.apply (String.ofList source) with
      | ok changed =>
        rw [happly] at h
        cases h
      | error cause =>
        rw [happly] at h
        obtain rfl := Except.error.inj h
        exact fun _ h => nomatch h
    · cases h

omit hI hE haside in
theorem plain_of_finishEntry {c : Context} {name : String} {content : Bytes} {e : Fault}
    (h : finishEntry c name content = .error e) : e.IsPlain := by
  unfold finishEntry at h
  split at h
  · split at h
    · rename_i source _
      cases hsource : finishSource c name source with
      | ok text =>
        rw [hsource] at h
        cases h
      | error cause =>
        rw [hsource] at h
        obtain rfl := Except.error.inj h
        exact plain_of_finishSource hsource
    · cases h
  · split at h
    · cases h
    · cases h

omit hI haside in
theorem keeps_orFail {ε : Type} {f : ε → Fault} {x : Except ε α} (hf : ∀ e, (f e).IsPlain) :
    Keeps I t (orFail f x) (fun _ => True) E :=
  .orFail (fun _ _ => trivial) fun e _ => hE _ (hf e)

omit hI hE haside in
theorem isFresh_getD {paths : List String} {i : Nat} (hpaths : ∀ path ∈ paths, IsFresh t path)
    (hi : i < paths.length) : IsFresh t (paths.getD i "") := by
  rw [List.getD_eq_getElem?_getD, List.getElem?_eq_getElem hi, Option.getD_some]
  exact hpaths _ (List.getElem_mem hi)

variable {c : Context} (hpath : IsFresh t path)

include hpath

theorem keeps_download : Keeps I t (download.compute c path) (fun _ => True) E := by
  refine .bind (keeps_fetchDocument hE) fun manifest _ => ?_
  refine .bind (.orFail (fun _ _ => trivial) fun e he => hE _ (plain_of_require he))
    fun version _ => .bind (keeps_fetchDocument hE) fun document _ => ?_
  split
  · exact .throw (hE _ fun _ h => by cases h)
  · exact .bind (keeps_downloadTo hI hE haside hpath) fun _ _ => .pure trivial

theorem keeps_fetchSrg : Keeps I t (fetchSrg.compute c path) (fun _ => True) E :=
  .bind (keeps_downloadTo hI hE haside hpath) fun _ _ => .pure trivial

theorem keeps_fetchMcp : Keeps I t (fetchMcp.compute c path) (fun _ => True) E := by
  unfold fetchMcp
  dsimp only
  split
  · exact .bind (keeps_downloadTo hI hE haside hpath) fun _ _ => .pure trivial
  · refine .bind (keeps_writeFresh hI hE haside hpath fun _ _ h => by cases h) fun _ _ => ?_
    exact .bind (keeps_fetchLive hE _) fun entries _ =>
      keeps_worded hI hE (moves_finish haside hpath) fun _ _ h => by cases h

variable (hfetch : ∀ k, Keeps I t (c.fetch k) (fun _ => True) E)

include hfetch

theorem keeps_applyMappings : Keeps I t (applyMappings.compute c path) (fun _ => True) E := by
  refine .bind (hfetch _) fun vanilla _ => .bind (hfetch _) fun srg _ =>
    .bind (hfetch _) fun mcp _ => ?_
  refine keeps_withTemporaryFiles hI hE haside fun paths hlength hpaths => ?_
  have hfresh {i : Nat} (hi : i < 3) : IsFresh t (paths.getD i "") :=
    isFresh_getD hpaths (hlength ▸ hi)
  refine .bind (keeps_unpackEntry hI hE haside (hfresh (by decide))) fun _ _ => ?_
  refine .bind (keeps_unpackEntry hI hE haside (hfresh (by decide))) fun _ _ => ?_
  refine .bind (keeps_unpackEntry hI hE haside (hfresh (by decide))) fun _ _ => ?_
  have hmapping (cause : Mapping.Fault) : (Fault.mapping cause).IsPlain := fun _ h => by cases h
  refine .bind keeps_readIfThere fun _ _ => .bind (keeps_orFail hE hmapping) fun table _ => ?_
  refine .bind keeps_readIfThere fun _ _ => .bind (keeps_orFail hE hmapping) fun fields _ => ?_
  refine .bind keeps_readIfThere fun _ _ => .bind (keeps_orFail hE hmapping) fun methods _ => ?_
  exact .bind (keeps_renameFile hI hE haside hpath) fun _ _ => .pure trivial

theorem keeps_decompile
    (hdecompiler : ∀ input directory, Keeps I t (c.decompiler input directory) (fun _ => True) E) :
    Keeps I t (decompile.compute c path) (fun _ => True) E := by
  refine .bind (hfetch _) fun mapped _ => ?_
  refine keeps_withTemporaryFiles hI hE haside fun paths hlength hpaths => ?_
  have hfresh : IsFresh t (paths.headD "") := by
    cases paths with
    | nil => cases hlength
    | cons path paths => exact hpaths path List.mem_cons_self
  refine .bind (keeps_worded hI hE (moves_copyEntries haside hfresh) fun _ _ h => by cases h)
    fun _ _ => ?_
  refine keeps_withTemporaryDirectory hI hE haside fun directory _ => ?_
  refine .bind (hdecompiler _ _) fun produced _ => ?_
  refine .bind (keeps_remakeEntries hI hE haside hpath fun name bytes e he => ?_) fun _ _ =>
    .pure trivial
  cases hentry : finishEntry c name bytes with
  | ok content =>
    rw [hentry] at he
    cases he
  | error cause =>
    rw [hentry] at he
    obtain rfl := Except.error.inj he
    exact plain_of_finishEntry hentry

/-- Computing a product keeps what steps aside from temporary files keep, if fetching and the
decompiler do; and its faults are plain, or come from these. -/
theorem keeps_compute {stage : Stage} (hstage : stage ∈ stages)
    (hdecompiler : ∀ input directory, Keeps I t (c.decompiler input directory) (fun _ => True) E) :
    Keeps I t (stage.compute c path) (fun _ => True) E := by
  simp only [stages, List.mem_cons, List.not_mem_nil, or_false] at hstage
  rcases hstage with rfl | rfl | rfl | rfl | rfl
  · exact keeps_download hI hE haside hpath
  · exact keeps_fetchSrg hI hE haside hpath
  · exact keeps_fetchMcp hI hE haside hpath
  · exact keeps_applyMappings hI hE haside hpath hfetch
  · exact keeps_decompile hI hE haside hpath hfetch hdecompiler

end Parts

/-! ## Visits -/

/-- The places on the ways to the files of all products. -/
def productWays (c : Context) (directory : Place) : List Place :=
  stages.flatMap fun stage =>
    way directory ((stage.coordinate c).contentPath c.repository.root)
      ++ way directory ((stage.coordinate c).sidecarPath c.repository.root)

theorem productWays_congr {c c' : Context} {directory : Place}
    (hrepository : c'.repository = c.repository)
    (hcoordinate : ∀ stage ∈ stages, stage.coordinate c' = stage.coordinate c) :
    productWays c' directory = productWays c directory := by
  unfold productWays
  simp only [List.flatMap_def]
  refine congrArg List.flatten (List.map_congr_left fun stage hstage => ?_)
  rw [hrepository, hcoordinate stage hstage]

/-- Temporary files stand aside from the ways to the products if they are neither on the way to the
repository nor in it, and no coordinate leads out of it. -/
theorem aside_of_outside {c : Context}
    (hdown : ∀ stage ∈ stages, (stage.coordinate c).WellFormed ∧ (stage.coordinate c).LeadsDown)
    (houtside : ∀ path, IsFresh t path →
      (∀ q ∈ way t.directory c.repository.root, ¬ place t.directory path <+: q)
        ∧ ¬ place t.directory c.repository.root <+: place t.directory path) :
    Aside (productWays c t.directory) t := by
  intro path hpath q hq hprefix
  obtain ⟨hway, hroot⟩ := houtside path hpath
  obtain ⟨stage, hstage, hq⟩ := List.mem_flatMap.1 hq
  obtain ⟨hwellFormed, hgroup, hartifact, hversion⟩ := hdown stage hstage
  have hnot {suffix : String} (hsuffix : '/' ∉ suffix.toList) : q ∉ way t.directory
      ((stage.coordinate c).contentPath c.repository.root ++ suffix) := by
    intro hq
    obtain ⟨hrelative, -, hsteps⟩ := hwellFormed.components_append hsuffix
      (Coordinate.any_isAbsolute_eq_false_iff.2 hgroup)
    have hup : "..".toList ∉ Path.steps ((stage.coordinate c).relativePath ++ suffix) := by
      rw [hsteps, List.mem_flatMap, hwellFormed.up_mem_iff hsuffix]
      exact not_or.2 ⟨hartifact, hversion⟩
    rw [Coordinate.contentPath_append] at hq
    rcases mem_way_join hrelative hup hq with hq | hq
    · exact hway q hq hprefix
    · rcases List.prefix_or_prefix_of_prefix hq hprefix with hbelow | habove
      · exact hroot hbelow
      · exact hway _ (place_mem_way _ _) habove
  rcases List.mem_append.1 hq with hq | hq
  · rw [← String.append_empty (s := Coordinate.contentPath _ _)] at hq
    exact hnot (by simp) hq
  · exact hnot (by decide) hq

/-- Whoever spares the ways to the products does not disturb them. -/
theorem undisturbed_of_spared {c : Context} {directory : Place} {d d' : Disk}
    (h : (Change.sparing (productWays c directory)).allows d d') :
    Undisturbed c directory d d' := by
  intro stage hstage
  constructor
  · exact read_congr fun q hq => h q (List.mem_flatMap.2 ⟨stage, hstage, List.mem_append_left _ hq⟩)
  · exact read_congr fun q hq =>
      h q (List.mem_flatMap.2 ⟨stage, hstage, List.mem_append_right _ hq⟩)

/-- Fetching takes no step. -/
theorem moves_fetch {c : Context} {k : Coordinate} :
    Moves change t (c.fetch k) fun _ => True := by
  refine .mapFault ⟨fun w => .of_perform (fun path w' h => ?_) fun e w' h => ?_⟩
  all_goals
    obtain ⟨n, -, hworld⟩ := Repository.fetch_world (r := c.repository) (c := k) (s := t) (w := w)
    rw [h] at hworld
    obtain rfl := hworld
  · exact ⟨change.refl _, trivial⟩
  · exact change.refl _

namespace Visit

variable {v : Visit} {directory : Place}

/-- Only the repository changes the files of products during a visit, if temporary files stand aside
from the ways to them and the decompiler spares these ways. -/
theorem quiet (hv : v.Proper directory)
    (haside : Aside (productWays v.context directory) v.surroundings)
    (hdecompiler : ∀ input output,
      Moves (.sparing (productWays v.context directory)) v.surroundings
        (v.context.decompiler input output) fun _ => True) : v.Quiet directory := by
  have hspared {d : Disk} : ∀ d₁ d₂,
      (Change.sparing (productWays v.context directory)).allows d₁ d₂ →
      (Change.sparing (productWays v.context directory)).allows d d₁ →
      (Change.sparing (productWays v.context directory)).allows d d₂ :=
    fun _ _ hstep hbefore => (Change.sparing _).trans hbefore hstep
  have hplain (e : Fault) (_ : e.IsPlain) (n : Nat) : True := trivial
  refine ⟨fun _ => undisturbed_of_spared ?_, fun path hpath => undisturbed_of_spared ?_,
    fun path hpath => undisturbed_of_spared ?_⟩
  · rw [opened]
    exact (keeps_createFresh hspared hplain haside).disk ((Change.sparing _).refl _)
  · rw [computed]
    exact (keeps_compute hspared hplain haside (isFresh_of_computes hpath)
      (fun _ => .of_still moves_fetch fun _ _ => trivial) hv.stage
      fun input output => .of_moves (hdecompiler input output) hspared fun _ _ => trivial).disk
      ((Change.sparing _).refl _)
  · rw [closed]
    exact (keeps_discard (E := fun _ _ => True) (.of_moves (.spareRemove (haside.not_mem
      (isFresh_of_computes hpath))) hspared fun _ _ => trivial)).disk ((Change.sparing _).refl _)

end Visit

end Jarwright.Pipeline
