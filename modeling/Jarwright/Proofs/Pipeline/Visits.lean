import Jarwright.Proofs.Machine.Keeping
import Jarwright.Proofs.Pipeline.Products

/-!
# Visits of stages

A build visits its stages one after the other, and each visit either finds the product of the stage
or computes it. `Visit` gives names to what happens in between: looking for the product, opening a
temporary file for it, computing, storing, and taking the temporary file away.

* `Visit.outcome_of_found`, `Visit.outcome_of_computes` and their like: how a visit goes on;
* `Visit.course`, `Visit.failure`: how a visit can go, and how it can fail;
* `Visit.Quiet`: the files of products are not disturbed in between;
* `Visit.keeps_other`, `Visit.present_of_ok`, `Visit.absent_of_failed`: which products are there
  after a visit.
-/

namespace Jarwright.Pipeline

open Machine Machine.Action Store

/-- A visit of a stage. -/
structure Visit where
  stage : Stage
  context : Context
  surroundings : Surroundings
  world : World

namespace Visit

variable (v : Visit)

/-- The coordinate of the product. -/
def coordinate : Coordinate := v.stage.coordinate v.context

/-- What comes of the visit. -/
def outcome : Except Fault String × World :=
  (v.stage.provide v.context).perform v.surroundings v.world

/-- What comes of looking for the product. -/
def looked : Except Store.Fault Bool × World :=
  (v.context.repository.contains v.coordinate).perform v.surroundings v.world

/-- What comes of fetching the product when it was found. -/
def fetched : Except Store.Fault String × World :=
  (v.context.repository.fetch v.coordinate).perform v.surroundings v.looked.2

/-- What comes of opening a temporary file when the product was not found. -/
def opened : Except Fault String × World :=
  (do makeFresh createFile (← nameBound) : Action Fault String).perform v.surroundings v.looked.2

/-- Whether the product is computed, into a file. -/
def Computes (path : String) : Prop := v.looked.1 = .ok false ∧ v.opened.1 = .ok path

/-- What comes of computing the product. -/
def computed (path : String) : Except Fault Unit × World :=
  (v.stage.compute v.context path).perform v.surroundings v.opened.2

/-- Whether the product is computed without a fault. -/
def Succeeds (path : String) : Prop := v.Computes path ∧ (v.computed path).1 = .ok ()

/-- What comes of storing the product. -/
def stored (path : String) : Except Store.Fault String × World :=
  (v.context.repository.store v.coordinate path (some v.stage.description)).perform v.surroundings
    (v.computed path).2

/-- The world before the temporary file is taken away. -/
def written (path : String) : World :=
  match (v.computed path).1 with
  | .ok () => (v.stored path).2
  | .error _ => (v.computed path).2

/-- The world after that. -/
def closed (path : String) : World :=
  ((discard (removeFile path)).perform v.surroundings (v.written path)).2

variable {v : Visit} {path : String}

/-! ## How a visit goes on -/

/-- A visit in terms of what it consists of. -/
theorem provide_eq (stage : Stage) (c : Context) :
    stage.provide c = mapFault (.stage stage.name) (do
      if ← mapFault .store (c.repository.contains (stage.coordinate c)) then
        mapFault .store (c.repository.fetch (stage.coordinate c))
      else do
        let path ← (do makeFresh createFile (← nameBound) : Action Fault String)
        after (do
            stage.compute c path
            mapFault .store
              (c.repository.store (stage.coordinate c) path (some stage.description)))
          (discard (removeFile path))) := by
  unfold Stage.provide atStage Context.fetch withTemporaryFiles
  simp only [withMoreFiles, List.nil_append, List.headD_cons, bind_assoc]

theorem perform_provide {stage : Stage} {c : Context} {s : Surroundings} {w : World} :
    (stage.provide c).perform s w = (⟨stage, c, s, w⟩ : Visit).outcome := rfl

theorem perform_discard {remove : Action Machine.Fault Unit} {s : Surroundings} {w : World} :
    (discard remove).perform s w = (.ok (), (remove.perform s w).2) := by
  rw [discard, perform_bind, perform_attempt]
  rfl

/-- Nothing that is taken away needs the time. -/
theorem readings_discard {f : Place → Disk → Except Machine.Fault Disk} {s : Surroundings}
    {w : World} : ((discard (step f)).perform s w).2.readings = w.readings := by
  rw [perform_discard]
  unfold perform step
  cases f s.directory w.disk <;> rfl

theorem outcome_of_unknown {e : Store.Fault} (h : v.looked.1 = .error e) :
    v.outcome = (.error (.stage v.stage.name (.store e)), v.looked.2) := by
  unfold outcome looked coordinate at *
  rw [provide_eq, perform_mapFault, perform_bind, perform_mapFault, h]
  simp only [mapError_error]

/-- A product that is found is fetched. -/
theorem outcome_of_found (h : v.looked.1 = .ok true) :
    v.outcome = (v.fetched.1.mapError fun e => .stage v.stage.name (.store e), v.fetched.2) := by
  unfold outcome fetched looked coordinate at *
  rw [provide_eq, perform_mapFault, perform_bind, perform_mapFault, h]
  simp only [mapError_ok, if_true, perform_mapFault]
  generalize Action.perform (Repository.fetch _ _) _ _ = fetched
  obtain ⟨_ | _, _⟩ := fetched <;> rfl

theorem outcome_of_unopened {e : Fault} (h : v.looked.1 = .ok false) (he : v.opened.1 = .error e) :
    v.outcome = (.error (.stage v.stage.name e), v.opened.2) := by
  unfold outcome opened looked coordinate at *
  rw [provide_eq, perform_mapFault, perform_bind, perform_mapFault, h]
  simp only [mapError_ok, Bool.false_eq_true, if_false]
  rw [perform_bind]
  generalize Action.perform (nameBound >>= _) _ _ = made at he ⊢
  obtain ⟨_ | _, w⟩ := made
  · obtain rfl := Except.error.inj he
    rfl
  · cases he

/-- A product that is not found is computed and stored. -/
theorem outcome_of_computes (h : v.Computes path) :
    v.outcome = (match (v.computed path).1 with
      | .ok () => (v.stored path).1.mapError fun e => .stage v.stage.name (.store e)
      | .error e => .error (.stage v.stage.name e), v.closed path) := by
  obtain ⟨hlooked, hopened⟩ := h
  unfold outcome closed written stored computed opened looked coordinate at *
  rw [provide_eq, perform_mapFault, perform_bind, perform_mapFault, hlooked]
  simp only [mapError_ok, Bool.false_eq_true, if_false]
  rw [perform_bind]
  generalize Action.perform (nameBound >>= _) _ _ = made at hopened ⊢
  obtain ⟨_, w⟩ := made
  obtain rfl := hopened
  dsimp only
  rw [perform_after, perform_bind]
  generalize Action.perform (v.stage.compute _ _) _ _ = computed
  obtain ⟨_ | _, w₁⟩ := computed
  · simp only [perform_discard, mapError_error]
  · simp only [perform_mapFault, perform_discard]
    generalize Action.perform (Repository.store _ _ _ _) _ _ = stored
    obtain ⟨_ | _, w₂⟩ := stored <;> rfl

theorem written_of_ok (h : (v.computed path).1 = .ok ()) :
    v.written path = (v.stored path).2 := by
  rw [written, h]

theorem written_of_error {e : Fault} (h : (v.computed path).1 = .error e) :
    v.written path = (v.computed path).2 := by
  rw [written, h]

theorem closed_readings : (v.closed path).readings = (v.written path).readings := readings_discard

attribute [irreducible] outcome looked fetched opened computed stored written closed

end Visit

/-! ## Temporary files -/

/-- Files and directories are made under fresh names only. -/
theorem keeps_makeFresh {I : Disk → Prop} {E : Fault → Nat → Prop} {s : Surroundings}
    {make : String → Action Machine.Fault Unit} {n : Nat}
    (hmake : ∀ path, IsFresh s path → Keeps I s (make path) (fun _ => True) fun _ _ => True)
    (hE : ∀ path n, E (.file path) n) : Keeps I s (makeFresh make n) (IsFresh s) E := by
  have hfull : Keeps I s (do throw (.file (← read).temporaries) : Action Fault String)
      (IsFresh s) E :=
    .bind (P := fun _ => True) (.read trivial) fun _ _ => .throw (hE _)
  induction n with
  | zero => exact hfull
  | succ n ih =>
    have hname : Keeps I s (nextName : Action Fault String) (IsFresh s) E :=
      ⟨fun w hw => ⟨⟨hw, w.tries, rfl⟩⟩⟩
    refine .bind hname fun path hpath => ?_
    refine .bind (P := fun _ => True) (.attempt (hmake path hpath)) fun made _ => ?_
    split
    · exact .pure hpath
    · exact ih
    · exact hfull

/-! ## Products during a visit -/

/-- Whether the files of all products are read alike on two disks. -/
def Undisturbed (c : Context) (directory : Place) (d d' : Disk) : Prop :=
  ∀ stage ∈ stages, SameArtifact c.repository (stage.coordinate c) directory d d'

namespace Visit

/-- What is known about a visit: its stage is one of those that store their products, under
coordinates that are read as they are written; its surroundings are those of a process with a clock
and names; and what it computes is not too long for its size to be recorded. -/
structure Proper (v : Visit) (directory : Place) : Prop where
  stage : v.stage ∈ stages
  wellFormed : ∀ stage ∈ stages, (stage.coordinate v.context).WellFormed
  regular : Regular directory v.surroundings
  names : ∀ n, '/' ∉ (v.surroundings.freshName n).toList
  size : ∀ path, v.Computes path → ∀ content,
    (v.computed path).2.disk.content? (Disk.place directory path) = some content →
      content.length < UInt64.size

/-- Whether nothing but the repository itself changes the files of products during a visit. -/
structure Quiet (v : Visit) (directory : Place) : Prop where
  opening : v.looked.1 = .ok false →
    Undisturbed v.context directory v.looked.2.disk v.opened.2.disk
  computing : ∀ path, v.Computes path →
    Undisturbed v.context directory v.opened.2.disk (v.computed path).2.disk
  closing : ∀ path, v.Computes path →
    Undisturbed v.context directory (v.written path).disk (v.closed path).disk

variable {v : Visit} {directory : Place} {path : String} {content : Bytes} {m : Metadata}

theorem Proper.coordinate (hv : v.Proper directory) : v.coordinate.WellFormed :=
  hv.wellFormed _ hv.stage

theorem looked_disk (v : Visit) : v.looked.2.disk = v.world.disk := by
  obtain ⟨n, -, hworld⟩ := Repository.contains_world (r := v.context.repository)
    (c := v.coordinate) (s := v.surroundings) (w := v.world)
  rw [looked, hworld]

theorem fetched_disk (v : Visit) : v.fetched.2.disk = v.world.disk := by
  obtain ⟨n, -, hworld⟩ := Repository.fetch_world (r := v.context.repository)
    (c := v.coordinate) (s := v.surroundings) (w := v.looked.2)
  rw [fetched, hworld, looked_disk]

theorem isFresh_of_computes (h : v.Computes path) : IsFresh v.surroundings path := by
  have hkeeps : Keeps (fun _ => True) v.surroundings
      (do makeFresh createFile (← nameBound) : Action Fault String) (IsFresh v.surroundings)
      fun _ _ => True :=
    .bind (P := fun _ => True) (.look fun _ _ => trivial) fun _ _ =>
      keeps_makeFresh (fun _ _ => .anyway) fun _ _ => trivial
  have hopened := h.2
  rw [opened] at hopened
  exact hkeeps.result trivial hopened

/-- How a visit can go: it finds the product or fails to look for it, and leaves the disk alone; it
cannot open a temporary file; or it computes the product. -/
inductive Course (v : Visit) : Prop
  | looked (hdisk : v.outcome.2.disk = v.world.disk) (hnot : v.looked.1 ≠ .ok false)
      (hfetched : ∀ path, v.outcome.1 = .ok path → v.fetched.1 = .ok path)
  | unopened (hmissing : v.looked.1 = .ok false) (hworld : v.outcome.2 = v.opened.2)
      (hfault : ∃ e, v.outcome.1 = .error e)
  | computes (path : String) (h : v.Computes path)

theorem course (v : Visit) : v.Course := by
  cases hlooked : v.looked.1 with
  | error e =>
    have houtcome := outcome_of_unknown hlooked
    refine .looked ?_ (by simp [hlooked]) fun path hpath => ?_
    · rw [houtcome, looked_disk]
    · rw [houtcome] at hpath
      cases hpath
  | ok found =>
    cases found with
    | true =>
      have houtcome := outcome_of_found hlooked
      refine .looked ?_ (by simp [hlooked]) fun path hpath => ?_
      · rw [houtcome, fetched_disk]
      · rw [houtcome] at hpath
        exact mapError_eq_ok.1 hpath
    | false =>
      cases hopened : v.opened.1 with
      | error e =>
        have houtcome := outcome_of_unopened hlooked hopened
        exact .unopened hlooked (by rw [houtcome]) ⟨_, by rw [houtcome]⟩
      | ok path => exact .computes path ⟨hlooked, hopened⟩

/-- How a visit can fail: the product cannot be looked for or not be fetched, there is no temporary
file for it, or it cannot be computed or not be stored. -/
inductive Failure (v : Visit) : Fault → Prop
  | unknown {cause : Store.Fault} (h : v.looked.1 = .error cause) :
      Failure v (.stage v.stage.name (.store cause))
  | unfetched {cause : Store.Fault} (h : v.fetched.1 = .error cause)
      (hworld : v.outcome.2 = v.fetched.2) : Failure v (.stage v.stage.name (.store cause))
  | unopened {cause : Fault} (h : v.opened.1 = .error cause)
      (hworld : v.outcome.2 = v.opened.2) : Failure v (.stage v.stage.name cause)
  | uncomputed {path : String} {cause : Fault} (hcomputes : v.Computes path)
      (h : (v.computed path).1 = .error cause)
      (hreadings : v.outcome.2.readings = (v.computed path).2.readings) :
      Failure v (.stage v.stage.name cause)
  | unstored {path : String} {cause : Store.Fault} (h : (v.stored path).1 = .error cause) :
      Failure v (.stage v.stage.name (.store cause))

theorem failure {e : Fault} (he : v.outcome.1 = .error e) : v.Failure e := by
  cases hlooked : v.looked.1 with
  | error cause =>
    rw [outcome_of_unknown hlooked] at he
    exact Except.error.inj he ▸ .unknown hlooked
  | ok found =>
    cases found with
    | true =>
      have houtcome := outcome_of_found hlooked
      cases hfetched : v.fetched.1 with
      | ok path =>
        rw [houtcome, hfetched] at he
        cases he
      | error cause =>
        rw [houtcome, hfetched] at he
        exact Except.error.inj he ▸ .unfetched hfetched (by rw [houtcome])
    | false =>
      cases hopened : v.opened.1 with
      | error cause =>
        have houtcome := outcome_of_unopened hlooked hopened
        rw [houtcome] at he
        exact Except.error.inj he ▸ .unopened hopened (by rw [houtcome])
      | ok path =>
        have hcomputes : v.Computes path := ⟨hlooked, hopened⟩
        have houtcome := outcome_of_computes hcomputes
        cases hcomputed : (v.computed path).1 with
        | error cause =>
          rw [houtcome, hcomputed] at he
          refine Except.error.inj he ▸ .uncomputed hcomputes hcomputed ?_
          rw [houtcome]
          dsimp only
          rw [closed_readings, written_of_error hcomputed]
        | ok =>
          cases hstored : (v.stored path).1 with
          | ok result =>
            rw [houtcome, hcomputed, hstored] at he
            cases he
          | error cause =>
            rw [houtcome, hcomputed, hstored] at he
            exact Except.error.inj he ▸ .unstored hstored

/-- The file that a product is computed into is none that the repository keeps for it. -/
theorem storable (hv : v.Proper directory) (h : v.Computes path) :
    Storable v.coordinate v.context.repository.root directory path (v.computed path).2.disk := by
  have hnot : Disk.place directory path ∉ filePlaces v.context.repository v.coordinate directory :=
    not_mem_filePlaces hv.stage hv.coordinate hv.names (isFresh_of_computes h)
  simp only [filePlaces, List.mem_cons, List.not_mem_nil, or_false, not_or] at hnot
  exact ⟨hnot.2.1, hnot.2.2, hv.size path h⟩

/-- A visit of one stage leaves the products of the others alone. -/
theorem keeps_other {stage : Stage} (hv : v.Proper directory) (hquiet : v.Quiet directory)
    (hstage : stage ∈ stages) (hne : stage ≠ v.stage)
    (h : Present v.context.repository (stage.coordinate v.context) directory v.world.disk content
      m) :
    Present v.context.repository (stage.coordinate v.context) directory v.outcome.2.disk content
      m := by
  have hlooked := h
  rw [← v.looked_disk] at hlooked
  cases v.course with
  | looked hdisk => rwa [hdisk]
  | unopened hmissing hworld =>
    rw [hworld]
    exact hlooked.congr (hquiet.opening hmissing stage hstage)
  | computes path hcomputes =>
    have hopened := hlooked.congr (hquiet.opening hcomputes.1 stage hstage)
    have hcomputed := hopened.congr (hquiet.computing path hcomputes stage hstage)
    have hwritten : Present v.context.repository (stage.coordinate v.context) directory
        (v.written path).disk content m := by
      cases hresult : (v.computed path).1 with
      | ok =>
        rw [written_of_ok hresult, stored]
        refine hcomputed.store_other hv.coordinate hv.regular ?_
        exact (apart_of_mem hstage hv.stage hv.wellFormed).resolve_left hne
      | error e => rwa [written_of_error hresult]
    rw [outcome_of_computes hcomputes]
    dsimp only
    exact hwritten.congr (hquiet.closing path hcomputes stage hstage)

/-- When a visit ends well the product is there. -/
theorem present_of_ok {result : String} (hv : v.Proper directory) (hquiet : v.Quiet directory)
    (h : v.outcome.1 = .ok result) :
    result = v.coordinate.contentPath v.context.repository.root
      ∧ ∃ content m,
        Present v.context.repository v.coordinate directory v.outcome.2.disk content m := by
  cases v.course with
  | looked hdisk _ hfetched =>
    have hresult := hfetched result h
    rw [fetched] at hresult
    obtain ⟨hpath, content, m, hpresent⟩ := Repository.present_of_fetch hresult
    rw [looked_disk, hv.regular.directory] at hpresent
    exact ⟨hpath, content, m, hdisk ▸ hpresent⟩
  | unopened _ _ hfault =>
    obtain ⟨e, he⟩ := hfault
    rw [h] at he
    cases he
  | computes path hcomputes =>
    have houtcome := outcome_of_computes hcomputes
    rw [houtcome] at h
    dsimp only at h
    split at h
    · rename_i hcomputed
      have hresult := mapError_eq_ok.1 h
      rw [stored] at hresult
      obtain ⟨hpath, content, m, hpresent⟩ := present_of_store hv.coordinate.parse_text hv.regular
        (storable hv hcomputes) hresult
      have hwritten : Present v.context.repository v.coordinate directory (v.written path).disk
          content m := by
        rw [written_of_ok hcomputed, stored]
        exact hpresent
      refine ⟨hpath, content, m, ?_⟩
      rw [houtcome]
      dsimp only
      exact hwritten.congr (hquiet.closing path hcomputes _ hv.stage)
    · cases h

/-- A product that is there, and whose time is not over when the clock is read, is found; nothing
is done but reading the clock, which is read twice for a snapshot. -/
theorem of_alive (hdirectory : v.surroundings.directory = directory)
    (h : Present v.context.repository v.coordinate directory v.world.disk content m)
    (halive : v.coordinate.isSnapshot = true → ∀ n < v.world.readings + 2,
      m.age (v.surroundings.clock n) < v.context.repository.lifetime) :
    v.outcome = (.ok (v.coordinate.contentPath v.context.repository.root),
        { v.world with
          readings := v.world.readings + if v.coordinate.isSnapshot then 2 else 0 })
      ∧ ∀ path, ¬ v.Computes path := by
  rw [← hdirectory] at h
  have hlooked : v.looked = (.ok true, { v.world with
      readings := v.world.readings + if v.coordinate.isSnapshot then 1 else 0 }) := by
    rw [looked, h.contains]
    split
    · rename_i hsnapshot
      rw [decide_eq_true (halive hsnapshot _ (Nat.lt_add_of_pos_right (by decide)))]
    · rfl
  have hfetched : v.fetched = (.ok (v.coordinate.contentPath v.context.repository.root),
      { v.world with
        readings := v.world.readings + if v.coordinate.isSnapshot then 2 else 0 }) := by
    have hthere := h
    rw [← v.looked_disk] at hthere
    rw [fetched, hthere.fetch, hlooked]
    split
    · rename_i hsnapshot
      rw [if_pos (halive hsnapshot _ (Nat.lt_succ_self _))]
    · rfl
  constructor
  · rw [outcome_of_found (congrArg Prod.fst hlooked), hfetched]
    rfl
  · rintro path ⟨hmissing, -⟩
    rw [hlooked] at hmissing
    cases hmissing

/-- A product that is there for good is found, and nothing is done. -/
theorem of_present (hv : v.Proper directory) (hsnapshot : v.coordinate.isSnapshot = false)
    (h : Present v.context.repository v.coordinate directory v.world.disk content m) :
    v.outcome = (.ok (v.coordinate.contentPath v.context.repository.root), v.world)
      ∧ ∀ path, ¬ v.Computes path := by
  have hfound := of_alive hv.regular.directory h fun h =>
    absurd (hsnapshot.symm.trans h) (by decide)
  rwa [hsnapshot] at hfound

/-- When the product was computed and stored, the visit ends well. -/
theorem ok_of_succeeds {result : String} (h : v.Succeeds path)
    (hstored : (v.stored path).1 = .ok result) : v.outcome.1 = .ok result := by
  rw [outcome_of_computes h.1, h.2, hstored]
  rfl

/-- When the product could not be computed it is not there. -/
theorem absent_of_failed {e : Fault} {s : Surroundings} (hv : v.Proper directory)
    (hquiet : v.Quiet directory) (hsnapshot : v.coordinate.isSnapshot = false)
    (hcomputes : v.Computes path) (hfailed : (v.computed path).1 = .error e)
    (hs : s.directory = directory) :
    (v.context.repository.contains v.coordinate).perform s v.outcome.2
      = (.ok false, v.outcome.2) := by
  have hmissing : v.context.repository.found v.coordinate directory v.looked.2.disk
      = .ok none := by
    have hlooked := hcomputes.1
    rw [looked, Repository.perform_contains, hv.regular.directory] at hlooked
    rw [looked_disk]
    rcases hfound : v.context.repository.found v.coordinate directory v.world.disk with e | _ | m
    · rw [hfound] at hlooked
      cases hlooked
    · rfl
    · rw [hfound] at hlooked
      simp [hsnapshot] at hlooked
  have hopened := hquiet.opening hcomputes.1 _ hv.stage
  have hcomputed := hquiet.computing path hcomputes _ hv.stage
  have hclosed := hquiet.closing path hcomputes _ hv.stage
  rw [written_of_error hfailed] at hclosed
  have hstill : v.context.repository.found v.coordinate directory v.outcome.2.disk = .ok none := by
    rw [outcome_of_computes hcomputes]
    exact hclosed.found_eq.trans (hcomputed.found_eq.trans (hopened.found_eq.trans hmissing))
  rw [Repository.perform_contains, hs, hstill]

end Visit

end Jarwright.Pipeline
