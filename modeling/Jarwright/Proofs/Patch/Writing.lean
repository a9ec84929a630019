import Jarwright.Proofs.Patch.Commands

/-!
# What writing patches takes away

The patch files are written anew as a whole: those that are there are removed one after the other,
and only then git is asked for new ones. So a fault may leave fewer patch files than there were.
What is lost then is said by `Without`.

* `Workflow.ends_removeAll`: removing files one after the other;
* `Workflow.ends_writePatches`: how writing patches ends;
* `Workflow.written_writePatches`: git is run when all old patch files are gone and nothing else has
  changed, and not before;
* `Workflow.writePatches_loses_patches`: so a git that fails leaves no patch file behind.
-/

namespace Jarwright.Patch.Workflow

open Machine

variable {w : Workflow} {s : Surroundings} {world : World} {directory : Place} {d d' : Disk}

/-- Whether the files at some paths are gone from a disk and all others have their content. -/
def Without (directory : Place) (d : Disk) (gone : List String) (d' : Disk) : Prop :=
  ∀ q, d'.content? q = if q ∈ gone.map (Disk.place directory) then none else d.content? q

theorem Without.of_sameFiles (h : d.SameFiles d') : Without directory d [] d' := by
  intro q
  rw [h q]
  simp

theorem Without.remove {gone : List String} {path : String} {d₁ : Disk}
    (h : Without directory d gone d₁) (hremove : d₁.remove directory path = .ok d') :
    Without directory d (gone ++ [path]) d' := by
  intro q
  rw [Disk.content?_remove hremove q, h q]
  by_cases hq : q = Disk.place directory path
  · simp [hq]
  · simp [hq]

/-- Files are removed one after the other, until one cannot be removed. -/
theorem ends_removeAll {files gone : List String}
    (h : Without s.directory d gone world.disk) :
    Ends (forIn files PUnit.unit fun patch _ => do
        Action.mapFault (fun _ => Fault.file patch) (removeFile patch)
        pure (ForInStep.yield PUnit.unit))
      s world
      (fun _ world' => Without s.directory d (gone ++ files) world'.disk
        ∧ world'.calls = world.calls)
      fun fault world' => ∃ removed path left, files = removed ++ path :: left
        ∧ fault = .file path ∧ Without s.directory d (gone ++ removed) world'.disk
        ∧ world'.calls = world.calls := by
  induction files generalizing gone world with
  | nil =>
    rw [List.forIn_nil]
    exact .pure ⟨by simpa using h, rfl⟩
  | cons file files ih =>
    rw [List.forIn_cons]
    refine .bind (.bind (.mapFault (.step (fun d' hremove => .pure ?_) fun e he => ?_)))
    · refine (ih (h.remove hremove)).mono ?_ ?_
      · rintro - world' ⟨hwithout, hcalls⟩
        exact ⟨by simpa using hwithout, hcalls⟩
      · rintro - world' ⟨removed, path, left, rfl, rfl, hwithout, hcalls⟩
        exact ⟨file :: removed, path, left, rfl, rfl, by simpa using hwithout, hcalls⟩
    · exact ⟨[], file, files, rfl, rfl, by simpa using h, rfl⟩

/-- The command that writes the patch files. -/
def formatCommand (w : Workflow) : Command :=
  w.git.command ["format-patch", "--minimal", "--no-stat", "-N", "-o", w.patchDirectory,
    baselineBranch]

/-- The world once there is a directory for the patch files, which changes no file. -/
def prepared (w : Workflow) (s : Surroundings) (world : World) : World :=
  ((makeDirectories w.patchDirectory).perform s world).2

theorem prepared_spec (w : Workflow) (s : Surroundings) (world : World) :
    world.disk.SameFiles (w.prepared s world).disk ∧ (w.prepared s world).calls = world.calls :=
  Action.perform_makeDirectories w.patchDirectory

/-- The patch files that there are when there is a directory for them. -/
def oldPatches (w : Workflow) (s : Surroundings) (world : World) : List String :=
  w.patchFiles s.directory (w.prepared s world).disk

/-- How writing patches can end. -/
inductive Written (w : Workflow) (s : Surroundings) (world : World) :
    Except Fault (List String) → World → Prop
  /-- There is no directory for them. -/
  | noDirectory {world' : World} (hfiles : world.disk.SameFiles world'.disk)
      (hcalls : world'.calls = world.calls) :
      Written w s world (.error (.file w.patchDirectory)) world'
  /-- An old patch file cannot be removed; those before it are gone. -/
  | notRemoved {world' : World} {removed left : List String} {path : String}
      (hold : w.oldPatches s world = removed ++ path :: left)
      (hfiles : Without s.directory world.disk removed world'.disk)
      (hcalls : world'.calls = world.calls) :
      Written w s world (.error (.file path)) world'
  /-- All old patch files are gone, and git is run. -/
  | ran {result : Except Fault (List String)} {world₁ : World} {events : List Event}
      (hfiles : Without s.directory world.disk (w.oldPatches s world) world₁.disk)
      (hcalls : world₁.calls = world.calls) (hrun : events ≠ [])
      (hkinds : ∀ e ∈ events, w.git.Asks e.call.command ∨ e.call.command = w.formatCommand)
      (hresult : ∀ files, result = .ok files →
        files = w.patchFiles s.directory (world₁.following events).disk) :
      Written w s world result (world₁.following events)

theorem ends_writePatches (w : Workflow) (s : Surroundings) (world : World) :
    Ends w.writePatches s world (fun files => w.Written s world (.ok files))
      fun fault => w.Written s world (.error fault) := by
  obtain ⟨hsame, hcalls⟩ := w.prepared_spec s world
  refine .bind (.mapFault (.of_perform (fun _ world₀ h₀ => ?_) fun e world₀ h₀ => ?_))
  · obtain rfl : w.prepared s world = world₀ := congrArg Prod.snd h₀
    refine .bind (ends_patches (.bind ((ends_removeAll (.of_sameFiles hsame)).mono ?_ ?_)))
    · rintro - world₁ ⟨hfiles, hcalls₁⟩
      -- all old patch files are gone, and only git is run from here on
      have hwritten (result : Except Fault (List String)) (events : List Event) :=
        @Written.ran w s world result world₁ events hfiles (hcalls₁.trans hcalls)
      refine .bind ((ends_state w s world₁).mono ?_ ?_)
      · rintro state - ⟨events, rfl, hasks, -⟩
        have hkinds {e : Event} (he : e.call.command = w.formatCommand) : ∀ e' ∈ e :: events,
            w.git.Asks e'.call.command ∨ e'.call.command = w.formatCommand :=
          List.forall_mem_cons.2 ⟨.inr he, fun e he => .inl (hasks e he)⟩
        refine .bind (Git.ends_run (fun e he _ _ => ends_patches ?_) fun e he _ _ => ?_)
        · exact hwritten _ (e :: events) (by simp) (hkinds he) fun _ h => (Except.ok.inj h).symm
        · exact hwritten _ (e :: events) (by simp) (hkinds he) fun _ h => by cases h
      · rintro fault - ⟨events, rfl, hsome, hasks, -⟩
        exact hwritten _ events hsome (fun e he => .inl (hasks e he)) fun _ h => by cases h
    · rintro - world₁ ⟨removed, path, left, hold, rfl, hfiles, hcalls₁⟩
      exact .notRemoved hold hfiles (hcalls₁.trans hcalls)
  · obtain rfl : w.prepared s world = world₀ := congrArg Prod.snd h₀
    exact .noDirectory hsame hcalls

/-- Writing patches removes the old ones in their order, and leaves all other files alone; git is
only run when all of them are gone. A fault that comes before that names what could not be made or
removed, and leaves everything that was not removed yet as it was; one that comes later finds
nothing left of the old patches. -/
theorem written_writePatches (w : Workflow) (s : Surroundings) (world : World) :
    w.Written s world (w.writePatches.perform s world).1 (w.writePatches.perform s world).2 := by
  obtain ⟨hok, herror⟩ := (w.ends_writePatches s world).perform
  cases hresult : (w.writePatches.perform s world).1 with
  | ok files => exact hok files hresult
  | error e => exact herror e hresult

/-- A git that cannot write patch files. -/
def brokenGit (c : Command) : Execution :=
  if .text "format-patch" ∈ c.arguments then ending 1 "" else ending 0 ""

/-- What comes of writing patch files with it. -/
def brokenRun : Except Fault (List String) × World :=
  sampleWorkflow.writePatches.perform (answering brokenGit) sampleWorld

/-- A fault does not mean that the patch files are still there. -/
theorem writePatches_loses_patches :
    ¬ ∀ (w : Workflow) (s : Surroundings) (world : World) (fault : Fault),
      (w.writePatches.perform s world).1 = .error fault →
      w.patchFiles s.directory (w.writePatches.perform s world).2.disk
          = w.patchFiles s.directory world.disk
        ∧ ∀ path ∈ w.patchFiles s.directory world.disk,
          (w.writePatches.perform s world).2.disk.read s.directory path
            = world.disk.read s.directory path := by
  intro h
  have hrun : brokenRun.1.toOption = none
      ∧ sampleWorkflow.patchFiles [] brokenRun.2.disk = []
      ∧ sampleWorkflow.patchFiles [] sampleWorld.disk = ["patches/0001.patch"] := by
    decide +kernel
  obtain ⟨hfails, hgone, hold⟩ := hrun
  cases hresult : brokenRun.1 with
  | ok files =>
    rw [hresult] at hfails
    cases hfails
  | error fault =>
    have hsame := (h sampleWorkflow (answering brokenGit) sampleWorld fault hresult).1
    have hlost := hgone.symm.trans (hsame.trans hold)
    cases hlost

end Jarwright.Patch.Workflow
