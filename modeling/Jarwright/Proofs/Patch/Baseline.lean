import Jarwright.Proofs.Machine.Removal
import Jarwright.Proofs.Patch.Unversioned

/-!
# What a failed baseline leaves behind

A baseline takes five steps, one of which is not in the hands of the workflow. When one of them
fails, what was begun is taken away: the directory of the sources, if it was made for the baseline,
and otherwise the repository in it. So the sources have no repository then, as before, and the next
build can begin anew. Only a file in that place is not taken away.

* `Workflow.ends_baselineSteps`: a baseline is made by all five steps in their order;
* `Workflow.ends_discardBaseline`: what taking away comes to;
* `Workflow.Undone`: what is left of a failed baseline;
* `Workflow.made_makeBaseline`: how making a baseline ends.
-/

namespace Jarwright.Machine

/-- The empty path leads nowhere, so no program can be started there. -/
def Surroundings.StartsSomewhere (s : Surroundings) : Prop :=
  ∀ calls c limits d, c.directory = .text "" → s.run calls c limits d = (none, d)

end Jarwright.Machine

namespace Jarwright.Patch

open Machine Machine.Action

variable {ε : Type} {s : Surroundings} {world failed world' : World}

/-- Whether a command with these arguments was run and has succeeded in time. -/
def Git.Succeeds (g : Git) (arguments : List String) (e : Event) : Prop :=
  e.call.command = g.command arguments ∧ (g.answer? e.call).isSome = true

namespace Workflow

variable {w : Workflow} {wrap : Fault → ε} {populate : String → Action ε Unit}

/-! ## The steps -/

/-- A command that has to succeed and whose output does not matter. -/
def baselineCommand (w : Workflow) (wrap : Fault → ε) (arguments : List String) :
    Action ε Unit := do
  let _ ← mapFault wrap (w.git.run arguments)

/-- The steps in which a baseline is made. -/
def baselineSteps (w : Workflow) (wrap : Fault → ε) (populate : String → Action ε Unit) :
    Action ε Unit := do
  w.baselineCommand wrap ["init"]
  populate w.sourceDirectory
  w.baselineCommand wrap ["add", "-A"]
  w.baselineCommand wrap ["commit", "-q", "-m", baselineTitle]
  w.baselineCommand wrap ["branch", baselineBranch]

theorem makeBaseline_eq (w : Workflow) (wrap : Fault → ε) (populate : String → Action ε Unit) :
    w.makeBaseline wrap populate = (do
      if ← w.git.isRepository then return false
      let madeDirectory := !(← holds w.sourceDirectory)
      mapFault (fun _ => wrap (.file w.sourceDirectory)) (makeDirectories w.sourceDirectory)
      match ← attempt (w.baselineSteps wrap populate) with
      | .ok () => return true
      | .error e =>
        w.discardBaseline madeDirectory
        throw e) := rfl

/-- Whether all steps have succeeded, one after the other. -/
def Completed (w : Workflow) (populate : String → Action ε Unit) (s : Surroundings)
    (world world' : World) : Prop :=
  ∃ init filled add commit branch,
    w.git.Succeeds ["init"] init
      ∧ (populate w.sourceDirectory).perform s (world.after init) = (.ok (), filled)
      ∧ w.git.Succeeds ["add", "-A"] add
      ∧ w.git.Succeeds ["commit", "-q", "-m", baselineTitle] commit
      ∧ w.git.Succeeds ["branch", baselineBranch] branch
      ∧ world' = ((filled.after add).after commit).after branch

theorem ends_baselineCommand {arguments : List String} {Q : Unit → World → Prop}
    {E : ε → World → Prop} (hok : ∀ e, w.git.Succeeds arguments e → Q () (world.after e))
    (herror : ∀ e world', E e world') :
    Ends (w.baselineCommand wrap arguments) s world Q E :=
  .bind (.mapFault (Git.ends_run
    (fun e he text htext => .pure (hok e ⟨he, by rw [htext]; rfl⟩))
    fun _ _ _ _ => herror _ _))

/-- Where no program can be started, the first step fails and changes nothing. -/
theorem ends_baselineSteps_nowhere (wrap : Fault → ε) (populate : String → Action ε Unit)
    (world : World) (hstart : s.StartsSomewhere) (hempty : w.sourceDirectory = "") :
    Ends (w.baselineSteps wrap populate) s world (fun _ _ => False)
      fun _ world' => world'.disk = world.disk := by
  have hnone (limits : Limits) :
      s.run world.calls (w.git.command ["init"]) limits world.disk = (none, world.disk) :=
    hstart _ _ _ _ (congrArg Argument.text hempty)
  refine .bind (.bind (.mapFault (.bind (.mapFault (.bind (.run ?_ ?_))))))
  · intro x d hrun
    rw [hnone] at hrun
    cases hrun
  · intro d hrun
    rw [hnone] at hrun
    cases hrun
    rfl

theorem ends_baselineSteps (w : Workflow) (wrap : Fault → ε) (populate : String → Action ε Unit)
    (world : World) (hstart : s.StartsSomewhere) :
    Ends (w.baselineSteps wrap populate) s world (fun _ => w.Completed populate s world)
      fun _ world' => w.sourceDirectory = "" → world'.disk = world.disk := by
  by_cases hempty : w.sourceDirectory = ""
  · exact (ends_baselineSteps_nowhere wrap populate world hstart hempty).mono
      (fun _ _ h => h.elim) fun _ _ hdisk _ => hdisk
  have hnamed (e : ε) (world' : World) : w.sourceDirectory = "" → world'.disk = world.disk :=
    fun h => absurd h hempty
  refine .bind (ends_baselineCommand (fun init hinit => ?_) hnamed)
  refine .bind (.of_perform (fun _ filled hfilled => ?_) fun e world' _ => hnamed e world')
  refine .bind (ends_baselineCommand (fun add hadd => ?_) hnamed)
  refine .bind (ends_baselineCommand (fun commit hcommit => ?_) hnamed)
  refine ends_baselineCommand (fun branch hbranch => ?_) hnamed
  exact ⟨init, filled, add, commit, branch, hinit, hfilled, hadd, hcommit, hbranch, rfl⟩

/-! ## Taking away -/

/-- What a failed baseline leaves behind. -/
def leftover (w : Workflow) (madeDirectory : Bool) : String :=
  if madeDirectory then w.sourceDirectory else w.git.directory

theorem discardBaseline_eq (w : Workflow) (madeDirectory : Bool) :
    (w.discardBaseline madeDirectory : Action ε Unit) = (do
      if ← holds (w.leftover madeDirectory) then
        let _ ← attempt (removeTree (w.leftover madeDirectory))) := by
  cases madeDirectory <;> rfl

/-- Whether what was left behind is taken away, with nothing else changed and nothing run. -/
structure Discarded (w : Workflow) (madeDirectory : Bool) (s : Surroundings)
    (failed world' : World) : Prop where
  there : failed.disk.holds s.directory (w.leftover madeDirectory) = true
  disk : world'.disk
    = failed.disk.eraseBelow (Disk.place s.directory (w.leftover madeDirectory))
  calls : world'.calls = failed.calls

theorem ends_discardBaseline (w : Workflow) (madeDirectory : Bool) (s : Surroundings)
    (failed : World) {E : ε → World → Prop} :
    Ends (w.discardBaseline madeDirectory) s failed
      (fun _ world' => w.Discarded madeDirectory s failed world'
        ∨ world' = failed ∧ (failed.disk.holds s.directory (w.leftover madeDirectory) = false
          ∨ failed.disk.isFile s.directory (w.leftover madeDirectory) = true)) E := by
  rw [discardBaseline_eq]
  refine .bind (.holds ?_)
  split
  · rename_i hthere
    refine .bind (.attempt (.step (fun d hremove => .pure ?_) fun e hremove => .pure ?_))
    · exact .inl ⟨hthere, Disk.removeTree_eq_ok hremove, rfl⟩
    · rcases Disk.removeTree_of_holds hthere with hgone | ⟨hfile, -⟩
      · cases hremove.symm.trans hgone
      · exact .inr ⟨rfl, .inr hfile⟩
  · rename_i hthere
    exact .pure (.inr ⟨rfl, .inl (by simpa using hthere)⟩)

/-- What is left of a baseline that has failed in a world, when what it left behind is gone: the
sources have no repository, and no directory if they had none before. Everything that does not
belong to what was left behind is as the failure left it, and nothing was run. -/
structure Undone (w : Workflow) (s : Surroundings) (world failed world' : World) : Prop where
  repository : world'.disk.holds s.directory w.git.directory = false
  state : w.state.perform s world' = (.ok .uninitialized, world')
  directory : world.disk.holds s.directory w.sourceDirectory = false →
    world'.disk.holds s.directory w.sourceDirectory = false
  rest : ∀ p, ¬ Disk.place s.directory (w.leftover !world.disk.holds s.directory w.sourceDirectory)
      <+: p → world'.disk.get? p = failed.disk.get? p
  calls : world'.calls = failed.calls

theorem isName_git : Path.IsName ".git" := ⟨by decide, by decide, by decide⟩

theorem undone_of_repository (hrepository : world'.disk.holds s.directory w.git.directory = false)
    (hdirectory : world.disk.holds s.directory w.sourceDirectory = false →
      world'.disk.holds s.directory w.sourceDirectory = false)
    (hrest : ∀ p, ¬ Disk.place s.directory
        (w.leftover !world.disk.holds s.directory w.sourceDirectory) <+: p →
      world'.disk.get? p = failed.disk.get? p)
    (hcalls : world'.calls = failed.calls) : w.Undone s world failed world' := by
  refine ⟨hrepository, ?_, hdirectory, hrest, hcalls⟩
  rcases (ends_state_unversioned hrepository).perform_cases with
    ⟨_, _, hrun, rfl, rfl⟩ | ⟨_, _, -, h⟩
  · exact hrun
  · exact h.elim

theorem Undone.of_discarded
    (h : w.Discarded (!world.disk.holds s.directory w.sourceDirectory) s failed world') :
    w.Undone s world failed world' := by
  obtain ⟨hthere, hdisk, hcalls⟩ := h
  have hrest (p : Place) (hp : ¬ Disk.place s.directory
      (w.leftover !world.disk.holds s.directory w.sourceDirectory) <+: p) :
      world'.disk.get? p = failed.disk.get? p := by
    rw [hdisk, Disk.get?_eraseBelow, if_neg fun h => hp h.1]
  refine undone_of_repository ?_ (fun hmissing => ?_) hrest hcalls
  · rw [hdisk]
    refine Disk.not_holds_eraseBelow_join isName_git ?_
    cases hheld : world.disk.holds s.directory w.sourceDirectory with
    | true => exact List.prefix_refl _
    | false =>
      -- the repository is in the directory that was made
      rw [Disk.place_join isName_git]
      exact List.prefix_append _ _
  · rw [hmissing] at hdisk
    rw [hdisk]
    exact Disk.not_holds_eraseBelow hmissing

/-- Where nothing was left behind there is nothing to be taken away. -/
theorem Undone.of_missing
    (hsource : w.sourceDirectory = "" →
      failed.disk.holds s.directory w.git.directory = false)
    (h : failed.disk.holds s.directory
      (w.leftover !world.disk.holds s.directory w.sourceDirectory) = false) :
    w.Undone s world failed failed := by
  cases hheld : world.disk.holds s.directory w.sourceDirectory with
  | true =>
    rw [hheld] at h
    exact undone_of_repository h (fun hmissing => by rw [hheld] at hmissing; cases hmissing)
      (fun _ _ => rfl) rfl
  | false =>
    rw [hheld] at h
    refine undone_of_repository ?_ (fun _ => h) (fun _ _ => rfl) rfl
    by_cases hempty : w.sourceDirectory = ""
    · exact hsource hempty
    · by_contra hrepository
      have hdirectory : failed.disk.holds s.directory w.sourceDirectory = true :=
        Disk.holds_of_holds_join hempty isName_git (Bool.not_eq_false _ ▸ hrepository)
      cases h.symm.trans hdirectory

/-! ## How making a baseline ends -/

/-- The world once there is a directory for the sources, which changes no file. -/
def opened (w : Workflow) (s : Surroundings) (world : World) : World :=
  ((makeDirectories w.sourceDirectory).perform s world).2

theorem opened_of_empty (h : w.sourceDirectory = "") :
    (w.opened s world).disk = world.disk := by
  unfold opened
  rw [h]
  rfl

/-- How making a baseline can end. -/
inductive Made (w : Workflow) (wrap : Fault → ε) (populate : String → Action ε Unit)
    (s : Surroundings) (world : World) : Except ε Bool → World → Prop
  /-- There is a repository, and it is left alone. -/
  | found (hfound : world.disk.holds s.directory w.git.directory = true) :
      Made w wrap populate s world (.ok false) world
  /-- There is no directory for the sources. -/
  | noDirectory (hnone : world.disk.holds s.directory w.git.directory = false)
      (hfiles : world.disk.SameFiles (w.opened s world).disk)
      (hcalls : (w.opened s world).calls = world.calls) :
      Made w wrap populate s world (.error (wrap (.file w.sourceDirectory))) (w.opened s world)
  /-- All steps have succeeded. -/
  | complete {world' : World} (hnone : world.disk.holds s.directory w.git.directory = false)
      (hsteps : w.Completed populate s (w.opened s world) world') :
      Made w wrap populate s world (.ok true) world'
  /-- A step has failed, and what it left behind is taken away. -/
  | undone {e : ε} {failed world' : World}
      (hnone : world.disk.holds s.directory w.git.directory = false)
      (hsteps : (w.baselineSteps wrap populate).perform s (w.opened s world) = (.error e, failed))
      (hundone : w.Undone s world failed world') :
      Made w wrap populate s world (.error e) world'
  /-- A step has failed, and what it left behind is a file and cannot be taken away. -/
  | stuck {e : ε} {failed : World}
      (hnone : world.disk.holds s.directory w.git.directory = false)
      (hsteps : (w.baselineSteps wrap populate).perform s (w.opened s world) = (.error e, failed))
      (hfile : failed.disk.isFile s.directory
        (w.leftover !world.disk.holds s.directory w.sourceDirectory) = true) :
      Made w wrap populate s world (.error e) failed

theorem ends_makeBaseline (w : Workflow) (wrap : Fault → ε) (populate : String → Action ε Unit)
    (hstart : s.StartsSomewhere) :
    Ends (w.makeBaseline wrap populate) s world
      (fun made => w.Made wrap populate s world (.ok made))
      fun e => w.Made wrap populate s world (.error e) := by
  obtain ⟨hsame, hcalls⟩ := Action.perform_makeDirectories (s := s) (w := world) w.sourceDirectory
  rw [makeBaseline_eq]
  refine .bind (.holds ?_)
  split
  · rename_i hfound
    exact .pure (.found hfound)
  rename_i hfound
  have hnone : world.disk.holds s.directory w.git.directory = false := by simpa using hfound
  refine .bind (.holds ?_)
  refine .bind (.mapFault (.of_perform (fun _ world₀ h₀ => ?_) fun e world₀ h₀ => ?_))
  · obtain rfl : w.opened s world = world₀ := congrArg Prod.snd h₀
    refine .bind (.attempt (((w.ends_baselineSteps wrap populate _ hstart).and
      (.of_perform (fun _ _ => id) fun _ _ => id)).mono ?_ ?_))
    · exact fun _ _ hsteps => .pure (.complete hnone hsteps.1)
    · rintro e failed ⟨hnowhere, hsteps⟩
      have hsource (hempty : w.sourceDirectory = "") :
          failed.disk.holds s.directory w.git.directory = false := by
        rw [hnowhere hempty, opened_of_empty hempty, hnone]
      refine .bind ((w.ends_discardBaseline _ s failed).mono ?_ fun _ _ h => h)
      rintro - world' (hdiscarded | ⟨rfl, hmissing | hfile⟩)
      · exact .throw (.undone hnone hsteps (.of_discarded hdiscarded))
      · exact .throw (.undone hnone hsteps (.of_missing hsource hmissing))
      · exact .throw (.stuck hnone hsteps hfile)
  · obtain rfl : w.opened s world = world₀ := congrArg Prod.snd h₀
    exact .noDirectory hnone hsame hcalls

/-- A repository that is there is left alone, and nothing is run. Without one the baseline is made
by all five steps in their order, whatever git and the filling of the directory do to the disk; or
one of the steps fails, and then the sources have no repository afterwards, nor a directory if they
had none, while everything else is as that step left it. Only a file that stands where something was
to be taken away stays. -/
theorem made_makeBaseline (w : Workflow) (wrap : Fault → ε) (populate : String → Action ε Unit)
    (s : Surroundings) (world : World) (hstart : s.StartsSomewhere) :
    w.Made wrap populate s world ((w.makeBaseline wrap populate).perform s world).1
      ((w.makeBaseline wrap populate).perform s world).2 :=
  Ends.perform_result (R := w.Made wrap populate s world) (ends_makeBaseline w wrap populate hstart)

/-- A git that makes a repository of `sources`. -/
def initialGit : Surroundings :=
  { silentGit with
    run := fun _ c _ d =>
      if c.directory = .text "" then (none, d)
      else (some (ending 0 ""), d.put ["sources", ".git"] .directory) }

/-- What comes of a baseline whose sources cannot be had, where there is nothing yet. -/
def failingRun : Except Fault Bool × World :=
  (sampleWorkflow.makeBaseline id fun _ => throw .gitUnavailable).perform initialGit
    (.ofDisk .empty)

/-- Git has made a repository, and neither it nor the directory is left. -/
theorem made_makeBaseline_failing :
    initialGit.StartsSomewhere
      ∧ sampleWorkflow.Made id (fun _ => throw .gitUnavailable) initialGit (.ofDisk .empty)
        failingRun.1 failingRun.2
      ∧ failingRun.2.calls.map Call.command = [sampleWorkflow.git.command ["init"]]
      ∧ failingRun.2.disk = .empty := by
  have hstart : initialGit.StartsSomewhere := fun _ _ _ _ hempty => if_pos hempty
  exact ⟨hstart, made_makeBaseline sampleWorkflow id _ initialGit (.ofDisk .empty) hstart,
    by decide +kernel, by decide +kernel⟩

end Workflow

end Jarwright.Patch
