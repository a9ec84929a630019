import Jarwright.Proofs.Patch.Safeguard
import Jarwright.Proofs.Patch.Writing

/-!
# Sources without a repository

Where the sources have no repository of their own, git looks for one above them, and whatever changes
the working tree or its history changes that one. The check has nothing to object to such sources,
and settling a patch refuses them. Applying patches relies on the check and on nothing else, so it
begins by giving up a patch and setting back the tree of whoever lives above.

* `Workflow.ends_state_unversioned`: the state is known without git;
* `Workflow.not_rewrites_of_written`: writing patches changes neither working tree nor history,
  with a repository or without;
* `Workflow.SetBack`: what applying patches does first;
* `Workflow.rewrites_unversioned`: of all that can be done with the sources nothing but applying
  patches rewrites anything, and that does it whenever there is a directory of patches.
-/

namespace Jarwright.Patch.Workflow

open Machine

variable {w : Workflow} {s : Surroundings} {world : World}

/-! ## What asks for a repository -/

section Unversioned

variable (hnone : world.disk.holds s.directory w.git.directory = false)

include hnone

theorem ends_state_unversioned :
    Ends w.state s world (fun state world' => state = .uninitialized ∧ world' = world)
      fun _ _ => False := by
  refine .bind (.holds ?_)
  rw [hnone]
  exact .pure ⟨rfl, rfl⟩

/-- The check takes sources without a repository for unchanged ones. -/
theorem ends_ensureSafe_unversioned :
    Ends w.ensureSafe s world (fun _ world' => world' = world) fun _ _ => False := by
  refine .bind ((ends_state_unversioned hnone).mono ?_ fun _ _ h => h)
  rintro - - ⟨rfl, rfl⟩
  exact .pure rfl

theorem ends_resolve_unversioned (r : Resolution) :
    Ends (w.resolve r) s world (fun _ _ => False)
      fun fault world' => fault = .nothingPending ∧ world' = world := by
  refine .bind ((ends_state_unversioned hnone).mono ?_ fun _ _ h => h.elim)
  rintro - - ⟨rfl, rfl⟩
  exact .bind (.throw ⟨rfl, rfl⟩)

end Unversioned

/-! ## Writing patches -/

/-- However writing patches ends, git was asked about the repository and told to write patches. -/
theorem not_rewrites_of_written {result : Except Fault (List String)} {world' : World}
    (h : w.Written s world result world') :
    ∃ calls, world'.calls = calls ++ world.calls
      ∧ ∀ call ∈ calls, ¬ w.git.Rewrites call.command := by
  have hformat : ¬ w.git.Rewrites w.formatCommand := by
    simp [formatCommand, Git.rewrites_command_iff]
  cases h with
  | noDirectory _ hcalls => exact ⟨[], hcalls, by simp⟩
  | notRemoved _ _ hcalls => exact ⟨[], hcalls, by simp⟩
  | @ran _ world₁ events _ hcalls _ hkinds _ =>
    refine ⟨events.map Event.call, by rw [World.calls_following, hcalls], fun call hcall => ?_⟩
    obtain ⟨e, he, rfl⟩ := List.mem_map.1 hcall
    rcases hkinds e he with hasks | hwrites
    · exact hasks.not_rewrites
    · rwa [hwrites]

/-! ## Applying patches -/

/-- Whether between two worlds a patch that waits was given up, then the working tree was set back
to the baseline, and then git was told nothing but to go on like that. -/
def SetBack (w : Workflow) (world world' : World) : Prop :=
  ∃ abort reset later, world' = ((world.after abort).after reset).following later
    ∧ abort.call.command = w.git.command ["am", "--abort"]
    ∧ reset.call.command = w.git.command ["reset", "--hard", "-q", baselineBranch]
    ∧ ∀ e ∈ later, w.git.Rewrites e.call.command

theorem ends_apply_of_missing
    (hmissing : world.disk.holds s.directory w.patchDirectory = false) :
    Ends w.apply s world (fun patches world' => patches = [] ∧ world' = world)
      fun _ _ => False := by
  refine .bind (.holds ?_)
  rw [hmissing]
  exact .pure ⟨rfl, rfl⟩

/-- Sources that pass the check as they are have their working tree set back, unless git cannot even
be run. -/
theorem ends_apply_unversioned (hnone : world.disk.holds s.directory w.git.directory = false)
    (hpatches : world.disk.holds s.directory w.patchDirectory = true) :
    Ends w.apply s world (fun _ => w.SetBack world) fun fault world' =>
      w.SetBack world world' ∨ ∃ abort cause, fault = .command cause ∧ world' = world.after abort
        ∧ abort.call.command = w.git.command ["am", "--abort"] := by
  refine .bind (.holds ?_)
  rw [hpatches]
  refine .bind ((ends_ensureSafe_unversioned hnone).mono ?_ fun _ _ h => h.elim)
  rintro - world' h
  rw [h]
  refine .bind (Git.ends_runAnyway (fun abort habort _ => ?_) fun abort habort cause => ?_)
  · have hset (reset : Event)
        (hreset : reset.call.command = w.git.command ["reset", "--hard", "-q", baselineBranch])
        {world' : World}
        (h : Git.Only w.git.Rewrites ((world.after abort).after reset) world') :
        w.SetBack world world' := by
      obtain ⟨later, rfl, hlater⟩ := h
      exact ⟨abort, reset, later, rfl, habort, hreset, hlater⟩
    refine .bind (Git.ends_run (fun reset hreset _ _ => ?_) fun reset hreset _ cause => ?_)
    · refine .bind (ends_patches (.bind ((ends_applySeries _ _).mono ?_ ?_)))
      · exact fun _ _ h => .pure (hset reset hreset h)
      · exact fun _ _ h => .inl (hset reset hreset h)
    · exact .inl (hset reset hreset (.refl _ _))
  · exact .inr ⟨abort, cause, rfl, rfl, habort⟩

/-! ## All that can be done -/

/-- Sources without a repository of their own pass the check, and no patch waits there for being
settled; both are said without running git. Writing patches changes no working tree and no history.
Applying patches does nothing without a directory of patches. With one it gives up a patch and sets
the working tree back in whatever repository git finds there, unless git cannot even be run. -/
theorem rewrites_unversioned (w : Workflow) (s : Surroundings) (world : World)
    (hnone : world.disk.holds s.directory w.git.directory = false) :
    w.ensureSafe.perform s world = (.ok (), world)
      ∧ (∀ r, (w.resolve r).perform s world = (.error .nothingPending, world))
      ∧ (∃ calls, (w.writePatches.perform s world).2.calls = calls ++ world.calls
        ∧ ∀ call ∈ calls, ¬ w.git.Rewrites call.command)
      ∧ (world.disk.holds s.directory w.patchDirectory = false →
        w.apply.perform s world = (.ok [], world))
      ∧ (world.disk.holds s.directory w.patchDirectory = true →
        w.SetBack world (w.apply.perform s world).2
          ∨ ∃ abort cause, w.apply.perform s world = (.error (.command cause), world.after abort)
            ∧ abort.call.command = w.git.command ["am", "--abort"]) := by
  refine ⟨?_, fun r => ?_, ?_, fun hmissing => ?_, fun hpatches => ?_⟩
  · rcases (ends_ensureSafe_unversioned hnone).perform_cases with ⟨_, _, hrun, rfl⟩ | ⟨_, _, -, h⟩
    · exact hrun
    · exact h.elim
  · rcases (ends_resolve_unversioned hnone r).perform_cases with
      ⟨_, _, -, h⟩ | ⟨_, _, hrun, rfl, rfl⟩
    · exact h.elim
    · exact hrun
  · rcases (w.ends_writePatches s world).perform_cases with
      ⟨_, _, hrun, hwritten⟩ | ⟨_, _, hrun, hwritten⟩ <;>
    exact hrun ▸ not_rewrites_of_written hwritten
  · rcases (ends_apply_of_missing hmissing).perform_cases with
      ⟨_, _, hrun, rfl, rfl⟩ | ⟨_, _, -, h⟩
    · exact hrun
    · exact h.elim
  · rcases (ends_apply_unversioned hnone hpatches).perform_cases with
      ⟨_, _, hrun, hset⟩ | ⟨_, _, hrun, hset | ⟨abort, cause, rfl, rfl, habort⟩⟩
    · exact .inl (hrun ▸ hset)
    · exact .inl (hrun ▸ hset)
    · exact .inr ⟨abort, cause, hrun, habort⟩

/-- Sources that were not put under git yet, and a directory for their patches. -/
def bareWorld : World := .ofDisk ⟨[(["sources"], .directory), (["patches"], .directory)]⟩

/-- A git that does whatever it is told, and has nothing to say. -/
def silentGit : Surroundings := answering fun _ => ending 0 ""

/-- Above such sources a repository is set back. -/
theorem rewrites_unversioned_bare :
    bareWorld.disk.holds [] sampleWorkflow.git.directory = false
      ∧ sampleWorkflow.ensureSafe.perform silentGit bareWorld = (.ok (), bareWorld)
      ∧ sampleWorkflow.SetBack bareWorld (sampleWorkflow.apply.perform silentGit bareWorld).2 := by
  have hnone : bareWorld.disk.holds [] sampleWorkflow.git.directory = false := by decide
  obtain ⟨hsafe, -, -, -, happly⟩ := rewrites_unversioned sampleWorkflow silentGit bareWorld hnone
  refine ⟨hnone, hsafe, (happly (by decide)).resolve_right ?_⟩
  rintro ⟨abort, cause, hrun, -⟩
  have hok : (sampleWorkflow.apply.perform silentGit bareWorld).1.toOption = some [] := by
    decide +kernel
  rw [hrun] at hok
  cases hok

/-- Sources without a repository do not keep git from changing one. -/
theorem apply_rewrites_unversioned :
    ¬ ∀ (w : Workflow) (s : Surroundings) (world : World),
      world.disk.holds s.directory w.git.directory = false →
      ∀ call ∈ (w.apply.perform s world).2.calls, call ∈ world.calls
        ∨ ¬ w.git.Rewrites call.command := by
  intro h
  have hcalls : (sampleWorkflow.apply.perform silentGit bareWorld).2.calls.map Call.command
      = [sampleWorkflow.git.command ["reset", "--hard", "-q", "upstream"],
        sampleWorkflow.git.command ["am", "--abort"]] := by
    decide +kernel
  have hreset : sampleWorkflow.git.command ["reset", "--hard", "-q", "upstream"]
      ∈ (sampleWorkflow.apply.perform silentGit bareWorld).2.calls.map Call.command := by
    rw [hcalls]
    exact List.mem_cons_self
  obtain ⟨call, hcall, hcommand⟩ := List.mem_map.1 hreset
  rcases h sampleWorkflow silentGit bareWorld (by decide) call hcall with hold | hnot
  · cases hold
  · exact hnot (hcommand ▸ .reset _ rfl)

end Jarwright.Patch.Workflow
