import Jarwright.Proofs.Patch.Safeguard
import Mathlib.Data.List.Forall2

/-!
# Patches apply in their order

When the working tree is back at the baseline the patch files are applied one after the other, in
lexicographic order, and none behind one that does not apply. So what applying has resulted in tells
which commands were run: all files that are returned have been applied, and a conflict splits them
into those that were applied, the one that was not, and those that have not been tried.

* `Git.Applies`, `Git.Rejects`: how a single patch ends;
* `Workflow.IsSeries`: the patch files of a disk in lexicographic order;
* `Workflow.ends_series`: how a series of patches ends;
* `Workflow.applied_inOrder`: how applying patches ends, by `Workflow.Applied`.
-/

namespace Jarwright.Patch

open Machine

namespace Git

variable {g : Git}

/-- The command that applies a patch. -/
def applyCommand (g : Git) (patch : String) : Command :=
  g.command ["am", "--ignore-whitespace", "--3way", patch]

/-- Whether a patch was applied: git was told to, and ended with the status of success. -/
def Applies (g : Git) (patch : String) (e : Event) : Prop :=
  e.call.command = g.applyCommand patch
    ∧ ∃ o, g.outcome? e.call = some o ∧ o.status.isSuccess = true

/-- Whether git was told to apply a patch, and ended with another status and a message. -/
def Rejects (g : Git) (patch message : String) (e : Event) : Prop :=
  e.call.command = g.applyCommand patch
    ∧ ∃ o, g.outcome? e.call = some o ∧ o.status.isSuccess = false
      ∧ trimmedOutput o.output.stderr = message

/-- Whether git could not be started to apply a patch. -/
def Misses (g : Git) (patch : String) (e : Event) : Prop :=
  e.call.command = g.applyCommand patch ∧ g.outcome? e.call = none

/-- Whether a command is none that applies a patch file. -/
def AppliesNone (g : Git) (c : Command) : Prop := ∀ patch, c ≠ g.applyCommand patch

theorem Asks.appliesNone {c : Command} (h : g.Asks c) : g.AppliesNone c := by
  rintro patch rfl
  exact h.not_rewrites (.am _ rfl)

/-- Patch files are applied with options of their own. -/
theorem appliesNone_command {arguments : List String}
    (h : arguments.take 2 ≠ ["am", "--ignore-whitespace"]) :
    g.AppliesNone (g.command arguments) := by
  intro patch hcommand
  obtain rfl := g.command_injective hcommand
  exact h rfl

theorem Only.mono {P P' : Command → Prop} {w w' : World} (h : Only P w w')
    (hP : ∀ c, P c → P' c) : Only P' w w' := by
  obtain ⟨events, rfl, hevents⟩ := h
  exact ⟨events, rfl, fun e he => hP _ (hevents e he)⟩

end Git

namespace Workflow

variable {w : Workflow} {s : Surroundings} {world : World} {directory : Place} {d : Disk}

/-! ## The files of a series -/

/-- The names in the directory of patches; none if it cannot be listed. -/
def listing (w : Workflow) (directory : Place) (d : Disk) : List String :=
  (d.list directory w.patchDirectory).toOption.getD []

/-- The patch files in the directory, in the order in which they are listed. -/
def listedPatches (w : Workflow) (directory : Place) (d : Disk) : List String :=
  ((w.listing directory d).map (Path.join w.patchDirectory)).filter fun path =>
    Path.ending? path == some "patch" && d.isFile directory path

/-- Whether some paths are those of the patch files in the directory, in lexicographic order. -/
structure IsSeries (w : Workflow) (directory : Place) (d : Disk) (files : List String) : Prop where
  sorted : files.Pairwise (· ≤ ·)
  perm : files.Perm (w.listedPatches directory d)

theorem pairwise_mergeSort_le (files : List String) :
    (files.mergeSort fun a b => decide (a ≤ b)).Pairwise (· ≤ ·) := by
  have hsorted : (files.mergeSort fun a b => decide (a ≤ b)).Pairwise
      fun a b => decide (a ≤ b) = true := by
    refine List.pairwise_mergeSort (fun a b c hab hbc => ?_) (fun a b => ?_) files
    · exact decide_eq_true (String.le_trans (of_decide_eq_true hab) (of_decide_eq_true hbc))
    · simpa using String.le_total a b
  exact hsorted.imp of_decide_eq_true

/-- What is found as patch files is the series. -/
theorem isSeries_patchFiles (w : Workflow) (directory : Place) (d : Disk) :
    w.IsSeries directory d (w.patchFiles directory d) := by
  unfold patchFiles
  cases hlist : d.list directory w.patchDirectory with
  | error e =>
    refine ⟨.nil, ?_⟩
    rw [listedPatches, listing, hlist]
    exact .nil
  | ok names =>
    refine ⟨pairwise_mergeSort_le _, (List.mergeSort_perm _ _).trans ?_⟩
    rw [listedPatches, listing, hlist, List.filter_filter]
    refine .of_eq (List.filter_congr fun path _ => Bool.and_comm _ _)

/-! ## A series -/

/-- Patches are applied in their order, each by one command, until one does not apply or git cannot
be started for it. -/
theorem ends_series (patches : List String) (world : World) :
    Ends (w.applySeries patches) s world
      (fun _ world' => ∃ events : List Event, world' = events.foldl World.after world
        ∧ List.Forall₂ w.git.Applies patches events)
      fun fault world' => ∃ (applied : List String) (patch : String) (remaining : List String)
          (events : List Event) (last : Event),
        patches = applied ++ patch :: remaining
          ∧ world' = (events.foldl World.after world).after last
          ∧ List.Forall₂ w.git.Applies applied events
          ∧ ((∃ message, fault = .conflict patch remaining message
              ∧ w.git.Rejects patch message last)
            ∨ fault = .command (.notStarted (w.git.applyCommand patch))
              ∧ w.git.Misses patch last) := by
  induction patches generalizing world with
  | nil => exact .pure ⟨[], rfl, .nil⟩
  | cons patch rest ih =>
    rw [applySeries]
    refine .bind (Git.ends_runAnyway_outcome (fun e he o ho => ?_) fun e he hnone => ?_)
    · cases hsuccess : o.status.isSuccess with
      | true =>
        have hfirst : w.git.Applies patch e := ⟨he, o, ho, hsuccess⟩
        refine (ih (world.after e)).mono ?_ ?_
        · rintro - - ⟨events, rfl, happlied⟩
          exact ⟨e :: events, rfl, .cons hfirst happlied⟩
        · rintro fault - ⟨applied, failed, remaining, events, last, rfl, rfl, happlied, hlast⟩
          exact ⟨patch :: applied, failed, remaining, e :: events, last, rfl, rfl,
            .cons hfirst happlied, hlast⟩
      | false =>
        exact .throw ⟨[], patch, rest, [], e, rfl, rfl, .nil,
          .inl ⟨_, rfl, he, o, ho, hsuccess, rfl⟩⟩
    · exact ⟨[], patch, rest, [], e, rfl, rfl, .nil, .inr ⟨rfl, he, hnone⟩⟩

/-! ## All of it -/

/-- Whether a world is the one in which the working tree has just been set back to the baseline:
until then git was asked, and told to give up a patch that waits. -/
def AtBaseline (w : Workflow) (world world' : World) : Prop :=
  ∃ asked abort reset, world' = ((world.following asked).after abort).after reset
    ∧ (∀ e ∈ asked, w.git.Asks e.call.command)
    ∧ abort.call.command = w.git.command ["am", "--abort"]
    ∧ reset.call.command = w.git.command ["reset", "--hard", "-q", baselineBranch]
    ∧ (w.git.answer? reset.call).isSome = true

/-- How applying patches can end. The commands that apply patches are in their order, the earliest
first, and there are no others behind the one that sets the working tree back. -/
inductive Applied (w : Workflow) (s : Surroundings) (world : World) :
    Except Fault (List String) → World → Prop
  /-- There is no directory of patches, and nothing is done. -/
  | nothing (hmissing : world.disk.holds s.directory w.patchDirectory = false) :
      Applied w s world (.ok []) world
  /-- The working tree is not set back, and no patch is tried. -/
  | kept {fault : Fault} {world' : World} (hfault : ¬ fault.IsConflict)
      (huntried : Git.Only w.git.AppliesNone world world') :
      Applied w s world (.error fault) world'
  /-- All patches are applied. -/
  | all {files : List String} {world₁ : World} {events : List Event}
      (hbaseline : w.AtBaseline world world₁) (hfiles : w.IsSeries s.directory world₁.disk files)
      (happlied : List.Forall₂ w.git.Applies files events) :
      Applied w s world (.ok files) (events.foldl World.after world₁)
  /-- A patch does not apply, and those behind it are not tried. -/
  | conflict {applied remaining : List String} {patch message : String} {world₁ : World}
      {events : List Event} {last : Event} (hbaseline : w.AtBaseline world world₁)
      (hfiles : w.IsSeries s.directory world₁.disk (applied ++ patch :: remaining))
      (happlied : List.Forall₂ w.git.Applies applied events)
      (hlast : w.git.Rejects patch message last) :
      Applied w s world (.error (.conflict patch remaining message))
        ((events.foldl World.after world₁).after last)
  /-- Git cannot be started for a patch, and those behind it are not tried. -/
  | stopped {applied remaining : List String} {patch : String} {world₁ : World}
      {events : List Event} {last : Event} (hbaseline : w.AtBaseline world world₁)
      (hfiles : w.IsSeries s.directory world₁.disk (applied ++ patch :: remaining))
      (happlied : List.Forall₂ w.git.Applies applied events)
      (hlast : w.git.Misses patch last) :
      Applied w s world (.error (.command (.notStarted (w.git.applyCommand patch))))
        ((events.foldl World.after world₁).after last)

theorem ends_apply_applied (w : Workflow) (s : Surroundings) (world : World) :
    Ends w.apply s world (fun files => w.Applied s world (.ok files))
      fun fault => w.Applied s world (.error fault) := by
  refine .bind (.holds ?_)
  split
  · rename_i hmissing
    exact .pure (.nothing (by simpa using hmissing))
  refine .bind ((ends_ensureSafe w s world).mono ?_ fun fault _ ⟨hasked, hfault⟩ =>
    .kept hfault (hasked.mono fun _ hasks => hasks.appliesNone))
  rintro - - ⟨asked, rfl, hasks, -⟩
  have hasked : Git.Only w.git.AppliesNone world (world.following asked) :=
    ⟨asked, rfl, fun e he => (hasks e he).appliesNone⟩
  have haborted (abort : Event) (habort : abort.call.command = w.git.command ["am", "--abort"]) :
      Git.Only w.git.AppliesNone world ((world.following asked).after abort) :=
    hasked.after (habort ▸ Git.appliesNone_command (by decide))
  refine .bind (Git.ends_runAnyway (fun abort habort _ => ?_) fun abort habort cause =>
    .kept (Fault.not_isConflict_command cause) (haborted abort habort))
  refine .bind (Git.ends_run (fun reset hreset text htext => ?_) fun reset hreset _ cause =>
    .kept (Fault.not_isConflict_command cause)
      ((haborted abort habort).after (hreset ▸ Git.appliesNone_command (by decide))))
  have hbaseline : w.AtBaseline world (((world.following asked).after abort).after reset) :=
    ⟨asked, abort, reset, rfl, hasks, habort, hreset, by rw [htext]; rfl⟩
  refine .bind (ends_patches (.bind ((ends_series _ _).mono ?_ ?_)))
  · rintro - - ⟨events, rfl, happlied⟩
    exact .pure (.all hbaseline (isSeries_patchFiles _ _ _) happlied)
  · rintro fault - ⟨applied, patch, remaining, events, last, hfiles, rfl, happlied, hlast⟩
    have hseries := hfiles ▸ isSeries_patchFiles w s.directory _
    rcases hlast with ⟨message, rfl, hrejects⟩ | ⟨rfl, hmisses⟩
    · exact .conflict hbaseline hseries happlied hrejects
    · exact .stopped hbaseline hseries happlied hmisses

/-- Applying patches returns the patch files that there are when the working tree has been set back,
in lexicographic order, and then each of them has been applied once, in this order. A conflict names
the first of them that does not apply: those in front of it have been applied in this order, it was
the last one to be tried, and those behind it are the ones that are said to remain. -/
theorem applied_inOrder (w : Workflow) (s : Surroundings) (world : World) :
    w.Applied s world (w.apply.perform s world).1 (w.apply.perform s world).2 :=
  Ends.perform_result (R := w.Applied s world) (w.ends_apply_applied s world)

end Workflow

end Jarwright.Patch
