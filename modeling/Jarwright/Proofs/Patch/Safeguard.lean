import Jarwright.Proofs.Patch.Commands

/-!
# Nothing is lost by applying patches

Going back to the baseline throws away whatever is in the working tree. So before the first command
that does it `Workflow.ensureSafe` has to know that no patch waits for being settled, that nothing
was changed, and that there are no more commits than patch files, whatever git answers.

* `Workflow.Cleared`: what has to be known;
* `Workflow.ends_ensureSafe`: it is known when the check ends well, and until then git was only
  asked;
* `Workflow.rewrites_only_when_cleared`: every command of `Workflow.apply` that changes the working
  tree or its history comes after the check.
-/

namespace Jarwright.Patch.Workflow

open Machine

variable {w : Workflow} {s : Surroundings} {world : World} {directory : Place} {d : Disk}

/-- Whether some commands, of which the latest is the first, have shown that going back to the
baseline loses nothing: the sources are clean, and the commits that git has counted are no more than
the patch files that there were then. -/
def Cleared (w : Workflow) (directory : Place) (d : Disk) (events : List Event) : Prop :=
  w.Clean directory d events
    ∧ ∃ e ∈ events, e.call.command = w.git.command ["rev-list", "--count", "upstream..HEAD"]
      ∧ ∃ text commits, w.git.answer? e.call = some text
        ∧ Text.unsigned UInt64.size (Text.trim text.toList) = .ok commits
        ∧ commits ≤ (w.patchFiles directory e.disk).length

theorem Clean.mono {events events' : List Event} (h : w.Clean directory d events)
    (hsubset : events ⊆ events') : w.Clean directory d events' := by
  obtain ⟨hpending, e, he, hstatus⟩ := h
  exact ⟨hpending, e, hsubset he, hstatus⟩

theorem Cleared.mono {events events' : List Event} (h : w.Cleared directory d events)
    (hsubset : events ⊆ events') : w.Cleared directory d events' := by
  obtain ⟨hclean, e, he, hcount⟩ := h
  exact ⟨hclean.mono hsubset, e, hsubset he, hcount⟩

/-- Whether git was only asked, and without force the answers have shown that nothing is lost, if
there is a repository. -/
def Checked (w : Workflow) (directory : Place) (world world' : World) : Prop :=
  ∃ events, world' = world.following events ∧ (∀ e ∈ events, w.git.Asks e.call.command)
    ∧ (w.force = false → world.disk.holds directory w.git.directory = true →
      w.Cleared directory world.disk events)

/-- The commits are counted, and without force they are no more than the patch files. -/
theorem ends_count {events : List Event} (hasks : ∀ e ∈ events, w.git.Asks e.call.command)
    (hclean : w.force = false → w.Clean s.directory world.disk events) :
    Ends (do
        let commits ← w.git.distance baselineBranch "HEAD"
        let patches := (← w.patches).length
        if patches < commits ∧ !w.force then throw (.unexported commits patches))
      s (world.following events) (fun _ => w.Checked s.directory world)
      fun fault world' => Git.Only w.git.Asks world world' ∧ ¬ fault.IsConflict := by
  have hcounted (e : Event) (he : w.git.Asks e.call.command) :
      Git.Only w.git.Asks world ((world.following events).after e) :=
    Git.Only.after ⟨events, rfl, hasks⟩ he
  refine .bind (Git.ends_distance (fun e he text commits htext hcommits => ?_)
    fun e he _ hfault => ⟨hcounted e (.count _ he), hfault⟩)
  refine .bind (ends_patches ?_)
  dsimp only
  split
  · exact .throw ⟨hcounted e (.count _ he), by rintro ⟨_, _, _, h⟩; cases h⟩
  · rename_i hfew
    refine .pure ⟨e :: events, rfl, List.forall_mem_cons.2 ⟨.count _ he, hasks⟩, fun hforce _ => ?_⟩
    have hall : commits ≤ (w.patchFiles s.directory e.disk).length := by simpa [hforce] using hfew
    exact ⟨(hclean hforce).mono (List.subset_cons_self _ _), e, List.mem_cons_self, he, text,
      commits, htext, hcommits, hall⟩

/-- By the check git is only asked, and without force it ends well only if nothing would be lost. -/
theorem ends_ensureSafe (w : Workflow) (s : Surroundings) (world : World) :
    Ends w.ensureSafe s world (fun _ => w.Checked s.directory world)
      fun fault world' => Git.Only w.git.Asks world world' ∧ ¬ fault.IsConflict := by
  refine .bind ((ends_state w s world).mono ?_
    fun _ _ ⟨events, h, _, hasks, hfault⟩ => ⟨⟨events, h, hasks⟩, hfault⟩)
  rintro state - ⟨events, rfl, hasks, huninitialized, hclean⟩
  cases state with
  | uninitialized =>
    refine .pure ⟨events, rfl, hasks, fun _ hrepository => ?_⟩
    rw [(huninitialized rfl).1] at hrepository
    cases hrepository
  | dirty | applying =>
    dsimp only
    split
    · exact .bind (.throw ⟨⟨events, rfl, hasks⟩, by rintro ⟨_, _, _, h⟩; cases h⟩)
    · rename_i hforce
      exact ends_count hasks fun h => absurd (by rw [h]; rfl) hforce
  | baseline | patched => exact ends_count hasks fun _ => hclean (by simp)

/-- A series of patches is applied by nothing but commands that apply a patch. -/
theorem ends_applySeries (patches : List String) (world : World) :
    Ends (w.applySeries patches) s world
      (fun _ world' => Git.Only w.git.Rewrites world world')
      fun _ world' => Git.Only w.git.Rewrites world world' := by
  induction patches generalizing world with
  | nil => exact .pure (.refl _ _)
  | cons patch rest ih =>
    rw [applySeries]
    refine .bind (Git.ends_runAnyway (fun e he o => ?_) fun e he _ => ?_)
    · have hfirst : Git.Only w.git.Rewrites world (world.after e) :=
        (Git.Only.refl _ _).after (.am _ he)
      split
      · exact (ih _).mono (fun _ _ h => hfirst.trans h) fun _ _ h => hfirst.trans h
      · exact .throw hfirst
    · exact (Git.Only.refl _ _).after (.am _ he)

/-- Whether between two worlds git was asked until it was clear that nothing would be lost, and only
then was told to change the working tree. -/
def Guarded (w : Workflow) (directory : Place) (world world' : World) : Prop :=
  ∃ asked changed, world' = (world.following asked).following changed
    ∧ (∀ e ∈ asked, w.git.Asks e.call.command) ∧ w.Cleared directory world.disk asked
    ∧ (∀ e ∈ changed, w.git.Rewrites e.call.command) ∧ changed ≠ []

/-- Applying patches without force goes no further than asking, or changes the working tree after
that. -/
theorem ends_apply (hforce : w.force = false)
    (hrepository : world.disk.holds s.directory w.git.directory = true) :
    Ends w.apply s world
      (fun patches world' =>
        (patches = [] ∧ world.disk.holds s.directory w.patchDirectory = false ∧ world' = world)
          ∨ w.Guarded s.directory world world')
      fun _ world' => Git.Only w.git.Asks world world' ∨ w.Guarded s.directory world world' := by
  refine .bind (.holds ?_)
  split
  · rename_i hmissing
    exact .pure (.inl ⟨rfl, by simpa using hmissing, rfl⟩)
  refine .bind ((ends_ensureSafe w s world).mono (fun _ world' h => ?_) fun _ _ h => .inl h.1)
  obtain ⟨asked, rfl, hasks, hcleared⟩ := h
  -- from here on each command changes the working tree, beginning with the one that is run first
  have hguarded (first : Event) (hfirst : w.git.Rewrites first.call.command) (world' : World)
      (h : Git.Only w.git.Rewrites ((world.following asked).after first) world') :
      w.Guarded s.directory world world' := by
    obtain ⟨changed, rfl, hchanged⟩ := h
    refine ⟨asked, changed ++ [first], ?_, hasks, hcleared hforce hrepository, ?_, by simp⟩
    · rw [World.following_append]
      rfl
    intro e he
    rcases List.mem_append.1 he with he | he
    · exact hchanged e he
    · rwa [List.mem_singleton.1 he]
  refine .bind (Git.ends_runAnyway (fun e₁ he₁ _ => ?_) fun e₁ he₁ _ => ?_)
  · have hchanges {world' : World} := hguarded e₁ (.am _ he₁) world'
    refine .bind (Git.ends_run (fun e₂ he₂ _ _ => ?_) fun e₂ he₂ _ _ => ?_)
    · have hreset : Git.Only w.git.Rewrites ((world.following asked).after e₁) _ :=
        (Git.Only.refl _ _).after (.reset _ he₂)
      refine .bind (ends_patches ?_)
      refine .bind ((ends_applySeries _ _).mono (fun _ _ h => .pure ?_) fun _ _ h => ?_)
      · exact .inr (hchanges (hreset.trans h))
      · exact .inr (hchanges (hreset.trans h))
    · exact .inr (hchanges ((Git.Only.refl _ _).after (.reset _ he₂)))
  · exact .inr (hguarded e₁ (.am _ he₁) _ (.refl _ _))

/-- Whatever comes before a command that changes the working tree, it has cleared the way. -/
theorem cleared_of_append_eq {asked changed later earlier : List Event} {e : Event}
    (hasks : ∀ e ∈ asked, w.git.Asks e.call.command) (hcleared : w.Cleared directory d asked)
    (happend : changed ++ asked = later ++ e :: earlier) (he : w.git.Rewrites e.call.command) :
    w.Cleared directory d earlier := by
  have hnot : e ∉ asked := fun hmem => (hasks e hmem).not_rewrites he
  rcases List.append_eq_append_iff.1 happend with ⟨more, -, hasked⟩ | ⟨more, -, hrest⟩
  · exact absurd (by simp [hasked]) hnot
  · cases more with
    | nil => exact absurd (by simp [← show e :: earlier = asked from hrest]) hnot
    | cons first more =>
      obtain ⟨rfl, rfl⟩ := List.cons.inj hrest
      exact hcleared.mono (List.subset_append_right _ _)

theorem Guarded.exists_events {world' : World} (h : w.Guarded directory world world') :
    ∃ events, world' = world.following events
      ∧ (∀ e ∈ events, w.git.Asks e.call.command ∨ w.git.Rewrites e.call.command)
      ∧ (∀ later e earlier, events = later ++ e :: earlier → w.git.Rewrites e.call.command →
        w.Cleared directory world.disk earlier)
      ∧ ∃ e ∈ events, w.git.Rewrites e.call.command := by
  obtain ⟨asked, changed, hworld, hasks, hcleared, hchanged, hnonempty⟩ := h
  refine ⟨changed ++ asked, hworld.trans (World.following_append _ _ _).symm, fun e he => ?_,
    fun later e earlier happend he => cleared_of_append_eq hasks hcleared happend he, ?_⟩
  · exact (List.mem_append.1 he).elim (fun h => .inr (hchanged e h)) fun h => .inl (hasks e h)
  · obtain ⟨e, he⟩ := List.exists_mem_of_ne_nil changed hnonempty
    exact ⟨e, List.mem_append_left _ he, hchanged e he⟩

/-- Applying patches without force to sources with a repository: git is asked at first, and every
command that changes the working tree or its history comes only after the answers have shown that
nothing is lost by it. When there is no such command, applying has been refused, or there is no
directory of patches. -/
theorem rewrites_only_when_cleared (w : Workflow) (s : Surroundings) (world : World)
    (hforce : w.force = false)
    (hrepository : world.disk.holds s.directory w.git.directory = true) :
    ∃ events, (w.apply.perform s world).2 = world.following events
      ∧ (∀ e ∈ events, w.git.Asks e.call.command ∨ w.git.Rewrites e.call.command)
      ∧ (∀ later e earlier, events = later ++ e :: earlier → w.git.Rewrites e.call.command →
        w.Cleared s.directory world.disk earlier)
      ∧ ((∃ e ∈ events, w.git.Rewrites e.call.command)
        ∨ (∀ e ∈ events, w.git.Asks e.call.command)
          ∧ ((w.apply.perform s world).1 = .ok []
              ∧ world.disk.holds s.directory w.patchDirectory = false
            ∨ ∃ fault, (w.apply.perform s world).1 = .error fault)) := by
  obtain ⟨hok, herror⟩ := (ends_apply hforce hrepository).perform
  cases hresult : (w.apply.perform s world).1 with
  | ok patches =>
    rcases hok patches hresult with ⟨rfl, hmissing, hworld⟩ | hguarded
    · exact ⟨[], hworld, by simp, by simp, .inr ⟨by simp, .inl ⟨rfl, hmissing⟩⟩⟩
    · obtain ⟨events, hworld, hkinds, horder, hsome⟩ := hguarded.exists_events
      exact ⟨events, hworld, hkinds, horder, .inl hsome⟩
  | error fault =>
    rcases herror fault hresult with ⟨events, hworld, hasks⟩ | hguarded
    · refine ⟨events, hworld, fun e he => .inl (hasks e he), ?_, .inr ⟨hasks, .inr ⟨fault, rfl⟩⟩⟩
      intro later e earlier happend he
      exact absurd he (hasks e (by simp [happend])).not_rewrites
    · obtain ⟨events, hworld, hkinds, horder, hsome⟩ := hguarded.exists_events
      exact ⟨events, hworld, hkinds, horder, .inl hsome⟩

/-! ## A run -/

/-- A git that knows of one commit on top of the baseline and finds nothing else to tell. -/
def sampleGit (c : Command) : Execution :=
  if .text "rev-list" ∈ c.arguments then ending 0 "1\n"
  else if .text "rev-parse" ∈ c.arguments then ending 0 "0123abcd\n"
  else ending 0 ""

/-- What comes of applying the patch. -/
def sampleRun : Except Fault (List String) × World :=
  sampleWorkflow.apply.perform (answering sampleGit) sampleWorld

/-- The patch is applied, and not before it is clear that nothing is lost. -/
theorem rewrites_only_when_cleared_sample :
    sampleRun.1.toOption = some ["patches/0001.patch"]
      ∧ ∃ events, sampleRun.2 = sampleWorld.following events
        ∧ (∃ e ∈ events, sampleWorkflow.git.Rewrites e.call.command)
        ∧ ∀ later e earlier, events = later ++ e :: earlier →
          sampleWorkflow.git.Rewrites e.call.command →
          sampleWorkflow.Cleared [] sampleWorld.disk earlier := by
  have hresult : sampleRun.1.toOption = some ["patches/0001.patch"] := by decide +kernel
  refine ⟨hresult, ?_⟩
  obtain ⟨events, hworld, -, horder, hrewrites⟩ := rewrites_only_when_cleared sampleWorkflow
    (answering sampleGit) sampleWorld rfl (by decide)
  refine ⟨events, hworld, ?_, horder⟩
  rcases hrewrites with hrewrites | ⟨-, ⟨hnone, -⟩ | ⟨fault, hfault⟩⟩
  · exact hrewrites
  · rw [sampleRun, hnone] at hresult
    cases hresult
  · rw [sampleRun, hfault] at hresult
    cases hresult

end Jarwright.Patch.Workflow
