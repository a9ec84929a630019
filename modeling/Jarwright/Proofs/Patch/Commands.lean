import Jarwright.Patch.Workflow
import Jarwright.Proofs.Machine.Ending

/-!
# What the patch workflow asks of git

Git may answer anything, and may do anything to the disk. What is known is which commands are run
and in which order, and what the workflow takes from the answers.

* `Git.Asks` and `Git.Rewrites`: the commands that only ask, and those that change the working tree
  or its history;
* `Git.answer?`: what is taken from a command that has to succeed;
* `Workflow.patchFiles`: the patch files on a disk, which `Workflow.patches` finds;
* `Workflow.ends_state`: what is known when the state of the sources has been found out.
-/

namespace Jarwright.Patch

open Machine

/-- Whether a fault says that a patch does not apply. -/
def Fault.IsConflict (fault : Fault) : Prop :=
  ∃ patch remaining message, fault = .conflict patch remaining message

theorem Fault.not_isConflict_command (cause : CommandFault) :
    ¬ (Fault.command cause).IsConflict := by
  rintro ⟨_, _, _, h⟩
  cases h

namespace Git

/-! ## Commands -/

/-- Whether a command only asks git for something. -/
inductive Asks (g : Git) (c : Command) : Prop
  | changes (h : c = g.command ["status", "--porcelain"])
  | commit (revision : String) (h : c = g.command ["rev-parse", "--verify", revision])
  | count (range : String) (h : c = g.command ["rev-list", "--count", range])

/-- Whether a command changes the working tree or its history: it applies patches in any form, or
sets the working tree back. -/
inductive Rewrites (g : Git) (c : Command) : Prop
  | am (options : List String) (h : c = g.command ("am" :: options))
  | reset (options : List String) (h : c = g.command ("reset" :: options))

theorem command_injective (g : Git) : Function.Injective g.command := by
  intro arguments arguments' h
  have htexts := congrArg Command.arguments h
  have hall := (List.map_inj_right fun _ _ h => Argument.text.inj h).1 htexts
  exact List.append_cancel_left hall

/-- The first word tells whether a command changes the working tree or its history. -/
theorem rewrites_command_iff {g : Git} {arguments : List String} :
    g.Rewrites (g.command arguments) ↔ arguments.head? ∈ [some "am", some "reset"] := by
  constructor
  · rintro (⟨options, h⟩ | ⟨options, h⟩)
    · simp [g.command_injective h]
    · simp [g.command_injective h]
  · intro hfirst
    cases arguments with
    | nil => simp at hfirst
    | cons first options =>
      obtain rfl | rfl : first = "am" ∨ first = "reset" := by simpa using hfirst
      · exact .am options rfl
      · exact .reset options rfl

theorem Asks.not_rewrites {g : Git} {c : Command} (h : g.Asks c) : ¬ g.Rewrites c := by
  rcases h with rfl | ⟨_, rfl⟩ | ⟨_, rfl⟩ <;> simp [rewrites_command_iff]

/-- Whether between two worlds commands of one kind were run and nothing else has happened. -/
def Only (P : Command → Prop) (w w' : World) : Prop :=
  ∃ events : List Event, w' = w.following events ∧ ∀ e ∈ events, P e.call.command

theorem Only.refl (P : Command → Prop) (w : World) : Only P w w := ⟨[], rfl, by simp⟩

theorem Only.after {P : Command → Prop} {w w' : World} {e : Event} (h : Only P w w')
    (he : P e.call.command) : Only P w (w'.after e) := by
  obtain ⟨events, rfl, hevents⟩ := h
  exact ⟨e :: events, rfl, List.forall_mem_cons.2 ⟨he, hevents⟩⟩

theorem Only.trans {P : Command → Prop} {w w₁ w₂ : World} (h : Only P w w₁) (h' : Only P w₁ w₂) :
    Only P w w₂ := by
  obtain ⟨events, rfl, hevents⟩ := h
  obtain ⟨events', rfl, hevents'⟩ := h'
  refine ⟨events' ++ events, (World.following_append _ _ _).symm, fun e he => ?_⟩
  exact (List.mem_append.1 he).elim (hevents' e) (hevents e)

/-! ## Answers -/

/-- The output of a command that has succeeded in time, without the blanks behind it. -/
def answer? (g : Git) (call : Call) : Option String :=
  match call.execution with
  | some x =>
    let o := x.outcome g.limits
    if o.isSuccess then some (trimmedOutput o.output.stdout) else none
  | none => none

variable {g : Git} {s : Surroundings} {w : World} {arguments : List String}

theorem ends_run {Q : String → World → Prop} {E : Fault → World → Prop}
    (hok : ∀ e : Event, e.call.command = g.command arguments →
      ∀ text, g.answer? e.call = some text → Q text (w.after e))
    (herror : ∀ e : Event, e.call.command = g.command arguments → g.answer? e.call = none →
      ∀ cause, E (.command cause) (w.after e)) :
    Ends (g.run arguments) s w Q E := by
  refine .bind (.mapFault (.bind (.run (fun x d _ => ?_) fun d _ => ?_)))
  · split
    · rename_i hsuccess
      refine .pure (.pure (hok _ rfl _ ?_))
      simp only [answer?, hsuccess, if_true]
    · rename_i hfailure
      refine .throw (herror _ rfl ?_ _)
      simp only [answer?, hfailure]
      rfl
  · exact herror _ rfl rfl _

/-- What is known of a command that was started. -/
def outcome? (g : Git) (call : Call) : Option Outcome :=
  call.execution.map fun x => x.outcome g.limits

theorem ends_runAnyway_outcome {Q : Outcome → World → Prop} {E : Fault → World → Prop}
    (hok : ∀ e : Event, e.call.command = g.command arguments →
      ∀ o, g.outcome? e.call = some o → Q o (w.after e))
    (herror : ∀ e : Event, e.call.command = g.command arguments → g.outcome? e.call = none →
      E (.command (.notStarted (g.command arguments))) (w.after e)) :
    Ends (g.runAnyway arguments) s w Q E :=
  .mapFault (.run (fun _ _ _ => hok _ rfl _ rfl) fun _ _ => herror _ rfl rfl)

theorem ends_runAnyway {Q : Outcome → World → Prop} {E : Fault → World → Prop}
    (hok : ∀ e : Event, e.call.command = g.command arguments → ∀ o, Q o (w.after e))
    (herror : ∀ e : Event, e.call.command = g.command arguments →
      ∀ cause, E (.command cause) (w.after e)) :
    Ends (g.runAnyway arguments) s w Q E :=
  ends_runAnyway_outcome (fun e he o _ => hok e he o) fun e he _ => herror e he _

theorem ends_distance {old new : String} {Q : Nat → World → Prop} {E : Fault → World → Prop}
    (hok : ∀ e : Event, e.call.command = g.command ["rev-list", "--count", s!"{old}..{new}"] →
      ∀ text n, g.answer? e.call = some text →
        Text.unsigned UInt64.size (Text.trim text.toList) = .ok n → Q n (w.after e))
    (herror : ∀ e : Event, e.call.command = g.command ["rev-list", "--count", s!"{old}..{new}"] →
      ∀ fault : Fault, ¬ fault.IsConflict → E fault (w.after e)) :
    Ends (g.distance old new) s w Q E := by
  refine .bind (ends_run (fun e he text htext => ?_)
    fun e he _ cause => herror e he _ (Fault.not_isConflict_command cause))
  split
  · rename_i n hn
    exact .pure (hok e he text n htext hn)
  · exact .throw (herror e he _ (by rintro ⟨_, _, _, h⟩; cases h))

end Git

namespace Workflow

variable {w : Workflow} {s : Surroundings} {world : World}

/-! ## Patch files -/

/-- The patch files that a disk holds, in the order in which they apply. -/
def patchFiles (w : Workflow) (directory : Place) (d : Disk) : List String :=
  match d.list directory w.patchDirectory with
  | .ok names =>
    (((names.map (Path.join w.patchDirectory)).filter (Path.ending? · == some "patch")).filter
      fun path => d.isFile directory path).mergeSort fun a b => decide (a ≤ b)
  | .error _ => []

/-- Choosing by what the disk shows leaves the world as it is. -/
theorem ends_filterM {ε α : Type} {f : α → Place → Disk → Bool} {xs : List α}
    {Q : List α → World → Prop} {E : ε → World → Prop}
    (h : Q (xs.filter fun x => f x s.directory world.disk) world) :
    Ends (xs.filterM fun x => (Action.look (f x) : Action ε Bool)) s world Q E := by
  have haux (xs acc : List α) {Q : List α → World → Prop}
      (h : Q ((xs.filter fun x => f x s.directory world.disk).reverse ++ acc) world) :
      Ends (xs.filterAuxM (fun x => (Action.look (f x) : Action ε Bool)) acc) s world Q E := by
    induction xs generalizing acc with
    | nil => exact .pure h
    | cons x xs ih =>
      refine .bind (.look (ih _ ?_))
      rw [List.filter_cons] at h
      cases hx : f x s.directory world.disk with
      | true =>
        rw [hx, if_pos rfl, List.reverse_cons, List.append_assoc] at h
        exact h
      | false =>
        rw [hx, if_neg Bool.false_ne_true] at h
        exact h
  refine .bind (haux xs [] (.pure ?_))
  rwa [List.append_nil, List.reverse_reverse]

/-- Just the directories can be listed. -/
theorem isDirectory_eq_toBool_list (d : Disk) (directory : Place) (path : String) :
    d.isDirectory directory path = (d.list directory path).toBool := by
  unfold Disk.isDirectory Disk.node Disk.list
  cases d.locate directory path with
  | error e => rfl
  | ok p =>
    simp only [bind, Except.bind]
    rcases d.get? p with _ | _ | _ <;> rfl

/-- The patch files are found as they are on the disk, and nothing changes. -/
theorem ends_patches {Q : List String → World → Prop} {E : Fault → World → Prop}
    (h : Q (w.patchFiles s.directory world.disk) world) : Ends w.patches s world Q E := by
  refine .bind (.isDirectory ?_)
  rw [isDirectory_eq_toBool_list]
  unfold patchFiles at h
  cases hlist : world.disk.list s.directory w.patchDirectory with
  | error e =>
    rw [hlist] at h
    exact .pure h
  | ok names =>
    rw [hlist] at h
    refine .bind (.mapFault (.listDirectory (fun names' hnames' => ?_) fun e he => ?_))
    · obtain rfl : names' = names := Except.ok.inj (hnames'.symm.trans hlist)
      exact .bind (ends_filterM (.pure h))
    · rw [hlist] at he
      cases he

/-! ## The state of the sources -/

/-- Whether the sources are known to be as they were committed: no patch waits for being settled,
and git has answered that nothing was changed. -/
def Clean (w : Workflow) (directory : Place) (d : Disk) (events : List Event) : Prop :=
  d.holds directory (Path.join w.git.directory "rebase-apply") = false
    ∧ ∃ e ∈ events, e.call.command = w.git.command ["status", "--porcelain"]
      ∧ w.git.answer? e.call = some ""

/-- To find out the state git is only asked, and only its answers can be a fault; a repository that
is neither in the middle of a patch nor changed is clean. -/
theorem ends_state (w : Workflow) (s : Surroundings) (world : World) :
    Ends w.state s world
      (fun state world' => ∃ events, world' = world.following events
        ∧ (∀ e ∈ events, w.git.Asks e.call.command)
        ∧ (state = .uninitialized →
          world.disk.holds s.directory w.git.directory = false ∧ events = [])
        ∧ (state = .baseline ∨ state = .patched → w.Clean s.directory world.disk events))
      fun fault world' => ∃ events, world' = world.following events ∧ events ≠ []
        ∧ (∀ e ∈ events, w.git.Asks e.call.command) ∧ ¬ fault.IsConflict := by
  refine .bind (.holds ?_)
  split
  · rename_i hrepository
    exact .pure ⟨[], rfl, by simp, fun _ => ⟨by simpa using hrepository, rfl⟩, by simp⟩
  refine .bind (.holds ?_)
  split
  · exact .pure ⟨[], rfl, by simp, by simp, by simp⟩
  rename_i happlying
  refine .bind (.bind (Git.ends_run (fun e₁ he₁ text htext => .pure ?_) fun e₁ he₁ _ cause₁ => ?_))
  · split
    · exact .pure ⟨[e₁], rfl, by simpa using .changes he₁, by simp, by simp⟩
    rename_i hclean
    refine .bind (Git.ends_run (fun e₂ he₂ head _ => ?_) fun e₂ he₂ _ cause₂ => ?_)
    · refine .bind (Git.ends_run (fun e₃ he₃ base _ => .pure ?_) fun e₃ he₃ _ cause₃ => ?_)
      · refine ⟨[e₃, e₂, e₁], rfl, ?_, ?_,
          fun _ => ⟨by simpa using happlying, e₁, by simp, he₁, ?_⟩⟩
        · simpa using ⟨.commit _ he₃, .commit _ he₂, .changes he₁⟩
        · split <;> simp
        · rw [htext]
          simpa using hclean
      · exact ⟨[e₃, e₂, e₁], rfl, by simp,
          by simpa using ⟨.commit _ he₃, .commit _ he₂, .changes he₁⟩,
          Fault.not_isConflict_command cause₃⟩
    · exact ⟨[e₂, e₁], rfl, by simp, by simpa using ⟨.commit _ he₂, .changes he₁⟩,
        Fault.not_isConflict_command cause₂⟩
  · exact ⟨[e₁], rfl, by simp, by simpa using .changes he₁, Fault.not_isConflict_command cause₁⟩

/-! ## Sample sources -/

/-- A program that writes a text and ends with a code. -/
def ending (code : Nat) (text : String) : Execution :=
  .immediate ⟨.exited code, [Text.Utf8.ofString text], []⟩

/-- A process that sees paths from the root, and in which all that is known of git is how each
command ends. -/
def answering (git : Command → Execution) : Surroundings where
  directory := []
  temporaries := "/tmp"
  environment := fun _ => none
  clock := fun _ => 0
  run := fun _ c _ d => (some (git c), d)
  serve := fun _ _ => .unreachable
  mark := "7"
  freshName := fun _ => "fresh"

def sampleWorkflow : Workflow where
  git := { root := "sources" }
  patchDirectory := "patches"

/-- Sources with a repository, and one patch file. -/
def sampleWorld : World := .ofDisk ⟨[(["sources"], .directory), (["sources", ".git"], .directory),
  (["patches"], .directory), (["patches", "0001.patch"], .file [1, 2, 3] 0)]⟩

end Workflow

end Jarwright.Patch
