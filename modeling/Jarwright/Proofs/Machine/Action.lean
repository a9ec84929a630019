import Jarwright.Machine.World
import Jarwright.Proofs.Machine.Disk

/-!
# What actions do to the disk on their way

An action may be cut off after any of its steps, so what is on the disk in between matters as much
as what is there in the end. `Passes` says both: every disk from which the action takes a step
satisfies `I`, and the last one satisfies `Q` or `E`, with a result or a fault. One rule for each
way of putting actions together carries this from steps to whole actions.

* `Leads`: the steps between two worlds;
* `Passes.step`, `Passes.makeDirectories`: the actions that take steps;
* `Passes.bind`, `Passes.mapFault`, `Passes.attempt`: how actions are put together;
* `Passes.ok`, `Passes.error`, `Passes.cutOff`: what is left when an action ends, or is cut off.
-/

namespace Jarwright.Machine

/-- What comes of an action and one that takes its result. -/
theorem Action.bind_apply {ε α β : Type} (x : Action ε α) (f : α → Action ε β) (s : Surroundings)
    (w : World) :
    (x >>= f) s w = match x s w with
      | .ok a w' => f a s w'
      | .error e w' => .error e w' := by
  change EStateM.bind (x s) (fun a => f a s) w = _
  unfold EStateM.bind
  cases x s w <;> rfl

/-- Whether the steps between two worlds lead from one disk to the next, each of them from a disk
that satisfies `I`. -/
def Leads (I : Disk → Prop) (w w' : World) : Prop :=
  ∃ new : List Disk, w'.steps = new ++ w.steps ∧ (new ++ [w.disk]).head? = some w'.disk
    ∧ ∀ d ∈ (new ++ [w.disk]).tail, I d

namespace Leads

variable {I J : Disk → Prop} {w w₁ w₂ : World}

theorem refl (hsteps : w₁.steps = w.steps) (hdisk : w₁.disk = w.disk) : Leads I w w₁ :=
  ⟨[], hsteps, congrArg some hdisk.symm, fun _ h => absurd h List.not_mem_nil⟩

theorem step (hsteps : w₁.steps = w₁.disk :: w.steps) (h : I w.disk) : Leads I w w₁ := by
  refine ⟨[w₁.disk], hsteps, rfl, fun d hd => ?_⟩
  rwa [List.mem_singleton.1 hd]

theorem trans (h : Leads I w w₁) (h' : Leads I w₁ w₂) : Leads I w w₂ := by
  obtain ⟨new, hsteps, hhead, htail⟩ := h
  obtain ⟨new', hsteps', hhead', htail'⟩ := h'
  refine ⟨new' ++ new, by rw [hsteps', hsteps, List.append_assoc], ?_⟩
  rw [List.append_assoc]
  cases new' with
  | nil =>
    obtain hdisk : w₁.disk = w₂.disk := Option.some.inj hhead'
    exact ⟨hdisk ▸ hhead, htail⟩
  | cons d new' =>
    refine ⟨hhead', fun e he => ?_⟩
    rw [List.cons_append, List.tail_cons, List.mem_append] at he
    rcases he with he | he
    · exact htail' e (List.mem_append_left _ he)
    · -- the last disk of the first part is the one that the second part starts from
      obtain ⟨more, hmore⟩ := List.head?_eq_some_iff.1 hhead
      rw [hmore] at he htail
      rcases List.mem_cons.1 he with rfl | he
      · exact htail' _ (by simp)
      · exact htail e he

theorem mono (h : Leads I w w₁) (hIJ : ∀ d, I d → J d) : Leads J w w₁ := by
  obtain ⟨new, hsteps, hhead, htail⟩ := h
  exact ⟨new, hsteps, hhead, fun d hd => hIJ d (htail d hd)⟩

/-- What is said of the steps between two worlds holds of all steps that the later one has more. -/
theorem of_steps {new : List Disk} (h : Leads I w w₁) (hnew : w₁.steps = new ++ w.steps) :
    (new ++ [w.disk]).head? = some w₁.disk ∧ ∀ d ∈ (new ++ [w.disk]).tail, I d := by
  obtain ⟨new', hsteps, hhead, htail⟩ := h
  obtain rfl : new' = new := List.append_cancel_right (hsteps.symm.trans hnew)
  exact ⟨hhead, htail⟩

end Leads

/-- Whether an action takes steps only from disks that satisfy `I`, and ends on a disk that
satisfies `Q` with its result, or `E` with its fault. -/
structure Passes {ε α : Type} (x : Action ε α) (s : Surroundings) (d : Disk) (I : Disk → Prop)
    (Q : α → Disk → Prop) (E : ε → Disk → Prop) : Prop where
  run : ∀ w : World, w.disk = d →
    match x s w with
    | .ok a w' => Leads I w w' ∧ Q a w'.disk
    | .error e w' => Leads I w w' ∧ E e w'.disk

/-- Whether an action leaves a disk when it is cut off before its last step: the one that it
starts from, or that after a step with another one behind it. -/
def CutOff {ε α : Type} (x : Action ε α) (s : Surroundings) (w : World) (d : Disk) : Prop :=
  ∃ new : List Disk, (x.perform s w).2.steps = new ++ w.steps ∧ d ∈ (new ++ [w.disk]).tail

namespace Passes

variable {ε ε' α β : Type} {x : Action ε α} {s : Surroundings} {d d' : Disk} {I J : Disk → Prop}
  {Q R : α → Disk → Prop} {E F : ε → Disk → Prop}

theorem mono (h : Passes x s d I Q E) (hI : ∀ d', I d' → J d') (hQ : ∀ a d', Q a d' → R a d')
    (hE : ∀ e d', E e d' → F e d') : Passes x s d J R F := by
  refine ⟨fun w hw => ?_⟩
  have hx := h.run w hw
  split
  · rename_i hrun
    rw [hrun] at hx
    exact ⟨hx.1.mono hI, hQ _ _ hx.2⟩
  · rename_i hrun
    rw [hrun] at hx
    exact ⟨hx.1.mono hI, hE _ _ hx.2⟩

theorem pure {a : α} (h : Q a d) : Passes (Pure.pure a : Action ε α) s d I Q E := by
  constructor
  rintro w rfl
  exact ⟨Leads.refl rfl rfl, h⟩

theorem throw {e : ε} (h : E e d) : Passes (MonadExcept.throw e : Action ε α) s d I Q E := by
  constructor
  rintro w rfl
  exact ⟨Leads.refl rfl rfl, h⟩

theorem bind {f : α → Action ε β} {R : β → Disk → Prop}
    (h : Passes x s d I (fun a d' => Passes (f a) s d' I R E) E) :
    Passes (x >>= f) s d I R E := by
  refine ⟨fun w hw => ?_⟩
  have hx := h.run w hw
  rw [Action.bind_apply]
  cases hrun : x s w with
  | error e w' =>
    rw [hrun] at hx
    exact hx
  | ok a w' =>
    rw [hrun] at hx
    have hf := hx.2.run w' rfl
    dsimp only
    split
    · rename_i hrest
      rw [hrest] at hf
      exact ⟨hx.1.trans hf.1, hf.2⟩
    · rename_i hrest
      rw [hrest] at hf
      exact ⟨hx.1.trans hf.1, hf.2⟩

theorem mapFault {f : ε → ε'} {E : ε' → Disk → Prop}
    (h : Passes x s d I Q fun e d' => E (f e) d') : Passes (Action.mapFault f x) s d I Q E := by
  refine ⟨fun w hw => ?_⟩
  have hx := h.run w hw
  unfold Action.mapFault
  cases hrun : x s w with
  | error e w' =>
    rw [hrun] at hx
    exact hx
  | ok a w' =>
    rw [hrun] at hx
    exact hx

theorem attempt {R : Except ε α → Disk → Prop} {E : ε' → Disk → Prop}
    (h : Passes x s d I (fun a d' => R (.ok a) d') fun e d' => R (.error e) d') :
    Passes (Action.attempt x : Action ε' (Except ε α)) s d I R E := by
  refine ⟨fun w hw => ?_⟩
  have hx := h.run w hw
  unfold Action.attempt
  cases hrun : x s w with
  | error e w' =>
    rw [hrun] at hx
    exact hx
  | ok a w' =>
    rw [hrun] at hx
    exact hx

theorem look {f : Place → Disk → α} (h : Q (f s.directory d) d) :
    Passes (Action.look f : Action ε α) s d I Q E := by
  constructor
  rintro w rfl
  exact ⟨Leads.refl rfl rfl, h⟩

theorem now {Q : Nat → Disk → Prop} (h : ∀ n, Q (s.clock n) d) :
    Passes (Action.now : Action ε Nat) s d I Q E := by
  constructor
  rintro w rfl
  exact ⟨Leads.refl rfl rfl, h _⟩

theorem read {Q : Surroundings → Disk → Prop} (h : Q s d) :
    Passes (MonadReader.read : Action ε Surroundings) s d I Q E := by
  constructor
  rintro w rfl
  exact ⟨Leads.refl rfl rfl, h⟩

/-! ## Files -/

/-- A step is taken from the disk that it finds, or not at all. -/
theorem step {f : Place → Disk → Except Fault Disk} {Q : Unit → Disk → Prop}
    {E : Fault → Disk → Prop}
    (hok : ∀ d', f s.directory d = .ok d' → I d ∧ Q () d')
    (herror : ∀ e, f s.directory d = .error e → E e d) :
    Passes (Action.step f) s d I Q E := by
  constructor
  rintro w rfl
  unfold Action.step
  cases hrun : f s.directory w.disk with
  | ok d' => exact ⟨Leads.step rfl (hok d' hrun).1, (hok d' hrun).2⟩
  | error e => exact ⟨Leads.refl rfl rfl, herror e hrun⟩

theorem writeFile {path : String} {content : Bytes} {Q : Unit → Disk → Prop}
    {E : Fault → Disk → Prop}
    (hok : ∀ time d', d.write s.directory time path content = .ok d' → I d ∧ Q () d')
    (herror : ∀ e, E e d) : Passes (Machine.writeFile path content) s d I Q E := by
  constructor
  rintro w rfl
  exact (step (hok _) fun e _ => herror e).run w rfl

theorem createFile {path : String} {Q : Unit → Disk → Prop} {E : Fault → Disk → Prop}
    (hok : ∀ time d', d.create s.directory time path = .ok d' → I d ∧ Q () d')
    (herror : ∀ e, E e d) : Passes (Machine.createFile path) s d I Q E := by
  constructor
  rintro w rfl
  exact (step (hok _) fun e _ => herror e).run w rfl

theorem readFile {path : String} {Q : Bytes → Disk → Prop} {E : Fault → Disk → Prop}
    (hok : ∀ content, d.read s.directory path = .ok content → Q content d)
    (herror : ∀ e, d.read s.directory path = .error e → E e d) :
    Passes (Machine.readFile path) s d I Q E := by
  constructor
  rintro w rfl
  unfold Machine.readFile
  cases hrun : w.disk.read s.directory path with
  | ok content => exact ⟨Leads.refl rfl rfl, hok content hrun⟩
  | error e => exact ⟨Leads.refl rfl rfl, herror e hrun⟩

/-- Making directories changes no file on the way. -/
theorem makeDirectories {path : String} {Q : Unit → Disk → Prop} {E : Fault → Disk → Prop}
    (hI : ∀ d', d.SameFiles d' → I d') (hQ : ∀ d', d.SameFiles d' → Q () d')
    (hE : ∀ e d', d.SameFiles d' → E e d') :
    Passes (Machine.makeDirectories path) s d I Q E := by
  constructor
  rintro w rfl
  obtain ⟨hsame, hhead⟩ := Disk.makeDirectories_sameFiles s.directory path
    ((Path.components path).length + 1) w.disk
  unfold Machine.makeDirectories
  generalize Disk.makeDirectories s.directory path ((Path.components path).length + 1) w.disk = made
    at hsame hhead ⊢
  obtain ⟨d', steps, result⟩ := made
  dsimp only at hsame hhead ⊢
  have hall : ∀ e ∈ steps ++ [w.disk], w.disk.SameFiles e := by
    intro e he
    rcases List.mem_append.1 he with he | he
    · exact hsame e he
    · rw [List.mem_singleton.1 he]
      exact Disk.SameFiles.refl _
  have hleads : Leads I w { w with disk := d', steps := steps ++ w.steps } :=
    ⟨steps, rfl, hhead, fun e he => hI e (hall e (List.mem_of_mem_tail he))⟩
  have hlast : w.disk.SameFiles d' := hall d' (List.mem_of_mem_head? hhead)
  cases result with
  | ok u => exact ⟨hleads, hQ d' hlast⟩
  | error e => exact ⟨hleads, hE e d' hlast⟩

/-! ## Running -/

section Running

variable {w : World}

theorem perform (h : Passes x s d I Q E) (hw : w.disk = d) :
    Leads I w (x.perform s w).2 ∧ (∀ a, (x.perform s w).1 = .ok a → Q a (x.perform s w).2.disk)
      ∧ ∀ e, (x.perform s w).1 = .error e → E e (x.perform s w).2.disk := by
  have hx := h.run w hw
  unfold Action.perform
  cases hrun : x s w with
  | ok a w' =>
    rw [hrun] at hx
    refine ⟨hx.1, fun b hb => ?_, fun e he => (nomatch he)⟩
    exact Except.ok.inj hb ▸ hx.2
  | error e w' =>
    rw [hrun] at hx
    refine ⟨hx.1, fun a ha => (nomatch ha), fun e' he => ?_⟩
    exact Except.error.inj he ▸ hx.2

theorem ok {a : α} (h : Passes x s d I Q E) (hw : w.disk = d) (ha : (x.perform s w).1 = .ok a) :
    Q a (x.perform s w).2.disk :=
  (h.perform hw).2.1 a ha

theorem error {e : ε} (h : Passes x s d I Q E) (hw : w.disk = d)
    (he : (x.perform s w).1 = .error e) : E e (x.perform s w).2.disk :=
  (h.perform hw).2.2 e he

/-- Wherever an action is cut off, it leaves a disk that is met on the way. -/
theorem cutOff (h : Passes x s d I Q E) (hw : w.disk = d) (hcut : CutOff x s w d') : I d' := by
  obtain ⟨new, hsteps, hmem⟩ := hcut
  exact ((h.perform hw).1.of_steps hsteps).2 d' hmem

end Running

end Passes

end Jarwright.Machine
