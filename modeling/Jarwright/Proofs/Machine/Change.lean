import Jarwright.Proofs.Machine.Ending
import Jarwright.Proofs.Machine.Replacement

/-!
# How actions change the disk

A `Change` is a way in which a disk may change, one step after the other. That an action changes the
disk in such a way, wherever it starts (`Moves`), follows from the same for its parts; what a part
results in can be kept for those behind it.

* `Moves.bind`, `Moves.mapFault`, `Moves.attempt`: how actions are put together;
* `Moves.step`, `Moves.makeDirectories`: the actions that take steps;
* `Change.steady`: directories stay, as they do unless a tree is removed; `Change.growing`: nothing
  is lost and only directories are new.
-/

namespace Jarwright.Machine

/-- A way in which a disk may change. -/
structure Change where
  allows : Disk → Disk → Prop
  refl : ∀ d, allows d d
  trans : ∀ {d₁ d₂ d₃ : Disk}, allows d₁ d₂ → allows d₂ d₃ → allows d₁ d₃

/-- The change that is none. -/
def Change.still : Change where
  allows d d' := d' = d
  refl _ := rfl
  trans h h' := h'.trans h

/-- Whether an action changes the disk only in one way, and has results that satisfy `Q`. -/
structure Moves {ε α : Type} (c : Change) (s : Surroundings) (x : Action ε α) (Q : α → Prop) :
    Prop where
  ends : ∀ w : World, Ends x s w (fun a w' => c.allows w.disk w'.disk ∧ Q a)
    fun _ w' => c.allows w.disk w'.disk

namespace Moves

variable {ε ε' α β : Type} {c : Change} {s : Surroundings} {x : Action ε α} {P Q : α → Prop}
  {R : β → Prop}

theorem pure {a : α} (h : Q a) : Moves c s (Pure.pure a : Action ε α) Q :=
  ⟨fun _ => .pure ⟨c.refl _, h⟩⟩

theorem throw {e : ε} : Moves c s (MonadExcept.throw e : Action ε α) Q :=
  ⟨fun _ => .throw (c.refl _)⟩

theorem bind {f : α → Action ε β} (h : Moves c s x P) (hf : ∀ a, P a → Moves c s (f a) R) :
    Moves c s (x >>= f) R := by
  refine ⟨fun w => .bind ((h.ends w).mono ?_ fun _ _ he => he)⟩
  rintro a w' ⟨hfirst, ha⟩
  refine ((hf a ha).ends w').mono ?_ fun _ _ he => c.trans hfirst he
  rintro b w'' ⟨hrest, hb⟩
  exact ⟨c.trans hfirst hrest, hb⟩

theorem mapFault {f : ε → ε'} (h : Moves c s x Q) : Moves c s (x.mapFault f) Q :=
  ⟨fun w => .mapFault (h.ends w)⟩

theorem attempt {R : Except ε α → Prop} (h : Moves c s x fun a => R (.ok a))
    (herror : ∀ e, R (.error e)) : Moves c s (Action.attempt x : Action ε' (Except ε α)) R :=
  ⟨fun w => .attempt ((h.ends w).mono (fun _ _ ha => ha) fun e _ he => ⟨he, herror e⟩)⟩

theorem look {f : Place → Disk → α} (h : ∀ d, Q (f s.directory d)) :
    Moves c s (Action.look f : Action ε α) Q :=
  ⟨fun _ => .look ⟨c.refl _, h _⟩⟩

theorem read {Q : Surroundings → Prop} (h : Q s) :
    Moves c s (MonadReader.read : Action ε Surroundings) Q :=
  ⟨fun _ => .read ⟨c.refl _, h⟩⟩

theorem now : Moves c s (Action.now : Action ε Nat) fun _ => True :=
  ⟨fun _ => .now ⟨c.refl _, trivial⟩⟩

theorem nextSerial : Moves c s (Machine.nextSerial : Action ε Nat) fun _ => True :=
  ⟨fun _ => ⟨⟨c.refl _, trivial⟩⟩⟩

theorem run {command : Command} {limits : Limits}
    (h : ∀ calls d, c.allows d (s.run calls command limits d).2) :
    Moves c s (Machine.run command limits) fun _ => True := by
  refine ⟨fun w => .run (fun x d hrun => ⟨?_, trivial⟩) fun d hrun => ?_⟩
  · simpa only [hrun, World.after_disk] using h w.calls w.disk
  · simpa only [hrun, World.after_disk] using h w.calls w.disk

theorem runOrFail {command : Command} {limits : Limits}
    (h : ∀ calls d, c.allows d (s.run calls command limits d).2) :
    Moves c s (Machine.runOrFail command limits) fun _ => True := by
  refine .bind (.run h) fun o _ => ?_
  split
  · exact .pure trivial
  · exact .throw

/-- However an action ends, the disk has changed in that way. -/
theorem allows_perform (h : Moves c s x Q) (w : World) :
    c.allows w.disk (x.perform s w).2.disk := by
  obtain ⟨hok, herror⟩ := (h.ends w).perform
  cases hresult : (x.perform s w).1 with
  | ok a => exact (hok a hresult).1
  | error e => exact herror e hresult

/-! ## Files -/

theorem readFile {path : String} : Moves c s (Machine.readFile path) fun _ => True :=
  ⟨fun _ => .readFile (fun _ _ => ⟨c.refl _, trivial⟩) fun _ _ => c.refl _⟩

theorem step {f : Place → Disk → Except Fault Disk} {Q : Unit → Prop} (hQ : Q ())
    (h : ∀ d d', f s.directory d = .ok d' → c.allows d d') : Moves c s (Action.step f) Q :=
  ⟨fun _ => .step (fun d hd => ⟨h _ d hd, hQ⟩) fun _ _ => c.refl _⟩

theorem writeFile {path : String} {content : Bytes}
    (h : ∀ now d d', d.write s.directory now path content = .ok d' → c.allows d d') :
    Moves c s (Machine.writeFile path content) fun _ => True :=
  ⟨fun _ => .writeFile (fun now d hd => ⟨h now _ d hd, trivial⟩) fun _ _ _ => c.refl _⟩

theorem createFile {path : String} {Q : Unit → Prop} (hQ : Q ())
    (h : ∀ now d d', d.create s.directory now path = .ok d' → c.allows d d') :
    Moves c s (Machine.createFile path) Q :=
  ⟨fun _ => .createFile (fun now d hd => ⟨h now _ d hd, hQ⟩) fun _ _ _ => c.refl _⟩

end Moves

/-- Directories are made one by one, at the path and at those above it. -/
theorem Disk.makeDirectories_allowed {c : Change} {directory : Place} {P : String → Prop}
    (hparent : ∀ path parent, P path → Path.parent? path = some parent → P parent)
    (h : ∀ (path : String) (d d' : Disk), P path → d.makeDirectory directory path = .ok d' →
      c.allows d d')
    {path : String} (hpath : P path) (n : Nat) (d : Disk) :
    c.allows d (Disk.makeDirectories directory path n d).1 :=
  Disk.makeDirectories_induction (M := fun d' _ => c.allows d d') hparent
    (fun path d₁ d' _ hpath hrest hmade => c.trans hrest (h path d₁ d' hpath hmade)) hpath
    (c.refl d) n

/-- Making a directory makes no others than that and those above it. -/
theorem Moves.makeDirectoriesOf {c : Change} {s : Surroundings} {P : String → Prop}
    (hparent : ∀ path parent, P path → Path.parent? path = some parent → P parent)
    (h : ∀ (path : String) (d d' : Disk), P path → d.makeDirectory s.directory path = .ok d' →
      c.allows d d')
    {path : String} (hpath : P path) :
    Moves c s (Machine.makeDirectories path) fun _ => True := by
  refine ⟨fun w => ⟨?_⟩⟩
  have hallowed :=
    Disk.makeDirectories_allowed hparent h hpath ((Path.components path).length + 1) w.disk
  unfold Machine.makeDirectories
  generalize Disk.makeDirectories s.directory path ((Path.components path).length + 1) w.disk = made
    at hallowed ⊢
  obtain ⟨d, steps, _ | _⟩ := made
  · exact hallowed
  · exact ⟨hallowed, trivial⟩

theorem Moves.makeDirectories {c : Change} {s : Surroundings} {path : String}
    (h : ∀ (path : String) (d d' : Disk), d.makeDirectory s.directory path = .ok d' →
      c.allows d d') : Moves c s (Machine.makeDirectories path) fun _ => True :=
  .makeDirectoriesOf (fun _ _ _ _ => trivial) (fun path d d' _ => h path d d') trivial

/-! ## Directories -/

namespace Disk

variable {d d' : Disk} {directory p : Place} {path : String}

/-- Whether the directories of a disk are still directories on another one. -/
def KeepsDirectories (d d' : Disk) : Prop :=
  ∀ r, d.get? r = some .directory → d'.get? r = some .directory

theorem keepsDirectories_put {node : Node} (h : d.get? p ≠ some .directory) :
    d.KeepsDirectories (d.put p node) := by
  intro r hr
  have hne : r ≠ p := by
    rintro rfl
    exact h hr
  rw [get?_put (ne_nil_of_get? h), if_neg hne, hr]

theorem keepsDirectories_erase (h : d.get? p ≠ some .directory) :
    d.KeepsDirectories (d.erase p) := by
  intro r hr
  have hne : r ≠ p := by
    rintro rfl
    exact h hr
  rw [get?_erase (ne_nil_of_get? h), if_neg hne, hr]

theorem keepsDirectories_write {now : Nat} {content : Bytes}
    (h : d.write directory now path content = .ok d') : d.KeepsDirectories d' := by
  obtain ⟨-, hdirectory, rfl⟩ := write_eq_ok h
  exact keepsDirectories_put hdirectory

theorem keepsDirectories_create {now : Nat} (h : d.create directory now path = .ok d') :
    d.KeepsDirectories d' := by
  obtain ⟨-, hnone, rfl⟩ := create_eq_ok h
  exact keepsDirectories_put (by simp [hnone])

theorem keepsDirectories_remove (h : d.remove directory path = .ok d') :
    d.KeepsDirectories d' := by
  obtain ⟨⟨content, hcontent⟩, rfl⟩ := remove_eq_ok h
  obtain ⟨written, hfile⟩ := content?_eq_some_iff.1 hcontent
  exact keepsDirectories_erase (by simp [hfile])

theorem keepsDirectories_rename {target : String} (h : d.rename directory path target = .ok d') :
    d.KeepsDirectories d' := by
  obtain ⟨-, content, written, hsource, hdirectory, rfl⟩ := rename_eq_ok h
  split
  · exact fun r hr => hr
  · rename_i hne
    have herased : (d.erase (place directory path)).get? (place directory target)
        ≠ some .directory := by
      have hroot : place directory path ≠ [] := ne_nil_of_get? (d := d) (by simp [hsource])
      rwa [get?_erase hroot, if_neg (Ne.symm hne)]
    intro r hr
    exact keepsDirectories_put herased r (keepsDirectories_erase (by simp [hsource]) r hr)

theorem keepsDirectories_makeDirectory (h : d.makeDirectory directory path = .ok d') :
    d.KeepsDirectories d' := by
  obtain ⟨hnone, rfl⟩ := makeDirectory_eq_ok h
  exact keepsDirectories_put (by simp [hnone])

end Disk

/-- Directories stay. -/
def Change.steady : Change where
  allows := Disk.KeepsDirectories
  refl _ _ hr := hr
  trans h h' r hr := h' r (h r hr)

/-- Directories stay, and files are as they were. -/
def Change.growing : Change where
  allows d d' := d.KeepsDirectories d' ∧ d.SameFiles d'
  refl d := ⟨fun _ hr => hr, .refl d⟩
  trans h h' := ⟨steady.trans h.1 h'.1, h.2.trans h'.2⟩

theorem growing_makeDirectories {s : Surroundings} {path : String} :
    Moves .growing s (makeDirectories path) fun _ => True :=
  .makeDirectories fun _ _ _ hmade =>
    ⟨Disk.keepsDirectories_makeDirectory hmade, Disk.sameFiles_of_makeDirectory hmade⟩

section Steady

variable {ε : Type} {s : Surroundings} {path target : String}

theorem steady_createNextTo {folder name : String} {n : Nat} :
    Moves .steady s (createNextTo folder name n) fun _ => True := by
  induction n with
  | zero => exact .throw
  | succ n ih =>
    refine .bind .nextSerial fun number _ => ?_
    refine .bind (.read (Q := fun _ => True) trivial) fun _ _ => ?_
    refine .bind (.attempt (R := fun _ => True)
      (.createFile trivial fun _ _ _ => Disk.keepsDirectories_create) fun _ => trivial) ?_
    rintro result -
    split
    · exact .pure trivial
    · exact ih
    · exact .throw

theorem steady_finishWith {temporary : String} {produce : Action Fault Draft}
    (h : Moves .steady s produce fun _ => True) :
    Moves .steady s (finishWith temporary path produce) fun _ => True := by
  have hgiveUp (e : Fault) : Moves .steady s (do
      let _ ← (Action.attempt (removeFile temporary) : Action Fault (Except Fault Unit))
      throw e : Action Fault Unit) fun _ => True :=
    .bind (.attempt (R := fun _ => True) (.step trivial fun _ _ => Disk.keepsDirectories_remove)
      fun _ => trivial) fun _ _ => .throw
  refine .bind (.attempt (R := fun _ => True) (.bind h fun draft _ => .bind
    (.writeFile fun _ _ _ => Disk.keepsDirectories_write) fun _ _ => ?_) fun _ => trivial) ?_
  · split
    · exact .throw
    · exact .pure trivial
  · rintro written -
    split
    · exact hgiveUp _
    · refine .bind (.attempt (R := fun _ => True)
        (.step trivial fun _ _ => Disk.keepsDirectories_rename) fun _ => trivial) ?_
      rintro renamed -
      split
      · exact .pure trivial
      · exact hgiveUp _

/-- Replacing a file takes no directory away, whatever the content comes from. -/
theorem steady_replaceWith {produce : Action Fault Draft} {name : String}
    (hname : Path.fileName? path = some name) (h : Moves .steady s produce fun _ => True) :
    Moves .steady s (replaceWith path produce) fun _ => True := by
  obtain ⟨folder, -, -, heq⟩ := replaceWith_eq produce hname
  rw [heq]
  refine .bind (.makeDirectories fun _ _ _ => Disk.keepsDirectories_makeDirectory) fun _ _ => ?_
  refine .bind (.look (Q := fun _ => True) fun _ => trivial) fun n _ => ?_
  exact .bind steady_createNextTo fun temporary _ => steady_finishWith h

end Steady

end Jarwright.Machine
