import Jarwright.Proofs.Machine.Locality
import Mathlib.Logic.Relation

/-!
# Step by step

A world comes from another one by steps on the disk and nothing else (`Walks`), each of which does
what a relation between the disks before and after it allows. So what is said of every single step
is said of an action however it ends, and also of what was there in between.

* `Walks.makeDirectoriesFrom`: directories are made one by one;
* `Walks.allows`: what the steps do together, for the ways in which disks may change.
-/

namespace Jarwright.Machine

/-- The world after one more step on the disk. -/
def World.stepped (w : World) (d : Disk) : World := { w with disk := d, steps := d :: w.steps }

/-- Whether a world comes from another one by steps of a kind. -/
def Walks (R : Disk → Disk → Prop) : World → World → Prop :=
  Relation.ReflTransGen fun w w' => ∃ d, R w.disk d ∧ w' = w.stepped d

/-- The change that leaves the file at a place as it is. -/
def Change.leaving (q : Place) : Change where
  allows d d' := d'.content? q = d.content? q
  refl _ := rfl
  trans h h' := h'.trans h

namespace Walks

variable {R : Disk → Disk → Prop} {w w' w'' : World} {d : Disk}

theorem refl (w : World) : Walks R w w := Relation.ReflTransGen.refl

theorem trans (h : Walks R w w') (h' : Walks R w' w'') : Walks R w w'' :=
  Relation.ReflTransGen.trans h h'

theorem step (h : R w.disk d) : Walks R w (w.stepped d) := Relation.ReflTransGen.single ⟨d, h, rfl⟩

theorem mono {R' : Disk → Disk → Prop} (hR : ∀ d d', R d d' → R' d d') (h : Walks R w w') :
    Walks R' w w' := by
  induction h with
  | refl => exact refl w
  | tail _ hstep ih =>
    obtain ⟨d, hd, rfl⟩ := hstep
    exact ih.trans (step (hR _ _ hd))

/-- What every single step may do to a disk, the steps may do together. -/
theorem allows {c : Change} (hc : ∀ d d', R d d' → c.allows d d') (h : Walks R w w') :
    c.allows w.disk w'.disk := by
  induction h with
  | refl => exact c.refl _
  | tail _ hstep ih =>
    obtain ⟨d, hd, rfl⟩ := hstep
    exact c.trans ih (hc _ _ hd)

/-- Directories are made one by one, at the path and at those above it. -/
theorem makeDirectoriesFrom {directory : Place} {P : String → Prop}
    (hparent : ∀ path parent, P path → Path.parent? path = some parent → P parent)
    (h : ∀ (path : String) (d d' : Disk), P path → d.makeDirectory directory path = .ok d' →
      R d d')
    {path : String} (hpath : P path) (n : Nat) (w : World) :
    Walks R w { w with
      disk := (Disk.makeDirectories directory path n w.disk).1
      steps := (Disk.makeDirectories directory path n w.disk).2.1 ++ w.steps } :=
  Disk.makeDirectories_induction
    (M := fun d steps => Walks R w { w with disk := d, steps := steps ++ w.steps }) hparent
    (fun path d d' _ hpath hrest hmade => hrest.trans (step (h path d d' hpath hmade))) hpath
    (refl w) n

end Walks

namespace Ends

variable {R : Disk → Disk → Prop} {s : Surroundings} {w : World}

/-- Making a directory is a walk. -/
theorem walkDirectories {P : String → Prop}
    (hparent : ∀ path parent, P path → Path.parent? path = some parent → P parent)
    (h : ∀ (path : String) (d d' : Disk), P path → d.makeDirectory s.directory path = .ok d' →
      R d d')
    {path : String} (hpath : P path) :
    Ends (makeDirectories path) s w (fun _ w' => Walks R w w') fun _ w' => Walks R w w' := by
  have hwalks := Walks.makeDirectoriesFrom hparent h hpath ((Path.components path).length + 1) w
  constructor
  unfold makeDirectories
  generalize Disk.makeDirectories s.directory path ((Path.components path).length + 1) w.disk = made
    at hwalks ⊢
  obtain ⟨d, steps, _ | _⟩ := made
  · exact hwalks
  · exact hwalks

/-- Writing a file is one step, or none. -/
theorem walkFile {path : String} {content : Bytes}
    (h : ∀ now d, w.disk.write s.directory now path content = .ok d → R w.disk d) :
    Ends (Machine.writeFile path content) s w
      (fun _ w' => Walks R w w' ∧ ∃ now, w.disk.write s.directory now path content = .ok w'.disk)
      fun _ w' => w' = w :=
  .writeFile (fun now d hd => ⟨Walks.step (h now d hd), now, hd⟩) fun _ _ _ => rfl

end Ends

end Jarwright.Machine
