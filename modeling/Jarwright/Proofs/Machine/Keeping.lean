import Jarwright.Proofs.Machine.Change

/-!
# What actions keep

An action keeps an invariant of the disk when the invariant holds after it wherever it held before.
What the action results in and how it fails can depend on the invariant too, so that a fault tells
something about the disk on which it arose, and about how often the clock was read by then.

* `Keeps.of_moves`, `Keeps.of_still`: what takes only steps that the invariant allows keeps it, and
  so does what takes none;
* `Keeps.bind`, `Keeps.mapFault`, `Keeps.after`: how actions are put together.
-/

namespace Jarwright.Machine

/-- Whether an action keeps an invariant of the disk, has results that satisfy `Q` and faults that
satisfy `E` with the number of readings of the clock until then. -/
structure Keeps {ε α : Type} (I : Disk → Prop) (s : Surroundings) (x : Action ε α) (Q : α → Prop)
    (E : ε → Nat → Prop) : Prop where
  ends : ∀ w : World, I w.disk →
    Ends x s w (fun a w' => I w'.disk ∧ Q a) fun e w' => I w'.disk ∧ E e w'.readings

namespace Keeps

variable {ε ε' α β : Type} {I : Disk → Prop} {s : Surroundings} {x : Action ε α} {P Q : α → Prop}
  {R : β → Prop} {E F : ε → Nat → Prop}

theorem mono (h : Keeps I s x P E) (hQ : ∀ a, P a → Q a) (hE : ∀ e n, E e n → F e n) :
    Keeps I s x Q F :=
  ⟨fun w hw => (h.ends w hw).mono (fun a _ ha => ⟨ha.1, hQ a ha.2⟩)
    fun e _ he => ⟨he.1, hE e _ he.2⟩⟩

/-- Steps that the invariant allows keep it. -/
theorem of_moves {c : Change} (h : Moves c s x Q) (hI : ∀ d d', c.allows d d' → I d → I d')
    (hE : ∀ e n, E e n) : Keeps I s x Q E :=
  ⟨fun w hw => (h.ends w).mono (fun _ w' ha => ⟨hI _ w'.disk ha.1 hw, ha.2⟩)
    fun e w' he => ⟨hI _ w'.disk he hw, hE e _⟩⟩

/-- What takes no step keeps everything. -/
theorem of_still (h : Moves .still s x Q) (hE : ∀ e n, E e n) : Keeps I s x Q E :=
  of_moves h (fun _ _ hsame hd => hsame ▸ hd) hE

/-- Every action keeps what always holds. -/
theorem anyway : Keeps (fun _ => True) s x (fun _ => True) fun _ _ => True :=
  ⟨fun _ _ => .of_perform (fun _ _ _ => ⟨trivial, trivial⟩) fun _ _ _ => ⟨trivial, trivial⟩⟩

theorem result {a : α} {w : World} (h : Keeps I s x Q E) (hw : I w.disk)
    (ha : (x.perform s w).1 = .ok a) : Q a :=
  ((h.ends w hw).perform.1 a ha).2

theorem error {e : ε} {w : World} (h : Keeps I s x Q E) (hw : I w.disk)
    (he : (x.perform s w).1 = .error e) : E e (x.perform s w).2.readings :=
  ((h.ends w hw).perform.2 e he).2

theorem disk {w : World} (h : Keeps I s x Q E) (hw : I w.disk) : I (x.perform s w).2.disk := by
  obtain ⟨hok, herror⟩ := (h.ends w hw).perform
  cases hresult : (x.perform s w).1 with
  | ok a => exact (hok a hresult).1
  | error e => exact (herror e hresult).1

/-- What is known about all faults of an action holds of those on the way too. -/
theorem faults (h : Keeps I s x Q F)
    (hE : ∀ w e, (x.perform s w).1 = .error e → ∀ n, E e n) : Keeps I s x Q E := by
  refine ⟨fun w hw => ?_⟩
  obtain ⟨hok, herror⟩ := (h.ends w hw).perform
  refine .of_perform (fun a w' hrun => ?_) fun e w' hrun => ?_
  · rw [hrun] at hok
    exact hok a rfl
  · have hplain := hE w e (congrArg Prod.fst hrun)
    rw [hrun] at herror
    exact ⟨(herror e rfl).1, hplain _⟩

theorem pure {a : α} (h : Q a) : Keeps I s (Pure.pure a : Action ε α) Q E :=
  ⟨fun _ hw => .pure ⟨hw, h⟩⟩

theorem throw {e : ε} (h : ∀ n, E e n) : Keeps I s (MonadExcept.throw e : Action ε α) Q E :=
  ⟨fun _ hw => .throw ⟨hw, h _⟩⟩

theorem bind {f : α → Action ε β} (h : Keeps I s x P E) (hf : ∀ a, P a → Keeps I s (f a) R E) :
    Keeps I s (x >>= f) R E :=
  ⟨fun w hw => .bind ((h.ends w hw).mono (fun a w' ha => (hf a ha.2).ends w' ha.1)
    fun _ _ he => he)⟩

theorem map {f : α → β} (h : Keeps I s x (fun a => R (f a)) E) : Keeps I s (f <$> x) R E :=
  ⟨fun w hw => .map (h.ends w hw)⟩

theorem mapFault {f : ε → ε'} {E : ε' → Nat → Prop} (h : Keeps I s x Q fun e => E (f e)) :
    Keeps I s (x.mapFault f) Q E :=
  ⟨fun w hw => .mapFault (h.ends w hw)⟩

theorem attempt {R : Except ε α → Prop} {E : ε' → Nat → Prop}
    (h : Keeps I s x (fun a => R (.ok a)) fun e _ => R (.error e)) :
    Keeps I s (Action.attempt x : Action ε' (Except ε α)) R E :=
  ⟨fun w hw => .attempt (h.ends w hw)⟩

/-- What is done after an action in any case does not read the clock. -/
theorem after {cleanUp : Action ε Unit} (h : Keeps I s x Q E)
    (hclean : Keeps I s cleanUp (fun _ => True) E)
    (hreadings : ∀ w, (cleanUp.perform s w).2.readings = w.readings) :
    Keeps I s (x.after cleanUp) Q E := by
  refine ⟨fun w hw => .after ((h.ends w hw).mono ?_ ?_)⟩
  · rintro a w' ⟨hkept, ha⟩
    exact (hclean.ends w' hkept).mono (fun _ _ hrest => ⟨hrest.1, ha⟩) fun _ _ hrest => hrest
  · rintro e w' ⟨hkept, he⟩
    have hdisk := hclean.disk hkept
    rw [← hreadings w'] at he
    exact .of_perform (fun _ w'' h => by rw [h] at hdisk he; exact ⟨hdisk, he⟩)
      fun _ w'' h => by rw [h] at hdisk he; exact ⟨hdisk, he⟩

theorem orFail {f : ε' → ε} {r : Except ε' α} (hQ : ∀ a, r = .ok a → Q a)
    (hE : ∀ e, r = .error e → ∀ n, E (f e) n) : Keeps I s (Action.orFail f r) Q E :=
  ⟨fun _ hw => .orFail (fun a ha => ⟨hw, hQ a ha⟩) fun e he => ⟨hw, hE e he _⟩⟩

theorem look {f : Place → Disk → α} (h : ∀ d, I d → Q (f s.directory d)) :
    Keeps I s (Action.look f : Action ε α) Q E :=
  ⟨fun w hw => .look ⟨hw, h w.disk hw⟩⟩

theorem read {Q : Surroundings → Prop} (h : Q s) :
    Keeps I s (MonadReader.read : Action ε Surroundings) Q E :=
  ⟨fun _ hw => .read ⟨hw, h⟩⟩

theorem now : Keeps I s (Action.now : Action ε Nat) (fun _ => True) E :=
  ⟨fun _ hw => .now ⟨hw, trivial⟩⟩

theorem request {url : String} :
    Keeps I s (Machine.request url : Action ε Reply) (fun _ => True) E :=
  ⟨fun _ hw => .request ⟨hw, trivial⟩⟩

end Keeps

end Jarwright.Machine
