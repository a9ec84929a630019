import Jarwright.Proofs.Machine.Action

/-!
# How actions end

`Ends` says in which world an action ends and with which result or fault. It speaks of the whole
world, so of the commands and requests as well as of the disk, but not of what is passed on the way.
There is one rule for each way of putting actions together.

* `Ends.bind`, `Ends.mapFault`, `Ends.attempt`, `Ends.after`: how actions are put together;
* `Ends.look`, `Ends.step`, `Ends.run`, `Ends.request`: what actions consist of;
* `Ends.perform`: what is known when an action has ended;
* `Action.perform_bind` and its like: the same as equations, where it is known what happens;
* `World.following`: the world after some commands and nothing else.
-/

namespace Jarwright.Machine

variable {ε ε' α β : Type} {s : Surroundings} {w w' : World}

/-! ## Commands that were run -/

/-- A command that was run, and the disk that it left. -/
structure Event where
  call : Call
  disk : Disk

/-- The world after one more command. -/
def World.after (w : World) (e : Event) : World :=
  { w with disk := e.disk, steps := e.disk :: w.steps, calls := e.call :: w.calls }

@[simp] theorem World.after_disk (w : World) (e : Event) : (w.after e).disk = e.disk := rfl

/-- The world after some commands, the latest first, in which nothing else has happened. -/
def World.following (w : World) (events : List Event) : World :=
  events.foldr (fun e w => w.after e) w

theorem World.following_append (w : World) (later earlier : List Event) :
    w.following (later ++ earlier) = (w.following earlier).following later :=
  List.foldr_append

theorem World.calls_following (w : World) (events : List Event) :
    (w.following events).calls = events.map Event.call ++ w.calls := by
  induction events with
  | nil => rfl
  | cons e events ih => exact congrArg (e.call :: ·) ih

/-! ## Ends -/

/-- Whether an action that starts in a world ends in one that satisfies `Q` with its result, or `E`
with its fault. -/
structure Ends (x : Action ε α) (s : Surroundings) (w : World) (Q : α → World → Prop)
    (E : ε → World → Prop) : Prop where
  out : match x s w with
    | .ok a w' => Q a w'
    | .error e w' => E e w'

namespace Ends

variable {x : Action ε α} {Q R : α → World → Prop} {E F : ε → World → Prop}

theorem mono (h : Ends x s w Q E) (hQ : ∀ a w', Q a w' → R a w')
    (hE : ∀ e w', E e w' → F e w') : Ends x s w R F := by
  have hx := h.out
  constructor
  cases hrun : x s w with
  | ok a w' =>
    rw [hrun] at hx
    exact hQ a w' hx
  | error e w' =>
    rw [hrun] at hx
    exact hE e w' hx

theorem and (h : Ends x s w Q E) (h' : Ends x s w R F) :
    Ends x s w (fun a w' => Q a w' ∧ R a w') fun e w' => E e w' ∧ F e w' := by
  have hx := h.out
  have hx' := h'.out
  constructor
  cases hrun : x s w with
  | ok a w' =>
    rw [hrun] at hx hx'
    exact ⟨hx, hx'⟩
  | error e w' =>
    rw [hrun] at hx hx'
    exact ⟨hx, hx'⟩

theorem pure {a : α} (h : Q a w) : Ends (Pure.pure a : Action ε α) s w Q E := ⟨h⟩

theorem throw {e : ε} (h : E e w) : Ends (MonadExcept.throw e : Action ε α) s w Q E := ⟨h⟩

theorem bind {f : α → Action ε β} {R : β → World → Prop}
    (h : Ends x s w (fun a w' => Ends (f a) s w' R E) E) : Ends (x >>= f) s w R E := by
  have hx := h.out
  constructor
  rw [Action.bind_apply]
  cases hrun : x s w with
  | ok a w' =>
    rw [hrun] at hx
    exact hx.out
  | error e w' =>
    rw [hrun] at hx
    exact hx

theorem map {f : α → β} {R : β → World → Prop} (h : Ends x s w (fun a w' => R (f a) w') E) :
    Ends (f <$> x) s w R E := by
  have hmap : f <$> x = x >>= fun a => Pure.pure (f a) := (bind_pure_comp f x).symm
  rw [hmap]
  exact bind (h.mono (fun _ _ hR => pure hR) fun _ _ hE => hE)

theorem mapFault {f : ε → ε'} {E : ε' → World → Prop}
    (h : Ends x s w Q fun e w' => E (f e) w') : Ends (Action.mapFault f x) s w Q E := by
  have hx := h.out
  constructor
  unfold Action.mapFault
  cases hrun : x s w with
  | ok a w' =>
    rw [hrun] at hx
    exact hx
  | error e w' =>
    rw [hrun] at hx
    exact hx

theorem attempt {R : Except ε α → World → Prop} {E : ε' → World → Prop}
    (h : Ends x s w (fun a w' => R (.ok a) w') fun e w' => R (.error e) w') :
    Ends (Action.attempt x : Action ε' (Except ε α)) s w R E := by
  have hx := h.out
  constructor
  unfold Action.attempt
  cases hrun : x s w with
  | ok a w' =>
    rw [hrun] at hx
    exact hx
  | error e w' =>
    rw [hrun] at hx
    exact hx

/-- What is done after an action in any case. -/
theorem after {cleanUp : Action ε Unit}
    (h : Ends x s w (fun a w' => Ends cleanUp s w' (fun _ => Q a) E)
      fun e w' => Ends cleanUp s w' (fun _ => E e) fun _ => E e) :
    Ends (Action.after x cleanUp) s w Q E := by
  have hx := h.out
  constructor
  unfold Action.after
  cases hrun : x s w with
  | ok a w' =>
    rw [hrun] at hx
    have hclean := hx.out
    dsimp only
    cases hrest : cleanUp s w' with
    | ok u w'' =>
      rw [hrest] at hclean
      exact hclean
    | error e w'' =>
      rw [hrest] at hclean
      exact hclean
  | error e w' =>
    rw [hrun] at hx
    have hclean := hx.out
    dsimp only
    cases hrest : cleanUp s w' with
    | ok u w'' =>
      rw [hrest] at hclean
      exact hclean
    | error e' w'' =>
      rw [hrest] at hclean
      exact hclean

theorem orFail {f : ε' → ε} {r : Except ε' α} (hok : ∀ a, r = .ok a → Q a w)
    (herror : ∀ e, r = .error e → E (f e) w) : Ends (Action.orFail f r) s w Q E := by
  constructor
  unfold Action.orFail
  cases r with
  | ok a => exact hok a rfl
  | error e => exact herror e rfl

theorem look {f : Place → Disk → α} (h : Q (f s.directory w.disk) w) :
    Ends (Action.look f : Action ε α) s w Q E := ⟨h⟩

theorem holds {path : String} {Q : Bool → World → Prop} (h : Q (w.disk.holds s.directory path) w) :
    Ends (Machine.holds path : Action ε Bool) s w Q E := ⟨h⟩

theorem isDirectory {path : String} {Q : Bool → World → Prop}
    (h : Q (w.disk.isDirectory s.directory path) w) :
    Ends (Machine.isDirectory path : Action ε Bool) s w Q E := ⟨h⟩

theorem readFile {path : String} {Q : Bytes → World → Prop} {E : Fault → World → Prop}
    (hok : ∀ content, w.disk.read s.directory path = .ok content → Q content w)
    (herror : ∀ e, w.disk.read s.directory path = .error e → E e w) :
    Ends (Machine.readFile path) s w Q E := by
  constructor
  unfold Machine.readFile
  cases hrun : w.disk.read s.directory path with
  | ok content => exact hok content hrun
  | error e => exact herror e hrun

theorem listDirectory {path : String} {Q : List String → World → Prop} {E : Fault → World → Prop}
    (hok : ∀ names, w.disk.list s.directory path = .ok names → Q names w)
    (herror : ∀ e, w.disk.list s.directory path = .error e → E e w) :
    Ends (Machine.listDirectory path) s w Q E := by
  constructor
  unfold Machine.listDirectory
  cases hrun : w.disk.list s.directory path with
  | ok names => exact hok names hrun
  | error e => exact herror e hrun

theorem read {Q : Surroundings → World → Prop} (h : Q s w) :
    Ends (MonadReader.read : Action ε Surroundings) s w Q E := ⟨h⟩

theorem now {Q : Nat → World → Prop}
    (h : Q (s.clock w.readings) { w with readings := w.readings + 1 }) :
    Ends (Action.now : Action ε Nat) s w Q E := ⟨h⟩

theorem step {f : Place → Disk → Except Fault Disk} {Q : Unit → World → Prop}
    {E : Fault → World → Prop}
    (hok : ∀ d, f s.directory w.disk = .ok d → Q () { w with disk := d, steps := d :: w.steps })
    (herror : ∀ e, f s.directory w.disk = .error e → E e w) : Ends (Action.step f) s w Q E := by
  constructor
  unfold Action.step
  cases hrun : f s.directory w.disk with
  | ok d => exact hok d hrun
  | error e => exact herror e hrun

theorem writeFile {path : String} {content : Bytes} {Q : Unit → World → Prop}
    {E : Fault → World → Prop}
    (hok : ∀ now d, w.disk.write s.directory now path content = .ok d →
      Q () { w with disk := d, steps := d :: w.steps })
    (herror : ∀ now e, w.disk.write s.directory now path content = .error e → E e w) :
    Ends (Machine.writeFile path content) s w Q E :=
  ⟨(step (hok (writingTime s w)) (herror (writingTime s w))).out⟩

theorem createFile {path : String} {Q : Unit → World → Prop} {E : Fault → World → Prop}
    (hok : ∀ now d, w.disk.create s.directory now path = .ok d →
      Q () { w with disk := d, steps := d :: w.steps })
    (herror : ∀ now e, w.disk.create s.directory now path = .error e → E e w) :
    Ends (Machine.createFile path) s w Q E :=
  ⟨(step (hok (writingTime s w)) (herror (writingTime s w))).out⟩

theorem run {c : Command} {limits : Limits} {Q : Outcome → World → Prop}
    {E : CommandFault → World → Prop}
    (hok : ∀ x d, s.run w.calls c limits w.disk = (some x, d) →
      Q (x.outcome limits) (w.after ⟨⟨c, some x⟩, d⟩))
    (herror : ∀ d, s.run w.calls c limits w.disk = (none, d) →
      E (.notStarted c) (w.after ⟨⟨c, none⟩, d⟩)) :
    Ends (Machine.run c limits) s w Q E := by
  constructor
  unfold Machine.run
  rcases hrun : s.run w.calls c limits w.disk with ⟨execution, d⟩
  cases execution with
  | some x => exact hok x d hrun
  | none => exact herror d hrun

theorem request {url : String} {Q : Reply → World → Prop}
    (h : Q (s.serve w.requests url) { w with requests := url :: w.requests }) :
    Ends (Machine.request url : Action ε Reply) s w Q E := ⟨h⟩

/-- What is known when an action has ended. -/
theorem perform (h : Ends x s w Q E) :
    (∀ a, (x.perform s w).1 = .ok a → Q a (x.perform s w).2)
      ∧ ∀ e, (x.perform s w).1 = .error e → E e (x.perform s w).2 := by
  have hx := h.out
  unfold Action.perform
  cases hrun : x s w with
  | ok a w' =>
    rw [hrun] at hx
    refine ⟨fun b hb => ?_, fun e he => (nomatch he)⟩
    exact Except.ok.inj hb ▸ hx
  | error e w' =>
    rw [hrun] at hx
    refine ⟨fun a ha => (nomatch ha), fun e' he => ?_⟩
    exact Except.error.inj he ▸ hx

/-- An action ends in one of two ways. -/
theorem perform_cases (h : Ends x s w Q E) :
    (∃ a w', x.perform s w = (.ok a, w') ∧ Q a w')
      ∨ ∃ e w', x.perform s w = (.error e, w') ∧ E e w' := by
  have hx := h.out
  unfold Action.perform
  cases hrun : x s w with
  | ok a w' =>
    rw [hrun] at hx
    exact .inl ⟨a, w', rfl, hx⟩
  | error e w' =>
    rw [hrun] at hx
    exact .inr ⟨e, w', rfl, hx⟩

/-- What is said of both ways of ending holds of the one that comes about. -/
theorem perform_result {R : Except ε α → World → Prop}
    (h : Ends x s w (fun a => R (.ok a)) fun e => R (.error e)) :
    R (x.perform s w).1 (x.perform s w).2 := by
  rcases h.perform_cases with ⟨a, w', hrun, ha⟩ | ⟨e, w', hrun, he⟩
  · rw [hrun]
    exact ha
  · rw [hrun]
    exact he

/-- What is said of the last disk holds when an action has ended. -/
theorem of_passes {I : Disk → Prop} {Q : α → Disk → Prop} {E : ε → Disk → Prop}
    (h : Passes x s w.disk I Q E) :
    Ends x s w (fun a w' => Q a w'.disk) fun e w' => E e w'.disk := by
  have hx := h.run w rfl
  constructor
  cases hrun : x s w with
  | ok a w' =>
    rw [hrun] at hx
    exact hx.2
  | error e w' =>
    rw [hrun] at hx
    exact hx.2

/-- An action ends as it does when it is run. -/
theorem of_perform (hQ : ∀ a w', x.perform s w = (.ok a, w') → Q a w')
    (hE : ∀ e w', x.perform s w = (.error e, w') → E e w') : Ends x s w Q E := by
  constructor
  cases hrun : x s w with
  | ok a w' => exact hQ a w' (by rw [Action.perform, hrun])
  | error e w' => exact hE e w' (by rw [Action.perform, hrun])

end Ends

/-! ## Performing -/

@[simp] theorem mapError_ok {f : ε → ε'} {a : α} :
    (Except.ok a : Except ε α).mapError f = .ok a := rfl

@[simp] theorem mapError_error {f : ε → ε'} {e : ε} :
    (Except.error e : Except ε α).mapError f = .error (f e) := rfl

theorem mapError_eq_ok {x : Except ε α} {f : ε → ε'} {a : α} :
    x.mapError f = .ok a ↔ x = .ok a := by
  cases x <;> simp

theorem map_eq_ok {x : Except ε α} {f : α → β} {b : β} :
    x.map f = .ok b ↔ ∃ a, x = .ok a ∧ f a = b := by
  cases x <;> simp [Except.map]

namespace Action

@[simp] theorem perform_pure (a : α) : (Pure.pure a : Action ε α).perform s w = (.ok a, w) := rfl

theorem perform_bind (x : Action ε α) (f : α → Action ε β) :
    (x >>= f).perform s w = match x.perform s w with
      | (.ok a, w') => (f a).perform s w'
      | (.error e, w') => (.error e, w') := by
  unfold perform
  rw [bind_apply]
  cases x s w <;> rfl

theorem perform_bind_pure (x : Action ε α) (f : α → β) :
    (x >>= fun a => Pure.pure (f a)).perform s w
      = ((x.perform s w).1.map f, (x.perform s w).2) := by
  rw [perform_bind]
  rcases x.perform s w with ⟨_ | _, w'⟩ <;> rfl

@[simp] theorem perform_mapFault (f : ε → ε') (x : Action ε α) :
    (x.mapFault f).perform s w = ((x.perform s w).1.mapError f, (x.perform s w).2) := by
  unfold perform Action.mapFault
  cases x s w <;> rfl

@[simp] theorem perform_attempt (x : Action ε α) :
    (attempt x : Action ε' (Except ε α)).perform s w
      = (.ok (x.perform s w).1, (x.perform s w).2) := by
  unfold perform attempt
  cases x s w <;> rfl

@[simp] theorem perform_orFail (f : ε' → ε) (r : Except ε' α) :
    (orFail f r : Action ε α).perform s w = (r.mapError f, w) := by
  unfold perform orFail
  cases r <;> rfl

@[simp] theorem perform_read : (read : Action ε Surroundings).perform s w = (.ok s, w) := rfl

@[simp] theorem perform_isFile (path : String) :
    (isFile path : Action ε Bool).perform s w = (.ok (w.disk.isFile s.directory path), w) := rfl

@[simp] theorem perform_readFile (path : String) :
    (readFile path).perform s w = (w.disk.read s.directory path, w) := by
  unfold perform readFile
  cases w.disk.read s.directory path <;> rfl

/-- Making directories changes no file and runs nothing. -/
theorem perform_makeDirectories (path : String) :
    w.disk.SameFiles ((makeDirectories path).perform s w).2.disk
      ∧ ((makeDirectories path).perform s w).2.calls = w.calls := by
  have hpasses : Passes (makeDirectories path) s w.disk (fun _ => True)
      (fun _ d => w.disk.SameFiles d) fun _ d => w.disk.SameFiles d :=
    .makeDirectories (fun _ _ => trivial) (fun _ h => h) fun _ _ h => h
  constructor
  · cases hresult : ((makeDirectories path).perform s w).1 with
    | ok u => exact hpasses.ok rfl hresult
    | error e => exact hpasses.error rfl hresult
  · unfold perform makeDirectories
    rcases Disk.makeDirectories s.directory path ((Path.components path).length + 1) w.disk with
      ⟨d, steps, _ | _⟩ <;> rfl

/-- What is done after an action has no part in its result, unless it fails after a good end. -/
theorem perform_after (x : Action ε α) (cleanUp : Action ε Unit) :
    (x.after cleanUp).perform s w = match x.perform s w with
      | (.ok a, w') => match cleanUp.perform s w' with
        | (.ok _, w'') => (.ok a, w'')
        | (.error e, w'') => (.error e, w'')
      | (.error e, w') => (.error e, (cleanUp.perform s w').2) := by
  unfold perform after
  cases x s w with
  | ok a w' =>
    dsimp only
    cases cleanUp s w' <;> rfl
  | error e w' =>
    dsimp only
    cases cleanUp s w' <;> rfl

end Action

end Jarwright.Machine
