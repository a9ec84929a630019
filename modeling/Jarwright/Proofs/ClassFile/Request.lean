import Jarwright.Proofs.ClassFile.Interning

/-!
# Requests to a pool

A request asks a pool for the index of a constant, or of several with the texts that they need. It
interns one constant after the other, and when it fails the pool keeps those that were added before.

* `Request` lists what can be asked for, `Request.Ends` says how a request ends: slots are only
  added behind the others, an index that is answered is one at which the pool shows what was asked
  for, and a request is refused only when the next constant finds no room or a text is too long;
* `Preserves` is what an edit keeps whether it succeeds or fails. A request keeps whatever interning
  a single constant keeps (`Request.preserves`);
* `Tabled` is the part of the invariant on which the answers rest. Unlike `WellFormed` it also holds
  of pools with constants that have no written form;
* `Adds` is what the steps of a request have in common, with a rule for their sequence, and
  `Request.ends_of_tabled` the result;
* `Request.FoundAt.mono`: what is found at an index is still found there when slots are added.
-/

namespace Jarwright.ClassFile.ConstantPool

variable {pool pool' : ConstantPool} {i : UInt16}

/-! ## What can be asked of a pool -/

/-- What can be interned. -/
inductive Request where
  | constant (c : Constant)
  | text (text : String)
  | className (name : String)
  | string (text : String)
  | nameAndType (name descriptor : String)
  | fieldRef (owner name descriptor : String)
  | methodRef (owner name descriptor : String) (isInterface : Bool)
  deriving DecidableEq, Repr, Inhabited

namespace Request

/-- The edit that answers a request. -/
def intern : Request → Edit UInt16
  | constant c => ConstantPool.intern c
  | text t => internUtf8 t
  | className name => internClass name
  | string t => internString t
  | nameAndType name descriptor => internNameAndType name descriptor
  | fieldRef owner name descriptor => internFieldRef owner name descriptor
  | methodRef owner name descriptor isInterface =>
    internMethodRef owner name descriptor isInterface

/-- A request for a constant asks for one that can be written. -/
def Fits : Request → Prop
  | constant c => c.Fits
  | _ => True

/-- The pool shows at an index what was asked for. -/
def FoundAt (pool : ConstantPool) (i : UInt16) : Request → Prop
  | constant c => pool.get i = .ok c
  | text t => pool.get i = .ok (.utf8 (Text.ModifiedUtf8.encode t.toList)) ∧ pool.utf8 i = .ok t
  | className name => pool.className i = .ok name
  | string t => ∃ bytes, pool.get i = .ok (.string bytes) ∧ pool.utf8 bytes = .ok t
  | nameAndType name descriptor => pool.nameAndType i = .ok (name, descriptor)
  | fieldRef owner name descriptor => ∃ c m, pool.get i = .ok (.fieldRef c m)
      ∧ pool.className c = .ok owner ∧ pool.nameAndType m = .ok (name, descriptor)
  | methodRef owner name descriptor isInterface => ∃ c m,
      pool.get i = .ok (if isInterface then .interfaceMethodRef c m else .methodRef c m)
      ∧ pool.className c = .ok owner ∧ pool.nameAndType m = .ok (name, descriptor)

/-- The pool has no room for one more slot, or a text is too long. -/
def Exhausted (fault : Fault) (pool : ConstantPool) : Prop :=
  fault = .poolFull ∧ 65535 < pool.count + 1 ∨ ∃ size, 65535 < size ∧ fault = .stringTooLong size

/-- Why a request can be refused. A single constant is refused before anything happens; a request
for several can have added the first of them. -/
def Refused (fault : Fault) (pool pool' : ConstantPool) : Request → Prop
  | constant c => fault = .poolFull ∧ 65535 < pool.count + c.slots ∧ pool' = pool
  | _ => Exhausted fault pool'

/-- How a request ends. -/
def Ends (request : Request) (pool : ConstantPool) :
    EStateM.Result Fault ConstantPool UInt16 → Prop
  | .ok i pool' => pool.places <+: pool'.places ∧ request.FoundAt pool' i
  | .error fault pool' => pool.places <+: pool'.places ∧ request.Refused fault pool pool'

end Request

/-- The pool that an edit leaves, whether it succeeds or fails. -/
def left {α : Type} : EStateM.Result Fault ConstantPool α → ConstantPool
  | .ok _ pool => pool
  | .error _ pool => pool

/-! ## What every edit keeps -/

/-- The edit keeps a property of pools, whether it succeeds or fails. -/
def Preserves {α : Type} (P : ConstantPool → Prop) (edit : Edit α) : Prop :=
  ∀ pool, P pool → P (left (edit pool))

namespace Preserves

variable {α β : Type} {P : ConstantPool → Prop}

theorem throw (fault : Fault) : Preserves P (throw fault : Edit α) := fun _ h => h

theorem bind {edit : Edit α} {next : α → Edit β} (hedit : Preserves P edit)
    (hnext : ∀ a, Preserves P (next a)) : Preserves P (edit >>= next) := by
  intro pool h
  have hmid := hedit pool h
  show P (left (EStateM.bind edit next pool))
  unfold EStateM.bind
  cases hrun : edit pool with
  | ok a mid =>
    rw [hrun] at hmid
    exact hnext a mid hmid
  | error fault mid =>
    rw [hrun] at hmid
    exact hmid

/-- Interning a constant keeps what appending it keeps, as long as there is room for it. -/
theorem intern {c : Constant}
    (happend : ∀ pool, P pool → pool.count + c.slots ≤ 65535 → P (pool.append c)) :
    Preserves P (intern c) := by
  intro pool h
  rcases intern_cases c pool with ⟨i, -, hrun⟩ | ⟨-, hroom, hrun⟩ | ⟨-, -, hrun⟩
  · rw [hrun]
    exact h
  · rw [hrun]
    exact happend pool h hroom
  · rw [hrun]
    exact h

theorem internUtf8 (h : ∀ c : Constant, c.Fits → Preserves P (ConstantPool.intern c))
    (text : String) :
    Preserves P (internUtf8 text) := by
  unfold ConstantPool.internUtf8
  dsimp only
  split
  · exact throw _
  · rename_i hshort
    exact h _ (Nat.lt_succ_of_le (Nat.le_of_not_lt hshort))

theorem internClass (h : ∀ c : Constant, c.Fits → Preserves P (ConstantPool.intern c))
    (name : String) : Preserves P (internClass name) :=
  (internUtf8 h name).bind fun _ => h _ trivial

theorem internNameAndType (h : ∀ c : Constant, c.Fits → Preserves P (ConstantPool.intern c))
    (name descriptor : String) : Preserves P (internNameAndType name descriptor) :=
  (internUtf8 h name).bind fun _ => (internUtf8 h descriptor).bind fun _ => h _ trivial

end Preserves

/-- A request keeps what interning a single constant keeps. -/
theorem Request.preserves {P : ConstantPool → Prop} {request : Request}
    (h : ∀ c : Constant, c.Fits → Preserves P (ConstantPool.intern c))
    (hsingle : ∀ c, request = .constant c → Preserves P (ConstantPool.intern c)) :
    Preserves P request.intern := by
  cases request with
  | constant c => exact hsingle c rfl
  | text t => exact .internUtf8 h t
  | className name => exact .internClass h name
  | string t => exact (Preserves.internUtf8 h t).bind fun _ => h _ trivial
  | nameAndType name descriptor => exact .internNameAndType h name descriptor
  | fieldRef owner name descriptor =>
    exact (Preserves.internClass h owner).bind fun _ =>
      (Preserves.internNameAndType h name descriptor).bind fun _ => h _ trivial
  | methodRef owner name descriptor isInterface =>
    refine (Preserves.internClass h owner).bind fun c =>
      (Preserves.internNameAndType h name descriptor).bind fun m => h _ ?_
    cases isInterface <;> exact trivial

/-- A request for constants that can be written keeps the invariant of the pool. -/
theorem Request.preserves_wellFormed {request : Request} (hfits : request.Fits) :
    Preserves WellFormed request.intern := by
  have hintern : ∀ c : Constant, c.Fits → Preserves WellFormed (ConstantPool.intern c) :=
    fun c hc => .intern fun pool h hroom => h.append hc (Nat.lt_succ_of_le hroom)
  refine Request.preserves hintern ?_
  rintro c rfl
  exact hintern c hfits

/-- Slots are only added behind the others. -/
theorem Request.preserves_slots (start : ConstantPool) (request : Request) :
    Preserves (fun pool => start.places <+: pool.places) request.intern := by
  have hintern : ∀ c : Constant,
      Preserves (fun pool => start.places <+: pool.places) (ConstantPool.intern c) :=
    fun c => .intern fun pool h _ => h.trans ⟨c.spread, (places_append pool c).symm⟩
  exact Request.preserves (fun c _ => hintern c) fun c _ => hintern c

/-! ## Pools whose table can be trusted -/

/-- The table answers only indices at which the constant asked for stands, and every slot has an
index. -/
structure Tabled (pool : ConstantPool) : Prop where
  count_lt : pool.count < UInt16.size
  indexed : pool.Indexed

theorem WellFormed.tabled (h : pool.WellFormed) : pool.Tabled := ⟨h.count_lt, h.indexed⟩

theorem preserves_tabled (c : Constant) : Preserves Tabled (intern c) := by
  refine .intern fun pool h hroom => ⟨?_, h.indexed.append h.count_lt c⟩
  rw [count_append]
  exact Nat.lt_succ_of_le hroom

theorem Request.preserves_tabled (request : Request) : Preserves Tabled request.intern :=
  Request.preserves (fun c _ => ConstantPool.preserves_tabled c)
    fun c _ => ConstantPool.preserves_tabled c

/-! ## Slots that stay -/

section Prefix

variable {a b : ConstantPool} (h : a.places <+: b.places)

include h

theorem getElem?_of_grown {k : Nat} {c : Constant} (hk : a.places[k]? = some c) :
    b.places[k]? = some c := by
  obtain ⟨added, hadded⟩ := h
  rw [← hadded, List.getElem?_append_left (List.getElem?_eq_some_iff.1 hk).1]
  exact hk

theorem keepsNames_of_grown : a.KeepsNames b := fun _ _ _ hk => getElem?_of_grown h hk

theorem get_of_grown {c : Constant} (hget : a.get i = .ok c) : b.get i = .ok c := by
  obtain ⟨hslot, hne⟩ := get_eq_ok.1 hget
  exact get_eq_ok.2 ⟨getElem?_of_grown h hslot, hne⟩

theorem className_of_grown {name : String} (hname : a.className i = .ok name) :
    b.className i = .ok name := by
  obtain ⟨text, hslot, htext⟩ := className_eq_ok.1 hname
  exact className_eq_ok.2
    ⟨text, getElem?_of_grown h hslot, (keepsNames_of_grown h).utf8 htext⟩

/-- What is found at an index is still found there when slots are added. -/
theorem Request.FoundAt.mono {request : Request} (hfound : request.FoundAt a i) :
    request.FoundAt b i := by
  have hnames := keepsNames_of_grown h
  cases request with
  | constant c => exact get_of_grown h hfound
  | text t => exact ⟨get_of_grown h hfound.1, hnames.utf8 hfound.2⟩
  | className name => exact className_of_grown h hfound
  | string t =>
    obtain ⟨bytes, hget, htext⟩ := hfound
    exact ⟨bytes, get_of_grown h hget, hnames.utf8 htext⟩
  | nameAndType name descriptor => exact hnames.nameAndType hfound
  | fieldRef owner name descriptor =>
    obtain ⟨c, m, hget, howner, hmember⟩ := hfound
    exact ⟨c, m, get_of_grown h hget, className_of_grown h howner, hnames.nameAndType hmember⟩
  | methodRef owner name descriptor isInterface =>
    obtain ⟨c, m, hget, howner, hmember⟩ := hfound
    exact ⟨c, m, get_of_grown h hget, className_of_grown h howner, hnames.nameAndType hmember⟩

end Prefix

/-- The second pool has a table that can be trusted and starts with the slots of the first one. -/
structure Grows (a b : ConstantPool) : Prop where
  tabled : b.Tabled
  slots : a.places <+: b.places

namespace Grows

variable {a b c : ConstantPool}

theorem refl (h : a.Tabled) : a.Grows a := ⟨h, List.prefix_rfl⟩

theorem trans (hab : a.Grows b) (hbc : b.Grows c) : a.Grows c :=
  ⟨hbc.tabled, hab.slots.trans hbc.slots⟩

theorem keepsNames (h : a.Grows b) : a.KeepsNames b := keepsNames_of_grown h.slots

end Grows

/-! ## How requests end -/

/-- What an edit does that interns constants of one slot: it adds slots, and ends with `Q` or
because there is no room or a text is too long. -/
def Adds {α : Type} (pool : ConstantPool) (edit : Edit α) (Q : α → ConstantPool → Prop) : Prop :=
  match edit pool with
  | .ok a pool' => pool.Grows pool' ∧ Q a pool'
  | .error fault pool' => pool.Grows pool' ∧ Request.Exhausted fault pool'

theorem Adds.bind {α β : Type} {edit : Edit α} {next : α → Edit β} {Q : α → ConstantPool → Prop}
    {R : β → ConstantPool → Prop} (hedit : pool.Adds edit Q)
    (hnext : ∀ a mid, pool.Grows mid → Q a mid → mid.Adds (next a) R) :
    pool.Adds (edit >>= next) R := by
  unfold Adds at hedit ⊢
  show match EStateM.bind edit next pool with
    | .ok a pool' => pool.Grows pool' ∧ R a pool'
    | .error fault pool' => pool.Grows pool' ∧ Request.Exhausted fault pool'
  unfold EStateM.bind
  cases hrun : edit pool with
  | error fault mid =>
    rw [hrun] at hedit
    exact hedit
  | ok a mid =>
    rw [hrun] at hedit
    obtain ⟨hgrows, hQ⟩ := hedit
    have hmore := hnext a mid hgrows hQ
    unfold Adds at hmore
    dsimp only
    cases hrest : next a mid with
    | ok b pool' =>
      rw [hrest] at hmore
      exact ⟨hgrows.trans hmore.1, hmore.2⟩
    | error fault pool' =>
      rw [hrest] at hmore
      exact ⟨hgrows.trans hmore.1, hmore.2⟩

theorem Adds.mono {α : Type} {edit : Edit α} {Q R : α → ConstantPool → Prop}
    (hedit : pool.Adds edit Q) (hQR : ∀ a pool', pool.Grows pool' → Q a pool' → R a pool') :
    pool.Adds edit R := by
  unfold Adds at hedit ⊢
  split at hedit
  · exact ⟨hedit.1, hQR _ _ hedit.1 hedit.2⟩
  · exact hedit

/-- How interning a single constant ends. -/
theorem intern_ends {c : Constant} (h : pool.Tabled) (hne : c ≠ .unusable) :
    match intern c pool with
    | .ok i pool' => pool.Grows pool' ∧ pool'.get i = .ok c
    | .error fault pool' => fault = .poolFull ∧ 65535 < pool.count + c.slots ∧ pool' = pool := by
  have htabled := preserves_tabled c pool h
  rcases intern_cases c pool with ⟨i, hlookup, hrun⟩ | ⟨-, -, hrun⟩ | ⟨-, hroom, hrun⟩
  · rw [hrun]
    exact ⟨.refl h, get_eq_ok.2 ⟨h.indexed c i hlookup, hne⟩⟩
  · rw [hrun] at htabled ⊢
    exact ⟨⟨htabled, c.spread, (places_append pool c).symm⟩,
      get_eq_ok.2 ⟨getElem?_append_count h.count_lt c, hne⟩⟩
  · rw [hrun]
    exact ⟨rfl, hroom, rfl⟩

theorem adds_intern {c : Constant} (h : pool.Tabled) (hne : c ≠ .unusable) (hslots : c.slots = 1) :
    pool.Adds (intern c) fun i pool' => pool'.get i = .ok c := by
  have hends := intern_ends h hne
  unfold Adds
  cases hrun : intern c pool with
  | ok i pool' =>
    rw [hrun] at hends
    exact hends
  | error fault pool' =>
    rw [hrun, hslots] at hends
    obtain ⟨rfl, hroom, rfl⟩ := hends
    exact ⟨.refl h, .inl ⟨rfl, hroom⟩⟩

theorem adds_internUtf8 {text : String} (h : pool.Tabled) :
    pool.Adds (internUtf8 text) fun i pool' => (Request.text text).FoundAt pool' i := by
  unfold internUtf8
  dsimp only
  split
  · rename_i hlong
    exact ⟨.refl h, .inr ⟨_, hlong, rfl⟩⟩
  · refine (adds_intern h (by simp) rfl).mono fun i last _ hget => ⟨hget, ?_⟩
    exact utf8_eq_ok.2 ⟨_, (get_eq_ok.1 hget).1, Text.ModifiedUtf8.decode?_encode _⟩

theorem adds_internClass {name : String} (h : pool.Tabled) :
    pool.Adds (internClass name) fun i pool' => pool'.className i = .ok name := by
  unfold internClass
  refine (adds_internUtf8 h).bind fun text mid hmid htext => ?_
  refine (adds_intern (c := .classRef text) hmid.tabled (by simp) rfl).mono
    fun i last hlast hget => ?_
  exact className_eq_ok.2 ⟨text, (get_eq_ok.1 hget).1, hlast.keepsNames.utf8 htext.2⟩

theorem adds_internString {text : String} (h : pool.Tabled) :
    pool.Adds (internString text) fun i pool' => (Request.string text).FoundAt pool' i := by
  unfold internString
  refine (adds_internUtf8 h).bind fun bytes mid hmid htext => ?_
  refine (adds_intern (c := .string bytes) hmid.tabled (by simp) rfl).mono
    fun i last hlast hget => ?_
  exact ⟨bytes, hget, hlast.keepsNames.utf8 htext.2⟩

theorem adds_internNameAndType {name descriptor : String} (h : pool.Tabled) :
    pool.Adds (internNameAndType name descriptor)
      fun i pool' => pool'.nameAndType i = .ok (name, descriptor) := by
  unfold internNameAndType
  refine (adds_internUtf8 h).bind fun n mid hmid hn => ?_
  refine (adds_internUtf8 hmid.tabled).bind fun d mid' hmid' hd => ?_
  refine (adds_intern (c := .nameAndType n d) hmid'.tabled (by simp) rfl).mono
    fun i last hlast hget => ?_
  exact nameAndType_eq_ok.2 ⟨n, d, (get_eq_ok.1 hget).1,
    (hmid'.trans hlast).keepsNames.utf8 hn.2, hlast.keepsNames.utf8 hd.2⟩

/-- The end of a request for a member, whatever kind of reference it asks for. -/
theorem adds_memberRef {owner name descriptor : String} (ref : UInt16 → UInt16 → Constant)
    (h : pool.Tabled) (hne : ∀ c m, ref c m ≠ .unusable) (hslots : ∀ c m, (ref c m).slots = 1) :
    pool.Adds (do
        let c ← internClass owner
        let m ← internNameAndType name descriptor
        intern (ref c m))
      fun i pool' => ∃ c m, pool'.get i = .ok (ref c m) ∧ pool'.className c = .ok owner
        ∧ pool'.nameAndType m = .ok (name, descriptor) := by
  refine (adds_internClass h).bind fun c mid hmid hc => ?_
  refine (adds_internNameAndType hmid.tabled).bind fun m mid' hmid' hm => ?_
  refine (adds_intern hmid'.tabled (hne c m) (hslots c m)).mono fun i last hlast hget => ?_
  exact ⟨c, m, hget, className_of_grown (hmid'.trans hlast).slots hc,
    hlast.keepsNames.nameAndType hm⟩

/-- A request for more than a single constant only adds slots. -/
theorem Request.adds {request : Request} (h : pool.Tabled)
    (hsingle : ∀ c, request ≠ .constant c) :
    pool.Adds request.intern fun i pool' => request.FoundAt pool' i := by
  cases request with
  | constant c => exact absurd rfl (hsingle c)
  | text t => exact adds_internUtf8 h
  | className name => exact adds_internClass h
  | string t => exact adds_internString h
  | nameAndType name descriptor => exact adds_internNameAndType h
  | fieldRef owner name descriptor =>
    exact adds_memberRef .fieldRef h (by simp) fun _ _ => rfl
  | methodRef owner name descriptor isInterface =>
    refine adds_memberRef
      (fun c m => if isInterface then .interfaceMethodRef c m else .methodRef c m) h ?_ ?_
    · cases isInterface <;> simp
    · cases isInterface <;> exact fun _ _ => rfl

/-- A request ends as it should. -/
theorem Request.ends_of_tabled {request : Request} (h : pool.Tabled)
    (hne : request ≠ .constant .unusable) : request.Ends pool (request.intern pool) := by
  by_cases hsingle : ∃ c, request = .constant c
  · obtain ⟨c, rfl⟩ := hsingle
    have hends := intern_ends h fun hc : c = .unusable => hne (hc ▸ rfl)
    simp only [Request.intern]
    cases hrun : ConstantPool.intern c pool with
    | ok i pool' =>
      rw [hrun] at hends
      exact ⟨hends.1.slots, hends.2⟩
    | error fault pool' =>
      rw [hrun] at hends
      obtain ⟨rfl, hroom, rfl⟩ := hends
      exact ⟨List.prefix_rfl, rfl, hroom, rfl⟩
  · have hadds := Request.adds h fun c hc => hsingle ⟨c, hc⟩
    unfold Adds at hadds
    cases hrun : request.intern pool with
    | ok i pool' =>
      rw [hrun] at hadds
      exact ⟨hadds.1.slots, hadds.2⟩
    | error fault pool' =>
      rw [hrun] at hadds
      refine ⟨hadds.1.slots, ?_⟩
      cases request with
      | constant c => exact absurd ⟨c, rfl⟩ hsingle
      | _ => exact hadds.2

end Jarwright.ClassFile.ConstantPool
