import Std.Data.HashMap
import Jarwright.ClassFile.Basic

/-!
# Type hierarchies

The hierarchy of an archive says for each of its types what the superclass and the interfaces are.
Types outside have no entry and end every walk.

* `supertypes` lists the direct supertypes, the superclass first;
* `preorder` lists all types above a type, itself first, depth first and each one once;
* `find?` is the first answer that a question gets along that list;
* `search` is the loop that asks, for a question whose answers may have effects.
-/

namespace Jarwright

universe u v

/-- The direct supertypes of a type. -/
structure Parents where
  superName : Option String
  interfaces : List String
  deriving DecidableEq, Repr, Inhabited

/-- The superclass, if there is one, and then the interfaces in order of declaration. -/
def Parents.toList (p : Parents) : List String := p.superName.toList ++ p.interfaces

/-- The direct supertypes of the types of an archive. -/
structure Hierarchy where
  parents : Std.HashMap String Parents
  deriving Inhabited

namespace Hierarchy

/-- The hierarchy without types. -/
def empty : Hierarchy := ⟨∅⟩

/-- Adds a type, in place of one of the same name. -/
def insert (h : Hierarchy) (name : String) (parents : Parents) : Hierarchy :=
  ⟨h.parents.insert name parents⟩

/-- Adds what a class says about itself. -/
def insertHeader (h : Hierarchy) (header : ClassFile.Header) : Hierarchy :=
  h.insert header.name ⟨header.superName, header.interfaces⟩

/-- The number of types. -/
def size (h : Hierarchy) : Nat := h.parents.size

/-- The direct supertypes of a type; none for a type outside. -/
def supertypes (h : Hierarchy) (name : String) : List String :=
  match h.parents[name]? with
  | some p => p.toList
  | none => []

/-- A stricter condition holds less often, strictly so if it loses a member. -/
theorem countP_lt_of_lost {l : List String} {p q : String → Bool}
    (hpq : ∀ x, p x = true → q x = true) {a : String} (ha : a ∈ l) (hp : p a = false)
    (hq : q a = true) : l.countP p < l.countP q := by
  induction l with
  | nil => cases ha
  | cons x l ih =>
    have hle : l.countP p ≤ l.countP q := List.countP_mono_left fun y _ => hpq y
    rw [List.countP_cons, List.countP_cons]
    rcases List.mem_cons.1 ha with rfl | ha
    · simp only [hp, hq, Bool.false_eq_true, if_false, if_true]
      omega
    · have hlt := ih ha
      have hx : (if p x = true then 1 else 0) ≤ (if q x = true then 1 else 0) := by
        by_cases h : p x = true
        · exact Nat.le_of_eq ((if_pos h).trans (if_pos (hpq x h)).symm)
        · exact if_neg h ▸ Nat.zero_le _
      omega

/-- The number of types that are not in a list. -/
def unseen (h : Hierarchy) (seen : List String) : Nat :=
  h.parents.keys.countP fun name => !seen.contains name

theorem unseen_cons_lt {h : Hierarchy} {name : String} {seen : List String}
    (hs : seen.contains name = false) (hn : h.supertypes name ≠ []) :
    h.unseen (name :: seen) < h.unseen seen := by
  refine countP_lt_of_lost (a := name) ?_ ?_ ?_ ?_
  · intro x hx
    simp_all
  · unfold supertypes at hn
    split at hn
    · rename_i p hp
      exact Std.HashMap.mem_keys.2 (Std.HashMap.mem_iff_isSome_getElem?.2 (by simp [hp]))
    · exact absurd rfl hn
  · simp
  · simpa using hs

theorem unseen_cons_le (h : Hierarchy) (name : String) (seen : List String) :
    h.unseen (name :: seen) ≤ h.unseen seen :=
  List.countP_mono_left fun x _ hx => by simp_all

/-- Going on from a new type to its supertypes loses a type that was not seen, or, for a type without
supertypes, a place of the stack. -/
theorem supertypes_lex (h : Hierarchy) {name : String} {seen rest names : List String}
    (hs : seen.contains name = false)
    (hnames : names.length ≤ (h.supertypes name).length + rest.length) :
    Prod.Lex (· < ·) (· < ·) (h.unseen (name :: seen), names.length)
      (h.unseen seen, (name :: rest).length) := by
  by_cases hn : h.supertypes name = []
  · refine Prod.Lex.right' _ (h.unseen_cons_le name seen) ?_
    rw [hn] at hnames
    simpa using Nat.lt_succ_of_le hnames
  · exact Prod.Lex.left _ _ (unseen_cons_lt hs hn)

/-- Walks on from a stack of types, leaving out those seen before. -/
def walk (h : Hierarchy) (seen : List String) (stack : List String) : List String :=
  match stack with
  | [] => []
  | name :: rest =>
    if _hs : seen.contains name then h.walk seen rest
    else name :: h.walk (name :: seen) (h.supertypes name ++ rest)
termination_by (h.unseen seen, stack.length)
decreasing_by
  · exact Prod.Lex.right _ (by simp)
  · exact h.supertypes_lex (by simpa using _hs) (by simp)

/-- A type and all types above it: depth first, the superclass before the interfaces, and each type
where it is met first. -/
def preorder (h : Hierarchy) (start : String) : List String := h.walk [] [start]

/-- The first answer that a question gets from a type or a type above it. -/
def find? {α : Type} (h : Hierarchy) (start : String) (visit : String → Option α) : Option α :=
  (h.preorder start).findSome? visit

/-- The types that are asked until one answers. -/
def asked {α : Type} (visit : String → Option α) : List String → List String
  | [] => []
  | name :: rest => if (visit name).isSome then [name] else name :: asked visit rest

/-- The types that are asked when a question is put to a type. -/
def visits {α : Type} (h : Hierarchy) (start : String) (visit : String → Option α) :
    List String :=
  asked visit (h.preorder start)

/-- The loop of a search. The type on top of the stack is asked, unless it is the start or was asked
before; if it does not answer, its supertypes go on top. -/
def searchFrom {m : Type u → Type v} [Monad m] {α : Type u} (h : Hierarchy) (start : String)
    (visit : String → m (Option α)) (seen : List String) (stack : List String) : m (Option α) :=
  match stack with
  | [] => pure none
  | name :: rest =>
    if _hs : name == start || seen.contains name then h.searchFrom start visit seen rest
    else do
      match ← visit name with
      | some found => pure (some found)
      | none => h.searchFrom start visit (name :: seen) (h.supertypes name ++ rest)
termination_by (h.unseen seen, stack.length)
decreasing_by
  · exact Prod.Lex.right _ (by simp)
  · exact h.supertypes_lex (by simp_all) (by simp)

/-- Asks a type and, as long as none answers, the types above it. -/
def search {m : Type u → Type v} [Monad m] {α : Type u} (h : Hierarchy) (start : String)
    (visit : String → m (Option α)) : m (Option α) := do
  match ← visit start with
  | some found => pure (some found)
  | none => h.searchFrom start visit [] (h.supertypes start)

end Hierarchy

end Jarwright
