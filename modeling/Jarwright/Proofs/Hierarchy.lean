import Jarwright.Hierarchy
import Mathlib.Logic.Relation

/-!
# Searches through a hierarchy

A search keeps a stack on which a type can stand several times, asks its start before anything else
and notes a type as seen when it leaves the stack. It is the recursion that one would write down:

* `depthFirst` is the recursive search: a type, then all above its first supertype, then all above
  the next one, without those that were met before;
* `walk_append`: the stack is worked off from the top, so the types above its top come first and the
  rest of it is walked as if they had been seen from the beginning;
* `search_eq_findSomeM?`: a question goes along the list of a walk and nowhere else;
* `nodup_preorder` and `mem_preorder_iff`: the list has every type above the start, each one once.

`search_depthFirst` puts them together. Cycles need no case of their own: what a walk does depends on
the types it has seen, never on the way to them.
-/

namespace Jarwright

namespace Hierarchy

universe u v

variable (h : Hierarchy)

/-! ## The recursion -/

theorem unseen_append_le (names seen : List String) :
    h.unseen (names ++ seen) ≤ h.unseen seen := by
  induction names with
  | nil => exact Nat.le_refl _
  | cons name names ih => exact Nat.le_trans (h.unseen_cons_le name (names ++ seen)) ih

/-- Some types and those above them, without the ones that were seen: each type is followed by all
above its supertypes, in their order, before its neighbours have their turn. -/
def depthFirst (h : Hierarchy) (seen : List String) : List String → List String
  | [] => []
  | name :: rest =>
    if _hs : seen.contains name then h.depthFirst seen rest
    else
      let met := name :: h.depthFirst (name :: seen) (h.supertypes name)
      met ++ h.depthFirst (met ++ seen) rest
termination_by names => (h.unseen seen, names.length)
decreasing_by
  · exact Prod.Lex.right _ (by simp)
  · exact h.supertypes_lex (by simpa using _hs) (by simp)
  · exact Prod.Lex.right' _ (h.unseen_append_le _ seen) (by simp)

/-- A walk asks of its list of seen types only which types are in it. -/
theorem walk_congr_seen {seen seen' : List String} (hseen : ∀ x, x ∈ seen ↔ x ∈ seen')
    (stack : List String) : h.walk seen stack = h.walk seen' stack := by
  fun_induction walk h seen stack generalizing seen' with
  | case1 seen => rw [walk]
  | case2 seen name rest hs ih =>
    have hs' : seen'.contains name := by simpa [hseen] using hs
    rw [walk, dif_pos hs', ih hseen]
  | case3 seen name rest hs ih =>
    have hs' : ¬ seen'.contains name := by simpa [hseen] using hs
    have hseen' : ∀ x, x ∈ name :: seen ↔ x ∈ name :: seen' := by simp [hseen]
    rw [walk, dif_neg hs', ih hseen']

/-- The invariant of the stack: whatever stands under some types waits until the recursion has dealt
with them, and then finds their types seen. -/
theorem walk_append (seen names rest : List String) :
    h.walk seen (names ++ rest) =
      h.depthFirst seen names ++ h.walk (h.depthFirst seen names ++ seen) rest := by
  fun_induction depthFirst h seen names generalizing rest with
  | case1 seen => rfl
  | case2 seen name names hs ih => rw [List.cons_append, walk, dif_pos hs, ih]
  | case3 seen name names hs met ih_above ih_rest =>
    -- the walk notes the newest type first, so its lists agree with the recursion's up to order
    have habove : ∀ x, x ∈ h.depthFirst (name :: seen) (h.supertypes name) ++ name :: seen ↔
        x ∈ met ++ seen := by grind
    have hrest : ∀ x, x ∈ h.depthFirst (met ++ seen) names ++ (met ++ seen) ↔
        x ∈ met ++ h.depthFirst (met ++ seen) names ++ seen := by grind
    rw [List.cons_append, walk, dif_neg hs, ih_above, h.walk_congr_seen habove, ih_rest,
      h.walk_congr_seen hrest]
    simp [met]

theorem preorder_eq_depthFirst (start : String) : h.preorder start = h.depthFirst [] [start] := by
  simpa [preorder, walk] using h.walk_append [] [start] []

/-! ## The loop -/

section Loop

variable {m : Type u → Type v} [Monad m] {α : Type u} (start : String)
  (visit : String → m (Option α))

/-- The loop asks the types of the walk that has seen the start besides. -/
theorem searchFrom_eq_findSomeM? (seen stack : List String) :
    h.searchFrom start visit seen stack = (h.walk (start :: seen) stack).findSomeM? visit := by
  fun_induction searchFrom h start visit seen stack with
  | case1 seen => simp [walk]
  | case2 seen name rest hs ih =>
    rw [walk, dif_pos (by simpa using hs), ih]
  | case3 seen name rest hs ih =>
    have hsame : ∀ x, x ∈ start :: name :: seen ↔ x ∈ name :: start :: seen := by grind
    rw [walk, dif_neg (by simpa using hs), List.findSomeM?, ← h.walk_congr_seen hsame]
    refine bind_congr fun answer => ?_
    cases answer with
    | none => exact ih
    | some found => rfl

/-- A search asks the types of its walk in turn, whatever the question does besides answering. -/
theorem search_eq_findSomeM? :
    h.search start visit = (h.preorder start).findSomeM? visit := by
  rw [preorder, walk, dif_neg (by simp), List.findSomeM?, List.append_nil]
  refine bind_congr fun answer => ?_
  cases answer with
  | none => exact h.searchFrom_eq_findSomeM? start visit [] (h.supertypes start)
  | some found => rfl

end Loop

/-! ## The types of a walk -/

/-- A type is reached from another by going to a direct supertype any number of times. -/
def IsAbove : String → String → Prop :=
  Relation.ReflTransGen fun name parent => parent ∈ h.supertypes name

theorem not_mem_walk {seen stack : List String} {x : String} (hx : x ∈ seen) :
    x ∉ h.walk seen stack := by
  fun_induction walk h seen stack with
  | case1 seen => simp
  | case2 seen name rest hs ih => exact ih hx
  | case3 seen name rest hs ih =>
    have hne : x ≠ name := fun heq => hs (by simpa [heq] using hx)
    simpa [hne] using ih (List.mem_cons_of_mem name hx)

theorem nodup_walk (seen stack : List String) : (h.walk seen stack).Nodup := by
  fun_induction walk h seen stack with
  | case1 seen => exact List.nodup_nil
  | case2 seen name rest hs ih => exact ih
  | case3 seen name rest hs ih => exact List.nodup_cons.2 ⟨h.not_mem_walk List.mem_cons_self, ih⟩

theorem exists_isAbove_of_mem_walk {seen stack : List String} {x : String}
    (hx : x ∈ h.walk seen stack) : ∃ name ∈ stack, h.IsAbove name x := by
  fun_induction walk h seen stack with
  | case1 seen => simp at hx
  | case2 seen name rest hs ih =>
    obtain ⟨start, hstart, habove⟩ := ih hx
    exact ⟨start, List.mem_cons_of_mem name hstart, habove⟩
  | case3 seen name rest hs ih =>
    rcases List.mem_cons.1 hx with rfl | hx
    · exact ⟨x, List.mem_cons_self, .refl⟩
    obtain ⟨start, hstart, habove⟩ := ih hx
    rcases List.mem_append.1 hstart with hstart | hstart
    · exact ⟨name, List.mem_cons_self, .head hstart habove⟩
    · exact ⟨start, List.mem_cons_of_mem name hstart, habove⟩

/-- No type of the stack is left out, unless it was seen. -/
theorem mem_walk_of_mem_stack {seen stack : List String} {x : String} (hx : x ∈ stack) :
    x ∈ h.walk seen stack ∨ x ∈ seen := by
  fun_induction walk h seen stack with
  | case1 seen => cases hx
  | case2 seen name rest hs ih =>
    rcases List.mem_cons.1 hx with rfl | hx
    · exact .inr (by simpa using hs)
    · exact ih hx
  | case3 seen name rest hs ih => grind

/-- No supertype of a type that is met is left out, unless it was seen. -/
theorem mem_walk_of_mem_supertypes {seen stack : List String} {x y : String}
    (hx : x ∈ h.walk seen stack) (hy : y ∈ h.supertypes x) :
    y ∈ h.walk seen stack ∨ y ∈ seen := by
  fun_induction walk h seen stack with
  | case1 seen => cases hx
  | case2 seen name rest hs ih => exact ih hx
  | case3 seen name rest hs ih =>
    have hkeep : y ∈ h.walk (name :: seen) (h.supertypes name ++ rest) ∨ y ∈ name :: seen := by
      rcases List.mem_cons.1 hx with rfl | hx
      · exact h.mem_walk_of_mem_stack (List.mem_append_left rest hy)
      · exact ih hx
    grind

theorem nodup_preorder (start : String) : (h.preorder start).Nodup := h.nodup_walk [] [start]

theorem head?_preorder (start : String) : (h.preorder start).head? = some start := by
  simp [preorder, walk]

theorem mem_preorder_iff {start name : String} :
    name ∈ h.preorder start ↔ h.IsAbove start name := by
  constructor
  · intro hname
    simpa using h.exists_isAbove_of_mem_walk hname
  · intro habove
    induction habove with
    | refl => exact List.mem_of_mem_head? (h.head?_preorder start)
    | tail _ hsuper ih => exact (h.mem_walk_of_mem_supertypes ih hsuper).resolve_right (by simp)

/-! ## The types that are asked -/

section Asked

variable {α : Type} (visit : String → Option α)

/-- The question that takes down whom it is put to. -/
def noted (name : String) : StateM (List String) (Option α) := do
  modify (· ++ [name])
  return visit name

theorem findSomeM?_noted (names log : List String) :
    (names.findSomeM? (noted visit)).run log =
      (names.findSome? visit, log ++ asked visit names) := by
  induction names generalizing log with
  | nil => simp [asked]; rfl
  | cons name names ih =>
    cases hvisit : visit name with
    | none => simp [List.findSomeM?, noted, asked, hvisit, ih]
    | some answer => simp [List.findSomeM?, noted, asked, hvisit]; rfl

theorem asked_of_findSome?_eq_none {names : List String} (hnone : names.findSome? visit = none) :
    asked visit names = names := by
  induction names with
  | nil => rfl
  | cons name names ih =>
    obtain ⟨hname, hnames⟩ := List.forall_mem_cons.1 (List.findSome?_eq_none_iff.1 hnone)
    rw [asked, hname, if_neg (by simp), ih (List.findSome?_eq_none_iff.2 hnames)]

/-- The last one asked is the first one with an answer. -/
theorem asked_append_cons {before after : List String} {name : String} {answer : α}
    (hbefore : ∀ x ∈ before, visit x = none) (hname : visit name = some answer) :
    asked visit (before ++ name :: after) = before ++ [name] := by
  induction before with
  | nil => simp [asked, hname]
  | cons first before ih =>
    obtain ⟨hfirst, hbefore⟩ := List.forall_mem_cons.1 hbefore
    rw [List.cons_append, asked, hfirst, if_neg (by simp), ih hbefore, List.cons_append]

end Asked

/-- A search is the recursive search from its start, cut off at the first answer. -/
theorem search_depthFirst (start : String) :
    (h.depthFirst [] [start]).Nodup ∧ (h.depthFirst [] [start]).head? = some start ∧
      (∀ name, name ∈ h.depthFirst [] [start] ↔ h.IsAbove start name) ∧
      (∀ (m : Type u → Type v) [Monad m] (α : Type u) (visit : String → m (Option α)),
        h.search start visit = (h.depthFirst [] [start]).findSomeM? visit) ∧
      ∀ (α : Type) (visit : String → Option α),
        (h.search start (noted visit)).run [] = (h.find? start visit, h.visits start visit) ∧
        (h.find? start visit = none ↔ ∀ name, h.IsAbove start name → visit name = none) ∧
        (h.find? start visit = none → h.visits start visit = h.depthFirst [] [start]) ∧
        ∀ answer, h.find? start visit = some answer → ∃ before name after,
          h.depthFirst [] [start] = before ++ name :: after ∧
          (∀ x ∈ before, visit x = none) ∧ visit name = some answer ∧
          h.visits start visit = before ++ [name] := by
  rw [← preorder_eq_depthFirst]
  refine ⟨h.nodup_preorder start, h.head?_preorder start, fun _ => h.mem_preorder_iff,
    fun m _ α visit => h.search_eq_findSomeM? start visit, fun α visit => ⟨?_, ?_, ?_, ?_⟩⟩
  · rw [search_eq_findSomeM?, findSomeM?_noted, List.nil_append, find?, visits]
  · simp only [find?, List.findSome?_eq_none_iff, mem_preorder_iff]
  · exact fun hnone => asked_of_findSome?_eq_none visit hnone
  · intro answer hfind
    obtain ⟨before, name, after, hsplit, hname, hbefore⟩ := List.findSome?_eq_some_iff.1 hfind
    refine ⟨before, name, after, hsplit, hbefore, hname, ?_⟩
    rw [visits, hsplit, asked_append_cons visit hbefore hname]

/-- A diamond whose top is above itself. -/
example (hc : h.supertypes "c" = ["b", "i"]) (hb : h.supertypes "b" = ["a"])
    (hi : h.supertypes "i" = ["a"]) (ha : h.supertypes "a" = ["c", "a"]) :
    h.depthFirst [] ["c"] = ["c", "b", "a", "i"] := by
  simp [depthFirst, hc, hb, hi, ha]

end Hierarchy

end Jarwright
