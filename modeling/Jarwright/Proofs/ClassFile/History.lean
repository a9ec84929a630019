import Jarwright.Proofs.ClassFile.Request

/-!
# Histories of a pool

A pool that no one has edited is empty or was read. A history is a list of operations on it:
requests and redirected entries, successful or not. No constant is excluded, so that a history can
lead to pools that cannot be written; what holds of all of them is `Tabled`.

* `edited` is the pool after a history, and `edited_induction` carries what every operation keeps to
  it;
* `interned_resolves`: the index that a request answers shows what was asked for, and goes on to do
  so whatever is requested afterwards.
-/

namespace Jarwright.ClassFile.ConstantPool

variable {start : ConstantPool}

/-- A pool that no one has edited. -/
inductive Unedited : ConstantPool → Prop where
  | empty : Unedited .empty
  | read {bs rest : Bytes} {pool : ConstantPool} :
      ConstantPool.read bs = .ok pool rest → Unedited pool

/-- One edit of a pool. -/
inductive Operation where
  | intern (request : Request)
  | set (i : UInt16) (c : Constant)
  deriving DecidableEq, Repr, Inhabited

/-- The pool that an operation leaves, whether it succeeds or fails. -/
def Operation.apply (pool : ConstantPool) : Operation → ConstantPool
  | intern request => left (request.intern pool)
  | set i c => left (ConstantPool.set i c pool)

/-- The pool after a history. -/
def edited (start : ConstantPool) (history : List Operation) : ConstantPool :=
  history.foldl Operation.apply start

/-- What every operation keeps holds after a history. -/
theorem edited_induction {P : ConstantPool → Prop}
    (hstep : ∀ (op : Operation) (pool : ConstantPool), P pool → P (op.apply pool))
    (hstart : P start) (history : List Operation) : P (edited start history) := by
  induction history generalizing start with
  | nil => exact hstart
  | cons op history ih => exact ih (hstep op start hstart)

/-! ## The table after a history -/

theorem Unedited.tabled (h : Unedited start) : start.Tabled := by
  cases h with
  | empty => exact ⟨by decide, indexed_empty⟩
  | read hread => exact (of_read hread).1.tabled

theorem preserves_tabled_set (i : UInt16) (c : Constant) : Preserves Tabled (set i c) := by
  intro pool h
  rcases set_cases i c pool with ⟨old, hget, -, hrun⟩ | ⟨-, fault, hrun⟩
  · rw [hrun]
    refine ⟨?_, h.indexed.set (get_eq_ok.1 hget).1⟩
    simpa [left, count] using h.count_lt
  · rw [hrun]
    exact h

theorem Operation.tabled (op : Operation) {pool : ConstantPool} (h : pool.Tabled) :
    (op.apply pool).Tabled := by
  cases op with
  | intern request => exact request.preserves_tabled pool h
  | set i c => exact preserves_tabled_set i c pool h

theorem tabled_edited (h : Unedited start) (history : List Operation) :
    (edited start history).Tabled :=
  edited_induction (fun op _ => op.tabled) h.tabled history

/-! ## What is interned resolves -/

/-- Requests only add slots. -/
theorem prefix_edited (pool : ConstantPool) (requests : List Request) :
    pool.places <+: (edited pool (requests.map .intern)).places := by
  induction requests generalizing pool with
  | nil => exact List.prefix_rfl
  | cons request requests ih =>
    have hfirst := request.preserves_slots pool pool List.prefix_rfl
    exact hfirst.trans (ih _)

/-- **What is interned resolves.**  After any history, the index that a request answers is one at
which a constant of the right kind stands, and it resolves to the names that were asked for. It
still does after any further requests, whether they succeed or fail. -/
theorem interned_resolves (hstart : Unedited start) (history : List Operation) {request : Request}
    (hne : request ≠ .constant .unusable) {i : UInt16} {pool : ConstantPool}
    (hrun : request.intern (edited start history) = .ok i pool) (more : List Request) :
    request.FoundAt (edited pool (more.map .intern)) i := by
  have hends := Request.ends_of_tabled (tabled_edited hstart history) hne
  rw [hrun] at hends
  obtain ⟨-, hfound⟩ := hends
  exact hfound.mono (prefix_edited pool more)

/-- What an edit answers, if it succeeds. -/
def answer? {α : Type} : EStateM.Result Fault ConstantPool α → Option α
  | .ok a _ => some a
  | .error _ _ => none

theorem eq_ok_of_answer? {α : Type} {result : EStateM.Result Fault ConstantPool α} {a : α}
    (h : answer? result = some a) : result = .ok a (left result) := by
  cases result with
  | ok b pool =>
    cases h
    rfl
  | error fault pool => cases h

/-- A text and a class, then a redirected text, and a redirect that fails. -/
def sampleHistory : List Operation :=
  [.intern (.text "a"), .intern (.className "b"), .set 1 (.utf8 [99]), .set 0 .unusable]

/-- A request whose class and name are known already, the name under another index than before. -/
theorem interned_resolves_sample :
    Unedited .empty ∧ Request.methodRef "b" "a" "()V" true ≠ .constant .unusable
      ∧ ∃ pool, (Request.methodRef "b" "a" "()V" true).intern (edited .empty sampleHistory)
          = .ok 7 pool
        ∧ (Request.methodRef "b" "a" "()V" true).FoundAt
          (edited pool (List.map .intern [.constant .unusable, .className "d"])) 7 := by
  have hne : Request.methodRef "b" "a" "()V" true ≠ .constant .unusable := by simp
  have hrun := eq_ok_of_answer? (by decide +kernel : answer?
    ((Request.methodRef "b" "a" "()V" true).intern (edited .empty sampleHistory)) = some 7)
  exact ⟨.empty, hne, _, hrun, interned_resolves .empty sampleHistory hne hrun _⟩

end Jarwright.ClassFile.ConstantPool
