import Jarwright.Machine.Command

/-!
# The captured beginning of a stream

While a stream is read, the `beginning` of what was seen is kept: its first bytes, and whether there
were more. One reading preserves this, and so do all readings up to the end, however the stream is
split into them.

* `captureStep_beginning`, `captureFrom_append`: the step and the run;
* `flatten_readings`: what is written in one piece is read without a loss;
* `captures_beginning`: the captured bytes depend on the stream alone, and it is read to its end.
-/

namespace Jarwright.Machine

variable {ε : Type} {limit : Nat} {seen content piece : Bytes} {pieces : List Bytes}

/-! ## Reading a stream -/

/-- The first bytes of a stream, and whether there are more. -/
def beginning (limit : Nat) (stream : Bytes) : Bytes × Bool :=
  (stream.take (min limit stream.length), decide (limit < stream.length))

/-- The room that is left behind the beginning of what was seen. -/
theorem room_beginning : limit - (beginning limit seen).1.length = limit - seen.length := by
  simp only [beginning, List.length_take]
  omega

/-- One more reading of a stream of which the beginning was kept. -/
theorem captureStep_beginning :
    captureStep limit (beginning limit seen) piece = beginning limit (seen ++ piece) := by
  have hkept : (seen ++ piece).take (min limit (seen ++ piece).length)
      = seen.take (min limit seen.length) ++ piece.take (limit - seen.length) := by
    rw [← List.take_eq_take_min, ← List.take_eq_take_min, List.take_append]
  have hmore : limit < (seen ++ piece).length
      ↔ limit < seen.length ∨ limit - seen.length < piece.length := by
    rw [List.length_append]
    omega
  simp only [captureStep, room_beginning]
  refine Prod.ext hkept.symm ?_
  simp only [beginning, hmore, Bool.decide_or]

theorem captureFrom_cons (hpiece : piece ≠ []) (kept : Bytes × Bool)
    (rest : List (Except ε Bytes)) :
    captureFrom limit kept (.ok piece :: rest)
      = captureFrom limit (captureStep limit kept piece) rest := by
  rw [captureFrom, if_neg (by simpa using hpiece)]

/-- Readings that give something are put together. -/
theorem captureFrom_append (hpieces : ∀ piece ∈ pieces, piece ≠ []) (seen : Bytes)
    (rest : List (Except ε Bytes)) :
    captureFrom limit (beginning limit seen) (pieces.map .ok ++ rest)
      = captureFrom limit (beginning limit (seen ++ pieces.flatten)) rest := by
  induction pieces generalizing seen with
  | nil => rw [List.map_nil, List.nil_append, List.flatten_nil, List.append_nil]
  | cons piece pieces ih =>
    obtain ⟨hpiece, hrest⟩ := List.forall_mem_cons.1 hpieces
    rw [List.map_cons, List.cons_append, captureFrom_cons hpiece, captureStep_beginning, ih hrest,
      List.flatten_cons, List.append_assoc]

theorem captureFrom_pieces (hpieces : ∀ piece ∈ pieces, piece ≠ [])
    (rest : List (Except ε Bytes)) :
    captureFrom limit ([], false) (pieces.map .ok ++ rest)
      = captureFrom limit (beginning limit pieces.flatten) rest := by
  have hnone : beginning limit [] = ([], false) := by simp [beginning]
  rw [← hnone, captureFrom_append hpieces, List.nil_append]

/-! ## Reading what is there at once -/

theorem flatten_slices (content : Bytes) (size n : Nat) :
    ((List.range n).map fun i => (content.drop (i * size)).take size).flatten
      = content.take (n * size) := by
  induction n with
  | zero => simp
  | succ n ih =>
    rw [List.range_succ, List.map_append, List.flatten_append, ih, Nat.succ_mul, List.take_add]
    simp

/-- Nothing is lost. -/
theorem flatten_readings (content : Bytes) : (readings content).flatten = content := by
  rw [readings, flatten_slices, List.take_of_length_le]
  simp only [bufferSize]
  omega

/-- No reading is empty, and each fits the buffer. -/
theorem length_of_mem_readings (h : piece ∈ readings content) :
    piece ≠ [] ∧ piece.length ≤ bufferSize := by
  obtain ⟨i, hi, rfl⟩ := List.mem_map.1 h
  have hi := List.mem_range.1 hi
  refine ⟨List.ne_nil_of_length_pos ?_, List.length_take_le _ _⟩
  simp only [List.length_take, List.length_drop, bufferSize] at hi ⊢
  omega

theorem flatten_flatMap_readings (pieces : List Bytes) :
    (pieces.flatMap readings).flatten = pieces.flatten := by
  induction pieces with
  | nil => rfl
  | cons piece pieces ih =>
    rw [List.flatMap_cons, List.flatten_append, flatten_readings, ih, List.flatten_cons]

/-- What is captured of what is written in pieces is the beginning of all of it. -/
theorem capture_eq (limit : Nat) (pieces : List Bytes) :
    capture limit pieces = beginning limit pieces.flatten := by
  have hreadings : ∀ piece ∈ pieces.flatMap readings, piece ≠ [] := by
    intro piece hpiece
    obtain ⟨content, -, hmem⟩ := List.mem_flatMap.1 hpiece
    exact (length_of_mem_readings hmem).1
  have hrun := @captureFrom_pieces Empty limit _ hreadings []
  rw [List.append_nil, flatten_flatMap_readings] at hrun
  rw [capture, hrun]
  rfl

/-! ## What is captured -/

/-- Whatever the readings of a stream give until one gives nothing, exactly the beginning of the
stream is kept, and the stream is read to its end and not beyond. The same is kept of what a program
writes, whatever the pieces. -/
theorem captures_beginning (limit : Nat) (stream : Bytes) (pieces : List Bytes)
    (hstream : pieces.flatten = stream) :
    (∀ (ε : Type) (later : List (Except ε Bytes)), (∀ piece ∈ pieces, piece ≠ []) →
        captureFrom limit ([], false) (pieces.map .ok ++ .ok [] :: later)
          = (.ok (stream.take (min limit stream.length), decide (limit < stream.length)), later))
      ∧ capture limit pieces
        = (stream.take (min limit stream.length), decide (limit < stream.length)) := by
  subst hstream
  exact ⟨fun ε later hpieces => captureFrom_pieces hpieces (.ok [] :: later),
    capture_eq limit pieces⟩

/-- The limit is reached where the second reading ends, and the stream is longer by one byte. -/
theorem captures_beginning_full :
    [[1, 2], [3], [4]].flatten = ([1, 2, 3, 4] : Bytes)
      ∧ (∀ piece ∈ ([[1, 2], [3], [4]] : List Bytes), piece ≠ [])
      ∧ captureFrom 3 ([], false) [.ok [1, 2], .ok [3], .ok [4], .ok [], .error "closed"]
        = (.ok ([1, 2, 3], true), [.error "closed"])
      ∧ capture 3 [[1, 2], [3], [4]] = ([1, 2, 3], true) := by
  have hpieces : ∀ piece ∈ ([[1, 2], [3], [4]] : List Bytes), piece ≠ [] := by decide
  obtain ⟨hread, hwritten⟩ := captures_beginning 3 [1, 2, 3, 4] [[1, 2], [3], [4]] rfl
  exact ⟨rfl, hpieces, hread String [.error "closed"] hpieces, hwritten⟩

end Jarwright.Machine
