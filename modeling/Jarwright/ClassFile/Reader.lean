import Jarwright.Bytes
import Jarwright.ClassFile.Fault

/-!
# Reading big-endian structures

A reader takes bytes off the front of what is still to be read. A fixed-width read that fails takes
nothing, except that a number of eight bytes is read as two halves and keeps the first.
-/

namespace Jarwright.ClassFile

/-- Takes a value off the front of a byte string, which is the reader's state also when it fails. -/
abbrev Reader := EStateM Fault Bytes

namespace Reader

/-- The next `n` bytes. -/
def take (n : Nat) : Reader Bytes := fun bs =>
  match Bytes.splitExact n bs with
  | some (front, rest) => .ok front rest
  | none => .error .truncated bs

/-- The next byte. -/
def u1 : Reader UInt8 := fun
  | [] => .error .truncated []
  | b :: rest => .ok b rest

/-- The next two bytes as a number. -/
def u2 : Reader UInt16 := do
  return UInt16.ofNat (Bytes.ofBigEndian (← take 2))

/-- The next four bytes as a number. -/
def u4 : Reader UInt32 := do
  return UInt32.ofNat (Bytes.ofBigEndian (← take 4))

/-- The next eight bytes as a number, read as two halves. -/
def u8 : Reader UInt64 := do
  let hi ← u4
  let lo ← u4
  return UInt64.ofNat (hi.toNat * UInt32.size + lo.toNat)

/-- The number of bytes still to be read. -/
def remaining : Reader Nat := do
  return (← get).length

/-- Fails unless everything was read. -/
def expectEnd : Reader Unit := fun
  | [] => .ok () []
  | bs => .error (.trailingBytes bs.length) bs

/-- Runs a step `n` times; `done` holds the results so far, latest first. -/
def timesFrom {m : Type → Type} [Monad m] {α : Type} (item : m α) (done : List α) :
    Nat → m (List α)
  | 0 => return done.reverse
  | n + 1 => do
    let x ← item
    timesFrom item (x :: done) n

/-- Runs a step `n` times and lists the results. -/
def times {m : Type → Type} [Monad m] {α : Type} (n : Nat) (item : m α) : m (List α) :=
  timesFrom item [] n

/-- Reads a whole byte string from its start and forgets what is left. -/
def eval {α : Type} (reader : Reader α) (bs : Bytes) : Except Fault α :=
  match reader bs with
  | .ok x _ => .ok x
  | .error e _ => .error e

/-- Lets a reader stand for one that must use up its bytes: bytes left over are the fault
`whenMore`. -/
def whole {α : Type} (whenMore : Fault) (reader : Reader α) : Reader α := do
  let x ← reader
  match ← get with
  | [] => return x
  | _ :: _ => throw whenMore

end Reader

/-! ## Writing -/

/-- Two bytes. -/
def putU2 (n : UInt16) : Bytes := Bytes.bigEndian 2 n.toNat

/-- Four bytes. -/
def putU4 (n : UInt32) : Bytes := Bytes.bigEndian 4 n.toNat

/-- Eight bytes. -/
def putU8 (n : UInt64) : Bytes := Bytes.bigEndian 8 n.toNat

/-- A list behind the number of its elements on two bytes. -/
def putList {α : Type} (item : α → Bytes) (xs : List α) : Bytes :=
  Bytes.bigEndian 2 xs.length ++ xs.flatMap item

end Jarwright.ClassFile
