import Jarwright.Pipeline.Fault

/-!
# Fetching

* `fetchBytes` gives the content of an answer, `fetchDocument` what it spells;
* `downloadTo` writes it into a file.
-/

namespace Jarwright.Pipeline

open Machine Machine.Action

/-- The content of an answer. -/
def fetchBytes (url : String) : Action Fault Bytes := do
  match ← request url with
  | .unreachable => throw (.unanswered url)
  | .refused code => throw (.refused url code)
  | .content body complete => if complete then return body else throw (.unanswered url)

/-- What the content of an answer spells. -/
def fetchDocument {α : Type} (url : String) (parse : List Char → Option α) : Action Fault α := do
  match (Text.Utf8.decode? (← fetchBytes url)).bind parse with
  | some a => return a
  | none => throw (.badReply url)

/-- Writes the content of an answer into a file, and gives its length. An answer that breaks off
leaves a part of it in the file. -/
def downloadTo (url path : String) : Action Fault Nat := do
  match ← request url with
  | .unreachable => throw (.unanswered url)
  | .refused code => throw (.refused url code)
  | .content body complete =>
    mapFault (fun _ => .file path) (writeFile path body)
    if complete then return body.length else throw (.unanswered url)

end Jarwright.Pipeline
