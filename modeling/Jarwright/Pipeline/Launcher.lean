import Jarwright.Document.Json
import Jarwright.Pipeline.Fault

/-!
# Documents of the launcher

The launcher offers a manifest of all versions of the game, and for each version a document of what
can be downloaded for it.

* `Manifest.parse?` and `Manifest.require` find a version;
* `VersionDocument.parse?` and `VersionDocument.download?` find the archive of a distribution.
-/

namespace Jarwright.Pipeline

open Document

/-- Unknown fields may stand in a record of the launcher; a list holds just the fields. -/
def launcherForm : Value.Form := ⟨true, false⟩

/-- The kind of a version. -/
inductive VersionKind where
  | oldAlpha | oldBeta | snapshot | release
  /-- Any other kind. -/
  | unknown
  deriving DecidableEq, Repr, Inhabited

/-- The kind of a name. -/
def VersionKind.ofName : String → VersionKind
  | "old_alpha" => .oldAlpha
  | "old_beta" => .oldBeta
  | "snapshot" => .snapshot
  | "release" => .release
  | _ => .unknown

/-- The kind that a value spells: a name, or a record in which the name has no value. -/
def VersionKind.ofValue? : Value → Option VersionKind
  | .text name => some (.ofName name)
  | .record [(name, .null)] => some (.ofName name)
  | _ => none

/-- A version of the game. -/
structure Version where
  id : String
  kind : VersionKind
  /-- Where its document is. -/
  url : String
  deriving DecidableEq, Repr, Inhabited

/-- The version that a value spells. -/
def Version.ofValue? (v : Value) : Option Version := do
  let fields ← v.fields? launcherForm ["id", "type", "url"]
  return {
    id := ← Value.required? Value.text? "id" fields
    kind := ← Value.required? VersionKind.ofValue? "type" fields
    url := ← Value.required? Value.text? "url" fields }

/-- All versions of the game. -/
structure Manifest where
  versions : List Version
  deriving DecidableEq, Repr, Inhabited

namespace Manifest

/-- The manifest that a text spells. -/
def parse? (cs : List Char) : Option Manifest := do
  let fields ← (← Json.parse? cs).fields? launcherForm ["versions"]
  return ⟨← Value.required? (Value.list? Version.ofValue?) "versions" fields⟩

/-- The first version of a name. -/
def find? (m : Manifest) (id : String) : Option Version := m.versions.find? (·.id == id)

/-- The first version of a name, which has to be there. -/
def require (m : Manifest) (id : String) : Except Fault Version :=
  match m.find? id with
  | some v => .ok v
  | none => .error (.unknownVersion id)

end Manifest

/-- Something to download. -/
structure Download where
  sha1 : String
  size : Option Nat
  url : String
  deriving DecidableEq, Repr, Inhabited

/-- The download that a value spells. -/
def Download.ofValue? (v : Value) : Option Download := do
  let fields ← v.fields? launcherForm ["sha1", "size", "url"]
  return {
    sha1 := ← Value.required? Value.text? "sha1" fields
    size := ← Value.optional? Value.word? "size" fields
    url := ← Value.required? Value.text? "url" fields }

/-- What can be downloaded for a version. -/
structure VersionDocument where
  id : String
  client : Option Download
  server : Option Download
  deriving DecidableEq, Repr, Inhabited

namespace VersionDocument

/-- The downloads that a value spells, for the client and the server. -/
def downloads? (v : Value) : Option (Option Download × Option Download) := do
  let fields ← v.fields? launcherForm ["client", "server"]
  return (← Value.optional? Download.ofValue? "client" fields,
    ← Value.optional? Download.ofValue? "server" fields)

/-- The document that a text spells. -/
def parse? (cs : List Char) : Option VersionDocument := do
  let fields ← (← Json.parse? cs).fields? launcherForm ["id", "downloads"]
  let id ← Value.required? Value.text? "id" fields
  let (client, server) ← Value.withDefault? downloads? "downloads" (none, none) fields
  return ⟨id, client, server⟩

/-- The download for a distribution. -/
def download? (d : VersionDocument) : Settings.Distribution → Option Download
  | .client => d.client
  | .server => d.server

end VersionDocument

end Jarwright.Pipeline
