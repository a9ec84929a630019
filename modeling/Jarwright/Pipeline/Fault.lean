import Jarwright.Archive.File
import Jarwright.Mapping.Fault
import Jarwright.Patch.Git
import Jarwright.Renaming.Archive
import Jarwright.Settings.Basic
import Jarwright.Source.AccessMap
import Jarwright.Store.Repository

/-!
# Why a build fails

Each part of a build has faults of its own; here they are put together, with those of fetching and
decompiling. A fault inside a stage carries the name of the stage.
-/

namespace Jarwright.Pipeline

open Machine

/-- Why a build fails. -/
inductive Fault where
  | stage (name : String) (cause : Fault)
  | settings (cause : Settings.Fault)
  | store (cause : Store.Fault)
  | archive (cause : Archive.Fault)
  | mapping (cause : Mapping.Fault)
  | renaming (cause : Renaming.ArchiveFault)
  | access (cause : Source.AccessMap.Fault)
  | patch (cause : Patch.Fault)
  | command (cause : CommandFault)
  /-- A server refused a request. -/
  | refused (url : String) (code : Nat)
  /-- There was no answer to a request, or no whole one. -/
  | unanswered (url : String)
  /-- An answer is not what it has to be. -/
  | badReply (url : String)
  | file (path : String)
  | unknownVersion (version : String)
  /-- There is nothing to download for a distribution of a version. -/
  | missingDownload (version distribution : String)
  | missingEntry (archive entry : String)
  /-- The decompiler wrote nothing. -/
  | noDecompilerOutput (directory : String)
  deriving DecidableEq, Repr, Inhabited

namespace Fault

/-- The wording of a fault. -/
def message : Fault → String
  | .stage name cause => s!"stage {name} failed: " ++ cause.message
  | .settings cause => cause.message
  | .store cause => cause.message
  | .archive cause => cause.message
  | .mapping cause => cause.message
  | .renaming cause => cause.message
  | .access _ => "access transformation failed"
  | .patch cause => cause.message
  | .command (.notStarted c) => "failed to run `" ++ c.text ++ "`"
  | .command (.failed c o) => o.report c
  | .refused url code => s!"server returned status {code} for {url}"
  | .unanswered url => s!"request to {url} failed"
  | .badReply url => s!"invalid response from {url}"
  | .file path => s!"failed to access {path}"
  | .unknownVersion version => s!"unknown game version {version}"
  | .missingDownload version distribution =>
    s!"game version {version} has no {distribution} download"
  | .missingEntry path entry => s!"{path} does not contain {entry}"
  | .noDecompilerOutput directory => s!"decompiler produced no output in {directory}"

/-- The fault inside all stages. -/
def innermost : Fault → Fault
  | .stage _ cause => cause.innermost
  | cause => cause

end Fault

end Jarwright.Pipeline
