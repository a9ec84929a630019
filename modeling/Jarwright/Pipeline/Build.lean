import Jarwright.Pipeline.Stages

/-!
# Builds

* `build` runs all stages in order and reports what they made;
* `exportPatches` writes the patches of the sources.
-/

namespace Jarwright.Pipeline

open Machine Machine.Action Settings

/-- The programs that a build leaves work to. -/
structure Tools where
  decompiler : Decompiler
  formatter : Formatter

/-- The tools of the settings: their decompiler, and the layout of source files. -/
def Tools.ofSettings (s : Settings) : Except Fault Tools :=
  match JarDecompiler.ofSettings s.decompile with
  | .ok d => .ok ⟨d.decompile, fun source => some (Source.layout source)⟩
  | .error cause => .error (.settings cause)

/-- What a build made. -/
structure Report where
  vanilla : String
  mapped : String
  sources : String
  resources : List Archive.Extracted
  /-- Whether the baseline was made, and not there already. -/
  initialized : Bool
  patches : List String
  deriving DecidableEq, Repr, Inhabited

/-- The root of the repository of the settings. -/
def repositoryRoot (s : Settings) : Action Fault String := do
  orFail .settings (s.repositoryRoot (← read).environment)

/-- The map of visibilities of the settings, if they name one. -/
def accessMap (s : Settings) : Action Fault (Option Source.AccessMap) := do
  match s.accessMap with
  | none => return none
  | some path =>
    some <$> orFail .access (Source.AccessMap.load (← readIfThere path))

/-- What the stages of a build may look at. -/
def context (s : Settings) (tools : Tools) (root : String) (access : Option Source.AccessMap) :
    Except Settings.Fault Context := do
  let distribution ← s.requireDistribution
  let mappingVersion ← readMappingVersion s.mappingVersion
  return {
    settings := s
    distribution
    mappingVersion
    repository := { root }
    decompiler := tools.decompiler
    formatter := tools.formatter
    accessMap := access }

/-- Runs all stages. -/
def build (s : Settings) (tools : Tools) : Action Fault Report := do
  orFail .settings s.validate
  let root ← repositoryRoot s
  let access ← accessMap s
  let c ← orFail .settings (context s tools root access)
  let vanilla ← download.provide c
  let _ ← fetchSrg.provide c
  let _ ← fetchMcp.provide c
  let mapped ← applyMappings.provide c
  let sources ← decompile.provide c
  let resources ← placeResources c
  let w ← atStage "check-git" (workflow s)
  let initialized ← makeBaseline c w
  ensureSafe w
  let patches ← applySeries w
  return ⟨vanilla, mapped, sources, resources, initialized, patches⟩

/-- Writes the patches of the sources. -/
def exportPatches (s : Settings) : Action Fault (List String) := do
  writeSeries (← atStage "check-git" (workflow s))

end Jarwright.Pipeline
