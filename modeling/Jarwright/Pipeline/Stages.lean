import Jarwright.Archive.Extraction
import Jarwright.Patch.Workflow
import Jarwright.Pipeline.Fetching
import Jarwright.Pipeline.Launcher
import Jarwright.Pipeline.Stage
import Jarwright.Settings.Template
import Jarwright.Source.Layout

/-!
# The stages of a build

* `download`, `fetchSrg` and `fetchMcp` fetch the game and the tables of names;
* `applyMappings` renames the game, `decompile` gives its sources;
* `placeResources` puts what is no source into the directory of resources;
* `makeBaseline`, `ensureSafe`, `applySeries` and `writeSeries` maintain the sources.
-/

namespace Jarwright.Pipeline

open Machine Machine.Action Settings

/-! ## Fetching -/

/-- Downloads the game that the documents of the launcher name. -/
def download : Stage where
  name := "download"
  description := "vanilla game jar"
  coordinate := Context.vanilla
  compute c output := do
    let wanted := c.settings.gameVersion
    let manifest ← fetchDocument c.settings.urls.versionManifest Manifest.parse?
    let version ← orFail id (manifest.require wanted)
    let document ← fetchDocument version.url VersionDocument.parse?
    match document.download? c.distribution with
    | none => throw (.missingDownload wanted c.distribution.name)
    | some d =>
      let _ ← downloadTo d.url output

/-- Downloads the table of names by owner. -/
def fetchSrg : Stage where
  name := "fetch-srg-mappings"
  description := "SRG mappings"
  coordinate := Context.srg
  compute c output := do
    let _ ← downloadTo (expand c.settings.urls.srg [("game", c.settings.gameVersion)]) output

/-- The tables that live mappings consist of. -/
def liveTables : List String := ["fields", "methods", "params"]

/-- Fetches live tables as entries of an archive. -/
def fetchLive (template : String) : List String → Action Fault (List Archive.Entry)
  | [] => return []
  | name :: rest => do
    let body ← fetchBytes (expand template [("name", name)])
    return .file (name ++ ".csv") body :: (← fetchLive template rest)

/-- Downloads the tables of names of members, or puts live tables together. -/
def fetchMcp : Stage where
  name := "fetch-mcp-mappings"
  description := "MCP mappings"
  coordinate := Context.mcp
  compute c output := do
    match c.mappingVersion with
    | .released channel version =>
      let _ ← downloadTo (expand c.settings.urls.mcp
        [("channel", channel), ("version", version), ("game", c.settings.gameVersion)]) output
    | .live =>
      mapFault (fun _ => .file output) (writeFile output [])
      let entries ← fetchLive c.settings.urls.mcpLive liveTables
      mapFault .archive (Archive.finish output entries)

/-! ## Renaming and decompiling -/

/-- The content of an entry that has to be there. -/
def requireEntry (archive entry : String) : Action Fault Bytes := do
  match ← mapFault .archive (Archive.contentOf? archive entry) with
  | some content => return content
  | none => throw (.missingEntry archive entry)

/-- Puts an entry that has to be there into a file. -/
def unpackEntry (archive entry path : String) : Action Fault Unit := do
  let content ← requireEntry archive entry
  mapFault (fun _ => .file path) (writeFile path content)

/-- The content of a file, if it can be read. -/
def readIfThere {ε : Type} (path : String) : Action ε (Option Bytes) := do
  match ← attempt (readFile path) with
  | .ok content => return some content
  | .error _ => return none

/-- Renames the game in a file. -/
def renameFile (input output : String) (table : Mapping.Compact) (fields methods : Mapping.Csv) :
    Action Fault Renaming.Report := do
  let entries ← orFail .renaming (Renaming.openArchive (← readIfThere input))
  let (renamed, report) ← orFail .renaming (Renaming.renameByTables table fields methods entries)
  mapFault (fun _ => .renaming .unreadable) (writeFile output (Archive.Zip.encode renamed))
  return report

/-- Renames the game by the tables. -/
def applyMappings : Stage where
  name := "apply-mappings"
  description := "mapped game jar"
  coordinate := Context.mapped
  compute c output := do
    let vanilla ← c.fetch c.vanilla
    let srg ← c.fetch c.srg
    let mcp ← c.fetch c.mcp
    withTemporaryFiles 3 fun paths => do
      let path (i : Nat) : String := paths.getD i ""
      unpackEntry srg "joined.csrg" (path 0)
      unpackEntry mcp "fields.csv" (path 1)
      unpackEntry mcp "methods.csv" (path 2)
      let side := c.distribution.side
      let table ← orFail .mapping (Mapping.Compact.load (← readIfThere (path 0)))
      let fields ← orFail .mapping (Mapping.Csv.load (← readIfThere (path 1)) side)
      let methods ← orFail .mapping (Mapping.Csv.load (← readIfThere (path 2)) side)
      let _ ← renameFile vanilla output table fields methods

/-- A source file with the visibilities that are asked for, and in the layout of source files if
the formatter can give it one. -/
def finishSource (c : Context) (name : String) (source : List Char) :
    Except Fault (List Char) := do
  let source ← match c.accessMap with
    | none => pure source
    | some m =>
      if m.mayTouch name then
        match m.apply (String.ofList source) with
        | .ok changed => pure changed.toList
        | .error cause => throw (.access cause)
      else pure source
  return (c.formatter source).getD source

/-- What becomes of a decompiled entry: sources are finished if they are texts, documents lose
their carriage returns, and everything else stays as it is. -/
def finishEntry (c : Context) (name : String) (content : Bytes) : Except Fault Bytes :=
  if Text.endsWith ".java".toList name.toList then
    match Text.Utf8.decode? content with
    | some source => (finishSource c name source).map Text.Utf8.encode
    | none => .ok content
  else if Text.endsWith ".xml".toList name.toList then .ok (content.filter (· != 13))
  else .ok content

/-- Decompiles the game. -/
def decompile : Stage where
  name := "decompile"
  description := "decompiled sources"
  coordinate := Context.source
  compute c output := do
    let mapped ← c.fetch c.mapped
    withTemporaryFiles 1 fun paths => do
      let stripped := paths.headD ""
      let _ ← mapFault .archive
        (Archive.copyEntries mapped stripped c.settings.decompile.includes)
      withTemporaryDirectory fun directory => do
        let produced ← c.decompiler stripped directory
        let _ ← Archive.remakeEntries produced output .archive fun name content =>
          (finishEntry c name content).map some

/-! ## Resources and sources -/

/-- Whether an entry of the sources is a source file. -/
def isSourceName (name : String) : Bool := Text.endsWith ".java".toList name.toList

/-- Puts what is no source into the directory of resources. -/
def placeResources (c : Context) : Action Fault (List Archive.Extracted) :=
  atStage "extract-resources" do
    let root ← orFail .settings c.settings.requireResourceDirectory
    let sources ← c.fetch c.source
    mapFault .archive (Archive.extract sources root .ifOlder fun name =>
      !isSourceName name && !c.settings.excludedResources.contains name)

/-- The workflow of the settings. Git has to be there. -/
def workflow (s : Settings) : Action Fault Patch.Workflow := do
  let _ ← mapFault .patch Patch.Git.version
  let source ← orFail .settings s.requireSourceDirectory
  let patches ← orFail .settings s.requirePatchDirectory
  return ⟨⟨source, ⟨s.git.authorName, s.git.authorEmail⟩, s.git.timeout⟩, patches, s.force⟩

/-- Makes the baseline of the decompiled sources. -/
def makeBaseline (c : Context) (w : Patch.Workflow) : Action Fault Bool :=
  atStage "initialize-repository" (w.makeBaseline .patch fun directory => do
    let sources ← c.fetch c.source
    let _ ← mapFault .archive (Archive.extract sources directory .always isSourceName))

/-- Refuses to go on where work would be lost. -/
def ensureSafe (w : Patch.Workflow) : Action Fault Unit :=
  atStage "safeguard" (mapFault .patch w.ensureSafe)

/-- Goes back to the baseline and applies all patches. -/
def applySeries (w : Patch.Workflow) : Action Fault (List String) :=
  atStage "apply-patches" (mapFault .patch w.apply)

/-- Writes the commits on top of the baseline as patches. -/
def writeSeries (w : Patch.Workflow) : Action Fault (List String) :=
  atStage "generate-patches" (mapFault .patch w.writePatches)

end Jarwright.Pipeline
