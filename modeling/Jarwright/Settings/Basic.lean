import Jarwright.Document.Toml
import Jarwright.Settings.LogFilter
import Jarwright.Settings.Version
import Jarwright.Store.Location
import Jarwright.Text.Quoted
import Jarwright.Text.Utf8

/-!
# Settings

What is built, where the build works, and the knobs of its stages. Settings are read from one
document, in which everything has a default and no unknown name may stand.

* `Settings.parse` reads a document, `Settings.load` a file, in which relative paths are seen from
  the directory of the file;
* `Settings.validate` checks what a build needs;
* `Settings.toValue` is the document of all settings.
-/

namespace Jarwright

/-- Where things are fetched from. All but the manifest are templates. -/
structure Settings.Urls where
  versionManifest : String := "https://launchermeta.mojang.com/mc/game/version_manifest.json"
  srg : String :=
    "http://files.minecraftforge.net/maven/de/oceanlabs/mcp/mcp/\x7bgame\x7d/mcp-\x7bgame\x7d-csrg.zip"
  mcp : String := "http://export.mcpbot.bspk.rs/mcp_\x7bchannel\x7d/\x7bversion\x7d-\x7bgame\x7d/"
    ++ "mcp_\x7bchannel\x7d-\x7bversion\x7d-\x7bgame\x7d.zip"
  mcpLive : String := "http://export.mcpbot.bspk.rs/\x7bname\x7d.csv"
  deriving DecidableEq, Repr, Inhabited

/-- How long to wait for servers, in milliseconds. -/
structure Settings.Network where
  connectTimeout : Nat := 30000
  readTimeout : Nat := 120000
  deriving DecidableEq, Repr, Inhabited

/-- How changes to the sources are committed. -/
structure Settings.Git where
  /-- When to give up on a command, in milliseconds. -/
  timeout : Option Nat := none
  authorName : String := "Anvil"
  authorEmail : String := "anvil@localhost"
  deriving DecidableEq, Repr, Inhabited

/-- How classes are decompiled. -/
structure Settings.Decompile where
  java : String := "java"
  jar : Option String := none
  /-- Entries whose names begin so are decompiled. -/
  includedStarts : List String := ["assets", "net"]
  /-- Entries of these names are decompiled too. -/
  includedFiles : List String := ["log4j2.xml", "pack.png", "yggdrasil_session_pubkey.der"]
  deriving DecidableEq, Repr, Inhabited

/-- What is logged, and where to. -/
structure Settings.Logging where
  level : String := "info"
  json : Bool := false
  file : Option String := none
  deriving DecidableEq, Repr, Inhabited

/-- The settings of a build. -/
structure Settings where
  distribution : String := ""
  gameVersion : String := ""
  mappingVersion : String := ""
  group : String := "net.minecraft"
  repository : Option String := none
  sourceDirectory : Option String := none
  patchDirectory : Option String := none
  resourceDirectory : Option String := none
  /-- Resources that are never extracted. -/
  excludedResources : List String := []
  accessMap : Option String := none
  /-- Whether uncommitted changes may be lost. -/
  force : Bool := false
  urls : Settings.Urls := {}
  network : Settings.Network := {}
  git : Settings.Git := {}
  decompile : Settings.Decompile := {}
  logging : Settings.Logging := {}
  deriving DecidableEq, Repr, Inhabited

namespace Settings

/-- Why settings cannot be used. -/
inductive Fault where
  | unreadable
  | malformed
  | unknownDistribution (value : String)
  | missingValue (name : String)
  | missingDirectory (name : String)
  | badMappingVersion (value : String)
  deriving DecidableEq, Repr, Inhabited

/-- The wording of a fault. Files that cannot be read are reported by their kind alone. -/
def Fault.message : Fault → String
  | .unreadable => "failed to read config file"
  | .malformed => "failed to parse toml config"
  | .unknownDistribution value =>
    s!"invalid module {Text.quote value} (expected client or server)"
  | .missingValue name => "missing required setting `" ++ name ++ "`"
  | .missingDirectory name => "missing required directory `" ++ name ++ "`"
  | .badMappingVersion value =>
    s!"invalid mapping version {Text.quote value} (expected <channel>-<version> or live)"

/-! ## Documents -/

section Reading

open Document Value

/-- No other names may stand in a record, and a list may be longer than it has to be. -/
def form : Form := ⟨false, true⟩

/-- A list of texts. -/
def texts? : Value → Option (List String) := list? text?

def Urls.ofValue? (v : Value) : Option Urls := do
  let fields ← v.fields? form ["version_manifest", "srg", "mcp", "mcp_live"]
  let standard : Urls := {}
  return {
    versionManifest := ← withDefault? text? "version_manifest" standard.versionManifest fields
    srg := ← withDefault? text? "srg" standard.srg fields
    mcp := ← withDefault? text? "mcp" standard.mcp fields
    mcpLive := ← withDefault? text? "mcp_live" standard.mcpLive fields }

def Network.ofValue? (v : Value) : Option Network := do
  let fields ← v.fields? form ["connect_timeout_ms", "read_timeout_ms"]
  let standard : Network := {}
  return {
    connectTimeout := ← withDefault? word? "connect_timeout_ms" standard.connectTimeout fields
    readTimeout := ← withDefault? word? "read_timeout_ms" standard.readTimeout fields }

def Git.ofValue? (v : Value) : Option Git := do
  let fields ← v.fields? form ["timeout_ms", "author_name", "author_email"]
  let standard : Git := {}
  return {
    timeout := ← optional? word? "timeout_ms" fields
    authorName := ← withDefault? text? "author_name" standard.authorName fields
    authorEmail := ← withDefault? text? "author_email" standard.authorEmail fields }

def Decompile.ofValue? (v : Value) : Option Decompile := do
  let fields ← v.fields? form ["java", "decompiler_jar", "included_prefixes", "included_files"]
  let standard : Decompile := {}
  return {
    java := ← withDefault? text? "java" standard.java fields
    jar := ← optional? text? "decompiler_jar" fields
    includedStarts := ← withDefault? texts? "included_prefixes" standard.includedStarts fields
    includedFiles := ← withDefault? texts? "included_files" standard.includedFiles fields }

def Logging.ofValue? (v : Value) : Option Logging := do
  let fields ← v.fields? form ["level", "json", "file"]
  let standard : Logging := {}
  return {
    level := ← withDefault? text? "level" standard.level fields
    json := ← withDefault? bool? "json" false fields
    file := ← optional? text? "file" fields }

/-- The names of the settings in their order. -/
def fieldNames : List String :=
  ["module", "game_version", "mapping_version", "group", "repository", "source_directory",
    "patch_directory", "resource_directory", "excluded_resources", "access_transformation",
    "force", "urls", "network", "git", "decompile", "logging"]

/-- The settings that a document spells. -/
def ofValue? (v : Value) : Option Settings := do
  let fields ← v.fields? form fieldNames
  let standard : Settings := {}
  return {
    distribution := ← withDefault? text? "module" "" fields
    gameVersion := ← withDefault? text? "game_version" "" fields
    mappingVersion := ← withDefault? text? "mapping_version" "" fields
    group := ← withDefault? text? "group" standard.group fields
    repository := ← optional? text? "repository" fields
    sourceDirectory := ← optional? text? "source_directory" fields
    patchDirectory := ← optional? text? "patch_directory" fields
    resourceDirectory := ← optional? text? "resource_directory" fields
    excludedResources := ← withDefault? texts? "excluded_resources" [] fields
    accessMap := ← optional? text? "access_transformation" fields
    force := ← withDefault? bool? "force" false fields
    urls := ← withDefault? Urls.ofValue? "urls" {} fields
    network := ← withDefault? Network.ofValue? "network" {} fields
    git := ← withDefault? Git.ofValue? "git" {} fields
    decompile := ← withDefault? Decompile.ofValue? "decompile" {} fields
    logging := ← withDefault? Logging.ofValue? "logging" {} fields }

/-- A text, or null. -/
def textOrNull (s : Option String) : Value := (s.map Value.text).getD .null

/-- A list of texts. -/
def textList (xs : List String) : Value := .list (xs.map .text)

/-- The document of all settings. -/
def toValue (s : Settings) : Value :=
  .record [
    ("module", .text s.distribution),
    ("game_version", .text s.gameVersion),
    ("mapping_version", .text s.mappingVersion),
    ("group", .text s.group),
    ("repository", textOrNull s.repository),
    ("source_directory", textOrNull s.sourceDirectory),
    ("patch_directory", textOrNull s.patchDirectory),
    ("resource_directory", textOrNull s.resourceDirectory),
    ("excluded_resources", textList s.excludedResources),
    ("access_transformation", textOrNull s.accessMap),
    ("force", .bool s.force),
    ("urls", .record [
      ("version_manifest", .text s.urls.versionManifest), ("srg", .text s.urls.srg),
      ("mcp", .text s.urls.mcp), ("mcp_live", .text s.urls.mcpLive)]),
    ("network", .record [
      ("connect_timeout_ms", .integer s.network.connectTimeout),
      ("read_timeout_ms", .integer s.network.readTimeout)]),
    ("git", .record [
      ("timeout_ms", (s.git.timeout.map fun n => Value.integer n).getD .null),
      ("author_name", .text s.git.authorName), ("author_email", .text s.git.authorEmail)]),
    ("decompile", .record [
      ("java", .text s.decompile.java), ("decompiler_jar", textOrNull s.decompile.jar),
      ("included_prefixes", textList s.decompile.includedStarts),
      ("included_files", textList s.decompile.includedFiles)]),
    ("logging", .record [
      ("level", .text s.logging.level), ("json", .bool s.logging.json),
      ("file", textOrNull s.logging.file)])]

end Reading

/-- The settings that a text spells. -/
def parse (text : String) : Except Fault Settings :=
  match (Document.Toml.parse? text.toList).bind ofValue? with
  | some s => .ok s
  | none => .error .malformed

/-- The settings with relative paths seen from a directory. The name of the virtual machine is
looked up elsewhere and stays as it is. -/
def rebase (s : Settings) (base : String) : Settings :=
  let resolve (path : Option String) : Option String := path.map (Path.join base)
  { s with
    repository := resolve s.repository
    sourceDirectory := resolve s.sourceDirectory
    patchDirectory := resolve s.patchDirectory
    resourceDirectory := resolve s.resourceDirectory
    accessMap := resolve s.accessMap
    decompile := { s.decompile with jar := resolve s.decompile.jar }
    logging := { s.logging with file := resolve s.logging.file } }

/-- The settings in a file, if there is one. -/
def load (path : String) (content : Option Bytes) : Except Fault Settings :=
  match content.bind Text.Utf8.decode? with
  | none => .error .unreadable
  | some cs => do
    let s ← parse (String.ofList cs)
    return match Path.parent? path with
      | some base => s.rebase base
      | none => s

/-! ## What a build needs -/

/-- The distribution that is asked for. -/
def requireDistribution (s : Settings) : Except Fault Distribution :=
  match Distribution.parse? s.distribution with
  | some d => .ok d
  | none => .error (.unknownDistribution s.distribution)

/-- The release of the tables of names that a text asks for. -/
def readMappingVersion (value : String) : Except Fault MappingVersion :=
  match MappingVersion.parse? value with
  | some v => .ok v
  | none => .error (.badMappingVersion (String.ofList (Text.trim value.toList)))

/-- A directory that has to be given. -/
def requireDirectory (name : String) : Option String → Except Fault String
  | some "" | none => .error (.missingDirectory name)
  | some path => .ok path

/-- A value that has to be more than blanks. -/
def requireValue (name value : String) : Except Fault Unit :=
  if (Text.trim value.toList).isEmpty then .error (.missingValue name) else .ok ()

/-- The directory of the sources. -/
def requireSourceDirectory (s : Settings) : Except Fault String :=
  requireDirectory "source_directory" s.sourceDirectory

/-- The directory of the patches. -/
def requirePatchDirectory (s : Settings) : Except Fault String :=
  requireDirectory "patch_directory" s.patchDirectory

/-- The directory of the resources. -/
def requireResourceDirectory (s : Settings) : Except Fault String :=
  requireDirectory "resource_directory" s.resourceDirectory

/-- The root of the repository. -/
def repositoryRoot (s : Settings) (environment : Store.Variables) : Except Fault String :=
  match s.repository <|> Store.defaultRoot? environment with
  | some root => .ok root
  | none => .error (.missingDirectory "repository")

/-- Checks what a build needs before it begins. -/
def validate (s : Settings) : Except Fault Unit := do
  let _ ← s.requireDistribution
  requireValue "game_version" s.gameVersion
  requireValue "mapping_version" s.mappingVersion
  let _ ← readMappingVersion s.mappingVersion
  requireValue "group" s.group
  let _ ← s.requireSourceDirectory
  let _ ← s.requirePatchDirectory
  let _ ← s.requireResourceDirectory

/-- Whether an entry is decompiled. -/
def Decompile.includes (d : Decompile) (name : String) : Bool :=
  d.includedStarts.any (fun front => Text.startsWith front.toList name.toList)
    || d.includedFiles.contains name

end Settings

end Jarwright
