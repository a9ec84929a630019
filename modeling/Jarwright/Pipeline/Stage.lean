import Jarwright.Pipeline.Decompiler
import Jarwright.Pipeline.Temporary

/-!
# Stages

A build is a sequence of stages. The product of an expensive stage is kept in the repository, under
a coordinate that depends on the settings alone, and is not computed again while it is there.

* `Context` is what stages may look at, and gives the coordinates of their products;
* `Stage.provide` looks for the product of a stage and computes it if it is missing.
-/

namespace Jarwright.Pipeline

open Machine Machine.Action Settings Store

/-- The version under which products of live tables are kept; it is that of a snapshot. -/
def liveVersion : String := "0.0.0-SNAPSHOT"

/-- What stages may look at. -/
structure Context where
  settings : Settings
  distribution : Distribution
  mappingVersion : MappingVersion
  repository : Repository
  decompiler : Decompiler
  formatter : Formatter
  accessMap : Option Source.AccessMap

namespace Context

/-- The version of the tables of names in coordinates. -/
def tableVersion (c : Context) : String :=
  match c.mappingVersion with
  | .live => liveVersion
  | v => v.name

/-- The version of products that depend on the tables of names; that of live tables is a snapshot
too. -/
def productVersion (c : Context) : String := c.settings.gameVersion ++ "-" ++ c.tableVersion

/-- The coordinate of a product of the distribution. -/
def product (c : Context) (version classifier : String) : Coordinate :=
  ⟨c.settings.group, c.distribution.name, version, "jar", some classifier⟩

/-- The game as it is downloaded. -/
def vanilla (c : Context) : Coordinate := c.product c.settings.gameVersion "vanilla"

/-- The table of names by owner. -/
def srg (c : Context) : Coordinate :=
  ⟨c.settings.group, "mappings-srg", c.settings.gameVersion, "zip", none⟩

/-- The tables of names of members. -/
def mcp (c : Context) : Coordinate :=
  ⟨c.settings.group, "mappings-mcp", c.tableVersion, "zip", none⟩

/-- The game with its names. -/
def mapped (c : Context) : Coordinate := c.product c.productVersion "mapped"

/-- The sources of the game. -/
def source (c : Context) : Coordinate := c.product c.productVersion "source"

/-- The path of an artifact that an earlier stage has stored. -/
def fetch (c : Context) (coordinate : Coordinate) : Action Fault String :=
  mapFault .store (c.repository.fetch coordinate)

end Context

/-- Names the stage in which a fault arises. -/
def atStage {α : Type} (name : String) (x : Action Fault α) : Action Fault α :=
  mapFault (.stage name) x

/-- A stage whose product is kept. -/
structure Stage where
  name : String
  description : String
  coordinate : Context → Coordinate
  /-- Writes the product to a path. -/
  compute : Context → String → Action Fault Unit

/-- The path of the product of a stage, which is computed if it is not there. -/
def Stage.provide (stage : Stage) (c : Context) : Action Fault String :=
  atStage stage.name do
    let coordinate := stage.coordinate c
    if ← mapFault .store (c.repository.contains coordinate) then c.fetch coordinate
    else withTemporaryFiles 1 fun paths => do
      let path := paths.headD ""
      stage.compute c path
      mapFault .store (c.repository.store coordinate path (some stage.description))

end Jarwright.Pipeline
