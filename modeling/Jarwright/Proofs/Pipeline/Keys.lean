import Jarwright.Pipeline.Build
import Jarwright.Proofs.Text.Splitting

/-!
# What the keys of products say about their inputs

The product of a stage is kept under a coordinate and taken from there by every later build with the
same coordinate. Such a build gets what it would have made itself only if the coordinate says all
that the product depends on.

* `keys_determine`: for the game, the table by owner and the sources the coordinate says all; for
  the tables of members and the renamed game it does so among builds of one version of the game;
* `keys_collide`: builds of two versions of the game with one coordinate and different inputs.
-/

namespace Jarwright.Pipeline

open Settings

variable {c d : Context}

/-! ## What stages compute from -/

namespace Context

/-- Where the table of names by owner is fetched. -/
def srgUrl (c : Context) : String :=
  expand c.settings.urls.srg [("game", c.settings.gameVersion)]

/-- Where the tables of names of members are fetched. -/
def mcpUrls (c : Context) : List String :=
  match c.mappingVersion with
  | .released channel version => [expand c.settings.urls.mcp
      [("channel", channel), ("version", version), ("game", c.settings.gameVersion)]]
  | .live => liveTables.map fun name => expand c.settings.urls.mcpLive [("name", name)]

/-- Whether two contexts name products by one group and fetch from the same places. -/
structure Alike (c d : Context) : Prop where
  group : c.settings.group = d.settings.group
  urls : c.settings.urls = d.settings.urls

end Context

theorem name_injective {a b : Distribution} (h : a.name = b.name) : a = b := by
  cases a <;> cases b <;> simp_all [Distribution.name]

/-! ## Versions -/

/-- The channel of a release ends at the first dash. -/
theorem dash_not_mem_channel {value channel version : String}
    (h : MappingVersion.parse? value = some (.released channel version)) :
    '-' ∉ channel.toList := by
  unfold MappingVersion.parse? at h
  dsimp only at h
  split at h
  · cases h
  · split at h
    · rename_i first rest _ _ _ hfront _
      obtain ⟨rfl, -⟩ := MappingVersion.released.inj (Option.some.inj h)
      intro hdash
      rw [String.toList_ofList, ← hfront] at hdash
      have hother := List.all_eq_true.1 List.all_takeWhile _ hdash
      simp at hother
    · cases h

/-- A release is told from its name, for its channel has no dash in it. -/
theorem released_name_injective {value value' channel channel' version version' : String}
    (h : MappingVersion.parse? value = some (.released channel version))
    (h' : MappingVersion.parse? value' = some (.released channel' version'))
    (hname : channel ++ "-" ++ version = channel' ++ "-" ++ version') :
    channel = channel' ∧ version = version' := by
  have hcs : channel.toList ++ '-' :: version.toList
      = channel'.toList ++ '-' :: version'.toList := by
    simpa using congrArg String.toList hname
  have hpieces := congrArg (Text.splitOn '-') hcs
  rw [Text.splitOn_append_cons, Text.splitOn_append_cons,
    Text.splitOn_of_not_mem (dash_not_mem_channel h),
    Text.splitOn_of_not_mem (dash_not_mem_channel h'), List.singleton_append,
    List.singleton_append] at hpieces
  obtain ⟨hchannel, -⟩ := List.cons.inj hpieces
  rw [hchannel] at hcs
  obtain ⟨-, hversion⟩ := List.cons.inj (List.append_cancel_left hcs)
  exact ⟨String.toList_inj.1 hchannel, String.toList_inj.1 hversion⟩

/-! ## Contexts of settings -/

section

variable {s : Settings} {tools : Tools} {root : String} {access : Option Source.AccessMap}

/-- The release of a context is the one that its settings name. -/
theorem parse_of_context (h : context s tools root access = .ok c) :
    MappingVersion.parse? s.mappingVersion = some c.mappingVersion := by
  unfold context at h
  cases hdistribution : s.requireDistribution with
  | error e =>
    rw [hdistribution] at h
    cases h
  | ok distribution =>
    cases hparse : MappingVersion.parse? s.mappingVersion with
    | none =>
      rw [hdistribution, readMappingVersion, hparse] at h
      cases h
    | some v =>
      rw [hdistribution, readMappingVersion, hparse] at h
      obtain rfl := Except.ok.inj h
      rfl

end

/-- Among live releases, and among the others, the version of the tables says which one it is. -/
theorem mappingVersion_of_tableVersion {value value' : String}
    (hc : MappingVersion.parse? value = some c.mappingVersion)
    (hd : MappingVersion.parse? value' = some d.mappingVersion)
    (hlive : c.mappingVersion.isLive = d.mappingVersion.isLive)
    (h : c.tableVersion = d.tableVersion) : c.mappingVersion = d.mappingVersion := by
  unfold Context.tableVersion at h
  generalize c.mappingVersion = v at *
  generalize d.mappingVersion = w at *
  cases v with
  | live =>
    cases w with
    | live => rfl
    | released channel version => cases hlive
  | released channel version =>
    cases w with
    | live => cases hlive
    | released channel' version' =>
      obtain ⟨rfl, rfl⟩ := released_name_injective hc hd h
      rfl

/-! ## Keys -/

theorem product_injective {version version' classifier classifier' : String}
    (h : c.product version classifier = d.product version' classifier') :
    c.distribution = d.distribution ∧ version = version' := by
  unfold Context.product at h
  simp only [Store.Coordinate.mk.injEq] at h
  exact ⟨name_injective h.2.1, h.2.2.1⟩

theorem product_congr (hgroup : c.settings.group = d.settings.group)
    (hdistribution : c.distribution = d.distribution) (version classifier : String) :
    c.product version classifier = d.product version classifier := by
  rw [Context.product, Context.product, hgroup, hdistribution]

theorem download_determined (h : c.Alike d) (hkey : c.vanilla = d.vanilla) :
    c.settings.gameVersion = d.settings.gameVersion ∧ c.distribution = d.distribution
      ∧ download.compute c = download.compute d := by
  obtain ⟨hdistribution, hgame⟩ := product_injective hkey
  refine ⟨hgame, hdistribution, ?_⟩
  funext output
  simp only [download, h.urls, hgame, hdistribution]

theorem srg_determined (h : c.Alike d) (hkey : c.srg = d.srg) :
    c.srgUrl = d.srgUrl ∧ fetchSrg.compute c = fetchSrg.compute d := by
  have hgame : c.settings.gameVersion = d.settings.gameVersion := by
    simp only [Context.srg, Store.Coordinate.mk.injEq] at hkey
    exact hkey.2.2.1
  refine ⟨by rw [Context.srgUrl, Context.srgUrl, h.urls, hgame], ?_⟩
  funext output
  simp only [fetchSrg, h.urls, hgame]

/-- The tables of members are told from the name of their release; the version of the game is not in
it, and matters unless the tables are live. -/
theorem mcp_determined (h : c.Alike d) (hversion : c.mappingVersion = d.mappingVersion)
    (hgame : c.mappingVersion = .live ∨ c.settings.gameVersion = d.settings.gameVersion) :
    c.mcpUrls = d.mcpUrls ∧ fetchMcp.compute c = fetchMcp.compute d := by
  unfold Context.mcpUrls
  simp only [fetchMcp, h.urls, hversion]
  rcases hgame with hlive | hgame
  · rw [hversion] at hlive
    simp only [hlive, and_self]
  · simp only [hgame, and_self]

theorem apply_determined (h : c.Alike d) (hkey : c.mapped = d.mapped)
    (hgame : c.settings.gameVersion = d.settings.gameVersion) :
    c.vanilla = d.vanilla ∧ c.srg = d.srg ∧ c.mcp = d.mcp
      ∧ (c.repository = d.repository → applyMappings.compute c = applyMappings.compute d) := by
  obtain ⟨hdistribution, hversion⟩ := product_injective hkey
  have htables : c.tableVersion = d.tableVersion := by
    rw [Context.productVersion, Context.productVersion, hgame] at hversion
    exact String.toList_inj.1 (by simpa using congrArg String.toList hversion)
  have hvanilla : c.vanilla = d.vanilla := by
    rw [Context.vanilla, Context.vanilla, hgame]
    exact product_congr h.group hdistribution _ _
  have hsrg : c.srg = d.srg := by rw [Context.srg, Context.srg, h.group, hgame]
  have hmcp : c.mcp = d.mcp := by rw [Context.mcp, Context.mcp, h.group, htables]
  refine ⟨hvanilla, hsrg, hmcp, fun hrepository => ?_⟩
  funext output
  simp only [applyMappings, Context.fetch, hrepository, hvanilla, hsrg, hmcp, hdistribution]

theorem decompile_determined (h : c.Alike d) (hkey : c.source = d.source) :
    c.mapped = d.mapped := by
  obtain ⟨hdistribution, hversion⟩ := product_injective hkey
  rw [Context.mapped, Context.mapped, hversion]
  exact product_congr h.group hdistribution _ _

/-- Settings for a version of the game and a release of the tables. -/
def sampleSettings (game release : String) : Settings where
  distribution := "server"
  gameVersion := game
  mappingVersion := release
  sourceDirectory := some "src"
  patchDirectory := some "patches"
  resourceDirectory := some "resources"
  urls := { mcp := "\x7bversion\x7d-\x7bgame\x7d.zip", mcpLive := "\x7bname\x7d.csv" }

/-- The context of such settings, with tools that do nothing. -/
def sampleContext (game release : String) (v : MappingVersion) : Context where
  settings := sampleSettings game release
  distribution := .server
  mappingVersion := v
  repository := { root := "repository" }
  decompiler := fun _ output => throw (.noDecompilerOutput output)
  formatter := fun _ => none
  accessMap := none

/-- What has to hold for a context to be met in a build. -/
def Met (c : Context) : Prop :=
  c.settings.validate = .ok ()
    ∧ context c.settings ⟨c.decompiler, c.formatter⟩ c.repository.root c.accessMap = .ok c

/-- **The coordinate of a product says what it is computed from**: always for the game, the table of
names by owner and the sources; for the tables of names of members if both are live, or neither is
and they are for one version of the game; for the renamed game among builds of one version. -/
theorem keys_determine {s s' : Settings} {tools tools' : Tools} {root root' : String}
    {access access' : Option Source.AccessMap} (hc : context s tools root access = .ok c)
    (hd : context s' tools' root' access' = .ok d) (h : c.Alike d) :
    (download.coordinate c = download.coordinate d →
      c.settings.gameVersion = d.settings.gameVersion ∧ c.distribution = d.distribution
        ∧ download.compute c = download.compute d)
    ∧ (fetchSrg.coordinate c = fetchSrg.coordinate d →
      c.srgUrl = d.srgUrl ∧ fetchSrg.compute c = fetchSrg.compute d)
    ∧ (fetchMcp.coordinate c = fetchMcp.coordinate d →
      c.mappingVersion.isLive = d.mappingVersion.isLive →
      c.mappingVersion = .live ∨ c.settings.gameVersion = d.settings.gameVersion →
      c.mcpUrls = d.mcpUrls ∧ fetchMcp.compute c = fetchMcp.compute d)
    ∧ (applyMappings.coordinate c = applyMappings.coordinate d →
      c.settings.gameVersion = d.settings.gameVersion →
      c.vanilla = d.vanilla ∧ c.srg = d.srg ∧ c.mcp = d.mcp
        ∧ (c.repository = d.repository → applyMappings.compute c = applyMappings.compute d))
    ∧ (decompile.coordinate c = decompile.coordinate d → c.mapped = d.mapped) := by
  refine ⟨download_determined h, srg_determined h, fun hkey hlive hgame => ?_,
    apply_determined h, decompile_determined h⟩
  have htables : c.tableVersion = d.tableVersion := congrArg Store.Coordinate.version hkey
  exact mcp_determined h
    (mappingVersion_of_tableVersion (parse_of_context hc) (parse_of_context hd) hlive htables) hgame

/-- Two spellings of one release: blanks around it are in no coordinate. -/
theorem keys_determine_spellings :
    Met (sampleContext "1.12.2" " stable-39 " (.released "stable" "39"))
      ∧ Met (sampleContext "1.12.2" "stable-39" (.released "stable" "39"))
      ∧ applyMappings.compute (sampleContext "1.12.2" " stable-39 " (.released "stable" "39"))
        = applyMappings.compute (sampleContext "1.12.2" "stable-39" (.released "stable" "39"))
      ∧ fetchMcp.compute (sampleContext "1.12.2" " stable-39 " (.released "stable" "39"))
        = fetchMcp.compute (sampleContext "1.12.2" "stable-39" (.released "stable" "39")) := by
  have hc : Met (sampleContext "1.12.2" " stable-39 " (.released "stable" "39")) := ⟨rfl, rfl⟩
  have hd : Met (sampleContext "1.12.2" "stable-39" (.released "stable" "39")) := ⟨rfl, rfl⟩
  obtain ⟨-, -, hmcp, happly, -⟩ := keys_determine hc.2 hd.2 ⟨rfl, rfl⟩
  obtain ⟨-, -, -, hcompute⟩ := happly rfl rfl
  exact ⟨hc, hd, hcompute rfl, (hmcp rfl rfl (.inr rfl)).2⟩

/-! ## Collisions -/

/-- Builds whose products have one coordinate although they are made from different inputs: the
tables of one release for two versions of the game; live tables and those of a release with the
name of the live version; and a game renamed where a dash belongs to the version of the game or to
the channel. -/
theorem keys_collide :
    (∃ c d, Met c ∧ Met d ∧ c.Alike d ∧ fetchMcp.coordinate c = fetchMcp.coordinate d
      ∧ c.mappingVersion = d.mappingVersion ∧ c.mcpUrls ≠ d.mcpUrls)
    ∧ (∃ c d, Met c ∧ Met d ∧ c.Alike d ∧ fetchMcp.coordinate c = fetchMcp.coordinate d
      ∧ c.settings.gameVersion = d.settings.gameVersion ∧ c.mcpUrls ≠ d.mcpUrls)
    ∧ ∃ c d, Met c ∧ Met d ∧ c.Alike d ∧ applyMappings.coordinate c = applyMappings.coordinate d
      ∧ c.vanilla ≠ d.vanilla ∧ c.srg ≠ d.srg ∧ c.mcp ≠ d.mcp := by
  refine ⟨?_, ?_, ?_⟩
  · exact ⟨sampleContext "1.12" "snapshot-1" (.released "snapshot" "1"),
      sampleContext "1.11" "snapshot-1" (.released "snapshot" "1"),
      ⟨rfl, rfl⟩, ⟨rfl, rfl⟩, ⟨rfl, rfl⟩, rfl, rfl, by decide⟩
  · exact ⟨sampleContext "1.12" "live" .live,
      sampleContext "1.12" "0.0.0-SNAPSHOT" (.released "0.0.0" "SNAPSHOT"),
      ⟨rfl, rfl⟩, ⟨rfl, rfl⟩, ⟨rfl, rfl⟩, by decide, rfl, by decide⟩
  · exact ⟨sampleContext "1.13-pre7" "snapshot-1" (.released "snapshot" "1"),
      sampleContext "1.13" "pre7-snapshot-1" (.released "pre7" "snapshot-1"),
      ⟨rfl, rfl⟩, ⟨rfl, rfl⟩, ⟨rfl, rfl⟩, by decide, by decide, by decide, by decide⟩

end Jarwright.Pipeline
