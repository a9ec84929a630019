import Jarwright.Proofs.Pipeline.Keys
import Jarwright.Proofs.Pipeline.Runs
import Jarwright.Proofs.Store.Metadata
import Jarwright.Proofs.Text.Trimming

/-!
# Keys that can be read back

The settings are checked for what a build needs, the coordinates of the products are put together
from them, and the sidecar of a product spells its coordinate out. Only who reads the sidecar later
asks whether that is a coordinate at all: settings pass their check with a version or a group that
no coordinate can have.

* `Store.Coordinate.wellFormed_iff`: what is asked of the group, and what of the other components;
* `Usable`: what a coordinate is good for that is read as it is written;
* `keys_usable_iff`: which settings give such coordinates, product by product;
* `found_eq_none_of_unspelled`: what is stored under others is missed ever after.
-/

namespace Jarwright.Store.Coordinate

/-! ## Components -/

/-- Whether a text has no character in it that separates components or the names of a path. -/
def Plain (text : String) : Prop := ∀ x ∈ text.toList, x ∉ [':', '/', '\\']

instance (text : String) : Decidable (Plain text) :=
  List.decidableBAll (fun x => x ∉ [':', '/', '\\']) text.toList

/-- Whether a text can be the group of a coordinate. -/
def IsGroup (text : String) : Prop := ':' ∉ text.toList ∧ isMalformedGroup text = false

theorem plain_append {a b : String} : Plain (a ++ b) ↔ Plain a ∧ Plain b := by
  simp only [Plain, String.toList_append, List.forall_mem_append]

theorem plain_iff {text : String} :
    Plain text ↔ ':' ∉ text.toList ∧ hasSeparator text = false := by
  simp only [Plain, hasSeparator, List.any_eq_false, List.mem_cons, List.not_mem_nil, or_false,
    not_or, Bool.or_eq_true, beq_iff_eq]
  grind

/-- No group is empty, for an empty text is one empty name. -/
theorem IsGroup.ne_empty {text : String} (h : IsGroup text) : text ≠ "" := by
  rintro rfl
  exact absurd h.2 (by decide)

/-- The group and the other components are looked at one by one. -/
theorem wellFormed_iff {c : Coordinate} :
    c.WellFormed ↔ IsGroup c.group ∧ ∀ part ∈ c.components.tail, part ≠ "" ∧ Plain part := by
  have hcomponents : c.components = c.group :: c.components.tail := rfl
  constructor
  · intro hc
    have hcolon := hc.colon
    have hne := hc.ne_empty
    rw [hcomponents, List.forall_mem_cons] at hcolon hne
    exact ⟨⟨hcolon.1, hc.group⟩, fun part hpart =>
      ⟨hne.2 part hpart, plain_iff.2 ⟨hcolon.2 part hpart, hc.separator part hpart⟩⟩⟩
  · rintro ⟨hgroup, hparts⟩
    refine ⟨?_, ?_, hgroup.2, fun part hpart => (plain_iff.1 (hparts part hpart).2).2⟩
    · rw [hcomponents, List.forall_mem_cons]
      exact ⟨hgroup.ne_empty, fun part hpart => (hparts part hpart).1⟩
    · rw [hcomponents, List.forall_mem_cons]
      exact ⟨hgroup.1, fun part hpart => (plain_iff.1 (hparts part hpart).2).1⟩

end Jarwright.Store.Coordinate

namespace Jarwright.Pipeline

open Machine Settings Store Store.Coordinate

/-! ## Usable keys -/

/-- What a coordinate is good for as a key: it is read as it is written, and so is every sidecar
that records it; and what was stored is found by its sidecar, if it is not a snapshot whose time is
over. -/
structure Usable (r : Repository) (k : Coordinate) : Prop where
  spelled : Coordinate.parse k.text = .ok k
  sidecar : ∀ m : Metadata, m.coordinate = k → m.size < UInt64.size → m.created < UInt64.size →
    Metadata.parse? m.encode = some m
  stored : ∀ (directory : Place) (s : Surroundings) (w w' : World) (source : String)
    (description : Option String) (path : String), Regular directory s →
    Storable k r.root directory source w.disk →
    (r.store k source description).perform s w = (.ok path, w') →
    ∃ m, ((r.metadata? k).perform s w').1 = .ok (some m)
      ∧ ((r.contains k).perform s w').1
        = .ok (!k.isSnapshot || decide (m.age (s.clock w'.readings) < r.lifetime))

theorem usable_iff {r : Repository} {k : Coordinate} : Usable r k ↔ k.WellFormed := by
  constructor
  · intro h
    exact (parse_eq_ok_iff.1 h.spelled).2
  · intro hk
    refine ⟨hk.parse_text, ?_, ?_⟩
    · rintro m rfl hsize hcreated
      exact Metadata.parse?_encode hk.parse_text hsize hcreated
    · intro directory s w w' source description path hs hsource hrun
      have hresult : ((r.store k source description).perform s w).1 = .ok path := by rw [hrun]
      obtain ⟨-, content, m, hpresent⟩ := present_of_store hk.parse_text hs hsource hresult
      obtain rfl := hs.directory
      rw [hrun] at hpresent
      refine ⟨m, ?_, ?_⟩
      · have hrecorded := (Repository.found_eq_some hpresent.found).2
        simp only [Repository.perform_metadata?, hrecorded]
      · rw [hpresent.contains]
        cases k.isSnapshot <;> rfl

/-- An artifact is missed if its sidecar records a coordinate that nothing spells. -/
theorem found_eq_none_of_unspelled {r : Repository} {k : Coordinate} {directory : Place} {d : Disk}
    {m : Metadata} (hk : ∀ k', Coordinate.parse k.text ≠ .ok k') (hm : m.coordinate = k)
    (hsidecar : d.read directory (k.sidecarPath r.root) = .ok m.encode) :
    r.found k directory d = .ok none := by
  have hparse : Metadata.parse? m.encode = none :=
    Metadata.parse?_encode_of_unspelled (by rwa [hm])
  unfold Repository.found Repository.recorded?
  rw [hsidecar]
  dsimp only
  rw [hparse]
  split <;> rfl

/-! ## Settings -/

variable {s : Settings} {tools : Tools} {root : String} {access : Option Source.AccessMap}
  {c : Context}

/-- Blanks separate nothing in a coordinate. -/
theorem plain_trim {text : String} :
    Plain (String.ofList (Text.trim text.toList)) ↔ Plain text := by
  have hmem {x : Char} (hx : x ∈ [':', '/', '\\']) :
      x ∈ Text.trim text.toList ↔ x ∈ text.toList := by
    refine Text.mem_trim_iff ?_
    simp only [List.mem_cons, List.not_mem_nil, or_false] at hx
    rcases hx with rfl | rfl | rfl <;> rfl
  rw [Plain, Plain, String.toList_ofList]
  constructor
  · exact fun h x hx hsep => h x ((hmem hsep).2 hx) hsep
  · exact fun h x hx hsep => h x ((hmem hsep).1 hx) hsep

/-- What a release is called is what the settings say about it, or the settings ask for the tables
as they are at the moment. -/
theorem name_of_parse? {value : String} {v : MappingVersion}
    (h : MappingVersion.parse? value = some v) :
    v = .live ∧ normalized value = "live"
      ∨ v ≠ .live ∧ v.name = String.ofList (Text.trim value.toList) := by
  unfold MappingVersion.parse? at h
  dsimp only at h
  split at h
  · rename_i hlive
    exact .inl ⟨(Option.some.inj h).symm, hlive⟩
  · split at h
    · rename_i first channel dash next version hfront hback
      obtain rfl := Option.some.inj h
      have hdash : dash = '-' := by
        have hhead := List.head?_dropWhile_not (· != '-') (Text.trim value.toList)
        rw [hback] at hhead
        simpa using hhead
      have hall := List.takeWhile_append_dropWhile (p := (· != '-')) (l := Text.trim value.toList)
      rw [hfront, hback, hdash] at hall
      refine .inr ⟨by simp, String.toList_inj.1 ?_⟩
      simpa [MappingVersion.name] using hall
    · cases h

/-- Who asks for live tables names them in plain letters. -/
theorem plain_of_normalized {value : String} (h : normalized value = "live") : Plain value := by
  have hletters : (Text.trim value.toList).map Mapping.Side.lowerAscii = "live".toList := by
    rw [← h, normalized, String.toList_ofList]
  rw [← plain_trim]
  intro x hx hsep
  rw [String.toList_ofList] at hx
  have hlower := List.mem_map_of_mem (f := Mapping.Side.lowerAscii) hx
  rw [hletters] at hlower
  simp only [List.mem_cons, List.not_mem_nil, or_false] at hsep
  rcases hsep with rfl | rfl | rfl <;> exact absurd hlower (by decide)

/-- The version of the tables is plain if what the settings say about it is. -/
theorem plain_tableVersion (hc : MappingVersion.parse? s.mappingVersion = some c.mappingVersion) :
    Plain c.tableVersion ↔ Plain s.mappingVersion := by
  rcases name_of_parse? hc with ⟨hlive, hnormalized⟩ | ⟨hreleased, hname⟩
  · rw [Context.tableVersion, hlive]
    exact iff_of_true (by decide) (plain_of_normalized hnormalized)
  · have htrim : Plain (String.ofList (Text.trim s.mappingVersion.toList))
      ↔ Plain s.mappingVersion := plain_trim
    rw [← htrim, ← hname, Context.tableVersion]
    split
    · contradiction
    · rfl

theorem name_ne_empty (v : MappingVersion) : v.name ≠ "" := by
  intro h
  have hlist := congrArg String.toList h
  cases v <;> simp [MappingVersion.name] at hlist

theorem Context.tableVersion_ne_empty (c : Context) : c.tableVersion ≠ "" := by
  unfold tableVersion
  split
  · decide
  · exact name_ne_empty _

theorem Context.productVersion_ne_empty (c : Context) : c.productVersion ≠ "" := by
  intro h
  have hlist := congrArg String.toList h
  simp [Context.productVersion] at hlist

theorem plain_productVersion :
    Plain c.productVersion ↔ Plain c.settings.gameVersion ∧ Plain c.tableVersion := by
  have hdash : Plain "-" := by decide
  simp [Context.productVersion, plain_append, hdash]

/-! ## Keys of products -/

/-- A product of the distribution is named by the settings and by plain words. -/
theorem wellFormed_product {version classifier : String} (hversion : version ≠ "")
    (hclassifier : classifier ≠ "" ∧ Plain classifier) :
    (c.product version classifier).WellFormed ↔ IsGroup c.settings.group ∧ Plain version := by
  have hname : c.distribution.name ≠ "" ∧ Plain c.distribution.name := by
    cases c.distribution <;> decide
  have hkind : "jar" ≠ "" ∧ Plain "jar" := by decide
  rw [wellFormed_iff]
  simp only [Context.product, components, List.tail_cons, List.cons_append, List.nil_append,
    Option.toList_some, List.forall_mem_cons, List.not_mem_nil, IsEmpty.forall_iff, implies_true,
    hname, hkind, hversion, hclassifier, ne_eq, not_false_eq_true, true_and, and_true]

/-- So are the tables. -/
theorem wellFormed_tables {group artifact version : String} (hversion : version ≠ "")
    (hartifact : artifact ≠ "" ∧ Plain artifact) :
    (Coordinate.mk group artifact version "zip" none).WellFormed
      ↔ IsGroup group ∧ Plain version := by
  have hkind : "zip" ≠ "" ∧ Plain "zip" := by decide
  rw [wellFormed_iff]
  simp only [components, List.tail_cons, List.append_nil, Option.toList_none, List.forall_mem_cons, List.not_mem_nil, IsEmpty.forall_iff, implies_true,
    hartifact, hkind, hversion, ne_eq, not_false_eq_true, true_and, and_true]

/-- What is known of settings that pass their check, as far as coordinates depend on it. -/
theorem of_validate (h : s.validate = .ok ()) :
    (∃ d, s.requireDistribution = .ok d) ∧ (∃ v, readMappingVersion s.mappingVersion = .ok v)
      ∧ s.gameVersion ≠ "" := by
  unfold validate at h
  cases hdistribution : s.requireDistribution with
  | error e =>
    rw [hdistribution] at h
    cases h
  | ok d =>
    by_cases hgame : s.gameVersion = ""
    · rw [hdistribution, hgame] at h
      cases h
    · refine ⟨⟨d, rfl⟩, ?_, hgame⟩
      cases hversion : readMappingVersion s.mappingVersion with
      | ok v => exact ⟨v, rfl⟩
      | error e =>
        rw [hdistribution, hversion] at h
        unfold requireValue at h
        split at h
        · cases h
        · split at h <;> cases h

/-- **Settings that pass their check give keys for all products, and these are usable as far as the
group and the versions are free of separators**: the game and the table by owner need that of the
group and the version of the game, the tables of members of the group and the release, and what is
made from them of all three. -/
theorem keys_usable_iff (s : Settings) (tools : Tools) (root : String)
    (access : Option Source.AccessMap) (hvalid : s.validate = .ok ()) :
    ∃ c, context s tools root access = .ok c
      ∧ (∀ stage ∈ stages, Usable c.repository (stage.coordinate c)
        ↔ Coordinate.parse (stage.coordinate c).text = .ok (stage.coordinate c))
      ∧ (Usable c.repository c.vanilla ↔ IsGroup s.group ∧ Plain s.gameVersion)
      ∧ (Usable c.repository c.srg ↔ IsGroup s.group ∧ Plain s.gameVersion)
      ∧ (Usable c.repository c.mcp ↔ IsGroup s.group ∧ Plain s.mappingVersion)
      ∧ (Usable c.repository c.mapped
        ↔ IsGroup s.group ∧ Plain s.gameVersion ∧ Plain s.mappingVersion)
      ∧ (Usable c.repository c.source
        ↔ IsGroup s.group ∧ Plain s.gameVersion ∧ Plain s.mappingVersion) := by
  obtain ⟨⟨d, hd⟩, ⟨v, hv⟩, hgame⟩ := of_validate hvalid
  have hcontext : ∃ c, context s tools root access = .ok c := by
    rw [context, hd, hv]
    exact ⟨_, rfl⟩
  obtain ⟨c, hc⟩ := hcontext
  have htables := plain_tableVersion (parse_of_context hc)
  obtain rfl : c.settings = s := by
    obtain ⟨-, -, -, -, rfl⟩ := context_eq_ok hc
    rfl
  refine ⟨c, hc, fun stage _ => ?_, ?_, ?_, ?_, ?_, ?_⟩
  · rw [usable_iff, parse_eq_ok_iff]
    simp
  · rw [usable_iff, Context.vanilla, wellFormed_product hgame (by decide)]
  · rw [usable_iff, Context.srg, wellFormed_tables hgame (by decide)]
  · rw [usable_iff, Context.mcp, wellFormed_tables c.tableVersion_ne_empty (by decide), htables]
  · rw [usable_iff, Context.mapped, wellFormed_product c.productVersion_ne_empty (by decide),
      plain_productVersion, htables]
  · rw [usable_iff, Context.source, wellFormed_product c.productVersion_ne_empty (by decide),
      plain_productVersion, htables]

/-- Settings with a colon in no version and a group of two names. -/
theorem keys_usable_sample :
    (sampleSettings "1.12.2" "stable-39").validate = .ok ()
      ∧ ∃ c, context (sampleSettings "1.12.2" "stable-39") idleTools
          "repository" none = .ok c
        ∧ ∀ stage ∈ stages, Usable c.repository (stage.coordinate c) := by
  have hvalid : (sampleSettings "1.12.2" "stable-39").validate = .ok () := rfl
  obtain ⟨c, hc, -, hvanilla, hsrg, hmcp, hmapped, hsource⟩ := keys_usable_iff
    (sampleSettings "1.12.2" "stable-39") idleTools "repository" none
    hvalid
  have hgroup : IsGroup (sampleSettings "1.12.2" "stable-39").group := by
    exact ⟨by decide, by decide⟩
  have hgame : Plain (sampleSettings "1.12.2" "stable-39").gameVersion := by decide
  have hrelease : Plain (sampleSettings "1.12.2" "stable-39").mappingVersion := by decide
  refine ⟨hvalid, c, hc, ?_⟩
  simp only [stages, List.forall_mem_cons]
  exact ⟨hvanilla.2 ⟨hgroup, hgame⟩, hsrg.2 ⟨hgroup, hgame⟩, hmcp.2 ⟨hgroup, hrelease⟩,
    hmapped.2 ⟨hgroup, hgame, hrelease⟩, hsource.2 ⟨hgroup, hgame, hrelease⟩, by simp⟩

/-- The check lets a group pass that has a dot too many, and then no key is read back. -/
theorem validate_not_usable :
    ¬ ∀ (s : Settings) (tools : Tools) (root : String) (access : Option Source.AccessMap)
      (c : Context), s.validate = .ok () → context s tools root access = .ok c →
      ∀ stage ∈ stages,
        Coordinate.parse (stage.coordinate c).text = .ok (stage.coordinate c) := by
  intro h
  have hread := h { sampleSettings "1.12.2" "stable-39" with group := "net.minecraft." }
    idleTools "repository" none _ rfl rfl download List.mem_cons_self
  have hflaw : Coordinate.parse "net.minecraft.:server:1.12.2:jar:vanilla"
      = .error .malformedGroup := by decide
  cases hflaw.symm.trans hread

end Jarwright.Pipeline
