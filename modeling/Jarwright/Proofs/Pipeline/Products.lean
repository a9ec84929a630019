import Mathlib.Data.List.Nodup
import Jarwright.Pipeline.Build
import Jarwright.Proofs.Store.Presence

/-!
# The files of products

A build stores five products, and whoever stores one of them must not touch the files of another
one, nor a temporary file. The names of the files decide that: they differ in their beginnings and
endings, whatever the versions are.

* `stages`: the stages that store a product;
* `apart_of_mem`: the files of two products stand in different places;
* `not_mem_filePlaces`: so do those of a product and a temporary file.
-/

namespace Jarwright.Pipeline

open Machine Machine.Disk Store Settings

/-- The stages whose products are stored, in their order. -/
def stages : List Stage := [download, fetchSrg, fetchMcp, applyMappings, decompile]

variable {c : Context} {r : Repository} {directory : Place}

/-! ## Names -/

theorem fileName_vanilla (c : Context) : c.vanilla.fileName
    = c.distribution.name ++ "-" ++ c.settings.gameVersion ++ "-vanilla.jar" := by
  refine String.toList_inj.1 ?_
  simp [Context.vanilla, Context.product, Coordinate.fileName]

theorem fileName_mapped (c : Context) : c.mapped.fileName
    = c.distribution.name ++ "-" ++ c.productVersion ++ "-mapped.jar" := by
  refine String.toList_inj.1 ?_
  simp [Context.mapped, Context.product, Coordinate.fileName]

theorem fileName_source (c : Context) : c.source.fileName
    = c.distribution.name ++ "-" ++ c.productVersion ++ "-source.jar" := by
  refine String.toList_inj.1 ?_
  simp [Context.source, Context.product, Coordinate.fileName]

theorem fileName_srg (c : Context) : c.srg.fileName
    = "mappings-srg-" ++ c.settings.gameVersion ++ ".zip" := by
  refine String.toList_inj.1 ?_
  simp [Context.srg, Coordinate.fileName]

theorem fileName_mcp (c : Context) : c.mcp.fileName
    = "mappings-mcp-" ++ c.tableVersion ++ ".zip" := by
  refine String.toList_inj.1 ?_
  simp [Context.mcp, Coordinate.fileName]

/-- The endings tell most names from each other, and the beginnings the others. -/
theorem nodup_fileName (c : Context) :
    (stages.map fun stage => (stage.coordinate c).fileName).Nodup := by
  have hends {x y : String} (h : x.toList.reverse ≠ y.toList.reverse) : x ≠ y := fun heq =>
    h (by rw [heq])
  have hnames : stages.map (fun stage => (stage.coordinate c).fileName)
      = [c.vanilla.fileName, c.srg.fileName, c.mcp.fileName, c.mapped.fileName,
        c.source.fileName] := rfl
  rw [hnames, fileName_vanilla, fileName_srg, fileName_mcp, fileName_mapped, fileName_source]
  simp only [List.nodup_cons, List.mem_cons, List.not_mem_nil, not_or, not_false_eq_true,
    List.nodup_nil, and_true]
  refine ⟨⟨?_, ?_, ?_, ?_⟩, ⟨?tables, ?_, ?_⟩, ⟨?_, ?_⟩, ?_⟩
  case tables =>
    intro h
    have hlist := congrArg String.toList h
    simp at hlist
  all_goals
    apply hends
    simp

/-! ## Places -/

/-- The last letter of the name of a file tells what the file is for. -/
theorem suffix_eq {k k' : Coordinate} {suffix suffix' : String}
    (hkind : k.kind = "jar" ∨ k.kind = "zip") (hkind' : k'.kind = "jar" ∨ k'.kind = "zip")
    (hsuffix : suffix ∈ suffixes) (hsuffix' : suffix' ∈ suffixes)
    (h : k.fileName ++ suffix = k'.fileName ++ suffix') : suffix = suffix' := by
  have hlast {k : Coordinate} (hkind : k.kind = "jar" ∨ k.kind = "zip") :
      k.fileName.toList.getLast? = some 'r' ∨ k.fileName.toList.getLast? = some 'p' := by
    unfold Coordinate.fileName
    generalize "-".intercalate ([k.artifact, k.version] ++ k.classifier.toList) = front
    rcases hkind with hkind | hkind
    · simp [hkind]
    · simp [hkind]
  have hletters := congrArg (fun s => s.toList.getLast?) h
  simp only [suffixes, List.mem_cons, List.not_mem_nil, or_false] at hsuffix hsuffix'
  rcases hsuffix with rfl | rfl | rfl <;> rcases hsuffix' with rfl | rfl | rfl <;>
    first
      | rfl
      | (rcases hlast hkind with hk | hk <;> rcases hlast hkind' with hk' | hk' <;>
          simp [hk, hk'] at hletters)

theorem place_suffix {k : Coordinate} (hk : k.WellFormed) {suffix : String}
    (hsuffix : suffix ∈ suffixes) : place directory (k.contentPath r.root ++ suffix)
      = place directory (k.folder r.root) ++ [k.fileName ++ suffix] :=
  hk.place_append (slash_not_mem_suffix hsuffix)

/-- Artifacts with different names have no file in common. -/
theorem apart_of_fileName {k k' : Coordinate} (hk : k.WellFormed) (hk' : k'.WellFormed)
    (hkind : k.kind = "jar" ∨ k.kind = "zip") (hkind' : k'.kind = "jar" ∨ k'.kind = "zip")
    (hne : k.fileName ≠ k'.fileName) : Apart r directory k k' := by
  have hnot {suffix : String} (hsuffix : suffix ∈ suffixes) :
      place directory (k.contentPath r.root ++ suffix) ∉ filePlaces r k' directory := by
    intro hmem
    rw [filePlaces_eq, List.mem_map] at hmem
    obtain ⟨suffix', hsuffix', hplace⟩ := hmem
    rw [place_suffix hk hsuffix, place_suffix hk' hsuffix'] at hplace
    have hname := congrArg List.getLast? hplace
    simp only [List.getLast?_concat, Option.some.injEq] at hname
    obtain rfl := suffix_eq hkind' hkind hsuffix' hsuffix hname
    exact hne ((String.append_left_inj _).1 hname).symm
  have hcontent := @hnot "" (by decide)
  rw [String.append_empty] at hcontent
  exact ⟨hcontent, hnot (by decide)⟩

/-- The files of two products stand in different places. -/
theorem apart_of_mem {stage stage' : Stage} (hstage : stage ∈ stages) (hstage' : stage' ∈ stages)
    (hwell : ∀ stage ∈ stages, (stage.coordinate c).WellFormed) :
    stage = stage' ∨ Apart r directory (stage.coordinate c) (stage'.coordinate c) := by
  have hkind {stage : Stage} (h : stage ∈ stages) :
      (stage.coordinate c).kind = "jar" ∨ (stage.coordinate c).kind = "zip" := by
    simp only [stages, List.mem_cons, List.not_mem_nil, or_false] at h
    rcases h with rfl | rfl | rfl | rfl | rfl
    exacts [.inl rfl, .inr rfl, .inr rfl, .inl rfl, .inl rfl]
  by_cases hname : (stage.coordinate c).fileName = (stage'.coordinate c).fileName
  · exact .inl (List.inj_on_of_nodup_map (nodup_fileName c) hstage hstage' hname)
  · exact .inr (apart_of_fileName (hwell _ hstage) (hwell _ hstage') (hkind hstage)
      (hkind hstage') hname)

/-! ## Temporary files -/

/-- The path of a temporary file or directory. -/
def IsFresh (s : Surroundings) (path : String) : Prop :=
  ∃ n, path = Path.join s.temporaries ("anvil-" ++ s.freshName n)

/-- The names of products begin with other letters than those of temporary files. -/
theorem head?_fileName {stage : Stage} (hstage : stage ∈ stages) :
    (stage.coordinate c).fileName.toList.head? = some 'c'
      ∨ (stage.coordinate c).fileName.toList.head? = some 's'
      ∨ (stage.coordinate c).fileName.toList.head? = some 'm' := by
  have hdistribution : c.distribution.name = "client" ∨ c.distribution.name = "server" := by
    cases c.distribution
    · exact .inl rfl
    · exact .inr rfl
  simp only [stages, List.mem_cons, List.not_mem_nil, or_false] at hstage
  rcases hstage with rfl | rfl | rfl | rfl | rfl
  · rw [show download.coordinate c = c.vanilla from rfl, fileName_vanilla]
    rcases hdistribution with h | h <;> simp [h]
  · rw [show fetchSrg.coordinate c = c.srg from rfl, fileName_srg]
    simp
  · rw [show fetchMcp.coordinate c = c.mcp from rfl, fileName_mcp]
    simp
  · rw [show applyMappings.coordinate c = c.mapped from rfl, fileName_mapped]
    rcases hdistribution with h | h <;> simp [h]
  · rw [show decompile.coordinate c = c.source from rfl, fileName_source]
    rcases hdistribution with h | h <;> simp [h]

theorem isName_fresh {name : String} (h : '/' ∉ name.toList) : Path.IsName ("anvil-" ++ name) := by
  refine ⟨by simp [h], by simp [Path.isStep], fun heq => ?_⟩
  have hlist := congrArg String.toList heq
  simp at hlist

/-- A temporary file is none of the files that a repository keeps for a product. -/
theorem not_mem_filePlaces {s : Surroundings} {stage : Stage} {path : String}
    (hstage : stage ∈ stages) (hwell : (stage.coordinate c).WellFormed)
    (hnames : ∀ n, '/' ∉ (s.freshName n).toList) (hpath : IsFresh s path) :
    place directory path ∉ filePlaces r (stage.coordinate c) directory := by
  obtain ⟨n, rfl⟩ := hpath
  intro hmem
  rw [filePlaces_eq, List.mem_map] at hmem
  obtain ⟨suffix, hsuffix, hplace⟩ := hmem
  rw [place_suffix hwell hsuffix, place_join (isName_fresh (hnames n))] at hplace
  have hname := congrArg List.getLast? hplace
  simp only [List.getLast?_concat, Option.some.injEq] at hname
  have hfirst := congrArg (fun s => s.toList.head?) hname
  rcases head?_fileName (c := c) hstage with h | h | h
  all_goals
    obtain ⟨rest, hrest⟩ := List.head?_eq_some_iff.1 h
    simp [hrest] at hfirst

end Jarwright.Pipeline
