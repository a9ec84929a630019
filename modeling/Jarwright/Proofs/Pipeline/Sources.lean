import Jarwright.Pipeline.Stages
import Jarwright.Proofs.Pipeline.Keys
import Jarwright.Proofs.Source.Coverage
import Jarwright.Proofs.Text.Utf8

/-!
# Finishing decompiled sources

A decompiled file is only changed by the access map if the map says something about the type that
the file is named for, or about one inside it. That spares reading most files, and it is right for
every file with that one type, as `finishEntry_eq` says, with a proviso: the name of a type must not
be taken for that of a file.
-/

namespace Jarwright.Pipeline

open Source

/-- A source file with the visibilities that are asked for, whatever its name. -/
def finishSourceAnyway (c : Context) (source : List Char) : Except Fault (List Char) := do
  let source ← match c.accessMap with
    | none => pure source
    | some m =>
      match m.apply (String.ofList source) with
      | .ok changed => pure changed.toList
      | .error cause => throw (.access cause)
  return (c.formatter source).getD source

/-- What becomes of a decompiled entry if the access map looks at every source file. -/
def finishEntryAnyway (c : Context) (name : String) (content : Bytes) : Except Fault Bytes :=
  if Text.endsWith ".java".toList name.toList then
    match Text.Utf8.decode? content with
    | some source => (finishSourceAnyway c source).map Text.Utf8.encode
    | none => .ok content
  else if Text.endsWith ".xml".toList name.toList then .ok (content.filter (· != 13))
  else .ok content

/-- Looking at a file that the map leaves alone makes no difference. -/
theorem finishSource_eq {c : Context} {name : String} {source : List Char}
    (h : ∀ m, c.accessMap = some m → m.mayTouch name = false →
      m.apply (String.ofList source) = .ok (String.ofList source)) :
    finishSource c name source = finishSourceAnyway c source := by
  rw [finishSource, finishSourceAnyway]
  cases haccess : c.accessMap with
  | none => rfl
  | some m =>
    cases htouch : m.mayTouch name with
    | true => cases happly : m.apply (String.ofList source) <;> simp [htouch, happly]
    | false => simp [htouch, h m haccess htouch]

/-- **The shortcut is safe.** A file with one type, that which it is named for, stays as it is under
a map that does not touch it, and is finished as if the map had looked at it. The proviso is for
types whose names end as files do: the map must have no entry for what it takes such a name for. -/
theorem finishEntry_eq (c : Context) (m : AccessMap) (path : String) (content : Bytes)
    (source : List Char) (u : Source.Unit) (t : TypeDeclaration) (haccess : c.accessMap = some m)
    (hcontent : Text.Utf8.decode? content = some source) (hscan : Unit.scan? source = some u)
    (htypes : u.types = [t]) (hfile : AccessMap.IsFileOf path t.qualifiedName)
    (htouch : m.mayTouch path = false)
    (hending : AccessMap.ending <:+ t.qualifiedName.toList → m.get? t.qualifiedName = none) :
    m.apply (String.ofList source) = .ok (String.ofList source)
      ∧ finishEntry c path content = finishEntryAnyway c path content := by
  have happly : m.apply (String.ofList source) = .ok (String.ofList source) :=
    AccessMap.apply_of_not_mayTouch (by rwa [String.toList_ofList]) htypes hfile htouch hending
  refine ⟨happly, ?_⟩
  have hsource : finishSource c path source = finishSourceAnyway c source :=
    finishSource_eq fun m' haccess' _ => by
      cases haccess.symm.trans haccess'
      exact happly
  rw [finishEntry, finishEntryAnyway, hcontent]
  simp only [hsource]

/-! ## A type that is called as files are -/

/-- A file of the package `a` with the class `java`. -/
def javaFile : List Char := "package a;\nclass java \x7b\x7d\n".toList

def javaForest : List (Node Part) :=
  [.branch .package [.leaf ⟨.word, "package", 0, 7, 0, true⟩,
      .branch .name [.leaf ⟨.word, "a", 8, 9, 8, false⟩], .leaf ⟨.symbol, ";", 9, 10, 9, true⟩],
    .branch (.type .classType) [.leaf ⟨.word, "class", 11, 16, 11, false⟩,
      .branch .name [.leaf ⟨.word, "java", 17, 21, 17, false⟩],
      .branch .body [.leaf ⟨.symbol, "\x7b", 22, 23, 22, false⟩,
        .leaf ⟨.symbol, "\x7d", 23, 24, 23, true⟩]]]

def javaType : TypeDeclaration := ⟨.classType, "java", "a.java", ⟨none, 11⟩, [], [], []⟩

theorem scan?_javaFile : Unit.scan? javaFile = some ⟨some "a", [javaType]⟩ := by
  have hpackage : String.ofList ((List.take 1 (List.drop 8 javaFile)).filter (!Text.isBlank ·))
      = "a" := by decide +kernel
  rw [scan?_eq_of_same javaForest (by decide +kernel)]
  simp [Unit.ofNodes, javaForest, packageName, partOf?, tokensOf, TypeDeclaration.ofNode?, nameIn?,
    fieldsOf, methodsOf, TypeDeclaration.ofBody, TypeDeclaration.ofMembers, Modifiers.ofParts, hpackage,
    javaType]

theorem isFileOf_javaFile : AccessMap.IsFileOf "a/java.java" javaType.qualifiedName :=
  ⟨"a/java".toList, by decide +kernel, by decide +kernel⟩

/-- A context with an access map. -/
def mappedContext (m : AccessMap) : Context :=
  { sampleContext "1.12" "stable-39" (.released "stable" "39") with accessMap := some m }

/-- A map about the type `java` in another package. -/
def elsewhereMap : AccessMap := .ofList [("b.java.java", ⟨some .open, [], []⟩)]

theorem finishEntry_eq_javaFile :
    elsewhereMap.mayTouch "a/java.java" = false
      ∧ elsewhereMap.apply (String.ofList javaFile) = .ok (String.ofList javaFile)
      ∧ finishEntry (mappedContext elsewhereMap) "a/java.java" (Text.Utf8.encode javaFile)
        = finishEntryAnyway (mappedContext elsewhereMap) "a/java.java"
          (Text.Utf8.encode javaFile) := by
  have htouch : elsewhereMap.mayTouch "a/java.java" = false := by decide +kernel
  exact ⟨htouch, finishEntry_eq (mappedContext elsewhereMap) elsewhereMap "a/java.java" _ javaFile
    ⟨some "a", [javaType]⟩ javaType rfl (Text.Utf8.decode?_encode javaFile) scan?_javaFile rfl
    isFileOf_javaFile htouch fun _ => by decide +kernel⟩

/-- A map about the type `a`, outside all packages. -/
def packageMap : AccessMap := .ofList [("a", ⟨some .open, [], []⟩)]

theorem apply_javaFile : packageMap.apply (String.ofList javaFile)
    = .ok "package a;\npublic class java \x7b\x7d\n" := by
  have hedits : packageMap.edits javaFile ⟨some "a", [javaType]⟩
      = [⟨11, 11, "public ".toList⟩] := by decide +kernel
  have hscan := scan?_javaFile
  rw [← String.toList_ofList (l := javaFile)] at hscan
  have hresult : AccessMap.Edit.apply ⟨11, 11, "public ".toList⟩ javaFile
      = "package a;\npublic class java \x7b\x7d\n".toList := by decide +kernel
  rw [AccessMap.apply_eq packageMap hscan, String.toList_ofList, AccessMap.applyTo, hedits,
    AccessMap.Edit.applyAll_of_pairwise (List.pairwise_singleton _ _), List.foldr_cons,
    List.foldr_nil, hresult, String.ofList_toList]

/-- Without the proviso the shortcut is wrong: the class `java` of the package `a` is taken for the
file of the type `a`, but its own file is not. -/
theorem not_finishEntry_eq :
    ¬ ∀ (c : Context) (m : AccessMap) (path : String) (content : Bytes) (source : List Char)
      (u : Source.Unit) (t : TypeDeclaration), c.accessMap = some m →
      Text.Utf8.decode? content = some source → Unit.scan? source = some u → u.types = [t] →
      AccessMap.IsFileOf path t.qualifiedName → m.mayTouch path = false →
      m.apply (String.ofList source) = .ok (String.ofList source)
        ∧ finishEntry c path content = finishEntryAnyway c path content := by
  intro h
  have happly := (h (mappedContext packageMap) packageMap "a/java.java" _ javaFile
    ⟨some "a", [javaType]⟩ javaType rfl (Text.Utf8.decode?_encode javaFile) scan?_javaFile rfl
    isFileOf_javaFile (by decide +kernel)).1
  rw [apply_javaFile] at happly
  have hlength := congrArg String.toList (Except.ok.inj happly)
  rw [String.toList_ofList] at hlength
  exact absurd hlength (by decide +kernel)

end Jarwright.Pipeline
