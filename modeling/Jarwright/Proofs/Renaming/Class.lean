import Jarwright.Proofs.ClassFile.Codec
import Jarwright.Proofs.Renaming.Payloads
import Jarwright.Proofs.Renaming.Slots

/-!
# Renaming a whole class

`ClassRenamed ctx c c'` puts the relations of the pool, of the declared members and of the
attributes together, between two class files. `rename_spec` is the main result: a renaming that
succeeds reads a class file, and the bytes it answers are read again as a class file that is related
to it. Everything else about a renaming follows from this relation alone.
-/

namespace Jarwright.Renaming

open ClassFile ConstantPool
open Reader (Counted)

namespace Context

/-- A declared member before and after. -/
structure MemberRenamed (ctx : Context) (final : ConstantPool) (kind : MemberKind)
    (m m' : Member) : Prop where
  flags : m'.flags = m.flags
  named : ctx.DeclarationRenamed final kind m.name m.descriptor m'.name m'.descriptor
  attributes : ctx.AttributesRenamed final [] (ctx.MemberPayloadRenamed final kind) m.attributes
    m'.attributes

/-- A class file before and after, by its pools. -/
structure ClassRenamed (ctx : Context) (c c' : ClassFile) : Prop where
  minor : c'.minor = c.minor
  major : c'.major = c.major
  flags : c'.flags = c.flags
  thisClass : c'.thisClass = c.thisClass
  superClass : c'.superClass = c.superClass
  interfaces : c'.interfaces = c.interfaces
  pool : ctx.PoolRenamed c'.pool
  fields : List.Forall₂ (ctx.MemberRenamed c'.pool .field) c.fields c'.fields
  methods : List.Forall₂ (ctx.MemberRenamed c'.pool .method) c.methods c'.methods
  attributes : ctx.AttributesRenamed c'.pool strippedFromClass (ctx.ClassPayloadRenamed c'.pool)
    c.attributes c'.attributes

variable {ctx : Context} {final : ConstantPool}

/-! ## Members -/

theorem MemberRenamed.fits {kind : MemberKind} {m m' : Member}
    (h : ctx.MemberRenamed final kind m m') (hm : m.Fits) : m'.Fits :=
  h.attributes.counted MemberPayloadRenamed.length_le hm

section Edits

variable (hkeep : ctx.oldPool.KeepsNames final)

include hkeep

theorem yields_renameMember (kind : MemberKind) (m : Member) :
    Yields final (ctx.renameMember kind m) (ctx.MemberRenamed final kind m) := by
  refine ((Yields.lookUp (ctx.oldPool.utf8 m.name)).bind fun name =>
    (Yields.lookUp (ctx.oldPool.utf8 m.descriptor)).bind fun descriptor =>
    (Yields.lookUp (ctx.resolver.descriptor descriptor)).bind fun newDescriptor =>
    (yields_exchangeText hkeep m.name _).bind fun n' =>
    (yields_exchangeText hkeep m.descriptor newDescriptor).bind fun d' =>
    (yields_editPayloads hkeep [] (yields_memberPayload hkeep kind) m.attributes).bind fun as' =>
    Yields.pure (Member.mk m.flags n' d' as')).mono ?_
  rintro _ ⟨name, hname, descriptor, hdescriptor, newDescriptor, hnew, n', ⟨_, hn⟩, d', ⟨_, hd⟩,
    as', has, rfl⟩
  exact ⟨rfl, ⟨name, descriptor, newDescriptor, hnew, hn.of_eq hname, hd.of_eq hdescriptor⟩, has⟩

theorem yields_renameMembers (kind : MemberKind) (ms : List Member) :
    Yields final (ctx.renameMembers kind ms)
      (List.Forall₂ (ctx.MemberRenamed final kind) ms) := by
  induction ms with
  | nil =>
    refine (Yields.pure []).mono ?_
    rintro _ rfl
    exact .nil
  | cons m ms ih =>
    refine ((yields_renameMember hkeep kind m).bind fun m' => ih.bind fun ms' =>
      Yields.pure (m' :: ms')).mono ?_
    rintro _ ⟨m', hm, ms', hms, rfl⟩
    exact .cons hm hms

end Edits

/-! ## The class -/

/-- An edit of a class leaves a class file that is related to the old one, whatever further names
the pool that is written in the end may have. -/
theorem classRenamed_of_editClass {c : ClassFile} {edited : Edited} {pool : ConstantPool}
    (hold : ctx.oldPool = c.pool) (hwf : c.pool.WellFormed)
    (h : ctx.editClass c c.pool = .ok edited pool) :
    pool.WellFormed ∧ ∀ {final : ConstantPool}, pool.Extends final →
      ctx.ClassRenamed c { c with
        pool := final, fields := edited.fields, methods := edited.methods,
        attributes := edited.attributes } := by
  obtain ⟨_, mid, hconstants, h⟩ := bind_eq_ok.1 h
  rw [← hold] at hwf hconstants
  obtain ⟨hmid, hkeep, hpool⟩ := poolRenamed_of_renameConstants hwf hconstants
  -- what the rest of the edit yields, for any last pool that keeps the old names
  have hrest {final : ConstantPool} (hkeep : ctx.oldPool.KeepsNames final) :=
    (yields_renameMembers hkeep .field c.fields).bind fun fields =>
      (yields_renameMembers hkeep .method c.methods).bind fun methods =>
        (yields_editPayloads hkeep strippedFromClass (yields_classPayload hkeep)
          c.attributes).bind fun attributes => Yields.pure (Edited.mk fields methods attributes)
  obtain ⟨hext, -⟩ := hrest hkeep hmid h
  refine ⟨hext.wellFormed, fun {final} hfinal => ?_⟩
  have hkeepFinal := hkeep.trans (hext.trans hfinal).keepsNames
  obtain ⟨-, hpost⟩ := hrest hkeepFinal hmid h
  obtain ⟨fields, hfields, methods, hmethods, attributes, hattributes, rfl⟩ :=
    hpost hfinal.keepsNames
  exact ⟨rfl, rfl, rfl, rfl, rfl, rfl, hpool (hext.trans hfinal), hfields, hmethods, hattributes⟩

/-- A class file that can be written becomes one that can. -/
theorem ClassRenamed.fits {c c' : ClassFile} (h : ctx.ClassRenamed c c')
    (hpool : c'.pool.WellFormed) (hc : c.Fits) : c'.Fits where
  pool := hpool
  interfaces := h.interfaces ▸ hc.interfaces
  fields := counted_of_forall₂ h.fields (fun _ _ h => h.fits) hc.fields
  methods := counted_of_forall₂ h.methods (fun _ _ h => h.fits) hc.methods
  attributes := h.attributes.counted ClassPayloadRenamed.length_le hc.attributes

end Context

/-- The bytes that a renaming answers are read again, as a class file that is related to the one
that was renamed. -/
theorem rename_spec {r : Resolver} {bytes : Bytes} {out : RenamedClass}
    (h : rename r bytes = .ok out) :
    ∃ c c', parse bytes = .ok c ∧ c.name = .ok out.oldName
      ∧ parse out.bytes = .ok c' ∧ c'.name = .ok out.name
      ∧ (⟨r, c.pool, out.oldName⟩ : Context).ClassRenamed c c' := by
  simp only [rename, except_bind_eq_ok, except_pure_eq_ok] at h
  obtain ⟨c, hparse, oldName, holdName, renamed, hrenamed, name, hname, rfl⟩ := h
  obtain ⟨hfits, -⟩ := of_parse hparse
  unfold renameParsed at hrenamed
  split at hrenamed
  · rename_i edited pool hedit
    obtain rfl := Except.ok.inj hrenamed
    obtain ⟨hwf, hall⟩ := Context.classRenamed_of_editClass rfl hfits.pool hedit
    have hfits' := (hall (.refl hwf)).fits hwf hfits
    obtain ⟨final, hparse', hfinal, hplaces⟩ := exists_parse_encode hfits' hname
    refine ⟨c, _, hparse, holdName, hparse', ClassFile.name_of_places hplaces hname, ?_⟩
    exact hall (.of_places_eq hfinal hplaces)
  · cases hrenamed

/-! ## A small class -/

/-- The class `a` with a field `f` of its own type and a method `m`. It mentions both in its pool,
and again as a component of a record and as the method around itself; the method has a body with
line numbers. -/
def sampleClass : Bytes :=
  [0xca, 0xfe, 0xba, 0xbe, 0, 0, 0, 52, 0, 16,
    1, 0, 1, 97, 7, 0, 1, 1, 0, 1, 102, 1, 0, 3, 76, 97, 59, 12, 0, 3, 0, 4, 9, 0, 2, 0, 5,
    1, 0, 1, 109, 1, 0, 3, 40, 41, 86, 12, 0, 7, 0, 8, 10, 0, 2, 0, 9,
    1, 0, 4, 67, 111, 100, 101,
    1, 0, 15, 76, 105, 110, 101, 78, 117, 109, 98, 101, 114, 84, 97, 98, 108, 101,
    1, 0, 10, 83, 111, 117, 114, 99, 101, 70, 105, 108, 101,
    1, 0, 15, 69, 110, 99, 108, 111, 115, 105, 110, 103, 77, 101, 116, 104, 111, 100,
    1, 0, 6, 82, 101, 99, 111, 114, 100,
    0, 32, 0, 2, 0, 0, 0, 0,
    0, 1, 0, 2, 0, 3, 0, 4, 0, 0,
    0, 1, 0, 1, 0, 7, 0, 8, 0, 1,
    0, 11, 0, 0, 0, 21, 0, 0, 0, 0, 0, 0, 0, 1, 177, 0, 0, 0, 1, 0, 12, 0, 0, 0, 2, 0, 0,
    0, 3, 0, 13, 0, 0, 0, 2, 0, 1, 0, 14, 0, 0, 0, 4, 0, 2, 0, 9,
    0, 15, 0, 0, 0, 8, 0, 1, 0, 3, 0, 4, 0, 0]

/-- Calls the class `b`, its field `g` and its method `n`. -/
def sampleResolver : Resolver where
  type name := if name = "a" then "b" else name
  field owner name _ := if owner = "a" ∧ name = "f" then "g" else name
  method owner name _ := if owner = "a" ∧ name = "m" then "n" else name

/-- The class as `sampleResolver` renames it, with six constants more and without debug data. -/
def renamedSample : RenamedClass where
  oldName := "a"
  name := "b"
  bytes :=
    [0xca, 0xfe, 0xba, 0xbe, 0, 0, 0, 52, 0, 22,
      1, 0, 1, 97, 7, 0, 16, 1, 0, 1, 102, 1, 0, 3, 76, 97, 59, 12, 0, 3, 0, 4, 9, 0, 2, 0, 19,
      1, 0, 1, 109, 1, 0, 3, 40, 41, 86, 12, 0, 7, 0, 8, 10, 0, 2, 0, 21,
      1, 0, 4, 67, 111, 100, 101,
      1, 0, 15, 76, 105, 110, 101, 78, 117, 109, 98, 101, 114, 84, 97, 98, 108, 101,
      1, 0, 10, 83, 111, 117, 114, 99, 101, 70, 105, 108, 101,
      1, 0, 15, 69, 110, 99, 108, 111, 115, 105, 110, 103, 77, 101, 116, 104, 111, 100,
      1, 0, 6, 82, 101, 99, 111, 114, 100,
      1, 0, 1, 98, 1, 0, 1, 103, 1, 0, 3, 76, 98, 59, 12, 0, 17, 0, 18, 1, 0, 1, 110,
      12, 0, 20, 0, 8,
      0, 32, 0, 2, 0, 0, 0, 0,
      0, 1, 0, 2, 0, 17, 0, 18, 0, 0,
      0, 1, 0, 1, 0, 20, 0, 8, 0, 1,
      0, 11, 0, 0, 0, 13, 0, 0, 0, 0, 0, 0, 0, 1, 177, 0, 0, 0, 0,
      0, 2, 0, 14, 0, 0, 0, 4, 0, 2, 0, 21,
      0, 15, 0, 0, 0, 8, 0, 1, 0, 17, 0, 18, 0, 0]

set_option maxRecDepth 10000 in
theorem rename_sampleClass : rename sampleResolver sampleClass = .ok renamedSample := by
  decide +kernel

end Jarwright.Renaming
