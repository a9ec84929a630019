import Jarwright.ClassFile.Descriptor

/-!
# Descriptors under the identity

A scan takes a text apart without losing a character: put together again with every name left as it
is, spans and tail give the text back. So the renaming that renames nothing returns every descriptor
that it accepts.
-/

namespace Jarwright.ClassFile

namespace Descriptor

/-- Spans and tail of a scan, put together with their own names, are the text that was scanned. The
scan of a text and the scan of a name call each other, so both are shown at once. -/
theorem render_scan (cs : List Char) :
    (∀ text tail, (scanText text cs).tail = some tail →
      render id (scanText text cs).spans tail = text.reverse ++ cs)
    ∧ ∀ text name tail, (scanName text name cs).tail = some tail →
      render id (scanName text name cs).spans tail = text ++ name.reverse ++ cs := by
  induction cs with
  | nil =>
    refine ⟨fun text tail h => ?_, fun text name tail h => ?_⟩
    · obtain rfl : text.reverse = tail := by simpa [scanText] using h
      simp [scanText, render]
    · simp [scanName] at h
  | cons c cs ih =>
    obtain ⟨ihText, ihName⟩ := ih
    refine ⟨fun text tail h => ?_, fun text name tail h => ?_⟩
    · rw [scanText] at h ⊢
      split at h
      · rename_i hc
        rw [if_pos hc, ihName _ _ _ h, hc]
        simp
      · rename_i hc
        rw [if_neg hc, ihText _ _ h]
        simp
    · rw [scanName] at h ⊢
      split at h
      · rename_i hc
        have hrest := ihText [';'] tail h
        rw [if_pos hc, hc]
        simp only [render, Scan.cons, List.flatMap_cons, id_eq, String.toList_ofList,
          List.append_assoc] at hrest ⊢
        rw [hrest]
        simp
      · rename_i hc
        rw [if_neg hc, ihName _ _ _ h]
        simp

/-- Renaming nothing returns a descriptor that is accepted. -/
theorem eq_of_map_id {d d' : String} (h : map id d = .ok d') : d' = d := by
  unfold map at h
  dsimp only at h
  split at h
  · rename_i tail htail
    obtain rfl := Except.ok.inj h
    rw [scan, (render_scan d.toList).1 [] tail htail]
    simp
  · cases h

end Descriptor

/-- Renaming nothing returns the name of a class constant that is accepted. -/
theorem ClassName.eq_of_map_id {n n' : String} (h : ClassName.map id n = .ok n') : n' = n := by
  unfold ClassName.map at h
  split at h
  · exact Descriptor.eq_of_map_id h
  · exact (Except.ok.inj h).symm

end Jarwright.ClassFile
