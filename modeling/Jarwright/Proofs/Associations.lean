import Mathlib.Tactic.Common

/-!
# Lists of keys and values

Disks and tables are kept as lists of keys and values, in which the first value of a key is found.

* `lookup_filter`: what is found when some keys are left out;
* `lookup_put`, `keys_put`: what is found, and under which keys, when a value takes the place of the
  one of its key, or comes last if there is none.
-/

namespace Jarwright.Associations

variable {κ ν : Type} [BEq κ] [LawfulBEq κ] [DecidableEq κ]

theorem lookup_filter (kept : κ → Bool) (entries : List (κ × ν)) (key : κ) :
    (entries.filter fun e => kept e.1).lookup key
      = if kept key then entries.lookup key else none := by
  induction entries with
  | nil => simp
  | cons e entries ih => grind

theorem lookup_map_put (entries : List (κ × ν)) (e : κ × ν) (key : κ) :
    (entries.map fun e' => if e'.1 == e.1 then e else e').lookup key
      = if key = e.1 then (if entries.any (·.1 == e.1) then some e.2 else none)
        else entries.lookup key := by
  induction entries with
  | nil => simp
  | cons e' entries ih => grind

theorem lookup_of_not_any {entries : List (κ × ν)} {key : κ}
    (h : entries.any (·.1 == key) ≠ true) : entries.lookup key = none := by
  induction entries with
  | nil => rfl
  | cons e entries ih => grind

/-- What is put into a list is found, and nothing else has changed. -/
theorem lookup_put (entries : List (κ × ν)) (e : κ × ν) (key : κ) :
    (if entries.any (·.1 == e.1) then entries.map fun e' => if e'.1 == e.1 then e else e'
        else entries ++ [e]).lookup key
      = if key = e.1 then some e.2 else entries.lookup key := by
  split
  · rename_i hany
    rw [lookup_map_put, hany, if_pos rfl]
  · rename_i hany
    rw [List.lookup_append]
    by_cases hkey : key = e.1
    · rw [if_pos hkey, hkey, lookup_of_not_any hany, List.lookup_cons_self]
      rfl
    · have hother : (key == e.1) = false := by simpa using hkey
      rw [if_neg hkey, List.lookup_cons, hother, List.lookup_nil, Option.or_none]

theorem keys_put (entries : List (κ × ν)) (e : κ × ν) :
    (if entries.any (·.1 == e.1) then entries.map fun e' => if e'.1 == e.1 then e else e'
        else entries ++ [e]).map Prod.fst
      = if e.1 ∈ entries.map Prod.fst then entries.map Prod.fst
        else entries.map Prod.fst ++ [e.1] := by
  have hany : entries.any (·.1 == e.1) = true ↔ e.1 ∈ entries.map Prod.fst := by
    rw [List.any_eq_true, List.mem_map]
    simp only [beq_iff_eq]
  by_cases hmem : e.1 ∈ entries.map Prod.fst
  · rw [if_pos (hany.2 hmem), if_pos hmem, List.map_map]
    refine List.map_congr_left fun e' _ => ?_
    by_cases he : e'.1 = e.1
    · simp [he]
    · simp [he]
  · rw [if_neg (mt hany.1 hmem), if_neg hmem, List.map_append, List.map_singleton]

end Jarwright.Associations
