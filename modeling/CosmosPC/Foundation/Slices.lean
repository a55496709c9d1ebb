/-! # Cutting a list into slices

A list is cut at the places `start 0 ≤ start 1 ≤ ...`; slice `n` reaches from
`start n` to `start (n + 1)`. -/

namespace CosmosPC.Slices

def slice (values : List α) (start : Nat → Nat) (index : Nat) : List α :=
  (values.drop (start index)).take (start (index + 1) - start index)

theorem flatten_slices (values : List α) (start : Nat → Nat) (zero : start 0 = 0)
    (grows : ∀ index, start index ≤ start (index + 1)) (count : Nat) :
    ((List.range count).map (slice values start)).flatten = values.take (start count) := by
  induction count with
  | zero => simp [zero]
  | succ count induction =>
      rw [List.range_succ, List.map_append, List.flatten_append, induction]
      have reach : start (count + 1) = start count + (start (count + 1) - start count) := by
        have step := grows count
        omega
      rw [reach, List.take_add]
      simp [slice]

theorem length_slice (values : List α) (start : Nat → Nat) (index : Nat)
    (within : start (index + 1) ≤ values.length) :
    (slice values start index).length = start (index + 1) - start index := by
  simp only [slice, List.length_take, List.length_drop]
  omega

theorem drop_map_range (value : Nat → α) (count dropped : Nat) :
    ((List.range count).map value).drop dropped =
      (List.range (count - dropped)).map fun index => value (dropped + index) := by
  apply List.ext_getElem
  · simp
  · intro index _ _
    simp

end CosmosPC.Slices
