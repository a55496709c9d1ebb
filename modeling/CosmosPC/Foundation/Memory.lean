/-! # C arrays behind a pointer

A byte array as the functions that are handed its address see it: a value for
every index, in or out of the declared bounds. Every store is remembered, so
that a development can speak of the bytes that an array holds as well as of
the indexes a function has touched. -/

namespace CosmosPC

structure Memory where
  cell : Nat → UInt8
  /-- The indexes written so far, oldest first. -/
  stores : List Nat := []

namespace Memory

def zeroed : Memory where
  cell _ := 0

/-- `m[index] = value;` -/
def store (memory : Memory) (index : Nat) (value : UInt8) : Memory where
  cell other := if other = index then value else memory.cell other
  stores := memory.stores ++ [index]

/-- `for (k = 0; k < count; k++) m[start + k] = value(k);` -/
def fill (memory : Memory) (start : Nat) : Nat → (Nat → UInt8) → Memory
  | 0, _ => memory
  | count + 1, value => (memory.fill start count value).store (start + count) (value count)

def bytes (memory : Memory) (start count : Nat) : List UInt8 :=
  (List.range count).map fun offset => memory.cell (start + offset)

@[simp] theorem store_cell (memory : Memory) (index : Nat) (value : UInt8) (other : Nat) :
    (memory.store index value).cell other =
      if other = index then value else memory.cell other := rfl

@[simp] theorem fill_cell (memory : Memory) (start count : Nat) (value : Nat → UInt8)
    (other : Nat) :
    (memory.fill start count value).cell other =
      if start ≤ other ∧ other < start + count then value (other - start)
      else memory.cell other := by
  induction count with
  | zero =>
      have outside : ¬(start ≤ other ∧ other < start + 0) := by omega
      rw [if_neg outside, fill]
  | succ count induction =>
      rw [fill, store_cell, induction]
      by_cases last : other = start + count
      · subst last
        simp
      · have same : (start ≤ other ∧ other < start + (count + 1)) ↔
            (start ≤ other ∧ other < start + count) := by omega
        simp [last, same]

@[simp] theorem length_bytes (memory : Memory) (start count : Nat) :
    (memory.bytes start count).length = count := by
  simp [bytes]

@[simp] theorem getElem_bytes (memory : Memory) (start count index : Nat)
    (inside : index < (memory.bytes start count).length) :
    (memory.bytes start count)[index] = memory.cell (start + index) := by
  simp [bytes]

theorem bytes_congr {left right : Memory} {start count : Nat}
    (agree : ∀ index, start ≤ index → index < start + count →
      left.cell index = right.cell index) :
    left.bytes start count = right.bytes start count := by
  apply List.map_congr_left
  intro offset member
  have bound := List.mem_range.mp member
  exact agree (start + offset) (by omega) (by omega)

theorem bytes_add (memory : Memory) (start left right : Nat) :
    memory.bytes start (left + right) =
      memory.bytes start left ++ memory.bytes (start + left) right := by
  simp [bytes, List.range_add, Nat.add_assoc]

theorem bytes_store_of_outside (memory : Memory) (index : Nat) (value : UInt8)
    (start count : Nat) (outside : index < start ∨ start + count ≤ index) :
    (memory.store index value).bytes start count = memory.bytes start count := by
  apply bytes_congr
  intro other lower upper
  have different : other ≠ index := by omega
  simp [different]

theorem drop_bytes (memory : Memory) (start count dropped : Nat) (fits : dropped ≤ count) :
    (memory.bytes start count).drop dropped =
      memory.bytes (start + dropped) (count - dropped) := by
  obtain ⟨rest, rfl⟩ := Nat.exists_eq_add_of_le fits
  rw [bytes_add, List.drop_left' (length_bytes memory start dropped)]
  simp

theorem take_bytes (memory : Memory) (start count taken : Nat) (fits : taken ≤ count) :
    (memory.bytes start count).take taken = memory.bytes start taken := by
  obtain ⟨rest, rfl⟩ := Nat.exists_eq_add_of_le fits
  rw [bytes_add, List.take_left' (length_bytes memory start taken)]

theorem bytes_fill_piece (memory : Memory) (count : Nat) (piece : List UInt8) :
    (memory.fill count piece.length fun index => piece.getD index 0).bytes 0
      (count + piece.length) = memory.bytes 0 count ++ piece := by
  have earlier : (memory.fill count piece.length fun index => piece.getD index 0).bytes 0 count =
      memory.bytes 0 count := by
    apply bytes_congr
    intro index _ before
    have outside : ¬(count ≤ index ∧ index < count + piece.length) := by omega
    rw [fill_cell, if_neg outside]
  have stored : (memory.fill count piece.length fun index => piece.getD index 0).bytes count
      piece.length = piece := by
    apply List.ext_getElem
    · rw [length_bytes]
    · intro index _ inside
      have among : count ≤ count + index ∧ count + index < count + piece.length := by omega
      rw [getElem_bytes, fill_cell, if_pos among, Nat.add_sub_cancel_left,
        List.getD_eq_getElem?_getD, List.getElem?_eq_getElem inside, Option.getD_some]
  rw [bytes_add, Nat.zero_add, earlier, stored]

/-! ## Where stores go -/

/-- The later memory comes from the earlier one by stores below `bound`. -/
def WrittenBelow (bound : Nat) (earlier later : Memory) : Prop :=
  ∃ added, later.stores = earlier.stores ++ added ∧ ∀ index ∈ added, index < bound

theorem WrittenBelow.refl (bound : Nat) (memory : Memory) : WrittenBelow bound memory memory :=
  ⟨[], by simp, by simp⟩

variable {bound : Nat} {first second third : Memory}

theorem WrittenBelow.trans (earlier : WrittenBelow bound first second)
    (later : WrittenBelow bound second third) : WrittenBelow bound first third := by
  rcases earlier with ⟨added, stores, below⟩
  rcases later with ⟨more, moreStores, moreBelow⟩
  refine ⟨added ++ more, by rw [moreStores, stores, List.append_assoc], fun index member => ?_⟩
  exact (List.mem_append.mp member).elim (below index) (moreBelow index)

theorem WrittenBelow.store (earlier : WrittenBelow bound first second) (index : Nat)
    (value : UInt8) (below : index < bound) :
    WrittenBelow bound first (second.store index value) :=
  earlier.trans ⟨[index], rfl, by simp [below]⟩

theorem WrittenBelow.fill (earlier : WrittenBelow bound first second) {start count : Nat}
    (value : Nat → UInt8) (below : count = 0 ∨ start + count ≤ bound) :
    WrittenBelow bound first (second.fill start count value) := by
  induction count with
  | zero => exact earlier
  | succ count induction => exact (induction (by omega)).store _ _ (by omega)

theorem WrittenBelow.mem (written : WrittenBelow bound first second) {index : Nat}
    (member : index ∈ first.stores) : index ∈ second.stores := by
  rcases written with ⟨added, stores, _⟩
  rw [stores]
  exact List.mem_append_left added member

theorem WrittenBelow.of_fresh {cell : Nat → UInt8} {memory : Memory}
    (written : WrittenBelow bound ⟨cell, []⟩ memory) : ∀ index ∈ memory.stores, index < bound := by
  rcases written with ⟨added, stores, below⟩
  rwa [stores]

end Memory

end CosmosPC
