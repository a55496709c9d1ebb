import Mathlib.Algebra.CharP.Two
import Mathlib.Algebra.Field.ZMod
import Mathlib.Algebra.Polynomial.Div

/-! # Bit strings as polynomials

A string of bits stands for a polynomial over the numbers modulo two, its first
bit for the highest power. Bitwise exclusive or is addition. -/

namespace CosmosPC

open Polynomial

def bitValue (bit : Bool) : ZMod 2 := if bit then 1 else 0

@[simp] theorem bitValue_false : bitValue false = 0 := rfl

@[simp] theorem bitValue_true : bitValue true = 1 := rfl

theorem bitValue_xor (left right : Bool) :
    bitValue (left ^^ right) = bitValue left + bitValue right := by
  cases left <;> cases right <;> decide

theorem bitValue_injective : Function.Injective bitValue := by
  decide

/-- The first bit has the highest power. -/
noncomputable def ofBits : List Bool → (ZMod 2)[X]
  | [] => 0
  | bit :: bits => C (bitValue bit) * X ^ bits.length + ofBits bits

@[simp] theorem ofBits_nil : ofBits [] = 0 := rfl

theorem ofBits_cons (bit : Bool) (bits : List Bool) :
    ofBits (bit :: bits) = C (bitValue bit) * X ^ bits.length + ofBits bits := rfl

theorem ofBits_append (first second : List Bool) :
    ofBits (first ++ second) = ofBits first * X ^ second.length + ofBits second := by
  induction first with
  | nil => simp
  | cons bit first induction =>
      rw [List.cons_append, ofBits_cons, ofBits_cons, induction, List.length_append, pow_add]
      ring

theorem ofBits_zeros (count : Nat) : ofBits (List.replicate count false) = 0 := by
  induction count with
  | zero => rfl
  | succ count induction =>
      rw [List.replicate_succ, ofBits_cons, induction]
      simp

theorem degree_ofBits_lt (bits : List Bool) : (ofBits bits).degree < bits.length := by
  induction bits with
  | nil => simp
  | cons bit bits induction =>
      have longer : ((bits.length : Nat) : WithBot Nat) < (bits.length + 1 : Nat) := by
        exact_mod_cast Nat.lt_succ_self bits.length
      rw [ofBits_cons, List.length_cons]
      apply lt_of_le_of_lt (degree_add_le _ _)
      apply max_lt
      · exact lt_of_le_of_lt (degree_C_mul_X_pow_le _ _) longer
      · exact lt_trans induction longer

theorem ofBits_injective {left right : List Bool} (same : left.length = right.length)
    (equal : ofBits left = ofBits right) : left = right := by
  induction left generalizing right with
  | nil => exact (List.length_eq_zero_iff.mp same.symm).symm
  | cons bit left induction =>
      rcases right with _ | ⟨other, right⟩
      · cases same
      · rw [List.length_cons, List.length_cons, Nat.add_right_cancel_iff] at same
        have top (bit : Bool) {bits : List Bool} (length : bits.length = right.length) :
            (ofBits (bit :: bits)).coeff right.length = bitValue bit := by
          have below := degree_ofBits_lt bits
          rw [length] at below
          rw [ofBits_cons, length, coeff_add, coeff_eq_zero_of_degree_lt below, add_zero,
            coeff_C_mul_X_pow, if_pos rfl]
        have head : bit = other := by
          apply bitValue_injective
          rw [← top bit same, equal, top other rfl]
        subst head
        rw [ofBits_cons, ofBits_cons, same] at equal
        rw [induction same (add_left_cancel equal)]

theorem ofBits_zipWith_xor (left right : List Bool) (same : left.length = right.length) :
    ofBits (List.zipWith xor left right) = ofBits left + ofBits right := by
  induction left generalizing right with
  | nil =>
      rw [List.length_eq_zero_iff.mp same.symm]
      simp
  | cons bit left induction =>
      rcases right with _ | ⟨other, right⟩
      · cases same
      · rw [List.length_cons, List.length_cons, Nat.add_right_cancel_iff] at same
        rw [List.zipWith_cons_cons, ofBits_cons, ofBits_cons, ofBits_cons, induction right same,
          bitValue_xor, List.length_zipWith, same, Nat.min_self, C_add]
        ring

/-! ## Where two strings differ -/

def differing (left right : List Bool) : Finset Nat :=
  (Finset.range left.length).filter fun place => left[place]? ≠ right[place]?

theorem lt_of_mem_differing {left right : List Bool} {place : Nat}
    (member : place ∈ differing left right) : place < left.length :=
  Finset.mem_range.mp (Finset.mem_filter.mp member).1

noncomputable def pattern (length : Nat) (places : Finset Nat) : (ZMod 2)[X] :=
  ∑ place ∈ places, X ^ (length - 1 - place)

theorem pattern_differing_cons (bit other : Bool) (left right : List Bool) :
    pattern (left.length + 1) (differing (bit :: left) (other :: right)) =
      C (bitValue bit + bitValue other) * X ^ left.length +
        pattern left.length (differing left right) := by
  unfold pattern differing
  rw [Finset.sum_filter, Finset.sum_filter, List.length_cons, Finset.sum_range_succ', add_comm]
  congr 1
  · cases bit <;> cases other <;> simp [CharTwo.add_self_eq_zero]
  · apply Finset.sum_congr rfl
    intro place _
    have shifted : left.length + 1 - 1 - (place + 1) = left.length - 1 - place := by omega
    rw [List.getElem?_cons_succ, List.getElem?_cons_succ, shifted]

theorem ofBits_add (left right : List Bool) (same : left.length = right.length) :
    ofBits left + ofBits right = pattern left.length (differing left right) := by
  induction left generalizing right with
  | nil =>
      rw [List.length_eq_zero_iff.mp same.symm]
      simp [pattern, differing]
  | cons bit left induction =>
      rcases right with _ | ⟨other, right⟩
      · cases same
      · rw [List.length_cons, List.length_cons, Nat.add_right_cancel_iff] at same
        rw [ofBits_cons, ofBits_cons, List.length_cons, pattern_differing_cons,
          ← induction right same, ← same, C_add]
        ring

/-! ## Registers -/

section Registers

variable {width lowWidth : Nat}

def bits (register : BitVec width) : List Bool := (List.range width).map register.getMsbD

noncomputable def ofRegister (register : BitVec width) : (ZMod 2)[X] := ofBits (bits register)

@[simp] theorem length_bits (register : BitVec width) : (bits register).length = width := by
  simp [bits]

theorem degree_ofRegister_lt (register : BitVec width) : (ofRegister register).degree < width := by
  have below := degree_ofBits_lt (bits register)
  rwa [length_bits] at below

theorem ofRegister_injective : Function.Injective (@ofRegister width) := by
  intro left right equal
  have same := ofBits_injective (by simp) equal
  apply BitVec.eq_of_getMsbD_eq
  intro place inside
  have bit := congrArg (fun bits => bits[place]?) same
  simpa [bits, inside] using bit

theorem getElem?_bits (register : BitVec width) (place : Nat) :
    (bits register)[place]? = if place < width then some (register.getMsbD place) else none := by
  by_cases inside : place < width <;> simp [bits, inside]

theorem ofRegister_zero : ofRegister (BitVec.ofNat width 0) = 0 := by
  have zeros : bits (BitVec.ofNat width 0) = List.replicate width false := by
    apply List.ext_getElem?
    intro place
    rw [getElem?_bits, List.getElem?_replicate, BitVec.getMsbD_zero]
  rw [ofRegister, zeros, ofBits_zeros]

theorem ofRegister_one (positive : 0 < width) : ofRegister (BitVec.ofNat width 1) = 1 := by
  have ones : bits (BitVec.ofNat width 1) = List.replicate (width - 1) false ++ [true] := by
    apply List.ext_getElem?
    intro place
    rw [getElem?_bits, BitVec.getMsbD_eq_getLsbD, BitVec.getLsbD_one, List.getElem?_append,
      List.length_replicate, List.getElem?_replicate]
    by_cases before : place < width - 1
    · have inside : place < width := by omega
      have above : width - 1 - place ≠ 0 := by omega
      simp [before, inside, above]
    · by_cases last : place = width - 1
      · subst last
        simp [positive]
      · have outside : ¬place < width := by omega
        have beyond : place - (width - 1) ≠ 0 := by omega
        simp [before, outside, beyond]
  rw [ofRegister, ones, ofBits_append, ofBits_zeros, ofBits_cons]
  simp

theorem bits_append (high : BitVec width) (low : BitVec lowWidth) :
    bits (high ++ low) = bits high ++ bits low := by
  apply List.ext_getElem?
  intro place
  rw [List.getElem?_append, length_bits, getElem?_bits, getElem?_bits, getElem?_bits,
    BitVec.getMsbD_append]
  by_cases above : place < width
  · have inside : place < width + lowWidth := by omega
    simp [above, inside]
  · have same : place < width + lowWidth ↔ place - width < lowWidth := by omega
    simp [above, Nat.le_of_not_lt above, same]

theorem bits_xor (left right : BitVec width) :
    bits (left ^^^ right) = List.zipWith xor (bits left) (bits right) := by
  apply List.ext_getElem?
  intro place
  rw [List.getElem?_zipWith, getElem?_bits, getElem?_bits, getElem?_bits]
  by_cases inside : place < width <;> simp [inside]

theorem ofRegister_xor (left right : BitVec width) :
    ofRegister (left ^^^ right) = ofRegister left + ofRegister right := by
  rw [ofRegister, bits_xor, ofBits_zipWith_xor _ _ (by simp)]
  rfl

theorem bits_shiftConcat (register : BitVec width) (bit : Bool) (positive : 0 < width) :
    bits register ++ [bit] = register.msb :: bits (register.shiftConcat bit) := by
  apply List.ext_getElem?
  intro place
  rw [List.getElem?_append, length_bits, getElem?_bits]
  rcases place with _ | place
  · simp [positive, BitVec.msb_eq_getMsbD_zero]
  · rw [List.getElem?_cons_succ, getElem?_bits, BitVec.getMsbD_eq_getLsbD,
      BitVec.getMsbD_eq_getLsbD, BitVec.getLsbD_shiftConcat]
    by_cases inside : place + 1 < width
    · have below : width - 1 - (place + 1) = width - 1 - place - 1 := by omega
      have above : width - 1 - place ≠ 0 := by omega
      have within : width - 1 - place < width := by omega
      simp [inside, below, above, within, Nat.lt_of_succ_lt inside]
    · by_cases last : place + 1 = width
      · subst last
        simp
      · have outside : ¬place < width := by omega
        have beyond : place + 1 - width ≠ 0 := by omega
        simp [inside, outside, beyond]

theorem ofRegister_shiftConcat (register : BitVec width) (bit : Bool) (positive : 0 < width) :
    ofRegister register * X + C (bitValue bit) =
      C (bitValue register.msb) * X ^ width + ofRegister (register.shiftConcat bit) := by
  have pushed := congrArg ofBits (bits_shiftConcat register bit positive)
  rw [ofBits_append, ofBits_cons bit, ofBits_cons register.msb, length_bits] at pushed
  simpa [ofRegister] using pushed

end Registers

end CosmosPC
