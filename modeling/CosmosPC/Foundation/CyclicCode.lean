import Mathlib.Algebra.Polynomial.BigOperators
import Mathlib.Algebra.Polynomial.Eval.Degree
import Mathlib.RingTheory.Coprime.Lemmas
import Mathlib.Tactic.LinearCombination
import CosmosPC.Foundation.BitStrings

/-! # Cyclic redundancy codes

The code words are the strings that a generator divides. A shift register finds
the remainder bit by bit, and the shape of the generator decides which errors
lead from one code word to another. -/

namespace CosmosPC

open Polynomial

/-! ## Division in a shift register -/

section Division

variable {width : Nat} (low : BitVec width)

/-- The generator with these lower bits. -/
noncomputable def generator : (ZMod 2)[X] := X ^ width + ofRegister low

theorem generator_monic : (generator low).Monic := monic_X_pow_add (degree_ofRegister_lt low)

theorem degree_generator : (generator low).degree = width := by
  rw [generator, degree_add_eq_left_of_degree_lt]
  · exact degree_X_pow width
  · rw [degree_X_pow]
    exact degree_ofRegister_lt low

theorem natDegree_generator : (generator low).natDegree = width :=
  natDegree_eq_of_degree_eq_some (degree_generator low)

/-- A bit enters at the bottom; if a one leaves at the top, the generator is subtracted. -/
def shiftIn (register : BitVec width) (bit : Bool) : BitVec width :=
  if register.msb then register.shiftConcat bit ^^^ low else register.shiftConcat bit

theorem ofRegister_shiftIn (positive : 0 < width) (register : BitVec width) (bit : Bool) :
    ofRegister (shiftIn low register bit) =
      (ofRegister register * X + C (bitValue bit)) %ₘ generator low := by
  have below : (ofRegister (shiftIn low register bit)).degree < (generator low).degree := by
    rw [degree_generator]
    exact degree_ofRegister_lt _
  have divided : ofRegister (shiftIn low register bit) +
      generator low * C (bitValue register.msb) = ofRegister register * X + C (bitValue bit) := by
    rw [ofRegister_shiftConcat register bit positive, shiftIn, generator]
    cases register.msb with
    | false => simp
    | true =>
        have twice := CharTwo.add_self_eq_zero (ofRegister low)
        rw [if_pos rfl, ofRegister_xor, bitValue_true, C_1]
        linear_combination twice
  exact (div_modByMonic_unique _ _ (generator_monic low) ⟨divided, below⟩).2.symm

theorem remainder_mul_add (dividend factor summand : (ZMod 2)[X]) :
    (dividend %ₘ generator low * factor + summand) %ₘ generator low =
      (dividend * factor + summand) %ₘ generator low := by
  apply modByMonic_eq_of_dvd_sub (generator_monic low)
  have same : dividend %ₘ generator low * factor + summand - (dividend * factor + summand) =
      (dividend %ₘ generator low - dividend) * factor := by ring
  rw [same]
  exact (dvd_modByMonic_sub dividend (generator low)).mul_right factor

theorem remainder_of_register (register : BitVec width) :
    ofRegister register %ₘ generator low = ofRegister register := by
  rw [modByMonic_eq_self_iff (generator_monic low), degree_generator]
  exact degree_ofRegister_lt register

/-- What is in the register after a whole string has been shifted in. -/
theorem ofRegister_foldl_shiftIn (positive : 0 < width) (word : List Bool)
    (register : BitVec width) :
    ofRegister (word.foldl (shiftIn low) register) =
      (ofRegister register * X ^ word.length + ofBits word) %ₘ generator low := by
  induction word generalizing register with
  | nil => simp [remainder_of_register]
  | cons bit word induction =>
      rw [List.foldl_cons, induction, ofRegister_shiftIn low positive, remainder_mul_add,
        ofBits_cons, List.length_cons, add_mul, mul_assoc, ← pow_succ', add_assoc]

/-- If a power of `X` leaves remainder one, the register that starts with a one
has come back to it. -/
theorem register_returns (positive : 0 < width) {distance : Nat}
    (divides : generator low ∣ X ^ distance + 1) :
    (List.replicate distance false).foldl (shiftIn low) (BitVec.ofNat width 1) =
      BitVec.ofNat width 1 := by
  apply ofRegister_injective
  have difference : generator low ∣ X ^ distance - ofRegister (BitVec.ofNat width 1) := by
    rwa [ofRegister_one positive, CharTwo.sub_eq_add]
  calc
    ofRegister ((List.replicate distance false).foldl (shiftIn low) (BitVec.ofNat width 1)) =
        X ^ distance %ₘ generator low := by
      rw [ofRegister_foldl_shiftIn low positive, ofRegister_one positive, ofBits_zeros,
        List.length_replicate, one_mul, add_zero]
    _ = ofRegister (BitVec.ofNat width 1) %ₘ generator low :=
      modByMonic_eq_of_dvd_sub (generator_monic low) difference
    _ = ofRegister (BitVec.ofNat width 1) := remainder_of_register low (BitVec.ofNat width 1)

end Division

/-! ## Errors that are found -/

section Errors

variable {divisor : (ZMod 2)[X]} {length : Nat} {places : Finset Nat}

theorem not_dvd_pattern_of_odd (even : divisor.eval 1 = 0) (odd : Odd places.card) :
    ¬divisor ∣ pattern length places := by
  rintro ⟨quotient, divided⟩
  have value := congrArg (eval 1) divided
  rw [eval_mul, even, zero_mul, pattern, eval_finsetSum] at value
  simp only [eval_pow, eval_X, one_pow, Finset.sum_const, nsmul_eq_mul, mul_one] at value
  rw [odd.natCast_zmod_two] at value
  exact one_ne_zero value

theorem dvd_of_dvd_X_pow_mul (coprime : IsCoprime divisor X) {power : Nat} {rest : (ZMod 2)[X]}
    (divides : divisor ∣ X ^ power * rest) : divisor ∣ rest :=
  (IsCoprime.pow_right coprime).dvd_of_dvd_mul_left divides

/-- Two errors are found up to the length at which a power of `X` leaves remainder one. -/
theorem not_dvd_pattern_of_two (coprime : IsCoprime divisor X)
    (order : ∀ distance, 0 < distance → distance < length → ¬divisor ∣ X ^ distance + 1)
    (inside : ∀ place ∈ places, place < length) (two : places.card = 2) :
    ¬divisor ∣ pattern length places := by
  have apart (first second : Nat) (before : first < second) (within : second < length) :
      ¬divisor ∣ pattern length {first, second} := by
    intro divides
    have factored : pattern length {first, second} =
        X ^ (length - 1 - second) * (X ^ (second - first) + 1) := by
      have powers : length - 1 - first = length - 1 - second + (second - first) := by omega
      rw [pattern, Finset.sum_pair before.ne, powers, pow_add]
      ring
    rw [factored] at divides
    exact order (second - first) (by omega) (by omega) (dvd_of_dvd_X_pow_mul coprime divides)
  rcases Finset.card_eq_two.mp two with ⟨left, right, different, both⟩
  subst both
  rcases Nat.lt_or_gt_of_ne different with before | after
  · exact apart left right before (inside right (by simp))
  · rw [Finset.pair_comm]
    exact apart right left after (inside left (by simp))

/-- Errors that all lie within as many places as the divisor has in degree are found. -/
theorem not_dvd_pattern_of_burst (monic : divisor.Monic) (coprime : IsCoprime divisor X)
    (start : Nat) (some : places.Nonempty) (inside : ∀ place ∈ places, place < length)
    (within : ∀ place ∈ places, start ≤ place ∧ place < start + divisor.natDegree) :
    ¬divisor ∣ pattern length places := by
  let last := places.max' some
  have lastInside := inside last (places.max'_mem some)
  have lastWithin := within last (places.max'_mem some)
  have factored : pattern length places =
      X ^ (length - 1 - last) * ∑ place ∈ places, X ^ (last - place) := by
    rw [pattern, Finset.mul_sum]
    apply Finset.sum_congr rfl
    intro place member
    have before := places.le_max' place member
    have powers : length - 1 - place = length - 1 - last + (last - place) := by omega
    rw [powers, pow_add]
  have lowest : (∑ place ∈ places, (X : (ZMod 2)[X]) ^ (last - place)).coeff 0 = 1 := by
    rw [finsetSum_coeff, Finset.sum_eq_single last]
    · simp
    · intro place member different
      have before := places.le_max' place member
      rw [coeff_X_pow, if_neg (by omega)]
    · intro absent
      exact absurd (places.max'_mem some) absent
  have small : (∑ place ∈ places, (X : (ZMod 2)[X]) ^ (last - place)).natDegree <
      divisor.natDegree := by
    have bounded : (∑ place ∈ places, (X : (ZMod 2)[X]) ^ (last - place)).natDegree ≤
        divisor.natDegree - 1 := by
      apply natDegree_sum_le_of_forall_le places
      intro place member
      have low := within place member
      rw [natDegree_X_pow]
      omega
    omega
  intro divides
  rw [factored] at divides
  apply monic.not_dvd_of_natDegree_lt _ small (dvd_of_dvd_X_pow_mul coprime divides)
  intro none
  rw [none, coeff_zero] at lowest
  exact zero_ne_one lowest

end Errors

theorem dvd_ofBits_iff {divisor : (ZMod 2)[X]} {left right : List Bool}
    (same : left.length = right.length) (divides : divisor ∣ ofBits left) :
    divisor ∣ ofBits right ↔ divisor ∣ pattern left.length (differing left right) := by
  rw [← ofBits_add left right same]
  exact (dvd_add_right divides).symm

end CosmosPC
