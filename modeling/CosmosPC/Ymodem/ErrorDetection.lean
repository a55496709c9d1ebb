import CosmosPC.Ymodem.FaultyLink
import CosmosPC.Ymodem.Remainder

/-! # What the frame check finds

A payload is sent with its two check bytes. The generator has an even number of
terms and a constant one, and no power of `X` up to the length of a frame leaves
remainder one, so that neither an odd number of errors, nor two, nor a burst of
sixteen leads to another payload with its check bytes. -/

namespace CosmosPC

open Polynomial

def checked (payload : List UInt8) : List UInt8 := payload ++ checkBytes payload

@[simp] theorem length_checked (payload : List UInt8) :
    (checked payload).length = payload.length + 2 := by
  simp [checked]

theorem encodeFrame_checked (start number : UInt8) (payload : List UInt8) :
    encodeFrame start number payload = [start, number, ~~~number] ++ checked payload :=
  List.append_assoc _ _ _

/-! ## The generator -/

theorem eval_generator : (generator crcLowBits).eval 1 = 0 := by
  rw [generator_crcLowBits]
  simp only [eval_add, eval_pow, eval_X, one_pow, eval_one]
  decide

theorem generator_coprime : IsCoprime (generator crcLowBits) X := by
  refine ⟨1, X ^ 15 + X ^ 11 + X ^ 4, ?_⟩
  have twice := CharTwo.add_self_eq_zero ((X : (ZMod 2)[X]) ^ 16 + X ^ 12 + X ^ 5)
  rw [generator_crcLowBits]
  linear_combination twice

def nextRemainder (remainder : Nat) : Nat :=
  if remainder < 0x8000 then 2 * remainder else Nat.xor (2 * remainder % 0x10000) 0x1021

theorem toNat_receiverStep (crc : BitVec 16) :
    (receiverStep crc).toNat = nextRemainder crc.toNat := by
  have top : crc.msb = decide (2 ^ 15 ≤ crc.toNat) := BitVec.msb_eq_decide crc
  have shifted : (crc <<< 1).toNat = 2 * crc.toNat % 0x10000 := by
    rw [BitVec.toNat_shiftLeft, Nat.shiftLeft_eq]
    omega
  rw [receiverStep, top, nextRemainder]
  by_cases small : crc.toNat < 0x8000
  · have under : ¬2 ^ 15 ≤ crc.toNat := by omega
    rw [decide_eq_false under, if_neg Bool.false_ne_true, if_pos small, shifted]
    omega
  · have reached : 2 ^ 15 ≤ crc.toNat := by omega
    rw [decide_eq_true reached, if_pos rfl, if_neg small, BitVec.toNat_xor, shifted]
    rfl

theorem toNat_iterate_receiverStep (count : Nat) (crc : BitVec 16) :
    (receiverStep^[count] crc).toNat = nextRemainder^[count] crc.toNat := by
  have commutes : Function.Semiconj BitVec.toNat receiverStep nextRemainder := toNat_receiverStep
  exact commutes.iterate_right count crc

/-- The remainder `2 ^ depth` steps later, unless one of them comes to one. -/
def remainderAfter : (depth remainder : Nat) → Option Nat
  | 0, remainder =>
      if nextRemainder remainder = 1 then none else some (nextRemainder remainder)
  | depth + 1, remainder => (remainderAfter depth remainder).bind (remainderAfter depth)

theorem remainderAfter_some (depth : Nat) {remainder last : Nat}
    (passed : remainderAfter depth remainder = some last) :
    last = nextRemainder^[2 ^ depth] remainder ∧
      ∀ count, 0 < count → count ≤ 2 ^ depth → nextRemainder^[count] remainder ≠ 1 := by
  induction depth generalizing remainder last with
  | zero =>
      rw [remainderAfter] at passed
      split at passed
      · cases passed
      · rename_i other
        refine ⟨(Option.some.inj passed).symm, fun count positive within => ?_⟩
        have once : count = 1 := by omega
        subst once
        exact other
  | succ depth induction =>
      rcases Option.bind_eq_some_iff.mp passed with ⟨middle, firstHalf, secondHalf⟩
      rcases induction firstHalf with ⟨half, firstPasses⟩
      rcases induction secondHalf with ⟨whole, secondPasses⟩
      rw [Nat.pow_succ, Nat.mul_two]
      refine ⟨by rw [whole, half, Function.iterate_add_apply], fun count positive within => ?_⟩
      by_cases early : count ≤ 2 ^ depth
      · exact firstPasses count positive early
      · have split : count = count - 2 ^ depth + 2 ^ depth := by omega
        rw [split, Function.iterate_add_apply, ← half]
        exact secondPasses (count - 2 ^ depth) (by omega) (by omega)

theorem remainders_pass : ((remainderAfter 13 1).bind (remainderAfter 4)).isSome = true := by
  decide +kernel

theorem nextRemainder_ne_one (count : Nat) (positive : 0 < count) (within : count ≤ 8208) :
    nextRemainder^[count] 1 ≠ 1 := by
  rcases Option.isSome_iff_exists.mp remainders_pass with ⟨last, passed⟩
  rcases Option.bind_eq_some_iff.mp passed with ⟨middle, most, few⟩
  rcases remainderAfter_some 13 most with ⟨reached, mostPass⟩
  rcases remainderAfter_some 4 few with ⟨_, fewPass⟩
  by_cases early : count ≤ 2 ^ 13
  · exact mostPass count positive early
  · have split : count = count - 2 ^ 13 + 2 ^ 13 := by omega
    rw [split, Function.iterate_add_apply, ← reached]
    exact fewPass (count - 2 ^ 13) (by omega) (by omega)

/-- No power of `X` within a frame leaves remainder one. -/
theorem generator_order (distance : Nat) (positive : 0 < distance) (within : distance ≤ 8208) :
    ¬generator crcLowBits ∣ X ^ distance + 1 := by
  intro divides
  have returns := register_returns crcLowBits (by decide) divides
  rw [← iterate_receiverStep] at returns
  apply nextRemainder_ne_one distance positive within
  have number := congrArg BitVec.toNat returns
  rwa [toNat_iterate_receiverStep] at number

/-! ## Errors in a checked payload -/

/-- An odd number of errors, two, or a burst within sixteen bits. -/
def Detectable (places : Finset Nat) : Prop :=
  Odd places.card ∨ places.card = 2 ∨
    places.Nonempty ∧ ∃ start, ∀ place ∈ places, start ≤ place ∧ place < start + 16

theorem not_dvd_of_detectable {length : Nat} {places : Finset Nat} (short : length ≤ 8208)
    (inside : ∀ place ∈ places, place < length) (detectable : Detectable places) :
    ¬generator crcLowBits ∣ pattern length places := by
  rcases detectable with odd | two | ⟨some, start, within⟩
  · exact not_dvd_pattern_of_odd eval_generator odd
  · apply not_dvd_pattern_of_two generator_coprime _ inside two
    intro distance positive below
    exact generator_order distance positive (by omega)
  · apply not_dvd_pattern_of_burst (generator_monic crcLowBits) generator_coprime start some inside
    rw [natDegree_generator]
    exact within

theorem dvd_of_check {received : List UInt8} (size : Nat)
    (passes : received.drop size = checkBytes (received.take size)) :
    generator crcLowBits ∣ ofBits (messageBits received) := by
  have divides := generator_dvd_checked (received.take size)
  rwa [← passes, List.take_append_drop] at divides

variable {payload received : List UInt8}

theorem check_fails (short : payload.length ≤ packet1kSize)
    (same : received.length = (checked payload).length)
    (errors : Detectable (differing (messageBits (checked payload)) (messageBits received)))
    (size : Nat) : received.drop size ≠ checkBytes (received.take size) := by
  intro passes
  have lengths : (messageBits (checked payload)).length = (messageBits received).length := by
    rw [length_messageBits, length_messageBits, same]
  have bounded : (messageBits (checked payload)).length ≤ 8208 := by
    rw [length_messageBits, length_checked]
    unfold packet1kSize at short
    omega
  have both := (dvd_ofBits_iff lengths (generator_dvd_checked payload)).mp
    (dvd_of_check size passes)
  apply not_dvd_of_detectable bounded _ errors both
  intro place
  exact lt_of_mem_differing

theorem damaged_not_wellFormed (short : payload.length ≤ packet1kSize)
    (same : received.length = (checked payload).length)
    (errors : Detectable (differing (messageBits (checked payload)) (messageBits received)))
    (header : List UInt8) (three : header.length = packetHeader) (start number : UInt8)
    (size : Nat) : ¬Receiver.WellFormed start size number (header ++ received) := by
  rintro ⟨_, frame⟩
  generalize framePayload (header ++ received) = taken at frame
  rw [encodeFrame_checked] at frame
  have behind : received = checked taken := (List.append_inj frame three).2
  apply check_fails short same errors taken.length
  rw [behind, checked, List.drop_left, List.take_left]

/-- Of a checked payload in which the errors are detectable, the last two bytes
are not the check bytes of the others. -/
theorem frame_check_detects (payload received : List UInt8)
    (sized : payload.length = packetSize ∨ payload.length = packet1kSize)
    (same : received.length = (checked payload).length)
    (errors : Detectable (differing (messageBits (checked payload)) (messageBits received))) :
    received.drop payload.length ≠ checkBytes (received.take payload.length) := by
  have short : payload.length ≤ packet1kSize := by
    rcases sized with small | whole
    · rw [small]
      decide
    · exact Nat.le_of_eq whole
  exact check_fails short same errors payload.length

def zeroPayload : List UInt8 := 0 :: List.replicate 127 0

def damagedZeros : List UInt8 := 0x80 :: (List.replicate 127 0 ++ checkBytes zeroPayload)

theorem frame_check_detects_first_bit :
    damagedZeros.drop zeroPayload.length ≠
      checkBytes (damagedZeros.take zeroPayload.length) := by
  let rest := messageBits (List.replicate 127 0 ++ checkBytes zeroPayload)
  have sent : messageBits (checked zeroPayload) = bits (0#8) ++ rest := rfl
  have damaged : messageBits damagedZeros = bits (0x80#8) ++ rest := rfl
  have burst : Detectable (differing (messageBits (checked zeroPayload))
      (messageBits damagedZeros)) := by
    rw [sent, damaged]
    refine Or.inr (Or.inr ⟨⟨0, ?_⟩, 0, fun place member => ⟨Nat.zero_le place, ?_⟩⟩)
    · have first : (bits (0#8) ++ rest)[0]? ≠ (bits (0x80#8) ++ rest)[0]? := by
        rw [List.getElem?_append_left (by decide), List.getElem?_append_left (by decide)]
        decide
      exact Finset.mem_filter.mpr ⟨Finset.mem_range.mpr (by simp), first⟩
    · apply Nat.lt_of_not_le
      intro behind
      apply (Finset.mem_filter.mp member).2
      have passed : 8 ≤ place := by omega
      rw [List.getElem?_append_right (by rwa [length_bits]),
        List.getElem?_append_right (by rwa [length_bits]), length_bits, length_bits]
  exact frame_check_detects zeroPayload damagedZeros (Or.inl rfl) rfl burst

end CosmosPC
