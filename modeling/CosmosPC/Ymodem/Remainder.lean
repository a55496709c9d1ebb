import CosmosPC.Foundation.CyclicCode
import CosmosPC.Ymodem.Crc

/-! # The frame check as a remainder

`Cal_CRC16` divides the message, with sixteen zeros behind it, by
`X^16 + X^12 + X^5 + 1`. A receiver that feeds its bytes in at the top of the
register, and appends nothing, comes to the same remainder. -/

namespace CosmosPC

open Polynomial

def crcLowBits : BitVec 16 := 0x1021#16

theorem generator_crcLowBits : generator crcLowBits = X ^ 16 + X ^ 12 + X ^ 5 + 1 := by
  have ones : bits crcLowBits = [false, false, false, true, false, false, false, false,
      false, false, true, false, false, false, false, true] := by decide
  rw [generator, ofRegister, ones]
  simp only [ofBits_cons, ofBits_nil, List.length_cons, List.length_nil, bitValue_false,
    bitValue_true, C_0, C_1]
  ring

/-! ## One byte -/

theorem and_place_ne_zero (word : BitVec 32) (place : Nat) (inside : place < 32) :
    word &&& BitVec.twoPow 32 place ≠ 0#32 ↔ word.getLsbD place = true := by
  rw [BitVec.and_twoPow]
  by_cases bit : word.getLsbD place = true
  · have some : BitVec.twoPow 32 place ≠ 0#32 := by
      intro zero
      have one := congrArg (fun word => word.getLsbD place) zero
      simp [inside] at one
    simp [bit, some]
  · simp [bit]

/-- What one round of `UpdateCRC16` makes of the register, bit 16 included. -/
def crcRound (crc : BitVec 32) (bit : Bool) : BitVec 32 :=
  let crc := crc <<< 1
  let crc := if bit then crc + 1 else crc
  if crc &&& 0x10000#32 ≠ 0#32 then crc ^^^ 0x1021#32 else crc

theorem setWidth_crcRound (crc : BitVec 32) (bit : Bool) :
    (crcRound crc bit).setWidth 16 = shiftIn crcLowBits (crc.setWidth 16) bit := by
  have entered : (if bit then crc <<< 1 + 1 else crc <<< 1).setWidth 16 =
      (crc.setWidth 16).shiftConcat bit := by
    apply BitVec.eq_of_toNat_eq
    cases bit with
    | false => simp
    | true =>
        simp
        omega
  have pushed : (if bit then crc <<< 1 + 1 else crc <<< 1).getLsbD 16 = (crc.setWidth 16).msb := by
    rw [BitVec.msb_eq_getLsbD_last, BitVec.getLsbD_setWidth]
    cases bit <;> simp [BitVec.getLsbD, Nat.testBit_eq_decide_div_mod_eq] <;> omega
  have place : (0x10000#32) = BitVec.twoPow 32 16 := rfl
  have low : (0x1021#32).setWidth 16 = crcLowBits := rfl
  unfold crcRound shiftIn
  dsimp only
  rw [place, ← entered, ← pushed]
  generalize (if bit then crc <<< 1 + 1 else crc <<< 1) = shifted
  simp only [and_place_ne_zero _ 16 (by decide)]
  split
  · rw [BitVec.setWidth_xor, low]
  · rfl

theorem updateCRC16Loop_succ (fuel : Nat) (crc input : BitVec 32) :
    updateCRC16Loop (fuel + 1) crc input =
      if input.getLsbD 15 = true then crcRound crc (input.getLsbD 7)
      else updateCRC16Loop fuel (crcRound crc (input.getLsbD 7)) (input <<< 1) := by
  have eight : (0x100#32) = BitVec.twoPow 32 8 := rfl
  have sixteen : (0x10000#32) = BitVec.twoPow 32 16 := rfl
  have entering : decide (input <<< 1 &&& 0x100#32 ≠ 0#32) = input.getLsbD 7 := by
    rw [eight, Bool.eq_iff_iff, decide_eq_true_iff, and_place_ne_zero _ 8 (by decide)]
    simp
  have leaving : input <<< 1 &&& 0x10000#32 = 0#32 ↔ ¬input.getLsbD 15 = true := by
    rw [sixteen, ← not_ne_iff, and_place_ne_zero _ 16 (by decide)]
    simp
  have round : updateCRC16Loop (fuel + 1) crc input =
      if input <<< 1 &&& 0x10000#32 = 0#32 then
        updateCRC16Loop fuel (crcRound crc (decide (input <<< 1 &&& 0x100#32 ≠ 0#32)))
          (input <<< 1)
      else crcRound crc (decide (input <<< 1 &&& 0x100#32 ≠ 0#32)) := by
    rw [updateCRC16Loop]
    simp only [crcRound, decide_eq_true_eq]
  rw [round, entering]
  simp only [leaving, ite_not]

theorem updateCRC16Loop_bits (rounds : Nat) (crc input : BitVec 32) (within : rounds ≤ 7)
    (marker : input.getLsbD (15 - rounds) = true)
    (above : ∀ place, 15 - rounds < place → place ≤ 15 → input.getLsbD place = false) :
    (updateCRC16Loop (rounds + 1) crc input).setWidth 16 =
      ((List.range (rounds + 1)).map fun place => input.getLsbD (7 - place)).foldl
        (shiftIn crcLowBits) (crc.setWidth 16) := by
  induction rounds generalizing crc input with
  | zero =>
      rw [updateCRC16Loop_succ, if_pos marker, setWidth_crcRound]
      rfl
  | succ rounds induction =>
      have stays : ¬input.getLsbD 15 = true := by
        rw [above 15 (by omega) (by omega)]
        exact Bool.false_ne_true
      have shifted (place : Nat) (positive : 0 < place) (inside : place < 32) :
          (input <<< 1).getLsbD place = input.getLsbD (place - 1) := by
        have some : place ≠ 0 := by omega
        rw [BitVec.getLsbD_shiftLeft]
        simp [some, inside]
      have first : input.getLsbD (7 - 0) = input.getLsbD 7 := rfl
      rw [updateCRC16Loop_succ, if_neg stays, induction _ (input <<< 1) (by omega),
        setWidth_crcRound, @List.range_succ_eq_map (rounds + 1), List.map_cons, List.foldl_cons,
        first, List.map_map]
      · congr 1
        apply List.map_congr_left
        intro place member
        have below := List.mem_range.mp member
        rw [Function.comp_apply, shifted (7 - place) (by omega) (by omega)]
        congr 1
      · rw [shifted (15 - rounds) (by omega) (by omega), ← marker]
        congr 1
      · intro place higher inside
        rw [shifted place (by omega) (by omega)]
        exact above (place - 1) (by omega) (by omega)

/-- `UpdateCRC16` shifts the bits of its byte in, the most significant one first. -/
theorem updateCRC16_bits (crcIn : BitVec 16) (byte : UInt8) :
    updateCRC16 crcIn byte = (bits byte.toBitVec).foldl (shiftIn crcLowBits) crcIn := by
  let input := byte.toBitVec.setWidth 32 ||| 0x100#32
  have bit (place : Nat) (inside : place < 32) :
      input.getLsbD place = (byte.toBitVec.getLsbD place || decide (8 = place)) := by
    have eight : (0x100#32) = BitVec.twoPow 32 8 := rfl
    rw [BitVec.getLsbD_or, eight, BitVec.getLsbD_twoPow, BitVec.getLsbD_setWidth]
    simp [inside]
  have high (place : Nat) (above : 15 - 7 < place) (inside : place ≤ 15) :
      input.getLsbD place = false := by
    rw [bit place (by omega), BitVec.getLsbD_of_ge _ _ (by omega), decide_eq_false (by omega)]
    rfl
  have marker : input.getLsbD (15 - 7) = true := by simp [input]
  have taken : ((List.range (7 + 1)).map fun place => input.getLsbD (7 - place)) =
      bits byte.toBitVec := by
    apply List.map_congr_left
    intro place member
    have inside := List.mem_range.mp member
    rw [bit (7 - place) (by omega), decide_eq_false (by omega), Bool.or_false,
      BitVec.getMsbD_eq_getLsbD, decide_eq_true inside, Bool.true_and]
  have same : (crcIn.setWidth 32).setWidth 16 = crcIn := by simp
  have loop := updateCRC16Loop_bits 7 (crcIn.setWidth 32) input (by decide) marker high
  rw [taken, same] at loop
  rw [← updateCRC16_fuel crcIn byte 0]
  exact loop

/-! ## A message -/

def messageBits (data : List UInt8) : List Bool := data.flatMap fun byte => bits byte.toBitVec

theorem messageBits_cons (byte : UInt8) (data : List UInt8) :
    messageBits (byte :: data) = bits byte.toBitVec ++ messageBits data := rfl

theorem messageBits_append (first second : List UInt8) :
    messageBits (first ++ second) = messageBits first ++ messageBits second :=
  List.flatMap_append

@[simp] theorem length_messageBits (data : List UInt8) :
    (messageBits data).length = 8 * data.length := by
  induction data with
  | nil => rfl
  | cons byte data induction =>
      rw [messageBits_cons, List.length_append, length_bits, induction, List.length_cons]
      omega

theorem foldl_updateCRC16 (data : List UInt8) (crc : BitVec 16) :
    data.foldl updateCRC16 crc = (messageBits data).foldl (shiftIn crcLowBits) crc := by
  induction data generalizing crc with
  | nil => rfl
  | cons byte data induction =>
      rw [List.foldl_cons, induction, messageBits_cons, List.foldl_append, updateCRC16_bits]

theorem ofRegister_foldl_updateCRC16 (data : List UInt8) :
    ofRegister (data.foldl updateCRC16 0) = ofBits (messageBits data) %ₘ generator crcLowBits := by
  have zero : ofRegister (0 : BitVec 16) = 0 := ofRegister_zero
  rw [foldl_updateCRC16, ofRegister_foldl_shiftIn crcLowBits (by decide), zero, zero_mul, zero_add]

theorem ofRegister_calCRC16 (data : List UInt8) :
    ofRegister (calCRC16 data) = ofBits (messageBits data) * X ^ 16 %ₘ generator crcLowBits := by
  have appended : calCRC16 data = (data ++ [0, 0]).foldl updateCRC16 0 := by
    rw [List.foldl_append]
    rfl
  have zeros : messageBits [0, 0] = List.replicate 16 false := by decide
  rw [appended, ofRegister_foldl_updateCRC16, messageBits_append, ofBits_append, zeros,
    ofBits_zeros, List.length_replicate, add_zero]

theorem messageBits_checkBytes (data : List UInt8) :
    messageBits (checkBytes data) = bits (calCRC16 data) := by
  have parts (crc : BitVec 16) : (crc >>> 8).setWidth 8 ++ crc.setWidth 8 = crc := by
    apply BitVec.eq_of_getLsbD_eq
    intro place inside
    rw [BitVec.getLsbD_append]
    by_cases low : place < 8
    · simp [low]
    · have above : place - 8 < 8 := by omega
      have back : 8 + (place - 8) = place := by omega
      simp [low, above, back]
  have both := bits_append ((calCRC16 data >>> 8).setWidth 8) ((calCRC16 data).setWidth 8)
  rw [parts] at both
  rw [both]
  simp [messageBits, checkBytes, crcHigh, crcLow]

theorem generator_dvd_checked (data : List UInt8) :
    generator crcLowBits ∣ ofBits (messageBits (data ++ checkBytes data)) := by
  have divides := dvd_modByMonic_sub (ofBits (messageBits data) * X ^ 16) (generator crcLowBits)
  rw [← ofRegister_calCRC16, CharTwo.sub_eq_add, add_comm] at divides
  rwa [messageBits_append, ofBits_append, messageBits_checkBytes, length_bits]

/-! ## The usual receiver -/

/-- One of the eight steps of a receiver for each byte. -/
def receiverStep (crc : BitVec 16) : BitVec 16 :=
  if crc.msb then crc <<< 1 ^^^ 0x1021#16 else crc <<< 1

def receiverUpdate (crc : BitVec 16) (byte : UInt8) : BitVec 16 :=
  receiverStep^[8] (crc ^^^ byte.toBitVec.setWidth 16 <<< 8)

theorem receiverStep_eq (crc : BitVec 16) : receiverStep crc = shiftIn crcLowBits crc false := by
  have shifted : crc.shiftConcat false = crc <<< 1 := by
    apply BitVec.eq_of_toNat_eq
    simp
  rw [receiverStep, shiftIn, shifted]
  rfl

theorem iterate_receiverStep (count : Nat) (crc : BitVec 16) :
    receiverStep^[count] crc = (List.replicate count false).foldl (shiftIn crcLowBits) crc := by
  induction count generalizing crc with
  | zero => rfl
  | succ count induction =>
      rw [Function.iterate_succ_apply, induction, List.replicate_succ, List.foldl_cons,
        receiverStep_eq]

theorem bits_topByte (byte : UInt8) :
    bits (byte.toBitVec.setWidth 16 <<< 8) = bits byte.toBitVec ++ List.replicate 8 false := by
  have parts : byte.toBitVec.setWidth 16 <<< 8 = byte.toBitVec ++ 0#8 := by
    apply BitVec.eq_of_getLsbD_eq
    intro place inside
    rw [BitVec.getLsbD_append, BitVec.getLsbD_shiftLeft, BitVec.getLsbD_setWidth]
    by_cases low : place < 8
    · simp [low]
    · have below : place - 8 < 16 := by omega
      simp [low, inside, below]
  have zeros : bits (0#8) = List.replicate 8 false := by decide
  rw [parts, bits_append, zeros]

theorem ofRegister_receiverUpdate (crc : BitVec 16) (byte : UInt8) :
    ofRegister (receiverUpdate crc byte) =
      (ofRegister crc * X ^ 8 + ofRegister byte.toBitVec * X ^ 16) %ₘ generator crcLowBits := by
  have top : ofRegister (byte.toBitVec.setWidth 16 <<< 8) = ofRegister byte.toBitVec * X ^ 8 := by
    rw [ofRegister, bits_topByte, ofBits_append, ofBits_zeros, List.length_replicate, add_zero]
    rfl
  rw [receiverUpdate, iterate_receiverStep, ofRegister_foldl_shiftIn crcLowBits (by decide),
    ofRegister_xor, top, ofBits_zeros, List.length_replicate, add_zero, add_mul, mul_assoc,
    ← pow_add]

theorem ofRegister_foldl_receiverUpdate (data : List UInt8) (crc : BitVec 16) :
    ofRegister (data.foldl receiverUpdate crc) =
      (ofRegister crc * X ^ (8 * data.length) + ofBits (messageBits data) * X ^ 16) %ₘ
        generator crcLowBits := by
  induction data generalizing crc with
  | nil => simp [messageBits, remainder_of_register]
  | cons byte data induction =>
      rw [List.foldl_cons, induction, ofRegister_receiverUpdate, remainder_mul_add,
        messageBits_cons, ofBits_append, length_messageBits, List.length_cons]
      have more : 8 * (data.length + 1) = 8 + 8 * data.length := by omega
      rw [more, pow_add, add_mul, add_mul, add_assoc, mul_assoc, mul_right_comm]
      rfl

/-- `Cal_CRC16` is CRC-16/XMODEM. -/
theorem calCRC16_xmodem (data : List UInt8) :
    ofRegister (calCRC16 data) =
        ofBits (messageBits data) * X ^ 16 %ₘ (X ^ 16 + X ^ 12 + X ^ 5 + 1) ∧
      calCRC16 data = data.foldl receiverUpdate 0 ∧
      (data ++ [crcHigh (calCRC16 data), crcLow (calCRC16 data)]).foldl updateCRC16 0 = 0 := by
  have zero : ofRegister (0 : BitVec 16) = 0 := ofRegister_zero
  rw [← generator_crcLowBits]
  refine ⟨ofRegister_calCRC16 data, ?_, ?_⟩
  · apply ofRegister_injective
    rw [ofRegister_calCRC16, ofRegister_foldl_receiverUpdate, zero, zero_mul, zero_add]
  · apply ofRegister_injective
    rw [ofRegister_foldl_updateCRC16, zero, modByMonic_eq_zero_iff_dvd (generator_monic crcLowBits)]
    exact generator_dvd_checked data

end CosmosPC
