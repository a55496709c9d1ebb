/-! # The frame check

`UpdateCRC16` and `Cal_CRC16`, with the 32-bit registers of the source: bits
enter at the bottom, and the bit pushed out of the 16-bit remainder stays in
bit 16 until the byte is done. -/

namespace CosmosPC

/-- The `do ... while` loop of `UpdateCRC16`, for at most `fuel` rounds. It
leaves when the marker bit of `input` has reached bit 16. -/
def updateCRC16Loop : (fuel : Nat) → (crc input : BitVec 32) → BitVec 32
  | 0, crc, _ => crc
  | fuel + 1, crc, input =>
      let crc := crc <<< 1
      let input := input <<< 1
      let crc := if input &&& 0x100#32 ≠ 0#32 then crc + 1 else crc
      let crc := if crc &&& 0x10000#32 ≠ 0#32 then crc ^^^ 0x1021#32 else crc
      if input &&& 0x10000#32 = 0#32 then updateCRC16Loop fuel crc input else crc

/-- `uint16_t UpdateCRC16(uint16_t crcIn, uint8_t byte)`. The marker bit starts
at bit 8, so the loop never takes more than eight rounds. -/
def updateCRC16 (crcIn : BitVec 16) (byte : UInt8) : BitVec 16 :=
  (updateCRC16Loop 9 (crcIn.setWidth 32) (byte.toBitVec.setWidth 32 ||| 0x100#32)).setWidth 16

/-- `uint16_t Cal_CRC16(const uint8_t* data, uint32_t size)`. -/
def calCRC16 (data : List UInt8) : BitVec 16 :=
  updateCRC16 (updateCRC16 (data.foldl updateCRC16 0) 0) 0

/-- `(uint8_t)((tempCRC >> 8) & 0xFF)`. -/
def crcHigh (crc : BitVec 16) : UInt8 := ⟨(crc >>> 8).setWidth 8⟩

/-- `(uint8_t)((tempCRC >> 0) & 0xFF)`. -/
def crcLow (crc : BitVec 16) : UInt8 := ⟨crc.setWidth 8⟩

def checkBytes (payload : List UInt8) : List UInt8 :=
  [crcHigh (calCRC16 payload), crcLow (calCRC16 payload)]

@[simp] theorem length_checkBytes (payload : List UInt8) :
    (checkBytes payload).length = 2 := rfl

theorem updateCRC16Loop_of_marker (rounds extra : Nat) (crc input : BitVec 32)
    (bound : rounds < 16) (marker : input.getLsbD (15 - rounds) = true) :
    updateCRC16Loop (rounds + 1 + extra) crc input =
      updateCRC16Loop (rounds + 1) crc input := by
  induction rounds generalizing crc input with
  | zero =>
      have reached : input <<< 1 &&& 0x10000#32 ≠ 0#32 := by
        intro zero
        have bit := congrArg (fun word => word.getLsbD 16) zero
        simp at bit marker
        simp [marker] at bit
      rw [Nat.zero_add, Nat.add_comm 1 extra]
      simp only [updateCRC16Loop, if_neg reached]
  | succ rounds induction =>
      have shifted : (input <<< 1).getLsbD (15 - rounds) = true := by
        have place : 15 - rounds - 1 = 15 - (rounds + 1) := by omega
        simp only [BitVec.getLsbD_shiftLeft, place, marker, Bool.and_true, Bool.and_eq_true,
          decide_eq_true_eq, Bool.not_eq_true', decide_eq_false_iff_not]
        omega
      have fuel : rounds + 1 + 1 + extra = (rounds + 1 + extra) + 1 := by omega
      rw [fuel]
      simp only [updateCRC16Loop]
      rw [induction _ (input <<< 1) (by omega) shifted, updateCRC16Loop]

/-- The fuel of `updateCRC16` is never used up. -/
theorem updateCRC16_fuel (crcIn : BitVec 16) (byte : UInt8) (extra : Nat) :
    (updateCRC16Loop (8 + extra) (crcIn.setWidth 32)
      (byte.toBitVec.setWidth 32 ||| 0x100#32)).setWidth 16 = updateCRC16 crcIn byte := by
  have marker : (byte.toBitVec.setWidth 32 ||| 0x100#32).getLsbD (15 - 7) = true := by simp
  rw [updateCRC16, updateCRC16Loop_of_marker 7 extra _ _ (by omega) marker]
  exact congrArg _ (updateCRC16Loop_of_marker 7 1 _ _ (by omega) marker).symm

/-- The check value of the nine ASCII digits `123456789`. -/
example : calCRC16 [49, 50, 51, 52, 53, 54, 55, 56, 57] = 0x31C3#16 := by decide +kernel

end CosmosPC
