import Mathlib.Algebra.Group.Nat.Defs
import CosmosPC.Foundation.Memory
import CosmosPC.Ymodem.Crc

/-! # The two packet builders

The constants of `ymodem.h` and the functions that lay out a frame in
`packet_data`. Local arrays that the source leaves uninitialised are arguments,
so that nothing is assumed about their first contents. -/

namespace CosmosPC

def packetHeader : Nat := 3
def packetTrailer : Nat := 2
def packetOverhead : Nat := packetHeader + packetTrailer
def packetSize : Nat := 128
def packet1kSize : Nat := 1024
def fileNameLength : Nat := 256

def soh : UInt8 := 0x01
def stx : UInt8 := 0x02
def eot : UInt8 := 0x04
def ack : UInt8 := 0x06
def nak : UInt8 := 0x15
def crc16 : UInt8 := 0x43

def nakTimeout : Nat := 500

/-- `USER_FLASH_END_ADDRESS - APPLICATION_ADDRESS + 1`. -/
def userFlashSize : Nat := 0x080FFFFF - 0x08020000 + 1

/-- The byte that pads the last frame. -/
def padding : UInt8 := 0x1A

attribute [simp] packetHeader packetSize packet1kSize

/-- One of the ten rounds of `Int2Str` after another, with the number still to
be written as the unsigned value that the division by `Div` makes of it. -/
def int2StrLoop : (rounds intnum div j status : Nat) → (str : Memory) → Memory
  | 0, _, _, _, _, str => str
  | rounds + 1, intnum, div, j, status, str =>
      let digit := UInt8.ofNat (intnum / div + 48)
      let str := str.store j digit
      if digit = 48 ∧ status = 0 then
        int2StrLoop rounds (intnum % div) (div / 10) 0 status str
      else
        int2StrLoop rounds (intnum % div) (div / 10) (j + 1) (status + 1) str

/-- `void Int2Str(uint8_t* str, int32_t intnum)`. -/
def int2Str (str : Memory) (intnum : Nat) : Memory :=
  int2StrLoop 10 intnum 1000000000 0 0 str

/-- The file-name loop of `Ymodem_PrepareIntialPacket`: the index at which it
stops, and the frame so far. -/
def copyFileName (fileName : Nat → UInt8) : (rounds i : Nat) → (data : Memory) → Nat × Memory
  | 0, i, data => (i, data)
  | rounds + 1, i, data =>
      if fileName i = 0 then (i, data)
      else copyFileName fileName rounds (i + 1) (data.store (i + packetHeader) (fileName i))

/-- `data[i++] = file_ptr[j++];` for the bytes of a text, with a 16-bit `i`. -/
def copyText : (text : List UInt8) → (i : Nat) → (data : Memory) → Nat × Memory
  | [], i, data => (i, data)
  | byte :: text, i, data => copyText text ((i + 1) % 2 ^ 16) (data.store i byte)

/-- The bytes that `Ymodem_PrepareIntialPacket` finds in `file_ptr` before the
first `NUL`. A size of ten digits leaves no `NUL` in the array; the bytes found
behind it on the stack are then `stray`. -/
def sizeText (length : Nat) (stray : List UInt8) : List UInt8 :=
  ((int2Str Memory.zeroed length).bytes 0 10 ++ stray).takeWhile (· ≠ 0)

/-- `void Ymodem_PrepareIntialPacket(uint8_t *data, const uint8_t* fileName,
uint32_t *length)`. -/
def ymodemPrepareIntialPacket (data : Memory) (fileName : Nat → UInt8) (length : Nat)
    (stray : List UInt8) : Memory :=
  let data := ((data.store 0 soh).store 1 0x00).store 2 0xff
  let (i, data) := copyFileName fileName fileNameLength 0 data
  let data := data.store (i + packetHeader) 0x00
  let (i, data) := copyText (sizeText length stray) (i + packetHeader + 1) data
  data.fill i (packetSize + packetHeader - i) fun _ => 0

/-- `void Ymodem_PreparePacket(uint8_t *SourceBuf, uint8_t *data, uint8_t pktNo,
uint32_t sizeBlk)`. -/
def ymodemPreparePacket (sourceBuf : Nat → UInt8) (data : Memory) (pktNo : UInt8)
    (sizeBlk : Nat) : Memory :=
  let blockSize := if sizeBlk ≥ packet1kSize then packet1kSize else packetSize
  let size := if sizeBlk < blockSize then sizeBlk else blockSize
  let data := data.store 0 (if blockSize = packet1kSize then stx else soh)
  let data := (data.store 1 pktNo).store 2 (~~~pktNo)
  let data := data.fill packetHeader size sourceBuf
  if size ≤ blockSize then
    data.fill (size + packetHeader) (blockSize - size) fun _ => padding
  else
    data

def storeCheckBytes (data : Memory) (pktSize : Nat) : Memory :=
  let tempCRC := calCRC16 (data.bytes packetHeader pktSize)
  (data.store (pktSize + packetHeader + 0) (crcHigh tempCRC)).store
    (pktSize + packetHeader + 1) (crcLow tempCRC)

/-! ## What the builders leave in the frame -/

def payloadSize (size : Nat) : Nat :=
  if size ≥ packet1kSize then packet1kSize else packetSize

theorem payloadSize_pos (size : Nat) : 0 < payloadSize size := by
  unfold payloadSize
  split <;> decide

/-- A complete frame: start byte, number, complement, payload, check bytes. -/
def encodeFrame (start number : UInt8) (payload : List UInt8) : List UInt8 :=
  [start, number, ~~~number] ++ payload ++ checkBytes payload

@[simp] theorem length_encodeFrame (start number : UInt8) (payload : List UInt8) :
    (encodeFrame start number payload).length = payload.length + packetOverhead := by
  simp [encodeFrame, packetOverhead, packetTrailer]

def framePayload (frame : List UInt8) : List UInt8 :=
  (frame.drop packetHeader).take (frame.length - packetOverhead)

@[simp] theorem framePayload_encodeFrame (start number : UInt8) (payload : List UInt8) :
    framePayload (encodeFrame start number payload) = payload := by
  rw [framePayload, length_encodeFrame, Nat.add_sub_cancel]
  simp [encodeFrame]

theorem bytes_storeCheckBytes (data : Memory) (pktSize : Nat) :
    (storeCheckBytes data pktSize).bytes 0 (pktSize + packetOverhead) =
      data.bytes 0 packetHeader ++ data.bytes packetHeader pktSize ++
        checkBytes (data.bytes packetHeader pktSize) := by
  have header : (storeCheckBytes data pktSize).bytes 0 packetHeader =
      data.bytes 0 packetHeader := by
    rw [storeCheckBytes, Memory.bytes_store_of_outside _ _ _ _ _ (by simp),
      Memory.bytes_store_of_outside _ _ _ _ _ (by simp)]
  have payload : (storeCheckBytes data pktSize).bytes packetHeader pktSize =
      data.bytes packetHeader pktSize := by
    rw [storeCheckBytes, Memory.bytes_store_of_outside _ _ _ _ _ (by simp; omega),
      Memory.bytes_store_of_outside _ _ _ _ _ (by simp; omega)]
  have check : (storeCheckBytes data pktSize).bytes (packetHeader + pktSize) 2 =
      checkBytes (data.bytes packetHeader pktSize) := by
    simp [storeCheckBytes, Memory.bytes, checkBytes, List.range_succ, Nat.add_comm]
  have sizes : pktSize + packetOverhead = packetHeader + pktSize + 2 := by
    simp only [packetOverhead, packetTrailer]
    omega
  rw [sizes, Memory.bytes_add, Memory.bytes_add, Nat.zero_add, header, payload, Nat.zero_add,
    check]

def payloadOf (source : List UInt8) (blockSize : Nat) : List UInt8 :=
  (source.take blockSize).rightpad blockSize padding

@[simp] theorem length_payloadOf (source : List UInt8) (blockSize : Nat) :
    (payloadOf source blockSize).length = blockSize := by
  simp only [payloadOf, List.rightpad, List.length_append, List.length_take,
    List.length_replicate]
  omega

theorem getElem_payloadOf (source : List UInt8) (blockSize index : Nat)
    (inside : index < (payloadOf source blockSize).length) :
    (payloadOf source blockSize)[index] = source.getD index padding := by
  have bound : index < blockSize := by simpa using inside
  by_cases within : index < source.length
  · have taken : index < min blockSize source.length := by omega
    simp [payloadOf, List.rightpad, within, taken]
  · have padded : ¬index < min blockSize source.length := by omega
    simp [payloadOf, List.rightpad, List.getElem_append, within, padded]

def startByte (size : Nat) : UInt8 :=
  if size ≥ packet1kSize then stx else soh

theorem ymodemPreparePacket_eq (sourceBuf : Nat → UInt8) (data : Memory) (pktNo : UInt8)
    (sizeBlk : Nat) :
    ymodemPreparePacket sourceBuf data pktNo sizeBlk =
      ((((data.store 0 (startByte sizeBlk)).store 1 pktNo).store 2 (~~~pktNo)).fill
        packetHeader (min sizeBlk (payloadSize sizeBlk)) sourceBuf).fill
        (min sizeBlk (payloadSize sizeBlk) + packetHeader)
        (payloadSize sizeBlk - min sizeBlk (payloadSize sizeBlk)) fun _ => padding := by
  have start : (if payloadSize sizeBlk = packet1kSize then stx else soh) =
      startByte sizeBlk := by
    unfold payloadSize startByte
    split <;> simp
  have taken : (if sizeBlk < payloadSize sizeBlk then sizeBlk else payloadSize sizeBlk) =
      min sizeBlk (payloadSize sizeBlk) := by
    split <;> omega
  have fits : min sizeBlk (payloadSize sizeBlk) ≤ payloadSize sizeBlk := Nat.min_le_right _ _
  rw [← start, ← taken] at *
  unfold ymodemPreparePacket
  exact if_pos fits

theorem preparePacket_header (sourceBuf : Nat → UInt8) (data : Memory) (pktNo : UInt8)
    (sizeBlk : Nat) :
    (ymodemPreparePacket sourceBuf data pktNo sizeBlk).bytes 0 packetHeader =
      [startByte sizeBlk, pktNo, ~~~pktNo] := by
  simp [ymodemPreparePacket_eq, Memory.bytes, List.range_succ]

theorem preparePacket_cell (sourceBuf : Nat → UInt8) (data : Memory) (pktNo : UInt8)
    (sizeBlk index : Nat) (inside : index < payloadSize sizeBlk) :
    (ymodemPreparePacket sourceBuf data pktNo sizeBlk).cell (packetHeader + index) =
      if index < sizeBlk then sourceBuf index else padding := by
  rw [ymodemPreparePacket_eq, Memory.fill_cell, Memory.fill_cell]
  by_cases within : index < sizeBlk
  · have copied : packetHeader ≤ packetHeader + index ∧
        packetHeader + index < packetHeader + min sizeBlk (payloadSize sizeBlk) := by omega
    have unpadded : ¬(min sizeBlk (payloadSize sizeBlk) + packetHeader ≤
        packetHeader + index ∧ packetHeader + index <
          min sizeBlk (payloadSize sizeBlk) + packetHeader +
            (payloadSize sizeBlk - min sizeBlk (payloadSize sizeBlk))) := by omega
    rw [if_neg unpadded, if_pos copied, if_pos within, Nat.add_sub_cancel_left]
  · have padded : min sizeBlk (payloadSize sizeBlk) + packetHeader ≤
        packetHeader + index ∧ packetHeader + index <
          min sizeBlk (payloadSize sizeBlk) + packetHeader +
            (payloadSize sizeBlk - min sizeBlk (payloadSize sizeBlk)) := by omega
    rw [if_pos padded, if_neg within]

theorem preparePacket_payload (sourceBuf : Nat → UInt8) (data : Memory) (pktNo : UInt8)
    (sizeBlk : Nat) :
    (ymodemPreparePacket sourceBuf data pktNo sizeBlk).bytes packetHeader
        (payloadSize sizeBlk) =
      payloadOf ((List.range sizeBlk).map sourceBuf) (payloadSize sizeBlk) := by
  apply List.ext_getElem
  · simp
  · intro index inside _
    have bound : index < payloadSize sizeBlk := by simpa using inside
    rw [Memory.getElem_bytes, getElem_payloadOf, preparePacket_cell _ _ _ _ _ bound]
    by_cases within : index < sizeBlk <;> simp [within]

/-- `Ymodem_PreparePacket` and the check bytes lay out the next slice of the
source, padded to the payload size; nothing is left of the earlier contents. -/
theorem preparePacket_frame (sourceBuf : Nat → UInt8) (data : Memory) (pktNo : UInt8)
    (sizeBlk : Nat) :
    (storeCheckBytes (ymodemPreparePacket sourceBuf data pktNo sizeBlk)
        (payloadSize sizeBlk)).bytes 0 (payloadSize sizeBlk + packetOverhead) =
      encodeFrame (startByte sizeBlk) pktNo
        (payloadOf ((List.range sizeBlk).map sourceBuf) (payloadSize sizeBlk)) := by
  rw [bytes_storeCheckBytes, preparePacket_payload, preparePacket_header, encodeFrame]

end CosmosPC
