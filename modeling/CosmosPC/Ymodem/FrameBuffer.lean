import CosmosPC.Ymodem.Header

/-! # The frame buffer

Where `packet_data` is written while a session runs. The array has room for the
longest frame; `WriteCom` terminates what it sends, one byte behind the end. -/

namespace CosmosPC

open Memory (WrittenBelow)

variable {bound : Nat} {data : Memory}

/-! ## The builders -/

theorem copyFileName_below (fileName : Nat → UInt8) (rounds i : Nat) (earlier : Memory)
    (written : WrittenBelow bound earlier data) (fits : i + rounds + packetHeader ≤ bound) :
    WrittenBelow bound earlier (copyFileName fileName rounds i data).2 ∧
      (copyFileName fileName rounds i data).1 ≤ i + rounds := by
  induction rounds generalizing i data with
  | zero => exact ⟨written, Nat.le_refl i⟩
  | succ rounds induction =>
      rw [copyFileName]
      split
      · exact ⟨written, Nat.le_add_right i _⟩
      · rcases induction (i + 1) (written.store (i + packetHeader) _ (by omega)) (by omega) with
          ⟨further, index⟩
        exact ⟨further, by omega⟩

theorem copyText_below (text : List UInt8) (i : Nat) (earlier : Memory)
    (written : WrittenBelow bound earlier data) (fits : i + text.length ≤ bound)
    (small : bound < 2 ^ 16) :
    WrittenBelow bound earlier (copyText text i data).2 ∧
      (copyText text i data).1 = i + text.length := by
  induction text generalizing i data with
  | nil => exact ⟨written, rfl⟩
  | cons byte text induction =>
      rw [List.length_cons] at fits ⊢
      have next : (i + 1) % 2 ^ 16 = i + 1 := Nat.mod_eq_of_lt (by omega)
      rw [copyText, next]
      rcases induction (i + 1) (written.store i byte (by omega)) (by omega) with ⟨further, index⟩
      exact ⟨further, by omega⟩

theorem prepareIntialPacket_below (fileName : Nat → UInt8) (length : Nat) (stray : List UInt8)
    (digits : (sizeText length stray).length ≤ 10) (room : 270 ≤ bound) (small : bound < 2 ^ 16) :
    WrittenBelow bound data (ymodemPrepareIntialPacket data fileName length stray) := by
  have header : WrittenBelow bound data (((data.store 0 soh).store 1 0x00).store 2 0xff) :=
    (((WrittenBelow.refl bound data).store 0 _ (by omega)).store 1 _ (by omega)).store 2 _
      (by omega)
  rcases copyFileName_below fileName fileNameLength 0 data header
    (by simp only [fileNameLength, packetHeader]; omega) with ⟨named, stop⟩
  unfold ymodemPrepareIntialPacket
  dsimp only
  generalize copyFileName fileName fileNameLength 0 (((data.store 0 soh).store 1 0x00).store 2 0xff)
    = copied at named stop ⊢
  rcases copied with ⟨i, copied⟩
  simp only [fileNameLength, packetHeader] at stop ⊢
  rcases copyText_below (sizeText length stray) (i + 3 + 1) data
    (named.store (i + 3) 0x00 (by omega)) (by omega) small with ⟨sized, behind⟩
  apply sized.fill
  rw [behind]
  simp only [packetSize]
  omega

theorem preparePacket_below (sourceBuf : Nat → UInt8) (pktNo : UInt8) (sizeBlk : Nat)
    (room : payloadSize sizeBlk + packetHeader ≤ bound) :
    WrittenBelow bound data (ymodemPreparePacket sourceBuf data pktNo sizeBlk) := by
  simp only [packetHeader] at room
  rw [ymodemPreparePacket_eq]
  apply WrittenBelow.fill
  · apply WrittenBelow.fill
    · exact (((WrittenBelow.refl bound data).store 0 _ (by omega)).store 1 _ (by omega)).store 2 _
        (by omega)
    · right
      simp only [packetHeader]
      omega
  · right
    simp only [packetHeader]
    omega

theorem storeCheckBytes_below (earlier : Memory) (written : WrittenBelow bound earlier data)
    (pktSize : Nat) (room : pktSize + packetOverhead ≤ bound) :
    WrittenBelow bound earlier (storeCheckBytes data pktSize) := by
  simp only [packetOverhead, packetTrailer, packetHeader] at room
  exact (written.store _ _ (by simp only [packetHeader]; omega)).store _ _
    (by simp only [packetHeader]; omega)

theorem closingPacket_below (earlier : Memory) (written : WrittenBelow bound earlier data)
    (room : packetSize + packetHeader ≤ bound) :
    WrittenBelow bound earlier (closingPacket data) := by
  simp only [packetSize, packetHeader] at room
  apply WrittenBelow.fill
  · exact ((written.store 0 _ (by omega)).store 1 _ (by omega)).store 2 _ (by omega)
  · right
    simp only [packetSize, packetHeader]
    omega

/-! ## Sending -/

theorem uartWrite_below (port : Port) (uart : Uart) (start bytesToWrite : Nat) (earlier : Memory)
    (written : WrittenBelow bound earlier data) (room : start + bytesToWrite < bound) :
    WrittenBelow bound earlier (uart.uartWrite port data start bytesToWrite).2.1 := by
  unfold Uart.uartWrite
  cases uart.updateio with
  | none => exact written
  | some com =>
      unfold ComIO.writeCom
      dsimp only
      split
      · exact written.store _ 0 room
      · exact written

theorem sendPacketLoop_below (port : Port) (length fuel index : Nat) (sending : Sending)
    (earlier : Memory) (written : WrittenBelow bound earlier sending.packetData)
    (room : length < bound) :
    WrittenBelow bound earlier
      (ymodemSendPacketLoop port length fuel index sending).2.packetData := by
  induction fuel generalizing index sending with
  | zero =>
      rw [ymodemSendPacketLoop]
      split <;> exact written
  | succ fuel induction =>
      rw [ymodemSendPacketLoop]
      by_cases unfinished : index < length
      · rw [if_pos unfinished]
        have further := uartWrite_below port sending.uart index (length - index) earlier written
          (by omega)
        generalize sending.uart.uartWrite port sending.packetData index (length - index) =
          outcome at further ⊢
        rcases outcome with ⟨_ | writelen, data, uart⟩
        · exact further
        · exact induction _ ⟨data, uart⟩ further
      · rw [if_neg unfinished]
        exact written

theorem waitOrReturn_packetData (port : Port) (ch : UInt8) (sending : Sending) :
    (waitOrReturn port ch sending).2.packetData = sending.packetData := by
  unfold waitOrReturn
  generalize ymodemWaitForChar port ch sending.uart = outcome
  rcases outcome with ⟨_ | _, uart⟩ <;> rfl

variable (port : Port) (fuel : Nat)

theorem sendPacket_below (site : PacketSite) (length : Nat) (sending : Sending)
    (earlier : Memory) (written : WrittenBelow bound earlier sending.packetData)
    (room : length < bound) :
    WrittenBelow bound earlier (ymodemSendPacket port fuel site length sending).2.packetData :=
  sendPacketLoop_below port length fuel 0 _ earlier written room

theorem sendPacketAndWait_below (site : PacketSite) (length : Nat) (sending : Sending)
    (earlier : Memory) (written : WrittenBelow bound earlier sending.packetData)
    (room : length < bound) :
    WrittenBelow bound earlier (sendPacketAndWait port fuel site length sending).2.packetData := by
  rw [sendPacketAndWait_eq]
  apply andThen_keeps fun sending => WrittenBelow bound earlier sending.packetData
  · exact sendPacket_below port fuel site length sending earlier written room
  · intro sent further
    rwa [waitOrReturn_packetData]

theorem sendHeader_below (filename : Nat → UInt8) (sizeFile : Nat) (stray : List UInt8)
    (sending : Sending) (digits : (sizeText sizeFile stray).length ≤ 10) (room : 270 ≤ bound)
    (small : bound < 2 ^ 16) :
    WrittenBelow bound sending.packetData
      (sendHeader port fuel filename sizeFile stray sending).2.packetData := by
  rw [sendHeader_eq]
  apply andThen_keeps fun after => WrittenBelow bound sending.packetData after.packetData
  · apply sendPacketAndWait_below
    · apply storeCheckBytes_below
      · exact prepareIntialPacket_below filename sizeFile stray digits room small
      · exact Nat.le_trans (by decide) room
    · exact Nat.lt_of_lt_of_le (by decide) room
  · intro answered further
    rwa [waitOrReturn_packetData]

theorem sendBlock_below (buf : Nat → UInt8) (offset size blkNumber : Nat) (sending : Sending)
    (room : payloadSize size + packetOverhead < bound) :
    WrittenBelow bound sending.packetData
      (sendBlock port fuel buf offset size blkNumber sending).2.packetData := by
  simp only [packetOverhead, packetTrailer] at room
  apply sendPacketAndWait_below
  · apply storeCheckBytes_below
    · apply preparePacket_below
      omega
    · simp only [packetOverhead, packetTrailer]
      omega
  · omega

theorem payloadSize_mono {smaller size : Nat} (le : smaller ≤ size) :
    payloadSize smaller ≤ payloadSize size := by
  unfold payloadSize
  split
  · rw [if_pos (by omega)]
  · split <;> decide

theorem sendBlocks_below (buf : Nat → UInt8) (offset size blkNumber : Nat) (sending : Sending)
    (room : payloadSize size + packetOverhead < bound) :
    WrittenBelow bound sending.packetData
      (sendBlocks port fuel buf offset size blkNumber sending).2.packetData := by
  induction size using Nat.strongRecOn generalizing offset blkNumber sending with
  | ind size induction =>
      by_cases finished : size = 0
      · rw [sendBlocks, if_pos finished]
        exact WrittenBelow.refl bound _
      · rw [sendBlocks_eq port fuel buf offset size blkNumber sending finished]
        apply andThen_keeps fun after => WrittenBelow bound sending.packetData after.packetData
        · exact sendBlock_below port fuel buf offset size blkNumber sending room
        · intro sent written
          split
          · split
            · exact written
            · have positive := payloadSize_pos size
              have shorter := payloadSize_mono (Nat.sub_le size (payloadSize size))
              exact written.trans (induction (size - payloadSize size) (by omega) _ _ sent
                (by omega))
          · exact written

theorem sendEnd_below (sending : Sending) (room : packetSize + packetHeader < bound) :
    WrittenBelow bound sending.packetData (sendEnd port fuel sending).2.packetData := by
  rw [sendEnd_eq]
  apply andThen_keeps fun after => WrittenBelow bound sending.packetData after.packetData
  · rw [waitOrReturn_packetData]
    exact WrittenBelow.refl bound _
  · intro answered written
    rw [sendClosing_eq]
    apply andThen_keeps fun after => WrittenBelow bound sending.packetData after.packetData
    · apply andThen_keeps fun after => WrittenBelow bound sending.packetData after.packetData
      · apply sendPacket_below
        · exact closingPacket_below _ written (Nat.le_of_lt room)
        · exact room
      · intro sent further
        rwa [waitOrReturn_packetData]
    · intro closed further
      exact further

theorem transmit_below (locals : Locals) (buf sendFileName : Nat → UInt8) (sizeFile : Nat)
    (uart : Uart) (digits : (sizeText sizeFile locals.stray).length ≤ 10) (least : 270 ≤ bound)
    (room : payloadSize sizeFile + packetOverhead < bound) (small : bound < 2 ^ 16) :
    WrittenBelow bound locals.packetData
      (ymodemTransmit port fuel locals buf sendFileName sizeFile uart).2.packetData := by
  rw [ymodemTransmit_eq]
  apply andThen_keeps fun after => WrittenBelow bound locals.packetData after.packetData
  · exact sendHeader_below port fuel _ sizeFile locals.stray ⟨locals.packetData, uart⟩ digits least
      small
  · intro headed written
    apply andThen_keeps fun after => WrittenBelow bound locals.packetData after.packetData
    · exact written.trans (sendBlocks_below port fuel buf 0 sizeFile 1 headed room)
    · intro filed further
      exact further.trans (sendEnd_below port fuel filed (Nat.lt_of_lt_of_le (by decide) least))

/-! ## The byte behind the longest frame -/

/-- A packet that is begun is terminated. -/
theorem sendPacketLoop_terminates (length : Nat) (sending : Sending) (isOpen : sending.uart.Open)
    (some : 0 < length) :
    length ∈ (ymodemSendPacketLoop port length (fuel + 1) 0 sending).2.packetData.stores := by
  rw [ymodemSendPacketLoop, if_pos some, sending.uart.uartWrite_open port _ _ _ isOpen]
  have stored : length ∈ (sending.packetData.store length 0).stores :=
    List.mem_append_right _ List.mem_cons_self
  simp only [Nat.sub_zero, Nat.zero_add]
  exact (sendPacketLoop_below port length fuel _ _ (sending.packetData.store length 0)
    (WrittenBelow.refl (length + 1) _) (Nat.lt_succ_self length)).mem stored

theorem sendBlock_terminates (buf : Nat → UInt8) (offset size blkNumber : Nat)
    (sending : Sending) (isOpen : sending.uart.Open) (whole : packet1kSize ≤ size) :
    packet1kSize + packetOverhead ∈
      (sendBlock port (fuel + 1) buf offset size blkNumber sending).2.packetData.stores := by
  have length : payloadSize size + packetHeader + 2 = packet1kSize + packetOverhead := by
    rw [payloadSize, if_pos whole]
    rfl
  unfold sendBlock
  dsimp only
  rw [length, sendPacketAndWait_eq]
  apply andThen_keeps fun after => packet1kSize + packetOverhead ∈ after.packetData.stores
  · exact sendPacketLoop_terminates port fuel _ _ (isOpen.after _) (by decide)
  · intro sent member
    rwa [waitOrReturn_packetData]

theorem transmit_terminates (answering : Answering port) (locals : Locals)
    (buf sendFileName : Nat → UInt8) (sizeFile : Nat) (whole : packet1kSize ≤ sizeFile) :
    packet1kSize + packetOverhead ∈
      (ymodemTransmit port (fuel + 1) locals buf sendFileName sizeFile
        Uart.opened).2.packetData.stores := by
  rcases sendHeader_answered port answering fuel (copiedName locals sendFileName) sizeFile
      locals.stray ⟨locals.packetData, Uart.opened⟩ Uart.opened_open Settled.initially with
    ⟨begins, _, open₁⟩
  rw [ymodemTransmit_eq]
  generalize sendHeader port (fuel + 1) (copiedName locals sendFileName) sizeFile locals.stray
    ⟨locals.packetData, Uart.opened⟩ = outcome at begins open₁ ⊢
  rcases outcome with ⟨flow, headed⟩
  dsimp only at begins open₁
  subst begins
  simp only [packet1kSize] at whole
  rw [andThen_next, sendBlocks_eq port _ buf 0 sizeFile 1 headed (by omega)]
  -- What is stored by the first block stays in the record of the stores.
  have fits (size : Nat) : payloadSize size + packetOverhead < 1030 := by
    unfold payloadSize
    split <;> decide
  apply andThen_keeps fun after => packet1kSize + packetOverhead ∈ after.packetData.stores
  · apply andThen_keeps fun after => packet1kSize + packetOverhead ∈ after.packetData.stores
    · exact sendBlock_terminates port fuel buf 0 sizeFile 1 headed open₁ whole
    · intro sent member
      split
      · split
        · exact member
        · exact (sendBlocks_below port _ buf _ _ _ sent (fits _)).mem member
      · exact member
  · intro filed member
    have ending : packetSize + packetHeader < 1030 := by decide
    exact (sendEnd_below port _ filed ending).mem member

/-- All stores into `packet_data` stay inside it, whatever the receiver and the
port do, exactly if the image has no whole kilobyte. -/
theorem frame_stores_inside_iff (buf sendFileName : Nat → UInt8) (sizeFile : Nat) :
    (∀ port fuel cell filename stray,
      ∀ index ∈ (ymodemTransmit port fuel ⟨⟨cell, []⟩, filename, stray⟩ buf sendFileName sizeFile
        Uart.opened).2.packetData.stores, index < packet1kSize + packetOverhead) ↔
      sizeFile < packet1kSize := by
  constructor
  · intro inside
    apply Nat.lt_of_not_le
    intro whole
    have stored := transmit_terminates promptPort 0 promptPort_answering
      ⟨⟨fun _ => 0, []⟩, fun _ => 0, []⟩ buf sendFileName sizeFile whole
    rw [Nat.zero_add] at stored
    exact absurd (inside promptPort 1 (fun _ => 0) (fun _ => 0) [] _ stored) (Nat.lt_irrefl _)
  · intro short port fuel cell filename stray
    have small : sizeFile < 10 ^ 9 := Nat.lt_trans short (by decide)
    have digits : (sizeText sizeFile stray).length ≤ 10 := by
      rw [sizeText_eq sizeFile stray small]
      exact Decimal.length_text_le sizeFile 10 (by decide) (Nat.lt_trans small (by decide))
    have room : payloadSize sizeFile + packetOverhead < packet1kSize + packetOverhead := by
      rw [payloadSize, if_neg (Nat.not_le_of_lt short)]
      decide
    exact (transmit_below port fuel ⟨⟨cell, []⟩, filename, stray⟩ buf sendFileName sizeFile
      Uart.opened digits (by decide) room (by decide)).of_fresh

/-- An image of 1024 bytes, and a receiver that answers at once. -/
theorem whole_kilobyte_stores_behind_frame :
    1024 ≤ userFlashSize ∧ Answering promptPort ∧
      ∃ index ∈ (ymodemTransmit promptPort 1 ⟨Memory.zeroed, fun _ => 0, []⟩ (fun _ => 0)
        (fun _ => 0) 1024 Uart.opened).2.packetData.stores,
          packet1kSize + packetOverhead ≤ index := by
  have stored := transmit_terminates promptPort 0 promptPort_answering
    ⟨Memory.zeroed, fun _ => 0, []⟩ (fun _ => 0) (fun _ => 0) 1024 (by decide)
  refine ⟨by decide, promptPort_answering, packet1kSize + packetOverhead, ?_, Nat.le_refl _⟩
  rwa [Nat.zero_add] at stored

end CosmosPC
