import CosmosPC.Ymodem.Encoding

/-! # A whole session

The header, the blocks and the end of `Ymodem_Transmit` put together: what any
run of it leaves in the history, and the rounds that make up a run that returns
zero. -/

namespace CosmosPC

open PortEvent

def headerFrame (data : Memory) (filename : Nat → UInt8) (sizeFile : Nat)
    (stray : List UInt8) : List UInt8 :=
  (storeCheckBytes (ymodemPrepareIntialPacket data filename sizeFile stray) packetSize).bytes 0
    (packetSize + packetOverhead)

theorem sendHeader_round (port : Port) (fuel : Nat) (filename : Nat → UInt8) (sizeFile : Nat)
    (stray : List UInt8) (sending : Sending) (isOpen : sending.uart.Open) :
    let frame := headerFrame sending.packetData filename sizeFile stray
    let outcome := sendHeader port fuel filename sizeFile stray sending
    ∃ events, outcome.2.uart = sending.uart.after events ∧ dataFrames events = [] ∧
      (outcome.1 = .next → Round frame events) ∧
      ∀ value, outcome.1 = .returned value → value = 0xFF := by
  intro frame outcome
  have small : packetSize + packetHeader + 2 < 2 ^ 16 := by decide
  rcases sendPacketAndWait_round port fuel .header (packetSize + packetHeader + 2)
      { sending with
        packetData := storeCheckBytes
          (ymodemPrepareIntialPacket sending.packetData filename sizeFile stray) packetSize }
      isOpen small with ⟨events, ends, quiet, answered, failed⟩
  change _ = sending.uart.after (.packet .header frame :: events) at ends
  change _ → Round frame (.packet .header frame :: events) at answered
  have silent : dataFrames (.packet .header frame :: events) = [] := quiet
  dsimp only [outcome, sendHeader]
  generalize sendPacketAndWait port fuel .header (packetSize + packetHeader + 2) _ = waited
    at ends answered failed ⊢
  rcases waited with ⟨flow, result⟩
  cases flow with
  | running => exact ⟨_, ends, silent, by simp, by simp⟩
  | returned value => exact ⟨_, ends, silent, by simp, failed⟩
  | next =>
      dsimp only at ends ⊢
      have stillOpen : result.uart.Open := by
        rw [ends]
        exact isOpen.after _
      rcases waitOrReturn_listens port crc16 result stillOpen with
        ⟨reads, heard, listening, _, _, left⟩
      refine ⟨(.packet .header frame :: events) ++ reads, ?_, ?_, fun _ => ?_,
        fun value returned => ?_⟩
      · rw [heard, ends, Uart.after_after]
      · rw [dataFrames_append, silent, listening.dataFrames_nil, List.append_nil]
      · exact (answered rfl).listen listening
      · simpa [returned] using left

theorem sendClosing_round (port : Port) (fuel : Nat) (sending : Sending)
    (isOpen : sending.uart.Open) :
    let outcome := sendClosing port fuel sending
    ∃ events, outcome.2.uart = sending.uart.after events ∧ dataFrames events = [] ∧
      (outcome.1 = .next → ∃ frame, Round frame events) ∧
      ∀ value, outcome.1 = .returned value → value = 0xFF := by
  dsimp only
  unfold sendClosing
  generalize closingPacket sending.packetData = data
  have small : packetSize + packetHeader < 2 ^ 16 := by decide
  rcases sendPacket_writes port fuel .closing (packetSize + packetHeader)
      { sending with packetData := data } isOpen small with
    ⟨writes, ends, writing, _, _⟩
  generalize ymodemSendPacket port fuel .closing (packetSize + packetHeader)
    { sending with packetData := data } = outcome at ends ⊢
  rcases outcome with ⟨finished, result⟩
  have silent : dataFrames (.packet .closing (data.bytes 0 (packetSize + packetHeader)) ::
      writes) = [] := writing.dataFrames_nil
  cases finished with
  | false => exact ⟨_, ends, silent, by simp, by simp⟩
  | true =>
      dsimp only at ends ⊢
      have open₁ : result.uart.Open := by
        rw [ends]
        exact isOpen.after _
      generalize calCRC16 (result.packetData.bytes packetHeader packetSize) = tempCRC
      rcases sendByte_writes port (crcHigh tempCRC) result.uart open₁ with
        ⟨high, highEnds, highWriting, _⟩
      rcases sendByte_writes port (crcLow tempCRC) (result.uart.after high) (open₁.after high)
        with ⟨low, lowEnds, lowWriting, _⟩
      rw [highEnds, lowEnds]
      rcases waitOrReturn_listens port ack
          { result with uart := (result.uart.after high).after low }
          ((open₁.after high).after low) with
        ⟨reads, heard, listening, nonempty, found, left⟩
      have allWriting := (writing.append highWriting).append lowWriting
      refine ⟨(.packet .closing (data.bytes 0 (packetSize + packetHeader)) ::
          (writes ++ high ++ low)) ++ reads, ?_, ?_, fun success => ?_, fun value returned => ?_⟩
      · rw [heard, ends]
        simp
      · rw [dataFrames_append, listening.dataFrames_nil, List.append_nil]
        exact allWriting.dataFrames_nil
      · exact ⟨_, _, _, rfl, talking_packet allWriting _ _, rfl, listening, nonempty,
          found success⟩
      · rw [returned] at left
        simpa using left

theorem sendEnd_rounds (port : Port) (fuel : Nat) (sending : Sending)
    (isOpen : sending.uart.Open) :
    let outcome := sendEnd port fuel sending
    ∃ events, outcome.2.uart = sending.uart.after events ∧ dataFrames events = [] ∧
      (outcome.1 = .returned 0 → ∃ farewell closing, Rounds [farewell, closing] events ∧
        (farewell = [eot] ∨ farewell = [])) := by
  dsimp only
  unfold sendEnd
  rcases sendByte_writes port eot sending.uart isOpen with ⟨writes, ends, writing, sent⟩
  rw [ends]
  rcases waitOrReturn_listens port ack { sending with uart := sending.uart.after writes }
    (isOpen.after writes) with ⟨reads, heard, listening, nonempty, found, left⟩
  have farewell : (waitOrReturn port ack
      { sending with uart := sending.uart.after writes }).1 = .next →
      Round (sentBytes writes) (writes ++ reads) :=
    fun success => ⟨writes, reads, rfl, writing.talking, rfl, listening, nonempty, found success⟩
  have silent : dataFrames (writes ++ reads) = [] := by
    rw [dataFrames_append, writing.dataFrames_nil, listening.dataFrames_nil, List.append_nil]
  generalize waitOrReturn port ack { sending with uart := sending.uart.after writes } = outcome
    at heard left farewell ⊢
  rcases outcome with ⟨flow, result⟩
  rw [Uart.after_after] at heard
  rcases left with left | left <;> simp only at left heard farewell <;> subst left
  · dsimp only
    have stillOpen : result.uart.Open := by
      rw [heard]
      exact isOpen.after _
    rcases sendClosing_round port fuel result stillOpen with
      ⟨events, closingEnds, closingSilent, closing, failed⟩
    generalize sendClosing port fuel result = outcome at closingEnds closing failed ⊢
    rcases outcome with ⟨flow, last⟩
    simp only at closingEnds closing failed
    rw [heard, Uart.after_after] at closingEnds
    have allSilent : dataFrames ((writes ++ reads) ++ events) = [] := by
      rw [dataFrames_append, silent, closingSilent, List.append_nil]
    cases flow with
    | running => exact ⟨_, closingEnds, allSilent, by simp⟩
    | returned value =>
        rw [failed value rfl]
        exact ⟨_, closingEnds, allSilent, by simp⟩
    | next =>
        rcases closing rfl with ⟨frame, closed⟩
        exact ⟨_, closingEnds, allSilent,
          fun _ => ⟨_, frame, (farewell rfl).single.append closed.single, sent⟩⟩
  · exact ⟨writes ++ reads, heard, silent, by simp⟩

/-- Any run sends the first of the canonical frames. A run that returns zero
sends all of them, and everything it sends is answered: the header, the blocks,
what went out of the `EOT`, and what went out of the closing frame. -/
theorem transmit_history (port : Port) (fuel : Nat) (locals : Locals)
    (buf sendFileName : Nat → UInt8) (sizeFile : Nat) (uart : Uart) (isOpen : uart.Open) :
    let outcome := ymodemTransmit port fuel locals buf sendFileName sizeFile uart
    let frames := canonicalFrames (imageOf buf sizeFile)
    ∃ events, outcome.2.uart = uart.after events ∧ dataFrames events <+: frames ∧
      (outcome.1 = .returned 0 → dataFrames events = frames ∧ ∃ header farewell closing,
        Rounds ([header] ++ frames ++ [farewell, closing]) events ∧
          (farewell = [eot] ∨ farewell = [])) := by
  dsimp only
  unfold ymodemTransmit
  dsimp only
  generalize (fun index => if index < fileNameLength - 1 then sendFileName index
    else locals.filename index) = filename
  rcases sendHeader_round port fuel filename sizeFile locals.stray ⟨locals.packetData, uart⟩
    isOpen with ⟨first, ends, silent, answered, failed⟩
  generalize headerFrame locals.packetData filename sizeFile locals.stray = header at answered
  generalize sendHeader port fuel filename sizeFile locals.stray ⟨locals.packetData, uart⟩ =
    outcome at ends answered failed ⊢
  rcases outcome with ⟨flow, begun⟩
  cases flow with
  | running => exact ⟨first, ends, by simp [silent], by simp⟩
  | returned value =>
      rw [failed value rfl]
      exact ⟨first, ends, by simp [silent], by simp⟩
  | next =>
      dsimp only at ends ⊢
      have open₁ : begun.uart.Open := by
        rw [ends]
        exact isOpen.after first
      have blocks := sendBlocks_frames port fuel buf sizeFile 0 begun open₁ (by decide)
      rw [blockStart_zero, Nat.sub_zero, List.drop_zero] at blocks
      rcases blocks with ⟨middle, blocksEnd, sent, complete, blocksFailed⟩
      generalize sendBlocks port fuel buf 0 sizeFile (0 + 1) begun = outcome
        at blocksEnd sent complete blocksFailed ⊢
      rcases outcome with ⟨flow, filed⟩
      have history : filed.uart = uart.after (first ++ middle) := by
        rw [blocksEnd, ends, Uart.after_after]
      have sentSoFar : dataFrames (first ++ middle) <+: canonicalFrames (imageOf buf sizeFile) := by
        rw [dataFrames_append, silent, List.nil_append]
        exact sent
      cases flow with
      | running => exact ⟨first ++ middle, history, sentSoFar, by simp⟩
      | returned value =>
          rw [blocksFailed value rfl]
          exact ⟨first ++ middle, history, sentSoFar, by simp⟩
      | next =>
          dsimp only
          have open₂ : filed.uart.Open := by
            rw [history]
            exact isOpen.after _
          rcases complete rfl with ⟨rounds, all⟩
          rcases sendEnd_rounds port fuel filed open₂ with ⟨last, endEnds, endSilent, finish⟩
          have allFrames : dataFrames (first ++ middle ++ last) =
              canonicalFrames (imageOf buf sizeFile) := by
            rw [dataFrames_append, dataFrames_append, silent, endSilent, all, List.nil_append,
              List.append_nil]
          refine ⟨first ++ middle ++ last, ?_, ?_, fun success => ⟨allFrames, ?_⟩⟩
          · rw [endEnds, history, Uart.after_after]
          · exact allFrames ▸ List.prefix_rfl
          · rcases finish success with ⟨farewell, closing, ending, bye⟩
            exact ⟨header, farewell, closing,
              ((answered rfl).single.append rounds).append ending, bye⟩

/-- The data frames on the wire encode the image, whatever the receiver does:
they are the first of the canonical frames, which are fixed by the image alone.
Only the last canonical frame is padded, and the payloads sent so far, joined
and cut to size, are a beginning of the image. -/
theorem transmit_encodes_image (port : Port) (fuel : Nat) (locals : Locals)
    (buf sendFileName : Nat → UInt8) (sizeFile : Nat) :
    let frames := dataFrames
      (ymodemTransmit port fuel locals buf sendFileName sizeFile Uart.opened).2.uart.log
    let image := imageOf buf sizeFile
    frames <+: canonicalFrames image ∧
      (∀ otherLocals otherBuf, (∀ index, index < sizeFile → otherBuf index = buf index) →
        dataFrames (ymodemTransmit port fuel otherLocals otherBuf sendFileName sizeFile
          Uart.opened).2.uart.log <+: canonicalFrames image) ∧
      (canonicalFrames image).length =
        sizeFile / 1024 + (sizeFile % 1024 + 127) / 128 ∧
      (∀ index, index + 1 < (canonicalFrames image).length →
        canonicalPayload image index =
          (image.drop (blockStart sizeFile index)).take (blockSize sizeFile index)) ∧
      (frames.map framePayload).flatten.take sizeFile <+: image := by
  intro frames image
  have sent : ∀ (someLocals : Locals) (someBuf : Nat → UInt8),
      dataFrames (ymodemTransmit port fuel someLocals someBuf sendFileName sizeFile
        Uart.opened).2.uart.log <+: canonicalFrames (imageOf someBuf sizeFile) := by
    intro someLocals someBuf
    rcases transmit_history port fuel someLocals someBuf sendFileName sizeFile Uart.opened
      Uart.opened_open with ⟨events, ends, first, _⟩
    rw [ends]
    exact first
  refine ⟨sent locals buf, ?_, by simp [canonicalFrames, blockCount, image], ?_, ?_⟩
  · intro otherLocals otherBuf same
    have sameImage : imageOf otherBuf sizeFile = image :=
      List.map_congr_left fun index member => same index (List.mem_range.mp member)
    rw [← sameImage]
    exact sent otherLocals otherBuf
  · intro index earlier
    have slice := canonicalPayload_eq_slice image index (by simpa [canonicalFrames] using earlier)
    rw [slice, Slices.slice, blockStart_succ, Nat.add_sub_cancel_left, length_imageOf]
  · have payloads := payloads_of_prefix image frames (sent locals buf)
    rw [length_imageOf] at payloads
    rw [payloads]
    exact List.take_prefix _ _

end CosmosPC
