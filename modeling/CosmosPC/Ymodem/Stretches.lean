import CosmosPC.Ymodem.Session

/-! # Stretches of a session

`Ymodem_Transmit` as a sequence of stretches, each of which runs if the one
before it has gone on to the next. What all of them keep, a session keeps. -/

namespace CosmosPC

def andThen (first : Flow × Sending) (next : Sending → Flow × Sending) : Flow × Sending :=
  match first with
  | (.next, sending) => next sending
  | left => left

@[simp] theorem andThen_next (sending : Sending) (next : Sending → Flow × Sending) :
    andThen (.next, sending) next = next sending := rfl

theorem andThen_of_left {flow : Flow} (left : flow ≠ .next) (sending : Sending)
    (next : Sending → Flow × Sending) : andThen (flow, sending) next = (flow, sending) := by
  cases flow with
  | next => exact absurd rfl left
  | running => rfl
  | returned value => rfl

theorem andThen_cases (first : Flow × Sending) (next : Sending → Flow × Sending) :
    (∃ sending, first = (.next, sending) ∧ andThen first next = next sending) ∨
      first.1 ≠ .next ∧ andThen first next = first := by
  rcases first with ⟨flow, sending⟩
  by_cases goesOn : flow = .next
  · subst goesOn
    exact Or.inl ⟨sending, rfl, rfl⟩
  · exact Or.inr ⟨goesOn, andThen_of_left goesOn sending next⟩

theorem andThen_keeps (holds : Sending → Prop) {first : Flow × Sending}
    {next : Sending → Flow × Sending} (begins : holds first.2)
    (keeps : ∀ sending, holds sending → holds (next sending).2) :
    holds (andThen first next).2 := by
  rcases first with ⟨flow, sending⟩
  cases flow with
  | next => exact keeps sending begins
  | running => exact begins
  | returned value => exact begins

def packetFlow (outcome : Bool × Sending) : Flow × Sending :=
  (if outcome.1 then .next else .running, outcome.2)

variable (port : Port) (fuel : Nat)

theorem sendPacketAndWait_eq (site : PacketSite) (length : Nat) (sending : Sending) :
    sendPacketAndWait port fuel site length sending =
      andThen (packetFlow (ymodemSendPacket port fuel site length sending))
        (waitOrReturn port ack) := by
  rw [sendPacketAndWait]
  rcases ymodemSendPacket port fuel site length sending with ⟨finished, result⟩
  cases finished <;> rfl

theorem sendHeader_eq (filename : Nat → UInt8) (sizeFile : Nat) (stray : List UInt8)
    (sending : Sending) :
    sendHeader port fuel filename sizeFile stray sending =
      andThen (sendPacketAndWait port fuel .header (packetSize + packetHeader + 2)
        { sending with
          packetData := storeCheckBytes
            (ymodemPrepareIntialPacket sending.packetData filename sizeFile stray) packetSize })
        (waitOrReturn port crc16) := by
  rw [sendHeader]
  generalize sendPacketAndWait port fuel .header (packetSize + packetHeader + 2) _ = outcome
  rcases outcome with ⟨_ | _ | _, _⟩ <;> rfl

theorem sendBlocks_eq (buf : Nat → UInt8) (offset size blkNumber : Nat) (sending : Sending)
    (unfinished : size ≠ 0) :
    sendBlocks port fuel buf offset size blkNumber sending =
      andThen (sendBlock port fuel buf offset size blkNumber sending) fun sending =>
        if size > payloadSize size then
          if blkNumber = userFlashSize / 1024 then (.returned 0xFF, sending)
          else
            sendBlocks port fuel buf (offset + payloadSize size) (size - payloadSize size)
              ((blkNumber + 1) % 2 ^ 16) sending
        else (.next, sending) := by
  rw [sendBlocks, if_neg unfinished]
  generalize sendBlock port fuel buf offset size blkNumber sending = outcome
  rcases outcome with ⟨_ | _ | _, _⟩ <;> rfl

theorem sendClosing_eq (sending : Sending) :
    sendClosing port fuel sending =
      andThen (packetFlow (ymodemSendPacket port fuel .closing (packetSize + packetHeader)
        { sending with packetData := closingPacket sending.packetData })) fun sending =>
          let tempCRC := calCRC16 (sending.packetData.bytes packetHeader packetSize)
          waitOrReturn port ack
            { sending with
              uart := sendByte port (crcLow tempCRC)
                (sendByte port (crcHigh tempCRC) sending.uart) } := by
  rw [sendClosing]
  generalize ymodemSendPacket port fuel .closing (packetSize + packetHeader) _ = outcome
  rcases outcome with ⟨finished, result⟩
  cases finished <;> rfl

theorem sendEnd_eq (sending : Sending) :
    sendEnd port fuel sending =
      andThen (waitOrReturn port ack { sending with uart := sendByte port eot sending.uart })
        fun sending => andThen (sendClosing port fuel sending) fun sending =>
          (.returned 0, sending) := by
  rw [sendEnd]
  generalize waitOrReturn port ack _ = outcome
  rcases outcome with ⟨_ | _ | _, result⟩ <;> rfl

def copiedName (locals : Locals) (sendFileName : Nat → UInt8) (index : Nat) : UInt8 :=
  if index < fileNameLength - 1 then sendFileName index else locals.filename index

theorem ymodemTransmit_eq (locals : Locals) (buf sendFileName : Nat → UInt8) (sizeFile : Nat)
    (uart : Uart) :
    ymodemTransmit port fuel locals buf sendFileName sizeFile uart =
      andThen (sendHeader port fuel (copiedName locals sendFileName) sizeFile locals.stray
          ⟨locals.packetData, uart⟩) fun sending =>
        andThen (sendBlocks port fuel buf 0 sizeFile 1 sending) (sendEnd port fuel) := by
  have name : (fun index => if index < fileNameLength - 1 then sendFileName index
      else locals.filename index) = copiedName locals sendFileName := rfl
  rw [ymodemTransmit, name]
  generalize sendHeader port fuel (copiedName locals sendFileName) sizeFile locals.stray
    ⟨locals.packetData, uart⟩ = outcome
  rcases outcome with ⟨_ | _ | _, result⟩ <;> rfl

/-! ## What a session appends -/

def Longer (uart : Uart) (sending : Sending) : Prop := ∃ events, sending.uart = uart.after events

theorem Longer.isOpen {uart : Uart} {sending : Sending} (longer : Longer uart sending)
    (isOpen : uart.Open) : sending.uart.Open := by
  rcases longer with ⟨events, ends⟩
  rw [ends]
  exact isOpen.after events

theorem Longer.trans {uart : Uart} {sending last : Sending} (earlier : Longer uart sending)
    (later : Longer sending.uart last) : Longer uart last := by
  rcases earlier with ⟨events, ends⟩
  rcases later with ⟨more, moreEnds⟩
  exact ⟨events ++ more, by rw [moreEnds, ends, Uart.after_after]⟩

theorem longer_waitOrReturn (ch : UInt8) (sending : Sending) (isOpen : sending.uart.Open) :
    Longer sending.uart (waitOrReturn port ch sending).2 := by
  rcases waitOrReturn_listens port ch sending isOpen with ⟨reads, heard, _⟩
  exact ⟨reads, heard⟩

theorem longer_sendBlocks (buf : Nat → UInt8) (sizeFile : Nat) (sending : Sending)
    (isOpen : sending.uart.Open) :
    Longer sending.uart (sendBlocks port fuel buf 0 sizeFile 1 sending).2 := by
  have blocks := sendBlocks_frames port fuel buf sizeFile 0 sending isOpen (by decide)
  rw [blockStart_zero, Nat.sub_zero] at blocks
  rcases blocks with ⟨events, ends, _⟩
  exact ⟨events, ends⟩

theorem longer_sendEnd (sending : Sending) (isOpen : sending.uart.Open) :
    Longer sending.uart (sendEnd port fuel sending).2 := by
  rcases sendEnd_rounds port fuel sending isOpen with ⟨events, ends, _⟩
  exact ⟨events, ends⟩

theorem sendHeader_first (filename : Nat → UInt8) (sizeFile : Nat) (stray : List UInt8)
    (sending : Sending) (isOpen : sending.uart.Open) :
    Longer (sending.uart.note
        (.packet .header (headerFrame sending.packetData filename sizeFile stray)))
      (sendHeader port fuel filename sizeFile stray sending).2 := by
  rw [sendHeader_eq]
  have small : packetSize + packetHeader + 2 < 2 ^ 16 := by decide
  rcases sendPacketAndWait_round port fuel .header (packetSize + packetHeader + 2)
      { sending with
        packetData := storeCheckBytes
          (ymodemPrepareIntialPacket sending.packetData filename sizeFile stray) packetSize }
      isOpen small with ⟨events, ends, _, _, _⟩
  apply andThen_keeps
  · refine ⟨events, ?_⟩
    rw [ends, Uart.note, Uart.after_after]
    rfl
  · intro answered longer
    exact longer.trans (longer_waitOrReturn port crc16 answered (longer.isOpen (isOpen.after _)))

theorem transmit_first (locals : Locals) (buf sendFileName : Nat → UInt8) (sizeFile : Nat)
    (uart : Uart) (isOpen : uart.Open) :
    Longer (uart.note (.packet .header (headerFrame locals.packetData
        (copiedName locals sendFileName) sizeFile locals.stray)))
      (ymodemTransmit port fuel locals buf sendFileName sizeFile uart).2 := by
  rw [ymodemTransmit_eq]
  apply andThen_keeps
  · exact sendHeader_first port fuel (copiedName locals sendFileName) sizeFile locals.stray
      ⟨locals.packetData, uart⟩ isOpen
  · intro headed longer
    have open₁ := longer.isOpen (isOpen.after _)
    apply andThen_keeps
    · exact longer.trans (longer_sendBlocks port fuel buf sizeFile headed open₁)
    · intro filed further
      exact further.trans (longer_sendEnd port fuel filed (further.isOpen (isOpen.after _)))

end CosmosPC
