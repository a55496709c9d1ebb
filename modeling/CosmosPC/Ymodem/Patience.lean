import CosmosPC.Ymodem.Turns

/-! # How long a session takes

Every wait gives up after 20 rounds of `NAK_TIMEOUT` reads. A port that takes
something of every write has taken a frame after as many writes as it has bytes.
A stretch adds up what its parts may take. -/

namespace CosmosPC

open PortEvent

def waitReads : Nat := 20 * nakTimeout

def longestFrame : Nat := packet1kSize + packetOverhead

def Frugal (events : List PortEvent) : Prop := events.countP isWrite ≤ (sentBytes events).length

/-- A stretch that makes at most so many reads. With a port that takes something
of every write, it makes no write in vain and comes to its end. -/
structure Patient (port : Port) (fuel reads : Nat) (uart : Uart) (outcome : Flow × Sending) :
    Prop where
  spent : ∃ events, outcome.2.uart = uart.after events ∧ events.countP isRead ≤ reads ∧
    (port.Taking → Frugal events)
  ends : port.Taking → longestFrame ≤ fuel → outcome.1 ≠ .running

theorem Frugal.append {first second : List PortEvent} (left : Frugal first)
    (right : Frugal second) : Frugal (first ++ second) := by
  unfold Frugal at left right ⊢
  rw [List.countP_append, sentBytes_append, List.length_append]
  omega

theorem frugal_write {requested : List UInt8} {accepted : Nat} (taken : 1 ≤ accepted)
    (some : requested ≠ []) : Frugal [.write requested accepted] := by
  have long := List.length_pos_iff.mpr some
  simp [Frugal, isWrite, sentBytes, outgoing]
  omega

theorem Listening.frugal {events : List PortEvent} (listening : Listening events) :
    Frugal events := by
  have none : events.countP isWrite = 0 := by
    apply List.countP_eq_zero.mpr
    intro event member
    have isRead := listening event member
    cases event <;> simp_all [PortEvent.isRead, isWrite]
  rw [Frugal, none]
  exact Nat.zero_le _

theorem Talking.countP_isRead {events : List PortEvent} (talking : Talking events) :
    events.countP isRead = 0 := by
  apply List.countP_eq_zero.mpr
  intro event member
  simp [talking event member]

variable {port : Port} {fuel reads more : Nat} {uart : Uart}

theorem Patient.andThen {outcome : Flow × Sending} {next : Sending → Flow × Sending}
    (first : Patient port fuel reads uart outcome)
    (later : ∀ sending, (∃ events, sending.uart = uart.after events) →
      Patient port fuel more sending.uart (next sending)) :
    Patient port fuel (reads + more) uart (andThen outcome next) := by
  rcases first with ⟨⟨events, ends, few, frugal⟩, stops⟩
  rcases andThen_cases outcome next with ⟨reached, rfl, goesOn⟩ | ⟨_, left⟩
  · dsimp only at ends
    rcases later reached ⟨events, ends⟩ with
      ⟨⟨further, furtherEnds, furtherFew, saves⟩, furtherStops⟩
    rw [goesOn]
    refine ⟨⟨events ++ further, ?_, ?_, fun taking => (frugal taking).append (saves taking)⟩,
      furtherStops⟩
    · rw [furtherEnds, ends, Uart.after_after]
    · rw [List.countP_append]
      exact Nat.add_le_add few furtherFew
  · rw [left]
    exact ⟨⟨events, ends, Nat.le_trans few (Nat.le_add_right _ _), frugal⟩, stops⟩

theorem Patient.weaken {outcome : Flow × Sending} (patient : Patient port fuel reads uart outcome)
    (within : reads ≤ more) : Patient port fuel more uart outcome := by
  rcases patient with ⟨⟨events, ends, few, frugal⟩, stops⟩
  exact ⟨⟨events, ends, Nat.le_trans few within, frugal⟩, stops⟩

theorem Patient.after {outcome : Flow × Sending} {talk : List PortEvent}
    (patient : Patient port fuel reads (uart.after talk) outcome) (talking : Talking talk)
    (frugal : port.Taking → Frugal talk) : Patient port fuel reads uart outcome := by
  rcases patient with ⟨⟨events, ends, few, saves⟩, stops⟩
  refine ⟨⟨talk ++ events, ?_, ?_, fun taking => (frugal taking).append (saves taking)⟩, stops⟩
  · rw [ends, Uart.after_after]
  · rw [List.countP_append, talking.countP_isRead, Nat.zero_add]
    exact few

theorem patient_nothing {flow : Flow} (stops : flow ≠ .running) (sending : Sending) :
    Patient port fuel 0 sending.uart (flow, sending) :=
  ⟨⟨[], by simp, Nat.le_refl _, fun _ => Nat.le_refl _⟩, fun _ _ => stops⟩

/-! ## The stretches -/

variable (port fuel)

theorem patient_waitOrReturn (ch : UInt8) (sending : Sending) (isOpen : sending.uart.Open) :
    Patient port fuel waitReads sending.uart (waitOrReturn port ch sending) := by
  have count := length_awaitEvents nakTimeout 20 (oneByteInput port sending.uart.log)
  rw [waitOrReturn, ymodemWaitForChar, waitForCharLoop_events port ch 20 _ isOpen rfl]
  generalize awaitEvents nakTimeout 20 (oneByteInput port sending.uart.log) = events at count ⊢
  have spent : ∃ reads, sending.uart.after ((pollsOf (through ch events)).map readOf) =
      sending.uart.after reads ∧ reads.countP isRead ≤ waitReads ∧
      (port.Taking → Frugal reads) := by
    refine ⟨_, rfl, ?_, fun _ => (listening_reads _).frugal⟩
    have few := length_pollsOf_le (through ch events)
    have part := length_through_le ch events
    rw [count] at part
    refine Nat.le_trans List.countP_le_length ?_
    rw [List.length_map]
    exact Nat.le_trans few (Nat.mul_le_mul_right nakTimeout part)
  cases decide (∃ event ∈ events, event.value? = some ch) with
  | false => exact ⟨spent, fun _ _ => by simp⟩
  | true => exact ⟨spent, fun _ _ => by simp⟩

theorem sendPacketLoop_patient (length index : Nat) (sending : Sending) (isOpen : sending.uart.Open)
    (short : length < 2 ^ 16) (started : index ≤ length) :
    ∃ writes, (ymodemSendPacketLoop port length fuel index sending).2.uart =
        sending.uart.after writes ∧ Talking writes ∧ (port.Taking → Frugal writes) ∧
      (port.Taking → length - index ≤ fuel →
        (ymodemSendPacketLoop port length fuel index sending).1 = true) := by
  induction fuel generalizing index sending with
  | zero =>
      rw [ymodemSendPacketLoop]
      refine ⟨[], ?_, talking_nil, fun _ => Nat.le_refl _, fun _ done => ?_⟩
      · split <;> simp
      · rw [if_neg (by omega)]
  | succ fuel induction =>
      rw [ymodemSendPacketLoop]
      by_cases unfinished : index < length
      · rw [if_pos unfinished, sending.uart.uartWrite_open port _ index (length - index) isOpen]
        generalize accepts : min (port.accepts sending.uart.log
          (sending.packetData.bytes index (length - index))) (length - index) = accepted
        have within : accepted ≤ length - index := accepts ▸ Nat.min_le_right _ _
        have next : (index + accepted % 2 ^ 16) % 2 ^ 16 = index + accepted := by
          rw [Nat.mod_eq_of_lt (by omega), Nat.mod_eq_of_lt (by omega)]
        have some : sending.packetData.bytes index (length - index) ≠ [] := by
          apply List.length_pos_iff.mp
          rw [Memory.length_bytes]
          omega
        have taken (taking : port.Taking) : 1 ≤ accepted := by
          have least := taking sending.uart.log _ some
          rw [← accepts]
          exact Nat.le_min.mpr ⟨least, by omega⟩
        dsimp only
        rw [next]
        rcases induction (index + accepted)
          ⟨sending.packetData.store (index + (length - index)) 0,
            sending.uart.note (.write (sending.packetData.bytes index (length - index)) accepted)⟩
          (isOpen.after _) (by omega) with ⟨writes, ends, talking, frugal, stops⟩
        refine ⟨.write (sending.packetData.bytes index (length - index)) accepted :: writes, ?_, ?_,
          fun taking => ?_, fun taking enough => ?_⟩
        · rw [ends, Uart.note, Uart.after_after]
          rfl
        · intro event member
          rcases List.mem_cons.mp member with rfl | later
          · rfl
          · exact talking event later
        · exact (frugal_write (taken taking) some).append (frugal taking)
        · have one := taken taking
          exact stops taking (by omega)
      · rw [if_neg unfinished]
        exact ⟨[], by simp, talking_nil, fun _ => Nat.le_refl _, fun _ _ => rfl⟩

theorem patient_sendPacket (site : PacketSite) (length : Nat) (sending : Sending)
    (isOpen : sending.uart.Open) (short : length ≤ longestFrame) :
    Patient port fuel 0 sending.uart
      (packetFlow (ymodemSendPacket port fuel site length sending)) := by
  have small : longestFrame < 2 ^ 16 := by decide
  rcases sendPacketLoop_patient port fuel length 0
    { sending with
      uart := sending.uart.note (.packet site (sending.packetData.bytes 0 length)) }
    (isOpen.after _) (Nat.lt_of_le_of_lt short small) (Nat.zero_le _) with
    ⟨writes, ends, talking, frugal, stops⟩
  have noted : Frugal [.packet site (sending.packetData.bytes 0 length)] := Nat.zero_le _
  refine ⟨⟨[.packet site (sending.packetData.bytes 0 length)] ++ writes, ?_, ?_,
    fun taking => noted.append (frugal taking)⟩, fun taking enough => ?_⟩
  · rw [packetFlow, ymodemSendPacket, ends, Uart.note, Uart.after_after]
  · rw [List.countP_append, talking.countP_isRead]
    exact Nat.le_refl 0
  · rw [packetFlow, ymodemSendPacket, stops taking (by omega)]
    simp

theorem patient_sendPacketAndWait (site : PacketSite) (length : Nat) (sending : Sending)
    (isOpen : sending.uart.Open) (short : length ≤ longestFrame) :
    Patient port fuel waitReads sending.uart
      (sendPacketAndWait port fuel site length sending) := by
  rw [sendPacketAndWait_eq, ← Nat.zero_add waitReads]
  have packet := patient_sendPacket port fuel site length sending isOpen short
  exact packet.andThen fun sent ⟨events, ends⟩ =>
    patient_waitOrReturn port fuel ack sent (ends ▸ isOpen.after events)

theorem patient_sendHeader (filename : Nat → UInt8) (sizeFile : Nat) (stray : List UInt8)
    (sending : Sending) (isOpen : sending.uart.Open) :
    Patient port fuel (waitReads + waitReads) sending.uart
      (sendHeader port fuel filename sizeFile stray sending) := by
  rw [sendHeader_eq]
  have packet := patient_sendPacketAndWait port fuel .header
    (packetSize + packetHeader + 2)
    { sending with
      packetData := storeCheckBytes
        (ymodemPrepareIntialPacket sending.packetData filename sizeFile stray) packetSize }
    isOpen (by decide)
  exact packet.andThen fun answered ⟨events, ends⟩ =>
    patient_waitOrReturn port fuel crc16 answered (ends ▸ isOpen.after events)

theorem patient_sendBlock (buf : Nat → UInt8) (offset size blkNumber : Nat)
    (sending : Sending) (isOpen : sending.uart.Open) :
    Patient port fuel waitReads sending.uart
      (sendBlock port fuel buf offset size blkNumber sending) := by
  have short : payloadSize size + packetHeader + 2 ≤ longestFrame := by
    unfold payloadSize
    split <;> decide
  dsimp only [sendBlock]
  generalize storeCheckBytes _ (payloadSize size) = data
  exact patient_sendPacketAndWait port fuel .data _ ⟨data, sending.uart⟩ isOpen short

theorem patient_sendBlocks (buf : Nat → UInt8) (sizeFile index : Nat) (sending : Sending)
    (isOpen : sending.uart.Open) (counted : index < userFlashSize / 1024) :
    Patient port fuel (waitReads * (min (blockCount sizeFile) (userFlashSize / 1024) - index))
      sending.uart
      (sendBlocks port fuel buf (blockStart sizeFile index)
        (sizeFile - blockStart sizeFile index) (index + 1) sending) := by
  generalize left_eq : blockCount sizeFile - index = left
  induction left generalizing index sending with
  | zero =>
      rw [sendBlocks_finished _ _ _ _ _ _ _ (by omega)]
      exact (patient_nothing (by simp) sending).weaken (Nat.zero_le _)
  | succ left induction =>
      have within : index < blockCount sizeFile := by omega
      have turns : waitReads * (min (blockCount sizeFile) (userFlashSize / 1024) - index) =
          waitReads + waitReads *
            (min (blockCount sizeFile) (userFlashSize / 1024) - (index + 1)) := by
        rw [Nat.add_comm, ← Nat.mul_succ]
        congr 1
        omega
      rw [sendBlocks_turn port fuel sending buf sizeFile index within counted, turns]
      have block := patient_sendBlock port fuel buf (blockStart sizeFile index)
        (sizeFile - blockStart sizeFile index) (index + 1) sending isOpen
      refine block.andThen fun sent ⟨events, ends⟩ => ?_
      by_cases goesOn : index + 1 < blockCount sizeFile
      · rw [if_pos goesOn]
        by_cases limit : index + 1 = userFlashSize / 1024
        · rw [if_pos limit]
          exact (patient_nothing (by simp) sent).weaken (Nat.zero_le _)
        · rw [if_neg limit]
          exact induction (index + 1) sent (ends ▸ isOpen.after events) (by omega) (by omega)
      · rw [if_neg goesOn]
        exact (patient_nothing (by simp) sent).weaken (Nat.zero_le _)

theorem sendByte_frugal (c : UInt8) (isOpen : uart.Open) :
    ∃ writes, sendByte port c uart = uart.after writes ∧ Talking writes ∧
      (port.Taking → Frugal writes) := by
  rcases sendByte_writes port c uart isOpen with ⟨writes, ends, writing, _⟩
  refine ⟨writes, ends, writing.talking, fun taking => ?_⟩
  have same : uart.after writes = uart.after [.write [c] 1] :=
    ends.symm.trans (sendByte_taking taking c isOpen)
  have events : writes = [.write [c] 1] := by simpa [Uart.after] using same
  rw [events]
  exact frugal_write (Nat.le_refl 1) (by simp)

theorem patient_sendClosing (sending : Sending) (isOpen : sending.uart.Open) :
    Patient port fuel waitReads sending.uart (sendClosing port fuel sending) := by
  rw [sendClosing_eq, ← Nat.zero_add waitReads]
  have packet := patient_sendPacket port fuel .closing (packetSize + packetHeader)
    { sending with packetData := closingPacket sending.packetData } isOpen (by decide)
  refine packet.andThen fun sent ⟨events, ends⟩ => ?_
  have open₁ : sent.uart.Open := ends ▸ isOpen.after events
  dsimp only
  generalize calCRC16 (sent.packetData.bytes packetHeader packetSize) = tempCRC
  rcases sendByte_frugal port (crcHigh tempCRC) open₁ with ⟨high, highEnds, highTalking, highFrugal⟩
  rcases sendByte_frugal port (crcLow tempCRC) (open₁.after high) with
    ⟨low, lowEnds, lowTalking, lowFrugal⟩
  rw [highEnds, lowEnds]
  have waits := patient_waitOrReturn port fuel ack
    { sent with uart := (sent.uart.after high).after low } ((open₁.after high).after low)
  exact (waits.after lowTalking lowFrugal).after highTalking highFrugal

theorem patient_sendEnd (sending : Sending) (isOpen : sending.uart.Open) :
    Patient port fuel (waitReads + waitReads) sending.uart (sendEnd port fuel sending) := by
  rw [sendEnd_eq]
  rcases sendByte_frugal port eot isOpen with ⟨writes, ends, talking, frugal⟩
  rw [ends]
  have waits := patient_waitOrReturn port fuel ack
    { sending with uart := sending.uart.after writes } (isOpen.after writes)
  have bye := waits.after talking frugal
  refine bye.andThen fun answered ⟨events, answers⟩ => ?_
  have open₁ : answered.uart.Open := answers ▸ isOpen.after events
  rw [← Nat.add_zero waitReads]
  exact (patient_sendClosing port fuel answered open₁).andThen fun done _ =>
    patient_nothing (by simp) done

theorem patient_transmit (locals : Locals) (buf sendFileName : Nat → UInt8) (sizeFile : Nat)
    (isOpen : uart.Open) :
    Patient port fuel
      (waitReads * (min (blockCount sizeFile) (userFlashSize / 1024) + 4)) uart
      (ymodemTransmit port fuel locals buf sendFileName sizeFile uart) := by
  have waits : waitReads * (min (blockCount sizeFile) (userFlashSize / 1024) + 4) =
      waitReads + waitReads + (waitReads * (min (blockCount sizeFile) (userFlashSize / 1024)) +
        (waitReads + waitReads)) := by
    rw [Nat.mul_add]
    omega
  rw [ymodemTransmit_eq, waits]
  have header := patient_sendHeader port fuel (copiedName locals sendFileName) sizeFile
    locals.stray ⟨locals.packetData, uart⟩ isOpen
  refine header.andThen fun headed ⟨events, ends⟩ => ?_
  have open₁ : headed.uart.Open := ends ▸ isOpen.after events
  have blocks := patient_sendBlocks port fuel buf sizeFile 0 headed open₁
    (by decide)
  rw [blockStart_zero, Nat.sub_zero, Nat.sub_zero] at blocks
  exact blocks.andThen fun filed ⟨more, further⟩ =>
    patient_sendEnd port fuel filed (further ▸ open₁.after more)

/-! ## What a session puts on the cable -/

/-- The bytes of a header, of the blocks, of an `EOT` and of a closing frame. -/
def wireLength (sizeFile : Nat) : Nat :=
  packetSize + packetOverhead +
    (blockStart sizeFile (blockCount sizeFile) + packetOverhead * blockCount sizeFile) + 1 +
      (packetSize + packetOverhead)

theorem length_canonicalFrame (image : List UInt8) (index : Nat) :
    (canonicalFrame image index).length = blockSize image.length index + packetOverhead := by
  rw [canonicalFrame, length_encodeFrame, canonicalPayload, length_payloadOf]

theorem length_flatten_frames (image : List UInt8) (count : Nat) :
    ((List.range count).map (canonicalFrame image)).flatten.length =
      blockStart image.length count + packetOverhead * count := by
  induction count with
  | zero => simp [blockStart_zero]
  | succ count induction =>
      rw [List.range_succ, List.map_append, List.flatten_append, List.length_append, induction,
        blockStart_succ, Nat.mul_succ]
      simp only [List.map_cons, List.map_nil, List.flatten_cons, List.flatten_nil, List.append_nil,
        length_canonicalFrame]
      omega

theorem Given.length_le {byte : UInt8} {bytes : List UInt8} (given : Given port byte bytes) :
    bytes.length ≤ 1 := by
  rcases given with rfl | ⟨rfl, _⟩ <;> simp

theorem EndGiven.length_le {ending : List (List UInt8)} (given : EndGiven port ending) :
    ending.flatten.length ≤ 1 + (packetSize + packetOverhead) := by
  rcases given with ⟨farewell, _, rfl, said, high, low, rfl, first, second⟩
  have body : closingBody.length = packetHeader + packetSize := by
    rw [closingBody, List.length_append, List.length_replicate]
    rfl
  have one := said.length_le
  have two := first.length_le
  have three := second.length_le
  simp only [List.flatten_cons, List.flatten_nil, List.append_nil, List.length_append, body]
  unfold packetOverhead packetHeader packetTrailer at *
  omega

theorem transmit_sends_at_most (locals : Locals) (buf sendFileName : Nat → UInt8)
    (sizeFile : Nat) (isOpen : uart.Open) :
    ∃ events, (ymodemTransmit port fuel locals buf sendFileName sizeFile uart).2.uart =
      uart.after events ∧ (sentBytes events).length ≤ wireLength sizeFile := by
  rcases transmit_turns port fuel locals buf sendFileName sizeFile isOpen with
    ⟨ending, given, events, ends, part, _⟩
  refine ⟨events, ends, Nat.le_trans part.sentBytes.length_le ?_⟩
  have header : (headerFrame locals.packetData (copiedName locals sendFileName) sizeFile
      locals.stray).length = packetSize + packetOverhead := Memory.length_bytes _ _ _
  have blocks := length_flatten_frames (imageOf buf sizeFile) (blockCount sizeFile)
  have last := given.length_le
  rw [length_imageOf] at blocks
  rw [List.flatten_append, List.flatten_append, List.length_append, List.length_append,
    List.flatten_singleton, header, canonicalFrames, length_imageOf, blocks, wireLength]
  omega

end CosmosPC
