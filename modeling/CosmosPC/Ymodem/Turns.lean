import CosmosPC.Ymodem.Header

/-! # Where a session stands

The history of a session that may have been left at any point: some frames have
been answered, and of the next one a part is on the cable. The frames and their
order do not depend on what the port does, but for the bytes that `Send_Byte`
gives up. -/

namespace CosmosPC

open PortEvent

/-- Some of the frames have been answered, and the next one has not. The sender
listens when all of it is on the cable. -/
inductive Part : List (List UInt8) → List PortEvent → Prop
  | within {done more : List (List UInt8)} {next : List UInt8} {events talk listen : List PortEvent}
      (rounds : Rounds done events) (talking : Talking talk) (listening : Listening listen)
      (begins : sentBytes talk <+: next) (spoken : listen ≠ [] → sentBytes talk = next) :
      Part (done ++ next :: more) (events ++ (talk ++ listen))
  | whole {frames : List (List UInt8)} {events : List PortEvent} (rounds : Rounds frames events) :
      Part frames events

/-- A stretch has sent a part of its frames, and all of them when it ends as it should. -/
def Turns (goal : Flow) (frames : List (List UInt8)) (uart : Uart) (outcome : Flow × Sending) :
    Prop :=
  ∃ events, outcome.2.uart = uart.after events ∧ Part frames events ∧
    (outcome.1 = goal → Rounds frames events)

/-! ## Putting parts together -/

theorem Listening.sentBytes_nil {events : List PortEvent} (listening : Listening events) :
    sentBytes events = [] := by
  apply List.flatMap_eq_nil_iff.mpr
  intro event member
  have isRead := listening event member
  cases event <;> simp_all [outgoing, PortEvent.isRead]

theorem talking_nil : Talking [] := fun _ member => by cases member

theorem listening_nil : Listening [] := fun _ member => by cases member

theorem Rounds.sentBytes {frames : List (List UInt8)} {events : List PortEvent}
    (rounds : Rounds frames events) : sentBytes events = frames.flatten := by
  induction rounds with
  | nil => rfl
  | cons round _ induction =>
      rcases round with ⟨talk, listen, rfl, _, sent, listening, _⟩
      rw [sentBytes_append, sentBytes_append, sent, listening.sentBytes_nil, List.append_nil,
        induction, List.flatten_cons]

theorem Part.sentBytes {frames : List (List UInt8)} {events : List PortEvent}
    (part : Part frames events) : sentBytes events <+: frames.flatten := by
  cases part with
  | whole rounds => rw [rounds.sentBytes]
  | within rounds talking listening begins spoken =>
      rw [sentBytes_append, sentBytes_append, rounds.sentBytes, listening.sentBytes_nil,
        List.append_nil, List.flatten_append, List.flatten_cons]
      exact (List.prefix_append_right_inj _).mpr (begins.trans (List.prefix_append _ _))

theorem Part.more {frames : List (List UInt8)} {events : List PortEvent}
    (part : Part frames events) (more : List (List UInt8)) : Part (frames ++ more) events := by
  cases part with
  | within rounds talking listening begins spoken =>
      rw [List.append_assoc, List.cons_append]
      exact .within rounds talking listening begins spoken
  | whole rounds =>
      cases more with
      | nil =>
          rw [List.append_nil]
          exact .whole rounds
      | cons next more =>
          have still : Part (frames ++ next :: more) (events ++ ([] ++ [])) :=
            .within rounds talking_nil listening_nil List.nil_prefix fun some => absurd rfl some
          simpa using still

theorem Part.after {first second : List (List UInt8)} {events more : List PortEvent}
    (rounds : Rounds first events) (part : Part second more) :
    Part (first ++ second) (events ++ more) := by
  cases part with
  | whole later => exact .whole (rounds.append later)
  | within later talking listening begins spoken =>
      rw [← List.append_assoc, ← List.append_assoc]
      exact .within (rounds.append later) talking listening begins spoken

variable {goal : Flow} {frames first second : List (List UInt8)} {uart : Uart}

/-- One stretch after the other, some frames after the others. What the second one
sends may depend on the run, within what is allowed. -/
theorem Turns.andThen {outcome : Flow × Sending} {next : Sending → Flow × Sending}
    {allowed : List (List UInt8) → Prop} (earlier : Turns .next first uart outcome)
    (missed : outcome.1 ≠ .next → outcome.1 ≠ goal) (some : ∃ second, allowed second)
    (later : ∀ sending, (∃ events, sending.uart = uart.after events) →
      ∃ second, allowed second ∧ Turns goal second sending.uart (next sending)) :
    ∃ second, allowed second ∧ Turns goal (first ++ second) uart (andThen outcome next) := by
  rcases earlier with ⟨events, ends, part, whole⟩
  rcases andThen_cases outcome next with ⟨reached, rfl, goesOn⟩ | ⟨left, same⟩
  · rcases later reached ⟨events, ends⟩ with ⟨second, among, more, moreEnds, morePart, moreWhole⟩
    dsimp only at ends
    rw [goesOn]
    refine ⟨second, among, events ++ more, ?_, morePart.after (whole rfl), fun success => ?_⟩
    · rw [moreEnds, ends, Uart.after_after]
    · exact (whole rfl).append (moreWhole success)
  · rcases some with ⟨second, among⟩
    rw [same]
    exact ⟨second, among, events, ends, part.more second, fun success =>
      absurd success (missed left)⟩

theorem Turns.andThen_same {outcome : Flow × Sending} {next : Sending → Flow × Sending}
    (earlier : Turns .next first uart outcome) (missed : outcome.1 ≠ .next → outcome.1 ≠ goal)
    (later : ∀ sending, (∃ events, sending.uart = uart.after events) →
      Turns goal second sending.uart (next sending)) :
    Turns goal (first ++ second) uart (CosmosPC.andThen outcome next) := by
  rcases earlier.andThen missed ⟨second, rfl⟩ fun sending longer =>
    ⟨second, rfl, later sending longer⟩ with ⟨_, rfl, turns⟩
  exact turns

theorem turns_nothing (flow goal : Flow) (sending : Sending) (ends : flow = goal → frames = []) :
    Turns goal frames sending.uart (flow, sending) := by
  refine ⟨[], by simp, (Part.whole .nil).more frames, fun same => ?_⟩
  rw [ends same]
  exact .nil

/-! ## The stretches -/

variable (port : Port) (fuel : Nat) (sending : Sending)

theorem waitOrReturn_turns {frame : List UInt8} {talk : List PortEvent} (isOpen : uart.Open)
    (talking : Talking talk) (sent : sentBytes talk = frame)
    (spoken : sending.uart = uart.after talk) :
    Turns .next [frame] uart (waitOrReturn port ack sending) := by
  rcases waitOrReturn_listens port ack sending (spoken ▸ isOpen.after talk) with
    ⟨reads, heard, listening, nonempty, found, _⟩
  refine ⟨talk ++ reads, by rw [heard, spoken, Uart.after_after], ?_, fun success => ?_⟩
  · exact .within .nil talking listening (sent ▸ List.prefix_rfl) fun _ => sent
  · exact Round.single ⟨talk, reads, rfl, talking, sent, listening, nonempty, found success⟩

theorem waitOrReturn_ne_zero (ch : UInt8) (isOpen : sending.uart.Open) :
    (waitOrReturn port ch sending).1 ≠ .returned 0 := by
  rcases waitOrReturn_listens port ch sending isOpen with ⟨_, _, _, _, _, either⟩
  rcases either with goesOn | failed
  · simp [goesOn]
  · simp [failed]

theorem sendPacket_sent (site : PacketSite) (length : Nat) (isOpen : sending.uart.Open)
    (short : length < 2 ^ 16) :
    ∃ writes,
      (ymodemSendPacket port fuel site length sending).2.uart =
        sending.uart.after (.packet site (sending.packetData.bytes 0 length) :: writes) ∧
      Writing writes ∧ sentBytes writes <+: sending.packetData.bytes 0 length ∧
      ((ymodemSendPacket port fuel site length sending).1 = true →
        sentBytes writes = sending.packetData.bytes 0 length) := by
  have noted : (sending.uart.note (.packet site (sending.packetData.bytes 0 length))).Open :=
    isOpen.after _
  rcases sendPacketLoop_writes port length fuel 0
      { sending with
        uart := sending.uart.note (.packet site (sending.packetData.bytes 0 length)) }
      noted short (Nat.zero_le _) with ⟨writes, ends, writing, part, whole, _⟩
  refine ⟨writes, ?_, writing, part, whole⟩
  rw [ymodemSendPacket, ends, Uart.note, Uart.after_after]
  rfl

theorem sendPacketAndWait_turns (site : PacketSite) (length : Nat) (isOpen : sending.uart.Open)
    (short : length < 2 ^ 16) :
    Turns .next [sending.packetData.bytes 0 length] sending.uart
      (sendPacketAndWait port fuel site length sending) := by
  rcases sendPacket_sent port fuel sending site length isOpen short with
    ⟨writes, ends, writing, part, whole⟩
  have talking := talking_packet writing site (sending.packetData.bytes 0 length)
  rw [sendPacketAndWait]
  rcases outcome : ymodemSendPacket port fuel site length sending with ⟨finished, result⟩
  rw [outcome] at ends whole
  cases finished with
  | false =>
      refine ⟨_, ends, ?_, fun next => by cases next⟩
      have within : Part ([] ++ [sending.packetData.bytes 0 length]) ([] ++ (_ ++ [])) :=
        .within .nil talking listening_nil part fun some => absurd rfl some
      simpa using within
  | true => exact waitOrReturn_turns port result isOpen talking (whole rfl) ends

theorem Turns.listen {frame : List UInt8} {outcome : Flow × Sending} (ch : UInt8)
    (isOpen : uart.Open) (turns : Turns .next [frame] uart outcome) :
    Turns .next [frame] uart (CosmosPC.andThen outcome (waitOrReturn port ch)) := by
  rcases turns with ⟨events, ends, part, whole⟩
  rcases andThen_cases outcome (waitOrReturn port ch) with ⟨reached, rfl, goesOn⟩ | ⟨left, same⟩
  · dsimp only at ends
    rcases waitOrReturn_listens port ch reached (ends ▸ isOpen.after events) with
      ⟨reads, heard, listening, _⟩
    have still : Rounds [frame] (events ++ reads) := by
      cases whole rfl with
      | cons round none =>
          cases none
          rw [List.append_nil]
          exact (round.listen listening).single
    rw [goesOn]
    exact ⟨events ++ reads, by rw [heard, ends, Uart.after_after], .whole still, fun _ => still⟩
  · rw [same]
    exact ⟨events, ends, part, whole⟩

theorem sendHeader_turns (filename : Nat → UInt8) (sizeFile : Nat) (stray : List UInt8)
    (isOpen : sending.uart.Open) :
    Turns .next [headerFrame sending.packetData filename sizeFile stray] sending.uart
      (sendHeader port fuel filename sizeFile stray sending) := by
  rw [sendHeader_eq]
  exact (sendPacketAndWait_turns port fuel
    { sending with
      packetData := storeCheckBytes
        (ymodemPrepareIntialPacket sending.packetData filename sizeFile stray) packetSize }
    .header (packetSize + packetHeader + 2) isOpen (by decide)).listen port crc16 isOpen

theorem sendBlock_turns (buf : Nat → UInt8) (sizeFile index : Nat) (isOpen : sending.uart.Open)
    (within : index < blockCount sizeFile) :
    Turns .next [canonicalFrame (imageOf buf sizeFile) index] sending.uart
      (sendBlock port fuel buf (blockStart sizeFile index) (sizeFile - blockStart sizeFile index)
        (index + 1) sending) := by
  have laidOut := block_frame buf sending.packetData sizeFile index within
  have small : blockSize sizeFile index + packetOverhead < 2 ^ 16 := by
    unfold blockSize
    split <;> decide
  have packet := sendPacketAndWait_turns port fuel
    { sending with
      packetData := storeCheckBytes
        (ymodemPreparePacket (fun offset => buf (blockStart sizeFile index + offset))
          sending.packetData (UInt8.ofNat (index + 1)) (sizeFile - blockStart sizeFile index))
        (blockSize sizeFile index) }
    .data (blockSize sizeFile index + packetOverhead) isOpen small
  rw [laidOut] at packet
  simp only [sendBlock, payloadSize_remaining sizeFile index within]
  exact packet

theorem sendBlocks_turn (buf : Nat → UInt8) (sizeFile index : Nat)
    (within : index < blockCount sizeFile) (counted : index < userFlashSize / 1024) :
    sendBlocks port fuel buf (blockStart sizeFile index) (sizeFile - blockStart sizeFile index)
        (index + 1) sending =
      andThen (sendBlock port fuel buf (blockStart sizeFile index)
        (sizeFile - blockStart sizeFile index) (index + 1) sending) fun sending =>
        if index + 1 < blockCount sizeFile then
          if index + 1 = userFlashSize / 1024 then (.returned 0xFF, sending)
          else
            sendBlocks port fuel buf (blockStart sizeFile (index + 1))
              (sizeFile - blockStart sizeFile (index + 1)) (index + 1 + 1) sending
        else (.next, sending) := by
  rw [sendBlocks_within port fuel buf sizeFile index sending within counted]
  generalize sendBlock port fuel buf (blockStart sizeFile index)
    (sizeFile - blockStart sizeFile index) (index + 1) sending = outcome
  rcases outcome with ⟨_ | _ | _, _⟩ <;> rfl

theorem sendBlocks_turns (buf : Nat → UInt8) (sizeFile index : Nat) (isOpen : sending.uart.Open)
    (counted : index < userFlashSize / 1024) :
    Turns .next ((canonicalFrames (imageOf buf sizeFile)).drop index) sending.uart
      (sendBlocks port fuel buf (blockStart sizeFile index)
        (sizeFile - blockStart sizeFile index) (index + 1) sending) := by
  generalize left_eq : blockCount sizeFile - index = left
  induction left generalizing index sending with
  | zero =>
      rw [sendBlocks_finished _ _ _ _ _ _ _ (by omega),
        drop_canonicalFrames_nil _ index (by rw [length_imageOf]; omega)]
      exact turns_nothing .next .next sending fun _ => rfl
  | succ left induction =>
      have within : index < blockCount sizeFile := by omega
      rw [sendBlocks_turn port fuel sending buf sizeFile index within counted,
        drop_canonicalFrames _ index (by rwa [length_imageOf]), ← List.singleton_append]
      refine (sendBlock_turns port fuel sending buf sizeFile index isOpen within).andThen_same id
        fun sent ⟨events, ends⟩ => ?_
      by_cases more : index + 1 < blockCount sizeFile
      · rw [if_pos more]
        by_cases limit : index + 1 = userFlashSize / 1024
        · rw [if_pos limit]
          exact turns_nothing _ .next sent fun same => by cases same
        · rw [if_neg limit]
          exact induction sent (index + 1) (ends ▸ isOpen.after events) (by omega) (by omega)
      · rw [if_neg more, drop_canonicalFrames_nil _ (index + 1) (by rw [length_imageOf]; omega)]
        exact turns_nothing .next .next sent fun _ => rfl

/-! ## The end of a session -/

def Port.Taking (port : Port) : Prop :=
  ∀ log requested, requested ≠ [] → 1 ≤ port.accepts log requested

/-- A byte of `Send_Byte`: it is on the cable, or else the port has refused it. -/
def Given (port : Port) (byte : UInt8) (bytes : List UInt8) : Prop :=
  bytes = [byte] ∨ bytes = [] ∧ ¬port.Taking

theorem sendByte_taking {port : Port} (taking : port.Taking) (c : UInt8) {uart : Uart}
    (isOpen : uart.Open) : sendByte port c uart = uart.note (.write [c] 1) := by
  have byte : (Memory.zeroed.store 0 c).bytes 0 1 = [c] := by simp [Memory.bytes]
  have taken : min (port.accepts uart.log [c]) 1 = 1 :=
    Nat.min_eq_right (taking uart.log [c] (by simp))
  rw [sendByte, sendByteLoop, uart.uartWrite_open port _ 0 1 isOpen, byte, taken]
  rfl

theorem sendByte_given (port : Port) (c : UInt8) (uart : Uart) (isOpen : uart.Open) :
    ∃ writes, sendByte port c uart = uart.after writes ∧ Writing writes ∧
      Given port c (sentBytes writes) := by
  rcases sendByte_writes port c uart isOpen with ⟨writes, ends, writing, sent | unsent⟩
  · exact ⟨writes, ends, writing, Or.inl sent⟩
  · refine ⟨writes, ends, writing, Or.inr ⟨unsent, fun taking => ?_⟩⟩
    have same : uart.after writes = uart.after [.write [c] 1] :=
      ends.symm.trans (sendByte_taking taking c isOpen)
    have events : writes = [.write [c] 1] := by simpa [Uart.after] using same
    rw [events] at unsent
    cases unsent

def closingBody : List UInt8 := [soh, 0, 0xFF] ++ List.replicate packetSize 0

/-- The closing frame, with its check bytes as far as the port has taken them. -/
def ClosingGiven (port : Port) (closing : List UInt8) : Prop :=
  ∃ high low, closing = closingBody ++ (high ++ low) ∧
    Given port (crcHigh (calCRC16 (List.replicate packetSize 0))) high ∧
    Given port (crcLow (calCRC16 (List.replicate packetSize 0))) low

theorem closingGiven_exists (port : Port) : ∃ closing, ClosingGiven port closing :=
  ⟨_, _, _, rfl, Or.inl rfl, Or.inl rfl⟩

theorem closingPacket_payload (data : Memory) :
    (closingPacket data).bytes packetHeader packetSize = List.replicate packetSize 0 := by
  apply List.ext_getElem
  · simp
  · intro index inside _
    rw [Memory.getElem_bytes, List.getElem_replicate, closingPacket, Memory.fill_cell]
    rw [Memory.length_bytes] at inside
    exact if_pos ⟨by omega, by omega⟩

theorem closingPacket_bytes (data : Memory) :
    (closingPacket data).bytes 0 (packetSize + packetHeader) = closingBody := by
  have split : packetSize + packetHeader = packetHeader + packetSize := Nat.add_comm _ _
  have header : (closingPacket data).bytes 0 packetHeader = [soh, 0, 0xFF] := by
    simp [closingPacket, Memory.bytes, List.range_succ]
  rw [split, Memory.bytes_add, header, Nat.zero_add, closingPacket_payload]
  rfl

theorem sendClosing_turns (isOpen : sending.uart.Open) :
    ∃ closing, ClosingGiven port closing ∧
      Turns .next [closing] sending.uart (sendClosing port fuel sending) := by
  have small : packetSize + packetHeader < 2 ^ 16 := by decide
  rcases sendPacket_sent port fuel
    { sending with packetData := closingPacket sending.packetData } .closing
    (packetSize + packetHeader) isOpen small with ⟨writes, ends, writing, begins, whole⟩
  rcases sendPacket_writes port fuel .closing (packetSize + packetHeader)
    { sending with packetData := closingPacket sending.packetData } isOpen small with
    ⟨_, _, _, _, kept⟩
  have talking := talking_packet writing .closing
    ((closingPacket sending.packetData).bytes 0 (packetSize + packetHeader))
  rw [closingPacket_bytes] at ends begins whole talking
  rw [sendClosing]
  generalize ymodemSendPacket port fuel .closing (packetSize + packetHeader)
    { sending with packetData := closingPacket sending.packetData } = outcome at ends whole kept ⊢
  rcases outcome with ⟨finished, sent⟩
  cases finished with
  | false =>
      rcases closingGiven_exists port with ⟨closing, given⟩
      rcases given with ⟨high, low, rfl, rest⟩
      refine ⟨_, ⟨high, low, rfl, rest⟩, _, ends, ?_, fun next => by cases next⟩
      have part : Part ([] ++ [closingBody ++ (high ++ low)]) ([] ++ (_ ++ [])) :=
        .within .nil talking listening_nil (begins.trans (List.prefix_append _ _)) fun some =>
          absurd rfl some
      simpa using part
  | true =>
      dsimp only at ends kept ⊢
      -- The terminator of the write stands behind the payload.
      have payload : sent.packetData.bytes packetHeader packetSize =
          List.replicate packetSize 0 := by
        rw [← closingPacket_payload sending.packetData]
        exact Memory.bytes_congr fun other _ bound => kept other (by omega)
      have open₁ : sent.uart.Open := ends ▸ isOpen.after _
      rw [payload]
      rcases sendByte_given port (crcHigh (calCRC16 (List.replicate packetSize 0))) sent.uart
        open₁ with ⟨high, highEnds, highWriting, highGiven⟩
      rcases sendByte_given port (crcLow (calCRC16 (List.replicate packetSize 0)))
        (sent.uart.after high) (open₁.after high) with ⟨low, lowEnds, lowWriting, lowGiven⟩
      rw [highEnds, lowEnds]
      refine ⟨_, ⟨sentBytes high, sentBytes low, rfl, highGiven, lowGiven⟩, ?_⟩
      have all := talking_packet ((writing.append highWriting).append lowWriting) .closing
        closingBody
      refine waitOrReturn_turns port _ isOpen all ?_ ?_
      · have noted : sentBytes (.packet .closing closingBody :: (writes ++ high ++ low)) =
            sentBytes (writes ++ high ++ low) := rfl
        rw [noted, sentBytes_append, sentBytes_append, whole rfl, List.append_assoc]
      · rw [ends]
        simp

/-- The frames at the end of a session, as far as the port has taken single bytes. -/
def EndGiven (port : Port) (ending : List (List UInt8)) : Prop :=
  ∃ farewell closing, ending = [farewell, closing] ∧ Given port eot farewell ∧
    ClosingGiven port closing

theorem endGiven_exists (port : Port) : ∃ ending, EndGiven port ending := by
  rcases closingGiven_exists port with ⟨closing, given⟩
  exact ⟨_, [eot], closing, rfl, Or.inl rfl, given⟩

theorem sendEnd_turns (isOpen : sending.uart.Open) :
    ∃ ending, EndGiven port ending ∧
      Turns (.returned 0) ending sending.uart (sendEnd port fuel sending) := by
  rw [sendEnd_eq]
  rcases sendByte_given port eot sending.uart isOpen with ⟨writes, ends, writing, given⟩
  have open₁ : (sendByte port eot sending.uart).Open := ends ▸ isOpen.after writes
  have farewell : Turns .next [sentBytes writes] sending.uart
      (waitOrReturn port ack { sending with uart := sendByte port eot sending.uart }) :=
    waitOrReturn_turns port _ isOpen writing.talking rfl ends
  have rest : ∃ second, (∃ closing, second = [closing] ∧ ClosingGiven port closing) ∧
      Turns (.returned 0) ([sentBytes writes] ++ second) sending.uart
        (andThen (waitOrReturn port ack { sending with uart := sendByte port eot sending.uart })
          fun sending => andThen (sendClosing port fuel sending) fun sending =>
            (.returned 0, sending)) := by
    refine farewell.andThen (fun _ => waitOrReturn_ne_zero port _ ack open₁)
      ((closingGiven_exists port).imp' _ fun closing given => ⟨closing, rfl, given⟩)
      fun bye ⟨events, longer⟩ => ?_
    have open₂ : bye.uart.Open := longer ▸ isOpen.after events
    rcases sendClosing_turns port fuel bye open₂ with ⟨closing, closed, turns⟩
    rcases sendClosing_round port fuel bye open₂ with ⟨_, _, _, _, failed⟩
    refine ⟨[closing], ⟨closing, rfl, closed⟩, ?_⟩
    rw [← List.append_nil [closing]]
    refine turns.andThen_same (fun _ zero => ?_) fun done _ =>
      turns_nothing (.returned 0) (.returned 0) done fun _ => rfl
    cases failed 0 zero
  rcases rest with ⟨_, ⟨closing, rfl, closed⟩, turns⟩
  exact ⟨_, ⟨sentBytes writes, closing, rfl, given, closed⟩, turns⟩

theorem transmit_turns (locals : Locals) (buf sendFileName : Nat → UInt8) (sizeFile : Nat)
    (isOpen : uart.Open) :
    ∃ ending, EndGiven port ending ∧
      Turns (.returned 0)
        ([headerFrame locals.packetData (copiedName locals sendFileName) sizeFile locals.stray] ++
          (canonicalFrames (imageOf buf sizeFile) ++ ending)) uart
        (ymodemTransmit port fuel locals buf sendFileName sizeFile uart) := by
  rw [ymodemTransmit_eq]
  have header := sendHeader_turns port fuel ⟨locals.packetData, uart⟩
    (copiedName locals sendFileName) sizeFile locals.stray isOpen
  have failed : (sendHeader port fuel (copiedName locals sendFileName) sizeFile locals.stray
      ⟨locals.packetData, uart⟩).1 ≠ .returned 0 := by
    rcases sendHeader_round port fuel (copiedName locals sendFileName) sizeFile locals.stray
      ⟨locals.packetData, uart⟩ isOpen with ⟨_, _, _, _, failed⟩
    intro zero
    cases failed 0 zero
  have rest : ∃ second, (∃ ending, second = canonicalFrames (imageOf buf sizeFile) ++ ending ∧
        EndGiven port ending) ∧
      Turns (.returned 0)
        ([headerFrame locals.packetData (copiedName locals sendFileName) sizeFile locals.stray] ++
          second) uart
        (andThen (sendHeader port fuel (copiedName locals sendFileName) sizeFile locals.stray
          ⟨locals.packetData, uart⟩) fun sending =>
            andThen (sendBlocks port fuel buf 0 sizeFile 1 sending) (sendEnd port fuel)) := by
    refine header.andThen (fun _ => failed)
      ((endGiven_exists port).imp' _ fun ending given => ⟨ending, rfl, given⟩)
      fun begun ⟨events, longer⟩ => ?_
    have open₁ : begun.uart.Open := longer ▸ isOpen.after events
    have blocks := sendBlocks_turns port fuel begun buf sizeFile 0 open₁ (by decide)
    have blocksFailed := sendBlocks_frames port fuel buf sizeFile 0 begun open₁ (by decide)
    rw [blockStart_zero, Nat.sub_zero] at blocks blocksFailed
    rw [List.drop_zero] at blocks
    rcases blocksFailed with ⟨_, _, _, _, blocksFailed⟩
    rcases blocks.andThen (fun _ zero => by cases blocksFailed 0 zero) (endGiven_exists port)
      fun filed ⟨more, further⟩ => sendEnd_turns port fuel filed (further ▸ open₁.after more) with
      ⟨ending, given, turns⟩
    exact ⟨_, ⟨ending, rfl, given⟩, turns⟩
  rcases rest with ⟨_, ⟨ending, rfl, given⟩, turns⟩
  exact ⟨ending, given, turns⟩

end CosmosPC
