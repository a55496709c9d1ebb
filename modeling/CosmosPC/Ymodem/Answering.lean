import CosmosPC.Ymodem.Bursts
import CosmosPC.Ymodem.Session

/-! # A receiver that answers everything

Over a port that takes every write, and whose other end answers every burst
before a wait gives up, each stretch of `Ymodem_Transmit` goes on to the next. -/

namespace CosmosPC

open PortEvent

/-- The answers to a number of bursts: `ACK` and `C` to the header, `ACK` to
each of the others. -/
def answersTo : Nat → List UInt8
  | 0 => []
  | bursts + 1 => [ack, crc16] ++ List.replicate bursts ack

def Wire.count (wire : Wire) : Nat :=
  wire.bursts.length + if wire.begun = [] then 0 else 1

def owed (log : List PortEvent) : List UInt8 :=
  (answersTo (Wire.ofLog log).count).drop (readBytes log).length

/-- Every write is taken whole; the next answer comes before a wait of
`Receive_Byte` is over, and nothing else does. -/
structure Answering (port : Port) : Prop where
  accepts : ∀ log requested, requested.length ≤ port.accepts log requested
  delivers : ∀ log, port.delivers log 1 = [] ∨ port.delivers log 1 = (owed log).take 1
  prompt : ∀ log, owed log ≠ [] →
    ∃ count < nakTimeout, port.delivers (log ++ List.replicate count (.read 1 [])) 1 ≠ []

def promptPort : Port where
  accepts _ requested := requested.length
  delivers log requested := (owed log).take requested

theorem promptPort_answering : Answering promptPort where
  accepts _ _ := Nat.le_refl _
  delivers _ := Or.inr rfl
  prompt log owing := by
    refine ⟨0, by decide, ?_⟩
    rcases answers : owed log with _ | ⟨answer, rest⟩
    · exact absurd answers owing
    · simp [promptPort, answers]

/-! ## What is owed -/

theorem Wire.count_read (wire : Wire) (requested : Nat) (delivered : List UInt8) :
    (wire.event (.read requested delivered)).count = wire.count := by
  unfold event count
  by_cases idle : wire.begun = []
  · simp [idle]
  · simp [idle]

theorem owed_silence (log : List PortEvent) : owed (log ++ [.read 1 []]) = owed log := by
  simp [owed, Wire.ofLog_concat, Wire.count_read, readBytes, incoming]

theorem owed_answer (log : List PortEvent) {answer : UInt8} {rest : List UInt8}
    (owing : owed log = answer :: rest) : owed (log ++ [.read 1 [answer]]) = rest := by
  have dropped : (owed log).drop 1 = rest := by
    rw [owing]
    rfl
  simpa [owed, Wire.ofLog_concat, Wire.count_read, readBytes, incoming] using dropped

/-! ## Waiting for an answer -/

theorem receiveByte_answered (port : Port) (answering : Answering port) (timeout count : Nat)
    (uart : Uart) (isOpen : uart.Open) {answer : UInt8} {rest : List UInt8}
    (owing : owed uart.log = answer :: rest) (soon : count < timeout)
    (comes : port.delivers (uart.log ++ List.replicate count (.read 1 [])) 1 ≠ []) :
    ∃ reads, receiveByte port timeout uart = (some answer, uart.after reads) ∧
      Listening reads ∧ reads ≠ [] ∧ readBytes reads = [answer] ∧
      owed (uart.log ++ reads) = rest := by
  induction timeout generalizing count uart with
  | zero => omega
  | succ timeout induction =>
      rw [receiveByte, uart.uartRead_open port 1 isOpen]
      rcases answering.delivers uart.log with silent | delivered
      · cases count with
        | zero => exact absurd silent (by simpa using comes)
        | succ count =>
            simp only [silent, List.take_nil]
            have later : port.delivers
                ((uart.note (.read 1 [])).log ++ List.replicate count (.read 1 [])) 1 ≠ [] := by
              simpa [Uart.note, List.replicate_succ] using comes
            have stillOwing : owed (uart.note (.read 1 [])).log = answer :: rest :=
              (owed_silence uart.log).trans owing
            rcases induction count (uart.note (.read 1 [])) (isOpen.after _) stillOwing
              (by omega) later with ⟨reads, received, listening, _, read, left⟩
            refine ⟨.read 1 [] :: reads, ?_, ?_, by simp, ?_, ?_⟩
            · simpa [Uart.note] using received
            · have first : Listening [.read 1 []] := by simp [Listening, isRead]
              exact first.append listening
            · simpa [readBytes, incoming] using read
            · simpa [Uart.note] using left
      · rw [owing] at delivered
        simp only [delivered, List.take_succ_cons, List.take_zero]
        exact ⟨[.read 1 [answer]], rfl, by simp [Listening, isRead], by simp,
          by simp [readBytes, incoming], owed_answer uart.log owing⟩

theorem waitOrReturn_answered (port : Port) (answering : Answering port) (ch : UInt8)
    (sending : Sending) (isOpen : sending.uart.Open) {rest : List UInt8}
    (owing : owed sending.uart.log = ch :: rest) :
    ∃ reads, waitOrReturn port ch sending =
        (.next, { sending with uart := sending.uart.after reads }) ∧
      Listening reads ∧ reads ≠ [] ∧ readBytes reads = [ch] ∧
      owed (sending.uart.log ++ reads) = rest := by
  rcases answering.prompt sending.uart.log (by simp [owing]) with ⟨count, soon, comes⟩
  rcases receiveByte_answered port answering nakTimeout count sending.uart isOpen owing soon comes
    with ⟨reads, received, rest⟩
  refine ⟨reads, ?_, rest⟩
  simp [waitOrReturn, ymodemWaitForChar, ymodemWaitForCharLoop, received]

/-! ## Sending over a port that takes every write -/

theorem sendPacketLoop_taken (port : Port) (answering : Answering port) (length fuel : Nat)
    (sending : Sending) (isOpen : sending.uart.Open) (short : length < 2 ^ 16) :
    (ymodemSendPacketLoop port length (fuel + 1) 0 sending).1 = true := by
  rw [ymodemSendPacketLoop]
  by_cases unfinished : 0 < length
  · have whole := answering.accepts sending.uart.log (sending.packetData.bytes 0 (length - 0))
    rw [Memory.length_bytes] at whole
    rw [if_pos unfinished, sending.uart.uartWrite_open port _ _ _ isOpen,
      Nat.min_eq_right whole]
    dsimp only
    rw [sendPacketLoop_finished port length fuel _ _ (by omega)]
  · rw [if_neg unfinished]

theorem sendPacket_taken (port : Port) (answering : Answering port) (fuel : Nat)
    (site : PacketSite) (length : Nat) (sending : Sending) (isOpen : sending.uart.Open)
    (positive : 0 < length) (short : length < 2 ^ 16) :
    ∃ talk, (ymodemSendPacket port (fuel + 1) site length sending).1 = true ∧
      (ymodemSendPacket port (fuel + 1) site length sending).2.uart = sending.uart.after talk ∧
      Talking talk ∧ sentBytes talk ≠ [] := by
  have finished : (ymodemSendPacket port (fuel + 1) site length sending).1 = true :=
    sendPacketLoop_taken port answering length fuel _ (isOpen.after _) short
  rcases sendPacket_writes port (fuel + 1) site length sending isOpen short with
    ⟨writes, ends, writing, complete, _⟩
  refine ⟨_, finished, ends, talking_packet writing _ _, ?_⟩
  have sent : sentBytes (.packet site (sending.packetData.bytes 0 length) :: writes) =
      sending.packetData.bytes 0 length := complete finished
  intro empty
  rw [sent] at empty
  have nothing := congrArg List.length empty
  rw [Memory.length_bytes, List.length_nil] at nothing
  omega

theorem sendByte_taken (port : Port) (answering : Answering port) (c : UInt8) (uart : Uart)
    (isOpen : uart.Open) : sendByte port c uart = uart.after [.write [c] 1] := by
  have byte : (Memory.zeroed.store 0 c).bytes 0 1 = [c] := by simp [Memory.bytes]
  have whole : 1 ≤ port.accepts uart.log [c] := answering.accepts uart.log [c]
  rw [sendByte, sendByteLoop, uart.uartWrite_open port _ 0 1 isOpen, byte,
    Nat.min_eq_right whole]
  rfl

/-! ## Rounds that are answered -/

structure Settled (log : List PortEvent) (bursts : Nat) : Prop where
  idle : (Wire.ofLog log).begun = []
  counted : (Wire.ofLog log).bursts.length = bursts
  heard : readBytes log = answersTo bursts

theorem Settled.initially : Settled [] 0 := ⟨rfl, rfl, rfl⟩

variable {log talk listen : List PortEvent} {bursts : Nat}

theorem Settled.owed (settled : Settled log bursts) (talking : Talking talk)
    (written : sentBytes talk ≠ []) :
    owed (log ++ talk) = (answersTo (bursts + 1)).drop (answersTo bursts).length := by
  have wire : Wire.ofLog (log ++ talk) = ⟨(Wire.ofLog log).bursts, sentBytes talk⟩ := by
    rw [Wire.ofLog_append, Wire.run_talking _ talk talking, settled.idle, List.nil_append]
  rw [CosmosPC.owed, wire, readBytes_append, talking.readBytes_nil, List.append_nil, settled.heard,
    Wire.count, if_neg written, settled.counted]

theorem Settled.round (settled : Settled log bursts) (talking : Talking talk)
    (written : sentBytes talk ≠ []) (listening : Listening listen) (listened : listen ≠ [])
    (heard : readBytes listen = (answersTo (bursts + 1)).drop (answersTo bursts).length) :
    Settled (log ++ (talk ++ listen)) (bursts + 1) := by
  have wire : Wire.ofLog (log ++ (talk ++ listen)) =
      ⟨(Wire.ofLog log).bursts ++ [sentBytes talk], []⟩ := by
    rw [Wire.ofLog_append, Wire.run_burst _ settled.idle talking rfl listening listened]
    simp [written]
  refine ⟨by rw [wire], by simp [wire, settled.counted], ?_⟩
  rw [readBytes_append, readBytes_append, settled.heard, talking.readBytes_nil, heard]
  cases bursts with
  | zero => rfl
  | succ bursts => simp [answersTo, List.replicate_succ']

theorem Settled.wait {sending : Sending} (settled : Settled sending.uart.log (bursts + 1))
    (port : Port) (answering : Answering port) (isOpen : sending.uart.Open)
    (after : Sending) (ends : after.uart = sending.uart.after talk) (talking : Talking talk)
    (written : sentBytes talk ≠ []) :
    (waitOrReturn port ack after).1 = .next ∧
      Settled (waitOrReturn port ack after).2.uart.log (bursts + 2) ∧
      (waitOrReturn port ack after).2.uart.Open := by
  have stillOpen : after.uart.Open := by
    rw [ends]
    exact isOpen.after talk
  have answers : (answersTo (bursts + 1 + 1)).drop (answersTo (bursts + 1)).length = [ack] := by
    simp [answersTo, List.replicate_succ']
  have owing := settled.owed talking written
  rw [answers] at owing
  have log : after.uart.log = sending.uart.log ++ talk := by rw [ends, Uart.after_log]
  rw [← log] at owing
  rcases waitOrReturn_answered port answering ack after stillOpen owing with
    ⟨reads, waited, listening, listened, heard, _⟩
  rw [waited]
  refine ⟨rfl, ?_, stillOpen.after reads⟩
  rw [Uart.after_log, log, List.append_assoc]
  exact settled.round talking written listening listened (heard.trans answers.symm)

theorem sendPacketAndWait_finished (port : Port) (fuel : Nat) (site : PacketSite)
    (length : Nat) (sending : Sending)
    (finished : (ymodemSendPacket port fuel site length sending).1 = true) :
    sendPacketAndWait port fuel site length sending =
      waitOrReturn port ack (ymodemSendPacket port fuel site length sending).2 := by
  rw [sendPacketAndWait, ← Prod.eta (ymodemSendPacket port fuel site length sending), finished]

theorem sendPacketAndWait_answered (port : Port) (answering : Answering port) (fuel : Nat)
    (site : PacketSite) (length : Nat) (sending : Sending) (isOpen : sending.uart.Open)
    (positive : 0 < length) (short : length < 2 ^ 16)
    (settled : Settled sending.uart.log (bursts + 1)) :
    let outcome := sendPacketAndWait port (fuel + 1) site length sending
    outcome.1 = .next ∧ Settled outcome.2.uart.log (bursts + 2) ∧ outcome.2.uart.Open := by
  rcases sendPacket_taken port answering fuel site length sending isOpen positive short with
    ⟨talk, finished, ends, talking, written⟩
  rw [sendPacketAndWait_finished port (fuel + 1) site length sending finished]
  exact settled.wait port answering isOpen _ ends talking written

theorem sendHeader_answered (port : Port) (answering : Answering port) (fuel : Nat)
    (filename : Nat → UInt8) (sizeFile : Nat) (stray : List UInt8) (sending : Sending)
    (isOpen : sending.uart.Open) (settled : Settled sending.uart.log 0) :
    let outcome := sendHeader port (fuel + 1) filename sizeFile stray sending
    outcome.1 = .next ∧ Settled outcome.2.uart.log 1 ∧ outcome.2.uart.Open := by
  dsimp only
  rw [sendHeader]
  generalize storeCheckBytes
    (ymodemPrepareIntialPacket sending.packetData filename sizeFile stray) packetSize = data
  rcases sendPacket_taken port answering fuel .header (packetSize + packetHeader + 2)
      { sending with packetData := data } isOpen (by decide) (by decide) with
    ⟨talk, finished, ends, talking, written⟩
  rw [sendPacketAndWait_finished port (fuel + 1) _ _ _ finished]
  generalize (ymodemSendPacket port (fuel + 1) .header (packetSize + packetHeader + 2)
    { sending with packetData := data }).2 = sent at ends
  have log : sent.uart.log = sending.uart.log ++ talk := by rw [ends, Uart.after_log]
  have open₁ : sent.uart.Open := by
    rw [ends]
    exact isOpen.after talk
  have owing : owed sent.uart.log = [ack, crc16] := by
    rw [log, settled.owed talking written]
    rfl
  rcases waitOrReturn_answered port answering ack sent open₁ owing with
    ⟨acks, waited, listening, listened, heard, left⟩
  rw [waited]
  dsimp only
  rcases waitOrReturn_answered port answering crc16
      { sent with uart := sent.uart.after acks } (open₁.after acks) left with
    ⟨polls, polled, listening₂, _, heard₂, _⟩
  rw [polled]
  refine ⟨rfl, ?_, (open₁.after acks).after polls⟩
  dsimp only
  rw [Uart.after_after, Uart.after_log, log, List.append_assoc]
  apply settled.round talking written (listening.append listening₂) (by simp [listened])
  rw [readBytes_append, heard, heard₂]
  rfl

theorem sendBlock_answered (port : Port) (answering : Answering port) (fuel : Nat)
    (buf : Nat → UInt8) (offset size blkNumber : Nat) (sending : Sending)
    (isOpen : sending.uart.Open) (settled : Settled sending.uart.log (bursts + 1)) :
    let outcome := sendBlock port (fuel + 1) buf offset size blkNumber sending
    outcome.1 = .next ∧ Settled outcome.2.uart.log (bursts + 2) ∧ outcome.2.uart.Open := by
  have short : payloadSize size + packetHeader + 2 < 2 ^ 16 := by
    unfold payloadSize
    split <;> decide
  exact sendPacketAndWait_answered port answering fuel .data
    (payloadSize size + packetHeader + 2) _ isOpen (by omega) short settled

theorem sendBlocks_answered (port : Port) (answering : Answering port) (fuel : Nat)
    (buf : Nat → UInt8) (sizeFile index : Nat) (sending : Sending)
    (isOpen : sending.uart.Open) (settled : Settled sending.uart.log (bursts + 1))
    (counted : index < userFlashSize / 1024) :
    let outcome := sendBlocks port (fuel + 1) buf (blockStart sizeFile index)
      (sizeFile - blockStart sizeFile index) (index + 1) sending
    (blockCount sizeFile ≤ userFlashSize / 1024 → outcome.1 = .next ∧
      outcome.2.uart.Open ∧ ∃ more, Settled outcome.2.uart.log (more + 1)) ∧
    (userFlashSize / 1024 < blockCount sizeFile → outcome.1 = .returned 0xFF) := by
  generalize left_eq : blockCount sizeFile - index = left
  induction left generalizing index sending bursts with
  | zero =>
      dsimp only
      rw [sendBlocks_finished _ _ _ _ _ _ _ (by omega)]
      exact ⟨fun _ => ⟨rfl, isOpen, bursts, settled⟩, fun _ => by omega⟩
  | succ left induction =>
      dsimp only
      have within : index < blockCount sizeFile := by omega
      rw [sendBlocks_within port (fuel + 1) buf sizeFile index sending within counted]
      rcases sendBlock_answered port answering fuel buf (blockStart sizeFile index)
        (sizeFile - blockStart sizeFile index) (index + 1) sending isOpen settled with
        ⟨goesOn, answered, stillOpen⟩
      generalize sendBlock port (fuel + 1) buf (blockStart sizeFile index)
        (sizeFile - blockStart sizeFile index) (index + 1) sending = outcome
        at goesOn answered stillOpen ⊢
      rcases outcome with ⟨flow, result⟩
      dsimp only at goesOn answered stillOpen
      subst goesOn
      dsimp only
      by_cases more : index + 1 < blockCount sizeFile
      · rw [if_pos more]
        by_cases limit : index + 1 = userFlashSize / 1024
        · rw [if_pos limit]
          exact ⟨fun _ => by omega, fun _ => rfl⟩
        · rw [if_neg limit]
          exact induction (index + 1) result stillOpen answered (by omega) (by omega)
      · rw [if_neg more]
        exact ⟨fun _ => ⟨rfl, stillOpen, bursts + 1, answered⟩, fun _ => by omega⟩

theorem sendEnd_answered (port : Port) (answering : Answering port) (fuel : Nat)
    (sending : Sending) (isOpen : sending.uart.Open)
    (settled : Settled sending.uart.log (bursts + 1)) :
    (sendEnd port (fuel + 1) sending).1 = .returned 0 := by
  have eotTalking : Talking [.write [eot] 1] := by simp [Talking, isRead]
  have eotWritten : sentBytes [.write [eot] 1] ≠ [] := by simp [sentBytes, outgoing]
  rcases settled.wait port answering isOpen
      { sending with uart := sending.uart.after [.write [eot] 1] } rfl eotTalking eotWritten with
    ⟨answered, settled₁, open₁⟩
  rw [sendEnd, sendByte_taken port answering eot sending.uart isOpen]
  generalize waitOrReturn port ack
    { sending with uart := sending.uart.after [.write [eot] 1] } = outcome
    at answered settled₁ open₁ ⊢
  rcases outcome with ⟨flow, result⟩
  dsimp only at answered settled₁ open₁
  subst answered
  dsimp only
  rw [sendClosing]
  rcases sendPacket_taken port answering fuel .closing (packetSize + packetHeader)
      { result with packetData := closingPacket result.packetData } open₁ (by decide)
      (by decide) with ⟨talk, finished, ends, talking, written⟩
  generalize ymodemSendPacket port (fuel + 1) .closing (packetSize + packetHeader)
    { result with packetData := closingPacket result.packetData } = outcome at finished ends ⊢
  rcases outcome with ⟨done, sent⟩
  dsimp only at finished ends
  subst finished
  dsimp only
  have open₂ : sent.uart.Open := by
    rw [ends]
    exact open₁.after talk
  generalize calCRC16 (sent.packetData.bytes packetHeader packetSize) = tempCRC
  rw [sendByte_taken port answering (crcHigh tempCRC) sent.uart open₂,
    sendByte_taken port answering (crcLow tempCRC) _ (open₂.after _)]
  have allTalking : Talking (talk ++ ([.write [crcHigh tempCRC] 1] ++
      [.write [crcLow tempCRC] 1])) := by
    intro event member
    rcases List.mem_append.mp member with member | member
    · exact talking event member
    · simp only [List.singleton_append, List.mem_cons, List.not_mem_nil, or_false] at member
      rcases member with rfl | rfl <;> rfl
  have allEnds : ((sent.uart.after [.write [crcHigh tempCRC] 1]).after
      [.write [crcLow tempCRC] 1]) = result.uart.after (talk ++
        ([.write [crcHigh tempCRC] 1] ++ [.write [crcLow tempCRC] 1])) := by
    rw [ends, Uart.after_after, Uart.after_after]
  generalize (sent.uart.after [.write [crcHigh tempCRC] 1]).after
    [.write [crcLow tempCRC] 1] = uart at allEnds ⊢
  have closed := (settled₁.wait port answering open₁ { sent with uart := uart } allEnds
    allTalking (by simp [written])).1
  generalize waitOrReturn port ack { sent with uart := uart } = outcome at closed ⊢
  rcases outcome with ⟨flow, last⟩
  dsimp only at closed
  subst closed
  rfl

/-- Over an answering port, `Ymodem_Transmit` returns zero just for the images
of no more blocks than it allows. -/
theorem transmit_returns_zero_iff (port : Port) (answering : Answering port) (fuel : Nat)
    (locals : Locals) (buf sendFileName : Nat → UInt8) (sizeFile : Nat) :
    (ymodemTransmit port (fuel + 1) locals buf sendFileName sizeFile Uart.opened).1 =
        .returned 0 ↔ blockCount sizeFile ≤ userFlashSize / 1024 := by
  rw [ymodemTransmit]
  generalize (fun index => if index < fileNameLength - 1 then sendFileName index
    else locals.filename index) = filename
  rcases sendHeader_answered port answering fuel filename sizeFile locals.stray
      ⟨locals.packetData, Uart.opened⟩ Uart.opened_open Settled.initially with
    ⟨begins, settled₁, open₁⟩
  generalize sendHeader port (fuel + 1) filename sizeFile locals.stray
    ⟨locals.packetData, Uart.opened⟩ = outcome at begins settled₁ open₁ ⊢
  rcases outcome with ⟨flow, headed⟩
  dsimp only at begins settled₁ open₁
  subst begins
  dsimp only
  have blocks := sendBlocks_answered port answering fuel buf sizeFile 0 headed open₁ settled₁
    (by decide)
  rw [blockStart_zero, Nat.sub_zero] at blocks
  rcases blocks with ⟨goesThrough, givesUp⟩
  generalize sendBlocks port (fuel + 1) buf 0 sizeFile (0 + 1) headed = outcome
    at goesThrough givesUp ⊢
  rcases outcome with ⟨flow, filed⟩
  by_cases few : blockCount sizeFile ≤ userFlashSize / 1024
  · rcases goesThrough few with ⟨goesOn, open₂, more, settled₂⟩
    dsimp only at goesOn open₂ settled₂
    subst goesOn
    dsimp only
    exact ⟨fun _ => few, fun _ => sendEnd_answered port answering fuel filed open₂ settled₂⟩
  · have left := givesUp (Nat.lt_of_not_le few)
    dsimp only at left
    subst left
    dsimp only
    exact ⟨fun zero => by simp at zero, fun admitted => absurd admitted few⟩

end CosmosPC
