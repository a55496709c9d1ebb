import CosmosPC.Ymodem.ShortWrites
import CosmosPC.Ymodem.Waiting

/-! # What the sender puts in the history

One specification for each function of the sender, in terms of the events it
appends. A successful stretch is a sequence of *rounds*: the sender writing, and
then only listens until it has read an `ACK`. -/

namespace CosmosPC

open PortEvent

/-! ## Waiting -/

theorem listening_reads (results : List (Option UInt8)) : Listening (results.map readOf) := by
  intro event member
  rcases List.mem_map.mp member with ⟨result, _, rfl⟩
  rfl

theorem mem_readBytes_of_mem {results : List (Option UInt8)} {byte : UInt8}
    (member : some byte ∈ results) : byte ∈ readBytes (results.map readOf) :=
  List.mem_flatMap.mpr ⟨readOf (some byte), List.mem_map_of_mem member, List.mem_singleton_self _⟩

theorem waitForChar_listens (port : Port) (ch : UInt8) (uart : Uart) (isOpen : uart.Open) :
    ∃ reads, (ymodemWaitForChar port ch uart).2 = uart.after reads ∧
      Listening reads ∧ reads ≠ [] ∧
      ((ymodemWaitForChar port ch uart).1 = true → ch ∈ readBytes reads) := by
  have count := length_awaitEvents nakTimeout 20 (oneByteInput port uart.log)
  rw [ymodemWaitForChar, waitForCharLoop_events port ch 20 uart isOpen rfl]
  generalize awaitEvents nakTimeout 20 (oneByteInput port uart.log) = events at count ⊢
  refine ⟨_, rfl, listening_reads _, ?_, fun success => ?_⟩
  · have some : events ≠ [] := by
      rintro rfl
      cases count
    rcases List.exists_mem_of_ne_nil _ (through_ne_nil ch some) with ⟨event, among⟩
    rcases List.exists_mem_of_ne_nil _ event.polls_ne_nil with ⟨result, polled⟩
    exact List.ne_nil_of_mem (List.mem_map_of_mem (List.mem_flatMap.mpr ⟨event, among, polled⟩))
  · rcases of_decide_eq_true success with ⟨event, among, found⟩
    rcases mem_through among found with ⟨first, member, arrived⟩
    exact mem_readBytes_of_mem
      (List.mem_flatMap.mpr ⟨first, member, WaitEvent.mem_polls arrived⟩)

/-! ## Sending -/

theorem sendByteLoop_writes (port : Port) (rounds : Nat) (c : Memory) (uart : Uart)
    (isOpen : uart.Open) :
    ∃ writes, sendByteLoop port rounds c uart = uart.after writes ∧ Writing writes ∧
      (sentBytes writes = [c.cell 0] ∨ sentBytes writes = []) := by
  induction rounds generalizing c uart with
  | zero => exact ⟨[], by simp [sendByteLoop], by simp [Writing], Or.inr rfl⟩
  | succ rounds induction =>
      rw [sendByteLoop, uart.uartWrite_open port c 0 1 isOpen]
      have byte : c.bytes 0 1 = [c.cell 0] := by simp [Memory.bytes]
      rw [byte]
      generalize len_eq : min (port.accepts uart.log [c.cell 0]) 1 = len
      have writing : Writing [.write [c.cell 0] len] := by simp [Writing, isWrite]
      by_cases accepted : len = 1
      · subst accepted
        exact ⟨_, rfl, writing, Or.inl (by simp [sentBytes, outgoing])⟩
      · have refused : len = 0 := by omega
        subst refused
        rcases induction (c.store (0 + 1) 0) (uart.note (.write [c.cell 0] 0))
          (isOpen.after _) with ⟨writes, ends, moreWriting, sent⟩
        refine ⟨.write [c.cell 0] 0 :: writes, ?_, writing.append moreWriting, ?_⟩
        · simpa [Uart.note] using ends
        · simpa [sentBytes, outgoing] using sent

theorem sendByte_writes (port : Port) (c : UInt8) (uart : Uart) (isOpen : uart.Open) :
    ∃ writes, sendByte port c uart = uart.after writes ∧ Writing writes ∧
      (sentBytes writes = [c] ∨ sentBytes writes = []) := by
  rcases sendByteLoop_writes port 25 (Memory.zeroed.store 0 c) uart isOpen with
    ⟨writes, ends, writing, sent⟩
  exact ⟨writes, ends, writing, by simpa using sent⟩

theorem sendPacket_writes (port : Port) (fuel : Nat) (site : PacketSite) (length : Nat)
    (sending : Sending) (isOpen : sending.uart.Open) (short : length < 2 ^ 16) :
    ∃ writes,
      (ymodemSendPacket port fuel site length sending).2.uart =
        sending.uart.after (.packet site (sending.packetData.bytes 0 length) :: writes) ∧
      Writing writes ∧
      ((ymodemSendPacket port fuel site length sending).1 = true →
        sentBytes writes = sending.packetData.bytes 0 length) ∧
      ∀ other, other ≠ length →
        (ymodemSendPacket port fuel site length sending).2.packetData.cell other =
          sending.packetData.cell other := by
  rcases sendPacketLoop_writes port length fuel 0
      { sending with
        uart := sending.uart.note (.packet site (sending.packetData.bytes 0 length)) }
      (isOpen.after _) short (Nat.zero_le _) with ⟨writes, ends, writing, _, complete, kept⟩
  refine ⟨writes, ?_, writing, complete, kept⟩
  simpa [ymodemSendPacket, Uart.note] using ends

/-! ## Rounds -/

def dataFrames (events : List PortEvent) : List (List UInt8) :=
  events.filterMap fun
    | .packet .data frame => some frame
    | _ => none

@[simp] theorem dataFrames_append (first second : List PortEvent) :
    dataFrames (first ++ second) = dataFrames first ++ dataFrames second :=
  List.filterMap_append

theorem Writing.dataFrames_nil {events : List PortEvent} (writing : Writing events) :
    dataFrames events = [] := by
  apply List.filterMap_eq_nil_iff.mpr
  intro event member
  have isWrite := writing event member
  cases event <;> simp_all [PortEvent.isWrite]

theorem Listening.dataFrames_nil {events : List PortEvent} (listening : Listening events) :
    dataFrames events = [] := by
  apply List.filterMap_eq_nil_iff.mpr
  intro event member
  have isRead := listening event member
  cases event <;> simp_all [PortEvent.isRead]

/-- The sender puts `frame` on the cable, then listens until it has its `ACK`. -/
def Round (frame : List UInt8) (events : List PortEvent) : Prop :=
  ∃ talk listen, events = talk ++ listen ∧ Talking talk ∧ sentBytes talk = frame ∧
    Listening listen ∧ listen ≠ [] ∧ ack ∈ readBytes listen

inductive Rounds : List (List UInt8) → List PortEvent → Prop
  | nil : Rounds [] []
  | cons {frame frames events rest} (first : Round frame events) (more : Rounds frames rest) :
      Rounds (frame :: frames) (events ++ rest)

theorem Round.listen {frame : List UInt8} {events more : List PortEvent}
    (round : Round frame events) (listening : Listening more) :
    Round frame (events ++ more) := by
  rcases round with ⟨talk, listen, rfl, talking, sent, listens, nonempty, acked⟩
  exact ⟨talk, listen ++ more, by simp, talking, sent, listens.append listening,
    by simp [nonempty], by simp [acked]⟩

theorem Round.single {frame : List UInt8} {events : List PortEvent}
    (round : Round frame events) : Rounds [frame] events := by
  simpa using Rounds.cons round Rounds.nil

theorem Rounds.append {first second : List (List UInt8)} {left right : List PortEvent}
    (earlier : Rounds first left) (later : Rounds second right) :
    Rounds (first ++ second) (left ++ right) := by
  induction earlier with
  | nil => exact later
  | cons round _ induction =>
      rw [List.cons_append, List.append_assoc]
      exact Rounds.cons round induction

theorem waitOrReturn_listens (port : Port) (ch : UInt8) (sending : Sending)
    (isOpen : sending.uart.Open) :
    ∃ reads, (waitOrReturn port ch sending).2.uart = sending.uart.after reads ∧
      Listening reads ∧ reads ≠ [] ∧
      ((waitOrReturn port ch sending).1 = .next → ch ∈ readBytes reads) ∧
      ((waitOrReturn port ch sending).1 = .next ∨
        (waitOrReturn port ch sending).1 = .returned 0xFF) := by
  rcases waitForChar_listens port ch sending.uart isOpen with
    ⟨reads, heard, listening, nonempty, found⟩
  unfold waitOrReturn
  generalize ymodemWaitForChar port ch sending.uart = outcome at heard found ⊢
  rcases outcome with ⟨answered, uart⟩
  cases answered with
  | false => exact ⟨reads, heard, listening, nonempty, by simp, by simp⟩
  | true => exact ⟨reads, heard, listening, nonempty, fun _ => found rfl, by simp⟩

theorem talking_packet {writes : List PortEvent} (writing : Writing writes)
    (site : PacketSite) (frame : List UInt8) : Talking (.packet site frame :: writes) := by
  intro event member
  rcases List.mem_cons.mp member with equal | member
  · subst equal
    rfl
  · exact writing.talking event member

/-- A packet and the wait for its `ACK`: one round when the wait succeeds, and
otherwise the end of `Ymodem_Transmit` with `-1`. -/
theorem sendPacketAndWait_round (port : Port) (fuel : Nat) (site : PacketSite)
    (length : Nat) (sending : Sending) (isOpen : sending.uart.Open) (short : length < 2 ^ 16) :
    ∃ events,
      (sendPacketAndWait port fuel site length sending).2.uart =
        sending.uart.after (.packet site (sending.packetData.bytes 0 length) :: events) ∧
      dataFrames events = [] ∧
      ((sendPacketAndWait port fuel site length sending).1 = .next →
        Round (sending.packetData.bytes 0 length)
          (.packet site (sending.packetData.bytes 0 length) :: events)) ∧
      ∀ value, (sendPacketAndWait port fuel site length sending).1 = .returned value →
        value = 0xFF := by
  rcases sendPacket_writes port fuel site length sending isOpen short with
    ⟨writes, ends, writing, complete, _⟩
  generalize sending.packetData.bytes 0 length = frame at ends complete ⊢
  unfold sendPacketAndWait
  generalize ymodemSendPacket port fuel site length sending = outcome at ends complete ⊢
  rcases outcome with ⟨finished, result⟩
  cases finished with
  | false => exact ⟨writes, ends, writing.dataFrames_nil, by simp, by simp⟩
  | true =>
      dsimp only at ends complete ⊢
      have stillOpen : result.uart.Open := by
        rw [ends]
        exact isOpen.after _
      rcases waitOrReturn_listens port ack result stillOpen with
        ⟨reads, heard, listening, nonempty, found, left⟩
      refine ⟨writes ++ reads, ?_, ?_, fun success => ?_, fun value returned => ?_⟩
      · rw [heard, ends, Uart.after_after, List.cons_append]
      · rw [dataFrames_append, writing.dataFrames_nil, listening.dataFrames_nil,
          List.append_nil]
      · exact ⟨.packet site frame :: writes, reads, by simp, talking_packet writing site frame,
          by simpa [sentBytes, outgoing] using complete rfl, listening, nonempty,
          found success⟩
      · simpa [returned] using left

end CosmosPC
