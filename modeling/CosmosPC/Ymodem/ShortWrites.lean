import Mathlib.Logic.Function.Iterate
import CosmosPC.Ymodem.Transmit

/-! # Short writes

The port may take any number of the bytes that `Ymodem_SendPacket` offers it,
and `ComIO::WriteCom` stores into the buffer at each attempt. The loop is taken
apart into its turns, and an invariant of its index is carried through them. -/

namespace CosmosPC

open PortEvent

/-- One turn of the loop of `Ymodem_SendPacket`, from its `index` to the next. -/
def sendPacketTurn (port : Port) (length : Nat) : Nat × Sending → Nat × Sending
  | (index, sending) =>
      if index < length then
        match sending.uart.uartWrite port sending.packetData index (length - index) with
        | (none, data, uart) => (index, ⟨data, uart⟩)
        | (some writelen, data, uart) => ((index + writelen % 2 ^ 16) % 2 ^ 16, ⟨data, uart⟩)
      else
        (index, sending)

def packetEntry (site : PacketSite) (length : Nat) (sending : Sending) : Nat × Sending :=
  (0, { sending with
    uart := sending.uart.note (.packet site (sending.packetData.bytes 0 length)) })

variable {port : Port} {length start : Nat} {entry : Sending}

/-! ## The turns of the loop -/

theorem sendPacketLoop_finished (port : Port) (length fuel index : Nat) (sending : Sending)
    (finished : ¬index < length) :
    ymodemSendPacketLoop port length fuel index sending = (true, sending) := by
  cases fuel <;> rw [ymodemSendPacketLoop, if_neg finished]

theorem uartWrite_cases (uart : Uart) (port : Port) (buffer : Memory)
    (start bytesToWrite : Nat) :
    (uart.updateio = none ∧
      uart.uartWrite port buffer start bytesToWrite = (none, buffer, uart)) ∨
    uart.uartWrite port buffer start bytesToWrite = (some 0, buffer, uart) ∨ uart.Open := by
  rcases uart with ⟨_ | com, log⟩
  · exact Or.inl ⟨rfl, rfl⟩
  · rcases com with ⟨hCom⟩
    cases hCom with
    | false => exact Or.inr (Or.inl rfl)
    | true => exact Or.inr (Or.inr rfl)

theorem sendPacketLoop_turns (port : Port) (length turns index : Nat) (sending : Sending) :
    let state := (sendPacketTurn port length)^[turns] (index, sending)
    (ymodemSendPacketLoop port length turns index sending).2 = state.2 ∧
      ((ymodemSendPacketLoop port length turns index sending).1 = true →
        ¬state.1 < length ∨ state.2.uart.updateio = none) := by
  induction turns generalizing index sending with
  | zero =>
      rw [ymodemSendPacketLoop]
      by_cases unfinished : index < length
      · rw [if_pos unfinished]
        exact ⟨rfl, fun ended => by cases ended⟩
      · rw [if_neg unfinished]
        exact ⟨rfl, fun _ => Or.inl unfinished⟩
  | succ turns induction =>
      by_cases unfinished : index < length
      · rw [Function.iterate_succ_apply, ymodemSendPacketLoop, if_pos unfinished, sendPacketTurn,
          if_pos unfinished]
        rcases uartWrite_cases sending.uart port sending.packetData index (length - index) with
          ⟨gone, nothing⟩ | other
        · have fixed : sendPacketTurn port length (index, sending) = (index, sending) := by
            rw [sendPacketTurn, if_pos unfinished, nothing]
          rw [nothing]
          dsimp only
          rw [Function.iterate_fixed fixed]
          exact ⟨rfl, fun _ => Or.inr gone⟩
        · have offered : ∃ writelen data uart, sending.uart.uartWrite port sending.packetData index
              (length - index) = (some writelen, data, uart) := by
            rcases other with refused | isOpen
            · exact ⟨_, _, _, refused⟩
            · exact ⟨_, _, _, sending.uart.uartWrite_open port _ _ _ isOpen⟩
          rcases offered with ⟨writelen, data, uart, offered⟩
          rw [offered]
          exact induction _ _
      · have fixed : sendPacketTurn port length (index, sending) = (index, sending) := by
          rw [sendPacketTurn, if_neg unfinished]
        rw [sendPacketLoop_finished port length _ _ _ unfinished, Function.iterate_fixed fixed]
        exact ⟨rfl, fun _ => Or.inl unfinished⟩

/-! ## What has been taken -/

/-- The loop is at an index between its first and the length, the port has
taken the bytes between, and the frame is as it was. -/
structure Partway (length start : Nat) (entry : Sending) (state : Nat × Sending) : Prop where
  started : start ≤ state.1
  within : state.1 ≤ length
  taken : ∃ writes, state.2.uart = entry.uart.after writes ∧ Writing writes ∧
    sentBytes writes = entry.packetData.bytes start (state.1 - start)
  kept : ∀ other, other ≠ length → state.2.packetData.cell other = entry.packetData.cell other

theorem partway_entry (started : start ≤ length) : Partway length start entry (start, entry) where
  started := Nat.le_refl start
  within := started
  taken := ⟨[], by simp, by simp [Writing], by simp [sentBytes, Memory.bytes]⟩
  kept _ _ := rfl

theorem Partway.offer {index : Nat} {sending : Sending}
    (partway : Partway length start entry (index, sending)) (accepted : Nat)
    (unfinished : index < length) (fits : accepted ≤ length - index) :
    Partway length start entry (index + accepted,
      ⟨sending.packetData.store length 0, sending.uart.note
        (.write (sending.packetData.bytes index (length - index)) accepted)⟩) := by
  rcases partway with ⟨started, within, ⟨writes, uart, writing, taken⟩, kept⟩
  dsimp only at started within uart taken kept
  have part : (sending.packetData.bytes index (length - index)).take accepted =
      entry.packetData.bytes index accepted := by
    rw [Memory.take_bytes _ _ _ _ fits]
    exact Memory.bytes_congr fun other _ bound => kept other (by omega)
  refine ⟨by dsimp only; omega, by dsimp only; omega,
    ⟨writes ++ [.write (sending.packetData.bytes index (length - index)) accepted], ?_, ?_, ?_⟩, ?_⟩
  · rw [uart, Uart.note, Uart.after_after]
  · exact writing.append (by simp [Writing, isWrite])
  · have sum : index + accepted - start = (index - start) + accepted := by omega
    have next : start + (index - start) = index := by omega
    rw [sentBytes_append, taken, sum, Memory.bytes_add, next, ← part]
    simp [sentBytes, outgoing]
  · intro other different
    rw [Memory.store_cell, if_neg different]
    exact kept other different

theorem Partway.turn {state : Nat × Sending} (partway : Partway length start entry state)
    (short : length < 2 ^ 16) :
    Partway length start entry (sendPacketTurn port length state) := by
  rcases state with ⟨index, sending⟩
  have within : index ≤ length := partway.within
  unfold sendPacketTurn
  by_cases unfinished : index < length
  · simp only [if_pos unfinished]
    rcases uartWrite_cases sending.uart port sending.packetData index (length - index) with
      ⟨_, nothing⟩ | refused | isOpen
    · rw [nothing]
      exact partway
    · have same : (index + 0 % 2 ^ 16) % 2 ^ 16 = index := by omega
      rw [refused]
      dsimp only
      rwa [same]
    · have reach : index + (length - index) = length := by omega
      rw [sending.uart.uartWrite_open port _ _ _ isOpen, reach]
      generalize accepted_eq : min (port.accepts sending.uart.log
        (sending.packetData.bytes index (length - index))) (length - index) = accepted
      have fits : accepted ≤ length - index := by omega
      have advance : (index + accepted % 2 ^ 16) % 2 ^ 16 = index + accepted := by omega
      dsimp only
      rw [advance]
      exact partway.offer accepted unfinished fits
  · simp only [if_neg unfinished]
    exact partway

theorem Partway.turns {state : Nat × Sending} (partway : Partway length start entry state)
    (short : length < 2 ^ 16) (turns : Nat) :
    Partway length start entry ((sendPacketTurn port length)^[turns] state) := by
  induction turns with
  | zero => exact partway
  | succ turns induction =>
      rw [Function.iterate_succ_apply']
      exact induction.turn short

theorem Partway.finished {state : Nat × Sending} (partway : Partway length start entry state)
    (ended : ¬state.1 < length ∨ state.2.uart.updateio = none)
    (plugged : entry.uart.updateio ≠ none) : state.1 = length := by
  rcases partway with ⟨_, within, ⟨writes, uart, _⟩, _⟩
  rcases ended with stopped | gone
  · exact Nat.le_antisymm within (Nat.le_of_not_lt stopped)
  · rw [uart] at gone
    exact absurd gone plugged

theorem sendPacketLoop_writes (port : Port) (length fuel index : Nat) (sending : Sending)
    (isOpen : sending.uart.Open) (short : length < 2 ^ 16) (started : index ≤ length) :
    ∃ writes, (ymodemSendPacketLoop port length fuel index sending).2.uart =
        sending.uart.after writes ∧ Writing writes ∧
      sentBytes writes <+: sending.packetData.bytes index (length - index) ∧
      ((ymodemSendPacketLoop port length fuel index sending).1 = true →
        sentBytes writes = sending.packetData.bytes index (length - index)) ∧
      ∀ other, other ≠ length →
        (ymodemSendPacketLoop port length fuel index sending).2.packetData.cell other =
          sending.packetData.cell other := by
  have plugged : sending.uart.updateio ≠ none := by
    rw [isOpen]
    exact Option.some_ne_none _
  have partway : Partway length index sending
      ((sendPacketTurn port length)^[fuel] (index, sending)) :=
    (partway_entry started).turns short fuel
  rcases sendPacketLoop_turns port length fuel index sending with ⟨same, ended⟩
  generalize (sendPacketTurn port length)^[fuel] (index, sending) = state at partway same ended
  rcases partway.taken with ⟨writes, uart, writing, taken⟩
  rw [same]
  refine ⟨writes, uart, writing, ?_, fun finished => ?_, partway.kept⟩
  · rw [taken, ← Memory.take_bytes _ _ _ _ (Nat.sub_le_sub_right partway.within index)]
    exact List.take_prefix _ _
  · rw [taken, partway.finished (ended finished) plugged]

/-- After any number of turns of `Ymodem_SendPacket`, whatever the port takes at
each, it has taken the first `index` bytes of the frame as it was on entry, and
no byte of the frame has changed; a loop that ends with a port has sent all. -/
theorem sendPacket_short_writes (port : Port) (site : PacketSite) (length : UInt16)
    (sending : Sending) (turns : Nat) :
    let frame := sending.packetData.bytes 0 length.toNat
    let state := (sendPacketTurn port length.toNat)^[turns]
      (packetEntry site length.toNat sending)
    let outcome := ymodemSendPacket port turns site length.toNat sending
    outcome.2 = state.2 ∧ state.1 ≤ length.toNat ∧
      (∃ writes, state.2.uart = sending.uart.after (.packet site frame :: writes) ∧
        Writing writes ∧ sentBytes writes = frame.take state.1 ∧
        (outcome.1 = true → sending.uart.updateio ≠ none → sentBytes writes = frame)) ∧
      ∀ other, other ≠ length.toNat →
        state.2.packetData.cell other = sending.packetData.cell other := by
  intro frame state outcome
  have partway : Partway length.toNat 0 (packetEntry site length.toNat sending).2 state :=
    (partway_entry (Nat.zero_le _)).turns length.toNat_lt turns
  have turned : outcome.2 = state.2 ∧
      (outcome.1 = true → ¬state.1 < length.toNat ∨ state.2.uart.updateio = none) :=
    sendPacketLoop_turns port length.toNat turns 0 (packetEntry site length.toNat sending).2
  rcases turned with ⟨same, ended⟩
  generalize state = now, outcome = result at partway same ended ⊢
  rcases partway.taken with ⟨writes, uart, writing, taken⟩
  have first : sentBytes writes = frame.take now.1 := by
    rw [taken, Nat.sub_zero]
    exact (Memory.take_bytes _ _ _ _ partway.within).symm
  refine ⟨same, partway.within, ⟨writes, ?_, writing, first, fun finished plugged => ?_⟩,
    partway.kept⟩
  · rw [uart]
    exact Uart.after_after sending.uart _ _
  · rw [first, partway.finished (ended finished) plugged]
    exact List.take_of_length_le (Nat.le_of_eq (Memory.length_bytes _ _ _))

end CosmosPC
