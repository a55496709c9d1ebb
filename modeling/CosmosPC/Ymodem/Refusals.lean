import CosmosPC.Ymodem.Answering

/-! # A receiver that refuses blocks

Over a receiver that answers a number of transmissions of each block with `NAK`
before it takes the block. `Ymodem_WaitForChar` passes over a `NAK` like over any
other byte it does not wait for, and no block is sent twice. -/

namespace CosmosPC

/-- The answers to the transmissions of the blocks: so many `NAK`s each, then `ACK`. -/
def blockAnswers (naks : Nat → Nat) (blocks : Nat) : List UInt8 :=
  (List.range blocks).flatMap fun index => List.replicate (naks index) nak ++ [ack]

/-- The answers to a number of bursts: `ACK` and `C` to the header, those to the
blocks one after another, and `ACK` to all that follows. -/
def refusingAnswers (naks : Nat → Nat) (blocks : Nat) : Nat → List UInt8
  | 0 => []
  | bursts + 1 =>
      [ack, crc16] ++ (blockAnswers naks blocks ++ List.replicate bursts ack).take bursts

def owedBy (answers : Nat → List UInt8) (log : List PortEvent) : List UInt8 :=
  (answers (Wire.ofLog log).count).drop (readBytes log).length

/-- Every write is taken whole; the next answer of the refusing receiver comes
before a wait of `Receive_Byte` is over, and nothing else does. -/
structure Refusing (naks : Nat → Nat) (blocks : Nat) (port : Port) : Prop where
  accepts : ∀ log requested, requested.length ≤ port.accepts log requested
  delivers : ∀ log, port.delivers log 1 = [] ∨
    port.delivers log 1 = (owedBy (refusingAnswers naks blocks) log).take 1
  prompt : ∀ log, owedBy (refusingAnswers naks blocks) log ≠ [] →
    ∃ count < nakTimeout, port.delivers (log ++ List.replicate count (.read 1 [])) 1 ≠ []

/-- The frames of a session in which every refused block is sent again. -/
def resentFrames (naks : Nat → Nat) (image : List UInt8) : List (List UInt8) :=
  (List.range (blockCount image.length)).flatMap fun index =>
    List.replicate (naks index + 1) (canonicalFrame image index)

/-- The session ends well, and has sent every block once more than it was refused. -/
def Recovers (naks : Nat → Nat) (image : List UInt8) (outcome : Flow × Sending) : Prop :=
  outcome.1 = .returned 0 ∧ dataFrames outcome.2.uart.log = resentFrames naks image

/-! ## Without refusals -/

theorem blockAnswers_of_none {naks : Nat → Nat} {blocks : Nat}
    (none : ∀ index, index < blocks → naks index = 0) :
    blockAnswers naks blocks = List.replicate blocks ack := by
  induction blocks with
  | zero => rfl
  | succ blocks induction =>
      have earlier := induction fun index within => none index (Nat.lt_succ_of_lt within)
      rw [blockAnswers] at earlier ⊢
      rw [List.range_succ, List.flatMap_append, earlier, List.flatMap_singleton,
        none blocks (Nat.lt_succ_self blocks), List.replicate_succ']
      rfl

theorem refusingAnswers_of_none {naks : Nat → Nat} {blocks : Nat}
    (none : ∀ index, index < blocks → naks index = 0) (bursts : Nat) :
    refusingAnswers naks blocks bursts = answersTo bursts := by
  cases bursts with
  | zero => rfl
  | succ bursts =>
      rw [refusingAnswers, blockAnswers_of_none none, List.replicate_append_replicate,
        List.take_replicate, Nat.min_eq_left (Nat.le_add_left bursts blocks)]
      rfl

theorem Refusing.answering {naks : Nat → Nat} {blocks : Nat} {port : Port}
    (refusing : Refusing naks blocks port) (none : ∀ index, index < blocks → naks index = 0) :
    Answering port := by
  have same (log : List PortEvent) : owedBy (refusingAnswers naks blocks) log = owed log := by
    rw [owedBy, refusingAnswers_of_none none]
    rfl
  rcases refusing with ⟨accepts, delivers, prompt⟩
  simp only [same] at delivers prompt
  exact ⟨accepts, delivers, prompt⟩

theorem resentFrames_of_none {naks : Nat → Nat} {image : List UInt8}
    (none : ∀ index, index < blockCount image.length → naks index = 0) :
    resentFrames naks image = canonicalFrames image := by
  have once (index : Nat) (member : index ∈ List.range (blockCount image.length)) :
      List.replicate (naks index + 1) (canonicalFrame image index) =
        [canonicalFrame image index] := by
    rw [none index (List.mem_range.mp member)]
    rfl
  rw [resentFrames, canonicalFrames, List.map_eq_flatMap, List.flatMap_def, List.flatMap_def,
    List.map_congr_left once]

/-! ## Frames that would have to be sent again -/

theorem refused_of_length (naks : Nat → Nat) (frame : Nat → List UInt8) (blocks : Nat) :
    blocks ≤ ((List.range blocks).flatMap fun index =>
        List.replicate (naks index + 1) (frame index)).length ∧
      (((List.range blocks).flatMap fun index =>
          List.replicate (naks index + 1) (frame index)).length ≤ blocks →
        ∀ index, index < blocks → naks index = 0) := by
  induction blocks with
  | zero => simp
  | succ blocks induction =>
      rcases induction with ⟨least, none⟩
      rw [List.range_succ, List.flatMap_append, List.length_append, List.flatMap_singleton,
        List.length_replicate]
      refine ⟨by omega, fun few index within => ?_⟩
      by_cases last : index = blocks
      · subst last
        omega
      · exact none (by omega) index (by omega)

theorem Recovers.none_refused {naks : Nat → Nat} {port : Port} {fuel : Nat} {locals : Locals}
    {buf sendFileName : Nat → UInt8} {sizeFile : Nat}
    (recovers : Recovers naks (imageOf buf sizeFile)
      (ymodemTransmit port fuel locals buf sendFileName sizeFile Uart.opened)) :
    ∀ index, index < blockCount sizeFile → naks index = 0 := by
  rcases transmit_history port fuel locals buf sendFileName sizeFile Uart.opened
    Uart.opened_open with ⟨events, ends, sent, _⟩
  have frames : dataFrames events = resentFrames naks (imageOf buf sizeFile) := by
    have log := recovers.2
    rw [ends] at log
    exact log
  have few := sent.length_le
  rw [frames, resentFrames] at few
  simp only [canonicalFrames, List.length_map, List.length_range, length_imageOf] at few
  exact (refused_of_length naks (canonicalFrame (imageOf buf sizeFile)) _).2 few

/-- A session over a refusing receiver recovers exactly if nothing is refused. -/
theorem transmit_recovers_iff (naks : Nat → Nat) (port : Port) (fuel : Nat) (locals : Locals)
    (buf sendFileName : Nat → UInt8) (sizeFile : Nat)
    (refusing : Refusing naks (blockCount sizeFile) port)
    (sendable : blockCount sizeFile ≤ userFlashSize / 1024) :
    Recovers naks (imageOf buf sizeFile)
        (ymodemTransmit port (fuel + 1) locals buf sendFileName sizeFile Uart.opened) ↔
      ∀ index, index < blockCount sizeFile → naks index = 0 := by
  constructor
  · exact Recovers.none_refused
  · intro none
    have returns := (transmit_returns_zero_iff port (refusing.answering none) fuel locals buf
      sendFileName sizeFile).mpr sendable
    rcases transmit_history port (fuel + 1) locals buf sendFileName sizeFile Uart.opened
      Uart.opened_open with ⟨events, ends, _, finished⟩
    refine ⟨returns, ?_⟩
    rw [resentFrames_of_none (by rwa [length_imageOf]), ← (finished returns).1, ends]
    rfl

def refusingPort (naks : Nat → Nat) (blocks : Nat) : Port where
  accepts _ requested := requested.length
  delivers log requested := (owedBy (refusingAnswers naks blocks) log).take requested

theorem refusingPort_refusing (naks : Nat → Nat) (blocks : Nat) :
    Refusing naks blocks (refusingPort naks blocks) where
  accepts _ _ := Nat.le_refl _
  delivers _ := Or.inr rfl
  prompt log owing := by
    refine ⟨0, by decide, ?_⟩
    rcases answers : owedBy (refusingAnswers naks blocks) log with _ | ⟨answer, rest⟩
    · exact absurd answers owing
    · simp [refusingPort, answers]

theorem transmit_recovers_unrefused :
    Recovers (fun _ => 0) (imageOf (fun _ => 7) 300)
      (ymodemTransmit (refusingPort (fun _ => 0) (blockCount 300)) (0 + 1)
        ⟨Memory.zeroed, fun _ => 0, []⟩ (fun _ => 7) (fun _ => 0) 300 Uart.opened) :=
  (transmit_recovers_iff (fun _ => 0) _ 0 _ (fun _ => 7) (fun _ => 0) 300
    (refusingPort_refusing _ _) (by decide)).mpr fun _ _ => rfl

/-- The only block of a byte is refused once. -/
theorem one_refusal_is_not_recovered :
    Refusing (fun _ => 1) (blockCount 1) (refusingPort (fun _ => 1) (blockCount 1)) ∧
      ¬Recovers (fun _ => 1) (imageOf (fun _ => 7) 1)
        (ymodemTransmit (refusingPort (fun _ => 1) (blockCount 1)) 1
          ⟨Memory.zeroed, fun _ => 0, []⟩ (fun _ => 7) (fun _ => 0) 1 Uart.opened) := by
  refine ⟨refusingPort_refusing _ _, fun recovers => ?_⟩
  exact absurd (recovers.none_refused 0 (by decide)) (by decide)

end CosmosPC
