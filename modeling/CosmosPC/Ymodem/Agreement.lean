import CosmosPC.Ymodem.Answering
import CosmosPC.Ymodem.FaultyLink

/-! # Agreement with the receiver

A session that returns zero has read as many `ACK`s as it has sent bursts, so
the receiver has accepted every one of them: it holds the image and has seen the
end. -/

namespace CosmosPC

namespace Receiver

theorem next_header {receiver after : Receiver} {frame : List UInt8}
    (phase : receiver.phase = .header) (accepted : receiver.next frame = some after) :
    after = { receiver with phase := .data } := by
  rw [next, accept, phase] at accepted
  dsimp only at accepted
  split at accepted
  · exact (Option.some.inj accepted).symm
  · cases accepted

theorem next_data {receiver after : Receiver} {frame : List UInt8}
    (phase : receiver.phase = .data) (noEnd : frame ≠ [eot])
    (accepted : receiver.next frame = some after) :
    after = { receiver with stored := receiver.stored ++ [framePayload frame] } := by
  rcases receiver with ⟨_, stored⟩
  cases phase
  rw [next, accept] at accepted
  dsimp only at accepted
  rw [if_neg noEnd] at accepted
  split at accepted
  · exact (Option.some.inj accepted).symm
  · cases accepted

theorem next_eot {receiver after : Receiver} (phase : receiver.phase = .data)
    (accepted : receiver.next [eot] = some after) :
    after = { receiver with phase := .closing } := by
  rw [next, accept, phase] at accepted
  dsimp only at accepted
  rw [if_pos rfl] at accepted
  exact (Option.some.inj accepted).symm

theorem next_closing {receiver after : Receiver} {frame : List UInt8}
    (phase : receiver.phase = .closing) (accepted : receiver.next frame = some after) :
    after = { receiver with phase := .done } := by
  rw [next, accept, phase] at accepted
  dsimp only at accepted
  split at accepted
  · exact (Option.some.inj accepted).symm
  · cases accepted

theorem foldlM_data {frames : List (List UInt8)} {receiver after : Receiver}
    (phase : receiver.phase = .data) (noEnd : ∀ frame ∈ frames, frame ≠ [eot])
    (accepted : frames.foldlM next receiver = some after) :
    after = { receiver with stored := receiver.stored ++ frames.map framePayload } := by
  induction frames generalizing receiver with
  | nil =>
      cases accepted
      simp
  | cons frame frames induction =>
      rw [List.foldlM_cons] at accepted
      rcases Option.bind_eq_some_iff.mp accepted with ⟨middle, first, rest⟩
      have stored := next_data phase (noEnd frame List.mem_cons_self) first
      subst stored
      have last := induction (show Receiver.phase { receiver with
          stored := receiver.stored ++ [framePayload frame] } = .data from phase)
        (fun later member => noEnd later (List.mem_cons_of_mem frame member)) rest
      rw [last]
      simp

/-- A whole session, once accepted, leaves the payloads stored and its end seen. -/
theorem foldlM_session {header closing : List UInt8} {frames : List (List UInt8)}
    {after : Receiver} (noEnd : ∀ frame ∈ frames, frame ≠ [eot])
    (accepted : ([header] ++ frames ++ [[eot], closing]).foldlM next initial = some after) :
    after = ⟨.done, frames.map framePayload⟩ := by
  rw [List.append_assoc, List.singleton_append, List.foldlM_cons] at accepted
  rcases Option.bind_eq_some_iff.mp accepted with ⟨begun, first, rest⟩
  rw [List.foldlM_append] at rest
  rcases Option.bind_eq_some_iff.mp rest with ⟨full, blocks, farewell⟩
  rw [List.foldlM_cons] at farewell
  rcases Option.bind_eq_some_iff.mp farewell with ⟨ended, atEnd, last⟩
  rw [List.foldlM_cons] at last
  rcases Option.bind_eq_some_iff.mp last with ⟨closed, atClose, same⟩
  cases same
  have afterHeader := next_header rfl first
  subst afterHeader
  have afterBlocks := foldlM_data rfl noEnd blocks
  subst afterBlocks
  have afterEnd := next_eot rfl atEnd
  subst afterEnd
  exact next_closing rfl atClose

end Receiver

theorem canonicalFrame_ne_eot (image : List UInt8) :
    ∀ frame ∈ canonicalFrames image, frame ≠ [eot] := by
  intro frame member same
  rcases List.mem_map.mp member with ⟨index, _, rfl⟩
  have lengths := congrArg List.length same
  simp [canonicalFrame, packetOverhead] at lengths
  omega

theorem Rounds.taken {first link : Link} (fresh : first.Fresh) {labels : List (Option PortEvent)}
    {frames : List (List UInt8)} (run : Run Link.Step first labels link)
    (rounds : Rounds frames labels.reduceOption) :
    (∀ frame ∈ frames, frame ≠ []) ∧
      frames.foldlM Receiver.next Receiver.initial = some link.receiver ∧ link.Quiet := by
  rcases fresh.abstracted run with ⟨actions, abstract, abstractRun, abstracts⟩
  have invariant := AckedLink.Invariant.run abstractRun
  have wire : Wire.ofLog labels.reduceOption = ⟨frames.filter (· ≠ []), []⟩ := by
    rw [Wire.ofLog, Wire.run_rounds ⟨[], []⟩ rfl rounds, List.nil_append]
  have talking : link.turned = false := by
    cases state : link.turned with
    | false => rfl
    | true => exact absurd (congrArg Wire.begun wire) (abstracts.turned state).2.1
  rcases abstracts.talking talking with ⟨sent, burst⟩
  rw [wire] at sent burst
  change abstract.sent = frames.filter (· ≠ []) at sent
  have enough := rounds.acks
  rw [← abstracts.taken] at enough
  have counted := invariant.counted
  have length := congrArg List.length sent
  rw [AckedLink.State.sent, List.length_append] at length
  have atMost := List.length_filter_le (· ≠ ([] : List UInt8)) frames
  have all : frames.filter (· ≠ []) = frames :=
    List.filter_eq_self.mpr (List.length_filter_eq_length_iff.mp (by omega))
  have nothingLeft : abstract.inFlight = [] := List.eq_nil_of_length_eq_zero (by omega)
  refine ⟨fun frame member => by simpa using List.filter_eq_self.mp all frame member, ?_,
    ⟨burst, talking, abstracts.inFlight.symm.trans nothingLeft⟩⟩
  rw [all] at sent
  rw [← abstracts.peer, ← sent]
  exact invariant.all_accepted (by rw [sent]; exact enough)

theorem rounds_accepted {labels : List (Option PortEvent)} {link : Link}
    {frames : List (List UInt8)} (run : Run Link.Step Link.initial labels link)
    (rounds : Rounds frames labels.reduceOption) :
    (∀ frame ∈ frames, frame ≠ []) ∧
      frames.foldlM Receiver.next Receiver.initial = some link.receiver := by
  rcases rounds.taken Link.initial_fresh run with ⟨nonempty, accepted, _⟩
  exact ⟨nonempty, accepted⟩

/-- Whatever the cable loses, damages or delays: if `Ymodem_Transmit` returns
zero, the receiver has stored every block once and in order, what it has stored
is the image, and it has seen the end of the session. -/
theorem transmit_agreement (port : Port) (fuel : Nat) (locals : Locals)
    (buf sendFileName : Nat → UInt8) (sizeFile : Nat) (labels : List (Option PortEvent))
    (link : Link)
    (success : (ymodemTransmit port fuel locals buf sendFileName sizeFile Uart.opened).1 =
      .returned 0)
    (run : Run Link.Step Link.initial labels link)
    (carried : labels.reduceOption =
      (ymodemTransmit port fuel locals buf sendFileName sizeFile Uart.opened).2.uart.log) :
    link.receiver.phase = .done ∧
      link.receiver.stored =
        (List.range (blockCount sizeFile)).map (canonicalPayload (imageOf buf sizeFile)) ∧
      link.receiver.stored.flatten.take sizeFile = imageOf buf sizeFile := by
  rcases transmit_history port fuel locals buf sendFileName sizeFile Uart.opened
    Uart.opened_open with ⟨events, ends, _, finished⟩
  rcases (finished success).2 with ⟨header, farewell, closing, rounds, bye⟩
  have size := length_imageOf buf sizeFile
  generalize imageOf buf sizeFile = image at rounds size ⊢
  have log : labels.reduceOption = events := by
    rw [carried, ends]
    simp [Uart.opened]
  rcases rounds_accepted run (log ▸ rounds) with ⟨nonempty, accepted⟩
  have farewellIsEot : farewell = [eot] :=
    bye.resolve_right (nonempty farewell (by simp))
  rw [farewellIsEot] at accepted
  have last := Receiver.foldlM_session (canonicalFrame_ne_eot image) accepted
  have stored : link.receiver.stored =
      (List.range (blockCount sizeFile)).map (canonicalPayload image) := by
    rw [last, canonicalFrames, List.map_map, size]
    apply List.map_congr_left
    intro index _
    simp [canonicalFrame]
  refine ⟨by rw [last], stored, ?_⟩
  have joined := take_flatten_payloads image (blockCount image.length) (Nat.le_refl _)
  rw [size] at joined
  rw [stored, joined]
  apply List.take_of_length_le
  have beyond := blockStart_lt_iff sizeFile (blockCount sizeFile)
  omega

set_option maxRecDepth 20000 in
theorem transmit_agreement_short :
    ∃ labels link, Run Link.Step Link.initial labels link ∧ link.receiver.phase = .done ∧
      link.receiver.stored =
        (List.range (blockCount 5)).map (canonicalPayload (imageOf (fun _ => 7) 5)) ∧
      link.receiver.stored.flatten.take 5 = imageOf (fun _ => 7) 5 := by
  let outcome := ymodemTransmit promptPort 1 ⟨Memory.zeroed, fun _ => 0, []⟩ (fun _ => 7)
    (fun _ => 0) 5 Uart.opened
  have success : outcome.1 = .returned 0 :=
    (transmit_returns_zero_iff promptPort promptPort_answering 0 ⟨Memory.zeroed, fun _ => 0, []⟩
      (fun _ => 7) (fun _ => 0) 5).mpr (by decide)
  have carried : (outcome.2.uart.log.foldlM Link.carry Link.initial).isSome = true := by
    decide +kernel
  rcases Option.isSome_iff_exists.mp carried with ⟨link, carries⟩
  rcases Link.carry_runs rfl rfl carries with ⟨labels, run, visible⟩
  exact ⟨labels, link, run, transmit_agreement promptPort 1 ⟨Memory.zeroed, fun _ => 0, []⟩
    (fun _ => 7) (fun _ => 0) 5 labels link success run visible⟩

end CosmosPC
