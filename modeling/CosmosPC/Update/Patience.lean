import CosmosPC.Update.Delivery
import CosmosPC.Ymodem.Patience

/-! # How long an update takes

An update that gets no answer, or none that it waits for, gives up by itself.
Only a port that takes nothing can hold it. -/

namespace CosmosPC

open PortEvent

/-- Some events of the port with at most so many reads and bytes on the cable. -/
structure Affordable (port : Port) (reads bytes : Nat) (events : List PortEvent) : Prop where
  reads : events.countP isRead ≤ reads
  sent : (sentBytes events).length ≤ bytes
  frugal : port.Taking → Frugal events

/-- A stretch of `doUpdate` with what it may spend. With a port that takes
something of every write, it is not left running. -/
structure Spends (port : Port) (fuel reads bytes : Nat) (before : Update)
    (result : Except UpdateOutcome Update) : Prop where
  spent : ∃ events, (UpdateOutcome.ofStretches result).update.trace = before.trace ++ events ∧
    Affordable port reads bytes (portEvents events)
  returns : port.Taking → longestFrame ≤ fuel → (UpdateOutcome.ofStretches result).returned = true

variable {port : Port} {fuel reads bytes : Nat}

theorem affordable_nil (port : Port) : Affordable port 0 0 [] :=
  ⟨Nat.le_refl 0, Nat.le_refl 0, fun _ => Nat.le_refl 0⟩

theorem Affordable.append {more others : Nat} {first second : List PortEvent}
    (earlier : Affordable port reads bytes first) (later : Affordable port more others second) :
    Affordable port (reads + more) (bytes + others) (first ++ second) where
  reads := by
    rw [List.countP_append]
    exact Nat.add_le_add earlier.reads later.reads
  sent := by
    rw [sentBytes_append, List.length_append]
    exact Nat.add_le_add earlier.sent later.sent
  frugal taking := (earlier.frugal taking).append (later.frugal taking)

theorem Listening.affordable {events : List PortEvent} (listening : Listening events)
    (port : Port) :
    Affordable port events.length 0 events where
  reads := List.countP_le_length
  sent := by
    rw [listening.sentBytes_nil]
    exact Nat.le_refl 0
  frugal _ := listening.frugal

/-- One stretch, and another one if the first goes on to it. -/
theorem Spends.bind {more others : Nat} {before : Update} {first : Except UpdateOutcome Update}
    {next : Update → Except UpdateOutcome Update}
    (earlier : Spends port fuel reads bytes before first)
    (later : ∀ after, first = .ok after → Spends port fuel more others after (next after)) :
    Spends port fuel (reads + more) (bytes + others) before (first >>= next) := by
  rcases earlier with ⟨⟨events, trace, cost⟩, returns⟩
  cases first with
  | error outcome =>
      refine ⟨⟨events, trace, ?_⟩, returns⟩
      exact ⟨Nat.le_trans cost.reads (Nat.le_add_right _ _),
        Nat.le_trans cost.sent (Nat.le_add_right _ _), cost.frugal⟩
  | ok after =>
      rcases later after rfl with ⟨⟨further, furtherTrace, furtherCost⟩, furtherReturns⟩
      refine ⟨⟨events ++ further, ?_, ?_⟩, furtherReturns⟩
      · have reached : after.trace = before.trace ++ events := trace
        change (UpdateOutcome.ofStretches (next after)).update.trace = _
        rw [furtherTrace, reached, List.append_assoc]
      · rw [portEvents_append]
        exact cost.append furtherCost

/-! ## The stretches -/

variable (port fuel) (dialog : List UpdateEvent → ItemText)

theorem writePort_affordable {update : Update} (isOpen : update.form1.Open)
    {command : List UInt8} (some : command ≠ []) :
    ∃ accepted after, update.writePort port dialog command = .ok after ∧
      Went update [.performed (.write command accepted)] after ∧
      Affordable port 0 command.length [.write command accepted] := by
  have buffer : (Update.commandBuffer command).bytes 0 command.length = command := by
    apply List.ext_getElem
    · simp
    · intro index inside within
      simp [Update.commandBuffer, within]
  have long := List.length_pos_iff.mpr some
  rw [Update.writePort, update.form1.uartWrite_open port _ _ _ isOpen, buffer]
  refine ⟨_, _, rfl, went_perform isOpen [_], Nat.le_refl 0, ?_, fun taking => ?_⟩
  · simp [sentBytes, outgoing]
  · exact frugal_write (Nat.le_min.mpr ⟨taking _ _ some, long⟩) some

theorem spends_askDevice {update : Update} (isOpen : update.form1.Open) {command : List UInt8}
    (some : command ≠ []) :
    Spends port fuel 20 command.length update (update.askDevice port dialog command) := by
  rcases writePort_affordable port dialog isOpen some with ⟨accepted, written, writes, wrote, cost⟩
  rcases pollPort_listens port dialog wrote.isOpen 20 0 with
    ⟨count, reply, polled, polls, went, _, listening, length⟩
  have outcome : update.askDevice port dialog command =
      if count = 0 then
        .error ⟨true, (polled.record (.shown "DEVICE NO RESPONDSE\r\n")).uartClose⟩
      else .ok polled := by
    rw [Update.askDevice, writes]
    change (Update.pollPort port dialog 20 0 written >>= _) = _
    rw [polls]
    rfl
  have asked := wrote.trans went
  have all := cost.append (listening.affordable port)
  rw [length, Nat.zero_add, Nat.add_zero] at all
  rw [outcome]
  split
  · refine ⟨⟨[.performed (.write command accepted)] ++ reply ++
      [.shown "DEVICE NO RESPONDSE\r\n", .close], ?_, ?_⟩, fun _ _ => rfl⟩
    · rw [← List.append_assoc, ← asked.trace]
      exact List.append_assoc polled.trace [_] [_]
    · have quiet : portEvents [.shown "DEVICE NO RESPONDSE\r\n", .close] = [] := rfl
      rw [portEvents_append, quiet, List.append_nil]
      exact all
  · exact ⟨⟨_, asked.trace, all⟩, fun _ _ => rfl⟩

theorem after_injective {uart : Uart} {first second : List PortEvent}
    (same : uart.after first = uart.after second) : first = second :=
  List.append_cancel_left (congrArg Uart.log same)

theorem spends_transmitImage {update : Update} (isOpen : update.form1.Open) (locals : Locals)
    (filename : Nat → UInt8) (imageLen : Nat) :
    Spends port fuel
      (waitReads * (min (blockCount imageLen) (userFlashSize / 1024) + 4) + 20)
      (wireLength imageLen) update
      (update.transmitImage port dialog fuel locals filename imageLen) := by
  have called := went_record isOpen (.transmit (update.imageData.bytes 0 imageLen) imageLen)
  rcases patient_transmit port fuel locals update.imageData.cell filename imageLen isOpen with
    ⟨⟨events, ends, few, frugal⟩, stops⟩
  rcases transmit_sends_at_most port fuel locals update.imageData.cell filename imageLen isOpen
    with ⟨others, same, short⟩
  rw [← after_injective (ends.symm.trans same)] at short
  have session : Affordable port
      (waitReads * (min (blockCount imageLen) (userFlashSize / 1024) + 4)) (wireLength imageLen)
      events := ⟨few, short, frugal⟩
  rcases result : ymodemTransmit port fuel locals update.imageData.cell filename imageLen
    update.form1 with ⟨flow, sending⟩
  rw [result] at ends stops
  dsimp only at ends stops
  have sent : Went update ([.transmit (update.imageData.bytes 0 imageLen) imageLen] ++
      events.map .performed)
      ((update.record (.transmit (update.imageData.bytes 0 imageLen) imageLen)).perform
        (update.form1.after events)) :=
    called.trans (went_perform called.isOpen events)
  have stage : update.transmitImage port dialog fuel locals filename imageLen =
      ((update.record (.transmit (update.imageData.bytes 0 imageLen) imageLen)).perform
        (update.form1.after events)).afterTransmit port dialog flow := by
    unfold Update.transmitImage
    dsimp only [Update.record]
    rw [result, ← ends]
  have listened : portEvents ([.transmit (update.imageData.bytes 0 imageLen) imageLen] ++
      events.map .performed) = events := portEvents_performed events
  rw [stage, Update.afterTransmit]
  by_cases running : flow = .running
  · rw [if_pos running]
    refine ⟨⟨_, sent.trace, ?_⟩, fun taking enough => absurd running (stops taking enough)⟩
    rw [listened]
    exact ⟨Nat.le_trans session.reads (Nat.le_add_right _ _), session.sent, session.frugal⟩
  · rw [if_neg running]
    by_cases success : flow = .returned 0
    · rcases pollPort_listens port dialog sent.isOpen 20 0 with
        ⟨count, polled, after, polls, went, _, listening, length⟩
      have all := session.append (listening.affordable port)
      rw [length, Nat.add_zero] at all
      have outcome := congrArg (Except.map Prod.snd) polls
      rw [if_pos success, outcome]
      refine ⟨⟨_, (sent.trans went).trace, ?_⟩, fun _ _ => rfl⟩
      rw [portEvents_append, listened]
      exact all
    · rw [if_neg success]
      refine ⟨⟨_, sent.trace, ?_⟩, fun _ _ => rfl⟩
      rw [listened]
      exact ⟨Nat.le_trans session.reads (Nat.le_add_right _ _), session.sent, session.frugal⟩

theorem spends_farewell {update : Update} (isOpen : update.form1.Open) :
    Spends port fuel 30 1 update (update.farewell port dialog) := by
  rcases writePort_affordable port dialog isOpen (List.cons_ne_nil 51 []) with
    ⟨accepted, written, writes, wrote, cost⟩
  rcases pollPort_listens port dialog wrote.isOpen 30 0 with
    ⟨count, reply, polled, polls, went, _, listening, length⟩
  have outcome : update.farewell port dialog = .ok polled.uartClose := by
    rw [Update.farewell, writes]
    change (Update.pollPort port dialog 30 0 written >>= _) = _
    rw [polls]
    rfl
  have all := cost.append (listening.affordable port)
  rw [length, Nat.zero_add] at all
  rw [outcome]
  refine ⟨⟨[.performed (.write [51] accepted)] ++ reply ++ [.close], ?_, ?_⟩, fun _ _ => rfl⟩
  · rw [← List.append_assoc, ← (wrote.trans went).trace]
    rfl
  · have quiet : portEvents [.close] = [] := rfl
    rw [portEvents_append, quiet, List.append_nil]
    exact all

/-! ## The whole update -/

theorem open_of_askDevice {update after : Update} (isOpen : update.form1.Open)
    {command : List UInt8} (asks : update.askDevice port dialog command = .ok after) :
    after.form1.Open := by
  rcases askDevice_went port dialog isOpen command with
    ⟨_, met, meets, went, _⟩ | ⟨_, _, silent, _⟩
  · cases asks.symm.trans meets
    exact went.isOpen
  · cases asks.symm.trans silent

theorem open_of_transmitImage {update after : Update} (isOpen : update.form1.Open)
    (locals : Locals) (filename : Nat → UInt8) (imageLen : Nat)
    (sends : update.transmitImage port dialog fuel locals filename imageLen = .ok after) :
    after.form1.Open := by
  rcases transmitImage_went port dialog isOpen fuel locals filename imageLen with
    ⟨_, sent, _, went, sending | running⟩
  · cases sends.symm.trans sending
    exact went.isOpen
  · cases sends.symm.trans running

theorem spends_converse (update : Update) (locals : Locals) (filename : Nat → UInt8)
    (imageLen : Nat) :
    Spends port fuel
      (90 + waitReads * (min (blockCount imageLen) (userFlashSize / 1024) + 4))
      (4 + wireLength imageLen) update
      (update.converse port dialog fuel locals filename imageLen) := by
  rcases went_init dialog update with ⟨name, started⟩
  have opened := started.trans (went_showCommPort dialog started.isOpen "OPEN %s .....\r\n")
  have greets := spends_askDevice port fuel dialog opened.isOpen (List.cons_ne_nil 97 [48])
  have rest := greets.bind fun met asks => by
    have open₁ := open_of_askDevice port dialog opened.isOpen asks
    exact (spends_askDevice port fuel dialog open₁ (List.cons_ne_nil 49 [])).bind
      fun heard asksAgain => by
        have open₂ := open_of_askDevice port dialog open₁ asksAgain
        exact (spends_transmitImage port fuel dialog open₂ locals filename imageLen).bind
          fun sent sends => spends_farewell port fuel dialog
            (open_of_transmitImage port fuel dialog open₂ locals filename imageLen sends)
  have total : 20 + (20 + (waitReads * (min (blockCount imageLen) (userFlashSize / 1024) + 4) +
      20 + 30)) = 90 + waitReads * (min (blockCount imageLen) (userFlashSize / 1024) + 4) := by
    omega
  have bytes : ([97, 48] : List UInt8).length + (([49] : List UInt8).length +
      (wireLength imageLen + 1)) = 4 + wireLength imageLen := by
    simp only [List.length_cons, List.length_nil]
    omega
  rw [total, bytes] at rest
  rcases rest with ⟨⟨events, trace, cost⟩, returns⟩
  refine ⟨⟨[.init name] ++ [.shown "OPEN %s .....\r\n"] ++ events, ?_, cost⟩, returns⟩
  rw [← List.append_assoc, ← opened.trace]
  exact trace

structure Modest (port : Port) (fuel imageLen : Nat) (outcome : UpdateOutcome) : Prop where
  cost : Affordable port
    (90 + waitReads * (min (blockCount imageLen) (userFlashSize / 1024) + 4))
    (4 + wireLength imageLen) (portEvents outcome.update.trace)
  returns : port.Taking → longestFrame ≤ fuel → outcome.returned = true

theorem modest_unspent (imageLen : Nat) (update : Update) (fresh : update.trace = []) :
    Modest port fuel imageLen ⟨true, update⟩ := by
  refine ⟨?_, fun _ _ => rfl⟩
  rw [fresh]
  exact ⟨Nat.zero_le _, Nat.zero_le _, (affordable_nil port).frugal⟩

theorem modest_doUpdate (locals : Locals) (filename : Nat → UInt8) (file : BinFile)
    (imageData : Memory) (form1 : Uart) (commPort : TextArray terminator) :
    Modest port fuel file.getFileSize
      (doUpdate port fuel locals dialog filename file imageData form1 commPort) := by
  unfold doUpdate
  split_ifs
  · exact modest_unspent port fuel _ _ rfl
  · exact modest_unspent port fuel _ _ rfl
  · rcases loadImage file file.getFileSize 0 imageData with ⟨whole, loaded⟩
    cases whole with
    | false => exact modest_unspent port fuel _ _ rfl
    | true =>
        rcases spends_converse port fuel dialog ⟨loaded, form1, commPort, []⟩ locals filename
          file.getFileSize with ⟨⟨events, trace, cost⟩, returns⟩
        refine ⟨?_, returns⟩
        dsimp only
        rw [trace]
        exact cost

/-- Whatever the file, the port and the device do, an update makes a bounded number
of reads and puts a bounded number of bytes on the cable. If the port takes
something of every write, no write is in vain, and the update comes to its end
with no more turns of a loop than the longest frame has bytes. -/
theorem update_comes_to_an_end (locals : Locals) (filename : Nat → UInt8) (file : BinFile)
    (imageData : Memory) (form1 : Uart) (commPort : TextArray terminator) :
    let outcome := doUpdate port fuel locals dialog filename file imageData form1 commPort
    let events := portEvents outcome.update.trace
    events.countP isRead ≤
        90 + waitReads * (min (blockCount file.getFileSize) (userFlashSize / 1024) + 4) ∧
      (sentBytes events).length ≤ 4 + wireLength file.getFileSize ∧
      (port.Taking → events.countP isWrite ≤ (sentBytes events).length ∧
        (longestFrame ≤ fuel → outcome.returned = true)) := by
  intro outcome events
  have modest := modest_doUpdate port fuel dialog locals filename file imageData form1 commPort
  exact ⟨modest.cost.reads, modest.cost.sent, fun taking =>
    ⟨modest.cost.frugal taking, modest.returns taking⟩⟩

theorem promptDevice_taking : promptDevice.Taking := by
  intro log requested some
  exact List.length_pos_iff.mpr some

theorem update_comes_to_an_end_five :
    (doUpdate promptDevice longestFrame ⟨Memory.zeroed, fun _ => 0, []⟩ (fun _ => comThree)
      (fun _ => 0) fiveBytes Memory.zeroed Uart.opened commBuffer).returned = true :=
  ((update_comes_to_an_end promptDevice longestFrame (fun _ => comThree)
    ⟨Memory.zeroed, fun _ => 0, []⟩ (fun _ => 0) fiveBytes Memory.zeroed Uart.opened
    commBuffer).2.2 promptDevice_taking).2 (Nat.le_refl _)

end CosmosPC
