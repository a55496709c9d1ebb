import CosmosPC.Update.Loading
import CosmosPC.Ymodem.Answering
import CosmosPC.Ymodem.Stretches

/-! # The trace of an update

A run of `doUpdate` that does anything with the port has one of three traces: it
closes the port because the device does not answer, it is still sending the
image, or it has been through all of its stages and closed the port. -/

namespace CosmosPC

namespace UpdateEvent

def incoming : UpdateEvent → List UInt8
  | performed event => event.incoming
  | _ => []

def isTransmit : UpdateEvent → Bool
  | transmit _ _ => true
  | _ => false

def isChatter : UpdateEvent → Bool
  | performed _ => true
  | shown _ => true
  | _ => false

end UpdateEvent

def received (events : List UpdateEvent) : List UInt8 := events.flatMap UpdateEvent.incoming

def Chatter (events : List UpdateEvent) : Prop := ∀ event ∈ events, event.isChatter = true

theorem Chatter.append {first second : List UpdateEvent} (left : Chatter first)
    (right : Chatter second) : Chatter (first ++ second) := by
  intro event member
  exact (List.mem_append.mp member).elim (left event) (right event)

theorem chatter_performed (events : List PortEvent) : Chatter (events.map .performed) := by
  intro event member
  rcases List.mem_map.mp member with ⟨_, _, rfl⟩
  rfl

theorem chatter_shown (format : String) : Chatter [.shown format] := by
  intro event member
  rw [List.mem_singleton.mp member]
  rfl

/-- A command is written, and some bytes are received after it. -/
def Answered (command : List UInt8) (events : List UpdateEvent) : Prop :=
  ∃ accepted reply, events = .performed (.write command accepted) :: reply ∧ Chatter reply ∧
    received reply ≠ []

theorem Answered.chatter {command : List UInt8} {events : List UpdateEvent}
    (answered : Answered command events) : Chatter events := by
  rcases answered with ⟨accepted, reply, rfl, chatter, _⟩
  exact (chatter_performed [_]).append chatter

/-! ## Stretches with an open port -/

variable (port : Port) (dialog : List UpdateEvent → ItemText)

structure Went (before : Update) (events : List UpdateEvent) (after : Update) : Prop where
  isOpen : after.form1.Open
  imageData : after.imageData = before.imageData
  trace : after.trace = before.trace ++ events

theorem Went.trans {before middle after : Update} {first second : List UpdateEvent}
    (earlier : Went before first middle) (later : Went middle second after) :
    Went before (first ++ second) after where
  isOpen := later.isOpen
  imageData := later.imageData.trans earlier.imageData
  trace := by rw [later.trace, earlier.trace, List.append_assoc]

theorem went_record {update : Update} (isOpen : update.form1.Open) (event : UpdateEvent) :
    Went update [event] (update.record event) := ⟨isOpen, rfl, rfl⟩

theorem went_perform {update : Update} (isOpen : update.form1.Open) (events : List PortEvent) :
    Went update (events.map .performed) (update.perform (update.form1.after events)) where
  isOpen := isOpen.after events
  imageData := rfl
  trace := by
    rw [Update.perform, Uart.after_log, List.drop_left]

theorem writePort_went {update : Update} (isOpen : update.form1.Open) (command : List UInt8) :
    ∃ accepted after, update.writePort port dialog command = .ok after ∧
      Went update [.performed (.write command accepted)] after := by
  have buffer : (Update.commandBuffer command).bytes 0 command.length = command := by
    apply List.ext_getElem
    · simp
    · intro index inside within
      simp [Update.commandBuffer, within]
  rw [Update.writePort, update.form1.uartWrite_open port _ _ _ isOpen, buffer]
  exact ⟨_, _, rfl, went_perform isOpen [_]⟩

theorem pollPort_went {update : Update} (isOpen : update.form1.Open) (rounds totalLength : Nat) :
    ∃ events after, Update.pollPort port dialog rounds totalLength update =
        .ok (totalLength + (received events).length, after) ∧
      Went update events after ∧ Chatter events := by
  induction rounds generalizing totalLength update with
  | zero => exact ⟨[], update, rfl, ⟨isOpen, rfl, by simp⟩, by simp [Chatter]⟩
  | succ rounds induction =>
      rw [Update.pollPort, update.form1.uartRead_open port 128 isOpen]
      generalize (port.delivers update.form1.log 128).take 128 = delivered
      have read := went_perform isOpen [.read 128 delivered]
      have shown := read.trans (went_record read.isOpen (.shown "%s"))
      rcases induction shown.isOpen (totalLength + delivered.length) with
        ⟨events, after, rest, went, chatter⟩
      refine ⟨_, after, ?_, shown.trans went, ((chatter_performed _).append
        (chatter_shown _)).append chatter⟩
      dsimp only
      rw [Uart.note, rest, Nat.add_assoc]
      simp [received, UpdateEvent.incoming, PortEvent.incoming]

theorem askDevice_went {update : Update} (isOpen : update.form1.Open) (command : List UInt8) :
    (∃ events after, update.askDevice port dialog command = .ok after ∧
      Went update events after ∧ Answered command events) ∨
    ∃ events after, update.askDevice port dialog command = .error ⟨true, after⟩ ∧
      Chatter events ∧ after.trace = update.trace ++ events ++ [.close] := by
  rcases writePort_went port dialog isOpen command with ⟨accepted, written, writes, wrote⟩
  rcases pollPort_went port dialog wrote.isOpen 20 0 with ⟨reply, polled, polls, went, chatter⟩
  have outcome : update.askDevice port dialog command =
      if (received reply).length = 0 then
        .error ⟨true, (polled.record (.shown "DEVICE NO RESPONDSE\r\n")).uartClose⟩
      else .ok polled := by
    rw [Update.askDevice, writes]
    change (Update.pollPort port dialog 20 0 written >>= _) = _
    rw [polls, Nat.zero_add]
    rfl
  rw [outcome]
  by_cases silent : (received reply).length = 0
  · right
    have asked := (wrote.trans went).trans
      (went_record (wrote.trans went).isOpen (.shown "DEVICE NO RESPONDSE\r\n"))
    have events : Chatter ([.performed (.write command accepted)] ++ reply ++
        [.shown "DEVICE NO RESPONDSE\r\n"]) :=
      ((chatter_performed [.write command accepted]).append chatter).append (chatter_shown _)
    refine ⟨_, _, if_pos silent, events, ?_⟩
    rw [← asked.trace]
    rfl
  · left
    have some : received reply ≠ [] := fun none => silent (by rw [none, List.length_nil])
    exact ⟨_, polled, if_neg silent, wrote.trans went, accepted, reply, rfl, chatter, some⟩

theorem went_longer {update : Update} (isOpen : update.form1.Open) {sending : Sending}
    (longer : Longer update.form1 sending) :
    ∃ events, Chatter events ∧ Went update events (update.perform sending.uart) := by
  rcases longer with ⟨events, ends⟩
  rw [ends]
  exact ⟨_, chatter_performed events, went_perform isOpen events⟩

theorem afterTransmit_went {update : Update} (isOpen : update.form1.Open) (flow : Flow) :
    ∃ events after, Chatter events ∧ Went update events after ∧
      (update.afterTransmit port dialog flow = .ok after ∨
        update.afterTransmit port dialog flow = .error ⟨false, after⟩) := by
  have none : Went update [] update := ⟨isOpen, rfl, (List.append_nil _).symm⟩
  unfold Update.afterTransmit
  by_cases running : flow = .running
  · exact ⟨[], update, by simp [Chatter], none, Or.inr (if_pos running)⟩
  · rw [if_neg running]
    by_cases success : flow = .returned 0
    · rcases pollPort_went port dialog isOpen 20 0 with ⟨events, after, polls, went, chatter⟩
      refine ⟨events, after, chatter, went, Or.inl ?_⟩
      rw [if_pos success, polls]
      rfl
    · exact ⟨[], update, by simp [Chatter], none, Or.inl (if_neg success)⟩

theorem transmitImage_went {update : Update} (isOpen : update.form1.Open) (fuel : Nat)
    (locals : Locals) (filename : Nat → UInt8) (imageLen : Nat) :
    ∃ events after, Chatter events ∧
      Went update ([.transmit (update.imageData.bytes 0 imageLen) imageLen] ++ events) after ∧
      (update.transmitImage port dialog fuel locals filename imageLen = .ok after ∨
        update.transmitImage port dialog fuel locals filename imageLen =
          .error ⟨false, after⟩) := by
  have called := went_record isOpen (.transmit (update.imageData.bytes 0 imageLen) imageLen)
  have first := transmit_first port fuel locals update.imageData.cell filename imageLen
    update.form1 isOpen
  rcases result : ymodemTransmit port fuel locals update.imageData.cell filename imageLen
    update.form1 with ⟨flow, sending⟩
  rw [result] at first
  have longer : Longer update.form1 sending := by
    rcases first with ⟨events, ends⟩
    exact ⟨_, by rw [ends, Uart.note, Uart.after_after]⟩
  rcases went_longer called.isOpen longer with ⟨session, chatter, went⟩
  rcases afterTransmit_went port dialog went.isOpen flow with
    ⟨more, after, moreChatter, further, left⟩
  refine ⟨session ++ more, after, chatter.append moreChatter, ?_, ?_⟩
  · have all := (called.trans went).trans further
    rwa [List.append_assoc] at all
  · have stage : update.transmitImage port dialog fuel locals filename imageLen =
        ((update.record (.transmit (update.imageData.bytes 0 imageLen) imageLen)).perform
          sending.uart).afterTransmit port dialog flow := by
      unfold Update.transmitImage
      dsimp only [Update.record]
      rw [result]
    rw [stage]
    exact left

/-- The port is opened, the device answers both commands, and the image is sent. -/
inductive Transmitting (image : List UInt8) : List UpdateEvent → Prop
  | intro {name : List UInt16} {opening first second session : List UpdateEvent}
      (opens : Chatter opening) (greeted : Answered [97, 48] first)
      (asked : Answered [49] second) (sends : Chatter session) :
      Transmitting image ([.init name] ++ opening ++ first ++ second ++
        ([.transmit image image.length] ++ session))

theorem Transmitting.more {image : List UInt8} {events after : List UpdateEvent}
    (transmitting : Transmitting image events) (chatter : Chatter after) :
    Transmitting image (events ++ after) := by
  rcases transmitting with ⟨opens, greeted, asked, sends⟩
  rw [List.append_assoc, List.append_assoc [UpdateEvent.transmit image image.length]]
  exact Transmitting.intro opens greeted asked (sends.append chatter)

/-- The traces of `doUpdate` with an image in memory, and whether it has returned. -/
inductive UpdateTrace (image : List UInt8) : (returned : Bool) → List UpdateEvent → Prop
  | unanswered {name : List UInt16} {events : List UpdateEvent} (chatter : Chatter events) :
      UpdateTrace image true ([.init name] ++ events ++ [.close])
  | transmitting {events : List UpdateEvent} (sends : Transmitting image events) :
      UpdateTrace image false events
  | finished {events : List UpdateEvent} (sent : Transmitting image events) :
      UpdateTrace image true (events ++ [.close])

theorem went_init (update : Update) :
    ∃ name, Went update [.init name] (update.init dialog) := ⟨_, rfl, rfl, rfl⟩

theorem went_showCommPort {update : Update} (isOpen : update.form1.Open) (format : String) :
    Went update [.shown format] (update.showCommPort dialog format) := ⟨isOpen, rfl, rfl⟩

theorem Chatter.not_close {events : List UpdateEvent} (chatter : Chatter events) :
    .close ∉ events := by
  intro member
  have talk := chatter _ member
  cases talk

variable {image : List UInt8} {returned : Bool} {trace : List UpdateEvent}

theorem Transmitting.not_close (transmitting : Transmitting image trace) : .close ∉ trace := by
  rcases transmitting with ⟨opens, greeted, asked, sends⟩
  simp [opens.not_close, greeted.chatter.not_close, asked.chatter.not_close, sends.not_close]

theorem UpdateTrace.closes (run : UpdateTrace image true trace) {name : List UInt16}
    (opened : .init name ∈ trace) : ∃ earlier, trace = earlier ++ [.close] ∧ .close ∉ earlier := by
  cases run with
  | unanswered chatter => exact ⟨_, rfl, by simp [chatter.not_close]⟩
  | finished sent => exact ⟨_, rfl, sent.not_close⟩

def promptDevice : Port where
  accepts _ requested := requested.length
  delivers log requested :=
    let unread := log.reverse.takeWhile PortEvent.isRead
    let answers := match log.reverse.find? PortEvent.isWrite with
      | some (.write command _) =>
          if command ∈ [[97, 48], [49], [51]] then [62]
          else if command.getD 2 0 = 0xFF then [ack, crc16] else [ack]
      | _ => []
    (answers.drop unread.length).take requested

def fiveBytes : BinFile where
  bytes := List.replicate 5 7
  opens := true
  reports _ requested := some requested

end CosmosPC
