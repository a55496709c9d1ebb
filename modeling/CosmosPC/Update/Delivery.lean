import CosmosPC.Update.Gating
import CosmosPC.Ymodem.Safety

/-! # What an update leaves on the device

From the file on disk to the blocks that the device has stored, through the pieces
of `ReadFile`, the commands, the session and the cable: at every moment of every
run of `doUpdate`, they are the first blocks of the file. -/

namespace CosmosPC

open PortEvent

/-! ## Where a session rests -/

def Heard (log : List PortEvent) : Prop := ∀ last ∈ log.getLast?, last.isRead = true

theorem heard_append {earlier reads : List PortEvent} (listening : Listening reads)
    (nonempty : reads ≠ []) : Heard (earlier ++ reads) := by
  intro last final
  rw [List.getLast?_append_of_ne_nil _ nonempty] at final
  exact listening last (List.mem_of_getLast? final)

theorem Heard.of_append {earlier later : List PortEvent} (heard : Heard (earlier ++ later)) :
    Heard later := by
  intro last final
  refine heard last ?_
  rw [List.getLast?_append, Option.mem_def.mp final]
  rfl

def Rests (outcome : Flow × Sending) : Prop :=
  outcome.2.uart.Open ∧ (outcome.1 ≠ .running → Heard outcome.2.uart.log)

variable (port : Port)

theorem Rests.andThen {outcome : Flow × Sending} {next : Sending → Flow × Sending}
    (first : Rests outcome)
    (later : ∀ sending, sending.uart.Open → Heard sending.uart.log → Rests (next sending)) :
    Rests (andThen outcome next) := by
  rcases andThen_cases outcome next with ⟨sending, rfl, goesOn⟩ | ⟨_, left⟩
  · rw [goesOn]
    exact later sending first.1 (first.2 fun running => by cases running)
  · rwa [left]

theorem rests_waitOrReturn (ch : UInt8) {sending : Sending} (isOpen : sending.uart.Open) :
    Rests (waitOrReturn port ch sending) := by
  rcases waitOrReturn_listens port ch sending isOpen with ⟨reads, heard, listening, nonempty, _⟩
  rw [Rests, heard]
  exact ⟨isOpen.after reads, fun _ => heard_append listening nonempty⟩

variable (fuel : Nat)

theorem rests_packet (site : PacketSite) (length : Nat) {sending : Sending}
    (isOpen : sending.uart.Open) (short : length < 2 ^ 16) {next : Sending → Flow × Sending}
    (later : ∀ sending, sending.uart.Open → Rests (next sending)) :
    Rests (andThen (packetFlow (ymodemSendPacket port fuel site length sending)) next) := by
  rcases sendPacket_sent port fuel sending site length isOpen short with ⟨writes, ends, _⟩
  generalize ymodemSendPacket port fuel site length sending = outcome at ends ⊢
  rcases outcome with ⟨finished, result⟩
  dsimp only at ends
  have open₁ : result.uart.Open := ends ▸ isOpen.after _
  cases finished with
  | false => exact ⟨open₁, fun stopped => absurd rfl stopped⟩
  | true => exact later result open₁

theorem rests_sendPacketAndWait (site : PacketSite) (length : Nat) {sending : Sending}
    (isOpen : sending.uart.Open) (short : length < 2 ^ 16) :
    Rests (sendPacketAndWait port fuel site length sending) := by
  rw [sendPacketAndWait_eq]
  exact rests_packet port fuel site length isOpen short fun _ open₁ =>
    rests_waitOrReturn port ack open₁

theorem rests_sendHeader (filename : Nat → UInt8) (sizeFile : Nat) (stray : List UInt8)
    {sending : Sending} (isOpen : sending.uart.Open) :
    Rests (sendHeader port fuel filename sizeFile stray sending) := by
  rw [sendHeader_eq]
  refine Rests.andThen (rests_sendPacketAndWait port fuel _ _ ?_ (by decide)) fun _ open₁ _ =>
    rests_waitOrReturn port crc16 open₁
  exact isOpen

theorem rests_sendBlocks (buf : Nat → UInt8) (offset size blkNumber : Nat) {sending : Sending}
    (isOpen : sending.uart.Open) (heard : Heard sending.uart.log) :
    Rests (sendBlocks port fuel buf offset size blkNumber sending) := by
  induction size using Nat.strongRecOn generalizing offset blkNumber sending with
  | _ size induction =>
      by_cases finished : size = 0
      · rw [sendBlocks, if_pos finished]
        exact ⟨isOpen, fun _ => heard⟩
      · have short : payloadSize size + packetHeader + 2 < 2 ^ 16 := by
          unfold payloadSize
          split <;> decide
        have positive := payloadSize_pos size
        rw [sendBlocks_eq port fuel buf offset size blkNumber sending finished]
        refine Rests.andThen ?_ fun sent open₁ heard₁ => ?_
        · exact rests_sendPacketAndWait port fuel _ _ isOpen short
        · split
          · split
            · exact ⟨open₁, fun _ => heard₁⟩
            · exact induction (size - payloadSize size) (by omega) _ _ open₁ heard₁
          · exact ⟨open₁, fun _ => heard₁⟩

theorem open_sendByte (c : UInt8) {uart : Uart} (isOpen : uart.Open) :
    (sendByte port c uart).Open := by
  rcases sendByte_writes port c uart isOpen with ⟨writes, ends, _⟩
  rw [ends]
  exact isOpen.after writes

theorem rests_sendEnd {sending : Sending} (isOpen : sending.uart.Open) :
    Rests (sendEnd port fuel sending) := by
  rw [sendEnd_eq]
  refine Rests.andThen (rests_waitOrReturn port ack (open_sendByte port eot isOpen))
    fun bye open₁ _ => Rests.andThen ?_ fun done open₂ heard => ⟨open₂, fun _ => heard⟩
  rw [sendClosing_eq]
  refine rests_packet port fuel _ _ ?_ (by decide) fun sent open₂ => rests_waitOrReturn port ack ?_
  · exact open₁
  · exact open_sendByte port _ (open_sendByte port _ open₂)

theorem rests_transmit (locals : Locals) (buf sendFileName : Nat → UInt8) (sizeFile : Nat)
    {uart : Uart} (isOpen : uart.Open) :
    Rests (ymodemTransmit port fuel locals buf sendFileName sizeFile uart) := by
  rw [ymodemTransmit_eq]
  refine Rests.andThen (rests_sendHeader port fuel _ sizeFile locals.stray isOpen)
    fun headed open₁ heard =>
      Rests.andThen (rests_sendBlocks port fuel buf 0 sizeFile 1 open₁ heard)
        fun filed open₂ _ => rests_sendEnd port fuel open₂

/-- A session that rests, and what is written to the device afterwards. -/
inductive Rested : List (List UInt8) → List PortEvent → Prop
  | unanswered {done more : List (List UInt8)} {events talk listen rest : List PortEvent}
      (rounds : Rounds done events) (talking : Talking talk) (listening : Listening listen)
      (heard : listen ≠ []) (aside : Aside rest) :
      Rested (done ++ sentBytes talk :: more) (events ++ (talk ++ listen ++ rest))
  | answered {done : List (List UInt8)} (more : List (List UInt8)) {events rest : List PortEvent}
      (rounds : Rounds done events) (aside : Aside rest) : Rested (done ++ more) (events ++ rest)

variable {frames : List (List UInt8)} {events : List PortEvent}

theorem aside_nil : Aside [] := fun _ member => by cases member

theorem Part.rested (part : Part frames events) (heard : Heard events) : Rested frames events := by
  cases part with
  | whole rounds =>
      have rested := Rested.answered [] rounds aside_nil
      rwa [List.append_nil, List.append_nil] at rested
  | @within done more next events talk listen rounds talking listening begins spoken =>
      by_cases silent : listen = []
      · subst silent
        -- The sender has listened, so it has not begun with the next frame.
        have nothing : talk = [] := by
          by_contra some
          rcases List.getLast?_eq_some_getLast some with last
          have isRead := heard.of_append (talk.getLast some)
            (by rw [List.append_nil, last]; rfl)
          rw [talking _ (List.getLast_mem some)] at isRead
          cases isRead
        subst nothing
        exact .answered (next :: more) rounds aside_nil
      · have rested : Rested (done ++ CosmosPC.sentBytes talk :: more)
            (events ++ (talk ++ listen ++ [])) :=
          .unanswered rounds talking listening silent aside_nil
        rwa [spoken silent, List.append_nil] at rested

theorem Rested.more {later : List PortEvent} (rested : Rested frames events)
    (aside : Aside later) : Rested frames (events ++ later) := by
  cases rested with
  | unanswered rounds talking listening heard earlier =>
      rw [List.append_assoc, List.append_assoc _ _ later]
      exact .unanswered rounds talking listening heard (earlier.append aside)
  | answered more rounds earlier =>
      rw [List.append_assoc]
      exact .answered more rounds (earlier.append aside)

/-- What may have happened since a session began. -/
def Since (frames : List (List UInt8)) (events : List PortEvent) : Prop :=
  Part frames events ∨ Rested frames events

theorem Since.upTo {before : List PortEvent} (since : Since frames events)
    (earlier : before <+: events) : Since frames before := by
  rcases since with part | rested
  · exact Or.inl (part.upTo earlier)
  · cases rested with
    | @unanswered done more events talk listen rest rounds talking listening heard aside =>
        rw [← List.append_assoc] at earlier
        have part : Part (done ++ sentBytes talk :: more) (events ++ (talk ++ listen)) :=
          .within rounds talking listening List.prefix_rfl fun _ => rfl
        rcases prefix_append_cases earlier with inside | ⟨later, rfl, beyond⟩
        · exact Or.inl (part.upTo inside)
        · refine Or.inr ?_
          rw [List.append_assoc]
          exact .unanswered rounds talking listening heard (aside.upTo beyond)
    | answered more rounds aside =>
        rcases prefix_append_cases earlier with inside | ⟨later, rfl, beyond⟩
        · exact Or.inl ((rounds.upTo inside).more more)
        · exact Or.inr (.answered more rounds (aside.upTo beyond))

theorem Since.amid {first link : Link} (fresh : first.Fresh) {labels : List (Option PortEvent)}
    (run : Run Link.Step first labels link) (since : Since frames labels.reduceOption) :
    Amid frames link.receiver := by
  rcases since with part | rested
  · exact part.amid fresh run
  · generalize visible : labels.reduceOption = history at rested
    cases rested with
    | @unanswered done more events talk listen rest rounds talking listening heard aside =>
        rcases List.filterMap_eq_append_iff.mp visible with ⟨earlier, later, rfl, past, left⟩
        rcases run.split with ⟨middle, answered, further⟩
        have rounds : Rounds done earlier.reduceOption := by
          rw [List.reduceOption, past]
          exact rounds
        rcases rounds.taken fresh answered with ⟨_, accepted, quiet⟩
        refine ⟨done, sentBytes talk :: more, middle.receiver, rfl, accepted, ?_⟩
        rcases quiet.receives further left talking listening aside
          (fun silent => absurd silent heard) with same | taken
        · exact Or.inl same
        · exact Or.inr ⟨_, more, _, rfl, List.prefix_rfl, taken⟩
    | @answered done more events rest rounds aside =>
        rcases List.filterMap_eq_append_iff.mp visible with ⟨earlier, later, rfl, past, left⟩
        rcases run.split with ⟨middle, answered, further⟩
        have rounds : Rounds done earlier.reduceOption := by
          rw [List.reduceOption, past]
          exact rounds
        rcases rounds.taken fresh answered with ⟨_, accepted, quiet⟩
        refine ⟨done, more, middle.receiver, rfl, accepted, Or.inl ?_⟩
        have nothing : middle.receiver.next (sentBytes []) = none :=
          middle.receiver.next_foreign foreign_nil
        have visible : later.reduceOption = [] ++ [] ++ rest := left
        rcases quiet.receives further visible talking_nil listening_nil aside
          (fun _ => Or.inl rfl) with same | taken
        · exact same
        · rw [nothing] at taken
          cases taken

/-! ## Reads of many bytes -/

/-- The link, for a sender that takes as much as there is. -/
inductive Link.WideStep : Link → Option PortEvent → Link → Prop
  | narrow {first label next} (step : Link.Step first label next) : WideStep first label next
  | answers {link} (requested : Nat) (delivered rest : List UInt8) (spoken : link.burst = [])
      (next : link.back = delivered ++ rest) :
      WideStep link (some (.read requested delivered)) { link with turned := false, back := rest }

/-- Reads of one byte each in place of one of them all. -/
def bytewise : PortEvent → List PortEvent
  | .read requested [] => [.read requested []]
  | .read requested (byte :: bytes) => (byte :: bytes).map fun byte => .read requested [byte]
  | event => [event]

theorem Link.takes (link : Link) (spoken : link.burst = []) (talking : link.turned = false)
    (requested : Nat) (delivered rest : List UInt8) (next : link.back = delivered ++ rest) :
    Run Link.Step link (delivered.map fun byte => some (.read requested [byte]))
      { link with back := rest } := by
  induction delivered generalizing link with
  | nil =>
      rw [List.nil_append] at next
      rw [← next]
      exact .nil link
  | cons byte bytes induction =>
      refine .cons (.answer requested byte (bytes ++ rest) spoken next) ?_
      have more := induction { link with turned := false, back := bytes ++ rest } spoken rfl rfl
      rwa [← talking] at more ⊢

theorem Link.WideStep.narrowed {first next : Link} {label : Option PortEvent}
    (step : Link.WideStep first label next) :
    ∃ labels, Run Link.Step first labels next ∧
      labels.reduceOption = label.toList.flatMap bytewise := by
  cases step with
  | narrow step =>
      refine ⟨[label], .single step, ?_⟩
      cases step <;> rfl
  | answers requested delivered rest spoken ready =>
      cases delivered with
      | nil =>
          rw [List.nil_append] at ready
          refine ⟨[some (.read requested [])], ?_, rfl⟩
          rw [← ready]
          exact .single (.silence requested spoken)
      | cons byte bytes =>
          have more := Link.takes { first with turned := false, back := bytes ++ rest } spoken rfl
            requested bytes rest rfl
          refine ⟨_, .cons (.answer requested byte (bytes ++ rest) spoken ready) more, ?_⟩
          simp [List.reduceOption, bytewise]

theorem Link.narrowed {first last : Link} {labels : List (Option PortEvent)}
    (run : Run Link.WideStep first labels last) :
    ∃ narrow, Run Link.Step first narrow last ∧
      narrow.reduceOption = labels.reduceOption.flatMap bytewise := by
  induction run with
  | nil state => exact ⟨[], .nil state, rfl⟩
  | @cons first label second labels last taken _ induction =>
      rcases taken.narrowed with ⟨begun, run, events⟩
      rcases induction with ⟨more, further, rest⟩
      refine ⟨begun ++ more, run.append further, ?_⟩
      rw [List.reduceOption_append, events, rest]
      cases label <;> simp

theorem Talking.bytewise {talk : List PortEvent} (talking : Talking talk) :
    talk.flatMap bytewise = talk := by
  induction talk with
  | nil => rfl
  | cons event talk induction =>
      have here := talking event List.mem_cons_self
      rw [List.flatMap_cons, induction fun later member =>
        talking later (List.mem_cons_of_mem _ member)]
      cases event with
      | packet => rfl
      | write => rfl
      | read => cases here

theorem Listening.bytewise {listen : List PortEvent} (listening : Listening listen) :
    Listening (listen.flatMap CosmosPC.bytewise) ∧
      readBytes (listen.flatMap CosmosPC.bytewise) = readBytes listen ∧
      (listen ≠ [] → listen.flatMap CosmosPC.bytewise ≠ []) := by
  induction listen with
  | nil => exact ⟨listening_nil, rfl, fun some => some⟩
  | cons event listen induction =>
      have here := listening event List.mem_cons_self
      rcases induction fun later member => listening later (List.mem_cons_of_mem _ member) with
        ⟨reads, bytes, _⟩
      have one : Listening (CosmosPC.bytewise event) ∧
          readBytes (CosmosPC.bytewise event) = event.incoming ∧
          CosmosPC.bytewise event ≠ [] := by
        cases event with
        | packet => cases here
        | write => cases here
        | read requested delivered =>
            cases delivered with
            | nil =>
                refine ⟨fun one member => ?_, rfl, by simp [CosmosPC.bytewise]⟩
                rw [List.mem_singleton.mp member]
                rfl
            | cons byte bytes =>
                refine ⟨fun one member => ?_, ?_, by simp [CosmosPC.bytewise]⟩
                · rcases List.mem_map.mp member with ⟨_, _, rfl⟩
                  rfl
                · simp [CosmosPC.bytewise, readBytes, List.flatMap_map, PortEvent.incoming]
      rw [List.flatMap_cons]
      refine ⟨one.1.append reads, ?_, fun _ none => ?_⟩
      · rw [readBytes_append, one.2.1, bytes]
        rfl
      · exact one.2.2 (List.append_eq_nil_iff.mp none).1

theorem Aside.bytewise {events : List PortEvent} (aside : Aside events) :
    Aside (events.flatMap CosmosPC.bytewise) := by
  intro event member
  rcases List.mem_flatMap.mp member with ⟨whole, among, part⟩
  cases whole with
  | packet site frame =>
      rw [List.mem_singleton.mp part]
      exact aside _ among
  | write requested accepted =>
      rw [List.mem_singleton.mp part]
      exact aside _ among
  | read requested delivered =>
      have alone : Listening [.read requested delivered] := fun one member => by
        rw [List.mem_singleton.mp member]
        rfl
      exact alone.bytewise.1.aside event (List.mem_flatMap.mpr ⟨_, List.mem_singleton_self _, part⟩)

theorem Rounds.bytewise (rounds : Rounds frames events) :
    Rounds frames (events.flatMap CosmosPC.bytewise) := by
  induction rounds with
  | nil => exact .nil
  | cons round _ induction =>
      rcases round with ⟨talk, listen, rfl, talking, sent, listening, nonempty, acked⟩
      rcases listening.bytewise with ⟨reads, bytes, some⟩
      rw [List.flatMap_append, List.flatMap_append, talking.bytewise]
      exact .cons ⟨talk, _, rfl, talking, sent, reads, some nonempty, bytes ▸ acked⟩ induction

theorem Since.bytewise (since : Since frames events) :
    Since frames (events.flatMap CosmosPC.bytewise) := by
  rcases since with part | rested
  · refine Or.inl ?_
    cases part with
    | whole rounds => exact .whole rounds.bytewise
    | within rounds talking listening begins spoken =>
        rw [List.flatMap_append, List.flatMap_append, talking.bytewise]
        refine .within rounds.bytewise talking listening.bytewise.1 begins fun some => spoken ?_
        rintro rfl
        exact some rfl
  · refine Or.inr ?_
    cases rested with
    | unanswered rounds talking listening heard aside =>
        rw [List.flatMap_append, List.flatMap_append, List.flatMap_append, talking.bytewise]
        exact .unanswered rounds.bytewise talking listening.bytewise.1
          (listening.bytewise.2.2 heard) aside.bytewise
    | answered more rounds aside =>
        rw [List.flatMap_append]
        exact .answered more rounds.bytewise aside.bytewise

/-! ## The events of an update -/

def portEvents (events : List UpdateEvent) : List PortEvent :=
  events.filterMap fun
    | .performed event => some event
    | _ => none

@[simp] theorem portEvents_append (first second : List UpdateEvent) :
    portEvents (first ++ second) = portEvents first ++ portEvents second :=
  List.filterMap_append

@[simp] theorem portEvents_performed (events : List PortEvent) :
    portEvents (events.map .performed) = events := by
  induction events with
  | nil => rfl
  | cons event events induction => exact congrArg (event :: ·) induction

/-- What the port has done since the image was handed to `Ymodem_Transmit`. -/
def sessionEvents (trace : List UpdateEvent) : List PortEvent :=
  portEvents (trace.dropWhile fun event => !event.isTransmit)

def Unsent (trace : List UpdateEvent) : Prop := ∀ event ∈ trace, event.isTransmit = false

theorem Chatter.unsent {events : List UpdateEvent} (chatter : Chatter events) : Unsent events := by
  intro event member
  have talk := chatter event member
  cases event <;> simp_all [UpdateEvent.isTransmit, UpdateEvent.isChatter]

theorem Unsent.append {first second : List UpdateEvent} (left : Unsent first)
    (right : Unsent second) : Unsent (first ++ second) := fun event member =>
  (List.mem_append.mp member).elim (left event) (right event)

theorem Unsent.sessionEvents {trace : List UpdateEvent} (unsent : Unsent trace) :
    sessionEvents trace = [] := by
  rw [CosmosPC.sessionEvents, List.dropWhile_eq_nil_iff.mpr fun event member => by
    rw [unsent event member]; rfl]
  rfl

theorem Unsent.sessionEvents_append {before : List UpdateEvent} (unsent : Unsent before)
    (image : List UInt8) (size : Nat) (session : List UpdateEvent) :
    CosmosPC.sessionEvents (before ++ ([.transmit image size] ++ session)) =
      portEvents session := by
  rw [CosmosPC.sessionEvents, List.dropWhile_append_of_pos fun event member => by
    rw [unsent event member]; rfl]
  rfl

variable (dialog : List UpdateEvent → ItemText)

theorem pollPort_listens {update : Update} (isOpen : update.form1.Open) (rounds total : Nat) :
    ∃ count events after, Update.pollPort port dialog rounds total update = .ok (count, after) ∧
      Went update events after ∧ Chatter events ∧ Listening (portEvents events) ∧
      (portEvents events).length = rounds := by
  induction rounds generalizing total update with
  | zero =>
      exact ⟨total, [], update, rfl, ⟨isOpen, rfl, (List.append_nil _).symm⟩, by simp [Chatter],
        listening_nil, rfl⟩
  | succ rounds induction =>
      rw [Update.pollPort, update.form1.uartRead_open port 128 isOpen]
      generalize (port.delivers update.form1.log 128).take 128 = delivered
      have read := went_perform isOpen [.read 128 delivered]
      have shown := read.trans (went_record read.isOpen (.shown "%s"))
      rcases induction shown.isOpen (total + delivered.length) with
        ⟨count, events, after, rest, went, chatter, reads, length⟩
      refine ⟨count, _, after, rest, shown.trans went, ((chatter_performed _).append
        (chatter_shown _)).append chatter, ?_, congrArg (· + 1) length⟩
      have one : Listening [.read 128 delivered] := fun event member => by
        rw [List.mem_singleton.mp member]
        rfl
      exact one.append reads

/-- The frames of an image, when a header and as much of an end as the port takes. -/
def Framing (port : Port) (image : List UInt8) (frames : List (List UInt8)) : Prop :=
  ∃ header ending, frames = [header] ++ (canonicalFrames image ++ ending) ∧ EndGiven port ending

theorem framing_exists (image : List UInt8) : ∃ frames, Framing port image frames := by
  rcases endGiven_exists port with ⟨ending, given⟩
  exact ⟨_, [], ending, rfl, given⟩

variable {image : List UInt8}

theorem transmitImage_since {update : Update} (isOpen : update.form1.Open)
    (loaded : update.imageData.bytes 0 image.length = image) (locals : Locals)
    (filename : Nat → UInt8) :
    ∃ frames session after, Framing port image frames ∧ Chatter session ∧
      Went update ([.transmit image image.length] ++ session) after ∧
      (update.transmitImage port dialog fuel locals filename image.length = .ok after ∧
          Rested frames (portEvents session) ∨
        update.transmitImage port dialog fuel locals filename image.length =
            .error ⟨false, after⟩ ∧ Part frames (portEvents session)) := by
  have called := went_record isOpen (.transmit image image.length)
  have same : imageOf update.imageData.cell image.length = image := by
    simpa [imageOf, Memory.bytes] using loaded
  have rests := rests_transmit port fuel locals update.imageData.cell filename image.length isOpen
  rcases transmit_turns port fuel locals update.imageData.cell filename image.length isOpen with
    ⟨ending, given, events, ends, part, _⟩
  rw [same] at part
  have framing : Framing port image ([headerFrame locals.packetData (copiedName locals filename)
      image.length locals.stray] ++ (canonicalFrames image ++ ending)) := ⟨_, ending, rfl, given⟩
  generalize [headerFrame locals.packetData (copiedName locals filename) image.length locals.stray]
    ++ (canonicalFrames image ++ ending) = frames at framing part
  rcases result : ymodemTransmit port fuel locals update.imageData.cell filename image.length
    update.form1 with ⟨flow, sending⟩
  rw [result] at rests ends
  dsimp only at ends
  have sent := called.trans (went_perform called.isOpen events)
  have stage : update.transmitImage port dialog fuel locals filename image.length =
      ((update.record (.transmit image image.length)).perform
        (update.form1.after events)).afterTransmit port dialog flow := by
    unfold Update.transmitImage
    dsimp only [Update.record]
    rw [loaded, result, ← ends]
  by_cases running : flow = .running
  · refine ⟨_, _, _, framing, chatter_performed events, sent, Or.inr ⟨?_, ?_⟩⟩
    · rw [stage, Update.afterTransmit, if_pos running]
      rfl
    · rwa [portEvents_performed]
  · have heard := rests.2 running
    rw [ends, Uart.after_log] at heard
    have rested := part.rested heard.of_append
    by_cases success : flow = .returned 0
    · rcases pollPort_listens port dialog sent.isOpen 20 0 with
        ⟨count, polled, after, polls, went, chatter, reads, _⟩
      refine ⟨_, _, after, framing, (chatter_performed events).append chatter, ?_,
        Or.inl ⟨?_, ?_⟩⟩
      · rw [← List.append_assoc]
        exact sent.trans went
      · rw [stage, Update.afterTransmit, if_neg running, if_pos success]
        exact congrArg (Except.map Prod.snd) polls
      · rw [portEvents_append, portEvents_performed]
        exact rested.more reads.aside
    · refine ⟨_, _, _, framing, chatter_performed events, sent, Or.inl ⟨?_, ?_⟩⟩
      · rw [stage, Update.afterTransmit, if_neg running, if_neg success]
        rfl
      · rwa [portEvents_performed]

theorem farewell_aside {update : Update} (isOpen : update.form1.Open) :
    ∃ events after, update.farewell port dialog = .ok after ∧ Aside (portEvents events) ∧
      after.trace = update.trace ++ events := by
  rcases writePort_went port dialog isOpen [51] with ⟨accepted, written, writes, wrote⟩
  rcases pollPort_listens port dialog wrote.isOpen 30 0 with
    ⟨count, reply, polled, polls, went, _, reads, _⟩
  have said : Aside [.write [51] accepted] := by
    intro event member byte outgoing
    rw [List.mem_singleton.mp member] at outgoing
    rw [List.mem_singleton.mp (List.mem_of_mem_take outgoing)]
    decide
  refine ⟨[.performed (.write [51] accepted)] ++ (reply ++ [.close]), polled.uartClose, ?_, ?_, ?_⟩
  · rw [Update.farewell, writes]
    change (Update.pollPort port dialog 30 0 written >>= _) = _
    rw [polls]
    rfl
  · have closed : Aside (portEvents [.close]) := aside_nil
    rw [portEvents_append, portEvents_append]
    exact said.append (reads.aside.append closed)
  · have trace := (wrote.trans went).trace
    rw [← List.append_assoc, ← List.append_assoc, List.append_assoc update.trace, ← trace]
    rfl

/-- How a run is left, as far as the port of the session is concerned. -/
def Faithful (port : Port) (image : List UInt8) (outcome : UpdateOutcome) : Prop :=
  ∃ frames, Framing port image frames ∧ Since frames (sessionEvents outcome.update.trace)

theorem faithful_unsent {outcome : UpdateOutcome} (unsent : Unsent outcome.update.trace) :
    Faithful port image outcome := by
  rcases framing_exists port image with ⟨frames, framing⟩
  refine ⟨frames, framing, Or.inl ?_⟩
  rw [unsent.sessionEvents]
  exact (Part.whole .nil).more frames

theorem unsent_init (name : List UInt16) : Unsent [.init name] := by
  intro event member
  rw [List.mem_singleton.mp member]
  rfl

theorem unsent_close : Unsent [.close] := by
  intro event member
  rw [List.mem_singleton.mp member]
  rfl

theorem session_faithful {before update : Update} {events : List UpdateEvent}
    (fresh : before.trace = []) (ready : Went before events update) (unsent : Unsent events)
    (loaded : before.imageData.bytes 0 image.length = image) (locals : Locals)
    (filename : Nat → UInt8) :
    Faithful port image (.ofStretches (update.transmitImage port dialog fuel locals filename
      image.length >>= Update.farewell port dialog)) := by
  rw [← ready.imageData] at loaded
  rcases transmitImage_since port fuel dialog ready.isOpen loaded locals filename with
    ⟨frames, session, sent, framing, _, sends, ⟨sending, rested⟩ | ⟨running, part⟩⟩
  · rcases farewell_aside port dialog sends.isOpen with ⟨words, after, farewell, aside, closed⟩
    rw [sending]
    change Faithful port image (.ofStretches (sent.farewell port dialog))
    rw [farewell]
    refine ⟨frames, framing, Or.inr ?_⟩
    change Rested frames (sessionEvents after.trace)
    rw [closed, (ready.trans sends).trace, fresh, List.nil_append, List.append_assoc events,
      List.append_assoc [_] session, unsent.sessionEvents_append, portEvents_append]
    exact rested.more aside
  · rw [running]
    refine ⟨frames, framing, Or.inl ?_⟩
    change Part frames (sessionEvents sent.trace)
    rw [(ready.trans sends).trace, fresh, List.nil_append, unsent.sessionEvents_append]
    exact part

theorem converse_faithful {update : Update} (fresh : update.trace = [])
    (loaded : update.imageData.bytes 0 image.length = image) (locals : Locals)
    (filename : Nat → UInt8) :
    Faithful port image
      (.ofStretches (update.converse port dialog fuel locals filename image.length)) := by
  rcases went_init dialog update with ⟨name, started⟩
  have opened := started.trans (went_showCommPort dialog started.isOpen "OPEN %s .....\r\n")
  have opening := (unsent_init name).append (chatter_shown "OPEN %s .....\r\n").unsent
  change Faithful port image (.ofStretches (Update.askDevice port dialog [97, 48] _ >>= fun met =>
    met.askDevice port dialog [49] >>= fun heard =>
      heard.transmitImage port dialog fuel locals filename image.length >>=
        Update.farewell port dialog))
  rcases askDevice_went port dialog opened.isOpen [97, 48] with
    ⟨first, met, asks, meets, greeted⟩ | ⟨events, after, silent, chatter, trace⟩
  · have greeting := opened.trans meets
    rw [asks]
    change Faithful port image (.ofStretches (met.askDevice port dialog [49] >>= _))
    rcases askDevice_went port dialog greeting.isOpen [49] with
      ⟨second, heard, asksAgain, hears, asked⟩ | ⟨events, after, silent, chatter, trace⟩
    · rw [asksAgain]
      exact session_faithful port fuel dialog fresh (greeting.trans hears)
        ((opening.append greeted.chatter.unsent).append asked.chatter.unsent) loaded locals filename
    · rw [silent]
      apply faithful_unsent
      change Unsent after.trace
      rw [trace, greeting.trace, fresh, List.nil_append]
      exact ((opening.append greeted.chatter.unsent).append chatter.unsent).append unsent_close
  · rw [silent]
    apply faithful_unsent
    change Unsent after.trace
    rw [trace, opened.trace, fresh, List.nil_append]
    exact (opening.append chatter.unsent).append unsent_close

theorem doUpdate_faithful (locals : Locals) (filename : Nat → UInt8) (file : BinFile)
    (imageData : Memory) (form1 : Uart) (commPort : TextArray terminator)
    (small : file.bytes.length < 2 ^ 32) :
    Faithful port file.bytes
      (doUpdate port fuel locals dialog filename file imageData form1 commPort) := by
  have size : file.getFileSize = file.bytes.length := Nat.mod_eq_of_lt small
  have untouched : Unsent [] := fun event member => by cases member
  unfold doUpdate
  rw [size]
  by_cases closed : file.opens = false
  · rw [if_pos closed]
    exact faithful_unsent port untouched
  · rw [if_neg closed]
    by_cases large : file.bytes.length > userFlashSize
    · rw [if_pos large]
      exact faithful_unsent port untouched
    · rw [if_neg large]
      have loads := (loadImage_outcome file.bytes.length 0 imageData rfl (Nat.zero_le _) rfl).2
      generalize loadImage file file.bytes.length 0 imageData = load at loads ⊢
      rcases load with ⟨whole, loaded⟩
      cases whole with
      | false => exact faithful_unsent port untouched
      | true => exact converse_faithful port fuel dialog rfl (loads rfl) locals filename

/-- At every moment of an update, whatever `ReadFile` and the port do, and the
device beyond a cable that loses, delays and detectably damages: the device has
stored the first blocks of the file, once each and in their order, and it has
seen an end only if these are the whole file. -/
theorem update_stores_file (locals : Locals) (filename : Nat → UInt8) (file : BinFile)
    (imageData : Memory) (form1 : Uart) (commPort : TextArray terminator)
    (small : file.bytes.length < 2 ^ 32) (first link : Link) (fresh : first.Fresh)
    (labels : List (Option PortEvent)) (run : Run Link.WideStep first labels link)
    (carried : labels.reduceOption <+: sessionEvents
      (doUpdate port fuel locals dialog filename file imageData form1 commPort).update.trace) :
    link.receiver.stored <+:
        (List.range (blockCount file.bytes.length)).map (canonicalPayload file.bytes) ∧
      link.receiver.stored.flatten.take file.bytes.length <+: file.bytes ∧
      (link.receiver.phase = .closing ∨ link.receiver.phase = .done →
        link.receiver.stored.flatten.take file.bytes.length = file.bytes) := by
  rcases doUpdate_faithful port fuel dialog locals filename file imageData form1 commPort small with
    ⟨frames, ⟨header, ending, rfl, given⟩, since⟩
  rcases Link.narrowed run with ⟨narrow, narrowRun, events⟩
  have amid : Amid ([header] ++ (canonicalFrames file.bytes ++ ending)) link.receiver := by
    refine Since.amid fresh narrowRun ?_
    rw [events]
    exact (since.upTo carried).bytewise
  exact amid.stored given

theorem Link.widened {first last : Link} {labels : List (Option PortEvent)}
    (run : Run Link.Step first labels last) : Run Link.WideStep first labels last := by
  induction run with
  | nil state => exact .nil state
  | cons taken _ induction => exact .cons (.narrow taken) induction

set_option maxRecDepth 20000 in
theorem update_stores_file_five :
    ∃ labels link, Run Link.WideStep Link.initial labels link ∧ link.receiver.phase = .done ∧
      link.receiver.stored.flatten.take 5 = fiveBytes.bytes := by
  let trace := (doUpdate promptDevice 1 ⟨Memory.zeroed, fun _ => 0, []⟩ (fun _ => comThree)
    (fun _ => 0) fiveBytes Memory.zeroed Uart.opened commBuffer).update.trace
  have carried : (((sessionEvents trace).take 14).foldlM Link.carry Link.initial).map
      (fun link => link.receiver.phase) = some .done := by
    decide +kernel
  rcases Option.map_eq_some_iff.mp carried with ⟨link, carries, phase⟩
  rcases Link.carry_runs rfl rfl carries with ⟨labels, run, visible⟩
  have stored := update_stores_file promptDevice 1 (fun _ => comThree)
    ⟨Memory.zeroed, fun _ => 0, []⟩ (fun _ => 0) fiveBytes Memory.zeroed Uart.opened commBuffer
    (by decide) Link.initial link Link.initial_fresh labels (Link.widened run)
    (visible ▸ List.take_prefix 14 (sessionEvents trace))
  exact ⟨labels, link, Link.widened run, phase, stored.2.2 (Or.inr phase)⟩

end CosmosPC
