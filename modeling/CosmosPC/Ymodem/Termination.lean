import CosmosPC.Foundation.Histories
import CosmosPC.Ymodem.Answering
import CosmosPC.Ymodem.Stretches

/-! # Whether a session returns

All waits and the sending of single bytes are counted, but `Ymodem_SendPacket`
offers the rest of a frame until the port has taken all of it. A port that fails
looks to it like one that takes nothing. -/

namespace CosmosPC

open PortEvent

/-! ## The frame that is being sent -/

def stillPending (pending : List UInt8) : PortEvent → List UInt8
  | .packet _ frame => frame
  | .write _ accepted => pending.drop accepted
  | .read _ _ => pending

/-- What the port has not yet taken of the last frame. -/
def pending (log : List PortEvent) : List UInt8 := log.foldl stillPending []

theorem pending_concat (log : List PortEvent) (event : PortEvent) :
    pending (log ++ [event]) = stillPending (pending log) event := by
  simp [pending]

def offer (port : Port) (log : List PortEvent) : Option PortEvent :=
  if pending log = [] then none
  else some (.write (pending log) (min (port.accepts log (pending log)) (pending log).length))

/-- If the port is offered the rest of a frame over and over, it takes a byte
sooner or later. -/
def Unstuck (port : Port) (log : List PortEvent) : Prop :=
  pending log ≠ [] → ∃ count,
    0 < port.accepts (log ++ List.replicate count (.write (pending log) 0)) (pending log)

theorem offer_of_idle {port : Port} {log : List PortEvent} (idle : pending log = []) :
    offer port log = none := if_pos idle

theorem pending_refused (log : List PortEvent) (requested : List UInt8) (count : Nat) :
    pending (log ++ List.replicate count (.write requested 0)) = pending log := by
  induction count with
  | zero => simp
  | succ count induction =>
      rw [List.replicate_succ', ← List.append_assoc, pending_concat, induction]
      rfl

/-- A history that a port gets stuck in is not the beginning of one that comes to an end. -/
theorem unstuck_of_finished {port : Port} {history log : List PortEvent}
    (driven : Forced (offer port) history) (finished : pending history = [])
    (part : log <+: history) : Unstuck port log := by
  intro unfinished
  apply Classical.byContradiction
  intro stuck
  have refused (count : Nat) :
      port.accepts (log ++ List.replicate count (.write (pending log) 0)) (pending log) = 0 := by
    apply Nat.eq_zero_of_not_pos
    exact fun taken => stuck ⟨count, taken⟩
  apply driven.not_for_ever (offer_of_idle finished)
    (fun count => log ++ List.replicate count (.write (pending log) 0)) (by simpa using part)
  intro count
  refine ⟨.write (pending log) 0, ?_, ?_⟩
  · rw [offer, pending_refused, if_neg unfinished, refused, Nat.zero_min]
  · rw [List.replicate_succ', List.append_assoc]

/-! ## Stretches with fuel -/

structure Clean (port : Port) (uart : Uart) : Prop where
  isOpen : uart.Open
  driven : Forced (offer port) uart.log
  idle : pending uart.log = []

def Further (first second : Flow × Sending) : Prop :=
  first = second ∨ first.1 = .running ∧ first.2.uart.log <+: second.2.uart.log

/-- What is true of a stretch with any fuel, begun on a clean port. -/
structure Stretch (port : Port) (uart : Uart) (run : Nat → Flow × Sending) : Prop where
  longer : ∀ fuel, Longer uart (run fuel).2
  further : ∀ fuel more, fuel ≤ more → Further (run fuel) (run more)
  driven : ∀ fuel, Forced (offer port) (run fuel).2.uart.log
  idle : ∀ fuel, (run fuel).1 ≠ .running → pending (run fuel).2.uart.log = []
  ends : (∀ fuel log, uart.log <+: log → log <+: (run fuel).2.uart.log → Unstuck port log) →
    ∃ fuel, (run fuel).1 ≠ .running

theorem Longer.log {uart : Uart} {sending : Sending} (longer : Longer uart sending) :
    uart.log <+: sending.uart.log := by
  rcases longer with ⟨events, ends⟩
  rw [ends]
  exact List.prefix_append _ _

variable {port : Port} {uart : Uart}

theorem Stretch.clean {run : Nat → Flow × Sending} (stretch : Stretch port uart run)
    (isOpen : uart.Open) {fuel : Nat} {sending : Sending} (ended : run fuel = (.next, sending)) :
    Clean port sending.uart := by
  have longer := stretch.longer fuel
  have driven := stretch.driven fuel
  have idle := stretch.idle fuel
  rw [ended] at longer driven idle
  exact ⟨longer.isOpen isOpen, driven, idle (by simp)⟩

theorem Stretch.same {run : Nat → Flow × Sending} (stretch : Stretch port uart run)
    {fuel more : Nat} (within : fuel ≤ more) (ended : (run fuel).1 ≠ .running) :
    run more = run fuel := by
  rcases stretch.further fuel more within with same | ⟨running, _⟩
  · exact same.symm
  · exact absurd running ended

theorem Stretch.log_mono {run : Nat → Flow × Sending} (stretch : Stretch port uart run)
    {fuel more : Nat} (within : fuel ≤ more) :
    (run fuel).2.uart.log <+: (run more).2.uart.log := by
  rcases stretch.further fuel more within with same | ⟨_, earlier⟩
  · exact same ▸ List.prefix_rfl
  · exact earlier

section Sequence

variable {first : Nat → Flow × Sending} {next : Sending → Nat → Flow × Sending}
  (begins : Stretch port uart first)
  (later : ∀ fuel sending, first fuel = (.next, sending) →
    Stretch port sending.uart (next sending))

include begins later

theorem Stretch.andThen_longer (fuel : Nat) :
    Longer uart (andThen (first fuel) fun sending => next sending fuel).2 ∧
      (first fuel).2.uart.log <+:
        (CosmosPC.andThen (first fuel) fun sending => next sending fuel).2.uart.log := by
  have earlier := begins.longer fuel
  rcases andThen_cases (first fuel) fun sending => next sending fuel with
    ⟨sending, ended, all⟩ | ⟨_, all⟩
  · have further := (later fuel sending ended).longer fuel
    rw [ended] at earlier
    rw [all, ended]
    exact ⟨earlier.trans further, further.log⟩
  · rw [all]
    exact ⟨earlier, List.prefix_rfl⟩

theorem Stretch.andThen_further {fuel more : Nat} (within : fuel ≤ more) :
    Further (andThen (first fuel) fun sending => next sending fuel)
      (CosmosPC.andThen (first more) fun sending => next sending more) := by
  rcases begins.further fuel more within with same | ⟨running, earlier⟩
  · rw [same]
    rcases ended : first more with ⟨flow, sending⟩
    cases flow with
    | next => exact (later more sending ended).further fuel more within
    | running => exact Or.inl rfl
    | returned value => exact Or.inl rfl
  · right
    rcases andThen_cases (first fuel) fun sending => next sending fuel with
      ⟨sending, ended, _⟩ | ⟨_, all⟩
    · rw [ended] at running
      cases running
    · rw [all]
      exact ⟨running, earlier.trans (begins.andThen_longer later more).2⟩

theorem Stretch.andThen_ends
    (unstuck : ∀ fuel log, uart.log <+: log →
      log <+: (andThen (first fuel) fun sending => next sending fuel).2.uart.log →
      Unstuck port log) :
    ∃ fuel, (CosmosPC.andThen (first fuel) fun sending => next sending fuel).1 ≠ .running := by
  have firstEnds : ∃ fuel, (first fuel).1 ≠ .running := by
    apply begins.ends
    intro fuel log start part
    exact unstuck fuel log start (part.trans (begins.andThen_longer later fuel).2)
  rcases firstEnds with ⟨enough, stopped⟩
  rcases andThen_cases (first enough) fun sending => next sending enough with
    ⟨sending, ended, _⟩ | ⟨_, all⟩
  · have second := later enough sending ended
    have stays (more : Nat) (within : enough ≤ more) : first more = (.next, sending) := by
      rw [begins.same within stopped, ended]
    have earlier := (begins.longer enough).log
    rw [ended] at earlier
    have nextEnds : ∃ fuel, (next sending fuel).1 ≠ .running := by
      apply second.ends
      intro fuel log start part
      apply unstuck (max fuel enough) log (earlier.trans start)
      rw [stays _ (Nat.le_max_right fuel enough)]
      exact part.trans (second.log_mono (Nat.le_max_left fuel enough))
    rcases nextEnds with ⟨more, stoppedToo⟩
    refine ⟨max more enough, ?_⟩
    rw [stays _ (Nat.le_max_right more enough), andThen_next,
      second.same (Nat.le_max_left more enough) stoppedToo]
    exact stoppedToo
  · refine ⟨enough, ?_⟩
    rw [all]
    exact stopped

end Sequence

theorem Stretch.andThen {first : Nat → Flow × Sending} {next : Sending → Nat → Flow × Sending}
    (begins : Stretch port uart first) (isOpen : uart.Open)
    (goesOn : ∀ sending, Clean port sending.uart → Stretch port sending.uart (next sending)) :
    Stretch port uart fun fuel => andThen (first fuel) fun sending => next sending fuel := by
  have later (fuel : Nat) (sending : Sending) (ended : first fuel = (.next, sending)) :
      Stretch port sending.uart (next sending) := goesOn sending (begins.clean isOpen ended)
  refine ⟨fun fuel => (begins.andThen_longer later fuel).1,
    fun fuel more within => begins.andThen_further later within, fun fuel => ?_,
    fun fuel stopped => ?_, begins.andThen_ends later⟩
  · rcases andThen_cases (first fuel) fun sending => next sending fuel with
      ⟨sending, ended, all⟩ | ⟨_, all⟩
    · rw [all]
      exact (later fuel sending ended).driven fuel
    · rw [all]
      exact begins.driven fuel
  · rcases andThen_cases (first fuel) fun sending => next sending fuel with
      ⟨sending, ended, all⟩ | ⟨_, all⟩
    · rw [all] at stopped ⊢
      exact (later fuel sending ended).idle fuel stopped
    · rw [all] at stopped ⊢
      exact begins.idle fuel stopped

/-! ## Stretches without a packet -/

theorem Clean.after (clean : Clean port uart) {events : List PortEvent}
    (quiet : ∀ event ∈ events, event.isRead = true ∨ event.isWrite = true) :
    Clean port (uart.after events) := by
  induction events generalizing uart with
  | nil => simpa using clean
  | cons event events induction =>
      rcases clean with ⟨isOpen, driven, idle⟩
      have first : Clean port (uart.after [event]) := by
        refine ⟨isOpen.after _, driven.concat fun due isDue => ?_, ?_⟩
        · rw [offer_of_idle idle] at isDue
          cases isDue
        · rw [Uart.after_log, pending_concat, idle]
          cases event with
          | packet => simpa [isRead, isWrite] using quiet _ List.mem_cons_self
          | write => exact List.drop_nil
          | read => rfl
      have rest := induction first fun other member =>
        quiet other (List.mem_cons_of_mem event member)
      rwa [Uart.after_after] at rest

theorem Clean.reads (clean : Clean port uart) {events : List PortEvent}
    (listening : Listening events) : Clean port (uart.after events) :=
  clean.after fun event member => Or.inl (listening event member)

theorem Clean.writes (clean : Clean port uart) {events : List PortEvent}
    (writing : Writing events) : Clean port (uart.after events) :=
  clean.after fun event member => Or.inr (writing event member)

theorem Stretch.unfuelled {outcome : Flow × Sending} (longer : Longer uart outcome.2)
    (clean : Clean port outcome.2.uart) (stops : outcome.1 ≠ .running) :
    Stretch port uart fun _ => outcome where
  longer _ := longer
  further _ _ _ := Or.inl rfl
  driven _ := clean.driven
  idle _ _ := clean.idle
  ends _ := ⟨0, stops⟩

theorem Stretch.earlier {run : Nat → Flow × Sending} {events : List PortEvent}
    (stretch : Stretch port (uart.after events) run) : Stretch port uart run where
  longer fuel := by
    rcases stretch.longer fuel with ⟨more, ends⟩
    exact ⟨events ++ more, by rw [ends, Uart.after_after]⟩
  further := stretch.further
  driven := stretch.driven
  idle := stretch.idle
  ends unstuck := stretch.ends fun fuel log start part =>
    unstuck fuel log ((List.prefix_append _ _).trans start) part

theorem stretch_waitOrReturn (ch : UInt8) (sending : Sending) (clean : Clean port sending.uart) :
    Stretch port sending.uart fun _ => waitOrReturn port ch sending := by
  rcases waitOrReturn_listens port ch sending clean.isOpen with
    ⟨reads, heard, listening, _, _, left⟩
  apply Stretch.unfuelled ⟨reads, heard⟩
  · rw [heard]
    exact clean.reads listening
  · rcases left with left | left <;> simp [left]

/-! ## A packet -/

/-- In the loop of `Ymodem_SendPacket`, with `index` bytes taken. -/
structure AtPacket (port : Port) (length index : Nat) (sending : Sending) : Prop where
  isOpen : sending.uart.Open
  driven : Forced (offer port) sending.uart.log
  within : index ≤ length
  unsent : pending sending.uart.log = sending.packetData.bytes index (length - index)

variable {length index : Nat} {sending : Sending}

theorem AtPacket.pending_eq_nil_iff (atPacket : AtPacket port length index sending) :
    pending sending.uart.log = [] ↔ ¬index < length := by
  rw [atPacket.unsent, ← List.length_eq_zero_iff, Memory.length_bytes]
  omega

def takenNext (port : Port) (length index : Nat) (sending : Sending) : Nat :=
  min (port.accepts sending.uart.log (sending.packetData.bytes index (length - index)))
    (length - index)

def afterOffer (port : Port) (length index : Nat) (sending : Sending) : Sending where
  packetData := sending.packetData.store length 0
  uart := sending.uart.note (.write (sending.packetData.bytes index (length - index))
    (takenNext port length index sending))

theorem AtPacket.loop (atPacket : AtPacket port length index sending) (short : length < 2 ^ 16)
    (unfinished : index < length) (fuel : Nat) :
    ymodemSendPacketLoop port length (fuel + 1) index sending =
      ymodemSendPacketLoop port length fuel (index + takenNext port length index sending)
        (afterOffer port length index sending) := by
  have fits : takenNext port length index sending ≤ length - index := Nat.min_le_right _ _
  have advance : (index + takenNext port length index sending % 2 ^ 16) % 2 ^ 16 =
      index + takenNext port length index sending := by omega
  have reach : index + (length - index) = length := by omega
  rw [ymodemSendPacketLoop, if_pos unfinished,
    sending.uart.uartWrite_open port _ _ _ atPacket.isOpen, reach]
  change ymodemSendPacketLoop port length fuel
    ((index + takenNext port length index sending % 2 ^ 16) % 2 ^ 16)
    (afterOffer port length index sending) = _
  rw [advance]

theorem AtPacket.afterOffer (atPacket : AtPacket port length index sending)
    (unfinished : index < length) :
    AtPacket port length (index + takenNext port length index sending)
      (CosmosPC.afterOffer port length index sending) := by
  have some : pending sending.uart.log ≠ [] := fun none =>
    atPacket.pending_eq_nil_iff.mp none unfinished
  rcases atPacket with ⟨isOpen, driven, within, unsent⟩
  have fits : takenNext port length index sending ≤ length - index := Nat.min_le_right _ _
  refine ⟨isOpen.after _, driven.concat fun due isDue => ?_, by omega, ?_⟩
  · rw [offer, if_neg some, unsent, Memory.length_bytes, Option.some.injEq] at isDue
    exact isDue
  · have log : (CosmosPC.afterOffer port length index sending).uart.log = sending.uart.log ++
        [.write (sending.packetData.bytes index (length - index))
          (takenNext port length index sending)] := rfl
    rw [log, pending_concat, unsent, stillPending, Memory.drop_bytes _ _ _ _ fits, Nat.sub_sub]
    exact (Memory.bytes_store_of_outside _ _ _ _ _ (by omega)).symm

theorem sendPacketLoop_unfinished (port : Port) (unfinished : index < length) :
    ymodemSendPacketLoop port length 0 index sending = (false, sending) := by
  rw [ymodemSendPacketLoop, if_pos unfinished]

theorem AtPacket.longer (atPacket : AtPacket port length index sending) (short : length < 2 ^ 16)
    (fuel : Nat) :
    Longer sending.uart (ymodemSendPacketLoop port length fuel index sending).2 := by
  rcases sendPacketLoop_writes port length fuel index sending atPacket.isOpen short
    atPacket.within with ⟨writes, ends, _⟩
  exact ⟨writes, ends⟩

theorem AtPacket.further (atPacket : AtPacket port length index sending) (short : length < 2 ^ 16)
    {fuel more : Nat} (within : fuel ≤ more) :
    Further (packetFlow (ymodemSendPacketLoop port length fuel index sending))
      (packetFlow (ymodemSendPacketLoop port length more index sending)) := by
  by_cases unfinished : index < length
  · induction fuel generalizing index sending more with
    | zero =>
        right
        rw [sendPacketLoop_unfinished port unfinished]
        exact ⟨rfl, (atPacket.longer short more).log⟩
    | succ fuel induction =>
        cases more with
        | zero => omega
        | succ more =>
            rw [atPacket.loop short unfinished, atPacket.loop short unfinished]
            have next := atPacket.afterOffer unfinished
            by_cases goesOn : index + takenNext port length index sending < length
            · exact induction next (by omega) goesOn
            · rw [sendPacketLoop_finished port length fuel _ _ goesOn,
                sendPacketLoop_finished port length more _ _ goesOn]
              exact Or.inl rfl
  · rw [sendPacketLoop_finished port length fuel _ _ unfinished,
      sendPacketLoop_finished port length more _ _ unfinished]
    exact Or.inl rfl

theorem AtPacket.driven_idle (atPacket : AtPacket port length index sending)
    (short : length < 2 ^ 16) (fuel : Nat) :
    let outcome := ymodemSendPacketLoop port length fuel index sending
    Forced (offer port) outcome.2.uart.log ∧
      (outcome.1 = true → pending outcome.2.uart.log = []) := by
  induction fuel generalizing index sending with
  | zero =>
      by_cases unfinished : index < length
      · rw [sendPacketLoop_unfinished port unfinished]
        exact ⟨atPacket.driven, fun finished => by cases finished⟩
      · rw [sendPacketLoop_finished port length 0 _ _ unfinished]
        exact ⟨atPacket.driven, fun _ => atPacket.pending_eq_nil_iff.mpr unfinished⟩
  | succ fuel induction =>
      by_cases unfinished : index < length
      · rw [atPacket.loop short unfinished]
        exact induction (atPacket.afterOffer unfinished)
      · rw [sendPacketLoop_finished port length _ _ _ unfinished]
        exact ⟨atPacket.driven, fun _ => atPacket.pending_eq_nil_iff.mpr unfinished⟩

def Passable (port : Port) (length index : Nat) (sending : Sending) : Prop :=
  ∀ fuel log, sending.uart.log <+: log →
    log <+: (ymodemSendPacketLoop port length fuel index sending).2.uart.log → Unstuck port log

theorem Passable.afterOffer (passable : Passable port length index sending)
    (atPacket : AtPacket port length index sending) (short : length < 2 ^ 16)
    (unfinished : index < length) :
    Passable port length (index + takenNext port length index sending)
      (CosmosPC.afterOffer port length index sending) := by
  intro fuel log start part
  apply passable (fuel + 1) log ((List.prefix_append _ _).trans start)
  rwa [atPacket.loop short unfinished]

theorem AtPacket.ends_of_afterOffer (atPacket : AtPacket port length index sending)
    (short : length < 2 ^ 16) (unfinished : index < length)
    (ends : ∃ fuel, (ymodemSendPacketLoop port length fuel
      (index + takenNext port length index sending)
      (CosmosPC.afterOffer port length index sending)).1 = true) :
    ∃ fuel, (ymodemSendPacketLoop port length fuel index sending).1 = true := by
  rcases ends with ⟨fuel, finished⟩
  exact ⟨fuel + 1, by rwa [atPacket.loop short unfinished]⟩

theorem AtPacket.ends_after_refusals (count : Nat)
    (atPacket : AtPacket port length index sending) (short : length < 2 ^ 16)
    (unfinished : index < length) (passable : Passable port length index sending)
    (takes : 0 < port.accepts
      (sending.uart.log ++ List.replicate count (.write (pending sending.uart.log) 0))
      (pending sending.uart.log))
    (rest : ∀ further after, index < further → AtPacket port length further after →
      Passable port length further after →
      ∃ fuel, (ymodemSendPacketLoop port length fuel further after).1 = true) :
    ∃ fuel, (ymodemSendPacketLoop port length fuel index sending).1 = true := by
  induction count generalizing sending with
  | zero =>
      apply atPacket.ends_of_afterOffer short unfinished
      apply rest
      · rw [List.replicate_zero, List.append_nil, atPacket.unsent] at takes
        have some : 0 < takenNext port length index sending := by
          unfold takenNext
          omega
        omega
      · exact atPacket.afterOffer unfinished
      · exact passable.afterOffer atPacket short unfinished
  | succ count induction =>
      apply atPacket.ends_of_afterOffer short unfinished
      have next := atPacket.afterOffer unfinished
      have further := passable.afterOffer atPacket short unfinished
      by_cases refused : takenNext port length index sending = 0
      · have log : (CosmosPC.afterOffer port length index sending).uart.log =
            sending.uart.log ++ [.write (pending sending.uart.log) 0] := by
          rw [atPacket.unsent, ← refused]
          rfl
        have same : pending (CosmosPC.afterOffer port length index sending).uart.log =
            pending sending.uart.log := by
          rw [log, pending_concat]
          rfl
        rw [refused, Nat.add_zero] at next further ⊢
        apply induction next further
        rw [same, log, List.append_assoc]
        exact takes
      · exact rest _ _ (by omega) next further

/-- The loop ends when the port gets stuck nowhere in it. -/
theorem AtPacket.ends (atPacket : AtPacket port length index sending) (short : length < 2 ^ 16)
    (passable : Passable port length index sending) :
    ∃ fuel, (ymodemSendPacketLoop port length fuel index sending).1 = true := by
  generalize left_eq : length - index = left
  induction left using Nat.strongRecOn generalizing index sending with
  | ind left induction =>
      by_cases unfinished : index < length
      · have some : pending sending.uart.log ≠ [] := by
          intro none
          have empty := congrArg List.length none
          rw [atPacket.unsent, Memory.length_bytes, List.length_nil] at empty
          omega
        rcases passable 0 sending.uart.log List.prefix_rfl (atPacket.longer short 0).log some with
          ⟨count, takes⟩
        apply atPacket.ends_after_refusals count short unfinished passable takes
        intro further after advanced next nextPassable
        have within := next.within
        exact induction (length - further) (by omega) next nextPassable rfl
      · exact ⟨0, by rw [sendPacketLoop_finished port length 0 _ _ unfinished]⟩

theorem Clean.atPacket (clean : Clean port sending.uart) (site : PacketSite) (length : Nat) :
    AtPacket port length 0
      { sending with
        uart := sending.uart.note (.packet site (sending.packetData.bytes 0 length)) } := by
  refine ⟨clean.isOpen.after _, clean.driven.concat fun due isDue => ?_, Nat.zero_le length, ?_⟩
  · rw [offer_of_idle clean.idle] at isDue
    cases isDue
  · exact pending_concat sending.uart.log _

theorem AtPacket.stretch (atPacket : AtPacket port length index sending) (short : length < 2 ^ 16) :
    Stretch port sending.uart fun fuel =>
      packetFlow (ymodemSendPacketLoop port length fuel index sending) where
  longer := atPacket.longer short
  further _ _ within := atPacket.further short within
  driven fuel := (atPacket.driven_idle short fuel).1
  idle fuel stopped := by
    apply (atPacket.driven_idle short fuel).2
    by_cases finished : (ymodemSendPacketLoop port length fuel index sending).1 = true
    · exact finished
    · exact absurd (if_neg finished) stopped
  ends unstuck := by
    rcases atPacket.ends short unstuck with ⟨fuel, finished⟩
    refine ⟨fuel, ?_⟩
    rw [packetFlow, if_pos finished]
    intro running
    cases running

theorem stretch_sendPacket (site : PacketSite) (length : Nat) (sending : Sending)
    (clean : Clean port sending.uart) (short : length < 2 ^ 16) :
    Stretch port sending.uart fun fuel =>
      packetFlow (ymodemSendPacket port fuel site length sending) :=
  ((clean.atPacket site length).stretch short).earlier

/-! ## A session -/

theorem stretch_sendPacketAndWait (site : PacketSite) (length : Nat) (sending : Sending)
    (clean : Clean port sending.uart) (short : length < 2 ^ 16) :
    Stretch port sending.uart fun fuel => sendPacketAndWait port fuel site length sending := by
  simp only [sendPacketAndWait_eq]
  apply (stretch_sendPacket site length sending clean short).andThen clean.isOpen
  exact stretch_waitOrReturn ack

theorem stretch_sendHeader (filename : Nat → UInt8) (sizeFile : Nat) (stray : List UInt8)
    (sending : Sending) (clean : Clean port sending.uart) :
    Stretch port sending.uart fun fuel =>
      sendHeader port fuel filename sizeFile stray sending := by
  simp only [sendHeader_eq]
  have packet := stretch_sendPacketAndWait .header (packetSize + packetHeader + 2)
    { sending with
      packetData := storeCheckBytes
        (ymodemPrepareIntialPacket sending.packetData filename sizeFile stray) packetSize }
    clean (by decide)
  apply packet.andThen clean.isOpen
  exact stretch_waitOrReturn crc16

theorem stretch_sendBlock (buf : Nat → UInt8) (offset size blkNumber : Nat) (sending : Sending)
    (clean : Clean port sending.uart) :
    Stretch port sending.uart fun fuel =>
      sendBlock port fuel buf offset size blkNumber sending := by
  have short : payloadSize size + packetHeader + 2 < 2 ^ 16 := by
    unfold payloadSize packetHeader packet1kSize packetSize
    split <;> decide
  exact stretch_sendPacketAndWait .data _
    { sending with
      packetData := storeCheckBytes
        (ymodemPreparePacket (fun index => buf (offset + index)) sending.packetData
          (UInt8.ofNat blkNumber) size) (payloadSize size) }
    clean short

theorem stretch_stays (flow : Flow) (stops : flow ≠ .running) (sending : Sending)
    (clean : Clean port sending.uart) : Stretch port sending.uart fun _ => (flow, sending) :=
  Stretch.unfuelled ⟨[], by simp⟩ clean stops

theorem stretch_sendBlocks (buf : Nat → UInt8) (offset size blkNumber : Nat) (sending : Sending)
    (clean : Clean port sending.uart) :
    Stretch port sending.uart fun fuel =>
      sendBlocks port fuel buf offset size blkNumber sending := by
  induction size using Nat.strongRecOn generalizing offset blkNumber sending with
  | ind size induction =>
      by_cases done : size = 0
      · have all : (fun fuel => sendBlocks port fuel buf offset size blkNumber sending) =
            fun _ => (.next, sending) := by
          funext fuel
          rw [sendBlocks, if_pos done]
        rw [all]
        exact stretch_stays .next (by simp) sending clean
      · simp only [sendBlocks_eq _ _ _ _ _ _ _ done]
        apply (stretch_sendBlock buf offset size blkNumber sending clean).andThen clean.isOpen
        intro sent cleanToo
        by_cases more : size > payloadSize size
        · simp only [if_pos more]
          by_cases full : blkNumber = userFlashSize / 1024
          · simp only [if_pos full]
            exact stretch_stays _ (by simp) sent cleanToo
          · simp only [if_neg full]
            have positive := payloadSize_pos size
            exact induction _ (by omega) _ _ sent cleanToo
        · simp only [if_neg more]
          exact stretch_stays .next (by simp) sent cleanToo

theorem Clean.byte (clean : Clean port uart) (c : UInt8) : Clean port (sendByte port c uart) := by
  rcases sendByte_writes port c uart clean.isOpen with ⟨writes, sent, writing, _⟩
  rw [sent]
  exact clean.writes writing

theorem Stretch.byte {run : Nat → Flow × Sending} (c : UInt8) (clean : Clean port uart)
    (stretch : Stretch port (sendByte port c uart) run) : Stretch port uart run := by
  rcases sendByte_writes port c uart clean.isOpen with ⟨writes, sent, _⟩
  rw [sent] at stretch
  exact stretch.earlier

theorem stretch_sendClosing (sending : Sending) (clean : Clean port sending.uart) :
    Stretch port sending.uart fun fuel => sendClosing port fuel sending := by
  simp only [sendClosing_eq]
  have packet := stretch_sendPacket .closing (packetSize + packetHeader)
    { sending with packetData := closingPacket sending.packetData } clean (by decide)
  apply packet.andThen clean.isOpen
  intro closed cleanToo
  let tempCRC := calCRC16 (closed.packetData.bytes packetHeader packetSize)
  have cleanHigh := cleanToo.byte (crcHigh tempCRC)
  apply Stretch.byte (crcHigh tempCRC) cleanToo
  apply Stretch.byte (crcLow tempCRC) cleanHigh
  exact stretch_waitOrReturn ack
    { closed with
      uart := sendByte port (crcLow tempCRC) (sendByte port (crcHigh tempCRC) closed.uart) }
    (cleanHigh.byte (crcLow tempCRC))

theorem stretch_sendEnd (sending : Sending) (clean : Clean port sending.uart) :
    Stretch port sending.uart fun fuel => sendEnd port fuel sending := by
  simp only [sendEnd_eq]
  have cleanByte := clean.byte eot
  apply Stretch.byte eot clean
  apply (stretch_waitOrReturn ack { sending with uart := sendByte port eot sending.uart }
    cleanByte).andThen cleanByte.isOpen
  intro acknowledged cleanThen
  apply (stretch_sendClosing acknowledged cleanThen).andThen cleanThen.isOpen
  exact stretch_stays (.returned 0) (by simp)

theorem stretch_transmit (locals : Locals) (buf sendFileName : Nat → UInt8) (sizeFile : Nat)
    (uart : Uart) (clean : Clean port uart) :
    Stretch port uart fun fuel =>
      ymodemTransmit port fuel locals buf sendFileName sizeFile uart := by
  simp only [ymodemTransmit_eq]
  apply (stretch_sendHeader (copiedName locals sendFileName) sizeFile locals.stray
    ⟨locals.packetData, uart⟩ clean).andThen clean.isOpen
  intro headed cleanToo
  apply (stretch_sendBlocks buf 0 sizeFile 1 headed cleanToo).andThen cleanToo.isOpen
  exact stretch_sendEnd

theorem andThen_ne_next (first : Flow × Sending) {next : Sending → Flow × Sending}
    (leaves : ∀ sending, (next sending).1 ≠ .next) : (andThen first next).1 ≠ .next := by
  rcases andThen_cases first next with ⟨sending, _, all⟩ | ⟨left, all⟩
  · rw [all]
    exact leaves sending
  · rw [all]
    exact left

theorem transmit_ne_next (port : Port) (fuel : Nat) (locals : Locals)
    (buf sendFileName : Nat → UInt8) (sizeFile : Nat) (uart : Uart) :
    (ymodemTransmit port fuel locals buf sendFileName sizeFile uart).1 ≠ .next := by
  rw [ymodemTransmit_eq]
  apply andThen_ne_next
  intro headed
  apply andThen_ne_next
  intro filed
  rw [sendEnd_eq]
  apply andThen_ne_next
  intro acknowledged
  apply andThen_ne_next
  intro closed next
  cases next

theorem returned_of_stopped {flow : Flow} (stopped : flow ≠ .running) (leaves : flow ≠ .next) :
    ∃ value, flow = .returned value := by
  cases flow with
  | running => exact absurd rfl stopped
  | next => exact absurd rfl leaves
  | returned value => exact ⟨value, rfl⟩

theorem clean_opened (port : Port) : Clean port Uart.opened :=
  ⟨Uart.opened_open, Forced.nil, rfl⟩

/-- `Ymodem_Transmit` returns exactly if the port gets stuck in no frame: whenever
it has not taken all of one, it takes a byte of the rest sooner or later. -/
theorem transmit_returns_iff (port : Port) (locals : Locals) (buf sendFileName : Nat → UInt8)
    (sizeFile : Nat) :
    (∃ fuel value, (ymodemTransmit port fuel locals buf sendFileName sizeFile Uart.opened).1 =
        .returned value) ↔
      ∀ fuel log, log <+:
          (ymodemTransmit port fuel locals buf sendFileName sizeFile Uart.opened).2.uart.log →
        Unstuck port log := by
  have session := stretch_transmit locals buf sendFileName sizeFile _ (clean_opened port)
  constructor
  · rintro ⟨enough, value, returned⟩ fuel log part
    have stopped : (ymodemTransmit port enough locals buf sendFileName sizeFile Uart.opened).1 ≠
        .running := by
      rw [returned]
      intro running
      cases running
    apply unstuck_of_finished (session.driven enough) (session.idle enough stopped)
    apply part.trans
    rcases Nat.le_total fuel enough with within | beyond
    · exact session.log_mono within
    · exact session.same beyond stopped ▸ List.prefix_rfl
  · intro unstuck
    rcases session.ends fun fuel log _ => unstuck fuel log with ⟨fuel, stopped⟩
    exact ⟨fuel, returned_of_stopped stopped
      (transmit_ne_next port fuel locals buf sendFileName sizeFile Uart.opened)⟩

/-! ## A port that fails for ever -/

def unplugged : Port where
  accepts _ _ := 0
  delivers _ _ := []

theorem sendPacketLoop_unplugged (length fuel index : Nat) (sending : Sending)
    (isOpen : sending.uart.Open) (unfinished : index < length) (short : length < 2 ^ 16) :
    (ymodemSendPacketLoop unplugged length fuel index sending).1 = false := by
  induction fuel generalizing sending with
  | zero => rw [sendPacketLoop_unfinished unplugged unfinished]
  | succ fuel induction =>
      have refused : unplugged.accepts sending.uart.log
          (sending.packetData.bytes index (length - index)) = 0 := rfl
      have stays : (index + 0 % 2 ^ 16) % 2 ^ 16 = index := by omega
      rw [ymodemSendPacketLoop, if_pos unfinished,
        sending.uart.uartWrite_open unplugged _ _ _ isOpen, refused, Nat.zero_min]
      dsimp only
      rw [stays]
      exact induction _ (isOpen.after _)

/-- With the device unplugged the header is offered for ever. -/
theorem unplugged_never_returns : ¬∃ fuel value,
    (ymodemTransmit unplugged fuel ⟨Memory.zeroed, fun _ => 0, []⟩ (fun _ => 0) (fun _ => 0) 1
      Uart.opened).1 = .returned value := by
  rintro ⟨fuel, value, returned⟩
  rw [ymodemTransmit_eq, sendHeader_eq, sendPacketAndWait_eq, packetFlow, ymodemSendPacket,
    sendPacketLoop_unplugged _ fuel 0 _ (Uart.opened_open.after _) (by decide) (by decide)]
    at returned
  cases returned

end CosmosPC
