import CosmosPC.Foundation.Timeouts
import CosmosPC.Ymodem.Transmit

/-! # Waiting for an answer

`Receive_Byte` polls the port for one byte, and `Ymodem_WaitForChar` calls it
again for a byte that it does not wait for. Both take events off the input: a
byte with the empty reads before it, or a silence of `NAK_TIMEOUT` reads. -/

namespace CosmosPC

def listened (port : Port) : (reads : Nat) → (log : List PortEvent) → List PortEvent
  | 0, log => log
  | reads + 1, log => listened port reads (log ++ [.read 1 ((port.delivers log 1).take 1)])

/-- What reads of one byte each find after a history. -/
def oneByteInput (port : Port) (log : List PortEvent) (index : Nat) : Option UInt8 :=
  (port.delivers (listened port index log) 1).head?

def readOf (result : Option UInt8) : PortEvent := .read 1 result.toList

variable {port : Port}

/-! ## The input after some reads -/

theorem delivers_one (log : List PortEvent) :
    (port.delivers log 1).take 1 = (oneByteInput port log 0).toList := List.take_one

theorem oneByteInput_note (log : List PortEvent) :
    oneByteInput port (log ++ [readOf (oneByteInput port log 0)]) =
      fun index => oneByteInput port log (index + 1) := by
  funext index
  rw [readOf, ← delivers_one]
  rfl

theorem oneByteInput_after (log : List PortEvent) (results : List (Option UInt8))
    (finds : Finds (oneByteInput port log) results) :
    oneByteInput port (log ++ results.map readOf) =
      inputFrom (oneByteInput port log) results.length := by
  induction results generalizing log with
  | nil =>
      rw [List.map_nil, List.append_nil]
      rfl
  | cons result results induction =>
      rcases finds with ⟨here, finds⟩
      rw [← oneByteInput_note, here] at finds
      have rest := induction (log ++ [readOf result]) finds
      rw [List.map_cons, List.append_cons, rest, ← here, oneByteInput_note]
      rfl

/-! ## Events -/

theorem receiveByte_event (port : Port) (timeout : Nat) (uart : Uart) (isOpen : uart.Open) :
    receiveByte port timeout uart =
      ((awaitEvent timeout (oneByteInput port uart.log)).value?,
        uart.after ((awaitEvent timeout (oneByteInput port uart.log)).polls.map readOf)) := by
  induction timeout generalizing uart with
  | zero => exact congrArg (Prod.mk none) uart.after_nil.symm
  | succ timeout induction =>
      rw [receiveByte, uart.uartRead_open port 1 isOpen, delivers_one, awaitEvent]
      cases here : oneByteInput port uart.log 0 with
      | some c => rfl
      | none =>
          have rest := induction (uart.after [readOf none]) (isOpen.after _)
          rw [Uart.after_log, ← here, oneByteInput_note, Uart.after_after, here] at rest
          rw [WaitEvent.value?_later, WaitEvent.polls_later]
          exact rest

theorem waitForCharLoop_round (port : Port) (ch : UInt8) (rounds : Nat) (uart : Uart)
    (isOpen : uart.Open) {event : WaitEvent nakTimeout UInt8}
    (first : event = awaitEvent nakTimeout (oneByteInput port uart.log)) :
    ymodemWaitForCharLoop port ch (rounds + 1) uart =
      if event.value? = some ch then (true, uart.after (event.polls.map readOf))
      else ymodemWaitForCharLoop port ch rounds (uart.after (event.polls.map readOf)) := by
  rw [ymodemWaitForCharLoop, receiveByte_event port nakTimeout uart isOpen, ← first]
  cases event.value? with
  | none => rfl
  | some receivedC => simp

theorem waitForCharLoop_events (port : Port) (ch : UInt8) (rounds : Nat) (uart : Uart)
    (isOpen : uart.Open) {events : List (WaitEvent nakTimeout UInt8)}
    (first : events = awaitEvents nakTimeout rounds (oneByteInput port uart.log)) :
    ymodemWaitForCharLoop port ch rounds uart =
      (decide (∃ event ∈ events, event.value? = some ch),
        uart.after ((pollsOf (through ch events)).map readOf)) := by
  induction rounds generalizing uart events with
  | zero =>
      subst first
      simp [ymodemWaitForCharLoop, awaitEvents, through, pollsOf]
  | succ rounds induction =>
      have finds := finds_awaitEvent nakTimeout (oneByteInput port uart.log)
      rw [awaitEvents] at first
      rw [waitForCharLoop_round port ch rounds uart isOpen rfl]
      generalize awaitEvent nakTimeout (oneByteInput port uart.log) = event at finds first ⊢
      subst first
      by_cases awaited : event.value? = some ch
      · simp [awaited, through, pollsOf]
      · have input := oneByteInput_after uart.log event.polls finds
        rw [if_neg awaited, induction (uart.after (event.polls.map readOf)) (isOpen.after _)
          (by rw [Uart.after_log, input])]
        simp [awaited, through, pollsOf]

/-- The reads of the port fall into events in one way. The wait succeeds if one
of the first 20 events is the character, having taken the input up to the first
such event, and otherwise has taken all 20. -/
theorem waitForChar_consumes (port : Port) (ch : UInt8) (uart : Uart) (isOpen : uart.Open) :
    ∃ events : List (WaitEvent nakTimeout UInt8),
      (events.length = 20 ∧ Finds (oneByteInput port uart.log) (pollsOf events)) ∧
      (∀ other : List (WaitEvent nakTimeout UInt8), other.length = 20 →
        Finds (oneByteInput port uart.log) (pollsOf other) → other = events) ∧
      ((ymodemWaitForChar port ch uart).1 = true ↔ ∃ event ∈ events, event.value? = some ch) ∧
      (∀ earlier event later, events = earlier ++ event :: later → event.value? = some ch →
        (∀ other ∈ earlier, other.value? ≠ some ch) →
        (ymodemWaitForChar port ch uart).2 =
          uart.after ((pollsOf (earlier ++ [event])).map readOf)) ∧
      ((ymodemWaitForChar port ch uart).1 = false →
        (ymodemWaitForChar port ch uart).2 = uart.after ((pollsOf events).map readOf)) ∧
      ∃ reads, (ymodemWaitForChar port ch uart).2 = uart.after reads ∧
        reads.length ≤ 20 * nakTimeout := by
  have outcome := waitForCharLoop_events port ch 20 uart isOpen rfl
  refine ⟨awaitEvents nakTimeout 20 (oneByteInput port uart.log),
    ⟨length_awaitEvents _ _ _, finds_awaitEvents _ _ _⟩, fun other count finds => ?_, ?_⟩
  · rw [eq_awaitEvents other _ finds, count]
  · have count := length_awaitEvents nakTimeout 20 (oneByteInput port uart.log)
    rw [ymodemWaitForChar, outcome]
    generalize awaitEvents nakTimeout 20 (oneByteInput port uart.log) = events at count ⊢
    refine ⟨decide_eq_true_iff, ?_, fun absent => ?_, _, rfl, ?_⟩
    · intro earlier event later split found first
      rw [split, through_of_first ch earlier event later found first]
    · have none : ∀ event ∈ events, event.value? ≠ some ch := by simpa using absent
      rw [through_of_absent ch events none]
    · have few := length_pollsOf_le (through ch events)
      have part := length_through_le ch events
      rw [count] at part
      rw [List.length_map]
      exact Nat.le_trans few (Nat.mul_le_mul_right nakTimeout part)

def noisyPort : Port where
  accepts _ requested := requested.length
  delivers log _ := if log.length = 1 then [66] else if log.length = 5 then [ack] else []

theorem length_listened (port : Port) (reads : Nat) (log : List PortEvent) :
    (listened port reads log).length = log.length + reads := by
  induction reads generalizing log with
  | zero => rfl
  | succ reads induction =>
      rw [listened, induction, List.length_append, List.length_singleton]
      omega

theorem oneByteInput_noisyPort (index : Nat) :
    oneByteInput noisyPort Uart.opened.log index =
      if index = 1 then some 66 else if index = 5 then some ack else none := by
  have count : (listened noisyPort index Uart.opened.log).length = index := by
    rw [length_listened]
    exact Nat.zero_add index
  unfold oneByteInput
  generalize listened noisyPort index Uart.opened.log = log at count
  subst count
  dsimp only [noisyPort]
  split
  · rfl
  · split <;> rfl

theorem finds_nothing (results : List (Option UInt8)) (empty : ∀ result ∈ results, result = none) :
    Finds (fun _ => none) results := by
  induction results with
  | nil => trivial
  | cons result results induction =>
      rw [List.forall_mem_cons] at empty
      exact ⟨empty.1.symm, induction empty.2⟩

def noisyEvents : List (WaitEvent nakTimeout UInt8) :=
  [.arrival ⟨1, by decide⟩ 66, .arrival ⟨3, by decide⟩ ack] ++ List.replicate 18 .silence

theorem finds_noisyEvents :
    Finds (oneByteInput noisyPort Uart.opened.log) (pollsOf noisyEvents) := by
  rw [noisyEvents, pollsOf, List.flatMap_append, finds_append]
  constructor
  · simp [Finds, WaitEvent.polls, oneByteInput_noisyPort]
  · have silent : inputFrom (oneByteInput noisyPort Uart.opened.log) 6 = fun _ => none := by
      funext index
      simp only [inputFrom, oneByteInput_noisyPort]
      rw [if_neg (by omega), if_neg (by omega)]
    change Finds (inputFrom (oneByteInput noisyPort Uart.opened.log) 6) _
    rw [silent]
    apply finds_nothing
    intro result member
    rcases List.mem_flatMap.mp member with ⟨event, among, polled⟩
    rw [List.eq_of_mem_replicate among] at polled
    exact List.eq_of_mem_replicate polled

theorem waitForChar_consumes_noise :
    (ymodemWaitForChar noisyPort ack Uart.opened).1 = true ∧
      (ymodemWaitForChar noisyPort ack Uart.opened).2 = Uart.opened.after
        ([none, some 66, none, none, none, some ack].map readOf) := by
  rcases waitForChar_consumes noisyPort ack Uart.opened Uart.opened_open with
    ⟨events, _, unique, succeeds, first, _⟩
  have same := unique noisyEvents rfl finds_noisyEvents
  subst same
  exact ⟨succeeds.mpr ⟨.arrival ⟨3, by decide⟩ ack, by simp [noisyEvents], rfl⟩,
    first [.arrival ⟨1, by decide⟩ 66] (.arrival ⟨3, by decide⟩ ack)
      (List.replicate 18 .silence) rfl rfl (by decide)⟩

end CosmosPC
