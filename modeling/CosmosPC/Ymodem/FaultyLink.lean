import Mathlib.Data.List.ReduceOption
import CosmosPC.Foundation.AckedLink
import CosmosPC.Ymodem.Bursts

/-! # A receiver behind a faulty cable

The reference receiver, and the cable to it and back, as a transition system
whose visible labels are the port events of the sender. Frames may be damaged or
lost, answers may be delayed or lost. The system is an instance of an
acknowledged link, whose frames are the bursts that the sender puts on the cable
before it listens. -/

namespace CosmosPC

inductive Phase
  | header
  | data
  | closing
  | done
  deriving DecidableEq, Repr

structure Receiver where
  phase : Phase
  stored : List (List UInt8)
  deriving DecidableEq, Repr

namespace Receiver

def initial : Receiver := ⟨.header, []⟩

/-- Start byte, length, number, complement and check value are all right. -/
def WellFormed (start : UInt8) (size : Nat) (number : UInt8) (frame : List UInt8) : Prop :=
  (framePayload frame).length = size ∧ frame = encodeFrame start number (framePayload frame)

instance (start : UInt8) (size : Nat) (number : UInt8) (frame : List UInt8) :
    Decidable (WellFormed start size number frame) :=
  inferInstanceAs (Decidable (_ ∧ _))

def accept (receiver : Receiver) (frame : List UInt8) : Option (Receiver × List UInt8) :=
  match receiver.phase with
  | .header =>
      if WellFormed soh packetSize 0 frame then
        some ({ receiver with phase := .data }, [ack, crc16])
      else none
  | .data =>
      let number := UInt8.ofNat (receiver.stored.length + 1)
      if frame = [eot] then some ({ receiver with phase := .closing }, [ack])
      else if WellFormed stx packet1kSize number frame ∨ WellFormed soh packetSize number frame then
        some ({ receiver with stored := receiver.stored ++ [framePayload frame] }, [ack])
      else none
  | .closing =>
      if frame = encodeFrame soh 0 (List.replicate packetSize 0) then
        some ({ receiver with phase := .done }, [ack])
      else none
  | .done => none

def next (receiver : Receiver) (frame : List UInt8) : Option Receiver :=
  (receiver.accept frame).map Prod.fst

theorem count_answers {receiver after : Receiver} {frame answers : List UInt8}
    (accepted : receiver.accept frame = some (after, answers)) : answers.count ack = 1 := by
  unfold accept at accepted
  split at accepted
  · split at accepted
    · cases accepted
      decide
    · cases accepted
  · dsimp only at accepted
    split at accepted
    · cases accepted
      decide
    · split at accepted
      · cases accepted
        decide
      · cases accepted
  · split at accepted
    · cases accepted
      decide
    · cases accepted
  · cases accepted

end Receiver

structure Link where
  /-- What the sender has written since it last listened. -/
  burst : List UInt8
  /-- The sender is about to listen, and its burst is on its way. -/
  turned : Bool
  /-- The frames on their way out. -/
  out : List (List UInt8)
  receiver : Receiver
  /-- The answers on their way back. -/
  back : List UInt8

namespace Link

def initial : Link := ⟨[], false, [], .initial, []⟩

/-- A read delivers nothing or the oldest answer, however long that one has been
waiting. -/
inductive Step : Link → Option PortEvent → Link → Prop
  | packet {link} (site : PacketSite) (frame : List UInt8) :
      Step link (some (.packet site frame)) link
  | write {link} (requested : List UInt8) (accepted : Nat) (talking : link.turned = false) :
      Step link (some (.write requested accepted))
        { link with burst := link.burst ++ requested.take accepted }
  | turn {link} (talking : link.turned = false) (written : link.burst ≠ []) :
      Step link none
        { link with burst := [], turned := true, out := link.out ++ [link.burst] }
  | accept {link frame rest receiver answers} (next : link.out = frame :: rest)
      (accepted : link.receiver.accept frame = some (receiver, answers)) :
      Step link none
        { link with out := rest, receiver := receiver, back := link.back ++ answers }
  | refuse {link frame rest} (next : link.out = frame :: rest)
      (refused : link.receiver.accept frame = none) (answers : List UInt8)
      (answer : answers = [nak] ∨ answers = []) :
      Step link none { link with out := rest, back := link.back ++ answers }
  | damage {link frame rest} (next : link.out = frame :: rest) (answers : List UInt8)
      (answer : answers = [nak] ∨ answers = []) :
      Step link none { link with out := rest, back := link.back ++ answers }
  | lose {link frame rest} (next : link.out = frame :: rest) :
      Step link none { link with out := rest }
  | poll {link} : Step link none { link with back := link.back ++ [crc16] }
  | drop {link} (earlier : List UInt8) (answer : UInt8) (later : List UInt8)
      (present : link.back = earlier ++ answer :: later) :
      Step link none { link with back := earlier ++ later }
  | silence {link} (requested : Nat) (spoken : link.burst = []) :
      Step link (some (.read requested [])) { link with turned := false }
  | answer {link} (requested : Nat) (byte : UInt8) (rest : List UInt8)
      (spoken : link.burst = []) (next : link.back = byte :: rest) :
      Step link (some (.read requested [byte])) { link with turned := false, back := rest }

/-- The link at its best: the receiver has the burst as soon as the sender
listens, and no answer is late. -/
def carry (link : Link) : PortEvent → Option Link
  | .packet _ _ => some link
  | .write requested accepted =>
      some { link with burst := link.burst ++ requested.take accepted }
  | .read _ delivered =>
      let heard :=
        if link.burst = [] then some (link.receiver, [])
        else link.receiver.accept link.burst
      heard.bind fun (receiver, answers) =>
        let back := link.back ++ answers
        if delivered = [] then
          some { link with burst := [], receiver := receiver, back := back }
        else if delivered = back.take 1 then
          some { link with burst := [], receiver := receiver, back := back.drop 1 }
        else none

theorem carry_run {link after : Link} {event : PortEvent} (talking : link.turned = false)
    (arrived : link.out = []) (carried : link.carry event = some after) :
    after.turned = false ∧ after.out = [] ∧
      ∃ labels, Run Step link labels after ∧ labels.reduceOption = [event] := by
  cases event with
  | packet site frame =>
      cases carried
      exact ⟨talking, arrived, _, .single (.packet site frame), rfl⟩
  | write requested accepted =>
      cases carried
      exact ⟨talking, arrived, _, .single (.write requested accepted talking), rfl⟩
  | read requested delivered =>
      rcases Option.bind_eq_some_iff.mp carried with ⟨⟨receiver, answers⟩, heard, left⟩
      rcases link with ⟨burst, turned, out, receiver₀, back⟩
      cases talking
      cases arrived
      dsimp only at heard left
      -- The burst, if there is one, arrives before the sender reads.
      have arrives : ∃ labels turned,
          Run Step ⟨burst, false, [], receiver₀, back⟩ labels
            ⟨[], turned, [], receiver, back ++ answers⟩ ∧ labels.reduceOption = [] := by
        by_cases idle : burst = []
        · rw [if_pos idle] at heard
          cases heard
          cases idle
          rw [List.append_nil]
          exact ⟨[], false, .nil _, rfl⟩
        · rw [if_neg idle] at heard
          exact ⟨[none, none], true, .cons (.turn rfl idle) (.single (.accept rfl heard)), rfl⟩
      rcases arrives with ⟨labels, turned, run, hidden⟩
      have visible : (labels ++ [some (PortEvent.read requested delivered)]).reduceOption =
          [PortEvent.read requested delivered] := by
        rw [List.reduceOption_append, hidden]
        rfl
      by_cases silent : delivered = []
      · rw [if_pos silent] at left
        cases left
        subst silent
        exact ⟨rfl, rfl, _, run.append (.single (.silence requested rfl)), visible⟩
      · rw [if_neg silent] at left
        by_cases oldest : delivered = (back ++ answers).take 1
        · rw [if_pos oldest] at left
          cases left
          generalize back ++ answers = waiting at oldest run
          cases waiting with
          | nil => exact absurd oldest silent
          | cons byte rest =>
              subst oldest
              exact ⟨rfl, rfl, _, run.append (.single (.answer requested byte rest rfl rfl)),
                visible⟩
        · rw [if_neg oldest] at left
          cases left

theorem carry_runs {link after : Link} {log : List PortEvent} (talking : link.turned = false)
    (arrived : link.out = []) (carried : log.foldlM carry link = some after) :
    ∃ labels, Run Step link labels after ∧ labels.reduceOption = log := by
  induction log generalizing link with
  | nil =>
      cases carried
      exact ⟨[], .nil _, rfl⟩
  | cons event log induction =>
      rw [List.foldlM_cons] at carried
      rcases Option.bind_eq_some_iff.mp carried with ⟨middle, first, rest⟩
      rcases carry_run talking arrived first with ⟨talking, arrived, labels, run, visible⟩
      rcases induction talking arrived rest with ⟨more, moreRun, moreVisible⟩
      refine ⟨labels ++ more, run.append moreRun, ?_⟩
      rw [List.reduceOption_append, visible, moreVisible]
      rfl

end Link

/-! ## The link as an acknowledged link -/

/-- What the state of the link and the events so far say about an acknowledged
link whose acknowledgements are the `ACK` bytes. -/
structure Abstracts (log : List PortEvent) (link : Link)
    (abstract : AckedLink.State (List UInt8) Receiver) : Prop where
  inFlight : abstract.inFlight = link.out
  returning : abstract.returning = link.back.count ack
  taken : abstract.taken = (readBytes log).count ack
  peer : abstract.peer = link.receiver
  talking : link.turned = false →
    abstract.sent = (Wire.ofLog log).bursts ∧ link.burst = (Wire.ofLog log).begun
  turned : link.turned = true →
    abstract.sent = (Wire.ofLog log).bursts ++ [(Wire.ofLog log).begun] ∧
      (Wire.ofLog log).begun ≠ [] ∧ link.burst = []

variable {log : List PortEvent} {link : Link}
  {abstract : AckedLink.State (List UInt8) Receiver}

theorem Abstracts.hidden (abstracts : Abstracts log link abstract) {out : List (List UInt8)}
    {receiver : Receiver} {back : List UInt8}
    {moved : AckedLink.State (List UInt8) Receiver} (inFlight : moved.inFlight = out)
    (returning : moved.returning = back.count ack) (taken : moved.taken = abstract.taken)
    (peer : moved.peer = receiver) (sent : moved.sent = abstract.sent) :
    Abstracts log { link with out := out, receiver := receiver, back := back } moved where
  inFlight := inFlight
  returning := returning
  taken := taken.trans abstracts.taken
  peer := peer
  talking isTalking := by
    rw [sent]
    exact abstracts.talking isTalking
  turned hasTurned := by
    rw [sent]
    exact abstracts.turned hasTurned

theorem Abstracts.failed (abstracts : Abstracts log link abstract) {frame : List UInt8}
    {rest : List (List UInt8)} (answers : List UInt8) (next : link.out = frame :: rest)
    (noAck : answers.count ack = 0) :
    ∃ moved, AckedLink.Step Receiver.next abstract .fail moved ∧
      Abstracts log { link with out := rest, back := link.back ++ answers } moved := by
  have present : abstract.inFlight = frame :: rest := abstracts.inFlight.trans next
  refine ⟨_, .fail present, abstracts.hidden rfl ?_ rfl abstracts.peer ?_⟩
  · simp [abstracts.returning, noAck]
  · simp [AckedLink.State.sent, present]

theorem Abstracts.listens (abstracts : Abstracts log link abstract) (spoken : link.burst = [])
    (requested : Nat) (delivered : List UInt8) :
    abstract.sent = (Wire.ofLog (log ++ [.read requested delivered])).bursts ∧
      (Wire.ofLog (log ++ [.read requested delivered])).begun = [] := by
  rw [Wire.ofLog_concat]
  unfold Wire.event
  cases state : link.turned with
  | false =>
      rcases abstracts.talking state with ⟨sent, same⟩
      rw [spoken] at same
      simp only [← same, sent, if_true]
      exact ⟨trivial, trivial⟩
  | true =>
      rcases abstracts.turned state with ⟨sent, written, _⟩
      simp only [if_neg written]
      exact ⟨sent, trivial⟩

/-- Every step of the link is a few steps of the acknowledged link. -/
theorem Abstracts.step (abstracts : Abstracts log link abstract) {label : Option PortEvent}
    {after : Link} (step : Link.Step link label after) :
    ∃ actions moved, Run (AckedLink.Step Receiver.next) abstract actions moved ∧
      Abstracts (log ++ label.toList) after moved := by
  cases step with
  | packet site frame =>
      refine ⟨[], abstract, .nil _, abstracts.inFlight, abstracts.returning, ?_, abstracts.peer,
        ?_, ?_⟩
      · simpa [readBytes, PortEvent.incoming] using abstracts.taken
      · simpa [Wire.ofLog_concat, Wire.event] using abstracts.talking
      · simpa [Wire.ofLog_concat, Wire.event] using abstracts.turned
  | write requested accepted talking =>
      rcases abstracts.talking talking with ⟨sent, same⟩
      refine ⟨[], abstract, .nil _, abstracts.inFlight, abstracts.returning, ?_, abstracts.peer,
        ?_, ?_⟩
      · simpa [readBytes, PortEvent.incoming] using abstracts.taken
      · simp [Wire.ofLog_concat, Wire.event, sent, same]
      · simp [talking]
  | turn talking written =>
      rcases abstracts.talking talking with ⟨sent, same⟩
      refine ⟨_, _, .single (.send link.burst), ?_, abstracts.returning, ?_, abstracts.peer,
        ?_, ?_⟩
      · simp [abstracts.inFlight]
      · simpa using abstracts.taken
      · simp
      · simp only [AckedLink.State.sent] at sent
        simp [AckedLink.State.sent, ← List.append_assoc, sent, ← same, written]
  | @accept frame rest receiver answers next accepted =>
      have present : abstract.inFlight = frame :: rest := abstracts.inFlight.trans next
      have acceptable : abstract.peer.next frame = some receiver := by
        rw [abstracts.peer, Receiver.next, accepted]
        rfl
      refine ⟨_, _, .single (.accept present acceptable), ?_⟩
      rw [Option.toList_none, List.append_nil]
      refine abstracts.hidden rfl ?_ rfl rfl ?_
      · simp [abstracts.returning, Receiver.count_answers accepted]
      · simp [AckedLink.State.sent, present]
  | @refuse frame rest next refused answers answer =>
      rcases abstracts.failed answers next
        (by rcases answer with rfl | rfl <;> decide) with ⟨moved, taken, holds⟩
      exact ⟨_, moved, .single taken, by simpa using holds⟩
  | @damage frame rest next answers answer =>
      rcases abstracts.failed answers next
        (by rcases answer with rfl | rfl <;> decide) with ⟨moved, taken, holds⟩
      exact ⟨_, moved, .single taken, by simpa using holds⟩
  | @lose frame rest next =>
      rcases abstracts.failed [] next rfl with ⟨moved, taken, holds⟩
      exact ⟨_, moved, .single taken, by simpa using holds⟩
  | poll =>
      refine ⟨[], abstract, .nil _, ?_⟩
      rw [Option.toList_none, List.append_nil]
      refine abstracts.hidden abstracts.inFlight ?_ rfl abstracts.peer rfl
      simpa [show [crc16].count ack = 0 by decide] using abstracts.returning
  | drop earlier answer later present =>
      have returning := abstracts.returning
      rw [present, List.count_append, List.count_cons] at returning
      by_cases acknowledges : answer = ack
      · refine ⟨_, _, .single (.drop (show _ = (earlier ++ later).count ack + 1 from ?_)), ?_⟩
        · rw [returning, List.count_append, acknowledges]
          simp
          omega
        · rw [Option.toList_none, List.append_nil]
          exact abstracts.hidden abstracts.inFlight rfl rfl abstracts.peer rfl
      · refine ⟨[], abstract, .nil _, ?_⟩
        rw [Option.toList_none, List.append_nil]
        refine abstracts.hidden abstracts.inFlight ?_ rfl abstracts.peer rfl
        simpa [acknowledges] using returning
  | silence requested spoken =>
      rcases abstracts.listens spoken requested [] with ⟨sent, begun⟩
      refine ⟨[], abstract, .nil _, abstracts.inFlight, abstracts.returning, ?_, abstracts.peer,
        fun _ => ⟨sent, spoken.trans begun.symm⟩, fun turned => Bool.noConfusion turned⟩
      simpa [readBytes, PortEvent.incoming] using abstracts.taken
  | answer requested byte rest spoken next =>
      rcases abstracts.listens spoken requested [byte] with ⟨sent, begun⟩
      have returning := abstracts.returning
      rw [next, List.count_cons] at returning
      by_cases acknowledges : byte = ack
      · refine ⟨_, _, .single (.take (show _ = rest.count ack + 1 from ?_)), abstracts.inFlight,
          rfl, ?_, abstracts.peer, fun _ => ⟨sent, spoken.trans begun.symm⟩,
          fun turned => Bool.noConfusion turned⟩
        · simpa [acknowledges] using returning
        · simp [abstracts.taken, acknowledges, readBytes, PortEvent.incoming]
      · refine ⟨[], abstract, .nil _, abstracts.inFlight, ?_, ?_, abstracts.peer,
          fun _ => ⟨sent, spoken.trans begun.symm⟩, fun turned => Bool.noConfusion turned⟩
        · simpa [acknowledges] using returning
        · simp [abstracts.taken, acknowledges, readBytes, PortEvent.incoming]

theorem Abstracts.run {first last : Link} {start : AckedLink.State (List UInt8) Receiver}
    (begins : Abstracts [] first start) {labels : List (Option PortEvent)}
    (run : Run Link.Step first labels last) :
    ∃ actions moved, Run (AckedLink.Step Receiver.next) start actions moved ∧
      Abstracts labels.reduceOption last moved := by
  refine run.history_invariant
    (fun history link => ∃ actions moved,
      Run (AckedLink.Step Receiver.next) start actions moved ∧
        Abstracts history.reduceOption link moved)
    ⟨[], _, .nil _, begins⟩ ?_
  intro history link label after holds step
  rcases holds with ⟨actions, abstract, taken, abstracts⟩
  rcases abstracts.step step with ⟨more, moved, further, still⟩
  refine ⟨actions ++ more, moved, taken.append further, ?_⟩
  rw [List.reduceOption_append]
  cases label with
  | none => simpa using still
  | some event => simpa using still

structure Link.Quiet (link : Link) : Prop where
  spoken : link.burst = []
  talking : link.turned = false
  arrived : link.out = []

/-- A receiver that waits for a session. What is on its way back is no answer to one. -/
structure Link.Fresh (link : Link) : Prop extends link.Quiet where
  waiting : link.receiver = .initial
  unasked : ack ∉ link.back

theorem Link.initial_fresh : Link.initial.Fresh where
  spoken := rfl
  talking := rfl
  arrived := rfl
  waiting := rfl
  unasked := List.not_mem_nil

theorem Link.Quiet.abstracts {link : Link} (quiet : link.Quiet) :
    Abstracts [] link ⟨[], [], link.back.count ack, 0, link.receiver⟩ where
  inFlight := quiet.arrived.symm
  returning := rfl
  taken := rfl
  peer := rfl
  talking _ := ⟨rfl, quiet.spoken⟩
  turned turned := Bool.noConfusion (turned.symm.trans quiet.talking)

theorem Link.Fresh.abstracts {link : Link} (fresh : link.Fresh) :
    Abstracts [] link (AckedLink.initial Receiver.initial) := by
  have begins := fresh.toQuiet.abstracts
  rwa [List.count_eq_zero.mpr fresh.unasked, fresh.waiting] at begins

theorem Link.Fresh.abstracted {first last : Link} (fresh : first.Fresh)
    {labels : List (Option PortEvent)} (run : Run Link.Step first labels last) :
    ∃ actions moved,
      Run (AckedLink.Step Receiver.next) (AckedLink.initial Receiver.initial) actions moved ∧
        Abstracts labels.reduceOption last moved :=
  fresh.abstracts.run run

end CosmosPC
