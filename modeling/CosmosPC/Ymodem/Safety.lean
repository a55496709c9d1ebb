import CosmosPC.Ymodem.Agreement
import CosmosPC.Ymodem.Turns

/-! # What a receiver may have stored

Sessions fail: answers are lost, frames are damaged, ports refuse bytes. At every
moment of every session, whatever comes of it, the receiver has stored the first
blocks of the image and nothing else, and it has seen the end only if it has
stored all of them. -/

namespace CosmosPC

/-! ## Moments of a session -/

theorem Talking.upTo {before events : List PortEvent} (talking : Talking events)
    (earlier : before <+: events) : Talking before :=
  fun event member => talking event (earlier.subset member)

theorem Listening.upTo {before events : List PortEvent} (listening : Listening events)
    (earlier : before <+: events) : Listening before :=
  fun event member => listening event (earlier.subset member)

theorem sentBytes_upTo {before events : List PortEvent} (earlier : before <+: events) :
    sentBytes before <+: sentBytes events := by
  rcases earlier with ⟨later, rfl⟩
  rw [sentBytes_append]
  exact List.prefix_append _ _

theorem prefix_append_cases {before first second : List Element}
    (earlier : before <+: first ++ second) :
    before <+: first ∨ ∃ more, before = first ++ more ∧ more <+: second := by
  rcases earlier with ⟨later, whole⟩
  rcases List.append_eq_append_iff.mp whole with ⟨rest, rfl, _⟩ | ⟨more, rfl, rfl⟩
  · exact Or.inl (List.prefix_append _ _)
  · exact Or.inr ⟨more, rfl, List.prefix_append _ _⟩

theorem part_of_turn {next : List UInt8} {talk listen before : List PortEvent}
    (talking : Talking talk) (listening : Listening listen) (begins : sentBytes talk <+: next)
    (spoken : listen ≠ [] → sentBytes talk = next) (earlier : before <+: talk ++ listen)
    (more : List (List UInt8)) : Part (next :: more) before := by
  have reached {talk listen : List PortEvent} (talking : Talking talk)
      (listening : Listening listen) (begins : sentBytes talk <+: next)
      (spoken : listen ≠ [] → sentBytes talk = next) :
      Part (next :: more) (talk ++ listen) := by
    have part : Part ([] ++ next :: more) ([] ++ (talk ++ listen)) :=
      .within .nil talking listening begins spoken
    simpa using part
  rcases prefix_append_cases earlier with talk' | ⟨heard, rfl, listen'⟩
  · rw [← List.append_nil before]
    exact reached (talking.upTo talk') listening_nil ((sentBytes_upTo talk').trans begins)
      fun some => absurd rfl some
  · refine reached talking (listening.upTo listen') begins fun some => spoken ?_
    rintro rfl
    exact some (List.prefix_nil.mp listen')

theorem Rounds.upTo {frames : List (List UInt8)} {events before : List PortEvent}
    (rounds : Rounds frames events) (earlier : before <+: events) : Part frames before := by
  induction rounds generalizing before with
  | nil =>
      rw [List.prefix_nil.mp earlier]
      exact .whole .nil
  | @cons frame frames first rest round _ induction =>
      rcases prefix_append_cases earlier with inside | ⟨more, rfl, beyond⟩
      · rcases round with ⟨talk, listen, rfl, talking, sent, listening, _⟩
        exact part_of_turn talking listening (sent ▸ List.prefix_rfl) (fun _ => sent) inside frames
      · exact (induction beyond).after round.single

theorem Part.upTo {frames : List (List UInt8)} {events before : List PortEvent}
    (part : Part frames events) (earlier : before <+: events) : Part frames before := by
  cases part with
  | whole rounds => exact rounds.upTo earlier
  | within rounds talking listening begins spoken =>
      rcases prefix_append_cases earlier with inside | ⟨more, rfl, beyond⟩
      · exact (rounds.upTo inside).more _
      · exact (part_of_turn talking listening begins spoken beyond _).after rounds

/-! ## The receiver and what is said to it -/

theorem Link.Quiet.hears {first last : Link} (quiet : first.Quiet)
    {labels : List (Option PortEvent)} (run : Run Link.Step first labels last) :
    ∃ kept : List (List UInt8),
      kept.Sublist ((Wire.ofLog labels.reduceOption).bursts ++
        [(Wire.ofLog labels.reduceOption).begun]) ∧
      kept.foldlM Receiver.next first.receiver = some last.receiver := by
  rcases quiet.abstracts.run run with ⟨actions, moved, abstractRun, abstracts⟩
  rcases AckedLink.Accepting.run abstractRun rfl with ⟨kept, among, accepted⟩
  rw [abstracts.peer] at accepted
  have handled : moved.handled.Sublist moved.sent := List.sublist_append_left _ _
  refine ⟨kept, (among.trans handled).trans ?_, accepted⟩
  cases state : last.turned with
  | false =>
      rw [(abstracts.talking state).1]
      exact List.sublist_append_left _ _
  | true => rw [(abstracts.turned state).1]

/-- Bytes that no receiver takes for a frame. -/
def Foreign (burst : List UInt8) : Prop := ∀ start ∈ burst.head?, start ∉ [soh, stx, eot]

theorem foreign_nil : Foreign [] := fun _ none => by cases none

namespace Receiver

theorem WellFormed.length {start number : UInt8} {size : Nat} {frame : List UInt8}
    (wellFormed : WellFormed start size number frame) : frame.length = size + packetOverhead := by
  rw [wellFormed.2, length_encodeFrame, wellFormed.1]

theorem WellFormed.head {start number : UInt8} {size : Nat} {frame : List UInt8}
    (wellFormed : WellFormed start size number frame) : frame.head? = some start := by
  rw [wellFormed.2]
  rfl

theorem next_foreign (receiver : Receiver) {burst : List UInt8} (foreign : Foreign burst) :
    receiver.next burst = none := by
  have wrong {start number : UInt8} {size : Nat} (kind : start ∈ [soh, stx, eot]) :
      ¬WellFormed start size number burst := fun right => foreign start right.head kind
  have noEnd : burst ≠ [eot] := by
    rintro rfl
    exact foreign eot rfl (by simp)
  have noClosing : burst ≠ encodeFrame soh 0 (List.replicate packetSize 0) := by
    rintro rfl
    exact foreign soh rfl (by simp)
  rw [next, accept]
  split
  · rw [if_neg (wrong (by simp))]
    rfl
  · dsimp only
    rw [if_neg noEnd, if_neg (by simp [wrong])]
    rfl
  · rw [if_neg noClosing]
    rfl
  · rfl

theorem kept_of_foreign {frames extra kept : List (List UInt8)} {receiver after : Receiver}
    (foreign : ∀ burst ∈ extra, Foreign burst) (among : kept.Sublist (frames ++ extra))
    (accepted : kept.foldlM next receiver = some after) : kept.Sublist frames := by
  rcases List.sublist_append_iff.mp among with ⟨first, second, rfl, early, late⟩
  rcases second with _ | ⟨burst, second⟩
  · rwa [List.append_nil]
  · rw [List.foldlM_append] at accepted
    rcases Option.bind_eq_some_iff.mp accepted with ⟨middle, _, rest⟩
    rw [List.foldlM_cons, next_foreign middle (foreign burst (late.subset List.mem_cons_self))]
      at rest
    cases rest

end Receiver

def Aside (events : List PortEvent) : Prop :=
  ∀ event ∈ events, ∀ byte ∈ event.outgoing, byte ∉ [soh, stx, eot]

theorem Listening.aside {events : List PortEvent} (listening : Listening events) :
    Aside events := by
  intro event member byte written
  have nothing := List.flatMap_eq_nil_iff.mp listening.sentBytes_nil event member
  rw [nothing] at written
  cases written

theorem Aside.append {first second : List PortEvent} (left : Aside first) (right : Aside second) :
    Aside (first ++ second) := fun event member =>
  (List.mem_append.mp member).elim (left event) (right event)

theorem Aside.upTo {before events : List PortEvent} (aside : Aside events)
    (earlier : before <+: events) : Aside before :=
  fun event member => aside event (earlier.subset member)

theorem Wire.run_aside (wire : Wire) {events : List PortEvent} (aside : Aside events)
    (begun : ∀ byte ∈ wire.begun, byte ∉ [soh, stx, eot]) :
    ∃ extra, (wire.run events).bursts ++ [(wire.run events).begun] = wire.bursts ++ extra ∧
      ∀ burst ∈ extra, Foreign burst := by
  have foreign {burst : List UInt8} (bytes : ∀ byte ∈ burst, byte ∉ [soh, stx, eot]) :
      Foreign burst := fun start first => bytes start (List.mem_of_mem_head? first)
  induction events generalizing wire with
  | nil =>
      refine ⟨[wire.begun], rfl, fun burst member => ?_⟩
      rw [List.mem_singleton.mp member]
      exact foreign begun
  | cons event events induction =>
      have rest : Aside events := fun later member => aside later (List.mem_cons_of_mem _ member)
      have here := aside event List.mem_cons_self
      change ∃ extra, ((wire.event event).run events).bursts ++
        [((wire.event event).run events).begun] = wire.bursts ++ extra ∧ _
      cases event with
      | packet site frame => exact induction wire rest begun
      | write requested accepted =>
          exact induction _ rest fun byte member =>
            (List.mem_append.mp member).elim (begun byte) (here byte)
      | read requested delivered =>
          rw [Wire.event]
          split
          · exact induction wire rest begun
          · rcases induction ⟨wire.bursts ++ [wire.begun], []⟩ rest (by simp) with
              ⟨extra, bursts, all⟩
            refine ⟨wire.begun :: extra, ?_, fun burst member => ?_⟩
            · rw [bursts, List.append_assoc, List.singleton_append]
            · rcases List.mem_cons.mp member with rfl | later
              · exact foreign begun
              · exact all burst later

theorem Link.Quiet.receives {first last : Link} (quiet : first.Quiet)
    {labels : List (Option PortEvent)} (run : Run Link.Step first labels last)
    {talk listen rest : List PortEvent} (visible : labels.reduceOption = talk ++ listen ++ rest)
    (talking : Talking talk) (listening : Listening listen) (aside : Aside rest)
    (heard : listen = [] → talk = [] ∨ rest = []) :
    last.receiver = first.receiver ∨
      first.receiver.next (sentBytes talk) = some last.receiver := by
  rcases quiet.hears run with ⟨kept, among, accepted⟩
  have said : ∃ frames extra, (Wire.ofLog (talk ++ listen ++ rest)).bursts ++
      [(Wire.ofLog (talk ++ listen ++ rest)).begun] = frames ++ extra ∧
      frames.Sublist [sentBytes talk] ∧ ∀ burst ∈ extra, Foreign burst := by
    by_cases silent : listen = []
    · subst silent
      rw [List.append_nil]
      rcases heard rfl with rfl | rfl
      · rcases Wire.run_aside ⟨[], []⟩ aside (by simp) with ⟨extra, bursts, foreign⟩
        exact ⟨[], extra, bursts, List.nil_sublist _, foreign⟩
      · have spoken : Wire.ofLog talk = ⟨[], sentBytes talk⟩ :=
          Wire.run_talking ⟨[], []⟩ talk talking
        rw [List.append_nil, spoken]
        exact ⟨[sentBytes talk], [], rfl, List.Sublist.refl _, by simp⟩
    · rw [Wire.ofLog_append, Wire.ofLog,
        Wire.run_burst ⟨[], []⟩ rfl talking rfl listening silent, List.nil_append]
      rcases Wire.run_aside ⟨[sentBytes talk].filter (· ≠ []), []⟩ aside (by simp) with
        ⟨extra, bursts, foreign⟩
      exact ⟨_, extra, bursts, List.filter_sublist, foreign⟩
  rcases said with ⟨frames, extra, bursts, one, foreign⟩
  rw [visible, bursts] at among
  rcases List.sublist_singleton.mp ((Receiver.kept_of_foreign foreign among accepted).trans one)
    with rfl | rfl
  · exact Or.inl (Option.some.inj accepted).symm
  · refine Or.inr ?_
    simpa using accepted

/-- The receiver in the middle of some frames: it has accepted the first of them, and
maybe a piece of the next one. -/
def Amid (frames : List (List UInt8)) (receiver : Receiver) : Prop :=
  ∃ done more reached, frames = done ++ more ∧
    done.foldlM Receiver.next Receiver.initial = some reached ∧
    (receiver = reached ∨ ∃ next rest piece, more = next :: rest ∧ piece <+: next ∧
      reached.next piece = some receiver)

/-- In the middle of a session, the receiver has accepted the frames that have been
answered, and maybe what there is of the next one. -/
theorem Part.amid {first link : Link} (fresh : first.Fresh) {labels : List (Option PortEvent)}
    {frames : List (List UInt8)} (run : Run Link.Step first labels link)
    (part : Part frames labels.reduceOption) : Amid frames link.receiver := by
  generalize visible : labels.reduceOption = history at part
  cases part with
  | whole rounds =>
      subst visible
      exact ⟨frames, [], link.receiver, (List.append_nil _).symm, (rounds.taken fresh run).2.1,
        Or.inl rfl⟩
  | @within done more next events talk listen rounds talking listening begins _ =>
      rcases List.filterMap_eq_append_iff.mp visible with ⟨earlier, later, rfl, past, rest⟩
      rcases run.split with ⟨middle, answered, further⟩
      have rounds : Rounds done earlier.reduceOption := by
        rw [List.reduceOption, past]
        exact rounds
      rcases rounds.taken fresh answered with ⟨_, accepted, quiet⟩
      refine ⟨done, next :: more, middle.receiver, rfl, accepted, ?_⟩
      have aside : Aside [] := fun event member => by cases member
      rcases quiet.receives further (rest.trans (List.append_nil _).symm) talking listening aside
        (fun _ => Or.inr rfl) with same | taken
      · exact Or.inl same
      · exact Or.inr ⟨next, more, _, rfl, begins, taken⟩

/-! ## The receiver in the middle of the image -/

def canonicalPayloads (image : List UInt8) : List (List UInt8) :=
  (List.range (blockCount image.length)).map (canonicalPayload image)

theorem take_canonicalPayloads_succ (image : List UInt8) {index : Nat}
    (within : index < blockCount image.length) :
    (canonicalPayloads image).take (index + 1) =
      (canonicalPayloads image).take index ++ [canonicalPayload image index] := by
  have bound : index < (canonicalPayloads image).length := by
    simpa [canonicalPayloads] using within
  rw [List.take_succ_eq_append_getElem bound]
  simp [canonicalPayloads]

/-- The frames that are still to come, and the receiver until then. -/
inductive Standing (image : List UInt8) (port : Port) : List (List UInt8) → Receiver → Prop
  | header {ending} (header : List UInt8) (given : EndGiven port ending) :
      Standing image port ([header] ++ (canonicalFrames image ++ ending)) .initial
  | data {ending} (index : Nat) (given : EndGiven port ending) :
      Standing image port ((canonicalFrames image).drop index ++ ending)
        ⟨.data, (canonicalPayloads image).take index⟩
  | closing (closing : List UInt8) :
      Standing image port [closing] ⟨.closing, canonicalPayloads image⟩
  | done : Standing image port [] ⟨.done, canonicalPayloads image⟩

namespace Receiver

theorem next_piece {image piece : List UInt8} {index : Nat} {stored : List (List UInt8)}
    {after : Receiver} (begins : piece <+: canonicalFrame image index)
    (accepted : next ⟨.data, stored⟩ piece = some after) :
    piece = canonicalFrame image index ∧
      after = ⟨.data, stored ++ [canonicalPayload image index]⟩ := by
  have starts (start : UInt8) (head : piece.head? = some start) :
      start = if index < image.length / packet1kSize then stx else soh := by
    rcases begins with ⟨rest, whole⟩
    rcases piece with _ | ⟨first, piece⟩
    · cases head
    · cases head
      exact congrArg (fun bytes => bytes.headD 0) whole
  have noEnd : piece ≠ [eot] := by
    rintro rfl
    have same := starts eot rfl
    split at same <;> cases same
  have length : (canonicalFrame image index).length =
      blockSize image.length index + packetOverhead := by
    rw [canonicalFrame, length_encodeFrame, canonicalPayload, length_payloadOf]
  have whole : piece = canonicalFrame image index := by
    refine begins.eq_of_length ?_
    have right : WellFormed stx packet1kSize (UInt8.ofNat (stored.length + 1)) piece ∨
        WellFormed soh packetSize (UInt8.ofNat (stored.length + 1)) piece := by
      by_contra wrong
      simp only [next, accept, if_neg noEnd, if_neg wrong] at accepted
      cases accepted
    rw [length, blockSize]
    rcases right with large | small
    · have same := starts stx large.head
      split at same
      case isTrue whole => rw [if_pos whole, large.length]
      case isFalse => cases same
    · have same := starts soh small.head
      split at same
      case isTrue => cases same
      case isFalse rest => rw [if_neg rest, small.length]
  refine ⟨whole, ?_⟩
  rw [next_data rfl noEnd accepted, whole, canonicalFrame, framePayload_encodeFrame]

end Receiver

variable {image : List UInt8} {port : Port}

theorem Standing.next {frame piece : List UInt8} {rest : List (List UInt8)}
    {receiver after : Receiver} (standing : Standing image port (frame :: rest) receiver)
    (begins : piece <+: frame) (accepted : receiver.next piece = some after) :
    Standing image port rest after := by
  generalize left_eq : frame :: rest = left at standing
  cases standing with
  | header header given =>
      cases left_eq
      rw [Receiver.next_header rfl accepted]
      exact .data 0 given
  | @data ending index given =>
      by_cases within : index < blockCount image.length
      · rw [drop_canonicalFrames image index within, List.cons_append] at left_eq
        cases left_eq
        rw [(Receiver.next_piece begins accepted).2, ← take_canonicalPayloads_succ image within]
        exact .data (index + 1) given
      · rcases given with ⟨farewell, closing, rfl, farewellGiven, _⟩
        have all : (canonicalPayloads image).take index = canonicalPayloads image :=
          List.take_of_length_le (by simpa [canonicalPayloads] using within)
        rw [drop_canonicalFrames_nil image index (by omega), List.nil_append] at left_eq
        cases left_eq
        have spoken : piece = [eot] := by
          have nonempty : piece ≠ [] := by
            rintro rfl
            rw [Receiver.next_foreign _ foreign_nil] at accepted
            cases accepted
          rcases farewellGiven with rfl | ⟨rfl, _⟩
          · rcases piece with _ | ⟨first, piece⟩
            · exact absurd rfl nonempty
            · exact begins.eq_of_length (by simpa using begins.length_le)
          · exact absurd (List.prefix_nil.mp begins) nonempty
        rw [spoken] at accepted
        rw [Receiver.next_eot rfl accepted, all]
        exact .closing closing
  | closing closing =>
      cases left_eq
      rw [Receiver.next_closing rfl accepted]
      exact .done
  | done => cases left_eq

theorem Standing.foldlM {done more : List (List UInt8)} {receiver after : Receiver}
    (standing : Standing image port (done ++ more) receiver)
    (accepted : done.foldlM Receiver.next receiver = some after) :
    Standing image port more after := by
  induction done generalizing receiver with
  | nil =>
      cases accepted
      exact standing
  | cons frame done induction =>
      rw [List.foldlM_cons] at accepted
      rcases Option.bind_eq_some_iff.mp accepted with ⟨middle, first, rest⟩
      exact induction (standing.next List.prefix_rfl first) rest

theorem Standing.stored {left : List (List UInt8)} {receiver : Receiver}
    (standing : Standing image port left receiver) :
    receiver.stored <+: canonicalPayloads image ∧
      (receiver.phase = .closing ∨ receiver.phase = .done →
        receiver.stored = canonicalPayloads image) := by
  cases standing with
  | header =>
      refine ⟨List.nil_prefix, fun ended => ?_⟩
      rcases ended with ended | ended <;> cases ended
  | data =>
      refine ⟨List.take_prefix _ _, fun ended => ?_⟩
      rcases ended with ended | ended <;> cases ended
  | closing => exact ⟨List.prefix_rfl, fun _ => rfl⟩
  | done => exact ⟨List.prefix_rfl, fun _ => rfl⟩

/-! ## Safety -/

theorem Amid.stored {header : List UInt8} {ending : List (List UInt8)} {receiver : Receiver}
    (given : EndGiven port ending)
    (amid : Amid ([header] ++ (canonicalFrames image ++ ending)) receiver) :
    receiver.stored <+: canonicalPayloads image ∧
      receiver.stored.flatten.take image.length <+: image ∧
      (receiver.phase = .closing ∨ receiver.phase = .done →
        receiver.stored.flatten.take image.length = image) := by
  rcases amid with ⟨done, more, reached, frames, taken, last⟩
  have begins : Standing image port (done ++ more) .initial := frames ▸ .header header given
  have standing : ∃ left, Standing image port left receiver := by
    have answered := begins.foldlM taken
    rcases last with rfl | ⟨next, rest, piece, rfl, piece, accepted⟩
    · exact ⟨more, answered⟩
    · exact ⟨rest, answered.next piece accepted⟩
  rcases standing with ⟨left, standing⟩
  rcases standing.stored with ⟨stored, ended⟩
  refine ⟨stored, ?_, fun closed => ?_⟩
  · have count : receiver.stored.length ≤ blockCount image.length := by
      simpa [canonicalPayloads] using stored.length_le
    have first : receiver.stored =
        (List.range receiver.stored.length).map (canonicalPayload image) := by
      conv_lhs => rw [List.prefix_iff_eq_take.mp stored, canonicalPayloads, ← List.map_take,
        List.take_range, Nat.min_eq_left count]
    rw [first, take_flatten_payloads image _ count]
    exact List.take_prefix _ _
  · rw [ended closed, canonicalPayloads, take_flatten_payloads image _ (Nat.le_refl _)]
    have beyond := blockStart_lt_iff image.length (blockCount image.length)
    exact List.take_of_length_le (by omega)

/-- At every moment of a session, whatever the port and the answers do to it,
over a cable that loses, delays and detectably damages: the receiver has stored
the first blocks of the image, once each and in their order, and it knows of an
end only when it has all of them. -/
theorem only_image_is_stored (port : Port) (fuel : Nat) (locals : Locals)
    (buf sendFileName : Nat → UInt8) (sizeFile : Nat) (labels : List (Option PortEvent))
    (link : Link) (run : Run Link.Step Link.initial labels link)
    (carried : labels.reduceOption <+:
      (ymodemTransmit port fuel locals buf sendFileName sizeFile Uart.opened).2.uart.log) :
    link.receiver.stored <+:
        (List.range (blockCount sizeFile)).map (canonicalPayload (imageOf buf sizeFile)) ∧
      link.receiver.stored.flatten.take sizeFile <+: imageOf buf sizeFile ∧
      (link.receiver.phase = .closing ∨ link.receiver.phase = .done →
        link.receiver.stored.flatten.take sizeFile = imageOf buf sizeFile) := by
  rcases transmit_turns port fuel locals buf sendFileName sizeFile Uart.opened_open with
    ⟨ending, given, events, ends, part, _⟩
  have log : (ymodemTransmit port fuel locals buf sendFileName sizeFile Uart.opened).2.uart.log =
      events := by
    rw [ends]
    simp [Uart.opened]
  rw [log] at carried
  have stored := ((part.upTo carried).amid Link.initial_fresh run).stored given
  rw [canonicalPayloads, length_imageOf] at stored
  exact stored

set_option maxRecDepth 20000 in
theorem only_image_is_stored_midway :
    ∃ labels link, Run Link.Step Link.initial labels link ∧
      (link.receiver.phase, link.receiver.stored.length) = (.data, 1) ∧
      link.receiver.stored.flatten.take 5 <+: imageOf (fun _ => 7) 5 := by
  let log := (ymodemTransmit promptPort 1 ⟨Memory.zeroed, fun _ => 0, []⟩ (fun _ => 7)
    (fun _ => 0) 5 Uart.opened).2.uart.log
  have carried : ((log.take 8).foldlM Link.carry Link.initial).map
      (fun link => (link.receiver.phase, link.receiver.stored.length)) = some (.data, 1) := by
    decide +kernel
  rcases Option.map_eq_some_iff.mp carried with ⟨link, carries, midway⟩
  rcases Link.carry_runs rfl rfl carries with ⟨labels, run, visible⟩
  have safe := only_image_is_stored promptPort 1 ⟨Memory.zeroed, fun _ => 0, []⟩ (fun _ => 7)
    (fun _ => 0) 5 labels link run (visible ▸ List.take_prefix 8 log)
  exact ⟨labels, link, run, midway, safe.2.1⟩

end CosmosPC
