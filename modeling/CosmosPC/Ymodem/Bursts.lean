import CosmosPC.Ymodem.Rounds

/-! # Bursts

What the other end of the cable can tell apart: everything the sender writes
before it listens is one burst. -/

namespace CosmosPC

/-- The sender's side of the cable: complete bursts, and the one begun. -/
structure Wire where
  bursts : List (List UInt8)
  begun : List UInt8

namespace Wire

def event (wire : Wire) : PortEvent → Wire
  | .packet _ _ => wire
  | .write requested accepted => { wire with begun := wire.begun ++ requested.take accepted }
  | .read _ _ => if wire.begun = [] then wire else ⟨wire.bursts ++ [wire.begun], []⟩

def run (wire : Wire) (events : List PortEvent) : Wire := events.foldl event wire

def ofLog (log : List PortEvent) : Wire := run ⟨[], []⟩ log

theorem ofLog_concat (log : List PortEvent) (last : PortEvent) :
    ofLog (log ++ [last]) = (ofLog log).event last := by
  simp [ofLog, run]

theorem run_append (wire : Wire) (first second : List PortEvent) :
    wire.run (first ++ second) = (wire.run first).run second := by
  simp [run]

theorem ofLog_append (log events : List PortEvent) :
    ofLog (log ++ events) = (ofLog log).run events :=
  run_append _ log events

theorem run_talking (wire : Wire) (events : List PortEvent) (talking : Talking events) :
    wire.run events = { wire with begun := wire.begun ++ sentBytes events } := by
  induction events generalizing wire with
  | nil => simp [run, sentBytes]
  | cons first rest induction =>
      have restTalking : Talking rest := fun event member =>
        talking event (List.mem_cons_of_mem first member)
      change (wire.event first).run rest = _
      rw [induction _ restTalking]
      cases first with
      | packet => rfl
      | write => simp [event, sentBytes, PortEvent.outgoing]
      | read => exact absurd (talking _ List.mem_cons_self) (by simp [PortEvent.isRead])

theorem run_listening_idle (wire : Wire) (events : List PortEvent) (idle : wire.begun = [])
    (listening : Listening events) : wire.run events = wire := by
  induction events with
  | nil => rfl
  | cons first rest induction =>
      have restListening : Listening rest := fun event member =>
        listening event (List.mem_cons_of_mem first member)
      have isRead := listening first List.mem_cons_self
      change (wire.event first).run rest = wire
      cases first with
      | read => simpa [event, idle] using induction restListening
      | packet => exact absurd isRead (by simp [PortEvent.isRead])
      | write => exact absurd isRead (by simp [PortEvent.isRead])

/-- What is written before the sender listens is a burst, unless it is nothing. -/
theorem run_burst (wire : Wire) (idle : wire.begun = []) {talk listen : List PortEvent}
    {frame : List UInt8} (talking : Talking talk) (sent : sentBytes talk = frame)
    (listening : Listening listen) (nonempty : listen ≠ []) :
    wire.run (talk ++ listen) = ⟨wire.bursts ++ [frame].filter (· ≠ []), []⟩ := by
  rw [run_append, run_talking wire talk talking, idle, sent, List.nil_append]
  rcases listen with _ | ⟨first, rest⟩
  · exact absurd rfl nonempty
  have restListening : Listening rest := fun event member =>
    listening event (List.mem_cons_of_mem first member)
  have isRead := listening first List.mem_cons_self
  change (event _ first).run rest = _
  cases first with
  | packet => exact absurd isRead (by simp [PortEvent.isRead])
  | write => exact absurd isRead (by simp [PortEvent.isRead])
  | read =>
      by_cases empty : frame = []
      · subst empty
        simpa [event] using run_listening_idle ⟨wire.bursts, []⟩ rest rfl restListening
      · simpa [event, empty] using
          run_listening_idle ⟨wire.bursts ++ [frame], []⟩ rest rfl restListening

theorem run_round (wire : Wire) (idle : wire.begun = []) {frame : List UInt8}
    {events : List PortEvent} (round : Round frame events) :
    wire.run events = ⟨wire.bursts ++ [frame].filter (· ≠ []), []⟩ := by
  rcases round with ⟨talk, listen, rfl, talking, sent, listening, nonempty, _⟩
  exact run_burst wire idle talking sent listening nonempty

theorem run_rounds (wire : Wire) (idle : wire.begun = []) {frames : List (List UInt8)}
    {events : List PortEvent} (rounds : Rounds frames events) :
    wire.run events = ⟨wire.bursts ++ frames.filter (· ≠ []), []⟩ := by
  induction rounds generalizing wire with
  | nil => simp [run, ← idle]
  | @cons frame frames events rest first _ induction =>
      rw [run_append, run_round wire idle first, induction _ rfl, List.append_assoc,
        ← List.filter_append, List.singleton_append]

end Wire

theorem Rounds.acks {frames : List (List UInt8)} {events : List PortEvent}
    (rounds : Rounds frames events) : frames.length ≤ (readBytes events).count ack := by
  induction rounds with
  | nil => simp
  | @cons frame frames events rest first _ induction =>
      rcases first with ⟨talk, listen, rfl, _, _, _, _, acked⟩
      have one : 0 < (readBytes listen).count ack := List.count_pos_iff.mpr acked
      rw [List.length_cons, readBytes_append, readBytes_append, List.count_append,
        List.count_append]
      omega

end CosmosPC
