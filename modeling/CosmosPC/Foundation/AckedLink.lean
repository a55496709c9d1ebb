import CosmosPC.Foundation.Runs

/-! # Acknowledged frames on a lossy link

A sender, a link that may lose anything in either direction, and a peer that
acknowledges a frame at most once, when it accepts it. Nothing tells
acknowledgements apart. Counting them is enough all the same: once as many have
been taken as frames were ever sent, the peer has accepted every frame. -/

namespace CosmosPC.AckedLink

structure State (Frame Peer : Type) where
  /-- The frames that the link has dealt with, oldest first. -/
  handled : List Frame
  inFlight : List Frame
  /-- Acknowledgements on their way back. -/
  returning : Nat
  /-- Acknowledgements that the sender has taken. -/
  taken : Nat
  peer : Peer

def State.sent (state : State Frame Peer) : List Frame := state.handled ++ state.inFlight

def initial (peer : Peer) : State Frame Peer := ⟨[], [], 0, 0, peer⟩

inductive Action (Frame : Type)
  | send (frame : Frame)
  | accept
  | fail
  | drop
  | take

/-- `fail` stands for a frame that is lost, damaged or refused, and `drop` for
the loss of an acknowledgement. -/
inductive Step (accepts : Peer → Frame → Option Peer) :
    State Frame Peer → Action Frame → State Frame Peer → Prop
  | send {state} (frame : Frame) :
      Step accepts state (.send frame) { state with inFlight := state.inFlight ++ [frame] }
  | accept {state frame rest peer} (next : state.inFlight = frame :: rest)
      (accepted : accepts state.peer frame = some peer) :
      Step accepts state .accept
        { state with
          handled := state.handled ++ [frame], inFlight := rest
          returning := state.returning + 1, peer := peer }
  | fail {state frame rest} (next : state.inFlight = frame :: rest) :
      Step accepts state .fail
        { state with handled := state.handled ++ [frame], inFlight := rest }
  | drop {state count} (present : state.returning = count + 1) :
      Step accepts state .drop { state with returning := count }
  | take {state count} (present : state.returning = count + 1) :
      Step accepts state .take { state with returning := count, taken := state.taken + 1 }

/-- No more acknowledgements exist than frames were dealt with; if there are as
many, none was lost and the peer has accepted all of these frames. -/
structure Invariant (accepts : Peer → Frame → Option Peer) (start : Peer)
    (state : State Frame Peer) : Prop where
  counted : state.returning + state.taken ≤ state.handled.length
  accepted : state.returning + state.taken = state.handled.length →
    state.handled.foldlM accepts start = some state.peer

variable {accepts : Peer → Frame → Option Peer} {start : Peer}

theorem Invariant.initial : Invariant accepts start (initial start) :=
  ⟨Nat.le_refl 0, fun _ => rfl⟩

theorem Invariant.step {state next : State Frame Peer} {action : Action Frame}
    (holds : Invariant accepts start state) (step : Step accepts state action next) :
    Invariant accepts start next := by
  rcases holds with ⟨counted, accepted⟩
  cases step with
  | send => exact ⟨counted, accepted⟩
  | accept _ acceptable =>
      refine ⟨?_, fun all => ?_⟩
      · simp only [List.length_append, List.length_singleton]
        omega
      · simp only [List.length_append, List.length_singleton] at all
        rw [List.foldlM_append, accepted (by omega)]
        simp [acceptable]
  | fail =>
      refine ⟨?_, fun all => ?_⟩
      · simp only [List.length_append, List.length_singleton]
        omega
      · simp only [List.length_append, List.length_singleton] at all
        omega
  | drop present =>
      refine ⟨?_, fun all => ?_⟩
      · simp only
        omega
      · simp only at all
        omega
  | take present =>
      refine ⟨?_, fun all => ?_⟩
      · simp only
        omega
      · simp only at all
        exact accepted (by omega)

theorem Invariant.run {last : State Frame Peer} {actions : List (Action Frame)}
    (run : Run (Step accepts) (AckedLink.initial start) actions last) :
    Invariant accepts start last :=
  run.invariant Invariant.initial fun _ _ _ => Invariant.step

/-- Whatever becomes of the acknowledgements, the peer has accepted some of the
frames, in the order in which they were sent. -/
def Accepting (accepts : Peer → Frame → Option Peer) (start : Peer) (state : State Frame Peer) :
    Prop :=
  ∃ kept : List Frame, kept.Sublist state.handled ∧ kept.foldlM accepts start = some state.peer

theorem Accepting.step {state next : State Frame Peer} {action : Action Frame}
    (holds : Accepting accepts start state) (step : Step accepts state action next) :
    Accepting accepts start next := by
  rcases holds with ⟨kept, among, accepted⟩
  cases step with
  | @accept frame _ _ _ acceptable =>
      refine ⟨kept ++ [frame], among.append (List.Sublist.refl [frame]), ?_⟩
      rw [List.foldlM_append, accepted]
      simp [acceptable]
  | fail => exact ⟨kept, among.trans (List.sublist_append_left _ _), accepted⟩
  | send => exact ⟨kept, among, accepted⟩
  | drop => exact ⟨kept, among, accepted⟩
  | take => exact ⟨kept, among, accepted⟩

theorem Accepting.run {first last : State Frame Peer} {actions : List (Action Frame)}
    (run : Run (Step accepts) first actions last) (nothing : first.handled = []) :
    Accepting accepts first.peer last :=
  run.invariant ⟨[], nothing ▸ List.Sublist.refl [], rfl⟩ fun _ _ _ => Accepting.step

/-- As many acknowledgements taken as frames sent: every frame has been
accepted, in the order in which it was sent. -/
theorem Invariant.all_accepted {state : State Frame Peer}
    (holds : Invariant accepts start state) (all : state.sent.length ≤ state.taken) :
    state.sent.foldlM accepts start = some state.peer := by
  have counted := holds.counted
  rw [State.sent, List.length_append] at all
  have nothingLeft : state.inFlight = [] := List.eq_nil_of_length_eq_zero (by omega)
  rw [State.sent, nothingLeft, List.append_nil]
  exact holds.accepted (by omega)

end CosmosPC.AckedLink
