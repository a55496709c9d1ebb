/-! # Waiting with a timeout

A party that polls an input may find it empty. Its polls are grouped into
events: a value with the empty polls before it, of which there are fewer than
the timeout, or as many empty polls in a row as the timeout says. Every input
falls into such events in one way only. -/

namespace CosmosPC

inductive WaitEvent (timeout : Nat) (Value : Type) where
  | arrival (gap : Fin timeout) (value : Value)
  | silence
  deriving DecidableEq, Repr

variable {timeout : Nat} {Value : Type}

namespace WaitEvent

def value? : WaitEvent timeout Value → Option Value
  | arrival _ value => some value
  | silence => none

def polls : WaitEvent timeout Value → List (Option Value)
  | arrival gap value => List.replicate gap none ++ [some value]
  | silence => List.replicate timeout none

def later : WaitEvent timeout Value → WaitEvent (timeout + 1) Value
  | arrival gap value => arrival gap.succ value
  | silence => silence

@[simp] theorem value?_later (event : WaitEvent timeout Value) :
    event.later.value? = event.value? := by
  cases event <;> rfl

@[simp] theorem polls_later (event : WaitEvent timeout Value) :
    event.later.polls = none :: event.polls := by
  cases event <;> rfl

theorem length_polls_le (event : WaitEvent timeout Value) : event.polls.length ≤ timeout := by
  cases event with
  | arrival gap value =>
      rw [polls, List.length_append, List.length_replicate]
      exact gap.isLt
  | silence => simp [polls]

theorem polls_ne_nil (event : WaitEvent (timeout + 1) Value) : event.polls ≠ [] := by
  cases event <;> simp [polls]

theorem mem_polls {event : WaitEvent timeout Value} {value : Value}
    (found : event.value? = some value) : some value ∈ event.polls := by
  cases event with
  | arrival gap other =>
      cases found
      exact List.mem_append_right _ List.mem_cons_self
  | silence => cases found

theorem begins (event : WaitEvent (timeout + 1) Value) :
    (∃ value, event = arrival 0 value) ∨ ∃ rest : WaitEvent timeout Value, event = rest.later := by
  cases event with
  | arrival gap value =>
      induction gap using Fin.cases with
      | zero => exact Or.inl ⟨value, rfl⟩
      | succ gap => exact Or.inr ⟨arrival gap value, rfl⟩
  | silence => exact Or.inr ⟨silence, rfl⟩

end WaitEvent

def pollsOf (events : List (WaitEvent timeout Value)) : List (Option Value) :=
  events.flatMap WaitEvent.polls

theorem length_pollsOf_le (events : List (WaitEvent timeout Value)) :
    (pollsOf events).length ≤ events.length * timeout := by
  induction events with
  | nil => simp [pollsOf]
  | cons event events induction =>
      have first := event.length_polls_le
      rw [pollsOf, List.flatMap_cons, List.length_append, List.length_cons, Nat.succ_mul]
      rw [pollsOf] at induction
      omega

/-! ## Inputs -/

def Finds : (input : Nat → Option Value) → List (Option Value) → Prop
  | _, [] => True
  | input, result :: results => input 0 = result ∧ Finds (fun index => input (index + 1)) results

def inputFrom (input : Nat → Option Value) (polls : Nat) : Nat → Option Value :=
  fun index => input (index + polls)

theorem finds_append (input : Nat → Option Value) (first second : List (Option Value)) :
    Finds input (first ++ second) ↔
      Finds input first ∧ Finds (inputFrom input first.length) second := by
  induction first generalizing input with
  | nil => exact ⟨fun finds => ⟨trivial, finds⟩, And.right⟩
  | cons result first induction =>
      rw [List.cons_append, Finds, Finds, induction, and_assoc]
      rfl

def awaitEvent : (timeout : Nat) → (input : Nat → Option Value) → WaitEvent timeout Value
  | 0, _ => .silence
  | timeout + 1, input =>
      match input 0 with
      | some value => .arrival 0 value
      | none => (awaitEvent timeout fun index => input (index + 1)).later

theorem finds_awaitEvent (timeout : Nat) (input : Nat → Option Value) :
    Finds input (awaitEvent timeout input).polls := by
  induction timeout generalizing input with
  | zero => trivial
  | succ timeout induction =>
      rw [awaitEvent]
      cases here : input 0 with
      | some value => exact ⟨here, trivial⟩
      | none =>
          rw [WaitEvent.polls_later]
          exact ⟨here, induction _⟩

theorem eq_awaitEvent (event : WaitEvent timeout Value) (input : Nat → Option Value)
    (finds : Finds input event.polls) : event = awaitEvent timeout input := by
  induction timeout generalizing input with
  | zero =>
      cases event with
      | arrival gap value => exact gap.elim0
      | silence => rfl
  | succ timeout induction =>
      rw [awaitEvent]
      rcases event.begins with ⟨value, rfl⟩ | ⟨rest, rfl⟩
      · have here : input 0 = some value := finds.1
        rw [here]
      · rw [WaitEvent.polls_later] at finds
        rcases finds with ⟨here, finds⟩
        rw [here]
        exact congrArg WaitEvent.later (induction rest _ finds)

def awaitEvents (timeout : Nat) : (count : Nat) → (input : Nat → Option Value) →
    List (WaitEvent timeout Value)
  | 0, _ => []
  | count + 1, input =>
      let event := awaitEvent timeout input
      event :: awaitEvents timeout count (inputFrom input event.polls.length)

@[simp] theorem length_awaitEvents (timeout count : Nat) (input : Nat → Option Value) :
    (awaitEvents timeout count input).length = count := by
  induction count generalizing input with
  | zero => rfl
  | succ count induction => rw [awaitEvents, List.length_cons, induction]

theorem finds_awaitEvents (timeout count : Nat) (input : Nat → Option Value) :
    Finds input (pollsOf (awaitEvents timeout count input)) := by
  induction count generalizing input with
  | zero => trivial
  | succ count induction =>
      rw [awaitEvents, pollsOf, List.flatMap_cons, finds_append]
      exact ⟨finds_awaitEvent timeout input, induction _⟩

/-- An input falls into events in one way. -/
theorem eq_awaitEvents (events : List (WaitEvent timeout Value)) (input : Nat → Option Value)
    (finds : Finds input (pollsOf events)) :
    events = awaitEvents timeout events.length input := by
  induction events generalizing input with
  | nil => rfl
  | cons event events induction =>
      rw [pollsOf, List.flatMap_cons, finds_append] at finds
      have first := eq_awaitEvent event input finds.1
      have rest := induction _ finds.2
      rw [List.length_cons, awaitEvents, ← first, ← rest]

/-! ## Waiting for one value -/

variable [DecidableEq Value]

/-- The events up to the first one with the value, or all of them. -/
def through (value : Value) : List (WaitEvent timeout Value) → List (WaitEvent timeout Value)
  | [] => []
  | event :: events =>
      if event.value? = some value then [event] else event :: through value events

theorem through_of_absent (value : Value) (events : List (WaitEvent timeout Value))
    (absent : ∀ event ∈ events, event.value? ≠ some value) : through value events = events := by
  induction events with
  | nil => rfl
  | cons event events induction =>
      rw [List.forall_mem_cons] at absent
      rw [through, if_neg absent.1, induction absent.2]

theorem through_of_first (value : Value) (earlier : List (WaitEvent timeout Value))
    (event : WaitEvent timeout Value) (later : List (WaitEvent timeout Value))
    (found : event.value? = some value) (first : ∀ other ∈ earlier, other.value? ≠ some value) :
    through value (earlier ++ event :: later) = earlier ++ [event] := by
  induction earlier with
  | nil => rw [List.nil_append, through, if_pos found, List.nil_append]
  | cons other earlier induction =>
      rw [List.forall_mem_cons] at first
      rw [List.cons_append, through, if_neg first.1, induction first.2, List.cons_append]

theorem mem_through {value : Value} {events : List (WaitEvent timeout Value)}
    {event : WaitEvent timeout Value} (among : event ∈ events) (found : event.value? = some value) :
    ∃ first ∈ through value events, first.value? = some value := by
  induction events with
  | nil => cases among
  | cons other events induction =>
      rw [through]
      by_cases here : other.value? = some value
      · rw [if_pos here]
        exact ⟨other, List.mem_cons_self, here⟩
      · rw [if_neg here]
        rcases List.mem_cons.mp among with same | among
        · rw [same] at found
          exact absurd found here
        · rcases induction among with ⟨first, member, arrived⟩
          exact ⟨first, List.mem_cons_of_mem other member, arrived⟩

theorem through_ne_nil (value : Value) {events : List (WaitEvent timeout Value)}
    (some : events ≠ []) : through value events ≠ [] := by
  cases events with
  | nil => exact absurd rfl some
  | cons event events =>
      rw [through]
      split <;> exact List.cons_ne_nil _ _

theorem length_through_le (value : Value) (events : List (WaitEvent timeout Value)) :
    (through value events).length ≤ events.length := by
  induction events with
  | nil => exact Nat.le_refl 0
  | cons event events induction =>
      rw [through]
      split
      · simp
      · exact Nat.succ_le_succ induction

end CosmosPC
