/-! # Runs of a labelled transition system

A run is a list of labels that leads from one state to another. Invariants may
mention the labels taken so far, so that a component can be compared with the
history of another one. -/

namespace CosmosPC

inductive Run (step : State → Label → State → Prop) : State → List Label → State → Prop
  | nil (state : State) : Run step state [] state
  | cons {first label second labels last} :
      step first label second → Run step second labels last →
      Run step first (label :: labels) last

namespace Run

variable {step : State → Label → State → Prop}

theorem append {first middle last : State} {left right : List Label}
    (earlier : Run step first left middle) (later : Run step middle right last) :
    Run step first (left ++ right) last := by
  induction earlier with
  | nil => exact later
  | cons taken _ induction => exact Run.cons taken (induction later)

theorem single {first last : State} {label : Label} (taken : step first label last) :
    Run step first [label] last :=
  Run.cons taken (Run.nil last)

theorem split {first last : State} {left right : List Label}
    (run : Run step first (left ++ right) last) :
    ∃ middle, Run step first left middle ∧ Run step middle right last := by
  induction left generalizing first with
  | nil => exact ⟨first, .nil first, run⟩
  | cons label left induction =>
      cases run with
      | cons taken rest =>
          rcases induction rest with ⟨middle, earlier, later⟩
          exact ⟨middle, .cons taken earlier, later⟩

theorem of_foldlM (next : State → Label → Option State) {labels : List Label}
    {first last : State} (computed : labels.foldlM next first = some last) :
    Run (fun state label after => next state label = some after) first labels last := by
  induction labels generalizing first with
  | nil =>
      cases computed
      exact Run.nil _
  | cons label labels induction =>
      rw [List.foldlM_cons] at computed
      rcases Option.bind_eq_some_iff.mp computed with ⟨second, taken, rest⟩
      exact Run.cons taken (induction rest)

/-- What holds at the start of a run and is kept by every step, knowing the
labels taken before it, holds at the end. -/
theorem history_invariant (holds : List Label → State → Prop) {first last : State}
    {labels : List Label} (run : Run step first labels last) (initially : holds [] first)
    (kept : ∀ history state label next, holds history state → step state label next →
      holds (history ++ [label]) next) : holds labels last := by
  suffices general : ∀ history, holds history first → holds (history ++ labels) last from
    general [] initially
  intro history begins
  clear initially
  induction run generalizing history with
  | nil => simpa using begins
  | @cons first label second labels last taken _ induction =>
      have next := induction (history ++ [label]) (kept history first label second begins taken)
      rwa [List.append_assoc, List.singleton_append] at next

theorem invariant {holds : State → Prop} {first last : State} {labels : List Label}
    (run : Run step first labels last) (initially : holds first)
    (kept : ∀ state label next, holds state → step state label next → holds next) :
    holds last :=
  run.history_invariant (fun _ => holds) initially
    fun _ state label next => kept state label next

/-- With a rank that no step raises and that counted steps lower, a run has no
more counted steps than the rank of its first state. -/
theorem ranked (holds : State → Nat → Prop) (counts : Label → Bool) {first last : State}
    {labels : List Label} {rank : Nat} (run : Run step first labels last)
    (initially : holds first rank)
    (lowered : ∀ state rank label next, holds state rank → step state label next →
      ∃ left, holds next left ∧ left + (if counts label then 1 else 0) ≤ rank) :
    ∃ left, holds last left ∧ left + labels.countP counts ≤ rank := by
  induction run generalizing rank with
  | nil state => exact ⟨rank, initially, Nat.le_refl _⟩
  | @cons first label second labels last taken _ induction =>
      rcases lowered first rank label second initially taken with ⟨middle, reached, lower⟩
      rcases induction reached with ⟨left, ends, counted⟩
      refine ⟨left, ends, ?_⟩
      rw [List.countP_cons]
      omega

theorem congr_of_invariant (holds : State → Prop) {other : State → Label → State → Prop}
    {first last : State} {labels : List Label} (initially : holds first)
    (same : ∀ state label next, holds state → (step state label next ↔ other state label next))
    (kept : ∀ state label next, holds state → step state label next → holds next) :
    Run step first labels last ↔ Run other first labels last := by
  constructor
  · intro run
    induction run with
    | nil state => exact Run.nil state
    | @cons first label second labels last taken _ induction =>
        exact Run.cons ((same first label second initially).mp taken)
          (induction (kept first label second initially taken))
  · intro run
    induction run with
    | nil state => exact Run.nil state
    | @cons first label second labels last taken _ induction =>
        have step := (same first label second initially).mpr taken
        exact Run.cons step (induction (kept first label second initially step))

end Run

/-- The steps of a system that meet a condition on the state and the label. -/
def Guarded (step : State → Label → State → Prop) (meets : State → Label → Prop)
    (state : State) (label : Label) (next : State) : Prop :=
  step state label next ∧ meets state label

theorem Run.guarded {step : State → Label → State → Prop} {meets : State → Label → Prop}
    {first last : State} {labels : List Label} (run : Run step first labels last)
    (always : ∀ label ∈ labels, ∀ state, meets state label) :
    Run (Guarded step meets) first labels last := by
  induction run with
  | nil state => exact Run.nil state
  | @cons first label second labels last taken _ induction =>
      exact Run.cons ⟨taken, always label List.mem_cons_self first⟩
        (induction fun other member => always other (List.mem_cons_of_mem label member))

def Entering (step : State → Label → State → Prop) (holds : State → Prop)
    (state : State) (label : Label) (next : State) : Prop :=
  step state label next ∧ holds next

end CosmosPC
