import Mathlib.Algebra.Ring.Nat
import CosmosPC.Foundation.Runs

/-! # Potentials of runs

Work that is paid for in advance: a step that counts lowers the potential of the
state, and a step that raises it brings the credit to do so. The potential of a
list of parties is the sum of what each of them may still cost. -/

namespace CosmosPC

/-- A run does no more work than its first state and its steps pay for. -/
theorem Run.charged {step : State → Label → State → Prop} (potential : State → Nat)
    (counts : Label → Bool) (credit : Label → Nat) {first last : State} {labels : List Label}
    (run : Run step first labels last)
    (paid : ∀ state label next, step state label next →
      potential next + (if counts label then 1 else 0) ≤ potential state + credit label) :
    potential last + labels.countP counts ≤ potential first + (labels.map credit).sum := by
  induction run with
  | nil => exact Nat.le_refl _
  | @cons first label second labels last taken _ induction =>
      have here := paid first label second taken
      rw [List.countP_cons, List.map_cons, List.sum_cons]
      omega

/-- What all the parties of a system may still cost. -/
def totalWeight (weight : Party → Nat) (parties : List Party) : Nat := (parties.map weight).sum

variable (weight : Party → Nat)

theorem totalWeight_concat (parties : List Party) (new : Party) :
    totalWeight weight (parties ++ [new]) = totalWeight weight parties + weight new := by
  simp [totalWeight]

theorem totalWeight_set {parties : List Party} {k : Nat} {party : Party}
    (standing : parties[k]? = some party) (after : Party) :
    totalWeight weight (parties.set k after) + weight party =
      totalWeight weight parties + weight after := by
  induction parties generalizing k with
  | nil => cases standing
  | cons head tail induction =>
      cases k with
      | zero =>
          cases standing
          simp only [totalWeight, List.set_cons_zero, List.map_cons, List.sum_cons]
          omega
      | succ k =>
          have rest := induction standing
          simp only [totalWeight, List.set_cons_succ, List.map_cons, List.sum_cons] at rest ⊢
          omega

end CosmosPC
