/-! # Histories with forced events

A party that has begun something may be bound to go on with it: after some
histories only one event can be next. -/

namespace CosmosPC

/-- Histories in which every event that is forced has come next. -/
inductive Forced (next : List Event → Option Event) : List Event → Prop
  | nil : Forced next []
  | concat {history : List Event} {event : Event} (earlier : Forced next history)
      (bound : ∀ due, next history = some due → event = due) : Forced next (history ++ [event])

namespace Forced

variable {next : List Event → Option Event} {history log : List Event}

theorem due_next (forced : Forced next history) (part : log <+: history) (before : log ≠ history)
    {due : Event} (isDue : next log = some due) : log ++ [due] <+: history := by
  induction forced with
  | nil => exact absurd (List.prefix_nil.mp part) before
  | @concat earlier event _ bound induction =>
      have shorter : log <+: earlier := by
        rcases List.prefix_concat_iff.mp part with same | shorter
        · exact absurd same before
        · exact shorter
      by_cases last : log = earlier
      · subst last
        cases bound due isDue
        exact List.prefix_rfl
      · exact (induction shorter last).trans (List.prefix_append _ _)

/-- A history that ends with nothing due passes through no history from which
events are due for ever. -/
theorem not_for_ever (forced : Forced next history) (finished : next history = none)
    (stages : Nat → List Event) (part : stages 0 <+: history)
    (due : ∀ stage, ∃ event, next (stages stage) = some event ∧
      stages (stage + 1) = stages stage ++ [event]) : False := by
  have passes (stage : Nat) : stages stage <+: history ∧ stage ≤ (stages stage).length := by
    induction stage with
    | zero => exact ⟨part, Nat.zero_le _⟩
    | succ stage induction =>
        rcases due stage with ⟨event, isDue, extended⟩
        have before : stages stage ≠ history := by
          intro all
          rw [all, finished] at isDue
          cases isDue
        rw [extended]
        refine ⟨forced.due_next induction.1 before isDue, ?_⟩
        rw [List.length_append]
        exact Nat.add_le_add_right induction.2 1
  have long := (passes (history.length + 1)).2
  have short := (passes (history.length + 1)).1.length_le
  omega

end Forced

end CosmosPC
