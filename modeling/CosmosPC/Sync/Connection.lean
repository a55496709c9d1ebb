import CosmosPC.Sync.System

/-! # The connection

Whether `pcio` always leads to the one `CosmosSpp` that is open. A `doSync`
tests `pcio` before it takes `main_cs` and does not test it again when it
assigns it. -/

namespace CosmosPC

/-- At most one `CosmosSpp` is open, `pcio` points to it, and `StopSync` closes it. -/
structure OneConnection (sys : Sys) : Prop where
  single : sys.alive.length ≤ 1
  pointed : ∀ object ∈ sys.alive, sys.pcio = some object
  closable : sys.disconnect.alive = []

/-- A `doSync` that is about to open the port does so while no port is open. -/
def Unrivalled (sys : Sys) : Sys.Label → Prop
  | .thread k => sys.threads[k]? = some .connect → sys.pcio = none
  | _ => True

def Attached (sys : Sys) : Prop :=
  sys.pcio = none ∧ sys.alive = [] ∨ ∃ object, sys.pcio = some object ∧ sys.alive = [object]

theorem Attached.oneConnection {sys : Sys} (attached : Attached sys) : OneConnection sys := by
  rcases attached with ⟨closed, alive⟩ | ⟨object, opened, alive⟩
  · exact ⟨by simp [alive], by simp [alive], by simp [Sys.disconnect, closed, alive]⟩
  · exact ⟨by simp [alive], by simp [alive, opened], by simp [Sys.disconnect, opened, alive]⟩

theorem Attached.unchanged {sys next : Sys} (attached : Attached sys)
    (pcio : next.pcio = sys.pcio) (alive : next.alive = sys.alive) : Attached next := by
  unfold Attached
  rw [pcio, alive]
  exact attached

theorem Attached.disconnect {sys : Sys} (attached : Attached sys) : Attached sys.disconnect := by
  rcases attached with ⟨closed, alive⟩ | ⟨object, opened, alive⟩
  · exact Or.inl (by simp [Sys.disconnect, closed, alive])
  · exact Or.inl (by simp [Sys.disconnect, opened, alive])

theorem Attached.connect {sys : Sys} (attached : Attached sys) (closed : sys.pcio = none) :
    Attached sys.connect := by
  rcases attached with ⟨_, alive⟩ | ⟨object, opened, _⟩
  · exact Or.inr ⟨sys.made, rfl, by simp [Sys.connect, alive]⟩
  · rw [closed] at opened
    cases opened

theorem Attached.not_oneConnection_connect {sys : Sys} (attached : Attached sys)
    (opened : sys.pcio ≠ none) (threads : List Place) :
    ¬OneConnection { sys.connect with threads := threads } := by
  rcases attached with ⟨closed, _⟩ | ⟨object, _, alive⟩
  · exact absurd closed opened
  · intro one
    have single := one.single
    simp [Sys.connect, alive] at single

theorem finish_connection (sys : Sys) :
    sys.finish.pcio = sys.pcio ∧ sys.finish.alive = sys.alive := by
  unfold Sys.finish
  split <;> exact ⟨rfl, rfl⟩

theorem iterated_connection {sys moved : Sys} {i : Nat} {after : Place}
    (iterated : Sys.Iterated sys i after moved) :
    moved.pcio = sys.pcio ∧ moved.alive = sys.alive := by
  cases iterated <;> exact ⟨rfl, rfl⟩

theorem Attached.step {sys next : Sys} {label : Sys.Label} (attached : Attached sys)
    (taken : Sys.Step sys label next) :
    (Unrivalled sys label → Attached next) ∧ (OneConnection next → Unrivalled sys label) := by
  cases Sys.step_stepped taken with
  | pressedSync => exact ⟨fun _ => attached.unchanged rfl rfl, fun _ => trivial⟩
  | pressedStop => exact ⟨fun _ => attached.unchanged rfl rfl, fun _ => trivial⟩
  | handled => exact ⟨fun _ => attached.unchanged rfl rfl, fun _ => trivial⟩
  | @advanced k place after moved standing advanced =>
      have elsewhere (other : place ≠ .connect) : Unrivalled sys (.thread k) := by
        intro connecting
        exact absurd (Option.some.inj (standing.symm.trans connecting)) other
      cases advanced with
      | meets => exact ⟨fun _ => attached.unchanged rfl rfl, fun _ => elsewhere (by simp)⟩
      | joins => exact ⟨fun _ => attached.unchanged rfl rfl, fun _ => elsewhere (by simp)⟩
      | iterates iterated =>
          have same := iterated_connection iterated
          exact ⟨fun _ => attached.unchanged same.1 same.2, fun _ => elsewhere (by simp)⟩
      | finishes =>
          have same := finish_connection sys
          exact ⟨fun _ => attached.unchanged same.1 same.2, fun _ => elsewhere (by simp)⟩
      | stops =>
          exact ⟨fun _ => attached.disconnect.unchanged rfl rfl, fun _ => elsewhere (by simp)⟩
      | connects =>
          constructor
          · intro unrivalled
            exact (attached.connect (unrivalled standing)).unchanged rfl rfl
          · intro one _
            apply Classical.byContradiction
            intro opened
            exact attached.not_oneConnection_connect opened _ one

/-- The connection is single in all states of a run exactly if no `doSync` opens
the port while it is open. -/
theorem oneConnection_iff_unrivalled (disk : Disk) (labels : List Sys.Label) (sys : Sys) :
    Run (Entering Sys.Step OneConnection) (.initial disk) labels sys ↔
      Run (Guarded Sys.Step Unrivalled) (.initial disk) labels sys := by
  apply Run.congr_of_invariant Attached
  · exact Or.inl ⟨rfl, rfl⟩
  · intro state label next attached
    constructor
    · rintro ⟨taken, one⟩
      exact ⟨taken, (attached.step taken).2 one⟩
    · rintro ⟨taken, unrivalled⟩
      exact ⟨taken, ((attached.step taken).1 unrivalled).oneConnection⟩
  · rintro state label next attached ⟨taken, one⟩
    exact (attached.step taken).1 ((attached.step taken).2 one)

/-- Two presses of Sync before the port is open. -/
def twoPresses : List Sys.Label :=
  [.pressSync, .pressSync, .thread 0, .thread 1, .thread 0, .thread 1]

/-- Both open the port, and `StopSync` closes only one of the two. -/
theorem two_presses_open_two_ports :
    ∃ sys, Run Sys.Step (.initial fun _ => none) twoPresses sys ∧ ¬OneConnection sys ∧
      sys.alive = [0, 1] ∧ sys.pcio = some 1 ∧ sys.disconnect.alive = [0] := by
  refine ⟨_, Run.of_foldlM Sys.step rfl, fun one => ?_, rfl, rfl, rfl⟩
  exact absurd one.single (by decide)

end CosmosPC
