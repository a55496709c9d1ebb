import CosmosPC.Foundation.Potentials
import CosmosPC.Sync.System

/-! # How long a synchronisation can go on

Every iteration of a `doSync` moves its number on, sends a request or ends the
loop, unless it waits for a file that is being written. Each thread has a bounded
number of such steps before it, however the threads and the port interfere. -/

namespace CosmosPC

namespace Sys

def Waits (sys : Sys) (label : Label) : Prop := sys.world.rProc.flag = 2 ∧ Step sys label sys

def Paced (sys : Sys) (label : Label × Bool) (next : Sys) : Prop :=
  Step sys label.1 next ∧ (label.2 = true ↔ sys.Waits label.1)

def works : Label × Bool → Bool
  | (.thread _, waits) => !waits
  | _ => false

/-- The most that a run of `doSync` can cost: two steps for each number, and
those before and behind the loop. -/
def syncCost : Nat := 2 * 999999 + 6

def credit : Label × Bool → Nat
  | (.pressSync, _) => syncCost
  | (.pressStop, _) => 1
  | _ => 0

/-- How many steps a thread may still take: to move on and to ask, for each
number that is left, and to end. -/
def cost : Place → Nat
  | .start => syncCost
  | .connect => 2 * 999999 + 5
  | .loop i => 2 * (1000000 - i) + 4
  | .ending => 2
  | .stopping => 1
  | .ended => 0

/-- While the flag is 0, some thread may send one more request. -/
def potential (sys : Sys) : Nat :=
  totalWeight cost sys.threads + if sys.world.rProc.flag = 0 then 1 else 0

variable {sys next : Sys}

theorem cost_stay (i : Nat) : cost (whileTest i) ≤ cost (.loop i) := by
  unfold whileTest
  split
  · exact Nat.le_refl _
  · simp only [cost]
    omega

theorem cost_onward (i : Nat) : cost (whileTest (i + 1)) + 2 ≤ cost (.loop i) := by
  unfold whileTest
  split
  · simp only [cost]
    omega
  · exact Nat.le_add_left _ _

theorem cost_end (i : Nat) : cost .ending + 2 ≤ cost (.loop i) := Nat.le_add_left _ _

theorem handled_flag {results : FileResults} {buf : List UInt8} {world after : World}
    (handled : World.Handled results buf world after) (zero : after.rProc.flag = 0) :
    world.rProc.flag = 0 := by
  cases handled with
  | ignored => exact zero
  | sized => exact zero
  | absent => cases zero
  | begun text reply nonzero =>
      rw [World.fread, if_neg nonzero] at zero
      unfold World.initFile at zero
      cases zero
  | grown => exact zero
  | finished => cases zero

theorem potential_moved {moved : Sys} {k : Nat} {place after : Place}
    (standing : sys.threads[k]? = some place)
    (enough : cost after + 2 ≤ cost place ∨
      cost after + 1 ≤ cost place ∧ (moved.world.rProc.flag = 0 → sys.world.rProc.flag = 0) ∨
      cost after ≤ cost place ∧ moved.world.rProc.flag ≠ 0 ∧ sys.world.rProc.flag = 0) :
    potential { moved with threads := sys.threads.set k after } + 1 ≤ sys.potential := by
  have weights := totalWeight_set cost standing after
  unfold potential
  dsimp only
  rcases enough with much | ⟨more, kept⟩ | ⟨same, set, idle⟩
  · split <;> omega
  · by_cases zero : moved.world.rProc.flag = 0
    · rw [if_pos zero, if_pos (kept zero)]
      omega
    · rw [if_neg zero]
      omega
  · rw [if_neg set, if_pos idle]
    omega

theorem advanced_paid {k : Nat} {place after : Place} {moved : Sys}
    (standing : sys.threads[k]? = some place) (advanced : Advanced sys place after moved)
    (busy : ¬(sys.world.rProc.flag = 2 ∧
      { moved with threads := sys.threads.set k after } = sys)) :
    potential { moved with threads := sys.threads.set k after } + 1 ≤ sys.potential := by
  cases advanced with
  | meets => exact potential_moved standing (Or.inr (Or.inl ⟨by decide, id⟩))
  | joins => exact potential_moved standing (Or.inl (by decide))
  | connects => exact potential_moved standing (Or.inr (Or.inl ⟨by decide, id⟩))
  | finishes => exact potential_moved standing (Or.inl (by decide))
  | stops =>
      refine potential_moved standing (Or.inr (Or.inl ⟨by decide, fun zero => ?_⟩))
      unfold disconnect at zero
      split at zero <;> exact zero
  | @iterates i _ _ iterated =>
      cases iterated with
      | closed => exact potential_moved standing (Or.inl (cost_end i))
      | refused => exact potential_moved standing (Or.inl (cost_end i))
      | skipped => exact potential_moved standing (Or.inl (cost_onward i))
      | parsed => exact potential_moved standing (Or.inl (cost_onward i))
      | requested idle =>
          exact potential_moved standing (Or.inr (Or.inr ⟨cost_stay i, by simp [request], idle⟩))
      | waited writing =>
          unfold whileTest at busy ⊢
          split at busy
          case isTrue small =>
              refine absurd ⟨writing, ?_⟩ busy
              rcases List.getElem?_eq_some_iff.mp standing with ⟨bound, found⟩
              rw [← found, List.set_getElem_self]
          case isFalse large =>
              rw [if_neg large]
              exact potential_moved standing (Or.inl (cost_end i))

/-- A press pays for the thread that it starts, and a step of a thread that does
not wait is paid for. -/
theorem Paced.paid {label : Label × Bool} (paced : Paced sys label next) :
    next.potential + (if works label then 1 else 0) ≤ sys.potential + credit label := by
  rcases label with ⟨label, waits⟩
  rcases paced with ⟨step, sameWaits⟩
  cases step_stepped step with
  | pressedSync =>
      have weight := totalWeight_concat cost sys.threads .start
      have price : cost .start = credit (.pressSync, waits) := rfl
      simp only [potential, works, weight, Bool.false_eq_true, if_false]
      omega
  | pressedStop =>
      have weight := totalWeight_concat cost sys.threads .stopping
      have price : cost .stopping = credit (.pressStop, waits) := rfl
      simp only [potential, works, weight, Bool.false_eq_true, if_false]
      omega
  | @handled results buf world handled =>
      have flag := handled_flag handled
      simp only [potential, works, credit, Bool.false_eq_true, if_false]
      by_cases zero : world.rProc.flag = 0
      · rw [if_pos zero, if_pos (flag zero)]
      · rw [if_neg zero]
        omega
  | @advanced k place after moved standing advanced =>
      by_cases waiting : waits = true
      · have same : { moved with threads := sys.threads.set k after } = sys := by
          have stays := (sameWaits.mp waiting).2
          exact Option.some.inj (step.symm.trans stays)
        rw [same, waiting]
        exact Nat.le_refl _
      · have busy : ¬(sys.world.rProc.flag = 2 ∧
            { moved with threads := sys.threads.set k after } = sys) := by
          rintro ⟨writing, same⟩
          refine waiting (sameWaits.mpr ⟨writing, ?_⟩)
          rw [same] at step
          exact step
        have paid := advanced_paid standing advanced busy
        rw [Bool.not_eq_true] at waiting
        subst waiting
        exact paid

def isPressSync (label : Label × Bool) : Bool :=
  match label.1 with
  | .pressSync => true
  | _ => false

def isPressStop (label : Label × Bool) : Bool :=
  match label.1 with
  | .pressStop => true
  | _ => false

theorem sum_credit (labels : List (Label × Bool)) :
    (labels.map credit).sum =
      syncCost * labels.countP isPressSync + labels.countP isPressStop := by
  induction labels with
  | nil => rfl
  | cons label labels induction =>
      rcases label with ⟨label, waits⟩
      rw [List.map_cons, List.sum_cons, induction, List.countP_cons, List.countP_cons]
      cases label <;> simp [credit, isPressSync, isPressStop, Nat.mul_add] <;> omega

/-- Over any number of presses, and whatever the port delivers and becomes of the
files: but for iterations that wait for a file that is being written, the threads
take no more than 2000004 steps for each press of Sync, which covers two for each
number, and one step for each press of Stop. -/
theorem sync_steps_bounded (disk : Disk) (labels : List (Label × Bool)) (sys : Sys)
    (run : Run Paced (.initial disk) labels sys) :
    labels.countP works ≤
      1 + (2000004 * labels.countP isPressSync + labels.countP isPressStop) := by
  have charged := run.charged potential works credit fun _ _ _ paced => paced.paid
  have begins : potential (.initial disk) = 1 := rfl
  rw [sum_credit] at charged
  have price : syncCost = 2000004 := rfl
  rw [price] at charged
  omega

def unanswered : List (Label × Bool) :=
  [(.pressSync, false), (.thread 0, false), (.thread 0, false), (.thread 0, false),
    (.thread 0, false), (.thread 0, false)]

theorem sync_steps_bounded_unanswered :
    ∃ sys, Run Paced (.initial fun _ => none) unanswered sys ∧ sys.threads = [.ended] ∧
      unanswered.countP works ≤ 2000005 := by
  have run : ∃ sys, Run Paced (.initial fun _ => none) unanswered sys ∧
      sys.threads = [.ended] := by
    refine ⟨_, .cons ⟨rfl, ?_⟩ <| .cons ⟨rfl, ?_⟩ <| .cons ⟨rfl, ?_⟩ <| .cons ⟨rfl, ?_⟩ <|
      .cons ⟨rfl, ?_⟩ <| .cons ⟨rfl, ?_⟩ <| .nil _, rfl⟩
    all_goals exact ⟨fun waits => Bool.noConfusion waits, fun waits => by cases waits.1⟩
  rcases run with ⟨sys, run, ended⟩
  exact ⟨sys, run, ended, sync_steps_bounded _ unanswered sys run⟩

end Sys

end CosmosPC
