import CosmosPC.Foundation.Runs

/-! # The lock of the serial ports

`ComIO::cs` is one critical section for all `ComIO` objects: every constructor
initialises it, every destructor deletes it, and `ReadCom` and `WriteCom` enter
and leave it, whatever object they belong to. -/

namespace CosmosPC

inductive CriticalSection
  | uninitialised
  | initialised
  | deleted
  deriving DecidableEq, Repr

inductive LockCall
  | initialise
  | enter
  | leave
  | delete
  deriving DecidableEq, Repr

namespace CriticalSection

def after (cs : CriticalSection) : LockCall → CriticalSection
  | .initialise => .initialised
  | .enter => cs
  | .leave => cs
  | .delete => .deleted

/-- The lock is used only while it is initialised, and initialised only while it is not. -/
def Allows (cs : CriticalSection) : LockCall → Prop
  | .initialise => cs ≠ .initialised
  | .enter => cs = .initialised
  | .leave => cs = .initialised
  | .delete => True

def AllowsAll (cs : CriticalSection) : List LockCall → Prop
  | [] => True
  | call :: calls => cs.Allows call ∧ (cs.after call).AllowsAll calls

end CriticalSection

/-- The `ComIO` objects that have not been destroyed, and their lock. -/
structure Ports where
  cs : CriticalSection := .uninitialised
  alive : List Nat := []
  made : Nat := 0

namespace Ports

inductive Operation
  | construct
  | destroy (object : Nat)
  | readCom (object : Nat)
  | writeCom (object : Nat)

def Operation.lockCalls : Operation → List LockCall
  | .construct => [.initialise]
  | .destroy _ => [.enter, .leave, .delete]
  | .readCom _ => [.enter, .leave]
  | .writeCom _ => [.enter, .leave]

def step (ports : Ports) (operation : Operation) : Option Ports :=
  let cs := operation.lockCalls.foldl CriticalSection.after ports.cs
  match operation with
  | .construct => some ⟨cs, ports.alive ++ [ports.made], ports.made + 1⟩
  | .destroy object =>
      if object ∈ ports.alive then some { ports with cs := cs, alive := ports.alive.erase object }
      else none
  | .readCom object => if object ∈ ports.alive then some { ports with cs := cs } else none
  | .writeCom object => if object ∈ ports.alive then some { ports with cs := cs } else none

def Step (ports : Ports) (operation : Operation) (next : Ports) : Prop :=
  ports.step operation = some next

/-- Every call of the operation on the lock finds it in a state that allows the call. -/
def LockAlive (ports : Ports) (operation : Operation) : Prop :=
  ports.cs.AllowsAll operation.lockCalls

/-- Objects are constructed only while there is no other. -/
def Alone (ports : Ports) (operation : Operation) : Prop :=
  operation = .construct → ports.alive = []

def Locked (ports : Ports) : Prop :=
  ports.alive = [] ∧ ports.cs ≠ .initialised ∨
    ∃ object, ports.alive = [object] ∧ ports.cs = .initialised

theorem Locked.of_member {ports : Ports} (locked : Locked ports) {object : Nat}
    (member : object ∈ ports.alive) : ports.alive = [object] ∧ ports.cs = .initialised := by
  rcases locked with ⟨none, _⟩ | ⟨only, alive, initialised⟩
  · rw [none] at member
    cases member
  · rw [alive, List.mem_singleton] at member
    exact ⟨member ▸ alive, initialised⟩

/-! ## What one operation may do -/

inductive Stepped (ports : Ports) : Operation → Ports → Prop
  | constructed :
      Stepped ports .construct ⟨.initialised, ports.alive ++ [ports.made], ports.made + 1⟩
  | destroyed {object : Nat} (member : object ∈ ports.alive) :
      Stepped ports (.destroy object)
        { ports with cs := .deleted, alive := ports.alive.erase object }
  | read {object : Nat} (member : object ∈ ports.alive) : Stepped ports (.readCom object) ports
  | written {object : Nat} (member : object ∈ ports.alive) :
      Stepped ports (.writeCom object) ports

theorem step_stepped {ports next : Ports} {operation : Operation}
    (taken : Step ports operation next) : Stepped ports operation next := by
  unfold Step step at taken
  cases operation with
  | construct =>
      cases taken
      exact .constructed
  | destroy object =>
      rcases Option.ite_none_right_eq_some.mp taken with ⟨member, ⟨⟩⟩
      exact .destroyed member
  | readCom object =>
      rcases Option.ite_none_right_eq_some.mp taken with ⟨member, ⟨⟩⟩
      exact .read member
  | writeCom object =>
      rcases Option.ite_none_right_eq_some.mp taken with ⟨member, ⟨⟩⟩
      exact .written member

theorem lockAlive_of_initialised {ports : Ports} {operation : Operation}
    (initialised : ports.cs = .initialised) (other : operation ≠ .construct) :
    LockAlive ports operation := by
  unfold LockAlive
  rw [initialised]
  cases operation with
  | construct => exact absurd rfl other
  | destroy object => exact ⟨rfl, rfl, trivial, trivial⟩
  | readCom object => exact ⟨rfl, rfl, trivial⟩
  | writeCom object => exact ⟨rfl, rfl, trivial⟩

theorem lockAlive_construct (ports : Ports) :
    LockAlive ports .construct ↔ ports.cs ≠ .initialised :=
  ⟨fun allowed => allowed.1, fun dead => ⟨dead, trivial⟩⟩

/-- With at most one object, an operation finds the lock alive exactly if it does
not construct a second one. -/
theorem Locked.lockAlive_iff {ports next : Ports} {operation : Operation} (locked : Locked ports)
    (taken : Step ports operation next) : LockAlive ports operation ↔ Alone ports operation := by
  have used {object : Nat} (member : object ∈ ports.alive) (other : operation ≠ .construct) :
      LockAlive ports operation ↔ Alone ports operation :=
    ⟨fun _ constructs => absurd constructs other,
      fun _ => lockAlive_of_initialised (locked.of_member member).2 other⟩
  cases step_stepped taken with
  | constructed =>
      rw [lockAlive_construct]
      rcases locked with ⟨none, dead⟩ | ⟨only, alive, initialised⟩
      · simp [Alone, none, dead]
      · simp [Alone, alive, initialised]
  | destroyed member => exact used member (by simp)
  | read member => exact used member (by simp)
  | written member => exact used member (by simp)

theorem Locked.step {ports next : Ports} {operation : Operation} (locked : Locked ports)
    (taken : Step ports operation next) (alone : Alone ports operation) : Locked next := by
  cases step_stepped taken with
  | constructed => exact Or.inr ⟨ports.made, by simp [alone rfl], rfl⟩
  | destroyed member => exact Or.inl ⟨by simp [(locked.of_member member).1], by simp⟩
  | read => exact locked
  | written => exact locked

/-- The lock is alive whenever it is used, and not initialised twice, exactly if
no object is constructed while there is another. -/
theorem lock_alive_iff_alone (operations : List Operation) (ports : Ports) :
    Run (Guarded Step LockAlive) {} operations ports ↔
      Run (Guarded Step Alone) {} operations ports := by
  apply Run.congr_of_invariant Locked
  · exact Or.inl ⟨rfl, by decide⟩
  · intro state operation next locked
    constructor
    · rintro ⟨taken, lockAlive⟩
      exact ⟨taken, (locked.lockAlive_iff taken).mp lockAlive⟩
    · rintro ⟨taken, alone⟩
      exact ⟨taken, (locked.lockAlive_iff taken).mpr alone⟩
  · rintro state operation next locked ⟨taken, lockAlive⟩
    exact locked.step taken ((locked.lockAlive_iff taken).mp lockAlive)

/-- A synchronisation and an update that overlap: the update is over first. -/
def overlapping : List Operation := [.construct, .construct, .destroy 1]

/-- The lock is initialised a second time, and the read that follows finds it deleted. -/
theorem overlapping_ports_break_lock :
    Run Step {} [.construct] ⟨.initialised, [0], 1⟩ ∧
      ¬LockAlive ⟨.initialised, [0], 1⟩ .construct ∧
      Run Step {} overlapping ⟨.deleted, [0], 2⟩ ∧
      Step ⟨.deleted, [0], 2⟩ (.readCom 0) ⟨.deleted, [0], 2⟩ ∧
      ¬LockAlive ⟨.deleted, [0], 2⟩ (.readCom 0) := by
  refine ⟨Run.of_foldlM step rfl, ?_, Run.of_foldlM step rfl, rfl, ?_⟩
  · intro allowed
    exact allowed.1 rfl
  · intro allowed
    cases allowed.1

end Ports

end CosmosPC
