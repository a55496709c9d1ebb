import CosmosPC.Foundation.Runs
import CosmosPC.Sync.ReadCommProc

/-! # The program that synchronises

`doSync` and `StopSync` as threads that share `pcio` and `rProc` with the reads
of the port. The test at the start of `doSync`, each section under `main_cs`,
what follows the loop, and each call of `proc` are single steps. -/

namespace CosmosPC

/-- Where a thread is: `doSync` before its test of `pcio`, before it opens the
port, at number `i` of its loop, behind the loop, or `StopSync`. -/
inductive Place
  | start
  | connect
  | loop (i : Nat)
  | ending
  | stopping
  | ended
  deriving DecidableEq, Repr

structure Sys where
  world : World
  /-- The `CosmosSpp` that `pcio` points to. -/
  pcio : Option Nat := none
  /-- The `CosmosSpp` objects that have not been deleted. -/
  alive : List Nat := []
  /-- How many of them have been made. -/
  made : Nat := 0
  threads : List Place := []
  /-- What has been handed to `pcio->WriteCom`, oldest first. -/
  requests : List (List UInt8) := []
  /-- The numbers for which `doParseFile` has been started. -/
  parsed : List Nat := []

def freadRequest (i : Nat) : List UInt8 :=
  asciiBytes ['S', 'P', 'P', '+', 'F', 'R', 'E', 'A', 'D', '='] ++ Decimal.padded 6 i ++
    [carriageReturn, 0, 0]

namespace Sys

def initial (disk : Disk) : Sys where
  world := ⟨{}, 0, disk⟩

/-- `BOOL checkFileExist(DWORD sn)`. -/
def checkFileExist (sys : Sys) (sn : Nat) : Bool := (sys.world.disk sn).isSome

def setFlag (sys : Sys) (flag : Nat) : Sys :=
  { sys with world := { sys.world with rProc := { sys.world.rProc with flag := flag } } }

/-- `rProc.flag = 1; rProc.dwName = i;` and the request that is sent. -/
def request (sys : Sys) (i : Nat) : Sys :=
  { sys with
    world := { sys.world with rProc := { sys.world.rProc with flag := 1, dwName := i } }
    requests := sys.requests ++ [freadRequest i] }

/-- The thread started on `doParseFile`, and `rProc.flag = 0;`. -/
def startParse (sys : Sys) (i : Nat) : Sys :=
  { sys with parsed := sys.parsed ++ [i] }.setFlag 0

/-- `while(i < 1000000)`. -/
def whileTest (i : Nat) : Place := if i < 1000000 then .loop i else .ending

def iterate (sys : Sys) (i : Nat) : Place × Sys :=
  match sys.pcio with
  | none => (.ending, sys)
  | some _ =>
      if sys.world.rProc.flag = 0 then
        if sys.checkFileExist i then (whileTest (i + 1), sys)
        else (whileTest i, sys.request i)
      else if sys.world.rProc.flag = 2 then (whileTest i, sys)
      else if sys.world.rProc.flag = 3 then
        (whileTest (i + 1), sys.startParse i)
      -- Flag 1 is "File NOT Found", any other an "Unknown Flag".
      else (.ending, sys)

def finish (sys : Sys) : Sys :=
  if sys.world.rProc.flag = 2 then { sys with world := sys.world.deleteLastFile }.setFlag 0
  else sys.setFlag 0

/-- `pcio = new CosmosSpp(buffer)`, whose `InitComIO` never fails. -/
def connect (sys : Sys) : Sys :=
  { sys with
    pcio := some sys.made, alive := sys.alive ++ [sys.made], made := sys.made + 1 }

def disconnect (sys : Sys) : Sys :=
  match sys.pcio with
  | none => sys
  | some object => { sys with pcio := none, alive := sys.alive.erase object }

def advance (sys : Sys) : Place → Option (Place × Sys)
  | .start => some (if sys.pcio = none then .connect else .loop 1, sys)
  | .connect => some (.loop 1, sys.connect)
  | .loop i => some (sys.iterate i)
  | .ending => some (.ended, sys.finish)
  | .stopping => some (.ended, sys.disconnect)
  | .ended => none

inductive Label
  | pressSync
  | pressStop
  | thread (k : Nat)
  | proc (results : FileResults) (buf : List UInt8)

/-- A `ReadThread` hands over what it has read, as long as there ever was one. -/
def step (sys : Sys) : Label → Option Sys
  | .pressSync => some { sys with threads := sys.threads ++ [.start] }
  | .pressStop => some { sys with threads := sys.threads ++ [.stopping] }
  | .thread k =>
      sys.threads[k]?.bind fun place =>
        (sys.advance place).map fun (after, moved) =>
          { moved with threads := sys.threads.set k after }
  | .proc results buf =>
      if 0 < sys.made ∧ 1 ≤ buf.length ∧ buf.length ≤ 1024 then
        (sys.world.proc results buf).map fun world => { sys with world := world }
      else none

def Step (sys : Sys) (label : Label) (next : Sys) : Prop := sys.step label = some next

/-! ## What one step may do -/

inductive Iterated (sys : Sys) (i : Nat) : Place → Sys → Prop
  | closed (stopped : sys.pcio = none) : Iterated sys i .ending sys
  | skipped (idle : sys.world.rProc.flag = 0) (present : (sys.world.disk i).isSome = true) :
      Iterated sys i (whileTest (i + 1)) sys
  | requested (idle : sys.world.rProc.flag = 0) (absent : sys.world.disk i = none) :
      Iterated sys i (whileTest i) (sys.request i)
  | waited (writing : sys.world.rProc.flag = 2) : Iterated sys i (whileTest i) sys
  | parsed (finished : sys.world.rProc.flag = 3) :
      Iterated sys i (whileTest (i + 1)) (sys.startParse i)
  | refused (notFound : sys.world.rProc.flag ≠ 0 ∧ sys.world.rProc.flag ≠ 2 ∧
      sys.world.rProc.flag ≠ 3) : Iterated sys i .ending sys

theorem iterate_iterated (sys : Sys) (i : Nat) :
    Iterated sys i (sys.iterate i).1 (sys.iterate i).2 := by
  unfold iterate
  cases connection : sys.pcio with
  | none => exact .closed connection
  | some =>
      dsimp only
      by_cases idle : sys.world.rProc.flag = 0
      · rw [if_pos idle]
        cases present : sys.checkFileExist i with
        | true => exact .skipped idle present
        | false => exact .requested idle (by simpa [checkFileExist] using present)
      · rw [if_neg idle]
        by_cases writing : sys.world.rProc.flag = 2
        · rw [if_pos writing]
          exact .waited writing
        · rw [if_neg writing]
          by_cases finished : sys.world.rProc.flag = 3
          · rw [if_pos finished]
            exact .parsed finished
          · rw [if_neg finished]
            exact .refused ⟨idle, writing, finished⟩

theorem Iterated.of_idle {sys moved : Sys} {i : Nat} {after : Place}
    (iterated : Iterated sys i after moved) (connected : sys.pcio ≠ none)
    (idle : sys.world.rProc.flag = 0) :
    (sys.world.disk i).isSome = true ∧ after = whileTest (i + 1) ∧ moved = sys ∨
      sys.world.disk i = none ∧ after = whileTest i ∧ moved = sys.request i := by
  cases iterated with
  | closed stopped => exact absurd stopped connected
  | skipped _ present => exact Or.inl ⟨present, rfl, rfl⟩
  | requested _ absent => exact Or.inr ⟨absent, rfl, rfl⟩
  | waited writing => exact absurd (idle.symm.trans writing) (by decide)
  | parsed finished => exact absurd (idle.symm.trans finished) (by decide)
  | refused notFound => exact absurd idle notFound.1

theorem Iterated.of_writing {sys moved : Sys} {i : Nat} {after : Place}
    (iterated : Iterated sys i after moved) (connected : sys.pcio ≠ none)
    (writing : sys.world.rProc.flag = 2) : after = whileTest i ∧ moved = sys := by
  cases iterated with
  | closed stopped => exact absurd stopped connected
  | skipped idle => exact absurd (writing.symm.trans idle) (by decide)
  | requested idle => exact absurd (writing.symm.trans idle) (by decide)
  | waited => exact ⟨rfl, rfl⟩
  | parsed finished => exact absurd (writing.symm.trans finished) (by decide)
  | refused notFound => exact absurd writing notFound.2.1

theorem Iterated.of_finished {sys moved : Sys} {i : Nat} {after : Place}
    (iterated : Iterated sys i after moved) (connected : sys.pcio ≠ none)
    (finished : sys.world.rProc.flag = 3) :
    after = whileTest (i + 1) ∧ moved = sys.startParse i := by
  cases iterated with
  | closed stopped => exact absurd stopped connected
  | skipped idle => exact absurd (finished.symm.trans idle) (by decide)
  | requested idle => exact absurd (finished.symm.trans idle) (by decide)
  | waited writing => exact absurd (finished.symm.trans writing) (by decide)
  | parsed => exact ⟨rfl, rfl⟩
  | refused notFound => exact absurd finished notFound.2.2

theorem Iterated.of_notFound {sys moved : Sys} {i : Nat} {after : Place}
    (iterated : Iterated sys i after moved) (connected : sys.pcio ≠ none)
    (notFound : sys.world.rProc.flag = 1) : after = .ending ∧ moved = sys := by
  cases iterated with
  | closed stopped => exact absurd stopped connected
  | skipped idle => exact absurd (notFound.symm.trans idle) (by decide)
  | requested idle => exact absurd (notFound.symm.trans idle) (by decide)
  | waited writing => exact absurd (notFound.symm.trans writing) (by decide)
  | parsed finished => exact absurd (notFound.symm.trans finished) (by decide)
  | refused => exact ⟨rfl, rfl⟩

inductive Advanced (sys : Sys) : Place → Place → Sys → Prop
  | meets (closed : sys.pcio = none) : Advanced sys .start .connect sys
  | joins (connected : sys.pcio ≠ none) : Advanced sys .start (.loop 1) sys
  | connects : Advanced sys .connect (.loop 1) sys.connect
  | iterates {i : Nat} {after : Place} {moved : Sys} (iterated : Iterated sys i after moved) :
      Advanced sys (.loop i) after moved
  | finishes : Advanced sys .ending .ended sys.finish
  | stops : Advanced sys .stopping .ended sys.disconnect

theorem advance_advanced {sys moved : Sys} {place after : Place}
    (taken : sys.advance place = some (after, moved)) : Advanced sys place after moved := by
  cases place with
  | start =>
      cases taken
      by_cases closed : sys.pcio = none
      · rw [if_pos closed]
        exact .meets closed
      · rw [if_neg closed]
        exact .joins closed
  | connect =>
      cases taken
      exact .connects
  | loop i =>
      have iterated := sys.iterate_iterated i
      rw [Option.some.inj taken] at iterated
      exact .iterates iterated
  | ending =>
      cases taken
      exact .finishes
  | stopping =>
      cases taken
      exact .stops
  | ended => cases taken

inductive Stepped (sys : Sys) : Label → Sys → Prop
  | pressedSync : Stepped sys .pressSync { sys with threads := sys.threads ++ [.start] }
  | pressedStop : Stepped sys .pressStop { sys with threads := sys.threads ++ [.stopping] }
  | advanced {k : Nat} {place after : Place} {moved : Sys} (standing : sys.threads[k]? = some place)
      (advanced : Advanced sys place after moved) :
      Stepped sys (.thread k) { moved with threads := sys.threads.set k after }
  | handled {results : FileResults} {buf : List UInt8} {world : World}
      (handled : World.Handled results buf sys.world world) :
      Stepped sys (.proc results buf) { sys with world := world }

theorem step_stepped {sys next : Sys} {label : Label} (taken : Step sys label next) :
    Stepped sys label next := by
  unfold Step step at taken
  cases label with
  | pressSync =>
      cases taken
      exact .pressedSync
  | pressStop =>
      cases taken
      exact .pressedStop
  | thread k =>
      rcases Option.bind_eq_some_iff.mp taken with ⟨place, standing, rest⟩
      rcases Option.map_eq_some_iff.mp rest with ⟨⟨after, moved⟩, advanced, rfl⟩
      exact .advanced standing (advance_advanced advanced)
  | proc results buf =>
      dsimp only at taken
      split at taken
      · rcases Option.map_eq_some_iff.mp taken with ⟨world, handled, rfl⟩
        exact .handled (World.proc_handled results handled)
      · cases taken

theorem step_only {sys next : Sys} {place : Place} (threads : sys.threads = [place])
    (taken : Step sys (.thread 0) next) :
    ∃ after moved, Advanced sys place after moved ∧ next = { moved with threads := [after] } := by
  cases step_stepped taken with
  | @advanced _ found after moved standing advanced =>
      rw [threads] at standing ⊢
      cases standing
      exact ⟨after, moved, advanced, rfl⟩

theorem step_only_exists {sys : Sys} {place : Place} (threads : sys.threads = [place])
    (goesOn : place ≠ .ended) : ∃ next, Step sys (.thread 0) next := by
  have advances : ∃ outcome, sys.advance place = some outcome := by
    cases place with
    | ended => exact absurd rfl goesOn
    | start => exact ⟨_, rfl⟩
    | connect => exact ⟨_, rfl⟩
    | loop i => exact ⟨_, rfl⟩
    | ending => exact ⟨_, rfl⟩
    | stopping => exact ⟨_, rfl⟩
  rcases advances with ⟨⟨after, moved⟩, advances⟩
  refine ⟨{ moved with threads := [after] }, ?_⟩
  simp [Step, step, threads, advances]

theorem step_proc_of_some {sys : Sys} {results : FileResults} {buf : List UInt8} {world : World}
    (made : 0 < sys.made) (length : 1 ≤ buf.length ∧ buf.length ≤ 1024)
    (handled : sys.world.proc results buf = some world) :
    Step sys (.proc results buf) { sys with world := world } := by
  simp [Step, step, made, length, handled]

theorem step_proc {sys next : Sys} {results : FileResults} {buf : List UInt8}
    (taken : Step sys (.proc results buf) next) :
    ∃ world, sys.world.proc results buf = some world ∧ next = { sys with world := world } := by
  unfold Step step at taken
  dsimp only at taken
  split at taken
  · rcases Option.map_eq_some_iff.mp taken with ⟨world, handled, rfl⟩
    exact ⟨world, handled, rfl⟩
  · cases taken

end Sys

end CosmosPC
