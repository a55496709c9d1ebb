import CosmosPC.Sync.System

/-! # The program, statement by statement

`doSync`, `StopSync` and `proc` as threads whose statements alternate in any
order. `main_cs` is entered and left by statements of their own; what it does
not guard, like the members of `rProc` and the test of `pcio` at the start of
`doSync`, may change between any two statements. -/

namespace CosmosPC

inductive Closing
  | testHandle
  | closeHandle
  | nullHandle
  deriving DecidableEq, Repr

/-- The statement that a thread of `doSync` or `StopSync` is about to execute.
Outside of the sections it is the one that begins what the place stands for:
the first test of `pcio`, entering `main_cs`, or the test behind the loop. -/
inductive Statement
  | outside (place : Place)
  | newCosmosSpp
  /-- `pcio->InitComIO()`, which never fails. -/
  | initCom
  | regReadClass
  | testStopped (i : Nat)
  | testIdle (i : Nat)
  | checkFile (i : Nat)
  | markAsked (i : Nat)
  | nameFile (i : Nat)
  | writeCom (i : Nat)
  | testWriting (i : Nat)
  | testFinished (i : Nat)
  | createThread (i : Nat)
  | clearFlag (i : Nat)
  | testOpen
  | deleteObject
  | nullPointer
  | leave (next : Place)
  | deinitFile (closing : Closing)
  | deleteFile
  | finalClear
  deriving DecidableEq, Repr

/-- What a `ReadThread` is about to do: to read, or a statement of `proc`. -/
inductive Reader
  | waiting
  | proc (buf : List UInt8)
  | fsize (size : Nat)
  | resetTotal (size : Nat)
  | setFileSize (size : Nat)
  | testSize
  | notFound
  | startWriting
  | initFile
  | closeLast (name : Nat) (closing : Closing)
  | nameLast (name : Nat)
  | createFile (name : Nat)
  | content (buf : List UInt8)
  | writeFile (buf : List UInt8)
  | addTotal (w : Nat)
  | setRate
  | testTotal
  | deinitFile (closing : Closing)
  | finish
  deriving DecidableEq, Repr

namespace World

/-- `CloseHandle(hfile)`: no write with the handle succeeds from then on. -/
def closeHandle (world : World) : World :=
  match world.rProc.hfile with
  | .file _ => { world with rProc := { world.rProc with hfile := .invalid } }
  | _ => world

def closing (world : World) : Closing → Option Closing × World
  | .testHandle => (if world.rProc.hfile = .null then none else some .closeHandle, world)
  | .closeHandle => (some .nullHandle, world.closeHandle)
  | .nullHandle => (none, world.deinitFile)

def findTag (buf : List UInt8) : Reader :=
  match findReply buf with
  | some (2, text) => .fsize (dword (strtol text))
  | some (3, text) => .resetTotal (dword (strtol text))
  | some _ => .waiting
  | none => .content buf

/-- The next statement of `proc`. There is no world behind a division by zero. -/
def handle (world : World) (results : FileResults) : Reader → Option (Reader × World)
  | .waiting => none
  | .proc buf => some (findTag buf, world)
  | .fsize size => some (.waiting, world.fsize size)
  | .resetTotal size =>
      some (.setFileSize size, { world with rProc := { world.rProc with totalRecv := 0 } })
  | .setFileSize size => some (.testSize, world.fsize size)
  | .testSize => some (if world.rProc.fileSize = 0 then .notFound else .startWriting, world)
  | .notFound => some (.waiting, { world with rProc := { world.rProc with flag := 1 } })
  | .startWriting => some (.initFile, { world with rProc := { world.rProc with flag := 2 } })
  | .initFile => some (.closeLast world.rProc.dwName .testHandle, world)
  | .closeLast name closing =>
      match world.closing closing with
      | (some closing, world) => some (.closeLast name closing, world)
      | (none, world) => some (.nameLast name, world)
  | .nameLast name =>
      some (.createFile name, { world with rProc := { world.rProc with szLastFile := some name } })
  | .createFile name =>
      some (.waiting,
        { world with
          rProc := { world.rProc with hfile := if results.created then .file name else .invalid }
          disk := if results.created then Function.update world.disk name (some [])
            else world.disk })
  | .content buf => some (if world.rProc.flag = 2 then .writeFile buf else .waiting, world)
  | .writeFile buf =>
      match world.writeFile results buf with
      | some (w, world) => some (.addTotal w, world)
      | none => some (.waiting, world)
  | .addTotal w =>
      some (.setRate,
        { world with
          rProc := { world.rProc with totalRecv := (world.rProc.totalRecv + w) % 2 ^ 32 } })
  | .setRate =>
      if world.rProc.fileSize = 0 then none
      else some (.testTotal,
        { world with rate := 100 * world.rProc.totalRecv % 2 ^ 32 / world.rProc.fileSize })
  | .testTotal =>
      some (if world.rProc.totalRecv ≥ world.rProc.fileSize then .deinitFile .testHandle
        else .waiting, world)
  | .deinitFile closing =>
      match world.closing closing with
      | (some closing, world) => some (.deinitFile closing, world)
      | (none, world) => some (.finish, world)
  | .finish => some (.waiting, { world with rProc := { world.rProc with flag := 3 } })

end World

structure Program where
  world : World
  pcio : Option Nat := none
  alive : List Nat := []
  made : Nat := 0
  /-- The thread that is in `main_cs`. -/
  mainCs : Option Nat := none
  threads : List Statement := []
  /-- The `ReadThread`s that have something to hand their reads to. -/
  readers : List Reader := []
  requests : List (List UInt8) := []
  parsed : List Nat := []

namespace Program

def initial (disk : Disk) : Program where
  world := ⟨{}, 0, disk⟩

def setFlag (program : Program) (flag : Nat) : Program :=
  { program with
    world := { program.world with rProc := { program.world.rProc with flag := flag } } }

/-- `EnterCriticalSection(&main_cs)`. -/
def enter (program : Program) (k : Nat) (next : Statement) : Option (Statement × Program) :=
  if program.mainCs = none then some (next, { program with mainCs := some k }) else none

/-- `DeleteFile(szLastFile)`, which fails while some handle is open on the file. -/
def deleteFile (program : Program) (succeeds : Bool) : Program :=
  match program.world.rProc.szLastFile with
  | none => program
  | some name =>
      if succeeds then
        { program with
          world := { program.world with disk := Function.update program.world.disk name none } }
      else program

/-- The next statement of thread `k`, `succeeds` saying what the system makes of
the `CreateFile` or `DeleteFile` in it. -/
def execute (program : Program) (k : Nat) (succeeds : Bool) :
    Statement → Option (Statement × Program)
  | .outside .start =>
      some (.outside (if program.pcio = none then .connect else .loop 1), program)
  | .outside .connect => program.enter k .newCosmosSpp
  | .newCosmosSpp =>
      some (.initCom,
        { program with
          pcio := some program.made, alive := program.alive ++ [program.made]
          made := program.made + 1 })
  | .initCom => some (.regReadClass, program)
  -- Until here the `ReadThread` that `InitComIO` starts only prints what it reads.
  | .regReadClass =>
      some (.leave (.loop 1), { program with readers := program.readers ++ [.waiting] })
  | .outside (.loop i) => program.enter k (.testStopped i)
  | .testStopped i =>
      some (if program.pcio = none then .leave .ending else .testIdle i, program)
  | .testIdle i =>
      some (if program.world.rProc.flag = 0 then .checkFile i else .testWriting i, program)
  -- A `CreateFile` that fails is taken for a file that is not there.
  | .checkFile i =>
      some (if (program.world.disk i).isSome ∧ succeeds then .leave (Sys.whileTest (i + 1))
        else .markAsked i, program)
  | .markAsked i => some (.nameFile i, program.setFlag 1)
  | .nameFile i =>
      some (.writeCom i,
        { program with
          world := { program.world with rProc := { program.world.rProc with dwName := i } } })
  | .writeCom i =>
      some (.leave (Sys.whileTest i),
        { program with requests := program.requests ++ [freadRequest i] })
  | .testWriting i =>
      some (if program.world.rProc.flag = 2 then .leave (Sys.whileTest i) else .testFinished i,
        program)
  -- The test of flag 1 behind this one decides on a text only.
  | .testFinished i =>
      some (if program.world.rProc.flag = 3 then .createThread i else .leave .ending, program)
  | .createThread i => some (.clearFlag i, { program with parsed := program.parsed ++ [i] })
  | .clearFlag i => some (.leave (Sys.whileTest (i + 1)), program.setFlag 0)
  | .outside .ending =>
      some (if program.world.rProc.flag = 2 then .deinitFile .testHandle else .finalClear, program)
  | .deinitFile closing =>
      match program.world.closing closing with
      | (some closing, world) => some (.deinitFile closing, { program with world := world })
      | (none, world) => some (.deleteFile, { program with world := world })
  | .deleteFile => some (.finalClear, program.deleteFile succeeds)
  | .finalClear => some (.outside .ended, program.setFlag 0)
  | .outside .stopping => program.enter k .testOpen
  | .testOpen =>
      some (if program.pcio = none then .leave .ended else .deleteObject, program)
  | .deleteObject =>
      some (.nullPointer,
        { program with
          alive := program.pcio.elim program.alive program.alive.erase })
  | .nullPointer => some (.leave .ended, { program with pcio := none })
  | .leave next => some (.outside next, { program with mainCs := none })
  | .outside .ended => none

inductive Label
  | pressSync
  | pressStop
  | thread (k : Nat) (succeeds : Bool)
  | deliver (k : Nat) (buf : List UInt8)
  | reader (k : Nat) (results : FileResults)

def step (program : Program) : Label → Option Program
  | .pressSync => some { program with threads := program.threads ++ [.outside .start] }
  | .pressStop => some { program with threads := program.threads ++ [.outside .stopping] }
  | .thread k succeeds =>
      program.threads[k]?.bind fun statement =>
        (program.execute k succeeds statement).map fun (after, moved) =>
          { moved with threads := program.threads.set k after }
  | .deliver k buf =>
      if program.readers[k]? = some .waiting ∧ 1 ≤ buf.length ∧ buf.length ≤ 1024 then
        some { program with readers := program.readers.set k (.proc buf) }
      else none
  | .reader k results =>
      program.readers[k]?.bind fun reader =>
        (program.world.handle results reader).map fun (after, world) =>
          { program with world := world, readers := program.readers.set k after }

def Step (program : Program) (label : Label) (next : Program) : Prop :=
  program.step label = some next

inductive Stepped (program : Program) : Label → Program → Prop
  | pressedSync :
      Stepped program .pressSync { program with threads := program.threads ++ [.outside .start] }
  | pressedStop :
      Stepped program .pressStop { program with threads := program.threads ++ [.outside .stopping] }
  | executed {k : Nat} {succeeds : Bool} {statement after : Statement} {moved : Program}
      (standing : program.threads[k]? = some statement)
      (executed : program.execute k succeeds statement = some (after, moved)) :
      Stepped program (.thread k succeeds) { moved with threads := program.threads.set k after }
  | delivered {k : Nat} {buf : List UInt8} (standing : program.readers[k]? = some .waiting)
      (length : 1 ≤ buf.length ∧ buf.length ≤ 1024) :
      Stepped program (.deliver k buf)
        { program with readers := program.readers.set k (.proc buf) }
  | handled {k : Nat} {results : FileResults} {reader after : Reader} {world : World}
      (standing : program.readers[k]? = some reader)
      (handled : program.world.handle results reader = some (after, world)) :
      Stepped program (.reader k results)
        { program with world := world, readers := program.readers.set k after }

theorem step_stepped {program next : Program} {label : Label} (taken : Step program label next) :
    Stepped program label next := by
  unfold Step step at taken
  cases label with
  | pressSync =>
      cases taken
      exact .pressedSync
  | pressStop =>
      cases taken
      exact .pressedStop
  | thread k succeeds =>
      rcases Option.bind_eq_some_iff.mp taken with ⟨statement, standing, rest⟩
      rcases Option.map_eq_some_iff.mp rest with ⟨⟨after, moved⟩, executed, rfl⟩
      exact .executed standing executed
  | deliver k buf =>
      rcases Option.ite_none_right_eq_some.mp taken with ⟨⟨standing, length⟩, ⟨⟩⟩
      exact .delivered standing length
  | reader k results =>
      rcases Option.bind_eq_some_iff.mp taken with ⟨reader, standing, rest⟩
      rcases Option.map_eq_some_iff.mp rest with ⟨⟨after, world⟩, handled, rfl⟩
      exact .handled standing handled

end Program

end CosmosPC
