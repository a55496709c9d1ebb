import CosmosPC.Sync.Preservation
import CosmosPC.Sync.Statements

/-! # The logs that are already there, statement by statement

`proc` and what `doSync` does behind its loop are not under `main_cs`, and their
statements come in between those of a section. A log that is there at the start
is safe from that: no variable that a file is opened or deleted by ever has its
number. -/

namespace CosmosPC

/-- The numbers that the program may have a file under: those of six digits that
had none, and the 0 that the reader starts with. -/
def Spare (disk : Disk) (name : Nat) : Prop :=
  name = 0 ∨ 1 ≤ name ∧ name < 1000000 ∧ disk name = none

def Reader.Spares (disk : Disk) : Reader → Prop
  | .closeLast name _ => Spare disk name
  | .nameLast name => Spare disk name
  | .createFile name => Spare disk name
  | _ => True

def Statement.Spares (disk : Disk) : Statement → Prop
  | .outside place => place.Small
  | .leave next => next.Small
  | .testStopped i => (Place.loop i).Small
  | .testIdle i => (Place.loop i).Small
  | .checkFile i => (Place.loop i).Small
  | .testWriting i => (Place.loop i).Small
  | .testFinished i => (Place.loop i).Small
  | .createThread i => (Place.loop i).Small
  | .clearFlag i => (Place.loop i).Small
  | .markAsked i => 1 ≤ i ∧ i < 1000000 ∧ disk i = none
  | .nameFile i => 1 ≤ i ∧ i < 1000000 ∧ disk i = none
  | .writeCom i => 1 ≤ i ∧ i < 1000000 ∧ disk i = none
  | _ => True

namespace World

/-- The reader keeps to spare numbers, and so does what has changed on disk. -/
structure Harmless (disk : Disk) (world : World) : Prop where
  named : Spare disk world.rProc.dwName
  last : ∀ name, world.rProc.szLastFile = some name → Spare disk name
  handle : ∀ name, world.rProc.hfile = .file name → Spare disk name
  changed : ∀ name, world.disk name ≠ disk name → Spare disk name

variable {disk : Disk} {world next : World}

theorem Harmless.changes (harmless : Harmless disk world) {own : Nat} (spare : Spare disk own)
    {content : Option (List UInt8)} :
    ∀ name, Function.update world.disk own content name ≠ disk name → Spare disk name := by
  intro name different
  by_cases same : name = own
  · exact same ▸ spare
  · rw [Function.update_of_ne same] at different
    exact harmless.changed name different

theorem Harmless.absent (harmless : Harmless disk world) {i : Nat} (positive : 1 ≤ i)
    (absent : world.disk i = none) : disk i = none := by
  by_contra present
  have changed : world.disk i ≠ disk i := fun same => present (same ▸ absent)
  rcases harmless.changed i changed with zero | ⟨_, _, missing⟩
  · omega
  · exact present missing

theorem Harmless.closing (harmless : Harmless disk world) {closing : Closing}
    {goesOn : Option Closing} (step : world.closing closing = (goesOn, next)) :
    Harmless disk next := by
  cases closing with
  | testHandle =>
      cases step
      exact harmless
  | closeHandle =>
      cases step
      unfold closeHandle
      split
      · exact ⟨harmless.named, harmless.last, fun _ same => (by cases same), harmless.changed⟩
      · exact harmless
  | nullHandle =>
      cases step
      exact ⟨harmless.named, harmless.last, fun _ same => (by cases same), harmless.changed⟩

theorem Harmless.writeFile (harmless : Harmless disk world) {results : FileResults}
    {buf : List UInt8} {w : Nat} (written : world.writeFile results buf = some (w, next)) :
    Harmless disk next := by
  unfold World.writeFile at written
  cases handle : world.rProc.hfile with
  | null =>
      rw [handle] at written
      cases written
  | invalid =>
      rw [handle] at written
      cases written
  | file name =>
      rw [handle] at written
      rcases Option.map_eq_some_iff.mp written with ⟨count, _, same⟩
      cases same
      exact ⟨harmless.named, harmless.last, harmless.handle,
        harmless.changes (harmless.handle name handle)⟩

theorem Harmless.handled (harmless : Harmless disk world) {results : FileResults}
    {reader after : Reader} (spares : reader.Spares disk)
    (handled : world.handle results reader = some (after, next)) :
    Harmless disk next ∧ after.Spares disk := by
  have kept (rProc : CosmosReadCommProc) (rate : Nat) (named : rProc.dwName = world.rProc.dwName)
      (last : rProc.szLastFile = world.rProc.szLastFile) (file : rProc.hfile = world.rProc.hfile) :
      Harmless disk ⟨rProc, rate, world.disk⟩ := by
    refine ⟨?_, ?_, ?_, harmless.changed⟩
    · rw [named]
      exact harmless.named
    · rw [last]
      exact harmless.last
    · rw [file]
      exact harmless.handle
  cases reader with
  | waiting => cases handled
  | proc buf =>
      cases handled
      refine ⟨harmless, ?_⟩
      unfold findTag
      split <;> exact trivial
  | fsize _ | resetTotal _ | setFileSize _ | notFound | startWriting | addTotal _ | finish =>
      cases handled
      exact ⟨kept _ _ rfl rfl rfl, trivial⟩
  | testSize | content _ | testTotal =>
      cases handled
      refine ⟨harmless, ?_⟩
      split <;> exact trivial
  | initFile =>
      cases handled
      exact ⟨harmless, harmless.named⟩
  | closeLast name closing =>
      simp only [World.handle] at handled
      split at handled
      case h_1 step =>
          cases handled
          exact ⟨harmless.closing step, spares⟩
      case h_2 step =>
          cases handled
          exact ⟨harmless.closing step, spares⟩
  | nameLast name =>
      cases handled
      exact ⟨⟨harmless.named, fun _ same => Option.some.inj same ▸ spares, harmless.handle,
        harmless.changed⟩, spares⟩
  | createFile name =>
      cases handled
      refine ⟨⟨harmless.named, harmless.last, ?_, ?_⟩, trivial⟩
      · intro other opened
        cases created : results.created <;> simp [created] at opened
        exact opened ▸ spares
      · cases created : results.created
        · exact harmless.changed
        · exact harmless.changes spares
  | writeFile buf =>
      simp only [World.handle] at handled
      split at handled
      case h_1 written =>
          cases handled
          exact ⟨harmless.writeFile written, trivial⟩
      case h_2 =>
          cases handled
          exact ⟨harmless, trivial⟩
  | setRate =>
      rcases Option.ite_none_left_eq_some.mp handled with ⟨_, ⟨⟩⟩
      exact ⟨kept _ _ rfl rfl rfl, trivial⟩
  | deinitFile closing =>
      simp only [World.handle] at handled
      split at handled
      case h_1 step =>
          cases handled
          exact ⟨harmless.closing step, trivial⟩
      case h_2 step =>
          cases handled
          exact ⟨harmless.closing step, trivial⟩

end World

namespace Program

/-- Only what was missing is asked for, and only that is ever opened or deleted. -/
structure Harmless (disk : Disk) (program : Program) : Prop where
  world : program.world.Harmless disk
  missing : ∀ request ∈ program.requests,
    ∃ i, 1 ≤ i ∧ i < 1000000 ∧ request = freadRequest i ∧ disk i = none
  threads : ∀ statement ∈ program.threads, statement.Spares disk
  readers : ∀ reader ∈ program.readers, reader.Spares disk

variable {disk : Disk} {program moved : Program} {statement after : Statement} {k : Nat}
  {succeeds : Bool}

theorem Harmless.initially (disk : Disk) : Harmless disk (.initial disk) where
  world :=
    { named := Or.inl rfl
      last _ named := by cases named
      handle _ opened := by cases opened
      changed _ changed := absurd rfl changed }
  missing _ member := by cases member
  threads _ member := by cases member
  readers _ member := by cases member

theorem Harmless.deleteFile (harmless : program.world.Harmless disk) :
    (program.deleteFile succeeds).world.Harmless disk := by
  unfold Program.deleteFile
  cases last : program.world.rProc.szLastFile with
  | none => exact harmless
  | some name =>
      dsimp only
      split
      · exact ⟨harmless.named, harmless.last, harmless.handle,
          harmless.changes (harmless.last name last)⟩
      · exact harmless

theorem Harmless.setFlag (harmless : program.world.Harmless disk) (flag : Nat) :
    (program.setFlag flag).world.Harmless disk :=
  ⟨harmless.named, harmless.last, harmless.handle, harmless.changed⟩

structure Left (disk : Disk) (moved : Program) (after : Statement) : Prop where
  world : moved.world.Harmless disk
  missing : ∀ request ∈ moved.requests,
    ∃ i, 1 ≤ i ∧ i < 1000000 ∧ request = freadRequest i ∧ disk i = none
  readers : ∀ reader ∈ moved.readers, reader.Spares disk
  after : after.Spares disk

theorem Harmless.left (harmless : Harmless disk program) (world : moved.world = program.world)
    (requests : moved.requests = program.requests) (readers : moved.readers = program.readers)
    (spares : after.Spares disk) : Left disk moved after :=
  ⟨world ▸ harmless.world, requests ▸ harmless.missing, readers ▸ harmless.readers, spares⟩

theorem Harmless.tested (harmless : Harmless disk program) {test : Prop} [Decidable test]
    {yes no : Statement} (first : test → yes.Spares disk) (second : ¬test → no.Spares disk) :
    Left disk program (if test then yes else no) := by
  refine harmless.left rfl rfl rfl ?_
  split
  case isTrue holds => exact first holds
  case isFalse fails => exact second fails

theorem Harmless.enters (harmless : Harmless disk program) {first : Statement}
    (taken : program.enter k first = some (after, moved)) (spares : first.Spares disk) :
    Left disk moved after := by
  rcases Option.ite_none_right_eq_some.mp taken with ⟨_, ⟨⟩⟩
  exact harmless.left rfl rfl rfl spares

theorem Harmless.executed (harmless : Harmless disk program) (spares : statement.Spares disk)
    (executed : program.execute k succeeds statement = some (after, moved))
    (truthful : ∀ i, statement = .checkFile i →
      (program.world.disk i).isSome = true → succeeds = true) : Left disk moved after := by
  have first : (Place.loop 1).Small := fun i same => by
    cases same
    exact ⟨Nat.le_refl 1, by decide⟩
  have other {place : Place} (elsewhere : ∀ i, place ≠ .loop i) : place.Small :=
    Place.small_of_ne elsewhere
  have onward (i : Nat) : (Sys.whileTest (i + 1)).Small :=
    Place.small_whileTest (Nat.le_add_left 1 i)
  cases statement with
  | outside place =>
      cases place with
      | start =>
          cases executed
          refine harmless.left rfl rfl rfl ?_
          split
          · exact other (by simp)
          · exact first
      | connect => exact harmless.enters executed trivial
      | loop i => exact harmless.enters executed spares
      | ending =>
          cases executed
          exact harmless.tested (fun _ => trivial) fun _ => trivial
      | stopping => exact harmless.enters executed trivial
      | ended => cases executed
  | newCosmosSpp | initCom | deleteObject =>
      cases executed
      exact harmless.left rfl rfl rfl trivial
  | createThread _ | leave _ =>
      cases executed
      exact harmless.left rfl rfl rfl spares
  | nullPointer =>
      cases executed
      exact harmless.left rfl rfl rfl (other (by simp))
  | regReadClass =>
      cases executed
      refine ⟨harmless.world, harmless.missing, fun reader member => ?_, first⟩
      rcases List.mem_append.mp member with before | new
      · exact harmless.readers reader before
      · rw [List.mem_singleton.mp new]
        exact trivial
  | testStopped _ =>
      cases executed
      exact harmless.tested (fun _ => other (by simp)) fun _ => spares
  | testIdle _ =>
      cases executed
      exact harmless.tested (fun _ => spares) fun _ => spares
  | checkFile i =>
      cases executed
      rcases spares i rfl with ⟨positive, below⟩
      refine harmless.tested (fun _ => onward i) fun unseen => ⟨positive, below, ?_⟩
      have absent : ¬(program.world.disk i).isSome := fun present =>
        unseen ⟨present, truthful i rfl present⟩
      exact harmless.world.absent positive (Option.not_isSome_iff_eq_none.mp absent)
  | markAsked _ =>
      cases executed
      exact ⟨Harmless.setFlag harmless.world 1, harmless.missing, harmless.readers, spares⟩
  | nameFile _ =>
      cases executed
      have world := harmless.world
      exact ⟨⟨Or.inr spares, world.last, world.handle, world.changed⟩, harmless.missing,
        harmless.readers, spares⟩
  | writeCom i =>
      cases executed
      refine ⟨harmless.world, fun request member => ?_, harmless.readers,
        Place.small_whileTest spares.1⟩
      rcases List.mem_append.mp member with before | new
      · exact harmless.missing request before
      · exact ⟨i, spares.1, spares.2.1, List.mem_singleton.mp new, spares.2.2⟩
  | testWriting i =>
      cases executed
      exact harmless.tested (fun _ => Place.small_whileTest (spares i rfl).1) fun _ => spares
  | testFinished _ =>
      cases executed
      exact harmless.tested (fun _ => spares) fun _ => other (by simp)
  | clearFlag i =>
      cases executed
      exact ⟨Harmless.setFlag harmless.world 0, harmless.missing, harmless.readers, onward i⟩
  | testOpen =>
      cases executed
      exact harmless.tested (fun _ => other (by simp)) fun _ => trivial
  | deinitFile closing =>
      simp only [execute] at executed
      split at executed
      case h_1 step =>
          cases executed
          exact ⟨harmless.world.closing step, harmless.missing, harmless.readers, trivial⟩
      case h_2 step =>
          cases executed
          exact ⟨harmless.world.closing step, harmless.missing, harmless.readers, trivial⟩
  | deleteFile =>
      cases executed
      have same : (program.deleteFile succeeds).requests = program.requests ∧
          (program.deleteFile succeeds).readers = program.readers := by
        unfold Program.deleteFile
        split
        · exact ⟨rfl, rfl⟩
        · split <;> exact ⟨rfl, rfl⟩
      exact ⟨Harmless.deleteFile harmless.world, same.1 ▸ harmless.missing,
        same.2 ▸ harmless.readers, trivial⟩
  | finalClear =>
      cases executed
      exact ⟨Harmless.setFlag harmless.world 0, harmless.missing, harmless.readers,
        other (by simp)⟩

/-- `checkFileExist` tells the truth: its `CreateFile` succeeds on a file that is
there. A log for which it fails is asked for again, and overwritten. -/
def Truthful (program : Program) : Label → Prop
  | .thread k succeeds => ∀ i, program.threads[k]? = some (.checkFile i) →
      (program.world.disk i).isSome = true → succeeds = true
  | _ => True

def Label.reliable : Label → Bool
  | .thread _ succeeds => succeeds
  | _ => true

theorem truthful_of_reliable {label : Label} (reliable : label.reliable = true) :
    program.Truthful label := by
  cases label with
  | thread k own => exact fun _ _ _ => reliable
  | _ => exact trivial

theorem Harmless.step {next : Program} {label : Label} (harmless : Harmless disk program)
    (step : Step program label next) (truthful : program.Truthful label) :
    Harmless disk next := by
  have added {place : Place} (elsewhere : ∀ i, place ≠ .loop i) :
      ∀ statement ∈ program.threads ++ [.outside place], statement.Spares disk := by
    intro statement member
    rcases List.mem_append.mp member with before | new
    · exact harmless.threads statement before
    · rw [List.mem_singleton.mp new]
      exact Place.small_of_ne elsewhere
  cases step_stepped step with
  | pressedSync => exact ⟨harmless.world, harmless.missing, added (by simp), harmless.readers⟩
  | pressedStop => exact ⟨harmless.world, harmless.missing, added (by simp), harmless.readers⟩
  | @executed k _ _ _ _ standing executed =>
      rcases harmless.executed (harmless.threads _ (List.mem_of_getElem? standing)) executed
          fun i same => truthful i (same ▸ standing) with
        ⟨world, missing, readers, after⟩
      exact ⟨world, missing, Sys.all_set harmless.threads k after, readers⟩
  | @delivered k =>
      exact ⟨harmless.world, harmless.missing, harmless.threads,
        Sys.all_set harmless.readers k trivial⟩
  | @handled k _ _ _ _ standing handled =>
      rcases harmless.world.handled (harmless.readers _ (List.mem_of_getElem? standing)) handled
        with ⟨world, after⟩
      exact ⟨world, harmless.missing, harmless.threads, Sys.all_set harmless.readers k after⟩

/-- Whatever order the statements of any number of threads and of `proc` come
in, and whatever becomes of the other file operations, as long as
`checkFileExist` tells the truth: only files of numbers that had none at the
start are touched, and only those are asked for. A log that is there stays as it
is. -/
theorem statements_keep_logs (disk : Disk) (labels : List Label) (program : Program)
    (run : Run (Guarded Step Truthful) (.initial disk) labels program) :
    (∀ name, program.world.disk name ≠ disk name →
        name = 0 ∨ 1 ≤ name ∧ name < 1000000 ∧ disk name = none) ∧
      (∀ request ∈ program.requests,
        ∃ i, 1 ≤ i ∧ i < 1000000 ∧ request = freadRequest i ∧ disk i = none) ∧
      ∀ name content, 1 ≤ name → disk name = some content →
        program.world.disk name = some content := by
  have harmless : Harmless disk program :=
    run.invariant (.initially disk) fun _ _ _ holds step => holds.step step.1 step.2
  refine ⟨harmless.world.changed, harmless.missing, fun name content positive present => ?_⟩
  by_contra different
  rw [← present] at different
  rcases harmless.world.changed name different with zero | ⟨_, _, absent⟩
  · omega
  · cases absent.symm.trans present

/-- The second log is asked for and downloaded; its reply is handled before the
request has been sent. -/
def earlyReply : List Label :=
  .pressSync :: List.replicate 17 (.thread 0 true) ++
    .deliver 0 (freadLine 1) :: List.replicate 9 (.reader 0 .full) ++
    .thread 0 true :: .deliver 0 [65] :: List.replicate 10 (.reader 0 .full)

theorem statements_keep_logs_early_reply :
    ∃ program, Run (Guarded Step Truthful)
        (.initial fun name => if name = 1 then some [66] else none) earlyReply program ∧
      program.world.disk 2 = some [65] ∧ program.world.rProc.flag = 3 ∧
      program.world.disk 1 = some [66] := by
  have run : ∃ program, Run Step (.initial fun name => if name = 1 then some [66] else none)
      earlyReply program ∧ program.world.disk 2 = some [65] ∧ program.world.rProc.flag = 3 :=
    ⟨_, Run.of_foldlM step rfl, rfl, rfl⟩
  rcases run with ⟨program, run, second, finished⟩
  have all : earlyReply.all Label.reliable = true := rfl
  have truthful : Run (Guarded Step Truthful) _ earlyReply program :=
    run.guarded fun label member _ =>
      truthful_of_reliable (List.all_eq_true.mp all label member)
  have kept :=
    (statements_keep_logs _ earlyReply program truthful).2.2 1 [66] (Nat.le_refl 1) rfl
  exact ⟨program, truthful, second, finished, kept⟩

end Program

end CosmosPC
