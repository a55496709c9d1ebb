import Mathlib.Data.List.Forall2
import Mathlib.Logic.Relation
import CosmosPC.Sync.Statements

/-! # Sections as single steps

A thread whose statements nothing comes in between does what one step of the
model of sections does: that model is the program as it runs undisturbed. -/

namespace CosmosPC

namespace World

variable {world after : World} {results : FileResults} {buf : List UInt8}

theorem closing_closes (world : World) :
    ∃ last before, Relation.ReflTransGen
        (fun point next : Closing × World => point.2.closing point.1 = (some next.1, next.2))
        (.testHandle, world) (last, before) ∧ before.closing last = (none, world.deinitFile) := by
  by_cases null : world.rProc.hfile = .null
  · refine ⟨.testHandle, world, .refl, ?_⟩
    rcases world with ⟨⟨flag, dwName, szLastFile, hfile, fileSize, totalRecv⟩, rate, disk⟩
    cases null
    rfl
  · refine ⟨.nullHandle, world.closeHandle, ?_, ?_⟩
    · refine .head (b := (.closeHandle, world)) ?_ (.single rfl)
      simp [closing, null]
    · unfold closing closeHandle deinitFile
      cases handle : world.rProc.hfile <;> rfl

def Undisturbed (results : FileResults) : Reader × World → Reader × World → Prop :=
  Relation.ReflTransGen fun point next => point.2.handle results point.1 = some next

theorem undisturbed_closing (around : Closing → Reader) (behind : Reader)
    (goesOn : ∀ (world : World) closing, world.handle results (around closing) =
      match world.closing closing with
      | (some closing, world) => some (around closing, world)
      | (none, world) => some (behind, world)) :
    Undisturbed results (around .testHandle, world) (behind, world.deinitFile) := by
  rcases closing_closes world with ⟨last, before, closes, closed⟩
  refine .tail (b := (around last, before)) ?_ (by rw [goesOn, closed])
  refine closes.lift (fun point => (around point.1, point.2)) fun point next step => ?_
  change point.2.handle results (around point.1) = some (around next.1, next.2)
  rw [goesOn, step]

theorem undisturbed_initFile :
    Undisturbed results (.initFile, world)
      (.waiting, world.initFile results world.rProc.dwName) := by
  have closes : Undisturbed results (.closeLast world.rProc.dwName .testHandle, world)
      (.nameLast world.rProc.dwName, world.deinitFile) :=
    undisturbed_closing (.closeLast world.rProc.dwName) _ fun _ _ => rfl
  exact .head rfl (closes.tail rfl |>.tail rfl)

theorem undisturbed_fread (size : Nat) :
    Undisturbed results (.resetTotal size, world) (.waiting, world.fread results size) := by
  unfold fread
  by_cases zero : size = 0
  · subst zero
    exact .head rfl (.head rfl (.head rfl (.single rfl)))
  · rw [if_neg zero]
    let cleared : World :=
      { world with rProc := { world.rProc with totalRecv := 0, fileSize := size } }
    have tested : cleared.handle results .testSize = some (.startWriting, cleared) :=
      congrArg some (Prod.ext (if_neg zero) rfl)
    exact .head rfl (.head (b := (.testSize, cleared)) rfl
      (.head tested (.head rfl undisturbed_initFile)))

theorem undisturbed_content (taken : world.content results buf = some after) :
    Undisturbed results (.content buf, world) (.waiting, after) := by
  unfold content at taken
  by_cases writing : world.rProc.flag = 2
  · rw [if_pos writing] at taken
    refine .head (b := (.writeFile buf, world)) (congrArg some (Prod.ext (if_pos writing) rfl)) ?_
    cases written : world.writeFile results buf with
    | none =>
        rw [written] at taken
        cases taken
        exact .single (by simp [handle, written])
    | some counted =>
        rcases counted with ⟨w, stored⟩
        rw [written] at taken
        dsimp only at taken
        refine .head (b := (.addTotal w, stored)) (by simp [handle, written]) (.head rfl ?_)
        by_cases zero : stored.rProc.fileSize = 0
        · rw [if_pos zero] at taken
          cases taken
        · rw [if_neg zero] at taken
          let counted : World :=
            { stored with rProc := { stored.rProc with
              totalRecv := (stored.rProc.totalRecv + w) % 2 ^ 32 } }
          have divided : counted.handle results .setRate = some (.testTotal,
              { counted with
                rate := 100 * counted.rProc.totalRecv % 2 ^ 32 / counted.rProc.fileSize }) :=
            if_neg zero
          refine .head divided ?_
          by_cases full : (stored.rProc.totalRecv + w) % 2 ^ 32 ≥ stored.rProc.fileSize
          · rw [if_pos full] at taken
            cases taken
            refine .head (b := (.deinitFile .testHandle, _))
              (congrArg some (Prod.ext (if_pos full) rfl)) ?_
            exact (undisturbed_closing .deinitFile .finish fun _ _ => rfl).tail rfl
          · rw [if_neg full] at taken
            cases taken
            exact .single (congrArg some (Prod.ext (if_neg full) rfl))
  · rw [if_neg writing] at taken
    cases taken
    exact .single (congrArg some (Prod.ext (if_neg writing) rfl))

theorem undisturbed_proc (taken : world.proc results buf = some after) :
    Undisturbed results (.proc buf, world) (.waiting, after) := by
  refine .head (b := (findTag buf, world)) rfl ?_
  cases reply : findReply buf with
  | none =>
      have tag : findTag buf = .content buf := by simp only [findTag, reply]
      simp only [proc, reply] at taken
      rw [tag]
      exact undisturbed_content taken
  | some found =>
      rcases found with ⟨index, text⟩
      by_cases size : index = 2
      · subst size
        have tag : findTag buf = .fsize (dword (strtol text)) := by simp only [findTag, reply]
        simp only [proc, reply] at taken
        cases taken
        rw [tag]
        exact .single rfl
      · by_cases read : index = 3
        · subst read
          have tag : findTag buf = .resetTotal (dword (strtol text)) := by
            simp only [findTag, reply]
          simp only [proc, reply] at taken
          cases taken
          rw [tag]
          exact undisturbed_fread _
        · have tag : findTag buf = .waiting := by simp [findTag, reply, size, read]
          have ignored : world.proc results buf = some world := by
            simp [proc, reply, size, read]
          cases ignored.symm.trans taken
          exact tag ▸ .refl

end World

namespace Program

variable {program : Program} {statement : Statement} {k : Nat}

/-- Statements of thread `k` with no others in between. -/
def Alone (k : Nat) : Statement × Program → Statement × Program → Prop :=
  Relation.ReflTransGen fun point next => point.2.execute k true point.1 = some next

theorem execute_threads (threads : List Statement) {succeeds : Bool} {after : Statement}
    {moved : Program} (executed : program.execute k succeeds statement = some (after, moved)) :
    Program.execute { program with threads := threads } k succeeds statement =
      some (after, { moved with threads := threads }) := by
  cases statement with
  | outside place =>
      cases place with
      | ended => cases executed
      | start =>
          cases executed
          rfl
      | ending =>
          cases executed
          rfl
      | connect =>
          rcases Option.ite_none_right_eq_some.mp executed with ⟨free, ⟨⟩⟩
          exact if_pos free
      | loop i =>
          rcases Option.ite_none_right_eq_some.mp executed with ⟨free, ⟨⟩⟩
          exact if_pos free
      | stopping =>
          rcases Option.ite_none_right_eq_some.mp executed with ⟨free, ⟨⟩⟩
          exact if_pos free
  | deinitFile closing =>
      simp only [execute] at executed ⊢
      split at executed
      · cases executed
        rfl
      · cases executed
        rfl
  | deleteFile =>
      cases executed
      unfold execute deleteFile
      dsimp only
      split
      · rfl
      · split <;> rfl
  | _ =>
      cases executed
      rfl

/-- The labels of one step of the model of sections: statements of one thread
that succeed, or a read and the statements of `proc` that handle it. -/
inductive Block : Sys.Label → List Label → Prop
  | pressSync : Block .pressSync [.pressSync]
  | pressStop : Block .pressStop [.pressStop]
  | thread (k count : Nat) : Block (.thread k) (List.replicate count (.thread k true))
  | proc (results : FileResults) (buf : List UInt8) (count : Nat) :
      Block (.proc results buf) (.deliver 0 buf :: List.replicate count (.reader 0 results))

theorem run_alone {point : Statement × Program} (standing : program.threads[k]? = some statement)
    (alone : Alone k (statement, program) point) :
    ∃ count, Run Step program (List.replicate count (.thread k true))
      { point.2 with threads := program.threads.set k point.1 } := by
  rcases List.getElem?_eq_some_iff.mp standing with ⟨bound, found⟩
  induction alone with
  | refl =>
      refine ⟨0, ?_⟩
      dsimp only [List.replicate_zero]
      rw [← found, List.set_getElem_self]
      exact .nil program
  | @tail middle last _ executed induction =>
      rcases induction with ⟨count, run⟩
      refine ⟨count + 1, ?_⟩
      rw [List.replicate_succ']
      refine run.append (.single ?_)
      have moved := execute_threads (program.threads.set k middle.1) executed
      simp only [Step, step, List.getElem?_set_self bound, Option.bind_some, moved,
        Option.map_some, List.set_set]

theorem run_undisturbed {results : FileResults} {buf : List UInt8} {world : World}
    (standing : program.readers[k]? = some .waiting)
    (length : 1 ≤ buf.length ∧ buf.length ≤ 1024)
    (taken : program.world.proc results buf = some world) :
    ∃ count, Run Step program (.deliver k buf :: List.replicate count (.reader k results))
      { program with world := world } := by
  rcases List.getElem?_eq_some_iff.mp standing with ⟨bound, found⟩
  have delivered : Step program (.deliver k buf)
      { program with readers := program.readers.set k (.proc buf) } :=
    if_pos ⟨standing, length⟩
  have handles {point : Reader × World}
      (undisturbed : World.Undisturbed results (.proc buf, program.world) point) :
      ∃ count, Run Step program (.deliver k buf :: List.replicate count (.reader k results))
        { program with world := point.2, readers := program.readers.set k point.1 } := by
    induction undisturbed with
    | refl => exact ⟨0, .single delivered⟩
    | @tail middle last _ handled induction =>
        rcases induction with ⟨count, run⟩
        refine ⟨count + 1, ?_⟩
        rw [List.replicate_succ', ← List.cons_append]
        refine run.append (.single ?_)
        simp only [Step, step, List.getElem?_set_self bound, Option.bind_some, handled,
          Option.map_some, List.set_set]
  rcases handles (World.undisturbed_proc taken) with ⟨count, run⟩
  refine ⟨count, ?_⟩
  dsimp only at run
  rwa [← found, List.set_getElem_self] at run

/-! ## The model of sections -/

def ofSys (sys : Sys) : Program where
  world := sys.world
  pcio := sys.pcio
  alive := sys.alive
  made := sys.made
  threads := sys.threads.map .outside
  readers := List.replicate sys.made .waiting
  requests := sys.requests
  parsed := sys.parsed

def within (k : Nat) (sys : Sys) : Program := { ofSys sys with mainCs := some k }

variable {sys moved : Sys} {i : Nat} {place after : Place}

theorem alone_pos {test : Prop} [Decidable test] {yes no : Statement}
    (tests : program.execute k true statement = some (if test then yes else no, program))
    (holds : test) : Alone k (statement, program) (yes, program) :=
  .single (by rw [tests, if_pos holds])

theorem alone_neg {test : Prop} [Decidable test] {yes no : Statement}
    (tests : program.execute k true statement = some (if test then yes else no, program))
    (fails : ¬test) : Alone k (statement, program) (no, program) :=
  .single (by rw [tests, if_neg fails])

theorem alone_connected (connected : sys.pcio ≠ none) :
    Alone k (.outside (.loop i), ofSys sys) (.testIdle i, within k sys) :=
  .head (b := (.testStopped i, within k sys)) rfl (alone_neg rfl connected)

theorem alone_busy (connected : sys.pcio ≠ none) (busy : sys.world.rProc.flag ≠ 0) :
    Alone k (.outside (.loop i), ofSys sys) (.testWriting i, within k sys) :=
  (alone_connected connected).trans (alone_neg rfl busy)

theorem alone_done (connected : sys.pcio ≠ none) (busy : sys.world.rProc.flag ≠ 0)
    (done : sys.world.rProc.flag ≠ 2) :
    Alone k (.outside (.loop i), ofSys sys) (.testFinished i, within k sys) :=
  (alone_busy connected busy).trans (alone_neg rfl done)

theorem alone_of_iterated (iterated : Sys.Iterated sys i after moved)
    (connected : sys.pcio ≠ none) :
    Alone k (.outside (.loop i), ofSys sys) (.outside after, ofSys moved) := by
  have leaves (next : Place) : Alone k (.leave next, within k sys) (.outside next, ofSys sys) :=
    .single rfl
  cases iterated with
  | closed closed => exact absurd closed connected
  | skipped idle present =>
      have seen : (sys.world.disk i).isSome = true ∧ true = true := ⟨present, rfl⟩
      exact (alone_connected connected).trans <| (alone_pos rfl idle).trans <|
        (alone_pos rfl seen).trans (leaves _)
  | requested idle absent =>
      have asks : Alone k (.markAsked i, within k sys)
          (.outside (Sys.whileTest i), ofSys (sys.request i)) :=
        .head rfl (.head rfl (.head rfl (.single rfl)))
      have missing : ¬((sys.world.disk i).isSome = true ∧ true = true) := by simp [absent]
      exact (alone_connected connected).trans <| (alone_pos rfl idle).trans <|
        (alone_neg rfl missing).trans asks
  | waited writing =>
      have busy : sys.world.rProc.flag ≠ 0 := fun idle => by cases writing.symm.trans idle
      exact (alone_busy connected busy).trans <| (alone_pos rfl writing).trans (leaves _)
  | parsed finished =>
      have busy : sys.world.rProc.flag ≠ 0 := fun idle => by cases finished.symm.trans idle
      have done : sys.world.rProc.flag ≠ 2 := fun two => by cases finished.symm.trans two
      have parses : Alone k (.createThread i, within k sys)
          (.outside (Sys.whileTest (i + 1)), ofSys (sys.startParse i)) :=
        .head rfl (.head rfl (.single rfl))
      exact (alone_done connected busy done).trans <| (alone_pos rfl finished).trans parses
  | refused notFound =>
      exact (alone_done connected notFound.1 notFound.2.1).trans <|
        (alone_neg rfl notFound.2.2).trans (leaves _)

theorem execute_closing {world next : World} {closing goesOn : Closing}
    (step : world.closing closing = (some goesOn, next)) :
    Program.execute { program with world := world } k true (.deinitFile closing) =
      some (.deinitFile goesOn, { program with world := next }) := by
  simp only [execute, step]

theorem alone_closing (program : Program) (world : World) :
    Alone k (.deinitFile .testHandle, { program with world := world })
      (.deleteFile, { program with world := world.deinitFile }) := by
  rcases World.closing_closes world with ⟨last, before, closes, closed⟩
  have lifted : Alone k (.deinitFile .testHandle, { program with world := world })
      (.deinitFile last, { program with world := before }) := by
    let around (point : Closing × World) : Statement × Program :=
      (.deinitFile point.1, { program with world := point.2 })
    exact closes.lift around fun _ _ step => execute_closing step
  exact lifted.tail (by simp only [execute, closed])

theorem alone_finish :
    Alone k (.outside .ending, ofSys sys) (.outside .ended, ofSys sys.finish) := by
  unfold Sys.finish
  by_cases writing : sys.world.rProc.flag = 2
  · rw [if_pos writing]
    have closes : Alone k (.deinitFile .testHandle, ofSys sys)
        (.deleteFile, { ofSys sys with world := sys.world.deinitFile }) :=
      alone_closing (ofSys sys) sys.world
    refine (alone_pos rfl writing).trans (closes.trans ?_)
    unfold World.deleteLastFile
    cases last : sys.world.rProc.szLastFile with
    | none =>
        refine .head (b := (.finalClear, { ofSys sys with world := sys.world.deinitFile })) ?_
          (.single rfl)
        simp [execute, deleteFile, World.deinitFile, last]
    | some name =>
        refine .head (b := (.finalClear, { ofSys sys with world :=
          { sys.world.deinitFile with disk := Function.update sys.world.disk name none } })) ?_
          (.single rfl)
        simp [execute, deleteFile, World.deinitFile, last]
  · rw [if_neg writing]
    exact (alone_neg rfl writing).tail rfl

theorem alone_stop :
    Alone k (.outside .stopping, ofSys sys) (.outside .ended, ofSys sys.disconnect) := by
  refine .head (b := (.testOpen, within k sys)) rfl ?_
  cases connection : sys.pcio with
  | none =>
      have same : sys.disconnect = sys := by simp [Sys.disconnect, connection]
      rw [same]
      exact (alone_pos rfl connection).tail rfl
  | some object =>
      have connected : sys.pcio ≠ none := by simp [connection]
      have deletes : Alone k (.deleteObject, within k sys)
          (.outside .ended, ofSys { sys with pcio := none, alive := sys.alive.erase object }) := by
        refine .head (b := (.nullPointer, { within k sys with alive := sys.alive.erase object })) ?_
          (.head rfl (.single rfl))
        simp [execute, within, ofSys, connection]
      have same : sys.disconnect = { sys with pcio := none, alive := sys.alive.erase object } := by
        simp [Sys.disconnect, connection]
      rw [same]
      exact (alone_neg rfl connected).trans deletes

theorem alone_of_advance (taken : sys.advance place = some (after, moved)) :
    Alone k (.outside place, ofSys sys) (.outside after, ofSys moved) := by
  cases place with
  | start =>
      cases taken
      by_cases closed : sys.pcio = none
      · exact .single (by simp [execute, ofSys, closed])
      · exact .single (by simp [execute, ofSys, closed])
  | connect =>
      cases taken
      have registered : (List.replicate (sys.made + 1) Reader.waiting) =
          List.replicate sys.made .waiting ++ [.waiting] := List.replicate_succ'
      refine .head (b := (.newCosmosSpp, within k sys)) rfl (.head rfl (.head rfl
        (.head (b := (.leave (.loop 1), within k sys.connect)) ?_ (.single rfl))))
      simp [execute, within, ofSys, Sys.connect, registered]
  | loop i =>
      have iterated := sys.iterate_iterated i
      rw [Option.some.inj taken] at iterated
      by_cases stopped : sys.pcio = none
      · have ends : sys.iterate i = (.ending, sys) := by simp [Sys.iterate, stopped]
        cases ends.symm.trans (Option.some.inj taken)
        exact .head (b := (.testStopped i, within k sys)) rfl ((alone_pos rfl stopped).tail rfl)
      · exact alone_of_iterated iterated stopped
  | ending =>
      cases taken
      exact alone_finish
  | stopping =>
      cases taken
      exact alone_stop
  | ended => cases taken

theorem run_of_step {next : Sys} {label : Sys.Label} (taken : Sys.Step sys label next) :
    ∃ block, Block label block ∧ Run Step (ofSys sys) block (ofSys next) := by
  unfold Sys.Step Sys.step at taken
  cases label with
  | pressSync =>
      cases taken
      refine ⟨_, .pressSync, .single ?_⟩
      simp [Step, step, ofSys]
  | pressStop =>
      cases taken
      refine ⟨_, .pressStop, .single ?_⟩
      simp [Step, step, ofSys]
  | thread k =>
      rcases Option.bind_eq_some_iff.mp taken with ⟨place, standing, rest⟩
      rcases Option.map_eq_some_iff.mp rest with ⟨⟨after, moved⟩, advanced, rfl⟩
      have stands : (ofSys sys).threads[k]? = some (.outside place) := by
        simp [ofSys, standing]
      rcases run_alone stands (alone_of_advance advanced) with ⟨count, run⟩
      refine ⟨_, .thread k count, ?_⟩
      have set : (ofSys sys).threads.set k (.outside after) =
          (sys.threads.set k after).map .outside := (List.map_set).symm
      rw [set] at run
      exact run
  | proc results buf =>
      rcases Option.ite_none_right_eq_some.mp taken with ⟨⟨made, length⟩, rest⟩
      rcases Option.map_eq_some_iff.mp rest with ⟨world, handled, rfl⟩
      have stands : (ofSys sys).readers[0]? = some .waiting := by
        simp [ofSys, made]
      rcases run_undisturbed stands length handled with ⟨count, run⟩
      exact ⟨_, .proc results buf count, run⟩

/-- Every run of the model of sections is a run of the program, statement by
statement: one block of statements after the other, in which nothing comes in
between. -/
theorem run_of_sections {first last : Sys} {labels : List Sys.Label}
    (run : Run Sys.Step first labels last) :
    ∃ blocks, List.Forall₂ Block labels blocks ∧
      Run Step (ofSys first) blocks.flatten (ofSys last) := by
  induction run with
  | nil => exact ⟨[], .nil, .nil _⟩
  | cons taken _ induction =>
      rcases run_of_step taken with ⟨block, own, begins⟩
      rcases induction with ⟨blocks, others, goesOn⟩
      exact ⟨block :: blocks, .cons own others, begins.append goesOn⟩

def downloadFirst : List Sys.Label :=
  [.pressSync, .thread 0, .thread 0, .thread 0, .proc .full (freadLine 1), .proc .full [65],
    .thread 0]

theorem run_of_sections_download :
    ∃ blocks program, List.Forall₂ Block downloadFirst blocks ∧
      Run Step (.initial fun _ => none) blocks.flatten program ∧
      program.world.disk 1 = some [65] ∧ program.parsed = [1] := by
  have run : ∃ sys, Run Sys.Step (.initial fun _ => none) downloadFirst sys ∧
      sys.world.disk 1 = some [65] ∧ sys.parsed = [1] := ⟨_, Run.of_foldlM Sys.step rfl, rfl, rfl⟩
  rcases run with ⟨sys, run, stored, parsed⟩
  rcases run_of_sections run with ⟨blocks, own, run⟩
  exact ⟨blocks, ofSys sys, own, run, stored, parsed⟩

end Program

end CosmosPC
