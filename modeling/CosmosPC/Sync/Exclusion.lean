import CosmosPC.Foundation.Sections
import CosmosPC.Sync.Statements

/-! # What `main_cs` protects

The sections of `main_cs` keep `pcio` in order: no matter which statements come
in between, a thread that goes through it finds an object that nobody has
deleted. A section is a bounded number of statements. What goes on in `ComIO`,
behind its own `cs`, is not part of this. -/

namespace CosmosPC

namespace Statement

def Inside : Statement → Prop
  | .outside _ => False
  | .deinitFile _ => False
  | .deleteFile => False
  | .finalClear => False
  | _ => True

/-- The statements that go through `pcio` to an object. -/
def Uses : Statement → Prop
  | .initCom => True
  | .regReadClass => True
  | .writeCom _ => True
  | .deleteObject => True
  | _ => False

/-- How many statements a thread has before it, up to leaving `main_cs`; one
that has still to enter has one more than any other. -/
def remaining : Statement → Nat
  | .newCosmosSpp => 4
  | .initCom => 3
  | .regReadClass => 2
  | .testStopped _ => 7
  | .testIdle _ => 6
  | .checkFile _ => 5
  | .markAsked _ => 4
  | .nameFile _ => 3
  | .writeCom _ => 2
  | .testWriting _ => 5
  | .testFinished _ => 4
  | .createThread _ => 3
  | .clearFlag _ => 2
  | .testOpen => 4
  | .deleteObject => 3
  | .nullPointer => 2
  | .leave _ => 1
  | _ => 8

end Statement

namespace Program

/-- `pcio` is null, or points to an object that has not been deleted. -/
def Valid (program : Program) : Prop :=
  ∀ object, program.pcio = some object → object ∈ program.alive

def Connected (program : Program) : Prop :=
  ∃ object, program.pcio = some object ∧ object ∈ program.alive

def Finds (program : Program) : Statement → Prop
  | .newCosmosSpp => program.Valid
  | .testStopped _ => program.Valid
  | .testOpen => program.Valid
  | .leave _ => program.Valid
  -- `StopSync` has just deleted the object.
  | .nullPointer => True
  | _ => program.Connected

theorem Connected.valid {program : Program} (connected : program.Connected) : program.Valid := by
  rcases connected with ⟨object, points, alive⟩
  intro other same
  cases points.symm.trans same
  exact alive

theorem Valid.connected {program : Program} (valid : program.Valid) (some : program.pcio ≠ none) :
    program.Connected := by
  rcases Option.ne_none_iff_exists'.mp some with ⟨object, points⟩
  exact ⟨object, points, valid object points⟩

structure Sound (program : Program) : Prop where
  numbered : ∀ object ∈ program.alive, object < program.made
  distinct : program.alive.Nodup
  guarded : Protected Statement.Inside Valid Finds program.mainCs program.threads program

variable {program moved : Program} {statement after : Statement} {k : Nat} {succeeds : Bool}

theorem Sound.initially (disk : Disk) : Sound (.initial disk) where
  numbered _ member := by cases member
  distinct := List.nodup_nil
  guarded := .initially fun _ points => by cases points

theorem valid_congr (pcio : moved.pcio = program.pcio) (alive : moved.alive = program.alive)
    (valid : program.Valid) : moved.Valid := by
  rwa [Valid, pcio, alive]

theorem finds_congr (pcio : moved.pcio = program.pcio) (alive : moved.alive = program.alive)
    {other : Statement} (finds : program.Finds other) : moved.Finds other := by
  cases other <;> simp only [Finds, Valid, Connected, pcio, alive] at finds ⊢ <;> exact finds

theorem Sound.apart (sound : Sound program) (made : moved.made = program.made)
    (alive : moved.alive = program.alive)
    (guarded : Protected Statement.Inside Valid Finds moved.mainCs moved.threads moved) :
    Sound moved := by
  refine ⟨?_, ?_, guarded⟩
  · rw [alive, made]
    exact sound.numbered
  · rw [alive]
    exact sound.distinct

structure Same (program moved : Program) : Prop where
  pcio : moved.pcio = program.pcio
  alive : moved.alive = program.alive
  made : moved.made = program.made

theorem Sound.enters (sound : Sound program) (standing : program.threads[k]? = some statement)
    {first : Statement} (taken : program.enter k first = some (after, moved))
    (within : first.Inside) (finds : program.Valid → program.Finds first) :
    Sound { moved with threads := program.threads.set k after } := by
  rcases Option.ite_none_right_eq_some.mp taken with ⟨free, ⟨⟩⟩
  have guarded := sound.guarded
  rw [free] at guarded
  refine sound.apart rfl rfl (guarded.enter standing within fun valid => ?_)
  have found := finds valid
  exact finds_congr rfl rfl found

theorem Sound.goesOn (sound : Sound program) (standing : program.threads[k]? = some statement)
    (within : statement.Inside) (stays : after.Inside) (same : Same program moved)
    (mainCs : moved.mainCs = program.mainCs)
    (finds : program.Finds statement → program.Finds after) :
    Sound { moved with threads := program.threads.set k after } := by
  refine sound.apart same.made same.alive ?_
  have guarded : Protected Statement.Inside Valid Finds program.mainCs
      (program.threads.set k after) { moved with threads := program.threads.set k after } :=
    sound.guarded.advance standing within stays fun found =>
      finds_congr same.pcio same.alive (finds found)
  rwa [← mainCs] at guarded

theorem Sound.roams (sound : Sound program) (standing : program.threads[k]? = some statement)
    (out : ¬statement.Inside) (stays : ¬after.Inside) (same : Same program moved)
    (mainCs : moved.mainCs = program.mainCs) :
    Sound { moved with threads := program.threads.set k after } := by
  refine sound.apart same.made same.alive ?_
  have guarded : Protected Statement.Inside Valid Finds program.mainCs
      (program.threads.set k after) { moved with threads := program.threads.set k after } :=
    sound.guarded.roam standing out stays (valid_congr same.pcio same.alive)
      fun _ _ found => finds_congr same.pcio same.alive found
  rwa [← mainCs] at guarded

theorem Sound.tests (sound : Sound program) (standing : program.threads[k]? = some statement)
    (within : statement.Inside) {test : Prop} [Decidable test] {yes no : Statement}
    (insideYes : yes.Inside) (insideNo : no.Inside)
    (findsYes : program.Finds statement → program.Finds yes)
    (findsNo : ¬test → program.Finds statement → program.Finds no) :
    Sound { program with threads := program.threads.set k (if test then yes else no) } := by
  by_cases holds : test
  · rw [if_pos holds]
    exact sound.goesOn standing within insideYes ⟨rfl, rfl, rfl⟩ rfl findsYes
  · rw [if_neg holds]
    exact sound.goesOn standing within insideNo ⟨rfl, rfl, rfl⟩ rfl (findsNo holds)

theorem Sound.makes (sound : Sound program)
    (standing : program.threads[k]? = some .newCosmosSpp) :
    Sound { program with
      pcio := some program.made, alive := program.alive ++ [program.made]
      made := program.made + 1, threads := program.threads.set k .initCom } := by
  refine ⟨fun object member => ?_, ?_, sound.guarded.advance standing trivial trivial fun _ => ?_⟩
  · rcases List.mem_append.mp member with before | new
    · exact Nat.lt_succ_of_lt (sound.numbered object before)
    · rw [List.mem_singleton.mp new]
      exact Nat.lt_succ_self _
  · refine List.nodup_append.mpr ⟨sound.distinct, List.nodup_singleton _, ?_⟩
    intro object before other new same
    rw [same, List.mem_singleton.mp new] at before
    exact absurd (sound.numbered _ before) (Nat.lt_irrefl _)
  · exact ⟨program.made, rfl, List.mem_append_right _ (List.mem_singleton_self _)⟩

theorem Sound.deletes (sound : Sound program)
    (standing : program.threads[k]? = some .deleteObject) :
    Sound { program with
      alive := program.pcio.elim program.alive program.alive.erase
      threads := program.threads.set k .nullPointer } := by
  rcases sound.guarded.annotated k _ standing trivial with ⟨object, points, _⟩
  rw [points]
  exact ⟨fun other member => sound.numbered other (List.mem_of_mem_erase member),
    sound.distinct.erase object, sound.guarded.advance standing trivial trivial fun _ => trivial⟩

theorem Sound.executed (sound : Sound program) (standing : program.threads[k]? = some statement)
    (executed : program.execute k succeeds statement = some (after, moved)) :
    Sound { moved with threads := program.threads.set k after } := by
  have outer (place : Place) : ¬(Statement.outside place).Inside := id
  cases statement with
  | outside place =>
      cases place with
      | start =>
          cases executed
          split <;> exact sound.roams standing (outer _) (outer _) ⟨rfl, rfl, rfl⟩ rfl
      | connect => exact sound.enters standing executed trivial id
      | loop i => exact sound.enters standing executed trivial id
      | ending =>
          cases executed
          split <;> exact sound.roams standing (outer _) id ⟨rfl, rfl, rfl⟩ rfl
      | stopping => exact sound.enters standing executed trivial id
      | ended => cases executed
  | newCosmosSpp =>
      cases executed
      exact sound.makes standing
  | initCom | markAsked _ | nameFile _ | createThread _ =>
      cases executed
      exact sound.goesOn standing trivial trivial ⟨rfl, rfl, rfl⟩ rfl id
  | regReadClass | writeCom _ | clearFlag _ =>
      cases executed
      exact sound.goesOn standing trivial trivial ⟨rfl, rfl, rfl⟩ rfl Connected.valid
  | testStopped _ | testOpen =>
      cases executed
      exact sound.tests standing trivial trivial trivial id fun connected valid =>
        Valid.connected valid connected
  | testIdle _ =>
      cases executed
      exact sound.tests standing trivial trivial trivial id fun _ => id
  | checkFile _ | testWriting _ =>
      cases executed
      exact sound.tests standing trivial trivial trivial Connected.valid fun _ => id
  | testFinished _ =>
      cases executed
      exact sound.tests standing trivial trivial trivial id fun _ => Connected.valid
  | deleteObject =>
      cases executed
      exact sound.deletes standing
  | nullPointer =>
      cases executed
      exact sound.apart rfl rfl (sound.guarded.advance standing trivial trivial
        fun _ object points => by cases points)
  | leave next =>
      cases executed
      exact sound.apart rfl rfl (sound.guarded.leave standing trivial (outer next) id)
  | deinitFile closing =>
      simp only [execute] at executed
      split at executed
      · cases executed
        exact sound.roams standing id id ⟨rfl, rfl, rfl⟩ rfl
      · cases executed
        exact sound.roams standing id id ⟨rfl, rfl, rfl⟩ rfl
  | deleteFile =>
      cases executed
      have same : Same program (program.deleteFile succeeds) ∧
          (program.deleteFile succeeds).mainCs = program.mainCs := by
        unfold deleteFile
        split
        · exact ⟨⟨rfl, rfl, rfl⟩, rfl⟩
        · split <;> exact ⟨⟨rfl, rfl, rfl⟩, rfl⟩
      exact sound.roams standing id id same.1 same.2
  | finalClear =>
      cases executed
      exact sound.roams standing id id ⟨rfl, rfl, rfl⟩ rfl

theorem Sound.step {next : Program} {label : Label} (sound : Sound program)
    (step : Step program label next) : Sound next := by
  cases step_stepped step with
  | pressedSync =>
      exact sound.apart rfl rfl (sound.guarded.concat id id fun _ _ found =>
        finds_congr rfl rfl found)
  | pressedStop =>
      exact sound.apart rfl rfl (sound.guarded.concat id id fun _ _ found =>
        finds_congr rfl rfl found)
  | executed standing executed => exact sound.executed standing executed
  | delivered =>
      exact sound.apart rfl rfl (sound.guarded.unchanged id fun _ _ found =>
        finds_congr rfl rfl found)
  | handled =>
      exact sound.apart rfl rfl (sound.guarded.unchanged id fun _ _ found =>
        finds_congr rfl rfl found)

/-! ## Getting through a section -/

theorem execute_remaining (executed : program.execute k succeeds statement = some (after, moved))
    (stays : after.Inside) : after.remaining + 1 ≤ statement.remaining := by
  cases statement with
  | outside place =>
      cases place with
      | ended => cases executed
      | start =>
          cases executed
          exact absurd stays id
      | ending =>
          cases executed
          split at stays <;> exact absurd stays id
      | connect =>
          rcases Option.ite_none_right_eq_some.mp executed with ⟨_, ⟨⟩⟩
          decide
      | loop i =>
          rcases Option.ite_none_right_eq_some.mp executed with ⟨_, ⟨⟩⟩
          exact Nat.le_refl 8
      | stopping =>
          rcases Option.ite_none_right_eq_some.mp executed with ⟨_, ⟨⟩⟩
          decide
  | deinitFile closing =>
      simp only [execute] at executed
      split at executed
      · cases executed
        exact absurd stays id
      · cases executed
        exact absurd stays id
  | deleteFile =>
      cases executed
      exact absurd stays id
  | finalClear =>
      cases executed
      exact absurd stays id
  | leave next =>
      cases executed
      exact absurd stays id
  | _ =>
      cases executed
      first
        | exact Nat.le_refl _
        | split <;> simp only [Statement.remaining] <;> omega

theorem remaining_pos (statement : Statement) : 1 ≤ statement.remaining := by
  cases statement <;> exact Nat.le_add_left 1 _

def InSection (k : Nat) (program : Program) : Prop :=
  ∃ statement, program.threads[k]? = some statement ∧ statement.Inside

def isThread (k : Nat) : Label → Bool
  | .thread j _ => decide (j = k)
  | _ => false

theorem remaining_lowered {next : Program} {label : Label} (step : Step program label next)
    (standing : program.threads[k]? = some statement) (stays : InSection k next) :
    ∃ after, next.threads[k]? = some after ∧
      after.remaining + (if isThread k label then 1 else 0) ≤ statement.remaining := by
  have bound := (List.getElem?_eq_some_iff.mp standing).1
  cases step_stepped step with
  | pressedSync =>
      exact ⟨statement, (List.getElem?_append_left bound).trans standing, Nat.le_refl _⟩
  | pressedStop =>
      exact ⟨statement, (List.getElem?_append_left bound).trans standing, Nat.le_refl _⟩
  | delivered => exact ⟨statement, standing, Nat.le_refl _⟩
  | handled => exact ⟨statement, standing, Nat.le_refl _⟩
  | @executed j _ own after _ standingOwn executed =>
      by_cases same : j = k
      · subst same
        cases standing.symm.trans standingOwn
        rcases stays with ⟨found, standingFound, inside⟩
        rw [List.getElem?_set_self bound] at standingFound
        cases standingFound
        refine ⟨after, List.getElem?_set_self bound, ?_⟩
        simp only [isThread, decide_true, if_true]
        exact execute_remaining executed inside
      · refine ⟨statement, (List.getElem?_set_ne same).trans standing, ?_⟩
        simp [isThread, same]

/-- A thread takes at most seven statements before it leaves its section. -/
theorem statements_in_section {last : Program} {labels : List Label}
    (run : Run (Entering Step (InSection k)) program labels last)
    (standing : program.threads[k]? = some statement) : labels.countP (isThread k) ≤ 7 := by
  have most : statement.remaining ≤ 8 := by
    cases statement <;> simp [Statement.remaining]
  rcases run.ranked
      (fun program rank => ∃ own, program.threads[k]? = some own ∧ own.remaining = rank)
      (isThread k) ⟨statement, standing, rfl⟩ (by
        rintro state rank label next ⟨own, standingOwn, rfl⟩ ⟨step, stays⟩
        rcases remaining_lowered step standingOwn stays with ⟨after, standingAfter, lower⟩
        exact ⟨after.remaining, ⟨after, standingAfter, rfl⟩, lower⟩) with
    ⟨left, ⟨own, _, rfl⟩, counted⟩
  have some := remaining_pos own
  omega

/-- Whatever order the statements of any number of threads come in: at most one
of them is in a section of `main_cs`, and it leaves it within seven statements of
its own. A statement that goes through `pcio` finds an object there that has not
been deleted. -/
theorem main_cs_protects_pcio (disk : Disk) (labels : List Label) (program : Program)
    (run : Run Step (.initial disk) labels program) :
    (∀ (j k : Nat) (one other : Statement), program.threads[j]? = some one →
        program.threads[k]? = some other → one.Inside → other.Inside → j = k) ∧
      (∀ (k : Nat) (statement : Statement), program.threads[k]? = some statement →
        statement.Uses → ∃ object, program.pcio = some object ∧ object ∈ program.alive) ∧
      program.alive.Nodup ∧
      ∀ (k : Nat) (statement : Statement), program.threads[k]? = some statement →
        ∀ later last, Run (Entering Step (InSection k)) program later last →
          later.countP (isThread k) ≤ 7 := by
  have sound : Sound program :=
    run.invariant (.initially disk) fun _ _ _ holds step => holds.step step
  refine ⟨fun j k one other standing standingOther inside insideOther =>
      sound.guarded.held.exclusive standing inside standingOther insideOther,
    fun k statement standing uses => ?_, sound.distinct,
    fun k statement standing later last inner => statements_in_section inner standing⟩
  cases statement with
  | initCom | regReadClass | writeCom _ | deleteObject =>
      exact sound.guarded.annotated k _ standing trivial
  | _ => exact absurd uses id

def aboutToSend : List Label :=
  .pressSync :: List.replicate 12 (.thread 0 true) ++ [.pressStop]

theorem main_cs_protects_pcio_sending :
    ∃ program, Run Step (.initial fun _ => none) aboutToSend program ∧
      program.threads = [.writeCom 1, .outside .stopping] ∧
      ∃ object, program.pcio = some object ∧ object ∈ program.alive := by
  have run : ∃ program, Run Step (.initial fun _ => none) aboutToSend program ∧
      program.threads = [.writeCom 1, .outside .stopping] := ⟨_, Run.of_foldlM step rfl, rfl⟩
  rcases run with ⟨program, run, threads⟩
  have standing : program.threads[0]? = some (.writeCom 1) := by rw [threads]; rfl
  exact ⟨program, run, threads,
    (main_cs_protects_pcio _ aboutToSend program run).2.1 0 _ standing trivial⟩

end Program

end CosmosPC
