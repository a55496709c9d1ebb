import CosmosPC.Sync.System

/-! # The books of a download

What `rProc` knows about the file that is being written, compared with the disk,
as long as `CreateFile` and `WriteFile` succeed. -/

namespace CosmosPC

/-- The program, and the files that have reached flag 3 since they were last created. -/
structure Completing where
  sys : Sys
  completed : Nat → Bool

namespace Completing

def initial (disk : Disk) : Completing := ⟨.initial disk, fun _ => false⟩

def finish (completing : Completing) (next : Sys) : Nat → Bool :=
  match completing.sys.world.rProc.hfile with
  | .file name =>
      if completing.sys.world.rProc.flag = 2 ∧ next.world.rProc.flag = 3 then
        Function.update completing.completed name true
      else completing.completed
  | _ => completing.completed

/-- A file is created by a `FREAD` reply, and completed by content. -/
def complete (completing : Completing) (label : Sys.Label) (next : Sys) : Nat → Bool :=
  match label with
  | .proc results buf =>
      match findReply buf with
      | some (3, text) =>
          if dword (strtol text) ≠ 0 ∧ results.created then
            Function.update completing.completed completing.sys.world.rProc.dwName false
          else completing.completed
      | some _ => completing.completed
      | none => completing.finish next
  | _ => completing.completed

def step (completing : Completing) (label : Sys.Label) : Option Completing :=
  (completing.sys.step label).map fun sys => ⟨sys, completing.complete label sys⟩

def Step (completing : Completing) (label : Sys.Label) (next : Completing) : Prop :=
  completing.step label = some next

end Completing

def InFull (_ : Completing) : Sys.Label → Prop
  | .proc results _ => results = .full
  | _ => True

/-- The reader is writing to the log that it was asked for, and knows its length. -/
structure Bookkept (world : World) : Prop where
  handle : world.rProc.hfile = .file world.rProc.dwName
  last : world.rProc.szLastFile = some world.rProc.dwName
  counted : ∃ bytes, world.disk world.rProc.dwName = some bytes ∧
    world.rProc.totalRecv = bytes.length % 2 ^ 32

/-- What is being written is in the books, and not complete. -/
def Booked (completing : Completing) : Prop :=
  completing.sys.world.rProc.flag = 2 →
    Bookkept completing.sys.world ∧
      completing.completed completing.sys.world.rProc.dwName = false

theorem advanced_world {sys moved : Sys} {place after : Place}
    (advanced : Sys.Advanced sys place after moved) :
    moved.world = sys.world ∨ moved.world.rProc.flag ≠ 2 := by
  cases advanced with
  | meets => exact Or.inl rfl
  | joins => exact Or.inl rfl
  | connects => exact Or.inl rfl
  | stops =>
      left
      unfold Sys.disconnect
      split <;> rfl
  | finishes =>
      right
      unfold Sys.finish
      split <;> simp [Sys.setFlag]
  | iterates iterated =>
      cases iterated with
      | closed => exact Or.inl rfl
      | skipped => exact Or.inl rfl
      | waited => exact Or.inl rfl
      | refused => exact Or.inl rfl
      | requested => exact Or.inr (by simp [Sys.request])
      | parsed => exact Or.inr (by simp [Sys.startParse, Sys.setFlag])

variable {world : World} {buf : List UInt8}

theorem bookkept_fread (world : World) {size : Nat} (nonzero : size ≠ 0) :
    Bookkept (world.fread .full size) := by
  rw [World.fread, if_neg nonzero]
  exact ⟨rfl, rfl, [], Function.update_self _ _ _, rfl⟩

theorem Bookkept.stored (books : Bookkept world) :
    Bookkept (world.stored world.rProc.dwName buf buf.length) := by
  rcases books with ⟨handle, last, bytes, onDisk, counted⟩
  refine ⟨handle, last, bytes ++ buf, ?_, ?_⟩
  · simp [World.stored, onDisk]
  · simp [World.stored, counted]

theorem finish_of_unfinished {completing : Completing} {next : Sys}
    (unfinished : next.world.rProc.flag ≠ 3) : completing.finish next = completing.completed := by
  unfold Completing.finish
  split
  · exact if_neg fun finished => unfinished finished.2
  · rfl

theorem complete_eq_of_unfinished {completing : Completing} {results : FileResults} {next : Sys}
    (unfinished : next.world.rProc.flag ≠ 3) :
    completing.complete (.proc results buf) next = completing.completed ∨
      completing.complete (.proc results buf) next =
        Function.update completing.completed completing.sys.world.rProc.dwName false := by
  unfold Completing.complete
  dsimp only
  split
  · split
    · exact Or.inr rfl
    · exact Or.inl rfl
  · exact Or.inl rfl
  · exact Or.inl (finish_of_unfinished unfinished)

theorem complete_of_unfinished {completing : Completing} {results : FileResults} {next : Sys}
    {name : Nat} (unfinished : next.world.rProc.flag ≠ 3)
    (incomplete : completing.completed name = false) :
    completing.complete (.proc results buf) next name = false := by
  rcases complete_eq_of_unfinished unfinished with same | created
  · rw [same, incomplete]
  · rw [created]
    by_cases current : name = completing.sys.world.rProc.dwName
    · rw [current, Function.update_self]
    · rw [Function.update_of_ne current, incomplete]

theorem complete_of_begun {completing : Completing} {text : List UInt8} {next : Sys}
    (reply : findReply buf = some (3, text)) (nonzero : dword (strtol text) ≠ 0) :
    completing.complete (.proc .full buf) next completing.sys.world.rProc.dwName = false := by
  simp [Completing.complete, reply, nonzero, FileResults.full]

theorem Booked.handled {completing : Completing} {world : World} (booked : Booked completing)
    (handled : World.Handled .full buf completing.sys.world world) :
    Booked ⟨{ completing.sys with world := world },
      completing.complete (.proc .full buf) { completing.sys with world := world }⟩ := by
  have kept (unfinished : world.rProc.flag ≠ 3) (before : completing.sys.world.rProc.flag = 2) :
      completing.complete (.proc .full buf) { completing.sys with world := world }
        completing.sys.world.rProc.dwName = false :=
    complete_of_unfinished unfinished (booked before).2
  intro writing
  dsimp only at writing ⊢
  cases handled with
  | ignored => exact ⟨(booked writing).1, kept (by simp [writing]) writing⟩
  | sized =>
      rcases booked writing with ⟨⟨handle, last, counted⟩, _⟩
      exact ⟨⟨handle, last, counted⟩, kept (by simp [writing]) writing⟩
  | absent => cases writing
  | begun text reply nonzero =>
      refine ⟨bookkept_fread _ nonzero, ?_⟩
      have name : (completing.sys.world.fread .full (dword (strtol text))).rProc.dwName =
          completing.sys.world.rProc.dwName := by
        rw [World.fread, if_neg nonzero]
        rfl
      rw [name]
      exact complete_of_begun reply nonzero
  | grown name count noReply before handle nonzero short written =>
      rcases booked before with ⟨books, _⟩
      cases written
      cases handle.symm.trans books.handle
      exact ⟨books.stored, kept (by simp [writing]) before⟩
  | finished => cases writing

theorem Booked.step {completing next : Completing} {label : Sys.Label}
    (booked : Booked completing) (step : Completing.Step completing label next)
    (inFull : InFull completing label) : Booked next := by
  rcases Option.map_eq_some_iff.mp step with ⟨after, taken, rfl⟩
  cases Sys.step_stepped taken with
  | pressedSync => exact booked
  | pressedStop => exact booked
  | @advanced k place after moved _ advanced =>
      intro writing
      rcases advanced_world advanced with same | idle
      · dsimp only at writing ⊢
        rw [same] at writing ⊢
        exact booked writing
      · exact absurd writing idle
  | handled handled =>
      cases inFull
      exact booked.handled handled

/-- In every state with flag 2 the reader's books are those of the disk, and the
end of a `doSync` never removes a file that is complete. -/
theorem books_match_disk (disk : Disk) (labels : List Sys.Label) (completing : Completing)
    (run : Run (Guarded Completing.Step InFull) (.initial disk) labels completing) :
    (completing.sys.world.rProc.flag = 2 → Bookkept completing.sys.world) ∧
      ∀ name, completing.sys.finish.world.disk name ≠ completing.sys.world.disk name →
        completing.completed name = false := by
  have booked : Booked completing :=
    run.invariant (fun writing => by cases writing) fun _ _ _ holds step => holds.step step.1 step.2
  refine ⟨fun writing => (booked writing).1, fun name removed => ?_⟩
  unfold Sys.finish at removed
  by_cases writing : completing.sys.world.rProc.flag = 2
  · rcases booked writing with ⟨books, incomplete⟩
    rw [if_pos writing] at removed
    simp only [Sys.setFlag, World.deleteLastFile, books.last, World.deinitFile] at removed
    by_cases same : name = completing.sys.world.rProc.dwName
    · rw [same]
      exact incomplete
    · rw [Function.update_of_ne same] at removed
      exact absurd rfl removed
  · rw [if_neg writing] at removed
    exact absurd rfl removed

def firstByte : List Sys.Label :=
  [.pressSync, .thread 0, .thread 0, .thread 0, .proc .full (freadLine 5), .proc .full [65]]

theorem books_match_disk_firstByte :
    ∃ completing, Run (Guarded Completing.Step InFull) (.initial fun _ => none) firstByte
        completing ∧ completing.sys.world.rProc.totalRecv = 1 ∧
      Bookkept completing.sys.world := by
  have run : ∃ completing, Run (Guarded Completing.Step InFull) (.initial fun _ => none)
      firstByte completing ∧ completing.sys.world.rProc.flag = 2 ∧
        completing.sys.world.rProc.totalRecv = 1 :=
    ⟨_, .cons ⟨rfl, trivial⟩ <| .cons ⟨rfl, trivial⟩ <| .cons ⟨rfl, trivial⟩ <|
      .cons ⟨rfl, trivial⟩ <| .cons ⟨rfl, rfl⟩ <| .cons ⟨rfl, rfl⟩ <| .nil _, rfl, rfl⟩
  rcases run with ⟨completing, run, writing, counted⟩
  exact ⟨completing, run, counted, (books_match_disk _ _ completing run).1 writing⟩

end CosmosPC
