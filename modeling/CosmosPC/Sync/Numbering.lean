import CosmosPC.Sync.System

/-! # The number of a finished file

`i` belongs to a run of `doSync`, `dwName` and the flag to the reader that all
runs share. A loop that finds flag 3 takes the finished file for its own, and the
end of a run drops it. -/

namespace CosmosPC

def Place.number : Place → Option Nat
  | .start => some 1
  | .connect => some 1
  | .loop i => some i
  | _ => none

def Place.gone : Place → Bool
  | .stopping => true
  | .ended => true
  | _ => false

namespace Sys

/-- The reader's file is the one that the loops stand at, or will begin with. -/
structure Aligned (sys : Sys) : Prop where
  standing : ∀ place ∈ sys.threads, ∀ i, place.number = some i → sys.world.rProc.dwName = i
  begins : (∀ place ∈ sys.threads, place.gone = true) → sys.world.rProc.dwName = 1

def Busy (sys : Sys) : Prop := sys.world.rProc.flag = 2 ∨ sys.world.rProc.flag = 3

/-- A run is begun next to a file of the reader only if that has the first
number, and a file is begun only when all loops stand at its number. While a file
is finished no reply to a request comes, and no run ends, as it would after a Stop. -/
def Punctual (sys : Sys) : Label → Prop
  | .pressSync => sys.Busy → sys.world.rProc.dwName = 1
  | .thread k => sys.world.rProc.flag = 3 → sys.threads[k]? ≠ some .ending
  | .proc _ buf =>
      match findReply buf with
      | some (3, text) =>
          sys.world.rProc.flag ≠ 3 ∧ (dword (strtol text) ≠ 0 → sys.Aligned)
      | _ => True
  | _ => True

/-- The number of the finished file that no loop has found yet. -/
def waiting (sys : Sys) : List Nat :=
  if sys.world.rProc.flag = 3 then [sys.world.rProc.dwName] else []

def completed (sys next : Sys) : List Nat :=
  if sys.world.rProc.flag = 3 then [] else next.waiting

/-- The numbers of the downloads that are completed in the course of a run. -/
def completions (sys : Sys) : List Label → List Nat
  | [] => []
  | label :: labels =>
      match sys.step label with
      | none => []
      | some next => sys.completed next ++ next.completions labels

/-- A file that is being written, or is finished, has the number of the loop. -/
structure Numbered (sys : Sys) : Prop where
  aligned : sys.Busy → sys.Aligned
  writing : sys.world.rProc.flag = 2 → ∀ name, sys.world.rProc.hfile = .file name →
    name = sys.world.rProc.dwName ∧ (sys.world.disk name).isSome = true
  finished : sys.world.rProc.flag = 3 →
    (sys.world.disk sys.world.rProc.dwName).isSome = true

theorem Numbered.of_idle {sys : Sys} (idle : ¬sys.Busy) : Numbered sys where
  aligned busy := absurd busy idle
  writing writing := absurd (Or.inl writing) idle
  finished finished := absurd (Or.inr finished) idle

theorem Numbered.initially (disk : Disk) : Numbered (.initial disk) :=
  .of_idle (by decide : ¬((0 : Nat) = 2 ∨ (0 : Nat) = 3))

variable {sys : Sys}

theorem Numbered.moved (numbered : Numbered sys) {moved : Sys} (world : moved.world = sys.world)
    (aligned : sys.Busy → sys.Aligned → moved.Aligned) : Numbered moved := by
  rcases numbered with ⟨first, writing, finished⟩
  refine ⟨fun busy => ?_, ?_, ?_⟩
  · rw [Busy, world] at busy
    exact aligned busy (first busy)
  · simpa only [world] using writing
  · simpa only [world] using finished

theorem Aligned.same (aligned : sys.Aligned) {moved : Sys} (threads : moved.threads = sys.threads)
    (name : moved.world.rProc.dwName = sys.world.rProc.dwName) : moved.Aligned := by
  rcases aligned with ⟨standing, begins⟩
  exact ⟨by rwa [threads, name], by rwa [threads, name]⟩

theorem Aligned.set (aligned : sys.Aligned) {moved : Sys} {k : Nat} {place after : Place}
    (standing : sys.threads[k]? = some place)
    (name : moved.world.rProc.dwName = sys.world.rProc.dwName)
    (number : ∀ i, after.number = some i → place.number = some i)
    (gone : after.gone = true → place.gone = true) :
    Aligned { moved with threads := sys.threads.set k after } := by
  have member : place ∈ sys.threads := List.mem_of_getElem? standing
  constructor
  · intro other among i stands
    dsimp only at among ⊢
    rw [name]
    rcases List.mem_or_eq_of_mem_set among with before | same
    · exact aligned.standing other before i stands
    · subst same
      exact aligned.standing place member i (number i stands)
  · intro allGone
    dsimp only at allGone ⊢
    rw [name]
    apply aligned.begins
    intro other among
    rcases List.mem_iff_getElem?.mp among with ⟨l, found⟩
    rcases List.getElem?_eq_some_iff.mp standing with ⟨bound, _⟩
    by_cases same : l = k
    · subst same
      cases standing.symm.trans found
      exact gone (allGone after (List.mem_set bound after))
    · apply allGone other
      apply List.mem_iff_getElem?.mpr
      exact ⟨l, by rw [List.getElem?_set_ne (Ne.symm same), found]⟩

theorem number_whileTest {i j : Nat} (stands : (whileTest i).number = some j) : i = j := by
  unfold whileTest at stands
  split at stands
  · exact Option.some.inj stands
  · cases stands

theorem gone_whileTest (i : Nat) : (whileTest i).gone = false := by
  unfold whileTest
  split <;> rfl

theorem Numbered.advanced (numbered : Numbered sys) {k : Nat} {place after : Place} {moved : Sys}
    (standing : sys.threads[k]? = some place) (advanced : Advanced sys place after moved) :
    Numbered { moved with threads := sys.threads.set k after } := by
  cases advanced with
  | meets | joins | connects =>
      exact numbered.moved rfl fun _ aligned =>
        aligned.set standing rfl (fun _ stands => stands) fun gone => Bool.noConfusion gone
  | stops =>
      have world : sys.disconnect.world = sys.world := by
        unfold disconnect
        split <;> rfl
      exact numbered.moved world fun _ aligned =>
        aligned.set standing (by rw [world]) (fun _ stands => by cases stands) fun _ => rfl
  | finishes =>
      apply Numbered.of_idle
      unfold finish
      split <;> exact (by decide : ¬((0 : Nat) = 2 ∨ (0 : Nat) = 3))
  | @iterates i _ _ iterated =>
      cases iterated with
      | closed | refused =>
          exact numbered.moved rfl fun _ aligned =>
            aligned.set standing rfl (fun _ stands => by cases stands)
              fun gone => Bool.noConfusion gone
      | waited =>
          exact numbered.moved rfl fun _ aligned =>
            aligned.set standing rfl
              (fun _ stands => congrArg some (number_whileTest stands))
              fun gone => by simp [gone_whileTest] at gone
      | skipped idle => exact .of_idle (by simp [Busy, idle])
      | requested => exact .of_idle (by simp [Busy, request])
      | parsed => exact .of_idle (by simp [Busy, startParse, setFlag])

theorem Numbered.handled (numbered : Numbered sys) {results : FileResults} {buf : List UInt8}
    {world : World} (punctual : sys.Punctual (.proc results buf))
    (handled : World.Handled results buf sys.world world) :
    Numbered { sys with world := world } := by
  cases handled with
  | ignored => exact numbered
  | sized =>
      exact ⟨fun busy => (numbered.aligned busy).same rfl rfl, numbered.writing,
        numbered.finished⟩
  | absent => exact .of_idle (by simp [Busy])
  | begun text reply nonzero =>
      simp only [Punctual, reply] at punctual
      have aligned := punctual.2 nonzero
      rw [World.fread, if_neg nonzero]
      refine ⟨fun _ => aligned.same rfl rfl, fun _ name handle => ?_,
        fun finished => by cases finished⟩
      cases created : results.created with
      | false => simp [World.initFile, created] at handle
      | true =>
          simp only [World.initFile, created, if_true, Handle.file.injEq] at handle ⊢
          subst handle
          exact ⟨rfl, by simp⟩
  | grown name count noReply writing handle =>
      rcases numbered.writing writing name handle with ⟨current, _⟩
      refine ⟨fun _ => (numbered.aligned (Or.inl writing)).same rfl rfl,
        fun _ other otherHandle => ?_,
        fun finished => absurd (writing.symm.trans finished) (by decide)⟩
      have same : other = name := Handle.file.inj (otherHandle.symm.trans handle)
      subst same
      exact ⟨current, by simp [World.stored]⟩
  | finished name count noReply writing handle =>
      rcases numbered.writing writing name handle with ⟨current, _⟩
      refine ⟨fun _ => (numbered.aligned (Or.inl writing)).same rfl rfl,
        (fun writing => by cases writing), fun _ => ?_⟩
      simp [World.stored, ← current]

theorem Numbered.step {next : Sys} {label : Label} (numbered : Numbered sys)
    (step : Step sys label next) (punctual : sys.Punctual label) : Numbered next := by
  cases step_stepped step with
  | pressedSync =>
      refine numbered.moved rfl
        fun busy aligned => ⟨fun place among i stands => ?_, fun allGone => ?_⟩
      · rcases List.mem_append.mp among with before | new
        · exact aligned.standing place before i stands
        · rw [List.mem_singleton.mp new] at stands
          cases stands
          exact punctual busy
      · exact Bool.noConfusion (allGone .start (by simp))
  | pressedStop =>
      refine numbered.moved rfl
        fun _ aligned => ⟨fun place among i stands => ?_, fun allGone => ?_⟩
      · rcases List.mem_append.mp among with before | new
        · exact aligned.standing place before i stands
        · rw [List.mem_singleton.mp new] at stands
          cases stands
      · exact aligned.begins fun place before => allGone place (by simp [before])
  | advanced standing advanced => exact numbered.advanced standing advanced
  | handled handled => exact numbered.handled punctual handled

/-! ## What becomes of a finished file -/

/-- What is completed is handed to the parser, or still waiting for that. -/
def Accounted (sys next : Sys) : Prop :=
  sys.parsed ++ sys.waiting ++ sys.completed next = next.parsed ++ next.waiting

theorem Accounted.kept {next : Sys} (parsed : next.parsed = sys.parsed)
    (same : sys.world.rProc.flag = 3 → next.waiting = sys.waiting) : Accounted sys next := by
  unfold Accounted completed
  by_cases finished : sys.world.rProc.flag = 3
  · rw [if_pos finished, List.append_nil, parsed, same finished]
  · rw [if_neg finished, parsed, waiting, if_neg finished, List.append_nil]

theorem Numbered.number_eq (numbered : Numbered sys) {k i : Nat}
    (standing : sys.threads[k]? = some (.loop i)) (finished : sys.world.rProc.flag = 3) :
    sys.world.rProc.dwName = i :=
  (numbered.aligned (Or.inr finished)).standing _ (List.mem_of_getElem? standing) i rfl

theorem Numbered.accounted_advanced (numbered : Numbered sys) {k : Nat} {place after : Place}
    {moved : Sys} (standing : sys.threads[k]? = some place)
    (punctual : sys.world.rProc.flag = 3 → place ≠ .ending)
    (advanced : Advanced sys place after moved) :
    Accounted sys { moved with threads := sys.threads.set k after } := by
  cases advanced with
  | meets | joins | connects => exact .kept rfl fun _ => rfl
  | stops =>
      unfold disconnect
      split <;> exact .kept rfl fun _ => rfl
  | finishes =>
      refine .kept ?_ fun finished => absurd rfl (punctual finished)
      unfold finish
      split <;> rfl
  | iterates iterated =>
      cases iterated with
      | closed | skipped | waited | refused => exact .kept rfl fun _ => rfl
      | requested idle =>
          exact .kept rfl fun finished => absurd (finished.symm.trans idle) (by decide)
      | parsed finished =>
          have own := numbered.number_eq standing finished
          simp [Accounted, completed, waiting, startParse, setFlag, finished, own]

theorem accounted_handled {results : FileResults} {buf : List UInt8} {world : World}
    (punctual : sys.Punctual (.proc results buf))
    (handled : World.Handled results buf sys.world world) :
    Accounted sys { sys with world := world } := by
  refine .kept rfl fun finished => ?_
  cases handled with
  | ignored | sized => rfl
  | absent _ reply | begun _ reply =>
      simp only [Punctual, reply] at punctual
      exact absurd finished punctual.1
  | grown _ _ _ writing | finished _ _ _ writing =>
      exact absurd (finished.symm.trans writing) (by decide)

theorem Numbered.accounted (numbered : Numbered sys) {next : Sys} {label : Label}
    (step : Step sys label next) (punctual : sys.Punctual label) : Accounted sys next := by
  cases step_stepped step with
  | pressedSync => exact .kept rfl fun _ => rfl
  | pressedStop => exact .kept rfl fun _ => rfl
  | advanced standing advanced =>
      refine numbered.accounted_advanced standing (fun finished ends => ?_) advanced
      exact punctual finished (ends ▸ standing)
  | handled handled => exact accounted_handled punctual handled

/-- Every completed download has been handed to the parser under its own number,
in the order of completion, but for a finished file that waits for its loop. -/
theorem Numbered.accounted_run {first last : Sys} {labels : List Label} (numbered : Numbered first)
    (run : Run (Guarded Step Punctual) first labels last) :
    Numbered last ∧
      first.parsed ++ first.waiting ++ first.completions labels = last.parsed ++ last.waiting := by
  induction run with
  | nil => exact ⟨numbered, List.append_nil _⟩
  | @cons first label second labels last taken _ induction =>
      rcases induction (numbered.step taken.1 taken.2) with ⟨ends, counted⟩
      have computed : first.completions (label :: labels) =
          first.completed second ++ second.completions labels := by
        rw [completions, taken.1]
      refine ⟨ends, ?_⟩
      rw [computed, ← List.append_assoc, numbered.accounted taken.1 taken.2, counted]

/-- As long as no run is begun or ended at the wrong time, and no reply comes at
one: every completed download is handed to the parser under its own number, in
the order of completion, the last one as soon as a loop looks at the flag, and no
loop goes past a number without its file. -/
theorem finished_file_is_own (disk : Disk) (labels : List Label) (sys : Sys)
    (run : Run (Guarded Step Punctual) (.initial disk) labels sys) :
    (initial disk).completions labels = sys.parsed ++ sys.waiting ∧
      ∀ k i, sys.threads[k]? = some (.loop i) →
        (sys.world.rProc.flag = 3 → sys.world.rProc.dwName = i) ∧
        ∀ next, Step sys (.thread k) next →
          (sys.world.rProc.flag = 3 → sys.pcio ≠ none →
            next.parsed = sys.parsed ++ [sys.world.rProc.dwName]) ∧
          (next.threads[k]? = some (.loop (i + 1)) → (sys.world.disk i).isSome = true) := by
  rcases (Numbered.initially disk).accounted_run run with ⟨numbered, counted⟩
  refine ⟨counted, fun k i standing => ⟨numbered.number_eq standing, fun next step => ?_⟩⟩
  have bound := (List.getElem?_eq_some_iff.mp standing).1
  cases step_stepped step with
  | advanced found advanced =>
      cases standing.symm.trans found
      cases advanced with
      | iterates iterated =>
          constructor
          · intro finished connected
            rcases iterated.of_finished connected finished with ⟨_, rfl⟩
            rw [numbered.number_eq standing finished]
            rfl
          · intro goes
            rw [List.getElem?_set_self bound] at goes
            have goes := Option.some.inj goes
            cases iterated with
            | closed => cases goes
            | refused => cases goes
            | requested => exact absurd (number_whileTest (congrArg Place.number goes)) (by simp)
            | waited => exact absurd (number_whileTest (congrArg Place.number goes)) (by simp)
            | skipped _ present => exact present
            | parsed finished =>
                rw [← numbered.number_eq standing finished]
                exact numbered.finished finished

def firstFile : List Label :=
  [.pressSync, .thread 0, .thread 0, .thread 0, .proc .full (freadLine 1), .proc .full [65]]

theorem finished_file_is_own_first :
    ∃ sys, Run (Guarded Step Punctual) (.initial fun _ => none) firstFile sys ∧
      sys.world.rProc.flag = 3 ∧
      (initial fun _ => none).completions firstFile = sys.parsed ++ [1] ∧
      ∀ next, Step sys (.thread 0) next → next.parsed = sys.parsed ++ [1] := by
  have run : ∃ sys, Run (Guarded Step Punctual) (.initial fun _ => none) firstFile sys ∧
      sys.threads[0]? = some (.loop 1) ∧ sys.world.rProc.flag = 3 ∧ sys.pcio = some 0 ∧
        sys.world.rProc.dwName = 1 := by
    refine ⟨_, .cons ⟨rfl, ?_⟩ <| .cons ⟨rfl, ?_⟩ <| .cons ⟨rfl, ?_⟩ <| .cons ⟨rfl, ?_⟩ <|
      .cons ⟨rfl, ?_, fun _ => ⟨?_, ?_⟩⟩ <| .cons ⟨rfl, trivial⟩ <| .nil _, rfl, rfl, rfl, rfl⟩
    · exact fun busy => absurd busy (by decide : ¬((0 : Nat) = 2 ∨ (0 : Nat) = 3))
    · exact fun finished => absurd finished (by decide : (0 : Nat) ≠ 3)
    · exact fun finished => absurd finished (by decide : (0 : Nat) ≠ 3)
    · exact fun finished => absurd finished (by decide : (0 : Nat) ≠ 3)
    · exact (by decide : (1 : Nat) ≠ 3)
    · intro place member i stands
      rw [List.mem_singleton.mp member] at stands
      exact Option.some.inj stands
    · intro allGone
      exact Bool.noConfusion (allGone (.loop 1) List.mem_cons_self)
  rcases run with ⟨sys, run, standing, finished, connected, name⟩
  rcases finished_file_is_own _ firstFile sys run with ⟨counted, own⟩
  refine ⟨sys, run, finished, ?_, fun next step => ?_⟩
  · rw [counted, waiting, if_pos finished, name]
  · rw [((own 0 1 standing).2 next step).1 finished (by simp [connected]), name]

/-- The second run meets the file that was left finished after the first. -/
def leftoverFile : List Label :=
  [.pressSync, .thread 0, .thread 0, .thread 0, .thread 0, .thread 0, .thread 0,
    .proc .full (freadLine 1), .proc .full [65], .pressSync, .thread 1]

/-- The run is stopped, and ends, before the loop has found its finished file. -/
def stoppedFinished : List Label :=
  firstFile ++ [.pressStop, .thread 1, .thread 0, .thread 0]

/-- A leftover file is parsed under the wrong number, one that is finished when
its run is stopped is never parsed. -/
theorem leftover_file_is_taken_for_first :
    (∃ sys, Run Step (.initial fun name => if name = 1 then some [66] else none) leftoverFile
        sys ∧ sys.threads[1]? = some (.loop 1) ∧ sys.world.rProc.flag = 3 ∧
      sys.world.rProc.dwName = 2 ∧
      ∃ next, Step sys (.thread 1) next ∧ next.parsed = [1]) ∧
    ∃ sys, Run Step (.initial fun _ => none) stoppedFinished sys ∧
      (initial fun _ => none).completions stoppedFinished = [1] ∧ sys.parsed = [] ∧
      sys.world.rProc.flag = 0 ∧ sys.threads = [.ended, .ended] :=
  ⟨⟨_, Run.of_foldlM step rfl, rfl, rfl, rfl, _, rfl, rfl⟩,
    _, Run.of_foldlM step rfl, rfl, rfl, rfl, rfl⟩

end Sys

end CosmosPC
