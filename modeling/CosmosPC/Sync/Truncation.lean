import CosmosPC.Sync.System

/-! # Truncated logs

Which log files may be left shorter than announced. The one that is being
written is deleted behind the loop, if the flag still says that it is being
written; a reply at the wrong moment leaves it behind. -/

namespace CosmosPC

structure Tracked where
  sys : Sys
  announced : Nat → Option Nat

def announcedSize (text : List UInt8) : Nat := (strtolNumber text).toNat

namespace Tracked

def initial (disk : Disk) : Tracked := ⟨.initial disk, fun _ => none⟩

/-- A non-zero `FREAD` reply announces the size of the file that it creates. -/
def announce (tracked : Tracked) : Sys.Label → Nat → Option Nat
  | .proc results buf =>
      match findReply buf with
      | some (3, text) =>
          if dword (strtol text) ≠ 0 ∧ results.created then
            Function.update tracked.announced tracked.sys.world.rProc.dwName
              (some (announcedSize text))
          else tracked.announced
      | _ => tracked.announced
  | _ => tracked.announced

def step (tracked : Tracked) (label : Sys.Label) : Option Tracked :=
  (tracked.sys.step label).map fun sys => ⟨sys, tracked.announce label⟩

def Step (tracked : Tracked) (label : Sys.Label) (next : Tracked) : Prop :=
  tracked.step label = some next

end Tracked

def Place.running : Place → Bool
  | .loop _ => true
  | .ending => true
  | _ => false

/-- Every file that the program created and that is on disk has the size that
was announced for it. -/
def NoneTruncated (tracked : Tracked) : Prop :=
  ∀ name size bytes, tracked.announced name = some size →
    tracked.sys.world.disk name = some bytes → size ≤ bytes.length

/-- Replies that come when they are due: the size of a file while a loop waits
for it, a size of zero not while a file is being written, and a file size not
below the one announced. Sizes stay within a `long`. -/
def Timely (tracked : Tracked) : Sys.Label → Prop
  | .proc _ buf =>
      match findReply buf with
      | some (2, text) => tracked.sys.world.rProc.flag = 2 →
          ∀ size, tracked.announced tracked.sys.world.rProc.dwName = some size →
            size ≤ dword (strtol text)
      | some (3, text) =>
          if dword (strtol text) = 0 then tracked.sys.world.rProc.flag ≠ 2
          else (∃ place ∈ tracked.sys.threads, place.running = true) ∧
            announcedSize text ≤ dword (strtol text)
      | _ => True
  | _ => True

/-- Only the file being written may be short, and a loop will see to it. -/
structure Covered (tracked : Tracked) : Prop where
  attended : tracked.sys.world.rProc.flag = 2 →
    ∃ place ∈ tracked.sys.threads, place.running = true
  complete : ∀ name size bytes, tracked.announced name = some size →
    tracked.sys.world.disk name = some bytes →
      size ≤ bytes.length ∨
        tracked.sys.world.rProc.flag = 2 ∧ name = tracked.sys.world.rProc.dwName
  current : tracked.sys.world.rProc.flag = 2 →
    tracked.sys.world.rProc.szLastFile = some tracked.sys.world.rProc.dwName
  writing : tracked.sys.world.rProc.flag = 2 →
    ∀ name, tracked.sys.world.rProc.hfile = .file name →
      name = tracked.sys.world.rProc.dwName ∧
        (∃ bytes, tracked.sys.world.disk name = some bytes ∧
          tracked.sys.world.rProc.totalRecv ≤ bytes.length) ∧
        ∃ size, tracked.announced name = some size ∧ size ≤ tracked.sys.world.rProc.fileSize

theorem Covered.noneTruncated {tracked : Tracked} (covered : Covered tracked)
    (idle : tracked.sys.world.rProc.flag ≠ 2) : NoneTruncated tracked := by
  intro name size bytes announced onDisk
  rcases covered.complete name size bytes announced onDisk with long | ⟨writing, _⟩
  · exact long
  · exact absurd writing idle

theorem Covered.of_idle {tracked : Tracked} (idle : tracked.sys.world.rProc.flag ≠ 2)
    (none : NoneTruncated tracked) : Covered tracked where
  attended writing := absurd writing idle
  complete name size bytes announced onDisk := Or.inl (none name size bytes announced onDisk)
  current writing := absurd writing idle
  writing writing := absurd writing idle

theorem Covered.initially (disk : Disk) : Covered (.initial disk) := by
  apply Covered.of_idle
  · exact (by decide : (0 : Nat) ≠ 2)
  · intro name size bytes announced
    cases announced

/-! ## What keeps the invariant -/

variable {sys : Sys} {announced : Nat → Option Nat}

theorem Covered.moved (covered : Covered ⟨sys, announced⟩) {moved : Sys}
    (world : moved.world = sys.world)
    (attended : (∃ place ∈ sys.threads, place.running = true) →
      ∃ place ∈ moved.threads, place.running = true) : Covered ⟨moved, announced⟩ := by
  rcases covered with ⟨first, complete, current, writing⟩
  refine ⟨fun flag => attended (first ?_), ?_, ?_, ?_⟩
  · rw [← world]
    exact flag
  · simpa only [world] using complete
  · simpa only [world] using current
  · simpa only [world] using writing

theorem attended_set {threads : List Place} {k : Nat} {place after : Place}
    (standing : threads[k]? = some place)
    (stays : place.running = true → after.running = true)
    (running : ∃ other ∈ threads, other.running = true) :
    ∃ other ∈ threads.set k after, other.running = true := by
  rcases running with ⟨other, member, runs⟩
  rcases List.mem_iff_getElem?.mp member with ⟨l, found⟩
  rcases List.getElem?_eq_some_iff.mp standing with ⟨bound, _⟩
  by_cases same : l = k
  · subst same
    rw [standing] at found
    cases found
    exact ⟨after, List.mem_set bound after, stays runs⟩
  · refine ⟨other, List.mem_iff_getElem?.mpr ⟨l, ?_⟩, runs⟩
    rw [List.getElem?_set_ne (Ne.symm same), found]

theorem running_whileTest (i : Nat) : (Sys.whileTest i).running = true := by
  unfold Sys.whileTest
  split <;> rfl

theorem running_iterated {i : Nat} {after : Place} {moved : Sys}
    (iterated : Sys.Iterated sys i after moved) : after.running = true := by
  cases iterated with
  | closed => rfl
  | skipped => exact running_whileTest _
  | requested => exact running_whileTest _
  | waited => exact running_whileTest _
  | parsed => exact running_whileTest _
  | refused => rfl

theorem Covered.finish (covered : Covered ⟨sys, announced⟩) {threads : List Place} :
    Covered ⟨{ sys.finish with threads := threads }, announced⟩ := by
  have idle : sys.finish.world.rProc.flag ≠ 2 := by
    unfold Sys.finish
    split <;> exact (by decide : (0 : Nat) ≠ 2)
  refine Covered.of_idle idle fun name size bytes known onDisk => ?_
  dsimp only at known onDisk
  unfold Sys.finish at onDisk
  by_cases writing : sys.world.rProc.flag = 2
  · rw [if_pos writing] at onDisk
    have last := covered.current writing
    dsimp only at last
    simp only [Sys.setFlag, World.deleteLastFile, last, World.deinitFile] at onDisk
    by_cases current : name = sys.world.rProc.dwName
    · subst current
      rw [Function.update_self] at onDisk
      cases onDisk
    · rw [Function.update_of_ne current] at onDisk
      rcases covered.complete name size bytes known onDisk with long | ⟨_, same⟩
      · exact long
      · exact absurd same current
  · rw [if_neg writing] at onDisk
    exact covered.noneTruncated writing name size bytes known onDisk

theorem Covered.advanced (covered : Covered ⟨sys, announced⟩) {k : Nat} {place after : Place}
    {moved : Sys} (standing : sys.threads[k]? = some place)
    (advanced : Sys.Advanced sys place after moved) :
    Covered ⟨{ moved with threads := sys.threads.set k after }, announced⟩ := by
  cases advanced with
  | meets =>
      exact covered.moved rfl (attended_set standing fun running => Bool.noConfusion running)
  | joins => exact covered.moved rfl (attended_set standing fun _ => rfl)
  | connects => exact covered.moved rfl (attended_set standing fun _ => rfl)
  | finishes => exact covered.finish
  | stops =>
      have world : sys.disconnect.world = sys.world := by
        unfold Sys.disconnect
        split <;> rfl
      exact covered.moved world (attended_set standing fun running => Bool.noConfusion running)
  | @iterates i _ _ iterated =>
      have attended (running : ∃ other ∈ sys.threads, other.running = true) :
          ∃ other ∈ sys.threads.set k after, other.running = true :=
        attended_set standing (fun _ => running_iterated iterated) running
      cases iterated with
      | closed => exact covered.moved rfl attended
      | skipped => exact covered.moved rfl attended
      | waited => exact covered.moved rfl attended
      | refused => exact covered.moved rfl attended
      | requested idle absent =>
          have none := covered.noneTruncated (by simp [idle])
          exact .of_idle (by simp [Sys.request]) none
      | parsed finished =>
          have none := covered.noneTruncated (by simp [finished])
          exact .of_idle (by simp [Sys.startParse, Sys.setFlag]) none

/-! ### Calls of `proc` -/

variable {results : FileResults} {buf : List UInt8}

theorem announce_of_none (noReply : findReply buf = none) :
    Tracked.announce ⟨sys, announced⟩ (.proc results buf) = announced := by
  simp [Tracked.announce, noReply]

theorem announce_of_other
    (other : ∀ index text, findReply buf = some (index, text) → index ≠ 2 ∧ index ≠ 3) :
    Tracked.announce ⟨sys, announced⟩ (.proc results buf) = announced := by
  unfold Tracked.announce
  dsimp only
  split
  · rename_i text reply
    exact absurd rfl (other 3 text reply).2
  · rfl

theorem Covered.begun (covered : Covered ⟨sys, announced⟩) {text : List UInt8}
    (reply : findReply buf = some (3, text)) (nonzero : dword (strtol text) ≠ 0)
    (running : ∃ place ∈ sys.threads, place.running = true)
    (within : announcedSize text ≤ dword (strtol text)) :
    Covered ⟨{ sys with world := sys.world.fread results (dword (strtol text)) },
      Tracked.announce ⟨sys, announced⟩ (.proc results buf)⟩ := by
  -- Of the other files none is short, as the only one that may be has this name.
  have others : ∀ name size bytes, name ≠ sys.world.rProc.dwName → announced name = some size →
      sys.world.disk name = some bytes → size ≤ bytes.length := by
    intro name size bytes different known onDisk
    rcases covered.complete name size bytes known onDisk with long | ⟨_, same⟩
    · exact long
    · exact absurd same different
  rw [World.fread, if_neg nonzero]
  cases created : results.created with
  | false =>
      have unannounced :
          Tracked.announce ⟨sys, announced⟩ (.proc results buf) = announced := by
        simp [Tracked.announce, reply, created]
      rw [unannounced]
      refine ⟨fun _ => running, fun name size bytes known onDisk => ?_, fun _ => rfl,
        fun _ name handle => ?_⟩
      · simp only [World.initFile, created, Bool.false_eq_true, if_false] at onDisk
        by_cases same : name = sys.world.rProc.dwName
        · exact Or.inr ⟨rfl, same⟩
        · exact Or.inl (others name size bytes same known onDisk)
      · simp [World.initFile, created] at handle
  | true =>
      have nowAnnounced : Tracked.announce ⟨sys, announced⟩ (.proc results buf) =
          Function.update announced sys.world.rProc.dwName (some (announcedSize text)) := by
        simp [Tracked.announce, reply, created, nonzero]
      rw [nowAnnounced]
      refine ⟨fun _ => running, fun name size bytes known onDisk => ?_, fun _ => rfl,
        fun _ name handle => ?_⟩
      · by_cases same : name = sys.world.rProc.dwName
        · exact Or.inr ⟨rfl, same⟩
        · simp only [World.initFile, created, if_true, Function.update_of_ne same]
            at known onDisk
          exact Or.inl (others name size bytes same known onDisk)
      · simp only [World.initFile, created, if_true, Handle.file.injEq] at handle ⊢
        subst handle
        exact ⟨rfl, ⟨[], Function.update_self _ _ _, Nat.zero_le _⟩, announcedSize text,
          Function.update_self _ _ _, within⟩

theorem Covered.stored (covered : Covered ⟨sys, announced⟩) {name : Nat} (buf : List UInt8)
    (count : Nat)
    (writing : sys.world.rProc.flag = 2) (handle : sys.world.rProc.hfile = .file name) :
    name = sys.world.rProc.dwName ∧
      (∃ bytes, (sys.world.stored name buf count).disk name = some bytes ∧
        (sys.world.stored name buf count).rProc.totalRecv ≤ bytes.length) ∧
      ∃ size, announced name = some size ∧ size ≤ sys.world.rProc.fileSize := by
  rcases covered.writing writing name handle with ⟨current, ⟨bytes, onDisk, counted⟩, known⟩
  refine ⟨current, ⟨bytes ++ buf.take count, ?_, ?_⟩, known⟩
  · dsimp only at onDisk
    simp [World.stored, onDisk]
  · dsimp only at counted
    simp only [World.stored, List.length_append, List.length_take]
    exact Nat.le_trans (Nat.mod_le _ _) (by omega)

theorem Covered.handled (covered : Covered ⟨sys, announced⟩) {world : World}
    (timely : Timely ⟨sys, announced⟩ (.proc results buf))
    (handled : World.Handled results buf sys.world world) :
    Covered ⟨{ sys with world := world },
      Tracked.announce ⟨sys, announced⟩ (.proc results buf)⟩ := by
  cases handled with
  | ignored other =>
      rw [announce_of_other other]
      exact covered
  | sized text reply =>
      have unannounced :
          Tracked.announce ⟨sys, announced⟩ (.proc results buf) = announced := by
        simp [Tracked.announce, reply]
      rw [unannounced]
      refine ⟨covered.attended, covered.complete, covered.current, fun writing name handle => ?_⟩
      rcases covered.writing writing name handle with ⟨current, onDisk, size, known, _⟩
      simp only [Timely, reply] at timely
      exact ⟨current, onDisk, size, known, timely writing size (current ▸ known)⟩
  | absent text reply zero =>
      have unannounced :
          Tracked.announce ⟨sys, announced⟩ (.proc results buf) = announced := by
        simp [Tracked.announce, reply, zero]
      simp only [Timely, reply, if_pos zero] at timely
      rw [unannounced]
      exact .of_idle (by simp) (covered.noneTruncated timely)
  | begun text reply nonzero =>
      simp only [Timely, reply, if_neg nonzero] at timely
      exact covered.begun reply nonzero timely.1 timely.2
  | grown name count noReply writing handle nonzero short =>
      rw [announce_of_none noReply]
      rcases covered.stored buf count writing handle with ⟨current, onDisk, known⟩
      refine ⟨covered.attended, fun other size bytes announcedOther otherOnDisk => ?_,
        covered.current, fun _ other otherHandle => ?_⟩
      · by_cases same : other = sys.world.rProc.dwName
        · exact Or.inr ⟨writing, same⟩
        · have different : other ≠ name := fun equal => same (equal.trans current)
          simp only [World.stored, Function.update_of_ne different] at otherOnDisk
          exact covered.complete other size bytes announcedOther otherOnDisk
      · have same : other = name := Handle.file.inj (otherHandle.symm.trans handle)
        subst same
        exact ⟨current, onDisk, known⟩
  | finished name count noReply writing handle nonzero full =>
      rw [announce_of_none noReply]
      rcases covered.stored buf count writing handle with
        ⟨current, ⟨bytes, onDisk, counted⟩, size, known, small⟩
      refine .of_idle (by simp) fun other otherSize otherBytes announcedOther otherOnDisk => ?_
      by_cases same : other = name
      · subst same
        cases known.symm.trans announcedOther
        cases onDisk.symm.trans otherOnDisk
        exact Nat.le_trans small (Nat.le_trans full counted)
      · simp only [World.stored, Function.update_of_ne same] at otherOnDisk
        rcases covered.complete other otherSize otherBytes announcedOther otherOnDisk with
          long | ⟨_, named⟩
        · exact long
        · exact absurd (named.trans current.symm) same

theorem Covered.step {tracked next : Tracked} {label : Sys.Label} (covered : Covered tracked)
    (step : Tracked.Step tracked label next) (timely : Timely tracked label) :
    Covered next := by
  rcases tracked with ⟨sys, announced⟩
  rcases Option.map_eq_some_iff.mp step with ⟨after, taken, rfl⟩
  cases Sys.step_stepped taken with
  | pressedSync =>
      exact covered.moved rfl fun ⟨place, member, runs⟩ => ⟨place, by simp [member], runs⟩
  | pressedStop =>
      exact covered.moved rfl fun ⟨place, member, runs⟩ => ⟨place, by simp [member], runs⟩
  | advanced standing advanced => exact covered.advanced standing advanced
  | handled handled => exact covered.handled timely handled

/-- In a run of timely steps, no log is left truncated when no loop is running. -/
theorem none_truncated_of_timely (disk : Disk) (labels : List Sys.Label) (tracked : Tracked)
    (run : Run (Guarded Tracked.Step Timely) (.initial disk) labels tracked)
    (quiet : ∀ place ∈ tracked.sys.threads, place.running = false) : NoneTruncated tracked := by
  have covered : Covered tracked :=
    run.invariant (Covered.initially disk) fun _ _ _ holds step => holds.step step.1 step.2
  apply covered.noneTruncated
  intro writing
  rcases covered.attended writing with ⟨place, member, runs⟩
  rw [quiet place member] at runs
  cases runs

def shortSync : List Sys.Label :=
  [.pressSync, .thread 0, .thread 0, .thread 0, .proc .full (freadLine 1), .proc .full [65],
    .thread 0, .thread 0, .proc .full (freadLine 0), .thread 0, .thread 0]

theorem none_truncated_of_timely_short :
    ∃ tracked, Run (Guarded Tracked.Step Timely) (.initial fun _ => none) shortSync tracked ∧
      NoneTruncated tracked := by
  have run : ∃ tracked, Run (Guarded Tracked.Step Timely) (.initial fun _ => none) shortSync
      tracked ∧ tracked.sys.threads = [.ended] := by
    refine ⟨_, .cons ⟨rfl, trivial⟩ <| .cons ⟨rfl, trivial⟩ <| .cons ⟨rfl, trivial⟩ <|
      .cons ⟨rfl, trivial⟩ <| .cons ⟨rfl, ?_⟩ <| .cons ⟨rfl, trivial⟩ <|
      .cons ⟨rfl, trivial⟩ <| .cons ⟨rfl, trivial⟩ <| .cons ⟨rfl, ?_⟩ <|
      .cons ⟨rfl, trivial⟩ <| .cons ⟨rfl, trivial⟩ <| .nil _, rfl⟩
    · exact (⟨⟨.loop 1, by decide, rfl⟩, by decide⟩ :
        (∃ place ∈ [Place.loop 1], place.running = true) ∧
          announcedSize (Decimal.text 1 ++ [carriageReturn]) ≤ 1)
    · exact (by decide : (1 : Nat) ≠ 2)
  rcases run with ⟨tracked, run, threads⟩
  exact ⟨tracked, run, none_truncated_of_timely _ _ tracked run (by
    rw [threads]
    decide)⟩

def lateReply : List Sys.Label :=
  [.pressSync, .thread 0, .thread 0, .thread 0, .thread 0, .thread 0,
    .proc .full (freadLine 5)]

theorem late_reply_leaves_truncated_log :
    ∃ tracked, Run Tracked.Step (.initial fun _ => none) lateReply tracked ∧
      (∀ place ∈ tracked.sys.threads, place.running = false) ∧ ¬NoneTruncated tracked := by
  refine ⟨_, Run.of_foldlM Tracked.step rfl, by decide, fun none => ?_⟩
  exact absurd (none 1 5 [] rfl rfl) (by decide)

end CosmosPC
