import CosmosPC.Sync.Interruption

/-! # Quitting the program

The window can be closed, and the program thereby ended, at any moment of a run
of `doSync`. The next start begins with what is on disk then. A file that was
being written is there in part, and to `checkFileExist` it looks like any other. -/

namespace CosmosPC

namespace Session

variable {disk middle after : Disk} {device : Device} {m i : Nat} {session : Session}

/-- What is on disk at some moment of a run: the missing files below `i` are in
place, and of number `i` there may be a beginning. -/
structure InPart (disk : Disk) (device : Device) (m i : Nat) (after : Disk) : Prop where
  positive : 1 ≤ i
  within : i ≤ m
  others : ∀ j, j ≠ i → after j = synced disk device.files i j
  last : after i = disk i ∨
    disk i = none ∧ i < m ∧ ∃ stored, after i = some stored ∧ stored <+: device.files i

theorem At.inPart (standing : At disk device m i session)
    (last : session.sys.world.disk i = disk i ∨ disk i = none ∧ i < m ∧
      ∃ stored, session.sys.world.disk i = some stored ∧ stored <+: device.files i) :
    InPart disk device m i session.sys.world.disk :=
  ⟨standing.positive, standing.within, standing.others, last⟩

theorem inPart_of_synced (positive : 1 ≤ i) (within : i ≤ m)
    (onDisk : ∀ j, after j = synced disk device.files i j) : InPart disk device m i after :=
  ⟨positive, within, fun j _ => onDisk j, Or.inl ((onDisk i).trans (synced_of_le (Nat.le_refl i)))⟩

theorem Stage.inPart (gap : FirstGap disk device m) {rank : Nat}
    (stage : Stage disk device m session rank) :
    ∃ i, InPart disk device m i session.sys.world.disk := by
  cases stage with
  | starting _ _ _ _ onDisk =>
      refine ⟨1, inPart_of_synced (Nat.le_refl 1) gap.positive fun j => ?_⟩
      rw [onDisk]
      exact (if_neg fun before => by omega).symm
  | idle i _ standing _ _ _ onDisk => exact ⟨i, standing.inPart (Or.inl onDisk)⟩
  | asked i _ standing _ _ _ _ absent onDisk =>
      exact ⟨i, standing.inPart (Or.inl (onDisk.trans absent.symm))⟩
  | filling i _ standing _ inside stored _ absent _ filling whole =>
      exact ⟨i, standing.inPart
        (Or.inr ⟨absent, inside, stored, filling.onDisk, session.rest, whole⟩)⟩
  | filled i _ standing _ inside _ absent _ _ filled =>
      exact ⟨i, standing.inPart
        (Or.inr ⟨absent, inside, _, filled.onDisk, List.prefix_refl _⟩)⟩
  | gap standing _ _ onDisk =>
      exact ⟨m, standing.inPart (Or.inl (onDisk.trans gap.absent.symm))⟩
  | ending _ _ result =>
      have onDisk := synchronised_onDisk result
      exact ⟨m, inPart_of_synced gap.positive (Nat.le_refl m) onDisk⟩
  | ended _ result =>
      exact ⟨m, inPart_of_synced gap.positive (Nat.le_refl m) (synchronised_onDisk result)⟩

theorem Halted.inPart (gap : FirstGap disk device m) (halted : Halted disk device m i session) :
    InPart disk device m i session.sys.world.disk := by
  rcases halted with ⟨_, _, positive, within, others, handling⟩
  have inside (held : device.files i ≠ []) : i < m := by
    rcases Nat.lt_or_eq_of_le within with less | same
    · exact less
    · exact absurd (same ▸ gap.unheld) held
  refine ⟨positive, within, others, ?_⟩
  cases handling with
  | quiet _ onDisk => exact Or.inl onDisk
  | asked _ _ absent onDisk => exact Or.inl (onDisk.trans absent.symm)
  | filling stored absent _ filling whole =>
      have held : device.files i ≠ [] :=
        List.length_pos_iff.mp (Nat.lt_of_le_of_lt (Nat.zero_le _) filling.short)
      exact Or.inr ⟨absent, inside held, stored, filling.onDisk, session.rest, whole⟩
  | filled absent held _ filled =>
      exact Or.inr ⟨absent, inside held, _, filled.onDisk, List.prefix_refl _⟩

theorem Stoppable.inPart (gap : FirstGap disk device m)
    (stoppable : Stoppable disk device m session) :
    ∃ i, InPart disk device m i session.sys.world.disk := by
  change ∃ i, InPart disk device m i session.alone.sys.world.disk
  cases stoppable.course with
  | running rank stage => exact stage.inPart gap
  | halted i halted => exact ⟨i, halted.inPart gap⟩
  | rested rested =>
      rcases rested.onDisk with ⟨i, positive, within, onDisk⟩
      exact ⟨i, inPart_of_synced positive within onDisk⟩

/-! ## Starting again -/

/-- What can be on disk after the program has been started and ended `count`
times: each time after runs of `doSync` that have come to an end, and at any
moment of a last one. -/
inductive Quits (device : Device) (disk : Disk) : Nat → Disk → Prop
  | never : Quits device disk 0 disk
  | again {count before sys events session} (earlier : Quits device disk count before)
      (stopped : Stopped device (.initial before) sys)
      (run : Run (Interruptible device) (begin (pressAgain sys)) events session) :
      Quits device disk (count + 1) session.sys.world.disk

/-- The files that are there in part, and the others as after a run that has
been stopped. -/
structure Torn (disk : Disk) (device : Device) (m : Nat) (torn : List Nat) (after : Disk) :
    Prop where
  whole : ∃ i, 1 ≤ i ∧ i ≤ m ∧ ∀ j, j ∉ torn → after j = synced disk device.files i j
  among : ∀ j ∈ torn, 1 ≤ j ∧ j < m ∧ disk j = none
  part : ∀ j ∈ torn, ∃ stored, after j = some stored ∧ stored <+: device.files j ∧
    stored ≠ device.files j

variable {torn : List Nat}

theorem synced_congr {disk other : Disk} (files : Nat → List UInt8) {i j : Nat}
    (same : disk j = other j) : synced disk files i j = synced other files i j := by
  rw [synced, synced, same]

theorem Torn.present (holds : Torn disk device m torn middle) {j : Nat} (member : j ∈ torn) :
    middle j ≠ none := by
  rcases holds.part j member with ⟨stored, onDisk, _⟩
  simp [onDisk]

theorem Torn.absent (holds : Torn disk device m torn middle) {j : Nat} (absent : middle j = none) :
    j ∉ torn ∧ disk j = none := by
  have apart : j ∉ torn := fun member => holds.present member absent
  rcases holds.whole with ⟨i, _, _, whole⟩
  refine ⟨apart, ?_⟩
  by_contra there
  rw [whole j apart, synced_of_present there] at absent
  exact there absent

theorem Torn.gap (holds : Torn disk device m torn middle) (gap : FirstGap disk device m) :
    FirstGap middle device m where
  positive := gap.positive
  small := gap.small
  absent := by
    rcases holds.whole with ⟨i, _, within, whole⟩
    have apart : m ∉ torn := fun member => Nat.lt_irrefl m (holds.among m member).2.1
    rw [whole m apart, synced_of_le within, gap.absent]
  unheld := gap.unheld
  least j low high absent := gap.least j low high (holds.absent absent).2

theorem Torn.further (holds : Torn disk device m torn middle) {k : Nat} (within : k ≤ m)
    (onDisk : ∀ j, after j = synced middle device.files k j) :
    Torn disk device m torn after := by
  rcases holds.whole with ⟨i, positive, inside, whole⟩
  refine ⟨⟨max i k, by omega, Nat.max_le.mpr ⟨inside, within⟩, fun j apart => ?_⟩,
    holds.among, fun j member => ?_⟩
  · rw [onDisk j, synced_congr device.files (whole j apart), synced_synced]
  · rw [onDisk j, synced_of_present (holds.present member)]
    exact holds.part j member

theorem Torn.inPart (holds : Torn disk device m torn middle) {k : Nat}
    (quit : InPart middle device m k after) :
    ∃ more, more.length ≤ torn.length + 1 ∧ Torn disk device m more after := by
  rcases quit with ⟨positive, within, others, last⟩
  rcases last with same | ⟨absent, inside, stored, onDisk, part⟩
  · refine ⟨torn, Nat.le_succ _, holds.further within fun j => ?_⟩
    by_cases number : j = k
    · rw [number, same, synced_of_le (Nat.le_refl k)]
    · exact others j number
  by_cases whole : stored = device.files k
  · refine ⟨torn, Nat.le_succ _, holds.further (k := k + 1) inside fun j => ?_⟩
    by_cases number : j = k
    · rw [number, synced_succ_self device.files positive absent, onDisk, whole]
    · rw [synced_succ middle device.files number]
      exact others j number
  · rcases holds.absent absent with ⟨apart, first⟩
    rcases holds.whole with ⟨i, low, high, before⟩
    refine ⟨k :: torn, Nat.le_refl _, ⟨max i k, by omega, Nat.max_le.mpr ⟨high, within⟩, ?_⟩,
      ?_, ?_⟩
    · intro j outside
      rw [others j (List.ne_of_not_mem_cons outside), synced_congr device.files
        (before j (List.not_mem_of_not_mem_cons outside)), synced_synced]
    · intro j member
      rcases List.mem_cons.mp member with rfl | earlier
      · exact ⟨positive, inside, first⟩
      · exact holds.among j earlier
    · intro j member
      rcases List.mem_cons.mp member with rfl | earlier
      · exact ⟨stored, onDisk, part, whole⟩
      · have number : j ≠ k := fun same => apart (same ▸ earlier)
        rw [others j number, synced_of_present (holds.present earlier)]
        exact holds.part j earlier

theorem Quits.leave (gap : FirstGap disk device m) {count : Nat}
    (quits : Quits device disk count after) :
    ∃ torn, torn.length ≤ count ∧ Torn disk device m torn after := by
  induction quits with
  | never =>
      refine ⟨[], Nat.le_refl 0, ⟨1, Nat.le_refl 1, gap.positive, fun j _ => ?_⟩, ?_, ?_⟩
      · exact (if_neg fun before => by omega).symm
      · intro j member
        cases member
      · intro j member
        cases member
  | @again count before sys events session _ stopped run induction =>
      rcases induction with ⟨torn, few, holds⟩
      rcases stopped.left (holds.gap gap) with ⟨left, connected, tied⟩
      rcases left.onDisk with ⟨k, _, within, onDisk⟩
      have started := holds.further within onDisk
      have stoppable := run.history_invariant (fun _ => Stoppable sys.world.disk device m)
        (stoppable_again left connected tied) fun _ _ _ _ stoppable step =>
          stoppable.step (started.gap gap) step
      rcases stoppable.inPart (started.gap gap) with ⟨i, quit⟩
      rcases started.inPart quit with ⟨more, bound, torn⟩
      exact ⟨more, by omega, torn⟩

end Session

open Session in
/-- Each time the program is ended, at any moment of a run next to a device, at
most one file is left in part. All others are as they were, or in place and
whole. A run that is not stopped then puts all that is still missing in place;
what is there in part stays as it is, for it is never asked for again. -/
theorem quit_sync_tears_one_file (device : Device) (disk : Disk) (m : Nat)
    (gap : FirstGap disk device m) (count : Nat) (after : Disk)
    (quits : Quits device disk count after) :
    ∃ torn : List Nat, torn.length ≤ count ∧
      (∀ j ∈ torn, disk j = none ∧ ∃ stored, after j = some stored ∧
        stored <+: device.files j ∧ stored ≠ device.files j) ∧
      (∀ j, j ∉ torn → after j = disk j ∨ disk j = none ∧ after j = some (device.files j)) ∧
      ∃ bound, ∀ labels session,
        Run (Step device) (begin (pressAgain (.initial after))) labels session →
          labels.countP Label.isProgress ≤ bound ∧
          (session.Over → ∀ j, session.sys.world.disk j =
            if j ∈ torn then after j else synced disk device.files m j) ∧
          (¬session.Over → ∃ label next, label.isProgress = true ∧
            Step device session label next) := by
  rcases quits.leave gap with ⟨torn, few, holds⟩
  refine ⟨torn, few, fun j member => ⟨(holds.among j member).2.2, holds.part j member⟩,
    fun j apart => ?_, ?_⟩
  · rcases holds.whole with ⟨i, _, _, whole⟩
    rw [whole j apart, synced]
    split
    case isTrue conditions => exact Or.inr ⟨conditions.2.2, rfl⟩
    case isFalse => exact Or.inl rfl
  · have unstopped : Stopped device (.initial after) (.initial after) := .never
    rcases unstopped.left (holds.gap gap) with ⟨left, connected, _⟩
    refine ⟨toCome device m 1 + if (pressAgain (.initial after)).threads = [.start] then 2 else 1,
      fun labels session run => ?_⟩
    rcases run.ranked (Stage after device m) Label.isProgress
      (starting_again left connected) fun _ _ _ _ stage step => stage.step (holds.gap gap) step with
      ⟨rank, stage, counted⟩
    refine ⟨Nat.le_of_add_left_le counted, fun ended j => ?_, stage.goes_on⟩
    rw [synchronised_onDisk (stage.synchronised ended)]
    by_cases member : j ∈ torn
    · rw [if_pos member, synced_of_present (holds.present member)]
    · rcases holds.whole with ⟨i, _, within, whole⟩
      rw [if_neg member, synced_congr device.files (whole j member), synced_synced,
        Nat.max_eq_right within]

namespace Session

def quitAtFirst : List Event :=
  [.session .iterate, .session .iterate, .session .iterate, .session .answer]

theorem quits_at_first :
    ∃ after : Disk, Quits oneLog (fun _ => none) 1 after ∧ after 1 = some [] := by
  have run : ∃ session, Run (Interruptible oneLog) (begin (pressAgain (.initial fun _ => none)))
      quitAtFirst session ∧ session.sys.world.disk 1 = some [] := by
    refine ⟨_, .cons (.session (.iterate rfl (by decide) rfl) nofun) <|
      .cons (.session (.iterate rfl (by decide) rfl) nofun) <|
      .cons (.session (.iterate rfl (by decide) rfl) nofun) <|
      .cons (.session (.answer rfl rfl) fun _ => nofun) <| .nil _, rfl⟩
  rcases run with ⟨session, run, begun⟩
  exact ⟨session.sys.world.disk, .again .never .never run, begun⟩

end Session

open Session in
theorem quit_sync_tears_one_file_first :
    ∃ after : Disk, Quits oneLog (fun _ => none) 1 after ∧ ∀ labels session,
      Run (Step oneLog) (begin (pressAgain (.initial after))) labels session →
        session.Over → session.sys.world.disk 1 = some [] := by
  rcases quits_at_first with ⟨after, quits, begun⟩
  have gap : FirstGap (fun _ => none) oneLog 2 :=
    ⟨by decide, by decide, rfl, rfl, fun i low high _ => by
      have one : i = 1 := by omega
      simp [oneLog, one]⟩
  rcases quit_sync_tears_one_file oneLog (fun _ => none) 2 gap 1 after quits with
    ⟨torn, _, _, whole, bound, runs⟩
  refine ⟨after, quits, fun labels session run ended => ?_⟩
  have member : 1 ∈ torn := by
    by_contra apart
    rcases whole 1 apart with same | ⟨_, same⟩
    · cases begun.symm.trans same
    · cases begun.symm.trans same
  rw [(runs labels session run).2.1 ended 1, if_pos member, begun]

end CosmosPC
