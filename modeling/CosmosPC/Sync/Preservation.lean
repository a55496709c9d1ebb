import CosmosPC.Sync.Device

/-! # The logs that are already there

Which files the program touches, whoever presses what and whatever the port
delivers. A file is written or deleted only under a number that has been asked
for, and a number is asked for only while it has no file. -/

namespace CosmosPC

namespace Place

def Small (place : Place) : Prop := ∀ i, place = .loop i → 1 ≤ i ∧ i < 1000000

theorem small_of_ne {place : Place} (other : ∀ i, place ≠ .loop i) : place.Small :=
  fun i same => absurd same (other i)

theorem small_whileTest {i : Nat} (positive : 1 ≤ i) : (Sys.whileTest i).Small := by
  unfold Sys.whileTest
  split
  case isTrue below =>
      intro j same
      cases same
      exact ⟨positive, below⟩
  case isFalse => exact small_of_ne (by simp)

end Place

namespace Sys

/-- A number that the reader may have a file under: 0, which it starts with, or
one that a request has been sent for. -/
def Asked (requests : List (List UInt8)) (name : Nat) : Prop :=
  name = 0 ∨ freadRequest name ∈ requests

/-- The reader keeps to numbers that have been asked for, all of them missing
on the disk of the start, and so does everything that has changed there. -/
structure Sparing (disk : Disk) (sys : Sys) : Prop where
  named : Asked sys.requests sys.world.rProc.dwName
  last : ∀ name, sys.world.rProc.szLastFile = some name → Asked sys.requests name
  handle : ∀ name, sys.world.rProc.hfile = .file name → Asked sys.requests name
  changed : ∀ name, sys.world.disk name ≠ disk name → Asked sys.requests name
  missing : ∀ request ∈ sys.requests,
    ∃ i, 1 ≤ i ∧ i < 1000000 ∧ request = freadRequest i ∧ disk i = none
  small : ∀ place ∈ sys.threads, place.Small

variable {disk : Disk} {sys : Sys}

theorem freadRequest_inj {i j : Nat} (smallI : i < 1000000) (smallJ : j < 1000000)
    (same : freadRequest i = freadRequest j) : i = j := by
  rw [← requestedNumber_freadRequest i smallI, same, requestedNumber_freadRequest j smallJ]

theorem Sparing.initially (disk : Disk) : Sparing disk (.initial disk) where
  named := Or.inl rfl
  last _ named := by cases named
  handle _ opened := by cases opened
  changed _ changed := absurd rfl changed
  missing _ member := by cases member
  small _ member := by cases member

theorem Sparing.not_asked (sparing : Sparing disk sys) {i : Nat} (positive : 1 ≤ i)
    (small : i < 1000000) (present : disk i ≠ none) : ¬Asked sys.requests i := by
  rintro (zero | member)
  · omega
  · rcases sparing.missing _ member with ⟨j, _, smallJ, same, absent⟩
    rw [freadRequest_inj small smallJ same] at present
    exact present absent

theorem Asked.more {requests : List (List UInt8)} {name : Nat} (asked : Asked requests name)
    (request : List UInt8) : Asked (requests ++ [request]) name :=
  asked.imp_right fun member => List.mem_append_left _ member

theorem Sparing.moved (sparing : Sparing disk sys) {moved : Sys} (world : moved.world = sys.world)
    (requests : moved.requests = sys.requests)
    (small : ∀ place ∈ moved.threads, place.Small) : Sparing disk moved := by
  rcases sparing with ⟨named, last, handle, changed, missing, _⟩
  refine ⟨?_, ?_, ?_, ?_, ?_, small⟩
  · rwa [requests, world]
  · rwa [requests, world]
  · rwa [requests, world]
  · rwa [requests, world]
  · rwa [requests]

theorem Sparing.handled (sparing : Sparing disk sys) {world : World}
    (named : Asked sys.requests world.rProc.dwName)
    (last : ∀ name, world.rProc.szLastFile = some name → Asked sys.requests name)
    (handle : ∀ name, world.rProc.hfile = .file name → Asked sys.requests name)
    (changed : ∀ name, world.disk name ≠ sys.world.disk name → Asked sys.requests name) :
    Sparing disk { sys with world := world } := by
  refine ⟨named, last, handle, fun name different => ?_, sparing.missing, sparing.small⟩
  by_cases same : world.disk name = sys.world.disk name
  · exact sparing.changed name (same ▸ different)
  · exact changed name same

theorem disk_update_ne {disk : Disk} {own name : Nat} {content : Option (List UInt8)}
    (changed : Function.update disk own content name ≠ disk name) : name = own := by
  by_contra other
  exact changed (Function.update_of_ne other _ _)

theorem Sparing.proc (sparing : Sparing disk sys) {results : FileResults} {buf : List UInt8}
    {world : World} (handled : World.Handled results buf sys.world world) :
    Sparing disk { sys with world := world } := by
  have unchanged (name : Nat) (changed : sys.world.disk name ≠ sys.world.disk name) :
      Asked sys.requests name := absurd rfl changed
  cases handled with
  | ignored => exact sparing
  | sized => exact sparing.handled sparing.named sparing.last sparing.handle unchanged
  | absent => exact sparing.handled sparing.named sparing.last sparing.handle unchanged
  | begun text reply nonzero =>
      rw [World.fread, if_neg nonzero]
      refine sparing.handled sparing.named ?_ ?_ ?_
      · intro name same
        cases same
        exact sparing.named
      · intro name opened
        cases created : results.created <;> simp [World.initFile, created] at opened
        subst opened
        exact sparing.named
      · intro name changed
        cases created : results.created <;> simp only [World.initFile, created] at changed
        · exact absurd rfl changed
        · rw [disk_update_ne changed]
          exact sparing.named
  | grown name count noReply writing opened =>
      refine sparing.handled sparing.named sparing.last sparing.handle ?_
      intro other changed
      rw [disk_update_ne changed]
      exact sparing.handle name opened
  | finished name count noReply writing opened =>
      refine sparing.handled sparing.named sparing.last (fun _ open_ => by cases open_) ?_
      intro other changed
      rw [disk_update_ne changed]
      exact sparing.handle name opened

theorem all_set {holds : Party → Prop} {parties : List Party}
    (all : ∀ party ∈ parties, holds party) (k : Nat) {moved : Party} (own : holds moved) :
    ∀ party ∈ parties.set k moved, holds party := by
  intro party member
  rcases List.mem_or_eq_of_mem_set member with before | same
  · exact all party before
  · exact same ▸ own

theorem Sparing.finish (sparing : Sparing disk sys) {threads : List Place}
    (small : ∀ place ∈ threads, place.Small) :
    Sparing disk { sys.finish with threads := threads } := by
  have kept : Sparing disk { sys with threads := threads } := sparing.moved rfl rfl small
  have closed (name : Nat) (opened : Handle.null = .file name) : Asked sys.requests name := by
    cases opened
  unfold Sys.finish
  by_cases writing : sys.world.rProc.flag = 2
  · rw [if_pos writing]
    cases last : sys.world.rProc.szLastFile with
    | none =>
        have world : sys.world.deleteLastFile = sys.world.deinitFile := by
          simp [World.deleteLastFile, last]
        simp only [setFlag, world]
        exact kept.handled sparing.named sparing.last closed fun _ changed => absurd rfl changed
    | some own =>
        have world : sys.world.deleteLastFile =
            { sys.world.deinitFile with disk := Function.update sys.world.disk own none } := by
          simp [World.deleteLastFile, last]
        simp only [setFlag, world]
        refine kept.handled sparing.named sparing.last closed fun name changed => ?_
        rw [disk_update_ne changed]
        exact sparing.last own last
  · rw [if_neg writing]
    exact kept.handled sparing.named sparing.last sparing.handle
      fun _ changed => absurd rfl changed

theorem Sparing.request (sparing : Sparing disk sys) {i : Nat} (positive : 1 ≤ i)
    (below : i < 1000000) (absent : sys.world.disk i = none) {threads : List Place}
    (small : ∀ place ∈ threads, place.Small) :
    Sparing disk { sys.request i with threads := threads } := by
  have own : freadRequest i ∈ sys.requests ++ [freadRequest i] := by simp
  have missing : disk i = none := by
    by_contra present
    refine sparing.not_asked positive below present (sparing.changed i ?_)
    rw [absent]
    exact fun same => present same.symm
  refine ⟨Or.inr own, fun name same => (sparing.last name same).more _,
    fun name same => (sparing.handle name same).more _,
    fun name same => (sparing.changed name same).more _, fun request member => ?_, small⟩
  rcases List.mem_append.mp member with before | new
  · exact sparing.missing request before
  · exact ⟨i, positive, below, List.mem_singleton.mp new, missing⟩

theorem Sparing.advanced (sparing : Sparing disk sys) {k : Nat} {place after : Place} {moved : Sys}
    (standing : sys.threads[k]? = some place) (advanced : Advanced sys place after moved) :
    Sparing disk { moved with threads := sys.threads.set k after } := by
  have first : (Place.loop 1).Small := fun i same => by
    cases same
    exact ⟨Nat.le_refl 1, by decide⟩
  cases advanced with
  | meets => exact sparing.moved rfl rfl (all_set sparing.small k (Place.small_of_ne (by simp)))
  | joins => exact sparing.moved rfl rfl (all_set sparing.small k first)
  | connects => exact sparing.moved rfl rfl (all_set sparing.small k first)
  | stops =>
      have same : sys.disconnect.world = sys.world ∧ sys.disconnect.requests = sys.requests := by
        unfold disconnect
        split <;> exact ⟨rfl, rfl⟩
      exact sparing.moved same.1 same.2 (all_set sparing.small k (Place.small_of_ne (by simp)))
  | finishes => exact sparing.finish (all_set sparing.small k (Place.small_of_ne (by simp)))
  | @iterates i _ _ iterated =>
      rcases sparing.small _ (List.mem_of_getElem? standing) i rfl with ⟨positive, below⟩
      have stays := all_set sparing.small k (Place.small_whileTest positive)
      have next := all_set sparing.small k (Place.small_whileTest (Nat.le_add_left 1 i))
      have ending : Place.ending.Small := Place.small_of_ne (by simp)
      have ends := all_set sparing.small k ending
      cases iterated with
      | closed => exact sparing.moved rfl rfl ends
      | refused => exact sparing.moved rfl rfl ends
      | skipped => exact sparing.moved rfl rfl next
      | waited => exact sparing.moved rfl rfl stays
      | requested _ absent => exact sparing.request positive below absent stays
      | parsed =>
          have kept : Sparing disk
              { sys with parsed := sys.parsed ++ [i], threads := sys.threads.set k _ } :=
            sparing.moved rfl rfl next
          exact kept.handled sparing.named sparing.last sparing.handle
            fun _ changed => absurd rfl changed

theorem Sparing.step {next : Sys} {label : Label} (sparing : Sparing disk sys)
    (step : Step sys label next) : Sparing disk next := by
  have added {place : Place} (other : ∀ i, place ≠ .loop i) :
      ∀ any ∈ sys.threads ++ [place], any.Small := by
    intro any member
    rcases List.mem_append.mp member with before | new
    · exact sparing.small any before
    · rw [List.mem_singleton.mp new]
      exact Place.small_of_ne other
  cases step_stepped step with
  | pressedSync => exact sparing.moved rfl rfl (added (by simp))
  | pressedStop => exact sparing.moved rfl rfl (added (by simp))
  | advanced standing advanced => exact sparing.advanced standing advanced
  | handled handled => exact sparing.proc handled

/-- Over any number of presses, in any order with what the port delivers, and
whatever becomes of the file operations of `proc`, as long as `checkFileExist`
tells the truth: only files that have been asked for are touched, only what is
missing is asked for, and so a log that is there at the start stays as it is. -/
theorem sync_keeps_logs (disk : Disk) (labels : List Label) (sys : Sys)
    (run : Run Step (.initial disk) labels sys) :
    (∀ name, sys.world.disk name ≠ disk name → name = 0 ∨ freadRequest name ∈ sys.requests) ∧
      (∀ request ∈ sys.requests,
        ∃ i, 1 ≤ i ∧ i < 1000000 ∧ request = freadRequest i ∧ disk i = none) ∧
      ∀ i, 1 ≤ i → i < 1000000 → disk i ≠ none → sys.world.disk i = disk i := by
  have sparing : Sparing disk sys :=
    run.invariant (Sparing.initially disk) fun _ _ _ holds step => holds.step step
  refine ⟨sparing.changed, sparing.missing, fun i positive below present => ?_⟩
  by_contra changed
  exact sparing.not_asked positive below present (sparing.changed i changed)

def besideFirst : List Label :=
  [.pressSync, .thread 0, .thread 0, .thread 0, .thread 0, .proc .full (freadLine 1),
    .proc .full [65]]

theorem sync_keeps_logs_beside_first :
    ∃ sys, Run Step (.initial fun name => if name = 1 then some [66] else none) besideFirst sys ∧
      sys.world.disk 2 = some [65] ∧ sys.world.disk 1 = some [66] := by
  have run : ∃ sys, Run Step (.initial fun name => if name = 1 then some [66] else none)
      besideFirst sys ∧ sys.world.disk 2 = some [65] := ⟨_, Run.of_foldlM step rfl, rfl⟩
  rcases run with ⟨sys, run, second⟩
  have kept := (sync_keeps_logs _ besideFirst sys run).2.2 1 (by decide) (by decide) (by simp)
  exact ⟨sys, run, second, kept⟩

end Sys

end CosmosPC
