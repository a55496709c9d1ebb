import CosmosPC.Foundation.Potentials
import CosmosPC.Parser.CutOff
import CosmosPC.Parser.Threads
import CosmosPC.Sync.Completeness

/-! # From the device to the lines

A run of `doSync` next to a device, together with the threads of `doParseFile`
that it starts and that run while it goes on with the next numbers. A log file
that has been downloaded stays as it is, so each thread reads the bytes that the
device has sent, whatever comes between its steps. -/

namespace CosmosPC

namespace Session

variable {disk : Disk} {device : Device} {m : Nat} {session next : Session}

/-- How far the parsers have got: one for each number that was missing and has
been downloaded since. -/
structure Downloaded (disk : Disk) (device : Device) (m : Nat) (sys : Sys) : Prop where
  parsed : ∃ i, i ≤ m ∧ sys.parsed = missing disk i
  onDisk : ∀ j ∈ sys.parsed, sys.world.disk j = some (device.files j)

theorem At.downloaded {i : Nat} (standing : At disk device m i session) :
    Downloaded disk device m session.sys where
  parsed := ⟨i, standing.within, standing.parsed⟩
  onDisk j among := by
    rw [standing.parsed] at among
    rcases mem_missing.mp among with ⟨positive, below, absent⟩
    rw [standing.others j (by omega), synced, if_pos ⟨positive, below, absent⟩]

theorem downloaded_of_synchronised {sys : Sys} (result : Synchronised disk device m sys) :
    Downloaded disk device m sys where
  parsed := ⟨m, Nat.le_refl m, result.parsed⟩
  onDisk j among := result.downloaded j (result.parsed ▸ among)

theorem Stage.downloaded {rank : Nat} (gap : FirstGap disk device m)
    (stage : Stage disk device m session rank) : Downloaded disk device m session.sys := by
  cases stage with
  | starting _ _ _ parsed =>
      refine ⟨⟨1, gap.positive, parsed⟩, fun j among => ?_⟩
      rw [parsed] at among
      cases among
  | idle i left standing => exact standing.downloaded
  | asked i left standing => exact standing.downloaded
  | filling i left standing => exact standing.downloaded
  | filled i left standing => exact standing.downloaded
  | gap standing => exact standing.downloaded
  | ending _ _ result =>
      rcases downloaded_of_synchronised result with ⟨parsed, onDisk⟩
      exact ⟨parsed, onDisk⟩
  | ended _ result => exact downloaded_of_synchronised result

theorem Downloaded.nodup {sys : Sys} (downloaded : Downloaded disk device m sys) :
    sys.parsed.Nodup := by
  rcases downloaded.parsed with ⟨i, _, parsed⟩
  rw [parsed]
  exact List.Nodup.filter _ List.nodup_range'

theorem Downloaded.held {sys : Sys} (downloaded : Downloaded disk device m sys)
    (gap : FirstGap disk device m) {j : Nat} (among : j ∈ sys.parsed) :
    1 ≤ j ∧ j ≤ device.count := by
  rcases downloaded.parsed with ⟨i, within, parsed⟩
  rw [parsed] at among
  rcases mem_missing.mp among with ⟨positive, below, absent⟩
  by_contra outside
  exact gap.least j positive (by omega) absent (device.unheld j outside)

theorem Step.parsed {label : Label} (step : Step device session label next) :
    next.sys.parsed = session.sys.parsed ∨
      label.isProgress = true ∧ ∃ i, next.sys.parsed = session.sys.parsed ++ [i] := by
  have thread {sys : Sys} (taken : Sys.Step session.sys (.thread 0) sys) :
      sys.parsed = session.sys.parsed ∨
        session.sys.world.rProc.flag = 3 ∧ ∃ i, sys.parsed = session.sys.parsed ++ [i] := by
    cases Sys.step_stepped taken with
    | advanced standing advanced =>
        cases advanced with
        | meets => exact Or.inl rfl
        | joins => exact Or.inl rfl
        | connects => exact Or.inl rfl
        | stops =>
            unfold Sys.disconnect
            split <;> exact Or.inl rfl
        | finishes =>
            unfold Sys.finish
            split <;> exact Or.inl rfl
        | @iterates i _ _ iterated =>
            cases iterated with
            | closed => exact Or.inl rfl
            | skipped => exact Or.inl rfl
            | requested => exact Or.inl rfl
            | waited => exact Or.inl rfl
            | parsed finished => exact Or.inr ⟨finished, i, rfl⟩
            | refused => exact Or.inl rfl
  cases step with
  | wait _ writing taken =>
      rcases thread taken with same | ⟨finished, _⟩
      · exact Or.inl same
      · cases writing.symm.trans finished
  | iterate _ _ taken => exact (thread taken).imp_right fun started => ⟨rfl, started.2⟩
  | answer _ taken =>
      rcases Sys.step_proc taken with ⟨world, _, rfl⟩
      exact Or.inl rfl
  | deliver _ _ _ _ taken =>
      rcases Sys.step_proc taken with ⟨world, _, rfl⟩
      exact Or.inl rfl

end Session

/-- A session, the threads of `doParseFile` with their numbers, and the files
that they write. -/
structure Harvest where
  session : Session
  parsers : List (Nat × ParserPlace)
  dests : Dests

namespace Harvest

inductive Label
  | session (label : Session.Label) (buffer : List UInt8)
  | parser (k : Nat)

def Label.isProgress : Label → Bool
  | .session label _ => label.isProgress
  | .parser _ => true

/-- The threads that a step has started. -/
def startedBy (before after : Sys) (buffer : List UInt8) : List (Nat × ParserPlace) :=
  (after.parsed.drop before.parsed.length).map fun i => (i, .opening buffer)

section Steps

variable (sizes : StorageSizes) (readers : StorageReaders)

inductive Step (device : Device) : Harvest → Label → Harvest → Prop
  | session {harvest label buffer next} (step : Session.Step device harvest.session label next) :
      Step device harvest (.session label buffer)
        { harvest with
          session := next
          parsers := harvest.parsers ++ startedBy harvest.session.sys next.sys buffer }
  | parser {harvest k i place after dests} (standing : harvest.parsers[k]? = some (i, place))
      (taken : parserAdvance sizes readers i harvest.session.sys.world.disk harvest.dests place =
        some (after, dests)) :
      Step device harvest (.parser k)
        { harvest with parsers := harvest.parsers.set k (i, after), dests := dests }

def begin (sys : Sys) (dests : Dests) : Harvest := ⟨Session.begin sys, [], dests⟩

def Over (harvest : Harvest) : Prop :=
  harvest.session.Over ∧ ∀ parser ∈ harvest.parsers, parser.2 = .closed

/-- The files that are there when the logs of the given numbers have been parsed. -/
def gathered (logs : Nat → Log sizes) (before : Dests) (numbers : List Nat) : Dests := fun name =>
  match numbers.find? fun i => destName readers i (logs i).head = name with
  | some i => some (logLines readers i (logs i))
  | none => before name

def destOf (device : Device) (i : Nat) : Text :=
  destName readers i ((device.files i).take sizes.head)

structure Gathering (device : Device) (before : Dests) (harvest : Harvest) : Prop where
  started : harvest.parsers.map Prod.fst = harvest.session.sys.parsed
  parsing : ∀ (k i : Nat) (place : ParserPlace), harvest.parsers[k]? = some (i, place) →
    Parsing sizes readers i (device.files i) harvest.dests place
  others : ∀ name,
    (∀ i ∈ harvest.session.sys.parsed, name ≠ destOf sizes readers device i) →
      harvest.dests name = before name

end Steps

/-- The most that a thread may cost. -/
def parserPrice : Nat := 2 ^ 31 + 2

variable {sizes : StorageSizes} {readers : StorageReaders} {disk : Disk} {device : Device} {m : Nat}
  {before : Dests} {harvest next : Harvest}

def parsersCost (device : Device) (parsers : List (Nat × ParserPlace)) : Nat :=
  totalWeight (fun parser => parserCost (device.files parser.1) parser.2) parsers

theorem startedBy_same {earlier later : Sys} (same : later.parsed = earlier.parsed)
    (buffer : List UInt8) : startedBy earlier later buffer = [] := by
  simp [startedBy, same]

theorem startedBy_concat {earlier later : Sys} {i : Nat}
    (started : later.parsed = earlier.parsed ++ [i]) (buffer : List UInt8) :
    startedBy earlier later buffer = [(i, .opening buffer)] := by
  simp [startedBy, started]

theorem Gathering.session (gathering : Gathering sizes readers device before harvest)
    {label : Session.Label} {session : Session}
    (step : Session.Step device harvest.session label session) (buffer : List UInt8) :
    Gathering sizes readers device before
        { harvest with
          session := session
          parsers := harvest.parsers ++ startedBy harvest.session.sys session.sys buffer } ∧
      parsersCost device (harvest.parsers ++ startedBy harvest.session.sys session.sys buffer) ≤
        parsersCost device harvest.parsers + if label.isProgress then parserPrice else 0 := by
  rcases step.parsed with same | ⟨progress, i, started⟩
  · rw [startedBy_same same, List.append_nil]
    refine ⟨⟨gathering.started.trans same.symm, gathering.parsing, fun name other => ?_⟩,
      Nat.le_add_right _ _⟩
    exact gathering.others name (same ▸ other)
  · rw [startedBy_concat started, progress, if_pos rfl, parsersCost, totalWeight_concat]
    refine ⟨⟨?_, fun k j place standing => ?_, fun name other => ?_⟩, ?_⟩
    · rw [List.map_append, gathering.started, started]
      rfl
    · rcases Nat.lt_or_ge k harvest.parsers.length with old | new
      · rw [List.getElem?_append_left old] at standing
        exact gathering.parsing k j place standing
      · rw [List.getElem?_append_right new] at standing
        rcases List.mem_singleton.mp (List.mem_of_getElem? standing) with ⟨rfl, rfl⟩
        exact .opening buffer
    · refine gathering.others name fun j among => other j ?_
      rw [started]
      exact List.mem_append_left _ among
    · have price : parserCost (device.files i) (.opening buffer) ≤ parserPrice :=
        Nat.add_le_add_right (Nat.le_of_lt (Session.length_files device i)) 2
      exact Nat.add_le_add_left price _

theorem Gathering.parser (gathering : Gathering sizes readers device before harvest)
    (downloaded : Session.Downloaded disk device m harvest.session.sys) {k i : Nat}
    {place after : ParserPlace} {dests : Dests} (standing : harvest.parsers[k]? = some (i, place))
    (taken : parserAdvance sizes readers i harvest.session.sys.world.disk harvest.dests place =
      some (after, dests)) :
    Gathering sizes readers device before
        { harvest with parsers := harvest.parsers.set k (i, after), dests := dests } ∧
      parsersCost device (harvest.parsers.set k (i, after)) + 1 ≤
        parsersCost device harvest.parsers := by
  have member : (i, place) ∈ harvest.parsers := List.mem_of_getElem? standing
  have among : i ∈ harvest.session.sys.parsed := by
    rw [← gathering.started]
    exact List.mem_map_of_mem (f := Prod.fst) member
  have stepped := (gathering.parsing k i place standing).step (downloaded.onDisk i among) taken
  have numbers : (harvest.parsers.set k (i, after)).map Prod.fst =
      harvest.parsers.map Prod.fst := by
    rcases List.getElem?_eq_some_iff.mp standing with ⟨bound, found⟩
    have inside : k < (harvest.parsers.map Prod.fst).length := by rwa [List.length_map]
    have number : (harvest.parsers.map Prod.fst)[k] = i := by
      rw [List.getElem_map, found]
    rw [List.map_set, ← number, List.set_getElem_self]
  have distinct : (harvest.parsers.map Prod.fst).Nodup := by
    rw [gathering.started]
    exact downloaded.nodup
  refine ⟨⟨numbers.trans gathering.started, fun l j other found => ?_,
    fun name other => ?_⟩, ?_⟩
  · by_cases own : l = k
    · subst own
      rw [List.getElem?_set_self (List.getElem?_eq_some_iff.mp standing).1] at found
      cases found
      exact stepped.parsing
    · rw [List.getElem?_set_ne (Ne.symm own)] at found
      refine (gathering.parsing l j other found).frame (stepped.others _ fun same => own ?_)
      have equal : j = i := destName_inj same
      refine (List.getElem?_inj ?_ distinct).mp ?_
      · rw [List.length_map]
        exact (List.getElem?_eq_some_iff.mp found).1
      · rw [List.getElem?_map, List.getElem?_map, found, standing, equal]
        rfl
  · exact (stepped.others name (other i among)).trans (gathering.others name other)
  · have weights := totalWeight_set (fun parser : Nat × ParserPlace =>
      parserCost (device.files parser.1) parser.2) standing (i, after)
    have paid := stepped.paid
    unfold parsersCost
    dsimp only at weights paid ⊢
    omega

/-- The stage of the session, with the threads; the rank pays for the threads that
are to come as well. -/
structure Reaping (sizes : StorageSizes) (readers : StorageReaders) (disk : Disk) (device : Device)
    (m : Nat) (before : Dests) (harvest : Harvest) (rank : Nat) : Prop where
  stage : ∃ left, Session.Stage disk device m harvest.session left ∧
    rank = left * (parserPrice + 1) + parsersCost device harvest.parsers
  gathering : Gathering sizes readers device before harvest

theorem Reaping.step (gap : FirstGap disk device m) {rank : Nat}
    (reaping : Reaping sizes readers disk device m before harvest rank) {label : Label}
    (step : Step sizes readers device harvest label next) :
    ∃ left, Reaping sizes readers disk device m before next left ∧
      left + (if label.isProgress then 1 else 0) ≤ rank := by
  rcases reaping with ⟨⟨left, stage, total⟩, gathering⟩
  cases step with
  | @session label buffer session step =>
      rcases stage.step gap step with ⟨after, reached, lower⟩
      rcases gathering.session step buffer with ⟨gathers, cost⟩
      refine ⟨_, ⟨⟨after, reached, rfl⟩, gathers⟩, ?_⟩
      change after * (parserPrice + 1) + parsersCost device (harvest.parsers ++ _) +
        (if label.isProgress then 1 else 0) ≤ rank
      cases progress : label.isProgress with
      | false =>
          simp only [progress, Bool.false_eq_true, if_false, Nat.add_zero] at lower cost ⊢
          have fewer := Nat.mul_le_mul_right (parserPrice + 1) lower
          omega
      | true =>
          simp only [progress, if_true] at lower cost ⊢
          have fewer := Nat.mul_le_mul_right (parserPrice + 1) lower
          rw [Nat.add_mul] at fewer
          omega
  | @parser k i place afterPlace dests standing taken =>
      rcases gathering.parser (stage.downloaded gap) standing taken with ⟨gathers, cost⟩
      refine ⟨_, ⟨⟨left, stage, rfl⟩, gathers⟩, ?_⟩
      change left * (parserPrice + 1) + parsersCost device (harvest.parsers.set k _) + 1 ≤ rank
      omega

/-- When all have returned, the files are those of the logs. -/
theorem Gathering.gathered {logs : Nat → Log sizes} (gap : FirstGap disk device m)
    (sent : ∀ i, 1 ≤ i → i ≤ device.count → device.files i = (logs i).bytes)
    (gathering : Gathering sizes readers device before harvest)
    (result : Synchronised disk device m harvest.session.sys)
    (closed : ∀ parser ∈ harvest.parsers, parser.2 = .closed) :
    harvest.dests = Harvest.gathered sizes readers logs before (missing disk m) := by
  have downloaded : Session.Downloaded disk device m harvest.session.sys :=
    Session.downloaded_of_synchronised result
  have log {i : Nat} (among : i ∈ missing disk m) : device.files i = (logs i).bytes := by
    rw [← result.parsed] at among
    rcases downloaded.held gap among with ⟨positive, within⟩
    exact sent i positive within
  funext name
  unfold Harvest.gathered
  cases found : (missing disk m).find? fun i => destName readers i (logs i).head = name with
  | some i =>
      have among := List.mem_of_find?_eq_some found
      have same := List.find?_some found
      rw [decide_eq_true_eq] at same
      have started : i ∈ harvest.parsers.map Prod.fst := by
        rw [gathering.started, result.parsed]
        exact among
      rcases List.mem_map.mp started with ⟨⟨_, place⟩, member, rfl⟩
      rcases List.getElem?_of_mem member with ⟨k, standing⟩
      have parsing := gathering.parsing k _ place standing
      have ended : place = .closed := closed _ member
      rw [ended, log among] at parsing
      rw [← same]
      exact parsing.log
  | none =>
      refine gathering.others name fun i among same => ?_
      rw [result.parsed] at among
      have other := List.find?_eq_none.mp found i among
      rw [destOf, log among, (logs i).take_bytes] at same
      simp [same] at other

end Harvest

/-- Logs become lines. In a run of `doSync` next to a device, which is not
stopped, with the threads of `doParseFile` coming in at any moment, a thread that
has returned has written the lines of its log. The steps that are not waiting for
the device are bounded, and until all have returned there is such a step; in the
end, there is one file for each log that was missing, and the other files are as
they were. -/
theorem logs_become_lines (sizes : StorageSizes) (readers : StorageReaders) (device : Device)
    (logs : Nat → Log sizes)
    (sent : ∀ i, 1 ≤ i → i ≤ device.count → device.files i = (logs i).bytes)
    (sys : Sys) (m : Nat) (begins : Session.Begins sys)
    (gap : FirstGap sys.world.disk device m) (before : Dests) :
    ∃ bound, ∀ labels harvest,
      Run (Harvest.Step sizes readers device) (Harvest.begin sys before) labels harvest →
        labels.countP Harvest.Label.isProgress ≤ bound ∧
        (∀ i, (i, .closed) ∈ harvest.parsers →
          harvest.dests (destName readers i (logs i).head) = some (logLines readers i (logs i))) ∧
        (harvest.Over → harvest.dests =
          Harvest.gathered sizes readers logs before (missing sys.world.disk m)) ∧
        (¬harvest.Over → ∃ label next, label.isProgress = true ∧
          Harvest.Step sizes readers device harvest label next) := by
  let first := Session.toCome device m 1 + if sys.threads = [.start] then 2 else 1
  have starts : Harvest.Reaping sizes readers sys.world.disk device m before
      (Harvest.begin sys before) (first * (Harvest.parserPrice + 1)) := by
    refine ⟨⟨first, .starting (Or.inl begins.threads) begins.made begins.requests begins.parsed
      rfl begins.flag rfl rfl, (Nat.add_zero _).symm⟩, begins.parsed.symm, ?_, fun _ _ => rfl⟩
    intro k i place standing
    cases standing
  refine ⟨first * (Harvest.parserPrice + 1), fun labels harvest run => ?_⟩
  rcases run.ranked (Harvest.Reaping sizes readers sys.world.disk device m before)
    Harvest.Label.isProgress starts fun _ _ _ _ reaping step => reaping.step gap step with
    ⟨rank, ⟨⟨left, stage, _⟩, gathering⟩, counted⟩
  refine ⟨Nat.le_of_add_left_le counted, fun i returned => ?_, fun ended => ?_, fun goesOn => ?_⟩
  · rcases List.getElem?_of_mem returned with ⟨k, standing⟩
    have among : i ∈ harvest.session.sys.parsed := by
      rw [← gathering.started]
      exact List.mem_map_of_mem (f := Prod.fst) returned
    rcases (stage.downloaded gap).held gap among with ⟨positive, within⟩
    have parsing := gathering.parsing k i .closed standing
    rw [sent i positive within] at parsing
    exact parsing.log
  · exact gathering.gathered gap sent (stage.synchronised ended.1) ended.2
  · by_cases ended : harvest.session.Over
    · have left : ∃ parser ∈ harvest.parsers, parser.2 ≠ .closed := by
        by_contra none
        exact goesOn ⟨ended, fun parser member => by
          by_contra open_
          exact none ⟨parser, member, open_⟩⟩
      rcases left with ⟨⟨i, place⟩, member, open_⟩
      rcases List.getElem?_of_mem member with ⟨k, standing⟩
      have advances : ∃ next, parserAdvance sizes readers i harvest.session.sys.world.disk
          harvest.dests place = some next := parserAdvance_exists open_
      rcases advances with ⟨⟨after, dests⟩, taken⟩
      exact ⟨.parser k, _, rfl, .parser standing taken⟩
    · rcases stage.goes_on ended with ⟨label, next, progress, step⟩
      exact ⟨.session label [], _, progress, .session step⟩

def positionLog : Log CutPosition.sizes := ⟨[0], rfl, [.record ⟨.gps, [0, 1, 0, 2], rfl⟩]⟩

theorem held_positionLog {i : Nat} (low : 1 ≤ i) (high : i ≤ 1) :
    (if i = 1 then positionLog.bytes else []) ≠ [] ∧
      (if i = 1 then positionLog.bytes else []).length < 2 ^ 31 := by
  rw [if_pos (Nat.le_antisymm high low)]
  decide

theorem unheld_positionLog {i : Nat} (outside : ¬(1 ≤ i ∧ i ≤ 1)) :
    (if i = 1 then positionLog.bytes else []) = [] :=
  if_neg fun one => outside (by omega)

def positionDevice : Device where
  count := 1
  files i := if i = 1 then positionLog.bytes else []
  held _ low high := held_positionLog low high
  unheld _ outside := unheld_positionLog outside

theorem logs_become_lines_position :
    ∃ bound, ∀ labels harvest,
      Run (Harvest.Step CutPosition.sizes CutPosition.readers positionDevice)
          (Harvest.begin { Sys.initial (fun _ => none) with threads := [.start] } fun _ => none)
          labels harvest →
        labels.countP Harvest.Label.isProgress ≤ bound ∧
        (∀ i, (i, .closed) ∈ harvest.parsers →
          harvest.dests (destName CutPosition.readers i positionLog.head) =
            some (logLines CutPosition.readers i positionLog)) ∧
        (harvest.Over → harvest.dests =
          Harvest.gathered CutPosition.sizes CutPosition.readers (fun _ => positionLog)
            (fun _ => none) (missing (fun _ => none) 2)) ∧
        (¬harvest.Over → ∃ label next, label.isProgress = true ∧
          Harvest.Step CutPosition.sizes CutPosition.readers positionDevice harvest label next) :=
  logs_become_lines CutPosition.sizes CutPosition.readers positionDevice (fun _ => positionLog)
    (fun i low high => if_pos (Nat.le_antisymm high low))
    { Sys.initial (fun _ => none) with threads := [.start] } 2
    ⟨rfl, rfl, fun connected => absurd rfl connected, rfl, rfl⟩
    ⟨by decide, by decide, rfl, rfl, fun i low high _ => by
      have one : i = 1 := by omega
      simp [positionDevice, positionLog, Log.bytes, one]⟩ fun _ => none

/-- The lines in the file for that log. -/
example : logLines CutPosition.readers 1 positionLog =
    ["sn = '1' and date = '20121030' and mode = 'R' and time = '0' and distance = '0.000000'\r\n",
      "'1','20121030','R','0','0'\r\n", "'1','R','1.000000','2.000000'\r\n"].map String.toList := by
  decide

end CosmosPC
