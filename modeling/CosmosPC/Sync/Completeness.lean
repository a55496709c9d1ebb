import CosmosPC.Sync.Device

/-! # A sync run downloads what is missing

The stages that a run of `doSync` with a device goes through, number by number.
Every step but waiting leads on to a later stage, and from every stage but the
last one there is such a step. -/

namespace CosmosPC

def missing (disk : Disk) (i : Nat) : List Nat :=
  (List.range' 1 (i - 1)).filter fun j => (disk j).isNone

/-- The disk with the missing files below `i` in place. -/
def synced (disk : Disk) (files : Nat → List UInt8) (i j : Nat) : Option (List UInt8) :=
  if 1 ≤ j ∧ j < i ∧ disk j = none then some (files j) else disk j

theorem mem_missing {disk : Disk} {i j : Nat} :
    j ∈ missing disk i ↔ 1 ≤ j ∧ j < i ∧ disk j = none := by
  have range : j ∈ List.range' 1 (i - 1) ↔ 1 ≤ j ∧ j < i := by
    rw [List.mem_range'_1]
    omega
  rw [missing, List.mem_filter, range, Option.isNone_iff_eq_none, and_assoc]

theorem missing_succ (disk : Disk) (i : Nat) (positive : 1 ≤ i) :
    missing disk (i + 1) = missing disk i ++ if disk i = none then [i] else [] := by
  have number : 1 + (i - 1) = i := by omega
  have range : List.range' 1 i = List.range' 1 (i - 1) ++ [i] := by
    have concat := List.range'_1_concat (s := 1) (n := i - 1)
    rwa [number, Nat.sub_add_cancel positive] at concat
  rw [missing, Nat.add_sub_cancel, range, List.filter_append, missing]
  cases present : disk i <;> simp [present]

theorem synced_of_present {disk : Disk} {files : Nat → List UInt8} {i j : Nat}
    (present : disk j ≠ none) : synced disk files i j = disk j :=
  if_neg fun conditions => present conditions.2.2

theorem synced_succ (disk : Disk) (files : Nat → List UInt8) {i j : Nat} (different : j ≠ i) :
    synced disk files (i + 1) j = synced disk files i j := by
  have same : j < i + 1 ↔ j < i := by omega
  simp only [synced, same]

theorem synced_succ_self {disk : Disk} (files : Nat → List UInt8) {i : Nat} (positive : 1 ≤ i)
    (absent : disk i = none) : synced disk files (i + 1) i = some (files i) :=
  if_pos ⟨positive, Nat.lt_succ_self i, absent⟩

/-- What the device is without: the least number that is on neither side. -/
structure FirstGap (disk : Disk) (device : Device) (m : Nat) : Prop where
  positive : 1 ≤ m
  small : m < 1000000
  absent : disk m = none
  unheld : device.files m = []
  least : ∀ i, 1 ≤ i → i < m → disk i = none → device.files i ≠ []

/-- The result of a run: every missing file in place, nothing else changed, one
request and one parser for each, and a last request for the gap. -/
structure Synchronised (disk : Disk) (device : Device) (m : Nat) (sys : Sys) : Prop where
  requests : sys.requests = (missing disk m ++ [m]).map freadRequest
  downloaded : ∀ j ∈ missing disk m, sys.world.disk j = some (device.files j)
  untouched : ∀ j, j ∉ missing disk m → sys.world.disk j = disk j
  parsed : sys.parsed = missing disk m
  flag : sys.world.rProc.flag = 0

namespace Session

/-- The loop stands at number `i`, and all before it is done. -/
structure At (disk : Disk) (device : Device) (m i : Nat) (session : Session) : Prop where
  threads : session.sys.threads = [.loop i]
  pcio : session.sys.pcio ≠ none
  made : 0 < session.sys.made
  positive : 1 ≤ i
  within : i ≤ m
  parsed : session.sys.parsed = missing disk i
  others : ∀ j, j ≠ i → session.sys.world.disk j = synced disk device.files i j

/-- How many steps the numbers from `i` on may take at most, `left` of them. -/
def toCome (device : Device) : (left i : Nat) → Nat
  | 0, _ => 2
  | left + 1, i => (device.files i).length + 3 + toCome device left (i + 1)

/-- The stages of a run, each with a bound on the steps that are left. -/
inductive Stage (disk : Disk) (device : Device) (m : Nat) : Session → Nat → Prop
  | starting {session} (begins : session.sys.threads = [.start] ∨
        session.sys.threads = [.connect] ∧ session.sys.pcio = none)
      (made : session.sys.pcio ≠ none → 0 < session.sys.made)
      (requests : session.sys.requests = []) (parsed : session.sys.parsed = [])
      (onDisk : session.sys.world.disk = disk) (flag : session.sys.world.rProc.flag = 0)
      (answered : session.asked = none) (sent : session.rest = []) :
      Stage disk device m session
        (toCome device m 1 + if session.sys.threads = [.start] then 2 else 1)
  | idle {session} (i left : Nat) (standing : At disk device m i session) (last : i + left = m + 1)
      (flag : session.sys.world.rProc.flag = 0)
      (requests : session.sys.requests = (missing disk i).map freadRequest)
      (onDisk : session.sys.world.disk i = disk i) (answered : session.asked = none)
      (sent : session.rest = []) : Stage disk device m session (toCome device left i)
  | asked {session} (i left : Nat) (standing : At disk device m i session) (last : i + left = m)
      (flag : session.sys.world.rProc.flag = 1) (name : session.sys.world.rProc.dwName = i)
      (requests : session.sys.requests = (missing disk i ++ [i]).map freadRequest)
      (absent : disk i = none) (onDisk : session.sys.world.disk i = none)
      (asked : session.asked = some (device.files i)) (sent : session.rest = []) :
      Stage disk device m session (toCome device left (i + 1) + (device.files i).length + 2)
  | filling {session} (i left : Nat) (standing : At disk device m i session)
      (last : i + left = m) (inside : i < m) (stored : List UInt8)
      (requests : session.sys.requests = (missing disk i ++ [i]).map freadRequest)
      (absent : disk i = none) (answered : session.asked = none)
      (filling : Filling i (device.files i).length stored session.sys.world)
      (whole : stored ++ session.rest = device.files i) :
      Stage disk device m session (toCome device left (i + 1) + session.rest.length + 1)
  | filled {session} (i left : Nat) (standing : At disk device m i session)
      (last : i + left = m) (inside : i < m)
      (requests : session.sys.requests = (missing disk i ++ [i]).map freadRequest)
      (absent : disk i = none) (answered : session.asked = none) (sent : session.rest = [])
      (filled : Filled i (device.files i) session.sys.world) :
      Stage disk device m session (toCome device left (i + 1) + 1)
  | gap {session} (standing : At disk device m m session)
      (flag : session.sys.world.rProc.flag = 1)
      (requests : session.sys.requests = (missing disk m ++ [m]).map freadRequest)
      (onDisk : session.sys.world.disk m = none) (answered : session.asked = none)
      (sent : session.rest = []) : Stage disk device m session 2
  | ending {session} (threads : session.sys.threads = [.ending])
      (flag : session.sys.world.rProc.flag = 1)
      (result : Synchronised disk device m { session.sys.setFlag 0 with threads := [.ended] })
      (answered : session.asked = none) (sent : session.rest = []) :
      Stage disk device m session 1
  | ended {session} (threads : session.sys.threads = [.ended])
      (result : Synchronised disk device m session.sys) (answered : session.asked = none)
      (sent : session.rest = []) : Stage disk device m session 0

variable {disk : Disk} {device : Device} {m i left : Nat} {session next : Session}

/-! ## Moving on to the next number -/

theorem synced_of_le {disk : Disk} {files : Nat → List UInt8} {i j : Nat} (beyond : i ≤ j) :
    synced disk files i j = disk j :=
  if_neg fun conditions => by omega

theorem whileTest_of_lt {i : Nat} (small : i < 1000000) : Sys.whileTest i = .loop i :=
  if_pos small

theorem At.succ (standing : At disk device m i session) (inside : i < m)
    (done : session.sys.world.disk i = synced disk device.files (i + 1) i)
    (threads : next.sys.threads = [.loop (i + 1)]) (pcio : next.sys.pcio = session.sys.pcio)
    (made : next.sys.made = session.sys.made)
    (parsed : next.sys.parsed = missing disk (i + 1))
    (onDisk : next.sys.world.disk = session.sys.world.disk) :
    At disk device m (i + 1) next ∧ next.sys.world.disk (i + 1) = disk (i + 1) := by
  refine ⟨⟨threads, ?_, ?_, Nat.le_add_left 1 i, inside, parsed, fun j different => ?_⟩, ?_⟩
  · rw [pcio]
    exact standing.pcio
  · rw [made]
    exact standing.made
  · rw [onDisk]
    by_cases same : j = i
    · rw [same, done]
    · rw [standing.others j same, synced_succ disk device.files same]
  · rw [onDisk, standing.others (i + 1) (by omega), synced_of_le (Nat.le_succ i)]

theorem At.stay (standing : At disk device m i session)
    (threads : next.sys.threads = [.loop i]) (pcio : next.sys.pcio = session.sys.pcio)
    (made : next.sys.made = session.sys.made) (parsed : next.sys.parsed = session.sys.parsed)
    (others : ∀ j, j ≠ i → next.sys.world.disk j = session.sys.world.disk j) :
    At disk device m i next := by
  refine ⟨threads, ?_, ?_, standing.positive, standing.within, ?_, fun j different => ?_⟩
  · rw [pcio]
    exact standing.pcio
  · rw [made]
    exact standing.made
  · rw [parsed]
    exact standing.parsed
  · rw [others j different]
    exact standing.others j different

/-! ## What the device is asked -/

theorem askedBy_same {before after : Sys} (same : after.requests = before.requests) :
    askedBy device before after = none := by
  simp [askedBy, same]

theorem askedBy_request {before after : Sys} (small : i < 1000000)
    (requested : after.requests = before.requests ++ [freadRequest i]) :
    askedBy device before after = some (device.files i) := by
  simp [askedBy, requested, requestedNumber_freadRequest i small]

theorem chunk_of_nothing {chunk rest : List UInt8} (sent : session.rest = [])
    (next : session.rest = chunk ++ rest) (length : 1 ≤ chunk.length) : False := by
  rw [sent] at next
  rw [(List.nil_eq_append_iff.mp next).1] at length
  exact absurd length (by decide)

/-! ## One step from each stage -/

theorem At.iterates (standing : At disk device m i session) {sys : Sys}
    (taken : Sys.Step session.sys (.thread 0) sys) :
    ∃ after moved, Sys.Iterated session.sys i after moved ∧
      sys = { moved with threads := [after] } := by
  rcases Sys.step_only standing.threads taken with ⟨after, moved, advanced, stepped⟩
  cases advanced with
  | iterates iterated => exact ⟨after, moved, iterated, stepped⟩

theorem idle_iterates (gap : FirstGap disk device m) (standing : At disk device m i session)
    (last : i + left = m + 1) (flag : session.sys.world.rProc.flag = 0)
    (requests : session.sys.requests = (missing disk i).map freadRequest)
    (onDisk : session.sys.world.disk i = disk i) (sent : session.rest = []) {sys : Sys}
    (taken : Sys.Step session.sys (.thread 0) sys) :
    ∃ rank, Stage disk device m
        { session with sys := sys, asked := askedBy device session.sys sys } rank ∧
      rank + 1 ≤ toCome device left i := by
  have within := standing.within
  have small := gap.small
  rcases left with _ | left
  · omega
  rcases standing.iterates taken with ⟨after, moved, iterated, rfl⟩
  rcases iterated.of_idle standing.pcio flag with ⟨present, rfl, rfl⟩ | ⟨absent, rfl, rfl⟩
  · rw [onDisk] at present
    have isThere : disk i ≠ none := Option.isSome_iff_ne_none.mp present
    have inside : i < m := by
      rcases Nat.lt_or_eq_of_le within with less | same
      · exact less
      · exact absurd gap.absent (same ▸ isThere)
    have nothingNew : missing disk (i + 1) = missing disk i := by
      rw [missing_succ disk i standing.positive, if_neg isThere, List.append_nil]
    have asks : askedBy device session.sys
        { session.sys with threads := [.loop (i + 1)] } = none := askedBy_same rfl
    rw [whileTest_of_lt (by omega), asks]
    let next : Session :=
      ⟨{ session.sys with threads := [.loop (i + 1)] }, none, session.rest⟩
    have further : At disk device m (i + 1) next ∧
        next.sys.world.disk (i + 1) = disk (i + 1) := standing.succ inside
      (by rw [onDisk, synced_of_present isThere]) rfl rfl rfl
      (by rw [nothingNew]; exact standing.parsed) rfl
    refine ⟨_, .idle (i + 1) left further.1 (by omega) flag ?_ further.2 rfl sent, ?_⟩
    · rw [nothingNew]
      exact requests
    · rw [toCome]
      omega
  · rw [onDisk] at absent
    have asks : askedBy device session.sys
        { session.sys.request i with threads := [.loop i] } = some (device.files i) :=
      askedBy_request (by omega) rfl
    rw [whileTest_of_lt (by omega), asks]
    have stays : At disk device m i ⟨{ session.sys.request i with threads := [.loop i] },
        some (device.files i), session.rest⟩ :=
      standing.stay rfl rfl rfl rfl fun _ _ => rfl
    refine ⟨_, .asked i left stays (by omega) rfl rfl ?_ absent (onDisk.trans absent) rfl
      sent, ?_⟩
    · change session.sys.requests ++ [freadRequest i] = _
      rw [requests, List.map_append, List.map_singleton]
    · rw [toCome]
      omega

theorem starting_iterates (positive : 1 ≤ m)
    (begins : session.sys.threads = [.start] ∨
      session.sys.threads = [.connect] ∧ session.sys.pcio = none)
    (made : session.sys.pcio ≠ none → 0 < session.sys.made)
    (requests : session.sys.requests = []) (parsed : session.sys.parsed = [])
    (onDisk : session.sys.world.disk = disk) (flag : session.sys.world.rProc.flag = 0)
    (sent : session.rest = []) {sys : Sys} (taken : Sys.Step session.sys (.thread 0) sys) :
    ∃ rank, Stage disk device m
        { session with sys := sys, asked := askedBy device session.sys sys } rank ∧
      rank + 1 ≤ toCome device m 1 + if session.sys.threads = [.start] then 2 else 1 := by
  have first : ∀ (after : Sys), after.threads = [.loop 1] → after.pcio ≠ none → 0 < after.made →
      after.parsed = session.sys.parsed → after.world = session.sys.world →
      after.requests = session.sys.requests →
      Stage disk device m
        { session with sys := after, asked := askedBy device session.sys after }
        (toCome device m 1) := by
    intro after threads pcio afterMade sameParsed world sameRequests
    refine .idle 1 m ⟨threads, pcio, afterMade, Nat.le_refl 1, positive, sameParsed.trans parsed,
      fun j _ => ?_⟩ (by omega) (by rwa [world]) (sameRequests.trans requests) ?_
      (askedBy_same sameRequests) sent
    · have before : ¬(1 ≤ j ∧ j < 1 ∧ disk j = none) := by
        rintro ⟨low, high, _⟩
        omega
      rw [world, onDisk, synced, if_neg before]
    · rw [world, onDisk]
  rcases begins with threads | ⟨threads, closed⟩
  · rw [if_pos threads]
    rcases Sys.step_only threads taken with ⟨after, moved, advanced, rfl⟩
    cases advanced with
    | meets closed =>
        refine ⟨toCome device m 1 + 1, ?_, Nat.le_refl _⟩
        exact .starting (Or.inr ⟨rfl, closed⟩) made requests parsed onDisk flag
          (askedBy_same rfl) sent
    | joins connected =>
        exact ⟨_, first _ rfl connected (made connected) rfl rfl rfl, by omega⟩
  · have different : session.sys.threads ≠ [.start] := by simp [threads]
    rw [if_neg different]
    rcases Sys.step_only threads taken with ⟨after, moved, advanced, rfl⟩
    cases advanced with
    | connects =>
        exact ⟨_, first { session.sys.connect with threads := [.loop 1] } rfl
          (by simp [Sys.connect])
          (Nat.succ_pos _) rfl rfl rfl, Nat.le_refl _⟩

theorem asked_answers (gap : FirstGap disk device m) (standing : At disk device m i session)
    (last : i + left = m) (name : session.sys.world.rProc.dwName = i)
    (requests : session.sys.requests = (missing disk i ++ [i]).map freadRequest)
    (absent : disk i = none) (onDisk : session.sys.world.disk i = none) {sys : Sys}
    (taken : Sys.Step session.sys (.proc .full (freadLine (device.files i).length)) sys) :
    ∃ rank, Stage disk device m { sys := sys, asked := none, rest := device.files i } rank ∧
      rank + 1 ≤ toCome device left (i + 1) + (device.files i).length + 2 := by
  rcases Sys.step_proc taken with ⟨world, handled, rfl⟩
  rw [proc_freadLine] at handled
  cases handled
  by_cases none : device.files i = []
  · have atGap : i = m := by
      rcases Nat.lt_or_eq_of_le standing.within with inside | same
      · exact absurd none (gap.least i standing.positive inside absent)
      · exact same
    subst atGap
    rw [none]
    refine ⟨2, .gap (standing.stay standing.threads rfl rfl rfl fun _ _ => rfl) rfl requests onDisk
      rfl rfl, ?_⟩
    have none : left = 0 := by omega
    rw [none, toCome]
    decide
  · have held : 1 ≤ i ∧ i ≤ device.count := by
      by_contra outside
      exact none (device.unheld i outside)
    have bound := (device.held i held.1 held.2).2
    have inside : i < m := by
      rcases Nat.lt_or_eq_of_le standing.within with less | same
      · exact less
      · exact absurd (same ▸ gap.unheld) none
    have size : sizeRead (device.files i).length = (device.files i).length := by
      unfold sizeRead
      omega
    have begins := fread_begins session.sys.world (device.files i).length
      (List.length_pos_iff.mpr none)
    rw [name] at begins
    rw [size]
    refine ⟨_, .filling i left (standing.stay standing.threads rfl rfl rfl begins.2.others) last
      inside [] requests absent rfl begins.1 rfl, ?_⟩
    dsimp only
    omega

theorem filling_delivers (standing : At disk device m i session) (last : i + left = m)
    (inside : i < m) {stored : List UInt8}
    (requests : session.sys.requests = (missing disk i ++ [i]).map freadRequest)
    (absent : disk i = none) (answered : session.asked = none)
    (filling : Filling i (device.files i).length stored session.sys.world)
    (whole : stored ++ session.rest = device.files i) {chunk rest : List UInt8}
    (next : session.rest = chunk ++ rest) (length : 1 ≤ chunk.length ∧ chunk.length ≤ 1024)
    (noReply : findReply chunk = none) {sys : Sys}
    (taken : Sys.Step session.sys (.proc .full chunk) sys) :
    ∃ rank, Stage disk device m { session with sys := sys, rest := rest } rank ∧
      rank + 1 ≤ toCome device left (i + 1) + session.rest.length + 1 := by
  have bound : (device.files i).length + readLimit ≤ 2 ^ 32 := by
    by_cases held : 1 ≤ i ∧ i ≤ device.count
    · have small := (device.held i held.1 held.2).2
      unfold readLimit
      omega
    · rw [device.unheld i held]
      decide
  rcases Sys.step_proc taken with ⟨world, handled, rfl⟩
  rcases filling.proc noReply bound length.2 with ⟨filled, handledAs, kept, full, more⟩
  cases handled.symm.trans handledAs
  have stays : At disk device m i
      { session with sys := { session.sys with world := world }, rest := rest } :=
    standing.stay standing.threads rfl rfl rfl kept.others
  rw [next, ← List.append_assoc] at whole
  have lengths := congrArg List.length whole
  rw [List.length_append] at lengths
  have restLength : session.rest.length = chunk.length + rest.length := by
    rw [next, List.length_append]
  by_cases short : (stored ++ chunk).length < (device.files i).length
  · refine ⟨_, .filling i left stays last inside _ requests absent answered (more short) whole, ?_⟩
    dsimp only
    omega
  · have nothing : rest = [] := List.eq_nil_of_length_eq_zero (by omega)
    rw [nothing, List.append_nil] at whole
    have done := full (Nat.le_of_not_lt short)
    rw [whole] at done
    refine ⟨_, .filled i left stays last inside requests absent answered nothing done, ?_⟩
    omega

theorem filled_iterates (gap : FirstGap disk device m) (standing : At disk device m i session)
    (last : i + left = m) (inside : i < m)
    (requests : session.sys.requests = (missing disk i ++ [i]).map freadRequest)
    (absent : disk i = none) (sent : session.rest = [])
    (filled : Filled i (device.files i) session.sys.world) {sys : Sys}
    (taken : Sys.Step session.sys (.thread 0) sys) :
    ∃ rank, Stage disk device m
        { session with sys := sys, asked := askedBy device session.sys sys } rank ∧
      rank + 1 ≤ toCome device left (i + 1) + 1 := by
  have small := gap.small
  have now : missing disk (i + 1) = missing disk i ++ [i] := by
    rw [missing_succ disk i standing.positive, if_pos absent]
  rcases standing.iterates taken with ⟨after, moved, iterated, rfl⟩
  rcases iterated.of_finished standing.pcio filled.flag with ⟨rfl, rfl⟩
  have asks : askedBy device session.sys
      { session.sys.startParse i with threads := [.loop (i + 1)] } = none := askedBy_same rfl
  rw [whileTest_of_lt (by omega), asks]
  let next : Session :=
    ⟨{ session.sys.startParse i with threads := [.loop (i + 1)] }, none, session.rest⟩
  have further : At disk device m (i + 1) next ∧
      next.sys.world.disk (i + 1) = disk (i + 1) := standing.succ inside
    (by rw [filled.onDisk, synced_succ_self device.files standing.positive absent])
    rfl rfl rfl
    (by
      change session.sys.parsed ++ [i] = _
      rw [standing.parsed, now]) rfl
  refine ⟨_, .idle (i + 1) left further.1 (by omega) rfl ?_ further.2 rfl sent, Nat.le_refl _⟩
  rw [now]
  exact requests

theorem gap_iterates (gap : FirstGap disk device m) (standing : At disk device m m session)
    (flag : session.sys.world.rProc.flag = 1)
    (requests : session.sys.requests = (missing disk m ++ [m]).map freadRequest)
    (onDisk : session.sys.world.disk m = none) (sent : session.rest = []) {sys : Sys}
    (taken : Sys.Step session.sys (.thread 0) sys) :
    Stage disk device m
      { session with sys := sys, asked := askedBy device session.sys sys } 1 := by
  have result : Synchronised disk device m
      { session.sys.setFlag 0 with threads := [.ended] } := by
    refine ⟨requests, fun j member => ?_, fun j notMember => ?_, standing.parsed, rfl⟩
    · have conditions := mem_missing.mp member
      have different : j ≠ m := by omega
      exact (standing.others j different).trans (if_pos conditions)
    · by_cases same : j = m
      · rw [same]
        exact onDisk.trans gap.absent.symm
      · have conditions := fun among => notMember (mem_missing.mpr among)
        exact (standing.others j same).trans (if_neg conditions)
  rcases standing.iterates taken with ⟨after, moved, iterated, rfl⟩
  rcases iterated.of_notFound standing.pcio flag with ⟨rfl, rfl⟩
  exact .ending rfl flag result (askedBy_same rfl) sent

theorem filling_waits (gap : FirstGap disk device m) (standing : At disk device m i session)
    (last : i + left = m) (inside : i < m) {stored : List UInt8}
    (requests : session.sys.requests = (missing disk i ++ [i]).map freadRequest)
    (absent : disk i = none) (answered : session.asked = none)
    (filling : Filling i (device.files i).length stored session.sys.world)
    (whole : stored ++ session.rest = device.files i) {sys : Sys}
    (taken : Sys.Step session.sys (.thread 0) sys) :
    Stage disk device m { session with sys := sys }
      (toCome device left (i + 1) + session.rest.length + 1) := by
  have small := gap.small
  rcases standing.iterates taken with ⟨after, moved, iterated, rfl⟩
  rcases iterated.of_writing standing.pcio filling.flag with ⟨rfl, rfl⟩
  rw [whileTest_of_lt (by omega)]
  exact .filling i left (standing.stay rfl rfl rfl rfl fun _ _ => rfl) last inside stored requests
    absent answered filling whole

theorem Step.of_quiet {label : Label} (step : Step device session label next)
    (looks : session.sys.world.rProc.flag ≠ 2) (answered : session.asked = none)
    (sent : session.rest = []) :
    label = .iterate ∧ ∃ sys, Sys.Step session.sys (.thread 0) sys ∧
      next = { session with sys := sys, asked := askedBy device session.sys sys } := by
  cases step with
  | wait _ writing => exact absurd writing looks
  | answer asked => cases answered.symm.trans asked
  | deliver _ next length => exact (chunk_of_nothing sent next length.1).elim
  | iterate _ _ taken => exact ⟨rfl, _, taken, rfl⟩

/-- Every step leads on to a stage with less to come, unless it waits. -/
theorem Stage.step (gap : FirstGap disk device m) {rank : Nat} {label : Label}
    (stage : Stage disk device m session rank) (step : Step device session label next) :
    ∃ left, Stage disk device m next left ∧
      left + (if label.isProgress then 1 else 0) ≤ rank := by
  cases stage with
  | starting begins made requests parsed onDisk flag answered sent =>
      rcases step.of_quiet (by rw [flag]; decide) answered sent with ⟨rfl, sys, taken, rfl⟩
      exact starting_iterates gap.positive begins made requests parsed onDisk flag sent taken
  | idle i left standing last flag requests onDisk answered sent =>
      rcases step.of_quiet (by rw [flag]; decide) answered sent with ⟨rfl, sys, taken, rfl⟩
      exact idle_iterates gap standing last flag requests onDisk sent taken
  | asked i left standing last flag name requests absent onDisk asked sent =>
      cases step with
      | wait answered => cases answered.symm.trans asked
      | iterate answered => cases answered.symm.trans asked
      | deliver answered => cases answered.symm.trans asked
      | answer same taken =>
          cases asked.symm.trans same
          exact asked_answers gap standing last name requests absent onDisk taken
  | filling i left standing last inside stored requests absent answered filling whole =>
      cases step with
      | iterate _ looks => exact absurd filling.flag looks
      | answer asked => cases answered.symm.trans asked
      | deliver _ next length noReply taken =>
          exact filling_delivers standing last inside requests absent answered filling whole next
            length noReply taken
      | wait _ _ taken =>
          exact ⟨_, filling_waits gap standing last inside requests absent answered filling whole
            taken, Nat.le_refl _⟩
  | filled i left standing last inside requests absent answered sent filled =>
      rcases step.of_quiet (by rw [filled.flag]; decide) answered sent with
        ⟨rfl, sys, taken, rfl⟩
      exact filled_iterates gap standing last inside requests absent sent filled taken
  | gap standing flag requests onDisk answered sent =>
      rcases step.of_quiet (by rw [flag]; decide) answered sent with ⟨rfl, sys, taken, rfl⟩
      exact ⟨1, gap_iterates gap standing flag requests onDisk sent taken, Nat.le_refl _⟩
  | ending threads flag result answered sent =>
      rcases step.of_quiet (by rw [flag]; decide) answered sent with ⟨rfl, sys, taken, rfl⟩
      rcases Sys.step_only threads taken with ⟨after, moved, advanced, rfl⟩
      cases advanced with
      | finishes =>
          have finish : session.sys.finish = session.sys.setFlag 0 := if_neg (by simp [flag])
          rw [finish]
          exact ⟨0, .ended rfl result (askedBy_same rfl) sent, Nat.le_refl _⟩
  | ended threads result answered sent =>
      have looks : session.sys.world.rProc.flag ≠ 2 := by
        rw [result.flag]
        decide
      rcases step.of_quiet looks answered sent with ⟨_, sys, taken, _⟩
      rcases Sys.step_only threads taken with ⟨after, moved, advanced, _⟩
      cases advanced

theorem findReply_byte (byte : UInt8) : findReply [byte] = none := by
  refine findReply_eq_none ?_ (List.infix_refl [byte])
  intro tag member within
  have lengths : ∀ tag ∈ cmdTag, 5 ≤ tag.length := by decide
  have short := within.length_le
  have long := lengths tag member
  simp only [List.length_singleton] at short
  omega

theorem length_freadLine {size : Nat} (small : size < 2 ^ 31) :
    1 ≤ (freadLine size).length ∧ (freadLine size).length ≤ 1024 := by
  have digits := Decimal.length_text_le size 10 (by decide) (by omega)
  simp only [freadLine, List.length_append, asciiBytes, List.length_map, List.length_cons,
    List.length_nil]
  omega

theorem length_files (device : Device) (i : Nat) : (device.files i).length < 2 ^ 31 := by
  by_cases held : 1 ≤ i ∧ i ≤ device.count
  · exact (device.held i held.1 held.2).2
  · rw [device.unheld i held]
    decide

theorem Stage.synchronised {rank : Nat} (stage : Stage disk device m session rank)
    (isOver : session.Over) : Synchronised disk device m session.sys := by
  unfold Over at isOver
  cases stage with
  | ended _ result => exact result
  | starting begins =>
      rcases begins with threads | ⟨threads, _⟩ <;> cases threads.symm.trans isOver
  | idle _ _ standing => cases standing.threads.symm.trans isOver
  | asked _ _ standing => cases standing.threads.symm.trans isOver
  | filling _ _ standing => cases standing.threads.symm.trans isOver
  | filled _ _ standing => cases standing.threads.symm.trans isOver
  | gap standing => cases standing.threads.symm.trans isOver
  | ending threads => cases threads.symm.trans isOver

/-- From every stage but the last one there is a step that leads on. -/
theorem Stage.goes_on {rank : Nat} (stage : Stage disk device m session rank)
    (notOver : ¬session.Over) :
    ∃ label next, label.isProgress = true ∧ Step device session label next := by
  have iterates : ∀ place, session.sys.threads = [place] → place ≠ .ended →
      session.asked = none → session.sys.world.rProc.flag ≠ 2 →
      ∃ label next, label.isProgress = true ∧ Step device session label next := by
    intro place threads goesOn answered looks
    rcases Sys.step_only_exists threads goesOn with ⟨sys, taken⟩
    exact ⟨.iterate, _, rfl, .iterate answered looks taken⟩
  cases stage with
  | starting begins _ _ _ _ flag answered =>
      rcases begins with threads | ⟨threads, _⟩
      · exact iterates .start threads (by decide) answered (by simp [flag])
      · exact iterates .connect threads (by decide) answered (by simp [flag])
  | idle i _ standing _ flag _ _ answered =>
      exact iterates (.loop i) standing.threads (by simp) answered (by simp [flag])
  | asked i _ standing _ _ _ _ _ _ asked =>
      exact ⟨.answer, _, rfl, .answer asked (Sys.step_proc_of_some standing.made
        (length_freadLine (length_files device i)) (proc_freadLine _ _ _))⟩
  | filling i _ standing _ _ stored _ _ answered filling whole =>
      have short := filling.short
      rw [← whole, List.length_append] at short
      rcases sent : session.rest with _ | ⟨byte, rest⟩
      · rw [sent, List.length_nil] at short
        omega
      · have bound := length_files device i
        rcases filling.proc (findReply_byte byte) (by unfold readLimit; omega)
          (by simp [readLimit]) with ⟨world, handled, _⟩
        exact ⟨.deliver [byte], _, rfl, .deliver answered sent (by simp) (findReply_byte byte)
          (Sys.step_proc_of_some standing.made (by simp) handled)⟩
  | filled i _ standing _ _ _ _ answered _ filled =>
      exact iterates (.loop i) standing.threads (by simp) answered (by simp [filled.flag])
  | gap standing flag _ _ answered =>
      exact iterates (.loop m) standing.threads (by simp) answered (by simp [flag])
  | ending threads flag _ answered =>
      exact iterates .ending threads (by decide) answered (by simp [flag])
  | ended threads => exact absurd threads notOver

end Session

/-- A run of `doSync` next to a device downloads exactly the missing files, up
to the first number that neither side has. It takes a bounded number of steps
that are not waiting for the device, and until it is over there is such a step. -/
theorem sync_downloads_missing (device : Device) (sys : Sys) (m : Nat)
    (begins : Session.Begins sys) (gap : FirstGap sys.world.disk device m) :
    ∃ bound, ∀ labels session,
      Run (Session.Step device) (Session.begin sys) labels session →
        labels.countP Session.Label.isProgress ≤ bound ∧
        (session.Over → Synchronised sys.world.disk device m session.sys) ∧
        (¬session.Over → ∃ label next, label.isProgress = true ∧
          Session.Step device session label next) := by
  refine ⟨Session.toCome device m 1 + if sys.threads = [.start] then 2 else 1,
    fun labels session run => ?_⟩
  have first : Session.Stage sys.world.disk device m (Session.begin sys)
      (Session.toCome device m 1 + if sys.threads = [.start] then 2 else 1) :=
    .starting (Or.inl begins.threads) begins.made begins.requests begins.parsed rfl begins.flag
      rfl rfl
  rcases run.ranked (Session.Stage sys.world.disk device m) Session.Label.isProgress first
    fun _ _ _ _ stage step => stage.step gap step with
    ⟨left, stage, counted⟩
  exact ⟨by omega, stage.synchronised, stage.goes_on⟩

def oneLog : Device where
  count := 1
  files i := if i = 1 then [65, 66] else []
  held i low high := by
    have one : i = 1 := by omega
    simp [one]
  unheld i outside := if_neg fun one => outside (by omega)

theorem sync_downloads_missing_one :
    ∃ bound, ∀ labels session,
      Run (Session.Step oneLog)
          (Session.begin { Sys.initial (fun _ => none) with threads := [.start] }) labels session →
        labels.countP Session.Label.isProgress ≤ bound ∧
        (session.Over → Synchronised (fun _ => none) oneLog 2 session.sys) ∧
        (¬session.Over → ∃ label next, label.isProgress = true ∧
          Session.Step oneLog session label next) :=
  sync_downloads_missing oneLog { Sys.initial (fun _ => none) with threads := [.start] } 2
    ⟨rfl, rfl, fun connected => absurd rfl connected, rfl, rfl⟩
    ⟨by decide, by decide, rfl, rfl, fun i low high _ => by
      have one : i = 1 := by omega
      simp [oneLog, one]⟩

end CosmosPC
