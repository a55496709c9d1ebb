import CosmosPC.Sync.Completeness

/-! # Stopping and going on

Runs of `doSync` next to a device, with presses of Stop at any moment. Whatever
such a run leaves behind, the next one begins with a disk on which the first of
the missing files are in place and the others are still missing. With the
connection gone `doSync` does not wait for an answer any more; what has been read
by then is handed over before it ends, or not at all. -/

namespace CosmosPC

namespace Session

/-- A step of a session, a press of Stop, a step of a `StopSync`, or one of
`doSync` that does not wait for an answer. -/
inductive Event
  | session (label : Label)
  | pressStop
  | stop (k : Nat)
  | leave

/-- The device answers as before, and is heard until `doSync`, whose thread is the
first one, has ended. Without a connection `doSync` goes on unanswered. -/
inductive Interruptible (device : Device) : Session → Event → Session → Prop
  | session {session label next} (step : Step device session label next)
      (heard : label = .answer → session.sys.threads.head? ≠ some .ended) :
      Interruptible device session (.session label) next
  | pressed {session sys} (taken : Sys.Step session.sys .pressStop sys) :
      Interruptible device session .pressStop { session with sys := sys }
  | stopped {session k sys} (other : k ≠ 0) (taken : Sys.Step session.sys (.thread k) sys) :
      Interruptible device session (.stop k) { session with sys := sys }
  | left {session sys} (unanswered : session.asked ≠ none) (closed : session.sys.pcio = none)
      (taken : Sys.Step session.sys (.thread 0) sys) :
      Interruptible device session .leave { session with sys := sys }

def AllOver (session : Session) : Prop := ∀ place ∈ session.sys.threads, place = .ended

end Session

/-- The file that is open is the last one of the reader. -/
def Tied (world : World) : Prop :=
  ∀ name, world.rProc.hfile = .file name → world.rProc.szLastFile = some name

theorem tied_null {world : World} (closed : world.rProc.hfile = .null) : Tied world := by
  intro name opened
  cases closed.symm.trans opened

theorem Tied.handled {results : FileResults} {buf : List UInt8} {world next : World}
    (tied : Tied world) (handled : World.Handled results buf world next) : Tied next := by
  cases handled with
  | ignored => exact tied
  | sized => exact tied
  | absent => exact tied
  | begun text reply nonzero =>
      rw [World.fread, if_neg nonzero]
      intro name opened
      cases created : results.created <;> simp [World.initFile, created] at opened ⊢
      exact opened
  | grown => exact tied
  | finished => exact tied_null rfl

theorem Tied.step {sys next : Sys} {label : Sys.Label} (tied : Tied sys.world)
    (step : Sys.Step sys label next) : Tied next.world := by
  cases Sys.step_stepped step with
  | pressedSync => exact tied
  | pressedStop => exact tied
  | handled handled => exact tied.handled handled
  | advanced standing advanced =>
      cases advanced with
      | meets => exact tied
      | joins => exact tied
      | connects => exact tied
      | stops =>
          unfold Sys.disconnect
          split <;> exact tied
      | finishes =>
          unfold Sys.finish
          split
          · refine tied_null ?_
            unfold World.deleteLastFile
            simp only [Sys.setFlag]
            split <;> rfl
          · exact tied
      | iterates iterated => cases iterated <;> exact tied

namespace Session

variable {disk : Disk} {device : Device} {m i : Nat} {session next : Session}

/-! ## The thread of `doSync` by itself -/

def alone (session : Session) : Session :=
  { session with sys := { session.sys with threads := session.sys.threads.take 1 } }

theorem iterate_alone (sys : Sys) (threads : List Place) (i : Nat) :
    Sys.iterate { sys with threads := threads } i =
      ((sys.iterate i).1, { (sys.iterate i).2 with threads := threads }) := by
  rcases sys with ⟨world, pcio, alive, made, own, requests, parsed⟩
  have exists_ (any : List Place) : Sys.checkFileExist ⟨world, pcio, alive, made, any, requests,
      parsed⟩ i = (world.disk i).isSome := rfl
  cases pcio with
  | none => rfl
  | some object =>
      unfold Sys.iterate
      dsimp only
      rw [exists_, exists_]
      cases (world.disk i).isSome <;> split_ifs <;> rfl

theorem advance_alone (sys : Sys) (threads : List Place) (place : Place) :
    Sys.advance { sys with threads := threads } place =
      (sys.advance place).map fun outcome =>
        (outcome.1, { outcome.2 with threads := threads }) := by
  rcases sys with ⟨world, pcio, alive, made, own, requests, parsed⟩
  cases place with
  | loop i =>
      rw [Sys.advance, iterate_alone ⟨world, pcio, alive, made, own, requests, parsed⟩]
      rfl
  | ending =>
      simp only [Sys.advance, Sys.finish, Option.map_some]
      split_ifs <;> rfl
  | stopping => cases pcio <;> rfl
  | start => rfl
  | connect => rfl
  | ended => rfl

theorem thread_alone {sys next : Sys} (taken : Sys.Step sys (.thread 0) next) :
    Sys.Step { sys with threads := sys.threads.take 1 } (.thread 0)
      { next with threads := next.threads.take 1 } := by
  unfold Sys.Step Sys.step at taken ⊢
  rcases Option.bind_eq_some_iff.mp taken with ⟨place, standing, rest⟩
  rcases Option.map_eq_some_iff.mp rest with ⟨⟨after, moved⟩, advanced, rfl⟩
  rcases threads : sys.threads with _ | ⟨first, others⟩
  · rw [threads] at standing
    cases standing
  · rw [threads] at standing
    cases standing
    simp [advance_alone, advanced]

theorem proc_alone {sys next : Sys} {results : FileResults} {buf : List UInt8}
    (taken : Sys.Step sys (.proc results buf) next) :
    Sys.Step { sys with threads := sys.threads.take 1 } (.proc results buf)
      { next with threads := next.threads.take 1 } := by
  unfold Sys.Step Sys.step at taken ⊢
  dsimp only at taken ⊢
  split at taken
  case isTrue allowed =>
      rcases Option.map_eq_some_iff.mp taken with ⟨world, handled, rfl⟩
      rw [if_pos allowed, handled]
      rfl
  case isFalse => cases taken

theorem Step.alone {label : Label} (step : Step device session label next) :
    Step device session.alone label next.alone := by
  cases step with
  | wait answered writing taken => exact .wait answered writing (thread_alone taken)
  | iterate answered looks taken => exact .iterate answered looks (thread_alone taken)
  | answer asked taken => exact .answer asked (proc_alone taken)
  | deliver answered sent length noReply taken =>
      exact .deliver answered sent length noReply (proc_alone taken)

/-! ## A run that has been stopped -/

/-- What the reader is doing for a loop that stands at number `i`. -/
inductive Handling (disk : Disk) (device : Device) (i : Nat) (session : Session) : Prop
  | quiet (flag : session.sys.world.rProc.flag = 0 ∨ session.sys.world.rProc.flag = 1)
      (onDisk : session.sys.world.disk i = disk i) (answered : session.asked = none)
  | asked (flag : session.sys.world.rProc.flag = 1) (name : session.sys.world.rProc.dwName = i)
      (absent : disk i = none) (onDisk : session.sys.world.disk i = none)
      (asked : session.asked = some (device.files i))
  | filling (stored : List UInt8) (absent : disk i = none) (answered : session.asked = none)
      (filling : Filling i (device.files i).length stored session.sys.world)
      (whole : stored ++ session.rest = device.files i)
  | filled (absent : disk i = none) (held : device.files i ≠ []) (answered : session.asked = none)
      (filled : Filled i (device.files i) session.sys.world)

/-- The connection is gone, and the loop of `doSync` has not yet seen it, or has
ended. -/
structure Halted (disk : Disk) (device : Device) (m i : Nat) (session : Session) : Prop where
  threads : session.sys.threads = [.loop i] ∨ session.sys.threads = [.ending]
  pcio : session.sys.pcio = none
  positive : 1 ≤ i
  within : i ≤ m
  others : ∀ j, j ≠ i → session.sys.world.disk j = synced disk device.files i j
  handling : Handling disk device i session

structure Rested (disk : Disk) (device : Device) (m : Nat) (session : Session) : Prop where
  threads : session.sys.threads = [.ended]
  flag : session.sys.world.rProc.flag = 0
  onDisk : ∃ i, 1 ≤ i ∧ i ≤ m ∧ ∀ j, session.sys.world.disk j = synced disk device.files i j

inductive Course (disk : Disk) (device : Device) (m : Nat) (session : Session) : Prop
  | running (rank : Nat) (stage : Stage disk device m session rank) : Course disk device m session
  | halted (i : Nat) (halted : Halted disk device m i session) : Course disk device m session
  | rested (rested : Rested disk device m session) : Course disk device m session

theorem disconnect_fields (sys : Sys) :
    sys.disconnect.pcio = none ∧ sys.disconnect.world = sys.world ∧
      sys.disconnect.threads = sys.threads ∧ sys.disconnect.made = sys.made ∧
      sys.disconnect.requests = sys.requests ∧ sys.disconnect.parsed = sys.parsed := by
  unfold Sys.disconnect
  cases closed : sys.pcio with
  | none => exact ⟨closed, rfl, rfl, rfl, rfl, rfl⟩
  | some object => exact ⟨rfl, rfl, rfl, rfl, rfl, rfl⟩

theorem Handling.moved (handling : Handling disk device i session)
    (world : next.sys.world = session.sys.world) (asked : next.asked = session.asked)
    (rest : next.rest = session.rest) : Handling disk device i next := by
  cases handling with
  | quiet flag onDisk answered =>
      exact .quiet (by rwa [world]) (by rwa [world]) (asked.trans answered)
  | asked flag name absent onDisk isAsked =>
      exact .asked (by rwa [world]) (by rwa [world]) absent (by rwa [world]) (asked.trans isAsked)
  | filling stored absent answered filling whole =>
      exact .filling stored absent (asked.trans answered) (by rwa [world]) (by rwa [rest])
  | filled absent held answered filled =>
      exact .filled absent held (asked.trans answered) (by rwa [world])

theorem At.disconnect (standing : At disk device m i session)
    (handling : Handling disk device i session) :
    Course disk device m { session with sys := session.sys.disconnect } := by
  rcases disconnect_fields session.sys with ⟨pcio, world, threads, _⟩
  refine .halted i ⟨Or.inl (threads.trans standing.threads), pcio, standing.positive,
    standing.within, ?_, ?_⟩
  · intro j different
    rw [world]
    exact standing.others j different
  · exact handling.moved world rfl rfl

theorem synchronised_onDisk {sys : Sys} (result : Synchronised disk device m sys) (j : Nat) :
    sys.world.disk j = synced disk device.files m j := by
  by_cases among : j ∈ missing disk m
  · rw [result.downloaded j among, synced, if_pos (mem_missing.mp among)]
  · rw [result.untouched j among, synced,
      if_neg fun conditions => among (mem_missing.mpr conditions)]

theorem Stage.disconnect (gap : FirstGap disk device m) {rank : Nat}
    (stage : Stage disk device m session rank) :
    Course disk device m { session with sys := session.sys.disconnect } := by
  rcases disconnect_fields session.sys with ⟨pcio, world, threads, made, requests, parsed⟩
  cases stage with
  | starting begins _ noRequests noneParsed onDisk flag answered sent =>
      refine .running _ (.starting ?_ (fun connected => absurd pcio connected)
        (requests.trans noRequests) (parsed.trans noneParsed) ?_ ?_ answered sent)
      · rw [threads]
        exact begins.imp_right fun connects => ⟨connects.1, pcio⟩
      · rwa [world]
      · rwa [world]
  | idle i left standing last flag _ onDisk answered =>
      exact standing.disconnect (.quiet (Or.inl flag) onDisk answered)
  | asked i left standing last flag name _ absent onDisk asked =>
      exact standing.disconnect (.asked flag name absent onDisk asked)
  | filling i left standing last inside stored _ absent answered filling whole =>
      exact standing.disconnect (.filling stored absent answered filling whole)
  | filled i left standing last inside _ absent answered _ filled =>
      exact standing.disconnect
        (.filled absent (gap.least i standing.positive inside absent) answered filled)
  | gap standing flag _ onDisk answered =>
      exact standing.disconnect (.quiet (Or.inr flag) (onDisk.trans gap.absent.symm) answered)
  | ending ended flag result answered sent =>
      have onDisk := synchronised_onDisk result
      refine .halted m ⟨Or.inr (threads.trans ended), pcio, gap.positive, Nat.le_refl m, ?_, ?_⟩
      · intro j _
        rw [world]
        exact onDisk j
      · refine .quiet (Or.inr (by rwa [world])) ?_ answered
        rw [world]
        exact (onDisk m).trans (synced_of_le (Nat.le_refl m))
  | ended ended result answered sent =>
      refine .rested ⟨threads.trans ended, ?_, m, gap.positive, Nat.le_refl m, ?_⟩
      · rw [world]
        exact result.flag
      · rw [world]
        exact synchronised_onDisk result

/-! ## Steps of a run that has been stopped -/

theorem bound_files (device : Device) (i : Nat) :
    (device.files i).length + readLimit ≤ 2 ^ 32 := by
  have small := length_files device i
  unfold readLimit
  omega

theorem Handling.delivers (handling : Handling disk device i session) {chunk rest : List UInt8}
    (next : session.rest = chunk ++ rest) (length : 1 ≤ chunk.length ∧ chunk.length ≤ 1024)
    (noReply : findReply chunk = none) {world : World}
    (handled : session.sys.world.proc .full chunk = some world) :
    Handling disk device i
        { session with sys := { session.sys with world := world }, rest := rest } ∧
      ∀ j, j ≠ i → world.disk j = session.sys.world.disk j := by
  have idles (idle : session.sys.world.rProc.flag ≠ 2) : world = session.sys.world :=
    Option.some.inj (handled.symm.trans (proc_idle .full noReply idle))
  cases handling with
  | quiet flag onDisk answered =>
      rw [idles (by omega)]
      exact ⟨.quiet flag onDisk answered, fun _ _ => rfl⟩
  | asked flag name absent onDisk asked =>
      rw [idles (by omega)]
      exact ⟨.asked flag name absent onDisk asked, fun _ _ => rfl⟩
  | filled absent held answered filled =>
      have flag := filled.flag
      rw [idles (by omega)]
      exact ⟨.filled absent held answered filled, fun _ _ => rfl⟩
  | filling stored absent answered filling whole =>
      rcases filling.proc noReply (bound_files device i) length.2 with
        ⟨filled, handledAs, kept, full, more⟩
      cases handled.symm.trans handledAs
      refine ⟨?_, kept.others⟩
      have positive := Nat.lt_of_le_of_lt (Nat.zero_le _) filling.short
      rw [next, ← List.append_assoc] at whole
      by_cases short : (stored ++ chunk).length < (device.files i).length
      · exact .filling _ absent answered (more short) whole
      · have lengths := congrArg List.length whole
        rw [List.length_append] at lengths
        have nothing : rest = [] := List.eq_nil_of_length_eq_zero (by omega)
        rw [nothing, List.append_nil] at whole
        have done := full (Nat.le_of_not_lt short)
        rw [whole] at done
        exact .filled absent (List.length_pos_iff.mp positive) answered done

theorem Handling.answers (handling : Handling disk device i session) {content : List UInt8}
    (asked : session.asked = some content) {world : World}
    (handled : session.sys.world.proc .full (freadLine content.length) = some world) :
    Handling disk device i ⟨{ session.sys with world := world }, none, content⟩ ∧
      ∀ j, j ≠ i → world.disk j = session.sys.world.disk j := by
  cases handling with
  | quiet _ _ answered => cases answered.symm.trans asked
  | filling _ _ answered => cases answered.symm.trans asked
  | filled _ _ answered => cases answered.symm.trans asked
  | asked flag name absent onDisk sameAsked =>
      cases sameAsked.symm.trans asked
      rw [proc_freadLine] at handled
      cases handled
      by_cases none : device.files i = []
      · rw [none]
        exact ⟨.quiet (Or.inr rfl) (onDisk.trans absent.symm) rfl, fun _ _ => rfl⟩
      · have small := length_files device i
        have size : sizeRead (device.files i).length = (device.files i).length := by
          unfold sizeRead
          omega
        have begins := fread_begins session.sys.world (device.files i).length
          (List.length_pos_iff.mpr none)
        rw [name] at begins
        rw [size]
        exact ⟨.filling [] absent rfl begins.1 rfl, begins.2.others⟩

theorem synced_self {files : Nat → List UInt8} (onDisk : session.sys.world.disk i = disk i)
    (others : ∀ j, j ≠ i → session.sys.world.disk j = synced disk files i j) (j : Nat) :
    session.sys.world.disk j = synced disk files i j := by
  by_cases same : j = i
  · rw [same, onDisk, synced_of_le (Nat.le_refl i)]
  · exact others j same

theorem finish_requests (sys : Sys) : sys.finish.requests = sys.requests := by
  unfold Sys.finish
  split <;> rfl

theorem finish_of_ne {sys : Sys} (other : sys.world.rProc.flag ≠ 2) : sys.finish = sys.setFlag 0 :=
  if_neg other

/-- What `doSync` leaves when it ends for want of a connection: a file that is
still being written is deleted, one that is finished stays. -/
theorem Halted.finishes (gap : FirstGap disk device m) (halted : Halted disk device m i session)
    (tied : Tied session.sys.world) :
    Rested disk device m
      { session with sys := { session.sys.finish with threads := [.ended] } } := by
  rcases halted with ⟨_, _, positive, within, others, handling⟩
  cases handling with
  | asked flag _ absent onDisk =>
      rw [finish_of_ne (by omega)]
      exact ⟨rfl, rfl, i, positive, within, synced_self (onDisk.trans absent.symm) others⟩
  | quiet flag onDisk =>
      rw [finish_of_ne (by omega)]
      exact ⟨rfl, rfl, i, positive, within, synced_self onDisk others⟩
  | filled absent held _ filled =>
      have inside : i < m := by
        rcases Nat.lt_or_eq_of_le within with less | same
        · exact less
        · exact absurd (same ▸ gap.unheld) held
      rw [finish_of_ne (by rw [filled.flag]; decide)]
      refine ⟨rfl, rfl, i + 1, Nat.le_add_left 1 i, inside, fun j => ?_⟩
      by_cases same : j = i
      · rw [same, synced_succ_self device.files positive absent]
        exact filled.onDisk
      · rw [synced_succ disk device.files same]
        exact others j same
  | filling stored absent _ filling =>
      have deleted : session.sys.finish =
          { session.sys with world := { session.sys.world.deinitFile with
            disk := Function.update session.sys.world.disk i none } }.setFlag 0 := by
        rw [Sys.finish, if_pos filling.flag, World.deleteLastFile, tied i filling.handle]
      rw [deleted]
      refine ⟨rfl, rfl, i, positive, within, fun j => ?_⟩
      by_cases same : j = i
      · rw [same, synced_of_le (Nat.le_refl i), absent]
        exact Function.update_self ..
      · exact (Function.update_of_ne same _ _).trans (others j same)

theorem step_closed {sys next : Sys} (threads : sys.threads = [.loop i]) (closed : sys.pcio = none)
    (taken : Sys.Step sys (.thread 0) next) : next = { sys with threads := [.ending] } := by
  have iterated : sys.iterate i = (.ending, sys) := by
    unfold Sys.iterate
    rw [closed]
  simp only [Sys.Step, Sys.step, threads, List.getElem?_cons_zero, Option.bind_some, Sys.advance,
    iterated, Option.map_some, List.set_cons_zero, Option.some.injEq] at taken
  exact taken.symm

theorem Halted.leaves (gap : FirstGap disk device m) (halted : Halted disk device m i session)
    (tied : Tied session.sys.world) {sys : Sys} (taken : Sys.Step session.sys (.thread 0) sys) :
    Course disk device m { session with sys := sys } ∧ askedBy device session.sys sys = none := by
  rcases halted.threads with threads | threads
  · rw [step_closed threads halted.pcio taken]
    exact ⟨.halted i ⟨Or.inr rfl, halted.pcio, halted.positive, halted.within, halted.others,
      halted.handling.moved rfl rfl rfl⟩, askedBy_same rfl⟩
  · rcases Sys.step_only threads taken with ⟨after, moved, advanced, rfl⟩
    cases advanced with
    | finishes =>
        exact ⟨.rested (halted.finishes gap tied), askedBy_same (finish_requests _)⟩

theorem Halted.step (gap : FirstGap disk device m) (halted : Halted disk device m i session)
    (tied : Tied session.sys.world) {label : Label} (step : Step device session label next) :
    Course disk device m next := by
  cases step with
  | wait answered writing taken => exact (halted.leaves gap tied taken).1
  | iterate answered looks taken =>
      have moved := halted.leaves gap tied taken
      rw [moved.2, ← answered]
      exact moved.1
  | answer asked taken =>
      rcases Sys.step_proc taken with ⟨world, handled, rfl⟩
      rcases halted.handling.answers asked handled with ⟨handling, kept⟩
      exact .halted i ⟨halted.threads, halted.pcio, halted.positive, halted.within,
        fun j different => (kept j different).trans (halted.others j different), handling⟩
  | deliver answered sent length noReply taken =>
      rcases Sys.step_proc taken with ⟨world, handled, rfl⟩
      rcases halted.handling.delivers sent length noReply handled with ⟨handling, kept⟩
      exact .halted i ⟨halted.threads, halted.pcio, halted.positive, halted.within,
        fun j different => (kept j different).trans (halted.others j different), handling⟩

theorem Rested.stands (rested : Rested disk device m session) {sys : Sys}
    (taken : Sys.Step session.sys (.thread 0) sys) : False := by
  rcases Sys.step_only rested.threads taken with ⟨after, moved, advanced, _⟩
  cases advanced

theorem Rested.step (rested : Rested disk device m session) {label : Label}
    (step : Step device session label next)
    (heard : label = .answer → session.sys.threads.head? ≠ some .ended) :
    Rested disk device m next := by
  cases step with
  | wait _ _ taken => exact (rested.stands taken).elim
  | iterate _ _ taken => exact (rested.stands taken).elim
  | answer => exact absurd (by rw [rested.threads]; rfl) (heard rfl)
  | deliver answered sent length noReply taken =>
      rcases Sys.step_proc taken with ⟨world, handled, rfl⟩
      have idle : session.sys.world.rProc.flag ≠ 2 := by
        rw [rested.flag]
        decide
      have same := Option.some.inj (handled.symm.trans (proc_idle .full noReply idle))
      subst same
      exact ⟨rested.threads, rested.flag, rested.onDisk⟩

theorem Course.step (gap : FirstGap disk device m) (course : Course disk device m session)
    (tied : Tied session.sys.world) {label : Label} (step : Step device session label next)
    (heard : label = .answer → session.sys.threads.head? ≠ some .ended) :
    Course disk device m next := by
  cases course with
  | running rank stage =>
      rcases stage.step gap step with ⟨left, stage, _⟩
      exact .running left stage
  | halted i halted => exact halted.step gap tied step
  | rested rested => exact .rested (rested.step step heard)

theorem Stage.connected {rank : Nat} (stage : Stage disk device m session rank)
    (unanswered : session.asked ≠ none) : session.sys.pcio ≠ none := by
  cases stage with
  | asked i left standing => exact standing.pcio
  | starting _ _ _ _ _ _ answered => exact absurd answered unanswered
  | idle _ _ _ _ _ _ _ answered => exact absurd answered unanswered
  | filling _ _ _ _ _ _ _ _ answered => exact absurd answered unanswered
  | filled _ _ _ _ _ _ _ answered => exact absurd answered unanswered
  | gap _ _ _ _ answered => exact absurd answered unanswered
  | ending _ _ _ answered => exact absurd answered unanswered
  | ended _ _ answered => exact absurd answered unanswered

theorem Course.leaves (gap : FirstGap disk device m) (course : Course disk device m session)
    (tied : Tied session.sys.world) (unanswered : session.asked ≠ none)
    (closed : session.sys.pcio = none) {sys : Sys}
    (taken : Sys.Step session.sys (.thread 0) sys) :
    Course disk device m { session with sys := sys } := by
  cases course with
  | running rank stage => exact absurd closed (stage.connected unanswered)
  | halted i halted => exact (halted.leaves gap tied taken).1
  | rested rested => exact (rested.stands taken).elim

theorem Course.disconnect (gap : FirstGap disk device m) (course : Course disk device m session) :
    Course disk device m { session with sys := session.sys.disconnect } := by
  cases course with
  | running rank stage => exact stage.disconnect gap
  | halted i halted =>
      have same : session.sys.disconnect = session.sys := by
        rw [Sys.disconnect, halted.pcio]
      rw [same]
      exact .halted i halted
  | rested rested =>
      rcases disconnect_fields session.sys with ⟨_, world, threads, _⟩
      refine .rested ⟨threads.trans rested.threads, ?_, ?_⟩
      · rw [world]
        exact rested.flag
      · rw [world]
        exact rested.onDisk

/-! ## Runs with presses of Stop -/

/-- `doSync` is on its course, and all other threads are `StopSync`. -/
structure Stoppable (disk : Disk) (device : Device) (m : Nat) (session : Session) : Prop where
  course : Course disk device m session.alone
  begun : session.sys.threads ≠ []
  others : ∀ place ∈ session.sys.threads.drop 1, place = .stopping ∨ place = .ended
  tied : Tied session.sys.world

theorem alone_disconnect (sys : Sys) {k : Nat} (other : k ≠ 0) (after : Place) :
    { sys.disconnect with threads := (sys.threads.set k after).take 1 } =
      Sys.disconnect { sys with threads := sys.threads.take 1 } := by
  rcases sys with ⟨world, pcio, alive, made, threads, requests, parsed⟩
  have first : (threads.set k after).take 1 = threads.take 1 := by
    rcases threads with _ | ⟨head, tail⟩
    · rfl
    · rcases k with _ | k
      · exact absurd rfl other
      · rfl
  cases pcio <;> simp [Sys.disconnect, first]

theorem threads_of_thread {before sys : Sys} (taken : Sys.Step before (.thread 0) sys) :
    sys.threads.drop 1 = before.threads.drop 1 ∧
      (before.threads ≠ [] → sys.threads ≠ []) := by
  cases Sys.step_stepped taken with
  | @advanced _ place after moved standing advanced =>
      rcases threads : before.threads with _ | ⟨head, tail⟩ <;> simp

theorem threads_of_step {label : Label} (step : Step device session label next) :
    next.sys.threads.drop 1 = session.sys.threads.drop 1 ∧
      (session.sys.threads ≠ [] → next.sys.threads ≠ []) := by
  cases step with
  | wait _ _ taken => exact threads_of_thread taken
  | iterate _ _ taken => exact threads_of_thread taken
  | answer _ taken =>
      rcases Sys.step_proc taken with ⟨world, _, rfl⟩
      exact ⟨rfl, id⟩
  | deliver _ _ _ _ taken =>
      rcases Sys.step_proc taken with ⟨world, _, rfl⟩
      exact ⟨rfl, id⟩

theorem tied_of_step {label : Label} (tied : Tied session.sys.world)
    (step : Step device session label next) : Tied next.sys.world := by
  cases step with
  | wait _ _ taken => exact tied.step taken
  | iterate _ _ taken => exact tied.step taken
  | answer _ taken => exact tied.step taken
  | deliver _ _ _ _ taken => exact tied.step taken

theorem Stoppable.step (gap : FirstGap disk device m) (stoppable : Stoppable disk device m session)
    {event : Event} (step : Interruptible device session event next) :
    Stoppable disk device m next := by
  rcases stoppable with ⟨course, begun, others, tied⟩
  cases step with
  | @session label _ step heard =>
      rcases threads_of_step step with ⟨same, still⟩
      have heardAlone (answers : label = .answer) :
          session.alone.sys.threads.head? ≠ some .ended := by
        rw [alone, List.head?_take, if_neg (by decide)]
        exact heard answers
      exact ⟨course.step gap tied step.alone heardAlone, still begun, same ▸ others,
        tied_of_step tied step⟩
  | left unanswered closed taken =>
      rcases threads_of_thread taken with ⟨same, still⟩
      exact ⟨course.leaves gap tied unanswered closed (thread_alone taken), still begun,
        same ▸ others, tied.step taken⟩
  | pressed taken =>
      have next := Option.some.inj taken
      subst next
      rcases threads : session.sys.threads with _ | ⟨head, tail⟩
      · exact absurd threads begun
      · refine ⟨?_, by simp, ?_, tied⟩
        · unfold alone at course ⊢
          simpa [threads] using course
        · intro place member
          simp only [List.cons_append, List.drop_succ_cons, List.drop_zero] at member
          rcases List.mem_append.mp member with before | new
          · exact others place (by simpa [threads] using before)
          · exact Or.inl (List.mem_singleton.mp new)
  | @stopped k sys other taken =>
      have stillTied := tied.step taken
      cases Sys.step_stepped taken with
      | @advanced _ place after moved standing advanced =>
          have among : place ∈ session.sys.threads.drop 1 := by
            rcases k with _ | k
            · exact absurd rfl other
            · exact List.mem_of_getElem? (by rwa [List.getElem?_drop, Nat.add_comm])
          rcases others place among with rfl | rfl
          · cases advanced with
            | stops =>
                refine ⟨?_, ?_, ?_, stillTied⟩
                · unfold alone
                  dsimp only
                  rw [alone_disconnect session.sys other]
                  exact course.disconnect gap
                · exact fun empty => begun (by simpa using empty)
                · intro any member
                  dsimp only at member
                  rw [List.drop_set, if_neg (by omega)] at member
                  rcases List.mem_or_eq_of_mem_set member with before | same
                  · exact others any before
                  · exact Or.inr same
          · cases advanced

/-- What a run of `doSync` that may be stopped at any moment leaves behind: the
first of the missing files whole, and nothing of the others. -/
structure Left (disk : Disk) (device : Device) (m : Nat) (sys : Sys) : Prop where
  flag : sys.world.rProc.flag = 0
  onDisk : ∃ i, 1 ≤ i ∧ i ≤ m ∧ ∀ j, sys.world.disk j = synced disk device.files i j

theorem Stoppable.left (stoppable : Stoppable disk device m session) (gap : FirstGap disk device m)
    (ended : session.AllOver) : Left disk device m session.sys := by
  rcases threads : session.sys.threads with _ | ⟨first, others⟩
  · exact absurd threads stoppable.begun
  · have ended : session.alone.sys.threads = [.ended] := by
      have last := ended first (by simp [threads])
      simp [alone, threads, last]
    cases stoppable.course with
    | running rank stage =>
        have result := stage.synchronised ended
        have onDisk := synchronised_onDisk result
        exact ⟨result.flag, m, gap.positive, Nat.le_refl m, onDisk⟩
    | halted i halted =>
        rcases halted.threads with loops | ending
        · cases ended.symm.trans loops
        · cases ended.symm.trans ending
    | rested rested => exact ⟨rested.flag, rested.onDisk⟩

/-! ## Going on after a stop -/

def Connected (sys : Sys) : Prop := sys.pcio ≠ none → 0 < sys.made

theorem Connected.step {sys next : Sys} {label : Sys.Label} (connected : Connected sys)
    (step : Sys.Step sys label next) : Connected next := by
  cases Sys.step_stepped step with
  | pressedSync => exact connected
  | pressedStop => exact connected
  | handled => exact connected
  | advanced standing advanced =>
      cases advanced with
      | meets => exact connected
      | joins => exact connected
      | connects => exact fun _ => Nat.succ_pos _
      | stops => exact fun opened => absurd (disconnect_fields sys).1 opened
      | finishes =>
          unfold Sys.finish
          split <;> exact connected
      | iterates iterated => cases iterated <;> exact connected

theorem Interruptible.keeps {holds : Sys → Prop} (kept : ∀ sys label next, holds sys →
      Sys.Step sys label next → holds next) (before : holds session.sys) {event : Event}
    (step : Interruptible device session event next) : holds next.sys := by
  cases step with
  | pressed taken => exact kept _ _ _ before taken
  | stopped _ taken => exact kept _ _ _ before taken
  | left _ _ taken => exact kept _ _ _ before taken
  | session step =>
      cases step with
      | wait _ _ taken => exact kept _ _ _ before taken
      | iterate _ _ taken => exact kept _ _ _ before taken
      | answer _ taken => exact kept _ _ _ before taken
      | deliver _ _ _ _ taken => exact kept _ _ _ before taken

/-- Sync is pressed when all threads have returned. The lists of requests and of
parsers begin anew; no step reads them. -/
def pressAgain (sys : Sys) : Sys := { sys with threads := [.start], requests := [], parsed := [] }

/-- What can be left behind by any number of runs of `doSync`, each of which may
have been stopped. -/
inductive Stopped (device : Device) (first : Sys) : Sys → Prop
  | never : Stopped device first first
  | again {sys session events} (earlier : Stopped device first sys)
      (run : Run (Interruptible device) (begin (pressAgain sys)) events session)
      (ended : session.AllOver) : Stopped device first session.sys

theorem synced_synced (disk : Disk) (files : Nat → List UInt8) (i k j : Nat) :
    synced (synced disk files i) files k j = synced disk files (max i k) j := by
  by_cases first : 1 ≤ j ∧ j < i ∧ disk j = none
  · have present : synced disk files i j = some (files j) := if_pos first
    have inside : 1 ≤ j ∧ j < max i k ∧ disk j = none :=
      ⟨first.1, Nat.lt_of_lt_of_le first.2.1 (Nat.le_max_left i k), first.2.2⟩
    rw [synced_of_present (by simp [present]), present]
    exact (if_pos inside).symm
  · have same : synced disk files i j = disk j := if_neg first
    have either : (1 ≤ j ∧ j < k ∧ disk j = none) ↔ 1 ≤ j ∧ j < max i k ∧ disk j = none := by
      constructor
      · rintro ⟨low, high, absent⟩
        exact ⟨low, by omega, absent⟩
      · rintro ⟨low, high, absent⟩
        have beyond : ¬j < i := fun less => first ⟨low, less, absent⟩
        exact ⟨low, by omega, absent⟩
    rw [synced, same, synced]
    exact if_congr either rfl rfl

theorem gap_synced (gap : FirstGap disk device m) (within : i ≤ m) :
    FirstGap (synced disk device.files i) device m where
  positive := gap.positive
  small := gap.small
  absent := (synced_of_le within).trans gap.absent
  unheld := gap.unheld
  least j low high absent := by
    refine gap.least j low high ?_
    by_contra present
    rw [synced_of_present present] at absent
    exact present absent

theorem starting_again {sys : Sys} (left : Left disk device m sys) (connected : Connected sys) :
    Stage sys.world.disk device m (begin (pressAgain sys))
      (toCome device m 1 + if (pressAgain sys).threads = [.start] then 2 else 1) :=
  .starting (Or.inl rfl) connected rfl rfl rfl left.flag rfl rfl

theorem stoppable_again {sys : Sys} (left : Left disk device m sys) (connected : Connected sys)
    (tied : Tied sys.world) : Stoppable sys.world.disk device m (begin (pressAgain sys)) where
  course := .running _ (starting_again left connected)
  begun := List.cons_ne_nil _ _
  others place member := by cases member
  tied := tied

/-- What one run leaves after what another one has left. -/
theorem Left.trans {middle last : Sys} (earlier : Left disk device m middle)
    (later : Left middle.world.disk device m last) : Left disk device m last := by
  rcases earlier.onDisk with ⟨i, positive, within, first⟩
  rcases later.onDisk with ⟨k, _, inside, second⟩
  refine ⟨later.flag, max i k, by omega, Nat.max_le.mpr ⟨within, inside⟩,
    fun j => ?_⟩
  have same : middle.world.disk = synced disk device.files i := funext first
  rw [second j, same, synced_synced]

theorem Stopped.left (gap : FirstGap disk device m) {sys : Sys}
    (stopped : Stopped device (.initial disk) sys) :
    Left disk device m sys ∧ Connected sys ∧ Tied sys.world := by
  induction stopped with
  | never =>
      refine ⟨⟨rfl, 1, Nat.le_refl 1, gap.positive, fun j => ?_⟩, fun opened => absurd rfl opened,
        tied_null rfl⟩
      exact (if_neg fun before => by omega).symm
  | @again sys session events _ run ended induction =>
      rcases induction with ⟨left, connected, tied⟩
      rcases left.onDisk with ⟨i, _, within, onDisk⟩
      have same : sys.world.disk = synced disk device.files i := funext onDisk
      have gapNow : FirstGap sys.world.disk device m := same ▸ gap_synced gap within
      have holds := run.history_invariant
        (fun _ session => Stoppable sys.world.disk device m session ∧ Connected session.sys)
        ⟨stoppable_again left connected tied, connected⟩ fun _ _ _ _ holds step =>
          ⟨holds.1.step gapNow step, step.keeps (fun _ _ _ => Connected.step) holds.2⟩
      exact ⟨left.trans (holds.1.left gapNow ended), holds.2, holds.1.tied⟩

end Session

/-- However often `doSync` has been run next to a device, and stopped at any
moment, the first of the missing files are then in place and whole, and nothing
else has changed on disk. A run that is not stopped goes on from there, and ends
after a bounded number of steps that are not waiting, with all of them in place. -/
theorem stopped_sync_is_resumed (device : Device) (disk : Disk) (m : Nat)
    (gap : FirstGap disk device m) (sys : Sys)
    (stopped : Session.Stopped device (.initial disk) sys) :
    (∃ i, 1 ≤ i ∧ i ≤ m ∧ ∀ j, sys.world.disk j = synced disk device.files i j) ∧
      ∃ bound, ∀ labels session,
        Run (Session.Step device) (Session.begin (Session.pressAgain sys)) labels session →
          labels.countP Session.Label.isProgress ≤ bound ∧
          (session.Over → ∀ j, session.sys.world.disk j = synced disk device.files m j) ∧
          (¬session.Over → ∃ label next, label.isProgress = true ∧
            Session.Step device session label next) := by
  rcases stopped.left gap with ⟨left, connected, _⟩
  rcases left.onDisk with ⟨i, positive, within, onDisk⟩
  have same : sys.world.disk = synced disk device.files i := funext onDisk
  have gapNow : FirstGap sys.world.disk device m := same ▸ Session.gap_synced gap within
  refine ⟨left.onDisk, Session.toCome device m 1 +
    if (Session.pressAgain sys).threads = [.start] then 2 else 1, fun labels session run => ?_⟩
  rcases run.ranked (Session.Stage sys.world.disk device m) Session.Label.isProgress
    (Session.starting_again left connected) fun _ _ _ _ stage step => stage.step gapNow step with
    ⟨rank, stage, counted⟩
  refine ⟨Nat.le_of_add_left_le counted, fun ended j => ?_, stage.goes_on⟩
  rw [Session.synchronised_onDisk (stage.synchronised ended), same, Session.synced_synced,
    Nat.max_eq_right within]

namespace Session

/-- A run that is stopped before the first file has been announced. -/
def stoppedUnanswered : List Event :=
  [.session .iterate, .session .iterate, .session .iterate, .pressStop, .stop 1, .leave, .leave]

def stoppedAtFirst : List Event :=
  [.session .iterate, .session .iterate, .session .iterate, .session .answer, .pressStop, .stop 1,
    .session .wait, .session .wait]

theorem allOver_of_threads {session : Session} (threads : session.sys.threads = [.ended, .ended]) :
    session.AllOver := by
  intro place member
  simpa [threads] using member

theorem stopped_twice :
    ∃ sys, Stopped oneLog (.initial fun _ => none) sys ∧
      sys.world.rProc.szLastFile = some 1 := by
  have first : ∃ session, Run (Interruptible oneLog) (begin (pressAgain (.initial fun _ => none)))
      stoppedUnanswered session ∧ session.sys.threads = [.ended, .ended] ∧
      ∃ last, Run (Interruptible oneLog) (begin (pressAgain session.sys))
        stoppedAtFirst last ∧ last.sys.threads = [.ended, .ended] ∧
        last.sys.world.rProc.szLastFile = some 1 := by
    refine ⟨_, .cons (.session (.iterate rfl (by decide) rfl) nofun) <|
      .cons (.session (.iterate rfl (by decide) rfl) nofun) <|
      .cons (.session (.iterate rfl (by decide) rfl) nofun) <| .cons (.pressed rfl) <|
      .cons (.stopped (by decide) rfl) <| .cons (.left nofun rfl rfl) <|
      .cons (.left nofun rfl rfl) <| .nil _, rfl, _,
      .cons (.session (.iterate rfl (by decide) rfl) nofun) <|
      .cons (.session (.iterate rfl (by decide) rfl) nofun) <|
      .cons (.session (.iterate rfl (by decide) rfl) nofun) <|
      .cons (.session (.answer rfl rfl) fun _ => nofun) <| .cons (.pressed rfl) <|
      .cons (.stopped (by decide) rfl) <| .cons (.session (.wait rfl rfl rfl) nofun) <|
      .cons (.session (.wait rfl rfl rfl) nofun) <| .nil _, rfl, rfl⟩
  rcases first with ⟨session, unanswered, threads, last, behind, threadsLast, named⟩
  exact ⟨last.sys, .again (.again .never unanswered (allOver_of_threads threads)) behind
    (allOver_of_threads threadsLast), named⟩

end Session

theorem stopped_sync_is_resumed_first :
    ∃ sys, sys.world.rProc.szLastFile = some 1 ∧
      (∃ i, 1 ≤ i ∧ i ≤ 2 ∧ ∀ j, sys.world.disk j = synced (fun _ => none) oneLog.files i j) ∧
      ∃ bound, ∀ labels session,
        Run (Session.Step oneLog) (Session.begin (Session.pressAgain sys)) labels session →
          labels.countP Session.Label.isProgress ≤ bound ∧
          (session.Over → ∀ j, session.sys.world.disk j =
            synced (fun _ => none) oneLog.files 2 j) ∧
          (¬session.Over → ∃ label next, label.isProgress = true ∧
            Session.Step oneLog session label next) := by
  rcases Session.stopped_twice with ⟨sys, stopped, last⟩
  refine ⟨sys, last, stopped_sync_is_resumed oneLog (fun _ => none) 2
    ⟨by decide, by decide, rfl, rfl, fun i low high _ => ?_⟩ sys stopped⟩
  have one : i = 1 := by omega
  simp [oneLog, one]

end CosmosPC
