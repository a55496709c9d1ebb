import Mathlib.Logic.Function.Basic
import CosmosPC.Sync.Reply

/-! # The reader of a download

`CosmosReadCommProc` with its handlers of replies and of file content, over the
log files on disk. A log file stands under its number, as in `%06d.tmp`. -/

namespace CosmosPC

/-- The log files: what is in the file of a number, if there is one. -/
abbrev Disk := Nat → Option (List UInt8)

inductive Handle
  | null
  | invalid
  | file (name : Nat)
  deriving DecidableEq, Repr

/-- The members of `CosmosReadCommProc`; the values are those that the
constructor leaves in the global `rProc`. -/
structure CosmosReadCommProc where
  flag : Nat := 0
  dwName : Nat := 0
  szLastFile : Option Nat := none
  hfile : Handle := .null
  fileSize : Nat := 0
  totalRecv : Nat := 0
  deriving DecidableEq, Repr

/-- How the file operations of a call turn out: whether `CreateFile` yields a
handle, and what `WriteFile` makes of a length, `none` being its failure. -/
structure FileResults where
  created : Bool
  writes : Nat → Option Nat

def FileResults.full : FileResults := ⟨true, some⟩

structure World where
  rProc : CosmosReadCommProc
  rate : Nat
  disk : Disk

namespace World

variable (results : FileResults)

/-- `void CosmosReadCommProc::InitFile(DWORD name)`, with `CREATE_ALWAYS`. -/
def initFile (name : Nat) (world : World) : World :=
  { world with
    rProc := { world.rProc with
      szLastFile := some name
      hfile := if results.created then .file name else .invalid }
    disk := if results.created then Function.update world.disk name (some []) else world.disk }

def deinitFile (world : World) : World :=
  { world with rProc := { world.rProc with hfile := .null } }

/-- `void CosmosReadCommProc::DeleteLastFile(void)`. -/
def deleteLastFile (world : World) : World :=
  match world.rProc.szLastFile with
  | none => world.deinitFile
  | some name =>
      { world.deinitFile with disk := Function.update world.disk name none }

/-- `WriteFile(hfile, buf, len, &w, NULL)`: the count `w` if it succeeds. -/
def writeFile (buf : List UInt8) (world : World) : Option (Nat × World) :=
  match world.rProc.hfile with
  | .file name =>
      (results.writes buf.length).map fun count =>
        (min count buf.length,
          { world with
            disk := Function.update world.disk name
              (some ((world.disk name).getD [] ++ buf.take count)) })
  | _ => none

def fsize (size : Nat) (world : World) : World :=
  { world with rProc := { world.rProc with fileSize := size } }

def fread (size : Nat) (world : World) : World :=
  let rProc := { world.rProc with totalRecv := 0, fileSize := size }
  if size = 0 then
    { world with rProc := { rProc with flag := 1 } }
  else
    initFile results rProc.dwName { world with rProc := { rProc with flag := 2 } }

/-- The branch for file content. There is no world behind a division by zero. -/
def content (buf : List UInt8) (world : World) : Option World :=
  if world.rProc.flag = 2 then
    match world.writeFile results buf with
    | none => some world
    | some (w, world) =>
        let totalRecv := (world.rProc.totalRecv + w) % 2 ^ 32
        if world.rProc.fileSize = 0 then none
        else
          let world := { world with
            rProc := { world.rProc with totalRecv := totalRecv }
            rate := 100 * totalRecv % 2 ^ 32 / world.rProc.fileSize }
          if totalRecv ≥ world.rProc.fileSize then
            some { world.deinitFile with rProc := { world.deinitFile.rProc with flag := 3 } }
          else some world
  else some world

/-- `void CosmosReadCommProc::proc(char* buf, DWORD len)`. -/
def proc (buf : List UInt8) (world : World) : Option World :=
  match findReply buf with
  | some (2, text) => some (world.fsize (dword (strtol text)))
  | some (3, text) => some (world.fread results (dword (strtol text)))
  | some _ => some world
  | none => world.content results buf

/-! ## What one call may do -/

def stored (name : Nat) (buf : List UInt8) (count : Nat) (world : World) : World :=
  let totalRecv := (world.rProc.totalRecv + min count buf.length) % 2 ^ 32
  { rProc := { world.rProc with totalRecv := totalRecv }
    rate := 100 * totalRecv % 2 ^ 32 / world.rProc.fileSize
    disk := Function.update world.disk name
      (some ((world.disk name).getD [] ++ buf.take count)) }

/-- The effects of a call of `proc`, each with what it is due to. -/
inductive Handled (buf : List UInt8) (world : World) : World → Prop
  | ignored (other : ∀ index text, findReply buf = some (index, text) → index ≠ 2 ∧ index ≠ 3) :
      Handled buf world world
  | sized (text : List UInt8) (reply : findReply buf = some (2, text)) :
      Handled buf world (world.fsize (dword (strtol text)))
  | absent (text : List UInt8) (reply : findReply buf = some (3, text))
      (zero : dword (strtol text) = 0) :
      Handled buf world
        { world with rProc := { world.rProc with totalRecv := 0, fileSize := 0, flag := 1 } }
  | begun (text : List UInt8) (reply : findReply buf = some (3, text))
      (nonzero : dword (strtol text) ≠ 0) :
      Handled buf world (world.fread results (dword (strtol text)))
  | grown (name count : Nat) (noReply : findReply buf = none)
      (writing : world.rProc.flag = 2) (handle : world.rProc.hfile = .file name)
      (nonzero : world.rProc.fileSize ≠ 0)
      (short : (world.stored name buf count).rProc.totalRecv < world.rProc.fileSize)
      (written : results.writes buf.length = some count) :
      Handled buf world (world.stored name buf count)
  | finished (name count : Nat) (noReply : findReply buf = none)
      (writing : world.rProc.flag = 2) (handle : world.rProc.hfile = .file name)
      (nonzero : world.rProc.fileSize ≠ 0)
      (full : world.rProc.fileSize ≤ (world.stored name buf count).rProc.totalRecv)
      (written : results.writes buf.length = some count) :
      Handled buf world
        { world.stored name buf count with
          rProc := { (world.stored name buf count).rProc with hfile := .null, flag := 3 } }

theorem content_handled {buf : List UInt8} {world next : World}
    (noReply : findReply buf = none) (taken : world.content results buf = some next) :
    Handled results buf world next := by
  have other : ∀ index text, findReply buf = some (index, text) → index ≠ 2 ∧ index ≠ 3 := by
    simp [noReply]
  unfold content at taken
  by_cases writing : world.rProc.flag = 2
  · rw [if_pos writing] at taken
    unfold writeFile at taken
    cases handle : world.rProc.hfile with
    | null =>
        rw [handle] at taken
        cases taken
        exact .ignored other
    | invalid =>
        rw [handle] at taken
        cases taken
        exact .ignored other
    | file name =>
        rw [handle] at taken
        cases written : results.writes buf.length with
        | none =>
            rw [written] at taken
            cases taken
            exact .ignored other
        | some count =>
            rw [written] at taken
            dsimp only [Option.map_some] at taken
            by_cases zero : world.rProc.fileSize = 0
            · rw [if_pos zero] at taken
              cases taken
            · rw [if_neg zero] at taken
              by_cases full : (world.rProc.totalRecv + min count buf.length) % 2 ^ 32 ≥
                  world.rProc.fileSize
              · rw [if_pos full] at taken
                cases taken
                exact .finished name count noReply writing handle zero full written
              · rw [if_neg full] at taken
                cases taken
                exact .grown name count noReply writing handle zero (Nat.lt_of_not_le full)
                  written
  · rw [if_neg writing] at taken
    cases taken
    exact .ignored other

theorem proc_handled {buf : List UInt8} {world next : World}
    (taken : world.proc results buf = some next) : Handled results buf world next := by
  unfold proc at taken
  split at taken
  · rename_i text reply
    cases taken
    exact .sized text reply
  · rename_i text reply
    cases taken
    by_cases zero : dword (strtol text) = 0
    · rw [fread, if_pos zero, zero]
      exact .absent text reply zero
    · exact .begun text reply zero
  · rename_i reply noSize noRead found
    cases taken
    refine .ignored fun index text same => ?_
    cases found.symm.trans same
    exact ⟨fun two => noSize text (two ▸ rfl), fun three => noRead text (three ▸ rfl)⟩
  · rename_i noReply
    exact content_handled results noReply taken

end World

end CosmosPC
