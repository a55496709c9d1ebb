import CosmosPC.Sync.Download
import CosmosPC.Sync.System

/-! # A run of `doSync` with a device

One run of `doSync`, which nobody stops, and the device at the other end of the
port. The device answers a request before the loop looks at the flag again, and
then sends the file in chunks of its own choice. -/

namespace CosmosPC

/-- The files that a device holds: 1 to `count`, none of them empty. Any other
number stands for no file. -/
structure Device where
  count : Nat
  files : Nat → List UInt8
  held : ∀ i, 1 ≤ i → i ≤ count → files i ≠ [] ∧ (files i).length < 2 ^ 31
  unheld : ∀ i, ¬(1 ≤ i ∧ i ≤ count) → files i = []

/-- The number that the device finds in a request. -/
def requestedNumber (request : List UInt8) : Nat := Decimal.value ((request.drop 10).take 6)

theorem requestedNumber_freadRequest (i : Nat) (small : i < 1000000) :
    requestedNumber (freadRequest i) = i := by
  have length := Decimal.length_padded 6 i (by decide) small
  have digits : ((freadRequest i).drop 10).take 6 = Decimal.padded 6 i := by
    rw [freadRequest, List.append_assoc]
    exact List.take_left' length
  rw [requestedNumber, digits, Decimal.value_padded]

structure Session where
  sys : Sys
  /-- The file that the device is asked for and has not announced. -/
  asked : Option (List UInt8)
  /-- What it has announced and not yet sent. -/
  rest : List UInt8

namespace Session

inductive Label
  | wait
  | iterate
  | answer
  | deliver (chunk : List UInt8)
  deriving DecidableEq

def Label.isProgress : Label → Bool
  | .wait => false
  | _ => true

def askedBy (device : Device) (before after : Sys) : Option (List UInt8) :=
  (after.requests.drop before.requests.length).head?.map fun request =>
    device.files (requestedNumber request)

inductive Step (device : Device) : Session → Label → Session → Prop
  | wait {session sys} (answered : session.asked = none)
      (writing : session.sys.world.rProc.flag = 2)
      (taken : Sys.Step session.sys (.thread 0) sys) :
      Step device session .wait { session with sys := sys }
  | iterate {session sys} (answered : session.asked = none)
      (looks : session.sys.world.rProc.flag ≠ 2)
      (taken : Sys.Step session.sys (.thread 0) sys) :
      Step device session .iterate
        { session with sys := sys, asked := askedBy device session.sys sys }
  | answer {session sys content} (asked : session.asked = some content)
      (taken : Sys.Step session.sys (.proc .full (freadLine content.length)) sys) :
      Step device session .answer { sys := sys, asked := none, rest := content }
  | deliver {session sys chunk rest} (answered : session.asked = none)
      (next : session.rest = chunk ++ rest)
      (length : 1 ≤ chunk.length ∧ chunk.length ≤ 1024) (noReply : findReply chunk = none)
      (taken : Sys.Step session.sys (.proc .full chunk) sys) :
      Step device session (.deliver chunk) { session with sys := sys, rest := rest }

/-- The `Sync` button has been pressed and nothing has happened since. -/
structure Begins (sys : Sys) : Prop where
  threads : sys.threads = [.start]
  flag : sys.world.rProc.flag = 0
  made : sys.pcio ≠ none → 0 < sys.made
  requests : sys.requests = []
  parsed : sys.parsed = []

def begin (sys : Sys) : Session := ⟨sys, none, []⟩

def Over (session : Session) : Prop := session.sys.threads = [.ended]

end Session

end CosmosPC
