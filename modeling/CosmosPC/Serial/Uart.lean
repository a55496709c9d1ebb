import CosmosPC.Foundation.Memory

/-! # The serial port of a firmware update

`ComIO::ReadCom` and `ComIO::WriteCom` with the `BCB2WIN` object that owns the
port. The device at the other end is a `Port`: a function of everything that
has happened on the cable so far, so that quantifying over ports quantifies
over every behaviour of a receiver, of a driver and of the cable between. -/

namespace CosmosPC

inductive PacketSite
  | header
  | data
  | closing
  deriving DecidableEq, Repr

/-- What happens on a port, as the program sees it. `packet` records the bytes
that a call of `Ymodem_SendPacket` is handed; it is no port operation. -/
inductive PortEvent
  | packet (site : PacketSite) (frame : List UInt8)
  | write (requested : List UInt8) (accepted : Nat)
  | read (requested : Nat) (delivered : List UInt8)
  deriving DecidableEq, Repr

namespace PortEvent

def outgoing : PortEvent → List UInt8
  | .write requested accepted => requested.take accepted
  | _ => []

def incoming : PortEvent → List UInt8
  | .read _ delivered => delivered
  | _ => []

def isRead : PortEvent → Bool
  | .read _ _ => true
  | _ => false

def isWrite : PortEvent → Bool
  | .write _ _ => true
  | _ => false

end PortEvent

/-! ## Parts of a history -/

section

open PortEvent

def sentBytes (events : List PortEvent) : List UInt8 := events.flatMap outgoing

def readBytes (events : List PortEvent) : List UInt8 := events.flatMap incoming

/-- The sender listens: nothing but reads. -/
def Listening (events : List PortEvent) : Prop := ∀ event ∈ events, event.isRead = true

/-- The sender writing: no read. -/
def Talking (events : List PortEvent) : Prop := ∀ event ∈ events, event.isRead = false

def Writing (events : List PortEvent) : Prop := ∀ event ∈ events, event.isWrite = true

theorem Listening.append {first second : List PortEvent} (left : Listening first)
    (right : Listening second) : Listening (first ++ second) := by
  intro event member
  exact (List.mem_append.mp member).elim (left event) (right event)

theorem Writing.append {first second : List PortEvent} (left : Writing first)
    (right : Writing second) : Writing (first ++ second) := by
  intro event member
  exact (List.mem_append.mp member).elim (left event) (right event)

theorem Writing.talking {events : List PortEvent} (writing : Writing events) :
    Talking events := by
  intro event member
  have isWrite := writing event member
  cases event <;> simp_all [PortEvent.isWrite, isRead]

theorem Talking.readBytes_nil {events : List PortEvent} (talking : Talking events) :
    readBytes events = [] := by
  apply List.flatMap_eq_nil_iff.mpr
  intro event member
  have isTalk := talking event member
  cases event <;> simp_all [incoming, isRead]

@[simp] theorem readBytes_append (first second : List PortEvent) :
    readBytes (first ++ second) = readBytes first ++ readBytes second := by
  simp [readBytes]

@[simp] theorem sentBytes_append (first second : List PortEvent) :
    sentBytes (first ++ second) = sentBytes first ++ sentBytes second := by
  simp [sentBytes]

end

/-! ## The port -/

/-- The other end of the cable: the number of bytes that `WriteFile` accepts
(none when it fails) and the bytes that `ReadFile` delivers, after any history. -/
structure Port where
  accepts : List PortEvent → List UInt8 → Nat
  delivers : List PortEvent → Nat → List UInt8

structure ComIO where
  /-- `NULL != hCom`; `CreateFile` never yields `NULL`, not even on failure. -/
  hCom : Bool
  deriving DecidableEq, Repr

namespace ComIO

/-- `DWORD ComIO::ReadCom(char* buffer, DWORD size)`. -/
def readCom (com : ComIO) (port : Port) (size : Nat) (log : List PortEvent) :
    List UInt8 × List PortEvent :=
  if com.hCom then
    let delivered := (port.delivers log size).take size
    (delivered, log ++ [.read size delivered])
  else
    ([], log)

/-- `DWORD ComIO::WriteCom(char* buffer, DWORD size)`. After the write, whether
it succeeded or not, the debug print stores a terminator at `buffer[size]`. -/
def writeCom (com : ComIO) (port : Port) (buffer : Memory) (start size : Nat)
    (log : List PortEvent) : Nat × Memory × List PortEvent :=
  if com.hCom then
    let requested := buffer.bytes start size
    let accepted := min (port.accepts log requested) size
    (accepted, buffer.store (start + size) 0, log ++ [.write requested accepted])
  else
    (0, buffer, log)

end ComIO

structure Uart where
  updateio : Option ComIO
  log : List PortEvent := []

namespace Uart

def opened : Uart where
  updateio := some { hCom := true }

def after (uart : Uart) (events : List PortEvent) : Uart where
  updateio := uart.updateio
  log := uart.log ++ events

def note (uart : Uart) (event : PortEvent) : Uart := uart.after [event]

/-- `BCB2WIN::UART_READ`: the delivered bytes, or nothing without a port. -/
def uartRead (uart : Uart) (port : Port) (bytesToRead : Nat) :
    Option (List UInt8) × Uart :=
  match uart.updateio with
  | none => (none, uart)
  | some com =>
      let (delivered, log) := com.readCom port bytesToRead uart.log
      (some delivered, { uart with log := log })

/-- `BCB2WIN::UART_WRITE` of `buffer[start .. start + bytesToWrite)`: the
accepted count, or nothing without a port. -/
def uartWrite (uart : Uart) (port : Port) (buffer : Memory) (start bytesToWrite : Nat) :
    Option Nat × Memory × Uart :=
  match uart.updateio with
  | none => (none, buffer, uart)
  | some com =>
      let (accepted, buffer, log) := com.writeCom port buffer start bytesToWrite uart.log
      (some accepted, buffer, { uart with log := log })

def Open (uart : Uart) : Prop := uart.updateio = some { hCom := true }

theorem opened_open : opened.Open := rfl

@[simp] theorem after_log (uart : Uart) (events : List PortEvent) :
    (uart.after events).log = uart.log ++ events := rfl

@[simp] theorem after_nil (uart : Uart) : uart.after [] = uart := by
  simp [after]

@[simp] theorem after_after (uart : Uart) (first second : List PortEvent) :
    (uart.after first).after second = uart.after (first ++ second) := by
  simp [after]

theorem Open.after {uart : Uart} (isOpen : uart.Open) (events : List PortEvent) :
    (uart.after events).Open := isOpen

theorem uartRead_open (uart : Uart) (port : Port) (bytesToRead : Nat) (isOpen : uart.Open) :
    uart.uartRead port bytesToRead =
      (some ((port.delivers uart.log bytesToRead).take bytesToRead),
        uart.note (.read bytesToRead ((port.delivers uart.log bytesToRead).take bytesToRead))) := by
  unfold Open at isOpen
  simp [uartRead, isOpen, ComIO.readCom, note, Uart.after]

theorem uartWrite_open (uart : Uart) (port : Port) (buffer : Memory)
    (start bytesToWrite : Nat) (isOpen : uart.Open) :
    uart.uartWrite port buffer start bytesToWrite =
      (some (min (port.accepts uart.log (buffer.bytes start bytesToWrite)) bytesToWrite),
        buffer.store (start + bytesToWrite) 0,
        uart.note (.write (buffer.bytes start bytesToWrite)
          (min (port.accepts uart.log (buffer.bytes start bytesToWrite)) bytesToWrite))) := by
  unfold Open at isOpen
  simp [uartWrite, isOpen, ComIO.writeCom, note, Uart.after]

end Uart

end CosmosPC
