import CosmosPC.Serial.CommPort
import CosmosPC.Ymodem.Transmit

/-! # A firmware update

`doUpdate` loads a file into `Image_data`, asks the boot loader of the device to
listen, and sends it the image. What it does with the port is kept as a trace. -/

namespace CosmosPC

/-! ## The file -/

/-- A file, whether `CreateFile` opens it, and the count that `ReadFile` reports
for a request at an offset (none when it fails). -/
structure BinFile where
  bytes : List UInt8
  opens : Bool
  reports : (offset requested : Nat) → Option Nat

/-- `GetFileSize(hFile, NULL)`. -/
def BinFile.getFileSize (file : BinFile) : Nat := file.bytes.length % 2 ^ 32

/-- `ReadFile` at an offset: the bytes that it delivers. -/
def BinFile.readFile (file : BinFile) (offset requested : Nat) : Option (List UInt8) :=
  (file.reports offset requested).map fun count =>
    (file.bytes.drop offset).take (min count requested)

/-- The loop that fills `Image_data`, with `len` bytes there: whether it comes to
the end of the file. -/
def loadImage (file : BinFile) (imageLen len : Nat) (imageData : Memory) : Bool × Memory :=
  if len < imageLen then
    match file.readFile len (imageLen - len) with
    | none => (false, imageData)
    | some piece =>
        if piece.length = 0 then (false, imageData)
        else
          loadImage file imageLen (len + piece.length)
            (imageData.fill len piece.length fun index => piece.getD index 0)
  else
    (true, imageData)
termination_by imageLen - len

/-! ## The port -/

/-- `BCB2WIN::Init`, for which `InitComIO` always succeeds. An earlier `ComIO`
is forgotten. -/
def Uart.init (uart : Uart) : Uart where
  updateio := some { hCom := true }
  log := uart.log

def Uart.uartClose (uart : Uart) : Uart where
  updateio := none
  log := uart.log

inductive UpdateEvent
  | init (name : List UInt16)
  | performed (event : PortEvent)
  | shown (format : String)
  | transmit (image : List UInt8) (sizeFile : Nat)
  | close
  deriving DecidableEq, Repr

/-- The globals that `doUpdate` works on, and its trace. -/
structure Update where
  imageData : Memory
  form1 : Uart
  commPort : TextArray terminator
  trace : List UpdateEvent

/-- How `doUpdate` is left, or that it is still running. -/
structure UpdateOutcome where
  returned : Bool
  update : Update

def UpdateOutcome.ofStretches : Except UpdateOutcome Update → UpdateOutcome
  | .error outcome => outcome
  | .ok update => ⟨true, update⟩

namespace Update

def record (update : Update) (event : UpdateEvent) : Update :=
  { update with trace := update.trace ++ [event] }

def perform (update : Update) (form1 : Uart) : Update :=
  { update with
    form1 := form1
    trace := update.trace ++ (form1.log.drop update.form1.log.length).map .performed }

variable (port : Port) (dialog : List UpdateEvent → ItemText)

def askCommPort (update : Update) : Update :=
  { update with commPort := getCommPort update.commPort (dialog update.trace) }

/-- `Form1->Init(getCommPort());` -/
def init (update : Update) : Update :=
  let update := update.askCommPort dialog
  { update with form1 := update.form1.init }.record (.init update.commPort.text)

/-- `Form1->ShowTestMessage(format, getCommPort());` -/
def showCommPort (format : String) (update : Update) : Update :=
  (update.askCommPort dialog).record (.shown format)

def uartClose (update : Update) : Update :=
  { update with form1 := update.form1.uartClose }.record .close

def leave (format : String) (update : Update) : UpdateOutcome where
  returned := true
  update := (update.showCommPort dialog format).uartClose

def commandBuffer (command : List UInt8) : Memory where
  cell index := command.getD index 0

/-- `Form1->UART_WRITE(buffer,in_length,&out_length)` and its exit. -/
def writePort (command : List UInt8) (update : Update) : Except UpdateOutcome Update :=
  match update.form1.uartWrite port (commandBuffer command) 0 command.length with
  | (none, _, form1) => .error ((update.perform form1).leave dialog "WRITE %s ERROR\r\n")
  | (some _, _, form1) => .ok (update.perform form1)

/-- A loop of reads, with its exit: the number of bytes they deliver. -/
def pollPort : (rounds totalLength : Nat) → (update : Update) →
    Except UpdateOutcome (Nat × Update)
  | 0, totalLength, update => .ok (totalLength, update)
  | rounds + 1, totalLength, update =>
      match update.form1.uartRead port 128 with
      | (none, form1) => .error ((update.perform form1).leave dialog "READ %s ERROR\r\n")
      | (some delivered, form1) =>
          pollPort rounds (totalLength + delivered.length)
            ((update.perform form1).record (.shown "%s"))

/-- A command and the reads that look for an answer. -/
def askDevice (command : List UInt8) (update : Update) : Except UpdateOutcome Update := do
  let update ← update.writePort port dialog command
  let (totalLength, update) ← pollPort port dialog 20 0 update
  if totalLength = 0 then
    .error ⟨true, (update.record (.shown "DEVICE NO RESPONDSE\r\n")).uartClose⟩
  else
    .ok update

/-- What follows a session: it is still running, or it has succeeded and the port
is read again, or it has failed. -/
def afterTransmit (flow : Flow) (update : Update) : Except UpdateOutcome Update :=
  if flow = .running then .error ⟨false, update⟩
  else if flow = .returned 0 then (pollPort port dialog 20 0 update).map Prod.snd
  else .ok update

/-- `if(!Ymodem_Transmit((uint8_t*)Image_data,(const uint8_t*)filename,ImageLen))`. -/
def transmitImage (fuel : Nat) (locals : Locals) (filename : Nat → UInt8) (imageLen : Nat)
    (update : Update) : Except UpdateOutcome Update :=
  let update := update.record (.transmit (update.imageData.bytes 0 imageLen) imageLen)
  let (flow, sending) :=
    ymodemTransmit port fuel locals update.imageData.cell filename imageLen update.form1
  afterTransmit port dialog flow (update.perform sending.uart)

def farewell (update : Update) : Except UpdateOutcome Update := do
  let update ← update.writePort port dialog [51]
  let (_, update) ← pollPort port dialog 30 0 update
  return update.uartClose

def converse (fuel : Nat) (locals : Locals) (filename : Nat → UInt8) (imageLen : Nat)
    (update : Update) : Except UpdateOutcome Update := do
  let update := (update.init dialog).showCommPort dialog "OPEN %s .....\r\n"
  let update ← update.askDevice port dialog [97, 48]
  let update ← update.askDevice port dialog [49]
  let update ← update.transmitImage port dialog fuel locals filename imageLen
  update.farewell port dialog

end Update

/-- `void doUpdate(TCHAR* szFileName)`. The name that it makes of `szFileName`,
the local arrays of `Ymodem_Transmit` and the globals may be anything. -/
def doUpdate (port : Port) (fuel : Nat) (locals : Locals) (dialog : List UpdateEvent → ItemText)
    (filename : Nat → UInt8) (file : BinFile) (imageData : Memory) (form1 : Uart)
    (commPort : TextArray terminator) : UpdateOutcome :=
  if file.opens = false then ⟨true, ⟨imageData, form1, commPort, []⟩⟩
  else if file.getFileSize > userFlashSize then ⟨true, ⟨imageData, form1, commPort, []⟩⟩
  else
    match loadImage file file.getFileSize 0 imageData with
    | (false, imageData) => ⟨true, ⟨imageData, form1, commPort, []⟩⟩
    | (true, imageData) =>
        let update : Update := ⟨imageData, form1, commPort, []⟩
        .ofStretches (update.converse port dialog fuel locals filename file.getFileSize)

end CosmosPC
