import Mathlib.Algebra.Group.Nat.Defs
import CosmosPC.Serial.Uart
import CosmosPC.Ymodem.Packets

/-! # Sending a file

`Ymodem_Transmit` and the functions it calls. The one loop without a bound of
its own, in `Ymodem_SendPacket`, is given as much fuel as it may make attempts;
a call that needs more is still running, and the history says how far it got. -/

namespace CosmosPC

/-- How a stretch of `Ymodem_Transmit` ends: it is still running when the fuel
is used up, it has left the function, or the next stretch begins. -/
inductive Flow
  | running
  | returned (value : UInt8)
  | next
  deriving DecidableEq, Repr

/-- What `Ymodem_Transmit` changes while it runs. -/
structure Sending where
  packetData : Memory
  uart : Uart

/-- `static int32_t Receive_Byte(uint8_t *c, uint32_t timeout)`. -/
def receiveByte (port : Port) : (timeout : Nat) → (uart : Uart) → Option UInt8 × Uart
  | 0, uart => (none, uart)
  | timeout + 1, uart =>
      match uart.uartRead port 1 with
      | (none, uart) => (none, uart)
      | (some [c], uart) => (some c, uart)
      | (some _, uart) => receiveByte port timeout uart

/-- `uint8_t Ymodem_WaitForChar(uint8_t ch)` with `rounds` of its 20 rounds left. -/
def ymodemWaitForCharLoop (port : Port) (ch : UInt8) :
    (rounds : Nat) → (uart : Uart) → Bool × Uart
  | 0, uart => (false, uart)
  | rounds + 1, uart =>
      match receiveByte port nakTimeout uart with
      | (none, uart) => ymodemWaitForCharLoop port ch rounds uart
      | (some receivedC, uart) =>
          if receivedC = ch then (true, uart) else ymodemWaitForCharLoop port ch rounds uart

def ymodemWaitForChar (port : Port) (ch : UInt8) (uart : Uart) : Bool × Uart :=
  ymodemWaitForCharLoop port ch 20 uart

/-- `static uint32_t Send_Byte(uint8_t c)` with `rounds` of its 25 rounds left.
The byte is sent from its parameter slot, which `c` is the first cell of. -/
def sendByteLoop (port : Port) : (rounds : Nat) → (c : Memory) → (uart : Uart) → Uart
  | 0, _, uart => uart
  | rounds + 1, c, uart =>
      match uart.uartWrite port c 0 1 with
      | (none, _, uart) => uart
      | (some len, c, uart) => if len = 1 then uart else sendByteLoop port rounds c uart

def sendByte (port : Port) (c : UInt8) (uart : Uart) : Uart :=
  sendByteLoop port 25 (Memory.zeroed.store 0 c) uart

/-- The loop of `void Ymodem_SendPacket(uint8_t *data, uint16_t length)`: whether
it has ended, and what it leaves. -/
def ymodemSendPacketLoop (port : Port) (length : Nat) :
    (fuel index : Nat) → (sending : Sending) → Bool × Sending
  | fuel, index, sending =>
      if index < length then
        match fuel with
        | 0 => (false, sending)
        | fuel + 1 =>
            match sending.uart.uartWrite port sending.packetData index (length - index) with
            | (none, data, uart) => (true, ⟨data, uart⟩)
            | (some writelen, data, uart) =>
                ymodemSendPacketLoop port length fuel
                  ((index + writelen % 2 ^ 16) % 2 ^ 16) ⟨data, uart⟩
      else
        (true, sending)

def ymodemSendPacket (port : Port) (fuel : Nat) (site : PacketSite) (length : Nat)
    (sending : Sending) : Bool × Sending :=
  ymodemSendPacketLoop port length fuel 0
    { sending with
      uart := sending.uart.note (.packet site (sending.packetData.bytes 0 length)) }

/-- `if (!Ymodem_WaitForChar(ch)) { ...; return -1; }`. -/
def waitOrReturn (port : Port) (ch : UInt8) (sending : Sending) : Flow × Sending :=
  match ymodemWaitForChar port ch sending.uart with
  | (false, uart) => (.returned 0xFF, { sending with uart := uart })
  | (true, uart) => (.next, { sending with uart := uart })

def sendPacketAndWait (port : Port) (fuel : Nat) (site : PacketSite) (length : Nat)
    (sending : Sending) : Flow × Sending :=
  match ymodemSendPacket port fuel site length sending with
  | (false, sending) => (.running, sending)
  | (true, sending) => waitOrReturn port ack sending

def sendHeader (port : Port) (fuel : Nat) (filename : Nat → UInt8) (sizeFile : Nat)
    (stray : List UInt8) (sending : Sending) : Flow × Sending :=
  let data := storeCheckBytes
    (ymodemPrepareIntialPacket sending.packetData filename sizeFile stray) packetSize
  match sendPacketAndWait port fuel .header (packetSize + packetHeader + 2)
      { sending with packetData := data } with
  | (.next, sending) => waitOrReturn port crc16 sending
  | left => left

/-- The next data frame, with the source pointer at `buf + offset`. -/
def sendBlock (port : Port) (fuel : Nat) (buf : Nat → UInt8)
    (offset size blkNumber : Nat) (sending : Sending) : Flow × Sending :=
  let pktSize := payloadSize size
  let data := storeCheckBytes
    (ymodemPreparePacket (fun index => buf (offset + index)) sending.packetData
      (UInt8.ofNat blkNumber) size) pktSize
  sendPacketAndWait port fuel .data (pktSize + packetHeader + 2)
    { sending with packetData := data }

/-- The `while (size)` loop. -/
def sendBlocks (port : Port) (fuel : Nat) (buf : Nat → UInt8)
    (offset size blkNumber : Nat) (sending : Sending) : Flow × Sending :=
  if size = 0 then (.next, sending)
  else
    match sendBlock port fuel buf offset size blkNumber sending with
    | (.next, sending) =>
        if size > payloadSize size then
          if blkNumber = userFlashSize / 1024 then (.returned 0xFF, sending)
          else
            sendBlocks port fuel buf (offset + payloadSize size) (size - payloadSize size)
              ((blkNumber + 1) % 2 ^ 16) sending
        else (.next, sending)
    | left => left
termination_by size
decreasing_by
  have positive := payloadSize_pos size
  omega

def closingPacket (data : Memory) : Memory :=
  (((data.store 0 soh).store 1 0).store 2 0xFF).fill packetHeader packetSize fun _ => 0

/-- The empty frame is sent without its check bytes, which follow one by one. -/
def sendClosing (port : Port) (fuel : Nat) (sending : Sending) : Flow × Sending :=
  match ymodemSendPacket port fuel .closing (packetSize + packetHeader)
      { sending with packetData := closingPacket sending.packetData } with
  | (false, sending) => (.running, sending)
  | (true, sending) =>
      let tempCRC := calCRC16 (sending.packetData.bytes packetHeader packetSize)
      let uart := sendByte port (crcHigh tempCRC) sending.uart
      let uart := sendByte port (crcLow tempCRC) uart
      waitOrReturn port ack { sending with uart := uart }

/-- `EOT` and the closing frame; what follows them is `return 0`. -/
def sendEnd (port : Port) (fuel : Nat) (sending : Sending) : Flow × Sending :=
  match waitOrReturn port ack { sending with uart := sendByte port eot sending.uart } with
  | (.next, sending) =>
      match sendClosing port fuel sending with
      | (.next, sending) => (.returned 0, sending)
      | left => left
  | left => left

/-- The local arrays of `Ymodem_Transmit` before it stores anything, and the
bytes behind the ten of `file_ptr` up to the first `NUL`. -/
structure Locals where
  packetData : Memory
  filename : Nat → UInt8
  stray : List UInt8

/-- `uint8_t Ymodem_Transmit(uint8_t *buf, const uint8_t* sendFileName, uint32_t
sizeFile)`. The flow is `next` for no run. -/
def ymodemTransmit (port : Port) (fuel : Nat) (locals : Locals) (buf : Nat → UInt8)
    (sendFileName : Nat → UInt8) (sizeFile : Nat) (uart : Uart) : Flow × Sending :=
  let filename := fun index =>
    if index < fileNameLength - 1 then sendFileName index else locals.filename index
  match sendHeader port fuel filename sizeFile locals.stray ⟨locals.packetData, uart⟩ with
  | (.next, sending) =>
      match sendBlocks port fuel buf 0 sizeFile 1 sending with
      | (.next, sending) => sendEnd port fuel sending
      | left => left
  | left => left

end CosmosPC
