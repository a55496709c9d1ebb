/-! # The log parser

`doParseFile` over the layouts of `Storage.h`, which are parameters: the sizes of
the records, and what their fields read out of the record bytes. -/

namespace CosmosPC

/-- The `STORAGE_*` sizes. `buffer` has room for any of them. -/
structure StorageSizes where
  head : Nat
  gps : Nat
  heartbeat : Nat
  pedometer : Nat
  bike : Nat
  barometer : Nat
  temperature : Nat
  lap : Nat
  positive : ∀ size ∈ [head, gps, heartbeat, pedometer, bike, barometer, temperature, lap],
    0 < size
  fits : ∀ size ∈ [head, gps, heartbeat, pedometer, bike, barometer, temperature, lap],
    size ≤ 512
  heartbeat_le_gps : heartbeat ≤ gps

abbrev Text := List Char

/-- What `doParseFile` does with a floating field: it compares it with zero, and
prints it with `%f` or `%d`. -/
structure Number where
  isZero : Bool
  asF : Text
  asD : Text

/-- The fields of `STORAGE_HEAD` and `STORAGE_GPS`, from the bytes of a record. -/
structure StorageReaders where
  year : List UInt8 → Int
  month : List UInt8 → Int
  day : List UInt8 → Int
  mode : List UInt8 → Int
  totalTick : List UInt8 → Int
  distance : List UInt8 → Number
  lat : List UInt8 → Number
  long : List UInt8 → Number

def formatD (number : Int) : Text :=
  if number < 0 then '-' :: Nat.toDigits 10 number.natAbs else Nat.toDigits 10 number.natAbs

def quote : Text := "'".toList
def lineEnd : Text := ['\r', '\n']

section Texts

variable (readers : StorageReaders) (i : Nat) (head : List UInt8)

/-- `data.Year*10000+data.Month*100+data.Day`. -/
def headDate : Int := readers.year head * 10000 + readers.month head * 100 + readers.day head

def modeLetter : Char :=
  if readers.mode head = 1 then 'R'
  else if readers.mode head = 2 then 'B'
  else if readers.mode head = 3 then 'S'
  else if readers.mode head = 4 then 'P'
  else 'O'

def destName : Text :=
  formatD (headDate readers head) ++ ['_'] ++ formatD i ++ ".cosmos".toList

def selectLine : Text :=
  "sn = '".toList ++ formatD i ++ "' and date = '".toList ++ formatD (headDate readers head) ++
    "' and mode = '".toList ++ [modeLetter readers head] ++ "' and time = '".toList ++
    formatD ((readers.totalTick head).tdiv 1000) ++ "' and distance = '".toList ++
    (readers.distance head).asF ++ quote ++ lineEnd

def insertLine : Text :=
  quote ++ formatD i ++ "','".toList ++ formatD (headDate readers head) ++ "','".toList ++
    [modeLetter readers head] ++ "','".toList ++ formatD ((readers.totalTick head).tdiv 1000) ++
    "','".toList ++ (readers.distance head).asD ++ quote ++ lineEnd

def gpsLine (mode : Char) (lat long : Number) : Text :=
  quote ++ formatD i ++ "','".toList ++ [mode] ++ "','".toList ++ lat.asF ++ "','".toList ++
    long.asF ++ quote ++ lineEnd

end Texts

/-- `ReadFile(hfile, buffer, size, &w, NULL)`: the count `w`, the buffer with the
bytes at its beginning, and what is left of the file. -/
def readFile (size : Nat) (buffer file : List UInt8) : Nat × List UInt8 × List UInt8 :=
  let bytes := file.take size
  (bytes.length, bytes ++ buffer.drop bytes.length, file.drop size)

structure Turn where
  w : Nat
  line : Option Text
  buffer : List UInt8
  file : List UInt8

section Body

variable (sizes : StorageSizes) (readers : StorageReaders) (i : Nat) (mode : Char)

/-- A record that is read past, if it is complete. -/
def skipRecord (size : Nat) (buffer file : List UInt8) : Turn :=
  let (w, buffer, file) := readFile size buffer file
  ⟨if w < size then 0 else w, none, buffer, file⟩

/-- `case 0x10`. -/
def gpsRecord (buffer file : List UInt8) : Turn :=
  let (w, buffer, file) := readFile sizes.gps buffer file
  if w < sizes.heartbeat then ⟨0, none, buffer, file⟩
  else
    let data := buffer.take sizes.gps
    if (readers.lat data).isZero ∧ (readers.long data).isZero then ⟨w, none, buffer, file⟩
    else
      let wbuffer := gpsLine i mode (readers.lat data) (readers.long data)
      ⟨wbuffer.length, some wbuffer, buffer, file⟩

def heartbeatRecord : List UInt8 → List UInt8 → Turn := skipRecord sizes.heartbeat
def pedometerRecord : List UInt8 → List UInt8 → Turn := skipRecord sizes.pedometer
def bikeRecord : List UInt8 → List UInt8 → Turn := skipRecord sizes.bike
def barometerRecord : List UInt8 → List UInt8 → Turn := skipRecord sizes.barometer
def temperatureRecord : List UInt8 → List UInt8 → Turn := skipRecord sizes.temperature

/-- `case 0x82`, where the count is not compared. -/
def lapRecord (buffer file : List UInt8) : Turn :=
  let (w, buffer, file) := readFile sizes.lap buffer file
  ⟨w, none, buffer, file⟩

def bodySwitch (tag : UInt8) (buffer file : List UInt8) : Turn :=
  if tag = 0x10 then gpsRecord sizes readers i mode buffer file
  else if tag = 0x20 then heartbeatRecord sizes buffer file
  else if tag = 0x21 then pedometerRecord sizes buffer file
  else if tag = 0x22 then bikeRecord sizes buffer file
  else if tag = 0x30 then barometerRecord sizes buffer file
  else if tag = 0x31 then temperatureRecord sizes buffer file
  else if tag = 0x82 then lapRecord sizes buffer file
  else ⟨1, none, buffer, file⟩

theorem skipRecord_file (size : Nat) (buffer file : List UInt8) :
    (skipRecord size buffer file).file.length ≤ file.length := by
  simp [skipRecord, readFile]

theorem bodySwitch_file (tag : UInt8) (buffer file : List UInt8) :
    (bodySwitch sizes readers i mode tag buffer file).file.length ≤ file.length := by
  unfold bodySwitch
  split
  · unfold gpsRecord readFile
    dsimp only
    split
    · simp
    · split <;> simp
  · repeat' split
    all_goals first
      | exact skipRecord_file _ buffer file
      | exact Nat.le_refl _

def bodyLoop (buffer file : List UInt8) : List Text :=
  match file with
  | [] => []
  | tag :: file =>
      let turn := bodySwitch sizes readers i mode tag (tag :: buffer.drop 1) file
      turn.line.toList ++ if turn.w = 0 then [] else bodyLoop turn.buffer turn.file
termination_by file.length
decreasing_by
  have shorter := bodySwitch_file sizes readers i mode tag (tag :: buffer.drop 1) file
  simp only [List.length_cons]
  omega

structure Parsed where
  name : Text
  lines : List Text

/-- `void doParseFile(DWORD i)` on the bytes of the file of that number, with the
first contents of `buffer`; the other files can be made and written. -/
def doParseFile (buffer file : List UInt8) : Option Parsed :=
  let (w, buffer, file) := readFile sizes.head buffer file
  if w < sizes.head then none
  else
    let head := buffer.take sizes.head
    some ⟨destName readers i head,
      selectLine readers i head :: insertLine readers i head ::
        bodyLoop sizes readers i (modeLetter readers head) buffer file⟩

end Body

end CosmosPC
