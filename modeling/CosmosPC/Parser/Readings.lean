import CosmosPC.Parser.DoParseFile

/-! # What the parser reads

The body loop as a list of readings: which records it reads, where, and over
which bytes of the buffer. The readings depend on the bytes and the sizes alone;
the lines are then a matter of each reading by itself. -/

namespace CosmosPC

def StorageSizes.ofTag (sizes : StorageSizes) (tag : UInt8) : Option Nat :=
  if tag = 0x10 then some sizes.gps
  else if tag = 0x20 then some sizes.heartbeat
  else if tag = 0x21 then some sizes.pedometer
  else if tag = 0x22 then some sizes.bike
  else if tag = 0x30 then some sizes.barometer
  else if tag = 0x31 then some sizes.temperature
  else if tag = 0x82 then some sizes.lap
  else none

/-- A record that is read: its tag, the place of its first byte in the file,
what the buffer holds before, and the bytes that are read. -/
structure Reading where
  tag : UInt8
  start : Nat
  stale : List UInt8
  got : List UInt8

namespace Reading

def buffer (reading : Reading) : List UInt8 :=
  reading.got ++ reading.stale.drop reading.got.length

/-- The same reading of a file that ends after `count` bytes of the record. -/
def cut (reading : Reading) (count : Nat) : Reading :=
  { reading with got := reading.got.take count }

variable (sizes : StorageSizes) (readers : StorageReaders) (i : Nat) (mode : Char)

/-- The line that a reading leads to. Enough bytes for a `STORAGE_HEARTBEAT` are
taken for a `STORAGE_GPS`. -/
def line (reading : Reading) : Option Text :=
  let data := reading.buffer.take sizes.gps
  if reading.tag = 0x10 ∧ sizes.heartbeat ≤ reading.got.length ∧
      ¬((readers.lat data).isZero = true ∧ (readers.long data).isZero = true) then
    some (gpsLine i mode (readers.lat data) (readers.long data))
  else none

end Reading

def readings (sizes : StorageSizes) (start : Nat) (buffer file : List UInt8) : List Reading :=
  match file with
  | [] => []
  | tag :: file =>
      match sizes.ofTag tag with
      | none => readings sizes (start + 1) (tag :: buffer.drop 1) file
      | some size =>
          let reading : Reading := ⟨tag, start + 1, tag :: buffer.drop 1, file.take size⟩
          reading :: readings sizes (start + 1 + size) reading.buffer (file.drop size)
termination_by file.length
decreasing_by
  all_goals
    simp only [List.length_drop, List.length_cons]
    omega

theorem ofTag_pos (sizes : StorageSizes) {tag : UInt8} {size : Nat}
    (known : sizes.ofTag tag = some size) : 0 < size := by
  apply sizes.positive
  unfold StorageSizes.ofTag at known
  repeat' split at known
  all_goals first
    | cases known
      simp
    | cases known

theorem gpsLine_length_pos (i : Nat) (mode : Char) (lat long : Number) :
    (gpsLine i mode lat long).length ≠ 0 := by
  simp [gpsLine, lineEnd]

theorem readings_nil (sizes : StorageSizes) (start : Nat) (buffer : List UInt8) :
    readings sizes start buffer [] = [] := by
  rw [readings]

theorem readings_filler (sizes : StorageSizes) {tag : UInt8} (filler : sizes.ofTag tag = none)
    (start : Nat) (buffer file : List UInt8) :
    readings sizes start buffer (tag :: file) =
      readings sizes (start + 1) (tag :: buffer.drop 1) file := by
  rw [readings, filler]

theorem readings_known (sizes : StorageSizes) {tag : UInt8} {size : Nat}
    (known : sizes.ofTag tag = some size) (start : Nat) (buffer file : List UInt8) :
    readings sizes start buffer (tag :: file) =
      ⟨tag, start + 1, tag :: buffer.drop 1, file.take size⟩ ::
        readings sizes (start + 1 + size)
          (Reading.buffer ⟨tag, start + 1, tag :: buffer.drop 1, file.take size⟩)
          (file.drop size) := by
  rw [readings, known]

variable (sizes : StorageSizes) (readers : StorageReaders) (i : Nat) (mode : Char)

theorem bodyLoop_nil (buffer : List UInt8) :
    bodyLoop sizes readers i mode buffer [] = [] := by
  rw [bodyLoop]

/-- What a turn does with the record that a reading takes: it writes the line of
the reading, and a count of zero means that the file is at its end. -/
structure Turn.Reads (turn : Turn) (reading : Reading) (rest : List UInt8) : Prop where
  line : turn.line = reading.line sizes readers i mode
  buffer : turn.buffer = reading.buffer
  file : turn.file = rest
  goesOn : turn.w = 0 → rest = []

theorem drop_of_short {size : Nat} {file : List UInt8} (short : (file.take size).length < size) :
    file.drop size = [] := by
  simp only [List.length_take] at short
  exact List.drop_eq_nil_of_le (by omega)

theorem skipRecord_reads {tag : UInt8} (notGps : tag ≠ 0x10) {size : Nat} (positive : 0 < size)
    (start : Nat) (buffer file : List UInt8) :
    (skipRecord size buffer file).Reads sizes readers i mode
      ⟨tag, start, buffer, file.take size⟩ (file.drop size) where
  line := by simp [skipRecord, Reading.line, notGps]
  buffer := by simp [skipRecord, readFile, Reading.buffer]
  file := by simp [skipRecord, readFile]
  goesOn := by
    intro stopped
    apply drop_of_short
    apply Nat.lt_of_not_le
    intro full
    have count : (skipRecord size buffer file).w = (file.take size).length :=
      if_neg (Nat.not_lt.mpr full)
    omega

theorem lapRecord_reads {tag : UInt8} (notGps : tag ≠ 0x10) (start : Nat)
    (buffer file : List UInt8) :
    (lapRecord sizes buffer file).Reads sizes readers i mode
      ⟨tag, start, buffer, file.take sizes.lap⟩ (file.drop sizes.lap) where
  line := by simp [lapRecord, Reading.line, notGps]
  buffer := by simp [lapRecord, readFile, Reading.buffer]
  file := by simp [lapRecord, readFile]
  goesOn := by
    intro stopped
    have positive : 0 < sizes.lap := sizes.positive _ (by simp)
    apply drop_of_short
    simp only [lapRecord, readFile] at stopped
    omega

theorem gpsRecord_reads (start : Nat) (buffer file : List UInt8) :
    (gpsRecord sizes readers i mode buffer file).Reads sizes readers i mode
      ⟨0x10, start, buffer, file.take sizes.gps⟩ (file.drop sizes.gps) := by
  have positive : 0 < sizes.heartbeat := sizes.positive _ (by simp)
  have order := sizes.heartbeat_le_gps
  have length : (file.take sizes.gps).length = min sizes.gps file.length := List.length_take
  unfold gpsRecord readFile
  dsimp only
  split
  case isTrue short =>
      refine ⟨?_, rfl, rfl, fun _ => drop_of_short (by omega)⟩
      rw [Reading.line, if_neg]
      rintro ⟨_, enough, _⟩
      exact Nat.not_lt.mpr enough short
  case isFalse enough =>
      rw [Nat.not_lt] at enough
      split
      case isTrue zero =>
          refine ⟨?_, rfl, rfl, fun (stopped : (file.take sizes.gps).length = 0) => ?_⟩
          · rw [Reading.line, if_neg]
            rintro ⟨_, _, nonzero⟩
            exact nonzero zero
          · omega
      case isFalse nonzero =>
          refine ⟨?_, rfl, rfl, fun stopped => absurd stopped ?_⟩
          · rw [Reading.line, if_pos ⟨rfl, enough, nonzero⟩]
            rfl
          · exact gpsLine_length_pos i mode _ _

theorem bodySwitch_filler {tag : UInt8} (filler : sizes.ofTag tag = none)
    (buffer file : List UInt8) :
    bodySwitch sizes readers i mode tag buffer file = ⟨1, none, buffer, file⟩ := by
  unfold StorageSizes.ofTag at filler
  repeat' split at filler
  all_goals first
    | cases filler
      done
    | simp [bodySwitch, *]

theorem bodySwitch_reads {tag : UInt8} {size : Nat} (known : sizes.ofTag tag = some size)
    (start : Nat) (buffer file : List UInt8) :
    (bodySwitch sizes readers i mode tag buffer file).Reads sizes readers i mode
      ⟨tag, start, buffer, file.take size⟩ (file.drop size) := by
  have positive := ofTag_pos sizes known
  unfold StorageSizes.ofTag at known
  repeat' split at known
  all_goals cases known
  all_goals subst tag
  · exact gpsRecord_reads sizes readers i mode start buffer file
  · exact skipRecord_reads sizes readers i mode (by decide) positive start buffer file
  · exact skipRecord_reads sizes readers i mode (by decide) positive start buffer file
  · exact skipRecord_reads sizes readers i mode (by decide) positive start buffer file
  · exact skipRecord_reads sizes readers i mode (by decide) positive start buffer file
  · exact skipRecord_reads sizes readers i mode (by decide) positive start buffer file
  · exact lapRecord_reads sizes readers i mode (by decide) start buffer file

theorem bodyLoop_eq (start : Nat) (buffer file : List UInt8) :
    bodyLoop sizes readers i mode buffer file =
      (readings sizes start buffer file).filterMap (Reading.line sizes readers i mode) := by
  induction start, buffer, file using readings.induct sizes with
  | case1 start buffer => simp [readings_nil, bodyLoop_nil]
  | case2 start buffer tag file filler rest =>
      rw [bodyLoop, readings_filler sizes filler]
      simp only [bodySwitch_filler sizes readers i mode filler, Option.toList_none,
        List.nil_append, Nat.one_ne_zero, if_false]
      exact rest
  | case3 start buffer tag file size known reading rest =>
      have turn := bodySwitch_reads sizes readers i mode known (start + 1)
        (tag :: buffer.drop 1) file
      rw [bodyLoop, readings_known sizes known]
      simp only [List.filterMap_cons, turn.line, turn.buffer, turn.file]
      have lines : (if (bodySwitch sizes readers i mode tag (tag :: buffer.drop 1) file).w = 0
          then [] else bodyLoop sizes readers i mode reading.buffer (file.drop size)) =
          bodyLoop sizes readers i mode reading.buffer (file.drop size) := by
        split
        case isTrue stopped => rw [turn.goesOn stopped, bodyLoop_nil]
        case isFalse => rfl
      rw [lines, rest]
      cases reading.line sizes readers i mode <;> rfl

def bodyReadings (buffer file : List UInt8) : List Reading :=
  readings sizes sizes.head (file.take sizes.head ++ buffer.drop sizes.head)
    (file.drop sizes.head)

/-- What is written for a file with a full header. -/
theorem doParseFile_eq (buffer : List UInt8) {file : List UInt8}
    (full : sizes.head ≤ file.length) :
    doParseFile sizes readers i buffer file =
      some ⟨destName readers i (file.take sizes.head),
        selectLine readers i (file.take sizes.head) ::
          insertLine readers i (file.take sizes.head) ::
            (bodyReadings sizes buffer file).filterMap
              (Reading.line sizes readers i (modeLetter readers (file.take sizes.head)))⟩ := by
  have count : (file.take sizes.head).length = sizes.head := List.length_take_of_le full
  have data (rest : List UInt8) : (file.take sizes.head ++ rest).take sizes.head =
      file.take sizes.head := List.take_left' count
  simp only [doParseFile, readFile, count, Nat.lt_irrefl, if_false, data]
  rw [bodyLoop_eq sizes readers i _ sizes.head]
  rfl

end CosmosPC
