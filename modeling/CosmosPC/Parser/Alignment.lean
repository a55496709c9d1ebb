import CosmosPC.Parser.Readings

/-! # Well-formed logs

The format of a log, and the parser as its inverse: on the bytes of a log, the
readings are the records, however their bodies look. -/

namespace CosmosPC

inductive RecordKind
  | gps
  | heartbeat
  | pedometer
  | bike
  | barometer
  | temperature
  | lap
deriving DecidableEq, Repr

def RecordKind.tag : RecordKind → UInt8
  | gps => 0x10
  | heartbeat => 0x20
  | pedometer => 0x21
  | bike => 0x22
  | barometer => 0x30
  | temperature => 0x31
  | lap => 0x82

def StorageSizes.body (sizes : StorageSizes) : RecordKind → Nat
  | .gps => sizes.gps
  | .heartbeat => sizes.heartbeat
  | .pedometer => sizes.pedometer
  | .bike => sizes.bike
  | .barometer => sizes.barometer
  | .temperature => sizes.temperature
  | .lap => sizes.lap

structure Record (sizes : StorageSizes) where
  kind : RecordKind
  body : List UInt8
  full : body.length = sizes.body kind

structure Filler where
  byte : UInt8
  noTag : ∀ kind : RecordKind, byte ≠ kind.tag

inductive Item (sizes : StorageSizes)
  | record (record : Record sizes)
  | filler (filler : Filler)

structure Log (sizes : StorageSizes) where
  head : List UInt8
  full : head.length = sizes.head
  items : List (Item sizes)

variable {sizes : StorageSizes}

def Item.bytes : Item sizes → List UInt8
  | .record entry => entry.kind.tag :: entry.body
  | .filler entry => [entry.byte]

def Log.bytes (log : Log sizes) : List UInt8 :=
  log.head ++ log.items.flatMap Item.bytes

def Item.position (readers : StorageReaders) : Item sizes → Option (Number × Number)
  | .record ⟨.gps, body, _⟩ =>
      if (readers.lat body).isZero = false ∨ (readers.long body).isZero = false then
        some (readers.lat body, readers.long body)
      else none
  | _ => none

def Log.positions (log : Log sizes) (readers : StorageReaders) : List (Number × Number) :=
  log.items.filterMap (Item.position readers)

@[simp] theorem ofTag_tag (kind : RecordKind) : sizes.ofTag kind.tag = some (sizes.body kind) := by
  cases kind <;> rfl

theorem Filler.ofTag_byte (filler : Filler) : sizes.ofTag filler.byte = none := by
  have noTag := filler.noTag
  have notGps := noTag .gps
  have notHeartbeat := noTag .heartbeat
  have notPedometer := noTag .pedometer
  have notBike := noTag .bike
  have notBarometer := noTag .barometer
  have notTemperature := noTag .temperature
  have notLap := noTag .lap
  simp only [RecordKind.tag, ne_eq] at *
  simp [StorageSizes.ofTag, *]

theorem Record.line_reading (record : Record sizes) (readers : StorageReaders) (i : Nat)
    (mode : Char) (start : Nat) (stale : List UInt8) :
    Reading.line sizes readers i mode ⟨record.kind.tag, start, stale, record.body⟩ =
      ((Item.record record).position readers).map fun position =>
        gpsLine i mode position.1 position.2 := by
  rcases record with ⟨kind, body, full⟩
  cases kind
  case gps =>
      have data : (Reading.buffer ⟨0x10, start, stale, body⟩).take sizes.gps =
          body := by
        rw [Reading.buffer, ← show body.length = sizes.gps from full, List.take_left]
      have enough : sizes.heartbeat ≤ body.length := by
        rw [show body.length = sizes.gps from full]
        exact sizes.heartbeat_le_gps
      simp only [Reading.line, RecordKind.tag, data, enough, true_and, Item.position]
      cases (readers.lat body).isZero <;> cases (readers.long body).isZero <;> simp
  all_goals simp [Reading.line, RecordKind.tag, Item.position]

/-- The readings stay aligned with the records. -/
theorem readings_items (readers : StorageReaders) (i : Nat) (mode : Char)
    (items : List (Item sizes)) (start : Nat) (buffer : List UInt8) :
    (readings sizes start buffer (items.flatMap Item.bytes)).filterMap
        (Reading.line sizes readers i mode) =
      (items.filterMap (Item.position readers)).map fun position =>
        gpsLine i mode position.1 position.2 := by
  induction items generalizing start buffer with
  | nil => simp [readings_nil]
  | cons item items induction =>
      cases item with
      | filler filler =>
          simp only [List.flatMap_cons, Item.bytes, List.cons_append, List.nil_append]
          rw [readings_filler sizes filler.ofTag_byte]
          exact induction ..
      | record record =>
          simp only [List.flatMap_cons, Item.bytes, List.cons_append]
          rw [readings_known sizes (ofTag_tag record.kind)]
          simp only [← record.full, List.take_left, List.drop_left]
          rw [List.filterMap_cons, List.filterMap_cons, record.line_reading, induction]
          cases (Item.record record).position readers <;> rfl

/-- The parser inverts the format: from the bytes of a log it writes the two lines
of the summary, then the positions, one line each, and nothing else. -/
theorem doParseFile_log (readers : StorageReaders) (i : Nat) (buffer : List UInt8)
    (log : Log sizes) :
    doParseFile sizes readers i buffer log.bytes =
      some ⟨destName readers i log.head,
        selectLine readers i log.head :: insertLine readers i log.head ::
          (log.positions readers).map fun position =>
            gpsLine i (modeLetter readers log.head) position.1 position.2⟩ := by
  have taken : log.bytes.take sizes.head = log.head := List.take_left' log.full
  have left : log.bytes.drop sizes.head = log.items.flatMap Item.bytes :=
    List.drop_left' log.full
  have full : sizes.head ≤ log.bytes.length := by
    rw [Log.bytes, List.length_append, log.full]
    exact Nat.le_add_right ..
  rw [doParseFile_eq sizes readers i buffer full, bodyReadings, taken, left, readings_items]
  rfl

end CosmosPC
