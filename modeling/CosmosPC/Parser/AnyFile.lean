import CosmosPC.Foundation.SelfDelimiting
import CosmosPC.Parser.Threads

/-! # Files of any content

Every file with a whole header is the bytes of a log and what there is of one more
record, and of one log only. The parser writes the lines of this log, and
nothing of the record, unless it takes it for a position: then the rest of it is
what the buffer still holds of earlier records. -/

namespace CosmosPC

variable {sizes : StorageSizes}

/-! ## Dividing a file -/

/-- Nothing, or a record of which bytes are missing. -/
inductive Torn (sizes : StorageSizes) : List UInt8 → Prop
  | nothing : Torn sizes []
  | record (kind : RecordKind) {body : List UInt8} (short : body.length < sizes.body kind) :
      Torn sizes (kind.tag :: body)

def StorageSizes.itemLength (sizes : StorageSizes) (tag : UInt8) : Option Nat :=
  some ((sizes.ofTag tag).getD 0 + 1)

theorem exists_kind {tag : UInt8} {size : Nat} (known : sizes.ofTag tag = some size) :
    ∃ kind : RecordKind, kind.tag = tag ∧ sizes.body kind = size := by
  unfold StorageSizes.ofTag at known
  repeat' split at known
  all_goals cases known
  all_goals subst tag
  · exact ⟨.gps, rfl, rfl⟩
  · exact ⟨.heartbeat, rfl, rfl⟩
  · exact ⟨.pedometer, rfl, rfl⟩
  · exact ⟨.bike, rfl, rfl⟩
  · exact ⟨.barometer, rfl, rfl⟩
  · exact ⟨.temperature, rfl, rfl⟩
  · exact ⟨.lap, rfl, rfl⟩

theorem torn_iff (tail : List UInt8) :
    Torn sizes tail ↔ SelfDelimiting.Unfinished sizes.itemLength tail := by
  constructor
  · intro torn
    cases torn with
    | nothing =>
        intro _ _ same
        cases same
    | record kind short =>
        rintro _ _ ⟨⟩
        exact ⟨_, by rw [StorageSizes.itemLength, ofTag_tag, Option.getD_some], short⟩
  · intro broken
    rcases tail with _ | ⟨tag, body⟩
    · exact .nothing
    · rcases broken tag body rfl with ⟨more, length, short⟩
      cases known : sizes.ofTag tag with
      | none =>
          rw [StorageSizes.itemLength, known] at length
          cases length
          exact absurd short (Nat.not_lt_zero _)
      | some size =>
          rw [StorageSizes.itemLength, known] at length
          cases length
          rcases exists_kind known with ⟨kind, rfl, rfl⟩
          exact .record kind short

theorem Item.framed (item : Item sizes) :
    SelfDelimiting.Framed sizes.itemLength item.bytes := by
  cases item with
  | record record =>
      exact ⟨_, record.body, rfl, by simp [StorageSizes.itemLength, record.full]⟩
  | filler filler =>
      exact ⟨filler.byte, [], rfl, by simp [StorageSizes.itemLength, filler.ofTag_byte]⟩

theorem exists_item {frame : List UInt8}
    (framed : SelfDelimiting.Framed sizes.itemLength frame) :
    ∃ item : Item sizes, item.bytes = frame := by
  rcases framed with ⟨tag, body, rfl, length⟩
  cases known : sizes.ofTag tag with
  | none =>
      have noTag (kind : RecordKind) : tag ≠ kind.tag := by
        rintro rfl
        rw [ofTag_tag] at known
        cases known
      have alone : body = [] := by
        rw [StorageSizes.itemLength, known] at length
        exact List.eq_nil_of_length_eq_zero (Nat.succ.inj (Option.some.inj length)).symm
      exact ⟨.filler ⟨tag, noTag⟩, by rw [alone]; rfl⟩
  | some size =>
      rcases exists_kind known with ⟨kind, rfl, rfl⟩
      rw [StorageSizes.itemLength, known] at length
      exact ⟨.record ⟨kind, body, (Nat.succ.inj (Option.some.inj length)).symm⟩, rfl⟩

theorem RecordKind.tag_inj {first second : RecordKind} (same : first.tag = second.tag) :
    first = second := by
  cases first <;> cases second <;> first | rfl | cases same

theorem Item.bytes_inj {first second : Item sizes} (same : first.bytes = second.bytes) :
    first = second := by
  cases first with
  | filler filler =>
      cases second with
      | filler other =>
          rcases filler with ⟨byte, noTag⟩
          cases same
          rfl
      | record other => exact absurd (List.cons.inj same).1 (filler.noTag other.kind)
  | record record =>
      cases second with
      | filler other => exact absurd (List.cons.inj same).1.symm (other.noTag record.kind)
      | record other =>
          rcases record with ⟨kind, body, full⟩
          rcases other with ⟨otherKind, otherBody, otherFull⟩
          rcases List.cons.inj same with ⟨tags, bodies⟩
          cases RecordKind.tag_inj tags
          cases bodies
          rfl

theorem items_inj {first second : List (Item sizes)}
    (same : first.map Item.bytes = second.map Item.bytes) : first = second :=
  List.map_injective_iff.mpr (fun _ _ => Item.bytes_inj) same

theorem exists_items {frames : List (List UInt8)}
    (framed : ∀ frame ∈ frames, SelfDelimiting.Framed sizes.itemLength frame) :
    ∃ items : List (Item sizes), items.map Item.bytes = frames := by
  induction frames with
  | nil => exact ⟨[], rfl⟩
  | cons frame frames induction =>
      rcases exists_item (framed frame List.mem_cons_self) with ⟨item, rfl⟩
      rcases induction fun one member => framed one (List.mem_cons_of_mem _ member) with
        ⟨items, rfl⟩
      exact ⟨item :: items, rfl⟩

theorem exists_log {file : List UInt8} (full : sizes.head ≤ file.length) :
    ∃ (log : Log sizes) (tail : List UInt8), file = log.bytes ++ tail ∧ Torn sizes tail := by
  rcases SelfDelimiting.exists_division (fun tag => ⟨_, rfl⟩ :
      ∀ tag, ∃ more, sizes.itemLength tag = some (more + 1)) (file.drop sizes.head) with
    ⟨frames, tail, divided, framed, broken⟩
  rcases exists_items framed with ⟨items, rfl⟩
  refine ⟨⟨file.take sizes.head, List.length_take_of_le full, items⟩, tail, ?_,
    (torn_iff tail).mpr broken⟩
  rw [Log.bytes, List.append_assoc, List.flatMap_def, ← divided, List.take_append_drop]

/-- There is no other log that the file could be. -/
theorem log_unique {log other : Log sizes} {tail rest : List UInt8} (torn : Torn sizes tail)
    (restTorn : Torn sizes rest) (same : log.bytes ++ tail = other.bytes ++ rest) :
    log = other ∧ tail = rest := by
  rcases log with ⟨head, full, items⟩
  rcases other with ⟨otherHead, otherFull, others⟩
  have framed (items : List (Item sizes)) : ∀ frame ∈ items.map Item.bytes,
      SelfDelimiting.Framed sizes.itemLength frame := by
    intro frame member
    rcases List.mem_map.mp member with ⟨item, _, rfl⟩
    exact item.framed
  rw [Log.bytes, Log.bytes, List.append_assoc, List.append_assoc] at same
  rcases List.append_inj same (full.trans otherFull.symm) with ⟨heads, bodies⟩
  rw [List.flatMap_def, List.flatMap_def] at bodies
  rcases SelfDelimiting.division_unique (framed items) (framed others) ((torn_iff tail).mp torn)
    ((torn_iff rest).mp restTorn) bodies with ⟨frames, tails⟩
  cases heads
  cases items_inj frames
  exact ⟨rfl, tails⟩

/-! ## What is written for it -/

def Item.leaves (buffer : List UInt8) : Item sizes → List UInt8
  | .record entry => Reading.buffer ⟨entry.kind.tag, 0, entry.kind.tag :: buffer.drop 1, entry.body⟩
  | .filler entry => entry.byte :: buffer.drop 1

def Log.leaves (log : Log sizes) (buffer : List UInt8) : List UInt8 :=
  log.items.foldl Item.leaves (log.head ++ buffer.drop sizes.head)

/-- The line for a torn record: it is taken for a position if there are enough
bytes for a `STORAGE_HEARTBEAT`. What is missing is read from `stale`. -/
def tornLine (sizes : StorageSizes) (readers : StorageReaders) (i : Nat) (mode : Char)
    (stale : List UInt8) : List UInt8 → Option Text
  | [] => none
  | tag :: body =>
      let data := (body ++ stale.drop body.length).take sizes.gps
      if tag = 0x10 ∧ sizes.heartbeat ≤ body.length ∧
          ¬((readers.lat data).isZero = true ∧ (readers.long data).isZero = true) then
        some (gpsLine i mode (readers.lat data) (readers.long data))
      else none

section Lines

variable (readers : StorageReaders) (i : Nat) (mode : Char)

theorem readings_items_append (items : List (Item sizes)) (start : Nat) (buffer tail : List UInt8) :
    ∃ place, (readings sizes start buffer (items.flatMap Item.bytes ++ tail)).filterMap
        (Reading.line sizes readers i mode) =
      ((items.filterMap (Item.position readers)).map fun position =>
          gpsLine i mode position.1 position.2) ++
        (readings sizes place (items.foldl Item.leaves buffer) tail).filterMap
          (Reading.line sizes readers i mode) := by
  induction items generalizing start buffer with
  | nil => exact ⟨start, rfl⟩
  | cons item items induction =>
      cases item with
      | filler filler =>
          rcases induction (start + 1) (filler.byte :: buffer.drop 1) with ⟨place, rest⟩
          refine ⟨place, ?_⟩
          simp only [List.flatMap_cons, Item.bytes, List.cons_append, List.nil_append]
          rw [readings_filler sizes filler.ofTag_byte]
          exact rest
      | record record =>
          rcases induction (start + 1 + sizes.body record.kind)
            (Item.leaves buffer (.record record)) with ⟨place, rest⟩
          refine ⟨place, ?_⟩
          simp only [List.flatMap_cons, Item.bytes, List.cons_append, List.append_assoc]
          rw [readings_known sizes (ofTag_tag record.kind)]
          simp only [← record.full, List.take_left, List.drop_left]
          rw [List.filterMap_cons, List.filterMap_cons, record.line_reading, List.foldl_cons]
          rw [← record.full] at rest
          cases (Item.record record).position readers with
          | none => exact rest
          | some position => exact congrArg _ rest

theorem readings_torn (place : Nat) (buffer : List UInt8) {tail : List UInt8}
    (torn : Torn sizes tail) :
    (readings sizes place buffer tail).filterMap (Reading.line sizes readers i mode) =
      (tornLine sizes readers i mode buffer tail).toList := by
  cases torn with
  | nothing =>
      rw [readings_nil]
      rfl
  | @record kind body short =>
      have all : body.take (sizes.body kind) = body := List.take_of_length_le (Nat.le_of_lt short)
      have none : body.drop (sizes.body kind) = [] := List.drop_eq_nil_of_le (Nat.le_of_lt short)
      have positive : 0 < sizes.heartbeat := sizes.positive _ (by simp)
      rw [readings_known sizes (ofTag_tag kind), all, none, readings_nil]
      -- The tag stands in front of what is stale, and the body has gone over it.
      have line : Reading.line sizes readers i mode
          ⟨kind.tag, place + 1, kind.tag :: buffer.drop 1, body⟩ =
          tornLine sizes readers i mode buffer (kind.tag :: body) := by
        by_cases enough : sizes.heartbeat ≤ body.length
        · have stale : (kind.tag :: buffer.drop 1).drop body.length = buffer.drop body.length := by
            rcases Nat.exists_eq_succ_of_ne_zero (show body.length ≠ 0 by omega) with ⟨rest, length⟩
            rw [length, List.drop_succ_cons, List.drop_drop, Nat.add_comm 1 rest]
          simp only [Reading.line, tornLine, Reading.buffer, stale]
        · simp only [Reading.line, tornLine, enough, false_and, and_false, if_false]
      rw [List.filterMap_cons, line, List.filterMap_nil]
      cases tornLine sizes readers i mode buffer (kind.tag :: body) <;> rfl

end Lines

/-- On any file: nothing is written if the header is not whole. Otherwise there is
one log that the file consists of, but for a torn record, and the lines of this log
are written; then at most one more line, for a torn position. -/
theorem parse_any_file (readers : StorageReaders) (i : Nat) (buffer file : List UInt8) :
    (file.length < sizes.head → doParseFile sizes readers i buffer file = none) ∧
      (sizes.head ≤ file.length → ∃ (log : Log sizes) (tail : List UInt8),
        (file = log.bytes ++ tail ∧ Torn sizes tail) ∧
        (∀ (other : Log sizes) (rest : List UInt8), file = other.bytes ++ rest →
          Torn sizes rest → other = log ∧ rest = tail) ∧
        doParseFile sizes readers i buffer file =
          some ⟨destName readers i log.head, logLines readers i log ++
            (tornLine sizes readers i (modeLetter readers log.head) (log.leaves buffer)
              tail).toList⟩) := by
  refine ⟨fun short => ?_, fun full => ?_⟩
  · cases result : doParseFile sizes readers i buffer file with
    | none => rfl
    | some parsed => exact absurd short (Nat.not_lt.mpr (doParseFile_full result))
  · rcases exists_log full with ⟨log, tail, divided, torn⟩
    refine ⟨log, tail, ⟨divided, torn⟩, fun other rest otherwise restTorn => ?_, ?_⟩
    · exact log_unique restTorn torn (otherwise.symm.trans divided)
    · have head : file.take sizes.head = log.head := by
        rw [divided, Log.bytes, List.append_assoc]
        exact List.take_left' log.full
      have body : file.drop sizes.head = log.items.flatMap Item.bytes ++ tail := by
        rw [divided, Log.bytes, List.append_assoc]
        exact List.drop_left' log.full
      rcases readings_items_append readers i (modeLetter readers log.head) log.items sizes.head
        (log.head ++ buffer.drop sizes.head) tail with ⟨place, lines⟩
      rw [readings_torn readers i _ place _ torn] at lines
      rw [doParseFile_eq sizes readers i buffer full, bodyReadings, head, body, lines]
      rfl

end CosmosPC
