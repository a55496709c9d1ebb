import CosmosPC.Parser.Readings
import Mathlib.Data.List.Basic

/-! # Cut-off logs

The readings of a file that is cut off are those of the whole file up to the cut,
the last of them short. The lines of the part are then a beginning of the lines of
the whole, but for one case: a position of which the part has enough bytes for a
`STORAGE_HEARTBEAT`. The rest of that position is what the buffer holds, and the
calls for the whole and for the part begin with buffers that have nothing to do
with each other. -/

namespace CosmosPC

namespace Reading

def upTo (stop : Nat) (reading : Reading) : Option Reading :=
  if reading.start ≤ stop then some (reading.cut (stop - reading.start)) else none

theorem upTo_before {stop : Nat} {reading : Reading}
    (before : reading.start + reading.got.length ≤ stop) : reading.upTo stop = some reading := by
  rw [upTo, if_pos (by omega), cut, List.take_of_length_le (by omega)]

theorem upTo_behind {stop : Nat} {reading : Reading} (behind : stop < reading.start) :
    reading.upTo stop = none :=
  if_neg (by omega)

theorem upTo_inside {reading : Reading} (count : Nat) :
    reading.upTo (reading.start + count) = some (reading.cut count) := by
  rw [upTo, if_pos (Nat.le_add_right ..), Nat.add_sub_cancel_left]

def Precedes (sizes : StorageSizes) (first second : Reading) : Prop :=
  first.start + first.got.length < second.start ∧
    sizes.ofTag first.tag = some first.got.length

structure Alike (first second : Reading) : Prop where
  tag : first.tag = second.tag
  start : first.start = second.start
  got : first.got = second.got

theorem upTo_start {stop : Nat} {reading short : Reading} (cut : reading.upTo stop = some short) :
    short = reading.cut (stop - reading.start) ∧ reading.start ≤ stop := by
  unfold upTo at cut
  split at cut
  case isTrue within => exact ⟨(Option.some.inj cut).symm, within⟩
  case isFalse => cases cut

end Reading

section Cuts

variable (sizes : StorageSizes)

theorem readings_start (start : Nat) (buffer file : List UInt8) :
    ∀ reading ∈ readings sizes start buffer file, start < reading.start := by
  induction start, buffer, file using readings.induct sizes with
  | case1 start buffer => simp [readings_nil]
  | case2 start buffer tag file filler rest =>
      rw [readings_filler sizes filler]
      intro reading member
      have later := rest reading member
      omega
  | case3 start buffer tag file size known reading rest =>
      rw [readings_known sizes known]
      intro other member
      rcases List.mem_cons.mp member with same | member
      · rw [same]
        exact Nat.lt_succ_self start
      · have later := rest other member
        omega

theorem readings_ordered (start : Nat) (buffer file : List UInt8) :
    (readings sizes start buffer file).Pairwise (Reading.Precedes sizes) := by
  induction start, buffer, file using readings.induct sizes with
  | case1 start buffer => simp [readings_nil]
  | case2 start buffer tag file filler rest =>
      rw [readings_filler sizes filler]
      exact rest
  | case3 start buffer tag file size known reading rest =>
      rw [readings_known sizes known]
      refine List.Pairwise.cons (fun other member => ?_) rest
      have later := readings_start sizes _ _ _ other member
      have full : (file.take size).length = size := by
        apply List.length_take_of_le
        apply Nat.le_of_lt
        apply Nat.lt_of_not_le
        intro ended
        rw [List.drop_eq_nil_of_le ended, readings_nil] at member
        cases member
      simp only [Reading.Precedes, full]
      exact ⟨by omega, known⟩

/-- Where records are does not depend on what the buffer holds. -/
theorem readings_alike (start : Nat) (buffer other file : List UInt8) :
    List.Forall₂ Reading.Alike (readings sizes start buffer file)
      (readings sizes start other file) := by
  induction start, buffer, file using readings.induct sizes generalizing other with
  | case1 start buffer =>
      rw [readings_nil, readings_nil]
      exact .nil
  | case2 start buffer tag file filler rest =>
      rw [readings_filler sizes filler, readings_filler sizes filler]
      exact rest _
  | case3 start buffer tag file size known reading rest =>
      rw [readings_known sizes known, readings_known sizes known]
      exact .cons ⟨rfl, rfl, rfl⟩ (rest _)

theorem readings_behind {stop start : Nat} (behind : stop ≤ start) (buffer file : List UInt8) :
    (readings sizes start buffer file).filterMap (Reading.upTo stop) = [] := by
  rw [List.filterMap_eq_nil_iff]
  intro reading member
  have later := readings_start sizes start buffer file reading member
  exact Reading.upTo_behind (by omega)

theorem readings_take (start : Nat) (buffer file : List UInt8) (count : Nat) :
    readings sizes start buffer (file.take count) =
      (readings sizes start buffer file).filterMap (Reading.upTo (start + count)) := by
  induction start, buffer, file using readings.induct sizes generalizing count with
  | case1 start buffer => simp [readings_nil]
  | case2 start buffer tag file filler rest =>
      cases count with
      | zero =>
          rw [List.take_zero, readings_nil, Nat.add_zero, readings_behind sizes (Nat.le_refl start)]
      | succ count =>
          have shift : start + (count + 1) = start + 1 + count := by omega
          rw [List.take_succ_cons, readings_filler sizes filler, readings_filler sizes filler,
            shift]
          exact rest count
  | case3 start buffer tag file size known reading rest =>
      cases count with
      | zero =>
          rw [List.take_zero, readings_nil, Nat.add_zero, readings_behind sizes (Nat.le_refl start)]
      | succ count =>
          have shift : start + (count + 1) = reading.start + count := by
            simp only [reading]
            omega
          have cut : (file.take count).take size = (file.take size).take count := by
            rw [List.take_take, List.take_take, Nat.min_comm]
          rw [List.take_succ_cons, readings_known sizes known, readings_known sizes known, shift]
          rw [List.filterMap_cons, Reading.upTo_inside]
          simp only [cut]
          congr 1
          rcases Nat.le_total size count with whole | short
          · have same : (file.take size).take count = file.take size :=
              List.take_of_length_le (Nat.le_trans (List.length_take_le ..) whole)
            have left : (file.take count).drop size = (file.drop size).take (count - size) :=
              List.drop_take ..
            have stop : reading.start + count = start + 1 + size + (count - size) := by
              simp only [reading]
              omega
            rw [same, left, stop]
            exact rest (count - size)
          · have ended : (file.take count).drop size = [] :=
              List.drop_eq_nil_of_le (Nat.le_trans (List.length_take_le ..) short)
            rw [ended, readings_nil]
            exact (readings_behind sizes (Nat.add_le_add_left short _) _ _).symm

section Lines

variable (readers : StorageReaders) (i : Nat) (mode : Char)

/-- The parser takes the bytes it got for a whole position, and some are missing. -/
def Reading.Unnoticed (short : Reading) : Prop :=
  short.tag = 0x10 ∧ sizes.heartbeat ≤ short.got.length ∧ short.got.length < sizes.gps

def Reading.SameData (short full : Reading) : Prop :=
  short.buffer.take sizes.gps = full.buffer.take sizes.gps

/-- The buffers complete a position that is short in the part to the bytes that
the parser has for it in the whole. -/
def CutHarmless (whole part : List Reading) : Prop :=
  ∀ short ∈ part, ∀ full ∈ whole, full.start = short.start →
    short.Unnoticed sizes → short.SameData sizes full

theorem sameData_of_long {short full : Reading} (part : short.got <+: full.got)
    (long : sizes.gps ≤ short.got.length) : short.SameData sizes full := by
  rcases part with ⟨rest, same⟩
  rw [Reading.SameData, Reading.buffer, Reading.buffer, ← same,
    List.take_append_of_le_length long, List.append_assoc, List.take_append_of_le_length long]

theorem sameData_of_enough {short full : Reading} (part : short.got <+: full.got)
    (same : short.Unnoticed sizes → short.SameData sizes full) (isGps : short.tag = 0x10)
    (enough : sizes.heartbeat ≤ short.got.length) : short.SameData sizes full := by
  rcases Nat.lt_or_ge short.got.length sizes.gps with missing | long
  · exact same ⟨isGps, enough, missing⟩
  · exact sameData_of_long sizes part long

theorem line_cut {short full : Reading} (tag : short.tag = full.tag)
    (part : short.got <+: full.got)
    (same : short.Unnoticed sizes → short.SameData sizes full) :
    short.line sizes readers i mode = none ∨
      short.line sizes readers i mode = full.line sizes readers i mode := by
  by_cases position : short.tag = 0x10 ∧ sizes.heartbeat ≤ short.got.length
  case neg =>
      left
      rw [Reading.line, if_neg]
      rintro ⟨isGps, enough, _⟩
      exact position ⟨isGps, enough⟩
  case pos =>
      rcases position with ⟨isGps, enough⟩
      have data := sameData_of_enough sizes part same isGps enough
      have isGpsFull : full.tag = 0x10 := tag ▸ isGps
      have enoughFull : sizes.heartbeat ≤ full.got.length := Nat.le_trans enough part.length_le
      right
      rw [Reading.SameData] at data
      simp only [Reading.line, isGps, isGpsFull, enough, enoughFull, data]

theorem line_alike {first second : Reading} (alike : first.Alike second)
    (same : first.Unnoticed sizes → first.SameData sizes second) :
    first.line sizes readers i mode = second.line sizes readers i mode := by
  by_cases enough : first.tag = 0x10 ∧ sizes.heartbeat ≤ first.got.length
  case neg =>
      rw [Reading.line, if_neg (fun holds => enough ⟨holds.1, holds.2.1⟩), Reading.line, if_neg]
      rw [← alike.tag, ← alike.got]
      exact fun holds => enough ⟨holds.1, holds.2.1⟩
  case pos =>
      have data :=
        sameData_of_enough sizes (alike.got ▸ List.prefix_rfl) same enough.1 enough.2
      rw [Reading.SameData] at data
      simp only [Reading.line, alike.tag, alike.got, data]

/-- `read` and `whole` are the readings of the two calls if neither file is cut. -/
theorem lines_prefix {stop : Nat} {read whole : List Reading}
    (alike : List.Forall₂ Reading.Alike read whole)
    (ordered : read.Pairwise (Reading.Precedes sizes))
    (harmless : CutHarmless sizes whole (read.filterMap (Reading.upTo stop))) :
    (read.filterMap (Reading.upTo stop)).filterMap (Reading.line sizes readers i mode) <+:
      whole.filterMap (Reading.line sizes readers i mode) := by
  induction alike with
  | nil => exact List.prefix_rfl
  | @cons reading full read whole same _ induction =>
      rcases List.pairwise_cons.mp ordered with ⟨first, ordered⟩
      by_cases before : reading.start + reading.got.length ≤ stop
      case pos =>
          rw [List.filterMap_cons_some (Reading.upTo_before before)] at harmless ⊢
          have rest := induction ordered fun short member other isWhole =>
            harmless short (List.mem_cons_of_mem _ member) other (List.mem_cons_of_mem _ isWhole)
          have line := line_alike sizes readers i mode same
            (harmless reading List.mem_cons_self full List.mem_cons_self same.start.symm)
          simp only [List.filterMap_cons, line]
          cases full.line sizes readers i mode with
          | none => exact rest
          | some line => exact List.cons_prefix_cons.mpr ⟨rfl, rest⟩
      case neg =>
          have behind : read.filterMap (Reading.upTo stop) = [] := by
            rw [List.filterMap_eq_nil_iff]
            intro other member
            have order := (first other member).1
            exact Reading.upTo_behind (by omega)
          by_cases started : reading.start ≤ stop
          case neg =>
              rw [List.filterMap_cons, behind, Reading.upTo_behind (by omega)]
              exact List.nil_prefix
          case pos =>
              rcases Nat.exists_eq_add_of_le started with ⟨count, rfl⟩
              rw [List.filterMap_cons_some (Reading.upTo_inside count), behind] at harmless ⊢
              have part : (reading.cut count).got <+: full.got :=
                same.got ▸ List.take_prefix count reading.got
              have tag : (reading.cut count).tag = full.tag := same.tag
              have cases := line_cut sizes readers i mode tag part
                (harmless _ List.mem_cons_self full List.mem_cons_self same.start.symm)
              simp only [List.filterMap_cons, List.filterMap_nil]
              rcases cases with none | line
              · rw [none]
                exact List.nil_prefix
              · rw [line]
                cases full.line sizes readers i mode with
                | none => exact List.nil_prefix
                | some line => exact List.cons_prefix_cons.mpr ⟨rfl, List.nil_prefix⟩

end Lines

def StorageReaders.telling (data : List UInt8) : StorageReaders where
  year _ := 0
  month _ := 0
  day _ := 0
  mode _ := 0
  totalTick _ := 0
  distance _ := ⟨true, ['0'], ['0']⟩
  lat record := ⟨false, if record = data then ['1'] else ['0'], []⟩
  long _ := ⟨false, ['0'], []⟩

theorem line_telling {reading : Reading} (isGps : reading.tag = 0x10)
    (enough : sizes.heartbeat ≤ reading.got.length) (i : Nat) (mode : Char)
    (data : List UInt8) :
    reading.line sizes (StorageReaders.telling data) i mode =
      some (gpsLine i mode
        ⟨false, if reading.buffer.take sizes.gps = data then ['1'] else ['0'], []⟩
        ⟨false, ['0'], []⟩) := by
  rw [Reading.line, if_pos ⟨isGps, enough, by simp [StorageReaders.telling]⟩]
  rfl

theorem upTo_prefix {stop : Nat} {reading short : Reading}
    (cut : reading.upTo stop = some short) : short.got <+: reading.got := by
  rw [(Reading.upTo_start cut).1]
  exact List.take_prefix _ _

theorem lines_not_prefix {stop : Nat} {read whole : List Reading}
    (alike : List.Forall₂ Reading.Alike read whole)
    (ordered : read.Pairwise (Reading.Precedes sizes))
    (orderedWhole : whole.Pairwise (Reading.Precedes sizes)) {short full : Reading}
    (member : short ∈ read.filterMap (Reading.upTo stop)) (isWhole : full ∈ whole)
    (start : full.start = short.start) (unnoticed : short.Unnoticed sizes)
    (changed : ¬short.SameData sizes full) (i : Nat) (mode : Char) :
    ¬(read.filterMap (Reading.upTo stop)).filterMap (Reading.line sizes
        (StorageReaders.telling (short.buffer.take sizes.gps)) i mode) <+:
      whole.filterMap (Reading.line sizes
        (StorageReaders.telling (short.buffer.take sizes.gps)) i mode) := by
  induction alike with
  | nil => cases isWhole
  | @cons reading other read whole same _ induction =>
      rcases List.pairwise_cons.mp ordered with ⟨first, ordered⟩
      rcases List.pairwise_cons.mp orderedWhole with ⟨firstWhole, orderedWhole⟩
      rcases List.mem_filterMap.mp member with ⟨origin, isRead, cut⟩
      have begins : short.start = origin.start := by rw [(Reading.upTo_start cut).1]; rfl
      rcases List.mem_cons.mp isRead with own | later
      · -- The record itself: its line tells the two calls apart.
        subst own
        have isOther : full = other := by
          rcases List.mem_cons.mp isWhole with equal | behind
          · exact equal
          · have order := (firstWhole full behind).1
            have place := same.start
            omega
        subst isOther
        have part := upTo_prefix cut
        have isGps : full.tag = 0x10 := by
          rw [← same.tag, ← unnoticed.1, (Reading.upTo_start cut).1]
          rfl
        have enough : sizes.heartbeat ≤ full.got.length :=
          Nat.le_trans unnoticed.2.1 (same.got ▸ part.length_le)
        rw [List.filterMap_cons_some cut,
          List.filterMap_cons_some (line_telling sizes unnoticed.1 unnoticed.2.1 i mode _),
          List.filterMap_cons_some (line_telling sizes isGps enough i mode _)]
        intro isPrefix
        have line := (List.cons_prefix_cons.mp isPrefix).1
        rw [if_pos rfl, if_neg (Ne.symm changed)] at line
        simp [gpsLine] at line
      · -- A record before it, which is complete in both.
        have order := first origin later
        have within := (Reading.upTo_start cut).2
        have kept := Reading.upTo_before (Nat.le_trans (Nat.le_of_lt order.1) within)
        have complete : reading.Unnoticed sizes → reading.SameData sizes other := by
          rintro ⟨isGps, _, missing⟩
          have size := order.2
          rw [isGps] at size
          exact absurd (Option.some.inj size) (Nat.ne_of_gt missing)
        have line := line_alike sizes
          (StorageReaders.telling (short.buffer.take sizes.gps)) i mode same complete
        have behind : full ∈ whole := by
          rcases List.mem_cons.mp isWhole with equal | behind
          · have place := same.start
            have between := order.1
            rw [equal] at start
            omega
          · exact behind
        have rest := induction ordered orderedWhole (List.mem_filterMap.mpr ⟨origin, later, cut⟩)
          behind
        rw [List.filterMap_cons_some kept]
        simp only [List.filterMap_cons, line]
        cases other.line sizes (StorageReaders.telling (short.buffer.take sizes.gps)) i mode with
        | none => exact rest
        | some line => exact fun isPrefix => rest (List.cons_prefix_cons.mp isPrefix).2

/-- Both the file and its part before `cut` are parsed, and the lines of the part
are a beginning of those of the file. `buffer` is what the first call finds in its
buffer, `other` what the second one does. -/
def CutOffSafe (readers : StorageReaders) (i : Nat) (buffer other file : List UInt8)
    (cut : Nat) : Prop :=
  ∃ whole part, doParseFile sizes readers i buffer file = some whole ∧
    doParseFile sizes readers i other (file.take cut) = some part ∧ part.lines <+: whole.lines

theorem bodyReadings_take (buffer : List UInt8) (file : List UInt8) {cut : Nat}
    (behind : sizes.head ≤ cut) :
    bodyReadings sizes buffer (file.take cut) =
      (bodyReadings sizes buffer file).filterMap (Reading.upTo cut) := by
  have head : (file.take cut).take sizes.head = file.take sizes.head := by
    rw [List.take_take, Nat.min_eq_left behind]
  have stop : cut = sizes.head + (cut - sizes.head) := (Nat.add_sub_cancel' behind).symm
  rw [bodyReadings, bodyReadings, head, List.drop_take, readings_take, ← stop]

theorem cutOffSafe_iff (readers : StorageReaders) (i : Nat) (buffer other : List UInt8)
    {file : List UInt8} {cut : Nat} (full : sizes.head ≤ file.length)
    (behind : sizes.head ≤ cut) :
    CutOffSafe sizes readers i buffer other file cut ↔
      ((bodyReadings sizes other file).filterMap (Reading.upTo cut)).filterMap
          (Reading.line sizes readers i (modeLetter readers (file.take sizes.head))) <+:
        (bodyReadings sizes buffer file).filterMap
          (Reading.line sizes readers i (modeLetter readers (file.take sizes.head))) := by
  have fullPart : sizes.head ≤ (file.take cut).length := by
    rw [List.length_take]
    exact Nat.le_min.mpr ⟨behind, full⟩
  have head : (file.take cut).take sizes.head = file.take sizes.head := by
    rw [List.take_take, Nat.min_eq_left behind]
  have part := doParseFile_eq sizes readers i other fullPart
  rw [bodyReadings_take sizes other file behind, head] at part
  rw [CutOffSafe, doParseFile_eq sizes readers i buffer full, part]
  simp only [Option.some.injEq, exists_eq_left', exists_and_left]
  simp only [List.cons_prefix_cons, true_and]

/-- Whatever the fields are, a cut-off log leads to a beginning of the lines of the
whole log, if and only if no position that is short in the part, but long enough
for a `STORAGE_HEARTBEAT`, differs from that of the whole. -/
theorem cut_off_safe_iff (i : Nat) (buffer other : List UInt8) {file : List UInt8} {cut : Nat}
    (full : sizes.head ≤ file.length) (behind : sizes.head ≤ cut) :
    (∀ readers, CutOffSafe sizes readers i buffer other file cut) ↔
      CutHarmless sizes (bodyReadings sizes buffer file)
        (bodyReadings sizes other (file.take cut)) := by
  have alike : List.Forall₂ Reading.Alike (bodyReadings sizes other file)
      (bodyReadings sizes buffer file) := readings_alike ..
  have ordered (content : List UInt8) :
      (bodyReadings sizes content file).Pairwise (Reading.Precedes sizes) := readings_ordered ..
  rw [bodyReadings_take sizes other file behind]
  constructor
  · intro safe short member whole isWhole start unnoticed
    apply Classical.byContradiction
    intro changed
    have written := (cutOffSafe_iff sizes _ i buffer other full behind).mp
      (safe (StorageReaders.telling (short.buffer.take sizes.gps)))
    exact lines_not_prefix sizes alike (ordered other) (ordered buffer) member isWhole start
      unnoticed changed i _ written
  · intro harmless readers
    rw [cutOffSafe_iff sizes readers i buffer other full behind]
    exact lines_prefix sizes readers i _ alike (ordered other) harmless

end Cuts

/-! The positions (1, 2) and (3, 4) with coordinates of two bytes, a
`STORAGE_HEARTBEAT` of two bytes, and a file that ends between the coordinates of
the second position: the part has the positions (1, 2) and (3, 2). -/

namespace CutPosition

def sizes : StorageSizes where
  head := 1
  gps := 4
  heartbeat := 2
  pedometer := 2
  bike := 2
  barometer := 2
  temperature := 2
  lap := 2
  positive := by decide
  fits := by decide
  heartbeat_le_gps := by decide

def coordinate (high low : UInt8) : Number :=
  let value := 256 * high.toNat + low.toNat
  ⟨value == 0, Nat.toDigits 10 value ++ ".000000".toList, Nat.toDigits 10 value⟩

def readers : StorageReaders where
  year _ := 2012
  month _ := 10
  day _ := 30
  mode _ := 1
  totalTick _ := 0
  distance _ := ⟨true, "0.000000".toList, ['0']⟩
  lat record := coordinate (record.getD 0 0) (record.getD 1 0)
  long record := coordinate (record.getD 2 0) (record.getD 3 0)

def file : List UInt8 := [0, 0x10, 0, 1, 0, 2, 0x10, 0, 3, 0, 4]

def cut : Nat := 9

theorem bodyReadings_eq (buffer : List UInt8) :
    bodyReadings sizes buffer file =
      [⟨0x10, 2, 0x10 :: buffer.drop 1, [0, 1, 0, 2]⟩,
        ⟨0x10, 7, [0x10, 1, 0, 2] ++ (buffer.drop 1).drop 3, [0, 3, 0, 4]⟩] := by
  refine (@readings_known sizes 0x10 4 rfl _ _ _).trans (congrArg _ ?_)
  refine (@readings_known sizes 0x10 4 rfl _ _ _).trans (congrArg _ ?_)
  exact readings_nil ..

def line (lat long : Number) : Text := gpsLine 1 'R' lat long

theorem lines_whole (buffer : List UInt8) :
    (bodyReadings sizes buffer file).filterMap (Reading.line sizes readers 1 'R') =
      [line (coordinate 0 1) (coordinate 0 2), line (coordinate 0 3) (coordinate 0 4)] := by
  rw [bodyReadings_eq]
  rfl

theorem lines_part (buffer : List UInt8) :
    ((bodyReadings sizes buffer file).filterMap (Reading.upTo cut)).filterMap
        (Reading.line sizes readers 1 'R') =
      [line (coordinate 0 1) (coordinate 0 2), line (coordinate 0 3) (coordinate 0 2)] := by
  rw [bodyReadings_eq]
  rfl

end CutPosition

/-- Whatever the two calls find in their buffers. -/
theorem cut_position_is_invented :
    CutPosition.sizes.heartbeat < CutPosition.sizes.gps ∧
      CutPosition.sizes.head ≤ CutPosition.file.length ∧
      CutPosition.sizes.head ≤ CutPosition.cut ∧ CutPosition.cut ≤ CutPosition.file.length ∧
      ∀ buffer other, ¬CutOffSafe CutPosition.sizes CutPosition.readers 1 buffer other
        CutPosition.file CutPosition.cut := by
  refine ⟨by decide, by decide, by decide, by decide, fun buffer other safe => ?_⟩
  rw [cutOffSafe_iff _ _ _ _ _ (by decide) (by decide)] at safe
  have mode : modeLetter CutPosition.readers (CutPosition.file.take CutPosition.sizes.head) = 'R' :=
    rfl
  rw [mode, CutPosition.lines_whole, CutPosition.lines_part] at safe
  revert safe
  decide

theorem cut_off_safe_iff_between :
    (∀ readers, CutOffSafe CutPosition.sizes readers 1 (List.replicate 512 0)
        (List.replicate 512 255) CutPosition.file 6) ↔
      CutHarmless CutPosition.sizes
        (bodyReadings CutPosition.sizes (List.replicate 512 0) CutPosition.file)
        (bodyReadings CutPosition.sizes (List.replicate 512 255) (CutPosition.file.take 6)) :=
  cut_off_safe_iff CutPosition.sizes 1 (List.replicate 512 0) (List.replicate 512 255)
    (by decide) (by decide)

end CosmosPC
