import Mathlib.Data.List.TakeWhile
import Mathlib.Tactic.SplitIfs
import CosmosPC.Ymodem.Answering
import CosmosPC.Ymodem.Int2Str
import CosmosPC.Ymodem.Stretches

/-! # The header

What `Ymodem_PrepareIntialPacket` leaves in the frame: the name, a `NUL`, and
the size in decimal digits, as far as they fit into the payload. -/

namespace CosmosPC

/-! ## The size -/

theorem sizeText_eq (length : Nat) (stray : List UInt8) (small : length < 10 ^ 9) :
    sizeText length stray = Decimal.text length := by
  have short : (Decimal.text length).length ≤ 9 := Decimal.length_text_le length 9 (by decide) small
  have ended : 10 - (Decimal.text length).length =
      (9 - (Decimal.text length).length) + 1 := by omega
  have digits : ∀ byte ∈ Decimal.text length, decide (byte ≠ 0) = true :=
    fun byte member => decide_eq_true (ne_zero_of_mem_text member)
  rw [sizeText, int2Str_array length (by omega), ended, List.replicate_succ, List.append_assoc,
    List.takeWhile_append_of_pos digits]
  simp

/-! ## The name and the size in the frame -/

theorem copyFileName_cell (fileName : Nat → UInt8) (rounds i : Nat) (data : Memory) :
    ∃ count, count ≤ rounds ∧ (copyFileName fileName rounds i data).1 = i + count ∧
      (∀ offset, offset < count → fileName (i + offset) ≠ 0) ∧
      (count = rounds ∨ fileName (i + count) = 0) ∧
      ∀ other, (copyFileName fileName rounds i data).2.cell other =
        if i + packetHeader ≤ other ∧ other < i + count + packetHeader then
          fileName (other - packetHeader)
        else data.cell other := by
  induction rounds generalizing i data with
  | zero =>
      refine ⟨0, Nat.le_refl 0, rfl, by simp, Or.inl rfl, fun other => ?_⟩
      rw [if_neg (by omega)]
      rfl
  | succ rounds induction =>
      rw [copyFileName]
      by_cases ended : fileName i = 0
      · rw [if_pos ended]
        refine ⟨0, Nat.zero_le _, rfl, by simp, Or.inr ended, fun other => ?_⟩
        rw [if_neg (by omega)]
      · rw [if_neg ended]
        rcases induction (i + 1) (data.store (i + packetHeader) (fileName i)) with
          ⟨count, bound, index, named, stopped, cells⟩
        refine ⟨count + 1, by omega, by rw [index]; omega, ?_, ?_, fun other => ?_⟩
        · intro offset earlier
          cases offset with
          | zero => exact ended
          | succ offset =>
              have letter := named offset (by omega)
              rwa [show i + (offset + 1) = i + 1 + offset by omega]
        · rw [show i + (count + 1) = i + 1 + count by omega]
          exact stopped.imp (fun all => by omega) id
        · rw [cells other, Memory.store_cell]
          by_cases first : other = i + packetHeader
          · rw [if_neg (by omega), if_pos first, if_pos (by omega), first,
              Nat.add_sub_cancel]
          · rw [if_neg first]
            exact ite_congr (propext (by omega)) (fun _ => rfl) fun _ => rfl

theorem copyText_cell (text : List UInt8) (i : Nat) (data : Memory)
    (fits : i + text.length < 2 ^ 16) :
    (copyText text i data).1 = i + text.length ∧
      ∀ other, (copyText text i data).2.cell other =
        if i ≤ other then (text[other - i]?).getD (data.cell other) else data.cell other := by
  induction text generalizing i data with
  | nil => simp [copyText]
  | cons byte text induction =>
      rw [List.length_cons] at fits
      have next : (i + 1) % 2 ^ 16 = i + 1 := Nat.mod_eq_of_lt (by omega)
      rcases induction (i + 1) (data.store i byte) (by omega) with ⟨index, cells⟩
      rw [copyText, next, List.length_cons]
      refine ⟨by omega, fun other => ?_⟩
      rw [cells other, Memory.store_cell]
      by_cases here : other = i
      · subst here
        simp
      · by_cases behind : i < other
        · have position : other - i = (other - (i + 1)) + 1 := by omega
          rw [if_pos (Nat.succ_le_of_lt behind), if_pos (Nat.le_of_lt behind), if_neg here,
            position, List.getElem?_cons_succ]
        · rw [if_neg (by omega), if_neg here, if_neg (by omega)]

/-- The name of a file as a C string: its bytes, and the `NUL` behind them. -/
structure NamedBy (sendFileName : Nat → UInt8) (name : List UInt8) : Prop where
  some : 1 ≤ name.length
  short : name.length ≤ fileNameLength - 1
  bytes : ∀ index (inside : index < name.length), sendFileName index = name[index]
  noNul : ∀ byte ∈ name, byte ≠ 0
  ended : sendFileName name.length = 0

/-- What is left of name and size when the payload is full. -/
def headerPayload (name : List UInt8) (sizeFile : Nat) : List UInt8 :=
  (name ++ ([0] ++ Decimal.text sizeFile) ++ List.replicate packetSize 0).take packetSize

variable {sendFileName : Nat → UInt8} {name : List UInt8}

theorem NamedBy.copied (named : NamedBy sendFileName name) (locals : Locals) :
    (∀ index (inside : index < name.length),
        copiedName locals sendFileName index = name[index]) ∧
      (name.length < fileNameLength - 1 → copiedName locals sendFileName name.length = 0) := by
  constructor
  · intro index inside
    rw [copiedName, if_pos (Nat.lt_of_lt_of_le inside named.short), named.bytes index inside]
  · intro shorter
    rw [copiedName, if_pos shorter, named.ended]

theorem prepareIntialPacket_cell (data : Memory) (fileName : Nat → UInt8) (sizeFile : Nat)
    (stray : List UInt8) (small : sizeFile < 10 ^ 9) :
    ∃ count, count ≤ fileNameLength ∧ (∀ offset, offset < count → fileName offset ≠ 0) ∧
      (count = fileNameLength ∨ fileName count = 0) ∧
      ∀ other, other < packetHeader + packetSize →
        (ymodemPrepareIntialPacket data fileName sizeFile stray).cell other =
          if other < packetHeader then
            (((data.store 0 soh).store 1 0x00).store 2 0xff).cell other
          else if other < packetHeader + count then fileName (other - packetHeader)
          else if other = packetHeader + count then 0
          else ((Decimal.text sizeFile)[other - (packetHeader + count + 1)]?).getD 0 := by
  rcases copyFileName_cell fileName fileNameLength 0
      (((data.store 0 soh).store 1 0x00).store 2 0xff) with
    ⟨count, bound, stop, named, stopped, cells⟩
  simp only [Nat.zero_add] at stop named stopped cells
  have short : (Decimal.text sizeFile).length ≤ 9 :=
    Decimal.length_text_le sizeFile 9 (by decide) small
  refine ⟨count, bound, named, stopped, fun other inside => ?_⟩
  rw [fileNameLength] at bound
  unfold ymodemPrepareIntialPacket
  simp only [stop, sizeText_eq sizeFile stray small]
  generalize (copyFileName fileName fileNameLength 0
    (((data.store 0 soh).store 1 0x00).store 2 0xff)).2 = copied at cells
  unfold packetHeader packetSize at *
  rcases copyText_cell (Decimal.text sizeFile) (count + 3 + 1) (copied.store (count + 3) 0x00)
    (by omega) with ⟨behind, digits⟩
  rw [behind, Memory.fill_cell, digits, Memory.store_cell, cells]
  have position : other - (3 + count + 1) = other - (count + 3 + 1) := by omega
  rw [position]
  by_cases digit : other - (count + 3 + 1) < (Decimal.text sizeFile).length
  · rw [List.getElem?_eq_getElem digit, Option.getD_some, Option.getD_some]
    split_ifs <;> first | rfl | omega
  · rw [List.getElem?_eq_none (Nat.le_of_not_lt digit), Option.getD_none, Option.getD_none]
    split_ifs <;> first | rfl | omega

@[simp] theorem length_headerPayload (name : List UInt8) (sizeFile : Nat) :
    (headerPayload name sizeFile).length = packetSize := by
  rw [headerPayload, List.length_take, List.length_append, List.length_replicate]
  omega

theorem getElem_headerPayload (name : List UInt8) (sizeFile index : Nat)
    (inside : index < (headerPayload name sizeFile).length) :
    (headerPayload name sizeFile)[index] =
      ((name ++ ([0] ++ Decimal.text sizeFile))[index]?).getD 0 := by
  simp only [headerPayload, List.getElem_take]
  by_cases written : index < (name ++ ([0] ++ Decimal.text sizeFile)).length
  · rw [List.getElem_append_left written, List.getElem?_eq_getElem written, Option.getD_some]
  · rw [List.getElem_append_right (Nat.le_of_not_lt written), List.getElem_replicate,
      List.getElem?_eq_none (Nat.le_of_not_lt written), Option.getD_none]

theorem NamedBy.stops (named : NamedBy sendFileName name) (locals : Locals) {count : Nat}
    (letters : ∀ offset, offset < count → copiedName locals sendFileName offset ≠ 0)
    (stopped : count = fileNameLength ∨ copiedName locals sendFileName count = 0) :
    count = name.length ∨ packetSize ≤ name.length ∧ packetSize ≤ count := by
  rcases named.copied locals with ⟨copied, terminated⟩
  have short := named.short
  rw [fileNameLength] at short stopped terminated
  have reaches : name.length ≤ count := by
    rcases stopped with all | ended
    · omega
    · apply Nat.le_of_not_lt
      intro before
      rw [copied count before] at ended
      exact named.noNul _ (List.getElem_mem before) ended
  by_cases long : packetSize ≤ name.length
  · exact Or.inr ⟨long, Nat.le_trans long reaches⟩
  · rw [packetSize] at long
    have ends := terminated (by omega)
    left
    apply Nat.le_antisymm _ reaches
    apply Nat.le_of_not_lt
    intro beyond
    exact letters name.length beyond ends

theorem prepareIntialPacket_bytes (data : Memory) (locals : Locals)
    (named : NamedBy sendFileName name) (sizeFile : Nat) (stray : List UInt8)
    (small : sizeFile < 10 ^ 9) :
    let packet := ymodemPrepareIntialPacket data (copiedName locals sendFileName) sizeFile stray
    packet.bytes 0 packetHeader = [soh, 0x00, 0xff] ∧
      packet.bytes packetHeader packetSize = headerPayload name sizeFile := by
  dsimp only
  rcases prepareIntialPacket_cell data (copiedName locals sendFileName) sizeFile stray small with
    ⟨count, bound, letters, stopped, cells⟩
  generalize ymodemPrepareIntialPacket data (copiedName locals sendFileName) sizeFile stray = packet
    at cells ⊢
  constructor
  · have start (other : Nat) (first : other < packetHeader) :
        packet.cell other = (((data.store 0 soh).store 1 0x00).store 2 0xff).cell other := by
      rw [cells other (Nat.lt_of_lt_of_le first (by decide)), if_pos first]
    have header : packet.bytes 0 packetHeader =
        (((data.store 0 soh).store 1 0x00).store 2 0xff).bytes 0 packetHeader :=
      Memory.bytes_congr fun index _ inside => start index (by simpa using inside)
    rw [header]
    rfl
  · apply List.ext_getElem
    · simp
    · intro index inside _
      have within : index < packetSize := by simpa using inside
      rw [Memory.getElem_bytes, getElem_headerPayload, cells _ (by omega),
        if_neg (by omega), Nat.add_sub_cancel_left]
      rcases named.stops locals letters stopped with exact | ⟨long, beyond⟩
      · subst exact
        by_cases letter : index < name.length
        · rw [if_pos (by omega), (named.copied locals).1 index letter,
            List.getElem?_append_left letter, List.getElem?_eq_getElem letter, Option.getD_some]
        · have behind : name.length ≤ index := Nat.le_of_not_lt letter
          rw [if_neg (by omega), List.getElem?_append_right behind]
          by_cases terminator : index = name.length
          · rw [if_pos (by omega), terminator, Nat.sub_self]
            rfl
          · have position : index - name.length =
                packetHeader + index - (packetHeader + name.length + 1) + 1 := by omega
            rw [if_neg (by omega), position]
            rfl
      · have letter : index < name.length := Nat.lt_of_lt_of_le within long
        rw [if_pos (by omega), (named.copied locals).1 index letter,
          List.getElem?_append_left letter, List.getElem?_eq_getElem letter, Option.getD_some]

/-! ## Reading the header -/

/-- The rule of YMODEM for block 0: the name up to the first `NUL`, then decimal
digits up to the next byte that is none, or up to the end. -/
def decodeHeader (payload : List UInt8) : Option (List UInt8 × Nat) :=
  match payload.dropWhile (· ≠ 0) with
  | [] => none
  | _ :: rest =>
      let digits := rest.takeWhile Decimal.isDigit
      if digits = [] then none else some (payload.takeWhile (· ≠ 0), Decimal.value digits)

theorem decodeHeader_append (name rest : List UInt8) (noNul : ∀ byte ∈ name, byte ≠ 0) :
    decodeHeader (name ++ 0 :: rest) =
      if rest.takeWhile Decimal.isDigit = [] then none
      else some (name, Decimal.value (rest.takeWhile Decimal.isDigit)) := by
  have letters : ∀ byte ∈ name, decide (byte ≠ 0) = true := by
    intro byte member
    exact decide_eq_true (noNul byte member)
  rw [decodeHeader, List.dropWhile_append_of_pos letters, List.takeWhile_append_of_pos letters]
  simp

theorem decodeHeader_of_noNul (payload : List UInt8) (noNul : ∀ byte ∈ payload, byte ≠ 0) :
    decodeHeader payload = none := by
  have letters : payload.dropWhile (· ≠ 0) = [] := by
    apply List.dropWhile_eq_nil_iff.mpr
    intro byte member
    exact decide_eq_true (noNul byte member)
  rw [decodeHeader, letters]

theorem headerPayload_of_long (name : List UInt8) (sizeFile : Nat)
    (long : packetSize ≤ name.length) : headerPayload name sizeFile = name.take packetSize := by
  rw [headerPayload, List.append_assoc, List.take_append_of_le_length long]

theorem headerPayload_of_room (name : List UInt8) (sizeFile : Nat)
    (room : name.length + 1 ≤ packetSize) :
    headerPayload name sizeFile = name ++ 0 ::
      (Decimal.text sizeFile ++ List.replicate packetSize 0).take
        (packetSize - (name.length + 1)) := by
  have head : (name ++ [0]).length = name.length + 1 := by simp
  rw [headerPayload, ← List.append_assoc name, List.append_assoc (name ++ [0]),
    List.take_append, List.take_of_length_le (by omega), head, List.append_assoc]
  rfl

theorem takeWhile_isDigit_take {digits : List UInt8}
    (allDigits : ∀ byte ∈ digits, Decimal.isDigit byte = true) (zeros room : Nat) :
    ((digits ++ List.replicate zeros 0).take room).takeWhile Decimal.isDigit =
      digits.take room := by
  have kept : ∀ byte ∈ digits.take room, Decimal.isDigit byte = true :=
    fun byte member => allDigits byte (List.mem_of_mem_take member)
  have none (count : Nat) : (List.replicate count (0 : UInt8)).takeWhile Decimal.isDigit = [] := by
    cases count with
    | zero => rfl
    | succ count => rw [List.replicate_succ, List.takeWhile_cons_of_neg (by decide)]
  rw [List.take_append, List.takeWhile_append_of_pos kept, List.take_replicate, none,
    List.append_nil]

/-- The payload gives back name and size exactly if it holds both of them. -/
theorem decodeHeader_headerPayload (name : List UInt8) (sizeFile : Nat)
    (noNul : ∀ byte ∈ name, byte ≠ 0) :
    decodeHeader (headerPayload name sizeFile) = some (name, sizeFile) ↔
      name.length + 1 + (Decimal.text sizeFile).length ≤ packetSize := by
  by_cases long : packetSize ≤ name.length
  · rw [headerPayload_of_long name sizeFile long,
      decodeHeader_of_noNul _ fun byte member => noNul byte (List.mem_of_mem_take member)]
    constructor
    · intro decoded
      cases decoded
    · intro fits
      omega
  · have room : name.length + 1 ≤ packetSize := by omega
    rw [headerPayload_of_room name sizeFile room, decodeHeader_append name _ noNul,
      takeWhile_isDigit_take (Decimal.isDigit_text sizeFile)]
    by_cases fits : (Decimal.text sizeFile).length ≤ packetSize - (name.length + 1)
    · rw [List.take_of_length_le fits, if_neg (Decimal.text_ne_nil sizeFile),
        Decimal.value_text]
      exact ⟨fun _ => by omega, fun _ => rfl⟩
    · constructor
      · intro decoded
        by_cases none : (Decimal.text sizeFile).take (packetSize - (name.length + 1)) = []
        · rw [if_pos none] at decoded
          cases decoded
        · rw [if_neg none, Option.some.injEq, Prod.mk.injEq] at decoded
          have some : 0 < packetSize - (name.length + 1) := by
            apply Nat.pos_of_ne_zero
            intro zero
            exact none (by rw [zero, List.take_zero])
          exact absurd decoded.2
            (Decimal.value_take_text_ne sizeFile _ (Nat.lt_of_not_le fits) some)
      · intro holds
        omega

/-! ## The first frame of a session -/

theorem headerFrame_eq (data : Memory) (locals : Locals) (named : NamedBy sendFileName name)
    (sizeFile : Nat) (stray : List UInt8) (small : sizeFile < 10 ^ 9) :
    headerFrame data (copiedName locals sendFileName) sizeFile stray =
      encodeFrame soh 0x00 (headerPayload name sizeFile) := by
  rcases prepareIntialPacket_bytes data locals named sizeFile stray small with ⟨header, payload⟩
  rw [headerFrame, bytes_storeCheckBytes, header, payload, encodeFrame]
  rfl

/-- The first frame that is sent is a header which gives back a name and a size. -/
def HeaderCarries (log : List PortEvent) (name : List UInt8) (sizeFile : Nat) : Prop :=
  ∃ payload rest, log = .packet .header (encodeFrame soh 0x00 payload) :: rest ∧
    payload.length = packetSize ∧ decodeHeader payload = some (name, sizeFile)

theorem headerCarries_iff_decode (port : Port) (fuel : Nat) (locals : Locals)
    (buf : Nat → UInt8) (named : NamedBy sendFileName name) (sizeFile : Nat)
    (small : sizeFile < 10 ^ 9) :
    HeaderCarries
        (ymodemTransmit port fuel locals buf sendFileName sizeFile Uart.opened).2.uart.log
        name sizeFile ↔
      decodeHeader (headerPayload name sizeFile) = some (name, sizeFile) := by
  rcases transmit_first port fuel locals buf sendFileName sizeFile Uart.opened Uart.opened_open with
    ⟨events, ends⟩
  rw [headerFrame_eq locals.packetData locals named sizeFile locals.stray small] at ends
  have log : (ymodemTransmit port fuel locals buf sendFileName sizeFile Uart.opened).2.uart.log =
      .packet .header (encodeFrame soh 0x00 (headerPayload name sizeFile)) :: events := by
    rw [ends]
    rfl
  rw [log]
  constructor
  · rintro ⟨payload, rest, first, _, decoded⟩
    rw [List.cons.injEq, PortEvent.packet.injEq] at first
    have same := congrArg framePayload first.1.2
    rw [framePayload_encodeFrame, framePayload_encodeFrame] at same
    rw [same, decoded]
  · intro decoded
    exact ⟨headerPayload name sizeFile, events, rfl, length_headerPayload name sizeFile, decoded⟩

/-- The first frame carries name and size exactly if they fit into 128 bytes with
the `NUL` between them. -/
theorem header_carries_iff (port : Port) (fuel : Nat) (locals : Locals)
    (buf sendFileName : Nat → UInt8) (name : List UInt8) (sizeFile : Nat)
    (named : NamedBy sendFileName name) (admitted : sizeFile ≤ userFlashSize) :
    HeaderCarries
        (ymodemTransmit port fuel locals buf sendFileName sizeFile Uart.opened).2.uart.log
        name sizeFile ↔
      name.length + 1 + (Decimal.text sizeFile).length ≤ packetSize := by
  rw [headerCarries_iff_decode port fuel locals buf named sizeFile
    (Nat.lt_of_le_of_lt admitted (by decide))]
  exact decodeHeader_headerPayload name sizeFile named.noNul

def lettersA (count index : Nat) : UInt8 := if index < count then 65 else 0

theorem lettersA_namedBy (count : Nat) (some : 1 ≤ count) (short : count ≤ fileNameLength - 1) :
    NamedBy (lettersA count) (List.replicate count 65) where
  some := by simpa using some
  short := by simpa using short
  bytes index inside := by
    rw [List.length_replicate] at inside
    rw [lettersA, if_pos inside, List.getElem_replicate]
  noNul byte member := by
    rw [List.eq_of_mem_replicate member]
    decide
  ended := by simp [lettersA]

theorem header_carries_short_name :
    HeaderCarries (ymodemTransmit promptPort 1 ⟨Memory.zeroed, fun _ => 0, []⟩ (fun _ => 0)
      (lettersA 8) 2000 Uart.opened).2.uart.log (List.replicate 8 65) 2000 :=
  (header_carries_iff promptPort 1 _ _ _ _ 2000 (lettersA_namedBy 8 (by decide) (by decide))
    (by decide)).mpr (by decide)

/-- A path of 125 letters leaves two places for the size of a full flash. -/
theorem long_name_cuts_size :
    NamedBy (lettersA 125) (List.replicate 125 65) ∧ userFlashSize = 917504 ∧
      ¬HeaderCarries (ymodemTransmit promptPort 1 ⟨Memory.zeroed, fun _ => 0, []⟩ (fun _ => 0)
        (lettersA 125) 917504 Uart.opened).2.uart.log (List.replicate 125 65) 917504 ∧
      decodeHeader (headerPayload (List.replicate 125 65) 917504) =
        some (List.replicate 125 65, 91) := by
  have named := lettersA_namedBy 125 (by decide) (by decide)
  have decoded : decodeHeader (headerPayload (List.replicate 125 65) 917504) =
      some (List.replicate 125 65, 91) := by decide +kernel
  refine ⟨named, by decide, ?_, decoded⟩
  rw [headerCarries_iff_decode promptPort 1 _ _ named 917504 (by decide), decoded]
  decide

end CosmosPC
