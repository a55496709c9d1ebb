import CosmosPC.Parser.Alignment
import CosmosPC.Sync.ReadCommProc

/-! # The parser as a thread

`doParseFile` in the steps between which other threads may run: the header with
the lines of the summary, then one turn of the body loop after the other. Each
step reads the file as it is by then. As long as nobody changes the file, a
thread that has returned has done what `doParseFile` does in one go. -/

namespace CosmosPC

abbrev Dests := Text → Option (List Text)

/-- Where a thread of `doParseFile` is: before it opens the file, with what is in
`buffer` by then, or so far into the file. -/
inductive ParserPlace
  | opening (buffer : List UInt8)
  | body (name : Text) (mode : Char) (offset : Nat) (buffer : List UInt8)
  | closed

section Names

theorem formatD_underscore (number : Int) : '_' ∉ formatD number := by
  have digits : '_' ∉ Nat.toDigits 10 number.natAbs := Nat.underscore_not_in_toDigits
  unfold formatD
  split <;> simp [digits]

theorem formatD_nat (i : Nat) : formatD i = Nat.toDigits 10 i := by
  rw [formatD, if_neg (by omega), Int.natAbs_natCast]

theorem destName_inj {readers : StorageReaders} {i j : Nat} {head other : List UInt8}
    (same : destName readers i head = destName readers j other) : i = j := by
  unfold destName at same
  have texts := List.append_cancel_right same
  rw [List.append_assoc, List.append_assoc, List.singleton_append, List.singleton_append] at texts
  have parts := (List.append_cons_inj_of_notMem (formatD_underscore _)
    (formatD_underscore _)).mp texts
  have digits : Nat.toDigits 10 i = Nat.toDigits 10 j := by
    rw [← formatD_nat, ← formatD_nat]
    exact parts.2.2
  rw [← Nat.ofDigitChars_ten_toDigits (n := i), digits, Nat.ofDigitChars_ten_toDigits]

end Names

section Steps

variable (sizes : StorageSizes) (readers : StorageReaders) (i : Nat)

def parserOpens (file buffer : List UInt8) (dests : Dests) : ParserPlace × Dests :=
  let (w, buffer, _) := readFile sizes.head buffer file
  if w < sizes.head then (.closed, dests)
  else
    let head := buffer.take sizes.head
    let name := destName readers i head
    (.body name (modeLetter readers head) w buffer,
      Function.update dests name (some [selectLine readers i head, insertLine readers i head]))

def parserTurns (name : Text) (mode : Char) (offset : Nat) (buffer file : List UInt8)
    (dests : Dests) : ParserPlace × Dests :=
  match file with
  | [] => (.closed, dests)
  | tag :: rest =>
      let turn := bodySwitch sizes readers i mode tag (tag :: buffer.drop 1) rest
      (if turn.w = 0 then .closed
        else .body name mode (offset + (rest.length + 1 - turn.file.length)) turn.buffer,
        Function.update dests name (some ((dests name).getD [] ++ turn.line.toList)))

def parserAdvance (disk : Disk) (dests : Dests) : ParserPlace → Option (ParserPlace × Dests)
  | .opening buffer =>
      match disk i with
      | none => some (.closed, dests)
      | some file => some (parserOpens sizes readers i file buffer dests)
  | .body name mode offset buffer =>
      some (parserTurns sizes readers i name mode offset buffer
        (((disk i).getD []).drop offset) dests)
  | .closed => none

inductive Parsing (file : List UInt8) (dests : Dests) : ParserPlace → Prop
  | opening (buffer : List UInt8) : Parsing file dests (.opening buffer)
  | body {first buffer : List UInt8} {mode : Char} {offset : Nat} {parsed : Parsed}
      {written : List Text} (result : doParseFile sizes readers i first file = some parsed)
      (inside : offset ≤ file.length) (wrote : dests parsed.name = some written)
      (whole : written ++ bodyLoop sizes readers i mode buffer (file.drop offset) =
        parsed.lines) : Parsing file dests (.body parsed.name mode offset buffer)
  | refused (short : file.length < sizes.head) : Parsing file dests .closed
  | finished {first : List UInt8} {parsed : Parsed}
      (result : doParseFile sizes readers i first file = some parsed)
      (wrote : dests parsed.name = some parsed.lines) : Parsing file dests .closed

def parserCost (file : List UInt8) : ParserPlace → Nat
  | .opening _ => file.length + 2
  | .body _ _ offset _ => file.length - offset + 1
  | .closed => 0

variable {sizes readers i} {disk : Disk} {file : List UInt8} {dests : Dests} {place : ParserPlace}

theorem doParseFile_full {buffer : List UInt8} {parsed : Parsed}
    (result : doParseFile sizes readers i buffer file = some parsed) :
    sizes.head ≤ file.length := by
  by_contra short
  have count : (file.take sizes.head).length < sizes.head := by
    rw [List.length_take]
    omega
  simp only [doParseFile, readFile, count, if_true] at result
  cases result

theorem doParseFile_name {buffer : List UInt8} {parsed : Parsed}
    (result : doParseFile sizes readers i buffer file = some parsed) :
    parsed.name = destName readers i (file.take sizes.head) := by
  rw [doParseFile_eq sizes readers i buffer (doParseFile_full result)] at result
  cases result
  rfl

theorem bodySwitch_drop (mode : Char) (tag : UInt8) (buffer file : List UInt8) :
    ∃ count, (bodySwitch sizes readers i mode tag buffer file).file = file.drop count := by
  cases known : sizes.ofTag tag with
  | none => exact ⟨0, by rw [bodySwitch_filler sizes readers i mode known, List.drop_zero]⟩
  | some size => exact ⟨size, (bodySwitch_reads sizes readers i mode known 0 buffer file).file⟩

theorem parserOpens_eq (buffer : List UInt8) (dests : Dests) (full : sizes.head ≤ file.length) :
    parserOpens sizes readers i file buffer dests =
      (.body (destName readers i (file.take sizes.head))
          (modeLetter readers (file.take sizes.head)) sizes.head
          (file.take sizes.head ++ buffer.drop sizes.head),
        Function.update dests (destName readers i (file.take sizes.head))
          (some [selectLine readers i (file.take sizes.head),
            insertLine readers i (file.take sizes.head)])) := by
  have count : (file.take sizes.head).length = sizes.head := List.length_take_of_le full
  have data (rest : List UInt8) : (file.take sizes.head ++ rest).take sizes.head =
      file.take sizes.head := List.take_left' count
  simp only [parserOpens, readFile, count, Nat.lt_irrefl, if_false, data]

theorem parserOpens_short (buffer : List UInt8) (dests : Dests)
    (short : file.length < sizes.head) :
    parserOpens sizes readers i file buffer dests = (.closed, dests) := by
  have count : (file.take sizes.head).length < sizes.head := by
    rw [List.length_take]
    omega
  simp only [parserOpens, readFile, count, if_true]

/-- What a step leaves behind: the thread is further on, and no other
destination has changed. -/
structure ParserStepped (sizes : StorageSizes) (readers : StorageReaders) (i : Nat)
    (file : List UInt8) (dests : Dests) (place : ParserPlace) (next : ParserPlace × Dests) :
    Prop where
  parsing : Parsing sizes readers i file next.2 next.1
  others : ∀ name, name ≠ destName readers i (file.take sizes.head) → next.2 name = dests name
  paid : parserCost file next.1 + 1 ≤ parserCost file place

theorem parserOpens_stepped (buffer : List UInt8) :
    ParserStepped sizes readers i file dests (.opening buffer)
      (parserOpens sizes readers i file buffer dests) := by
  rcases Nat.lt_or_ge file.length sizes.head with short | full
  · rw [parserOpens_short buffer dests short]
    exact ⟨.refused short, fun _ _ => rfl, by simp [parserCost]⟩
  · rw [parserOpens_eq buffer dests full]
    refine ⟨?_, fun name other => Function.update_of_ne other _ _, ?_⟩
    · have result := doParseFile_eq sizes readers i buffer full
      rw [bodyReadings, ← bodyLoop_eq] at result
      exact .body result full (Function.update_self ..) rfl
    · simp only [parserCost]
      omega

theorem parserTurns_stepped {first buffer : List UInt8} {mode : Char} {offset : Nat}
    {parsed : Parsed} {written : List Text}
    (result : doParseFile sizes readers i first file = some parsed)
    (inside : offset ≤ file.length) (wrote : dests parsed.name = some written)
    (whole : written ++ bodyLoop sizes readers i mode buffer (file.drop offset) = parsed.lines) :
    ParserStepped sizes readers i file dests (.body parsed.name mode offset buffer)
      (parserTurns sizes readers i parsed.name mode offset buffer (file.drop offset) dests) := by
  rcases left : file.drop offset with _ | ⟨tag, rest⟩
  · refine ⟨.finished result ?_, fun _ _ => rfl, Nat.le_add_left _ _⟩
    rw [left, bodyLoop_nil, List.append_nil] at whole
    rw [← whole]
    exact wrote
  · have suffix : ∃ count, (bodySwitch sizes readers i mode tag (tag :: buffer.drop 1) rest).file =
        rest.drop count := bodySwitch_drop mode tag _ rest
    rcases suffix with ⟨count, dropped⟩
    have length : rest.length + 1 = file.length - offset := by
      rw [← List.length_cons, ← left, List.length_drop]
    rw [left, bodyLoop] at whole
    rw [parserTurns, wrote]
    simp only [Option.getD_some]
    generalize turned : bodySwitch sizes readers i mode tag (tag :: buffer.drop 1) rest = turn at *
    have shorter : turn.file.length = rest.length - count := by
      rw [dropped, List.length_drop]
    refine ⟨?_, fun name other => ?_, ?_⟩
    · by_cases stops : turn.w = 0
      · rw [if_pos stops, List.append_nil] at whole
        rw [if_pos stops, whole]
        exact .finished result (Function.update_self ..)
      · rw [if_neg stops, ← List.append_assoc] at whole
        rw [if_neg stops]
        refine .body result (by omega) (Function.update_self ..) ?_
        -- The offset moves by as much as the turn has taken.
        have ends : file.drop (offset + (rest.length + 1 - turn.file.length)) = turn.file := by
          rw [← List.drop_drop, left, dropped, List.length_drop]
          rcases Nat.le_total count rest.length with some | all
          · have moved : rest.length + 1 - (rest.length - count) = count + 1 := by omega
            rw [moved, List.drop_succ_cons]
          · have moved : rest.length + 1 - (rest.length - count) = rest.length + 1 := by omega
            rw [moved, List.drop_succ_cons, List.drop_length, List.drop_eq_nil_of_le all]
        rw [ends]
        exact whole
    · rw [← doParseFile_name result] at other
      exact Function.update_of_ne other _ _
    · split
      · exact Nat.le_add_left _ _
      · simp only [parserCost]
        omega

theorem Parsing.step (parsing : Parsing sizes readers i file dests place)
    (onDisk : disk i = some file) {next : ParserPlace × Dests}
    (taken : parserAdvance sizes readers i disk dests place = some next) :
    ParserStepped sizes readers i file dests place next := by
  cases parsing with
  | opening buffer =>
      rw [parserAdvance, onDisk] at taken
      cases taken
      exact parserOpens_stepped buffer
  | body result inside wrote whole =>
      rw [parserAdvance, onDisk] at taken
      cases taken
      exact parserTurns_stepped result inside wrote whole
  | refused => cases taken
  | finished => cases taken

theorem Parsing.frame {after : Dests} (parsing : Parsing sizes readers i file dests place)
    (same : after (destName readers i (file.take sizes.head)) =
      dests (destName readers i (file.take sizes.head))) :
    Parsing sizes readers i file after place := by
  cases parsing with
  | opening buffer => exact .opening buffer
  | body result inside wrote whole =>
      rw [← doParseFile_name result] at same
      exact .body result inside (same.trans wrote) whole
  | refused short => exact .refused short
  | finished result wrote =>
      rw [← doParseFile_name result] at same
      exact .finished result (same.trans wrote)

theorem parserAdvance_exists (goesOn : place ≠ .closed) :
    ∃ next, parserAdvance sizes readers i disk dests place = some next := by
  cases place with
  | opening buffer =>
      cases onDisk : disk i with
      | none => exact ⟨(.closed, dests), by rw [parserAdvance, onDisk]⟩
      | some file =>
          exact ⟨parserOpens sizes readers i file buffer dests, by rw [parserAdvance, onDisk]⟩
  | body name mode offset buffer => exact ⟨_, rfl⟩
  | closed => exact absurd rfl goesOn

def logLines (readers : StorageReaders) (i : Nat) (log : Log sizes) : List Text :=
  selectLine readers i log.head :: insertLine readers i log.head ::
    (log.positions readers).map fun position =>
      gpsLine i (modeLetter readers log.head) position.1 position.2

theorem Log.take_bytes (log : Log sizes) : log.bytes.take sizes.head = log.head :=
  List.take_left' log.full

theorem Log.head_le (log : Log sizes) : sizes.head ≤ log.bytes.length := by
  rw [Log.bytes, List.length_append, log.full]
  exact Nat.le_add_right ..

/-- A thread that has returned has written the lines of the log. -/
theorem Parsing.log {log : Log sizes} (parsing : Parsing sizes readers i log.bytes dests .closed) :
    dests (destName readers i log.head) = some (logLines readers i log) := by
  cases parsing with
  | refused short => exact absurd short (Nat.not_lt.mpr log.head_le)
  | @finished first parsed result wrote =>
      have body : log.bytes.drop sizes.head = log.items.flatMap Item.bytes :=
        List.drop_left' log.full
      rw [doParseFile_eq sizes readers i first log.head_le, bodyReadings, body, readings_items,
        log.take_bytes] at result
      cases result
      exact wrote

end Steps

end CosmosPC
