import CosmosPC.Foundation.SelfDelimiting
import CosmosPC.Ymodem.Agreement
import CosmosPC.Ymodem.Turns

/-! # The bytes of a session

What a reader can make of the bytes on the cable who knows nothing of the calls
that they went out with, whatever the port took of each write and wherever the
session ended. -/

namespace CosmosPC

open PortEvent

def closingFrame : List UInt8 := encodeFrame soh 0 (List.replicate packetSize 0)

def sessionStream (name image : List UInt8) : List UInt8 :=
  encodeFrame soh 0x00 (headerPayload name image.length) ++ (canonicalFrames image).flatten ++
    ([eot] ++ closingFrame)

/-! ## Reading the bytes -/

def frameLength (start : UInt8) : Option Nat :=
  if start = soh then some (packetSize + packetOverhead)
  else if start = stx then some (packet1kSize + packetOverhead)
  else if start = eot then some 1
  else none

/-- The name and the file that some bytes stand for: those of a session that the
receiver has seen to its end. -/
def decodeSession (bytes : List UInt8) : Option (List UInt8 × List UInt8) :=
  (SelfDelimiting.split frameLength bytes).bind fun frames =>
    (frames.foldlM Receiver.next Receiver.initial).bind fun receiver =>
      (frames.head?.bind fun header => decodeHeader (framePayload header)).bind fun (name, size) =>
        if receiver.phase = .done then some (name, receiver.stored.flatten.take size) else none

def blockFrames (name image : List UInt8) : List (List UInt8) :=
  encodeFrame soh 0x00 (headerPayload name image.length) :: canonicalFrames image

def sessionFrames (name image : List UInt8) : List (List UInt8) :=
  blockFrames name image ++ [[eot], closingFrame]

abbrev Framed (frame : List UInt8) : Prop := SelfDelimiting.Framed frameLength frame

theorem framed_encodeFrame {start : UInt8} {payload : List UInt8} (number : UInt8)
    (length : frameLength start = some (payload.length + packetOverhead)) :
    Framed (encodeFrame start number payload) := by
  refine ⟨start, [number, ~~~number] ++ payload ++ checkBytes payload, rfl, ?_⟩
  rw [length]
  simp [packetOverhead, packetTrailer]

theorem framed_closingFrame : Framed closingFrame :=
  framed_encodeFrame 0 (by rw [List.length_replicate]; rfl)

theorem framed_eot : Framed [eot] := ⟨eot, [], rfl, rfl⟩

theorem framed_canonicalFrame (image : List UInt8) (index : Nat) :
    Framed (canonicalFrame image index) := by
  refine framed_encodeFrame _ ?_
  rw [canonicalPayload, length_payloadOf, blockSize]
  split <;> rfl

theorem framed_blockFrames (name image : List UInt8) :
    ∀ frame ∈ blockFrames name image, Framed frame := by
  intro frame member
  rcases List.mem_cons.mp member with rfl | block
  · exact framed_encodeFrame 0x00 (by rw [length_headerPayload]; rfl)
  · rcases List.mem_map.mp block with ⟨index, _, rfl⟩
    exact framed_canonicalFrame image index

theorem framed_append {frames : List (List UInt8)} (framed : ∀ frame ∈ frames, Framed frame)
    {last : List UInt8} (lastFramed : Framed last) : ∀ frame ∈ frames ++ [last], Framed frame := by
  intro frame member
  rcases List.mem_append.mp member with before | new
  · exact framed frame before
  · rwa [List.mem_singleton.mp new]

theorem sessionFrames_eq (name image : List UInt8) :
    sessionFrames name image = (blockFrames name image ++ [[eot]]) ++ [closingFrame] := by
  simp [sessionFrames]

theorem flatten_sessionFrames (name image : List UInt8) :
    (sessionFrames name image).flatten = sessionStream name image := by
  simp [sessionFrames, blockFrames, sessionStream]

theorem framed_sessionFrames (name image : List UInt8) :
    ∀ frame ∈ sessionFrames name image, Framed frame := by
  rw [sessionFrames_eq]
  exact framed_append (framed_append (framed_blockFrames name image) framed_eot)
    framed_closingFrame

namespace Receiver

theorem wellFormed_encodeFrame {start number : UInt8} {payload : List UInt8} {size : Nat}
    (length : payload.length = size) :
    WellFormed start size number (encodeFrame start number payload) := by
  rw [WellFormed, framePayload_encodeFrame]
  exact ⟨length, rfl⟩

theorem next_canonicalFrame (image : List UInt8) {index : Nat} {stored : List (List UInt8)}
    (within : index < blockCount image.length) (count : stored.length = index) :
    next ⟨.data, stored⟩ (canonicalFrame image index) =
      some ⟨.data, stored ++ [canonicalPayload image index]⟩ := by
  have noEnd : canonicalFrame image index ≠ [eot] :=
    canonicalFrame_ne_eot image _ (List.mem_map_of_mem (List.mem_range.mpr within))
  have payload : framePayload (canonicalFrame image index) = canonicalPayload image index :=
    framePayload_encodeFrame _ _ _
  have right : WellFormed stx packet1kSize (UInt8.ofNat (stored.length + 1))
        (canonicalFrame image index) ∨
      WellFormed soh packetSize (UInt8.ofNat (stored.length + 1)) (canonicalFrame image index) := by
    rw [count, canonicalFrame]
    have length : (canonicalPayload image index).length = blockSize image.length index :=
      length_payloadOf _ _
    rw [blockSize] at length
    split at length
    case isTrue whole =>
        rw [if_pos whole]
        exact Or.inl (wellFormed_encodeFrame length)
    case isFalse rest =>
        rw [if_neg rest]
        exact Or.inr (wellFormed_encodeFrame length)
  simp only [next, accept, if_neg noEnd, if_pos right, payload, Option.map_some]

theorem foldlM_canonicalFrames (image : List UInt8) {count : Nat}
    (within : count ≤ blockCount image.length) :
    ((List.range count).map (canonicalFrame image)).foldlM next ⟨.data, []⟩ =
      some ⟨.data, (List.range count).map (canonicalPayload image)⟩ := by
  induction count with
  | zero => rfl
  | succ count induction =>
      rw [List.range_succ, List.map_append, List.map_append, List.foldlM_append,
        induction (by omega)]
      have last : next ⟨.data, (List.range count).map (canonicalPayload image)⟩
          (canonicalFrame image count) = some ⟨.data, _⟩ :=
        next_canonicalFrame image (Nat.lt_of_succ_le within)
          (by rw [List.length_map, List.length_range])
      simp only [List.map_cons, List.map_nil, List.foldlM_cons, List.foldlM_nil, Option.bind_some,
        Option.bind_eq_bind, last]
      rfl

theorem next_farewell (stored : List (List UInt8)) :
    next ⟨.data, stored⟩ [eot] = some ⟨.closing, stored⟩ := by
  simp [next, accept]

theorem next_closingFrame (stored : List (List UInt8)) :
    next ⟨.closing, stored⟩ closingFrame = some ⟨.done, stored⟩ := by
  simp [next, accept, closingFrame]

theorem foldlM_sessionFrames (name image : List UInt8) :
    (sessionFrames name image).foldlM next initial =
      some ⟨.done, (List.range (blockCount image.length)).map (canonicalPayload image)⟩ := by
  have header : next initial (encodeFrame soh 0x00 (headerPayload name image.length)) =
      some ⟨.data, []⟩ := by
    have right : WellFormed soh packetSize 0
        (encodeFrame soh 0x00 (headerPayload name image.length)) :=
      wellFormed_encodeFrame (length_headerPayload _ _)
    simp only [next, accept, initial, if_pos right, Option.map_some]
  have blocks := foldlM_canonicalFrames image (Nat.le_refl _)
  rw [sessionFrames, blockFrames, List.cons_append, List.foldlM_cons, header, Option.bind_eq_bind,
    Option.bind_some, List.foldlM_append, canonicalFrames, blocks, Option.bind_eq_bind,
    Option.bind_some, List.foldlM_cons, next_farewell, Option.bind_eq_bind, Option.bind_some,
    List.foldlM_cons, next_closingFrame]
  rfl

theorem next_done {receiver : Receiver} (phase : receiver.phase = .done) (frame : List UInt8) :
    next receiver frame = none := by
  simp [next, accept, phase]

theorem phase_foldlM {frames : List (List UInt8)} (noEnd : [eot] ∉ frames)
    {receiver after : Receiver} (phase : receiver.phase = .header ∨ receiver.phase = .data)
    (accepted : frames.foldlM next receiver = some after) :
    after.phase = .header ∨ after.phase = .data := by
  induction frames generalizing receiver with
  | nil =>
      cases accepted
      exact phase
  | cons frame frames induction =>
      rw [List.foldlM_cons] at accepted
      rcases Option.bind_eq_some_iff.mp accepted with ⟨middle, first, rest⟩
      refine induction (fun later => noEnd (List.mem_cons_of_mem _ later)) ?_ rest
      rcases phase with header | data
      · rw [next_header header first]
        exact Or.inr rfl
      · rw [next_data data (fun same => noEnd (same ▸ List.mem_cons_self)) first]
        exact Or.inr data

end Receiver

/-! ## Where the bytes break off -/

theorem eq_sessionFrames {name image : List UInt8} {frames : List (List UInt8)}
    (begins : frames <+: sessionFrames name image) {receiver : Receiver}
    (accepted : frames.foldlM Receiver.next Receiver.initial = some receiver)
    (ended : receiver.phase = .done) : frames = sessionFrames name image := by
  rcases begins with ⟨rest, whole⟩
  have taken := Receiver.foldlM_sessionFrames name image
  rw [← whole, List.foldlM_append, accepted, Option.bind_eq_bind, Option.bind_some] at taken
  cases rest with
  | nil => rw [← whole, List.append_nil]
  | cons frame rest =>
      rw [List.foldlM_cons, Receiver.next_done ended] at taken
      cases taken

theorem eot_notMem_blockFrames (name image : List UInt8) : [eot] ∉ blockFrames name image := by
  intro member
  rcases List.mem_cons.mp member with same | block
  · have lengths := congrArg List.length same
    rw [length_encodeFrame, length_headerPayload] at lengths
    cases lengths
  · exact canonicalFrame_ne_eot image _ block rfl

theorem length_closingFrame : closingFrame.length = packetSize + packetOverhead := by
  rw [closingFrame, length_encodeFrame, List.length_replicate]

theorem closingFrame_eq : closingFrame =
    closingBody ++ ([crcHigh (calCRC16 (List.replicate packetSize 0))] ++
      [crcLow (calCRC16 (List.replicate packetSize 0))]) := by
  have complement : ~~~(0 : UInt8) = 0xFF := by decide
  rw [closingFrame, closingBody, encodeFrame, checkBytes, complement]
  simp only [List.cons_append, List.nil_append]

theorem eot_ne_closingFrame : [eot] ≠ closingFrame := by
  intro same
  have lengths := congrArg List.length same
  rw [length_closingFrame] at lengths
  cases lengths

theorem EndGiven.cases {port : Port} {ending : List (List UInt8)} (given : EndGiven port ending) :
    ending.flatten = [eot] ++ closingFrame ∨
      ∃ frames tail, ending.flatten = frames.flatten ++ tail ∧ ¬port.Taking ∧
        SelfDelimiting.Unfinished frameLength tail ∧
        (frames = [[eot]] ∨ frames = [closingFrame] ∨ frames = []) := by
  rcases given with ⟨farewell, _, rfl, farewellGiven, high, low, rfl, highGiven, lowGiven⟩
  rw [List.flatten_cons, List.flatten_singleton]
  have broken (checks : List UInt8) (few : checks.length < 2) :
      SelfDelimiting.Unfinished frameLength (closingBody ++ checks) := by
    intro first rest same
    have lengths := congrArg List.length same
    rw [closingBody, List.append_assoc, List.cons_append, List.cons.injEq] at same
    rw [← same.1]
    refine ⟨packetSize + packetOverhead - 1, rfl, ?_⟩
    simp [closingBody, packetOverhead, packetTrailer] at lengths ⊢
    omega
  have nothing : SelfDelimiting.Unfinished frameLength [] := fun _ _ same => by cases same
  have one : ([[eot]] : List (List UInt8)).flatten = [eot] := rfl
  rcases farewellGiven with rfl | ⟨rfl, refused⟩
  · rcases highGiven with rfl | ⟨rfl, refused⟩
    · rcases lowGiven with rfl | ⟨rfl, refused⟩
      · exact Or.inl (by rw [closingFrame_eq])
      · exact Or.inr ⟨[[eot]], _, by rw [one], refused, broken _ (by simp), Or.inl rfl⟩
    · refine Or.inr ⟨[[eot]], _, by rw [one], refused, broken _ ?_, Or.inl rfl⟩
      rcases lowGiven with rfl | ⟨rfl, _⟩ <;> simp
  · rcases highGiven with rfl | ⟨rfl, _⟩
    · rcases lowGiven with rfl | ⟨rfl, _⟩
      · refine Or.inr ⟨[closingFrame], [], ?_, refused, nothing, Or.inr (Or.inl rfl)⟩
        rw [← closingFrame_eq, List.flatten_singleton, List.nil_append, List.append_nil]
      · exact Or.inr ⟨[], _, by rw [List.flatten_nil], refused, broken _ (by simp),
          Or.inr (Or.inr rfl)⟩
    · refine Or.inr ⟨[], _, by rw [List.flatten_nil], refused, broken _ ?_, Or.inr (Or.inr rfl)⟩
      rcases lowGiven with rfl | ⟨rfl, _⟩ <;> simp

/-- A reader of any beginning of the bytes who has seen an end has seen all frames. -/
theorem frames_of_part {port : Port} {name image part : List UInt8} {ending : List (List UInt8)}
    (given : EndGiven port ending)
    (begins : part <+: (blockFrames name image ++ ending).flatten) {frames : List (List UInt8)}
    (parted : SelfDelimiting.split frameLength part = some frames) {receiver : Receiver}
    (accepted : frames.foldlM Receiver.next Receiver.initial = some receiver)
    (ended : receiver.phase = .done) : frames = sessionFrames name image := by
  rw [List.flatten_append] at begins
  rcases given.cases with full | ⟨more, tail, partly, _, broken, kinds⟩
  · have nothing : SelfDelimiting.Unfinished frameLength [] := fun _ _ same => by cases same
    have whole : part <+: (sessionFrames name image).flatten ++ [] := by
      rw [full] at begins
      simpa [sessionFrames] using begins
    exact eq_sessionFrames (SelfDelimiting.split_of_prefix (framed_sessionFrames name image)
      nothing whole parted) accepted ended
  · have framed : ∀ frame ∈ blockFrames name image ++ more, Framed frame := by
      rcases kinds with rfl | rfl | rfl
      · exact framed_append (framed_blockFrames name image) framed_eot
      · exact framed_append (framed_blockFrames name image) framed_closingFrame
      · rw [List.append_nil]
        exact framed_blockFrames name image
    rw [partly, ← List.append_assoc, ← List.flatten_append] at begins
    have first := SelfDelimiting.split_of_prefix framed broken begins parted
    by_cases farewell : [eot] ∈ frames
    · -- Then nothing but the closing frame can be missing.
      have more_eq : more = [[eot]] := by
        rcases kinds with rfl | rfl | rfl
        · rfl
        · rcases List.mem_append.mp (first.subset farewell) with block | closing
          · exact absurd block (eot_notMem_blockFrames name image)
          · exact absurd (List.mem_singleton.mp closing) eot_ne_closingFrame
        · rw [List.append_nil] at first
          exact absurd (first.subset farewell) (eot_notMem_blockFrames name image)
      rw [more_eq] at first
      refine eq_sessionFrames (first.trans ?_) accepted ended
      rw [sessionFrames_eq]
      exact List.prefix_append _ _
    · rcases Receiver.phase_foldlM farewell (Or.inl rfl) accepted with header | data
      · cases ended.symm.trans header
      · cases ended.symm.trans data

theorem decodeSession_of_split {name image bytes : List UInt8}
    (noNul : ∀ byte ∈ name, byte ≠ 0)
    (fits : name.length + 1 + (Decimal.text image.length).length ≤ packetSize)
    (parted : SelfDelimiting.split frameLength bytes = some (sessionFrames name image)) :
    decodeSession bytes = some (name, image) := by
  have head : (sessionFrames name image).head? =
      some (encodeFrame soh 0x00 (headerPayload name image.length)) := rfl
  have header := (decodeHeader_headerPayload name image.length noNul).mpr fits
  have joined := take_flatten_payloads image (blockCount image.length) (Nat.le_refl _)
  have beyond := blockStart_lt_iff image.length (blockCount image.length)
  have all : image.take (blockStart image.length (blockCount image.length)) = image :=
    List.take_of_length_le (by omega)
  rw [decodeSession, parted, Option.bind_some, Receiver.foldlM_sessionFrames, Option.bind_some,
    head, Option.bind_some, framePayload_encodeFrame, header, Option.bind_some]
  simp only [if_true, joined, all]

theorem decodeSession_sessionStream {name image : List UInt8} (noNul : ∀ byte ∈ name, byte ≠ 0)
    (fits : name.length + 1 + (Decimal.text image.length).length ≤ packetSize) :
    decodeSession (sessionStream name image) = some (name, image) := by
  refine decodeSession_of_split noNul fits ?_
  rw [← flatten_sessionFrames]
  exact SelfDelimiting.split_flatten (framed_sessionFrames name image)

/-- What is on the cable can be read, and can be read in one way only. Whatever
the port takes, delivers or refuses and wherever the session ends, no beginning of
its bytes stands for anything but the name and the image; a port that takes
something of every write has been given a beginning of the one stream that they
make, and a session that returns zero has given it all of it. -/
theorem sent_bytes_decode (port : Port) (fuel : Nat) (locals : Locals)
    (buf sendFileName : Nat → UInt8) (name : List UInt8) (sizeFile : Nat)
    (named : NamedBy sendFileName name) (small : sizeFile < 10 ^ 9)
    (fits : name.length + 1 + (Decimal.text sizeFile).length ≤ packetSize) :
    let outcome := ymodemTransmit port fuel locals buf sendFileName sizeFile Uart.opened
    let bytes := sentBytes outcome.2.uart.log
    let image := imageOf buf sizeFile
    (∀ part result, part <+: bytes → decodeSession part = some result → result = (name, image)) ∧
      (port.Taking → bytes <+: sessionStream name image ∧
        (outcome.1 = .returned 0 → bytes = sessionStream name image)) ∧
      decodeSession (sessionStream name image) = some (name, image) := by
  intro outcome bytes image
  have size : image.length = sizeFile := length_imageOf buf sizeFile
  rcases transmit_turns port fuel locals buf sendFileName sizeFile Uart.opened_open with
    ⟨ending, given, events, ends, begun, whole⟩
  have log : bytes = sentBytes events := congrArg (fun uart => sentBytes uart.log) ends
  have frames : [headerFrame locals.packetData (copiedName locals sendFileName) sizeFile
      locals.stray] ++ (canonicalFrames image ++ ending) = blockFrames name image ++ ending := by
    rw [headerFrame_eq locals.packetData locals named sizeFile locals.stray small, blockFrames,
      size]
    rfl
  rw [frames] at begun whole
  have begins := begun.sentBytes
  rw [← log] at begins
  rw [← size] at fits
  refine ⟨fun part result beginning decoded => ?_, fun taking => ?_,
    decodeSession_sessionStream named.noNul fits⟩
  · rcases Option.bind_eq_some_iff.mp decoded with ⟨frames, parted, rest⟩
    rcases Option.bind_eq_some_iff.mp rest with ⟨receiver, accepted, last⟩
    rcases Option.bind_eq_some_iff.mp last with ⟨⟨_, _⟩, _, finished⟩
    have ended : receiver.phase = .done := by
      by_contra unfinished
      simp only [if_neg unfinished] at finished
      cases finished
    have all := frames_of_part given (beginning.trans begins) parted accepted ended
    have same := decodeSession_of_split named.noNul fits (all ▸ parted)
    exact Option.some.inj (decoded.symm.trans same)
  · rcases given.cases with full | ⟨_, _, _, refused, _⟩
    · have everything : (blockFrames name image ++ ending).flatten = sessionStream name image := by
        rw [List.flatten_append, full, sessionStream, blockFrames, List.flatten_cons]
      rw [everything] at begins
      refine ⟨begins, fun success => ?_⟩
      rw [log, (whole success).sentBytes, everything]
    · exact absurd taking refused

theorem promptPort_taking : promptPort.Taking := by
  intro log requested some
  exact List.length_pos_iff.mpr some

theorem sent_bytes_decode_prompt :
    ∃ bytes, bytes = sentBytes (ymodemTransmit promptPort 1 ⟨Memory.zeroed, fun _ => 0, []⟩
        (fun _ => 7) (lettersA 8) 5 Uart.opened).2.uart.log ∧
      bytes = sessionStream (List.replicate 8 65) (imageOf (fun _ => 7) 5) ∧
      decodeSession bytes = some (List.replicate 8 65, imageOf (fun _ => 7) 5) := by
  rcases sent_bytes_decode promptPort 1 ⟨Memory.zeroed, fun _ => 0, []⟩ (fun _ => 7) (lettersA 8)
    (List.replicate 8 65) 5 (lettersA_namedBy 8 (by decide) (by decide)) (by decide)
    (by decide) with ⟨_, taking, decoded⟩
  have success := (transmit_returns_zero_iff promptPort promptPort_answering 0
    ⟨Memory.zeroed, fun _ => 0, []⟩ (fun _ => 7) (lettersA 8) 5).mpr (by decide)
  have all := (taking promptPort_taking).2 success
  exact ⟨_, rfl, all, all ▸ decoded⟩

end CosmosPC
