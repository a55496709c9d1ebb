import CosmosPC.Foundation.Slices
import CosmosPC.Ymodem.Rounds

/-! # The frames of an image

What the data frames of a session say, as a function of the image alone: 1 KiB
blocks while a whole one is left, then blocks of 128 bytes, the last one padded.
`sendBlocks` is shown to send these frames in this order. -/

namespace CosmosPC

def imageOf (buf : Nat → UInt8) (sizeFile : Nat) : List UInt8 := (List.range sizeFile).map buf

@[simp] theorem length_imageOf (buf : Nat → UInt8) (sizeFile : Nat) :
    (imageOf buf sizeFile).length = sizeFile := by
  simp [imageOf]

def blockStart (sizeFile index : Nat) : Nat :=
  packet1kSize * min index (sizeFile / packet1kSize) +
    packetSize * (index - sizeFile / packet1kSize)

def blockSize (sizeFile index : Nat) : Nat :=
  if index < sizeFile / packet1kSize then packet1kSize else packetSize

def blockCount (sizeFile : Nat) : Nat :=
  sizeFile / packet1kSize + (sizeFile % packet1kSize + (packetSize - 1)) / packetSize

def canonicalPayload (image : List UInt8) (index : Nat) : List UInt8 :=
  payloadOf (image.drop (blockStart image.length index)) (blockSize image.length index)

def canonicalFrame (image : List UInt8) (index : Nat) : List UInt8 :=
  encodeFrame (if index < image.length / packet1kSize then stx else soh)
    (UInt8.ofNat (index + 1)) (canonicalPayload image index)

def canonicalFrames (image : List UInt8) : List (List UInt8) :=
  (List.range (blockCount image.length)).map (canonicalFrame image)

/-! ## Where blocks begin -/

theorem blockStart_zero (sizeFile : Nat) : blockStart sizeFile 0 = 0 := by
  simp [blockStart]

theorem blockStart_succ (sizeFile index : Nat) :
    blockStart sizeFile (index + 1) = blockStart sizeFile index + blockSize sizeFile index := by
  unfold blockStart blockSize
  by_cases whole : index < sizeFile / packet1kSize
  · rw [if_pos whole]
    simp only [packet1kSize, packetSize] at whole ⊢
    omega
  · rw [if_neg whole]
    simp only [packet1kSize, packetSize] at whole ⊢
    omega

theorem blockStart_lt_iff (sizeFile index : Nat) :
    blockStart sizeFile index < sizeFile ↔ index < blockCount sizeFile := by
  unfold blockStart blockCount
  simp only [packet1kSize, packetSize]
  omega

theorem remaining_ge_iff (sizeFile index : Nat) (within : index < blockCount sizeFile) :
    sizeFile - blockStart sizeFile index ≥ packet1kSize ↔ index < sizeFile / packet1kSize := by
  unfold blockCount at within
  unfold blockStart
  simp only [packet1kSize, packetSize] at within ⊢
  omega

theorem payloadSize_remaining (sizeFile index : Nat) (within : index < blockCount sizeFile) :
    payloadSize (sizeFile - blockStart sizeFile index) = blockSize sizeFile index := by
  simp only [payloadSize, blockSize, remaining_ge_iff sizeFile index within]

theorem startByte_remaining (sizeFile index : Nat) (within : index < blockCount sizeFile) :
    startByte (sizeFile - blockStart sizeFile index) =
      if index < sizeFile / packet1kSize then stx else soh := by
  simp only [startByte, remaining_ge_iff sizeFile index within]

theorem blockStart_succ_le (sizeFile index : Nat) (earlier : index + 1 < blockCount sizeFile) :
    blockStart sizeFile (index + 1) ≤ sizeFile :=
  Nat.le_of_lt ((blockStart_lt_iff sizeFile (index + 1)).mpr earlier)

/-! ## Payloads -/

theorem canonicalPayload_eq_slice (image : List UInt8) (index : Nat)
    (earlier : index + 1 < blockCount image.length) :
    canonicalPayload image index = Slices.slice image (blockStart image.length) index := by
  have within := blockStart_succ_le image.length index earlier
  rw [blockStart_succ] at within
  have full : (image.drop (blockStart image.length index)).length ≥
      blockSize image.length index := by
    rw [List.length_drop]
    omega
  simp only [canonicalPayload, payloadOf, Slices.slice, blockStart_succ, List.rightpad,
    Nat.add_sub_cancel_left, List.length_take, Nat.min_eq_left full, Nat.sub_self,
    List.replicate_zero, List.append_nil]

theorem take_flatten_payloads (image : List UInt8) (count : Nat)
    (within : count ≤ blockCount image.length) :
    ((List.range count).map (canonicalPayload image)).flatten.take image.length =
      image.take (blockStart image.length count) := by
  cases count with
  | zero => simp [blockStart_zero]
  | succ count =>
      let start := blockStart image.length
      have slices : (List.range count).map (canonicalPayload image) =
          (List.range count).map (Slices.slice image start) := by
        apply List.map_congr_left
        intro index member
        have earlier := List.mem_range.mp member
        exact canonicalPayload_eq_slice image index (by omega)
      have last : canonicalPayload image count = Slices.slice image start count ++
          List.replicate (blockSize image.length count -
            (Slices.slice image start count).length) padding := by
        simp [canonicalPayload, payloadOf, Slices.slice, start, blockStart_succ, List.rightpad]
      have grows : ∀ index, start index ≤ start (index + 1) := by
        intro index
        simp [start, blockStart_succ]
      have joined := Slices.flatten_slices image start (blockStart_zero _) grows (count + 1)
      rw [List.range_succ, List.map_append, List.flatten_append] at joined ⊢
      simp only [List.map_cons, List.map_nil, List.flatten_cons, List.flatten_nil,
        List.append_nil] at joined ⊢
      rw [slices, last, ← List.append_assoc, joined]
      change _ = image.take (start (count + 1))
      by_cases inside : start (count + 1) ≤ image.length
      · have full := Slices.length_slice image start count inside
        have exact : blockSize image.length count -
            (Slices.slice image start count).length = 0 := by
          rw [full]
          simp [start, blockStart_succ]
        rw [exact]
        simp [List.take_take, inside]
      · have beyond : image.take (start (count + 1)) = image :=
          List.take_of_length_le (by omega)
        rw [beyond]
        exact List.take_left' rfl

theorem canonicalFrames_take (image : List UInt8) (count : Nat)
    (within : count ≤ blockCount image.length) :
    (canonicalFrames image).take count = (List.range count).map (canonicalFrame image) := by
  rw [canonicalFrames, ← List.map_take, List.take_range, Nat.min_eq_left within]

theorem payloads_of_prefix (image : List UInt8) (frames : List (List UInt8))
    (first : frames <+: canonicalFrames image) :
    (frames.map framePayload).flatten.take image.length =
      image.take (blockStart image.length frames.length) := by
  have within : frames.length ≤ blockCount image.length := by
    simpa [canonicalFrames] using first.length_le
  rw [List.prefix_iff_eq_take.mp first, List.length_take, canonicalFrames_take _ _ within,
    List.map_map, Nat.min_eq_left first.length_le,
    ← take_flatten_payloads image frames.length within]
  congr 3
  funext index
  simp [canonicalFrame]

/-! ## The loop sends the canonical frames -/

theorem drop_canonicalFrames (image : List UInt8) (index : Nat)
    (within : index < blockCount image.length) :
    (canonicalFrames image).drop index =
      canonicalFrame image index :: (canonicalFrames image).drop (index + 1) := by
  have bound : index < (canonicalFrames image).length := by simpa [canonicalFrames] using within
  rw [List.drop_eq_getElem_cons bound]
  simp [canonicalFrames]

theorem drop_canonicalFrames_nil (image : List UInt8) (index : Nat)
    (beyond : blockCount image.length ≤ index) : (canonicalFrames image).drop index = [] := by
  simpa [canonicalFrames] using beyond

theorem block_frame (buf : Nat → UInt8) (data : Memory) (sizeFile index : Nat)
    (within : index < blockCount sizeFile) :
    (storeCheckBytes
        (ymodemPreparePacket (fun offset => buf (blockStart sizeFile index + offset)) data
          (UInt8.ofNat (index + 1)) (sizeFile - blockStart sizeFile index))
        (blockSize sizeFile index)).bytes 0 (blockSize sizeFile index + packetOverhead) =
      canonicalFrame (imageOf buf sizeFile) index := by
  have frame := preparePacket_frame (fun offset => buf (blockStart sizeFile index + offset))
    data (UInt8.ofNat (index + 1)) (sizeFile - blockStart sizeFile index)
  rw [payloadSize_remaining sizeFile index within,
    startByte_remaining sizeFile index within] at frame
  rw [frame, canonicalFrame, canonicalPayload, length_imageOf, imageOf, Slices.drop_map_range]

theorem sendBlock_round (port : Port) (fuel : Nat) (buf : Nat → UInt8) (sizeFile index : Nat)
    (sending : Sending) (isOpen : sending.uart.Open) (within : index < blockCount sizeFile) :
    let frame := canonicalFrame (imageOf buf sizeFile) index
    let outcome := sendBlock port fuel buf (blockStart sizeFile index)
      (sizeFile - blockStart sizeFile index) (index + 1) sending
    ∃ events, outcome.2.uart = sending.uart.after events ∧ dataFrames events = [frame] ∧
      (outcome.1 = .next → Round frame events) ∧
      ∀ value, outcome.1 = .returned value → value = 0xFF := by
  intro frame outcome
  have laidOut := block_frame buf sending.packetData sizeFile index within
  have small : blockSize sizeFile index + packetOverhead < 2 ^ 16 := by
    unfold blockSize
    split <;> decide
  rcases sendPacketAndWait_round port fuel .data (blockSize sizeFile index + packetOverhead)
      { sending with
        packetData := storeCheckBytes
          (ymodemPreparePacket (fun offset => buf (blockStart sizeFile index + offset))
            sending.packetData (UInt8.ofNat (index + 1)) (sizeFile - blockStart sizeFile index))
          (blockSize sizeFile index) } isOpen small with
    ⟨events, ends, quiet, answered, failed⟩
  simp only [laidOut] at ends answered
  have same : outcome = sendPacketAndWait port fuel .data
      (blockSize sizeFile index + packetOverhead)
      { sending with
        packetData := storeCheckBytes
          (ymodemPreparePacket (fun offset => buf (blockStart sizeFile index + offset))
            sending.packetData (UInt8.ofNat (index + 1)) (sizeFile - blockStart sizeFile index))
          (blockSize sizeFile index) } := by
    simp only [outcome, sendBlock, payloadSize_remaining sizeFile index within]
    rfl
  rw [same]
  exact ⟨_, ends, congrArg (frame :: ·) quiet, answered, failed⟩

theorem sendBlocks_finished (port : Port) (fuel : Nat) (buf : Nat → UInt8)
    (sizeFile index blkNumber : Nat) (sending : Sending)
    (beyond : blockCount sizeFile ≤ index) :
    sendBlocks port fuel buf (blockStart sizeFile index)
      (sizeFile - blockStart sizeFile index) blkNumber sending = (.next, sending) := by
  have position := blockStart_lt_iff sizeFile index
  rw [sendBlocks, if_pos (by omega)]

theorem sendBlocks_within (port : Port) (fuel : Nat) (buf : Nat → UInt8)
    (sizeFile index : Nat) (sending : Sending) (within : index < blockCount sizeFile)
    (counted : index < userFlashSize / 1024) :
    sendBlocks port fuel buf (blockStart sizeFile index)
        (sizeFile - blockStart sizeFile index) (index + 1) sending =
      match sendBlock port fuel buf (blockStart sizeFile index)
        (sizeFile - blockStart sizeFile index) (index + 1) sending with
      | (.next, sending) =>
          if index + 1 < blockCount sizeFile then
            if index + 1 = userFlashSize / 1024 then (.returned 0xFF, sending)
            else
              sendBlocks port fuel buf (blockStart sizeFile (index + 1))
                (sizeFile - blockStart sizeFile (index + 1)) (index + 1 + 1) sending
          else (.next, sending)
      | left => left := by
  have position := (blockStart_lt_iff sizeFile index).mpr within
  have further : sizeFile - blockStart sizeFile index > blockSize sizeFile index ↔
      index + 1 < blockCount sizeFile := by
    rw [← blockStart_lt_iff, blockStart_succ]
    omega
  have number : (index + 1 + 1) % 2 ^ 16 = index + 1 + 1 := by
    simp only [userFlashSize] at counted
    omega
  rw [sendBlocks, if_neg (by omega), payloadSize_remaining sizeFile index within, number,
    Nat.sub_sub, ← blockStart_succ]
  rcases sendBlock port fuel buf (blockStart sizeFile index) (sizeFile - blockStart sizeFile index)
    (index + 1) sending with ⟨flow, left⟩
  cases flow with
  | next => exact ite_congr (propext further) (fun _ => rfl) fun _ => rfl
  | running => rfl
  | returned _ => rfl

/-- The loop from block `index` on: whatever the receiver does, the data frames
are the next canonical ones; when it ends well, they have all been answered. -/
theorem sendBlocks_frames (port : Port) (fuel : Nat) (buf : Nat → UInt8) (sizeFile index : Nat)
    (sending : Sending) (isOpen : sending.uart.Open) (counted : index < userFlashSize / 1024) :
    let frames := (canonicalFrames (imageOf buf sizeFile)).drop index
    let outcome := sendBlocks port fuel buf (blockStart sizeFile index)
      (sizeFile - blockStart sizeFile index) (index + 1) sending
    ∃ events, outcome.2.uart = sending.uart.after events ∧
      dataFrames events <+: frames ∧
      (outcome.1 = .next → Rounds frames events ∧ dataFrames events = frames) ∧
      ∀ value, outcome.1 = .returned value → value = 0xFF := by
  generalize left_eq : blockCount sizeFile - index = left
  induction left generalizing index sending with
  | zero =>
      dsimp only
      rw [sendBlocks_finished _ _ _ _ _ _ _ (by omega),
        drop_canonicalFrames_nil _ index (by rw [length_imageOf]; omega)]
      exact ⟨[], by simp, by simp [dataFrames], by simp [Rounds.nil, dataFrames], by simp⟩
  | succ left induction =>
      dsimp only
      have within : index < blockCount sizeFile := by omega
      rw [sendBlocks_within port fuel buf sizeFile index sending within counted,
        drop_canonicalFrames _ index (by rwa [length_imageOf])]
      rcases sendBlock_round port fuel buf sizeFile index sending isOpen within with
        ⟨events, ends, sent, answered, failed⟩
      generalize sendBlock port fuel buf (blockStart sizeFile index)
        (sizeFile - blockStart sizeFile index) (index + 1) sending = outcome
        at ends answered failed ⊢
      rcases outcome with ⟨flow, result⟩
      have stillOpen : result.uart.Open := by
        rw [ends]
        exact isOpen.after events
      have first : dataFrames events <+: canonicalFrame (imageOf buf sizeFile) index ::
          (canonicalFrames (imageOf buf sizeFile)).drop (index + 1) := by
        rw [sent]
        exact ⟨_, rfl⟩
      cases flow with
      | running => exact ⟨events, ends, first, by simp, by simp⟩
      | returned value => exact ⟨events, ends, first, by simp, failed⟩
      | next =>
          dsimp only
          by_cases more : index + 1 < blockCount sizeFile
          · rw [if_pos more]
            by_cases limit : index + 1 = userFlashSize / 1024
            · rw [if_pos limit]
              exact ⟨events, ends, first, by simp, by simp⟩
            · rw [if_neg limit]
              rcases induction (index + 1) result stillOpen (by omega) (by omega) with
                ⟨rest, moreEnds, moreSent, moreAnswered, moreFailed⟩
              refine ⟨events ++ rest, ?_, ?_, ?_, moreFailed⟩
              · rw [moreEnds, ends, Uart.after_after]
              · rw [dataFrames_append, sent]
                exact (List.prefix_append_right_inj _).mpr moreSent
              · intro success
                rcases moreAnswered success with ⟨rounds, complete⟩
                exact ⟨Rounds.cons (answered rfl) rounds, by simp [sent, complete]⟩
          · rw [if_neg more, drop_canonicalFrames_nil _ (index + 1) (by rw [length_imageOf]; omega)]
            exact ⟨events, ends, by simp [sent], fun _ => ⟨(answered rfl).single, sent⟩, by simp⟩

end CosmosPC
