import CosmosPC.Ymodem.Answering

/-! # Which images can be sent

`doUpdate` compares the length of an image with the flash, `Ymodem_Transmit`
compares the number of its blocks with the kilobytes of flash. Short blocks make
the second comparison the stricter one. -/

namespace CosmosPC

/-- The one check that `doUpdate` makes before it sends an image. -/
def doUpdateAdmits (imageLen : Nat) : Bool := !decide (imageLen > userFlashSize)

def carriedImage (log : List PortEvent) (sizeFile : Nat) : List UInt8 :=
  ((dataFrames log).map framePayload).flatten.take sizeFile

/-- The counter stops at the 896th block, although a kilobyte that is not whole
takes up to eight blocks. -/
theorem transmit_sends_image_iff (port : Port) (answering : Answering port) (fuel : Nat)
    (locals : Locals) (buf sendFileName : Nat → UInt8) (sizeFile : Nat)
    (_admitted : doUpdateAdmits sizeFile = true) :
    let outcome := ymodemTransmit port (fuel + 1) locals buf sendFileName sizeFile Uart.opened
    (outcome.1 = .returned 0 ∧ carriedImage outcome.2.uart.log sizeFile = imageOf buf sizeFile) ↔
      sizeFile / 1024 + (sizeFile % 1024 + 127) / 128 ≤ userFlashSize / 1024 := by
  intro outcome
  have returns := transmit_returns_zero_iff port answering fuel locals buf sendFileName sizeFile
  refine ⟨fun sent => returns.mp sent.1, fun few => ⟨returns.mpr few, ?_⟩⟩
  rcases transmit_history port (fuel + 1) locals buf sendFileName sizeFile Uart.opened
    Uart.opened_open with ⟨events, ends, _, finished⟩
  have complete := (finished (returns.mpr few)).1
  have log : outcome.2.uart.log = events := by
    rw [ends]
    simp [Uart.opened]
  have payloads := payloads_of_prefix (imageOf buf sizeFile) _ List.prefix_rfl
  have beyond := blockStart_lt_iff sizeFile (blockCount sizeFile)
  rw [carriedImage, log, complete]
  rw [length_imageOf] at payloads
  rw [payloads]
  apply List.take_of_length_le
  simp only [canonicalFrames, List.length_map, List.length_range, length_imageOf]
  omega

/-- 895 whole kilobytes and 129 bytes are 897 blocks, and 895 bytes less than
the flash holds. -/
theorem transmit_gives_up_within_flash :
    Answering promptPort ∧ doUpdateAdmits (895 * 1024 + 129) = true ∧
      (ymodemTransmit promptPort 1 ⟨Memory.zeroed, fun _ => 0, []⟩ (fun _ => 0) (fun _ => 0)
        (895 * 1024 + 129) Uart.opened).1 ≠ .returned 0 := by
  refine ⟨promptPort_answering, by decide, fun zero => ?_⟩
  have few := (transmit_returns_zero_iff promptPort promptPort_answering 0 _ _ _ _).mp zero
  exact absurd few (by decide)

theorem transmit_sends_image_iff_prompt :
    let outcome := ymodemTransmit promptPort (0 + 1) ⟨Memory.zeroed, fun _ => 0, []⟩ (fun _ => 7)
      (fun _ => 0) 2000 Uart.opened
    (outcome.1 = .returned 0 ∧
        carriedImage outcome.2.uart.log 2000 = imageOf (fun _ => 7) 2000) ↔
      2000 / 1024 + (2000 % 1024 + 127) / 128 ≤ userFlashSize / 1024 :=
  transmit_sends_image_iff promptPort promptPort_answering 0 ⟨Memory.zeroed, fun _ => 0, []⟩
    (fun _ => 7) (fun _ => 0) 2000 (by decide)

end CosmosPC
