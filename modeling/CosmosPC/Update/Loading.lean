import CosmosPC.Update.DoUpdate

/-! # The image in memory

However `ReadFile` cuts the file into pieces, the loop of `doUpdate` either
comes to the end with the bytes of the file in `Image_data`, or it gives up. -/

namespace CosmosPC

inductive BinFile.ReadsOn (file : BinFile) : (offset : Nat) → Prop
  | done {offset : Nat} (all : file.bytes.length ≤ offset) : ReadsOn file offset
  | piece {offset : Nat} {piece : List UInt8}
      (read : file.readFile offset (file.bytes.length - offset) = some piece)
      (some : piece ≠ []) (more : ReadsOn file (offset + piece.length)) : ReadsOn file offset

variable {file : BinFile}

theorem BinFile.ReadsOn.after {offset : Nat} {piece : List UInt8} (readsOn : file.ReadsOn offset)
    (unread : offset < file.bytes.length)
    (read : file.readFile offset (file.bytes.length - offset) = some piece) :
    piece ≠ [] ∧ file.ReadsOn (offset + piece.length) := by
  cases readsOn with
  | done all => omega
  | @piece _ other same some more =>
      rw [read, Option.some.injEq] at same
      subst same
      exact ⟨some, more⟩

theorem BinFile.readFile_prefix {offset requested : Nat} {piece : List UInt8}
    (read : file.readFile offset requested = some piece) :
    piece <+: file.bytes.drop offset ∧ piece.length ≤ requested := by
  rcases Option.map_eq_some_iff.mp read with ⟨count, _, rfl⟩
  refine ⟨List.take_prefix _ _, ?_⟩
  rw [List.length_take]
  omega

theorem take_piece {bytes piece : List UInt8} {offset : Nat} (next : piece <+: bytes.drop offset) :
    bytes.take (offset + piece.length) = bytes.take offset ++ piece := by
  rw [List.take_add, ← List.prefix_iff_eq_take.mp next]

theorem loadImage_outcome (imageLen len : Nat) (imageData : Memory)
    (size : imageLen = file.bytes.length) (within : len ≤ imageLen)
    (loaded : imageData.bytes 0 len = file.bytes.take len) :
    ((loadImage file imageLen len imageData).1 = true ↔ file.ReadsOn len) ∧
      ((loadImage file imageLen len imageData).1 = true →
        (loadImage file imageLen len imageData).2.bytes 0 imageLen = file.bytes) := by
  induction len, imageData using loadImage.induct file imageLen with
  | case1 len imageData unread failed =>
      have gone : ¬file.ReadsOn len := by
        intro readsOn
        cases readsOn with
        | done all => omega
        | piece read some more =>
            rw [← size, failed] at read
            cases read
      rw [loadImage, if_pos unread, failed]
      simpa using gone
  | case2 len imageData unread piece read nothing =>
      have gone : ¬file.ReadsOn len := by
        intro readsOn
        have some := (readsOn.after (size ▸ unread) (size ▸ read)).1
        exact some (List.length_eq_zero_iff.mp nothing)
      rw [loadImage, if_pos unread, read]
      simpa [nothing] using gone
  | case3 len imageData unread piece read some induction =>
      rcases BinFile.readFile_prefix read with ⟨next, short⟩
      have rest := induction (by omega)
        (by rw [Memory.bytes_fill_piece, loaded, take_piece next])
      have goesOn : file.ReadsOn len ↔ file.ReadsOn (len + piece.length) := by
        constructor
        · exact fun readsOn => (readsOn.after (size ▸ unread) (size ▸ read)).2
        · intro more
          have nonempty : piece ≠ [] := fun none => some (by rw [none, List.length_nil])
          exact BinFile.ReadsOn.piece (size ▸ read) nonempty more
      rw [loadImage, if_pos unread, read, goesOn]
      simpa [some] using rest
  | case4 len imageData finished =>
      have all : file.bytes.length ≤ len := by omega
      have ends : imageLen = len := by omega
      rw [loadImage, if_neg finished]
      refine ⟨⟨fun _ => BinFile.ReadsOn.done all, fun _ => rfl⟩, fun _ => ?_⟩
      rw [ends, loaded, List.take_of_length_le all]

theorem loadImage_below (imageLen len : Nat) (imageData : Memory) :
    Memory.WrittenBelow imageLen imageData (loadImage file imageLen len imageData).2 := by
  induction len, imageData using loadImage.induct file imageLen with
  | case1 len imageData unread failed =>
      rw [loadImage, if_pos unread, failed]
      exact Memory.WrittenBelow.refl _ _
  | case2 len imageData unread piece read nothing =>
      rw [loadImage, if_pos unread, read]
      simp only [if_pos nothing]
      exact Memory.WrittenBelow.refl _ _
  | case3 len imageData unread piece read some induction =>
      have short := (BinFile.readFile_prefix read).2
      have stored := (Memory.WrittenBelow.refl imageLen imageData).fill
        (fun index => piece.getD index 0) (Or.inr (by omega) : piece.length = 0 ∨
          len + piece.length ≤ imageLen)
      rw [loadImage, if_pos unread, read]
      simp only [if_neg some]
      exact stored.trans induction
  | case4 len imageData finished =>
      rw [loadImage, if_neg finished]
      exact Memory.WrittenBelow.refl _ _

end CosmosPC
