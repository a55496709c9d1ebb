import Mathlib.Data.List.TakeWhile
import CosmosPC.Foundation.Decimal

/-! # Replies among the file content

How `CosmosReadCommProc::proc` tells a reply from file content. Every read is
decided on by itself, as the C string that it is up to its first `NUL`. -/

namespace CosmosPC

def byteOf (letter : Char) : UInt8 := UInt8.ofNat letter.toNat

def asciiBytes (letters : List Char) : List UInt8 := letters.map byteOf

def comma : UInt8 := byteOf ','
def carriageReturn : UInt8 := byteOf '\r'

/-- `static unsigned char cmdTag[][16]`. -/
def cmdTag : List (List UInt8) :=
  [asciiBytes ['C', 'H', 'E', 'C', 'K'], asciiBytes ['F', 'C', 'H', 'E', 'C', 'K'],
    asciiBytes ['F', 'S', 'I', 'Z', 'E'], asciiBytes ['F', 'R', 'E', 'A', 'D']]

/-- The C string at the beginning of a buffer that has a `NUL` behind it. -/
def cString (buf : List UInt8) : List UInt8 := buf.takeWhile (· ≠ 0)

/-- `DWORD getTagIndex(char* buf)`: the first tag that `strstr` finds. -/
def getTagIndex (buf : List UInt8) : Nat := cmdTag.findIdx fun tag => decide (tag <:+: buf)

/-- `strstr(buf, ",") + 1`. -/
def behindComma (buf : List UInt8) : Option (List UInt8) :=
  match buf.dropWhile (· ≠ comma) with
  | [] => none
  | _ :: rest => some rest

def isSpace (byte : UInt8) : Bool :=
  decide (byte = 32) || decide (9 ≤ byte) && decide (byte ≤ 13)

def strtolNumber (text : List UInt8) : Int :=
  let text := text.dropWhile isSpace
  if text.head? = some (byteOf '-') then -(Decimal.value (text.tail.takeWhile Decimal.isDigit))
  else if text.head? = some (byteOf '+') then
    Decimal.value (text.tail.takeWhile Decimal.isDigit)
  else Decimal.value (text.takeWhile Decimal.isDigit)

/-- `strtol(text, NULL, 10)`, which stops at the ends of a 32-bit `long`. -/
def strtol (text : List UInt8) : Int :=
  max (-(2 ^ 31)) (min (2 ^ 31 - 1) (strtolNumber text))

def dword (number : Int) : Nat := (number % 2 ^ 32).toNat

/-- The tag of a reply and the text behind its comma; file content has none. -/
def findReply (buf : List UInt8) : Option (Nat × List UInt8) :=
  let index := getTagIndex (cString buf)
  if index < cmdTag.length then (behindComma (cString buf)).map (index, ·) else none

/-! ## The answer to a read request -/

def freadIndex : Nat := 3

def freadLine (size : Nat) : List UInt8 :=
  asciiBytes ['F', 'R', 'E', 'A', 'D', ','] ++ Decimal.text size ++ [carriageReturn]

theorem isDigit_bounds {byte : UInt8} (digit : Decimal.isDigit byte = true) :
    48 ≤ byte.toNat ∧ byte.toNat ≤ 57 := by
  simpa [Decimal.isDigit, UInt8.le_iff_toNat_le] using digit

theorem mem_freadLine {size : Nat} {byte : UInt8} (member : byte ∈ freadLine size) :
    byte ∈ asciiBytes ['F', 'R', 'E', 'A', 'D', ',', '\r'] ∨ Decimal.isDigit byte = true := by
  simp only [freadLine, List.mem_append, List.mem_singleton] at member
  rcases member with (member | member) | member
  · left
    revert member
    simp only [asciiBytes, List.map_cons, List.map_nil, List.mem_cons, List.not_mem_nil, or_false]
    tauto
  · exact Or.inr (Decimal.isDigit_text size byte member)
  · left
    rw [member]
    decide

theorem not_infix_of_letter {tag buf : List UInt8} {letter : UInt8} (inside : letter ∈ tag)
    (outside : letter ∉ buf) : ¬tag <:+: buf :=
  fun within => outside (within.subset inside)

theorem notMem_freadLine (size : Nat) {letter : UInt8}
    (other : letter ∉ asciiBytes ['F', 'R', 'E', 'A', 'D', ',', '\r'])
    (noDigit : Decimal.isDigit letter = false) : letter ∉ freadLine size := by
  intro member
  rcases mem_freadLine member with member | digit
  · exact other member
  · exact absurd digit (by simp [noDigit])

theorem cString_freadLine (size : Nat) : cString (freadLine size) = freadLine size := by
  apply List.takeWhile_eq_self_iff.mpr
  intro byte member
  have noNul : 0 ∉ freadLine size := notMem_freadLine size (by decide) (by decide)
  simp only [ne_eq, decide_eq_true_eq]
  rintro rfl
  exact noNul member

theorem getTagIndex_freadLine (size : Nat) : getTagIndex (freadLine size) = freadIndex := by
  have noC : byteOf 'C' ∉ freadLine size := notMem_freadLine size (by decide) (by decide)
  have noS : byteOf 'S' ∉ freadLine size := notMem_freadLine size (by decide) (by decide)
  have check : ¬asciiBytes ['C', 'H', 'E', 'C', 'K'] <:+: freadLine size :=
    not_infix_of_letter (by decide) noC
  have fcheck : ¬asciiBytes ['F', 'C', 'H', 'E', 'C', 'K'] <:+: freadLine size :=
    not_infix_of_letter (by decide) noC
  have fsize : ¬asciiBytes ['F', 'S', 'I', 'Z', 'E'] <:+: freadLine size :=
    not_infix_of_letter (by decide) noS
  have fread : asciiBytes ['F', 'R', 'E', 'A', 'D'] <:+: freadLine size :=
    ⟨[], [comma] ++ Decimal.text size ++ [carriageReturn], by simp [freadLine, asciiBytes]; rfl⟩
  simp [getTagIndex, cmdTag, List.findIdx_cons, check, fcheck, fsize, fread, freadIndex]

theorem behindComma_freadLine (size : Nat) :
    behindComma (freadLine size) = some (Decimal.text size ++ [carriageReturn]) := rfl

theorem findReply_freadLine (size : Nat) :
    findReply (freadLine size) = some (freadIndex, Decimal.text size ++ [carriageReturn]) := by
  rw [findReply, cString_freadLine, getTagIndex_freadLine, behindComma_freadLine]
  rfl

theorem strtolNumber_text (size : Nat) :
    strtolNumber (Decimal.text size ++ [carriageReturn]) = size := by
  have digits := Decimal.isDigit_text size
  have value := Decimal.value_text size
  rcases text_eq : Decimal.text size with _ | ⟨first, rest⟩
  · exact absurd text_eq (Decimal.text_ne_nil size)
  · rw [text_eq] at digits value
    have bounds := isDigit_bounds (digits first List.mem_cons_self)
    have noSpace : isSpace first = false := by
      simp [isSpace, UInt8.le_iff_toNat_le, ← UInt8.toNat_inj]
      omega
    have noMinus : first ≠ byteOf '-' := by
      rintro rfl
      exact absurd bounds (by decide)
    have noPlus : first ≠ byteOf '+' := by
      rintro rfl
      exact absurd bounds (by decide)
    have taken : (first :: rest ++ [carriageReturn]).takeWhile Decimal.isDigit = first :: rest := by
      rw [List.takeWhile_append_of_pos digits]
      simp [show Decimal.isDigit carriageReturn = false by decide]
    simp only [List.cons_append] at taken
    simp [strtolNumber, noSpace, noMinus, noPlus, taken, value]

theorem findReply_eq_none {content buf : List UInt8} (noTag : ∀ tag ∈ cmdTag, ¬tag <:+: content)
    (part : buf <:+: content) : findReply buf = none := by
  have noIndex : getTagIndex (cString buf) = cmdTag.length := by
    apply List.findIdx_eq_length.mpr
    intro tag member
    have absent := noTag tag member
    simp only [decide_eq_false_iff_not]
    intro within
    exact absent ((within.trans (List.takeWhile_prefix _).isInfix).trans part)
  rw [findReply, noIndex]
  exact if_neg (Nat.lt_irrefl _)

/-! ## The zero of an answer -/

theorem behindComma_isPrefix {buf letters rest text : List UInt8}
    (part : buf <+: letters ++ comma :: rest) (outside : comma ∉ letters)
    (found : behindComma buf = some text) : text <+: rest := by
  induction letters generalizing buf with
  | nil =>
      rcases List.prefix_cons_iff.mp part with rfl | ⟨behind, rfl, shorter⟩
      · cases found
      · cases found
        exact shorter
  | cons letter letters induction =>
      rcases List.prefix_cons_iff.mp part with rfl | ⟨behind, rfl, shorter⟩
      · cases found
      · have other : letter ≠ comma := fun same => outside (same ▸ List.mem_cons_self)
        have same : behindComma (letter :: behind) = behindComma behind := by
          simp [behindComma, other]
        exact induction shorter (fun member => outside (List.mem_cons_of_mem letter member))
          (same ▸ found)

theorem behindComma_infix {buf letters rest text : List UInt8}
    (part : buf <:+: letters ++ comma :: rest) (outside : comma ∉ letters)
    (found : behindComma buf = some text) : text <+: rest ∨ buf <:+: rest := by
  induction letters with
  | nil =>
      rcases List.infix_cons_iff.mp part with begins | later
      · have whole : buf <+: [] ++ comma :: rest := begins
        exact Or.inl (behindComma_isPrefix whole outside found)
      · exact Or.inr later
  | cons letter letters induction =>
      rcases List.infix_cons_iff.mp part with begins | later
      · exact Or.inl (behindComma_isPrefix begins outside found)
      · exact induction later fun member => outside (List.mem_cons_of_mem letter member)

theorem strtol_zero {text rest : List UInt8}
    (part : text <+: byteOf '0' :: carriageReturn :: rest) : dword (strtol text) = 0 := by
  rcases List.prefix_cons_iff.mp part with rfl | ⟨behind, rfl, shorter⟩
  · rfl
  · rcases List.prefix_cons_iff.mp shorter with rfl | ⟨last, rfl, _⟩ <;> rfl

theorem cString_cString (buf : List UInt8) : cString (cString buf) = cString buf :=
  List.takeWhile_idem

theorem findReply_cons {letter : UInt8} (buf : List UInt8) (noNul : letter ≠ 0)
    (noComma : letter ≠ comma) (noTag : ∀ tag ∈ cmdTag, tag ≠ [] ∧ letter ∉ tag) :
    findReply (letter :: buf) = findReply buf := by
  have text : cString (letter :: buf) = letter :: cString buf := by simp [cString, noNul]
  have behind : behindComma (letter :: cString buf) = behindComma (cString buf) := by
    simp [behindComma, noComma]
  have within (tag : List UInt8) (member : tag ∈ cmdTag) :
      tag <:+: letter :: cString buf ↔ tag <:+: cString buf := by
    rcases noTag tag member with ⟨nonempty, outside⟩
    refine ⟨fun part => ?_, fun part => List.infix_cons part⟩
    rcases List.infix_cons_iff.mp part with begins | later
    · rcases List.prefix_cons_iff.mp begins with none | ⟨rest, rfl, _⟩
      · exact absurd none nonempty
      · exact absurd List.mem_cons_self outside
    · exact later
  have index : getTagIndex (letter :: cString buf) = getTagIndex (cString buf) := by
    unfold getTagIndex
    simp only [cmdTag, List.mem_cons, List.not_mem_nil, or_false, forall_eq_or_imp,
      forall_eq] at within
    simp only [cmdTag, List.findIdx_cons, List.findIdx_nil, within]
  rw [findReply, findReply, text, index, behind]

theorem exists_findReply_eq {letter : UInt8} {buf rest : List UInt8} (noNul : letter ≠ 0)
    (noComma : letter ≠ comma) (noTag : ∀ tag ∈ cmdTag, tag ≠ [] ∧ letter ∉ tag)
    (part : buf <:+: letter :: rest) :
    ∃ piece, piece <:+: rest ∧ piece.length ≤ buf.length ∧ findReply piece = findReply buf := by
  rcases List.infix_cons_iff.mp part with begins | later
  · rcases List.prefix_cons_iff.mp begins with rfl | ⟨piece, rfl, shorter⟩
    · exact ⟨[], List.nil_infix, Nat.le_refl _, rfl⟩
    · exact ⟨piece, shorter.isInfix, Nat.le_succ _,
        (findReply_cons piece noNul noComma noTag).symm⟩
  · exact ⟨buf, later, Nat.le_refl _, rfl⟩

/-- No part of an answer that announces nothing is a reply that announces
something, unless what follows the line has one. -/
theorem dword_strtol_eq_zero {further read text : List UInt8}
    (part : read <:+: freadLine 0 ++ further)
    (noReply : ∀ piece, piece <:+: further → piece.length ≤ read.length →
      ∀ text, findReply piece ≠ some (freadIndex, text))
    (reply : findReply read = some (freadIndex, text)) : dword (strtol text) = 0 := by
  have begins : cString read <+: read := List.takeWhile_prefix _
  have same : findReply (cString read) = findReply read := by
    rw [findReply, findReply, cString_cString]
  have found : behindComma (cString read) = some text := by
    rw [findReply] at reply
    rcases Option.ite_none_right_eq_some.mp reply with ⟨_, mapped⟩
    rcases Option.map_eq_some_iff.mp mapped with ⟨behind, found, ends⟩
    rw [found, (Prod.mk.inj ends).2]
  have within : cString read <:+:
      asciiBytes ['F', 'R', 'E', 'A', 'D'] ++ comma :: byteOf '0' :: carriageReturn :: further :=
    begins.isInfix.trans part
  rcases behindComma_infix within (by decide) found with zero | later
  · exact strtol_zero zero
  · exfalso
    rw [← same] at reply
    rcases exists_findReply_eq (by decide) (by decide) (by decide) later with
      ⟨first, insideFirst, shorterFirst, replyFirst⟩
    rcases exists_findReply_eq (by decide) (by decide) (by decide) insideFirst with
      ⟨piece, inside, shorter, replyPiece⟩
    exact noReply piece inside ((shorter.trans shorterFirst).trans begins.length_le) text
      (replyPiece.trans (replyFirst.trans reply))

end CosmosPC
