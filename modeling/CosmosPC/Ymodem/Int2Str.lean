import Mathlib.Tactic.Positivity
import CosmosPC.Foundation.Decimal
import CosmosPC.Ymodem.Packets

/-! # Decimal digits

`Int2Str` divides by the powers of ten from the ninth down. A zero that comes
before all other digits is stored like them, and the next round starts again at
its place. -/

namespace CosmosPC

/-! ## Rounds of the loop -/

theorem ofNat_digit (value : Nat) : UInt8.ofNat (value + 48) = Decimal.digit value := by
  rw [Nat.add_comm]
  rfl

theorem digit_eq_zero_iff {value : Nat} (single : value < 10) :
    Decimal.digit value = 48 ↔ value = 0 := by
  rw [← UInt8.toNat_inj, Decimal.toNat_digit single]
  exact Nat.add_eq_left

theorem div_ten (rounds : Nat) : 10 ^ (rounds + 1) / 10 = 10 ^ rounds := by
  rw [Nat.pow_succ, Nat.mul_div_cancel _ (by decide)]

theorem int2StrLoop_started (rounds intnum j status : Nat) (str : Memory) (started : 0 < status)
    (other : Nat) :
    (int2StrLoop rounds intnum (10 ^ rounds / 10) j status str).cell other =
      if j ≤ other then ((Decimal.wide rounds intnum)[other - j]?).getD (str.cell other)
      else str.cell other := by
  induction rounds generalizing intnum j status str with
  | zero => simp [int2StrLoop, Decimal.wide]
  | succ rounds induction =>
      have keeps : ¬(Decimal.digit (intnum / 10 ^ rounds) = 48 ∧ status = 0) := by omega
      simp only [int2StrLoop, div_ten, ofNat_digit, if_neg keeps]
      rw [induction _ _ _ _ (Nat.succ_pos status), Decimal.wide, Memory.store_cell]
      by_cases here : other = j
      · subst here
        simp
      · by_cases behind : j < other
        · have position : other - j = (other - (j + 1)) + 1 := by omega
          rw [if_pos (Nat.succ_le_of_lt behind), if_pos (Nat.le_of_lt behind), if_neg here,
            position, List.getElem?_cons_succ]
        · rw [if_neg (by omega), if_neg here, if_neg (by omega)]

theorem int2StrLoop_leading (rounds intnum : Nat) (str : Memory)
    (small : intnum < 10 ^ (rounds + 1)) (other : Nat) :
    (int2StrLoop (rounds + 1) intnum (10 ^ (rounds + 1) / 10) 0 0 str).cell other =
      ((Decimal.text intnum)[other]?).getD (str.cell other) := by
  induction rounds generalizing str with
  | zero =>
      have single : intnum < 10 := by simpa using small
      have text : Decimal.text intnum = [Decimal.digit intnum] := by
        rw [Decimal.text_eq, if_pos single, Nat.mod_eq_of_lt single]
        rfl
      have stored : (int2StrLoop (0 + 1) intnum (10 ^ (0 + 1) / 10) 0 0 str) =
          str.store 0 (Decimal.digit intnum) := by
        simp [int2StrLoop, ofNat_digit]
      rw [stored, text, Memory.store_cell]
      cases other with
      | zero => rfl
      | succ other => simp
  | succ rounds induction =>
      rw [int2StrLoop, div_ten]
      by_cases leading : intnum < 10 ^ (rounds + 1)
      · have zero : intnum / 10 ^ (rounds + 1) = 0 := Nat.div_eq_of_lt leading
        have first : 0 < (Decimal.text intnum).length :=
          List.length_pos_of_ne_nil (Decimal.text_ne_nil intnum)
        simp only [zero, Nat.mod_eq_of_lt leading]
        rw [if_pos ⟨rfl, trivial⟩, induction _ leading, Memory.store_cell]
        cases other with
        | zero => simp [List.getElem?_eq_getElem first]
        | succ other => simp
      · have bound : intnum / 10 ^ (rounds + 1) < 10 := by
          rw [Nat.div_lt_iff_lt_mul (Nat.pow_pos (by decide)), Nat.mul_comm, ← Nat.pow_succ]
          exact small
        have positive : intnum / 10 ^ (rounds + 1) ≠ 0 := by
          rw [Nat.div_ne_zero_iff]
          exact ⟨by positivity, Nat.le_of_not_lt leading⟩
        have kept : ¬(Decimal.digit (intnum / 10 ^ (rounds + 1)) = 48 ∧ True) := by
          rw [digit_eq_zero_iff bound]
          exact fun both => positive both.1
        have text : Decimal.text intnum = Decimal.digit (intnum / 10 ^ (rounds + 1)) ::
            Decimal.wide (rounds + 1) (intnum % 10 ^ (rounds + 1)) :=
          Decimal.text_eq_wide (rounds + 1) intnum (Nat.le_of_not_lt leading) small
        simp only [ofNat_digit, if_neg kept]
        rw [int2StrLoop_started _ _ _ (0 + 1) _ (by decide), Memory.store_cell, text]
        cases other with
        | zero => simp
        | succ other => simp

theorem int2Str_cell (str : Memory) (number : Nat) (small : number < 10 ^ 10) (other : Nat) :
    (int2Str str number).cell other = ((Decimal.text number)[other]?).getD (str.cell other) :=
  int2StrLoop_leading 9 number str small other

theorem int2Str_array (number : Nat) (small : number < 10 ^ 10) :
    (int2Str Memory.zeroed number).bytes 0 10 =
      Decimal.text number ++ List.replicate (10 - (Decimal.text number).length) 0 := by
  have short := Decimal.length_text_le number 10 (by decide) small
  apply List.ext_getElem
  · simp
    omega
  · intro index inside _
    rw [Memory.getElem_bytes, Nat.zero_add, int2Str_cell _ _ small]
    by_cases digit : index < (Decimal.text number).length
    · simp [digit]
    · simp [digit, List.getElem_append, Memory.zeroed]

theorem ne_zero_of_mem_text {number : Nat} {byte : UInt8} (member : byte ∈ Decimal.text number) :
    byte ≠ 0 := by
  have digit := Decimal.isDigit_text number byte member
  rintro rfl
  cases digit

theorem int2StrLoop_below (rounds intnum div j status : Nat) (str : Memory) {bound : Nat}
    (room : j + rounds ≤ bound) :
    Memory.WrittenBelow bound str (int2StrLoop rounds intnum div j status str) := by
  induction rounds generalizing intnum div j status str with
  | zero => exact Memory.WrittenBelow.refl _ _
  | succ rounds induction =>
      have stored := (Memory.WrittenBelow.refl bound str).store j
        (UInt8.ofNat (intnum / div + 48)) (by omega)
      rw [int2StrLoop]
      split
      · exact stored.trans (induction _ _ _ _ _ (by omega))
      · exact stored.trans (induction _ _ _ _ _ (by omega))

/-! ## Machine words -/

/-- The loop of `Int2Str` on the words of the source: a division by `Div` turns
the signed `intnum` into an unsigned number. -/
def int2StrWordLoop : (rounds : Nat) → (intnum : Int32) → (div j status : UInt32) →
    (str : Memory) → Memory
  | 0, _, _, _, _, str => str
  | rounds + 1, intnum, div, j, status, str =>
      let str := str.store j.toNat (intnum.toUInt32 / div + 48).toUInt8
      let j := j + 1
      let intnum := (intnum.toUInt32 % div).toInt32
      let div := div / 10
      if str.cell (j - 1).toNat = 48 ∧ status = 0 then
        int2StrWordLoop rounds intnum div 0 status str
      else
        int2StrWordLoop rounds intnum div j (status + 1) str

/-- `void Int2Str(uint8_t* str, int32_t intnum)` with its types. -/
def int2StrWord (str : Memory) (intnum : Int32) : Memory :=
  int2StrWordLoop 10 intnum 1000000000 0 0 str

theorem int2StrWordLoop_eq (rounds : Nat) (intnum : Int32) (div j status : UInt32)
    (str : Memory) (index : j.toNat + rounds < 2 ^ 32) (count : status.toNat + rounds < 2 ^ 32) :
    int2StrWordLoop rounds intnum div j status str =
      int2StrLoop rounds intnum.toUInt32.toNat div.toNat j.toNat status.toNat str := by
  induction rounds generalizing intnum div j status str with
  | zero => rfl
  | succ rounds induction =>
      have digit : (intnum.toUInt32 / div + 48).toUInt8 =
          UInt8.ofNat (intnum.toUInt32.toNat / div.toNat + 48) := by
        apply UInt8.toNat.inj
        simp
      have back : (j + 1 - 1).toNat = j.toNat := by simp
      have next : (j + 1).toNat = j.toNat + 1 := by
        rw [UInt32.toNat_add]
        exact Nat.mod_eq_of_lt (by simp; omega)
      have more : (status + 1).toNat = status.toNat + 1 := by
        rw [UInt32.toNat_add]
        exact Nat.mod_eq_of_lt (by simp; omega)
      have first : status = 0 ↔ status.toNat = 0 := UInt32.toNat_inj.symm
      have stored : (str.store j.toNat (UInt8.ofNat (intnum.toUInt32.toNat / div.toNat + 48))).cell
          j.toNat = UInt8.ofNat (intnum.toUInt32.toNat / div.toNat + 48) := by simp
      rw [int2StrWordLoop, int2StrLoop]
      simp only [digit, back, stored, first]
      by_cases leading : UInt8.ofNat (intnum.toUInt32.toNat / div.toNat + 48) = 48 ∧
          status.toNat = 0
      · rw [if_pos leading, if_pos leading, induction _ _ _ _ _ (by simp; omega) (by omega)]
        simp
      · rw [if_neg leading, if_neg leading, induction _ _ _ _ _ (by omega) (by omega), next, more]
        simp

theorem int2StrWord_eq (str : Memory) (intnum : UInt32) :
    int2StrWord str intnum.toInt32 = int2Str str intnum.toNat := by
  rw [int2StrWord, int2StrWordLoop_eq _ _ _ _ _ _ (by decide) (by decide)]
  rfl

/-- For every 32-bit number a zeroed destination of ten bytes holds its shortest
decimal text, up to a `NUL` or to the end, and zeros behind it. -/
theorem int2Str_shortest (number : UInt32) :
    let str := int2StrWord Memory.zeroed number.toInt32
    let text := (str.bytes 0 10).takeWhile (· ≠ 0)
    Decimal.Shortest text number.toNat ∧ (∀ index, text.length ≤ index → str.cell index = 0) ∧
      ∀ index ∈ str.stores, index < 10 := by
  have small : number.toNat < 10 ^ 10 := by
    have word := number.toNat_lt
    omega
  have text : ((int2Str Memory.zeroed number.toNat).bytes 0 10).takeWhile (· ≠ 0) =
      Decimal.text number.toNat := by
    rw [int2Str_array _ small, List.takeWhile_append_of_pos]
    · cases 10 - (Decimal.text number.toNat).length <;> simp [List.replicate_succ]
    · intro byte member
      exact decide_eq_true (ne_zero_of_mem_text member)
  intro str digits
  simp only [str, digits, int2StrWord_eq, text]
  refine ⟨Decimal.shortest_text _, fun index behind => ?_, ?_⟩
  · rw [int2Str_cell _ _ small, List.getElem?_eq_none behind]
    rfl
  · exact (int2StrLoop_below 10 _ _ 0 _ _ (by decide)).of_fresh

end CosmosPC
