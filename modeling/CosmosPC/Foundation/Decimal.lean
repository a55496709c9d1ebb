import Mathlib.Data.Nat.Digits.Lemmas

/-! # Decimal numbers as bytes

The digits of a number as ASCII, and the number that a run of digits denotes. -/

namespace CosmosPC.Decimal

def zero : UInt8 := 48

def isDigit (byte : UInt8) : Bool := decide (48 ≤ byte) && decide (byte ≤ 57)

def digit (value : Nat) : UInt8 := UInt8.ofNat (48 + value)

def text (number : Nat) : List UInt8 :=
  if number = 0 then [zero] else (Nat.digits 10 number).reverse.map digit

def value (digits : List UInt8) : Nat :=
  digits.foldl (fun total byte => 10 * total + (byte.toNat - 48)) 0

theorem toNat_digit {value : Nat} (single : value < 10) : (digit value).toNat = 48 + value := by
  simp [digit]
  omega

theorem isDigit_digit {value : Nat} (single : value < 10) : isDigit (digit value) = true := by
  have number := toNat_digit single
  simp only [isDigit, UInt8.le_iff_toNat_le, number, Bool.and_eq_true, decide_eq_true_eq]
  exact ⟨Nat.le_add_right 48 value, by simp; omega⟩

theorem value_concat (digits : List UInt8) (last : UInt8) :
    value (digits ++ [last]) = 10 * value digits + (last.toNat - 48) := by
  simp [value]

theorem value_reverse (digits : List Nat) (single : ∀ value ∈ digits, value < 10) :
    value (digits.reverse.map digit) = Nat.ofDigits 10 digits := by
  induction digits with
  | nil => rfl
  | cons first rest induction =>
      have restSingle := fun value member => single value (List.mem_cons_of_mem first member)
      rw [List.reverse_cons, List.map_append, List.map_singleton, value_concat,
        induction restSingle, toNat_digit (single first List.mem_cons_self), Nat.ofDigits_cons,
        Nat.add_sub_cancel_left]
      simp [Nat.add_comm]

theorem value_text (number : Nat) : value (text number) = number := by
  unfold text
  by_cases none : number = 0
  · rw [if_pos none, none]
    rfl
  · rw [if_neg none, value_reverse _ fun _ => Nat.digits_lt_base (by decide),
      Nat.ofDigits_digits]

theorem isDigit_text (number : Nat) : ∀ byte ∈ text number, isDigit byte = true := by
  intro byte member
  unfold text at member
  by_cases none : number = 0
  · rw [if_pos none, List.mem_singleton] at member
    rw [member]
    rfl
  · rw [if_neg none] at member
    rcases List.mem_map.mp member with ⟨value, among, rfl⟩
    exact isDigit_digit (Nat.digits_lt_base (by decide) (List.mem_reverse.mp among))

theorem text_ne_nil (number : Nat) : text number ≠ [] := by
  unfold text
  by_cases none : number = 0
  · simp [none]
  · simp [none, Nat.digits_eq_nil_iff_eq_zero]

theorem length_text_le (number width : Nat) (positive : 0 < width) (small : number < 10 ^ width) :
    (text number).length ≤ width := by
  unfold text
  by_cases none : number = 0
  · rw [if_pos none]
    exact positive
  · rw [if_neg none, List.length_map, List.length_reverse]
    exact (Nat.digits_length_le_iff (by decide) number).mpr small

/-! ## Digits one by one -/

theorem text_eq (number : Nat) :
    text number = (if number < 10 then [] else text (number / 10)) ++ [digit (number % 10)] := by
  by_cases single : number < 10
  · rw [if_pos single, Nat.mod_eq_of_lt single, List.nil_append]
    by_cases none : number = 0
    · rw [none]
      rfl
    · rw [text, if_neg none, Nat.digits_of_lt 10 number none single]
      rfl
  · have positive : 0 < number := by omega
    have more : number / 10 ≠ 0 := by omega
    rw [if_neg single, text, if_neg (by omega), text, if_neg more,
      Nat.digits_def' (by decide) positive, List.reverse_cons, List.map_append]
    rfl

def wide : (width number : Nat) → List UInt8
  | 0, _ => []
  | width + 1, number => digit (number / 10 ^ width) :: wide width (number % 10 ^ width)

@[simp] theorem length_wide (width number : Nat) : (wide width number).length = width := by
  induction width generalizing number with
  | zero => rfl
  | succ width induction => rw [wide, List.length_cons, induction]

theorem wide_succ (width number : Nat) (small : number < 10 ^ (width + 1)) :
    wide (width + 1) number = wide width (number / 10) ++ [digit (number % 10)] := by
  induction width generalizing number with
  | zero =>
      have single : number % 10 = number := Nat.mod_eq_of_lt small
      simp [wide, single]
  | succ width induction =>
      have high : number / 10 ^ (width + 1) = number / 10 / 10 ^ width := by
        rw [Nat.div_div_eq_div_mul, Nat.pow_succ, Nat.mul_comm]
      have middle : number % 10 ^ (width + 1) / 10 = number / 10 % 10 ^ width := by
        rw [Nat.pow_succ, Nat.mul_comm, Nat.mod_mul_right_div_self]
      have low : number % 10 ^ (width + 1) % 10 = number % 10 :=
        Nat.mod_mod_of_dvd number (Dvd.intro_left (10 ^ width) rfl)
      have remainder : number % 10 ^ (width + 1) < 10 ^ (width + 1) :=
        Nat.mod_lt _ (Nat.pow_pos (by decide))
      calc wide (width + 1 + 1) number
          = digit (number / 10 ^ (width + 1)) :: wide (width + 1) (number % 10 ^ (width + 1)) := rfl
        _ = digit (number / 10 / 10 ^ width) ::
              (wide width (number / 10 % 10 ^ width) ++ [digit (number % 10)]) := by
            rw [induction _ remainder, middle, low, high]
        _ = wide (width + 1) (number / 10) ++ [digit (number % 10)] := rfl

theorem text_eq_wide (width number : Nat) (lower : 10 ^ width ≤ number)
    (upper : number < 10 ^ (width + 1)) : text number = wide (width + 1) number := by
  induction width generalizing number with
  | zero =>
      rw [text_eq, if_pos (by omega), wide_succ 0 number upper]
      rfl
  | succ width induction =>
      have above : 10 ^ width ≤ number / 10 := by
        rw [Nat.le_div_iff_mul_le (by decide)]
        exact lower
      have below : number / 10 < 10 ^ (width + 1) := by
        rw [Nat.div_lt_iff_lt_mul (by decide)]
        exact upper
      have several : ¬number < 10 := by
        have positive : 0 < 10 ^ width := Nat.pow_pos (by decide)
        omega
      rw [text_eq, if_neg several, wide_succ _ _ upper, induction (number / 10) above below]

theorem value_append_ge (digits rest : List UInt8) :
    value digits ≤ value (digits ++ rest) := by
  induction rest using List.reverseRecOn with
  | nil => simp
  | append_singleton rest last induction =>
      rw [← List.append_assoc, value_concat]
      omega

theorem value_append_of_ne_nil (digits rest : List UInt8) (some : rest ≠ []) :
    10 * value digits ≤ value (digits ++ rest) := by
  rcases rest.eq_nil_or_concat with none | ⟨initial, last, rfl⟩
  · exact absurd none some
  · have grows := value_append_ge digits initial
    rw [List.concat_eq_append, ← List.append_assoc, value_concat]
    omega

theorem value_take_text_ne (number count : Nat) (part : count < (text number).length)
    (some : 0 < count) : value ((text number).take count) ≠ number := by
  intro same
  have rest : (text number).drop count ≠ [] := by
    intro none
    have short := congrArg List.length none
    rw [List.length_drop, List.length_nil] at short
    omega
  have more := value_append_of_ne_nil ((text number).take count) ((text number).drop count) rest
  rw [List.take_append_drop, value_text, same] at more
  have zero : number = 0 := by omega
  rw [zero, text, if_pos rfl, List.length_singleton] at part
  omega

theorem value_zeros (count : Nat) (digits : List UInt8) :
    value (List.replicate count zero ++ digits) = value digits := by
  induction count with
  | zero => rfl
  | succ count induction => exact induction

/-! ## The shortest digits -/

/-- The digits denote the number, without a leading zero and with as few of them
as possible. -/
structure Shortest (digits : List UInt8) (number : Nat) : Prop where
  allDigits : ∀ byte ∈ digits, isDigit byte = true
  denotes : value digits = number
  leading : digits.head? = some zero → number = 0
  none : number = 0 → digits = [zero]
  fewest : ∀ other, other ≠ [] → (∀ byte ∈ other, isDigit byte = true) →
    value other = number → digits.length ≤ other.length

theorem value_lt (digits : List UInt8) (all : ∀ byte ∈ digits, isDigit byte = true) :
    value digits < 10 ^ digits.length := by
  induction digits using List.reverseRecOn with
  | nil => decide
  | append_singleton rest last induction =>
      have restSmall := induction fun byte member => all byte (List.mem_append_left _ member)
      have lastSmall : last.toNat ≤ 57 := by
        have bounds := all last (by simp)
        rw [isDigit, Bool.and_eq_true, decide_eq_true_eq, decide_eq_true_eq] at bounds
        exact UInt8.le_iff_toNat_le.mp bounds.2
      rw [value_concat, List.length_append, List.length_singleton, Nat.pow_succ]
      omega

theorem text_fewest (number : Nat) (other : List UInt8) (some : other ≠ [])
    (all : ∀ byte ∈ other, isDigit byte = true) (same : value other = number) :
    (text number).length ≤ other.length := by
  apply length_text_le _ _ (List.length_pos_of_ne_nil some)
  rw [← same]
  exact value_lt other all

theorem shortest_text (number : Nat) : Shortest (text number) number where
  allDigits := isDigit_text number
  denotes := value_text number
  leading zeroFirst := by
    rcases List.head?_eq_some_iff.mp zeroFirst with ⟨rest, equal⟩
    have same : value rest = number := by
      rw [← value_text number, equal]
      exact (value_zeros 1 rest).symm
    by_cases none : rest = []
    · rw [← same, none]
      rfl
    · have restDigits : ∀ byte ∈ rest, isDigit byte = true := by
        intro byte member
        apply isDigit_text number
        rw [equal]
        exact List.mem_cons_of_mem zero member
      have longer := text_fewest number rest none restDigits same
      rw [equal, List.length_cons] at longer
      omega
  none none := if_pos none
  fewest := text_fewest number

/-! ## Numbers padded with zeros -/

/-- A number with zeros in front of it, up to a width. -/
def padded (width number : Nat) : List UInt8 := (text number).leftpad width zero

theorem value_padded (width number : Nat) : value (padded width number) = number := by
  rw [padded, List.leftpad, value_zeros, value_text]

theorem length_padded (width number : Nat) (positive : 0 < width) (small : number < 10 ^ width) :
    (padded width number).length = width := by
  rw [padded, List.length_leftpad]
  exact Nat.max_eq_left (length_text_le number width positive small)

end CosmosPC.Decimal
