import Mathlib.Data.List.TakeWhile
import Mathlib.Data.Nat.Find

/-! # Text in an array

A C string in an array of codes: it goes up to the first terminator, of which
there always is one. As in other arrays, a store may go out of bounds, and the
indexes of all stores are remembered. -/

namespace CosmosPC

structure TextArray {Code : Type} (terminator : Code) where
  cell : Nat → Code
  /-- The indexes written so far, oldest first. -/
  stores : List Nat
  ended : ∃ index, cell index = terminator

namespace TextArray

variable {Code : Type} {terminator : Code}

def declared (terminator : Code) (text : List Code) : TextArray terminator where
  cell index := text.getD index terminator
  stores := []
  ended := ⟨text.length, by simp⟩

/-- The text with its terminator is copied to `array + start`. -/
def copy (array : TextArray terminator) (start : Nat) (text : List Code) :
    TextArray terminator where
  cell other :=
    if start ≤ other ∧ other ≤ start + text.length then text.getD (other - start) terminator
    else array.cell other
  stores := array.stores ++ (List.range (text.length + 1)).map (start + ·)
  ended := ⟨start + text.length, by simp⟩

def cut (array : TextArray terminator) (index : Nat) : TextArray terminator where
  cell other := if other = index then terminator else array.cell other
  stores := array.stores ++ [index]
  ended := ⟨index, by simp⟩

variable [DecidableEq Code]

def length (array : TextArray terminator) : Nat := Nat.find array.ended

def text (array : TextArray terminator) : List Code := (List.range array.length).map array.cell

/-- Where the text has its first `code`. -/
def position (array : TextArray terminator) (code : Code) : Option Nat :=
  array.text.findIdx? (· = code)

@[simp] theorem length_text (array : TextArray terminator) : array.text.length = array.length := by
  simp [text]

theorem getElem_text (array : TextArray terminator) (index : Nat)
    (inside : index < array.text.length) : array.text[index] = array.cell index := by
  simp [text]

theorem ne_terminator_of_mem_text (array : TextArray terminator) :
    ∀ code ∈ array.text, code ≠ terminator := by
  intro code member
  rcases List.mem_map.mp member with ⟨index, among, rfl⟩
  exact Nat.find_min array.ended (List.mem_range.mp among)

theorem text_eq (array : TextArray terminator) (text : List Code)
    (unended : ∀ code ∈ text, code ≠ terminator)
    (cells : ∀ index (inside : index < text.length), array.cell index = text[index])
    (terminated : array.cell text.length = terminator) : array.text = text := by
  have length : array.length = text.length := by
    refine (Nat.find_eq_iff array.ended).mpr ⟨terminated, fun index inside => ?_⟩
    rw [cells index inside]
    exact unended _ (List.getElem_mem inside)
  apply List.ext_getElem
  · rw [length_text, length]
  · intro index inside within
    rw [getElem_text, cells index within]

theorem text_declared (text : List Code) (unended : ∀ code ∈ text, code ≠ terminator) :
    (declared terminator text).text = text :=
  text_eq _ _ unended (fun index inside => by simp [declared, inside]) (by simp [declared])

theorem text_copy_length (array : TextArray terminator) (text : List Code)
    (unended : ∀ code ∈ text, code ≠ terminator) :
    (array.copy array.length text).text = array.text ++ text := by
  apply text_eq
  · intro code member
    exact (List.mem_append.mp member).elim (array.ne_terminator_of_mem_text code) (unended code)
  · intro index inside
    rw [List.length_append, length_text] at inside
    by_cases earlier : index < array.length
    · have before : ¬(array.length ≤ index ∧ index ≤ array.length + text.length) := by omega
      have within : index < array.text.length := by rwa [length_text]
      rw [copy, List.getElem_append_left within, getElem_text]
      exact if_neg before
    · have copied : array.length ≤ index ∧ index ≤ array.length + text.length := by omega
      have within : index - array.length < text.length := by omega
      rw [List.getElem_append_right (by rw [length_text]; omega)]
      simp [copy, copied, within]
  · simp [copy]

theorem text_cut (array : TextArray terminator) (index : Nat) (inside : index ≤ array.length) :
    (array.cut index).text = array.text.take index := by
  have length : (array.text.take index).length = index := by
    rw [List.length_take, length_text, Nat.min_eq_left inside]
  apply text_eq
  · exact fun code member => array.ne_terminator_of_mem_text code (List.mem_of_mem_take member)
  · intro other within
    have different : other ≠ index := by omega
    rw [List.getElem_take, getElem_text]
    exact if_neg different
  · rw [length]
    exact if_pos rfl

theorem position_cases (array : TextArray terminator) (code : Code) :
    (array.position code = none ∧ array.text.takeWhile (· ≠ code) = array.text) ∨
      ∃ index, array.position code = some index ∧ index < array.length ∧
        array.text.takeWhile (· ≠ code) = array.text.take index := by
  rcases found : array.position code with _ | index
  · left
    refine ⟨rfl, List.takeWhile_eq_self_iff.mpr fun other member => ?_⟩
    simpa using List.findIdx?_eq_none_iff.mp found other member
  · right
    rcases List.findIdx?_eq_some_iff_findIdx_eq.mp found with ⟨inside, first⟩
    refine ⟨index, rfl, by rwa [length_text] at inside, ?_⟩
    rw [List.takeWhile_eq_take_findIdx_not, ← first]
    simp

end TextArray

end CosmosPC
