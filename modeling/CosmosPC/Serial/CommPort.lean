import CosmosPC.Foundation.TextArrays

/-! # The name of the serial port

`getCommPort` builds the name in a static array, behind the text that it finds
there: the prefix of a device name on the first call, and on a later one all
that the earlier calls have left. -/

namespace CosmosPC

def terminator : UInt16 := 0

def devicePath : List UInt16 := [92, 92, 46, 92]

def colon : UInt16 := 58

/-- `static TCHAR buffer[32]`. -/
def commBufferSize : Nat := 32

/-- A text that `GetDlgItemText` delivers into 28 codes. -/
structure ItemText where
  codes : List UInt16
  short : codes.length ≤ 27
  unended : ∀ code ∈ codes, code ≠ terminator

def ItemText.device (item : ItemText) : List UInt16 := item.codes.takeWhile (· ≠ colon)

def commBuffer : TextArray terminator := TextArray.declared terminator devicePath

/-- `TCHAR* getCommPort()`: what the static array, which it returns, then holds. -/
def getCommPort (buffer : TextArray terminator) (item : ItemText) : TextArray terminator :=
  let buffer := buffer.copy buffer.length item.codes
  match buffer.position colon with
  | some ptr => buffer.cut ptr
  | none => buffer

/-- The names that successive calls return, and the array that they leave. -/
def getCommPorts (buffer : TextArray terminator) :
    List ItemText → List (List UInt16) × TextArray terminator
  | [] => ([], buffer)
  | item :: items =>
      let buffer := getCommPort buffer item
      let (names, last) := getCommPorts buffer items
      (buffer.text :: names, last)

/-! ## One call -/

theorem colon_not_mem_device (item : ItemText) : colon ∉ item.device := by
  intro member
  have different := List.mem_takeWhile_imp member
  simp at different

theorem text_getCommPort (buffer : TextArray terminator) (item : ItemText)
    (noColon : colon ∉ buffer.text) :
    (getCommPort buffer item).text = buffer.text ++ item.device := by
  have copied := buffer.text_copy_length item.codes item.unended
  have front : (buffer.text ++ item.codes).takeWhile (· ≠ colon) = buffer.text ++ item.device := by
    apply List.takeWhile_append_of_pos
    intro code member
    simp only [ne_eq, decide_eq_true_eq]
    rintro rfl
    exact noColon member
  unfold getCommPort
  rcases (buffer.copy buffer.length item.codes).position_cases colon with
    ⟨absent, whole⟩ | ⟨ptr, found, inside, part⟩
  · rw [copied, front] at whole
    simp only [absent]
    rw [copied, whole]
  · rw [copied, front] at part
    simp only [found]
    rw [TextArray.text_cut _ _ (Nat.le_of_lt inside), copied, part]

theorem stores_getCommPort (buffer : TextArray terminator) (item : ItemText) :
    ∃ added, (getCommPort buffer item).stores = buffer.stores ++ added ∧
      buffer.length + item.codes.length ∈ added ∧
      ∀ index ∈ added, index ≤ buffer.length + item.codes.length := by
  have copied : (buffer.copy buffer.length item.codes).length =
      buffer.length + item.codes.length := by
    rw [← TextArray.length_text, buffer.text_copy_length item.codes item.unended,
      List.length_append, TextArray.length_text]
  have terminator : buffer.length + item.codes.length ∈
      (List.range (item.codes.length + 1)).map (buffer.length + ·) := by simp
  have within : ∀ index ∈ (List.range (item.codes.length + 1)).map (buffer.length + ·),
      index ≤ buffer.length + item.codes.length := by
    simp only [List.mem_map, List.mem_range, forall_exists_index, and_imp]
    omega
  unfold getCommPort
  rcases (buffer.copy buffer.length item.codes).position_cases colon with
    ⟨absent, _⟩ | ⟨ptr, found, inside, _⟩
  · simp only [absent]
    exact ⟨_, rfl, terminator, within⟩
  · simp only [found]
    rw [copied] at inside
    refine ⟨(List.range (item.codes.length + 1)).map (buffer.length + ·) ++ [ptr],
      List.append_assoc _ _ _, List.mem_append_left _ terminator, fun index member => ?_⟩
    rcases List.mem_append.mp member with copy | cut
    · exact within index copy
    · rw [List.mem_singleton.mp cut]
      exact Nat.le_of_lt inside

/-! ## Successive calls -/

/-- What the static array holds when the earlier calls have left some text. -/
structure Holds (buffer : TextArray terminator) (earlier : List UInt16) : Prop where
  text : buffer.text = devicePath ++ earlier
  noColon : colon ∉ earlier

variable {buffer : TextArray terminator} {earlier : List UInt16}

theorem holds_commBuffer : Holds commBuffer [] :=
  ⟨TextArray.text_declared devicePath (by simp [devicePath, terminator]), List.not_mem_nil⟩

theorem Holds.length (holds : Holds buffer earlier) : buffer.length = 4 + earlier.length := by
  rw [← TextArray.length_text, holds.text, List.length_append]
  rfl

theorem Holds.getCommPort (holds : Holds buffer earlier) (item : ItemText) :
    Holds (getCommPort buffer item) (earlier ++ item.device) where
  text := by
    have noColon : colon ∉ buffer.text := by
      rw [holds.text, List.mem_append, not_or]
      exact ⟨by decide, holds.noColon⟩
    rw [text_getCommPort buffer item noColon, holds.text, List.append_assoc]
  noColon := by
    rw [List.mem_append, not_or]
    exact ⟨holds.noColon, colon_not_mem_device item⟩

/-- The names are right as long as no call finds text of an earlier one. -/
theorem Holds.names_iff (holds : Holds buffer earlier) (items : List ItemText) :
    (CosmosPC.getCommPorts buffer items).1 = items.map (fun item => devicePath ++ item.device) ↔
      (items = [] ∨ earlier = []) ∧ ∀ item ∈ items.dropLast, item.device = [] := by
  induction items generalizing buffer earlier with
  | nil => simp [CosmosPC.getCommPorts]
  | cons item items induction =>
      have next := holds.getCommPort item
      have first : (CosmosPC.getCommPort buffer item).text = devicePath ++ item.device ↔
          earlier = [] := by
        rw [next.text, List.append_right_inj, List.append_left_eq_self]
      simp only [CosmosPC.getCommPorts, List.map_cons, List.cons.injEq, reduceCtorEq, false_or]
      rw [first, induction next]
      cases items with
      | nil => simp
      | cons second items =>
          simp only [reduceCtorEq, false_or, List.append_eq_nil_iff, List.dropLast_cons_cons,
            List.forall_mem_cons]
          constructor
          · rintro ⟨none, ⟨_, empty⟩, rest⟩
            exact ⟨none, empty, rest⟩
          · rintro ⟨none, empty, rest⟩
            exact ⟨none, ⟨none, empty⟩, rest⟩

theorem Holds.stores_below (holds : Holds buffer []) (items : List ItemText)
    (empty : ∀ item ∈ items.dropLast, item.device = [])
    (below : ∀ index ∈ buffer.stores, index < commBufferSize) :
    ∀ index ∈ (CosmosPC.getCommPorts buffer items).2.stores, index < commBufferSize := by
  induction items generalizing buffer with
  | nil => exact below
  | cons item items induction =>
      have next := holds.getCommPort item
      have nextBelow : ∀ index ∈ (CosmosPC.getCommPort buffer item).stores,
          index < commBufferSize := by
        rcases stores_getCommPort buffer item with ⟨added, stores, _, within⟩
        have short := item.short
        have length := holds.length
        rw [List.length_nil] at length
        intro index member
        rw [stores] at member
        rcases List.mem_append.mp member with old | new
        · exact below index old
        · have bound := within index new
          rw [commBufferSize]
          omega
      cases items with
      | nil => exact nextBelow
      | cons second items =>
          rw [List.dropLast_cons_cons, List.forall_mem_cons] at empty
          rw [empty.1] at next
          exact induction next empty.2 nextBelow

theorem Holds.reaches (holds : Holds buffer earlier) (items : List ItemText)
    (some : items ≠ []) :
    ∃ index ∈ (CosmosPC.getCommPorts buffer items).2.stores,
      4 + (earlier ++ items.flatMap ItemText.device).length ≤ index := by
  induction items generalizing buffer earlier with
  | nil => exact absurd rfl some
  | cons item items induction =>
      cases items with
      | nil =>
          rcases stores_getCommPort buffer item with ⟨added, stores, last, _⟩
          have part : item.device.length ≤ item.codes.length := (List.takeWhile_sublist _).length_le
          refine ⟨buffer.length + item.codes.length, ?_, ?_⟩
          · change _ ∈ (CosmosPC.getCommPort buffer item).stores
            rw [stores]
            exact List.mem_append_right _ last
          · rw [holds.length, List.flatMap_singleton, List.length_append]
            omega
      | cons second items =>
          have rest := induction (holds.getCommPort item) (List.cons_ne_nil second items)
          rwa [List.append_assoc] at rest

/-! ## The name and the dialog -/

/-- The name that each call returns is the text of the dialog at that call, and
nothing is written behind the array, exactly when no call but the last finds
anything in front of a colon. -/
theorem commPort_follows_dialog_iff (items : List ItemText) :
    ((getCommPorts commBuffer items).1 = items.map (fun item => devicePath ++ item.device) ∧
      ∀ index ∈ (getCommPorts commBuffer items).2.stores, index < commBufferSize) ↔
      ∀ item ∈ items.dropLast, item.device = [] := by
  constructor
  · rintro ⟨names, _⟩
    exact ((holds_commBuffer.names_iff items).mp names).2
  · intro empty
    refine ⟨(holds_commBuffer.names_iff items).mpr ⟨Or.inr rfl, empty⟩, ?_⟩
    exact holds_commBuffer.stores_below items empty (by simp [commBuffer, TextArray.declared])

/-- The static array is overrun as soon as the calls have appended 28 codes. -/
theorem commPort_overruns (items : List ItemText)
    (long : commBufferSize ≤ devicePath.length + (items.flatMap ItemText.device).length) :
    ∃ index ∈ (getCommPorts commBuffer items).2.stores, commBufferSize ≤ index := by
  have some : items ≠ [] := by
    rintro rfl
    simp [commBufferSize, devicePath] at long
  rcases holds_commBuffer.reaches items some with ⟨index, stored, far⟩
  exact ⟨index, stored, long.trans far⟩

def comThree : ItemText where
  codes := [67, 79, 77, 51]
  short := by decide
  unended := by simp [terminator]

/-- The dialog shows `COM3` at two calls, and the second one returns `COM3COM3`. -/
theorem commPort_repeats :
    (getCommPorts commBuffer [comThree, comThree]).1 =
        [devicePath ++ [67, 79, 77, 51], devicePath ++ [67, 79, 77, 51, 67, 79, 77, 51]] ∧
      ¬((getCommPorts commBuffer [comThree, comThree]).1 =
          [comThree, comThree].map (fun item => devicePath ++ item.device) ∧
        ∀ index ∈ (getCommPorts commBuffer [comThree, comThree]).2.stores,
          index < commBufferSize) := by
  have first := holds_commBuffer.getCommPort comThree
  have second := first.getCommPort comThree
  have names : (getCommPorts commBuffer [comThree, comThree]).1 =
      [devicePath ++ [67, 79, 77, 51], devicePath ++ [67, 79, 77, 51, 67, 79, 77, 51]] := by
    simp only [getCommPorts, first.text, second.text]
    rfl
  refine ⟨names, fun follows => ?_⟩
  rw [names] at follows
  exact absurd follows.1 (by decide)

end CosmosPC
