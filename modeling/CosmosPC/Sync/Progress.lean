import CosmosPC.Sync.System

/-! # The progress of a download

`RATE` is `100 * total_recv / file_size` in 32 bits. Of the two replies that set
`file_size` only `FREAD` is guarded against zero, and the product is taken
before the quotient. -/

namespace CosmosPC

/-- A call of `proc` that comes to the line of `RATE`, `w` bytes having been written. -/
def World.Recomputes (world : World) (results : FileResults) (buf : List UInt8) (w : Nat) : Prop :=
  findReply buf = none ∧ world.rProc.flag = 2 ∧
    ∃ written, world.writeFile results buf = some (w, written)

/-- The division is defined, and neither counter nor product wraps around. -/
structure World.RateExact (world : World) (results : FileResults) (buf : List UInt8)
    (w : Nat) : Prop where
  divisor : world.rProc.fileSize ≠ 0
  exact : ∃ next, world.proc results buf = some next ∧
    next.rProc.totalRecv = world.rProc.totalRecv + w ∧
    next.rate = 100 * next.rProc.totalRecv / world.rProc.fileSize

/-- The size that a reply names, in a `DWORD`. -/
def namedSize : Sys.Label → Option Nat
  | .proc _ buf =>
      match findReply buf with
      | some (2, text) => some (dword (strtol text))
      | some (3, text) => some (dword (strtol text))
      | _ => none
  | _ => none

/-- The size named last, zero before the first. -/
def lastSize (labels : List Sys.Label) : Nat :=
  labels.foldl (fun size label => (namedSize label).getD size) 0

theorem lastSize_append (labels : List Sys.Label) (label : Sys.Label) :
    lastSize (labels ++ [label]) = (namedSize label).getD (lastSize labels) := by
  simp [lastSize]

theorem dword_lt (number : Int) : dword number < 2 ^ 32 := by
  unfold dword
  omega

def Sized (labels : List Sys.Label) (sys : Sys) : Prop :=
  sys.world.rProc.fileSize = lastSize labels ∧ sys.world.rProc.fileSize < 2 ^ 32

variable {results : FileResults} {buf : List UInt8}

theorem advanced_fileSize {sys moved : Sys} {place after : Place}
    (advanced : Sys.Advanced sys place after moved) :
    moved.world.rProc.fileSize = sys.world.rProc.fileSize := by
  cases advanced with
  | meets => rfl
  | joins => rfl
  | connects => rfl
  | stops =>
      unfold Sys.disconnect
      split <;> rfl
  | finishes =>
      unfold Sys.finish World.deleteLastFile
      split
      · split <;> rfl
      · rfl
  | iterates iterated => cases iterated <;> rfl

theorem handled_fileSize {world next : World} (handled : World.Handled results buf world next) :
    next.rProc.fileSize = (namedSize (.proc results buf)).getD world.rProc.fileSize := by
  cases handled with
  | ignored other =>
      unfold namedSize
      dsimp only
      split
      · rename_i text reply
        exact absurd rfl (other 2 text reply).1
      · rename_i text reply
        exact absurd rfl (other 3 text reply).2
      · rfl
  | sized text reply => simp [namedSize, reply, World.fsize]
  | absent text reply zero => simp [namedSize, reply, zero]
  | begun text reply nonzero =>
      rw [World.fread, if_neg nonzero]
      simp [namedSize, reply, World.initFile]
  | grown name count noReply => simp [namedSize, noReply, World.stored]
  | finished name count noReply => simp [namedSize, noReply, World.stored]

theorem namedSize_lt {label : Sys.Label} {size : Nat} (named : namedSize label = some size) :
    size < 2 ^ 32 := by
  unfold namedSize at named
  split at named
  · split at named
    · cases named
      exact dword_lt _
    · cases named
      exact dword_lt _
    · cases named
  · cases named

theorem Sized.step {labels : List Sys.Label} {sys next : Sys} {label : Sys.Label}
    (sized : Sized labels sys) (taken : Sys.Step sys label next) :
    Sized (labels ++ [label]) next := by
  rcases sized with ⟨known, bounded⟩
  have fileSize : next.world.rProc.fileSize =
      (namedSize label).getD sys.world.rProc.fileSize := by
    cases Sys.step_stepped taken with
    | pressedSync => rfl
    | pressedStop => rfl
    | advanced _ advanced =>
        have same := advanced_fileSize advanced
        exact same
    | handled handled => exact handled_fileSize handled
  refine ⟨by rw [fileSize, lastSize_append, known], ?_⟩
  rw [fileSize]
  cases named : namedSize label with
  | none => exact bounded
  | some size => exact namedSize_lt named

theorem mod_div_eq_div_iff {dividend modulus divisor : Nat} (positive : 0 < divisor)
    (bounded : divisor ≤ modulus) :
    dividend % modulus / divisor = dividend / divisor ↔ dividend < modulus := by
  constructor
  · intro same
    apply Nat.lt_of_not_le
    intro wraps
    have below : dividend % modulus + divisor ≤ dividend := by
      have split := Nat.mod_add_div dividend modulus
      have once : modulus * 1 ≤ modulus * (dividend / modulus) :=
        Nat.mul_le_mul_left modulus (Nat.div_pos wraps (Nat.lt_of_lt_of_le positive bounded))
      omega
    have lower := Nat.div_le_div_right (c := divisor) below
    rw [Nat.add_div_right _ positive, same] at lower
    omega
  · intro fits
    rw [Nat.mod_eq_of_lt fits]

theorem World.Recomputes.proc {world : World} {w : Nat}
    (recomputes : world.Recomputes results buf w) (nonzero : world.rProc.fileSize ≠ 0) :
    ∃ next, world.proc results buf = some next ∧
      next.rProc.totalRecv = (world.rProc.totalRecv + w) % 2 ^ 32 ∧
      next.rate = 100 * next.rProc.totalRecv % 2 ^ 32 / world.rProc.fileSize := by
  rcases recomputes with ⟨noReply, writing, written, wrote⟩
  have size : written.rProc = world.rProc := by
    unfold World.writeFile at wrote
    split at wrote
    · rcases Option.map_eq_some_iff.mp wrote with ⟨count, _, same⟩
      cases same
      rfl
    · cases wrote
  unfold World.proc
  rw [noReply]
  dsimp only
  rw [World.content, if_pos writing, wrote]
  dsimp only
  rw [size, if_neg nonzero]
  split
  · exact ⟨_, rfl, rfl, rfl⟩
  · exact ⟨_, rfl, rfl, rfl⟩

/-- `RATE` is exact exactly if the size named last is not zero and a hundred
times the bytes received fit into a `DWORD`. -/
theorem rate_exact_iff (disk : Disk) (labels : List Sys.Label) (sys : Sys)
    (run : Run Sys.Step (.initial disk) labels sys) (results : FileResults) (buf : List UInt8)
    (w : Nat) (recomputes : sys.world.Recomputes results buf w) :
    sys.world.RateExact results buf w ↔
      lastSize labels ≠ 0 ∧ sys.world.rProc.totalRecv + w ≤ (2 ^ 32 - 1) / 100 := by
  have sized : Sized labels sys :=
    run.history_invariant Sized ⟨rfl, (by decide : 0 < 2 ^ 32)⟩
      fun _ _ _ _ holds step => holds.step step
  rcases sized with ⟨known, bounded⟩
  rw [← known]
  constructor
  · rintro ⟨nonzero, next, taken, counted, rate⟩
    rcases recomputes.proc nonzero with ⟨next', taken', counted', rate'⟩
    cases taken.symm.trans taken'
    rw [rate', mod_div_eq_div_iff (Nat.pos_of_ne_zero nonzero) (Nat.le_of_lt bounded)] at rate
    exact ⟨nonzero, by omega⟩
  · rintro ⟨nonzero, small⟩
    rcases recomputes.proc nonzero with ⟨next, taken, counted, rate⟩
    have unwrapped : next.rProc.totalRecv = sys.world.rProc.totalRecv + w := by omega
    refine ⟨nonzero, next, taken, unwrapped, ?_⟩
    rw [rate, Nat.mod_eq_of_lt (by omega)]

theorem rate_exact_first_byte :
    ∃ sys, Run Sys.Step (.initial fun _ => none)
        [.pressSync, .thread 0, .thread 0, .thread 0, .proc .full (freadLine 5)] sys ∧
      sys.world.RateExact .full [65] 1 := by
  have run : ∃ sys, Run Sys.Step (.initial fun _ => none)
      [.pressSync, .thread 0, .thread 0, .thread 0, .proc .full (freadLine 5)] sys ∧
        sys.world.Recomputes .full [65] 1 ∧ sys.world.rProc.totalRecv = 0 :=
    ⟨_, Run.of_foldlM Sys.step rfl, ⟨rfl, rfl, _, rfl⟩, rfl⟩
  rcases run with ⟨sys, run, recomputes, none⟩
  refine ⟨sys, run, (rate_exact_iff _ _ sys run _ _ _ recomputes).mpr ⟨by decide, ?_⟩⟩
  rw [none]
  decide

def sizeZero : List Sys.Label :=
  [.pressSync, .thread 0, .thread 0, .thread 0, .proc .full (freadLine 5),
    .proc .full (asciiBytes ['F', 'S', 'I', 'Z', 'E', ',', '0', '\r'])]

/-- The content behind it is divided by zero. -/
theorem size_zero_divides_by_zero :
    ∃ sys, Run Sys.Step (.initial fun _ => none) sizeZero sys ∧
      sys.world.Recomputes .full [65] 1 ∧ ¬sys.world.RateExact .full [65] 1 := by
  refine ⟨_, Run.of_foldlM Sys.step rfl, ⟨rfl, rfl, _, rfl⟩, fun rate => ?_⟩
  exact rate.divisor rfl

end CosmosPC
