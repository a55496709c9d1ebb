import Mathlib.Algebra.Order.BigOperators.Group.List
import CosmosPC.Sync.ReadCommProc

/-! # One download

What becomes of the reads behind a `FREAD` reply. As long as none of them is
taken for a reply, they fill the file until it has the announced size. -/

namespace CosmosPC

/-- Reads filling a file until it has at least `size` bytes. -/
def fillTo (size : Nat) : (stored : List UInt8) → (reads : List (List UInt8)) → List UInt8
  | stored, [] => stored
  | stored, read :: reads =>
      if stored.length ≥ size then stored else fillTo size (stored ++ read) reads

theorem fillTo_full {size : Nat} {stored : List UInt8} (full : stored.length ≥ size)
    (reads : List (List UInt8)) : fillTo size stored reads = stored := by
  cases reads with
  | nil => rfl
  | cons read reads => exact if_pos full

theorem fillTo_whole {size : Nat} (stored : List UInt8) (reads : List (List UInt8))
    (short : stored.length + (reads.dropLast.map List.length).sum < size) :
    fillTo size stored reads = stored ++ reads.flatten := by
  induction reads generalizing stored with
  | nil => simp [fillTo]
  | cons read reads induction =>
      rw [fillTo, if_neg (by omega), List.flatten_cons, ← List.append_assoc]
      cases reads with
      | nil => simp [fillTo]
      | cons next reads =>
          apply induction
          simp only [List.dropLast_cons_cons, List.map_cons, List.sum_cons, List.length_append]
            at short ⊢
          omega

/-! ## The file while it fills -/

/-- The longest read of `ComIO::ReadThread`. -/
def readLimit : Nat := 1024

structure Filling (name size : Nat) (stored : List UInt8) (world : World) : Prop where
  flag : world.rProc.flag = 2
  handle : world.rProc.hfile = .file name
  announced : world.rProc.fileSize = size
  onDisk : world.disk name = some stored
  counted : world.rProc.totalRecv = stored.length
  short : stored.length < size

structure Filled (name : Nat) (stored : List UInt8) (world : World) : Prop where
  flag : world.rProc.flag = 3
  onDisk : world.disk name = some stored

structure Untouched (name : Nat) (world next : World) : Prop where
  dwName : next.rProc.dwName = world.rProc.dwName
  others : ∀ other, other ≠ name → next.disk other = world.disk other

theorem Untouched.refl (name : Nat) (world : World) : Untouched name world world :=
  ⟨rfl, fun _ _ => rfl⟩

theorem Untouched.trans {name : Nat} {first second third : World}
    (earlier : Untouched name first second) (later : Untouched name second third) :
    Untouched name first third :=
  ⟨later.dwName.trans earlier.dwName,
    fun other different => (later.others other different).trans (earlier.others other different)⟩

theorem fread_begins (world : World) (size : Nat) (positive : 0 < size) :
    Filling world.rProc.dwName size [] (world.fread .full size) ∧
      Untouched world.rProc.dwName world (world.fread .full size) := by
  have nonzero : size ≠ 0 := by omega
  rw [World.fread, if_neg nonzero]
  refine ⟨⟨rfl, rfl, rfl, by simp [World.initFile, FileResults.full], rfl, positive⟩, rfl, ?_⟩
  intro other different
  simp [World.initFile, FileResults.full, different]

variable {name size : Nat} {stored buf : List UInt8} {world : World}

theorem Filling.proc (filling : Filling name size stored world) (noReply : findReply buf = none)
    (limit : size + readLimit ≤ 2 ^ 32) (length : buf.length ≤ readLimit) :
    ∃ next, world.proc .full buf = some next ∧ Untouched name world next ∧
      (size ≤ (stored ++ buf).length → Filled name (stored ++ buf) next) ∧
      ((stored ++ buf).length < size → Filling name size (stored ++ buf) next) := by
  rcases filling with ⟨flag, handle, announced, onDisk, counted, short⟩
  have positive : size ≠ 0 := by omega
  have total : (stored.length + buf.length) % 2 ^ 32 = (stored ++ buf).length := by
    rw [List.length_append]
    apply Nat.mod_eq_of_lt
    omega
  have wrote : world.writeFile .full buf = some (buf.length, { world with
      disk := Function.update world.disk name (some (stored ++ buf)) }) := by
    simp [World.writeFile, handle, FileResults.full, onDisk]
  have stores : world.proc .full buf = world.content .full buf := by
    rw [World.proc, noReply]
  rw [stores, World.content, if_pos flag, wrote]
  dsimp only
  rw [announced, if_neg positive, counted, total]
  by_cases full : (stored ++ buf).length ≥ size
  · rw [if_pos full]
    refine ⟨_, rfl, ⟨rfl, fun other different => ?_⟩, fun _ => ⟨rfl, ?_⟩, fun _ => by omega⟩
    · exact Function.update_of_ne different _ _
    · exact Function.update_self _ _ _
  · rw [if_neg full]
    refine ⟨_, rfl, ⟨rfl, fun other different => ?_⟩, fun _ => absurd ‹_› full,
      fun still => ⟨flag, handle, rfl, ?_, rfl, still⟩⟩
    · exact Function.update_of_ne different _ _
    · exact Function.update_self _ _ _

theorem proc_idle (results : FileResults) (noReply : findReply buf = none)
    (idle : world.rProc.flag ≠ 2) : world.proc results buf = some world := by
  rw [World.proc, noReply]
  exact if_neg idle

/-! ## Feeding reads -/

/-- Reads handed to `proc` one after another, with files that never fail. -/
def feed (reads : List (List UInt8)) (world : World) : Option World :=
  reads.foldlM (fun world read => world.proc .full read) world

theorem feed_cons (read : List UInt8) (reads : List (List UInt8)) (world : World) :
    feed (read :: reads) world = (world.proc .full read).bind (feed reads) := by
  rw [feed, List.foldlM_cons]
  rfl

theorem feed_append (first second : List (List UInt8)) (world : World) :
    feed (first ++ second) world = (feed first world).bind (feed second) := by
  rw [feed, List.foldlM_append]
  rfl

theorem feed_idle {reads : List (List UInt8)} (noReply : ∀ read ∈ reads, findReply read = none)
    (idle : world.rProc.flag ≠ 2) : feed reads world = some world := by
  induction reads with
  | nil => rfl
  | cons read reads induction =>
      rw [feed_cons, proc_idle .full (noReply read List.mem_cons_self) idle]
      exact induction fun later member => noReply later (List.mem_cons_of_mem read member)

theorem Filling.feed {reads : List (List UInt8)} (filling : Filling name size stored world)
    (noReply : ∀ read ∈ reads, findReply read = none) (limit : size + readLimit ≤ 2 ^ 32)
    (lengths : ∀ read ∈ reads, read.length ≤ readLimit) :
    ∃ last, CosmosPC.feed reads world = some last ∧ Untouched name world last ∧
      (size ≤ (fillTo size stored reads).length → Filled name (fillTo size stored reads) last) ∧
      ((fillTo size stored reads).length < size →
        Filling name size (fillTo size stored reads) last) := by
  induction reads generalizing stored world with
  | nil =>
      have short := filling.short
      exact ⟨world, rfl, .refl name world, fun full => absurd full (by simp [fillTo, short]),
        fun _ => filling⟩
  | cons read reads induction =>
      have laterNoReply : ∀ later ∈ reads, findReply later = none :=
        fun later member => noReply later (List.mem_cons_of_mem read member)
      have laterLengths : ∀ later ∈ reads, later.length ≤ readLimit :=
        fun later member => lengths later (List.mem_cons_of_mem read member)
      rcases filling.proc (noReply read List.mem_cons_self) limit
        (lengths read List.mem_cons_self) with ⟨next, taken, kept, full, more⟩
      rw [feed_cons, taken, fillTo, if_neg (Nat.not_le_of_lt filling.short)]
      by_cases reached : size ≤ (stored ++ read).length
      · have filled := full reached
        rw [fillTo_full reached]
        refine ⟨next, feed_idle laterNoReply (by simp [filled.flag]), kept, fun _ => filled,
          fun short => ?_⟩
        omega
      · rcases induction (more (Nat.lt_of_not_le reached)) laterNoReply laterLengths with
          ⟨last, fed, keptLater, outcome⟩
        exact ⟨last, fed, kept.trans keptLater, outcome⟩

theorem proc_settled (results : FileResults) (idle : world.rProc.flag ≠ 2)
    (nothing : ∀ text, findReply buf = some (freadIndex, text) →
      dword (strtol text) = 0 ∧ world.rProc.flag = 1) :
    ∃ next, world.proc results buf = some next ∧ next.rProc.flag = world.rProc.flag ∧
      next.disk = world.disk := by
  cases reply : findReply buf with
  | none => exact ⟨world, proc_idle results reply idle, rfl, rfl⟩
  | some found =>
      rcases found with ⟨index, text⟩
      by_cases size : index = 2
      · subst size
        exact ⟨world.fsize (dword (strtol text)), by simp only [World.proc, reply], rfl, rfl⟩
      · by_cases read : index = 3
        · subst read
          rcases nothing text reply with ⟨zero, asked⟩
          refine ⟨world.fread results (dword (strtol text)), by simp only [World.proc, reply], ?_⟩
          rw [World.fread, if_pos zero]
          exact ⟨asked.symm, rfl⟩
        · exact ⟨world, by simp [World.proc, reply, size, read], rfl, rfl⟩

theorem feed_settled {reads : List (List UInt8)} (idle : world.rProc.flag ≠ 2)
    (nothing : ∀ read ∈ reads, ∀ text, findReply read = some (freadIndex, text) →
      dword (strtol text) = 0 ∧ world.rProc.flag = 1) :
    ∃ last, feed reads world = some last ∧ last.rProc.flag = world.rProc.flag ∧
      last.disk = world.disk := by
  induction reads generalizing world with
  | nil => exact ⟨world, rfl, rfl, rfl⟩
  | cons read reads induction =>
      rcases proc_settled .full idle (nothing read List.mem_cons_self) with
        ⟨next, taken, flag, disk⟩
      have still : next.rProc.flag ≠ 2 := by rwa [flag]
      rcases induction still (fun later member => by
          rw [flag]
          exact nothing later (List.mem_cons_of_mem read member)) with
        ⟨last, fed, flagLast, diskLast⟩
      exact ⟨last, by rw [feed_cons, taken, Option.bind_some, fed], flagLast.trans flag,
        diskLast.trans disk⟩

/-- Reads of which only the last reaches the size are all in the file. -/
theorem Filling.filled {reads : List (List UInt8)} (filling : Filling name size [] world)
    (noReply : ∀ read ∈ reads, findReply read = none) (limit : size + readLimit ≤ 2 ^ 32)
    (lengths : ∀ read ∈ reads, read.length ≤ readLimit)
    (before : (reads.dropLast.map List.length).sum < size)
    (enough : size ≤ reads.flatten.length) :
    ∃ last, CosmosPC.feed reads world = some last ∧ Filled name reads.flatten last := by
  rcases filling.feed noReply limit lengths with ⟨last, fed, _, full, _⟩
  rw [fillTo_whole [] reads (by rwa [List.length_nil, Nat.zero_add]), List.nil_append] at full
  exact ⟨last, fed, full enough⟩

/-! ## The whole download -/

theorem dropLast_lengths {reads : List (List UInt8)} (nonempty : reads ≠ [])
    (positive : ∀ read ∈ reads, 1 ≤ read.length) :
    (reads.dropLast.map List.length).sum < reads.flatten.length := by
  rcases List.eq_nil_or_concat reads with none | ⟨earlier, last, rfl⟩
  · exact absurd none nonempty
  · have lastPositive := positive last (by simp)
    simp only [List.concat_eq_append, List.dropLast_concat, List.flatten_append,
      List.flatten_singleton, List.length_append, List.length_flatten]
    omega

/-- The size that `proc` reads out of an answer: `strtol` goes no further than
the greatest `long`. -/
def sizeRead (announced : Nat) : Nat := min announced (2 ^ 31 - 1)

theorem dword_strtol_text (size : Nat) :
    dword (strtol (Decimal.text size ++ [carriageReturn])) = sizeRead size := by
  rw [strtol, strtolNumber_text, dword, sizeRead]
  omega

theorem proc_freadLine (results : FileResults) (size : Nat) (world : World) :
    world.proc results (freadLine size) = some (world.fread results (sizeRead size)) := by
  rw [World.proc, findReply_freadLine]
  exact congrArg (fun read => some (world.fread results read)) (dword_strtol_text size)

theorem feed_freadLine (size : Nat) (reads : List (List UInt8)) (world : World) :
    feed (freadLine size :: reads) world = feed reads (world.fread .full (sizeRead size)) := by
  rw [feed_cons, proc_freadLine]
  rfl

theorem fillTo_isPrefix (size : Nat) (stored : List UInt8) (reads : List (List UInt8)) :
    fillTo size stored reads <+: stored ++ reads.flatten := by
  induction reads generalizing stored with
  | nil => simp [fillTo]
  | cons read reads induction =>
      by_cases full : stored.length ≥ size
      · rw [fillTo_full full]
        exact List.prefix_append _ _
      · rw [fillTo, if_neg full, List.flatten_cons, ← List.append_assoc]
        exact induction (stored ++ read)

theorem fillTo_reaches {size : Nat} (stored : List UInt8) (reads : List (List UInt8))
    (enough : size ≤ stored.length + reads.flatten.length) :
    size ≤ (fillTo size stored reads).length := by
  induction reads generalizing stored with
  | nil => simpa [fillTo] using enough
  | cons read reads induction =>
      by_cases full : stored.length ≥ size
      · rwa [fillTo_full full]
      · rw [fillTo, if_neg full]
        apply induction
        simp only [List.flatten_cons, List.length_append] at enough ⊢
        omega

def fileLength (world : World) (name : Nat) : Nat := ((world.disk name).getD []).length

/-- How many bytes a read adds to a file at most: a reply adds none. -/
def storable (read : List UInt8) : Nat := if findReply read = none then read.length else 0

theorem fileLength_stored (world : World) (name file count : Nat) (read : List UInt8)
    (noReply : findReply read = none) :
    fileLength (world.stored file read count) name ≤ fileLength world name + storable read := by
  rw [storable, if_pos noReply]
  unfold fileLength World.stored
  dsimp only
  by_cases same : name = file
  · simp [same]
  · rw [Function.update_of_ne same]
    exact Nat.le_add_right _ _

theorem fileLength_proc {read : List UInt8} {world next : World} (name : Nat)
    (taken : world.proc .full read = some next) :
    fileLength next name ≤ fileLength world name + storable read := by
  cases World.proc_handled .full taken with
  | ignored => exact Nat.le_add_right _ _
  | sized => exact Nat.le_add_right _ _
  | absent => exact Nat.le_add_right _ _
  | begun text reply nonzero =>
      rw [World.fread, if_neg nonzero]
      by_cases same : name = world.rProc.dwName
      · simp [fileLength, World.initFile, FileResults.full, same]
      · simp [fileLength, World.initFile, FileResults.full, same]
  | grown file count noReply => exact fileLength_stored world name file count read noReply
  | finished file count noReply => exact fileLength_stored world name file count read noReply

theorem fileLength_feed {reads : List (List UInt8)} {world last : World} (name : Nat)
    (fed : feed reads world = some last) :
    fileLength last name ≤ fileLength world name + (reads.map storable).sum := by
  induction reads generalizing world with
  | nil =>
      cases fed
      exact Nat.le_add_right _ _
  | cons read reads induction =>
      rw [feed_cons] at fed
      rcases Option.bind_eq_some_iff.mp fed with ⟨next, taken, rest⟩
      have first := fileLength_proc name taken
      have later := induction rest
      rw [List.map_cons, List.sum_cons]
      omega

theorem storable_lt {reads : List (List UInt8)} (reply : ∃ read ∈ reads, findReply read ≠ none)
    (nonempty : ∀ read ∈ reads, read ≠ []) :
    (reads.map storable).sum < reads.flatten.length := by
  rw [List.length_flatten]
  apply List.sum_lt_sum
  · intro read _
    unfold storable
    split
    · exact Nat.le_refl _
    · exact Nat.zero_le _
  · rcases reply with ⟨read, member, isReply⟩
    refine ⟨read, member, ?_⟩
    rw [storable, if_neg isReply]
    exact List.length_pos_iff.mpr (nonempty read member)

theorem noReply_of_stored {reads : List (List UInt8)} {world last : World} {name : Nat}
    (nonempty : ∀ read ∈ reads, read ≠ []) (empty : fileLength world name = 0)
    (fed : feed reads world = some last) (stored : last.disk name = some reads.flatten) :
    ∀ read ∈ reads, findReply read = none := by
  by_contra some
  have reply : ∃ read ∈ reads, findReply read ≠ none := by simpa using some
  have bound := fileLength_feed name fed
  have lost := storable_lt reply nonempty
  have length : fileLength last name = reads.flatten.length := by simp [fileLength, stored]
  omega

theorem short_of_stored {name size : Nat} {world last : World} {earlier : List (List UInt8)}
    {final : List UInt8} (filling : Filling name size [] world) (limit : size + readLimit ≤ 2 ^ 32)
    (noReply : ∀ read ∈ earlier ++ [final], findReply read = none)
    (short : ∀ read ∈ earlier ++ [final], read.length ≤ readLimit) (ends : final ≠ [])
    (fed : feed (earlier ++ [final]) world = some last)
    (stored : last.disk name = some (earlier ++ [final]).flatten) :
    earlier.flatten.length < size := by
  apply Nat.lt_of_not_le
  intro reached
  rcases filling.feed
    (fun read (member : read ∈ earlier) => noReply read (List.mem_append_left _ member)) limit
    (fun read member => short read (List.mem_append_left _ member))
    with ⟨middle, fedEarlier, _, full, _⟩
  have filled := full (fillTo_reaches [] earlier (by simpa using reached))
  have idle : ∀ read ∈ [final], findReply read = none := fun read member =>
    noReply read (by simp [List.mem_singleton.mp member])
  rw [feed_append, fedEarlier, Option.bind_some, feed_idle idle (by simp [filled.flag])] at fed
  cases fed
  have same := Option.some.inj (stored.symm.trans filled.onDisk)
  have bound := (fillTo_isPrefix size [] earlier).length_le
  have positive := List.length_pos_iff.mpr ends
  rw [← same, List.nil_append, List.flatten_concat, List.length_append] at bound
  omega

/-- A download is transparent just when none of its reads looks like a reply and
the greatest `long` is not reached before the last of them. -/
theorem download_transparent_iff (world : World) (content : List UInt8)
    (reads : List (List UInt8)) (positive : content ≠ [])
    (cut : reads.flatten = content)
    (lengths : ∀ read ∈ reads, 1 ≤ read.length ∧ read.length ≤ readLimit) :
    (∃ last, feed (freadLine content.length :: reads) world = some last ∧
        last.rProc.flag = 3 ∧ last.disk world.rProc.dwName = some content) ↔
      (∀ read ∈ reads, findReply read = none) ∧
        (reads.dropLast.map List.length).sum < 2 ^ 31 - 1 := by
  have nonempty : ∀ read ∈ reads, read ≠ [] := fun read member =>
    List.length_pos_iff.mp (lengths read member).1
  have short : ∀ read ∈ reads, read.length ≤ readLimit := fun read member =>
    (lengths read member).2
  have size : 0 < content.length := List.length_pos_iff.mpr positive
  rcases List.eq_nil_or_concat reads with none | ⟨earlier, final, split⟩
  · rw [none] at cut
    exact absurd cut.symm positive
  rw [List.concat_eq_append] at split
  have total : content.length = earlier.flatten.length + final.length := by
    rw [← cut, split]
    simp
  have finalMember : final ∈ reads := by simp [split]
  have finalLength := (lengths final finalMember).1
  have before : (reads.dropLast.map List.length).sum = earlier.flatten.length := by
    rw [split, List.dropLast_concat, List.length_flatten]
  have limit : sizeRead content.length + readLimit ≤ 2 ^ 32 := by
    unfold sizeRead readLimit
    omega
  have announced : 0 < sizeRead content.length := by
    unfold sizeRead
    omega
  rcases fread_begins world (sizeRead content.length) announced with ⟨filling, _⟩
  rw [feed_freadLine, before]
  constructor
  · rintro ⟨last, fed, _, onDisk⟩
    rw [← cut] at onDisk
    have noReply := noReply_of_stored nonempty (by simp [fileLength, filling.onDisk]) fed onDisk
    refine ⟨noReply, ?_⟩
    subst split
    have unfinished := short_of_stored filling limit noReply short (nonempty final finalMember)
      fed onDisk
    rw [sizeRead] at unfinished
    omega
  · rintro ⟨noReply, below⟩
    have unfinished : (reads.dropLast.map List.length).sum < sizeRead content.length := by
      rw [before, sizeRead]
      omega
    have enough : sizeRead content.length ≤ reads.flatten.length := by
      rw [cut]
      exact Nat.min_le_left _ _
    rcases filling.filled noReply limit short unfinished enough with ⟨last, fed, filled⟩
    exact ⟨last, fed, filled.flag, cut ▸ filled.onDisk⟩

def awaiting (name : Nat) : World := ⟨{ flag := 1, dwName := name }, 0, fun _ => none⟩

theorem download_transparent_iff_two_reads :
    (∃ last, feed (freadLine [65, 44].length :: [[65], [44]]) (awaiting 1) = some last ∧
        last.rProc.flag = 3 ∧ last.disk (awaiting 1).rProc.dwName = some [65, 44]) ↔
      (∀ read ∈ [[65], [44]], findReply read = none) ∧
        (([[65], [44]] : List (List UInt8)).dropLast.map List.length).sum < 2 ^ 31 - 1 :=
  download_transparent_iff (awaiting 1) [65, 44] [[65], [44]] (by decide) rfl (by decide)

/-- A log of the six bytes `CHECK,` is taken for a reply. -/
theorem content_taken_for_reply :
    ¬∃ last, feed (freadLine 6 :: [asciiBytes ['C', 'H', 'E', 'C', 'K', ',']]) (awaiting 1) =
        some last ∧
      last.rProc.flag = 3 ∧
      last.disk (awaiting 1).rProc.dwName = some (asciiBytes ['C', 'H', 'E', 'C', 'K', ',']) := by
  rintro ⟨last, fed, flag, _⟩
  rw [feed_freadLine, feed_cons, World.proc] at fed
  have ends : some last = some ((awaiting 1).fread .full (sizeRead 6)) := by
    rw [← fed]
    rfl
  rw [Option.some.inj ends] at flag
  exact absurd flag (by decide)

/-! ## Two ways to cut one stream -/

structure AnswerCut (content further : List UInt8) (reads : List (List UInt8)) : Prop where
  lengths : ∀ read ∈ reads, 1 ≤ read.length ∧ read.length ≤ readLimit
  stream : reads.flatten = freadLine content.length ++ content ++ further

/-- The line is a read of its own, and a read ends where the announced content,
and what of it a `long` can count, is at its end. -/
def FramedReads (content : List UInt8) (reads : List (List UInt8)) : Prop :=
  ∃ counted uncounted rest, reads = freadLine content.length :: (counted ++ uncounted ++ rest) ∧
    counted.flatten = content.take (sizeRead content.length) ∧
    uncounted.flatten = content.drop (sizeRead content.length)

/-- No stretch of the bytes that one read can deliver is an `FREAD` reply. -/
def NoFurtherReply (further : List UInt8) : Prop :=
  ∀ piece, piece <:+: further → piece.length ≤ readLimit →
    ∀ text, findReply piece ≠ some (freadIndex, text)

theorem infix_flatten {read : List UInt8} {reads : List (List UInt8)} (member : read ∈ reads) :
    read <:+: reads.flatten := by
  rcases List.append_of_mem member with ⟨before, after, rfl⟩
  exact ⟨before.flatten, after.flatten, by simp⟩

/-- Two cuts of one stream end in the same flag and the same file. -/
def SameOutcome (world : World) (first second : List (List UInt8)) : Prop :=
  ∃ left right, feed first world = some left ∧ feed second world = some right ∧
    left.rProc.flag = right.rProc.flag ∧
    left.disk world.rProc.dwName = right.disk world.rProc.dwName

variable {content further : List UInt8} {reads : List (List UInt8)}

theorem AnswerCut.outcome_empty (answer : AnswerCut [] further reads) (world : World)
    (started : world.rProc.flag = 1) (noReply : NoFurtherReply further) :
    ∃ last, feed reads world = some last ∧ last.rProc.flag = 1 ∧ last.disk = world.disk := by
  have nothing : ∀ read ∈ reads, ∀ text, findReply read = some (freadIndex, text) →
      dword (strtol text) = 0 ∧ world.rProc.flag = 1 := fun read member text reply => by
    have stream := answer.stream
    rw [List.append_nil] at stream
    have part : read <:+: freadLine 0 ++ further := stream ▸ infix_flatten member
    refine ⟨dword_strtol_eq_zero part (fun piece inside shorter => ?_) reply, started⟩
    exact noReply piece inside (shorter.trans (answer.lengths read member).2)
  rcases feed_settled (by simp [started]) nothing with ⟨last, fed, flag, disk⟩
  exact ⟨last, fed, flag.trans started, disk⟩

theorem AnswerCut.outcome (answer : AnswerCut content further reads)
    (framed : FramedReads content reads) (world : World) (nonempty : content ≠ [])
    (noTag : ∀ tag ∈ cmdTag, ¬tag <:+: content) (noReply : NoFurtherReply further) :
    ∃ last, feed reads world = some last ∧ last.rProc.flag = 3 ∧
      last.disk world.rProc.dwName = some (content.take (sizeRead content.length)) := by
  rcases answer with ⟨lengths, stream⟩
  rcases framed with ⟨counted, uncounted, rest, rfl, first, second⟩
  have third : rest.flatten = further := by
    simpa [first, second, ← List.append_assoc] using stream
  have noReplyCounted : ∀ read ∈ counted, findReply read = none := fun read member => by
    apply findReply_eq_none noTag
    exact ((infix_flatten member).trans (by rw [first])).trans (List.take_prefix _ _).isInfix
  have noReplyUncounted : ∀ read ∈ uncounted, findReply read = none := fun read member => by
    apply findReply_eq_none noTag
    exact ((infix_flatten member).trans (by rw [second])).trans (List.drop_suffix _ _).isInfix
  have noReplyLater : ∀ read ∈ uncounted ++ rest, ∀ text,
      findReply read ≠ some (freadIndex, text) := fun read member text reply => by
    rcases List.mem_append.mp member with inside | behind
    · cases (noReplyUncounted read inside).symm.trans reply
    · exact noReply read (third ▸ infix_flatten behind) (lengths read (by simp [behind])).2 text
        reply
  have short : ∀ read ∈ counted, read.length ≤ readLimit := fun read member =>
    (lengths read (by simp [member])).2
  have length : 0 < content.length := List.length_pos_iff.mpr nonempty
  have positive : 0 < sizeRead content.length := by
    unfold sizeRead
    omega
  have limit : sizeRead content.length + readLimit ≤ 2 ^ 32 := by
    unfold sizeRead readLimit
    omega
  have flattened : counted.flatten.length = sizeRead content.length := by
    rw [first, List.length_take, sizeRead]
    omega
  have someReads : counted ≠ [] := by
    rintro rfl
    simp at flattened
    omega
  have before := dropLast_lengths someReads fun read member =>
    (lengths read (by simp [member])).1
  rcases fread_begins world (sizeRead content.length) positive with ⟨filling, _⟩
  rcases filling.filled noReplyCounted limit short (by omega) (by omega) with
    ⟨middle, fed, filled⟩
  have idle : middle.rProc.flag ≠ 2 := by simp [filled.flag]
  rcases feed_settled idle fun read member text reply =>
    absurd reply (noReplyLater read member text) with ⟨last, fedLater, flag, disk⟩
  refine ⟨last, ?_, flag.trans filled.flag, by rw [disk, filled.onDisk, first]⟩
  rw [feed_freadLine, List.append_assoc, feed_append, fed, Option.bind_some, fedLater]

/-- Any two framed cuts of an answer to one request end in the same flag and the
same file; an answer without content need not be framed. -/
theorem outcome_of_framed_cuts (world : World) (content further : List UInt8)
    (first second : List (List UInt8)) (started : world.rProc.flag = 1)
    (noTag : ∀ tag ∈ cmdTag, ¬tag <:+: content) (noReply : NoFurtherReply further)
    (firstCut : AnswerCut content further first) (secondCut : AnswerCut content further second)
    (firstFramed : content ≠ [] → FramedReads content first)
    (secondFramed : content ≠ [] → FramedReads content second) :
    SameOutcome world first second := by
  by_cases empty : content = []
  · subst empty
    rcases firstCut.outcome_empty world started noReply with ⟨left, fed, flag, disk⟩
    rcases secondCut.outcome_empty world started noReply with ⟨right, fed', flag', disk'⟩
    exact ⟨left, right, fed, fed', flag.trans flag'.symm, by rw [disk, disk']⟩
  · rcases firstCut.outcome (firstFramed empty) world empty noTag noReply with
      ⟨left, fed, flag, onDisk⟩
    rcases secondCut.outcome (secondFramed empty) world empty noTag noReply with
      ⟨right, fed', flag', onDisk'⟩
    exact ⟨left, right, fed, fed', flag.trans flag'.symm, onDisk.trans onDisk'.symm⟩

theorem outcome_of_framed_cuts_two_ways :
    SameOutcome (awaiting 1) (freadLine 2 :: [[65], [66], [67]])
      (freadLine 2 :: [[65, 66], [67]]) :=
  outcome_of_framed_cuts (awaiting 1) [65, 66] [67] _ _ rfl (by decide)
    (fun piece inside _ text reply => by
      have noTag : ∀ tag ∈ cmdTag, ¬tag <:+: [67] := by decide
      cases (findReply_eq_none noTag inside).symm.trans reply)
    ⟨by decide, rfl⟩ ⟨by decide, rfl⟩ (fun _ => ⟨[[65], [66]], [], [[67]], rfl, rfl, rfl⟩)
    fun _ => ⟨[[65, 66]], [], [[67]], rfl, rfl, rfl⟩

theorem not_sameOutcome {world left right : World} {first second : List (List UInt8)}
    (fedFirst : feed first world = some left) (fedSecond : feed second world = some right)
    (differ : left.rProc.flag ≠ right.rProc.flag ∨
      left.disk world.rProc.dwName ≠ right.disk world.rProc.dwName) :
    ¬SameOutcome world first second := by
  rintro ⟨left', right', fedFirst', fedSecond', flags, files⟩
  cases fedFirst.symm.trans fedFirst'
  cases fedSecond.symm.trans fedSecond'
  exact differ.elim (absurd flags) (absurd files)

theorem Filling.filled_replicate {name size : Nat} {world : World} {read : List UInt8}
    (filling : Filling name size [] world) (length : Nat) (noReply : findReply read = none)
    (limit : size + readLimit ≤ 2 ^ 32) (short : read.length ≤ readLimit)
    (before : (length - 1) * read.length < size) (enough : size ≤ length * read.length) :
    ∃ last content, CosmosPC.feed (List.replicate length read) world = some last ∧
      Filled name content last ∧ content.length = length * read.length := by
  have total : (List.replicate length read).flatten.length = length * read.length := by simp
  have noReplies : ∀ other ∈ List.replicate length read, findReply other = none :=
    fun other member => List.eq_of_mem_replicate member ▸ noReply
  rcases filling.filled noReplies limit
    (fun other member => List.eq_of_mem_replicate member ▸ short)
    (by simpa using before) (total ▸ enough) with ⟨last, fed, filled⟩
  exact ⟨last, _, fed, filled, total⟩

/-- Beyond the greatest `long` a file ends where the first read ends that reaches
it, wherever that is. -/
theorem not_sameOutcome_beyond_long {count half : Nat} (double : count = 2 * half)
    (huge : count = 2 ^ 31) :
    ¬SameOutcome (awaiting 1) (freadLine count :: List.replicate count [65])
      (freadLine count :: List.replicate half [65, 65]) := by
  have counted : sizeRead count = count - 1 := by
    unfold sizeRead
    omega
  have limit : count - 1 + readLimit ≤ 2 ^ 32 := by
    unfold readLimit
    omega
  rcases fread_begins (awaiting 1) (count - 1) (by omega) with ⟨filling, _⟩
  rcases filling.filled_replicate (count - 1) (by decide : findReply [65] = none) limit
    (by decide) (by rw [List.length_singleton]; omega) (by rw [List.length_singleton]; omega) with
    ⟨left, single, fedLeft, filledLeft, lengthLeft⟩
  rcases filling.filled_replicate half (by decide : findReply [65, 65] = none) limit
    (by decide) (by change (half - 1) * 2 < count - 1; omega)
    (by change count - 1 ≤ half * 2; omega) with ⟨right, pairs, fedRight, filledRight, lengthRight⟩
  have split : List.replicate count [(65 : UInt8)] = List.replicate (count - 1) [65] ++ [[65]] := by
    rw [← List.replicate_succ', Nat.sub_add_cancel (by omega)]
  have last : feed [[65]] left = some left :=
    feed_idle (by decide) (by simp [filledLeft.flag])
  have differ : left.disk (awaiting 1).rProc.dwName ≠ right.disk (awaiting 1).rProc.dwName := by
    rw [filledLeft.onDisk, filledRight.onDisk]
    intro same
    rw [Option.some.inj same] at lengthLeft
    change pairs.length = (count - 1) * 1 at lengthLeft
    change pairs.length = half * 2 at lengthRight
    omega
  refine not_sameOutcome ?_ ?_ (Or.inr differ)
  · rw [feed_freadLine, counted, split, feed_append, fedLeft, Option.bind_some, last]
  · rw [feed_freadLine, counted, fedRight]

/-- A line in two reads is no reply, content in one read with it is lost, what
follows the content in one read with it is stored, a late reply counts only if it
is whole, and a size that no `long` can count lets the reads decide. -/
theorem outcome_of_unframed_cuts :
    ¬SameOutcome (awaiting 1) [freadLine 1, [65]]
        [(freadLine 1).take 3, (freadLine 1).drop 3, [65]] ∧
      ¬SameOutcome (awaiting 1) [freadLine 1, [65]] [freadLine 1 ++ [65]] ∧
      ¬SameOutcome (awaiting 1) [freadLine 1, [65], [66]] [freadLine 1, [65, 66]] ∧
      ¬SameOutcome (awaiting 1) [freadLine 1, [65], freadLine 0]
        [freadLine 1, [65], (freadLine 0).take 4, (freadLine 0).drop 4] ∧
      ¬SameOutcome (awaiting 1) (freadLine (2 ^ 31) :: List.replicate (2 ^ 31) [65])
        (freadLine (2 ^ 31) :: List.replicate (2 ^ 30) [65, 65]) :=
  ⟨not_sameOutcome rfl rfl (Or.inl (by decide)), not_sameOutcome rfl rfl (Or.inl (by decide)),
    not_sameOutcome rfl rfl (Or.inr (by decide)), not_sameOutcome rfl rfl (Or.inl (by decide)),
    not_sameOutcome_beyond_long (by norm_num) rfl⟩

end CosmosPC
