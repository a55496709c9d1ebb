import Mathlib.Data.List.Basic

/-! # Self-delimiting frames

A stream of frames whose first element says how long they are. The stream can be
split without looking at what comes later, so a stream that breaks off is split
into the first of the frames, or not at all. -/

namespace CosmosPC.SelfDelimiting

variable {Element : Type} (lengthOf : Element → Option Nat)

/-- The frames of a stream, if it ends with one of them. -/
def split (stream : List Element) : Option (List (List Element)) :=
  match stream with
  | [] => some []
  | first :: rest =>
      match lengthOf first with
      | some (more + 1) =>
          if more ≤ rest.length then
            (split (rest.drop more)).map ((first :: rest.take more) :: ·)
          else none
      | _ => none
termination_by stream.length
decreasing_by
  simp only [List.length_drop, List.length_cons]
  omega

def Framed (frame : List Element) : Prop :=
  ∃ first rest, frame = first :: rest ∧ lengthOf first = some (rest.length + 1)

def Unfinished (tail : List Element) : Prop :=
  ∀ first rest, tail = first :: rest →
    ∃ more, lengthOf first = some (more + 1) ∧ rest.length < more

variable {lengthOf}

theorem split_nil : split lengthOf [] = some [] := by
  rw [split]

theorem split_cons {first : Element} {more : Nat} (length : lengthOf first = some (more + 1))
    (rest : List Element) :
    split lengthOf (first :: rest) =
      if more ≤ rest.length then
        (split lengthOf (rest.drop more)).map ((first :: rest.take more) :: ·)
      else none := by
  rw [split, length]

theorem split_append {frame : List Element} (framed : Framed lengthOf frame)
    (stream : List Element) :
    split lengthOf (frame ++ stream) = (split lengthOf stream).map (frame :: ·) := by
  rcases framed with ⟨first, rest, rfl, length⟩
  rw [List.cons_append, split_cons length,
    if_pos (by rw [List.length_append]; exact Nat.le_add_right _ _), List.drop_left,
    List.take_left]

theorem split_flatten {frames : List (List Element)}
    (framed : ∀ frame ∈ frames, Framed lengthOf frame) :
    split lengthOf frames.flatten = some frames := by
  induction frames with
  | nil => exact split_nil
  | cons frame frames induction =>
      rw [List.flatten_cons, split_append (framed frame List.mem_cons_self),
        induction fun later member => framed later (List.mem_cons_of_mem frame member)]
      rfl

/-- A beginning of a stream that ends in the middle of a frame, or not, gives the
first of its frames, if it gives any. -/
theorem split_of_prefix {frames : List (List Element)} {tail stream : List Element}
    (framed : ∀ frame ∈ frames, Framed lengthOf frame) (broken : Unfinished lengthOf tail)
    (begins : stream <+: frames.flatten ++ tail) {parts : List (List Element)}
    (parted : split lengthOf stream = some parts) : parts <+: frames := by
  induction frames generalizing stream parts with
  | nil =>
      rcases stream with _ | ⟨first, rest⟩
      · rw [split_nil] at parted
        cases parted
        exact List.prefix_rfl
      · rw [List.flatten_nil, List.nil_append] at begins
        rcases begins with ⟨more, whole⟩
        rcases broken first (rest ++ more) whole.symm with ⟨count, length, short⟩
        rw [List.length_append] at short
        rw [split_cons length, if_neg (by omega)] at parted
        cases parted
  | cons frame frames induction =>
      rcases stream with _ | ⟨first, rest⟩
      · rw [split_nil] at parted
        cases parted
        exact List.nil_prefix
      · rcases framed frame List.mem_cons_self with ⟨start, body, rfl, length⟩
        rw [List.flatten_cons, List.cons_append, List.cons_append, List.append_assoc,
          List.cons_prefix_cons] at begins
        rcases begins with ⟨rfl, begins⟩
        rw [split_cons length] at parted
        by_cases enough : body.length ≤ rest.length
        · rw [if_pos enough] at parted
          rcases Option.map_eq_some_iff.mp parted with ⟨others, splits, rfl⟩
          rcases begins with ⟨more, whole⟩
          have same : rest.take body.length = body := by
            have cut := congrArg (List.take body.length) whole
            rwa [List.take_append_of_le_length enough, List.take_left] at cut
          have left : rest.drop body.length ++ more = frames.flatten ++ tail := by
            have cut := congrArg (List.drop body.length) whole
            rwa [List.drop_append_of_le_length enough, List.drop_left] at cut
          rw [same, List.cons_prefix_cons]
          exact ⟨rfl, induction (fun later member =>
            framed later (List.mem_cons_of_mem _ member)) ⟨more, left⟩ splits⟩
        · rw [if_neg enough] at parted
          cases parted

/-! ## What any stream is made of -/

theorem Framed.cons {frame : List Element} (framed : Framed lengthOf frame)
    {frames : List (List Element)} (others : ∀ frame ∈ frames, Framed lengthOf frame) :
    ∀ one ∈ frame :: frames, Framed lengthOf one := by
  intro one member
  rcases List.mem_cons.mp member with rfl | later
  · exact framed
  · exact others one later

theorem exists_division (total : ∀ first, ∃ more, lengthOf first = some (more + 1))
    (stream : List Element) :
    ∃ frames tail, stream = List.flatten frames ++ tail ∧
      (∀ frame ∈ frames, Framed lengthOf frame) ∧ Unfinished lengthOf tail := by
  generalize bound : stream.length = count
  induction count using Nat.strongRecOn generalizing stream with
  | _ count induction =>
      rcases stream with _ | ⟨first, rest⟩
      · exact ⟨[], [], rfl, by simp, fun _ _ same => by cases same⟩
      · rcases total first with ⟨more, length⟩
        by_cases enough : more ≤ rest.length
        · have shorter : (rest.drop more).length < count := by
            rw [List.length_drop, ← bound, List.length_cons]
            omega
          rcases induction _ shorter (rest.drop more) rfl with
            ⟨frames, tail, divided, framed, broken⟩
          have frame : Framed lengthOf (first :: rest.take more) :=
            ⟨first, rest.take more, rfl, by rw [List.length_take_of_le enough, length]⟩
          refine ⟨(first :: rest.take more) :: frames, tail, ?_, frame.cons framed, broken⟩
          rw [List.flatten_cons, List.append_assoc, ← divided, List.cons_append,
            List.take_append_drop]
        · refine ⟨[], first :: rest, rfl, by simp, ?_⟩
          rintro _ _ ⟨⟩
          exact ⟨more, length, Nat.lt_of_not_le enough⟩

theorem Unfinished.no_frame {frame tail more : List Element} (broken : Unfinished lengthOf tail)
    (framed : Framed lengthOf frame) : tail ≠ frame ++ more := by
  rintro rfl
  rcases framed with ⟨first, body, rfl, length⟩
  rcases broken first (body ++ more) rfl with ⟨count, same, short⟩
  rw [length] at same
  cases same
  rw [List.length_append] at short
  omega

/-- There is one way only to divide a stream. -/
theorem division_unique {frames others : List (List Element)} {tail rest : List Element}
    (framed : ∀ frame ∈ frames, Framed lengthOf frame)
    (othersFramed : ∀ frame ∈ others, Framed lengthOf frame)
    (tailBroken : Unfinished lengthOf tail) (restBroken : Unfinished lengthOf rest)
    (same : frames.flatten ++ tail = others.flatten ++ rest) : frames = others ∧ tail = rest := by
  induction frames generalizing others with
  | nil =>
      cases others with
      | nil => exact ⟨rfl, same⟩
      | cons other others =>
          rw [List.flatten_cons, List.append_assoc] at same
          exact absurd same (tailBroken.no_frame (othersFramed other List.mem_cons_self))
  | cons frame frames induction =>
      have first := framed frame List.mem_cons_self
      cases others with
      | nil =>
          rw [List.flatten_cons, List.append_assoc] at same
          exact absurd same.symm (restBroken.no_frame first)
      | cons other others =>
          rcases first with ⟨start, body, rfl, length⟩
          rcases othersFramed other List.mem_cons_self with
            ⟨otherStart, otherBody, rfl, otherLength⟩
          rw [List.flatten_cons, List.flatten_cons, List.append_assoc, List.append_assoc,
            List.cons_append, List.cons_append, List.cons.injEq] at same
          rcases same with ⟨rfl, same⟩
          have lengths : body.length = otherBody.length :=
            Nat.succ.inj (Option.some.inj (length.symm.trans otherLength))
          rcases List.append_inj same lengths with ⟨rfl, left⟩
          rcases induction (fun one member => framed one (List.mem_cons_of_mem _ member))
            (fun one member => othersFramed one (List.mem_cons_of_mem _ member)) left with
            ⟨rfl, tails⟩
          exact ⟨rfl, tails⟩

end CosmosPC.SelfDelimiting
