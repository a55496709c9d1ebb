import Mathlib.Data.List.Basic

/-! # Sections under one lock

Threads that are each at some place of their code, and the number of the one
that holds the lock. The places inside the sections are those at which a thread
holds it. What the lock protects has a resource invariant, which is true while
nobody holds the lock, and an assertion at each place inside. -/

namespace CosmosPC

structure LockHeld (inside : Place → Prop) (holder : Option Nat) (threads : List Place) :
    Prop where
  within : ∀ k, holder = some k → ∃ place, threads[k]? = some place ∧ inside place
  alone : ∀ k place, threads[k]? = some place → inside place → holder = some k

namespace LockHeld

variable {inside : Place → Prop} {holder : Option Nat} {threads : List Place} {k : Nat}
  {place after : Place}

theorem initially : LockHeld inside none [] := by
  refine ⟨fun k same => ?_, fun k place standing => ?_⟩
  · cases same
  · cases standing

/-- No two threads are inside a section. -/
theorem exclusive (held : LockHeld inside holder threads) {j : Nat} {other : Place}
    (standing : threads[k]? = some place) (within : inside place)
    (standingOther : threads[j]? = some other) (withinOther : inside other) : k = j :=
  Option.some.inj ((held.alone k place standing within).symm.trans
    (held.alone j other standingOther withinOther))

theorem enter (held : LockHeld inside none threads) (standing : threads[k]? = some place)
    (within : inside after) : LockHeld inside (some k) (threads.set k after) := by
  have bound := (List.getElem?_eq_some_iff.mp standing).1
  refine ⟨fun j same => ?_, fun j found standingFound withinFound => ?_⟩
  · cases same
    exact ⟨after, List.getElem?_set_self bound, within⟩
  · by_cases own : k = j
    · rw [own]
    · rw [List.getElem?_set_ne own] at standingFound
      exact absurd (held.alone j found standingFound withinFound) (by simp)

theorem leave (held : LockHeld inside holder threads) (standing : threads[k]? = some place)
    (within : inside place) (left : ¬inside after) :
    LockHeld inside none (threads.set k after) := by
  refine ⟨fun j same => ?_, fun j found standingFound withinFound => ?_⟩
  · cases same
  · by_cases own : k = j
    · subst own
      rw [List.getElem?_set_self (List.getElem?_eq_some_iff.mp standing).1] at standingFound
      cases standingFound
      exact absurd withinFound left
    · rw [List.getElem?_set_ne own] at standingFound
      exact absurd (held.exclusive standing within standingFound withinFound) own

theorem move (held : LockHeld inside holder threads) (standing : threads[k]? = some place)
    (same : inside after ↔ inside place) : LockHeld inside holder (threads.set k after) := by
  have bound := (List.getElem?_eq_some_iff.mp standing).1
  refine ⟨fun j holds => ?_, fun j found standingFound withinFound => ?_⟩
  · rcases held.within j holds with ⟨found, standingFound, withinFound⟩
    by_cases own : k = j
    · subst own
      cases standing.symm.trans standingFound
      exact ⟨after, List.getElem?_set_self bound, same.mpr withinFound⟩
    · exact ⟨found, (List.getElem?_set_ne own).trans standingFound, withinFound⟩
  · by_cases own : k = j
    · subst own
      rw [List.getElem?_set_self bound] at standingFound
      cases standingFound
      exact held.alone k place standing (same.mp withinFound)
    · rw [List.getElem?_set_ne own] at standingFound
      exact held.alone j found standingFound withinFound

theorem concat (held : LockHeld inside holder threads) (out : ¬inside after) :
    LockHeld inside holder (threads ++ [after]) := by
  refine ⟨fun j holds => ?_, fun j found standingFound withinFound => ?_⟩
  · rcases held.within j holds with ⟨found, standingFound, withinFound⟩
    have bound := (List.getElem?_eq_some_iff.mp standingFound).1
    exact ⟨found, (List.getElem?_append_left bound).trans standingFound, withinFound⟩
  · by_cases before : j < threads.length
    · rw [List.getElem?_append_left before] at standingFound
      exact held.alone j found standingFound withinFound
    · rw [List.getElem?_append_right (Nat.le_of_not_lt before)] at standingFound
      have new := List.mem_of_getElem? standingFound
      rw [List.mem_singleton.mp new] at withinFound
      exact absurd withinFound out

end LockHeld

/-- The resource is in order while the lock is free, and a thread inside a
section finds what its place asserts. -/
structure Protected (inside : Place → Prop) (resource : State → Prop)
    (asserts : State → Place → Prop) (holder : Option Nat) (threads : List Place)
    (state : State) : Prop where
  held : LockHeld inside holder threads
  free : holder = none → resource state
  annotated : ∀ (k : Nat) (place : Place), threads[k]? = some place → inside place →
    asserts state place

namespace Protected

variable {inside : Place → Prop} {resource : State → Prop} {asserts : State → Place → Prop}
  {holder : Option Nat} {threads : List Place} {state next : State} {k : Nat}
  {place after : Place}

theorem initially (first : resource state) : Protected inside resource asserts none [] state :=
  ⟨.initially, fun _ => first, fun _ _ standing => by cases standing⟩

theorem of_own (held : LockHeld inside (some k) (threads.set k after))
    (own : asserts next after) :
    Protected inside resource asserts (some k) (threads.set k after) next := by
  refine ⟨held, fun none => absurd none (by simp), fun j found standing within => ?_⟩
  cases held.alone j found standing within
  have bound := (List.getElem?_eq_some_iff.mp standing).1
  rw [List.length_set] at bound
  rw [List.getElem?_set_self bound] at standing
  cases standing
  exact own

theorem enter (holds : Protected inside resource asserts none threads state)
    (standing : threads[k]? = some place) (within : inside after)
    (taken : resource state → asserts next after) :
    Protected inside resource asserts (some k) (threads.set k after) next :=
  of_own (holds.held.enter standing within) (taken (holds.free rfl))

theorem leave (holds : Protected inside resource asserts holder threads state)
    (standing : threads[k]? = some place) (within : inside place) (left : ¬inside after)
    (given : asserts state place → resource next) :
    Protected inside resource asserts none (threads.set k after) next := by
  have held := holds.held.leave standing within left
  refine ⟨held, fun _ => given (holds.annotated k place standing within),
    fun j found standingFound withinFound => ?_⟩
  cases held.alone j found standingFound withinFound

theorem advance (holds : Protected inside resource asserts holder threads state)
    (standing : threads[k]? = some place) (within : inside place) (stays : inside after)
    (kept : asserts state place → asserts next after) :
    Protected inside resource asserts holder (threads.set k after) next := by
  have own := holds.held.alone k place standing within
  subst own
  exact of_own (holds.held.move standing ⟨fun _ => within, fun _ => stays⟩)
    (kept (holds.annotated k place standing within))

/-- A thread outside moves, and leaves alone what the lock protects. -/
theorem roam (holds : Protected inside resource asserts holder threads state)
    (standing : threads[k]? = some place) (out : ¬inside place) (stays : ¬inside after)
    (kept : resource state → resource next)
    (others : ∀ other, inside other → asserts state other → asserts next other) :
    Protected inside resource asserts holder (threads.set k after) next := by
  have bound := (List.getElem?_eq_some_iff.mp standing).1
  refine ⟨holds.held.move standing ⟨fun within => absurd within stays,
    fun within => absurd within out⟩, fun none => kept (holds.free none),
    fun j found standingFound withinFound => ?_⟩
  by_cases own : k = j
  · subst own
    rw [List.getElem?_set_self bound] at standingFound
    cases standingFound
    exact absurd withinFound stays
  · rw [List.getElem?_set_ne own] at standingFound
    exact others found withinFound (holds.annotated j found standingFound withinFound)

theorem unchanged (holds : Protected inside resource asserts holder threads state)
    (kept : resource state → resource next)
    (others : ∀ other, inside other → asserts state other → asserts next other) :
    Protected inside resource asserts holder threads next :=
  ⟨holds.held, fun none => kept (holds.free none), fun j found standing within =>
    others found within (holds.annotated j found standing within)⟩

theorem concat (holds : Protected inside resource asserts holder threads state)
    (out : ¬inside after) (kept : resource state → resource next)
    (others : ∀ other, inside other → asserts state other → asserts next other) :
    Protected inside resource asserts holder (threads ++ [after]) next := by
  refine ⟨holds.held.concat out, fun none => kept (holds.free none),
    fun j found standing within => ?_⟩
  rcases List.mem_append.mp (List.mem_of_getElem? standing) with before | new
  · rcases List.mem_iff_getElem?.mp before with ⟨old, standingOld⟩
    exact others found within (holds.annotated old found standingOld within)
  · rw [List.mem_singleton.mp new] at within
    exact absurd within out

end Protected

end CosmosPC
