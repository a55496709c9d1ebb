import CosmosPC.Foundation.Runs
import CosmosPC.Serial.CommPort
import CosmosPC.Sync.Reply

/-! # The search for the port

`CheckAll` tries the ports one by one, on a thread of its own, while the first
dialog is shown. That dialog can be left at any moment, and the next one shows
what the search has found by then. -/

namespace CosmosPC

/-- `const unsigned char checkcmd[]`, whose `dim` counts the terminator. -/
def checkcmd : List UInt8 :=
  asciiBytes ['S', 'P', 'P', '+', 'S', 'T', 'O', 'P', '='] ++ [carriageReturn, 0]

def checkack : List UInt8 := asciiBytes ['S', 'T', 'O', 'P', ',', '1'] ++ [carriageReturn]

def maxCom : Nat := 100

/-- How the calls for a port turn out: whether `CreateFile` yields a handle,
whether `SetCommTimeouts` and `WriteFile` succeed, and what there is to read
after something has been written, `none` being a failure. -/
structure Trial where
  created : Bool
  timeouts : Bool
  written : Bool
  read : List UInt8 → Option (List UInt8)

/-- `NULL != strstr((char*)buf, (char*)checkack)`, of which `ReadFile` stores 32 bytes. -/
def findsAck (buf : List UInt8) : Bool := decide (checkack <:+: cString (buf.take 32))

/-- Where a call of `checkComm` is: before its test, or with a handle before
the next call for the port. -/
inductive Doing
  | test
  | timeouts
  | write
  | read
  | close
  | ended
  deriving DecidableEq, Repr

def Doing.isBusy : Doing → Bool
  | .test => false
  | .ended => false
  | _ => true

structure Search where
  /-- `static DWORD result`. -/
  result : Nat := 0
  /-- The `i` of `CheckAll`. -/
  com : Nat := 0
  doing : Doing := .test
  /-- The ports for which there has been a handle, and those of closed ones. -/
  opened : List Nat := []
  closed : List Nat := []
  /-- Whether the first dialog is shown. -/
  searching : Bool := true
  /-- The number that `IDC_COMM` of the second dialog begins with. -/
  shown : Option Nat := none
  deriving DecidableEq, Repr

namespace Search

/-- `max_com > com && 0 == result`. -/
def checks (search : Search) (com : Nat) : Bool := decide (com < maxCom ∧ search.result = 0)

def goesOn (search : Search) : Search := { search with com := search.com + 1, doing := .test }

def thread (ports : Nat → Trial) (search : Search) : Option Search :=
  let port := ports search.com
  match search.doing with
  | .test =>
      if search.com < 100 then
        if search.checks search.com then
          -- Without a handle the call closes `INVALID_HANDLE_VALUE` and returns.
          if port.created then
            some { search with opened := search.opened ++ [search.com], doing := .timeouts }
          else some search.goesOn
        else some search.goesOn
      else some { search with doing := .ended, searching := false }
  | .timeouts => some { search with doing := if port.timeouts then .write else .close }
  | .write => some { search with doing := if port.written then .read else .close }
  | .read =>
      match port.read checkcmd with
      | none => some { search with doing := .close }
      | some buf =>
          some { search with
            result := if findsAck buf then search.com else search.result, doing := .close }
  | .close => some { search with closed := search.closed ++ [search.com] }.goesOn
  | .ended => none

/-- `checkComm()`, with `max_com` for `com`. There is no `COM100` to try. -/
def checkComm (search : Search) : Option Nat :=
  if search.checks maxCom then none else some search.result

inductive Label
  | thread
  | leaves
  | shows
  deriving DecidableEq, Repr

/-- The user may leave the first dialog, and the second one comes after it. -/
def step (ports : Nat → Trial) (search : Search) : Label → Option Search
  | .thread => search.thread ports
  | .leaves => if search.searching then some { search with searching := false } else none
  | .shows =>
      if search.searching = false ∧ search.shown = none then
        search.checkComm.map fun result => { search with shown := some result }
      else none

def Step (ports : Nat → Trial) (search : Search) (label : Label) (next : Search) : Prop :=
  search.step ports label = some next

def Label.isThread : Label → Bool
  | .thread => true
  | _ => false

end Search

/-- A port whose answer is kept: that of `COM0` is the `0` of no answer. -/
def Trial.answers (ports : Nat → Trial) (n : Nat) : Bool :=
  decide (n ≠ 0) && (ports n).created && (ports n).timeouts && (ports n).written &&
    ((ports n).read checkcmd).any findsAck

/-- The first port below a bound that answers, or 0. -/
def firstAnswering (ports : Nat → Trial) (bound : Nat) : Nat :=
  ((List.range bound).find? (Trial.answers ports)).getD 0

def comText (com : Nat) : List UInt16 :=
  (asciiBytes ['C', 'O', 'M'] ++ Decimal.text com).map UInt8.toUInt16

def devName (com : Nat) : List UInt16 := devicePath ++ comText com

def worthOpening (ports : Nat → Trial) (com : Nat) : Bool :=
  (ports com).created && decide (firstAnswering ports com = 0)

/-! ## The first port that answers -/

section

variable {ports : Nat → Trial} {bound n : Nat}

theorem firstAnswering_cases (ports : Nat → Trial) (bound : Nat) :
    (firstAnswering ports bound = 0 ∧ ∀ n, n < bound → Trial.answers ports n = false) ∨
      firstAnswering ports bound ≠ 0 ∧ firstAnswering ports bound < bound ∧
        Trial.answers ports (firstAnswering ports bound) = true ∧
        ∀ n, n < firstAnswering ports bound → Trial.answers ports n = false := by
  unfold firstAnswering
  cases found : (List.range bound).find? (Trial.answers ports) with
  | none =>
      refine Or.inl ⟨rfl, fun n below => ?_⟩
      simpa using List.find?_eq_none.mp found n (List.mem_range.mpr below)
  | some first =>
      rcases List.find?_range_eq_some.mp found with ⟨answers, among, earlier⟩
      refine Or.inr ⟨?_, List.mem_range.mp among, answers, fun n below => ?_⟩
      · rintro rfl
        simp [Trial.answers] at answers
      · simpa using earlier n below

theorem firstAnswering_of_silent (silent : ∀ n, n < bound → Trial.answers ports n = false) :
    firstAnswering ports bound = 0 := by
  rcases firstAnswering_cases ports bound with ⟨none, _⟩ | ⟨_, below, answers, _⟩
  · exact none
  · exact absurd ((silent _ below).symm.trans answers) (by decide)

theorem firstAnswering_succ (ports : Nat → Trial) (bound : Nat) :
    firstAnswering ports (bound + 1) =
      if firstAnswering ports bound = 0 then if Trial.answers ports bound then bound else 0
      else firstAnswering ports bound := by
  unfold firstAnswering
  rw [List.range_succ, List.find?_append]
  cases found : (List.range bound).find? (Trial.answers ports) with
  | none => cases answers : Trial.answers ports bound <;> simp [answers]
  | some first =>
      have answers := List.find?_some found
      have nonzero : first ≠ 0 := by
        rintro rfl
        simp [Trial.answers] at answers
      simp [nonzero]

theorem firstAnswering_of_le (found : firstAnswering ports bound ≠ 0) (later : bound ≤ n) :
    firstAnswering ports n = firstAnswering ports bound := by
  induction n, later using Nat.le_induction with
  | base => rfl
  | succ n _ induction => rw [firstAnswering_succ, induction, if_neg found]

theorem firstAnswering_succ_of_silent (silent : Trial.answers ports bound = false) :
    firstAnswering ports (bound + 1) = firstAnswering ports bound := by
  rw [firstAnswering_succ, silent]
  split
  case isTrue none => simp [none]
  case isFalse => rfl

end

namespace Search

variable {ports : Nat → Trial} {search next : Search}

/-! ## The course of the search -/

def tried (search : Search) : Nat := if search.doing = .close then search.com + 1 else search.com

/-- What has been settled about the port that is open. -/
def Passed (ports : Nat → Trial) (search : Search) : Prop :=
  match search.doing with
  | .test => search.com ≤ 100
  | .timeouts => (ports search.com).created = true
  | .write => (ports search.com).created = true ∧ (ports search.com).timeouts = true
  | .read =>
      (ports search.com).created = true ∧ (ports search.com).timeouts = true ∧
        (ports search.com).written = true
  | .close => True
  | .ended => search.com = 100

structure Standing (ports : Nat → Trial) (search : Search) : Prop where
  found : search.result = firstAnswering ports search.tried
  passed : Passed ports search
  inside : search.doing.isBusy = true → search.com < 100
  fresh : search.doing.isBusy = true → firstAnswering ports search.com = 0
  reached : search.opened = (List.range
    (if search.doing.isBusy then search.com + 1 else search.com)).filter (worthOpening ports)
  handles : search.opened = search.closed ++ if search.doing.isBusy then [search.com] else []

theorem initial_standing (ports : Nat → Trial) : Standing ports {} where
  found := rfl
  passed := Nat.zero_le _
  inside busy := by cases busy
  fresh busy := by cases busy
  reached := rfl
  handles := rfl

theorem Standing.passes (standing : Standing ports search) (doing : search.doing = .test)
    (small : search.com < 100) (worthless : worthOpening ports search.com = false) :
    Standing ports search.goesOn := by
  have silent : firstAnswering ports search.com = 0 → Trial.answers ports search.com = false := by
    intro none
    have absent : (ports search.com).created = false := by
      simpa [worthOpening, none] using worthless
    simp [Trial.answers, absent]
  rcases standing with ⟨found, _, _, _, reached, handles⟩
  simp only [tried, doing, reduceCtorEq, if_false, Doing.isBusy, Bool.false_eq_true]
    at found reached
  simp only [doing, Doing.isBusy, Bool.false_eq_true, if_false] at handles
  have same : firstAnswering ports (search.com + 1) = firstAnswering ports search.com := by
    by_cases none : firstAnswering ports search.com = 0
    · exact firstAnswering_succ_of_silent (silent none)
    · exact firstAnswering_of_le none (Nat.le_succ _)
  refine ⟨found.trans same.symm, small, (fun busy => by cases busy), (fun busy => by cases busy),
    ?_, ?_⟩
  · simp [goesOn, Doing.isBusy, reached, List.range_succ, worthless]
  · simp [goesOn, Doing.isBusy, handles]

theorem Standing.opens (standing : Standing ports search) (doing : search.doing = .test)
    (small : search.com < 100) (worth : worthOpening ports search.com = true) :
    Standing ports { search with opened := search.opened ++ [search.com], doing := .timeouts } := by
  rcases standing with ⟨found, _, _, _, reached, handles⟩
  simp only [tried, doing, reduceCtorEq, if_false, Doing.isBusy, Bool.false_eq_true]
    at found reached
  simp only [doing, Doing.isBusy, Bool.false_eq_true, if_false, List.append_nil] at handles
  have both : (ports search.com).created = true ∧ firstAnswering ports search.com = 0 := by
    simpa [worthOpening] using worth
  refine ⟨found, both.1, fun _ => small, fun _ => both.2, ?_, ?_⟩
  · simp [Doing.isBusy, reached, List.range_succ, worth]
  · simp [Doing.isBusy, handles]

theorem Standing.fails (standing : Standing ports search) (busy : search.doing.isBusy = true)
    (trying : search.doing ≠ .close) (silent : Trial.answers ports search.com = false) :
    Standing ports { search with doing := .close } := by
  rcases standing with ⟨found, _, inside, fresh, reached, handles⟩
  simp only [tried, trying, if_false] at found
  simp only [busy, if_true] at reached handles
  refine ⟨?_, trivial, fun _ => inside busy, fun _ => fresh busy, ?_, ?_⟩
  · exact found.trans (firstAnswering_succ_of_silent silent).symm
  · simpa [Doing.isBusy] using reached
  · simpa [Doing.isBusy] using handles

theorem Standing.succeeds (standing : Standing ports search) (busy : search.doing.isBusy = true)
    (trying : search.doing ≠ .close) {doing : Doing} (nextBusy : doing.isBusy = true)
    (nextTrying : doing ≠ .close) (passed : Passed ports { search with doing := doing }) :
    Standing ports { search with doing := doing } := by
  rcases standing with ⟨found, _, inside, fresh, reached, handles⟩
  simp only [tried, trying, if_false] at found
  simp only [busy, if_true] at reached handles
  refine ⟨?_, passed, fun _ => inside busy, fun _ => fresh busy, ?_, ?_⟩
  · simpa [tried, nextTrying] using found
  · simpa [nextBusy] using reached
  · simpa [nextBusy] using handles

theorem Standing.reads (standing : Standing ports search) (doing : search.doing = .read)
    {buf : List UInt8} (read : (ports search.com).read checkcmd = some buf) :
    Standing ports { search with
      result := if findsAck buf then search.com else search.result, doing := .close } := by
  rcases standing with ⟨found, passed, inside, fresh, reached, handles⟩
  simp only [tried, doing, reduceCtorEq, if_false] at found
  simp only [doing, Doing.isBusy, if_true] at reached handles
  simp only [doing, Doing.isBusy, forall_const] at inside fresh
  simp only [Passed, doing] at passed
  refine ⟨?_, trivial, fun _ => inside, fun _ => fresh, ?_, ?_⟩
  · change (if findsAck buf then search.com else search.result) =
      firstAnswering ports (search.com + 1)
    rw [firstAnswering_succ, if_pos fresh, found, fresh]
    by_cases first : search.com = 0
    · simp [first]
    · simp [Trial.answers, first, passed.1, passed.2.1, passed.2.2, read]
  · simpa [Doing.isBusy] using reached
  · simpa [Doing.isBusy] using handles

theorem Standing.closes (standing : Standing ports search) (doing : search.doing = .close) :
    Standing ports { search with closed := search.closed ++ [search.com] }.goesOn := by
  rcases standing with ⟨found, _, inside, _, reached, handles⟩
  simp only [tried, doing, if_true] at found
  simp only [doing, Doing.isBusy, if_true, forall_const] at reached handles inside
  refine ⟨found, inside, (fun busy => by cases busy), (fun busy => by cases busy), ?_, ?_⟩
  · simpa [goesOn, Doing.isBusy] using reached
  · simpa [goesOn, Doing.isBusy] using handles

theorem Standing.thread (standing : Standing ports search)
    (taken : search.thread ports = some next) : Standing ports next := by
  have busy (doing : search.doing ≠ .test ∧ search.doing ≠ .ended) :
      search.doing.isBusy = true := by
    cases same : search.doing <;> simp_all [Doing.isBusy]
  have passed := standing.passed
  unfold Passed at passed
  unfold Search.thread at taken
  cases doing : search.doing with
  | test =>
      rw [doing] at taken passed
      dsimp only at taken passed
      have found := standing.found
      simp only [tried, doing, reduceCtorEq, if_false] at found
      have checks (small : search.com < 100) : search.checks search.com =
          decide (firstAnswering ports search.com = 0) := by
        simp [Search.checks, maxCom, small, found]
      split_ifs at taken with small checked created
      · cases taken
        rw [checks small] at checked
        exact standing.opens doing small
          (by simp [worthOpening, created, of_decide_eq_true checked])
      · cases taken
        exact standing.passes doing small (by simp [worthOpening, created])
      · cases taken
        rw [checks small] at checked
        exact standing.passes doing small (by simpa [worthOpening] using fun _ => checked)
      · cases taken
        have last : search.com = 100 := Nat.le_antisymm passed (Nat.le_of_not_lt small)
        rcases standing with ⟨found, _, _, _, reached, handles⟩
        simp only [doing, Doing.isBusy] at reached handles
        exact ⟨by simpa [tried, doing] using found, last, (fun busy => by cases busy),
          (fun busy => by cases busy), reached, handles⟩
  | timeouts =>
      rw [doing] at taken passed
      have isBusy := busy (by simp [doing])
      have trying : search.doing ≠ .close := by simp [doing]
      cases taken
      cases set : (ports search.com).timeouts with
      | true => exact standing.succeeds isBusy trying rfl (by simp) ⟨passed, set⟩
      | false => exact standing.fails isBusy trying (by simp [Trial.answers, set])
  | write =>
      rw [doing] at taken passed
      have isBusy := busy (by simp [doing])
      have trying : search.doing ≠ .close := by simp [doing]
      cases taken
      cases written : (ports search.com).written with
      | true => exact standing.succeeds isBusy trying rfl (by simp) ⟨passed.1, passed.2, written⟩
      | false => exact standing.fails isBusy trying (by simp [Trial.answers, written])
  | read =>
      rw [doing] at taken
      dsimp only at taken
      cases read : (ports search.com).read checkcmd with
      | none =>
          rw [read] at taken
          cases taken
          exact standing.fails (busy (by simp [doing])) (by simp [doing])
            (by simp [Trial.answers, read])
      | some buf =>
          rw [read] at taken
          cases taken
          exact standing.reads doing read
  | close =>
      rw [doing] at taken
      cases taken
      exact standing.closes doing
  | ended =>
      rw [doing] at taken
      cases taken

/-! ## How long it takes, and what is shown -/

def left (search : Search) : Nat :=
  match search.doing with
  | .test => 5 * (100 - search.com) + 1
  | .timeouts => 5 * (100 - search.com)
  | .write => 5 * (100 - search.com) - 1
  | .read => 5 * (100 - search.com) - 2
  | .close => 5 * (100 - search.com) - 3
  | .ended => 0

theorem thread_moves (standing : Standing ports search)
    (taken : search.thread ports = some next) :
    next.shown = search.shown ∧ search.doing ≠ .ended ∧
      (next.searching = search.searching ∨ next.searching = false ∧ next.doing = .ended) ∧
      search.tried ≤ next.tried ∧ next.left + 1 ≤ search.left := by
  have inside := standing.inside
  unfold Search.thread at taken
  cases doing : search.doing with
  | test =>
      rw [doing] at taken
      dsimp only at taken
      split_ifs at taken <;> cases taken <;> simp [left, tried, goesOn, doing] <;> omega
  | read =>
      rw [doing] at taken
      dsimp only at taken
      simp only [doing, Doing.isBusy, forall_const] at inside
      split at taken <;> cases taken <;> simp [left, tried, doing] <;> omega
  | timeouts =>
      rw [doing] at taken
      cases taken
      simp only [doing, Doing.isBusy, forall_const] at inside
      cases set : (ports search.com).timeouts <;> simp [left, tried, doing] <;> omega
  | write =>
      rw [doing] at taken
      cases taken
      simp only [doing, Doing.isBusy, forall_const] at inside
      cases written : (ports search.com).written <;> simp [left, tried, doing] <;> omega
  | close =>
      rw [doing] at taken
      cases taken
      simp only [doing, Doing.isBusy, forall_const] at inside
      simp [left, tried, goesOn, doing]
      omega
  | ended =>
      rw [doing] at taken
      cases taken

theorem thread_exists (goesOn : search.doing ≠ .ended) :
    ∃ next, search.thread ports = some next := by
  unfold Search.thread
  cases doing : search.doing with
  | test => dsimp only; split_ifs <;> exact ⟨_, rfl⟩
  | read => dsimp only; split <;> exact ⟨_, rfl⟩
  | timeouts => exact ⟨_, rfl⟩
  | write => exact ⟨_, rfl⟩
  | close => exact ⟨_, rfl⟩
  | ended => exact absurd doing goesOn

theorem Standing.tried_le (standing : Standing ports search) : search.tried ≤ maxCom := by
  have passed := standing.passed
  have inside := standing.inside
  unfold Passed at passed
  unfold tried maxCom
  cases doing : search.doing <;>
    simp only [doing, Doing.isBusy, forall_const, reduceCtorEq, if_false, if_true]
      at passed inside ⊢ <;>
    omega

theorem Standing.reached_le (standing : Standing ports search) :
    (if search.doing.isBusy then search.com + 1 else search.com) ≤ maxCom := by
  have passed := standing.passed
  have inside := standing.inside
  unfold Passed at passed
  unfold maxCom
  cases doing : search.doing <;>
    simp only [doing, Doing.isBusy, forall_const, Bool.false_eq_true, if_false, if_true]
      at passed inside ⊢ <;>
    omega

theorem Standing.result_of_ended (standing : Standing ports search)
    (doing : search.doing = .ended) :
    search.result = firstAnswering ports maxCom := by
  have passed := standing.passed
  have found := standing.found
  simp only [Passed, doing] at passed
  simpa [tried, doing, passed, maxCom] using found

structure Holds (ports : Nat → Trial) (history : List Label) (search : Search) : Prop where
  standing : Standing ports search
  shown : ∀ n, search.shown = some n → n ≠ 0 → firstAnswering ports search.tried = n
  unshown : search.searching = true → search.shown = none
  waits : .leaves ∉ history → search.searching = false → search.doing = .ended
  whole : .leaves ∉ history → ∀ n, search.shown = some n → n = firstAnswering ports maxCom

theorem initial_holds (ports : Nat → Trial) : Holds ports [] {} where
  standing := initial_standing ports
  shown n shown := by cases shown
  unshown _ := rfl
  waits _ left := by cases left
  whole _ n shown := by cases shown

theorem Standing.dialogs (standing : Standing ports search) (searching : Bool)
    (shown : Option Nat) :
    Standing ports { search with searching := searching, shown := shown } :=
  ⟨standing.found, standing.passed, standing.inside, standing.fresh, standing.reached,
    standing.handles⟩

theorem Holds.step {history : List Label} {label : Label} (holds : Holds ports history search)
    (step : Step ports search label next) : Holds ports (history ++ [label]) next := by
  rcases holds with ⟨standing, shown, unshown, waits, whole⟩
  have before (without : Label.leaves ∉ history ++ [label]) : Label.leaves ∉ history :=
    fun member => without (List.mem_append_left _ member)
  cases label with
  | thread =>
      rcases thread_moves standing step with ⟨same, goesOn, dialog, further, _⟩
      refine ⟨standing.thread step, ?_, ?_, ?_, ?_⟩
      · rw [same]
        intro n isShown nonzero
        have found := shown n isShown nonzero
        rw [firstAnswering_of_le (by rwa [found]) further, found]
      · intro searching
        rw [same]
        rcases dialog with still | ended
        · exact unshown (still.symm.trans searching)
        · cases ended.1.symm.trans searching
      · intro without left
        rcases dialog with still | ended
        · exact absurd (waits (before without) (still.symm.trans left)) goesOn
        · exact ended.2
      · rw [same]
        exact fun without => whole (before without)
  | leaves =>
      simp only [Step, Search.step] at step
      split at step
      case isTrue searching =>
          cases step
          have none : search.shown = none := unshown searching
          refine ⟨standing.dialogs false search.shown, shown, (fun left => by cases left), ?_, ?_⟩
          · exact fun without => absurd (List.mem_append_right _ List.mem_cons_self) without
          · exact fun without => absurd (List.mem_append_right _ List.mem_cons_self) without
      case isFalse => cases step
  | shows =>
      simp only [Step, Search.step] at step
      split at step
      case isTrue ready =>
          have passes : search.checks maxCom = false := by simp [checks]
          rw [checkComm, passes] at step
          cases step
          refine ⟨standing.dialogs search.searching (some search.result), ?_, ?_, ?_, ?_⟩
          · intro n shown _
            cases shown
            exact standing.found.symm
          · exact fun searching => by cases ready.1.symm.trans searching
          · exact fun without => waits (before without)
          · intro without n shown
            cases shown
            exact standing.result_of_ended (waits (before without) ready.1)
      case isFalse => cases step

/-- What the second dialog shows is what the search had found when it came. -/
theorem shown_since {labels : List Label} (run : Run (Step ports) {} labels search) :
    ∀ n, search.shown = some n → ∃ earlier later before, labels = earlier ++ .shows :: later ∧
      Run (Step ports) {} earlier before ∧ n = firstAnswering ports before.tried := by
  refine (run.history_invariant (fun labels search => Holds ports labels search ∧
    Run (Step ports) {} labels search ∧ ∀ n, search.shown = some n → ∃ earlier later before,
      labels = earlier ++ .shows :: later ∧ Run (Step ports) {} earlier before ∧
        n = firstAnswering ports before.tried)
    ⟨initial_holds ports, .nil _, fun n shown => by cases shown⟩ ?_).2.2
  rintro history search label next ⟨holds, run, since⟩ step
  refine ⟨holds.step step, run.append (.single step), fun n shown => ?_⟩
  have longer (before : search.shown = some n) :
      ∃ earlier later before, history ++ [label] = earlier ++ .shows :: later ∧
        Run (Step ports) {} earlier before ∧ n = firstAnswering ports before.tried := by
    rcases since n before with ⟨earlier, later, middle, rfl, first, found⟩
    exact ⟨earlier, later ++ [label], middle, by simp, first, found⟩
  cases label with
  | thread => exact longer ((thread_moves holds.standing step).1 ▸ shown)
  | leaves =>
      simp only [Step, Search.step] at step
      split at step
      case isTrue =>
          cases step
          exact longer shown
      case isFalse => cases step
  | shows =>
      refine ⟨history, [], search, rfl, run, ?_⟩
      have passes : search.checks maxCom = false := by simp [checks]
      simp only [Step, Search.step, checkComm, passes] at step
      split at step
      case isTrue =>
          cases step
          cases shown
          exact holds.standing.found
      case isFalse => cases step

theorem step_lowers {rank : Nat} {label : Label}
    (ranked : Standing ports search ∧ search.left = rank) (step : Step ports search label next) :
    ∃ left, (Standing ports next ∧ next.left = left) ∧
      left + (if label.isThread then 1 else 0) ≤ rank := by
  rcases ranked with ⟨standing, rfl⟩
  cases label with
  | thread =>
      exact ⟨next.left, ⟨standing.thread step, rfl⟩, (thread_moves standing step).2.2.2.2⟩
  | leaves =>
      simp only [Step, Search.step] at step
      split at step
      case isTrue =>
          cases step
          exact ⟨_, ⟨standing.dialogs false search.shown, rfl⟩, Nat.le_refl _⟩
      case isFalse => cases step
  | shows =>
      simp only [Step, Search.step] at step
      split at step
      case isTrue =>
          rcases Option.map_eq_some_iff.mp step with ⟨result, _, rfl⟩
          exact ⟨_, ⟨standing.dialogs search.searching (some result), rfl⟩, Nat.le_refl _⟩
      case isFalse => cases step

/-! ## The port that is connected -/

theorem colon_not_mem_comText (com : Nat) : colon ∉ comText com := by
  intro member
  rcases List.mem_map.mp member with ⟨byte, among, same⟩
  have number : byte.toNat = 58 := by simpa [colon] using congrArg UInt16.toNat same
  rcases List.mem_append.mp among with letter | digit
  · have others : byteOf ':' ∉ asciiBytes ['C', 'O', 'M'] := by decide
    rw [show byte = byteOf ':' from UInt8.toNat_inj.mp number] at letter
    exact others letter
  · have bounds := isDigit_bounds (Decimal.isDigit_text com byte digit)
    omega

theorem device_comText {item : ItemText} {com : Nat} (codes : item.codes = comText com) :
    item.device = comText com := by
  rw [ItemText.device, codes, List.takeWhile_eq_self_iff]
  intro code member
  simp only [ne_eq, decide_eq_true_eq]
  rintro rfl
  exact colon_not_mem_comText com member

theorem getCommPort_comText {item : ItemText} {com : Nat} (codes : item.codes = comText com) :
    (getCommPort commBuffer item).text = devName com := by
  rw [(holds_commBuffer.getCommPort item).text, List.nil_append, device_comText codes]
  rfl

theorem Standing.opened_result (standing : Standing ports search) (found : search.result ≠ 0) :
    search.result ∈ search.opened := by
  rcases firstAnswering_cases ports search.tried with ⟨none, _⟩ | ⟨nonzero, below, answers, earlier⟩
  · exact absurd (standing.found.trans none) found
  · rw [standing.reached, standing.found, List.mem_filter, List.mem_range]
    refine ⟨?_, ?_⟩
    · refine Nat.lt_of_lt_of_le below ?_
      unfold tried
      cases doing : search.doing <;> simp [Doing.isBusy]
    · have created : (ports (firstAnswering ports search.tried)).created = true := by
        simp only [Trial.answers, Bool.and_eq_true] at answers
        exact answers.1.1.1.2
      simp [worthOpening, created, firstAnswering_of_silent earlier]

end Search

/-- Whatever the ports answer, and whenever the first dialog is left: the second
one begins with the first port that answers, but for `COM0`, or with 0 if none of
those that have been tried by then does, and the first connection is made under
the name by which the search has opened that port. Each port is opened once, in
order, and none after the one that answers. The search comes to its end, and has
then closed them all. -/
theorem search_finds_first (ports : Nat → Trial) (labels : List Search.Label) (search : Search)
    (run : Run (Search.Step ports) {} labels search) :
    (∀ n, search.shown = some n → n = 0 ∨ n = firstAnswering ports maxCom) ∧
      (∀ n, search.shown = some n → ∃ earlier later before, labels = earlier ++ .shows :: later ∧
        Run (Search.Step ports) {} earlier before ∧ n = firstAnswering ports before.tried) ∧
      (.leaves ∉ labels → ∀ n, search.shown = some n → n = firstAnswering ports maxCom) ∧
      (∀ n item, search.shown = some n → n ≠ 0 → item.codes = comText n →
        n ∈ search.opened ∧ (getCommPort commBuffer item).text = devName n) ∧
      (∃ reached, reached ≤ maxCom ∧
        search.opened = (List.range reached).filter (worthOpening ports)) ∧
      search.closed <+: search.opened ∧ search.opened.length ≤ search.closed.length + 1 ∧
      labels.countP Search.Label.isThread ≤ 501 ∧
      (search.doing ≠ .ended → ∃ next, Search.Step ports search .thread next) ∧
      (search.doing = .ended → search.closed = search.opened) := by
  have holds := run.history_invariant (Search.Holds ports) (Search.initial_holds ports)
    fun _ _ _ _ holds step => holds.step step
  have standing := holds.standing
  refine ⟨fun n shown => ?_, Search.shown_since run, holds.whole,
    fun n item shown nonzero codes => ⟨?_, ?_⟩, ?_, ?_, ?_, ?_, Search.thread_exists, ?_⟩
  · by_cases zero : n = 0
    · exact Or.inl zero
    · have found := holds.shown n shown zero
      rw [← found, firstAnswering_of_le (by rwa [found]) standing.tried_le]
      exact Or.inr rfl
  · have found := standing.found.trans (holds.shown n shown nonzero)
    rw [← found]
    exact standing.opened_result (by rwa [found])
  · exact Search.getCommPort_comText codes
  · exact ⟨_, standing.reached_le, standing.reached⟩
  · exact ⟨_, standing.handles.symm⟩
  · rw [standing.handles, List.length_append]
    split <;> simp
  · rcases run.ranked (fun search rank => Search.Standing ports search ∧ search.left = rank)
      Search.Label.isThread ⟨Search.initial_standing ports, rfl⟩
      (fun _ _ _ _ ranked step => Search.step_lowers ranked step) with ⟨left, _, counted⟩
    have first : ({} : Search).left = 501 := rfl
    omega
  · intro ended
    simpa [ended, Doing.isBusy] using standing.handles.symm

def threePorts (n : Nat) : Trial where
  created := n = 0 ∨ n = 2 ∨ n = 3
  timeouts := true
  written := true
  read written := if n ≠ 2 ∧ written = checkcmd then some checkack else some []

def wholeSearch : List Search.Label := List.replicate 113 .thread ++ [.shows]

theorem whole_search_runs :
    Run (Search.Step threePorts) {} wholeSearch
      ⟨3, 100, .ended, [0, 2, 3], [0, 2, 3], false, some 3⟩ :=
  Run.of_foldlM (Search.step threePorts) (by decide +kernel)

theorem search_finds_first_three :
    firstAnswering threePorts maxCom = 3 ∧ ∃ reached, reached ≤ maxCom ∧
      [0, 2, 3] = (List.range reached).filter (worthOpening threePorts) := by
  have found := search_finds_first threePorts wholeSearch _ whole_search_runs
  exact ⟨(found.2.2.1 (by decide) 3 rfl).symm, found.2.2.2.2.1⟩

end CosmosPC
