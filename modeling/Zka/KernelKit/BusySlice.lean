import Zka.KernelKit.HardwareThread
import Zka.Framework.Run

/-!
# Busy slices

A thread that took a process with a time slice is to answer that many of its own polls
with true, and then to be free.  The polls of all threads count on one timer.
-/

namespace Zka.KernelKit

/-- The threads, and how many polls each of them has still to answer with true. -/
structure SliceState where
  hardware : HardwareThreadScheduler
  owed : Nat → Option Nat

/-- A poll, a switch, and an offer of the scheduler, which switches with a slice that it lends. -/
inductive SliceOp where
  | poll (i : Nat)
  | switch (i : Nat) (answers : SwitchAnswers) (request : SwitchRequest)
  | offer (i : Nat) (answers : SwitchAnswers) (request : SwitchRequest) (slice : UInt64)

/-- A thread that owes nothing more answers its next poll with false. -/
def spent : Option Nat → Option Nat
  | some (n + 1) => some n
  | some 0 => none
  | none => none

namespace SliceState

def thread (s : SliceState) (i : Nat) : HardwareThread := s.hardware.fThreadList i

def timer (s : SliceState) : UInt64 := s.hardware.busyTimer.toUInt64

/-- What `IsBusy` of a thread answers. -/
def answerOf (s : SliceState) (i : Nat) : Bool := ((s.thread i).isBusy s.hardware.busyTimer).1

def put (s : SliceState) (i : Nat) (busyTimer : Int64) (t : HardwareThread) (owed : Option Nat) :
    SliceState where
  hardware := { s.hardware.setThread i t with busyTimer := busyTimer }
  owed := Function.update s.owed i owed

/-- A process that is taken is owed its slice. -/
def next (s : SliceState) : SliceOp → SliceState
  | .poll i =>
    let (_, busyTimer, t) := (s.thread i).isBusy s.hardware.busyTimer
    s.put i busyTimer t (spent (s.owed i))
  | .switch i answers request =>
    let (ret, busyTimer, t) := (s.thread i).switch answers s.hardware.busyTimer request
    s.put i busyTimer t (if ret then some (s.thread i).fPTime.toNat else s.owed i)
  | .offer i answers request slice =>
    let (ret, busyTimer, t) := (s.thread i).offer answers s.hardware.busyTimer request slice
    s.put i busyTimer t (if ret then some slice.toNat else s.owed i)

/-- The switch gets as far as `IsBusy`. -/
def Asks (s : SliceState) (i : Nat) (request : SwitchRequest) : Prop :=
  request.Complete ∧ (s.thread i).fWakeup = true

/-- `IsBusy` answers in this switch as the thread owes it. -/
def RightFor (s : SliceState) (i : Nat) (request : SwitchRequest) (slice : UInt64) : Prop :=
  s.Asks i request → ∀ n, s.owed i = some n →
    (s.thread i).stillBusy slice s.hardware.busyTimer = decide (0 < n)

/-- `IsBusy` answers in this step as the thread owes it. -/
def Right (s : SliceState) : SliceOp → Prop
  | .poll i => ∀ n, s.owed i = some n → s.answerOf i = decide (0 < n)
  | .switch i _ request => s.RightFor i request (s.thread i).fPTime
  | .offer i _ request slice => s.RightFor i request slice

/-- The state after so many polls of one thread. -/
def polled (s : SliceState) (i k : Nat) : SliceState := (fun s => s.next (.poll i))^[k] s

/-- Every thread would answer as it owes if it were polled from now on. -/
def Promised (s : SliceState) : Prop :=
  ∀ i n, s.owed i = some n → ∀ k ≤ n, (s.polled i k).answerOf i = decide (k < n)

/-- The step is answered as it is owed, and the promises are as good as before. -/
def Keeps (s : SliceState) (op : SliceOp) : Prop := s.Right op ∧ (s.next op).Promised

/-! ## The condition -/

/-- The timer is moved on for this slice, and another thread does not mind: it has answered all
it owes, or the timer is set back when it has all of its slice before it. -/
def Undisturbed (s : SliceState) (slice : UInt64) (j : Nat) : Prop :=
  ∀ n, s.owed j = some n →
    if slice < s.timer then n = (s.thread j).fPTime.toNat ∨ n = 0 ∧ (s.thread j).fBusy = false
    else n = 0 ∧ ((s.thread j).fBusy = false ∨ s.timer ≠ -1)

/-- The thread can take a process with this slice. -/
def Free (s : SliceState) (i : Nat) (slice : UInt64) : Prop :=
  (s.thread i).fBusy = false ∨ slice < s.timer

/-- The switch is made by a thread that owes nothing more and is free, and the process is taken
when the timer begins anew. -/
def FitsFor (s : SliceState) (i : Nat) (answers : SwitchAnswers) (request : SwitchRequest)
    (slice : UInt64) : Prop :=
  s.Asks i request →
    (∀ j, j ≠ i → s.Undisturbed slice j) ∧
    (∀ n, s.owed i = some n → n = 0 ∧ s.Free i slice) ∧
    (s.Free i slice ∧ answers.checkStack request.frame = true ∧ answers.register request = true →
      (slice < s.timer ∨ s.timer = 0) ∧ slice ≠ -1)

/-- No other thread minds, and a switch is made in time. -/
def Fits (s : SliceState) : SliceOp → Prop
  | .poll i => ∀ j, j ≠ i → s.Undisturbed (s.thread i).fPTime j
  | .switch i answers request => s.FitsFor i answers request (s.thread i).fPTime
  | .offer i answers request slice => s.FitsFor i answers request slice

/-! ## The promise of one thread -/

/-- Polled from now on, the thread answers so many times with true and then with false. -/
def Due (timer : Nat) (t : HardwareThread) : Nat → Prop
  | 0 => t.fBusy = false ∨ t.fPTime.toNat < timer
  | n + 1 => t.fBusy = true ∧ timer + n = t.fPTime.toNat ∧ t.fPTime.toNat + 1 < 2 ^ 64

/-- The timer after `IsBusy` with this slice. -/
def moved (slice timer : Nat) : Nat :=
  if slice < timer then 1 else if timer + 1 < 2 ^ 64 then timer + 1 else 0

theorem ne_max_iff (x : UInt64) : x ≠ -1 ↔ x.toNat + 1 < 2 ^ 64 := by
  have hlt := x.toNat_lt
  have hmax : (-1 : UInt64).toNat = 2 ^ 64 - 1 := rfl
  rw [Ne, ← UInt64.toNat_inj, hmax]
  omega

section Due

variable (slice : UInt64) (busyTimer : Int64) (t : HardwareThread) (n : Nat)

theorem nextTimer_toNat : (HardwareThread.nextTimer slice busyTimer).toUInt64.toNat =
    moved slice.toNat busyTimer.toUInt64.toNat := by
  rw [HardwareThread.nextTimer, moved]
  by_cases h : slice < busyTimer.toUInt64
  · rw [if_pos h, if_pos (UInt64.lt_iff_toNat_lt.mp h)]
    rfl
  · have hsucc : (busyTimer + 1).toUInt64.toNat = (busyTimer.toUInt64.toNat + 1) % 2 ^ 64 := rfl
    have hlt := busyTimer.toUInt64.toNat_lt
    rw [if_neg h, if_neg (mt UInt64.lt_iff_toNat_lt.mpr h), hsucc]
    split
    · rename_i hsmall
      exact Nat.mod_eq_of_lt hsmall
    · rename_i hlast
      rw [show busyTimer.toUInt64.toNat + 1 = 2 ^ 64 by omega]
      rfl

theorem stillBusy_iff : t.stillBusy slice busyTimer = true ↔
    t.fBusy = true ∧ busyTimer.toUInt64.toNat ≤ slice.toNat := by
  rw [HardwareThread.stillBusy, decide_eq_true_iff, UInt64.lt_iff_toNat_lt, Nat.not_lt]

theorem not_stillBusy_iff : t.stillBusy slice busyTimer = false ↔
    t.fBusy = false ∨ slice.toNat < busyTimer.toUInt64.toNat := by
  rw [← Bool.not_eq_true, stillBusy_iff, not_and_or, Bool.not_eq_true, Nat.not_le]

theorem due_zero_iff : Due busyTimer.toUInt64.toNat t 0 ↔ t.stillBusy t.fPTime busyTimer = false := by
  rw [Due, not_stillBusy_iff]

/-- A poll fulfils one part of the promise. -/
theorem due_succ_iff : Due busyTimer.toUInt64.toNat t (n + 1) ↔
    t.stillBusy t.fPTime busyTimer = true ∧
      Due (moved t.fPTime.toNat busyTimer.toUInt64.toNat)
        { t with fBusy := t.stillBusy t.fPTime busyTimer } n := by
  have hlt := t.fPTime.toNat_lt
  cases hbusy : t.stillBusy t.fPTime busyTimer with
  | false =>
    rw [not_stillBusy_iff] at hbusy
    rw [Due]
    refine iff_of_false ?_ (by simp)
    intro hdue
    obtain hfree | hover := hbusy
    · exact Bool.false_ne_true (hfree.symm.trans hdue.1)
    · omega
  | true =>
    rw [stillBusy_iff] at hbusy
    rw [moved, if_neg (Nat.not_lt.mpr hbusy.2), Due, and_iff_right rfl, and_iff_right hbusy.1]
    cases n with
    | zero =>
      simp only [Due, Bool.true_eq_false, false_or]
      split
      · omega
      · omega
    | succ n =>
      simp only [Due, true_and]
      split
      · omega
      · omega

/-- The timer is set back: a promise is as good as before when all of it is ahead. -/
theorem due_setBack_iff {timer : Nat} (hdue : Due timer t n) :
    Due 1 t n ↔ n = t.fPTime.toNat ∨ n = 0 ∧ t.fBusy = false := by
  cases n with
  | zero =>
    rw [Due]
    cases t.fBusy with
    | false => simp
    | true => simp; omega
  | succ n =>
    obtain ⟨hbusy, htime, hlast⟩ := hdue
    rw [Due, hbusy]
    simp
    omega

/-- The timer goes on: only the answer false is not missed, unless the timer overflows. -/
theorem due_goesOn_iff {timer : Nat} (hdue : Due timer t n) :
    Due (if timer + 1 < 2 ^ 64 then timer + 1 else 0) t n ↔
      n = 0 ∧ (t.fBusy = false ∨ timer + 1 < 2 ^ 64) := by
  cases n with
  | zero =>
    rw [Due]
    cases hbusy : t.fBusy with
    | false => simp
    | true =>
      have hpast := hdue.resolve_left (by simp [hbusy])
      simp only [Bool.true_eq_false, false_or, true_and]
      split
      · omega
      · omega
  | succ n =>
    obtain ⟨hbusy, htime, hlast⟩ := hdue
    rw [Due, hbusy]
    simp only [true_and, hlast, and_true, Nat.add_one_ne_zero, false_and, iff_false]
    split
    · omega
    · omega

/-- What becomes of a promise when the timer is moved on for a slice. -/
theorem due_moved_iff {timer : Nat} (hdue : Due timer t n) :
    Due (moved slice.toNat timer) t n ↔
      if slice.toNat < timer then n = t.fPTime.toNat ∨ n = 0 ∧ t.fBusy = false
      else n = 0 ∧ (t.fBusy = false ∨ timer + 1 < 2 ^ 64) := by
  rw [moved]
  split
  · exact due_setBack_iff t n hdue
  · exact due_goesOn_iff t n hdue

/-- A thread that takes a process owes it its slice when the timer begins anew. -/
theorem due_taken_iff {timer : Nat} (request : SwitchRequest) (htimer : timer < 2 ^ 64) :
    Due (moved slice.toNat timer) (t.taken request slice) slice.toNat ↔
      (slice.toNat < timer ∨ timer = 0) ∧ slice.toNat + 1 < 2 ^ 64 := by
  rw [moved]
  cases hslice : slice.toNat with
  | zero =>
    simp only [Due, HardwareThread.taken, Bool.true_eq_false, false_or, hslice]
    split
    · omega
    · split
      · omega
      · omega
  | succ p =>
    simp only [Due, HardwareThread.taken, true_and, hslice]
    split
    · omega
    · split
      · omega
      · omega

/-- A thread that declines a process keeps its slice, and is as busy as it answers. -/
theorem declined_eq (answers : SwitchAnswers) (request : SwitchRequest) :
    (t.declined answers busyTimer request slice).fBusy = t.stillBusy slice busyTimer ∧
      (t.declined answers busyTimer request slice).fPTime = t.fPTime := by
  rw [HardwareThread.declined]
  split
  · rename_i h
    exact ⟨h.1.symm, rfl⟩
  · exact ⟨rfl, rfl⟩

/-- A thread that declines a process answers and stays as it owes only if it owes nothing more
and is free. -/
theorem due_declined_iff (answers : SwitchAnswers) (request : SwitchRequest)
    (hdue : Due busyTimer.toUInt64.toNat t n) :
    (t.stillBusy slice busyTimer = decide (0 < n) ∧
      Due (moved slice.toNat busyTimer.toUInt64.toNat) (t.declined answers busyTimer request slice) n) ↔
    n = 0 ∧ t.stillBusy slice busyTimer = false := by
  obtain ⟨hbusy, hptime⟩ := declined_eq slice busyTimer t answers request
  cases n with
  | zero =>
    simp only [Nat.lt_irrefl, decide_false, true_and]
    refine ⟨And.left, fun hfree => ⟨hfree, .inl (hbusy.trans hfree)⟩⟩
  | succ n =>
    refine iff_of_false ?_ (by simp)
    intro h
    rcases h with ⟨hanswer, hdeclined⟩
    obtain ⟨-, hbefore, hlast⟩ := hdue
    obtain ⟨-, hafter, -⟩ := hdeclined
    rw [hptime] at hafter
    have hahead := (stillBusy_iff slice busyTimer t).mp (hanswer.trans (by simp))
    rw [moved, if_neg (Nat.not_lt.mpr hahead.2)] at hafter
    split at hafter
    · omega
    · omega

end Due

/-! ## The promises of all threads -/

section Promises

variable (s : SliceState)

theorem thread_put_self (i : Nat) (busyTimer : Int64) (t : HardwareThread) (owed : Option Nat) :
    (s.put i busyTimer t owed).thread i = t :=
  s.hardware.setThread_self i t

theorem thread_put_ne {i j : Nat} (busyTimer : Int64) (t : HardwareThread) (owed : Option Nat)
    (h : j ≠ i) : (s.put i busyTimer t owed).thread j = s.thread j :=
  s.hardware.setThread_ne t h

theorem owed_put_self (i : Nat) (busyTimer : Int64) (t : HardwareThread) (owed : Option Nat) :
    (s.put i busyTimer t owed).owed i = owed :=
  Function.update_self ..

theorem owed_put_ne {i j : Nat} (busyTimer : Int64) (t : HardwareThread) (owed : Option Nat)
    (h : j ≠ i) : (s.put i busyTimer t owed).owed j = s.owed j :=
  Function.update_of_ne h _ _

theorem next_poll (i : Nat) : s.next (.poll i) =
    s.put i (HardwareThread.nextTimer (s.thread i).fPTime s.hardware.busyTimer)
      { s.thread i with fBusy := s.answerOf i } (spent (s.owed i)) := by
  rw [answerOf, next, HardwareThread.isBusy_eq]

theorem answerOf_eq (i : Nat) :
    s.answerOf i = (s.thread i).stillBusy (s.thread i).fPTime s.hardware.busyTimer := by
  rw [answerOf, HardwareThread.isBusy_eq]

theorem next_switch (i : Nat) (answers : SwitchAnswers) (request : SwitchRequest) :
    s.next (.switch i answers request) = s.next (.offer i answers request (s.thread i).fPTime) := by
  rw [next, next, HardwareThread.offer_own]

theorem polled_succ (i k : Nat) : s.polled i (k + 1) = (s.next (.poll i)).polled i k :=
  Function.iterate_succ_apply ..

/-- The timer of a state in which one thread was asked with this slice. -/
theorem timer_put (i : Nat) (slice : UInt64) (t : HardwareThread) (owed : Option Nat) :
    (s.put i (HardwareThread.nextTimer slice s.hardware.busyTimer) t owed).timer.toNat =
      moved slice.toNat s.timer.toNat :=
  nextTimer_toNat slice s.hardware.busyTimer

theorem answers_iff_due (i n : Nat) :
    (∀ k ≤ n, (s.polled i k).answerOf i = decide (k < n)) ↔ Due s.timer.toNat (s.thread i) n := by
  induction n generalizing s with
  | zero =>
    rw [timer, due_zero_iff, ← answerOf_eq]
    constructor
    · intro h
      exact h 0 le_rfl
    · intro h k hk
      rw [Nat.le_zero.mp hk]
      exact h
  | succ n ih =>
    have hlater := ih (s.next (.poll i))
    rw [next_poll, timer_put, thread_put_self, ← next_poll] at hlater
    rw [timer, due_succ_iff, ← answerOf_eq, ← timer, ← hlater]
    constructor
    · intro h
      refine ⟨h 0 (Nat.zero_le _), fun k hk => ?_⟩
      have hshift := h (k + 1) (Nat.succ_le_succ hk)
      rw [polled_succ] at hshift
      simpa using hshift
    · intro h k hk
      cases k with
      | zero => simpa [polled] using h.1
      | succ k =>
        rw [polled_succ, h.2 k (Nat.le_of_succ_le_succ hk)]
        simp

theorem promised_iff :
    s.Promised ↔ ∀ i n, s.owed i = some n → Due s.timer.toNat (s.thread i) n := by
  simp only [Promised, answers_iff_due]

variable {s}

/-- A promise of a thread that is not asked. -/
theorem undisturbed_iff (hs : s.Promised) (slice : UInt64) (j : Nat) :
    s.Undisturbed slice j ↔ ∀ n, s.owed j = some n →
      Due (moved slice.toNat s.timer.toNat) (s.thread j) n := by
  rw [Undisturbed]
  refine forall₂_congr fun n hn => ?_
  rw [due_moved_iff slice (s.thread j) n ((promised_iff s).mp hs j n hn), ne_max_iff]
  simp only [UInt64.lt_iff_toNat_lt]

/-- The promises after one thread was asked with a slice. -/
theorem promised_put_iff (hs : s.Promised) (slice : UInt64) (i : Nat) (t : HardwareThread)
    (owed : Option Nat) :
    (s.put i (HardwareThread.nextTimer slice s.hardware.busyTimer) t owed).Promised ↔
      (∀ j, j ≠ i → s.Undisturbed slice j) ∧
        ∀ n, owed = some n → Due (moved slice.toNat s.timer.toNat) t n := by
  rw [promised_iff, timer_put]
  constructor
  · intro h
    refine ⟨fun j hj => ?_, fun n hn => ?_⟩
    · rw [undisturbed_iff hs]
      intro n hn
      have hother := h j n ((owed_put_ne s _ t owed hj).trans hn)
      rwa [thread_put_ne s _ t owed hj] at hother
    · have hown := h i n ((owed_put_self s i _ t owed).trans hn)
      rwa [thread_put_self] at hown
  · intro h j n hn
    by_cases hj : j = i
    · subst hj
      rw [owed_put_self] at hn
      rw [thread_put_self]
      exact h.2 n hn
    · rw [owed_put_ne s _ t owed hj] at hn
      rw [thread_put_ne s _ t owed hj]
      exact (undisturbed_iff hs slice j).mp (h.1 j hj) n hn

/-- A poll fulfils a part of the promise of the thread that is polled. -/
theorem keeps_poll_iff (hs : s.Promised) (i : Nat) :
    s.Keeps (.poll i) ↔ s.Fits (.poll i) := by
  have hown : ∀ n, s.owed i = some n → Due s.timer.toNat (s.thread i) n :=
    (promised_iff s).mp hs i
  rw [Keeps, next_poll, promised_put_iff hs, Fits]
  constructor
  · intro h
    exact h.2.1
  · intro hothers
    refine ⟨fun n hn => ?_, hothers, fun m hm => ?_⟩
    · have hdue := hown n hn
      rw [answerOf_eq]
      cases n with
      | zero => exact (due_zero_iff _ _).mp hdue
      | succ n => simpa using ((due_succ_iff _ _ n).mp hdue).1
    · cases howed : s.owed i with
      | none => simp [spent, howed] at hm
      | some n =>
        cases n with
        | zero => simp [spent, howed] at hm
        | succ n =>
          rw [howed, spent, Option.some_inj] at hm
          subst hm
          rw [answerOf_eq]
          exact ((due_succ_iff _ _ n).mp (hown (n + 1) howed)).2

theorem next_offer_unasked {i : Nat} {answers : SwitchAnswers} {request : SwitchRequest}
    {slice : UInt64} (h : ¬ s.Asks i request) : s.next (.offer i answers request slice) = s := by
  rw [next, HardwareThread.offer_unasked answers _ _ slice h]
  simp [put, HardwareThreadScheduler.setThread, thread]

theorem free_iff (i : Nat) (slice : UInt64) :
    s.Free i slice ↔ (s.thread i).stillBusy slice s.hardware.busyTimer = false := by
  rw [not_stillBusy_iff, Free, UInt64.lt_iff_toNat_lt, timer]

/-- An awake thread that is offered a process takes it when it is free and the stack and the
hardware allow it. -/
theorem takes_iff {i : Nat} {answers : SwitchAnswers} {request : SwitchRequest} {slice : UInt64}
    (hawake : (s.thread i).fWakeup = true) :
    (s.thread i).takes answers s.hardware.busyTimer request slice = true ↔
      s.Free i slice ∧ answers.checkStack request.frame = true ∧ answers.register request = true := by
  rw [free_iff, HardwareThread.takes, hawake]
  simp [and_assoc]

theorem next_offer_asked {i : Nat} (answers : SwitchAnswers) {request : SwitchRequest}
    (slice : UInt64) (h : s.Asks i request) : s.next (.offer i answers request slice) =
      if (s.thread i).takes answers s.hardware.busyTimer request slice then
        s.put i (HardwareThread.nextTimer slice s.hardware.busyTimer)
          ((s.thread i).taken request slice) (some slice.toNat)
      else s.put i (HardwareThread.nextTimer slice s.hardware.busyTimer)
        ((s.thread i).declined answers s.hardware.busyTimer request slice) (s.owed i) := by
  rw [next, HardwareThread.offer_awake answers _ _ slice h.1 h.2]
  cases (s.thread i).takes answers s.hardware.busyTimer request slice with
  | true => rfl
  | false => rfl

/-- The offer is taken: nothing more may be owed, and the new promise is the slice. -/
theorem keeps_taken_iff (hs : s.Promised) {i : Nat} {request : SwitchRequest} {slice : UInt64}
    (hfree : s.Free i slice) :
    ((∀ n, s.owed i = some n →
        (s.thread i).stillBusy slice s.hardware.busyTimer = decide (0 < n)) ∧
      (s.put i (HardwareThread.nextTimer slice s.hardware.busyTimer)
        ((s.thread i).taken request slice) (some slice.toNat)).Promised) ↔
      (∀ j, j ≠ i → s.Undisturbed slice j) ∧
      (∀ n, s.owed i = some n → n = 0 ∧ s.Free i slice) ∧
        (slice < s.timer ∨ s.timer = 0) ∧ slice ≠ -1 := by
  have howes : ∀ n, (s.thread i).stillBusy slice s.hardware.busyTimer = decide (0 < n) ↔
      n = 0 ∧ s.Free i slice := by
    intro n
    rw [(free_iff i slice).mp hfree, and_iff_left hfree, eq_comm, decide_eq_false_iff_not]
    omega
  have hnew : (∀ n, some slice.toNat = some n →
      Due (moved slice.toNat s.timer.toNat) ((s.thread i).taken request slice) n) ↔
        (slice < s.timer ∨ s.timer = 0) ∧ slice ≠ -1 := by
    rw [ne_max_iff, UInt64.lt_iff_toNat_lt, ← UInt64.toNat_inj]
    simpa using due_taken_iff slice (s.thread i) request s.timer.toNat_lt
  rw [promised_put_iff hs, hnew, and_left_comm]
  simp only [howes]

/-- The offer is declined: the promise stays what it was. -/
theorem keeps_declined_iff (hs : s.Promised) {i : Nat} {answers : SwitchAnswers}
    {request : SwitchRequest} {slice : UInt64} :
    ((∀ n, s.owed i = some n →
        (s.thread i).stillBusy slice s.hardware.busyTimer = decide (0 < n)) ∧
      (s.put i (HardwareThread.nextTimer slice s.hardware.busyTimer)
        ((s.thread i).declined answers s.hardware.busyTimer request slice) (s.owed i)).Promised) ↔
      (∀ j, j ≠ i → s.Undisturbed slice j) ∧
      ∀ n, s.owed i = some n → n = 0 ∧ s.Free i slice := by
  rw [promised_put_iff hs, and_left_comm, ← forall₂_and]
  refine and_congr_right fun _ => forall₂_congr fun n hn => ?_
  rw [free_iff]
  exact due_declined_iff slice s.hardware.busyTimer (s.thread i) n answers request
    ((promised_iff s).mp hs i n hn)

theorem keeps_offer_iff (hs : s.Promised) (i : Nat) (answers : SwitchAnswers)
    (request : SwitchRequest) (slice : UInt64) :
    s.Keeps (.offer i answers request slice) ↔ s.Fits (.offer i answers request slice) := by
  rw [Keeps, Right, RightFor, Fits, FitsFor]
  by_cases hasks : s.Asks i request
  · rw [next_offer_asked answers slice hasks, forall_prop_of_true hasks, forall_prop_of_true hasks,
      ← takes_iff hasks.2]
    by_cases htakes : (s.thread i).takes answers s.hardware.busyTimer request slice = true
    · rw [if_pos htakes, forall_prop_of_true htakes,
        keeps_taken_iff hs ((takes_iff hasks.2).mp htakes).1]
    · rw [if_neg htakes, forall_prop_of_false htakes, keeps_declined_iff hs, and_true]
  · rw [next_offer_unasked hasks]
    exact iff_of_true ⟨fun h => absurd h hasks, hs⟩ fun h => absurd h hasks

/-- A step keeps the promises exactly when it fits. -/
theorem keeps_iff (hs : s.Promised) (op : SliceOp) : s.Keeps op ↔ s.Fits op := by
  cases op with
  | poll i => exact keeps_poll_iff hs i
  | switch i answers request =>
    have hoffer := keeps_offer_iff hs i answers request (s.thread i).fPTime
    rwa [Keeps, ← next_switch] at hoffer
  | offer i answers request slice => exact keeps_offer_iff hs i answers request slice

end Promises

/-- The threads with nothing promised yet. -/
def start (hardware : HardwareThreadScheduler) : SliceState := ⟨hardware, fun _ => none⟩

/-- In a run whose steps fit, every thread answers its own polls as it owes, and a step is
answered so and keeps it so exactly when it fits. -/
theorem busySlice_run {hardware : HardwareThreadScheduler} {s : SliceState}
    (h : Reaches (fun s op t => t = s.next op) Fits (start hardware) s) :
    s.Promised ∧ ∀ op, s.Keeps op ↔ s.Fits op := by
  have hs : s.Promised := by
    refine h.invariant Promised ?_ ?_
    · intro i n hn
      cases hn
    · intro s op t hs hfits h
      subst h
      exact ((keeps_iff hs op).mpr hfits).2
  exact ⟨hs, keeps_iff hs⟩

/-! ## Two threads -/

/-- Fresh threads that were woken. -/
def awakeThreads : HardwareThreadScheduler :=
  ⟨fun _ => { HardwareThread.fresh with fWakeup := true }, 0⟩

/-- An offer of the sample process that is not declined by the processor. -/
def lend (i : Nat) (slice : UInt64) : SliceOp := .offer i willing sampleRequest slice

theorem busySlice_lent : ((start awakeThreads).next (lend 1 2)).Promised ∧
    ∀ op, ((start awakeThreads).next (lend 1 2)).Keeps op ↔
      ((start awakeThreads).next (lend 1 2)).Fits op := by
  have hfits : (start awakeThreads).Fits (lend 1 2) := by
    intro _
    refine ⟨fun j _ n hn => ?_, fun n hn => ?_, fun _ => by decide⟩
    · cases hn
    · cases hn
  exact busySlice_run (Reaches.one (a := lend 1 2) hfits rfl)

/-- Thread 2 has moved the timer on, and thread 1 is free after one poll of two. -/
theorem busySlice_shared : ¬ ∀ hardware s,
    Reaches (fun s op t => t = s.next op) (fun _ _ => True) (start hardware) s →
      ∀ op, s.Right op := by
  intro h
  have hfirst : Reaches (fun s op t => t = SliceState.next s op) (fun _ _ => True)
      (start awakeThreads) ((start awakeThreads).next (lend 2 5)) :=
    Reaches.one (a := lend 2 5) trivial rfl
  have hsecond := hfirst.tail ⟨lend 1 2, trivial, rfl⟩
  have hthird := hsecond.tail ⟨.poll 1, trivial, rfl⟩
  have hright := h awakeThreads _ hthird (.poll 1) 1 (by decide)
  revert hright
  decide

end SliceState

end Zka.KernelKit
