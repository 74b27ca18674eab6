import Zka.KernelKit.ProcessTable

/-!
# Hardware threads

`IsBusy` and `Switch` of a hardware thread.  How long a thread stays busy is counted
by one timer for all threads, which every call of `IsBusy` advances.
-/

namespace Zka.KernelKit

inductive ThreadKind where
  | kAPSystemReserved
  | kAPStandard
  | kAPFallback
  | kAPBoot
  | kInvalidAP
  deriving DecidableEq, Repr

structure HardwareThread where
  fStack : VoidPtr
  fKind : ThreadKind
  fSourcePID : ProcessID
  fWakeup : Bool
  fBusy : Bool
  fPTime : UInt64
  deriving DecidableEq, Repr

/-- A thread as its constructor leaves it. -/
def HardwareThread.fresh : HardwareThread := ⟨0, .kAPStandard, -1, false, false, 0⟩

/-- What a thread is asked to run. -/
structure SwitchRequest where
  image : VoidPtr
  stackPtr : VoidPtr
  frame : VoidPtr
  pid : ProcessID

/-- No pointer of the request is null. -/
structure SwitchRequest.Complete (request : SwitchRequest) : Prop where
  frame : request.frame ≠ 0
  image : request.image ≠ 0
  stackPtr : request.stackPtr ≠ 0

/-- `hal_check_stack` and, for one thread, `mp_register_process`. -/
structure SwitchAnswers where
  checkStack : VoidPtr → Bool
  register : SwitchRequest → Bool

namespace HardwareThread

/-- `operator bool`. -/
def isIdle (t : HardwareThread) : Bool := t.fStack ≠ 0 ∧ t.fBusy = false

/-- The answer, the timer and the thread.  The timer is compared as an unsigned number. -/
def isBusy (busyTimer : Int64) (t : HardwareThread) : Bool × Int64 × HardwareThread :=
  let (busyTimer, t) :=
    if t.fPTime < busyTimer.toUInt64 then (0, { t with fBusy := false }) else (busyTimer, t)
  let busyTimer := busyTimer + 1
  (t.fBusy, busyTimer, t)

def switch (answers : SwitchAnswers) (busyTimer : Int64) (t : HardwareThread)
    (request : SwitchRequest) : Bool × Int64 × HardwareThread :=
  if request.frame = 0 ∨ request.image = 0 ∨ request.stackPtr = 0 then (false, busyTimer, t)
  else if t.fWakeup = false then (false, busyTimer, t)
  else
    let (busy, busyTimer, t) := t.isBusy busyTimer
    if busy then (false, busyTimer, t)
    else if answers.checkStack request.frame = false then (false, busyTimer, t)
    else
      let t := { t with fStack := request.frame, fSourcePID := request.pid }
      let ret := answers.register request
      let t := if ret then { t with fBusy := true } else t
      (ret, busyTimer, t)

/-- An offer by the scheduler, which lends the thread the time slice of the process. -/
def offer (answers : SwitchAnswers) (busyTimer : Int64) (t : HardwareThread)
    (request : SwitchRequest) (slice : UInt64) : Bool × Int64 × HardwareThread :=
  let prevPTime := t.fPTime
  let (ret, busyTimer, t) := switch answers busyTimer { t with fPTime := slice } request
  if ret then (true, busyTimer, t) else (false, busyTimer, { t with fPTime := prevPTime })

/-! ## Polls -/

/-- The timer after `IsBusy` of a thread with this slice. -/
def nextTimer (slice : UInt64) (busyTimer : Int64) : Int64 :=
  (if slice < busyTimer.toUInt64 then 0 else busyTimer) + 1

/-- The answer of `IsBusy` for a thread with this slice. -/
def stillBusy (t : HardwareThread) (slice : UInt64) (busyTimer : Int64) : Bool :=
  t.fBusy ∧ ¬ slice < busyTimer.toUInt64

theorem isBusy_eq (busyTimer : Int64) (t : HardwareThread) :
    t.isBusy busyTimer = (t.stillBusy t.fPTime busyTimer, nextTimer t.fPTime busyTimer,
      { t with fBusy := t.stillBusy t.fPTime busyTimer }) := by
  rw [isBusy, nextTimer, stillBusy]
  by_cases h : t.fPTime < busyTimer.toUInt64
  · simp [h]
  · simp [h]

/-! ## Offers -/

/-- The thread is awake and not busy, and takes the process over. -/
def takes (answers : SwitchAnswers) (busyTimer : Int64) (t : HardwareThread)
    (request : SwitchRequest) (slice : UInt64) : Bool :=
  t.fWakeup && !t.stillBusy slice busyTimer && answers.checkStack request.frame &&
    answers.register request

/-- The thread after an offer that it took. -/
def taken (t : HardwareThread) (request : SwitchRequest) (slice : UInt64) : HardwareThread :=
  { t with fStack := request.frame, fSourcePID := request.pid, fBusy := true, fPTime := slice }

/-- The thread after an offer that it declined: it may have been set free, and have the stack. -/
def declined (answers : SwitchAnswers) (busyTimer : Int64) (t : HardwareThread)
    (request : SwitchRequest) (slice : UInt64) : HardwareThread :=
  if t.stillBusy slice busyTimer = false ∧ answers.checkStack request.frame = true then
    { t with fStack := request.frame, fSourcePID := request.pid, fBusy := false }
  else { t with fBusy := t.stillBusy slice busyTimer }

section Offer

variable (answers : SwitchAnswers) (busyTimer : Int64) (t : HardwareThread) {request : SwitchRequest}
  (slice : UInt64)

theorem switch_unasked (h : ¬ (request.Complete ∧ t.fWakeup = true)) :
    t.switch answers busyTimer request = (false, busyTimer, t) := by
  rw [switch]
  split
  · rfl
  · rename_i hnull
    rw [not_or, not_or] at hnull
    have hasleep : t.fWakeup = false :=
      Bool.eq_false_of_not_eq_true fun hawake => h ⟨⟨hnull.1, hnull.2.1, hnull.2.2⟩, hawake⟩
    rw [if_pos hasleep]

/-- An offer of an incomplete request, or to a thread that sleeps, changes nothing. -/
theorem offer_unasked (h : ¬ (request.Complete ∧ t.fWakeup = true)) :
    t.offer answers busyTimer request slice = (false, busyTimer, t) := by
  have hlent : { t with fPTime := slice }.switch answers busyTimer request = _ :=
    switch_unasked answers busyTimer _ h
  rw [offer, hlent]
  rfl

variable (hrequest : request.Complete) (hawake : t.fWakeup = true)

include hrequest hawake

theorem switch_awake : t.switch answers busyTimer request =
    if t.stillBusy t.fPTime busyTimer then
      (false, nextTimer t.fPTime busyTimer, { t with fBusy := true })
    else if answers.checkStack request.frame = false then
      (false, nextTimer t.fPTime busyTimer, { t with fBusy := false })
    else (answers.register request, nextTimer t.fPTime busyTimer,
      { t with fStack := request.frame, fSourcePID := request.pid,
               fBusy := answers.register request }) := by
  obtain ⟨hframe, himage, hstack⟩ := hrequest
  rw [switch, if_neg (by simp [hframe, himage, hstack]), if_neg (by simp [hawake]), isBusy_eq]
  cases hbusy : t.stillBusy t.fPTime busyTimer with
  | true => rfl
  | false => cases answers.register request <;> rfl

theorem offer_awake : t.offer answers busyTimer request slice =
    if takes answers busyTimer t request slice then
      (true, nextTimer slice busyTimer, t.taken request slice)
    else (false, nextTimer slice busyTimer, declined answers busyTimer t request slice) := by
  have hlent : { t with fPTime := slice }.switch answers busyTimer request = _ :=
    switch_awake answers busyTimer _ hrequest hawake
  have hsame : { t with fPTime := slice }.stillBusy slice busyTimer =
    t.stillBusy slice busyTimer := rfl
  rw [offer, hlent]
  clear hlent
  dsimp only
  rw [hsame, takes, declined, hawake]
  cases hbusy : t.stillBusy slice busyTimer with
  | true => simp
  | false =>
    cases hcheck : answers.checkStack request.frame with
    | false => simp
    | true =>
      cases hregister : answers.register request with
      | false => simp
      | true => simp [taken, hawake]

omit hrequest hawake

theorem switch_fPTime (request : SwitchRequest) :
    (t.switch answers busyTimer request).2.2.fPTime = t.fPTime := by
  by_cases h : request.Complete ∧ t.fWakeup = true
  · rw [switch_awake answers busyTimer t h.1 h.2]
    split
    · rfl
    · split
      · rfl
      · rfl
  · rw [switch_unasked answers busyTimer t h]

/-- A switch is an offer with the slice that the thread already has. -/
theorem offer_own (request : SwitchRequest) :
    t.offer answers busyTimer request t.fPTime = t.switch answers busyTimer request := by
  have hkept := switch_fPTime answers busyTimer t request
  have hlent : { t with fPTime := t.fPTime }.switch answers busyTimer request =
    t.switch answers busyTimer request := rfl
  rw [offer, hlent]
  generalize t.switch answers busyTimer request = reply at hkept ⊢
  obtain ⟨ret, timer, t'⟩ := reply
  cases ret with
  | true => rfl
  | false =>
    dsimp only at hkept ⊢
    rw [if_neg Bool.false_ne_true, ← hkept]

end Offer

end HardwareThread

def sampleRequest : SwitchRequest := ⟨0x4000, 0x7000, 0x8000, 0⟩

/-- The stack is fine and the processor takes every process. -/
def willing : SwitchAnswers := ⟨fun _ => true, fun _ => true⟩

/-! ## The list of threads -/

def kMaxAPInsideSched : Nat := 8

/-- The list, and the timer of `IsBusy`. -/
structure HardwareThreadScheduler where
  fThreadList : Nat → HardwareThread
  busyTimer : Int64

namespace HardwareThreadScheduler

def setThread (s : HardwareThreadScheduler) (i : Nat) (t : HardwareThread) :
    HardwareThreadScheduler :=
  { s with fThreadList := Function.update s.fThreadList i t }

theorem setThread_self (s : HardwareThreadScheduler) (i : Nat) (t : HardwareThread) :
    (s.setThread i t).fThreadList i = t :=
  Function.update_self ..

theorem setThread_ne (s : HardwareThreadScheduler) {i j : Nat} (t : HardwareThread) (h : j ≠ i) :
    (s.setThread i t).fThreadList j = s.fThreadList j :=
  Function.update_of_ne h _ _

/-- `Array::Count` of the threads. -/
def count (s : HardwareThreadScheduler) : Nat :=
  (List.range kMaxAPInsideSched).countP fun i => (s.fThreadList i).isIdle

/-- `Array::Empty`, which is true of a list that is not empty. -/
def empty (s : HardwareThreadScheduler) : Bool := 0 < s.count

def capacity (s : HardwareThreadScheduler) : Nat := if s.empty then 0 else kMaxAPInsideSched

/-- `operator[]`, with null for an index that is too large.  The first thread is made the boot
thread. -/
def threadAt (s : HardwareThreadScheduler) (idx : Nat) : Option Nat × HardwareThreadScheduler :=
  if idx = 0 then
    let t := s.fThreadList idx
    (some idx, if t.fKind ≠ .kAPSystemReserved then s.setThread idx { t with fKind := .kAPBoot } else s)
  else if kMaxAPInsideSched ≤ idx then (none, s)
  else (some idx, s)

theorem capacity_setThread (s : HardwareThreadScheduler) {i : Nat} {t : HardwareThread}
    (hidle : t.isIdle = (s.fThreadList i).isIdle) : (s.setThread i t).capacity = s.capacity := by
  have hsame : (fun j => ((s.setThread i t).fThreadList j).isIdle) =
      fun j => (s.fThreadList j).isIdle := by
    funext j
    by_cases hj : j = i
    · rw [hj, setThread_self, hidle]
    · rw [setThread_ne s t hj]
  rw [capacity, empty, count, hsame]
  rfl

end HardwareThreadScheduler

end Zka.KernelKit
