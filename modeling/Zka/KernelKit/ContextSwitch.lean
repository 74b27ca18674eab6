import Zka.KernelKit.HardwareThread

/-!
# Context switches

`UserProcessHelper::Switch` offers a process to the hardware threads in turn.  It has
no way to say that one of them took it.
-/

namespace Zka.KernelKit

open Outcome

/-- The current process is null before the first pass of the scheduler. -/
structure SchedulerState where
  kernel : Kernel
  current : VoidPtr
  hardware : HardwareThreadScheduler

namespace UserProcessHelper

/-- `TheCurrentPID`, whose reference is to a copy. -/
def theCurrentPID (s : SchedulerState) : Outcome CFault (Option ProcessID) :=
  if s.current = 0 then .done none
  else do
    let p ← s.kernel.process s.current
    return some p.processId

/-- `TheCurrentPID().Leak().Leak() = pid` stores to the copy. -/
def storeCurrentPID (s : SchedulerState) (_pid : ProcessID) : Outcome CFault SchedulerState := do
  match ← theCurrentPID s with
  | none => .fault .nullDereference
  | some _ => return s

/-- The state, and which threads were offered the process and took it or not. -/
abbrev Offers := SchedulerState × List (Nat × Bool)

/-- The offer to one thread.  `prev_pid` is the truth value of the answer. -/
def offerTo (answers : SwitchAnswers) (request : SwitchRequest) (i : Nat) (s : Offers) :
    Outcome CFault Offers := do
  let (s, offers) := s
  let prevPid ← theCurrentPID s
  let s ← storeCurrentPID s request.pid
  let p ← s.kernel.process (s.kernel.team.mProcessList (toIndex request.pid))
  let (ret, busyTimer, t) :=
    (s.hardware.fThreadList i).offer answers s.hardware.busyTimer request p.pTime
  let s := { s with hardware := { s.hardware.setThread i t with busyTimer := busyTimer } }
  if ret then return (s, offers ++ [(i, true)])
  else
    let s ← storeCurrentPID s (if prevPid.isSome then 1 else 0)
    return (s, offers ++ [(i, false)])

/-- One pass of the loop of `Switch`. -/
def switchBody (answers : Nat → SwitchAnswers) (request : SwitchRequest) (index : Nat)
    (s : Offers) : Outcome CFault Offers :=
  let (thread, hardware) := s.1.hardware.threadAt index
  let s := ({ s.1 with hardware := hardware }, s.2)
  match thread with
  | none => .done s
  | some i =>
    let kind := (hardware.fThreadList i).fKind
    if kind = .kInvalidAP then .done s
    else if kind ≠ .kAPBoot ∧ kind ≠ .kAPSystemReserved then offerTo (answers i) request i s
    else .done s

/-- The loop with so many indices left; the capacity is asked for before each pass. -/
def switchLoop (answers : Nat → SwitchAnswers) (request : SwitchRequest) :
    Nat → Offers → Outcome CFault Offers
  | 0, s => .done s
  | left + 1, s =>
    let index := kMaxAPInsideSched - (left + 1)
    if index < s.1.hardware.capacity then do
      let s ← switchBody answers request index s
      switchLoop answers request left s
    else .done s

def switch (heap : HeapAnswers) (answers : Nat → SwitchAnswers) (s : SchedulerState)
    (request : SwitchRequest) : Outcome CFault (Bool × Offers) :=
  if request.stackPtr = 0 ∨ request.frame = 0 ∨ request.image = 0 ∨ request.pid < 0 then
    .done (false, s, [])
  else if heap.isValid s.kernel request.image = false then .done (false, s, [])
  else do
    let s ← switchLoop answers request kMaxAPInsideSched (s, [])
    return (false, s)

end UserProcessHelper

/-! ## The outcome of a switch -/

namespace HardwareThreadScheduler

/-- The thread is neither invalid nor reserved, nor the one the machine booted from. -/
structure Serves (s : HardwareThreadScheduler) (i : Nat) : Prop where
  inRange : i < kMaxAPInsideSched
  notFirst : i ≠ 0
  valid : (s.fThreadList i).fKind ≠ .kInvalidAP
  notBoot : (s.fThreadList i).fKind ≠ .kAPBoot
  notReserved : (s.fThreadList i).fKind ≠ .kAPSystemReserved

instance (s : HardwareThreadScheduler) : DecidablePred s.Serves := fun i =>
  decidable_of_iff (i < kMaxAPInsideSched ∧ i ≠ 0 ∧ (s.fThreadList i).fKind ≠ .kInvalidAP ∧
    (s.fThreadList i).fKind ≠ .kAPBoot ∧ (s.fThreadList i).fKind ≠ .kAPSystemReserved)
    ⟨fun ⟨h₁, h₂, h₃, h₄, h₅⟩ => ⟨h₁, h₂, h₃, h₄, h₅⟩,
      fun ⟨h₁, h₂, h₃, h₄, h₅⟩ => ⟨h₁, h₂, h₃, h₄, h₅⟩⟩

/-- Whether a thread serves depends on that thread alone. -/
theorem Serves.congr {s s' : HardwareThreadScheduler} {i : Nat}
    (hsame : s'.fThreadList i = s.fThreadList i) (h : s.Serves i) : s'.Serves i := by
  obtain ⟨h₁, h₂, h₃, h₄, h₅⟩ := h
  rw [← hsame] at h₃ h₄ h₅
  exact ⟨h₁, h₂, h₃, h₄, h₅⟩

/-- The timer when the turn of a thread comes: the threads before it have been polled. -/
def timerAt (s : HardwareThreadScheduler) (slice : UInt64) (i : Nat) : Int64 :=
  (HardwareThread.nextTimer slice)^[(List.range i).countP fun j =>
    s.Serves j ∧ (s.fThreadList j).fWakeup] s.busyTimer

/-- A thread that may serve is awake and not busy, and takes the process. -/
def Accepts (s : HardwareThreadScheduler) (answers : Nat → SwitchAnswers) (request : SwitchRequest)
    (slice : UInt64) (i : Nat) : Prop :=
  s.Serves i ∧
    (s.fThreadList i).takes (answers i) (s.timerAt slice i) request slice = true

end HardwareThreadScheduler

open UserProcessHelper

/-- No pointer is null, the image is on the heap and the process is in its slot. -/
structure ValidSwitch (heap : HeapAnswers) (s : SchedulerState) (request : SwitchRequest)
    (p : UserProcess) : Prop extends request.Complete where
  image_valid : heap.isValid s.kernel request.image = true
  pid_nonneg : 0 ≤ request.pid
  pid_lt : request.pid < kSchedProcessLimitPerTeam
  occupied : s.kernel.processes (s.kernel.team.mProcessList (toIndex request.pid)) = some p

/-- What a switch returns, and what it leaves behind. -/
structure SwitchOutcome (answers : Nat → SwitchAnswers) (s : SchedulerState)
    (request : SwitchRequest) (slice : UInt64) (r : Bool × Offers) : Prop where
  returns : r.1 = true ↔ ∃ i, s.hardware.Accepts answers request slice i
  one : r.1 = true → ∃! i, (i, true) ∈ r.2.2
  current : r.1 = true → theCurrentPID r.2.1 = .done (some request.pid)
  kept : ∀ i, (i, true) ∉ r.2.2 →
    (r.2.1.hardware.fThreadList i).fPTime = (s.hardware.fThreadList i).fPTime
  unchanged : r.1 = false → theCurrentPID r.2.1 = theCurrentPID s

/-- The switch returns, with the right outcome. -/
def SwitchRight (heap : HeapAnswers) (answers : Nat → SwitchAnswers) (s : SchedulerState)
    (request : SwitchRequest) (slice : UInt64) : Prop :=
  ∃ r, UserProcessHelper.switch heap answers s request = .done r ∧
    SwitchOutcome answers s request slice r

/-- There is a current process. -/
def HasCurrent (s : SchedulerState) : Prop :=
  s.current ≠ 0 ∧ ∃ p, s.kernel.processes s.current = some p

/-! ## The walk over the threads -/

section Walk

variable {answers : Nat → SwitchAnswers} {s : SchedulerState} {request : SwitchRequest}
  {p : UserProcess} {o : Offers} {k : Nat}

theorem threadAt_first (hw : HardwareThreadScheduler) :
    ∃ t, hw.threadAt 0 = (some 0, hw.setThread 0 t) ∧
      (t.fKind = .kAPBoot ∨ t.fKind = .kAPSystemReserved) ∧
      t.fPTime = (hw.fThreadList 0).fPTime ∧ t.isIdle = (hw.fThreadList 0).isIdle := by
  rw [HardwareThreadScheduler.threadAt, if_pos rfl]
  by_cases hkind : (hw.fThreadList 0).fKind = .kAPSystemReserved
  · refine ⟨hw.fThreadList 0, ?_, .inr hkind, rfl, rfl⟩
    simp [hkind, HardwareThreadScheduler.setThread]
  · exact ⟨{ hw.fThreadList 0 with fKind := .kAPBoot }, by simp [hkind], .inl rfl, rfl, rfl⟩

theorem threadAt_other (hw : HardwareThreadScheduler) (hne : k ≠ 0) (hk : k < kMaxAPInsideSched) :
    hw.threadAt k = (some k, hw) := by
  rw [HardwareThreadScheduler.threadAt, if_neg hne, if_neg (Nat.not_le.mpr hk)]

theorem timerAt_succ (hw : HardwareThreadScheduler) (slice : UInt64) (k : Nat) :
    hw.timerAt slice (k + 1) =
      if hw.Serves k ∧ (hw.fThreadList k).fWakeup = true then
        HardwareThread.nextTimer slice (hw.timerAt slice k)
      else hw.timerAt slice k := by
  rw [HardwareThreadScheduler.timerAt, HardwareThreadScheduler.timerAt, List.range_succ,
    List.countP_append]
  by_cases h : hw.Serves k ∧ (hw.fThreadList k).fWakeup = true
  · simp [h, Function.iterate_succ_apply']
  · simp [h]

/-- A thread that does not serve is passed over; the first one may be made the boot thread. -/
theorem switchBody_skips (answers : Nat → SwitchAnswers) (request : SwitchRequest)
    (hk : k < kMaxAPInsideSched) (hserves : ¬ o.1.hardware.Serves k) :
    ∃ t, switchBody answers request k o =
        .done ({ o.1 with hardware := o.1.hardware.setThread k t }, o.2) ∧
      t.fPTime = (o.1.hardware.fThreadList k).fPTime ∧
      t.isIdle = (o.1.hardware.fThreadList k).isIdle ∧
      (k ≠ 0 → t = o.1.hardware.fThreadList k) := by
  by_cases hfirst : k = 0
  · subst hfirst
    obtain ⟨t, hat, hkind, hptime, hidle⟩ := threadAt_first o.1.hardware
    refine ⟨t, ?_, hptime, hidle, fun h => absurd rfl h⟩
    rw [switchBody, hat]
    obtain hkind | hkind := hkind
    · simp [HardwareThreadScheduler.setThread, hkind]
    · simp [HardwareThreadScheduler.setThread, hkind]
  · refine ⟨o.1.hardware.fThreadList k, ?_, rfl, rfl, fun _ => rfl⟩
    have hsame : o.1.hardware.setThread k (o.1.hardware.fThreadList k) = o.1.hardware := by
      simp [HardwareThreadScheduler.setThread]
    rw [switchBody, threadAt_other _ hfirst hk, hsame]
    dsimp only
    split
    · rfl
    · rename_i hvalid
      rw [if_neg]
      intro h
      rcases h with ⟨hboot, hreserved⟩
      exact hserves ⟨hk, hfirst, hvalid, hboot, hreserved⟩

theorem switchBody_offers (hserves : o.1.hardware.Serves k) :
    switchBody answers request k o = offerTo (answers k) request k o := by
  obtain ⟨hk, hfirst, hvalid, hboot, hreserved⟩ := hserves
  rw [switchBody, threadAt_other _ hfirst hk]
  dsimp only
  rw [if_neg hvalid, if_pos ⟨hboot, hreserved⟩]

theorem theCurrentPID_eq {c : UserProcess} (hne : s.current ≠ 0)
    (hc : s.kernel.processes s.current = some c) :
    theCurrentPID s = .done (some c.processId) := by
  rw [theCurrentPID, if_neg hne, UserProcess.process_eq hc]
  rfl

theorem storeCurrentPID_eq (h : HasCurrent s) (pid : ProcessID) :
    storeCurrentPID s pid = .done s := by
  obtain ⟨hne, c, hc⟩ := h
  rw [storeCurrentPID, theCurrentPID_eq hne hc]
  rfl

/-- Without a current process the number cannot be stored. -/
theorem storeCurrentPID_fault (h : ¬ HasCurrent s) (pid : ProcessID) (s' : SchedulerState) :
    storeCurrentPID s pid ≠ .done s' := by
  intro hstore
  rw [storeCurrentPID, bind_eq_done] at hstore
  obtain ⟨current, hcurrent, hstore⟩ := hstore
  rw [theCurrentPID] at hcurrent
  split at hcurrent
  · cases hcurrent
    cases hstore
  · rename_i hne
    obtain ⟨c, hc, -⟩ := bind_eq_done.mp hcurrent
    exact h ⟨hne, c, UserProcess.process_eq_done hc⟩

theorem offerTo_fault (h : ¬ HasCurrent o.1) (a : SwitchAnswers) (o' : Offers) :
    offerTo a request k o ≠ .done o' := by
  intro hoffer
  obtain ⟨prevPid, -, hoffer⟩ := bind_eq_done.mp hoffer
  obtain ⟨s', hstore, -⟩ := bind_eq_done.mp hoffer
  exact storeCurrentPID_fault h _ s' hstore

/-- The state after an offer that was declined. -/
def refusedOffer (o : Offers) (k : Nat) (reply : Bool × Int64 × HardwareThread) : Offers :=
  ({ o.1 with hardware := { o.1.hardware.setThread k reply.2.2 with busyTimer := reply.2.1 } },
    o.2 ++ [(k, false)])

theorem offerTo_refused (h : HasCurrent o.1)
    (hp : o.1.kernel.processes (o.1.kernel.team.mProcessList (toIndex request.pid)) = some p)
    (a : SwitchAnswers)
    (hrefused : ((o.1.hardware.fThreadList k).offer a o.1.hardware.busyTimer request p.pTime).1 =
      false) :
    offerTo a request k o = .done (refusedOffer o k
      ((o.1.hardware.fThreadList k).offer a o.1.hardware.busyTimer request p.pTime)) := by
  obtain ⟨s, offers⟩ := o
  obtain ⟨hne, c, hc⟩ := h
  rw [offerTo]
  dsimp only at hne hc hp hrefused ⊢
  rw [theCurrentPID_eq hne hc, done_bind, storeCurrentPID_eq ⟨hne, c, hc⟩, done_bind,
    UserProcess.process_eq hp, done_bind, hrefused]
  have hrollback : ∀ hardware pid, storeCurrentPID { s with hardware := hardware } pid =
      .done { s with hardware := hardware } := by
    intro hardware
    exact storeCurrentPID_eq (s := { s with hardware := hardware }) ⟨hne, c, hc⟩
  rw [if_neg Bool.false_ne_true, hrollback]
  rfl

/-- The turns of the threads below `k` are over, and none of them took the process. -/
structure Passed (s : SchedulerState) (slice : UInt64) (k : Nat) (o : Offers) : Prop where
  kernel : o.1.kernel = s.kernel
  current : o.1.current = s.current
  timer : o.1.hardware.busyTimer = s.hardware.timerAt slice k
  ahead : ∀ i, k ≤ i → i ≠ 0 → o.1.hardware.fThreadList i = s.hardware.fThreadList i
  kept : ∀ i, (o.1.hardware.fThreadList i).fPTime = (s.hardware.fThreadList i).fPTime
  refused : ∀ i, (i, true) ∉ o.2

theorem Passed.start (s : SchedulerState) (slice : UInt64) : Passed s slice 0 (s, []) :=
  ⟨rfl, rfl, rfl, fun _ _ _ => rfl, fun _ => rfl, fun _ => List.not_mem_nil⟩

theorem Passed.serves_iff {slice : UInt64} (h : Passed s slice k o) :
    o.1.hardware.Serves k ↔ s.hardware.Serves k := by
  by_cases hk : k = 0
  · exact iff_of_false (fun hs => hs.notFirst hk) fun hs => hs.notFirst hk
  · have hsame := h.ahead k le_rfl hk
    exact ⟨.congr hsame.symm, .congr hsame⟩

/-- One thread is replaced by one with the same slice, and the timer is moved on. -/
theorem Passed.next {slice : UInt64} (h : Passed s slice k o) {t : HardwareThread}
    (ht : t.fPTime = (o.1.hardware.fThreadList k).fPTime) {timer : Int64}
    (htimer : timer = s.hardware.timerAt slice (k + 1)) {offers : List (Nat × Bool)}
    (hoffers : ∀ i, (i, true) ∉ offers) :
    Passed s slice (k + 1) ({ o.1 with hardware :=
      { o.1.hardware.setThread k t with busyTimer := timer } }, offers) := by
  refine ⟨h.kernel, h.current, htimer, ?_, ?_, hoffers⟩
  · intro i hi hne
    have hik : i ≠ k := by omega
    rw [← h.ahead i (by omega) hne]
    exact o.1.hardware.setThread_ne t hik
  · intro i
    rw [← h.kept i]
    by_cases hik : i = k
    · subst hik
      exact (congrArg HardwareThread.fPTime (o.1.hardware.setThread_self i t)).trans ht
    · exact congrArg HardwareThread.fPTime (o.1.hardware.setThread_ne t hik)

/-- One pass, with a thread that serves and does not take the process. -/
theorem Passed.offered (hrequest : request.Complete)
    (hp : s.kernel.processes (s.kernel.team.mProcessList (toIndex request.pid)) = some p)
    (hcurrent : HasCurrent s) (hserves : s.hardware.Serves k)
    (hrefused : ¬ s.hardware.Accepts answers request p.pTime k) (h : Passed s p.pTime k o) :
    ∃ o', offerTo (answers k) request k o = .done o' ∧ Passed s p.pTime (k + 1) o' := by
  have hsame := h.ahead k le_rfl hserves.notFirst
  have htakes : (o.1.hardware.fThreadList k).takes (answers k) o.1.hardware.busyTimer request
      p.pTime = false := by
    rw [hsame, h.timer]
    exact Bool.eq_false_of_not_eq_true fun ht => hrefused ⟨hserves, ht⟩
  have hhas : HasCurrent o.1 := by
    rwa [HasCurrent, h.kernel, h.current]
  have hslot : o.1.kernel.processes (o.1.kernel.team.mProcessList (toIndex request.pid)) =
      some p := by
    rw [h.kernel, hp]
  have hoffers : ∀ i, (i, true) ∉ o.2 ++ [(k, false)] := by
    intro i hi
    obtain hi | hi := List.mem_append.mp hi
    · exact h.refused i hi
    · simp at hi
  by_cases hawake : (o.1.hardware.fThreadList k).fWakeup = true
  · have hreply := HardwareThread.offer_awake (answers k) o.1.hardware.busyTimer
      (o.1.hardware.fThreadList k) p.pTime hrequest hawake
    rw [if_neg (by rw [htakes]; simp)] at hreply
    refine ⟨_, offerTo_refused hhas hslot (answers k) (by rw [hreply]), ?_⟩
    rw [hreply]
    refine h.next ?_ ?_ hoffers
    · rw [HardwareThread.declined]
      split
      · rfl
      · rfl
    · rw [timerAt_succ, if_pos ⟨hserves, by rw [← hsame, hawake]⟩, h.timer]
  · have hreply := HardwareThread.offer_unasked (answers k) o.1.hardware.busyTimer
      (o.1.hardware.fThreadList k) p.pTime fun hasks : request.Complete ∧ _ => hawake hasks.2
    refine ⟨_, offerTo_refused hhas hslot (answers k) (by rw [hreply]), ?_⟩
    rw [hreply]
    refine h.next rfl ?_ hoffers
    rw [hsame] at hawake
    rw [timerAt_succ, if_neg (fun hasks => hawake hasks.2), h.timer]

/-- One pass, with a thread that does not take the process. -/
theorem Passed.body (hrequest : request.Complete)
    (hp : s.kernel.processes (s.kernel.team.mProcessList (toIndex request.pid)) = some p)
    (hcurrent : s.hardware.Serves k → HasCurrent s)
    (hrefused : ¬ s.hardware.Accepts answers request p.pTime k) (hk : k < kMaxAPInsideSched)
    (h : Passed s p.pTime k o) :
    ∃ o', switchBody answers request k o = .done o' ∧ Passed s p.pTime (k + 1) o' := by
  by_cases hserves : s.hardware.Serves k
  · rw [switchBody_offers (h.serves_iff.mpr hserves)]
    exact h.offered hrequest hp (hcurrent hserves) hserves hrefused
  · obtain ⟨t, hbody, hptime, -, -⟩ := switchBody_skips answers request hk
      (mt h.serves_iff.mp hserves)
    refine ⟨_, hbody, h.next hptime ?_ h.refused⟩
    rw [timerAt_succ, if_neg (fun hs => hserves hs.1)]
    exact h.timer

theorem Passed.loop (hrequest : request.Complete)
    (hp : s.kernel.processes (s.kernel.team.mProcessList (toIndex request.pid)) = some p)
    (hcurrent : ∀ i, s.hardware.Serves i → HasCurrent s)
    (hrefused : ∀ i, ¬ s.hardware.Accepts answers request p.pTime i) {left : Nat}
    (hleft : k + left = kMaxAPInsideSched) (h : Passed s p.pTime k o) :
    ∃ o' k', switchLoop answers request left o = .done o' ∧ Passed s p.pTime k' o' := by
  induction left generalizing k o with
  | zero => exact ⟨o, k, rfl, h⟩
  | succ left ih =>
    have hindex : kMaxAPInsideSched - (left + 1) = k := by omega
    rw [switchLoop, hindex]
    by_cases hcap : k < o.1.hardware.capacity
    · obtain ⟨o₁, hbody, hnext⟩ := h.body hrequest hp (hcurrent k) (hrefused k) (by omega)
      rw [if_pos hcap, hbody, done_bind]
      exact ih (by omega) hnext
    · rw [if_neg hcap]
      exact ⟨o, k, rfl, h⟩

/-- Without a current process the walk gets to no thread that may serve. -/
theorem switchLoop_currentless (h : ¬ HasCurrent o.1) {left : Nat}
    (hleft : k + left = kMaxAPInsideSched)
    (hcap : o.1.hardware.capacity = kMaxAPInsideSched) {o' : Offers}
    (hdone : switchLoop answers request left o = .done o') :
    ∀ i, k ≤ i → ¬ o.1.hardware.Serves i := by
  induction left generalizing k o with
  | zero =>
    intro i hi hserves
    have hin := hserves.inRange
    omega
  | succ left ih =>
    have hindex : kMaxAPInsideSched - (left + 1) = k := by omega
    rw [switchLoop, hindex, if_pos (by omega)] at hdone
    obtain ⟨o₁, hbody, hdone⟩ := bind_eq_done.mp hdone
    have hk : ¬ o.1.hardware.Serves k := by
      intro hserves
      rw [switchBody_offers hserves] at hbody
      exact offerTo_fault h _ _ hbody
    obtain ⟨t, hskip, -, hidle, hother⟩ := switchBody_skips answers request
      (by omega) hk
    rw [hskip] at hbody
    cases hbody
    have hrest := ih (o := ({ o.1 with hardware := o.1.hardware.setThread k t }, o.2)) h
      (show k + 1 + left = _ by omega)
      ((o.1.hardware.capacity_setThread hidle).trans hcap) hdone
    intro i hi hserves
    by_cases hik : i = k
    · exact hk (hik ▸ hserves)
    · exact hrest i (by omega) (hserves.congr (o.1.hardware.setThread_ne t hik))

/-- The walk offers the process to nobody, or passes every thread, and none takes it. -/
theorem switchLoop_passed {heap : HeapAnswers} (h : ValidSwitch heap s request p)
    (hrefused : ∀ i, ¬ s.hardware.Accepts answers request p.pTime i)
    (hcurrent : HasCurrent s ∨ s.hardware.capacity = 0 ∨ ∀ i, ¬ s.hardware.Serves i) :
    ∃ o' k', switchLoop answers request kMaxAPInsideSched (s, []) = .done o' ∧
      Passed s p.pTime k' o' := by
  obtain hcurrent | hnone | hidle := hcurrent
  · exact (Passed.start s p.pTime).loop h.toComplete h.occupied (fun _ _ => hcurrent) hrefused rfl
  · refine ⟨_, 0, ?_, Passed.start s p.pTime⟩
    exact if_neg (by simp [hnone])
  · exact (Passed.start s p.pTime).loop h.toComplete h.occupied
      (fun i hserves => absurd hserves (hidle i)) hrefused rfl

end Walk

section Outcome

variable {heap : HeapAnswers} {answers : Nat → SwitchAnswers} {s : SchedulerState}
  {request : SwitchRequest} {p : UserProcess}

theorem switch_eq (h : ValidSwitch heap s request p) :
    UserProcessHelper.switch heap answers s request =
      switchLoop answers request kMaxAPInsideSched (s, []) >>= fun o => .done (false, o) := by
  have hpid := h.pid_nonneg
  rw [UserProcessHelper.switch, if_neg, if_neg (by simp [h.image_valid])]
  · rfl
  · intro h
    rcases h with hnull | hnull | hnull | hneg
    · exact h.stackPtr hnull
    · exact h.frame hnull
    · exact h.image hnull
    · exact absurd hneg (Int.not_lt.mpr hpid)

/-- Whatever the threads do, the answer is false. -/
theorem switch_false {r : Bool × Offers} (h : ValidSwitch heap s request p)
    (hswitch : UserProcessHelper.switch heap answers s request = .done r) : r.1 = false := by
  rw [switch_eq h] at hswitch
  obtain ⟨o, -, hdone⟩ := bind_eq_done.mp hswitch
  cases hdone
  rfl

theorem Passed.outcome {slice : UInt64} {k : Nat} {o : Offers} (h : Passed s slice k o)
    (hrefused : ∀ i, ¬ s.hardware.Accepts answers request slice i) :
    SwitchOutcome answers s request slice (false, o) where
  returns := iff_of_false Bool.false_ne_true fun hex => hrefused hex.choose hex.choose_spec
  one hret := absurd hret Bool.false_ne_true
  current hret := absurd hret Bool.false_ne_true
  kept i _ := h.kept i
  unchanged _ := by rw [theCurrentPID, theCurrentPID, h.kernel, h.current]

/-- A switch always returns false, and so it is right exactly when no thread takes the process and
the number of the current one can be read. -/
theorem switchRight_iff (h : ValidSwitch heap s request p) :
    SwitchRight heap answers s request p.pTime ↔
      (∀ i, ¬ s.hardware.Accepts answers request p.pTime i) ∧
        (HasCurrent s ∨ s.hardware.capacity = 0 ∨ ∀ i, ¬ s.hardware.Serves i) := by
  constructor
  · intro h
    rcases h with ⟨r, hswitch, houtcome⟩
    have hfalse := switch_false h hswitch
    refine ⟨fun i haccepts => ?_, ?_⟩
    · have htrue := houtcome.returns.mpr ⟨i, haccepts⟩
      rw [hfalse] at htrue
      cases htrue
    · rw [switch_eq h] at hswitch
      obtain ⟨o, hloop, -⟩ := bind_eq_done.mp hswitch
      by_contra hcurrent
      obtain ⟨hnone, hcap, hserves⟩ := by simpa only [not_or] using hcurrent
      have hfull : s.hardware.capacity = kMaxAPInsideSched := by
        rw [HardwareThreadScheduler.capacity] at hcap ⊢
        split at hcap
        · exact absurd rfl hcap
        · rename_i hempty
          rw [if_neg hempty]
      exact hserves fun i => switchLoop_currentless hnone rfl hfull hloop i (Nat.zero_le i)
  · intro h
    rcases h with ⟨hrefused, hcurrent⟩
    obtain ⟨o, k, hloop, hpassed⟩ := switchLoop_passed h hrefused hcurrent
    refine ⟨(false, o), ?_, hpassed.outcome hrefused⟩
    rw [switch_eq h, hloop]
    rfl

end Outcome

/-! ## One process and one thread -/

/-- The process of slot 0 is the current one; thread 1 may be awake. -/
def sampleScheduler (awake : Bool) : SchedulerState where
  kernel := UserProcess.sampleKernel 0
  current := 0x5000
  hardware := ⟨fun i => { HardwareThread.fresh with fWakeup := decide (i = 1) && awake }, 0⟩

def onHeap : HeapAnswers := ⟨fun _ _ => true, fun _ _ => 0, fun _ => 0⟩

theorem sampleScheduler_valid (awake : Bool) :
    ValidSwitch onHeap (sampleScheduler awake) sampleRequest (UserProcess.sample 0) where
  frame := by decide
  image := by decide
  stackPtr := by decide
  image_valid := rfl
  pid_nonneg := by decide
  pid_lt := by decide
  occupied := rfl

theorem switchRight_asleep :
    SwitchRight onHeap (fun _ => willing) (sampleScheduler false) sampleRequest 1000 := by
  refine (switchRight_iff (sampleScheduler_valid false)).mpr ⟨?_, .inl ⟨by decide, _, rfl⟩⟩
  intro i h
  rcases h with ⟨-, htakes⟩
  simp [HardwareThread.takes, sampleScheduler] at htakes

/-- Thread 1 takes the process, and the answer is false. -/
theorem switchRight_taken :
    ¬ SwitchRight onHeap (fun _ => willing) (sampleScheduler true) sampleRequest 1000 := by
  intro h
  rcases h with ⟨r, hswitch, houtcome⟩
  have haccepts : (sampleScheduler true).hardware.Accepts (fun _ => willing) sampleRequest 1000 1 :=
    ⟨by decide, by decide⟩
  have htrue := houtcome.returns.mpr ⟨1, haccepts⟩
  rw [switch_false (sampleScheduler_valid true) hswitch] at htrue
  cases htrue

end Zka.KernelKit
