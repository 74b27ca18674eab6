import Zka.Framework.Run
import Zka.KernelKit.UserProcess

/-!
# The semaphore

One semaphore and any number of processes.  A process inside `LockOrWait` has made
its first attempt and waits for the timer, while the others go on.
-/

namespace Zka.KernelKit

structure Semaphore where
  fLockingProcess : VoidPtr
  deriving DecidableEq, Repr

namespace Semaphore

def unlock (s : Semaphore) : Bool × Semaphore :=
  if s.fLockingProcess ≠ 0 then (true, { s with fLockingProcess := 0 }) else (false, s)

def lock (s : Semaphore) (process : VoidPtr) : Bool × Semaphore :=
  if process = 0 ∨ s.fLockingProcess ≠ 0 then (false, s)
  else (true, { s with fLockingProcess := process })

/-- `LockOrWait`, where `wait` is what the others do to the semaphore during the wait.  The answer
of the first attempt is not looked at. -/
def lockOrWait (s : Semaphore) (process timer : VoidPtr) (wait : Semaphore → Semaphore) :
    Bool × Semaphore :=
  if process = 0 then (false, s)
  else if timer = 0 then (false, s)
  else (wait (s.lock process).2).lock process

end Semaphore

/-! ## Interleavings -/

inductive SemaphoreOp where
  | lock (process : VoidPtr)
  | lockOrWait (process timer : VoidPtr)
  | awake (process : VoidPtr)
  | unlock (process : VoidPtr)
  deriving DecidableEq, Repr

/-- The semaphore, the processes inside the wait of `LockOrWait`, and those whose last attempt
returned Yes and that have not unlocked since. -/
structure SemaphoreState where
  semaphore : Semaphore
  waiting : VoidPtr → Bool
  owns : VoidPtr → Bool

namespace SemaphoreState

def start : SemaphoreState := ⟨⟨0⟩, fun _ => false, fun _ => false⟩

def returned (s : SemaphoreState) (process : VoidPtr) (r : Bool × Semaphore) : SemaphoreState :=
  { s with semaphore := r.2, owns := Function.update s.owns process r.1 }

def after (s : SemaphoreState) : SemaphoreOp → SemaphoreState
  | .lock process => s.returned process (s.semaphore.lock process)
  | .lockOrWait process timer =>
    if process = 0 ∨ timer = 0 then s.returned process (false, s.semaphore)
    else { s with semaphore := (s.semaphore.lock process).2
                  waiting := Function.update s.waiting process true }
  | .awake process =>
    ({ s with waiting := Function.update s.waiting process false } : SemaphoreState).returned
      process (s.semaphore.lock process)
  | .unlock process =>
    { s with semaphore := s.semaphore.unlock.2, owns := Function.update s.owns process false }

/-- The semaphore is held by exactly the process that owns it. -/
def Owned (s : SemaphoreState) : Prop :=
  ∀ process, process ≠ 0 → (s.semaphore.fLockingProcess = process ↔ s.owns process = true)

end SemaphoreState

/-- A process inside the wait takes no other step than to awake. -/
def SemaphoreOp.Enabled (s : SemaphoreState) : SemaphoreOp → Prop
  | .lock process => s.waiting process = false
  | .lockOrWait process _ => s.waiting process = false
  | .awake process => s.waiting process = true
  | .unlock process => s.waiting process = false

def SemaphoreStep (s : SemaphoreState) (op : SemaphoreOp) (t : SemaphoreState) : Prop :=
  op.Enabled s ∧ t = s.after op

/-- Who holds the semaphore asks for nothing more, nobody begins to wait for a free semaphore, and
nobody unlocks for another process. -/
def SemaphoreOp.Fits (s : SemaphoreState) : SemaphoreOp → Prop
  | .lock process => process ≠ 0 → s.semaphore.fLockingProcess ≠ process
  | .lockOrWait process timer => process ≠ 0 →
    if timer = 0 then s.semaphore.fLockingProcess ≠ process
    else s.semaphore.fLockingProcess ≠ 0
  | .awake process => s.semaphore.fLockingProcess ≠ process
  | .unlock process => s.semaphore.fLockingProcess = 0 ∨ s.semaphore.fLockingProcess = process

namespace SemaphoreState

/-- The steps of the interleaving are those of `LockOrWait`. -/
theorem lockOrWait_steps (s : SemaphoreState) {process timer : VoidPtr} (hp : process ≠ 0)
    (ht : timer ≠ 0) (wait : Semaphore → Semaphore) (t : SemaphoreState)
    (hwait : t.semaphore = wait (s.after (.lockOrWait process timer)).semaphore) :
    (t.after (.awake process)).semaphore = (s.semaphore.lockOrWait process timer wait).2 ∧
      (t.after (.awake process)).owns process =
        (s.semaphore.lockOrWait process timer wait).1 := by
  have hbegin : (s.after (.lockOrWait process timer)).semaphore = (s.semaphore.lock process).2 := by
    simp [after, hp, ht]
  rw [hbegin] at hwait
  simp [after, returned, Semaphore.lockOrWait, hp, ht, hwait]

section Steps

variable {s : SemaphoreState} {process : VoidPtr}

theorem owns_eq_false (h : s.Owned) (hp : process ≠ 0)
    (hother : s.semaphore.fLockingProcess ≠ process) : s.owns process = false := by
  rw [← Bool.not_eq_true, ← h process hp]
  exact hother

/-- A refused attempt says that its process does not hold the semaphore. -/
theorem refused_owned_iff (h : s.Owned) (process : VoidPtr) :
    (s.returned process (false, s.semaphore)).Owned ↔
      (process ≠ 0 → s.semaphore.fLockingProcess ≠ process) := by
  constructor
  · intro howned hp hheld
    have hself := (howned process hp).mp hheld
    simp [returned] at hself
  · intro hother q hq
    by_cases hqp : q = process
    · subst hqp
      simp [returned, hother hq]
    · simpa [returned, hqp] using h q hq

/-- What an attempt does to a semaphore that its owner holds. -/
theorem returned_owned_iff (h : s.Owned) (process : VoidPtr) :
    (s.returned process (s.semaphore.lock process)).Owned ↔
      (process ≠ 0 → s.semaphore.fLockingProcess ≠ process) := by
  by_cases hrefused : process = 0 ∨ s.semaphore.fLockingProcess ≠ 0
  · have hlock : s.semaphore.lock process = (false, s.semaphore) := if_pos hrefused
    rw [hlock]
    exact refused_owned_iff h process
  · obtain ⟨hp, hfree⟩ := not_or.mp hrefused
    have hlock : s.semaphore.lock process = (true, ⟨process⟩) := if_neg hrefused
    rw [not_not] at hfree
    refine iff_of_true (fun q hq => ?_) fun _ => by simpa [hfree] using Ne.symm hp
    rw [hlock]
    by_cases hqp : q = process
    · simp [returned, hqp]
    · have hnone : s.owns q = false := owns_eq_false h hq (by simpa [hfree] using Ne.symm hq)
      simp [returned, hqp, hnone, Ne.symm hqp]

theorem lockOrWait_owned_iff (h : s.Owned) {timer : VoidPtr} (hp : process ≠ 0) (ht : timer ≠ 0) :
    (s.after (.lockOrWait process timer)).Owned ↔ s.semaphore.fLockingProcess ≠ 0 := by
  by_cases hfree : s.semaphore.fLockingProcess = 0
  · have hlock : s.semaphore.lock process = (true, ⟨process⟩) := by
      simp [Semaphore.lock, hp, hfree]
    refine iff_of_false (fun howned => ?_) (not_not_intro hfree)
    have hself : s.owns process = true := by
      simpa [after, hp, ht, hlock] using howned process hp
    rw [owns_eq_false h hp (by simpa [hfree] using Ne.symm hp)] at hself
    cases hself
  · have hlock : s.semaphore.lock process = (false, s.semaphore) := by
      simp [Semaphore.lock, hfree]
    refine iff_of_true (fun q hq => ?_) hfree
    simpa [after, hp, ht, hlock] using h q hq

theorem unlock_owned_iff (h : s.Owned) (process : VoidPtr) :
    (s.after (.unlock process)).Owned ↔
      s.semaphore.fLockingProcess = 0 ∨ s.semaphore.fLockingProcess = process := by
  constructor
  · intro howned
    by_contra hother
    obtain ⟨hheld, hne⟩ := not_or.mp hother
    have howner := (h _ hheld).mp rfl
    have hlost := (howned _ hheld).mpr (by simpa [after, hne] using howner)
    simp only [after, Semaphore.unlock, hheld, ne_eq, not_false_eq_true, if_true] at hlost
    exact hheld hlost.symm
  · intro hself q hq
    have hnone : s.owns q = true → q = process := by
      intro howns
      have hq' := (h q hq).mpr howns
      rcases hself with hfree | hheld
      · exact absurd (hq'.symm.trans hfree) hq
      · exact hq'.symm.trans hheld
    have hfree : s.semaphore.unlock.2.fLockingProcess = 0 := by
      rw [Semaphore.unlock]
      split
      · rfl
      · rename_i hzero
        exact not_not.mp hzero
    by_cases hqp : q = process
    · simp [after, hqp, hfree]
      exact Ne.symm (hqp ▸ hq)
    · have hq' : s.owns q = false := by
        rw [← Bool.not_eq_true]
        exact fun howns => hqp (hnone howns)
      simp [after, hfree, hqp, hq', Ne.symm hq]

theorem after_waiting_zero (op : SemaphoreOp) (henabled : op.Enabled s)
    (hzero : s.waiting 0 = false) : (s.after op).waiting 0 = false := by
  cases op with
  | lock process => exact hzero
  | unlock process => exact hzero
  | lockOrWait process timer =>
    by_cases hnull : process = 0 ∨ timer = 0
    · simp [after, hnull, returned, hzero]
    · have hp : (0 : VoidPtr) ≠ process := fun h => hnull (Or.inl h.symm)
      simp [after, hnull, hp, hzero]
  | awake process =>
    have hp : (0 : VoidPtr) ≠ process := by
      intro h
      rw [SemaphoreOp.Enabled, ← h, hzero] at henabled
      cases henabled
    simp [after, returned, hp, hzero]

/-- The semaphore stays with its owner exactly when the step fits. -/
theorem after_owned_iff (h : s.Owned) (hzero : s.waiting 0 = false) (op : SemaphoreOp)
    (henabled : op.Enabled s) : (s.after op).Owned ↔ op.Fits s := by
  cases op with
  | lock process => exact returned_owned_iff h process
  | lockOrWait process timer =>
    by_cases hp : process = 0
    · have hrefused : s.after (.lockOrWait process timer) =
          s.returned process (false, s.semaphore) := if_pos (Or.inl hp)
      rw [hrefused, refused_owned_iff h]
      simp [SemaphoreOp.Fits, hp]
    · by_cases ht : timer = 0
      · have hrefused : s.after (.lockOrWait process timer) =
            s.returned process (false, s.semaphore) := if_pos (Or.inr ht)
        rw [hrefused, refused_owned_iff h]
        simp [SemaphoreOp.Fits, ht]
      · rw [lockOrWait_owned_iff h hp ht]
        simp [SemaphoreOp.Fits, hp, ht]
  | awake process =>
    have hp : process ≠ 0 := by
      intro hp
      rw [SemaphoreOp.Enabled, hp, hzero] at henabled
      cases henabled
    exact (returned_owned_iff h process).trans (forall_prop_of_true hp)
  | unlock process => exact unlock_owned_iff h process

end Steps

theorem start_owned : start.Owned := by
  intro process hp
  simpa [start] using hp.symm

private theorem ownership_core {s : SemaphoreState}
    (h : Reaches SemaphoreStep (fun s op => op.Fits s) start s) :
    s.Owned ∧ s.waiting 0 = false := by
  refine h.invariant (fun s => s.Owned ∧ s.waiting 0 = false) ⟨start_owned, rfl⟩ ?_
  intro s op t hs hfits hstep
  obtain ⟨henabled, rfl⟩ := hstep
  exact ⟨(after_owned_iff hs.1 hs.2 op henabled).mpr hfits,
    after_waiting_zero op henabled hs.2⟩

/-- In every interleaving of steps that fit the semaphore is held by its owner, and it stays so by
the next step exactly when that fits too. -/
theorem ownership_run {s : SemaphoreState}
    (h : Reaches SemaphoreStep (fun s op => op.Fits s) start s) :
    s.Owned ∧ ∀ op t, SemaphoreStep s op t → (t.Owned ↔ op.Fits s) := by
  obtain ⟨howned, hzero⟩ := ownership_core h
  refine ⟨howned, fun op t hstep => ?_⟩
  obtain ⟨henabled, rfl⟩ := hstep
  exact after_owned_iff howned hzero op henabled

theorem ownership_run_locked : (start.after (.lock 1)).semaphore.fLockingProcess = 1 ∧
    (start.after (.lock 1)).Owned := by
  have hfits : (SemaphoreOp.lock 1).Fits start := by
    intro _
    decide
  have hstep : SemaphoreStep start (.lock 1) (start.after (.lock 1)) := ⟨rfl, rfl⟩
  exact ⟨rfl, (ownership_run (Reaches.one hfits hstep)).1⟩

/-- A process waits for a free semaphore: it holds the semaphore, and is told No. -/
theorem ownership_refused : ∃ s, Reaches SemaphoreStep (fun _ _ => True) start s ∧
    s.semaphore.fLockingProcess = 1 ∧ s.owns 1 = false ∧ ¬ s.Owned := by
  refine ⟨(start.after (.lockOrWait 1 2)).after (.awake 1), ?_, rfl, rfl, ?_⟩
  · have hbegin : SemaphoreStep start (.lockOrWait 1 2) (start.after (.lockOrWait 1 2)) :=
      ⟨rfl, rfl⟩
    have hawake : SemaphoreStep (start.after (.lockOrWait 1 2)) (.awake 1)
        ((start.after (.lockOrWait 1 2)).after (.awake 1)) := ⟨rfl, rfl⟩
    exact (Reaches.one trivial hbegin).tail ⟨_, trivial, hawake⟩
  · intro howned
    have hself : ((start.after (.lockOrWait 1 2)).after (.awake 1)).owns 1 = true :=
      (howned 1 (by decide)).mp rfl
    cases hself

end SemaphoreState

end Zka.KernelKit
