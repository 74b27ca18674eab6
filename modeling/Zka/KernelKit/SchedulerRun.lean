import Zka.KernelKit.ContextSwitch

/-!
# A pass of the scheduler

`UserProcessScheduler::Run` goes over the slots of the team once, and leaves at once when
the team is said to be empty.
-/

namespace Zka.KernelKit

open Outcome

/-- What a pass reads of a process besides its status, image and time. -/
structure PassFields where
  nameHead : UInt8
  affinity : Int32
  stackSize : UInt64

/-- `Array::Empty`, which is true of a list that is not empty. -/
def UserProcessTeam.empty (team : UserProcessTeam) : Bool := 0 < team.listCount

namespace UserProcessHelper

def canBeScheduled (p : UserProcess) (fields : PassFields) : Bool :=
  if p.status = .kKilled ∨ p.status = .kFinished ∨ p.status = .kFrozen then false
  else if p.status = .kInvalid then false
  else if p.image.fCode = 0 then false
  else if fields.nameHead = 0 then false
  else p.pTime < 1

end UserProcessHelper

namespace UserProcessScheduler

/-- The state, and the slots of the processes that the pass has tried to switch to. -/
abbrev Attempts := SchedulerState × List Nat

section Run

variable (heap : HeapAnswers) (answers : Nat → Nat → SwitchAnswers) (fields : VoidPtr → PassFields)
  (fuel : Nat)

/-- A switch to a process, which crashes when it fails. -/
def switchTo (index : Nat) (process : VoidPtr) (s : Attempts) : Outcome CFault Attempts := do
  let (s, attempts) := s
  let f := fields process
  let s := { s with current := process }
  let k ← s.kernel.modifyProcess process fun p => { p with pTime := f.affinity.toInt64.toUInt64 }
  let p ← k.process process
  let (switched, s, _) ← UserProcessHelper.switch heap (answers index) { s with kernel := k }
    ⟨p.image.fCode, p.stackReserve + (f.stackSize - 1), p.stackFrame, p.processId⟩
  if switched then return (s, attempts ++ [index])
  else
    let k ← UserProcess.crash heap fuel s.kernel process
    return ({ s with kernel := k }, attempts ++ [index])

/-- `process && UserProcessHelper::CanBeScheduled(process)`. -/
def needsSwitch (k : Kernel) (process : VoidPtr) : Outcome CFault Bool :=
  if process = 0 then .done false
  else do
    let p ← k.process process
    return UserProcessHelper.canBeScheduled p (fields process)

def lowerTime (p : UserProcess) : UserProcess := { p with pTime := p.pTime - 1 }

/-- One pass of the loop.  The time of a null process is lowered as well. -/
def runBody (index : Nat) (s : Attempts) : Outcome CFault Attempts := do
  let process := s.1.kernel.team.mProcessList index
  let due ← needsSwitch fields s.1.kernel process
  if due then switchTo heap answers fields fuel index process s
  else if process = 0 then .fault .nullDereference
  else
    let k ← s.1.kernel.modifyProcess process lowerTime
    return ({ s.1 with kernel := k }, s.2)

/-- The passes over the slots below an index. -/
def runTo (s : SchedulerState) : Nat → Outcome CFault Attempts
  | 0 => .done (s, [])
  | index + 1 => do
    let s ← runTo s index
    runBody heap answers fields fuel index s

/-- The number of slots the pass went over, and what it did. -/
def run (s : SchedulerState) : Outcome CFault (Nat × Attempts) :=
  if s.kernel.team.empty then .done (0, s, [])
  else do
    let s ← runTo heap answers fields fuel s kSchedProcessLimitPerTeam
    return (kSchedProcessLimitPerTeam, s)

end Run

end UserProcessScheduler

open UserProcessScheduler

/-! ## What a pass is for -/

/-- The slot holds this process. -/
def Holds (k : Kernel) (index : Nat) (p : UserProcess) : Prop :=
  k.team.mProcessList index ≠ 0 ∧ k.processes (k.team.mProcessList index) = some p

/-- The process of the slot can be scheduled. -/
def Due (fields : VoidPtr → PassFields) (k : Kernel) (index : Nat) : Prop :=
  ∃ p, Holds k index p ∧
    UserProcessHelper.canBeScheduled p (fields (k.team.mProcessList index)) = true

/-- What a pass returns, and what it leaves behind.  A crash may delete a process. -/
structure PassOutcome (fields : VoidPtr → PassFields) (s : SchedulerState) (r : Nat × Attempts) :
    Prop where
  attempted : ∀ index, index ∈ r.2.2 ↔ index < kSchedProcessLimitPerTeam ∧ Due fields s.kernel index
  once : r.2.2.Nodup
  reset : ∀ index < kSchedProcessLimitPerTeam, Due fields s.kernel index →
    ∀ q, r.2.1.kernel.processes (s.kernel.team.mProcessList index) = some q →
      q.pTime = (fields (s.kernel.team.mProcessList index)).affinity.toInt64.toUInt64
  lowered : ∀ index < kSchedProcessLimitPerTeam, ∀ p, Holds s.kernel index p →
    ¬ Due fields s.kernel index →
      ∃ q, r.2.1.kernel.processes (s.kernel.team.mProcessList index) = some q ∧
        q.pTime.toNat = p.pTime.toNat - 1
  early : r.1 = 0 → s.kernel.team.listCount = 0

/-- A slot that is empty when the pass comes to it is gone over without a fault, and what the pass
returns and leaves behind is right. -/
structure PassLaw (heap : HeapAnswers) (answers : Nat → Nat → SwitchAnswers)
    (fields : VoidPtr → PassFields) (s : SchedulerState) : Prop where
  occupied : s.kernel.team.empty = false → ∀ fuel, ∀ index < kSchedProcessLimitPerTeam, ∀ o,
    runTo heap answers fields fuel s index = .done o → o.1.kernel.team.mProcessList index = 0 →
      ∃ o', runBody heap answers fields fuel index o = .done o'
  outcome : ∀ r, Yields (fun fuel => run heap answers fields fuel s) r → PassOutcome fields s r

section Pass

variable {heap : HeapAnswers} {answers : Nat → Nat → SwitchAnswers}
  {fields : VoidPtr → PassFields} {s : SchedulerState}

theorem empty_iff (team : UserProcessTeam) : team.empty = true ↔ team.listCount ≠ 0 := by
  rw [UserProcessTeam.empty, decide_eq_true_iff, Nat.pos_iff_ne_zero]

theorem listCount_eq_zero_iff (team : UserProcessTeam) :
    team.listCount = 0 ↔ ∀ i < kSchedProcessLimitPerTeam, team.mProcessList i = 0 := by
  rw [UserProcessTeam.listCount, List.countP_eq_zero]
  simp

/-- A team with a process is left at once. -/
theorem run_left (fuel : Nat) (h : s.kernel.team.listCount ≠ 0) :
    run heap answers fields fuel s = .done (0, s, []) := by
  rw [run, if_pos ((empty_iff _).mpr h)]

/-- The null process of an empty slot is dereferenced. -/
theorem runBody_empty (fuel index : Nat) (o : Attempts)
    (h : o.1.kernel.team.mProcessList index = 0) :
    runBody heap answers fields fuel index o = .fault .nullDereference := by
  rw [runBody]
  dsimp only
  rw [needsSwitch, if_pos h, done_bind, if_neg Bool.false_ne_true, if_pos h]

/-- A process that cannot be scheduled has its time lowered, and zero wraps around. -/
theorem runBody_waits (fuel index : Nat) (o : Attempts) {p : UserProcess}
    (hp : Holds o.1.kernel index p) (hwaits : ¬ Due fields o.1.kernel index) :
    runBody heap answers fields fuel index o =
      .done ({ o.1 with kernel := o.1.kernel.setProcess (o.1.kernel.team.mProcessList index)
                          (some (lowerTime p)) }, o.2) := by
  have hcannot : UserProcessHelper.canBeScheduled p
      (fields (o.1.kernel.team.mProcessList index)) = false :=
    Bool.eq_false_of_not_eq_true fun hcan => hwaits ⟨p, hp, hcan⟩
  rw [runBody]
  dsimp only
  rw [needsSwitch, if_neg hp.1, UserProcess.process_eq hp.2, done_bind, hcannot, pure_eq_done, done_bind,
    if_neg Bool.false_ne_true, if_neg hp.1, modifyProcess_eq _ hp.2]
  rfl

theorem passLaw_left (h : s.kernel.team.listCount ≠ 0) : ¬ PassLaw heap answers fields s := by
  intro hlaw
  have hleft := hlaw.outcome (0, s, []) (.intro 0 (run_left 0 h))
  exact h (hleft.early rfl)

theorem passLaw_empty (h : s.kernel.team.listCount = 0) : ¬ PassLaw heap answers fields s := by
  intro hlaw
  have hslot : s.kernel.team.mProcessList 0 = 0 := (listCount_eq_zero_iff _).mp h 0 (by decide)
  have hnot : s.kernel.team.empty = false :=
    Bool.eq_false_of_not_eq_true fun hempty => (empty_iff _).mp hempty h
  obtain ⟨o, hbody⟩ := hlaw.occupied hnot 0 0 (by decide) (s, []) rfl hslot
  rw [runBody_empty 0 0 (s, []) hslot] at hbody
  cases hbody

/-- A pass over a team with a process is left at once, and a pass over an empty team dereferences
its first slot. -/
theorem passLaw_never (heap : HeapAnswers) (answers : Nat → Nat → SwitchAnswers)
    (fields : VoidPtr → PassFields) (s : SchedulerState) : ¬ PassLaw heap answers fields s := by
  by_cases h : s.kernel.team.listCount = 0
  · exact passLaw_empty h
  · exact passLaw_left h

end Pass

/-! ## One process -/

def schedulable : UserProcess :=
  { UserProcess.sample 0 with
    status := .kStarting, image := ⟨0x4000, 0x4800⟩, stackFrame := 0x8000, pTime := 0 }

/-- The process of slot 0 can be scheduled. -/
def schedulableTeam : SchedulerState :=
  { sampleScheduler true with
    kernel := (UserProcess.sampleKernel 0).setProcess 0x5000 (some schedulable) }

def schedulableFields : PassFields := ⟨80, 1000, 0x1000⟩

/-- The process is due, and the pass leaves without it. -/
theorem passLaw_one : Due (fun _ => schedulableFields) schedulableTeam.kernel 0 ∧
    ¬ PassLaw onHeap (fun _ _ => willing) (fun _ => schedulableFields) schedulableTeam := by
  refine ⟨⟨schedulable, ⟨by decide, rfl⟩, by decide⟩, passLaw_left (by decide)⟩

end Zka.KernelKit
