import Zka.KernelKit.SchedulerRun
import Zka.NetworkKit.IPC

/-!
# The penalty for a bad packet

A packet that is not valid crashes the current process.  `Crash` looks for a process that is
running, and the scheduler switches to processes that are only starting.
-/

namespace Zka.NetworkKit

open Outcome KernelKit

/-- The process is there, and the scheduler would switch to it. -/
def Schedulable (fields : VoidPtr → PassFields) (k : Kernel) (process : VoidPtr) : Prop :=
  ∃ p, k.processes process = some p ∧
    UserProcessHelper.canBeScheduled p (fields process) = true

/-- The kernel never answers true, whether there is a packet or none. -/
def Refuses (pckt : Option IPCMessage) : Prop :=
  ∀ answers fuel k current k', ipcSanitizePacket answers fuel k current pckt ≠ .done (true, k')

/-- The call returns false; the current process cannot be scheduled any more, and every other one
is what it was, in the slot that it had. -/
def StopsSender (answers : HeapAnswers) (fields : VoidPtr → PassFields) (k : Kernel)
    (current : VoidPtr) (pckt : Option IPCMessage) : Prop :=
  ∃ k', Yields (fun fuel => ipcSanitizePacket answers fuel k current pckt) (false, k') ∧
    ¬ Schedulable fields k' current ∧
    (∀ other, other ≠ current → k'.processes other = k.processes other) ∧
    k'.team.mProcessList = k.team.mProcessList

theorem refuses_null : Refuses none := by
  intro answers fuel k current k' h
  obtain ⟨_, _, hret⟩ := bind_eq_done.mp h
  cases hret

theorem refuses_altered {pckt : IPCMessage} (h : pckt.Altered) : Refuses (some pckt) :=
  altered_rejected h

/-! ## The crash -/

section Crash

variable {answers : HeapAnswers} {fields : VoidPtr → PassFields} {k : Kernel} {current : VoidPtr}
  {pckt : Option IPCMessage} {p : UserProcess}

/-- A refused packet leads to the crash. -/
theorem sanitize_refused (h : Refuses pckt) (answers : HeapAnswers) (fuel : Nat) (k : Kernel)
    (current : VoidPtr) : ipcSanitizePacket answers fuel k current pckt =
      UserProcess.crash answers fuel k current >>= fun k => .done (false, k) := by
  cases pckt with
  | none => rfl
  | some pckt =>
    cases hvalid : (ipcIntSanitizePacket pckt).1 with
    | true =>
      exfalso
      exact h answers fuel k current k (sanitize_valid hvalid answers fuel k current)
    | false => simp [ipcSanitizePacket, hvalid]

/-- A process that is not running yet is left as it is. -/
theorem sanitize_idle (h : Refuses pckt) (hp : k.processes current = some p)
    (hidle : p.status ≠ .kRunning) (fuel : Nat) :
    ipcSanitizePacket answers fuel k current pckt = .done (false, k) := by
  rw [sanitize_refused h, UserProcessScheduler.crash_idle answers fuel hp hidle]
  rfl

theorem sanitize_running (h : Refuses pckt) (hp : k.processes current = some p)
    (hrun : p.status = .kRunning) (fuel : Nat) :
    ipcSanitizePacket answers fuel k current pckt =
      UserProcess.exit answers fuel k current kErrorProcessFault >>= fun k => .done (false, k) := by
  rw [sanitize_refused h, UserProcessScheduler.crash_running answers fuel hp hrun]

private theorem not_stops_idle (h : Refuses pckt) (hp : k.processes current = some p)
    (hcan : UserProcessHelper.canBeScheduled p (fields current) = true)
    (hidle : p.status ≠ .kRunning) : ¬ StopsSender answers fields k current pckt := by
  intro hstops
  obtain ⟨k', hyields, hnot, _⟩ := hstops
  obtain ⟨fuel, hdone⟩ := hyields
  dsimp only at hdone
  rw [sanitize_idle h hp hidle fuel] at hdone
  cases hdone
  exact hnot ⟨p, hp, hcan⟩

/-- A running process is gone once `Exit` returns. -/
private theorem stops_running_iff (h : Refuses pckt) (hp : k.processes current = some p)
    (hrun : p.status = .kRunning) :
    StopsSender answers fields k current pckt ↔
      ¬ p.ExitFaults ∧ ∃ l, UserProcess.HeapList k p.processMemoryHeap l := by
  rw [← UserProcess.exit_returns_iff answers kErrorProcessFault hp]
  constructor
  · intro hstops
    obtain ⟨_, ⟨fuel, hdone⟩, _⟩ := hstops
    dsimp only at hdone
    rw [sanitize_running h hp hrun fuel, bind_eq_done] at hdone
    obtain ⟨k₁, hexit, _⟩ := hdone
    exact ⟨fuel, k₁, hexit⟩
  · intro hreturns
    obtain ⟨fuel, k', hexit⟩ := hreturns
    obtain ⟨_, _, _, hprocesses, hteam⟩ := UserProcess.exit_gone hexit
    refine ⟨k', .intro fuel ?_, ?_, ?_, ?_⟩
    · rw [sanitize_running h hp hrun fuel, hexit, done_bind]
    · intro hstill
      obtain ⟨q, hq, _⟩ := hstill
      rw [hprocesses, Function.update_self] at hq
      cases hq
    · intro other hother
      rw [hprocesses, Function.update_of_ne hother]
    · rw [hteam]

end Crash

/-- A refused packet stops a process that can be scheduled, and no other, exactly if the process is
running already and its `Exit` returns. -/
theorem stopsSender_iff (answers : HeapAnswers) (fields : VoidPtr → PassFields) {k : Kernel}
    {current : VoidPtr} {pckt : Option IPCMessage} {p : UserProcess}
    (hp : k.processes current = some p)
    (hcan : UserProcessHelper.canBeScheduled p (fields current) = true) (h : Refuses pckt) :
    StopsSender answers fields k current pckt ↔
      p.status = .kRunning ∧ ¬ p.ExitFaults ∧
        ∃ l, UserProcess.HeapList k p.processMemoryHeap l := by
  by_cases hrun : p.status = .kRunning
  · rw [stops_running_iff h hp hrun]
    simp [hrun]
  · apply iff_of_false (not_stops_idle h hp hcan hrun)
    exact fun hcond => hrun hcond.1

/-! ## One process -/

/-- The process of slot 0, in one status or another. -/
def senderKernel (status : ProcessStatusKind) : Kernel :=
  (UserProcess.sampleKernel 0).setProcess 0x5000 (some { schedulable with status := status })

theorem stopsSender_running :
    StopsSender UserProcess.sampleAnswers (fun _ => schedulableFields) (senderKernel .kRunning)
      0x5000 none := by
  apply (stopsSender_iff _ _ (p := { schedulable with status := .kRunning }) rfl (by decide)
    refuses_null).mpr
  exact ⟨rfl, UserProcess.sample_returns 0, [], rfl⟩

/-- A process that `Spawn` has just put into the team goes on. -/
theorem stopsSender_starting :
    Schedulable (fun _ => schedulableFields) (senderKernel .kStarting) 0x5000 ∧
      ¬ StopsSender UserProcess.sampleAnswers (fun _ => schedulableFields)
        (senderKernel .kStarting) 0x5000 none := by
  constructor
  · exact ⟨{ schedulable with status := .kStarting }, rfl, by decide⟩
  · exact not_stops_idle (p := { schedulable with status := .kStarting }) refuses_null rfl
      (by decide) (by decide)

end Zka.NetworkKit
