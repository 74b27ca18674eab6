import Zka.KernelKit.Heap
import Zka.KernelKit.ProcessTable

/-!
# Failures of `Spawn`

What `Spawn` leaves behind when it returns an error, and what `rtl_create_process` makes
of that error.
-/

namespace Zka.KernelKit

open Outcome UserProcess UserProcessScheduler

/-! ## The callers -/

def kSchedInvalidPID : ProcessID := -1

/-- What the loader answers; a symbol that is not found is a null pointer. -/
structure PEFLoader where
  start : ErrorOr
  blob : VoidPtr
  stackSize : Option UInt64
  heapSize : Option UInt64

/-- A process as its constructor leaves it, with its kind and image. -/
def UserProcess.created (procKind : Int32) (image : UserProcessImage) : UserProcess where
  stackFrame := 0
  status := .kFinished
  stackReserve := 0
  image := image
  pefDLLDelegate := 0
  processMemoryHeap := 0
  hasParentTeam := false
  vmRegister := 0
  pTime := 0
  processId := kSchedInvalidPID
  kind := procKind
  fLastExitCode := 0

/-- The callers of `Spawn` delete the process object when the number is the invalid one. -/
def endCreate (k : Kernel) (proc : VoidPtr) (id : ProcessID) : Kernel :=
  if id = kProcessInvalidID then (operatorDelete k proc).setProcess proc none else k

/-- `rtl_create_process`, where `proc` is the new object. -/
def rtlCreateProcess (answers : HeapAnswers) (fuel : Nat) (k : Kernel) (exec : PEFLoader)
    (procKind : Int32) (proc : VoidPtr) (a : SpawnAnswers) :
    Outcome CFault (ProcessID × Kernel) :=
  if exec.start.id ≠ kErrorSuccess then .done (kProcessInvalidID, k)
  else if proc = 0 then .fault .nullDereference
  else
    let image := ⟨exec.start.ref.getD 0, exec.blob⟩
    let k := k.setProcess proc (some (.created procKind image))
    if exec.stackSize = none ∨ exec.heapSize = none then .fault .nullDereference
    else do
      let (id, k) ← spawn answers fuel k proc a
      return (id, endCreate k proc id)

/-! ## Clean failures -/

/-- The blocks that `Spawn` gets for a process of this kind. -/
def allocated (a : SpawnAnswers) (kind : Int32) : List VoidPtr :=
  let dllDelegate := if kind = kExectuableDLLKind then a.dllDelegate else 0
  let answered :=
    if a.vmRegister = 0 then []
    else if a.stackFrame = 0 then [a.vmRegister]
    else [a.vmRegister, a.stackFrame, dllDelegate, a.stackReserve]
  answered.filter (· ≠ 0)

def allocatedFor (k : Kernel) (process : VoidPtr) (a : SpawnAnswers) : List VoidPtr :=
  if process = 0 then []
  else match k.processes process with
    | some p => allocated a p.kind
    | none => []

/-- How often a block was released between two states. -/
def releaseCount (k k' : Kernel) (ptr : VoidPtr) : Nat :=
  (k'.trace.drop k.trace.length).countP fun c => c.kind ≠ .allocate ∧ c.ptr = ptr

/-- A call of `Spawn` that failed with `id` has left nothing behind, and its caller deletes the
process object. -/
structure CleanFailure (k : Kernel) (process : VoidPtr) (a : SpawnAnswers) (id : ProcessID)
    (k' : Kernel) : Prop where
  count : k'.team.mProcessCount = k.team.mProcessCount
  list : k'.team.mProcessList = k.team.mProcessList
  blocks : ∀ ptr ∈ allocatedFor k process a, releaseCount k k' ptr = 1
  object : process ≠ 0 → releaseCount k (endCreate k' process id) process = 1
  recognised : id = kProcessInvalidID

/-- Every error that `Spawn` returns is a clean failure. -/
def SpawnLaw (answers : HeapAnswers) (k : Kernel) (process : VoidPtr) (a : SpawnAnswers) : Prop :=
  ∀ id k', Yields (fun fuel => spawn answers fuel k process a) (id, k') → id < 0 →
    CleanFailure k process a id k'

/-! ## The condition -/

/-- A running process comes to its end: it is in a team, has its delegate if it is a library, and
its memory list is in order. -/
structure CrashEnds (k : Kernel) (p : UserProcess) (delegate : VoidPtr) : Prop where
  member : p.hasParentTeam = true
  library : p.kind = kExectuableDLLKind → delegate ≠ 0
  list : ∃ l, HeapList k p.processMemoryHeap l

/-- There is no process, or `Spawn` does not return an error for it: it crashes the process and does
not come back, or no block is missing and the team has room. -/
def FailureFree (k : Kernel) (process : VoidPtr) (a : SpawnAnswers) : Prop :=
  process = 0 ∨ ∀ p, k.processes process = some p → Stuck p a ∨
    if Refused a then p.status = .kRunning ∧ ¬ CrashEnds k p (crashDelegate p a)
    else 0 ≤ k.team.mProcessCount ∧ k.team.mProcessCount ≤ kSchedProcessLimitPerTeam

/-! ## What `Spawn` returns -/

section Spawn

variable {answers : HeapAnswers} {k k' : Kernel} {process : VoidPtr} {p : UserProcess}
  {a : SpawnAnswers}

/-- The crash of a running process returns when its `Exit` does. -/
theorem crashed_returns_iff (answers : HeapAnswers) {q : UserProcess} (hrun : q.status = .kRunning)
    (hq : k.processes process = some q) :
    (∃ r, Yields (fun fuel => crashed answers fuel k process) r) ↔
      ¬ q.ExitFaults ∧ ∃ l, HeapList k q.processMemoryHeap l := by
  rw [← exit_returns_iff answers kErrorProcessFault hq]
  have hcrash := fun fuel => crash_running answers fuel hq hrun
  constructor
  · intro h
    obtain ⟨r, fuel, h⟩ := h
    dsimp only at h
    rw [crashed, hcrash] at h
    obtain ⟨k', hexit, -⟩ := bind_eq_done.mp h
    exact ⟨fuel, k', hexit⟩
  · intro h
    obtain ⟨fuel, k', hexit⟩ := h
    refine ⟨(-kErrorProcessFault.toInt, k'), fuel, ?_⟩
    dsimp only
    rw [crashed, hcrash, hexit]
    rfl

theorem crashEnds_iff {q : UserProcess} {d : VoidPtr} (hsame : SameEnd p q d) :
    (¬ q.ExitFaults ∧ ∃ l, HeapList k q.processMemoryHeap l) ↔ CrashEnds k p d := by
  rw [hsame.list]
  constructor
  · intro h
    obtain ⟨hdll, hmember⟩ := not_or.mp h.1
    refine ⟨?_, fun hkind hnull => hdll ⟨hsame.kind.trans hkind, ?_⟩, h.2⟩
    · rw [← hsame.team.1]
      exact Bool.eq_true_of_not_eq_false hmember
    · rw [hsame.library hkind, hnull]
  · intro h
    refine ⟨not_or_intro ?_ ?_, h.list⟩
    · intro hdll
      have hkind := hsame.kind.symm.trans hdll.1
      exact h.library hkind ((hsame.library hkind).symm.trans hdll.2)
    · rw [hsame.team.1, h.member]
      exact Bool.true_eq_false.mp

/-- The crash of a running process returns exactly when the process comes to its end. -/
theorem crashed_running_iff (answers : HeapAnswers) {q : UserProcess} {d : VoidPtr}
    (hsame : SameEnd p q d) (hrun : p.status = .kRunning) :
    (∃ r, Yields (fun fuel => crashed answers fuel (k.setProcess process (some q)) process) r) ↔
      CrashEnds k p d := by
  rw [crashed_returns_iff answers (hsame.status.trans hrun) (setProcess_self ..)]
  exact crashEnds_iff (k := k) hsame

theorem crashed_id {fuel : Nat} {r : ProcessID × Kernel}
    (h : crashed answers fuel k process = .done r) : r.1 = -kErrorProcessFault.toInt := by
  obtain ⟨k₁, -, hdone⟩ := bind_eq_done.mp h
  cases hdone
  rfl

/-- Whenever `Spawn` returns without one of its blocks, the error is not the one that its callers
ask for. -/
theorem spawn_refused_id (hne : process ≠ 0) (hp : k.processes process = some p)
    (hrefused : Refused a) {fuel : Nat} {r : ProcessID × Kernel}
    (h : spawn answers fuel k process a = .done r) : r.1 = -kErrorProcessFault.toInt := by
  have hstuck : ¬ Stuck p a := fun hstuck => spawn_stuck answers fuel hne hp hstuck h
  obtain ⟨q, -, hspawn⟩ := spawn_refused answers hne hp hrefused hstuck
  rw [hspawn] at h
  exact crashed_id h

/-- The process enters the team if there is room for it. -/
theorem spawn_enters (answers : HeapAnswers) (hne : process ≠ 0)
    (hp : k.processes process = some p) (hblocks : ¬ Refused a) (hstuck : ¬ Stuck p a) :
    ∃ q, ∀ fuel, spawn answers fuel k process a =
      if (kSchedProcessLimitPerTeam : Int) < k.team.mProcessCount then
        .done (kProcessInvalidID, k.setProcess process (some q))
      else .done (k.team.mProcessCount, entered k process q) := by
  obtain ⟨q, -, hspawn⟩ := spawn_supplied answers hne hp hblocks hstuck
  refine ⟨q, fun fuel => ?_⟩
  rw [hspawn]
  split
  · rename_i hfull
    rw [enterTeam]
    exact if_pos hfull
  · rename_i hroom
    exact enterTeam_entered hroom

theorem allocatedFor_vmRegister (hne : process ≠ 0) (hp : k.processes process = some p)
    (hvm : a.vmRegister ≠ 0) : a.vmRegister ∈ allocatedFor k process a := by
  rw [allocatedFor, if_neg hne, hp]
  dsimp only
  rw [allocated, List.mem_filter]
  refine ⟨?_, by simp [hvm]⟩
  rw [if_neg hvm]
  split
  · exact List.mem_singleton_self _
  · exact List.mem_cons_self

theorem releaseCount_same (h : k'.trace = k.trace) (ptr : VoidPtr) : releaseCount k k' ptr = 0 := by
  rw [releaseCount, h, List.drop_length]
  rfl

/-- Without a process there is nothing to leave behind. -/
theorem cleanFailure_null (k : Kernel) (a : SpawnAnswers) :
    CleanFailure k 0 a kProcessInvalidID k where
  count := rfl
  list := rfl
  blocks ptr hptr := by
    rw [allocatedFor, if_pos rfl] at hptr
    cases hptr
  object h := absurd rfl h
  recognised := rfl

/-- Where the condition holds no error is returned for a process. -/
theorem spawn_nonneg (h : FailureFree k process a) (hne : process ≠ 0) {fuel : Nat}
    {r : ProcessID × Kernel} (hspawn : spawn answers fuel k process a = .done r) : 0 ≤ r.1 := by
  cases hp : k.processes process with
  | none =>
    rw [spawn, if_neg hne] at hspawn
    obtain ⟨k₁, hmodify, -⟩ := bind_eq_done.mp hspawn
    obtain ⟨p, hp', -⟩ := bind_eq_done.mp hmodify
    cases hp.symm.trans (process_eq_done hp')
  | some p =>
    have hstuck : ¬ Stuck p a := fun hstuck => spawn_stuck answers fuel hne hp hstuck hspawn
    have hcondition := (h.resolve_left hne p hp).resolve_left hstuck
    by_cases hrefused : Refused a
    · rw [if_pos hrefused] at hcondition
      obtain ⟨q, hsame, hcrash⟩ := spawn_refused answers hne hp hrefused hstuck
      rw [hcrash] at hspawn
      have hends := (crashed_running_iff answers hsame hcondition.1).mp ⟨r, fuel, hspawn⟩
      exact absurd hends hcondition.2
    · rw [if_neg hrefused] at hcondition
      obtain ⟨q, henters⟩ := spawn_enters answers hne hp hrefused hstuck
      rw [henters, if_neg (Int.not_lt.mpr hcondition.2)] at hspawn
      cases hspawn
      exact hcondition.1

theorem spawnLaw_of_failureFree (h : FailureFree k process a) : SpawnLaw answers k process a := by
  intro id k' hyields hneg
  obtain ⟨fuel, hspawn⟩ := hyields
  by_cases hne : process = 0
  · subst hne
    dsimp only at hspawn
    rw [spawn, if_pos rfl] at hspawn
    cases hspawn
    exact cleanFailure_null k a
  · exact absurd hneg (Int.not_lt.mpr (spawn_nonneg h hne hspawn))

/-- Without one of its blocks `Spawn` does not return where the law holds. -/
theorem spawn_never (h : SpawnLaw answers k process a) (hne : process ≠ 0)
    (hp : k.processes process = some p) (hrefused : Refused a) (fuel : Nat)
    (r : ProcessID × Kernel) : spawn answers fuel k process a ≠ .done r := by
  intro hspawn
  have hid := spawn_refused_id hne hp hrefused hspawn
  have hclean := h r.1 r.2 ⟨fuel, hspawn⟩ (by rw [hid]; decide)
  have hwrong := hclean.recognised
  rw [hid] at hwrong
  exact absurd hwrong (by decide)

theorem refused_of_spawnLaw (h : SpawnLaw answers k process a) (hne : process ≠ 0)
    (hp : k.processes process = some p) (hrefused : Refused a) (hstuck : ¬ Stuck p a) :
    p.status = .kRunning ∧ ¬ CrashEnds k p (crashDelegate p a) := by
  have hrun : p.status = .kRunning := by
    by_contra hidle
    obtain ⟨q, -, hspawn⟩ := spawn_idle answers hne hp fun _ => hidle
    exact spawn_never h hne hp hrefused 0 _ ((hspawn 0).trans (if_pos hrefused))
  refine ⟨hrun, fun hends => ?_⟩
  obtain ⟨q, hsame, hcrash⟩ := spawn_refused answers hne hp hrefused hstuck
  obtain ⟨r, fuel, hcrashed⟩ := (crashed_running_iff answers hsame hrun).mpr hends
  exact spawn_never h hne hp hrefused fuel r ((hcrash fuel).trans hcrashed)

/-- The blocks of a process that finds no room are not released. -/
theorem room_of_spawnLaw (h : SpawnLaw answers k process a) (hne : process ≠ 0)
    (hp : k.processes process = some p) (hblocks : ¬ Refused a) (hstuck : ¬ Stuck p a) :
    0 ≤ k.team.mProcessCount ∧ k.team.mProcessCount ≤ kSchedProcessLimitPerTeam := by
  obtain ⟨q, henters⟩ := spawn_enters answers hne hp hblocks hstuck
  have hspawn := henters 0
  by_cases hfull : (kSchedProcessLimitPerTeam : Int) < k.team.mProcessCount
  · rw [if_pos hfull] at hspawn
    have hclean := h _ _ ⟨0, hspawn⟩ (by decide)
    have hvm : a.vmRegister ≠ 0 := (not_or.mp hblocks).1
    have hreleased := hclean.blocks _ (allocatedFor_vmRegister hne hp hvm)
    have hkept : releaseCount k (k.setProcess process (some q)) a.vmRegister = 0 :=
      releaseCount_same rfl _
    omega
  · refine ⟨?_, Int.not_lt.mp hfull⟩
    by_contra hneg
    rw [if_neg hfull] at hspawn
    have hclean := h _ _ ⟨0, hspawn⟩ (Int.not_le.mp hneg)
    have hcount : k.team.mProcessCount + 1 = k.team.mProcessCount := hclean.count
    omega

theorem failureFree_of_spawnLaw (h : SpawnLaw answers k process a) : FailureFree k process a := by
  by_cases hne : process = 0
  · exact .inl hne
  refine .inr fun p hp => ?_
  by_cases hstuck : Stuck p a
  · exact .inl hstuck
  refine .inr ?_
  split
  · rename_i hrefused
    exact refused_of_spawnLaw h hne hp hrefused hstuck
  · rename_i hblocks
    exact room_of_spawnLaw h hne hp hblocks hstuck

/-- `Spawn` and its callers fail cleanly exactly when `Spawn` does not fail for a process. -/
theorem spawnLaw_iff (answers : HeapAnswers) (k : Kernel) (process : VoidPtr) (a : SpawnAnswers) :
    SpawnLaw answers k process a ↔ FailureFree k process a :=
  ⟨failureFree_of_spawnLaw, spawnLaw_of_failureFree⟩

/-- The process object of `rtl_create_process` stays behind when `Spawn` lacks a block. -/
theorem rtlCreateProcess_refused (answers : HeapAnswers) (k : Kernel) {exec : PEFLoader}
    (procKind : Int32) (hstart : exec.start.id = kErrorSuccess)
    (hsizes : ¬ (exec.stackSize = none ∨ exec.heapSize = none)) (hne : process ≠ 0)
    (hrefused : Refused a) :
    ∃ q, ∀ fuel, rtlCreateProcess answers fuel k exec procKind process a =
      .done (-kErrorProcessFault.toInt, k.setProcess process (some q)) := by
  obtain ⟨q, -, hspawn⟩ := spawn_idle (a := a) answers hne
    (setProcess_self k process (some (.created procKind ⟨exec.start.ref.getD 0, exec.blob⟩)))
    fun _ => by simp [created]
  refine ⟨q, fun fuel => ?_⟩
  rw [rtlCreateProcess, if_neg (not_not_intro hstart), if_neg hne]
  dsimp only
  rw [if_neg hsizes, hspawn, if_pos hrefused, setProcess_idem]
  rfl

end Spawn

/-! ## A new process -/

/-- A team of one process, and the object of another one that is to be spawned. -/
def newcomerKernel : Kernel :=
  (sampleKernel 0).setProcess 0x9000 (some (.created kExectuableKind ⟨0x4000, 0x4800⟩))

/-- The stack frame cannot be had: the error is -39, and the page directory is not released. -/
theorem spawnLaw_stackFrame :
    ¬ SpawnLaw sampleAnswers newcomerKernel 0x9000 ⟨0x3000, 0, 0x3400, 0x3800⟩ := by
  intro h
  have hclean := h (-39) _ ⟨0, rfl⟩ (by decide)
  exact absurd hclean.recognised (by decide)

end Zka.KernelKit
