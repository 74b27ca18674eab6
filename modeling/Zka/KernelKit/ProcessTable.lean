import Zka.Framework.Run
import Zka.KernelKit.ProcessCalls

/-!
# The table of processes

`Spawn` and `Remove` of the scheduler, and the slots of its team over runs of
`Spawn`, `Exit` and `Remove`.
-/

namespace Zka.KernelKit

open Outcome

abbrev ProcessID := Int

def kSchedProcessLimitPerTeam : Nat := 32

def kProcessInvalidID : ProcessID := -1

/-- `AffinityKind::kStandard`. -/
def kStandard : UInt64 := 1000

/-- What `Spawn` gets from the heap and from `rtl_init_dll`; null is a failure. -/
structure SpawnAnswers where
  vmRegister : VoidPtr
  stackFrame : VoidPtr
  dllDelegate : VoidPtr
  stackReserve : VoidPtr

/-- A process number as an index of the list. -/
def toIndex (id : ProcessID) : Nat := (id % 2 ^ 64).toNat

/-- `Array::Count`, the number of slots that are not null. -/
def UserProcessTeam.listCount (team : UserProcessTeam) : Nat :=
  (List.range kSchedProcessLimitPerTeam).countP fun i => team.mProcessList i ≠ 0

/-- `Array::Assign` writes behind the array when the index is too large. -/
def UserProcessTeam.assign (team : UserProcessTeam) (i : Nat) (ptr : VoidPtr) : UserProcessTeam :=
  { team with mProcessList := Function.update team.mProcessList i ptr }

def Kernel.modifyProcess (k : Kernel) (this : VoidPtr) (f : UserProcess → UserProcess) :
    Outcome CFault Kernel := do
  let p ← k.process this
  return k.setProcess this (some (f p))

namespace UserProcessScheduler

open UserProcess

def crashed (answers : HeapAnswers) (fuel : Nat) (k : Kernel) (process : VoidPtr) :
    Outcome CFault (ProcessID × Kernel) := do
  let k ← crash answers fuel k process
  return (-kErrorProcessFault.toInt, k)

/-- The delegate of a library.  `rtl_init_dll` crashes the process when it fails. -/
def initDll (answers : HeapAnswers) (fuel : Nat) (k : Kernel) (process : VoidPtr)
    (dllDelegate : VoidPtr) : Outcome CFault Kernel := do
  let p ← k.process process
  if p.kind = kExectuableDLLKind then
    let k ← if dllDelegate = 0 then crash answers fuel k process else .done k
    k.modifyProcess process fun p => { p with pefDLLDelegate := dllDelegate }
  else return k

def enterTeam (k : Kernel) (process : VoidPtr) : Outcome CFault (ProcessID × Kernel) :=
  let pid := k.team.mProcessCount
  if pid > kSchedProcessLimitPerTeam then .done (kProcessInvalidID, k)
  else do
    let k := { k with team := { k.team with mProcessCount := pid + 1 } }
    let k ← k.modifyProcess process fun p =>
      { p with hasParentTeam := true, processId := pid, status := .kStarting, pTime := kStandard }
    return (pid, { k with team := k.team.assign (toIndex pid) process })

def spawn (answers : HeapAnswers) (fuel : Nat) (k : Kernel) (process : VoidPtr)
    (a : SpawnAnswers) : Outcome CFault (ProcessID × Kernel) :=
  if process = 0 then .done (kProcessInvalidID, k)
  else do
    let k ← k.modifyProcess process fun p => { p with vmRegister := a.vmRegister }
    if a.vmRegister = 0 then crashed answers fuel k process
    else
      let k ← k.modifyProcess process fun p => { p with stackFrame := a.stackFrame }
      if a.stackFrame = 0 then crashed answers fuel k process
      else
        let k ← initDll answers fuel k process a.dllDelegate
        let k ← k.modifyProcess process fun p => { p with stackReserve := a.stackReserve }
        if a.stackReserve = 0 then crashed answers fuel k process
        else enterTeam k process

def remove (answers : HeapAnswers) (fuel : Nat) (k : Kernel) (processId : ProcessID) :
    Outcome CFault (Bool × Kernel) :=
  if k.team.listCount < toIndex processId then .done (false, k)
  else do
    let k ← exit answers fuel k (k.team.mProcessList (toIndex processId)) 0
    return (true, k)

/-! ## What `Spawn` does -/

/-- A block that `Spawn` cannot do without is missing. -/
def Refused (a : SpawnAnswers) : Prop :=
  a.vmRegister = 0 ∨ a.stackFrame = 0 ∨ a.stackReserve = 0

instance : DecidablePred Refused := fun _ => inferInstanceAs (Decidable (_ ∨ _ ∨ _))

/-- `Spawn` crashes the process: a block or the delegate of a library is missing. -/
def Shortage (p : UserProcess) (a : SpawnAnswers) : Prop :=
  Refused a ∨ p.kind = kExectuableDLLKind ∧ a.dllDelegate = 0

section Spawn

variable {answers : HeapAnswers} {fuel : Nat} {k k' : Kernel} {process : VoidPtr} {p : UserProcess}
  {a : SpawnAnswers}

theorem modifyProcess_eq (f : UserProcess → UserProcess) (hp : k.processes process = some p) :
    k.modifyProcess process f = .done (k.setProcess process (some (f p))) := by
  rw [Kernel.modifyProcess, process_eq hp]
  rfl

theorem setProcess_self (k : Kernel) (process : VoidPtr) (v : Option UserProcess) :
    (k.setProcess process v).processes process = v :=
  Function.update_self ..

theorem setProcess_idem (k : Kernel) (process : VoidPtr) (v w : Option UserProcess) :
    (k.setProcess process v).setProcess process w = k.setProcess process w := by
  simp [Kernel.setProcess]

theorem modifyProcess_setProcess (k : Kernel) (process : VoidPtr) (p : UserProcess)
    (f : UserProcess → UserProcess) :
    (k.setProcess process (some p)).modifyProcess process f =
      .done (k.setProcess process (some (f p))) := by
  rw [modifyProcess_eq f (setProcess_self ..), setProcess_idem]

/-- A process that does not run is left alone by `Crash`. -/
theorem crash_idle (answers : HeapAnswers) (fuel : Nat) (hp : k.processes process = some p)
    (hidle : p.status ≠ .kRunning) : crash answers fuel k process = .done k := by
  rw [crash, process_eq hp, done_bind, if_pos hidle]
  rfl

theorem crashed_idle (answers : HeapAnswers) (fuel : Nat) (hidle : p.status ≠ .kRunning) :
    crashed answers fuel (k.setProcess process (some p)) process =
      .done (-kErrorProcessFault.toInt, k.setProcess process (some p)) := by
  rw [crashed, crash_idle answers fuel (setProcess_self ..) hidle]
  rfl

theorem crash_running (answers : HeapAnswers) (fuel : Nat) (hp : k.processes process = some p)
    (hrun : p.status = .kRunning) :
    crash answers fuel k process = exit answers fuel k process kErrorProcessFault := by
  rw [crash, process_eq hp, done_bind, if_neg (not_not_intro hrun)]

def SameTeam (p q : UserProcess) : Prop :=
  q.hasParentTeam = p.hasParentTeam ∧ q.processId = p.processId

/-- A library gets its delegate. -/
def withDelegate (p : UserProcess) (d : VoidPtr) : UserProcess :=
  if p.kind = kExectuableDLLKind then { p with pefDLLDelegate := d } else p

/-- The delegate is stored, unless the process runs and crashes because there is none. -/
theorem initDll_eq (answers : HeapAnswers) (k : Kernel) (process d : VoidPtr)
    (hidle : p.kind = kExectuableDLLKind ∧ d = 0 → p.status ≠ .kRunning) (fuel : Nat) :
    initDll answers fuel (k.setProcess process (some p)) process d =
      .done (k.setProcess process (some (withDelegate p d))) := by
  rw [initDll, process_eq (setProcess_self ..), done_bind, withDelegate]
  by_cases hdll : p.kind = kExectuableDLLKind
  · rw [if_pos hdll, if_pos hdll]
    by_cases hd : d = 0
    · rw [if_pos hd, crash_idle answers fuel (setProcess_self ..) (hidle ⟨hdll, hd⟩), done_bind]
      exact modifyProcess_setProcess k process p _
    · rw [if_neg hd, done_bind]
      exact modifyProcess_setProcess k process p _
  · rw [if_neg hdll, if_neg hdll]
    rfl

/-- Storing the delegate of a process that `Crash` has deleted writes to a dead object. -/
theorem initDll_crashed (answers : HeapAnswers) (fuel : Nat)
    (hdll : p.kind = kExectuableDLLKind) (hrun : p.status = .kRunning) {k' : Kernel} :
    initDll answers fuel (k.setProcess process (some p)) process 0 ≠ .done k' := by
  intro h
  rw [initDll, process_eq (setProcess_self ..), done_bind, if_pos hdll, if_pos rfl,
    crash_running answers fuel (setProcess_self ..) hrun, bind_eq_done] at h
  obtain ⟨k₁, hexit, h⟩ := h
  obtain ⟨q, _, _, hgone, _⟩ := exit_gone hexit
  dsimp only at h
  rw [Kernel.modifyProcess, bind_eq_done] at h
  obtain ⟨q', hq', _⟩ := h
  have hdead := process_eq_done hq'
  rw [hgone, Function.update_self] at hdead
  cases hdead

/-- `Spawn` crashes a running library whose delegate cannot be had. -/
structure Stuck (p : UserProcess) (a : SpawnAnswers) : Prop where
  vmRegister : a.vmRegister ≠ 0
  stackFrame : a.stackFrame ≠ 0
  library : p.kind = kExectuableDLLKind ∧ a.dllDelegate = 0
  running : p.status = .kRunning

/-- The library is gone when its delegate is stored. -/
theorem spawn_stuck (answers : HeapAnswers) (fuel : Nat) (hne : process ≠ 0)
    (hp : k.processes process = some p) (hstuck : Stuck p a) {r : ProcessID × Kernel} :
    spawn answers fuel k process a ≠ .done r := by
  intro h
  rw [spawn, if_neg hne, modifyProcess_eq _ hp, done_bind, if_neg hstuck.vmRegister,
    modifyProcess_setProcess, done_bind, if_neg hstuck.stackFrame, hstuck.library.2] at h
  obtain ⟨k₁, hinit, -⟩ := bind_eq_done.mp h
  exact initDll_crashed
    (p := { p with vmRegister := a.vmRegister, stackFrame := a.stackFrame })
    answers fuel hstuck.library.1 hstuck.running hinit

/-- The delegate of the process when it is crashed for want of a block. -/
def crashDelegate (p : UserProcess) (a : SpawnAnswers) : VoidPtr :=
  if a.vmRegister = 0 ∨ a.stackFrame = 0 then p.pefDLLDelegate else a.dllDelegate

/-- What a crash reads of the process is as it was, but for the delegate. -/
structure SameEnd (p q : UserProcess) (delegate : VoidPtr) : Prop where
  team : SameTeam p q
  status : q.status = p.status
  kind : q.kind = p.kind
  list : q.processMemoryHeap = p.processMemoryHeap
  library : p.kind = kExectuableDLLKind → q.pefDLLDelegate = delegate

theorem sameEnd_withDelegate (p : UserProcess) (vmRegister stackFrame stackReserve d : VoidPtr) :
    SameEnd p { withDelegate { p with vmRegister := vmRegister, stackFrame := stackFrame } d with
      stackReserve := stackReserve } d := by
  by_cases hdll : p.kind = kExectuableDLLKind
  · rw [withDelegate, if_pos hdll]
    exact ⟨⟨rfl, rfl⟩, rfl, rfl, rfl, fun _ => rfl⟩
  · rw [withDelegate, if_neg hdll]
    exact ⟨⟨rfl, rfl⟩, rfl, rfl, rfl, fun h => absurd h hdll⟩

/-- Without one of its blocks `Spawn` crashes the process. -/
theorem spawn_refused (answers : HeapAnswers) (hne : process ≠ 0)
    (hp : k.processes process = some p) (hrefused : Refused a) (hstuck : ¬ Stuck p a) :
    ∃ q, SameEnd p q (crashDelegate p a) ∧ ∀ fuel, spawn answers fuel k process a =
      crashed answers fuel (k.setProcess process (some q)) process := by
  by_cases hvm : a.vmRegister = 0
  · refine ⟨{ p with vmRegister := a.vmRegister }, ⟨⟨rfl, rfl⟩, rfl, rfl, rfl, fun _ => ?_⟩,
      fun fuel => ?_⟩
    · rw [crashDelegate, if_pos (.inl hvm)]
    · rw [spawn, if_neg hne, modifyProcess_eq _ hp, done_bind, if_pos hvm]
  by_cases hframe : a.stackFrame = 0
  · refine ⟨{ p with vmRegister := a.vmRegister, stackFrame := a.stackFrame },
      ⟨⟨rfl, rfl⟩, rfl, rfl, rfl, fun _ => ?_⟩, fun fuel => ?_⟩
    · rw [crashDelegate, if_pos (.inr hframe)]
    · rw [spawn, if_neg hne, modifyProcess_eq _ hp, done_bind, if_neg hvm, modifyProcess_setProcess,
        done_bind, if_pos hframe]
  have hreserve : a.stackReserve = 0 := (hrefused.resolve_left hvm).resolve_left hframe
  have hinit := initDll_eq (p := { p with vmRegister := a.vmRegister, stackFrame := a.stackFrame })
    answers k process a.dllDelegate fun hdll hrun => hstuck ⟨hvm, hframe, hdll, hrun⟩
  have hdelegate : crashDelegate p a = a.dllDelegate := if_neg (not_or_intro hvm hframe)
  have hsame := sameEnd_withDelegate p a.vmRegister a.stackFrame a.stackReserve a.dllDelegate
  refine ⟨_, { hsame with library := fun h => (hsame.library h).trans hdelegate.symm },
    fun fuel => ?_⟩
  rw [spawn, if_neg hne, modifyProcess_eq _ hp, done_bind, if_neg hvm, modifyProcess_setProcess,
    done_bind, if_neg hframe, hinit, done_bind, modifyProcess_setProcess, done_bind,
    if_pos hreserve]

/-- With all its blocks `Spawn` gets as far as the team. -/
theorem spawn_supplied (answers : HeapAnswers) (hne : process ≠ 0)
    (hp : k.processes process = some p) (hblocks : ¬ Refused a) (hstuck : ¬ Stuck p a) :
    ∃ q, SameTeam p q ∧ ∀ fuel, spawn answers fuel k process a =
      enterTeam (k.setProcess process (some q)) process := by
  obtain ⟨hvm, hframe, hreserve⟩ : a.vmRegister ≠ 0 ∧ a.stackFrame ≠ 0 ∧ a.stackReserve ≠ 0 := by
    simpa [Refused, not_or] using hblocks
  have hinit := initDll_eq (p := { p with vmRegister := a.vmRegister, stackFrame := a.stackFrame })
    answers k process a.dllDelegate fun hdll hrun => hstuck ⟨hvm, hframe, hdll, hrun⟩
  refine ⟨_, (sameEnd_withDelegate p a.vmRegister a.stackFrame a.stackReserve a.dllDelegate).team,
    fun fuel => ?_⟩
  rw [spawn, if_neg hne, modifyProcess_eq _ hp, done_bind, if_neg hvm, modifyProcess_setProcess,
    done_bind, if_neg hframe, hinit, done_bind, modifyProcess_setProcess, done_bind,
    if_neg hreserve]

/-- Without a crash the process is refused, or enters the team. -/
theorem spawn_idle (answers : HeapAnswers) (hne : process ≠ 0)
    (hp : k.processes process = some p) (hidle : Shortage p a → p.status ≠ .kRunning) :
    ∃ q, SameTeam p q ∧ ∀ fuel, spawn answers fuel k process a =
      if Refused a then .done (-kErrorProcessFault.toInt, k.setProcess process (some q))
      else enterTeam (k.setProcess process (some q)) process := by
  have hstuck : ¬ Stuck p a := fun h => hidle (.inr h.library) h.running
  by_cases hrefused : Refused a
  · obtain ⟨q, hsame, hspawn⟩ := spawn_refused answers hne hp hrefused hstuck
    have hstill : q.status ≠ .kRunning := by
      rw [hsame.status]
      exact hidle (.inl hrefused)
    refine ⟨q, hsame.team, fun fuel => ?_⟩
    rw [hspawn, if_pos hrefused]
    exact crashed_idle answers fuel hstill
  · obtain ⟨q, hsame, hspawn⟩ := spawn_supplied answers hne hp hrefused hstuck
    refine ⟨q, hsame, fun fuel => ?_⟩
    rw [hspawn, if_neg hrefused]

/-- A crash that returns has removed a spawned process and left its slot. -/
theorem crashed_gone {answers : HeapAnswers} {fuel : Nat} {q : UserProcess} {id : ProcessID}
    (hsame : SameTeam p q) (hrun : q.status = .kRunning)
    (h : crashed answers fuel (k.setProcess process (some q)) process = .done (id, k')) :
    p.hasParentTeam = true ∧ k'.processes process = none ∧
      k'.team.mProcessList = k.team.mProcessList := by
  rw [crashed, crash_running answers fuel (setProcess_self ..) hrun, bind_eq_done] at h
  obtain ⟨k₁, hexit, h⟩ := h
  cases h
  obtain ⟨q', hq', hok, hgone, hteam⟩ := exit_gone hexit
  rw [setProcess_self] at hq'
  cases hq'
  refine ⟨?_, ?_, ?_⟩
  · rw [← hsame.1]
    exact Bool.eq_true_of_not_eq_false (not_or.mp hok).2
  · rw [hgone, Function.update_self]
  · rw [hteam]
    rfl

theorem spawn_running (hne : process ≠ 0) (hp : k.processes process = some p)
    (hshort : Shortage p a) (hrun : p.status = .kRunning) {id : ProcessID}
    (h : spawn answers fuel k process a = .done (id, k')) :
    p.hasParentTeam = true ∧ k'.processes process = none ∧
      k'.team.mProcessList = k.team.mProcessList := by
  have hstuck : ¬ Stuck p a := fun hstuck => spawn_stuck answers fuel hne hp hstuck h
  have hrefused : Refused a := by
    by_contra hblocks
    obtain ⟨hvm, hframe, -⟩ : a.vmRegister ≠ 0 ∧ a.stackFrame ≠ 0 ∧ a.stackReserve ≠ 0 := by
      simpa [Refused, not_or] using hblocks
    exact hstuck ⟨hvm, hframe, hshort.resolve_left hblocks, hrun⟩
  obtain ⟨q, hsame, hspawn⟩ := spawn_refused answers hne hp hrefused hstuck
  rw [hspawn] at h
  exact crashed_gone hsame.team (hsame.status.trans hrun) h

def entered (k : Kernel) (process : VoidPtr) (p : UserProcess) : Kernel :=
  let pid := k.team.mProcessCount
  let p := { p with hasParentTeam := true, processId := pid, status := .kStarting,
                    pTime := kStandard }
  { k.setProcess process (some p) with
    team := { mProcessCount := pid + 1
              mProcessList := Function.update k.team.mProcessList (toIndex pid) process } }

theorem enterTeam_entered (h : ¬ (kSchedProcessLimitPerTeam : Int) < k.team.mProcessCount) :
    enterTeam (k.setProcess process (some p)) process =
      .done (k.team.mProcessCount, entered k process p) := by
  rw [enterTeam]
  refine (if_neg h).trans ?_
  have hmod := modifyProcess_setProcess
    { k with team := { k.team with mProcessCount := k.team.mProcessCount + 1 } } process p
    fun p => { p with hasParentTeam := true, processId := k.team.mProcessCount,
                      status := .kStarting, pTime := kStandard }
  exact (congrArg (Outcome.bind · _) hmod).trans rfl

end Spawn

/-! ## Runs -/

/-- The process has entered the team and has not exited. -/
def Live (k : Kernel) (process : VoidPtr) : Prop :=
  ∃ p, k.processes process = some p ∧ p.hasParentTeam = true

def LiveAs (k : Kernel) (id : ProcessID) (process : VoidPtr) : Prop :=
  ∃ p, k.processes process = some p ∧ p.hasParentTeam = true ∧ p.processId = id

structure TableOk (k : Kernel) : Prop where
  inRange : ∀ id process, LiveAs k id process → 0 ≤ id ∧ id < kSchedProcessLimitPerTeam
  slot : ∀ id process, LiveAs k id process → k.team.mProcessList (toIndex id) = process
  distinct : ∀ id process process', LiveAs k id process → LiveAs k id process' →
    process = process'
  noneExited : ∀ i < kSchedProcessLimitPerTeam, k.team.mProcessList i ≠ 0 →
    k.processes (k.team.mProcessList i) ≠ none
  counted : k.team.mProcessCount = {process | Live k process}.ncard

inductive ProcessOp where
  | spawn (process : VoidPtr) (a : SpawnAnswers)
  | exit (process : VoidPtr) (exitCode : Int32)
  | remove (processId : ProcessID)

def ProcessStep (answers : HeapAnswers) (k : Kernel) : ProcessOp → Kernel → Prop
  | .spawn process a, k' => ∃ id, Yields (fun fuel => spawn answers fuel k process a) (id, k')
  | .exit process code, k' => Yields (fun fuel => UserProcess.exit answers fuel k process code) k'
  | .remove id, k' => ∃ r, Yields (fun fuel => remove answers fuel k id) (r, k')

/-- The call returns and keeps the table in order, and `Remove` of a number that no live process
has answers false and touches nothing. -/
def Kept (answers : HeapAnswers) (k : Kernel) : ProcessOp → Prop
  | .spawn process a => ∃ id k', Yields (fun fuel => spawn answers fuel k process a) (id, k') ∧
      TableOk k'
  | .exit process code =>
      ∃ k', Yields (fun fuel => UserProcess.exit answers fuel k process code) k' ∧ TableOk k'
  | .remove id => ∃ r k', Yields (fun fuel => remove answers fuel k id) (r, k') ∧ TableOk k' ∧
      ((¬ ∃ process, LiveAs k id process) → r = false ∧ k' = k)

def Fits (k : Kernel) : ProcessOp → Prop
  | .spawn process a => process = 0 ∨ ∃ p, k.processes process = some p ∧
      (Shortage p a → p.status ≠ .kRunning) ∧
      (¬ Refused a → p.hasParentTeam = false ∧ k.team.mProcessCount < kSchedProcessLimitPerTeam)
  | .exit _ _ => False
  | .remove id => k.team.listCount < toIndex id

structure EmptyTeam (k : Kernel) : Prop where
  slots : ∀ i < kSchedProcessLimitPerTeam, k.team.mProcessList i = 0
  count : k.team.mProcessCount = 0
  noMember : ∀ process, ¬ Live k process
  noNull : k.processes 0 = none

/-- The processes of the team in the order of their numbers. -/
structure TableInv (k : Kernel) (l : List VoidPtr) : Prop where
  nodup : l.Nodup
  short : l.length ≤ kSchedProcessLimitPerTeam
  slots : ∀ i < kSchedProcessLimitPerTeam, k.team.mProcessList i = l.getD i 0
  numbered : ∀ (i : Nat) process, l[i]? = some process → LiveAs k i process
  listed : ∀ process, Live k process → process ∈ l
  count : k.team.mProcessCount = l.length
  noNull : k.processes 0 = none

section Table

variable {k : Kernel} {l : List VoidPtr} {process : VoidPtr} {p : UserProcess}

theorem LiveAs.live {id : ProcessID} (h : LiveAs k id process) : Live k process := by
  obtain ⟨p, hp, hmember, _⟩ := h
  exact ⟨p, hp, hmember⟩

theorem LiveAs.id_unique {id id' : ProcessID} (h : LiveAs k id process)
    (h' : LiveAs k id' process) : id = id' := by
  obtain ⟨p, hp, _, rfl⟩ := h
  obtain ⟨p', hp', _, rfl⟩ := h'
  rw [Option.some.inj (hp.symm.trans hp')]

theorem toIndex_natCast {i : Nat} (h : i < 2 ^ 64) : toIndex i = i := by
  rw [toIndex]
  omega

theorem TableInv.start (h : EmptyTeam k) : TableInv k [] where
  nodup := List.nodup_nil
  short := Nat.zero_le _
  slots i hi := h.slots i hi
  numbered i process hi := by simp at hi
  listed process hlive := absurd hlive (h.noMember process)
  count := h.count
  noNull := h.noNull

/-- The place of a live process in the list is its number. -/
theorem TableInv.place (h : TableInv k l) {id : ProcessID} (hlive : LiveAs k id process) :
    ∃ i : Nat, i < l.length ∧ id = i ∧ l[i]? = some process := by
  obtain ⟨i, hi, hget⟩ := List.mem_iff_getElem.mp (h.listed process hlive.live)
  have hsome : l[i]? = some process := by rw [List.getElem?_eq_getElem hi, hget]
  exact ⟨i, hi, hlive.id_unique (h.numbered i process hsome), hsome⟩

theorem TableInv.live_iff (h : TableInv k l) : Live k process ↔ process ∈ l := by
  refine ⟨h.listed process, fun hmem => ?_⟩
  obtain ⟨i, hi, hget⟩ := List.mem_iff_getElem.mp hmem
  exact (h.numbered i process (by rw [List.getElem?_eq_getElem hi, hget])).live

theorem TableInv.ncard (h : TableInv k l) : {process | Live k process}.ncard = l.length := by
  have heq : {process | Live k process} = (l.toFinset : Set VoidPtr) := by
    ext process
    simp [h.live_iff]
  rw [heq, Set.ncard_coe_finset, List.toFinset_card_of_nodup h.nodup]

theorem TableInv.slot_of_getElem (h : TableInv k l) {i : Nat} (hi : l[i]? = some process) :
    k.team.mProcessList i = process := by
  have hlt : i < l.length := (List.getElem?_eq_some_iff.mp hi).1
  rw [h.slots i (lt_of_lt_of_le hlt h.short), List.getD_eq_getElem?_getD, hi]
  rfl

theorem TableInv.ok (h : TableInv k l) : TableOk k where
  inRange id process hlive := by
    obtain ⟨i, hi, rfl, _⟩ := h.place hlive
    exact ⟨Int.natCast_nonneg i, Int.ofNat_lt.mpr (lt_of_lt_of_le hi h.short)⟩
  slot id process hlive := by
    obtain ⟨i, hi, rfl, hget⟩ := h.place hlive
    have hshort := h.short
    rw [toIndex_natCast (by simp only [kSchedProcessLimitPerTeam] at hshort; omega)]
    exact h.slot_of_getElem hget
  distinct id process process' hlive hlive' := by
    obtain ⟨i, _, rfl, hget⟩ := h.place hlive
    obtain ⟨j, _, hij, hget'⟩ := h.place hlive'
    obtain rfl : i = j := Int.ofNat_inj.mp hij
    exact Option.some.inj (hget.symm.trans hget')
  noneExited i hi hne := by
    rw [h.slots i hi, List.getD_eq_getElem?_getD] at hne ⊢
    cases hget : l[i]? with
    | none =>
      rw [hget] at hne
      exact absurd rfl hne
    | some process =>
      obtain ⟨p, hp, _⟩ := h.numbered i process hget
      simp [hp]
  counted := by
    rw [h.ncard]
    exact h.count

theorem countP_range_lt {n m : Nat} : (List.range m).countP (· < n) = min n m := by
  induction m with
  | zero => simp
  | succ m ih =>
    rw [List.range_succ, List.countP_append, ih]
    by_cases hm : m < n
    · simp [hm]
      omega
    · simp [hm]
      omega

theorem TableInv.listCount (h : TableInv k l) : k.team.listCount = l.length := by
  have hslot : ∀ i ∈ List.range kSchedProcessLimitPerTeam,
      (decide (k.team.mProcessList i ≠ 0) = true ↔ decide (i < l.length) = true) := by
    intro i hi
    have hzero : ∀ process ∈ l, process ≠ 0 := by
      intro process hmem hnull
      obtain ⟨p, hp, _⟩ := h.live_iff.mpr hmem
      rw [hnull, h.noNull] at hp
      cases hp
    rw [h.slots i (List.mem_range.mp hi)]
    by_cases hlt : i < l.length
    · simp [hlt, hzero]
    · simp [hlt]
  rw [UserProcessTeam.listCount, List.countP_congr hslot, countP_range_lt]
  exact min_eq_left h.short

/-- Storing into the object of a process, whether it is in the team or not. -/
theorem TableInv.setProcess (h : TableInv k l) (hne : process ≠ 0)
    (hp : k.processes process = some p) {q : UserProcess} (hsame : SameTeam p q) :
    TableInv (k.setProcess process (some q)) l where
  nodup := h.nodup
  short := h.short
  slots := h.slots
  numbered i a hi := by
    obtain ⟨b, hb, hmember, hid⟩ := h.numbered i a hi
    by_cases ha : a = process
    · subst ha
      cases hp.symm.trans hb
      exact ⟨q, Function.update_self .., hsame.1.trans hmember, hsame.2.trans hid⟩
    · exact ⟨b, (Function.update_of_ne ha ..).trans hb, hmember, hid⟩
  listed a := by
    intro h
    rcases h with ⟨b, hb, hmember⟩
    by_cases ha : a = process
    · subst ha
      cases (Function.update_self ..).symm.trans hb
      exact h.listed a ⟨p, hp, hsame.1.symm.trans hmember⟩
    · exact h.listed a ⟨b, (Function.update_of_ne ha ..).symm.trans hb, hmember⟩
  count := h.count
  noNull := (Function.update_of_ne hne.symm ..).trans h.noNull

/-- A process that is not in the team takes the next slot. -/
theorem TableInv.entered (h : TableInv k l) (hne : process ≠ 0) (hnew : process ∉ l)
    (hroom : l.length < kSchedProcessLimitPerTeam) (q : UserProcess) :
    TableInv (entered k process q) (l ++ [process]) := by
  have hlim : kSchedProcessLimitPerTeam = 32 := rfl
  have hpid : toIndex k.team.mProcessCount = l.length := by
    rw [h.count]
    exact toIndex_natCast (by omega)
  have hself : (UserProcessScheduler.entered k process q).processes process = some
      { q with hasParentTeam := true, processId := k.team.mProcessCount, status := .kStarting,
               pTime := kStandard } := Function.update_self ..
  have hother : ∀ a, a ≠ process →
      (UserProcessScheduler.entered k process q).processes a = k.processes a :=
    fun a ha => Function.update_of_ne ha ..
  refine ⟨?_, ?_, ?_, ?_, ?_, ?_, ?_⟩
  · exact List.Nodup.append h.nodup (List.nodup_singleton process) (by simpa using hnew)
  · simpa using hroom
  · intro i hi
    change Function.update _ _ _ i = _
    rw [hpid]
    by_cases hlast : i = l.length
    · rw [hlast, Function.update_self]
      simp
    · rw [Function.update_of_ne hlast, h.slots i hi]
      simp only [List.getD_eq_getElem?_getD]
      rcases lt_or_gt_of_ne hlast with hlt | hgt
      · rw [List.getElem?_append_left hlt]
      · rw [List.getElem?_eq_none (by omega), List.getElem?_eq_none (by simp; omega)]
  · intro i a hi
    rcases lt_trichotomy i l.length with hlt | rfl | hgt
    · rw [List.getElem?_append_left hlt] at hi
      have hmem : a ∈ l := List.mem_of_getElem? hi
      have ha : a ≠ process := fun heq => hnew (heq ▸ hmem)
      obtain ⟨b, hb, hmember, hid⟩ := h.numbered i a hi
      exact ⟨b, (hother a ha).trans hb, hmember, hid⟩
    · obtain rfl : process = a := by simpa using hi
      exact ⟨_, hself, rfl, h.count⟩
    · rw [List.getElem?_eq_none (by simp; omega)] at hi
      cases hi
  · intro a h
    rcases h with ⟨b, hb, hmember⟩
    by_cases ha : a = process
    · simp [ha]
    · rw [hother a ha] at hb
      exact List.mem_append_left _ (h.listed a ⟨b, hb, hmember⟩)
  · change k.team.mProcessCount + 1 = _
    rw [h.count]
    simp
  · exact (hother 0 hne.symm).trans h.noNull

variable {answers : HeapAnswers} {a : SpawnAnswers}

theorem TableInv.fresh (h : TableInv k l) (hp : k.processes process = some p)
    (hout : p.hasParentTeam = false) : process ∉ l := by
  intro hmem
  obtain ⟨q, hq, hmember⟩ := h.live_iff.mpr hmem
  cases hp.symm.trans hq
  rw [hout] at hmember
  cases hmember

theorem spawn_fits (answers : HeapAnswers) (h : TableInv k l) (hfits : Fits k (.spawn process a)) :
    ∃ id k' l', (∀ fuel, spawn answers fuel k process a = .done (id, k')) ∧ TableInv k' l' := by
  rcases eq_or_ne process 0 with rfl | hne
  · exact ⟨kProcessInvalidID, k, l, fun fuel => by rw [spawn, if_pos rfl], h⟩
  obtain ⟨p, hp, hidle, hroom⟩ := hfits.resolve_left hne
  obtain ⟨q, hsame, hspawn⟩ := spawn_idle answers hne hp hidle
  by_cases hr : Refused a
  · refine ⟨-kErrorProcessFault.toInt, _, l, fun fuel => ?_, h.setProcess hne hp hsame⟩
    rw [hspawn, if_pos hr]
  · obtain ⟨hout, hless⟩ := hroom hr
    rw [h.count] at hless
    have hnotfull : ¬ (kSchedProcessLimitPerTeam : Int) < k.team.mProcessCount := by
      rw [h.count]
      omega
    refine ⟨k.team.mProcessCount, _, l ++ [process], fun fuel => ?_,
      h.entered hne (h.fresh hp hout) (Int.ofNat_lt.mp hless) q⟩
    rw [hspawn, if_neg hr, enterTeam_entered hnotfull]

/-- A live process that is gone from its slot breaks the table. -/
theorem TableInv.dangling (h : TableInv k l) (hlive : Live k process) {k' : Kernel}
    (hgone : k'.processes process = none)
    (hslots : k'.team.mProcessList = k.team.mProcessList) : ¬ TableOk k' := by
  intro hok
  obtain ⟨i, hi, hget⟩ := List.mem_iff_getElem.mp (h.listed process hlive)
  have hslot : k'.team.mProcessList i = process := by
    rw [hslots]
    exact h.slot_of_getElem (by rw [List.getElem?_eq_getElem hi, hget])
  have hne : process ≠ 0 := by
    intro h
    subst h
    obtain ⟨p, hp, _⟩ := hlive
    rw [h.noNull] at hp
    cases hp
  refine hok.noneExited i (lt_of_lt_of_le hi h.short) ?_ ?_
  · rwa [hslot]
  · rwa [hslot]

/-- A process that enters the team twice, or behind the last slot, breaks the table. -/
theorem TableInv.entered_breaks (h : TableInv k l) (hp : k.processes process = some p)
    (q : UserProcess)
    (hbad : p.hasParentTeam = true ∨ ¬ k.team.mProcessCount < kSchedProcessLimitPerTeam) :
    ¬ TableOk (UserProcessScheduler.entered k process q) := by
  intro hok
  have hself : (UserProcessScheduler.entered k process q).processes process = some
      { q with hasParentTeam := true, processId := k.team.mProcessCount, status := .kStarting,
               pTime := kStandard } := Function.update_self ..
  rcases hbad with hmember | hfull
  · have hsame : {a | Live (UserProcessScheduler.entered k process q) a} = {a | Live k a} := by
      ext a
      by_cases ha : a = process
      · subst ha
        exact ⟨fun _ => ⟨p, hp, hmember⟩, fun _ => ⟨_, hself, rfl⟩⟩
      · have hother : (UserProcessScheduler.entered k process q).processes a = k.processes a :=
          Function.update_of_ne ha ..
        change Live _ a ↔ Live k a
        simp only [Live, hother]
    have hcount := hok.counted
    rw [hsame, h.ncard] at hcount
    change k.team.mProcessCount + 1 = _ at hcount
    rw [h.count] at hcount
    omega
  · exact hfull (hok.inRange k.team.mProcessCount process ⟨_, hself, rfl, rfl⟩).2

theorem spawn_unfit (h : TableInv k l) (hunfit : ¬ Fits k (.spawn process a)) :
    ¬ Kept answers k (.spawn process a) := by
  intro h
  rcases h with ⟨id, k', ⟨fuel, hspawn⟩, hok⟩
  obtain ⟨hne, hno⟩ := not_or.mp hunfit
  cases hp : k.processes process with
  | none =>
    dsimp only at hspawn
    rw [spawn, if_neg hne, Kernel.modifyProcess, Kernel.process, hp] at hspawn
    cases hspawn
  | some p =>
    by_cases hcrash : Shortage p a ∧ p.status = .kRunning
    · obtain ⟨hmember, hgone, hslots⟩ := spawn_running hne hp hcrash.1 hcrash.2 hspawn
      exact h.dangling ⟨p, hp, hmember⟩ hgone hslots hok
    · have hidle : Shortage p a → p.status ≠ .kRunning := fun hs hrun => hcrash ⟨hs, hrun⟩
      obtain ⟨q, _, hq⟩ := spawn_idle answers hne hp hidle
      have hr : ¬ Refused a := fun hr => hno ⟨p, hp, hidle, fun hn => absurd hr hn⟩
      have hnotfull : ¬ (kSchedProcessLimitPerTeam : Int) < k.team.mProcessCount := by
        have hshort := h.short
        rw [h.count]
        omega
      have hbad : p.hasParentTeam = true ∨
          ¬ k.team.mProcessCount < kSchedProcessLimitPerTeam := by
        by_contra hgood
        obtain ⟨hout, hless⟩ := not_or.mp hgood
        exact hno ⟨p, hp, hidle, fun _ => ⟨Bool.eq_false_of_not_eq_true hout, not_not.mp hless⟩⟩
      dsimp only at hspawn
      rw [hq, if_neg hr, enterTeam_entered hnotfull] at hspawn
      cases hspawn
      exact h.entered_breaks hp q hbad hok

/-- `Exit` leaves the slot of the process as it was. -/
theorem exit_breaks {answers : HeapAnswers} (h : TableInv k l) {code : Int32} {fuel : Nat}
    {k' : Kernel} (hexit : UserProcess.exit answers fuel k process code = .done k') :
    ¬ TableOk k' := by
  obtain ⟨p, hp, hok, hgone, hteam⟩ := exit_gone hexit
  refine h.dangling ⟨p, hp, Bool.eq_true_of_not_eq_false (not_or.mp hok).2⟩ ?_ ?_
  · rw [hgone, Function.update_self]
  · rw [hteam]

theorem remove_refused (answers : HeapAnswers) (fuel : Nat) {id : ProcessID}
    (h : k.team.listCount < toIndex id) : remove answers fuel k id = .done (false, k) :=
  if_pos h

theorem remove_unfit (h : TableInv k l) {id : ProcessID} (hunfit : ¬ Fits k (.remove id)) :
    ¬ Kept answers k (.remove id) := by
  intro h
  rcases h with ⟨r, k', ⟨fuel, hremove⟩, hok, _⟩
  have hslot : ¬ k.team.listCount < toIndex id := hunfit
  dsimp only at hremove
  rw [remove, if_neg hslot, bind_eq_done] at hremove
  obtain ⟨k₁, hexit, hremove⟩ := hremove
  cases hremove
  exact exit_breaks h hexit hok

/-- Exactly the calls of `Fits` return and keep the table in order. -/
theorem kept_iff (answers : HeapAnswers) (h : TableInv k l) (op : ProcessOp) :
    Kept answers k op ↔ Fits k op := by
  constructor
  · intro hkept
    by_contra hunfit
    cases op with
    | spawn process a => exact spawn_unfit h hunfit hkept
    | exit process code =>
      obtain ⟨k', ⟨fuel, hexit⟩, hok⟩ := hkept
      exact exit_breaks h hexit hok
    | remove id => exact remove_unfit h hunfit hkept
  · intro hfits
    cases op with
    | spawn process a =>
      obtain ⟨id, k', l', hspawn, hinv⟩ := spawn_fits answers h hfits
      exact ⟨id, k', .intro 0 (hspawn 0), hinv.ok⟩
    | exit process code => exact hfits.elim
    | remove id =>
      exact ⟨false, k, .intro 0 (remove_refused answers 0 hfits), h.ok, fun _ => ⟨rfl, rfl⟩⟩

/-- Every call of `Fits` leads to a table in order again. -/
theorem fits_step (answers : HeapAnswers) (h : TableInv k l) {op : ProcessOp} {k' : Kernel}
    (hfits : Fits k op) (hstep : ProcessStep answers k op k') : ∃ l', TableInv k' l' := by
  cases op with
  | spawn process a =>
    obtain ⟨id, fuel, hdone⟩ := hstep
    obtain ⟨id', k₁, l', hspawn, hinv⟩ := spawn_fits answers h hfits
    cases (hspawn fuel).symm.trans hdone
    exact ⟨l', hinv⟩
  | exit process code => exact hfits.elim
  | remove id =>
    obtain ⟨r, fuel, hdone⟩ := hstep
    cases (remove_refused answers fuel hfits).symm.trans hdone
    exact ⟨l, h⟩

private theorem table_core (answers : HeapAnswers) {start : Kernel} (hstart : EmptyTeam start)
    (h : Reaches (ProcessStep answers) Fits start k) :
    TableOk k ∧ ∀ op, Kept answers k op ↔ Fits k op := by
  obtain ⟨l, hinv⟩ := Reaches.invariant (fun k => ∃ l, TableInv k l) ⟨[], TableInv.start hstart⟩
    (fun x op y hx hfits hstep => hx.elim fun l hl => fits_step answers hl hfits hstep) h
  exact ⟨hinv.ok, kept_iff answers hinv⟩

end Table

/-- As long as every call is one of `Fits` the table is in order, and it stays so by the next call
exactly when that is one of them too. -/
theorem table_run (answers : HeapAnswers) (start k : Kernel) (hstart : EmptyTeam start)
    (h : Reaches (ProcessStep answers) Fits start k) :
    TableOk k ∧ ∀ op, Kept answers k op ↔ Fits k op :=
  table_core answers hstart h

/-- A process that `new` has made, at `0x5000`, and no team yet. -/
def sampleStart : Kernel where
  cr3 := 0x1000
  nodes _ := none
  processes a := if a = 0x5000 then some { sample 0 with hasParentTeam := false } else none
  team := ⟨fun _ => 0, 0⟩
  trace := []
  kLastExitCode := 0

theorem sampleStart_empty : EmptyTeam sampleStart where
  slots _ _ := rfl
  count := rfl
  noMember a := by
    intro h
    rcases h with ⟨p, hp, hmember⟩
    simp only [sampleStart] at hp
    split at hp
    · cases hp
      cases hmember
    · cases hp
  noNull := rfl

def sampleSpawn : SpawnAnswers := ⟨0x2000, 0x3000, 0, 0x6000⟩

theorem sampleSpawn_fits : Fits sampleStart (.spawn 0x5000 sampleSpawn) := by
  refine .inr ⟨_, rfl, ?_, fun _ => ⟨rfl, by decide⟩⟩
  simp [sample]

theorem table_run_spawned : ∃ k, k.team.mProcessCount = 1 ∧ TableOk k ∧
    ∀ op, Kept sampleAnswers k op ↔ Fits k op := by
  obtain ⟨id, k, l, hspawn, hinv⟩ :=
    spawn_fits sampleAnswers (TableInv.start sampleStart_empty) sampleSpawn_fits
  refine ⟨k, ?_, table_run sampleAnswers sampleStart k sampleStart_empty
    (Reaches.one sampleSpawn_fits ⟨id, .intro 0 (hspawn 0)⟩)⟩
  obtain ⟨k', hk'⟩ : ∃ k', spawn sampleAnswers 0 sampleStart 0x5000 sampleSpawn = .done (0, k') ∧
      k'.team.mProcessCount = 1 := ⟨_, rfl, rfl⟩
  cases hk'.1.symm.trans (hspawn 0)
  exact hk'.2

/-- A process enters the team and exits; its slot still holds it. -/
theorem table_dangling : EmptyTeam sampleStart ∧ ∃ k,
    Reaches (ProcessStep sampleAnswers) (fun _ _ => True) sampleStart k ∧
      k.team.mProcessList 0 = 0x5000 ∧ k.processes 0x5000 = none ∧ ¬ TableOk k := by
  obtain ⟨k₁, hspawn, k₂, hexit, hslot, hgone⟩ : ∃ k₁,
      spawn sampleAnswers 1 sampleStart 0x5000 sampleSpawn = .done (0, k₁) ∧ ∃ k₂,
      UserProcess.exit sampleAnswers 1 k₁ 0x5000 0 = .done k₂ ∧
      k₂.team.mProcessList 0 = 0x5000 ∧ k₂.processes 0x5000 = none :=
    ⟨_, rfl, _, rfl, rfl, rfl⟩
  refine ⟨sampleStart_empty, k₂, ?_, hslot, hgone, fun hok => ?_⟩
  · have hfirst : Reaches (ProcessStep sampleAnswers) (fun _ _ => True) sampleStart k₁ :=
      Reaches.one trivial (show ProcessStep _ _ (.spawn 0x5000 sampleSpawn) k₁ from
        ⟨0, .intro 1 hspawn⟩)
    exact hfirst.tail ⟨.exit 0x5000 0, trivial, .intro 1 hexit⟩
  · refine hok.noneExited 0 (by decide) ?_ ?_
    · rw [hslot]
      decide
    · rwa [hslot]

end UserProcessScheduler

end Zka.KernelKit
