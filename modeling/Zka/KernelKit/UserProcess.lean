import Zka.Framework.Chain
import Zka.Framework.Outcome

/-!
# User processes

The memory of a process (`New`, `Delete`) and its end (`Exit`, `Crash`) on the
AMD64 kernel.  What the heap answers comes from outside; each call of it is recorded
with the value of CR3 at that moment.
-/

namespace Zka.KernelKit

open Outcome

abbrev VoidPtr := UInt64

/-- `Ref` keeps the address of an object; here it keeps what the object holds. -/
structure ErrorOr where
  ref : Option VoidPtr
  id : Int32
  deriving DecidableEq, Repr

def ErrorOr.ofValue (value : VoidPtr) : ErrorOr := ⟨some value, 0⟩

def ErrorOr.ofNull : ErrorOr := ⟨none, 0⟩

inductive ProcessStatusKind where
  | kInvalid
  | kStarting
  | kRunning
  | kKilled
  | kFrozen
  | kFinished
  deriving DecidableEq, Repr

def kExectuableKind : Int32 := 1

def kExectuableDLLKind : Int32 := 2

def kErrorProcessFault : Int32 := 39

structure UserProcessHeapList where
  memoryEntry : VoidPtr
  memoryEntrySize : UInt64
  memoryEntryPad : UInt64
  memoryPrev : VoidPtr
  memoryNext : VoidPtr
  deriving DecidableEq, Repr

structure UserProcessImage where
  fCode : VoidPtr
  fBlob : VoidPtr
  deriving DecidableEq, Repr

/-- A process object.  The pointer to the team is not initialised before `Spawn` sets it. -/
structure UserProcess where
  stackFrame : VoidPtr
  status : ProcessStatusKind
  stackReserve : VoidPtr
  image : UserProcessImage
  pefDLLDelegate : VoidPtr
  processMemoryHeap : VoidPtr
  hasParentTeam : Bool
  vmRegister : VoidPtr
  pTime : UInt64
  processId : Int
  kind : Int32
  fLastExitCode : UInt32
  deriving DecidableEq, Repr

inductive HeapCallKind where
  | allocate
  | release
  | freeBitmap
  deriving DecidableEq, Repr

/-- What a call of the heap is about: a memory entry, a list node, or something else. -/
inductive HeapSubject where
  | entry
  | node
  | other
  deriving DecidableEq, Repr

structure HeapCall where
  kind : HeapCallKind
  subject : HeapSubject
  ptr : VoidPtr
  cr3 : VoidPtr
  deriving DecidableEq, Repr

/-- The slots of a team and the number of processes in it. -/
structure UserProcessTeam where
  mProcessList : Nat → VoidPtr
  mProcessCount : Int

structure Kernel where
  cr3 : VoidPtr
  nodes : VoidPtr → Option UserProcessHeapList
  processes : VoidPtr → Option UserProcess
  team : UserProcessTeam
  trace : List HeapCall
  kLastExitCode : UInt32

/-- What the heap answers: `mm_is_valid_heap`, `mm_delete_heap`, and `Get()` of a delegate. -/
structure HeapAnswers where
  isValid : Kernel → VoidPtr → Bool
  deleted : Kernel → VoidPtr → Int32
  traits : VoidPtr → VoidPtr

namespace Kernel

def writeCr3 (k : Kernel) (value : VoidPtr) : Kernel := { k with cr3 := value }

def called (k : Kernel) (kind : HeapCallKind) (subject : HeapSubject) (ptr : VoidPtr) : Kernel :=
  { k with trace := k.trace ++ [⟨kind, subject, ptr, k.cr3⟩] }

def setNode (k : Kernel) (ptr : VoidPtr) (node : Option UserProcessHeapList) : Kernel :=
  { k with nodes := Function.update k.nodes ptr node }

def setProcess (k : Kernel) (ptr : VoidPtr) (process : Option UserProcess) : Kernel :=
  { k with processes := Function.update k.processes ptr process }

def process (k : Kernel) (this : VoidPtr) : Outcome CFault UserProcess :=
  match k.processes this with
  | some p => .done p
  | none => .fault (if this = 0 then .nullDereference else .useAfterFree)

def node (k : Kernel) (ptr : VoidPtr) : Outcome CFault UserProcessHeapList :=
  match k.nodes ptr with
  | some n => .done n
  | none => .fault (if ptr = 0 then .nullDereference else .useAfterFree)

end Kernel

namespace UserProcess

/-! ## Memory -/

/-- The walk of `New` to the entry behind which the new one goes.  `while (!entry)` does not run
for an entry, and reads through the null pointer otherwise. -/
def newWalk (entry : VoidPtr) : Outcome CFault VoidPtr :=
  if entry = 0 then .fault .nullDereference else .done entry

/-- `New`, where the heap answers `ptr` for the memory and `node` for the list node. -/
def new (k : Kernel) (this : VoidPtr) (sz padAmount : UInt64) (ptr node : VoidPtr) :
    Outcome CFault (ErrorOr × Kernel) := do
  let p ← k.process this
  let vmRegister := k.cr3
  let k := k.writeCr3 p.vmRegister
  let k := k.called .allocate .entry ptr
  let k := k.writeCr3 vmRegister
  if p.processMemoryHeap = 0 then
    let k := k.called .allocate .node node
    if node = 0 then .fault .nullDereference
    else
      let k := k.setProcess this (some { p with processMemoryHeap := node })
      return (.ofValue ptr, k.setNode node (some ⟨ptr, sz, padAmount, 0, 0⟩))
  else
    let entry ← newWalk p.processMemoryHeap
    let e ← k.node entry
    let k := k.called .allocate .node node
    if node = 0 then .fault .nullDereference
    else
      let k := k.setNode entry (some { e with memoryNext := node })
      return (.ofNull, k.setNode node (some ⟨ptr, 0, 0, entry, 0⟩))

/-- One pass of the loop of `Delete`. -/
def deleteBody (answers : HeapAnswers) (k : Kernel) (vmRegister value : VoidPtr) (entry : VoidPtr) :
    Outcome CFault (VoidPtr ⊕ (Bool × Kernel)) :=
  if entry = 0 then .done (.inr (false, k))
  else do
    let e ← k.node entry
    if e.memoryEntry = value then
      let pd := k.cr3
      let k := k.writeCr3 vmRegister
      let ret := answers.deleted k e.memoryEntry
      let k := k.called .release .entry e.memoryEntry
      return .inr (decide (ret ≠ 0), k.writeCr3 pd)
    else return .inl e.memoryNext

def delete (answers : HeapAnswers) (fuel : Nat) (k : Kernel) (this : VoidPtr) (ptr : ErrorOr)
    (sz : UInt64) : Outcome CFault (Bool × Kernel) := do
  match ptr.ref with
  | none => return (false, k)
  | some value =>
    if sz = 0 then return (false, k)
    else
      let p ← k.process this
      whileLoop (deleteBody answers k p.vmRegister value) fuel p.processMemoryHeap

/-! ## The end of a process -/

/-- One pass of the loop of `Exit` over the memory list. -/
def exitBody (pd : VoidPtr) (s : Kernel × VoidPtr) :
    Outcome CFault ((Kernel × VoidPtr) ⊕ Kernel) :=
  let (k, list) := s
  if list = 0 then .done (.inr k)
  else do
    let e ← k.node list
    let k := if e.memoryEntry ≠ 0 then k.called .release .entry e.memoryEntry else k
    let k := k.writeCr3 pd
    let next := e.memoryNext
    let k := (k.called .release .node list).setNode list none
    return .inl (k, next)

def releaseValid (answers : HeapAnswers) (k : Kernel) (ptr : VoidPtr) : Kernel :=
  if ptr ≠ 0 ∧ answers.isValid k ptr = true then k.called .release .other ptr else k

/-- `delete` of a pointer that may be null. -/
def operatorDelete (k : Kernel) (ptr : VoidPtr) : Kernel :=
  if ptr = 0 then k else k.called .release .other ptr

/-- `rtl_fini_dll` for a process that is not running.  The null delegate is reported and then
used all the same. -/
def finiDll (answers : HeapAnswers) (k : Kernel) (delegate : VoidPtr) : Outcome CFault Kernel :=
  if delegate = 0 then .fault .nullDereference
  else .done (operatorDelete (operatorDelete k (answers.traits delegate)) delegate)

/-- What `Exit` releases once the memory list is gone. -/
def releaseRest (answers : HeapAnswers) (k : Kernel) (p : UserProcess) : Outcome CFault Kernel := do
  let k := k.called .freeBitmap .other p.vmRegister
  let k := releaseValid answers k p.image.fCode
  let k := releaseValid answers k p.image.fBlob
  let k := releaseValid answers k p.stackFrame
  let k ← if p.kind = kExectuableDLLKind then finiDll answers k p.pefDLLDelegate else .done k
  return operatorDelete k p.stackReserve

/-- The team loses the process, and the object deletes itself, with the fields it has cleared. -/
def leaveTeam (k : Kernel) (this : VoidPtr) (p : UserProcess) : Outcome CFault Kernel :=
  if p.hasParentTeam = false then .fault .uninitialisedPointer
  else
    let team := { k.team with mProcessCount := k.team.mProcessCount - 1 }
    .done ((operatorDelete { k with team := team } this).setProcess this none)

/-- Up to its loop `Exit` notes the exit code and switches to the address space of the process. -/
def beginExit (k : Kernel) (this : VoidPtr) (p : UserProcess) (exitCode : Int32) : Kernel :=
  let status := if 0 < exitCode then .kKilled else .kFrozen
  let k := k.setProcess this
    (some { p with status := status, fLastExitCode := exitCode.toUInt32 })
  { k with cr3 := p.vmRegister, kLastExitCode := exitCode.toUInt32 }

def exit (answers : HeapAnswers) (fuel : Nat) (k : Kernel) (this : VoidPtr) (exitCode : Int32) :
    Outcome CFault Kernel := do
  let p ← k.process this
  let pd := k.cr3
  let k ← whileLoop (exitBody pd) fuel (beginExit k this p exitCode, p.processMemoryHeap)
  let k ← releaseRest answers k p
  leaveTeam k this p

def crash (answers : HeapAnswers) (fuel : Nat) (k : Kernel) (this : VoidPtr) :
    Outcome CFault Kernel := do
  let p ← k.process this
  if p.status ≠ .kRunning then return k
  else exit answers fuel k this kErrorProcessFault

end UserProcess

end Zka.KernelKit
