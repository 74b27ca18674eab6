import Zka.NewKit.Memory

/-!
# The name of a new process

`rtl_create_process` stores what it knows into the fields of a new object and then
clears its name with `rt_set_memory`.
-/

namespace Zka.KernelKit

open NewKit Store

/-! ## `UserProcess` in memory -/

inductive ProcessField where
  | name
  | subSystem
  | owner
  | stackFrame
  | affinity
  | status
  | stackReserve
  | imageCode
  | imageBlob
  | stackSize
  | pefDLLDelegate
  | memoryCursor
  | memoryLimit
  | signalIP
  | previousStatus
  | signalID
  | processMemoryHeap
  | processParentTeam
  | vmRegister
  | pTime
  | processId
  | kind
  | fLastExitCode
  | fLocalCode
  deriving DecidableEq, Repr

def kProcessNameLen : UInt64 := 128

namespace ProcessField

@[reducible] def size : ProcessField → Nat
  | name => kProcessNameLen.toNat
  | subSystem | affinity | status | previousStatus | kind | fLastExitCode | fLocalCode => 4
  | _ => 8

/-- Each field stands at a multiple of its size. -/
def offset : ProcessField → Nat
  | name => 0
  | subSystem => 128
  | owner => 136
  | stackFrame => 144
  | affinity => 152
  | status => 156
  | stackReserve => 160
  | imageCode => 168
  | imageBlob => 176
  | stackSize => 184
  | pefDLLDelegate => 192
  | memoryCursor => 200
  | memoryLimit => 208
  | signalIP => 216
  | previousStatus => 224
  | signalID => 232
  | processMemoryHeap => 240
  | processParentTeam => 248
  | vmRegister => 256
  | pTime => 264
  | processId => 272
  | kind => 280
  | fLastExitCode => 284
  | fLocalCode => 288

theorem offset_apart {f g : ProcessField} (h : f ≠ g) :
    f.offset + f.size ≤ g.offset ∨ g.offset + g.size ≤ f.offset := by
  cases f <;> cases g <;> first | exact absurd rfl h | decide

end ProcessField

/-- `sizeof(UserProcess)`. -/
def sizeofUserProcess : Nat := 296

section Fields

variable (m : Store) (proc : UInt64)

def processField (f : ProcessField) : Bytes f.size := m.read (proc.toNat + f.offset) f.size

def setProcessField (f : ProcessField) (value : Bytes f.size) : Store :=
  m.write (proc.toNat + f.offset) value

def setWord (f : ProcessField) (h : f.size = 8) (value : UInt64) : Store :=
  setProcessField m proc f (h ▸ Layout.u64 value)

def setInt (f : ProcessField) (h : f.size = 4) (value : Int32) : Store :=
  setProcessField m proc f (h ▸ Layout.i32 value)

end Fields

/-- `"Process (Unnamed)"`. -/
def kUnnamedProcess : List UInt8 :=
  [80, 114, 111, 99, 101, 115, 115, 32, 40, 85, 110, 110, 97, 109, 101, 100, 41]

/-- The object that `new UserProcess()` makes at `proc`: a field without an initialiser keeps
what stood there. -/
def newUserProcess (m : Store) (proc : UInt64) : Store :=
  let m := setProcessField m proc .name fun i => kUnnamedProcess.getD i 0
  let m := setInt m proc .subSystem rfl 255
  let m := setWord m proc .owner rfl 0
  let m := setWord m proc .stackFrame rfl 0
  let m := setInt m proc .affinity rfl 1000
  let m := setInt m proc .status rfl 5
  let m := setWord m proc .stackReserve rfl 0
  let m := setWord m proc .stackSize rfl (8 * 1024 * 1024)
  let m := setWord m proc .pefDLLDelegate rfl 0
  let m := setWord m proc .memoryCursor rfl 0
  let m := setWord m proc .memoryLimit rfl (128 * 1024 * 1024 * 1024)
  let m := setWord m proc .processMemoryHeap rfl 0
  let m := setWord m proc .vmRegister rfl 0
  let m := setWord m proc .pTime rfl 0
  let m := setWord m proc .processId rfl (-1)
  let m := setInt m proc .kind rfl 1
  let m := setInt m proc .fLastExitCode rfl 0
  setInt m proc .fLocalCode rfl 0

/-- What `rtl_create_process` knows of a process when it makes the object. -/
structure NewProcess where
  procKind : Int32
  code : UInt64
  blob : UInt64
  stackSize : UInt64
  heapSize : UInt64

/-- The stores of `rtl_create_process` up to the clearing of the name. -/
def createdProcess (m : Store) (proc : UInt64) (p : NewProcess) : Store :=
  let m := newUserProcess m proc
  let m := setInt m proc .kind rfl p.procKind
  let m := setWord m proc .imageCode rfl p.code
  let m := setWord m proc .imageBlob rfl p.blob
  let m := setWord m proc .stackSize rfl p.stackSize
  let m := setWord m proc .memoryLimit rfl p.heapSize
  setWord m proc .pTime rfl 0

def clearName (m : Store) (proc : UInt64) : Store :=
  (rtSetMemory m (proc + UInt64.ofNat ProcessField.name.offset) 0 kProcessNameLen).2

/-! ## What clearing the name clears -/

theorem processField_setProcessField_same (m : Store) (proc : UInt64) (f : ProcessField)
    (value : Bytes f.size) : processField (setProcessField m proc f value) proc f = value :=
  read_write_same m _ value

theorem processField_setProcessField_ne (m : Store) (proc : UInt64) {f g : ProcessField}
    (h : f ≠ g) (value : Bytes g.size) :
    processField (setProcessField m proc g value) proc f = processField m proc f := by
  have hap := ProcessField.offset_apart h
  exact read_write_apart m value (by omega)

theorem createdProcess_subSystem (m : Store) (proc : UInt64) (p : NewProcess) :
    processField (createdProcess m proc p) proc .subSystem = Layout.i32 255 := by
  have hne : ∀ {m : Store} {g : ProcessField} {value : Bytes g.size}, ProcessField.subSystem ≠ g →
      processField (setProcessField m proc g value) proc .subSystem =
        processField m proc .subSystem :=
    fun h => processField_setProcessField_ne _ proc h _
  simp only [createdProcess, newUserProcess, setWord, setInt]
  iterate 22 rw [hne (by decide)]
  exact processField_setProcessField_same _ proc .subSystem _

/-- Every field but the name is what it was. -/
def OnlyNameChanged (before after : Store) (proc : UInt64) : Prop :=
  ∀ f, f ≠ ProcessField.name → processField after proc f = processField before proc f

/-- The words that clear the name go on over the field behind it. -/
theorem clearName_subSystem (m : Store) {proc : UInt64} (hproc : proc ≠ 0)
    (h : InSpace proc sizeofUserProcess) :
    processField (clearName m proc) proc .subSystem = fun _ => 0 := by
  unfold InSpace sizeofUserProcess at h
  have hname : proc + UInt64.ofNat ProcessField.name.offset = proc := UInt64.add_zero proc
  have hword : (proc + 4 * UInt64.ofNat 32).toNat = proc.toNat + 128 := by
    have h128 : (4 * UInt64.ofNat 32 : UInt64).toNat = 128 := rfl
    rw [UInt64.toNat_add, h128]
    omega
  have hlen : ¬ (proc = 0 ∨ kProcessNameLen < 1) := by
    intro h
    rcases h with h0 | hlt
    · exact hproc h0
    · exact absurd hlt (by decide)
  funext c
  have hbyte := @setWords_inside m proc 0 _ _ (show 32 < kProcessNameLen.toNat by decide) c
  rw [hword] at hbyte
  rw [clearName, hname, rtSetMemory, if_neg hlen]
  rw [Layout.u32_zero] at hbyte
  generalize setWords m proc 0 kProcessNameLen.toNat = after at hbyte ⊢
  exact hbyte

theorem clearName_not_only (m : Store) {proc : UInt64} (hproc : proc ≠ 0)
    (h : InSpace proc sizeofUserProcess) (p : NewProcess) :
    ¬ OnlyNameChanged (createdProcess m proc p) (clearName (createdProcess m proc p) proc)
      proc := by
  intro honly
  have hsub := honly .subSystem (by decide)
  rw [clearName_subSystem _ hproc h, createdProcess_subSystem] at hsub
  have hlow := Layout.u32_low (255 : Int32).toUInt32
  rw [← Layout.i32_eq, ← hsub] at hlow
  exact absurd hlow (by decide)

/-! ## The primitives together -/

/-- What `rt_set_memory`, `memset`, `memcpy` and the clearing of a name do. -/
theorem kernelMemory_iff (m : Store) {p d s proc : UInt64} {n : UInt64} (value : UInt32)
    (c : Int32) (hp : p ≠ 0) (hpn : InSpace p n.toNat) (hdn : InSpace d n.toNat)
    (hsn : InSpace s n.toNat)
    (hap : s.toNat + n.toNat ≤ d.toNat ∨ d.toNat + n.toNat ≤ s.toNat)
    (hproc : proc ≠ 0) (hobject : InSpace proc sizeofUserProcess) (made : NewProcess) :
    ((rtSetMemory m p value n).2 = m.fill p.toNat n.toNat value.toUInt8 ↔
        WordsFill m p value n.toNat) ∧
      (memset m p c n = (p, m.fill p.toNat n.toNat c.toUInt32.toUInt8) ↔
        n ≠ 0 ∧ 4 * n = 0 ∧ WordsFill m p c.toUInt32 n.toNat) ∧
      memcpy m d s n = .done (d, m.copy d.toNat s.toNat n.toNat) ∧
      ¬ OnlyNameChanged (createdProcess m proc made)
        (clearName (createdProcess m proc made) proc) proc := by
  refine ⟨rtSetMemory_exact_iff hp hpn, ?_, memcpy_exact hsn hdn hap,
    clearName_not_only m hproc hobject made⟩
  rw [← rtSetMemory_exact_iff hp hpn, Prod.ext_iff]
  change (memset m p c n).1 = p ∧ _ ↔ _
  rw [memset_returns_iff hp, and_assoc]
  rfl

theorem kernelMemory_zeroed :
    (rtSetMemory (fun _ => 0) 0x1000 0 4).2 = fill (fun _ => 0) 0x1000 4 0 ∧
      memset (fun _ => 0) 0x1000 0 4 ≠ (0x1000, fill (fun _ => 0) 0x1000 4 0) ∧
      memcpy (fun _ => 0) 0x2000 0x3000 4 = .done (0x2000, copy (fun _ => 0) 0x2000 0x3000 4) ∧
      ¬ OnlyNameChanged (createdProcess (fun _ => 0) 0x4000 ⟨1, 0, 0, 0, 0⟩)
        (clearName (createdProcess (fun _ => 0) 0x4000 ⟨1, 0, 0, 0, 0⟩) 0x4000) 0x4000 := by
  obtain ⟨hset, hmemset, hcopy, hname⟩ := @kernelMemory_iff (fun _ => 0) 0x1000 0x2000 0x3000
    0x4000 4 0 0 (by decide) (by decide) (by decide)
    (by decide) (by decide) (by decide) (by decide) ⟨1, 0, 0, 0, 0⟩
  refine ⟨hset.mpr wordsFill_zero, ?_, hcopy, hname⟩
  intro h
  exact absurd (hmemset.mp h).2.1 (by decide)

/-- One byte is asked for, and the one behind it changes too. -/
theorem rtSetMemory_overruns :
    (rtSetMemory (fun _ => 1) 0x1000 0 1).2 ≠ fill (fun _ => 1) 0x1000 1 0 :=
  setWords_overruns

end Zka.KernelKit
