import Zka.Framework.Frame
import Zka.HALKit.BitMap
import Zka.NewKit.Crc32
import Zka.NewKit.Memory

/-!
# The kernel heap

`mm_new_heap` and `mm_delete_heap` over the page manager.  A block begins with
the three words of the page manager, which the heap takes for as many bytes as its
own header; the header of the heap and the payload follow.  The request counts one
of the two headers.
-/

namespace Zka.KernelKit

open Outcome HALKit NewKit

/-- An address; the heap computes with its pointers. -/
abbrev UIntPtr := UInt64

def kErrorSuccess : Int32 := 0

def kErrorInternal : Int32 := 49

def kErrorHeapNotPresent : Int32 := 52

def runtimeCheckPointer : Int32 := 0

def kKernelHeapAlignSz : UInt64 := 16

/-! ## `HEAP_INFORMATION_BLOCK` -/

/-- Where a compiler puts the Boolean bit-fields: into the byte behind the 24 bits of the magic
number, or, with the rules of the Windows compilers, behind the 32 bits of its type. -/
inductive BitFieldRules where
  | shared
  | separate
  deriving DecidableEq, Repr

inductive HeapBit where
  | present
  | wr
  | user
  | page
  deriving DecidableEq, Repr

def HeapBit.mask : HeapBit → UInt8
  | present => 1
  | wr => 2
  | user => 4
  | page => 8

/-- `kKernelHeapMagic`, in the order of its bytes. -/
def kKernelHeapMagic : Bytes 3 := ![0xD5, 0xD7, 0xD4]

/-- The parts of the header; `bits` is the byte of the Boolean bit-fields. -/
inductive HeapField where
  | fMagic
  | bits
  | fCRC32
  | fFlags
  | fHeapSize
  | fHeapPtr
  | fPadding
  deriving DecidableEq, Repr

namespace HeapField

variable (abi : BitFieldRules)

def bitsAt : UInt64 :=
  match abi with
  | .shared => 3
  | .separate => 4

/-- The structure is packed. -/
def offset : HeapField → UInt64
  | fMagic => 0
  | bits => bitsAt abi
  | fCRC32 => bitsAt abi + 1
  | fFlags => bitsAt abi + 5
  | fHeapSize => bitsAt abi + 13
  | fHeapPtr => bitsAt abi + 21
  | fPadding => bitsAt abi + 29

@[reducible] def size : HeapField → Nat
  | fMagic => 3
  | bits => 1
  | fCRC32 => 4
  | fFlags | fHeapSize | fHeapPtr => 8
  | fPadding => kKernelHeapAlignSz.toNat

def place (header : UIntPtr) (field : HeapField) : Nat := (header + field.offset abi).toNat

def extent (header : UIntPtr) (field : HeapField) : Extent := ⟨field.place abi header, field.size⟩

end HeapField

def sizeofHeapInformationBlock (abi : BitFieldRules) : UInt64 :=
  HeapField.fPadding.offset abi + kKernelHeapAlignSz

section Header

variable (abi : BitFieldRules) (m : Store) (header : UIntPtr)

def field (f : HeapField) : Bytes f.size := m.read (f.place abi header) f.size

def setField (f : HeapField) (value : Bytes f.size) : Store := m.write (f.place abi header) value

def fMagic : Bytes 3 := field abi m header .fMagic

def heapBits : UInt8 := field abi m header .bits ⟨0, by decide⟩

def fBit (bit : HeapBit) : Bool := heapBits abi m header &&& bit.mask ≠ 0

def fCRC32 : UInt32 := Layout.u32.symm (field abi m header .fCRC32)

def fHeapSize : UInt64 := Layout.u64.symm (field abi m header .fHeapSize)

def fHeapPtr : UInt64 := Layout.u64.symm (field abi m header .fHeapPtr)

def setMagic (value : Bytes 3) : Store := setField abi m header .fMagic value

def setBit (bit : HeapBit) (value : Bool) : Store :=
  let byte := heapBits abi m header
  setField abi m header .bits fun _ => if value then byte ||| bit.mask else byte &&& ~~~bit.mask

def setCRC32 (value : UInt32) : Store := setField abi m header .fCRC32 (Layout.u32 value)

def setHeapSize (value : UInt64) : Store := setField abi m header .fHeapSize (Layout.u64 value)

def setHeapPtr (value : UInt64) : Store := setField abi m header .fHeapPtr (Layout.u64 value)

end Header

/-! ## Allocation -/

/-- `PageMgr::Request`: the address granted for a size, and the memory after it. -/
abbrev PageRequest := (rw user execDisable : Bool) → (sz : UInt64) → Store →
  Outcome CFault (UIntPtr × Store)

/-- The request of the page manager of a pool. -/
def pageMgrRequest (pool : Pool) (fuel : Nat) : PageRequest := fun rw user _ sz m => do
  let reply ← mmAllocBitmap pool fuel m rw user sz false
  return (reply.ptr, reply.memory)

def initHeader (abi : BitFieldRules) (m : Store) (header : UIntPtr) (szFix : UInt64)
    (wr user : Bool) : Store :=
  let m := setHeapSize abi m header szFix
  let m := setMagic abi m header kKernelHeapMagic
  let m := setCRC32 abi m header 0
  let m := setHeapPtr abi m header (header + sizeofHeapInformationBlock abi)
  let m := setBit abi m header .page false
  let m := setBit abi m header .wr wr
  let m := setBit abi m header .user user
  let m := setBit abi m header .present true
  (rtSetMemory m (header + HeapField.fPadding.offset abi) 0 kKernelHeapAlignSz).2

/-- A release build does not test the limit `kKernelHeapMaxSize`. -/
def mmNewHeap (abi : BitFieldRules) (request : PageRequest) (m : Store) (sz : UInt64)
    (wr user : Bool) : Outcome CFault (UIntPtr × Store) :=
  if sz = 0 then return (0, m)
  else do
    let szFix := sz + sizeofHeapInformationBlock abi
    let (granted, m) ← request wr user false szFix m
    let header := granted + sizeofHeapInformationBlock abi
    let m := initHeader abi m header szFix wr user
    return (fHeapPtr abi m header, m)

/-! ## Deletion -/

/-- The difference is an unsigned number, which is not below zero. -/
def mmCheckHeapAddress (heapPtr : UIntPtr) : Bool := heapPtr ≠ 0

/-- `ke_stop` does not return. -/
inductive HeapReply where
  | returned (code : Int32) (memory : Store)
  | stopped (id : Int32) (memory : Store)

/-- The check sequence of a kernel block is wrong. -/
def crcFails (abi : BitFieldRules) (m : Store) (header : UIntPtr) : Outcome CFault Bool :=
  if fCRC32 abi m header = 0 then return false
  else do
    let crc ← keCalculateCrc32 m (fHeapPtr abi m header) (fHeapSize abi m header).toUInt32
    return fCRC32 abi m header ≠ crc ∧ fBit abi m header .user = false

def clearHeader (abi : BitFieldRules) (m : Store) (header : UIntPtr) : Store :=
  let m := setHeapSize abi m header 0
  let m := setBit abi m header .present false
  let m := setHeapPtr abi m header 0
  let m := setCRC32 abi m header 0
  let m := setBit abi m header .wr false
  let m := setBit abi m header .user false
  setMagic abi m header fun _ => 0

/-- The reference to the wrapper frees nothing when it goes out of scope: the wrapper begins with a
byte zero, and the magic word of a bitmap does not. -/
def mmDeleteHeap (abi : BitFieldRules) (m : Store) (heapPtr : UIntPtr) :
    Outcome CFault HeapReply :=
  if mmCheckHeapAddress heapPtr = false then return .returned kErrorHeapNotPresent m
  else
    let header := heapPtr - sizeofHeapInformationBlock abi
    if header ≠ 0 ∧ fMagic abi m header = kKernelHeapMagic then
      if fBit abi m header .present = false then return .returned kErrorHeapNotPresent m
      else do
        if ← crcFails abi m header then return .stopped runtimeCheckPointer m
        let m := clearHeader abi m header
        let (_, m) := mmFreeBitmap m (header - sizeofHeapInformationBlock abi)
        return .returned kErrorSuccess m
    else return .returned kErrorInternal m

/-! ## The fields stand apart -/

namespace HeapField

variable (abi : BitFieldRules) (header : UIntPtr)

theorem size_pos (f : HeapField) : 0 < f.size := by cases f <;> decide

theorem offset_le (f : HeapField) : (f.offset abi).toNat + f.size ≤ 49 := by
  cases abi <;> cases f <;> decide

theorem offset_apart {f g : HeapField} (h : f ≠ g) :
    (f.offset abi).toNat + f.size ≤ (g.offset abi).toNat ∨
      (g.offset abi).toNat + g.size ≤ (f.offset abi).toNat := by
  cases abi <;> cases f <;> cases g <;> first | exact absurd rfl h | decide

theorem apart {f g : HeapField} (h : f ≠ g) :
    (f.extent abi header).Apart (g.extent abi header) := by
  have hf := offset_le abi f
  have hg := offset_le abi g
  have hheader := header.toNat_lt
  rw [Extent.apart_iff (size_pos f) (size_pos g)]
  simp only [extent, place, UInt64.toNat_add]
  have h := offset_apart abi h
  omega

end HeapField

section Fields

variable (abi : BitFieldRules) (m : Store) (header : UIntPtr)

open Store

theorem setField_only (f : HeapField) (value : Bytes f.size) :
    ChangesOnly [f.extent abi header] m (setField abi m header f value) :=
  ChangesOnly.write m _ value

@[simp] theorem field_setField_same (f : HeapField) (value : Bytes f.size) :
    field abi (setField abi m header f value) header f = value :=
  read_write_same m _ value

@[simp] theorem field_setField_ne {f g : HeapField} (h : f ≠ g) (value : Bytes g.size) :
    field abi (setField abi m header g value) header f = field abi m header f := by
  apply (setField_only abi m header g value).read
  intro e he
  rw [List.mem_singleton.mp he]
  exact HeapField.apart abi header h

/-- The words stored over the padding run past it, but not into the fields before it. -/
theorem padding_apart {f : HeapField} (h : f ≠ .fPadding) :
    ∀ e ∈ wordExtents (header + HeapField.fPadding.offset abi) 16,
      (f.extent abi header).Apart e := by
  intro e he
  obtain ⟨i, hi, rfl⟩ := List.mem_map.mp he
  have hi := List.mem_range.mp hi
  have hheader := header.toNat_lt
  have horder : (f.offset abi).toNat + f.size ≤ (HeapField.fPadding.offset abi).toNat := by
    revert h
    cases abi <;> cases f <;> decide
  have hpad := HeapField.offset_le abi .fPadding
  have hfour : (4 : UInt64).toNat = 4 := rfl
  rw [Extent.apart_iff f.size_pos (by simp)]
  simp only [HeapField.extent, HeapField.place, UInt64.toNat_add, UInt64.toNat_mul,
    UInt64.toNat_ofNat', hfour]
  omega

@[simp] theorem field_padding {f : HeapField} (h : f ≠ .fPadding) :
    field abi (rtSetMemory m (header + HeapField.fPadding.offset abi) 0 kKernelHeapAlignSz).2
      header f = field abi m header f :=
  (rtSetMemory_only m _ 0 kKernelHeapAlignSz).read (padding_apart abi header h)

@[simp] theorem fBit_padding (bit : HeapBit) :
    fBit abi (rtSetMemory m (header + HeapField.fPadding.offset abi) 0 kKernelHeapAlignSz).2
      header bit = fBit abi m header bit := by
  rw [fBit, fBit, heapBits, field_padding abi m header (by decide), heapBits]

@[simp] theorem heapBits_setBit (bit : HeapBit) (value : Bool) :
    heapBits abi (setBit abi m header bit value) header =
      if value then heapBits abi m header ||| bit.mask
      else heapBits abi m header &&& ~~~bit.mask := by
  simp [heapBits, setBit]

@[simp] theorem fBit_setBit_same (bit : HeapBit) (value : Bool) :
    fBit abi (setBit abi m header bit value) header bit = value := by
  have hset : ∀ byte : UInt8, (byte ||| bit.mask) &&& bit.mask = bit.mask := by
    intro byte
    apply UInt8.eq_of_toBitVec_eq
    ext i
    simp
    exact Or.inr
  have hclear : ∀ byte : UInt8, byte &&& ~~~bit.mask &&& bit.mask = 0 := by
    intro byte
    apply UInt8.eq_of_toBitVec_eq
    ext i
    simp
  have hmask : bit.mask ≠ 0 := by cases bit <;> decide
  cases value
  · simp [fBit, hclear]
  · simp [fBit, hset, hmask]

end Fields

/-! ## The blocks that `mm_new_heap` makes -/

section NewHeap

variable (abi : BitFieldRules) (m : Store) (header : UIntPtr) (szFix : UInt64) (wr user : Bool)

theorem fHeapPtr_initHeader :
    fHeapPtr abi (initHeader abi m header szFix wr user) header =
      header + sizeofHeapInformationBlock abi := by
  simp [initHeader, fHeapPtr, setBit, setHeapPtr]

theorem fMagic_initHeader :
    fMagic abi (initHeader abi m header szFix wr user) header = kKernelHeapMagic := by
  simp [initHeader, fMagic, setMagic, setBit, setHeapPtr, setCRC32]

theorem fCRC32_initHeader : fCRC32 abi (initHeader abi m header szFix wr user) header = 0 := by
  simp [initHeader, fCRC32, setCRC32, setBit, setHeapPtr]

theorem fPresent_initHeader :
    fBit abi (initHeader abi m header szFix wr user) header .present = true := by
  simp [initHeader]

end NewHeap

end Zka.KernelKit
