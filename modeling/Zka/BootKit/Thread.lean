import Zka.BootKit.Support
import Zka.CFKit.Utils
import Zka.FirmwareKit.Handover

/-!
# `BThread`

The constructor of the boot loader's thread, which loads an image: it asks the
firmware for pages at the address the image names, clears and copies each section,
and looks into two of them.  Beside the memory it keeps which bytes were read and
written.
-/

namespace Zka.BootKit

open KernelKit NewKit CFKit FirmwareKit Outcome

def kZKASubsystem : UInt16 := 17

def cPageSize : UInt32 := 512

/-- `".text"`. -/
def sectionForCode : List UInt8 := [46, 116, 101, 120, 116]

/-- `".ldr"`. -/
def sectionForNewLdr : List UInt8 := [46, 108, 100, 114]

inductive SectionBranch where
  | code
  | newLdr
  | other
  deriving DecidableEq, Repr

/-- The branch that a section takes by its name. -/
def sectionBranch (mName : List UInt8) : SectionBranch :=
  if strcmp (some sectionForCode) mName = 0 then .code
  else if strcmp (some sectionForNewLdr) mName = 0 then .newLdr
  else .other

/-! ## The memory and what was touched of it -/

structure Loader where
  memory : Store
  fStartAddress : UInt64
  reads : List Extent
  writes : List Extent

namespace Loader

def reading (s : Loader) (es : List Extent) : Loader := { s with reads := s.reads ++ es }

def setMem (s : Loader) (dst : UInt64) (byte : Int32) (len : SizeT) : Outcome CFault Loader :=
  memset s.memory dst byte len >>= fun r =>
  .done { s with memory := r.2, writes := s.writes ++ [⟨dst.toNat, 4 * len.toNat⟩] }

def copyMem (s : Loader) (dst src : UInt64) (len : SizeT) : Outcome CFault Loader :=
  memcpy s.memory dst src len >>= fun r =>
  .done { s with
    memory := r.2
    reads := s.reads ++ [⟨src.toNat, 4 * len.toNat⟩]
    writes := s.writes ++ [⟨dst.toNat, 4 * len.toNat⟩] }

end Loader

/-! ## The sections -/

/-- What the loop over the sections knows. -/
structure Image where
  fBlob : UInt64
  optHeader : UInt64
  loadStartAddress : UInt64

/-- The constructor ends, or the machine is stopped. -/
inductive BThreadEnd where
  | constructed (s : Loader)
  | stopped (s : Loader)

def BThreadEnd.loader : BThreadEnd → Loader
  | constructed s => s
  | stopped s => s

/-- The name, the address and the sizes of a section header; the name is compared up to the
first difference. -/
def sectionReads (sect : UInt64) : List Extent :=
  [⟨sect.toNat, 8⟩, ⟨(sect + 12).toNat, 4⟩, ⟨(sect + 16).toNat, 4⟩, ⟨(sect + 20).toNat, 4⟩]

/-- The fields of the stub that the two nested tests look at. -/
def stubReads (stub : HandoverInformationStub) (p : UInt64) : List Extent :=
  let magic : Extent := ⟨p.toNat, 8⟩
  let type : Extent := ⟨(p + 8).toNat, 4⟩
  let arch : Extent := ⟨(p + 16).toNat, 4⟩
  if stub.handoverMagic = kHandoverMagic then [magic]
  else if stub.handoverType = kTypeKernel then [magic, type]
  else [magic, type, arch]

def copySection (image : Image) (s : Loader) (h : SectionHeader) :
    Outcome CFault (Loader ⊕ BThreadEnd) :=
  s.copyMem (image.loadStartAddress + h.mVirtualAddress.toUInt64)
      (image.fBlob + h.mPointerToRawData.toUInt64) h.mSizeOfRawData.toUInt64 >>= fun s =>
  .done (.inl s)

/-- What is done with a section once its place was cleared. -/
def finishSection (image : Image) (s : Loader) (h : SectionHeader) :
    Outcome CFault (Loader ⊕ BThreadEnd) :=
  match sectionBranch h.mName with
  | .code =>
    let entry := mAddressOfEntryPoint s.memory image.optHeader
    let s := s.reading [⟨(image.optHeader + 16).toNat, 4⟩]
    copySection image { s with fStartAddress := image.loadStartAddress + entry.toUInt64 } h
  | .newLdr =>
    let p := image.fBlob + h.mPointerToRawData.toUInt64
    let stub := handoverStub s.memory p
    let s := s.reading (stubReads stub p)
    if stub.stops then .done (.inr (.stopped s)) else copySection image s h
  | .other => copySection image s h

/-- One pass of the loop over the sections; the header is read again behind the clearing. -/
def loadSection (image : Image) (s : Loader) (sect : UInt64) :
    Outcome CFault (Loader ⊕ BThreadEnd) :=
  let h := sectionHeader s.memory sect
  s.setMem (image.loadStartAddress + h.mVirtualAddress.toUInt64) 0 h.mSizeOfRawData.toUInt64 >>=
    fun s => finishSection image (s.reading (sectionReads sect)) (sectionHeader s.memory sect)

def loadSections (image : Image) : List UInt64 → Loader → Outcome CFault BThreadEnd
  | [], s => .done (.constructed s)
  | sect :: rest, s => loadSection image s sect >>= fun
    | .inl s => loadSections image rest s
    | .inr ended => .done ended

/-! ## The constructor -/

/-- `AllocatePages` with `AllocateAddress`: what it leaves in the address, for a number of
pages. -/
abbrev AllocatePages := (memory : UInt64) → (pages : UInt64) → UInt64

/-- The fields of the two headers that are read before the sections, the version numbers that
are only printed among them. -/
def headerReads (fBlob exec opt : UInt64) : List Extent :=
  [⟨fBlob.toNat, 1⟩, ⟨(fBlob + 1).toNat, 1⟩, ⟨(exec + 4).toNat, 2⟩, ⟨exec.toNat, 4⟩,
    ⟨(opt + 68).toNat, 2⟩, ⟨(exec + 6).toNat, 2⟩, ⟨(opt + 2).toNat, 1⟩, ⟨(opt + 3).toNat, 1⟩,
    ⟨(opt + 48).toNat, 2⟩, ⟨(opt + 50).toNat, 2⟩, ⟨(opt + 28).toNat, 4⟩, ⟨(opt + 24).toNat, 4⟩,
    ⟨(opt + 56).toNat, 4⟩, ⟨(exec + 20).toNat, 2⟩]

/-- The addresses of the section headers. -/
def sectionTable (m : Store) (exec opt : UInt64) : List UInt64 :=
  let sectPtr := opt + (mSizeOfOptionalHeader m exec).toUInt64
  (List.range (mNumberOfSections m exec).toNat).map fun sectIndex =>
    sectPtr + sizeofSectionHeader * UInt64.ofNat sectIndex

/-- The tests behind the DOS magic. -/
def AcceptsHeaders (m : Store) (exec opt : UInt64) : Prop :=
  mMachine m exec = kPeMachineAMD64 ∧ mSignature m exec = kPeSignature ∧
    mSubsystem m opt = kZKASubsystem

instance (m : Store) (exec opt : UInt64) : Decidable (AcceptsHeaders m exec opt) :=
  inferInstanceAs (Decidable (_ ∧ _))

def requestedAddress (m : Store) (opt : UInt64) : UInt64 :=
  (mImageBase m opt).toUInt64 + (mBaseOfData m opt).toUInt64

def numPages (m : Store) (opt : UInt64) : UInt64 := (mSizeOfImage m opt / cPageSize).toUInt64

/-- `BThread::BThread(blob)`; nothing is loaded from a blob that is refused or of another format,
and what was read of it is not kept. -/
def bThread (allocatePages : AllocatePages) (m : Store) (fBlob : UInt64) :
    Outcome CFault BThreadEnd :=
  let start : Loader := ⟨m, 0, [], []⟩
  if fBlob = 0 then .done (.constructed start)
  else if eMagic m fBlob 0 = kMagMz0 ∧ eMagic m fBlob 1 = kMagMz1 then
    let exec := ldrFindExecHeader m fBlob
    let opt := ldrFindOptExecHeader m fBlob
    if exec = 0 ∨ opt = 0 ∨ ¬ AcceptsHeaders m exec opt then .done (.constructed start)
    else
      let loadStartAddress := allocatePages (requestedAddress m opt) (numPages m opt)
      loadSections ⟨fBlob, opt, loadStartAddress⟩ (sectionTable m exec opt)
        (start.reading (headerReads fBlob exec opt))
  else .done (.constructed start)

end Zka.BootKit
