import Zka.Framework.Store

/-!
# Portable executables in memory

The headers as the loaders read them: a pointer, and the place of a field behind
it.  Only the fields that decide something are here.
-/

namespace Zka.KernelKit

def kMagMz0 : UInt8 := 77

def kMagMz1 : UInt8 := 90

def kPeSignature : UInt32 := 0x00004550

def kPeMachineAMD64 : UInt16 := 0x8664

section Fields

variable (m : Store) (p : UInt64)

/-! ## `_DosHeader` -/

def eMagic (i : UInt64) : UInt8 := m (p + i).toNat

/-- The structure counts in words of four bytes, which places `eLfanew` at 120. -/
def eLfanewOffset : UInt64 := 120

/-! ## `LDR_EXEC_HEADER` -/

def mSignature : UInt32 := m.get Layout.u32 p.toNat

def mMachine : UInt16 := m.get Layout.u16 (p + 4).toNat

def mNumberOfSections : UInt16 := m.get Layout.u16 (p + 6).toNat

def mSizeOfOptionalHeader : UInt16 := m.get Layout.u16 (p + 20).toNat

def mCharacteristicsOffset : UInt64 := 22

/-! ## `LDR_OPTIONAL_HEADER` -/

def mAddressOfEntryPoint : UInt32 := m.get Layout.u32 (p + 16).toNat

def mBaseOfData : UInt32 := m.get Layout.u32 (p + 24).toNat

def mImageBase : UInt32 := m.get Layout.u32 (p + 28).toNat

def mSizeOfImage : UInt32 := m.get Layout.u32 (p + 56).toNat

def mSubsystem : UInt16 := m.get Layout.u16 (p + 68).toNat

/-! ## `LDR_SECTION_HEADER` -/

/-- `sizeof(LDR_SECTION_HEADER)`. -/
def sizeofSectionHeader : UInt64 := 40

structure SectionHeader where
  mName : List UInt8
  mVirtualAddress : UInt32
  mSizeOfRawData : UInt32
  mPointerToRawData : UInt32

def sectionHeader : SectionHeader where
  mName := List.ofFn (m.read p.toNat 8)
  mVirtualAddress := m.get Layout.u32 (p + 12).toNat
  mSizeOfRawData := m.get Layout.u32 (p + 16).toNat
  mPointerToRawData := m.get Layout.u32 (p + 20).toNat

end Fields

end Zka.KernelKit
