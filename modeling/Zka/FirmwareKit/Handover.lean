import Zka.Framework.Store

/-!
# The handover protocol

The stub of an image that asks for the handover, the header that the boot loader
passes to the kernel, and the tests on both sides.
-/

namespace Zka.FirmwareKit

def kHandoverMagic : UInt64 := 0xBADCC

def kHandoverVersion : UInt64 := 0x0117

def kTypeKernel : UInt32 := 100

def kArchAMD64 : UInt32 := 122

/-- `HANDOVER_INFORMATION_STUB`, less its padding. -/
structure HandoverInformationStub where
  handoverMagic : UInt64
  handoverType : UInt32
  handoverArch : UInt32

def handoverStub (m : Store) (p : UInt64) : HandoverInformationStub where
  handoverMagic := m.get Layout.u64 p.toNat
  handoverType := m.get Layout.u32 (p + 8).toNat
  handoverArch := m.get Layout.u32 (p + 16).toNat

/-- The boot loader stops at the stub; what it draws depends on the architecture, too. -/
def HandoverInformationStub.stops (stub : HandoverInformationStub) : Bool :=
  stub.handoverMagic != kHandoverMagic && stub.handoverType != kTypeKernel

/-- The fields of `BootInfoHeader` that `hal_init_platform` tests. -/
structure BootInfoHeader where
  fMagic : UInt64
  fVersion : UInt64

/-- `hal_init_platform` returns after its test of the header. -/
def BootInfoHeader.refused (handoverHdr : BootInfoHeader) : Bool :=
  handoverHdr.fMagic != kHandoverMagic && handoverHdr.fVersion != kHandoverVersion

/-! ## What the tests let through -/

/-- A stub of a kernel for the running architecture. -/
def HandoverInformationStub.Valid (stub : HandoverInformationStub) : Prop :=
  stub.handoverMagic = kHandoverMagic ∧ stub.handoverType = kTypeKernel ∧
    stub.handoverArch = kArchAMD64

instance (stub : HandoverInformationStub) : Decidable stub.Valid :=
  inferInstanceAs (Decidable (_ ∧ _))

def BootInfoHeader.Valid (handoverHdr : BootInfoHeader) : Prop :=
  handoverHdr.fMagic = kHandoverMagic ∧ handoverHdr.fVersion = kHandoverVersion

theorem HandoverInformationStub.stops_iff (stub : HandoverInformationStub) :
    stub.stops = true ↔
      stub.handoverMagic ≠ kHandoverMagic ∧ stub.handoverType ≠ kTypeKernel := by
  simp [stops]

/-- A stub is let through unless both its magic and its type are wrong. -/
theorem HandoverInformationStub.checked_iff (stub : HandoverInformationStub) :
    (stub.stops = false → stub.Valid) ↔
      (stub.handoverMagic ≠ kHandoverMagic ∧ stub.handoverType ≠ kTypeKernel) ∨ stub.Valid := by
  rw [← stops_iff, ← Bool.not_eq_true, ← or_iff_not_imp_left]

theorem BootInfoHeader.refused_iff (handoverHdr : BootInfoHeader) :
    handoverHdr.refused = true ↔
      handoverHdr.fMagic ≠ kHandoverMagic ∧ handoverHdr.fVersion ≠ kHandoverVersion := by
  simp [refused]

theorem BootInfoHeader.checked_iff (handoverHdr : BootInfoHeader) :
    (handoverHdr.refused = false → handoverHdr.Valid) ↔
      (handoverHdr.fMagic ≠ kHandoverMagic ∧ handoverHdr.fVersion ≠ kHandoverVersion) ∨
        handoverHdr.Valid := by
  rw [← refused_iff, ← Bool.not_eq_true, ← or_iff_not_imp_left]

end Zka.FirmwareKit
