import Zka.KernelKit.PE
import Zka.NewKit.Memory

/-!
# Finding the headers

`ldr_find_exec_header` and `ldr_find_opt_exec_header`.  Both count from the end of
`_DosHeader`; the offset that the file gives at 0x3C is not read.
-/

namespace Zka.CFKit

open KernelKit NewKit

def ldrFindExecHeader (m : Store) (ptrDos : UInt64) : UInt64 :=
  if ptrDos = 0 then 0
  else if eMagic m ptrDos 0 ≠ kMagMz0 then 0
  else if eMagic m ptrDos 1 ≠ kMagMz1 then 0
  else ptrDos + eLfanewOffset + 8

def ldrFindOptExecHeader (m : Store) (ptrDos : UInt64) : UInt64 :=
  if ptrDos = 0 then 0
  else
    let exec := ldrFindExecHeader m ptrDos
    if exec = 0 then 0 else exec + mCharacteristicsOffset + 2

/-! ## What the file says -/

/-- `sizeof(LDR_EXEC_HEADER)`. -/
def sizeofExecHeader : UInt64 := 24

def HasDosMagic (m : Store) (blob : UInt64) : Prop :=
  eMagic m blob 0 = kMagMz0 ∧ eMagic m blob 1 = kMagMz1

/-- The offset of the executable header in the format, at 0x3C. -/
def headerOffset (m : Store) (blob : UInt64) : UInt32 := m.get Layout.u32 (blob + 0x3C).toNat

/-- A blob of `size` bytes whose offset field leads to a signature inside it. -/
structure PointsToSignature (m : Store) (blob : UInt64) (size : Nat) : Prop where
  notNull : blob ≠ 0
  inSpace : InSpace blob size
  dos : HasDosMagic m blob
  inside : (headerOffset m blob).toNat + 4 ≤ size
  signature : mSignature m (blob + (headerOffset m blob).toUInt64) = kPeSignature

/-- The headers are found where the file has them, and none in a blob without the magic. -/
def HeadersFound (m : Store) (blob : UInt64) (size : Nat) : Prop :=
  (PointsToSignature m blob size →
    ldrFindExecHeader m blob = blob + (headerOffset m blob).toUInt64 ∧
      ldrFindOptExecHeader m blob =
        blob + (headerOffset m blob).toUInt64 + sizeofExecHeader) ∧
  (¬ HasDosMagic m blob → ldrFindExecHeader m blob = 0 ∧ ldrFindOptExecHeader m blob = 0)

variable {m : Store} {blob : UInt64} {size : Nat}

theorem ldrFindExecHeader_dos (h0 : blob ≠ 0) (h : HasDosMagic m blob) :
    ldrFindExecHeader m blob = blob + 128 := by
  rw [ldrFindExecHeader, if_neg h0, if_neg (not_not.mpr h.1), if_neg (not_not.mpr h.2),
    UInt64.add_assoc]
  rfl

theorem ldrFind_noMagic (h : ¬ HasDosMagic m blob) :
    ldrFindExecHeader m blob = 0 ∧ ldrFindOptExecHeader m blob = 0 := by
  have hexec : ldrFindExecHeader m blob = 0 := by
    unfold ldrFindExecHeader
    split
    · rfl
    · split
      · rfl
      · split
        · rfl
        next h1 h2 => exact absurd ⟨not_not.mp h1, not_not.mp h2⟩ h
  refine ⟨hexec, ?_⟩
  simp [ldrFindOptExecHeader, hexec]

/-- The headers are found exactly in the files whose header stands behind 128 bytes. -/
theorem headersFound_iff (m : Store) (blob : UInt64) (size : Nat) :
    HeadersFound m blob size ↔ (PointsToSignature m blob size → headerOffset m blob = 128) := by
  constructor
  · intro h hp
    have hexec := (h.1 hp).1
    rw [ldrFindExecHeader_dos hp.notNull hp.dos, UInt64.add_right_inj] at hexec
    apply UInt32.toNat_inj.mp
    rw [← UInt32.toNat_toUInt64, ← hexec]
    rfl
  · intro h
    refine ⟨fun hp => ?_, ldrFind_noMagic⟩
    have hoff := h hp
    have hexec := ldrFindExecHeader_dos hp.notNull hp.dos
    have hne : blob + 128 ≠ 0 := by
      intro h0
      have hin := hp.inside
      have hspace := hp.inSpace
      have hnat := congrArg UInt64.toNat h0
      have h128 : (128 : UInt64).toNat = 128 := rfl
      rw [UInt64.toNat_add, h128, UInt64.toNat_zero] at hnat
      rw [hoff] at hin
      have h128' : (128 : UInt32).toNat = 128 := rfl
      unfold InSpace at hspace
      omega
    rw [hoff]
    refine ⟨hexec, ?_⟩
    rw [ldrFindOptExecHeader, if_neg hp.notNull, hexec]
    dsimp only
    rw [if_neg hne, UInt64.add_assoc]
    rfl

/-- A file whose header stands behind a stub of 64 bytes. -/
def shortStub : Store := fun x =>
  match x with
  | 0x1000 => 77
  | 0x1001 => 90
  | 0x103C => 0x40
  | 0x1040 => 0x50
  | 0x1041 => 0x45
  | _ => 0

theorem headerOffset_shortStub : headerOffset shortStub 0x1000 = 0x40 :=
  Store.get_u32_iff.mpr (by decide)

theorem headersFound_shortStub : ¬ HeadersFound shortStub 0x1000 0x100 := by
  intro h
  have hp : PointsToSignature shortStub 0x1000 0x100 :=
    { notNull := by decide
      inSpace := by decide
      dos := ⟨by decide, by decide⟩
      inside := by
        rw [headerOffset_shortStub]
        decide
      signature := by
        rw [headerOffset_shortStub]
        exact Store.get_u32_iff.mpr (by decide) }
  have hexec := (h.1 hp).1
  rw [ldrFindExecHeader_dos hp.notNull hp.dos, headerOffset_shortStub] at hexec
  exact absurd hexec (by decide)

end Zka.CFKit
