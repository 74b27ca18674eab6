import Zka.FSKit.Format
import Zka.HALKit.ATA

/-!
# The size of the disk

The boot loader and the kernel each keep the words of an identification, and
compute the number of sectors from words 60 and 61.  The boot loader keeps whole
words, the kernel keeps characters.
-/

namespace Zka.BootKit

open FSKit HALKit

/-- `boot_ata_init`; nothing is read again once a drive was detected. -/
def bootAtaInit (kATADetected : Bool) (dev : AtaDevice) (bus outBus : UInt16) (outMaster : UInt8)
    (kATAData : Nat → UInt16) : AtaInit UInt16 :=
  if kATADetected then ⟨outBus, outMaster, dev, kATAData⟩ else ataInit id dev bus kATAData

def getSectorsCount (kATAData : Nat → UInt16) : UInt64 :=
  ((kATAData 61).toUInt32.toInt32 <<< 16 ||| (kATAData 60).toUInt32.toInt32).toInt64.toUInt64

def getDiskSize (kATAData : Nat → UInt16) : UInt64 := getSectorsCount kATAData * kATASectorSize

/-! ## Counts in two words -/

/-- A count below 2 ^ 31 is not changed by its way through a signed number. -/
theorem joined_toNat (hi lo : BitVec 32) (hhi : hi.toNat < 32768) (hlo : lo.toNat < 65536) :
    ((hi <<< 16 ||| lo).signExtend 64).toNat = 65536 * hi.toNat + lo.toNat := by
  have hshift : (hi <<< 16).toNat = hi.toNat <<< 16 := by
    rw [BitVec.toNat_shiftLeft, Nat.mod_eq_of_lt]
    rw [Nat.shiftLeft_eq]
    omega
  have hor : (hi <<< 16 ||| lo).toNat = 65536 * hi.toNat + lo.toNat := by
    rw [BitVec.toNat_or, hshift, ← Nat.shiftLeft_add_eq_or_of_lt hlo, Nat.shiftLeft_eq,
      Nat.mul_comm]
  have hmsb : (hi <<< 16 ||| lo).msb = false := by
    rw [BitVec.msb_eq_false_iff_two_mul_lt, hor]
    omega
  rw [BitVec.signExtend_eq_setWidth_of_msb_false hmsb, BitVec.toNat_setWidth, hor,
    Nat.mod_eq_of_lt (by omega)]

theorem getSectorsCount_toNat (kATAData : Nat → UInt16) (h : kATAData 61 < 0x8000) :
    (getSectorsCount kATAData).toNat = 65536 * (kATAData 61).toNat + (kATAData 60).toNat := by
  have hhi : (kATAData 61).toUInt32.toBitVec.toNat = (kATAData 61).toNat := by simp
  have hlo : (kATAData 60).toUInt32.toBitVec.toNat = (kATAData 60).toNat := by simp
  have hword := (kATAData 60).toNat_lt
  have hjoined := joined_toNat (kATAData 61).toUInt32.toBitVec (kATAData 60).toUInt32.toBitVec
    (by rw [hhi]; simpa [UInt16.lt_iff_toNat_lt] using h) (by rw [hlo]; exact hword)
  rw [hhi, hlo] at hjoined
  exact hjoined

structure CountWords (identity : Nat → UInt16) (n : UInt32) : Prop where
  low : identity 60 = n.toUInt16
  high : identity 61 = (n >>> 16).toUInt16

theorem CountWords.toNat {identity : Nat → UInt16} {n : UInt32} (h : CountWords identity n) :
    n.toNat = 65536 * (identity 61).toNat + (identity 60).toNat := by
  have hn := n.toNat_lt
  simp [h.low, h.high, Nat.shiftRight_eq_div_pow]
  omega

theorem drvGetSectorCount_toNat (kATAData : Nat → Int8)
    (hhi : (kATAData 61).toBitVec.msb = false) (hlo : (kATAData 60).toBitVec.msb = false) :
    (ATA.drvGetSectorCount kATAData).toNat =
      65536 * (kATAData 61).toBitVec.toNat + (kATAData 60).toBitVec.toNat := by
  have hwide : ∀ x : BitVec 8, x.msb = false →
      (x.signExtend 32).toNat = x.toNat ∧ (x.signExtend 32).toNat < 256 := by
    intro x h
    have hx := x.isLt
    rw [BitVec.signExtend_eq_setWidth_of_msb_false h, BitVec.toNat_setWidth]
    omega
  have hjoined := joined_toNat ((kATAData 61).toBitVec.signExtend 32)
    ((kATAData 60).toBitVec.signExtend 32) (by have := (hwide _ hhi).2; omega)
    (by have := (hwide _ hlo).2; omega)
  rw [(hwide _ hhi).1, (hwide _ hlo).1] at hjoined
  exact hjoined

/-- A negative character makes the count of the kernel too large. -/
theorem drvGetSectorCount_signs (kATAData : Nat → Int8) (n : UInt32)
    (h : ATA.drvGetSectorCount kATAData = n.toUInt64) :
    (kATAData 61).toBitVec.msb = false ∧ (kATAData 60).toBitVec.msb = false := by
  have hbit := congrArg (fun x : UInt64 => x.toBitVec.getLsbD 63) h
  simpa [ATA.drvGetSectorCount, BitVec.getElem_signExtend, BitVec.msb_eq_getLsbD_last]
    using hbit

/-- A word whose low byte is not negative as a character, and which has no high byte. -/
theorem word_small_iff (word : UInt16) :
    word < 128 ↔ word.toUInt8.toInt8.toBitVec.msb = false ∧
      word.toUInt8.toInt8.toBitVec.toNat = word.toNat := by
  have hbyte : word.toUInt8.toInt8.toBitVec.toNat = word.toNat % 256 := by simp
  rw [BitVec.msb_eq_false_iff_two_mul_lt, hbyte, UInt16.lt_iff_toNat_lt]
  change word.toNat < 128 ↔ _
  omega

theorem kernel_count_iff (kATAData : Nat → Int8) (identity : Nat → UInt16) (n : UInt32)
    (hwords : CountWords identity n) (h61 : kATAData 61 = (identity 61).toUInt8.toInt8)
    (h60 : kATAData 60 = (identity 60).toUInt8.toInt8) :
    ATA.drvGetSectorCount kATAData = n.toUInt64 ↔ identity 61 < 128 ∧ identity 60 < 128 := by
  rw [word_small_iff, word_small_iff, ← h61, ← h60]
  have hn : n.toUInt64.toNat = 65536 * (identity 61).toNat + (identity 60).toNat := by
    rw [← hwords.toNat]
    simp
  constructor
  · intro h
    have hsigns := drvGetSectorCount_signs kATAData n h
    have hcount := drvGetSectorCount_toNat kATAData hsigns.1 hsigns.2
    have hhi : (kATAData 61).toBitVec.toNat = (identity 61).toNat % 256 := by simp [h61]
    have hlo : (kATAData 60).toBitVec.toNat = (identity 60).toNat % 256 := by simp [h60]
    have hbound := (identity 60).toNat_lt
    rw [h, hn] at hcount
    refine ⟨⟨hsigns.1, ?_⟩, hsigns.2, ?_⟩
    · omega
    · omega
  · intro h
    rw [← UInt64.toNat_inj, drvGetSectorCount_toNat kATAData h.1.1 h.2.1, hn, h.1.2, h.2.2]

/-! ## Both sizes of one disk -/

/-- For one identification, both drivers report the count `n` and the size of as many sectors, and
a partition that the boot loader formats records the size that the kernel computes. -/
structure DiskSizesAgree (boot : Nat → UInt16) (kernel : Nat → Int8) (n : UInt32) : Prop where
  kernelCount : ATA.drvGetSectorCount kernel = n.toUInt64
  bootCount : getSectorsCount boot = n.toUInt64
  kernelSize : (ATA.drvGetSize kernel).toNat = n.toNat * 512
  bootSize : (getDiskSize boot).toNat = n.toNat * 512
  recorded : ∀ lit partName blobCount,
    (bootPartBlock lit partName blobCount (getSectorsCount boot)).diskSize = ATA.drvGetSize kernel

theorem sectors_size (count : UInt64) (n : UInt32) (h : count = n.toUInt64) :
    (count * kATASectorSize).toNat = n.toNat * 512 := by
  have hn := n.toNat_lt
  simp [h, kATASectorSize]
  omega

theorem boot_count (kATAData identity : Nat → UInt16) (n : UInt32)
    (hwords : CountWords identity n) (h61 : kATAData 61 = identity 61)
    (h60 : kATAData 60 = identity 60) (hsmall : identity 61 < 0x8000) :
    getSectorsCount kATAData = n.toUInt64 := by
  rw [← UInt64.toNat_inj, getSectorsCount_toNat kATAData (by rwa [h61]), h61, h60,
    ← hwords.toNat]
  simp

theorem diskSizesAgree_iff (dev : AtaDevice) (bus outBus : UInt16) (outMaster : UInt8)
    (bootData : Nat → UInt16) (kernelData : Nat → Int8) (n : UInt32)
    (hwords : CountWords dev.identity n) :
    DiskSizesAgree (bootAtaInit false dev bus outBus outMaster bootData).kATAData
        (ATA.drvStdInit dev bus kernelData).kATAData n ↔
      dev.identity 61 < 128 ∧ dev.identity 60 < 128 := by
  have hkernel := kernel_count_iff (ATA.drvStdInit dev bus kernelData).kATAData dev.identity n
    hwords (ataInit_data _ dev bus kernelData (by decide))
    (ataInit_data _ dev bus kernelData (by decide))
  constructor
  · intro h
    exact hkernel.mp h.kernelCount
  · intro h
    have hk := hkernel.mpr h
    have hb := boot_count (bootAtaInit false dev bus outBus outMaster bootData).kATAData
      dev.identity n hwords (ataInit_data _ dev bus bootData (by decide))
      (ataInit_data _ dev bus bootData (by decide))
      (UInt16.lt_trans h.1 (by decide))
    constructor
    · exact hk
    · exact hb
    · exact sectors_size _ n hk
    · exact sectors_size _ n hb
    · intro lit partName blobCount
      rw [ATA.drvGetSize, hk, ← hb]
      rfl

def countedDrive (low high : UInt16) : AtaDevice :=
  ⟨fun _ => 0, fun i => if i = 60 then low else if i = 61 then high else 0, 0, 0, 0, 0, 0, 0, .idle⟩

theorem diskSizesAgree_small :
    DiskSizesAgree (bootAtaInit false (countedDrive 64 16) ataPrimaryIO 0 0 fun _ => 0).kATAData
      (ATA.drvStdInit (countedDrive 64 16) ataPrimaryIO fun _ => 0).kATAData 0x100040 :=
  (diskSizesAgree_iff (countedDrive 64 16) ataPrimaryIO 0 0 (fun _ => 0) (fun _ => 0) 0x100040
    ⟨by decide, by decide⟩).mpr ⟨by decide, by decide⟩

/-- A disk of four gigabytes. -/
theorem diskSizesAgree_large : CountWords (countedDrive 0 0x80).identity 0x800000 ∧
    ¬ DiskSizesAgree (bootAtaInit false (countedDrive 0 0x80) ataPrimaryIO 0 0 fun _ => 0).kATAData
      (ATA.drvStdInit (countedDrive 0 0x80) ataPrimaryIO fun _ => 0).kATAData 0x800000 := by
  have hwords : CountWords (countedDrive 0 0x80).identity 0x800000 := ⟨by decide, by decide⟩
  constructor
  · exact hwords
  · intro h
    have hkernel := (kernel_count_iff _ _ _ hwords
      (ataInit_data _ _ ataPrimaryIO (fun _ => 0) (by decide))
      (ataInit_data _ _ ataPrimaryIO (fun _ => 0) (by decide))).mp h.kernelCount
    exact absurd hkernel.1 (by decide)

end Zka.BootKit
