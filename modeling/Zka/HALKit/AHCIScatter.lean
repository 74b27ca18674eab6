import Zka.HALKit.AHCI

/-!
# The scatter list of an AHCI read

Which bytes the entries of a command table stand for, and when the list that a read builds is the
one that its buffer needs.  Every entry of the list stands for the whole buffer, the header counts
one entry for sixteen sectors, and the last entry it counts is never written.
-/

namespace Zka.HALKit.AHCI

/-- The bytes that `drv_std_init` reserves for each command table. -/
def commandTableSize : Nat := 256

/-- The byte belongs to the entry. -/
def Covers (entry : HbaPrdtEntry) (a : Nat) : Prop :=
  entry.address ≤ a ∧ a < entry.address + entry.byteCount

/-- The port with its table as a read leaves it. -/
def readPort (port : HbaPort) (m : Store) (lba buffer sectorCnt sizeBuffer : UInt64) : HbaPort :=
  (drvStdRead port m lba buffer sectorCnt sizeBuffer).1

/-- The entries fit the table, do not depend on what it had before, and cover each byte of the
buffer once and nothing else; the count is the one that was asked for. -/
structure ScatterLaw (port : HbaPort) (m : Store) (lba buffer sectorCnt sizeBuffer : UInt64) :
    Prop where
  fits : prdtOffset + sizeofHbaPrdtEntry *
    (readPort port m lba buffer sectorCnt sizeBuffer).cmdHeader.prdtl.toNat ≤ commandTableSize
  initialised : ∀ tbl : HbaCmdTbl,
    let port' := { port with cmdTbl := tbl }
    ∀ i < (readPort port m lba buffer sectorCnt sizeBuffer).cmdHeader.prdtl.toNat,
      (readPort port' m lba buffer sectorCnt sizeBuffer).cmdTbl.prdtEntries i =
        (readPort port m lba buffer sectorCnt sizeBuffer).cmdTbl.prdtEntries i
  once : ∀ a, buffer.toNat ≤ a → a < buffer.toNat + sizeBuffer.toNat →
    ∃! i, i < (readPort port m lba buffer sectorCnt sizeBuffer).cmdHeader.prdtl.toNat ∧
      Covers ((readPort port m lba buffer sectorCnt sizeBuffer).cmdTbl.prdtEntries i) a
  inside : ∀ a, ∀ i < (readPort port m lba buffer sectorCnt sizeBuffer).cmdHeader.prdtl.toNat,
    Covers ((readPort port m lba buffer sectorCnt sizeBuffer).cmdTbl.prdtEntries i) a →
      buffer.toNat ≤ a ∧ a < buffer.toNat + sizeBuffer.toNat
  count : (readPort port m lba buffer sectorCnt sizeBuffer).cmdTbl.cfis.count = sectorCnt.toNat

/-! ### The table -/

theorem HbaPrdtEntry.covers_address (entry : HbaPrdtEntry) : Covers entry entry.address := by
  have hbytes : 0 < entry.byteCount := Nat.succ_pos _
  exact ⟨le_rfl, by omega⟩

/-- The loop writes the entries below its bound. -/
theorem fill_prdtEntries (tbl : HbaCmdTbl) (entry : HbaPrdtEntry) (n i : Nat) :
    (tbl.fill entry n).prdtEntries i = if i < n then entry else tbl.prdtEntries i := by
  induction n with
  | zero => rfl
  | succ n ih =>
    rw [HbaCmdTbl.fill, HbaCmdTbl.setEntry]
    dsimp only
    by_cases heq : i = n
    · subst heq
      rw [Function.update_self, if_pos (Nat.lt_succ_self i)]
    · rw [Function.update_of_ne heq, ih]
      have hiff : i < n ↔ i < n + 1 := by omega
      simp only [hiff]

/-- The number of entries, for a count that one command can have. -/
theorem prdtl_toNat {sectorCnt : UInt64} (hpos : 1 ≤ sectorCnt.toNat)
    (hfit : sectorCnt.toNat ≤ 65536) :
    (((sectorCnt - 1) >>> 4).toUInt16 + 1).toNat = (sectorCnt.toNat - 1) / 16 + 1 := by
  have hone : UInt64.toNat 1 = 1 := rfl
  have hfour : UInt64.toNat 4 % 64 = 4 := rfl
  have hword : UInt16.toNat 1 = 1 := rfl
  have hle : (1 : UInt64) ≤ sectorCnt := UInt64.le_iff_toNat_le.mpr hpos
  rw [UInt16.toNat_add, UInt64.toNat_toUInt16, UInt64.toNat_shiftRight, hfour,
    UInt64.toNat_sub_of_le _ _ hle, hone, hword, Nat.shiftRight_eq_div_pow]
  omega

section Read

variable {port : HbaPort} {m : Store} {lba buffer sectorCnt sizeBuffer : UInt64}

theorem readPort_prdtl (hpos : 1 ≤ sectorCnt.toNat) (hfit : sectorCnt.toNat ≤ 65536) :
    (readPort port m lba buffer sectorCnt sizeBuffer).cmdHeader.prdtl.toNat =
      (sectorCnt.toNat - 1) / 16 + 1 :=
  prdtl_toNat hpos hfit

/-- An entry that the read writes is the one for the whole buffer. -/
theorem readPort_written {i : Nat}
    (h : i = 0 ∨ i + 1 < (readPort port m lba buffer sectorCnt sizeBuffer).cmdHeader.prdtl.toNat) :
    (readPort port m lba buffer sectorCnt sizeBuffer).cmdTbl.prdtEntries i =
      bufferEntry buffer sizeBuffer := by
  rcases Nat.eq_zero_or_pos i with rfl | hpos
  · simp only [readPort, drvStdRead, HbaCmdTbl.setEntry_self]
  · have hlt : i < (readPort port m lba buffer sectorCnt sizeBuffer).cmdHeader.prdtl.toNat - 1 := by
      omega
    simp only [readPort, drvStdRead, HbaCmdTbl.setEntry] at hlt ⊢
    rw [Function.update_of_ne (by omega), fill_prdtEntries, if_pos hlt]

theorem readPort_count (hpos : 1 ≤ sectorCnt.toNat) (hfit : sectorCnt.toNat ≤ 65536) :
    (readPort port m lba buffer sectorCnt sizeBuffer).cmdTbl.cfis.count = sectorCnt.toNat := by
  have hmask : UInt64.toNat 0xFF = 2 ^ 8 - 1 := rfl
  have height : UInt64.toNat 8 % 64 = 8 := rfl
  have hlow : (sectorCnt &&& 0xFF).toUInt8.toNat = sectorCnt.toNat % 256 := by
    rw [UInt64.toNat_toUInt8, UInt64.toNat_and, hmask, Nat.and_two_pow_sub_one_eq_mod]
    omega
  have hhigh : (sectorCnt >>> 8 &&& 0xFF).toUInt8.toNat = sectorCnt.toNat / 256 % 256 := by
    rw [UInt64.toNat_toUInt8, UInt64.toNat_and, hmask, Nat.and_two_pow_sub_one_eq_mod,
      UInt64.toNat_shiftRight, height, Nat.shiftRight_eq_div_pow]
    omega
  have hzero : UInt8.toNat 0 = 0 := rfl
  simp only [readPort, drvStdRead, FisRegH2D.count, readFis, ← UInt8.toNat_inj, hlow, hhigh, hzero]
  split
  · omega
  · omega

end Read

/-- The entry stands for the whole buffer if this has at most 4 MiB. -/
theorem bufferEntry_byteCount {buffer sizeBuffer : UInt64} (hpos : 0 < sizeBuffer.toNat)
    (hle : sizeBuffer.toNat ≤ 4194304) :
    (bufferEntry buffer sizeBuffer).byteCount = sizeBuffer.toNat := by
  have hone : UInt64.toNat 1 = 1 := rfl
  have hmask : UInt32.toNat 0x3FFFFF = 2 ^ 22 - 1 := rfl
  have hle' : (1 : UInt64) ≤ sizeBuffer := UInt64.le_iff_toNat_le.mpr hpos
  simp only [HbaPrdtEntry.byteCount, bufferEntry]
  rw [UInt32.toNat_and, hmask, Nat.and_two_pow_sub_one_eq_mod, UInt64.toNat_toUInt32,
    UInt64.toNat_sub_of_le _ _ hle', hone]
  omega

theorem covers_bufferEntry_iff {buffer sizeBuffer : UInt64} (hpos : 0 < sizeBuffer.toNat)
    (hle : sizeBuffer.toNat ≤ 4194304) (a : Nat) :
    Covers (bufferEntry buffer sizeBuffer) a ↔
      buffer.toNat ≤ a ∧ a < buffer.toNat + sizeBuffer.toNat := by
  rw [Covers, HbaPrdtEntry.bufferEntry_address, bufferEntry_byteCount hpos hle]

/-! ### The law -/

section Law

variable {port : HbaPort} {m : Store} {lba buffer sectorCnt sizeBuffer : UInt64}

/-- With two entries or more the second one covers a byte that it may not: one outside, or one that
the first entry has. -/
theorem not_scatterLaw (hpos : 1 ≤ sectorCnt.toNat) (hfit : sectorCnt.toNat ≤ 65536)
    (hsize : sizeBuffer.toNat = 512 * sectorCnt.toNat) (hmany : 16 < sectorCnt.toNat) :
    ¬ ScatterLaw port m lba buffer sectorCnt sizeBuffer := by
  intro h
  have hprdtl := @readPort_prdtl port m lba buffer sectorCnt sizeBuffer hpos hfit
  have htwo : 1 < (readPort port m lba buffer sectorCnt sizeBuffer).cmdHeader.prdtl.toNat := by
    omega
  have hfirst : (readPort port m lba buffer sectorCnt sizeBuffer).cmdTbl.prdtEntries 0 =
      bufferEntry buffer sizeBuffer := readPort_written (.inl rfl)
  -- a byte that both have is covered twice
  have hboth : ∀ a,
      Covers ((readPort port m lba buffer sectorCnt sizeBuffer).cmdTbl.prdtEntries 0) a →
        Covers ((readPort port m lba buffer sectorCnt sizeBuffer).cmdTbl.prdtEntries 1) a →
          False := by
    intro a hzero hone
    obtain ⟨hge, hlt⟩ := h.inside a 1 htwo hone
    have heq := (h.once a hge hlt).unique ⟨by omega, hzero⟩ ⟨htwo, hone⟩
    cases heq
  by_cases hlast : 2 < (readPort port m lba buffer sectorCnt sizeBuffer).cmdHeader.prdtl.toNat
  · have hsecond : (readPort port m lba buffer sectorCnt sizeBuffer).cmdTbl.prdtEntries 1 =
        bufferEntry buffer sizeBuffer := readPort_written (.inr hlast)
    apply hboth (bufferEntry buffer sizeBuffer).address
    · rw [hfirst]
      exact HbaPrdtEntry.covers_address _
    · rw [hsecond]
      exact HbaPrdtEntry.covers_address _
  · have hcovers := HbaPrdtEntry.covers_address
      ((readPort port m lba buffer sectorCnt sizeBuffer).cmdTbl.prdtEntries 1)
    apply hboth _ _ hcovers
    rw [hfirst, covers_bufferEntry_iff (by omega) (by omega)]
    exact h.inside _ 1 htwo hcovers

theorem scatterLaw_one (hpos : 1 ≤ sectorCnt.toNat) (hfew : sectorCnt.toNat ≤ 16)
    (hsize : sizeBuffer.toNat = 512 * sectorCnt.toNat) :
    ScatterLaw port m lba buffer sectorCnt sizeBuffer := by
  have hfit : sectorCnt.toNat ≤ 65536 := by omega
  have hprdtl : (readPort port m lba buffer sectorCnt sizeBuffer).cmdHeader.prdtl.toNat = 1 := by
    rw [readPort_prdtl hpos hfit]
    omega
  have hfirst : (readPort port m lba buffer sectorCnt sizeBuffer).cmdTbl.prdtEntries 0 =
      bufferEntry buffer sizeBuffer := readPort_written (.inl rfl)
  have hcovers := @covers_bufferEntry_iff buffer sizeBuffer (by omega) (by omega)
  constructor
  case fits =>
    rw [hprdtl]
    decide
  case initialised =>
    intro tbl port' i hi
    obtain rfl : i = 0 := by omega
    rw [hfirst]
    exact readPort_written (.inl rfl)
  case once =>
    intro a hge hlt
    refine ⟨0, ⟨by omega, ?_⟩, ?_⟩
    · rw [hfirst, hcovers]
      exact ⟨hge, hlt⟩
    · intro i hi
      omega
  case inside =>
    intro a i hi hc
    obtain rfl : i = 0 := by omega
    rw [hfirst, hcovers] at hc
    exact hc
  case count => exact readPort_count hpos hfit

/-- The list is right exactly for reads of up to sixteen sectors. -/
theorem scatterLaw_iff (port : HbaPort) (m : Store) (lba buffer sectorCnt sizeBuffer : UInt64)
    (hpos : 1 ≤ sectorCnt.toNat) (hfit : sectorCnt.toNat ≤ 65536)
    (hsize : sizeBuffer.toNat = 512 * sectorCnt.toNat)
    (_hbuffer : buffer.toNat + sizeBuffer.toNat ≤ 2 ^ 64) :
    ScatterLaw port m lba buffer sectorCnt sizeBuffer ↔ sectorCnt.toNat ≤ 16 := by
  constructor
  · intro h
    by_contra hmany
    exact not_scatterLaw hpos hfit hsize (by omega) h
  · intro hfew
    exact scatterLaw_one hpos hfew hsize

end Law

/-- A port with a table of zeros. -/
def idlePort : HbaPort where
  disk := fun _ => 0
  cmdHeader := ⟨0, false, 8⟩
  cmdTbl := ⟨.zero, fun _ => .zero⟩

theorem scatterLaw_page : ScatterLaw idlePort (fun _ => 0) 0 0x1000 8 4096 :=
  (scatterLaw_iff idlePort (fun _ => 0) 0 0x1000 8 4096 (by decide) (by decide) (by decide)
    (by decide)).mpr (by decide)

/-- Seventeen sectors get two entries, of which the second is not written. -/
theorem scatterLaw_seventeen : ¬ ScatterLaw idlePort (fun _ => 0) 0 0x1000 17 8704 :=
  not_scatterLaw (by decide) (by decide) (by decide) (by decide)

end Zka.HALKit.AHCI
