import Zka.BootKit.ATA

/-!
# The sectors of a PIO transfer

The operations that a transfer does on the ports of the drive, in their order, and the sectors that
its commands make the drive transfer.  The sector count is one more than the sectors of the
transfer, modulo 256, and the loop moves a word of the port for each byte of the buffer.
-/

namespace Zka.HALKit

/-- An operation on the ports of a drive. -/
inductive AtaOp where
  | out8 (reg : AtaReg) (value : UInt8)
  | in16
  | out16 (value : UInt16)
  deriving DecidableEq, Repr

/-- The operation moves a word through the data port. -/
def AtaOp.isWord : AtaOp → Bool
  | .out8 _ _ => false
  | .in16 => true
  | .out16 _ => true

namespace AtaDevice

def step (dev : AtaDevice) : AtaOp → AtaDevice
  | .out8 reg value => dev.rtOut8 reg value
  | .in16 => dev.rtIn16.2
  | .out16 value => dev.rtOut16 value

/-- The sectors of the transfer that the operation starts. -/
def started (dev : AtaDevice) : AtaOp → List Nat
  | .out8 .command value =>
    if value = ataCmdReadPio ∨ value = ataCmdWritePio then
      List.range' (dev.address / 512) (dev.wordCount / 256)
    else []
  | _ => []

/-- The sectors of all transfers that the operations start. -/
def sectors (dev : AtaDevice) : List AtaOp → List Nat
  | [] => []
  | op :: ops => dev.started op ++ (dev.step op).sectors ops

end AtaDevice

/-! ## The operations of the driver -/

namespace ATA

def taskFileOps (lba : UInt64) (io : UInt16) (master : UInt8) (sectorSz size : UInt64) :
    List AtaOp :=
  let lba := lba / sectorSz
  let select : UInt8 := if master = 0 then 0xE0 else 0xF0
  [.out8 .hdDevSel (if io = ataPrimaryIO then ataPrimarySel else ataSecondarySel),
    .out8 .hdDevSel (select.toUInt64 ||| (lba >>> 24 &&& 0x0F)).toUInt8,
    .out8 .secCount0 ((size + sectorSz) / sectorSz).toUInt8,
    .out8 .lba0 (lba &&& 0xFF).toUInt8, .out8 .lba1 (lba >>> 8).toUInt8,
    .out8 .lba2 (lba >>> 16).toUInt8, .out8 .lba3 (lba >>> 24).toUInt8]

def readOps (lba : UInt64) (io : UInt16) (master : UInt8) (sectorSz size : UInt64) : List AtaOp :=
  taskFileOps lba io master sectorSz size ++
    .out8 .command ataCmdReadPio :: List.replicate size.toNat .in16

def writeOps (m : Store) (lba : UInt64) (io : UInt16) (master : UInt8)
    (buf sectorSz size : UInt64) : List AtaOp :=
  taskFileOps lba io master sectorSz size ++
    .out8 .command ataCmdWritePio ::
      (List.range size.toNat).map fun indexOff => .out16 (charWord (m (buf.toNat + indexOff)))

section Operations

variable (dev : AtaDevice) (m : Store) (lba : UInt64) (io : UInt16) (master : UInt8)
  (buf sectorSz size : UInt64)

theorem foldl_taskFileOps :
    (taskFileOps lba io master sectorSz size).foldl AtaDevice.step dev =
      drvStdTaskFile dev lba io master sectorSz size := by
  simp only [taskFileOps, List.foldl_cons, List.foldl_nil, AtaDevice.step, drvStdTaskFile,
    drvStdSelect]
  by_cases hio : io = ataPrimaryIO
  · rw [if_pos hio, if_pos hio]
  · rw [if_neg hio, if_neg hio]

theorem foldl_in16 (n : Nat) :
    (List.replicate n .in16).foldl AtaDevice.step dev = (readBuf dev m buf n).1 := by
  induction n with
  | zero => rfl
  | succ n ih =>
    rw [List.replicate_succ', List.foldl_append, ih]
    rfl

theorem foldl_out16 (n : Nat) :
    ((List.range n).map fun indexOff => .out16 (charWord (m (buf.toNat + indexOff)))).foldl
      AtaDevice.step dev = writeBuf dev m buf n := by
  induction n with
  | zero => rfl
  | succ n ih =>
    rw [List.range_succ, List.map_append, List.foldl_append, ih]
    rfl

/-- A read does these operations on the drive. -/
theorem foldl_readOps :
    (readOps lba io master sectorSz size).foldl AtaDevice.step dev =
      (drvStdRead dev m lba io master buf sectorSz size).1 := by
  rw [readOps, List.foldl_append, foldl_taskFileOps, List.foldl_cons, foldl_in16 _ m buf]
  rfl

/-- A write does these operations on the drive. -/
theorem foldl_writeOps :
    (writeOps m lba io master buf sectorSz size).foldl AtaDevice.step dev =
      drvStdWrite dev m lba io master buf sectorSz size := by
  rw [writeOps, List.foldl_append, foldl_taskFileOps, List.foldl_cons, foldl_out16]
  rfl

end Operations

end ATA

/-! ## What a transfer should be -/

/-- The sectors are those of the bytes, and every word of them goes through the port. -/
structure Transfers (dev : AtaDevice) (ops : List AtaOp) (lba sectorSz size : UInt64) : Prop where
  sectors : dev.sectors ops =
    List.range' (lba.toNat / sectorSz.toNat) (size.toNat / sectorSz.toNat)
  words : 2 * ops.countP AtaOp.isWord = size.toNat

/-- The buffer gets the bytes of the disk. -/
structure ReadLaw (dev : AtaDevice) (m : Store) (lba : UInt64) (io : UInt16) (master : UInt8)
    (buf sectorSz size : UInt64) (read : AtaDevice × Store) : Prop where
  transfers : Transfers dev (ATA.readOps lba io master sectorSz size) lba sectorSz size
  bytes : ∀ i < size.toNat, read.2 (buf.toNat + i) = dev.disk (lba.toNat + i)
  frame : ∀ a, ¬ (buf.toNat ≤ a ∧ a < buf.toNat + size.toNat) → read.2 a = m a

/-- The disk gets the bytes of the buffer. -/
structure WriteLaw (dev : AtaDevice) (m : Store) (lba : UInt64) (io : UInt16) (master : UInt8)
    (buf sectorSz size : UInt64) (written : AtaDevice) : Prop where
  transfers : Transfers dev (ATA.writeOps m lba io master buf sectorSz size) lba sectorSz size
  bytes : ∀ i < size.toNat, written.disk (lba.toNat + i) = m (buf.toNat + i)
  frame : ∀ a, ¬ (lba.toNat ≤ a ∧ a < lba.toNat + size.toNat) → written.disk a = dev.disk a

/-! ### The sectors of the driver -/

namespace AtaDevice

theorem sectors_append (dev : AtaDevice) (ops ops' : List AtaOp) :
    dev.sectors (ops ++ ops') = dev.sectors ops ++ (ops.foldl step dev).sectors ops' := by
  induction ops generalizing dev with
  | nil => rfl
  | cons op ops ih =>
    rw [List.cons_append, sectors, ih, sectors, List.append_assoc, List.foldl_cons]

theorem sectors_words (dev : AtaDevice) {ops : List AtaOp} (h : ∀ op ∈ ops, op.isWord = true) :
    dev.sectors ops = [] := by
  induction ops generalizing dev with
  | nil => rfl
  | cons op ops ih =>
    have hop := h op List.mem_cons_self
    have hstarted : dev.started op = [] := by
      cases op with
      | out8 reg value => cases hop
      | in16 => rfl
      | out16 value => rfl
    rw [sectors, hstarted, ih _ fun op' hmem => h op' (List.mem_cons_of_mem _ hmem)]
    rfl

end AtaDevice

namespace ATA

section Sectors

variable (dev : AtaDevice) (m : Store) {lba : UInt64} (io : UInt16) (master : UInt8)
  (buf : UInt64) {sectorSz size : UInt64}

theorem isWord_of_mem_in16 {n : Nat} : ∀ op ∈ List.replicate n AtaOp.in16, op.isWord = true := by
  intro op hmem
  rw [List.eq_of_mem_replicate hmem]
  rfl

theorem isWord_of_mem_out16 {n : Nat} {word : Nat → UInt16} :
    ∀ op ∈ (List.range n).map fun i => AtaOp.out16 (word i), op.isWord = true := by
  intro op hmem
  obtain ⟨i, _, rfl⟩ := List.mem_map.mp hmem
  rfl

/-- The sector count of the task file, in words. -/
theorem drvStdTaskFile_wordCount (hpos : 0 < sectorSz.toNat)
    (hsum : size.toNat + sectorSz.toNat < 2 ^ 64) :
    (drvStdTaskFile dev lba io master sectorSz size).wordCount =
      256 * if (size.toNat / sectorSz.toNat + 1) % 256 = 0 then 256
        else (size.toNat / sectorSz.toNat + 1) % 256 := by
  have hcount : ((size + sectorSz) / sectorSz).toUInt8.toNat =
      (size.toNat / sectorSz.toNat + 1) % 256 := by
    rw [UInt64.toNat_toUInt8, UInt64.toNat_div, UInt64.toNat_add, Nat.mod_eq_of_lt hsum,
      Nat.add_div_right _ hpos]
  have hzero : UInt8.toNat 0 = 0 := rfl
  simp only [AtaDevice.wordCount, drvStdTaskFile, AtaDevice.rtOut8, ← UInt8.toNat_inj, hcount,
    hzero]

/-- The drive transfers as many sectors as it is programmed for. -/
theorem sectors_length {command : UInt8} (hcommand : command = ataCmdReadPio ∨
    command = ataCmdWritePio) {words : List AtaOp} (hwords : ∀ op ∈ words, op.isWord = true) :
    (dev.sectors (taskFileOps lba io master sectorSz size ++
      .out8 .command command :: words)).length =
        (drvStdTaskFile dev lba io master sectorSz size).wordCount / 256 := by
  have htask : dev.sectors (taskFileOps lba io master sectorSz size) = [] := rfl
  rw [AtaDevice.sectors_append, htask, foldl_taskFileOps, AtaDevice.sectors,
    AtaDevice.sectors_words _ hwords, List.append_nil, List.nil_append, AtaDevice.started,
    if_pos hcommand, List.length_range']

/-- The count that is programmed is never the number of the sectors. -/
private theorem not_transfers {command : UInt8} (hcommand : command = ataCmdReadPio ∨
    command = ataCmdWritePio) {words : List AtaOp} (hwords : ∀ op ∈ words, op.isWord = true)
    (hmult : sectorSz.toNat ∣ size.toNat) (hsector : 0 < sectorSz.toNat) (hpos : 0 < size.toNat)
    (hmax : size.toNat ≤ 16777216) :
    ¬ Transfers dev (taskFileOps lba io master sectorSz size ++ .out8 .command command :: words)
      lba sectorSz size := by
  intro h
  have hle : sectorSz.toNat ≤ size.toNat := Nat.le_of_dvd hpos hmult
  have hone : 1 ≤ size.toNat / sectorSz.toNat := Nat.div_pos hle hsector
  have hlength := congrArg List.length h.sectors
  rw [sectors_length dev io master hcommand hwords, List.length_range',
    drvStdTaskFile_wordCount dev io master hsector (by omega)] at hlength
  split at hlength
  · omega
  · omega

theorem not_transfers_read (hmult : sectorSz.toNat ∣ size.toNat) (hsector : 0 < sectorSz.toNat)
    (hpos : 0 < size.toNat) (hmax : size.toNat ≤ 16777216) :
    ¬ Transfers dev (readOps lba io master sectorSz size) lba sectorSz size :=
  not_transfers dev io master (.inl rfl) isWord_of_mem_in16 hmult hsector hpos hmax

theorem not_transfers_write (hmult : sectorSz.toNat ∣ size.toNat) (hsector : 0 < sectorSz.toNat)
    (hpos : 0 < size.toNat) (hmax : size.toNat ≤ 16777216) :
    ¬ Transfers dev (writeOps m lba io master buf sectorSz size) lba sectorSz size :=
  not_transfers dev io master (.inr rfl) isWord_of_mem_out16 hmult hsector hpos hmax

end Sectors

end ATA

end Zka.HALKit

namespace Zka.BootKit

open FSKit HALKit

/-! ## Both drivers -/

def bootAtaRead (dev : AtaDevice) (m : Store) (lba : UInt64) (io : UInt16) (master : UInt8)
    (buf sectorSz size : UInt64) : AtaDevice × Store :=
  ATA.drvStdRead dev m lba io master buf sectorSz size

def bootAtaWrite (dev : AtaDevice) (m : Store) (lba : UInt64) (io : UInt16) (master : UInt8)
    (buf sectorSz size : UInt64) : AtaDevice :=
  ATA.drvStdWrite dev m lba io master buf sectorSz size

/-- No transfer of either driver is right. -/
theorem not_transferLaw (dev : AtaDevice) (m : Store) (lba : UInt64) (io : UInt16) (master : UInt8)
    (buf sectorSz size : UInt64) (hsector : 0 < sectorSz.toNat)
    (_haligned : sectorSz.toNat ∣ lba.toNat) (_hlba : lba.toNat / sectorSz.toNat < 2 ^ 28)
    (hpos : 0 < size.toNat) (hmult : sectorSz.toNat ∣ size.toNat) (hmax : size ≤ kNeFSForkDataSz) :
    ¬ ReadLaw dev m lba io master buf sectorSz size
        (ATA.drvStdRead dev m lba io master buf sectorSz size) ∧
      ¬ WriteLaw dev m lba io master buf sectorSz size
        (ATA.drvStdWrite dev m lba io master buf sectorSz size) ∧
      ¬ ReadLaw dev m lba io master buf sectorSz size
        (bootAtaRead dev m lba io master buf sectorSz size) ∧
      ¬ WriteLaw dev m lba io master buf sectorSz size
        (bootAtaWrite dev m lba io master buf sectorSz size) := by
  have hle : size.toNat ≤ 16777216 := UInt64.le_iff_toNat_le.mp hmax
  have hread := @ATA.not_transfers_read dev lba io master sectorSz size hmult hsector hpos hle
  have hwrite :=
    @ATA.not_transfers_write dev m lba io master buf sectorSz size hmult hsector hpos hle
  exact ⟨fun h => hread h.transfers, fun h => hwrite h.transfers, fun h => hread h.transfers,
    fun h => hwrite h.transfers⟩

theorem not_transferLaw_page :
    let dev := countedDrive 0 0
    ¬ ReadLaw dev (fun _ => 0) 0 ataPrimaryIO 0 0x1000 512 4096
        (ATA.drvStdRead dev (fun _ => 0) 0 ataPrimaryIO 0 0x1000 512 4096) ∧
      ¬ WriteLaw dev (fun _ => 0) 0 ataPrimaryIO 0 0x1000 512 4096
        (ATA.drvStdWrite dev (fun _ => 0) 0 ataPrimaryIO 0 0x1000 512 4096) ∧
      ¬ ReadLaw dev (fun _ => 0) 0 ataPrimaryIO 0 0x1000 512 4096
        (bootAtaRead dev (fun _ => 0) 0 ataPrimaryIO 0 0x1000 512 4096) ∧
      ¬ WriteLaw dev (fun _ => 0) 0 ataPrimaryIO 0 0x1000 512 4096
        (bootAtaWrite dev (fun _ => 0) 0 ataPrimaryIO 0 0x1000 512 4096) :=
  not_transferLaw (countedDrive 0 0) (fun _ => 0) 0 ataPrimaryIO 0 0x1000 512 4096 (by decide)
    (by decide) (by decide) (by decide) (by decide) (by decide)

/-- A read of one sector makes the drive transfer two. -/
theorem not_readLaw_sector :
    (countedDrive 0 0).sectors (ATA.readOps 0 ataPrimaryIO 0 512 512) = [0, 1] ∧
      ¬ ReadLaw (countedDrive 0 0) (fun _ => 0) 0 ataPrimaryIO 0 0x1000 512 512
        (ATA.drvStdRead (countedDrive 0 0) (fun _ => 0) 0 ataPrimaryIO 0 0x1000 512 512) := by
  have hsectors : (countedDrive 0 0).sectors (ATA.readOps 0 ataPrimaryIO 0 512 512) = [0, 1] := by
    have htask : (countedDrive 0 0).sectors (ATA.taskFileOps 0 ataPrimaryIO 0 512 512) = [] := rfl
    rw [ATA.readOps, AtaDevice.sectors_append, htask, AtaDevice.sectors,
      AtaDevice.sectors_words _ ATA.isWord_of_mem_in16]
    decide
  refine ⟨hsectors, fun h => ?_⟩
  have hlist := h.transfers.sectors
  rw [hsectors] at hlist
  exact absurd hlist (by decide)

end Zka.BootKit
