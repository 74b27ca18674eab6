import Zka.Framework.Store

/-!
# The AHCI port and its DMA driver

A port of an ideal host bus adapter with no command outstanding, and the driver
of the kernel on it.  A read asks for as many sectors as the caller's sector has
bytes; a write does nothing.
-/

namespace Zka.HALKit

def kAHCISectorSize : UInt64 := 512

def kFISTypeRegH2D : UInt8 := 0x27

def kAHCICmdReadDmaEx : UInt8 := 0x25

def kAhciLBAMode : UInt8 := 0x40

def sizeofFisRegH2D : Nat := 20

def sizeofHbaPrdtEntry : Nat := 16

/-- Where the entries of an `HbaCmdTbl` begin. -/
def prdtOffset : Nat := 64 + 16 + 48

/-- The fields of `FisRegH2D` that a command reads. -/
structure FisRegH2D where
  fisType : UInt8
  cmdOrCtrl : Bool
  command : UInt8
  lba0 : UInt8
  lba1 : UInt8
  lba2 : UInt8
  device : UInt8
  lba3 : UInt8
  lba4 : UInt8
  lba5 : UInt8
  countLow : UInt8
  countHigh : UInt8
  deriving DecidableEq, Repr

/-- `dbc` has 22 bits, and stands for one byte more than its value. -/
structure HbaPrdtEntry where
  dba : UInt32
  dbau : UInt32
  dbc : UInt32
  interruptBit : Bool
  deriving DecidableEq, Repr

structure HbaCmdHeader where
  cfl : Nat
  write : Bool
  prdtl : UInt16
  deriving DecidableEq, Repr

structure HbaCmdTbl where
  cfis : FisRegH2D
  prdtEntries : Nat → HbaPrdtEntry

/-- The port, with the first slot of its command list and the table of that slot. -/
structure HbaPort where
  disk : Store
  cmdHeader : HbaCmdHeader
  cmdTbl : HbaCmdTbl

/-! ## The adapter -/

def HbaPrdtEntry.address (entry : HbaPrdtEntry) : Nat :=
  entry.dba.toNat + 4294967296 * entry.dbau.toNat

def HbaPrdtEntry.byteCount (entry : HbaPrdtEntry) : Nat := entry.dbc.toNat + 1

def FisRegH2D.lba (fis : FisRegH2D) : Nat :=
  fis.lba0.toNat + 256 * fis.lba1.toNat + 65536 * fis.lba2.toNat + 16777216 * fis.lba3.toNat +
    4294967296 * fis.lba4.toNat + 1099511627776 * fis.lba5.toNat

/-- A count of zero stands for 65536 sectors. -/
def FisRegH2D.count (fis : FisRegH2D) : Nat :=
  if fis.countLow = 0 ∧ fis.countHigh = 0 then 65536
  else fis.countLow.toNat + 256 * fis.countHigh.toNat

/-- The bytes of the disk go to the entries in turn, each filled before the next. -/
def scatter (disk : Store) : List HbaPrdtEntry → Nat → Nat → Store → Store
  | [], _, _, m => m
  | entry :: entries, address, length, m =>
    let n := min length entry.byteCount
    scatter disk entries (address + n) (length - n) (m.write entry.address (disk.read address n))

/-- What the adapter does when the first slot is issued. -/
def HbaPort.issue (port : HbaPort) (m : Store) : Store :=
  let fis := port.cmdTbl.cfis
  if fis.fisType = kFISTypeRegH2D ∧ fis.cmdOrCtrl = true ∧ fis.command = kAHCICmdReadDmaEx ∧
      port.cmdHeader.write = false then
    scatter port.disk ((List.range port.cmdHeader.prdtl.toNat).map port.cmdTbl.prdtEntries)
      (512 * fis.lba) (512 * fis.count) m
  else m

/-! ## The driver -/

def FisRegH2D.zero : FisRegH2D := ⟨0, false, 0, 0, 0, 0, 0, 0, 0, 0, 0, 0⟩

def HbaPrdtEntry.zero : HbaPrdtEntry := ⟨0, 0, 0, false⟩

/-- `rt_set_memory(cmd_tbl, 0, length)`, which clears words of four bytes. -/
def HbaCmdTbl.clear (tbl : HbaCmdTbl) (length : Nat) : HbaCmdTbl where
  cfis := if sizeofFisRegH2D ≤ 4 * length then .zero else tbl.cfis
  prdtEntries i :=
    if prdtOffset + sizeofHbaPrdtEntry * (i + 1) ≤ 4 * length then .zero else tbl.prdtEntries i

def HbaCmdTbl.setEntry (tbl : HbaCmdTbl) (i : Nat) (entry : HbaPrdtEntry) : HbaCmdTbl :=
  { tbl with prdtEntries := Function.update tbl.prdtEntries i entry }

/-- The table after so many passes of the loop over the entries. -/
def HbaCmdTbl.fill (tbl : HbaCmdTbl) (entry : HbaPrdtEntry) : Nat → HbaCmdTbl
  | 0 => tbl
  | i + 1 => (tbl.fill entry i).setEntry i entry

namespace AHCI

def bufferEntry (buffer sizeBuffer : UInt64) : HbaPrdtEntry where
  dba := buffer.toUInt32
  dbau := (buffer >>> 32).toUInt32
  dbc := (sizeBuffer - 1).toUInt32 &&& 0x3FFFFF
  interruptBit := true

def readFis (lba sectorCnt : UInt64) : FisRegH2D where
  fisType := kFISTypeRegH2D
  cmdOrCtrl := true
  command := kAHCICmdReadDmaEx
  lba0 := lba.toUInt32.toUInt8 &&& 0xFF
  lba1 := (lba.toUInt32 >>> 8).toUInt8
  lba2 := (lba.toUInt32 >>> 16).toUInt8
  device := kAhciLBAMode
  lba3 := (lba.toUInt32 >>> 24).toUInt8
  lba4 := (lba >>> 32).toUInt8
  lba5 := (lba >>> 32 >>> 8).toUInt8
  countLow := (sectorCnt &&& 0xFF).toUInt8
  countHigh := (sectorCnt >>> 8 &&& 0xFF).toUInt8

/-- The port is idle: the search for a slot ends at the first one, and no wait lasts.  The sector
count of the callers is 512, so that the table gets 32 entries. -/
def drvStdRead (port : HbaPort) (m : Store) (lba buffer sectorCnt sizeBuffer : UInt64) :
    HbaPort × Store :=
  let prdtl : UInt16 := ((sectorCnt - 1) >>> 4).toUInt16 + 1
  let header : HbaCmdHeader := ⟨sizeofFisRegH2D / 4, false, prdtl⟩
  let tbl := port.cmdTbl.clear ((prdtl.toNat - 1) * sizeofHbaPrdtEntry)
  let tbl := tbl.fill (bufferEntry buffer sizeBuffer) (prdtl.toNat - 1)
  -- the counter of the loop is a variable of its own; the outer one is still zero here
  let tbl := tbl.setEntry 0 (bufferEntry buffer sizeBuffer)
  let port := { port with
    cmdHeader := header
    cmdTbl := { tbl with cfis := readFis lba sectorCnt } }
  (port, port.issue m)

def drvStdWrite (port : HbaPort) (_m : Store) (_lba _buffer _sectorCnt _sizeBuffer : UInt64) :
    HbaPort := port

end AHCI

/-! ## What a read moves -/

@[simp] theorem HbaCmdTbl.setEntry_self (tbl : HbaCmdTbl) (i : Nat) (entry : HbaPrdtEntry) :
    (tbl.setEntry i entry).prdtEntries i = entry := by
  simp [HbaCmdTbl.setEntry]

theorem HbaPrdtEntry.bufferEntry_address (buffer sizeBuffer : UInt64) :
    (AHCI.bufferEntry buffer sizeBuffer).address = buffer.toNat := by
  have hlt := buffer.toNat_lt
  simp [HbaPrdtEntry.address, AHCI.bufferEntry, Nat.shiftRight_eq_div_pow]
  omega

/-- A byte with the value of every byte of the disk keeps it. -/
theorem scatter_constant (v : UInt8) (entries : List HbaPrdtEntry) (address length : Nat)
    (m : Store) (x : Nat) (h : m x = v) :
    scatter (fun _ => v) entries address length m x = v := by
  induction entries generalizing address length m with
  | nil => exact h
  | cons entry entries ih =>
    apply ih
    simp only [Store.write, Store.read]
    split
    · rfl
    · exact h

/-- The first entry of the table is the one for the buffer, and it is the first to be filled. -/
theorem scatter_first (v : UInt8) (entry : HbaPrdtEntry) (entries : List HbaPrdtEntry)
    (address length : Nat) (m : Store) (h : 0 < length) :
    scatter (fun _ => v) (entry :: entries) address length m entry.address = v := by
  rw [scatter]
  apply scatter_constant
  have hbytes : 0 < entry.byteCount := Nat.succ_pos _
  have hmem : entry.address < entry.address + min length entry.byteCount := by omega
  rw [Store.write, dif_pos ⟨le_rfl, hmem⟩, Store.read]

/-- A read moves bytes to the buffer whatever the size of the packet is. -/
theorem AHCI.drvStdRead_constant (port : HbaPort) (m : Store) (v : UInt8)
    (lba buffer sizeBuffer : UInt64) (h : port.disk = fun _ => v) :
    (drvStdRead port m lba buffer kAHCISectorSize sizeBuffer).2 buffer.toNat = v := by
  have hprdtl : ((kAHCISectorSize - 1) >>> 4).toUInt16 + 1 = 32 := by decide
  have hcount : (readFis lba kAHCISectorSize).count = 512 := by
    have hlow : (readFis lba kAHCISectorSize).countLow = 0 := by rfl
    have hhigh : (readFis lba kAHCISectorSize).countHigh = 2 := by rfl
    simp [FisRegH2D.count, hlow, hhigh]
  have hrange : List.range (32 : UInt16).toNat = 0 :: (List.range 31).map Nat.succ :=
    List.range_succ_eq_map
  simp only [drvStdRead, HbaPort.issue, hprdtl, hcount, hrange, h, List.map_cons]
  rw [if_pos ⟨rfl, rfl, rfl, trivial⟩]
  have hfirst := scatter_first v (bufferEntry buffer sizeBuffer)
  rw [HbaPrdtEntry.bufferEntry_address] at hfirst
  rw [HbaCmdTbl.setEntry_self]
  apply hfirst
  omega

end Zka.HALKit
