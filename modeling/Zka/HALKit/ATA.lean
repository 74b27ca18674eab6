import Zka.Framework.Store

/-!
# The ATA drive and its PIO driver

The task file of an ideal ATA drive, which is always ready and never fails, and
the driver of the kernel on it.  The driver moves one byte of the buffer with
every word of the data port.
-/

namespace Zka.HALKit

/-- The registers `ATA_REG_DATA` to `ATA_REG_COMMAND`, and `ATA_REG_LBA3` behind the task file. -/
inductive AtaReg where
  | data
  | nein
  | secCount0
  | lba0
  | lba1
  | lba2
  | hdDevSel
  | command
  | lba3
  deriving DecidableEq, Repr

def ataCmdReadPio : UInt8 := 0x20

def ataCmdWritePio : UInt8 := 0x30

def ataCmdIdentify : UInt8 := 0xEC

def ataPrimarySel : UInt8 := 0xA0

def ataSecondarySel : UInt8 := 0xB0

def ataPrimaryIO : UInt16 := 0x1F0

def ataSecondaryIO : UInt16 := 0x170

def ataMaster : UInt8 := 0

def ataSlave : UInt8 := 1

def kATASectorSize : UInt64 := 512

def kATADataLen : Nat := 256

/-! ## The drive -/

/-- The words that the data port still has to move. -/
inductive AtaTransfer where
  | idle
  | toHost (words : Nat → UInt16) (position length : Nat)
  | toDisk (address position length : Nat)

/-- A drive with the response to its identification, and what its data port shows when no word is
waiting there. -/
structure AtaDevice where
  disk : Store
  identity : Nat → UInt16
  floating : UInt16
  secCount : UInt8
  lba0 : UInt8
  lba1 : UInt8
  lba2 : UInt8
  hdDevSel : UInt8
  transfer : AtaTransfer

namespace AtaDevice

variable (dev : AtaDevice)

/-- The byte address of the 28-bit sector number in the task file. -/
def address : Nat :=
  512 * (dev.lba0.toNat + 256 * dev.lba1.toNat + 65536 * dev.lba2.toNat +
    16777216 * (dev.hdDevSel &&& 0x0F).toNat)

/-- A count of zero stands for 256 sectors. -/
def wordCount : Nat := 256 * if dev.secCount = 0 then 256 else dev.secCount.toNat

def diskWord (index : Nat) : UInt16 :=
  (dev.disk (dev.address + 2 * index)).toUInt16 |||
    (dev.disk (dev.address + 2 * index + 1)).toUInt16 <<< 8

def execute (command : UInt8) : AtaDevice :=
  if command = ataCmdReadPio then
    { dev with transfer := .toHost dev.diskWord 0 dev.wordCount }
  else if command = ataCmdWritePio then
    { dev with transfer := .toDisk dev.address 0 dev.wordCount }
  else if command = ataCmdIdentify then
    { dev with transfer := .toHost dev.identity 0 kATADataLen }
  else { dev with transfer := .idle }

/-- `rt_out8` on a register of the drive. -/
def rtOut8 (reg : AtaReg) (value : UInt8) : AtaDevice :=
  match reg with
  | .secCount0 => { dev with secCount := value }
  | .lba0 => { dev with lba0 := value }
  | .lba1 => { dev with lba1 := value }
  | .lba2 => { dev with lba2 := value }
  | .hdDevSel => { dev with hdDevSel := value }
  | .command => dev.execute value
  | .data | .nein | .lba3 => dev

def rtIn16 : UInt16 × AtaDevice :=
  match dev.transfer with
  | .toHost words position length =>
    (if position < length then words position else dev.floating,
      { dev with transfer := .toHost words (position + 1) length })
  | _ => (dev.floating, dev)

def rtOut16 (value : UInt16) : AtaDevice :=
  match dev.transfer with
  | .toDisk address position length =>
    { dev with
      disk := if position < length then
          dev.disk.put Layout.u16 (address + 2 * position) value
        else dev.disk
      transfer := .toDisk address (position + 1) length }
  | _ => dev

end AtaDevice

/-! ## The driver -/

def drvStdSelect (dev : AtaDevice) (bus : UInt16) : AtaDevice :=
  if bus = ataPrimaryIO then dev.rtOut8 .hdDevSel ataPrimarySel
  else dev.rtOut8 .hdDevSel ataSecondarySel

/-- The task file of a transfer of `size` bytes from the byte address `lba` on.  The drive is ready
at once, so that `drv_std_wait_io` has nothing to wait for. -/
def drvStdTaskFile (dev : AtaDevice) (lba : UInt64) (io : UInt16) (master : UInt8)
    (sectorSz size : UInt64) : AtaDevice :=
  let lba := lba / sectorSz
  let select : UInt8 := if master = 0 then 0xE0 else 0xF0
  let dev := drvStdSelect dev io
  let dev := dev.rtOut8 .hdDevSel (select.toUInt64 ||| (lba >>> 24 &&& 0x0F)).toUInt8
  let dev := dev.rtOut8 .secCount0 ((size + sectorSz) / sectorSz).toUInt8
  let dev := dev.rtOut8 .lba0 (lba &&& 0xFF).toUInt8
  let dev := dev.rtOut8 .lba1 (lba >>> 8).toUInt8
  let dev := dev.rtOut8 .lba2 (lba >>> 16).toUInt8
  dev.rtOut8 .lba3 (lba >>> 24).toUInt8

/-- The drive and the memory after so many passes of the loop of `drv_std_read`. -/
def readBuf (dev : AtaDevice) (m : Store) (buf : UInt64) : Nat → AtaDevice × Store
  | 0 => (dev, m)
  | indexOff + 1 =>
    let (dev, m) := readBuf dev m buf indexOff
    let (word, dev) := dev.rtIn16
    (dev, Function.update m (buf.toNat + indexOff) word.toUInt8)

/-- A character of the buffer as an argument of `rt_out16`; `Char` is signed. -/
def charWord (c : UInt8) : UInt16 := c.toInt8.toInt16.toUInt16

def writeBuf (dev : AtaDevice) (m : Store) (buf : UInt64) : Nat → AtaDevice
  | 0 => dev
  | indexOff + 1 =>
    (writeBuf dev m buf indexOff).rtOut16 (charWord (m (buf.toNat + indexOff)))

namespace ATA

def drvStdRead (dev : AtaDevice) (m : Store) (lba : UInt64) (io : UInt16) (master : UInt8)
    (buf sectorSz size : UInt64) : AtaDevice × Store :=
  let dev := drvStdTaskFile dev lba io master sectorSz size
  readBuf (dev.rtOut8 .command ataCmdReadPio) m buf size.toNat

def drvStdWrite (dev : AtaDevice) (m : Store) (lba : UInt64) (io : UInt16) (master : UInt8)
    (buf sectorSz size : UInt64) : AtaDevice :=
  let dev := drvStdTaskFile dev lba io master sectorSz size
  writeBuf (dev.rtOut8 .command ataCmdWritePio) m buf size.toNat

end ATA

/-! ## Identification -/

/-- The data port and `kATAData` after so many passes of the loop that fills it. -/
def readIdentity {α : Type} (narrow : UInt16 → α) (dev : AtaDevice) (kATAData : Nat → α) :
    Nat → AtaDevice × (Nat → α)
  | 0 => (dev, kATAData)
  | indexData + 1 =>
    let (dev, kATAData) := readIdentity narrow dev kATAData indexData
    let (word, dev) := dev.rtIn16
    (dev, Function.update kATAData indexData (narrow word))

/-- What an initialisation leaves: the bus and the position of the drive, and `kATAData`. -/
structure AtaInit (α : Type) where
  outBus : UInt16
  outMaster : UInt8
  device : AtaDevice
  kATAData : Nat → α

/-- The initialisation of a drive that is ready and reports no error; `narrow` stores a word into
an element of `kATAData`. -/
def ataInit {α : Type} (narrow : UInt16 → α) (dev : AtaDevice) (bus : UInt16)
    (kATAData : Nat → α) : AtaInit α :=
  let dev := drvStdSelect dev bus
  let dev := dev.rtOut8 .nein 1
  let dev := dev.rtOut8 .command ataCmdIdentify
  let filled := readIdentity narrow dev kATAData kATADataLen
  { outBus := if bus = ataPrimaryIO then ataPrimaryIO else ataSecondaryIO
    outMaster := if bus = ataPrimaryIO then ataMaster else ataSlave
    device := filled.1
    kATAData := filled.2 }

namespace ATA

/-- The elements of `kATAData` are characters. -/
def drvStdInit (dev : AtaDevice) (bus : UInt16) (kATAData : Nat → Int8) : AtaInit Int8 :=
  ataInit (fun word => word.toUInt8.toInt8) dev bus kATAData

def drvGetSectorCount (kATAData : Nat → Int8) : UInt64 :=
  ((kATAData 61).toInt32 <<< 16 ||| (kATAData 60).toInt32).toInt64.toUInt64

def drvGetSize (kATAData : Nat → Int8) : UInt64 := drvGetSectorCount kATAData * kATASectorSize

end ATA

/-! ## Loops over the data port -/

theorem AtaDevice.rtIn16_toHost {dev : AtaDevice} {words : Nat → UInt16} {n length : Nat}
    (h : dev.transfer = .toHost words n length) :
    dev.rtIn16 = (if n < length then words n else dev.floating,
      { dev with transfer := .toHost words (n + 1) length }) := by
  simp [AtaDevice.rtIn16, h]

/-- A loop that stores one word with every pass, each at a place of its own. -/
private theorem drained {α : Type} {narrow : UInt16 → α} {place : Nat → Nat}
    (hplace : Function.Injective place) (loop : Nat → AtaDevice × (Nat → α))
    (hloop : ∀ n, loop (n + 1) = ((loop n).1.rtIn16.2,
      Function.update (loop n).2 (place n) (narrow (loop n).1.rtIn16.1)))
    (dev : AtaDevice) (words : Nat → UInt16) (length : Nat) (hdev : (loop 0).1 = dev)
    (htransfer : dev.transfer = .toHost words 0 length) (n : Nat) :
    (loop n).1 = { dev with transfer := .toHost words n length } ∧
      ∀ i, i < n → (loop n).2 (place i) =
        narrow (if i < length then words i else dev.floating) := by
  induction n with
  | zero => simp [hdev, ← htransfer]
  | succ n ih =>
    have hpass : (loop n).1.rtIn16 = (if n < length then words n else dev.floating,
        { dev with transfer := .toHost words (n + 1) length }) := by
      rw [ih.1]
      exact AtaDevice.rtIn16_toHost rfl
    rw [hloop, hpass]
    constructor
    · rfl
    · intro i hi
      by_cases hin : i = n
      · rw [hin]
        exact Function.update_self _ _ _
      · rw [← ih.2 i (by omega)]
        exact Function.update_of_ne (hplace.ne hin) _ _

theorem readIdentity_toHost {α : Type} (narrow : UInt16 → α) (dev : AtaDevice)
    (kATAData : Nat → α) (words : Nat → UInt16) (length n : Nat)
    (h : dev.transfer = .toHost words 0 length) :
    (readIdentity narrow dev kATAData n).1 = { dev with transfer := .toHost words n length } ∧
      ∀ i, i < n → (readIdentity narrow dev kATAData n).2 i =
        narrow (if i < length then words i else dev.floating) :=
  drained Function.injective_id (readIdentity narrow dev kATAData) (fun _ => rfl) dev words length
    rfl h n

theorem ataInit_data {α : Type} (narrow : UInt16 → α) (dev : AtaDevice) (bus : UInt16)
    (kATAData : Nat → α) {i : Nat} (hi : i < kATADataLen) :
    (ataInit narrow dev bus kATAData).kATAData i = narrow (dev.identity i) := by
  have htransfer : (((drvStdSelect dev bus).rtOut8 .nein 1).rtOut8 .command
      ataCmdIdentify).transfer = .toHost dev.identity 0 kATADataLen := by
    unfold drvStdSelect
    split <;> rfl
  simp only [ataInit]
  rw [(readIdentity_toHost narrow _ kATAData _ _ kATADataLen htransfer).2 i hi, if_pos hi]

/-! ## What a transfer moves -/

variable (dev : AtaDevice) (m : Store) (buf : UInt64)

/-- The loop of a read takes the low bytes of the words, one after the other. -/
theorem readBuf_toHost (words : Nat → UInt16) (length n : Nat)
    (h : dev.transfer = .toHost words 0 length) :
    (readBuf dev m buf n).1 = { dev with transfer := .toHost words n length } ∧
      ∀ i, i < n → (readBuf dev m buf n).2 (buf.toNat + i) =
        (if i < length then words i else dev.floating).toUInt8 :=
  drained (add_right_injective buf.toNat) (readBuf dev m buf) (fun _ => rfl) dev words length
    rfl h n

/-- The byte address that the task file of a transfer names. -/
def ataAddress (lba sectorSz : UInt64) : Nat := 512 * ((lba / sectorSz).toNat % 268435456)

theorem ataAddress_mod (lba sectorSz : UInt64) : ataAddress lba sectorSz % 512 = 0 :=
  Nat.mul_mod_right 512 _

private theorem select_low (select : UInt8) (x : UInt64) (h : select = 0xE0 ∨ select = 0xF0) :
    ((select.toUInt64 ||| (x &&& 0x0F)).toUInt8 &&& 0x0F) = (x &&& 0x0F).toUInt8 := by
  apply UInt8.eq_of_toBitVec_eq
  ext i hi
  obtain rfl | rfl := h <;> interval_cases i <;> simp

@[simp] theorem AtaDevice.execute_disk (command : UInt8) : (dev.execute command).disk = dev.disk := by
  unfold AtaDevice.execute
  split_ifs <;> rfl

theorem drvStdTaskFile_disk (lba : UInt64) (io : UInt16) (master : UInt8)
    (sectorSz size : UInt64) :
    (drvStdTaskFile dev lba io master sectorSz size).disk = dev.disk := by
  simp [drvStdTaskFile, drvStdSelect, AtaDevice.rtOut8, apply_ite]

theorem drvStdTaskFile_address (lba : UInt64) (io : UInt16) (master : UInt8)
    (sectorSz size : UInt64) :
    (drvStdTaskFile dev lba io master sectorSz size).address = ataAddress lba sectorSz := by
  rw [AtaDevice.address, ataAddress]
  simp only [drvStdTaskFile, AtaDevice.rtOut8]
  generalize lba / sectorSz = x
  generalize hs : (if master = 0 then 0xE0 else 0xF0 : UInt8) = select
  have hselect : select = 0xE0 ∨ select = 0xF0 := by
    rw [← hs]
    split <;> simp
  have hlow : (x &&& 0xFF).toUInt8.toNat = x.toNat % 256 := by
    simp [Nat.and_two_pow_sub_one_eq_mod _ 8]
  have hhigh : (x >>> 24 &&& 0x0F).toUInt8.toNat = x.toNat / 16777216 % 16 := by
    simp [Nat.shiftRight_eq_div_pow, Nat.and_two_pow_sub_one_eq_mod _ 4]
  rw [select_low select _ hselect, hlow, hhigh]
  simp [Nat.shiftRight_eq_div_pow]
  omega

theorem AtaDevice.wordCount_ge : 256 ≤ dev.wordCount := by
  by_cases h : dev.secCount = 0
  · simp [AtaDevice.wordCount, h]
  · have hpos : 0 < dev.secCount.toNat := by
      apply Nat.pos_of_ne_zero
      simpa [← UInt8.toNat_inj] using h
    simp only [AtaDevice.wordCount, if_neg h]
    omega

theorem AtaDevice.diskWord_low (index : Nat) :
    (dev.diskWord index).toUInt8 = dev.disk (dev.address + 2 * index) := by
  apply UInt8.eq_of_toBitVec_eq
  ext i hi
  simp [AtaDevice.diskWord]

namespace ATA

variable (lba : UInt64) (io : UInt16) (master : UInt8) (sectorSz size : UInt64)

private theorem read_start :
    let dev' := drvStdTaskFile dev lba io master sectorSz size
    (dev'.rtOut8 .command ataCmdReadPio).transfer = .toHost dev'.diskWord 0 dev'.wordCount := by
  simp [AtaDevice.rtOut8, AtaDevice.execute]

theorem drvStdRead_disk : (drvStdRead dev m lba io master buf sectorSz size).1.disk = dev.disk := by
  rw [drvStdRead, (readBuf_toHost _ _ _ _ _ _ (read_start dev lba io master sectorSz size)).1]
  simp [AtaDevice.rtOut8, drvStdTaskFile_disk]

theorem drvStdWrite_empty : (drvStdWrite dev m lba io master buf sectorSz 0).disk = dev.disk := by
  simp [drvStdWrite, writeBuf, AtaDevice.rtOut8, drvStdTaskFile_disk]

/-- Every byte of the buffer comes from twice its place in the sectors. -/
theorem drvStdRead_byte {i : Nat} (hsize : i < size.toNat) (hi : i < 256) :
    (drvStdRead dev m lba io master buf sectorSz size).2 (buf.toNat + i) =
      dev.disk (ataAddress lba sectorSz + 2 * i) := by
  have hread := read_start dev lba io master sectorSz size
  rw [drvStdRead, (readBuf_toHost _ _ _ _ _ _ hread).2 i hsize, if_pos
    (lt_of_lt_of_le hi (AtaDevice.wordCount_ge _)), AtaDevice.diskWord_low,
    drvStdTaskFile_disk, drvStdTaskFile_address]

end ATA

end Zka.HALKit
