import Zka.BootKit.DiskFormat
import Zka.BootKit.PioRecords
import Zka.KernelKit.DriveMgr
import Zka.KernelKit.User

/-!
# From the formatter to the drive manager

The boot loader formats a drive through `BootDeviceATA`, and the kernel looks for the partition
scheme on the same drive through the packets of its drive manager.  Both drive it by PIO: no byte
lies on the disk where its block has it, but the kernel finds the blocks that the formatter wrote.
-/

namespace Zka.BootKit

open FSKit HALKit Outcome

/-- `BootDeviceATA` with the static data of its driver. -/
structure BootDeviceATA where
  device : AtaDevice
  mBase : UInt64
  mSize : UInt64
  mBus : UInt16
  mMaster : UInt8
  mErr : Bool
  kATADetected : Bool
  kATAData : Nat → UInt16

namespace BootDeviceATA

/-- The constructor finds the drive on the first bus. -/
def construct (kATADetected : Bool) (device : AtaDevice) (kATAData : Nat → UInt16) :
    BootDeviceATA :=
  let init := bootAtaInit kATADetected device ataPrimaryIO ataPrimaryIO 0 kATAData
  { device := init.device
    mBase := 0
    mSize := 0
    mBus := init.outBus
    mMaster := init.outMaster
    mErr := false
    kATADetected := true
    kATAData := init.kATAData }

def write (dev : BootDeviceATA) (m : Store) (buf : Option UInt64) (sectorSz : FSKit.SizeT) :
    BootDeviceATA :=
  if dev.kATADetected then
    match buf with
    | none => { dev with mErr := false }
    | some buf =>
      if sectorSz < 1 then { dev with mErr := false }
      else { dev with
        mErr := false
        device := ATA.drvStdWrite dev.device m dev.mBase dev.mBus dev.mMaster buf sectorSz
          dev.mSize }
  else { dev with mErr := true }

/-- A write at the place that the trait is given first. -/
def writeAt (dev : BootDeviceATA) (base size : UInt64) (m : Store) (buf : UInt64)
    (sectorSz : FSKit.SizeT) : BootDeviceATA :=
  write { dev with mBase := base, mSize := size } m (some buf) sectorSz

/-- `GetSectorsCount` and `GetDiskSize`, as the formatter asks for them. -/
def sizes (dev : BootDeviceATA) : BootDevice :=
  ⟨dev.device.disk, getSectorsCount dev.kATAData, getDiskSize dev.kATAData⟩

/-- Where the objects of the formatter lie in memory. -/
structure Frame where
  memory : Store
  partBlock : UInt64
  epmBoot : UInt64
  catalogKind : UInt64

/-- `Format` on this device, with `WriteRootCatalog`. -/
def format (width : Nat) (dev : BootDeviceATA) (lit : FormatLiterals) (frame : Frame)
    (partName : CString) (fileBlobs : List BFileDescriptor) :
    Outcome CFault (Bool × BootDeviceATA) :=
  match fileBlobs with
  | [] => .done (false, dev)
  | blob :: _ =>
    if dev.sizes.diskSize < kNeFSMinimumDiskSize then efiThrowError
    else if 512 < 8 + width * partName.strlen ∨ 512 < width * blob.fFileName.strlen then
      .fault .indexOutOfRange
    else
      let partBlock := formatBlock width dev.sizes lit partName (UInt64.ofNat fileBlobs.length)
      let m := frame.memory.put partLayout frame.partBlock.toNat partBlock
      let dev := dev.writeAt kNeFSRootCatalogStartAddress kSectorSize m frame.partBlock kSectorSize
      let epmBoot := formatEpm width lit partBlock
      let m := Store.put bootBlockLayout m frame.epmBoot.toNat epmBoot
      let dev := dev.writeAt 1 kSectorSize m frame.epmBoot kSectorSize
      let startLba := partBlock.startCatalog
      let catalogKind := formatCatalog width blob startLba
      let m := Store.put catalogLayout m frame.catalogKind.toNat catalogKind
      .done (true, dev.writeAt startLba 512 m frame.catalogKind 512)

/-- An object that is written becomes the record of its place. -/
theorem writeAt_record {α : Type} {dev : BootDeviceATA} (hdetected : dev.kATADetected = true)
    (layout : Layout α 512) (v : α) (m : Store) (buf base : UInt64) :
    let dev' := dev.writeAt base 512 (m.put layout buf.toNat v) buf 512
    dev'.kATADetected = true ∧ dev'.device.recordAt base = layout v ∧
      ∀ a, (ataAddress a kATASectorSize + 1024 ≤ ataAddress base kATASectorSize ∨
        ataAddress base kATASectorSize + 1024 ≤ ataAddress a kATASectorSize) →
        dev'.device.recordAt a = dev.device.recordAt a := by
  have hsector : ¬ (512 : FSKit.SizeT) < 1 := by decide
  simp only [writeAt, write, hdetected, if_true, if_neg hsector]
  refine ⟨trivial, ?_, fun a ha => ?_⟩
  · exact (recordAt_write ..).trans (Store.read_write_same ..)
  · exact recordAt_write_apart _ _ _ _ _ _ ha

/-- The blocks of a formatted drive, where the transfers find them. -/
structure Formatted (device : AtaDevice) (partBlock : NfsRootPartitionBlock)
    (epmBoot : BootBlockStruct) (catalogKind : NfsCatalogStruct) : Prop where
  epm : device.recordAt kEPMBaseLba = bootBlockLayout epmBoot
  part : device.recordAt kNeFSRootCatalogStartAddress = partLayout partBlock
  catalog : device.recordAt kNeFSCatalogStartAddress = catalogLayout catalogKind

theorem format_formatted {width : Nat} {dev boot : BootDeviceATA} {lit : FormatLiterals}
    {frame : Frame} {partName : CString} {blob : BFileDescriptor} {more : List BFileDescriptor}
    (hdetected : dev.kATADetected = true)
    (h : dev.format width lit frame partName (blob :: more) = .done (true, boot)) :
    let partBlock := formatBlock width dev.sizes lit partName (UInt64.ofNat (blob :: more).length)
    Formatted boot.device partBlock (formatEpm width lit partBlock)
      (formatCatalog width blob kNeFSCatalogStartAddress) := by
  simp only [format] at h
  split_ifs at h with hsmall hlong
  · cases h
  cases h
  generalize hp : formatBlock width dev.sizes lit partName (UInt64.ofNat (blob :: more).length) = p
  have hstart : p.startCatalog = kNeFSCatalogStartAddress := hp ▸ rfl
  rw [hstart]
  obtain ⟨hdet₁, hpart, -⟩ := writeAt_record hdetected partLayout p frame.memory frame.partBlock
    kNeFSRootCatalogStartAddress
  obtain ⟨hdet₂, hepm, hkeep₂⟩ := writeAt_record hdet₁ bootBlockLayout (formatEpm width lit p)
    (frame.memory.put partLayout frame.partBlock.toNat p) frame.epmBoot 1
  obtain ⟨-, hcatalog, hkeep₃⟩ := writeAt_record hdet₂ catalogLayout
    (formatCatalog width blob kNeFSCatalogStartAddress)
    (Store.put bootBlockLayout (frame.memory.put partLayout frame.partBlock.toNat p)
      frame.epmBoot.toNat (formatEpm width lit p)) frame.catalogKind kNeFSCatalogStartAddress
  have hbase : ∀ device : AtaDevice, device.recordAt kEPMBaseLba = device.recordAt 1 :=
    fun _ => rfl
  refine ⟨?_, ?_, hcatalog⟩
  · exact (hbase _).trans ((hkeep₃ 1 (by decide)).trans hepm)
  · exact (hkeep₃ _ (by decide)).trans ((hkeep₂ _ (by decide)).trans hpart)

/-- The entry of the map begins with the magic, whatever is copied behind it. -/
theorem formatEpm_magic {width : Nat} (hw : 0 < width) (lit : FormatLiterals)
    (partBlock : NfsRootPartitionBlock) {i : Nat} (hi : i < 5) :
    bootBlockLayout (formatEpm width lit partBlock) ⟨i, by omega⟩ = kEPMMagic.getD i 0 := by
  have hlen : lit.magic.strlen = 5 := by rw [CString.strlen, lit.magic_eq]; rfl
  have hwide : i < width * 5 := hi.trans_le (Nat.le_mul_of_pos_left 5 hw)
  rw [formatEpm, Equiv.apply_symm_apply, copyMem, FSKit.rtCopyMemory, hlen,
    if_pos ⟨Nat.zero_le _, by dsimp only; omega⟩]
  dsimp only
  rw [Nat.sub_zero, CString.byte, lit.magic_eq, if_pos (by rw [kEPMMagic]; exact hi.le)]

end BootDeviceATA

end Zka.BootKit

namespace Zka.KernelKit

open FSKit HALKit NewKit BootKit Outcome

/-! ## The drive manager -/

def kMassStorageDisc : Int32 := 0xDA

def kReadOnlyDrive : Int32 := 0x10

def kEPMDrive : Int32 := 0x11

def kUnformattedDrive : Int32 := 0x15

def kEPMMagicLength : Nat := 5

def kDriveNameLen : Nat := 32

/-- `"/Disks/OS:"`. -/
def kMainDriveName : List UInt8 := [47, 68, 105, 115, 107, 115, 47, 79, 83, 58]

/-- `"fs/detect-packet"`. -/
def kDetectMime : List UInt8 :=
  [102, 115, 47, 100, 101, 116, 101, 99, 116, 45, 112, 97, 99, 107, 101, 116]

/-- `"*/*"`. -/
def kAnyMime : List UInt8 := [42, 47, 42]

/-- `DriveTrait::DrivePacket`, with what the drive manager itself reads and sets. -/
structure DetectPacket extends DrivePacket where
  fPacketMime : Bytes kDriveNameLen
  fPacketGood : Bool
  fPacketReadOnly : Bool

/-- The functions that a drive may point to. -/
inductive DriveFunction where
  | unimplemented
  | input
  | output
  | init
  deriving DecidableEq, Repr

structure DriveTrait where
  fName : Bytes kDriveNameLen
  fKind : Int32
  fPacket : DetectPacket
  fInput : DriveFunction
  fOutput : DriveFunction
  fVerify : DriveFunction
  fInit : DriveFunction

/-- The drive, the memory, and the static data of the drive manager and of its driver. -/
structure DriveMgr where
  drive : AtaDrive
  kATAData : Nat → Int8
  memory : Store

/-- The drive answers on the first bus, where the search ends. -/
def ioDrvInit (mgr : DriveMgr) (pckt : DetectPacket) : DriveMgr × DetectPacket :=
  let init := ATA.drvStdInit mgr.drive.device ataPrimaryIO mgr.kATAData
  ({ mgr with
      drive := { device := init.device, kATAIO := init.outBus, kATAMaster := init.outMaster }
      kATAData := init.kATAData },
    { pckt with fPacketGood := true })

def DriveFunction.call (mgr : DriveMgr) (pckt : DetectPacket) :
    DriveFunction → DriveMgr × DetectPacket
  | .unimplemented => (mgr, pckt)
  | .input =>
    let (drive, memory) := ioDrvInput ataPio mgr.drive mgr.memory (some pckt.toDrivePacket)
    ({ mgr with drive, memory }, pckt)
  | .output =>
    let (drive, memory) := ioDrvOutput ataPio mgr.drive mgr.memory (some pckt.toDrivePacket)
    ({ mgr with drive, memory }, pckt)
  | .init => ioDrvInit mgr pckt

/-- `rt_copy_memory` of a literal without its terminator. -/
def copyLiteral (field : Bytes kDriveNameLen) (text : List UInt8) : Bytes kDriveNameLen :=
  fun i => if i.val < rtStringLen text then text.getD i 0 else field i

/-- The first sector into the static block of the search, which lies at `blockStruct`. -/
def detectInput (mgr : DriveMgr) (blockStruct : UInt64) (trait : DriveTrait) :
    DriveMgr × DetectPacket :=
  let pckt : DetectPacket :=
    { trait.fPacket with
      fPacketLba := kEPMBaseLba
      fPacketSize := 512
      fPacketContent := blockStruct
      fPacketMime := copyLiteral trait.fPacket.fPacketMime kDetectMime }
  let ready := trait.fInit.call mgr pckt
  trait.fInput.call ready.1 ready.2

def ioiDetectDrive (mgr : DriveMgr) (blockStruct : UInt64) (trait : DriveTrait) :
    DriveMgr × DriveTrait :=
  let (mgr, pckt) := detectInput mgr blockStruct trait
  let magic := (mgr.memory.get bootBlockLayout pckt.fPacketContent.toNat).magic
  let epm := rtStringCmp (List.ofFn magic) kEPMMagic kEPMMagicLength = 0
  (mgr, { trait with
    fKind := if epm then kMassStorageDisc ||| kEPMDrive
      else kMassStorageDisc ||| kUnformattedDrive ||| kReadOnlyDrive
    fPacket := { pckt with
      fPacketReadOnly := ¬ epm
      fPacketMime := copyLiteral pckt.fPacketMime kAnyMime
      fPacketLba := 0
      fPacketSize := 0
      fPacketContent := 0 } })

/-- The packet of a drive that was just made. -/
def DetectPacket.blank : DetectPacket where
  fPacketContent := 0
  fPacketSize := 0
  fPacketLba := 0
  fPacketMime := copyLiteral (fun _ => 0) kAnyMime
  fPacketGood := true
  fPacketReadOnly := false

/-- `old` is what the memory of the drive held before. -/
def ioConstructMainDrive (mgr : DriveMgr) (blockStruct : UInt64) (old : DriveTrait) :
    DriveMgr × DriveTrait :=
  ioiDetectDrive mgr blockStruct
    { old with
      fName := copyLiteral old.fName kMainDriveName
      fPacket := .blank
      fVerify := .unimplemented
      fOutput := .output
      fInput := .input
      fInit := .init }

/-! ## What the kernel finds -/

section Detect

variable (mgr : DriveMgr) (blockStruct : UInt64) (old : DriveTrait)

theorem ioDrvInit_recordAt (pckt : DetectPacket) (lba : UInt64) :
    (ioDrvInit mgr pckt).1.drive.device.recordAt lba = mgr.drive.device.recordAt lba := by
  simp only [ioDrvInit, ATA.drvStdInit]
  exact AtaDevice.recordAt_eq (ataInit_disk ..) lba

/-- A sector that is asked for arrives at the place of the packet. -/
theorem input_call (pckt : DetectPacket) (hsize : pckt.fPacketSize = 512) :
    (DriveFunction.input.call mgr pckt).1.memory =
        mgr.memory.write pckt.fPacketContent.toNat
          (mgr.drive.device.recordAt pckt.fPacketLba) ∧
      (∀ lba, (DriveFunction.input.call mgr pckt).1.drive.device.recordAt lba =
        mgr.drive.device.recordAt lba) ∧
      (DriveFunction.input.call mgr pckt).2 = pckt := by
  simp only [DriveFunction.call, ioDrvInput, ataPio, hsize]
  refine ⟨drvStdRead_memory .., fun lba => ?_, trivial⟩
  exact recordAt_read ..

theorem detectInput_spec {trait : DriveTrait} (hinit : trait.fInit = .init)
    (hinput : trait.fInput = .input) :
    (detectInput mgr blockStruct trait).1.memory =
        mgr.memory.write blockStruct.toNat (mgr.drive.device.recordAt kEPMBaseLba) ∧
      (∀ lba, (detectInput mgr blockStruct trait).1.drive.device.recordAt lba =
        mgr.drive.device.recordAt lba) ∧
      (detectInput mgr blockStruct trait).2.fPacketContent = blockStruct := by
  unfold detectInput
  rw [hinit, hinput]
  generalize hpckt : ({ trait.fPacket with
      fPacketLba := kEPMBaseLba
      fPacketSize := 512
      fPacketContent := blockStruct
      fPacketMime := copyLiteral trait.fPacket.fPacketMime kDetectMime } : DetectPacket) = pckt
  have hlba : (ioDrvInit mgr pckt).2.fPacketLba = kEPMBaseLba := by rw [← hpckt]; rfl
  have hcontent : (ioDrvInit mgr pckt).2.fPacketContent = blockStruct := by rw [← hpckt]; rfl
  have hsize : (ioDrvInit mgr pckt).2.fPacketSize = 512 := by rw [← hpckt]; rfl
  have hkept : (ioDrvInit mgr pckt).1.memory = mgr.memory := by simp only [ioDrvInit]
  have hcall : DriveFunction.init.call mgr pckt = ioDrvInit mgr pckt := rfl
  simp only [hcall]
  obtain ⟨hmemory, hrecord, hsame⟩ := input_call (ioDrvInit mgr pckt).1 _ hsize
  refine ⟨?_, ?_, ?_⟩
  · rw [hmemory, hlba, hcontent, ioDrvInit_recordAt, hkept]
  · intro lba
    rw [hrecord, ioDrvInit_recordAt]
  · rw [hsame, hcontent]

/-- What the search makes of the block that it has read. -/
theorem ioConstructMainDrive_spec :
    let found := ioConstructMainDrive mgr blockStruct old
    found.1.memory = mgr.memory.write blockStruct.toNat
        (mgr.drive.device.recordAt kEPMBaseLba) ∧
      (∀ lba, found.1.drive.device.recordAt lba = mgr.drive.device.recordAt lba) ∧
      (found.2.fPacket.fPacketReadOnly = true ↔ ¬ ∀ i < kEPMMagicLength,
        mgr.drive.device.disk (2 * i) = kEPMMagic.getD i 0) ∧
      found.2.fKind = if found.2.fPacket.fPacketReadOnly
        then kMassStorageDisc ||| kUnformattedDrive ||| kReadOnlyDrive
        else kMassStorageDisc ||| kEPMDrive := by
  unfold ioConstructMainDrive
  generalize htrait : ({ old with
      fName := copyLiteral old.fName kMainDriveName
      fPacket := .blank
      fVerify := .unimplemented
      fOutput := .output
      fInput := .input
      fInit := .init } : DriveTrait) = trait
  have hinit : trait.fInit = .init := by rw [← htrait]
  have hinput : trait.fInput = .input := by rw [← htrait]
  obtain ⟨hmemory, hrecord, hcontent⟩ := detectInput_spec mgr blockStruct hinit hinput
  have hmagic : ∀ i : Fin 5, ((detectInput mgr blockStruct trait).1.memory.get bootBlockLayout
      (detectInput mgr blockStruct trait).2.fPacketContent.toNat).magic i =
        mgr.drive.device.disk (2 * i) := by
    intro i
    have hplace : blockStruct.toNat + i.val = blockStruct.toNat + (⟨i, by omega⟩ : Fin 512).val :=
      rfl
    rw [get_bootBlock_magic, hcontent, hmemory, hplace, Store.write_inside, AtaDevice.recordAt]
    have hbase : ataAddress kEPMBaseLba kATASectorSize = 0 := by decide
    rw [hbase, Nat.zero_add]
  have hcmp : rtStringCmp (List.ofFn ((detectInput mgr blockStruct trait).1.memory.get
      bootBlockLayout (detectInput mgr blockStruct trait).2.fPacketContent.toNat).magic)
        kEPMMagic kEPMMagicLength = 0 ↔
      ∀ i < kEPMMagicLength, mgr.drive.device.disk (2 * i) = kEPMMagic.getD i 0 := by
    rw [rtStringCmp_eq_zero_iff]
    refine forall₂_congr fun i hi => ?_
    rw [List.getD_eq_getElem _ _ (by rwa [List.length_ofFn]), List.getElem_ofFn, hmagic ⟨i, hi⟩]
  refine ⟨hmemory, hrecord, ?_, ?_⟩
  · simp only [ioiDetectDrive, decide_eq_true_eq, hcmp]
  · simp only [ioiDetectDrive, decide_eq_true_eq, hcmp]
    split_ifs <;> rfl

/-- The bytes that the driver moves first are those of the magic. -/
def SpellsMagic (dev : HALKit.AtaDevice) : Prop :=
  ∀ i < kEPMMagicLength, dev.disk (2 * i) = kEPMMagic.getD i 0

end Detect

/-- The kernel takes a drive that the boot loader has formatted for a map of partitions that can be
written, and reads back the blocks that were written to it. -/
theorem formatted_drive_found {width : Nat} (hw : 0 < width) {kATADetected : Bool}
    {device : AtaDevice} {kATAData : Nat → UInt16} {lit : FormatLiterals}
    {frame : BootDeviceATA.Frame} {partName : CString} {blob : BFileDescriptor}
    {more : List BFileDescriptor} {boot : BootDeviceATA}
    (h : (BootDeviceATA.construct kATADetected device kATAData).format width lit frame partName
      (blob :: more) = .done (true, boot))
    {mgr : DriveMgr} (hdrive : mgr.drive.device = boot.device) (blockStruct : UInt64)
    (old : DriveTrait) :
    let partBlock := formatBlock width (BootDeviceATA.construct kATADetected device kATAData).sizes
      lit partName (UInt64.ofNat (blob :: more).length)
    let found := ioConstructMainDrive mgr blockStruct old
    found.2.fKind = kMassStorageDisc ||| kEPMDrive ∧
      found.2.fPacket.fPacketReadOnly = false ∧
      found.1.memory.get bootBlockLayout blockStruct.toNat = formatEpm width lit partBlock ∧
      ∀ pckt : DetectPacket, pckt.fPacketSize = 512 →
        let memory := (found.2.fInput.call found.1 pckt).1.memory
        (pckt.fPacketLba = kNeFSRootCatalogStartAddress →
          memory.get partLayout pckt.fPacketContent.toNat = partBlock) ∧
        (pckt.fPacketLba = kNeFSCatalogStartAddress →
          memory.get catalogLayout pckt.fPacketContent.toNat =
            formatCatalog width blob kNeFSCatalogStartAddress) := by
  obtain ⟨hepm, hpart, hcatalog⟩ := BootDeviceATA.format_formatted rfl h
  obtain ⟨hmemory, hrecord, hreadOnly, hkind⟩ := ioConstructMainDrive_spec mgr blockStruct old
  have hinput : (ioConstructMainDrive mgr blockStruct old).2.fInput = .input := by
    simp only [ioConstructMainDrive, ioiDetectDrive]
  dsimp only
  generalize ioConstructMainDrive mgr blockStruct old = found at *
  rw [hdrive] at hmemory hrecord hreadOnly
  have hmagic : ∀ i < kEPMMagicLength, boot.device.disk (2 * i) = kEPMMagic.getD i 0 := by
    intro i hi
    have hbyte := congrFun hepm ⟨i, Nat.lt_trans hi (by decide)⟩
    have hbase : ataAddress kEPMBaseLba kATASectorSize = 0 := by decide
    rw [BootDeviceATA.formatEpm_magic hw lit _ hi, AtaDevice.recordAt, hbase, Nat.zero_add] at hbyte
    exact hbyte
  have hwritable : found.2.fPacket.fPacketReadOnly = false := by
    rw [← Bool.not_eq_true]
    exact fun hread => hreadOnly.mp hread hmagic
  refine ⟨?_, hwritable, ?_, fun pckt hsize => ?_⟩
  · rw [hkind, hwritable, if_neg Bool.false_ne_true]
  · rw [Store.get, hmemory, Store.read_write_same, hepm, Equiv.symm_apply_apply]
  · obtain ⟨hread, -, -⟩ := input_call found.1 pckt hsize
    rw [hinput, hread]
    constructor
    · intro hlba
      rw [hlba, hrecord, hpart, Store.get, Store.read_write_same, Equiv.symm_apply_apply]
    · intro hlba
      rw [hlba, hrecord, hcatalog, Store.get, Store.read_write_same, Equiv.symm_apply_apply]

/-- A drive of 0x800000 sectors, and a kernel on it whose memory is empty. -/
theorem formatted_drive_found_blank : ∃ boot,
    (BootDeviceATA.construct true blankDevice fun i => if i = 61 then 0x80 else 0).format 4
      bootLiterals ⟨fun _ => 0, 0x1000, 0x2000, 0x3000⟩ (.literal kPartName (by decide))
      [bootRoot] = .done (true, boot) ∧
    (ioConstructMainDrive ⟨⟨boot.device, 0, 0⟩, fun _ => 0, fun _ => 0⟩ 0x4000
      ⟨fun _ => 0, 0, .blank, .init, .init, .init, .init⟩).2.fKind =
        kMassStorageDisc ||| kEPMDrive := by
  have hformat : ∃ boot,
      (BootDeviceATA.construct true blankDevice fun i => if i = 61 then 0x80 else 0).format 4
        bootLiterals ⟨fun _ => 0, 0x1000, 0x2000, 0x3000⟩ (.literal kPartName (by decide))
        [bootRoot] = .done (true, boot) := by
    have hsize : ¬ (BootDeviceATA.construct true blankDevice
        fun i => if i = 61 then 0x80 else 0).sizes.diskSize < kNeFSMinimumDiskSize := by decide
    rw [BootDeviceATA.format, if_neg hsize, if_neg (by decide)]
    exact ⟨_, rfl⟩
  obtain ⟨boot, h⟩ := hformat
  exact ⟨boot, h, (formatted_drive_found (by decide) h rfl 0x4000 _).1⟩

end Zka.KernelKit
