import Zka.KernelKit.DriveDetect

/-!
# Starting the machine

Before it loads the kernel the boot loader checks the partition on the drive.  A drive that it does
not take for its own is formatted, and the machine is reset.
-/

namespace Zka.BootKit

open FSKit HALKit Outcome

/-! ## The check -/

/-- What `IsPartitionValid` finds in the block that it has read. -/
def checkPartition (lit : FormatLiterals) (diskSize : FSKit.SizeT)
    (blockPart : NfsRootPartitionBlock) : Bool :=
  if ∃ indexMag : Fin kNeFSIdentLen, blockPart.ident indexMag ≠ lit.ident.byte indexMag then false
  else if blockPart.diskSize ≠ diskSize ∨ blockPart.diskSize < 1 ∨
      blockPart.sectorSize ≠ kSectorSize ∨ blockPart.version ≠ kNeFSVersionInteger ∨
      blockPart.startCatalog = 0 then false
  else if blockPart.Unnamed then false
  else true

theorem isPartitionValid_eq (dev : BootDevice) (lit : FormatLiterals) (d : Drive) :
    isPartitionValid dev lit d = checkPartition lit dev.diskSize d.part := rfl

/-- A block that passes the check. -/
structure Healthy (lit : FormatLiterals) (diskSize : FSKit.SizeT) (b : NfsRootPartitionBlock) :
    Prop where
  ident : ∀ i : Fin kNeFSIdentLen, b.ident i = lit.ident.byte i
  size : b.diskSize = diskSize
  sized : 1 ≤ diskSize
  sectorSize : b.sectorSize = kSectorSize
  version : b.version = kNeFSVersionInteger
  startCatalog : b.startCatalog ≠ 0
  named : ¬ b.Unnamed

theorem checkPartition_iff {lit : FormatLiterals} {diskSize : FSKit.SizeT}
    {b : NfsRootPartitionBlock} :
    checkPartition lit diskSize b = true ↔ Healthy lit diskSize b := by
  unfold checkPartition
  constructor
  · intro h
    split_ifs at h with hident hfields hname
    simp only [not_exists, not_not] at hident
    simp only [not_or, not_not, UInt64.not_lt] at hfields
    obtain ⟨hdisk, hsized, hsector, hversion, hstart⟩ := hfields
    exact ⟨hident, hdisk, hdisk ▸ hsized, hsector, hversion, hstart, hname⟩
  · intro h
    have hident : ¬ ∃ i : Fin kNeFSIdentLen, b.ident i ≠ lit.ident.byte i := by
      rintro ⟨i, hi⟩
      exact hi (h.ident i)
    rw [if_neg hident, if_neg, if_neg h.named]
    simp only [not_or, not_not, UInt64.not_lt]
    exact ⟨h.size, h.size ▸ h.sized, h.sectorSize, h.version, h.startCatalog⟩

namespace BootDeviceATA

def read (dev : BootDeviceATA) (m : Store) (buf : Option UInt64) (sectorSz : FSKit.SizeT) :
    BootDeviceATA × Store :=
  if dev.kATADetected then
    match buf with
    | none => ({ dev with mErr := false }, m)
    | some buf =>
      if sectorSz < 1 then ({ dev with mErr := false }, m)
      else
        let (device, m) := ATA.drvStdRead dev.device m dev.mBase dev.mBus dev.mMaster buf sectorSz
          dev.mSize
        ({ dev with mErr := false, device }, m)
  else ({ dev with mErr := true }, m)

/-- `IsPartitionValid` on this device, with its buffer at `buf`. -/
def isPartitionValid (dev : BootDeviceATA) (lit : FormatLiterals) (m : Store) (buf : UInt64) :
    Bool × BootDeviceATA :=
  let dev := { dev with mBase := kNeFSRootCatalogStartAddress, mSize := kSectorSize }
  let m := m.write buf.toNat (fun _ : Fin 512 => 0)
  let (dev, m) := dev.read m (some buf) kSectorSize
  (checkPartition lit dev.sizes.diskSize (m.get partLayout buf.toNat), dev)

end BootDeviceATA

/-! ## One start -/

/-- The literals of the formatter, with the name that `Main` gives to the partition. -/
structure MainLiterals extends FormatLiterals where
  partName : CString
  partName_eq : partName.text = kPartName

theorem zero_notMem_kNeFSRoot : 0 ∉ kNeFSRoot := by
  decide

/-- `root` of `Main`, whose name is set only up to its end. -/
def mainRoot (behind : Nat → UInt8) : BFileDescriptor :=
  ⟨⟨kNeFSRoot, zero_notMem_kNeFSRoot, behind⟩, kNeFSCatalogKindDir⟩

/-- The memory of one start: where the objects of the formatter and the buffer of the check lie, and
what stands behind the name of `root`. -/
structure MainFrame extends BootDeviceATA.Frame where
  buf : UInt64
  behind : Nat → UInt8

/-- What becomes of the machine; between two starts there is work. -/
inductive BootEvent where
  | starts
  | resets
  | works
  deriving DecidableEq

/-- `Main` as far as the partition goes; the static data of the driver is not set at first. -/
def bootMain (lit : MainLiterals) (frame : MainFrame) (device : AtaDevice) :
    Outcome CFault (BootEvent × AtaDevice) :=
  let partitionFactory := BootDeviceATA.construct false device fun _ => 0
  let (valid, dev) := partitionFactory.isPartitionValid lit.toFormatLiterals frame.memory frame.buf
  if valid then .done (.starts, dev.device)
  else dev.format 4 lit.toFormatLiterals frame.toFrame lit.partName [mainRoot frame.behind] >>=
    fun r => .done (.resets, r.2.device)

/-- The block that the loader finds on a disk. -/
def partOf (disk : Store) : NfsRootPartitionBlock :=
  partLayout.symm fun i => disk (ataAddress kNeFSRootCatalogStartAddress kATASectorSize + 2 * i)

def HealthyDisk (lit : MainLiterals) (identity : Nat → UInt16) (disk : Store) : Prop :=
  Healthy lit.toFormatLiterals (getDiskSize identity) (partOf disk)

/-- A start from any state of the registers and of the memory, or work that leaves a healthy
partition healthy. -/
inductive BootStep (lit : MainLiterals) (identity : Nat → UInt16) :
    Store → BootEvent → Store → Prop
  | main {device device' : AtaDevice} {frame : MainFrame} {e : BootEvent}
      (hid : device.identity = identity)
      (h : bootMain lit frame device = .done (e, device')) :
      BootStep lit identity device.disk e device'.disk
  | work {disk disk' : Store}
      (h : HealthyDisk lit identity disk → HealthyDisk lit identity disk') :
      BootStep lit identity disk .works disk'

section Start

variable {device : AtaDevice}

theorem construct_init (kATAData : Nat → UInt16) :
    let init := ataInit id device ataPrimaryIO kATAData
    (BootDeviceATA.construct false device kATAData).device = init.device ∧
      (BootDeviceATA.construct false device kATAData).kATAData = init.kATAData := by
  simp only [BootDeviceATA.construct, bootAtaInit, Bool.false_eq_true, if_false, and_self]

theorem construct_disk (kATAData : Nat → UInt16) :
    (BootDeviceATA.construct false device kATAData).device.disk = device.disk := by
  rw [(construct_init kATAData).1]
  exact ataInit_disk id device ataPrimaryIO kATAData

theorem construct_diskSize (kATAData : Nat → UInt16) :
    (BootDeviceATA.construct false device kATAData).sizes.diskSize =
      getDiskSize device.identity := by
  simp only [BootDeviceATA.sizes, getDiskSize, getSectorsCount]
  rw [(construct_init kATAData).2, ataInit_data id device ataPrimaryIO kATAData (by decide),
    ataInit_data id device ataPrimaryIO kATAData (by decide)]
  rfl

/-- The check looks at the block on the disk, whatever it finds in its buffer, and only reads. -/
theorem isPartitionValid_disk {dev : BootDeviceATA} (hdetected : dev.kATADetected = true)
    (lit : FormatLiterals) (m : Store) (buf : UInt64) :
    ((dev.isPartitionValid lit m buf).1 = true ↔
        Healthy lit dev.sizes.diskSize (partOf dev.device.disk)) ∧
      (dev.isPartitionValid lit m buf).2.device.disk = dev.device.disk ∧
      (dev.isPartitionValid lit m buf).2.kATADetected = true ∧
      (dev.isPartitionValid lit m buf).2.sizes.diskSize = dev.sizes.diskSize := by
  have hsector : ¬ kSectorSize < 1 := by decide
  have hread := drvStdRead_record dev.device (m.write buf.toNat fun _ : Fin 512 => 0)
    kNeFSRootCatalogStartAddress dev.mBus dev.mMaster buf
  have hdisk := ATA.drvStdRead_disk dev.device (m.write buf.toNat fun _ : Fin 512 => 0) buf
    kNeFSRootCatalogStartAddress dev.mBus dev.mMaster kATASectorSize 512
  have hsize : kATASectorSize = kSectorSize := rfl
  have hsize' : (512 : UInt64) = kSectorSize := rfl
  rw [hsize, hsize'] at hread hdisk
  simp only [BootDeviceATA.isPartitionValid, BootDeviceATA.read, hdetected, if_true,
    if_neg hsector, BootDeviceATA.sizes]
  rw [checkPartition_iff, Store.get, hread]
  exact ⟨Iff.rfl, hdisk, trivial, trivial⟩

/-- The copy moves more bytes than the identifier has, the last one that is compared among them. -/
theorem formatBlock_healthy {dev : BootDevice} (lit : MainLiterals) (blobCount : FSKit.SizeT)
    (hsize : kNeFSMinimumDiskSize ≤ dev.diskSize) :
    Healthy lit.toFormatLiterals dev.diskSize
      (formatBlock 4 dev lit.toFormatLiterals lit.partName blobCount) := by
  have hlen : 4 * (kNeFSIdentLen - 1) = 28 := rfl
  have hname : lit.partName.strlen = 15 := by rw [CString.strlen, lit.partName_eq]; rfl
  constructor
  · intro i
    rw [formatBlock, partLayout_symm_ident, copyMem, FSKit.rtCopyMemory,
      if_neg (by dsimp only; omega), copyMem, FSKit.rtCopyMemory, hlen,
      if_pos (by dsimp only; omega)]
    rfl
  · rfl
  · exact UInt64.le_trans (by decide) hsize
  · rfl
  · rfl
  · change ¬ kNeFSCatalogStartAddress = 0
    decide
  · rw [NfsRootPartitionBlock.Unnamed, formatBlock, partLayout_symm_name, copyMem,
      FSKit.rtCopyMemory, hname, if_pos (by decide), CString.byte, lit.partName_eq,
      if_pos (by decide)]
    decide

theorem format_healthy (lit : MainLiterals) (frame : MainFrame) {dev : BootDeviceATA}
    (hdetected : dev.kATADetected = true)
    (hsize : kNeFSMinimumDiskSize ≤ dev.sizes.diskSize) :
    ∃ dev', dev.format 4 lit.toFormatLiterals frame.toFrame lit.partName [mainRoot frame.behind] =
        .done (true, dev') ∧
      Healthy lit.toFormatLiterals dev.sizes.diskSize (partOf dev'.device.disk) := by
  have hname : lit.partName.strlen = 15 := by rw [CString.strlen, lit.partName_eq]; rfl
  have hroot : (mainRoot frame.behind).fFileName.strlen = 1 := rfl
  have hformat : ∃ dev', dev.format 4 lit.toFormatLiterals frame.toFrame lit.partName
      [mainRoot frame.behind] = .done (true, dev') := by
    rw [BootDeviceATA.format, if_neg (UInt64.not_lt.mpr hsize),
      if_neg (by rw [hname, hroot]; decide)]
    exact ⟨_, rfl⟩
  obtain ⟨dev', h⟩ := hformat
  refine ⟨dev', h, ?_⟩
  have hpart := (BootDeviceATA.format_formatted hdetected h).part
  have hblock : partOf dev'.device.disk =
      partLayout.symm (dev'.device.recordAt kNeFSRootCatalogStartAddress) := rfl
  rw [hblock, hpart, Equiv.symm_apply_apply]
  exact formatBlock_healthy lit _ hsize

end Start

/-- What one start does with a disk, whatever the registers of the drive and the memory hold: it
loads the kernel from a healthy one and leaves it as it is, it makes another one healthy if it is
large enough, and stops on a small one. -/
theorem bootMain_healthy (lit : MainLiterals) (frame : MainFrame) (device : AtaDevice) :
    (HealthyDisk lit device.identity device.disk →
        ∃ device', bootMain lit frame device = .done (.starts, device') ∧
          device'.disk = device.disk) ∧
      (¬ HealthyDisk lit device.identity device.disk →
        kNeFSMinimumDiskSize ≤ getDiskSize device.identity →
          ∃ device', bootMain lit frame device = .done (.resets, device') ∧
            HealthyDisk lit device.identity device'.disk) ∧
      (¬ HealthyDisk lit device.identity device.disk →
        getDiskSize device.identity < kNeFSMinimumDiskSize →
          bootMain lit frame device = efiThrowError) := by
  have hdetected : (BootDeviceATA.construct false device fun _ => 0).kATADetected = true := rfl
  obtain ⟨hvalid, hdisk, hstill, hsame⟩ := isPartitionValid_disk hdetected lit.toFormatLiterals
    frame.memory frame.buf
  rw [construct_disk, construct_diskSize] at hvalid
  rw [construct_disk] at hdisk
  rw [construct_diskSize] at hsame
  unfold bootMain
  dsimp only
  generalize (BootDeviceATA.construct false device fun _ => 0).isPartitionValid
    lit.toFormatLiterals frame.memory frame.buf = checked at *
  refine ⟨fun h => ?_, fun h hlarge => ?_, fun h hsmall => ?_⟩
  · rw [if_pos (hvalid.mpr h)]
    exact ⟨_, rfl, hdisk⟩
  · rw [if_neg (mt hvalid.mp h)]
    obtain ⟨dev', hformat, hhealthy⟩ := format_healthy lit frame hstill
      (hsame.symm ▸ hlarge)
    rw [hformat, done_bind]
    refine ⟨_, rfl, ?_⟩
    rw [hsame] at hhealthy
    exact hhealthy
  · rw [if_neg (mt hvalid.mp h), BootDeviceATA.format, if_pos (by rwa [hsame])]
    rfl

/-! ## All starts of a machine -/

section Run

variable {lit : MainLiterals} {identity : Nat → UInt16} {disk disk' : Store}

/-- A start leaves a healthy disk, and resets the machine only where it did not find one. -/
theorem BootStep.healthy {e : BootEvent} (h : BootStep lit identity disk e disk') :
    (HealthyDisk lit identity disk → HealthyDisk lit identity disk' ∧ e ≠ .resets) ∧
      (e ≠ .works → HealthyDisk lit identity disk') := by
  cases h with
  | work h => exact ⟨fun hdisk => ⟨h hdisk, nofun⟩, fun hne => absurd rfl hne⟩
  | @main device device' frame e hid h =>
    obtain ⟨hstarts, hresets, hstops⟩ := bootMain_healthy lit frame device
    rw [hid] at hstarts hresets hstops
    by_cases hdisk : HealthyDisk lit identity device.disk
    · obtain ⟨device₁, h₁, hsame⟩ := hstarts hdisk
      cases h.symm.trans h₁
      rw [hsame]
      exact ⟨fun _ => ⟨hdisk, nofun⟩, fun _ => hdisk⟩
    · refine ⟨fun hno => absurd hno hdisk, fun _ => ?_⟩
      by_cases hsize : kNeFSMinimumDiskSize ≤ getDiskSize identity
      · obtain ⟨device₁, h₁, hhealthy⟩ := hresets hdisk hsize
        cases h.symm.trans h₁
        exact hhealthy
      · exact absurd (h.symm.trans (hstops hdisk (UInt64.not_le.mp hsize))) nofun

/-- However often a machine is started, the loader formats its drive at most once, and never after a
start that went through.  On a drive that is large enough the second start at the latest loads the
kernel, and a start that loads it leaves the drive as it was. -/
theorem loader_formats_once {events : List BootEvent}
    (h : Trace (BootStep lit identity) disk events disk') :
    (∀ past more, events = past ++ .resets :: more → ∀ e ∈ past, e = .works) ∧
      ((∃ e ∈ events, e ≠ .works) → HealthyDisk lit identity disk') ∧
      (kNeFSMinimumDiskSize ≤ getDiskSize identity → ∀ frame device,
        device.identity = identity → device.disk = disk' →
          (HealthyDisk lit identity disk' ∧ ∃ device', bootMain lit frame device =
            .done (.starts, device') ∧ device'.disk = disk') ∨
          (¬ HealthyDisk lit identity disk' ∧ ∃ device', bootMain lit frame device =
            .done (.resets, device') ∧ HealthyDisk lit identity device'.disk)) := by
  have hkept : ∀ {disk disk' : Store} {events : List BootEvent},
      Trace (BootStep lit identity) disk events disk' → (∃ e ∈ events, e ≠ .works) →
        HealthyDisk lit identity disk' := by
    intro disk disk' events h
    refine h.history (fun past d => (∃ e ∈ past, e ≠ .works) → HealthyDisk lit identity d) ?_ nofun
    rintro past d e d' hd hstep ⟨x, hx, hne⟩
    rcases List.mem_append.mp hx with hpast | hlast
    · exact (hstep.healthy.1 (hd ⟨x, hpast, hne⟩)).1
    · rw [List.mem_singleton.mp hlast] at hne
      exact hstep.healthy.2 hne
  refine ⟨?_, hkept h, ?_⟩
  · intro past more hevents e he
    by_contra hne
    rw [hevents, Trace.append_iff] at h
    obtain ⟨d, hpast, hrest⟩ := h
    cases hrest with
    | cons hstep _ => exact (hstep.healthy.1 (hkept hpast ⟨e, he, hne⟩)).2 rfl
  · intro hsize frame device hid hdisk
    obtain ⟨hstarts, hresets, -⟩ := bootMain_healthy lit frame device
    rw [hid, hdisk] at hstarts hresets
    by_cases hhealthy : HealthyDisk lit identity disk'
    · exact .inl ⟨hhealthy, hstarts hhealthy⟩
    · exact .inr ⟨hhealthy, hresets hhealthy hsize⟩

end Run

theorem zero_notMem_kPartName : 0 ∉ kPartName := by
  decide

def mainLiterals : MainLiterals where
  toFormatLiterals := bootLiterals
  partName := .literal kPartName zero_notMem_kPartName
  partName_eq := rfl

/-- The drive of four gigabytes, of which word 61 alone is not zero. -/
def blankIdentity : Nat → UInt16 := fun i => if i = 61 then 0x80 else 0

def sampleFrame : MainFrame := ⟨⟨fun _ => 0, 0x1000, 0x2000, 0x3000⟩, 0x4000, fun _ => 0⟩

/-- A machine with a blank drive is reset once, and then it starts. -/
theorem loader_formats_once_blank : ∃ disk,
    Trace (BootStep mainLiterals blankIdentity) (fun _ => 0) [.resets, .starts] disk ∧
      HealthyDisk mainLiterals blankIdentity disk := by
  have hblank : ¬ HealthyDisk mainLiterals blankIdentity fun _ => 0 :=
    fun h => h.named (partLayout_symm_name _ 0)
  have hstart : ∀ (device device' : AtaDevice) (e : BootEvent),
      bootMain mainLiterals sampleFrame { device with identity := blankIdentity } =
        .done (e, device') →
      BootStep mainLiterals blankIdentity device.disk e device'.disk := by
    intro device device' e h
    exact @BootStep.main _ _ { device with identity := blankIdentity } _ _ _ rfl h
  obtain ⟨device₁, hfirst, hhealthy⟩ := (bootMain_healthy mainLiterals sampleFrame
    { blankDevice with identity := blankIdentity }).2.1 hblank (by decide)
  obtain ⟨device₂, hsecond, -⟩ := (bootMain_healthy mainLiterals sampleFrame
    { device₁ with identity := blankIdentity }).1 hhealthy
  have htrace : Trace (BootStep mainLiterals blankIdentity) (fun _ => 0) [.resets, .starts]
      device₂.disk :=
    .cons (hstart blankDevice device₁ .resets hfirst)
      (.cons (hstart device₁ device₂ .starts hsecond) (.nil _))
  exact ⟨_, htrace, (loader_formats_once htrace).2.1 ⟨.resets, List.mem_cons_self, nofun⟩⟩

end Zka.BootKit
