import Zka.FSKit.NeFS
import Zka.HALKit.AHCI
import Zka.HALKit.ATA

/-!
# Drive packets

`io_drv_input` and `io_drv_output` over the driver that the kernel was built
with.  A packet gives its address in bytes; the ATA driver turns it into a sector
number, the AHCI driver takes it for one.
-/

namespace Zka.KernelKit

open FSKit HALKit

/-- The fields of `DriveTrait::DrivePacket` that the drivers are given. -/
structure DrivePacket where
  fPacketContent : UInt64
  fPacketSize : UInt64
  fPacketLba : UInt64
  deriving DecidableEq, Repr

structure DriveBackEnd (σ : Type) where
  disk : σ → Store
  sectorSize : UInt64
  drvStdRead : σ → Store → (lba buffer sectorSz size : UInt64) → σ × Store
  drvStdWrite : σ → Store → (lba buffer sectorSz size : UInt64) → σ

/-- The drive that `io_drv_init` has found, with `kATAIO` and `kATAMaster`. -/
structure AtaDrive where
  device : AtaDevice
  kATAIO : UInt16
  kATAMaster : UInt8

def ataPio : DriveBackEnd AtaDrive where
  disk drv := drv.device.disk
  sectorSize := kATASectorSize
  drvStdRead drv m lba buffer sectorSz size :=
    let (device, m) :=
      ATA.drvStdRead drv.device m lba drv.kATAIO drv.kATAMaster buffer sectorSz size
    ({ drv with device }, m)
  drvStdWrite drv m lba buffer sectorSz size :=
    { drv with
      device := ATA.drvStdWrite drv.device m lba drv.kATAIO drv.kATAMaster buffer sectorSz size }

def ahci : DriveBackEnd HbaPort where
  disk port := port.disk
  sectorSize := kAHCISectorSize
  drvStdRead := AHCI.drvStdRead
  drvStdWrite := AHCI.drvStdWrite

variable {σ : Type}

def ioDrvInput (be : DriveBackEnd σ) (drive : σ) (m : Store) (pckt : Option DrivePacket) :
    σ × Store :=
  match pckt with
  | none => (drive, m)
  | some pckt => be.drvStdRead drive m pckt.fPacketLba pckt.fPacketContent be.sectorSize
      pckt.fPacketSize

def ioDrvOutput (be : DriveBackEnd σ) (drive : σ) (m : Store) (pckt : Option DrivePacket) :
    σ × Store :=
  match pckt with
  | none => (drive, m)
  | some pckt => (be.drvStdWrite drive m pckt.fPacketLba pckt.fPacketContent be.sectorSize
      pckt.fPacketSize, m)

/-! ## The effect of a packet -/

inductive Direction where
  | input
  | output
  deriving DecidableEq, Repr

/-- The disk and the memory after a packet. -/
def transferred (be : DriveBackEnd σ) (drive : σ) (m : Store) (pckt : DrivePacket) :
    Direction → Store × Store
  | .input =>
    let (drive, m) := ioDrvInput be drive m (some pckt)
    (be.disk drive, m)
  | .output =>
    let (drive, m) := ioDrvOutput be drive m (some pckt)
    (be.disk drive, m)

/-- What a packet asks for: its bytes, and no others, in the direction of the call. -/
def idealTransfer (disk m : Store) (pckt : DrivePacket) : Direction → Store × Store
  | .input => (disk, m.write pckt.fPacketContent.toNat
      (disk.read pckt.fPacketLba.toNat pckt.fPacketSize.toNat))
  | .output => (disk.write pckt.fPacketLba.toNat
      (m.read pckt.fPacketContent.toNat pckt.fPacketSize.toNat), m)

/-- The driver does what the packet asks for, on every disk and memory. -/
def DriveBackEnd.Faithful (be : DriveBackEnd σ) (pckt : DrivePacket) (dir : Direction) : Prop :=
  ∀ drive m, transferred be drive m pckt dir = idealTransfer (be.disk drive) m pckt dir

def BackEndsAgree (pckt : DrivePacket) (dir : Direction) : Prop :=
  ahci.Faithful pckt dir ∧ ataPio.Faithful pckt dir

/-- The packets of the file system: whole sectors, no more than a blob of a fork. -/
structure DrivePacket.Sectors (pckt : DrivePacket) : Prop where
  aligned : pckt.fPacketLba % kATASectorSize = 0
  whole : pckt.fPacketSize % kATASectorSize = 0
  bounded : pckt.fPacketSize ≤ kNeFSForkDataSz

theorem idealTransfer_empty (disk m : Store) (pckt : DrivePacket) (dir : Direction)
    (h : pckt.fPacketSize = 0) : idealTransfer disk m pckt dir = (disk, m) := by
  have hwrite : ∀ (s t : Store) (a b : Nat), s.write a (t.read b pckt.fPacketSize.toNat) = s := by
    intro s t a b
    funext x
    apply Store.write_outside
    simp [h]
    omega
  cases dir <;> simp [idealTransfer, hwrite]

theorem idealTransfer_input (disk m : Store) (pckt : DrivePacket) {i : Nat}
    (h : i < pckt.fPacketSize.toNat) :
    (idealTransfer disk m pckt .input).2 (pckt.fPacketContent.toNat + i) =
      disk (pckt.fPacketLba.toNat + i) :=
  m.write_inside pckt.fPacketContent.toNat
    (disk.read pckt.fPacketLba.toNat pckt.fPacketSize.toNat) ⟨i, h⟩

theorem idealTransfer_output (disk m : Store) (pckt : DrivePacket) {i : Nat}
    (h : i < pckt.fPacketSize.toNat) :
    (idealTransfer disk m pckt .output).1 (pckt.fPacketLba.toNat + i) =
      m (pckt.fPacketContent.toNat + i) :=
  disk.write_inside pckt.fPacketLba.toNat
    (m.read pckt.fPacketContent.toNat pckt.fPacketSize.toNat) ⟨i, h⟩

def uniformPort (v : UInt8) : HbaPort := ⟨fun _ => v, ⟨0, false, 0⟩, ⟨.zero, fun _ => .zero⟩⟩

/-- The AHCI driver writes nothing. -/
theorem ahci_output_iff (pckt : DrivePacket) :
    ahci.Faithful pckt .output ↔ pckt.fPacketSize = 0 := by
  constructor
  · intro h
    by_contra hsize
    have hpos : 0 < pckt.fPacketSize.toNat := by
      apply Nat.pos_of_ne_zero
      simpa [← UInt64.toNat_inj] using hsize
    have hdisk : (0 : UInt8) = _ := congrArg (fun r => r.1 (pckt.fPacketLba.toNat + 0))
      (h (uniformPort 0) (fun _ => 1))
    rw [idealTransfer_output _ _ _ hpos] at hdisk
    exact absurd hdisk (by decide)
  · intro hsize drive m
    rw [idealTransfer_empty _ _ _ _ hsize]
    rfl

/-- The AHCI driver reads into the buffer even for a packet without bytes. -/
theorem ahci_input_size (pckt : DrivePacket) (h : ahci.Faithful pckt .input) :
    pckt.fPacketSize ≠ 0 := by
  intro hsize
  have hmemory : _ = (0 : UInt8) := congrArg (fun r => r.2 pckt.fPacketContent.toNat)
    ((h (uniformPort 1) (fun _ => 0)).trans (idealTransfer_empty _ _ _ _ hsize))
  have hread := AHCI.drvStdRead_constant (uniformPort 1) (fun _ => 0) 1 pckt.fPacketLba
    pckt.fPacketContent pckt.fPacketSize rfl
  exact absurd (hread.symm.trans hmemory) (by decide)

def driveOver (disk : Store) : AtaDrive :=
  ⟨⟨disk, fun _ => 0, 0, 0, 0, 0, 0, 0, .idle⟩, ataPrimaryIO, 0⟩

/-- The ATA driver reads the bytes of a sector two by two and drops the second ones. -/
theorem ataPio_input_size (pckt : DrivePacket) (hs : pckt.Sectors)
    (h : ataPio.Faithful pckt .input) : pckt.fPacketSize = 0 := by
  by_contra hsize
  have haligned : pckt.fPacketLba.toNat % 512 = 0 := by
    simpa [← UInt64.toNat_inj, kATASectorSize] using hs.aligned
  have hwhole : pckt.fPacketSize.toNat % 512 = 0 := by
    simpa [← UInt64.toNat_inj, kATASectorSize] using hs.whole
  have hlarge : 1 < pckt.fPacketSize.toNat := by
    have hne : pckt.fPacketSize.toNat ≠ 0 := by simpa [← UInt64.toNat_inj] using hsize
    omega
  -- the second byte of the buffer comes from the third byte of the sectors
  let start := ataAddress pckt.fPacketLba kATASectorSize
  let disk : Store := Function.update (fun _ => 0) (start + 2) 1
  have hmemory := congrArg (fun r => r.2 (pckt.fPacketContent.toNat + 1))
    (h (driveOver disk) (fun _ => 0))
  have hread := ATA.drvStdRead_byte (driveOver disk).device (fun _ => 0) pckt.fPacketContent
    pckt.fPacketLba ataPrimaryIO 0 kATASectorSize pckt.fPacketSize hlarge (by decide)
  have hthird : disk (start + 2 * 1) = 1 := Function.update_self _ _ _
  have hsecond : disk (pckt.fPacketLba.toNat + 1) = 0 := by
    have hstart := ataAddress_mod pckt.fPacketLba kATASectorSize
    apply Function.update_of_ne
    omega
  have hideal := idealTransfer_input disk (fun _ => 0) pckt hlarge
  have hone := (hread.symm.trans hmemory).trans (hideal.trans hsecond)
  exact absurd (hthird.symm.trans hone) (by decide)

theorem ataPio_disk_write (drive : AtaDrive) (m : Store) (lba buffer sectorSz size : UInt64) :
    ataPio.disk (ataPio.drvStdWrite drive m lba buffer sectorSz size) =
      (ATA.drvStdWrite drive.device m lba drive.kATAIO drive.kATAMaster buffer sectorSz size).disk :=
  rfl

theorem ataPio_output_empty (pckt : DrivePacket) (h : pckt.fPacketSize = 0) :
    ataPio.Faithful pckt .output := by
  intro drive m
  simp only [idealTransfer_empty _ _ _ _ h, transferred, ioDrvOutput, h]
  rw [ataPio_disk_write, ATA.drvStdWrite_empty]
  rfl

theorem backEndsAgree_iff (pckt : DrivePacket) (dir : Direction) (hs : pckt.Sectors) :
    BackEndsAgree pckt dir ↔ dir = .output ∧ pckt.fPacketSize = 0 := by
  cases dir with
  | input =>
    have hnot : ¬ BackEndsAgree pckt .input := by
      intro h
      exact ahci_input_size pckt h.1 (ataPio_input_size pckt hs h.2)
    simp [hnot]
  | output =>
    constructor
    · intro h
      exact ⟨rfl, (ahci_output_iff pckt).mp h.1⟩
    · intro h
      exact ⟨(ahci_output_iff pckt).mpr h.2, ataPio_output_empty pckt h.2⟩

theorem backEndsAgree_empty : BackEndsAgree ⟨0x1000, 0, 1024⟩ .output :=
  (backEndsAgree_iff ⟨0x1000, 0, 1024⟩ .output
    ⟨by decide, by decide, by decide⟩).mpr ⟨rfl, rfl⟩

/-- One sector written to the start of the disk. -/
theorem backEndsAgree_unwritten :
    DrivePacket.Sectors ⟨0x1000, 512, 0⟩ ∧ ¬ BackEndsAgree ⟨0x1000, 512, 0⟩ .output := by
  constructor
  · exact ⟨by decide, by decide, by decide⟩
  · intro h
    exact absurd ((ahci_output_iff _).mp h.1) (by decide)

end Zka.KernelKit
