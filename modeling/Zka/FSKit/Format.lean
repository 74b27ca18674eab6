import Zka.FSKit.CatalogUpdate

/-!
# The two formatters

The boot loader's `BDiskFormatFactory::Format` and the kernel's
`NeFSParser::Format` write the same partition block with different counters.
-/

namespace Zka.FSKit

open NewKit Outcome

def kEPMBaseLba : Lba := 0
def kEPMNewOS : Int16 := 0x1f

/-- `"NeFS"`. -/
def kFsName : List UInt8 := [78, 101, 70, 83]

/-- `"ZKA:"`. -/
def kBlockName : List UInt8 := [90, 75, 65, 58]

/-- `kEPMMagic86`, `"EPMAM"`. -/
def kEPMMagic : List UInt8 := [69, 80, 77, 65, 77]

/-- `BOOT_BLOCK_STRUCT`, one entry of the explicit partition map. -/
structure BootBlockStruct where
  magic : Bytes 5
  name : Bytes 32
  uuid : Bytes 16
  version : Int32
  numBlocks : Int64
  sectorSz : Int64
  lbaStart : Int64
  lbaEnd : Int64
  kind : Int16
  fsVersion : Int32
  fs : Bytes 16
  reserved : Bytes 401

def BootBlockStruct.zero : BootBlockStruct :=
  ⟨fun _ => 0, fun _ => 0, fun _ => 0, 0, 0, 0, 0, 0, 0, 0, fun _ => 0, fun _ => 0⟩

open Layout in
def bootBlockLayout : Layout BootBlockStruct 512 :=
  ((bytes 5).append <| (bytes 32).append <| (bytes 16).append <| i32.append <| i64.append <|
    i64.append <| i64.append <| i64.append <| i16.append <| i32.append <|
    (bytes 16).append (bytes 401)).cast rfl |>.map
  { toFun b := (b.magic, b.name, b.uuid, b.version, b.numBlocks, b.sectorSz, b.lbaStart,
      b.lbaEnd, b.kind, b.fsVersion, b.fs, b.reserved)
    invFun := fun (a, b, c, d, e, f, g, h, i, j, k, l) => ⟨a, b, c, d, e, f, g, h, i, j, k, l⟩
    left_inv _ := rfl
    right_inv _ := rfl }

/-- A terminated string together with the memory behind it, which over-long copies read. -/
structure CString where
  text : List UInt8
  noNul : 0 ∉ text
  behind : Nat → UInt8

namespace CString

def byte (s : CString) (i : Nat) : UInt8 :=
  if i ≤ s.text.length then s.text.getD i 0 else s.behind (i - s.text.length - 1)

def strlen (s : CString) : Nat := s.text.length

end CString

/-- `rt_copy_memory` into a structure image. -/
def rtCopyMemory {n : Nat} (image : Bytes n) (offset : Nat) (src : CString) (len : Nat) : Bytes n :=
  fun i => if offset ≤ i ∧ i < offset + len then src.byte (i - offset) else image i

/-- The boot loader's `memcpy` counts `len` elements but moves an `int` for each. -/
def memcpy {n : Nat} (image : Bytes n) (offset : Nat) (src : CString) (len : Nat) : Bytes n :=
  rtCopyMemory image offset src (4 * len)

/-! ## The boot loader -/

structure BFileDescriptor where
  fFileName : CString
  fKind : Int32

/-- The string literals of the formatters, as they lie in memory. -/
structure FormatLiterals where
  ident : CString
  fsName : CString
  blockName : CString
  magic : CString
  ident_eq : ident.text = kNeFSIdent
  fsName_eq : fsName.text = kFsName
  blockName_eq : blockName.text = kBlockName
  magic_eq : magic.text = kEPMMagic

/-- The name is copied last and may run over the fields behind it. -/
def rootCatalog (blob : BFileDescriptor) (startLba : Lba) : NfsCatalogStruct :=
  catalogLayout.symm (memcpy (catalogLayout
    { NfsCatalogStruct.zero with
      prevSibling := startLba
      nextSibling := startLba + catalogStride
      kind := blob.fKind
      flags := kNeFSFlagCreated }) 0 blob.fFileName blob.fFileName.strlen)

/-- `WriteRootCatalog`: only the first blob is written, and the counters of the block in memory
are lowered after the block has gone to the disk. -/
def writeRootCatalog (d : Drive) (blob : BFileDescriptor) (partBlock : NfsRootPartitionBlock) :
    NfsRootPartitionBlock × Drive :=
  ({ partBlock with
      freeCatalog := partBlock.freeCatalog - 1
      freeSectors := partBlock.freeSectors - 1 },
    d.putCatalog partBlock.startCatalog (rootCatalog blob partBlock.startCatalog))

def bootPartBlock (lit : FormatLiterals) (partName : CString) (blobCount sectorsCount : SizeT) :
    NfsRootPartitionBlock :=
  let image : Bytes 512 := memcpy (fun _ => 0) 0 lit.ident 7
  { partLayout.symm (memcpy image 8 partName partName.strlen) with
    version := kNeFSVersionInteger
    catalogCount := blobCount
    kind := kNeFSHardDrive
    sectorSize := 512
    freeCatalog := sectorsCount / 512
    sectorCount := sectorsCount
    freeSectors := sectorsCount
    startCatalog := kNeFSCatalogStartAddress
    diskSize := sectorsCount * 512
    flags := kNeFSPartitionTypeBoot ||| kNeFSPartitionTypeStandard }

/-- The map entry the boot loader writes at address 1. -/
def bootEpmBlock (lit : FormatLiterals) (partBlock : NfsRootPartitionBlock) : BootBlockStruct :=
  -- the copies come last and may run over the fields behind them
  let block : BootBlockStruct :=
    { bootBlockLayout.symm (memcpy (fun _ => 0) 95 lit.fsName 4) with
      fsVersion := kNeFSVersionInteger.toUInt32.toInt32
      lbaStart := kNeFSRootCatalogStartAddress.toInt64
      sectorSz := partBlock.sectorSize.toInt64
      kind := kEPMNewOS
      numBlocks := partBlock.catalogCount.toInt64 }
  bootBlockLayout.symm (memcpy (memcpy (bootBlockLayout block) 5 lit.blockName 4) 0 lit.magic 5)

/-- `EFI::ThrowError` prints the error and ends in `EFI::Stop`, which never returns. -/
def efiThrowError {α : Type} : Outcome CFault α := .running

/-- `BDiskFormatFactory::Format`; a partition name that runs out of the block faults. -/
def bootFormat (d : Drive) (lit : FormatLiterals) (partName : CString)
    (fileBlobs : List BFileDescriptor) (sectorsCount : SizeT) : Outcome CFault (Bool × Drive) :=
  match fileBlobs with
  | [] => .done (false, d)
  | blob :: _ =>
    if sectorsCount * 512 < kNeFSMinimumDiskSize then efiThrowError
    else if 512 < 8 + 4 * partName.strlen ∨ 512 < 4 * blob.fFileName.strlen then
      .fault .indexOutOfRange
    else
      let partBlock := bootPartBlock lit partName (UInt64.ofNat fileBlobs.length) sectorsCount
      let d := d.putPart partBlock
      let d := d.put bootBlockLayout 1 (bootEpmBlock lit partBlock)
      .done (true, (writeRootCatalog d blob partBlock).2)

/-- What a drive formatted by the boot loader looks like: the counters as they were written, the
root directory in the first slot, and the slots behind it zero. -/
structure BootFormatted (blobCount : SizeT) (d : Drive) : Prop where
  geometry : Geometry d.part
  catalogCount_eq : d.part.catalogCount = blobCount
  freeCatalog_eq : d.part.freeCatalog = d.part.sectorCount / 512
  freeSectors_eq : d.part.freeSectors = d.part.sectorCount
  root : RecordAt d.part.diskSize 0 kNeFSRoot (d.catalog kNeFSCatalogStartAddress)
  zeroed : ∀ k, 1 ≤ k → k ≤ d.part.capacity → d.catalog (slotAt k) = .zero

theorem BootFormatted.represents {blobCount : SizeT} {d : Drive} (h : BootFormatted blobCount d) :
    Represents d [kNeFSRoot] := by
  constructor
  · exact h.geometry
  · rfl
  · exact List.nodup_singleton _
  · intro name hname
    rw [List.mem_singleton.mp hname]
    exact .root
  · intro k name hk
    cases k with
    | zero =>
      cases hk
      rw [slotAt_zero]
      exact h.root
    | succ k => simp at hk
  · exact h.zeroed
  · have hf := congrArg UInt64.toNat h.freeCatalog_eq
    rw [UInt64.toNat_div] at hf
    rw [hf, NfsRootPartitionBlock.capacity, List.length_singleton, Nat.add_comm]
    rfl

theorem BootFormatted.free {blobCount : SizeT} {d : Drive} (h : BootFormatted blobCount d) :
    ¬ d.part.freeCatalog < 1 := by
  have hg := h.geometry.size_eq
  have hm := UInt64.le_iff_toNat_le.mp h.geometry.minimum
  have hc : kNeFSMinimumDiskSize.toNat = 4294967296 := rfl
  have h512 : (512 : UInt64).toNat = 512 := rfl
  have h1 : (1 : UInt64).toNat = 1 := rfl
  rw [h.freeCatalog_eq, UInt64.lt_iff_toNat_lt, UInt64.toNat_div, h512, h1]
  omega

open Layout in
/-- The name comes first in a record, and the rest does not depend on it. -/
theorem catalogLayout_withName (c : NfsCatalogStruct) (name : Bytes 256) (i : Fin 512) :
    catalogLayout { c with name := name } i =
      if h : i.val < 256 then name ⟨i, h⟩ else catalogLayout c i := by
  simp only [catalogLayout, map_apply, cast_apply]
  rw [append_apply, append_apply]
  by_cases h : i.val < 256
  · simp [h, bytes]
  · simp [h]

/-- A short name is copied into the record's name and nowhere else. -/
private theorem copied_name {c : NfsCatalogStruct} {name : CString} (h : 4 * name.strlen ≤ 256) :
    catalogLayout.symm (memcpy (catalogLayout c) 0 name name.strlen) =
      { c with name := fun i => if i.val < 4 * name.strlen then name.byte i else c.name i } := by
  rw [Equiv.symm_apply_eq]
  funext i
  have hc := catalogLayout_withName c c.name i
  rw [catalogLayout_withName]
  by_cases hi : i.val < 4 * name.strlen
  · have h256 : i.val < 256 := by omega
    simp [memcpy, rtCopyMemory, hi, h256]
  · by_cases h256 : i.val < 256
    · rw [dif_pos h256] at hc ⊢
      simpa [memcpy, rtCopyMemory, hi] using hc
    · simp [memcpy, rtCopyMemory, hi, h256]

private theorem strlen_root {name : CString} (h : name.text = kNeFSRoot) : name.strlen = 1 := by
  simp [CString.strlen, h, kNeFSRoot]

private theorem cstr_root {name : CString} (h : name.text = kNeFSRoot) :
    cstr (List.ofFn fun i : Fin 256 => if i.val < 4 * name.strlen then name.byte i else 0) =
      kNeFSRoot := by
  have h0 : name.byte 0 = kNeFSSeparator := by simp [CString.byte, h, kNeFSRoot]
  have h1 : name.byte 1 = 0 := by simp [CString.byte, h, kNeFSRoot]
  have hlen := strlen_root h
  rw [List.ofFn_succ, List.ofFn_succ]
  generalize List.ofFn _ = rest
  simp only [hlen, Fin.val_zero, Fin.val_succ, h0, h1, cstr]
  rfl

/-- The entry of the map ends in front of the partition block. -/
theorem part_put_epm (d : Drive) (part : NfsRootPartitionBlock) (epm : BootBlockStruct) :
    Drive.part (Store.put bootBlockLayout (d.putPart part) 1 epm) = part := by
  rw [← Drive.part_putPart d part]
  refine Drive.part_congr fun x hx _ => ?_
  rw [Drive.part_putPart, Store.put_outside _ _ _ (Or.inr (by omega))]

/-- The partition block and the entry of the map are no part of a catalog. -/
private theorem catalog_put_epm (d : Drive) (part : NfsRootPartitionBlock) (epm : BootBlockStruct)
    {a : Lba} (h : 1536 ≤ a.toNat) :
    Drive.catalog (Store.put bootBlockLayout (d.putPart part) 1 epm) a = d.catalog a := by
  rw [← Drive.catalog_putPart d part h]
  exact Drive.catalog_congr fun x hx _ => Store.put_outside _ _ _ (Or.inr (by omega))

/-- The record of the root is the first one that a walk expects. -/
private theorem rootCatalog_recordAt {root : BFileDescriptor} {diskSize : SizeT}
    (hroot : root.fFileName.text = kNeFSRoot) (hkind : root.fKind = kNeFSCatalogKindDir) :
    RecordAt diskSize 0 kNeFSRoot (rootCatalog root (slotAt 0)) := by
  have hlen := strlen_root hroot
  rw [rootCatalog, copied_name (by omega)]
  constructor
  · exact cstr_root hroot
  · exact UInt16.or_self
  · exact slotAt_succ 0
  · exact ⟨0, Or.inr ⟨rfl, rfl⟩, rfl⟩
  · rfl
  · rfl
  · exact ⟨fun _ => rfl, fun _ => hkind⟩

/-- The record of the root goes into the first slot, and leaves the partition block. -/
private theorem writeRootCatalog_part {d : Drive} {root : BFileDescriptor}
    {part : NfsRootPartitionBlock} (hstart : part.startCatalog = slotAt 0) :
    (writeRootCatalog d root part).2.part = d.part := by
  rw [writeRootCatalog, hstart, slotAt_zero]
  exact Drive.part_putCatalog _ _ (by decide)

private theorem writeRootCatalog_catalog {d : Drive} {root : BFileDescriptor}
    {part : NfsRootPartitionBlock} {k : Nat} (hstart : part.startCatalog = slotAt 0)
    (hslot : (slotAt k).toNat = 2560 + 2048 * k) (hk : 1 ≤ k) :
    (writeRootCatalog d root part).2.catalog (slotAt k) = d.catalog (slotAt k) := by
  have hzero : (slotAt 0).toNat = 2560 := by
    rw [slotAt_zero]
    rfl
  rw [writeRootCatalog, hstart]
  dsimp only
  rw [Drive.catalog_putCatalog_apart]
  rw [hslot, hzero]
  omega

theorem bootFormat_formatted (d : Drive) (lit : FormatLiterals) (partName : CString)
    (root : BFileDescriptor) (more : List BFileDescriptor) (sectorsCount : SizeT)
    (hmin : 2 ^ 32 ≤ 512 * sectorsCount.toNat) (hmax : 512 * sectorsCount.toNat < 2 ^ 64)
    (hpart : 8 + 4 * partName.strlen ≤ 512) (hroot : root.fFileName.text = kNeFSRoot)
    (hkind : root.fKind = kNeFSCatalogKindDir)
    (hzero : ∀ k, 1 ≤ k → k ≤ sectorsCount.toNat / 512 + 1 → d.catalog (slotAt k) = .zero) :
    ∃ d', bootFormat d lit partName (root :: more) sectorsCount = .done (true, d') ∧
      BootFormatted (UInt64.ofNat (more.length + 1)) d' := by
  have hsize : (sectorsCount * 512).toNat = 512 * sectorsCount.toNat := by
    rw [UInt64.toNat_mul]
    change sectorsCount.toNat * 512 % 2 ^ 64 = _
    omega
  have hlarge : ¬ sectorsCount * 512 < kNeFSMinimumDiskSize := by
    rw [UInt64.lt_iff_toNat_lt, hsize]
    change ¬ _ < 4294967296
    omega
  have hlen := strlen_root hroot
  refine ⟨_, by rw [bootFormat, if_neg hlarge, if_neg (by omega)], ?_⟩
  generalize hp : bootPartBlock lit partName _ sectorsCount = part
  generalize hm : Store.put bootBlockLayout (d.putPart part) 1 (bootEpmBlock lit part) = dm
  have hcap : part.capacity = sectorsCount.toNat / 512 + 1 := by
    rw [← hp]
    rfl
  have hdm : Drive.part dm = part := by
    rw [← hm]
    exact part_put_epm d part _
  have hstart : part.startCatalog = slotAt 0 := by
    rw [← hp]
    exact slotAt_zero.symm
  have hslot : ∀ k, k ≤ part.capacity → (slotAt k).toNat = 2560 + 2048 * k := by
    intro k hk
    apply slotAt_toNat
    omega
  have hslots : ∀ k, k ≤ part.capacity → Drive.catalog dm (slotAt k) = d.catalog (slotAt k) := by
    intro k hk
    have hk' := hslot k hk
    rw [← hm]
    exact catalog_put_epm d part _ (by omega)
  have hpart' : (writeRootCatalog dm root part).2.part = part :=
    (writeRootCatalog_part hstart).trans hdm
  have hcatalogs : ∀ k, 1 ≤ k → k ≤ part.capacity →
      (writeRootCatalog dm root part).2.catalog (slotAt k) = d.catalog (slotAt k) := by
    intro k hk hle
    rw [writeRootCatalog_catalog hstart (hslot k hle) hk, hslots k hle]
  constructor
  · rw [hpart', ← hp]
    exact ⟨rfl, hsize, UInt64.not_lt.mp hlarge⟩
  · rw [hpart', ← hp]
    rfl
  · rw [hpart', ← hp]
    rfl
  · rw [hpart', ← hp]
    rfl
  · have hrec : (writeRootCatalog dm root part).2.catalog kNeFSCatalogStartAddress =
        rootCatalog root (slotAt 0) := by
      rw [writeRootCatalog, hstart, ← slotAt_zero]
      exact Drive.catalog_putCatalog _ _
    rw [hrec]
    exact rootCatalog_recordAt hroot hkind
  · intro k hk hle
    rw [hpart'] at hle
    rw [hcatalogs k hk hle]
    exact hzero k hk (hcap ▸ hle)

theorem bootFormat_outside {d d' : Drive} {lit : FormatLiterals} {partName : CString}
    {fileBlobs : List BFileDescriptor} {sectorsCount : SizeT} {ok : Bool}
    (h : bootFormat d lit partName fileBlobs sectorsCount = .done (ok, d')) {x : Nat}
    (hx : 3072 ≤ x) : d' x = d x := by
  cases fileBlobs with
  | nil =>
    cases h
    rfl
  | cons blob more =>
    rw [bootFormat] at h
    split at h
    · cases h
    split at h
    · cases h
    · cases h
      refine (Drive.putCatalog_outside _ (Or.inr ?_)).trans ?_
      · exact hx
      · rw [Store.put_outside _ _ _ (Or.inr (by omega)),
          Drive.putPart_outside _ (Or.inr (by omega))]

/-! A blank drive as the boot loader's main program formats it. -/

def kPartName : List UInt8 := [70, 105, 108, 101, 83, 121, 115, 116, 101, 109, 32, 40, 65, 58, 41]

def CString.literal (text : List UInt8) (h : 0 ∉ text) : CString := ⟨text, h, fun _ => 0⟩

def bootLiterals : FormatLiterals where
  ident := .literal kNeFSIdent (by decide)
  fsName := .literal kFsName (by decide)
  blockName := .literal kBlockName (by decide)
  magic := .literal kEPMMagic (by decide)
  ident_eq := rfl
  fsName_eq := rfl
  blockName_eq := rfl
  magic_eq := rfl

def bootRoot : BFileDescriptor := ⟨.literal kNeFSRoot (by decide), kNeFSCatalogKindDir⟩

def bootResult (sectorsCount : SizeT) : Outcome CFault (Bool × Drive) :=
  bootFormat (fun _ => 0) bootLiterals (.literal kPartName (by decide)) [bootRoot] sectorsCount

/-- A blank drive of four gigabytes after the boot loader has run. -/
def bootDrive : Drive :=
  match bootResult 0x800000 with
  | .done (_, d) => d
  | _ => fun _ => 0

theorem bootDrive_formatted : BootFormatted 1 bootDrive := by
  have hblank : ∀ k, 1 ≤ k → k ≤ (0x800000 : SizeT).toNat / 512 + 1 →
      Drive.catalog (fun _ => 0) (slotAt k) = .zero :=
    fun k _ _ => Drive.catalog_of_zero fun _ _ _ => rfl
  obtain ⟨d, hd, hf⟩ := bootFormat_formatted (fun _ => 0) bootLiterals
    (.literal kPartName (by decide)) bootRoot [] 0x800000 (by decide) (by decide) (by decide) rfl rfl
    hblank
  have heq : bootDrive = d := by
    rw [bootDrive, bootResult, hd]
  rw [heq]
  exact hf

theorem bootDrive_blank {x : Nat} (hx : 3072 ≤ x) : bootDrive x = 0 := by
  rw [bootDrive]
  generalize h : bootResult 0x800000 = r
  cases r with
  | running => rfl
  | fault e => rfl
  | done reply => exact bootFormat_outside h hx

/-! ## The kernel -/

structure EpmScan where
  outEpmLba : Lba
  prevStart : Lba
  cnt : SizeT

/-- One pass of the search for a free entry of the map. -/
def epmBody (d : Drive) (s : EpmScan) : Outcome CFault (EpmScan ⊕ EpmScan) :=
  let buf := Store.get bootBlockLayout d s.outEpmLba.toNat
  if buf.magic 0 = 0 then .done (.inr s)
  else .done (.inl
    { outEpmLba := s.outEpmLba + 512
      prevStart := (buf.lbaStart + buf.lbaEnd).toUInt64
      cnt := s.cnt + 1 })

def kernelEpmBlock (s : EpmScan) (endLba : Lba) : BootBlockStruct :=
  { BootBlockStruct.zero with
    fs := charBuffer 16 kFsName
    fsVersion := kNeFSVersionInteger.toUInt32.toInt32
    sectorSz := kNeFSSectorSz.toInt64
    name := charBuffer 32 kBlockName
    magic := charBuffer 5 kEPMMagic
    lbaStart := if s.prevStart ≠ 0 then s.outEpmLba.toInt64 else 0
    lbaEnd := endLba.toInt64
    numBlocks := s.cnt.toInt64 }

/-- One pass of the search for an unnamed partition block. -/
def partitionBody (d : Drive) (lit : FormatLiterals) (s : Lba × NfsRootPartitionBlock) :
    Outcome CFault ((Lba × NfsRootPartitionBlock) ⊕ NfsRootPartitionBlock) :=
  if s.2.partitionName 0 = 0 ∧ ∃ i : Fin 8, s.2.ident i ≠ lit.ident.byte i then .done (.inr s.2)
  else
    let start := s.1 + s.2.diskSize
    .done (.inl (start, Store.get partLayout d start.toNat))

/-- `PartitionName[0] == 0`. -/
def NfsRootPartitionBlock.Unnamed (b : NfsRootPartitionBlock) : Prop := b.partitionName 0 = 0

instance (b : NfsRootPartitionBlock) : Decidable b.Unnamed := inferInstanceAs (Decidable (_ = _))

/-- The block the kernel writes: the counters of free sectors keep what the drive held. -/
def kernelPartBlock (old : NfsRootPartitionBlock) (lit : FormatLiterals) (partName : CString)
    (sectorCount diskSize : SizeT) : NfsRootPartitionBlock :=
  let image := partLayout { old with version := kNeFSVersionInteger }
  { partLayout.symm (rtCopyMemory (rtCopyMemory image 0 lit.ident 8) 8 partName
      (rtStringLen partName.text)) with
    kind := kNeFSPartitionTypeStandard
    startCatalog := kNeFSCatalogStartAddress
    flags := kNeFSPartitionTypeStandard
    catalogCount := sectorCount / 512
    sectorCount := sectorCount
    diskSize := diskSize
    freeCatalog := sectorCount / 512 }

def writeEpm (fuel : Nat) (d : Drive) (endLba : Lba) (flags : Int32) : Outcome CFault Drive :=
  if flags &&& kNeFSPartitionTypeBoot = 0 then .done d
  else
    whileLoop (epmBody d) fuel ⟨kEPMBaseLba, 0, 0⟩ >>= fun s =>
    .done (Store.put bootBlockLayout d s.outEpmLba.toNat (kernelEpmBlock s endLba))

/-- `NeFSParser::Format`.  Wherever the free block is found, the partition is described at the
fixed address, and the root catalog is left to `CreateCatalog`. -/
def format (fuel : Nat) (d : Drive) (lit : FormatLiterals) (endLba : Lba) (flags : Int32)
    (partName : CString) (sectorCount diskSize : SizeT) : Outcome CFault (Bool × Drive) :=
  if partName.text = [] ∨ endLba = 0 then .done (false, d)
  else
    let fsBuf := d.part
    writeEpm fuel d endLba flags >>= fun d =>
    whileLoop (partitionBody d lit) fuel (kNeFSRootCatalogStartAddress, fsBuf) >>= fun old =>
    if 512 < 8 + rtStringLen partName.text then .fault .indexOutOfRange
    else
      let d := d.putPart (kernelPartBlock old lit partName sectorCount diskSize)
      createCatalog fuel d kNeFSRoot 0 kNeFSCatalogKindDir >>= fun reply =>
      .done (true, reply.drive)

/-- What `NeFSParser::Format` has written when it turns to the root catalog, on a drive that holds
none yet. -/
structure KernelFormatted (d : Drive) : Prop where
  start_eq : d.part.startCatalog = kNeFSCatalogStartAddress
  catalogCount_eq : d.part.catalogCount = d.part.sectorCount / 512
  freeCatalog_eq : d.part.freeCatalog = d.part.sectorCount / 512
  fresh : d.catalog kNeFSCatalogStartAddress = .zero

theorem kernelPartBlock_formatted {d : Drive} {old : NfsRootPartitionBlock} {lit : FormatLiterals}
    {partName : CString} {sectorCount diskSize : SizeT}
    (hfresh : d.catalog kNeFSCatalogStartAddress = .zero) :
    KernelFormatted (d.putPart (kernelPartBlock old lit partName sectorCount diskSize)) := by
  constructor
  · rw [Drive.part_putPart]
    rfl
  · rw [Drive.part_putPart]
    rfl
  · rw [Drive.part_putPart]
    rfl
  · rw [Drive.catalog_putPart _ _ (by decide)]
    exact hfresh

namespace KernelFormatted

variable {d : Drive} {name : List UInt8} {fuel : Nat}

private theorem search_fresh (h : KernelFormatted d) (hfuel : 0 < fuel) :
    searchCatalogList fuel d name d.part.startCatalog = .done none := by
  obtain ⟨fuel, rfl⟩ := Nat.exists_eq_succ_of_ne_zero (Nat.ne_of_gt hfuel)
  apply whileLoop_exit
  rw [searchBody, h.start_eq, h.fresh, if_neg (fun hc => zero_not_created hc.2), if_pos]
  exact UInt64.le_iff_toNat_le.mpr (Nat.zero_le _)

/-- Without a root no lookup succeeds. -/
theorem findCatalog_none (h : KernelFormatted d) (h0 : 0 ∉ name)
    {r : Option NfsCatalogStruct × Lba} (hr : findCatalog fuel d name = .done r) :
    r = (none, 0) := by
  induction fuel generalizing name r with
  | zero => simp [findCatalog] at hr
  | succ fuel ih =>
    rw [findCatalog] at hr
    by_cases hroot : name = kNeFSRoot
    · subst hroot
      rw [if_pos (equals_self _), bind_eq_done] at hr
      obtain ⟨found, hfound, hr⟩ := hr
      cases fuel with
      | zero => simp [searchCatalogList, whileLoop] at hfound
      | succ fuel =>
        rw [h.search_fresh (Nat.succ_pos _)] at hfound
        cases hfound
        cases hr
        rfl
    · rw [if_neg (mt (equals_root_iff h0).mp hroot), bind_eq_done] at hr
      obtain ⟨parent, hp, hr⟩ := hr
      rw [parentName_eq h0] at hp
      split at hp
      · cases hp
        rw [bind_eq_done] at hr
        obtain ⟨reply, hreply, hr⟩ := hr
        rw [ih (zero_notMem_parentOf h0) hreply] at hr
        cases hr
        rfl
      · cases hp

/-- Nothing can be created: the walk over the slots starts at the link of a zero record. -/
theorem createCatalog_null (h : KernelFormatted d) (h0 : 0 ∉ name) {flags kind : Int32}
    {r : CatalogReply} (hr : createCatalog fuel d name flags kind = .done r) :
    r.drive = d ∧ r.slot = none := by
  rw [createCatalog] at hr
  split at hr
  · cases hr
    exact ⟨rfl, rfl⟩
  rw [bind_eq_done] at hr
  obtain ⟨reply, hreply, hr⟩ := hr
  rw [h.findCatalog_none h0 hreply] at hr
  dsimp only at hr
  split at hr
  · cases hr
    exact ⟨rfl, rfl⟩
  rw [bind_eq_done] at hr
  obtain ⟨parent, hp, hr⟩ := hr
  have hpar : 0 ∉ parent := by
    rw [parentName_eq h0] at hp
    split at hp
    · cases hp
      exact zero_notMem_parentOf h0
    · cases hp
  rw [bind_eq_done] at hr
  obtain ⟨above, habove, hr⟩ := hr
  rw [h.findCatalog_none hpar habove] at hr
  dsimp only at hr
  rw [createUnder, h.start_eq, h.fresh, bind_eq_done] at hr
  obtain ⟨out, hout, hr⟩ := hr
  have hbad : slotBody d name NfsCatalogStruct.zero.nextSibling = .done (.inr .badLink) := by
    rw [slotBody, if_pos]
    exact UInt64.le_iff_toNat_le.mpr (Nat.zero_le _)
  cases fuel with
  | zero => simp [whileLoop] at hout
  | succ fuel =>
    rw [whileLoop_exit hbad] at hout
    cases hout
    cases hr
    exact ⟨rfl, rfl⟩

/-- The root itself cannot be created: its name has no two characters to drop. -/
theorem createCatalog_root (h : KernelFormatted d) {flags : Int32} (hfuel : 1 < fuel) :
    createCatalog fuel d kNeFSRoot flags kNeFSCatalogKindDir = .fault .indexOutOfRange := by
  have hfind : findCatalog fuel d kNeFSRoot = .done (none, 0) := by
    obtain ⟨fuel, rfl⟩ := Nat.exists_eq_succ_of_ne_zero (show fuel ≠ 0 by omega)
    rw [findCatalog, if_pos (equals_self _), h.search_fresh (by omega)]
    rfl
  have hparent : parentName kNeFSRoot = .fault .indexOutOfRange := by
    rw [parentName_eq (by decide)]
    rfl
  rw [createCatalog, if_neg (by decide), hfind, done_bind]
  dsimp only
  rw [if_neg (by decide), hparent]
  rfl

theorem removeCatalog_refused (h : KernelFormatted d) (h0 : 0 ∉ name) {r : RemoveReply}
    (hr : removeCatalog fuel d name = .done r) : r = ⟨false, some .kErrorInternal, d⟩ := by
  rw [removeCatalog] at hr
  split at hr
  · cases hr
    rfl
  · rw [bind_eq_done] at hr
    obtain ⟨reply, hreply, hr⟩ := hr
    rw [h.findCatalog_none h0 hreply] at hr
    cases hr

end KernelFormatted

/-- On a fresh drive the kernel's formatter leaves the array of the parent's name behind. -/
theorem format_fresh {d : Drive} {lit : FormatLiterals} {endLba : Lba} {flags : Int32}
    {partName : CString} {sectorCount diskSize : SizeT} {fuel : Nat}
    (hname : partName.text ≠ []) (hend : endLba ≠ 0) (hflags : flags &&& kNeFSPartitionTypeBoot = 0)
    (hpart : d.part = .zero) (hfresh : d.catalog kNeFSCatalogStartAddress = .zero)
    (hfuel : 1 < fuel) :
    format fuel d lit endLba flags partName sectorCount diskSize = .fault .indexOutOfRange := by
  have hfree : partitionBody d lit (kNeFSRootCatalogStartAddress, d.part) =
      .done (.inr .zero) := by
    have hid : lit.ident.byte 0 = 32 := by
      simp [CString.byte, lit.ident_eq, kNeFSIdent]
    rw [hpart, partitionBody, if_pos]
    refine ⟨rfl, 0, ?_⟩
    rw [Fin.val_zero, hid]
    decide
  have hfuel' := hfuel
  obtain ⟨fuel, rfl⟩ := Nat.exists_eq_succ_of_ne_zero (show fuel ≠ 0 by omega)
  have hargs := not_or.mpr ⟨hname, hend⟩
  rw [format, if_neg hargs, writeEpm, if_pos hflags, done_bind, whileLoop_exit hfree, done_bind]
  split
  · rfl
  · dsimp only
    rw [(kernelPartBlock_formatted hfresh).createCatalog_root hfuel']
    rfl

end Zka.FSKit
