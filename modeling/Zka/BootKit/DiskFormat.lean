import Zka.FSKit.PartitionMap

/-!
# Formatting from the boot loader

`BDiskFormatFactory` writes a partition block, an entry of the map and the root catalog, and
checks the block before it boots.  Here `CopyMem` moves `width` bytes for each element; the
identifier is copied without its last byte but compared with it.
-/

namespace Zka.BootKit

open FSKit NewKit Outcome

/-- The device: its contents, and the sizes it reports. -/
structure BootDevice where
  contents : Drive
  sectorsCount : FSKit.SizeT
  diskSize : FSKit.SizeT

def kSectorSize : FSKit.SizeT := 512

abbrev kNeFSIdentLen : Nat := 8

section Format

variable (width : Nat) (dev : BootDevice) (lit : FormatLiterals)

def copyMem {n : Nat} (image : Bytes n) (offset : Nat) (src : CString) (len : Nat) : Bytes n :=
  FSKit.rtCopyMemory image offset src (width * len)

def formatBlock (partName : CString) (blobCount : FSKit.SizeT) : NfsRootPartitionBlock :=
  let image : Bytes 512 := copyMem width (fun _ => 0) 0 lit.ident (kNeFSIdentLen - 1)
  { partLayout.symm (copyMem width image 8 partName partName.strlen) with
    version := kNeFSVersionInteger
    catalogCount := blobCount
    kind := kNeFSHardDrive
    sectorSize := kSectorSize
    freeCatalog := dev.sectorsCount / 512
    sectorCount := dev.sectorsCount
    freeSectors := dev.sectorsCount
    startCatalog := kNeFSCatalogStartAddress
    diskSize := dev.diskSize
    flags := kNeFSPartitionTypeBoot ||| kNeFSPartitionTypeStandard }

def formatEpm (partBlock : NfsRootPartitionBlock) : BootBlockStruct :=
  let epmBoot : BootBlockStruct :=
    { bootBlockLayout.symm (copyMem width (fun _ => 0) 95 lit.fsName lit.fsName.strlen) with
      fsVersion := kNeFSVersionInteger.toUInt32.toInt32
      lbaStart := kNeFSRootCatalogStartAddress.toInt64
      sectorSz := partBlock.sectorSize.toInt64
      kind := kEPMNewOS
      numBlocks := partBlock.catalogCount.toInt64 }
  bootBlockLayout.symm (copyMem width (copyMem width (bootBlockLayout epmBoot) 5 lit.blockName
    lit.blockName.strlen) 0 lit.magic lit.magic.strlen)

def formatCatalog (blob : BFileDescriptor) (startLba : Lba) : NfsCatalogStruct :=
  catalogLayout.symm (copyMem width (catalogLayout
    { NfsCatalogStruct.zero with
      prevSibling := startLba
      nextSibling := startLba + catalogStride
      kind := blob.fKind
      flags := kNeFSFlagCreated }) 0 blob.fFileName blob.fFileName.strlen)

/-- `Format`: whether it succeeds, and what the device holds then. -/
def formatDisk (partName : CString) (fileBlobs : List BFileDescriptor) :
    Outcome CFault (Bool × Drive) :=
  match fileBlobs with
  | [] => .done (false, dev.contents)
  | blob :: _ =>
    if dev.diskSize < kNeFSMinimumDiskSize then efiThrowError
    else if 512 < 8 + width * partName.strlen ∨ 512 < width * blob.fFileName.strlen then
      .fault .indexOutOfRange
    else
      let partBlock := formatBlock width dev lit partName (UInt64.ofNat fileBlobs.length)
      let d := dev.contents.putPart partBlock
      let d := Store.put bootBlockLayout d 1 (formatEpm width lit partBlock)
      let startLba := partBlock.startCatalog
      .done (true, Drive.putCatalog d startLba (formatCatalog width blob startLba))

/-- The block is compared with all eight bytes from the address of the identifier on. -/
def isPartitionValid (d : Drive) : Bool :=
  let blockPart := d.part
  if ∃ indexMag : Fin kNeFSIdentLen, blockPart.ident indexMag ≠ lit.ident.byte indexMag then false
  else if blockPart.diskSize ≠ dev.diskSize ∨ blockPart.diskSize < 1 ∨
      blockPart.sectorSize ≠ kSectorSize ∨ blockPart.version ≠ kNeFSVersionInteger ∨
      blockPart.startCatalog = 0 then false
  else if blockPart.Unnamed then false
  else true

end Format

/-- The copy of the boot loader, which moves four bytes for each, makes this its formatter. -/
theorem bootFormat_eq (d : Drive) (lit : FormatLiterals) (partName : CString)
    (fileBlobs : List BFileDescriptor) (sectorsCount : FSKit.SizeT) :
    bootFormat d lit partName fileBlobs sectorsCount =
      formatDisk 4 ⟨d, sectorsCount, sectorsCount * 512⟩ lit partName fileBlobs := by
  have hlen : lit.fsName.strlen = 4 ∧ lit.blockName.strlen = 4 ∧ lit.magic.strlen = 5 := by
    simp [CString.strlen, lit.fsName_eq, lit.blockName_eq, lit.magic_eq, kFsName, kBlockName,
      kEPMMagic]
  cases fileBlobs with
  | nil => rfl
  | cons blob more =>
    dsimp only [bootFormat, formatDisk, formatEpm]
    rw [hlen.1, hlen.2.1, hlen.2.2]
    rfl

/-- What the formatter and the check should do together. -/
def FormatThenValid (width : Nat) (dev : BootDevice) (lit : FormatLiterals) (partName : CString)
    (fileBlobs : List BFileDescriptor) : Prop :=
  (kNeFSMinimumDiskSize ≤ dev.diskSize → ∃ d, formatDisk width dev lit partName fileBlobs =
      .done (true, d) ∧ isPartitionValid dev lit d = true) ∧
    (dev.diskSize < kNeFSMinimumDiskSize →
      formatDisk width dev lit partName fileBlobs = .done (false, dev.contents))

section Valid

variable {dev : BootDevice} {lit : FormatLiterals} {partName : CString} {blob : BFileDescriptor}
  {more : List BFileDescriptor} {blobCount : FSKit.SizeT}

private theorem formatBlock_ident (i : Fin 8) : (formatBlock 1 dev lit partName blobCount).ident i =
    if i.val < 7 then lit.ident.byte i else 0 := by
  have hlen : 1 * (kNeFSIdentLen - 1) = 7 := rfl
  rw [formatBlock, partLayout_symm_ident, copyMem, FSKit.rtCopyMemory,
    if_neg (by dsimp only; omega), copyMem, FSKit.rtCopyMemory, hlen]
  dsimp only
  split
  · rename_i hin
    rw [if_pos (by omega)]
    rfl
  · rename_i hout
    rw [if_neg (by omega)]

private theorem formatBlock_name (hne : partName.text ≠ []) :
    ¬ (formatBlock 1 dev lit partName blobCount).Unnamed := by
  have hpos : 0 < partName.text.length := List.length_pos_iff.mpr hne
  have hlen : partName.strlen = partName.text.length := rfl
  rw [NfsRootPartitionBlock.Unnamed, formatBlock, partLayout_symm_name, copyMem,
    FSKit.rtCopyMemory, if_pos (by dsimp only; omega)]
  change partName.byte 0 ≠ 0
  rw [CString.byte, if_pos (Nat.zero_le _), List.getD_eq_getElem _ _ hpos]
  exact fun h => partName.noNul (h ▸ List.getElem_mem hpos)

/-- Only the last byte of the identifier is left to what lies behind the literal. -/
private theorem isPartitionValid_iff {d : Drive} (hne : partName.text ≠ [])
    (hmin : kNeFSMinimumDiskSize ≤ dev.diskSize)
    (hd : d.part = formatBlock 1 dev lit partName blobCount) :
    isPartitionValid dev lit d = true ↔ lit.ident.behind 0 = 0 := by
  have hident : (∃ i : Fin kNeFSIdentLen, d.part.ident i ≠ lit.ident.byte i) ↔
      lit.ident.behind 0 ≠ 0 := by
    have hlast : lit.ident.byte 7 = lit.ident.behind 0 := by
      simp [CString.byte, lit.ident_eq, kNeFSIdent]
    rw [hd]
    constructor
    · intro h
      obtain ⟨i, hi⟩ := h
      rw [formatBlock_ident] at hi
      split at hi
      · exact absurd rfl hi
      · rename_i hout
        have hi7 : i.val = 7 := by
          have hlt : i.val < 8 := i.isLt
          omega
        rw [hi7, hlast] at hi
        exact Ne.symm hi
    · intro h
      refine ⟨(7 : Fin 8), ?_⟩
      rw [formatBlock_ident, if_neg (by decide)]
      exact fun heq => h (hlast ▸ heq.symm)
  have hfields : ¬ (d.part.diskSize ≠ dev.diskSize ∨ d.part.diskSize < 1 ∨
      d.part.sectorSize ≠ kSectorSize ∨ d.part.version ≠ kNeFSVersionInteger ∨
      d.part.startCatalog = 0) := by
    have hsize : (formatBlock 1 dev lit partName blobCount).diskSize = dev.diskSize := rfl
    have hpos : ¬ dev.diskSize < 1 := by
      have hle := UInt64.le_iff_toNat_le.mp hmin
      have hmin' : kNeFSMinimumDiskSize.toNat = 4294967296 := rfl
      have h1 : (1 : FSKit.SizeT).toNat = 1 := rfl
      rw [UInt64.lt_iff_toNat_lt, h1]
      omega
    rw [hd]
    simp only [hsize, hpos, ne_eq, not_true_eq_false, false_or, not_or]
    exact ⟨fun h => h rfl, fun h => h rfl, show ¬ kNeFSCatalogStartAddress = 0 by decide⟩
  have hname : ¬ d.part.Unnamed := hd ▸ formatBlock_name hne
  rw [isPartitionValid]
  by_cases hzero : lit.ident.behind 0 = 0
  · rw [if_neg (fun h => hident.mp h hzero), if_neg hfields, if_neg hname]
    simp [hzero]
  · rw [if_pos (hident.mpr hzero)]
    simp [hzero]

/-- A device that is large enough. -/
private theorem format_valid (lit : FormatLiterals) (more : List BFileDescriptor)
    (hne : partName.text ≠ []) (hlen : partName.text.length < 32)
    (hblob : blob.fFileName.text.length < 256) (hmin : kNeFSMinimumDiskSize ≤ dev.diskSize) :
    ∃ d, formatDisk 1 dev lit partName (blob :: more) = .done (true, d) ∧
      (isPartitionValid dev lit d = true ↔ lit.ident.behind 0 = 0) := by
  have hsizes : ¬ (512 < 8 + 1 * partName.strlen ∨ 512 < 1 * blob.fFileName.strlen) := by
    have hpart : partName.strlen = partName.text.length := rfl
    have hfile : blob.fFileName.strlen = blob.fFileName.text.length := rfl
    omega
  refine ⟨_, by rw [formatDisk, if_neg (UInt64.not_lt.mpr hmin), if_neg hsizes], ?_⟩
  generalize hb : formatBlock 1 dev lit partName (UInt64.ofNat (blob :: more).length) = b
  have hstart : b.startCatalog = kNeFSCatalogStartAddress := hb ▸ rfl
  have hkept : Drive.part (Store.put bootBlockLayout (dev.contents.putPart b) 1
      (formatEpm 1 lit b)) = b := part_put_epm _ _ _
  apply isPartitionValid_iff hne hmin
  rw [hstart, Drive.part_putCatalog _ _ (by decide), hkept]
  exact hb.symm

/-- A format is followed by a successful check exactly on a device that is large enough, and only
if the byte behind the identifier in memory is zero; on a small device the machine stops. -/
theorem format_then_valid_iff (dev : BootDevice) (lit : FormatLiterals) (more : List BFileDescriptor)
    (hne : partName.text ≠ []) (hlen : partName.text.length < 32)
    (hblob : blob.fFileName.text.length < 256) :
    FormatThenValid 1 dev lit partName (blob :: more) ↔
      kNeFSMinimumDiskSize ≤ dev.diskSize ∧ lit.ident.behind 0 = 0 := by
  by_cases hmin : kNeFSMinimumDiskSize ≤ dev.diskSize
  · obtain ⟨d, hd, hvalid⟩ := format_valid lit more hne hlen hblob hmin
    constructor
    · intro h
      obtain ⟨d', hd', hcheck⟩ := h.1 hmin
      cases hd.symm.trans hd'
      exact ⟨hmin, hvalid.mp hcheck⟩
    · intro h
      exact ⟨fun _ => ⟨d, hd, hvalid.mpr h.2⟩, fun hlt => absurd hmin (UInt64.not_le.mpr hlt)⟩
  · refine iff_of_false (fun h => ?_) fun h => hmin h.1
    have hsmall := h.2 (UInt64.not_le.mp hmin)
    rw [formatDisk, if_pos (UInt64.not_le.mp hmin)] at hsmall
    cases hsmall

end Valid

def sampleDevice (diskSize : FSKit.SizeT) : BootDevice := ⟨fun _ => 0, diskSize / 512, diskSize⟩

theorem format_then_valid_sample :
    FormatThenValid 1 (sampleDevice kNeFSMinimumDiskSize) bootLiterals
      (.literal kPartName (by decide)) [bootRoot] :=
  (format_then_valid_iff _ bootLiterals [] (by decide) (by decide) (by decide)).mpr
    ⟨UInt64.le_iff_toNat_le.mpr (le_refl _), rfl⟩

/-- The literals in front of something that is not zero. -/
def packedLiterals : FormatLiterals :=
  { bootLiterals with
    ident := { bootLiterals.ident with behind := fun _ => 1 }
    ident_eq := rfl }

/-- A block that was just written is refused, and a device that is too small is never reported. -/
theorem format_then_refused :
    ¬ FormatThenValid 1 (sampleDevice kNeFSMinimumDiskSize) packedLiterals
      (.literal kPartName (by decide)) [bootRoot] ∧
    ¬ FormatThenValid 1 (sampleDevice 0x100000) bootLiterals (.literal kPartName (by decide))
      [bootRoot] := by
  constructor
  · intro h
    have hmin : kNeFSMinimumDiskSize ≤ (sampleDevice kNeFSMinimumDiskSize).diskSize :=
      UInt64.le_iff_toNat_le.mpr (le_refl _)
    have hformat : ∃ d, formatDisk 1 (sampleDevice kNeFSMinimumDiskSize) packedLiterals
        (.literal kPartName (by decide)) [bootRoot] = .done (true, d) ∧
        (isPartitionValid (sampleDevice kNeFSMinimumDiskSize) packedLiterals d = true ↔
          packedLiterals.ident.behind 0 = 0) :=
      format_valid packedLiterals [] (by decide) (by decide) (by decide) hmin
    obtain ⟨d, hd, hvalid⟩ := hformat
    obtain ⟨d', hd', hcheck⟩ := h.1 hmin
    cases hd.symm.trans hd'
    exact absurd (hvalid.mp hcheck) (by decide)
  · intro h
    have hsmall : (sampleDevice 0x100000).diskSize < kNeFSMinimumDiskSize :=
      UInt64.lt_iff_toNat_lt.mpr (by decide)
    have hfalse := h.2 hsmall
    rw [formatDisk, if_pos hsmall] at hfalse
    cases hfalse

end Zka.BootKit
