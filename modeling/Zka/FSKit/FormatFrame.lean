import Zka.FSKit.PartitionMap
import Zka.Framework.Frame

/-!
# What the kernel's formatter keeps

Wherever it finds a free block, `NeFSParser::Format` describes the new partition at the
address of the first one.  The third entry of the partition map lies there too.
-/

namespace Zka.FSKit

open NewKit Outcome Relation

/-! ## The block that is written -/

/-- The identifier and the name come first in a block. -/
theorem partLayout_withHead (p : NfsRootPartitionBlock) (ident : Bytes 8) (name : Bytes 32)
    (i : Fin 512) : partLayout { p with ident := ident, partitionName := name } i =
      if h : i.val < 8 then ident ⟨i, h⟩
      else if h : i.val < 40 then name ⟨i - 8, by omega⟩
      else partLayout p i := by
  simp only [partLayout, Layout.map_apply, Layout.cast_apply]
  rw [Layout.append_apply, Layout.append_apply]
  by_cases h : i.val < 8
  · simp [h, Layout.bytes]
  · simp only [Fin.val_cast, h, dif_neg, not_false_eq_true]
    rw [Layout.append_apply, Layout.append_apply]
    by_cases h' : i.val - 8 < 32
    · have h40 : i.val < 40 := by omega
      simp [h', h40, Layout.bytes]
    · have h40 : ¬ i.val < 40 := by omega
      simp [h', h40]

section Block

variable {old : NfsRootPartitionBlock} {lit : FormatLiterals} {partName : CString}
  {sectorCount diskSize : SizeT}

/-- A name of up to 32 characters stays within its field. -/
theorem kernelPartBlock_eq (hlen : rtStringLen partName.text ≤ 32) :
    kernelPartBlock old lit partName sectorCount diskSize =
      { old with
        version := kNeFSVersionInteger
        ident := fun i => lit.ident.byte i
        partitionName := fun i =>
          if i.val < rtStringLen partName.text then partName.byte i else old.partitionName i
        kind := kNeFSPartitionTypeStandard
        startCatalog := kNeFSCatalogStartAddress
        flags := kNeFSPartitionTypeStandard
        catalogCount := sectorCount / 512
        sectorCount := sectorCount
        diskSize := diskSize
        freeCatalog := sectorCount / 512 } := by
  have himage : partLayout.symm (rtCopyMemory (rtCopyMemory
      (partLayout { old with version := kNeFSVersionInteger }) 0 lit.ident 8) 8 partName
        (rtStringLen partName.text)) =
      { old with
        version := kNeFSVersionInteger
        ident := fun i => lit.ident.byte i
        partitionName := fun i =>
          if i.val < rtStringLen partName.text then partName.byte i else old.partitionName i } := by
    rw [Equiv.symm_apply_eq]
    funext i
    have hold := partLayout_withHead { old with version := kNeFSVersionInteger } old.ident
      old.partitionName i
    rw [partLayout_withHead { old with version := kNeFSVersionInteger }, rtCopyMemory, rtCopyMemory]
    by_cases h8 : i.val < 8
    · have hno : ¬ (8 ≤ i.val ∧ i.val < 8 + rtStringLen partName.text) := by omega
      simp [h8, hno]
    · have hno : ¬ (0 ≤ i.val ∧ i.val < 0 + 8) := by omega
      rw [dif_neg h8, if_neg hno]
      rw [dif_neg h8] at hold
      by_cases h40 : i.val < 40
      · rw [dif_pos h40] at hold ⊢
        by_cases hin : i.val - 8 < rtStringLen partName.text
        · rw [if_pos (by omega), if_pos hin]
        · rw [if_neg (by omega), if_neg hin]
          exact hold
      · rw [dif_neg h40, if_neg (by omega)]
  rw [kernelPartBlock, himage]

theorem kernelPartBlock_ident (i : Fin 8) :
    (kernelPartBlock old lit partName sectorCount diskSize).ident i = lit.ident.byte i := by
  rw [kernelPartBlock, partLayout_symm_ident, rtCopyMemory, if_neg (by dsimp only; omega), rtCopyMemory,
    if_pos (by dsimp only; omega)]
  rfl

theorem kernelPartBlock_space :
    (kernelPartBlock old lit partName sectorCount diskSize).ident 0 = 32 := by
  rw [kernelPartBlock_ident]
  simp [CString.byte, lit.ident_eq, kNeFSIdent]

def PartitionNamed (b : NfsRootPartitionBlock) (name : List UInt8) : Prop :=
  cstr (List.ofFn b.partitionName) = name

/-- The name fits the field and what is left of the old one behind it is a terminator. -/
def NameFits (old : NfsRootPartitionBlock) (partName : CString) : Prop :=
  partName.text.length ≤ 32 ∧
    ∀ h : partName.text.length < 32, old.partitionName ⟨partName.text.length, h⟩ = 0

/-- A text copied over the front of a buffer is read back from it when what is left behind it
begins with a terminator. -/
theorem cstr_copied_iff {n : Nat} (buffer : Bytes n) (name : CString) :
    cstr (List.ofFn fun i : Fin n => if i.val < name.text.length then name.byte i else buffer i) =
        name.text ↔
      name.text.length ≤ n ∧ ∀ h : name.text.length < n, buffer ⟨name.text.length, h⟩ = 0 := by
  rw [cstr_eq_iff name.noNul]
  constructor
  · intro h
    rcases h with ⟨hstart, hend⟩
    refine ⟨by simpa using hstart.length_le, fun hlt => ?_⟩
    rw [List.getD_eq_getElem _ _ (by simpa using hlt)] at hend
    simpa using hend
  · intro h
    rcases h with ⟨hle, hzero⟩
    constructor
    · rw [List.prefix_iff_eq_take]
      apply List.ext_getElem
      · simpa using hle
      · intro i hi hi'
        have hbyte : name.byte i = name.text[i] := by
          rw [CString.byte, if_pos (Nat.le_of_lt hi), List.getD_eq_getElem _ _ hi]
        simp [hi, hbyte]
    · rcases Nat.lt_or_ge name.text.length n with hlt | hge
      · rw [List.getD_eq_getElem _ _ (by simpa using hlt)]
        simpa using hzero hlt
      · rw [List.getD_eq_default]
        simpa using hge

theorem kernelPartBlock_named_iff (hne : partName.text ≠ []) :
    PartitionNamed (kernelPartBlock old lit partName sectorCount diskSize) partName.text ↔
      NameFits old partName := by
  have hlen := rtStringLen_text partName.noNul hne
  by_cases hle : partName.text.length ≤ 32
  · rw [PartitionNamed, kernelPartBlock_eq (by omega), NameFits]
    dsimp only
    rw [hlen]
    exact cstr_copied_iff old.partitionName partName
  · refine iff_of_false (fun h => hle ?_) (fun h => hle h.1)
    rw [← congrArg List.length h]
    refine (cstr_isStart _).length_le.trans ?_
    rw [List.length_ofFn]

end Block

/-! ## Existing partitions -/

/-- The block at `a` is in use and belongs to the list of partitions. -/
def ExistingPartition (d : Drive) (lit : FormatLiterals) (a : Lba) : Prop :=
  ReflTransGen (fun a b => ¬ FreeBlock lit (partitionAt d a) ∧ b = a + (partitionAt d a).diskSize)
    kNeFSRootCatalogStartAddress a ∧ ¬ FreeBlock lit (partitionAt d a)

/-- The formatter returns, keeps the bytes of existing partitions, and where it reports success
there is a partition of the name, with the size of a sector, at the free place it has found. -/
def FormatKeeps (d : Drive) (lit : FormatLiterals) (endLba : Lba) (flags : Int32)
    (partName : CString) (sectorCount diskSize : SizeT) : Prop :=
  ∃ ok d', Yields (fun fuel => format fuel d lit endLba flags partName sectorCount diskSize) (ok, d') ∧
    (∀ a, ExistingPartition d lit a → ∀ x,
      x ∈ Extent.addresses ⟨a.toNat, 512⟩ ∨
        x ∈ Extent.addresses ⟨a.toNat, (partitionAt d a).diskSize.toNat⟩ → d' x = d x) ∧
    (ok = true → ∃ e a old, EpmWritten d endLba flags e ∧ FoundFree e lit d.part a old ∧
      PartitionNamed (partitionAt d' a) partName.text ∧
        (partitionAt d' a).sectorSize = kNeFSSectorSz)

/-- The first block is free and prepared for the name, the map has an empty entry if one is to be
written, and there is a root already. -/
def FormatFits (d : Drive) (lit : FormatLiterals) (endLba : Lba) (flags : Int32)
    (partName : CString) (sectorCount diskSize : SizeT) : Prop :=
  FreeBlock lit d.part ∧ NameFits d.part partName ∧ d.part.sectorSize = kNeFSSectorSz ∧
    ∃ e, EpmWritten d endLba flags e ∧
      HasRoot (e.putPart (kernelPartBlock d.part lit partName sectorCount diskSize))

section Keeps

variable {d e : Drive} {lit : FormatLiterals} {endLba : Lba} {flags : Int32} {partName : CString}
  {sectorCount diskSize : SizeT} {first old : NfsRootPartitionBlock} {a : Lba}

theorem foundFree_first (h : FreeBlock lit first) :
    FoundFree e lit first a old ↔ a = kNeFSRootCatalogStartAddress ∧ old = first := by
  constructor
  · intro hfound
    rcases hfound.1.cases_head with heq | ⟨t, ht, _⟩
    · cases heq
      exact ⟨rfl, rfl⟩
    · exact absurd h ht.1
  · intro heq
    obtain ⟨rfl, rfl⟩ := heq
    exact ⟨.refl, h⟩

private theorem not_existing (h : FreeBlock lit d.part) : ¬ ExistingPartition d lit a := by
  rw [← partitionAt_start] at h
  intro hex
  rcases hex.1.cases_head with heq | ⟨b, hb, _⟩
  · exact hex.2 (heq ▸ h)
  · exact hb.1 h

/-- The entry of the map goes to a slot that began with a zero, and it begins with a letter. -/
private theorem epmWritten_byte (he : EpmWritten d endLba flags e) {x : Nat} (hx : e x ≠ d x) :
    ∃ n, d (512 * n) = 0 ∧ 512 * n ≤ x ∧ x < 512 * n + 512 := by
  rw [EpmWritten] at he
  split at he
  · rw [he] at hx
    exact absurd rfl hx
  · obtain ⟨n, hn, rfl⟩ := he
    refine ⟨n, hn.empty, ?_⟩
    by_contra hout
    exact hx (Store.put_outside _ _ _ (by omega))

/-- With the first block in use, either it is written over or nothing is written at the place that
was found. -/
private theorem not_keeps_of_used (hreq : ¬ (partName.text = [] ∨ endLba = 0))
    (hused : ¬ FreeBlock lit d.part) :
    ¬ FormatKeeps d lit endLba flags partName sectorCount diskSize := by
  intro hkeeps
  obtain ⟨ok, d', hy, hkept, hdone⟩ := hkeeps
  obtain ⟨e, _, old, he, _, _, _, rfl, rfl⟩ := (yields_format_iff hreq).mp hy
  obtain ⟨e', a', old', he', hfound, hnamed, _⟩ := hdone rfl
  have hsame : e' = e := by
    have hmono := writeEpm_mono d endLba flags
    exact (yields_writeEpm_iff.mpr he').unique hmono (yields_writeEpm_iff.mpr he)
  subst hsame
  generalize hblock : kernelPartBlock old lit partName sectorCount diskSize = block at *
  have hfirst : ∀ x, 1024 ≤ x → x < 1536 → (e'.putPart block) x = d x := by
    intro x hx hlt
    have hex : ExistingPartition d lit kNeFSRootCatalogStartAddress :=
      ⟨.refl, by rwa [partitionAt_start]⟩
    exact hkept _ hex x (Or.inl ⟨hx, hlt⟩)
  have hpart : d.part = block := by
    rw [← Drive.part_putPart e' block]
    exact Drive.part_congr fun x hx hlt => (hfirst x hx hlt).symm
  -- so the entry of the map was not written there, and the drive is what the search has seen
  have hdrive : e'.putPart block = e' := by
    funext x
    by_cases hin : 1024 ≤ x ∧ x < 1536
    · rw [hfirst x hin.1 hin.2]
      by_contra hne
      obtain ⟨n, hzero, hle, hlt⟩ := epmWritten_byte he (Ne.symm hne)
      have hn : 512 * n = 1024 := by omega
      have hident : d.part.ident 0 = d 1024 := part_ident d 0
      rw [hn, ← hident, hpart, ← hblock, kernelPartBlock_space] at hzero
      exact absurd hzero (by decide)
    · exact Drive.putPart_outside _ (by omega)
  rw [hdrive] at hnamed
  rcases hfound.1.cases_tail with heq | ⟨s, _, hstep⟩
  · cases heq
    exact hused hfound.2
  · have hold : old' = partitionAt e' a' := by
      have hpair := hstep.2
      rw [Prod.mk.injEq] at hpair
      rw [hpair.2, hpair.1]
    have hempty : old'.partitionName 0 = 0 := hfound.2.1
    rw [hold] at hempty
    rw [PartitionNamed, List.ofFn_succ, hempty] at hnamed
    exact hreq (Or.inl hnamed.symm)

/-- The formatter does what it should exactly where it has nothing to do or the first block is
free, the name goes into it, its sector size is there already and so is the root. -/
theorem format_keeps_iff (d : Drive) (lit : FormatLiterals) (endLba : Lba) (flags : Int32)
    (partName : CString) (sectorCount diskSize : SizeT) :
    FormatKeeps d lit endLba flags partName sectorCount diskSize ↔
      (partName.text = [] ∨ endLba = 0) ∨
        FormatFits d lit endLba flags partName sectorCount diskSize := by
  by_cases hreq : partName.text = [] ∨ endLba = 0
  · refine iff_of_true ?_ (Or.inl hreq)
    exact ⟨false, d, (format_refused hreq).mpr ⟨rfl, rfl⟩, fun _ _ _ _ => rfl,
      fun h => Bool.noConfusion h⟩
  rw [or_iff_right hreq]
  have hne : partName.text ≠ [] := fun h => hreq (Or.inl h)
  constructor
  · intro hkeeps
    by_cases hfree : FreeBlock lit d.part
    swap
    · exact absurd hkeeps (not_keeps_of_used hreq hfree)
    obtain ⟨ok, d', hy, _, hdone⟩ := hkeeps
    obtain ⟨e, _, old, he, hfound, _, hroot, rfl, rfl⟩ := (yields_format_iff hreq).mp hy
    obtain ⟨_, rfl⟩ := (foundFree_first hfree).mp hfound
    obtain ⟨_, a, old', _, hfound', hnamed, hsector⟩ := hdone rfl
    obtain ⟨rfl, _⟩ := (foundFree_first hfree).mp hfound'
    rw [partitionAt_start, Drive.part_putPart] at hnamed hsector
    have hfits := (kernelPartBlock_named_iff hne).mp hnamed
    have hlen := rtStringLen_text partName.noNul hne
    rw [kernelPartBlock_eq (by rw [hlen]; exact hfits.1)] at hsector
    exact ⟨hfree, hfits, hsector, e, he, hroot⟩
  · intro hcond
    obtain ⟨hfree, hfits, hsector, e, he, hroot⟩ := hcond
    have hlen := rtStringLen_text partName.noNul hne
    have hle := hfits.1
    have hfound : FoundFree e lit d.part kNeFSRootCatalogStartAddress d.part := ⟨.refl, hfree⟩
    refine ⟨true, _, (yields_format_iff hreq).mpr
      ⟨e, _, _, he, hfound, by omega, hroot, rfl, rfl⟩, ?_, ?_⟩
    · intro a hex
      exact absurd hex (not_existing hfree)
    · intro _
      refine ⟨e, _, _, he, hfound, ?_, ?_⟩
      · rw [partitionAt_start, Drive.part_putPart]
        exact (kernelPartBlock_named_iff hne).mpr hfits
      · rw [partitionAt_start, Drive.part_putPart, kernelPartBlock_eq (by omega)]
        exact hsector

end Keeps

/-- The record of the root as it is created. -/
def rootRecord : NfsCatalogStruct :=
  { NfsCatalogStruct.zero with
    name := charBuffer 256 kNeFSRoot
    flags := kNeFSFlagCreated
    kind := kNeFSCatalogKindDir }

/-- A drive with an empty map, no partition and a root directory. -/
def rootDrive : Drive := Drive.putCatalog (fun _ => 0) kNeFSCatalogStartAddress rootRecord

def usedBlock : NfsRootPartitionBlock :=
  { NfsRootPartitionBlock.zero with
    ident := charBuffer 8 kNeFSIdent
    partitionName := charBuffer 32 kPartName
    startCatalog := kNeFSCatalogStartAddress
    diskSize := kNeFSMinimumDiskSize
    sectorSize := kNeFSSectorSz }

/-- The same with a partition, and nothing behind it. -/
def usedDrive : Drive := rootDrive.putPart usedBlock

theorem format_overwrites : ¬ FormatKeeps usedDrive bootLiterals 4096 kNeFSPartitionTypeStandard
    (.literal kPartName (by decide)) 0x800000 kNeFSMinimumDiskSize := by
  refine not_keeps_of_used (by decide) fun hfree => ?_
  rw [usedDrive, Drive.part_putPart] at hfree
  exact absurd hfree.1 (by decide)

/-! ## The order of the map -/

def entryEnd (b : BootBlockStruct) : Int := b.lbaStart.toInt + b.lbaEnd.toInt

structure WellFormedEntry (b : BootBlockStruct) : Prop where
  magic : b.magic = charBuffer 5 kEPMMagic
  start : 0 ≤ b.lbaStart.toInt
  size : 0 ≤ b.lbaEnd.toInt
  bounded : entryEnd b < 2 ^ 63

/-- The map holds `n` well-formed entries and then an empty one. -/
structure WellFormedMap (d : Drive) (n : Nat) : Prop where
  addressed : n < 2 ^ 55
  entries : ∀ k < n, WellFormedEntry (mapEntry d k)
  empty : d (512 * n) = 0

/-- The formatter returns, the first empty slot holds its entry, which begins behind all others,
and the others are as they were. -/
def MapKept (d : Drive) (lit : FormatLiterals) (endLba : Lba) (partName : CString)
    (sectorCount diskSize : SizeT) (n : Nat) : Prop :=
  ∃ ok d', Yields (fun fuel => format fuel d lit endLba kNeFSPartitionTypeBoot partName sectorCount
      diskSize) (ok, d') ∧
    (mapEntry d' n).magic = charBuffer 5 kEPMMagic ∧ (mapEntry d' n).lbaEnd = endLba.toInt64 ∧
    (∀ k < n, entryEnd (mapEntry d k) ≤ (mapEntry d' n).lbaStart.toInt) ∧
    ∀ k < n, mapEntry d' k = mapEntry d k

/-- Behind the map the formatter finds what it needs to return. -/
def FormatReturns (e : Drive) (lit : FormatLiterals) (first : NfsRootPartitionBlock)
    (partName : CString) (sectorCount diskSize : SizeT) : Prop :=
  ∃ a old, FoundFree e lit first a old ∧ 8 + rtStringLen partName.text ≤ 512 ∧
    HasRoot (e.putPart (kernelPartBlock old lit partName sectorCount diskSize))

section Map

variable {d d' e : Drive} {lit : FormatLiterals} {endLba : Lba} {partName : CString}
  {sectorCount diskSize : SizeT} {n k : Nat} {b : NfsRootPartitionBlock}

theorem mapEntry_magic (d : Drive) (n : Nat) : (mapEntry d n).magic 0 = d (512 * n) :=
  get_bootBlock_magic d (512 * n) 0

theorem WellFormedMap.firstEmpty (h : WellFormedMap d n) : FirstEmpty d n := by
  refine ⟨h.addressed, h.empty, fun k hk => ?_⟩
  rw [← mapEntry_magic d k, (h.entries k hk).magic]
  decide

private theorem FirstEmpty.unique {m : Nat} (hn : FirstEmpty d n) (hm : FirstEmpty d m) : n = m := by
  rcases Nat.lt_trichotomy n m with hlt | heq | hgt
  · exact absurd hn.empty (hm.taken n hlt)
  · exact heq
  · exact absurd hm.empty (hn.taken m hgt)

private theorem mapEntry_withEntry : mapEntry (withEntry d n endLba) n =
    kernelEpmBlock (epmScan d n) endLba :=
  Store.get_put_same _ _ _ _

private theorem mapEntry_withEntry_ne (h : k ≠ n) :
    mapEntry (withEntry d n endLba) k = mapEntry d k :=
  Store.get_put_apart _ _ _ _ (by omega)

/-- Only the third slot lies where the partition is described. -/
private theorem mapEntry_putPart (h : k ≤ 1) : mapEntry (e.putPart b) k = mapEntry e k :=
  Store.get_put_apart _ _ _ _ (Or.inl (by change 512 * k + 512 ≤ 1024; omega))

private theorem mapEntry_third (hb : b.ident 0 = 32) :
    (mapEntry (e.putPart b) 2).magic 0 ≠ charBuffer 5 kEPMMagic 0 := by
  have hident := part_ident (e.putPart b) 0
  rw [Drive.part_putPart, hb] at hident
  rw [mapEntry_magic]
  exact hident ▸ by decide

/-- Where the new entry begins: at zero, or at its own place in the map. -/
private theorem lbaStart_second (h : WellFormedEntry (mapEntry d 0)) :
    (kernelEpmBlock (epmScan d 1) endLba).lbaStart.toInt =
      if entryEnd (mapEntry d 0) = 0 then 0 else 512 := by
  have hsum : ((mapEntry d 0).lbaStart + (mapEntry d 0).lbaEnd).toInt = entryEnd (mapEntry d 0) := by
    have hbound := h.bounded
    have hstart := h.start
    have hsize := h.size
    rw [entryEnd] at hbound ⊢
    rw [Int64.toInt_add, Int.bmod_eq_of_le (by omega) (by omega)]
  have hprev : (epmScan d 1).prevStart =
      ((mapEntry d 0).lbaStart + (mapEntry d 0).lbaEnd).toUInt64 := rfl
  have hzero : (epmScan d 1).prevStart = 0 ↔ entryEnd (mapEntry d 0) = 0 := by
    rw [hprev, ← hsum, ← Int64.toInt_zero, Int64.toInt_inj]
    exact ⟨fun h => congrArg UInt64.toInt64 h, fun h => congrArg Int64.toUInt64 h⟩
  have hlba : (kernelEpmBlock (epmScan d 1) endLba).lbaStart =
      if (epmScan d 1).prevStart ≠ 0 then (epmScan d 1).outEpmLba.toInt64 else 0 := rfl
  rw [hlba]
  by_cases hend : entryEnd (mapEntry d 0) = 0
  · rw [if_pos hend, if_neg (not_not.mpr (hzero.mpr hend))]
    rfl
  · have h512 : (epmScan d 1).outEpmLba = 512 := by
      rw [epmScan, epmScan]
      rfl
    rw [if_neg hend, if_pos (mt hzero.mp hend), h512]
    decide

/-- Formatting writes to the first empty slot of a well-formed map. -/
private theorem WellFormedMap.written_iff (hmap : WellFormedMap d n) :
    EpmWritten d endLba kNeFSPartitionTypeBoot e ↔ e = withEntry d n endLba := by
  rw [EpmWritten, if_neg (by decide)]
  constructor
  · intro h
    obtain ⟨m, hm, rfl⟩ := h
    rw [hm.unique hmap.firstEmpty]
  · intro h
    exact ⟨n, hmap.firstEmpty, h⟩

private theorem WellFormedMap.start_iff (hmap : WellFormedMap d n) (hn : n ≤ 1) :
    (∀ k < n, entryEnd (mapEntry d k) ≤ (kernelEpmBlock (epmScan d n) endLba).lbaStart.toInt) ↔
      ∀ k < n, entryEnd (mapEntry d k) ≤ 512 := by
  rcases Nat.le_one_iff_eq_zero_or_eq_one.mp hn with rfl | rfl
  · simp
  · have hfirst := hmap.entries 0 Nat.one_pos
    simp only [Nat.lt_one_iff, forall_eq, lbaStart_second hfirst]
    split
    · rename_i hzero
      simp [hzero]
    · exact Iff.rfl

/-- A refused call writes no entry. -/
private theorem mapKept_request (hmap : WellFormedMap d n)
    (hkept : MapKept d lit endLba partName sectorCount diskSize n) :
    ¬ (partName.text = [] ∨ endLba = 0) := by
  intro hreq
  obtain ⟨ok, d', hy, hmagic, _⟩ := hkept
  obtain ⟨_, rfl⟩ := (format_refused hreq).mp hy
  have hzero := mapEntry_magic d' n
  rw [hmagic, hmap.empty] at hzero
  exact absurd hzero (by decide)

private theorem mapKept_le (hmap : WellFormedMap d n)
    (hkept : MapKept d lit endLba partName sectorCount diskSize n) : n ≤ 1 := by
  by_contra hn
  have hreq := mapKept_request hmap hkept
  obtain ⟨ok, d', hy, hmagic, _, _, hrest⟩ := hkept
  obtain ⟨e, a, old, _, _, _, _, _, rfl⟩ := (yields_format_iff hreq).mp hy
  have hthird : (mapEntry (e.putPart (kernelPartBlock old lit partName sectorCount diskSize)) 2).magic =
      charBuffer 5 kEPMMagic := by
    rcases Nat.eq_or_lt_of_le (show 2 ≤ n by omega) with heq | hlt
    · rw [heq, hmagic]
    · rw [hrest 2 hlt, (hmap.entries 2 hlt).magic]
  exact mapEntry_third kernelPartBlock_space (congrFun hthird 0)

private theorem mapKept_order (hmap : WellFormedMap d n)
    (hkept : MapKept d lit endLba partName sectorCount diskSize n) :
    (∀ k < n, entryEnd (mapEntry d k) ≤ 512) ∧
      FormatReturns (withEntry d n endLba) lit d.part partName sectorCount diskSize := by
  have hn := mapKept_le hmap hkept
  have hreq := mapKept_request hmap hkept
  obtain ⟨ok, d', hy, _, _, horder, _⟩ := hkept
  obtain ⟨e, a, old, he, hfound, hlen, hroot, rfl, rfl⟩ := (yields_format_iff hreq).mp hy
  obtain rfl := hmap.written_iff.mp he
  rw [mapEntry_putPart hn, mapEntry_withEntry] at horder
  exact ⟨(hmap.start_iff hn).mp horder, a, old, hfound, hlen, hroot⟩

/-- The map is kept in order exactly with at most one entry before the new one, of at most one
sector; the third slot is where the partition is described. -/
theorem format_map_iff (lit : FormatLiterals) (endLba : Lba) (partName : CString)
    (sectorCount diskSize : SizeT) (hmap : WellFormedMap d n) :
    MapKept d lit endLba partName sectorCount diskSize n ↔
      ¬ (partName.text = [] ∨ endLba = 0) ∧ n ≤ 1 ∧ (∀ k < n, entryEnd (mapEntry d k) ≤ 512) ∧
        FormatReturns (withEntry d n endLba) lit d.part partName sectorCount diskSize := by
  constructor
  · intro hkept
    exact ⟨mapKept_request hmap hkept, mapKept_le hmap hkept, mapKept_order hmap hkept⟩
  · intro hcond
    obtain ⟨hreq, hn, hsmall, a, old, hfound, hlen, hroot⟩ := hcond
    refine ⟨true, _, (yields_format_iff hreq).mpr
      ⟨_, a, old, hmap.written_iff.mpr rfl, hfound, hlen, hroot, rfl, rfl⟩, ?_, ?_, ?_, ?_⟩
    · rw [mapEntry_putPart hn, mapEntry_withEntry]
      rfl
    · rw [mapEntry_putPart hn, mapEntry_withEntry]
      rfl
    · rw [mapEntry_putPart hn, mapEntry_withEntry]
      exact (hmap.start_iff hn).mpr hsmall
    · intro k hk
      rw [mapEntry_putPart (by omega), mapEntry_withEntry_ne (Nat.ne_of_lt hk)]

end Map

theorem rootDrive_low {x : Nat} (hx : x < 2560) : rootDrive x = 0 :=
  Drive.putCatalog_outside _ (Or.inl hx)

/-- What is written below the catalogs leaves the root where it is. -/
theorem rootDrive_hasRoot {e : Drive} (h : ∀ x, 2560 ≤ x → e x = rootDrive x)
    {b : NfsRootPartitionBlock} (hb : b.startCatalog = kNeFSCatalogStartAddress) :
    HasRoot (e.putPart b) := by
  have hroot : (e.putPart b).catalog kNeFSCatalogStartAddress = rootRecord := by
    have hstored : rootDrive.catalog kNeFSCatalogStartAddress = rootRecord :=
      Drive.catalog_putCatalog _ _
    rw [Drive.catalog_putPart _ _ (by decide), ← hstored]
    exact Drive.catalog_congr fun x hx _ => h x hx
  refine ⟨kNeFSCatalogStartAddress, ?_, ?_⟩
  · rw [Drive.part_putPart, hb]
  · rw [hroot]
    constructor
    · decide
    · decide

theorem format_map_empty : MapKept rootDrive bootLiterals 4096 (.literal kPartName (by decide))
    0x800000 kNeFSMinimumDiskSize 0 := by
  have hmap : WellFormedMap rootDrive 0 :=
    ⟨by decide, fun k hk => absurd hk (Nat.not_lt_zero k), rootDrive_low (by decide)⟩
  have hpart : rootDrive.part = .zero := part_of_zero fun x _ hlt => rootDrive_low (by omega)
  have hfree : FreeBlock bootLiterals rootDrive.part := by
    rw [hpart]
    exact ⟨rfl, 0, by decide⟩
  refine (format_map_iff bootLiterals 4096 (.literal kPartName (by decide)) 0x800000
    kNeFSMinimumDiskSize hmap).mpr ⟨by decide, by decide, ?_, ?_⟩
  · intro k hk
    exact absurd hk (Nat.not_lt_zero k)
  · refine ⟨_, _, ⟨.refl, hfree⟩, by decide, rootDrive_hasRoot ?_ rfl⟩
    intro x hx
    exact Store.put_outside _ _ _ (Or.inr (by omega))

/-- One entry, of eight sectors. -/
def largeEntry : BootBlockStruct :=
  { BootBlockStruct.zero with
    magic := charBuffer 5 kEPMMagic
    lbaEnd := 4096 }

/-- The new entry begins inside the one before it. -/
theorem format_map_overlap :
    WellFormedMap (Store.put bootBlockLayout rootDrive 0 largeEntry) 1 ∧
    ¬ MapKept (Store.put bootBlockLayout rootDrive 0 largeEntry) bootLiterals 4096
      (.literal kPartName (by decide)) 0x800000 kNeFSMinimumDiskSize 1 := by
  have hentry : mapEntry (Store.put bootBlockLayout rootDrive 0 largeEntry) 0 = largeEntry :=
    Store.get_put_same _ _ _ _
  have hmap : WellFormedMap (Store.put bootBlockLayout rootDrive 0 largeEntry) 1 := by
    refine ⟨by decide, fun k hk => ?_, ?_⟩
    · rw [Nat.lt_one_iff.mp hk, hentry]
      exact ⟨rfl, by decide, by decide, by decide⟩
    · rw [Store.put_outside _ _ _ (Or.inr (by decide))]
      exact rootDrive_low (by decide)
  refine ⟨hmap, fun hkept => ?_⟩
  have hsmall := (mapKept_order hmap hkept).1 0 Nat.one_pos
  rw [hentry] at hsmall
  exact absurd hsmall (by decide)

end Zka.FSKit
