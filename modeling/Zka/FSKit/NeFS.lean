import Zka.Framework.Store
import Zka.NewKit.Text

/-!
# NeFS on-disk records

The three packed 512-byte records of the file system, their constants and the
typed accesses to an ideal byte-addressed drive.
-/

namespace Zka.FSKit

abbrev Lba := UInt64
abbrev SizeT := UInt64

def kNeFSNodeNameLen : Nat := 256
def kNeFSMimeNameLen : Nat := 200
def kNeFSForkNameLen : Nat := 200
def kNeFSSectorSz : SizeT := 512
def kNeFSForkDataSz : SizeT := 16 * 1024 * 1024
def kNeFSMinimumDiskSize : SizeT := 4 * 1024 * 1024 * 1024
def kNeFSVersionInteger : UInt64 := 0x0129

def kNeFSPartitionTypeStandard : Int32 := 7
def kNeFSPartitionTypeBoot : Int32 := 9
def kNeFSHardDrive : Int32 := 0xC0

def kNeFSCatalogKindFile : Int32 := 1
def kNeFSCatalogKindDir : Int32 := 2

def kNeFSRsrcForkKind : Int32 := 0
def kNeFSDataForkKind : Int32 := 1

/-- The block at which the partition is described. -/
def kNeFSRootCatalogStartAddress : Lba := 1024

/-- The first catalog slot: `2048 + sizeof(NFS_ROOT_PARTITION_BLOCK)`. -/
def kNeFSCatalogStartAddress : Lba := 2048 + 512

def kNeFSFlagDeleted : UInt16 := 70
def kNeFSFlagUnallocated : UInt16 := 0
def kNeFSFlagCreated : UInt16 := 71

/-- `kNeFSSeparator`, the character `/`. -/
def kNeFSSeparator : UInt8 := 47

/-- `kNeFSRoot`, the string `"/"`. -/
def kNeFSRoot : List UInt8 := [kNeFSSeparator]

/-- `kNeFSIdent`, the string `"  NeFS"`. -/
def kNeFSIdent : List UInt8 := [32, 32, 78, 101, 70, 83]

/-- `kBadAddress` of the kernel's macros. -/
def kBadAddress : Lba := 0

/-- A character buffer filled from the front and zero behind. -/
def charBuffer (n : Nat) (text : List UInt8) : Bytes n := fun i => text.getD i 0

structure NfsCatalogStruct where
  name : Bytes 256
  mime : Bytes 200
  flags : UInt16
  filkMMFlags : UInt16
  kind : Int32
  dataForkSize : Lba
  resourceForkSize : Lba
  dataFork : Lba
  resourceFork : Lba
  nextSibling : Lba
  prevSibling : Lba
  deriving DecidableEq

structure NfsForkStruct where
  forkName : Bytes 200
  catalogName : Bytes 256
  flags : Int32
  kind : Int32
  resourceId : Int64
  resourceKind : Int32
  resourckMMFlags : Int32
  dataOffset : Lba
  dataSize : SizeT
  nextSibling : Lba
  previousSibling : Lba
  deriving DecidableEq

structure NfsRootPartitionBlock where
  ident : Bytes 8
  partitionName : Bytes 32
  flags : Int32
  kind : Int32
  startCatalog : Lba
  catalogCount : SizeT
  diskSize : SizeT
  freeCatalog : SizeT
  freeSectors : SizeT
  sectorCount : SizeT
  sectorSize : SizeT
  version : UInt64
  epmBlock : Lba
  pad : Bytes 392
  deriving DecidableEq

open Layout in
/-- The 512 bytes of a catalog record in declaration order. -/
def catalogLayout : Layout NfsCatalogStruct 512 :=
  ((bytes 256).append <| (bytes 200).append <| u16.append <| u16.append <| i32.append <|
    u64.append <| u64.append <| u64.append <| u64.append <| u64.append u64).cast rfl |>.map
  { toFun c := (c.name, c.mime, c.flags, c.filkMMFlags, c.kind, c.dataForkSize,
      c.resourceForkSize, c.dataFork, c.resourceFork, c.nextSibling, c.prevSibling)
    invFun := fun (a, b, c, d, e, f, g, h, i, j, k) => ⟨a, b, c, d, e, f, g, h, i, j, k⟩
    left_inv _ := rfl
    right_inv _ := rfl }

open Layout in
def forkLayout : Layout NfsForkStruct 512 :=
  ((bytes 200).append <| (bytes 256).append <| i32.append <| i32.append <| i64.append <|
    i32.append <| i32.append <| u64.append <| u64.append <| u64.append u64).cast rfl |>.map
  { toFun f := (f.forkName, f.catalogName, f.flags, f.kind, f.resourceId, f.resourceKind,
      f.resourckMMFlags, f.dataOffset, f.dataSize, f.nextSibling, f.previousSibling)
    invFun := fun (a, b, c, d, e, f, g, h, i, j, k) => ⟨a, b, c, d, e, f, g, h, i, j, k⟩
    left_inv _ := rfl
    right_inv _ := rfl }

open Layout in
def partLayout : Layout NfsRootPartitionBlock 512 :=
  ((bytes 8).append <| (bytes 32).append <| i32.append <| i32.append <| u64.append <|
    u64.append <| u64.append <| u64.append <| u64.append <| u64.append <| u64.append <|
    u64.append <| u64.append (bytes 392)).cast rfl |>.map
  { toFun p := (p.ident, p.partitionName, p.flags, p.kind, p.startCatalog, p.catalogCount,
      p.diskSize, p.freeCatalog, p.freeSectors, p.sectorCount, p.sectorSize, p.version,
      p.epmBlock, p.pad)
    invFun := fun (a, b, c, d, e, f, g, h, i, j, k, l, m, n) =>
      ⟨a, b, c, d, e, f, g, h, i, j, k, l, m, n⟩
    left_inv _ := rfl
    right_inv _ := rfl }

def NfsCatalogStruct.zero : NfsCatalogStruct :=
  ⟨fun _ => 0, fun _ => 0, 0, 0, 0, 0, 0, 0, 0, 0, 0⟩

def NfsForkStruct.zero : NfsForkStruct :=
  ⟨fun _ => 0, fun _ => 0, 0, 0, 0, 0, 0, 0, 0, 0, 0⟩

def NfsRootPartitionBlock.zero : NfsRootPartitionBlock :=
  ⟨fun _ => 0, fun _ => 0, 0, 0, 0, 0, 0, 0, 0, 0, 0, 0, 0, fun _ => 0⟩

theorem bytes_zero (n : Nat) : Layout.bytes n (fun _ => 0) = fun _ => 0 := rfl

open Layout in
theorem catalogLayout_zero : catalogLayout NfsCatalogStruct.zero = fun _ => 0 :=
  map_zero <| cast_zero _ <| append_zero (bytes_zero _) <| append_zero (bytes_zero _) <| append_zero u16_zero <|
    append_zero u16_zero <| append_zero i32_zero <| append_zero u64_zero <|
    append_zero u64_zero <| append_zero u64_zero <| append_zero u64_zero <|
    append_zero u64_zero u64_zero

open Layout in
theorem forkLayout_zero : forkLayout NfsForkStruct.zero = fun _ => 0 :=
  map_zero <| cast_zero _ <| append_zero (bytes_zero _) <| append_zero (bytes_zero _) <| append_zero i32_zero <|
    append_zero i32_zero <| append_zero i64_zero <| append_zero i32_zero <|
    append_zero i32_zero <| append_zero u64_zero <| append_zero u64_zero <|
    append_zero u64_zero u64_zero

/-! ## Typed access to the drive -/

/-- The contents of an ideal byte-addressed drive; every packet is good. -/
abbrev Drive := Store

namespace Drive

def catalog (d : Drive) (lba : Lba) : NfsCatalogStruct := d.get catalogLayout lba.toNat

def putCatalog (d : Drive) (lba : Lba) (c : NfsCatalogStruct) : Drive :=
  d.put catalogLayout lba.toNat c

def fork (d : Drive) (lba : Lba) : NfsForkStruct := d.get forkLayout lba.toNat

def putFork (d : Drive) (lba : Lba) (f : NfsForkStruct) : Drive := d.put forkLayout lba.toNat f

def part (d : Drive) : NfsRootPartitionBlock :=
  d.get partLayout kNeFSRootCatalogStartAddress.toNat

def putPart (d : Drive) (p : NfsRootPartitionBlock) : Drive :=
  d.put partLayout kNeFSRootCatalogStartAddress.toNat p

variable (d : Drive) {a b : Lba} (c : NfsCatalogStruct) (p : NfsRootPartitionBlock)

theorem part_putPart : (d.putPart p).part = p := Store.get_put_same _ _ _ _

theorem catalog_putCatalog : (d.putCatalog a c).catalog a = c := Store.get_put_same _ _ _ _

/-- What lies behind the partition block is not part of it. -/
theorem part_putCatalog (h : 1536 ≤ a.toNat) : (d.putCatalog a c).part = d.part :=
  Store.get_put_apart _ _ _ _ (Or.inl h)

theorem catalog_putPart (h : 1536 ≤ a.toNat) : (d.putPart p).catalog a = d.catalog a :=
  Store.get_put_apart _ _ _ _ (Or.inr h)

theorem catalog_putCatalog_apart (h : b.toNat + 512 ≤ a.toNat ∨ a.toNat + 512 ≤ b.toNat) :
    (d.putCatalog a c).catalog b = d.catalog b :=
  Store.get_put_apart _ _ _ _ h

theorem putCatalog_catalog : d.putCatalog a (d.catalog a) = d := Store.put_get _ _ _

/-! Records depend on their own bytes only. -/

variable {d} {d' : Drive} {f : NfsForkStruct}

theorem part_congr (h : ∀ x, 1024 ≤ x → x < 1536 → d x = d' x) : d.part = d'.part :=
  Store.get_congr _ h

theorem catalog_congr (h : ∀ x, a.toNat ≤ x → x < a.toNat + 512 → d x = d' x) :
    d.catalog a = d'.catalog a :=
  Store.get_congr _ h

theorem fork_congr (h : ∀ x, a.toNat ≤ x → x < a.toNat + 512 → d x = d' x) :
    d.fork a = d'.fork a :=
  Store.get_congr _ h

theorem catalog_of_zero (h : ∀ x, a.toNat ≤ x → x < a.toNat + 512 → d x = 0) :
    d.catalog a = .zero :=
  Store.get_of_zero _ catalogLayout_zero h

theorem fork_of_zero (h : ∀ x, a.toNat ≤ x → x < a.toNat + 512 → d x = 0) : d.fork a = .zero :=
  Store.get_of_zero _ forkLayout_zero h

theorem fork_putFork : (d.putFork a f).fork a = f := Store.get_put_same _ _ _ _

theorem putFork_putFork {g : NfsForkStruct} : (d.putFork a f).putFork a g = d.putFork a g :=
  Store.put_put_same _ _ _ _ _

theorem putFork_outside {x : Nat} (h : x < a.toNat ∨ a.toNat + 512 ≤ x) : d.putFork a f x = d x :=
  Store.put_outside _ _ _ h

theorem putCatalog_outside {x : Nat} (h : x < a.toNat ∨ a.toNat + 512 ≤ x) :
    d.putCatalog a c x = d x :=
  Store.put_outside _ _ _ h

theorem putPart_outside {x : Nat} (h : x < 1024 ∨ 1536 ≤ x) : d.putPart p x = d x :=
  Store.put_outside _ _ _ h

-- from here on records are only known through these lemmas; the layouts are large terms
attribute [irreducible] part catalog fork

end Drive

namespace NfsCatalogStruct

/-- The bytes a character pointer to the record's name runs over. -/
def nameChars (c : NfsCatalogStruct) : List UInt8 := List.ofFn c.name

def nameText (c : NfsCatalogStruct) : List UInt8 := NewKit.cstr c.nameChars

/-- The mask test by which the code recognises a live record. -/
def Created (c : NfsCatalogStruct) : Prop := c.flags &&& kNeFSFlagCreated ≠ 0

instance (c : NfsCatalogStruct) : Decidable c.Created := inferInstanceAs (Decidable (_ ≠ _))

end NfsCatalogStruct

namespace NfsForkStruct

def forkNameChars (f : NfsForkStruct) : List UInt8 := List.ofFn f.forkName

theorem forkNameChars_head (f : NfsForkStruct) : f.forkNameChars.getD 0 0 = f.forkName 0 := by
  rw [forkNameChars, List.ofFn_succ]
  rfl

def catalogNameChars (f : NfsForkStruct) : List UInt8 := List.ofFn f.catalogName

def Created (f : NfsForkStruct) : Prop := f.flags &&& kNeFSFlagCreated.toUInt32.toInt32 ≠ 0

instance (f : NfsForkStruct) : Decidable f.Created := inferInstanceAs (Decidable (_ ≠ _))

end NfsForkStruct

/-- A text shorter than its buffer is read back from it. -/
theorem cstr_charBuffer {n : Nat} {text : List UInt8} (h0 : 0 ∉ text) (hlen : text.length < n) :
    NewKit.cstr (List.ofFn (charBuffer n text)) = text := by
  have hsplit : List.ofFn (charBuffer n text) =
      text ++ 0 :: List.replicate (n - text.length - 1) 0 := by
    apply List.ext_getElem
    · simp
      omega
    · intro i hi hi'
      simp only [List.getElem_ofFn, charBuffer]
      rcases Nat.lt_or_ge i text.length with h | h
      · rw [List.getElem_append_left h, List.getD_eq_getElem _ _ h]
      · rw [List.getElem_append_right h, List.getD_eq_default _ _ h]
        have hz : ∀ (k : Nat) (hk : k < (0 :: List.replicate (n - text.length - 1) (0 : UInt8)).length),
            (0 :: List.replicate (n - text.length - 1) (0 : UInt8))[k] = 0 := by
          intro k hk
          cases k <;> simp
        exact (hz _ _).symm
  rw [hsplit, NewKit.cstr_append_zero h0]

end Zka.FSKit
