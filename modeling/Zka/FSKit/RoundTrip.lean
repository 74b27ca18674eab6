import Zka.FSKit.CatalogRun
import Zka.FSKit.Fork

/-!
# Writing a fork and reading it back
-/

namespace Zka.FSKit

open NewKit Outcome

/-- The buffer of 512 bytes begins with the data. -/
def HoldsData (p : NfsForkStruct) (n : SizeT) (data : Nat → UInt8) : Prop :=
  ∃ h : n.toNat ≤ 512, ∀ i (hi : i < n.toNat), forkLayout p ⟨i, by omega⟩ = data i

/-- The header carries the name, the size and the links of the fork. -/
def SameHeader (p f : NfsForkStruct) : Prop :=
  p.forkName = f.forkName ∧ p.catalogName = f.catalogName ∧ p.dataSize = f.dataSize ∧
    p.dataOffset = f.dataOffset ∧ p.nextSibling = f.nextSibling ∧
    p.previousSibling = f.previousSibling

/-- What is written to a fork right after its creation is read back, and its header stays. -/
def RoundTrip (r : ForkReply) (catalog : NfsCatalogStruct) (f : NfsForkStruct)
    (data : Nat → UInt8) : Prop :=
  ∀ w, Yields (fun fuel => writeCatalog fuel r.drive (some catalog) (!f.isData) data f.dataSize
      f.forkNameChars) w → w.ok = true →
    (∃ p err, Yields (fun fuel => readCatalog fuel w.drive (some catalog) (!f.isData) f.dataSize
        f.forkNameChars) (some p, err) ∧ HoldsData p f.dataSize data) ∧
    ∃ header, r.header = some header ∧ SameHeader (w.drive.fork header) f

private theorem finish_flags (x : Int32) : x ||| kNeFSFlagCreated.toUInt32.toInt32 ≠
      kNeFSFlagUnallocated.toUInt32.toInt32 ∧
    x ||| kNeFSFlagCreated.toUInt32.toInt32 ≠ kNeFSFlagDeleted.toUInt32.toInt32 := by
  constructor
  · intro h
    have hb := congrArg (·.toBitVec.getLsbD 0) h
    simp [kNeFSFlagCreated, kNeFSFlagUnallocated] at hb
  · intro h
    have hb := congrArg (·.toBitVec.getLsbD 0) h
    simp [kNeFSFlagCreated, kNeFSFlagDeleted] at hb

section RoundTrip

variable {d : Drive} {catalog : NfsCatalogStruct} {f : NfsForkStruct} {data : Nat → UInt8}
  {lba : Lba} {w : WriteReply}

private theorem write_reply {out : WriteExit} (fuel : Nat)
    (hsize : ¬ (kNeFSForkDataSz < f.dataSize ∨ f.dataSize = 0))
    (hloop : whileLoop (writeBody d catalog f.dataSize f.forkNameChars) fuel
      (catalog.forkLba f.isData) = .done out)
    (hw : Yields (fun fuel => writeCatalog fuel d (some catalog) (!f.isData) data f.dataSize
      f.forkNameChars) w) : w = finishWrite d data f.dataSize out := by
  refine hw.unique (writeCatalog_mono d _ _ data _ _) (.intro fuel ?_)
  rw [writeCatalog, if_neg hsize, Bool.not_not, hloop, done_bind]

/-- A header whose data would lie in the reserved area stops the writer. -/
private theorem write_corrupted (hsize : ¬ (kNeFSForkDataSz < f.dataSize ∨ f.dataSize = 0))
    (hlba : catalog.forkLba f.isData = lba) (hgt : ¬ lba ≤ kNeFSCatalogStartAddress)
    (hoff : (d.fork lba).dataOffset ≤ kNeFSCatalogStartAddress)
    (hw : Yields (fun fuel => writeCatalog fuel d (some catalog) (!f.isData) data f.dataSize
      f.forkNameChars) w) : w.ok = false := by
  have hge : kNeFSCatalogStartAddress ≤ lba := UInt64.le_of_lt (UInt64.not_le.mp hgt)
  have hbody : writeBody d catalog f.dataSize f.forkNameChars lba = .done (.inr .corrupted) := by
    simp only [writeBody, hge, hoff, not_true_eq_false, if_false, if_true]
  rw [write_reply 1 hsize (by rw [hlba]; exact whileLoop_exit hbody 0) hw]
  rfl

/-- A header of another fork without a link hides the rest of the chain. -/
private theorem write_missing (hsize : ¬ (kNeFSForkDataSz < f.dataSize ∨ f.dataSize = 0))
    (hlba : catalog.forkLba f.isData = lba) (hgt : ¬ lba ≤ kNeFSCatalogStartAddress)
    (hother : ¬ sameFork (d.fork lba) f.forkNameChars catalog.nameChars)
    (hnext : (d.fork lba).nextSibling = 0)
    (hw : Yields (fun fuel => writeCatalog fuel d (some catalog) (!f.isData) data f.dataSize
      f.forkNameChars) w) : w.ok = false := by
  by_cases hoff : (d.fork lba).dataOffset ≤ kNeFSCatalogStartAddress
  · exact write_corrupted hsize hlba hgt hoff hw
  have hge : kNeFSCatalogStartAddress ≤ lba := UInt64.le_of_lt (UInt64.not_le.mp hgt)
  have hbody : writeBody d catalog f.dataSize f.forkNameChars lba = .done (.inl 0) := by
    simp only [writeBody, hge, hoff, hother, not_true_eq_false, if_false, false_and, and_false]
    rw [hnext]
  have hend : writeBody d catalog f.dataSize f.forkNameChars 0 = .done (.inr .missing) := by
    rw [writeBody, if_pos]
    exact UInt64.not_le.mpr (UInt64.lt_iff_toNat_lt.mpr (by decide))
  rw [write_reply 2 hsize
    (by rw [hlba, whileLoop_continue hbody]; exact whileLoop_exit hend 0) hw]
  rfl

variable (data) in
/-- The blob of a short fork ends before the header it overwrites. -/
private theorem store_zero (hgt : 512 ≤ lba.toNat) (hshort : f.dataSize.toNat ≤ 512)
    (hheader : (d.fork lba).dataOffset = lba - forkSize) :
    (storeFork d lba (forkBlob data f.dataSize)).fork lba = .zero := by
  have hsub : (lba - forkSize).toNat = lba.toNat - 512 := by
    have hle : forkSize ≤ lba := UInt64.le_iff_toNat_le.mpr (show forkSize.toNat ≤ _ from hgt)
    rw [UInt64.toNat_sub_of_le _ _ hle]
    rfl
  apply Drive.fork_of_zero
  intro x hx hlt
  have hbig : kNeFSForkDataSz.toNat = 16777216 := rfl
  have hin : x = (lba - forkSize).toNat + (x - (lba.toNat - 512)) := by omega
  rw [storeFork]
  dsimp only
  rw [Drive.putFork_outside (Or.inr (by omega)), hheader, hin]
  refine (Store.write_inside _ _ _ ⟨x - (lba.toNat - 512), by omega⟩).trans ?_
  rw [forkBlob, if_neg]
  dsimp only
  omega

/-- A zero record is no fork of that name, so the reader finds nothing. -/
private theorem read_zero {dataSz : SizeT} (hlba : catalog.forkLba f.isData = lba)
    (hgt : ¬ lba ≤ kNeFSCatalogStartAddress) (hname : f.forkName 0 ≠ 0)
    (hzero : d.fork lba = .zero) {r : Option NfsForkStruct × Option HError}
    (hr : Yields (fun fuel => readCatalog fuel d (some catalog) (!f.isData) dataSz
      f.forkNameChars) r) : r.1 = none := by
  have hlt : kNeFSCatalogStartAddress < lba := UInt64.not_le.mp hgt
  have hother : ¬ equals f.forkNameChars NfsForkStruct.zero.forkNameChars = true := by
    intro h
    have hhead := equals_head h
    rw [NfsForkStruct.forkNameChars_head, NfsForkStruct.forkNameChars_head] at hhead
    exact hname hhead
  rw [readCatalog_past hlba hlt hzero hother rfl hr]

variable (data) in
/-- The writer finds the header of a fork whose place is its own. -/
private theorem write_found (hsize : ¬ (kNeFSForkDataSz < f.dataSize ∨ f.dataSize = 0))
    (hlba : catalog.forkLba f.isData = lba) (hgt : ¬ lba ≤ kNeFSCatalogStartAddress)
    (hheader : d.fork lba = f) (hflags : f.flags ≠ kNeFSFlagUnallocated.toUInt32.toInt32 ∧
      f.flags ≠ kNeFSFlagDeleted.toUInt32.toInt32)
    (hcatalog : f.catalogName = catalog.name) (hoff : ¬ f.dataOffset ≤ kNeFSCatalogStartAddress) :
    Yields (fun fuel => writeCatalog fuel d (some catalog) (!f.isData) data f.dataSize
      f.forkNameChars) ⟨true, none, storeFork d lba (forkBlob data f.dataSize)⟩ := by
  have hge : kNeFSCatalogStartAddress ≤ lba := UInt64.le_of_lt (UInt64.not_le.mp hgt)
  have hsame : sameFork f f.forkNameChars catalog.nameChars := by
    have hname : f.catalogNameChars = catalog.nameChars := congrArg List.ofFn hcatalog
    exact ⟨equals_self _, by rw [hname]; exact equals_self _⟩
  have hbody : writeBody d catalog f.dataSize f.forkNameChars lba = .done (.inr (.found lba)) := by
    simp only [writeBody, hge, hheader, hoff, hflags, hsame, not_true_eq_false, if_false, ne_eq,
      not_false_eq_true, and_self, if_true]
  refine .intro 1 ?_
  rw [writeCatalog, if_neg hsize, Bool.not_not]
  rw [hlba, whileLoop_exit hbody, done_bind, finishWrite]

end RoundTrip

/-- The two ways in which a fork escapes the writer: its data would lie below the catalogs, or the
place is held by a created header without a link, behind which the new one went to address zero. -/
def ForkUnwritable (d : Drive) (catalog : NfsCatalogStruct) (theFork : NfsForkStruct) : Prop :=
  let lba := catalog.forkLba theFork.isData
  lba ≤ kNeFSCatalogStartAddress + forkSize ∨
    (d.fork lba).Created ∧ (d.fork lba).nextSibling = 0

/-- The data of a placed fork begins a blob before it. -/
private theorem placed_dataOffset {theFork : NfsForkStruct} {lba : Lba}
    (hgt : ¬ lba ≤ kNeFSCatalogStartAddress) :
    (finishFork theFork lba lba).dataOffset ≤ kNeFSCatalogStartAddress ↔
      lba ≤ kNeFSCatalogStartAddress + forkSize := by
  have h512 : 2560 < lba.toNat := UInt64.lt_iff_toNat_lt.mp (UInt64.not_le.mp hgt)
  have hle : forkSize ≤ lba := UInt64.le_iff_toNat_le.mpr (show forkSize.toNat ≤ _ by
    change 512 ≤ lba.toNat; omega)
  have hsub : (lba - forkSize).toNat = lba.toNat - 512 := UInt64.toNat_sub_of_le _ _ hle
  have hsum : (kNeFSCatalogStartAddress + forkSize).toNat = 3072 := rfl
  have hstart : kNeFSCatalogStartAddress.toNat = 2560 := rfl
  rw [UInt64.le_iff_toNat_le, UInt64.le_iff_toNat_le, hsum, hstart]
  change (lba - forkSize).toNat ≤ 2560 ↔ _
  omega

/-- Nothing is written for a fork that went to address zero: its place still holds the header at
which the chain stopped. -/
private theorem astray_roundTrip {d : Drive} {catalog : NfsCatalogStruct}
    {theFork prev : NfsForkStruct} {data : Nat → UInt8} {lba : Lba}
    (hlba : catalog.forkLba theFork.isData = lba) (hgt : ¬ lba ≤ kNeFSCatalogStartAddress)
    (hsize : ¬ (kNeFSForkDataSz < theFork.dataSize ∨ theFork.dataSize = 0))
    (hother : ¬ sameFork (d.fork lba) theFork.forkNameChars catalog.nameChars)
    (hnext : (d.fork lba).nextSibling = 0) :
    RoundTrip (writeFork d theFork ⟨0, lba, prev⟩) catalog (finishFork theFork 0 lba) data := by
  intro w hw hok
  have hkept : (d.putFork 0 (finishFork theFork 0 lba)).fork lba = d.fork lba := by
    have h512 : 2560 < lba.toNat := UInt64.lt_iff_toNat_lt.mp (UInt64.not_le.mp hgt)
    exact Drive.fork_congr fun x hx _ => Drive.putFork_outside (Or.inr (by
      change 0 + 512 ≤ x; omega))
  have hfalse := write_missing (f := finishFork theFork 0 lba) hsize hlba hgt
    (by rw [writeFork, hkept]; exact hother) (by rw [writeFork, hkept]; exact hnext) hw
  rw [hfalse] at hok
  cases hok

private theorem round_trip {d : Drive} {catalog : NfsCatalogStruct} {theFork f : NfsForkStruct}
    {r : ForkReply} {data : Nat → UInt8}
    (hr : Yields (fun fuel => createFork fuel d (some catalog) theFork) r)
    (hfork : r.fork = some f) (hcatalog : f.catalogName = catalog.name) (hpos : f.dataSize ≠ 0) :
    RoundTrip r catalog f data ↔ ForkUnwritable d catalog theFork := by
  rw [createFork_reply hr] at hfork ⊢
  rw [forkReply] at hfork ⊢
  rw [ForkUnwritable]
  by_cases hacc : ForkAccepted catalog theFork
  swap
  · rw [if_pos hacc] at hfork
    cases hfork
  rw [if_neg (not_not.mpr hacc)] at hfork ⊢
  have hgt := hacc.2
  have hmax := hacc.1.2
  have hname := hacc.1.1
  generalize hlba : catalog.forkLba theFork.isData = lba at *
  by_cases hastray : (d.fork lba).Created ∧ (d.fork lba).nextSibling = 0
  · rw [if_pos hastray] at hfork ⊢
    by_cases hsame : sameFork (d.fork lba) theFork.forkNameChars catalog.nameChars
    · rw [if_pos hsame] at hfork
      cases hfork
    rw [if_neg hsame] at hfork ⊢
    cases hfork
    have hsize := not_or.mpr ⟨UInt64.not_lt.mpr hmax, hpos⟩
    exact ⟨fun _ => Or.inr hastray, fun _ => astray_roundTrip hlba hgt hsize hsame hastray.2⟩
  · rw [if_neg hastray] at hfork ⊢
    cases hfork
    have hplaced : (writeFork d theFork ⟨lba, lba, .zero⟩).drive.fork lba =
        finishFork theFork lba lba := Drive.fork_putFork
    have hsize : ¬ (kNeFSForkDataSz < (finishFork theFork lba lba).dataSize ∨
        (finishFork theFork lba lba).dataSize = 0) :=
      not_or.mpr ⟨UInt64.not_lt.mpr hmax, hpos⟩
    have hoff : (finishFork theFork lba lba).dataOffset ≤ kNeFSCatalogStartAddress ↔
        lba ≤ kNeFSCatalogStartAddress + forkSize := placed_dataOffset hgt
    constructor
    · intro htrip
      by_contra hcond
      rw [or_iff_left hastray, ← hoff] at hcond
      have hw := write_found data hsize hlba hgt hplaced
        (finish_flags theFork.flags) hcatalog hcond
      obtain ⟨⟨p, err, hread, hshort, _⟩, _⟩ := htrip _ hw rfl
      have h512 : 2560 < lba.toNat := UInt64.lt_iff_toNat_lt.mp (UInt64.not_le.mp hgt)
      have hzero := store_zero data (show 512 ≤ lba.toNat by omega) hshort
        (congrArg NfsForkStruct.dataOffset hplaced)
      have hnone := read_zero (f := finishFork theFork lba lba) hlba hgt hname hzero hread
      cases hnone
    · intro hcond w hw hok
      rw [or_iff_left hastray, ← hoff] at hcond
      have hfalse := write_corrupted hsize hlba hgt (hplaced.symm ▸ hcond) hw
      rw [hfalse] at hok
      cases hok

/-- The blob that `WriteCatalog` stores covers the fork's own header, so what is written is only
ever read back where the writer refuses. -/
theorem roundTrip_iff {d : Drive} {catalog : NfsCatalogStruct} {theFork f : NfsForkStruct}
    {r : ForkReply} {data : Nat → UInt8}
    (hr : Yields (fun fuel => createFork fuel d (some catalog) theFork) r)
    (hfork : r.fork = some f) (hcatalog : f.catalogName = catalog.name) (hpos : f.dataSize ≠ 0) :
    RoundTrip r catalog f data ↔ ForkUnwritable d catalog theFork :=
  round_trip hr hfork hcatalog hpos

def sampleFork (catalog : NfsCatalogStruct) : NfsForkStruct :=
  { NfsForkStruct.zero with
    forkName := charBuffer 200 [100, 97, 116, 97]
    catalogName := catalog.name
    kind := kNeFSDataForkKind
    dataSize := 16 }

theorem sampleFork_accepted {catalog : NfsCatalogStruct}
    (h : ¬ catalog.dataFork ≤ kNeFSCatalogStartAddress) :
    ForkAccepted catalog (sampleFork catalog) := by
  refine ⟨⟨?_, ?_⟩, h⟩
  · simp [sampleFork, charBuffer]
  · exact UInt64.le_iff_toNat_le.mpr (show 16 ≤ 16777216 by decide)

def sampleCatalog : NfsCatalogStruct := { NfsCatalogStruct.zero with dataFork := 3000 }

/-- Where the fork place lies just behind the first slot, the writer refuses. -/
theorem roundTrip_low : RoundTrip
    (writeFork (fun _ => 0) (sampleFork sampleCatalog) ⟨3000, 3000, .zero⟩) sampleCatalog
    (finishFork (sampleFork sampleCatalog) 3000 3000) fun _ => 1 := by
  have hfree : ¬ (Drive.fork (fun _ => 0) 3000).Created := by
    rw [Drive.fork_of_zero fun _ _ _ => rfl]
    exact zero_fork_not_created
  have hacc : ForkAccepted sampleCatalog (sampleFork sampleCatalog) :=
    sampleFork_accepted (by decide)
  exact (roundTrip_iff (yields_createFork rfl hacc hfree) rfl rfl (by decide)).mpr
    (Or.inl (UInt64.le_iff_toNat_le.mpr (by decide)))

/-- A directory is created behind the root and gets a fork of 16 bytes. -/
theorem roundTrip_overwritten : ∃ a c r f,
    Yields (fun fuel => createCatalog fuel bootDrive sampleDir 0 kNeFSCatalogKindDir) a ∧
    a.ptr = some c ∧
    Yields (fun fuel => createFork fuel a.drive (some c) (sampleFork c)) r ∧
    r.fork = some f ∧ f.catalogName = c.name ∧ f.dataSize = 16 ∧
    ¬ RoundTrip r c f fun _ => 1 := by
  have hrep := bootDrive_formatted.represents
  obtain ⟨c, _, hrec, hy⟩ := hrep.yields_createCatalog sampleDir_valid.resolves 0
    kNeFSCatalogKindDir (by decide) (by decide) bootDrive_formatted.free
  have hmin := UInt64.le_iff_toNat_le.mp hrep.geometry.minimum
  have hmin' : kNeFSMinimumDiskSize.toNat = 4294967296 := rfl
  have hslot : (slotAt 1).toNat = 4608 := slotAt_toNat (by decide)
  have hplace : c.forkLba (sampleFork c).isData = bootDrive.part.diskSize - slotAt 1 := hrec.dataFork_eq
  have hlba : (bootDrive.part.diskSize - slotAt 1).toNat =
      bootDrive.part.diskSize.toNat - 4608 := by
    rw [UInt64.toNat_sub_of_le _ _ (UInt64.le_iff_toNat_le.mpr (by omega)), hslot]
  have hlow : ¬ bootDrive.part.diskSize - slotAt 1 ≤ kNeFSCatalogStartAddress + forkSize := by
    have hsum : (kNeFSCatalogStartAddress + forkSize).toNat = 3072 := rfl
    rw [UInt64.le_iff_toNat_le, hlba, hsum]
    omega
  have hacc : ForkAccepted c (sampleFork c) := by
    apply sampleFork_accepted
    have hstart : kNeFSCatalogStartAddress.toNat = 2560 := rfl
    have hdata : c.dataFork = bootDrive.part.diskSize - slotAt 1 := hplace
    rw [hdata, UInt64.le_iff_toNat_le, hlba, hstart]
    omega
  have hblank : Drive.fork ((bootDrive.putCatalog (slotAt 1) c).putPart
      bootDrive.part.countCreated) (bootDrive.part.diskSize - slotAt 1) = .zero := by
    apply Drive.fork_of_zero
    intro x hx _
    rw [Drive.putPart_outside _ (Or.inr (by omega)),
      Drive.putCatalog_outside _ (Or.inr (by rw [hslot]; omega)), bootDrive_blank (by omega)]
  have hfork := yields_createFork hplace hacc
    (by rw [hblank]; exact zero_fork_not_created)
  refine ⟨_, c, _, _, hy, rfl, hfork, rfl, rfl, rfl, ?_⟩
  rw [round_trip hfork rfl rfl (by simp [finishFork, sampleFork]), ForkUnwritable, hplace]
  intro h
  rcases h with hle | ⟨hc, _⟩
  · exact hlow hle
  · rw [hblank] at hc
    exact zero_fork_not_created hc

end Zka.FSKit
