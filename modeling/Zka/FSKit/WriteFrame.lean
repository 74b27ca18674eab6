import Zka.FSKit.ForkLookup
import Zka.Framework.Frame

/-!
# What `WriteCatalog` changes

The data is stored as a block of 16 MiB whatever its size, and the header goes to the 512
bytes in front of the record it was read from.
-/

namespace Zka.FSKit

open NewKit Outcome Relation

/-- The fork that the writer stops at: of the names and of the size of the data. -/
def WriteMatch (catalog : NfsCatalogStruct) (sizeOfData : SizeT) (forkName : List UInt8)
    (f : NfsForkStruct) : Prop :=
  f.flags ≠ kNeFSFlagUnallocated.toUInt32.toInt32 ∧
    f.flags ≠ kNeFSFlagDeleted.toUInt32.toInt32 ∧
    sameFork f forkName catalog.nameChars ∧ f.dataSize = sizeOfData

instance (catalog : NfsCatalogStruct) (sizeOfData : SizeT) (forkName : List UInt8)
    (f : NfsForkStruct) : Decidable (WriteMatch catalog sizeOfData forkName f) :=
  inferInstanceAs (Decidable (_ ∧ _))

/-- The matching fork of the chain stands at `lba`. -/
structure FoundAt (d : Drive) (catalog : NfsCatalogStruct) (isRsrcFork : Bool) (sizeOfData : SizeT)
    (forkName : List UInt8) (lba : Lba) : Prop where
  walk : ReflTransGen (Linked (writeNext d catalog sizeOfData forkName))
    (catalog.forkLba !isRsrcFork) lba
  behind : kNeFSCatalogStartAddress ≤ lba
  data : ¬ (d.fork lba).dataOffset ≤ kNeFSCatalogStartAddress
  isMatch : WriteMatch catalog sizeOfData forkName (d.fork lba)

/-- A refused call changes nothing, another one the data and the record of the fork. -/
def WriteFrame (d : Drive) (catalog : NfsCatalogStruct) (isRsrcFork : Bool) (data : Nat → UInt8)
    (sizeOfData : SizeT) (forkName : List UInt8) : Prop :=
  ∀ w, Yields (fun fuel => writeCatalog fuel d (some catalog) isRsrcFork data sizeOfData forkName) w →
    (w.ok = false → w.drive = d) ∧
    (w.ok = true → ∃ lba, FoundAt d catalog isRsrcFork sizeOfData forkName lba ∧
      Store.ChangesOnly [⟨(d.fork lba).dataOffset.toNat, sizeOfData.toNat⟩, ⟨lba.toNat, 512⟩] d
        w.drive)

def markCreated (f : NfsForkStruct) : NfsForkStruct :=
  { f with flags := f.flags ||| kNeFSFlagCreated.toUInt32.toInt32 }

/-- Outside the data and the record, the bytes that are written anyway hold already what is
written: the header in front of the record, and zeros up to the end of the block. -/
def SpareHolds (d : Drive) (sizeOfData : SizeT) (lba : Lba) : Prop :=
  ∀ x, x ∉ Extent.addresses ⟨(d.fork lba).dataOffset.toNat, sizeOfData.toNat⟩ →
    x ∉ Extent.addresses ⟨lba.toNat, 512⟩ →
    (∀ i : Fin 512, x = (lba - forkSize).toNat + i → d x = forkLayout (markCreated (d.fork lba)) i) ∧
    (x ∉ Extent.addresses ⟨(lba - forkSize).toNat, 512⟩ →
      x ∈ Extent.addresses ⟨(d.fork lba).dataOffset.toNat, kNeFSForkDataSz.toNat⟩ → d x = 0)

section WriteCatalog

variable {d : Drive} {catalog : NfsCatalogStruct} {isRsrcFork : Bool} {data : Nat → UInt8}
  {sizeOfData : SizeT} {forkName : List UInt8} {a b lba : Lba}

private theorem writeBody_eq (startFork : Lba) : writeBody d catalog sizeOfData forkName startFork =
    if ¬ kNeFSCatalogStartAddress ≤ startFork then .done (.inr .missing)
    else if (d.fork startFork).dataOffset ≤ kNeFSCatalogStartAddress then .done (.inr .corrupted)
    else if WriteMatch catalog sizeOfData forkName (d.fork startFork) then
      .done (.inr (.found startFork))
    else .done (.inl (d.fork startFork).nextSibling) := rfl

private theorem writeBody_goes_iff : writeBody d catalog sizeOfData forkName a = .done (.inl b) ↔
    Linked (writeNext d catalog sizeOfData forkName) a b := by
  obtain ⟨out, hout, hnext⟩ := writeBody_next (d := d) catalog sizeOfData forkName a
  rw [hout, Linked, hnext]
  cases out <;> simp

/-- A pass that finds the fork. -/
private theorem writeBody_found_iff :
    writeBody d catalog sizeOfData forkName a = .done (.inr (.found lba)) ↔
      a = lba ∧ kNeFSCatalogStartAddress ≤ lba ∧
        ¬ (d.fork lba).dataOffset ≤ kNeFSCatalogStartAddress ∧
        WriteMatch catalog sizeOfData forkName (d.fork lba) := by
  rw [writeBody_eq]
  constructor
  · intro h
    split at h
    · cases h
    · rename_i hstart
      split at h
      · cases h
      · rename_i hdata
        split at h
        · rename_i hmatch
          cases h
          exact ⟨rfl, not_not.mp hstart, hdata, hmatch⟩
        · cases h
  · intro h
    obtain ⟨rfl, hstart, hdata, hmatch⟩ := h
    rw [if_neg (not_not.mpr hstart), if_neg hdata, if_pos hmatch]

private theorem yields_writeCatalog_iff (hsize : ¬ (kNeFSForkDataSz < sizeOfData ∨ sizeOfData = 0))
    {w : WriteReply} :
    Yields (fun fuel => writeCatalog fuel d (some catalog) isRsrcFork data sizeOfData forkName) w ↔
      ∃ lba out, ReflTransGen (Linked (writeNext d catalog sizeOfData forkName))
          (catalog.forkLba !isRsrcFork) lba ∧
        writeBody d catalog sizeOfData forkName lba = .done (.inr out) ∧
        w = finishWrite d data sizeOfData out := by
  have hlinks : (fun s s' => writeBody d catalog sizeOfData forkName s = .done (.inl s')) =
      Linked (writeNext d catalog sizeOfData forkName) := by
    funext s s'
    exact propext writeBody_goes_iff
  simp only [writeCatalog, if_neg hsize]
  rw [yields_loop_return_iff, hlinks]

/-- What is found lies where the walk ends, and a walk has one end. -/
private theorem foundAt_unique (ha : FoundAt d catalog isRsrcFork sizeOfData forkName a)
    (hb : FoundAt d catalog isRsrcFork sizeOfData forkName b) : a = b := by
  have hend : ∀ {c}, FoundAt d catalog isRsrcFork sizeOfData forkName c →
      ∀ {e}, ¬ Linked (writeNext d catalog sizeOfData forkName) c e := by
    intro c hc e hlink
    have hbody := writeBody_goes_iff.mpr hlink
    rw [writeBody_found_iff.mpr ⟨rfl, hc.behind, hc.data, hc.isMatch⟩] at hbody
    cases hbody
  have hunique : Relator.RightUnique (Linked (writeNext d catalog sizeOfData forkName)) :=
    fun _ _ _ => linked_unique
  rcases ReflTransGen.total_of_right_unique hunique ha.walk hb.walk with h | h
  · rcases h.cases_head with heq | ⟨c, hc, _⟩
    · exact heq
    · exact absurd hc (hend ha)
  · rcases h.cases_head with heq | ⟨c, hc, _⟩
    · exact heq.symm
    · exact absurd hc (hend hb)

/-! ### The bytes that are written -/

private theorem storeFork_header (i : Fin 512) :
    storeFork d lba (forkBlob data sizeOfData) ((lba - forkSize).toNat + i) =
      forkLayout (markCreated (d.fork lba)) i :=
  Store.write_inside _ _ _ i

private theorem storeFork_blob {x : Nat} (hx : x ∉ Extent.addresses ⟨(lba - forkSize).toNat, 512⟩)
    (hblob : x ∈ Extent.addresses ⟨(d.fork lba).dataOffset.toNat, kNeFSForkDataSz.toNat⟩)
    (hdata : x ∉ Extent.addresses ⟨(d.fork lba).dataOffset.toNat, sizeOfData.toNat⟩) :
    storeFork d lba (forkBlob data sizeOfData) x = 0 := by
  rw [Extent.mem_addresses] at hx hblob hdata
  dsimp only at hx hblob hdata
  rw [storeFork]
  dsimp only
  rw [Drive.putFork_outside (by omega)]
  have hin : x = (d.fork lba).dataOffset.toNat + (x - (d.fork lba).dataOffset.toNat) := by omega
  rw [hin]
  refine (Store.write_inside _ _ _ ⟨x - (d.fork lba).dataOffset.toNat, by omega⟩).trans ?_
  rw [forkBlob, if_neg]
  dsimp only
  omega

private theorem storeFork_outside {x : Nat}
    (hx : x ∉ Extent.addresses ⟨(lba - forkSize).toNat, 512⟩)
    (hblob : x ∉ Extent.addresses ⟨(d.fork lba).dataOffset.toNat, kNeFSForkDataSz.toNat⟩) :
    storeFork d lba (forkBlob data sizeOfData) x = d x := by
  rw [Extent.mem_addresses] at hx hblob
  dsimp only at hx hblob
  rw [storeFork]
  dsimp only
  rw [Drive.putFork_outside (by omega)]
  exact Store.write_outside _ _ (by omega)

/-- The two writes stay within the data and the record exactly when the rest of them changes
nothing. -/
private theorem storeFork_frame_iff :
    Store.ChangesOnly [⟨(d.fork lba).dataOffset.toNat, sizeOfData.toNat⟩, ⟨lba.toNat, 512⟩] d
      (storeFork d lba (forkBlob data sizeOfData)) ↔ SpareHolds d sizeOfData lba := by
  have hout : ∀ x, (∀ e ∈ [(⟨(d.fork lba).dataOffset.toNat, sizeOfData.toNat⟩ : Extent),
      ⟨lba.toNat, 512⟩], x ∉ e.addresses) ↔
      x ∉ Extent.addresses ⟨(d.fork lba).dataOffset.toNat, sizeOfData.toNat⟩ ∧
        x ∉ Extent.addresses ⟨lba.toNat, 512⟩ := by simp
  constructor
  · intro h x hdata hown
    have hsame := h x ((hout x).mpr ⟨hdata, hown⟩)
    constructor
    · intro i hi
      rw [← hsame, hi, storeFork_header]
    · intro hheader hblob
      rw [← hsame, storeFork_blob hheader hblob hdata]
  · intro h x hx
    obtain ⟨hdata, hown⟩ := (hout x).mp hx
    obtain ⟨hheader, hzero⟩ := h x hdata hown
    by_cases hin : x ∈ Extent.addresses ⟨(lba - forkSize).toNat, 512⟩
    · obtain ⟨i, hi⟩ : ∃ i : Fin 512, x = (lba - forkSize).toNat + i := by
        rw [Extent.mem_addresses] at hin
        dsimp only at hin
        exact ⟨⟨x - (lba - forkSize).toNat, by omega⟩, by dsimp only; omega⟩
      rw [hheader i hi, hi, storeFork_header]
    · by_cases hblob : x ∈ Extent.addresses ⟨(d.fork lba).dataOffset.toNat, kNeFSForkDataSz.toNat⟩
      · rw [storeFork_blob hin hblob hdata, hzero hin hblob]
      · exact storeFork_outside hin hblob

private theorem yields_found (hsize : ¬ (kNeFSForkDataSz < sizeOfData ∨ sizeOfData = 0))
    (h : FoundAt d catalog isRsrcFork sizeOfData forkName lba) :
    Yields (fun fuel => writeCatalog fuel d (some catalog) isRsrcFork data sizeOfData forkName)
      ⟨true, none, storeFork d lba (forkBlob data sizeOfData)⟩ :=
  (yields_writeCatalog_iff hsize).mpr
    ⟨lba, _, h.walk, writeBody_found_iff.mpr ⟨rfl, h.behind, h.data, h.isMatch⟩, rfl⟩

private theorem frame_spare (hsize : ¬ (kNeFSForkDataSz < sizeOfData ∨ sizeOfData = 0))
    (hframe : WriteFrame d catalog isRsrcFork data sizeOfData forkName)
    (h : FoundAt d catalog isRsrcFork sizeOfData forkName lba) : SpareHolds d sizeOfData lba := by
  obtain ⟨lba', hfound, honly⟩ := (hframe _ (yields_found hsize h)).2 rfl
  obtain rfl := foundAt_unique h hfound
  exact storeFork_frame_iff.mp honly

/-- `WriteCatalog` changes no more than it should exactly when the block and the header behind and
in front of the matching fork change nothing. -/
theorem writeCatalog_frame_iff (data : Nat → UInt8) (hpos : 0 < sizeOfData)
    (hle : sizeOfData ≤ kNeFSForkDataSz) :
    WriteFrame d catalog isRsrcFork data sizeOfData forkName ↔
      ∀ lba, FoundAt d catalog isRsrcFork sizeOfData forkName lba →
        SpareHolds d sizeOfData lba := by
  have hsize : ¬ (kNeFSForkDataSz < sizeOfData ∨ sizeOfData = 0) :=
    not_or.mpr ⟨UInt64.not_lt.mpr hle, UInt64.pos_iff_ne_zero.mp hpos⟩
  constructor
  · intro hframe lba hfound
    exact frame_spare hsize hframe hfound
  · intro hspare w hw
    obtain ⟨lba, out, hwalk, hexit, rfl⟩ := (yields_writeCatalog_iff hsize).mp hw
    cases out with
    | corrupted => exact ⟨fun _ => rfl, fun h => Bool.noConfusion h⟩
    | missing => exact ⟨fun _ => rfl, fun h => Bool.noConfusion h⟩
    | found lba' =>
      obtain ⟨rfl, hbehind, hdata, hmatch⟩ := writeBody_found_iff.mp hexit
      have hfound : FoundAt d catalog isRsrcFork sizeOfData forkName lba :=
        ⟨hwalk, hbehind, hdata, hmatch⟩
      refine ⟨fun h => Bool.noConfusion h, fun _ => ⟨lba, hfound, ?_⟩⟩
      exact storeFork_frame_iff.mpr (hspare lba hfound)

end WriteCatalog

/-- An empty drive has no fork to write to. -/
theorem writeCatalog_frame_empty :
    WriteFrame (fun _ => 0) forkFile false (fun _ => 1) 16 (sampleFork forkFile).forkNameChars := by
  refine (writeCatalog_frame_iff _ (by decide) (UInt64.le_iff_toNat_le.mpr (by decide))).mpr ?_
  intro lba hfound
  have hzero : Drive.fork (fun _ => 0) lba = .zero := Drive.fork_of_zero fun _ _ _ => rfl
  have hdata := hfound.data
  rw [hzero] at hdata
  exact absurd (UInt64.le_iff_toNat_le.mpr (Nat.zero_le _)) hdata

def storedFork : NfsForkStruct := finishFork (sampleFork forkFile) 4096 4096

/-- A fork, and a byte of something else behind it. -/
def sharedDrive : Drive := Drive.putFork (fun x => if x = 10000 then 1 else 0) 4096 storedFork

/-- The block behind 16 bytes of data reaches the byte behind the fork. -/
theorem writeCatalog_overwrites : ¬ WriteFrame sharedDrive forkFile false (fun _ => 1) 16
    (sampleFork forkFile).forkNameChars := by
  intro hframe
  have hfork : sharedDrive.fork 4096 = storedFork := Drive.fork_putFork
  have hfound : FoundAt sharedDrive forkFile false 16 (sampleFork forkFile).forkNameChars
      4096 := by
    refine ⟨.refl, UInt64.le_iff_toNat_le.mpr (by decide), ?_, ?_⟩
    · rw [hfork]
      exact UInt64.not_le.mpr (UInt64.lt_iff_toNat_lt.mpr (by decide))
    · rw [hfork]
      exact ⟨by decide, by decide, ⟨equals_self _, equals_self _⟩, rfl⟩
  have hspare := frame_spare (by decide) hframe hfound
  rw [SpareHolds, hfork] at hspare
  have hout : ∀ {a n : Nat}, a + n ≤ 10000 → 10000 ∉ Extent.addresses ⟨a, n⟩ := by
    intro a n hle
    rw [Extent.mem_addresses]
    dsimp only
    omega
  have hzero := (hspare 10000 (hout (by decide)) (hout (by decide))).2
    (hout (by decide)) ⟨by decide, by decide⟩
  rw [sharedDrive, Drive.putFork_outside (Or.inr (by decide))] at hzero
  exact absurd hzero (by decide)

end Zka.FSKit
