import Zka.BootKit.ImageLoad

/-!
# Where an image is loaded

The law that a loader of portable executables keeps: it stays within the blob and the
pages, and each section stands where the image has it.
-/

namespace Zka.BootKit

open KernelKit NewKit CFKit FirmwareKit Outcome Store

section Law

variable (allocatePages : AllocatePages) (m : Store) (fBlob : UInt64) (size : Nat)

/-- A blob of `size` bytes that is taken for an executable of the subsystem. -/
structure Accepted : Prop where
  notNull : fBlob ≠ 0
  inSpace : InSpace fBlob size
  dos : HasDosMagic m fBlob
  execFound : ldrFindExecHeader m fBlob ≠ 0
  optFound : ldrFindOptExecHeader m fBlob ≠ 0
  headers : AcceptsHeaders m (ldrFindExecHeader m fBlob) (ldrFindOptExecHeader m fBlob)

def blobExtent : Extent := ⟨fBlob.toNat, size⟩

/-- The pages of the firmware have 4096 bytes. -/
def pagesExtent : Extent :=
  ⟨(requestedAddress m (ldrFindOptExecHeader m fBlob)).toNat,
    4096 * (numPages m (ldrFindOptExecHeader m fBlob)).toNat⟩

/-- The pages are given at the address asked for.  They were free, so the blob, which
is allocated, is not among them. -/
structure Allocates : Prop where
  address : allocatePages (requestedAddress m (ldrFindOptExecHeader m fBlob))
      (numPages m (ldrFindOptExecHeader m fBlob)) =
    requestedAddress m (ldrFindOptExecHeader m fBlob)
  inSpace : (pagesExtent m fBlob).start + (pagesExtent m fBlob).size ≤ 2 ^ 64
  apart : (blobExtent fBlob size).Apart (pagesExtent m fBlob)

/-- The image as the loop over the sections has it. -/
def imageOf : Image :=
  ⟨fBlob, ldrFindOptExecHeader m fBlob, requestedAddress m (ldrFindOptExecHeader m fBlob)⟩

def sectionsOf : List UInt64 :=
  sectionTable m (ldrFindExecHeader m fBlob) (ldrFindOptExecHeader m fBlob)

/-- The raw bytes of each section stand in `loaded` at the base and its address. -/
def SectionsAt (loaded : Nat → UInt8) (imageBase : UInt64) : Prop :=
  ∀ sect ∈ sectionsOf m fBlob, ∀ k < (sectionHeader m sect).mSizeOfRawData.toNat,
    loaded (imageBase + (sectionHeader m sect).mVirtualAddress.toUInt64 + UInt64.ofNat k).toNat =
      m ((source (imageOf m fBlob) (sectionHeader m sect)).toNat + k)

/-- Loading stays in bounds and places the sections at the base. -/
def LoadLaw (imageBase : UInt64) : Prop :=
  ∃ ended, bThread allocatePages m fBlob = .done ended ∧
    InBounds (blobExtent fBlob size) (pagesExtent m fBlob) ended.loader ∧
    ∀ s, ended = .constructed s → SectionsAt m fBlob s.memory imageBase

/-- No section makes the loader stop the machine. -/
def GoesOn : Prop :=
  ∀ sect ∈ sectionsOf m fBlob, ¬ SectionStops m (imageOf m fBlob) (sectionHeader m sect)

/-- Each section has in the blob, four times its size behind its place, what is copied, and in
the pages the room for it; and what the last of the sections over an address brings there is what
the section at the base has there. -/
structure LoadsRight (imageBase : UInt64) : Prop where
  headers : 222 ≤ size
  fits : RunFits m (imageOf m fBlob) (blobExtent fBlob size) (pagesExtent m fBlob)
    (sectionsOf m fBlob)
  placed : GoesOn m fBlob →
    SectionsAt m fBlob (loadedByte m (imageOf m fBlob) (sectionsOf m fBlob)) imageBase

end Law

variable {allocatePages : AllocatePages} {m : Store} {fBlob imageBase : UInt64} {size : Nat}

theorem Accepted.exec (h : Accepted m fBlob size) : ldrFindExecHeader m fBlob = fBlob + 128 :=
  ldrFindExecHeader_dos h.notNull h.dos

theorem Accepted.opt (h : Accepted m fBlob size) : ldrFindOptExecHeader m fBlob = fBlob + 152 := by
  rw [ldrFindOptExecHeader, if_neg h.notNull]
  dsimp only
  rw [if_neg h.execFound, h.exec, UInt64.add_assoc, UInt64.add_assoc]
  rfl

/-- The state in which the loop over the sections begins. -/
def firstLoader (m : Store) (fBlob : UInt64) : Loader :=
  ⟨m, 0, headerReads fBlob (ldrFindExecHeader m fBlob) (ldrFindOptExecHeader m fBlob), []⟩

theorem bThread_accepted (h : Accepted m fBlob size) (ha : Allocates allocatePages m fBlob size) :
    bThread allocatePages m fBlob =
      loadSections (imageOf m fBlob) (sectionsOf m fBlob) (firstLoader m fBlob) := by
  have hgo : ¬ (ldrFindExecHeader m fBlob = 0 ∨ ldrFindOptExecHeader m fBlob = 0 ∨
      ¬ AcceptsHeaders m (ldrFindExecHeader m fBlob) (ldrFindOptExecHeader m fBlob)) := by
    intro h
    rcases h with h0 | h0 | h0
    · exact h.execFound h0
    · exact h.optFound h0
    · exact h0 h.headers
  have hdos : eMagic m fBlob 0 = kMagMz0 ∧ eMagic m fBlob 1 = kMagMz1 := h.dos
  rw [bThread]
  dsimp only
  rw [if_neg h.notNull, if_pos hdos, if_neg hgo, ha.address]
  rfl

theorem Allocates.memoryMap (h : Accepted m fBlob size)
    (ha : Allocates allocatePages m fBlob size) :
    MemoryMap (blobExtent fBlob size) (pagesExtent m fBlob) :=
  ⟨ha.apart, h.inSpace, ha.inSpace⟩

/-- A part of the blob by its offset. -/
theorem inside_blob_iff (hs : InSpace fBlob size) {k n : Nat} (hn : 0 < n) (hk : k + n ≤ 2 ^ 64) :
    Extent.Inside ⟨(fBlob + UInt64.ofNat k).toNat, n⟩ (blobExtent fBlob size) ↔ k + n ≤ size := by
  have hb := fBlob.toNat_lt
  unfold InSpace at hs
  rw [Extent.inside_iff hn]
  dsimp only [blobExtent]
  rw [UInt64.toNat_add, UInt64.toNat_ofNat']
  omega

/-- The fields of the headers by their offsets in the blob. -/
def headerFields : List (Nat × Nat) :=
  [(0, 1), (1, 1), (132, 2), (128, 4), (220, 2), (134, 2), (154, 1), (155, 1), (200, 2), (202, 2),
    (180, 4), (176, 4), (208, 4), (148, 2)]

theorem headerReads_eq (h : Accepted m fBlob size) :
    headerReads fBlob (ldrFindExecHeader m fBlob) (ldrFindOptExecHeader m fBlob) =
      headerFields.map fun f => ⟨(fBlob + UInt64.ofNat f.1).toNat, f.2⟩ := by
  rw [h.exec, h.opt]
  simp [headerReads, headerFields, UInt64.add_assoc]

theorem headerReads_inside_iff (h : Accepted m fBlob size) :
    (∀ e ∈ headerReads fBlob (ldrFindExecHeader m fBlob) (ldrFindOptExecHeader m fBlob),
      e.Inside (blobExtent fBlob size)) ↔ 222 ≤ size := by
  have hfields : ∀ f ∈ headerFields, 0 < f.2 ∧ f.1 + f.2 ≤ 222 := by decide
  rw [headerReads_eq h, List.forall_mem_map]
  constructor
  · intro hin
    have hlast := hin (220, 2) (by decide)
    exact (inside_blob_iff h.inSpace (by decide) (by decide)).mp hlast
  · intro hsize f hf
    obtain ⟨hpos, hle⟩ := hfields f hf
    exact (inside_blob_iff h.inSpace hpos (by omega)).mpr (by omega)

theorem firstLoader_inBounds_iff (h : Accepted m fBlob size) :
    InBounds (blobExtent fBlob size) (pagesExtent m fBlob) (firstLoader m fBlob) ↔ 222 ≤ size := by
  rw [← headerReads_inside_iff h]
  constructor
  · exact fun hin => hin.reads
  · exact fun hin => ⟨hin, fun e he => absurd he List.not_mem_nil⟩

/-- What the loop leaves in memory, address by address. -/
theorem placeSections_eq (hmap : MemoryMap (blobExtent fBlob size) (pagesExtent m fBlob))
    (hfit : RunFits m (imageOf m fBlob) (blobExtent fBlob size) (pagesExtent m fBlob)
      (sectionsOf m fBlob)) (hno : GoesOn m fBlob) :
    placeSections m (imageOf m fBlob) (sectionsOf m fBlob) m =
      loadedByte m (imageOf m fBlob) (sectionsOf m fBlob) := by
  funext x
  obtain ⟨hsome, hnone⟩ := placeSections_apply hmap (fun _ _ => rfl) hfit hno x
  unfold loadedByte
  cases hlast : lastOver m (imageOf m fBlob) x (sectionsOf m fBlob) with
  | some h => exact hsome h hlast
  | none => exact hnone hlast

/-- Loading keeps the law exactly for the images that fit at four times the size of their
sections and whose sections are copied to the base. -/
theorem loadLaw_iff (h : Accepted m fBlob size) (ha : Allocates allocatePages m fBlob size) :
    LoadLaw allocatePages m fBlob size imageBase ↔ LoadsRight m fBlob size imageBase := by
  have hmap := ha.memoryMap h
  have hag : Agrees (blobExtent fBlob size) m (firstLoader m fBlob).memory := fun _ _ => rfl
  rw [LoadLaw, bThread_accepted h ha]
  constructor
  · intro h
    rcases h with ⟨ended, hrun, hin, hplaced⟩
    have hfirst := hin.of_grows (loadSections_grows hrun)
    have hfit := loadSections_inside hmap hag hfirst hrun hin
    refine ⟨(firstLoader_inBounds_iff h).mp hfirst, hfit, ?_⟩
    intro hno
    obtain ⟨ended', hrun', _, hend⟩ := loadSections_fits hmap hag hfirst hfit
    cases Outcome.done.inj (hrun.symm.trans hrun')
    rcases hend with ⟨⟨sect, hsect, hstop⟩, _⟩ | ⟨_, s', rfl, hmem⟩
    · exact absurd hstop (hno sect hsect)
    · rw [← placeSections_eq hmap hfit hno]
      exact hmem ▸ hplaced s' rfl
  · intro h
    rcases h with ⟨hsize, hfit, hplaced⟩
    have hfirst := (firstLoader_inBounds_iff h).mpr hsize
    obtain ⟨ended, hrun, hin, hend⟩ := loadSections_fits hmap hag hfirst hfit
    refine ⟨ended, hrun, hin, ?_⟩
    intro s h
    subst h
    rcases hend with ⟨_, s', hended⟩ | ⟨hno, s', hended, hmem⟩
    · exact nomatch hended
    · cases hended
      have hloaded := hplaced hno
      rw [← placeSections_eq hmap hfit hno] at hloaded
      exact hmem ▸ hloaded

/-- An image of one section, `.data`, of 0x2000 bytes of raw data at offset 0x200; it is made for
the base 0x100000 and loaded from the blob at 0x10000. -/
def dataImage : Store := fun x =>
  match x with
  | 0x10000 => 77
  | 0x10001 => 90
  | 0x1003C => 0x80
  | 0x10080 => 80
  | 0x10081 => 69
  | 0x10084 => 0x64
  | 0x10085 => 0x86
  | 0x10086 => 1
  | 0x10094 => 112
  | 0x10098 => 0x0B
  | 0x10099 => 0x02
  | 0x100B2 => 0x10
  | 0x100D1 => 0x30
  | 0x100DC => 17
  | 0x10108 => 46
  | 0x10109 => 100
  | 0x1010A => 97
  | 0x1010B => 116
  | 0x1010C => 97
  | 0x10115 => 0x10
  | 0x10119 => 0x20
  | 0x1011D => 0x02
  | _ => 0

/-- A firmware that has every page free but those of the blob. -/
def givesAddress : AllocatePages := fun memory _ => memory

theorem dataImage_exec : ldrFindExecHeader dataImage 0x10000 = 0x10080 := by decide

theorem dataImage_opt : ldrFindOptExecHeader dataImage 0x10000 = 0x10098 := by decide

theorem dataImage_accepted (hs : InSpace 0x10000 size) : Accepted dataImage 0x10000 size := by
  refine ⟨by decide, hs, ⟨by decide, by decide⟩, by decide, by decide, ?_⟩
  rw [dataImage_exec, dataImage_opt]
  refine ⟨Store.get_u16_iff.mpr (by decide), Store.get_u32_iff.mpr (by decide),
    Store.get_u16_iff.mpr (by decide)⟩

theorem dataImage_requested : requestedAddress dataImage 0x10098 = 0x100000 := by
  have hbase : mImageBase dataImage 0x10098 = 0 := Store.get_u32_iff.mpr (by decide)
  have hdata : mBaseOfData dataImage 0x10098 = 0x100000 := Store.get_u32_iff.mpr (by decide)
  rw [requestedAddress, hbase, hdata]
  rfl

theorem dataImage_numPages : numPages dataImage 0x10098 = 24 := by
  have hsize : mSizeOfImage dataImage 0x10098 = 0x3000 := Store.get_u32_iff.mpr (by decide)
  rw [numPages, hsize]
  rfl

theorem dataImage_pages : pagesExtent dataImage 0x10000 = ⟨0x100000, 0x18000⟩ := by
  rw [pagesExtent, dataImage_opt, dataImage_requested, dataImage_numPages]
  rfl

theorem dataImage_allocates (hs : size ≤ 0xF0000) :
    Allocates givesAddress dataImage 0x10000 size := by
  refine ⟨rfl, ?_, ?_⟩
  · rw [dataImage_pages]
    decide
  · rw [dataImage_pages]
    apply Extent.apart_of_le
    change 0x10000 + size ≤ 0x100000
    omega

theorem dataImage_sections : sectionsOf dataImage 0x10000 = [0x10108] := by
  have hnum : mNumberOfSections dataImage 0x10080 = 1 := Store.get_u16_iff.mpr (by decide)
  have hopt : mSizeOfOptionalHeader dataImage 0x10080 = 112 := Store.get_u16_iff.mpr (by decide)
  rw [sectionsOf, sectionTable, dataImage_exec, dataImage_opt, hnum, hopt]
  rfl

theorem dataImage_header :
    sectionHeader dataImage 0x10108 =
      ⟨[46, 100, 97, 116, 97, 0, 0, 0], 0x1000, 0x2000, 0x200⟩ := by
  have hva : dataImage.get Layout.u32 0x10114 = 0x1000 := Store.get_u32_iff.mpr (by decide)
  have hsize : dataImage.get Layout.u32 0x10118 = 0x2000 := Store.get_u32_iff.mpr (by decide)
  have hptr : dataImage.get Layout.u32 0x1011C = 0x200 := Store.get_u32_iff.mpr (by decide)
  have hname : List.ofFn (dataImage.read 0x10108 8) = [46, 100, 97, 116, 97, 0, 0, 0] := by decide
  change SectionHeader.mk _ (dataImage.get Layout.u32 0x10114)
    (dataImage.get Layout.u32 0x10118) (dataImage.get Layout.u32 0x1011C) = _
  rw [hva, hsize, hptr]
  exact congrArg (fun name => SectionHeader.mk name 0x1000 0x2000 0x200) hname

theorem dataImage_goesOn : GoesOn dataImage 0x10000 := by
  rw [GoesOn, dataImage_sections, List.forall_mem_singleton, dataImage_header]
  intro h
  rcases h with ⟨hbranch, _⟩
  exact absurd hbranch (by decide)

theorem dataImage_image : imageOf dataImage 0x10000 = ⟨0x10000, 0x10098, 0x100000⟩ := by
  rw [imageOf, dataImage_opt, dataImage_requested]

theorem dataImage_lastOver {x : Nat} (hx : 0x101000 ≤ x ∧ x < 0x109000) :
    lastOver dataImage ⟨0x10000, 0x10098, 0x100000⟩ x [0x10108] =
      some ⟨[46, 100, 97, 116, 97, 0, 0, 0], 0x1000, 0x2000, 0x200⟩ := by
  rw [lastOver_cons_some, dataImage_header]
  exact Or.inr ⟨rfl, hx, rfl⟩

theorem loadLaw_dataImage :
    LoadLaw givesAddress dataImage 0x10000 0x8200 0x100000 := by
  rw [loadLaw_iff (dataImage_accepted (by decide)) (dataImage_allocates (by decide))]
  refine ⟨by decide, ?_, ?_⟩
  · rw [dataImage_sections, dataImage_image, dataImage_pages]
    refine ⟨⟨?_, ?_, ?_, ?_⟩, fun _ => trivial⟩
    · have hreads : ∀ e ∈ sectionReads 0x10108, 0 < e.size ∧ 0x10000 ≤ e.start ∧
          e.start + e.size ≤ 0x18200 := by decide
      intro e he
      obtain ⟨hpos, hle⟩ := hreads e he
      exact (Extent.inside_iff hpos).mpr hle
    · rw [dataImage_header]
      exact (Extent.inside_iff (by decide)).mpr (by decide)
    · rw [dataImage_header]
      exact fun e he => absurd he List.not_mem_nil
    · rw [dataImage_header]
      exact fun _ => (Extent.inside_iff (by decide)).mpr (by decide)
  · intro _
    rw [SectionsAt, dataImage_sections, List.forall_mem_singleton, dataImage_header,
      dataImage_image]
    intro k hk
    have hk' : k < 0x2000 := hk
    have hx : ((0x100000 : UInt64) + (0x1000 : UInt32).toUInt64 + UInt64.ofNat k).toNat =
        0x101000 + k := by
      have hbase : ((0x100000 : UInt64) + (0x1000 : UInt32).toUInt64).toNat = 0x101000 := rfl
      rw [UInt64.toNat_add, hbase, UInt64.toNat_ofNat']
      omega
    rw [hx, loadedByte, dataImage_lastOver ⟨by omega, by omega⟩]
    change dataImage (0x10200 + (0x101000 + k - 0x101000)) = dataImage (0x10200 + k)
    rw [Nat.add_sub_cancel_left]

/-- The blob ends behind the raw data, and more is read. -/
theorem loadLaw_pastEnd :
    Accepted dataImage 0x10000 0x2200 ∧ Allocates givesAddress dataImage 0x10000 0x2200 ∧
      ∀ imageBase, ¬ LoadLaw givesAddress dataImage 0x10000 0x2200 imageBase := by
  have hacc : Accepted dataImage 0x10000 0x2200 := dataImage_accepted (by decide)
  have hall : Allocates givesAddress dataImage 0x10000 0x2200 :=
    dataImage_allocates (by decide)
  refine ⟨hacc, hall, ?_⟩
  intro imageBase h
  rcases h with ⟨ended, hrun, hin, _⟩
  rw [bThread_accepted hacc hall] at hrun
  have hfirst := hin.of_grows (loadSections_grows hrun)
  have hag : Agrees (blobExtent 0x10000 0x2200) dataImage (firstLoader dataImage 0x10000).memory :=
    fun _ _ => rfl
  have hfit := loadSections_inside (hall.memoryMap hacc) hag hfirst hrun hin
  have hno := dataImage_goesOn
  rw [GoesOn, dataImage_sections, List.forall_mem_singleton] at hno
  rw [dataImage_sections] at hfit
  have hcp := hfit.1.copied hno
  rw [dataImage_image, dataImage_header] at hcp
  have hle := (Extent.inside_iff (by decide)).mp hcp
  exact absurd hle.2 (by decide)

end Zka.BootKit
