import Zka.BootKit.Thread

/-!
# Loading an image

Which bytes the constructor of `BThread` reads and writes, and what stands in memory
when it is done.  As long as it stays within the pages of the image and the blob, the
headers that it reads are those of the file.
-/

namespace Zka.BootKit

open KernelKit NewKit CFKit FirmwareKit Outcome Store

/-! ## What an image asks for -/

section Sections

variable (m : Store) (image : Image)

def target (h : SectionHeader) : UInt64 :=
  image.loadStartAddress + h.mVirtualAddress.toUInt64

def source (h : SectionHeader) : UInt64 := image.fBlob + h.mPointerToRawData.toUInt64

/-- Four bytes are stored for each byte of raw data. -/
def storedExtent (h : SectionHeader) : Extent :=
  ⟨(target image h).toNat, 4 * h.mSizeOfRawData.toNat⟩

/-- And four are copied. -/
def copiedExtent (h : SectionHeader) : Extent :=
  ⟨(source image h).toNat, 4 * h.mSizeOfRawData.toNat⟩

/-- What the branch of a section reads. -/
def branchReads (h : SectionHeader) : List Extent :=
  match sectionBranch h.mName with
  | .code => [⟨(image.optHeader + 16).toNat, 4⟩]
  | .newLdr => stubReads (handoverStub m (source image h)) (source image h)
  | .other => []

/-- The section holds a stub at which the machine is stopped. -/
def SectionStops (h : SectionHeader) : Prop :=
  sectionBranch h.mName = .newLdr ∧ (handoverStub m (source image h)).stops = true

/-- The bytes of a section put where it is loaded. -/
def placeSection (s : Store) (h : SectionHeader) : Store :=
  s.copy (target image h).toNat (source image h).toNat (4 * h.mSizeOfRawData.toNat)

/-- A section of the file `m` that stays within the blob and the pages. -/
structure SectionFits (blob pages : Extent) (sect : UInt64) : Prop where
  header : ∀ e ∈ sectionReads sect, e.Inside blob
  stored : (storedExtent image (sectionHeader m sect)).Inside pages
  looked : ∀ e ∈ branchReads m image (sectionHeader m sect), e.Inside blob
  copied : ¬ SectionStops m image (sectionHeader m sect) →
    (copiedExtent image (sectionHeader m sect)).Inside blob

/-- Each section fits, up to the first at which the machine is stopped. -/
def RunFits (blob pages : Extent) : List UInt64 → Prop
  | [] => True
  | sect :: rest => SectionFits m image blob pages sect ∧
      (¬ SectionStops m image (sectionHeader m sect) → RunFits blob pages rest)

/-- The sections put in their places one after the other. -/
def placeSections (sects : List UInt64) (s : Store) : Store :=
  sects.foldl (fun s sect => placeSection image s (sectionHeader m sect)) s

/-- The section is copied over the address. -/
def Covers (x : Nat) (h : SectionHeader) : Prop :=
  (target image h).toNat ≤ x ∧ x < (target image h).toNat + 4 * h.mSizeOfRawData.toNat

instance (x : Nat) (h : SectionHeader) : Decidable (Covers image x h) :=
  inferInstanceAs (Decidable (_ ∧ _))

/-- The last section that is copied over an address. -/
def lastOver (x : Nat) : List UInt64 → Option SectionHeader
  | [] => none
  | sect :: rest => (lastOver x rest).or
      (if Covers image x (sectionHeader m sect) then some (sectionHeader m sect) else none)

/-- What stands at an address behind the loading: a byte of the file, or what stood there. -/
def loadedByte (sects : List UInt64) (x : Nat) : UInt8 :=
  match lastOver m image x sects with
  | some h => m ((source image h).toNat + (x - (target image h).toNat))
  | none => m x

end Sections

/-! ## Bounds -/

/-- Everything touched so far lies in the blob or in the pages. -/
structure InBounds (blob pages : Extent) (s : Loader) : Prop where
  reads : ∀ e ∈ s.reads, e.Inside blob
  writes : ∀ e ∈ s.writes, e.Inside pages

/-- The state behind a pass. -/
def passLoader : Loader ⊕ BThreadEnd → Loader
  | .inl s => s
  | .inr ended => ended.loader

/-- What was touched stays touched. -/
structure Grows (s t : Loader) : Prop where
  reads : s.reads ⊆ t.reads
  writes : s.writes ⊆ t.writes

variable {blob pages : Extent} {s t u : Loader}

theorem Grows.refl (s : Loader) : Grows s s := ⟨List.Subset.refl _, List.Subset.refl _⟩

theorem Grows.trans (h : Grows s t) (h' : Grows t u) : Grows s u :=
  ⟨List.Subset.trans h.reads h'.reads, List.Subset.trans h.writes h'.writes⟩

theorem InBounds.of_grows (h : InBounds blob pages t) (hst : Grows s t) : InBounds blob pages s :=
  ⟨fun e he => h.reads e (hst.reads he), fun e he => h.writes e (hst.writes he)⟩

theorem Grows.reading (s : Loader) (es : List Extent) : Grows s (s.reading es) :=
  ⟨List.subset_append_left _ _, List.Subset.refl _⟩

theorem inBounds_reading {es : List Extent} :
    InBounds blob pages (s.reading es) ↔
      InBounds blob pages s ∧ ∀ e ∈ es, e.Inside blob := by
  constructor
  · intro h
    exact ⟨h.of_grows (.reading s es), fun e he => h.reads e (List.mem_append_right _ he)⟩
  · intro h
    rcases h with ⟨h, hes⟩
    refine ⟨fun e he => ?_, h.writes⟩
    exact (List.mem_append.mp he).elim (h.reads e) (hes e)

theorem setMem_eq_done {dst : UInt64} {byte : Int32} {len : SizeT} :
    s.setMem dst byte len = .done t ↔ InSpace dst (4 * len.toNat) ∧
      t = { s with
        memory := setWords s.memory dst byte.toUInt32 len.toNat
        writes := s.writes ++ [⟨dst.toNat, 4 * len.toNat⟩] } := by
  rw [Loader.setMem, memset]
  by_cases h : InSpace dst (4 * len.toNat)
  · simp [h, eq_comm]
  · simp [h]

theorem copyMem_eq_done {dst src : UInt64} {len : SizeT} :
    s.copyMem dst src len = .done t ↔
      (InSpace dst (4 * len.toNat) ∧ InSpace src (4 * len.toNat)) ∧
      t = { s with
        memory := copyElements 4 s.memory dst.toNat src.toNat len.toNat
        reads := s.reads ++ [⟨src.toNat, 4 * len.toNat⟩]
        writes := s.writes ++ [⟨dst.toNat, 4 * len.toNat⟩] } := by
  rw [Loader.copyMem, memcpy]
  by_cases h : InSpace dst (4 * len.toNat) ∧ InSpace src (4 * len.toNat)
  · simp [h, eq_comm]
  · simp [h]

theorem inSpace_of_inside {p : UInt64} {n : Nat} {e : Extent} (h : Extent.Inside ⟨p.toNat, n⟩ e)
    (he : e.start + e.size ≤ 2 ^ 64) : InSpace p n := by
  have hp := p.toNat_lt
  unfold InSpace
  rcases Nat.eq_zero_or_pos n with rfl | hpos
  · omega
  · have hin := (Extent.inside_iff (e := ⟨p.toNat, n⟩) hpos).mp h
    dsimp only at hin
    omega

/-- Extents in two that are apart do not meet. -/
theorem apart_of_inside {a b n : Nat} (hap : blob.Apart pages) (ha : Extent.Inside ⟨a, n⟩ blob)
    (hb : Extent.Inside ⟨b, n⟩ pages) : a + n ≤ b ∨ b + n ≤ a := by
  rcases Nat.eq_zero_or_pos n with rfl | hpos
  · omega
  · have hsub : Extent.Apart ⟨a, n⟩ ⟨b, n⟩ := Disjoint.mono ha hb hap
    exact (Extent.apart_iff hpos hpos).mp hsub

/-! ## The blob stays as it is -/

/-- The bytes of the blob are those of the file. -/
def Agrees (blob : Extent) (m s : Store) : Prop := ∀ x ∈ blob.addresses, s x = m x

variable {m r : Store} {image : Image} {h : SectionHeader} {sect : UInt64}

theorem Agrees.get {α : Type} {n a : Nat} (hag : Agrees blob m r) (layout : Layout α n)
    (hin : Extent.Inside ⟨a, n⟩ blob) : Store.get layout r a = Store.get layout m a :=
  get_congr layout fun x hx hlt => hag x (hin ⟨hx, hlt⟩)

theorem Agrees.sectionHeader (hag : Agrees blob m r)
    (hin : ∀ e ∈ sectionReads sect, e.Inside blob) :
    sectionHeader r sect = sectionHeader m sect := by
  simp only [sectionReads, List.forall_mem_cons] at hin
  obtain ⟨hname, hva, hsize, hptr, _⟩ := hin
  have hread : r.read sect.toNat 8 = m.read sect.toNat 8 := hag.get (Layout.bytes 8) hname
  rw [KernelKit.sectionHeader, KernelKit.sectionHeader, hread, hag.get _ hva, hag.get _ hsize,
    hag.get _ hptr]

/-- The fields of the stub that are looked at, and what is decided by them. -/
theorem Agrees.stub {p : UInt64} (hag : Agrees blob m r)
    (hin : ∀ e ∈ stubReads (handoverStub r p) p, e.Inside blob) :
    stubReads (handoverStub m p) p = stubReads (handoverStub r p) p ∧
      (handoverStub m p).stops = (handoverStub r p).stops := by
  have hmagic : (handoverStub m p).handoverMagic = (handoverStub r p).handoverMagic := by
    refine (hag.get Layout.u64 (hin ⟨p.toNat, 8⟩ ?_)).symm
    unfold stubReads
    split
    · exact List.mem_cons_self
    · split
      · exact List.mem_cons_self
      · exact List.mem_cons_self
  by_cases h0 : (handoverStub r p).handoverMagic = kHandoverMagic
  · simp [stubReads, HandoverInformationStub.stops, hmagic, h0]
  have htype : (handoverStub m p).handoverType = (handoverStub r p).handoverType := by
    refine (hag.get Layout.u32 (hin ⟨(p + 8).toNat, 4⟩ ?_)).symm
    unfold stubReads
    rw [if_neg h0]
    split
    · exact List.mem_cons_of_mem _ List.mem_cons_self
    · exact List.mem_cons_of_mem _ List.mem_cons_self
  simp [stubReads, HandoverInformationStub.stops, hmagic, htype]

theorem Agrees.symm (hag : Agrees blob m r) : Agrees blob r m := fun x hx => (hag x hx).symm

theorem Agrees.branchReads_iff (hag : Agrees blob m r) :
    (∀ e ∈ branchReads r image h, e.Inside blob) ↔ ∀ e ∈ branchReads m image h, e.Inside blob := by
  unfold branchReads
  cases sectionBranch h.mName with
  | code => rfl
  | newLdr =>
    constructor
    · intro hin
      exact (hag.stub hin).1 ▸ hin
    · intro hin
      exact (hag.symm.stub hin).1 ▸ hin
  | other => rfl

theorem Agrees.stops_iff (hag : Agrees blob m r)
    (hin : ∀ e ∈ branchReads m image h, e.Inside blob) :
    SectionStops r image h ↔ SectionStops m image h := by
  unfold SectionStops
  apply and_congr_right
  intro hbranch
  rw [branchReads, hbranch] at hin
  rw [(hag.symm.stub hin).2]

/-- Bytes that come to stand in the pages leave the blob alone. -/
theorem Agrees.outside (hap : blob.Apart pages) {e : Extent} (he : e.Inside pages)
    {r' : Store} (hag : Agrees blob m r) (hout : ∀ x, x ∉ e.addresses → r' x = r x) :
    Agrees blob m r' := by
  intro x hx
  rw [hout x fun hmem => Set.disjoint_left.mp hap hx (he hmem)]
  exact hag x hx

/-! ## One section -/

/-- The blob and the pages stand apart in the address space. -/
structure MemoryMap (blob pages : Extent) : Prop where
  apart : blob.Apart pages
  blobInSpace : blob.start + blob.size ≤ 2 ^ 64
  pagesInSpace : pages.start + pages.size ≤ 2 ^ 64

variable (hmap : MemoryMap blob pages)

private theorem size_toUInt64 (h : SectionHeader) :
    h.mSizeOfRawData.toUInt64.toNat = h.mSizeOfRawData.toNat := UInt32.toNat_toUInt64 _

include hmap in
theorem copySection_fits (hag : Agrees blob m s.memory) (hin : InBounds blob pages s)
    (hst : (storedExtent image h).Inside pages) (hcp : (copiedExtent image h).Inside blob) :
    ∃ s', copySection image s h = .done (.inl s') ∧ InBounds blob pages s' ∧
      Agrees blob m s'.memory ∧ s'.memory = placeSection image s.memory h := by
  have hdst := inSpace_of_inside hst hmap.pagesInSpace
  have hsrc := inSpace_of_inside hcp hmap.blobInSpace
  have hcopy : copyElements 4 s.memory (target image h).toNat (source image h).toNat
      h.mSizeOfRawData.toNat = placeSection image s.memory h :=
    copyElements_all (apart_of_inside hmap.apart hcp hst)
  have hdone : s.copyMem (target image h) (source image h) h.mSizeOfRawData.toUInt64 =
      .done ⟨placeSection image s.memory h, s.fStartAddress, s.reads ++ [copiedExtent image h],
        s.writes ++ [storedExtent image h]⟩ := by
    rw [copyMem_eq_done, size_toUInt64]
    refine ⟨⟨hdst, hsrc⟩, ?_⟩
    rw [hcopy]
    rfl
  refine ⟨⟨placeSection image s.memory h, s.fStartAddress, s.reads ++ [copiedExtent image h],
    s.writes ++ [storedExtent image h]⟩, ?_, ?_, ?_, rfl⟩
  · rw [copySection]
    change s.copyMem (target image h) (source image h) h.mSizeOfRawData.toUInt64 >>= _ = _
    rw [hdone]
    rfl
  · constructor
    · intro e he
      rcases List.mem_append.mp he with he | he
      · exact hin.reads e he
      · exact List.mem_singleton.mp he ▸ hcp
    · intro e he
      rcases List.mem_append.mp he with he | he
      · exact hin.writes e he
      · exact List.mem_singleton.mp he ▸ hst
  · exact Agrees.outside hmap.apart hst hag fun x hx => copy_outside hx

theorem copySection_eq_done {r : Loader ⊕ BThreadEnd} (hdone : copySection image s h = .done r) :
    Grows (s.reading [copiedExtent image h]) (passLoader r) := by
  rw [copySection, bind_eq_done] at hdone
  obtain ⟨s', hcopy, hdone⟩ := hdone
  cases hdone
  rw [copyMem_eq_done, size_toUInt64] at hcopy
  obtain ⟨_, rfl⟩ := hcopy
  exact ⟨List.Subset.refl _, List.subset_append_left _ _⟩

theorem copySection_inside {r : Loader ⊕ BThreadEnd} (hdone : copySection image s h = .done r)
    (hin : InBounds blob pages (passLoader r)) : (copiedExtent image h).Inside blob :=
  (inBounds_reading.mp (hin.of_grows (copySection_eq_done hdone))).2 _ (List.mem_singleton_self _)

theorem copySection_grows {r : Loader ⊕ BThreadEnd} (hdone : copySection image s h = .done r) :
    Grows s (passLoader r) :=
  (Grows.reading s _).trans (copySection_eq_done hdone)

/-- Whatever the branch, what it looks at is read. -/
theorem finishSection_grows {r : Loader ⊕ BThreadEnd} (hdone : finishSection image s h = .done r) :
    Grows (s.reading (branchReads s.memory image h)) (passLoader r) := by
  unfold finishSection at hdone
  unfold branchReads
  cases hbranch : sectionBranch h.mName with
  | code =>
    rw [hbranch] at hdone
    have hgrows := copySection_grows hdone
    exact ⟨hgrows.reads, hgrows.writes⟩
  | newLdr =>
    rw [hbranch] at hdone
    by_cases hstop : (handoverStub s.memory (source image h)).stops = true
    · have hif := (if_pos hstop).symm.trans hdone
      rw [← Outcome.done.inj hif]
      exact Grows.refl _
    · exact copySection_grows ((if_neg hstop).symm.trans hdone)
  | other =>
    rw [hbranch] at hdone
    have hgrows := copySection_grows hdone
    refine ⟨?_, hgrows.writes⟩
    simpa [Loader.reading] using hgrows.reads

include hmap in
theorem finishSection_fits (hag : Agrees blob m s.memory) (hin : InBounds blob pages s)
    (hst : (storedExtent image h).Inside pages)
    (hlook : ∀ e ∈ branchReads m image h, e.Inside blob)
    (hcp : ¬ SectionStops m image h → (copiedExtent image h).Inside blob) :
    ∃ s', InBounds blob pages s' ∧ Agrees blob m s'.memory ∧
      ((SectionStops m image h ∧ finishSection image s h = .done (.inr (.stopped s'))) ∨
        (¬ SectionStops m image h ∧ finishSection image s h = .done (.inl s') ∧
          s'.memory = placeSection image s.memory h)) := by
  have hlook' := hag.branchReads_iff.mpr hlook
  have hstops := hag.stops_iff hlook
  unfold finishSection
  unfold branchReads at hlook'
  cases hbranch : sectionBranch h.mName with
  | code =>
    rw [hbranch] at hlook'
    have hno : ¬ SectionStops m image h := fun hs =>
      absurd (hbranch.symm.trans hs.1) (by decide)
    have hread := inBounds_reading.mpr ⟨hin, hlook'⟩
    obtain ⟨s', hdone, hin', hag', hmem⟩ := copySection_fits hmap
      (s := { s.reading [⟨(image.optHeader + 16).toNat, 4⟩] with
        fStartAddress := image.loadStartAddress +
          (mAddressOfEntryPoint s.memory image.optHeader).toUInt64 })
      hag ⟨hread.reads, hread.writes⟩ hst (hcp hno)
    exact ⟨s', hin', hag', Or.inr ⟨hno, hdone, hmem⟩⟩
  | newLdr =>
    rw [hbranch] at hlook'
    have hread := inBounds_reading.mpr ⟨hin, hlook'⟩
    by_cases hstop : (handoverStub s.memory (source image h)).stops = true
    · refine ⟨_, hread, hag, Or.inl ⟨hstops.mp ⟨hbranch, hstop⟩, ?_⟩⟩
      exact if_pos hstop
    · have hno : ¬ SectionStops m image h := fun hs => hstop (hstops.mpr hs).2
      obtain ⟨s', hdone, hin', hag', hmem⟩ := copySection_fits hmap
        (s := s.reading (stubReads (handoverStub s.memory (source image h)) (source image h)))
        hag hread hst (hcp hno)
      refine ⟨s', hin', hag', Or.inr ⟨hno, ?_, hmem⟩⟩
      exact (if_neg hstop).trans hdone
  | other =>
    have hno : ¬ SectionStops m image h := fun hs =>
      absurd (hbranch.symm.trans hs.1) (by decide)
    obtain ⟨s', hdone, hin', hag', hmem⟩ := copySection_fits hmap hag hin hst (hcp hno)
    exact ⟨s', hin', hag', Or.inr ⟨hno, hdone, hmem⟩⟩

theorem finishSection_inside {r : Loader ⊕ BThreadEnd} (hag : Agrees blob m s.memory)
    (hdone : finishSection image s h = .done r) (hin : InBounds blob pages (passLoader r)) :
    (∀ e ∈ branchReads m image h, e.Inside blob) ∧
      (¬ SectionStops m image h → (copiedExtent image h).Inside blob) := by
  have hlook : ∀ e ∈ branchReads m image h, e.Inside blob :=
    hag.branchReads_iff.mp (inBounds_reading.mp (hin.of_grows (finishSection_grows hdone))).2
  refine ⟨hlook, ?_⟩
  intro hno
  rw [← hag.stops_iff hlook] at hno
  unfold finishSection at hdone
  cases hbranch : sectionBranch h.mName with
  | code =>
    rw [hbranch] at hdone
    exact copySection_inside hdone hin
  | newLdr =>
    rw [hbranch] at hdone
    have hstop : ¬ (handoverStub s.memory (source image h)).stops = true := fun hs =>
      hno ⟨hbranch, hs⟩
    exact copySection_inside ((if_neg hstop).symm.trans hdone) hin
  | other =>
    rw [hbranch] at hdone
    exact copySection_inside hdone hin

/-- A section is cleared and then copied over what was cleared. -/
theorem placeSection_cleared {value : UInt32} (hdst : InSpace (target image h)
      (4 * h.mSizeOfRawData.toNat))
    (hap : (source image h).toNat + 4 * h.mSizeOfRawData.toNat ≤ (target image h).toNat ∨
      (target image h).toNat + 4 * h.mSizeOfRawData.toNat ≤ (source image h).toNat) (r : Store) :
    placeSection image (setWords r (target image h) value h.mSizeOfRawData.toNat) h =
      placeSection image r h := by
  funext x
  unfold placeSection copy
  split
  · exact setWords_range hdst (by omega)
  next hout => exact setWords_range hdst hout

/-- The state behind the clearing of a section, and what it has read of its header. -/
def clearedLoader (image : Image) (s : Loader) (h : SectionHeader) (sect : UInt64) : Loader :=
  ⟨setWords s.memory (target image h) 0 h.mSizeOfRawData.toNat, s.fStartAddress,
    s.reads ++ sectionReads sect, s.writes ++ [storedExtent image h]⟩

theorem loadSection_eq_done {r : Loader ⊕ BThreadEnd} (hh : sectionHeader s.memory sect = h) :
    loadSection image s sect = .done r ↔
      InSpace (target image h) (4 * h.mSizeOfRawData.toNat) ∧
        finishSection image (clearedLoader image s h sect)
          (sectionHeader (clearedLoader image s h sect).memory sect) = .done r := by
  subst hh
  set h := sectionHeader s.memory sect with hh
  have hset : ∀ c, s.setMem (target image h) 0 h.mSizeOfRawData.toUInt64 = .done c ↔
      InSpace (target image h) (4 * h.mSizeOfRawData.toNat) ∧
        c = ⟨(clearedLoader image s h sect).memory, s.fStartAddress, s.reads,
          s.writes ++ [storedExtent image h]⟩ := by
    intro c
    rw [setMem_eq_done, size_toUInt64]
    rfl
  rw [loadSection, bind_eq_done]
  constructor
  · intro h
    rcases h with ⟨c, hc, hdone⟩
    obtain ⟨hspace, rfl⟩ := (hset c).mp hc
    exact ⟨hspace, hdone⟩
  · intro h
    rcases h with ⟨hspace, hdone⟩
    exact ⟨_, (hset _).mpr ⟨hspace, rfl⟩, hdone⟩

theorem loadSection_grows {r : Loader ⊕ BThreadEnd} (hdone : loadSection image s sect = .done r) :
    Grows (clearedLoader image s (sectionHeader s.memory sect) sect) (passLoader r) := by
  obtain ⟨_, hfinish⟩ := (loadSection_eq_done rfl).mp hdone
  exact (Grows.reading _ _).trans (finishSection_grows hfinish)

theorem clearedLoader_grows : Grows s (clearedLoader image s h sect) :=
  ⟨List.subset_append_left _ _, List.subset_append_left _ _⟩

include hmap in
/-- A section that fits is loaded within the bounds. -/
theorem loadSection_fits (hag : Agrees blob m s.memory) (hin : InBounds blob pages s)
    (hfit : SectionFits m image blob pages sect) :
    ∃ s', InBounds blob pages s' ∧ Agrees blob m s'.memory ∧
      ((SectionStops m image (sectionHeader m sect) ∧
          loadSection image s sect = .done (.inr (.stopped s'))) ∨
        (¬ SectionStops m image (sectionHeader m sect) ∧
          loadSection image s sect = .done (.inl s') ∧
          s'.memory = placeSection image s.memory (sectionHeader m sect))) := by
  have hh := hag.sectionHeader hfit.header
  set h := sectionHeader m sect with hhdef
  have hspace := inSpace_of_inside hfit.stored hmap.pagesInSpace
  have hag' : Agrees blob m (clearedLoader image s h sect).memory :=
    Agrees.outside hmap.apart hfit.stored hag fun x hx => setWords_range hspace hx
  have hin' : InBounds blob pages (clearedLoader image s h sect) := by
    constructor
    · intro e he
      exact (List.mem_append.mp he).elim (hin.reads e) (hfit.header e)
    · intro e he
      refine (List.mem_append.mp he).elim (hin.writes e) ?_
      intro hlast
      exact List.mem_singleton.mp hlast ▸ hfit.stored
  have hload : ∀ r, loadSection image s sect = .done r ↔
      finishSection image (clearedLoader image s h sect) h = .done r := by
    intro r
    rw [loadSection_eq_done hh, hag'.sectionHeader hfit.header]
    exact and_iff_right hspace
  obtain ⟨s', hin'', hag'', hend⟩ :=
    finishSection_fits hmap hag' hin' hfit.stored hfit.looked hfit.copied
  refine ⟨s', hin'', hag'', ?_⟩
  rcases hend with ⟨hstop, hdone⟩ | ⟨hno, hdone, hmem⟩
  · exact Or.inl ⟨hstop, (hload _).mpr hdone⟩
  · refine Or.inr ⟨hno, (hload _).mpr hdone, ?_⟩
    have hap := apart_of_inside hmap.apart (hfit.copied hno) hfit.stored
    exact hmem.trans (placeSection_cleared hspace hap s.memory)

include hmap in
theorem loadSection_inside {r : Loader ⊕ BThreadEnd} (hag : Agrees blob m s.memory)
    (hdone : loadSection image s sect = .done r) (hin : InBounds blob pages (passLoader r)) :
    SectionFits m image blob pages sect := by
  obtain ⟨hspace, hfinish⟩ := (loadSection_eq_done rfl).mp hdone
  have hclear := hin.of_grows (loadSection_grows hdone)
  have hheader : ∀ e ∈ sectionReads sect, e.Inside blob := fun e he =>
    hclear.reads e (List.mem_append_right _ he)
  have hh := hag.sectionHeader hheader
  have hstored : (storedExtent image (sectionHeader m sect)).Inside pages := by
    rw [← hh]
    exact hclear.writes _ (List.mem_append_right _ (List.mem_singleton_self _))
  rw [hh] at hspace hfinish
  have hag' : Agrees blob m (clearedLoader image s (sectionHeader m sect) sect).memory :=
    Agrees.outside hmap.apart hstored hag fun x hx => setWords_range hspace hx
  rw [hag'.sectionHeader hheader] at hfinish
  obtain ⟨hlook, hcp⟩ := finishSection_inside hag' hfinish hin
  exact ⟨hheader, hstored, hlook, hcp⟩

/-! ## The loop -/

variable {sects rest : List UInt64} {ended : BThreadEnd}

theorem placeSections_cons (r : Store) :
    placeSections m image (sect :: rest) r =
      placeSections m image rest (placeSection image r (sectionHeader m sect)) :=
  List.foldl_cons ..

theorem loadSections_cons :
    loadSections image (sect :: rest) s = .done ended ↔
      (∃ s', loadSection image s sect = .done (.inl s') ∧
        loadSections image rest s' = .done ended) ∨
      loadSection image s sect = .done (.inr ended) := by
  rw [loadSections, bind_eq_done]
  constructor
  · intro h
    rcases h with ⟨s' | e, hload, hdone⟩
    · exact Or.inl ⟨s', hload, hdone⟩
    · cases hdone
      exact Or.inr hload
  · intro h
    rcases h with ⟨s', hload, hdone⟩ | hload
    · exact ⟨.inl s', hload, hdone⟩
    · exact ⟨.inr ended, hload, rfl⟩

theorem loadSections_grows (hdone : loadSections image sects s = .done ended) :
    Grows s ended.loader := by
  induction sects generalizing s with
  | nil =>
    cases hdone
    exact Grows.refl s
  | cons sect rest ih =>
    rcases loadSections_cons.mp hdone with ⟨s', hload, hdone⟩ | hload
    · exact (clearedLoader_grows.trans (loadSection_grows hload)).trans (ih hdone)
    · exact clearedLoader_grows.trans (loadSection_grows hload)

include hmap in
/-- Sections that fit are loaded within the bounds, one after the other. -/
theorem loadSections_fits (hag : Agrees blob m s.memory) (hin : InBounds blob pages s)
    (hfit : RunFits m image blob pages sects) :
    ∃ ended, loadSections image sects s = .done ended ∧ InBounds blob pages ended.loader ∧
      ((∃ sect ∈ sects, SectionStops m image (sectionHeader m sect)) ∧
          (∃ s', ended = .stopped s') ∨
        (∀ sect ∈ sects, ¬ SectionStops m image (sectionHeader m sect)) ∧
          ∃ s', ended = .constructed s' ∧ s'.memory = placeSections m image sects s.memory) := by
  induction sects generalizing s with
  | nil =>
    refine ⟨.constructed s, rfl, hin, Or.inr ⟨?_, s, rfl, rfl⟩⟩
    exact fun sect hmem => absurd hmem List.not_mem_nil
  | cons sect rest ih =>
    obtain ⟨s', hin', hag', ⟨hstop, hload⟩ | ⟨hno, hload, hmem⟩⟩ :=
      loadSection_fits hmap hag hin hfit.1
    · have hrun : loadSections image (sect :: rest) s = .done (.stopped s') :=
        loadSections_cons.mpr (Or.inr hload)
      exact ⟨.stopped s', hrun, hin', Or.inl ⟨⟨sect, List.mem_cons_self, hstop⟩, s', rfl⟩⟩
    · obtain ⟨ended, hrun, hbounds, hend⟩ := ih hag' hin' (hfit.2 hno)
      refine ⟨ended, loadSections_cons.mpr (Or.inl ⟨s', hload, hrun⟩), hbounds, ?_⟩
      rcases hend with ⟨⟨other, hother, hstop⟩, hended⟩ | ⟨hnone, s'', hended, hmem'⟩
      · exact Or.inl ⟨⟨other, List.mem_cons_of_mem _ hother, hstop⟩, hended⟩
      · refine Or.inr ⟨List.forall_mem_cons.mpr ⟨hno, hnone⟩, s'', hended, ?_⟩
        rw [hmem', placeSections_cons]
        exact congrArg (placeSections m image rest) hmem

include hmap in
theorem loadSections_inside (hag : Agrees blob m s.memory) (hin : InBounds blob pages s)
    (hdone : loadSections image sects s = .done ended)
    (hbounds : InBounds blob pages ended.loader) : RunFits m image blob pages sects := by
  induction sects generalizing s with
  | nil => exact trivial
  | cons sect rest ih =>
    rcases loadSections_cons.mp hdone with ⟨s', hload, hdone⟩ | hload
    · have hpass := hbounds.of_grows (loadSections_grows hdone)
      have hfit := loadSection_inside hmap hag hload hpass
      refine ⟨hfit, fun hno => ?_⟩
      obtain ⟨s'', hin', hag', hend⟩ := loadSection_fits hmap hag hin hfit
      rcases hend with ⟨hstop, _⟩ | ⟨_, hload', _⟩
      · exact absurd hstop hno
      · obtain rfl : s' = s'' := Sum.inl.inj (Outcome.done.inj (hload.symm.trans hload'))
        exact ih hag' hin' hdone
    · have hfit := loadSection_inside hmap hag hload hbounds
      refine ⟨hfit, fun hno => ?_⟩
      obtain ⟨s'', _, _, hend⟩ := loadSection_fits hmap hag hin hfit
      rcases hend with ⟨hstop, _⟩ | ⟨_, hload', _⟩
      · exact absurd hstop hno
      · exact nomatch Outcome.done.inj (hload.symm.trans hload')

/-! ## What was loaded -/

theorem lastOver_cons_some {x : Nat} :
    lastOver m image x (sect :: rest) = some h ↔
      lastOver m image x rest = some h ∨
        lastOver m image x rest = none ∧ Covers image x (sectionHeader m sect) ∧
          sectionHeader m sect = h := by
  rw [lastOver, Option.or_eq_some_iff]
  apply or_congr_right
  apply and_congr_right
  intro _
  rw [Option.ite_none_right_eq_some, Option.some.injEq]

theorem lastOver_cons_none {x : Nat} :
    lastOver m image x (sect :: rest) = none ↔
      lastOver m image x rest = none ∧ ¬ Covers image x (sectionHeader m sect) := by
  rw [lastOver, Option.or_eq_none_iff]
  apply and_congr_right
  intro _
  simp

include hmap in
/-- The last section over an address decides what stands there. -/
theorem placeSections_apply (hag : Agrees blob m r) (hfit : RunFits m image blob pages sects)
    (hno : ∀ sect ∈ sects, ¬ SectionStops m image (sectionHeader m sect)) (x : Nat) :
    (∀ h, lastOver m image x sects = some h → placeSections m image sects r x =
        m ((source image h).toNat + (x - (target image h).toNat))) ∧
      (lastOver m image x sects = none → placeSections m image sects r x = r x) := by
  induction sects generalizing r with
  | nil => exact ⟨fun h hsome => (nomatch hsome), fun _ => rfl⟩
  | cons sect rest ih =>
    obtain ⟨hfirst, hrest⟩ := List.forall_mem_cons.mp hno
    have hcp := hfit.1.copied hfirst
    have hag' : Agrees blob m (placeSection image r (sectionHeader m sect)) :=
      Agrees.outside hmap.apart hfit.1.stored hag fun y hy => copy_outside hy
    obtain ⟨hlater, hnone⟩ := ih hag' (hfit.2 hfirst) hrest
    rw [placeSections_cons]
    constructor
    · intro h hsome
      rcases lastOver_cons_some.mp hsome with hsome | ⟨hno, hcov, rfl⟩
      · exact hlater h hsome
      · unfold Covers at hcov
        rw [hnone hno, placeSection, copy, if_pos hcov]
        refine hag _ (hcp ⟨?_, ?_⟩)
        · dsimp only [copiedExtent]
          omega
        · dsimp only [copiedExtent]
          omega
    · intro hno
      obtain ⟨hno, hcov⟩ := lastOver_cons_none.mp hno
      rw [hnone hno]
      exact copy_outside hcov

end Zka.BootKit
