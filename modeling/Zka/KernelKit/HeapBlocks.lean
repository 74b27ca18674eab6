import Zka.KernelKit.Heap

/-!
# Heap blocks

Where a block stands in the grant of the page manager, and what its deletion
changes.
-/

namespace Zka.KernelKit

open Outcome HALKit NewKit Store

/-! ## The place of a block -/

section Geometry

variable (abi : BitFieldRules) (granted : UIntPtr) (sz : UInt64)

/-- The bytes that the page manager was asked for. -/
def grant : Extent := ⟨granted.toNat, (sz + sizeofHeapInformationBlock abi).toNat⟩

/-- The magic word, the size and the use mark of the page manager. -/
def bitMapWords : Extent := ⟨granted.toNat, 24⟩

def heapHeader : Extent :=
  ⟨(granted + sizeofHeapInformationBlock abi).toNat, (sizeofHeapInformationBlock abi).toNat⟩

/-- The header, the bytes that its initialisation changes and the payload lie in the grant, behind
the words of the page manager. -/
structure HeapGeometry (m : Store) (p : UIntPtr) (m' : Store) : Prop where
  header_inside : (heapHeader abi granted).Inside (grant abi granted sz)
  header_apart : (heapHeader abi granted).Apart (bitMapWords granted)
  touched_inside : ∀ x, m' x ≠ m x → x ∈ (grant abi granted sz).addresses
  touched_apart : ∀ x, m' x ≠ m x → x ∉ (bitMapWords granted).addresses
  payload_inside : Extent.Inside ⟨p.toNat, sz.toNat⟩ (grant abi granted sz)
  payload_apart : Extent.Apart ⟨p.toNat, sz.toNat⟩ (bitMapWords granted)

theorem sizeof_cases : (sizeofHeapInformationBlock abi).toNat = 48 ∨
    (sizeofHeapInformationBlock abi).toNat = 49 := by
  cases abi <;> decide

/-- The payload begins two headers behind the grant, which has room for one. -/
theorem payload_outside (hpos : 0 < sz) :
    ¬ Extent.Inside ⟨(granted + sizeofHeapInformationBlock abi +
      sizeofHeapInformationBlock abi).toNat, sz.toNat⟩ (grant abi granted sz) := by
  intro h
  have hsz : 0 < sz.toNat := UInt64.lt_iff_toNat_lt.mp hpos
  have hgranted := granted.toNat_lt
  have hinside := (Extent.inside_iff hsz).mp h
  simp only [grant, UInt64.toNat_add] at hinside
  obtain hsize | hsize := sizeof_cases abi
  · omega
  · omega

end Geometry

variable {abi : BitFieldRules} {request : PageRequest} {m m' : Store} {granted : UIntPtr}
  {sz : UInt64} {wr user : Bool}

theorem mmNewHeap_eq (hpos : sz ≠ 0)
    (hgrant : request wr user false (sz + sizeofHeapInformationBlock abi) m = .done (granted, m')) :
    mmNewHeap abi request m sz wr user =
      .done (granted + sizeofHeapInformationBlock abi + sizeofHeapInformationBlock abi,
        initHeader abi m' (granted + sizeofHeapInformationBlock abi)
          (sz + sizeofHeapInformationBlock abi) wr user) := by
  rw [mmNewHeap, if_neg hpos]
  simp only [hgrant, done_bind, fHeapPtr_initHeader, pure_eq_done]

/-- Every block is made in a grant of the page manager. -/
theorem mmNewHeap_done {p : UIntPtr} {m'' : Store} (hpos : sz ≠ 0)
    (hnew : mmNewHeap abi request m sz wr user = .done (p, m'')) :
    ∃ granted m', request wr user false (sz + sizeofHeapInformationBlock abi) m =
        .done (granted, m') ∧
      p = granted + sizeofHeapInformationBlock abi + sizeofHeapInformationBlock abi ∧
      m'' = initHeader abi m' (granted + sizeofHeapInformationBlock abi)
        (sz + sizeofHeapInformationBlock abi) wr user := by
  have hrequest := hnew
  rw [mmNewHeap, if_neg hpos] at hrequest
  obtain ⟨⟨granted, m'⟩, hgrant, -⟩ := bind_eq_done.mp hrequest
  rw [mmNewHeap_eq hpos hgrant, done.injEq, Prod.mk.injEq] at hnew
  exact ⟨granted, m', hgrant, hnew.1.symm, hnew.2.symm⟩

theorem heapGeometry_payload {p : UIntPtr} {m'' : Store} (hpos : 0 < sz)
    (hgrant : request wr user false (sz + sizeofHeapInformationBlock abi) m = .done (granted, m'))
    (hnew : mmNewHeap abi request m sz wr user = .done (p, m'')) :
    ¬ HeapGeometry abi granted sz m' p m'' := by
  intro h
  have hne : sz ≠ 0 := by
    intro h0
    rw [h0] at hpos
    exact absurd hpos (by decide)
  rw [mmNewHeap_eq hne hgrant, done.injEq, Prod.mk.injEq] at hnew
  have hpayload := h.payload_inside
  rw [← hnew.1] at hpayload
  exact payload_outside abi granted sz hpos hpayload

theorem heapGeometry_never (hpos : 0 < sz)
    (hgrant : request wr user false (sz + sizeofHeapInformationBlock abi) m = .done (granted, m')) :
    ¬ ∃ p m'', mmNewHeap abi request m sz wr user = .done (p, m'') ∧
      HeapGeometry abi granted sz m' p m'' := by
  intro h
  obtain ⟨p, m'', hnew, hgeometry⟩ := h
  exact heapGeometry_payload hpos hgrant hnew hgeometry

/-- A page manager that grants one address. -/
def grantAt (granted : UIntPtr) : PageRequest := fun _ _ _ _ m => .done (granted, m)

theorem heapGeometry_never_page : ¬ ∃ p m'',
    mmNewHeap .separate (grantAt 0x2000) (fun _ => 0) 4096 true false = .done (p, m'') ∧
      HeapGeometry .separate 0x2000 4096 (fun _ => 0) p m'' :=
  heapGeometry_never (by decide) rfl

/-- Sixteen bytes from a grant at 0x1000 that ends at 0x1040. -/
theorem heapGeometry_sixteen : ∃ m'',
    mmNewHeap .shared (grantAt 0x1000) (fun _ => 0) 16 true false = .done (0x1060, m'') ∧
      ¬ HeapGeometry .shared 0x1000 16 (fun _ => 0) 0x1060 m'' := by
  have hnew : mmNewHeap .shared (grantAt 0x1000) (fun _ => 0) 16 true false = _ :=
    mmNewHeap_eq (by decide) rfl
  exact ⟨_, hnew, heapGeometry_payload (by decide) rfl hnew⟩

/-! ## Exhaustion -/

section Exhaustion

variable {pool : Pool} {fuel : Nat} {r : BitMapReply}

/-- The null of the page manager is taken for a grant. -/
theorem mmNewHeap_refused (hpos : sz ≠ 0)
    (halloc : mmAllocBitmap pool fuel m wr user (sz + sizeofHeapInformationBlock abi) false =
      .done r) (hnull : r.ptr = 0) :
    mmNewHeap abi (pageMgrRequest pool fuel) m sz wr user =
      .done (sizeofHeapInformationBlock abi + sizeofHeapInformationBlock abi,
        initHeader abi m (sizeofHeapInformationBlock abi)
          (sz + sizeofHeapInformationBlock abi) wr user) := by
  have hrequest : pageMgrRequest pool fuel wr user false (sz + sizeofHeapInformationBlock abi) m =
      .done (0, m) := by
    rw [pageMgrRequest, halloc, mmAllocBitmap_null halloc hnull]
    rfl
  rw [mmNewHeap_eq hpos hrequest, zero_add]

/-- The caller of `mm_new_heap` sees that the page manager has no block only when none was needed. -/
theorem mmNewHeap_exhausted_iff
    (halloc : mmAllocBitmap pool fuel m wr user (sz + sizeofHeapInformationBlock abi) false =
      .done r) (hnull : r.ptr = 0) :
    mmNewHeap abi (pageMgrRequest pool fuel) m sz wr user = .done (0, m) ↔ sz = 0 := by
  constructor
  · intro hnew
    by_contra hpos
    rw [mmNewHeap_refused hpos halloc hnull, done.injEq, Prod.mk.injEq] at hnew
    have hne : sizeofHeapInformationBlock abi + sizeofHeapInformationBlock abi ≠ 0 := by
      cases abi <;> decide
    exact hne hnew.1
  · intro h
    subst h
    rw [mmNewHeap, if_pos rfl]
    rfl

/-- A pool whose first block is in use. -/
def usedPool : Store := newBitMap (fun _ => 0) samplePool.tested 16

theorem usedPool_null :
    mmAllocBitmap samplePool 1 usedPool true false 64 false = .done (.null usedPool) := by
  have hmagic : wordAt usedPool samplePool.tested kBitMapMagIdx = kBitMapMagic :=
    headed_newBitMap (fun _ => 0) (by decide)
  have hused : wordAt usedPool samplePool.tested kBitMapUsedIdx = 1 := wordAt_setWord_same _ _ _ _
  have hsize : wordAt usedPool samplePool.tested kBitMapSizeIdx = 16 := by
    rw [usedPool, newBitMap, wordAt_setWord_apart _ _ (by decide), wordAt_setWord_same]
  refine whileLoop_exit ?_ 0
  change findBody usedPool samplePool.start 64 samplePool.size _ samplePool.tested = _
  rw [findBody, hmagic, hused, hsize]
  rfl

theorem mmNewHeap_exhausted_sixteen :
    mmNewHeap .shared (pageMgrRequest samplePool 1) usedPool 16 true false = .done (0, usedPool) ↔
      (16 : UInt64) = 0 :=
  mmNewHeap_exhausted_iff usedPool_null rfl

/-- The page manager has no block for 16 bytes; the caller is given the address 0x60. -/
theorem mmNewHeap_unseen : ∃ m',
    mmNewHeap .shared (pageMgrRequest samplePool 1) usedPool 16 true false = .done (0x60, m') ∧
      mmNewHeap .shared (pageMgrRequest samplePool 1) usedPool 16 true false ≠
        .done (0, usedPool) := by
  have hnew : mmNewHeap .shared (pageMgrRequest samplePool 1) usedPool 16 true false = _ :=
    mmNewHeap_refused (by decide) usedPool_null rfl
  refine ⟨_, hnew, ?_⟩
  rw [hnew]
  intro heq
  exact absurd (Prod.mk.inj (done.inj heq)).1 (by decide)

end Exhaustion

/-! ## The deletion of a block -/

section Delete

variable (abi : BitFieldRules) (m : Store) (p : UIntPtr)

/-- Where the header of the heap is looked for. -/
def headerOf : UIntPtr := p - sizeofHeapInformationBlock abi

/-- Where the words of the page manager are looked for. -/
def bitMapOf : UIntPtr := headerOf abi p - sizeofHeapInformationBlock abi

/-- A block whose two headers are as `mm_new_heap` left them, and which has no check sequence. -/
structure IntactBlock : Prop where
  room : 2 * (sizeofHeapInformationBlock abi).toNat ≤ p.toNat
  magic : fMagic abi m (headerOf abi p) = kKernelHeapMagic
  present : fBit abi m (headerOf abi p) .present = true
  crc : fCRC32 abi m (headerOf abi p) = 0
  bitMap : isBitMap m (bitMapOf abi p) = true

/-- The fields of the header that a deletion clears, and an allocation fills in. -/
def assignedFields : List HeapField := [.fMagic, .bits, .fCRC32, .fHeapSize, .fHeapPtr]

def usedWord : Extent := ⟨(bitMapOf abi p + 8 * kBitMapUsedIdx).toNat, 8⟩

/-- The header is cleared and the grant is free, and nothing else is changed. -/
structure HeapDeleted (m' : Store) : Prop where
  magic : fMagic abi m' (headerOf abi p) = fun _ => 0
  bits : heapBits abi m' (headerOf abi p) = heapBits abi m (headerOf abi p) &&&
    ~~~(HeapBit.present.mask ||| HeapBit.wr.mask ||| HeapBit.user.mask)
  crc : fCRC32 abi m' (headerOf abi p) = 0
  heapSize : fHeapSize abi m' (headerOf abi p) = 0
  heapPtr : fHeapPtr abi m' (headerOf abi p) = 0
  used : wordAt m' (bitMapOf abi p) kBitMapUsedIdx = 0
  frame : ChangesOnly (usedWord abi p :: assignedFields.map (HeapField.extent abi (headerOf abi p)))
    m m'

theorem headerOf_payload (granted : UIntPtr) : headerOf abi (granted +
    sizeofHeapInformationBlock abi + sizeofHeapInformationBlock abi) =
      granted + sizeofHeapInformationBlock abi := by
  simp [headerOf]

theorem headerOf_toNat (hroom : 2 * (sizeofHeapInformationBlock abi).toNat ≤ p.toNat) :
    (headerOf abi p).toNat = p.toNat - (sizeofHeapInformationBlock abi).toNat := by
  rw [headerOf, UInt64.toNat_sub_of_le]
  rw [UInt64.le_iff_toNat_le]
  omega

theorem bitMapOf_toNat (hroom : 2 * (sizeofHeapInformationBlock abi).toNat ≤ p.toNat) :
    (bitMapOf abi p).toNat = p.toNat - 2 * (sizeofHeapInformationBlock abi).toNat := by
  have hheader := headerOf_toNat abi p hroom
  rw [bitMapOf, UInt64.toNat_sub_of_le, hheader]
  · omega
  · rw [UInt64.le_iff_toNat_le]
    omega

theorem word_toNat (hroom : 2 * (sizeofHeapInformationBlock abi).toNat ≤ p.toNat) {idx : UInt64}
    (hidx : idx ≤ 2) :
    (bitMapOf abi p + 8 * idx).toNat = (bitMapOf abi p).toNat + 8 * idx.toNat := by
  have hidx : idx.toNat ≤ 2 := UInt64.le_iff_toNat_le.mp hidx
  have height : (8 : UInt64).toNat = 8 := rfl
  have hsize := sizeof_cases abi
  have hp := p.toNat_lt
  rw [UInt64.toNat_add, UInt64.toNat_mul, height, bitMapOf_toNat abi p hroom]
  omega

/-- The words of the page manager end before the header of the heap begins. -/
theorem word_end (hroom : 2 * (sizeofHeapInformationBlock abi).toNat ≤ p.toNat) {idx : UInt64}
    (hidx : idx ≤ 2) : (bitMapOf abi p + 8 * idx).toNat + 8 ≤ (headerOf abi p).toNat := by
  have hsize := sizeof_cases abi
  rw [word_toNat abi p hroom hidx, headerOf_toNat abi p hroom, bitMapOf_toNat abi p hroom]
  have hidx : idx.toNat ≤ 2 := UInt64.le_iff_toNat_le.mp hidx
  omega

theorem word_apart (hroom : 2 * (sizeofHeapInformationBlock abi).toNat ≤ p.toNat) {idx : UInt64}
    (hidx : idx ≤ 2) (f : HeapField) :
    Extent.Apart ⟨(bitMapOf abi p + 8 * idx).toNat, 8⟩ (f.extent abi (headerOf abi p)) := by
  have hend := word_end abi p hroom hidx
  have hf := HeapField.offset_le abi f
  have hsize := sizeof_cases abi
  have hheader := headerOf_toNat abi p hroom
  have hp := p.toNat_lt
  have hpos := f.size_pos
  apply Extent.apart_of_le
  simp only [HeapField.extent, HeapField.place, UInt64.toNat_add (headerOf abi p)]
  omega

/-- The words stored over the padding may run past the end of the address space. -/
theorem word_apart_padding (hroom : 2 * (sizeofHeapInformationBlock abi).toNat ≤ p.toNat)
    {idx : UInt64} (hidx : idx ≤ 2) :
    ∀ e ∈ wordExtents (headerOf abi p + HeapField.fPadding.offset abi) 16,
      Extent.Apart ⟨(bitMapOf abi p + 8 * idx).toNat, 8⟩ e := by
  intro e he
  obtain ⟨i, hi, rfl⟩ := List.mem_map.mp he
  have hi := List.mem_range.mp hi
  have hend := word_end abi p hroom hidx
  have hword := word_toNat abi p hroom hidx
  have hfour : (4 : UInt64).toNat = 4 := rfl
  have hoffset := HeapField.offset_le abi .fPadding
  have hsize := sizeof_cases abi
  have hheader := headerOf_toNat abi p hroom
  have hbitMap := bitMapOf_toNat abi p hroom
  have hp := p.toNat_lt
  rw [Extent.apart_iff (by simp) (by simp)]
  simp only [UInt64.toNat_add (headerOf abi p + _), UInt64.toNat_add (headerOf abi p),
    UInt64.toNat_mul 4, UInt64.toNat_ofNat', hfour]
  omega

variable {m} in
/-- One more assignment of a header changes no more than the others. -/
theorem setField_assigned {m' : Store} {header : UIntPtr} {f : HeapField} (value : Bytes f.size)
    (hf : f ∈ assignedFields)
    (h : ChangesOnly (assignedFields.map (HeapField.extent abi header)) m m') :
    ChangesOnly (assignedFields.map (HeapField.extent abi header)) m
      (setField abi m' header f value) := by
  apply (h.trans (setField_only abi m' header f value)).mono
  intro e he
  obtain he | he := List.mem_append.mp he
  · exact ⟨e, he, fun _ hx => hx⟩
  · rw [List.mem_singleton.mp he]
    exact ⟨_, List.mem_map_of_mem hf, fun _ hx => hx⟩

theorem clearHeader_only (header : UIntPtr) :
    ChangesOnly (assignedFields.map (HeapField.extent abi header)) m
      (clearHeader abi m header) := by
  simp only [clearHeader, setMagic, setBit, setCRC32, setHeapPtr, setHeapSize]
  -- from the last assignment back to the first
  iterate 7 refine setField_assigned abi _ (by decide) ?_
  exact (ChangesOnly.refl m).mono (by simp)

theorem initHeader_only (header : UIntPtr) (szFix : UInt64) (wr user : Bool) :
    ChangesOnly (assignedFields.map (HeapField.extent abi header) ++
      wordExtents (header + HeapField.fPadding.offset abi) 16) m
      (initHeader abi m header szFix wr user) := by
  refine ChangesOnly.trans ?_ (rtSetMemory_only _ _ 0 kKernelHeapAlignSz)
  simp only [setMagic, setBit, setCRC32, setHeapPtr, setHeapSize]
  iterate 8 refine setField_assigned abi _ (by decide) ?_
  exact (ChangesOnly.refl m).mono (by simp)

theorem clearHeader_bits (header : UIntPtr) :
    heapBits abi (clearHeader abi m header) header = heapBits abi m header &&&
      ~~~(HeapBit.present.mask ||| HeapBit.wr.mask ||| HeapBit.user.mask) := by
  have hmask : ∀ byte : UInt8, byte &&& ~~~HeapBit.present.mask &&& ~~~HeapBit.wr.mask &&&
      ~~~HeapBit.user.mask =
        byte &&& ~~~(HeapBit.present.mask ||| HeapBit.wr.mask ||| HeapBit.user.mask) := by
    intro byte
    rw [UInt8.and_assoc, UInt8.and_assoc]
    rfl
  rw [← hmask]
  simp [clearHeader, heapBits, setMagic, setCRC32, setHeapPtr, setHeapSize, setBit]

variable {abi m p}

/-- The page manager finds its words as they were, and stores one of them. -/
theorem freed_eq (h : IntactBlock abi m p) :
    mmFreeBitmap (clearHeader abi m (headerOf abi p)) (bitMapOf abi p) =
      (true, setWord (clearHeader abi m (headerOf abi p)) (bitMapOf abi p) kBitMapUsedIdx 0) := by
  obtain ⟨hnull, hheaded⟩ := isBitMap_iff.mp h.bitMap
  have hmagic : wordAt (clearHeader abi m (headerOf abi p)) (bitMapOf abi p) kBitMapMagIdx =
      kBitMapMagic := by
    refine Eq.trans ?_ hheaded
    apply (clearHeader_only abi m (headerOf abi p)).get Layout.u64
    intro e he
    obtain ⟨f, -, rfl⟩ := List.mem_map.mp he
    exact word_apart abi p h.room (by decide) f
  have hfree : isBitMap (clearHeader abi m (headerOf abi p)) (bitMapOf abi p) = true :=
    isBitMap_iff.mpr ⟨hnull, hmagic⟩
  have hsame : setWord (clearHeader abi m (headerOf abi p)) (bitMapOf abi p) kBitMapMagIdx
      kBitMapMagic = clearHeader abi m (headerOf abi p) := by
    rw [← hmagic]
    exact put_get Layout.u64 _ _
  rw [mmFreeBitmap, if_neg hnull, freeBitMap, hfree, hsame]
  rfl

def deletedMemory (abi : BitFieldRules) (m : Store) (p : UIntPtr) : Store :=
  setWord (clearHeader abi m (headerOf abi p)) (bitMapOf abi p) kBitMapUsedIdx 0

theorem pointer_ne (hroom : 2 * (sizeofHeapInformationBlock abi).toNat ≤ p.toNat) :
    p ≠ 0 ∧ headerOf abi p ≠ 0 := by
  have hsize := sizeof_cases abi
  constructor
  · intro hp
    rw [hp, UInt64.toNat_zero] at hroom
    omega
  · intro hheader
    have hp : p = sizeofHeapInformationBlock abi := by simpa [headerOf, sub_eq_zero] using hheader
    rw [hp] at hroom
    omega

theorem IntactBlock.check (h : IntactBlock abi m p) : mmCheckHeapAddress p = true := by
  simpa [mmCheckHeapAddress] using (pointer_ne h.room).1

theorem mmDeleteHeap_eq (h : IntactBlock abi m p) :
    mmDeleteHeap abi m p = .done (.returned kErrorSuccess (deletedMemory abi m p)) := by
  have hcrc : crcFails abi m (headerOf abi p) = .done false := by
    rw [crcFails, if_pos h.crc]
    rfl
  have hfreed := freed_eq h
  have hmagic := h.magic
  have hpresent := h.present
  have hne := (pointer_ne h.room).2
  rw [headerOf] at hcrc hfreed hmagic hpresent hne
  rw [bitMapOf, headerOf] at hfreed
  rw [mmDeleteHeap, if_neg (by simp [h.check])]
  simp only [if_pos (And.intro hne hmagic), hpresent, hcrc, hfreed, done_bind, pure_eq_done]
  rfl

theorem field_deleted (h : IntactBlock abi m p) (f : HeapField) :
    field abi (deletedMemory abi m p) (headerOf abi p) f =
      field abi (clearHeader abi m (headerOf abi p)) (headerOf abi p) f := by
  apply (ChangesOnly.put Layout.u64 _ _ 0).read
  intro e he
  rw [List.mem_singleton.mp he]
  exact (word_apart abi p h.room (by decide) f).symm

theorem heapDeleted (h : IntactBlock abi m p) :
    HeapDeleted abi m p (deletedMemory abi m p) := by
  constructor
  · rw [fMagic, field_deleted h]
    simp [clearHeader, setMagic]
  · rw [heapBits, field_deleted h]
    exact clearHeader_bits abi m (headerOf abi p)
  · rw [fCRC32, field_deleted h]
    simp [clearHeader, setMagic, setBit, setCRC32]
  · rw [fHeapSize, field_deleted h]
    simp [clearHeader, setMagic, setBit, setCRC32, setHeapPtr, setHeapSize]
  · rw [fHeapPtr, field_deleted h]
    simp [clearHeader, setMagic, setBit, setCRC32, setHeapPtr]
  · exact wordAt_setWord_same _ _ _ _
  · have hword := ChangesOnly.put Layout.u64 (clearHeader abi m (headerOf abi p))
      (bitMapOf abi p + 8 * kBitMapUsedIdx).toNat 0
    apply ((clearHeader_only abi m (headerOf abi p)).trans hword).mono
    intro e he
    obtain hfield | hused := List.mem_append.mp he
    · exact ⟨e, List.mem_cons_of_mem _ hfield, fun _ hx => hx⟩
    · exact ⟨e, List.mem_singleton.mp hused ▸ List.mem_cons_self, fun _ hx => hx⟩

theorem mmDeleteHeap_again (h : IntactBlock abi m p) :
    mmDeleteHeap abi (deletedMemory abi m p) p =
      .done (.returned kErrorInternal (deletedMemory abi m p)) := by
  have hmagic := (heapDeleted h).magic
  rw [headerOf] at hmagic
  rw [mmDeleteHeap, if_neg (by simp [h.check])]
  simp only [hmagic]
  rw [if_neg]
  · rfl
  · intro hboth
    exact absurd (congrFun hboth.2 0) (by decide)

/-- An allocation leaves the words of the page manager as they were. -/
theorem wordAt_initHeader (hroom : 2 * (sizeofHeapInformationBlock abi).toNat ≤ p.toNat)
    {idx : UInt64} (hidx : idx ≤ 2) (szFix : UInt64) (wr user : Bool) :
    wordAt (initHeader abi m (headerOf abi p) szFix wr user) (bitMapOf abi p) idx =
      wordAt m (bitMapOf abi p) idx := by
  apply (initHeader_only abi m (headerOf abi p) szFix wr user).get Layout.u64
  intro e he
  obtain hfield | hpadding := List.mem_append.mp he
  · obtain ⟨f, -, rfl⟩ := List.mem_map.mp hfield
    exact word_apart abi p hroom hidx f
  · exact word_apart_padding abi p hroom hidx e hpadding

theorem mmNewHeap_intact {request : PageRequest} {m₀ m' m'' : Store} {granted : UIntPtr}
    {sz : UInt64} {wr user : Bool} (hpos : sz ≠ 0)
    (hgrant : request wr user false (sz + sizeofHeapInformationBlock abi) m₀ =
      .done (granted, m')) (hbitMap : isBitMap m' granted = true)
    (hroom : granted.toNat + 2 * (sizeofHeapInformationBlock abi).toNat < 2 ^ 64)
    (hnew : mmNewHeap abi request m₀ sz wr user = .done (p, m'')) : IntactBlock abi m'' p := by
  rw [mmNewHeap_eq hpos hgrant, done.injEq, Prod.mk.injEq] at hnew
  obtain ⟨rfl, rfl⟩ := hnew
  have hheader := headerOf_payload abi granted
  have hbase : bitMapOf abi (granted + sizeofHeapInformationBlock abi +
      sizeofHeapInformationBlock abi) = granted := by
    simp [bitMapOf, hheader]
  have hp : 2 * (sizeofHeapInformationBlock abi).toNat ≤ (granted +
      sizeofHeapInformationBlock abi + sizeofHeapInformationBlock abi).toNat := by
    simp only [UInt64.toNat_add]
    omega
  constructor
  · exact hp
  · rw [hheader, fMagic_initHeader]
  · rw [hheader, fPresent_initHeader]
  · rw [hheader, fCRC32_initHeader]
  · have hmagic : _ = wordAt m' _ kBitMapMagIdx := wordAt_initHeader hp (by decide)
      (sz + sizeofHeapInformationBlock abi) wr user
    rw [hheader, hbase] at hmagic
    rw [hbase]
    rw [isBitMap_iff] at hbitMap ⊢
    exact ⟨hbitMap.1, hmagic.trans hbitMap.2⟩

/-- The page manager returns null when it has no block; behind any other grant a block is intact. -/
theorem mmNewHeap_intact_pool {pool : Pool} {fuel : Nat} {m₀ m'' : Store} {sz : UInt64}
    {wr user : Bool} (hpos : sz ≠ 0)
    (hgranted : 2 * (sizeofHeapInformationBlock abi).toNat < p.toNat)
    (hnew : mmNewHeap abi (pageMgrRequest pool fuel) m₀ sz wr user = .done (p, m'')) :
    IntactBlock abi m'' p := by
  obtain ⟨granted, m', hrequest, hp, -⟩ := mmNewHeap_done hpos hnew
  have hroom : granted.toNat + 2 * (sizeofHeapInformationBlock abi).toNat = p.toNat := by
    have hlt := granted.toNat_lt
    have hsize := sizeof_cases abi
    rw [hp, UInt64.toNat_add, UInt64.toNat_add] at hgranted ⊢
    omega
  have hlt := p.toNat_lt
  have hsize := sizeof_cases abi
  obtain ⟨reply, halloc, hreply⟩ := bind_eq_done.mp hrequest
  cases hreply
  refine mmNewHeap_intact hpos hrequest (mmAllocBitmap_isBitMap halloc ?_ ?_) (by omega) hnew
  · intro hnull
    rw [hnull] at hroom
    simp at hroom
    omega
  · omega

theorem mmDeleteHeap_exact (h : IntactBlock abi m p) :
    ∃ m', mmDeleteHeap abi m p = .done (.returned kErrorSuccess m') ∧
      HeapDeleted abi m p m' ∧
      mmDeleteHeap abi m' p = .done (.returned kErrorInternal m') :=
  ⟨deletedMemory abi m p, mmDeleteHeap_eq h, heapDeleted h, mmDeleteHeap_again h⟩

end Delete

/-- A memory with the words of a grant of 64 bytes at 0x1000. -/
def grantedMemory : Store := newBitMap (fun _ => 0) 0x1000 64

theorem isBitMap_grantedMemory : isBitMap grantedMemory 0x1000 = true :=
  isBitMap_iff.mpr ⟨by decide, headed_newBitMap (fun _ => 0) (by decide)⟩

/-- The memory after `mm_new_heap(16, true, false)` on that grant. -/
def blockMemory : Store := initHeader .shared grantedMemory 0x1030 64 true false

theorem blockMemory_intact : IntactBlock .shared blockMemory 0x1060 := by
  have hnew : mmNewHeap .shared (grantAt 0x1000) grantedMemory 16 true false = _ :=
    mmNewHeap_eq (by decide) rfl
  have hheader : (0x1000 : UInt64) + sizeofHeapInformationBlock .shared = 0x1030 := by decide
  have hp : (0x1030 : UInt64) + sizeofHeapInformationBlock .shared = 0x1060 := by decide
  have hsize : (16 : UInt64) + sizeofHeapInformationBlock .shared = 64 := by decide
  rw [hheader, hp, hsize, ← blockMemory] at hnew
  exact mmNewHeap_intact (by decide) rfl isBitMap_grantedMemory (by decide) hnew

theorem mmDeleteHeap_exact_block :
    ∃ m', mmDeleteHeap .shared blockMemory 0x1060 = .done (.returned kErrorSuccess m') ∧
      HeapDeleted .shared blockMemory 0x1060 m' ∧
      mmDeleteHeap .shared m' 0x1060 = .done (.returned kErrorInternal m') :=
  mmDeleteHeap_exact blockMemory_intact

end Zka.KernelKit
