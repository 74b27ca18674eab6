import Zka.HALKit.BitMap

/-!
# Page tables

`mm_map_page` of the AMD64 kernel on a byte-addressed physical memory, beside the
four-level walk of the hardware.  The kernel computes the addresses of the upper
levels without reading any of them, and remembers one page.
-/

namespace Zka.HALKit

def kMMFlagsNX : UInt32 := 8

/-- `cPmlIndexMask`, the nine bits of an index. -/
def cPmlIndexMask : UInt64 := 0x1FF

def cPtIndexMask : UInt64 := 0xFFF

def cPmlEntrySize : UInt64 := 8

/-! ## Page table entries -/

/-- The bits of `ZKA_PTE` that the kernel writes. -/
inductive PteBit where
  | present
  | wr
  | user
  | execDisable
  deriving DecidableEq, Repr

def PteBit.mask : PteBit → UInt64
  | present => 1
  | wr => 2
  | user => 4
  | execDisable => 0x8000000000000000

def setPteBit (pte : UInt64) (bit : PteBit) (value : Bool) : UInt64 :=
  if value then pte ||| bit.mask else pte &&& ~~~bit.mask

/-- A flag sets its bit; flags without it, other than none at all, clear the bit. -/
def setPteFlag (flags flag : UInt32) (bit : PteBit) (pte : UInt64) : UInt64 :=
  if flags &&& flag ≠ 0 then setPteBit pte bit true
  else if flags &&& ~~~flag ≠ 0 then setPteBit pte bit false
  else pte

/-- The entry with the flags that `mmi_map_page_table_entry` puts on it. -/
def mapEntry (flags : UInt32) (pte : UInt64) : UInt64 :=
  let pte := setPteBit pte .present true
  let pte := setPteFlag flags kMMFlagsWr .wr pte
  let pte := setPteFlag flags kMMFlagsNX .execDisable pte
  setPteFlag flags kMMFlagsUser .user pte

/-! ## `mm_map_page` -/

/-- `ZKA_PAGE_STORE`: the page that was mapped last. -/
structure PageStore where
  fPde : VoidPtr
  fPte : VoidPtr
  fVAddr : VoidPtr
  fStoreOp : Bool
  deriving DecidableEq, Repr

def PageStore.empty : PageStore := ⟨0, 0, 0, false⟩

structure PagingState where
  memory : Store
  cr3 : UInt64
  pageStore : PageStore

/-- The status, the entry whose address went to `hal_invl_tlb`, and the state. -/
structure MapReply where
  status : Int32
  invalidated : Option VoidPtr
  state : PagingState

def mmiMapPageTableEntry (s : PagingState) (virtualAddress : VoidPtr) (flags : UInt32)
    (ptEntry pdEntry : VoidPtr) : MapReply :=
  if ptEntry = 0 then ⟨1, none, s⟩
  else
    let memory := setWord s.memory ptEntry 0 (mapEntry flags (wordAt s.memory ptEntry 0))
    ⟨0, some ptEntry, { s with memory := memory, pageStore := ⟨pdEntry, ptEntry, virtualAddress, false⟩ }⟩

/-- The table that the entry is taken from.  Each level begins where its entry in the level above
stands, and that is the page CR3 points to. -/
def ptBase (cr3 : UInt64) (virtualAddress : VoidPtr) : UInt64 :=
  let pml4Index := (virtualAddress >>> 39) &&& cPmlIndexMask
  let pdptIndex := (virtualAddress >>> 30) &&& cPmlIndexMask
  let pdIndex := (virtualAddress >>> 21) &&& cPmlIndexMask
  let pml4Base := cr3 &&& ~~~cPtIndexMask
  let pml4Entry := pml4Base + pml4Index * cPmlEntrySize
  let pdptBase := pml4Entry &&& ~~~cPtIndexMask
  let pdptEntry := pdptBase + pdptIndex * cPmlEntrySize
  let pdBase := pdptEntry &&& ~~~cPtIndexMask
  let pdEntry := pdBase + pdIndex * cPmlEntrySize
  pdEntry &&& ~~~cPtIndexMask

/-- The address of `fEntries[pt_entry]`: the index is itself an address. -/
def entrySlot (cr3 : UInt64) (virtualAddress : VoidPtr) : UInt64 :=
  let ptIndex := (virtualAddress >>> 12) &&& cPmlIndexMask
  let ptEntry := ptBase cr3 virtualAddress + ptIndex * cPmlEntrySize
  ptBase cr3 virtualAddress + 8 * ptEntry

def mmMapPage (s : PagingState) (virtualAddress : VoidPtr) (flags : UInt32) : MapReply :=
  if virtualAddress = 0 ∨ flags = 0 then ⟨0, none, s⟩
  else
    let s := { s with pageStore := { s.pageStore with fStoreOp := true } }
    if s.pageStore.fVAddr = virtualAddress then
      let s := { s with pageStore := { s.pageStore with fStoreOp := false } }
      mmiMapPageTableEntry s s.pageStore.fVAddr flags s.pageStore.fPte s.pageStore.fPde
    else
      let pdeStruct := ptBase s.cr3 virtualAddress
      mmiMapPageTableEntry s virtualAddress flags
        (wordAt s.memory (entrySlot s.cr3 virtualAddress) 0) pdeStruct

theorem toNat_pageBase (x : UInt64) : (x &&& ~~~cPtIndexMask).toNat = x.toNat / 4096 * 4096 := by
  have hmask : ∀ i : Fin 64, (18446744073709547520#64)[i.val] = !decide (i.val < 12) := by decide
  have hshift : x &&& ~~~cPtIndexMask = (x >>> 12) <<< 12 := by
    apply UInt64.toBitVec_inj.mp
    ext i hi
    have hbit := hmask ⟨i, hi⟩
    simp only [cPtIndexMask, UInt64.toBitVec_and, BitVec.getElem_and, UInt64.toBitVec_shiftLeft,
      UInt64.toBitVec_shiftRight]
    simp at hbit ⊢
    rw [hbit]
    by_cases hlow : i < 12
    · simp [hlow]
    · simp [hlow, show 12 + (i - 12) = i by omega, BitVec.getLsbD_eq_getElem hi]
  have hx := x.toNat_lt
  rw [hshift]
  simp
  omega

theorem toNat_index (x : UInt64) : (x &&& cPmlIndexMask).toNat = x.toNat % 512 := by
  rw [UInt64.toNat_and]
  exact Nat.and_two_pow_sub_one_eq_mod x.toNat 9

theorem pageBase_entry (x i : UInt64) :
    ((x &&& ~~~cPtIndexMask) + (i &&& cPmlIndexMask) * cPmlEntrySize) &&& ~~~cPtIndexMask =
      x &&& ~~~cPtIndexMask := by
  apply UInt64.toNat_inj.mp
  rw [toNat_pageBase, UInt64.toNat_add, UInt64.toNat_mul, toNat_pageBase, toNat_index]
  have hx := x.toNat_lt
  have hsize : cPmlEntrySize.toNat = 8 := rfl
  rw [hsize]
  omega

/-- The upper three indices do not matter. -/
theorem ptBase_eq (cr3 : UInt64) (virtualAddress : VoidPtr) :
    ptBase cr3 virtualAddress = cr3 &&& ~~~cPtIndexMask := by
  simp only [ptBase, pageBase_entry]

/-! ## What the flags do to an entry -/

def hasPteBit (pte : UInt64) (bit : PteBit) : Prop := pte &&& bit.mask ≠ 0

/-- The bits that `mm_map_page` leaves alone. -/
def otherPteBits (pte : UInt64) : UInt64 := pte &&& 0x7FFFFFFFFFFFFFF8

/-- The entry `new` is `old` with the requested flags. -/
structure MatchesFlags (flags : UInt32) (old new : UInt64) : Prop where
  present : hasPteBit new .present
  wr : hasPteBit new .wr ↔ flags &&& kMMFlagsWr ≠ 0
  user : hasPteBit new .user ↔ flags &&& kMMFlagsUser ≠ 0
  execDisable : hasPteBit new .execDisable ↔ flags &&& kMMFlagsNX ≠ 0
  others : otherPteBits new = otherPteBits old

section Bits

variable {pte : UInt64} {bit bit' : PteBit} {flags flag : UInt32}

private theorem or_and_distrib (p m n : UInt64) : (p ||| m) &&& n = (p &&& n) ||| (m &&& n) := by
  apply UInt64.toBitVec_inj.mp
  ext i hi
  simp [Bool.and_or_distrib_right]

theorem hasPteBit_setPteBit (pte : UInt64) (bit : PteBit) (value : Bool) :
    hasPteBit (setPteBit pte bit value) bit ↔ value = true := by
  cases value with
  | true =>
    have hmask : bit.mask ≠ 0 := by cases bit <;> decide
    simp [hasPteBit, setPteBit, or_and_distrib, hmask]
  | false => simp [hasPteBit, setPteBit, UInt64.and_assoc]

private theorem setPteBit_and {n : UInt64} (value : Bool) (h : bit.mask &&& n = 0)
    (h' : ~~~bit.mask &&& n = n) : setPteBit pte bit value &&& n = pte &&& n := by
  cases value with
  | true => simp [setPteBit, or_and_distrib, h]
  | false => simp [setPteBit, UInt64.and_assoc, h']

theorem hasPteBit_setPteBit_ne (value : Bool) (h : bit ≠ bit') :
    hasPteBit (setPteBit pte bit value) bit' ↔ hasPteBit pte bit' := by
  rw [hasPteBit, setPteBit_and, hasPteBit]
  · revert h
    cases bit <;> cases bit' <;> decide
  · revert h
    cases bit <;> cases bit' <;> decide

theorem otherPteBits_setPteBit (value : Bool) :
    otherPteBits (setPteBit pte bit value) = otherPteBits pte := by
  apply setPteBit_and
  · cases bit <;> decide
  · cases bit <;> decide

/-- Any flags at all decide the bit of each flag. -/
theorem setPteFlag_eq (hflags : flags ≠ 0) :
    setPteFlag flags flag bit pte = setPteBit pte bit (decide (flags &&& flag ≠ 0)) := by
  rw [setPteFlag]
  by_cases hflag : flags &&& flag = 0
  · have hrest : flags &&& ~~~flag ≠ 0 := by
      intro hnone
      apply hflags
      apply UInt32.toBitVec_inj.mp
      ext i hi
      have hset := congrArg (fun x : UInt32 => x.toBitVec[i]) hflag
      have hclear := congrArg (fun x : UInt32 => x.toBitVec[i]) hnone
      simp at hset hclear ⊢
      grind
    simp [hflag, hrest]
  · simp [hflag]

theorem mapEntry_matches (hflags : flags ≠ 0) : MatchesFlags flags pte (mapEntry flags pte) := by
  simp only [mapEntry, setPteFlag_eq hflags]
  constructor
  · simp [hasPteBit_setPteBit, hasPteBit_setPteBit_ne]
  · simp [hasPteBit_setPteBit, hasPteBit_setPteBit_ne]
  · simp [hasPteBit_setPteBit]
  · simp [hasPteBit_setPteBit, hasPteBit_setPteBit_ne]
  · simp only [otherPteBits_setPteBit]

end Bits

end Zka.HALKit
