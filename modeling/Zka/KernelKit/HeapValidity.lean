import Zka.Framework.Run
import Zka.KernelKit.HeapBlocks

/-!
# Valid pointers

`mm_is_valid_heap` over runs of allocations, deletions and writes of clients.  It
looks for the magic word of the page manager at the pointer itself, where the
payload begins, and an allocation has just cleared that.
-/

namespace Zka.KernelKit

open Outcome HALKit NewKit Store

def mmIsBitmap (m : Store) (ptr : UIntPtr) : Bool := isBitMap m ptr

def mmIsValidHeap (abi : BitFieldRules) (m : Store) (heapPtr : UIntPtr) : Bool :=
  if heapPtr ≠ 0 ∧ mmIsBitmap m heapPtr = true then
    let header := heapPtr - sizeofHeapInformationBlock abi
    header ≠ 0 ∧ fBit abi m header .present = true ∧ fMagic abi m header = kKernelHeapMagic
  else false

/-! ## The cleared payload -/

/-- A cleared byte stays so when more words are cleared. -/
theorem setWords_zero (m : Store) (start : UInt64) {i n : Nat} (hi : i < n) :
    setWords m start 0 n (start + 4 * UInt64.ofNat i).toNat = 0 := by
  have hzero : Layout.u32 0 = fun _ => 0 := Layout.digits_zero 4
  induction n with
  | zero => exact absurd hi (Nat.not_lt_zero i)
  | succ n ih =>
    rw [setWords, put, hzero, write]
    split
    · rfl
    · rename_i hout
      refine ih (Nat.lt_of_le_of_ne (Nat.le_of_lt_succ hi) fun h => hout ?_)
      rw [h]
      omega

/-- The words over the padding run into the payload. -/
theorem initHeader_cleared (abi : BitFieldRules) (m : Store) {header : UIntPtr}
    (hne : header + HeapField.fPadding.offset abi ≠ 0) (szFix : UInt64) (wr user : Bool) :
    initHeader abi m header szFix wr user (header + sizeofHeapInformationBlock abi).toNat = 0 := by
  have hplace : header + sizeofHeapInformationBlock abi =
      header + HeapField.fPadding.offset abi + 4 * UInt64.ofNat 4 := by
    rw [UInt64.add_assoc]
    rfl
  have hlen : ¬ (kKernelHeapAlignSz < 1) := by decide
  rw [initHeader, rtSetMemory, if_neg (not_or.mpr ⟨hne, hlen⟩), hplace]
  exact setWords_zero _ _ (by decide)

theorem not_isBitMap_of_zero {m : Store} {p : UIntPtr} (h : m p.toNat = 0) :
    isBitMap m p = false := by
  have hbyte : Layout.u64 kBitMapMagic 0 = 0x10 := by decide +kernel
  rw [Bool.eq_false_iff, ne_eq, isBitMap_iff]
  intro hmap
  have hread := (Equiv.symm_apply_eq _).mp hmap.2
  have hfirst : m (p + 8 * kBitMapMagIdx).toNat = 0x10 := (congrFun hread 0).trans hbyte
  have hplace : p + 8 * kBitMapMagIdx = p := by simp [kBitMapMagIdx]
  rw [hplace, h] at hfirst
  cases hfirst

/-- A new block is not valid. -/
theorem mmNewHeap_invalid {abi : BitFieldRules} {request : PageRequest} {m m' : Store}
    {sz : UInt64} {wr user : Bool} {p : UIntPtr} (hpos : sz ≠ 0)
    (hroom : 2 * (sizeofHeapInformationBlock abi).toNat ≤ p.toNat)
    (hnew : mmNewHeap abi request m sz wr user = .done (p, m')) : mmIsValidHeap abi m' p = false := by
  obtain ⟨granted, m₁, -, rfl, rfl⟩ := mmNewHeap_done hpos hnew
  have hne : granted + sizeofHeapInformationBlock abi + HeapField.fPadding.offset abi ≠ 0 := by
    intro hzero
    have hp : granted + sizeofHeapInformationBlock abi + sizeofHeapInformationBlock abi =
        kKernelHeapAlignSz := by
      rw [sizeofHeapInformationBlock, ← UInt64.add_assoc, ← sizeofHeapInformationBlock, hzero,
        UInt64.zero_add]
    rw [hp] at hroom
    have hsize := sizeof_cases abi
    have halign : kKernelHeapAlignSz.toNat = 16 := rfl
    omega
  rw [mmIsValidHeap, mmIsBitmap, not_isBitMap_of_zero (initHeader_cleared abi _ hne _ _ _)]
  simp

/-- For an allocated block the answer is what its client stored in the first word. -/
theorem mmIsValidHeap_intact {abi : BitFieldRules} {m : Store} {p : UIntPtr}
    (h : IntactBlock abi m p) : mmIsValidHeap abi m p = true ↔ Headed m p := by
  have hne := pointer_ne h.room
  have hpresent := h.present
  have hmagic := h.magic
  rw [headerOf] at hne hpresent hmagic
  by_cases hheaded : Headed m p
  · have hmap : mmIsBitmap m p = true := isBitMap_iff.mpr ⟨hne.1, hheaded⟩
    simp [mmIsValidHeap, hne, hmap, hpresent, hmagic, hheaded]
  · have hmap : mmIsBitmap m p ≠ true := fun h => hheaded (isBitMap_iff.mp h).2
    simp [mmIsValidHeap, hmap, hheaded]

/-! ## Runs -/

inductive HeapOp where
  | new (sz : UInt64) (wr user : Bool)
  | delete (heapPtr : UIntPtr)
  | write (address : Nat) (value : UInt8)

/-- The memory, the pointers that were returned and the blocks that were not deleted since. -/
structure HeapState where
  memory : Store
  returned : List UIntPtr
  live : List (UIntPtr × UInt64)

namespace HeapState

/-- Nothing is allocated for a size of zero. -/
def allocated (s : HeapState) (sz : UInt64) (p : UIntPtr) (m : Store) : HeapState where
  memory := m
  returned := if sz = 0 then s.returned else p :: s.returned
  live := if sz = 0 then s.live else (p, sz) :: s.live

def deleted (s : HeapState) (p : UIntPtr) (code : Int32) (m : Store) : HeapState where
  memory := m
  returned := s.returned
  live := if code = kErrorSuccess then s.live.filter (·.1 ≠ p) else s.live

/-- `mm_is_valid_heap` tells the pointers that are allocated from those that are not any more. -/
def PointersValid (abi : BitFieldRules) (s : HeapState) : Prop :=
  ∀ p ∈ s.returned, mmIsValidHeap abi s.memory p = true ↔ ∃ sz, (p, sz) ∈ s.live

end HeapState

/-- Clients write to the payloads of the blocks they have. -/
inductive HeapStep (abi : BitFieldRules) (pool : Pool) : HeapState → HeapOp → HeapState → Prop
  | new {s : HeapState} {sz : UInt64} {wr user : Bool} {p : UIntPtr} {m : Store}
      (h : Yields (fun fuel => mmNewHeap abi (pageMgrRequest pool fuel) s.memory sz wr user) (p, m)) :
      HeapStep abi pool s (.new sz wr user) (s.allocated sz p m)
  | delete {s : HeapState} {p : UIntPtr} {code : Int32} {m : Store}
      (h : mmDeleteHeap abi s.memory p = .done (.returned code m)) :
      HeapStep abi pool s (.delete p) (s.deleted p code m)
  | write {s : HeapState} {address : Nat} (value : UInt8)
      (h : ∃ b ∈ s.live, address ∈ Extent.addresses ⟨b.1.toNat, b.2.toNat⟩) :
      HeapStep abi pool s (.write address value)
        { s with memory := Function.update s.memory address value }

/-- Nothing is allocated. -/
def HeapOp.Fits : HeapOp → Prop
  | new sz _ _ => sz = 0
  | delete _ => True
  | write _ _ => True

section Runs

variable {abi : BitFieldRules} {pool : Pool} {s t : HeapState}

/-- From whatever state, the pointer of a new block is not valid. -/
theorem allocation_invalid {sz : UInt64} {wr user : Bool} (hpos : sz ≠ 0)
    (hroom : ∀ p ∈ t.returned, 2 * (sizeofHeapInformationBlock abi).toNat ≤ p.toNat)
    (h : HeapStep abi pool s (.new sz wr user) t) : ¬ t.PointersValid abi := by
  cases h with
  | @new _ _ _ p m h =>
    obtain ⟨fuel, hnew⟩ := h
    intro hvalid
    have hmem : p ∈ (s.allocated sz p m).returned := by simp [HeapState.allocated, hpos]
    have hlive : ∃ sz', (p, sz') ∈ (s.allocated sz p m).live :=
      ⟨sz, by simp [HeapState.allocated, hpos]⟩
    have htrue := (hvalid p hmem).mpr hlive
    rw [HeapState.allocated, mmNewHeap_invalid hpos (hroom p hmem) hnew] at htrue
    cases htrue

/-- The other steps return no pointer. -/
theorem returned_of_fits {op : HeapOp} (hfit : op.Fits) (h : HeapStep abi pool s op t) :
    t.returned = s.returned := by
  cases h with
  | new h => exact if_pos hfit
  | delete h => rfl
  | write value h => rfl

/-- The pointers are told apart in every run that allocates nothing, and the first allocation ends
this. -/
theorem pointersValid_run {m : Store}
    (hr : Reaches (HeapStep abi pool) (fun _ op => op.Fits) ⟨m, [], []⟩ s) :
    s.PointersValid abi ∧ ∀ op t, HeapStep abi pool s op t →
      (∀ p ∈ t.returned, 2 * (sizeofHeapInformationBlock abi).toNat ≤ p.toNat) →
      (t.PointersValid abi ↔ op.Fits) := by
  have hnone : s.returned = [] := by
    refine hr.invariant (fun x => x.returned = []) rfl ?_
    intro x op y hx hfit hs
    rw [returned_of_fits hfit hs, hx]
  have hvalid : ∀ t : HeapState, t.returned = [] → t.PointersValid abi := by
    intro t ht p hp
    rw [ht] at hp
    exact absurd hp List.not_mem_nil
  refine ⟨hvalid s hnone, fun op t hs hroom => ⟨fun ht => ?_, fun hfit => ?_⟩⟩
  · cases op with
    | new sz wr user =>
      by_contra hpos
      exact allocation_invalid hpos hroom hs ht
    | delete p => exact True.intro
    | write address value => exact True.intro
  · exact hvalid t (by rw [returned_of_fits hfit hs, hnone])

theorem pointersValid_zero_size :
    (HeapState.mk (fun _ => 0) [] []).PointersValid .shared := by
  have hnew : HeapStep .shared samplePool ⟨fun _ => 0, [], []⟩ (.new 0 true false)
      ⟨fun _ => 0, [], []⟩ := .new ⟨0, rfl⟩
  have hfit : (HeapOp.new 0 true false).Fits := rfl
  exact (pointersValid_run (.one hfit hnew)).1

/-- The first allocation of 16 bytes from a zeroed pool. -/
theorem pointersValid_allocation : ∃ s,
    Reaches (HeapStep .shared samplePool) (fun _ _ => True) ⟨fun _ => 0, [], []⟩ s ∧
      ¬ s.PointersValid .shared := by
  have hunheaded : ¬ Headed (fun _ => 0) samplePool.tested := by
    rw [Headed, wordAt_zero]
    decide
  obtain ⟨fuel, halloc⟩ := yields_mmAllocBitmap samplePool (fun _ => 0) 64 true false false
    fun h => absurd h hunheaded
  rw [Pool.reply, if_neg (by decide), if_neg (fun h => hunheaded h.1), if_pos hunheaded] at halloc
  have hrequest : pageMgrRequest samplePool fuel true false false 64 (fun _ => 0) =
      .done (samplePool.start, newBitMap (fun _ => 0) samplePool.start 64) := by
    have halloc : mmAllocBitmap samplePool fuel (fun _ => 0) true false 64 false = _ := halloc
    rw [pageMgrRequest, halloc]
    rfl
  have hsize : (16 : UInt64) + sizeofHeapInformationBlock .shared = 64 := by decide
  rw [← hsize] at hrequest
  have hnew : mmNewHeap .shared (pageMgrRequest samplePool fuel) (fun _ => 0) 16 true false = _ :=
    mmNewHeap_eq (by decide) hrequest
  have hstep : HeapStep .shared samplePool ⟨fun _ => 0, [], []⟩ (.new 16 true false) _ :=
    .new ⟨fuel, hnew⟩
  refine ⟨_, .one trivial hstep, allocation_invalid (by decide) ?_ hstep⟩
  intro p hp
  rw [HeapState.allocated, if_neg (by decide), List.mem_singleton] at hp
  rw [hp]
  decide

end Runs

end Zka.KernelKit
