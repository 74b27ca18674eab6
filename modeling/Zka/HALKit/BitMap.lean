import Zka.Framework.Outcome
import Zka.Framework.Run
import Zka.Framework.Store

/-!
# The page allocator

`FindBitMap` and `FreeBitMap` on a byte-addressed memory.  The walk tests the
address one page behind the start of the pool, but a new header is written to the
start of the pool; blocks stand at these two addresses only.
-/

namespace Zka.HALKit

open Outcome

abbrev VoidPtr := UInt64

inductive Arch where
  | amd64
  | arm64
  deriving DecidableEq, Repr

def kPageSize : Arch → UInt64
  | .amd64 => 0x100
  | .arm64 => 0x1000

def kBitMapMagic : UInt64 := 0x10210

def kBitMapMagIdx : UInt64 := 0

def kBitMapSizeIdx : UInt64 := 1

def kBitMapUsedIdx : UInt64 := 2

def kMMFlagsPresent : UInt32 := 1

def kMMFlagsWr : UInt32 := 2

def kMMFlagsUser : UInt32 := 4

/-- `ptr[idx]` for a pointer to words. -/
def wordAt (m : Store) (ptr idx : UInt64) : UInt64 := m.get Layout.u64 (ptr + 8 * idx).toNat

def setWord (m : Store) (ptr idx value : UInt64) : Store :=
  m.put Layout.u64 (ptr + 8 * idx).toNat value

theorem wordAt_setWord_same (m : Store) (ptr idx value : UInt64) :
    wordAt (setWord m ptr idx value) ptr idx = value :=
  Store.get_put_same _ _ _ _

theorem wordAt_setWord_apart (m : Store) {ptr idx other idx' : UInt64} (value : UInt64)
    (h : (other + 8 * idx').toNat + 8 ≤ (ptr + 8 * idx).toNat ∨
      (ptr + 8 * idx).toNat + 8 ≤ (other + 8 * idx').toNat) :
    wordAt (setWord m ptr idx value) other idx' = wordAt m other idx' :=
  Store.get_put_apart _ _ _ _ h

theorem wordAt_zero (ptr idx : UInt64) : wordAt (fun _ => 0) ptr idx = 0 :=
  Store.get_of_zero _ Layout.u64_zero fun _ _ _ => rfl

/-! ## The allocator -/

def isBitMap (m : Store) (pagePtr : VoidPtr) : Bool :=
  if pagePtr = 0 then false
  else if wordAt m pagePtr kBitMapMagIdx = 0 ∨ wordAt m pagePtr kBitMapMagIdx ≠ kBitMapMagic then
    false
  else true

def freeBitMap (m : Store) (pagePtr : VoidPtr) : Bool × Store :=
  if isBitMap m pagePtr = false then (false, m)
  else
    let m := setWord m pagePtr kBitMapMagIdx kBitMapMagic
    (true, setWord m pagePtr kBitMapUsedIdx 0)

def makeMMFlags (wr user : Bool) : UInt32 :=
  let flags := kMMFlagsPresent
  let flags := if wr then flags ||| kMMFlagsWr else flags
  if user then flags ||| kMMFlagsUser else flags

/-- The returned pointer, the memory and the arguments of the call of `mm_map_page`. -/
structure BitMapReply where
  ptr : VoidPtr
  memory : Store
  mapped : Option (VoidPtr × UInt32)

def BitMapReply.null (m : Store) : BitMapReply := ⟨0, m, none⟩

/-- A free block is taken over with a new size. -/
def reuseBitMap (m : Store) (ptr size : UInt64) : Store :=
  setWord (setWord m ptr kBitMapSizeIdx size) ptr kBitMapUsedIdx 1

def newBitMap (m : Store) (ptr size : UInt64) : Store :=
  let m := setWord m ptr kBitMapMagIdx kBitMapMagic
  setWord (setWord m ptr kBitMapSizeIdx size) ptr kBitMapUsedIdx 1

/-- One pass of the loop of `FindBitMap`. -/
def findBody (m : Store) (basePtr size bitMapSize : UInt64) (flags : UInt32) (base : VoidPtr) :
    Outcome CFault (VoidPtr ⊕ BitMapReply) :=
  if ¬ (base ≠ 0 ∧ size ≠ 0) then .done (.inr (.null m))
  else
    let magic := wordAt m base kBitMapMagIdx
    let sizeWord := wordAt m base kBitMapSizeIdx
    let next :=
      let base := basePtr + if magic ≠ kBitMapMagic then size else sizeWord
      if basePtr < base + bitMapSize then .done (.inr (.null m)) else .done (.inl base)
    if magic = kBitMapMagic ∧ sizeWord ≤ size then
      if wordAt m base kBitMapUsedIdx = 0 then
        .done (.inr ⟨base, reuseBitMap m base size, some (base, flags)⟩)
      else next
    else if magic ≠ kBitMapMagic then
      -- here the name of the tested pointer is bound anew, to the start of the pool
      .done (.inr ⟨basePtr, newBitMap m basePtr size, some (basePtr, flags)⟩)
    else next

def findBitMap (arch : Arch) (fuel : Nat) (m : Store) (basePtr size bitMapSize : UInt64)
    (wr user : Bool) : Outcome CFault BitMapReply :=
  whileLoop (findBody m basePtr size bitMapSize (makeMMFlags wr user)) fuel
    (basePtr + kPageSize arch)

/-- The memory handed over by the boot loader: `kKernelBitMpStart` and `f_BitMapSize`. -/
structure Pool where
  arch : Arch
  start : VoidPtr
  size : UInt64
  start_ne : start ≠ 0
  fits : start.toNat + size.toNat ≤ 2 ^ 64

def mmAllocBitmap (pool : Pool) (fuel : Nat) (m : Store) (wr user : Bool) (size : UInt64)
    (_isPage : Bool) : Outcome CFault BitMapReply :=
  findBitMap pool.arch fuel m pool.start size pool.size wr user

def mmFreeBitmap (m : Store) (pagePtr : VoidPtr) : Bool × Store :=
  if pagePtr = 0 then (false, m) else freeBitMap m pagePtr

/-! ## What one allocation does -/

/-- The address that `FindBitMap` tests first. -/
def Pool.tested (pool : Pool) : VoidPtr := pool.start + kPageSize pool.arch

def Headed (m : Store) (base : VoidPtr) : Prop := wordAt m base kBitMapMagIdx = kBitMapMagic

/-- There is the header of a free block of at most `size` bytes at the address. -/
def Usable (m : Store) (base : VoidPtr) (size : UInt64) : Prop :=
  Headed m base ∧ wordAt m base kBitMapSizeIdx ≤ size ∧ wordAt m base kBitMapUsedIdx = 0

/-- The test for the end of the pool, made at the first address. -/
def Pool.PastEnd (pool : Pool) (m : Store) : Prop :=
  pool.start < pool.start + wordAt m pool.tested kBitMapSizeIdx + pool.size

instance (m : Store) (base : VoidPtr) : Decidable (Headed m base) :=
  inferInstanceAs (Decidable (_ = _))

instance (m : Store) (base : VoidPtr) (size : UInt64) : Decidable (Usable m base size) :=
  inferInstanceAs (Decidable (_ ∧ _))

/-- The outcome of a walk that ends at the first address. -/
def Pool.reply (pool : Pool) (m : Store) (wr user : Bool) (size : UInt64) : BitMapReply :=
  if pool.tested = 0 ∨ size = 0 then .null m
  else if Usable m pool.tested size then
    ⟨pool.tested, reuseBitMap m pool.tested size, some (pool.tested, makeMMFlags wr user)⟩
  else if ¬ Headed m pool.tested then
    ⟨pool.start, newBitMap m pool.start size, some (pool.start, makeMMFlags wr user)⟩
  else .null m

section Alloc

variable {pool : Pool} {m : Store} {size : UInt64}

theorem mmAllocBitmap_mono (pool : Pool) (m : Store) (wr user : Bool) (size : UInt64)
    (isPage : Bool) : Monotone fun fuel => mmAllocBitmap pool fuel m wr user size isPage :=
  whileLoop_mono _ _

theorem yields_mmAllocBitmap (pool : Pool) (m : Store) (size : UInt64) (wr user isPage : Bool)
    (hend : Headed m pool.tested → Usable m pool.tested size ∨ pool.PastEnd m) :
    Yields (fun fuel => mmAllocBitmap pool fuel m wr user size isPage)
      (pool.reply m wr user size) := by
  refine .intro 1 (whileLoop_exit ?_ 0)
  change findBody m pool.start size pool.size (makeMMFlags wr user) pool.tested = _
  rw [findBody, Pool.reply]
  have hguard : ¬ (pool.tested ≠ 0 ∧ size ≠ 0) ↔ pool.tested = 0 ∨ size = 0 := by
    rw [not_and_or, not_not, not_not]
  by_cases hnull : pool.tested = 0 ∨ size = 0
  · rw [if_pos (hguard.mpr hnull), if_pos hnull]
  rw [if_neg (hguard.not.mpr hnull), if_neg hnull]
  by_cases hm : Headed m pool.tested
  · by_cases hu : Usable m pool.tested size
    · rw [if_pos hu]
      dsimp only
      rw [if_pos ⟨hu.1, hu.2.1⟩, if_pos hu.2.2]
    · have hpast := (hend hm).resolve_left hu
      have hm' : wordAt m pool.tested kBitMapMagIdx = kBitMapMagic := hm
      rw [if_neg hu, if_neg (not_not.mpr hm)]
      dsimp only
      rw [if_neg (not_not.mpr hm'), if_neg (not_not.mpr hm'),
        if_pos (show pool.start < _ from hpast)]
      split
      · rename_i hsize
        rw [if_neg fun hfree => hu ⟨hm, hsize.2, hfree⟩]
      · rfl
  · have hu : ¬ Usable m pool.tested size := fun h => hm h.1
    have hm' : ¬ wordAt m pool.tested kBitMapMagIdx = kBitMapMagic := hm
    rw [if_neg hu, if_pos hm]
    dsimp only
    rw [if_neg (fun h => hm' h.1), if_pos hm']

theorem mmAllocBitmap_reply {wr user isPage : Bool} {r : BitMapReply}
    (hend : Headed m pool.tested → Usable m pool.tested size ∨ pool.PastEnd m)
    (h : Yields (fun fuel => mmAllocBitmap pool fuel m wr user size isPage) r) :
    r = pool.reply m wr user size :=
  h.unique (mmAllocBitmap_mono pool m wr user size isPage)
    (yields_mmAllocBitmap pool m size wr user isPage hend)

end Alloc

/-! ## The header of a granted block -/

section Granted

variable {ptr : VoidPtr} {size : UInt64}

theorem isBitMap_iff {m : Store} : isBitMap m ptr = true ↔ ptr ≠ 0 ∧ Headed m ptr := by
  rw [isBitMap, Headed]
  by_cases hnull : ptr = 0
  · simp [hnull]
  · by_cases hword : wordAt m ptr kBitMapMagIdx = kBitMapMagic
    · simp [hnull, hword, kBitMapMagic]
    · simp [hnull, hword]

theorem headed_reuseBitMap {m : Store} (hroom : ptr.toNat + 24 ≤ 2 ^ 64) (h : Headed m ptr) :
    Headed (reuseBitMap m ptr size) ptr := by
  have hapart : ∀ idx : UInt64, idx = kBitMapSizeIdx ∨ idx = kBitMapUsedIdx →
      (ptr + 8 * kBitMapMagIdx).toNat + 8 ≤ (ptr + 8 * idx).toNat := by
    intro idx hidx
    obtain rfl | rfl := hidx
    · simp [kBitMapMagIdx, kBitMapSizeIdx]
      omega
    · simp [kBitMapMagIdx, kBitMapUsedIdx]
      omega
  rw [Headed, reuseBitMap, wordAt_setWord_apart _ _ (.inl (hapart _ (.inr rfl))),
    wordAt_setWord_apart _ _ (.inl (hapart _ (.inl rfl)))]
  exact h

theorem headed_newBitMap (m : Store) (hroom : ptr.toNat + 24 ≤ 2 ^ 64) :
    Headed (newBitMap m ptr size) ptr :=
  headed_reuseBitMap hroom (wordAt_setWord_same m ptr kBitMapMagIdx kBitMapMagic)

/-- A pass that leaves the walk has given up, taken a free block over or made a new one. -/
theorem findBody_exit {m : Store} {basePtr size bitMapSize : UInt64} {flags : UInt32}
    {base : VoidPtr} {r : BitMapReply}
    (h : findBody m basePtr size bitMapSize flags base = .done (.inr r)) :
    r = .null m ∨
      (base ≠ 0 ∧ Headed m base ∧ r = ⟨base, reuseBitMap m base size, some (base, flags)⟩) ∨
      r = ⟨basePtr, newBitMap m basePtr size, some (basePtr, flags)⟩ := by
  dsimp only [findBody] at h
  split_ifs at h with hnull hfits
  all_goals cases h
  · exact .inr (.inl ⟨hnull.1, hfits.1, rfl⟩)
  · exact .inl rfl
  · exact .inl rfl
  · exact .inr (.inr rfl)
  · exact .inl rfl
  · exact .inl rfl

/-- Whatever the walk passes, what it grants has the header of the page manager. -/
theorem mmAllocBitmap_isBitMap {pool : Pool} {fuel : Nat} {m : Store} {wr user isPage : Bool}
    {r : BitMapReply} (h : mmAllocBitmap pool fuel m wr user size isPage = .done r)
    (hne : r.ptr ≠ 0) (hroom : r.ptr.toNat + 24 ≤ 2 ^ 64) : isBitMap r.memory r.ptr = true := by
  refine isBitMap_iff.mpr ⟨hne, ?_⟩
  revert hne hroom
  refine whileLoop_invariant (fun _ => True)
    (fun r => r.ptr ≠ 0 → r.ptr.toNat + 24 ≤ 2 ^ 64 → Headed r.memory r.ptr)
    (fun _ _ _ _ => trivial) ?_ trivial h
  intro base r _ hbody hne hroom
  obtain rfl | ⟨-, hheaded, rfl⟩ | rfl := findBody_exit hbody
  · exact absurd rfl hne
  · exact headed_reuseBitMap hroom hheaded
  · exact headed_newBitMap m hroom

/-- A refusal leaves the memory as it was. -/
theorem mmAllocBitmap_null {pool : Pool} {fuel : Nat} {m : Store} {wr user isPage : Bool}
    {r : BitMapReply} (h : mmAllocBitmap pool fuel m wr user size isPage = .done r)
    (hnull : r.ptr = 0) : r = .null m := by
  revert hnull
  refine whileLoop_invariant (fun _ => True) (fun r => r.ptr = 0 → r = .null m)
    (fun _ _ _ _ => trivial) ?_ trivial h
  intro base r _ hbody hnull
  obtain rfl | ⟨hne, -, rfl⟩ | rfl := findBody_exit hbody
  · rfl
  · exact absurd hnull hne
  · exact absurd hnull pool.start_ne

end Granted

/-! ## Runs -/

inductive BitMapOp where
  | alloc (wr user : Bool) (size : UInt64) (isPage : Bool)
  | free (pagePtr : VoidPtr)
  | write (address : Nat) (value : UInt8)

/-- The memory and the blocks that were allocated and not yet freed. -/
structure BitMapState where
  memory : Store
  held : List Extent

namespace BitMapState

def afterAlloc (s : BitMapState) (size : UInt64) (r : BitMapReply) : BitMapState where
  memory := r.memory
  held := if r.ptr = 0 then s.held else s.held ++ [⟨r.ptr.toNat, size.toNat⟩]

def afterFree (s : BitMapState) (pagePtr : VoidPtr) (r : Bool × Store) : BitMapState where
  memory := r.2
  held := if r.1 then s.held.filter (·.start ≠ pagePtr.toNat) else s.held

/-- The held blocks share no address and lie in the pool. -/
def Separated (pool : Pool) (s : BitMapState) : Prop :=
  s.held.Pairwise Extent.Apart ∧ ∀ e ∈ s.held, e.Inside ⟨pool.start.toNat, pool.size.toNat⟩

end BitMapState

/-- Clients write to the blocks they hold, past the three words of the header. -/
inductive BitMapStep (pool : Pool) : BitMapState → BitMapOp → BitMapState → Prop
  | alloc {s : BitMapState} {wr user : Bool} {size : UInt64} {isPage : Bool} {r : BitMapReply}
      (h : Yields (fun fuel => mmAllocBitmap pool fuel s.memory wr user size isPage) r) :
      BitMapStep pool s (.alloc wr user size isPage) (s.afterAlloc size r)
  | free {s : BitMapState} (pagePtr : VoidPtr) :
      BitMapStep pool s (.free pagePtr) (s.afterFree pagePtr (mmFreeBitmap s.memory pagePtr))
  | write {s : BitMapState} {address : Nat} (value : UInt8)
      (h : ∃ e ∈ s.held, e.start + 24 ≤ address ∧ address < e.start + e.size) :
      BitMapStep pool s (.write address value)
        { s with memory := Function.update s.memory address value }

/-- The walk ends at the first address it tests. -/
def BitMapOp.Ends (pool : Pool) (s : BitMapState) : BitMapOp → Prop
  | alloc _ _ size _ => Headed s.memory pool.tested →
      Usable s.memory pool.tested size ∨ pool.PastEnd s.memory
  | free _ => True
  | write _ _ => True

/-- Without a header at the tested address a block goes to the start of the pool, so only one that
begins behind it may be held; with a free header it goes to the tested address, so only a block in
front of it may be held. -/
def BitMapOp.Fits (pool : Pool) (s : BitMapState) : BitMapOp → Prop
  | alloc _ _ size _ => pool.tested ≠ 0 → size ≠ 0 →
      (¬ Headed s.memory pool.tested → size ≤ pool.size ∧
        ∀ e ∈ s.held, e.start = pool.tested.toNat ∧ size ≤ kPageSize pool.arch) ∧
      (Usable s.memory pool.tested size →
        (kPageSize pool.arch).toNat + size.toNat ≤ pool.size.toNat ∧
        ∀ e ∈ s.held, e.start = pool.start.toNat ∧ e.size ≤ (kPageSize pool.arch).toNat)
  | free _ => True
  | write _ _ => True

/-- Blocks are held at the two addresses only. -/
private structure PoolInv (pool : Pool) (s : BitMapState) : Prop where
  separated : s.Separated pool
  places : ∀ e ∈ s.held, e.start = pool.start.toNat ∨ e.start = pool.tested.toNat
  nonempty : ∀ e ∈ s.held, 0 < e.size

namespace PoolInv

variable {pool : Pool} {s t : BitMapState} {size : UInt64}

/-- A block inside the pool at the tested address stands one page behind the start. -/
private theorem tested_eq (h : pool.start.toNat ≤ pool.tested.toNat) :
    pool.tested.toNat = pool.start.toNat + (kPageSize pool.arch).toNat := by
  have hsum : pool.tested.toNat =
      (pool.start.toNat + (kPageSize pool.arch).toNat) % 2 ^ 64 := UInt64.toNat_add _ _
  have hlt := pool.start.toNat_lt
  have hpage : (kPageSize pool.arch).toNat = 256 ∨ (kPageSize pool.arch).toNat = 4096 := by
    cases pool.arch
    · exact Or.inl rfl
    · exact Or.inr rfl
  omega

private theorem tested_le (h : PoolInv pool s) {e : Extent} (he : e ∈ s.held)
    (hstart : e.start = pool.tested.toNat) : pool.start.toNat ≤ pool.tested.toNat := by
  have hin := (Extent.inside_iff (h.nonempty e he)).mp (h.separated.2 e he)
  exact hstart ▸ hin.1

/-- One more block keeps the blocks apart exactly when it lies in the pool and beside the others. -/
private theorem append_iff (h : PoolInv pool s) (e : Extent) (m : Store) :
    (BitMapState.mk m (s.held ++ [e])).Separated pool ↔
      e.Inside ⟨pool.start.toNat, pool.size.toNat⟩ ∧ ∀ f ∈ s.held, f.Apart e := by
  have hsep := h.separated
  simp only [BitMapState.Separated, List.pairwise_append, List.pairwise_singleton, List.mem_append,
    List.mem_singleton, forall_eq, true_and] at hsep ⊢
  constructor
  · intro h
    rcases h with ⟨⟨_, hapart⟩, hin⟩
    exact ⟨hin e (Or.inr rfl), hapart⟩
  · intro h
    rcases h with ⟨hin, hapart⟩
    refine ⟨⟨hsep.1, hapart⟩, ?_⟩
    intro f h
    rcases h with hf | rfl
    · exact hsep.2 f hf
    · exact hin

private theorem start_iff (h : PoolInv pool s) (hsize : size ≠ 0) (m : Store) :
    (BitMapState.mk m (s.held ++ [⟨pool.start.toNat, size.toNat⟩])).Separated pool ↔
      size ≤ pool.size ∧
        ∀ e ∈ s.held, e.start = pool.tested.toNat ∧ size ≤ kPageSize pool.arch := by
  have hpos : 0 < size.toNat := UInt64.lt_iff_toNat_lt.mp (UInt64.pos_iff_ne_zero.mpr hsize)
  rw [h.append_iff, Extent.inside_iff hpos, UInt64.le_iff_toNat_le]
  dsimp only
  refine and_congr (by omega) (forall₂_congr fun e he => ?_)
  have hep := h.nonempty e he
  rw [Extent.apart_iff hep hpos, UInt64.le_iff_toNat_le]
  dsimp only
  constructor
  · intro hapart
    rcases h.places e he with hplace | hplace
    · omega
    · have htested := tested_eq (h.tested_le he hplace)
      omega
  · intro h
    rcases h with ⟨hplace, hle⟩
    have htested := tested_eq (h.tested_le he hplace)
    omega

private theorem tested_iff (h : PoolInv pool s) (hsize : size ≠ 0) (m : Store) :
    (BitMapState.mk m (s.held ++ [⟨pool.tested.toNat, size.toNat⟩])).Separated pool ↔
      (kPageSize pool.arch).toNat + size.toNat ≤ pool.size.toNat ∧
        ∀ e ∈ s.held, e.start = pool.start.toNat ∧ e.size ≤ (kPageSize pool.arch).toNat := by
  have hpos : 0 < size.toNat := UInt64.lt_iff_toNat_lt.mp (UInt64.pos_iff_ne_zero.mpr hsize)
  have hfits := pool.fits
  have hsum : pool.tested.toNat =
      (pool.start.toNat + (kPageSize pool.arch).toNat) % 2 ^ 64 := UInt64.toNat_add _ _
  rw [h.append_iff, Extent.inside_iff hpos]
  dsimp only
  constructor
  · intro h
    rcases h with ⟨⟨hle, hend⟩, hapart⟩
    have htested := tested_eq hle
    refine ⟨by omega, fun e he => ?_⟩
    have hep := h.nonempty e he
    have hbeside := (Extent.apart_iff hep hpos).mp (hapart e he)
    dsimp only at hbeside
    rcases h.places e he with hplace | hplace
    · omega
    · omega
  · intro h
    rcases h with ⟨hroom, hheld⟩
    have htested : pool.tested.toNat = pool.start.toNat + (kPageSize pool.arch).toNat := by omega
    refine ⟨by omega, fun e he => ?_⟩
    obtain ⟨hplace, hle⟩ := hheld e he
    exact Extent.apart_of_le (by dsimp only; omega)

private theorem same_held (h : PoolInv pool s) (m : Store) : PoolInv pool ⟨m, s.held⟩ :=
  ⟨h.separated, h.places, h.nonempty⟩

private theorem append (h : PoolInv pool s) {m : Store} {e : Extent}
    (hsep : (BitMapState.mk m (s.held ++ [e])).Separated pool)
    (hplace : e.start = pool.start.toNat ∨ e.start = pool.tested.toNat) (hpos : 0 < e.size) :
    PoolInv pool ⟨m, s.held ++ [e]⟩ := by
  refine ⟨hsep, ?_, ?_⟩
  · intro f hf
    rcases List.mem_append.mp hf with hf | hf
    · exact h.places f hf
    · rw [List.mem_singleton.mp hf]
      exact hplace
  · intro f hf
    rcases List.mem_append.mp hf with hf | hf
    · exact h.nonempty f hf
    · rw [List.mem_singleton.mp hf]
      exact hpos

private theorem filter (h : PoolInv pool s) (m : Store) (p : Extent → Bool) :
    PoolInv pool ⟨m, s.held.filter p⟩ := by
  have hsub : s.held.filter p ⊆ s.held := List.filter_subset_self _
  exact ⟨⟨h.separated.1.filter p, fun e he => h.separated.2 e (hsub he)⟩,
    fun e he => h.places e (hsub he), fun e he => h.nonempty e (hsub he)⟩

/-- An allocation that ends at the first address keeps the blocks apart exactly when it fits. -/
private theorem alloc (h : PoolInv pool s) {wr user isPage : Bool} {r : BitMapReply}
    (hend : (BitMapOp.alloc wr user size isPage).Ends pool s)
    (hr : Yields (fun fuel => mmAllocBitmap pool fuel s.memory wr user size isPage) r) :
    ((s.afterAlloc size r).Separated pool ↔ (BitMapOp.alloc wr user size isPage).Fits pool s) ∧
      ((s.afterAlloc size r).Separated pool → PoolInv pool (s.afterAlloc size r)) := by
  rw [mmAllocBitmap_reply hend hr, Pool.reply]
  by_cases hnull : pool.tested = 0 ∨ size = 0
  · have hfits : (BitMapOp.alloc wr user size isPage).Fits pool s :=
      fun ht hz => absurd hnull (not_or.mpr ⟨ht, hz⟩)
    rw [if_pos hnull]
    exact ⟨iff_of_true h.separated hfits, fun _ => h.same_held _⟩
  obtain ⟨ht, hz⟩ := not_or.mp hnull
  have hpos : 0 < size.toNat := UInt64.lt_iff_toNat_lt.mp (UInt64.pos_iff_ne_zero.mpr hz)
  rw [if_neg hnull]
  by_cases hu : Usable s.memory pool.tested size
  · have hfits : (BitMapOp.alloc wr user size isPage).Fits pool s ↔
        (kPageSize pool.arch).toNat + size.toNat ≤ pool.size.toNat ∧
        ∀ e ∈ s.held, e.start = pool.start.toNat ∧ e.size ≤ (kPageSize pool.arch).toNat :=
      ⟨fun hf => (hf ht hz).2 hu, fun hf _ _ => ⟨fun hn => absurd hu.1 hn, fun _ => hf⟩⟩
    rw [if_pos hu, hfits, BitMapState.afterAlloc, if_neg ht]
    exact ⟨h.tested_iff hz _, fun hsep => h.append hsep (Or.inr rfl) hpos⟩
  rw [if_neg hu]
  by_cases hm : Headed s.memory pool.tested
  · have hfits : (BitMapOp.alloc wr user size isPage).Fits pool s :=
      fun _ _ => ⟨fun hn => absurd hm hn, fun hf => absurd hf hu⟩
    rw [if_neg (not_not.mpr hm)]
    exact ⟨iff_of_true h.separated hfits, fun _ => h.same_held _⟩
  · have hfits : (BitMapOp.alloc wr user size isPage).Fits pool s ↔ size ≤ pool.size ∧
        ∀ e ∈ s.held, e.start = pool.tested.toNat ∧ size ≤ kPageSize pool.arch :=
      ⟨fun hf => (hf ht hz).1 hm, fun hf _ _ => ⟨fun _ => hf, fun hn => absurd hn hu⟩⟩
    rw [if_pos hm, hfits, BitMapState.afterAlloc, if_neg pool.start_ne]
    exact ⟨h.start_iff hz _, fun hsep => h.append hsep (Or.inl rfl) hpos⟩

private theorem step (h : PoolInv pool s) {op : BitMapOp} (hend : op.Ends pool s)
    (hs : BitMapStep pool s op t) :
    (t.Separated pool ↔ op.Fits pool s) ∧ (t.Separated pool → PoolInv pool t) := by
  cases hs with
  | alloc hr => exact h.alloc hend hr
  | free pagePtr =>
    have hfree : PoolInv pool (s.afterFree pagePtr (mmFreeBitmap s.memory pagePtr)) := by
      rw [BitMapState.afterFree]
      split
      · exact h.filter _ _
      · exact h.same_held _
    exact ⟨iff_of_true hfree.separated trivial, fun _ => hfree⟩
  | write value hw => exact ⟨iff_of_true h.separated trivial, fun _ => h.same_held _⟩

end PoolInv

private theorem pool_run {pool : Pool} {m : Store} {s : BitMapState}
    (hr : Reaches (BitMapStep pool) (fun s op => op.Ends pool s ∧ op.Fits pool s) ⟨m, []⟩ s) :
    PoolInv pool s := by
  refine hr.invariant (PoolInv pool) ?_ ?_
  · exact ⟨⟨List.Pairwise.nil, fun _ he => nomatch he⟩, fun _ he => (nomatch he),
      fun _ he => (nomatch he)⟩
  · intro x op y hinv h hs
    rcases h with ⟨hend, hfit⟩
    obtain ⟨hiff, hnext⟩ := hinv.step hend hs
    exact hnext (hiff.mpr hfit)

/-- The blocks stay apart in every run whose allocations fit, and the first that does not fit
breaks them. -/
theorem pool_separated {pool : Pool} {m : Store} {s : BitMapState}
    (hr : Reaches (BitMapStep pool) (fun s op => op.Ends pool s ∧ op.Fits pool s) ⟨m, []⟩ s) :
    s.Separated pool ∧ ∀ op t, op.Ends pool s → BitMapStep pool s op t →
      (t.Separated pool ↔ op.Fits pool s) := by
  have hinv := pool_run hr
  exact ⟨hinv.separated, fun op t hend hs => (hinv.step hend hs).1⟩

/-- A zeroed pool of 64 KiB. -/
def samplePool : Pool := ⟨.amd64, 0x100000, 0x10000, by decide, by decide⟩

private theorem zero_unheaded : ¬ Headed (fun _ => 0) samplePool.tested := by
  rw [Headed, wordAt_zero]
  decide

/-- The first block of 16 bytes. -/
private theorem first_block : BitMapStep samplePool ⟨fun _ => 0, []⟩ (.alloc true false 16 false)
    ⟨newBitMap (fun _ => 0) samplePool.start 16, [⟨0x100000, 16⟩]⟩ := by
  have hy := yields_mmAllocBitmap samplePool (fun _ => 0) 16 true false false
    (fun h => absurd h zero_unheaded)
  rw [Pool.reply, if_neg (by decide), if_neg (fun h => zero_unheaded h.1),
    if_pos zero_unheaded] at hy
  exact BitMapStep.alloc (s := ⟨fun _ => 0, []⟩) hy

private theorem first_fits : (BitMapOp.alloc true false 16 false).Ends samplePool ⟨fun _ => 0, []⟩ ∧
    (BitMapOp.alloc true false 16 false).Fits samplePool ⟨fun _ => 0, []⟩ := by
  refine ⟨fun h => absurd h zero_unheaded, fun _ _ => ⟨fun _ => ⟨by decide, ?_⟩, ?_⟩⟩
  · exact fun _ he => nomatch he
  · exact fun h => absurd h.1 zero_unheaded

/-- One block is allocated. -/
theorem pool_separated_first :
    (⟨newBitMap (fun _ => 0) samplePool.start 16, [⟨0x100000, 16⟩]⟩ : BitMapState).Separated
      samplePool :=
  (pool_separated (.one first_fits first_block)).1

/-- The second block of 16 bytes is the first one again. -/
theorem pool_overlap : ∃ s, Reaches (BitMapStep samplePool) (fun _ _ => True) ⟨fun _ => 0, []⟩ s ∧
    ¬ s.Separated samplePool := by
  have hstill : ¬ Headed (newBitMap (fun _ => 0) samplePool.start 16) samplePool.tested := by
    rw [Headed, newBitMap, wordAt_setWord_apart _ _ (by decide), wordAt_setWord_apart _ _ (by decide),
      wordAt_setWord_apart _ _ (by decide), wordAt_zero]
    decide
  have hy := yields_mmAllocBitmap samplePool (newBitMap (fun _ => 0) samplePool.start 16) 16
    true false false (fun h => absurd h hstill)
  have hsecond := BitMapStep.alloc
    (s := ⟨newBitMap (fun _ => 0) samplePool.start 16, [⟨0x100000, 16⟩]⟩) hy
  have hfirst : Reaches (BitMapStep samplePool) (fun _ _ => True) ⟨fun _ => 0, []⟩ _ :=
    .one trivial first_block
  have hend : (BitMapOp.alloc true false 16 false).Ends samplePool
      ⟨newBitMap (fun _ => 0) samplePool.start 16, [⟨0x100000, 16⟩]⟩ := fun h => absurd h hstill
  have hinv := pool_run (.one first_fits first_block)
  refine ⟨_, hfirst.tail ⟨_, trivial, hsecond⟩, ?_⟩
  rw [(hinv.step hend hsecond).1]
  intro hfit
  have hplace := ((hfit (by decide) (by decide)).1 hstill).2 _ (List.mem_singleton_self _)
  exact absurd hplace.1 (by decide)

end Zka.HALKit
