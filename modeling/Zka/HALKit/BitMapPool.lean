import Zka.HALKit.BitMap

/-!
# Complete allocation

A pool that is a row of blocks with untouched memory behind them, and the walk of
`FindBitMap` over it.  The walk does not go from block to block: it begins one page
behind the start of the pool, and every size it reads is taken from the start.
-/

namespace Zka.HALKit

open Outcome

/-! ## The pool as a row of blocks -/

structure BitMapBlock where
  start : VoidPtr
  size : UInt64
  used : UInt64

namespace BitMapBlock

def extent (b : BitMapBlock) : Extent := ⟨b.start.toNat, b.size.toNat⟩

def Free (b : BitMapBlock) : Prop := b.used = 0

/-- The memory has the three words of the block. -/
structure Holds (m : Store) (b : BitMapBlock) : Prop where
  headed : Headed m b.start
  size_eq : wordAt m b.start kBitMapSizeIdx = b.size
  used_eq : wordAt m b.start kBitMapUsedIdx = b.used
  size_le : 24 ≤ b.size.toNat

/-- The blocks stand one behind the other, from an address to another. -/
def Row (m : Store) : Nat → List BitMapBlock → Nat → Prop
  | a, [], tail => tail = a
  | a, b :: rest, tail => b.start.toNat = a ∧ b.Holds m ∧ Row m (a + b.size.toNat) rest tail

end BitMapBlock

/-- The blocks of a pool and the address behind the last one. -/
structure PoolRow (pool : Pool) (m : Store) where
  blocks : List BitMapBlock
  tail : Nat
  row : BitMapBlock.Row m pool.start.toNat blocks tail
  tail_le : tail ≤ pool.start.toNat + pool.size.toNat

namespace PoolRow

variable {pool : Pool} {m : Store} (l : PoolRow pool m)

/-- The untouched memory. -/
def rest : Extent := ⟨l.tail, pool.start.toNat + pool.size.toNat - l.tail⟩

/-- The extents that an allocation may be served from. -/
def Vacant (e : Extent) : Prop := (∃ b ∈ l.blocks, b.Free ∧ e = b.extent) ∨ e = l.rest

/-- There is room for so many bytes. -/
def Enough (size : UInt64) : Prop := ∃ e, l.Vacant e ∧ size.toNat ≤ e.size

/-- The bytes from the pointer on are vacant. -/
def Fresh (size : UInt64) (ptr : VoidPtr) : Prop :=
  ∃ e, l.Vacant e ∧ Extent.Inside ⟨ptr.toNat, size.toNat⟩ e

/-- An allocation ends; it grants vacant memory when there is enough, and null when there is not. -/
def AllocComplete (wr user : Bool) (size : UInt64) : Prop :=
  ∃ r, Yields (fun fuel => mmAllocBitmap pool fuel m wr user size false) r ∧
    (l.Enough size → r.ptr ≠ 0 ∧ l.Fresh size r.ptr) ∧ (¬ l.Enough size → r.ptr = 0)

theorem Fresh.enough {l : PoolRow pool m} {size : UInt64} {ptr : VoidPtr} (hpos : 0 < size)
    (h : l.Fresh size ptr) : l.Enough size := by
  obtain ⟨e, hvacant, hinside⟩ := h
  have hsize : 0 < size.toNat := UInt64.lt_iff_toNat_lt.mp hpos
  have hle := (Extent.inside_iff hsize).mp hinside
  exact ⟨e, hvacant, by dsimp only at hle; omega⟩

end PoolRow

/-! ## The walk -/

section Walk

variable (pool : Pool) (m : Store) (size : UInt64)

/-- The address after a header that cannot be taken: its size, counted from the start of the pool. -/
def Pool.following (base : VoidPtr) : VoidPtr := pool.start + wordAt m base kBitMapSizeIdx

/-- The test for the end of the pool, behind a header. -/
def Pool.EndsAt (base : VoidPtr) : Prop := pool.start < pool.following m base + pool.size

instance (base : VoidPtr) : Decidable (pool.EndsAt m base) := inferInstanceAs (Decidable (_ < _))

/-- The walk goes from a header that cannot be taken to the next address. -/
structure Pool.Follows (base next : VoidPtr) : Prop where
  ne : base ≠ 0
  headed : Headed m base
  unusable : ¬ Usable m base size
  more : ¬ pool.EndsAt m base
  next_eq : next = pool.following m base

/-- The walk comes to the address. -/
def Pool.Visits (base : VoidPtr) : Prop := Relation.ReflTransGen (pool.Follows m size) pool.tested base

end Walk

variable {pool : Pool} {m : Store} {size : UInt64} {wr user : Bool}

/-- What the walk does with an address. -/
inductive Pool.Leaves (pool : Pool) (m : Store) (wr user : Bool) (size : UInt64) :
    VoidPtr → BitMapReply → Prop
  | null : Leaves pool m wr user size 0 (.null m)
  | reuse {base : VoidPtr} (ne : base ≠ 0) (usable : Usable m base size) :
      Leaves pool m wr user size base
        ⟨base, reuseBitMap m base size, some (base, makeMMFlags wr user)⟩
  | fresh {base : VoidPtr} (ne : base ≠ 0) (unheaded : ¬ Headed m base) :
      Leaves pool m wr user size base
        ⟨pool.start, newBitMap m pool.start size, some (pool.start, makeMMFlags wr user)⟩
  | ended {base : VoidPtr} (ne : base ≠ 0) (headed : Headed m base)
      (unusable : ¬ Usable m base size) (ends : pool.EndsAt m base) :
      Leaves pool m wr user size base (.null m)

theorem findBody_null : findBody m pool.start size pool.size (makeMMFlags wr user) 0 =
    .done (.inr (.null m)) := by
  rw [findBody, if_pos (by simp)]

section Body

variable (hsize : size ≠ 0) {base : VoidPtr} (hne : base ≠ 0)

include hsize hne

theorem findBody_usable (h : Usable m base size) :
    findBody m pool.start size pool.size (makeMMFlags wr user) base =
      .done (.inr ⟨base, reuseBitMap m base size, some (base, makeMMFlags wr user)⟩) := by
  rw [findBody, if_neg (not_not.mpr ⟨hne, hsize⟩)]
  dsimp only
  rw [if_pos ⟨h.1, h.2.1⟩, if_pos h.2.2]

theorem findBody_unheaded (h : ¬ Headed m base) :
    findBody m pool.start size pool.size (makeMMFlags wr user) base =
      .done (.inr ⟨pool.start, newBitMap m pool.start size,
        some (pool.start, makeMMFlags wr user)⟩) := by
  rw [Headed] at h
  rw [findBody, if_neg (not_not.mpr ⟨hne, hsize⟩)]
  dsimp only
  rw [if_neg (not_and_of_not_left _ h), if_pos h]

theorem findBody_unusable (h : Headed m base) (hunusable : ¬ Usable m base size) :
    findBody m pool.start size pool.size (makeMMFlags wr user) base =
      if pool.EndsAt m base then .done (.inr (.null m))
      else .done (.inl (pool.following m base)) := by
  have hmagic : ¬ wordAt m base kBitMapMagIdx ≠ kBitMapMagic := not_not.mpr h
  rw [findBody, if_neg (not_not.mpr ⟨hne, hsize⟩)]
  dsimp only
  rw [if_neg hmagic, if_neg hmagic]
  split
  · rename_i hfits
    rw [if_neg fun hused => hunusable ⟨h, hfits.2, hused⟩]
    rfl
  · rfl

end Body

theorem findBody_follows_iff (hsize : size ≠ 0) {base next : VoidPtr} :
    findBody m pool.start size pool.size (makeMMFlags wr user) base = .done (.inl next) ↔
      pool.Follows m size base next := by
  constructor
  · intro h
    by_cases hne : base = 0
    · rw [hne, findBody_null] at h
      cases h
    by_cases hheaded : Headed m base
    · by_cases husable : Usable m base size
      · rw [findBody_usable hsize hne husable] at h
        cases h
      · rw [findBody_unusable hsize hne hheaded husable] at h
        split at h
        · cases h
        · rename_i hmore
          cases h
          exact ⟨hne, hheaded, husable, hmore, rfl⟩
    · rw [findBody_unheaded hsize hne hheaded] at h
      cases h
  · intro h
    rcases h with ⟨hne, hheaded, hunusable, hmore, rfl⟩
    rw [findBody_unusable hsize hne hheaded hunusable, if_neg hmore]

theorem findBody_leaves_iff (hsize : size ≠ 0) {base : VoidPtr} {r : BitMapReply} :
    findBody m pool.start size pool.size (makeMMFlags wr user) base = .done (.inr r) ↔
      pool.Leaves m wr user size base r := by
  constructor
  · intro h
    by_cases hne : base = 0
    · subst hne
      rw [findBody_null] at h
      cases h
      exact .null
    by_cases hheaded : Headed m base
    · by_cases husable : Usable m base size
      · rw [findBody_usable hsize hne husable] at h
        cases h
        exact .reuse hne husable
      · rw [findBody_unusable hsize hne hheaded husable] at h
        split at h
        · rename_i hends
          cases h
          exact .ended hne hheaded husable hends
        · cases h
    · rw [findBody_unheaded hsize hne hheaded] at h
      cases h
      exact .fresh hne hheaded
  · intro h
    cases h with
    | null => exact findBody_null
    | reuse hne husable => exact findBody_usable hsize hne husable
    | fresh hne hunheaded => exact findBody_unheaded hsize hne hunheaded
    | ended hne hheaded hunusable hends =>
      rw [findBody_unusable hsize hne hheaded hunusable, if_pos hends]

/-- An allocation returns what the walk leaves with. -/
theorem yields_mmAllocBitmap_iff (hsize : size ≠ 0) {isPage : Bool} {r : BitMapReply} :
    Yields (fun fuel => mmAllocBitmap pool fuel m wr user size isPage) r ↔
      ∃ base, pool.Visits m size base ∧ pool.Leaves m wr user size base r := by
  have hfollows : (fun base next => findBody m pool.start size pool.size (makeMMFlags wr user) base =
      .done (.inl next)) = pool.Follows m size := by
    funext base next
    exact propext (findBody_follows_iff hsize)
  refine yields_whileLoop_iff.trans ?_
  rw [hfollows]
  exact exists_congr fun base => and_congr_right fun _ => findBody_leaves_iff hsize

/-! ## Completeness -/

namespace PoolRow

/-- The walk may stop at the address: what it grants there is vacant, or it gives up with reason. -/
inductive Served (l : PoolRow pool m) (size : UInt64) (base : VoidPtr) : Prop
  | null (null : base = 0) (full : ¬ l.Enough size)
  | reuse (ne : base ≠ 0) (usable : Usable m base size) (vacant : l.Fresh size base)
  | fresh (ne : base ≠ 0) (unheaded : ¬ Headed m base) (vacant : l.Fresh size pool.start)
  | ended (ne : base ≠ 0) (headed : Headed m base) (unusable : ¬ Usable m base size)
      (ends : pool.EndsAt m base) (full : ¬ l.Enough size)

variable {l : PoolRow pool m}

theorem served_of_leaves {base : VoidPtr} {r : BitMapReply}
    (hleaves : pool.Leaves m wr user size base r)
    (henough : l.Enough size → r.ptr ≠ 0 ∧ l.Fresh size r.ptr)
    (hfull : ¬ l.Enough size → r.ptr = 0) : l.Served size base := by
  have hvacant : r.ptr ≠ 0 → l.Fresh size r.ptr := by
    intro hptr
    exact (henough (not_not.mp fun h => hptr (hfull h))).2
  cases hleaves with
  | null => exact .null rfl fun h => (henough h).1 rfl
  | reuse hne husable => exact .reuse hne husable (hvacant hne)
  | fresh hne hunheaded => exact .fresh hne hunheaded (hvacant pool.start_ne)
  | ended hne hheaded hunusable hends =>
    exact .ended hne hheaded hunusable hends fun h => (henough h).1 rfl

theorem leaves_of_served (hpos : 0 < size) {base : VoidPtr} (hserved : l.Served size base) :
    ∃ r, pool.Leaves m wr user size base r ∧ (l.Enough size → r.ptr ≠ 0 ∧ l.Fresh size r.ptr) ∧
      (¬ l.Enough size → r.ptr = 0) := by
  cases hserved with
  | null hnull hfull =>
    subst hnull
    exact ⟨_, .null, fun h => absurd h hfull, fun _ => rfl⟩
  | reuse hne husable hvacant =>
    exact ⟨_, .reuse hne husable, fun _ => ⟨hne, hvacant⟩,
      fun h => absurd (hvacant.enough hpos) h⟩
  | fresh hne hunheaded hvacant =>
    exact ⟨_, .fresh hne hunheaded, fun _ => ⟨pool.start_ne, hvacant⟩,
      fun h => absurd (hvacant.enough hpos) h⟩
  | ended hne hheaded hunusable hends hfull =>
    exact ⟨_, .ended hne hheaded hunusable hends, fun h => absurd h hfull, fun _ => rfl⟩

end PoolRow

/-! ## Two pools -/

/-- A zeroed pool without a block. -/
def emptyRow : PoolRow samplePool (fun _ => 0) where
  blocks := []
  tail := 0x100000
  row := rfl
  tail_le := by decide

/-- A used block of 256 bytes, and behind it a free one of 512. -/
def rowMemory : Store :=
  setWord (newBitMap (newBitMap (fun _ => 0) 0x100000 0x100) 0x100100 0x200) 0x100100
    kBitMapUsedIdx 0

def sampleRow : PoolRow samplePool rowMemory where
  blocks := [⟨0x100000, 0x100, 1⟩, ⟨0x100100, 0x200, 0⟩]
  tail := 0x100300
  row := by
    refine ⟨rfl, ⟨?_, ?_, ?_, by decide⟩, rfl, ⟨?_, ?_, ?_, by decide⟩, rfl⟩
    all_goals decide +kernel
  tail_le := by decide

end Zka.HALKit
