import Zka.Framework.Outcome
import Zka.HALKit.Paging

/-!
# Page tables of the ARM64 kernel

`mm_map_page` waits for the flag of the page store and takes it.  It finds no page but the one
that the store remembers, and for any other it returns with the flag still taken.
-/

namespace Zka.HALKit.ARM64

open Outcome

/-! ## The calls -/

structure MapReply where
  status : Int32
  pageStore : PageStore
  deriving DecidableEq, Repr

/-- The flags are not looked at. -/
def mmiMapPageTableEntry (virtualAddress : VoidPtr) (_flags : UInt32) (ptEntry : VoidPtr) :
    MapReply :=
  ⟨0, { fPde := 0, fPte := ptEntry, fVAddr := virtualAddress, fStoreOp := false }⟩

/-- One pass of `while (page_store.fStoreOp)`, whose body is empty. -/
def waitBody (s : PageStore) : Outcome CFault (PageStore ⊕ PageStore) :=
  if s.fStoreOp then .done (.inl s) else .done (.inr s)

/-- The part of `mm_map_page` behind the wait. -/
def mapInStore (s : PageStore) (virtualAddress : VoidPtr) (flags : UInt32) : MapReply :=
  let s := { s with fStoreOp := true }
  if s.fVAddr = virtualAddress then
    let s := { s with fStoreOp := false }
    mmiMapPageTableEntry s.fVAddr flags s.fPte
  else ⟨1, s⟩

def mmMapPage (s : PageStore) (virtualAddress : VoidPtr) (flags : UInt32) (fuel : Nat) :
    Outcome CFault MapReply :=
  if virtualAddress = 0 ∨ flags = 0 then .done ⟨0, s⟩
  else whileLoop waitBody fuel s >>= fun s => .done (mapInStore s virtualAddress flags)

/-! ## One caller -/

structure MapCall where
  virtualAddress : VoidPtr
  flags : UInt32
  deriving DecidableEq, Repr

/-- The call is refused before it looks at the store. -/
def MapCall.Refused (c : MapCall) : Prop := c.virtualAddress = 0 ∨ c.flags = 0

instance (c : MapCall) : Decidable c.Refused := inferInstanceAs (Decidable (_ ∨ _))

/-- The calls are made one after the other; each returns, with the flag clear behind it. -/
def NeverBlocks : PageStore → List MapCall → Prop
  | _, [] => True
  | s, c :: calls =>
    ∃ r, Yields (mmMapPage s c.virtualAddress c.flags) r ∧ r.pageStore.fStoreOp = false ∧
      NeverBlocks r.pageStore calls

/-! ## What one call does -/

section Call

variable {s : PageStore} {c : MapCall}

theorem mmMapPage_refused (h : c.Refused) (fuel : Nat) :
    mmMapPage s c.virtualAddress c.flags fuel = .done ⟨0, s⟩ :=
  if_pos h

/-- A wait for a clear flag is over at once. -/
theorem wait_clear (h : s.fStoreOp = false) (fuel : Nat) :
    whileLoop waitBody (fuel + 1) s = .done s := by
  apply whileLoop_exit
  simp [waitBody, h]

/-- A call behind a clear flag does not wait. -/
theorem mmMapPage_clear (h : ¬ c.Refused) (hclear : s.fStoreOp = false) (fuel : Nat) :
    mmMapPage s c.virtualAddress c.flags (fuel + 1) =
      .done (mapInStore s c.virtualAddress c.flags) := by
  apply (if_neg h).trans
  rw [wait_clear hclear, done_bind]

theorem mapInStore_cached (h : s.fVAddr = c.virtualAddress) :
    mapInStore s c.virtualAddress c.flags = ⟨0, { s with fPde := 0, fStoreOp := false }⟩ := by
  simp [mapInStore, h, mmiMapPageTableEntry]

/-- A page that the store does not remember leaves the flag taken. -/
theorem mapInStore_other (h : s.fVAddr ≠ c.virtualAddress) :
    mapInStore s c.virtualAddress c.flags = ⟨1, { s with fStoreOp := true }⟩ := by
  simp [mapInStore, h]

/-- A wait for a flag that nobody clears does not end. -/
theorem wait_taken (h : s.fStoreOp = true) (fuel : Nat) :
    whileLoop waitBody fuel s = .running := by
  induction fuel with
  | zero => rfl
  | succ fuel ih =>
    rw [whileLoop_succ]
    simp [waitBody, h, ih]

/-- The call behind one that left the flag taken spins. -/
theorem mmMapPage_taken (h : ¬ c.Refused) (htaken : s.fStoreOp = true) (fuel : Nat) :
    mmMapPage s c.virtualAddress c.flags fuel = .running := by
  apply (if_neg h).trans
  rw [wait_taken htaken, running_bind]

theorem mmMapPage_mono (s : PageStore) (c : MapCall) :
    Monotone (mmMapPage s c.virtualAddress c.flags) := by
  intro n m hle
  by_cases h : c.Refused
  · rw [mmMapPage_refused h, mmMapPage_refused h]
  · rw [mmMapPage, mmMapPage]
    split
    · exact le_refl _
    · apply bind_le_bind (whileLoop_mono waitBody s hle)
      intro s'
      exact le_refl _

end Call

/-! ## Sequences of calls -/

/-- The call needs nothing but the page that the store remembers. -/
def MapCall.Served (c : MapCall) (cached : VoidPtr) : Prop := c.Refused ∨ cached = c.virtualAddress

instance (c : MapCall) (cached : VoidPtr) : Decidable (c.Served cached) :=
  inferInstanceAs (Decidable (_ ∨ _))

/-- A call that is served leaves the flag clear and the store with the page it had. -/
theorem mmMapPage_served {s : PageStore} {c : MapCall} (hclear : s.fStoreOp = false)
    (h : c.Served s.fVAddr) :
    ∃ r, Yields (mmMapPage s c.virtualAddress c.flags) r ∧ r.pageStore.fStoreOp = false ∧
      r.pageStore.fVAddr = s.fVAddr := by
  by_cases href : c.Refused
  · exact ⟨_, .intro 0 (mmMapPage_refused href 0), hclear, rfl⟩
  · have hcached : s.fVAddr = c.virtualAddress := h.resolve_left href
    refine ⟨_, .intro 1 (mmMapPage_clear href hclear 0), ?_⟩
    rw [mapInStore_cached hcached]
    exact ⟨rfl, rfl⟩

/-- What a call returns with the flag clear. -/
theorem served_of_clear {s : PageStore} {c : MapCall} {r : MapReply} (hclear : s.fStoreOp = false)
    (h : Yields (mmMapPage s c.virtualAddress c.flags) r) (hr : r.pageStore.fStoreOp = false) :
    c.Served s.fVAddr ∧ r.pageStore.fVAddr = s.fVAddr := by
  by_cases hserved : c.Served s.fVAddr
  · obtain ⟨r', hy, _, haddr⟩ := mmMapPage_served hclear hserved
    rw [h.unique (mmMapPage_mono s c) hy]
    exact ⟨hserved, haddr⟩
  · have hnot := not_or.mp hserved
    have hy := Yields.intro 1 (mmMapPage_clear hnot.1 hclear 0)
    rw [h.unique (mmMapPage_mono s c) hy, mapInStore_other hnot.2] at hr
    cases hr

private theorem neverBlocks_core {s : PageStore} (hclear : s.fStoreOp = false)
    (calls : List MapCall) : NeverBlocks s calls ↔ ∀ c ∈ calls, c.Served s.fVAddr := by
  induction calls generalizing s with
  | nil => simp [NeverBlocks]
  | cons c calls ih =>
    rw [NeverBlocks, List.forall_mem_cons]
    constructor
    · intro h
      obtain ⟨r, hy, hr, hrest⟩ := h
      obtain ⟨hserved, haddr⟩ := served_of_clear hclear hy hr
      rw [ih hr, haddr] at hrest
      exact ⟨hserved, hrest⟩
    · intro h
      obtain ⟨r, hy, hr, haddr⟩ := mmMapPage_served hclear h.1
      refine ⟨r, hy, hr, ?_⟩
      rw [ih hr, haddr]
      exact h.2

/-- From a store with a clear flag, the calls of one caller all return and leave the flag clear
exactly if each of them is refused or is for the page that the store remembers. -/
theorem neverBlocks_iff (s : PageStore) (hclear : s.fStoreOp = false) (calls : List MapCall) :
    NeverBlocks s calls ↔ ∀ c ∈ calls, c.Served s.fVAddr :=
  neverBlocks_core hclear calls

theorem neverBlocks_cached :
    NeverBlocks ⟨0, 0x9000, 0x400000, false⟩ [⟨0x400000, 3⟩, ⟨0, 3⟩, ⟨0x400000, 1⟩] :=
  (neverBlocks_iff _ rfl _).mpr (by decide)

/-- The store starts without a page, so that no call for one is ever served. -/
theorem neverBlocks_start (calls : List MapCall) :
    NeverBlocks PageStore.empty calls ↔ ∀ c ∈ calls, c.Refused := by
  rw [neverBlocks_core rfl]
  apply forall₂_congr
  intro c _
  constructor
  · intro h
    rcases h with h | h
    · exact h
    · exact Or.inl h.symm
  · intro h
    exact Or.inl h

/-- The first page that is mapped leaves the flag taken, and the second is waited for forever. -/
theorem neverBlocks_first :
    ¬ NeverBlocks PageStore.empty [⟨0x400000, 3⟩, ⟨0x401000, 3⟩] ∧
      ∀ fuel, mmMapPage (mapInStore PageStore.empty 0x400000 3).pageStore 0x401000 3 fuel =
        .running := by
  constructor
  · rw [neverBlocks_start]
    decide
  · intro fuel
    exact mmMapPage_taken (c := ⟨0x401000, 3⟩) (by decide) (by decide) fuel

end Zka.HALKit.ARM64
