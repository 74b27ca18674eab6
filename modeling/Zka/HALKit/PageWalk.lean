import Zka.HALKit.Paging

/-!
# The walk of the hardware and the remembered page

`mm_map_page` against the four-level walk from CR3, for a call that does not find
its address in the page store, and against itself with an empty page store over
runs with writes to CR3.
-/

namespace Zka.HALKit

/-! ## The walk of the hardware -/

/-- The address bits of CR3 and of an entry. -/
def kPhysicalMask : UInt64 := 0x000FFFFFFFFFF000

/-- The bit of an entry that ends the walk early, at a large page. -/
def kPageSizeBit : UInt64 := 0x80

inductive PagingLevel where
  | pml4
  | pdpt
  | pd
  | pt
  deriving DecidableEq, Repr

def PagingLevel.shift : PagingLevel → UInt64
  | pml4 => 39
  | pdpt => 30
  | pd => 21
  | pt => 12

/-- The address of the entry that a table has for a virtual address. -/
def tableEntry (level : PagingLevel) (table : UInt64) (virtualAddress : VoidPtr) : UInt64 :=
  table + ((virtualAddress >>> level.shift) &&& 0x1FF) * 8

/-- The table that an entry points to, if the entry is present and of the four-level walk. -/
def nextTable (m : Store) (entry : UInt64) : Option UInt64 :=
  let e := wordAt m entry 0
  if e &&& PteBit.present.mask = 0 ∨ e &&& kPageSizeBit ≠ 0 then none
  else some (e &&& kPhysicalMask)

theorem nextTable_eq {m : Store} {entry e : UInt64} (he : wordAt m entry 0 = e)
    (hpresent : e &&& PteBit.present.mask ≠ 0) (hsize : e &&& kPageSizeBit = 0) :
    nextTable m entry = some (e &&& kPhysicalMask) := by
  simp [nextTable, he, hpresent, hsize]

/-- The address of the entry of the page, where the three levels above are present. -/
def hardwareWalk (m : Store) (cr3 : UInt64) (virtualAddress : VoidPtr) : Option UInt64 := do
  let pdpt ← nextTable m (tableEntry .pml4 (cr3 &&& kPhysicalMask) virtualAddress)
  let pd ← nextTable m (tableEntry .pdpt pdpt virtualAddress)
  let pt ← nextTable m (tableEntry .pd pd virtualAddress)
  return tableEntry .pt pt virtualAddress

/-- The call updates the entry `leaf` with the requested flags and nothing else. -/
def UpdatesLeaf (s : PagingState) (virtualAddress : VoidPtr) (flags : UInt32) (leaf : UInt64) :
    Prop :=
  (mmMapPage s virtualAddress flags).invalidated = some leaf ∧
    ∃ pte, MatchesFlags flags (wordAt s.memory leaf 0) pte ∧
      (mmMapPage s virtualAddress flags).state.memory = setWord s.memory leaf 0 pte

/-- Whenever the walk reaches an entry, the call updates that one. -/
def MapsAsHardware (s : PagingState) (virtualAddress : VoidPtr) (flags : UInt32) : Prop :=
  ∀ leaf, hardwareWalk s.memory s.cr3 virtualAddress = some leaf →
    UpdatesLeaf s virtualAddress flags leaf

/-- There are flags, and the slot that the call reads holds the address of the entry that the walk
reaches, which is not null. -/
def SlotHoldsWalk (s : PagingState) (virtualAddress : VoidPtr) (flags : UInt32) : Prop :=
  ∀ leaf, hardwareWalk s.memory s.cr3 virtualAddress = some leaf →
    flags ≠ 0 ∧ leaf ≠ 0 ∧ wordAt s.memory (entrySlot s.cr3 virtualAddress) 0 = leaf

section Map

variable {s : PagingState} {virtualAddress : VoidPtr} {flags : UInt32} {leaf : UInt64}

theorem mmMapPage_flagless (s : PagingState) (virtualAddress : VoidPtr) :
    mmMapPage s virtualAddress 0 = ⟨0, none, s⟩ :=
  if_pos (Or.inr rfl)

/-- The entry that a call updates: the remembered one, or the one in the slot. -/
def chosenEntry (s : PagingState) (virtualAddress : VoidPtr) : VoidPtr :=
  if s.pageStore.fVAddr = virtualAddress then s.pageStore.fPte
  else wordAt s.memory (entrySlot s.cr3 virtualAddress) 0

/-- Whether it finds its address or not, a call goes on to update the chosen entry. -/
theorem mmMapPage_chosen (hva : virtualAddress ≠ 0) (hflags : flags ≠ 0) :
    ∃ (store : PageStore) (pde : VoidPtr), mmMapPage s virtualAddress flags =
      mmiMapPageTableEntry { s with pageStore := store } virtualAddress flags
        (chosenEntry s virtualAddress) pde := by
  rw [mmMapPage, if_neg (not_or.mpr ⟨hva, hflags⟩)]
  dsimp only
  by_cases hhit : s.pageStore.fVAddr = virtualAddress
  · rw [if_pos hhit, chosenEntry, if_pos hhit, hhit]
    exact ⟨_, _, rfl⟩
  · rw [if_neg hhit, chosenEntry, if_neg hhit]
    exact ⟨_, _, rfl⟩

theorem mmMapPage_null (hva : virtualAddress ≠ 0) (hflags : flags ≠ 0)
    (hentry : chosenEntry s virtualAddress = 0) :
    (mmMapPage s virtualAddress flags).invalidated = none ∧
      (mmMapPage s virtualAddress flags).state.memory = s.memory := by
  obtain ⟨store, pde, hcall⟩ := mmMapPage_chosen (s := s) hva hflags
  rw [hcall, mmiMapPageTableEntry, if_pos hentry]
  exact ⟨rfl, rfl⟩

theorem mmMapPage_entry (hva : virtualAddress ≠ 0) (hflags : flags ≠ 0)
    (hentry : chosenEntry s virtualAddress ≠ 0) :
    ∃ pde, mmMapPage s virtualAddress flags = ⟨0, some (chosenEntry s virtualAddress),
      setWord s.memory (chosenEntry s virtualAddress) 0
        (mapEntry flags (wordAt s.memory (chosenEntry s virtualAddress) 0)), s.cr3,
      ⟨pde, chosenEntry s virtualAddress, virtualAddress, false⟩⟩ := by
  obtain ⟨store, pde, hcall⟩ := mmMapPage_chosen (s := s) hva hflags
  refine ⟨pde, ?_⟩
  rw [hcall, mmiMapPageTableEntry, if_neg hentry]

theorem mmMapPage_updated (hva : virtualAddress ≠ 0) (hflags : flags ≠ 0)
    (hentry : chosenEntry s virtualAddress ≠ 0) :
    (mmMapPage s virtualAddress flags).invalidated = some (chosenEntry s virtualAddress) ∧
      (mmMapPage s virtualAddress flags).state.memory =
        setWord s.memory (chosenEntry s virtualAddress) 0
          (mapEntry flags (wordAt s.memory (chosenEntry s virtualAddress) 0)) := by
  obtain ⟨pde, hcall⟩ := mmMapPage_entry hva hflags hentry
  rw [hcall]
  exact ⟨rfl, rfl⟩

/-- A call that updates an entry remembers it. -/
theorem mmMapPage_stored (hva : virtualAddress ≠ 0) (hflags : flags ≠ 0)
    (hentry : chosenEntry s virtualAddress ≠ 0) :
    (mmMapPage s virtualAddress flags).state.cr3 = s.cr3 ∧
      (mmMapPage s virtualAddress flags).state.pageStore.fPte = chosenEntry s virtualAddress ∧
      (mmMapPage s virtualAddress flags).state.pageStore.fVAddr = virtualAddress := by
  obtain ⟨pde, hcall⟩ := mmMapPage_entry hva hflags hentry
  simp only [hcall, and_self]

theorem updatesLeaf_iff (hva : virtualAddress ≠ 0) (hmiss : s.pageStore.fVAddr ≠ virtualAddress) :
    UpdatesLeaf s virtualAddress flags leaf ↔
      flags ≠ 0 ∧ leaf ≠ 0 ∧ wordAt s.memory (entrySlot s.cr3 virtualAddress) 0 = leaf := by
  have hchosen : chosenEntry s virtualAddress =
      wordAt s.memory (entrySlot s.cr3 virtualAddress) 0 := if_neg hmiss
  constructor
  · intro hupdates
    obtain ⟨hleaf, _⟩ := hupdates
    have hflags : flags ≠ 0 := by
      intro hzero
      rw [hzero, mmMapPage_flagless] at hleaf
      cases hleaf
    have hentry : chosenEntry s virtualAddress ≠ 0 := by
      intro hnull
      rw [(mmMapPage_null hva hflags hnull).1] at hleaf
      cases hleaf
    rw [(mmMapPage_updated hva hflags hentry).1] at hleaf
    cases hleaf
    exact ⟨hflags, hentry, hchosen.symm⟩
  · intro hslot
    obtain ⟨hflags, hleaf, hword⟩ := hslot
    have hchosen : chosenEntry s virtualAddress = leaf := hchosen.trans hword
    have hentry := mmMapPage_updated hva hflags (hchosen ▸ hleaf)
    rw [hchosen] at hentry
    exact ⟨hentry.1, _, mapEntry_matches hflags, hentry.2⟩

/-- A call that misses the page store does what the walk of the hardware asks for exactly when its
slot holds the address of the entry; and two such calls whose walks end at different entries
update different entries. -/
theorem mapsAsHardware_iff (s : PagingState) (virtualAddress : VoidPtr) (flags : UInt32)
    (hva : virtualAddress ≠ 0) (hmiss : s.pageStore.fVAddr ≠ virtualAddress) :
    (MapsAsHardware s virtualAddress flags ↔ SlotHoldsWalk s virtualAddress flags) ∧
      ∀ other flags' leaf leaf', hardwareWalk s.memory s.cr3 virtualAddress = some leaf →
        hardwareWalk s.memory s.cr3 other = some leaf' → leaf ≠ leaf' →
        MapsAsHardware s virtualAddress flags → MapsAsHardware s other flags' →
        (mmMapPage s virtualAddress flags).invalidated ≠ (mmMapPage s other flags').invalidated := by
  refine ⟨forall₂_congr fun leaf _ => updatesLeaf_iff hva hmiss, ?_⟩
  intro other flags' leaf leaf' hwalk hwalk' hne hmaps hmaps'
  rw [(hmaps leaf hwalk).1, (hmaps' leaf' hwalk').1]
  simpa using hne

end Map

/-- Tables at `0x2000`, `0x3000` and `0x4000` below the one at `0x1000`, and a word in the slot that
`mm_map_page` reads for the address `0x5000`. -/
def sampleTables (slot : UInt64) : Store :=
  let m := setWord (fun _ => 0) 0x1000 0 0x2001
  let m := setWord (setWord m 0x2000 0 0x3001) 0x3000 0 0x4001
  setWord m 0x9140 0 slot

def samplePaging (slot : UInt64) : PagingState := ⟨sampleTables slot, 0x1000, .empty⟩

theorem samplePaging_memory (slot : UInt64) : (samplePaging slot).memory = sampleTables slot := rfl

theorem samplePaging_cr3 (slot : UInt64) : (samplePaging slot).cr3 = 0x1000 := rfl

theorem sampleTables_slot (slot : UInt64) :
    wordAt (sampleTables slot) (entrySlot 0x1000 0x5000) 0 = slot := by
  have hslot : entrySlot 0x1000 0x5000 = 0x9140 := by decide
  rw [hslot, sampleTables, wordAt_setWord_same]

theorem sampleTables_walk (slot : UInt64) :
    hardwareWalk (sampleTables slot) 0x1000 0x5000 = some 0x4028 := by
  have hpml4 : wordAt (sampleTables slot) 0x1000 0 = 0x2001 := by
    rw [sampleTables, wordAt_setWord_apart _ _ (by decide),
      wordAt_setWord_apart _ _ (by decide), wordAt_setWord_apart _ _ (by decide),
      wordAt_setWord_same]
  have hpdpt : wordAt (sampleTables slot) 0x2000 0 = 0x3001 := by
    rw [sampleTables, wordAt_setWord_apart _ _ (by decide),
      wordAt_setWord_apart _ _ (by decide), wordAt_setWord_same]
  have hpd : wordAt (sampleTables slot) 0x3000 0 = 0x4001 := by
    rw [sampleTables, wordAt_setWord_apart _ _ (by decide), wordAt_setWord_same]
  have hfirst : tableEntry .pml4 (0x1000 &&& kPhysicalMask) 0x5000 = 0x1000 := by decide
  have hsecond : tableEntry .pdpt (0x2001 &&& kPhysicalMask) 0x5000 = 0x2000 := by decide
  have hthird : tableEntry .pd (0x3001 &&& kPhysicalMask) 0x5000 = 0x3000 := by decide
  have hleaf : tableEntry .pt (0x4001 &&& kPhysicalMask) 0x5000 = 0x4028 := by decide
  rw [hardwareWalk, hfirst, nextTable_eq hpml4 (by decide) (by decide), Option.bind_eq_bind,
    Option.bind_some, hsecond, nextTable_eq hpdpt (by decide) (by decide), Option.bind_some,
    hthird, nextTable_eq hpd (by decide) (by decide), Option.bind_some, hleaf]
  rfl

theorem samplePaging_holds : SlotHoldsWalk (samplePaging 0x4028) 0x5000 1 := by
  intro leaf hwalk
  rw [samplePaging_memory, samplePaging_cr3, sampleTables_walk] at hwalk
  have hleaf := Option.some.inj hwalk
  rw [samplePaging_memory, samplePaging_cr3, ← hleaf]
  exact ⟨by decide, by decide, sampleTables_slot 0x4028⟩

/-- Where the slot happens to hold the address of the entry, the call agrees with the hardware. -/
theorem mapsAsHardware_sample : MapsAsHardware (samplePaging 0x4028) 0x5000 1 :=
  (mapsAsHardware_iff (samplePaging 0x4028) 0x5000 1 (by decide) (by decide)).1.mpr
    samplePaging_holds

/-- The slot is behind the tables; with a null word there the call maps nothing. -/
theorem mapsAsHardware_unmapped : hardwareWalk (samplePaging 0).memory (samplePaging 0).cr3 0x5000 =
    some 0x4028 ∧ ¬ MapsAsHardware (samplePaging 0) 0x5000 1 := by
  rw [samplePaging_memory, samplePaging_cr3]
  refine ⟨sampleTables_walk 0, fun hmaps => ?_⟩
  have hwalk : hardwareWalk (samplePaging 0).memory (samplePaging 0).cr3 0x5000 = some 0x4028 := by
    rw [samplePaging_memory, samplePaging_cr3, sampleTables_walk]
  obtain ⟨_, _, hword⟩ := (updatesLeaf_iff (by decide) (by decide)).mp (hmaps _ hwalk)
  rw [samplePaging_memory, samplePaging_cr3, sampleTables_slot] at hword
  exact absurd hword (by decide)

/-! ## The page store -/

inductive PagingOp where
  | mapPage (virtualAddress : VoidPtr) (flags : UInt32)
  | writeCr3 (cr3 : UInt64)
  deriving DecidableEq, Repr

namespace PagingState

def next (s : PagingState) : PagingOp → PagingState
  | .mapPage virtualAddress flags => (mmMapPage s virtualAddress flags).state
  | .writeCr3 cr3 => { s with cr3 := cr3 }

def uncached (s : PagingState) : PagingState := { s with pageStore := .empty }

/-- A call updates the entry, and leaves the memory, that it would with an empty page store. -/
def Agrees (s : PagingState) : PagingOp → Prop
  | .mapPage virtualAddress flags =>
    (mmMapPage s virtualAddress flags).invalidated =
      (mmMapPage s.uncached virtualAddress flags).invalidated ∧
    (mmMapPage s virtualAddress flags).state.memory =
      (mmMapPage s.uncached virtualAddress flags).state.memory
  | .writeCr3 _ => True

/-- When a call finds its address in the page store, the slot that CR3 now selects for the address
still holds the remembered entry. -/
def Fits (s : PagingState) : PagingOp → Prop
  | .mapPage virtualAddress flags => virtualAddress ≠ 0 → flags ≠ 0 →
    s.pageStore.fVAddr = virtualAddress →
      wordAt s.memory (entrySlot s.cr3 virtualAddress) 0 = s.pageStore.fPte
  | .writeCr3 _ => True

end PagingState

section Runs

variable {s : PagingState} {virtualAddress : VoidPtr} {flags : UInt32}

theorem chosenEntry_uncached (hva : virtualAddress ≠ 0) :
    chosenEntry s.uncached virtualAddress =
      wordAt s.memory (entrySlot s.cr3 virtualAddress) 0 :=
  if_neg fun hempty => hva hempty.symm

/-- Calls that choose the same entry do the same to the memory. -/
theorem mmMapPage_congr {t : PagingState} (hmemory : t.memory = s.memory)
    (hentry : chosenEntry t virtualAddress = chosenEntry s virtualAddress) :
    (mmMapPage s virtualAddress flags).invalidated = (mmMapPage t virtualAddress flags).invalidated ∧
      (mmMapPage s virtualAddress flags).state.memory =
        (mmMapPage t virtualAddress flags).state.memory := by
  by_cases hskip : virtualAddress = 0 ∨ flags = 0
  · rw [mmMapPage, if_pos hskip, mmMapPage, if_pos hskip]
    exact ⟨rfl, hmemory.symm⟩
  obtain ⟨hva, hflags⟩ := not_or.mp hskip
  by_cases hnull : chosenEntry s virtualAddress = 0
  · have hs := mmMapPage_null hva hflags hnull
    have ht := mmMapPage_null hva hflags (hentry.trans hnull)
    exact ⟨hs.1.trans ht.1.symm, by rw [hs.2, ht.2, hmemory]⟩
  · have hs := mmMapPage_updated hva hflags hnull
    have ht := mmMapPage_updated hva hflags (s := t) (hentry ▸ hnull)
    exact ⟨by rw [hs.1, ht.1, hentry], by rw [hs.2, ht.2, hentry, hmemory]⟩

theorem fits_slot (hfits : s.Fits (.mapPage virtualAddress flags)) (hva : virtualAddress ≠ 0)
    (hflags : flags ≠ 0) :
    wordAt s.memory (entrySlot s.cr3 virtualAddress) 0 = chosenEntry s virtualAddress := by
  rw [chosenEntry]
  split
  · rename_i hhit
    exact hfits hva hflags hhit
  · rfl

theorem agrees_iff_fits (s : PagingState) (op : PagingOp) : s.Agrees op ↔ s.Fits op := by
  cases op with
  | writeCr3 cr3 => exact Iff.rfl
  | mapPage virtualAddress flags =>
    constructor
    · intro hagrees hva hflags hhit
      have hchosen : chosenEntry s virtualAddress = s.pageStore.fPte := if_pos hhit
      have hslot := chosenEntry_uncached (s := s) hva
      have hsame := hagrees.1
      rw [← hchosen, ← hslot]
      by_cases hnull : chosenEntry s virtualAddress = 0
      · by_contra hne
        rw [(mmMapPage_null hva hflags hnull).1,
          (mmMapPage_updated hva hflags fun h => hne (h.trans hnull.symm)).1] at hsame
        cases hsame
      · rw [(mmMapPage_updated hva hflags hnull).1] at hsame
        by_cases hnull' : chosenEntry s.uncached virtualAddress = 0
        · rw [(mmMapPage_null hva hflags hnull').1] at hsame
          cases hsame
        · rw [(mmMapPage_updated hva hflags hnull').1] at hsame
          exact (Option.some.inj hsame).symm
    · intro hfits
      by_cases hskip : virtualAddress = 0 ∨ flags = 0
      · simp only [PagingState.Agrees, mmMapPage, if_pos hskip]
        exact ⟨trivial, rfl⟩
      obtain ⟨hva, hflags⟩ := not_or.mp hskip
      refine mmMapPage_congr rfl ?_
      rw [chosenEntry_uncached hva]
      exact fits_slot hfits hva hflags

/-- As long as CR3 stays, a second call for an address fits, unless the entry that the first one
updated lies over the slot. -/
theorem fits_again (hva : virtualAddress ≠ 0) (hflags : flags ≠ 0)
    (hfits : s.Fits (.mapPage virtualAddress flags)) (hentry : chosenEntry s virtualAddress ≠ 0)
    (hapart : (entrySlot s.cr3 virtualAddress).toNat + 8 ≤ (chosenEntry s virtualAddress).toNat ∨
      (chosenEntry s virtualAddress).toNat + 8 ≤ (entrySlot s.cr3 virtualAddress).toNat)
    (flags' : UInt32) :
    (s.next (.mapPage virtualAddress flags)).Fits (.mapPage virtualAddress flags') := by
  intro _ _ _
  obtain ⟨hcr3, hpte, _⟩ := mmMapPage_stored hva hflags hentry
  have hmemory := (mmMapPage_updated hva hflags hentry).2
  change wordAt (mmMapPage s virtualAddress flags).state.memory
    (entrySlot (mmMapPage s virtualAddress flags).state.cr3 virtualAddress) 0 = _
  rw [hcr3, hmemory, wordAt_setWord_apart]
  · exact (fits_slot hfits hva hflags).trans hpte.symm
  · simpa using hapart

private theorem runAgrees_core (s : PagingState) (ops : List PagingOp) :
    Along PagingState.next PagingState.Agrees s ops ↔
      Along PagingState.next PagingState.Fits s ops :=
  along_congr agrees_iff_fits s ops

/-- An address mapped again after CR3 has changed to a space whose slot holds another entry. -/
theorem switched_disagrees (hva : virtualAddress ≠ 0) (hflags : flags ≠ 0)
    (hentry : chosenEntry s virtualAddress ≠ 0) {cr3 : UInt64}
    (hslot : wordAt (mmMapPage s virtualAddress flags).state.memory
      (entrySlot cr3 virtualAddress) 0 ≠ chosenEntry s virtualAddress) :
    ¬ Along PagingState.next PagingState.Agrees s
      [.mapPage virtualAddress flags, .writeCr3 cr3, .mapPage virtualAddress flags] := by
  intro hrun
  obtain ⟨_, _, hfits, _⟩ := (runAgrees_core _ _).mp hrun
  obtain ⟨_, hpte, haddr⟩ := mmMapPage_stored hva hflags hentry
  exact hslot ((hfits hva hflags haddr).trans hpte)

/-- In a run every call agrees with the call on an empty page store exactly when every call that
finds its address in the store fits. -/
theorem runAgrees_iff (s : PagingState) (ops : List PagingOp) :
    Along PagingState.next PagingState.Agrees s ops ↔
      Along PagingState.next PagingState.Fits s ops :=
  runAgrees_core s ops

end Runs

/-- The slots of the address `0x5000` in the spaces `0x1000` and `0x2000` hold different entries. -/
def sampleSpaces : PagingState where
  memory := setWord (setWord (fun _ => 0) 0x9140 0 0xA000) 0x12140 0 0xB000
  cr3 := 0x1000
  pageStore := .empty

theorem sampleSpaces_slot : wordAt sampleSpaces.memory 0x9140 0 = 0xA000 := by
  have hmemory : sampleSpaces.memory =
      setWord (setWord (fun _ => 0) 0x9140 0 0xA000) 0x12140 0 0xB000 := rfl
  rw [hmemory, wordAt_setWord_apart _ _ (by decide), wordAt_setWord_same]

theorem sampleSpaces_other : wordAt sampleSpaces.memory 0x12140 0 = 0xB000 := by
  have hmemory : sampleSpaces.memory =
      setWord (setWord (fun _ => 0) 0x9140 0 0xA000) 0x12140 0 0xB000 := rfl
  rw [hmemory, wordAt_setWord_same]

theorem sampleSpaces_entry : chosenEntry sampleSpaces 0x5000 = 0xA000 := by
  have hslot : entrySlot sampleSpaces.cr3 0x5000 = 0x9140 := by decide
  have hmiss : ¬ sampleSpaces.pageStore.fVAddr = 0x5000 := by decide
  rw [chosenEntry, if_neg hmiss, hslot, sampleSpaces_slot]

/-- The second call updates the entry of the space that CR3 has left. -/
theorem runAgrees_switched : ¬ Along PagingState.next PagingState.Agrees sampleSpaces
    [.mapPage 0x5000 1, .writeCr3 0x2000, .mapPage 0x5000 1] := by
  have hne : chosenEntry sampleSpaces 0x5000 ≠ 0 := by
    rw [sampleSpaces_entry]
    decide
  have hslot : entrySlot 0x2000 0x5000 = 0x12140 := by decide
  have hmemory : (mmMapPage sampleSpaces 0x5000 1).state.memory = _ :=
    (mmMapPage_updated (by decide) (by decide) hne).2
  refine switched_disagrees (by decide) (by decide) hne ?_
  rw [hmemory, sampleSpaces_entry, hslot, wordAt_setWord_apart _ _ (by decide), sampleSpaces_other]
  decide

end Zka.HALKit
