import Zka.Framework.Frame
import Zka.FSKit.CatalogRun

/-!
# What `CreateCatalog` changes

The frame of `CreateCatalog` on any drive, also one that no formatter and no run
of the file system has made: a call that gives nothing new changes no byte, and a
call that creates a catalog changes its slot and three counters.
-/

namespace Zka.FSKit

open NewKit Outcome Store

/-! ## The counters of the partition block -/

/-- `CatalogCount`, `FreeCatalog` and `FreeSectors` of the partition block. -/
def counterFields : List Extent := [⟨1024 + 56, 8⟩, ⟨1024 + 72, 8⟩, ⟨1024 + 80, 8⟩]

/-- The other fields of the block keep their bytes. -/
theorem partLayout_countCreated (part : NfsRootPartitionBlock) {i : Nat} (hi : i < 512)
    (h : i < 56 ∨ 64 ≤ i ∧ i < 72 ∨ 88 ≤ i) :
    partLayout part.countCreated ⟨i, hi⟩ = partLayout part ⟨i, hi⟩ := by
  rw [partLayout, Layout.map_apply, Layout.map_apply, Layout.cast_apply, Layout.cast_apply,
    Fin.cast_mk]
  -- the fields in their order, up to the last one that is counted
  refine Layout.append_agree (fun _ => rfl) fun _ _ => ?_
  refine Layout.append_agree (fun _ => rfl) fun _ _ => ?_
  refine Layout.append_agree (fun _ => rfl) fun _ _ => ?_
  refine Layout.append_agree (fun _ => rfl) fun _ _ => ?_
  refine Layout.append_agree (fun _ => rfl) fun _ _ => ?_
  refine Layout.append_agree (fun _ => by omega) fun _ _ => ?_
  refine Layout.append_agree (fun _ => rfl) fun _ _ => ?_
  refine Layout.append_agree (fun _ => by omega) fun _ _ => ?_
  refine Layout.append_agree (fun _ => by omega) fun _ _ => ?_
  rfl

theorem countCreated_only (d : Drive) :
    ChangesOnly counterFields d (d.putPart d.part.countCreated) := by
  intro x hx
  by_cases hin : 1024 ≤ x ∧ x < 1536
  · have hfield : x - 1024 < 56 ∨ 64 ≤ x - 1024 ∧ x - 1024 < 72 ∨ 88 ≤ x - 1024 := by
      simp [counterFields, Extent.mem_addresses] at hx
      omega
    have hsame : d.putPart d.part = d := by
      unfold Drive.part
      exact put_get partLayout d _
    have hstart : kNeFSRootCatalogStartAddress.toNat = 1024 := rfl
    have hbyte : ∀ part, d.putPart part x = partLayout part ⟨x - 1024, by omega⟩ := by
      intro part
      rw [Drive.putPart, hstart, Store.put, Store.write, dif_pos ⟨hin.1, by omega⟩]
    rw [hbyte, partLayout_countCreated _ _ hfield, ← hbyte, hsame]
  · exact Drive.putPart_outside _ (by omega)

/-! ## Lookups and walks answer with what is on the drive -/

def OnDrive (d : Drive) (catalog : NfsCatalogStruct) : Prop :=
  ∃ lba, catalog = d.catalog lba ∧ catalog.Created

def FoundOnDrive (d : Drive) (found : Option (NfsCatalogStruct × Lba)) : Prop :=
  ∀ f ∈ found, OnDrive d f.1

theorem search_onDrive {fuel : Nat} {d : Drive} {name : List UInt8} {start : Lba}
    {found : Option (NfsCatalogStruct × Lba)}
    (h : searchCatalogList fuel d name start = .done found) : FoundOnDrive d found := by
  apply whileLoop_invariant (fun _ => True) (FoundOnDrive d) (fun _ _ _ _ => trivial) _ trivial h
  intro start found _ hbody
  rw [searchBody] at hbody
  split_ifs at hbody with hname
  · cases hbody
    intro f hf
    cases hf
    exact ⟨start, rfl, hname.2⟩
  · cases hbody
    intro f hf
    cases hf
  · cases hbody

theorem foundOrNull_onDrive {fuel : Nat} {d : Drive} {name : List UInt8} {start lba : Lba}
    {catalog : NfsCatalogStruct}
    (h : (searchCatalogList fuel d name start >>= fun r => .done (foundOrNull r)) =
      .done (some catalog, lba)) : OnDrive d catalog := by
  rw [bind_eq_done] at h
  obtain ⟨r, hsearch, hr⟩ := h
  cases r with
  | none => simp [foundOrNull] at hr
  | some found =>
    simp only [foundOrNull, done.injEq, Prod.mk.injEq, Option.some.injEq] at hr
    rw [← hr.1]
    exact search_onDrive hsearch found rfl

theorem findCatalog_onDrive {fuel : Nat} {d : Drive} {name : List UInt8} {lba : Lba}
    {catalog : NfsCatalogStruct} (h : findCatalog fuel d name = .done (some catalog, lba)) :
    OnDrive d catalog := by
  cases fuel with
  | zero => simp [findCatalog] at h
  | succ fuel =>
    rw [findCatalog] at h
    split at h
    · exact foundOrNull_onDrive h
    · rw [bind_eq_done] at h
      obtain ⟨parent, -, h⟩ := h
      rw [bind_eq_done] at h
      obtain ⟨reply, -, h⟩ := h
      obtain ⟨parentCatalog | parentCatalog, outLba⟩ := reply
      · simp at h
      · dsimp only at h
        split at h
        · exact foundOrNull_onDrive h
        · rw [bind_eq_done] at h
          obtain ⟨r, hsearch, h⟩ := h
          cases r with
          | none => exact foundOrNull_onDrive h
          | some found =>
            simp only [foundOrNull, done.injEq, Prod.mk.injEq, Option.some.injEq] at h
            rw [← h.1]
            exact search_onDrive hsearch found rfl

def SlotExit.Sound (d : Drive) : SlotExit → Prop
  | .badLink => True
  | .free slot => ¬ (d.catalog slot).Created
  | .existing catalog => OnDrive d catalog

theorem slotWalk_sound {fuel : Nat} {d : Drive} {name : List UInt8} {start : Lba} {e : SlotExit}
    (h : whileLoop (slotBody d name) fuel start = .done e) : e.Sound d := by
  apply whileLoop_invariant (fun _ => True) _ (fun _ _ _ _ => trivial) _ trivial h
  intro slot e _ hbody
  rw [slotBody] at hbody
  split_ifs at hbody with hbad hcreated hname
  · cases hbody
    trivial
  · cases hbody
    exact ⟨slot, rfl, hcreated⟩
  · cases hbody
  · cases hbody
    exact hcreated

/-! ## Creation -/

def slotExtent (slot : Lba) : Extent := ⟨slot.toNat, 512⟩

def partExtent : Extent := ⟨1024, 512⟩

structure CatalogWritten (d : Drive) (slot : Lba) (d' : Drive) : Prop where
  unused : ¬ (d.catalog slot).Created
  frame : ChangesOnly (slotExtent slot :: counterFields) d d'
  catalogCount : (slotExtent slot).Apart partExtent →
    d'.part.catalogCount = d.part.catalogCount + 1
  freeCatalog : (slotExtent slot).Apart partExtent →
    d'.part.freeCatalog = d.part.freeCatalog - 1
  freeSectors : (slotExtent slot).Apart partExtent →
    d'.part.freeSectors = d.part.freeSectors - 1

/-- Nothing was written, and what is returned is on the drive. -/
structure CatalogKept (d : Drive) (r : CatalogReply) : Prop where
  slot : r.slot = none
  drive : r.drive = d
  found : ∀ catalog, r.ptr = some catalog → OnDrive d catalog

theorem CatalogKept.null (d : Drive) : CatalogKept d (.null d) :=
  ⟨rfl, rfl, fun _ h => by cases h⟩

/-- A record that was not on the drive is returned, and has been written to a slot. -/
structure CatalogMade (d : Drive) (r : CatalogReply) : Prop where
  ptr : r.ptr.isSome
  slot : ∃ slot, r.slot = some slot ∧ CatalogWritten d slot r.drive

theorem catalogWritten (d : Drive) (slot : Lba) (child : NfsCatalogStruct)
    (hfree : ¬ (d.catalog slot).Created) :
    CatalogWritten d slot
      ((d.putCatalog slot child).putPart (d.putCatalog slot child).part.countCreated) := by
  have hslot : ChangesOnly [slotExtent slot] d (d.putCatalog slot child) :=
    ChangesOnly.put catalogLayout d _ child
  have hpart : (slotExtent slot).Apart partExtent →
      (d.putCatalog slot child).part = d.part := by
    intro hapart
    unfold Drive.part
    apply hslot.get partLayout
    intro e he
    rw [List.mem_singleton.mp he]
    exact hapart.symm
  constructor
  · exact hfree
  · exact hslot.trans (countCreated_only _)
  · intro hapart
    rw [Drive.part_putPart, hpart hapart]
    rfl
  · intro hapart
    rw [Drive.part_putPart, hpart hapart]
    rfl
  · intro hapart
    rw [Drive.part_putPart, hpart hapart]
    rfl

theorem allocateCatalog_frame (d : Drive) (child : NfsCatalogStruct) (parent : List UInt8)
    (slot : Lba) (hfree : ¬ (d.catalog slot).Created) :
    CatalogKept d (allocateCatalog d child parent slot) ∨
      CatalogMade d (allocateCatalog d child parent slot) := by
  rw [allocateCatalog]
  split
  · exact Or.inl (.null d)
  · right
    constructor
    · rfl
    · exact ⟨slot, rfl, catalogWritten d slot _ hfree⟩

theorem createUnder_frame {fuel : Nat} {d : Drive} {name parent : List UInt8}
    {flags kind : Int32} {outLba : Lba} {r : CatalogReply}
    (h : createUnder fuel d name parent flags kind outLba = .done r) :
    CatalogKept d r ∨ CatalogMade d r := by
  rw [createUnder, bind_eq_done] at h
  obtain ⟨e, hwalk, hr⟩ := h
  have hsound := slotWalk_sound hwalk
  cases e with
  | badLink =>
    cases hr
    exact Or.inl (.null d)
  | existing catalog =>
    cases hr
    left
    constructor
    · rfl
    · rfl
    · intro found h
      cases h
      exact hsound
  | free slot =>
    cases hr
    exact allocateCatalog_frame d _ parent slot hsound

/-- A call on any drive that returns has either written nothing, and returns null or a catalog of the
drive, or it returns a new catalog, and has written its slot and counted it. -/
theorem createCatalog_frame {fuel : Nat} {d : Drive} {name : List UInt8} {flags kind : Int32}
    {r : CatalogReply} (h : createCatalog fuel d name flags kind = .done r) :
    CatalogKept d r ∨ CatalogMade d r := by
  rw [createCatalog] at h
  split at h
  · cases h
    exact Or.inl (.null d)
  · rw [bind_eq_done] at h
    obtain ⟨reply, hfind, h⟩ := h
    obtain ⟨catalog | catalog, lba⟩ := reply
    · dsimp only at h
      split at h
      · cases h
        exact Or.inl ⟨rfl, rfl, fun catalog h => by cases h⟩
      · rw [bind_eq_done] at h
        obtain ⟨parent, -, h⟩ := h
        rw [bind_eq_done] at h
        obtain ⟨reply, -, h⟩ := h
        obtain ⟨parentCatalog | parentCatalog, outLba⟩ := reply
        · exact createUnder_frame h
        · dsimp only at h
          split at h
          · cases h
            exact Or.inl (.null d)
          · exact createUnder_frame h
    · cases h
      left
      constructor
      · rfl
      · rfl
      · intro found hfound
        cases hfound
        exact findCatalog_onDrive hfind

/-- A directory made on the drive of the boot loader. -/
theorem createCatalog_frame_boot : ∃ fuel r, r.slot = some (slotAt 1) ∧
    createCatalog fuel bootDrive sampleDir 0 kNeFSCatalogKindDir = .done r ∧
    (CatalogKept bootDrive r ∨ CatalogMade bootDrive r) := by
  obtain ⟨c, _, _, fuel, hc⟩ := bootDrive_formatted.represents.yields_createCatalog
    sampleDir_valid.resolves 0 kNeFSCatalogKindDir (by decide) (by decide)
    bootDrive_formatted.free
  exact ⟨fuel, _, rfl, hc, createCatalog_frame hc⟩

end Zka.FSKit
