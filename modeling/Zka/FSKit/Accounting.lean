import Zka.FSKit.CatalogRun

/-!
# Counters of the partition block

`CatalogCount`, `FreeCatalog` and `FreeSectors` along runs from the two
formatters.
-/

namespace Zka.FSKit

open NewKit Outcome

/-- The kernel's formatter has written its block and no catalog. -/
def CatalogState.kernel (d : Drive) : CatalogState := ⟨d, [], [], 0⟩

inductive FormatStart : CatalogState → Prop
  | boot {blobCount : SizeT} {d : Drive} (h : BootFormatted blobCount d) : FormatStart (.boot d)
  | kernel {d : Drive} (h : KernelFormatted d) : FormatStart (.kernel d)

/-- The counters agree with what was done since `start`.  The equations are between natural
numbers, so neither of the free counters has passed below zero. -/
structure Accounting (start s : CatalogState) : Prop where
  catalogCount_eq : s.drive.part.catalogCount.toNat = s.live.length
  sum_eq : s.drive.part.catalogCount.toNat + s.drive.part.freeCatalog.toNat =
    start.drive.part.catalogCount.toNat + start.drive.part.freeCatalog.toNat
  freeCatalog_eq : s.drive.part.freeCatalog.toNat + s.created.length =
    start.drive.part.freeCatalog.toNat + start.created.length
  freeSectors_eq : s.drive.part.freeSectors.toNat + s.created.length =
    start.drive.part.freeSectors.toNat + start.created.length + s.removals

/-- The formatter counted the catalogs it wrote: the one root of the boot loader, or none on a
partition too small for a single catalog. -/
inductive CountedStart : CatalogState → Prop
  | boot {d : Drive} (h : BootFormatted 1 d) : CountedStart (.boot d)
  | kernel {d : Drive} (h : KernelFormatted d) (hsmall : d.part.sectorCount < 512) :
      CountedStart (.kernel d)

/-- No removal meets a catalog. -/
def CatalogOp.KeepsCatalogs (s : CatalogState) : CatalogOp → Prop
  | create _ _ _ => True
  | remove name => name = kNeFSRoot ∨ ¬ Visible s.names name

private structure BootAccounts (start s : CatalogState) : Prop where
  table : TableInv s
  accounting : Accounting start s
  live_eq : s.live.length = s.created.length
  removals_eq : s.removals = 0
  sectors_le : s.drive.part.sectorCount.toNat + 1 ≤
    s.drive.part.freeSectors.toNat + s.created.length

private theorem BootAccounts.start {d : Drive} (h : BootFormatted 1 d) :
    BootAccounts (.boot d) (.boot d) where
  table := TableInv.boot h
  accounting :=
    { catalogCount_eq := congrArg UInt64.toNat h.catalogCount_eq
      sum_eq := rfl
      freeCatalog_eq := rfl
      freeSectors_eq := rfl }
  live_eq := rfl
  removals_eq := rfl
  sectors_le := by
    have hf := congrArg UInt64.toNat h.freeSectors_eq
    change _ ≤ d.part.freeSectors.toNat + 1
    rw [hf]
    exact le_rfl

private theorem toNat_sub_one {x : UInt64} (h : 1 ≤ x.toNat) : (x - 1).toNat = x.toNat - 1 :=
  UInt64.toNat_sub_of_le _ _ (UInt64.le_iff_toNat_le.mpr h)

private theorem toNat_add_one {x : UInt64} (h : x.toNat + 1 < 2 ^ 64) :
    (x + 1).toNat = x.toNat + 1 := by
  rw [UInt64.toNat_add]
  exact Nat.mod_eq_of_lt h

private theorem toNat_sub_one_ne {x : UInt64} : (x - 1).toNat ≠ x.toNat := by
  intro h
  have heq : x - 1 = x := UInt64.toNat_inj.mp h
  rw [UInt64.sub_eq_iff_eq_add] at heq
  simp at heq

private theorem removed_sum {part : NfsRootPartitionBlock} {n : Nat}
    (h : part.catalogCount.toNat + part.freeCatalog.toNat = n) :
    part.countRemoved.catalogCount.toNat + part.countRemoved.freeCatalog.toNat ≠ n := by
  intro hr
  rw [countRemoved_catalogCount, countRemoved_freeCatalog] at hr
  exact toNat_sub_one_ne (Nat.add_right_cancel (hr.trans h.symm))

private theorem BootAccounts.step {start s t : CatalogState} {op : CatalogOp}
    (h : BootAccounts start s) (hop : op.KeepsCatalogs s) (hs : CatalogStep s op t) :
    BootAccounts start t := by
  have htable := h.table.step hs
  have hrep := h.table.represents
  cases hs with
  | @create name flags kind r h0 hr =>
    cases hrep.createCatalog_cases h0 hr with
    | refused =>
      refine ⟨htable, ?_, ?_, h.removals_eq, ?_⟩
      · simpa [CatalogState.afterCreate, CatalogReply.null] using h.accounting
      · simpa [CatalogState.afterCreate, CatalogReply.null] using h.live_eq
      · simpa [CatalogState.afterCreate, CatalogReply.null] using h.sectors_le
    | existing =>
      refine ⟨htable, ?_, ?_, h.removals_eq, ?_⟩
      · simpa [CatalogState.afterCreate] using h.accounting
      · simpa [CatalogState.afterCreate] using h.live_eq
      · simpa [CatalogState.afterCreate] using h.sectors_le
    | created hname hfit hnew hfree c hkind hrec =>
      have hpart : ((s.drive.putCatalog (slotAt s.names.length) c).putPart
          s.drive.part.countCreated).part = s.drive.part.countCreated := Drive.part_putPart _ _
      have hcap := hrep.capacity_eq
      have hle := hrep.geometry.slot_le (k := s.drive.part.capacity) (by omega)
      have hdisk := s.drive.part.diskSize.toNat_lt
      have hsize := hrep.geometry.size_eq
      have hmin := UInt64.le_iff_toNat_le.mp hrep.geometry.minimum
      have hmin' : kNeFSMinimumDiskSize.toNat = 4294967296 := rfl
      have hlen := TableInv.length_names s
      have hfree' : 1 ≤ s.drive.part.freeCatalog.toNat :=
        UInt64.le_iff_toNat_le.mp (UInt64.not_lt.mp hfree)
      have hcount := h.accounting.catalogCount_eq
      have hlive := h.live_eq
      have hsectors := h.sectors_le
      have hcapacity : s.drive.part.capacity = s.drive.part.sectorCount.toNat / 512 + 1 := rfl
      have hc := toNat_add_one (x := s.drive.part.catalogCount) (by omega)
      have hs := toNat_sub_one (x := s.drive.part.freeSectors) (by omega)
      have hsum := h.accounting.sum_eq
      have hfc := h.accounting.freeCatalog_eq
      have hfs := h.accounting.freeSectors_eq
      simp only [CatalogState.afterCreate, Option.map_some, Option.toList_some] at htable ⊢
      refine ⟨htable, ⟨?_, ?_, ?_, ?_⟩, ?_, h.removals_eq, ?_⟩
      · rw [hpart, countCreated_catalogCount, hc, List.length_append, List.length_singleton]
        omega
      · rw [hpart, countCreated_catalogCount, hc, countCreated_freeCatalog hfree]
        omega
      · rw [hpart, countCreated_freeCatalog hfree, List.length_append, List.length_singleton]
        omega
      · rw [hpart, countCreated_freeSectors, hs, List.length_append, List.length_singleton]
        dsimp only
        omega
      · rw [List.length_append, List.length_append, List.length_singleton, List.length_singleton]
        omega
      · rw [hpart, countCreated_sectorCount, countCreated_freeSectors, hs, List.length_append,
          List.length_singleton]
        omega
  | @remove name r h0 hr =>
    rcases hrep.removeCatalog_cases h0 hr with ⟨_, rfl⟩ | ⟨hroot, hv, _⟩
    · exact ⟨htable, h.accounting, h.live_eq, h.removals_eq, h.sectors_le⟩
    · rcases hop with hr' | hhidden
      · exact absurd hr' hroot
      · exact absurd hv hhidden

/-- On a partition of the kernel's formatter no call changes anything. -/
private theorem kernel_step {d : Drive} (h : KernelFormatted d) {t : CatalogState} {op : CatalogOp}
    (hs : CatalogStep (.kernel d) op t) : t = .kernel d := by
  cases hs with
  | @create name flags kind r h0 hr =>
    obtain ⟨fuel, hfuel⟩ := hr
    obtain ⟨hdrive, hslot⟩ := h.createCatalog_null h0 hfuel
    simp [CatalogState.afterCreate, CatalogState.kernel, hdrive, hslot]
  | @remove name r h0 hr =>
    obtain ⟨fuel, hfuel⟩ := hr
    rw [h.removeCatalog_refused h0 hfuel]
    rfl

/-- A formatter that did not count its catalogs has the counters wrong from the start. -/
theorem FormatStart.counted {start : CatalogState} (hstart : FormatStart start)
    (h : Accounting start start) : CountedStart start := by
  cases hstart with
  | @boot blobCount d hd =>
    have hone : blobCount = 1 := by
      have hcount := h.catalogCount_eq
      rw [show CatalogState.drive (.boot d) = d from rfl, hd.catalogCount_eq] at hcount
      exact UInt64.toNat_inj.mp hcount
    subst hone
    exact .boot hd
  | @kernel d hd =>
    refine .kernel hd ?_
    have hcount := h.catalogCount_eq
    have h512 : (512 : UInt64).toNat = 512 := rfl
    rw [show CatalogState.drive (.kernel d) = d from rfl, hd.catalogCount_eq, UInt64.toNat_div,
      h512] at hcount
    change d.part.sectorCount.toNat / 512 = 0 at hcount
    rw [UInt64.lt_iff_toNat_lt, h512]
    omega

/-- A removal that succeeds takes one from `CatalogCount` and gives nothing to `FreeCatalog`. -/
theorem removal_uncounted {start s t : CatalogState} {name : List UInt8}
    (htable : Represents s.drive s.names) (h : Accounting start s)
    (hs : CatalogStep s (.remove name) t) (hop : ¬ CatalogOp.KeepsCatalogs s (.remove name)) :
    ¬ Accounting start t := by
  cases hs with
  | @remove name r h0 hr =>
    rcases htable.removeCatalog_cases h0 hr with ⟨hroot, _⟩ | ⟨_, _, rfl⟩
    · exact absurd (Or.inl hroot) hop
    · intro ht
      have hpart : (s.afterRemove name ⟨true, none, s.drive.putPart s.drive.part.countRemoved⟩
          ).drive.part = s.drive.part.countRemoved := Drive.part_putPart _ _
      have hsum := ht.sum_eq
      rw [hpart] at hsum
      exact removed_sum h.sum_eq hsum

end Zka.FSKit
