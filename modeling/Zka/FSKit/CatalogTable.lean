import Zka.FSKit.Catalog

/-!
# The catalog table

The abstract content of a partition is the list of its catalog names in creation
order.  `Represents` ties a drive to such a list: name `k` is stored in slot `k`,
the slots behind are zero.  Against a represented table lookup, creation and
removal compute plain functions of the list.
-/

namespace Zka.FSKit

open NewKit Outcome

@[irreducible] def slotAt (k : Nat) : Lba := UInt64.ofNat (2560 + 2048 * k)

theorem slotAt_toNat {k : Nat} (h : 2560 + 2048 * k < 2 ^ 64) :
    (slotAt k).toNat = 2560 + 2048 * k := by
  simp only [slotAt, UInt64.toNat_ofNat']
  omega

theorem slotAt_zero : slotAt 0 = kNeFSCatalogStartAddress := by
  rw [slotAt]
  rfl

theorem slotAt_succ (k : Nat) : slotAt k + catalogStride = slotAt (k + 1) := by
  apply UInt64.toNat_inj.mp
  simp [slotAt, catalogStride, Nat.mul_add]
  omega

/-! ## Names -/

/-- A name is visible when it and every parent the code computes for it are listed. -/
inductive Visible (names : List (List UInt8)) : List UInt8 → Prop
  | root (h : kNeFSRoot ∈ names) : Visible names kNeFSRoot
  | child {name : List UInt8} (hroot : name ≠ kNeFSRoot) (hmem : name ∈ names)
      (hparent : Visible names (parentOf name)) : Visible names name

namespace Visible

variable {names more : List (List UInt8)} {name : List UInt8}

theorem mem (h : Visible names name) : name ∈ names := by
  cases h with
  | root h => exact h
  | child _ h _ => exact h

theorem parent (h : Visible names name) (hroot : name ≠ kNeFSRoot) :
    Visible names (parentOf name) := by
  cases h with
  | root => exact absurd rfl hroot
  | child _ _ h => exact h

theorem mono (hsub : names ⊆ more) (h : Visible names name) : Visible more name := by
  induction h with
  | root h => exact .root (hsub h)
  | child hroot hmem _ ih => exact .child hroot (hsub hmem) ih

/-- A longer name does not matter: only shorter parents are looked up. -/
theorem of_append {other : List UInt8} (hlen : name.length ≤ other.length) (hne : name ≠ other)
    (h : Visible (names ++ [other]) name) : Visible names name := by
  induction h with
  | root h =>
    simp only [List.mem_append, List.mem_singleton] at h
    exact .root (h.resolve_right hne)
  | @child name hroot hmem hparent ih =>
    simp only [List.mem_append, List.mem_singleton] at hmem
    have hname := hmem.resolve_right hne
    have hle := parentOf_length_le name
    refine .child hroot hname (ih (by omega) ?_)
    intro heq
    have hpre := parentOf_isStart name
    exact hne ((hpre.eq_of_length_le (heq ▸ hlen)).symm.trans heq)

end Visible

/-! ## Records -/

structure RecordAt (diskSize : SizeT) (k : Nat) (name : List UInt8) (c : NfsCatalogStruct) :
    Prop where
  nameText_eq : c.nameText = name
  flags_eq : c.flags ||| kNeFSFlagCreated = c.flags
  next_eq : c.nextSibling = slotAt (k + 1)
  prev_eq : ∃ j, (j < k ∨ k = 0 ∧ j = 0) ∧ c.prevSibling = slotAt j
  dataFork_eq : c.dataFork = if k = 0 then 0 else diskSize - slotAt k
  resourceFork_eq : c.resourceFork = c.dataFork
  kind_iff : c.kind = kNeFSCatalogKindDir ↔ name.getLast? = some kNeFSSeparator

theorem or_eq_created {x : UInt16} (h : x ||| kNeFSFlagCreated = x) : x &&& kNeFSFlagCreated ≠ 0 := by
  have ha : (x ||| kNeFSFlagCreated) &&& kNeFSFlagCreated = kNeFSFlagCreated := by
    apply UInt16.eq_of_toBitVec_eq
    ext i hi
    simp
    tauto
  rw [← h, ha]
  decide

theorem RecordAt.created {diskSize : SizeT} {k : Nat} {name : List UInt8} {c : NfsCatalogStruct}
    (h : RecordAt diskSize k name c) : c.Created :=
  or_eq_created h.flags_eq

theorem zero_not_created : ¬ NfsCatalogStruct.zero.Created := by decide

theorem zero_nameText : NfsCatalogStruct.zero.nameText = [] := by
  decide

/-- A partition of at least the minimal size, whose sectors have 512 bytes. -/
structure Geometry (part : NfsRootPartitionBlock) : Prop where
  start_eq : part.startCatalog = kNeFSCatalogStartAddress
  size_eq : part.diskSize.toNat = 512 * part.sectorCount.toNat
  minimum : kNeFSMinimumDiskSize ≤ part.diskSize

def NfsRootPartitionBlock.capacity (part : NfsRootPartitionBlock) : Nat :=
  part.sectorCount.toNat / 512 + 1

theorem Geometry.start_slot {part : NfsRootPartitionBlock} (h : Geometry part) :
    part.startCatalog = slotAt 0 :=
  h.start_eq.trans slotAt_zero.symm

theorem Geometry.slot_le {part : NfsRootPartitionBlock} (h : Geometry part) {k : Nat}
    (hk : k ≤ part.capacity + 1) : 2560 + 2048 * k + 512 ≤ part.diskSize.toNat := by
  have hs := h.size_eq
  have hm := UInt64.le_iff_toNat_le.mp h.minimum
  have hc : kNeFSMinimumDiskSize.toNat = 4294967296 := rfl
  simp only [NfsRootPartitionBlock.capacity] at hk
  omega

section Counters

variable {part : NfsRootPartitionBlock}

@[simp] theorem countCreated_capacity : part.countCreated.capacity = part.capacity := rfl

@[simp] theorem countCreated_diskSize : part.countCreated.diskSize = part.diskSize := rfl

@[simp] theorem countCreated_sectorCount : part.countCreated.sectorCount = part.sectorCount := rfl

@[simp] theorem countCreated_catalogCount :
    part.countCreated.catalogCount = part.catalogCount + 1 := rfl

@[simp] theorem countCreated_freeSectors :
    part.countCreated.freeSectors = part.freeSectors - 1 := rfl

@[simp] theorem countRemoved_capacity : part.countRemoved.capacity = part.capacity := rfl

@[simp] theorem countRemoved_catalogCount :
    part.countRemoved.catalogCount = part.catalogCount - 1 := rfl

@[simp] theorem countRemoved_diskSize : part.countRemoved.diskSize = part.diskSize := rfl

@[simp] theorem countRemoved_freeCatalog : part.countRemoved.freeCatalog = part.freeCatalog := rfl

theorem countCreated_freeCatalog (h : ¬ part.freeCatalog < 1) :
    part.countCreated.freeCatalog.toNat = part.freeCatalog.toNat - 1 := by
  have hle : (1 : UInt64) ≤ part.freeCatalog := UInt64.not_lt.mp h
  exact UInt64.toNat_sub_of_le _ _ hle

theorem Geometry.countCreated (h : Geometry part) : Geometry part.countCreated :=
  ⟨h.start_eq, h.size_eq, h.minimum⟩

theorem Geometry.countRemoved (h : Geometry part) : Geometry part.countRemoved :=
  ⟨h.start_eq, h.size_eq, h.minimum⟩

end Counters

/-- The drive stores the catalogs `names` in its first slots, and no others. -/
structure Represents (d : Drive) (names : List (List UInt8)) : Prop where
  geometry : Geometry d.part
  head_eq : names.head? = some kNeFSRoot
  nodup : names.Nodup
  resolves : ∀ name ∈ names, Resolves name
  record : ∀ k name, names[k]? = some name →
    RecordAt d.part.diskSize k name (d.catalog (slotAt k))
  zeroed : ∀ k, names.length ≤ k → k ≤ d.part.capacity → d.catalog (slotAt k) = .zero
  capacity_eq : names.length + d.part.freeCatalog.toNat = d.part.capacity

namespace Represents

variable {d : Drive} {names : List (List UInt8)} {name : List UInt8} {k : Nat}

theorem root_mem (h : Represents d names) : kNeFSRoot ∈ names :=
  List.mem_of_mem_head? h.head_eq

theorem length_pos (h : Represents d names) : 0 < names.length :=
  List.length_pos_of_mem h.root_mem

theorem length_le (h : Represents d names) : names.length ≤ d.part.capacity := by
  have hc := h.capacity_eq
  omega

theorem slot_toNat (h : Represents d names) (hk : k ≤ d.part.capacity + 1) :
    (slotAt k).toNat = 2560 + 2048 * k := by
  apply slotAt_toNat
  have hs := h.geometry.slot_le hk
  have hd := d.part.diskSize.toNat_lt
  omega

theorem slot_gt (h : Represents d names) (hk : k ≤ d.part.capacity + 1) :
    ¬ slotAt k ≤ kNeFSRootCatalogStartAddress := by
  rw [UInt64.le_iff_toNat_le, h.slot_toNat hk]
  simp [kNeFSRootCatalogStartAddress]
  omega

theorem record_of_lt (h : Represents d names) (hk : k < names.length) :
    RecordAt d.part.diskSize k names[k] (d.catalog (slotAt k)) :=
  h.record k _ (List.getElem?_eq_getElem hk)

/-- The table lies in the partition block and the slots; what is behind them does not matter. -/
theorem congr (h : Represents d names) {d' : Drive}
    (heq : ∀ x, 1024 ≤ x → x < 2560 + 2048 * d.part.capacity + 512 → d' x = d x) :
    Represents d' names := by
  have hlen := h.length_le
  have hpart : d'.part = d.part := Drive.part_congr fun x hx hlt => heq x hx (by omega)
  have hslot : ∀ k, k ≤ d.part.capacity → d'.catalog (slotAt k) = d.catalog (slotAt k) := by
    intro k hk
    have hk' := h.slot_toNat (show k ≤ d.part.capacity + 1 by omega)
    exact Drive.catalog_congr fun x hx hlt => heq x (by omega) (by omega)
  refine ⟨?_, h.head_eq, h.nodup, h.resolves, ?_, ?_, ?_⟩
  · rw [hpart]
    exact h.geometry
  · intro k name hk
    have hlt := (List.getElem?_eq_some_iff.mp hk).1
    rw [hpart, hslot k (by omega)]
    exact h.record k name hk
  · intro k hk hle
    rw [hpart] at hle
    rw [hslot k hle]
    exact h.zeroed k hk hle
  · rw [hpart]
    exact h.capacity_eq

/-! ## Lookup -/

private theorem body_next (h : Represents d names) (h0 : 0 ∉ name) (hne : name ≠ [])
    (hk : k < names.length) (hname : names[k]? ≠ some name) :
    searchBody d name (slotAt k) = .done (.inl (slotAt (k + 1))) := by
  have hr := h.record_of_lt hk
  have hdiff : ¬ equals name (d.catalog (slotAt k)).nameChars = true := by
    rw [equals_iff h0 hne]
    intro heq
    apply hname
    rw [List.getElem?_eq_getElem hk, ← hr.nameText_eq]
    exact congrArg some heq
  have hgt := h.slot_gt (show k + 1 ≤ d.part.capacity + 1 by have := h.length_le; omega)
  simp only [searchBody, hdiff, hr.next_eq, hgt, Bool.false_eq_true, false_and, if_false]

private theorem body_found (h : Represents d names) (h0 : 0 ∉ name) (hne : name ≠ [])
    (hname : names[k]? = some name) :
    searchBody d name (slotAt k) = .done (.inr (some (d.catalog (slotAt k), slotAt k))) := by
  have hr := h.record k name hname
  have heq : equals name (d.catalog (slotAt k)).nameChars = true :=
    (equals_iff h0 hne _).mpr hr.nameText_eq
  simp only [searchBody, heq, hr.created, and_self, if_true]

private theorem body_end (h : Represents d names) :
    searchBody d name (slotAt names.length) = .done (.inr none) := by
  have hz := h.zeroed _ le_rfl h.length_le
  have hnc : ¬ NfsCatalogStruct.zero.Created := zero_not_created
  simp only [searchBody, hz, hnc, and_false, if_false]
  rw [if_pos]
  exact UInt64.le_iff_toNat_le.mpr (Nat.zero_le _)

/-- The walk from slot `j` finds the name wherever it stands from there on. -/
theorem search_found (h : Represents d names) (h0 : 0 ∉ name) (hne : name ≠ []) {j : Nat}
    (hjk : j ≤ k) (hname : names[k]? = some name) {fuel : Nat} (hfuel : names.length < fuel) :
    searchCatalogList fuel d name (slotAt j) =
      .done (some (d.catalog (slotAt k), slotAt k)) := by
  obtain ⟨hk, hget⟩ := List.getElem?_eq_some_iff.mp hname
  apply whileLoop_walk hjk
  · intro i _ hik
    apply h.body_next h0 hne (by omega)
    intro hi
    obtain ⟨hil, hig⟩ := List.getElem?_eq_some_iff.mp hi
    have heq := (List.Nodup.getElem_inj_iff h.nodup).mp (hig.trans hget.symm)
    omega
  · exact h.body_found h0 hne hname
  · omega

/-- The walk ends at the first unused slot when the name is not ahead. -/
theorem search_missing (h : Represents d names) (h0 : 0 ∉ name) (hne : name ≠ []) {j : Nat}
    (hj : j ≤ names.length) (hname : ∀ i, j ≤ i → names[i]? ≠ some name) {fuel : Nat}
    (hfuel : names.length < fuel) : searchCatalogList fuel d name (slotAt j) = .done none := by
  apply whileLoop_walk hj
  · intro i hji hin
    exact h.body_next h0 hne hin (hname i hji)
  · exact h.body_end
  · omega

end Represents

theorem equals_root_iff {name : List UInt8} (h0 : 0 ∉ name) :
    equals name kNeFSRoot = true ↔ name = kNeFSRoot := by
  rw [equals_comm, equals_text_iff (by decide) (by decide) h0]

open Classical in
/-- What `FindCatalog` answers for a name whose parents can be computed. -/
noncomputable def findReply (d : Drive) (names : List (List UInt8)) (name : List UInt8) :
    Option NfsCatalogStruct × Lba :=
  if Visible names name then
    (some (d.catalog (slotAt (names.idxOf name))), slotAt (names.idxOf name))
  else (none, 0)

theorem findReply_visible {d : Drive} {names : List (List UInt8)} {name : List UInt8}
    (h : Visible names name) : findReply d names name =
      (some (d.catalog (slotAt (names.idxOf name))), slotAt (names.idxOf name)) :=
  if_pos h

theorem findReply_hidden {d : Drive} {names : List (List UInt8)} {name : List UInt8}
    (h : ¬ Visible names name) : findReply d names name = (none, 0) :=
  if_neg h

namespace Represents

variable {d : Drive} {names : List (List UInt8)} {name : List UInt8}

theorem getElem?_idxOf (hmem : name ∈ names) : names[names.idxOf name]? = some name := by
  have hlt := List.idxOf_lt_length_iff.mpr hmem
  rw [List.getElem?_eq_getElem hlt, List.getElem_idxOf]

private theorem search_ahead (h : Represents d names) (h0 : 0 ∉ name) (hne : name ≠ []) {j : Nat}
    (hj : j ≤ names.length) {fuel : Nat} (hfuel : names.length < fuel) :
    searchCatalogList fuel d name (slotAt j) = .done none ∨
      name ∈ names ∧ searchCatalogList fuel d name (slotAt j) =
        .done (some (d.catalog (slotAt (names.idxOf name)), slotAt (names.idxOf name))) := by
  by_cases hmem : name ∈ names
  · have hget := getElem?_idxOf hmem
    by_cases hjk : j ≤ names.idxOf name
    · exact Or.inr ⟨hmem, h.search_found h0 hne hjk hget hfuel⟩
    · refine Or.inl (h.search_missing h0 hne hj ?_ hfuel)
      intro i hji hi
      obtain ⟨hil, hig⟩ := List.getElem?_eq_some_iff.mp hi
      obtain ⟨hkl, hkg⟩ := List.getElem?_eq_some_iff.mp hget
      have heq := (List.Nodup.getElem_inj_iff h.nodup).mp (hig.trans hkg.symm)
      omega
  · exact Or.inl (h.search_missing h0 hne hj (fun i _ hi => hmem (List.mem_of_getElem? hi)) hfuel)

private theorem search_whole (h : Represents d names) (h0 : 0 ∉ name) (hne : name ≠ [])
    {fuel : Nat} (hfuel : names.length < fuel) :
    (searchCatalogList fuel d name (slotAt 0) >>= fun r => Outcome.done (foundOrNull r)) =
      .done (if name ∈ names then
        (some (d.catalog (slotAt (names.idxOf name))), slotAt (names.idxOf name))
      else (none, 0)) := by
  by_cases hmem : name ∈ names
  · rw [h.search_found h0 hne (Nat.zero_le _) (getElem?_idxOf hmem) hfuel, if_pos hmem]
    rfl
  · rw [h.search_missing h0 hne (Nat.zero_le _)
      (fun i _ hi => hmem (List.mem_of_getElem? hi)) hfuel, if_neg hmem]
    rfl

theorem record_idxOf (h : Represents d names) (hmem : name ∈ names) :
    RecordAt d.part.diskSize (names.idxOf name) name (d.catalog (slotAt (names.idxOf name))) :=
  h.record _ _ (getElem?_idxOf hmem)

/-- `FindCatalog` returns on every name whose parents can be computed, with the answer read off
the list of names. -/
theorem findCatalog_eq (h : Represents d names) (hname : Resolves name) {fuel : Nat}
    (hfuel : name.length + names.length < fuel) :
    findCatalog fuel d name = .done (findReply d names name) := by
  have hstart := h.geometry.start_slot
  induction hname generalizing fuel with
  | root =>
    obtain ⟨fuel, rfl⟩ := Nat.exists_eq_succ_of_ne_zero (show fuel ≠ 0 by omega)
    have hlen : kNeFSRoot.length = 1 := rfl
    rw [findCatalog, if_pos (equals_self _), hstart, h.search_whole (by decide) (by decide) (by omega),
      if_pos h.root_mem, findReply_visible (.root h.root_mem)]
  | @child name h0 hroot hlen hsep hparent ih =>
    obtain ⟨fuel, rfl⟩ := Nat.exists_eq_succ_of_ne_zero (show fuel ≠ 0 by omega)
    have hres : Resolves name := .child h0 hroot hlen hsep hparent
    have hne := hres.ne_nil
    have hpne := hparent.ne_nil
    have hple := parentOf_length_le name
    have hpos := List.length_pos_iff.mpr hne
    have hnot : ¬ equals name kNeFSRoot = true := mt (equals_root_iff h0).mp hroot
    rw [findCatalog, if_neg hnot, hres.parentName_done hroot, done_bind, ih (by omega), done_bind,
      hstart]
    by_cases hv : Visible names (parentOf name)
    · have hiff : Visible names name ↔ name ∈ names := ⟨Visible.mem, fun hm => .child hroot hm hv⟩
      have hrec := h.record_idxOf hv.mem
      have hidx := List.idxOf_lt_length_iff.mpr hv.mem
      rw [findReply_visible hv]
      dsimp only
      have hreply : (if name ∈ names then
          (some (d.catalog (slotAt (names.idxOf name))), slotAt (names.idxOf name))
        else (none, 0)) = findReply d names name := by
        simp only [findReply, hiff]
      rw [hrec.next_eq, h.search_whole h0 hne (by omega), hreply]
      split
      · rfl
      · rcases h.search_ahead h0 hne (show names.idxOf (parentOf name) + 1 ≤ names.length by omega)
          (show names.length < fuel by omega) with hs | ⟨hmem, hs⟩
        · rw [hs]
          rfl
        · rw [hs, findReply_visible (hiff.mpr hmem)]
          rfl
    · rw [findReply_hidden hv, findReply_hidden fun hn => hv (hn.parent hroot)]

end Represents

/-- Lookup only ever returns on names whose parents can all be computed. -/
theorem findCatalog_resolves {d : Drive} {name : List UInt8} {fuel : Nat}
    {r : Option NfsCatalogStruct × Lba} (h0 : 0 ∉ name) (h : findCatalog fuel d name = .done r) :
    Resolves name := by
  induction fuel generalizing name r with
  | zero => simp [findCatalog] at h
  | succ fuel ih =>
    by_cases hroot : name = kNeFSRoot
    · rw [hroot]
      exact .root
    · rw [findCatalog, if_neg (mt (equals_root_iff h0).mp hroot), bind_eq_done] at h
      obtain ⟨parent, hp, h⟩ := h
      rw [parentName_eq h0] at hp
      split at hp
      · rename_i hcond
        cases hp
        rw [bind_eq_done] at h
        obtain ⟨reply, hreply, _⟩ := h
        exact .child h0 hroot hcond.1 hcond.2 (ih (zero_notMem_parentOf h0) hreply)
      · cases hp

end Zka.FSKit
