import Zka.FSKit.CatalogTable

/-!
# Updates of the catalog table

Against a represented table `CreateCatalog` either refuses, meets the name, or
appends it; `RemoveCatalog` leaves the table and moves two counters.
-/

namespace Zka.FSKit

open NewKit Outcome

/-! ## Creation -/

theorem kindFits_iff {name : List UInt8} (h0 : 0 ∉ name) (hne : name ≠ []) (kind : Int32) :
    KindFits name kind ↔ (kind = kNeFSCatalogKindDir ↔ name.getLast? = some kNeFSSeparator) := by
  have hpos := List.length_pos_iff.mpr hne
  rw [KindFits, rtStringLen_text h0 hne, List.getD_eq_getElem _ _ (by omega),
    List.getLast?_eq_getElem?, List.getElem?_eq_getElem (by omega), Option.some.injEq]

open Classical in
/-- The slot a new catalog is linked behind: its parent's, or the root's when that is unknown. -/
noncomputable def anchorOf (names : List (List UInt8)) (name : List UInt8) : Nat :=
  if Visible names (parentOf name) then names.idxOf (parentOf name) else 0

open Classical in
noncomputable def createReply (d : Drive) (names : List (List UInt8)) (name : List UInt8)
    (flags kind : Int32) : CatalogReply :=
  if ¬ KindFits name kind then .null d
  else if Visible names name then
    ⟨some (d.catalog (slotAt (names.idxOf name))), none, some .kErrorFileExists, d⟩
  else if name ∈ names then
    ⟨some (d.catalog (slotAt (names.idxOf name))), none, none, d⟩
  else allocateCatalog d (newCatalog name flags kind (slotAt (anchorOf names name)))
    (parentOf name) (slotAt names.length)

namespace Represents

variable {d : Drive} {names : List (List UInt8)} {name : List UInt8}

theorem anchorOf_lt (h : Represents d names) : anchorOf names name < names.length := by
  rw [anchorOf]
  split
  · rename_i hv
    exact List.idxOf_lt_length_iff.mpr hv.mem
  · exact h.length_pos

/-- The slot walk passes every catalog of another name and stops at the name or behind the table. -/
private theorem createUnder_eq (h : Represents d names) (h0 : 0 ∉ name) (hne : name ≠ [])
    (parent : List UInt8) (flags kind : Int32) {j : Nat} (hj : j < names.length)
    (hahead : name ∈ names → j < names.idxOf name) {fuel : Nat} (hfuel : names.length < fuel) :
    createUnder fuel d name parent flags kind (slotAt j) =
      .done (if name ∈ names then ⟨some (d.catalog (slotAt (names.idxOf name))), none, none, d⟩
        else allocateCatalog d (newCatalog name flags kind (slotAt j)) parent
          (slotAt names.length)) := by
  have hlen := h.length_le
  have hpass : ∀ i, i < names.length → names[i]? ≠ some name →
      slotBody d name (slotAt i) = .done (.inl (slotAt (i + 1))) := by
    intro i hi hname
    have hr := h.record_of_lt hi
    have hdiff : ¬ equals (d.catalog (slotAt i)).nameChars name = true := by
      rw [equals_comm, equals_iff h0 hne]
      intro heq
      apply hname
      rw [List.getElem?_eq_getElem hi, ← hr.nameText_eq]
      exact congrArg some heq
    simp only [slotBody, h.slot_gt (show i ≤ d.part.capacity + 1 by omega), hr.created, hdiff,
      not_true_eq_false, if_false, slotAt_succ, Bool.false_eq_true]
  rw [createUnder, (h.record_of_lt hj).next_eq]
  by_cases hmem : name ∈ names
  · have hget := getElem?_idxOf hmem
    have hidx := List.idxOf_lt_length_iff.mpr hmem
    have hrec := h.record_idxOf hmem
    have hstop : slotBody d name (slotAt (names.idxOf name)) =
        .done (.inr (.existing (d.catalog (slotAt (names.idxOf name))))) := by
      have heq : equals (d.catalog (slotAt (names.idxOf name))).nameChars name = true := by
        rw [equals_comm, equals_iff h0 hne]
        exact hrec.nameText_eq
      simp only [slotBody, h.slot_gt (show names.idxOf name ≤ d.part.capacity + 1 by omega),
        hrec.created, heq, not_true_eq_false, if_false, if_true]
    rw [whileLoop_walk (f := slotAt) (hahead hmem) ?_ hstop (by omega), if_pos hmem]
    · rfl
    · intro i _ hi
      apply hpass i (by omega)
      intro hii
      obtain ⟨hil, hig⟩ := List.getElem?_eq_some_iff.mp hii
      obtain ⟨hkl, hkg⟩ := List.getElem?_eq_some_iff.mp hget
      have heq := (List.Nodup.getElem_inj_iff h.nodup).mp (hig.trans hkg.symm)
      omega
  · have hstop : slotBody d name (slotAt names.length) =
        .done (.inr (.free (slotAt names.length))) := by
      simp only [slotBody, h.slot_gt (show names.length ≤ d.part.capacity + 1 by omega),
        h.zeroed _ le_rfl hlen, zero_not_created, not_false_eq_true, if_false, if_true]
    rw [whileLoop_walk (f := slotAt) hj ?_ hstop (by omega), if_neg hmem]
    · rfl
    · intro i _ hi
      exact hpass i hi fun hii => hmem (List.mem_of_getElem? hii)

/-- `CreateCatalog` returns on every name whose parents can be computed.  A name already listed
is never given a second slot: if lookup misses it, its parent is not visible either, and the slot
walk then starts behind the root and meets it. -/
theorem createCatalog_eq (h : Represents d names) (hname : Resolves name) (flags kind : Int32)
    {fuel : Nat} (hfuel : name.length + names.length < fuel) :
    createCatalog fuel d name flags kind = .done (createReply d names name flags kind) := by
  have h0 := hname.zero_notMem
  have hne := hname.ne_nil
  have hstart := h.geometry.start_slot
  rw [createCatalog, createReply]
  split
  · rfl
  rw [h.findCatalog_eq hname hfuel]
  by_cases hv : Visible names name
  · rw [findReply_visible hv, if_pos hv]
    rfl
  have hroot : name ≠ kNeFSRoot := by
    intro h
    subst h
    exact hv (.root h.root_mem)
  have hpar := hname.parent hroot
  have hple := parentOf_length_le name
  have hhead : ¬ name.getD 0 0 = 0 := by
    intro hz
    cases name with
    | nil => exact hne rfl
    | cons b rest => exact h0 (by simp_all)
  rw [findReply_hidden hv, done_bind, if_neg hv]
  dsimp only
  rw [if_neg hhead, hname.parentName_done hroot, done_bind, h.findCatalog_eq hpar (by omega),
    done_bind]
  by_cases hvp : Visible names (parentOf name)
  · have hrec := h.record_idxOf hvp.mem
    have hidx := List.idxOf_lt_length_iff.mpr hvp.mem
    have hdir : (d.catalog (slotAt (names.idxOf (parentOf name)))).kind = kNeFSCatalogKindDir := by
      rw [hrec.kind_iff, List.getLast?_eq_some_getLast hpar.ne_nil, parentOf_getLast hpar.ne_nil]
    rw [findReply_visible hvp, anchorOf, if_pos hvp]
    dsimp only
    rw [hdir, if_neg (by decide)]
    exact h.createUnder_eq h0 hne _ flags kind hidx
      (fun hmem => absurd (.child hroot hmem hvp) hv) (by omega)
  · rw [findReply_hidden hvp, anchorOf, if_neg hvp]
    dsimp only
    rw [hstart]
    apply h.createUnder_eq h0 hne _ flags kind h.length_pos _ (by omega)
    intro hmem
    rcases Nat.eq_zero_or_pos (names.idxOf name) with hz | hpos
    · exfalso
      apply hroot
      have hget := getElem?_idxOf hmem
      rw [hz, ← List.head?_eq_getElem?, h.head_eq] at hget
      exact (Option.some.inj hget).symm
    · exact hpos

end Represents

inductive CreateCase (d : Drive) (names : List (List UInt8)) (name : List UInt8) (kind : Int32) :
    CatalogReply → Prop
  | refused (h : ¬ KindFits name kind ∨ name ∉ names ∧ d.part.freeCatalog < 1) :
      CreateCase d names name kind (.null d)
  | existing (hfit : KindFits name kind) (hmem : name ∈ names) (err : Option HError) :
      CreateCase d names name kind
        ⟨some (d.catalog (slotAt (names.idxOf name))), none, err, d⟩
  | created (hname : Resolves name) (hfit : KindFits name kind) (hnew : name ∉ names)
      (hfree : ¬ d.part.freeCatalog < 1) (c : NfsCatalogStruct) (hkind : c.kind = kind)
      (hrec : RecordAt d.part.diskSize names.length name c) :
      CreateCase d names name kind ⟨some c, some (slotAt names.length), none,
        (d.putCatalog (slotAt names.length) c).putPart d.part.countCreated⟩

/-- Lookup is the first thing creation does after the check of the kind. -/
theorem createCatalog_resolves {d : Drive} {name : List UInt8} {flags kind : Int32} {fuel : Nat}
    {r : CatalogReply} (h0 : 0 ∉ name) (h : createCatalog fuel d name flags kind = .done r) :
    ¬ KindFits name kind ∧ r = .null d ∨ Resolves name := by
  rw [createCatalog] at h
  split at h
  · rename_i hfit
    cases h
    exact Or.inl ⟨hfit, rfl⟩
  · rw [bind_eq_done] at h
    obtain ⟨reply, hreply, _⟩ := h
    exact Or.inr (findCatalog_resolves h0 hreply)

namespace Represents

variable {d : Drive} {names : List (List UInt8)} {name : List UInt8}

theorem placed (h : Represents d names) (hname : Resolves name) (hroot : name ≠ kNeFSRoot)
    {flags kind : Int32} (hfit : KindFits name kind) {j : Nat} (hj : j < names.length) :
    RecordAt d.part.diskSize names.length name
      (placeCatalog d (newCatalog name flags kind (slotAt j)) (parentOf name)
        (slotAt names.length)) := by
  have h0 := hname.zero_notMem
  have hne := hname.ne_nil
  have hpar := hname.parent hroot
  have hlink : ¬ equals (parentOf name) (d.catalog (slotAt names.length)).nameChars = true := by
    rw [h.zeroed _ le_rfl h.length_le, equals_iff hpar.zero_notMem hpar.ne_nil]
    exact fun hz => hpar.ne_nil (hz.symm.trans zero_nameText)
  have hpos : names.length ≠ 0 := Nat.ne_of_gt h.length_pos
  have hflags : ∀ x y : UInt16, x ||| y ||| x = x ||| y := by
    intro x y
    rw [UInt16.or_comm x y, UInt16.or_assoc, UInt16.or_self]
  constructor
  · change cstr (List.ofFn (charBuffer 256 (name.take (rtStringLen name)))) = name
    rw [rtStringLen_text h0 hne, List.take_length]
    exact cstr_charBuffer h0 hname.length_lt
  · exact hflags _ _
  · simp only [placeCatalog, hlink, if_false, slotAt_succ, Bool.false_eq_true]
  · exact ⟨j, Or.inl hj, rfl⟩
  · rw [if_neg hpos]
    rfl
  · rfl
  · exact (kindFits_iff h0 hne kind).mp hfit

theorem slot_ge (h : Represents d names) {k : Nat} (hk : k ≤ d.part.capacity + 1) :
    1536 ≤ (slotAt k).toNat := by
  rw [h.slot_toNat hk]
  omega

theorem allocateCatalog_eq (h : Represents d names) (hfree : ¬ d.part.freeCatalog < 1)
    (child : NfsCatalogStruct) (parent : List UInt8) :
    allocateCatalog d child parent (slotAt names.length) =
      ⟨some (placeCatalog d child parent (slotAt names.length)), some (slotAt names.length), none,
        (d.putCatalog (slotAt names.length)
          (placeCatalog d child parent (slotAt names.length))).putPart d.part.countCreated⟩ := by
  have hlen := h.length_le
  simp only [allocateCatalog, if_neg hfree,
    Drive.part_putCatalog _ _ (h.slot_ge (show names.length ≤ d.part.capacity + 1 by omega))]

theorem createReply_cases (h : Represents d names) (hname : Resolves name) (flags kind : Int32) :
    CreateCase d names name kind (createReply d names name flags kind) := by
  rw [createReply]
  split
  · rename_i hfit
    exact .refused (Or.inl hfit)
  rename_i hfit
  rw [not_not] at hfit
  split
  · rename_i hv
    exact .existing hfit hv.mem _
  split
  · rename_i hmem
    exact .existing hfit hmem _
  rename_i hnew
  by_cases hfree : d.part.freeCatalog < 1
  · rw [allocateCatalog, if_pos hfree]
    exact .refused (Or.inr ⟨hnew, hfree⟩)
  · have hroot : name ≠ kNeFSRoot := by
      intro h
      subst h
      exact hnew h.root_mem
    rw [h.allocateCatalog_eq hfree]
    exact .created hname hfit hnew hfree _ rfl (h.placed hname hroot hfit h.anchorOf_lt)

theorem createCatalog_cases (h : Represents d names) (h0 : 0 ∉ name) {flags kind : Int32}
    {r : CatalogReply} (hr : Yields (fun fuel => createCatalog fuel d name flags kind) r) :
    CreateCase d names name kind r := by
  obtain ⟨fuel, hfuel⟩ := id hr
  rcases createCatalog_resolves h0 hfuel with ⟨hfit, rfl⟩ | hname
  · exact .refused (Or.inl hfit)
  · have heq := hr.unique (createCatalog_mono d name flags kind)
      (.intro _ (h.createCatalog_eq hname flags kind (Nat.lt_succ_self _)))
    rw [heq]
    exact h.createReply_cases hname flags kind

/-- A new name of the right kind gets the first unused slot while catalogs are left. -/
theorem yields_createCatalog (h : Represents d names) (hname : Resolves name)
    (flags kind : Int32) (hfit : KindFits name kind) (hnew : name ∉ names)
    (hfree : ¬ d.part.freeCatalog < 1) :
    ∃ c, c.kind = kind ∧ RecordAt d.part.diskSize names.length name c ∧
      Yields (fun fuel => createCatalog fuel d name flags kind)
        ⟨some c, some (slotAt names.length), none,
          (d.putCatalog (slotAt names.length) c).putPart d.part.countCreated⟩ := by
  have hy : Yields (fun fuel => createCatalog fuel d name flags kind)
      (createReply d names name flags kind) :=
    .intro _ (h.createCatalog_eq hname flags kind (Nat.lt_succ_self _))
  generalize createReply d names name flags kind = r at hy
  cases h.createCatalog_cases hname.zero_notMem hy with
  | refused href =>
    rcases href with hkind | ⟨_, hfull⟩
    · exact absurd hfit hkind
    · exact absurd hfull hfree
  | existing _ hmem _ => exact absurd hmem hnew
  | created _ _ _ _ c hkind hrec => exact ⟨c, hkind, hrec, hy⟩

theorem extend (h : Represents d names) (hname : Resolves name) (hnew : name ∉ names)
    (hfree : ¬ d.part.freeCatalog < 1) {c : NfsCatalogStruct}
    (hrec : RecordAt d.part.diskSize names.length name c) :
    Represents ((d.putCatalog (slotAt names.length) c).putPart d.part.countCreated)
      (names ++ [name]) := by
  have hpart : ((d.putCatalog (slotAt names.length) c).putPart d.part.countCreated).part =
      d.part.countCreated := Drive.part_putPart _ _
  have hcap := h.capacity_eq
  have hpos : 1 ≤ d.part.freeCatalog.toNat := by
    rw [UInt64.lt_iff_toNat_lt] at hfree
    exact Nat.not_lt.mp hfree
  have hslot : ∀ k, k ≤ d.part.capacity → k ≠ names.length →
      ((d.putCatalog (slotAt names.length) c).putPart d.part.countCreated).catalog (slotAt k) =
        d.catalog (slotAt k) := by
    intro k hk hkn
    rw [Drive.catalog_putPart _ _ (h.slot_ge (by omega)), Drive.catalog_putCatalog_apart]
    rw [h.slot_toNat (show k ≤ d.part.capacity + 1 by omega),
      h.slot_toNat (show names.length ≤ d.part.capacity + 1 by omega)]
    omega
  constructor
  · rw [hpart]
    exact h.geometry.countCreated
  · rw [List.head?_append, h.head_eq]
    rfl
  · rw [List.nodup_append]
    refine ⟨h.nodup, List.nodup_singleton _, ?_⟩
    intro a ha b hb hab
    rw [List.mem_singleton] at hb
    exact hnew (hb ▸ hab ▸ ha)
  · intro other hother
    rw [List.mem_append, List.mem_singleton] at hother
    rcases hother with hother | rfl
    · exact h.resolves other hother
    · exact hname
  · intro k other hk
    rw [hpart, countCreated_diskSize]
    rcases Nat.lt_trichotomy k names.length with hlt | rfl | hgt
    · rw [List.getElem?_append_left hlt] at hk
      rw [hslot k (by omega) (by omega)]
      exact h.record k other hk
    · rw [List.getElem?_append_right le_rfl, Nat.sub_self] at hk
      cases hk
      rw [Drive.catalog_putPart _ _ (h.slot_ge (by omega)), Drive.catalog_putCatalog]
      exact hrec
    · rw [List.getElem?_eq_none (by simp; omega)] at hk
      cases hk
  · intro k hk hle
    rw [hpart, countCreated_capacity] at hle
    rw [List.length_append, List.length_singleton] at hk
    rw [hslot k hle (by omega)]
    exact h.zeroed k (by omega) hle
  · rw [hpart, List.length_append, List.length_singleton, countCreated_capacity,
      countCreated_freeCatalog hfree]
    omega

/-- The counters that removal touches do not belong to the table. -/
theorem countRemoved (h : Represents d names) :
    Represents (d.putPart d.part.countRemoved) names := by
  have hpart : (d.putPart d.part.countRemoved).part = d.part.countRemoved := Drive.part_putPart _ _
  have hlen := h.length_le
  have hslot : ∀ k, k ≤ d.part.capacity →
      (d.putPart d.part.countRemoved).catalog (slotAt k) = d.catalog (slotAt k) :=
    fun k hk => Drive.catalog_putPart _ _ (h.slot_ge (by omega))
  constructor
  · rw [hpart]
    exact h.geometry.countRemoved
  · exact h.head_eq
  · exact h.nodup
  · exact h.resolves
  · intro k name hk
    have hlt := (List.getElem?_eq_some_iff.mp hk).1
    rw [hpart, countRemoved_diskSize, hslot k (by omega)]
    exact h.record k name hk
  · intro k hk hle
    rw [hpart, countRemoved_capacity] at hle
    rw [hslot k hle]
    exact h.zeroed k hk hle
  · rw [hpart, countRemoved_capacity, countRemoved_freeCatalog]
    exact h.capacity_eq

/-! ## Removal -/

/-- Deleting sets bits that a created record already has, so only the counters change. -/
theorem removeCatalog_visible (h : Represents d names) (hv : Visible names name)
    (hroot : name ≠ kNeFSRoot) {fuel : Nat} (hfuel : name.length + names.length < fuel) :
    removeCatalog fuel d name = .done ⟨true, none, d.putPart d.part.countRemoved⟩ := by
  have hname := h.resolves name hv.mem
  have hrec := h.record_idxOf hv.mem
  have hflags : (d.catalog (slotAt (names.idxOf name))).flags ||| kNeFSFlagDeleted =
      (d.catalog (slotAt (names.idxOf name))).flags := by
    have hbits : kNeFSFlagCreated ||| kNeFSFlagDeleted = kNeFSFlagCreated := by decide
    rw [← hrec.flags_eq, UInt16.or_assoc, hbits]
  rw [removeCatalog, if_neg (mt (equals_root_iff hname.zero_notMem).mp hroot),
    h.findCatalog_eq hname hfuel, findReply_visible hv, done_bind]
  dsimp only
  rw [if_pos (Or.inr hrec.created), hflags, Drive.putCatalog_catalog]

theorem removeCatalog_hidden (h : Represents d names) (hname : Resolves name)
    (hv : ¬ Visible names name) {fuel : Nat} (hfuel : name.length + names.length < fuel) :
    removeCatalog fuel d name = .fault .nullDereference := by
  have hroot : name ≠ kNeFSRoot := by
    intro h
    subst h
    exact hv (.root h.root_mem)
  rw [removeCatalog, if_neg (mt (equals_root_iff hname.zero_notMem).mp hroot),
    h.findCatalog_eq hname hfuel, findReply_hidden hv, done_bind]

/-- Every call of `RemoveCatalog` that returns is refused for the root or counts a removal of a
visible catalog. -/
theorem removeCatalog_cases (h : Represents d names) (h0 : 0 ∉ name) {r : RemoveReply}
    (hr : Yields (fun fuel => removeCatalog fuel d name) r) :
    name = kNeFSRoot ∧ r = ⟨false, some .kErrorInternal, d⟩ ∨
      name ≠ kNeFSRoot ∧ Visible names name ∧ r = ⟨true, none, d.putPart d.part.countRemoved⟩ := by
  obtain ⟨fuel, hfuel⟩ := id hr
  dsimp only at hfuel
  by_cases hroot : name = kNeFSRoot
  · rw [removeCatalog, if_pos ((equals_root_iff h0).mpr hroot)] at hfuel
    cases hfuel
    exact Or.inl ⟨hroot, rfl⟩
  · rw [removeCatalog, if_neg (mt (equals_root_iff h0).mp hroot), bind_eq_done] at hfuel
    obtain ⟨reply, hreply, _⟩ := hfuel
    have hname := findCatalog_resolves h0 hreply
    by_cases hv : Visible names name
    · exact Or.inr ⟨hroot, hv, hr.unique (removeCatalog_mono d name)
        (.intro _ (h.removeCatalog_visible hv hroot (Nat.lt_succ_self _)))⟩
    · obtain ⟨bound, hb⟩ := hr.eventually (removeCatalog_mono d name)
      have hdone := hb (max bound (name.length + names.length + 1)) (le_max_left _ _)
      rw [h.removeCatalog_hidden hname hv (lt_of_lt_of_le (Nat.lt_succ_self _) (le_max_right _ _))]
        at hdone
      cases hdone

end Represents

end Zka.FSKit
