import Zka.FSKit.Format
import Zka.Framework.Run

/-!
# Runs of catalog operations

A run interleaves `CreateCatalog` and `RemoveCatalog` on a formatted drive.  The
state keeps, beside the drive, what the calls have answered: which names were
given which slots, which of them are still live, and how many were removed.
-/

namespace Zka.FSKit

open NewKit Outcome

inductive CatalogOp where
  | create (name : List UInt8) (flags kind : Int32)
  | remove (name : List UInt8)

def CatalogOp.name : CatalogOp → List UInt8
  | create name _ _ => name
  | remove name => name

structure CatalogState where
  drive : Drive
  created : List (List UInt8 × Lba)
  live : List (List UInt8)
  removals : Nat

namespace CatalogState

def names (s : CatalogState) : List (List UInt8) := s.created.map Prod.fst

def afterCreate (s : CatalogState) (name : List UInt8) (r : CatalogReply) : CatalogState :=
  { s with
    drive := r.drive
    created := s.created ++ (r.slot.map (name, ·)).toList
    live := s.live ++ (r.slot.map fun _ => name).toList }

def afterRemove (s : CatalogState) (name : List UInt8) (r : RemoveReply) : CatalogState :=
  { s with
    drive := r.drive
    live := if r.ok then s.live.erase name else s.live
    removals := if r.ok then s.removals + 1 else s.removals }

/-- The boot loader has written the root; nothing was removed. -/
def boot (d : Drive) : CatalogState := ⟨d, [(kNeFSRoot, kNeFSCatalogStartAddress)], [kNeFSRoot], 0⟩

end CatalogState

/-- One call that returns.  Names are C strings. -/
inductive CatalogStep : CatalogState → CatalogOp → CatalogState → Prop
  | create {s : CatalogState} {name : List UInt8} {flags kind : Int32} {r : CatalogReply}
      (h0 : 0 ∉ name) (h : Yields (fun fuel => createCatalog fuel s.drive name flags kind) r) :
      CatalogStep s (.create name flags kind) (s.afterCreate name r)
  | remove {s : CatalogState} {name : List UInt8} {r : RemoveReply}
      (h0 : 0 ∉ name) (h : Yields (fun fuel => removeCatalog fuel s.drive name) r) :
      CatalogStep s (.remove name) (s.afterRemove name r)

def Found (d : Drive) (name : List UInt8) : Prop :=
  ∃ c lba, Yields (fun fuel => findCatalog fuel d name) (some c, lba)

def Missing (d : Drive) (name : List UInt8) : Prop :=
  ∃ lba, Yields (fun fuel => findCatalog fuel d name) (none, lba)

/-! ## The table along a run -/

/-- The drive represents the created names, which were given the slots in order. -/
structure TableInv (s : CatalogState) : Prop where
  represents : Represents s.drive s.names
  slots : s.created.map Prod.snd = (List.range s.created.length).map slotAt

namespace TableInv

variable {s t : CatalogState} {op : CatalogOp}

theorem boot {blobCount : SizeT} {d : Drive} (h : BootFormatted blobCount d) :
    TableInv (.boot d) :=
  ⟨h.represents, congrArg (fun lba => [lba]) slotAt_zero.symm⟩

theorem length_names (s : CatalogState) : s.names.length = s.created.length :=
  List.length_map _

theorem step (h : TableInv s) (hs : CatalogStep s op t) : TableInv t := by
  cases hs with
  | @create name flags kind r h0 hr =>
    cases h.represents.createCatalog_cases h0 hr with
    | refused => simpa [CatalogState.afterCreate, CatalogReply.null] using h
    | existing => simpa [CatalogState.afterCreate] using h
    | created hname hfit hnew hfree c hkind hrec =>
      constructor
      · simpa [CatalogState.afterCreate, CatalogState.names] using
          h.represents.extend hname hnew hfree hrec
      · have hslots := h.slots
        have hlen := length_names s
        simp [CatalogState.afterCreate, hslots, hlen, List.range_succ]
  | @remove name r h0 hr =>
    rcases h.represents.removeCatalog_cases h0 hr with ⟨_, rfl⟩ | ⟨_, _, rfl⟩
    · exact ⟨h.represents, h.slots⟩
    · exact ⟨h.represents.countRemoved, h.slots⟩

theorem run {blobCount : SizeT} {d : Drive} (hd : BootFormatted blobCount d)
    {allowed : CatalogState → CatalogOp → Prop} (hr : Reaches CatalogStep allowed (.boot d) s) :
    TableInv s :=
  hr.invariant _ (boot hd) fun _ _ _ hx _ hs => hx.step hs

end TableInv

namespace Represents

variable {d : Drive} {names : List (List UInt8)} {name : List UInt8}

theorem yields_findCatalog (h : Represents d names) (hname : Resolves name) :
    Yields (fun fuel => findCatalog fuel d name) (findReply d names name) :=
  .intro _ (h.findCatalog_eq hname (Nat.lt_succ_self _))

theorem yields_findCatalog_iff (h : Represents d names) (hname : Resolves name)
    {r : Option NfsCatalogStruct × Lba} :
    Yields (fun fuel => findCatalog fuel d name) r ↔ r = findReply d names name := by
  constructor
  · intro hr
    exact hr.unique (findCatalog_mono d name) (h.yields_findCatalog hname)
  · intro h
    subst h
    exact h.yields_findCatalog hname

theorem found_iff (h : Represents d names) (h0 : 0 ∉ name) : Found d name ↔ Visible names name := by
  constructor
  · intro h
    rcases h with ⟨c, lba, fuel, hfuel⟩
    have hname := findCatalog_resolves h0 hfuel
    by_contra hv
    have heq := (h.yields_findCatalog_iff hname).mp ⟨fuel, hfuel⟩
    rw [findReply_hidden hv] at heq
    cases heq
  · intro hv
    exact ⟨_, _, (h.yields_findCatalog_iff (h.resolves name hv.mem)).mpr (findReply_visible hv).symm⟩

theorem missing_iff (h : Represents d names) (hname : Resolves name) :
    Missing d name ↔ ¬ Visible names name := by
  constructor
  · intro h hv
    rcases h with ⟨lba, hm⟩
    have heq := (h.yields_findCatalog_iff hname).mp hm
    rw [findReply_visible hv] at heq
    cases heq
  · intro hv
    exact ⟨0, (h.yields_findCatalog_iff hname).mpr (findReply_hidden hv).symm⟩

end Represents

/-! ## The shape of the table -/

/-- The operations of a regular run: valid names, and removal of what lookup finds. -/
def CatalogOp.Regular (s : CatalogState) : CatalogOp → Prop
  | create name _ _ => ValidName name
  | remove name => ValidName name ∧ Found s.drive name

/-- The created catalogs fill the slots from the first on, in the order of their creation, and are
linked from each to the next. -/
structure TableShape (s : CatalogState) : Prop where
  slot_eq : ∀ k name slot, s.created[k]? = some (name, slot) → slot.toNat = 2560 + 2048 * k
  stored : ∀ name slot, (name, slot) ∈ s.created →
    (s.drive.catalog slot).Created ∧ (s.drive.catalog slot).nameText = name
  unused : ∀ k, s.created.length ≤ k → k ≤ s.drive.part.capacity →
    ¬ (s.drive.catalog (slotAt k)).Created
  next_eq : ∀ k name slot, s.created[k]? = some (name, slot) →
    (s.drive.catalog slot).nextSibling = slotAt (k + 1)
  chain_eq : List.iterate (fun lba => (s.drive.catalog lba).nextSibling)
    s.drive.part.startCatalog (s.created.length + 1) =
      s.created.map Prod.snd ++ [slotAt s.created.length]
  once : (s.created.map Prod.snd).Nodup
  stop : ¬ (s.drive.catalog (slotAt s.created.length)).Created
  prev_eq : ∀ k name slot, 0 < k → s.created[k]? = some (name, slot) →
    ∃ j < k, (s.drive.catalog slot).prevSibling = slotAt j
  names_nodup : s.names.Nodup

private theorem iterate_slots {f : Lba → Lba} {n : Nat} (h : ∀ k, k < n → f (slotAt k) = slotAt (k + 1))
    {j : Nat} (hj : j ≤ n) :
    List.iterate f (slotAt j) (n - j + 1) = (List.range' j (n - j + 1)).map slotAt := by
  induction hm : n - j generalizing j with
  | zero => simp
  | succ m ih =>
    have hjn : j < n := by omega
    have hrec := ih (j := j + 1) (by omega) (by omega)
    rw [List.iterate, h j hjn, hrec]
    rfl

namespace TableInv

variable {s : CatalogState}

private theorem entry (h : TableInv s) {k : Nat} {name : List UInt8} {slot : Lba}
    (hk : s.created[k]? = some (name, slot)) :
    slot = slotAt k ∧ s.names[k]? = some name ∧ k < s.created.length := by
  have hlt := (List.getElem?_eq_some_iff.mp hk).1
  have hslot := congrArg (·[k]?) h.slots
  simp only [List.getElem?_map, hk, Option.map_some, List.getElem?_range hlt,
    Option.some.injEq] at hslot
  refine ⟨hslot, ?_, hlt⟩
  rw [CatalogState.names, List.getElem?_map, hk]
  rfl

theorem shape (h : TableInv s) : TableShape s := by
  have hrep := h.represents
  have hlen := length_names s
  have hle := hrep.length_le
  have hstop : ¬ (s.drive.catalog (slotAt s.created.length)).Created := by
    rw [hrep.zeroed _ (by omega) (by omega)]
    exact zero_not_created
  have hinj : ∀ i j, i < s.created.length → j < s.created.length → slotAt i = slotAt j → i = j := by
    intro i j hi hj heq
    have ht := congrArg UInt64.toNat heq
    rw [hrep.slot_toNat (by omega), hrep.slot_toNat (by omega)] at ht
    omega
  constructor
  · intro k name slot hk
    obtain ⟨rfl, _, hlt⟩ := h.entry hk
    exact hrep.slot_toNat (by omega)
  · intro name slot hmem
    obtain ⟨k, hk⟩ := List.getElem?_of_mem hmem
    obtain ⟨rfl, hname, _⟩ := h.entry hk
    have hrec := hrep.record k name hname
    exact ⟨hrec.created, hrec.nameText_eq⟩
  · intro k hk hcap
    rw [hrep.zeroed k (by omega) hcap]
    exact zero_not_created
  · intro k name slot hk
    obtain ⟨rfl, hname, _⟩ := h.entry hk
    exact (hrep.record k name hname).next_eq
  · have hnext : ∀ k, k < s.created.length →
        (s.drive.catalog (slotAt k)).nextSibling = slotAt (k + 1) :=
      fun k hk => (hrep.record_of_lt (by omega)).next_eq
    have hiter := iterate_slots (f := fun lba => (s.drive.catalog lba).nextSibling) hnext
      (Nat.zero_le _)
    rw [Nat.sub_zero] at hiter
    rw [hrep.geometry.start_slot, hiter, h.slots,
      ← List.range_eq_range', List.range_succ, List.map_append]
    rfl
  · rw [h.slots]
    apply List.Nodup.map_on
    · intro i hi j hj heq
      exact hinj i j (List.mem_range.mp hi) (List.mem_range.mp hj) heq
    · exact List.nodup_range
  · exact hstop
  · intro k name slot hpos hk
    obtain ⟨rfl, hname, _⟩ := h.entry hk
    obtain ⟨j, hj, hprev⟩ := (hrep.record k name hname).prev_eq
    exact ⟨j, by omega, hprev⟩
  · exact hrep.nodup

end TableInv

/-- In every state of a regular run the table has its shape, and every further call returns. -/
theorem regular_run_shape {blobCount : SizeT} {d : Drive} (hd : BootFormatted blobCount d)
    {s : CatalogState} (hr : Reaches CatalogStep CatalogOp.Regular (.boot d) s) :
    TableShape s ∧ ∀ name, ValidName name →
      (∃ r, Yields (fun fuel => findCatalog fuel s.drive name) r) ∧
      (∀ flags kind, ∃ r, Yields (fun fuel => createCatalog fuel s.drive name flags kind) r) ∧
      (Found s.drive name → ∃ r, Yields (fun fuel => removeCatalog fuel s.drive name) r) := by
  have hinv := TableInv.run hd hr
  have hrep := hinv.represents
  refine ⟨hinv.shape, fun name hname => ⟨?_, ?_, ?_⟩⟩
  · exact ⟨_, hrep.yields_findCatalog hname.resolves⟩
  · intro flags kind
    exact ⟨_, .intro _ (hrep.createCatalog_eq hname.resolves flags kind (Nat.lt_succ_self _))⟩
  · intro hfound
    have hv := (hrep.found_iff hname.noNul).mp hfound
    exact ⟨_, .intro _ (hrep.removeCatalog_visible hv hname.ne_root (Nat.lt_succ_self _))⟩

/-- `/ab/`, a directory below the root. -/
def sampleDir : List UInt8 := [47, 97, 98, 47]

theorem sampleDir_valid : ValidName sampleDir :=
  ⟨by decide, by decide, by decide, by decide, by decide⟩

theorem regular_run_shape_boot : ∃ s, s.names = [kNeFSRoot, sampleDir] ∧ TableShape s := by
  obtain ⟨c, _, _, hy⟩ := bootDrive_formatted.represents.yields_createCatalog
    sampleDir_valid.resolves 0 kNeFSCatalogKindDir (by decide) (by decide)
    bootDrive_formatted.free
  have hrun : Reaches CatalogStep CatalogOp.Regular (.boot bootDrive) _ := .one
    (a := .create sampleDir 0 kNeFSCatalogKindDir) sampleDir_valid
    (CatalogStep.create sampleDir_valid.noNul hy)
  exact ⟨_, rfl, (regular_run_shape bootDrive_formatted hrun).1⟩

end Zka.FSKit
