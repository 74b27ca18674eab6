import Zka.FSKit.ForkArea
import Zka.Framework.Simulation

/-!
# Runs of the parser

Catalogs are created and removed, forks are created, written and read, in any order.
Seen from outside a partition is a list of names and, for each of them, at most one
fork.  A fork is lost when it is written to, and so are the forks of the catalogs
that stand up to a blob above it.
-/

namespace Zka.FSKit

open NewKit Outcome

/-! ## The calls -/

/-- A call on the parser, and its answer. -/
inductive ParserEvent where
  | createCatalog (name : List UInt8) (flags kind : Int32) (ptr : Option NfsCatalogStruct)
  | removeCatalog (name : List UInt8) (ok : Bool)
  | createFork (catalog : NfsCatalogStruct) (theFork : NfsForkStruct)
      (fork : Option NfsForkStruct)
  | writeCatalog (catalog : NfsCatalogStruct) (isRsrcFork : Bool) (data : Nat → UInt8)
      (sizeOfData : SizeT) (forkName : List UInt8) (ok : Bool)
  | readCatalog (catalog : NfsCatalogStruct) (isRsrcFork : Bool) (dataSz : SizeT)
      (forkName : List UInt8) (fork : Option NfsForkStruct)

/-- The drive, and the catalogs that were returned. -/
structure ParserState where
  drive : Drive
  handles : List NfsCatalogStruct

/-- One call that returns.  Forks are used through catalogs that were returned before, and are no
larger than the space in front of their header. -/
inductive ParserStep : ParserState → ParserEvent → ParserState → Prop
  | createCatalog {s : ParserState} {name : List UInt8} {flags kind : Int32} {r : CatalogReply}
      (h0 : 0 ∉ name) (h : Yields (fun fuel => createCatalog fuel s.drive name flags kind) r) :
      ParserStep s (.createCatalog name flags kind r.ptr) ⟨r.drive, s.handles ++ r.ptr.toList⟩
  | removeCatalog {s : ParserState} {name : List UInt8} {r : RemoveReply} (h0 : 0 ∉ name)
      (h : Yields (fun fuel => removeCatalog fuel s.drive name) r) :
      ParserStep s (.removeCatalog name r.ok) ⟨r.drive, s.handles⟩
  | createFork {s : ParserState} {catalog : NfsCatalogStruct} {theFork : NfsForkStruct}
      {r : ForkReply} (hc : catalog ∈ s.handles) (hsize : theFork.dataSize ≤ forkSize)
      (h : Yields (fun fuel => createFork fuel s.drive (some catalog) theFork) r) :
      ParserStep s (.createFork catalog theFork r.fork) ⟨r.drive, s.handles⟩
  | writeCatalog {s : ParserState} {catalog : NfsCatalogStruct} {isRsrcFork : Bool}
      {data : Nat → UInt8} {sizeOfData : SizeT} {forkName : List UInt8} {w : WriteReply}
      (hc : catalog ∈ s.handles)
      (h : Yields (fun fuel => writeCatalog fuel s.drive (some catalog) isRsrcFork data sizeOfData
        forkName) w) :
      ParserStep s (.writeCatalog catalog isRsrcFork data sizeOfData forkName w.ok)
        ⟨w.drive, s.handles⟩
  | readCatalog {s : ParserState} {catalog : NfsCatalogStruct} {isRsrcFork : Bool}
      {dataSz : SizeT} {forkName : List UInt8} {r : Option NfsForkStruct × Option HError}
      (hc : catalog ∈ s.handles)
      (h : Yields (fun fuel => readCatalog fuel s.drive (some catalog) isRsrcFork dataSz
        forkName) r) :
      ParserStep s (.readCatalog catalog isRsrcFork dataSz forkName r.1) s

def ParserState.boot (d : Drive) : ParserState := ⟨d, []⟩

/-! ## The partition seen from outside -/

/-- The catalogs in the order of their creation, the number of them that there is room for, and the
fork of each. -/
structure Partition where
  capacity : Nat
  catalogs : List NfsCatalogStruct
  forks : Nat → Option NfsForkStruct

namespace Partition

def boot (d : Drive) : Partition := ⟨d.part.capacity, [d.catalog (slotAt 0)], fun _ => none⟩

def names (p : Partition) : List (List UInt8) := p.catalogs.map NfsCatalogStruct.nameText

/-- The number of a catalog. -/
def index (p : Partition) (c : NfsCatalogStruct) : Nat := p.catalogs.idxOf c

def addCatalog (p : Partition) (c : NfsCatalogStruct) : Partition :=
  { p with catalogs := p.catalogs ++ [c] }

def putFork (p : Partition) (k : Nat) (f : NfsForkStruct) : Partition :=
  { p with forks := Function.update p.forks k (some f) }

def loseForks (p : Partition) (k : Nat) : Partition :=
  { p with forks := fun j => if Covered k j then none else p.forks j }

/-- The fork of the catalog is one that a write of so many bytes goes to. -/
def Writable (p : Partition) (c : NfsCatalogStruct) (sizeOfData : SizeT) (forkName : List UInt8) :
    Prop :=
  sizeOfData ≠ 0 ∧ ∃ f, p.forks (p.index c) = some f ∧ WriteMatch c sizeOfData forkName f

def read (p : Partition) (c : NfsCatalogStruct) (forkName : List UInt8) : Option NfsForkStruct :=
  (p.forks (p.index c)).filter fun f => ForkNamed forkName c.nameChars f

end Partition

/-- What a call does to the partition. -/
inductive PartitionCall : Partition → ParserEvent → Partition → Prop
  | refused {p : Partition} {name : List UInt8} {flags kind : Int32}
      (h : ¬ KindFits name kind ∨ name ∉ p.names ∧ p.catalogs.length = p.capacity) :
      PartitionCall p (.createCatalog name flags kind none) p
  | existing {p : Partition} {c : NfsCatalogStruct} {flags kind : Int32}
      (hfit : KindFits c.nameText kind) (h : c ∈ p.catalogs) :
      PartitionCall p (.createCatalog c.nameText flags kind (some c)) p
  | created {p : Partition} {c : NfsCatalogStruct} {flags : Int32} (hname : Resolves c.nameText)
      (hfit : KindFits c.nameText c.kind) (hnew : c.nameText ∉ p.names)
      (hroom : p.catalogs.length < p.capacity) :
      PartitionCall p (.createCatalog c.nameText flags c.kind (some c)) (p.addCatalog c)
  | keptRoot {p : Partition} : PartitionCall p (.removeCatalog kNeFSRoot false) p
  | removed {p : Partition} {name : List UInt8} (hroot : name ≠ kNeFSRoot)
      (h : Visible p.names name) : PartitionCall p (.removeCatalog name true) p
  | forkRefused {p : Partition} {c : NfsCatalogStruct} {f : NfsForkStruct} (hc : c ∈ p.catalogs)
      (h : p.index c = 0 ∨ f.forkName 0 = 0) : PartitionCall p (.createFork c f none) p
  | forkCreated {p : Partition} {c : NfsCatalogStruct} {f : NfsForkStruct} (hc : c ∈ p.catalogs)
      (hroot : p.index c ≠ 0) (hname : f.forkName 0 ≠ 0) :
      PartitionCall p (.createFork c f (some (finishFork f c.dataFork c.dataFork)))
        (p.putFork (p.index c) (finishFork f c.dataFork c.dataFork))
  | writeRefused {p : Partition} {c : NfsCatalogStruct} {isRsrcFork : Bool} {data : Nat → UInt8}
      {n : SizeT} {forkName : List UInt8} (hc : c ∈ p.catalogs) (h : ¬ p.Writable c n forkName) :
      PartitionCall p (.writeCatalog c isRsrcFork data n forkName false) p
  | written {p : Partition} {c : NfsCatalogStruct} {isRsrcFork : Bool} {data : Nat → UInt8}
      {n : SizeT} {forkName : List UInt8} (hc : c ∈ p.catalogs) (h : p.Writable c n forkName) :
      PartitionCall p (.writeCatalog c isRsrcFork data n forkName true) (p.loseForks (p.index c))
  | read {p : Partition} {c : NfsCatalogStruct} {isRsrcFork : Bool} {dataSz : SizeT}
      {forkName : List UInt8} (hc : c ∈ p.catalogs) :
      PartitionCall p (.readCatalog c isRsrcFork dataSz forkName (p.read c forkName)) p

/-! ## The refinement -/

/-- The drive stores what the partition is seen to hold. -/
structure ParserHolds (part : NfsRootPartitionBlock) (s : ParserState) (p : Partition) : Prop where
  represents : Represents s.drive p.names
  geometry : Geometry part
  diskSize_eq : s.drive.part.diskSize = part.diskSize
  capacity_eq : s.drive.part.capacity = part.capacity
  room_eq : p.capacity = part.capacity
  handles : s.handles ⊆ p.catalogs
  stored : ∀ k c, p.catalogs[k]? = some c → s.drive.catalog (slotAt k) = c
  standing : ∀ k f, p.forks k = some f → 1 ≤ k ∧ k < p.catalogs.length
  area : ForkArea part s.drive p.forks

namespace ParserHolds

variable {part : NfsRootPartitionBlock} {s : ParserState} {p : Partition} {c : NfsCatalogStruct}

theorem boot {blobCount : SizeT} {d : Drive} (h : BootFormatted blobCount d)
    (hblank : ∀ x, 3072 ≤ x → x < d.part.diskSize.toNat → d x = 0) :
    ParserHolds d.part (.boot d) (.boot d) where
  represents := by
    have hrec := h.represents.record 0 kNeFSRoot rfl
    have hnames : (Partition.boot d).names = [kNeFSRoot] := congrArg (fun t => [t]) hrec.nameText_eq
    rw [hnames]
    exact h.represents
  geometry := h.geometry
  diskSize_eq := rfl
  capacity_eq := rfl
  room_eq := rfl
  handles := List.nil_subset _
  stored := by
    intro k c hk
    obtain ⟨hlt, hget⟩ := List.getElem?_eq_some_iff.mp hk
    obtain rfl : k = 0 := Nat.lt_one_iff.mp hlt
    exact hget
  standing := fun _ _ hf => nomatch hf
  area := by
    constructor
    · intro k hk
      have hgt := h.geometry.place_gt hk
      have hle := h.geometry.place_le hk
      have hnat := h.geometry.place_toNat hk
      exact Drive.fork_of_zero fun x hx hlt => hblank x (by omega) (by omega)
    · exact fun _ _ hf => nomatch hf
    · intro k hk x hx hlt
      have hgt := h.geometry.place_gt hk
      have hle := h.geometry.place_le hk
      exact hblank x (by omega) (by omega)

theorem length_le (h : ParserHolds part s p) : p.catalogs.length ≤ part.capacity := by
  have hlen := h.represents.length_le
  rw [h.capacity_eq, Partition.names, List.length_map] at hlen
  exact hlen

/-- A catalog that was returned is stored under its number. -/
theorem record (h : ParserHolds part s p) (hc : c ∈ p.catalogs) :
    p.index c < p.catalogs.length ∧ RecordAt part.diskSize (p.index c) c.nameText c := by
  have hlt : p.index c < p.catalogs.length := List.idxOf_lt_length_iff.mpr hc
  have hget : p.catalogs[p.index c]? = some c := by
    rw [List.getElem?_eq_getElem hlt]
    exact congrArg some (List.getElem_idxOf hlt)
  have hname : p.names[p.index c]? = some c.nameText := by
    rw [Partition.names, List.getElem?_map, hget]
    rfl
  have hrec := h.represents.record _ _ hname
  rw [h.stored _ _ hget, h.diskSize_eq] at hrec
  exact ⟨hlt, hrec⟩

theorem forkLba_eq (h : ParserHolds part s p) (hc : c ∈ p.catalogs) (isDataFork : Bool) :
    c.forkLba isDataFork = if p.index c = 0 then 0 else part.diskSize - slotAt (p.index c) := by
  have hrec := (h.record hc).2
  rw [← hrec.dataFork_eq, NfsCatalogStruct.forkLba]
  split
  · rfl
  · exact hrec.resourceFork_eq

theorem root_no_fork (h : ParserHolds part s p) : p.forks 0 = none := by
  cases hf : p.forks 0 with
  | none => rfl
  | some f => exact absurd (h.standing 0 f hf).1 (Nat.not_succ_le_zero 0)

/-- A catalog is its name. -/
theorem name_inj (h : ParserHolds part s p) {e : NfsCatalogStruct} (hc : c ∈ p.catalogs)
    (he : e ∈ p.catalogs) (hname : c.nameText = e.nameText) : c = e :=
  List.inj_on_of_nodup_map h.represents.nodup hc he hname

/-- What happens behind the catalogs does not matter to the table. -/
theorem area_changed (h : ParserHolds part s p) {d : Drive} {forks : Nat → Option NfsForkStruct}
    (hsame : ∀ x, x < 2560 + 2048 * part.capacity + 512 → d x = s.drive x)
    (hstanding : ∀ k f, forks k = some f → 1 ≤ k ∧ k < p.catalogs.length)
    (harea : ForkArea part d forks) :
    ParserHolds part ⟨d, s.handles⟩ { p with forks := forks } := by
  have hpart : d.part = s.drive.part := Drive.part_congr fun x _ hlt => hsame x (by omega)
  have hlen := h.length_le
  refine ⟨?_, h.geometry, ?_, ?_, h.room_eq, h.handles, ?_, hstanding, harea⟩
  · refine h.represents.congr fun x _ hlt => hsame x ?_
    rwa [h.capacity_eq] at hlt
  · exact hpart ▸ h.diskSize_eq
  · exact hpart ▸ h.capacity_eq
  · intro k c hk
    have hlt : k < p.catalogs.length := (List.getElem?_eq_some_iff.mp hk).1
    have hslot := h.represents.slot_toNat (k := k) (by rw [h.capacity_eq]; omega)
    rw [← h.stored k c hk]
    exact Drive.catalog_congr fun x _ hx => hsame x (by omega)

/-- A catalog that is stored under a name. -/
theorem catalog_of_name (h : ParserHolds part s p) {name : List UInt8} (hname : name ∈ p.names) :
    ∃ c ∈ p.catalogs, c.nameText = name ∧ s.drive.catalog (slotAt (p.names.idxOf name)) = c := by
  have hget := Represents.getElem?_idxOf hname
  have hcatalog : p.catalogs[p.names.idxOf name]?.map NfsCatalogStruct.nameText = some name := by
    rw [← List.getElem?_map]
    exact hget
  obtain ⟨c, hc, htext⟩ := Option.map_eq_some_iff.mp hcatalog
  exact ⟨c, List.mem_of_getElem? hc, htext, h.stored _ _ hc⟩

private theorem added (h : ParserHolds part s p) (hname : Resolves c.nameText)
    (hnew : c.nameText ∉ p.names) (hfree : ¬ s.drive.part.freeCatalog < 1)
    (hrec : RecordAt s.drive.part.diskSize p.names.length c.nameText c) :
    ParserHolds part
      ⟨(s.drive.putCatalog (slotAt p.names.length) c).putPart s.drive.part.countCreated,
        s.handles ++ [c]⟩ (p.addCatalog c) := by
  have hrep := h.represents
  have hlen := h.length_le
  have hcap := h.capacity_eq
  have hlength : p.names.length = p.catalogs.length := List.length_map _
  have hslot := hrep.slot_toNat (k := p.names.length) (by omega)
  have hnames : (p.addCatalog c).names = p.names ++ [c.nameText] := List.map_append
  have hrep' := hrep.extend hname hnew hfree hrec
  have hpart : ((s.drive.putCatalog (slotAt p.names.length) c).putPart
      s.drive.part.countCreated).part = s.drive.part.countCreated := Drive.part_putPart _ _
  have hkept : ∀ k, k < p.catalogs.length →
      ((s.drive.putCatalog (slotAt p.names.length) c).putPart s.drive.part.countCreated).catalog
        (slotAt k) = s.drive.catalog (slotAt k) := by
    intro k hk
    rw [Drive.catalog_putPart _ _ (hrep.slot_ge (by omega)), Drive.catalog_putCatalog_apart]
    rw [hslot, hrep.slot_toNat (by omega)]
    omega
  have hnew : ((s.drive.putCatalog (slotAt p.names.length) c).putPart
      s.drive.part.countCreated).catalog (slotAt p.names.length) = c := by
    rw [Drive.catalog_putPart _ _ (hrep.slot_ge (by omega)), Drive.catalog_putCatalog]
  have hhigh : ∀ x, 2048 * part.capacity + 5120 ≤ x →
      (s.drive.putCatalog (slotAt p.names.length) c).putPart s.drive.part.countCreated x =
        s.drive x := by
    intro x hx
    rw [Drive.putPart_outside _ (by omega), Drive.putCatalog_outside _ (by omega)]
  rw [← hnames] at hrep'
  generalize (s.drive.putCatalog (slotAt p.names.length) c).putPart s.drive.part.countCreated = d
    at hrep' hpart hkept hnew hhigh ⊢
  refine ⟨hrep', h.geometry, ?_, ?_, h.room_eq, ?_, ?_, ?_, h.area.congr h.geometry hhigh⟩
  · change d.part.diskSize = part.diskSize
    rw [hpart, countCreated_diskSize]
    exact h.diskSize_eq
  · change d.part.capacity = part.capacity
    rw [hpart, countCreated_capacity]
    exact hcap
  · exact List.append_subset.mpr ⟨List.subset_append_of_subset_left _ h.handles,
      List.subset_append_right _ _⟩
  · intro k e hk
    change (p.catalogs ++ [c])[k]? = some e at hk
    have hlt : k < p.catalogs.length + 1 := by
      have hlt := (List.getElem?_eq_some_iff.mp hk).1
      rwa [List.length_append] at hlt
    rcases Nat.lt_or_eq_of_le (Nat.le_of_lt_succ hlt) with hlt | rfl
    · rw [List.getElem?_append_left hlt] at hk
      exact (hkept k hlt).trans (h.stored k e hk)
    · rw [List.getElem?_append_right le_rfl, Nat.sub_self] at hk
      rw [← hlength]
      exact hnew.trans (Option.some.inj hk)
  · intro k f hf
    obtain ⟨hpos, hlt⟩ := h.standing k f hf
    refine ⟨hpos, ?_⟩
    rw [Partition.addCatalog, List.length_append]
    omega

private theorem countRemoved (h : ParserHolds part s p) :
    ParserHolds part ⟨s.drive.putPart s.drive.part.countRemoved, s.handles⟩ p := by
  have hrep := h.represents
  have hlen := h.length_le
  have hcap := h.capacity_eq
  have hrep' := hrep.countRemoved
  have hpart : (s.drive.putPart s.drive.part.countRemoved).part = s.drive.part.countRemoved :=
    Drive.part_putPart _ _
  have hkept : ∀ k, k < p.catalogs.length →
      (s.drive.putPart s.drive.part.countRemoved).catalog (slotAt k) =
        s.drive.catalog (slotAt k) :=
    fun k hk => Drive.catalog_putPart _ _ (hrep.slot_ge (by omega))
  have hhigh : ∀ x, 2048 * part.capacity + 5120 ≤ x →
      s.drive.putPart s.drive.part.countRemoved x = s.drive x :=
    fun x hx => Drive.putPart_outside _ (by omega)
  generalize s.drive.putPart s.drive.part.countRemoved = d at hrep' hpart hkept hhigh ⊢
  refine ⟨hrep', h.geometry, ?_, ?_, h.room_eq, h.handles, ?_, h.standing,
    h.area.congr h.geometry hhigh⟩
  · change d.part.diskSize = part.diskSize
    rw [hpart, countRemoved_diskSize]
    exact h.diskSize_eq
  · change d.part.capacity = part.capacity
    rw [hpart, countRemoved_capacity]
    exact hcap
  · intro k e hk
    have hlt : k < p.catalogs.length := (List.getElem?_eq_some_iff.mp hk).1
    exact (hkept k hlt).trans (h.stored k e hk)

private theorem createCatalog (h : ParserHolds part s p) {name : List UInt8} {flags kind : Int32}
    {r : CatalogReply} (h0 : 0 ∉ name)
    (hr : Yields (fun fuel => FSKit.createCatalog fuel s.drive name flags kind) r) :
    ∃ q, PartitionCall p (.createCatalog name flags kind r.ptr) q ∧
      ParserHolds part ⟨r.drive, s.handles ++ r.ptr.toList⟩ q := by
  have hrep := h.represents
  have hlen := h.length_le
  have hlength : p.names.length = p.catalogs.length := List.length_map _
  have hcap := hrep.capacity_eq
  cases hrep.createCatalog_cases h0 hr with
  | refused href =>
    refine ⟨p, .refused (href.imp_right fun hfull => ⟨hfull.1, ?_⟩), ?_⟩
    · have hnone : s.drive.part.freeCatalog.toNat < 1 := UInt64.lt_iff_toNat_lt.mp hfull.2
      rw [h.room_eq, ← h.capacity_eq]
      omega
    · change ParserHolds part ⟨s.drive, s.handles ++ []⟩ p
      rw [List.append_nil]
      exact h
  | existing hfit hmem err =>
    obtain ⟨c, hc, rfl, hstored⟩ := h.catalog_of_name hmem
    rw [hstored]
    refine ⟨p, .existing hfit hc, { h with handles := ?_ }⟩
    exact List.append_subset.mpr ⟨h.handles, List.cons_subset.mpr ⟨hc, List.nil_subset _⟩⟩
  | created hname hfit hnew hfree c hkind hrec =>
    obtain rfl := hrec.nameText_eq
    subst hkind
    have hroom : p.catalogs.length < p.capacity := by
      have hpos : 0 < s.drive.part.freeCatalog.toNat :=
        Nat.not_lt.mp fun hlt => hfree (UInt64.lt_iff_toNat_lt.mpr hlt)
      rw [h.room_eq, ← h.capacity_eq]
      omega
    exact ⟨p.addCatalog c, .created hname hfit hnew hroom, h.added hname hnew hfree hrec⟩

private theorem removeCatalog (h : ParserHolds part s p) {name : List UInt8} {r : RemoveReply}
    (h0 : 0 ∉ name) (hr : Yields (fun fuel => FSKit.removeCatalog fuel s.drive name) r) :
    ∃ q, PartitionCall p (.removeCatalog name r.ok) q ∧
      ParserHolds part ⟨r.drive, s.handles⟩ q := by
  rcases h.represents.removeCatalog_cases h0 hr with ⟨rfl, rfl⟩ | ⟨hroot, hv, rfl⟩
  · exact ⟨p, .keptRoot, h⟩
  · exact ⟨p, .removed hroot hv, h.countRemoved⟩

private theorem createFork (h : ParserHolds part s p) {f : NfsForkStruct} {r : ForkReply}
    (hc : c ∈ s.handles) (hsize : f.dataSize ≤ forkSize)
    (hr : Yields (fun fuel => FSKit.createFork fuel s.drive (some c) f) r) :
    ∃ q, PartitionCall p (.createFork c f r.fork) q ∧ ParserHolds part ⟨r.drive, s.handles⟩ q := by
  have hc := h.handles hc
  obtain ⟨hlt, hrec⟩ := h.record hc
  have hlen := h.length_le
  have hlba := h.forkLba_eq hc f.isData
  rw [createFork_reply hr, forkReply]
  by_cases hroot : p.index c = 0
  · rw [hlba, if_pos hroot, if_pos]
    · exact ⟨p, .forkRefused hc (Or.inl hroot), h⟩
    · intro hacc
      rw [ForkAccepted, hlba, if_pos hroot] at hacc
      exact hacc.2 (UInt64.le_iff_toNat_le.mpr (Nat.zero_le _))
  by_cases hname : f.forkName 0 = 0
  · rw [if_pos fun hacc : ForkAccepted c f => hacc.1.1 hname]
    exact ⟨p, .forkRefused hc (Or.inr hname), h⟩
  rw [if_neg hroot] at hlba
  have hdata : c.dataFork = part.diskSize - slotAt (p.index c) := by
    rw [hrec.dataFork_eq, if_neg hroot]
  have hcap : p.index c ≤ part.capacity := by omega
  have hgt := h.geometry.place_gt hcap
  have hnat := h.geometry.place_toNat hcap
  have hblob : kNeFSForkDataSz.toNat = 16777216 := rfl
  have h512 : forkSize.toNat = 512 := rfl
  have hstart : kNeFSCatalogStartAddress.toNat = 2560 := rfl
  have hsize' := UInt64.le_iff_toNat_le.mp hsize
  have hacc : ForkAccepted c f := by
    refine ⟨⟨hname, UInt64.le_iff_toNat_le.mpr (by omega)⟩, ?_⟩
    rw [hlba, UInt64.le_iff_toNat_le]
    omega
  -- a header at the place has a link
  have hlinked : ¬ ((s.drive.fork (part.diskSize - slotAt (p.index c))).Created ∧
      (s.drive.fork (part.diskSize - slotAt (p.index c))).nextSibling = 0) := by
    intro hlast
    cases hf : p.forks (p.index c) with
    | none =>
      rw [h.area.at_free_place hcap hf] at hlast
      exact zero_fork_not_created hlast.1
    | some g =>
      rw [h.area.at_place hcap hf] at hlast
      have hplaced := h.area.placed _ g hf
      have hnext := hplaced.next_eq
      have hle := hplaced.dataSize_le
      rw [hlast.2, UInt64.toNat_zero] at hnext
      omega
  rw [hlba, if_neg (not_not.mpr hacc), if_neg hlinked, writeFork]
  dsimp only
  have hstep := PartitionCall.forkCreated (p := p) (c := c) (f := f) hc hroot hname
  rw [hdata] at hstep
  refine ⟨_, hstep, h.area_changed ?_ ?_
    (h.area.putFork h.geometry hcap (finishFork_placed h.geometry hcap hsize))⟩
  · intro x hx
    exact Drive.putFork_outside (Or.inl (by omega))
  · intro k g hg
    by_cases hk : k = p.index c
    · exact ⟨by omega, hk ▸ hlt⟩
    · rw [Function.update_of_ne hk] at hg
      exact h.standing k g hg

/-- A write on a returned catalog returns, and goes to the fork of the catalog if that matches. -/
theorem writeReply (h : ParserHolds part s p) (hc : c ∈ s.handles) (isRsrcFork : Bool)
    (data : Nat → UInt8) (n : SizeT) (forkName : List UInt8) :
    ∃ w, Yields (fun fuel => writeCatalog fuel s.drive (some c) isRsrcFork data n forkName) w ∧
      ∃ q, PartitionCall p (.writeCatalog c isRsrcFork data n forkName w.ok) q ∧
        ParserHolds part ⟨w.drive, s.handles⟩ q := by
  have hc := h.handles hc
  obtain ⟨hlt, _⟩ := h.record hc
  have hlen := h.length_le
  have hlba := h.forkLba_eq hc (!isRsrcFork)
  have hcap : p.index c ≤ part.capacity := by omega
  by_cases hroot : p.index c = 0
  · rw [if_pos hroot] at hlba
    refine ⟨_, writeCatalog_root hlba, p, .writeRefused hc ?_, h⟩
    intro hwritable
    obtain ⟨_, f, hf, _⟩ := hwritable
    rw [hroot, h.root_no_fork] at hf
    cases hf
  · rw [if_neg hroot] at hlba
    obtain ⟨w, hw, hreply⟩ := h.area.writeCatalog data n forkName h.geometry hcap hlba
    refine ⟨w, hw, ?_⟩
    rcases hreply with ⟨hok, hdrive, hrefused⟩ | ⟨hok, hdrive, hpos, f, hf, hmatch⟩
    · rw [hok, hdrive]
      exact ⟨p, .writeRefused hc hrefused, h⟩
    · rw [hok, hdrive]
      have hplaced := h.area.placed _ f hf
      have hgt := h.geometry.place_gt hcap
      have hn : n.toNat ≤ 512 := hmatch.2.2.2 ▸ hplaced.dataSize_le
      refine ⟨_, .written hc ⟨hpos, f, hf, hmatch⟩, h.area_changed ?_ ?_
        (h.area.storeFork h.geometry hcap hf hn)⟩
      · intro x hx
        exact (h.area.stored_byte h.geometry hcap hf data hn x).1 (Or.inl (by omega))
      · intro k g hg
        split at hg
        · cases hg
        · exact h.standing k g hg

theorem readReply (h : ParserHolds part s p) (hc : c ∈ s.handles) (isRsrcFork : Bool)
    (dataSz : SizeT) (forkName : List UInt8) :
    Yields (fun fuel => readCatalog fuel s.drive (some c) isRsrcFork dataSz forkName)
      (p.read c forkName, none) := by
  have hc := h.handles hc
  obtain ⟨hlt, _⟩ := h.record hc
  have hlen := h.length_le
  have hlba := h.forkLba_eq hc (!isRsrcFork)
  rw [Partition.read]
  by_cases hroot : p.index c = 0
  · rw [if_pos hroot] at hlba
    rw [hroot, h.root_no_fork, Option.filter_none]
    exact readCatalog_root hlba
  · rw [if_neg hroot] at hlba
    have hmem : c.nameText ∈ p.names := List.mem_map_of_mem hc
    have hne := (h.represents.resolves _ hmem).ne_nil
    refine h.area.readCatalog h.geometry (by omega) hlba fun hzero => hne ?_
    rw [NfsCatalogStruct.nameText, NfsCatalogStruct.nameChars, List.ofFn_succ, hzero]
    rfl

theorem step (h : ParserHolds part s p) {e : ParserEvent} {t : ParserState}
    (hs : ParserStep s e t) : ∃ q, PartitionCall p e q ∧ ParserHolds part t q := by
  cases hs with
  | createCatalog h0 hr => exact h.createCatalog h0 hr
  | removeCatalog h0 hr => exact h.removeCatalog h0 hr
  | createFork hc hsize hr => exact h.createFork hc hsize hr
  | @writeCatalog c isRsrcFork data n forkName w hc hw =>
    obtain ⟨w', hw', hreply⟩ := h.writeReply hc isRsrcFork data n forkName
    rw [hw.unique (writeCatalog_mono _ _ _ data _ _) hw']
    exact hreply
  | @readCatalog c isRsrcFork dataSz forkName r hc hr =>
    rw [hr.unique (readCatalog_mono _ _ _ _ _) (h.readReply hc isRsrcFork dataSz forkName)]
    exact ⟨p, .read (h.handles hc), h⟩

/-- No call on a returned catalog runs on for ever. -/
theorem returns (h : ParserHolds part s p) (hc : c ∈ s.handles) (isRsrcFork : Bool)
    (data : Nat → UInt8) (n : SizeT) (forkName : List UInt8) :
    (∃ w, Yields (fun fuel => FSKit.writeCatalog fuel s.drive (some c) isRsrcFork data n forkName)
      w) ∧
    ∃ r, Yields (fun fuel => FSKit.readCatalog fuel s.drive (some c) isRsrcFork n forkName) r := by
  obtain ⟨w, hw, _⟩ := h.writeReply hc isRsrcFork data n forkName
  exact ⟨⟨w, hw⟩, _, h.readReply hc isRsrcFork n forkName⟩

end ParserHolds

section Run

variable {blobCount : SizeT} {d : Drive} {s : ParserState} {events : List ParserEvent}

private theorem run_holds (hd : BootFormatted blobCount d)
    (hblank : ∀ x, 3072 ≤ x → x < d.part.diskSize.toNat → d x = 0)
    (h : Trace ParserStep (.boot d) events s) :
    ∃ p, Trace PartitionCall (.boot d) events p ∧ ParserHolds d.part s p :=
  h.simulate PartitionCall (ParserHolds d.part) (fun _ _ _ _ hx hs => hx.step hs) (.boot hd hblank)

end Run

/-! ## Lost forks -/

namespace PartitionCall

variable {p q r : Partition} {e : ParserEvent} {events : List ParserEvent} {c : NfsCatalogStruct}

theorem catalogs_prefix (h : PartitionCall p e q) : p.catalogs <+: q.catalogs := by
  cases h with
  | created => exact List.prefix_append _ _
  | _ => exact List.prefix_rfl

theorem run_catalogs (h : Trace PartitionCall p events q) : p.catalogs <+: q.catalogs :=
  h.invariant (fun x => p.catalogs <+: x.catalogs)
    (fun _ _ _ hx hs => hx.trans hs.catalogs_prefix) List.prefix_rfl

/-- A catalog keeps its number. -/
theorem index_eq (h : p.catalogs <+: q.catalogs) (hc : c ∈ p.catalogs) : q.index c = p.index c := by
  obtain ⟨more, hmore⟩ := h
  rw [Partition.index, Partition.index, ← hmore, List.idxOf_append_of_mem hc]

/-- A catalog without a fork has none until one is created on it. -/
theorem no_fork (hs : PartitionCall p e q) (hq : q.catalogs <+: r.catalogs) (hc : c ∈ r.catalogs)
    (hnone : p.forks (r.index c) = none) (hnew : ∀ f g, e ≠ .createFork c f (some g)) :
    q.forks (r.index c) = none := by
  cases hs with
  | @forkCreated b f hb hroot hname =>
    have hother : r.index c ≠ p.index b := by
      intro heq
      have hb' : r.index b = p.index b := index_eq hq hb
      rw [← hb'] at heq
      have hcb : c = b := (List.idxOf_inj hc).mp heq
      subst hcb
      exact hnew f _ rfl
    exact (Function.update_of_ne hother _ _).trans hnone
  | written hb h =>
    dsimp only [Partition.loseForks]
    split
    · rfl
    · exact hnone
  | _ => exact hnone

theorem root_no_fork (hs : PartitionCall p e q) (h : p.forks 0 = none) : q.forks 0 = none := by
  cases hs with
  | forkCreated hc hroot => exact (Function.update_of_ne hroot.symm _ _).trans h
  | written hc hw =>
    dsimp only [Partition.loseForks]
    split
    · rfl
    · exact h
  | _ => exact h

theorem run_no_fork (h : Trace PartitionCall p events q) (hc : c ∈ q.catalogs)
    (hnone : p.forks (q.index c) = none)
    (hnew : ∀ f g, ParserEvent.createFork c f (some g) ∉ events) :
    q.forks (q.index c) = none := by
  induction h with
  | nil p => exact hnone
  | cons hs hrest ih =>
    refine ih hc (hs.no_fork (run_catalogs hrest) hc hnone fun f g heq => ?_) fun f g hmem => ?_
    · exact hnew f g (heq ▸ List.mem_cons_self)
    · exact hnew f g (List.mem_cons_of_mem _ hmem)

end PartitionCall

/-- The places of two catalogs are less than a block apart. -/
def WithinBlob (c e : NfsCatalogStruct) : Prop :=
  c.dataFork ≤ e.dataFork ∧ e.dataFork - c.dataFork < kNeFSForkDataSz

instance (c e : NfsCatalogStruct) : Decidable (WithinBlob c e) :=
  inferInstanceAs (Decidable (_ ∧ _))

namespace ParserHolds

variable {part : NfsRootPartitionBlock} {s : ParserState} {p : Partition} {c e : NfsCatalogStruct}

theorem covered (h : ParserHolds part s p) (hc : c ∈ p.catalogs) (he : e ∈ p.catalogs)
    (hroot : p.index c ≠ 0) (hnear : WithinBlob c e) : Covered (p.index c) (p.index e) := by
  obtain ⟨hclt, hcrec⟩ := h.record hc
  obtain ⟨helt, herec⟩ := h.record he
  have hlen := h.length_le
  have hcgt := h.geometry.place_gt (k := p.index c) (by omega)
  have hegt := h.geometry.place_gt (k := p.index e) (by omega)
  have hcnat := h.geometry.place_toNat (k := p.index c) (by omega)
  have henat := h.geometry.place_toNat (k := p.index e) (by omega)
  have hblob : kNeFSForkDataSz.toNat = 16777216 := rfl
  obtain ⟨hle, hlt⟩ := hnear
  have hlt := UInt64.lt_iff_toNat_lt.mp hlt
  rw [UInt64.toNat_sub_of_le _ _ hle] at hlt
  have hle := UInt64.le_iff_toNat_le.mp hle
  rw [hcrec.dataFork_eq, if_neg hroot, hcnat, herec.dataFork_eq] at hle hlt
  by_cases heroot : p.index e = 0
  · rw [if_pos heroot, UInt64.toNat_zero] at hle
    omega
  · rw [if_neg heroot, henat] at hle hlt
    simp only [forkPlace] at hle hlt hcgt hegt
    exact ⟨by omega, by omega⟩

end ParserHolds

private theorem sampleFork_match (c : NfsCatalogStruct) (lba : Lba) :
    WriteMatch c 16 (sampleFork c).forkNameChars (finishFork (sampleFork c) lba lba) := by
  refine ⟨?_, ?_, ⟨equals_self _, equals_self _⟩, rfl⟩
  · change (0 : Int32) ||| kNeFSFlagCreated.toUInt32.toInt32 ≠ kNeFSFlagUnallocated.toUInt32.toInt32
    decide
  · change (0 : Int32) ||| kNeFSFlagCreated.toUInt32.toInt32 ≠ kNeFSFlagDeleted.toUInt32.toInt32
    decide

private theorem boot_created : ∃ c s p, ParserStep (.boot bootDrive)
    (.createCatalog sampleDir 0 kNeFSCatalogKindDir (some c)) s ∧ ParserHolds bootDrive.part s p ∧
      c ∈ s.handles ∧ p.index c ≠ 0 := by
  obtain ⟨c, _, hrec, hy⟩ := bootDrive_formatted.represents.yields_createCatalog
    sampleDir_valid.resolves 0 kNeFSCatalogKindDir (by decide) (by decide)
    bootDrive_formatted.free
  have hcreate := ParserStep.createCatalog (s := .boot bootDrive) sampleDir_valid.noNul hy
  have hboot := ParserHolds.boot bootDrive_formatted fun _ hx _ => bootDrive_blank hx
  obtain ⟨p, _, hp⟩ := hboot.step hcreate
  have hc : c ∈ (ParserState.boot bootDrive).handles ++ (some c).toList := List.mem_singleton_self c
  refine ⟨c, _, p, hcreate, hp, hc, ?_⟩
  intro hzero
  have hdata := (hp.record (hp.handles hc)).2.dataFork_eq
  have hcap := bootDrive_formatted.represents.length_le
  have hgt := bootDrive_formatted.geometry.place_gt hcap
  have hnat := bootDrive_formatted.geometry.place_toNat hcap
  rw [if_pos hzero, hrec.dataFork_eq, if_neg (by decide)] at hdata
  rw [hdata, UInt64.toNat_zero] at hnat
  omega

/-- A directory is created and gets a fork, which is written and read. -/
private theorem boot_trace : ∃ c g fork s, Trace ParserStep (.boot bootDrive)
    [.createCatalog sampleDir 0 kNeFSCatalogKindDir (some c), .createFork c (sampleFork c) (some g),
      .writeCatalog c false (fun _ => 1) 16 (sampleFork c).forkNameChars true,
      .readCatalog c false 16 (sampleFork c).forkNameChars fork] s := by
  obtain ⟨c, s, p, hcreate, hp, hc, hroot⟩ := boot_created
  have hsize : (sampleFork c).dataSize ≤ forkSize :=
    UInt64.le_iff_toNat_le.mpr (show 16 ≤ 512 by decide)
  have hfork := ParserStep.createFork hc hsize (.intro 2 (createFork_eq _ _ _ le_rfl))
  obtain ⟨q, hstep, hq⟩ := hp.step hfork
  generalize forkReply _ c (sampleFork c) = r at hfork hstep hq
  obtain ⟨fork, header, drive⟩ := r
  cases hstep with
  | forkRefused _ h =>
    refine absurd h (not_or.mpr ⟨hroot, ?_⟩)
    change charBuffer 200 [100, 97, 116, 97] 0 ≠ 0
    decide
  | forkCreated hcat _ _ =>
    obtain ⟨w, hw, q', hwstep, hq'⟩ := hq.writeReply hc false (fun _ => 1) 16
      (sampleFork c).forkNameChars
    have hwrite := ParserStep.writeCatalog (s := ⟨drive, s.handles⟩) hc hw
    generalize hok : w.ok = ok at hwstep hwrite
    cases hwstep with
    | writeRefused _ h => exact absurd ⟨by decide, _, Function.update_self _ _ _,
        sampleFork_match c _⟩ h
    | written =>
      have hread := ParserStep.readCatalog (s := ⟨w.drive, s.handles⟩) hc
        (hq'.readReply hc false 16 (sampleFork c).forkNameChars)
      exact ⟨c, _, _, _, .cons hcreate (.cons hfork (.cons hwrite (.cons hread (.nil _))))⟩

end Zka.FSKit
