import Zka.FSKit.RoundTrip

/-!
# Extents of catalogs and forks

Catalogs grow upward from their first slot and forks are placed downward from
the end of the disk.  Runs of `CreateCatalog` and `CreateFork` keep them apart as
long as each catalog gets one fork whose data fits in front of its header.
-/

namespace Zka.FSKit

open NewKit Outcome

inductive ExtentOp where
  | createCatalog (name : List UInt8) (flags kind : Int32)
  | createFork (catalog : NfsCatalogStruct) (theFork : NfsForkStruct)

/-- The drive, the catalogs that were returned, the slots of the created ones, and the header and
data extents of the created forks. -/
structure ExtentState where
  drive : Drive
  handles : List NfsCatalogStruct
  catalogs : List Lba
  forks : List (Extent × Extent)

namespace ExtentState

def boot (d : Drive) : ExtentState := ⟨d, [], [kNeFSCatalogStartAddress], []⟩

def afterCatalog (s : ExtentState) (r : CatalogReply) : ExtentState :=
  { s with
    drive := r.drive
    handles := s.handles ++ r.ptr.toList
    catalogs := s.catalogs ++ r.slot.toList }

def forkExtents : ForkReply → List (Extent × Extent)
  | ⟨some f, some header, _⟩ =>
    [(⟨header.toNat, 512⟩, ⟨f.dataOffset.toNat, f.dataSize.toNat⟩)]
  | _ => []

def afterFork (s : ExtentState) (r : ForkReply) : ExtentState :=
  { s with
    drive := r.drive
    forks := s.forks ++ forkExtents r }

def extents (s : ExtentState) : List Extent :=
  ⟨1024, 512⟩ :: (s.catalogs.map fun lba => ⟨lba.toNat, 512⟩) ++
    s.forks.flatMap fun f => [f.1, f.2]

/-- The extents share no address and lie on the disk. -/
def Separated (s : ExtentState) : Prop :=
  s.extents.Pairwise Extent.Apart ∧ ∀ e ∈ s.extents, e.Within s.drive.part.diskSize.toNat

end ExtentState

/-- One call that returns; forks are created on catalogs that were returned before. -/
inductive ExtentStep : ExtentState → ExtentOp → ExtentState → Prop
  | createCatalog {s : ExtentState} {name : List UInt8} {flags kind : Int32} {r : CatalogReply}
      (h0 : 0 ∉ name) (h : Yields (fun fuel => createCatalog fuel s.drive name flags kind) r) :
      ExtentStep s (.createCatalog name flags kind) (s.afterCatalog r)
  | createFork {s : ExtentState} {catalog : NfsCatalogStruct} {theFork : NfsForkStruct}
      {r : ForkReply} (hc : catalog ∈ s.handles)
      (h : Yields (fun fuel => createFork fuel s.drive (some catalog) theFork) r) :
      ExtentStep s (.createFork catalog theFork) (s.afterFork r)

/-- A fork that is accepted has at most 512 bytes and is the first at its place. -/
def ExtentOp.Fits (s : ExtentState) : ExtentOp → Prop
  | createCatalog _ _ _ => True
  | createFork catalog theFork => ForkAccepted catalog theFork →
      theFork.dataSize ≤ forkSize ∧ ¬ (s.drive.fork (catalog.forkLba theFork.isData)).Created

def ExtentOp.Sized : ExtentOp → Prop
  | createCatalog _ _ _ => True
  | createFork _ theFork => theFork.dataSize ≤ kNeFSForkDataSz

/-! ## Places -/

def forkPlace (part : NfsRootPartitionBlock) (k : Nat) : Nat :=
  part.diskSize.toNat - (2560 + 2048 * k)

namespace Geometry

variable {part : NfsRootPartitionBlock} {j k : Nat}

theorem place_gt (h : Geometry part) (hk : k ≤ part.capacity) :
    2048 * part.capacity + 6656 ≤ forkPlace part k := by
  have hs := h.size_eq
  have hm := UInt64.le_iff_toNat_le.mp h.minimum
  have hc : kNeFSMinimumDiskSize.toNat = 4294967296 := rfl
  simp only [NfsRootPartitionBlock.capacity] at hk ⊢
  simp only [forkPlace]
  omega

theorem place_le (h : Geometry part) (hk : k ≤ part.capacity) :
    forkPlace part k + 512 ≤ part.diskSize.toNat := by
  have hgt := h.place_gt hk
  simp only [forkPlace] at hgt ⊢
  omega

/-- Places of different catalogs are a slot's stride apart. -/
theorem place_apart (h : Geometry part) (hj : j ≤ part.capacity) (hjk : k < j) :
    forkPlace part j + 2048 ≤ forkPlace part k := by
  have hgt := h.place_gt hj
  simp only [forkPlace] at hgt ⊢
  omega

theorem place_apart_or (h : Geometry part) (hj : j ≤ part.capacity) (hk : k ≤ part.capacity)
    (hne : j ≠ k) :
    forkPlace part j + 2048 ≤ forkPlace part k ∨ forkPlace part k + 2048 ≤ forkPlace part j :=
  (Nat.lt_or_gt_of_ne hne).symm.imp (h.place_apart hj) (h.place_apart hk)

theorem place_toNat (h : Geometry part) (hk : k ≤ part.capacity) :
    (part.diskSize - slotAt k).toNat = forkPlace part k := by
  have hgt : 2560 + 2048 * k ≤ part.diskSize.toNat := by
    have hpos : 0 < forkPlace part k := by
      have hplace := h.place_gt hk
      omega
    exact Nat.le_of_lt (Nat.lt_of_sub_pos hpos)
  have hslot : (slotAt k).toNat = 2560 + 2048 * k :=
    slotAt_toNat (lt_of_le_of_lt hgt part.diskSize.toNat_lt)
  have hle : slotAt k ≤ part.diskSize := by
    rw [UInt64.le_iff_toNat_le, hslot]
    exact hgt
  rw [UInt64.toNat_sub_of_le _ _ hle, hslot, forkPlace]

end Geometry

/-! ## The invariant -/

/-- The catalogs stand in the slots, and each fork listed in `forked`, with the number of its catalog
and its size, stands at the place of its catalog. -/
private structure ExtentInv (part : NfsRootPartitionBlock) (s : ExtentState) (names : List (List UInt8))
    (forked : List (Nat × Nat)) : Prop where
  represents : Represents s.drive names
  geometry : Geometry part
  diskSize_eq : s.drive.part.diskSize = part.diskSize
  capacity_eq : s.drive.part.capacity = part.capacity
  catalogs_eq : s.catalogs = (List.range names.length).map slotAt
  handles : ∀ c ∈ s.handles, ∃ k < names.length,
    c.dataFork = (if k = 0 then 0 else part.diskSize - slotAt k) ∧
      c.resourceFork = c.dataFork
  forks_eq : s.forks = forked.map fun p =>
    (⟨forkPlace part p.1, 512⟩, ⟨forkPlace part p.1 - 512, p.2⟩)
  distinct : (forked.map Prod.fst).Nodup
  bounds : ∀ p ∈ forked, 1 ≤ p.1 ∧ p.1 < names.length ∧ p.2 ≤ 512
  blank : ∀ k, k ≤ part.capacity → k ∉ forked.map Prod.fst →
    ∀ x, forkPlace part k ≤ x → x < forkPlace part k + 512 → s.drive x = 0
  used : ∀ k ∈ forked.map Prod.fst,
    (s.drive.fork (part.diskSize - slotAt k)).Created ∧
      (s.drive.fork (part.diskSize - slotAt k)).nextSibling ≠ 0

namespace ExtentInv

variable {part : NfsRootPartitionBlock} {s t : ExtentState} {names : List (List UInt8)}
  {forked : List (Nat × Nat)}

private theorem boot {blobCount : SizeT} {d : Drive} (h : BootFormatted blobCount d)
    (hblank : ∀ x, 3072 ≤ x → x < d.part.diskSize.toNat → d x = 0) :
    ExtentInv d.part (.boot d) [kNeFSRoot] [] where
  represents := h.represents
  geometry := h.geometry
  diskSize_eq := rfl
  capacity_eq := rfl
  catalogs_eq := congrArg (fun lba => [lba]) slotAt_zero.symm
  handles := by simp [ExtentState.boot]
  forks_eq := rfl
  distinct := List.nodup_nil
  bounds := by simp
  blank := by
    intro k hk _ x hx hlt
    have hle := h.geometry.place_le (k := k) hk
    have hgt := h.geometry.place_gt (k := k) hk
    exact hblank x (by omega) (by omega)
  used := by simp

private theorem length_le (h : ExtentInv part s names forked) : names.length ≤ part.capacity := by
  rw [← h.capacity_eq]
  exact h.represents.length_le

private theorem slot_toNat (h : ExtentInv part s names forked) {k : Nat} (hk : k ≤ part.capacity) :
    (slotAt k).toNat = 2560 + 2048 * k := by
  rw [← h.capacity_eq] at hk
  exact h.represents.slot_toNat (Nat.le_succ_of_le hk)

private theorem near (h : ExtentInv part s names forked) {p : Nat × Nat} (hp : p ∈ forked) {e : Extent}
    (he : e ∈ ([⟨forkPlace part p.1, 512⟩, ⟨forkPlace part p.1 - 512, p.2⟩] :
      List Extent)) :
    forkPlace part p.1 ≤ e.start + 512 ∧
      e.start + e.size ≤ forkPlace part p.1 + 512 := by
  have hlen := h.length_le
  obtain ⟨_, hlt, hsize⟩ := h.bounds p hp
  have hgt := h.geometry.place_gt (k := p.1) (by omega)
  simp only [List.mem_cons, List.not_mem_nil, or_false] at he
  rcases he with rfl | rfl
  · dsimp only
    omega
  · dsimp only
    omega

/-- The block and the catalogs. -/
private def lowExtents (n : Nat) : List Extent :=
  ⟨1024, 512⟩ :: (List.range n).map fun k => ⟨2560 + 2048 * k, 512⟩

private def placeExtents (part : NfsRootPartitionBlock) (forked : List (Nat × Nat)) : List Extent :=
  forked.flatMap fun p => [⟨forkPlace part p.1, 512⟩, ⟨forkPlace part p.1 - 512, p.2⟩]

private theorem extents_eq (h : ExtentInv part s names forked) :
    s.extents = lowExtents names.length ++ placeExtents part forked := by
  have hlen := h.length_le
  have hcats : s.catalogs.map (fun lba => (⟨lba.toNat, 512⟩ : Extent)) =
      (List.range names.length).map fun k => ⟨2560 + 2048 * k, 512⟩ := by
    rw [h.catalogs_eq, List.map_map]
    apply List.map_congr_left
    intro k hk
    have hk := List.mem_range.mp hk
    rw [Function.comp_apply, h.slot_toNat (by omega)]
  have hforks : s.forks.flatMap (fun f => [f.1, f.2]) = placeExtents part forked := by
    rw [h.forks_eq, List.flatMap_map]
    rfl
  rw [ExtentState.extents, hcats, hforks]
  rfl

private theorem lowExtents_le {n : Nat} {e : Extent} (he : e ∈ lowExtents n) :
    e.start + e.size ≤ 2048 * n + 1536 := by
  rcases List.mem_cons.mp he with rfl | he
  · dsimp only
    omega
  · obtain ⟨k, hk, rfl⟩ := List.mem_map.mp he
    have hk := List.mem_range.mp hk
    dsimp only
    omega

private theorem lowExtents_apart (n : Nat) : (lowExtents n).Pairwise Extent.Apart := by
  rw [lowExtents, List.pairwise_cons, List.pairwise_map]
  constructor
  · intro e he
    obtain ⟨k, _, rfl⟩ := List.mem_map.mp he
    apply Extent.apart_of_le
    dsimp only
    omega
  · refine List.pairwise_lt_range.imp ?_
    intro j k hjk
    apply Extent.apart_of_le
    dsimp only
    omega

private theorem place_gt (h : ExtentInv part s names forked) {p : Nat × Nat} (hp : p ∈ forked) :
    2048 * part.capacity + 6656 ≤ forkPlace part p.1 := by
  have hlen := h.length_le
  have hlt := (h.bounds p hp).2.1
  exact h.geometry.place_gt (by omega)

private theorem placeExtents_apart (h : ExtentInv part s names forked) :
    (placeExtents part forked).Pairwise Extent.Apart := by
  have hg := h.geometry
  have hlen := h.length_le
  rw [placeExtents, List.pairwise_flatMap]
  constructor
  · intro p hp
    have hsize := (h.bounds p hp).2.2
    have hgt := h.place_gt hp
    rw [List.pairwise_pair]
    apply Extent.Apart.symm
    apply Extent.apart_of_le
    dsimp only
    omega
  · have hne : forked.Pairwise fun p q => p.1 ≠ q.1 := List.pairwise_map.mp h.distinct
    refine hne.imp_of_mem ?_
    intro p q hp hq hpq x hx y hy
    have hnx := h.near hp hx
    have hny := h.near hq hy
    have hplt := (h.bounds p hp).2.1
    have hqlt := (h.bounds q hq).2.1
    rcases hg.place_apart_or (by omega) (by omega) hpq with hbelow | habove
    · exact Extent.apart_of_le (by omega)
    · exact (Extent.apart_of_le (by omega)).symm

/-- Separation follows from the order of the places on the disk. -/
private theorem separated (h : ExtentInv part s names forked) : s.Separated := by
  have hg := h.geometry
  have hlen := h.length_le
  rw [ExtentState.Separated, h.extents_eq, h.diskSize_eq]
  constructor
  · refine List.pairwise_append.mpr ⟨lowExtents_apart _, h.placeExtents_apart, ?_⟩
    intro x hx y hy
    obtain ⟨p, hp, hy⟩ := List.mem_flatMap.mp hy
    have hny := h.near hp hy
    have hgt := h.place_gt hp
    have hx := lowExtents_le hx
    exact Extent.apart_of_le (by omega)
  · intro e he
    apply Extent.within_of_le
    rcases List.mem_append.mp he with he | he
    · have hcap := hg.place_gt (k := 0) (Nat.zero_le _)
      have hle := hg.place_le (k := 0) (Nat.zero_le _)
      have he := lowExtents_le he
      omega
    · obtain ⟨p, hp, he⟩ := List.mem_flatMap.mp he
      have hne := h.near hp he
      have hplt := (h.bounds p hp).2.1
      have hle := hg.place_le (k := p.1) (by omega)
      omega

private theorem taken_le (h : ExtentInv part s names forked) {k : Nat}
    (hk : k ∈ forked.map Prod.fst) : k ≤ part.capacity := by
  obtain ⟨p, hp, rfl⟩ := List.mem_map.mp hk
  exact (h.bounds p hp).2.1.le.trans h.length_le

/-- A fork stays used on a drive that keeps its place. -/
private theorem used_kept (h : ExtentInv part s names forked) {k : Nat}
    (hk : k ∈ forked.map Prod.fst) {d' : Drive}
    (hkept : ∀ x, forkPlace part k ≤ x → x < forkPlace part k + 512 → d' x = s.drive x) :
    (d'.fork (part.diskSize - slotAt k)).Created ∧
      (d'.fork (part.diskSize - slotAt k)).nextSibling ≠ 0 := by
  have hplace := h.geometry.place_toNat (h.taken_le hk)
  have hsame : d'.fork (part.diskSize - slotAt k) = s.drive.fork (part.diskSize - slotAt k) :=
    Drive.fork_congr fun x hx hlt => hkept x (hplace ▸ hx) (hplace ▸ hlt)
  rw [hsame]
  exact h.used k hk

private theorem createCatalog (h : ExtentInv part s names forked) {name : List UInt8}
    {flags kind : Int32} {r : CatalogReply} (h0 : 0 ∉ name)
    (hr : Yields (fun fuel => FSKit.createCatalog fuel s.drive name flags kind) r) :
    ∃ names', ExtentInv part (s.afterCatalog r) names' forked := by
  have hrep := h.represents
  have hlen := h.length_le
  cases hrep.createCatalog_cases h0 hr with
  | refused =>
    refine ⟨names, ?_⟩
    simpa [ExtentState.afterCatalog, CatalogReply.null] using h
  | existing hfit hmem err =>
    have hrec := hrep.record_idxOf hmem
    have hidx := List.idxOf_lt_length_iff.mpr hmem
    rw [h.diskSize_eq] at hrec
    refine ⟨names, { h with catalogs_eq := ?_, handles := ?_ }⟩
    · simpa [ExtentState.afterCatalog] using h.catalogs_eq
    · intro c hc
      rcases List.mem_append.mp hc with hc | hc
      · exact h.handles c hc
      · rw [List.mem_singleton.mp hc]
        exact ⟨names.idxOf name, hidx, hrec.dataFork_eq, hrec.resourceFork_eq⟩
  | created hname hfit hnew hfree c hkind hrec =>
    have hslot := h.slot_toNat hlen
    have hrep' := hrep.extend hname hnew hfree hrec
    have hpart : ((s.drive.putCatalog (slotAt names.length) c).putPart
        s.drive.part.countCreated).part = s.drive.part.countCreated := Drive.part_putPart _ _
    -- the slot and the block lie below every place
    have hkept : ∀ k, k ≤ part.capacity → ∀ x, forkPlace part k ≤ x →
        (s.drive.putCatalog (slotAt names.length) c).putPart s.drive.part.countCreated x =
          s.drive x := by
      intro k hk x hx
      have hgt := h.geometry.place_gt hk
      rw [Drive.putPart_outside _ (Or.inr (by omega)),
        Drive.putCatalog_outside _ (Or.inr (by omega))]
    rw [h.diskSize_eq] at hrec
    generalize (s.drive.putCatalog (slotAt names.length) c).putPart s.drive.part.countCreated = d'
      at hpart hkept hrep' ⊢
    have hlast : (names ++ [name]).length = names.length + 1 := List.length_append
    refine ⟨names ++ [name], hrep', h.geometry, ?_, ?_, ?_, ?_, h.forks_eq, h.distinct, ?_, ?_, ?_⟩
    · change d'.part.diskSize = part.diskSize
      rw [hpart, countCreated_diskSize]
      exact h.diskSize_eq
    · change d'.part.capacity = part.capacity
      rw [hpart, countCreated_capacity]
      exact h.capacity_eq
    · rw [hlast, List.range_succ, List.map_append, ← h.catalogs_eq]
      rfl
    · intro e he
      rw [hlast]
      rcases List.mem_append.mp he with he | he
      · obtain ⟨k, hk, hfork⟩ := h.handles e he
        exact ⟨k, Nat.lt_succ_of_lt hk, hfork⟩
      · rw [List.mem_singleton.mp he]
        exact ⟨names.length, Nat.lt_succ_self _, hrec.dataFork_eq, hrec.resourceFork_eq⟩
    · intro p hp
      rw [hlast]
      obtain ⟨hpos, hlt, hsize⟩ := h.bounds p hp
      exact ⟨hpos, Nat.lt_succ_of_lt hlt, hsize⟩
    · intro k hk hfree' x hx hlt
      change d' x = 0
      rw [hkept k hk x hx]
      exact h.blank k hk hfree' x hx hlt
    · intro k hk
      exact h.used_kept hk fun x hx _ => hkept k (h.taken_le hk) x hx

/-- Of the catalogs that were returned, all but the root name a place of their own. -/
private theorem handle_place (h : ExtentInv part s names forked) {c : NfsCatalogStruct}
    (hc : c ∈ s.handles) {f : NfsForkStruct} (hacc : ForkAccepted c f) :
    ∃ k, 1 ≤ k ∧ k < names.length ∧ c.forkLba f.isData = part.diskSize - slotAt k := by
  obtain ⟨k, hk, hdata, hrsrc⟩ := h.handles c hc
  have hlba : c.forkLba f.isData = c.dataFork := by
    rw [NfsCatalogStruct.forkLba]
    split
    · rfl
    · exact hrsrc
  have hzero : k ≠ 0 := by
    intro h
    subst h
    apply hacc.2
    rw [hlba, hdata, if_pos rfl]
    exact UInt64.le_iff_toNat_le.mpr (Nat.zero_le _)
  exact ⟨k, Nat.one_le_iff_ne_zero.mpr hzero, hk, by rw [hlba, hdata, if_neg hzero]⟩

private theorem putFork (h : ExtentInv part s names forked) {k : Nat} (hpos : 1 ≤ k)
    (hk : k < names.length) (hnew : k ∉ forked.map Prod.fst) {f : NfsForkStruct}
    (hsize : f.dataSize.toNat ≤ 512) (hcreated : f.Created) (hnext : f.nextSibling ≠ 0)
    (hoff : f.dataOffset.toNat = forkPlace part k - 512) :
    ExtentInv part
      (s.afterFork ⟨some f, some (part.diskSize - slotAt k),
        s.drive.putFork (part.diskSize - slotAt k) f⟩) names
      (forked ++ [(k, f.dataSize.toNat)]) := by
  have hg := h.geometry
  have hlen := h.length_le
  have hcap : k ≤ part.capacity := by omega
  have hgt := hg.place_gt hcap
  have hplace := hg.place_toNat hcap
  have hfork : (s.drive.putFork (part.diskSize - slotAt k) f).fork (part.diskSize - slotAt k) =
      f := Drive.fork_putFork
  have hout : ∀ x, x < forkPlace part k ∨ forkPlace part k + 512 ≤ x →
      s.drive.putFork (part.diskSize - slotAt k) f x = s.drive x := by
    intro x hx
    rw [← hplace] at hx
    exact Drive.putFork_outside hx
  -- every other place is a stride away
  have hother : ∀ j, j ≤ part.capacity → j ≠ k → ∀ x, forkPlace part j ≤ x →
      x < forkPlace part j + 512 → s.drive.putFork (part.diskSize - slotAt k) f x = s.drive x := by
    intro j hj hne x hx hlt
    apply hout
    rcases hg.place_apart_or hj hcap hne with hbelow | habove
    · exact Or.inl (by omega)
    · exact Or.inr (by omega)
  generalize s.drive.putFork (part.diskSize - slotAt k) f = d' at hfork hout hother ⊢
  have hpart : d'.part = s.drive.part :=
    Drive.part_congr fun x _ hlt => hout x (Or.inl (by omega))
  have hrep : Represents d' names := h.represents.congr fun x _ hlt => by
    rw [h.capacity_eq] at hlt
    exact hout x (Or.inl (by omega))
  have hfst : (forked ++ [(k, f.dataSize.toNat)]).map Prod.fst = forked.map Prod.fst ++ [k] :=
    List.map_append
  refine ⟨hrep, hg, ?_, ?_, h.catalogs_eq, h.handles, ?_, ?_, ?_, ?_, ?_⟩
  · change d'.part.diskSize = part.diskSize
    rw [hpart]
    exact h.diskSize_eq
  · change d'.part.capacity = part.capacity
    rw [hpart]
    exact h.capacity_eq
  · rw [List.map_append, ← h.forks_eq, List.map_singleton]
    change s.forks ++ [_] = _
    rw [hplace, hoff]
  · rw [hfst]
    exact List.nodup_append'.mpr ⟨h.distinct, List.nodup_singleton k,
      List.disjoint_singleton.mpr hnew⟩
  · intro p hp
    rcases List.mem_append.mp hp with hp | hp
    · exact h.bounds p hp
    · rw [List.mem_singleton.mp hp]
      exact ⟨hpos, hk, hsize⟩
  · intro j hj hfree x hx hlt
    rw [hfst, List.mem_append, List.mem_singleton, not_or] at hfree
    change d' x = 0
    rw [hother j hj hfree.2 x hx hlt]
    exact h.blank j hj hfree.1 x hx hlt
  · intro j hj
    change (d'.fork (part.diskSize - slotAt j)).Created ∧
      (d'.fork (part.diskSize - slotAt j)).nextSibling ≠ 0
    rw [hfst] at hj
    rcases List.mem_append.mp hj with hj | hj
    · have hne : j ≠ k := fun heq => hnew (heq ▸ hj)
      exact h.used_kept hj (hother j (h.taken_le hj) hne)
    · rw [List.mem_singleton.mp hj, hfork]
      exact ⟨hcreated, hnext⟩

/-- A place is written to unless it is taken and the fork there has no link. -/
private theorem reply (h : ExtentInv part s names forked) {c : NfsCatalogStruct}
    {f : NfsForkStruct} (hacc : ForkAccepted c f) {k : Nat} (hk : k < names.length)
    (hlba : c.forkLba f.isData = part.diskSize - slotAt k) :
    ((s.drive.fork (part.diskSize - slotAt k)).Created ↔ k ∈ forked.map Prod.fst) ∧
      forkReply s.drive c f = writeFork s.drive f
        ⟨part.diskSize - slotAt k, part.diskSize - slotAt k, .zero⟩ := by
  have hcap : k ≤ part.capacity := hk.le.trans h.length_le
  have hplace := h.geometry.place_toNat hcap
  have htaken : (s.drive.fork (part.diskSize - slotAt k)).Created ↔ k ∈ forked.map Prod.fst := by
    constructor
    · intro hc
      by_contra hfree
      have hblank : s.drive.fork (part.diskSize - slotAt k) = .zero :=
        Drive.fork_of_zero fun x hx hlt =>
          h.blank k hcap hfree x (hplace ▸ hx) (hplace ▸ hlt)
      rw [hblank] at hc
      exact zero_fork_not_created hc
    · exact fun hmem => (h.used k hmem).1
  refine ⟨htaken, ?_⟩
  rw [forkReply, hlba, if_neg (not_not.mpr hacc), if_neg]
  intro h
  rcases h with ⟨hc, hnext⟩
  exact (h.used k (htaken.mp hc)).2 hnext

private theorem finish_place (h : Geometry part) {k : Nat} (hk : k ≤ part.capacity)
    (f : NfsForkStruct) :
    (finishFork f (part.diskSize - slotAt k) (part.diskSize - slotAt k)).dataOffset.toNat =
      forkPlace part k - 512 := by
  have hgt := h.place_gt hk
  have hplace := h.place_toNat hk
  have hsize : forkSize.toNat = 512 := rfl
  have hle : forkSize ≤ part.diskSize - slotAt k := by
    rw [UInt64.le_iff_toNat_le, hplace, hsize]
    omega
  change (part.diskSize - slotAt k - forkSize).toNat = _
  rw [UInt64.toNat_sub_of_le _ _ hle, hplace, hsize]

/-- A small fork leaves its catalog a link to the place below its data. -/
private theorem finish_next (h : Geometry part) {k : Nat} (hk : k ≤ part.capacity)
    {f : NfsForkStruct} (hsize : f.dataSize.toNat ≤ 512) :
    (finishFork f (part.diskSize - slotAt k) (part.diskSize - slotAt k)).nextSibling ≠ 0 := by
  have hgt := h.place_gt hk
  have hoff : (part.diskSize - slotAt k - forkSize).toNat = forkPlace part k - 512 :=
    finish_place h hk f
  have h512 : forkSize.toNat = 512 := rfl
  change part.diskSize - slotAt k - forkSize - f.dataSize - forkSize ≠ 0
  generalize part.diskSize - slotAt k - forkSize = off at hoff ⊢
  have hdata : f.dataSize ≤ off := by
    rw [UInt64.le_iff_toNat_le]
    omega
  have hlast := UInt64.toNat_sub_of_le _ _ hdata
  have hend : forkSize ≤ off - f.dataSize := by
    rw [UInt64.le_iff_toNat_le, hlast]
    omega
  intro hzero
  have hnat := congrArg UInt64.toNat hzero
  rw [UInt64.toNat_sub_of_le _ _ hend, hlast, UInt64.toNat_zero] at hnat
  omega

private theorem createFork (h : ExtentInv part s names forked) {c : NfsCatalogStruct}
    {f : NfsForkStruct} (hc : c ∈ s.handles) (hfit : ExtentOp.Fits s (.createFork c f)) :
    ∃ forked', ExtentInv part (s.afterFork (forkReply s.drive c f)) names forked' := by
  by_cases hacc : ForkAccepted c f
  · obtain ⟨k, hpos, hk, hlba⟩ := h.handle_place hc hacc
    obtain ⟨hsize, hfree⟩ := hfit hacc
    obtain ⟨htaken, hreply⟩ := h.reply hacc hk hlba
    have hcap : k ≤ part.capacity := hk.le.trans h.length_le
    have hsize : f.dataSize.toNat ≤ 512 := UInt64.le_iff_toNat_le.mp hsize
    rw [hlba, htaken] at hfree
    rw [hreply]
    exact ⟨_, h.putFork hpos hk hfree
      (f := finishFork f (part.diskSize - slotAt k) (part.diskSize - slotAt k)) hsize
      (finishFork_created _ _ _) (finish_next h.geometry hcap hsize)
      (finish_place h.geometry hcap f)⟩
  · refine ⟨forked, ?_⟩
    rw [forkReply, if_pos hacc]
    simpa [ExtentState.afterFork, ForkReply.null, ExtentState.forkExtents] using h

private theorem step (h : ExtentInv part s names forked) {op : ExtentOp}
    (hfit : op.Fits s) (hs : ExtentStep s op t) :
    ∃ names' forked', ExtentInv part t names' forked' := by
  cases hs with
  | createCatalog h0 hr =>
    obtain ⟨names', hinv⟩ := h.createCatalog h0 hr
    exact ⟨names', forked, hinv⟩
  | createFork hc hr =>
    rw [createFork_reply hr]
    obtain ⟨forked', hinv⟩ := h.createFork hc hfit
    exact ⟨names, forked', hinv⟩

/-- A larger fork reaches into its own header, a second one has the header of the first. -/
private theorem fits (h : ExtentInv part s names forked) {op : ExtentOp}
    (hs : ExtentStep s op t) (hsep : t.Separated) : op.Fits s := by
  cases hs with
  | createCatalog => trivial
  | @createFork c f r hc hr =>
    intro hacc
    rw [createFork_reply hr] at hsep
    obtain ⟨k, _, hk, hlba⟩ := h.handle_place hc hacc
    obtain ⟨htaken, hreply⟩ := h.reply hacc hk hlba
    have hcap : k ≤ part.capacity := hk.le.trans h.length_le
    have hgt := h.geometry.place_gt hcap
    have hforks : (s.afterFork (forkReply s.drive c f)).forks =
        s.forks ++ [(⟨forkPlace part k, 512⟩, ⟨forkPlace part k - 512, f.dataSize.toNat⟩)] := by
      rw [hreply, ← finish_place h.geometry hcap f, ← h.geometry.place_toNat hcap]
      rfl
    have hpairs := hsep.1
    rw [ExtentState.extents, hforks, List.flatMap_append, ← List.append_assoc, List.flatMap_singleton,
      List.pairwise_append, List.pairwise_pair] at hpairs
    obtain ⟨_, hown, hothers⟩ := hpairs
    constructor
    · by_contra hlarge
      have hlarge := UInt64.lt_iff_toNat_lt.mp (UInt64.not_le.mp hlarge)
      have h512 : forkSize.toNat = 512 := rfl
      refine Extent.not_apart_of_mem (a := forkPlace part k) ?_ ?_ hown
      · dsimp only
        omega
      · dsimp only
        omega
    · rw [hlba, htaken]
      intro hmem
      obtain ⟨p, hp, rfl⟩ := List.mem_map.mp hmem
      have hold : (⟨forkPlace part p.1, 512⟩ : Extent) ∈
          s.forks.flatMap fun f => [f.1, f.2] := by
        rw [h.forks_eq, List.flatMap_map]
        exact List.mem_flatMap.mpr ⟨p, hp, List.mem_cons_self⟩
      refine Extent.not_apart_of_mem (a := forkPlace part p.1) ?_ ?_
        (hothers _ (List.mem_append_right _ hold) _ List.mem_cons_self)
      · dsimp only
        omega
      · dsimp only
        omega

end ExtentInv

section Run

variable {blobCount : SizeT} {d : Drive} {s t : ExtentState}

private theorem run_inv (hd : BootFormatted blobCount d)
    (hblank : ∀ x, 3072 ≤ x → x < d.part.diskSize.toNat → d x = 0)
    (hr : Reaches ExtentStep ExtentOp.Fits (.boot d) s) :
    ∃ names forked, ExtentInv d.part s names forked := by
  refine hr.invariant (fun s => ∃ names forked, ExtentInv d.part s names forked)
    ⟨_, _, ExtentInv.boot hd hblank⟩ ?_
  intro x op y h hfit hs
  rcases h with ⟨names, forked, hinv⟩
  exact hinv.step hfit hs

/-- The extents stay apart as long as the forks fit, and the first one that does not spoils it. -/
theorem extents_separated (hd : BootFormatted blobCount d)
    (hblank : ∀ x, 3072 ≤ x → x < d.part.diskSize.toNat → d x = 0)
    (hr : Reaches ExtentStep ExtentOp.Fits (.boot d) s) :
    s.Separated ∧ ∀ op t, ExtentStep s op t → (t.Separated ↔ op.Fits s) := by
  obtain ⟨names, forked, hinv⟩ := run_inv hd hblank hr
  refine ⟨hinv.separated, fun op t hs => ⟨hinv.fits hs, fun hfit => ?_⟩⟩
  obtain ⟨_, _, hnext⟩ := hinv.step hfit hs
  exact hnext.separated

end Run

private theorem boot_directory : ∃ c s,
    Reaches ExtentStep ExtentOp.Fits (.boot bootDrive) s ∧
    Reaches ExtentStep (fun _ op => op.Sized) (.boot bootDrive) s ∧
    c ∈ s.handles ∧ c.dataFork = bootDrive.part.diskSize - slotAt 1 := by
  obtain ⟨c, _, hrec, hy⟩ := bootDrive_formatted.represents.yields_createCatalog
    sampleDir_valid.resolves 0 kNeFSCatalogKindDir (by decide) (by decide)
    bootDrive_formatted.free
  have hs := ExtentStep.createCatalog (s := .boot bootDrive) sampleDir_valid.noNul hy
  refine ⟨c, _, .one (a := .createCatalog sampleDir 0 kNeFSCatalogKindDir) trivial hs,
    .one (a := .createCatalog sampleDir 0 kNeFSCatalogKindDir) trivial hs, ?_, hrec.dataFork_eq⟩
  exact List.mem_append_right _ (List.mem_singleton_self c)

theorem extents_separated_boot : ∃ s : ExtentState, s.handles ≠ [] ∧ s.Separated := by
  obtain ⟨_, s, hrun, _, hc, _⟩ := boot_directory
  exact ⟨s, List.ne_nil_of_mem hc,
    (extents_separated bootDrive_formatted (fun _ hx _ => bootDrive_blank hx) hrun).1⟩

/-- A fork of 1024 bytes lies over its own header. -/
theorem extents_overlap : ∃ s, Reaches ExtentStep (fun _ op => op.Sized) (.boot bootDrive) s ∧
    ¬ s.Separated := by
  obtain ⟨c, s, hfits, hsized, hc, hdata⟩ := boot_directory
  obtain ⟨names, forked, hinv⟩ :=
    run_inv bootDrive_formatted (fun _ hx _ => bootDrive_blank hx) hfits
  have hstep : ExtentStep s (.createFork c { sampleFork c with dataSize := 1024 })
      (s.afterFork (forkReply s.drive c { sampleFork c with dataSize := 1024 })) :=
    .createFork hc (.intro 2 (createFork_eq _ _ _ le_rfl))
  refine ⟨_, hsized.tail ⟨_, ?_, hstep⟩, fun hsep => ?_⟩
  · exact UInt64.le_iff_toNat_le.mpr (show 1024 ≤ 16777216 by decide)
  · have hacc : ForkAccepted c { sampleFork c with dataSize := 1024 } := by
      refine ⟨⟨?_, UInt64.le_iff_toNat_le.mpr (show 1024 ≤ 16777216 by decide)⟩, ?_⟩
      · simp [sampleFork, charBuffer]
      · change ¬ c.dataFork ≤ kNeFSCatalogStartAddress
        have hlen := bootDrive_formatted.represents.length_le
        have hgt := bootDrive_formatted.geometry.place_gt hlen
        have hplace := bootDrive_formatted.geometry.place_toNat hlen
        have hstart : kNeFSCatalogStartAddress.toNat = 2560 := rfl
        rw [List.length_singleton] at hplace hgt
        rw [hdata, UInt64.le_iff_toNat_le, hplace, hstart]
        omega
    have hle := (hinv.fits hstep hsep hacc).1
    exact absurd (UInt64.le_iff_toNat_le.mp hle) (show ¬ 1024 ≤ 512 by decide)

end Zka.FSKit
