import Zka.FSKit.Fork
import Zka.Framework.Halting

/-!
# Walks over links

On which images the loops that follow `NextSibling` come to an end.  None of them counts
its passes or remembers where it was.
-/

namespace Zka.FSKit

open NewKit Outcome

instance : Finite Lba := Finite.of_injective UInt64.toFin fun _ _ => UInt64.toFin_inj.mp

/-! ## The links -/

section Links

variable (d : Drive)

/-- Where `WriteCatalog` goes on to, unless it has left the list, found a fork without data or
found its own. -/
def writeNext (catalog : NfsCatalogStruct) (sizeOfData : SizeT) (forkName : List UInt8)
    (startFork : Lba) : Option Lba :=
  let f := d.fork startFork
  if ¬ kNeFSCatalogStartAddress ≤ startFork ∨ f.dataOffset ≤ kNeFSCatalogStartAddress ∨
      (f.flags ≠ kNeFSFlagUnallocated.toUInt32.toInt32 ∧
        f.flags ≠ kNeFSFlagDeleted.toUInt32.toInt32 ∧
        sameFork f forkName catalog.nameChars ∧ f.dataSize = sizeOfData) then none
  else some f.nextSibling

def readNext (catalog : NfsCatalogStruct) (forkName : List UInt8) (dataForkLba : Lba) :
    Option Lba :=
  let f := d.fork dataForkLba
  if ¬ kNeFSCatalogStartAddress < dataForkLba ∨
      (equals forkName f.forkNameChars = true ∧
        equals catalog.nameChars f.catalogNameChars = true) then none
  else some f.nextSibling

/-- Where `FindCatalog` goes on to, unless it has found the catalog or come to the end. -/
def searchNext (catalogName : List UInt8) (startCatalogList : Lba) : Option Lba :=
  let catalog := d.catalog startCatalogList
  if (equals catalogName catalog.nameChars ∧ catalog.Created) ∨
      catalog.nextSibling ≤ kNeFSRootCatalogStartAddress then none
  else some catalog.nextSibling

end Links

variable {d : Drive}

/-! ## Loops over forks -/

theorem createFork_stops (catalog : Option NfsCatalogStruct) (theFork : NfsForkStruct) :
    Stops fun fuel => createFork fuel d catalog theFork := by
  cases catalog with
  | none => exact Yields.stops ⟨0, rfl⟩
  | some catalog => exact Yields.stops ⟨2, createFork_eq d catalog theFork le_rfl⟩

/-- The first pass of `FindFork` is its last. -/
theorem findFork_stops (fPacketGood : Bool) (catalog : Option NfsCatalogStruct)
    (name : List UInt8) (isDataFork : Bool) :
    Stops fun fuel => findFork fuel fPacketGood catalog name isDataFork := by
  refine ⟨1, ?_⟩
  cases catalog with
  | none => exact fault_ne_running _
  | some catalog =>
    dsimp only [findFork]
    rw [whileLoop_succ, findForkBody]
    split
    · exact done_ne_running _
    · cases fPacketGood
      · exact fault_ne_running _
      · exact done_ne_running _

theorem writeBody_next (catalog : NfsCatalogStruct) (sizeOfData : SizeT) (forkName : List UInt8)
    (startFork : Lba) :
    ∃ out, writeBody d catalog sizeOfData forkName startFork = .done out ∧
      writeNext d catalog sizeOfData forkName startFork = out.getLeft?.map id := by
  rw [writeBody, writeNext]
  dsimp only
  by_cases hstart : kNeFSCatalogStartAddress ≤ startFork
  · by_cases hdata : (d.fork startFork).dataOffset ≤ kNeFSCatalogStartAddress
    · exact ⟨.inr .corrupted, by simp [hstart, hdata], by simp [hdata]⟩
    · by_cases hfound : (d.fork startFork).flags ≠ kNeFSFlagUnallocated.toUInt32.toInt32 ∧
          (d.fork startFork).flags ≠ kNeFSFlagDeleted.toUInt32.toInt32 ∧
          sameFork (d.fork startFork) forkName catalog.nameChars ∧
          (d.fork startFork).dataSize = sizeOfData
      · refine ⟨.inr (.found startFork), ?_, ?_⟩
        · rw [if_neg (not_not.mpr hstart), if_neg hdata, if_pos hfound]
        · rw [if_pos (Or.inr (Or.inr hfound))]
          rfl
      · refine ⟨.inl (d.fork startFork).nextSibling, ?_, ?_⟩
        · rw [if_neg (not_not.mpr hstart), if_neg hdata, if_neg hfound]
        · rw [if_neg (by simp only [hstart, hdata, hfound, not_true_eq_false, or_self,
            not_false_eq_true])]
          rfl
  · exact ⟨.inr .missing, by simp [hstart], by simp [hstart]⟩

theorem readBody_next (catalog : NfsCatalogStruct) (forkName : List UInt8)
    (s : Lba × Option NfsForkStruct) :
    ∃ out, readBody d catalog forkName s = .done out ∧
      readNext d catalog forkName s.1 = out.getLeft?.map Prod.fst := by
  rw [readBody, readNext]
  dsimp only
  by_cases hstart : kNeFSCatalogStartAddress < s.1
  · by_cases hfound : equals forkName (d.fork s.1).forkNameChars = true ∧
        equals catalog.nameChars (d.fork s.1).catalogNameChars = true
    · exact ⟨.inr (s.1, some (d.fork s.1)), by simp [hstart, hfound], by simp [hfound]⟩
    · refine ⟨.inl ((d.fork s.1).nextSibling, some (d.fork s.1)), ?_, ?_⟩
      · rw [if_neg (not_not.mpr hstart), if_neg hfound]
      · rw [if_neg (not_or.mpr ⟨not_not.mpr hstart, hfound⟩)]
        rfl
  · exact ⟨.inr s, by simp [hstart], by simp [hstart]⟩

theorem searchBody_next (catalogName : List UInt8) (startCatalogList : Lba) :
    ∃ out, searchBody d catalogName startCatalogList = .done out ∧
      searchNext d catalogName startCatalogList = out.getLeft?.map id := by
  rw [searchBody, searchNext]
  by_cases hfound : equals catalogName (d.catalog startCatalogList).nameChars ∧
      (d.catalog startCatalogList).Created
  · exact ⟨.inr (some (d.catalog startCatalogList, startCatalogList)), if_pos hfound,
      if_pos (Or.inl hfound)⟩
  · by_cases hend : (d.catalog startCatalogList).nextSibling ≤ kNeFSRootCatalogStartAddress
    · refine ⟨.inr none, ?_, if_pos (Or.inr hend)⟩
      rw [if_neg hfound, if_pos hend]
    · refine ⟨.inl (d.catalog startCatalogList).nextSibling, ?_, if_neg (not_or.mpr ⟨hfound, hend⟩)⟩
      rw [if_neg hfound, if_neg hend]

theorem writeCatalog_stops_iff {catalog : NfsCatalogStruct} {isRsrcFork : Bool}
    {data : Nat → UInt8} {sizeOfData : SizeT} {forkName : List UInt8}
    (hsize : ¬ (kNeFSForkDataSz < sizeOfData ∨ sizeOfData = 0)) :
    Stops (fun fuel => writeCatalog fuel d (some catalog) isRsrcFork data sizeOfData forkName) ↔
      NoCircle (writeNext d catalog sizeOfData forkName) (catalog.forkLba !isRsrcFork) := by
  have hloop := stops_whileLoop_iff (writeBody_next (d := d) catalog sizeOfData forkName)
    (s := catalog.forkLba !isRsrcFork)
  refine Iff.trans ?_ hloop
  simp only [writeCatalog, if_neg hsize]
  exact stops_bind_const_iff (whileLoop_mono _ _) fun _ => done_ne_running _

theorem readCatalog_stops_iff {catalog : NfsCatalogStruct} {isRsrcFork : Bool} {dataSz : SizeT}
    {forkName : List UInt8} :
    Stops (fun fuel => readCatalog fuel d (some catalog) isRsrcFork dataSz forkName) ↔
      NoCircle (readNext d catalog forkName) (catalog.forkLba !isRsrcFork) := by
  have hloop := stops_whileLoop_iff (readBody_next (d := d) catalog forkName)
    (s := (catalog.forkLba !isRsrcFork, none))
  refine Iff.trans ?_ hloop
  apply stops_bind_const_iff (whileLoop_mono _ _)
  intro s
  split <;> exact done_ne_running _

/-! ## `FindCatalog` -/

theorem searchCatalogList_stops_iff {catalogName : List UInt8} {start : Lba} :
    Stops (fun fuel => searchCatalogList fuel d catalogName start) ↔
      NoCircle (searchNext d catalogName) start :=
  stops_whileLoop_iff (searchBody_next (d := d) catalogName)

theorem searchFound_stops_iff {catalogName : List UInt8} {start : Lba} :
    Stops (fun fuel => searchCatalogList fuel d catalogName start >>= fun r =>
      (.done (foundOrNull r) : Outcome CFault _)) ↔
        NoCircle (searchNext d catalogName) start := by
  rw [← searchCatalogList_stops_iff]
  exact stops_bind_const_iff (searchCatalogList_mono d catalogName _) fun _ => done_ne_running _

/-- The parent of a name was looked for and found. -/
structure FoundUnder (d : Drive) (name parent : List UInt8) (catalog : NfsCatalogStruct) : Prop where
  notRoot : ¬ equals name kNeFSRoot
  scan : parentName name = .done parent
  found : ∃ lba, Yields (fun fuel => findCatalog fuel d parent) (some catalog, lba)

/-- The walks that `FindCatalog` makes: the name that is looked for and where the walk begins.
Those for the parent come first; then there is one behind the parent, unless that is the root,
and one over the whole list if that one has not found the name. -/
inductive WalkOf (d : Drive) : List UInt8 → List UInt8 × Lba → Prop
  | root {name : List UInt8} (h : equals name kNeFSRoot) :
      WalkOf d name (name, d.part.startCatalog)
  | parent {name parent : List UInt8} {w : List UInt8 × Lba} (h : ¬ equals name kNeFSRoot)
      (hscan : parentName name = .done parent) (hw : WalkOf d parent w) : WalkOf d name w
  | inRoot {name parent : List UInt8} {catalog : NfsCatalogStruct}
      (h : FoundUnder d name parent catalog) (hroot : equals parent kNeFSRoot) :
      WalkOf d name (name, d.part.startCatalog)
  | behind {name parent : List UInt8} {catalog : NfsCatalogStruct}
      (h : FoundUnder d name parent catalog) (hroot : ¬ equals parent kNeFSRoot) :
      WalkOf d name (name, catalog.nextSibling)
  | whole {name parent : List UInt8} {catalog : NfsCatalogStruct}
      (h : FoundUnder d name parent catalog) (hroot : ¬ equals parent kNeFSRoot)
      (hmiss : Yields (fun fuel => searchCatalogList fuel d name catalog.nextSibling) none) :
      WalkOf d name (name, d.part.startCatalog)

/-- What `FindCatalog` does once it has looked for the parent. -/
def searchUnder (fuel : Nat) (d : Drive) (name parent : List UInt8) :
    Option NfsCatalogStruct × Lba → Outcome CFault (Option NfsCatalogStruct × Lba)
  | (none, outLba) => .done (none, outLba)
  | (some parentCatalog, _) =>
    if equals parent kNeFSRoot then
      searchCatalogList fuel d name d.part.startCatalog >>= fun r => .done (foundOrNull r)
    else
      searchCatalogList fuel d name parentCatalog.nextSibling >>= fun
        | some found => .done (foundOrNull (some found))
        | none =>
          searchCatalogList fuel d name d.part.startCatalog >>= fun r => .done (foundOrNull r)

theorem searchUnder_mono (d : Drive) (name parent : List UInt8)
    (reply : Option NfsCatalogStruct × Lba) :
    Monotone fun fuel => searchUnder fuel d name parent reply := by
  intro n m h
  have hlist := fun start => searchCatalogList_mono d name start h
  obtain ⟨catalog | catalog, lba⟩ := reply
  · exact le_refl _
  · dsimp only [searchUnder]
    split
    · exact bind_le_bind (hlist _) fun r => le_refl _
    · apply bind_le_bind (hlist _)
      intro r
      cases r with
      | none => exact bind_le_bind (hlist _) fun r => le_refl _
      | some found => exact le_refl _

theorem findCatalog_under {name parent : List UInt8} (h : ¬ equals name kNeFSRoot)
    (hscan : parentName name = .done parent) (fuel : Nat) :
    findCatalog (fuel + 1) d name = findCatalog fuel d parent >>= searchUnder fuel d name parent := by
  rw [findCatalog, if_neg h, hscan]
  rfl

theorem searchUnder_stops_iff {name parent : List UInt8} {catalog : NfsCatalogStruct} {lba : Lba} :
    Stops (fun fuel => searchUnder fuel d name parent (some catalog, lba)) ↔
      (equals parent kNeFSRoot → NoCircle (searchNext d name) d.part.startCatalog) ∧
      (¬ equals parent kNeFSRoot → NoCircle (searchNext d name) catalog.nextSibling ∧
        (Yields (fun fuel => searchCatalogList fuel d name catalog.nextSibling) none →
          NoCircle (searchNext d name) d.part.startCatalog)) := by
  by_cases hroot : equals parent kNeFSRoot
  · simp only [searchUnder, if_pos hroot]
    rw [searchFound_stops_iff]
    simp [hroot]
  · simp only [searchUnder, if_neg hroot]
    rw [stops_bind_iff (searchCatalogList_mono d name _), searchCatalogList_stops_iff]
    · constructor
      · intro h
        rcases h with ⟨hnear, hrest⟩
        exact ⟨fun h => absurd h hroot,
          fun _ => ⟨hnear, fun hmiss => searchFound_stops_iff.mp (hrest none hmiss)⟩⟩
      · intro h
        rcases h with ⟨_, h⟩
        obtain ⟨hnear, hmiss⟩ := h hroot
        refine ⟨hnear, ?_⟩
        intro r hr
        rcases r with _ | found
        · exact searchFound_stops_iff.mpr (hmiss hr)
        · exact ⟨0, done_ne_running _⟩
    · intro r n m h
      rcases r with _ | found
      · exact bind_le_bind (searchCatalogList_mono d name _ h) fun r => le_refl _
      · exact le_refl _

/-- For the root there is one walk. -/
theorem walkOf_root_iff {name : List UInt8} (h : equals name kNeFSRoot) {w : List UInt8 × Lba} :
    WalkOf d name w ↔ w = (name, d.part.startCatalog) := by
  constructor
  · intro hw
    cases hw with
    | root _ => rfl
    | parent hne => exact absurd h hne
    | inRoot hf | behind hf | whole hf => exact absurd h hf.notRoot
  · intro hw
    subst hw
    exact .root h

/-- Without a parent there is none. -/
theorem not_walkOf_of_fault {name : List UInt8} (h : ¬ equals name kNeFSRoot)
    (hscan : ∀ parent, parentName name ≠ .done parent) (w : List UInt8 × Lba) :
    ¬ WalkOf d name w := by
  intro hw
  cases hw with
  | root hroot => exact h hroot
  | parent _ hdone => exact hscan _ hdone
  | inRoot hf | behind hf | whole hf => exact hscan _ hf.scan

/-- With a parent there are those for the parent, and those under it. -/
theorem forall_walkOf_iff {P : List UInt8 × Lba → Prop} {name parent : List UInt8}
    (h : ¬ equals name kNeFSRoot) (hscan : parentName name = .done parent) :
    (∀ w, WalkOf d name w → P w) ↔
      (∀ w, WalkOf d parent w → P w) ∧ ∀ catalog, FoundUnder d name parent catalog →
        (equals parent kNeFSRoot → P (name, d.part.startCatalog)) ∧
        (¬ equals parent kNeFSRoot → P (name, catalog.nextSibling) ∧
          (Yields (fun fuel => searchCatalogList fuel d name catalog.nextSibling) none →
            P (name, d.part.startCatalog))) := by
  have hsame : ∀ {parent'}, parentName name = .done parent' → parent' = parent :=
    fun h' => Outcome.done.inj (h'.symm.trans hscan)
  constructor
  · intro hall
    refine ⟨fun w hw => hall w (.parent h hscan hw), fun catalog hf => ⟨?_, ?_⟩⟩
    · exact fun hroot => hall (name, d.part.startCatalog) (.inRoot hf hroot)
    · intro hroot
      refine ⟨hall (name, catalog.nextSibling) (.behind hf hroot), ?_⟩
      exact fun hmiss => hall (name, d.part.startCatalog) (.whole hf hroot hmiss)
  · intro hall w hw
    rcases hall with ⟨hparent, hunder⟩
    cases hw with
    | root hroot => exact absurd hroot h
    | parent _ hdone hw =>
      obtain rfl := hsame hdone
      exact hparent w hw
    | inRoot hf hroot =>
      obtain rfl := hsame hf.scan
      exact (hunder _ hf).1 hroot
    | behind hf hroot =>
      obtain rfl := hsame hf.scan
      exact ((hunder _ hf).2 hroot).1
    | whole hf hroot hmiss =>
      obtain rfl := hsame hf.scan
      exact ((hunder _ hf).2 hroot).2 hmiss

theorem findCatalog_root_stops_iff {name : List UInt8} (h : equals name kNeFSRoot) :
    Stops (fun fuel => findCatalog (fuel + 1) d name) ↔
      NoCircle (searchNext d name) d.part.startCatalog := by
  simp only [findCatalog, if_pos h]
  exact searchFound_stops_iff

/-- The scan leaves a shorter name. -/
theorem parentOf_length_lt {name : List UInt8}
    (h : kNeFSSeparator ∈ name.take (name.length - 2)) : (parentOf name).length < name.length := by
  have hle := parentOf_length_le name
  have hpos := List.length_pos_of_ne_nil (parentOf_ne_nil h)
  omega

/-- `FindCatalog` stops exactly when none of its walks runs into a circle.  The induction is on
the length of the name. -/
theorem findCatalog_stops_iff {name : List UInt8} (h0 : 0 ∉ name) :
    Stops (fun fuel => findCatalog fuel d name) ↔
      ∀ w, WalkOf d name w → NoCircle (searchNext d w.1) w.2 := by
  induction hn : name.length using Nat.strong_induction_on generalizing name with
  | h n ih =>
    subst hn
    rw [stops_succ_iff (f := fun fuel => findCatalog fuel d name) rfl]
    by_cases hroot : equals name kNeFSRoot
    · rw [findCatalog_root_stops_iff hroot]
      simp only [walkOf_root_iff hroot, forall_eq]
    have hscan := parentName_eq h0
    by_cases hdone : name.length < kNeFSNodeNameLen ∧ kNeFSSeparator ∈ name.take (name.length - 2)
    swap
    · rw [if_neg hdone] at hscan
      have hnone : ∀ parent, parentName name ≠ .done parent := by simp [hscan]
      refine iff_of_true ⟨0, ?_⟩ fun w hw => absurd hw (not_walkOf_of_fault hroot hnone w)
      dsimp only
      rw [findCatalog, if_neg hroot, hscan]
      exact fault_ne_running _
    rw [if_pos hdone] at hscan
    have hparent := ih _ (parentOf_length_lt hdone.2) (zero_notMem_parentOf h0) rfl
    simp only [findCatalog_under hroot hscan]
    rw [stops_bind_iff (findCatalog_mono d _) (searchUnder_mono d name _), hparent,
      forall_walkOf_iff hroot hscan]
    apply and_congr_right
    intro _
    constructor
    · intro hunder catalog hf
      obtain ⟨lba, hy⟩ := hf.found
      exact searchUnder_stops_iff.mp (hunder _ hy)
    · intro hall reply hy
      rcases reply with ⟨_ | catalog, lba⟩
      · exact ⟨0, done_ne_running _⟩
      · exact searchUnder_stops_iff.mpr (hall catalog ⟨hroot, hscan, lba, hy⟩)

/-! ## All of them -/

/-- What stops on every image, and on which images the others do. -/
theorem walks_stop_iff (d : Drive) (catalog : NfsCatalogStruct) (theFork : NfsForkStruct)
    (fPacketGood isDataFork isRsrcFork : Bool) (data : Nat → UInt8) (sizeOfData dataSz : SizeT)
    (forkName : List UInt8) {catalogName : List UInt8} (h0 : 0 ∉ catalogName) :
    Stops (fun fuel => createFork fuel d (some catalog) theFork) ∧
      Stops (fun fuel => findFork fuel fPacketGood (some catalog) forkName isDataFork) ∧
      (Stops (fun fuel =>
          writeCatalog fuel d (some catalog) isRsrcFork data sizeOfData forkName) ↔
        (kNeFSForkDataSz < sizeOfData ∨ sizeOfData = 0) ∨
          NoCircle (writeNext d catalog sizeOfData forkName) (catalog.forkLba !isRsrcFork)) ∧
      (Stops (fun fuel => readCatalog fuel d (some catalog) isRsrcFork dataSz forkName) ↔
        NoCircle (readNext d catalog forkName) (catalog.forkLba !isRsrcFork)) ∧
      (Stops (fun fuel => findCatalog fuel d catalogName) ↔
        ∀ w, WalkOf d catalogName w → NoCircle (searchNext d w.1) w.2) := by
  refine ⟨createFork_stops _ theFork, findFork_stops fPacketGood _ forkName isDataFork, ?_,
    readCatalog_stops_iff, findCatalog_stops_iff h0⟩
  by_cases hsize : kNeFSForkDataSz < sizeOfData ∨ sizeOfData = 0
  · refine iff_of_true ⟨0, ?_⟩ (Or.inl hsize)
    dsimp only
    rw [writeCatalog, if_pos hsize]
    exact done_ne_running _
  · rw [or_iff_right hsize]
    exact writeCatalog_stops_iff hsize

/-- A fork whose link leads back to it. -/
def circleFork : NfsForkStruct :=
  { NfsForkStruct.zero with dataOffset := 8192, nextSibling := 4096 }

/-- A catalog at the same place, for another drive. -/
def circleEntry : NfsCatalogStruct := { NfsCatalogStruct.zero with nextSibling := 4096 }

/-- The catalog that the fork belongs to. -/
def circleCatalog : NfsCatalogStruct := { NfsCatalogStruct.zero with dataFork := 4096 }

def circleForks : Drive := Drive.putFork (fun _ => 0) 4096 circleFork

def circleList : Drive :=
  (Drive.putPart (fun _ => 0) { NfsRootPartitionBlock.zero with startCatalog := 4096 }).putCatalog
    4096 circleEntry

/-- There are images on which `WriteCatalog`, `ReadCatalog` and `FindCatalog` do not stop. -/
theorem walks_in_circle :
    ¬ Stops (fun fuel => writeCatalog fuel circleForks (some circleCatalog) false (fun _ => 0) 1
        [65]) ∧
      ¬ Stops (fun fuel => readCatalog fuel circleForks (some circleCatalog) false 1 [65]) ∧
      ¬ Stops (fun fuel => findCatalog fuel circleList [47]) := by
  have hfork : circleForks.fork 4096 = circleFork := Drive.fork_putFork
  have hentry : circleList.catalog 4096 = circleEntry := Drive.catalog_putCatalog _ _
  have hstart : circleList.part.startCatalog = 4096 := by
    rw [circleList, Drive.part_putCatalog _ _ (by decide), Drive.part_putPart]
  have hwrite : Linked (writeNext circleForks circleCatalog 1 [65]) 4096 4096 := by
    rw [Linked, writeNext, hfork]
    decide
  have hread : Linked (readNext circleForks circleCatalog [65]) 4096 4096 := by
    rw [Linked, readNext, hfork]
    decide
  have hsearch : Linked (searchNext circleList [47]) 4096 4096 := by
    rw [Linked, searchNext, hentry]
    decide
  refine ⟨?_, ?_, ?_⟩
  · rw [writeCatalog_stops_iff (by decide)]
    exact fun h => h 4096 .refl (.single hwrite)
  · rw [readCatalog_stops_iff]
    exact fun h => h 4096 .refl (.single hread)
  · rw [findCatalog_stops_iff (by decide)]
    intro h
    apply h ([47], circleList.part.startCatalog) (.root (by decide)) 4096
    · rw [hstart]
    · exact .single hsearch

/-- All of them stop on a blank image. -/
theorem walks_stop_blank :
    Stops (fun fuel => createFork fuel (fun _ => 0) (some .zero) .zero) ∧
      Stops (fun fuel => findFork fuel true (some .zero) [65] true) ∧
      Stops (fun fuel => writeCatalog fuel (fun _ => 0) (some .zero) false (fun _ => 0) 1 [65]) ∧
      Stops (fun fuel => readCatalog fuel (fun _ => 0) (some .zero) false 1 [65]) ∧
      Stops (fun fuel => findCatalog fuel (fun _ => 0) [47]) := by
  obtain ⟨hcreate, hfork, hwrite, hread, hfind⟩ := walks_stop_iff (fun _ => 0) .zero .zero
    true true false (fun _ => 0) 1 1 [65] (by decide : (0 : UInt8) ∉ [47])
  rw [hwrite, hread, hfind]
  refine ⟨hcreate, hfork, Or.inr ?_, ?_, ?_⟩
  · apply noCircle_of_end
    rw [writeNext]
    exact if_pos (Or.inl (by decide))
  · apply noCircle_of_end
    rw [readNext]
    exact if_pos (Or.inl (by decide))
  · intro w _
    apply noCircle_of_end
    rw [searchNext, Drive.catalog_of_zero fun _ _ _ => rfl]
    exact if_pos (Or.inr (by decide))

end Zka.FSKit
