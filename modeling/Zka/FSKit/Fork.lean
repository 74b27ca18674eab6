import Zka.FSKit.Catalog

/-!
# Forks

`CreateFork`, `WriteCatalog` and `ReadCatalog` on an ideal drive.  A fork has a
512-byte header at the place its catalog names; the data lies in front of it.
-/

namespace Zka.FSKit

open NewKit Outcome

/-- `sizeof(NFS_FORK_STRUCT)`. -/
def forkSize : SizeT := 512

/-! ## Creation -/

structure ForkWalk where
  lba : Lba
  lbaOfPreviousFork : Lba
  prevFork : NfsForkStruct

/-- How the walk ends: at a fork of the same name, or at a place, with or without a link to it. -/
inductive ForkExit where
  | exists
  | stop (w : ForkWalk)
  | link (w : ForkWalk)

def sameFork (f : NfsForkStruct) (forkName catalogName : List UInt8) : Prop :=
  equals f.forkNameChars forkName = true ∧ equals f.catalogNameChars catalogName = true

instance (f : NfsForkStruct) (forkName catalogName : List UInt8) :
    Decidable (sameFork f forkName catalogName) :=
  inferInstanceAs (Decidable (_ ∧ _))

/-- One pass of the loop of `CreateFork`. -/
def forkBody (d : Drive) (catalog : NfsCatalogStruct) (theFork : NfsForkStruct) (w : ForkWalk) :
    Outcome CFault (ForkWalk ⊕ ForkExit) :=
  if w.lba ≤ kNeFSCatalogStartAddress then .done (.inr (.stop w))
  else
    let curFork := d.fork w.lba
    -- `kBadAddress` is zero here, so any link at all counts as a bad one
    if kBadAddress < curFork.nextSibling then .done (.inr (.stop w))
    else if curFork.Created then
      if sameFork curFork theFork.forkNameChars catalog.nameChars then .done (.inr .exists)
      else .done (.inl ⟨curFork.nextSibling, w.lba, curFork⟩)
    else if kNeFSCatalogStartAddress ≤ w.lba then .done (.inr (.link w))
    else .done (.inr (.stop w))

/-- The returned pointer, the address of the header and the drive. -/
structure ForkReply where
  fork : Option NfsForkStruct
  header : Option Lba
  drive : Drive

def ForkReply.null (d : Drive) : ForkReply := ⟨none, none, d⟩

def finishFork (theFork : NfsForkStruct) (lba lbaOfPreviousFork : Lba) : NfsForkStruct :=
  { theFork with
    flags := theFork.flags ||| kNeFSFlagCreated.toUInt32.toInt32
    dataOffset := lba - forkSize
    previousSibling := lbaOfPreviousFork
    nextSibling := lba - forkSize - theFork.dataSize - forkSize }

def writeFork (d : Drive) (theFork : NfsForkStruct) (w : ForkWalk) : ForkReply :=
  let f := finishFork theFork w.lba w.lbaOfPreviousFork
  ⟨some f, some w.lba, d.putFork w.lba f⟩

def NfsCatalogStruct.forkLba (catalog : NfsCatalogStruct) (isDataFork : Bool) : Lba :=
  if isDataFork then catalog.dataFork else catalog.resourceFork

def NfsForkStruct.isData (f : NfsForkStruct) : Bool := f.kind == kNeFSDataForkKind

def ForkAccepted (catalog : NfsCatalogStruct) (theFork : NfsForkStruct) : Prop :=
  (theFork.forkName 0 ≠ 0 ∧ theFork.dataSize ≤ kNeFSForkDataSz) ∧
    ¬ catalog.forkLba theFork.isData ≤ kNeFSCatalogStartAddress

instance (catalog : NfsCatalogStruct) (theFork : NfsForkStruct) :
    Decidable (ForkAccepted catalog theFork) :=
  inferInstanceAs (Decidable (_ ∧ _))

def createFork (fuel : Nat) (d : Drive) (catalog : Option NfsCatalogStruct)
    (theFork : NfsForkStruct) : Outcome CFault ForkReply :=
  match catalog with
  | none => .done (.null d)
  | some catalog =>
    if ¬ ForkAccepted catalog theFork then .done (.null d)
    else
      let lba := catalog.forkLba theFork.isData
      whileLoop (forkBody d catalog theFork) fuel ⟨lba, lba, .zero⟩ >>= fun
        | .exists => .done (.null d)
        | .stop w => .done (writeFork d theFork w)
        | .link w =>
          let d := d.putFork w.lbaOfPreviousFork { w.prevFork with nextSibling := w.lba }
          .done (writeFork d theFork w)

/-! ## Writing and reading -/

structure WriteReply where
  ok : Bool
  err : Option HError
  drive : Drive

inductive WriteExit where
  | corrupted
  | found (startFork : Lba)
  | missing

/-- One pass of the loop of `WriteCatalog`. -/
def writeBody (d : Drive) (catalog : NfsCatalogStruct) (sizeOfData : SizeT) (forkName : List UInt8)
    (startFork : Lba) : Outcome CFault (Lba ⊕ WriteExit) :=
  if ¬ kNeFSCatalogStartAddress ≤ startFork then .done (.inr .missing)
  else
    let forkDataInput := d.fork startFork
    if forkDataInput.dataOffset ≤ kNeFSCatalogStartAddress then .done (.inr .corrupted)
    else if forkDataInput.flags ≠ kNeFSFlagUnallocated.toUInt32.toInt32 ∧
        forkDataInput.flags ≠ kNeFSFlagDeleted.toUInt32.toInt32 ∧
        sameFork forkDataInput forkName catalog.nameChars ∧
        forkDataInput.dataSize = sizeOfData then
      .done (.inr (.found startFork))
    else .done (.inl forkDataInput.nextSibling)

/-- The blob of `kNeFSForkDataSz` bytes: the data, then zeros. -/
def forkBlob (data : Nat → UInt8) (sizeOfData : SizeT) : Bytes kNeFSForkDataSz.toNat :=
  fun i => if i.val < sizeOfData.toNat then data i else 0

/-- The two writes: the blob at the data offset, the header in front of where it was found. -/
def storeFork (d : Drive) (startFork : Lba) (blob : Bytes kNeFSForkDataSz.toNat) : Drive :=
  let header := d.fork startFork
  let header := { header with flags := header.flags ||| kNeFSFlagCreated.toUInt32.toInt32 }
  let d := Store.write d header.dataOffset.toNat blob
  Drive.putFork d (startFork - forkSize) header

def finishWrite (d : Drive) (data : Nat → UInt8) (sizeOfData : SizeT) : WriteExit → WriteReply
  | .corrupted => ⟨false, some .kErrorDiskIsCorrupted, d⟩
  | .missing => ⟨false, none, d⟩
  | .found startFork => ⟨true, none, storeFork d startFork (forkBlob data sizeOfData)⟩

def writeCatalog (fuel : Nat) (d : Drive) (catalog : Option NfsCatalogStruct) (isRsrcFork : Bool)
    (data : Nat → UInt8) (sizeOfData : SizeT) (forkName : List UInt8) :
    Outcome CFault WriteReply :=
  if kNeFSForkDataSz < sizeOfData ∨ sizeOfData = 0 then .done ⟨false, none, d⟩
  else
    match catalog with
    | none => .fault .nullDereference
    | some catalog =>
      whileLoop (writeBody d catalog sizeOfData forkName) fuel (catalog.forkLba !isRsrcFork) >>=
        fun out => .done (finishWrite d data sizeOfData out)

/-- One pass of the loop of `ReadCatalog`: the place, and the buffer once it was filled. -/
def readBody (d : Drive) (catalog : NfsCatalogStruct) (forkName : List UInt8)
    (s : Lba × Option NfsForkStruct) :
    Outcome CFault ((Lba × Option NfsForkStruct) ⊕ (Lba × Option NfsForkStruct)) :=
  if ¬ kNeFSCatalogStartAddress < s.1 then .done (.inr s)
  else
    let fsForkData := d.fork s.1
    if equals forkName fsForkData.forkNameChars = true ∧
        equals catalog.nameChars fsForkData.catalogNameChars = true then
      .done (.inr (s.1, some fsForkData))
    else .done (.inl (fsForkData.nextSibling, some fsForkData))

/-- `ReadCatalog` returns the buffer into which it has read the header. -/
def readCatalog (fuel : Nat) (d : Drive) (catalog : Option NfsCatalogStruct) (isRsrcFork : Bool)
    (_dataSz : SizeT) (forkName : List UInt8) : Outcome CFault (Option NfsForkStruct × Option HError) :=
  match catalog with
  | none => .done (none, some .kErrorFileNotFound)
  | some catalog =>
    whileLoop (readBody d catalog forkName) fuel (catalog.forkLba !isRsrcFork, none) >>= fun s =>
    if s.1 < kNeFSCatalogStartAddress then .done (none, none) else .done (s.2, none)

/-! ## Looking up a fork -/

inductive FindForkError where
  | kErrorDiskReadOnly
  | kErrorDiskIsFull
  deriving DecidableEq, Repr

/-- `fs_newfs_read` clears `fPacketGood` and returns what `fInput` leaves there; the drivers leave
it alone. -/
def fsNewfsRead (fPacketGood : Bool) : Int32 := if fPacketGood then 1 else 0

/-- One pass of the loop of `FindFork`; `the_fork` is the buffer of the packet. -/
def findForkBody (fPacketGood : Bool) (name : List UInt8) (theFork : Option NfsForkStruct)
    (lba : Lba) : Outcome CFault (Lba ⊕ Option NfsForkStruct × Option FindForkError) :=
  if lba = 0 then .done (.inr (theFork, none))
  else
    let res := fsNewfsRead fPacketGood
    if res ≠ 0 then
      .done (.inr (none, if res = 1 then some .kErrorDiskReadOnly
        else if res = 2 then some .kErrorDiskIsFull else none))
    else
      match theFork with
      | none => .fault .nullDereference
      | some theFork =>
        if equals theFork.forkNameChars name then .done (.inr (some theFork, none))
        else .done (.inl theFork.nextSibling)

/-- `FindFork` never gives the buffer an address. -/
def findFork (fuel : Nat) (fPacketGood : Bool) (catalog : Option NfsCatalogStruct)
    (name : List UInt8) (isDataFork : Bool) :
    Outcome CFault (Option NfsForkStruct × Option FindForkError) :=
  match catalog with
  | none => .fault .nullDereference
  | some catalog =>
    whileLoop (findForkBody fPacketGood name none) fuel (catalog.forkLba isDataFork)

/-! ## What the calls do -/

/-- The outcome of `CreateFork`: the walk looks at the catalog's own place and, past a created
header without a link, ends at address zero. -/
def forkReply (d : Drive) (catalog : NfsCatalogStruct) (theFork : NfsForkStruct) : ForkReply :=
  let lba := catalog.forkLba theFork.isData
  let curFork := d.fork lba
  if ¬ ForkAccepted catalog theFork then .null d
  else if curFork.Created ∧ curFork.nextSibling = 0 then
    if sameFork curFork theFork.forkNameChars catalog.nameChars then .null d
    else writeFork d theFork ⟨0, lba, curFork⟩
  else writeFork d theFork ⟨lba, lba, .zero⟩

theorem createFork_eq (d : Drive) (catalog : NfsCatalogStruct) (theFork : NfsForkStruct)
    {fuel : Nat} (hfuel : 2 ≤ fuel) :
    createFork fuel d (some catalog) theFork = .done (forkReply d catalog theFork) := by
  obtain ⟨fuel, rfl⟩ := Nat.exists_eq_add_of_le' hfuel
  rw [createFork, forkReply]
  dsimp only
  by_cases hacc : ForkAccepted catalog theFork
  swap
  · rw [if_pos hacc, if_pos hacc]
  rw [if_neg (not_not.mpr hacc), if_neg (not_not.mpr hacc)]
  have hlba := hacc.2
  generalize catalog.forkLba theFork.isData = lba at hlba ⊢
  have hge : kNeFSCatalogStartAddress ≤ lba := UInt64.le_of_lt (UInt64.not_le.mp hlba)
  have hnext : kBadAddress < (d.fork lba).nextSibling ↔ ¬ (d.fork lba).nextSibling = 0 := by
    have hbad : kBadAddress = 0 := rfl
    rw [hbad, UInt64.pos_iff_ne_zero]
  by_cases hlink : (d.fork lba).nextSibling = 0
  · have hnb : ¬ kBadAddress < (d.fork lba).nextSibling := mt hnext.mp (not_not.mpr hlink)
    by_cases hc : (d.fork lba).Created
    · rw [if_pos ⟨hc, hlink⟩]
      by_cases hsame : sameFork (d.fork lba) theFork.forkNameChars catalog.nameChars
      · have hbody : forkBody d catalog theFork ⟨lba, lba, .zero⟩ = .done (.inr .exists) := by
          simp only [forkBody, hlba, hnb, hc, hsame, if_false, if_true]
        rw [whileLoop_exit hbody, if_pos hsame]
        rfl
      · have hbody : forkBody d catalog theFork ⟨lba, lba, .zero⟩ =
            .done (.inl ⟨0, lba, d.fork lba⟩) := by
          simp only [forkBody, hlba, hnb, hc, hsame, if_false, if_true]
          rw [hlink]
        have hstop : forkBody d catalog theFork ⟨0, lba, d.fork lba⟩ =
            .done (.inr (.stop ⟨0, lba, d.fork lba⟩)) := by
          rw [forkBody, if_pos]
          exact UInt64.le_iff_toNat_le.mpr (Nat.zero_le _)
        rw [whileLoop_continue hbody, whileLoop_exit hstop, if_neg hsame]
        rfl
    · have hbody : forkBody d catalog theFork ⟨lba, lba, .zero⟩ =
          .done (.inr (.link ⟨lba, lba, .zero⟩)) := by
        simp only [forkBody, hlba, hnb, hc, hge, if_false, if_true]
      rw [whileLoop_exit hbody, if_neg (fun h => hc h.1), done_bind]
      dsimp only [writeFork]
      rw [Drive.putFork_putFork]
  · have hbody : forkBody d catalog theFork ⟨lba, lba, .zero⟩ =
        .done (.inr (.stop ⟨lba, lba, .zero⟩)) := by
      simp only [forkBody, hlba, hnext.mpr hlink, if_false, if_true]
    rw [whileLoop_exit hbody, if_neg (fun h => hlink h.2)]
    rfl

theorem createFork_mono (d : Drive) (catalog : Option NfsCatalogStruct) (theFork : NfsForkStruct) :
    Monotone fun fuel => createFork fuel d catalog theFork := by
  intro n m h
  cases catalog with
  | none => exact le_refl _
  | some catalog =>
    dsimp only [createFork]
    split
    · exact le_refl _
    · exact bind_le_bind (whileLoop_mono _ _ h) fun _ => le_refl _

theorem writeCatalog_mono (d : Drive) (catalog : Option NfsCatalogStruct) (isRsrcFork : Bool)
    (data : Nat → UInt8) (sizeOfData : SizeT) (forkName : List UInt8) :
    Monotone fun fuel => writeCatalog fuel d catalog isRsrcFork data sizeOfData forkName := by
  intro n m h
  dsimp only [writeCatalog]
  split
  · exact le_refl _
  · cases catalog with
    | none => exact le_refl _
    | some catalog => exact bind_le_bind (whileLoop_mono _ _ h) fun _ => le_refl _

theorem readCatalog_mono (d : Drive) (catalog : Option NfsCatalogStruct) (isRsrcFork : Bool)
    (dataSz : SizeT) (forkName : List UInt8) :
    Monotone fun fuel => readCatalog fuel d catalog isRsrcFork dataSz forkName := by
  intro n m h
  cases catalog with
  | none => exact le_refl _
  | some catalog => exact bind_le_bind (whileLoop_mono _ _ h) fun _ => le_refl _

/-- The reader passes the fork at the place and, without a link, comes to its end. -/
theorem readCatalog_past {catalog : NfsCatalogStruct} {d : Drive} {isDataFork : Bool}
    {forkName : List UInt8} {p : NfsForkStruct} {lba : Lba} {dataSz : SizeT}
    (hlba : catalog.forkLba isDataFork = lba) (hlt : kNeFSCatalogStartAddress < lba)
    (hp : d.fork lba = p) (hother : ¬ equals forkName p.forkNameChars = true)
    (hnext : p.nextSibling = 0) {r : Option NfsForkStruct × Option HError}
    (hr : Yields (fun fuel => readCatalog fuel d (some catalog) (!isDataFork) dataSz forkName) r) :
    r = (none, none) := by
  have hbody : readBody d catalog forkName (lba, none) = .done (.inl (0, some p)) := by
    simp only [readBody, hlt, hp, hother, hnext, not_true_eq_false, if_false, false_and,
      Bool.false_eq_true]
  have hend : readBody d catalog forkName (0, some p) = .done (.inr (0, some p)) := by
    rw [readBody, if_pos]
    exact UInt64.not_lt.mpr (UInt64.le_iff_toNat_le.mpr (Nat.zero_le _))
  refine hr.unique (readCatalog_mono d _ _ _ _) (.intro 2 ?_)
  rw [readCatalog, Bool.not_not, hlba, whileLoop_continue hbody, whileLoop_exit hend, done_bind,
    if_pos]
  exact UInt64.lt_iff_toNat_lt.mpr (show (0 : Lba).toNat < kNeFSCatalogStartAddress.toNat by decide)

theorem createFork_reply {d : Drive} {catalog : NfsCatalogStruct} {theFork : NfsForkStruct}
    {r : ForkReply} (h : Yields (fun fuel => createFork fuel d (some catalog) theFork) r) :
    r = forkReply d catalog theFork :=
  h.unique (createFork_mono d _ theFork) (.intro 2 (createFork_eq d catalog theFork le_rfl))

/-- A fork whose place holds no created header gets that place. -/
theorem yields_createFork {d : Drive} {catalog : NfsCatalogStruct} {theFork : NfsForkStruct}
    {lba : Lba} (hlba : catalog.forkLba theFork.isData = lba) (hacc : ForkAccepted catalog theFork)
    (hfree : ¬ (d.fork lba).Created) :
    Yields (fun fuel => createFork fuel d (some catalog) theFork)
      (writeFork d theFork ⟨lba, lba, .zero⟩) := by
  refine .intro 2 ((createFork_eq d catalog theFork le_rfl).trans ?_)
  subst hlba
  rw [forkReply, if_neg (not_not.mpr hacc), if_neg fun h => hfree h.1]

theorem zero_fork_not_created : ¬ NfsForkStruct.zero.Created := by decide

theorem finishFork_created (f : NfsForkStruct) (lba prev : Lba) :
    (finishFork f lba prev).Created := by
  intro h
  have hb := congrArg (·.toBitVec.getLsbD 0) h
  simp [finishFork, kNeFSFlagCreated] at hb

end Zka.FSKit
