import Zka.FSKit.ParentName

/-!
# Catalog operations of `NeFSParser`

`FindCatalog`, `CreateCatalog` and `RemoveCatalog` on an ideal drive.  Loops and
the recursion of `FindCatalog` share one fuel argument.
-/

namespace Zka.FSKit

open NewKit Outcome

/-- The error codes these calls leave in `err_local_get()`. -/
inductive HError where
  | kErrorFileNotFound
  | kErrorFileExists
  | kErrorInternal
  | kErrorDiskIsCorrupted
  deriving DecidableEq, Repr

/-- `sizeof(NFS_CATALOG_STRUCT) * cNeFSCatalogPadding`. -/
def catalogStride : Lba := 512 * 4

/-! ## Lookup -/

/-- One pass of the loop at `NeFSSearchThroughCatalogList`. -/
def searchBody (d : Drive) (catalogName : List UInt8) (startCatalogList : Lba) :
    Outcome CFault (Lba ⊕ Option (NfsCatalogStruct × Lba)) :=
  let catalog := d.catalog startCatalogList
  if equals catalogName catalog.nameChars ∧ catalog.Created then
    .done (.inr (some (catalog, startCatalogList)))
  else if catalog.nextSibling ≤ kNeFSRootCatalogStartAddress then .done (.inr none)
  else .done (.inl catalog.nextSibling)

def searchCatalogList (fuel : Nat) (d : Drive) (catalogName : List UInt8) (start : Lba) :
    Outcome CFault (Option (NfsCatalogStruct × Lba)) :=
  whileLoop (searchBody d catalogName) fuel start

/-- The returned pointer and the value left in `out_lba`. -/
def foundOrNull : Option (NfsCatalogStruct × Lba) → Option NfsCatalogStruct × Lba
  | some (catalog, lba) => (some catalog, lba)
  | none => (none, 0)

def findCatalog : Nat → Drive → List UInt8 → Outcome CFault (Option NfsCatalogStruct × Lba)
  | 0, _, _ => .running
  | fuel + 1, d, catalogName =>
    let startCatalogList := d.part.startCatalog
    if equals catalogName kNeFSRoot then
      searchCatalogList fuel d catalogName startCatalogList >>= fun r => .done (foundOrNull r)
    else
      parentName catalogName >>= fun parent =>
      findCatalog fuel d parent >>= fun
        | (none, outLba) => .done (none, outLba)
        | (some parentCatalog, _) =>
          if equals parent kNeFSRoot then
            searchCatalogList fuel d catalogName startCatalogList >>= fun r =>
            .done (foundOrNull r)
          else
            -- localSearchFirst: behind the parent, then the whole list
            searchCatalogList fuel d catalogName parentCatalog.nextSibling >>= fun
              | some found => .done (foundOrNull (some found))
              | none =>
                searchCatalogList fuel d catalogName startCatalogList >>= fun r =>
                .done (foundOrNull r)

/-! ## Creation -/

/-- What `CreateCatalog` leaves behind: the returned pointer, the slot a new record was
written to, the error code and the drive. -/
structure CatalogReply where
  ptr : Option NfsCatalogStruct
  slot : Option Lba
  err : Option HError
  drive : Drive

def CatalogReply.null (d : Drive) : CatalogReply := ⟨none, none, none, d⟩

inductive SlotExit where
  | badLink
  | free (slot : Lba)
  | existing (catalog : NfsCatalogStruct)

def slotBody (d : Drive) (name : List UInt8) (startFree : Lba) :
    Outcome CFault (Lba ⊕ SlotExit) :=
  let nextSibling := d.catalog startFree
  if startFree ≤ kNeFSRootCatalogStartAddress then .done (.inr .badLink)
  else if ¬ nextSibling.Created then .done (.inr (.free startFree))
  else if equals nextSibling.nameChars name then .done (.inr (.existing nextSibling))
  else .done (.inl (startFree + catalogStride))

/-- The record as it stands before a slot is known. -/
def newCatalog (name : List UInt8) (flags kind : Int32) (outLba : Lba) : NfsCatalogStruct :=
  { NfsCatalogStruct.zero with
    name := charBuffer 256 (name.take (rtStringLen name))
    flags := kNeFSFlagCreated ||| flags.toUInt32.toUInt16
    kind := kind
    dataForkSize := 512
    resourceForkSize := 512
    nextSibling := outLba
    prevSibling := outLba }

def NfsRootPartitionBlock.countCreated (part : NfsRootPartitionBlock) : NfsRootPartitionBlock :=
  { part with
    freeSectors := part.freeSectors - 1
    catalogCount := part.catalogCount + 1
    freeCatalog := part.freeCatalog - 1 }

/-- The record as it is written to its slot. -/
def placeCatalog (d : Drive) (child : NfsCatalogStruct) (parent : List UInt8) (slot : Lba) :
    NfsCatalogStruct :=
  { child with
    dataFork := d.part.diskSize - slot
    resourceFork := d.part.diskSize - slot
    -- the link is only set where the slot does not still carry the parent's name
    nextSibling := if equals parent (d.catalog slot).nameChars then child.nextSibling
      else slot + catalogStride }

def allocateCatalog (d : Drive) (child : NfsCatalogStruct) (parent : List UInt8) (slot : Lba) :
    CatalogReply :=
  if d.part.freeCatalog < 1 then .null d
  else
    let child := placeCatalog d child parent slot
    let d := d.putCatalog slot child
    ⟨some child, some slot, none, d.putPart d.part.countCreated⟩

/-- The walk for a slot and the allocation, once the parent is known or given up. -/
def createUnder (fuel : Nat) (d : Drive) (name parent : List UInt8) (flags kind : Int32)
    (outLba : Lba) : Outcome CFault CatalogReply :=
  whileLoop (slotBody d name) fuel (d.catalog outLba).nextSibling >>= fun
    | .badLink => .done (.null d)
    | .existing catalog => .done ⟨some catalog, none, none, d⟩
    | .free slot => .done (allocateCatalog d (newCatalog name flags kind outLba) parent slot)

/-- A directory ends in a separator and nothing else does. -/
def KindFits (name : List UInt8) (kind : Int32) : Prop :=
  kind = kNeFSCatalogKindDir ↔ name.getD (rtStringLen name - 1) 0 = kNeFSSeparator

instance (name : List UInt8) (kind : Int32) : Decidable (KindFits name kind) :=
  inferInstanceAs (Decidable (_ ↔ _))

def createCatalog (fuel : Nat) (d : Drive) (name : List UInt8) (flags kind : Int32) :
    Outcome CFault CatalogReply :=
  if ¬ KindFits name kind then .done (.null d)
  else
    findCatalog fuel d name >>= fun
    | (some catalogCopy, _) => .done ⟨some catalogCopy, none, some .kErrorFileExists, d⟩
    | (none, _) =>
      if name.getD 0 0 = 0 then .done ⟨none, none, some .kErrorFileNotFound, d⟩
      else
        parentName name >>= fun parent =>
        findCatalog fuel d parent >>= fun
          | (some catalog, outLba) =>
            if catalog.kind = kNeFSCatalogKindFile then .done (.null d)
            else createUnder fuel d name parent flags kind outLba
          | (none, _) => createUnder fuel d name parent flags kind d.part.startCatalog

/-! ## Removal -/

structure RemoveReply where
  ok : Bool
  err : Option HError
  drive : Drive

def NfsRootPartitionBlock.countRemoved (part : NfsRootPartitionBlock) : NfsRootPartitionBlock :=
  { part with
    catalogCount := part.catalogCount - 1
    freeSectors := part.freeSectors + 1 }

def removeCatalog (fuel : Nat) (d : Drive) (catalogName : List UInt8) :
    Outcome CFault RemoveReply :=
  if equals catalogName kNeFSRoot then .done ⟨false, some .kErrorInternal, d⟩
  else
    findCatalog fuel d catalogName >>= fun
    -- both sides of the test read `catalog->Flags`, of a null pointer here
    | (none, _) => .fault .nullDereference
    | (some catalog, outLba) =>
      if kNeFSCatalogStartAddress ≤ outLba ∨ catalog.Created then
        let d := d.putCatalog outLba { catalog with flags := catalog.flags ||| kNeFSFlagDeleted }
        .done ⟨true, none, d.putPart d.part.countRemoved⟩
      else .done ⟨false, none, d⟩

/-! ## Fuel -/

theorem searchCatalogList_mono (d : Drive) (name : List UInt8) (start : Lba) :
    Monotone fun fuel => searchCatalogList fuel d name start :=
  whileLoop_mono _ _

theorem findCatalog_mono (d : Drive) (name : List UInt8) :
    Monotone fun fuel => findCatalog fuel d name := by
  refine monotone_nat_of_le_succ fun fuel => ?_
  induction fuel generalizing name with
  | zero => exact running_le _
  | succ fuel ih =>
    have hlist := fun n s => searchCatalogList_mono d n s (Nat.le_succ fuel)
    change findCatalog (fuel + 1) d name ≤ findCatalog (fuel + 1 + 1) d name
    rw [findCatalog, findCatalog]
    split
    · exact bind_le_bind (hlist _ _) fun r => le_refl _
    · apply bind_le_bind (le_refl _)
      intro parent
      apply bind_le_bind (ih parent)
      intro reply
      obtain ⟨catalog | catalog, outLba⟩ := reply
      · exact le_refl _
      · dsimp only
        split
        · exact bind_le_bind (hlist _ _) fun r => le_refl _
        · apply bind_le_bind (hlist _ _)
          intro r
          cases r with
          | none => exact bind_le_bind (hlist _ _) fun r => le_refl _
          | some found => exact le_refl _

theorem createUnder_mono (d : Drive) (name parent : List UInt8) (flags kind : Int32)
    (outLba : Lba) : Monotone fun fuel => createUnder fuel d name parent flags kind outLba :=
  fun _ _ h => bind_le_bind (whileLoop_mono _ _ h) fun _ => le_refl _

theorem createCatalog_mono (d : Drive) (name : List UInt8) (flags kind : Int32) :
    Monotone fun fuel => createCatalog fuel d name flags kind := by
  intro n m h
  dsimp only [createCatalog]
  split
  · exact le_refl _
  · apply bind_le_bind (findCatalog_mono d name h)
    intro reply
    obtain ⟨catalog | catalog, outLba⟩ := reply
    · dsimp only
      split
      · exact le_refl _
      · apply bind_le_bind (le_refl _)
        intro parent
        apply bind_le_bind (findCatalog_mono d parent h)
        intro reply
        obtain ⟨catalog | catalog, outLba⟩ := reply
        · exact createUnder_mono d name parent flags kind _ h
        · dsimp only
          split
          · exact le_refl _
          · exact createUnder_mono d name parent flags kind _ h
    · exact le_refl _

theorem removeCatalog_mono (d : Drive) (name : List UInt8) :
    Monotone fun fuel => removeCatalog fuel d name := by
  intro n m h
  dsimp only [removeCatalog]
  split
  · exact le_refl _
  · exact bind_le_bind (findCatalog_mono d name h) fun _ => le_refl _

end Zka.FSKit
