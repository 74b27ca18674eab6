import Zka.FSKit.ForkLookup

/-!
# File streams

A stream asks the mounted filesystem manager, and the manager asks the parser.  A stream that
wants a whole fork asks for zero bytes, and the manager takes that for an empty request.
-/

namespace Zka.KernelKit

open NewKit FSKit Outcome

def kFileReadAll : Int32 := 101

def kFileFlagRsrc : Int32 := 104

/-- `kNeFSForkSize`, the size of a header. -/
def kNeFSForkSize : SizeT := forkSize

/-- `kNeFSDataFork`, the string `"main_data"`. -/
def kNeFSDataFork : List UInt8 := [109, 97, 105, 110, 95, 100, 97, 116, 97]

/-! ## The filesystem manager -/

/-- The manager, with the drive behind its parser. -/
structure NeFileSystemMgr where
  drive : Drive

namespace NeFileSystemMgr

/-- `Read` of a named fork. -/
def readFork (fuel : Nat) (man : NeFileSystemMgr) (name : List UInt8)
    (node : Option NfsCatalogStruct) (flags : Int32) (sz : SizeT) :
    Outcome CFault (Option NfsForkStruct × Option HError) :=
  if kNeFSForkSize < sz then .done (none, none)
  else if sz = 0 then .done (none, none)
  else
    match node with
    | none => .fault .nullDereference
    | some node =>
      if node.kind = kNeFSCatalogKindFile then
        readCatalog fuel man.drive (some node) (flags &&& kFileFlagRsrc != 0) sz name
      else .done (none, none)

/-- `Read` of a node, which is its data fork. -/
def read (fuel : Nat) (man : NeFileSystemMgr) (node : Option NfsCatalogStruct) (flags : Int32)
    (size : SizeT) : Outcome CFault (Option NfsForkStruct × Option HError) :=
  match node with
  | none => .done (none, none)
  | some node =>
    if size = 0 then .done (none, none)
    else man.readFork fuel kNeFSDataFork (some node) flags size

variable {man : NeFileSystemMgr} {name : List UInt8} {node : Option NfsCatalogStruct}
  {flags : Int32}

theorem readFork_zero (fuel : Nat) : man.readFork fuel name node flags 0 = .done (none, none) := by
  dsimp only [readFork]
  rw [if_neg (by decide), if_pos rfl]

theorem read_zero (fuel : Nat) : man.read fuel node flags 0 = .done (none, none) := by
  cases node with
  | none => rfl
  | some node =>
    dsimp only [read]
    rw [if_pos rfl]

/-- The two flags are numbers and not bits: a request to read all names the resource fork. -/
theorem readFork_all {catalog : NfsCatalogStruct} {sz : SizeT} (hsz : 0 < sz)
    (hle : sz ≤ kNeFSForkSize) (hkind : catalog.kind = kNeFSCatalogKindFile) (fuel : Nat) :
    man.readFork fuel name (some catalog) kFileReadAll sz =
      readCatalog fuel man.drive (some catalog) true sz name := by
  dsimp only [readFork]
  rw [if_neg (UInt64.not_lt.mpr hle), if_neg (UInt64.pos_iff_ne_zero.mp hsz), if_pos hkind]
  rfl

end NeFileSystemMgr

/-! ## Streams -/

inductive FileMgrRestrict where
  | read
  | readBinary
  | write
  | writeBinary
  | readWrite
  | readWriteBinary
  deriving DecidableEq, Repr

/-- The restrictions that a reading call accepts. -/
def FileMgrRestrict.permitsRead (r : FileMgrRestrict) : Bool :=
  r = readWrite ∨ r = readWriteBinary ∨ r = read ∨ r = readBinary

structure FileStream where
  fFile : Option NfsCatalogStruct
  fFileRestrict : FileMgrRestrict

namespace FileStream

/-- The checks that the reading calls begin with: the restriction, and that a manager is mounted. -/
def reading (mounted : Option NeFileSystemMgr) (s : FileStream)
    (call : NeFileSystemMgr → Outcome CFault (Option NfsForkStruct × Option HError)) :
    Outcome CFault (Option NfsForkStruct × Option HError) :=
  if ¬ s.fFileRestrict.permitsRead then .done (none, none)
  else
    match mounted with
    | none => .done (none, none)
    | some man => call man

/-- `FileStream::ReadAll`. -/
def readAll (fuel : Nat) (mounted : Option NeFileSystemMgr) (s : FileStream) :
    Outcome CFault (Option NfsForkStruct × Option HError) :=
  s.reading mounted fun man => man.read fuel s.fFile kFileReadAll 0

/-- `FileStream::Read` of a named fork. -/
def read (fuel : Nat) (mounted : Option NeFileSystemMgr) (s : FileStream) (fName : List UInt8) :
    Outcome CFault (Option NfsForkStruct × Option HError) :=
  s.reading mounted fun man => man.readFork fuel fName s.fFile kFileReadAll 0

variable (mounted : Option NeFileSystemMgr) (s : FileStream)

theorem reading_null {call : NeFileSystemMgr → Outcome CFault (Option NfsForkStruct × Option HError)}
    (h : ∀ man, call man = .done (none, none)) : s.reading mounted call = .done (none, none) := by
  dsimp only [reading]
  split
  · rfl
  · cases mounted with
    | none => rfl
    | some man => exact h man

/-- No stream ever gets to the parser. -/
theorem read_null (fName : List UInt8) (fuel : Nat) :
    s.read fuel mounted fName = .done (none, none) :=
  reading_null mounted s fun _ => NeFileSystemMgr.readFork_zero fuel

theorem readAll_null (fuel : Nat) : s.readAll fuel mounted = .done (none, none) :=
  reading_null mounted s fun _ => NeFileSystemMgr.read_zero fuel

end FileStream

/-! ## Reading a fork through a stream -/

/-- A fork of that name hangs on the catalog, as data or as a resource. -/
def ForkOf (d : Drive) (catalog : NfsCatalogStruct) (name : List UInt8) (lba : Lba) : Prop :=
  (∃ isDataFork, OnForkChain d (catalog.forkLba isDataFork) lba) ∧
    ForkNamed name catalog.nameChars (d.fork lba)

/-- The bytes that the header at `lba` points at. -/
def storedData (d : Drive) (lba : Lba) : Nat → UInt8 :=
  fun i => d ((d.fork lba).dataOffset.toNat + i)

/-- Every stream on the catalog that may read returns what is stored in a fork of that name, or
null if there is none. -/
def StreamReads (man : NeFileSystemMgr) (catalog : NfsCatalogStruct) (name : List UInt8) : Prop :=
  ∀ s : FileStream, s.fFile = some catalog → s.fFileRestrict.permitsRead = true →
    ∃ r err, Yields (fun fuel => s.read fuel (some man) name) (r, err) ∧
      ((∃ lba p, ForkOf man.drive catalog name lba ∧ r = some p ∧
          HoldsData p (man.drive.fork lba).dataSize (storedData man.drive lba)) ∨
        (r = none ∧ ∀ lba, ¬ ForkOf man.drive catalog name lba))

section StreamReads

variable {man : NeFileSystemMgr} {catalog : NfsCatalogStruct} {name : List UInt8}

private theorem not_streamReads {lba : Lba} (h : ForkOf man.drive catalog name lba) :
    ¬ StreamReads man catalog name := by
  intro hreads
  obtain ⟨r, err, hr, hout⟩ := hreads ⟨some catalog, .read⟩ rfl rfl
  obtain ⟨fuel, hr⟩ := hr
  dsimp only at hr
  rw [FileStream.read_null] at hr
  cases hr
  rcases hout with ⟨_, _, _, hp, _⟩ | ⟨_, hnone⟩
  · cases hp
  · exact hnone lba h

/-- The streams read right exactly where there is nothing to read. -/
theorem stream_reads_iff (man : NeFileSystemMgr) (catalog : NfsCatalogStruct) (name : List UInt8) :
    StreamReads man catalog name ↔ ∀ lba, ¬ ForkOf man.drive catalog name lba := by
  constructor
  · intro hreads lba h
    exact not_streamReads h hreads
  · intro hnone s _ _
    exact ⟨none, none, .intro 0 (FileStream.read_null _ _ _ _), Or.inr ⟨rfl, hnone⟩⟩

end StreamReads

/-- `/a` as a file. -/
def plainFile : NfsCatalogStruct := { forkFile with kind := kNeFSCatalogKindFile }

/-- A fork of a file is created, and no stream gets it back. -/
theorem stream_reads_null : ∃ r, Yields (fun fuel => createFork fuel (fun _ => 0) (some plainFile)
      (sampleFork plainFile)) r ∧ r.header = some 4096 ∧
    ¬ StreamReads ⟨r.drive⟩ plainFile (sampleFork plainFile).forkNameChars := by
  have hacc : ForkAccepted plainFile (sampleFork plainFile) :=
    sampleFork_accepted (UInt64.not_le.mpr (UInt64.lt_iff_toNat_lt.mpr (by decide)))
  have hfree : ¬ (Drive.fork (fun _ => 0) 4096).Created := by
    rw [Drive.fork_of_zero fun _ _ _ => rfl]
    exact zero_fork_not_created
  refine ⟨_, yields_createFork rfl hacc hfree, rfl, @not_streamReads _ _ _ 4096 ?_⟩
  refine ⟨⟨true, .refl, UInt64.lt_iff_toNat_lt.mpr (by decide)⟩, ?_⟩
  have hstored : Drive.fork (writeFork (fun _ => 0) (sampleFork plainFile)
      ⟨4096, 4096, .zero⟩).drive 4096 = finishFork (sampleFork plainFile) 4096 4096 :=
    Drive.fork_putFork
  exact hstored ▸ ⟨equals_self _, equals_self _⟩

end Zka.KernelKit
