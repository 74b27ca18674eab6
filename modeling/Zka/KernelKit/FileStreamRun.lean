import Zka.FSKit.ParserRun
import Zka.KernelKit.FileMgr
import Zka.KernelKit.User

/-!
# Runs of file streams

A manager opens streams on the catalogs of its drive, and each stream reads or writes the
fork `main_data` of its file.  Which of the two it may do hangs on one letter.
-/

namespace Zka.KernelKit

open NewKit FSKit Outcome

def kFileReadChunk : Int32 := 102

def kNeFSCatalogKindAlias : Int32 := 3
def kNeFSCatalogKindPage : Int32 := 8

/-! ## The calls of the manager -/

namespace NeFileSystemMgr

/-- The four calls that create a node. -/
def createNode (fuel : Nat) (man : NeFileSystemMgr) (path : List UInt8) (kind : Int32) :
    Outcome CFault CatalogReply :=
  createCatalog fuel man.drive path 0 kind

def create (fuel : Nat) (man : NeFileSystemMgr) (path : List UInt8) :
    Outcome CFault CatalogReply :=
  man.createNode fuel path kNeFSCatalogKindFile

def createDirectory (fuel : Nat) (man : NeFileSystemMgr) (path : List UInt8) :
    Outcome CFault CatalogReply :=
  man.createNode fuel path kNeFSCatalogKindDir

def createAlias (fuel : Nat) (man : NeFileSystemMgr) (path : List UInt8) :
    Outcome CFault CatalogReply :=
  man.createNode fuel path kNeFSCatalogKindAlias

def createSwapFile (fuel : Nat) (man : NeFileSystemMgr) (path : List UInt8) :
    Outcome CFault CatalogReply :=
  man.createNode fuel path kNeFSCatalogKindPage

def remove (fuel : Nat) (man : NeFileSystemMgr) (path : List UInt8) :
    Outcome CFault RemoveReply :=
  if path = [] then .done ⟨false, none, man.drive⟩ else removeCatalog fuel man.drive path

/-- `Open`; an empty string stands for a null pointer too. -/
def openNode (fuel : Nat) (man : NeFileSystemMgr) (path r : List UInt8) :
    Outcome CFault (Option NfsCatalogStruct) :=
  if path = [] ∨ r = [] then .done none
  else findCatalog fuel man.drive path >>= fun reply => .done reply.1

/-- `Write` to a named fork, and the drive that it leaves. -/
def writeFork (fuel : Nat) (man : NeFileSystemMgr) (name : List UInt8)
    (node : Option NfsCatalogStruct) (data : Option (Nat → UInt8)) (flags : Int32) (size : SizeT) :
    Outcome CFault Drive :=
  if size = 0 ∨ kNeFSForkSize < size then .done man.drive
  else
    match data, node with
    | none, _ => .done man.drive
    | some _, none => .fault .nullDereference
    | some data, some node =>
      if node.kind = kNeFSCatalogKindFile then
        writeCatalog fuel man.drive (some node) (flags &&& kFileFlagRsrc != 0) data size name >>=
          fun w => .done w.drive
      else .done man.drive

/-- `Write` to a node, which is to its data fork. -/
def write (fuel : Nat) (man : NeFileSystemMgr) (node : Option NfsCatalogStruct)
    (data : Option (Nat → UInt8)) (flags : Int32) (size : SizeT) : Outcome CFault Drive :=
  match node with
  | none => .done man.drive
  | some node =>
    if size = 0 then .done man.drive
    else man.writeFork fuel kNeFSDataFork (some node) data flags size

end NeFileSystemMgr

/-! ## Streams -/

/-- The restrictions that a writing call accepts. -/
def FileMgrRestrict.permitsWrite (r : FileMgrRestrict) : Bool :=
  r = readWrite ∨ r = readWriteBinary ∨ r = write ∨ r = writeBinary

/-- `kRestrictList`, in the order in which the constructor tries it. -/
def kRestrictList : List (List UInt8 × FileMgrRestrict) :=
  [([114], .read), ([114, 98], .readBinary), ([114, 119, 98], .readWriteBinary), ([119], .write),
    ([114, 119], .readWrite)]

/-- The loop of the constructor: the first entry that the text begins with. -/
def restrictOf (restrictType : List UInt8) : FileMgrRestrict :=
  match kRestrictList.find? fun entry =>
      rtStringCmp restrictType entry.1 (rtStringLen entry.1) = 0 with
  | some entry => entry.2
  | none => .readBinary

namespace FileStream

/-- The constructor. -/
def new (fuel : Nat) (man : NeFileSystemMgr) (path restrictType : List UInt8) :
    Outcome CFault FileStream :=
  man.openNode fuel path restrictType >>= fun node => .done ⟨node, restrictOf restrictType⟩

/-- `FileStream::Read` of a chunk.  `Seek` is not implemented. -/
def readChunk (fuel : Nat) (mounted : Option NeFileSystemMgr) (s : FileStream) (sz : SizeT) :
    Outcome CFault (Option NfsForkStruct × Option HError) :=
  s.reading mounted fun man => man.read fuel s.fFile kFileReadChunk sz

/-- `FileStream::Write`, and the manager that it leaves.  The size goes where the manager takes its
flags, and the flag of a chunk where it takes the size. -/
def write (fuel : Nat) (mounted : Option NeFileSystemMgr) (s : FileStream)
    (data : Option (Nat → UInt8)) (sz : SizeT) : Outcome CFault (Option NeFileSystemMgr) :=
  if ¬ s.fFileRestrict.permitsWrite then .done mounted
  else
    match mounted with
    | none => .done none
    | some man =>
      man.write fuel s.fFile data sz.toUInt32.toInt32 kFileReadChunk.toInt64.toUInt64 >>=
        fun d => .done (some ⟨d⟩)

end FileStream

/-! ## Runs -/

inductive FileEvent where
  | create (path : List UInt8) (kind : Int32) (node : Option NfsCatalogStruct)
  | remove (path : List UInt8) (ok : Bool)
  | createFork (catalog : NfsCatalogStruct) (theFork : NfsForkStruct) (fork : Option NfsForkStruct)
  | openStream (path restrictType : List UInt8) (stream : FileStream)
  | write (stream : FileStream) (data : Option (Nat → UInt8)) (sz : SizeT)
  | read (stream : FileStream) (sz : SizeT) (fork : Option NfsForkStruct)

/-- The drive with the catalogs that were returned, and the streams. -/
structure FileState where
  parser : ParserState
  streams : List FileStream

namespace FileState

def boot (d : Drive) : FileState := ⟨.boot d, []⟩

def man (s : FileState) : NeFileSystemMgr := ⟨s.parser.drive⟩

/-- The parser after a call that returns a catalog or null. -/
def answered (s : FileState) (d : Drive) (node : Option NfsCatalogStruct) : FileState :=
  { s with parser := ⟨d, s.parser.handles ++ node.toList⟩ }

end FileState

/-- One call that returns, on a manager that is mounted.  Forks come from its parser. -/
inductive FileStep : FileState → FileEvent → FileState → Prop
  | create {s : FileState} {path : List UInt8} {kind : Int32} {r : CatalogReply} (h0 : 0 ∉ path)
      (h : Yields (fun fuel => s.man.createNode fuel path kind) r) :
      FileStep s (.create path kind r.ptr) (s.answered r.drive r.ptr)
  | remove {s : FileState} {path : List UInt8} {r : RemoveReply} (h0 : 0 ∉ path)
      (h : Yields (fun fuel => s.man.remove fuel path) r) :
      FileStep s (.remove path r.ok) (s.answered r.drive none)
  | createFork {s : FileState} {catalog : NfsCatalogStruct} {theFork : NfsForkStruct}
      {r : ForkReply} (hc : catalog ∈ s.parser.handles) (hsize : theFork.dataSize ≤ forkSize)
      (h : Yields (fun fuel => createFork fuel s.man.drive (some catalog) theFork) r) :
      FileStep s (.createFork catalog theFork r.fork) (s.answered r.drive none)
  | openStream {s : FileState} {path restrictType : List UInt8} {stream : FileStream}
      (h0 : 0 ∉ path)
      (h : Yields (fun fuel => FileStream.new fuel s.man path restrictType) stream) :
      FileStep s (.openStream path restrictType stream)
        { s.answered s.parser.drive stream.fFile with streams := s.streams ++ [stream] }
  | write {s : FileState} {stream : FileStream} {data : Option (Nat → UInt8)} {sz : SizeT}
      {man : NeFileSystemMgr} (hs : stream ∈ s.streams)
      (h : Yields (fun fuel => stream.write fuel (some s.man) data sz) (some man)) :
      FileStep s (.write stream data sz) (s.answered man.drive none)
  | read {s : FileState} {stream : FileStream} {sz : SizeT}
      {r : Option NfsForkStruct × Option HError} (hs : stream ∈ s.streams)
      (h : Yields (fun fuel => stream.readChunk fuel (some s.man) sz) r) :
      FileStep s (.read stream sz r.1) s

/-! ## The files seen from outside -/

/-- What the first letter of a restriction allows. -/
def modeOf (restrictType : List UInt8) : FileMgrRestrict :=
  match restrictType.head? with
  | some 114 => .read
  | some 119 => .write
  | _ => .readBinary

structure Files where
  partition : Partition
  streams : List FileStream

namespace Files

def boot (d : Drive) : Files := ⟨.boot d, []⟩

/-- What a path opens. -/
inductive Opens (p : Partition) : List UInt8 → List UInt8 → Option NfsCatalogStruct → Prop
  | refused {path restrictType : List UInt8} (h : path = [] ∨ restrictType = []) :
      Opens p path restrictType none
  | missing {path restrictType : List UInt8} (h : ¬ Visible p.names path) :
      Opens p path restrictType none
  | found {c : NfsCatalogStruct} {restrictType : List UInt8} (hc : c ∈ p.catalogs)
      (h : Visible p.names c.nameText) (hr : restrictType ≠ []) :
      Opens p c.nameText restrictType (some c)

end Files

/-- The file of a stream; other catalogs are not read and not written. -/
def FileStream.file (s : FileStream) : Option NfsCatalogStruct :=
  s.fFile.filter fun c => c.kind = kNeFSCatalogKindFile

namespace Files

/-- A write counts when the fork of the file has 102 bytes, whatever the size that was asked for. -/
def Writes (f : Files) (s : FileStream) (data : Option (Nat → UInt8)) (c : NfsCatalogStruct) :
    Prop :=
  s.fFileRestrict.permitsWrite = true ∧ data ≠ none ∧ s.file = some c ∧
    f.partition.Writable c 102 kNeFSDataFork

def read (f : Files) (s : FileStream) (sz : SizeT) : Option NfsForkStruct :=
  if s.fFileRestrict.permitsRead = true ∧ sz ≠ 0 ∧ sz ≤ kNeFSForkSize then
    s.file.bind fun c => f.partition.read c kNeFSDataFork
  else none

def withPartition (f : Files) (p : Partition) : Files := { f with partition := p }

end Files

inductive FilesStep : Files → FileEvent → Files → Prop
  | create {f : Files} {path : List UInt8} {kind : Int32} {node : Option NfsCatalogStruct}
      {p : Partition} (h : PartitionCall f.partition (.createCatalog path 0 kind node) p) :
      FilesStep f (.create path kind node) (f.withPartition p)
  | removeNothing {f : Files} : FilesStep f (.remove [] false) f
  | remove {f : Files} {path : List UInt8} {ok : Bool} {p : Partition} (hpath : path ≠ [])
      (h : PartitionCall f.partition (.removeCatalog path ok) p) :
      FilesStep f (.remove path ok) (f.withPartition p)
  | createFork {f : Files} {c : NfsCatalogStruct} {theFork : NfsForkStruct}
      {fork : Option NfsForkStruct} {p : Partition}
      (h : PartitionCall f.partition (.createFork c theFork fork) p) :
      FilesStep f (.createFork c theFork fork) (f.withPartition p)
  | openStream {f : Files} {path restrictType : List UInt8} {node : Option NfsCatalogStruct}
      (h : Files.Opens f.partition path restrictType node) :
      FilesStep f (.openStream path restrictType ⟨node, modeOf restrictType⟩)
        { f with streams := f.streams ++ [⟨node, modeOf restrictType⟩] }
  | ignored {f : Files} {s : FileStream} {data : Option (Nat → UInt8)} {sz : SizeT}
      (hs : s ∈ f.streams) (h : ∀ c, ¬ f.Writes s data c) : FilesStep f (.write s data sz) f
  | written {f : Files} {s : FileStream} {data : Option (Nat → UInt8)} {sz : SizeT}
      {c : NfsCatalogStruct} (hs : s ∈ f.streams) (h : f.Writes s data c) :
      FilesStep f (.write s data sz) (f.withPartition (f.partition.loseForks (f.partition.index c)))
  | read {f : Files} {s : FileStream} {sz : SizeT} (hs : s ∈ f.streams) :
      FilesStep f (.read s sz (f.read s sz)) f

/-! ## The refinement -/

/-- Every other restriction begins with one of the two letters that are tried before it. -/
theorem restrictOf_eq (restrictType : List UInt8) :
    restrictOf restrictType = modeOf restrictType := by
  have hother : ∀ x xs, restrictType.getD 0 0 ≠ x →
      decide (rtStringCmp restrictType (x :: xs) (rtStringLen (x :: xs)) = 0) = false := by
    intro x xs hne
    refine decide_eq_false fun h => hne ?_
    exact rtStringCmp_eq_zero_iff.mp h 0 (rtStringLen_pos _)
  have hletter : ∀ x, restrictType.getD 0 0 = x →
      decide (rtStringCmp restrictType [x] (rtStringLen [x]) = 0) = true := by
    intro x hx
    refine decide_eq_true (rtStringCmp_eq_zero_iff.mpr fun i hi => ?_)
    obtain rfl : i = 0 := Nat.lt_one_iff.mp hi
    exact hx
  rw [restrictOf, kRestrictList, modeOf]
  by_cases hr : restrictType.getD 0 0 = 114
  · simp only [List.find?, hletter _ hr]
    cases restrictType with
    | nil => exact absurd hr (by decide)
    | cons c rest =>
      obtain rfl : c = 114 := hr
      rfl
  by_cases hw : restrictType.getD 0 0 = 119
  · simp only [List.find?, hother _ _ hr, hletter _ hw]
    cases restrictType with
    | nil => exact absurd hw (by decide)
    | cons c rest =>
      obtain rfl : c = 119 := hw
      rfl
  · simp only [List.find?, hother _ _ hr, hother _ _ hw]
    split
    · rename_i heq
      exact absurd (by rw [List.getD_eq_getElem?_getD, ← List.head?_eq_getElem?, heq]; rfl) hr
    · rename_i heq
      exact absurd (by rw [List.getD_eq_getElem?_getD, ← List.head?_eq_getElem?, heq]; rfl) hw
    · rfl

/-- The drive stores the files, and the streams are on catalogs that were returned. -/
structure FilesHold (part : NfsRootPartitionBlock) (s : FileState) (f : Files) : Prop where
  holds : ParserHolds part s.parser f.partition
  streams_eq : f.streams = s.streams
  nodes : ∀ stream ∈ s.streams, ∀ c, stream.fFile = some c → c ∈ s.parser.handles

namespace FilesHold

variable {part : NfsRootPartitionBlock} {s t : FileState} {f : Files} {e : FileEvent}

/-- A call that leaves the streams alone. -/
theorem answered (h : FilesHold part s f) {d : Drive} {node : Option NfsCatalogStruct}
    {p : Partition} (hp : ParserHolds part ⟨d, s.parser.handles ++ node.toList⟩ p) :
    FilesHold part (s.answered d node) (f.withPartition p) where
  holds := hp
  streams_eq := h.streams_eq
  nodes := fun stream hs c hc => List.mem_append_left _ (h.nodes stream hs c hc)

theorem answered_null (h : FilesHold part s f) {d : Drive} {p : Partition}
    (hp : ParserHolds part ⟨d, s.parser.handles⟩ p) :
    FilesHold part (s.answered d none) (f.withPartition p) :=
  h.answered (by rwa [Option.toList_none, List.append_nil])

private theorem remove (h : FilesHold part s f) {path : List UInt8} {r : RemoveReply}
    (h0 : 0 ∉ path) (hr : Yields (fun fuel => s.man.remove fuel path) r) :
    ∃ g, FilesStep f (.remove path r.ok) g ∧ FilesHold part (s.answered r.drive none) g := by
  by_cases hpath : path = []
  · subst hpath
    obtain ⟨fuel, hr⟩ := hr
    cases hr
    exact ⟨f, .removeNothing, h.answered_null h.holds⟩
  · simp only [NeFileSystemMgr.remove, if_neg hpath] at hr
    obtain ⟨q, hq, hholds⟩ := h.holds.step (.removeCatalog h0 hr)
    exact ⟨_, .remove hpath hq, h.answered_null hholds⟩

private theorem openNode (h : FilesHold part s f) {path restrictType : List UInt8}
    {node : Option NfsCatalogStruct} (h0 : 0 ∉ path)
    (hn : Yields (fun fuel => s.man.openNode fuel path restrictType) node) :
    Files.Opens f.partition path restrictType node ∧
      ∀ c, node = some c → c ∈ f.partition.catalogs := by
  by_cases hempty : path = [] ∨ restrictType = []
  · simp only [NeFileSystemMgr.openNode, if_pos hempty] at hn
    obtain ⟨fuel, hn⟩ := hn
    cases hn
    exact ⟨.refused hempty, fun _ hc => nomatch hc⟩
  · simp only [NeFileSystemMgr.openNode, if_neg hempty] at hn
    obtain ⟨reply, hreply, rfl⟩ := yields_map_iff.mp hn
    rw [not_or] at hempty
    obtain ⟨fuel, hfuel⟩ := id hreply
    have hname := findCatalog_resolves h0 hfuel
    obtain rfl := (h.holds.represents.yields_findCatalog_iff hname).mp hreply
    by_cases hv : Visible f.partition.names path
    · obtain ⟨c, hc, rfl, hstored⟩ := h.holds.catalog_of_name hv.mem
      rw [findReply_visible hv, hstored]
      exact ⟨.found hc hv hempty.2, fun e he => Option.some.inj he ▸ hc⟩
    · rw [findReply_hidden hv]
      exact ⟨.missing hv, fun _ hc => nomatch hc⟩

private theorem openStream (h : FilesHold part s f) {path restrictType : List UInt8}
    {stream : FileStream} (h0 : 0 ∉ path)
    (hs : Yields (fun fuel => FileStream.new fuel s.man path restrictType) stream) :
    ∃ g, FilesStep f (.openStream path restrictType stream) g ∧
      FilesHold part { s.answered s.parser.drive stream.fFile with
        streams := s.streams ++ [stream] } g := by
  obtain ⟨node, hnode, rfl⟩ := yields_map_iff.mp hs
  obtain ⟨hopens, hmem⟩ := h.openNode h0 hnode
  rw [restrictOf_eq]
  refine ⟨_, .openStream hopens, ?_, congrArg (· ++ _) h.streams_eq, ?_⟩
  · refine { h.holds with handles := List.append_subset.mpr ⟨h.holds.handles, ?_⟩ }
    intro c hc
    exact hmem c (Option.mem_toList.mp hc)
  · intro stream hstream c hc
    rcases List.mem_append.mp hstream with hold | hnew
    · exact List.mem_append_left _ (h.nodes stream hold c hc)
    · obtain rfl := List.mem_singleton.mp hnew
      exact List.mem_append_right _ (Option.mem_toList.mpr hc)

/-- The catalog of a stream is one of the partition. -/
theorem catalog_mem (h : FilesHold part s f) {stream : FileStream} (hs : stream ∈ s.streams)
    {c : NfsCatalogStruct} (hc : stream.fFile = some c) : c ∈ s.parser.handles :=
  h.nodes stream hs c hc

private theorem ignored (h : FilesHold part s f) {stream : FileStream}
    {data : Option (Nat → UInt8)} {sz : SizeT} (hs : stream ∈ s.streams)
    (hnot : ∀ c, ¬ f.Writes stream data c) :
    ∃ g, FilesStep f (.write stream data sz) g ∧
      FilesHold part (s.answered s.parser.drive none) g :=
  ⟨f, .ignored (h.streams_eq ▸ hs) hnot, h.answered_null h.holds⟩

/-- What gets to the parser. -/
private theorem write_through {man : NeFileSystemMgr} {c : NfsCatalogStruct}
    {data : Nat → UInt8} {flags : Int32} (hkind : c.kind = kNeFSCatalogKindFile) (fuel : Nat) :
    man.write fuel (some c) (some data) flags kFileReadChunk.toInt64.toUInt64 =
      (writeCatalog fuel man.drive (some c) (flags &&& kFileFlagRsrc != 0) data 102
        kNeFSDataFork >>= fun w => .done w.drive) := by
  have hsize : ¬ (kFileReadChunk.toInt64.toUInt64 = 0 ∨
      kNeFSForkSize < kFileReadChunk.toInt64.toUInt64) := by decide
  rw [NeFileSystemMgr.write, if_neg (not_or.mp hsize).1]
  unfold NeFileSystemMgr.writeFork
  rw [if_neg hsize]
  dsimp only
  rw [if_pos hkind]
  rfl

private theorem write_other {man : NeFileSystemMgr} {node : Option NfsCatalogStruct}
    {data : Option (Nat → UInt8)} {flags : Int32} {size : SizeT} {d : Drive}
    (hother : data = none ∨ ∀ c, node = some c → c.kind ≠ kNeFSCatalogKindFile)
    (hd : Yields (fun fuel => man.write fuel node data flags size) d) : d = man.drive := by
  obtain ⟨fuel, hd⟩ := hd
  dsimp only [NeFileSystemMgr.write] at hd
  cases node with
  | none => exact (done.inj hd).symm
  | some c =>
    dsimp only at hd
    split at hd
    · exact (done.inj hd).symm
    · unfold NeFileSystemMgr.writeFork at hd
      split at hd
      · exact (done.inj hd).symm
      · cases data with
        | none => exact (done.inj hd).symm
        | some data =>
          have hkind := (hother.resolve_left (by simp)) c rfl
          dsimp only at hd
          rw [if_neg hkind] at hd
          exact (done.inj hd).symm

private theorem write (h : FilesHold part s f) {stream : FileStream} {data : Option (Nat → UInt8)}
    {sz : SizeT} {man : NeFileSystemMgr} (hs : stream ∈ s.streams)
    (hw : Yields (fun fuel => stream.write fuel (some s.man) data sz) (some man)) :
    ∃ g, FilesStep f (.write stream data sz) g ∧ FilesHold part (s.answered man.drive none) g := by
  by_cases hmode : stream.fFileRestrict.permitsWrite = true
  swap
  · simp only [FileStream.write, if_pos hmode] at hw
    obtain ⟨fuel, hw⟩ := hw
    cases hw
    exact h.ignored hs fun _ hwrites => hmode hwrites.1
  simp only [FileStream.write, if_neg (not_not.mpr hmode)] at hw
  obtain ⟨d, hd, heq⟩ := yields_map_iff.mp hw
  cases heq
  by_cases hfile : data ≠ none ∧ ∃ c, stream.fFile = some c ∧ c.kind = kNeFSCatalogKindFile
  · obtain ⟨hdata, c, hc, hkind⟩ := hfile
    obtain ⟨bytes, rfl⟩ := Option.ne_none_iff_exists'.mp hdata
    simp only [hc, write_through hkind] at hd
    obtain ⟨w, hreply, rfl⟩ := yields_map_iff.mp hd
    obtain ⟨q, hq, hholds⟩ := h.holds.step (.writeCatalog (h.catalog_mem hs hc) hreply)
    have hown : stream.file = some c := by
      rw [FileStream.file, hc, Option.filter_some, if_pos (decide_eq_true hkind)]
    generalize w.ok = ok at hq
    cases hq with
    | writeRefused _ hrefused =>
      refine ⟨f, .ignored (h.streams_eq ▸ hs) fun e hwrites => ?_, h.answered_null hholds⟩
      obtain ⟨_, _, he, hwritable⟩ := hwrites
      exact hrefused (Option.some.inj (hown.symm.trans he) ▸ hwritable)
    | written _ hwritable =>
      exact ⟨_, .written (h.streams_eq ▸ hs) ⟨hmode, hdata, hown, hwritable⟩,
        h.answered_null hholds⟩
  · have hother : data = none ∨ ∀ c, stream.fFile = some c → c.kind ≠ kNeFSCatalogKindFile := by
      by_contra hnot
      rw [not_or] at hnot
      refine hfile ⟨hnot.1, ?_⟩
      by_contra hnone
      exact hnot.2 fun c hc hkind => hnone ⟨c, hc, hkind⟩
    obtain rfl := write_other hother hd
    refine h.ignored hs fun c hwrites => ?_
    obtain ⟨_, hdata, hown, _⟩ := hwrites
    obtain ⟨hc, hkind⟩ := Option.filter_eq_some_iff.mp hown
    exact hfile ⟨hdata, c, hc, of_decide_eq_true hkind⟩

private theorem read (h : FilesHold part s f) {stream : FileStream} {sz : SizeT}
    {r : Option NfsForkStruct × Option HError} (hs : stream ∈ s.streams)
    (hr : Yields (fun fuel => stream.readChunk fuel (some s.man) sz) r) :
    r.1 = f.read stream sz := by
  by_cases hmode : stream.fFileRestrict.permitsRead = true
  swap
  · simp only [FileStream.readChunk, FileStream.reading, if_pos hmode] at hr
    obtain ⟨fuel, hr⟩ := hr
    cases hr
    rw [Files.read, if_neg fun hread => hmode hread.1]
  simp only [FileStream.readChunk, FileStream.reading, if_neg (not_not.mpr hmode)] at hr
  cases hc : stream.fFile with
  | none =>
    simp only [hc, NeFileSystemMgr.read] at hr
    obtain ⟨fuel, hr⟩ := hr
    cases hr
    rw [Files.read, FileStream.file, hc, Option.filter_none, Option.bind_none, ite_self]
  | some c =>
    simp only [hc, NeFileSystemMgr.read, NeFileSystemMgr.readFork] at hr
    by_cases hzero : sz = 0
    · simp only [if_pos hzero] at hr
      obtain ⟨fuel, hr⟩ := hr
      cases hr
      rw [Files.read, if_neg fun hread => hread.2.1 hzero]
    by_cases hlarge : kNeFSForkSize < sz
    · simp only [if_neg hzero, if_pos hlarge] at hr
      obtain ⟨fuel, hr⟩ := hr
      cases hr
      rw [Files.read, if_neg fun hread => UInt64.not_lt.mpr hread.2.2 hlarge]
    simp only [if_neg hzero, if_neg hlarge] at hr
    rw [Files.read, if_pos ⟨hmode, hzero, UInt64.not_lt.mp hlarge⟩, FileStream.file, hc,
      Option.filter_some]
    by_cases hkind : c.kind = kNeFSCatalogKindFile
    · simp only [if_pos hkind] at hr
      rw [if_pos (decide_eq_true hkind), Option.bind_some]
      obtain ⟨q, hq, _⟩ := h.holds.step (.readCatalog (h.catalog_mem hs hc) hr)
      generalize r.1 = answer at hq
      cases hq
      rfl
    · simp only [if_neg hkind] at hr
      obtain ⟨fuel, hr⟩ := hr
      cases hr
      rw [if_neg (by simp [hkind]), Option.bind_none]

theorem step (h : FilesHold part s f) (hs : FileStep s e t) :
    ∃ g, FilesStep f e g ∧ FilesHold part t g := by
  cases hs with
  | create h0 hr =>
    obtain ⟨q, hq, hholds⟩ := h.holds.step (.createCatalog h0 hr)
    exact ⟨_, .create hq, h.answered hholds⟩
  | remove h0 hr => exact h.remove h0 hr
  | createFork hc hsize hr =>
    obtain ⟨q, hq, hholds⟩ := h.holds.step (.createFork hc hsize hr)
    exact ⟨_, .createFork hq, h.answered_null hholds⟩
  | openStream h0 hr => exact h.openStream h0 hr
  | write hs hw => exact h.write hs hw
  | read hs hr =>
    rw [h.read hs hr]
    exact ⟨f, .read (h.streams_eq ▸ hs), h⟩

theorem boot {blobCount : SizeT} {d : Drive} (h : BootFormatted blobCount d)
    (hblank : ∀ x, 3072 ≤ x → x < d.part.diskSize.toNat → d x = 0) :
    FilesHold d.part (.boot d) (.boot d) :=
  ⟨.boot h hblank, rfl, fun _ hs => nomatch hs⟩

end FilesHold

/-! ## Where what is read comes from -/

/-- The last fork that was created on the catalog is `g`, and no later write would have found it. -/
def LastCreated (past : List FileEvent) (c : NfsCatalogStruct) (g : NfsForkStruct) : Prop :=
  ∃ theFork before after, past = before ++ .createFork c theFork (some g) :: after ∧
    (∀ other fork, .createFork c other (some fork) ∉ after) ∧
    ∀ stream data sz, .write stream data sz ∈ after → stream.fFileRestrict.permitsWrite = true →
      data ≠ none → stream.file = some c → ¬ WriteMatch c 102 kNeFSDataFork g

namespace LastCreated

variable {past : List FileEvent} {c : NfsCatalogStruct} {g : NfsForkStruct} {e : FileEvent}

theorem last (past : List FileEvent) (c : NfsCatalogStruct) (theFork g : NfsForkStruct) :
    LastCreated (past ++ [.createFork c theFork (some g)]) c g :=
  ⟨theFork, past, [], rfl, fun _ _ => List.not_mem_nil, fun _ _ _ hmem => nomatch hmem⟩

theorem snoc (h : LastCreated past c g)
    (hcreate : ∀ other fork, e ≠ .createFork c other (some fork))
    (hwrite : ∀ stream data sz, e = .write stream data sz →
      stream.fFileRestrict.permitsWrite = true → data ≠ none → stream.file = some c →
        ¬ WriteMatch c 102 kNeFSDataFork g) : LastCreated (past ++ [e]) c g := by
  obtain ⟨theFork, before, after, rfl, hnew, hwrites⟩ := h
  refine ⟨theFork, before, after ++ [e], by rw [List.append_assoc, List.cons_append], ?_, ?_⟩
  · intro other fork hmem
    rcases List.mem_append.mp hmem with hmem | hmem
    · exact hnew other fork hmem
    · exact hcreate other fork (List.mem_singleton.mp hmem).symm
  · intro stream data sz hmem
    rcases List.mem_append.mp hmem with hmem | hmem
    · exact hwrites stream data sz hmem
    · exact hwrite stream data sz (List.mem_singleton.mp hmem).symm

end LastCreated

/-- Every fork was created on its catalog. -/
def ForksCreated (past : List FileEvent) (f : Files) : Prop :=
  ∀ k g, f.partition.forks k = some g → ∃ c ∈ f.partition.catalogs, f.partition.index c = k ∧
    LastCreated past c g

namespace ForksCreated

variable {past : List FileEvent} {f g : Files} {e : FileEvent}

/-- A call that creates no fork and finds none to write to. -/
private theorem kept (h : ForksCreated past f) {p : Partition}
    (hcatalogs : f.partition.catalogs <+: p.catalogs)
    (hforks : ∀ k fork, p.forks k = some fork → f.partition.forks k = some fork)
    (hcreate : ∀ c other fork, e ≠ .createFork c other (some fork))
    (hwrite : ∀ stream data sz c fork, e = .write stream data sz →
      stream.fFileRestrict.permitsWrite = true → data ≠ none → stream.file = some c →
        p.forks (f.partition.index c) = some fork → ¬ WriteMatch c 102 kNeFSDataFork fork) :
    ForksCreated (past ++ [e]) (f.withPartition p) := by
  intro k fork hk
  obtain ⟨c, hc, rfl, hlast⟩ := h k fork (hforks k fork hk)
  refine ⟨c, hcatalogs.subset hc, PartitionCall.index_eq hcatalogs hc, hlast.snoc (hcreate c) ?_⟩
  intro stream data sz heq hmode hdata hfile
  exact hwrite stream data sz c fork heq hmode hdata hfile hk

private theorem createFork (h : ForksCreated past f) {c : NfsCatalogStruct}
    {theFork : NfsForkStruct} {fork : Option NfsForkStruct} {p : Partition}
    (hs : PartitionCall f.partition (.createFork c theFork fork) p) :
    ForksCreated (past ++ [.createFork c theFork fork]) (f.withPartition p) := by
  cases hs with
  | forkRefused =>
    exact h.kept List.prefix_rfl (fun _ _ hk => hk) (fun _ _ _ heq => nomatch heq)
      fun _ _ _ _ _ heq => nomatch heq
  | forkCreated hc hroot hname =>
    intro k fork hk
    change Function.update f.partition.forks (f.partition.index c) _ k = some fork at hk
    by_cases heq : k = f.partition.index c
    · subst heq
      rw [Function.update_self] at hk
      obtain rfl := Option.some.inj hk
      exact ⟨c, hc, rfl, .last past c theFork _⟩
    · rw [Function.update_of_ne heq] at hk
      obtain ⟨b, hb, rfl, hlast⟩ := h k fork hk
      refine ⟨b, hb, rfl, hlast.snoc (fun other g hsame => ?_) fun _ _ _ hsame => nomatch hsame⟩
      cases hsame
      exact heq rfl

theorem step (h : ForksCreated past f) (hs : FilesStep f e g) : ForksCreated (past ++ [e]) g := by
  cases hs with
  | create hp =>
    refine h.kept hp.catalogs_prefix (fun k fork hk => ?_) (fun _ _ _ heq => nomatch heq)
      fun _ _ _ _ _ heq => nomatch heq
    cases hp <;> exact hk
  | removeNothing =>
    exact h.kept List.prefix_rfl (fun _ _ hk => hk) (fun _ _ _ heq => nomatch heq)
      fun _ _ _ _ _ heq => nomatch heq
  | remove hpath hp =>
    refine h.kept hp.catalogs_prefix (fun k fork hk => ?_) (fun _ _ _ heq => nomatch heq)
      fun _ _ _ _ _ heq => nomatch heq
    cases hp <;> exact hk
  | createFork hp => exact h.createFork hp
  | openStream =>
    exact h.kept List.prefix_rfl (fun _ _ hk => hk) (fun _ _ _ heq => nomatch heq)
      fun _ _ _ _ _ heq => nomatch heq
  | ignored hs hnot =>
    refine h.kept List.prefix_rfl (fun _ _ hk => hk) (fun _ _ _ heq => nomatch heq) ?_
    intro stream data sz c fork heq hmode hdata hfile hk hmatch
    cases heq
    exact hnot c ⟨hmode, hdata, hfile, by decide, fork, hk, hmatch⟩
  | @written s data sz c hs hwrites =>
    refine h.kept List.prefix_rfl (fun k fork hk => ?_) (fun _ _ _ heq => nomatch heq) ?_
    · dsimp only [Partition.loseForks] at hk
      split at hk
      · cases hk
      · exact hk
    · intro stream data' sz' b fork heq _ _ hfile hk
      cases heq
      obtain rfl := Option.some.inj (hwrites.2.2.1.symm.trans hfile)
      -- the fork of the file itself is lost
      dsimp only [Partition.loseForks] at hk
      rw [if_pos ⟨le_rfl, by omega⟩] at hk
      cases hk
  | read =>
    exact h.kept List.prefix_rfl (fun _ _ hk => hk) (fun _ _ _ heq => nomatch heq)
      fun _ _ _ _ _ heq => nomatch heq

end ForksCreated

section Run

variable {blobCount : SizeT} {d : Drive} {s : FileState}

private theorem run_files {events : List FileEvent} (hd : BootFormatted blobCount d)
    (hblank : ∀ x, 3072 ≤ x → x < d.part.diskSize.toNat → d x = 0)
    (h : Trace FileStep (.boot d) events s) :
    ∃ f, Trace FilesStep (.boot d) events f ∧ FilesHold d.part s f :=
  h.simulate FilesStep (FilesHold d.part) (fun _ _ _ _ hx hs => hx.step hs) (.boot hd hblank)

private theorem one_way (restrictType : List UInt8) :
    ¬ ((modeOf restrictType).permitsRead = true ∧ (modeOf restrictType).permitsWrite = true) := by
  rw [modeOf]
  split <;> decide

private theorem run_one_way {events : List FileEvent} {f g : Files}
    (h : Trace FilesStep f events g)
    (hf : ∀ s ∈ f.streams, ¬ (s.fFileRestrict.permitsRead = true ∧
      s.fFileRestrict.permitsWrite = true)) :
    ∀ s ∈ g.streams, ¬ (s.fFileRestrict.permitsRead = true ∧
      s.fFileRestrict.permitsWrite = true) := by
  refine h.invariant (fun f : Files => ∀ s ∈ f.streams, ¬ (s.fFileRestrict.permitsRead = true ∧
    s.fFileRestrict.permitsWrite = true)) (fun f e g hf hs => ?_) hf
  cases hs with
  | openStream =>
    intro s hs
    rcases List.mem_append.mp hs with hs | hs
    · exact hf s hs
    · obtain rfl := List.mem_singleton.mp hs
      exact one_way _
  | _ => exact hf

end Run

/-! ## A file that is read -/

theorem FilesHold.open_found {part : NfsRootPartitionBlock} {s : FileState} {f : Files}
    (h : FilesHold part s f) {c : NfsCatalogStruct} (hc : c ∈ f.partition.catalogs)
    (hv : Visible f.partition.names c.nameText) {restrictType : List UInt8}
    (hr : restrictType ≠ []) :
    Yields (fun fuel => FileStream.new fuel s.man c.nameText restrictType)
      ⟨some c, modeOf restrictType⟩ := by
  have hname := h.holds.represents.resolves _ hv.mem
  have hreply := h.holds.represents.yields_findCatalog hname
  obtain ⟨e, he, htext, hstored⟩ := h.holds.catalog_of_name hv.mem
  rw [findReply_visible hv, hstored, h.holds.name_inj he hc htext] at hreply
  obtain ⟨fuel, hreply⟩ := hreply
  dsimp only at hreply
  refine .intro fuel ?_
  rw [FileStream.new, NeFileSystemMgr.openNode, if_neg (not_or.mpr ⟨hname.ne_nil, hr⟩),
    FileState.man, hreply, done_bind, done_bind, restrictOf_eq]

theorem FilesHold.read_found {part : NfsRootPartitionBlock} {s : FileState} {f : Files}
    (h : FilesHold part s f) {stream : FileStream} {c : NfsCatalogStruct} {sz : SizeT}
    (hs : stream ∈ s.streams) (hmode : stream.fFileRestrict.permitsRead = true)
    (hc : stream.fFile = some c) (hkind : c.kind = kNeFSCatalogKindFile) (hzero : sz ≠ 0)
    (hle : sz ≤ kNeFSForkSize) :
    Yields (fun fuel => stream.readChunk fuel (some s.man) sz)
      (f.partition.read c kNeFSDataFork, none) := by
  obtain ⟨fuel, hread⟩ := h.holds.readReply (h.catalog_mem hs hc)
    (kFileReadChunk &&& kFileFlagRsrc != 0) sz kNeFSDataFork
  refine .intro fuel ?_
  dsimp only [FileStream.readChunk, FileStream.reading]
  rw [if_neg (not_not.mpr hmode), hc]
  dsimp only [NeFileSystemMgr.read, NeFileSystemMgr.readFork]
  rw [if_neg hzero, if_neg (UInt64.not_lt.mpr hle), if_neg hzero, if_pos hkind]
  exact hread

/-- `/ab` -/
def samplePath : List UInt8 := [47, 97, 98]

theorem samplePath_valid : ValidName samplePath :=
  ⟨by decide, by decide, by decide, by decide, by decide⟩

/-- A fork of 16 bytes under the name that streams look for. -/
def mainFork (c : NfsCatalogStruct) : NfsForkStruct :=
  { sampleFork c with forkName := charBuffer 200 kNeFSDataFork }

private theorem mainFork_named (c : NfsCatalogStruct) :
    ForkNamed kNeFSDataFork c.nameChars (finishFork (mainFork c) c.dataFork c.dataFork) := by
  refine ⟨?_, equals_self _⟩
  change equals kNeFSDataFork (List.ofFn (charBuffer 200 kNeFSDataFork)) = true
  decide

private theorem boot_file : ∃ c s f, FileStep (.boot bootDrive)
    (.create samplePath kNeFSCatalogKindFile (some c)) s ∧ FilesHold bootDrive.part s f ∧
      c ∈ s.parser.handles ∧ c.nameText = samplePath ∧ c.kind = kNeFSCatalogKindFile ∧
      f.partition.index c ≠ 0 ∧ Visible f.partition.names samplePath := by
  obtain ⟨c, hkind, hrec, hy⟩ := bootDrive_formatted.represents.yields_createCatalog
    samplePath_valid.resolves 0 kNeFSCatalogKindFile (by decide) (by decide)
    bootDrive_formatted.free
  have hcreate := FileStep.create (s := .boot bootDrive) samplePath_valid.noNul hy
  have hboot := FilesHold.boot bootDrive_formatted fun _ hx _ => bootDrive_blank hx
  obtain ⟨f, _, hf⟩ := hboot.step hcreate
  have hc : c ∈ (FileState.boot bootDrive).parser.handles ++ (some c).toList :=
    List.mem_singleton_self c
  have hmem := hf.holds.handles hc
  refine ⟨c, _, f, hcreate, hf, hc, hrec.nameText_eq, hkind, ?_, ?_⟩
  · intro hzero
    have hdata := (hf.holds.record hmem).2.dataFork_eq
    have hcap := bootDrive_formatted.represents.length_le
    have hgt := bootDrive_formatted.geometry.place_gt hcap
    have hnat := bootDrive_formatted.geometry.place_toNat hcap
    rw [if_pos hzero, hrec.dataFork_eq, if_neg (by decide)] at hdata
    rw [hdata, UInt64.toNat_zero] at hnat
    omega
  · have hparent : parentOf samplePath = kNeFSRoot := by decide
    refine .child (by decide) ?_ (hparent ▸ .root hf.holds.represents.root_mem)
    exact List.mem_map.mpr ⟨c, hmem, hrec.nameText_eq⟩

/-- A file is created with a fork and read through a stream. -/
private theorem boot_stream : ∃ c g s, Trace FileStep (.boot bootDrive)
    ([.create samplePath kNeFSCatalogKindFile (some c), .createFork c (mainFork c) (some g),
      .openStream samplePath [114] ⟨some c, .read⟩] ++ [.read ⟨some c, .read⟩ 16 (some g)]) s := by
  obtain ⟨c, s, f, hcreate, hf, hc, htext, hkind, hroot, hv⟩ := boot_file
  have hsize : (mainFork c).dataSize ≤ forkSize :=
    UInt64.le_iff_toNat_le.mpr (show 16 ≤ 512 by decide)
  have hfork := FileStep.createFork hc hsize (.intro 2 (createFork_eq _ _ _ le_rfl))
  obtain ⟨q, hstep, hq⟩ := hf.step hfork
  generalize forkReply _ c (mainFork c) = r at hfork hstep hq
  obtain ⟨fork, header, drive⟩ := r
  cases hstep with
  | createFork hp =>
    cases hp with
    | forkRefused _ h =>
      refine absurd h (not_or.mpr ⟨hroot, ?_⟩)
      change charBuffer 200 kNeFSDataFork 0 ≠ 0
      decide
    | forkCreated hcat _ _ =>
      have hopen := hq.open_found hcat (htext ▸ hv) (show [114] ≠ [] by decide)
      rw [htext] at hopen
      have hstream := FileStep.openStream samplePath_valid.noNul hopen
      obtain ⟨q', hopened, hq'⟩ := hq.step hstream
      have hlast : (⟨some c, .read⟩ : FileStream) ∈ s.streams ++ [⟨some c, .read⟩] :=
        List.mem_append_right _ (List.mem_singleton_self _)
      have hsmall : (16 : SizeT) ≤ kNeFSForkSize := by decide
      have hread := FileStep.read hlast
        (hq'.read_found hlast rfl rfl hkind (by decide) hsmall)
      have hnamed : ForkNamed kNeFSDataFork c.nameChars
          (finishFork (mainFork c) c.dataFork c.dataFork) := mainFork_named c
      have hanswer : q'.partition.read c kNeFSDataFork =
          some (finishFork (mainFork c) c.dataFork c.dataFork) := by
        cases hopened
        rw [Partition.read]
        change Option.filter _ (Function.update f.partition.forks (f.partition.index c) _
          (f.partition.index c)) = _
        rw [Function.update_self, Option.filter_some, if_pos (decide_eq_true hnamed)]
      rw [hanswer] at hread
      exact ⟨c, _, _, .cons hcreate (.cons hfork (.cons hstream (.cons hread (.nil _))))⟩

end Zka.KernelKit
