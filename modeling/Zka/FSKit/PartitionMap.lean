import Zka.FSKit.Format
import Zka.FSKit.Walks

/-!
# The partition map

The kernel's formatter looks for the first empty entry of the map and then for a partition
block without a name.  What it writes, and when it returns.
-/

namespace Zka.FSKit

open NewKit Outcome Relation

/-! ## First bytes of the records -/

theorem get_bootBlock_magic (d : Drive) (a : Nat) (i : Fin 5) :
    (Store.get bootBlockLayout d a).magic i = d (a + i) := by
  have hbyte : ∀ b : BootBlockStruct, bootBlockLayout b ⟨i, by omega⟩ = b.magic i := by
    intro b
    simp only [bootBlockLayout, Layout.map_apply, Layout.cast_apply]
    exact Layout.append_apply_castAdd (Layout.bytes 5) _ _ i
  have hread : bootBlockLayout (Store.get bootBlockLayout d a) = d.read a 512 :=
    Equiv.apply_symm_apply _ _
  rw [← hbyte, hread]
  rfl

theorem partLayout_ident (b : NfsRootPartitionBlock) (i : Fin 8) :
    partLayout b ⟨i, by omega⟩ = b.ident i := by
  simp only [partLayout, Layout.map_apply, Layout.cast_apply]
  exact Layout.append_apply_castAdd (Layout.bytes 8) _ _ i

theorem partLayout_symm_ident (image : Bytes 512) (i : Fin 8) :
    (partLayout.symm image).ident i = image ⟨i, by omega⟩ := by
  rw [← partLayout_ident, Equiv.apply_symm_apply]

theorem partLayout_name (b : NfsRootPartitionBlock) (i : Fin 32) :
    partLayout b ⟨8 + i, by omega⟩ = b.partitionName i := by
  simp only [partLayout, Layout.map_apply, Layout.cast_apply]
  refine (Layout.append_apply_natAdd (Layout.bytes 8) _ _ (Fin.castAdd _ i)).trans ?_
  exact Layout.append_apply_castAdd (Layout.bytes 32) _ _ i

theorem partLayout_symm_name (image : Bytes 512) (i : Fin 32) :
    (partLayout.symm image).partitionName i = image ⟨8 + i, by omega⟩ := by
  rw [← partLayout_name, Equiv.apply_symm_apply]

/-! ## The first empty entry -/

/-- The entry in slot `n` of the map. -/
def mapEntry (d : Drive) (n : Nat) : BootBlockStruct := Store.get bootBlockLayout d (512 * n)

/-- What the search has gathered when it looks at slot `n`. -/
def epmScan (d : Drive) : Nat → EpmScan
  | 0 => ⟨kEPMBaseLba, 0, 0⟩
  | n + 1 =>
    let s := epmScan d n
    let buf := Store.get bootBlockLayout d s.outEpmLba.toNat
    ⟨s.outEpmLba + 512, (buf.lbaStart + buf.lbaEnd).toUInt64, s.cnt + 1⟩

theorem epmScan_lba (d : Drive) (n : Nat) :
    (epmScan d n).outEpmLba.toNat = 512 * n % 2 ^ 64 := by
  induction n with
  | zero => rfl
  | succ n ih =>
    have h512 : (512 : Lba).toNat = 512 := rfl
    rw [epmScan, UInt64.toNat_add, ih, h512]
    omega

/-- Slot `n` is the first one that is empty. -/
structure FirstEmpty (d : Drive) (n : Nat) : Prop where
  addressed : n < 2 ^ 55
  empty : d (512 * n) = 0
  taken : ∀ k < n, d (512 * k) ≠ 0

theorem FirstEmpty.lba {d : Drive} {n : Nat} (h : FirstEmpty d n) :
    (epmScan d n).outEpmLba.toNat = 512 * n := by
  have hlt := h.addressed
  rw [epmScan_lba]
  omega

def withEntry (d : Drive) (n : Nat) (endLba : Lba) : Drive :=
  Store.put bootBlockLayout d (512 * n) (kernelEpmBlock (epmScan d n) endLba)

/-- The drive behind the first part of the formatter. -/
def EpmWritten (d : Drive) (endLba : Lba) (flags : Int32) (e : Drive) : Prop :=
  if flags &&& kNeFSPartitionTypeBoot = 0 then e = d
  else ∃ n, FirstEmpty d n ∧ e = withEntry d n endLba

private theorem epmBody_goes (d : Drive) {n : Nat} (h : d (512 * n % 2 ^ 64) ≠ 0) :
    epmBody d (epmScan d n) = .done (.inl (epmScan d (n + 1))) := by
  rw [epmBody, if_neg, epmScan]
  rw [get_bootBlock_magic, epmScan_lba]
  exact h

private theorem epmBody_leaves (d : Drive) {n : Nat} (h : ¬ d (512 * n % 2 ^ 64) ≠ 0) :
    epmBody d (epmScan d n) = .done (.inr (epmScan d n)) := by
  rw [epmBody, if_pos]
  rw [get_bootBlock_magic, epmScan_lba]
  exact not_not.mp h

/-- The addresses of the slots repeat after 2^55 of them, so the first empty one is before. -/
private theorem firstEmpty_iff (d : Drive) (n : Nat) :
    ((∀ k < n, d (512 * k % 2 ^ 64) ≠ 0) ∧ ¬ d (512 * n % 2 ^ 64) ≠ 0) ↔ FirstEmpty d n := by
  have hmod : ∀ k, k < 2 ^ 55 → 512 * k % 2 ^ 64 = 512 * k := by
    intro k hk
    omega
  constructor
  · intro h
    rcases h with ⟨htaken, hempty⟩
    have hn : n < 2 ^ 55 := by
      by_contra hge
      have hsame : 512 * (n - 2 ^ 55) % 2 ^ 64 = 512 * n % 2 ^ 64 := by omega
      exact hempty (hsame ▸ htaken (n - 2 ^ 55) (by omega))
    rw [hmod n hn] at hempty
    refine ⟨hn, not_not.mp hempty, fun k hk => ?_⟩
    rw [← hmod k (by omega)]
    exact htaken k hk
  · intro h
    rw [hmod n h.addressed]
    refine ⟨fun k hk => ?_, not_not.mpr h.empty⟩
    have hn := h.addressed
    rw [hmod k (by omega)]
    exact h.taken k hk

theorem writeEpm_mono (d : Drive) (endLba : Lba) (flags : Int32) :
    Monotone fun fuel => writeEpm fuel d endLba flags := by
  intro n m h
  dsimp only [writeEpm]
  split
  · exact le_refl _
  · exact bind_le_bind (whileLoop_mono _ _ h) fun _ => le_refl _

theorem yields_writeEpm_iff {d e : Drive} {endLba : Lba} {flags : Int32} :
    Yields (fun fuel => writeEpm fuel d endLba flags) e ↔ EpmWritten d endLba flags e := by
  rw [EpmWritten]
  simp only [writeEpm]
  split
  · constructor
    · intro h
      rcases h with ⟨fuel, h⟩
      exact (done.inj h).symm
    · intro h
      exact ⟨0, congrArg done h.symm⟩
  · rw [yields_bind_iff (whileLoop_mono _ _) fun _ _ _ _ => le_refl _]
    have hloop : ∀ r, Yields (fun fuel => whileLoop (epmBody d) fuel (epmScan d 0)) r ↔
        ∃ n, (∀ k < n, d (512 * k % 2 ^ 64) ≠ 0) ∧ ¬ d (512 * n % 2 ^ 64) ≠ 0 ∧ r = epmScan d n := by
      intro r
      exact yields_whileLoop_along_iff (fun _ => epmBody_goes d) fun _ => epmBody_leaves d
    constructor
    · intro h
      rcases h with ⟨s, hs, _, he⟩
      obtain ⟨n, htaken, hempty, rfl⟩ := (hloop s).mp hs
      have hn := (firstEmpty_iff d n).mp ⟨htaken, hempty⟩
      refine ⟨n, hn, ?_⟩
      rw [← done.inj he, hn.lba, withEntry]
    · intro h
      rcases h with ⟨n, hn, rfl⟩
      obtain ⟨htaken, hempty⟩ := (firstEmpty_iff d n).mpr hn
      refine ⟨epmScan d n, (hloop _).mpr ⟨n, htaken, hempty, rfl⟩, 0, ?_⟩
      rw [hn.lba, withEntry]

/-! ## The free partition -/

def FreeBlock (lit : FormatLiterals) (b : NfsRootPartitionBlock) : Prop :=
  b.Unnamed ∧ ∃ i : Fin 8, b.ident i ≠ lit.ident.byte i

instance (lit : FormatLiterals) (b : NfsRootPartitionBlock) : Decidable (FreeBlock lit b) :=
  inferInstanceAs (Decidable (_ ∧ _))

def partitionAt (d : Drive) (a : Lba) : NfsRootPartitionBlock := Store.get partLayout d a.toNat

theorem partitionAt_start (d : Drive) : partitionAt d kNeFSRootCatalogStartAddress = d.part := by
  rw [partitionAt, Drive.part]

theorem part_ident (d : Drive) (i : Fin 8) : d.part.ident i = d (1024 + i) := by
  rw [← partitionAt_start, partitionAt, Store.get, partLayout_symm_ident]
  rfl

theorem partLayout_zero : partLayout NfsRootPartitionBlock.zero = fun _ => 0 :=
  Layout.map_zero <| Layout.cast_zero _ <| Layout.append_zero (bytes_zero _) <|
    Layout.append_zero (bytes_zero _) <| Layout.append_zero Layout.i32_zero <|
    Layout.append_zero Layout.i32_zero <| Layout.append_zero Layout.u64_zero <|
    Layout.append_zero Layout.u64_zero <| Layout.append_zero Layout.u64_zero <|
    Layout.append_zero Layout.u64_zero <| Layout.append_zero Layout.u64_zero <|
    Layout.append_zero Layout.u64_zero <| Layout.append_zero Layout.u64_zero <|
    Layout.append_zero Layout.u64_zero <| Layout.append_zero Layout.u64_zero (bytes_zero _)

theorem part_of_zero {d : Drive} (h : ∀ x, 1024 ≤ x → x < 1536 → d x = 0) : d.part = .zero := by
  rw [← partitionAt_start]
  exact Store.get_of_zero _ partLayout_zero h

/-- One step of the search over a block that is in use. -/
def PartitionStep (d : Drive) (lit : FormatLiterals) (s t : Lba × NfsRootPartitionBlock) : Prop :=
  ¬ FreeBlock lit s.2 ∧ t = (s.1 + s.2.diskSize, partitionAt d (s.1 + s.2.diskSize))

/-- The search finds the free block `old` at `a`; it has read the first block into its buffer
before the map was written. -/
def FoundFree (d : Drive) (lit : FormatLiterals) (first : NfsRootPartitionBlock) (a : Lba)
    (old : NfsRootPartitionBlock) : Prop :=
  ReflTransGen (PartitionStep d lit) (kNeFSRootCatalogStartAddress, first) (a, old) ∧
    FreeBlock lit old

private theorem partitionBody_eq (d : Drive) (lit : FormatLiterals)
    (s : Lba × NfsRootPartitionBlock) : partitionBody d lit s =
      if FreeBlock lit s.2 then .done (.inr s.2)
      else .done (.inl (s.1 + s.2.diskSize, partitionAt d (s.1 + s.2.diskSize))) := rfl

private theorem yields_search_iff {d : Drive} {lit : FormatLiterals}
    {first old : NfsRootPartitionBlock} :
    Yields (fun fuel => whileLoop (partitionBody d lit) fuel
        (kNeFSRootCatalogStartAddress, first)) old ↔
      ∃ a, FoundFree d lit first a old := by
  have hgoes : (fun s t => partitionBody d lit s = .done (.inl t)) = PartitionStep d lit := by
    funext s t
    rw [partitionBody_eq, PartitionStep]
    split
    · rename_i hfree
      simp [hfree]
    · rename_i hused
      simp [hused, eq_comm]
  rw [yields_whileLoop_iff, hgoes]
  constructor
  · intro h
    rcases h with ⟨⟨a, b⟩, hwalk, hexit⟩
    rw [partitionBody_eq] at hexit
    split at hexit
    · rename_i hfree
      cases hexit
      exact ⟨a, hwalk, hfree⟩
    · cases hexit
  · intro h
    rcases h with ⟨a, hwalk, hfree⟩
    refine ⟨(a, old), hwalk, ?_⟩
    rw [partitionBody_eq, if_pos hfree]

/-! ## The root directory -/

/-- The list of catalogs holds a root. -/
def HasRoot (d : Drive) : Prop :=
  ∃ lba, ReflTransGen (Linked (searchNext d kNeFSRoot)) d.part.startCatalog lba ∧
    equals kNeFSRoot (d.catalog lba).nameChars ∧ (d.catalog lba).Created

private theorem yields_searchRoot_iff {d : Drive} :
    (∃ found, Yields (fun fuel => searchCatalogList fuel d kNeFSRoot d.part.startCatalog)
      (some found)) ↔ HasRoot d := by
  have hgoes : (fun s t => searchBody d kNeFSRoot s = .done (.inl t)) =
      Linked (searchNext d kNeFSRoot) := by
    funext s t
    obtain ⟨out, hout, hnext⟩ := searchBody_next (d := d) kNeFSRoot s
    rw [hout, Linked, hnext]
    cases out <;> simp
  simp only [searchCatalogList, yields_whileLoop_iff, hgoes]
  constructor
  · intro h
    rcases h with ⟨found, lba, hwalk, hexit⟩
    rw [searchBody] at hexit
    split at hexit
    · rename_i hfound
      exact ⟨lba, hwalk, hfound⟩
    · split at hexit
      · cases hexit
      · cases hexit
  · intro h
    rcases h with ⟨lba, hwalk, hfound⟩
    exact ⟨(d.catalog lba, lba), lba, hwalk, if_pos hfound⟩

/-- Creating the root returns exactly where there is one, and leaves the drive as it is. -/
theorem yields_createRoot_iff {d d' : Drive} :
    (∃ r, Yields (fun fuel => createCatalog fuel d kNeFSRoot 0 kNeFSCatalogKindDir) r ∧
      r.drive = d') ↔ HasRoot d ∧ d' = d := by
  have hkind : KindFits kNeFSRoot kNeFSCatalogKindDir := by decide
  have hparent : parentName kNeFSRoot = .fault .indexOutOfRange := by
    rw [parentName_eq (by decide)]
    rfl
  constructor
  · intro h
    rcases h with ⟨r, ⟨fuel, hr⟩, rfl⟩
    dsimp only [createCatalog] at hr
    rw [if_neg (not_not.mpr hkind)] at hr
    obtain ⟨⟨found, lba⟩, hfind, hr⟩ := bind_eq_done.mp hr
    cases fuel with
    | zero => cases hfind
    | succ fuel =>
      rw [findCatalog, if_pos (equals_self _)] at hfind
      obtain ⟨out, hsearch, hfind⟩ := bind_eq_done.mp hfind
      cases out with
      | none =>
        cases hfind
        rw [if_neg (by decide), hparent] at hr
        cases hr
      | some found =>
        cases hfind
        cases hr
        exact ⟨yields_searchRoot_iff.mp ⟨found, fuel, hsearch⟩, rfl⟩
  · intro h
    rcases h with ⟨hroot, rfl⟩
    obtain ⟨⟨c, lba⟩, fuel, hsearch⟩ := yields_searchRoot_iff.mpr hroot
    have hfind : findCatalog (fuel + 1) d' kNeFSRoot = .done (some c, lba) := by
      dsimp only at hsearch
      rw [findCatalog, if_pos (equals_self _), hsearch]
      rfl
    refine ⟨⟨some c, none, some .kErrorFileExists, d'⟩, ⟨fuel + 1, ?_⟩, rfl⟩
    dsimp only [createCatalog]
    rw [if_neg (not_not.mpr hkind), hfind]
    rfl

/-! ## The formatter -/

section Format

variable {d d' : Drive} {lit : FormatLiterals} {endLba : Lba} {flags : Int32} {partName : CString}
  {sectorCount diskSize : SizeT} {ok : Bool} {e : Drive} {old : NfsRootPartitionBlock}

theorem format_refused (h : partName.text = [] ∨ endLba = 0) :
    Yields (fun fuel => format fuel d lit endLba flags partName sectorCount diskSize) (ok, d') ↔
      ok = false ∧ d' = d := by
  simp only [format, if_pos h]
  constructor
  · intro hy
    rcases hy with ⟨_, hy⟩
    cases hy
    exact ⟨rfl, rfl⟩
  · intro hy
    rcases hy with ⟨rfl, rfl⟩
    exact ⟨0, rfl⟩

/-- What `Format` does with the free block it has found. -/
def placePartition (lit : FormatLiterals) (partName : CString) (sectorCount diskSize : SizeT)
    (fuel : Nat) (e : Drive) (old : NfsRootPartitionBlock) : Outcome CFault (Bool × Drive) :=
  if 512 < 8 + rtStringLen partName.text then .fault .indexOutOfRange
  else
    createCatalog fuel (Drive.putPart e (kernelPartBlock old lit partName sectorCount diskSize))
      kNeFSRoot 0 kNeFSCatalogKindDir >>= fun reply => .done (true, reply.drive)

/-- The three stages of a request that is not refused. -/
private theorem format_eq (h : ¬ (partName.text = [] ∨ endLba = 0)) (fuel : Nat) :
    format fuel d lit endLba flags partName sectorCount diskSize =
      writeEpm fuel d endLba flags >>= fun e =>
        whileLoop (partitionBody e lit) fuel (kNeFSRootCatalogStartAddress, d.part) >>= fun old =>
          placePartition lit partName sectorCount diskSize fuel e old := by
  simp only [format, if_neg h]
  rfl

private theorem placePartition_mono (e : Drive) (old : NfsRootPartitionBlock) :
    Monotone fun fuel => placePartition lit partName sectorCount diskSize fuel e old := by
  intro n m hnm
  dsimp only [placePartition]
  split
  · exact le_refl _
  · exact bind_le_bind (createCatalog_mono _ _ _ _ hnm) fun _ => le_refl _

/-- The block is written if the name fits, and then a root is needed. -/
private theorem yields_placePartition_iff :
    Yields (fun fuel => placePartition lit partName sectorCount diskSize fuel e old) (ok, d') ↔
      8 + rtStringLen partName.text ≤ 512 ∧
        HasRoot (e.putPart (kernelPartBlock old lit partName sectorCount diskSize)) ∧
        ok = true ∧ d' = e.putPart (kernelPartBlock old lit partName sectorCount diskSize) := by
  by_cases hlen : 512 < 8 + rtStringLen partName.text
  · simp only [placePartition, if_pos hlen]
    refine iff_of_false (fun hy => ?_) fun hy => by omega
    rcases hy with ⟨_, hy⟩
    cases hy
  · simp only [placePartition, if_neg hlen]
    rw [yields_bind_iff (createCatalog_mono _ _ _ _) fun _ _ _ _ => le_refl _]
    constructor
    · intro hy
      obtain ⟨r, hr, _, hdone⟩ := hy
      cases hdone
      obtain ⟨hroot, hsame⟩ := yields_createRoot_iff.mp ⟨r, hr, rfl⟩
      exact ⟨not_lt.mp hlen, hroot, rfl, hsame⟩
    · intro hy
      obtain ⟨_, hroot, rfl, rfl⟩ := hy
      obtain ⟨r, hr, hsame⟩ := yields_createRoot_iff.mpr ⟨hroot, rfl⟩
      exact ⟨r, hr, 0, by rw [hsame]⟩

/-- The formatter returns when the map has an empty entry, the search meets a free block, the name
fits the block and there is a root. -/
theorem yields_format_iff (h : ¬ (partName.text = [] ∨ endLba = 0)) :
    Yields (fun fuel => format fuel d lit endLba flags partName sectorCount diskSize) (ok, d') ↔
      ∃ e a old, EpmWritten d endLba flags e ∧ FoundFree e lit d.part a old ∧
        8 + rtStringLen partName.text ≤ 512 ∧
        HasRoot (e.putPart (kernelPartBlock old lit partName sectorCount diskSize)) ∧
        ok = true ∧ d' = e.putPart (kernelPartBlock old lit partName sectorCount diskSize) := by
  simp only [format_eq h]
  have hsearch : ∀ e : Drive, Monotone fun fuel =>
      whileLoop (partitionBody e lit) fuel (kNeFSRootCatalogStartAddress, d.part) >>= fun old =>
        placePartition lit partName sectorCount diskSize fuel e old := by
    intro e n m hnm
    exact bind_le_bind (whileLoop_mono _ _ hnm) fun old => placePartition_mono e old hnm
  rw [yields_bind_iff (writeEpm_mono d endLba flags) hsearch]
  constructor
  · intro hy
    obtain ⟨e, he, hy⟩ := hy
    rw [yields_bind_iff (whileLoop_mono _ _) (placePartition_mono e)] at hy
    obtain ⟨old, hold, hy⟩ := hy
    obtain ⟨a, hfound⟩ := yields_search_iff.mp hold
    exact ⟨e, a, old, yields_writeEpm_iff.mp he, hfound, yields_placePartition_iff.mp hy⟩
  · intro hy
    obtain ⟨e, a, old, he, hfound, hplace⟩ := hy
    refine ⟨e, yields_writeEpm_iff.mpr he, ?_⟩
    rw [yields_bind_iff (whileLoop_mono _ _) (placePartition_mono e)]
    exact ⟨old, yields_search_iff.mpr ⟨a, hfound⟩, yields_placePartition_iff.mpr hplace⟩

end Format

end Zka.FSKit
