import Zka.Framework.Run
import Zka.NewKit.Memory

/-!
# Indexable properties

What the indexer keeps for a file: a word of flags, and the path that `fs_index_file` is to fill
in once, when it claims the property.  The flags are meant as a set of the sixteen bits of a mask.
-/

namespace Zka.FSKit

open Outcome NewKit

def kIndexerNodeNameLength : Nat := 255

def kIndexerClaimed : Int16 := 0xCF

/-- `path` is where the bytes of `Path` stand. -/
structure IndexableProperty where
  path : UInt64
  fFlags : UInt32
  inSpace : InSpace path kIndexerNodeNameLength

/-- A mask as it meets the word of flags, its sign extended. -/
def flagWord (flag : Int16) : UInt32 := flag.toInt32.toUInt32

namespace IndexableProperty

def addFlag (p : IndexableProperty) (flag : Int16) : IndexableProperty :=
  { p with fFlags := p.fFlags ||| flagWord flag }

/-- The mask is not complemented. -/
def removeFlag (p : IndexableProperty) (flag : Int16) : IndexableProperty :=
  { p with fFlags := p.fFlags &&& flagWord flag }

def hasFlag (p : IndexableProperty) (flag : Int16) : Int16 :=
  (p.fFlags &&& flagWord flag).toUInt16.toInt16

end IndexableProperty

/-- The arguments of `rt_copy_memory` are the source and then the target. -/
def fsIndexFile (m : Store) (filename filenameLen : UInt64) (indexer : IndexableProperty) :
    Outcome CFault (Store × IndexableProperty) :=
  if indexer.hasFlag kIndexerClaimed = 0 then
    rtCopyMemory m indexer.path filename filenameLen >>= fun r =>
      .done (r.2, indexer.addFlag kIndexerClaimed)
  else .done (m, indexer)

/-! ## The sets of bits -/

def maskBits (flag : Int16) : Set (Fin 16) := {i | flag.toBitVec.getLsbD i = true}

namespace IndexableProperty

/-- The flags that a mask can name. -/
def bits (p : IndexableProperty) : Set (Fin 16) := {i | p.fFlags.toBitVec.getLsbD i = true}

variable (p : IndexableProperty) (flag : Int16)

private theorem flagWord_bit (i : Fin 16) :
    (flagWord flag).toBitVec.getLsbD i = flag.toBitVec.getLsbD i := by
  have hword : (flagWord flag).toBitVec = flag.toBitVec.signExtend 32 := rfl
  rw [hword, BitVec.getLsbD_signExtend]
  simp [show (i : Nat) < 32 by omega]

@[simp] theorem bits_addFlag : (p.addFlag flag).bits = p.bits ∪ maskBits flag := by
  ext i
  simp [bits, maskBits, addFlag, flagWord_bit]

@[simp] theorem bits_removeFlag : (p.removeFlag flag).bits = p.bits ∩ maskBits flag := by
  ext i
  simp [bits, maskBits, removeFlag, flagWord_bit]

theorem hasFlag_ne_zero_iff : p.hasFlag flag ≠ 0 ↔ (p.bits ∩ maskBits flag).Nonempty := by
  have hanswer : (p.hasFlag flag).toBitVec =
      (p.fFlags.toBitVec &&& (flagWord flag).toBitVec).setWidth 16 := rfl
  rw [Ne, ← Int16.toBitVec_inj, hanswer, Set.nonempty_def, ← not_forall_not, not_iff_not]
  constructor
  · intro h i hi
    have hbit := congrArg (fun w => w.getLsbD i) h
    simp only [BitVec.getLsbD_setWidth, BitVec.getLsbD_and, flagWord_bit] at hbit
    simp_all [bits, maskBits]
  · intro h
    apply BitVec.eq_of_getLsbD_eq
    intro i hi
    have hbit := h ⟨i, hi⟩
    have hword := flagWord_bit flag ⟨i, hi⟩
    simp_all [bits, maskBits]

end IndexableProperty

/-! ## Histories of flags -/

inductive FlagCall where
  | add (flag : Int16)
  | remove (flag : Int16)
  | has (flag : Int16)
  deriving DecidableEq, Repr

namespace FlagCall

def run (p : IndexableProperty) : FlagCall → IndexableProperty
  | add flag => p.addFlag flag
  | remove flag => p.removeFlag flag
  | has _ => p

/-- What is added and not removed since. -/
def next (added : Set (Fin 16)) : FlagCall → Set (Fin 16)
  | add flag => added ∪ maskBits flag
  | remove flag => added \ maskBits flag
  | has _ => added

/-- The call answers, and leaves the flags, as a set of bits would. -/
def AsSet (p : IndexableProperty) (added : Set (Fin 16)) : FlagCall → Prop
  | add flag => (p.addFlag flag).bits = p.bits ∪ maskBits flag
  | remove flag => (p.removeFlag flag).bits = p.bits \ maskBits flag
  | has flag => p.hasFlag flag ≠ 0 ↔ (added ∩ maskBits flag).Nonempty

/-- Nothing is removed as long as there is something to remove, and no flag is asked for that
only `stale` has. -/
def Harmless (stale added : Set (Fin 16)) : FlagCall → Prop
  | add _ => True
  | remove _ => stale = ∅ ∧ added = ∅
  | has flag => stale ∩ maskBits flag = ∅ ∨ (added ∩ maskBits flag).Nonempty

end FlagCall

/-- The flags behave as a set in all of the calls. -/
def FlagsAsSet (p : IndexableProperty) (calls : List FlagCall) : Prop :=
  Along (fun s call => (call.run s.1, call.next s.2)) (fun s call => call.AsSet s.1 s.2) (p, ∅)
    calls

private theorem inter_eq_diff_iff {α : Type} (s t : Set α) : s ∩ t = s \ t ↔ s = ∅ := by
  constructor
  · intro h
    have hdisjoint : Disjoint (s ∩ t) (s \ t) := Set.disjoint_sdiff_right.mono_left
      Set.inter_subset_right
    rw [← h, disjoint_self, Set.bot_eq_empty] at hdisjoint
    rw [← Set.inter_union_sdiff s t, ← h, hdisjoint, Set.union_empty]
  · intro h
    rw [h, Set.empty_inter, Set.empty_sdiff]

section Calls

variable {p : IndexableProperty} {stale added : Set (Fin 16)}

/-- One call, where the flags are those that were set at the start and those added since. -/
theorem FlagCall.asSet_iff (h : p.bits = stale ∪ added) (call : FlagCall) :
    call.AsSet p added ↔ call.Harmless stale added := by
  cases call with
  | add flag => simp [AsSet, Harmless]
  | remove flag =>
    rw [AsSet, IndexableProperty.bits_removeFlag, inter_eq_diff_iff, h, Set.union_empty_iff]
    rfl
  | has flag =>
    rw [AsSet, IndexableProperty.hasFlag_ne_zero_iff, h, Set.union_inter_distrib_right,
      Set.union_nonempty, Harmless, ← Set.not_nonempty_iff_eq_empty]
    exact or_iff_right_iff_imp.trans imp_iff_not_or

theorem FlagCall.bits_run (h : p.bits = stale ∪ added) (call : FlagCall)
    (hcall : call.Harmless stale added) : (call.run p).bits = stale ∪ call.next added := by
  cases call with
  | add flag => rw [run, IndexableProperty.bits_addFlag, h, Set.union_assoc, next]
  | remove flag =>
    obtain ⟨rfl, rfl⟩ := hcall
    rw [run, IndexableProperty.bits_removeFlag, h]
    simp [next]
  | has flag => exact h

private theorem along_asSet_iff (h : p.bits = stale ∪ added) (calls : List FlagCall) :
    Along (fun s call => (call.run s.1, call.next s.2)) (fun s call => call.AsSet s.1 s.2)
      (p, added) calls ↔
      Along (fun added call => call.next added) (FlagCall.Harmless stale) added calls := by
  induction calls generalizing p added with
  | nil => exact Iff.rfl
  | cons call rest ih =>
    rw [Along, Along, call.asSet_iff h]
    exact and_congr_right fun hcall => ih (call.bits_run h hcall)

end Calls

/-- The flags are a set exactly as long as no removal finds one, and no flag is asked for that only
the uninitialised word had. -/
theorem flags_asSet_iff (p : IndexableProperty) (calls : List FlagCall) :
    FlagsAsSet p calls ↔
      Along (fun added call => call.next added) (FlagCall.Harmless p.bits) ∅ calls :=
  along_asSet_iff (Set.union_empty p.bits).symm calls

/-- A property whose flags are clear. -/
def freshProperty : IndexableProperty := ⟨0x2000, 0, by decide⟩

/-- The only flag that is set is the one that is removed, and it stays. -/
theorem removeFlag_keeps : ¬ FlagsAsSet freshProperty [.add 1, .remove 1, .has 1] := by
  intro h
  obtain ⟨_, hremove, _⟩ := h
  have hbits := (inter_eq_diff_iff _ _).mp
    ((IndexableProperty.bits_removeFlag _ 1).symm.trans hremove)
  have hone : (0 : Fin 16) ∈ (FlagCall.run freshProperty (.add 1)).bits := rfl
  rw [hbits] at hone
  exact hone

/-! ## Indexing a file -/

/-- The call fills in the path, claims the property and leaves the `size` bytes of the filename;
what is claimed no further call changes. -/
def IndexesFile (m : Store) (filename : UInt64) (size : Nat) (filenameLen : UInt64)
    (indexer : IndexableProperty) : Prop :=
  ∃ m' indexer', fsIndexFile m filename filenameLen indexer = .done (m', indexer') ∧
    (∀ i < filenameLen.toNat, m' (indexer.path.toNat + i) = m (filename.toNat + i)) ∧
    maskBits kIndexerClaimed ⊆ indexer'.bits ∧
    (∀ i < size, m' (filename.toNat + i) = m (filename.toNat + i)) ∧
    ∀ m other otherLen, fsIndexFile m other otherLen indexer' = .done (m, indexer')

section IndexFile

variable {m : Store} {filename filenameLen : UInt64} {size : Nat} {indexer : IndexableProperty}

/-- A property that is claimed is left alone. -/
theorem fsIndexFile_claimed (h : maskBits kIndexerClaimed ⊆ indexer.bits) (m : Store)
    (filename filenameLen : UInt64) :
    fsIndexFile m filename filenameLen indexer = .done (m, indexer) := by
  have hzero : (0 : Fin 16) ∈ maskBits kIndexerClaimed := by
    simp [maskBits, kIndexerClaimed]
  rw [fsIndexFile, if_neg]
  exact (indexer.hasFlag_ne_zero_iff _).mpr ⟨0, h hzero, hzero⟩

/-- The first call copies out of the path into the filename. -/
theorem fsIndexFile_unclaimed (hfree : Disjoint indexer.bits (maskBits kIndexerClaimed))
    (hname : InSpace filename filenameLen.toNat)
    (hlen : filenameLen.toNat ≤ kIndexerNodeNameLength) :
    fsIndexFile m filename filenameLen indexer =
      .done (m.copyElements 1 filename.toNat indexer.path.toNat filenameLen.toNat,
        indexer.addFlag kIndexerClaimed) := by
  have hspace := indexer.inSpace
  have hflag : indexer.hasFlag kIndexerClaimed = 0 := by
    by_contra hset
    exact Set.not_nonempty_iff_eq_empty.mpr hfree.inter_eq
      ((indexer.hasFlag_ne_zero_iff _).mp hset)
  have hpath : InSpace indexer.path filenameLen.toNat := by
    unfold InSpace at hspace ⊢
    omega
  rw [fsIndexFile, if_pos hflag, rtCopyMemory]
  by_cases h : filenameLen < 1
  · have h0 : filenameLen.toNat = 0 := Nat.lt_one_iff.mp (UInt64.lt_iff_toNat_lt.mp h)
    rw [if_pos h, h0]
    rfl
  · rw [if_neg h, if_pos ⟨hpath, hname⟩]
    rfl

theorem claimed_addFlag (p : IndexableProperty) :
    maskBits kIndexerClaimed ⊆ (p.addFlag kIndexerClaimed).bits := by
  rw [IndexableProperty.bits_addFlag]
  exact Set.subset_union_right

/-- Only bytes of the filename are written, so a call that leaves these changes no memory. -/
private theorem bytes_of_indexesFile (hfree : Disjoint indexer.bits (maskBits kIndexerClaimed))
    (hname : InSpace filename filenameLen.toNat) (hsize : filenameLen.toNat ≤ size)
    (hlen : filenameLen.toNat ≤ kIndexerNodeNameLength)
    (h : IndexesFile m filename size filenameLen indexer) :
    ∀ i < filenameLen.toNat, m (indexer.path.toNat + i) = m (filename.toNat + i) := by
  obtain ⟨m', indexer', hdone, hpath, _, hkept, _⟩ := h
  rw [fsIndexFile_unclaimed hfree hname hlen] at hdone
  obtain ⟨rfl, rfl⟩ := Prod.mk.inj (done.inj hdone)
  have hall : ∀ x, m.copyElements 1 filename.toNat indexer.path.toNat filenameLen.toNat x =
      m x := by
    intro x
    by_cases hx : filename.toNat ≤ x ∧ x < filename.toNat + filenameLen.toNat
    · have hbyte := hkept (x - filename.toNat) (by omega)
      rwa [Nat.add_sub_cancel' hx.1] at hbyte
    · exact Store.copyElements_outside (by omega)
  intro i hi
  rw [← hall, hpath i hi]

/-- A file is indexed as it should be exactly if its name already stands in the path. -/
theorem indexesFile_iff (hfree : Disjoint indexer.bits (maskBits kIndexerClaimed))
    (hname : InSpace filename filenameLen.toNat) (hsize : filenameLen.toNat ≤ size)
    (hlen : filenameLen.toNat ≤ kIndexerNodeNameLength) :
    IndexesFile m filename size filenameLen indexer ↔
      ∀ i < filenameLen.toNat, m (indexer.path.toNat + i) = m (filename.toNat + i) := by
  constructor
  · exact bytes_of_indexesFile hfree hname hsize hlen
  · intro h
    have hsame : m.copyElements 1 filename.toNat indexer.path.toNat filenameLen.toNat = m := by
      apply Store.copyElements_same
      intro i hi
      rw [Nat.one_mul]
      funext c
      simpa [Store.read] using h i hi
    have hcall := fsIndexFile_unclaimed (m := m) hfree hname hlen
    rw [hsame] at hcall
    have hclaimed := claimed_addFlag indexer
    refine ⟨m, _, hcall, h, hclaimed, fun i _ => rfl, ?_⟩
    exact fun m _ _ => fsIndexFile_claimed hclaimed m _ _

end IndexFile

private theorem freshProperty_free : Disjoint freshProperty.bits (maskBits kIndexerClaimed) := by
  have hbits : freshProperty.bits = ∅ := by
    ext i
    simp [IndexableProperty.bits, freshProperty]
  rw [hbits]
  exact Set.empty_disjoint _

theorem indexesFile_same : IndexesFile (fun _ => 47) 0x1000 16 4 freshProperty := by
  apply (indexesFile_iff freshProperty_free (by decide) (by decide) (by decide)).mpr
  intro i _
  rfl

/-- The empty path is put over the filename. -/
theorem indexesFile_backwards :
    ¬ IndexesFile (fun x => if x < 0x2000 then 47 else 0) 0x1000 16 4 freshProperty := by
  intro h
  have hbytes := bytes_of_indexesFile freshProperty_free (by decide) (by decide) (by decide) h
  have hfirst := hbytes 0 (by decide)
  exact absurd hfirst (by decide)

end Zka.FSKit
