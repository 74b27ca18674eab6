import Zka.Framework.Outcome
import Zka.Framework.Store

/-!
# The ACPI tables

`Find` counts the entries of the root table as if each had eight bytes; the array that it then
reads has entries of four.
-/

namespace Zka.Modules

open Outcome

/-! ## The tables in memory -/

/-- `sizeof(SDT)`, which is also where the array of an `RSDT` begins. -/
def sizeofSdt : UInt64 := 36

section Fields

variable (m : Store) (p : Nat)

def sdtSignature : Bytes 4 := m.read p 4

def sdtLength : UInt32 := m.get Layout.u32 (p + 4)

def sdtRevision : UInt8 := m (p + 8)

/-- The first field of an `RSDP` behind those of an `SDT`. -/
def rsdtAddress : UInt32 := m.get Layout.u32 (p + sizeofSdt.toNat)

def addressArr (index : Nat) : UInt32 := m.get Layout.u32 (p + sizeofSdt.toNat + 4 * index)

end Fields

/-! ## `Find` -/

structure ACPIFactoryInterface where
  fRsdp : UInt64
  fEntries : Int64

/-- The address or the error that is returned, the new `fEntries` and the entries read, in order. -/
structure FindReply where
  result : Except Int32 UInt32
  fEntries : Int64
  entriesRead : List Nat

def cAcpiSignatureLength : Nat := 4

/-- The inner loop, which breaks at the first character that differs. -/
def signatureMatches (m : Store) (sdt : Nat) (signature : List UInt8) : Bool :=
  (List.range cAcpiSignatureLength).all fun i => m (sdt + i) == signature.getD i 0

/-- The difference is an unsigned number of 64 bits, which a short table lets wrap around. -/
def numEntries (length : UInt32) : Int64 := ((length.toUInt64 - sizeofSdt) / 8).toInt64

/-- The loop from `index` on, with so many entries to go. -/
def findEntry (m : Store) (xsdt : Nat) (signature : List UInt8) :
    Nat → Nat → Except Int32 UInt32 × List Nat
  | 0, _ => (.error (-1), [])
  | rest + 1, index =>
    if signatureMatches m (addressArr m xsdt index).toNat signature then
      (.ok (addressArr m xsdt index), [index])
    else
      let (result, entriesRead) := findEntry m xsdt signature rest (index + 1)
      (result, index :: entriesRead)

/-- The table that the root descriptor names. -/
def rootTable (m : Store) (acpi : ACPIFactoryInterface) : Nat :=
  (rsdtAddress m acpi.fRsdp.toNat).toNat

/-- The part of `Find` behind its checks; `ke_stop` does not return. -/
def searchTable (m : Store) (xsdt : Nat) (signature : List UInt8) : Outcome CFault FindReply :=
  let num := numEntries (sdtLength m xsdt)
  if num < 1 then .running
  else
    let found := findEntry m xsdt signature num.toUInt64.toNat 0
    .done ⟨found.1, num, found.2⟩

/-- `Find`; the check of `fRsdp` is empty in a release. -/
def find (m : Store) (acpi : ACPIFactoryInterface) (signature : Option (List UInt8)) :
    Outcome CFault FindReply :=
  match signature with
  | none => .done ⟨.error (-1), acpi.fEntries, []⟩
  | some signature =>
    if signature.getD 0 0 = 0 then .done ⟨.error (-1), acpi.fEntries, []⟩
    else if acpi.fRsdp = 0 then .fault .nullDereference
    else if sdtRevision m acpi.fRsdp.toNat ≤ 1 then .done ⟨.error (-1), acpi.fEntries, []⟩
    else searchTable m (rootTable m acpi) signature

/-! ## What a lookup should do -/

/-- There is a root table, and its length covers `n` entries. -/
structure RootTable (m : Store) (acpi : ACPIFactoryInterface) (n : Nat) : Prop where
  rsdp : acpi.fRsdp ≠ 0
  length : (sdtLength m (rootTable m acpi)).toNat = sizeofSdt.toNat + 4 * n

/-- The table of an entry has the signature. -/
def EntryHas (m : Store) (acpi : ACPIFactoryInterface) (signature : Bytes 4) (i : Nat) : Prop :=
  sdtSignature m (addressArr m (rootTable m acpi) i).toNat = signature

/-- The call returns, with an entry of that signature or with an error if there is none, and no
entry behind the table is read. -/
def FindCorrect (m : Store) (acpi : ACPIFactoryInterface) (signature : Bytes 4) (n : Nat) : Prop :=
  ∃ r, find m acpi (some (List.ofFn signature)) = .done r ∧
    ((∃ i, i < n ∧ EntryHas m acpi signature i ∧
        r.result = .ok (addressArr m (rootTable m acpi) i)) ∨
      ((∃ err, r.result = .error err) ∧ ∀ i, i < n → ¬ EntryHas m acpi signature i)) ∧
    ∀ i ∈ r.entriesRead, i < n

/-! ### The count -/

private theorem numEntries_toNat {length : UInt32} {n : Nat}
    (h : length.toNat = sizeofSdt.toNat + 4 * n) :
    (numEntries length).toUInt64.toNat = n / 2 := by
  have hle : sizeofSdt ≤ length.toUInt64 := by
    rw [UInt64.le_iff_toNat_le, UInt32.toNat_toUInt64, h]
    exact Nat.le_add_right _ _
  rw [numEntries, UInt64.toUInt64_toInt64, UInt64.toNat_div, UInt64.toNat_sub_of_le _ _ hle,
    UInt32.toNat_toUInt64, h, Nat.add_sub_cancel_left]
  have height : UInt64.toNat 8 = 8 := rfl
  rw [height]
  omega

/-- Below one entry of eight bytes the machine stops. -/
private theorem numEntries_lt_one_iff {length : UInt32} {n : Nat}
    (h : length.toNat = sizeofSdt.toNat + 4 * n) : numEntries length < 1 ↔ n < 2 := by
  have hnat : ((numEntries length).toUInt64).toBitVec.toNat = n / 2 := numEntries_toNat h
  have hlt := length.toNat_lt
  have hsmall : 2 * (numEntries length).toUInt64.toBitVec.toNat < 2 ^ 64 := by omega
  have hint : (numEntries length).toInt = (n / 2 : Nat) := by
    rw [← hnat]
    exact BitVec.toInt_eq_toNat_of_lt hsmall
  have hone : Int64.toInt 1 = 1 := rfl
  rw [Int64.lt_iff_toInt_lt, hint, hone]
  omega

/-- A length below the header gives a count that no table has. -/
theorem numEntries_short {length : UInt32} (h : length.toNat < sizeofSdt.toNat) :
    2 ^ 60 ≤ (numEntries length).toUInt64.toNat := by
  have hsize : sizeofSdt.toNat = 36 := rfl
  have height : UInt64.toNat 8 = 8 := rfl
  rw [numEntries, UInt64.toUInt64_toInt64, UInt64.toNat_div, UInt64.toNat_sub,
    UInt32.toNat_toUInt64, height, hsize]
  omega

/-! ### The loops -/

section FindEntry

variable {m : Store} {xsdt rest index : Nat} {signature : List UInt8}

/-- The first entry that matches, or the error. -/
private theorem findEntry_result :
    (∃ i, index ≤ i ∧ i < index + rest ∧
        signatureMatches m (addressArr m xsdt i).toNat signature = true ∧
        (findEntry m xsdt signature rest index).1 = .ok (addressArr m xsdt i)) ∨
      ((findEntry m xsdt signature rest index).1 = .error (-1) ∧
        ∀ i, index ≤ i → i < index + rest →
          ¬ signatureMatches m (addressArr m xsdt i).toNat signature = true) := by
  induction rest generalizing index with
  | zero => exact Or.inr ⟨rfl, fun i hle hlt => by omega⟩
  | succ rest ih =>
    dsimp only [findEntry]
    by_cases hhere : signatureMatches m (addressArr m xsdt index).toNat signature = true
    · rw [if_pos hhere]
      exact Or.inl ⟨index, le_rfl, by omega, hhere, rfl⟩
    · rw [if_neg hhere]
      rcases @ih (index + 1) with ⟨i, hle, hlt, hmatch, hres⟩ | ⟨hres, hnone⟩
      · exact Or.inl ⟨i, by omega, by omega, hmatch, hres⟩
      · refine Or.inr ⟨hres, fun i hle hlt => ?_⟩
        rcases hle.eq_or_lt with rfl | hbehind
        · exact hhere
        · exact hnone i hbehind (by omega)

private theorem findEntry_reads {i : Nat} (h : i ∈ (findEntry m xsdt signature rest index).2) :
    i < index + rest := by
  induction rest generalizing index with
  | zero => cases h
  | succ rest ih =>
    dsimp only [findEntry] at h
    split at h
    · rw [List.mem_singleton.mp h]
      omega
    · rcases List.mem_cons.mp h with rfl | hbehind
      · omega
      · have hlt := ih hbehind
        omega

/-- The inner loop compares the four characters. -/
private theorem signatureMatches_iff {sdt : Nat} (signature : Bytes 4) :
    signatureMatches m sdt (List.ofFn signature) = true ↔ sdtSignature m sdt = signature := by
  rw [signatureMatches, List.all_eq_true, funext_iff]
  constructor
  · intro h i
    have hi := h i.val (List.mem_range.mpr i.isLt)
    rw [beq_iff_eq, List.getD_eq_getElem _ _ (by simp), List.getElem_ofFn] at hi
    exact hi
  · intro h i hi
    have hlt : i < 4 := List.mem_range.mp hi
    rw [beq_iff_eq, List.getD_eq_getElem _ _ (by simpa using hlt), List.getElem_ofFn]
    exact h ⟨i, hlt⟩

end FindEntry

/-! ### The lookup -/

section Find

variable {m : Store} {acpi : ACPIFactoryInterface} {signature : Bytes 4} {n : Nat}

private theorem find_eq (hroot : RootTable m acpi n) (hsig : ∀ i, signature i ≠ 0) :
    find m acpi (some (List.ofFn signature)) =
      if sdtRevision m acpi.fRsdp.toNat ≤ 1 then .done ⟨.error (-1), acpi.fEntries, []⟩
      else searchTable m (rootTable m acpi) (List.ofFn signature) := by
  have hhead : (List.ofFn signature).getD 0 0 ≠ 0 := by
    rw [List.getD_eq_getElem _ _ (by simp), List.getElem_ofFn]
    exact hsig 0
  dsimp only [find]
  rw [if_neg hhead, if_neg hroot.rsdp]

/-- Half of the entries are looked at. -/
private theorem searchTable_eq (hroot : RootTable m acpi n) (text : List UInt8) :
    searchTable m (rootTable m acpi) text =
      if n < 2 then .running
      else .done ⟨(findEntry m (rootTable m acpi) text (n / 2) 0).1,
        numEntries (sdtLength m (rootTable m acpi)),
        (findEntry m (rootTable m acpi) text (n / 2) 0).2⟩ := by
  have hcount := numEntries_lt_one_iff hroot.length
  dsimp only [searchTable]
  rw [numEntries_toNat hroot.length]
  by_cases hn : n < 2
  · rw [if_pos hn, if_pos (hcount.mpr hn)]
  · rw [if_neg hn, if_neg (mt hcount.mp hn)]

/-- Behind the checks an entry is found if one of the first half has the signature. -/
private theorem search_correct_iff (hroot : RootTable m acpi n) (hsig : ∀ i, signature i ≠ 0)
    (hrev : ¬ sdtRevision m acpi.fRsdp.toNat ≤ 1) :
    FindCorrect m acpi signature n ↔ 2 ≤ n ∧
      ((∃ i, i < n ∧ EntryHas m acpi signature i) →
        ∃ i, i < n / 2 ∧ EntryHas m acpi signature i) := by
  rw [FindCorrect, find_eq hroot hsig, if_neg hrev, searchTable_eq hroot]
  by_cases hn : n < 2
  · rw [if_pos hn]
    constructor
    · intro h
      obtain ⟨_, hrun, _⟩ := h
      cases hrun
    · intro h
      omega
  rw [if_neg hn]
  have hreads : ∀ i ∈ (findEntry m (rootTable m acpi) (List.ofFn signature) (n / 2) 0).2, i < n := by
    intro i hi
    have hlt := findEntry_reads hi
    omega
  rcases @findEntry_result m (rootTable m acpi) (n / 2) 0 (List.ofFn signature) with
    ⟨i, _, hlt, hmatch, hres⟩ | ⟨hres, hnone⟩
  · have hhas : EntryHas m acpi signature i := (signatureMatches_iff signature).mp hmatch
    refine iff_of_true ⟨_, rfl, Or.inl ⟨i, by omega, hhas, hres⟩, hreads⟩ ⟨by omega, fun _ => ?_⟩
    exact ⟨i, by omega, hhas⟩
  · have hhalf : ∀ i, i < n / 2 → ¬ EntryHas m acpi signature i := by
      intro i hi hhas
      exact hnone i (Nat.zero_le i) (by omega) ((signatureMatches_iff signature).mpr hhas)
    constructor
    · intro h
      refine ⟨by omega, fun hsome => ?_⟩
      obtain ⟨r, hrun, hout, _⟩ := h
      obtain rfl := done.inj hrun
      rcases hout with ⟨i, _, _, hok⟩ | ⟨_, hnot⟩
      · rw [hres] at hok
        cases hok
      · obtain ⟨i, hi, hhas⟩ := hsome
        exact absurd hhas (hnot i hi)
    · intro h
      refine ⟨_, rfl, Or.inr ⟨⟨_, hres⟩, fun i hi hhas => ?_⟩, hreads⟩
      obtain ⟨j, hj, hother⟩ := h.2 ⟨i, hi, hhas⟩
      exact hhalf j hj hother

/-- The lookup is correct exactly if the revision is refused and no entry has the signature, or
there are at least two entries and, if any has it, one of the first half does. -/
theorem find_correct_iff (hroot : RootTable m acpi n) (hsig : ∀ i, signature i ≠ 0) :
    FindCorrect m acpi signature n ↔
      (sdtRevision m acpi.fRsdp.toNat ≤ 1 ∧ ∀ i, i < n → ¬ EntryHas m acpi signature i) ∨
        (1 < sdtRevision m acpi.fRsdp.toNat ∧ 2 ≤ n ∧
          ((∃ i, i < n ∧ EntryHas m acpi signature i) →
            ∃ i, i < n / 2 ∧ EntryHas m acpi signature i)) := by
  by_cases hrev : sdtRevision m acpi.fRsdp.toNat ≤ 1
  · rw [FindCorrect, find_eq hroot hsig, if_pos hrev]
    constructor
    · intro h
      obtain ⟨r, hrun, hout, _⟩ := h
      obtain rfl := done.inj hrun
      rcases hout with ⟨_, _, _, hok⟩ | ⟨_, hnone⟩
      · cases hok
      · exact Or.inl ⟨hrev, hnone⟩
    · intro h
      rcases h with ⟨_, hnone⟩ | ⟨hlt, _⟩
      · exact ⟨_, rfl, Or.inr ⟨⟨_, rfl⟩, hnone⟩, by simp⟩
      · exact absurd hlt (UInt8.not_lt.mpr hrev)
  · rw [search_correct_iff hroot hsig hrev]
    constructor
    · intro h
      exact Or.inr ⟨UInt8.not_le.mp hrev, h⟩
    · intro h
      exact (h.resolve_left fun hold => hrev hold.1).2

end Find

/-! ### Two tables -/

/-- A root descriptor of revision 2 at 4096, and a root table at 8192 with two entries, for tables
of the signatures `FACP` and `APIC`. -/
def acpiMemory : Store := fun x =>
  ([(4104, 2), (4133, 32), (8196, 44), (8229, 48), (8233, 49), (12288, 70), (12289, 65),
    (12290, 67), (12291, 80), (12544, 65), (12545, 80), (12546, 73), (12547, 67)].lookup x).getD 0

def sampleAcpi : ACPIFactoryInterface := ⟨4096, 0⟩

private theorem sampleRoot : rootTable acpiMemory sampleAcpi = 8192 := by
  have h : rsdtAddress acpiMemory sampleAcpi.fRsdp.toNat = 8192 :=
    Store.get_u32_iff.mpr (by decide)
  rw [rootTable, h]
  rfl

private theorem sampleAcpi_root : RootTable acpiMemory sampleAcpi 2 := by
  refine ⟨by decide, ?_⟩
  have h : sdtLength acpiMemory 8192 = 44 := Store.get_u32_iff.mpr (by decide)
  rw [sampleRoot, h]
  rfl

private theorem sampleEntry_first : addressArr acpiMemory 8192 0 = 12288 :=
  Store.get_u32_iff.mpr (by decide)

private theorem sampleEntry_second : addressArr acpiMemory 8192 1 = 12544 :=
  Store.get_u32_iff.mpr (by decide)

/-- `FACP` is found in the first entry. -/
theorem find_correct_first : FindCorrect acpiMemory sampleAcpi ![70, 65, 67, 80] 2 := by
  refine (find_correct_iff sampleAcpi_root (by decide)).mpr (Or.inr ⟨by decide, le_rfl, fun _ => ?_⟩)
  refine ⟨0, by decide, ?_⟩
  rw [EntryHas, sampleRoot, sampleEntry_first]
  decide

/-- `APIC` stands in the second entry and is not found. -/
theorem find_misses_second : ¬ FindCorrect acpiMemory sampleAcpi ![65, 80, 73, 67] 2 := by
  intro h
  have hrev : ¬ sdtRevision acpiMemory sampleAcpi.fRsdp.toNat ≤ 1 := by decide
  have hhalf := ((search_correct_iff sampleAcpi_root (by decide) hrev).mp h).2
  obtain ⟨i, hi, hhas⟩ := hhalf ⟨1, by decide, by
    rw [EntryHas, sampleRoot, sampleEntry_second]
    decide⟩
  obtain rfl : i = 0 := by omega
  rw [EntryHas, sampleRoot, sampleEntry_first] at hhas
  exact absurd hhas (by decide)

end Zka.Modules
