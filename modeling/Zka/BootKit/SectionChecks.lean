import Zka.BootKit.Thread
import Zka.NewKit.Text

/-!
# What the loader checks

The comparison of names, by which a section takes its branch, and the test of the
stub that a `.ldr` section holds.
-/

namespace Zka.BootKit

open KernelKit NewKit FirmwareKit Outcome

/-! ## Names -/

private theorem strcmpLoop_cstr {a : List UInt8} (ha : 0 ∉ a) (name : List UInt8) (len : Nat) :
    strcmpLoop a name len = strcmpLoop a (cstr name) len := by
  induction a generalizing name len with
  | nil =>
    cases name with
    | nil => rfl
    | cons d name =>
      by_cases hd : d = 0
      · simp [strcmpLoop, cstr, hd]
      · simp [strcmpLoop, cstr, hd]
  | cons c a ih =>
    have hc : c ≠ 0 := fun h => ha (h ▸ List.mem_cons_self)
    have htail := ih fun h => ha (List.mem_cons_of_mem c h)
    cases name with
    | nil => rfl
    | cons d name =>
      by_cases hd : d = 0
      · simp [strcmpLoop, cstr, hd, hc]
      · by_cases hcd : c = d
        · subst hcd
          have hcstr : cstr (c :: name) = c :: cstr name := by simp [cstr, hc]
          simp only [strcmpLoop, hcstr, List.headD_cons, List.tail_cons, if_true, if_neg hc]
          exact htail name (len + 1)
        · simp [strcmpLoop, cstr, hd, hcd]

theorem zero_notMem_cstr (name : List UInt8) : 0 ∉ cstr name := by
  intro h
  simpa using List.mem_takeWhile_imp h

theorem commonLength_le (a b : List UInt8) : commonLength a b ≤ a.length := by
  induction a generalizing b with
  | nil => simp [commonLength]
  | cons c a ih =>
    cases b with
    | nil => simp [commonLength]
    | cons d b =>
      have htail := ih b
      simp only [commonLength, List.length_cons]
      split <;> omega

theorem commonLength_cons_eq_zero {c : UInt8} (hc : c ≠ 0) (a name : List UInt8) :
    commonLength (c :: a) (cstr name) = 0 ↔ name.headD 0 ≠ c := by
  cases name with
  | nil => simpa [commonLength, cstr] using hc.symm
  | cons d name =>
    by_cases hd : d = 0
    · subst hd
      simpa [commonLength, cstr] using hc.symm
    · by_cases hcd : c = d
      · simp [commonLength, cstr, hd, hcd]
      · simp [commonLength, cstr, hd, hcd, eq_comm]

theorem headD_of_cstr {c : UInt8} {a name : List UInt8} (h : cstr name = c :: a) :
    name.headD 0 = c := by
  have hstart := cstr_isStart name
  rw [h] at hstart
  cases name with
  | nil => exact absurd hstart.length_le (by simp)
  | cons d name => exact (List.cons_prefix_cons.mp hstart).1.symm

/-- A short word is compared with the name in the buffer; without a common start it passes. -/
theorem strcmp_word {c : UInt8} {a : List UInt8} (h0 : 0 ∉ c :: a) (hlen : a.length + 1 < 2 ^ 32)
    (name : List UInt8) :
    strcmp (some (c :: a)) name = 0 ↔ cstr name = c :: a ∨ name.headD 0 ≠ c := by
  have hc : c ≠ 0 := fun h => h0 (h ▸ List.mem_cons_self)
  have hname : strcmp (some (c :: a)) name = strcmp (some (c :: a)) (cstr name) := by
    simp only [strcmp, strcmpLoop_cstr h0 name]
  have hcommon := commonLength_le (c :: a) (cstr name)
  rw [List.length_cons] at hcommon
  rw [hname, strcmp_eq_zero_iff h0 (zero_notMem_cstr name), Nat.mod_eq_of_lt (by omega),
    commonLength_cons_eq_zero hc, or_iff_right (List.cons_ne_nil c a), eq_comm]

theorem sectionBranch_code_iff (name : List UInt8) :
    sectionBranch name = .code ↔ cstr name = sectionForCode ∨ name.headD 0 ≠ 46 := by
  have hword : strcmp (some sectionForCode) name = 0 ↔
      cstr name = sectionForCode ∨ name.headD 0 ≠ 46 :=
    strcmp_word (by decide) (by decide) name
  rw [← hword, sectionBranch]
  split
  next h => exact iff_of_true rfl h
  next h =>
    refine iff_of_false ?_ h
    split <;> decide

theorem sectionBranch_newLdr_iff (name : List UInt8) :
    sectionBranch name = .newLdr ↔ cstr name = sectionForNewLdr := by
  have hword : strcmp (some sectionForNewLdr) name = 0 ↔
      cstr name = sectionForNewLdr ∨ name.headD 0 ≠ 46 :=
    strcmp_word (by decide) (by decide) name
  have hcode := sectionBranch_code_iff name
  constructor
  · intro h
    have hdot : ¬ name.headD 0 ≠ 46 := by
      intro hne
      rw [hcode.mpr (Or.inr hne)] at h
      cases h
    rw [sectionBranch] at h
    split at h
    · cases h
    · split at h
      next heq => exact (hword.mp heq).resolve_right hdot
      next => cases h
  · intro h
    have hhead : name.headD 0 = 46 := headD_of_cstr h
    have hnot : ¬ strcmp (some sectionForCode) name = 0 := by
      intro h0
      have hb : sectionBranch name = .code := by rw [sectionBranch, if_pos h0]
      rcases hcode.mp hb with htext | hne
      · rw [h] at htext
        exact absurd htext (by decide)
      · exact hne hhead
    rw [sectionBranch, if_neg hnot, if_pos (hword.mpr (Or.inl h))]

/-- `strcmp` tells a text from every other that agrees with its first character, and a section
whose name does not begin with a dot takes the branch of the code. -/
theorem strcmpExact_iff {a b : List UInt8} (ha : 0 ∉ a) (hb : 0 ∉ b) (name : List UInt8) :
    ((strcmp (some a) b = 0 ↔ a = b) ↔
        a = b ∨ (a ≠ [] ∧ commonLength a b % 2 ^ 32 ≠ 0)) ∧
      ((sectionBranch name = .code ↔ cstr name = sectionForCode) ↔ name.headD 0 = 46) ∧
      (sectionBranch name = .newLdr → cstr name = sectionForNewLdr) := by
  refine ⟨?_, ?_, (sectionBranch_newLdr_iff name).mp⟩
  · rw [strcmp_eq_zero_iff ha hb]
    tauto
  · rw [sectionBranch_code_iff]
    constructor
    · intro h
      by_contra hne
      exact hne (headD_of_cstr (h.mp (Or.inr hne)))
    · intro hdot
      exact or_iff_left (not_not.mpr hdot)

theorem strcmpExact_words :
    ((strcmp (some [97, 98]) [97, 99] = 0 ↔ [(97 : UInt8), 98] = [97, 99]) ↔
        [(97 : UInt8), 98] = [97, 99] ∨
          ([(97 : UInt8), 98] ≠ [] ∧ commonLength [97, 98] [97, 99] % 2 ^ 32 ≠ 0)) ∧
      ((sectionBranch [67, 79, 68, 69] = .code ↔ cstr [67, 79, 68, 69] = sectionForCode) ↔
        List.headD [67, 79, 68, 69] 0 = (46 : UInt8)) ∧
      (sectionBranch [67, 79, 68, 69] = .newLdr → cstr [67, 79, 68, 69] = sectionForNewLdr) :=
  strcmpExact_iff (by decide) (by decide) [67, 79, 68, 69]

/-- The texts `"a"` and `"b"` differ in their first character. -/
theorem strcmp_first : ¬ (strcmp (some [97]) [98] = 0 ↔ [(97 : UInt8)] = [98]) := by decide

/-! ## Handover -/

/-- The section header as it is read behind the clearing of its section. -/
def sectionOf (s : Loader) (sect : UInt64) : SectionHeader := sectionHeader s.memory sect

/-- The state after the place of a section was cleared. -/
def Cleared (image : Image) (s : Loader) (sect : UInt64) (cleared : Loader) : Prop :=
  s.setMem (image.loadStartAddress + (sectionOf s sect).mVirtualAddress.toUInt64) 0
    (sectionOf s sect).mSizeOfRawData.toUInt64 = .done cleared

/-- The stub to which a section points. -/
def stubOf (image : Image) (cleared : Loader) (sect : UInt64) : HandoverInformationStub :=
  handoverStub cleared.memory
    (image.fBlob + (sectionOf cleared sect).mPointerToRawData.toUInt64)

/-- The machine is stopped at this section. -/
def StopsAt (image : Image) (s : Loader) (sect : UInt64) : Prop :=
  ∃ ended, loadSection image s sect = .done (.inr (.stopped ended))

theorem copySection_not_stopped (image : Image) (s : Loader) (h : SectionHeader)
    (ended : BThreadEnd) : copySection image s h ≠ .done (.inr ended) := by
  intro hstop
  rw [copySection, bind_eq_done] at hstop
  obtain ⟨_, _, hstop⟩ := hstop
  cases hstop

theorem stopsAt_newLdr_iff {image : Image} {s cleared : Loader} {sect : UInt64}
    (hclear : Cleared image s sect cleared)
    (hname : cstr (sectionOf cleared sect).mName = sectionForNewLdr) :
    StopsAt image s sect ↔ (stubOf image cleared sect).stops = true := by
  have hbranch : sectionBranch (sectionHeader cleared.memory sect).mName = .newLdr :=
    (sectionBranch_newLdr_iff _).mpr hname
  have hset : s.setMem (image.loadStartAddress +
      (sectionHeader s.memory sect).mVirtualAddress.toUInt64) 0
        (sectionHeader s.memory sect).mSizeOfRawData.toUInt64 = .done cleared := hclear
  have hread : (cleared.reading (sectionReads sect)).memory = cleared.memory := rfl
  simp only [StopsAt, loadSection, finishSection, hset, done_bind, hread, hbranch, stubOf,
    sectionOf]
  split
  next hstop => exact iff_of_true ⟨_, rfl⟩ hstop
  next hgo =>
    refine iff_of_false ?_ hgo
    intro h
    rcases h with ⟨ended, hended⟩
    exact copySection_not_stopped _ _ _ _ hended

/-- From whatever state the loop comes to a `.ldr` section, and for every header the kernel is
given: both tests miss what has one of the two fields right. -/
theorem handoverChecked_iff {image : Image} {s cleared : Loader} {sect : UInt64}
    (hclear : Cleared image s sect cleared)
    (hname : cstr (sectionOf cleared sect).mName = sectionForNewLdr) (hdr : BootInfoHeader) :
    ((¬ StopsAt image s sect → (stubOf image cleared sect).Valid) ↔
        ((stubOf image cleared sect).handoverMagic ≠ kHandoverMagic ∧
          (stubOf image cleared sect).handoverType ≠ kTypeKernel) ∨
          (stubOf image cleared sect).Valid) ∧
      ((hdr.refused = false → hdr.Valid) ↔
        (hdr.fMagic ≠ kHandoverMagic ∧ hdr.fVersion ≠ kHandoverVersion) ∨ hdr.Valid) := by
  refine ⟨?_, hdr.checked_iff⟩
  rw [stopsAt_newLdr_iff hclear hname, Bool.not_eq_true]
  exact (stubOf image cleared sect).checked_iff

/-! An image with one `.ldr` section, whose stub has the magic and no type. -/

def untypedStub : Store := fun x =>
  match x with
  | 0x1000 => 0xCC
  | 0x1001 => 0xAD
  | 0x1002 => 0x0B
  | 0x2000 => 46
  | 0x2001 => 108
  | 0x2002 => 100
  | 0x2003 => 114
  | _ => 0

def untypedImage : Image := ⟨0x1000, 0x1098, 0x100000⟩

def untypedLoader : Loader := ⟨untypedStub, 0, [], []⟩

def untypedCleared : Loader := ⟨untypedStub, 0, [], [⟨0x100000, 0⟩]⟩

theorem sectionOf_untyped :
    sectionOf untypedLoader 0x2000 = ⟨[46, 108, 100, 114, 0, 0, 0, 0], 0, 0, 0⟩ := by
  have hva : untypedStub.get Layout.u32 0x200C = 0 := Store.get_u32_iff.mpr (by decide)
  have hsize : untypedStub.get Layout.u32 0x2010 = 0 := Store.get_u32_iff.mpr (by decide)
  have hptr : untypedStub.get Layout.u32 0x2014 = 0 := Store.get_u32_iff.mpr (by decide)
  have hname : List.ofFn (untypedStub.read 0x2000 8) = [46, 108, 100, 114, 0, 0, 0, 0] := by decide
  change SectionHeader.mk _ (untypedStub.get Layout.u32 0x200C)
    (untypedStub.get Layout.u32 0x2010) (untypedStub.get Layout.u32 0x2014) = _
  rw [hva, hsize, hptr]
  exact congrArg (fun name => SectionHeader.mk name 0 0 0) hname

theorem cleared_untyped :
    Cleared untypedImage untypedLoader 0x2000 untypedCleared := by
  rw [Cleared, sectionOf_untyped]
  rfl

theorem stubOf_untyped :
    stubOf untypedImage untypedCleared 0x2000 =
      ⟨kHandoverMagic, 0, 0⟩ := by
  have hmagic : untypedStub.get Layout.u64 0x1000 = kHandoverMagic :=
    Store.get_u64_iff.mpr (by decide)
  have htype : untypedStub.get Layout.u32 0x1008 = 0 := Store.get_u32_iff.mpr (by decide)
  have harch : untypedStub.get Layout.u32 0x1010 = 0 := Store.get_u32_iff.mpr (by decide)
  have hsection : sectionOf untypedCleared 0x2000 =
      ⟨[46, 108, 100, 114, 0, 0, 0, 0], 0, 0, 0⟩ := sectionOf_untyped
  rw [stubOf, hsection]
  change HandoverInformationStub.mk (untypedStub.get Layout.u64 0x1000)
    (untypedStub.get Layout.u32 0x1008) (untypedStub.get Layout.u32 0x1010) = _
  rw [hmagic, htype, harch]

private theorem name_untyped :
    cstr (sectionOf untypedCleared 0x2000).mName =
      sectionForNewLdr := by
  have hsection : sectionOf untypedCleared 0x2000 =
      ⟨[46, 108, 100, 114, 0, 0, 0, 0], 0, 0, 0⟩ := sectionOf_untyped
  rw [hsection]
  decide

theorem handoverChecked_untyped :
    (¬ (¬ StopsAt untypedImage untypedLoader 0x2000 →
        (stubOf untypedImage untypedCleared 0x2000).Valid)) ∧
      ¬ (BootInfoHeader.refused ⟨kHandoverMagic, 0⟩ = false →
        BootInfoHeader.Valid ⟨kHandoverMagic, 0⟩) := by
  obtain ⟨hstub, hheader⟩ := handoverChecked_iff cleared_untyped name_untyped ⟨kHandoverMagic, 0⟩
  rw [hstub, hheader, stubOf_untyped]
  refine ⟨by decide, ?_⟩
  intro h
  rcases h with ⟨hmagic, _⟩ | ⟨_, hversion⟩
  · exact hmagic rfl
  · exact absurd hversion (by decide)

/-- The loader goes on with a stub that is not of a kernel. -/
theorem handover_passes_untyped :
    ¬ StopsAt untypedImage untypedLoader 0x2000 ∧
      ¬ (stubOf untypedImage untypedCleared 0x2000).Valid := by
  rw [stopsAt_newLdr_iff cleared_untyped name_untyped, stubOf_untyped]
  decide

end Zka.BootKit
