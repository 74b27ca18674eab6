import Zka.KernelKit.HeapBlocks

/-!
# Protected blocks

`mm_protect_heap` stores the check sequence of a block in its header, and
`mm_delete_heap` halts when the block has another one by then.  The size in the
header counts the header, so the check runs past the end of the payload.
-/

namespace Zka.KernelKit

open Outcome HALKit NewKit Store

section Protect

variable (abi : BitFieldRules) (m : Store) (p : UIntPtr) (sz : UInt64)

def mmProtectHeap : Outcome CFault (Bool × Store) :=
  if p = 0 then return (false, m)
  else
    let header := p - sizeofHeapInformationBlock abi
    if header ≠ 0 ∧ fBit abi m header .present = true ∧ fMagic abi m header = kKernelHeapMagic then
      do
        let crc ← keCalculateCrc32 m (fHeapPtr abi m header) (fHeapSize abi m header).toUInt32
        return (true, setCRC32 abi m header crc)
    else return (false, m)

/-- A deletion calls `ke_stop`. -/
def Stops : Prop := ∃ id m', mmDeleteHeap abi m p = .done (.stopped id m')

/-- A deletion finds out about every change of up to four bytes of the payload that lie next to each
other, and about nothing else. -/
structure ProtectionExact : Prop where
  detects : ∀ m', ChangesOnly [⟨p.toNat, sz.toNat⟩] m m' →
    Crc.Burst 4 (bytesFrom m p.toNat sz.toNat) (bytesFrom m' p.toNat sz.toNat) →
    (∀ c ∈ bytesFrom m p.toNat sz.toNat, c < 0x80) →
    (∀ c ∈ bytesFrom m' p.toNat sz.toNat, c < 0x80) → Stops abi m' p
  spares : ∀ m', bytesFrom m' p.toNat sz.toNat = bytesFrom m p.toNat sz.toNat → ¬ Stops abi m' p

/-! ## Blocks of the kernel -/

/-- The header of a kernel block as `mm_new_heap` fills it in, except for the check sequence. -/
structure KernelBlock : Prop where
  room : 2 * (sizeofHeapInformationBlock abi).toNat ≤ p.toNat
  size_ne : sz ≠ 0
  magic : fMagic abi m (headerOf abi p) = kKernelHeapMagic
  present : fBit abi m (headerOf abi p) .present = true
  kernel : fBit abi m (headerOf abi p) .user = false
  heapSize : fHeapSize abi m (headerOf abi p) = sz + sizeofHeapInformationBlock abi
  heapPtr : fHeapPtr abi m (headerOf abi p) = p

/-- The length that the check is given. -/
def checkedLength : UInt32 := (sz + sizeofHeapInformationBlock abi).toUInt32

/-- The bytes that the check reads. -/
def checkedBytes : List UInt8 := bytesFrom m p.toNat (checkedLength abi sz).toNat

/-- A kernel block with its check sequence. -/
structure ProtectedBlock : Prop extends KernelBlock abi m p sz where
  low : ∀ c ∈ checkedBytes abi m p sz, c < 0x80
  crc : fCRC32 abi m (headerOf abi p) = crc32c (checkedBytes abi m p sz)

end Protect

variable {abi : BitFieldRules} {request : PageRequest} {m m' : Store} {p : UIntPtr} {sz : UInt64}

theorem fHeapSize_initHeader (header : UIntPtr) (szFix : UInt64) (wr user : Bool) :
    fHeapSize abi (initHeader abi m header szFix wr user) header = szFix := by
  simp [initHeader, fHeapSize, setHeapSize, setMagic, setCRC32, setHeapPtr, setBit]

theorem fBit_setBit_ne (header : UIntPtr) {bit other : HeapBit} (h : other ≠ bit) (value : Bool) :
    fBit abi (setBit abi m header bit value) header other = fBit abi m header other := by
  have hset : bit.mask &&& other.mask = 0 := by
    revert h
    cases bit <;> cases other <;> decide
  have hclear : ~~~bit.mask &&& other.mask = other.mask := by
    revert h
    cases bit <;> cases other <;> decide
  cases value
  · simp [fBit, UInt8.and_assoc, hclear]
  · have hdistrib : ∀ byte : UInt8, (byte ||| bit.mask) &&& other.mask =
        byte &&& other.mask ||| bit.mask &&& other.mask :=
      fun _ => UInt8.eq_of_toBitVec_eq BitVec.and_or_distrib_right
    simp [fBit, hdistrib, hset]

theorem fUser_initHeader (header : UIntPtr) (szFix : UInt64) (wr user : Bool) :
    fBit abi (initHeader abi m header szFix wr user) header .user = user := by
  simp [initHeader, fBit_setBit_ne header (show HeapBit.user ≠ .present by decide)]

theorem mmNewHeap_kernelBlock {wr : Bool}
    (hroom : 2 * (sizeofHeapInformationBlock abi).toNat ≤ p.toNat)
    (hnew : mmNewHeap abi request m sz wr false = .done (p, m')) : KernelBlock abi m' p sz := by
  have hne : sz ≠ 0 := by
    intro h
    subst h
    cases hnew
    have hsize := sizeof_cases abi
    rw [UInt64.toNat_zero] at hroom
    omega
  obtain ⟨granted, m₁, -, rfl, rfl⟩ := mmNewHeap_done hne hnew
  refine ⟨hroom, hne, ?_, ?_, ?_, ?_, ?_⟩
  all_goals rw [headerOf_payload]
  · exact fMagic_initHeader abi _ _ _ _ _
  · exact fPresent_initHeader abi _ _ _ _ _
  · exact fUser_initHeader _ _ _ _
  · exact fHeapSize_initHeader _ _ _ _
  · exact fHeapPtr_initHeader abi _ _ _ _ _

theorem KernelBlock.congr (h : KernelBlock abi m p sz)
    (heq : ∀ f, f ≠ .fCRC32 →
      field abi m' (headerOf abi p) f = field abi m (headerOf abi p) f) :
    KernelBlock abi m' p sz := by
  obtain ⟨hroom, hne, hmagic, hpresent, hkernel, hsize, hptr⟩ := h
  have hbits : ∀ bit, fBit abi m' (headerOf abi p) bit = fBit abi m (headerOf abi p) bit := by
    intro bit
    rw [fBit, heapBits, heq _ (by decide), ← heapBits, ← fBit]
  refine ⟨hroom, hne, ?_, ?_, ?_, ?_, ?_⟩
  · rw [fMagic, heq _ (by decide), ← fMagic, hmagic]
  · rw [hbits, hpresent]
  · rw [hbits, hkernel]
  · rw [fHeapSize, heq _ (by decide), ← fHeapSize, hsize]
  · rw [fHeapPtr, heq _ (by decide), ← fHeapPtr, hptr]

theorem stops_iff_crcFails (h : KernelBlock abi m p sz) :
    Stops abi m p ↔ crcFails abi m (headerOf abi p) = .done true := by
  obtain ⟨hp, hne⟩ := pointer_ne h.room
  have hcheck : mmCheckHeapAddress p = true := by simpa [mmCheckHeapAddress] using hp
  have hmagic := h.magic
  have hpresent := h.present
  rw [headerOf] at hne hmagic hpresent ⊢
  rw [Stops, mmDeleteHeap, if_neg (by simp [hcheck])]
  simp only [if_pos (And.intro hne hmagic), hpresent]
  cases hfails : crcFails abi m (p - sizeofHeapInformationBlock abi) with
  | running => simp
  | fault e => simp
  | done wrong => cases wrong <;> simp

/-- A deletion halts exactly when there is a check sequence, and it is wrong. -/
theorem stops_iff (h : KernelBlock abi m p sz) : Stops abi m p ↔
    fCRC32 abi m (headerOf abi p) ≠ 0 ∧ ∃ crc,
      keCalculateCrc32 m p (checkedLength abi sz) = .done crc ∧
      fCRC32 abi m (headerOf abi p) ≠ crc := by
  rw [stops_iff_crcFails h, crcFails, h.heapPtr, h.heapSize, h.kernel, ← checkedLength]
  by_cases hzero : fCRC32 abi m (headerOf abi p) = 0
  · simp [hzero]
  · simp [hzero, bind_eq_done]

/-! ## Protection -/

/-- The header lies in front of the payload. -/
theorem field_before (hroom : 2 * (sizeofHeapInformationBlock abi).toNat ≤ p.toNat) (f : HeapField) :
    f.place abi (headerOf abi p) + f.size ≤ p.toNat := by
  have hf := HeapField.offset_le abi f
  have hend : (f.offset abi).toNat + f.size ≤ (sizeofHeapInformationBlock abi).toNat := by
    cases abi <;> cases f <;> decide
  have hp := p.toNat_lt
  rw [HeapField.place, UInt64.toNat_add, headerOf_toNat abi p hroom]
  omega

theorem field_update (hroom : 2 * (sizeofHeapInformationBlock abi).toNat ≤ p.toNat) {x : Nat}
    (hx : p.toNat ≤ x) (v : UInt8) (f : HeapField) :
    field abi (Function.update m x v) (headerOf abi p) f = field abi m (headerOf abi p) f := by
  have hbefore := field_before hroom f
  funext i
  exact Function.update_of_ne (by omega) _ _

theorem bytesFrom_setCRC32 (hroom : 2 * (sizeofHeapInformationBlock abi).toNat ≤ p.toNat)
    (crc : UInt32) (len : Nat) :
    bytesFrom (setCRC32 abi m (headerOf abi p) crc) p.toNat len = bytesFrom m p.toNat len := by
  have hbefore := field_before hroom .fCRC32
  apply bytesFrom_congr
  intro i _
  exact write_outside m _ (by omega)

theorem KernelBlock.setCRC32 (h : KernelBlock abi m p sz) (crc : UInt32) :
    KernelBlock abi (setCRC32 abi m (headerOf abi p) crc) p sz :=
  h.congr fun _ hf => field_setField_ne abi m _ hf _

@[simp] theorem fCRC32_setCRC32 (header : UIntPtr) (crc : UInt32) :
    fCRC32 abi (setCRC32 abi m header crc) header = crc := by
  simp [fCRC32, setCRC32]

theorem mmProtectHeap_eq (h : KernelBlock abi m p sz)
    (hlow : ∀ c ∈ checkedBytes abi m p sz, c < 0x80) : mmProtectHeap abi m p =
      .done (true, setCRC32 abi m (headerOf abi p) (crc32c (checkedBytes abi m p sz))) := by
  obtain ⟨hp, hne⟩ := pointer_ne h.room
  have hheaded := And.intro hne (And.intro h.present h.magic)
  rw [mmProtectHeap, if_neg hp]
  dsimp only
  rw [← headerOf, if_pos hheaded, h.heapPtr, h.heapSize, ← checkedLength,
    keCalculateCrc32_low hlow]
  rfl

theorem protectedBlock (h : KernelBlock abi m p sz)
    (hprotect : mmProtectHeap abi m p = .done (true, m')) : ProtectedBlock abi m' p sz := by
  by_cases hlow : ∀ c ∈ checkedBytes abi m p sz, c < 0x80
  · have hbytes : ∀ crc, checkedBytes abi (setCRC32 abi m (headerOf abi p) crc) p sz =
        checkedBytes abi m p sz := fun crc => bytesFrom_setCRC32 h.room crc _
    rw [mmProtectHeap_eq h hlow] at hprotect
    cases hprotect
    refine ⟨h.setCRC32 _, ?_, ?_⟩
    · rwa [hbytes]
    · rw [fCRC32_setCRC32, hbytes]
  · obtain ⟨hp, hne⟩ := pointer_ne h.room
    have hheaded := And.intro hne (And.intro h.present h.magic)
    rw [mmProtectHeap, if_neg hp] at hprotect
    dsimp only at hprotect
    rw [← headerOf, if_pos hheaded, h.heapPtr, h.heapSize, ← checkedLength,
      keCalculateCrc32_high hlow] at hprotect
    cases hprotect

namespace ProtectedBlock

/-- Whatever becomes of the bytes behind the header, a deletion compares their checks. -/
theorem stops_iff (h : ProtectedBlock abi m p sz)
    (heq : ∀ f, field abi m' (headerOf abi p) f = field abi m (headerOf abi p) f)
    (hlow : ∀ c ∈ checkedBytes abi m' p sz, c < 0x80) : Stops abi m' p ↔
      crc32c (checkedBytes abi m p sz) ≠ 0 ∧
        crc32c (checkedBytes abi m p sz) ≠ crc32c (checkedBytes abi m' p sz) := by
  have hcrc : fCRC32 abi m' (headerOf abi p) = crc32c (checkedBytes abi m p sz) := by
    rw [fCRC32, heq, ← fCRC32, h.crc]
  rw [KernelKit.stops_iff (h.toKernelBlock.congr fun f _ => heq f), hcrc, keCalculateCrc32_low hlow]
  simp [checkedBytes]

theorem payload_pos (h : ProtectedBlock abi m p sz) : 0 < sz.toNat :=
  UInt64.lt_iff_toNat_lt.mp (UInt64.pos_iff_ne_zero.mpr h.size_ne)

/-- The length that is checked is never that of the payload. -/
theorem length_ne (abi : BitFieldRules) (sz : UInt64) :
    (checkedLength abi sz).toNat ≠ sz.toNat := by
  have hlen : (checkedLength abi sz).toNat =
      (sz.toNat + (sizeofHeapInformationBlock abi).toNat) % 2 ^ 64 % 2 ^ 32 := by
    rw [checkedLength, UInt64.toNat_toUInt32, UInt64.toNat_add]
  have hsize := sizeof_cases abi
  omega

end ProtectedBlock

/-- Some character that is not the one given. -/
def otherByte (c : UInt8) : UInt8 := if c = 0 then 1 else 0

theorem otherByte_ne (c : UInt8) : otherByte c ≠ c := by
  rw [otherByte]
  split
  · rename_i h
    rw [h]
    decide
  · rename_i h
    exact Ne.symm h

theorem otherByte_low (c : UInt8) : otherByte c < 0x80 := by
  rw [otherByte]
  split <;> decide

/-- The memory with another character at an address. -/
def spoiled (m : Store) (x : Nat) : Store := Function.update m x (otherByte (m x))

theorem low_spoiled {x len : Nat} {a : Nat} (h : ∀ c ∈ bytesFrom m a len, c < 0x80) :
    ∀ c ∈ bytesFrom (spoiled m x) a len, c < 0x80 := by
  intro c hc
  obtain ⟨i, hi, rfl⟩ := mem_bytesFrom.mp hc
  by_cases hx : a + i = x
  · rw [hx, spoiled, Function.update_self]
    exact otherByte_low _
  · rw [spoiled, Function.update_of_ne hx]
    exact h _ (mem_bytesFrom.mpr ⟨i, hi, rfl⟩)

theorem bytesFrom_spoiled {a len i : Nat} (hi : len ≤ i) :
    bytesFrom (spoiled m (a + i)) a len = bytesFrom m a len :=
  bytesFrom_congr fun _ _ => Function.update_of_ne (by omega) _ _

theorem spoiled_only (m : Store) {a len i : Nat} (hi : i < len) :
    ChangesOnly [⟨a, len⟩] m (spoiled m (a + i)) := by
  intro x hx
  apply Function.update_of_ne
  intro h
  subst h
  exact hx _ (List.mem_singleton_self _) ⟨Nat.le_add_right a i, by simpa using hi⟩

namespace ProtectedBlock

theorem stops_spoiled (h : ProtectedBlock abi m p sz) (i : Nat) :
    Stops abi (spoiled m (p.toNat + i)) p ↔ crc32c (checkedBytes abi m p sz) ≠ 0 ∧
      crc32c (checkedBytes abi m p sz) ≠
        crc32c (checkedBytes abi (spoiled m (p.toNat + i)) p sz) :=
  h.stops_iff (field_update h.room (Nat.le_add_right _ i) _) (low_spoiled h.low)

/-- A change behind the payload is taken for one of the payload. -/
theorem stops_behind (h : ProtectedBlock abi m p sz) {i : Nat}
    (hi : i < (checkedLength abi sz).toNat) (hne : crc32c (checkedBytes abi m p sz) ≠ 0) :
    Stops abi (spoiled m (p.toNat + i)) p :=
  (h.stops_spoiled i).mpr ⟨hne, crc32c_ne_of_burst (burst_update m hi (otherByte_ne _))⟩

/-- A change of one character that protection takes for what it is not: in the payload and not
noticed, or behind the payload and noticed. -/
theorem exists_mistaken (h : ProtectedBlock abi m p sz) :
    (∃ i < sz.toNat, ¬ Stops abi (spoiled m (p.toNat + i)) p) ∨
      ∃ i, sz.toNat ≤ i ∧ Stops abi (spoiled m (p.toNat + i)) p := by
  by_cases hzero : crc32c (checkedBytes abi m p sz) = 0
  · -- zero means that there is no check sequence
    exact .inl ⟨0, h.payload_pos, fun hs => ((h.stops_spoiled 0).mp hs).1 hzero⟩
  obtain hshort | hlong := Nat.lt_or_gt_of_ne (length_ne abi sz)
  · -- the length of the payload does not fit into 32 bits
    refine .inl ⟨_, hshort, fun hs => ((h.stops_spoiled _).mp hs).2 ?_⟩
    rw [checkedBytes, checkedBytes, bytesFrom_spoiled le_rfl]
  · exact .inr ⟨_, le_rfl, h.stops_behind hlong hzero⟩

end ProtectedBlock

theorem ProtectedBlock.not_exact (h : ProtectedBlock abi m p sz) : ¬ ProtectionExact abi m p sz := by
  intro hexact
  by_cases hlow : ∀ c ∈ bytesFrom m p.toNat sz.toNat, c < 0x80
  · obtain ⟨i, hi, hstops⟩ | ⟨i, hi, hstops⟩ := h.exists_mistaken
    · exact hstops (hexact.detects _ (spoiled_only m hi) (burst_update m hi (otherByte_ne _)) hlow
        (low_spoiled hlow))
    · exact hexact.spares _ (bytesFrom_spoiled hi) hstops
  · -- the payload is longer than what is checked; a write to the header halts the deletion
    obtain ⟨crc, hne, hother⟩ : ∃ crc : UInt32,
        crc ≠ 0 ∧ crc ≠ crc32c (checkedBytes abi m p sz) := by
      by_cases hone : crc32c (checkedBytes abi m p sz) = 1
      · exact ⟨2, by decide, by rw [hone]; decide⟩
      · exact ⟨1, by decide, Ne.symm hone⟩
    apply hexact.spares _ (bytesFrom_setCRC32 h.room crc _)
    rw [KernelKit.stops_iff (h.setCRC32 crc), fCRC32_setCRC32]
    refine ⟨hne, _, keCalculateCrc32_low ?_, ?_⟩
    · rw [bytesFrom_setCRC32 h.room]
      exact h.low
    · rwa [bytesFrom_setCRC32 h.room]

theorem protectionExact_never {m₀ m₁ m₂ : Store} {wr : Bool}
    (hroom : 2 * (sizeofHeapInformationBlock abi).toNat ≤ p.toNat)
    (hnew : mmNewHeap abi request m₀ sz wr false = .done (p, m₁))
    (hkept : ∀ f, field abi m₂ (headerOf abi p) f = field abi m₁ (headerOf abi p) f)
    (hprotect : mmProtectHeap abi m₂ p = .done (true, m)) : ¬ ProtectionExact abi m p sz := by
  have hblock := (mmNewHeap_kernelBlock hroom hnew).congr fun f _ => hkept f
  exact (protectedBlock hblock hprotect).not_exact

private theorem blockMemory_new :
    mmNewHeap .shared (grantAt 0x1000) grantedMemory 16 true false = .done (0x1060, blockMemory) := by
  rw [mmNewHeap_eq (by decide) (show grantAt 0x1000 true false false _ grantedMemory = _ from rfl)]
  rfl

private theorem blockMemory_checked :
    checkedBytes .shared blockMemory 0x1060 16 = List.replicate 64 0 := by
  decide +kernel

/-- The memory after `mm_protect_heap` of the block of 16 bytes. -/
def protectedMemory : Store :=
  setCRC32 .shared blockMemory (headerOf .shared 0x1060) (crc32c (List.replicate 64 0))

private theorem protectedMemory_protect :
    mmProtectHeap .shared blockMemory 0x1060 = .done (true, protectedMemory) := by
  have hblock := mmNewHeap_kernelBlock (by decide) blockMemory_new
  have hlow : ∀ c ∈ checkedBytes .shared blockMemory 0x1060 16, c < 0x80 := by
    rw [blockMemory_checked]
    decide +kernel
  rw [mmProtectHeap_eq hblock hlow, blockMemory_checked]
  rfl

theorem protectionExact_never_sixteen : ¬ ProtectionExact .shared protectedMemory 0x1060 16 :=
  protectionExact_never (by decide) blockMemory_new (fun _ => rfl) protectedMemory_protect

/-- The payload ends at 0x1070; a change of the byte there halts the deletion. -/
theorem protection_neighbour :
    mmNewHeap .shared (grantAt 0x1000) grantedMemory 16 true false = .done (0x1060, blockMemory) ∧
      mmProtectHeap .shared blockMemory 0x1060 = .done (true, protectedMemory) ∧
      bytesFrom (spoiled protectedMemory 0x1070) 0x1060 16 = bytesFrom protectedMemory 0x1060 16 ∧
      Stops .shared (spoiled protectedMemory 0x1070) 0x1060 := by
  have hblock := mmNewHeap_kernelBlock (by decide) blockMemory_new
  have hprotected := protectedBlock hblock protectedMemory_protect
  refine ⟨blockMemory_new, protectedMemory_protect, bytesFrom_spoiled (i := 16) le_rfl, ?_⟩
  apply hprotected.stops_behind (i := 16) (by decide)
  rw [← hprotected.crc, protectedMemory, fCRC32_setCRC32]
  decide +kernel

end Zka.KernelKit
