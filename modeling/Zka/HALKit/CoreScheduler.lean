import Zka.Modules.ACPI

/-!
# The discovery of the processors

The records of a `MADT` have lengths of their own and stand one behind the other.  The scheduler
walks them as an array of equal elements, ends at the first type that is no type of a record, and
keeps the number of a processor at the place of its element.
-/

namespace Zka.HALKit

open Outcome Modules

/-- The characters of `APIC`. -/
def kApicSignature : List UInt8 := [65, 80, 73, 67]

def cSMPMax : Nat := 32

/-! ## The table -/

/-- Where `List` begins in a `MADT_TABLE`, behind an `SDT`, `Address` and `Flags`: its elements are
aligned to eight bytes. -/
def madtListOffset : Nat := 48

/-- The size of an element of `List`: its type and its length, and the largest of the records. -/
def sizeofMadtElement : Nat := 24

section Elements

variable (m : Store) (madt index : Nat)

def elementType : UInt8 := m (madt + madtListOffset + sizeofMadtElement * index)

/-- `LAPIC.ProcessorID`; the records of an element are aligned to eight bytes. -/
def elementProcessorID : UInt8 := m (madt + madtListOffset + sizeofMadtElement * index + 8)

end Elements

/-! ## The scheduler -/

structure CoreScheduler where
  kSMPAware : Bool
  kSMPCount : Nat
  kAPICLocales : Nat → UInt64

/-- One pass of the loop, with the index and the scheduler. -/
def probeBody (m : Store) (madt : Nat) (s : Nat × CoreScheduler) :
    Outcome CFault ((Nat × CoreScheduler) ⊕ CoreScheduler) :=
  let (index, cores) := s
  if 9 < elementType m madt index ∨ cSMPMax < cores.kSMPCount then .done (.inr cores)
  else if elementType m madt index = 0 then
    if index < cSMPMax then
      .done (.inl (index + 1, { cores with
        kAPICLocales := Function.update cores.kAPICLocales index
          (elementProcessorID m madt index).toUInt64
        kSMPCount := cores.kSMPCount + 1 }))
    else .fault .indexOutOfRange
  else .done (.inl (index + 1, cores))

/-- `mp_get_cores`.  The reply of a search that found no table holds no reference. -/
def mpGetCores (m : Store) (vendorPtr : UInt64) (cores : CoreScheduler) (fuel : Nat) :
    Outcome CFault CoreScheduler :=
  if vendorPtr = 0 then .done cores
  else do
    let reply ← find m ⟨vendorPtr, 0⟩ (some kApicSignature)
    match reply.result with
    | .error _ => .fault .nullDereference
    | .ok madt =>
      if madt = 0 then return { cores with kSMPAware := false }
      else
        let cores ← whileLoop (probeBody m madt.toNat) fuel
          (0, { cores with kSMPAware := false, kSMPCount := 0 })
        return { cores with kSMPAware := true }

/-! ## What a discovery should find -/

/-- The addresses of the records from `a` to the end of the table. -/
inductive RecordsAt (m : Store) (stop : Nat) : Nat → List Nat → Prop
  | nil : RecordsAt m stop stop []
  | cons {a : Nat} {records : List Nat} (hlen : 2 ≤ m (a + 1)) (hend : a + (m (a + 1)).toNat ≤ stop)
      (hrest : RecordsAt m stop (a + (m (a + 1)).toNat) records) :
      RecordsAt m stop a (a :: records)

/-- The records of a table of which they are the part from `first` on; in a `MADT` that is 44. -/
def TableRecords (m : Store) (madt first : Nat) (records : List Nat) : Prop :=
  RecordsAt m (madt + (sdtLength m madt).toNat) (madt + first) records

/-- The local controllers among the records. -/
def localApics (m : Store) (records : List Nat) : List Nat := records.filter fun a => m a = 0

/-- The number of a processor follows the type and the length. -/
def processorID (m : Store) (a : Nat) : UInt64 := (m (a + 2)).toUInt64

/-- The local controllers are counted, and their numbers are kept in order. -/
structure DiscoveryLaw (m : Store) (records : List Nat) (cores : CoreScheduler) : Prop where
  count : cores.kSMPCount = (localApics m records).length
  locales : ∀ j a, (localApics m records)[j]? = some a → j < cSMPMax →
    cores.kAPICLocales j = processorID m a

/-! ### The loop -/

section Probe

variable (m : Store) (madt : Nat) (cores : CoreScheduler)

/-- The scheduler behind so many elements. -/
def probed (n : Nat) : CoreScheduler :=
  { cores with
    kSMPCount := Nat.count (fun i => elementType m madt i = 0) n
    kAPICLocales := fun j =>
      if j < n ∧ elementType m madt j = 0 then (elementProcessorID m madt j).toUInt64
      else cores.kAPICLocales j }

/-- The loop goes on behind an element, and has a place for its number if it keeps one. -/
def Counts (k : Nat) : Prop :=
  elementType m madt k ≤ 9 ∧ (elementType m madt k = 0 → k < cSMPMax)

variable {m madt cores}

/-- Below the first element without a place, not more numbers are kept than there are places. -/
theorem probed_count_le {n : Nat} (h : ∀ k < n, Counts m madt k) :
    (probed m madt cores n).kSMPCount ≤ cSMPMax := by
  change Nat.count (fun i => elementType m madt i = 0) n ≤ cSMPMax
  induction n with
  | zero => exact Nat.zero_le _
  | succ n ih =>
    have hbelow := ih fun k hk => h k (Nat.lt_succ_of_lt hk)
    rw [Nat.count_succ]
    by_cases hzero : elementType m madt n = 0
    · have hroom := (h n (Nat.lt_succ_self n)).2 hzero
      have hle := @Nat.count_le (fun i => elementType m madt i = 0) _ n
      rw [if_pos hzero]
      omega
    · rw [if_neg hzero]
      exact hbelow

theorem probed_zero : probed m madt cores 0 = { cores with kSMPCount := 0 } := by
  simp [probed]

theorem probed_succ_local {k : Nat} (hzero : elementType m madt k = 0) :
    probed m madt cores (k + 1) = { probed m madt cores k with
      kAPICLocales := Function.update (probed m madt cores k).kAPICLocales k
        (elementProcessorID m madt k).toUInt64
      kSMPCount := (probed m madt cores k).kSMPCount + 1 } := by
  simp only [probed, Nat.count_succ, if_pos hzero, CoreScheduler.mk.injEq, true_and]
  funext j
  by_cases hj : j = k
  · subst hj
    rw [Function.update_self, if_pos ⟨Nat.lt_succ_self j, hzero⟩]
  · have hiff : j < k + 1 ↔ j < k := by omega
    rw [Function.update_of_ne hj]
    simp only [hiff]

theorem probed_succ_other {k : Nat} (hzero : elementType m madt k ≠ 0) :
    probed m madt cores (k + 1) = probed m madt cores k := by
  simp only [probed, Nat.count_succ, if_neg hzero, CoreScheduler.mk.injEq, true_and, Nat.add_zero]
  funext j
  by_cases hj : j = k
  · subst hj
    rw [if_neg fun h => hzero h.2, if_neg fun h => hzero h.2]
  · have hiff : j < k + 1 ↔ j < k := by omega
    simp only [hiff]

theorem probeBody_goes {k : Nat} (hcounts : Counts m madt k)
    (hcount : (probed m madt cores k).kSMPCount ≤ cSMPMax) :
    probeBody m madt (k, probed m madt cores k) =
      .done (.inl (k + 1, probed m madt cores (k + 1))) := by
  have hstay : ¬ (9 < elementType m madt k ∨ cSMPMax < (probed m madt cores k).kSMPCount) := by
    intro hleave
    rcases hleave with hlast | hmany
    · exact absurd hcounts.1 (UInt8.not_le.mpr hlast)
    · exact absurd hcount (Nat.not_le.mpr hmany)
  simp only [probeBody]
  rw [if_neg hstay]
  by_cases hzero : elementType m madt k = 0
  · rw [if_pos hzero, if_pos (hcounts.2 hzero), probed_succ_local hzero]
  · rw [if_neg hzero, probed_succ_other hzero]

/-- A number without a place is written outside the array. -/
theorem probeBody_fault {k : Nat} {r : CoreScheduler} (htype : elementType m madt k ≤ 9)
    (hcount : r.kSMPCount ≤ cSMPMax) (hnot : ¬ Counts m madt k) :
    probeBody m madt (k, r) = .fault .indexOutOfRange := by
  have hstay : ¬ (9 < elementType m madt k ∨ cSMPMax < r.kSMPCount) := by
    intro hleave
    rcases hleave with hlast | hmany
    · exact absurd htype (UInt8.not_le.mpr hlast)
    · exact absurd hcount (Nat.not_le.mpr hmany)
  have hfull : elementType m madt k = 0 ∧ ¬ k < cSMPMax := by
    by_contra hroom
    refine hnot ⟨htype, fun hzero => ?_⟩
    by_contra hge
    exact hroom ⟨hzero, hge⟩
  simp only [probeBody]
  rw [if_neg hstay, if_pos hfull.1, if_neg hfull.2]

/-- The loop returns exactly if there is an element that ends it, and a place for every number
before. -/
theorem yields_probe_iff {r : CoreScheduler} :
    Yields (fun fuel => whileLoop (probeBody m madt) fuel (0, { cores with kSMPCount := 0 })) r ↔
      ∃ n, (∀ k < n, Counts m madt k) ∧ 9 < elementType m madt n ∧ r = probed m madt cores n := by
  have hloop := @yields_whileLoop_leaves_iff CFault (Nat × CoreScheduler) CoreScheduler
    (probeBody m madt) (fun k => (k, probed m madt cores k))
    (fun k => Counts m madt k ∧ (probed m madt cores k).kSMPCount ≤ cSMPMax)
    (fun k => 9 < elementType m madt k ∨ cSMPMax < (probed m madt cores k).kSMPCount)
    (fun k => probed m madt cores k) r ?_ ?_ ?_
  · rw [probed_zero] at hloop
    rw [hloop]
    constructor
    · intro h
      obtain ⟨n, hgo, hleave, rfl⟩ := h
      have hcounts : ∀ k < n, Counts m madt k := fun k hk => (hgo k hk).1
      have hle := @probed_count_le m madt cores n hcounts
      exact ⟨n, hcounts, hleave.resolve_right (by omega), rfl⟩
    · intro h
      obtain ⟨n, hcounts, hlast, rfl⟩ := h
      refine ⟨n, fun k hk => ⟨hcounts k hk, ?_⟩, .inl hlast, rfl⟩
      exact probed_count_le fun i hi => hcounts i (hi.trans hk)
  · intro k hgo
    exact probeBody_goes hgo.1 hgo.2
  · intro k hleave
    exact if_pos hleave
  · intro k hnot hstay next
    obtain ⟨hlast, hmany⟩ := not_or.mp hstay
    have hcount := Nat.not_lt.mp hmany
    rw [probeBody_fault (UInt8.not_lt.mp hlast) hcount fun hcounts => hnot ⟨hcounts, hcount⟩]
    simp

end Probe

/-! ### The discovery -/

section Discovery

variable {m : Store} {vendorPtr : UInt64} {cores : CoreScheduler} {reply : FindReply}
  {madt : UInt32}

/-- With a table the call does what the loop does. -/
theorem yields_mpGetCores_iff {r : CoreScheduler}
    (hfind : find m ⟨vendorPtr, 0⟩ (some kApicSignature) = .done reply)
    (hok : reply.result = .ok madt) (hmadt : madt ≠ 0) :
    Yields (mpGetCores m vendorPtr cores) r ↔
      ∃ n, (∀ k < n, Counts m madt.toNat k) ∧ 9 < elementType m madt.toNat n ∧
        r = { probed m madt.toNat cores n with kSMPAware := true } := by
  have hvendor : vendorPtr ≠ 0 := by
    intro hnull
    subst hnull
    cases hfind
  have heq : mpGetCores m vendorPtr cores = fun fuel =>
      whileLoop (probeBody m madt.toNat) fuel
        (0, { { cores with kSMPAware := false } with kSMPCount := 0 }) >>= fun cores =>
          .done { cores with kSMPAware := true } := by
    funext fuel
    simp only [mpGetCores, if_neg hvendor, hfind, done_bind, hok, if_neg hmadt]
    rfl
  rw [heq, yields_map_iff]
  constructor
  · intro h
    obtain ⟨_, hloop, rfl⟩ := h
    obtain ⟨n, hcounts, hend, rfl⟩ := yields_probe_iff.mp hloop
    exact ⟨n, hcounts, hend, rfl⟩
  · intro h
    obtain ⟨n, hcounts, hend, rfl⟩ := h
    exact ⟨_, yields_probe_iff.mpr ⟨n, hcounts, hend, rfl⟩, rfl⟩

end Discovery

/-- The elements of the array end behind the first `n`, those of type 0 have a place and are as many
as the local controllers, and the places get the numbers of these. -/
structure ArrayAgrees (m : Store) (madt : Nat) (old : Nat → UInt64) (apics : List Nat) (n : Nat) :
    Prop where
  counts : ∀ k < n, Counts m madt k
  ends : 9 < elementType m madt n
  count : Nat.count (fun i => elementType m madt i = 0) n = apics.length
  locales : ∀ j a, apics[j]? = some a → j < cSMPMax →
    (if j < n ∧ elementType m madt j = 0 then (elementProcessorID m madt j).toUInt64 else old j) =
      processorID m a

section Law

variable {m : Store} {vendorPtr : UInt64} {cores : CoreScheduler} {reply : FindReply}
  {madt : UInt32} {records : List Nat}

private theorem discovery_core (hfind : find m ⟨vendorPtr, 0⟩ (some kApicSignature) = .done reply)
    (hok : reply.result = .ok madt) (hmadt : madt ≠ 0) :
    (∃ r, Yields (mpGetCores m vendorPtr cores) r ∧ DiscoveryLaw m records r) ↔
      ∃ n, ArrayAgrees m madt.toNat cores.kAPICLocales (localApics m records) n := by
  simp only [yields_mpGetCores_iff hfind hok hmadt]
  constructor
  · intro h
    obtain ⟨_, ⟨n, hcounts, hend, rfl⟩, hlaw⟩ := h
    exact ⟨n, hcounts, hend, hlaw.count, hlaw.locales⟩
  · intro h
    obtain ⟨n, hagrees⟩ := h
    exact ⟨_, ⟨n, hagrees.counts, hagrees.ends, rfl⟩, hagrees.count, hagrees.locales⟩

/-- The discovery is right exactly if the array of elements of 24 bytes from byte 48 of the table on
happens to end, has a place for each element of type 0, and these are as many and have the numbers
in the same places as the local controllers among the records. -/
theorem mpGetCores_iff (m : Store) (vendorPtr : UInt64) (cores : CoreScheduler) (reply : FindReply)
    (madt : UInt32) (first : Nat) (records : List Nat)
    (hfind : find m ⟨vendorPtr, 0⟩ (some kApicSignature) = .done reply)
    (hok : reply.result = .ok madt) (hmadt : madt ≠ 0)
    (_hrecords : TableRecords m madt.toNat first records) :
    (∃ r, Yields (mpGetCores m vendorPtr cores) r ∧ DiscoveryLaw m records r) ↔
      ∃ n, ArrayAgrees m madt.toNat cores.kAPICLocales (localApics m records) n :=
  discovery_core hfind hok hmadt

end Law

/-! ### Two tables -/

/-- A root descriptor of revision 2 at 4096, a root table at 8192 with two entries, and what else is
given; the first entry is the table of the signature `APIC` at 12288. -/
def madtMemory (table : List (Nat × UInt8)) : Store := fun x =>
  (([(4104, 2), (4133, 32), (8196, 44), (8229, 48), (12288, 65), (12289, 80), (12290, 73),
    (12291, 67)] ++ table).lookup x).getD 0

def sampleReply : FindReply := ⟨.ok 12288, 1, [0]⟩

private theorem find_madt {m : Store} (hrev : ¬ sdtRevision m 4096 ≤ 1)
    (hroot : rsdtAddress m 4096 = 8192) (hlength : sdtLength m 8192 = 44)
    (hentry : addressArr m 8192 0 = 12288)
    (hsignature : signatureMatches m 12288 kApicSignature = true) :
    find m ⟨4096, 0⟩ (some kApicSignature) = .done sampleReply := by
  have hnum : numEntries 44 = 1 := by decide
  have htable : rootTable m ⟨4096, 0⟩ = 8192 := by
    have hnat : UInt64.toNat 4096 = 4096 := rfl
    rw [rootTable, hnat, hroot]
    rfl
  have hfound : findEntry m 8192 kApicSignature 1 0 = (.ok 12288, [0]) := by
    have hnat : UInt32.toNat 12288 = 12288 := rfl
    rw [findEntry, hentry, hnat, if_pos hsignature]
  have hsearch : searchTable m 8192 kApicSignature = .done sampleReply := by
    have hone : (1 : Int64).toUInt64.toNat = 1 := by decide
    simp only [searchTable, hlength, hnum, hone, hfound]
    rw [if_neg (by decide)]
    rfl
  have hnat : UInt64.toNat 4096 = 4096 := rfl
  dsimp only [find]
  rw [if_neg (by decide), if_neg (by decide), hnat, if_neg hrev, htable, hsearch]

def startCores : CoreScheduler := ⟨false, 0, fun _ => 0⟩

/-- One processor with the number 0, and a byte behind the table that ends the loop. -/
def endedMadt : Store := madtMemory [(12292, 52), (12333, 8), (12360, 255)]

private theorem endedMadt_find :
    find endedMadt ⟨4096, 0⟩ (some kApicSignature) = .done sampleReply :=
  find_madt (by decide) (Store.get_u32_iff.mpr (by decide)) (Store.get_u32_iff.mpr (by decide))
    (Store.get_u32_iff.mpr (by decide)) (by decide)

/-- A record of eight bytes is all that a table of 52 has. -/
private theorem tableRecords_one {m : Store} (hlength : sdtLength m 12288 = 52)
    (hlen : m 12333 = 8) : TableRecords m 12288 44 [12332] := by
  have hstop : 12288 + (sdtLength m 12288).toNat = 12332 + (m (12332 + 1)).toNat := by
    rw [hlength, hlen]
    rfl
  rw [TableRecords, hstop]
  refine .cons ?_ le_rfl .nil
  rw [hlen]
  decide

theorem mpGetCores_ended :
    ∃ r, Yields (mpGetCores endedMadt 4096 startCores) r ∧ DiscoveryLaw endedMadt [12332] r := by
  have hrecords : TableRecords endedMadt 12288 44 [12332] :=
    tableRecords_one (Store.get_u32_iff.mpr (by decide)) (by decide)
  refine (mpGetCores_iff endedMadt 4096 startCores sampleReply 12288 44 [12332] endedMadt_find rfl
    (by decide) hrecords).mpr ⟨1, ?_, by decide, by decide, ?_⟩
  · intro k hk
    obtain rfl : k = 0 := by omega
    exact ⟨by decide, fun _ => by decide⟩
  · intro j a ha _
    have hlocal : localApics endedMadt [12332] = [12332] := by decide
    rw [hlocal] at ha
    cases j with
    | zero =>
      cases ha
      rw [if_pos (by decide)]
      decide
    | succ j => cases ha

/-- One processor with the number 1, and zeros behind the table. -/
def plainMadt : Store := madtMemory [(12292, 52), (12333, 8), (12334, 1), (12335, 1), (12336, 1)]

/-- The elements behind the table all have type 0, and the loop leaves its array. -/
theorem mpGetCores_plain :
    find plainMadt ⟨4096, 0⟩ (some kApicSignature) = .done sampleReply ∧
      TableRecords plainMadt 12288 44 [12332] ∧
      ¬ ∃ r, Yields (mpGetCores plainMadt 4096 startCores) r ∧
        DiscoveryLaw plainMadt [12332] r := by
  have hfind : find plainMadt ⟨4096, 0⟩ (some kApicSignature) = .done sampleReply :=
    find_madt (by decide) (Store.get_u32_iff.mpr (by decide)) (Store.get_u32_iff.mpr (by decide))
      (Store.get_u32_iff.mpr (by decide)) (by decide)
  refine ⟨hfind, tableRecords_one (Store.get_u32_iff.mpr (by decide)) (by decide), fun h => ?_⟩
  obtain ⟨n, hagrees⟩ := (discovery_core hfind rfl (by decide)).mp h
  have hnone : ∀ k < 33, ¬ 9 < elementType plainMadt 12288 k := by decide
  rcases Nat.lt_or_ge n 33 with hlt | hge
  · exact hnone n hlt hagrees.ends
  · have hroom := (hagrees.counts 32 (by omega)).2 (by decide)
    exact lt_irrefl _ hroom

end Zka.HALKit
