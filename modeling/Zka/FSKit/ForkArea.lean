import Zka.FSKit.Extents
import Zka.FSKit.WriteFrame

/-!
# The area of the forks

Catalog `k` has one place for a fork, with the data in front of it and an empty record in
front of that.  What the calls do to the places, and what they find there.
-/

namespace Zka.FSKit

open NewKit Outcome

/-! ## The places of the forks -/

/-- The catalogs whose forks a blob for catalog `k` covers. -/
def Covered (k j : Nat) : Prop := j ≤ k ∧ k < j + 8192

instance (k j : Nat) : Decidable (Covered k j) := inferInstanceAs (Decidable (_ ∧ _))

/-- The header of a fork that stands at the place of catalog `k`. -/
structure PlacedFork (part : NfsRootPartitionBlock) (k : Nat) (f : NfsForkStruct) : Prop where
  dataOffset_eq : f.dataOffset.toNat = forkPlace part k - 512
  dataSize_le : f.dataSize.toNat ≤ 512
  next_eq : f.nextSibling.toNat = forkPlace part k - 1024 - f.dataSize.toNat

/-- The places hold the forks, and the bytes that their links name are zero. -/
structure ForkArea (part : NfsRootPartitionBlock) (d : Drive) (forks : Nat → Option NfsForkStruct) :
    Prop where
  place_eq : ∀ k, k ≤ part.capacity → d.fork (part.diskSize - slotAt k) = (forks k).getD .zero
  placed : ∀ k f, forks k = some f → PlacedFork part k f
  gap : ∀ k, k ≤ part.capacity → ∀ x, forkPlace part k ≤ x + 1536 → x + 512 < forkPlace part k →
    d x = 0

namespace ForkArea

variable {part : NfsRootPartitionBlock} {d d' : Drive} {forks : Nat → Option NfsForkStruct}
  {k : Nat} {f : NfsForkStruct}

theorem congr (h : ForkArea part d forks) (hg : Geometry part)
    (hsame : ∀ x, 2048 * part.capacity + 5120 ≤ x → d' x = d x) : ForkArea part d' forks where
  place_eq := by
    intro k hk
    have hgt := hg.place_gt hk
    have hplace := hg.place_toNat hk
    rw [← h.place_eq k hk]
    exact Drive.fork_congr fun x hx _ => hsame x (by omega)
  placed := h.placed
  gap := by
    intro k hk x hx hlt
    have hgt := hg.place_gt hk
    rw [hsame x (by omega)]
    exact h.gap k hk x hx hlt

theorem at_place (h : ForkArea part d forks) (hk : k ≤ part.capacity) (hf : forks k = some f) :
    d.fork (part.diskSize - slotAt k) = f := by
  rw [h.place_eq k hk, hf]
  rfl

theorem at_free_place (h : ForkArea part d forks) (hk : k ≤ part.capacity) (hf : forks k = none) :
    d.fork (part.diskSize - slotAt k) = .zero := by
  rw [h.place_eq k hk, hf]
  rfl

/-- The link of a fork names an empty record. -/
theorem at_next (h : ForkArea part d forks) (hg : Geometry part) (hk : k ≤ part.capacity)
    (hf : forks k = some f) : d.fork f.nextSibling = .zero := by
  obtain ⟨_, hsize, hnext⟩ := h.placed k f hf
  have hgt := hg.place_gt hk
  apply Drive.fork_of_zero
  intro x hx hlt
  exact h.gap k hk x (by omega) (by omega)

/-- The header goes to its place and to no other one, and to no empty record. -/
theorem putFork (h : ForkArea part d forks) (hg : Geometry part) (hk : k ≤ part.capacity)
    (hf : PlacedFork part k f) :
    ForkArea part (d.putFork (part.diskSize - slotAt k) f) (Function.update forks k (some f)) := by
  have hplace := hg.place_toNat hk
  constructor
  · intro j hj
    by_cases heq : j = k
    · subst heq
      rw [Drive.fork_putFork, Function.update_self]
      rfl
    · have hplace' := hg.place_toNat hj
      have hapart := hg.place_apart_or hj hk heq
      rw [Function.update_of_ne heq, ← h.place_eq j hj]
      exact Drive.fork_congr fun x hx hlt => Drive.putFork_outside (by omega)
  · intro j g hg'
    by_cases heq : j = k
    · subst heq
      rw [Function.update_self] at hg'
      exact Option.some.inj hg' ▸ hf
    · rw [Function.update_of_ne heq] at hg'
      exact h.placed j g hg'
  · intro j hj x hx hlt
    have hout : x < (part.diskSize - slotAt k).toNat ∨
        (part.diskSize - slotAt k).toNat + 512 ≤ x := by
      by_cases heq : j = k
      · subst heq
        omega
      · have hapart := hg.place_apart_or hj hk heq
        omega
    rw [Drive.putFork_outside hout]
    exact h.gap j hj x hx hlt

/-- Below the data of the fork nothing changes, and from its place on to the end of the block there
are zeros. -/
theorem stored_byte (h : ForkArea part d forks) (hg : Geometry part)
    (hk : k ≤ part.capacity) (hf : forks k = some f) (data : Nat → UInt8) {n : SizeT}
    (hn : n.toNat ≤ 512) (x : Nat) :
    (x + 512 < forkPlace part k ∨ forkPlace part k + 16776704 ≤ x →
      storeFork d (part.diskSize - slotAt k) (forkBlob data n) x = d x) ∧
    (forkPlace part k ≤ x → x < forkPlace part k + 16776704 →
      storeFork d (part.diskSize - slotAt k) (forkBlob data n) x = 0) := by
  have hgt := hg.place_gt hk
  have hnat := hg.place_toNat hk
  have hblob : kNeFSForkDataSz.toNat = 16777216 := rfl
  have h512 : forkSize.toNat = 512 := rfl
  have hsub : (part.diskSize - slotAt k - forkSize).toNat = forkPlace part k - 512 := by
    rw [UInt64.toNat_sub_of_le _ _ (UInt64.le_iff_toNat_le.mpr (by omega)), hnat, h512]
  have hoff := (h.placed k f hf).dataOffset_eq
  rw [storeFork, h.at_place hk hf]
  dsimp only
  constructor
  · intro hx
    rw [Drive.putFork_outside (by omega)]
    exact Store.write_outside _ _ (by omega)
  · intro hx hlt
    have hin : x = f.dataOffset.toNat + (x - f.dataOffset.toNat) := by omega
    rw [Drive.putFork_outside (by omega), hin]
    refine (Store.write_inside _ _ _ ⟨x - f.dataOffset.toNat, by omega⟩).trans ?_
    rw [forkBlob, if_neg]
    dsimp only
    omega

theorem storeFork (h : ForkArea part d forks) (hg : Geometry part) (hk : k ≤ part.capacity)
    (hf : forks k = some f) {data : Nat → UInt8} {n : SizeT} (hn : n.toNat ≤ 512) :
    ForkArea part (storeFork d (part.diskSize - slotAt k) (forkBlob data n))
      (fun j => if Covered k j then none else forks j) := by
  have hbyte := h.stored_byte hg hk hf data hn
  have hnat := fun j hj => hg.place_toNat (k := j) hj
  have hplaces : ∀ j, j ≤ part.capacity →
      forkPlace part j + 2048 * j = forkPlace part k + 2048 * k := by
    intro j hj
    have hjgt := hg.place_gt hj
    have hkgt := hg.place_gt hk
    simp only [forkPlace] at hjgt hkgt ⊢
    omega
  constructor
  · intro j hj
    have hsum := hplaces j hj
    have hj' := hnat j hj
    by_cases hcov : Covered k j
    · rw [if_pos hcov]
      obtain ⟨hle, hlt⟩ := hcov
      exact Drive.fork_of_zero fun x hx hxlt => (hbyte x).2 (by omega) (by omega)
    · rw [if_neg hcov, ← h.place_eq j hj]
      rw [Covered, not_and] at hcov
      refine Drive.fork_congr fun x hx hxlt => (hbyte x).1 ?_
      rcases Nat.lt_or_ge k j with hlt | hge
      · exact Or.inl (by omega)
      · have hfar := hcov hge
        exact Or.inr (by omega)
  · intro j g hg'
    split at hg'
    · cases hg'
    · exact h.placed j g hg'
  · intro j hj x hx hlt
    have hsum := hplaces j hj
    have hold := h.gap j hj x hx hlt
    by_cases hlow : x + 512 < forkPlace part k ∨ forkPlace part k + 16776704 ≤ x
    · rw [(hbyte x).1 hlow, hold]
    · rw [not_or, Nat.not_lt, Nat.not_le] at hlow
      refine (hbyte x).2 ?_ hlow.2
      rcases Nat.lt_or_ge j k with hjk | hkj
      · omega
      · omega

end ForkArea

/-- What stands in the finished header of a small fork. -/
theorem finishFork_placed {part : NfsRootPartitionBlock} (hg : Geometry part) {k : Nat}
    (hk : k ≤ part.capacity) {f : NfsForkStruct} (hsize : f.dataSize ≤ forkSize) :
    PlacedFork part k (finishFork f (part.diskSize - slotAt k) (part.diskSize - slotAt k)) := by
  have hgt := hg.place_gt hk
  have hnat := hg.place_toNat hk
  have h512 : forkSize.toNat = 512 := rfl
  have hsize : f.dataSize.toNat ≤ 512 := UInt64.le_iff_toNat_le.mp hsize
  have hoff : (part.diskSize - slotAt k - forkSize).toNat = forkPlace part k - 512 := by
    rw [UInt64.toNat_sub_of_le _ _ (UInt64.le_iff_toNat_le.mpr (by omega)), hnat, h512]
  refine ⟨hoff, hsize, ?_⟩
  change (part.diskSize - slotAt k - forkSize - f.dataSize - forkSize).toNat =
    forkPlace part k - 1024 - f.dataSize.toNat
  have hdata : f.dataSize ≤ part.diskSize - slotAt k - forkSize :=
    UInt64.le_iff_toNat_le.mpr (by omega)
  have hrest := UInt64.toNat_sub_of_le _ _ hdata
  rw [UInt64.toNat_sub_of_le _ _ (UInt64.le_iff_toNat_le.mpr (by omega)), hrest, hoff, h512]
  omega

/-! ## Calls on the places -/

section Calls

variable {part : NfsRootPartitionBlock} {d : Drive} {forks : Nat → Option NfsForkStruct} {k : Nat}
  {c : NfsCatalogStruct} {isRsrcFork : Bool} {data : Nat → UInt8} {n dataSz : SizeT}
  {forkName : List UInt8}

private theorem zero_no_match : ¬ WriteMatch c n forkName .zero := fun h => h.1 rfl

private theorem zero_dataOffset : NfsForkStruct.zero.dataOffset ≤ kNeFSCatalogStartAddress :=
  UInt64.le_iff_toNat_le.mpr (Nat.zero_le _)

private theorem writeBody_corrupted {lba : Lba} (hlba : kNeFSCatalogStartAddress ≤ lba)
    (h : (d.fork lba).dataOffset ≤ kNeFSCatalogStartAddress) :
    writeBody d c n forkName lba = .done (.inr .corrupted) := by
  rw [writeBody, if_neg (not_not.mpr hlba)]
  dsimp only
  rw [if_pos h]

private theorem writeBody_match {lba : Lba} (hlba : kNeFSCatalogStartAddress ≤ lba)
    (c : NfsCatalogStruct) (n : SizeT) (forkName : List UInt8)
    (hoff : ¬ (d.fork lba).dataOffset ≤ kNeFSCatalogStartAddress) :
    writeBody d c n forkName lba = .done (if WriteMatch c n forkName (d.fork lba) then
      .inr (.found lba) else .inl (d.fork lba).nextSibling) := by
  have hbody : writeBody d c n forkName lba = if WriteMatch c n forkName (d.fork lba) then
      .done (.inr (.found lba)) else .done (.inl (d.fork lba).nextSibling) := by
    rw [writeBody, if_neg (not_not.mpr hlba)]
    dsimp only
    rw [if_neg hoff]
    rfl
  rw [hbody]
  split <;> rfl

variable (data n forkName) in
/-- The writer looks at the place and at the record that the fork there links to. -/
theorem ForkArea.writeCatalog (h : ForkArea part d forks) (hg : Geometry part)
    (hk : k ≤ part.capacity) (hlba : c.forkLba (!isRsrcFork) = part.diskSize - slotAt k) :
    ∃ w, Yields (fun fuel => writeCatalog fuel d (some c) isRsrcFork data n forkName) w ∧
      ((w.ok = false ∧ w.drive = d ∧
          ¬ (n ≠ 0 ∧ ∃ f, forks k = some f ∧ WriteMatch c n forkName f)) ∨
        (w.ok = true ∧ w.drive = FSKit.storeFork d (part.diskSize - slotAt k) (forkBlob data n) ∧
          n ≠ 0 ∧ ∃ f, forks k = some f ∧ WriteMatch c n forkName f)) := by
  have hgt := hg.place_gt hk
  have hnat := hg.place_toNat hk
  have hstart : kNeFSCatalogStartAddress.toNat = 2560 := rfl
  have hplace : kNeFSCatalogStartAddress ≤ part.diskSize - slotAt k :=
    UInt64.le_iff_toNat_le.mpr (by omega)
  by_cases hsize : kNeFSForkDataSz < n ∨ n = 0
  · refine ⟨⟨false, none, d⟩, .intro 0 (by rw [FSKit.writeCatalog, if_pos hsize]),
      Or.inl ⟨rfl, rfl, ?_⟩⟩
    intro hmatch
    obtain ⟨hpos, f, hf, _, _, _, hn⟩ := hmatch
    have hle := (h.placed k f hf).dataSize_le
    have hblob : kNeFSForkDataSz.toNat = 16777216 := rfl
    have hlarge := UInt64.lt_iff_toNat_lt.mp (hsize.resolve_right hpos)
    rw [← hn] at hlarge
    omega
  have hreply : ∀ fuel out, whileLoop (writeBody d c n forkName) fuel (part.diskSize - slotAt k) =
      .done out → Yields (fun fuel => FSKit.writeCatalog fuel d (some c) isRsrcFork data n forkName)
        (finishWrite d data n out) := by
    intro fuel out hloop
    refine .intro fuel ?_
    rw [FSKit.writeCatalog, if_neg hsize, hlba, hloop, done_bind]
  rw [not_or] at hsize
  cases hf : forks k with
  | none =>
    have hzero := h.at_free_place hk hf
    have hbody : writeBody d c n forkName (part.diskSize - slotAt k) = .done (.inr .corrupted) :=
      writeBody_corrupted hplace (hzero ▸ zero_dataOffset)
    exact ⟨_, hreply 1 _ (whileLoop_exit hbody 0), Or.inl ⟨rfl, rfl, by simp⟩⟩
  | some f =>
    have hat := h.at_place hk hf
    have hplaced := h.placed k f hf
    have hdata : ¬ f.dataOffset ≤ kNeFSCatalogStartAddress := by
      rw [UInt64.le_iff_toNat_le, hplaced.dataOffset_eq]
      omega
    have hbody := writeBody_match hplace c n forkName (hat.symm ▸ hdata)
    rw [hat] at hbody
    by_cases hmatch : WriteMatch c n forkName f
    · rw [if_pos hmatch] at hbody
      exact ⟨_, hreply 1 _ (whileLoop_exit hbody 0), Or.inr ⟨rfl, rfl, hsize.2, f, rfl, hmatch⟩⟩
    · rw [if_neg hmatch] at hbody
      have hnext : kNeFSCatalogStartAddress ≤ f.nextSibling := by
        have hle := hplaced.dataSize_le
        rw [UInt64.le_iff_toNat_le, hplaced.next_eq]
        omega
      have hend : writeBody d c n forkName f.nextSibling = .done (.inr .corrupted) :=
        writeBody_corrupted hnext (h.at_next hg hk hf ▸ zero_dataOffset)
      have hloop := (whileLoop_continue hbody 1).trans (whileLoop_exit hend 0)
      refine ⟨_, hreply 2 _ hloop, Or.inl ⟨rfl, rfl, ?_⟩⟩
      intro hsome
      obtain ⟨_, g, hg', hmatch'⟩ := hsome
      exact hmatch (Option.some.inj hg' ▸ hmatch')

private theorem readBody_behind {lba : Lba} (hlba : kNeFSCatalogStartAddress < lba)
    (c : NfsCatalogStruct) (forkName : List UInt8) (buffer : Option NfsForkStruct) :
    readBody d c forkName (lba, buffer) = .done (if ForkNamed forkName c.nameChars (d.fork lba) then
      .inr (lba, some (d.fork lba)) else .inl ((d.fork lba).nextSibling, some (d.fork lba))) := by
  have hbody : readBody d c forkName (lba, buffer) =
      if ForkNamed forkName c.nameChars (d.fork lba) then .done (.inr (lba, some (d.fork lba)))
      else .done (.inl ((d.fork lba).nextSibling, some (d.fork lba))) := by
    rw [readBody, if_neg (not_not.mpr hlba)]
    rfl
  rw [hbody]
  split <;> rfl

private theorem zero_not_named (hname : c.name 0 ≠ 0) : ¬ ForkNamed forkName c.nameChars .zero := by
  intro hnamed
  have hhead := equals_head hnamed.2
  rw [NfsCatalogStruct.nameChars, List.ofFn_succ, NfsForkStruct.catalogNameChars,
    List.ofFn_succ] at hhead
  exact hname hhead

/-- The reader looks at the same two records. -/
theorem ForkArea.readCatalog (h : ForkArea part d forks) (hg : Geometry part)
    (hk : k ≤ part.capacity) (hlba : c.forkLba (!isRsrcFork) = part.diskSize - slotAt k)
    (hname : c.name 0 ≠ 0) :
    Yields (fun fuel => readCatalog fuel d (some c) isRsrcFork dataSz forkName)
      ((forks k).filter fun f => ForkNamed forkName c.nameChars f, none) := by
  have hgt := hg.place_gt hk
  have hnat := hg.place_toNat hk
  have hstart : kNeFSCatalogStartAddress.toNat = 2560 := rfl
  have hplace : kNeFSCatalogStartAddress < part.diskSize - slotAt k :=
    UInt64.lt_iff_toNat_lt.mpr (by omega)
  have hreply : ∀ fuel t, whileLoop (readBody d c forkName) fuel (part.diskSize - slotAt k, none) =
      .done t → Yields (fun fuel => FSKit.readCatalog fuel d (some c) isRsrcFork dataSz forkName)
        (if t.1 < kNeFSCatalogStartAddress then none else t.2, none) := by
    intro fuel t hloop
    refine .intro fuel ?_
    rw [FSKit.readCatalog, hlba, hloop, done_bind]
    split <;> rfl
  -- an empty record is of no name, and links to address zero
  have hzero : ∀ {lba} buffer, kNeFSCatalogStartAddress < lba → d.fork lba = .zero →
      whileLoop (readBody d c forkName) 2 (lba, buffer) = .done (0, some .zero) := by
    intro lba buffer hlt hz
    have hbody := readBody_behind (d := d) hlt c forkName buffer
    rw [hz, if_neg (zero_not_named hname)] at hbody
    have hend : readBody d c forkName (0, some .zero) = .done (.inr (0, some .zero)) := by
      rw [readBody, if_pos (UInt64.not_lt.mpr (UInt64.le_iff_toNat_le.mpr (Nat.zero_le _)))]
    rw [whileLoop_continue hbody]
    exact whileLoop_exit hend 0
  have hlow : (0 : Lba) < kNeFSCatalogStartAddress := UInt64.lt_iff_toNat_lt.mpr (by decide)
  cases hf : forks k with
  | none =>
    have hy := hreply 2 _ (hzero none hplace (h.at_free_place hk hf))
    rwa [if_pos hlow] at hy
  | some f =>
    rw [Option.filter_some]
    have hbody := readBody_behind (d := d) hplace c forkName none
    rw [h.at_place hk hf] at hbody
    by_cases hnamed : ForkNamed forkName c.nameChars f
    · rw [if_pos hnamed] at hbody
      have hy := hreply 1 _ (whileLoop_exit hbody 0)
      rw [if_neg (UInt64.lt_asymm hplace)] at hy
      rwa [if_pos (decide_eq_true hnamed)]
    · rw [if_neg hnamed] at hbody
      have hplaced := h.placed k f hf
      have hnext : kNeFSCatalogStartAddress < f.nextSibling := by
        have hle := hplaced.dataSize_le
        rw [UInt64.lt_iff_toNat_lt, hplaced.next_eq]
        omega
      have hy := hreply 3 _ ((whileLoop_continue hbody 2).trans
        (hzero _ hnext (h.at_next hg hk hf)))
      rw [if_pos hlow] at hy
      rwa [if_neg (by simp [hnamed])]

/-- The forks of the root would stand at address zero, below the catalogs. -/
theorem writeCatalog_root (hlba : c.forkLba (!isRsrcFork) = 0) :
    Yields (fun fuel => writeCatalog fuel d (some c) isRsrcFork data n forkName)
      ⟨false, none, d⟩ := by
  by_cases hsize : kNeFSForkDataSz < n ∨ n = 0
  · exact .intro 0 (by rw [writeCatalog, if_pos hsize])
  · have hbody : writeBody d c n forkName 0 = .done (.inr .missing) := by
      rw [writeBody, if_pos]
      exact UInt64.not_le.mpr (UInt64.lt_iff_toNat_lt.mpr (by decide))
    refine .intro 1 ?_
    rw [writeCatalog, if_neg hsize, hlba, whileLoop_exit hbody, done_bind, finishWrite]

theorem readCatalog_root (hlba : c.forkLba (!isRsrcFork) = 0) :
    Yields (fun fuel => readCatalog fuel d (some c) isRsrcFork dataSz forkName) (none, none) := by
  have hbody : readBody d c forkName (0, none) = .done (.inr (0, none)) := by
    rw [readBody, if_pos (UInt64.not_lt.mpr (UInt64.le_iff_toNat_le.mpr (Nat.zero_le _)))]
  refine .intro 1 ?_
  rw [readCatalog, hlba, whileLoop_exit hbody, done_bind]
  split <;> rfl

end Calls

end Zka.FSKit
