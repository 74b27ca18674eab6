import Zka.FSKit.ForkRun
import Zka.FSKit.Walks

/-!
# Looking for a fork

What `ReadCatalog` and `FindFork` return, compared with the chain of forks that hangs on a
catalog.  `ReadCatalog` leaves its loop at the start address of the catalogs but takes that
address for a hit; `FindFork` has no buffer to read a fork into.
-/

namespace Zka.FSKit

open NewKit Outcome Relation

/-! ## `ReadCatalog` -/

/-- The record at `lba` is one of the chain of forks that begins at `first`. -/
def OnForkChain (d : Drive) (first lba : Lba) : Prop :=
  ReflTransGen (fun a b => kNeFSCatalogStartAddress < a ∧ (d.fork a).nextSibling = b) first lba ∧
    kNeFSCatalogStartAddress < lba

def ForkNamed (forkName catalogName : List UInt8) (f : NfsForkStruct) : Prop :=
  equals forkName f.forkNameChars = true ∧ equals catalogName f.catalogNameChars = true

instance (forkName catalogName : List UInt8) (f : NfsForkStruct) :
    Decidable (ForkNamed forkName catalogName f) :=
  inferInstanceAs (Decidable (_ ∧ _))

/-- A returned record is one of the chain and has the names; without one, null is returned. -/
def ReadSound (d : Drive) (catalog : NfsCatalogStruct) (isRsrcFork : Bool)
    (forkName : List UInt8) : Prop :=
  ∀ dataSz r, Yields (fun fuel => readCatalog fuel d (some catalog) isRsrcFork dataSz forkName) r →
    (∀ f, r.1 = some f → ∃ lba, OnForkChain d (catalog.forkLba !isRsrcFork) lba ∧
      d.fork lba = f ∧ ForkNamed forkName catalog.nameChars f) ∧
    ((∀ lba, OnForkChain d (catalog.forkLba !isRsrcFork) lba →
      ¬ ForkNamed forkName catalog.nameChars (d.fork lba)) → r.1 = none)

section ReadCatalog

variable {d : Drive} {catalog : NfsCatalogStruct} {forkName : List UInt8} {a b first : Lba}

theorem linked_readNext_iff : Linked (readNext d catalog forkName) a b ↔
    kNeFSCatalogStartAddress < a ∧ ¬ ForkNamed forkName catalog.nameChars (d.fork a) ∧
      (d.fork a).nextSibling = b := by
  have hnext : readNext d catalog forkName a =
      if ¬ kNeFSCatalogStartAddress < a ∨ ForkNamed forkName catalog.nameChars (d.fork a) then none
      else some (d.fork a).nextSibling := rfl
  rw [Linked, hnext]
  split
  · rename_i hend
    simp only [reduceCtorEq, false_iff]
    exact fun h => hend.elim (absurd h.1) h.2.1
  · rename_i hgoes
    rw [not_or, not_not] at hgoes
    simp [hgoes]

private theorem readBody_eq (s : Lba × Option NfsForkStruct) : readBody d catalog forkName s =
    if ¬ kNeFSCatalogStartAddress < s.1 then .done (.inr s)
    else if ForkNamed forkName catalog.nameChars (d.fork s.1) then
      .done (.inr (s.1, some (d.fork s.1)))
    else .done (.inl ((d.fork s.1).nextSibling, some (d.fork s.1))) := rfl

/-- A pass that goes on fills the buffer with the record it leaves. -/
private theorem readBody_goes (h : Linked (readNext d catalog forkName) a b)
    (buffer : Option NfsForkStruct) :
    readBody d catalog forkName (a, buffer) = .done (.inl (b, some (d.fork a))) := by
  obtain ⟨hstart, hother, rfl⟩ := linked_readNext_iff.mp h
  rw [readBody_eq, if_neg (not_not.mpr hstart), if_neg hother]

private theorem readBody_linked {s t : Lba × Option NfsForkStruct}
    (h : readBody d catalog forkName s = .done (.inl t)) :
    Linked (readNext d catalog forkName) s.1 t.1 := by
  rw [linked_readNext_iff]
  rw [readBody_eq] at h
  split at h
  · cases h
  · rename_i hstart
    split at h
    · cases h
    · rename_i hother
      cases h
      exact ⟨not_not.mp hstart, hother, rfl⟩

private theorem readBody_leaves {s t : Lba × Option NfsForkStruct}
    (h : readBody d catalog forkName s = .done (.inr t)) :
    (¬ kNeFSCatalogStartAddress < s.1 ∧ t = s) ∨
      (kNeFSCatalogStartAddress < s.1 ∧ ForkNamed forkName catalog.nameChars (d.fork s.1) ∧
        t = (s.1, some (d.fork s.1))) := by
  rw [readBody_eq] at h
  split at h
  · rename_i hstart
    cases h
    exact Or.inl ⟨hstart, rfl⟩
  · rename_i hstart
    split at h
    · rename_i hnamed
      cases h
      exact Or.inr ⟨not_not.mp hstart, hnamed, rfl⟩
    · cases h

/-- The buffer is empty before the first pass only. -/
private theorem walk_links {s : Lba × Option NfsForkStruct}
    (h : ReflTransGen (fun s t => readBody d catalog forkName s = .done (.inl t)) (first, none) s) :
    ReflTransGen (Linked (readNext d catalog forkName)) first s.1 ∧
      (s = (first, none) ∨ TransGen (Linked (readNext d catalog forkName)) first s.1) := by
  induction h with
  | refl => exact ⟨.refl, Or.inl rfl⟩
  | tail _ hlast ih =>
    have hlink := readBody_linked hlast
    exact ⟨ih.1.tail hlink, Or.inr (TransGen.tail' ih.1 hlink)⟩

/-- The loop takes every link of the walk. -/
private theorem walk_passes (h : ReflTransGen (Linked (readNext d catalog forkName)) first a) :
    ∃ buffer, ReflTransGen (fun s t => readBody d catalog forkName s = .done (.inl t))
      (first, none) (a, buffer) := by
  induction h with
  | refl => exact ⟨none, .refl⟩
  | tail _ hlast ih =>
    obtain ⟨buffer, hwalk⟩ := ih
    exact ⟨_, hwalk.tail (readBody_goes hlast buffer)⟩

private theorem onForkChain (h : ReflTransGen (Linked (readNext d catalog forkName)) first a)
    (ha : kNeFSCatalogStartAddress < a) : OnForkChain d first a := by
  refine ⟨?_, ha⟩
  induction h with
  | refl => exact .refl
  | tail _ hlast ih =>
    obtain ⟨hstart, _, hnext⟩ := linked_readNext_iff.mp hlast
    exact (ih hstart).tail ⟨hstart, hnext⟩

/-- What is returned comes from the state in which the loop ends. -/
private theorem yields_readCatalog_iff {isRsrcFork : Bool} {dataSz : SizeT}
    {r : Option NfsForkStruct × Option HError} :
    Yields (fun fuel => readCatalog fuel d (some catalog) isRsrcFork dataSz forkName) r ↔
      ∃ s t, ReflTransGen (fun s t => readBody d catalog forkName s = .done (.inl t))
          (catalog.forkLba !isRsrcFork, none) s ∧
        readBody d catalog forkName s = .done (.inr t) ∧
        r = (if t.1 < kNeFSCatalogStartAddress then none else t.2, none) := by
  have hrun : ∀ fuel, readCatalog fuel d (some catalog) isRsrcFork dataSz forkName =
      whileLoop (readBody d catalog forkName) fuel (catalog.forkLba !isRsrcFork, none) >>= fun t =>
        .done (if t.1 < kNeFSCatalogStartAddress then none else t.2, none) := by
    intro fuel
    dsimp only [readCatalog]
    congr 1
    funext t
    split <;> rfl
  simp only [hrun]
  exact yields_loop_return_iff

/-- The last record in front of the start address is returned although it was no match. -/
private theorem not_sound_of_end {isRsrcFork : Bool}
    (h : TransGen (Linked (readNext d catalog forkName)) (catalog.forkLba !isRsrcFork)
      kNeFSCatalogStartAddress) : ¬ ReadSound d catalog isRsrcFork forkName := by
  intro hsound
  obtain ⟨last, hwalk, hlast⟩ := TransGen.tail'_iff.mp h
  obtain ⟨buffer, hpasses⟩ := walk_passes hwalk
  have hexit : readBody d catalog forkName (kNeFSCatalogStartAddress, some (d.fork last)) =
      .done (.inr (kNeFSCatalogStartAddress, some (d.fork last))) := by
    rw [readBody_eq, if_pos (UInt64.lt_irrefl _)]
  have hy : Yields (fun fuel => readCatalog fuel d (some catalog) isRsrcFork 0 forkName)
      (some (d.fork last), none) := by
    refine yields_readCatalog_iff.mpr
      ⟨_, _, hpasses.tail (readBody_goes hlast buffer), hexit, ?_⟩
    rw [if_neg (UInt64.lt_irrefl _)]
  obtain ⟨_, _, _, hnamed⟩ := (hsound 0 _ hy).1 _ rfl
  exact (linked_readNext_iff.mp hlast).2.1 hnamed

private theorem sound_of_no_end {isRsrcFork : Bool}
    (h : ¬ TransGen (Linked (readNext d catalog forkName)) (catalog.forkLba !isRsrcFork)
      kNeFSCatalogStartAddress) : ReadSound d catalog isRsrcFork forkName := by
  intro dataSz r hy
  obtain ⟨s, t, hwalk, hexit, rfl⟩ := yields_readCatalog_iff.mp hy
  obtain ⟨hlinks, hbuffer⟩ := walk_links hwalk
  rcases readBody_leaves hexit with ⟨hstart, rfl⟩ | ⟨hstart, hnamed, rfl⟩
  · -- only before the first pass can the loop end at the start address
    have hnone : (if t.1 < kNeFSCatalogStartAddress then none else t.2) = none := by
      split
      · rfl
      · rename_i hge
        rcases hbuffer with rfl | htrans
        · rfl
        · have heq : t.1 = kNeFSCatalogStartAddress :=
            UInt64.le_antisymm (UInt64.not_lt.mp hstart) (UInt64.not_lt.mp hge)
          exact absurd (heq ▸ htrans) h
    refine ⟨fun f hf => ?_, fun _ => hnone⟩
    rw [hnone] at hf
    cases hf
  · have hge : ¬ s.1 < kNeFSCatalogStartAddress := UInt64.lt_asymm hstart
    have hchain := onForkChain hlinks hstart
    dsimp only
    rw [if_neg hge]
    refine ⟨fun f hf => ?_, fun hnot => absurd hnamed (hnot s.1 hchain)⟩
    obtain rfl := Option.some.inj hf
    exact ⟨s.1, hchain, rfl, hnamed⟩

end ReadCatalog

/-- A fork that links to the start address. -/
def strayFork : NfsForkStruct :=
  { sampleFork forkFile with nextSibling := kNeFSCatalogStartAddress }

/-- What `FindFork` hands to `fs_newfs_read`; a null pointer is `none`. -/
structure ForkPacket where
  fPacketLba : Lba
  fPacketSize : SizeT
  fPacketContent : Option NfsForkStruct

/-- The packets of the passes of `FindFork`, in order. -/
def findForkPackets (fPacketGood : Bool) (name : List UInt8) (theFork : Option NfsForkStruct) :
    Nat → Lba → List ForkPacket
  | 0, _ => []
  | fuel + 1, lba =>
    if lba = 0 then []
    else
      ⟨lba, forkSize, theFork⟩ ::
        match findForkBody fPacketGood name theFork lba with
        | .done (.inl next) => findForkPackets fPacketGood name theFork fuel next
        | _ => []

/-- The link of a record that is not at address zero. -/
def ForkLink (d : Drive) (a b : Lba) : Prop := a ≠ 0 ∧ (d.fork a).nextSibling = b

/-- The chain of forks that begins at `first` ends in zero, so it has no circle. -/
def ForksEnd (d : Drive) (first : Lba) : Prop := ReflTransGen (ForkLink d) first 0

def OnLinkedForks (d : Drive) (first lba : Lba) : Prop :=
  ReflTransGen (ForkLink d) first lba ∧ lba ≠ 0

/-- A fork of the chain that has the name is returned if there is one and null otherwise, and every
packet has a buffer. -/
def FindForkCorrect (d : Drive) (fPacketGood : Bool) (catalog : NfsCatalogStruct)
    (name : List UInt8) (isDataFork : Bool) : Prop :=
  (∃ r err, Yields (fun fuel => findFork fuel fPacketGood (some catalog) name isDataFork) (r, err) ∧
    ((∃ lba, OnLinkedForks d (catalog.forkLba isDataFork) lba ∧ r = some (d.fork lba) ∧
        equals (d.fork lba).forkNameChars name = true) ∨
      (r = none ∧ ∀ lba, OnLinkedForks d (catalog.forkLba isDataFork) lba →
        ¬ equals (d.fork lba).forkNameChars name = true))) ∧
  ∀ fuel, ∀ p ∈ findForkPackets fPacketGood name none fuel (catalog.forkLba isDataFork),
    p.fPacketContent ≠ none

/-- `FindFork` does what it should exactly on catalogs without forks of the kind. -/
theorem findFork_correct_iff (d : Drive) (fPacketGood : Bool) (catalog : NfsCatalogStruct)
    (name : List UInt8) (isDataFork : Bool) :
    FindForkCorrect d fPacketGood catalog name isDataFork ↔ catalog.forkLba isDataFork = 0 := by
  constructor
  · intro h
    by_contra hfirst
    have hpacket : ⟨catalog.forkLba isDataFork, forkSize, none⟩ ∈
        findForkPackets fPacketGood name none 1 (catalog.forkLba isDataFork) := by
      rw [findForkPackets, if_neg hfirst]
      exact List.mem_cons_self
    exact h.2 1 _ hpacket rfl
  · intro hfirst
    have hempty : ∀ lba, ¬ OnLinkedForks d 0 lba := by
      intro lba h
      rcases h.1.cases_head with heq | ⟨b, hb, _⟩
      · exact h.2 heq.symm
      · exact hb.1 rfl
    have hbody : findForkBody fPacketGood name none 0 = .done (.inr (none, none)) := if_pos rfl
    rw [FindForkCorrect, hfirst]
    refine ⟨⟨none, none, ⟨1, ?_⟩, Or.inr ⟨rfl, fun lba hlba => absurd hlba (hempty lba)⟩⟩, ?_⟩
    · dsimp only [findFork]
      rw [hfirst]
      exact whileLoop_exit hbody 0
    · intro fuel p hp
      cases fuel with
      | zero => cases hp
      | succ fuel => simp [findForkPackets] at hp

def lastFork : NfsForkStruct := { sampleFork forkFile with nextSibling := 0 }

/-- One fork on the drive, and no packet for it has a buffer. -/
theorem findFork_no_buffer : ForksEnd (Drive.putFork (fun _ => 0) 4096 lastFork) 4096 ∧
    ∀ fPacketGood, ¬ FindForkCorrect (Drive.putFork (fun _ => 0) 4096 lastFork) fPacketGood
      forkFile (sampleFork forkFile).forkNameChars true := by
  constructor
  · refine .single ⟨by decide, ?_⟩
    rw [Drive.fork_putFork]
    rfl
  · intro fPacketGood h
    have hpacket : ⟨4096, forkSize, none⟩ ∈
        findForkPackets fPacketGood (sampleFork forkFile).forkNameChars none 1 4096 := by
      rw [findForkPackets, if_neg (by decide)]
      exact List.mem_cons_self
    exact h.2 1 _ hpacket rfl

end Zka.FSKit
