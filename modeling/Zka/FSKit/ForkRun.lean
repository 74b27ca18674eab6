import Zka.FSKit.RoundTrip
import Zka.Framework.Run

/-!
# Runs of fork creations

Forks of one catalog are created one after the other.  The place a new fork gets does not
depend on the forks that are already there: a link counts as bad as soon as it is not zero.
-/

namespace Zka.FSKit

open NewKit Outcome

/-- The drive, and the created forks with the addresses of their headers. -/
structure ForkState where
  drive : Drive
  created : List (Lba × NfsForkStruct)

namespace ForkState

def createdBy : ForkReply → List (Lba × NfsForkStruct)
  | ⟨some f, some header, _⟩ => [(header, f)]
  | _ => []

def after (s : ForkState) (r : ForkReply) : ForkState :=
  ⟨r.drive, s.created ++ createdBy r⟩

end ForkState

/-- A call on the catalog that returns; the name of the fork is a new one. -/
inductive ForkStep (catalog : NfsCatalogStruct) : ForkState → NfsForkStruct → ForkState → Prop
  | createFork {s : ForkState} {theFork : NfsForkStruct} {r : ForkReply}
      (hcatalog : equals catalog.nameChars theFork.catalogNameChars = true)
      (hnew : ∀ p ∈ s.created, ¬ equals p.2.forkNameChars theFork.forkNameChars = true)
      (h : Yields (fun fuel => createFork fuel s.drive (some catalog) theFork) r) :
      ForkStep catalog s theFork (s.after r)

/-- The names, the place and the size of the data. -/
def KeptFork (g f : NfsForkStruct) : Prop :=
  g.forkName = f.forkName ∧ g.catalogName = f.catalogName ∧ g.dataOffset = f.dataOffset ∧
    g.dataSize = f.dataSize

/-- Every created fork is on the drive as it was created and is found under its name. -/
def ForkState.Intact (catalog : NfsCatalogStruct) (s : ForkState) : Prop :=
  ∀ p ∈ s.created, KeptFork (s.drive.fork p.1) p.2 ∧ ∀ dataSz, ∃ g err,
    Yields (fun fuel => readCatalog fuel s.drive (some catalog) (!p.2.isData) dataSz
      p.2.forkNameChars) (some g, err) ∧ KeptFork g p.2

def HeadersApart (a b : Lba) : Prop := a.toNat + 512 ≤ b.toNat ∨ b.toNat + 512 ≤ a.toNat

/-- The places of both kinds of forks are zero. -/
def ZeroForkArea (catalog : NfsCatalogStruct) (d : Drive) : Prop :=
  ∀ isDataFork x, (catalog.forkLba isDataFork).toNat ≤ x →
    x < (catalog.forkLba isDataFork).toNat + 512 → d x = 0

/-- A fork that is accepted has a place that no created fork stands at. -/
def FreshPlace (catalog : NfsCatalogStruct) (s : ForkState) (theFork : NfsForkStruct) : Prop :=
  ForkAccepted catalog theFork →
    ∀ p ∈ s.created, HeadersApart p.1 (catalog.forkLba theFork.isData)

/-! ## The invariant -/

/-- Each created fork stands at the place of its kind, and what no header covers is still zero. -/
private structure ForkInv (catalog : NfsCatalogStruct) (s : ForkState) : Prop where
  place : ∀ p ∈ s.created, catalog.forkLba p.2.isData = p.1
  behind : ∀ p ∈ s.created, ¬ p.1 ≤ kNeFSCatalogStartAddress
  stored : ∀ p ∈ s.created, s.drive.fork p.1 = p.2
  flagged : ∀ p ∈ s.created, p.2.Created
  named : ∀ p ∈ s.created, equals catalog.nameChars p.2.catalogNameChars = true
  blank : ∀ isDataFork x, (catalog.forkLba isDataFork).toNat ≤ x →
    x < (catalog.forkLba isDataFork).toNat + 512 →
    (∀ p ∈ s.created, x < p.1.toNat ∨ p.1.toNat + 512 ≤ x) → s.drive x = 0

namespace ForkInv

variable {catalog : NfsCatalogStruct} {d : Drive} {s t : ForkState} {theFork : NfsForkStruct}

private theorem start (hd : ZeroForkArea catalog d) : ForkInv catalog ⟨d, []⟩ where
  place := by simp
  behind := by simp
  stored := by simp
  flagged := by simp
  named := by simp
  blank := by
    intro isDataFork x hx hlt _
    exact hd isDataFork x hx hlt

/-- The reader's first look is at the place of the kind. -/
private theorem intact (h : ForkInv catalog s) : s.Intact catalog := by
  intro p hp
  have hstored := h.stored p hp
  refine ⟨?_, ?_⟩
  · rw [hstored]
    exact ⟨rfl, rfl, rfl, rfl⟩
  · intro dataSz
    have hlt : kNeFSCatalogStartAddress < p.1 := UInt64.not_le.mp (h.behind p hp)
    have hbody : readBody s.drive catalog p.2.forkNameChars (p.1, none) =
        .done (.inr (p.1, some p.2)) := by
      simp only [readBody, hlt, hstored, equals_self, h.named p hp, not_true_eq_false, if_false,
        and_self, if_true]
    refine ⟨p.2, none, .intro 1 ?_, rfl, rfl, rfl, rfl⟩
    rw [readCatalog, Bool.not_not, h.place p hp, whileLoop_exit hbody, done_bind, if_neg]
    exact UInt64.not_lt.mpr (UInt64.le_of_lt hlt)

/-- A new fork at a place of its own. -/
private theorem put (h : ForkInv catalog s) (hacc : ForkAccepted catalog theFork)
    (hname : equals catalog.nameChars theFork.catalogNameChars = true)
    (hapart : ∀ p ∈ s.created, HeadersApart p.1 (catalog.forkLba theFork.isData)) :
    ForkInv catalog (s.after (writeFork s.drive theFork
      ⟨catalog.forkLba theFork.isData, catalog.forkLba theFork.isData, .zero⟩)) := by
  have hlba := hacc.2
  generalize hplace : catalog.forkLba theFork.isData = lba at hlba hapart ⊢
  have hmem : ∀ p, p ∈ s.created ++ [(lba, finishFork theFork lba lba)] ↔
      p ∈ s.created ∨ p = (lba, finishFork theFork lba lba) := by simp
  refine ⟨?_, ?_, ?_, ?_, ?_, ?_⟩
  · intro p hp
    rcases (hmem p).mp hp with hp | rfl
    · exact h.place p hp
    · exact hplace
  · intro p hp
    rcases (hmem p).mp hp with hp | rfl
    · exact h.behind p hp
    · exact hlba
  · intro p hp
    rcases (hmem p).mp hp with hp | rfl
    · rw [← h.stored p hp]
      have hfar := hapart p hp
      rw [HeadersApart] at hfar
      refine Drive.fork_congr fun x hx hlt => ?_
      have hout : x < lba.toNat ∨ lba.toNat + 512 ≤ x := by omega
      exact Drive.putFork_outside hout
    · exact Drive.fork_putFork
  · intro p hp
    rcases (hmem p).mp hp with hp | rfl
    · exact h.flagged p hp
    · exact finishFork_created _ _ _
  · intro p hp
    rcases (hmem p).mp hp with hp | rfl
    · exact h.named p hp
    · exact hname
  · intro isDataFork x hx hlt hout
    have hnew := hout (lba, finishFork theFork lba lba) ((hmem _).mpr (Or.inr rfl))
    refine (Drive.putFork_outside hnew).trans (h.blank isDataFork x hx hlt ?_)
    intro p hp
    exact hout p ((hmem p).mpr (Or.inl hp))

/-- A place that all created forks are apart from holds no fork. -/
private theorem place_free (h : ForkInv catalog s) {isDataFork : Bool}
    (hapart : ∀ p ∈ s.created, HeadersApart p.1 (catalog.forkLba isDataFork)) :
    s.drive.fork (catalog.forkLba isDataFork) = .zero := by
  apply Drive.fork_of_zero
  intro x hx hlt
  refine h.blank isDataFork x hx hlt ?_
  intro p hp
  have hfar := hapart p hp
  rw [HeadersApart] at hfar
  omega

private theorem refused (h : ForkInv catalog s) : ForkInv catalog (s.after (.null s.drive)) := by
  rw [show s.after (.null s.drive) = s by simp [ForkState.after, ForkReply.null, ForkState.createdBy]]
  exact h

private theorem step (h : ForkInv catalog s) (hfit : FreshPlace catalog s theFork)
    (hs : ForkStep catalog s theFork t) : ForkInv catalog t := by
  cases hs with
  | createFork hcatalog hnew hr =>
    rw [createFork_reply hr, forkReply]
    by_cases hacc : ForkAccepted catalog theFork
    swap
    · rw [if_pos hacc]
      exact h.refused
    have hzero := h.place_free (hfit hacc)
    rw [if_neg (not_not.mpr hacc), if_neg]
    · exact h.put hacc hcatalog (hfit hacc)
    · intro hastray
      rw [hzero] at hastray
      exact zero_fork_not_created hastray.1

/-- Places that are equal or apart are equal when they are near. -/
private theorem forkLba_eq_of_near {a b : Bool}
    (hplaces : catalog.dataFork = catalog.resourceFork ∨
      HeadersApart catalog.dataFork catalog.resourceFork)
    (hnear : ¬ HeadersApart (catalog.forkLba a) (catalog.forkLba b)) :
    catalog.forkLba b = catalog.forkLba a := by
  rcases hplaces with heq | hfar
  · cases a <;> cases b <;> simp [NfsCatalogStruct.forkLba, heq]
  · cases a <;> cases b <;>
      simp only [NfsCatalogStruct.forkLba, HeadersApart, if_true, if_false,
        Bool.false_eq_true] at hnear hfar ⊢ <;> omega

/-- A fork at the place of another takes its header; behind a header without a link it goes to
address zero, where no reader looks. -/
private theorem fresh (h : ForkInv catalog s)
    (hplaces : catalog.dataFork = catalog.resourceFork ∨
      HeadersApart catalog.dataFork catalog.resourceFork)
    (hs : ForkStep catalog s theFork t) (ht : t.Intact catalog) : FreshPlace catalog s theFork := by
  cases hs with
  | createFork hcatalog hnew hr =>
    intro hacc p hp
    by_contra hnear
    have hsame : catalog.forkLba theFork.isData = p.1 := by
      rw [← h.place p hp] at hnear ⊢
      exact forkLba_eq_of_near hplaces hnear
    have hstored := h.stored p hp
    have hbehind := h.behind p hp
    have hother := hnew p hp
    rw [createFork_reply hr, forkReply, if_neg (not_not.mpr hacc), hsame, hstored] at ht
    by_cases hnext : p.2.nextSibling = 0
    · have hdiff : ¬ sameFork p.2 theFork.forkNameChars catalog.nameChars := fun hs => hother hs.1
      rw [if_pos ⟨h.flagged p hp, hnext⟩, if_neg hdiff] at ht
      have hkept : (s.drive.putFork 0 (finishFork theFork 0 p.1)).fork p.1 = p.2 := by
        rw [← hstored]
        refine Drive.fork_congr fun x hx _ => Drive.putFork_outside (Or.inr ?_)
        have hbig := UInt64.lt_iff_toNat_lt.mp (UInt64.not_le.mp hbehind)
        have hstart : kNeFSCatalogStartAddress.toNat = 2560 := rfl
        have hzero : (0 : Lba).toNat = 0 := rfl
        omega
      obtain ⟨_, hread⟩ := ht (0, finishFork theFork 0 p.1)
        (List.mem_append_right _ (List.mem_singleton_self _))
      obtain ⟨g, err, hread, _⟩ := hread 0
      have hdiffer : ¬ equals (finishFork theFork 0 p.1).forkNameChars p.2.forkNameChars = true :=
        fun he => hother ((equals_comm _ _).trans he)
      have hnone := readCatalog_past hsame (UInt64.not_le.mp hbehind) hkept hdiffer hnext hread
      cases hnone
    · rw [if_neg fun hc => hnext hc.2] at ht
      have hkept := (ht p (List.mem_append_left _ hp)).1.1
      have hput : ((s.after (writeFork s.drive theFork ⟨p.1, p.1, .zero⟩)).drive.fork p.1) =
          finishFork theFork p.1 p.1 := Drive.fork_putFork
      rw [hput] at hkept
      apply hother
      rw [NfsForkStruct.forkNameChars, ← hkept]
      exact equals_self _

end ForkInv

section Run

variable {catalog : NfsCatalogStruct} {d : Drive} {s : ForkState}

private theorem runInv (hd : ZeroForkArea catalog d)
    (hr : Reaches (ForkStep catalog) (FreshPlace catalog) ⟨d, []⟩ s) : ForkInv catalog s :=
  hr.invariant (ForkInv catalog) (ForkInv.start hd) fun _ _ _ hinv hfit hs => hinv.step hfit hs

/-- Forks stay intact as long as each new one has a place of its own, and where the two places of
the catalog do not overlap in part, the first one that has not breaks it. -/
theorem forks_intact (hd : ZeroForkArea catalog d)
    (hr : Reaches (ForkStep catalog) (FreshPlace catalog) ⟨d, []⟩ s) :
    s.Intact catalog ∧
      ((catalog.dataFork = catalog.resourceFork ∨
        HeadersApart catalog.dataFork catalog.resourceFork) →
      ∀ theFork t, ForkStep catalog s theFork t →
        (t.Intact catalog ↔ FreshPlace catalog s theFork)) := by
  have hinv := runInv hd hr
  refine ⟨hinv.intact, fun hplaces theFork t hs => ⟨hinv.fresh hplaces hs, fun hfit => ?_⟩⟩
  exact (hinv.step hfit hs).intact

end Run

/-- A file of which both forks have the same place. -/
def forkFile : NfsCatalogStruct :=
  { NfsCatalogStruct.zero with
    name := charBuffer 256 [47, 97]
    dataFork := 4096
    resourceFork := 4096 }

def otherFork (catalog : NfsCatalogStruct) : NfsForkStruct :=
  { sampleFork catalog with forkName := charBuffer 200 [99, 111, 100, 101] }

private theorem forkFile_accepted : ForkAccepted forkFile (sampleFork forkFile) :=
  sampleFork_accepted (UInt64.not_le.mpr (UInt64.lt_iff_toNat_lt.mpr (by decide)))

private theorem otherFork_accepted : ForkAccepted forkFile (otherFork forkFile) := by
  refine ⟨⟨?_, forkFile_accepted.1.2⟩, forkFile_accepted.2⟩
  simp [otherFork, charBuffer]

private theorem forkFile_run : ∃ s,
    Reaches (ForkStep forkFile) (FreshPlace forkFile) ⟨fun _ => 0, []⟩ s ∧
    s.created = [(4096, finishFork (sampleFork forkFile) 4096 4096)] := by
  have hfree : ¬ (Drive.fork (fun _ => 0) 4096).Created := by
    rw [Drive.fork_of_zero fun _ _ _ => rfl]
    exact zero_fork_not_created
  have hs : ForkStep forkFile ⟨fun _ => 0, []⟩ (sampleFork forkFile) _ :=
    .createFork (equals_self _) (by simp) (yields_createFork rfl forkFile_accepted hfree)
  exact ⟨_, .one (by simp [FreshPlace]) hs, rfl⟩

theorem forks_intact_one : ∃ s : ForkState, s.created ≠ [] ∧ s.Intact forkFile := by
  obtain ⟨s, hrun, hcreated⟩ := forkFile_run
  have hzero : ZeroForkArea forkFile fun _ => 0 := fun _ _ _ _ => rfl
  exact ⟨s, by simp [hcreated], (forks_intact hzero hrun).1⟩

/-- The second data fork of a file is written over the first. -/
theorem forks_overwritten : ZeroForkArea forkFile (fun _ => 0) ∧ ∃ s,
    Reaches (ForkStep forkFile) (fun _ _ => True) ⟨fun _ => 0, []⟩ s ∧ ¬ s.Intact forkFile := by
  have hzero : ZeroForkArea forkFile fun _ => 0 := fun _ _ _ _ => rfl
  obtain ⟨s, hrun, hcreated⟩ := forkFile_run
  have hinv := runInv hzero hrun
  have hs : ForkStep forkFile s (otherFork forkFile)
      (s.after (forkReply s.drive forkFile (otherFork forkFile))) := by
    refine .createFork (equals_self _) ?_
      (.intro 2 (createFork_eq s.drive forkFile (otherFork forkFile) le_rfl))
    intro p hp heq
    rw [hcreated, List.mem_singleton] at hp
    subst hp
    exact absurd heq (by decide)
  have hany : Reaches (ForkStep forkFile) (fun _ _ => True) ⟨fun _ => 0, []⟩ s :=
    hrun.weaken fun _ _ _ => trivial
  refine ⟨hzero, _, hany.tail ⟨_, trivial, hs⟩, fun hintact => ?_⟩
  have hfar := hinv.fresh (Or.inl rfl) hs hintact otherFork_accepted
    (4096, finishFork (sampleFork forkFile) 4096 4096) (by simp [hcreated])
  have hplace : forkFile.forkLba (otherFork forkFile).isData = 4096 := rfl
  rw [hplace] at hfar
  exact absurd hfar (show ¬ HeadersApart 4096 4096 by simp [HeadersApart])

end Zka.FSKit
