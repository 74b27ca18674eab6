import Zka.FSKit.CatalogRun

/-!
# The laws of creation and removal

Which calls of `CreateCatalog` leave a catalog that `FindCatalog` finds under a
directory, and which calls of `RemoveCatalog` take one away.
-/

namespace Zka.FSKit

open NewKit Outcome

/-! ## The parent path -/

/-- The path of the directory that holds the name: up to the last separator, a trailing one not
counted. -/
def pathParent (name : List UInt8) : List UInt8 :=
  (if name.getLast? = some kNeFSSeparator then name.dropLast else name).rdropWhile
    (· ≠ kNeFSSeparator)

private theorem notMem_infix {name : List UInt8} (h : ValidName name) (pre post : List UInt8)
    {a b : UInt8} (heq : name = pre ++ a :: b :: post) :
    ¬ (a = kNeFSSeparator ∧ b = kNeFSSeparator) := by
  intro h
  rcases h with ⟨rfl, rfl⟩
  exact h.noEmpty ⟨pre, post, by simp [heq]⟩

/-- The front of a valid name is one too if it is long enough. -/
theorem ValidName.of_start {name start : List UInt8} (h : ValidName name) (hstart : start <+: name)
    (hlen : 3 ≤ start.length) : ValidName start where
  noNul := fun h0 => h.noNul (hstart.subset h0)
  absolute := by
    obtain ⟨rest, rfl⟩ := hstart
    have hne : start ≠ [] := List.length_pos_iff.mp (by omega)
    have habs := h.absolute
    rwa [List.head?_append_of_ne_nil _ hne] at habs
  noEmpty := fun hi => h.noEmpty (hi.trans hstart.isInfix)
  minLength := hlen
  maxLength := lt_of_le_of_lt hstart.length_le h.maxLength

/-- Without the single character behind its last separator a name is a name with the same parent. -/
private theorem parent_single {pre : List UInt8} {b : UInt8}
    (h : ValidName (pre ++ [kNeFSSeparator, b])) :
    ValidName (pre ++ [kNeFSSeparator]) ∧
      parentOf (pre ++ [kNeFSSeparator]) = pre.rdropWhile (· ≠ kNeFSSeparator) := by
  have hmin := h.minLength
  have hpre : pre ≠ [] := by
    rintro rfl
    simp at hmin
  obtain ⟨pre', c, rfl⟩ : ∃ pre' c, pre = pre' ++ [c] :=
    ⟨pre.dropLast, pre.getLast hpre, (List.dropLast_append_getLast hpre).symm⟩
  have hc : c ≠ kNeFSSeparator := by
    intro hc
    exact notMem_infix h pre' [b] (by simp) ⟨hc, rfl⟩
  have hlong : pre' ≠ [] := by
    rintro rfl
    have habs := h.absolute
    simp only [List.nil_append, List.cons_append, List.head?_cons, Option.some.injEq] at habs
    exact hc habs
  have hpos := List.length_pos_iff.mpr hlong
  have hstart : pre' ++ [c] ++ [kNeFSSeparator] <+: pre' ++ [c] ++ [kNeFSSeparator, b] :=
    ⟨[b], by simp⟩
  refine ⟨h.of_start hstart ?_, ?_⟩
  · simp only [List.length_append, List.length_cons, List.length_nil]
    omega
  · rw [List.rdropWhile_concat_pos _ _ _ (by simpa using hc), parentOf]
    simp

/-- The code looks for the parent path, except where the last component is a single character:
there it looks for the parent of the parent path. -/
theorem ValidName.parent_cases {name : List UInt8} (h : ValidName name) :
    parentOf name = pathParent name ∨
      ValidName (pathParent name) ∧ parentOf (pathParent name) = parentOf name ∧
        (pathParent name).length < name.length := by
  have hmin := h.minLength
  obtain ⟨pre, a, b, hname⟩ := eq_append_two (show 2 ≤ name.length by omega)
  have hparent : parentOf name = pre.rdropWhile (· ≠ kNeFSSeparator) := by
    rw [parentOf, hname]
    simp
  have hlast : name.getLast? = some b := by simp [hname]
  have hab := notMem_infix h pre [] hname
  by_cases hb : b = kNeFSSeparator
  · left
    have ha : a ≠ kNeFSSeparator := fun ha => hab ⟨ha, hb⟩
    have hdrop : name.dropLast = pre ++ [a] := by simp [hname]
    rw [hparent, pathParent, hlast, if_pos (congrArg some hb), hdrop,
      List.rdropWhile_concat_pos _ _ _ (by simpa using ha)]
  have hpath : pathParent name = (pre ++ [a]).rdropWhile (· ≠ kNeFSSeparator) := by
    rw [pathParent, hlast, if_neg (fun he => hb (Option.some.inj he)), hname,
      show pre ++ [a, b] = (pre ++ [a]) ++ [b] by simp,
      List.rdropWhile_concat_pos _ _ _ (by simpa using hb)]
  by_cases ha : a = kNeFSSeparator
  · right
    rw [List.rdropWhile_concat_neg _ _ _ (by simpa using ha), ha] at hpath
    obtain ⟨hvalid, hsame⟩ := parent_single (ha ▸ hname ▸ h)
    rw [hpath, hparent]
    refine ⟨hvalid, hsame, ?_⟩
    rw [hname]
    simp
  · left
    rw [hparent, hpath, List.rdropWhile_concat_pos _ _ _ (by simpa using ha)]

theorem ValidName.pathParent_length_lt {name : List UInt8} (h : ValidName name) :
    (pathParent name).length < name.length := by
  rcases h.parent_cases with heq | ⟨_, _, hlt⟩
  · have hmin := h.minLength
    have hle := parentOf_length_le name
    rw [heq] at hle
    omega
  · exact hlt

theorem ValidName.resolves_pathParent {name : List UInt8} (h : ValidName name) :
    Resolves (pathParent name) := by
  rcases h.parent_cases with heq | ⟨hvalid, _, _⟩
  · rw [← heq]
    exact h.resolves.parent h.ne_root
  · exact hvalid.resolves

theorem ValidName.visible_parentOf {name : List UInt8} {names : List (List UInt8)}
    (h : ValidName name) (hv : Visible names (pathParent name)) : Visible names (parentOf name) := by
  rcases h.parent_cases with heq | ⟨hvalid, hpar, _⟩
  · rwa [heq]
  · rw [← hpar]
    exact hv.parent hvalid.ne_root

theorem pathParent_getLast? {name : List UInt8} (h : pathParent name ≠ []) :
    (pathParent name).getLast? = some kNeFSSeparator := by
  have hl := List.rdropWhile_last_not (· ≠ kNeFSSeparator) _ h
  rw [decide_eq_true_iff, not_not] at hl
  rw [List.getLast?_eq_some_getLast h]
  exact congrArg some hl

/-! ## Creation -/

/-- A created catalog is found afterwards, as the kind it was created with, and its parent path
names a directory. -/
def CreateThenFind (d : Drive) (name : List UInt8) (kind : Int32) (r : CatalogReply) : Prop :=
  r.ptr ≠ none →
    (∃ c lba, Yields (fun fuel => findCatalog fuel r.drive name) (some c, lba) ∧ c.nameText = name ∧
      (Missing d name → c.kind = kind)) ∧
    ∃ c lba, Yields (fun fuel => findCatalog fuel r.drive (pathParent name)) (some c, lba) ∧
      c.nameText = pathParent name ∧ c.kind = kNeFSCatalogKindDir

def CreateRefused (s : CatalogState) (name : List UInt8) (kind : Int32) : Prop :=
  ¬ KindFits name kind ∨ name ∉ s.names ∧ s.drive.part.freeCatalog < 1

namespace Represents

variable {d : Drive} {names : List (List UInt8)} {name : List UInt8}

theorem found_record (h : Represents d names) (hv : Visible names name) :
    ∃ c lba, Yields (fun fuel => findCatalog fuel d name) (some c, lba) ∧ c.nameText = name ∧
      (c.kind = kNeFSCatalogKindDir ↔ name.getLast? = some kNeFSSeparator) := by
  have hrec := h.record_idxOf hv.mem
  refine ⟨_, slotAt (names.idxOf name), ?_, hrec.nameText_eq, hrec.kind_iff⟩
  rw [h.yields_findCatalog_iff (h.resolves name hv.mem), findReply_visible hv]

/-- The parent path of a name is found and is a directory, as soon as it is visible. -/
theorem found_pathParent (h : Represents d names) (hv : Visible names (pathParent name)) :
    ∃ c lba, Yields (fun fuel => findCatalog fuel d (pathParent name)) (some c, lba) ∧
      c.nameText = pathParent name ∧ c.kind = kNeFSCatalogKindDir := by
  obtain ⟨c, lba, hc, htext, hkind⟩ := h.found_record hv
  have hne := (h.resolves _ hv.mem).ne_nil
  exact ⟨c, lba, hc, htext, hkind.mpr (pathParent_getLast? hne)⟩

end Represents

private theorem create_law {s : CatalogState} (h : Represents s.drive s.names)
    {name : List UInt8} (hname : ValidName name) {flags kind : Int32} {r : CatalogReply}
    (hr : Yields (fun fuel => createCatalog fuel s.drive name flags kind) r) :
    CreateThenFind s.drive name kind r ↔
      CreateRefused s name kind ∨ Visible s.names (pathParent name) := by
  have hlt := hname.pathParent_length_lt
  have hres := hname.resolves_pathParent
  cases h.createCatalog_cases hname.noNul hr with
  | refused href => exact ⟨fun _ => Or.inl href, fun _ hptr => absurd rfl hptr⟩
  | existing hfit hmem err =>
    constructor
    · intro hp
      obtain ⟨_, c, lba, hfound, _⟩ := hp (by simp)
      exact Or.inr ((h.found_iff hres.zero_notMem).mp ⟨c, lba, hfound⟩)
    · intro h _
      rcases h with href | hv
      · rcases href with hkind | ⟨hnew, _⟩
        · exact absurd hfit hkind
        · exact absurd hmem hnew
      · have hvn : Visible s.names name := .child hname.ne_root hmem (hname.visible_parentOf hv)
        obtain ⟨c, lba, hc, htext, _⟩ := h.found_record hvn
        refine ⟨⟨c, lba, hc, htext, ?_⟩, h.found_pathParent hv⟩
        intro hmissing
        exact absurd hvn ((h.missing_iff hname.resolves).mp hmissing)
  | created hres' hfit hnew hfree c hkind hrec =>
    have h' := h.extend hres' hnew hfree hrec
    constructor
    · intro hp
      obtain ⟨_, c, lba, hfound, _⟩ := hp (by simp)
      have hv := (h'.found_iff hres.zero_notMem).mp ⟨c, lba, hfound⟩
      refine Or.inr (hv.of_append (Nat.le_of_lt hlt) ?_)
      intro heq
      rw [heq] at hlt
      exact Nat.lt_irrefl _ hlt
    · intro h _
      rcases h with href | hv
      · rcases href with hkind | ⟨_, hfull⟩
        · exact absurd hfit hkind
        · exact absurd hfull hfree
      · have hv' := hv.mono (List.subset_append_left s.names [name])
        have hvn : Visible (s.names ++ [name]) name :=
          .child hname.ne_root (by simp) (hname.visible_parentOf hv')
        have hidx : (s.names ++ [name]).idxOf name = s.names.length := by
          rw [List.idxOf_append_of_notMem hnew, List.idxOf_cons_self, Nat.add_zero]
        have hread : ((s.drive.putCatalog (slotAt s.names.length) c).putPart
            s.drive.part.countCreated).catalog (slotAt s.names.length) = c := by
          have hle := h.length_le
          rw [Drive.catalog_putPart _ _ (h.slot_ge (by omega)), Drive.catalog_putCatalog]
        refine ⟨⟨c, slotAt s.names.length, ?_, hrec.nameText_eq, fun _ => hkind⟩,
          h'.found_pathParent hv'⟩
        rw [h'.yields_findCatalog_iff hname.resolves, findReply_visible hvn, hidx, hread]

/-- Creation leaves a catalog that can be found, or refuses, exactly when it refuses by its own
checks or the parent path and every path above it have been created before. -/
theorem createThenFind_iff {blobCount : SizeT} {d : Drive} (hd : BootFormatted blobCount d)
    {s : CatalogState} (hs : Reaches CatalogStep (fun _ _ => True) (.boot d) s)
    {name : List UInt8} (hname : ValidName name) {flags kind : Int32} {r : CatalogReply}
    (hr : Yields (fun fuel => createCatalog fuel s.drive name flags kind) r) :
    CreateThenFind s.drive name kind r ↔
      CreateRefused s name kind ∨ Visible s.names (pathParent name) :=
  create_law (TableInv.run hd hs).represents hname hr

theorem createThenFind_boot :
    ∃ r, r.slot ≠ none ∧ CreateThenFind bootDrive sampleDir kNeFSCatalogKindDir r := by
  obtain ⟨c, _, _, hy⟩ := bootDrive_formatted.represents.yields_createCatalog
    sampleDir_valid.resolves 0 kNeFSCatalogKindDir (by decide) (by decide)
    bootDrive_formatted.free
  refine ⟨_, by simp, (createThenFind_iff (s := .boot bootDrive) bootDrive_formatted .refl
    sampleDir_valid hy).mpr (Or.inr ?_)⟩
  rw [show pathParent sampleDir = kNeFSRoot by decide]
  exact .root (by decide)

/-- `/ab/cd`, a file in a directory that the boot loader has not created. -/
def sampleFile : List UInt8 := [47, 97, 98, 47, 99, 100]

theorem sampleFile_valid : ValidName sampleFile :=
  ⟨by decide, by decide, by decide, by decide, by decide⟩

/-- Creating the file succeeds although its directory is missing, and it cannot be found. -/
theorem createThenFind_orphan : BootFormatted 1 bootDrive ∧ ValidName sampleFile ∧
    ∃ r, Yields (fun fuel => createCatalog fuel bootDrive sampleFile 0 kNeFSCatalogKindFile) r ∧
      r.ptr ≠ none ∧ ¬ CreateThenFind bootDrive sampleFile kNeFSCatalogKindFile r := by
  have hrep := bootDrive_formatted.represents
  have hnew : sampleFile ∉ [kNeFSRoot] := by decide
  have hfit : KindFits sampleFile kNeFSCatalogKindFile := by decide
  obtain ⟨c, _, _, hy⟩ := hrep.yields_createCatalog sampleFile_valid.resolves 0 _ hfit hnew
    bootDrive_formatted.free
  refine ⟨bootDrive_formatted, sampleFile_valid, _, hy, by simp, ?_⟩
  intro hlaw
  rcases (create_law (s := .boot bootDrive) hrep sampleFile_valid hy).mp hlaw with href | hv
  · rcases href with hkind | ⟨_, hfull⟩
    · exact hkind hfit
    · exact bootDrive_formatted.free hfull
  · exact absurd hv.mem (by decide)

/-! ## Removal -/

def Ancestor (path name : List UInt8) : Prop :=
  path <+: name ∧ path.getLast? = some kNeFSSeparator

/-- A removal that succeeds takes the name away, keeps the rest in sight and allows the name again;
a name that no catalog has is refused without a change. -/
def RemoveLaw (s : CatalogState) (name : List UInt8) : Prop :=
  (∀ r, Yields (fun fuel => removeCatalog fuel s.drive name) r → r.ok = true →
    Missing r.drive name ∧
    (∀ other, other ≠ name → ¬ Ancestor name other → ∀ answer,
      Yields (fun fuel => findCatalog fuel r.drive other) answer ↔
        Yields (fun fuel => findCatalog fuel s.drive other) answer) ∧
    ∃ flags kind again, Yields (fun fuel => createCatalog fuel r.drive name flags kind) again ∧
      again.slot ≠ none) ∧
  (name ∉ s.names → ∃ err, Yields (fun fuel => removeCatalog fuel s.drive name) ⟨false, err, s.drive⟩)

private theorem remove_law {s : CatalogState} (h : Represents s.drive s.names)
    {name : List UInt8} (h0 : 0 ∉ name) :
    RemoveLaw s name ↔ name = kNeFSRoot ∨ name ∈ s.names ∧ ¬ Visible s.names name := by
  constructor
  · intro h
    rcases h with ⟨hok, hno⟩
    by_cases hroot : name = kNeFSRoot
    · exact Or.inl hroot
    · right
      by_cases hv : Visible s.names name
      · exfalso
        have hremove := h.removeCatalog_visible hv hroot (Nat.lt_succ_self _)
        have hgone := (hok _ (.intro _ hremove) rfl).1
        exact (h.countRemoved.missing_iff (h.resolves name hv.mem)).mp hgone hv
      · by_cases hmem : name ∈ s.names
        · exact ⟨hmem, hv⟩
        · exfalso
          obtain ⟨err, hrefused⟩ := hno hmem
          rcases h.removeCatalog_cases h0 hrefused with ⟨hr, _⟩ | ⟨_, hvis, _⟩
          · exact hroot hr
          · exact hv hvis
  · intro hcond
    constructor
    · intro r hr hok
      exfalso
      rcases h.removeCatalog_cases h0 hr with ⟨_, rfl⟩ | ⟨hroot, hvis, _⟩
      · cases hok
      · rcases hcond with rfl | ⟨_, hhidden⟩
        · exact hroot rfl
        · exact hhidden hvis
    · intro hmem
      rcases hcond with rfl | ⟨hin, _⟩
      · exact absurd h.root_mem hmem
      · exact absurd hin hmem

/-- The law holds only where nothing is removed: of the root, and of a catalog that lookup cannot
reach because one of the parents above it was never created. -/
theorem removeLaw_iff {blobCount : SizeT} {d : Drive} (hd : BootFormatted blobCount d)
    {s : CatalogState} (hs : Reaches CatalogStep (fun _ _ => True) (.boot d) s)
    {name : List UInt8} (h0 : 0 ∉ name) :
    RemoveLaw s name ↔ name = kNeFSRoot ∨ name ∈ s.names ∧ ¬ Visible s.names name :=
  remove_law (TableInv.run hd hs).represents h0

theorem removeLaw_root : RemoveLaw (.boot bootDrive) kNeFSRoot :=
  (removeLaw_iff bootDrive_formatted .refl (by decide)).mpr (Or.inl rfl)

/-- Removing a directory that was never created reads a null record. -/
theorem removeLaw_missing : BootFormatted 1 bootDrive ∧ sampleDir.head? = some kNeFSSeparator ∧
    ¬ RemoveLaw (.boot bootDrive) sampleDir := by
  refine ⟨bootDrive_formatted, by decide, ?_⟩
  intro hlaw
  rcases (remove_law bootDrive_formatted.represents sampleDir_valid.noNul).mp hlaw with
    hroot | ⟨hmem, _⟩
  · exact sampleDir_valid.ne_root hroot
  · exact absurd hmem (by decide)

end Zka.FSKit
