import Zka.BootKit.Support

/-!
# `BFileReader`

Reading a file through the firmware.  What the firmware answers is given call by call;
the memory of the blob is addressed from its start.
-/

namespace Zka.BootKit

open NewKit Outcome

def kBufferTooSmall : UInt64 := 5

/-- What `Read` returns and leaves in the size; a call that fails moves no data. -/
inductive ReadAnswer where
  | ok (bufSize : UInt64)
  | failed (status bufSize : UInt64)

namespace ReadAnswer

def status : ReadAnswer → UInt64
  | ok _ => 0
  | failed status _ => status

def bufSize : ReadAnswer → UInt64
  | ok bufSize => bufSize
  | failed _ bufSize => bufSize

/-- How many bytes of the file are moved. -/
def moved : ReadAnswer → Nat
  | ok bufSize => bufSize.toNat
  | failed _ _ => 0

end ReadAnswer

/-- The state of the loop, with the position of the firmware in the file and how often it was
called. -/
structure ReadState where
  szCnt : UInt64
  bufSize : UInt64
  position : Nat
  calls : Nat
  mBlob : Store
  writes : List Extent

section Passes

variable (file : List UInt8) (answers : Nat → ReadAnswer)

/-- `mFile->Read(mFile, &bufSize, &mBlob[szCnt])`. -/
def fileRead (s : ReadState) : ReadAnswer → ReadState
  | .ok bufSize => { s with
      bufSize := bufSize
      position := s.position + bufSize.toNat
      mBlob := fun x =>
        if s.szCnt.toNat ≤ x ∧ x < s.szCnt.toNat + bufSize.toNat then
          file.getD (s.position + (x - s.szCnt.toNat)) 0
        else s.mBlob x
      writes := s.writes ++ [⟨s.szCnt.toNat, bufSize.toNat⟩] }
  | .failed _ bufSize => { s with bufSize := bufSize }

/-- One pass of the loop. -/
def readPass (chunkToRead : UInt64) (s : ReadState) : ReadState :=
  let answer := answers s.calls
  let s' := fileRead file s answer
  { s' with
    szCnt := s'.szCnt + s'.bufSize
    bufSize := if answer.status = kBufferTooSmall then chunkToRead else s'.bufSize
    calls := s.calls + 1 }

def readBody (readUntil chunkToRead : UInt64) (s : ReadState) :
    Outcome CFault (ReadState ⊕ ReadState) :=
  .done (if s.szCnt < readUntil then .inl (readPass file answers chunkToRead s) else .inr s)

end Passes

def kOperationOkay : Int32 := 0

/-- The fields of `BFileReader` that `ReadAll` uses, and the place of `mFile`. -/
structure BFileReader where
  mErrorCode : Int32
  mBlob : Option Store
  mSizeFile : UInt64
  position : Nat

/-- The reader behind `ReadAll` and what was written, or a machine that was stopped. -/
inductive ReadEnd where
  | returned (reader : BFileReader) (writes : List Extent)
  | stopped

/-- What the firmware has beside `Read`: the size that `GetInfo` gives, if it does, and what
stands in the memory that `AllocatePool` gives, if it does. -/
structure Firmware where
  fileSize : Option UInt64
  allocatePool : SizeT → Option Store

/-- `readUntil` behind the call of `GetInfo`. -/
def clampedUntil (fileSize : Option UInt64) (readUntil : UInt64) : UInt64 :=
  match fileSize with
  | some size => if size < readUntil then size else if readUntil < 1 then size else readUntil
  | none => readUntil

/-- The loop and what is left behind it. -/
def readLoop (reader : BFileReader) (file : List UInt8) (answers : Nat → ReadAnswer)
    (readUntil chunkToRead : UInt64) (blob : Store) (fuel : Nat) : Outcome CFault ReadEnd :=
  whileLoop (readBody file answers readUntil chunkToRead) fuel
    ⟨0, chunkToRead, reader.position, 0, blob, []⟩ >>= fun s =>
  .done (.returned ⟨kOperationOkay, some s.mBlob, s.szCnt, s.position⟩ s.writes)

/-- `BFileReader::ReadAll`; `outAddress` is the memory there, if it is not null. -/
def readAll (reader : BFileReader) (firmware : Firmware) (file : List UInt8)
    (answers : Nat → ReadAnswer) (readUntil chunkToRead : UInt64) (outAddress : Option Store)
    (fuel : Nat) : Outcome CFault ReadEnd :=
  match reader.mBlob with
  | some blob => readLoop reader file answers readUntil chunkToRead blob fuel
  | none =>
    let readUntil := clampedUntil firmware.fileSize readUntil
    match outAddress.or (firmware.allocatePool readUntil) with
    | some blob => readLoop reader file answers readUntil chunkToRead blob fuel
    | none => .done .stopped

/-! ## The law -/

/-- The part of a file that is asked for. -/
def wanted (fileSize readUntil : UInt64) : UInt64 := clampedUntil (some fileSize) readUntil

/-- What the firmware may answer to a request for `bufSize` bytes at a place of the file. -/
inductive Allowed (fileSize : Nat) (position : Nat) (bufSize : UInt64) : ReadAnswer → Prop
  | ok {size : UInt64} (hsize : size ≤ bufSize) (hfile : position + size.toNat ≤ fileSize)
      (hend : size = 0 → position = fileSize ∨ bufSize = 0) :
      Allowed fileSize position bufSize (.ok size)
  | failed {status size : UInt64} (hstatus : status ≠ 0) :
      Allowed fileSize position bufSize (.failed status size)

/-- The size that the `k`-th call asks for. -/
def requestAt (answers : Nat → ReadAnswer) (chunkToRead : UInt64) : Nat → UInt64
  | 0 => chunkToRead
  | k + 1 => if (answers k).status = kBufferTooSmall then chunkToRead else (answers k).bufSize

/-- The sum of the sizes that the first calls leave. -/
def offsetAt (answers : Nat → ReadAnswer) : Nat → UInt64
  | 0 => 0
  | k + 1 => offsetAt answers k + (answers k).bufSize

/-- The sum of the sizes that the calls that do not fail bring. -/
def positionAt (answers : Nat → ReadAnswer) : Nat → Nat
  | 0 => 0
  | k + 1 => positionAt answers k + (answers k).moved

/-- Each call that is made is answered as the interface of the firmware allows. -/
def FirmwareKeeps (answers : Nat → ReadAnswer) (fileSize readUntil chunkToRead : UInt64) : Prop :=
  ∀ k, (∀ j ≤ k, offsetAt answers j < readUntil) →
    Allowed fileSize.toNat (positionAt answers k) (requestAt answers chunkToRead k) (answers k)

/-- A reader that has opened a file. -/
def openedReader : BFileReader := ⟨kOperationOkay, none, 0, 0⟩

/-- `ReadAll` returns, has written into the bytes it has allocated, and has the part of the file
that is asked for: whatever the file holds and whatever stood in the pool. -/
def ReadsAll (infoGiven : Bool) (answers : Nat → ReadAnswer)
    (fileSize readUntil chunkToRead : UInt64) : Prop :=
  ∀ (file : List UInt8) (pool : Store), file.length = fileSize.toNat →
    ∃ reader writes blob,
      Yields (readAll openedReader
        ⟨if infoGiven then some fileSize else none, fun _ => some pool⟩ file answers readUntil
        chunkToRead none) (.returned reader writes) ∧
      reader.mBlob = some blob ∧ reader.mSizeFile = wanted fileSize readUntil ∧
      (∀ e ∈ writes, e.Inside ⟨0, (wanted fileSize readUntil).toNat⟩) ∧
      ∀ i < (wanted fileSize readUntil).toNat, blob i = file.getD i 0

/-! ## When it holds -/

/-- The bytes that are brought end where the part that is asked for does, and up to there each is
brought where it belongs. -/
structure ReadsRight (infoGiven : Bool) (answers : Nat → ReadAnswer)
    (fileSize readUntil : UInt64) (n : Nat) : Prop where
  clamped : clampedUntil (if infoGiven then some fileSize else none) readUntil =
    wanted fileSize readUntil
  goesOn : ∀ k < n, offsetAt answers k < wanted fileSize readUntil
  offset : offsetAt answers n = wanted fileSize readUntil
  position : positionAt answers n = (wanted fileSize readUntil).toNat
  inPlace : ∀ k < n, (answers k).moved ≠ 0 → (offsetAt answers k).toNat = positionAt answers k

/-! ## The states of the loop -/

variable {file : List UInt8} {answers : Nat → ReadAnswer} {pool : Store} {chunkToRead : UInt64}

/-- The state in which the loop calls for the `k`-th time. -/
def readState (file : List UInt8) (answers : Nat → ReadAnswer) (chunkToRead : UInt64)
    (pool : Store) : Nat → ReadState
  | 0 => ⟨0, chunkToRead, 0, 0, pool, []⟩
  | k + 1 => readPass file answers chunkToRead (readState file answers chunkToRead pool k)

theorem readState_calls (k : Nat) : (readState file answers chunkToRead pool k).calls = k := by
  cases k with
  | zero => rfl
  | succ k => exact congrArg (· + 1) (readState_calls k)

theorem readState_szCnt (k : Nat) :
    (readState file answers chunkToRead pool k).szCnt = offsetAt answers k := by
  induction k with
  | zero => rfl
  | succ k ih =>
    have hcalls := @readState_calls file answers pool chunkToRead k
    rw [offsetAt, ← ih, readState, readPass, hcalls]
    cases answers k <;> rfl

theorem readState_position (k : Nat) :
    (readState file answers chunkToRead pool k).position = positionAt answers k := by
  induction k with
  | zero => rfl
  | succ k ih =>
    have hcalls := @readState_calls file answers pool chunkToRead k
    rw [positionAt, ← ih, readState, readPass, hcalls]
    cases answers k <;> rfl

/-- What the `k`-th call writes. -/
def written (answers : Nat → ReadAnswer) (k : Nat) : Extent :=
  ⟨(offsetAt answers k).toNat, (answers k).moved⟩

/-- The writes stay in an extent if what each call brings does. -/
theorem readState_inside {k : Nat} {e : Extent} :
    (∀ w ∈ (readState file answers chunkToRead pool k).writes, w.Inside e) ↔
      ∀ j < k, (written answers j).Inside e := by
  induction k with
  | zero => simp [readState]
  | succ k ih =>
    have hcalls := @readState_calls file answers pool chunkToRead k
    have hoffset := @readState_szCnt file answers pool chunkToRead k
    rw [Nat.forall_lt_succ_right, ← ih, readState, readPass, hcalls, written, ← hoffset]
    cases answers k with
    | ok size => exact List.forall_mem_append.trans (and_congr_right' List.forall_mem_singleton)
    | failed status size =>
      have hempty : Extent.Inside ⟨(readState file answers chunkToRead pool k).szCnt.toNat, 0⟩ e :=
        fun x hx => absurd hx.2 (not_lt.mpr hx.1)
      exact (and_iff_left hempty).symm

/-- The `k`-th call writes at `x`. -/
def WritesAt (answers : Nat → ReadAnswer) (k x : Nat) : Prop :=
  (offsetAt answers k).toNat ≤ x ∧ x < (offsetAt answers k).toNat + (answers k).moved

instance (k x : Nat) : Decidable (WritesAt answers k x) := inferInstanceAs (Decidable (_ ∧ _))

/-- The place in the file of what the `k`-th call writes at `x`. -/
def placeAt (answers : Nat → ReadAnswer) (k x : Nat) : Nat :=
  positionAt answers k + (x - (offsetAt answers k).toNat)

theorem readState_mBlob (k x : Nat) :
    (readState file answers chunkToRead pool (k + 1)).mBlob x =
      if WritesAt answers k x then file.getD (placeAt answers k x) 0
      else (readState file answers chunkToRead pool k).mBlob x := by
  have hcalls := @readState_calls file answers pool chunkToRead k
  have hoffset := @readState_szCnt file answers pool chunkToRead k
  have hposition := @readState_position file answers pool chunkToRead k
  rw [readState, readPass, hcalls, placeAt, ← hoffset, ← hposition]
  have hwrites : WritesAt answers k x ↔
      (readState file answers chunkToRead pool k).szCnt.toNat ≤ x ∧
        x < (readState file answers chunkToRead pool k).szCnt.toNat + (answers k).moved := by
    rw [hoffset]
    rfl
  rw [if_congr hwrites rfl rfl]
  cases answers k with
  | ok size => rfl
  | failed status size => exact (if_neg fun h => absurd h.2 (not_lt.mpr h.1)).symm

/-- What stands at `x` is what the last call that writes there has brought. -/
theorem readState_last {k j x : Nat} (hj : j < k) (hw : WritesAt answers j x)
    (hlast : ∀ i, j < i → i < k → ¬ WritesAt answers i x) :
    (readState file answers chunkToRead pool k).mBlob x = file.getD (placeAt answers j x) 0 := by
  induction k, hj using Nat.le_induction with
  | base => rw [readState_mBlob, if_pos hw]
  | succ k hle ih =>
    rw [readState_mBlob, if_neg (hlast k hle (Nat.lt_succ_self k))]
    exact ih fun i hi hk => hlast i hi (Nat.lt_succ_of_lt hk)

theorem readState_untouched {k x : Nat} (h : ∀ i < k, ¬ WritesAt answers i x) :
    (readState file answers chunkToRead pool k).mBlob x = pool x := by
  induction k with
  | zero => rfl
  | succ k ih =>
    rw [readState_mBlob, if_neg (h k (Nat.lt_succ_self k))]
    exact ih fun i hi => h i (Nat.lt_succ_of_lt hi)

/-- No call, or a last one, writes at an address. -/
theorem last_or_none (answers : Nat → ReadAnswer) (k x : Nat) :
    (∀ i < k, ¬ WritesAt answers i x) ∨
      ∃ j < k, WritesAt answers j x ∧ ∀ i, j < i → i < k → ¬ WritesAt answers i x := by
  induction k with
  | zero => exact Or.inl fun i hi => absurd hi (Nat.not_lt_zero i)
  | succ k ih =>
    by_cases hk : WritesAt answers k x
    · exact Or.inr ⟨k, Nat.lt_succ_self k, hk, fun i hki hi => by omega⟩
    · rcases ih with hnone | ⟨j, hj, hw, hlast⟩
      · exact Or.inl (Nat.forall_lt_succ_right.mpr ⟨hnone, hk⟩)
      · refine Or.inr ⟨j, Nat.lt_succ_of_lt hj, hw, ?_⟩
        intro i hji hi
        rcases Nat.lt_succ_iff_lt_or_eq.mp hi with hi | rfl
        · exact hlast i hji hi
        · exact hk

/-! ## The whole loop -/

/-- `ReadAll` returns where the sums of the sizes reach the part that is read for the first
time. -/
theorem yields_readAll_iff {infoGiven : Bool} {fileSize readUntil : UInt64}
    {reader : BFileReader} {writes : List Extent} :
    Yields (readAll openedReader ⟨if infoGiven then some fileSize else none, fun _ => some pool⟩
        file answers readUntil chunkToRead none) (.returned reader writes) ↔
      ∃ n, (∀ k < n, offsetAt answers k <
          clampedUntil (if infoGiven then some fileSize else none) readUntil) ∧
        ¬ offsetAt answers n <
          clampedUntil (if infoGiven then some fileSize else none) readUntil ∧
        reader = ⟨kOperationOkay, some (readState file answers chunkToRead pool n).mBlob,
          offsetAt answers n, positionAt answers n⟩ ∧
        writes = (readState file answers chunkToRead pool n).writes := by
  set until' := clampedUntil (if infoGiven then some fileSize else none) readUntil with huntil
  have hall : ∀ fuel, readAll openedReader
      ⟨if infoGiven then some fileSize else none, fun _ => some pool⟩ file answers readUntil
      chunkToRead none fuel =
        readLoop openedReader file answers until' chunkToRead pool fuel := fun fuel => rfl
  have hbody : ∀ k, readBody file answers until' chunkToRead
      (readState file answers chunkToRead pool k) =
        .done (if offsetAt answers k < until' then
          .inl (readState file answers chunkToRead pool (k + 1))
        else .inr (readState file answers chunkToRead pool k)) := by
    intro k
    rw [readBody, readState_szCnt]
    rfl
  have hloop : ∀ s, Yields (fun fuel => whileLoop (readBody file answers until' chunkToRead) fuel
      (readState file answers chunkToRead pool 0)) s ↔
        ∃ n, (∀ k < n, offsetAt answers k < until') ∧ ¬ offsetAt answers n < until' ∧
          s = readState file answers chunkToRead pool n := by
    intro s
    apply yields_whileLoop_along_iff
    · intro k hk
      rw [hbody, if_pos hk]
    · intro k hk
      rw [hbody, if_neg hk]
  constructor
  · intro h
    rcases h with ⟨fuel, h⟩
    rw [hall, readLoop, bind_eq_done] at h
    obtain ⟨s, hs, h⟩ := h
    obtain ⟨n, hgo, hstop, rfl⟩ := (hloop s).mp ⟨fuel, hs⟩
    rw [readState_szCnt, readState_position] at h
    cases h
    exact ⟨n, hgo, hstop, rfl, rfl⟩
  · intro h
    rcases h with ⟨n, hgo, hstop, rfl, rfl⟩
    obtain ⟨fuel, hs⟩ := (hloop _).mpr ⟨n, hgo, hstop, rfl⟩
    refine ⟨fuel, ?_⟩
    rw [hall, readLoop, bind_eq_done]
    refine ⟨_, hs, ?_⟩
    rw [readState_szCnt, readState_position]

/-! ## What is brought -/

theorem positionAt_mono (answers : Nat → ReadAnswer) : Monotone (positionAt answers) :=
  monotone_nat_of_le_succ fun _ => Nat.le_add_right _ _

/-- Calls that bring a byte of the file at one place are one call. -/
theorem writesAt_unique {i j x y : Nat} (hi : WritesAt answers i x) (hj : WritesAt answers j y)
    (h : placeAt answers i x = placeAt answers j y) : i = j := by
  have hmono := positionAt_mono answers
  have hnext : ∀ k, positionAt answers (k + 1) = positionAt answers k + (answers k).moved :=
    fun _ => rfl
  have hinext := hnext i
  have hjnext := hnext j
  unfold WritesAt at hi hj
  unfold placeAt at h
  rcases Nat.lt_trichotomy i j with hlt | heq | hgt
  · have hle := hmono (Nat.succ_le_of_lt hlt)
    simp only [Nat.succ_eq_add_one] at hle
    omega
  · exact heq
  · have hle := hmono (Nat.succ_le_of_lt hgt)
    simp only [Nat.succ_eq_add_one] at hle
    omega

/-- A blob that has the part of every file at its start was brought byte by byte. -/
theorem brought_of_reads {n limit : Nat} {fileSize : Nat} (hle : limit ≤ fileSize)
    (h : ∀ (file : List UInt8) (pool : Store), file.length = fileSize → ∀ i < limit,
      (readState file answers chunkToRead pool n).mBlob i = file.getD i 0) {i : Nat}
    (hi : i < limit) :
    ∃ j < n, WritesAt answers j i ∧ placeAt answers j i = i ∧
      ∀ k, j < k → k < n → ¬ WritesAt answers k i := by
  rcases last_or_none answers n i with hnone | ⟨j, hj, hw, hlast⟩
  · have hzero := h (List.replicate fileSize 0) (fun _ => 1) List.length_replicate i hi
    rw [readState_untouched hnone, List.getD_replicate 0 (by omega)] at hzero
    exact absurd hzero (by decide)
  · refine ⟨j, hj, hw, ?_, hlast⟩
    by_contra hne
    have hone := h ((List.replicate fileSize 0).set i 1) (fun _ => 0) (by simp) i hi
    rw [readState_last hj hw hlast] at hone
    have hat : ((List.replicate fileSize (0 : UInt8)).set i 1).getD i 0 = 1 := by
      simp [List.getD_eq_getElem?_getD, show i < fileSize by omega]
    have hother : ((List.replicate fileSize (0 : UInt8)).set i 1).getD (placeAt answers j i) 0 =
        0 := by
      rw [List.getD_eq_getElem?_getD, List.getElem?_set_ne (Ne.symm hne),
        ← List.getD_eq_getElem?_getD]
      simp
    rw [hat, hother] at hone
    exact absurd hone (by decide)

theorem offsetAt_eq_of_stop {until' : UInt64} {n n' : Nat}
    (h : (∀ k < n, offsetAt answers k < until') ∧ ¬ offsetAt answers n < until')
    (h' : (∀ k < n', offsetAt answers k < until') ∧ ¬ offsetAt answers n' < until') : n = n' := by
  rcases Nat.lt_trichotomy n n' with hlt | heq | hgt
  · exact absurd (h'.1 n hlt) h.2
  · exact heq
  · exact absurd (h.1 n' hgt) h'.2

theorem wanted_le (fileSize readUntil : UInt64) :
    (wanted fileSize readUntil).toNat ≤ fileSize.toNat := by
  simp only [wanted, clampedUntil, UInt64.lt_iff_toNat_lt]
  split
  · exact Nat.le_refl _
  · split
    · exact Nat.le_refl _
    · omega

/-- Where the loop ends at the part that is asked for, it was told of it. -/
theorem clampedUntil_of_ends {infoGiven : Bool} {fileSize readUntil : UInt64} {n : Nat}
    (hgo : ∀ k < n, offsetAt answers k <
      clampedUntil (if infoGiven then some fileSize else none) readUntil)
    (hstop : ¬ offsetAt answers n <
      clampedUntil (if infoGiven then some fileSize else none) readUntil)
    (hsize : offsetAt answers n = wanted fileSize readUntil) :
    clampedUntil (if infoGiven then some fileSize else none) readUntil =
      wanted fileSize readUntil := by
  cases infoGiven with
  | true => rfl
  | false =>
    have hnone : clampedUntil (if false = true then some fileSize else none) readUntil =
        readUntil := rfl
    rw [hnone] at hgo hstop ⊢
    rw [hsize] at hstop
    unfold wanted clampedUntil at hstop hsize ⊢
    dsimp only at hstop hsize ⊢
    split at hstop
    next hlt => exact absurd hlt hstop
    next hge =>
    rw [if_neg hge] at hsize ⊢
    split
    next hone =>
      rw [if_pos hone] at hsize
      have hzero : readUntil = 0 := by
        rw [← UInt64.toNat_inj, UInt64.toNat_zero]
        rw [UInt64.lt_iff_toNat_lt, UInt64.toNat_one] at hone
        omega
      cases n with
      | zero => exact hzero.trans hsize
      | succ n =>
        have hfirst := hgo 0 (Nat.succ_pos n)
        rw [hzero, UInt64.lt_iff_toNat_lt, UInt64.toNat_zero] at hfirst
        exact absurd hfirst (Nat.not_lt_zero _)
    next => rfl

/-- The call that brings a byte of the file. -/
theorem exists_call {n i : Nat} (h : i < positionAt answers n) :
    ∃ j < n, positionAt answers j ≤ i ∧ i < positionAt answers (j + 1) := by
  induction n with
  | zero => exact absurd h (Nat.not_lt_zero i)
  | succ n ih =>
    rcases Nat.lt_or_ge i (positionAt answers n) with hlt | hge
    · obtain ⟨j, hj, hin⟩ := ih hlt
      exact ⟨j, Nat.lt_succ_of_lt hj, hin⟩
    · exact ⟨n, Nat.lt_succ_self n, hge, h⟩

theorem written_inside_iff {j limit : Nat} :
    (written answers j).Inside ⟨0, limit⟩ ↔ (answers j).moved = 0 ∨
      (offsetAt answers j).toNat + (answers j).moved ≤ limit := by
  rcases Nat.eq_zero_or_pos (answers j).moved with h0 | hpos
  · refine iff_of_true (fun x hx => ?_) (Or.inl h0)
    have hlt : x < (offsetAt answers j).toNat + (answers j).moved := hx.2
    have hge : (offsetAt answers j).toNat ≤ x := hx.1
    omega
  · rw [Extent.inside_iff hpos]
    dsimp only [written]
    omega

/-- Bytes that are all brought to their places are all there. -/
theorem ReadsRight.reads {infoGiven : Bool} {fileSize readUntil : UInt64} {n : Nat}
    (h : ReadsRight infoGiven answers fileSize readUntil n) {i : Nat}
    (hi : i < (wanted fileSize readUntil).toNat) :
    (readState file answers chunkToRead pool n).mBlob i = file.getD i 0 := by
  obtain ⟨j, hj, hle, hlt⟩ := exists_call (h.position ▸ hi)
  have hnext : positionAt answers (j + 1) = positionAt answers j + (answers j).moved := rfl
  have hplace := h.inPlace j hj (by omega)
  have hw : WritesAt answers j i := by
    unfold WritesAt
    omega
  have hat : placeAt answers j i = i := by
    unfold placeAt
    omega
  rw [readState_last hj hw, hat]
  intro k hjk hk hwk
  have hmono := positionAt_mono answers (Nat.succ_le_of_lt hjk)
  simp only [Nat.succ_eq_add_one] at hmono
  unfold WritesAt at hwk
  have hplace' := h.inPlace k hk (by omega)
  omega

theorem ReadsRight.inside {infoGiven : Bool} {fileSize readUntil : UInt64} {n : Nat}
    (h : ReadsRight infoGiven answers fileSize readUntil n) {j : Nat} (hj : j < n) :
    (written answers j).Inside ⟨0, (wanted fileSize readUntil).toNat⟩ := by
  rw [written_inside_iff]
  rcases Nat.eq_zero_or_pos (answers j).moved with h0 | hpos
  · exact Or.inl h0
  · have hplace := h.inPlace j hj (by omega)
    have hmono := positionAt_mono answers (Nat.succ_le_of_lt hj)
    have hnext : positionAt answers (j + 1) = positionAt answers j + (answers j).moved := rfl
    have hend := h.position
    simp only [Nat.succ_eq_add_one] at hmono
    omega

theorem ReadsRight.readsAll {infoGiven : Bool} {fileSize readUntil : UInt64} {n : Nat}
    (h : ReadsRight infoGiven answers fileSize readUntil n) (chunkToRead : UInt64) :
    ReadsAll infoGiven answers fileSize readUntil chunkToRead := by
  intro file pool _
  have hstop : ¬ offsetAt answers n < wanted fileSize readUntil := by
    rw [h.offset, UInt64.lt_iff_toNat_lt]
    exact Nat.lt_irrefl _
  refine ⟨_, _, _, yields_readAll_iff.mpr ⟨n, ?_, ?_, rfl, rfl⟩, rfl, h.offset, ?_, ?_⟩
  · rw [h.clamped]
    exact h.goesOn
  · rw [h.clamped]
    exact hstop
  · exact readState_inside.mpr fun j hj => h.inside hj
  · exact fun i hi => h.reads hi

/-- A call that moves bytes before the end puts them behind what was brought before, if every byte
is brought to its place and stays there. -/
private theorem inPlace_of_brought {limit n : Nat}
    (hbelow : ∀ k < n, (offsetAt answers k).toNat < limit)
    (hbrought : ∀ i < limit, ∃ j < n, WritesAt answers j i ∧ placeAt answers j i = i ∧
      ∀ k, j < k → k < n → ¬ WritesAt answers k i)
    {k : Nat} (hk : k < n) (hmoved : (answers k).moved ≠ 0) :
    (offsetAt answers k).toNat = positionAt answers k := by
  rcases Nat.lt_or_ge (positionAt answers k) limit with hin | hout
  · -- the first byte that the call brings belongs into the blob, and no other call brings it
    obtain ⟨j, _, hw, hat, _⟩ := hbrought (positionAt answers k) hin
    have hwk : WritesAt answers k (offsetAt answers k).toNat := by
      unfold WritesAt
      omega
    have hatk : placeAt answers k (offsetAt answers k).toNat = positionAt answers k := by
      rw [placeAt, Nat.sub_self, Nat.add_zero]
    obtain rfl := writesAt_unique hw hwk (hat.trans hatk.symm)
    unfold WritesAt at hw
    unfold placeAt at hat
    omega
  · -- the call overwrites a byte that was brought before
    have hlt := hbelow k hk
    obtain ⟨j, hj, hw, hat, hlast⟩ := hbrought (offsetAt answers k).toNat hlt
    have hjk : ¬ j < k := by
      intro hjk
      apply hlast k hjk hk
      unfold WritesAt
      omega
    have hmono := positionAt_mono answers (Nat.not_lt.mp hjk)
    unfold placeAt at hat
    omega

/-- Calls that stay below a limit and put their bytes one behind the other bring no more than it. -/
private theorem positionAt_le_of_inside {limit n : Nat}
    (hinside : ∀ j < n, (written answers j).Inside ⟨0, limit⟩)
    (hplace : ∀ k < n, (answers k).moved ≠ 0 → (offsetAt answers k).toNat = positionAt answers k)
    {k : Nat} (hk : k ≤ n) : positionAt answers k ≤ limit := by
  induction k with
  | zero => exact Nat.zero_le _
  | succ k ih =>
    have hprev := ih (by omega)
    have hnext : positionAt answers (k + 1) = positionAt answers k + (answers k).moved := rfl
    rcases written_inside_iff.mp (hinside k hk) with h0 | hle
    · rw [hnext, h0]
      exact hprev
    · rcases Nat.eq_zero_or_pos (answers k).moved with h0 | hpos
      · rw [hnext, h0]
        exact hprev
      · rw [hnext, ← hplace k hk hpos.ne']
        exact hle

/-- The converse: writes that stay in what was asked for and leave it there. -/
theorem readsRight_of_reads {infoGiven : Bool} {fileSize readUntil : UInt64} {n : Nat}
    (hclamped : clampedUntil (if infoGiven then some fileSize else none) readUntil =
      wanted fileSize readUntil)
    (hgo : ∀ k < n, offsetAt answers k < wanted fileSize readUntil)
    (hoffset : offsetAt answers n = wanted fileSize readUntil)
    (hinside : ∀ j < n, (written answers j).Inside ⟨0, (wanted fileSize readUntil).toNat⟩)
    (hbrought : ∀ i < (wanted fileSize readUntil).toNat, ∃ j < n, WritesAt answers j i ∧
      placeAt answers j i = i ∧ ∀ k, j < k → k < n → ¬ WritesAt answers k i) :
    ReadsRight infoGiven answers fileSize readUntil n := by
  have hplace : ∀ k < n, (answers k).moved ≠ 0 →
      (offsetAt answers k).toNat = positionAt answers k := by
    intro k hk hmoved
    exact inPlace_of_brought (fun k hk => UInt64.lt_iff_toNat_lt.mp (hgo k hk)) hbrought hk hmoved
  have hle := positionAt_le_of_inside hinside hplace (Nat.le_refl n)
  refine ⟨hclamped, hgo, hoffset, Nat.le_antisymm hle ?_, hplace⟩
  rcases Nat.eq_zero_or_pos (wanted fileSize readUntil).toNat with h0 | hpos
  · omega
  · obtain ⟨j, hj, hw, hat, _⟩ := hbrought ((wanted fileSize readUntil).toNat - 1) (by omega)
    have hmono := positionAt_mono answers (Nat.succ_le_of_lt hj)
    have hnext : positionAt answers (j + 1) = positionAt answers j + (answers j).moved := rfl
    unfold WritesAt at hw
    unfold placeAt at hat
    simp only [Nat.succ_eq_add_one] at hmono
    omega

/-- `ReadAll` reads what it is asked for exactly when the sizes that the calls leave add up
to it, each call that brings data brings them to their places, and none fails to. -/
theorem readsAll_iff (infoGiven : Bool) (answers : Nat → ReadAnswer)
    (fileSize readUntil chunkToRead : UInt64) :
    ReadsAll infoGiven answers fileSize readUntil chunkToRead ↔
      ∃ n, ReadsRight infoGiven answers fileSize readUntil n := by
  constructor
  · intro h
    obtain ⟨reader, writes, blob, hyields, _, hsize, _⟩ :=
      h (List.replicate fileSize.toNat 0) (fun _ => 0) List.length_replicate
    obtain ⟨n, hgo, hstop, rfl, _⟩ := yields_readAll_iff.mp hyields
    have hclamped := clampedUntil_of_ends hgo hstop hsize
    have hall : ∀ (file : List UInt8) (pool : Store), file.length = fileSize.toNat →
        (∀ j < n, (written answers j).Inside ⟨0, (wanted fileSize readUntil).toNat⟩) ∧
          ∀ i < (wanted fileSize readUntil).toNat,
            (readState file answers chunkToRead pool n).mBlob i = file.getD i 0 := by
      intro file pool hlen
      obtain ⟨reader, writes, blob, hyields, hblob, _, hin, hbytes⟩ := h file pool hlen
      obtain ⟨n', hgo', hstop', rfl, rfl⟩ := yields_readAll_iff.mp hyields
      obtain rfl := offsetAt_eq_of_stop ⟨hgo, hstop⟩ ⟨hgo', hstop'⟩
      obtain rfl := Option.some.inj hblob
      exact ⟨readState_inside.mp hin, hbytes⟩
    rw [hclamped] at hgo
    refine ⟨n, readsRight_of_reads hclamped hgo hsize ?_ ?_⟩
    · exact (hall (List.replicate fileSize.toNat 0) (fun _ => 0) List.length_replicate).1
    · intro i hi
      exact brought_of_reads (wanted_le fileSize readUntil)
        (fun file pool hlen => (hall file pool hlen).2) hi
  · intro h
    rcases h with ⟨n, h⟩
    exact h.readsAll chunkToRead

/-! ## Files that are read whole -/

/-- Up to the end of the file, calls that do not fail bring the bytes to their places and ask for
more. -/
theorem reading_whole {fileSize : UInt64} (hchunk : chunkToRead ≠ 0)
    (hkeeps : FirmwareKeeps answers fileSize fileSize chunkToRead)
    (hok : ∀ k, ∃ size, answers k = .ok size) {n : Nat}
    (hgo : ∀ k < n, offsetAt answers k < fileSize) :
    (offsetAt answers n).toNat = positionAt answers n ∧ positionAt answers n ≤ fileSize.toNat ∧
      requestAt answers chunkToRead n ≠ 0 ∧ n ≤ positionAt answers n := by
  induction n with
  | zero => exact ⟨rfl, Nat.zero_le _, hchunk, Nat.le_refl _⟩
  | succ n ih =>
    obtain ⟨hplace, _, hrequest, hcount⟩ := ih fun k hk => hgo k (Nat.lt_succ_of_lt hk)
    have hn := UInt64.lt_iff_toNat_lt.mp (hgo n (Nat.lt_succ_self n))
    have hanswer := hkeeps n fun j hj => hgo j (Nat.lt_succ_of_le hj)
    obtain ⟨size, hsize⟩ := hok n
    rw [hsize] at hanswer
    cases hanswer with
    | ok _ hfile hend =>
      have hpos : size ≠ 0 := by
        intro h0
        rcases hend h0 with h | h
        · omega
        · exact hrequest h
      have hpos' : 0 < size.toNat := Nat.pos_of_ne_zero fun h => hpos (UInt64.toNat_inj.mp h)
      have hmoved : positionAt answers (n + 1) = positionAt answers n + size.toNat := by
        rw [positionAt, hsize]
        rfl
      have hlimit := fileSize.toNat_lt
      refine ⟨?_, by omega, ?_, by omega⟩
      · rw [offsetAt, hsize, UInt64.toNat_add, hmoved, ← hplace]
        exact Nat.mod_eq_of_lt (by dsimp only [ReadAnswer.bufSize]; omega)
      · rw [requestAt, hsize, if_neg (by dsimp only [ReadAnswer.status]; decide)]
        exact hpos

/-- Without a call that fails, a file is read whole whatever sizes the calls bring. -/
theorem readsAll_whole {fileSize : UInt64} (hchunk : chunkToRead ≠ 0)
    (hkeeps : FirmwareKeeps answers fileSize fileSize chunkToRead)
    (hok : ∀ k, ∃ size, answers k = .ok size) :
    ReadsAll true answers fileSize fileSize chunkToRead := by
  have hwanted : wanted fileSize fileSize = fileSize := by
    have hself : ¬ fileSize < fileSize := UInt64.lt_irrefl fileSize
    simp [wanted, clampedUntil, hself]
  have hends : ∃ n, ¬ offsetAt answers n < fileSize := by
    by_contra hall
    push Not at hall
    obtain ⟨_, hle, _, hcount⟩ :=
      @reading_whole _ _ fileSize hchunk hkeeps hok (fileSize.toNat + 1) fun k _ => hall k
    omega
  have hgo : ∀ k < Nat.find hends, offsetAt answers k < fileSize := fun k hk =>
    not_not.mp (Nat.find_min hends hk)
  have hstop := Nat.find_spec hends
  rw [UInt64.lt_iff_toNat_lt] at hstop
  obtain ⟨hplace, hle, _, _⟩ := reading_whole hchunk hkeeps hok hgo
  refine ReadsRight.readsAll (n := Nat.find hends) ⟨rfl, ?_, ?_, ?_, ?_⟩ chunkToRead
  · rw [hwanted]
    exact hgo
  · rw [hwanted, ← UInt64.toNat_inj]
    omega
  · rw [hwanted]
    omega
  · intro k hk _
    exact (reading_whole hchunk hkeeps hok fun j hj => hgo j (by omega)).1

/-- A file of four bytes, of which three are asked for in chunks of two: the second call
brings two, and the last of them stands behind the three bytes allocated. -/
theorem readsAll_pastEnd :
    FirmwareKeeps (fun _ => .ok 2) 4 3 2 ∧ ¬ ReadsAll true (fun _ => .ok 2) 4 3 2 := by
  refine ⟨?_, ?_⟩
  · intro k hk
    have hlt : k < 2 := by
      by_contra hge
      exact absurd (hk 2 (by omega)) (by decide)
    interval_cases k
    · exact .ok (by decide) (by decide) (fun h => absurd h (by decide))
    · exact .ok (by decide) (by decide) (fun h => absurd h (by decide))
  · intro h
    obtain ⟨reader, writes, blob, hyields, _, hsize, _⟩ := h [0, 0, 0, 0] (fun _ => 0) rfl
    obtain ⟨n, hgo, hstop, rfl, _⟩ := yields_readAll_iff.mp hyields
    obtain rfl : n = 2 := offsetAt_eq_of_stop ⟨hgo, hstop⟩ ⟨by decide, by decide⟩
    exact absurd hsize (by decide)

end Zka.BootKit
