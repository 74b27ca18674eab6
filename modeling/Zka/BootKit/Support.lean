import Zka.NewKit.Memory

/-!
# The boot loader's C functions

`memset` and `memcpy` move a whole `int` for each byte they are asked for, and both
overloads of `BSetMem` end at the first zero they find.
-/

namespace Zka.BootKit

open NewKit Outcome Store

abbrev SizeT := UInt64

/-- The loop stores `int`s; a pointer that runs past the end of the address space is undefined. -/
def memset (m : Store) (dst : UInt64) (byte : Int32) (len : SizeT) :
    Outcome CFault (UInt64 × Store) :=
  if InSpace dst (4 * len.toNat) then .done (dst, setWords m dst byte.toUInt32 len.toNat)
  else .fault .indexOutOfRange

def memcpy (m : Store) (dst src : UInt64) (len : SizeT) : Outcome CFault (UInt64 × Store) :=
  if InSpace dst (4 * len.toNat) ∧ InSpace src (4 * len.toNat) then
    .done (dst, copyElements 4 m dst.toNat src.toNat len.toNat)
  else .fault .indexOutOfRange

/-! ## `BSetMem` -/

section SetMem

variable {α : Type} {w : Nat} (layout : Layout α w)

/-- The character `k` places behind `src`. -/
def charAt (m : Store) (src : UInt64) (k : Nat) : α := get layout m (src.toNat + w * k)

theorem charAt_eq_iff {m : Store} {src : UInt64} {k : Nat} {c : α} :
    charAt layout m src k = c ↔ m.read (src.toNat + w * k) w = layout c :=
  layout.symm_apply_eq

variable [DecidableEq α] [Zero α]

/-- One pass of the loop, from the number of characters written and the memory. -/
def setMemBody (src : UInt64) (byte : α) (len : SizeT) (s : SizeT × Store) :
    Outcome CFault ((SizeT × Store) ⊕ (SizeT × Store)) :=
  let (cnt, m) := s
  if ¬ InSpace src (w * (cnt.toNat + 1)) then .fault .indexOutOfRange
  else if charAt layout m src cnt.toNat = 0 then .done (.inr s)
  else if len < cnt then .done (.inr s)
  else .done (.inl (cnt + 1, m.put layout (src.toNat + w * cnt.toNat) byte))

/-- Both overloads, for a character of `w` bytes: the count that is returned and the memory. -/
def bSetMem (fuel : Nat) (m : Store) (src : UInt64) (byte : α) (len : SizeT) :
    Outcome CFault (SizeT × Store) :=
  if src = 0 then .done (0, m) else whileLoop (setMemBody layout src byte len) fuel (0, m)

theorem bSetMem_mono (m : Store) (src : UInt64) (byte : α) (len : SizeT) :
    Monotone fun fuel => bSetMem layout fuel m src byte len := by
  intro i j h
  dsimp only [bSetMem]
  split
  · exact le_refl _
  · exact whileLoop_mono _ _ h

end SetMem

/-! ## `strcmp` -/

/-- `return len;` from a `SizeT` to an `int`. -/
def intOfLength (len : Nat) : Int32 := (UInt64.ofNat len).toUInt32.toInt32

/-- The loop, `len` characters behind the start; the end of a list reads as the terminator. -/
def strcmpLoop : List UInt8 → List UInt8 → Nat → Int32
  | [], right, len => if right.headD 0 = 0 then 0 else intOfLength len
  | c :: left, right, len =>
    if c = right.headD 0 then if c = 0 then 0 else strcmpLoop left right.tail (len + 1)
    else intOfLength len

/-- The result is the length of the common start, not a difference. -/
def strcmp (whatToCheck : Option (List UInt8)) (whatToCheckRight : List UInt8) : Int32 :=
  match whatToCheck with
  | none => 0
  | some left => if left.headD 0 = 0 then 0 else strcmpLoop left whatToCheckRight 0

/-- The length of the longest common start. -/
def commonLength : List UInt8 → List UInt8 → Nat
  | c :: left, d :: right => if c = d then commonLength left right + 1 else 0
  | _, _ => 0

theorem strcmpLoop_text {a b : List UInt8} (ha : 0 ∉ a) (hb : 0 ∉ b) (len : Nat) :
    strcmpLoop a b len =
      if a = b then 0 else intOfLength (len + commonLength a b) := by
  induction a generalizing b len with
  | nil =>
    cases b with
    | nil => rfl
    | cons d b =>
      have hd : d ≠ 0 := fun h => hb (h ▸ List.mem_cons_self)
      simp [strcmpLoop, commonLength, hd]
  | cons c a ih =>
    have hc : c ≠ 0 := fun h => ha (h ▸ List.mem_cons_self)
    cases b with
    | nil => simp [strcmpLoop, commonLength, hc]
    | cons d b =>
      by_cases hcd : c = d
      · subst hcd
        have htail := ih (b := b) (fun h => ha (List.mem_cons_of_mem c h))
          (fun h => hb (List.mem_cons_of_mem c h)) (len + 1)
        simp only [strcmpLoop, List.headD_cons, List.tail_cons, if_true, if_neg hc, htail,
          List.cons.injEq, true_and, commonLength]
        rw [Nat.add_right_comm, Nat.add_assoc]
      · simp [strcmpLoop, commonLength, hcd]

theorem intOfLength_eq_zero (k : Nat) : intOfLength k = 0 ↔ k % 2 ^ 32 = 0 := by
  rw [intOfLength]
  have h : (UInt64.ofNat k).toUInt32.toNat = k % 2 ^ 32 := by
    simp
  rw [← h]
  constructor
  · intro h0
    exact congrArg (fun x => x.toUInt32.toNat) h0
  · intro h0
    have h1 : (UInt64.ofNat k).toUInt32 = 0 := UInt32.toNat_inj.mp h0
    rw [h1]
    rfl

theorem strcmp_eq_zero_iff {a b : List UInt8} (ha : 0 ∉ a) (hb : 0 ∉ b) :
    strcmp (some a) b = 0 ↔ a = [] ∨ a = b ∨ commonLength a b % 2 ^ 32 = 0 := by
  cases a with
  | nil => simp [strcmp]
  | cons c a =>
    have hc : c ≠ 0 := fun h => ha (h ▸ List.mem_cons_self)
    rw [strcmp, List.headD_cons, if_neg hc, strcmpLoop_text ha hb, Nat.zero_add]
    by_cases heq : c :: a = b
    · simp [heq]
    · simp [heq, intOfLength_eq_zero]
/-! ## What `memset` and `memcpy` change -/

section

variable {m : Store} {n : SizeT}

theorem memset_exact_iff {dst : UInt64} {byte : Int32} (h : InSpace dst n.toNat) :
    memset m dst byte n = .done (dst, m.fill dst.toNat n.toNat byte.toUInt32.toUInt8) ↔
      InSpace dst (4 * n.toNat) ∧ WordsFill m dst byte.toUInt32 n.toNat := by
  rw [memset, ← setWords_eq_fill_iff h]
  by_cases hin : InSpace dst (4 * n.toNat)
  · simp [hin]
  · simp [hin]

theorem memcpy_exact_iff {dst src : UInt64}
    (hap : src.toNat + n.toNat ≤ dst.toNat ∨ dst.toNat + n.toNat ≤ src.toNat) :
    memcpy m dst src n = .done (dst, m.copy dst.toNat src.toNat n.toNat) ↔
      (InSpace dst (4 * n.toNat) ∧ InSpace src (4 * n.toNat)) ∧
        RestKept 4 m dst.toNat src.toNat n.toNat := by
  rw [memcpy, ← copyElements_eq_copy_iff (by decide) hap]
  by_cases hin : InSpace dst (4 * n.toNat) ∧ InSpace src (4 * n.toNat)
  · simp [hin]
  · simp [hin]

end

/-! ## What `BSetMem` changes -/

section SetMem

variable {α : Type} {w : Nat} [DecidableEq α] [Zero α] {layout : Layout α w} {m : Store}
  {src : UInt64} {byte : α} {n : SizeT}

/-- Exactly the `n` characters at `src` are set, however many are counted. -/
def SetsExactly (layout : Layout α w) (m : Store) (src : UInt64) (byte : α) (n : SizeT) : Prop :=
  ∃ cnt, Yields (fun fuel => bSetMem layout fuel m src byte n)
    (cnt, m.fillElements src.toNat n.toNat (layout byte))

/-- The first `z` characters are not zero. -/
def NoZeroBefore (layout : Layout α w) (m : Store) (src : UInt64) (z : Nat) : Prop :=
  ∀ k < z, charAt layout m src k ≠ 0

/-- The characters from `z` on have the value. -/
def SetFrom (layout : Layout α w) (m : Store) (src : UInt64) (byte : α) (n : SizeT) (z : Nat) :
    Prop :=
  ∀ k, z ≤ k → k < n.toNat → charAt layout m src k = byte

/-- No character is zero, and the one behind them is, or has the value (the loop sets it too);
or from the first zero on all characters have the value, so that it is zero. -/
def SetMemFits (layout : Layout α w) (m : Store) (src : UInt64) (byte : α) (n : SizeT) : Prop :=
  if src = 0 then SetFrom layout m src byte n 0
  else
    (NoZeroBefore layout m src n.toNat ∧ InSpace src (w * (n.toNat + 1)) ∧
      (charAt layout m src n.toNat = 0 ∨
        charAt layout m src n.toNat = byte ∧ InSpace src (w * (n.toNat + 2)))) ∨
    ∃ z < n.toNat, NoZeroBefore layout m src z ∧ charAt layout m src z = 0 ∧
      SetFrom layout m src byte n z

/-- The state of the loop after `k` passes. -/
def setMemState (layout : Layout α w) (m : Store) (src : UInt64) (byte : α) (k : Nat) :
    SizeT × Store :=
  (UInt64.ofNat k, m.fillElements src.toNat k (layout byte))

omit [DecidableEq α] [Zero α] in
private theorem setFrom_iff {z : Nat} (hz : z ≤ n.toNat) :
    SetFrom layout m src byte n z ↔
      m.fillElements src.toNat z (layout byte) =
        m.fillElements src.toNat n.toNat (layout byte) := by
  rw [fillElements_eq_iff hz]
  simp only [SetFrom, charAt_eq_iff]

private theorem place_lt (hw : 1 ≤ w) {k : Nat} (h : InSpace src (w * (k + 1))) : k < 2 ^ 64 := by
  unfold InSpace at h
  have hle : k + 1 ≤ w * (k + 1) := Nat.le_mul_of_pos_left _ hw
  omega

private theorem inSpace_mono {i j : Nat} (hij : i ≤ j) (h : InSpace src (w * j)) :
    InSpace src (w * i) := by
  unfold InSpace at h ⊢
  have hle : w * i ≤ w * j := Nat.mul_le_mul_left w hij
  omega

/-- What a pass looks at has not been written yet. -/
private theorem setMemBody_at {k : Nat} (hk : k < 2 ^ 64) :
    setMemBody layout src byte n (setMemState layout m src byte k) =
      if ¬ InSpace src (w * (k + 1)) then .fault .indexOutOfRange
      else if charAt layout m src k = 0 then .done (.inr (setMemState layout m src byte k))
      else if n.toNat < k then .done (.inr (setMemState layout m src byte k))
      else .done (.inl (setMemState layout m src byte (k + 1))) := by
  have hcnt : (UInt64.ofNat k).toNat = k := UInt64.toNat_ofNat_of_lt' hk
  have hchar : charAt layout (m.fillElements src.toNat k (layout byte)) src k =
      charAt layout m src k := by
    rw [charAt_eq_iff, read_fillElements le_rfl]
    exact (charAt_eq_iff layout).mp rfl
  have hlt : n < UInt64.ofNat k ↔ n.toNat < k := by
    rw [UInt64.lt_iff_toNat_lt, hcnt]
  have hnext : UInt64.ofNat k + 1 = UInt64.ofNat (k + 1) := (UInt64.ofNat_add k 1).symm
  simp only [setMemBody, setMemState, hcnt, hchar, hlt, hnext, put, fillElements_succ]

private theorem setMem_along (hw : 1 ≤ w) (hsrc : src ≠ 0) {z : Nat} (hz : z ≤ n.toNat + 1)
    (hin : InSpace src (w * z)) (hne : NoZeroBefore layout m src z) (fuel : Nat) :
    bSetMem layout (z + fuel) m src byte n =
      whileLoop (setMemBody layout src byte n) fuel (setMemState layout m src byte z) := by
  have hstart : ((0 : SizeT), m) = setMemState layout m src byte 0 := by
    rw [setMemState, fillElements_zero]
    rfl
  rw [bSetMem, if_neg hsrc, hstart]
  apply whileLoop_along (f := setMemState layout m src byte) (Nat.zero_le z)
  intro k _ hk
  have hspace : InSpace src (w * (k + 1)) := inSpace_mono hk hin
  rw [setMemBody_at (place_lt hw hspace), if_neg (not_not.mpr hspace), if_neg (hne k hk),
    if_neg (by omega)]

private theorem setsExactly_of_yields {z : Nat}
    (h : Yields (fun fuel => bSetMem layout fuel m src byte n) (setMemState layout m src byte z)) :
    SetsExactly layout m src byte n ↔
      m.fillElements src.toNat z (layout byte) =
        m.fillElements src.toNat n.toNat (layout byte) := by
  constructor
  · intro h
    rcases h with ⟨cnt, hy⟩
    exact congrArg Prod.snd (h.unique (bSetMem_mono layout m src byte n) hy)
  · intro heq
    exact ⟨UInt64.ofNat z, heq ▸ h⟩

/-- The loop leaves at the first zero, or behind the character after the last. -/
private theorem setMem_yields (hw : 1 ≤ w) (hsrc : src ≠ 0) {z : Nat} (hz : z ≤ n.toNat + 1)
    (hin : InSpace src (w * (z + 1))) (hne : NoZeroBefore layout m src z)
    (hend : charAt layout m src z = 0 ∨ n.toNat < z) :
    Yields (fun fuel => bSetMem layout fuel m src byte n) (setMemState layout m src byte z) := by
  have hbody : setMemBody layout src byte n (setMemState layout m src byte z) =
      .done (.inr (setMemState layout m src byte z)) := by
    rw [setMemBody_at (place_lt hw hin), if_neg (not_not.mpr hin)]
    rcases hend with hzero | hlt
    · rw [if_pos hzero]
    · rw [if_pos hlt, ite_self]
  refine .intro (z + 1) ?_
  rw [setMem_along hw hsrc hz (inSpace_mono (Nat.le_succ z) hin) hne]
  exact whileLoop_exit hbody 0

/-- The loop reads past the end of the address space. -/
private theorem setMem_faults (hw : 1 ≤ w) (hsrc : src ≠ 0) {z : Nat} (hz : z ≤ n.toNat + 1)
    (hlt : z < 2 ^ 64) (hin : InSpace src (w * z)) (hout : ¬ InSpace src (w * (z + 1)))
    (hne : NoZeroBefore layout m src z) : ¬ SetsExactly layout m src byte n := by
  have hbody : setMemBody layout src byte n (setMemState layout m src byte z) =
      .fault .indexOutOfRange := by
    rw [setMemBody_at hlt, if_pos hout]
  have hfault : bSetMem layout (z + 1) m src byte n = .fault .indexOutOfRange := by
    rw [setMem_along hw hsrc hz hin hne]
    exact whileLoop_fault hbody 0
  intro h
  rcases h with ⟨cnt, hy⟩
  exact Yields.not_of_fault (bSetMem_mono layout m src byte n) hfault hy

private theorem setsExactly_null :
    SetsExactly layout m 0 byte n ↔ SetFrom layout m 0 byte n 0 := by
  have hy : Yields (fun fuel => bSetMem layout fuel m 0 byte n) (setMemState layout m 0 byte 0) :=
    .intro 0 (by rw [bSetMem, if_pos rfl, setMemState, fillElements_zero]; rfl)
  rw [setsExactly_of_yields hy, setFrom_iff (Nat.zero_le _)]

private theorem setsExactly_of_zero (hw : 1 ≤ w) (hsrc : src ≠ 0) {z : Nat} (hz : z < n.toNat)
    (h : InSpace src (w * n.toNat)) (hne : NoZeroBefore layout m src z)
    (h0 : charAt layout m src z = 0) :
    SetsExactly layout m src byte n ↔ SetFrom layout m src byte n z := by
  have hy : Yields (fun fuel => bSetMem layout fuel m src byte n)
      (setMemState layout m src byte z) :=
    setMem_yields hw hsrc (by omega) (inSpace_mono hz h) hne (Or.inl h0)
  rw [setsExactly_of_yields hy, setFrom_iff hz.le]

/-- Without a zero the loop looks at the character behind, and sets it unless it is zero. -/
private theorem setsExactly_of_noZero (hw : 1 ≤ w) (hsrc : src ≠ 0) (h : InSpace src (w * n.toNat))
    (hne : NoZeroBefore layout m src n.toNat) :
    SetsExactly layout m src byte n ↔
      InSpace src (w * (n.toNat + 1)) ∧ (charAt layout m src n.toNat = 0 ∨
        charAt layout m src n.toNat = byte ∧ InSpace src (w * (n.toNat + 2))) := by
  by_cases hin : InSpace src (w * (n.toNat + 1))
  swap
  · have hfault : ¬ SetsExactly layout m src byte n :=
      setMem_faults hw hsrc (Nat.le_succ _) n.toNat_lt h hin hne
    exact iff_of_false hfault (fun hc => hin hc.1)
  rw [and_iff_right hin]
  by_cases hend : charAt layout m src n.toNat = 0
  · have hy : Yields (fun fuel => bSetMem layout fuel m src byte n)
        (setMemState layout m src byte n.toNat) :=
      setMem_yields hw hsrc (Nat.le_succ _) hin hne (Or.inl hend)
    exact iff_of_true ((setsExactly_of_yields hy).mpr rfl) (Or.inl hend)
  rw [or_iff_right hend]
  have hne' : NoZeroBefore layout m src (n.toNat + 1) := by
    intro k hk
    rcases Nat.lt_succ_iff_lt_or_eq.mp hk with hlt | rfl
    · exact hne k hlt
    · exact hend
  by_cases hin' : InSpace src (w * (n.toNat + 2))
  swap
  · have hlt : n.toNat + 1 < 2 ^ 64 := by
      have hpos : 0 < src.toNat := Nat.pos_of_ne_zero fun h0 => hsrc (UInt64.toNat_inj.mp h0)
      have hle : n.toNat + 1 ≤ w * (n.toNat + 1) := Nat.le_mul_of_pos_left _ hw
      unfold InSpace at hin
      omega
    have hfault : ¬ SetsExactly layout m src byte n :=
      setMem_faults hw hsrc le_rfl hlt hin hin' hne'
    exact iff_of_false hfault (fun hc => hin' hc.2)
  have hy : Yields (fun fuel => bSetMem layout fuel m src byte n)
      (setMemState layout m src byte (n.toNat + 1)) :=
    setMem_yields hw hsrc le_rfl hin' hne' (Or.inr (Nat.lt_succ_self _))
  rw [setsExactly_of_yields hy, and_iff_left hin', eq_comm, fillElements_eq_iff (Nat.le_succ _),
    charAt_eq_iff]
  constructor
  · exact fun hall => hall n.toNat le_rfl (Nat.lt_succ_self _)
  · intro hbyte k hk hlt
    obtain rfl : k = n.toNat := by omega
    exact hbyte

omit [DecidableEq α] in
/-- There is a first zero, or none. -/
private theorem noZero_or_first (z : Nat) : NoZeroBefore layout m src z ∨
    ∃ k < z, NoZeroBefore layout m src k ∧ charAt layout m src k = 0 := by
  induction z with
  | zero => exact Or.inl fun k hk => absurd hk (Nat.not_lt_zero k)
  | succ z ih =>
    rcases ih with hne | ⟨k, hk, hfirst⟩
    · by_cases h0 : charAt layout m src z = 0
      · exact Or.inr ⟨z, Nat.lt_succ_self z, hne, h0⟩
      · refine Or.inl fun k hk => ?_
        rcases Nat.lt_succ_iff_lt_or_eq.mp hk with hlt | rfl
        · exact hne k hlt
        · exact h0
    · exact Or.inr ⟨k, Nat.lt_succ_of_lt hk, hfirst⟩

omit [DecidableEq α] in
private theorem first_unique {y z : Nat} (hy : NoZeroBefore layout m src y)
    (hy0 : charAt layout m src y = 0) (hz : NoZeroBefore layout m src z)
    (hz0 : charAt layout m src z = 0) : y = z := by
  rcases Nat.lt_trichotomy y z with hlt | heq | hlt
  · exact absurd hy0 (hz y hlt)
  · exact heq
  · exact absurd hz0 (hy z hlt)

theorem bSetMem_exact_iff (hw : 1 ≤ w) (h : InSpace src (w * n.toNat)) :
    SetsExactly layout m src byte n ↔ SetMemFits layout m src byte n := by
  unfold SetMemFits
  split
  next hsrc =>
    subst hsrc
    exact setsExactly_null
  next hsrc =>
    rcases @noZero_or_first _ _ _ layout m src n.toNat with
      hne | ⟨z, hz, hne, h0⟩
    · have hno : ¬ ∃ z < n.toNat, NoZeroBefore layout m src z ∧ charAt layout m src z = 0 ∧
          SetFrom layout m src byte n z := by
        intro h
        rcases h with ⟨z, hz, _, h0, _⟩
        exact hne z hz h0
      rw [setsExactly_of_noZero hw hsrc h hne, or_iff_left hno, and_iff_right hne]
    · rw [setsExactly_of_zero hw hsrc hz h hne h0]
      constructor
      · exact fun hset => Or.inr ⟨z, hz, hne, h0, hset⟩
      · intro h
        rcases h with ⟨hne', _⟩ | ⟨y, _, hne', h0', hset⟩
        · exact absurd h0 (hne' z hz)
        · exact first_unique hne' h0' hne h0 ▸ hset

end SetMem

/-! ## The functions together -/

/-- What `memset`, `memcpy` and both overloads of `BSetMem` do. -/
theorem bootMemory_iff (m : Store) {dst src wide : UInt64} {n : SizeT} (byte : Int32) (c : UInt8)
    (c16 : UInt16) (hdst : InSpace dst n.toNat) (hwide : InSpace wide (2 * n.toNat))
    (hap : src.toNat + n.toNat ≤ dst.toNat ∨ dst.toNat + n.toNat ≤ src.toNat) :
    (memset m dst byte n = .done (dst, m.fill dst.toNat n.toNat byte.toUInt32.toUInt8) ↔
        InSpace dst (4 * n.toNat) ∧ WordsFill m dst byte.toUInt32 n.toNat) ∧
      (memcpy m dst src n = .done (dst, m.copy dst.toNat src.toNat n.toNat) ↔
        (InSpace dst (4 * n.toNat) ∧ InSpace src (4 * n.toNat)) ∧
          RestKept 4 m dst.toNat src.toNat n.toNat) ∧
      (SetsExactly Layout.u8 m dst c n ↔ SetMemFits Layout.u8 m dst c n) ∧
      (SetsExactly Layout.u16 m wide c16 n ↔ SetMemFits Layout.u16 m wide c16 n) := by
  have hdst1 : InSpace dst (1 * n.toNat) := by rwa [Nat.one_mul]
  exact ⟨memset_exact_iff hdst, memcpy_exact_iff hap, bSetMem_exact_iff le_rfl hdst1,
    bSetMem_exact_iff (by decide) hwide⟩

theorem bootMemory_zeroed :
    memset (fun _ => 0) 0x1000 0 4 = .done (0x1000, fill (fun _ => 0) 0x1000 4 0) ∧
      memcpy (fun _ => 0) 0x1000 0x2000 4 = .done (0x1000, copy (fun _ => 0) 0x1000 0x2000 4) ∧
      ¬ SetsExactly Layout.u8 (fun _ => 0) 0x1000 65 4 ∧
      ¬ SetsExactly Layout.u16 (fun _ => 0) 0x3000 65 4 := by
  obtain ⟨hset, hcopy, h8, h16⟩ := @bootMemory_iff (fun _ => 0) 0x1000 0x2000 0x3000 4
    0 65 65 (by decide) (by decide) (by decide)
  have h8zero : ∀ k, charAt Layout.u8 (fun _ => 0) 0x1000 k = 0 := fun _ => rfl
  have h16zero : ∀ k, charAt Layout.u16 (fun _ => 0) 0x3000 k = 0 := by
    intro k
    rw [charAt_eq_iff, Layout.u16_zero]
    rfl
  have hrest : RestKept 4 (fun _ => 0) 0x1000 0x2000 4 := by
    intro i _ c _ _
    rw [foundAt, copy]
    simp
  refine ⟨hset.mpr ⟨by decide, wordsFill_zero⟩, hcopy.mpr ⟨by decide, hrest⟩, ?_, ?_⟩
  · intro h
    have hfits := h8.mp h
    rw [SetMemFits, if_neg (by decide)] at hfits
    rcases hfits with ⟨hne, _⟩ | ⟨z, hz, _, h0, hset⟩
    · exact hne 0 (by decide) (h8zero 0)
    · exact absurd ((hset z le_rfl hz).symm.trans h0) (by decide)
  · intro h
    have hfits := h16.mp h
    rw [SetMemFits, if_neg (by decide)] at hfits
    rcases hfits with ⟨hne, _⟩ | ⟨z, hz, _, h0, hset⟩
    · exact hne 0 (by decide) (h16zero 0)
    · exact absurd ((hset z le_rfl hz).symm.trans h0) (by decide)

theorem memset_overruns :
    memset (fun _ => 1) 0x1000 0 1 ≠ .done (0x1000, fill (fun _ => 1) 0x1000 1 0) := by
  rw [memset, if_pos (by decide)]
  intro h
  exact setWords_overruns (Prod.mk.inj (Outcome.done.inj h)).2

end Zka.BootKit
