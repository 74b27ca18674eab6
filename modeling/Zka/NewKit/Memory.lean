import Zka.Framework.Blocks
import Zka.Framework.Outcome

/-!
# Memory primitives

`rt_set_memory`, which stores a word of four bytes for every byte it is asked
for, `rt_copy_memory`, which copies byte by byte, and the C functions that the
kernel builds from them.
-/

namespace Zka.NewKit

/-- The memory after so many passes of the loop of `rt_set_memory`. -/
def setWords (m : Store) (start : UInt64) (value : UInt32) : Nat → Store
  | 0 => m
  | i + 1 => (setWords m start value i).put Layout.u32 (start + 4 * UInt64.ofNat i).toNat value

def rtSetMemory (m : Store) (src : UInt64) (value : UInt32) (len : UInt64) : UInt64 × Store :=
  if src = 0 ∨ len < 1 then (0, m) else (src + 4 * len, setWords m src value len.toNat)

/-- The range of `n` bytes from `p` on ends inside the address space. -/
def InSpace (p : UInt64) (n : Nat) : Prop := p.toNat + n ≤ 2 ^ 64

instance (p : UInt64) (n : Nat) : Decidable (InSpace p n) := inferInstanceAs (Decidable (_ ≤ _))

/-- A pointer that runs past the end of the address space is undefined. -/
def rtCopyMemory (m : Store) (src dst : UInt64) (len : UInt64) : Outcome CFault (Int32 × Store) :=
  if len < 1 then .done (0, m)
  else if InSpace src len.toNat ∧ InSpace dst len.toNat then
    .done (len.toUInt32.toInt32, Store.copyElements 1 m dst.toNat src.toNat len.toNat)
  else .fault .indexOutOfRange

def memset (m : Store) (dst : UInt64) (c : Int32) (len : UInt64) : UInt64 × Store :=
  rtSetMemory m dst c.toUInt32 len

def memcpy (m : Store) (dst src : UInt64) (len : UInt64) : Outcome CFault (UInt64 × Store) :=
  rtCopyMemory m src dst len >>= fun r => .done (dst, r.2)

/-! ## What the loop of words changes -/

def wordExtents (start : UInt64) (n : Nat) : List Extent :=
  (List.range n).map fun i => ⟨(start + 4 * UInt64.ofNat i).toNat, 4⟩

open Store

theorem setWords_only (m : Store) (start : UInt64) (value : UInt32) (n : Nat) :
    ChangesOnly (wordExtents start n) m (setWords m start value n) := by
  induction n with
  | zero => exact ChangesOnly.refl m
  | succ n ih =>
    have hput := ChangesOnly.put Layout.u32 (setWords m start value n)
      (start + 4 * UInt64.ofNat n).toNat value
    rw [wordExtents, List.range_succ, List.map_append]
    exact ih.trans hput

theorem rtSetMemory_only (m : Store) (src : UInt64) (value : UInt32) (len : UInt64) :
    ChangesOnly (wordExtents src len.toNat) m (rtSetMemory m src value len).2 := by
  unfold rtSetMemory
  split
  · exact (ChangesOnly.refl m).mono (by simp)
  · exact setWords_only m src value len.toNat

variable {m : Store} {start : UInt64} {value : UInt32} {n : Nat}

theorem setWords_outside {x : Nat}
    (h : ∀ i < n, ¬ ((start + 4 * UInt64.ofNat i).toNat ≤ x ∧
      x < (start + 4 * UInt64.ofNat i).toNat + 4)) :
    setWords m start value n x = m x := by
  apply setWords_only m start value n
  intro e he
  obtain ⟨i, hi, rfl⟩ := List.mem_map.mp he
  exact h i (List.mem_range.mp hi)

/-- Words that end inside the address space are one range. -/
theorem setWords_range (h : InSpace start (4 * n)) {x : Nat}
    (hx : ¬ (start.toNat ≤ x ∧ x < start.toNat + 4 * n)) : setWords m start value n x = m x := by
  unfold InSpace at h
  apply setWords_outside
  intro i hi hin
  have h4 : (4 : UInt64).toNat = 4 := rfl
  simp only [UInt64.toNat_add, UInt64.toNat_mul, UInt64.toNat_ofNat', h4] at hin
  omega

/-- Two words are the same or apart, also where the addresses wrap around. -/
private theorem words_apart (start : UInt64) (i j : Nat) :
    (start + 4 * UInt64.ofNat i).toNat = (start + 4 * UInt64.ofNat j).toNat ∨
      (start + 4 * UInt64.ofNat i).toNat + 4 ≤ (start + 4 * UInt64.ofNat j).toNat ∨
      (start + 4 * UInt64.ofNat j).toNat + 4 ≤ (start + 4 * UInt64.ofNat i).toNat := by
  have h4 : (4 : UInt64).toNat = 4 := rfl
  simp only [UInt64.toNat_add, UInt64.toNat_mul, UInt64.toNat_ofNat', h4]
  omega

theorem setWords_inside {i : Nat} (hi : i < n) (c : Fin 4) :
    setWords m start value n ((start + 4 * UInt64.ofNat i).toNat + c) = Layout.u32 value c := by
  induction n with
  | zero => omega
  | succ n ih =>
    rcases words_apart start i n with heq | hap
    · rw [heq]
      exact write_inside _ _ _ c
    · have hin : i < n := by
        rcases Nat.lt_or_ge i n with h | h
        · exact h
        · obtain rfl : i = n := by omega
          omega
      have hout : (start + 4 * UInt64.ofNat i).toNat + c < (start + 4 * UInt64.ofNat n).toNat ∨
          (start + 4 * UInt64.ofNat n).toNat + 4 ≤ (start + 4 * UInt64.ofNat i).toNat + c := by
        omega
      exact (put_outside Layout.u32 _ value hout).trans (ih hin)

/-- What the words put into the range is the low byte of `value`, and what they put elsewhere is
what stands there. -/
structure WordsFill (m : Store) (start : UInt64) (value : UInt32) (n : Nat) : Prop where
  inside : ∀ c : Fin 4, c < n → Layout.u32 value c = value.toUInt8
  behind : ∀ x, ¬ (start.toNat ≤ x ∧ x < start.toNat + n) → ∀ i < n, ∀ c : Fin 4,
    x = (start + 4 * UInt64.ofNat i).toNat + c → m x = Layout.u32 value c

/-- The words begin with the bytes that are to be filled. -/
private theorem word_of_inside (h : InSpace start n) {x : Nat}
    (hx : start.toNat ≤ x ∧ x < start.toNat + n) :
    ∃ i < n, ∃ c : Fin 4, x = (start + 4 * UInt64.ofNat i).toNat + c := by
  unfold InSpace at h
  refine ⟨(x - start.toNat) / 4, by omega, ⟨(x - start.toNat) % 4, by omega⟩, ?_⟩
  have h4 : (4 : UInt64).toNat = 4 := rfl
  simp only [UInt64.toNat_add, UInt64.toNat_mul, UInt64.toNat_ofNat', h4]
  omega

theorem setWords_zero (h : InSpace start n) {x : Nat}
    (hx : start.toNat ≤ x ∧ x < start.toNat + n) : setWords m start 0 n x = 0 := by
  obtain ⟨i, hi, c, rfl⟩ := word_of_inside h hx
  rw [setWords_inside hi c, Layout.u32_zero]

/-- A byte of a word in the range is one of the first `n` of `value`. -/
private theorem inside_of_word {i : Nat} {c : Fin 4}
    (hx : start.toNat ≤ (start + 4 * UInt64.ofNat i).toNat + c ∧
      (start + 4 * UInt64.ofNat i).toNat + c < start.toNat + n) : c < n := by
  have h4 : (4 : UInt64).toNat = 4 := rfl
  simp only [UInt64.toNat_add, UInt64.toNat_mul, UInt64.toNat_ofNat', h4] at hx
  omega

/-- Zeros are set in zeroed memory, however wide the words are. -/
theorem wordsFill_zero : WordsFill (fun _ => 0) start 0 n := by
  constructor
  · intro c _
    rw [Layout.u32_zero]
    rfl
  · intro x _ i _ c _
    rw [Layout.u32_zero]

theorem setWords_eq_fill_iff (h : InSpace start n) :
    setWords m start value n = m.fill start.toNat n value.toUInt8 ↔
      WordsFill m start value n := by
  constructor
  · intro heq
    constructor
    · intro c hc
      have hword := @setWords_inside m start value n 0 (by omega) c
      have hstart : start + 4 * UInt64.ofNat 0 = start := UInt64.add_zero start
      rwa [hstart, heq, fill_inside (by omega), eq_comm] at hword
    · intro x hx i hi c hcover
      rw [← setWords_inside hi c, ← hcover, heq, fill_outside hx]
  · intro hfill
    funext x
    by_cases hx : ∃ i < n, ∃ c : Fin 4, x = (start + 4 * UInt64.ofNat i).toNat + c
    · obtain ⟨i, hi, c, rfl⟩ := hx
      rw [setWords_inside hi c]
      by_cases hin : start.toNat ≤ (start + 4 * UInt64.ofNat i).toNat + c ∧
          (start + 4 * UInt64.ofNat i).toNat + c < start.toNat + n
      · rw [fill_inside hin]
        exact hfill.inside c (inside_of_word hin)
      · rw [fill_outside hin]
        exact (hfill.behind _ hin i hi c rfl).symm
    · have hout : ¬ (start.toNat ≤ x ∧ x < start.toNat + n) := mt (word_of_inside h) hx
      rw [fill_outside hout]
      apply setWords_outside
      intro i hi hin
      exact hx ⟨i, hi, ⟨x - (start + 4 * UInt64.ofNat i).toNat, by omega⟩, by
        dsimp only
        omega⟩

/-- One byte is asked for, and the one behind it changes too. -/
theorem setWords_overruns : setWords (fun _ => 1) 0x1000 0 1 ≠ fill (fun _ => 1) 0x1000 1 0 := by
  intro h
  have hbyte := congrFun h 0x1001
  have hword := @setWords_inside (fun _ => 1) 0x1000 0 _ _ Nat.one_pos 1
  rw [Layout.u32_zero] at hword
  rw [show setWords (fun _ => 1) 0x1000 0 1 0x1001 = 0 from hword] at hbyte
  exact absurd hbyte (by decide)

/-! ## The kernel's functions -/

private theorem lt_one_iff {len : UInt64} : len < 1 ↔ len = 0 := by
  rw [UInt64.lt_iff_toNat_lt, UInt64.toNat_one, Nat.lt_one_iff, ← UInt64.toNat_inj]
  rfl

theorem rtSetMemory_exact_iff {len : UInt64} (hp : start ≠ 0) (h : InSpace start len.toNat) :
    (rtSetMemory m start value len).2 = m.fill start.toNat len.toNat value.toUInt8 ↔
      WordsFill m start value len.toNat := by
  rw [← setWords_eq_fill_iff h, rtSetMemory]
  by_cases hlen : len < 1
  · have h0 : len.toNat = 0 := congrArg UInt64.toNat (lt_one_iff.mp hlen)
    rw [if_pos (Or.inr hlen), h0]
    rfl
  · rw [if_neg (not_or.mpr ⟨hp, hlen⟩)]

/-- `memset` returns the end of the words it stored, or null. -/
theorem memset_returns_iff {c : Int32} {len : UInt64} (hp : start ≠ 0) :
    (memset m start c len).1 = start ↔ len ≠ 0 ∧ 4 * len = 0 := by
  rw [memset, rtSetMemory]
  by_cases h0 : len = 0
  · rw [if_pos (Or.inr (lt_one_iff.mpr h0))]
    exact iff_of_false (Ne.symm hp) (fun h => h.1 h0)
  · rw [if_neg (not_or.mpr ⟨hp, mt lt_one_iff.mp h0⟩)]
    exact ⟨fun h => ⟨h0, UInt64.add_eq_left.mp h⟩, fun h => UInt64.add_eq_left.mpr h.2⟩

theorem memcpy_exact {dst src len : UInt64} (hs : InSpace src len.toNat)
    (hd : InSpace dst len.toNat)
    (hap : src.toNat + len.toNat ≤ dst.toNat ∨ dst.toNat + len.toNat ≤ src.toNat) :
    memcpy m dst src len = .done (dst, m.copy dst.toNat src.toNat len.toNat) := by
  rw [memcpy, rtCopyMemory, ← copyElements_bytes hap]
  by_cases hlen : len < 1
  · have h0 : len.toNat = 0 := congrArg UInt64.toNat (lt_one_iff.mp hlen)
    rw [if_pos hlen, h0]
    rfl
  · rw [if_neg hlen, if_pos ⟨hs, hd⟩]
    rfl

end Zka.NewKit
