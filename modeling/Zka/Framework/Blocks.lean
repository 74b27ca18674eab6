import Zka.Framework.Frame

/-!
# Filling and copying

What it is to fill a range of bytes or to copy one, and the loop that copies it
element by element.  Where an element is wider than a byte and the loop still
counts bytes, it runs past the range.
-/

namespace Zka.Store

variable {s : Store} {a dst src n w : Nat}

/-- The `n` bytes from `a` on become `v`. -/
def fill (s : Store) (a n : Nat) (v : UInt8) : Store := fun x =>
  if a ≤ x ∧ x < a + n then v else s x

/-- The `n` bytes from `dst` on become the ones from `src` on. -/
def copy (s : Store) (dst src n : Nat) : Store := fun x =>
  if dst ≤ x ∧ x < dst + n then s (src + (x - dst)) else s x

theorem fill_inside {v : UInt8} {x : Nat} (h : a ≤ x ∧ x < a + n) : s.fill a n v x = v :=
  if_pos h

theorem fill_outside {v : UInt8} {x : Nat} (h : ¬ (a ≤ x ∧ x < a + n)) : s.fill a n v x = s x :=
  if_neg h

theorem copy_inside {i : Nat} (h : i < n) : s.copy dst src n (dst + i) = s (src + i) := by
  rw [copy, if_pos ⟨by omega, by omega⟩, Nat.add_sub_cancel_left]

theorem copy_outside {x : Nat} (h : ¬ (dst ≤ x ∧ x < dst + n)) : s.copy dst src n x = s x :=
  if_neg h

/-- The addresses of `n` elements, as their numbers and the bytes of each. -/
private theorem exists_element {x : Nat} (h : a ≤ x ∧ x < a + w * n) :
    ∃ k < n, ∃ c : Fin w, x = a + w * k + c := by
  have hw : 0 < w := Nat.pos_of_ne_zero fun hw => by simp [hw] at h; omega
  have hdiv : w * ((x - a) / w) + (x - a) % w = x - a := Nat.div_add_mod (x - a) w
  refine ⟨(x - a) / w, ?_, ⟨(x - a) % w, Nat.mod_lt _ hw⟩, ?_⟩
  · exact Nat.div_lt_of_lt_mul (by omega)
  · dsimp only
    omega

/-- So many passes of a loop that copies elements of `w` bytes. -/
def copyElements (w : Nat) (s : Store) (dst src : Nat) : Nat → Store
  | 0 => s
  | i + 1 =>
    let before := copyElements w s dst src i
    before.write (dst + w * i) (before.read (src + w * i) w)

theorem copyElements_succ (w : Nat) (s : Store) (dst src i : Nat) :
    copyElements w s dst src (i + 1) =
      (copyElements w s dst src i).write (dst + w * i)
        ((copyElements w s dst src i).read (src + w * i) w) := rfl

theorem copyElements_outside {x : Nat} (h : x < dst ∨ dst + w * n ≤ x) :
    copyElements w s dst src n x = s x := by
  induction n with
  | zero => rfl
  | succ n ih =>
    rw [Nat.mul_succ] at h
    rw [copyElements_succ, write_outside _ _ (by omega)]
    exact ih (by omega)

/-- A pass leaves what the passes before it wrote. -/
theorem copyElements_below {i : Nat} (hi : i ≤ n) {x : Nat} (hx : x < dst + w * i) :
    copyElements w s dst src n x = copyElements w s dst src i x := by
  induction n, hi using Nat.le_induction with
  | base => rfl
  | succ n hle ih =>
    have hmul : w * i ≤ w * n := Nat.mul_le_mul_left w hle
    rw [copyElements_succ, write_outside _ _ (by omega)]
    exact ih

/-- What pass `i` reads is what stands there in the end. -/
theorem copyElements_inside {i c : Nat} (hi : i < n) (hc : c < w) :
    copyElements w s dst src n (dst + w * i + c) =
      copyElements w s dst src i (src + w * i + c) := by
  have hmul : w * (i + 1) = w * i + w := Nat.mul_succ w i
  rw [copyElements_below (i := i + 1) hi (by omega), copyElements_succ]
  exact write_inside _ (dst + w * i) _ ⟨c, hc⟩

/-- Copying what already stands there changes nothing, also where the two ranges overlap. -/
theorem copyElements_same (h : ∀ i < n, s.read (src + w * i) w = s.read (dst + w * i) w) :
    copyElements w s dst src n = s := by
  induction n with
  | zero => rfl
  | succ n ih =>
    rw [copyElements_succ, ih fun i hi => h i (Nat.lt_succ_of_lt hi), h n (Nat.lt_succ_self n)]
    funext x
    by_cases hx : dst + w * n ≤ x ∧ x < dst + w * n + w
    · rw [write, dif_pos hx, read]
      congr 1
      exact Nat.add_sub_cancel' hx.1
    · rw [write, dif_neg hx]

/-- The byte that pass `i` finds at `x`, if the passes before it wrote what they should. -/
def foundAt (w : Nat) (s : Store) (dst src n i x : Nat) : UInt8 :=
  if dst ≤ x ∧ x < dst + w * i then s.copy dst src n x else s x

/-- The bytes that the loop moves behind the range are what stands there already. -/
def RestKept (w : Nat) (s : Store) (dst src n : Nat) : Prop :=
  ∀ i < n, ∀ c < w, n ≤ w * i + c →
    foundAt w s dst src n i (src + w * i + c) = s (dst + w * i + c)

private theorem copyElements_found {i x : Nat}
    (h : ∀ y, dst ≤ y → y < dst + w * i → copyElements w s dst src i y = s.copy dst src n y) :
    copyElements w s dst src i x = foundAt w s dst src n i x := by
  unfold foundAt
  split
  next hin => exact h x hin.1 hin.2
  next hout => exact copyElements_outside (by omega)

/-- Between disjoint ranges of `n` bytes, `n` passes copy exactly these bytes when what they
move behind the range changes nothing. -/
theorem copyElements_eq_copy_iff (hw : 1 ≤ w) (hap : src + n ≤ dst ∨ dst + n ≤ src) :
    copyElements w s dst src n = s.copy dst src n ↔ RestKept w s dst src n := by
  constructor
  · intro h i hi c hc hn
    have hkept : copyElements w s dst src i (src + w * i + c) =
        foundAt w s dst src n i (src + w * i + c) := by
      apply copyElements_found
      intro y _ hy
      rw [← copyElements_below hi.le hy, h]
    rw [← hkept, ← copyElements_inside hi hc, h]
    exact copy_outside (by omega)
  · intro h
    -- after `i` passes the bytes they wrote are what the copy has there
    have hrun : ∀ i ≤ n, ∀ y, dst ≤ y → y < dst + w * i →
        copyElements w s dst src i y = s.copy dst src n y := by
      intro i
      induction i with
      | zero =>
        intro _ y hle hlt
        omega
      | succ i ih =>
        intro hi y hle hlt
        have hmul : w * (i + 1) = w * i + w := Nat.mul_succ w i
        have hbefore := ih (Nat.le_of_succ_le hi)
        rcases Nat.lt_or_ge y (dst + w * i) with hold | hnew
        · rw [copyElements_below (Nat.le_succ i) hold]
          exact hbefore y hle hold
        obtain ⟨c, rfl⟩ := Nat.exists_eq_add_of_le hnew
        have hc : c < w := by omega
        rw [copyElements_inside (Nat.lt_succ_self i) hc, copyElements_found hbefore]
        rcases Nat.lt_or_ge (w * i + c) n with hin | hout
        · have hsrc : ¬ (dst ≤ src + w * i + c ∧ src + w * i + c < dst + n) := by omega
          rw [Nat.add_assoc dst, copy_inside hin, ← Nat.add_assoc]
          unfold foundAt
          split
          · exact copy_outside hsrc
          · rfl
        · rw [h i hi c hc hout]
          exact (copy_outside (by omega)).symm
    funext y
    by_cases hin : dst ≤ y ∧ y < dst + w * n
    · exact hrun n le_rfl y hin.1 hin.2
    · have hle : n ≤ w * n := Nat.le_mul_of_pos_left n hw
      rw [copyElements_outside (by omega)]
      exact (copy_outside (by omega)).symm

/-- Between disjoint ranges of `n` elements, `n` passes copy all of them. -/
theorem copyElements_all (hap : src + w * n ≤ dst ∨ dst + w * n ≤ src) :
    copyElements w s dst src n = s.copy dst src (w * n) := by
  funext y
  by_cases hin : dst ≤ y ∧ y < dst + w * n
  · obtain ⟨i, hi, c, rfl⟩ := exists_element hin
    have hmul : w * (i + 1) ≤ w * n := Nat.mul_le_mul_left w hi
    rw [Nat.mul_succ] at hmul
    rw [copyElements_inside hi c.isLt, copyElements_outside (by omega), Nat.add_assoc dst,
      copy_inside (by omega), Nat.add_assoc]
  · rw [copyElements_outside (by omega)]
    exact (copy_outside hin).symm

/-- A loop over bytes copies exactly the range. -/
theorem copyElements_bytes (hap : src + n ≤ dst ∨ dst + n ≤ src) :
    copyElements 1 s dst src n = s.copy dst src n := by
  apply (copyElements_eq_copy_iff le_rfl hap).mpr
  intro i hi c hc hn
  omega

/-! ## Elements of one value -/

/-- The `n` elements of `w` bytes from `a` on become `b`. -/
def fillElements (s : Store) (a n : Nat) (b : Bytes w) : Store := fun x =>
  if h : a ≤ x ∧ x < a + w * n then
    b ⟨(x - a) % w, Nat.mod_lt _ (Nat.pos_of_ne_zero fun hw => by simp [hw] at h; omega)⟩
  else s x

variable {b : Bytes w}

theorem fillElements_outside {x : Nat} (h : ¬ (a ≤ x ∧ x < a + w * n)) :
    s.fillElements a n b x = s x := dif_neg h

theorem fillElements_inside {k : Nat} (hk : k < n) (c : Fin w) :
    s.fillElements a n b (a + w * k + c) = b c := by
  have hmul : w * (k + 1) ≤ w * n := Nat.mul_le_mul_left w hk
  rw [Nat.mul_succ] at hmul
  rw [fillElements, dif_pos ⟨by omega, by omega⟩]
  congr 1
  ext
  change (a + w * k + c - a) % w = c
  rw [Nat.add_assoc, Nat.add_sub_cancel_left, Nat.mul_add_mod, Nat.mod_eq_of_lt c.isLt]

theorem fillElements_zero : s.fillElements a 0 b = s := by
  funext x
  exact fillElements_outside (by omega)

/-- Elements behind the filled ones are what they were. -/
theorem read_fillElements {k : Nat} (hk : n ≤ k) :
    (s.fillElements a n b).read (a + w * k) w = s.read (a + w * k) w := by
  funext c
  have hmul : w * n ≤ w * k := Nat.mul_le_mul_left w hk
  exact fillElements_outside (by omega)

theorem fillElements_succ :
    s.fillElements a (n + 1) b = (s.fillElements a n b).write (a + w * n) b := by
  funext x
  have hmul : w * (n + 1) = w * n + w := Nat.mul_succ w n
  by_cases hin : a ≤ x ∧ x < a + w * (n + 1)
  · obtain ⟨k, hk, c, rfl⟩ := exists_element hin
    rw [fillElements_inside hk]
    rcases Nat.lt_succ_iff_lt_or_eq.mp hk with hlt | rfl
    · have hbelow : w * (k + 1) ≤ w * n := Nat.mul_le_mul_left w hlt
      rw [Nat.mul_succ] at hbelow
      rw [write_outside _ _ (by omega), fillElements_inside hlt]
    · exact (write_inside _ (a + w * k) b c).symm
  · rw [fillElements_outside hin, write_outside _ _ (by omega), fillElements_outside (by omega)]

/-- Filling fewer elements is enough when the others have the value already. -/
theorem fillElements_eq_iff {z : Nat} (hz : z ≤ n) :
    s.fillElements a z b = s.fillElements a n b ↔
      ∀ k, z ≤ k → k < n → s.read (a + w * k) w = b := by
  constructor
  · intro h k hzk hkn
    rw [← read_fillElements (b := b) hzk, h]
    funext c
    exact fillElements_inside hkn c
  · intro h
    funext x
    have hmul : w * z ≤ w * n := Nat.mul_le_mul_left w hz
    by_cases hin : a ≤ x ∧ x < a + w * n
    · obtain ⟨k, hk, c, rfl⟩ := exists_element hin
      rw [fillElements_inside hk]
      rcases Nat.lt_or_ge k z with hlt | hge
      · exact fillElements_inside hlt c
      · have hread := congrFun (read_fillElements (s := s) (a := a) (b := b) hge) c
        rw [h k hge hk] at hread
        exact hread
    · rw [fillElements_outside hin, fillElements_outside (by omega)]

end Zka.Store
