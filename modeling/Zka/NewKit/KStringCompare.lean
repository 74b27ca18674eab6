import Zka.NewKit.KString

/-!
# Comparison operators

Each `==` and each `!=` is a loop of its own that returns false at the first place it refuses.
The one refuses places where the operands differ and the other places where they agree, and both
refuse operands of different lengths.
-/

namespace Zka.NewKit

/-- The loop over `rounds` indices from `index` on. -/
def passes (refuses : Nat → Bool) (index : Nat) : Nat → Bool
  | 0 => true
  | rounds + 1 => if refuses index then false else passes refuses (index + 1) rounds

theorem passes_iff (refuses : Nat → Bool) (index rounds : Nat) :
    passes refuses index rounds = true ↔ ∀ i < rounds, refuses (index + i) = false := by
  induction rounds generalizing index with
  | zero => simp [passes]
  | succ rounds ih =>
    rw [passes]
    by_cases hstop : refuses index = true
    · rw [if_pos hstop]
      apply iff_of_false Bool.false_ne_true
      intro hall
      have hfirst := hall 0 (Nat.succ_pos rounds)
      rw [Nat.add_zero, hstop] at hfirst
      cases hfirst
    · rw [if_neg hstop, ih]
      constructor
      · intro hall i hi
        cases i with
        | zero => simpa using hstop
        | succ i =>
          rw [← Nat.succ_add_eq_add_succ]
          exact hall i (by omega)
      · intro hall i hi
        rw [Nat.succ_add_eq_add_succ]
        exact hall (i + 1) (by omega)

section Bytes

/-- Two operands have the same byte at every place, or at none. -/
def AllOrNone (lhs rhs : Nat → UInt8) (n : Nat) : Prop :=
  (∀ i < n, lhs i = rhs i) ∨ ∀ i < n, lhs i ≠ rhs i

variable (lhs rhs : Nat → UInt8) (n : Nat)

theorem passes_eq_iff :
    passes (fun index => rhs index != lhs index) 0 n = true ↔ ∀ i < n, lhs i = rhs i := by
  rw [passes_iff]
  simp only [Nat.zero_add, bne_eq_false_iff_eq]
  exact forall₂_congr fun i _ => eq_comm

theorem passes_ne_iff :
    passes (fun index => rhs index == lhs index) 0 n = true ↔ ∀ i < n, lhs i ≠ rhs i := by
  rw [passes_iff]
  simp only [Nat.zero_add, beq_eq_false_iff_ne]
  exact forall₂_congr fun i _ => ne_comm

/-- The loops of `!=` and `==` answer the opposite exactly if there is something to compare, and
the operands agree everywhere or nowhere. -/
theorem passes_negation_iff :
    (passes (fun index => rhs index == lhs index) 0 n =
      !passes (fun index => rhs index != lhs index) 0 n) ↔ n ≠ 0 ∧ AllOrNone lhs rhs n := by
  rw [Bool.eq_not_iff, Ne, Bool.eq_iff_iff, passes_ne_iff, passes_eq_iff, AllOrNone]
  constructor
  · intro h
    have hn : n ≠ 0 := by
      rintro rfl
      exact h (iff_of_true (by omega) (by omega))
    by_cases hsame : ∀ i < n, lhs i = rhs i
    · exact ⟨hn, Or.inl hsame⟩
    · by_cases hdiffer : ∀ i < n, lhs i ≠ rhs i
      · exact ⟨hn, Or.inr hdiffer⟩
      · exact absurd (iff_of_false hdiffer hsame) h
  · intro h hiff
    obtain ⟨hn, hsame | hdiffer⟩ := h
    · exact hiff.mpr hsame 0 (Nat.pos_of_ne_zero hn) (hsame 0 (Nat.pos_of_ne_zero hn))
    · exact hdiffer 0 (Nat.pos_of_ne_zero hn) (hiff.mp hdiffer 0 (Nat.pos_of_ne_zero hn))

end Bytes

namespace KString

variable (m : Store) (k : KString)

def length : Nat := k.fDataSz.toNat

/-- The character `fData[index]`. -/
def charAt (index : Nat) : UInt8 := m (k.fData.toNat + index)

/-- `==` with a `KString`. -/
def eqString (rhs : KString) : Bool :=
  if rhs.length ≠ k.length then false
  else passes (fun index => rhs.charAt m index != k.charAt m index) 0 k.length

/-- `==` with a character pointer. -/
def eqChars (rhs : List UInt8) : Bool :=
  if rtStringLen rhs ≠ k.length then false
  else passes (fun index => rhs.getD index 0 != k.charAt m index) 0 (rtStringLen rhs)

/-- `!=` with a `KString`. -/
def neString (rhs : KString) : Bool :=
  if rhs.length ≠ k.length then false
  else passes (fun index => rhs.charAt m index == k.charAt m index) 0 rhs.length

/-- `!=` with a character pointer. -/
def neChars (rhs : List UInt8) : Bool :=
  if rtStringLen rhs ≠ k.length then false
  else passes (fun index => rhs.getD index 0 == k.charAt m index) 0 (rtStringLen rhs)

theorem neString_negation_iff (rhs : KString) :
    (k.neString m rhs = !k.eqString m rhs) ↔
      rhs.length = k.length ∧ k.length ≠ 0 ∧ AllOrNone (k.charAt m) (rhs.charAt m) k.length := by
  rw [neString, eqString]
  by_cases hlen : rhs.length = k.length
  · rw [if_neg (not_not_intro hlen), if_neg (not_not_intro hlen), hlen, passes_negation_iff]
    exact (and_iff_right rfl).symm
  · rw [if_pos hlen, if_pos hlen]
    exact iff_of_false (by decide) fun h => hlen h.1

theorem neChars_negation_iff (rhs : List UInt8) :
    (k.neChars m rhs = !k.eqChars m rhs) ↔
      rtStringLen rhs = k.length ∧
        AllOrNone (k.charAt m) (fun i => rhs.getD i 0) (rtStringLen rhs) := by
  rw [neChars, eqChars]
  by_cases hlen : rtStringLen rhs = k.length
  · rw [if_neg (not_not_intro hlen), if_neg (not_not_intro hlen)]
    rw [passes_negation_iff (k.charAt m) (fun i => rhs.getD i 0)]
    rw [and_iff_right (Nat.ne_of_gt (rtStringLen_pos rhs)), and_iff_right hlen]
  · rw [if_pos hlen, if_pos hlen]
    exact iff_of_false (by decide) fun h => hlen h.1

end KString

end Zka.NewKit
