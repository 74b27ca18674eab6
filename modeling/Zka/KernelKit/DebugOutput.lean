import Zka.Framework.Outcome
import Zka.Framework.Words
import Zka.NewKit.Text

/-!
# Number writers

`number` and `hex_number` of the kernel and `BTextWriter::Write` of the boot loader, in builds with
`__DEBUG__`.  Each hands the quotient to itself and then writes the digit of the remainder.  They
work with the magnitude of a number, and none of them writes a sign.
-/

namespace Zka.KernelKit

open Outcome NewKit

inductive WriteFault where
  | signedOverflow
  | indexOutOfRange
  deriving DecidableEq, Repr

/-- `x > 0 ? x : -x`, where the overflow of a signed number is undefined. -/
def magnitude (x : Int64) : Outcome WriteFault Int64 :=
  if 0 < x then .done x
  else if x = Int64.minValue then .fault .signedOverflow
  else .done (-x)

def minus : UInt8 := 45

/-- What the writers differ in: the base, the digits that they index, whether the `?` for a
remainder above the base is written as a number, and what comes behind the digits. -/
structure NumberWriter where
  base : Nat
  digits : List UInt8
  spells : Bool
  suffix : List UInt8
  two_le : 2 ≤ base
  small : base < 2 ^ 63
  length_digits : digits.length = base
  nodup : digits.Nodup
  zero_notMem : 0 ∉ digits
  minus_notMem : minus ∉ digits

def number : NumberWriter where
  base := 10
  digits := [48, 49, 50, 51, 52, 53, 54, 55, 56, 57]
  spells := true
  suffix := []
  two_le := by decide
  small := by decide
  length_digits := rfl
  nodup := by decide
  zero_notMem := by decide
  minus_notMem := by decide

def hexNumber : NumberWriter where
  base := 16
  digits := [48, 49, 50, 51, 52, 53, 54, 55, 56, 57, 65, 66, 67, 68, 69, 70]
  spells := true
  suffix := [104]
  two_le := by decide
  small := by decide
  length_digits := rfl
  nodup := by decide
  zero_notMem := by decide
  minus_notMem := by decide

/-- `BTextWriter::Write` with a number. -/
def textWriterWrite : NumberWriter where
  base := 16
  digits := [48, 49, 50, 51, 52, 53, 54, 55, 56, 57, 65, 66, 67, 68, 69, 70]
  spells := false
  suffix := [104]
  two_le := by decide
  small := by decide
  length_digits := rfl
  nodup := by decide
  zero_notMem := by decide
  minus_notMem := by decide

namespace NumberWriter

variable (w : NumberWriter)

/-- `_write_number`, `_write_number_hex` and `_Write`.  The table of digits ends with a terminator,
and a buffer of two characters is written up to the first one. -/
def writeDigits : Nat → Int64 → Outcome WriteFault (List UInt8)
  | 0, _ => .running
  | fuel + 1, x =>
    magnitude x >>= fun n =>
    let base := Int64.ofNat w.base
    let y := (n / base).toUInt64
    let h := (n % base).toUInt64
    (if y ≠ 0 then writeDigits fuel y.toInt64 else .done []) >>= fun front =>
    if base.toUInt64 < h then
      (if w.spells then writeDigits fuel 63 else .done [63]) >>= fun mark => .done (front ++ mark)
    else match (w.digits ++ [0])[h.toNat]? with
      | none => .fault .indexOutOfRange
      | some c => .done (front ++ cstr [c, 0])

def write (fuel : Nat) (x : Int64) : Outcome WriteFault (List UInt8) :=
  w.writeDigits fuel x >>= fun digits => .done (digits ++ w.suffix)

/-! ## What is denoted -/

/-- The value of a digit is its place in the table. -/
def digitValue (c : UInt8) : Nat := w.digits.idxOf c

/-- A word of digits for a number, with a sign where it is negative. -/
def Denotes (text : List UInt8) (value : Int) : Prop :=
  (∃ n : Nat, IsNumeral w.digitValue w.base text n ∧ value = n) ∨
    ∃ digits, ∃ n : Nat, text = minus :: digits ∧ IsNumeral w.digitValue w.base digits n ∧
      value = -n

/-- The writer returns, and the digits that it wrote denote the value. -/
def PrintsRight (x : Int64) (value : Int) : Prop :=
  ∃ text, Yields (fun fuel => w.write fuel x) (text ++ w.suffix) ∧ w.Denotes text value

/-! ## The recursion -/

theorem natAbs_lt {x : Int64} (hx : x ≠ Int64.minValue) : x.toInt.natAbs < 2 ^ 63 := by
  have hlow := x.le_toInt
  have hhigh := x.toInt_lt
  have hmin : x.toInt ≠ -2 ^ 63 := fun h => hx (Int64.toInt_inj.mp h)
  omega

/-- A number below 2^63 is its own magnitude. -/
theorem natAbs_ofNat {n : Nat} (hn : n < 2 ^ 63) :
    Int64.ofNat n ≠ Int64.minValue ∧ (Int64.ofNat n).toInt.natAbs = n := by
  have hint := Int64.toInt_ofNat_of_lt hn
  constructor
  · intro h
    rw [h, Int64.toInt_minValue] at hint
    omega
  · rw [hint, Int.natAbs_natCast]

theorem magnitude_eq {x : Int64} (hx : x ≠ Int64.minValue) :
    magnitude x = .done (Int64.ofNat x.toInt.natAbs) := by
  have hlt := natAbs_lt hx
  rw [magnitude]
  by_cases hpos : 0 < x
  · have hsign : 0 < x.toInt := Int64.lt_iff_toInt_lt.mp hpos
    have hx' : Int64.ofNat x.toInt.natAbs = x := by
      rw [← Int64.toInt_inj, Int64.toInt_ofNat_of_lt hlt]
      omega
    rw [if_pos hpos, hx']
  · have hsign : x.toInt ≤ 0 := Int64.le_iff_toInt_le.mp (Int64.not_lt.mp hpos)
    have hx' : Int64.ofNat x.toInt.natAbs = -x := by
      rw [← Int64.toInt_inj, Int64.toInt_ofNat_of_lt hlt, Int64.toInt_neg,
        Int.bmod_eq_of_le (by omega) (by omega)]
      omega
    rw [if_neg hpos, if_neg hx, hx']

/-- The digit of a remainder. -/
def digit (h : Nat) : UInt8 := w.digits.getD h 0

theorem digit_mem {h : Nat} (hlt : h < w.base) : w.digit h ∈ w.digits := by
  rw [← w.length_digits] at hlt
  rw [digit, List.getD_eq_getElem _ _ hlt]
  exact List.getElem_mem hlt

theorem digitValue_digit {h : Nat} (hlt : h < w.base) : w.digitValue (w.digit h) = h := by
  rw [← w.length_digits] at hlt
  rw [digitValue, digit, List.getD_eq_getElem _ _ hlt]
  exact w.nodup.idxOf_getElem h hlt

theorem digit_numeral {h : Nat} (hlt : h < w.base) :
    IsNumeral w.digitValue w.base [w.digit h] h := by
  have hvalue := w.digitValue_digit hlt
  have hsingle := IsNumeral.single (hvalue.symm ▸ hlt : w.digitValue (w.digit h) < w.base)
  rwa [hvalue] at hsingle

theorem digitValue_minus : ¬ w.digitValue minus < w.base := by
  rw [digitValue, List.idxOf_eq_length w.minus_notMem, w.length_digits]
  exact Nat.lt_irrefl w.base

theorem table_digit {h : Nat} (hlt : h < w.base) : (w.digits ++ [0])[h]? = some (w.digit h) := by
  rw [← w.length_digits] at hlt
  rw [List.getElem?_append_left hlt, digit, List.getD_eq_getElem _ _ hlt,
    List.getElem?_eq_getElem hlt]

/-- A digit is written whole. -/
theorem cstr_digit {h : Nat} (hlt : h < w.base) : cstr [w.digit h, 0] = [w.digit h] := by
  have hne : w.digit h ≠ 0 := by
    intro hzero
    exact w.zero_notMem (hzero ▸ w.digit_mem hlt)
  simp [cstr, hne]

/-- One call writes the digits of the quotient, and then the one of the remainder. -/
theorem writeDigits_succ {x : Int64} (hx : x ≠ Int64.minValue) (fuel : Nat) :
    w.writeDigits (fuel + 1) x =
      (if x.toInt.natAbs / w.base ≠ 0 then
          w.writeDigits fuel (Int64.ofNat (x.toInt.natAbs / w.base))
        else .done []) >>= fun front =>
      .done (front ++ [w.digit (x.toInt.natAbs % w.base)]) := by
  have hn := natAbs_lt hx
  generalize hnat : x.toInt.natAbs = n at hn
  have htwo := w.two_le
  have hsmall := w.small
  have hmod : n % w.base < w.base := Nat.mod_lt n (by omega)
  have hdiv : n / w.base ≤ n := Nat.div_le_self n w.base
  have hquot : (Int64.ofNat n / Int64.ofNat w.base).toUInt64 = UInt64.ofNat (n / w.base) := by
    rw [← Int64.ofNat_div hn w.small, Int64.toUInt64_ofNat']
  have hrem : (Int64.ofNat n % Int64.ofNat w.base).toUInt64 = UInt64.ofNat (n % w.base) := by
    rw [← Int64.ofNat_mod hn w.small, Int64.toUInt64_ofNat']
  have hback : (UInt64.ofNat (n / w.base)).toInt64 = Int64.ofNat (n / w.base) := rfl
  have hremNat : (UInt64.ofNat (n % w.base)).toNat = n % w.base :=
    UInt64.toNat_ofNat_of_lt' (hmod.trans (hsmall.trans (by decide)))
  have hquotNat : (UInt64.ofNat (n / w.base)).toNat = n / w.base :=
    UInt64.toNat_ofNat_of_lt' (hdiv.trans_lt (hn.trans (by decide)))
  have hzero : UInt64.ofNat (n / w.base) ≠ 0 ↔ n / w.base ≠ 0 := by
    rw [not_iff_not, ← UInt64.toNat_inj, hquotNat]
    rfl
  have hbound : ¬ (Int64.ofNat w.base).toUInt64 < UInt64.ofNat (n % w.base) := by
    rw [Int64.toUInt64_ofNat', UInt64.lt_iff_toNat_lt, hremNat,
      UInt64.toNat_ofNat_of_lt' (hsmall.trans (by decide))]
    omega
  rw [writeDigits, magnitude_eq hx, done_bind, hnat]
  simp only [hquot, hrem, hback, hzero, if_neg hbound, hremNat, w.table_digit hmod,
    w.cstr_digit hmod]

theorem writeDigits_minValue (fuel : Nat) (text : List UInt8) :
    w.writeDigits fuel Int64.minValue ≠ .done text := by
  intro h
  cases fuel with
  | zero => cases h
  | succ fuel => cases h

theorem writeDigits_mono (x : Int64) : Monotone fun fuel => w.writeDigits fuel x := by
  refine monotone_nat_of_le_succ fun fuel => ?_
  induction fuel generalizing x with
  | zero => exact running_le _
  | succ fuel ih =>
    by_cases hx : x = Int64.minValue
    · rw [hx]
      exact le_refl _
    · rw [w.writeDigits_succ hx, w.writeDigits_succ hx]
      refine bind_le_bind ?_ fun front => le_refl _
      split
      · exact ih _
      · exact le_refl _

/-- The recursion ends, for every number but the least one, with the numeral of its magnitude. -/
theorem writeDigits_numeral (n : Nat) : ∀ x : Int64, x ≠ Int64.minValue → x.toInt.natAbs = n →
    ∃ text, IsNumeral w.digitValue w.base text n ∧
      ∀ fuel, n < fuel → w.writeDigits fuel x = .done text := by
  have htwo := w.two_le
  induction n using Nat.strong_induction_on with
  | _ n ih =>
    intro x hx hnat
    have hn := natAbs_lt hx
    have hmod : n % w.base < w.base := Nat.mod_lt n (by omega)
    have hlast := w.digitValue_digit hmod
    by_cases hzero : n / w.base = 0
    · refine ⟨[w.digit (n % w.base)], ?_, ?_⟩
      · have hsame : n % w.base = n := Nat.mod_eq_of_lt (Nat.lt_of_div_eq_zero (by omega) hzero)
        have hsingle := w.digit_numeral hmod
        rw [hsame] at hsingle ⊢
        exact hsingle
      · intro fuel hfuel
        obtain ⟨fuel, rfl⟩ := Nat.exists_eq_add_one_of_ne_zero (show fuel ≠ 0 by omega)
        rw [w.writeDigits_succ hx, hnat, if_neg (not_not_intro hzero)]
        rfl
    · have hless : n / w.base < n := Nat.div_lt_self (by
        by_contra h
        exact hzero (by rw [Nat.eq_zero_of_not_pos h, Nat.zero_div])) (by omega)
      obtain ⟨hquot, hquotNat⟩ := natAbs_ofNat (show n / w.base < 2 ^ 63 by omega)
      obtain ⟨front, hfront, hdone⟩ := ih _ hless _ hquot hquotNat
      refine ⟨front ++ [w.digit (n % w.base)], ?_, ?_⟩
      · have hmore := hfront.concat (hlast.symm ▸ hmod)
        rw [hlast, Nat.div_add_mod'] at hmore
        exact hmore
      · intro fuel hfuel
        obtain ⟨fuel, rfl⟩ := Nat.exists_eq_add_one_of_ne_zero (show fuel ≠ 0 by omega)
        rw [w.writeDigits_succ hx, hnat, if_pos hzero, hdone fuel (by omega), done_bind]

/-! ## What is written -/

/-- What is written denotes the magnitude, and nothing else. -/
theorem printsRight_iff (x : Int64) (value : Int) :
    w.PrintsRight x value ↔ x ≠ Int64.minValue ∧ value = x.toInt.natAbs := by
  constructor
  · intro h
    obtain ⟨text, ⟨fuel, hwrite⟩, hdenotes⟩ := h
    obtain ⟨digits, hdigits, hsuffix⟩ := bind_eq_done.mp hwrite
    have hx : x ≠ Int64.minValue := by
      rintro rfl
      exact w.writeDigits_minValue fuel digits hdigits
    obtain ⟨numeral, hnumeral, hdone⟩ := w.writeDigits_numeral _ x hx rfl
    have hsame : digits = numeral := Yields.unique (w.writeDigits_mono x) (.intro fuel hdigits)
      (.intro _ (hdone _ (Nat.lt_succ_self _)))
    have htext : digits = text := List.append_cancel_right (Outcome.done.inj hsuffix)
    rw [← htext, hsame] at hdenotes
    refine ⟨hx, ?_⟩
    rcases hdenotes with ⟨n, hn, hvalue⟩ | ⟨rest, n, hsign, _, _⟩
    · rw [hvalue, hn.unique hnumeral]
    · have hminus := hnumeral.digits minus (hsign ▸ List.mem_cons_self)
      exact absurd hminus w.digitValue_minus
  · intro h
    obtain ⟨hx, hvalue⟩ := h
    obtain ⟨numeral, hnumeral, hdone⟩ := w.writeDigits_numeral _ x hx rfl
    refine ⟨numeral, .intro (x.toInt.natAbs + 1) ?_, Or.inl ⟨_, hnumeral, hvalue⟩⟩
    rw [write, hdone _ (Nat.lt_succ_self _), done_bind]

theorem printsRight_signed_iff (x : Int64) : w.PrintsRight x x.toInt ↔ 0 ≤ x := by
  rw [printsRight_iff, Int64.le_iff_toInt_le, Int64.toInt_zero]
  constructor
  · intro h
    exact h.2 ▸ Int.natCast_nonneg _
  · intro h
    refine ⟨?_, (Int.natAbs_of_nonneg h).symm⟩
    rintro rfl
    exact absurd h (by decide)

theorem toInt_toInt64 (v : UInt64) : v.toInt64.toInt = (v.toNat : Int).bmod (2 ^ 64) :=
  BitVec.toInt_eq_toNat_bmod v.toBitVec

theorem printsRight_unsigned_iff (v : UInt64) :
    w.PrintsRight v.toInt64 v.toNat ↔ v.toNat < 2 ^ 63 := by
  have hlt := v.toNat_lt
  rw [printsRight_iff, Ne, ← Int64.toInt_inj, Int64.toInt_minValue, toInt_toInt64]
  by_cases hlow : v.toNat < 2 ^ 63
  · rw [Int.bmod_eq_of_le (by omega) (by omega), Int.natAbs_natCast]
    refine iff_of_true ⟨by omega, rfl⟩ hlow
  · have hwrap : (v.toNat : Int).bmod (2 ^ 64) = v.toNat - 2 ^ 64 := by
      rw [Int.bmod_eq_iff (by decide)]
      omega
    rw [hwrap]
    apply iff_of_false _ hlow
    intro h
    omega

end NumberWriter

/-- All three write the numeral of a number that is not negative, taken as a signed word, and of
no other. -/
theorem numbers_printed_iff (x : Int64) (v : UInt64) :
    ((number.PrintsRight x x.toInt ↔ 0 ≤ x) ∧
      (hexNumber.PrintsRight x x.toInt ↔ 0 ≤ x) ∧
      (textWriterWrite.PrintsRight x x.toInt ↔ 0 ≤ x)) ∧
    (number.PrintsRight v.toInt64 v.toNat ↔ v.toNat < 2 ^ 63) ∧
      (hexNumber.PrintsRight v.toInt64 v.toNat ↔ v.toNat < 2 ^ 63) ∧
      (textWriterWrite.PrintsRight v.toInt64 v.toNat ↔ v.toNat < 2 ^ 63) := by
  refine ⟨⟨?_, ?_, ?_⟩, ?_, ?_, ?_⟩
  · exact number.printsRight_signed_iff x
  · exact hexNumber.printsRight_signed_iff x
  · exact textWriterWrite.printsRight_signed_iff x
  · exact number.printsRight_unsigned_iff v
  · exact hexNumber.printsRight_unsigned_iff v
  · exact textWriterWrite.printsRight_unsigned_iff v

/-- Of -5 the digit 5 is left, and of the largest unsigned word the digit 1. -/
theorem numbers_without_sign :
    number.write 2 (-5) = .done [53] ∧ ¬ number.PrintsRight (-5) (-5) ∧
    ¬ hexNumber.PrintsRight (UInt64.toInt64 0xFFFFFFFFFFFFFFFF) 0xFFFFFFFFFFFFFFFF := by
  refine ⟨by decide, ?_, ?_⟩
  · intro h
    exact absurd ((number.printsRight_iff _ _).mp h).2 (by decide)
  · intro h
    exact absurd ((hexNumber.printsRight_iff _ _).mp h).2 (by decide)

end Zka.KernelKit
