import Zka.Framework.Words

/-!
# `StringToLong`

A pointer into the string is the text from there on; the end of a text reads as the
terminator.  Beside what the source keeps, the loop notes whether a sum has wrapped
around.
-/

namespace Zka.BootKit

def kLongMax : Int64 := (~~~(0 : UInt64) >>> 1).toInt64

def kLongMin : Int64 := ~~~kLongMax

def isSpace (c : UInt8) : Bool := c = 32

def skipSpaces : List UInt8 → List UInt8
  | [] => []
  | c :: p => if isSpace c then skipSpaces p else c :: p

/-- Whether there is a minus, and the text behind the sign. -/
def readSign (p : List UInt8) : Bool × List UInt8 :=
  if p.headD 0 = 43 then (false, p.tail)
  else if p.headD 0 = 45 then (true, p.tail)
  else (false, p)

structure BasePrefix where
  base : Int32
  p : List UInt8
  endp : List UInt8

/-- The part of the source between the sign and the limits. -/
def readPrefix (base : Int32) (p endp : List UInt8) : BasePrefix :=
  if p.headD 0 = 48 then
    let p := p.tail
    if base = 16 ∧ (p.headD 0 = 88 ∨ p.headD 0 = 120) then ⟨base, p.tail, p⟩
    else if base = 2 ∧ (p.headD 0 = 66 ∨ p.headD 0 = 98) then ⟨base, p.tail, p⟩
    else if base = 0 then
      if p.headD 0 = 88 ∨ p.headD 0 = 120 then ⟨16, p.tail, p⟩
      else if p.headD 0 = 66 ∨ p.headD 0 = 98 then ⟨2, p.tail, p⟩
      else ⟨8, p, p⟩
    else ⟨base, p, p⟩
  else if base = 0 then ⟨10, p, endp⟩
  else ⟨base, p, endp⟩

def cutoff (isNeg : Bool) (base : Int32) : UInt64 :=
  (if isNeg then -(kLongMin / base.toInt64) else kLongMax / base.toInt64).toUInt64

def cutlim (isNeg : Bool) (base : Int32) : Int32 :=
  (if isNeg then -(kLongMin % base.toInt64) else kLongMax % base.toInt64).toInt32

/-- What a character counts; a character is signed, and case is folded by clearing a bit. -/
def charValue (ch : UInt8) : Option Int32 :=
  let c := ch.toInt8.toInt32
  if 65 ≤ c then some (((c - 65) &&& ~~~(97 ^^^ 65)) + 10)
  else if c ≤ 57 then some (c - 48)
  else none

/-- An `int` where an `unsigned long` is needed. -/
def unsignedLong (i : Int32) : UInt64 := i.toInt64.toUInt64

structure DigitsRead where
  n : UInt64
  endp : List UInt8
  overflow : Bool
  wrapped : Bool

def digitLoop (base : Int32) (cutoff : UInt64) (cutlim : Int32) (endptr : Bool) :
    List UInt8 → DigitsRead → DigitsRead
  | [], s => s
  | ch :: p, s =>
    match charValue ch with
    | none => s
    | some c =>
      if c < 0 ∨ base ≤ c then s
      else if s.overflow then
        if endptr then digitLoop base cutoff cutlim endptr p { s with endp := p }
        else { s with endp := p }
      else if cutoff < s.n ∨ s.n = cutoff ∧ cutlim < c then
        digitLoop base cutoff cutlim endptr p { s with endp := p, overflow := true }
      else
        digitLoop base cutoff cutlim endptr p
          ⟨s.n * unsignedLong base + unsignedLong c, p, false, s.wrapped ||
            decide (2 ^ 64 ≤ s.n.toNat * (unsignedLong base).toNat + (unsignedLong c).toNat)⟩

/-- The value returned, what is stored at `endptr` if that is not null, and whether a sum
wrapped around. -/
structure Parsed where
  value : Int64
  endp : Option (List UInt8)
  wrapped : Bool

def stringToLong (nptr : List UInt8) (endptr : Bool) (base : Int32) : Parsed :=
  if base < 0 ∨ base = 1 ∨ 36 < base then ⟨0, none, false⟩
  else
    let sign := readSign (skipSpaces nptr)
    let start := readPrefix base sign.2 nptr
    let r := digitLoop start.base (cutoff sign.1 start.base) (cutlim sign.1 start.base) endptr
      start.p ⟨0, start.endp, false, false⟩
    let value :=
      if r.overflow then (if sign.1 then kLongMin else kLongMax)
      else (if sign.1 then -r.n else r.n).toInt64
    ⟨value, if endptr then some r.endp else none, r.wrapped⟩

/-! ## The reference -/

/-- What a character counts as a digit; 36 where it is none. -/
def digitValue (c : UInt8) : Nat :=
  if 48 ≤ c ∧ c ≤ 57 then c.toNat - 48
  else if 65 ≤ c ∧ c ≤ 90 then c.toNat - 55
  else if 97 ≤ c ∧ c ≤ 122 then c.toNat - 87
  else 36

/-- A word that stands for a natural number in a base, or in the base that it names where that
is 0. -/
inductive Unsigned : Nat → List UInt8 → Nat → Prop
  | digits {base : Nat} {w : List UInt8} {v : Nat} (hb : base ≠ 0)
      (h : IsNumeral digitValue base w v) : Unsigned base w v
  | hex {base : Nat} {x : UInt8} {w : List UInt8} {v : Nat} (hb : base = 0 ∨ base = 16)
      (hx : x = 88 ∨ x = 120) (h : IsNumeral digitValue 16 w v) : Unsigned base (48 :: x :: w) v
  | bin {base : Nat} {x : UInt8} {w : List UInt8} {v : Nat} (hb : base = 0 ∨ base = 2)
      (hx : x = 66 ∨ x = 98) (h : IsNumeral digitValue 2 w v) : Unsigned base (48 :: x :: w) v
  | octal {w : List UInt8} {v : Nat} (h : IsNumeral digitValue 8 (48 :: w) v) :
      Unsigned 0 (48 :: w) v
  | decimal {w : List UInt8} {v : Nat} (h0 : w.headD 0 ≠ 48) (h : IsNumeral digitValue 10 w v) :
      Unsigned 0 w v

inductive Sign : List UInt8 → Bool → Prop
  | none : Sign [] false
  | plus : Sign [43] false
  | minus : Sign [45] true

/-- Spaces, a sign and a number without one. -/
inductive Subject (base : Nat) : List UInt8 → Int → Prop
  | intro {spaces sign w : List UInt8} {isNeg : Bool} {v : Nat} (hspaces : ∀ c ∈ spaces, c = 32)
      (hsign : Sign sign isNeg) (h : Unsigned base w v) :
      Subject base (spaces ++ sign ++ w) (if isNeg then -v else v)

/-- To the limits of a `long` of 64 bits. -/
def saturate (z : Int) : Int := max (-2 ^ 63) (min z (2 ^ 63 - 1))

/-- `strtol`: the number that the longest prefix stands for, and the text behind that prefix. -/
inductive Strtol (base : Nat) (text : List UInt8) : Int → List UInt8 → Prop
  | converted {w rest : List UInt8} {z : Int} (h : IsLongest (Subject base) text w z)
      (hrest : text = w ++ rest) : Strtol base text (saturate z) rest
  | notConverted (h : ∀ w z, w <+: text → ¬ Subject base w z) : Strtol base text 0 text

/-! ## Characters and limits -/

private def countsRight (ch : UInt8) : Bool :=
  match charValue ch with
  | none => digitValue ch == 36
  | some c => if digitValue ch < 36 then c.toInt == digitValue ch else c < 0 || 36 ≤ c

private theorem countsRight_all (ch : UInt8) : countsRight ch = true := by
  have hall : ∀ i : Fin 256, countsRight (UInt8.ofNat i) = true := by decide +kernel
  have h := hall ⟨ch.toNat, ch.toNat_lt⟩
  rwa [UInt8.ofNat_toNat] at h

/-- A character is no letter or digit, or its number is a digit's or too large for any base. -/
private theorem charValue_cases (ch : UInt8) :
    (charValue ch = none ∧ digitValue ch = 36) ∨ ∃ c, charValue ch = some c ∧
      (digitValue ch < 36 ∧ c.toInt = digitValue ch ∨
        ¬ digitValue ch < 36 ∧ (c < 0 ∨ 36 ≤ c)) := by
  have hright := countsRight_all ch
  unfold countsRight at hright
  cases hc : charValue ch with
  | none =>
    rw [hc] at hright
    exact Or.inl ⟨rfl, by simpa using hright⟩
  | some c =>
    rw [hc] at hright
    dsimp only at hright
    refine Or.inr ⟨c, rfl, ?_⟩
    by_cases hdigit : digitValue ch < 36
    · rw [if_pos hdigit] at hright
      exact Or.inl ⟨hdigit, by simpa using hright⟩
    · rw [if_neg hdigit] at hright
      exact Or.inr ⟨hdigit, by simpa using hright⟩

/-- The bases that the loop is run with. -/
structure GoodBase (base : Int32) (b : Nat) : Prop where
  eq : base = Int32.ofNat b
  two : 2 ≤ b
  le : b ≤ 36

variable {base : Int32} {b : Nat}

theorem GoodBase.toInt (hb : GoodBase base b) : base.toInt = b := by
  rw [hb.eq]
  exact Int32.toInt_ofNat_of_lt (by have := hb.le; omega)

theorem unsignedLong_toNat {i : Int32} {n : Nat} (h : i.toInt = n) :
    (unsignedLong i).toNat = n := by
  have h0 : 0 ≤ i.toInt64 := by
    rw [Int64.le_iff_toInt_le, Int32.toInt_toInt64, h]
    exact Int.natCast_nonneg n
  rw [unsignedLong, Int64.toNat_toUInt64_of_le h0, Int64.toNatClampNeg, Int32.toInt_toInt64, h]
  rfl

theorem charValue_digit {ch : UInt8} (hb : GoodBase base b) (h : digitValue ch < b) :
    ∃ c, charValue ch = some c ∧ ¬ (c < 0 ∨ base ≤ c) ∧ c.toInt = digitValue ch := by
  have hle := hb.le
  rcases charValue_cases ch with ⟨_, h36⟩ | ⟨c, hc, ⟨_, hint⟩ | ⟨h36, _⟩⟩
  · omega
  · refine ⟨c, hc, ?_, hint⟩
    rw [Int32.lt_iff_toInt_lt, Int32.le_iff_toInt_le, hint, hb.toInt, Int32.toInt_zero]
    omega
  · omega

theorem charValue_other {ch : UInt8} (hb : GoodBase base b) (h : ¬ digitValue ch < b) :
    charValue ch = none ∨ ∃ c, charValue ch = some c ∧ (c < 0 ∨ base ≤ c) := by
  have hle := hb.le
  rcases charValue_cases ch with ⟨hnone, _⟩ | ⟨c, hc, ⟨_, hint⟩ | ⟨_, hout⟩⟩
  · exact Or.inl hnone
  · refine Or.inr ⟨c, hc, Or.inr ?_⟩
    rw [Int32.le_iff_toInt_le, hint, hb.toInt]
    omega
  · refine Or.inr ⟨c, hc, hout.imp_right fun h36 => ?_⟩
    rw [Int32.le_iff_toInt_le, hb.toInt]
    have h36' : (36 : Int) ≤ c.toInt := Int32.le_iff_toInt_le.mp h36
    omega

/-- The largest value without its sign. -/
def limit (isNeg : Bool) : Nat := if isNeg then 2 ^ 63 else 2 ^ 63 - 1

theorem limits (hb : GoodBase base b) (isNeg : Bool) :
    (cutoff isNeg base).toNat = limit isNeg / b ∧
      (cutlim isNeg base).toInt = ((limit isNeg % b : Nat) : Int) := by
  have hall : ∀ b : Fin 37, 2 ≤ b.val → ∀ isNeg : Bool,
      (cutoff isNeg (Int32.ofNat b)).toNat = limit isNeg / b ∧
        (cutlim isNeg (Int32.ofNat b)).toInt = ((limit isNeg % b : Nat) : Int) := by
    decide
  have hle := hb.le
  rw [hb.eq]
  exact hall ⟨b, by omega⟩ hb.two isNeg

/-! ## The digits -/

variable {isNeg endptr : Bool}

/-- Where the loop stands: a number that was not cut off has not wrapped and is not above the
limit. -/
structure Reading (isNeg : Bool) (s : DigitsRead) (v : Nat) : Prop where
  overflow : s.overflow = true ↔ limit isNeg < v
  n : s.overflow = false → s.n.toNat = v
  wrapped : s.wrapped = false

variable {n : UInt64} {wrapped : Bool} {endp p : List UInt8} {v v' : Nat}

theorem Reading.cut (hs : Reading isNeg ⟨n, endp, true, wrapped⟩ v) (hle : v ≤ v')
    (p : List UInt8) : Reading isNeg ⟨n, p, true, wrapped⟩ v' := by
  have hv := hs.overflow.mp rfl
  exact ⟨iff_of_true rfl (by omega), nofun, hs.wrapped⟩

/-- One digit more: it is cut off, or the sum fits. -/
theorem Reading.step {ch : UInt8} {c : Int32} (hb : GoodBase base b)
    (hs : Reading isNeg ⟨n, endp, false, wrapped⟩ v) (hint : c.toInt = digitValue ch)
    (hch : digitValue ch < b) (p : List UInt8) :
    Reading isNeg
      (if cutoff isNeg base < n ∨ n = cutoff isNeg base ∧ cutlim isNeg base < c then
        ⟨n, p, true, wrapped⟩
      else
        ⟨n * unsignedLong base + unsignedLong c, p, false, wrapped ||
          decide (2 ^ 64 ≤ n.toNat * (unsignedLong base).toNat + (unsignedLong c).toNat)⟩)
      (v * b + digitValue ch) := by
  obtain ⟨hcutoff, hcutlim⟩ := limits hb isNeg
  have hn : n.toNat = v := hs.n rfl
  have hcut : cutoff isNeg base < n ∨ n = cutoff isNeg base ∧ cutlim isNeg base < c ↔
      limit isNeg < v * b + digitValue ch := by
    rw [← cutoff_iff hch, UInt64.lt_iff_toNat_lt, ← UInt64.toNat_inj, Int32.lt_iff_toInt_lt,
      hint, hcutoff, hcutlim, Int.ofNat_lt, hn]
  split
  next hover => exact ⟨iff_of_true rfl (hcut.mp hover), nofun, hs.wrapped⟩
  next hover =>
    rw [hcut] at hover
    have hsum : n.toNat * (unsignedLong base).toNat + (unsignedLong c).toNat =
        v * b + digitValue ch := by
      rw [unsignedLong_toNat hb.toInt, unsignedLong_toNat hint, hn]
    have hlimit : limit isNeg < 2 ^ 64 := by cases isNeg <;> decide
    have hfit : v * b + digitValue ch < 2 ^ 64 := by omega
    refine ⟨iff_of_false nofun hover, fun _ => ?_, ?_⟩
    · rw [UInt64.toNat_add, UInt64.toNat_mul, Nat.mod_add_mod, hsum]
      exact Nat.mod_eq_of_lt hfit
    · have hwrapped : wrapped = false := hs.wrapped
      dsimp only
      rw [hwrapped, hsum, Bool.false_or, decide_eq_false_iff_not]
      exact Nat.not_le.mpr hfit

theorem digitLoop_digit {ch : UInt8} {c : Int32} (hc : charValue ch = some c)
    (hin : ¬ (c < 0 ∨ base ≤ c)) (cutoff : UInt64) (cutlim : Int32) :
    digitLoop base cutoff cutlim endptr (ch :: p) ⟨n, endp, false, wrapped⟩ =
      digitLoop base cutoff cutlim endptr p
        (if cutoff < n ∨ n = cutoff ∧ cutlim < c then ⟨n, p, true, wrapped⟩
        else ⟨n * unsignedLong base + unsignedLong c, p, false, wrapped ||
          decide (2 ^ 64 ≤ n.toNat * (unsignedLong base).toNat + (unsignedLong c).toNat)⟩) := by
  rw [digitLoop, hc]
  dsimp only
  rw [if_neg hin, if_neg Bool.false_ne_true]
  split <;> rfl

theorem digitLoop_stop {ch : UInt8} {s : DigitsRead} (hb : GoodBase base b)
    (hch : ¬ digitValue ch < b) (cutoff : UInt64) (cutlim : Int32) :
    digitLoop base cutoff cutlim endptr (ch :: p) s = s := by
  rw [digitLoop]
  rcases charValue_other hb hch with hc | ⟨c, hc, hout⟩
  · rw [hc]
  · rw [hc]
    exact if_pos hout

/-- Where the digits are cut off, the others are skipped, or left alone if no end is asked for. -/
theorem digitLoop_cut {ch : UInt8} {c : Int32} (hc : charValue ch = some c)
    (hin : ¬ (c < 0 ∨ base ≤ c)) (cutoff : UInt64) (cutlim : Int32) :
    digitLoop base cutoff cutlim endptr (ch :: p) ⟨n, endp, true, wrapped⟩ =
      if endptr then digitLoop base cutoff cutlim endptr p ⟨n, p, true, wrapped⟩
      else ⟨n, p, true, wrapped⟩ := by
  rw [digitLoop, hc]
  dsimp only
  rw [if_neg hin, if_pos rfl]

/-- The loop reads the leading digits. -/
theorem digitLoop_reading (hb : GoodBase base b) {s : DigitsRead} (hs : Reading isNeg s v) :
    Reading isNeg (digitLoop base (cutoff isNeg base) (cutlim isNeg base) endptr p s)
      (readDigits digitValue b v (leadingDigits digitValue b p)) := by
  have hpos : 0 < b := by have := hb.two; omega
  induction p generalizing s v with
  | nil => exact hs
  | cons ch p ih =>
    by_cases hch : digitValue ch < b
    · obtain ⟨c, hc, hin, hint⟩ := charValue_digit hb hch
      rw [leadingDigits_cons_pos hch, readDigits_cons]
      obtain ⟨n, endp, _ | _, wrapped⟩ := s
      · rw [digitLoop_digit hc hin]
        exact ih (hs.step hb hint hch p)
      · have hgrow : v ≤ v * b + digitValue ch :=
          le_trans (Nat.le_mul_of_pos_right v hpos) (Nat.le_add_right _ _)
        rw [digitLoop_cut hc hin]
        cases endptr with
        | true => exact ih (hs.cut hgrow p)
        | false => exact hs.cut (hgrow.trans (le_readDigits hpos _ _)) p
    · rw [leadingDigits_cons_neg hch, digitLoop_stop hb hch]
      exact hs

/-- The end moves behind the last digit, and stays where it was if there is none. -/
theorem digitLoop_endp (hb : GoodBase base b) (cutoff : UInt64) (cutlim : Int32)
    {s : DigitsRead} :
    (digitLoop base cutoff cutlim true p s).endp =
      if leadingDigits digitValue b p = [] then s.endp
      else p.drop (leadingDigits digitValue b p).length := by
  induction p generalizing s with
  | nil => rfl
  | cons ch p ih =>
    by_cases hch : digitValue ch < b
    · obtain ⟨c, hc, hin, hint⟩ := charValue_digit hb hch
      have hgo : ∃ s', s'.endp = p ∧ digitLoop base cutoff cutlim true (ch :: p) s =
          digitLoop base cutoff cutlim true p s' := by
        obtain ⟨n, endp, _ | _, wrapped⟩ := s
        · refine ⟨_, ?_, digitLoop_digit hc hin cutoff cutlim⟩
          split <;> rfl
        · exact ⟨_, rfl, digitLoop_cut hc hin cutoff cutlim⟩
      obtain ⟨s', hs', hloop⟩ := hgo
      rw [hloop, ih, leadingDigits_cons_pos hch, if_neg (List.cons_ne_nil _ _), hs',
        List.length_cons, List.drop_succ_cons]
      split
      next hnil => rw [hnil, List.length_nil, List.drop_zero]
      · rfl
    · rw [leadingDigits_cons_neg hch, digitLoop_stop hb hch, if_pos rfl]

end Zka.BootKit
