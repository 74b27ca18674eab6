import Zka.BootKit.StringToLong

/-!
# `strtol`

The words that a text begins with, in the grammar of the reference, and how the parts
of `StringToLong` find the longest of them.
-/

namespace Zka.BootKit

variable {base : Int32} {b : Nat} {isNeg : Bool} {p : List UInt8}

/-! ## The words that a text begins with -/

/-- The unsigned words that `t` begins with: a zero, or `start` and digits of `p`. -/
def Words (b : Nat) (t : List UInt8) (zero : Prop) (start p : List UInt8) (b' : Nat) : Prop :=
  ∀ w v, w <+: t ∧ Unsigned b w v ↔ zero ∧ w = [48] ∧ v = 0 ∨
    ∃ d, w = start ++ d ∧ d ≠ [] ∧ d <+: leadingDigits digitValue b' p ∧
      v = readDigits digitValue b' 0 d

variable {t w : List UInt8} {x : UInt8}

theorem headD_of_start {c : UInt8} (h : c :: w <+: t) : t.headD 0 = c := by
  obtain ⟨rest, rfl, _⟩ := List.cons_prefix_iff.mp h
  rfl

theorem Unsigned.ne_nil {v : Nat} (h : Unsigned b w v) : w ≠ [] := by
  cases h with
  | digits _ h => exact h.notEmpty
  | hex | bin | octal => exact List.cons_ne_nil _ _
  | decimal _ h => exact h.notEmpty

/-- A text that does not begin with a zero begins with numerals of one base only. -/
theorem words_plain (h0 : t.headD 0 ≠ 48) (hb : b ≠ 0) : Words b t False [] t b := by
  intro w v
  have hdigits := @isNumeral_prefix_iff _ digitValue b t w v
  constructor
  · intro h
    rcases h with ⟨hstart, hw⟩
    cases hw with
    | digits _ h =>
      obtain ⟨hne, hd, hv⟩ := hdigits.mp ⟨hstart, h⟩
      exact Or.inr ⟨w, rfl, hne, hd, hv⟩
    | hex | bin | octal => exact absurd (headD_of_start hstart) h0
    | decimal => exact absurd rfl hb
  · intro h
    rcases h with ⟨hfalse, _⟩ | ⟨d, rfl, hne, hd, hv⟩
    · exact hfalse.elim
    · obtain ⟨hstart, hnum⟩ := hdigits.mpr ⟨hne, hd, hv⟩
      exact ⟨hstart, .digits hb hnum⟩

theorem words_decimal (h0 : t.headD 0 ≠ 48) : Words 0 t False [] t 10 := by
  intro w v
  have hdigits := @isNumeral_prefix_iff _ digitValue 10 t w v
  constructor
  · intro h
    rcases h with ⟨hstart, hw⟩
    cases hw with
    | digits hb => exact absurd rfl hb
    | hex | bin | octal => exact absurd (headD_of_start hstart) h0
    | decimal _ h =>
      obtain ⟨hne, hd, hv⟩ := hdigits.mp ⟨hstart, h⟩
      exact Or.inr ⟨w, rfl, hne, hd, hv⟩
  · intro h
    rcases h with ⟨hfalse, _⟩ | ⟨d, rfl, hne, hd, hv⟩
    · exact hfalse.elim
    · obtain ⟨hstart, hnum⟩ := hdigits.mpr ⟨hne, hd, hv⟩
      refine ⟨hstart, .decimal ?_ hnum⟩
      obtain ⟨c, d, rfl⟩ := List.exists_cons_of_ne_nil hne
      rw [headD_of_start hstart] at h0
      exact h0

/-- The numerals that begin with a zero. -/
theorem numeral_zero_iff (hb : 0 < b) {v : Nat} :
    w <+: 48 :: p ∧ IsNumeral digitValue b w v ↔ w = [48] ∧ v = 0 ∨
      ∃ d, w = [48] ++ d ∧ d ≠ [] ∧ d <+: leadingDigits digitValue b p ∧
        v = readDigits digitValue b 0 d := by
  have hzero : digitValue 48 = 0 := rfl
  have hread : ∀ d, readDigits digitValue b 0 (48 :: d) = readDigits digitValue b 0 d := by
    intro d
    rw [readDigits_cons, hzero, Nat.zero_mul]
  rw [isNumeral_prefix_iff, leadingDigits_cons_pos (show digitValue 48 < b from hb)]
  constructor
  · intro h
    rcases h with ⟨hne, hstart, rfl⟩
    obtain rfl | ⟨d, rfl, hd⟩ := List.prefix_cons_iff.mp hstart
    · exact absurd rfl hne
    · rcases eq_or_ne d [] with rfl | hdne
      · exact Or.inl ⟨rfl, hread []⟩
      · exact Or.inr ⟨d, rfl, hdne, hd, hread d⟩
  · intro h
    rcases h with ⟨rfl, rfl⟩ | ⟨d, rfl, _, hd, rfl⟩
    · exact ⟨List.cons_ne_nil _ _, List.cons_prefix_cons.mpr ⟨rfl, List.nil_prefix⟩,
        (hread []).symm⟩
    · exact ⟨List.cons_ne_nil _ _, List.cons_prefix_cons.mpr ⟨rfl, hd⟩, (hread d).symm⟩

/-- The letter behind a zero that names a base. -/
def Marks (x : UInt8) (r : Nat) : Prop :=
  r = 16 ∧ (x = 88 ∨ x = 120) ∨ r = 2 ∧ (x = 66 ∨ x = 98)

theorem words_zero (hb : b ≠ 0) (hx : ¬ Marks (p.headD 0) b) :
    Words b (48 :: p) True [48] p b := by
  intro w v
  rw [true_and, ← numeral_zero_iff (Nat.pos_of_ne_zero hb)]
  apply and_congr_right
  intro hstart
  constructor
  · intro hw
    cases hw with
    | digits _ h => exact h
    | hex hb' hx' _ =>
      have hhead := headD_of_start (List.cons_prefix_cons.mp hstart).2
      exact absurd (Or.inl ⟨hb'.resolve_left hb, hhead ▸ hx'⟩) hx
    | bin hb' hx' _ =>
      have hhead := headD_of_start (List.cons_prefix_cons.mp hstart).2
      exact absurd (Or.inr ⟨hb'.resolve_left hb, hhead ▸ hx'⟩) hx
    | octal => exact absurd rfl hb
    | decimal => exact absurd rfl hb
  · exact Unsigned.digits hb

theorem words_octal (hx : ∀ r, ¬ Marks (p.headD 0) r) : Words 0 (48 :: p) True [48] p 8 := by
  intro w v
  rw [true_and, ← numeral_zero_iff (b := 8) (by decide)]
  apply and_congr_right
  intro hstart
  constructor
  · intro hw
    cases hw with
    | digits hb => exact absurd rfl hb
    | hex _ hx' _ =>
      have hhead := headD_of_start (List.cons_prefix_cons.mp hstart).2
      exact absurd (Or.inl ⟨rfl, hhead ▸ hx'⟩) (hx 16)
    | bin _ hx' _ =>
      have hhead := headD_of_start (List.cons_prefix_cons.mp hstart).2
      exact absurd (Or.inr ⟨rfl, hhead ▸ hx'⟩) (hx 2)
    | octal h => exact h
    | decimal h0 h =>
      obtain ⟨c, w, rfl⟩ := List.exists_cons_of_ne_nil h.notEmpty
      exact absurd (headD_of_start hstart).symm h0
  · intro h
    obtain ⟨c, w', rfl⟩ := List.exists_cons_of_ne_nil h.notEmpty
    obtain ⟨rfl, _⟩ := List.cons_prefix_cons.mp hstart
    exact .octal h

theorem Marks.notDigit {r : Nat} (h : Marks x r) : ¬ digitValue x < r ∧ ¬ digitValue x < 8 := by
  rcases h with ⟨rfl, rfl | rfl⟩ | ⟨rfl, rfl | rfl⟩ <;> decide

theorem Marks.unsigned {r v : Nat} (h : Marks x r) (hb : b = 0 ∨ b = r)
    (hw : IsNumeral digitValue r w v) : Unsigned b (48 :: x :: w) v := by
  rcases h with ⟨rfl, hx⟩ | ⟨rfl, hx⟩
  · exact .hex hb hx hw
  · exact .bin hb hx hw

theorem Marks.pos {r : Nat} (h : Marks x r) : 0 < r := by
  rcases h with ⟨rfl, _⟩ | ⟨rfl, _⟩ <;> decide

theorem Marks.unique {r r' : Nat} (h : Marks x r) (h' : Marks x r') : r = r' := by
  rcases h with ⟨rfl, rfl | rfl⟩ | ⟨rfl, rfl | rfl⟩ <;>
    rcases h' with ⟨rfl, h'⟩ | ⟨rfl, h'⟩ <;> first | rfl | exact absurd h' (by decide)

/-- Where no digit comes next, a numeral that begins with a zero is the zero. -/
private theorem zero_of_notDigit {c : Nat} (hc : 0 < c) (hx : ¬ digitValue x < c) {v : Nat}
    (hstart : w <+: 48 :: x :: p) (h : IsNumeral digitValue c w v) : w = [48] ∧ v = 0 := by
  rcases (numeral_zero_iff hc).mp ⟨hstart, h⟩ with hzero | ⟨d, _, hne, hd, _⟩
  · exact hzero
  · rw [leadingDigits_cons_neg hx] at hd
    exact absurd (List.prefix_nil.mp hd) hne

theorem words_marked {r : Nat} (hx : Marks x r) (hb : b = 0 ∨ b = r) :
    Words b (48 :: x :: p) True [48, x] p r := by
  obtain ⟨hr, h8⟩ := hx.notDigit
  have hmarked : ∀ {x' : UInt8} {r' v : Nat} {w' : List UInt8}, Marks x' r' →
      48 :: x' :: w' <+: 48 :: x :: p → IsNumeral digitValue r' w' v →
      ∃ d, 48 :: x' :: w' = [48, x] ++ d ∧ d ≠ [] ∧ d <+: leadingDigits digitValue r p ∧
        v = readDigits digitValue r 0 d := by
    intro x' r' v w' hx' hstart hw'
    obtain ⟨rfl, htail⟩ := List.cons_prefix_cons.mp (List.cons_prefix_cons.mp hstart).2
    obtain rfl := hx'.unique hx
    obtain ⟨hne, hd, hv⟩ := isNumeral_prefix_iff.mp ⟨htail, hw'⟩
    exact ⟨w', rfl, hne, hd, hv⟩
  intro w v
  rw [true_and]
  constructor
  · intro h
    rcases h with ⟨hstart, hw⟩
    cases hw with
    | digits hb0 h =>
      obtain rfl := hb.resolve_left hb0
      exact Or.inl (zero_of_notDigit hx.pos hr hstart h)
    | hex _ hx' h => exact Or.inr (hmarked (Or.inl ⟨rfl, hx'⟩) hstart h)
    | bin _ hx' h => exact Or.inr (hmarked (Or.inr ⟨rfl, hx'⟩) hstart h)
    | octal h => exact Or.inl (zero_of_notDigit (by decide) h8 hstart h)
    | decimal h0 h =>
      obtain ⟨c, w, rfl⟩ := List.exists_cons_of_ne_nil h.notEmpty
      exact absurd (headD_of_start hstart).symm h0
  · intro h
    rcases h with ⟨rfl, rfl⟩ | ⟨d, rfl, hne, hd, hv⟩
    · refine ⟨List.cons_prefix_cons.mpr ⟨rfl, List.nil_prefix⟩, ?_⟩
      have hzero : ∀ c, 0 < c → IsNumeral digitValue c [48] 0 := by
        intro c hc
        exact ⟨List.cons_ne_nil _ _, List.forall_mem_singleton.mpr hc, by simp [digitValue]⟩
      rcases Nat.eq_zero_or_pos b with rfl | hpos
      · exact .octal (hzero 8 (by decide))
      · exact .digits hpos.ne' (hzero b hpos)
    · obtain ⟨hstart, hnum⟩ := isNumeral_prefix_iff.mpr ⟨hne, hd, hv⟩
      refine ⟨?_, hx.unsigned hb hnum⟩
      exact List.cons_prefix_cons.mpr ⟨rfl, List.cons_prefix_cons.mpr ⟨rfl, hstart⟩⟩

/-! ## The prefix of the source -/

/-- The bases that are read. -/
def IsBase (b : Nat) : Prop := b = 0 ∨ 2 ≤ b ∧ b ≤ 36

theorem IsBase.good (hb : IsBase b) (h0 : b ≠ 0) : GoodBase (Int32.ofNat b) b := by
  obtain ⟨h2, h36⟩ := hb.resolve_left h0
  exact ⟨rfl, h2, h36⟩

theorem IsBase.eq_iff (hb : IsBase b) {r : Nat} (hr : r ≤ 36) :
    Int32.ofNat b = Int32.ofNat r ↔ b = r := by
  have hle : b ≤ 36 := by unfold IsBase at hb; omega
  rw [← Int32.toInt_inj, Int32.toInt_ofNat_of_lt (by omega), Int32.toInt_ofNat_of_lt (by omega)]
  exact Int.ofNat_inj

/-- What the source makes of the text behind the sign. -/
structure PrefixRead (b : Nat) (t endp : List UInt8) (r : BasePrefix) (b' : Nat)
    (start : List UInt8) : Prop where
  good : GoodBase r.base b'
  text : t = start ++ r.p
  endp : r.endp = if t.headD 0 = 48 then t.tail else endp
  words : Words b t (t.headD 0 = 48) start r.p b'

theorem eq_cons_of_headD {c : UInt8} (hc : c ≠ 0) (h : t.headD 0 = c) : t = c :: t.tail := by
  cases t with
  | nil => exact absurd h.symm hc
  | cons d t =>
    obtain rfl : d = c := h
    rfl

theorem Marks.ne_zero {r : Nat} (h : Marks x r) : x ≠ 0 := by
  rcases h with ⟨_, rfl | rfl⟩ | ⟨_, rfl | rfl⟩ <;> decide

/-- A zero and the letter of a base. -/
theorem prefixRead_marked {r : Nat} (hx : Marks (p.headD 0) r) (hb : b = 0 ∨ b = r)
    (hr : GoodBase (Int32.ofNat r) r) (endp : List UInt8) :
    PrefixRead b (48 :: p) endp ⟨Int32.ofNat r, p.tail, p⟩ r [48, p.headD 0] := by
  have hp := eq_cons_of_headD hx.ne_zero rfl
  refine ⟨hr, ?_, rfl, ?_⟩
  · exact congrArg (48 :: ·) hp
  · have hwords := words_marked (p := p.tail) hx hb
    rw [← hp] at hwords
    rwa [List.headD_cons, eq_self]

/-- Another text that begins with a zero. -/
theorem prefixRead_zero {b' : Nat} (hwords : Words b (48 :: p) True [48] p b')
    (hb' : GoodBase (Int32.ofNat b') b') (endp : List UInt8) :
    PrefixRead b (48 :: p) endp ⟨Int32.ofNat b', p, p⟩ b' [48] := by
  refine ⟨hb', rfl, rfl, ?_⟩
  rwa [List.headD_cons, eq_self]

theorem prefixRead_plain {b' : Nat} (h0 : t.headD 0 ≠ 48) (hwords : Words b t False [] t b')
    (hb' : GoodBase (Int32.ofNat b') b') (endp : List UInt8) :
    PrefixRead b t endp ⟨Int32.ofNat b', t, endp⟩ b' [] := by
  refine ⟨hb', rfl, (if_neg h0).symm, ?_⟩
  rwa [eq_false h0]

theorem readPrefix_read (hb : IsBase b) (t endp : List UInt8) :
    ∃ b' start, PrefixRead b t endp (readPrefix (Int32.ofNat b) t endp) b' start := by
  have h16 : Int32.ofNat b = 16 ↔ b = 16 := hb.eq_iff (r := 16) (by decide)
  have h2 : Int32.ofNat b = 2 ↔ b = 2 := hb.eq_iff (r := 2) (by decide)
  have h0 : Int32.ofNat b = 0 ↔ b = 0 := hb.eq_iff (r := 0) (by decide)
  rw [readPrefix]
  by_cases h48 : t.headD 0 = 48
  · obtain ⟨p, rfl⟩ : ∃ p, t = 48 :: p := ⟨t.tail, eq_cons_of_headD (by decide) h48⟩
    rw [if_pos h48]
    dsimp only [List.tail_cons]
    have g16 : GoodBase (Int32.ofNat 16) 16 := ⟨rfl, by decide, by decide⟩
    have g2 : GoodBase (Int32.ofNat 2) 2 := ⟨rfl, by decide, by decide⟩
    simp only [h16, h2, h0]
    split
    next h =>
      obtain ⟨rfl, hX⟩ := h
      exact ⟨16, _, prefixRead_marked (Or.inl ⟨rfl, hX⟩) (Or.inr rfl) g16 endp⟩
    next hX16 =>
    split
    next h =>
      obtain ⟨rfl, hB⟩ := h
      exact ⟨2, _, prefixRead_marked (Or.inr ⟨rfl, hB⟩) (Or.inr rfl) g2 endp⟩
    next hB2 =>
    split
    next hb0 =>
      subst hb0
      split
      next hX => exact ⟨16, _, prefixRead_marked (Or.inl ⟨rfl, hX⟩) (Or.inl rfl) g16 endp⟩
      next hX =>
      split
      next hB => exact ⟨2, _, prefixRead_marked (Or.inr ⟨rfl, hB⟩) (Or.inl rfl) g2 endp⟩
      next hB =>
      have hno : ∀ r, ¬ Marks (p.headD 0) r := by
        intro r h
        rcases h with ⟨_, h⟩ | ⟨_, h⟩
        · exact hX h
        · exact hB h
      exact ⟨8, _, prefixRead_zero (words_octal hno) ⟨rfl, by decide, by decide⟩ endp⟩
    next hb0 =>
      have hno : ¬ Marks (p.headD 0) b := by
        intro h
        rcases h with ⟨hb, h⟩ | ⟨hb, h⟩
        · exact hX16 ⟨hb, h⟩
        · exact hB2 ⟨hb, h⟩
      exact ⟨b, _, prefixRead_zero (words_zero hb0 hno) (hb.good hb0) endp⟩
  · rw [if_neg h48]
    rcases eq_or_ne b 0 with rfl | hb0
    · rw [if_pos (h0.mpr rfl)]
      exact ⟨10, [], prefixRead_plain h48 (words_decimal h48) ⟨rfl, by decide, by decide⟩ endp⟩
    · rw [if_neg (h0.not.mpr hb0)]
      exact ⟨b, [], prefixRead_plain h48 (words_plain h48 hb0) (hb.good hb0) endp⟩

/-! ## Spaces and signs -/

theorem skipSpaces_append {spaces rest : List UInt8} (hs : ∀ c ∈ spaces, c = 32)
    (hrest : rest.headD 0 ≠ 32) : skipSpaces (spaces ++ rest) = rest := by
  induction spaces with
  | nil =>
    cases rest with
    | nil => rfl
    | cons c rest =>
      have hc : isSpace c = false := decide_eq_false hrest
      rw [List.nil_append, skipSpaces, hc]
      rfl
  | cons c spaces ih =>
    obtain ⟨rfl, htail⟩ := List.forall_mem_cons.mp hs
    exact ih htail

theorem skipSpaces_split (text : List UInt8) :
    ∃ spaces, text = spaces ++ skipSpaces text ∧ ∀ c ∈ spaces, c = 32 := by
  induction text with
  | nil => exact ⟨[], rfl, List.forall_mem_nil _⟩
  | cons c text ih =>
    by_cases hc : c = 32
    · subst hc
      obtain ⟨spaces, htext, hs⟩ := ih
      exact ⟨32 :: spaces, congrArg (32 :: ·) htext, List.forall_mem_cons.mpr ⟨rfl, hs⟩⟩
    · refine ⟨[], ?_, List.forall_mem_nil _⟩
      have hc' : isSpace c = false := decide_eq_false hc
      rw [skipSpaces, hc']
      rfl

theorem readSign_split (p : List UInt8) :
    ∃ sign, p = sign ++ (readSign p).2 ∧ Sign sign (readSign p).1 := by
  rw [readSign]
  split
  next h => exact ⟨[43], eq_cons_of_headD (by decide) h, .plus⟩
  next =>
    split
    next h => exact ⟨[45], eq_cons_of_headD (by decide) h, .minus⟩
    next => exact ⟨[], rfl, .none⟩

theorem readSign_append {sign rest : List UInt8} {isNeg : Bool} (h : Sign sign isNeg)
    (hrest : digitValue (rest.headD 0) < 36) : readSign (sign ++ rest) = (isNeg, rest) := by
  cases h with
  | none =>
    have h43 : rest.headD 0 ≠ 43 := fun h => absurd (h ▸ hrest) (by decide)
    have h45 : rest.headD 0 ≠ 45 := fun h => absurd (h ▸ hrest) (by decide)
    rw [List.nil_append, readSign, if_neg h43, if_neg h45]
  | plus => rfl
  | minus => rfl

/-- An unsigned word begins with a digit. -/
theorem Unsigned.headD {v : Nat} (hb : IsBase b) (h : Unsigned b w v) :
    digitValue (w.headD 0) < 36 := by
  have hnum : ∀ {b' v : Nat}, b' ≤ 36 → IsNumeral digitValue b' w v →
      digitValue (w.headD 0) < 36 := by
    intro b' v hle hnum
    obtain ⟨c, w, rfl⟩ := List.exists_cons_of_ne_nil hnum.notEmpty
    exact lt_of_lt_of_le (hnum.digits c List.mem_cons_self) hle
  cases h with
  | digits h0 h => exact hnum (hb.resolve_left h0).2 h
  | hex | bin | octal => exact (by decide : digitValue 48 < 36)
  | decimal _ h => exact hnum (by decide) h

/-- The words of a text are those behind its spaces and its sign. -/
theorem subject_prefix_iff (hb : IsBase b) {text : List UInt8} {z : Int} :
    w <+: text ∧ Subject b w z ↔
      ∃ u v, u <+: (readSign (skipSpaces text)).2 ∧ Unsigned b u v ∧
        (∃ front, text = front ++ (readSign (skipSpaces text)).2 ∧ w = front ++ u) ∧
        z = if (readSign (skipSpaces text)).1 then -(v : Int) else v := by
  constructor
  · intro h
    rcases h with ⟨⟨rest, rfl⟩, hw⟩
    cases hw with
    | @intro spaces sign u isNeg v hspaces hsign hu =>
      have hhead := hu.headD hb
      have happ : (u ++ rest).headD 0 = u.headD 0 := by
        obtain ⟨c, u, rfl⟩ := List.exists_cons_of_ne_nil hu.ne_nil
        rfl
      have hskip : skipSpaces (spaces ++ sign ++ u ++ rest) = sign ++ (u ++ rest) := by
        rw [List.append_assoc, List.append_assoc]
        apply skipSpaces_append hspaces
        cases hsign with
        | none =>
          rw [List.nil_append, happ]
          exact fun h => absurd (h ▸ hhead) (by decide)
        | plus => exact (by decide : (43 : UInt8) ≠ 32)
        | minus => exact (by decide : (45 : UInt8) ≠ 32)
      have hread : readSign (sign ++ (u ++ rest)) = (isNeg, u ++ rest) :=
        readSign_append hsign (happ ▸ hhead)
      rw [hskip, hread]
      exact ⟨u, v, List.prefix_append u rest, hu,
        ⟨spaces ++ sign, List.append_assoc _ _ _, rfl⟩, rfl⟩
  · intro h
    rcases h with ⟨u, v, ⟨rest, hrest⟩, hu, ⟨front, htext, rfl⟩, rfl⟩
    obtain ⟨spaces, hspaces, hall⟩ := skipSpaces_split text
    obtain ⟨sign, hsign, hkind⟩ := readSign_split (skipSpaces text)
    have hfront : front = spaces ++ sign := by
      apply @List.append_cancel_right _ _ (readSign (skipSpaces text)).2
      rw [← htext, List.append_assoc, ← hsign, ← hspaces]
    refine ⟨⟨rest, ?_⟩, ?_⟩
    · rw [List.append_assoc, hrest, ← htext]
    · rw [hfront]
      exact .intro hall hkind hu

/-! ## The result -/

theorem kLongMax_toInt : kLongMax.toInt = 2 ^ 63 - 1 := by decide

theorem kLongMin_toInt : kLongMin.toInt = -2 ^ 63 := by decide

theorem toInt64_toInt {n : UInt64} (h : n.toNat ≤ 2 ^ 63 - 1) : n.toInt64.toInt = n.toNat := by
  have hn : n.toInt64 = Int64.ofNat n.toNat := by
    rw [← UInt64.toInt64_ofNat', UInt64.ofNat_toNat]
  rw [hn, Int64.toInt_ofNat_of_lt (by omega)]

theorem neg_toInt64_toInt {n : UInt64} (h : n.toNat ≤ 2 ^ 63) :
    (-n).toInt64.toInt = -(n.toNat : Int) := by
  have hn : n.toInt64 = Int64.ofNat n.toNat := by
    rw [← UInt64.toInt64_ofNat', UInt64.ofNat_toNat]
  rw [UInt64.toInt64_neg, hn, Int64.toInt_neg_ofNat_of_le h]

theorem saturate_above {z : Int} (h : 2 ^ 63 - 1 < z) : saturate z = 2 ^ 63 - 1 := by
  unfold saturate
  omega

theorem saturate_below {z : Int} (h : z < -2 ^ 63) : saturate z = -2 ^ 63 := by
  unfold saturate
  omega

theorem saturate_within {z : Int} (h : -2 ^ 63 ≤ z ∧ z ≤ 2 ^ 63 - 1) : saturate z = z := by
  unfold saturate
  omega

/-- What is returned of the digits that were read. -/
theorem Reading.value {s : DigitsRead} {v : Nat} (hs : Reading isNeg s v) :
    (if s.overflow then (if isNeg then kLongMin else kLongMax)
      else (if isNeg then -s.n else s.n).toInt64).toInt =
    saturate (if isNeg then -(v : Int) else v) := by
  cases hov : s.overflow with
  | true =>
    have hv := hs.overflow.mp hov
    cases isNeg with
    | true =>
      have hv' : 2 ^ 63 < v := hv
      exact kLongMin_toInt.trans (saturate_below (z := -(v : Int)) (by omega)).symm
    | false =>
      have hv' : 2 ^ 63 - 1 < v := hv
      exact kLongMax_toInt.trans (saturate_above (z := (v : Int)) (by omega)).symm
  | false =>
    have hn := hs.n hov
    have hv : ¬ limit isNeg < v := fun h => absurd (hs.overflow.mpr h) (by simp [hov])
    cases isNeg with
    | true =>
      have hv' : ¬ 2 ^ 63 < v := hv
      have hvalue := neg_toInt64_toInt (n := s.n) (by omega)
      rw [hn] at hvalue
      exact hvalue.trans (saturate_within (z := -(v : Int)) (by omega)).symm
    | false =>
      have hv' : ¬ 2 ^ 63 - 1 < v := hv
      have hvalue := toInt64_toInt (n := s.n) (by omega)
      rw [hn] at hvalue
      exact hvalue.trans (saturate_within (z := (v : Int)) (by omega)).symm

/-- The words of a text are a zero or digits, behind what was skipped. -/
theorem PrefixRead.subjects (hb : IsBase b) {text : List UInt8} {r : BasePrefix} {b' : Nat}
    {start : List UInt8} (hr : PrefixRead b (readSign (skipSpaces text)).2 text r b' start) :
    ∃ front, text = front ++ (readSign (skipSpaces text)).2 ∧
      ∀ w z, w <+: text ∧ Subject b w z ↔ ∃ u v, w = front ++ u ∧
        ((readSign (skipSpaces text)).2.headD 0 = 48 ∧ u = [48] ∧ v = 0 ∨
          ∃ d, u = start ++ d ∧ d ≠ [] ∧ d <+: leadingDigits digitValue b' r.p ∧
            v = readDigits digitValue b' 0 d) ∧
        z = if (readSign (skipSpaces text)).1 then -(v : Int) else v := by
  obtain ⟨spaces, hspaces, _⟩ := skipSpaces_split text
  obtain ⟨sign, hsign, _⟩ := readSign_split (skipSpaces text)
  have htext : text = (spaces ++ sign) ++ (readSign (skipSpaces text)).2 := by
    rw [List.append_assoc, ← hsign, ← hspaces]
  refine ⟨spaces ++ sign, htext, ?_⟩
  intro w z
  rw [subject_prefix_iff hb]
  constructor
  · intro h
    rcases h with ⟨u, v, hu, hword, ⟨front, hfront, hw⟩, hz⟩
    obtain rfl : front = spaces ++ sign := List.append_cancel_right (hfront.symm.trans htext)
    exact ⟨u, v, hw, (hr.words u v).mp ⟨hu, hword⟩, hz⟩
  · intro h
    rcases h with ⟨u, v, hw, hword, hz⟩
    obtain ⟨hu, hword⟩ := (hr.words u v).mpr hword
    exact ⟨u, v, hu, hword, ⟨spaces ++ sign, htext, hw⟩, hz⟩

/-- The reference for a text of which the spaces, the sign and the mark of the base were read. -/
theorem strtol_of_read (hb : IsBase b) {text : List UInt8} {r : BasePrefix} {b' : Nat}
    {start : List UInt8} (hr : PrefixRead b (readSign (skipSpaces text)).2 text r b' start) :
    Strtol b text
      (saturate (if (readSign (skipSpaces text)).1 then
        -(readDigits digitValue b' 0 (leadingDigits digitValue b' r.p) : Int)
      else readDigits digitValue b' 0 (leadingDigits digitValue b' r.p)))
      (if leadingDigits digitValue b' r.p = [] then r.endp
      else r.p.drop (leadingDigits digitValue b' r.p).length) := by
  obtain ⟨front, htext, hwords⟩ := hr.subjects hb
  set t := (readSign (skipSpaces text)).2
  set isNeg := (readSign (skipSpaces text)).1
  set ds := leadingDigits digitValue b' r.p with hds
  rcases eq_or_ne ds [] with hnil | hne
  · rw [if_pos hnil, hnil, readDigits_nil, hr.endp]
    have hnone : ∀ {d : List UInt8}, d ≠ [] → ¬ d <+: ds := fun hd h =>
      hd (List.prefix_nil.mp (hnil ▸ h))
    by_cases h48 : t.headD 0 = 48
    · -- without a digit behind it, the zero is the word
      obtain ⟨hp, hs⟩ := (hwords _ _).mpr ⟨[48], 0, rfl, Or.inl ⟨h48, rfl, rfl⟩, rfl⟩
      rw [if_pos h48]
      refine .converted ⟨hp, hs, ?_⟩ ?_
      · intro w z hw hz
        obtain ⟨u, v, rfl, ⟨_, rfl, _⟩ | ⟨d, _, hd, hpre, _⟩, _⟩ := (hwords w z).mp ⟨hw, hz⟩
        · exact Nat.le_refl _
        · exact absurd hpre (hnone hd)
      · have hcons := eq_cons_of_headD (by decide) h48
        rw [List.append_assoc, htext]
        exact congrArg (front ++ ·) hcons
    · have hzero : saturate (if isNeg then -((0 : Nat) : Int) else ((0 : Nat) : Int)) = 0 := by
        cases isNeg <;> rfl
      rw [hzero, if_neg h48]
      apply Strtol.notConverted
      intro w z hw hz
      obtain ⟨u, v, _, ⟨h, _⟩ | ⟨d, _, hd, hpre, _⟩, _⟩ := (hwords w z).mp ⟨hw, hz⟩
      · exact h48 h
      · exact hnone hd hpre
  · rw [if_neg hne]
    obtain ⟨hp, hs⟩ := (hwords _ _).mpr
      ⟨start ++ ds, _, rfl, Or.inr ⟨ds, rfl, hne, List.prefix_rfl, rfl⟩, rfl⟩
    refine .converted ⟨hp, hs, ?_⟩ ?_
    · intro w z hw hz
      have hpos := List.length_pos_of_ne_nil hne
      obtain ⟨u, v, rfl, ⟨_, rfl, _⟩ | ⟨d, rfl, _, hpre, _⟩, _⟩ := (hwords w z).mp ⟨hw, hz⟩
      · simp only [List.length_append, List.length_singleton]
        omega
      · have hle := hpre.length_le
        simp only [List.length_append]
        omega
    · have hdigits : ds <+: r.p := List.takeWhile_prefix _
      have hp := List.prefix_iff_eq_append.mp hdigits
      rw [List.append_assoc, List.append_assoc start, hp, ← hr.text]
      exact htext

/-- The two ways to write a number: in one base, or behind the letter of one. -/
theorem Unsigned.written {v : Nat} (h : Unsigned b w v) :
    IsNumeral digitValue (if b = 0 then (if w.headD 0 = 48 then 8 else 10) else b) w v ∨
      ∃ x r u, Marks x r ∧ (b = 0 ∨ b = r) ∧ w = 48 :: x :: u ∧ IsNumeral digitValue r u v := by
  cases h with
  | digits hb h => exact Or.inl (by rwa [if_neg hb])
  | hex hb hx h => exact Or.inr ⟨_, 16, _, Or.inl ⟨rfl, hx⟩, hb, rfl, h⟩
  | bin hb hx h => exact Or.inr ⟨_, 2, _, Or.inr ⟨rfl, hx⟩, hb, rfl, h⟩
  | octal h => exact Or.inl h
  | decimal h0 h => exact Or.inl (by rwa [if_pos rfl, if_neg h0])

theorem Unsigned.unique {v v' : Nat} (h : Unsigned b w v) (h' : Unsigned b w v') : v = v' := by
  -- the letter is no digit of a base in which the whole word could be read
  have hnot : ∀ {x r u v}, Marks x r → b = 0 ∨ b = r → w = 48 :: x :: u →
      ¬ IsNumeral digitValue (if b = 0 then (if w.headD 0 = 48 then 8 else 10) else b) w v := by
    intro x r u v hx hb h hnum
    subst h
    have hdigit := hnum.digits x (List.mem_cons_of_mem _ List.mem_cons_self)
    obtain ⟨hr, h8⟩ := hx.notDigit
    by_cases hb0 : b = 0
    · rw [if_pos hb0] at hdigit
      exact h8 hdigit
    · rw [if_neg hb0, hb.resolve_left hb0] at hdigit
      exact hr hdigit
  rcases h.written with hnum | ⟨x, r, u, hx, hb, hw, hnum⟩
  · rcases h'.written with hnum' | ⟨x, r, u, hx, hb, hw, _⟩
    · exact hnum.value.trans hnum'.value.symm
    · exact absurd hnum (hnot hx hb hw)
  · rcases h'.written with hnum' | ⟨x', r', u', hx', _, hw', hnum'⟩
    · exact absurd hnum' (hnot hx hb hw)
    · obtain ⟨rfl, rfl⟩ := List.cons_eq_cons.mp (List.cons_eq_cons.mp (hw.symm.trans hw')).2
      obtain rfl := hx.unique hx'
      exact hnum.value.trans hnum'.value.symm

theorem Subject.unique (hb : IsBase b) {z z' : Int} (h : Subject b w z) (h' : Subject b w z') :
    z = z' := by
  obtain ⟨u, v, _, hu, ⟨front, hfront, hw⟩, rfl⟩ := (subject_prefix_iff hb).mp ⟨List.prefix_rfl, h⟩
  obtain ⟨u', v', _, hu', ⟨front', hfront', hw'⟩, rfl⟩ :=
    (subject_prefix_iff hb).mp ⟨List.prefix_rfl, h'⟩
  obtain rfl := List.append_cancel_left (hfront.symm.trans hw)
  obtain rfl := List.append_cancel_left (hfront'.symm.trans hw')
  rw [hu.unique hu']

/-- The reference has one result for a text. -/
theorem Strtol.unique (hb : IsBase b) {text rest rest' : List UInt8} {z z' : Int}
    (h : Strtol b text z rest) (h' : Strtol b text z' rest') : z = z' ∧ rest = rest' := by
  cases h with
  | converted hl hrest =>
    cases h' with
    | converted hl' hrest' =>
      obtain rfl := hl.unique hl'
      exact ⟨congrArg saturate (hl.belongs.unique hb hl'.belongs),
        List.append_cancel_left (hrest.symm.trans hrest')⟩
    | notConverted hno => exact absurd hl.belongs (hno _ _ hl.isPrefix)
  | notConverted hno =>
    cases h' with
    | converted hl' _ => exact absurd hl'.belongs (hno _ _ hl'.isPrefix)
    | notConverted _ => exact ⟨rfl, rfl⟩

/-- `StringToLong` is `strtol`, and no sum wraps around. -/
theorem stringToLong_strtol (nptr : List UInt8) (endptr : Bool) {base : Int32}
    (hbase : base = 0 ∨ 2 ≤ base ∧ base ≤ 36) :
    ∃ rest, Strtol base.toInt.toNat nptr (stringToLong nptr endptr base).value.toInt rest ∧
      (stringToLong nptr endptr base).endp = (if endptr then some rest else none) ∧
      (stringToLong nptr endptr base).wrapped = false := by
  have hint : base.toInt = 0 ∨ 2 ≤ base.toInt ∧ base.toInt ≤ 36 := by
    rcases hbase with rfl | ⟨h2, h36⟩
    · exact Or.inl rfl
    · exact Or.inr ⟨Int32.le_iff_toInt_le.mp h2, Int32.le_iff_toInt_le.mp h36⟩
  have hb : IsBase base.toInt.toNat := by
    unfold IsBase
    omega
  have hbase' : Int32.ofNat base.toInt.toNat = base := by
    rw [← Int32.toInt_inj, Int32.toInt_ofNat_of_lt (by omega)]
    omega
  have haccepted : ¬ (base < 0 ∨ base = 1 ∨ 36 < base) := by
    rw [← Int32.toInt_inj, Int32.lt_iff_toInt_lt, Int32.lt_iff_toInt_lt]
    simp only [Int32.toInt_zero, Int32.toInt_one]
    have h36 : (36 : Int32).toInt = 36 := rfl
    omega
  set b := base.toInt.toNat with hbdef
  obtain ⟨b', start, hread⟩ := readPrefix_read hb (readSign (skipSpaces nptr)).2 nptr
  rw [hbase'] at hread
  have hfirst : Reading (readSign (skipSpaces nptr)).1
      ⟨0, (readPrefix base (readSign (skipSpaces nptr)).2 nptr).endp, false, false⟩ 0 :=
    ⟨iff_of_false Bool.false_ne_true (Nat.not_lt_zero _), fun _ => rfl, rfl⟩
  have hloop := @digitLoop_reading _ _ _ endptr
    (readPrefix base (readSign (skipSpaces nptr)).2 nptr).p _ hread.good _ hfirst
  have hstrtol := strtol_of_read hb hread
  rw [← hloop.value] at hstrtol
  rw [stringToLong, if_neg haccepted]
  refine ⟨_, hstrtol, ?_, hloop.wrapped⟩
  cases endptr with
  | true => exact congrArg some (digitLoop_endp hread.good _ _)
  | false => rfl

/-- `"  -0x1Fz"`, in the base that it names. -/
theorem stringToLong_strtol_hex :
    ∃ rest, Strtol 0 [32, 32, 45, 48, 120, 49, 70, 122] (-31) rest := by
  obtain ⟨rest, h, _⟩ :=
    stringToLong_strtol [32, 32, 45, 48, 120, 49, 70, 122] true (Or.inl rfl : (0 : Int32) = 0 ∨ _)
  have hvalue : (stringToLong [32, 32, 45, 48, 120, 49, 70, 122] true 0).value.toInt = -31 := by
    decide
  rw [hvalue] at h
  exact ⟨rest, h⟩

end Zka.BootKit
