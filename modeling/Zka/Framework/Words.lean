import Mathlib

/-!
# Words and numerals

Words of digits over any alphabet, read from the most significant digit on, and the
longest prefix of a text that belongs to a language.
-/

namespace Zka

variable {α β : Type}

/-! ## Digits -/

section Digits

variable (val : α → Nat) (base : Nat)

/-- The digits at the start of a text. -/
def leadingDigits (text : List α) : List α := text.takeWhile fun c => val c < base

/-- What is denoted by `n` followed by the digits. -/
def readDigits (n : Nat) (digits : List α) : Nat := digits.foldl (fun n c => n * base + val c) n

/-- A word of one or more digits and what it denotes. -/
structure IsNumeral (word : List α) (n : Nat) : Prop where
  notEmpty : word ≠ []
  digits : ∀ c ∈ word, val c < base
  value : n = readDigits val base 0 word

variable {val base}

@[simp] theorem readDigits_nil (n : Nat) : readDigits val base n [] = n := rfl

@[simp] theorem readDigits_cons (n : Nat) (c : α) (digits : List α) :
    readDigits val base n (c :: digits) = readDigits val base (n * base + val c) digits := rfl

theorem leadingDigits_cons_pos {c : α} {text : List α} (h : val c < base) :
    leadingDigits val base (c :: text) = c :: leadingDigits val base text :=
  List.takeWhile_cons_of_pos (by simpa using h)

theorem leadingDigits_cons_neg {c : α} {text : List α} (h : ¬ val c < base) :
    leadingDigits val base (c :: text) = [] :=
  List.takeWhile_cons_of_neg (by simpa using h)

/-- More digits denote no less. -/
theorem le_readDigits (hb : 0 < base) (n : Nat) (digits : List α) :
    n ≤ readDigits val base n digits := by
  induction digits generalizing n with
  | nil => exact Nat.le_refl n
  | cons c digits ih =>
    have hmul : n ≤ n * base := Nat.le_mul_of_pos_right n hb
    exact le_trans (by omega) (ih (n * base + val c))

/-- The words of digits that a text begins with are the prefixes of its leading digits. -/
theorem isNumeral_prefix_iff {text word : List α} {n : Nat} :
    word <+: text ∧ IsNumeral val base word n ↔
      word ≠ [] ∧ word <+: leadingDigits val base text ∧ n = readDigits val base 0 word := by
  constructor
  · intro h
    rcases h with ⟨⟨rest, rfl⟩, hne, hdigits, hn⟩
    refine ⟨hne, ?_, hn⟩
    rw [leadingDigits, List.takeWhile_append_of_pos (by simpa using hdigits)]
    exact List.prefix_append _ _
  · intro h
    rcases h with ⟨hne, hstart, hn⟩
    refine ⟨hstart.trans (List.takeWhile_prefix _), hne, ?_, hn⟩
    intro c hc
    simpa using List.mem_takeWhile_imp (hstart.subset hc)

theorem IsNumeral.unique {word : List α} {n m : Nat} (h : IsNumeral val base word n)
    (h' : IsNumeral val base word m) : n = m :=
  h.value.trans h'.value.symm

theorem IsNumeral.single {c : α} (h : val c < base) : IsNumeral val base [c] (val c) := by
  refine ⟨List.cons_ne_nil c [], ?_, ?_⟩
  · intro d hd
    rwa [List.mem_singleton.mp hd]
  · rw [readDigits_cons, readDigits_nil, Nat.zero_mul, Nat.zero_add]

/-- One more digit behind a numeral. -/
theorem IsNumeral.concat {word : List α} {n : Nat} {c : α} (h : IsNumeral val base word n)
    (hc : val c < base) : IsNumeral val base (word ++ [c]) (n * base + val c) := by
  refine ⟨List.append_ne_nil_of_left_ne_nil h.notEmpty [c], ?_, ?_⟩
  · intro d hd
    rcases List.mem_append.mp hd with hd | hd
    · exact h.digits d hd
    · rwa [List.mem_singleton.mp hd]
  · rw [h.value, readDigits, readDigits, List.foldl_append]
    rfl

/-- The test for a sum above a bound that does not form the sum. -/
theorem cutoff_iff {bound n d : Nat} (hd : d < base) :
    (bound / base < n ∨ n = bound / base ∧ bound % base < d) ↔ bound < n * base + d := by
  have hdiv := Nat.div_add_mod bound base
  have hmod := Nat.mod_lt bound (show 0 < base by omega)
  rcases Nat.lt_trichotomy n (bound / base) with hlt | heq | hgt
  · have hmul : (n + 1) * base ≤ bound / base * base := Nat.mul_le_mul_right base hlt
    rw [Nat.mul_comm] at hdiv
    rw [Nat.add_mul] at hmul
    omega
  · subst heq
    rw [Nat.mul_comm] at hdiv
    omega
  · have hmul : (bound / base + 1) * base ≤ n * base := Nat.mul_le_mul_right base hgt
    rw [Nat.mul_comm] at hdiv
    rw [Nat.add_mul] at hmul
    omega

end Digits

/-! ## The longest prefix -/

/-- A prefix of the text that belongs to the language, with its meaning, and none that does is
longer. -/
structure IsLongest (language : List α → β → Prop) (text word : List α) (meaning : β) : Prop where
  isPrefix : word <+: text
  belongs : language word meaning
  longest : ∀ word' meaning', word' <+: text → language word' meaning' →
    word'.length ≤ word.length

theorem IsLongest.unique {language : List α → β → Prop} {text word word' : List α}
    {meaning meaning' : β} (h : IsLongest language text word meaning)
    (h' : IsLongest language text word' meaning') : word = word' := by
  have hle := h.longest word' meaning' h'.isPrefix h'.belongs
  have hge := h'.longest word meaning h.isPrefix h.belongs
  exact (List.prefix_of_prefix_length_le h.isPrefix h'.isPrefix hge).eq_of_length
    (Nat.le_antisymm hge hle)

end Zka
