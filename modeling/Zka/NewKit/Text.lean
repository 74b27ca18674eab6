import Mathlib

/-!
# Kernel strings

A character pointer is the list of the bytes it points at, up to the end of its
buffer; the end of the list reads as the terminator.
-/

namespace Zka.NewKit

/-- The loop increments before it tests, so the first byte is never looked at. -/
def rtStringLen : List UInt8 → Nat
  | [] => 1
  | _ :: rest => 1 + (rest.takeWhile (· ≠ 0)).length

/-- `rt_string_len` with a limit, which a longer string falls back to. -/
def rtStringLenMax (str : List UInt8) (len : Nat) : Nat :=
  if len + 1 < rtStringLen str then len else rtStringLen str

/-- `StringBuilder::Equals` on character pointers. -/
def equals (lhs rhs : List UInt8) : Bool :=
  if rtStringLen rhs ≠ rtStringLen lhs then false
  else (List.range (rtStringLen rhs)).all fun index => rhs.getD index 0 == lhs.getD index 0

/-- The bytes before the first terminator. -/
def cstr (buffer : List UInt8) : List UInt8 := buffer.takeWhile (· ≠ 0)

theorem cstr_isStart (buffer : List UInt8) : cstr buffer <+: buffer := List.takeWhile_prefix _

theorem cstr_of_notMem {text : List UInt8} (h : 0 ∉ text) : cstr text = text := by
  apply List.takeWhile_eq_self_iff.mpr
  intro b hb
  have hb0 : b ≠ 0 := by rintro rfl; exact h hb
  simpa using hb0

theorem cstr_append {text : List UInt8} (h : 0 ∉ text) (buffer : List UInt8) :
    cstr (text ++ buffer) = text ++ cstr buffer := by
  apply List.takeWhile_append_of_pos
  intro b hb
  have hb0 : b ≠ 0 := fun heq => h (heq ▸ hb)
  simpa using hb0

/-- A text followed by a terminator is read back whatever comes behind it. -/
theorem cstr_append_zero {text : List UInt8} (h : 0 ∉ text) (rest : List UInt8) :
    cstr (text ++ 0 :: rest) = text := by
  rw [cstr_append h]
  simp [cstr]

theorem cstr_eq_nil_iff {buffer : List UInt8} : cstr buffer = [] ↔ buffer.getD 0 0 = 0 := by
  cases buffer with
  | nil => simp [cstr]
  | cons b rest => by_cases hb : b = 0 <;> simp [cstr, hb]

theorem ne_zero_of_mem_cstr {buffer : List UInt8} {b : UInt8} (h : b ∈ cstr buffer) : b ≠ 0 := by
  simpa using List.mem_takeWhile_imp h

theorem getD_cstr_length (buffer : List UInt8) : buffer.getD (cstr buffer).length 0 = 0 := by
  induction buffer with
  | nil => rfl
  | cons b rest ih =>
    by_cases hb : b = 0
    · simp [cstr, hb]
    · simpa [cstr, hb] using ih

/-- The text in a buffer is what it begins with, up to a terminator or its end. -/
theorem cstr_eq_iff {text : List UInt8} (h : 0 ∉ text) (buffer : List UInt8) :
    cstr buffer = text ↔ text <+: buffer ∧ buffer.getD text.length 0 = 0 := by
  constructor
  · intro heq
    rw [← heq]
    exact ⟨cstr_isStart buffer, getD_cstr_length buffer⟩
  · intro hstart
    obtain ⟨⟨rest, rfl⟩, hend⟩ := hstart
    cases rest with
    | nil => rw [List.append_nil, cstr_of_notMem h]
    | cons r rest =>
      have hr : r = 0 := by simpa using hend
      rw [hr, cstr_append_zero h]

/-- The computed length is right as soon as the string is not empty. -/
theorem rtStringLen_eq {buffer : List UInt8} (h : cstr buffer ≠ []) :
    rtStringLen buffer = (cstr buffer).length := by
  cases buffer with
  | nil => exact absurd rfl h
  | cons b rest =>
    have hb : b ≠ 0 := by
      intro h
      subst h
      exact h (by simp [cstr])
    simp [rtStringLen, cstr, hb, Nat.add_comm]

theorem rtStringLen_text {text : List UInt8} (h : 0 ∉ text) (hne : text ≠ []) :
    rtStringLen text = text.length := by
  have hc := cstr_of_notMem h
  rw [rtStringLen_eq (by rwa [hc]), hc]

/-- The length that is computed reaches behind the text. -/
theorem cstr_take_rtStringLen (buffer : List UInt8) :
    cstr (buffer.take (rtStringLen buffer)) = cstr buffer := by
  cases buffer with
  | nil => rfl
  | cons b rest =>
    have htake : rest.take (rest.takeWhile (· ≠ 0)).length = rest.takeWhile (· ≠ 0) :=
      (List.prefix_iff_eq_take.mp (List.takeWhile_prefix _)).symm
    rw [rtStringLen, Nat.add_comm, List.take_succ_cons, htake]
    by_cases hb : b = 0
    · simp [cstr, hb]
    · simp [cstr, hb, List.takeWhile_takeWhile]

theorem rtStringLen_pos (buffer : List UInt8) : 0 < rtStringLen buffer := by
  cases buffer <;> simp [rtStringLen]

theorem cstr_getD {buffer : List UInt8} {i : Nat} (h : i < (cstr buffer).length) :
    buffer.getD i 0 = (cstr buffer).getD i 0 := by
  have hp := (cstr_isStart buffer).getElem h
  have hl := (cstr_isStart buffer).length_le
  rw [List.getD_eq_getElem _ _ h, List.getD_eq_getElem _ _ (by omega), hp]

theorem equals_comm (lhs rhs : List UInt8) : equals lhs rhs = equals rhs lhs := by
  by_cases h : rtStringLen rhs = rtStringLen lhs
  · simp only [equals, h, ne_eq, not_true_eq_false, if_false]
    congr 1
    funext index
    exact Bool.beq_comm
  · simp [equals, h, Ne.symm h]

/-- Strings that compare equal begin with the same byte. -/
theorem equals_head {lhs rhs : List UInt8} (h : equals lhs rhs = true) :
    lhs.getD 0 0 = rhs.getD 0 0 := by
  rw [equals] at h
  split at h
  · simp at h
  · simp only [List.all_eq_true, List.mem_range, beq_iff_eq] at h
    exact (h 0 (rtStringLen_pos rhs)).symm

@[simp] theorem equals_self (buffer : List UInt8) : equals buffer buffer = true := by
  simp [equals]

/-- Only the texts of the two buffers are compared, as long as the first is not empty. -/
theorem equals_cstr_iff {lhs : List UInt8} (h : cstr lhs ≠ []) (rhs : List UInt8) :
    equals lhs rhs = true ↔ cstr rhs = cstr lhs := by
  have hlen := rtStringLen_eq h
  constructor
  · intro he
    have h0 := equals_head he
    simp only [equals, hlen] at he
    split at he
    · simp at he
    rename_i hl
    simp only [ne_eq, not_not] at hl
    simp only [List.all_eq_true, List.mem_range, beq_iff_eq, hl] at he
    have hc : cstr rhs ≠ [] := by
      rw [Ne, cstr_eq_nil_iff] at h ⊢
      rwa [← h0]
    have hcl : (cstr rhs).length = (cstr lhs).length := by rw [← rtStringLen_eq hc, hl]
    apply List.ext_getElem hcl
    intro i hi hi'
    have ht := he i hi'
    rwa [cstr_getD hi, cstr_getD hi', List.getD_eq_getElem _ _ hi,
      List.getD_eq_getElem _ _ hi'] at ht
  · intro heq
    have hc : cstr rhs ≠ [] := by rwa [heq]
    simp only [equals, hlen, rtStringLen_eq hc, heq, ne_eq, not_true_eq_false, if_false,
      List.all_eq_true, List.mem_range, beq_iff_eq]
    intro i hi
    rw [cstr_getD hi, cstr_getD (heq ▸ hi), heq]

/-- Comparing a nonempty text with a buffer compares it with the text in the buffer. -/
theorem equals_iff {text : List UInt8} (h : 0 ∉ text) (hne : text ≠ []) (buffer : List UInt8) :
    equals text buffer = true ↔ cstr buffer = text := by
  have hc := cstr_of_notMem h
  rw [equals_cstr_iff (by rwa [hc]), hc]

/-- Two nonempty texts compare equal exactly when they are. -/
theorem equals_text_iff {a b : List UInt8} (ha : 0 ∉ a) (hne : a ≠ []) (hb : 0 ∉ b) :
    equals a b = true ↔ b = a := by
  rw [equals_iff ha hne, cstr_of_notMem hb]

example : rtStringLen [0, 97, 98, 0] = 3 := by decide

end Zka.NewKit
