import Mathlib

/-!
# Cyclic redundancy checks

The shift register of a reflected check of any width.  A step of the register is
linear, and injective when the polynomial has its top bit; as many bytes as the
register holds go into it as one word.  A burst of errors that is no longer than
the register therefore changes the check.
-/

namespace Zka.Crc

variable {w : Nat} (poly : BitVec w)

/-- One step of the register to the right. -/
def bitStep (s : BitVec w) : BitVec w := s >>> 1 ^^^ if s.getLsbD 0 then poly else 0

/-- The register after one more byte. -/
def byteStep (s : BitVec w) (byte : BitVec 8) : BitVec w :=
  (bitStep poly)^[8] (s ^^^ byte.setWidth w)

/-- The check of a byte string. -/
def check (init out : BitVec w) (bytes : List (BitVec 8)) : BitVec w :=
  bytes.foldl (byteStep poly) init ^^^ out

/-! ## Steps of the register -/

theorem bitStep_xor (s t : BitVec w) :
    bitStep poly (s ^^^ t) = bitStep poly s ^^^ bitStep poly t := by
  ext i hi
  cases hs : s.getLsbD 0 <;> cases ht : t.getLsbD 0 <;>
    simp [bitStep, hs, ht, Bool.xor_comm, Bool.xor_left_comm]

theorem iterate_bitStep_xor (n : Nat) (s t : BitVec w) :
    (bitStep poly)^[n] (s ^^^ t) = (bitStep poly)^[n] s ^^^ (bitStep poly)^[n] t := by
  induction n generalizing s t with
  | zero => rfl
  | succ n ih => rw [Function.iterate_succ_apply, bitStep_xor, ih]; rfl

theorem getLsbD_bitStep (s : BitVec w) (i : Nat) :
    (bitStep poly s).getLsbD i = (s.getLsbD (1 + i) ^^ (s.getLsbD 0 && poly.getLsbD i)) := by
  cases hs : s.getLsbD 0 <;> simp [bitStep, hs]

/-- The top bit after a step is the bit that left the register. -/
theorem bitStep_injective (h : poly.msb = true) : Function.Injective (bitStep poly) := by
  intro s t heq
  have hbit : ∀ i, (s.getLsbD (1 + i) ^^ (s.getLsbD 0 && poly.getLsbD i)) =
      (t.getLsbD (1 + i) ^^ (t.getLsbD 0 && poly.getLsbD i)) := by
    intro i
    rw [← getLsbD_bitStep, ← getLsbD_bitStep, heq]
  have htop : poly.getLsbD (w - 1) = true := by rwa [← BitVec.msb_eq_getLsbD_last]
  have hw : 0 < w := by
    cases w with
    | zero => simp at htop
    | succ w => exact Nat.succ_pos w
  have hout : ∀ u : BitVec w, u.getLsbD (1 + (w - 1)) = false := by
    intro u
    exact BitVec.getLsbD_of_ge u _ (by omega)
  have hlow : s.getLsbD 0 = t.getLsbD 0 := by
    have hlast := hbit (w - 1)
    rwa [hout, hout, htop, Bool.and_true, Bool.and_true, Bool.false_xor, Bool.false_xor] at hlast
  apply BitVec.eq_of_getLsbD_eq
  intro i hi
  cases i with
  | zero => exact hlow
  | succ i =>
    have hnext := hbit i
    rw [hlow, Bool.xor_left_inj, Nat.add_comm 1 i] at hnext
    exact hnext

/-- Bits that are zero leave the register without a trace. -/
theorem iterate_bitStep_of_low_zero {n : Nat} {t : BitVec w}
    (h : ∀ i, i < n → t.getLsbD i = false) : (bitStep poly)^[n] t = t >>> n := by
  induction n generalizing t with
  | zero => simp
  | succ n ih =>
    have hlow : t.getLsbD 0 = false := h 0 (Nat.succ_pos n)
    have hstep : bitStep poly t = t >>> 1 := by simp [bitStep, hlow]
    rw [Function.iterate_succ_apply, hstep, ih, ← BitVec.shiftRight_add, Nat.add_comm]
    intro i hi
    rw [BitVec.getLsbD_ushiftRight]
    exact h (1 + i) (by omega)

/-- A table of the steps of one byte runs the register by bytes. -/
theorem byteStep_table (s : BitVec w) (byte : BitVec 8) :
    byteStep poly s byte =
      (bitStep poly)^[8] ((s.setWidth 8 ^^^ byte).setWidth w) ^^^ s >>> 8 := by
  have hlow : ∀ i, i < 8 → (s >>> 8 <<< 8).getLsbD i = false := by
    intro i hi
    simp [hi]
  have hsplit : s ^^^ byte.setWidth w = (s.setWidth 8 ^^^ byte).setWidth w ^^^ s >>> 8 <<< 8 := by
    apply BitVec.eq_of_getLsbD_eq
    intro i hi
    by_cases h8 : i < 8
    · simp [h8, hi]
    · simp [h8, hi, show 8 + (i - 8) = i by omega, Bool.xor_comm]
  have hback : s >>> 8 <<< 8 >>> 8 = s >>> 8 := by
    apply BitVec.eq_of_getLsbD_eq
    intro i hi
    simpa using fun h => BitVec.lt_of_getLsbD h
  rw [byteStep, hsplit, iterate_bitStep_xor, iterate_bitStep_of_low_zero poly hlow, hback]

/-! ## Words of bytes -/

/-- The bytes in one register, the first in its lowest bits. -/
def word (w : Nat) : List (BitVec 8) → BitVec w
  | [] => 0
  | byte :: bytes => byte.setWidth w ^^^ word w bytes <<< 8

theorem getLsbD_word {i : Nat} (hi : i < w) (bytes : List (BitVec 8)) :
    (word w bytes).getLsbD i = (bytes.getD (i / 8) 0).getLsbD (i % 8) := by
  induction bytes generalizing i with
  | nil => simp [word]
  | cons byte bytes ih =>
    by_cases h8 : i < 8
    · have hdiv : i / 8 = 0 := by omega
      have hmod : i % 8 = i := by omega
      simp [word, h8, hi, hdiv, hmod]
    · have hdiv : i / 8 = (i - 8) / 8 + 1 := by omega
      have hmod : i % 8 = (i - 8) % 8 := by omega
      have hrest := ih (i := i - 8) (by omega)
      have hin : i - 8 < w := by omega
      have htop : byte.getLsbD i = false := BitVec.getLsbD_of_ge _ _ (by omega)
      rw [hdiv, hmod, List.getD_cons_succ, ← hrest]
      simp [word, h8, hi, htop, BitVec.getLsbD_eq_getElem hin]

theorem getLsbD_word_of_ge {i : Nat} {bytes : List (BitVec 8)} (h : 8 * bytes.length ≤ i) :
    (word w bytes).getLsbD i = false := by
  by_cases hi : i < w
  · have hout : bytes.length ≤ i / 8 := by omega
    rw [getLsbD_word hi, List.getD_eq_default _ _ hout]
    simp
  · exact BitVec.getLsbD_of_ge _ _ (by omega)

theorem word_injective {bytes bytes' : List (BitVec 8)} (hlen : bytes.length = bytes'.length)
    (hw : 8 * bytes.length ≤ w) (h : word w bytes = word w bytes') : bytes = bytes' := by
  apply List.ext_getElem hlen
  intro k hk hk'
  apply BitVec.eq_of_getLsbD_eq
  intro i hi
  have hdiv : (8 * k + i) / 8 = k := by omega
  have hmod : (8 * k + i) % 8 = i := by omega
  have hbit := congrArg (BitVec.getLsbD · (8 * k + i)) h
  rw [getLsbD_word (by omega), getLsbD_word (by omega), hdiv, hmod] at hbit
  simpa [hk, hk'] using hbit

/-- Bytes that fit into the register go into it as one word. -/
theorem foldl_byteStep (s : BitVec w) {bytes : List (BitVec 8)} (hw : 8 * bytes.length ≤ w) :
    bytes.foldl (byteStep poly) s =
      (bitStep poly)^[8 * bytes.length] (s ^^^ word w bytes) := by
  induction bytes generalizing s with
  | nil => simp [word]
  | cons byte bytes ih =>
    rw [List.length_cons] at hw
    have hlow : ∀ i, i < 8 → (word w bytes <<< 8).getLsbD i = false := by
      intro i hi
      simp [hi]
    have hback : word w bytes <<< 8 >>> 8 = word w bytes := by
      apply BitVec.eq_of_getLsbD_eq
      intro i hi
      by_cases hin : 8 + i < w
      · simp [hin, hi]
      · rw [getLsbD_word_of_ge (by omega)]
        simp [hin]
    rw [List.foldl_cons, ih _ (by omega), List.length_cons, Nat.mul_succ,
      Function.iterate_add_apply, word, ← BitVec.xor_assoc, iterate_bitStep_xor poly 8,
      iterate_bitStep_of_low_zero poly hlow, hback]
    rfl

/-! ## Detection -/

theorem byteStep_injective (h : poly.msb = true) (byte : BitVec 8) :
    Function.Injective (byteStep poly · byte) := by
  intro s t heq
  have hregister := (bitStep_injective poly h).iterate 8 heq
  simpa using hregister

theorem foldl_injective (h : poly.msb = true) (bytes : List (BitVec 8)) :
    Function.Injective fun s => bytes.foldl (byteStep poly) s := by
  induction bytes with
  | nil => exact Function.injective_id
  | cons byte bytes ih => exact ih.comp (byteStep_injective poly h byte)

/-- Two strings of one length that differ, but in no more than `n` places next to each other. -/
structure Burst {α : Type} (n : Nat) (xs ys : List α) : Prop where
  length_eq : xs.length = ys.length
  ne : xs ≠ ys
  window : ∃ k, xs.take k = ys.take k ∧ xs.drop (k + n) = ys.drop (k + n)

theorem Burst.map {α β : Type} {n : Nat} {xs ys : List α} (h : Burst n xs ys) {f : α → β}
    (hf : Function.Injective f) : Burst n (xs.map f) (ys.map f) := by
  obtain ⟨k, hbefore, hafter⟩ := h.window
  refine ⟨by simp [h.length_eq], fun heq => h.ne (List.map_injective_iff.mpr hf heq), k, ?_, ?_⟩
  · rw [← List.map_take, ← List.map_take, hbefore]
  · rw [← List.map_drop, ← List.map_drop, hafter]

/-- A burst no longer than the register changes the check. -/
theorem check_ne_of_burst (h : poly.msb = true) (init out : BitVec w) {n : Nat} (hw : 8 * n ≤ w)
    {xs ys : List (BitVec 8)} (hburst : Burst n xs ys) :
    check poly init out xs ≠ check poly init out ys := by
  intro heq
  obtain ⟨k, hbefore, hafter⟩ := hburst.window
  have hsplit : ∀ zs : List (BitVec 8),
      zs = zs.take k ++ ((zs.drop k).take n ++ zs.drop (k + n)) := by
    intro zs
    rw [← List.drop_drop, List.take_append_drop, List.take_append_drop]
  have hlen : ((xs.drop k).take n).length = ((ys.drop k).take n).length := by
    simp [hburst.length_eq]
  have hfit : ∀ zs : List (BitVec 8), 8 * ((zs.drop k).take n).length ≤ w := by
    intro zs
    have hle := List.length_take_le n (zs.drop k)
    omega
  rw [check, check, BitVec.xor_left_inj, hsplit xs, hsplit ys, hbefore, hafter] at heq
  simp only [List.foldl_append] at heq
  have hmiddle := foldl_injective poly h _ heq
  rw [foldl_byteStep poly _ (hfit xs), foldl_byteStep poly _ (hfit ys), ← hlen] at hmiddle
  have hword := (bitStep_injective poly h).iterate _ hmiddle
  rw [BitVec.xor_right_inj] at hword
  apply hburst.ne
  rw [hsplit xs, hsplit ys, hbefore, hafter, word_injective hlen (hfit xs) hword]

end Zka.Crc
