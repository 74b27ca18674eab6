import Mathlib

/-!
# Packed layouts

A packed structure of `n` bytes without padding is in bijection with the byte
strings of length `n`.  Layouts compose field by field; an integer field is its
little-endian digits in base 256.
-/

namespace Zka

/-- The byte strings of length `n`. -/
abbrev Bytes (n : Nat) := Fin n → UInt8

/-- A packed representation of `α` by exactly `n` bytes. -/
abbrev Layout (α : Type) (n : Nat) := α ≃ Bytes n

namespace Layout

variable {α β : Type} {m n : Nat}

/-- A field that is itself a byte buffer. -/
def bytes (n : Nat) : Layout (Bytes n) n := Equiv.refl _

def append (first : Layout α m) (second : Layout β n) : Layout (α × β) (m + n) :=
  (Equiv.prodCongr first second).trans (Fin.appendEquiv m n)

def map (e : α ≃ β) (layout : Layout β n) : Layout α n := e.trans layout

def cast (h : m = n) (layout : Layout α m) : Layout α n :=
  layout.trans (Equiv.arrowCongr (finCongr h) (Equiv.refl _))

private def byteDigit : UInt8 ≃ Fin 256 where
  toFun b := b.toFin
  invFun := UInt8.ofFin
  left_inv _ := rfl
  right_inv _ := rfl

/-- Little-endian digits of a number below `256 ^ n`. -/
def digits (n : Nat) : Layout (Fin (256 ^ n)) n :=
  finFunctionFinEquiv.symm.trans (Equiv.arrowCongr (Equiv.refl _) byteDigit.symm)

/-- A character of one byte. -/
def u8 : Layout UInt8 1 where
  toFun b _ := b
  invFun b := b 0
  left_inv _ := rfl
  right_inv b := by
    funext i
    rw [Fin.fin_one_eq_zero i]

private def u16Equiv : UInt16 ≃ Fin (256 ^ 2) where
  toFun x := x.toFin
  invFun := UInt16.ofFin
  left_inv _ := rfl
  right_inv _ := rfl

private def u32Equiv : UInt32 ≃ Fin (256 ^ 4) where
  toFun x := x.toFin
  invFun := UInt32.ofFin
  left_inv _ := rfl
  right_inv _ := rfl

private def u64Equiv : UInt64 ≃ Fin (256 ^ 8) where
  toFun x := x.toFin
  invFun := UInt64.ofFin
  left_inv _ := rfl
  right_inv _ := rfl

private def i32Equiv : Int32 ≃ UInt32 where
  toFun x := x.toUInt32
  invFun x := ⟨x⟩
  left_inv _ := rfl
  right_inv _ := rfl

private def i64Equiv : Int64 ≃ UInt64 where
  toFun x := x.toUInt64
  invFun x := ⟨x⟩
  left_inv _ := rfl
  right_inv _ := rfl

private def i16Equiv : Int16 ≃ UInt16 where
  toFun x := x.toUInt16
  invFun x := ⟨x⟩
  left_inv _ := rfl
  right_inv _ := rfl

def u16 : Layout UInt16 2 := (digits 2).map u16Equiv

def u32 : Layout UInt32 4 := (digits 4).map u32Equiv

def u64 : Layout UInt64 8 := (digits 8).map u64Equiv

def i16 : Layout Int16 2 := u16.map i16Equiv

def i32 : Layout Int32 4 := u32.map i32Equiv

def i64 : Layout Int64 8 := u64.map i64Equiv

theorem append_apply_castAdd (first : Layout α m) (second : Layout β n) (x : α × β) (i : Fin m) :
    first.append second x (Fin.castAdd n i) = first x.1 i := by
  simp [append, Fin.appendEquiv]

theorem append_apply_natAdd (first : Layout α m) (second : Layout β n) (x : α × β) (i : Fin n) :
    first.append second x (Fin.natAdd m i) = second x.2 i := by
  simp [append, Fin.appendEquiv]

theorem append_apply (first : Layout α m) (second : Layout β n) (x : α × β) (i : Fin (m + n)) :
    first.append second x i =
      if h : i.val < m then first x.1 ⟨i, h⟩ else second x.2 ⟨i - m, by omega⟩ := by
  by_cases h : i.val < m
  · rw [dif_pos h]
    exact append_apply_castAdd first second x ⟨i, h⟩
  · have hi : i = Fin.natAdd m ⟨i - m, by omega⟩ := Fin.ext (by simp; omega)
    rw [dif_neg h]
    conv_lhs => rw [hi]
    exact append_apply_natAdd first second x _

/-- Two values whose parts agree at an index have the same byte there. -/
theorem append_agree {first : Layout α m} {second : Layout β n} {x y : α × β} {i : Nat}
    {hi : i < m + n} (hhead : ∀ h : i < m, first x.1 ⟨i, h⟩ = first y.1 ⟨i, h⟩)
    (htail : ∀ h : i - m < n, m ≤ i → second x.2 ⟨i - m, h⟩ = second y.2 ⟨i - m, h⟩) :
    first.append second x ⟨i, hi⟩ = first.append second y ⟨i, hi⟩ := by
  rw [append_apply, append_apply]
  by_cases h : i < m
  · rw [dif_pos h, dif_pos h]
    exact hhead h
  · rw [dif_neg h, dif_neg h]
    exact htail (by omega) (by omega)

theorem cast_apply (h : m = n) (layout : Layout α m) (x : α) (i : Fin n) :
    layout.cast h x i = layout x (Fin.cast h.symm i) := by
  subst h
  rfl

theorem map_apply (e : α ≃ β) (layout : Layout β n) (x : α) (i : Fin n) :
    layout.map e x i = layout (e x) i := rfl

theorem digits_apply (n : Nat) (x : Fin (256 ^ n)) (i : Fin n) :
    digits n x i = UInt8.ofNat (x.val / 256 ^ i.val) := by
  have h : (digits n x i).toNat = x.val / 256 ^ i.val % 256 := by
    change ((finFunctionFinEquiv.symm x i : Fin 256) : Nat) = _
    rw [finFunctionFinEquiv_symm_apply_val]
  apply UInt8.toNat_inj.mp
  rw [h]
  simp

theorem u8_apply (v : UInt8) (i : Fin 1) : u8 v i = UInt8.ofNat (v.toNat / 256 ^ i.val) := by
  rw [Fin.fin_one_eq_zero i, Fin.val_zero, pow_zero, Nat.div_one, UInt8.ofNat_toNat]
  rfl

theorem u16_apply (v : UInt16) (i : Fin 2) : u16 v i = UInt8.ofNat (v.toNat / 256 ^ i.val) :=
  digits_apply 2 v.toFin i

theorem u32_apply (v : UInt32) (i : Fin 4) : u32 v i = UInt8.ofNat (v.toNat / 256 ^ i.val) :=
  digits_apply 4 v.toFin i

theorem u64_apply (v : UInt64) (i : Fin 8) : u64 v i = UInt8.ofNat (v.toNat / 256 ^ i.val) :=
  digits_apply 8 v.toFin i

theorem i32_eq (v : Int32) : i32 v = u32 v.toUInt32 := rfl

theorem u32_low (v : UInt32) : u32 v 0 = v.toUInt8 := by
  rw [u32_apply]
  simp

theorem digits_zero (n : Nat) : digits n ⟨0, by positivity⟩ = fun _ => 0 := by
  funext i
  simp [digits, finFunctionFinEquiv, byteDigit]
  rfl

theorem u16_zero : u16 0 = fun _ => 0 := digits_zero 2

theorem u32_zero : u32 0 = fun _ => 0 := digits_zero 4

theorem u64_zero : u64 0 = fun _ => 0 := digits_zero 8

theorem i32_zero : i32 0 = fun _ => 0 := digits_zero 4

theorem i64_zero : i64 0 = fun _ => 0 := digits_zero 8

theorem append_zero {first : Layout α m} {second : Layout β n} {a : α} {b : β}
    (ha : first a = fun _ => 0) (hb : second b = fun _ => 0) :
    first.append second (a, b) = fun _ => 0 := by
  funext i
  refine Fin.addCases (fun i => ?_) (fun i => ?_) i
  · rw [append_apply_castAdd, ha]
  · rw [append_apply_natAdd, hb]

theorem cast_zero (h : m = n) {layout : Layout α m} {a : α} (ha : layout a = fun _ => 0) :
    layout.cast h a = fun _ => 0 := by
  subst h
  exact ha

theorem map_zero {e : α ≃ β} {layout : Layout β n} {a : α} (h : layout (e a) = fun _ => 0) :
    layout.map e a = fun _ => 0 := h

end Layout

end Zka
