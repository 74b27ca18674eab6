import Zka.Framework.Layout

/-!
# Byte stores and extents

An ideal byte-addressed store maps every address to a byte.  Typed access goes
through a packed layout, and every fact about two accesses is a fact about the
extents they touch.
-/

namespace Zka

/-- An ideal byte-addressed store. -/
abbrev Store := Nat → UInt8

/-- A half-open range of addresses. -/
structure Extent where
  start : Nat
  size : Nat
  deriving DecidableEq, Repr

namespace Extent

def addresses (e : Extent) : Set Nat := Set.Ico e.start (e.start + e.size)

def Apart (e f : Extent) : Prop := Disjoint e.addresses f.addresses

def Inside (e f : Extent) : Prop := e.addresses ⊆ f.addresses

def Within (e : Extent) (limit : Nat) : Prop := e.addresses ⊆ Set.Ico 0 limit

theorem Apart.symm {e f : Extent} (h : e.Apart f) : f.Apart e := Disjoint.symm h

theorem apart_of_le {e f : Extent} (h : e.start + e.size ≤ f.start) : e.Apart f := by
  simp only [Apart, addresses, Set.Ico_disjoint_Ico]
  omega

theorem not_apart_of_mem {e f : Extent} {a : Nat} (he : e.start ≤ a ∧ a < e.start + e.size)
    (hf : f.start ≤ a ∧ a < f.start + f.size) : ¬ e.Apart f := by
  intro h
  exact Set.disjoint_left.mp h (show a ∈ e.addresses from he) hf

/-- Extents that are not empty are apart exactly when one ends before the other begins. -/
theorem apart_iff {e f : Extent} (he : 0 < e.size) (hf : 0 < f.size) :
    e.Apart f ↔ e.start + e.size ≤ f.start ∨ f.start + f.size ≤ e.start := by
  simp only [Apart, addresses, Set.Ico_disjoint_Ico]
  omega

theorem inside_iff {e f : Extent} (he : 0 < e.size) :
    e.Inside f ↔ f.start ≤ e.start ∧ e.start + e.size ≤ f.start + f.size :=
  Set.Ico_subset_Ico_iff (Nat.lt_add_of_pos_right he)

theorem within_of_le {e : Extent} {limit : Nat} (h : e.start + e.size ≤ limit) :
    e.Within limit := by
  intro a ha
  exact ⟨Nat.zero_le a, lt_of_lt_of_le ha.2 h⟩

end Extent

namespace Store

variable {α β : Type} {m n : Nat}

/-- The `n` bytes from address `a` on. -/
def read (s : Store) (a n : Nat) : Bytes n := fun i => s (a + i)

/-- Replace the bytes from address `a` on. -/
def write (s : Store) (a : Nat) (b : Bytes n) : Store := fun x =>
  if h : a ≤ x ∧ x < a + n then b ⟨x - a, by omega⟩ else s x

def get (layout : Layout α n) (s : Store) (a : Nat) : α := layout.symm (s.read a n)

def put (layout : Layout α n) (s : Store) (a : Nat) (v : α) : Store := s.write a (layout v)

theorem write_outside (s : Store) {a : Nat} (b : Bytes n) {x : Nat} (h : x < a ∨ a + n ≤ x) :
    s.write a b x = s x := by
  rw [write, dif_neg]
  omega

theorem write_inside (s : Store) (a : Nat) (b : Bytes n) (i : Fin n) :
    s.write a b (a + i) = b i := by
  rw [write, dif_pos ⟨by omega, by omega⟩]
  congr 1
  exact Fin.ext (Nat.add_sub_cancel_left a i)

theorem read_write_same (s : Store) (a : Nat) (b : Bytes n) : (s.write a b).read a n = b := by
  funext i
  exact write_inside s a b i

/-- The frame rule: a write leaves every extent apart from its own as it was. -/
theorem read_write_apart (s : Store) {a c : Nat} (b : Bytes n) (h : c + m ≤ a ∨ a + n ≤ c) :
    (s.write a b).read c m = s.read c m := by
  funext i
  exact write_outside s b (by omega)

/-- A later write over the same extent hides the earlier one. -/
theorem write_write_same (s : Store) (a : Nat) (b c : Bytes n) :
    (s.write a b).write a c = s.write a c := by
  funext x
  by_cases h : a ≤ x ∧ x < a + n
  · simp [write, h]
  · simp [write, h]

@[simp] theorem get_put_same (layout : Layout α n) (s : Store) (a : Nat) (v : α) :
    get layout (put layout s a v) a = v := by
  rw [get, put, read_write_same, Equiv.symm_apply_apply]

theorem get_put_apart (layout : Layout α n) (layout' : Layout β m) (s : Store) {a c : Nat} (v : β)
    (h : c + n ≤ a ∨ a + m ≤ c) : get layout (put layout' s a v) c = get layout s c := by
  rw [get, put, read_write_apart s _ h, get]

theorem put_outside (layout : Layout α n) (s : Store) {a : Nat} (v : α) {x : Nat}
    (h : x < a ∨ a + n ≤ x) : put layout s a v x = s x :=
  write_outside s _ h

theorem put_put_same (layout : Layout α n) (s : Store) (a : Nat) (v w : α) :
    put layout (put layout s a v) a w = put layout s a w :=
  write_write_same s a _ _

/-- Writing back the value just read changes nothing. -/
theorem put_get (layout : Layout α n) (s : Store) (a : Nat) :
    put layout s a (get layout s a) = s := by
  funext x
  by_cases h : a ≤ x ∧ x < a + n
  · rw [put, write, dif_pos h, get, Equiv.apply_symm_apply, read]
    congr 1
    exact Nat.add_sub_cancel' h.1
  · rw [put, write, dif_neg h]

/-- Values read from extents that hold the same bytes agree. -/
theorem get_congr (layout : Layout α n) {s t : Store} {a : Nat}
    (h : ∀ x, a ≤ x → x < a + n → s x = t x) : get layout s a = get layout t a := by
  rw [get, get]
  congr 1
  funext i
  exact h (a + i) (by omega) (by omega)

section Digits

variable {layout : Layout α n} {toNat : α → Nat} {s : Store} {a : Nat}
  (hbytes : ∀ v i, layout v i = UInt8.ofNat (toNat v / 256 ^ i.val))
include hbytes

/-- A value is read where the digits of its number stand. -/
theorem get_digits_iff {v : α} :
    get layout s a = v ↔ ∀ i : Fin n, s (a + i) = UInt8.ofNat (toNat v / 256 ^ i.val) := by
  rw [get, Equiv.symm_apply_eq, funext_iff]
  simp only [hbytes]
  rfl

/-- A number that a value has is read where its digits stand. -/
theorem get_toNat_iff (hinj : Function.Injective toNat) {v : α} {k : Nat} (hv : toNat v = k) :
    toNat (get layout s a) = k ↔ ∀ i < n, s (a + i) = UInt8.ofNat (k / 256 ^ i) := by
  rw [← hv, hinj.eq_iff, get_digits_iff hbytes, Fin.forall_iff]

end Digits

theorem get_u16_iff {s : Store} {a : Nat} {v : UInt16} :
    get Layout.u16 s a = v ↔ ∀ i : Fin 2, s (a + i) = UInt8.ofNat (v.toNat / 256 ^ i.val) :=
  get_digits_iff Layout.u16_apply

theorem get_u32_iff {s : Store} {a : Nat} {v : UInt32} :
    get Layout.u32 s a = v ↔ ∀ i : Fin 4, s (a + i) = UInt8.ofNat (v.toNat / 256 ^ i.val) :=
  get_digits_iff Layout.u32_apply

theorem get_u64_iff {s : Store} {a : Nat} {v : UInt64} :
    get Layout.u64 s a = v ↔ ∀ i : Fin 8, s (a + i) = UInt8.ofNat (v.toNat / 256 ^ i.val) :=
  get_digits_iff Layout.u64_apply

/-- A value whose bytes are all zero is read from every zeroed extent. -/
theorem get_of_zero (layout : Layout α n) {s : Store} {a : Nat} {v : α}
    (hv : layout v = fun _ => 0) (h : ∀ x, a ≤ x → x < a + n → s x = 0) :
    get layout s a = v := by
  rw [get, Equiv.symm_apply_eq, hv]
  funext i
  exact h (a + i) (by omega) (by omega)

end Store

end Zka
