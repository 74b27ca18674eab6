import Zka.Framework.Paint

/-!
# The frame buffer

The macros that draw regions.  Their first coordinate counts the lines of the screen, and a counter
of a region that begins at -1 never runs: it starts at the largest value of its type.
-/

namespace Zka.Modules

open Store

/-- `f_GOP` of the handover header. -/
structure Gop where
  fThe : UInt64
  fWidth : UInt32
  fHeight : UInt32
  fPixelPerLine : UInt32

/-- A coordinate as the counters of the macros hold it. -/
def sizeT (x : Int32) : UInt64 := x.toInt64.toUInt64

namespace Gop

variable (gop : Gop)

/-- The address that a macro draws at. -/
def pixel (i u : UInt64) : UInt64 := gop.fThe + (4 * gop.fPixelPerLine).toUInt64 * i + 4 * u

/-- The address of a pixel with signed coordinates. -/
def cell (x y : Int32) : Nat := (gop.pixel (sizeT x) (sizeT y)).toNat

def cgDrawInRegion (clr : UInt32) (height width baseX baseY : Int32) (m : Store) : Store :=
  forRange (sizeT baseX) (sizeT (width + baseX)) (fun xBase m =>
    forRange (sizeT baseY) (sizeT (height + baseY)) (fun yBase m =>
      m.put Layout.u32 (gop.pixel xBase yBase).toNat clr) m) m

/-- The pixels of a bitmap are read from memory as they are drawn; the state of the loops is
`kCGCursor` and the memory. -/
def cgDrawBitMapInRegion (bitMp : UInt64) (height width baseX baseY : Int32) (m : Store) : Store :=
  (forRange (sizeT baseX) (sizeT (height + baseX)) (fun i s =>
    forRange (sizeT baseY) (sizeT (width + baseY)) (fun u s =>
      (s.1 + 1, s.2.put Layout.u32 (gop.pixel i u).toNat
        (s.2.get Layout.u32 (bitMp.toNat + 4 * s.1)))) s) ((0 : Nat), m)).2

/-! ## What a region paints -/

def regionPixels (clr : UInt32) (height width baseX baseY : Int32) : List (Nat × UInt32) :=
  (counts (sizeT baseX) (sizeT (width + baseX))).flatMap fun xBase =>
    (counts (sizeT baseY) (sizeT (height + baseY))).flatMap fun yBase =>
      [((gop.pixel xBase yBase).toNat, clr)]

theorem cgDrawInRegion_eq (clr : UInt32) (height width baseX baseY : Int32) (m : Store) :
    gop.cgDrawInRegion clr height width baseX baseY m =
      m.paint Layout.u32 (gop.regionPixels clr height width baseX baseY) := by
  refine forRange_paint Layout.u32 m (fun xBase m => ?_) _ _
  have hput : ∀ yBase m, Store.put Layout.u32 m (gop.pixel xBase yBase).toNat clr =
      Store.paint Layout.u32 m [((gop.pixel xBase yBase).toNat, clr)] := fun _ _ => rfl
  exact forRange_paint Layout.u32 m hput _ _

/-- The addresses of two pixels are the same, or four apart. -/
theorem pixel_grid (i u j v : UInt64) : (gop.pixel i u).toNat = (gop.pixel j v).toNat ∨
    (gop.pixel j v).toNat + 4 ≤ (gop.pixel i u).toNat ∨
      (gop.pixel i u).toNat + 4 ≤ (gop.pixel j v).toNat := by
  have hgrid : ∀ i u, (gop.pixel i u).toNat % 4 = gop.fThe.toNat % 4 := by
    intro i u
    have hline : (4 * gop.fPixelPerLine).toUInt64.toNat % 4 = 0 := by
      have hfour : (4 : UInt32).toNat = 4 := rfl
      rw [UInt32.toNat_toUInt64, UInt32.toNat_mul, hfour]
      omega
    have hfour : (4 : UInt64).toNat = 4 := rfl
    rw [pixel, UInt64.toNat_add, UInt64.toNat_add, UInt64.toNat_mul, UInt64.toNat_mul, hfour]
    have hlines : (4 * gop.fPixelPerLine).toUInt64.toNat * i.toNat % 4 = 0 := by
      rw [Nat.mul_mod, hline, Nat.zero_mul, Nat.zero_mod]
    omega
  have hi := hgrid i u
  have hj := hgrid j v
  omega

/-! ## One pixel -/

theorem sizeT_succ {x : Int32} (h : x.toInt + 1 < 2 ^ 31) : sizeT (1 + x) = sizeT x + 1 := by
  have hmin := x.le_toInt
  have hwide : (1 + x).toInt64 = x.toInt64 + 1 := by
    have hone : (1 : Int32).toInt = 1 := rfl
    have hone' : (1 : Int64).toInt = 1 := rfl
    rw [← Int64.toInt_inj, Int32.toInt_toInt64, Int64.toInt_add, Int32.toInt_toInt64,
      Int32.toInt_add, hone, hone', Int.bmod_eq_of_le, Int.bmod_eq_of_le] <;> omega
  rw [sizeT, hwide, Int64.toUInt64_add]
  rfl

theorem sizeT_toNat {x : Int32} (h : 0 ≤ x.toInt) : (sizeT x).toNat = x.toInt.toNat := by
  have hwide : (0 : Int64) ≤ x.toInt64 := by
    rw [Int64.le_iff_toInt_le, Int32.toInt_toInt64]
    exact h
  rw [sizeT, Int64.toNat_toUInt64_of_le hwide, Int64.toNatClampNeg, Int32.toInt_toInt64]

theorem sizeT_inj {x y : Int32} : sizeT x = sizeT y ↔ x = y := by
  constructor
  · intro h
    have hwide : x.toInt64 = y.toInt64 := congrArg UInt64.toInt64 h
    rw [← Int32.toInt_inj, ← Int32.toInt_toInt64, ← Int32.toInt_toInt64, hwide]
  · exact congrArg sizeT

theorem sizeT_succ_ne_zero {x : Int32} : sizeT x + 1 ≠ 0 ↔ x ≠ -1 := by
  have hlast : sizeT (-1) + 1 = 0 := rfl
  rw [← hlast, ne_eq, add_left_inj, sizeT_inj]

/-- A region of one pixel: nothing in line -1 or column -1. -/
def dotPixels (clr : UInt32) (x y : Int32) : List (Nat × UInt32) :=
  if x = -1 ∨ y = -1 then [] else [(gop.cell x y, clr)]

theorem regionPixels_dot (clr : UInt32) {x y : Int32} (hx : x.toInt + 1 < 2 ^ 31)
    (hy : y.toInt + 1 < 2 ^ 31) : gop.regionPixels clr 1 1 x y = gop.dotPixels clr x y := by
  have hone : ∀ {x : Int32}, x.toInt + 1 < 2 ^ 31 →
      counts (sizeT x) (sizeT (1 + x)) = if x = -1 then [] else [sizeT x] := by
    intro x hx
    rw [sizeT_succ hx]
    split
    case isTrue heq =>
      subst heq
      rfl
    case isFalse hne => exact counts_one (sizeT_succ_ne_zero.mpr hne)
  rw [regionPixels, dotPixels, hone hx, hone hy]
  by_cases hline : x = -1
  · simp [hline]
  · by_cases hcolumn : y = -1
    · simp [hcolumn]
    · simp [hline, hcolumn, cell]

end Gop

end Zka.Modules
