import Zka.Framework.Outcome
import Zka.Modules.FB
import Zka.NewKit.Text

/-!
# Text on the frame buffer

A text is drawn glyph by glyph.  Each bit of a glyph is a region of one pixel; the byte of a glyph
gives the line, and the bit the column.
-/

namespace Zka.Modules

open Outcome Store

def FONT_SIZE_X : Nat := 8

def FONT_SIZE_Y : Nat := 8

def FONT_NOF_CHARS : Nat := 128

/-- The glyph of a blank. -/
def blankGlyph : List UInt8 := List.replicate FONT_SIZE_X 0

/-- The control characters and the space are blank. -/
def cFontBitmap : List (List UInt8) :=
  List.replicate 33 blankGlyph ++ [
    [0x18, 0x3C, 0x3C, 0x18, 0x18, 0x00, 0x18, 0x00],
    [0x36, 0x36, 0x00, 0x00, 0x00, 0x00, 0x00, 0x00],
    [0x36, 0x36, 0x7F, 0x36, 0x7F, 0x36, 0x36, 0x00],
    [0x0C, 0x3E, 0x03, 0x1E, 0x30, 0x1F, 0x0C, 0x00],
    [0x00, 0x63, 0x33, 0x18, 0x0C, 0x66, 0x63, 0x00],
    [0x1C, 0x36, 0x1C, 0x6E, 0x3B, 0x33, 0x6E, 0x00],
    [0x06, 0x06, 0x03, 0x00, 0x00, 0x00, 0x00, 0x00],
    [0x18, 0x0C, 0x06, 0x06, 0x06, 0x0C, 0x18, 0x00],
    [0x06, 0x0C, 0x18, 0x18, 0x18, 0x0C, 0x06, 0x00],
    [0x00, 0x66, 0x3C, 0xFF, 0x3C, 0x66, 0x00, 0x00],
    [0x00, 0x0C, 0x0C, 0x3F, 0x0C, 0x0C, 0x00, 0x00],
    [0x00, 0x00, 0x00, 0x00, 0x00, 0x0C, 0x0C, 0x06],
    [0x00, 0x00, 0x00, 0x3F, 0x00, 0x00, 0x00, 0x00],
    [0x00, 0x00, 0x00, 0x00, 0x00, 0x0C, 0x0C, 0x00],
    [0x60, 0x30, 0x18, 0x0C, 0x06, 0x03, 0x01, 0x00],
    [0x3E, 0x63, 0x73, 0x7B, 0x6F, 0x67, 0x3E, 0x00],
    [0x0C, 0x0E, 0x0C, 0x0C, 0x0C, 0x0C, 0x3F, 0x00],
    [0x1E, 0x33, 0x30, 0x1C, 0x06, 0x33, 0x3F, 0x00],
    [0x1E, 0x33, 0x30, 0x1C, 0x30, 0x33, 0x1E, 0x00],
    [0x38, 0x3C, 0x36, 0x33, 0x7F, 0x30, 0x78, 0x00],
    [0x3F, 0x03, 0x1F, 0x30, 0x30, 0x33, 0x1E, 0x00],
    [0x1C, 0x06, 0x03, 0x1F, 0x33, 0x33, 0x1E, 0x00],
    [0x3F, 0x33, 0x30, 0x18, 0x0C, 0x0C, 0x0C, 0x00],
    [0x1E, 0x33, 0x33, 0x1E, 0x33, 0x33, 0x1E, 0x00],
    [0x1E, 0x33, 0x33, 0x3E, 0x30, 0x18, 0x0E, 0x00],
    [0x00, 0x0C, 0x0C, 0x00, 0x00, 0x0C, 0x0C, 0x00],
    [0x00, 0x0C, 0x0C, 0x00, 0x00, 0x0C, 0x0C, 0x06],
    [0x18, 0x0C, 0x06, 0x03, 0x06, 0x0C, 0x18, 0x00],
    [0x00, 0x00, 0x3F, 0x00, 0x00, 0x3F, 0x00, 0x00],
    [0x06, 0x0C, 0x18, 0x30, 0x18, 0x0C, 0x06, 0x00],
    [0x1E, 0x33, 0x30, 0x18, 0x0C, 0x00, 0x0C, 0x00],
    [0x3E, 0x63, 0x7B, 0x7B, 0x7B, 0x03, 0x1E, 0x00],
    [0x0C, 0x1E, 0x33, 0x33, 0x3F, 0x33, 0x33, 0x00],
    [0x3F, 0x66, 0x66, 0x3E, 0x66, 0x66, 0x3F, 0x00],
    [0x3C, 0x66, 0x03, 0x03, 0x03, 0x66, 0x3C, 0x00],
    [0x1F, 0x36, 0x66, 0x66, 0x66, 0x36, 0x1F, 0x00],
    [0x7F, 0x46, 0x16, 0x1E, 0x16, 0x46, 0x7F, 0x00],
    [0x7F, 0x46, 0x16, 0x1E, 0x16, 0x06, 0x0F, 0x00],
    [0x3C, 0x66, 0x03, 0x03, 0x73, 0x66, 0x7C, 0x00],
    [0x33, 0x33, 0x33, 0x3F, 0x33, 0x33, 0x33, 0x00],
    [0x1E, 0x0C, 0x0C, 0x0C, 0x0C, 0x0C, 0x1E, 0x00],
    [0x78, 0x30, 0x30, 0x30, 0x33, 0x33, 0x1E, 0x00],
    [0x67, 0x66, 0x36, 0x1E, 0x36, 0x66, 0x67, 0x00],
    [0x0F, 0x06, 0x06, 0x06, 0x46, 0x66, 0x7F, 0x00],
    [0x63, 0x77, 0x7F, 0x7F, 0x6B, 0x63, 0x63, 0x00],
    [0x63, 0x67, 0x6F, 0x7B, 0x73, 0x63, 0x63, 0x00],
    [0x1C, 0x36, 0x63, 0x63, 0x63, 0x36, 0x1C, 0x00],
    [0x3F, 0x66, 0x66, 0x3E, 0x06, 0x06, 0x0F, 0x00],
    [0x1E, 0x33, 0x33, 0x33, 0x3B, 0x1E, 0x38, 0x00],
    [0x3F, 0x66, 0x66, 0x3E, 0x36, 0x66, 0x67, 0x00],
    [0x1E, 0x33, 0x07, 0x0E, 0x38, 0x33, 0x1E, 0x00],
    [0x3F, 0x2D, 0x0C, 0x0C, 0x0C, 0x0C, 0x1E, 0x00],
    [0x33, 0x33, 0x33, 0x33, 0x33, 0x33, 0x3F, 0x00],
    [0x33, 0x33, 0x33, 0x33, 0x33, 0x1E, 0x0C, 0x00],
    [0x63, 0x63, 0x63, 0x6B, 0x7F, 0x77, 0x63, 0x00],
    [0x63, 0x63, 0x36, 0x1C, 0x1C, 0x36, 0x63, 0x00],
    [0x33, 0x33, 0x33, 0x1E, 0x0C, 0x0C, 0x1E, 0x00],
    [0x7F, 0x63, 0x31, 0x18, 0x4C, 0x66, 0x7F, 0x00],
    [0x1E, 0x06, 0x06, 0x06, 0x06, 0x06, 0x1E, 0x00],
    [0x03, 0x06, 0x0C, 0x18, 0x30, 0x60, 0x40, 0x00],
    [0x1E, 0x18, 0x18, 0x18, 0x18, 0x18, 0x1E, 0x00],
    [0x08, 0x1C, 0x36, 0x63, 0x00, 0x00, 0x00, 0x00],
    [0x00, 0x00, 0x00, 0x00, 0x00, 0x00, 0x00, 0xFF],
    [0x0C, 0x0C, 0x18, 0x00, 0x00, 0x00, 0x00, 0x00],
    [0x00, 0x00, 0x1E, 0x30, 0x3E, 0x33, 0x6E, 0x00],
    [0x07, 0x06, 0x06, 0x3E, 0x66, 0x66, 0x3B, 0x00],
    [0x00, 0x00, 0x1E, 0x33, 0x03, 0x33, 0x1E, 0x00],
    [0x38, 0x30, 0x30, 0x3E, 0x33, 0x33, 0x6E, 0x00],
    [0x00, 0x00, 0x1E, 0x33, 0x3F, 0x03, 0x1E, 0x00],
    [0x1C, 0x36, 0x06, 0x0F, 0x06, 0x06, 0x0F, 0x00],
    [0x00, 0x00, 0x6E, 0x33, 0x33, 0x3E, 0x30, 0x1F],
    [0x07, 0x06, 0x36, 0x6E, 0x66, 0x66, 0x67, 0x00],
    [0x0C, 0x00, 0x0E, 0x0C, 0x0C, 0x0C, 0x1E, 0x00],
    [0x30, 0x00, 0x30, 0x30, 0x30, 0x33, 0x33, 0x1E],
    [0x07, 0x06, 0x66, 0x36, 0x1E, 0x36, 0x67, 0x00],
    [0x0E, 0x0C, 0x0C, 0x0C, 0x0C, 0x0C, 0x1E, 0x00],
    [0x00, 0x00, 0x33, 0x7F, 0x7F, 0x6B, 0x63, 0x00],
    [0x00, 0x00, 0x1F, 0x33, 0x33, 0x33, 0x33, 0x00],
    [0x00, 0x00, 0x1E, 0x33, 0x33, 0x33, 0x1E, 0x00],
    [0x00, 0x00, 0x3B, 0x66, 0x66, 0x3E, 0x06, 0x0F],
    [0x00, 0x00, 0x6E, 0x33, 0x33, 0x3E, 0x30, 0x78],
    [0x00, 0x00, 0x3B, 0x6E, 0x66, 0x06, 0x0F, 0x00],
    [0x00, 0x00, 0x3E, 0x03, 0x1E, 0x30, 0x1F, 0x00],
    [0x08, 0x0C, 0x3E, 0x0C, 0x0C, 0x2C, 0x18, 0x00],
    [0x00, 0x00, 0x33, 0x33, 0x33, 0x33, 0x6E, 0x00],
    [0x00, 0x00, 0x33, 0x33, 0x33, 0x1E, 0x0C, 0x00],
    [0x00, 0x00, 0x63, 0x6B, 0x7F, 0x7F, 0x36, 0x00],
    [0x00, 0x00, 0x63, 0x36, 0x1C, 0x36, 0x63, 0x00],
    [0x00, 0x00, 0x33, 0x33, 0x33, 0x3E, 0x30, 0x1F],
    [0x00, 0x00, 0x3F, 0x19, 0x0C, 0x26, 0x3F, 0x00],
    [0x38, 0x0C, 0x0C, 0x07, 0x0C, 0x0C, 0x38, 0x00],
    [0x18, 0x18, 0x18, 0x00, 0x18, 0x18, 0x18, 0x00],
    [0x07, 0x0C, 0x0C, 0x38, 0x0C, 0x0C, 0x07, 0x00],
    [0x6E, 0x3B, 0x00, 0x00, 0x00, 0x00, 0x00, 0x00],
    [0x00, 0x00, 0x00, 0x00, 0x00, 0x00, 0x00, 0x00]]

/-- `bitmap[x] & (1 << y)`. -/
def inked (bitmap : List UInt8) (x y : Nat) : Bool :=
  (bitmap.getD x 0).toUInt32 &&& 1 <<< UInt32.ofNat y ≠ 0

/-- The glyph in a place of a text; behind its end the line is blank. -/
def glyphAt (text : List UInt8) (i : Nat) : List UInt8 :=
  cFontBitmap.getD (text.getD i 0x20).toNat []

/-- A terminated buffer begins with its text. -/
theorem exists_cstr_append {buffer : List UInt8} (h : 0 ∈ buffer) :
    ∃ rest, buffer = NewKit.cstr buffer ++ 0 :: rest := by
  induction buffer with
  | nil => cases h
  | cons c buffer ih =>
    by_cases hc : c = 0
    · exact ⟨buffer, by simp [NewKit.cstr, hc]⟩
    · have hin : 0 ∈ buffer := (List.mem_cons.mp h).resolve_left (Ne.symm hc)
      obtain ⟨rest, hrest⟩ := ih hin
      refine ⟨rest, ?_⟩
      have htext : NewKit.cstr (c :: buffer) = c :: NewKit.cstr buffer := by
        simp [NewKit.cstr, hc]
      rw [htext, List.cons_append, ← hrest]

namespace Gop

variable (gop : Gop)

def cgRenderStringFromBitMap (bitmap : List UInt8) (xSz ySz : Nat) (xDst yDst color : Int32)
    (m : Store) : Store :=
  (List.range ySz).foldl (fun m y =>
    (List.range xSz).foldl (fun m x =>
      if inked bitmap x y then
        gop.cgDrawInRegion color.toUInt32 1 1 (xDst + Int32.ofNat x) (yDst + Int32.ofNat y) m
      else m) m) m

/-- `Char` is signed: there is no glyph for a character from 128 on. -/
def cgDrawString (xDst : Int32) (color : Int32) : List UInt8 → Int32 → Store →
    Outcome CFault Store
  | [], _, _ => .fault .indexOutOfRange
  | c :: text, yDst, m =>
    if c = 0 then .done m
    else match cFontBitmap[c.toNat]? with
      | none => .fault .indexOutOfRange
      | some bitmap => cgDrawString xDst color text (yDst + Int32.ofNat FONT_SIZE_Y)
          (gop.cgRenderStringFromBitMap bitmap FONT_SIZE_X FONT_SIZE_Y xDst yDst color m)

/-! ## What a text paints -/

def glyphPixels (bitmap : List UInt8) (xDst yDst : Int32) (clr : UInt32) : List (Nat × UInt32) :=
  (List.range FONT_SIZE_Y).flatMap fun y => (List.range FONT_SIZE_X).flatMap fun x =>
    if inked bitmap x y then gop.dotPixels clr (xDst + Int32.ofNat x) (yDst + Int32.ofNat y)
    else []

def textPixels (xDst : Int32) (clr : UInt32) : List UInt8 → Int32 → List (Nat × UInt32)
  | [], _ => []
  | c :: text, yDst => gop.glyphPixels (cFontBitmap.getD c.toNat []) xDst yDst clr ++
      textPixels xDst clr text (yDst + Int32.ofNat FONT_SIZE_Y)

/-- The counters of the regions of a text do not overflow. -/
structure Room (xDst yDst : Int32) (length : Nat) : Prop where
  lines : xDst.toInt + FONT_SIZE_X < 2 ^ 31
  columns : yDst.toInt + FONT_SIZE_Y * length < 2 ^ 31

theorem toInt_add_ofNat {x : Int32} {n : Nat} (h : x.toInt + n < 2 ^ 31) (hn : n < 2 ^ 31) :
    (x + Int32.ofNat n).toInt = x.toInt + n := by
  have hmin := x.le_toInt
  have hofNat : (Int32.ofNat n).toInt = n := Int32.toInt_ofNat_of_lt hn
  rw [Int32.toInt_add, hofNat, Int.bmod_eq_of_le] <;> omega

theorem cgRenderStringFromBitMap_eq (bitmap : List UInt8) {xDst yDst : Int32} (color : Int32)
    (m : Store) (hroom : Room xDst yDst 1) :
    gop.cgRenderStringFromBitMap bitmap FONT_SIZE_X FONT_SIZE_Y xDst yDst color m =
      m.paint Layout.u32 (gop.glyphPixels bitmap xDst yDst color.toUInt32) := by
  have hlines := hroom.lines
  have hcolumns := hroom.columns
  simp only [FONT_SIZE_X, FONT_SIZE_Y] at hlines hcolumns
  refine foldl_paint Layout.u32 m fun m y hy => foldl_paint Layout.u32 m fun m x hx => ?_
  have hx8 : x < 8 := List.mem_range.mp hx
  have hy8 : y < 8 := List.mem_range.mp hy
  have hline := toInt_add_ofNat (x := xDst) (n := x) (by omega) (by omega)
  have hcolumn := toInt_add_ofNat (x := yDst) (n := y) (by omega) (by omega)
  split
  case isTrue =>
    rw [cgDrawInRegion_eq, regionPixels_dot gop _ (by omega) (by omega)]
  case isFalse => rfl

theorem Room.next {xDst yDst : Int32} {length : Nat} (h : Room xDst yDst (length + 1)) :
    Room xDst yDst 1 ∧ Room xDst (yDst + Int32.ofNat FONT_SIZE_Y) length := by
  have hcolumns := h.columns
  simp only [FONT_SIZE_Y] at hcolumns
  have hnext := toInt_add_ofNat (x := yDst) (n := 8) (by omega) (by omega)
  refine ⟨⟨h.lines, ?_⟩, h.lines, ?_⟩
  · simp only [FONT_SIZE_Y]
    omega
  · simp only [FONT_SIZE_Y, hnext]
    omega

/-- A text is drawn if there is a glyph for each of its characters. -/
theorem cgDrawString_text {text : List UInt8} {xDst yDst : Int32} (color : Int32) (m : Store)
    (rest : List UInt8) (h0 : 0 ∉ text) (hfont : ∀ c ∈ text, c.toNat < FONT_NOF_CHARS)
    (hroom : Room xDst yDst text.length) :
    gop.cgDrawString xDst color (text ++ 0 :: rest) yDst m =
      .done (m.paint Layout.u32 (gop.textPixels xDst color.toUInt32 text yDst)) := by
  induction text generalizing yDst m with
  | nil => rfl
  | cons c text ih =>
    have hc : c ≠ 0 := fun heq => h0 (heq ▸ List.mem_cons_self)
    have hlength : cFontBitmap.length = FONT_NOF_CHARS := rfl
    have hglyph : cFontBitmap[c.toNat]? = some (cFontBitmap.getD c.toNat []) := by
      have hlt := hfont c List.mem_cons_self
      rw [List.getD_eq_getElem _ _ (hlength ▸ hlt), List.getElem?_eq_getElem]
    obtain ⟨hone, hnext⟩ := Room.next hroom
    rw [List.cons_append, cgDrawString, if_neg hc, hglyph]
    dsimp only
    rw [cgRenderStringFromBitMap_eq gop _ color m hone,
      ih _ (fun hin => h0 (List.mem_cons_of_mem _ hin))
        (fun d hd => hfont d (List.mem_cons_of_mem _ hd)) hnext,
      textPixels, paint_append]

/-- A character without a glyph, or a text without an end. -/
theorem cgDrawString_fault {buffer : List UInt8} (xDst yDst color : Int32) (m : Store)
    (h : ¬ (0 ∈ buffer ∧ ∀ c ∈ NewKit.cstr buffer, c.toNat < FONT_NOF_CHARS)) :
    gop.cgDrawString xDst color buffer yDst m = .fault .indexOutOfRange := by
  induction buffer generalizing yDst m with
  | nil => rfl
  | cons c buffer ih =>
    have hlength : cFontBitmap.length = FONT_NOF_CHARS := rfl
    by_cases hc : c = 0
    · exact absurd ⟨hc ▸ List.mem_cons_self, by simp [NewKit.cstr, hc]⟩ h
    · rw [cgDrawString, if_neg hc]
      cases hglyph : cFontBitmap[c.toNat]? with
      | none => rfl
      | some bitmap =>
        refine ih _ _ fun hrest => h ⟨List.mem_cons_of_mem _ hrest.1, ?_⟩
        have hlt := (List.getElem?_eq_some_iff.mp hglyph).1
        simpa [NewKit.cstr, hc, hlength ▸ hlt] using hrest.2

/-- A pixel at `a` that the text colours. -/
def Inked (xDst yDst : Int32) (text : List UInt8) (a : Nat) : Prop :=
  ∃ i c, text[i]? = some c ∧ ∃ x < FONT_SIZE_X, ∃ y < FONT_SIZE_Y,
    inked (cFontBitmap.getD c.toNat []) x y = true ∧ xDst + Int32.ofNat x ≠ -1 ∧
      yDst + Int32.ofNat (FONT_SIZE_Y * i + y) ≠ -1 ∧
        a = gop.cell (xDst + Int32.ofNat x) (yDst + Int32.ofNat (FONT_SIZE_Y * i + y))

theorem mem_dotPixels {clr : UInt32} {x y : Int32} {p : Nat × UInt32} :
    p ∈ gop.dotPixels clr x y ↔ x ≠ -1 ∧ y ≠ -1 ∧ p = (gop.cell x y, clr) := by
  unfold dotPixels
  split
  case isTrue h =>
    rcases h with hx | hy
    · simp [hx]
    · simp [hy]
  case isFalse h =>
    obtain ⟨hx, hy⟩ := not_or.mp h
    simp [hx, hy]

theorem mem_glyphPixels {bitmap : List UInt8} {xDst yDst : Int32} {clr : UInt32}
    {p : Nat × UInt32} : p ∈ gop.glyphPixels bitmap xDst yDst clr ↔
      ∃ x < FONT_SIZE_X, ∃ y < FONT_SIZE_Y, inked bitmap x y = true ∧
        xDst + Int32.ofNat x ≠ -1 ∧ yDst + Int32.ofNat y ≠ -1 ∧
          p = (gop.cell (xDst + Int32.ofNat x) (yDst + Int32.ofNat y), clr) := by
  simp only [glyphPixels, List.mem_flatMap, List.mem_range,
    List.mem_ite_nil_right, mem_dotPixels]
  constructor
  · rintro ⟨y, hy, x, hx, h⟩
    exact ⟨x, hx, y, hy, h⟩
  · rintro ⟨x, hx, y, hy, h⟩
    exact ⟨y, hy, x, hx, h⟩

theorem mem_textPixels {text : List UInt8} {xDst yDst : Int32} {clr : UInt32}
    {p : Nat × UInt32} :
    p ∈ gop.textPixels xDst clr text yDst ↔ gop.Inked xDst yDst text p.1 ∧ p.2 = clr := by
  induction text generalizing yDst with
  | nil => simp [textPixels, Inked]
  | cons c text ih =>
    have hshift : ∀ i y, yDst + Int32.ofNat FONT_SIZE_Y + Int32.ofNat (FONT_SIZE_Y * i + y) =
        yDst + Int32.ofNat (FONT_SIZE_Y * (i + 1) + y) := by
      intro i y
      rw [Int32.add_assoc, ← Int32.ofNat_add]
      congr 2
      ring
    rw [textPixels, List.mem_append, mem_glyphPixels, ih]
    constructor
    · rintro (⟨x, hx, y, hy, hink, hline, hcolumn, rfl⟩ | ⟨⟨i, d, hd, x, hx, y, hy, h⟩, hclr⟩)
      · exact ⟨⟨0, c, rfl, x, hx, y, hy, hink, hline, by simpa using hcolumn, by simp⟩, rfl⟩
      · rw [hshift] at h
        exact ⟨⟨i + 1, d, hd, x, hx, y, hy, h⟩, hclr⟩
    · rintro ⟨⟨i, d, hd, x, hx, y, hy, hink, hline, hcolumn, hp⟩, hclr⟩
      cases i with
      | zero =>
        cases hd
        rw [Nat.mul_zero, Nat.zero_add] at hcolumn hp
        exact .inl ⟨x, hx, y, hy, hink, hline, hcolumn, Prod.ext hp hclr⟩
      | succ i =>
        rw [← hshift] at hcolumn hp
        exact .inr ⟨⟨i, d, hd, x, hx, y, hy, hink, hline, hcolumn, hp⟩, hclr⟩

/-- The picture of a text on a screen. -/
structure Pictured (xDst yDst color : Int32) (text : List UInt8) (m m' : Store) : Prop where
  ink : ∀ x y, gop.Inked xDst yDst text (gop.cell x y) →
    m'.get Layout.u32 (gop.cell x y) = color.toUInt32
  ground : ∀ x y, ¬ gop.Inked xDst yDst text (gop.cell x y) →
    m'.get Layout.u32 (gop.cell x y) = m.get Layout.u32 (gop.cell x y)
  rest : ∀ a, (∀ b, gop.Inked xDst yDst text b → a < b ∨ b + 4 ≤ a) → m' a = m a

theorem paint_textPixels {text : List UInt8} {xDst yDst : Int32} (color : Int32) (m : Store) :
    gop.Pictured xDst yDst color text m
      (m.paint Layout.u32 (gop.textPixels xDst color.toUInt32 text yDst)) := by
  have hgrid : ∀ x y, OnGrid 4 (gop.cell x y) (gop.textPixels xDst color.toUInt32 text yDst) := by
    intro x y p hp
    obtain ⟨i, c, -, r, -, s, -, -, -, -, hcell⟩ := ((mem_textPixels gop).mp hp).1
    rw [hcell]
    exact gop.pixel_grid ..
  refine ⟨fun x y h => ?_, fun x y h => ?_, fun a h => ?_⟩
  · exact get_paint_of_mem (hgrid x y) ((mem_textPixels gop).mpr ⟨h, rfl⟩)
      fun p hp _ => ((mem_textPixels gop).mp hp).2
  · refine get_paint_of_notMem (hgrid x y) fun p hp heq => h ?_
    exact heq ▸ ((mem_textPixels gop).mp hp).1
  · exact paint_outside fun p hp => h p.1 ((mem_textPixels gop).mp hp).1

theorem exists_pictured {text : List UInt8} {xDst yDst : Int32} (color : Int32) (m : Store)
    (rest : List UInt8) (h0 : 0 ∉ text) (hfont : ∀ c ∈ text, c.toNat < FONT_NOF_CHARS)
    (hroom : Room xDst yDst text.length) :
    ∃ s, gop.cgDrawString xDst color (text ++ 0 :: rest) yDst m = .done s ∧
      gop.Pictured xDst yDst color text m s :=
  ⟨_, cgDrawString_text gop color m rest h0 hfont hroom, paint_textPixels gop color m⟩

/-- A text whose characters have glyphs is drawn; any other one runs out of the font. -/
theorem draw_string {buffer : List UInt8} {xDst yDst : Int32} (color : Int32) (m : Store)
    (hroom : Room xDst yDst (NewKit.cstr buffer).length) :
    if 0 ∈ buffer ∧ ∀ c ∈ NewKit.cstr buffer, c.toNat < FONT_NOF_CHARS then
      ∃ m', gop.cgDrawString xDst color buffer yDst m = .done m' ∧
        gop.Pictured xDst yDst color (NewKit.cstr buffer) m m'
    else gop.cgDrawString xDst color buffer yDst m = .fault .indexOutOfRange := by
  split
  case isFalse h => exact cgDrawString_fault gop xDst yDst color m h
  case isTrue h =>
    have h0 : 0 ∉ NewKit.cstr buffer := fun hin => NewKit.ne_zero_of_mem_cstr hin rfl
    obtain ⟨rest, hrest⟩ := exists_cstr_append h.1
    have hdraw := exists_pictured gop color m rest h0 h.2 hroom
    rwa [← hrest] at hdraw

/-! ## Where the pixels of a line lie -/

/-- So many lines of so many columns from a place on lie inside the screen, and the screen inside
the address space. -/
structure Fits (xDst yDst : Int32) (lines columns : Nat) : Prop where
  line : 0 ≤ xDst.toInt
  column : 0 ≤ yDst.toInt
  width : yDst.toInt + columns ≤ gop.fPixelPerLine.toNat
  stride : 4 * gop.fPixelPerLine.toNat < 2 ^ 32
  height : xDst.toInt + lines < 2 ^ 31
  space : gop.fThe.toNat + 4 * gop.fPixelPerLine.toNat * (xDst.toInt.toNat + lines) ≤ 2 ^ 64

theorem cell_toNat {xDst yDst : Int32} {lines columns x y : Nat}
    (h : gop.Fits xDst yDst lines columns) (hx : x < lines) (hy : y < columns) :
    gop.cell (xDst + Int32.ofNat x) (yDst + Int32.ofNat y) =
      gop.fThe.toNat + 4 * (gop.fPixelPerLine.toNat * (xDst.toInt.toNat + x) +
        (yDst.toInt.toNat + y)) := by
  obtain ⟨hx0, hy0, hwidth, hstride, hline, hspace⟩ := h
  have hrow := toInt_add_ofNat (x := xDst) (n := x) (by omega) (by omega)
  have hcol := toInt_add_ofNat (x := yDst) (n := y) (by omega) (by omega)
  have hfour : (4 : UInt64).toNat = 4 := rfl
  have hlineSize : (4 * gop.fPixelPerLine).toUInt64.toNat = 4 * gop.fPixelPerLine.toNat := by
    have hfour : (4 : UInt32).toNat = 4 := rfl
    rw [UInt32.toNat_toUInt64, UInt32.toNat_mul, hfour, Nat.mod_eq_of_lt hstride]
  have hrows : (xDst.toInt + x).toNat = xDst.toInt.toNat + x := by omega
  have hcols : (yDst.toInt + y).toNat = yDst.toInt.toNat + y := by omega
  -- the end of the last line
  have hbelow : 4 * gop.fPixelPerLine.toNat * (xDst.toInt.toNat + x) +
      4 * gop.fPixelPerLine.toNat ≤ 4 * gop.fPixelPerLine.toNat * (xDst.toInt.toNat + lines) := by
    rw [← Nat.mul_succ]
    exact Nat.mul_le_mul_left _ (by omega)
  rw [cell, pixel, UInt64.toNat_add, UInt64.toNat_add, UInt64.toNat_mul, UInt64.toNat_mul,
    hlineSize, sizeT_toNat (by omega), sizeT_toNat (by omega), hrow, hcol, hrows, hcols, hfour,
    Nat.mul_add 4 (gop.fPixelPerLine.toNat * _), ← Nat.mul_assoc]
  generalize 4 * gop.fPixelPerLine.toNat * (xDst.toInt.toNat + x) = above at *
  omega

theorem ne_of_toInt_nonneg {x : Int32} {v : Int} (hv : x.toInt = v) (h : 0 ≤ v) : x ≠ -1 := by
  rintro rfl
  have hlast : (-1 : Int32).toInt = -1 := rfl
  omega

theorem inked_blank (x y : Nat) : inked blankGlyph x y = false := by
  have hzero : blankGlyph.getD x 0 = 0 := by
    by_cases hx : x < FONT_SIZE_X
    · rw [List.getD_eq_getElem _ _ (by rwa [blankGlyph, List.length_replicate])]
      exact List.getElem_replicate _
    · rw [List.getD_eq_default _ _ (by rwa [blankGlyph, List.length_replicate, ← not_lt])]
  rw [inked, hzero]
  simp

theorem cell_inj {xDst yDst : Int32} {lines columns x y u v : Nat}
    (h : gop.Fits xDst yDst lines columns) (hx : x < lines) (hy : y < columns) (hu : u < lines)
    (hv : v < columns) :
    gop.cell (xDst + Int32.ofNat x) (yDst + Int32.ofNat y) =
      gop.cell (xDst + Int32.ofNat u) (yDst + Int32.ofNat v) ↔ x = u ∧ y = v := by
  constructor
  · intro heq
    rw [cell_toNat gop h hx hy, cell_toNat gop h hu hv] at heq
    obtain ⟨-, hy0, hwidth, -, -, -⟩ := h
    have hplace := Nat.eq_of_mul_eq_mul_left (by decide) (Nat.add_left_cancel heq)
    have hwide : 0 < gop.fPixelPerLine.toNat := by omega
    have hlines := congrArg (· / gop.fPixelPerLine.toNat) hplace
    have hcolumns := congrArg (· % gop.fPixelPerLine.toNat) hplace
    simp only [Nat.mul_add_div hwide, Nat.mul_add_mod] at hlines hcolumns
    rw [Nat.div_eq_of_lt (by omega), Nat.div_eq_of_lt (by omega)] at hlines
    rw [Nat.mod_eq_of_lt (by omega), Nat.mod_eq_of_lt (by omega)] at hcolumns
    omega
  · rintro ⟨rfl, rfl⟩
    rfl

theorem place_lt {n i y : Nat} (hi : i < n) (hy : y < FONT_SIZE_Y) :
    FONT_SIZE_Y * i + y < FONT_SIZE_Y * n := by
  simp only [FONT_SIZE_Y] at hy ⊢
  omega

theorem inked_cell {text : List UInt8} {xDst yDst : Int32} {n i x y : Nat}
    (h : gop.Fits xDst yDst FONT_SIZE_X (FONT_SIZE_Y * n)) (hlen : text.length ≤ n) (hi : i < n)
    (hx : x < FONT_SIZE_X) (hy : y < FONT_SIZE_Y) :
    gop.Inked xDst yDst text
        (gop.cell (xDst + Int32.ofNat x) (yDst + Int32.ofNat (FONT_SIZE_Y * i + y))) ↔
      inked (glyphAt text i) x y = true := by
  have hx8 : x < 8 := hx
  have hy8 : y < 8 := hy
  have hcolumn : FONT_SIZE_Y * i + y < FONT_SIZE_Y * n := place_lt hi hy
  constructor
  · rintro ⟨j, c, hj, u, hu, v, hv, hink, -, -, hcell⟩
    have hv8 : v < 8 := hv
    have hjn : j < n := by
      have hlt := (List.getElem?_eq_some_iff.mp hj).1
      omega
    have hother : FONT_SIZE_Y * j + v < FONT_SIZE_Y * n := place_lt hjn hv
    obtain ⟨rfl, hsame⟩ := (cell_inj gop h hx hcolumn hu hother).mp hcell
    simp only [FONT_SIZE_Y] at hsame
    obtain rfl : i = j := by omega
    obtain rfl : y = v := by omega
    rw [glyphAt, List.getD_eq_getElem?_getD (l := text), hj]
    exact hink
  · intro hink
    by_cases hin : i < text.length
    · have hget : text[i]? = some text[i] := List.getElem?_eq_getElem hin
      rw [glyphAt, List.getD_eq_getElem _ _ hin] at hink
      obtain ⟨hx0, hy0, hwidth, hstride, hlines, -⟩ := h
      simp only [FONT_SIZE_X, FONT_SIZE_Y] at hlines hwidth
      refine ⟨i, text[i], hget, x, hx, y, hy, hink, ?_, ?_, rfl⟩
      · exact ne_of_toInt_nonneg (toInt_add_ofNat (by omega) (by omega)) (by omega)
      · simp only [FONT_SIZE_Y]
        exact ne_of_toInt_nonneg (toInt_add_ofNat (by omega) (by omega)) (by omega)
    · have hblank : glyphAt text i = blankGlyph := by
        rw [glyphAt, List.getD_eq_default _ _ (not_lt.mp hin)]
        rfl
      rw [hblank, inked_blank] at hink
      cases hink

end Gop

/-! ## What can be read -/

theorem inked_eq_testBit : ∀ b : UInt8, ∀ y < 8,
    decide (b.toUInt32 &&& 1 <<< UInt32.ofNat y ≠ 0) = b.toNat.testBit y := by
  decide +kernel

theorem glyph_eq_iff {g h : List UInt8} (hg : g.length = FONT_SIZE_X)
    (hh : h.length = FONT_SIZE_X) :
    g = h ↔ ∀ x < FONT_SIZE_X, ∀ y < FONT_SIZE_Y, inked g x y = inked h x y := by
  constructor
  · rintro rfl x hx y hy
    rfl
  · intro hink
    have hbyte : ∀ x < FONT_SIZE_X, g.getD x 0 = h.getD x 0 := by
      intro x hx
      rw [← UInt8.toNat_inj]
      refine Nat.eq_of_testBit_eq fun y => ?_
      by_cases hy : y < 8
      · rw [← inked_eq_testBit _ y hy, ← inked_eq_testBit _ y hy]
        exact hink x hx y hy
      · have hhigh : ∀ b : UInt8, b.toNat.testBit y = false := by
          intro b
          have hpow : 2 ^ 8 ≤ 2 ^ y := Nat.pow_le_pow_right (by decide) (not_lt.mp hy)
          exact Nat.testBit_lt_two_pow (b.toNat_lt.trans_le hpow)
        rw [hhigh, hhigh]
    refine List.ext_getElem (hg.trans hh.symm) fun x hx hx' => ?_
    have heq := hbyte x (hg ▸ hx)
    rwa [List.getD_eq_getElem _ _ hx, List.getD_eq_getElem _ _ hx'] at heq

/-- What a character looks like: all characters without ink are spaces. -/
def visible (c : UInt8) : UInt8 := if c ≤ 0x20 ∨ c = 0x7F then 0x20 else c

/-- Only the characters without ink have a glyph in common. -/
theorem cFontBitmap_eq_iff : ∀ a < FONT_NOF_CHARS, ∀ b < FONT_NOF_CHARS,
    (cFontBitmap.getD a [] = cFontBitmap.getD b [] ↔
      visible (UInt8.ofNat a) = visible (UInt8.ofNat b)) := by
  decide +kernel

theorem cFontBitmap_length : ∀ a < FONT_NOF_CHARS,
    (cFontBitmap.getD a []).length = FONT_SIZE_X := by
  decide +kernel

/-- What a line looks like. -/
def shown (text : List UInt8) : List UInt8 := (text.map visible).rdropWhile (· = 0x20)

section Trailing

variable {α : Type} {d : α}

theorem getD_rdropWhile [DecidableEq α] (l : List α) (i : Nat) :
    (l.rdropWhile (· = d)).getD i d = l.getD i d := by
  induction l using List.reverseRecOn with
  | nil => rfl
  | append_singleton l x ih =>
    rw [List.rdropWhile_concat]
    split
    case isTrue hx =>
      rw [ih]
      by_cases hi : i < l.length
      · rw [List.getD_append _ _ _ _ hi]
      · rw [List.getD_append_right _ _ _ _ (not_lt.mp hi), List.getD_eq_default _ _ (not_lt.mp hi)]
        cases i - l.length with
        | zero => simpa using (of_decide_eq_true hx).symm
        | succ k => rfl
    case isFalse => rfl

theorem length_le_of_getD {l l' : List α} (hlast : ∀ h : l ≠ [], l.getLast h ≠ d)
    (h : ∀ i, l.getD i d = l'.getD i d) : l.length ≤ l'.length := by
  by_contra hlt
  have hne : l ≠ [] := by
    rintro rfl
    simp at hlt
  have hend := h (l.length - 1)
  rw [List.getD_eq_default l' _ (by omega), List.getD_eq_getElem l _ (by omega)] at hend
  exact hlast hne (by rw [List.getLast_eq_getElem]; exact hend)

/-- Lists that agree up to what is dropped at their ends. -/
theorem rdropWhile_eq_iff [DecidableEq α] {l l' : List α} :
    l.rdropWhile (· = d) = l'.rdropWhile (· = d) ↔ ∀ i, l.getD i d = l'.getD i d := by
  constructor
  · intro h i
    rw [← getD_rdropWhile l, h, getD_rdropWhile]
  · intro h
    have hsame : ∀ i, (l.rdropWhile (· = d)).getD i d = (l'.rdropWhile (· = d)).getD i d := by
      intro i
      rw [getD_rdropWhile, getD_rdropWhile, h]
    have hlast : ∀ (l : List α) (h : l.rdropWhile (· = d) ≠ []),
        (l.rdropWhile (· = d)).getLast h ≠ d := by
      intro l h heq
      exact List.rdropWhile_last_not _ _ h (decide_eq_true heq)
    have hlen : (l.rdropWhile (· = d)).length = (l'.rdropWhile (· = d)).length :=
      Nat.le_antisymm (length_le_of_getD (hlast l) hsame)
        (length_le_of_getD (hlast l') fun i => (hsame i).symm)
    refine List.ext_getElem hlen fun i hi hi' => ?_
    have heq := hsame i
    rwa [List.getD_eq_getElem _ _ hi, List.getD_eq_getElem _ _ hi'] at heq

end Trailing

theorem glyphAt_place {text : List UInt8} (h : ∀ c ∈ text, c.toNat < FONT_NOF_CHARS) (i : Nat) :
    (text.getD i 0x20).toNat < FONT_NOF_CHARS := by
  by_cases hi : i < text.length
  · rw [List.getD_eq_getElem _ _ hi]
    exact h _ (List.getElem_mem hi)
  · rw [List.getD_eq_default _ _ (not_lt.mp hi)]
    decide

theorem glyphAt_length {text : List UInt8} (h : ∀ c ∈ text, c.toNat < FONT_NOF_CHARS) (i : Nat) :
    (glyphAt text i).length = FONT_SIZE_X :=
  cFontBitmap_length _ (glyphAt_place h i)

/-- Two lines look the same if they have the same glyph in every place. -/
theorem shown_eq_iff {text text' : List UInt8} {n : Nat} (hlen : text.length ≤ n)
    (hlen' : text'.length ≤ n) (hfont : ∀ c ∈ text, c.toNat < FONT_NOF_CHARS)
    (hfont' : ∀ c ∈ text', c.toNat < FONT_NOF_CHARS) :
    shown text = shown text' ↔ ∀ i < n, glyphAt text i = glyphAt text' i := by
  have hspace : visible 0x20 = 0x20 := rfl
  have hget : ∀ (text : List UInt8) i,
      (text.map visible).getD i 0x20 = visible (text.getD i 0x20) := by
    intro text i
    conv_lhs => rw [← hspace]
    exact List.getD_map ..
  have hglyph : ∀ i, visible (text.getD i 0x20) = visible (text'.getD i 0x20) ↔
      glyphAt text i = glyphAt text' i := by
    intro i
    have hiff := cFontBitmap_eq_iff _ (glyphAt_place hfont i) _ (glyphAt_place hfont' i)
    rw [UInt8.ofNat_toNat, UInt8.ofNat_toNat] at hiff
    exact hiff.symm
  rw [shown, shown, rdropWhile_eq_iff]
  simp only [hget, hglyph]
  constructor
  · exact fun h i _ => h i
  · intro h i
    by_cases hi : i < n
    · exact h i hi
    · rw [glyphAt, glyphAt, List.getD_eq_default text _ (by omega),
        List.getD_eq_default text' _ (by omega)]

namespace Gop

variable (gop : Gop)

/-- Two pictures on one screen with the same ink. -/
theorem Pictured.unique {gop : Gop} {xDst yDst color : Int32} {text text' : List UInt8}
    {m m₁ m₂ : Store} (h₁ : gop.Pictured xDst yDst color text m m₁)
    (h₂ : gop.Pictured xDst yDst color text' m m₂)
    (hink : ∀ a, gop.Inked xDst yDst text a ↔ gop.Inked xDst yDst text' a) : m₁ = m₂ := by
  funext a
  by_cases h : ∃ b, gop.Inked xDst yDst text b ∧ b ≤ a ∧ a < b + 4
  · obtain ⟨b, hb, hle, hlt⟩ := h
    obtain ⟨i, c, -, x, -, y, -, -, -, -, rfl⟩ := id hb
    have hsame := (h₁.ink _ _ hb).trans (h₂.ink _ _ ((hink _).mp hb)).symm
    generalize gop.cell (xDst + Int32.ofNat x) (yDst + Int32.ofNat (FONT_SIZE_Y * i + y)) = b at *
    have hread := congrFun (Layout.u32.symm.injective hsame) ⟨a - b, by omega⟩
    simp only [Store.read, Nat.add_sub_cancel' hle] at hread
    exact hread
  · have hapart : ∀ b, gop.Inked xDst yDst text b → a < b ∨ b + 4 ≤ a := by
      intro b hb
      by_contra hin
      exact h ⟨b, hb, by omega, by omega⟩
    rw [h₁.rest a hapart, h₂.rest a fun b hb => hapart b ((hink b).mpr hb)]

/-- There is no ink in the line of a text yet. -/
def Ground (xDst yDst color : Int32) (n : Nat) (m : Store) : Prop :=
  ∀ x < FONT_SIZE_X, ∀ y < FONT_SIZE_Y * n,
    m.get Layout.u32 (gop.cell (xDst + Int32.ofNat x) (yDst + Int32.ofNat y)) ≠ color.toUInt32

/-- A text leaves the lines alone that none of its pixels lies in. -/
theorem Pictured.keep {gop : Gop} {xDst yDst color : Int32} {text : List UInt8} {m s : Store}
    {n : Nat} (h : gop.Pictured xDst yDst color text m s) (hlen : text.length ≤ n) {x y : Int32}
    (hapart : ∀ u < FONT_SIZE_X, ∀ v < FONT_SIZE_Y * n,
      gop.cell x y ≠ gop.cell (xDst + Int32.ofNat u) (yDst + Int32.ofNat v)) :
    s.get Layout.u32 (gop.cell x y) = m.get Layout.u32 (gop.cell x y) := by
  refine h.ground _ _ fun hink => ?_
  obtain ⟨i, c, hi, u, hu, v, hv, -, -, -, hcell⟩ := hink
  have hin : i < n := (List.getElem?_eq_some_iff.mp hi).1.trans_le hlen
  exact hapart u hu _ (place_lt hin hv) hcell

/-- What a screen shows in a line of so many characters. -/
def Shows (xDst yDst color : Int32) (n : Nat) (text : List UInt8) (s : Store) : Prop :=
  ∀ i < n, ∀ x < FONT_SIZE_X, ∀ y < FONT_SIZE_Y,
    (inked (glyphAt text i) x y = true ↔ s.get Layout.u32 (gop.cell (xDst + Int32.ofNat x)
      (yDst + Int32.ofNat (FONT_SIZE_Y * i + y))) = color.toUInt32)

section Line

variable {gop} {text text' : List UInt8} {xDst yDst color : Int32} {n : Nat} {m s s' : Store}

theorem Pictured.shows (h : gop.Pictured xDst yDst color text m s)
    (hfits : gop.Fits xDst yDst FONT_SIZE_X (FONT_SIZE_Y * n))
    (hground : gop.Ground xDst yDst color n m) (hlen : text.length ≤ n) :
    gop.Shows xDst yDst color n text s := by
  intro i hi x hx y hy
  rw [← inked_cell gop hfits hlen hi hx hy]
  constructor
  · exact h.ink _ _
  · intro heq
    by_contra hout
    exact hground x hx _ (place_lt hi hy) ((h.ground _ _ hout).symm.trans heq)

/-- A line shows one text. -/
theorem Shows.shown_eq (h : gop.Shows xDst yDst color n text s)
    (h' : gop.Shows xDst yDst color n text' s) (hlen : text.length ≤ n) (hlen' : text'.length ≤ n)
    (hfont : ∀ c ∈ text, c.toNat < FONT_NOF_CHARS)
    (hfont' : ∀ c ∈ text', c.toNat < FONT_NOF_CHARS) : shown text = shown text' := by
  rw [shown_eq_iff hlen hlen' hfont hfont']
  intro i hi
  rw [glyph_eq_iff (glyphAt_length hfont i) (glyphAt_length hfont' i)]
  intro x hx y hy
  rw [Bool.eq_iff_iff, h i hi x hx y hy, h' i hi x hx y hy]

theorem inked_of_shown (hfits : gop.Fits xDst yDst FONT_SIZE_X (FONT_SIZE_Y * n))
    (hlen : text.length ≤ n) (hlen' : text'.length ≤ n)
    (hsame : ∀ i < n, glyphAt text i = glyphAt text' i) {a : Nat}
    (ha : gop.Inked xDst yDst text a) : gop.Inked xDst yDst text' a := by
  obtain ⟨i, c, hi, x, hx, y, hy, -, -, -, rfl⟩ := id ha
  have hin : i < n := (List.getElem?_eq_some_iff.mp hi).1.trans_le hlen
  rw [inked_cell gop hfits hlen hin hx hy, hsame i hin] at ha
  exact (inked_cell gop hfits hlen' hin hx hy).mpr ha

end Line

theorem drawn_pictured {buffer : List UInt8} {xDst yDst color : Int32} {m m' : Store}
    (hroom : Room xDst yDst (NewKit.cstr buffer).length)
    (h : gop.cgDrawString xDst color buffer yDst m = .done m') :
    (∀ c ∈ NewKit.cstr buffer, c.toNat < FONT_NOF_CHARS) ∧
      gop.Pictured xDst yDst color (NewKit.cstr buffer) m m' := by
  by_cases hfont : 0 ∈ buffer ∧ ∀ c ∈ NewKit.cstr buffer, c.toNat < FONT_NOF_CHARS
  · have h0 : 0 ∉ NewKit.cstr buffer := fun hin => NewKit.ne_zero_of_mem_cstr hin rfl
    obtain ⟨rest, hrest⟩ := exists_cstr_append hfont.1
    obtain ⟨s, hdraw, hpictured⟩ := exists_pictured gop color m rest h0 hfont.2 hroom
    rw [← hrest, h] at hdraw
    cases hdraw
    exact ⟨hfont.2, hpictured⟩
  · rw [cgDrawString_fault gop xDst yDst color m hfont] at h
    cases h

theorem Fits.room {gop : Gop} {xDst yDst : Int32} {n length : Nat}
    (h : gop.Fits xDst yDst FONT_SIZE_X (FONT_SIZE_Y * n)) (hlen : length ≤ n) :
    Room xDst yDst length := by
  obtain ⟨-, -, hwidth, hstride, hlines, -⟩ := h
  refine ⟨hlines, ?_⟩
  simp only [FONT_SIZE_Y] at hwidth ⊢
  omega

/-- What was drawn can be read: on a background without the ink, two texts leave the same screen
only if they differ in blanks that look alike and in blanks at the end. -/
theorem drawn_texts_eq_iff {buffer buffer' : List UInt8} {xDst yDst color : Int32} {n : Nat}
    {m s s' : Store} (hfits : gop.Fits xDst yDst FONT_SIZE_X (FONT_SIZE_Y * n))
    (hground : gop.Ground xDst yDst color n m)
    (hlen : (NewKit.cstr buffer).length ≤ n) (hlen' : (NewKit.cstr buffer').length ≤ n)
    (h : gop.cgDrawString xDst color buffer yDst m = .done s)
    (h' : gop.cgDrawString xDst color buffer' yDst m = .done s') :
    s = s' ↔ shown (NewKit.cstr buffer) = shown (NewKit.cstr buffer') := by
  obtain ⟨hfont, hpictured⟩ := drawn_pictured gop (hfits.room hlen) h
  obtain ⟨hfont', hpictured'⟩ := drawn_pictured gop (hfits.room hlen') h'
  constructor
  · rintro rfl
    exact (hpictured.shows hfits hground hlen).shown_eq (hpictured'.shows hfits hground hlen')
      hlen hlen' hfont hfont'
  · intro hshown
    have hglyph := (shown_eq_iff hlen hlen' hfont hfont').mp hshown
    exact hpictured.unique hpictured' fun a => ⟨inked_of_shown hfits hlen hlen' hglyph,
      inked_of_shown hfits hlen' hlen fun i hi => (hglyph i hi).symm⟩

end Gop

/-- A screen of 1024 pixels in a line. -/
def sampleGop : Gop := ⟨0x80000000, 1024, 768, 1024⟩

theorem ground_zero (gop : Gop) (xDst yDst : Int32) {color : Int32} (h : color.toUInt32 ≠ 0)
    (n : Nat) : gop.Ground xDst yDst color n fun _ => 0 := by
  intro x _ y _ heq
  refine h (heq.symm.trans ?_)
  rw [Store.get, Equiv.symm_apply_eq, Layout.u32_zero]
  rfl

namespace Gop

/-- The first line of the letter would be line -1, which is not drawn. -/
theorem draw_string_letter : ∃ m',
    sampleGop.cgDrawString (-1) 0xFFFFFF [65, 0] 10 (fun _ => 0) = .done m' ∧
      sampleGop.Pictured (-1) 10 0xFFFFFF [65] (fun _ => 0) m' := by
  have hletter : ∀ buffer : List UInt8, NewKit.cstr buffer = [65] → 0 ∈ buffer → ∃ m',
      sampleGop.cgDrawString (-1) 0xFFFFFF buffer 10 (fun _ => 0) = .done m' ∧
        sampleGop.Pictured (-1) 10 0xFFFFFF [65] (fun _ => 0) m' := by
    intro buffer hcstr hend
    have hroom : Room (-1) 10 (NewKit.cstr buffer).length := by
      rw [hcstr]
      exact ⟨by decide, by decide⟩
    have hdraw := draw_string sampleGop 0xFFFFFF (fun _ => 0) hroom
    rw [hcstr, if_pos ⟨hend, by simp [FONT_NOF_CHARS]⟩] at hdraw
    exact hdraw
  exact hletter [65, 0] rfl (by simp)

/-- A blank at the end cannot be seen. -/
theorem drawn_texts_blank : ∃ s s',
    sampleGop.cgDrawString 50 0xFFFFFF [65, 32, 0] 10 (fun _ => 0) = .done s ∧
      sampleGop.cgDrawString 50 0xFFFFFF [65, 0] 10 (fun _ => 0) = .done s' ∧ s = s' := by
  have hfits : sampleGop.Fits 50 10 FONT_SIZE_X (FONT_SIZE_Y * 2) :=
    ⟨by decide, by decide, by decide, by decide, by decide, by decide⟩
  have hdraw : ∀ text : List UInt8, text.length ≤ 2 → 0 ∉ text →
      (∀ c ∈ text, c.toNat < FONT_NOF_CHARS) →
        ∃ s, sampleGop.cgDrawString 50 0xFFFFFF (text ++ [0]) 10 (fun _ => 0) = .done s := by
    intro text hlen h0 hfont
    obtain ⟨s, hs, -⟩ := sampleGop.exists_pictured 0xFFFFFF (fun _ => 0) [] h0 hfont
      (hfits.room hlen)
    exact ⟨s, hs⟩
  obtain ⟨s, hs⟩ := hdraw [65, 32] (by decide) (by decide) (by simp [FONT_NOF_CHARS])
  obtain ⟨s', hs'⟩ := hdraw [65] (by decide) (by decide) (by simp [FONT_NOF_CHARS])
  refine ⟨s, s', hs, hs', ?_⟩
  exact (drawn_texts_eq_iff sampleGop hfits (ground_zero _ _ _ (by decide) 2) (by decide)
    (by decide) hs hs').mpr (by decide)

end Gop

end Zka.Modules
