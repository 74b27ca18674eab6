import Zka.Framework.Simulation
import Zka.Modules.Text

/-!
# Windows

A window is drawn when it is marked, and its children with it.  The windows are a graph: a child
may be drawn from several parents, and nothing keeps a window from being below itself.
-/

namespace Zka.Modules

open Outcome Store

def kWndFlagNoShow : Int32 := 0x02

def kWndFlagButton : Int32 := 0x04

def kWndFlagWindow : Int32 := 0x06

def kWndFlagButtonSelect : Int32 := 0x08

def kWndFlagHideCloseControl : Int32 := 0x010

def kWndFlagCloseControlSelect : Int32 := 0x012

def FLATCONTROLS_HEIGHT : Int32 := 24

def FLATCONTROLS_WIDTH : Int32 := 44

/-- The elements of `w_child_elements`. -/
def kChildElements : Nat := 255

/-- `ML_WINDOW_STRUCT`, less the class and the parent, which are not looked at to draw it. -/
structure MLWindowStruct (ι : Type) where
  wWindowName : List UInt8
  wType : Int32
  wSubType : Int32
  wX : Int32
  wY : Int32
  wW : Int32
  wH : Int32
  wChildCount : UInt64
  wChildElements : Nat → Option ι
  displayPtr : UInt64
  wNeedsRepaint : Bool

/-- `RGB` of three bytes. -/
def cgColor (r g b : UInt32) : UInt32 := r ||| g <<< 8 ||| b <<< 16

/-- The screen, and where the bitmaps of the controls lie. -/
structure CGContext where
  gop : Gop
  flatControls : UInt64
  flatControlsClose : UInt64

section Draw

variable {ι : Type} (cg : CGContext)

/-- `Width` and `Height` of `UIAccessibilty`. -/
def CGContext.width : Int64 := cg.gop.fWidth.toUInt64.toInt64

def CGContext.height : Int64 := cg.gop.fHeight.toUInt64.toInt64

/-- A window that is not on the screen is moved; the width is used in both directions. -/
def MLWindowStruct.clamped (wnd : MLWindowStruct ι) : MLWindowStruct ι :=
  let wX := if cg.width < wnd.wX.toInt64 then
      if 1 < wnd.wX.toInt64 - cg.width then
        (wnd.wX.toInt64 - (wnd.wX.toInt64 - cg.width)).toInt32
      else 0
    else wnd.wX
  let wY := if cg.height < wnd.wY.toInt64 then
      if 1 < wnd.wY.toInt64 - cg.height then
        (wnd.wY.toInt64 - (wnd.wY.toInt64 - cg.width)).toInt32
      else 0
    else wnd.wY
  { wnd with wX, wY }

/-- The loop of `CGDrawStringToWnd`, which ends at the right side of the window. -/
def drawToWnd (right yDst color : Int32) : List UInt8 → Int32 → Store → Outcome CFault Store
  | [], _, _ => .fault .indexOutOfRange
  | c :: text, xDst, m =>
    if c = 0 ∨ right < xDst then .done m
    else match cFontBitmap[c.toNat]? with
      | none => .fault .indexOutOfRange
      | some bitmap => drawToWnd right yDst color text (xDst + Int32.ofNat FONT_SIZE_Y)
          (cg.gop.cgRenderStringFromBitMap bitmap FONT_SIZE_X FONT_SIZE_Y yDst xDst color m)

def cgDrawStringToWnd (wnd : MLWindowStruct ι) (text : List UInt8) (yDst xDst color : Int32)
    (m : Store) : Outcome CFault Store :=
  let yDst := yDst + (wnd.wY + FLATCONTROLS_HEIGHT)
  let xDst := xDst + wnd.wX
  if wnd.wH + wnd.wY < yDst then .done m
  else drawToWnd cg (wnd.wW + wnd.wX) yDst color text xDst m

/-- The pixels of a window, by its type. -/
def drawWindow (wnd : MLWindowStruct ι) (m : Store) : Outcome CFault Store :=
  let white := cgColor 0xFF 0xFF 0xFF
  if wnd.wType = kWndFlagWindow then
    let m := cg.gop.cgDrawBitMapInRegion wnd.displayPtr wnd.wH wnd.wW wnd.wY wnd.wX m
    let m := cg.gop.cgDrawInRegion white wnd.wW FLATCONTROLS_HEIGHT wnd.wY wnd.wX m
    let m :=
      if wnd.wSubType ≠ kWndFlagHideCloseControl then
        let controls := if wnd.wSubType = kWndFlagCloseControlSelect then cg.flatControlsClose
          else cg.flatControls
        cg.gop.cgDrawBitMapInRegion controls FLATCONTROLS_HEIGHT FLATCONTROLS_WIDTH wnd.wY
          (wnd.wX + wnd.wW - FLATCONTROLS_WIDTH) m
      else m
    cg.gop.cgDrawString (wnd.wY + 8) 0 wnd.wWindowName (wnd.wX + 8) m
  else if wnd.wType = kWndFlagButtonSelect then
    let xCenter := wnd.wX + 6
    let yCenter := wnd.wY + 7
    let border := cgColor 0xD3 0x74 0x00
    let m := cg.gop.cgDrawInRegion border (wnd.wW + 1) (wnd.wH + 1) wnd.wY wnd.wX m
    let m := cg.gop.cgDrawInRegion white (wnd.wW - 1) (wnd.wH - 1) (wnd.wY + 1) (wnd.wX + 1) m
    cgDrawStringToWnd cg wnd wnd.wWindowName yCenter xCenter 0 m
  else if wnd.wType = kWndFlagButton then
    let xCenter := wnd.wX + 6
    let yCenter := wnd.wY + 7
    let border := cgColor 0xDC 0xDC 0xDC
    let m := cg.gop.cgDrawInRegion border (wnd.wW + 1) (wnd.wH + 1) wnd.wY wnd.wX m
    let m := cg.gop.cgDrawInRegion white (wnd.wW - 1) (wnd.wH - 1) (wnd.wY + 1) (wnd.wX + 1) m
    cg.gop.cgDrawString yCenter 0 wnd.wWindowName xCenter m
  else .done m

end Draw

/-! ## The list -/

/-- The windows and the memory. -/
structure Desktop (ι : Type) where
  windows : ι → MLWindowStruct ι
  memory : Store

section List

variable {ι : Type} [DecidableEq ι] (cg : CGContext)

def Desktop.set (d : Desktop ι) (w : ι) (wnd : MLWindowStruct ι) : Desktop ι :=
  { d with windows := Function.update d.windows w wnd }

theorem Desktop.set_self (d : Desktop ι) (w : ι) (wnd : MLWindowStruct ι) :
    (d.set w wnd).windows w = wnd :=
  Function.update_self ..

theorem Desktop.set_of_ne (d : Desktop ι) {v w : ι} (h : v ≠ w) (wnd : MLWindowStruct ι) :
    (d.set w wnd).windows v = d.windows v :=
  Function.update_of_ne h ..

/-- The window is passed over. -/
def MLWindowStruct.skipped (wnd : MLWindowStruct ι) : Prop :=
  wnd.wType = kWndFlagNoShow ∨ wnd.wNeedsRepaint = false

instance (wnd : MLWindowStruct ι) : Decidable wnd.skipped :=
  inferInstanceAs (Decidable (_ ∨ _))

/-- A child is moved by the place of its parent, and drawn if it lies inside. -/
def drawChild (draw : Desktop ι → ι → Outcome CFault (Desktop ι × Bool)) (w : ι) (child : Nat)
    (d : Desktop ι) : Outcome CFault (Desktop ι) :=
  if child < kChildElements then
    match (d.windows w).wChildElements child with
    | none => .fault .nullDereference
    | some c =>
      let wnd := d.windows w
      let moved := { d.windows c with
        wX := (d.windows c).wX + wnd.wX
        wY := (d.windows c).wY + (wnd.wY + FLATCONTROLS_HEIGHT) }
      let d := d.set c moved
      let wnd := d.windows w
      let moved := d.windows c
      if wnd.wX + wnd.wW < moved.wW + moved.wX ∨ wnd.wY + wnd.wH < moved.wH + moved.wY then .done d
      else draw d c >>= fun r => .done r.1
  else .fault .indexOutOfRange

def drawChildren (draw : Desktop ι → ι → Outcome CFault (Desktop ι × Bool)) (w : ι) :
    List Nat → Desktop ι → Outcome CFault (Desktop ι)
  | [], d => .done d
  | child :: rest, d => drawChild draw w child d >>= fun d => drawChildren draw w rest d

/-- One pass of the loop of `CGDrawWindowList`, and whether it counts. -/
def drawListed : Nat → Desktop ι → ι → Outcome CFault (Desktop ι × Bool)
  | 0, _, _ => .running
  | fuel + 1, d, w =>
    if (d.windows w).skipped then .done (d, false)
    else
      let wnd := { d.windows w with wNeedsRepaint := false }.clamped cg
      let d := d.set w wnd
      drawWindow cg wnd d.memory >>= fun memory =>
        drawChildren (drawListed fuel) w (List.range wnd.wChildCount.toNat) { d with memory } >>=
          fun d => .done (d, true)

/-- The number of the windows that were drawn, less their children. -/
def cgDrawWindowList (fuel : Nat) : List (Option ι) → Desktop ι →
    Outcome CFault (Desktop ι × UInt64)
  | [], d => .done (d, 0)
  | none :: rest, d => cgDrawWindowList fuel rest d
  | some w :: rest, d => drawListed cg fuel d w >>= fun r =>
      cgDrawWindowList fuel rest r.1 >>= fun s => .done (s.1, s.2 + if r.2 then 1 else 0)

end List

/-! ## What is drawn -/

/-- A text that ends, with a glyph for each character before its end. -/
def HasGlyphs (text : List UInt8) : Prop :=
  0 ∈ text ∧ ∀ c ∈ NewKit.cstr text, c.toNat < FONT_NOF_CHARS

theorem HasGlyphs.cons {c : UInt8} {text : List UInt8} (h : HasGlyphs (c :: text)) (hc : c ≠ 0) :
    (∃ bitmap, cFontBitmap[c.toNat]? = some bitmap) ∧ HasGlyphs text := by
  obtain ⟨hend, hfont⟩ := h
  have hlength : cFontBitmap.length = FONT_NOF_CHARS := rfl
  have htext : NewKit.cstr (c :: text) = c :: NewKit.cstr text := by simp [NewKit.cstr, hc]
  rw [htext] at hfont
  refine ⟨⟨_, List.getElem?_eq_getElem (hlength ▸ hfont c List.mem_cons_self)⟩, ?_, ?_⟩
  · exact (List.mem_cons.mp hend).resolve_left hc.symm
  · exact fun d hd => hfont d (List.mem_cons_of_mem _ hd)

section Drawn

variable {ι : Type} (cg : CGContext)

theorem cgDrawString_done {text : List UInt8} (h : HasGlyphs text) (xDst color yDst : Int32)
    (m : Store) : ∃ m', cg.gop.cgDrawString xDst color text yDst m = .done m' := by
  induction text generalizing yDst m with
  | nil => cases h.1
  | cons c text ih =>
    by_cases hc : c = 0
    · exact ⟨m, by rw [Gop.cgDrawString, if_pos hc]⟩
    · obtain ⟨⟨bitmap, hbitmap⟩, hrest⟩ := h.cons hc
      rw [Gop.cgDrawString, if_neg hc, hbitmap]
      exact ih hrest _ _

theorem drawToWnd_done {text : List UInt8} (h : HasGlyphs text) (right yDst color xDst : Int32)
    (m : Store) : ∃ m', drawToWnd cg right yDst color text xDst m = .done m' := by
  induction text generalizing xDst m with
  | nil => cases h.1
  | cons c text ih =>
    by_cases hstop : c = 0 ∨ right < xDst
    · exact ⟨m, by rw [drawToWnd, if_pos hstop]⟩
    · obtain ⟨⟨bitmap, hbitmap⟩, hrest⟩ := h.cons fun hc => hstop (.inl hc)
      rw [drawToWnd, if_neg hstop, hbitmap]
      exact ih hrest _ _

theorem cgDrawStringToWnd_done (wnd : MLWindowStruct ι) {text : List UInt8} (h : HasGlyphs text)
    (yDst xDst color : Int32) (m : Store) :
    ∃ m', cgDrawStringToWnd cg wnd text yDst xDst color m = .done m' := by
  simp only [cgDrawStringToWnd]
  split_ifs
  · exact ⟨m, rfl⟩
  · exact drawToWnd_done cg h _ _ _ _ _

theorem drawWindow_done {wnd : MLWindowStruct ι} (h : HasGlyphs wnd.wWindowName) (m : Store) :
    ∃ m', drawWindow cg wnd m = .done m' := by
  unfold drawWindow
  split_ifs
  · exact cgDrawString_done cg h _ _ _ _
  · exact cgDrawString_done cg h _ _ _ _
  · exact cgDrawString_done cg h _ _ _ _
  · exact cgDrawStringToWnd_done cg wnd h _ _ _ _
  · exact cgDrawString_done cg h _ _ _ _
  · exact ⟨_, rfl⟩

end Drawn

/-! ## Runs of the list -/

section Settles

variable {ι : Type}

/-- The windows of a later desktop: their places may have changed, and fewer of them are marked. -/
def Desktop.Settles (d d' : Desktop ι) : Prop :=
  ∀ w, ∃ x y repaint, d'.windows w =
      { d.windows w with wX := x, wY := y, wNeedsRepaint := repaint } ∧
    (repaint = true → (d.windows w).wNeedsRepaint = true)

namespace Desktop.Settles

variable {d d' d'' : Desktop ι}

theorem refl (d : Desktop ι) : d.Settles d := fun w =>
  ⟨(d.windows w).wX, (d.windows w).wY, (d.windows w).wNeedsRepaint, rfl, id⟩

theorem trans (h : d.Settles d') (h' : d'.Settles d'') : d.Settles d'' := by
  intro w
  obtain ⟨x, y, repaint, hw, hmark⟩ := h w
  obtain ⟨x', y', repaint', hw', hmark'⟩ := h' w
  rw [hw] at hw' hmark'
  exact ⟨x', y', repaint', hw', fun hr => hmark (hmark' hr)⟩

theorem skipped (h : d.Settles d') {w : ι} (hw : (d.windows w).skipped) :
    (d'.windows w).skipped := by
  obtain ⟨x, y, repaint, heq, hmark⟩ := h w
  rw [heq]
  refine hw.imp id fun hclear => ?_
  cases repaint with
  | false => rfl
  | true => exact absurd (hmark rfl) (hclear ▸ Bool.false_ne_true)

theorem set [DecidableEq ι] {w : ι} {x y : Int32} {repaint : Bool}
    (hmark : repaint = true → (d.windows w).wNeedsRepaint = true) :
    d.Settles (d.set w { d.windows w with wX := x, wY := y, wNeedsRepaint := repaint }) := by
  intro v
  by_cases hv : v = w
  · subst hv
    exact ⟨x, y, repaint, d.set_self .., hmark⟩
  · obtain ⟨x', y', repaint', heq, hkeep⟩ := refl d v
    exact ⟨x', y', repaint', (d.set_of_ne hv _).trans heq, hkeep⟩

end Desktop.Settles

end Settles

/-! ## Fuel -/

section Fuel

variable {ι : Type} [DecidableEq ι] (cg : CGContext)

theorem drawChild_le {draw draw' : Desktop ι → ι → Outcome CFault (Desktop ι × Bool)}
    (h : ∀ d w, draw d w ≤ draw' d w) (w : ι) (child : Nat) (d : Desktop ι) :
    drawChild draw w child d ≤ drawChild draw' w child d := by
  unfold drawChild
  split
  case isFalse => exact le_refl _
  case isTrue =>
    split
    · exact le_refl _
    · dsimp only
      split
      · exact le_refl _
      · exact bind_le_bind (h _ _) fun _ => le_refl _

theorem drawChildren_le {draw draw' : Desktop ι → ι → Outcome CFault (Desktop ι × Bool)}
    (h : ∀ d w, draw d w ≤ draw' d w) (w : ι) (children : List Nat) (d : Desktop ι) :
    drawChildren draw w children d ≤ drawChildren draw' w children d := by
  induction children generalizing d with
  | nil => exact le_refl _
  | cons child rest ih => exact bind_le_bind (drawChild_le h w child d) fun d => ih d

theorem drawListed_succ (fuel : Nat) (d : Desktop ι) (w : ι) :
    drawListed cg fuel d w ≤ drawListed cg (fuel + 1) d w := by
  induction fuel generalizing d w with
  | zero => exact running_le _
  | succ fuel ih =>
    rw [drawListed, drawListed]
    split
    · exact le_refl _
    · refine bind_le_bind (le_refl _) fun memory => ?_
      exact bind_le_bind (drawChildren_le ih w _ _) fun _ => le_refl _

theorem cgDrawWindowList_mono (l : List (Option ι)) (d : Desktop ι) :
    Monotone fun fuel => cgDrawWindowList cg fuel l d := by
  refine monotone_nat_of_le_succ fun fuel => ?_
  induction l generalizing d with
  | nil => exact le_refl _
  | cons w rest ih =>
    cases w with
    | none => exact ih d
    | some w =>
      refine bind_le_bind (drawListed_succ cg fuel d w) fun r => ?_
      exact bind_le_bind (ih r.1) fun _ => le_refl _

/-- A list of windows that are all passed over. -/
theorem cgDrawWindowList_skipped {l : List (Option ι)} {d : Desktop ι}
    (h : ∀ w, some w ∈ l → (d.windows w).skipped) {fuel : Nat} (hfuel : 0 < fuel) :
    cgDrawWindowList cg fuel l d = .done (d, 0) := by
  induction l with
  | nil => rfl
  | cons w rest ih =>
    have hrest := ih fun v hv => h v (List.mem_cons_of_mem _ hv)
    cases w with
    | none => exact hrest
    | some w =>
      obtain ⟨fuel, rfl⟩ := Nat.exists_eq_succ_of_ne_zero (Nat.pos_iff_ne_zero.mp hfuel)
      rw [cgDrawWindowList, drawListed, if_pos (h w List.mem_cons_self), done_bind, hrest]
      rfl

end Fuel

/-! ## A desktop comes to rest -/

section Good

variable {ι : Type}

/-- Names that can be drawn, and a child in every place that counts. -/
structure Desktop.Good (d : Desktop ι) : Prop where
  names : ∀ w, HasGlyphs (d.windows w).wWindowName
  count : ∀ w, (d.windows w).wChildCount.toNat ≤ kChildElements
  children : ∀ w, ∀ child < (d.windows w).wChildCount.toNat,
    (d.windows w).wChildElements child ≠ none

theorem Desktop.Good.settles {d d' : Desktop ι} (h : d.Good) (hs : d.Settles d') : d'.Good := by
  constructor
  all_goals
    intro w
    obtain ⟨x, y, repaint, heq, -⟩ := hs w
    rw [heq]
  · exact h.names w
  · exact h.count w
  · exact h.children w

/-- The windows that a list would draw. -/
def Desktop.marked [Fintype ι] (d : Desktop ι) : Finset ι :=
  Finset.univ.filter fun w => ¬ (d.windows w).skipped

theorem Desktop.Settles.marked [Fintype ι] {d d' : Desktop ι} (h : d.Settles d') :
    d'.marked ⊆ d.marked := by
  intro w hw
  rw [Desktop.marked, Finset.mem_filter] at hw ⊢
  exact ⟨hw.1, fun hskip => hw.2 (h.skipped hskip)⟩

end Good

section Rest

variable {ι : Type} [DecidableEq ι] [Fintype ι] (cg : CGContext)

/-- What a function that draws a window has to do for windows of so many marks. -/
def Draws (draw : Desktop ι → ι → Outcome CFault (Desktop ι × Bool)) (marks : Nat) : Prop :=
  ∀ d w, d.Good → d.marked.card < marks → ∃ r, draw d w = .done r ∧ d.Settles r.1 ∧
    (r.1.windows w).skipped ∧ (r.2 = true ↔ ¬ (d.windows w).skipped) ∧ (r.2 = false → r.1 = d)

theorem drawChild_draws {draw : Desktop ι → ι → Outcome CFault (Desktop ι × Bool)} {marks : Nat}
    (hdraw : Draws draw marks) {d : Desktop ι} (hgood : d.Good) (hmarks : d.marked.card < marks)
    {w : ι} {child : Nat} (hchild : child < (d.windows w).wChildCount.toNat) :
    ∃ d', drawChild draw w child d = .done d' ∧ d.Settles d' := by
  have hplace := hchild.trans_le (hgood.count w)
  obtain ⟨c, hc⟩ := Option.ne_none_iff_exists'.mp (hgood.children w child hchild)
  unfold drawChild
  rw [if_pos hplace, hc]
  dsimp only
  split
  · exact ⟨_, rfl, Desktop.Settles.set id⟩
  · have hmoved : d.Settles (d.set c { d.windows c with
        wX := (d.windows c).wX + (d.windows w).wX
        wY := (d.windows c).wY + ((d.windows w).wY + FLATCONTROLS_HEIGHT) }) :=
      Desktop.Settles.set id
    have hfew := (Finset.card_le_card hmoved.marked).trans_lt hmarks
    obtain ⟨r, hr, hsettles, -⟩ := hdraw _ c (hgood.settles hmoved) hfew
    exact ⟨r.1, by rw [hr]; rfl, hmoved.trans hsettles⟩

theorem drawChildren_draws {draw : Desktop ι → ι → Outcome CFault (Desktop ι × Bool)}
    {marks : Nat} (hdraw : Draws draw marks) {w : ι} (children : List Nat) {d : Desktop ι}
    (hgood : d.Good) (hmarks : d.marked.card < marks)
    (hchildren : ∀ child ∈ children, child < (d.windows w).wChildCount.toNat) :
    ∃ d', drawChildren draw w children d = .done d' ∧ d.Settles d' := by
  induction children generalizing d with
  | nil => exact ⟨d, rfl, .refl d⟩
  | cons child rest ih =>
    obtain ⟨d₁, hd₁, hsettles⟩ := drawChild_draws hdraw hgood hmarks
      (hchildren child List.mem_cons_self)
    have hcount : (d₁.windows w).wChildCount = (d.windows w).wChildCount := by
      obtain ⟨x, y, repaint, heq, -⟩ := hsettles w
      rw [heq]
    obtain ⟨d', hd', hrest⟩ := ih (hgood.settles hsettles)
      ((Finset.card_le_card hsettles.marked).trans_lt hmarks) fun child hin => by
        rw [hcount]
        exact hchildren child (List.mem_cons_of_mem _ hin)
    exact ⟨d', by rw [drawChildren, hd₁]; exact hd', hsettles.trans hrest⟩

theorem drawListed_draws (fuel : Nat) : Draws (drawListed (ι := ι) cg fuel) fuel := by
  induction fuel with
  | zero =>
    intro d w _ hmarks
    cases hmarks
  | succ fuel ih =>
    intro d w hgood hmarks
    rw [drawListed]
    split
    case isTrue hskip => exact ⟨_, rfl, .refl d, hskip, by simp [hskip], fun _ => rfl⟩
    case isFalse hdrawn =>
      dsimp only
      generalize hwnd :
        ({ d.windows w with wNeedsRepaint := false } : MLWindowStruct ι).clamped cg = wnd
      have hsettles : d.Settles (d.set w wnd) := by
        rw [← hwnd]
        exact Desktop.Settles.set Bool.noConfusion
      have hcleared : ((d.set w wnd).windows w).skipped := by
        refine .inr ?_
        rw [Desktop.set_self, ← hwnd]
        rfl
      have hname : HasGlyphs wnd.wWindowName := by
        rw [← hwnd]
        exact hgood.names w
      have hcount : wnd.wChildCount = (d.windows w).wChildCount := by
        rw [← hwnd]
        rfl
      have hfew : (d.set w wnd).marked.card < fuel := by
        have hlost : (d.set w wnd).marked ⊂ d.marked := by
          refine Finset.ssubset_iff_subset_ne.mpr ⟨hsettles.marked, fun heq => ?_⟩
          have hin : w ∈ d.marked := Finset.mem_filter.mpr ⟨Finset.mem_univ w, hdrawn⟩
          rw [← heq] at hin
          exact (Finset.mem_filter.mp hin).2 hcleared
        have hless := Finset.card_lt_card hlost
        omega
      obtain ⟨memory, hmemory⟩ := drawWindow_done cg hname (d.set w wnd).memory
      have hpainted : d.Settles { d.set w wnd with memory } := hsettles
      obtain ⟨d', hd', hrest⟩ := drawChildren_draws ih (w := w)
        (List.range wnd.wChildCount.toNat) (hgood.settles hpainted) hfew (by
          intro child hin
          rw [List.mem_range, hcount] at hin
          obtain ⟨x, y, repaint, heq, -⟩ := hpainted w
          rw [heq]
          exact hin)
      refine ⟨(d', true), ?_, hpainted.trans hrest, hrest.skipped hcleared, by simp [hdrawn],
        Bool.noConfusion⟩
      rw [hmemory, done_bind, hd', done_bind]

theorem cgDrawWindowList_draws (l : List (Option ι)) {d : Desktop ι} (hgood : d.Good) {fuel : Nat}
    (hfuel : d.marked.card < fuel) :
    ∃ d' n, cgDrawWindowList cg fuel l d = .done (d', UInt64.ofNat n) ∧ d.Settles d' ∧
      (∀ w, some w ∈ l → (d'.windows w).skipped) ∧ n ≤ l.length ∧
        (n = 0 ↔ ∀ w, some w ∈ l → (d.windows w).skipped) := by
  induction l generalizing d with
  | nil => exact ⟨d, 0, rfl, .refl d, by simp, by simp, by simp⟩
  | cons w rest ih =>
    cases w with
    | none =>
      obtain ⟨d', n, hd', hsettles, hskipped, hle, hzero⟩ := ih hgood hfuel
      refine ⟨d', n, hd', hsettles, ?_, hle.trans (Nat.le_succ _), ?_⟩
      · simpa using hskipped
      · simpa using hzero
    | some w =>
      obtain ⟨r, hr, hfirst, hw, hcount, hsame⟩ := drawListed_draws cg fuel d w hgood hfuel
      obtain ⟨d', n, hd', hsettles, hskipped, hle, hzero⟩ := ih (hgood.settles hfirst)
        ((Finset.card_le_card hfirst.marked).trans_lt hfuel)
      refine ⟨d', n + if r.2 then 1 else 0, ?_, hfirst.trans hsettles, ?_, ?_, ?_⟩
      · rw [cgDrawWindowList, hr, done_bind, hd', done_bind]
        cases r.2 <;> simp
      · intro v hv
        rcases List.mem_cons.mp hv with heq | hin
        · cases heq
          exact hsettles.skipped hw
        · exact hskipped v hin
      · rw [List.length_cons]
        split <;> omega
      · cases hdrawn : r.2 with
        | true =>
          refine iff_of_false (by simp) fun h => ?_
          exact hcount.mp hdrawn (h w List.mem_cons_self)
        | false =>
          rw [hsame hdrawn] at hzero
          have hskip : (d.windows w).skipped := by
            by_contra hno
            exact absurd (hcount.mpr hno) (by simp [hdrawn])
          simpa [hskip] using hzero

end Rest

/-! ## Children wander -/

section Moved

variable {ι : Type}

/-- A window that was moved so many times by the place of its parent. -/
def MLWindowStruct.moved (wnd parent : MLWindowStruct ι) (n : Nat) : MLWindowStruct ι :=
  { wnd with
    wX := wnd.wX + Int32.ofNat n * parent.wX
    wY := wnd.wY + Int32.ofNat n * (parent.wY + FLATCONTROLS_HEIGHT) }

theorem MLWindowStruct.moved_zero (wnd parent : MLWindowStruct ι) : wnd.moved parent 0 = wnd := by
  simp [moved]

theorem MLWindowStruct.moved_moved (wnd parent : MLWindowStruct ι) (m n : Nat) :
    (wnd.moved parent m).moved parent n = wnd.moved parent (m + n) := by
  simp only [moved, Int32.ofNat_add, MLWindowStruct.mk.injEq, true_and, and_true]
  constructor
  · grind
  · grind

theorem MLWindowStruct.clamped_clear (cg : CGContext) {wnd : MLWindowStruct ι} {repaint : Bool}
    (h : wnd.clamped cg = wnd) :
    ({ wnd with wNeedsRepaint := repaint } : MLWindowStruct ι).clamped cg =
      { wnd with wNeedsRepaint := repaint } := by
  conv_rhs => rw [← h]
  rfl

end Moved

section Drift

variable {ι : Type} [DecidableEq ι] (cg : CGContext)

/-- The places of a window among the children of another one. -/
def MLWindowStruct.times (parent : MLWindowStruct ι) (c : ι) (children : List Nat) : Nat :=
  children.countP fun child => parent.wChildElements child = some c

/-- A window is marked and drawn again. -/
def refresh (fuel : Nat) (p : ι) (d : Desktop ι) : Outcome CFault (Desktop ι × UInt64) :=
  cgDrawWindowList cg fuel [some p] (d.set p { d.windows p with wNeedsRepaint := true })

def RefreshStep (p : ι) (d : Desktop ι) (cnt : UInt64) (d' : Desktop ι) : Prop :=
  ∃ fuel, refresh cg fuel p d = .done (d', cnt)

variable {cg}

/-- A child that is not marked is only moved. -/
theorem drawChild_moves {fuel : Nat} {p c : ι} {child : Nat} {d d' : Desktop ι}
    (hc : (d.windows p).wChildElements child = some c) (hskip : (d.windows c).skipped)
    (h : drawChild (drawListed cg fuel) p child d = .done d') :
    d' = d.set c ((d.windows c).moved (d.windows p) 1) := by
  have hone : (d.windows c).moved (d.windows p) 1 = { d.windows c with
      wX := (d.windows c).wX + (d.windows p).wX
      wY := (d.windows c).wY + ((d.windows p).wY + FLATCONTROLS_HEIGHT) } := by
    simp [MLWindowStruct.moved]
  unfold drawChild at h
  split at h
  case isFalse => cases h
  case isTrue =>
    rw [hc] at h
    dsimp only at h
    rw [← hone] at h
    split at h
    · cases h
      rfl
    · obtain ⟨r, hr, hdone⟩ := bind_eq_done.mp h
      cases hdone
      have hskip' : ((d.set c ((d.windows c).moved (d.windows p) 1)).windows c).skipped := by
        rw [Desktop.set_self]
        exact hskip
      cases fuel with
      | zero => cases hr
      | succ fuel =>
        rw [drawListed, if_pos hskip'] at hr
        cases hr
        rfl

theorem drawChildren_moves {fuel : Nat} {p : ι} (children : List Nat) {d d' : Desktop ι}
    (hchildren : ∀ child ∈ children, ∃ c, (d.windows p).wChildElements child = some c ∧ c ≠ p ∧
      (d.windows c).skipped)
    (h : drawChildren (drawListed cg fuel) p children d = .done d') (c : ι) :
    d'.windows c =
      (d.windows c).moved (d.windows p) ((d.windows p).times c children) := by
  induction children generalizing d with
  | nil =>
    cases h
    exact (MLWindowStruct.moved_zero ..).symm
  | cons child rest ih =>
    obtain ⟨d₁, hd₁, hrest⟩ := bind_eq_done.mp h
    obtain ⟨c₁, hc₁, hne, hskip⟩ := hchildren child List.mem_cons_self
    obtain rfl := drawChild_moves hc₁ hskip hd₁
    have hparent : (d.set c₁ ((d.windows c₁).moved (d.windows p) 1)).windows p = d.windows p :=
      d.set_of_ne hne.symm _
    have hmoved := ih (d := d.set c₁ ((d.windows c₁).moved (d.windows p) 1)) (by
      intro k hk
      obtain ⟨c₂, hc₂, hne₂, hskip₂⟩ := hchildren k (List.mem_cons_of_mem _ hk)
      refine ⟨c₂, by rw [hparent]; exact hc₂, hne₂, ?_⟩
      by_cases heq : c₂ = c₁
      · rw [heq, Desktop.set_self]
        exact hskip
      · rw [Desktop.set_of_ne _ heq]
        exact hskip₂) hrest
    rw [hmoved, hparent]
    have htimes : (d.windows p).times c (child :: rest) =
        (if c = c₁ then 1 else 0) + (d.windows p).times c rest := by
      rw [MLWindowStruct.times, List.countP_cons, hc₁, Nat.add_comm]
      simp [MLWindowStruct.times, eq_comm]
    rw [htimes]
    split
    case isTrue heq =>
      rw [heq, Desktop.set_self, MLWindowStruct.moved_moved]
    case isFalse heq => rw [Desktop.set_of_ne _ heq, Nat.zero_add]

/-- A window on the screen, none of whose children is drawn by itself. -/
structure Quiet (cg : CGContext) (p : ι) (d : Desktop ι) : Prop where
  shown : (d.windows p).wType ≠ kWndFlagNoShow
  placed : (d.windows p).clamped cg = d.windows p
  children : ∀ child < (d.windows p).wChildCount.toNat,
    ∃ c, (d.windows p).wChildElements child = some c ∧ c ≠ p ∧ (d.windows c).skipped

/-- How many times a window hangs below another one. -/
def MLWindowStruct.childTimes (parent : MLWindowStruct ι) (c : ι) : Nat :=
  parent.times c (List.range parent.wChildCount.toNat)

theorem refresh_moves {p : ι} {d d' : Desktop ι} {cnt : UInt64} (hquiet : Quiet cg p d)
    (h : RefreshStep cg p d cnt d') :
    d'.windows p = { d.windows p with wNeedsRepaint := false } ∧
      ∀ c, c ≠ p → d'.windows c =
        (d.windows c).moved (d.windows p) ((d.windows p).childTimes c) := by
  obtain ⟨hshown, hplaced, hchildren⟩ := hquiet
  obtain ⟨fuel, h⟩ := h
  obtain ⟨r, hr, hdone⟩ := bind_eq_done.mp h
  cases hdone
  cases fuel with
  | zero => cases hr
  | succ fuel =>
    have hmarked : ¬ ((d.set p { d.windows p with wNeedsRepaint := true }).windows p).skipped := by
      rw [Desktop.set_self]
      exact not_or.mpr ⟨hshown, Bool.noConfusion⟩
    rw [drawListed, if_neg hmarked, Desktop.set_self] at hr
    obtain ⟨memory, -, hr⟩ := bind_eq_done.mp hr
    obtain ⟨d₁, hd₁, hr⟩ := bind_eq_done.mp hr
    cases hr
    have hclear : ({ d.windows p with wNeedsRepaint := false } : MLWindowStruct ι).clamped cg =
        { d.windows p with wNeedsRepaint := false } := MLWindowStruct.clamped_clear cg hplaced
    dsimp only at hd₁
    rw [hclear] at hd₁
    generalize hstart : ({ (d.set p { d.windows p with wNeedsRepaint := true }).set p
        { d.windows p with wNeedsRepaint := false } with memory } : Desktop ι) = start at hd₁
    have hp : start.windows p = { d.windows p with wNeedsRepaint := false } := by
      rw [← hstart]
      exact Desktop.set_self ..
    have hother : ∀ c, c ≠ p → start.windows c = d.windows c := by
      intro c hc
      rw [← hstart]
      exact (Desktop.set_of_ne _ hc _).trans (Desktop.set_of_ne _ hc _)
    have hmoves := drawChildren_moves (d := start) _ (by
      intro child hin
      obtain ⟨c, hc, hne, hskip⟩ := hchildren child (List.mem_range.mp hin)
      exact ⟨c, by rw [hp]; exact hc, hne, by rw [hother c hne]; exact hskip⟩) hd₁
    have hnone : (start.windows p).times p
        (List.range (d.windows p).wChildCount.toNat) = 0 := by
      rw [hp, MLWindowStruct.times, List.countP_eq_zero]
      intro child hin
      obtain ⟨c, hc, hne, -⟩ := hchildren child (List.mem_range.mp hin)
      simp [hc, hne]
    constructor
    · rw [hmoves p, hnone, MLWindowStruct.moved_zero, hp]
    · intro c hc
      rw [hmoves c, hother c hc, hp]
      rfl

/-- A window of a desktop whose windows can be drawn is drawn again. -/
theorem refresh_done [Fintype ι] (cg : CGContext) {d : Desktop ι} (hgood : d.Good) (p : ι) :
    ∃ cnt d', RefreshStep cg p d cnt d' ∧ d'.Good := by
  have hmarked : (d.set p { d.windows p with wNeedsRepaint := true }).Good := by
    have hsame : ∀ w, ∃ repaint,
        (d.set p { d.windows p with wNeedsRepaint := true }).windows w =
          { d.windows w with wNeedsRepaint := repaint } := by
      intro w
      by_cases hw : w = p
      · subst hw
        exact ⟨true, Desktop.set_self ..⟩
      · exact ⟨(d.windows w).wNeedsRepaint, Desktop.set_of_ne _ hw _⟩
    constructor
    all_goals
      intro w
      obtain ⟨repaint, heq⟩ := hsame w
      rw [heq]
    · exact hgood.names w
    · exact hgood.count w
    · exact hgood.children w
  obtain ⟨d', n, hd', hsettles, -⟩ :=
    cgDrawWindowList_draws cg [some p] hmarked (Nat.lt_succ_self _)
  exact ⟨_, d', ⟨_, hd'⟩, hmarked.settles hsettles⟩

/-- The children of a window that is drawn again and again wander off by its place, each time that
it is drawn, while the window itself stays. -/
theorem children_drift {p : ι} {d d' : Desktop ι} {counts : List UInt64} (hquiet : Quiet cg p d)
    (h : Trace (RefreshStep cg p) d counts d') :
    ((d'.windows p).wX = (d.windows p).wX ∧ (d'.windows p).wY = (d.windows p).wY) ∧
      ∀ c, c ≠ p → d'.windows c = (d.windows c).moved (d.windows p)
        (counts.length * (d.windows p).childTimes c) := by
  have hrun := h.history (fun past x =>
      (∃ repaint, x.windows p = { d.windows p with wNeedsRepaint := repaint }) ∧
        ∀ c, c ≠ p → x.windows c = (d.windows c).moved (d.windows p)
          (past.length * (d.windows p).childTimes c)) ?_ ?_
  · obtain ⟨⟨repaint, hp⟩, hmoved⟩ := hrun
    rw [hp]
    exact ⟨⟨rfl, rfl⟩, hmoved⟩
  · intro past x cnt y hpast hstep
    obtain ⟨⟨repaint, hp⟩, hmoved⟩ := hpast
    have hquiet' : Quiet cg p x := by
      constructor
      · rw [hp]
        exact hquiet.shown
      · rw [hp]
        exact MLWindowStruct.clamped_clear cg hquiet.placed
      · rw [hp]
        intro child hchild
        obtain ⟨c, hc, hne, hskip⟩ := hquiet.children child hchild
        exact ⟨c, hc, hne, by rw [hmoved c hne]; exact hskip⟩
    obtain ⟨hparent, hchildren⟩ := refresh_moves hquiet' hstep
    refine ⟨⟨false, by rw [hparent, hp]⟩, fun c hc => ?_⟩
    rw [hchildren c hc, hmoved c hc, hp, List.length_append, List.length_singleton, Nat.succ_mul]
    exact MLWindowStruct.moved_moved ..
  · refine ⟨⟨_, rfl⟩, fun c _ => ?_⟩
    rw [List.length_nil, Nat.zero_mul, MLWindowStruct.moved_zero]

end Drift

/-! ## Two windows -/

def sampleContext : CGContext := ⟨sampleGop, 0x1000, 0x2000⟩

def sampleWindow (x y : Int32) (children : List Bool) (marked : Bool) : MLWindowStruct Bool where
  wWindowName := [0]
  wType := kWndFlagWindow
  wSubType := kWndFlagHideCloseControl
  wX := x
  wY := y
  wW := 100
  wH := 50
  wChildCount := UInt64.ofNat children.length
  wChildElements := fun child => children[child]?
  displayPtr := 0x3000
  wNeedsRepaint := marked

/-- The second window is a child of the first one. -/
def sampleDesktop (children : List Bool) (marked : Bool) : Desktop Bool where
  windows w := if w then sampleWindow 5 5 children marked else sampleWindow 20 20 [true] marked
  memory := fun _ => 0

theorem sampleDesktop_good (children : List Bool) (hlen : children.length ≤ kChildElements)
    (marked : Bool) : (sampleDesktop children marked).Good := by
  have hcount : ∀ children : List Bool, children.length ≤ kChildElements →
      (UInt64.ofNat children.length).toNat = children.length := by
    intro children hlen
    have hsmall : children.length ≤ 255 := hlen
    rw [UInt64.toNat_ofNat']
    omega
  have hgood : ∀ x y, ∀ children : List Bool, children.length ≤ kChildElements →
      HasGlyphs (sampleWindow x y children marked).wWindowName ∧
        (sampleWindow x y children marked).wChildCount.toNat ≤ kChildElements ∧
          ∀ child < (sampleWindow x y children marked).wChildCount.toNat,
            (sampleWindow x y children marked).wChildElements child ≠ none := by
    intro x y children hlen
    refine ⟨⟨by simp [sampleWindow], by simp [sampleWindow, NewKit.cstr]⟩, ?_, ?_⟩
    · exact (hcount children hlen).trans_le hlen
    · intro child hchild
      have hlt : child < children.length := hchild.trans_eq (hcount children hlen)
      simp [sampleWindow, hlt]
  have hboth : ∀ w, ∃ x y, ∃ below : List Bool, below.length ≤ kChildElements ∧
      (sampleDesktop children marked).windows w = sampleWindow x y below marked := by
    intro w
    cases w with
    | true => exact ⟨5, 5, children, hlen, rfl⟩
    | false => exact ⟨20, 20, [true], by decide, rfl⟩
  constructor
  all_goals
    intro w
    obtain ⟨x, y, below, hbelow, heq⟩ := hboth w
    rw [heq]
  · exact (hgood x y below hbelow).1
  · exact (hgood x y below hbelow).2.1
  · exact (hgood x y below hbelow).2.2

/-- After two rounds the child has moved from (5, 5) to (45, 93). -/
theorem children_drift_twice : ∃ counts d',
    Trace (RefreshStep sampleContext false) (sampleDesktop [] false) counts d' ∧
      (d'.windows true).wX = 45 ∧ (d'.windows true).wY = 93 := by
  have hgood := sampleDesktop_good [] (by decide) false
  have hquiet : Quiet sampleContext false (sampleDesktop [] false) := by
    refine ⟨by decide, rfl, fun child hchild => ?_⟩
    have hzero : child = 0 := Nat.lt_one_iff.mp hchild
    exact ⟨true, by rw [hzero]; rfl, by decide, .inr rfl⟩
  obtain ⟨cnt, d, hfirst, hd⟩ := refresh_done sampleContext hgood false
  obtain ⟨cnt', d', hlast, -⟩ := refresh_done sampleContext hd false
  have htrace : Trace (RefreshStep sampleContext false) (sampleDesktop [] false) [cnt, cnt'] d' :=
    .cons hfirst (.cons hlast (.nil d'))
  have htrue := (children_drift hquiet htrace).2 true (by decide)
  refine ⟨_, d', htrace, ?_, ?_⟩
  · rw [htrue]
    rfl
  · rw [htrue]
    rfl

end Zka.Modules
