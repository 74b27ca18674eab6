import Zka.Modules.Text

/-!
# The stop screen

`ke_stop` writes two lines on whatever the screen shows, a heading and the error, and halts the
processor; only the boot splash lets the kernel go on.
-/

namespace Zka.KernelKit

open Modules Outcome

/-- The enumeration `RUNTIME_CHECK`. -/
def RUNTIME_CHECK_FAILED : Int32 := -1

def RUNTIME_CHECK_POINTER : Int32 := 0

def RUNTIME_CHECK_IPC : Int32 := 3

def RUNTIME_CHECK_HANDSHAKE : Int32 := 5

def RUNTIME_CHECK_ACPI : Int32 := 6

def RUNTIME_CHECK_INVALID_PRIVILEGE : Int32 := 7

def RUNTIME_CHECK_PROCESS : Int32 := 8

def RUNTIME_CHECK_BAD_BEHAVIOR : Int32 := 9

def RUNTIME_CHECK_BOOTSTRAP : Int32 := 10

def RUNTIME_CHECK_UNEXCPECTED : Int32 := 11

def RUNTIME_CHECK_FILESYSTEM : Int32 := 12

def RUNTIME_CHECK_VIRTUAL_OUT_OF_MEM : Int32 := 13

def RUNTIME_CHECK_PAGE : Int32 := 14

/-- The characters of a literal, less its terminator. -/
def chars (literal : String) : List UInt8 := literal.toList.map fun c => c.toNat.toUInt8

/-- The errors that have a text of their own. -/
def stopTexts : List (Int32 × String) := [
  (RUNTIME_CHECK_PROCESS, "0x00000008: Invalid process behavior."),
  (RUNTIME_CHECK_ACPI, "0x00000006: ACPI configuration error."),
  (RUNTIME_CHECK_PAGE, "0x0000000B: Write/Read in non paged area."),
  (RUNTIME_CHECK_FILESYSTEM, "0x0000000A: Filesystem driver error."),
  (RUNTIME_CHECK_POINTER, "0x00000000: Kernel heap is corrupted."),
  (RUNTIME_CHECK_BAD_BEHAVIOR, "0x00000009: Bad behavior."),
  (RUNTIME_CHECK_BOOTSTRAP,
    "0x0000000A: Boot Code has finished running, running Kernel process..."),
  (RUNTIME_CHECK_HANDSHAKE, "0x00000005: Handshake fault."),
  (RUNTIME_CHECK_IPC, "0x00000003: Bad LPC message."),
  (RUNTIME_CHECK_INVALID_PRIVILEGE, "0x00000007: Privilege access violation."),
  (RUNTIME_CHECK_UNEXCPECTED, "0x0000000B: Unexpected violation."),
  (RUNTIME_CHECK_VIRTUAL_OUT_OF_MEM, "0x10000001: Out of virtual memory."),
  (RUNTIME_CHECK_FAILED,
    "0x10000001 Kernel Bug check appears to have failed, a dump has been written to the storage.")]

def unknownText : String := "0xFFFFFFFC Unknown Kernel Error."

def stopText (id : Int32) : List UInt8 := chars ((stopTexts.lookup id).getD unknownText)

def stopHeading (id : Int32) : List UInt8 :=
  chars (if id ≠ RUNTIME_CHECK_BOOTSTRAP then "Kernel Panic!" else "Kernel Splash:")

/-- `RGB(0xff, 0xff, 0xff)`. -/
def panicText : Int32 := 0xFFFFFF

def stopLines (gop : Gop) (heading text : List UInt8) (m : Store) : Outcome CFault Store :=
  let startY := 50
  let x := 10
  gop.cgDrawString startY panicText (heading ++ [0]) x m >>= fun m =>
    gop.cgDrawString (startY + 10) panicText (text ++ [0]) x m

/-- The screen that `ke_stop` leaves, and whether it returns: `Recover` halts for ever. -/
def keStop (gop : Gop) (id : Int32) (m : Store) : Outcome CFault (Store × Bool) :=
  stopLines gop (stopHeading id) (stopText id) m >>= fun m =>
    .done (m, id = RUNTIME_CHECK_BOOTSTRAP)

/-! ## The texts -/

/-- The characters of the longest text. -/
def stopColumns : Nat := 91

/-- A text that fits in its line, with a glyph for each character, and without blanks that could
not be told from others. -/
structure Plain (text : List UInt8) : Prop where
  length : text.length ≤ stopColumns
  font : ∀ c ∈ text, c ≠ 0 ∧ c.toNat < FONT_NOF_CHARS
  shown : shown text = text

instance (text : List UInt8) : Decidable (Plain text) :=
  decidable_of_iff (text.length ≤ stopColumns ∧ (∀ c ∈ text, c ≠ 0 ∧ c.toNat < FONT_NOF_CHARS) ∧
    shown text = text) ⟨fun h => ⟨h.1, h.2.1, h.2.2⟩, fun h => ⟨h.length, h.font, h.shown⟩⟩

theorem plain_chars : ∀ text ∈ "Kernel Panic!" :: "Kernel Splash:" :: unknownText ::
    stopTexts.map Prod.snd, Plain (chars text) := by
  simp only [stopTexts, unknownText, chars, List.map_cons, List.map_nil, List.forall_mem_cons,
    String.reduceToList]
  decide +kernel

theorem stopHeading_plain (id : Int32) : Plain (stopHeading id) := by
  refine plain_chars _ ?_
  split
  · exact List.mem_cons_self
  · exact List.mem_cons_of_mem _ List.mem_cons_self

theorem stopText_plain (id : Int32) : Plain (stopText id) := by
  refine plain_chars _ (List.mem_cons_of_mem _ (List.mem_cons_of_mem _ ?_))
  cases hid : stopTexts.lookup id with
  | none => exact List.mem_cons_self
  | some text =>
    obtain ⟨before, behind, htexts, -⟩ := List.lookup_eq_some_iff.mp hid
    refine List.mem_cons_of_mem _ (List.mem_map.mpr ⟨(id, text), ?_, rfl⟩)
    simp [htexts]

/-! ## The two lines -/

section Lines

variable {gop : Gop}

/-- The lines of the heading are above those of the error. -/
theorem lines_apart (hfits : gop.Fits 50 10 18 (FONT_SIZE_Y * stopColumns)) {x u y v : Nat}
    (hx : x < FONT_SIZE_X) (hy : y < FONT_SIZE_Y * stopColumns) (hu : u < FONT_SIZE_X)
    (hv : v < FONT_SIZE_Y * stopColumns) :
    gop.cell (50 + Int32.ofNat x) (10 + Int32.ofNat y) ≠
      gop.cell (50 + 10 + Int32.ofNat u) (10 + Int32.ofNat v) := by
  have hx8 : x < 8 := hx
  have hu8 : u < 8 := hu
  have hshift : (50 : Int32) + 10 + Int32.ofNat u = 50 + Int32.ofNat (10 + u) := by
    rw [Int32.ofNat_add, Int32.add_assoc]
    rfl
  rw [hshift, ne_eq, gop.cell_inj hfits (by omega) hy (by omega) hv]
  omega

theorem fits_lines (hfits : gop.Fits 50 10 18 (FONT_SIZE_Y * stopColumns)) :
    gop.Fits 50 10 FONT_SIZE_X (FONT_SIZE_Y * stopColumns) ∧
      gop.Fits (50 + 10) 10 FONT_SIZE_X (FONT_SIZE_Y * stopColumns) := by
  obtain ⟨hline, hcolumn, hwidth, hstride, -, hspace⟩ := hfits
  have hfirst : (50 : Int32).toInt = 50 := rfl
  have hsecond : (50 + 10 : Int32).toInt = 60 := rfl
  have hbelow : 4 * gop.fPixelPerLine.toNat * (50 + 8) ≤ 4 * gop.fPixelPerLine.toNat * (50 + 18) :=
    Nat.mul_le_mul_left _ (by decide)
  refine ⟨⟨hline, hcolumn, hwidth, hstride, by decide, ?_⟩,
    ⟨by decide, hcolumn, hwidth, hstride, by decide, ?_⟩⟩
  · exact (Nat.add_le_add_left hbelow _).trans hspace
  · exact hspace

/-- The screen of a stop shows both lines. -/
theorem stopLines_shows (hfits : gop.Fits 50 10 18 (FONT_SIZE_Y * stopColumns)) {m : Store}
    (hfirst : gop.Ground 50 10 panicText stopColumns m)
    (hsecond : gop.Ground (50 + 10) 10 panicText stopColumns m) (id : Int32) :
    ∃ s, stopLines gop (stopHeading id) (stopText id) m = .done s ∧
      gop.Shows 50 10 panicText stopColumns (stopHeading id) s ∧
      gop.Shows (50 + 10) 10 panicText stopColumns (stopText id) s := by
  obtain ⟨hfits₁, hfits₂⟩ := fits_lines hfits
  have hhead := stopHeading_plain id
  have htext := stopText_plain id
  obtain ⟨s, hdraw, hpictured⟩ := gop.exists_pictured panicText m []
    (fun h0 => (hhead.font 0 h0).1 rfl) (fun c hc => (hhead.font c hc).2)
    (hfits₁.room hhead.length)
  obtain ⟨t, hdraw', hpictured'⟩ := gop.exists_pictured panicText s []
    (fun h0 => (htext.font 0 h0).1 rfl) (fun c hc => (htext.font c hc).2)
    (hfits₂.room htext.length)
  have hground : gop.Ground (50 + 10) 10 panicText stopColumns s := by
    intro x hx y hy
    rw [hpictured.keep hhead.length fun u hu v hv => (lines_apart hfits hu hv hx hy).symm]
    exact hsecond x hx y hy
  refine ⟨t, ?_, ?_, hpictured'.shows hfits₂ hground htext.length⟩
  · simp only [stopLines, hdraw, hdraw', done_bind]
  · intro i hi x hx y hy
    rw [hpictured'.keep htext.length fun u hu v hv =>
      lines_apart hfits hx (Gop.place_lt hi hy) hu hv]
    exact hpictured.shows hfits₁ hfirst hhead.length i hi x hx y hy

/-- The screen of a stop tells its error: the screens of two stops are the same only if both lines
are, and only the boot splash comes back. -/
theorem stop_screens_eq_iff (hfits : gop.Fits 50 10 18 (FONT_SIZE_Y * stopColumns)) {m : Store}
    (hfirst : gop.Ground 50 10 panicText stopColumns m)
    (hsecond : gop.Ground (50 + 10) 10 panicText stopColumns m) (id id' : Int32) :
    ∃ s s', keStop gop id m = .done (s, decide (id = RUNTIME_CHECK_BOOTSTRAP)) ∧
      keStop gop id' m = .done (s', decide (id' = RUNTIME_CHECK_BOOTSTRAP)) ∧
        (s = s' ↔ stopHeading id = stopHeading id' ∧ stopText id = stopText id') := by
  obtain ⟨s, hs, hheads, htexts⟩ := stopLines_shows hfits hfirst hsecond id
  obtain ⟨s', hs', hheads', htexts'⟩ := stopLines_shows hfits hfirst hsecond id'
  refine ⟨s, s', by rw [keStop, hs]; rfl, by rw [keStop, hs']; rfl, ?_⟩
  constructor
  · rintro rfl
    have hhead := stopHeading_plain id
    have hhead' := stopHeading_plain id'
    have htext := stopText_plain id
    have htext' := stopText_plain id'
    have hheading := hheads.shown_eq hheads' hhead.length hhead'.length
      (fun c hc => (hhead.font c hc).2) fun c hc => (hhead'.font c hc).2
    have herror := htexts.shown_eq htexts' htext.length htext'.length
      (fun c hc => (htext.font c hc).2) fun c hc => (htext'.font c hc).2
    rw [hhead.shown, hhead'.shown] at hheading
    rw [htext.shown, htext'.shown] at herror
    exact ⟨hheading, herror⟩
  · rintro ⟨hheading, herror⟩
    rw [hheading, herror, hs'] at hs
    cases hs
    rfl

end Lines

/-- Two of the errors on an empty screen. -/
theorem stop_screens_memory : ∃ s s',
    keStop sampleGop RUNTIME_CHECK_PAGE (fun _ => 0) = .done (s, false) ∧
      keStop sampleGop RUNTIME_CHECK_VIRTUAL_OUT_OF_MEM (fun _ => 0) = .done (s', false) ∧
        (s = s' ↔ stopHeading RUNTIME_CHECK_PAGE = stopHeading RUNTIME_CHECK_VIRTUAL_OUT_OF_MEM ∧
          stopText RUNTIME_CHECK_PAGE = stopText RUNTIME_CHECK_VIRTUAL_OUT_OF_MEM) := by
  have hfits : sampleGop.Fits 50 10 18 (FONT_SIZE_Y * stopColumns) :=
    ⟨by decide, by decide, by decide, by decide, by decide, by decide⟩
  exact stop_screens_eq_iff hfits (ground_zero _ _ _ (by decide) _)
    (ground_zero _ _ _ (by decide) _) RUNTIME_CHECK_PAGE RUNTIME_CHECK_VIRTUAL_OUT_OF_MEM

end Zka.KernelKit
