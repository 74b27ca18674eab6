import Zka.Framework.Run
import Zka.NewKit.Memory
import Zka.NewKit.Text

/-!
# Kernel string objects

A `KString` is a buffer of a fixed size with a cursor behind its text.  The cursor goes through a
signed word of 32 bits on its way to the loop that appends, and no append looks at the room that
is left.
-/

namespace Zka.NewKit

structure KString where
  fData : UInt64
  fDataSz : UInt64
  fCur : UInt64

/-- The constructor, for the buffer that was allocated. -/
def KString.construct (m : Store) (fData sz : UInt64) : Store × KString :=
  ((rtSetMemory m fData 0 sz).2, ⟨fData, sz, 0⟩)

/-- A string that is appended stands apart from the buffer, or in it. -/
inductive AppendSource where
  | text (bytes : List UInt8)
  | own (offset : Nat)
  deriving DecidableEq, Repr

def AppendSource.bytes (rhs : AppendSource) (k : KString) (m : Store) : List UInt8 :=
  match rhs with
  | text bytes => bytes
  | own offset =>
    (List.range (k.fDataSz.toNat - offset)).map fun i => m (k.fData.toNat + offset + i)

/-- Where pass `i` of the loop stores. -/
def appendAddress (lhs : UInt64) (cur : Int32) (i : Nat) : UInt64 :=
  lhs + (UInt64.ofNat i + cur.toInt64.toUInt64)

def rtStringAppend (m : Store) (lhs : UInt64) (rhs : Store → List UInt8) (cur : Int32) : Nat → Store
  | 0 => m
  | i + 1 =>
    let before := rtStringAppend m lhs rhs cur i
    Function.update before (appendAddress lhs cur i).toNat ((rhs before).getD i 0)

namespace KString

variable (m : Store) (k : KString)

/-- The cursor as it is handed to `rt_string_append`. -/
def cursor : Int32 := k.fCur.toUInt32.toInt32

/-- `+=` with a character pointer.  The length is measured again behind the loop. -/
def appendChars (rhs : AppendSource) : Store × KString :=
  let m' := rtStringAppend m k.fData (rhs.bytes k) k.cursor (rtStringLen (rhs.bytes k m))
  (m', { k with fCur := k.fCur + UInt64.ofNat (rtStringLen (rhs.bytes k m')) })

/-- `+=` with a `KString`, whose text is compared with the whole buffer. -/
def appendString (rhs : AppendSource) : Store × KString :=
  if k.fDataSz.toNat < rtStringLen (rhs.bytes k m) then (m, k) else k.appendChars m rhs

end KString

/-! ## Appends in a buffer -/

section Address

variable {m : Store} {k : KString} {bytes : List UInt8} {n : Nat}

theorem cursor_toUInt64 (h : k.fCur.toNat < 2 ^ 31) : k.cursor.toInt64.toUInt64 = k.fCur := by
  have hword : k.cursor.toInt64.toUInt64.toBitVec =
      (k.fCur.toBitVec.setWidth 32).signExtend 64 := rfl
  have hsmall : (k.fCur.toBitVec.setWidth 32).toNat = k.fCur.toNat := by
    rw [BitVec.toNat_setWidth, UInt64.toNat_toBitVec]
    omega
  have hmsb : (k.fCur.toBitVec.setWidth 32).msb = false := by
    rw [BitVec.msb_eq_false_iff_two_mul_lt, hsmall]
    omega
  rw [← UInt64.toBitVec_inj, hword, BitVec.signExtend_eq_setWidth_of_msb_false hmsb]
  apply BitVec.eq_of_toNat_eq
  rw [BitVec.toNat_setWidth, hsmall, UInt64.toNat_toBitVec]
  omega

/-- The stores go on from the cursor. -/
theorem appendAddress_mod (h : k.fCur.toNat < 2 ^ 31) (i : Nat) :
    (appendAddress k.fData k.cursor i).toNat = (k.fData.toNat + k.fCur.toNat + i) % 2 ^ 64 := by
  rw [appendAddress, cursor_toUInt64 h, UInt64.toNat_add, UInt64.toNat_add, UInt64.toNat_ofNat']
  omega

theorem appendAddress_toNat (h : k.fCur.toNat < 2 ^ 31) {i : Nat}
    (hspace : k.fData.toNat + k.fCur.toNat + i < 2 ^ 64) :
    (appendAddress k.fData k.cursor i).toNat = k.fData.toNat + k.fCur.toNat + i := by
  rw [appendAddress_mod h, Nat.mod_eq_of_lt hspace]

/-- What a string that stands apart from the buffer leaves. -/
theorem rtStringAppend_text (h : k.fCur.toNat < 2 ^ 31)
    (hspace : k.fData.toNat + k.fCur.toNat + n ≤ 2 ^ 64) (x : Nat) :
    rtStringAppend m k.fData (fun _ => bytes) k.cursor n x =
      if k.fData.toNat + k.fCur.toNat ≤ x ∧ x < k.fData.toNat + k.fCur.toNat + n then
        bytes.getD (x - (k.fData.toNat + k.fCur.toNat)) 0
      else m x := by
  induction n with
  | zero => rw [rtStringAppend, if_neg (by omega)]
  | succ n ih =>
    rw [rtStringAppend, appendAddress_toNat h (by omega)]
    by_cases hx : x = k.fData.toNat + k.fCur.toNat + n
    · subst hx
      rw [Function.update_self, if_pos (by omega), Nat.add_sub_cancel_left]
    · rw [Function.update_of_ne hx, ih (by omega)]
      split
      · rw [if_pos (by omega)]
      · rw [if_neg (by omega)]

end Address

/-! ## Runs of appends -/

inductive KStringOp where
  | chars (rhs : AppendSource)
  | string (rhs : AppendSource)
  deriving DecidableEq, Repr

/-- The memory and the string, and beside them the text that was appended so far. -/
structure KStringRun where
  m : Store
  k : KString
  text : List UInt8

namespace KStringOp

def rhs : KStringOp → AppendSource
  | chars rhs => rhs
  | string rhs => rhs

def run (m : Store) (k : KString) : KStringOp → Store × KString
  | chars rhs => k.appendChars m rhs
  | string rhs => k.appendString m rhs

/-- A `KString` whose text is longer than the buffer is not appended. -/
def Refused (m : Store) (k : KString) : KStringOp → Prop
  | chars _ => False
  | string rhs => k.fDataSz.toNat < rtStringLen (rhs.bytes k m)

theorem run_refused {m : Store} {k : KString} {op : KStringOp} (h : op.Refused m k) :
    op.run m k = (m, k) := by
  cases op with
  | chars rhs => exact h.elim
  | string rhs => exact if_pos h

theorem run_appended {m : Store} {k : KString} {op : KStringOp} (h : ¬ op.Refused m k) :
    op.run m k = k.appendChars m op.rhs := by
  cases op with
  | chars rhs => rfl
  | string rhs => exact if_neg h

end KStringOp

namespace KStringRun

variable (s : KStringRun) (op : KStringOp)

/-- The text of the string that is appended. -/
def added : List UInt8 := cstr (op.rhs.bytes s.k s.m)

/-- There is room for the text and the terminator. -/
def Fits : Prop := s.text.length + (s.added op).length ≤ s.k.fDataSz.toNat - 1

instance : Decidable (s.Fits op) := inferInstanceAs (Decidable (_ ≤ _))

def step : KStringRun :=
  let call := op.run s.m s.k
  ⟨call.1, call.2, if s.Fits op then s.text ++ s.added op else s.text⟩

/-- The buffer begins with the text and a terminator. -/
def Holds : Prop := ∀ i ≤ s.text.length, s.m (s.k.fData.toNat + i) = s.text.getD i 0

def InBuffer (a : Nat) : Prop :=
  s.k.fData.toNat ≤ a ∧ a < s.k.fData.toNat + s.k.fDataSz.toNat

/-- The append stores in the buffer and keeps the cursor in it; what fits is appended, and what
does not changes nothing. -/
structure Appends : Prop where
  inside : ¬ op.Refused s.m s.k → ∀ i < rtStringLen (op.rhs.bytes s.k s.m),
    s.InBuffer (appendAddress s.k.fData s.k.cursor i).toNat
  cursor : (s.step op).k.fCur.toNat ≤ s.k.fDataSz.toNat - 1
  content : s.Fits op → (s.step op).Holds
  unchanged : ¬ s.Fits op → (s.step op).m = s.m ∧ (s.step op).k = s.k

/-- The append is refused, or there is room for all that it stores of a string apart from the
buffer, which goes to the end of the text. -/
def Room : Prop :=
  op.Refused s.m s.k ∨ ∃ bytes, op.rhs = .text bytes ∧
    s.k.fCur.toNat + rtStringLen bytes ≤ s.k.fDataSz.toNat - 1 ∧ s.k.fCur.toNat < 2 ^ 31 ∧
    (cstr bytes ≠ [] → s.k.fCur.toNat = s.text.length)

/-- The buffer holds the text, and behind the cursor it is clear. -/
structure Filled : Prop where
  space : InSpace s.k.fData s.k.fDataSz.toNat
  start : s.text.length ≤ s.k.fCur.toNat
  cursor : s.k.fCur.toNat < s.k.fDataSz.toNat
  noZero : 0 ∉ s.text
  holds : s.Holds
  clear : ∀ i, s.k.fCur.toNat ≤ i → i < s.k.fDataSz.toNat → s.m (s.k.fData.toNat + i) = 0

variable {s op}

/-- A refused text is empty or does not fit. -/
private theorem refused_text (hop : op.Refused s.m s.k) (hfits : s.Fits op) : s.added op = [] := by
  by_contra hne
  cases op with
  | chars rhs => exact hop
  | string rhs =>
    have hlen := rtStringLen_eq hne
    simp only [Fits, added, KStringOp.Refused, KStringOp.rhs] at hop hfits hlen
    omega

theorem step_refused (hop : op.Refused s.m s.k) : s.step op = s := by
  rw [step, KStringOp.run_refused hop]
  split
  next hfits => rw [refused_text hop hfits, List.append_nil]
  next => rfl

/-- What is added by a string apart from the buffer. -/
theorem added_text {bytes : List UInt8} (hop : op.rhs = .text bytes) :
    s.added op = cstr bytes := by
  rw [added, hop]
  rfl

section Text

variable {bytes : List UInt8} (hnot : ¬ op.Refused s.m s.k) (hop : op.rhs = .text bytes)
include hnot hop

theorem step_k : (s.step op).k =
    { s.k with fCur := s.k.fCur + UInt64.ofNat (rtStringLen bytes) } := by
  rw [step, KStringOp.run_appended hnot, hop]
  rfl

theorem step_fCur (hspace : s.k.fCur.toNat + rtStringLen bytes < 2 ^ 64) :
    (s.step op).k.fCur.toNat = s.k.fCur.toNat + rtStringLen bytes := by
  rw [step_k hnot hop]
  dsimp only
  rw [UInt64.toNat_add, UInt64.toNat_ofNat']
  omega

theorem step_m (hcur : s.k.fCur.toNat < 2 ^ 31)
    (hspace : s.k.fData.toNat + s.k.fCur.toNat + rtStringLen bytes ≤ 2 ^ 64) (i : Nat) :
    (s.step op).m (s.k.fData.toNat + i) =
      if s.k.fCur.toNat ≤ i ∧ i < s.k.fCur.toNat + rtStringLen bytes then
        bytes.getD (i - s.k.fCur.toNat) 0
      else s.m (s.k.fData.toNat + i) := by
  have hm : (s.step op).m =
      rtStringAppend s.m s.k.fData (fun _ => bytes) s.k.cursor (rtStringLen bytes) := by
    rw [step, KStringOp.run_appended hnot, hop]
    rfl
  rw [hm, rtStringAppend_text hcur hspace]
  by_cases hi : s.k.fCur.toNat ≤ i ∧ i < s.k.fCur.toNat + rtStringLen bytes
  · rw [if_pos hi, if_pos (by omega), Nat.add_sub_add_left]
  · rw [if_neg hi, if_neg (by omega)]

end Text

/-- What an append with room for it leaves. -/
structure Appended (s : KStringRun) (op : KStringOp) (bytes : List UInt8) : Prop where
  fits : s.Fits op
  fData : (s.step op).k.fData = s.k.fData
  fDataSz : (s.step op).k.fDataSz = s.k.fDataSz
  fCur : (s.step op).k.fCur.toNat = s.k.fCur.toNat + rtStringLen bytes
  holds : (s.step op).Holds
  clear : ∀ i, s.k.fCur.toNat + rtStringLen bytes ≤ i → i < s.k.fDataSz.toNat →
    (s.step op).m (s.k.fData.toNat + i) = 0

theorem step_size : (s.step op).k.fDataSz = s.k.fDataSz := by
  by_cases hnot : op.Refused s.m s.k
  · rw [step_refused hnot]
  · rw [step, KStringOp.run_appended hnot]
    rfl

theorem step_text (hfits : s.Fits op) : (s.step op).text = s.text ++ s.added op := if_pos hfits

/-- The bytes of a text that is appended at the end of the text before it. -/
private theorem holds_of_append {s : KStringRun} {bytes : List UInt8}
    (hholds : s.Holds) (hclear : s.m (s.k.fData.toNat + (s.text.length + (cstr bytes).length)) = 0)
    {i : Nat} (hi : i ≤ s.text.length + (cstr bytes).length) :
    (if s.text.length ≤ i ∧ i < s.text.length + (cstr bytes).length then
      bytes.getD (i - s.text.length) 0 else s.m (s.k.fData.toNat + i)) =
      (s.text ++ cstr bytes).getD i 0 := by
  by_cases hlow : i < s.text.length
  · rw [if_neg (by omega), hholds i hlow.le, List.getD_append _ _ _ _ hlow]
  · rw [List.getD_append_right _ _ _ _ (by omega)]
    by_cases hin : i < s.text.length + (cstr bytes).length
    · rw [if_pos ⟨by omega, hin⟩, cstr_getD (by omega)]
    · obtain rfl : i = s.text.length + (cstr bytes).length := by omega
      rw [if_neg (by omega), hclear, List.getD_eq_default _ _ (by omega)]

theorem Filled.appended (h : s.Filled) {bytes : List UInt8} (hnot : ¬ op.Refused s.m s.k)
    (hop : op.rhs = .text bytes)
    (hlen : s.k.fCur.toNat + rtStringLen bytes ≤ s.k.fDataSz.toNat - 1)
    (hcur : s.k.fCur.toNat < 2 ^ 31) (hend : cstr bytes ≠ [] → s.k.fCur.toNat = s.text.length) :
    Appended s op bytes := by
  have hadded := added_text hop (s := s)
  have hspace := h.space
  unfold InSpace at hspace
  have hsize := s.k.fDataSz.toNat_lt
  have hpos := rtStringLen_pos bytes
  have hstart := h.start
  have hk := step_k hnot hop
  have hfData : (s.step op).k.fData = s.k.fData := by rw [hk]
  have hm := step_m hnot hop hcur (by omega)
  have hfits : s.Fits op := by
    rw [Fits, hadded]
    by_cases hne : cstr bytes = []
    · rw [hne, List.length_nil]
      omega
    · have hend' := hend hne
      rw [rtStringLen_eq hne] at hlen
      omega
  refine ⟨hfits, hfData, by rw [hk], ?_, ?_, ?_⟩
  · exact step_fCur hnot hop (by omega)
  · intro i hi
    rw [step_text hfits, hadded] at hi ⊢
    rw [hfData, hm]
    by_cases hne : cstr bytes = []
    · -- an empty string stores a terminator first
      rw [hne, List.append_nil] at hi ⊢
      rw [← h.holds i hi]
      split
      next hin =>
        obtain rfl : i = s.k.fCur.toNat := by omega
        rw [Nat.sub_self, cstr_eq_nil_iff.mp hne]
        exact (h.clear _ (Nat.le_refl _) h.cursor).symm
      next => rfl
    · have hend' := hend hne
      have hcursor := h.cursor
      rw [List.length_append] at hi
      rw [hend', rtStringLen_eq hne] at hlen ⊢
      exact holds_of_append h.holds (h.clear _ (by omega) (by omega)) hi
  · intro i hi hlt
    rw [hm, if_neg (by omega)]
    exact h.clear i (by omega) hlt

theorem Filled.step (h : s.Filled) (hroom : s.Room op) : (s.step op).Filled := by
  by_cases hnot : op.Refused s.m s.k
  · rwa [step_refused hnot]
  obtain ⟨bytes, hop, hlen, hcur, hend⟩ := hroom.resolve_left hnot
  have happ := h.appended hnot hop hlen hcur hend
  have hcursor := h.cursor
  have hstart := h.start
  constructor
  · rw [happ.fData, happ.fDataSz]
    exact h.space
  · rw [step_text happ.fits, happ.fCur, List.length_append, added_text hop]
    by_cases hne : cstr bytes = []
    · rw [hne, List.length_nil]
      omega
    · rw [rtStringLen_eq hne]
      omega
  · rw [happ.fCur, happ.fDataSz]
    omega
  · rw [step_text happ.fits, List.mem_append]
    exact not_or.mpr ⟨h.noZero, fun hmem => ne_zero_of_mem_cstr hmem rfl⟩
  · exact happ.holds
  · rw [happ.fCur, happ.fDataSz, happ.fData]
    exact happ.clear

theorem Filled.appends (h : s.Filled) (hroom : s.Room op) : s.Appends op := by
  by_cases hnot : op.Refused s.m s.k
  · have hcursor := h.cursor
    have hsame := step_refused hnot
    refine ⟨fun hn => absurd hnot hn, ?_, ?_, ?_⟩
    · rw [hsame]
      omega
    · intro _
      rw [hsame]
      exact h.holds
    · intro _
      rw [hsame]
      exact ⟨rfl, rfl⟩
  obtain ⟨bytes, hop, hlen, hcur, hend⟩ := hroom.resolve_left hnot
  have happ := h.appended hnot hop hlen hcur hend
  have hspace := h.space
  unfold InSpace at hspace
  have hbytes : op.rhs.bytes s.k s.m = bytes := by rw [hop]; rfl
  constructor
  · intro _ i hi
    rw [hbytes] at hi
    rw [appendAddress_toNat hcur (by omega)]
    exact ⟨by omega, by omega⟩
  · rw [happ.fCur]
    exact hlen
  · exact fun _ => happ.holds
  · exact fun hfit => absurd happ.fits hfit

/-- The room is also needed, for strings apart from a buffer that the cursor can go through. -/
theorem Filled.room (h : s.Filled) (hsize : s.k.fDataSz.toNat ≤ 2 ^ 31) {bytes : List UInt8}
    (hop : op.rhs = .text bytes) (happ : s.Appends op) : s.Room op := by
  by_cases hnot : op.Refused s.m s.k
  · exact Or.inl hnot
  refine Or.inr ⟨bytes, hop, ?_⟩
  have hspace := h.space
  unfold InSpace at hspace
  have hcursor := h.cursor
  have hstart := h.start
  have hcur : s.k.fCur.toNat < 2 ^ 31 := by omega
  have hbytes : op.rhs.bytes s.k s.m = bytes := by rw [hop]; rfl
  have hadded := added_text hop (s := s)
  have hpos := rtStringLen_pos bytes
  have hk := step_k hnot hop
  have hinside : s.k.fCur.toNat + rtStringLen bytes ≤ s.k.fDataSz.toNat := by
    by_contra hover
    obtain ⟨hlow, hhigh⟩ := happ.inside hnot (s.k.fDataSz.toNat - s.k.fCur.toNat)
      (by rw [hbytes]; omega)
    rw [appendAddress_mod hcur] at hlow hhigh
    omega
  have hfCur := step_fCur hnot hop (by omega)
  have hlen := happ.cursor
  rw [hfCur] at hlen
  refine ⟨hlen, hcur, ?_⟩
  intro hne
  by_contra hlate
  by_cases hfits : s.Fits op
  · have hterm := happ.content hfits s.text.length
      (by rw [step_text hfits, List.length_append]; omega)
    rw [hk] at hterm
    rw [step_m hnot hop hcur (by omega), if_neg (by omega), h.holds _ (Nat.le_refl _),
      step_text hfits, List.getD_append_right _ _ _ _ (Nat.le_refl _), Nat.sub_self, hadded,
      List.getD_eq_default _ _ (Nat.le_refl _)] at hterm
    have hfirst := List.length_pos_iff.mpr hne
    rw [List.getD_eq_getElem _ _ hfirst] at hterm
    exact ne_zero_of_mem_cstr (List.getElem_mem hfirst) hterm.symm
  · rw [(happ.unchanged hfits).2] at hfCur
    omega

/-- A string that has just been constructed. -/
def start (m : Store) (fData sz : UInt64) : KStringRun :=
  ⟨(KString.construct m fData sz).1, (KString.construct m fData sz).2, []⟩

theorem start_filled (m : Store) {fData sz : UInt64} (hp : fData ≠ 0) (hsz : 1 < sz)
    (hspace : InSpace fData sz.toNat) : (start m fData sz).Filled := by
  have hlt : 1 < sz.toNat := UInt64.lt_iff_toNat_lt.mp hsz
  have hne : ¬ (fData = 0 ∨ sz < 1) := by
    rw [UInt64.lt_iff_toNat_lt, UInt64.toNat_one]
    exact not_or.mpr ⟨hp, by omega⟩
  have hm : (start m fData sz).m = setWords m fData 0 sz.toNat := by
    rw [start, KString.construct, rtSetMemory, if_neg hne]
  have hzero : ∀ i < sz.toNat, (start m fData sz).m (fData.toNat + i) = 0 := by
    intro i hi
    rw [hm]
    exact setWords_zero hspace ⟨by omega, by omega⟩
  refine ⟨hspace, Nat.le_refl _, ?_, List.not_mem_nil, ?_, fun i _ hi => hzero i hi⟩
  · exact Nat.lt_trans Nat.one_pos hlt
  · intro i hi
    obtain rfl : i = 0 := Nat.le_zero.mp hi
    exact hzero 0 (by omega)

end KStringRun

/-- The words that the constructor clears are not all in the buffer, whatever its size is. -/
theorem construct_overruns {fData sz : UInt64} (hp : fData ≠ 0) (hsz : 1 < sz)
    (hspace : InSpace fData sz.toNat) :
    ¬ ∀ e ∈ wordExtents fData sz.toNat, e.Inside ⟨fData.toNat, sz.toNat⟩ := by
  intro h
  have hlt : 1 < sz.toNat := UInt64.lt_iff_toNat_lt.mp hsz
  have hnull : 0 < fData.toNat := Nat.pos_of_ne_zero fun h0 => hp (UInt64.toNat_inj.mp h0)
  unfold InSpace at hspace
  -- the word that reaches, or begins at, the end of the buffer
  have hin := h _ (List.mem_map.mpr ⟨sz.toNat / 4, List.mem_range.mpr (by omega), rfl⟩)
  rw [Extent.inside_iff (Nat.zero_lt_succ 3)] at hin
  have h4 : (4 : UInt64).toNat = 4 := rfl
  simp only [UInt64.toNat_add, UInt64.toNat_mul, UInt64.toNat_ofNat', h4] at hin
  omega

/-- `StringBuilder::Construct` for a text, in the buffer that is allocated for it: there is no room
for the terminator. -/
def StringBuilder.construct (m : Store) (fData : UInt64) (data : List UInt8) :
    Option (Store × KString) :=
  if data.getD 0 0 = 0 then none
  else
    let made := KString.construct m fData (UInt64.ofNat (rtStringLen data))
    some (made.2.appendChars made.1 (.text data))

/-- The appended string stands apart from the buffer. -/
def KStringOp.Apart (op : KStringOp) : Prop := ∃ bytes, op.rhs = .text bytes

/-- The constructor never stays in its buffer.  The appends do in every run in which each of them
is refused or has room; these are all the runs that do, for strings apart from a buffer whose end
the cursor can reach. -/
theorem appends_iff (m : Store) {fData sz : UInt64} (hp : fData ≠ 0) (hsz : 1 < sz)
    (hspace : InSpace fData sz.toNat) (ops : List KStringOp) :
    (¬ ∀ e ∈ wordExtents fData sz.toNat, e.Inside ⟨fData.toNat, sz.toNat⟩) ∧
    (Along KStringRun.step KStringRun.Room (.start m fData sz) ops →
      Along KStringRun.step KStringRun.Appends (.start m fData sz) ops) ∧
    (sz.toNat ≤ 2 ^ 31 →
      (Along KStringRun.step (fun s op => op.Apart ∧ s.Appends op) (.start m fData sz) ops ↔
        Along KStringRun.step (fun s op => op.Apart ∧ s.Room op) (.start m fData sz) ops)) := by
  have hstart := KStringRun.start_filled m hp hsz hspace
  refine ⟨construct_overruns hp hsz hspace, ?_, ?_⟩
  · exact along_of_invariant (fun _ _ h hroom => h.appends hroom) (fun _ _ h hroom => h.step hroom)
      hstart
  · intro hsize
    apply @along_iff_of_invariant _ _ _ _ _
      (fun s : KStringRun => s.Filled ∧ s.k.fDataSz.toNat ≤ 2 ^ 31)
    · intro s op hinv
      obtain ⟨h, hle⟩ := hinv
      apply and_congr_right
      intro hapart
      obtain ⟨bytes, hop⟩ := hapart
      exact ⟨h.room hle hop, h.appends⟩
    · intro s op hinv hroom
      obtain ⟨h, hle⟩ := hinv
      refine ⟨h.step hroom.2, ?_⟩
      rwa [KStringRun.step_size]
    · exact ⟨hstart, hsize⟩

theorem appends_two : Along KStringRun.step KStringRun.Appends (.start (fun _ => 0) 0x1000 16)
    [.chars (.text [97, 98, 0]), .string (.text [99, 0])] := by
  apply (appends_iff _ (by decide) (by decide) (by decide) _).2.1
  refine ⟨Or.inr ⟨_, rfl, by decide, by decide, fun _ => rfl⟩, ?_, trivial⟩
  exact Or.inr ⟨_, rfl, by decide, by decide, fun _ => rfl⟩

namespace StringBuilder

variable {m : Store} {fData : UInt64} {data : List UInt8}

theorem construct_eq (h : data.getD 0 0 ≠ 0) :
    construct m fData data =
      let s := (KStringRun.start m fData (UInt64.ofNat (rtStringLen data))).step
        (.chars (.text data))
      some (s.m, s.k) := by
  rw [construct, if_neg h]
  rfl

/-- The text of two bytes or more that a string is constructed for does not fit into it. -/
theorem construct_no_room (hp : fData ≠ 0) (hspace : InSpace fData (rtStringLen data))
    (hlow : 2 ≤ rtStringLen data) (hhigh : rtStringLen data ≤ 2 ^ 31) :
    ¬ (KStringRun.start m fData (UInt64.ofNat (rtStringLen data))).Appends
      (.chars (.text data)) := by
  intro happ
  have hsz : (UInt64.ofNat (rtStringLen data)).toNat = rtStringLen data :=
    UInt64.toNat_ofNat_of_lt' (by rw [UInt64.size]; omega)
  have hstart := @KStringRun.start_filled m fData (UInt64.ofNat (rtStringLen data)) hp
    (by rw [UInt64.lt_iff_toNat_lt, hsz]; exact hlow) (by rwa [hsz])
  rcases hstart.room (hsz.trans_le hhigh) rfl happ with hrefused | ⟨bytes, hop, hlen, _⟩
  · exact hrefused
  · cases hop
    have hroom : 0 + rtStringLen data ≤ (UInt64.ofNat (rtStringLen data)).toNat - 1 := hlen
    omega

end StringBuilder

theorem appends_constructed : ¬ Along KStringRun.step KStringRun.Appends
    (.start (fun _ => 0) 0x1000 2) [.chars (.text [97, 98, 0])] := by
  intro h
  exact @StringBuilder.construct_no_room _ 0x1000 [97, 98, 0] (by decide) (by decide) (by decide)
    (by decide) h.1

end Zka.NewKit
