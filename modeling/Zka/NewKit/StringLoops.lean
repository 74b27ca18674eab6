import Zka.Framework.Outcome
import Zka.NewKit.Text

/-!
# The loops of the string functions

`rt_string_len` and `StringBuilder::Equals` as loops over two pointers, with the indices that they
read.
-/

namespace Zka.NewKit

open Outcome

/-- The characters from a pointer on, up to the first terminator and behind it. -/
structure Terminated (α : Type) [Zero α] where
  char : Nat → α
  len : Nat
  ends : char len = 0
  before : ∀ i < len, char i ≠ 0

namespace Terminated

variable {α : Type} [Zero α]

def text (s : Terminated α) : List α := (List.range s.len).map s.char

theorem text_eq_iff (s t : Terminated α) :
    s.text = t.text ↔ s.len = t.len ∧ ∀ i < s.len, s.char i = t.char i := by
  constructor
  · intro h
    have hlen : s.len = t.len := by simpa [text] using congrArg List.length h
    refine ⟨hlen, ?_⟩
    intro i hi
    have hget := congrArg (fun l => l[i]?) h
    simpa [text, List.getElem?_range, hi, hlen ▸ hi] using hget
  · intro h
    obtain ⟨hlen, hchar⟩ := h
    rw [text, text, ← hlen]
    apply List.map_congr_left
    intro i hi
    exact hchar i (List.mem_range.mp hi)

end Terminated

section Loops

variable {α : Type} [Zero α] [DecidableEq α]

/-- The counter goes up before the character is looked at.  The loop keeps the counter and the
indices that were read. -/
def stringLenBody (ptr : Nat → α) (s : Nat × List Nat) :
    Outcome CFault ((Nat × List Nat) ⊕ (Nat × List Nat)) :=
  let next := (s.1 + 1, s.2 ++ [s.1 + 1])
  if ptr (s.1 + 1) ≠ 0 then .done (.inl next) else .done (.inr next)

/-- `rt_string_len`: the length, and the indices that were read. -/
def stringLenLoop (ptr : Nat → α) (fuel : Nat) : Outcome CFault (Nat × List Nat) :=
  whileLoop (stringLenBody ptr) fuel (0, [])

def stringLenMaxBody (str : Nat → α) (n : Nat) (s : Nat × List Nat) :
    Outcome CFault ((Nat × List Nat) ⊕ (Nat × List Nat)) :=
  if n < s.1 then .done (.inr (n, s.2)) else stringLenBody str s

/-- `rt_string_len` with a limit. -/
def stringLenMaxLoop (str : Nat → α) (n fuel : Nat) : Outcome CFault (Nat × List Nat) :=
  whileLoop (stringLenMaxBody str n) fuel (0, [])

/-- What a comparison answers, and the indices that it reads of either string. -/
structure Compared where
  equal : Bool
  lhs : List Nat
  rhs : List Nat

def equalsBody (lhs rhs : Nat → α) (len : Nat) (index : Nat) :
    Outcome CFault (Nat ⊕ (Bool × Nat)) :=
  if index < len then
    if rhs index ≠ lhs index then .done (.inr (false, index + 1)) else .done (.inl (index + 1))
  else .done (.inr (true, index))

/-- `StringBuilder::Equals`.  Every round measures `rhs` again, with the reads of the first time. -/
def equalsLoop (lhs rhs : Nat → α) (fuel : Nat) : Outcome CFault Compared :=
  stringLenLoop rhs fuel >>= fun r => stringLenLoop lhs fuel >>= fun l =>
    if r.1 ≠ l.1 then .done ⟨false, l.2, r.2⟩
    else whileLoop (equalsBody lhs rhs r.1) fuel 0 >>= fun c =>
      .done ⟨c.1, l.2 ++ List.range c.2, r.2 ++ List.range c.2⟩

def equalsWideBody (lhs rhs : Nat → α) (index : Nat) : Outcome CFault (Nat ⊕ Compared) :=
  if rhs index ≠ 0 then
    if rhs index ≠ lhs index then
      .done (.inr ⟨false, List.range (index + 1), List.range (index + 1)⟩)
    else .done (.inl (index + 1))
  else .done (.inr ⟨true, List.range index, List.range (index + 1)⟩)

/-- `StringBuilder::Equals` for wide characters, which only looks for the end of `rhs`. -/
def equalsWideLoop (lhs rhs : Nat → α) (fuel : Nat) : Outcome CFault Compared :=
  whileLoop (equalsWideBody lhs rhs) fuel 0

/-! ## What the loops return -/

theorem stringLenLoop_mono (ptr : Nat → α) : Monotone (stringLenLoop ptr) := whileLoop_mono _ _

theorem stringLenLoop_iff (ptr : Nat → α) (r : Nat × List Nat) :
    Yields (stringLenLoop ptr) r ↔
      ∃ k, (∀ j < k, ptr (j + 1) ≠ 0) ∧ ptr (k + 1) = 0 ∧ r = (k + 1, List.range' 1 (k + 1)) := by
  have hloop := @yields_whileLoop_along_iff CFault _ _ (stringLenBody ptr)
    (fun k => (k, List.range' 1 k)) (fun k => ptr (k + 1) ≠ 0)
    (fun k => (k + 1, List.range' 1 (k + 1))) r ?_ ?_
  · simp only [not_not] at hloop
    exact hloop
  · intro k hk
    rw [stringLenBody, if_pos hk, List.range'_1_concat, Nat.add_comm 1 k]
  · intro k hk
    rw [stringLenBody, if_neg hk, List.range'_1_concat, Nat.add_comm 1 k]

theorem stringLenMaxLoop_iff (str : Nat → α) (n : Nat) (r : Nat × List Nat) :
    Yields (stringLenMaxLoop str n) r ↔
      ∃ k, (∀ j < k, j ≤ n ∧ str (j + 1) ≠ 0) ∧ ¬ (k ≤ n ∧ str (k + 1) ≠ 0) ∧
        r = if n < k then (n, List.range' 1 k) else (k + 1, List.range' 1 (k + 1)) := by
  have hloop := @yields_whileLoop_along_iff CFault _ _ (stringLenMaxBody str n)
    (fun k => (k, List.range' 1 k)) (fun k => k ≤ n ∧ str (k + 1) ≠ 0)
    (fun k => if n < k then (n, List.range' 1 k) else (k + 1, List.range' 1 (k + 1))) r ?_ ?_
  · exact hloop
  · intro k hk
    rw [stringLenMaxBody, if_neg (Nat.not_lt.mpr hk.1), stringLenBody, if_pos hk.2,
      List.range'_1_concat, Nat.add_comm 1 k]
  · intro k hk
    rw [stringLenMaxBody]
    by_cases hn : n < k
    · rw [if_pos hn, if_pos hn]
    · have hend : ¬ str (k + 1) ≠ 0 := fun h => hk ⟨Nat.not_lt.mp hn, h⟩
      rw [if_neg hn, if_neg hn, stringLenBody, if_neg hend, List.range'_1_concat, Nat.add_comm 1 k]

/-! ## The length -/

variable (s : Terminated α)

/-- The length is the index of the first terminator, and nothing behind it is read. -/
def MeasuresRight : Prop :=
  ∃ reads, Yields (stringLenLoop s.char) (s.len, reads) ∧ ∀ i ∈ reads, i ≤ s.len

/-- With a limit, the length is the smaller of the two, and nothing behind either is read. -/
def MeasuresMaxRight (n : Nat) : Prop :=
  ∃ reads, Yields (stringLenMaxLoop s.char n) (min s.len n, reads) ∧
    ∀ i ∈ reads, i ≤ s.len ∧ i ≤ n

variable {s}

theorem le_of_mem_range {n len : Nat} (h : n ≤ len + 1) : ∀ i ∈ List.range n, i ≤ len := by
  intro i hi
  rw [List.mem_range] at hi
  omega

theorem le_of_mem_range' {i n : Nat} (h : i ∈ List.range' 1 n) : i ≤ n := by
  rw [List.mem_range'_1] at h
  omega

/-- Index 1 is read whatever stands at index 0. -/
theorem one_mem_of_stringLen {ptr : Nat → α} {r : Nat × List Nat}
    (h : Yields (stringLenLoop ptr) r) : 1 ∈ r.2 := by
  obtain ⟨k, _, _, rfl⟩ := (stringLenLoop_iff ptr r).mp h
  exact List.mem_range'_1.mpr ⟨Nat.le_refl 1, by omega⟩

theorem stringLenLoop_eq (h : s.len ≠ 0) {fuel : Nat} (hfuel : s.len ≤ fuel) :
    stringLenLoop s.char fuel = .done (s.len, List.range' 1 s.len) := by
  obtain ⟨n, hn⟩ := Nat.exists_eq_add_one_of_ne_zero h
  have hend : ¬ s.char (n + 1) ≠ 0 := by rw [← hn, not_not, s.ends]
  rw [hn]
  apply @whileLoop_walk CFault _ _ (stringLenBody s.char) (fun k => (k, List.range' 1 k)) 0 n
    (n + 1, List.range' 1 (n + 1)) (Nat.zero_le n)
  · intro k _ hk
    rw [stringLenBody, if_pos (s.before (k + 1) (by omega)), List.range'_1_concat, Nat.add_comm 1 k]
  · rw [stringLenBody, if_neg hend, List.range'_1_concat, Nat.add_comm 1 n]
  · omega

theorem measuresRight_iff (s : Terminated α) : MeasuresRight s ↔ s.len ≠ 0 := by
  constructor
  · intro h hzero
    obtain ⟨reads, hyields, hreads⟩ := h
    have hone := hreads 1 (one_mem_of_stringLen hyields)
    omega
  · intro h
    refine ⟨_, .intro s.len (stringLenLoop_eq h (Nat.le_refl _)), ?_⟩
    exact fun i hi => le_of_mem_range' hi

theorem measuresMaxRight_iff (s : Terminated α) (n : Nat) :
    MeasuresMaxRight s n ↔ s.len ≠ 0 ∧ s.len ≤ n := by
  constructor
  · intro h
    obtain ⟨reads, hyields, hreads⟩ := h
    obtain ⟨k, _, hstop, hr⟩ := (stringLenMaxLoop_iff s.char n _).mp hyields
    split at hr
    next hover =>
      -- the index behind the limit has been read
      obtain ⟨_, rfl⟩ := Prod.mk.inj hr
      have hlast := (hreads (n + 1) (List.mem_range'_1.mpr ⟨by omega, by omega⟩)).2
      omega
    next hin =>
      obtain ⟨hmin, rfl⟩ := Prod.mk.inj hr
      have hlast := hreads (k + 1) (List.mem_range'_1.mpr ⟨by omega, by omega⟩)
      have hlen : ¬ k + 1 < s.len := by
        intro hlt
        exact hstop ⟨Nat.not_lt.mp hin, s.before (k + 1) hlt⟩
      omega
  · intro h
    obtain ⟨hne, hle⟩ := h
    obtain ⟨k, hk⟩ := Nat.exists_eq_add_one_of_ne_zero hne
    refine ⟨List.range' 1 s.len, (stringLenMaxLoop_iff s.char n _).mpr ⟨k, ?_, ?_, ?_⟩, ?_⟩
    · intro j hj
      exact ⟨by omega, s.before (j + 1) (by omega)⟩
    · intro h
      apply h.2
      rw [← hk]
      exact s.ends
    · rw [if_neg (by omega), Nat.min_eq_left hle, hk]
    · intro i hi
      have hlen := le_of_mem_range' hi
      exact ⟨hlen, hlen.trans hle⟩

/-! ## Comparisons -/

/-- A comparison answers whether the texts are equal, and reads neither string behind its
terminator. -/
def ComparesRight (compare : Nat → Outcome CFault Compared) (lhs rhs : Terminated α) : Prop :=
  ∃ c, Yields compare c ∧ (c.equal = true ↔ lhs.text = rhs.text) ∧
    (∀ i ∈ c.lhs, i ≤ lhs.len) ∧ ∀ i ∈ c.rhs, i ≤ rhs.len

omit [Zero α] in
/-- The first `len` characters are compared, and no index from `len` on is read. -/
theorem equalsBody_returns (lhs rhs : Nat → α) (len : Nat) :
    ∃ equal count, (∀ fuel, len < fuel →
      whileLoop (equalsBody lhs rhs len) fuel 0 = .done (equal, count)) ∧ count ≤ len ∧
      (equal = true ↔ ∀ i < len, lhs i = rhs i) := by
  by_cases h : ∃ k, k < len ∧ rhs k ≠ lhs k
  · classical
    obtain ⟨hk, hne⟩ := Nat.find_spec h
    refine ⟨false, Nat.find h + 1, ?_, hk, ?_⟩
    · intro fuel hfuel
      apply @whileLoop_walk CFault _ _ (equalsBody lhs rhs len) (fun k => k) 0 (Nat.find h)
      · exact Nat.zero_le _
      · intro j _ hj
        have hsame : ¬ rhs j ≠ lhs j := fun hne => Nat.find_min h hj ⟨hj.trans hk, hne⟩
        rw [equalsBody, if_pos (hj.trans hk), if_neg hsame]
      · rw [equalsBody, if_pos hk, if_pos hne]
      · omega
    · exact iff_of_false Bool.false_ne_true fun hall => hne (hall _ hk).symm
  · have hall : ∀ i < len, lhs i = rhs i := by
      intro i hi
      by_contra hne
      exact h ⟨i, hi, Ne.symm hne⟩
    refine ⟨true, len, ?_, Nat.le_refl _, iff_of_true rfl hall⟩
    intro fuel hfuel
    apply @whileLoop_walk CFault _ _ (equalsBody lhs rhs len) (fun k => k) 0 len
    · exact Nat.zero_le _
    · intro j _ hj
      rw [equalsBody, if_pos hj, if_neg (not_not_intro (hall j hj).symm)]
    · rw [equalsBody, if_neg (Nat.lt_irrefl len)]
    · omega

/-- The indices that are read of a string that is measured and then compared. -/
private theorem le_of_measured {len count : Nat} (h : count ≤ len) :
    ∀ i ∈ List.range' 1 len ++ List.range count, i ≤ len := by
  intro i hi
  rcases List.mem_append.mp hi with hi | hi
  · exact le_of_mem_range' hi
  · exact le_of_mem_range (h.trans (Nat.le_succ len)) i hi

/-- Index 1 of both strings is read. -/
theorem one_mem_of_equals {lhs rhs : Nat → α} {c : Compared} (h : Yields (equalsLoop lhs rhs) c) :
    1 ∈ c.lhs ∧ 1 ∈ c.rhs := by
  obtain ⟨fuel, hdone⟩ := h
  obtain ⟨r, hr, hdone⟩ := bind_eq_done.mp hdone
  obtain ⟨l, hl, hdone⟩ := bind_eq_done.mp hdone
  have hone := one_mem_of_stringLen (.intro fuel hl)
  have hone' := one_mem_of_stringLen (.intro fuel hr)
  split at hdone
  · cases hdone
    exact ⟨hone, hone'⟩
  · obtain ⟨a, _, hret⟩ := bind_eq_done.mp hdone
    cases hret
    exact ⟨List.mem_append_left _ hone, List.mem_append_left _ hone'⟩

theorem equalsRight_iff (lhs rhs : Terminated α) :
    ComparesRight (equalsLoop lhs.char rhs.char) lhs rhs ↔ lhs.len ≠ 0 ∧ rhs.len ≠ 0 := by
  constructor
  · intro h
    obtain ⟨c, hyields, _, hl, hr⟩ := h
    obtain ⟨hone, hone'⟩ := one_mem_of_equals hyields
    have hlen := hl 1 hone
    have hlen' := hr 1 hone'
    omega
  · intro h
    obtain ⟨hl, hr⟩ := h
    have hmeasure := stringLenLoop_eq hl (show lhs.len ≤ lhs.len + rhs.len + 1 by omega)
    have hmeasure' := stringLenLoop_eq hr (show rhs.len ≤ lhs.len + rhs.len + 1 by omega)
    by_cases hlen : rhs.len ≠ lhs.len
    · refine ⟨⟨false, List.range' 1 lhs.len, List.range' 1 rhs.len⟩,
        .intro (lhs.len + rhs.len + 1) ?_, ?_, fun i hi => le_of_mem_range' hi,
        fun i hi => le_of_mem_range' hi⟩
      · rw [equalsLoop, hmeasure', done_bind, hmeasure, done_bind, if_pos hlen]
      · apply iff_of_false Bool.false_ne_true
        intro htext
        exact hlen ((lhs.text_eq_iff rhs).mp htext).1.symm
    · obtain ⟨equal, count, hloop, hcount, hequal⟩ :=
        equalsBody_returns lhs.char rhs.char rhs.len
      rw [not_not] at hlen
      refine ⟨⟨equal, List.range' 1 lhs.len ++ List.range count,
        List.range' 1 rhs.len ++ List.range count⟩, .intro (lhs.len + rhs.len + 1) ?_, ?_,
        le_of_measured (hlen ▸ hcount), le_of_measured hcount⟩
      · rw [equalsLoop, hmeasure', done_bind, hmeasure, done_bind, if_neg (not_not_intro hlen),
          hloop _ (by omega), done_bind]
      · rw [lhs.text_eq_iff rhs, hequal, hlen]
        simp

omit [DecidableEq α] in
/-- Characters that agree up to the end of one string do not lie behind the end of the other. -/
theorem Terminated.le_len (lhs rhs : Terminated α) {k : Nat} (hk : k ≤ rhs.len)
    (h : ∀ i < k, lhs.char i = rhs.char i) : k ≤ lhs.len := by
  by_contra hlt
  have hend := h lhs.len (by omega)
  rw [lhs.ends] at hend
  exact rhs.before lhs.len (by omega) hend.symm

theorem equalsWideLoop_prefix (lhs rhs : Terminated α)
    (h : ∀ i < rhs.len, lhs.char i = rhs.char i) :
    Yields (equalsWideLoop lhs.char rhs.char)
      ⟨true, List.range rhs.len, List.range (rhs.len + 1)⟩ := by
  refine .intro (rhs.len + 1) ?_
  apply @whileLoop_walk CFault _ _ (equalsWideBody lhs.char rhs.char) (fun k => k) 0 rhs.len
  · exact Nat.zero_le _
  · intro j _ hj
    rw [equalsWideBody, if_pos (rhs.before j hj), if_neg (not_not_intro (h j hj).symm)]
  · rw [equalsWideBody, if_neg (not_not_intro rhs.ends)]
  · omega

theorem equalsWideLoop_differ (lhs rhs : Terminated α) {k : Nat} (hk : k < rhs.len)
    (hne : rhs.char k ≠ lhs.char k) (h : ∀ i < k, lhs.char i = rhs.char i) :
    Yields (equalsWideLoop lhs.char rhs.char)
      ⟨false, List.range (k + 1), List.range (k + 1)⟩ := by
  refine .intro (k + 1) ?_
  apply @whileLoop_walk CFault _ _ (equalsWideBody lhs.char rhs.char) (fun k => k) 0 k
  · exact Nat.zero_le _
  · intro j _ hj
    rw [equalsWideBody, if_pos (rhs.before j (hj.trans hk)), if_neg (not_not_intro (h j hj).symm)]
  · rw [equalsWideBody, if_pos (rhs.before k hk), if_pos hne]
  · omega

/-- The wide comparison is right unless `rhs` is the beginning of a longer `lhs`. -/
theorem equalsWideRight_iff (lhs rhs : Terminated α) :
    ComparesRight (equalsWideLoop lhs.char rhs.char) lhs rhs ↔
      ¬ (rhs.len < lhs.len ∧ ∀ i < rhs.len, lhs.char i = rhs.char i) := by
  by_cases h : ∀ i < rhs.len, lhs.char i = rhs.char i
  · have hyields := equalsWideLoop_prefix lhs rhs h
    have hle := lhs.le_len rhs (Nat.le_refl _) h
    constructor
    · intro hright
      obtain ⟨c, hc, hequal, _⟩ := hright
      obtain rfl := hc.unique (whileLoop_mono _ _) hyields
      have hlen := ((lhs.text_eq_iff rhs).mp (hequal.mp rfl)).1
      omega
    · intro hnot
      have hlen : lhs.len = rhs.len := by
        by_contra hne
        exact hnot ⟨by omega, h⟩
      exact ⟨_, hyields, iff_of_true rfl ((lhs.text_eq_iff rhs).mpr ⟨hlen, hlen ▸ h⟩),
        le_of_mem_range (by omega), le_of_mem_range (Nat.le_refl _)⟩
  · apply iff_of_true _ fun hprefix => h hprefix.2
    classical
    have hdiffer : ∃ k, k < rhs.len ∧ rhs.char k ≠ lhs.char k := by
      simp only [not_forall] at h
      obtain ⟨k, hk, hne⟩ := h
      exact ⟨k, hk, Ne.symm hne⟩
    obtain ⟨hk, hne⟩ := Nat.find_spec hdiffer
    have hsame : ∀ i < Nat.find hdiffer, lhs.char i = rhs.char i := by
      intro i hi
      by_contra hne
      exact Nat.find_min hdiffer hi ⟨hi.trans hk, Ne.symm hne⟩
    have hle := lhs.le_len rhs hk.le hsame
    refine ⟨_, equalsWideLoop_differ lhs rhs hk hne hsame, iff_of_false Bool.false_ne_true ?_,
      le_of_mem_range (Nat.succ_le_succ hle), le_of_mem_range (by omega)⟩
    intro htext
    obtain ⟨hlen, hall⟩ := (lhs.text_eq_iff rhs).mp htext
    exact hne (hall (Nat.find hdiffer) (by omega)).symm

end Loops

/-- The four functions: a length is right for a string that is not empty, with a limit if the limit
does not cut it; strings are compared right if neither is empty, and wide ones if the second is not
the beginning of the first. -/
theorem stringFunctions_right_iff (s lhs rhs : Terminated UInt8) (n : Nat)
    (wideLhs wideRhs : Terminated UInt16) :
    (MeasuresRight s ↔ s.len ≠ 0) ∧
    (MeasuresMaxRight s n ↔ s.len ≠ 0 ∧ s.len ≤ n) ∧
    (ComparesRight (equalsLoop lhs.char rhs.char) lhs rhs ↔ lhs.len ≠ 0 ∧ rhs.len ≠ 0) ∧
    (ComparesRight (equalsWideLoop wideLhs.char wideRhs.char) wideLhs wideRhs ↔
      ¬ (wideRhs.len < wideLhs.len ∧ ∀ i < wideRhs.len, wideLhs.char i = wideRhs.char i)) :=
  ⟨measuresRight_iff s, measuresMaxRight_iff s n, equalsRight_iff lhs rhs,
    equalsWideRight_iff wideLhs wideRhs⟩

/-- An empty string, and one of a single character, in memory that is clear behind it. -/
def emptyString (α : Type) [Zero α] : Terminated α :=
  ⟨fun _ => 0, 0, rfl, fun i hi => absurd hi (Nat.not_lt_zero i)⟩

def letterString (α : Type) [Zero α] (c : α) (hc : c ≠ 0) : Terminated α where
  char i := if i = 0 then c else 0
  len := 1
  ends := if_neg Nat.one_ne_zero
  before i hi := by rwa [if_pos (Nat.lt_one_iff.mp hi)]

/-- The empty string has length 1, a limit of 0 is passed, and comparisons with the empty string
read behind it or take it for any other. -/
theorem stringFunctions_wrong :
    ¬ MeasuresRight (emptyString UInt8) ∧
    ¬ MeasuresMaxRight (letterString UInt8 97 (by decide)) 0 ∧
    ¬ ComparesRight (equalsLoop (emptyString UInt8).char (emptyString UInt8).char)
      (emptyString UInt8) (emptyString UInt8) ∧
    ¬ ComparesRight (equalsWideLoop (letterString UInt16 97 (by decide)).char
      (emptyString UInt16).char) (letterString UInt16 97 (by decide)) (emptyString UInt16) := by
  refine ⟨?_, ?_, ?_, ?_⟩
  · exact fun h => (measuresRight_iff _).mp h rfl
  · intro h
    have hle := ((measuresMaxRight_iff _ 0).mp h).2
    exact Nat.not_succ_le_zero 0 hle
  · exact fun h => ((equalsRight_iff _ _).mp h).1 rfl
  · intro h
    apply (equalsWideRight_iff _ _).mp h
    exact ⟨Nat.one_pos, fun i hi => absurd hi (Nat.not_lt_zero i)⟩

/-! ## Character pointers -/

private theorem rtStringLen_spec (buffer : List UInt8) :
    ∃ k, rtStringLen buffer = k + 1 ∧ (∀ j < k, buffer.getD (j + 1) 0 ≠ 0) ∧
      buffer.getD (k + 1) 0 = 0 := by
  cases buffer with
  | nil => exact ⟨0, rfl, fun j hj => absurd hj (Nat.not_lt_zero j), rfl⟩
  | cons b rest =>
    refine ⟨(cstr rest).length, Nat.add_comm _ _, ?_, ?_⟩
    · intro j hj
      rw [List.getD_cons_succ, cstr_getD hj, List.getD_eq_getElem _ _ hj]
      exact ne_zero_of_mem_cstr (List.getElem_mem hj)
    · rw [List.getD_cons_succ]
      exact getD_cstr_length rest

/-- The loops find the length that is taken of a buffer, with and without a limit. -/
theorem stringLenLoop_rtStringLen (buffer : List UInt8) :
    ∃ reads, Yields (stringLenLoop fun i => buffer.getD i 0) (rtStringLen buffer, reads) := by
  obtain ⟨k, hlen, hbefore, hend⟩ := rtStringLen_spec buffer
  rw [hlen]
  exact ⟨_, (stringLenLoop_iff _ _).mpr ⟨k, hbefore, hend, rfl⟩⟩

theorem stringLenMaxLoop_rtStringLenMax (buffer : List UInt8) (n : Nat) :
    ∃ reads, Yields (stringLenMaxLoop (fun i => buffer.getD i 0) n)
      (rtStringLenMax buffer n, reads) := by
  obtain ⟨k, hlen, hbefore, hend⟩ := rtStringLen_spec buffer
  rw [rtStringLenMax, hlen]
  by_cases hn : n < k
  · refine ⟨List.range' 1 (n + 1), (stringLenMaxLoop_iff _ _ _).mpr ⟨n + 1, ?_, ?_, ?_⟩⟩
    · intro j hj
      exact ⟨by omega, hbefore j (by omega)⟩
    · exact fun h => absurd h.1 (by omega)
    · rw [if_pos (by omega), if_pos (Nat.lt_succ_self n)]
  · refine ⟨List.range' 1 (k + 1), (stringLenMaxLoop_iff _ _ _).mpr ⟨k, ?_, ?_, ?_⟩⟩
    · intro j hj
      exact ⟨by omega, hbefore j hj⟩
    · exact fun h => h.2 hend
    · rw [if_neg (by omega), if_neg hn]

/-- The comparison of two buffers answers what the loop does. -/
theorem equalsLoop_equals (lhs rhs : List UInt8) :
    ∃ c, Yields (equalsLoop (fun i => lhs.getD i 0) fun i => rhs.getD i 0) c ∧
      c.equal = equals lhs rhs := by
  obtain ⟨l, hl⟩ := stringLenLoop_rtStringLen lhs
  obtain ⟨r, hr⟩ := stringLenLoop_rtStringLen rhs
  obtain ⟨n, hn⟩ := hl.eventually (stringLenLoop_mono _)
  obtain ⟨m, hm⟩ := hr.eventually (stringLenLoop_mono _)
  obtain ⟨equal, count, hloop, _, hequal⟩ := equalsBody_returns (fun i => lhs.getD i 0)
    (fun i => rhs.getD i 0) (rtStringLen rhs)
  have hcompare : ∀ fuel, n ≤ fuel → m ≤ fuel →
      equalsLoop (fun i => lhs.getD i 0) (fun i => rhs.getD i 0) fuel =
        if rtStringLen rhs ≠ rtStringLen lhs then .done ⟨false, l, r⟩
        else whileLoop (equalsBody (fun i => lhs.getD i 0) (fun i => rhs.getD i 0)
          (rtStringLen rhs)) fuel 0 >>= fun c =>
            .done ⟨c.1, l ++ List.range c.2, r ++ List.range c.2⟩ := by
    intro fuel hn' hm'
    rw [equalsLoop, hm fuel hm', done_bind, hn fuel hn', done_bind]
  by_cases hlen : rtStringLen rhs ≠ rtStringLen lhs
  · refine ⟨⟨false, l, r⟩, .intro (n + m) ?_, ?_⟩
    · rw [hcompare _ (by omega) (by omega), if_pos hlen]
    · rw [equals, if_pos hlen]
  · refine ⟨⟨equal, l ++ List.range count, r ++ List.range count⟩,
      .intro (n + m + rtStringLen rhs + 1) ?_, ?_⟩
    · rw [hcompare _ (by omega) (by omega), if_neg hlen, hloop _ (by omega), done_bind]
    · rw [equals, if_neg hlen, Bool.eq_iff_iff, hequal, List.all_eq_true]
      simp only [List.mem_range, beq_iff_eq]
      exact forall₂_congr fun i _ => eq_comm

end Zka.NewKit
