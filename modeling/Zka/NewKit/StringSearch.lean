import Zka.NewKit.StringLoops

/-!
# Searches in strings

`rt_string_in_string` compares the needle with the text at one place after the other, and
`rt_string_has_char` looks for a single character.  The comparison does not stop at a terminator,
and counts the differences in a signed word of 32 bits.
-/

namespace Zka.NewKit

open Outcome

inductive SearchFault where
  | memory (e : CFault)
  | signedOverflow
  deriving DecidableEq, Repr

/-- The first index with a property, or none. -/
def IsFirst (p : Nat → Prop) : Option Nat → Prop
  | some i => p i ∧ ∀ j < i, ¬ p j
  | none => ∀ i, ¬ p i

section Loops

variable {α : Type} [Zero α] [DecidableEq α]

def countUp (counter : Int32) : Outcome SearchFault Int32 :=
  if counter = Int32.maxValue then .fault .signedOverflow else .done (counter + 1)

def stringCmpBody (src cmp : Nat → α) (size : Nat) (s : Nat × Int32) :
    Outcome SearchFault ((Nat × Int32) ⊕ Int32) :=
  if s.1 < size then
    if src s.1 ≠ cmp s.1 then countUp s.2 >>= fun counter => .done (.inl (s.1 + 1, counter))
    else .done (.inl (s.1 + 1, s.2))
  else .done (.inr s.2)

/-- `rt_string_cmp`, for pointers that may be null. -/
def stringCmpLoop (src cmp : Option (Nat → α)) (size fuel : Nat) : Outcome SearchFault Int32 :=
  match src, cmp with
  | some src, some cmp => whileLoop (stringCmpBody src cmp size) fuel (0, 0)
  | _, _ => .done 1

/-- The place that is tried, and the indices of the text that were read. -/
def stringInStringBody (text needle : Nat → α) (fuel : Nat) (s : Nat × List Nat) :
    Outcome SearchFault ((Nat × List Nat) ⊕ (Option Nat × List Nat)) :=
  (stringLenLoop text fuel).mapFault .memory >>= fun len =>
  if s.1 < len.1 then
    (stringLenLoop needle fuel).mapFault .memory >>= fun size =>
    stringCmpLoop (some fun j => text (s.1 + j)) (some needle) size.1 fuel >>= fun counter =>
    let reads := s.2 ++ (len.2 ++ List.range' s.1 size.1)
    if counter = 0 then .done (.inr (some s.1, reads)) else .done (.inl (s.1 + 1, reads))
  else .done (.inr (none, s.2 ++ len.2))

/-- `rt_string_in_string`: the offset of the address that is returned, if it is not null. -/
def stringInString (text needle : Nat → α) (fuel : Nat) :
    Outcome SearchFault (Option Nat × List Nat) :=
  whileLoop (stringInStringBody text needle fuel) fuel (0, [])

def stringHasCharBody (str : Nat → α) (chr : α) (i : Nat) :
    Outcome CFault (Nat ⊕ (Option Nat × List Nat)) :=
  if str i ≠ chr then
    if str (i + 1) = 0 then .done (.inr (none, List.range (i + 2))) else .done (.inl (i + 1))
  else .done (.inr (some i, List.range (i + 1)))

/-- `rt_string_has_char`, with the indices that are read. -/
def stringHasChar (str : Nat → α) (chr : α) (fuel : Nat) :
    Outcome CFault (Option Nat × List Nat) :=
  whileLoop (stringHasCharBody str chr) fuel 0

/-! ## The comparison -/

theorem ofNat_eq_zero_iff {n : Nat} (h : n < 2 ^ 31) : Int32.ofNat n = 0 ↔ n = 0 := by
  rw [← Int32.toInt_inj, Int32.toInt_ofNat_of_lt h, Int32.toInt_zero]
  exact Int.natCast_eq_zero

section Compare

variable (src cmp : Nat → α) {size : Nat}

/-- The number of places among the first `n` at which two strings differ. -/
def differences (n : Nat) : Nat := (List.range n).countP fun j => src j ≠ cmp j

omit [Zero α] in
theorem differences_succ (n : Nat) :
    differences src cmp (n + 1) = differences src cmp n + if src n ≠ cmp n then 1 else 0 := by
  rw [differences, differences, List.range_succ, List.countP_append, List.countP_singleton]
  simp

omit [Zero α] in
theorem differences_mono {n : Nat} (h : n ≤ size) :
    differences src cmp n ≤ differences src cmp size :=
  ((List.range_sublist.mpr h).countP_le)

omit [Zero α] in
theorem differences_eq_zero_iff (n : Nat) :
    differences src cmp n = 0 ↔ ∀ j < n, src j = cmp j := by
  simp [differences, List.countP_eq_zero]

omit [Zero α] in
theorem stringCmpBody_step {n : Nat} (hn : n < size)
    (hfit : differences src cmp (n + 1) < 2 ^ 31) :
    stringCmpBody src cmp size (n, Int32.ofNat (differences src cmp n)) =
      .done (.inl (n + 1, Int32.ofNat (differences src cmp (n + 1)))) := by
  rw [stringCmpBody, if_pos hn]
  rw [differences_succ] at hfit ⊢
  by_cases hne : src n ≠ cmp n
  · rw [if_pos hne] at hfit ⊢
    have hmax : Int32.ofNat (differences src cmp n) ≠ Int32.maxValue := by
      intro h
      have hint := congrArg Int32.toInt h
      rw [Int32.toInt_ofNat_of_lt (by omega)] at hint
      exact absurd hint (by rw [Int32.toInt_maxValue]; omega)
    rw [if_pos hne, countUp, if_neg hmax, done_bind, Int32.ofNat_add]
    rfl
  · rw [if_neg hne, if_neg hne, Nat.add_zero]
    rfl

omit [Zero α] in
theorem stringCmpBody_overflow {n : Nat} (hn : n < size) (hfit : differences src cmp n < 2 ^ 31)
    (hover : 2 ^ 31 ≤ differences src cmp (n + 1)) :
    stringCmpBody src cmp size (n, Int32.ofNat (differences src cmp n)) =
      .fault .signedOverflow := by
  rw [differences_succ] at hover
  by_cases hne : src n ≠ cmp n
  · rw [if_pos hne] at hover
    have hcount : differences src cmp n = 2 ^ 31 - 1 := by omega
    rw [stringCmpBody, if_pos hn, if_pos hne, hcount]
    rfl
  · rw [if_neg hne] at hover
    omega

omit [Zero α] in
/-- A round that returns goes on with a counter that holds, or leaves at the end. -/
theorem stringCmpBody_cases {n : Nat} (hn : n ≤ size) (hfit : differences src cmp n < 2 ^ 31)
    {out : (Nat × Int32) ⊕ Int32}
    (h : stringCmpBody src cmp size (n, Int32.ofNat (differences src cmp n)) = .done out) :
    (n < size ∧ differences src cmp (n + 1) < 2 ^ 31 ∧
      out = .inl (n + 1, Int32.ofNat (differences src cmp (n + 1)))) ∨
    (n = size ∧ out = .inr (Int32.ofNat (differences src cmp size))) := by
  rcases hn.lt_or_eq with hlt | rfl
  · by_cases hnext : differences src cmp (n + 1) < 2 ^ 31
    · rw [stringCmpBody_step src cmp hlt hnext] at h
      exact Or.inl ⟨hlt, hnext, (Outcome.done.inj h).symm⟩
    · rw [stringCmpBody_overflow src cmp hlt hfit (Nat.not_lt.mp hnext)] at h
      cases h
  · rw [stringCmpBody, if_neg (Nat.lt_irrefl n)] at h
    exact Or.inr ⟨rfl, (Outcome.done.inj h).symm⟩

omit [Zero α] in
/-- The differences are counted as long as the counter can hold them. -/
theorem stringCmpLoop_eq (hfit : differences src cmp size < 2 ^ 31) {fuel : Nat}
    (hfuel : size < fuel) :
    stringCmpLoop (some src) (some cmp) size fuel =
      .done (Int32.ofNat (differences src cmp size)) := by
  apply @whileLoop_walk SearchFault _ _ (stringCmpBody src cmp size)
    (fun n => (n, Int32.ofNat (differences src cmp n))) 0 size _ (Nat.zero_le size)
  · intro n _ hn
    have hle := differences_mono src cmp (show n + 1 ≤ size from hn)
    exact stringCmpBody_step src cmp hn (by omega)
  · rw [stringCmpBody, if_neg (Nat.lt_irrefl size)]
  · omega

omit [Zero α] in
/-- The comparison only returns if they are that few. -/
theorem stringCmpLoop_done {fuel : Nat} {counter : Int32}
    (h : stringCmpLoop (some src) (some cmp) size fuel = .done counter) :
    differences src cmp size < 2 ^ 31 ∧ counter = Int32.ofNat (differences src cmp size) := by
  refine whileLoop_invariant
    (fun s => ∃ n ≤ size, differences src cmp n < 2 ^ 31 ∧
      s = (n, Int32.ofNat (differences src cmp n)))
    (fun counter => differences src cmp size < 2 ^ 31 ∧
      counter = Int32.ofNat (differences src cmp size)) ?_ ?_ ⟨0, Nat.zero_le size, ?_, rfl⟩ h
  · intro s next hs hstep
    obtain ⟨n, hn, hfit, rfl⟩ := hs
    rcases stringCmpBody_cases src cmp hn hfit hstep with ⟨hlt, hnext, hout⟩ | ⟨_, hout⟩
    · cases hout
      exact ⟨n + 1, hlt, hnext, rfl⟩
    · cases hout
  · intro s r hs hexit
    obtain ⟨n, hn, hfit, rfl⟩ := hs
    rcases stringCmpBody_cases src cmp hn hfit hexit with ⟨_, _, hout⟩ | ⟨rfl, hout⟩
    · cases hout
    · cases hout
      exact ⟨hfit, rfl⟩
  · exact Nat.two_pow_pos 31

end Compare

/-! ## The first occurrence -/

variable (text needle : Terminated α)

def OccursAt (i : Nat) : Prop := needle.text <+: text.text.drop i

/-- The number of places at which the needle differs from what stands at `i`, also behind the
terminator of the text. -/
def differencesAt (i : Nat) : Nat :=
  differences (fun index => text.char (i + index)) needle.char needle.len

/-- The differences can be counted at every place that is tried. -/
def CountsFit : Prop :=
  ∀ i < text.len, (∀ j < i, ¬ OccursAt text needle j) → differencesAt text needle i < 2 ^ 31

/-- The first occurrence of the needle is returned if there is one. -/
def FindsFirst : Prop :=
  ∃ r, Yields (stringInString text.char needle.char) r ∧ IsFirst (OccursAt text needle) r.1

variable {text needle}

theorem countsFit_of_len (h : needle.len < 2 ^ 31) : CountsFit text needle := by
  intro i _ _
  have hle : differencesAt text needle i ≤ needle.len := by
    have hcount := List.countP_le_length (l := List.range needle.len)
      (p := fun j => decide (text.char (i + j) ≠ needle.char j))
    rwa [List.length_range] at hcount
  omega

omit [DecidableEq α] in
theorem Terminated.getElem?_text (s : Terminated α) (i : Nat) :
    s.text[i]? = if i < s.len then some (s.char i) else none := by
  rw [text, List.getElem?_map]
  by_cases hi : i < s.len
  · rw [if_pos hi, List.getElem?_range hi]
    rfl
  · rw [if_neg hi, List.getElem?_eq_none (by rw [List.length_range]; omega)]
    rfl

omit [DecidableEq α] in
theorem occursAt_iff_inside {i : Nat} :
    OccursAt text needle i ↔
      ∀ j < needle.len, i + j < text.len ∧ text.char (i + j) = needle.char j := by
  have hplace : ∀ j < needle.len, ((text.text.drop i)[j]? = needle.text[j]? ↔
      i + j < text.len ∧ text.char (i + j) = needle.char j) := by
    intro j hj
    rw [List.getElem?_drop, text.getElem?_text, needle.getElem?_text, if_pos hj]
    split
    next hin => simp [hin]
    next hout => simp [hout]
  have hlen : needle.text.length = needle.len := by simp [Terminated.text]
  rw [OccursAt, List.prefix_iff_getElem?]
  constructor
  · intro h j hj
    have hchar := h j (hlen ▸ hj)
    rw [← List.getElem?_eq_getElem] at hchar
    exact (hplace j hj).mp hchar
  · intro h j hj
    rw [← List.getElem?_eq_getElem]
    exact (hplace j (hlen ▸ hj)).mpr (h j (hlen ▸ hj))

omit [DecidableEq α] in
theorem OccursAt.lt {i : Nat} (hn : needle.len ≠ 0) (h : OccursAt text needle i) :
    i < text.len :=
  (occursAt_iff_inside.mp h 0 (Nat.pos_of_ne_zero hn)).1

/-- What stands behind the terminator of the text belongs to no occurrence, so that the count over
the whole needle tells. -/
theorem occursAt_iff {i : Nat} (hi : i < text.len) :
    OccursAt text needle i ↔ differencesAt text needle i = 0 := by
  rw [differencesAt, differences_eq_zero_iff, occursAt_iff_inside]
  constructor
  · exact fun h j hj => (h j hj).2
  · intro h j hj
    refine ⟨?_, h j hj⟩
    by_contra hout
    -- the terminator of the text would be a character of the needle
    have hend := h (text.len - i) (by omega)
    rw [Nat.add_sub_cancel' hi.le, text.ends] at hend
    exact needle.before (text.len - i) (by omega) hend.symm

/-- The indices of the text that the first `n` rounds read. -/
def triedReads (text needle : Terminated α) (n : Nat) : List Nat :=
  (List.range n).flatMap fun i => List.range' 1 text.len ++ List.range' i needle.len

omit [DecidableEq α] in
theorem triedReads_succ (n : Nat) :
    triedReads text needle (n + 1) =
      triedReads text needle n ++ (List.range' 1 text.len ++ List.range' n needle.len) := by
  rw [triedReads, triedReads, List.range_succ, List.flatMap_append, List.flatMap_singleton]

omit [DecidableEq α] in
theorem mem_triedReads {n x : Nat} :
    x ∈ triedReads text needle n ↔
      ∃ i < n, 1 ≤ x ∧ x ≤ text.len ∨ i ≤ x ∧ x < i + needle.len := by
  simp only [triedReads, List.mem_flatMap, List.mem_range, List.mem_append, List.mem_range'_1]
  refine exists_congr fun i => and_congr_right fun _ => or_congr_left (and_congr_right fun _ => ?_)
  omega

theorem stringLenLoop_done {s : Terminated α} (h : s.len ≠ 0) {fuel : Nat} {r : Nat × List Nat}
    (hdone : stringLenLoop s.char fuel = .done r) : r = (s.len, List.range' 1 s.len) :=
  Yields.unique (stringLenLoop_mono s.char) (.intro fuel hdone)
    (.intro s.len (stringLenLoop_eq h (Nat.le_refl _)))

/-- The first occurrence is returned, and the rounds up to it were made. -/
def Searched (text needle : Terminated α) (r : Option Nat × List Nat) : Prop :=
  IsFirst (OccursAt text needle) r.1 ∧
    r.2 = match r.1 with
      | some i => triedReads text needle (i + 1)
      | none => triedReads text needle text.len ++ List.range' 1 text.len

section Search

variable (ht : text.len ≠ 0) (hn : needle.len ≠ 0)
include ht hn

/-- A round that returns has tried a place with a count that fits, and leaves if the needle is
found there; behind the text it leaves. -/
theorem stringInStringBody_cases {fuel i : Nat}
    {out : (Nat × List Nat) ⊕ (Option Nat × List Nat)}
    (h : stringInStringBody text.char needle.char fuel (i, triedReads text needle i) = .done out) :
    (i < text.len ∧ differencesAt text needle i < 2 ^ 31 ∧
      (OccursAt text needle i ∧ out = .inr (some i, triedReads text needle (i + 1)) ∨
        ¬ OccursAt text needle i ∧ out = .inl (i + 1, triedReads text needle (i + 1)))) ∨
    (text.len ≤ i ∧ out = .inr (none, triedReads text needle i ++ List.range' 1 text.len)) := by
  obtain ⟨len, hlen, h⟩ := bind_eq_done.mp h
  obtain rfl := stringLenLoop_done ht (mapFault_eq_done.mp hlen)
  split at h
  next hi =>
    obtain ⟨size, hsize, h⟩ := bind_eq_done.mp h
    obtain rfl := stringLenLoop_done hn (mapFault_eq_done.mp hsize)
    obtain ⟨counter, hcount, h⟩ := bind_eq_done.mp h
    obtain ⟨hfit, rfl⟩ := stringCmpLoop_done _ _ hcount
    refine Or.inl ⟨hi, hfit, ?_⟩
    have hzero : OccursAt text needle i ↔ Int32.ofNat (differencesAt text needle i) = 0 :=
      (occursAt_iff hi).trans (ofNat_eq_zero_iff hfit).symm
    rw [triedReads_succ, hzero]
    split at h
    next hfound => exact Or.inl ⟨hfound, (Outcome.done.inj h).symm⟩
    next hother => exact Or.inr ⟨hother, (Outcome.done.inj h).symm⟩
  next hi => exact Or.inr ⟨Nat.not_lt.mp hi, (Outcome.done.inj h).symm⟩

/-- With enough fuel a round returns if the count fits. -/
theorem stringInStringBody_returns {fuel i : Nat} (hfuel : text.len + needle.len < fuel)
    (hfit : i < text.len → differencesAt text needle i < 2 ^ 31) :
    ∃ out, stringInStringBody text.char needle.char fuel (i, triedReads text needle i) =
      .done out := by
  rw [stringInStringBody, stringLenLoop_eq ht (by omega), mapFault_done, done_bind]
  split
  next hi =>
    rw [stringLenLoop_eq hn (by omega), mapFault_done, done_bind,
      stringCmpLoop_eq _ _ (hfit hi) (by omega), done_bind]
    dsimp only
    split
    · exact ⟨_, rfl⟩
    · exact ⟨_, rfl⟩
  next => exact ⟨_, rfl⟩

/-- A search that returns has counted at every place up to the first occurrence. -/
theorem stringInString_searched {fuel : Nat} {r : Option Nat × List Nat}
    (h : stringInString text.char needle.char fuel = .done r) :
    CountsFit text needle ∧ Searched text needle r := by
  refine whileLoop_invariant
    (fun s => ∃ i ≤ text.len, s = (i, triedReads text needle i) ∧
      ∀ j < i, differencesAt text needle j < 2 ^ 31 ∧ ¬ OccursAt text needle j)
    (fun r => CountsFit text needle ∧ Searched text needle r) ?_ ?_
    ⟨0, Nat.zero_le _, rfl, fun j hj => absurd hj (Nat.not_lt_zero j)⟩ h
  · intro s next hs hstep
    obtain ⟨i, _, rfl, hbefore⟩ := hs
    rcases stringInStringBody_cases ht hn hstep with
      ⟨hi, hfit, ⟨_, hout⟩ | ⟨hother, hout⟩⟩ | ⟨_, hout⟩
    · cases hout
    · cases hout
      exact ⟨i + 1, hi, rfl, Nat.forall_lt_succ_right.mpr ⟨hbefore, hfit, hother⟩⟩
    · cases hout
  · intro s r hs hexit
    obtain ⟨i, hle, rfl, hbefore⟩ := hs
    rcases stringInStringBody_cases ht hn hexit with
      ⟨hi, hfit, ⟨hfound, hout⟩ | ⟨_, hout⟩⟩ | ⟨hend, hout⟩
    · cases hout
      refine ⟨?_, ⟨hfound, fun j hj => (hbefore j hj).2⟩, rfl⟩
      intro j _ hnone
      rcases Nat.lt_trichotomy j i with hlt | rfl | hgt
      · exact (hbefore j hlt).1
      · exact hfit
      · exact absurd hfound (hnone i hgt)
    · cases hout
    · cases hout
      obtain rfl := Nat.le_antisymm hle hend
      refine ⟨fun j hj _ => (hbefore j hj).1, ?_, rfl⟩
      intro j hfound
      exact (hbefore j (hfound.lt hn)).2 hfound

theorem stringInString_yields (hfit : CountsFit text needle) :
    ∃ r, Yields (stringInString text.char needle.char) r := by
  classical
  have hend : ∃ n, text.len ≤ n ∨ OccursAt text needle n := ⟨text.len, Or.inl (Nat.le_refl _)⟩
  have hbefore : ∀ i < Nat.find hend, i < text.len ∧ ¬ OccursAt text needle i := by
    intro i hi
    have hnot := not_or.mp (Nat.find_min hend hi)
    exact ⟨Nat.not_le.mp hnot.1, hnot.2⟩
  have hreturns : ∀ i ≤ Nat.find hend, ∃ out, stringInStringBody text.char needle.char
      (text.len + needle.len + 2) (i, triedReads text needle i) = .done out := by
    intro i hi
    apply stringInStringBody_returns ht hn (by omega)
    exact fun hlt => hfit i hlt fun j hj => (hbefore j (by omega)).2
  have hle : Nat.find hend ≤ text.len := Nat.find_min' hend (Or.inl (Nat.le_refl _))
  obtain ⟨out, hout⟩ := hreturns (Nat.find hend) (Nat.le_refl _)
  have hexit : ∃ r, out = .inr r := by
    rcases stringInStringBody_cases ht hn hout with
      ⟨hi, _, ⟨_, hr⟩ | ⟨hother, _⟩⟩ | ⟨_, hr⟩
    · exact ⟨_, hr⟩
    · exact absurd (Nat.find_spec hend) (not_or.mpr ⟨Nat.not_le.mpr hi, hother⟩)
    · exact ⟨_, hr⟩
  obtain ⟨r, rfl⟩ := hexit
  refine ⟨r, .intro (text.len + needle.len + 2) ?_⟩
  apply @whileLoop_walk SearchFault _ _ _ (fun i => (i, triedReads text needle i)) 0
    (Nat.find hend) r (Nat.zero_le _)
  · intro i _ hi
    obtain ⟨next, hnext⟩ := hreturns i hi.le
    obtain ⟨hlt, hother⟩ := hbefore i hi
    rcases stringInStringBody_cases ht hn hnext with
      ⟨_, _, ⟨hfound, _⟩ | ⟨_, hgo⟩⟩ | ⟨hge, _⟩
    · exact absurd hfound hother
    · exact hnext.trans (congrArg _ hgo)
    · omega
  · exact hout
  · omega

/-- The search returns the first occurrence exactly if the differences can be counted. -/
theorem findsFirst_iff : FindsFirst text needle ↔ CountsFit text needle := by
  constructor
  · intro h
    obtain ⟨r, ⟨fuel, hdone⟩, _⟩ := h
    exact (stringInString_searched ht hn hdone).1
  · intro h
    obtain ⟨r, fuel, hdone⟩ := stringInString_yields ht hn h
    exact ⟨r, .intro fuel hdone, (stringInString_searched ht hn hdone).2.1⟩

/-- The comparison reads behind the terminator of a text that the needle does not occur in, unless
the needle is too short for that. -/
theorem stringInString_inside_iff {fuel : Nat} {r : Option Nat × List Nat}
    (h : stringInString text.char needle.char fuel = .done r) :
    (∀ x ∈ r.2, x ≤ text.len) ↔ (∃ i, OccursAt text needle i) ∨ needle.len ≤ 2 := by
  obtain ⟨hfirst, hreads⟩ := (stringInString_searched ht hn h).2
  obtain ⟨result, reads⟩ := r
  dsimp only at hfirst hreads ⊢
  cases result with
  | some i =>
    have hlast := (occursAt_iff_inside.mp hfirst.1 (needle.len - 1) (by omega)).1
    apply iff_of_true _ (Or.inl ⟨i, hfirst.1⟩)
    intro x hx
    rw [hreads, mem_triedReads] at hx
    obtain ⟨k, hk, hx⟩ := hx
    omega
  | none =>
    rw [or_iff_right (not_exists.mpr hfirst), hreads]
    constructor
    · intro hall
      by_contra hlong
      have hlast := hall (text.len - 1 + (needle.len - 1)) (List.mem_append_left _
        (mem_triedReads.mpr ⟨text.len - 1, by omega, by omega⟩))
      omega
    · intro hshort x hx
      rcases List.mem_append.mp hx with hx | hx
      · obtain ⟨k, hk, hx⟩ := mem_triedReads.mp hx
        omega
      · exact le_of_mem_range' hx

end Search

/-! ## A single character -/

/-- The first place of the character is returned if there is one, and nothing behind the terminator
is read. -/
def HasCharRight (str : Terminated α) (chr : α) : Prop :=
  ∃ r, Yields (stringHasChar str.char chr) r ∧
    IsFirst (fun i => i < str.len ∧ str.char i = chr) r.1 ∧ ∀ i ∈ r.2, i ≤ str.len

section Character

variable {str : Terminated α} {chr : α}

/-- The character behind the first one of an empty string is read. -/
theorem one_mem_of_hasChar (hchr : chr ≠ 0) (hempty : str.len = 0) {r : Option Nat × List Nat}
    (h : Yields (stringHasChar str.char chr) r) : 1 ∈ r.2 := by
  obtain ⟨fuel, hdone⟩ := h
  refine whileLoop_invariant (fun _ => True) (fun r => 1 ∈ r.2) (fun _ _ _ _ => trivial) ?_
    trivial hdone
  intro i r _ hexit
  rw [stringHasCharBody] at hexit
  split at hexit
  next =>
    split at hexit
    next =>
      cases hexit
      exact List.mem_range.mpr (by omega)
    next => cases hexit
  next hfound =>
    cases hexit
    have hi : i ≠ 0 := by
      rintro rfl
      apply hchr
      rw [← not_not.mp hfound, ← str.ends, hempty]
    exact List.mem_range.mpr (by omega)

theorem stringHasChar_found {i : Nat} (hi : i < str.len) (hfound : str.char i = chr)
    (hbefore : ∀ j < i, str.char j ≠ chr) :
    Yields (stringHasChar str.char chr) (some i, List.range (i + 1)) := by
  refine .intro (i + 1) ?_
  apply @whileLoop_walk CFault _ _ (stringHasCharBody str.char chr) (fun k => k) 0 i
  · exact Nat.zero_le _
  · intro j _ hj
    rw [stringHasCharBody, if_pos (hbefore j hj), if_neg (str.before (j + 1) (by omega))]
  · rw [stringHasCharBody, if_neg (not_not_intro hfound)]
  · omega

theorem stringHasChar_missing (hlen : str.len ≠ 0) (hnone : ∀ i < str.len, str.char i ≠ chr) :
    Yields (stringHasChar str.char chr) (none, List.range (str.len + 1)) := by
  obtain ⟨last, hlast⟩ := Nat.exists_eq_add_one_of_ne_zero hlen
  have hend : str.char (last + 1) = 0 := hlast ▸ str.ends
  refine .intro (last + 1) ?_
  apply @whileLoop_walk CFault _ _ (stringHasCharBody str.char chr) (fun k => k) 0 last
  · exact Nat.zero_le _
  · intro j _ hj
    rw [stringHasCharBody, if_pos (hnone j (by omega)), if_neg (str.before (j + 1) (by omega))]
  · rw [stringHasCharBody, if_pos (hnone last (by omega)), if_pos hend, hlast]
  · omega

theorem hasCharRight_iff (hchr : chr ≠ 0) : HasCharRight str chr ↔ str.len ≠ 0 := by
  constructor
  · intro h hempty
    obtain ⟨r, hyields, _, hreads⟩ := h
    have hone := hreads 1 (one_mem_of_hasChar hchr hempty hyields)
    omega
  · intro h
    classical
    by_cases hany : ∃ i, i < str.len ∧ str.char i = chr
    · obtain ⟨hi, hfound⟩ := Nat.find_spec hany
      have hbefore : ∀ j < Nat.find hany, str.char j ≠ chr := by
        intro j hj heq
        exact Nat.find_min hany hj ⟨hj.trans hi, heq⟩
      refine ⟨_, stringHasChar_found hi hfound hbefore, ⟨⟨hi, hfound⟩, ?_⟩, ?_⟩
      · exact fun j hj => Nat.find_min hany hj
      · exact le_of_mem_range (by omega)
    · refine ⟨_, stringHasChar_missing h ?_, ?_, le_of_mem_range (Nat.le_refl _)⟩
      · intro i hi heq
        exact hany ⟨i, hi, heq⟩
      · exact fun i hi => hany ⟨i, hi⟩

end Character

end Loops

/-- A needle is looked for rightly if the differences at each place that is tried can be counted,
as they can for every needle of less than 2^31 characters; a character is, in every string but the
empty one. -/
theorem stringSearch_right_iff {text needle str : Terminated UInt8} {chr : UInt8}
    (ht : text.len ≠ 0) (hn : needle.len ≠ 0) (hchr : chr ≠ 0) :
    (FindsFirst text needle ↔ CountsFit text needle) ∧ (HasCharRight str chr ↔ str.len ≠ 0) :=
  ⟨findsFirst_iff ht hn, hasCharRight_iff hchr⟩

/-- A letter is found in itself, as a needle and as a character. -/
theorem stringSearch_letter :
    FindsFirst (letterString UInt8 97 (by decide)) (letterString UInt8 97 (by decide)) ∧
      HasCharRight (letterString UInt8 97 (by decide)) 97 := by
  have hright := @stringSearch_right_iff (letterString UInt8 97 (by decide))
    (letterString UInt8 97 (by decide)) (letterString UInt8 97 (by decide)) 97
    Nat.one_ne_zero Nat.one_ne_zero (by decide)
  exact ⟨hright.1.mpr (countsFit_of_len (Nat.one_lt_two_pow (by decide))),
    hright.2.mpr Nat.one_ne_zero⟩

/-- The search in an empty string goes on behind its terminator. -/
theorem stringHasChar_empty : ¬ HasCharRight (emptyString UInt8) 97 := by
  intro h
  exact (hasCharRight_iff (by decide)).mp h rfl

end Zka.NewKit
