import Zka.FSKit.NeFS
import Zka.Framework.Outcome

/-!
# The parent of a path

`CreateCatalog` and `FindCatalog` hold the same backward scan over a 256-byte
buffer.  It drops the last two characters before it looks for a separator and
has no lower bound, so it faults where no separator is left.
-/

namespace Zka.FSKit

open NewKit

/-- `while (parentName[index] != '/') { parentName[index] = 0; --index; }` -/
def scanBack : Nat → List UInt8 → Outcome CFault (List UInt8)
  | 0, buffer =>
    if buffer.getD 0 0 = kNeFSSeparator then .done buffer else .fault .indexOutOfRange
  | index + 1, buffer =>
    if buffer.getD (index + 1) 0 = kNeFSSeparator then .done buffer
    else scanBack index (buffer.set (index + 1) 0)

/-- `parentName` after the copy of `name` and the scan; indices outside the array fault. -/
def parentName (name : List UInt8) : Outcome CFault (List UInt8) :=
  let len := rtStringLen name
  if kNeFSNodeNameLen < len then .fault .indexOutOfRange
  else
    let buffer := (List.range kNeFSNodeNameLen).map fun i => if i < len then name.getD i 0 else 0
    let indexReverseCopy := rtStringLen buffer
    -- a full buffer has no terminator inside, and the two decrements need two characters
    if kNeFSNodeNameLen ≤ indexReverseCopy ∨ indexReverseCopy < 2 then .fault .indexOutOfRange
    else
      (scanBack (indexReverseCopy - 2)
        ((buffer.set (indexReverseCopy - 1) 0).set (indexReverseCopy - 2) 0)) >>= fun parent =>
      .done (cstr parent)

/-- The longest prefix that ends in a separator, two characters from the end on. -/
def parentOf (name : List UInt8) : List UInt8 :=
  (name.take (name.length - 2)).rdropWhile (· ≠ kNeFSSeparator)

theorem parentOf_isStart (name : List UInt8) : parentOf name <+: name := by
  have hdrop := List.rdropWhile_prefix (· ≠ kNeFSSeparator) (name.take (name.length - 2))
  exact hdrop.trans <| List.take_prefix _ _

theorem parentOf_length_le (name : List UInt8) : (parentOf name).length ≤ name.length - 2 := by
  have hdrop := List.rdropWhile_prefix (· ≠ kNeFSSeparator) (name.take (name.length - 2))
  have h := hdrop.length_le
  simp only [List.length_take] at h
  exact h.trans (min_le_left _ _)

theorem zero_notMem_parentOf {name : List UInt8} (h : 0 ∉ name) : 0 ∉ parentOf name :=
  fun h0 => h ((parentOf_isStart name).subset h0)

private theorem rdropWhile_ne_nil {l : List UInt8} (h : kNeFSSeparator ∈ l) :
    l.rdropWhile (· ≠ kNeFSSeparator) ≠ [] := by
  intro hn
  rw [List.rdropWhile_eq_nil_iff] at hn
  simpa using hn _ h

theorem parentOf_ne_nil {name : List UInt8} (h : kNeFSSeparator ∈ name.take (name.length - 2)) :
    parentOf name ≠ [] :=
  rdropWhile_ne_nil h

theorem parentOf_getLast {name : List UInt8} (h : parentOf name ≠ []) :
    (parentOf name).getLast h = kNeFSSeparator := by
  have hl := List.rdropWhile_last_not (· ≠ kNeFSSeparator) (name.take (name.length - 2)) h
  rw [decide_eq_true_iff, not_not] at hl
  exact hl

/-- The scan clears everything behind the last separator. -/
private theorem scanBack_append (pre : List UInt8) (c : UInt8) (k : Nat)
    (h : kNeFSSeparator ∈ pre ++ [c]) :
    ∃ m, scanBack pre.length (pre ++ c :: List.replicate k 0) =
      .done ((pre ++ [c]).rdropWhile (· ≠ kNeFSSeparator) ++ List.replicate m 0) := by
  induction pre using List.reverseRecOn generalizing c k with
  | nil =>
    have hc : c = kNeFSSeparator := by simpa [eq_comm] using h
    subst hc
    exact ⟨k, by simp [scanBack, List.rdropWhile_singleton]⟩
  | append_singleton pre b ih =>
    by_cases hc : c = kNeFSSeparator
    · subst hc
      refine ⟨k, ?_⟩
      rw [List.rdropWhile_concat_neg _ _ _ (by simp)]
      simp [scanBack]
    · have hb : kNeFSSeparator ∈ pre ++ [b] := by
        simpa [Ne.symm hc] using h
      obtain ⟨m, hm⟩ := ih b (k + 1) hb
      refine ⟨m, ?_⟩
      have hset : (pre ++ b :: c :: List.replicate k 0).set (pre.length + 1) 0 =
          pre ++ b :: List.replicate (k + 1) 0 := by
        simp [List.replicate_succ]
      rw [List.rdropWhile_concat_pos _ _ _ (by simpa using hc), ← hm]
      simp [scanBack, hc, hset]

private theorem scanBack_fault (pre : List UInt8) (c : UInt8) (k : Nat)
    (h : kNeFSSeparator ∉ pre ++ [c]) :
    scanBack pre.length (pre ++ c :: List.replicate k 0) = .fault .indexOutOfRange := by
  induction pre using List.reverseRecOn generalizing c k with
  | nil =>
    have hc : c ≠ kNeFSSeparator := by simpa [eq_comm] using h
    simp [scanBack, hc]
  | append_singleton pre b ih =>
    have hc : c ≠ kNeFSSeparator := by
      intro hc
      exact h (by simp [hc])
    have hb : kNeFSSeparator ∉ pre ++ [b] := by
      intro hb
      exact h (List.mem_append_left _ hb)
    have hset : (pre ++ b :: c :: List.replicate k 0).set (pre.length + 1) 0 =
        pre ++ b :: List.replicate (k + 1) 0 := by
      simp [List.replicate_succ]
    rw [← ih b (k + 1) hb]
    simp [scanBack, hc, hset]

private theorem copied_eq {name : List UInt8} (h0 : 0 ∉ name) (hne : name ≠ [])
    (hlen : name.length ≤ kNeFSNodeNameLen) :
    ((List.range kNeFSNodeNameLen).map fun i => if i < rtStringLen name then name.getD i 0 else 0) =
      name ++ List.replicate (kNeFSNodeNameLen - name.length) 0 := by
  rw [rtStringLen_text h0 hne]
  apply List.ext_getElem
  · simp
    omega
  · intro i hi hi'
    simp only [List.getElem_map, List.getElem_range]
    rcases Nat.lt_or_ge i name.length with h | h
    · rw [if_pos h, List.getD_eq_getElem _ _ h, List.getElem_append_left h]
    · rw [if_neg (by omega), List.getElem_append_right h, List.getElem_replicate]

/-- A name of two or more characters with its last two split off. -/
theorem eq_append_two {name : List UInt8} (h : 2 ≤ name.length) :
    ∃ r c d, name = r ++ [c, d] := by
  have hd : (name.drop (name.length - 2)).length = 2 := by
    rw [List.length_drop]
    omega
  obtain ⟨c, d, hcd⟩ := List.length_eq_two.mp hd
  exact ⟨_, c, d, by rw [← hcd, List.take_append_drop]⟩

private theorem cleared_eq {text : List UInt8} (h : 2 ≤ text.length) (k : Nat) :
    ((text ++ List.replicate k 0).set (text.length - 1) 0).set (text.length - 2) 0 =
      text.take (text.length - 2) ++ 0 :: List.replicate (k + 1) 0 := by
  obtain ⟨pre, a, b, rfl⟩ := eq_append_two h
  simp [List.replicate_succ]

/-- What the code computes for every C string: a name needs two characters to drop, room for
its terminator and a separator in what is left; otherwise an index leaves the array. -/
theorem parentName_eq {name : List UInt8} (h0 : 0 ∉ name) :
    parentName name =
      if name.length < kNeFSNodeNameLen ∧ kNeFSSeparator ∈ name.take (name.length - 2) then
        .done (parentOf name)
      else .fault .indexOutOfRange := by
  by_cases hne : name = []
  · subst hne
    decide
  have hlen := rtStringLen_text h0 hne
  by_cases hlong : kNeFSNodeNameLen < name.length
  · rw [parentName, hlen, if_pos hlong, if_neg (by omega)]
  rw [parentName]
  simp only [copied_eq h0 hne (by omega), if_neg (show ¬ kNeFSNodeNameLen < rtStringLen name by omega)]
  have hbuf : rtStringLen (name ++ List.replicate (kNeFSNodeNameLen - name.length) 0) =
      name.length := by
    have hc : cstr (name ++ List.replicate (kNeFSNodeNameLen - name.length) 0) = name := by
      cases hk : kNeFSNodeNameLen - name.length with
      | zero => simpa using cstr_of_notMem h0
      | succ k => exact cstr_append_zero h0 _
    rw [rtStringLen_eq (by rwa [hc]), hc]
  rw [hbuf]
  by_cases hfull : kNeFSNodeNameLen ≤ name.length ∨ name.length < 2
  · rw [if_pos hfull, if_neg]
    intro h
    rcases h with ⟨hlt, hsep⟩
    have h2 : name.length < 2 := by omega
    rw [show name.length - 2 = 0 by omega] at hsep
    simp at hsep
  rw [if_neg hfull]
  have htake : (name.take (name.length - 2)).length = name.length - 2 := by
    simp
  rw [cleared_eq (by omega)]
  by_cases hsep : kNeFSSeparator ∈ name.take (name.length - 2)
  · obtain ⟨m, hm⟩ := scanBack_append (name.take (name.length - 2)) 0
      (kNeFSNodeNameLen - name.length + 1) (List.mem_append_left _ hsep)
    rw [htake] at hm
    rw [hm, if_pos ⟨by omega, hsep⟩, List.rdropWhile_concat_pos _ _ _ (by decide)]
    change Outcome.done (cstr (parentOf name ++ List.replicate m 0)) = _
    congr 1
    cases m with
    | zero => simpa using cstr_of_notMem (zero_notMem_parentOf h0)
    | succ m => exact cstr_append_zero (zero_notMem_parentOf h0) _
  · have hno : kNeFSSeparator ∉ name.take (name.length - 2) ++ [0] := by
      simpa [hsep] using (by decide : kNeFSSeparator ≠ 0)
    have hf := scanBack_fault (name.take (name.length - 2)) 0
      (kNeFSNodeNameLen - name.length + 1) hno
    rw [htake] at hf
    rw [hf, if_neg (fun h => hsep h.2)]
    rfl

/-- A name whose parents can all be computed, up to the root. -/
inductive Resolves : List UInt8 → Prop
  | root : Resolves kNeFSRoot
  | child {name : List UInt8} (h0 : 0 ∉ name) (hroot : name ≠ kNeFSRoot)
      (hlen : name.length < kNeFSNodeNameLen)
      (hsep : kNeFSSeparator ∈ name.take (name.length - 2)) (hparent : Resolves (parentOf name)) :
      Resolves name

namespace Resolves

theorem zero_notMem {name : List UInt8} (h : Resolves name) : 0 ∉ name := by
  cases h with
  | root => decide
  | child h0 => exact h0

theorem length_lt {name : List UInt8} (h : Resolves name) : name.length < kNeFSNodeNameLen := by
  cases h with
  | root => decide
  | child _ _ hlen => exact hlen

theorem ne_nil {name : List UInt8} (h : Resolves name) : name ≠ [] := by
  cases h with
  | root => decide
  | child _ _ _ hsep =>
    intro hn
    subst hn
    simp at hsep

/-- A name that resolves is absolute. -/
theorem head_eq {name : List UInt8} (h : Resolves name) : name.head? = some kNeFSSeparator := by
  induction h with
  | root => rfl
  | @child name _ _ _ hsep _ ih =>
    obtain ⟨rest, hrest⟩ := parentOf_isStart name
    rw [← hrest, List.head?_append_of_ne_nil _ (parentOf_ne_nil hsep)]
    exact ih

theorem parentName_done {name : List UInt8} (h : Resolves name) (hroot : name ≠ kNeFSRoot) :
    parentName name = .done (parentOf name) := by
  cases h with
  | root => exact absurd rfl hroot
  | child h0 _ hlen hsep _ => rw [parentName_eq h0, if_pos ⟨hlen, hsep⟩]

theorem parent {name : List UInt8} (h : Resolves name) (hroot : name ≠ kNeFSRoot) :
    Resolves (parentOf name) := by
  cases h with
  | root => exact absurd rfl hroot
  | child _ _ _ _ hparent => exact hparent

end Resolves

/-- An absolute name without empty component, within the lengths the buffers allow. -/
structure ValidName (name : List UInt8) : Prop where
  noNul : 0 ∉ name
  absolute : name.head? = some kNeFSSeparator
  noEmpty : ¬ [kNeFSSeparator, kNeFSSeparator] <:+: name
  minLength : 3 ≤ name.length
  maxLength : name.length < kNeFSNodeNameLen

theorem ValidName.ne_root {name : List UInt8} (h : ValidName name) : name ≠ kNeFSRoot := by
  intro h
  subst h
  exact absurd h.minLength (by decide)

theorem ValidName.separator_mem {name : List UInt8} (h : ValidName name) :
    kNeFSSeparator ∈ name.take (name.length - 2) := by
  have hl := h.minLength
  have ha := h.absolute
  cases name with
  | nil => simp at hl
  | cons c rest =>
    simp only [List.head?_cons, Option.some.injEq] at ha
    subst ha
    rw [show (kNeFSSeparator :: rest).length - 2 = (rest.length - 2) + 1 by
      simp only [List.length_cons] at hl ⊢; omega, List.take_succ_cons]
    exact List.mem_cons_self

/-- The induction is on the length: a parent of two characters would be an empty component. -/
theorem ValidName.resolves {name : List UInt8} (h : ValidName name) : Resolves name := by
  induction hn : name.length using Nat.strong_induction_on generalizing name with
  | h n ih =>
    subst hn
    have hsep := h.separator_mem
    have hne := parentOf_ne_nil hsep
    have hpre := parentOf_isStart name
    have hlt : (parentOf name).length < name.length := by
      have hle := parentOf_length_le name
      have hmin := h.minLength
      omega
    have hhead : (parentOf name).head? = some kNeFSSeparator := by
      obtain ⟨rest, hrest⟩ := hpre
      have ha := h.absolute
      rwa [← hrest, List.head?_append_of_ne_nil _ hne] at ha
    have hlast := parentOf_getLast hne
    refine .child h.noNul ?_ h.maxLength hsep ?_
    · intro hroot
      have hmin := h.minLength
      rw [hroot] at hmin
      simp [kNeFSRoot] at hmin
    rcases Nat.lt_or_ge (parentOf name).length 3 with hshort | hlong
    · obtain ⟨c, rest, hcr⟩ := List.exists_cons_of_ne_nil hne
      rw [hcr, List.head?_cons, Option.some.injEq] at hhead
      subst hhead
      cases rest with
      | nil =>
        rw [hcr]
        exact .root
      | cons d rest =>
        have hrest : rest = [] := by
          rw [hcr] at hshort
          simp only [List.length_cons] at hshort
          exact List.length_eq_zero_iff.mp (by omega)
        subst hrest
        have hd : d = kNeFSSeparator := by simpa [hcr] using hlast
        subst hd
        exact absurd (hcr ▸ hpre.isInfix) h.noEmpty
    · exact ih _ hlt
        { noNul := zero_notMem_parentOf h.noNul
          absolute := hhead
          noEmpty := fun hi => h.noEmpty (hi.trans hpre.isInfix)
          minLength := hlong
          maxLength := hlt.trans h.maxLength } rfl

end Zka.FSKit
