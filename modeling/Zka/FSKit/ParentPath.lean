import Zka.FSKit.ParentName
import Zka.Framework.Words

/-!
# The parent that is meant

The directory of a path, and for which paths the backward scan finds it.
-/

namespace Zka.FSKit

open NewKit

section Parent

variable (name : List UInt8)

/-- A path without one separator at its end. -/
def untrailed : List UInt8 := if name.getLast? = some kNeFSSeparator then name.dropLast else name

/-- The longest start of a path, but the path itself, that ends in a separator; one separator at
the end of the path does not count. -/
def IsParent (parent : List UInt8) : Prop :=
  IsLongest (fun word (_ : Unit) => word.getLast? = some kNeFSSeparator ∧ word ≠ untrailed name)
    (untrailed name) parent ()

/-- The scan stays in the array and leaves the parent there. -/
def ParentFound : Prop := ∃ parent, parentName name = .done parent ∧ IsParent name parent

/-- The last component has two characters or more, or stands before a separator. -/
def LongLast : Prop :=
  3 ≤ name.length ∧ (name.getLast? = some kNeFSSeparator ∨
    name.dropLast.getLast? ≠ some kNeFSSeparator)

instance : Decidable (LongLast name) := inferInstanceAs (Decidable (_ ∧ (_ ∨ _)))

end Parent

variable {name : List UInt8}

theorem rdropWhile_length_ge {l word : List UInt8} (hstart : word <+: l)
    (hlast : word.getLast? = some kNeFSSeparator) :
    word.length ≤ (l.rdropWhile (· ≠ kNeFSSeparator)).length := by
  induction l using List.reverseRecOn with
  | nil => exact hstart.length_le
  | append_singleton l c ih =>
    by_cases hc : c = kNeFSSeparator
    · rw [List.rdropWhile_concat_neg _ _ _ (by simp [hc])]
      exact hstart.length_le
    · rw [List.rdropWhile_concat_pos _ _ _ (by simpa using hc)]
      rcases List.prefix_concat_iff.mp hstart with rfl | hstart
      · rw [List.getLast?_concat] at hlast
        exact absurd (Option.some.inj hlast) hc
      · exact ih hstart

/-- The scan finds the longest start of what it has not dropped. -/
theorem parentOf_isLongest (h : kNeFSSeparator ∈ name.take (name.length - 2)) :
    IsLongest (fun word (_ : Unit) => word.getLast? = some kNeFSSeparator)
      (name.take (name.length - 2)) (parentOf name) () := by
  refine ⟨List.rdropWhile_prefix _ _, ?_, ?_⟩
  · rw [List.getLast?_eq_some_getLast (parentOf_ne_nil h), parentOf_getLast (parentOf_ne_nil h)]
  · exact fun word _ => rdropWhile_length_ge

/-- But the path itself: the last character does not count. -/
theorem isParent_iff {t parent : List UInt8} {c : UInt8} (h : untrailed name = t ++ [c]) :
    IsParent name parent ↔
      IsLongest (fun word (_ : Unit) => word.getLast? = some kNeFSSeparator) t parent () := by
  have hproper : ∀ word : List UInt8, word <+: t ++ [c] ∧ word ≠ t ++ [c] ↔ word <+: t := by
    intro word
    rw [List.prefix_concat_iff]
    constructor
    · intro h
      rcases h with ⟨heq | hstart, hne⟩
      · exact absurd heq hne
      · exact hstart
    · intro hstart
      refine ⟨Or.inr hstart, ?_⟩
      intro h
      subst h
      have hle := hstart.length_le
      rw [List.length_append, List.length_singleton] at hle
      omega
  rw [IsParent, h]
  constructor
  · intro h
    rcases h with ⟨hstart, ⟨hlast, hne⟩, hlong⟩
    refine ⟨(hproper parent).mp ⟨hstart, hne⟩, hlast, ?_⟩
    intro word u hword hend
    obtain ⟨hstart', hne'⟩ := (hproper word).mpr hword
    exact hlong word u hstart' ⟨hend, hne'⟩
  · intro h
    rcases h with ⟨hstart, hlast, hlong⟩
    obtain ⟨hstart', hne'⟩ := (hproper parent).mpr hstart
    refine ⟨hstart', ⟨hlast, hne'⟩, ?_⟩
    intro word u hword h
    rcases h with ⟨hend, hne⟩
    exact hlong word u ((hproper word).mp ⟨hword, hne⟩) hend

/-- A last character that is no separator is in no start that ends in one. -/
theorem isLongest_concat {t parent : List UInt8} {c : UInt8} (hc : c ≠ kNeFSSeparator)
    (h : IsLongest (fun word (_ : Unit) => word.getLast? = some kNeFSSeparator) t parent ()) :
    IsLongest (fun word (_ : Unit) => word.getLast? = some kNeFSSeparator) (t ++ [c]) parent () := by
  refine ⟨h.isPrefix.trans (List.prefix_append t [c]), h.belongs, ?_⟩
  intro word u hword hend
  rcases List.prefix_concat_iff.mp hword with rfl | hword
  · rw [List.getLast?_concat] at hend
    exact absurd (Option.some.inj hend) hc
  · exact h.longest word u hword hend

/-- Of a path in whose front there is a separator, the scan finds the parent unless it has dropped
the separator in front of the last character. -/
theorem isParent_parentOf_iff {r : List UInt8} {c d : UInt8} (hmem : kNeFSSeparator ∈ r) :
    IsParent (r ++ [c, d]) (parentOf (r ++ [c, d])) ↔
      d = kNeFSSeparator ∨ c ≠ kNeFSSeparator := by
  have htake : (r ++ [c, d]).take ((r ++ [c, d]).length - 2) = r := by simp
  have hdrop : (r ++ [c, d]).dropLast = r ++ [c] := by simp
  have hlast : (r ++ [c, d]).getLast? = some d := by simp
  have hlong := @parentOf_isLongest (r ++ [c, d]) (by rwa [htake])
  rw [htake] at hlong
  by_cases hd : d = kNeFSSeparator
  · have hun : untrailed (r ++ [c, d]) = r ++ [c] := by
      rw [untrailed, hlast, if_pos (congrArg some hd), hdrop]
    rw [isParent_iff hun]
    exact iff_of_true hlong (Or.inl hd)
  · have hun : untrailed (r ++ [c, d]) = (r ++ [c]) ++ [d] := by
      rw [untrailed, hlast, if_neg fun h => hd (Option.some.inj h), List.append_assoc]
      rfl
    rw [isParent_iff hun, or_iff_right hd]
    constructor
    · intro hparent hc
      subst hc
      have hle := hparent.longest (r ++ [kNeFSSeparator]) () List.prefix_rfl
        List.getLast?_concat
      have hstart := hlong.isPrefix.length_le
      rw [List.length_append, List.length_singleton] at hle
      omega
    · exact fun hc => isLongest_concat hc hlong

/-- The parent is found exactly where the last component is not a single character. -/
theorem parentFound_iff (h0 : 0 ∉ name) (habs : name.head? = some kNeFSSeparator)
    (hmin : 2 ≤ name.length) (hmax : name.length ≤ kNeFSNodeNameLen - 1) :
    ParentFound name ↔ LongLast name := by
  obtain ⟨r, c, d, rfl⟩ := eq_append_two hmin
  have htake : (r ++ [c, d]).take ((r ++ [c, d]).length - 2) = r := by simp
  have hdrop : (r ++ [c, d]).dropLast = r ++ [c] := by simp
  have hlast : (r ++ [c, d]).getLast? = some d := by simp
  have hlt : (r ++ [c, d]).length < kNeFSNodeNameLen := by
    have hpos : 0 < kNeFSNodeNameLen := by decide
    omega
  -- an absolute path has a separator in front of its last two characters if it is any longer
  have hsep : kNeFSSeparator ∈ r ↔ 3 ≤ (r ++ [c, d]).length := by
    cases r with
    | nil => simp
    | cons a r =>
      rw [List.cons_append, List.head?_cons, Option.some.injEq] at habs
      subst habs
      simp
  rw [ParentFound, LongLast, parentName_eq h0, htake, hdrop, hlast, List.getLast?_concat,
    ← hsep]
  by_cases hmem : kNeFSSeparator ∈ r
  · rw [if_pos ⟨hlt, hmem⟩, and_iff_right hmem]
    simpa using isParent_parentOf_iff (c := c) (d := d) hmem
  · rw [if_neg fun h => hmem h.2]
    simp [hmem]

/-- `"/d/xy"`, in the directory `"/d/"`. -/
theorem parentFound_long : ParentFound [47, 100, 47, 120, 121] :=
  (parentFound_iff (by decide) rfl (by decide) (by decide)).mpr (by decide)

/-- The parent of `"/d/x"` is taken to be the root. -/
theorem parentFound_short : ¬ ParentFound [47, 100, 47, 120] := by
  intro h
  rcases h with ⟨parent, hscan, hparent⟩
  have hroot : parentName [47, 100, 47, 120] = .done [47] := by decide
  obtain rfl := Outcome.done.inj (hroot.symm.trans hscan)
  have hle := hparent.longest [47, 100, 47] () (by decide) (by decide)
  exact absurd hle (by decide)

end Zka.FSKit
