import Zka.Framework.Store

/-!
# Pictures in memory

Loops over the values of a counter, and the values that they put into a store, each at an address
of one grid.
-/

namespace Zka

/-- The values of a counter that is raised from `lo` on as long as it is below `hi`. -/
def counts (lo hi : UInt64) : List UInt64 :=
  (List.range (hi.toNat - lo.toNat)).map fun k => lo + UInt64.ofNat k

/-- `for (i = lo; i < hi; ++i)`. -/
def forRange {σ : Type} (lo hi : UInt64) (body : UInt64 → σ → σ) (s : σ) : σ :=
  (counts lo hi).foldl (fun s i => body i s) s

theorem mem_counts {lo hi i : UInt64} : i ∈ counts lo hi ↔ lo ≤ i ∧ i < hi := by
  have hlo := lo.toNat_lt
  have hhi := hi.toNat_lt
  simp only [counts, List.mem_map, List.mem_range, UInt64.le_iff_toNat_le, UInt64.lt_iff_toNat_lt]
  constructor
  · rintro ⟨k, hk, rfl⟩
    have hsum : (lo + UInt64.ofNat k).toNat = lo.toNat + k := by
      rw [UInt64.toNat_add, UInt64.toNat_ofNat']
      omega
    omega
  · rintro ⟨hle, hlt⟩
    refine ⟨i.toNat - lo.toNat, by omega, ?_⟩
    rw [← UInt64.toNat_inj, UInt64.toNat_add, UInt64.toNat_ofNat']
    omega

theorem counts_of_le {lo hi : UInt64} (h : hi ≤ lo) : counts lo hi = [] := by
  rw [counts, Nat.sub_eq_zero_of_le (UInt64.le_iff_toNat_le.mp h)]
  rfl

theorem counts_one {lo : UInt64} (h : lo + 1 ≠ 0) : counts lo (lo + 1) = [lo] := by
  have hlo := lo.toNat_lt
  have hone : (1 : UInt64).toNat = 1 := rfl
  have hsum : (lo + 1).toNat = lo.toNat + 1 := by
    have hne : (lo + 1).toNat ≠ 0 := fun hzero => h (UInt64.toNat_inj.mp hzero)
    rw [UInt64.toNat_add, hone] at hne ⊢
    omega
  rw [counts, hsum, Nat.add_sub_cancel_left]
  simp

namespace Store

variable {α ι : Type} {n : Nat} (layout : Layout α n) (s : Store)

/-- The values put at their addresses, one after the other. -/
def paint (pixels : List (Nat × α)) : Store := pixels.foldl (fun s p => s.put layout p.1 p.2) s

theorem paint_append (pixels more : List (Nat × α)) :
    s.paint layout (pixels ++ more) = (s.paint layout pixels).paint layout more :=
  List.foldl_append

/-- A loop whose passes paint. -/
theorem foldl_paint {body : Store → ι → Store} {pixels : ι → List (Nat × α)} {l : List ι}
    (h : ∀ s, ∀ i ∈ l, body s i = s.paint layout (pixels i)) :
    l.foldl body s = s.paint layout (l.flatMap pixels) := by
  induction l generalizing s with
  | nil => rfl
  | cons i l ih =>
    rw [List.foldl_cons, List.flatMap_cons, paint_append, h s i List.mem_cons_self]
    exact ih _ fun s j hj => h s j (List.mem_cons_of_mem _ hj)

theorem forRange_paint {body : UInt64 → Store → Store} {pixels : UInt64 → List (Nat × α)}
    (h : ∀ i s, body i s = s.paint layout (pixels i)) (lo hi : UInt64) :
    forRange lo hi body s = s.paint layout ((counts lo hi).flatMap pixels) :=
  foldl_paint layout s fun s i _ => h i s

variable {layout s} {pixels : List (Nat × α)}

theorem paint_outside {x : Nat} (h : ∀ p ∈ pixels, x < p.1 ∨ p.1 + n ≤ x) :
    s.paint layout pixels x = s x := by
  induction pixels generalizing s with
  | nil => rfl
  | cons p pixels ih =>
    rw [paint, List.foldl_cons]
    refine (ih fun q hq => h q (List.mem_cons_of_mem _ hq)).trans ?_
    exact put_outside layout s p.2 (h p List.mem_cons_self)

/-- Every pixel is the one at `a`, or apart from it. -/
def OnGrid (n a : Nat) (pixels : List (Nat × α)) : Prop :=
  ∀ p ∈ pixels, p.1 = a ∨ a + n ≤ p.1 ∨ p.1 + n ≤ a

theorem get_paint_of_notMem {a : Nat} (hgrid : OnGrid n a pixels) (h : ∀ p ∈ pixels, p.1 ≠ a) :
    (s.paint layout pixels).get layout a = s.get layout a := by
  have hread : (s.paint layout pixels).read a n = s.read a n := by
    funext i
    refine paint_outside fun p hp => ?_
    rcases hgrid p hp with heq | hbefore | hbehind
    · exact absurd heq (h p hp)
    · exact .inl (by omega)
    · exact .inr (by omega)
  rw [get, get, hread]

/-- The last pixel at an address is what is found there. -/
theorem get_paint_append {a : Nat} {v : α} {more : List (Nat × α)} (hgrid : OnGrid n a more)
    (h : ∀ p ∈ more, p.1 ≠ a) :
    (s.paint layout (pixels ++ (a, v) :: more)).get layout a = v := by
  rw [paint_append, paint, List.foldl_cons]
  exact (get_paint_of_notMem hgrid h).trans (get_put_same ..)

theorem get_paint_of_mem {a : Nat} {v : α} (hgrid : OnGrid n a pixels) (hmem : (a, v) ∈ pixels)
    (h : ∀ p ∈ pixels, p.1 = a → p.2 = v) : (s.paint layout pixels).get layout a = v := by
  induction pixels using List.reverseRecOn with
  | nil => cases hmem
  | append_singleton pixels p ih =>
    by_cases heq : p.1 = a
    · have hp : p = (a, v) := Prod.ext heq (h p (by simp) heq)
      rw [hp]
      exact get_paint_append (by simp [OnGrid]) (by simp)
    · have hbefore : (a, v) ∈ pixels := by
        rcases List.mem_append.mp hmem with hin | hlast
        · exact hin
        · exact absurd (congrArg Prod.fst (List.mem_singleton.mp hlast)).symm heq
      rw [paint_append, get_paint_of_notMem]
      · exact ih (fun q hq => hgrid q (List.mem_append_left _ hq)) hbefore
          fun q hq => h q (List.mem_append_left _ hq)
      · exact fun q hq => hgrid q (List.mem_append_right _ hq)
      · intro q hq
        rwa [List.mem_singleton.mp hq]

end Store

end Zka
