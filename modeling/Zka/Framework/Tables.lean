import Mathlib

/-!
# Tables filled by a loop

A loop that stores some of the elements it goes over, each under a key of its own.  Under
every key the table holds the last element that was stored there.
-/

namespace Zka

variable {α β κ : Type} [DecidableEq κ]

/-- The table after the elements of a list, of which those that hit are stored. -/
def fillTable (key : α → κ) (hit : α → Bool) (value : α → β) (table : κ → Option β) (l : List α) :
    κ → Option β :=
  l.foldl (fun table a => if hit a then Function.update table (key a) (some (value a)) else table)
    table

variable {key : α → κ} {hit : α → Bool} {value : α → β} {table : κ → Option β} {l : List α}

theorem fillTable_concat (a : α) :
    fillTable key hit value table (l ++ [a]) =
      if hit a then Function.update (fillTable key hit value table l) (key a) (some (value a))
      else fillTable key hit value table l := by
  simp [fillTable]

/-- A key under which nothing is stored keeps what it has. -/
theorem fillTable_of_none {k : κ} (h : ∀ a ∈ l, hit a → key a ≠ k) :
    fillTable key hit value table l k = table k := by
  induction l using List.reverseRecOn with
  | nil => rfl
  | append_singleton l a ih =>
    have hbefore := ih fun b hb => h b (List.mem_append_left [a] hb)
    rw [fillTable_concat]
    split
    case isTrue hhit =>
      have hne : key a ≠ k := h a (by simp) hhit
      rw [Function.update_of_ne hne.symm, hbefore]
    case isFalse => exact hbefore

/-- In a list in order, what a key holds is stored by the last element for it. -/
theorem fillTable_last {R : α → α → Prop} (horder : l.Pairwise R) {k : κ}
    (h : ∃ a ∈ l, hit a ∧ key a = k) :
    ∃ a ∈ l, hit a ∧ key a = k ∧ fillTable key hit value table l k = some (value a) ∧
      ∀ b ∈ l, hit b → key b = k → b = a ∨ R b a := by
  induction l using List.reverseRecOn with
  | nil =>
    obtain ⟨a, ha, _⟩ := h
    cases ha
  | append_singleton l a ih =>
    rw [List.pairwise_append] at horder
    have hbehind : ∀ b ∈ l, R b a := fun b hb => horder.2.2 b hb a (List.mem_singleton_self a)
    by_cases hhere : hit a ∧ key a = k
    · refine ⟨a, by simp, hhere.1, hhere.2, ?_, ?_⟩
      · rw [fillTable_concat, if_pos hhere.1, ← hhere.2, Function.update_self]
      · intro b hb _ _
        rcases List.mem_append.mp hb with hb | hb
        · exact Or.inr (hbehind b hb)
        · exact Or.inl (List.mem_singleton.mp hb)
    · have hmem : ∀ b ∈ l ++ [a], hit b → key b = k → b ∈ l := by
        intro b hb hhit hkey
        rcases List.mem_append.mp hb with hb | hb
        · exact hb
        · rw [List.mem_singleton.mp hb] at hhit hkey
          exact absurd ⟨hhit, hkey⟩ hhere
      obtain ⟨c, hc, hhit, hkey⟩ := h
      obtain ⟨b, hb, hbhit, hbkey, hvalue, hlast⟩ :=
        ih horder.1 ⟨c, hmem c hc hhit hkey, hhit, hkey⟩
      refine ⟨b, List.mem_append_left [a] hb, hbhit, hbkey, ?_, ?_⟩
      · rw [fillTable_concat]
        split
        case isTrue hahit =>
          have hne : k ≠ key a := fun heq => hhere ⟨hahit, heq.symm⟩
          rw [Function.update_of_ne hne, hvalue]
        case isFalse => exact hvalue
      · intro d hd hdhit hdkey
        exact hlast d (hmem d hd hdhit hdkey) hdhit hdkey

end Zka
