import Zka.Framework.Store

/-!
# Frames

What a program leaves alone: it changes a store only in some extents.  The
extents of consecutive programs are put together, and a value read from an extent
that is apart from them all is what it was.
-/

namespace Zka

theorem Extent.mem_addresses {e : Extent} {x : Nat} :
    x ∈ e.addresses ↔ e.start ≤ x ∧ x < e.start + e.size := Iff.rfl

namespace Store

variable {α : Type} {n : Nat} {s t u : Store} {es fs : List Extent}

/-- Every byte outside the extents is as it was. -/
def ChangesOnly (es : List Extent) (s t : Store) : Prop :=
  ∀ x, (∀ e ∈ es, x ∉ e.addresses) → t x = s x

namespace ChangesOnly

theorem refl (s : Store) : ChangesOnly [] s s := fun _ _ => rfl

theorem trans (h : ChangesOnly es s t) (h' : ChangesOnly fs t u) : ChangesOnly (es ++ fs) s u := by
  intro x hx
  rw [h' x fun f hf => hx f (List.mem_append_right es hf)]
  exact h x fun e he => hx e (List.mem_append_left fs he)

theorem mono (h : ChangesOnly es s t) (hsub : ∀ e ∈ es, ∃ f ∈ fs, e.Inside f) :
    ChangesOnly fs s t := by
  intro x hx
  apply h
  intro e he hmem
  obtain ⟨f, hf, hin⟩ := hsub e he
  exact hx f hf (hin hmem)

theorem write (s : Store) (a : Nat) (b : Bytes n) : ChangesOnly [⟨a, n⟩] s (s.write a b) := by
  intro x hx
  have hout := hx ⟨a, n⟩ (List.mem_singleton_self _)
  rw [Extent.mem_addresses] at hout
  dsimp only at hout
  exact write_outside s b (by omega)

theorem put (layout : Layout α n) (s : Store) (a : Nat) (v : α) :
    ChangesOnly [⟨a, n⟩] s (Store.put layout s a v) :=
  write s a _

theorem read (h : ChangesOnly es s t) {a : Nat} (hap : ∀ e ∈ es, Extent.Apart ⟨a, n⟩ e) :
    t.read a n = s.read a n := by
  funext i
  apply h
  intro e he hmem
  have hin : a + i ∈ Extent.addresses ⟨a, n⟩ := ⟨Nat.le_add_right a i, by simp⟩
  exact Set.disjoint_left.mp (hap e he) hin hmem

theorem get (h : ChangesOnly es s t) (layout : Layout α n) {a : Nat}
    (hap : ∀ e ∈ es, Extent.Apart ⟨a, n⟩ e) : Store.get layout t a = Store.get layout s a := by
  rw [Store.get, Store.get, h.read hap]

end ChangesOnly

end Store

end Zka
