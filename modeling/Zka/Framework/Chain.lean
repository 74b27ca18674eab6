import Mathlib

/-!
# Linked lists in memory

A memory maps addresses to nodes.  `Chain` says that the links from an address on
lead through the listed nodes to the null address.
-/

namespace Zka

variable {α ν : Type} {null : α} {next : ν → α} {mem mem' : α → Option ν}

/-- From address `a` the links lead through the listed nodes and end at `null`. -/
def Chain (null : α) (next : ν → α) (mem : α → Option ν) : α → List (α × ν) → Prop
  | a, [] => a = null
  | a, (b, n) :: rest => b = a ∧ a ≠ null ∧ mem a = some n ∧ Chain null next mem (next n) rest

namespace Chain

/-- The memory and the first address determine the nodes. -/
theorem unique {a : α} {l l' : List (α × ν)} (h : Chain null next mem a l)
    (h' : Chain null next mem a l') : l = l' := by
  induction l generalizing a l' with
  | nil =>
    cases l' with
    | nil => rfl
    | cons p rest => exact absurd h h'.2.1
  | cons p rest ih =>
    obtain ⟨b, n⟩ := p
    obtain ⟨rfl, hne, hn, hrest⟩ := h
    cases l' with
    | nil => exact absurd h' hne
    | cons q rest' =>
      obtain ⟨c, n'⟩ := q
      obtain ⟨rfl, _, hn', hrest'⟩ := h'
      have heq : n = n' := Option.some.inj (hn.symm.trans hn')
      subst heq
      rw [ih hrest hrest']

theorem tail_of_mem {a b : α} {n : ν} {l : List (α × ν)} (h : Chain null next mem a l)
    (hmem : (b, n) ∈ l) :
    ∃ rest, Chain null next mem b ((b, n) :: rest) ∧ rest.length < l.length := by
  induction l generalizing a with
  | nil => cases hmem
  | cons p rest ih =>
    obtain ⟨c, n'⟩ := p
    rcases List.mem_cons.mp hmem with heq | hmem
    · cases heq
      obtain ⟨rfl, hrest⟩ := h
      exact ⟨rest, ⟨rfl, hrest⟩, Nat.lt_succ_self _⟩
    · obtain ⟨rest', hrest', hlt⟩ := ih h.2.2.2 hmem
      exact ⟨rest', hrest', Nat.lt_succ_of_lt hlt⟩

/-- No address comes twice, since the links would lead around in a circle. -/
theorem nodup {a : α} {l : List (α × ν)} (h : Chain null next mem a l) :
    (l.map Prod.fst).Nodup := by
  induction l generalizing a with
  | nil => exact List.nodup_nil
  | cons p rest ih =>
    obtain ⟨b, n⟩ := p
    have hchain := h
    obtain ⟨rfl, _, hn, hrest⟩ := h
    refine List.nodup_cons.mpr ⟨?_, ih hrest⟩
    intro hmem
    obtain ⟨⟨c, n'⟩, hp, rfl⟩ := List.mem_map.mp hmem
    obtain ⟨rest', hrest', hlt⟩ := hrest.tail_of_mem hp
    have heq := congrArg List.length (hchain.unique hrest')
    simp only [List.length_cons] at heq
    omega

/-- A chain depends on its own nodes only. -/
theorem congr {a : α} {l : List (α × ν)} (h : Chain null next mem a l)
    (heq : ∀ p ∈ l, mem' p.1 = mem p.1) : Chain null next mem' a l := by
  induction l generalizing a with
  | nil => exact h
  | cons p rest ih =>
    obtain ⟨b, n⟩ := p
    obtain ⟨rfl, hne, hn, hrest⟩ := h
    refine ⟨rfl, hne, (heq _ List.mem_cons_self).trans hn, ih hrest ?_⟩
    exact fun q hq => heq q (List.mem_cons_of_mem _ hq)

/-- A chain does not lead through an address that holds no node. -/
theorem of_update_none [DecidableEq α] {a b : α} {l : List (α × ν)}
    (h : Chain null next (Function.update mem b none) a l) : Chain null next mem a l := by
  induction l generalizing a with
  | nil => exact h
  | cons p rest ih =>
    obtain ⟨c, n⟩ := p
    obtain ⟨rfl, hne, hn, hrest⟩ := h
    have hcb : c ≠ b := by
      intro h
      subst h
      rw [Function.update_self] at hn
      cases hn
    rw [Function.update_of_ne hcb] at hn
    exact ⟨rfl, hne, hn, ih hrest⟩

/-- The first node may be released when the walk is past it. -/
theorem update_head [DecidableEq α] {a : α} {n : ν} {v : Option ν} {rest : List (α × ν)}
    (h : Chain null next mem a ((a, n) :: rest)) :
    Chain null next (Function.update mem a v) (next n) rest := by
  have hnd := List.nodup_cons.mp h.nodup
  apply h.2.2.2.congr
  intro p hp
  apply Function.update_of_ne
  intro heq
  have hmem : p.1 ∈ rest.map Prod.fst := List.mem_map_of_mem hp
  rw [heq] at hmem
  exact hnd.1 hmem

end Chain

end Zka
