import Mathlib

/-!
# Finite runs

A system is given by what one operation can do to a state.  A run takes finitely
many operations, each allowed in the state it starts from.
-/

namespace Zka

variable {σ α : Type}

/-- One step whose operation is allowed. -/
def Guarded (step : σ → α → σ → Prop) (allowed : σ → α → Prop) (s t : σ) : Prop :=
  ∃ a, allowed s a ∧ step s a t

/-- A finite run of allowed operations leads from `s` to `t`. -/
abbrev Reaches (step : σ → α → σ → Prop) (allowed : σ → α → Prop) : σ → σ → Prop :=
  Relation.ReflTransGen (Guarded step allowed)

namespace Reaches

variable {step : σ → α → σ → Prop} {allowed : σ → α → Prop} {s t : σ}

/-- What every allowed operation keeps holds in every state a run reaches. -/
theorem invariant (Inv : σ → Prop) (hstart : Inv s)
    (hstep : ∀ x a y, Inv x → allowed x a → step x a y → Inv y)
    (h : Reaches step allowed s t) : Inv t := by
  induction h with
  | refl => exact hstart
  | tail _ hlast ih =>
    obtain ⟨a, ha, hs⟩ := hlast
    exact hstep _ a _ ih ha hs

theorem one {a : α} (ha : allowed s a) (hs : step s a t) : Reaches step allowed s t :=
  Relation.ReflTransGen.single ⟨a, ha, hs⟩

/-- A run under a condition is a run under every weaker one. -/
theorem weaken {allowed' : σ → α → Prop} (hle : ∀ s a, allowed s a → allowed' s a)
    (h : Reaches step allowed s t) : Reaches step allowed' s t := by
  induction h with
  | refl => exact .refl
  | tail _ hlast ih =>
    obtain ⟨a, ha, hs⟩ := hlast
    exact ih.tail ⟨a, hle _ a ha, hs⟩

end Reaches

/-- The operations of the list meet `P` one after the other, each in the state it starts from. -/
def Along (next : σ → α → σ) (P : σ → α → Prop) : σ → List α → Prop
  | _, [] => True
  | s, a :: rest => P s a ∧ Along next P (next s a) rest

theorem along_congr {next : σ → α → σ} {P Q : σ → α → Prop} (h : ∀ s a, P s a ↔ Q s a) (s : σ)
    (l : List α) : Along next P s l ↔ Along next Q s l := by
  induction l generalizing s with
  | nil => exact Iff.rfl
  | cons a rest ih => exact and_congr (h s a) (ih (next s a))

/-- A condition that implies another where an invariant holds, which it keeps. -/
theorem along_of_invariant {next : σ → α → σ} {P Q : σ → α → Prop} {Inv : σ → Prop}
    (himp : ∀ s a, Inv s → Q s a → P s a) (hkeep : ∀ s a, Inv s → Q s a → Inv (next s a)) {s : σ}
    (hs : Inv s) {l : List α} (h : Along next Q s l) : Along next P s l := by
  induction l generalizing s with
  | nil => trivial
  | cons a rest ih => exact ⟨himp s a hs h.1, ih (hkeep s a hs h.1) h.2⟩

/-- Conditions that agree where an invariant holds, which the operations keep. -/
theorem along_iff_of_invariant {next : σ → α → σ} {P Q : σ → α → Prop} {Inv : σ → Prop}
    (hiff : ∀ s a, Inv s → (P s a ↔ Q s a)) (hkeep : ∀ s a, Inv s → Q s a → Inv (next s a)) {s : σ}
    (hs : Inv s) (l : List α) : Along next P s l ↔ Along next Q s l := by
  induction l generalizing s with
  | nil => exact Iff.rfl
  | cons a rest ih =>
    rw [Along, Along, hiff s a hs]
    exact and_congr_right fun ha => ih (hkeep s a hs ha)

end Zka
