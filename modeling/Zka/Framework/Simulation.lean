import Zka.Framework.Run

/-!
# Simulation

A trace is a run with the list of the events it shows.  A relation between the
states of two systems that every event keeps carries the traces of the one over to
the other.
-/

namespace Zka

variable {σ τ α : Type}

/-- A finite run, and the events of its steps. -/
inductive Trace (step : σ → α → σ → Prop) : σ → List α → σ → Prop
  | nil (s : σ) : Trace step s [] s
  | cons {s t u : σ} {a : α} {events : List α} (h : step s a t) (rest : Trace step t events u) :
      Trace step s (a :: events) u

namespace Trace

variable {step : σ → α → σ → Prop} {s t u : σ} {events more : List α}

theorem append_iff : Trace step s (events ++ more) u ↔
    ∃ t, Trace step s events t ∧ Trace step t more u := by
  induction events generalizing s with
  | nil =>
    constructor
    · intro h
      exact ⟨s, .nil s, h⟩
    · intro h
      obtain ⟨t, hnil, h⟩ := h
      cases hnil
      exact h
  | cons a events ih =>
    constructor
    · intro h
      cases h with
      | cons hstep hrest =>
        obtain ⟨t, hfirst, hlast⟩ := ih.mp hrest
        exact ⟨t, .cons hstep hfirst, hlast⟩
    · intro h
      obtain ⟨t, hfirst, hlast⟩ := h
      cases hfirst with
      | cons hstep hrest => exact .cons hstep (ih.mpr ⟨t, hrest, hlast⟩)

theorem singleton_iff {a : α} : Trace step s [a] t ↔ step s a t := by
  constructor
  · intro h
    cases h with
    | cons hstep hrest =>
      cases hrest
      exact hstep
  · exact fun h => .cons h (.nil t)

/-- What each event keeps holds at the end of a trace. -/
theorem invariant (Inv : σ → Prop) (hstep : ∀ x a y, Inv x → step x a y → Inv y)
    (h : Trace step s events t) (hstart : Inv s) : Inv t := by
  induction h with
  | nil s => exact hstart
  | cons h _ ih => exact ih (hstep _ _ _ hstart h)

/-- What each of the events of a trace keeps holds at its end. -/
theorem invariant_of_mem (Inv : σ → Prop)
    (hstep : ∀ x a y, a ∈ events → Inv x → step x a y → Inv y)
    (h : Trace step s events t) (hstart : Inv s) : Inv t := by
  induction h with
  | nil s => exact hstart
  | cons h _ ih =>
    refine ih ?_ (hstep _ _ _ List.mem_cons_self hstart h)
    intro x a y ha
    exact hstep x a y (List.mem_cons_of_mem _ ha)

/-- What holds of a state together with the events that led to it. -/
theorem history (Inv : List α → σ → Prop)
    (hstep : ∀ past x a y, Inv past x → step x a y → Inv (past ++ [a]) y)
    (h : Trace step s events t) (hstart : Inv [] s) : Inv events t := by
  have hfrom : ∀ past, Inv past s → Inv (past ++ events) t := by
    clear hstart
    induction h with
    | nil s =>
      intro past hpast
      rwa [List.append_nil]
    | @cons s t u a events hs _ ih =>
      intro past hpast
      rw [← List.singleton_append, ← List.append_assoc]
      exact ih _ (hstep _ _ _ _ hpast hs)
  exact hfrom [] hstart

/-- Every trace of the first system is one of the second, and ends in a related state. -/
theorem simulate (step' : τ → α → τ → Prop) (R : σ → τ → Prop)
    (hstep : ∀ x y a x', R x y → step x a x' → ∃ y', step' y a y' ∧ R x' y')
    (h : Trace step s events t) {y : τ} (hstart : R s y) :
    ∃ y', Trace step' y events y' ∧ R t y' := by
  induction h generalizing y with
  | nil s => exact ⟨y, .nil y, hstart⟩
  | cons h _ ih =>
    obtain ⟨y₁, hone, hR⟩ := hstep _ _ _ _ hstart h
    obtain ⟨y₂, hrest, hend⟩ := ih hR
    exact ⟨y₂, .cons hone hrest, hend⟩

end Trace

end Zka
