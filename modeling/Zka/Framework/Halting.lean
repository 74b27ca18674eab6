import Zka.Framework.Outcome

/-!
# Halting

A program with fuel stops if it is not running at some fuel.  A loop that follows links
stops exactly when the links from its start do not lead around in a circle.
-/

namespace Zka

open Relation

variable {α β ε σ ρ : Type}

/-! ## Links -/

/-- The link from one place to the next. -/
def Linked (next : α → Option α) (a b : α) : Prop := next a = some b

/-- No place that the links from `a` lead to is led back to. -/
def NoCircle (next : α → Option α) (a : α) : Prop :=
  ∀ b, ReflTransGen (Linked next) a b → ¬ TransGen (Linked next) b b

section Links

variable {next : α → Option α} {a b c : α}

theorem linked_unique (hb : Linked next a b) (hc : Linked next a c) : b = c :=
  Option.some.inj (hb.symm.trans hc)

theorem not_linked_circle (h : next a = none) : ¬ TransGen (Linked next) a a := by
  intro hcircle
  obtain ⟨b, hb, _⟩ := TransGen.head'_iff.mp hcircle
  exact nomatch h.symm.trans hb

/-- A walk that begins at its end. -/
theorem noCircle_of_end (h : next a = none) : NoCircle next a := by
  intro b hb
  rcases hb.cases_head with rfl | ⟨c, hc, _⟩
  · exact not_linked_circle h
  · exact nomatch h.symm.trans hc

/-- No circle leads to an end. -/
theorem no_circle_before_end (h : ReflTransGen (Linked next) a b) (hend : next b = none) :
    ¬ TransGen (Linked next) a a := by
  induction h using ReflTransGen.head_induction_on with
  | refl => exact not_linked_circle hend
  | head hstep _ ih =>
    intro hcircle
    obtain ⟨d, hd, hback⟩ := TransGen.head'_iff.mp hcircle
    obtain rfl := linked_unique hstep hd
    exact ih (TransGen.tail'_iff.mpr ⟨_, hback, hstep⟩)

/-- Among finitely many places, the links come to an end exactly when they do not run into a
circle. -/
theorem exists_end_iff [Finite α] :
    (∃ b, ReflTransGen (Linked next) a b ∧ next b = none) ↔ NoCircle next a := by
  constructor
  · intro h c hc
    rcases h with ⟨b, hb, hend⟩
    have hunique : Relator.RightUnique (Linked next) := fun _ _ _ => linked_unique
    rcases ReflTransGen.total_of_right_unique hunique hb hc with h | h
    · exact noCircle_of_end hend c h
    · exact no_circle_before_end h hend
  · intro h
    let Later : {b // ReflTransGen (Linked next) a b} → {b // ReflTransGen (Linked next) a b} →
      Prop := fun x y => TransGen (Linked next) y.val x.val
    have : Std.Irrefl Later := ⟨fun x => h x.val x.property⟩
    have : IsTrans _ Later := ⟨fun _ _ _ hxy hyz => hyz.trans hxy⟩
    have hwf : WellFounded Later := Finite.wellFounded_of_trans_of_irrefl Later
    obtain ⟨⟨last, hlast⟩, _, hmin⟩ := hwf.has_min Set.univ ⟨⟨a, .refl⟩, trivial⟩
    refine ⟨last, hlast, ?_⟩
    cases hnext : next last with
    | none => rfl
    | some b =>
      have hlink : Linked next last b := hnext
      exact absurd (TransGen.single hlink) (hmin ⟨b, hlast.tail hlink⟩ trivial)

end Links

/-! ## Programs with fuel -/

namespace Outcome

@[simp]
theorem done_ne_running (a : α) : (done a : Outcome ε α) ≠ running := nofun

@[simp]
theorem fault_ne_running (e : ε) : (fault e : Outcome ε α) ≠ running := nofun

/-- The program returns or faults. -/
def Stops (f : Nat → Outcome ε α) : Prop := ∃ fuel, f fuel ≠ running

theorem Yields.stops {f : Nat → Outcome ε α} {a : α} (h : Yields f a) : Stops f := by
  obtain ⟨fuel, hfuel⟩ := h
  exact ⟨fuel, by simp [hfuel]⟩

/-- Fuel that a program does not count from zero. -/
theorem stops_succ_iff {f : Nat → Outcome ε α} (h0 : f 0 = running) :
    Stops f ↔ Stops fun fuel => f (fuel + 1) := by
  constructor
  · intro h
    rcases h with ⟨fuel, h⟩
    cases fuel with
    | zero => exact absurd h0 h
    | succ fuel => exact ⟨fuel, h⟩
  · intro h
    rcases h with ⟨fuel, h⟩
    exact ⟨fuel + 1, h⟩

/-- Two programs one after the other. -/
theorem stops_bind_iff {f : Nat → Outcome ε α} {g : Nat → α → Outcome ε β} (hf : Monotone f)
    (hg : ∀ a, Monotone fun fuel => g fuel a) :
    Stops (fun fuel => f fuel >>= g fuel) ↔
      Stops f ∧ ∀ a, Yields f a → Stops fun fuel => g fuel a := by
  constructor
  · intro h
    rcases h with ⟨fuel, h⟩
    dsimp only at h
    cases hx : f fuel with
    | running => simp [hx] at h
    | fault e =>
      refine ⟨⟨fuel, by simp [hx]⟩, ?_⟩
      exact fun a ha => absurd ha (Yields.not_of_fault hf hx)
    | done a =>
      refine ⟨⟨fuel, by simp [hx]⟩, ?_⟩
      intro b hb
      obtain rfl := hb.unique hf ⟨fuel, hx⟩
      exact ⟨fuel, by simpa [hx] using h⟩
  · intro h
    rcases h with ⟨⟨fuel, h⟩, hrest⟩
    cases hx : f fuel with
    | running => exact absurd hx h
    | fault e => exact ⟨fuel, by simp [hx]⟩
    | done a =>
      obtain ⟨fuel', h'⟩ := hrest a ⟨fuel, hx⟩
      refine ⟨max fuel fuel', ?_⟩
      have hfirst := hf (le_max_left fuel fuel')
      rw [hx, done_le] at hfirst
      dsimp only
      rw [hfirst, done_bind]
      intro hrun
      have hle := hg a (le_max_right fuel fuel')
      dsimp only at hle
      rw [hrun] at hle
      rcases hle with hle | hle
      · exact h' hle
      · exact h' hle

/-- A program behind which nothing runs. -/
theorem stops_bind_const_iff {f : Nat → Outcome ε α} {g : α → Outcome ε β} (hf : Monotone f)
    (hg : ∀ a, g a ≠ running) : Stops (fun fuel => f fuel >>= g) ↔ Stops f := by
  have hbind := stops_bind_iff hf (g := fun _ => g) fun _ _ _ _ => le_refl _
  rw [hbind]
  exact and_iff_left fun a _ => ⟨0, hg a⟩

/-- A loop stops exactly when it comes to a state that its body does not go on from. -/
theorem stops_whileLoop {body : σ → Outcome ε (σ ⊕ ρ)} (hrun : ∀ s, body s ≠ running) {s : σ} :
    Stops (fun fuel => whileLoop body fuel s) ↔
      ∃ t, ReflTransGen (fun s s' => body s = done (.inl s')) s t ∧
        ∀ s', body t ≠ done (.inl s') := by
  constructor
  · intro h
    rcases h with ⟨fuel, h⟩
    induction fuel generalizing s with
    | zero => exact absurd rfl h
    | succ fuel ih =>
      by_cases hgo : ∃ s', body s = done (.inl s')
      · obtain ⟨s', hs'⟩ := hgo
        dsimp only at h
        rw [whileLoop_continue hs'] at h
        obtain ⟨t, hwalk, hlast⟩ := ih h
        exact ⟨t, hwalk.head hs', hlast⟩
      · exact ⟨s, .refl, not_exists.mp hgo⟩
  · intro h
    rcases h with ⟨t, hwalk, hlast⟩
    induction hwalk using ReflTransGen.head_induction_on with
    | refl =>
      refine ⟨1, ?_⟩
      dsimp only
      cases hb : body t with
      | running => exact absurd hb (hrun t)
      | fault e => simp [whileLoop_fault hb]
      | done r =>
        cases r with
        | inl s' => exact absurd hb (hlast s')
        | inr r => simp [whileLoop_exit hb]
    | head hb _ ih =>
      obtain ⟨fuel, h⟩ := ih
      refine ⟨fuel + 1, ?_⟩
      dsimp only
      rw [whileLoop_continue hb]
      exact h

/-- A loop that goes on exactly where there is a link, to the place it leads to, stops exactly
when the links do not run into a circle. -/
theorem stops_whileLoop_iff [Finite α] {body : σ → Outcome ε (σ ⊕ ρ)} {place : σ → α}
    {next : α → Option α}
    (hbody : ∀ s, ∃ out, body s = done out ∧ next (place s) = out.getLeft?.map place) {s : σ} :
    Stops (fun fuel => whileLoop body fuel s) ↔ NoCircle next (place s) := by
  have hrun : ∀ s, body s ≠ running := by
    intro s
    obtain ⟨out, hout, _⟩ := hbody s
    simp [hout]
  have hgo : ∀ {s s'}, body s = done (.inl s') → Linked next (place s) (place s') := by
    intro s s' hs
    obtain ⟨out, hout, hnext⟩ := hbody s
    obtain rfl := done.inj (hout.symm.trans hs)
    exact hnext
  have hend : ∀ {s}, (∀ s', body s ≠ done (.inl s')) ↔ next (place s) = none := by
    intro s
    obtain ⟨out, hout, hnext⟩ := hbody s
    rw [hnext, hout]
    cases out <;> simp
  rw [stops_whileLoop hrun, ← exists_end_iff]
  constructor
  · intro h
    rcases h with ⟨t, hwalk, hlast⟩
    exact ⟨place t, hwalk.lift place fun _ _ => hgo, hend.mp hlast⟩
  · intro h
    rcases h with ⟨b, hwalk, hlast⟩
    generalize ha : place s = a at hwalk
    induction hwalk using ReflTransGen.head_induction_on generalizing s with
    | refl => exact ⟨s, .refl, hend.mpr (ha ▸ hlast)⟩
    | head hstep _ ih =>
      by_cases hcont : ∃ s', body s = done (.inl s')
      · obtain ⟨s', hs'⟩ := hcont
        obtain ⟨t, hwalk, hlast'⟩ := ih (linked_unique (ha ▸ hgo hs') hstep)
        exact ⟨t, hwalk.head hs', hlast'⟩
      · have hnone := hend.mp (not_exists.mp hcont)
        rw [ha, hstep] at hnone
        cases hnone

end Outcome

end Zka
