import Mathlib

/-!
# Fuel-bounded outcomes

Imperative code with unbounded loops is run with a fuel argument.  An outcome is
`running` while the fuel is not enough, `fault` when the code leaves its defined
behaviour, and `done` when it returns.  More fuel never changes an outcome that
is not `running`; this is the flat order, and programs are monotone in it.
-/

namespace Zka

/-- The ways in which the modelled C++ leaves its defined behaviour. -/
inductive CFault where
  | indexOutOfRange
  | nullDereference
  | useAfterFree
  | uninitialisedPointer
  deriving DecidableEq, Repr

/-- What a program run with bounded fuel shows. -/
inductive Outcome (ε α : Type) where
  | running
  | fault (e : ε)
  | done (a : α)
  deriving DecidableEq, Repr

namespace Outcome

variable {ε α β σ ρ : Type}

protected def bind (x : Outcome ε α) (f : α → Outcome ε β) : Outcome ε β :=
  match x with
  | running => running
  | fault e => fault e
  | done a => f a

instance : Monad (Outcome ε) where
  pure := done
  bind := Outcome.bind

@[simp] theorem pure_eq_done (a : α) : (pure a : Outcome ε α) = done a := rfl

@[simp] theorem done_bind (a : α) (f : α → Outcome ε β) : (done a >>= f) = f a := rfl

@[simp] theorem running_bind (f : α → Outcome ε β) : (running >>= f) = running := rfl

@[simp] theorem fault_bind (e : ε) (f : α → Outcome ε β) : (fault e >>= f) = fault e := rfl

/-- A sequence returns exactly when both of its parts do. -/
theorem bind_eq_done {x : Outcome ε α} {f : α → Outcome ε β} {b : β} :
    x >>= f = done b ↔ ∃ a, x = done a ∧ f a = done b := by
  cases x <;> simp

/-- The same program among others that have more ways to fault. -/
def mapFault {ε' : Type} (f : ε → ε') : Outcome ε α → Outcome ε' α
  | running => running
  | fault e => fault (f e)
  | done a => done a

@[simp] theorem mapFault_done {ε' : Type} (f : ε → ε') (a : α) :
    (done a : Outcome ε α).mapFault f = done a := rfl

theorem mapFault_eq_done {ε' : Type} {f : ε → ε'} {x : Outcome ε α} {a : α} :
    x.mapFault f = done a ↔ x = done a := by
  cases x <;> simp [mapFault]

instance : PartialOrder (Outcome ε α) where
  le x y := x = running ∨ x = y
  le_refl _ := Or.inr rfl
  le_trans := by
    intro x y z hxy hyz
    rcases hxy with rfl | rfl
    · exact Or.inl rfl
    · exact hyz
  le_antisymm := by
    intro x y hxy hyx
    rcases hxy with rfl | rfl
    · rcases hyx with h | h
      · exact h.symm
      · exact h.symm
    · rfl

theorem le_def {x y : Outcome ε α} : x ≤ y ↔ x = running ∨ x = y := Iff.rfl

@[simp] theorem running_le (x : Outcome ε α) : running ≤ x := Or.inl rfl

@[simp] theorem done_le {a : α} {x : Outcome ε α} : done a ≤ x ↔ x = done a := by
  simp [le_def, eq_comm]

@[simp] theorem fault_le {e : ε} {x : Outcome ε α} : fault e ≤ x ↔ x = fault e := by
  simp [le_def, eq_comm]

theorem bind_le_bind {x y : Outcome ε α} {f g : α → Outcome ε β} (hx : x ≤ y)
    (hf : ∀ a, f a ≤ g a) : x >>= f ≤ y >>= g := by
  rcases hx with rfl | rfl
  · exact running_le _
  · cases x with
    | running => exact running_le _
    | fault e => exact le_refl _
    | done a => exact hf a

/-- The program returns `a` once it is given enough fuel. -/
def Yields (f : Nat → Outcome ε α) (a : α) : Prop := ∃ fuel, f fuel = done a

theorem Yields.intro {f : Nat → Outcome ε α} {a : α} (fuel : Nat) (h : f fuel = done a) :
    Yields f a := ⟨fuel, h⟩

theorem Yields.eventually {f : Nat → Outcome ε α} {a : α} (hf : Monotone f) (h : Yields f a) :
    ∃ bound, ∀ fuel, bound ≤ fuel → f fuel = done a := by
  obtain ⟨bound, hb⟩ := h
  refine ⟨bound, fun fuel hle => ?_⟩
  have hm := hf hle
  rwa [hb, done_le] at hm

/-- A monotone program has one result. -/
theorem Yields.unique {f : Nat → Outcome ε α} {a b : α} (hf : Monotone f)
    (ha : Yields f a) (hb : Yields f b) : a = b := by
  obtain ⟨n, hn⟩ := ha.eventually hf
  obtain ⟨m, hm⟩ := hb.eventually hf
  have h := hn (max n m) (le_max_left _ _)
  rw [hm (max n m) (le_max_right _ _)] at h
  exact (done.inj h).symm

/-- A monotone program that faults does not return. -/
theorem Yields.not_of_fault {f : Nat → Outcome ε α} {a : α} {e : ε} (hf : Monotone f) {fuel : Nat}
    (h : f fuel = fault e) : ¬ Yields f a := by
  intro hy
  obtain ⟨bound, hb⟩ := hy.eventually hf
  have hle := hf (le_max_left fuel bound)
  rw [h, fault_le, hb _ (le_max_right fuel bound)] at hle
  cases hle

/-! ## Loops -/

/-- A loop whose body either goes on from a new state or leaves with a value. -/
def whileLoop (body : σ → Outcome ε (σ ⊕ ρ)) : Nat → σ → Outcome ε ρ
  | 0, _ => running
  | fuel + 1, s => body s >>= fun
    | .inl s' => whileLoop body fuel s'
    | .inr r => done r

theorem whileLoop_succ (body : σ → Outcome ε (σ ⊕ ρ)) (fuel : Nat) (s : σ) :
    whileLoop body (fuel + 1) s = body s >>= fun
      | .inl s' => whileLoop body fuel s'
      | .inr r => done r := rfl

theorem whileLoop_exit {body : σ → Outcome ε (σ ⊕ ρ)} {s : σ} {r : ρ}
    (h : body s = done (.inr r)) (fuel : Nat) : whileLoop body (fuel + 1) s = done r := by
  simp [whileLoop_succ, h]

theorem whileLoop_continue {body : σ → Outcome ε (σ ⊕ ρ)} {s s' : σ}
    (h : body s = done (.inl s')) (fuel : Nat) :
    whileLoop body (fuel + 1) s = whileLoop body fuel s' := by
  simp [whileLoop_succ, h]

theorem whileLoop_fault {body : σ → Outcome ε (σ ⊕ ρ)} {s : σ} {e : ε}
    (h : body s = fault e) (fuel : Nat) : whileLoop body (fuel + 1) s = fault e := by
  simp [whileLoop_succ, h]

theorem whileLoop_mono (body : σ → Outcome ε (σ ⊕ ρ)) (s : σ) :
    Monotone fun fuel => whileLoop body fuel s := by
  refine monotone_nat_of_le_succ fun fuel => ?_
  induction fuel generalizing s with
  | zero => exact running_le _
  | succ fuel ih =>
    apply bind_le_bind (le_refl _)
    intro out
    rcases out with s' | r
    · exact ih s'
    · exact le_refl _

/-- A loop that walks the states `f i, f (i + 1), …` up to `f n`. -/
theorem whileLoop_along {body : σ → Outcome ε (σ ⊕ ρ)} {f : Nat → σ} {i n : Nat}
    (hin : i ≤ n) (hstep : ∀ k, i ≤ k → k < n → body (f k) = done (.inl (f (k + 1))))
    (fuel : Nat) : whileLoop body (n - i + fuel) (f i) = whileLoop body fuel (f n) := by
  induction n, hin using Nat.le_induction generalizing fuel with
  | base => rw [Nat.sub_self, Nat.zero_add]
  | succ n hle ih =>
    rw [Nat.succ_sub hle, Nat.succ_add_eq_add_succ, ih fun k hk hlt => hstep k hk (by omega)]
    exact whileLoop_continue (hstep n hle (Nat.lt_succ_self n)) fuel

/-- A loop that walks the states `f i, f (i + 1), …` and leaves at `f n`. -/
theorem whileLoop_walk {body : σ → Outcome ε (σ ⊕ ρ)} {f : Nat → σ} {i n : Nat} {r : ρ}
    (hin : i ≤ n) (hstep : ∀ k, i ≤ k → k < n → body (f k) = done (.inl (f (k + 1))))
    (hexit : body (f n) = done (.inr r)) {fuel : Nat} (hfuel : n - i < fuel) :
    whileLoop body fuel (f i) = done r := by
  obtain ⟨rest, rfl⟩ := Nat.exists_eq_add_of_lt hfuel
  rw [Nat.add_assoc, whileLoop_along hin hstep]
  exact whileLoop_exit hexit rest

/-- The invariant rule: what the body preserves holds of the state the loop leaves from. -/
theorem whileLoop_invariant {body : σ → Outcome ε (σ ⊕ ρ)} (Inv : σ → Prop) (Post : ρ → Prop)
    (hstep : ∀ s s', Inv s → body s = done (.inl s') → Inv s')
    (hexit : ∀ s r, Inv s → body s = done (.inr r) → Post r)
    {fuel : Nat} {s : σ} {r : ρ} (hs : Inv s) (h : whileLoop body fuel s = done r) : Post r := by
  induction fuel generalizing s with
  | zero => simp [whileLoop] at h
  | succ fuel ih =>
    rw [whileLoop_succ, bind_eq_done] at h
    obtain ⟨next | value, hb, h⟩ := h
    · exact ih (hstep s next hs hb) h
    · cases h
      exact hexit s r hs hb

/-- One program after another returns exactly when both do. -/
theorem yields_bind_iff {f : Nat → Outcome ε α} {g : Nat → α → Outcome ε β} {b : β}
    (hf : Monotone f) (hg : ∀ a, Monotone fun fuel => g fuel a) :
    Yields (fun fuel => f fuel >>= g fuel) b ↔
      ∃ a, Yields f a ∧ Yields (fun fuel => g fuel a) b := by
  constructor
  · intro h
    rcases h with ⟨fuel, h⟩
    obtain ⟨a, ha, hb⟩ := bind_eq_done.mp h
    exact ⟨a, ⟨fuel, ha⟩, ⟨fuel, hb⟩⟩
  · intro h
    rcases h with ⟨a, ha, hb⟩
    obtain ⟨n, hn⟩ := ha.eventually hf
    obtain ⟨m, hm⟩ := hb.eventually (hg a)
    refine ⟨max n m, bind_eq_done.mpr ⟨a, hn _ (le_max_left n m), ?_⟩⟩
    exact hm _ (le_max_right n m)

/-- A program with a last step that only builds its result. -/
theorem yields_map_iff {f : Nat → Outcome ε α} {g : α → β} {b : β} :
    Yields (fun fuel => f fuel >>= fun a => done (g a)) b ↔ ∃ a, Yields f a ∧ b = g a := by
  constructor
  · intro h
    rcases h with ⟨fuel, h⟩
    obtain ⟨a, ha, hb⟩ := bind_eq_done.mp h
    exact ⟨a, ⟨fuel, ha⟩, (done.inj hb).symm⟩
  · intro h
    rcases h with ⟨a, ⟨fuel, ha⟩, rfl⟩
    exact ⟨fuel, bind_eq_done.mpr ⟨a, ha, rfl⟩⟩

theorem monotone_map {f : Nat → Outcome ε α} (hf : Monotone f) (g : α → β) :
    Monotone fun fuel => f fuel >>= fun a => (done (g a) : Outcome ε β) := by
  intro n m hle
  apply bind_le_bind (hf hle)
  intro a
  exact le_refl _

/-- A loop returns exactly when its body leads from the first state to one that it leaves from. -/
theorem yields_whileLoop_iff {body : σ → Outcome ε (σ ⊕ ρ)} {s : σ} {r : ρ} :
    Yields (fun fuel => whileLoop body fuel s) r ↔
      ∃ t, Relation.ReflTransGen (fun s s' => body s = done (.inl s')) s t ∧
        body t = done (.inr r) := by
  constructor
  · intro h
    rcases h with ⟨fuel, h⟩
    induction fuel generalizing s with
    | zero => cases h
    | succ fuel ih =>
      dsimp only at h
      rw [whileLoop_succ, bind_eq_done] at h
      obtain ⟨next | value, hb, h⟩ := h
      · obtain ⟨t, hwalk, hexit⟩ := ih h
        exact ⟨t, hwalk.head hb, hexit⟩
      · cases h
        exact ⟨s, .refl, hb⟩
  · intro h
    rcases h with ⟨t, hwalk, hexit⟩
    induction hwalk using Relation.ReflTransGen.head_induction_on with
    | refl => exact ⟨1, whileLoop_exit hexit 0⟩
    | head hb _ ih =>
      obtain ⟨fuel, hfuel⟩ := ih
      exact ⟨fuel + 1, (whileLoop_continue hb fuel).trans hfuel⟩

/-- A loop returns what it returns behind its first pass. -/
theorem yields_whileLoop_continue_iff {body : σ → Outcome ε (σ ⊕ ρ)} {s s' : σ} {r : ρ}
    (h : body s = done (.inl s')) :
    Yields (fun fuel => whileLoop body fuel s) r ↔ Yields (fun fuel => whileLoop body fuel s') r := by
  constructor
  · intro hs
    obtain ⟨fuel, hs⟩ := hs
    cases fuel with
    | zero => cases hs
    | succ fuel => exact ⟨fuel, (whileLoop_continue h fuel).symm.trans hs⟩
  · intro hs
    obtain ⟨fuel, hs⟩ := hs
    exact ⟨fuel + 1, (whileLoop_continue h fuel).trans hs⟩

/-- A program that returns what its loop leaves with, after a last step of its own. -/
theorem yields_loop_return_iff {body : σ → Outcome ε (σ ⊕ ρ)} {s : σ} {g : ρ → α} {a : α} :
    Yields (fun fuel => whileLoop body fuel s >>= fun r => done (g r)) a ↔
      ∃ t r, Relation.ReflTransGen (fun s s' => body s = done (.inl s')) s t ∧
        body t = done (.inr r) ∧ a = g r := by
  rw [yields_map_iff]
  constructor
  · intro h
    obtain ⟨r, hloop, hret⟩ := h
    obtain ⟨t, hwalk, hexit⟩ := yields_whileLoop_iff.mp hloop
    exact ⟨t, r, hwalk, hexit, hret⟩
  · intro h
    obtain ⟨t, r, hwalk, hexit, hret⟩ := h
    exact ⟨r, yields_whileLoop_iff.mpr ⟨t, hwalk, hexit⟩, hret⟩

/-- A loop that walks the states `f 0, f 1, …` as long as it goes on; where it neither goes on nor
leaves it is stuck. -/
theorem yields_whileLoop_leaves_iff {body : σ → Outcome ε (σ ⊕ ρ)} {f : Nat → σ}
    {goes leaves : Nat → Prop} {out : Nat → ρ} {r : ρ}
    (hstep : ∀ k, goes k → body (f k) = done (.inl (f (k + 1))))
    (hexit : ∀ k, leaves k → body (f k) = done (.inr (out k)))
    (hstuck : ∀ k, ¬ goes k → ¬ leaves k → ∀ next, body (f k) ≠ done next) :
    Yields (fun fuel => whileLoop body fuel (f 0)) r ↔
      ∃ n, (∀ k < n, goes k) ∧ leaves n ∧ r = out n := by
  constructor
  · intro h
    obtain ⟨t, hwalk, hlast⟩ := yields_whileLoop_iff.mp h
    have hreached : ∃ n, t = f n ∧ ∀ k < n, goes k := by
      clear hlast
      induction hwalk with
      | refl => exact ⟨0, rfl, fun k hk => absurd hk (Nat.not_lt_zero k)⟩
      | tail _ hb ih =>
        obtain ⟨n, rfl, hgo⟩ := ih
        have hn : goes n := by
          by_contra hnot
          by_cases hleave : leaves n
          · exact nomatch done.inj ((hexit n hleave).symm.trans hb)
          · exact hstuck n hnot hleave _ hb
        have hnext := Sum.inl.inj (done.inj ((hstep n hn).symm.trans hb))
        exact ⟨n + 1, hnext.symm, Nat.forall_lt_succ_right.mpr ⟨hgo, hn⟩⟩
    obtain ⟨n, rfl, hgo⟩ := hreached
    have hn : leaves n := by
      by_contra hnot
      by_cases hgoes : goes n
      · exact nomatch done.inj ((hstep n hgoes).symm.trans hlast)
      · exact hstuck n hgoes hnot _ hlast
    exact ⟨n, hgo, hn, (Sum.inr.inj (done.inj ((hexit n hn).symm.trans hlast))).symm⟩
  · intro h
    rcases h with ⟨n, hgo, hn, rfl⟩
    exact ⟨n + 1, whileLoop_walk (Nat.zero_le n) (fun k _ hk => hstep k (hgo k hk)) (hexit n hn)
      (by omega)⟩

/-- A loop that walks the states `f 0, f 1, …` as long as it goes on. -/
theorem yields_whileLoop_along_iff {body : σ → Outcome ε (σ ⊕ ρ)} {f : Nat → σ}
    {goes : Nat → Prop} {out : Nat → ρ} {r : ρ}
    (hstep : ∀ k, goes k → body (f k) = done (.inl (f (k + 1))))
    (hexit : ∀ k, ¬ goes k → body (f k) = done (.inr (out k))) :
    Yields (fun fuel => whileLoop body fuel (f 0)) r ↔
      ∃ n, (∀ k < n, goes k) ∧ ¬ goes n ∧ r = out n :=
  yields_whileLoop_leaves_iff hstep hexit fun _ hnot hgoes => absurd hnot hgoes

end Outcome

end Zka
