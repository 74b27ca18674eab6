import Zka.Framework.Outcome

/-!
# Bounded waiting

`LockDelegate<N>` watches a flag for `N` rounds and keeps the outcome in two bits of an atomic
word, which no constructor initialises.  The values that the flag is found with are an input.
-/

namespace Zka.KernelKit

open Outcome

def kLockDone : UInt32 := 200

def kLockTimedOut : UInt32 := kLockDone + 1

namespace LockDelegate

/-- The counter, and the number of observations.  The loop leaves with the counter, the status
and the number of observations. -/
def waitBody (n : UInt64) (expr : Nat → Bool) (fLockStatus : UInt32) (s : UInt32 × Nat) :
    Outcome CFault ((UInt32 × Nat) ⊕ (UInt32 × UInt32 × Nat)) :=
  if s.1.toUInt64 < n then
    if expr s.2 then .done (.inr (s.1, fLockStatus ||| kLockDone, s.2 + 1))
    else .done (.inl (s.1 + 1, s.2 + 1))
  else .done (.inr (s.1, fLockStatus, s.2))

/-- The status that is set behind the loop. -/
def afterWait (n : UInt64) (spin fLockStatus : UInt32) : UInt32 :=
  if n < spin.toUInt64 then fLockStatus ||| kLockTimedOut else fLockStatus

/-- The constructor: the status, and the number of observations. -/
def construct (n : UInt64) (expr : Nat → Bool) (fLockStatus : UInt32) (fuel : Nat) :
    Outcome CFault (UInt32 × Nat) :=
  whileLoop (waitBody n expr fLockStatus) fuel (0, 0) >>= fun r =>
    .done (afterWait n r.1 r.2.1, r.2.2)

def done (fLockStatus : UInt32) : Bool := fLockStatus &&& kLockDone == kLockDone

/-- The comparison is the other way around. -/
def hasTimedOut (fLockStatus : UInt32) : Bool := fLockStatus &&& kLockTimedOut != kLockTimedOut

/-- The flag is found set in one of the `n` rounds. -/
def Observed (n : UInt64) (expr : Nat → Bool) : Prop := ∃ k < n.toNat, expr k = true

/-- The constructor returns after at most `n` observations, and the two questions tell whether the
flag was found set. -/
def Waits (n : UInt64) (expr : Nat → Bool) (fLockStatus : UInt32) : Prop :=
  ∃ status seen, Yields (construct n expr fLockStatus) (status, seen) ∧ seen ≤ n.toNat ∧
    (done status = true ↔ Observed n expr) ∧ (hasTimedOut status = true ↔ ¬ Observed n expr)

variable {n : UInt64} {expr : Nat → Bool} {fLockStatus : UInt32}

theorem construct_mono : Monotone (construct n expr fLockStatus) :=
  monotone_map (whileLoop_mono _ _) _

theorem spin_lt_iff (k : Nat) : (UInt32.ofNat k).toUInt64 < n ↔ k % 2 ^ 32 < n.toNat := by
  rw [UInt64.lt_iff_toNat_lt, UInt32.toNat_toUInt64, UInt32.toNat_ofNat']

/-- The rounds are over, or the flag is found set. -/
def leavesWith (n : UInt64) (fLockStatus : UInt32) (k : Nat) : UInt32 × UInt32 × Nat :=
  if (UInt32.ofNat k).toUInt64 < n then (UInt32.ofNat k, fLockStatus ||| kLockDone, k + 1)
  else (UInt32.ofNat k, fLockStatus, k)

theorem wait_yields_iff {r : UInt32 × UInt32 × Nat} :
    Yields (fun fuel => whileLoop (waitBody n expr fLockStatus) fuel (0, 0)) r ↔
      ∃ k, (∀ j < k, j % 2 ^ 32 < n.toNat ∧ expr j = false) ∧
        ¬ (k % 2 ^ 32 < n.toNat ∧ expr k = false) ∧ r = leavesWith n fLockStatus k := by
  apply @yields_whileLoop_along_iff _ _ _ (waitBody n expr fLockStatus)
    (fun k => (UInt32.ofNat k, k)) (fun k => k % 2 ^ 32 < n.toNat ∧ expr k = false)
    (leavesWith n fLockStatus) r
  · intro k hk
    rw [waitBody, if_pos ((spin_lt_iff k).mpr hk.1), if_neg (by simp [hk.2])]
    have hnext : UInt32.ofNat k + 1 = UInt32.ofNat (k + 1) := by simp
    rw [hnext]
  · intro k hk
    rw [waitBody, leavesWith]
    by_cases hspin : (UInt32.ofNat k).toUInt64 < n
    · have hset : expr k = true := by
        by_contra hnot
        exact hk ⟨(spin_lt_iff k).mp hspin, by simpa using hnot⟩
      rw [if_pos hspin, if_pos hset, if_pos hspin]
    · rw [if_neg hspin, if_neg hspin]

/-- The status behind the loop is never changed again. -/
private theorem construct_yields {k : Nat}
    (hgo : ∀ j < k, j % 2 ^ 32 < n.toNat ∧ expr j = false)
    (hstop : ¬ (k % 2 ^ 32 < n.toNat ∧ expr k = false)) (hk : k % 2 ^ 32 ≤ n.toNat) :
    Yields (construct n expr fLockStatus)
      ((leavesWith n fLockStatus k).2.1, (leavesWith n fLockStatus k).2.2) := by
  refine yields_map_iff.mpr ⟨_, wait_yields_iff.mpr ⟨k, hgo, hstop, rfl⟩, ?_⟩
  have hspin : (leavesWith n fLockStatus k).1 = UInt32.ofNat k := by
    unfold leavesWith
    split <;> rfl
  have hle : ¬ n < (UInt32.ofNat k).toUInt64 := by
    rw [UInt64.lt_iff_toNat_lt, UInt32.toNat_toUInt64, UInt32.toNat_ofNat']
    omega
  rw [afterWait, hspin, if_neg hle]

theorem yields_of_observed {k : Nat} (hk : k < n.toNat) (hset : expr k = true)
    (hfirst : ∀ j < k, expr j = false) :
    Yields (construct n expr fLockStatus) (fLockStatus ||| kLockDone, k + 1) := by
  have hmod : k % 2 ^ 32 < n.toNat := lt_of_le_of_lt (Nat.mod_le k _) hk
  have hyields := @construct_yields n expr fLockStatus k
    (fun j hj => ⟨lt_of_le_of_lt (Nat.mod_le j _) (hj.trans hk), hfirst j hj⟩)
    (by simp [hset]) hmod.le
  rwa [leavesWith, if_pos ((spin_lt_iff k).mpr hmod)] at hyields

theorem yields_of_timeout (h : ¬ Observed n expr) (hn : n.toNat < 2 ^ 32) :
    Yields (construct n expr fLockStatus) (fLockStatus, n.toNat) := by
  have hmod : n.toNat % 2 ^ 32 = n.toNat := Nat.mod_eq_of_lt hn
  have hyields := @construct_yields n expr fLockStatus n.toNat
    (fun j hj => ⟨lt_of_le_of_lt (Nat.mod_le j _) hj, by
      by_contra hset
      exact h ⟨j, hj, by simpa using hset⟩⟩)
    (by rw [hmod]; exact fun hlt => Nat.lt_irrefl _ hlt.1) hmod.le
  rwa [leavesWith, if_neg (by rw [spin_lt_iff, hmod]; exact Nat.lt_irrefl _)] at hyields

/-- A limit that the counter cannot reach is no limit. -/
theorem unbounded_of_timeout (h : ¬ Observed n expr) (hn : 2 ^ 32 ≤ n.toNat) {status : UInt32}
    {seen : Nat} (hyields : Yields (construct n expr fLockStatus) (status, seen)) :
    n.toNat < seen := by
  obtain ⟨r, hloop, hret⟩ := yields_map_iff.mp hyields
  obtain ⟨k, _, hstop, rfl⟩ := wait_yields_iff.mp hloop
  have hspin : k % 2 ^ 32 < n.toNat := lt_of_lt_of_le (Nat.mod_lt k (by decide)) hn
  have hset : expr k = true := by
    by_contra hnot
    exact hstop ⟨hspin, by simpa using hnot⟩
  have hk : n.toNat ≤ k := by
    by_contra hlt
    exact h ⟨k, by omega, hset⟩
  rw [leavesWith, if_pos ((spin_lt_iff k).mpr hspin)] at hret
  obtain rfl := (Prod.mk.inj hret).2
  exact Nat.lt_succ_of_le hk

/-! ## The two bits -/

/-- A test for all bits of a mask. -/
theorem and_eq_iff {a b : UInt32} :
    a &&& b = b ↔ ∀ i, b.toBitVec.getLsbD i = true → a.toBitVec.getLsbD i = true := by
  rw [← UInt32.toBitVec_inj, UInt32.toBitVec_and]
  constructor
  · intro h i hi
    rw [← h, BitVec.getLsbD_and, Bool.and_eq_true] at hi
    exact hi.1
  · intro h
    apply BitVec.eq_of_getLsbD_eq
    intro i _
    rw [BitVec.getLsbD_and]
    cases hb : b.toBitVec.getLsbD i with
    | false => exact Bool.and_false _
    | true => rw [h i hb, Bool.and_true]

theorem done_iff : done fLockStatus = true ↔ fLockStatus &&& kLockDone = kLockDone := by
  simp [done]

theorem hasTimedOut_iff :
    hasTimedOut fLockStatus = true ↔ ¬ fLockStatus &&& kLockTimedOut = kLockTimedOut := by
  simp [hasTimedOut]

theorem done_of_set (fLockStatus : UInt32) : done (fLockStatus ||| kLockDone) = true := by
  apply done_iff.mpr
  apply and_eq_iff.mpr
  intro i hi
  simp [hi]

/-- The number of the second outcome is that of the first with bit 0 added. -/
theorem kLockTimedOut_eq : kLockTimedOut = 1 ||| kLockDone := by decide

theorem hasTimedOut_of_set (fLockStatus : UInt32) :
    hasTimedOut (fLockStatus ||| kLockDone) = false ↔ fLockStatus &&& 1 = 1 := by
  rw [← Bool.not_eq_true, hasTimedOut_iff, not_not, and_eq_iff, and_eq_iff, kLockTimedOut_eq]
  constructor
  · intro h i hi
    have hzero : i = 0 := by simpa using hi
    subst hzero
    have hbit := h 0 (by decide)
    simpa [kLockDone] using hbit
  · intro h i hi
    simp only [UInt32.toBitVec_or, BitVec.getLsbD_or, Bool.or_eq_true] at hi ⊢
    exact hi.imp_left (h i)

theorem hasTimedOut_of_not_done (h : ¬ fLockStatus &&& kLockDone = kLockDone) :
    hasTimedOut fLockStatus = true := by
  apply hasTimedOut_iff.mpr
  intro hboth
  apply h
  rw [kLockTimedOut_eq, and_eq_iff] at hboth
  apply and_eq_iff.mpr
  intro i hi
  exact hboth i (by simp [hi])

private theorem waits_of_observed (h : Observed n expr) :
    Waits n expr fLockStatus ↔ fLockStatus &&& 1 = 1 := by
  classical
  have hfirst : ∀ j < Nat.find h, expr j = false := by
    intro j hj
    by_contra hset
    exact Nat.find_min h hj ⟨hj.trans (Nat.find_spec h).1, by simpa using hset⟩
  have hyields := @yields_of_observed n expr fLockStatus _ (Nat.find_spec h).1
    (Nat.find_spec h).2 hfirst
  constructor
  · intro hw
    obtain ⟨status, seen, hstatus, _, _, htimed⟩ := hw
    obtain ⟨rfl, rfl⟩ := Prod.mk.inj (hstatus.unique construct_mono hyields)
    apply (hasTimedOut_of_set fLockStatus).mp
    rw [← Bool.not_eq_true, htimed]
    exact not_not_intro h
  · intro hbit
    refine ⟨_, _, hyields, (Nat.find_spec h).1, ?_, ?_⟩
    · exact iff_of_true (done_of_set _) h
    · rw [(hasTimedOut_of_set fLockStatus).mpr hbit]
      exact iff_of_false Bool.false_ne_true (not_not_intro h)

private theorem waits_of_timeout (h : ¬ Observed n expr) :
    Waits n expr fLockStatus ↔ n.toNat < 2 ^ 32 ∧ fLockStatus &&& kLockDone ≠ kLockDone := by
  constructor
  · intro hw
    obtain ⟨status, seen, hstatus, hseen, hdone, _⟩ := hw
    have hn : n.toNat < 2 ^ 32 := by
      by_contra hge
      exact absurd hseen (Nat.not_le.mpr (unbounded_of_timeout h (Nat.not_lt.mp hge) hstatus))
    obtain ⟨rfl, _⟩ := Prod.mk.inj (hstatus.unique construct_mono (yields_of_timeout h hn))
    exact ⟨hn, mt done_iff.mpr (mt hdone.mp h)⟩
  · intro hcond
    obtain ⟨hn, hbits⟩ := hcond
    refine ⟨_, _, yields_of_timeout h hn, Nat.le_refl _, ?_, ?_⟩
    · exact iff_of_false (mt done_iff.mp hbits) h
    · exact iff_of_true (hasTimedOut_of_not_done hbits) h

/-- The delegate waits as it should exactly if the flag is found set and the word had bit 0 set
before, or it is not, the counter can reach the limit and the word did not look done before. -/
theorem lock_waits_iff (n : UInt64) (expr : Nat → Bool) (fLockStatus : UInt32) :
    Waits n expr fLockStatus ↔
      Observed n expr ∧ fLockStatus &&& 1 = 1 ∨
      ¬ Observed n expr ∧ n.toNat < 2 ^ 32 ∧ fLockStatus &&& kLockDone ≠ kLockDone := by
  by_cases h : Observed n expr
  · rw [waits_of_observed h]
    simp [h]
  · rw [waits_of_timeout h]
    simp [h]

/-- The flag is set from the start, the word is clear, and the delegate says that the time is
over. -/
theorem waits_at_once : ¬ Waits 1 (fun _ => true) 0 := by
  intro h
  have hbit := (waits_of_observed ⟨0, by decide, rfl⟩).mp h
  exact absurd hbit (by decide)

end LockDelegate

end Zka.KernelKit
