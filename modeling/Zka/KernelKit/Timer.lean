import Zka.Framework.Outcome

/-!
# Timers

`SoftwareTimer` counts in memory of its own, in signed numbers whose overflow is undefined.
`HardwareTimer` polls a register; the values that the reads of it find are an input.
-/

namespace Zka.KernelKit

open Outcome

inductive TimerFault where
  | signedOverflow
  | divisionByZero
  deriving DecidableEq, Repr

/-! ## The software timer -/

def addSigned (a b : Int64) : Outcome TimerFault Int64 :=
  if -2 ^ 63 ≤ a.toInt + b.toInt ∧ a.toInt + b.toInt < 2 ^ 63 then .done (a + b)
  else .fault .signedOverflow

namespace SoftwareTimer

/-- The bound is computed again from the counter that the loop increments. -/
def waitBody (fWaitFor counter : Int64) : Outcome TimerFault (Int64 ⊕ Int64) :=
  addSigned counter fWaitFor >>= fun bound =>
    if counter < bound then addSigned counter 1 >>= fun next => .done (.inl next)
    else .done (.inr counter)

/-- What is returned, and the counter. -/
def wait (fWaitFor : Int64) (fuel : Nat) (counter : Int64) : Outcome TimerFault (Int32 × Int64) :=
  if fWaitFor < 1 then .done (1, counter)
  else whileLoop (waitBody fWaitFor) fuel counter >>= fun counter => .done (0, counter)

/-- The call returns 0 after `fWaitFor` increments. -/
def Waits (fWaitFor counter : Int64) : Prop :=
  Yields (fun fuel => wait fWaitFor fuel counter) (0, counter + fWaitFor)

theorem addSigned_eq_done {a b c : Int64} (h : addSigned a b = .done c) :
    c.toInt = a.toInt + b.toInt := by
  unfold addSigned at h
  split at h
  next hrange =>
    cases h
    rw [Int64.toInt_add, Int.bmod_eq_of_le (by omega) (by omega)]
  next => cases h

/-- The loop never leaves: a counter is below every later one. -/
theorem waitBody_stays {fWaitFor : Int64} (hw : 1 ≤ fWaitFor) (counter r : Int64) :
    waitBody fWaitFor counter ≠ .done (.inr r) := by
  intro h
  obtain ⟨bound, hbound, h⟩ := bind_eq_done.mp h
  have hsum := addSigned_eq_done hbound
  have hpos : 1 ≤ fWaitFor.toInt := Int64.le_iff_toInt_le.mp hw
  have hlt : counter < bound := Int64.lt_iff_toInt_lt.mpr (by omega)
  rw [if_pos hlt] at h
  obtain ⟨next, _, hnext⟩ := bind_eq_done.mp h
  cases hnext

theorem not_yields_wait {fWaitFor : Int64} (hw : 1 ≤ fWaitFor) (counter : Int64)
    (r : Int32 × Int64) : ¬ Yields (fun fuel => wait fWaitFor fuel counter) r := by
  intro h
  obtain ⟨fuel, hdone⟩ := h
  have hnot : ¬ fWaitFor < 1 := Int64.not_lt.mpr hw
  dsimp only [wait] at hdone
  rw [if_neg hnot] at hdone
  obtain ⟨last, hloop, _⟩ := bind_eq_done.mp hdone
  exact whileLoop_invariant (fun _ => True) (fun _ => False) (fun _ _ _ _ => trivial)
    (fun s r _ hexit => waitBody_stays hw s r hexit) trivial hloop

end SoftwareTimer

/-! ## The hardware timer -/

/-- The registers that `Wait` works with.  The first word is read for the period, and then again
and again for the counter. -/
structure HpetBlock where
  config : UInt64
  first : UInt64
  counter : Nat → UInt64

namespace HardwareTimer

def enable (config : UInt64) : UInt64 :=
  if config &&& 1 = 0 then config ||| 1 ||| 8 else config

def period (first : UInt64) : Int64 := first.toInt64 >>> 32 &&& 0xFFFFFFFF

def ticks (fWaitFor : Int64) (first : UInt64) : UInt64 := (fWaitFor / period first).toUInt64

/-- Read number `k` of the counter. -/
def pollBody (ticks : UInt64) (counter : Nat → UInt64) (k : Nat) : Outcome TimerFault (Nat ⊕ Nat) :=
  if counter k < ticks then .done (.inl (k + 1)) else .done (.inr k)

/-- What is returned, the configuration, and the number of the last read.  Read 0 goes into a
variable that nothing looks at. -/
def wait (fWaitFor : Int64) (fuel : Nat) (hpet : HpetBlock) :
    Outcome TimerFault (Int32 × UInt64 × Nat) :=
  if fWaitFor < 1 then .done (1, hpet.config, 0)
  else if period hpet.first = 0 then .fault .divisionByZero
  else whileLoop (pollBody (ticks fWaitFor hpet.first) hpet.counter) fuel 1 >>= fun k =>
    .done (0, enable hpet.config, k)

/-- The numbers of the readings that are at least `bound`. -/
def readingsFrom (counter : Nat → UInt64) (bound : Nat) : Set Nat :=
  {k | 1 ≤ k ∧ bound ≤ (counter k).toNat}

/-- The starting value plus `fWaitFor` divided by the period. -/
def deadline (fWaitFor : Int64) (hpet : HpetBlock) : Nat :=
  (hpet.counter 0).toNat + fWaitFor.toInt.toNat / (hpet.first.toNat / 2 ^ 32)

/-- The call returns 0 at the first reading that has reached the deadline. -/
def Waits (fWaitFor : Int64) (hpet : HpetBlock) : Prop :=
  ∃ k config, Yields (fun fuel => wait fWaitFor fuel hpet) (0, config, k) ∧
    IsLeast (readingsFrom hpet.counter (deadline fWaitFor hpet)) k

theorem period_toBitVec (first : UInt64) : (period first).toBitVec = first.toBitVec >>> 32 := by
  have hword : (period first).toBitVec = first.toBitVec.sshiftRight 32 &&& 0xFFFFFFFF#64 := by
    simp [period]
  rw [hword]
  apply BitVec.eq_of_getLsbD_eq
  intro i hi
  have hmask : (0xFFFFFFFF#64).getLsbD i = decide (i < 32) := by
    have hpow : (0xFFFFFFFF : Nat) = 2 ^ 32 - 1 := rfl
    simp only [BitVec.getLsbD_ofNat, hpow, Nat.testBit_two_pow_sub_one, hi, decide_true,
      Bool.true_and]
  rw [BitVec.getLsbD_and, hmask, BitVec.getLsbD_sshiftRight, BitVec.getLsbD_ushiftRight]
  by_cases h32 : i < 32
  · simp [h32, show ¬ 64 ≤ i by omega, show 32 + i < 64 by omega]
  · simp [h32, BitVec.getLsbD_of_ge first.toBitVec (32 + i) (by omega)]

/-- The period field is the upper half of the word. -/
theorem period_toInt (first : UInt64) : (period first).toInt = (first.toNat / 2 ^ 32 : Nat) := by
  have hlt := first.toNat_lt
  rw [← Int64.toInt_toBitVec, period_toBitVec, BitVec.toInt_eq_toNat_of_lt]
  · simp [Nat.shiftRight_eq_div_pow]
  · simp only [BitVec.toNat_ushiftRight, Nat.shiftRight_eq_div_pow, UInt64.toNat_toBitVec]
    omega

theorem ticks_toNat {fWaitFor : Int64} (hw : 1 ≤ fWaitFor) (first : UInt64) :
    (ticks fWaitFor first).toNat = fWaitFor.toInt.toNat / (first.toNat / 2 ^ 32) := by
  have hperiod := period_toInt first
  have hpos : (1 : Int) ≤ fWaitFor.toInt := Int64.le_iff_toInt_le.mp hw
  have hdiv : (fWaitFor / period first).toInt =
      (fWaitFor.toInt.toNat / (first.toNat / 2 ^ 32) : Nat) := by
    rw [Int64.toInt_div_of_ne_right, hperiod, Int.tdiv_eq_ediv_of_nonneg (by omega)]
    · conv_lhs => rw [← Int.toNat_of_nonneg (show 0 ≤ fWaitFor.toInt by omega)]
      rfl
    · intro h
      rw [h] at hperiod
      exact absurd hperiod (by simp; omega)
  have hnonneg : 0 ≤ fWaitFor / period first := by
    rw [Int64.le_iff_toInt_le, hdiv]
    exact Int.natCast_nonneg _
  rw [ticks, Int64.toNat_toUInt64_of_le hnonneg, ← Int64.toNat_toInt, hdiv, Int.toNat_natCast]

section Wait

variable {fWaitFor : Int64} {hpet : HpetBlock}

private theorem poll_yields_iff (ticks : UInt64) (counter : Nat → UInt64) (k : Nat) :
    Yields (fun fuel => whileLoop (pollBody ticks counter) fuel 1) k ↔
      IsLeast (readingsFrom counter ticks.toNat) k := by
  have hloop := @yields_whileLoop_along_iff _ _ _ (pollBody ticks counter) (fun n => n + 1)
    (fun n => counter (n + 1) < ticks) (fun n => n + 1) k
    (fun n hn => by rw [pollBody, if_pos hn]) (fun n hn => by rw [pollBody, if_neg hn])
  apply hloop.trans
  constructor
  · intro h
    obtain ⟨n, hbefore, hlast, rfl⟩ := h
    refine ⟨⟨Nat.le_add_left 1 n, UInt64.not_lt.mp hlast⟩, ?_⟩
    intro j hj
    obtain ⟨hone, hreached⟩ := hj
    by_contra hlt
    obtain ⟨i, rfl⟩ := Nat.exists_eq_add_of_le' hone
    have hgoes := UInt64.lt_iff_toNat_lt.mp (hbefore i (by omega))
    omega
  · intro h
    obtain ⟨⟨hone, hreached⟩, hleast⟩ := h
    obtain ⟨n, rfl⟩ := Nat.exists_eq_add_of_le' hone
    refine ⟨n, ?_, UInt64.not_lt.mpr hreached, rfl⟩
    intro j hj
    by_contra hstop
    have hle := hleast ⟨Nat.le_add_left 1 j, UInt64.not_lt.mp hstop⟩
    omega

/-- The loop ends at the first reading that is at least the interval. -/
theorem wait_yields_iff (hw : 1 ≤ fWaitFor) (hperiod : hpet.first.toNat / 2 ^ 32 ≠ 0) (k : Nat) :
    (∃ config, Yields (fun fuel => wait fWaitFor fuel hpet) (0, config, k)) ↔
      IsLeast (readingsFrom hpet.counter (ticks fWaitFor hpet.first).toNat) k := by
  have hne : period hpet.first ≠ 0 := by
    intro h
    have hword := period_toInt hpet.first
    rw [h, Int64.toInt_zero] at hword
    exact hperiod (Int.natCast_eq_zero.mp hword.symm)
  have hwait : (fun fuel => wait fWaitFor fuel hpet) = fun fuel =>
      whileLoop (pollBody (ticks fWaitFor hpet.first) hpet.counter) fuel 1 >>= fun k =>
        .done (0, enable hpet.config, k) := by
    funext fuel
    rw [wait, if_neg (Int64.not_lt.mpr hw), if_neg hne]
  rw [hwait, ← poll_yields_iff]
  constructor
  · intro h
    obtain ⟨config, hyields⟩ := h
    obtain ⟨a, hloop, hret⟩ := yields_map_iff.mp hyields
    cases hret
    exact hloop
  · intro h
    exact ⟨_, yields_map_iff.mpr ⟨k, h, rfl⟩⟩

/-- The deadline is kept exactly if no reading lies between the interval and the deadline. -/
theorem waits_iff (hw : 1 ≤ fWaitFor) (hperiod : hpet.first.toNat / 2 ^ 32 ≠ 0)
    (hmono : Monotone fun k => (hpet.counter k).toNat)
    (hgrow : ∀ v : UInt64, ∃ k, v ≤ hpet.counter k) :
    Waits fWaitFor hpet ↔ ∀ k, 1 ≤ k → ticks fWaitFor hpet.first ≤ hpet.counter k →
      deadline fWaitFor hpet ≤ (hpet.counter k).toNat := by
  have hle : (ticks fWaitFor hpet.first).toNat ≤ deadline fWaitFor hpet := by
    rw [ticks_toNat hw, deadline]
    omega
  constructor
  · intro h k hk hreached
    obtain ⟨n, config, hyields, hdeadline⟩ := h
    have hleast := (wait_yields_iff hw hperiod n).mp ⟨config, hyields⟩
    have hnk := hleast.2 ⟨hk, UInt64.le_iff_toNat_le.mp hreached⟩
    exact hdeadline.1.2.trans (hmono hnk)
  · intro h
    have hsame : readingsFrom hpet.counter (deadline fWaitFor hpet) =
        readingsFrom hpet.counter (ticks fWaitFor hpet.first).toNat := by
      ext k
      constructor
      · intro hk
        exact ⟨hk.1, hle.trans hk.2⟩
      · intro hk
        exact ⟨hk.1, h k hk.1 (UInt64.le_iff_toNat_le.mpr hk.2)⟩
    obtain ⟨k, hk⟩ := hgrow (ticks fWaitFor hpet.first)
    have hnext : (readingsFrom hpet.counter (ticks fWaitFor hpet.first).toNat).Nonempty :=
      ⟨k + 1, Nat.le_add_left 1 k, (UInt64.le_iff_toNat_le.mp hk).trans (hmono (Nat.le_succ k))⟩
    have hleast := isLeast_csInf hnext
    obtain ⟨config, hyields⟩ := (wait_yields_iff hw hperiod _).mpr hleast
    rw [← hsame] at hyields hleast
    exact ⟨_, config, hyields, hleast⟩

end Wait

end HardwareTimer

/-- A software timer never returns; a hardware timer waits for what was asked exactly if no reading
lies between the interval and the deadline. -/
theorem timers_wait_iff {fWaitFor counter : Int64} {hpet : HpetBlock} (hw : 1 ≤ fWaitFor)
    (hperiod : hpet.first.toNat / 2 ^ 32 ≠ 0) (hmono : Monotone fun k => (hpet.counter k).toNat)
    (hgrow : ∀ v : UInt64, ∃ k, v ≤ hpet.counter k) :
    ¬ SoftwareTimer.Waits fWaitFor counter ∧
      (HardwareTimer.Waits fWaitFor hpet ↔ ∀ k, 1 ≤ k →
        HardwareTimer.ticks fWaitFor hpet.first ≤ hpet.counter k →
        HardwareTimer.deadline fWaitFor hpet ≤ (hpet.counter k).toNat) := by
  constructor
  · exact SoftwareTimer.not_yields_wait hw counter _
  · exact HardwareTimer.waits_iff hw hperiod hmono hgrow

/-! ## A counter that stands at a thousand -/

/-- The period is one, and every read finds the counter one further. -/
def sampleHpet (start : Nat) : HpetBlock where
  config := 0
  first := 2 ^ 32
  counter k := UInt64.ofNat (min (start + k) (2 ^ 64 - 1))

private theorem sampleHpet_counter (start k : Nat) :
    ((sampleHpet start).counter k).toNat = min (start + k) (2 ^ 64 - 1) :=
  UInt64.toNat_ofNat_of_lt' (by rw [UInt64.size]; omega)

private theorem sampleHpet_mono (start : Nat) :
    Monotone fun k => ((sampleHpet start).counter k).toNat := by
  intro j k hle
  simp only [sampleHpet_counter]
  omega

private theorem sampleHpet_grows (start : Nat) (v : UInt64) :
    ∃ k, v ≤ (sampleHpet start).counter k := by
  have hlt := v.toNat_lt
  refine ⟨v.toNat, UInt64.le_iff_toNat_le.mpr ?_⟩
  rw [sampleHpet_counter]
  omega

private theorem sampleHpet_deadline (start : Nat) (h : start < 2 ^ 64) :
    HardwareTimer.deadline 10 (sampleHpet start) = start + 10 := by
  rw [HardwareTimer.deadline, sampleHpet_counter]
  have hfirst : (sampleHpet start).first = 2 ^ 32 := rfl
  have hticks : (10 : Int64).toInt.toNat / ((2 ^ 32 : UInt64).toNat / 2 ^ 32) = 10 := by decide
  rw [hfirst, hticks]
  omega

theorem timers_wait_zero : ¬ SoftwareTimer.Waits 10 0 ∧ HardwareTimer.Waits 10 (sampleHpet 0) := by
  have h := @timers_wait_iff 10 0 (sampleHpet 0) (by decide) (by decide) (sampleHpet_mono 0)
    (sampleHpet_grows 0)
  refine ⟨h.1, h.2.mpr ?_⟩
  intro k _ hreached
  rw [sampleHpet_deadline 0 (by decide)]
  exact UInt64.le_iff_toNat_le.mp hreached

/-- The interval is over before the wait begins. -/
theorem timers_wait_thousand :
    ¬ SoftwareTimer.Waits 10 1000 ∧ ¬ HardwareTimer.Waits 10 (sampleHpet 1000) := by
  constructor
  · exact SoftwareTimer.not_yields_wait (by decide) 1000 _
  · intro h
    have hgap := (HardwareTimer.waits_iff (by decide) (by decide) (sampleHpet_mono 1000)
      (sampleHpet_grows 1000)).mp h 1 (Nat.le_refl 1)
    rw [sampleHpet_deadline 1000 (by decide), sampleHpet_counter] at hgap
    exact absurd (hgap (by decide)) (by decide)

end Zka.KernelKit
