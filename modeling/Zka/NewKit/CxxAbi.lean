import Zka.Framework.Run

/-!
# Exit handlers

The table that `atexit` fills and `__cxa_finalize` walks, and beside it what was registered and
what has run.  The destructors leave the table alone.
-/

namespace Zka.NewKit

def kAtExitMacDestructors : Nat := 128

structure AtexitFuncEntry where
  destructorFunc : UInt64
  objPtr : UInt64
  dsoHandle : UInt64
  deriving DecidableEq, Repr

structure AtexitTable where
  funcs : Nat → AtexitFuncEntry
  count : Nat
  bounded : count ≤ kAtExitMacDestructors

def atexit (t : AtexitTable) (entry : AtexitFuncEntry) : Int32 × AtexitTable :=
  if h : kAtExitMacDestructors ≤ t.count then (1, t)
  else (0, ⟨Function.update t.funcs t.count entry, t.count + 1, Nat.lt_of_not_le h⟩)

def AtexitFuncEntry.cleared (e : AtexitFuncEntry) : AtexitFuncEntry :=
  { e with destructorFunc := 0 }

/-- The loop over the slots below `i`, from the last one on: the slots whose destructors are called,
and the table. -/
def finalizeLoop (clear : Bool) (funcs : Nat → AtexitFuncEntry) :
    Nat → List Nat × (Nat → AtexitFuncEntry)
  | 0 => ([], funcs)
  | i + 1 =>
    if (funcs i).destructorFunc = 0 then finalizeLoop clear funcs i
    else
      let rest := finalizeLoop clear
        (if clear then Function.update funcs i (funcs i).cleared else funcs) i
      (i :: rest.1, rest.2)

/-- Without a handle nothing is cleared; with one, its value is not looked at. -/
def cxaFinalize (t : AtexitTable) (f : UInt64) : List Nat × AtexitTable :=
  let walk := finalizeLoop (f ≠ 0) t.funcs t.count
  (walk.1, { t with funcs := walk.2 })

/-! ## What a walk calls and clears -/

private theorem cleared_of_null {e : AtexitFuncEntry} (h : e.destructorFunc = 0) :
    e.cleared = e := by
  rw [AtexitFuncEntry.cleared, ← h]

theorem finalizeLoop_fst (clear : Bool) (funcs : Nat → AtexitFuncEntry) (n : Nat) :
    (finalizeLoop clear funcs n).1 =
      (List.range n).reverse.filter fun i => (funcs i).destructorFunc ≠ 0 := by
  induction n generalizing funcs with
  | zero => rfl
  | succ n ih =>
    rw [finalizeLoop, List.range_succ, List.reverse_append, List.reverse_singleton,
      List.singleton_append]
    by_cases h : (funcs n).destructorFunc = 0
    · rw [if_pos h, List.filter_cons_of_neg (by simpa using h)]
      exact ih funcs
    · rw [if_neg h, List.filter_cons_of_pos (by simpa using h)]
      dsimp only
      rw [ih]
      congr 1
      apply List.filter_congr
      intro i hi
      have hin : i ≠ n := by
        rw [List.mem_reverse, List.mem_range] at hi
        omega
      cases clear <;> simp [hin]

theorem finalizeLoop_snd (clear : Bool) (funcs : Nat → AtexitFuncEntry) (n j : Nat) :
    (finalizeLoop clear funcs n).2 j =
      if clear = true ∧ j < n then (funcs j).cleared else funcs j := by
  induction n generalizing funcs with
  | zero => simp [finalizeLoop]
  | succ n ih =>
    rw [finalizeLoop]
    by_cases h : (funcs n).destructorFunc = 0
    · rw [if_pos h, ih]
      by_cases hj : j = n
      · subst hj
        simp [cleared_of_null h]
      · simp [show j < n + 1 ↔ j < n by omega]
    · rw [if_neg h]
      dsimp only
      rw [ih]
      by_cases hj : j = n
      · subst hj
        cases clear <;> simp
      · cases clear <;> simp [hj, show j < n + 1 ↔ j < n by omega]

/-! ## Runs -/

inductive AtexitOp where
  | atexit (entry : AtexitFuncEntry)
  | finalize (f : UInt64)
  deriving DecidableEq, Repr

/-- The table, what was registered in its slots, and the slots whose destructors have run. -/
structure AtexitRun where
  table : AtexitTable
  registered : Nat → AtexitFuncEntry
  ran : List Nat

namespace AtexitRun

def step (s : AtexitRun) : AtexitOp → AtexitRun
  | .atexit entry =>
    let call := NewKit.atexit s.table entry
    { table := call.2
      registered := if call.1 = 0 then Function.update s.registered s.table.count entry
        else s.registered
      ran := s.ran }
  | .finalize f =>
    let call := cxaFinalize s.table f
    { s with table := call.2, ran := s.ran ++ call.1 }

/-- The slot holds a destructor that has not run and that a call with this handle is to run. -/
def Pending (s : AtexitRun) (f : UInt64) (i : Nat) : Prop :=
  (s.registered i).destructorFunc ≠ 0 ∧ i ∉ s.ran ∧ (f = 0 ∨ (s.registered i).dsoHandle = f)

instance (s : AtexitRun) (f : UInt64) : DecidablePred (s.Pending f) :=
  fun _ => inferInstanceAs (Decidable (_ ∧ _))

/-- A call runs the destructors that are due, the last one that was registered first and each as it
was registered, and no destructor has run twice then. -/
def RunsOnce (s : AtexitRun) : AtexitOp → Prop
  | .atexit _ => True
  | .finalize f =>
    (cxaFinalize s.table f).1 = (List.range s.table.count).reverse.filter (s.Pending f) ∧
    (∀ i ∈ (cxaFinalize s.table f).1, s.table.funcs i = s.registered i) ∧
    (s.step (.finalize f)).ran.Nodup

/-- What is still in the table has not run, and all of it belongs to the handle. -/
def OneHandle (s : AtexitRun) : AtexitOp → Prop
  | .atexit _ => True
  | .finalize f => ∀ i < s.table.count, (s.table.funcs i).destructorFunc ≠ 0 →
      i ∉ s.ran ∧ (f = 0 ∨ (s.table.funcs i).dsoHandle = f)

/-- A slot is as it was registered, or cleared after its destructor has run. -/
structure Tracked (s : AtexitRun) : Prop where
  nodup : s.ran.Nodup
  slots : ∀ i < s.table.count, s.table.funcs i = s.registered i ∨
    s.table.funcs i = (s.registered i).cleared ∧
      ((s.registered i).destructorFunc ≠ 0 → i ∈ s.ran)

def start : AtexitRun where
  table := ⟨fun _ => ⟨0, 0, 0⟩, 0, Nat.zero_le _⟩
  registered := fun _ => ⟨0, 0, 0⟩
  ran := []

theorem start_tracked : start.Tracked := by
  refine ⟨List.nodup_nil, ?_⟩
  intro i hi
  exact absurd hi (Nat.not_lt_zero i)

variable {s : AtexitRun}

theorem mem_called_iff {f : UInt64} {i : Nat} : i ∈ (cxaFinalize s.table f).1 ↔
    i < s.table.count ∧ (s.table.funcs i).destructorFunc ≠ 0 := by
  rw [cxaFinalize, finalizeLoop_fst]
  simp

/-- A slot that still has its destructor is as it was registered. -/
theorem Tracked.registered_eq (h : s.Tracked) {i : Nat} (hi : i < s.table.count)
    (hf : (s.table.funcs i).destructorFunc ≠ 0) : s.table.funcs i = s.registered i := by
  rcases h.slots i hi with heq | ⟨hcleared, _⟩
  · exact heq
  · rw [hcleared] at hf
    exact absurd rfl hf

theorem called_nodup (f : UInt64) : (cxaFinalize s.table f).1.Nodup := by
  rw [cxaFinalize, finalizeLoop_fst]
  exact (List.nodup_reverse.mpr List.nodup_range).filter _

private theorem Tracked.called_eq (h : s.Tracked) {f : UInt64}
    (hop : s.OneHandle (.finalize f)) :
    (cxaFinalize s.table f).1 = (List.range s.table.count).reverse.filter (s.Pending f) := by
  rw [cxaFinalize, finalizeLoop_fst]
  apply List.filter_congr
  intro i hi
  rw [List.mem_reverse, List.mem_range] at hi
  apply decide_eq_decide.mpr
  constructor
  · intro hf
    obtain ⟨hran, hdso⟩ := hop i hi hf
    have heq := h.registered_eq hi hf
    rw [heq] at hf hdso
    exact ⟨hf, hran, hdso⟩
  · intro hpending
    obtain ⟨hf, hran, _⟩ := hpending
    rcases h.slots i hi with heq | ⟨_, hcleared⟩
    · rwa [heq]
    · exact absurd (hcleared hf) hran

private theorem step_nodup (h : s.Tracked) {f : UInt64} (hop : s.OneHandle (.finalize f)) :
    (s.step (.finalize f)).ran.Nodup := by
  apply h.nodup.append (called_nodup f)
  intro i hran hcalled
  obtain ⟨hi, hf⟩ := mem_called_iff.mp hcalled
  exact (hop i hi hf).1 hran

theorem Tracked.runsOnce_iff (h : s.Tracked) (op : AtexitOp) : s.RunsOnce op ↔ s.OneHandle op := by
  cases op with
  | atexit entry => exact Iff.rfl
  | finalize f =>
    constructor
    · intro hruns i hi hf
      have hmem : i ∈ (cxaFinalize s.table f).1 := mem_called_iff.mpr ⟨hi, hf⟩
      rw [hruns.1, List.mem_filter, decide_eq_true_iff] at hmem
      obtain ⟨_, _, hran, hdso⟩ := hmem
      rw [h.registered_eq hi hf]
      exact ⟨hran, hdso⟩
    · intro hop
      refine ⟨h.called_eq hop, ?_, step_nodup h hop⟩
      intro i hcalled
      obtain ⟨hi, hf⟩ := mem_called_iff.mp hcalled
      exact h.registered_eq hi hf

theorem step_atexit {entry : AtexitFuncEntry} (h : ¬ kAtExitMacDestructors ≤ s.table.count) :
    s.step (.atexit entry) =
      { table := ⟨Function.update s.table.funcs s.table.count entry, s.table.count + 1,
          Nat.lt_of_not_le h⟩
        registered := Function.update s.registered s.table.count entry
        ran := s.ran } := by
  simp [step, NewKit.atexit, h]

/-- What a call leaves in a slot. -/
theorem step_finalize_funcs (f : UInt64) {i : Nat} (hi : i < s.table.count) :
    (s.step (.finalize f)).table.funcs i =
      if f = 0 then s.table.funcs i else (s.table.funcs i).cleared := by
  have hwalk := finalizeLoop_snd (f ≠ 0) s.table.funcs s.table.count i
  rw [show (s.step (.finalize f)).table.funcs i = _ from hwalk]
  by_cases hf : f = 0 <;> simp [hf, hi]

theorem Tracked.step (h : s.Tracked) (op : AtexitOp) (hop : s.OneHandle op) :
    (s.step op).Tracked := by
  cases op with
  | atexit entry =>
    by_cases hfull : kAtExitMacDestructors ≤ s.table.count
    · have hsame : s.step (.atexit entry) = s := by
        simp [AtexitRun.step, NewKit.atexit, hfull]
      rwa [hsame]
    · rw [step_atexit hfull]
      refine ⟨h.nodup, ?_⟩
      intro i hi
      dsimp only at hi ⊢
      by_cases hlast : i = s.table.count
      · subst hlast
        exact Or.inl (by simp)
      · rw [Function.update_of_ne hlast, Function.update_of_ne hlast]
        exact h.slots i (by omega)
  | finalize f =>
    refine ⟨step_nodup h hop, ?_⟩
    intro i hi
    change i < s.table.count at hi
    have hkept : ∀ j ∈ s.ran, j ∈ (s.step (.finalize f)).ran := fun j => List.mem_append_left _
    rw [step_finalize_funcs f hi]
    rcases h.slots i hi with heq | ⟨hcleared, hran⟩
    · by_cases hf : f = 0
      · rw [if_pos hf]
        exact Or.inl heq
      · rw [if_neg hf, heq]
        refine Or.inr ⟨rfl, fun hreg => List.mem_append_right _ ?_⟩
        exact mem_called_iff.mpr ⟨hi, heq ▸ hreg⟩
    · refine Or.inr ⟨?_, fun hreg => hkept i (hran hreg)⟩
      rw [hcleared]
      exact ite_id _

/-- Every destructor runs once, when it is due, exactly in the runs in which every call finds only
destructors in the table that have not run and that belong to its handle. -/
theorem along_runsOnce_iff (ops : List AtexitOp) :
    Along step RunsOnce start ops ↔ Along step OneHandle start ops :=
  along_iff_of_invariant (fun _ op h => h.runsOnce_iff op) (fun _ op h => h.step op) start_tracked
    ops

private theorem first_call_due {entry : AtexitFuncEntry} {f : UInt64} {rest : List AtexitOp}
    (h : Along step RunsOnce start (.atexit entry :: .finalize f :: rest)) :
    (start.step (.atexit entry)).OneHandle (.finalize f) := by
  obtain ⟨_, hruns, _⟩ := h
  exact ((start_tracked.step (.atexit entry) trivial).runsOnce_iff _).mp hruns

/-- The handle of another object runs the destructor. -/
theorem finalize_runs_other :
    ¬ Along step RunsOnce start [.atexit ⟨0x1000, 0, 1⟩, .finalize 2] := by
  intro h
  have hdso := first_call_due h 0 (by decide) (by decide)
  exact absurd hdso.2 (by decide)

end AtexitRun

end Zka.NewKit
