import Zka.KernelKit.ProcessCalls

/-!
# The address space during calls of a process

Which of the calls of the heap that `New`, `Delete` and `Exit` make see the page
directory of the process in CR3, and what is left in CR3.
-/

namespace Zka.KernelKit

open Outcome

/-- Memory entries are handled in the address space of the process, list nodes in the one of the
caller. -/
def HeapCall.InSpace (vmRegister entryCr3 : VoidPtr) (c : HeapCall) : Prop :=
  match c.subject with
  | .entry => c.cr3 = vmRegister
  | .node => c.cr3 = entryCr3
  | .other => True

/-- From `k` to `k'` CR3 is kept and every call was made in its address space. -/
def KeepsAddressSpace (vmRegister : VoidPtr) (k k' : Kernel) : Prop :=
  k'.cr3 = k.cr3 ∧ ∃ calls, k'.trace = k.trace ++ calls ∧
    ∀ c ∈ calls, c.InSpace vmRegister k.cr3

namespace UserProcess

/-- `New`, `Delete` and `Exit` of a process keep the address space, whenever they return. -/
def AddressSpaceDiscipline (answers : HeapAnswers) (k : Kernel) (this : VoidPtr)
    (p : UserProcess) : Prop :=
  (∀ sz pad ptr node r k', new k this sz pad ptr node = .done (r, k') →
    KeepsAddressSpace p.vmRegister k k') ∧
  (∀ ptr sz r k', Yields (fun fuel => delete answers fuel k this ptr sz) (r, k') →
    KeepsAddressSpace p.vmRegister k k') ∧
  ∀ exitCode k', Yields (fun fuel => exit answers fuel k this exitCode) k' →
    KeepsAddressSpace p.vmRegister k k'

/-- CR3 already holds the page directory of the process, or only the first node has memory. -/
def ExitInSpace (k : Kernel) (p : UserProcess) (l : List (VoidPtr × UserProcessHeapList)) : Prop :=
  k.cr3 = p.vmRegister ∨ l ≠ [] ∧ ∀ q ∈ l.tail, q.2.memoryEntry = 0

section Discipline

variable {answers : HeapAnswers} {k k' : Kernel} {this : VoidPtr} {p : UserProcess}
  {l : List (VoidPtr × UserProcessHeapList)}

theorem new_keepsAddressSpace {sz pad : UInt64} {ptr node : VoidPtr} {r : ErrorOr}
    (hp : k.processes this = some p) (hl : HeapList k p.processMemoryHeap l)
    (h : new k this sz pad ptr node = .done (r, k')) : KeepsAddressSpace p.vmRegister k k' := by
  have hnode : node ≠ 0 := by
    intro h
    subst h
    rw [new, process_eq hp, done_bind] at h
    dsimp only at h
    split at h
    · rw [if_pos rfl] at h
      cases h
    · rw [bind_eq_done] at h
      obtain ⟨entry, _, h⟩ := h
      rw [bind_eq_done] at h
      obtain ⟨e, _, h⟩ := h
      rw [if_pos rfl] at h
      cases h
  have hcalls : ∀ c ∈ [(⟨.allocate, .entry, ptr, p.vmRegister⟩ : HeapCall),
      ⟨.allocate, .node, node, k.cr3⟩], c.InSpace p.vmRegister k.cr3 := by
    simp [HeapCall.InSpace]
  by_cases hlist : p.processMemoryHeap = 0
  · rw [new_first sz pad ptr hp hlist hnode] at h
    cases h
    exact ⟨rfl, _, List.append_assoc _ _ _, hcalls⟩
  · obtain ⟨e, he⟩ : ∃ e, k.nodes p.processMemoryHeap = some e := by
      cases l with
      | nil => exact absurd hl hlist
      | cons q rest => exact ⟨q.2, hl.2.2.1⟩
    rw [new_further sz pad ptr hp hlist he hnode] at h
    cases h
    exact ⟨rfl, _, List.append_assoc _ _ _, hcalls⟩

theorem delete_keepsAddressSpace {ptr : ErrorOr} {sz : UInt64} {r : Bool}
    (hp : k.processes this = some p) (hl : HeapList k p.processMemoryHeap l)
    (h : Yields (fun fuel => delete answers fuel k this ptr sz) (r, k')) :
    KeepsAddressSpace p.vmRegister k k' := by
  have hrefl : KeepsAddressSpace p.vmRegister k k :=
    ⟨rfl, [], (List.append_nil _).symm, fun _ hc => nomatch hc⟩
  by_cases hv : sz ≠ 0 ∧ ∃ value, ptr.ref = some value ∧ ∃ q ∈ l, q.2.memoryEntry = value
  · obtain ⟨hsz, value, hptr, hv⟩ := hv
    have heq : k' = _ := delete_released hp hl hsz hptr hv h
    subst heq
    exact ⟨rfl, _, rfl, by simp [HeapCall.InSpace]⟩
  · have heq := delete_refused hp hl (by
      by_contra hnot
      push Not at hnot
      exact hv hnot) h
    cases heq
    exact hrefl

/-- Past the first node CR3 holds the caller's value. -/
theorem exitCalls_inSpace {vmRegister pd : VoidPtr} :
    (∀ c ∈ exitCalls pd pd l, c.InSpace vmRegister pd) ↔
      pd = vmRegister ∨ ∀ q ∈ l, q.2.memoryEntry = 0 := by
  induction l with
  | nil => simp [exitCalls]
  | cons q rest ih =>
    obtain ⟨a, e⟩ := q
    have hhead : (∀ c ∈ if e.memoryEntry ≠ 0 then
        [(⟨.release, .entry, e.memoryEntry, pd⟩ : HeapCall)] else [], c.InSpace vmRegister pd) ↔
          pd = vmRegister ∨ e.memoryEntry = 0 := by
      split
      · rename_i hne
        simp [HeapCall.InSpace, hne]
      · rename_i hnull
        rw [not_not] at hnull
        simp [hnull]
    rw [exitCalls, List.forall_mem_append, List.forall_mem_cons, ih, hhead, List.forall_mem_cons]
    simp only [HeapCall.InSpace, true_and]
    tauto

theorem exitCalls_inSpace_iff {cr3 : VoidPtr} :
    (if l = [] then p.vmRegister else cr3) = cr3 ∧
      (∀ c ∈ exitCalls cr3 p.vmRegister l, c.InSpace p.vmRegister cr3) ↔
    cr3 = p.vmRegister ∨ l ≠ [] ∧ ∀ q ∈ l.tail, q.2.memoryEntry = 0 := by
  cases l with
  | nil => simp [exitCalls, eq_comm]
  | cons q rest =>
    obtain ⟨a, e⟩ := q
    have hhead : ∀ c ∈ if e.memoryEntry ≠ 0 then
        [(⟨.release, .entry, e.memoryEntry, p.vmRegister⟩ : HeapCall)] else [],
          c.InSpace p.vmRegister cr3 := by
      split
      · simp [HeapCall.InSpace]
      · simp
    rw [if_neg (List.cons_ne_nil _ _), exitCalls, List.forall_mem_append, List.forall_mem_cons,
      exitCalls_inSpace]
    simp only [HeapCall.InSpace, true_and, List.tail_cons, ne_eq, reduceCtorEq, not_false_eq_true]
    exact and_iff_right hhead

theorem exit_keepsAddressSpace_iff {exitCode : Int32} (hp : k.processes this = some p)
    (hl : HeapList k p.processMemoryHeap l) (hok : ¬ p.ExitFaults)
    (h : Yields (fun fuel => exit answers fuel k this exitCode) k') :
    KeepsAddressSpace p.vmRegister k k' ↔ ExitInSpace k p l := by
  obtain ⟨k₁, hexit, hcr3, calls, htrace, hcalls⟩ :=
    exit_done answers exitCode hp hl (Nat.lt_succ_self _) hok
  have heq := h.unique (exit_mono answers k this exitCode) (.intro _ hexit)
  subst heq
  rw [ExitInSpace, ← exitCalls_inSpace_iff, KeepsAddressSpace, hcr3, htrace]
  refine and_congr_right fun _ => ⟨?_, ?_⟩
  · intro h c hc
    rcases h with ⟨all, heq, hall⟩
    rw [← List.append_cancel_left heq] at hall
    exact hall c (List.mem_append_left _ hc)
  · intro hspace
    refine ⟨_, rfl, fun c hc => ?_⟩
    rcases List.mem_append.mp hc with hc | hc
    · exact hspace c hc
    · simp [HeapCall.InSpace, (hcalls c hc).1]

private theorem discipline_iff (answers : HeapAnswers) (hp : k.processes this = some p)
    (hl : HeapList k p.processMemoryHeap l) :
    AddressSpaceDiscipline answers k this p ↔ p.ExitFaults ∨ ExitInSpace k p l := by
  constructor
  · intro h
    rcases h with ⟨_, _, hexit⟩
    by_contra hcond
    obtain ⟨hok, hspace⟩ := not_or.mp hcond
    obtain ⟨k₁, hrun, _⟩ := exit_done answers 0 hp hl (Nat.lt_succ_self _) hok
    have hy : Yields (fun fuel => exit answers fuel k this 0) k₁ := .intro _ hrun
    exact hspace ((exit_keepsAddressSpace_iff hp hl hok hy).mp (hexit 0 k₁ hy))
  · intro hcond
    refine ⟨fun _ _ _ _ _ _ h => new_keepsAddressSpace hp hl h,
      fun _ _ _ _ h => delete_keepsAddressSpace hp hl h, fun exitCode k₁ hy => ?_⟩
    have hok : ¬ p.ExitFaults := by
      obtain ⟨fuel, hrun⟩ := hy
      obtain ⟨q, hq, hok, _⟩ := exit_gone hrun
      rwa [Option.some.inj (hq.symm.trans hp)] at hok
    exact (exit_keepsAddressSpace_iff hp hl hok hy).mpr (hcond.resolve_left hok)

end Discipline

end UserProcess

end Zka.KernelKit
