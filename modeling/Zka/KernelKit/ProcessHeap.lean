import Zka.Framework.Run
import Zka.KernelKit.ProcessCalls

/-!
# Ownership of process memory

Runs of `New` and `Delete` on one process, and what its `Exit` then releases.
-/

namespace Zka.KernelKit

open Outcome

namespace UserProcess

inductive HeapOp where
  | new (sz padAmount : UInt64) (ptr node : VoidPtr)
  | delete (ptr : ErrorOr) (sz : UInt64)

/-- The kernel, all memory that was allocated, the part of it that was not deleted, and what the
calls of `New` returned for it. -/
structure HeapState where
  kernel : Kernel
  allocated : List VoidPtr
  held : List VoidPtr
  replies : List (VoidPtr × ErrorOr)

namespace HeapState

def start (k : Kernel) : HeapState := ⟨k, [], [], []⟩

def afterNew (s : HeapState) (ptr : VoidPtr) (r : ErrorOr × Kernel) : HeapState where
  kernel := r.2
  allocated := s.allocated ++ [ptr]
  held := s.held ++ [ptr]
  replies := s.replies ++ [(ptr, r.1)]

def afterDelete (s : HeapState) (ptr : ErrorOr) (sz : UInt64) (r : Bool × Kernel) : HeapState :=
  { s with
    kernel := r.2
    held := match ptr.ref with
      | none => s.held
      | some value => if sz = 0 then s.held else s.held.erase value }

/-- The heap does not hand out what is in use. -/
def Fresh (answers : HeapAnswers) (this : VoidPtr) (s : HeapState) (a : VoidPtr) : Prop :=
  a ≠ 0 ∧ a ≠ this ∧ a ∉ s.held ∧ s.kernel.nodes a = none ∧
    ∀ p, s.kernel.processes this = some p → a ∉ p.blocks answers

end HeapState

/-- One call that returns; the heap never fails. -/
inductive HeapStep (answers : HeapAnswers) (this : VoidPtr) : HeapState → HeapOp → HeapState → Prop
  | new {s : HeapState} {sz padAmount : UInt64} {ptr node : VoidPtr} {r : ErrorOr × Kernel}
      (hptr : s.Fresh answers this ptr) (hnode : s.Fresh answers this node) (hne : ptr ≠ node)
      (h : new s.kernel this sz padAmount ptr node = .done r) :
      HeapStep answers this s (.new sz padAmount ptr node) (s.afterNew ptr r)
  | delete {s : HeapState} {ptr : ErrorOr} {sz : UInt64} {r : Bool × Kernel}
      (h : Yields (fun fuel => delete answers fuel s.kernel this ptr sz) r) :
      HeapStep answers this s (.delete ptr sz) (s.afterDelete ptr sz r)

/-- Each node points back to the one in front of it. -/
def PrevLinked : VoidPtr → List (VoidPtr × UserProcessHeapList) → Prop
  | _, [] => True
  | prev, (a, e) :: rest => e.memoryPrev = prev ∧ PrevLinked a rest

def releases (trace : List HeapCall) (ptr : VoidPtr) : Nat :=
  trace.countP fun c => c.kind = .release ∧ c.ptr = ptr

/-- `New` returned what it allocated, the list holds what is held, and by the end of `Exit` all of
it was released once. -/
structure Owned (answers : HeapAnswers) (this : VoidPtr) (s : HeapState) : Prop where
  returned : ∀ q ∈ s.replies, q.2 = .ofValue q.1
  distinct : s.held.Nodup
  listed : ∃ p l, s.kernel.processes this = some p ∧ HeapList s.kernel p.processMemoryHeap l ∧
    PrevLinked 0 l ∧ (l.map fun q => q.2.memoryEntry).Perm s.held
  released : ∀ exitCode k, Yields (fun fuel => exit answers fuel s.kernel this exitCode) k →
    ∀ ptr ∈ s.allocated, releases k.trace ptr = 1

/-- Nothing was allocated before, and nothing that is held is deleted. -/
def HeapOp.Fits (s : HeapState) : HeapOp → Prop
  | new _ _ _ _ => s.allocated = []
  | delete ptr sz => sz = 0 ∨ ∀ value, ptr.ref = some value → value ∉ s.held

section Run

variable {answers : HeapAnswers} {this : VoidPtr} {k : Kernel} {p : UserProcess} {s t : HeapState}

/-- The states of a run that fits: nothing was allocated yet, or there is one node. -/
private inductive HeapInv (answers : HeapAnswers) (this : VoidPtr) (k : Kernel) (p : UserProcess) :
    HeapState → Prop
  | empty : HeapInv answers this k p (.start k)
  | one {ptr node : VoidPtr} (sz pad : UInt64) (hptr : ptr ≠ 0) (hnode : node ≠ 0) (hne : ptr ≠ node)
      (hthis : ptr ≠ this) (hblocks : ptr ∉ p.blocks answers) :
      HeapInv answers this k p
        ⟨firstMemory k this p sz pad ptr node, [ptr], [ptr], [(ptr, .ofValue ptr)]⟩

private theorem firstMemory_list (k : Kernel) (this : VoidPtr) (p : UserProcess)
    (sz pad : UInt64) (ptr : VoidPtr) {node : VoidPtr} (hnode : node ≠ 0) :
    HeapList (firstMemory k this p sz pad ptr node) node [(node, ⟨ptr, sz, pad, 0, 0⟩)] := by
  refine ⟨rfl, hnode, ?_, rfl⟩
  exact Function.update_self ..

private theorem firstMemory_process (k : Kernel) (this : VoidPtr) (p : UserProcess)
    (sz pad : UInt64) (ptr node : VoidPtr) :
    (firstMemory k this p sz pad ptr node).processes this =
      some { p with processMemoryHeap := node } :=
  Function.update_self ..

/-- `Exit` releases the one memory once: it is neither the node nor another block. -/
private theorem one_released {ptr node : VoidPtr} (sz pad : UInt64) (cr3 vm : VoidPtr)
    {calls : List HeapCall} (hptr : ptr ≠ 0) (hne : ptr ≠ node) (hthis : ptr ≠ this)
    (hblocks : ptr ∉ p.blocks answers)
    (hcalls : ∀ c ∈ calls, c.subject = .other ∧
      (c.kind = .release → c.ptr = this ∨ c.ptr ∈ p.blocks answers)) :
    releases (exitCalls cr3 vm [(node, ⟨ptr, sz, pad, 0, 0⟩)] ++ calls) ptr = 1 := by
  have hrest : calls.countP (fun c => c.kind = .release ∧ c.ptr = ptr) = 0 := by
    rw [List.countP_eq_zero]
    intro c hc
    simp only [decide_eq_true_eq]
    intro h
    rcases h with ⟨hkind, hcptr⟩
    rcases (hcalls c hc).2 hkind with heq | hmem
    · exact hthis (hcptr.symm.trans heq)
    · exact hblocks (hcptr ▸ hmem)
  rw [releases, List.countP_append, hrest]
  simp [exitCalls, hptr, hne.symm]

private theorem owned_empty (hp : k.processes this = some p) (hlist : p.processMemoryHeap = 0) :
    Owned answers this (.start k) where
  returned _ hq := nomatch hq
  distinct := List.nodup_nil
  listed := ⟨p, [], hp, hlist, trivial, List.Perm.refl _⟩
  released _ _ _ _ hmem := nomatch hmem

private theorem HeapInv.owned (htrace : k.trace = []) (hp : k.processes this = some p)
    (hlist : p.processMemoryHeap = 0) (h : HeapInv answers this k p s) : Owned answers this s := by
  cases h with
  | empty => exact owned_empty hp hlist
  | @one ptr node sz pad hptr hnode hne hthis hblocks =>
    have hl := firstMemory_list k this p sz pad ptr hnode
    have hproc := firstMemory_process k this p sz pad ptr node
    refine ⟨?_, List.nodup_singleton ptr, ⟨_, _, hproc, hl, ⟨rfl, trivial⟩, List.Perm.refl _⟩, ?_⟩
    · intro q hq
      rw [List.mem_singleton.mp hq]
    · intro exitCode k' hy x hx
      rw [List.mem_singleton.mp hx]
      obtain ⟨fuel, hrun⟩ := id hy
      obtain ⟨q, hq, hok, _⟩ := exit_gone hrun
      obtain rfl : { p with processMemoryHeap := node } = q := Option.some.inj (hproc.symm.trans hq)
      obtain ⟨k₁, hexit, _, calls, htr, hcalls⟩ :=
        exit_done answers exitCode hproc hl (Nat.lt_succ_self _) hok
      obtain rfl := hy.unique (exit_mono answers _ this exitCode) (.intro _ hexit)
      have hone := one_released sz pad k.cr3 p.vmRegister hptr hne hthis hblocks hcalls
      rw [releases] at hone
      rw [htr, firstMemory, htrace, releases, List.countP_append, hone]
      simp

/-- The second memory is not returned. -/
private theorem owned_new {sz pad : UInt64} {ptr node : VoidPtr} {r : ErrorOr × Kernel}
    (hp : k.processes this = some p) (hlist : p.processMemoryHeap = 0)
    (h : HeapInv answers this k p s) (hptr : s.Fresh answers this ptr)
    (hnode : s.Fresh answers this node) (hne : ptr ≠ node)
    (hr : new s.kernel this sz pad ptr node = .done r) :
    (HeapOp.new sz pad ptr node).Fits s ∧ HeapInv answers this k p (s.afterNew ptr r) ∨
      ¬ (HeapOp.new sz pad ptr node).Fits s ∧ ¬ Owned answers this (s.afterNew ptr r) := by
  obtain ⟨hptr0, hthis, _, _, hblocks⟩ := hptr
  cases h with
  | empty =>
    left
    have hfirst := new_first sz pad ptr hp hlist hnode.1
    obtain rfl := done.inj (hfirst.symm.trans hr)
    exact ⟨rfl, .one sz pad hptr0 hnode.1 hne hthis (hblocks p hp)⟩
  | @one ptr' node' sz' pad' _ hnode' _ _ _ =>
    right
    have hhead : (firstMemory k this p sz' pad' ptr' node').nodes node' =
        some ⟨ptr', sz', pad', 0, 0⟩ := Function.update_self ..
    have hfurther := new_further sz pad ptr (firstMemory_process k this p sz' pad' ptr' node')
      hnode' hhead hnode.1
    obtain rfl := done.inj (hfurther.symm.trans hr)
    refine ⟨List.cons_ne_nil _ _, fun hown => ?_⟩
    have hreply := hown.returned (ptr, .ofNull) (List.mem_append_right _ (List.mem_singleton_self _))
    cases hreply

/-- A delete that is refused leaves what is held. -/
private theorem afterDelete_refused {ptr : ErrorOr} {sz : UInt64}
    (hfit : (HeapOp.delete ptr sz).Fits s) : s.afterDelete ptr sz (false, s.kernel) = s := by
  rw [HeapState.afterDelete]
  cases hptr : ptr.ref with
  | none => rfl
  | some value =>
    dsimp only
    by_cases hsz : sz = 0
    · rw [if_pos hsz]
    · rw [if_neg hsz, List.erase_of_not_mem (hfit.resolve_left hsz value hptr)]

/-- What is deleted stays in the list. -/
private theorem owned_delete {ptr : ErrorOr} {sz : UInt64} {r : Bool × Kernel}
    (hp : k.processes this = some p) (hlist : p.processMemoryHeap = 0)
    (h : HeapInv answers this k p s)
    (hr : Yields (fun fuel => delete answers fuel s.kernel this ptr sz) r) :
    (HeapOp.delete ptr sz).Fits s ∧ HeapInv answers this k p (s.afterDelete ptr sz r) ∨
      ¬ (HeapOp.delete ptr sz).Fits s ∧ ¬ Owned answers this (s.afterDelete ptr sz r) := by
  by_cases hfit : (HeapOp.delete ptr sz).Fits s
  · left
    have hrefused : r = (false, s.kernel) := by
      cases h with
      | empty => exact delete_refused (l := []) hp hlist (Or.inr fun _ _ _ hq => nomatch hq) hr
      | @one ptr' node' sz' pad' _ hnode' _ _ _ =>
        refine delete_refused (firstMemory_process k this p sz' pad' ptr' node')
          (firstMemory_list k this p sz' pad' ptr' hnode')
          (hfit.imp_right fun hv value hvalue q hq => ?_) hr
        rw [List.mem_singleton.mp hq]
        intro heq
        exact hv value hvalue (List.mem_singleton.mpr heq.symm)
    rw [hrefused, afterDelete_refused hfit]
    exact ⟨hfit, h⟩
  · right
    refine ⟨hfit, fun hown => ?_⟩
    cases h with
    | empty => exact hfit (Or.inr fun _ _ hmem => nomatch hmem)
    | @one ptr' node' sz' pad' _ hnode' _ _ _ =>
      obtain ⟨hsz, hv⟩ := not_or.mp hfit
      push Not at hv
      obtain ⟨value, hptr, hmem⟩ := hv
      obtain rfl := List.mem_singleton.mp hmem
      have hl := firstMemory_list k this p sz' pad' value hnode'
      have hproc := firstMemory_process k this p sz' pad' value node'
      have hk := delete_released hproc hl hsz hptr ⟨_, List.mem_singleton_self _, rfl⟩ hr
      obtain ⟨q, l, hq, hlist', _, hperm⟩ := hown.listed
      change r.2.processes this = some q at hq
      change HeapList r.2 _ _ at hlist'
      rw [hk] at hq hlist'
      obtain rfl : { p with processMemoryHeap := node' } = q := Option.some.inj (hproc.symm.trans hq)
      have hheld : ((HeapState.mk (firstMemory k this p sz' pad' value node') [value] [value]
          [(value, .ofValue value)]).afterDelete ptr sz r).held = [] := by
        rw [HeapState.afterDelete, hptr]
        dsimp only
        rw [if_neg hsz, List.erase_cons_head]
      have hsame : l = _ := Chain.unique hlist' hl
      rw [hsame, hheld] at hperm
      exact absurd hperm.length_eq (by simp)

private theorem heapInv_step (hp : k.processes this = some p) (hlist : p.processMemoryHeap = 0)
    (h : HeapInv answers this k p s) {op : HeapOp} (hs : HeapStep answers this s op t) :
    op.Fits s ∧ HeapInv answers this k p t ∨ ¬ op.Fits s ∧ ¬ Owned answers this t := by
  cases hs with
  | new hptr hnode hne hr => exact owned_new hp hlist h hptr hnode hne hr
  | delete hr => exact owned_delete hp hlist h hr

private theorem heap_run (hp : k.processes this = some p) (hlist : p.processMemoryHeap = 0)
    (hr : Reaches (HeapStep answers this) (fun s op => op.Fits s) (.start k) s) :
    HeapInv answers this k p s := by
  refine hr.invariant (HeapInv answers this k p) .empty ?_
  intro x op y hinv hfit hs
  rcases heapInv_step hp hlist hinv hs with ⟨_, hnext⟩ | ⟨hnot, _⟩
  · exact hnext
  · exact absurd hfit hnot

end Run

/-- The process at `0x5000` once it has got its first memory. -/
def sampleOwner : HeapState :=
  ⟨firstMemory (sampleKernel 0) 0x5000 (sample 0) 16 0 0xA000 0x9000, [0xA000], [0xA000],
    [(0xA000, .ofValue 0xA000)]⟩

private theorem sample_first : HeapStep sampleAnswers 0x5000 (.start (sampleKernel 0))
    (.new 16 0 0xA000 0x9000) sampleOwner := by
  have hfresh : ∀ a : VoidPtr, a ≠ 0 → a ≠ 0x5000 → a ≠ 0x7000 →
      a ∉ (sample 0).blocks sampleAnswers →
      (HeapState.start (sampleKernel 0)).Fresh sampleAnswers 0x5000 a := by
    intro a h0 hthis hnode ha
    refine ⟨h0, hthis, List.not_mem_nil, if_neg hnode, fun p hp => ?_⟩
    rwa [← Option.some.inj hp]
  have hr : new (sampleKernel 0) 0x5000 16 0 0xA000 0x9000 = _ :=
    new_first 16 0 0xA000 rfl rfl (by decide)
  refine HeapStep.new (hfresh _ ?_ ?_ ?_ ?_) (hfresh _ ?_ ?_ ?_ ?_) ?_ hr
  all_goals decide

private theorem sample_run : Reaches (HeapStep sampleAnswers 0x5000) (fun s op => op.Fits s)
    (.start (sampleKernel 0)) sampleOwner :=
  .one (show (HeapOp.new 16 0 0xA000 0x9000).Fits (.start (sampleKernel 0)) from rfl) sample_first

end UserProcess

end Zka.KernelKit
