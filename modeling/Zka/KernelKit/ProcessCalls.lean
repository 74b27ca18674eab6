import Zka.KernelKit.UserProcess

/-!
# What the calls of a process do

One lemma for each way in which `New`, `Delete` and `Exit` run on a memory list:
the answer, the calls of the heap that are recorded, and what is left alone.
-/

namespace Zka.KernelKit

open Outcome

namespace UserProcess

/-- The memory list of a process, with the addresses of its nodes. -/
def HeapList (k : Kernel) (head : VoidPtr) (l : List (VoidPtr × UserProcessHeapList)) : Prop :=
  Chain 0 UserProcessHeapList.memoryNext k.nodes head l

section Calls

variable {answers : HeapAnswers} {k k' : Kernel} {this : VoidPtr} {p : UserProcess}
  {l : List (VoidPtr × UserProcessHeapList)}

theorem process_eq (hp : k.processes this = some p) : k.process this = .done p := by
  rw [Kernel.process, hp]

theorem node_eq {a : VoidPtr} {e : UserProcessHeapList} (he : k.nodes a = some e) :
    k.node a = .done e := by
  rw [Kernel.node, he]

theorem node_eq_done {a : VoidPtr} {e : UserProcessHeapList} (h : k.node a = .done e) :
    k.nodes a = some e := by
  rw [Kernel.node] at h
  split at h
  · cases h
    assumption
  · cases h

theorem process_eq_done {q : UserProcess} (h : k.process this = .done q) :
    k.processes this = some q := by
  rw [Kernel.process] at h
  split at h
  · cases h
    assumption
  · cases h

def firstMemory (k : Kernel) (this : VoidPtr) (p : UserProcess) (sz pad : UInt64)
    (ptr node : VoidPtr) : Kernel :=
  { k with
    nodes := Function.update k.nodes node (some ⟨ptr, sz, pad, 0, 0⟩)
    processes := Function.update k.processes this (some { p with processMemoryHeap := node })
    trace := k.trace ++ [⟨.allocate, .entry, ptr, p.vmRegister⟩] ++
      [⟨.allocate, .node, node, k.cr3⟩] }

theorem new_first (sz pad : UInt64) (ptr : VoidPtr) {node : VoidPtr}
    (hp : k.processes this = some p) (hlist : p.processMemoryHeap = 0) (hnode : node ≠ 0) :
    new k this sz pad ptr node = .done (.ofValue ptr, firstMemory k this p sz pad ptr node) := by
  rw [new, process_eq hp, done_bind]
  dsimp only
  rw [if_pos hlist, if_neg hnode]
  rfl

/-- Every further memory cuts off what came after the first node, and is not returned. -/
theorem new_further (sz pad : UInt64) (ptr : VoidPtr) {node : VoidPtr} {e : UserProcessHeapList}
    (hp : k.processes this = some p) (hlist : p.processMemoryHeap ≠ 0)
    (he : k.nodes p.processMemoryHeap = some e) (hnode : node ≠ 0) :
    new k this sz pad ptr node = .done (.ofNull,
      { k with
        nodes := Function.update (Function.update k.nodes p.processMemoryHeap
          (some { e with memoryNext := node })) node (some ⟨ptr, 0, 0, p.processMemoryHeap, 0⟩)
        trace := k.trace ++ [⟨.allocate, .entry, ptr, p.vmRegister⟩] ++
          [⟨.allocate, .node, node, k.cr3⟩] }) := by
  have he' : (((k.writeCr3 p.vmRegister).called .allocate .entry ptr).writeCr3 k.cr3).node
      p.processMemoryHeap = .done e := node_eq he
  rw [new, process_eq hp, done_bind]
  dsimp only
  rw [if_neg hlist, newWalk, if_neg hlist, done_bind, he', done_bind, if_neg hnode]
  rfl

/-- `Delete` refuses a pointer that no node holds. -/
theorem deleteLoop_missing (answers : HeapAnswers) (vmRegister : VoidPtr) {value head : VoidPtr}
    {fuel : Nat}
    (hl : HeapList k head l) (hfuel : l.length < fuel) (hv : ∀ q ∈ l, q.2.memoryEntry ≠ value) :
    whileLoop (deleteBody answers k vmRegister value) fuel head = .done (false, k) := by
  induction l generalizing head fuel with
  | nil =>
    obtain ⟨fuel, rfl⟩ := Nat.exists_eq_succ_of_ne_zero (show fuel ≠ 0 by omega)
    have hnull : head = 0 := hl
    exact whileLoop_exit (by rw [deleteBody, if_pos hnull]) fuel
  | cons q rest ih =>
    obtain ⟨a, e⟩ := q
    obtain ⟨rfl, hne, he, hrest⟩ := hl
    obtain ⟨fuel, rfl⟩ := Nat.exists_eq_succ_of_ne_zero (show fuel ≠ 0 by omega)
    have hother : e.memoryEntry ≠ value := hv (a, e) List.mem_cons_self
    have hbody : deleteBody answers k vmRegister value a = .done (.inl e.memoryNext) := by
      rw [deleteBody, if_neg hne, node_eq he, done_bind, if_neg hother]
      rfl
    rw [whileLoop_continue hbody]
    exact ih hrest (Nat.lt_of_succ_lt_succ hfuel) fun q hq => hv q (List.mem_cons_of_mem _ hq)

/-- `Delete` releases the memory of a node that holds the pointer, and leaves the node. -/
theorem deleteLoop_found (answers : HeapAnswers) (vmRegister : VoidPtr) {value head : VoidPtr}
    {fuel : Nat}
    (hl : HeapList k head l) (hfuel : l.length < fuel) (hv : ∃ q ∈ l, q.2.memoryEntry = value) :
    ∃ ret, whileLoop (deleteBody answers k vmRegister value) fuel head =
      .done (ret, { k with trace := k.trace ++ [⟨.release, .entry, value, vmRegister⟩] }) := by
  induction l generalizing head fuel with
  | nil =>
    obtain ⟨q, hq, _⟩ := hv
    cases hq
  | cons q rest ih =>
    obtain ⟨a, e⟩ := q
    obtain ⟨rfl, hne, he, hrest⟩ := hl
    obtain ⟨fuel, rfl⟩ := Nat.exists_eq_succ_of_ne_zero (show fuel ≠ 0 by omega)
    by_cases hhere : e.memoryEntry = value
    · refine ⟨decide (answers.deleted (k.writeCr3 vmRegister) value ≠ 0), whileLoop_exit ?_ fuel⟩
      rw [deleteBody, if_neg hne, node_eq he, done_bind, if_pos hhere, hhere]
      rfl
    · have hbody : deleteBody answers k vmRegister value a = .done (.inl e.memoryNext) := by
        rw [deleteBody, if_neg hne, node_eq he, done_bind, if_neg hhere]
        rfl
      rw [whileLoop_continue hbody]
      refine ih hrest (Nat.lt_of_succ_lt_succ hfuel) ?_
      obtain ⟨q, hq, hqv⟩ := hv
      rcases List.mem_cons.mp hq with rfl | hq
      · exact absurd hqv hhere
      · exact ⟨q, hq, hqv⟩

/-- The calls of the loop in `Exit`, the first of them with CR3 at `cr3`. -/
def exitCalls (pd : VoidPtr) : VoidPtr → List (VoidPtr × UserProcessHeapList) → List HeapCall
  | _, [] => []
  | cr3, (a, e) :: rest =>
    (if e.memoryEntry ≠ 0 then [⟨.release, .entry, e.memoryEntry, cr3⟩] else []) ++
      ⟨.release, .node, a, pd⟩ :: exitCalls pd pd rest

theorem exitLoop (pd : VoidPtr) {head : VoidPtr} {fuel : Nat} (hl : HeapList k head l)
    (hfuel : l.length < fuel) :
    ∃ k', whileLoop (exitBody pd) fuel (k, head) = .done k' ∧
      k'.trace = k.trace ++ exitCalls pd k.cr3 l ∧ k'.cr3 = (if l = [] then k.cr3 else pd) ∧
      k'.processes = k.processes ∧ k'.team = k.team := by
  induction l generalizing k head fuel with
  | nil =>
    obtain ⟨fuel, rfl⟩ := Nat.exists_eq_succ_of_ne_zero (show fuel ≠ 0 by omega)
    refine ⟨k, whileLoop_exit ?_ fuel, (List.append_nil _).symm, rfl, rfl, rfl⟩
    exact if_pos hl
  | cons q rest ih =>
    obtain ⟨a, e⟩ := q
    have hchain := hl
    obtain ⟨rfl, hne, he, hrest⟩ := hl
    obtain ⟨fuel, rfl⟩ := Nat.exists_eq_succ_of_ne_zero (show fuel ≠ 0 by omega)
    obtain ⟨k₁, hk₁⟩ : ∃ k₁, k₁ = if e.memoryEntry ≠ 0 then
        k.called .release .entry e.memoryEntry else k := ⟨_, rfl⟩
    have hbody : exitBody pd (k, a) = .done (.inl
        ((((k₁.writeCr3 pd).called .release .node a).setNode a none), e.memoryNext)) := by
      rw [exitBody]
      dsimp only
      rw [if_neg hne, node_eq he, done_bind, hk₁]
      rfl
    have hframe : k₁.nodes = k.nodes ∧ k₁.processes = k.processes ∧ k₁.team = k.team ∧
        k₁.trace = k.trace ++
          if e.memoryEntry ≠ 0 then [⟨.release, .entry, e.memoryEntry, k.cr3⟩] else [] := by
      rw [hk₁]
      split
      · exact ⟨rfl, rfl, rfl, rfl⟩
      · exact ⟨rfl, rfl, rfl, (List.append_nil _).symm⟩
    obtain ⟨hnodes, hprocs, hteam, htrace⟩ := hframe
    have hnext : HeapList (((k₁.writeCr3 pd).called .release .node a).setNode a none)
        e.memoryNext rest := by
      change Chain _ _ (Function.update k₁.nodes a none) _ _
      rw [hnodes]
      exact Chain.update_head hchain
    obtain ⟨k', hk', htr, hcr3, hpr, htm⟩ := ih hnext (Nat.lt_of_succ_lt_succ hfuel)
    refine ⟨k', (whileLoop_continue hbody fuel).trans hk', ?_, ?_, hpr.trans hprocs,
      htm.trans hteam⟩
    · rw [htr, exitCalls]
      change (k₁.trace ++ [_]) ++ exitCalls pd pd rest = _
      rw [htrace]
      simp [Kernel.writeCr3]
    · rw [hcr3, if_neg (List.cons_ne_nil _ _)]
      split
      · rfl
      · rfl

/-- The blocks that `Exit` may delete besides the memory list. -/
def blocks (answers : HeapAnswers) (p : UserProcess) : List VoidPtr :=
  [p.image.fCode, p.image.fBlob, p.stackFrame, p.stackReserve, p.pefDLLDelegate,
    answers.traits p.pefDLLDelegate]

/-- From `k` to `k'` only blocks of the list were released, and nothing else changed. -/
structure Releases (blocks : List VoidPtr) (k k' : Kernel) : Prop where
  cr3_eq : k'.cr3 = k.cr3
  team_eq : k'.team = k.team
  processes_eq : k'.processes = k.processes
  calls : ∃ calls, k'.trace = k.trace ++ calls ∧
    ∀ c ∈ calls, c.subject = .other ∧ (c.kind = .release → c.ptr ∈ blocks)

namespace Releases

variable {k'' : Kernel} {blocks : List VoidPtr} {ptr : VoidPtr}

theorem refl (blocks : List VoidPtr) (k : Kernel) : Releases blocks k k :=
  ⟨rfl, rfl, rfl, [], (List.append_nil _).symm, fun _ hc => nomatch hc⟩

theorem trans (h : Releases blocks k k') (h' : Releases blocks k' k'') : Releases blocks k k'' := by
  obtain ⟨calls, htrace, hcalls⟩ := h.calls
  obtain ⟨calls', htrace', hcalls'⟩ := h'.calls
  refine ⟨h'.cr3_eq.trans h.cr3_eq, h'.team_eq.trans h.team_eq,
    h'.processes_eq.trans h.processes_eq, calls ++ calls', ?_, ?_⟩
  · rw [htrace', htrace, List.append_assoc]
  · intro c hc
    rcases List.mem_append.mp hc with hc | hc
    · exact hcalls c hc
    · exact hcalls' c hc

theorem called {kind : HeapCallKind} (h : kind = .release → ptr ∈ blocks) :
    Releases blocks k (k.called kind .other ptr) := by
  refine ⟨rfl, rfl, rfl, _, rfl, ?_⟩
  intro c hc
  rw [List.mem_singleton.mp hc]
  exact ⟨rfl, h⟩

theorem releaseValid (answers : HeapAnswers) (ptr : VoidPtr) (h : ptr ∈ blocks) :
    Releases blocks k (releaseValid answers k ptr) := by
  rw [UserProcess.releaseValid]
  split
  · exact called fun _ => h
  · exact refl blocks k

theorem operatorDelete (h : ptr ∈ blocks) : Releases blocks k (operatorDelete k ptr) := by
  rw [UserProcess.operatorDelete]
  split
  · exact refl blocks k
  · exact called fun _ => h

end Releases

/-- `Exit` cannot return: a library without a delegate, or a process that was never spawned. -/
def ExitFaults (p : UserProcess) : Prop :=
  p.kind = kExectuableDLLKind ∧ p.pefDLLDelegate = 0 ∨ p.hasParentTeam = false

theorem finiDll_releases (answers : HeapAnswers) (k : Kernel) (h : p.pefDLLDelegate ≠ 0) :
    ∃ k', finiDll answers k p.pefDLLDelegate = .done k' ∧ Releases (p.blocks answers) k k' := by
  refine ⟨_, if_neg h, ?_⟩
  have htraits : Releases (p.blocks answers) k
      (operatorDelete k (answers.traits p.pefDLLDelegate)) := .operatorDelete (by simp [blocks])
  exact htraits.trans (.operatorDelete (by simp [blocks]))

theorem releaseRest_releases (answers : HeapAnswers) (k : Kernel)
    (h : ¬ (p.kind = kExectuableDLLKind ∧ p.pefDLLDelegate = 0)) :
    ∃ k', releaseRest answers k p = .done k' ∧ Releases (p.blocks answers) k k' := by
  rw [releaseRest]
  have hbitmap : Releases (p.blocks answers) k (k.called .freeBitmap .other p.vmRegister) :=
    .called nofun
  have hcode := hbitmap.trans (.releaseValid answers p.image.fCode (by simp [blocks]))
  have hblob := hcode.trans (.releaseValid answers p.image.fBlob (by simp [blocks]))
  have hframe := hblob.trans (.releaseValid answers p.stackFrame (by simp [blocks]))
  by_cases hdll : p.kind = kExectuableDLLKind
  · obtain ⟨k₁, hk₁, hfini⟩ := finiDll_releases answers
      (releaseValid answers (releaseValid answers (releaseValid answers
        (k.called .freeBitmap .other p.vmRegister) p.image.fCode) p.image.fBlob) p.stackFrame)
      (fun hnull => h ⟨hdll, hnull⟩)
    rw [if_pos hdll, hk₁]
    exact ⟨_, rfl, (hframe.trans hfini).trans (.operatorDelete (by simp [blocks]))⟩
  · rw [if_neg hdll]
    exact ⟨_, rfl, hframe.trans (.operatorDelete (by simp [blocks]))⟩

theorem releaseRest_fault (h : p.kind = kExectuableDLLKind ∧ p.pefDLLDelegate = 0) :
    releaseRest answers k p = .fault .nullDereference := by
  rw [releaseRest, if_pos h.1, finiDll, if_pos h.2]
  rfl

/-- The loop of `Exit` leaves the processes and the team as they are, on any list. -/
theorem exitLoop_frame {pd head : VoidPtr} {fuel : Nat}
    (h : whileLoop (exitBody pd) fuel (k, head) = .done k') :
    k'.processes = k.processes ∧ k'.team = k.team := by
  refine whileLoop_invariant (fun s => s.1.processes = k.processes ∧ s.1.team = k.team)
    (fun r => r.processes = k.processes ∧ r.team = k.team) ?_ ?_ ⟨rfl, rfl⟩ h
  · intro h hp hinv hbody
    rcases h with ⟨k₁, a⟩
    rcases hp with ⟨k₂, b⟩
    rw [exitBody] at hbody
    dsimp only at hbody
    split at hbody
    · cases hbody
    · rw [bind_eq_done] at hbody
      obtain ⟨e, _, hbody⟩ := hbody
      cases hbody
      split
      · exact hinv
      · exact hinv
  · intro h r hinv hbody
    rcases h with ⟨k₁, a⟩
    rw [exitBody] at hbody
    dsimp only at hbody
    split at hbody
    · cases hbody
      exact hinv
    · rw [bind_eq_done] at hbody
      obtain ⟨e, _, hbody⟩ := hbody
      cases hbody

/-- The loop of `Exit` comes to its end on a memory list only: on any other chain of nodes it meets
one that is not there, or one that it has released. -/
theorem exitLoop_list {pd head : VoidPtr} {fuel : Nat}
    (h : whileLoop (exitBody pd) fuel (k, head) = .done k') : ∃ l, HeapList k head l := by
  induction fuel generalizing k head with
  | zero => cases h
  | succ fuel ih =>
    rw [whileLoop_succ, exitBody] at h
    dsimp only at h
    by_cases hnull : head = 0
    · exact ⟨[], hnull⟩
    · rw [if_neg hnull] at h
      obtain ⟨r, hbody, h⟩ := bind_eq_done.mp h
      obtain ⟨e, he, hbody⟩ := bind_eq_done.mp hbody
      cases hbody
      obtain ⟨l, hl⟩ := ih h
      have hnodes : (if e.memoryEntry ≠ 0 then k.called .release .entry e.memoryEntry
          else k).nodes = k.nodes := by
        split
        · rfl
        · rfl
      change Chain _ _ (Function.update (ite _ _ _ : Kernel).nodes head none) _ _ at hl
      rw [hnodes] at hl
      exact ⟨(head, e) :: l, rfl, hnull, node_eq_done he, hl.of_update_none⟩

theorem leaveTeam_done (k : Kernel) (this : VoidPtr) (h : ¬ p.hasParentTeam = false) :
    ∃ k', leaveTeam k this p = .done k' ∧ k'.cr3 = k.cr3 ∧
      k'.team = { k.team with mProcessCount := k.team.mProcessCount - 1 } ∧
      k'.processes = Function.update k.processes this none ∧
      ∃ calls, k'.trace = k.trace ++ calls ∧
        ∀ c ∈ calls, c.subject = .other ∧ (c.kind = .release → c.ptr = this) := by
  obtain ⟨k₁, hk₁⟩ : ∃ k₁ : Kernel, k₁ =
      { k with team := { k.team with mProcessCount := k.team.mProcessCount - 1 } } := ⟨_, rfl⟩
  have hdelete : Releases [this] k₁ (operatorDelete k₁ this) :=
    .operatorDelete (List.mem_singleton_self this)
  obtain ⟨calls, htrace, hcalls⟩ := hdelete.calls
  refine ⟨_, if_neg h, ?_⟩
  dsimp only
  rw [← hk₁]
  refine ⟨?_, ?_, ?_, calls, ?_, fun c hc => ?_⟩
  · change (operatorDelete k₁ this).cr3 = _
    rw [hdelete.cr3_eq, hk₁]
  · change (operatorDelete k₁ this).team = _
    rw [hdelete.team_eq, hk₁]
  · change Function.update (operatorDelete k₁ this).processes this none = _
    rw [hdelete.processes_eq, hk₁]
  · change (operatorDelete k₁ this).trace = _
    rw [htrace, hk₁]
  · exact ⟨(hcalls c hc).1, fun hr => List.mem_singleton.mp ((hcalls c hc).2 hr)⟩

/-- Whenever `Exit` returns, the process was spawned and is gone, and its team counts one less but
keeps its slots. -/
theorem exit_gone {fuel : Nat} {exitCode : Int32}
    (h : exit answers fuel k this exitCode = .done k') :
    ∃ p, k.processes this = some p ∧ ¬ p.ExitFaults ∧
      k'.processes = Function.update k.processes this none ∧
      k'.team = { k.team with mProcessCount := k.team.mProcessCount - 1 } := by
  rw [exit, bind_eq_done] at h
  obtain ⟨p, hp, h⟩ := h
  rw [bind_eq_done] at h
  obtain ⟨k₁, hloop, h⟩ := h
  obtain ⟨hprocs, hteam⟩ := exitLoop_frame hloop
  rw [bind_eq_done] at h
  obtain ⟨k₂, hrest, h⟩ := h
  have hdll : ¬ (p.kind = kExectuableDLLKind ∧ p.pefDLLDelegate = 0) := by
    intro hdll
    rw [releaseRest_fault hdll] at hrest
    cases hrest
  obtain ⟨k₃, hk₃, hrel⟩ := releaseRest_releases answers k₁ hdll
  obtain rfl : k₃ = k₂ := done.inj (hk₃.symm.trans hrest)
  by_cases hteamless : p.hasParentTeam = false
  · rw [leaveTeam, if_pos hteamless] at h
    cases h
  · obtain ⟨k₄, hk₄, _, htm, hpr, _⟩ := leaveTeam_done k₃ this hteamless
    rw [hk₄] at h
    cases h
    refine ⟨p, process_eq_done hp, not_or.mpr ⟨hdll, hteamless⟩, ?_, ?_⟩
    · rw [hpr, hrel.processes_eq, hprocs]
      exact Function.update_idem ..
    · rw [htm, hrel.team_eq, hteam]
      rfl

/-- On a memory list `Exit` releases the entries and nodes in turn, then the other blocks. -/
theorem exit_done (answers : HeapAnswers) (exitCode : Int32) (hp : k.processes this = some p)
    (hl : HeapList k p.processMemoryHeap l) {fuel : Nat} (hfuel : l.length < fuel)
    (hok : ¬ p.ExitFaults) :
    ∃ k', exit answers fuel k this exitCode = .done k' ∧
      k'.cr3 = (if l = [] then p.vmRegister else k.cr3) ∧
      ∃ calls, k'.trace = k.trace ++ (exitCalls k.cr3 p.vmRegister l ++ calls) ∧
        ∀ c ∈ calls, c.subject = .other ∧
          (c.kind = .release → c.ptr = this ∨ c.ptr ∈ p.blocks answers) := by
  obtain ⟨hdll, hteamless⟩ := not_or.mp hok
  have hlist : HeapList (beginExit k this p exitCode) p.processMemoryHeap l := hl
  obtain ⟨k₁, hloop, htr₁, hcr₁, _, _⟩ := exitLoop k.cr3 hlist hfuel
  obtain ⟨k₂, hrest, hrel⟩ := releaseRest_releases answers k₁ hdll
  obtain ⟨calls₂, htr₂, hcalls₂⟩ := hrel.calls
  obtain ⟨k₃, hleave, hcr₃, _, _, calls₃, htr₃, hcalls₃⟩ := leaveTeam_done k₂ this hteamless
  refine ⟨k₃, ?_, ?_, calls₂ ++ calls₃, ?_, ?_⟩
  · rw [exit, process_eq hp, done_bind]
    dsimp only
    rw [hloop, done_bind, hrest, done_bind, hleave]
  · rw [hcr₃, hrel.cr3_eq, hcr₁]
    rfl
  · rw [htr₃, htr₂, htr₁, List.append_assoc, List.append_assoc]
    rfl
  · intro c hc
    rcases List.mem_append.mp hc with hc | hc
    · exact ⟨(hcalls₂ c hc).1, fun hr => Or.inr ((hcalls₂ c hc).2 hr)⟩
    · exact ⟨(hcalls₃ c hc).1, fun hr => Or.inl ((hcalls₃ c hc).2 hr)⟩

/-- `Exit` returns exactly when it does not fault and the memory list is in order. -/
theorem exit_returns_iff (answers : HeapAnswers) (exitCode : Int32)
    (hp : k.processes this = some p) :
    (∃ fuel k', exit answers fuel k this exitCode = .done k') ↔
      ¬ p.ExitFaults ∧ ∃ l, HeapList k p.processMemoryHeap l := by
  constructor
  · intro h
    rcases h with ⟨fuel, k', h⟩
    obtain ⟨q, hq, hok, -, -⟩ := exit_gone h
    cases hp.symm.trans hq
    rw [exit, process_eq hp, done_bind] at h
    obtain ⟨k₁, hloop, -⟩ := bind_eq_done.mp h
    obtain ⟨l, hl⟩ := exitLoop_list hloop
    exact ⟨hok, l, hl⟩
  · intro h
    rcases h with ⟨hok, l, hl⟩
    obtain ⟨k', hexit, -⟩ := exit_done answers exitCode hp hl (Nat.lt_succ_self _) hok
    exact ⟨_, k', hexit⟩

theorem exit_mono (answers : HeapAnswers) (k : Kernel) (this : VoidPtr) (exitCode : Int32) :
    Monotone fun fuel => exit answers fuel k this exitCode := by
  intro n m h
  refine bind_le_bind (le_refl _) fun p => ?_
  exact bind_le_bind (whileLoop_mono _ _ h) fun _ => le_refl _

theorem delete_mono (answers : HeapAnswers) (k : Kernel) (this : VoidPtr) (ptr : ErrorOr)
    (sz : UInt64) : Monotone fun fuel => delete answers fuel k this ptr sz := by
  intro n m h
  dsimp only [delete]
  split
  · exact le_refl _
  · split
    · exact le_refl _
    · exact bind_le_bind (le_refl _) fun p => whileLoop_mono _ _ h

section Delete

variable {ptr : ErrorOr} {sz : UInt64} {value : VoidPtr} {r : Bool × Kernel}

private theorem delete_loop (fuel : Nat) (hp : k.processes this = some p) (hsz : sz ≠ 0)
    (hptr : ptr.ref = some value) : delete answers fuel k this ptr sz =
      whileLoop (deleteBody answers k p.vmRegister value) fuel p.processMemoryHeap := by
  rw [delete, hptr]
  dsimp only
  rw [if_neg hsz, process_eq hp, done_bind]

/-- `Delete` changes nothing when it is given no pointer, no size or a pointer no node holds. -/
theorem delete_refused (hp : k.processes this = some p) (hl : HeapList k p.processMemoryHeap l)
    (hv : sz = 0 ∨ ∀ value, ptr.ref = some value → ∀ q ∈ l, q.2.memoryEntry ≠ value)
    (h : Yields (fun fuel => delete answers fuel k this ptr sz) r) : r = (false, k) := by
  refine h.unique (delete_mono answers k this ptr sz) (.intro (l.length + 1) ?_)
  cases hptr : ptr.ref with
  | none =>
    rw [delete, hptr]
    rfl
  | some value =>
    by_cases hsz : sz = 0
    · rw [delete, hptr]
      exact if_pos hsz
    · rw [delete_loop _ hp hsz hptr]
      exact deleteLoop_missing answers p.vmRegister hl (Nat.lt_succ_self _)
        (hv.resolve_left hsz value hptr)

theorem delete_released (hp : k.processes this = some p) (hl : HeapList k p.processMemoryHeap l)
    (hsz : sz ≠ 0) (hptr : ptr.ref = some value) (hv : ∃ q ∈ l, q.2.memoryEntry = value)
    (h : Yields (fun fuel => delete answers fuel k this ptr sz) r) :
    r.2 = { k with trace := k.trace ++ [⟨.release, .entry, value, p.vmRegister⟩] } := by
  obtain ⟨ret, hfound⟩ := deleteLoop_found answers p.vmRegister hl (Nat.lt_succ_self _) hv
  rw [h.unique (delete_mono answers k this ptr sz)
    (.intro _ ((delete_loop _ hp hsz hptr).trans hfound))]

end Delete

end Calls

/-! ## A process with at most one piece of memory -/

/-- A spawned process whose memory list begins at `heap`. -/
def sample (heap : VoidPtr) : UserProcess where
  stackFrame := 0
  status := .kStarting
  stackReserve := 0x6000
  image := ⟨0, 0⟩
  pefDLLDelegate := 0
  processMemoryHeap := heap
  hasParentTeam := true
  vmRegister := 0x2000
  pTime := 1000
  processId := 0
  kind := kExectuableKind
  fLastExitCode := 0

def sampleNode : UserProcessHeapList := ⟨0x8000, 16, 0, 0, 0⟩

def sampleKernel (heap : VoidPtr) : Kernel where
  cr3 := 0x1000
  nodes a := if a = 0x7000 then some sampleNode else none
  processes a := if a = 0x5000 then some (sample heap) else none
  team := ⟨fun i => if i = 0 then 0x5000 else 0, 1⟩
  trace := []
  kLastExitCode := 0

def sampleAnswers : HeapAnswers := ⟨fun _ _ => false, fun _ _ => 0, fun _ => 0⟩

theorem sample_returns (heap : VoidPtr) : ¬ (sample heap).ExitFaults := by
  simp [ExitFaults, sample, kExectuableKind, kExectuableDLLKind]

theorem sampleKernel_list : HeapList (sampleKernel 0x7000) 0x7000 [(0x7000, sampleNode)] :=
  ⟨rfl, by decide, rfl, rfl⟩

theorem sampleKernel_empty : HeapList (sampleKernel 0) 0 [] := rfl

end UserProcess

end Zka.KernelKit
