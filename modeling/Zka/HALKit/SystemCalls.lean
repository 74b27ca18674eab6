import Zka.Framework.Outcome

/-!
# System calls

The tables of system calls and kernel calls, and how an index is dispatched.  The index is
compared with the number of entries that are hooked, wherever these stand in the table.
-/

namespace Zka.HALKit

open Outcome

/-! ## The tables -/

/-- `kKernelMaxSystemCalls`. -/
abbrev kKernelMaxSystemCalls : Nat := 256

/-- A procedure is given by its address. -/
structure HalSyscallRecord where
  fHash : Int64
  fHooked : Bool
  fProc : UInt64
  deriving DecidableEq, Repr

/-- The conversion of a record to a truth value. -/
def HalSyscallRecord.toBool (record : HalSyscallRecord) : Bool := record.fHooked

abbrev SyscallTable := Fin kKernelMaxSystemCalls → HalSyscallRecord

structure SyscallTables where
  kSyscalls : SyscallTable
  kKerncalls : SyscallTable

namespace SyscallTable

/-- `Array::Count`, which counts the elements that are true. -/
def count (table : SyscallTable) : UInt64 :=
  UInt64.ofNat ((List.finRange kKernelMaxSystemCalls).countP fun i => (table i).toBool)

/-- `Array::operator[]`, which does not look at the bound. -/
def get (table : SyscallTable) (i : UInt64) : Outcome CFault HalSyscallRecord :=
  if h : i.toNat < kKernelMaxSystemCalls then .done (table ⟨i.toNat, h⟩)
  else .fault .indexOutOfRange

end SyscallTable

/-! ## Dispatch -/

/-- A procedure that is called, with its argument. -/
structure HandlerCall where
  proc : UInt64
  argument : UInt64
  deriving DecidableEq, Repr

/-- The body that both entry points have. -/
def enterCall (table : SyscallTable) (index argument : UInt64) :
    Outcome CFault (Option HandlerCall) :=
  if index < table.count then do
    let record ← table.get index
    if record.fHooked then
      if record.fProc ≠ 0 then return some ⟨record.fProc, argument⟩
      else return none
    else return none
  else return none

def halSystemCallEnter (tables : SyscallTables) (rcxSyscallIndex rdxSyscallStruct : UInt64) :
    Outcome CFault (Option HandlerCall) :=
  enterCall tables.kSyscalls rcxSyscallIndex rdxSyscallStruct

def halKernelCallEnter (tables : SyscallTables) (rcxKerncallIndex rdxKerncallStruct : UInt64) :
    Outcome CFault (Option HandlerCall) :=
  enterCall tables.kKerncalls rcxKerncallIndex rdxKerncallStruct

/-! ## What a dispatch is for -/

namespace SyscallTable

/-- The procedure of the entry, if it can be called. -/
def handler (table : SyscallTable) (index : UInt64) : Option UInt64 :=
  if h : index.toNat < kKernelMaxSystemCalls then
    if (table ⟨index.toNat, h⟩).fHooked ∧ (table ⟨index.toNat, h⟩).fProc ≠ 0 then
      some (table ⟨index.toNat, h⟩).fProc
    else none
  else none

/-- The entries that are hooked. -/
def hooked (table : SyscallTable) : Finset (Fin kKernelMaxSystemCalls) :=
  Finset.univ.filter fun i => (table i).fHooked

end SyscallTable

/-- Whatever the argument is, the handler at the index is called with it, if there is one, and
nothing is read outside the table. -/
def Dispatches (enter : UInt64 → UInt64 → Outcome CFault (Option HandlerCall))
    (table : SyscallTable) (index : UInt64) : Prop :=
  ∀ argument, enter index argument =
    .done ((table.handler index).map fun proc => ⟨proc, argument⟩)

/-! ### The count -/

namespace SyscallTable

variable (table : SyscallTable)

theorem card_hooked_le : table.hooked.card ≤ kKernelMaxSystemCalls := by
  have hle := Finset.card_le_univ table.hooked
  rwa [Fintype.card_fin] at hle

theorem count_toNat : table.count.toNat = table.hooked.card := by
  have hcard : (List.finRange kKernelMaxSystemCalls).countP (fun i => (table i).toBool) =
      table.hooked.card := by
    rw [List.countP_eq_length_filter]
    simp [hooked, Finset.card, Finset.filter, Fin.univ_def, HalSyscallRecord.toBool]
  have hle := table.card_hooked_le
  rw [count, hcard, UInt64.toNat_ofNat']
  exact Nat.mod_eq_of_lt (lt_of_le_of_lt hle (by decide))

/-- The entry that is read behind the comparison is in the table. -/
theorem get_of_lt_count {index : UInt64} (h : index < table.count) :
    ∃ hin : index.toNat < kKernelMaxSystemCalls,
      table.get index = .done (table ⟨index.toNat, hin⟩) := by
  have hlt : index.toNat < table.hooked.card := by
    rw [← table.count_toNat]
    exact h
  have hin := lt_of_lt_of_le hlt table.card_hooked_le
  exact ⟨hin, dif_pos hin⟩

end SyscallTable

/-! ### The dispatch -/

section Dispatch

variable (table : SyscallTable) (index argument : UInt64)

/-- An index below the count is dispatched as it should be. -/
theorem enterCall_below (h : index < table.count) :
    enterCall table index argument =
      .done ((table.handler index).map fun proc => ⟨proc, argument⟩) := by
  obtain ⟨hin, hget⟩ := table.get_of_lt_count h
  rw [enterCall, if_pos h, hget, done_bind, SyscallTable.handler, dif_pos hin]
  by_cases hhooked : (table ⟨index.toNat, hin⟩).fHooked = true
  · by_cases hproc : (table ⟨index.toNat, hin⟩).fProc = 0
    · simp [hhooked, hproc]
    · simp [hhooked, hproc]
  · simp [hhooked]

/-- An index from the count on is left alone. -/
theorem enterCall_above (h : ¬ index < table.count) :
    enterCall table index argument = .done none :=
  if_neg h

private theorem dispatches_core :
    Dispatches (enterCall table) table index ↔
      table.handler index = none ∨ index.toNat < table.hooked.card := by
  rw [← table.count_toNat, ← UInt64.lt_iff_toNat_lt]
  by_cases h : index < table.count
  · apply iff_of_true
    · intro argument
      exact enterCall_below table index argument h
    · exact Or.inr h
  · constructor
    · intro hlaw
      have hnone := (enterCall_above table index 0 h).symm.trans (hlaw 0)
      exact Or.inl (Option.map_eq_none_iff.mp (done.inj hnone).symm)
    · intro hcond argument
      rw [enterCall_above table index argument h, hcond.resolve_right h]
      rfl

end Dispatch

/-- Both entry points dispatch an index as they should exactly if there is nothing to call there or
the index is below the number of the entries that are hooked. -/
theorem dispatches_iff (tables : SyscallTables) (index : UInt64) :
    (Dispatches (halSystemCallEnter tables) tables.kSyscalls index ↔
      tables.kSyscalls.handler index = none ∨ index.toNat < tables.kSyscalls.hooked.card) ∧
    (Dispatches (halKernelCallEnter tables) tables.kKerncalls index ↔
      tables.kKerncalls.handler index = none ∨ index.toNat < tables.kKerncalls.hooked.card) :=
  ⟨dispatches_core tables.kSyscalls index, dispatches_core tables.kKerncalls index⟩

/-- A table is right for every index exactly if the entries that can be called all stand below the
number of those that are hooked. -/
theorem dispatches_all_iff (table : SyscallTable) :
    (∀ index, Dispatches (enterCall table) table index) ↔
      ∀ i : Fin kKernelMaxSystemCalls, (table i).fHooked → (table i).fProc ≠ 0 →
        i.val < table.hooked.card := by
  constructor
  · intro h i hhooked hproc
    have hnat : (UInt64.ofNat i.val).toNat = i.val := by
      rw [UInt64.toNat_ofNat']
      exact Nat.mod_eq_of_lt (lt_trans i.isLt (by decide))
    have hsome : table.handler (UInt64.ofNat i.val) = some (table i).fProc := by
      simp [SyscallTable.handler, hnat, hhooked, hproc]
    have hcases := (dispatches_core table (UInt64.ofNat i.val)).mp (h _)
    rw [hsome, hnat] at hcases
    exact hcases.resolve_left nofun
  · intro h index
    apply (dispatches_core table index).mpr
    by_cases hin : index.toNat < kKernelMaxSystemCalls
    · by_cases hcall : (table ⟨index.toNat, hin⟩).fHooked ∧ (table ⟨index.toNat, hin⟩).fProc ≠ 0
      · exact Or.inr (h ⟨index.toNat, hin⟩ hcall.1 hcall.2)
      · simp [SyscallTable.handler, hin, hcall]
    · simp [SyscallTable.handler, hin]

/-- One call hooked at index 1, and nothing else. -/
def sparseTable : SyscallTable := fun i =>
  if i.val = 1 then ⟨0, true, 0x1000⟩ else ⟨0, false, 0⟩

/-- The only call of the table is never made. -/
theorem dispatches_sparse :
    ¬ Dispatches (halSystemCallEnter ⟨sparseTable, sparseTable⟩) sparseTable 1 ∧
      halSystemCallEnter ⟨sparseTable, sparseTable⟩ 1 0x8000 = .done none := by
  have hhandler : sparseTable.handler 1 = some 0x1000 := by rfl
  have hcard : sparseTable.hooked.card = 1 := by decide
  have habove : ¬ (1 : UInt64) < sparseTable.count := by
    rw [UInt64.lt_iff_toNat_lt, sparseTable.count_toNat, hcard]
    decide
  constructor
  · intro h
    have hcases := (dispatches_core sparseTable 1).mp h
    rw [hhandler, hcard] at hcases
    exact absurd hcases (by decide)
  · exact enterCall_above sparseTable 1 0x8000 habove

end Zka.HALKit
