import Zka.Framework.Frame
import Zka.HALKit.Paging

/-!
# The interrupt descriptor table

`IDTLoader::Load` builds the table from the addresses of the handlers and points the processor at
it.  The processor puts the address of a handler together from the three parts of its gate.
-/

namespace Zka.HALKit

def kPITControlPort : UInt16 := 0x43
def kPITChannel0Port : UInt16 := 0x40
def kPITFrequency : Nat := 1193180
def kPITDefaultTicks : UInt16 := 100

def kPICData : UInt16 := 0x21
def kPIC2Data : UInt16 := 0xA1

def kKernelIdtSize : Nat := 0x100
def kInterruptGate : UInt8 := 0x8E
def kIDTSelector : UInt16 := 0x08

structure Register64 where
  Limit : UInt16
  Base : UInt64
  deriving DecidableEq, Repr

/-- Memory, the masks of the two interrupt controllers, what was put to the ports, whether
interrupts are let through, and the register of the table. -/
structure Processor where
  memory : Store
  picData : UInt8
  pic2Data : UInt8
  out : List (UInt16 × UInt8)
  interrupts : Bool
  idtr : Register64

namespace Processor

/-- The ports that are read are those of the masks. -/
def rtIn8 (p : Processor) (port : UInt16) : UInt8 :=
  if port = kPICData then p.picData else p.pic2Data

def rtOut8 (p : Processor) (port : UInt16) (value : UInt8) : Processor :=
  let p := { p with out := p.out ++ [(port, value)] }
  if port = kPICData then { p with picData := value }
  else if port = kPIC2Data then { p with pic2Data := value }
  else p

/-- The shifted bit is a number of 32 bits, of which the port takes eight. -/
def halClearIrqMask (p : Processor) (irql : UInt8) : Processor :=
  let (port, irql) := if irql < 8 then (kPICData, irql) else (kPIC2Data, irql - 8)
  let value := ((p.rtIn8 port).toUInt32 &&& ~~~((1 : UInt32) <<< irql.toUInt32)).toUInt8
  p.rtOut8 port value

def halEnablePit (p : Processor) (ticks : UInt16) : Processor :=
  let ticks := if ticks = 0 then kPITDefaultTicks else ticks
  let cCommonDivisor := UInt16.ofNat (kPITFrequency / ticks.toNat)
  let p := p.rtOut8 kPITControlPort 0x36
  let p := p.rtOut8 kPITChannel0Port (cCommonDivisor &&& 0xFF).toUInt8
  let p := p.rtOut8 kPITChannel0Port (cCommonDivisor >>> 8 &&& 0xFF).toUInt8
  p.halClearIrqMask 32

end Processor

/-! ## Gates -/

/-- `ptr_ivt[idt_indx]` -/
def vectorAt (m : Store) (ivt : UInt64) (i : Nat) : UInt64 :=
  Store.get Layout.u64 m (ivt.toNat + 8 * i)

/-- `&kInterruptVectorTable[idt_indx]` -/
def gateStart (table : UInt64) (i : Nat) : Nat := table.toNat + 16 * i

/-- One pass of the loop: the fields of a packed descriptor in the order of the assignments. -/
def loadGate (table ivt : UInt64) (m : Store) (i : Nat) : Store :=
  let gate := gateStart table i
  let m := Store.put Layout.u16 m (gate + 2) kIDTSelector
  let m := Store.put Layout.u8 m (gate + 4) 0
  let m := Store.put Layout.u8 m (gate + 5) kInterruptGate
  let m := Store.put Layout.u16 m (gate + 0) (vectorAt m ivt i &&& 0xFFFF).toUInt16
  let m := Store.put Layout.u16 m (gate + 6) (vectorAt m ivt i >>> 16 &&& 0xFFFF).toUInt16
  let m := Store.put Layout.u32 m (gate + 8) (vectorAt m ivt i >>> 32 &&& 0xFFFFFFFF).toUInt32
  Store.put Layout.u32 m (gate + 12) 0

/-- `IDTLoader::Load`, with the table of the kernel: the processor and the register behind it. -/
def Processor.loadIdt (p : Processor) (table : UInt64) (idt : Register64) :
    Processor × Register64 :=
  let p := { p with interrupts := false }
  let p := { p with memory :=
    (List.range kKernelIdtSize).foldl (loadGate table idt.Base) p.memory }
  let idt : Register64 := ⟨UInt16.ofNat (16 * kKernelIdtSize), table⟩
  let p := { p with idtr := idt }
  let p := p.halEnablePit kPITDefaultTicks
  ({ p with interrupts := true }, idt)

/-! ## The table seen by the processor -/

structure Gate where
  handler : UInt64
  selector : UInt16
  ist : UInt8
  attributes : UInt8
  deriving DecidableEq, Repr

/-- The gate of an interrupt; a gate that ends behind the limit is not looked at. -/
def gateAt (m : Store) (idtr : Register64) (i : Fin 256) : Option Gate :=
  let gate := gateStart idtr.Base i
  if 16 * i + 15 ≤ idtr.Limit.toNat then
    some ⟨(Store.get Layout.u16 m (gate + 0)).toUInt64 |||
        (Store.get Layout.u16 m (gate + 6)).toUInt64 <<< 16 |||
        (Store.get Layout.u32 m (gate + 8)).toUInt64 <<< 32,
      Store.get Layout.u16 m (gate + 2), Store.get Layout.u8 m (gate + 4),
      Store.get Layout.u8 m (gate + 5)⟩
  else none

/-- What the table holds for a handler. -/
def interruptGate (handler : UInt64) : Gate := ⟨handler, kIDTSelector, 0, kInterruptGate⟩

/-! ## One gate -/

private theorem low_half (x : UInt64) :
    (x &&& 0xFFFF).toUInt16.toUInt64.toNat = x.toNat % 2 ^ 16 := by
  have hmask := Nat.and_two_pow_sub_one_eq_mod (x.toNat % 65536) 16
  simp at hmask ⊢
  omega

private theorem low_word (x : UInt64) :
    (x &&& 0xFFFFFFFF).toUInt32.toUInt64.toNat = x.toNat % 2 ^ 32 := by
  have hmask := Nat.and_two_pow_sub_one_eq_mod (x.toNat % 4294967296) 32
  simp at hmask ⊢
  omega

/-- The parts of an address put together. -/
private theorem handler_parts (v : UInt64) :
    (v &&& 0xFFFF).toUInt16.toUInt64 ||| (v >>> 16 &&& 0xFFFF).toUInt16.toUInt64 <<< 16 |||
      (v >>> 32 &&& 0xFFFFFFFF).toUInt32.toUInt64 <<< 32 = v := by
  have hv := v.toNat_lt
  have hmid : ((v >>> 16 &&& 0xFFFF).toUInt16.toUInt64 <<< 16).toNat =
      2 ^ 16 * (v.toNat / 2 ^ 16 % 2 ^ 16) := by
    rw [UInt64.toNat_shiftLeft, low_half]
    simp [Nat.shiftLeft_eq, Nat.shiftRight_eq_div_pow]
    omega
  have hhigh : ((v >>> 32 &&& 0xFFFFFFFF).toUInt32.toUInt64 <<< 32).toNat =
      2 ^ 32 * (v.toNat / 2 ^ 32) := by
    rw [UInt64.toNat_shiftLeft, low_word]
    simp [Nat.shiftLeft_eq, Nat.shiftRight_eq_div_pow]
    omega
  rw [← UInt64.toNat_inj, UInt64.toNat_or, UInt64.toNat_or, low_half, hmid, hhigh,
    Nat.or_comm (_ % _), ← Nat.two_pow_add_eq_or_of_lt (by omega), Nat.or_comm,
    ← Nat.two_pow_add_eq_or_of_lt (by omega)]
  omega

private theorem loadGate_only (table ivt : UInt64) (m : Store) (i : Nat) :
    Store.ChangesOnly [⟨gateStart table i, 16⟩] m (loadGate table ivt m i) := by
  intro x hx
  have hout := hx _ (List.mem_singleton_self _)
  rw [Extent.mem_addresses] at hout
  dsimp only at hout
  simp (disch := omega) only [loadGate, Store.put_outside]

section OneGate

variable {table ivt : UInt64} {m : Store} {i : Nat}
  (hap : ivt.toNat + 8 * i + 8 ≤ gateStart table i ∨ gateStart table i + 16 ≤ ivt.toNat + 8 * i)
include hap

private theorem vectorAt_put {α : Type} {n k : Nat} (layout : Layout α n) (m : Store) (v : α)
    (hk : k + n ≤ 16) : vectorAt (Store.put layout m (gateStart table i + k) v) ivt i =
      vectorAt m ivt i :=
  Store.get_put_apart _ _ _ _ (by omega)

/-- The stores to the gate do not touch the address that they are made of. -/
private theorem gateAt_loadGate {limit : UInt16} {v : Fin 256} (hv : v.val = i)
    (hlimit : 16 * i + 15 ≤ limit.toNat) :
    gateAt (loadGate table ivt m i) ⟨limit, table⟩ v =
      some (interruptGate (vectorAt m ivt i)) := by
  subst hv
  simp only [gateAt, loadGate, if_pos hlimit]
  simp only [vectorAt_put hap _ _ _ (show 2 + 2 ≤ 16 by omega),
    vectorAt_put hap _ _ _ (show 4 + 1 ≤ 16 by omega),
    vectorAt_put hap _ _ _ (show 5 + 1 ≤ 16 by omega),
    vectorAt_put hap _ _ _ (show 0 + 2 ≤ 16 by omega),
    vectorAt_put hap _ _ _ (show 6 + 2 ≤ 16 by omega)]
  simp (disch := omega) only [Store.get_put_same, Store.get_put_apart]
  rw [handler_parts, interruptGate]

end OneGate

/-! ## The whole table -/

private theorem gateAt_congr {m m' : Store} {idtr : Register64} {v : Fin 256}
    (h : ∀ x, gateStart idtr.Base v ≤ x → x < gateStart idtr.Base v + 16 → m' x = m x) :
    gateAt m' idtr v = gateAt m idtr v := by
  have hget : ∀ {α : Type} {n : Nat} (layout : Layout α n) (k : Nat), k + n ≤ 16 →
      Store.get layout m' (gateStart idtr.Base v + k) =
        Store.get layout m (gateStart idtr.Base v + k) :=
    fun layout k hk => Store.get_congr layout fun x hlo hhi => h x (by omega) (by omega)
  simp (disch := omega) only [gateAt, hget]

/-- What holds behind the first passes of the loop. -/
private structure Loaded (table ivt : UInt64) (limit : UInt16) (m m' : Store) (n : Nat) : Prop where
  gates : ∀ v : Fin 256, v.val < n → gateAt m' ⟨limit, table⟩ v =
    some (interruptGate (vectorAt m ivt v))
  rest : Store.ChangesOnly [⟨table.toNat, 16 * n⟩] m m'

private theorem loaded {table ivt : UInt64} {limit : UInt16} (m : Store) (n : Nat)
    (hn : n ≤ 256) (hlimit : 16 * n ≤ limit.toNat + 1)
    (hap : ivt.toNat + 2048 ≤ table.toNat ∨ table.toNat + 4096 ≤ ivt.toNat) :
    Loaded table ivt limit m ((List.range n).foldl (loadGate table ivt) m) n := by
  induction n with
  | zero => exact ⟨fun _ h => absurd h (Nat.not_lt_zero _), fun _ _ => rfl⟩
  | succ n ih =>
    have h := ih (by omega) (by omega)
    rw [List.range_succ, List.foldl_append, List.foldl_cons, List.foldl_nil]
    generalize (List.range n).foldl (loadGate table ivt) m = m' at h
    have hsame : vectorAt m' ivt n = vectorAt m ivt n := by
      refine h.rest.get Layout.u64 fun e he => ?_
      obtain rfl := List.mem_singleton.mp he
      rcases hap with hap | hap
      · exact Extent.apart_of_le (by dsimp only; omega)
      · exact (Extent.apart_of_le (by dsimp only; omega)).symm
    refine ⟨fun v hv => ?_, ?_⟩
    · rcases Nat.lt_succ_iff_lt_or_eq.mp hv with hlt | heq
      · rw [← h.gates v hlt]
        refine gateAt_congr fun x hlo hhi => loadGate_only table ivt m' n x fun e he hmem => ?_
        obtain rfl := List.mem_singleton.mp he
        have hlow := hmem.1
        dsimp only [gateStart] at hlow hhi
        omega
      · rw [heq, ← hsame]
        refine gateAt_loadGate ?_ heq (by omega)
        rw [gateStart]
        omega
    · refine (h.rest.trans (loadGate_only table ivt m' n)).mono fun e he => ?_
      refine ⟨_, List.mem_singleton_self _, ?_⟩
      rcases List.mem_cons.mp he with rfl | he
      · intro x hx
        exact ⟨hx.1, hx.2.trans_le (by dsimp only; omega)⟩
      · obtain rfl := List.mem_singleton.mp he
        rw [Extent.inside_iff (show 0 < 16 by decide)]
        dsimp only [gateStart]
        omega

/-! ## The masks -/

/-- The bit of line 32 is shifted out of the mask. -/
private theorem halClearIrqMask_timer (p : Processor) :
    p.halClearIrqMask 32 = p.rtOut8 kPIC2Data p.pic2Data := by
  have hbyte : ∀ b : UInt8,
      (b.toUInt32 &&& ~~~((1 : UInt32) <<< (32 - 8 : UInt8).toUInt32)).toUInt8 = b := by
    decide +kernel
  exact congrArg (p.rtOut8 kPIC2Data) (hbyte p.pic2Data)

/-- The divisor is 11931. -/
private theorem halEnablePit_eq (p : Processor) : p.halEnablePit kPITDefaultTicks =
    { p with out := p.out ++ [(kPITControlPort, 0x36), (kPITChannel0Port, 0x9B),
      (kPITChannel0Port, 0x2E), (kPIC2Data, p.pic2Data)] } := by
  simp only [Processor.halEnablePit, halClearIrqMask_timer]
  simp [Processor.rtOut8, kPITControlPort, kPITChannel0Port, kPIC2Data, kPICData, kPITDefaultTicks,
    kPITFrequency]
  decide

/-- A processor with a handler for the breakpoint. -/
def sampleProcessor : Processor where
  memory := Store.put Layout.u64 (fun _ => 0) (0x1000 + 8 * 3) 0xFFFF800000101234
  picData := 0xFF
  pic2Data := 0xFF
  out := []
  interrupts := true
  idtr := ⟨0, 0⟩

end Zka.HALKit
