import Zka.Framework.Tables
import Zka.HALKit.PCI

/-!
# The PCI iterator

The iterator asks every function of every bus for its class and keeps one device for a bus, the
last one that it finds.  It goes one device too far, and with that number it asks a function of
the first device again, on the bus itself or on the next one.
-/

namespace Zka.HALKit

/-! ## The loops -/

def zkaBusCount : Nat := 256

def zkaDeviceCount : Nat := 33

def zkaFunctionCount : Nat := 8

/-- `cPCIDeviceCount`, the devices that a bus can have. -/
def pciDeviceCount : Nat := 32

/-- `Types::PciDeviceKind`; `Unassgined` and `Invalid` are further names of the last but one. -/
inductive PciDeviceKind where
  | massStorageController
  | networkController
  | displayController
  | multimediaController
  | memoryController
  | bridge
  | communicationController
  | genericSystemPeripheral
  | inputDeviceController
  | dockingStation
  | processor
  | serialBusController
  | wirelessController
  | intelligentController
  | satelliteCommunicationsController
  | coProcessor
  deriving DecidableEq, Repr

def PciDeviceKind.toUInt8 : PciDeviceKind → UInt8
  | massStorageController => 0x1
  | networkController => 0x2
  | displayController => 0x3
  | multimediaController => 0x4
  | memoryController => 0x5
  | bridge => 0x6
  | communicationController => 0x7
  | genericSystemPeripheral => 0x8
  | inputDeviceController => 0x9
  | dockingStation => 0xA
  | processor => 0xB
  | serialBusController => 0xC
  | wirelessController => 0xD
  | intelligentController => 0xE
  | satelliteCommunicationsController => 0xF
  | coProcessor => 0x40

/-- An element of `fDevices` is not initialised before it is assigned.  The functions that the
constructor asks for are noted in order. -/
structure PciIterator where
  pci : PciBus
  fDevices : Nat → Option PciDevice
  probes : List PciAddress

/-- The device that the loops build for an address. -/
def PciAddress.toDevice (a : PciAddress) : PciDevice :=
  ⟨UInt16.ofNat a.bus, UInt16.ofNat a.device, UInt16.ofNat a.function, 0⟩

namespace PciIterator

/-- The body of the loops. -/
def probe (type : PciDeviceKind) (it : PciIterator) (a : PciAddress) : PciIterator :=
  let (code, pci) := a.toDevice.classCode it.pci
  { pci := pci
    fDevices := if code = type.toUInt8 then
        Function.update it.fDevices a.bus (some a.toDevice)
      else it.fDevices
    probes := it.probes ++ [a] }

def start (pci : PciBus) : PciIterator := ⟨pci, fun _ => none, []⟩

/-- The constructor. -/
def construct (type : PciDeviceKind) (pci : PciBus) : PciIterator :=
  (List.range zkaBusCount).foldl (fun it bus =>
    (List.range zkaDeviceCount).foldl (fun it device =>
      (List.range zkaFunctionCount).foldl (fun it function =>
        it.probe type ⟨bus, device, function⟩) it) it) (start pci)

end PciIterator

/-! ## What an enumeration is for -/

/-- The register with the class code. -/
def classRegister : Nat := 11

/-- A function that can be there is there and has the class. -/
structure PciMatch (s : PciBus) (type : PciDeviceKind) (a : PciAddress) : Prop where
  bus : a.bus < zkaBusCount
  device : a.device < pciDeviceCount
  function : a.function < zkaFunctionCount
  hasClass : ∃ config, s.functions a = some config ∧ config classRegister = type.toUInt8

/-- Every function of the class is behind one index, and behind one only. -/
def Collects (s : PciBus) (type : PciDeviceKind) : Prop :=
  ∀ a, PciMatch s type a → ∃! i, i < zkaBusCount ∧
    ∃ dev, (PciIterator.construct type s).fDevices i = some dev ∧ dev.own = a

/-- Besides, no function is asked for that a bus cannot have. -/
def Enumerates (s : PciBus) (type : PciDeviceKind) : Prop :=
  Collects s type ∧ ∀ a ∈ (PciIterator.construct type s).probes,
    a.device < pciDeviceCount ∧ a.function < zkaFunctionCount

/-! ### Addresses -/

section Target

variable {reg : UInt32} {b d f : Nat}

/-- Numbers without a common bit. -/
private theorem or_eq_add {x y i : Nat} (hx : 2 ^ i ∣ x) (hy : y < 2 ^ i) : x ||| y = x + y := by
  obtain ⟨a, rfl⟩ := hx
  have h := Nat.shiftLeft_add_eq_or_of_lt hy a
  rw [Nat.shiftLeft_eq, Nat.mul_comm] at h
  exact h.symm

private theorem field_toNat {n : Nat} {k : UInt32} (hk : k.toNat < 32)
    (h : n * 2 ^ k.toNat < 2 ^ 32) (hn : n < 2 ^ 16) :
    ((UInt16.ofNat n).toUInt32 <<< k).toNat = n * 2 ^ k.toNat := by
  rw [UInt32.toNat_shiftLeft, UInt16.toNat_toUInt32, UInt16.toNat_ofNat', Nat.mod_eq_of_lt hn,
    Nat.mod_eq_of_lt hk, Nat.shiftLeft_eq, Nat.mod_eq_of_lt h]

/-- The parts of a legal address do not overlap. -/
theorem cfgTarget_toNat (hreg : reg.toNat < 256) (hb : b < 256) (hd : d < 32) (hf : f < 8) :
    (cfgTarget reg (UInt16.ofNat b) (UInt16.ofNat d) (UInt16.ofNat f)).toNat =
      2147483648 + b * 2 ^ 16 + d * 2 ^ 11 + f * 2 ^ 8 + reg.toNat := by
  have hbus := @field_toNat b 16 (by decide) (by simp; omega) (by omega)
  have hdevice := @field_toNat d 11 (by decide) (by simp; omega) (by omega)
  have hfunction := @field_toNat f 8 (by decide) (by simp; omega) (by omega)
  have henable : (0x80000000 : UInt32).toNat = 2147483648 := rfl
  have h16 : UInt32.toNat 16 = 16 := rfl
  have h11 : UInt32.toNat 11 = 11 := rfl
  have h8 : UInt32.toNat 8 = 8 := rfl
  have hfirst : 2147483648 ||| b * 2 ^ 16 = 2147483648 + b * 2 ^ 16 :=
    or_eq_add (i := 31) (by decide) (by omega)
  have hsecond : (2147483648 + b * 2 ^ 16) ||| d * 2 ^ 11 =
      2147483648 + b * 2 ^ 16 + d * 2 ^ 11 := or_eq_add (i := 16) (by omega) (by omega)
  have hthird : (2147483648 + b * 2 ^ 16 + d * 2 ^ 11) ||| f * 2 ^ 8 =
      2147483648 + b * 2 ^ 16 + d * 2 ^ 11 + f * 2 ^ 8 :=
    or_eq_add (i := 11) (by omega) (by omega)
  rw [cfgTarget, UInt32.toNat_or, UInt32.toNat_or, UInt32.toNat_or, UInt32.toNat_or, hbus, hdevice,
    hfunction, henable, h16, h11, h8, hfirst, hsecond, hthird]
  exact or_eq_add (i := 8) (by omega) (by omega)

/-- The fields of the address port are read back. -/
theorem selected_cfgTarget (hreg : reg.toNat < 256) (hb : b < 256) (hd : d < 32) (hf : f < 8) :
    selected (cfgTarget reg (UInt16.ofNat b) (UInt16.ofNat d) (UInt16.ofNat f)) = ⟨b, d, f⟩ := by
  have h := cfgTarget_toNat hreg hb hd hf
  have hmask : ∀ (x : UInt32) (k mask : UInt32) (n : Nat), mask.toNat = 2 ^ n - 1 → k.toNat < 32 →
      (x >>> k &&& mask).toNat = x.toNat / 2 ^ k.toNat % 2 ^ n := by
    intro x k mask n hmask hk
    rw [UInt32.toNat_and, UInt32.toNat_shiftRight, Nat.mod_eq_of_lt hk, hmask,
      Nat.and_two_pow_sub_one_eq_mod, Nat.shiftRight_eq_div_pow]
  have hbus := hmask (cfgTarget reg (UInt16.ofNat b) (UInt16.ofNat d) (UInt16.ofNat f)) 16 0xFF 8
    rfl (by decide)
  have hdevice := hmask (cfgTarget reg (UInt16.ofNat b) (UInt16.ofNat d) (UInt16.ofNat f)) 11 0x1F
    5 rfl (by decide)
  have hfunction := hmask (cfgTarget reg (UInt16.ofNat b) (UInt16.ofNat d) (UInt16.ofNat f)) 8 0x07
    3 rfl (by decide)
  rw [selected, PciAddress.mk.injEq, hbus, hdevice, hfunction, h]
  have h16 : UInt32.toNat 16 = 16 := rfl
  have h11 : UInt32.toNat 11 = 11 := rfl
  have h8 : UInt32.toNat 8 = 8 := rfl
  rw [h16, h11, h8]
  omega

theorem register_cfgTarget (hreg : reg.toNat < 256) (hb : b < 256) (hd : d < 32) (hf : f < 8) :
    register (cfgTarget reg (UInt16.ofNat b) (UInt16.ofNat d) (UInt16.ofNat f)) =
      reg.toNat &&& 252 := by
  have h := cfgTarget_toNat hreg hb hd hf
  have hmod : (cfgTarget reg (UInt16.ofNat b) (UInt16.ofNat d) (UInt16.ofNat f)).toNat % 2 ^ 8 =
      reg.toNat := by
    rw [h]
    omega
  have hmask : ∀ n : Nat, n &&& 252 = n % 2 ^ 8 &&& 252 := by
    intro n
    have hlt : n &&& 252 < 2 ^ 8 := lt_of_le_of_lt Nat.and_le_right (by decide)
    rw [← Nat.mod_eq_of_lt hlt, Nat.and_mod_two_pow]
  have h252 : (0xFC : UInt32).toNat = 252 := rfl
  rw [register, UInt32.toNat_and, h252, hmask, hmod]

/-- The device one too far sets a bit of the bus. -/
theorem cfgTarget_spill (hb : b < 256) :
    cfgTarget reg (UInt16.ofNat b) (UInt16.ofNat 32) (UInt16.ofNat f) =
      cfgTarget reg (UInt16.ofNat (2 * (b / 2) + 1)) (UInt16.ofNat 0) (UInt16.ofNat f) := by
  have hodd : b ||| 1 = 2 * (b / 2) + 1 := by
    rcases Nat.mod_two_eq_zero_or_one b with h | h
    · rw [or_eq_add (i := 1) (by omega) (by decide)]
      omega
    · obtain ⟨c, rfl⟩ : ∃ c, b = 2 * c + 1 := ⟨b / 2, by omega⟩
      rw [← or_eq_add (i := 1) (x := 2 * c) (by omega) (by decide), Nat.or_assoc, Nat.or_self,
        or_eq_add (i := 1) (x := 2 * c) (by omega) (by decide)]
      omega
  have hbits : (UInt16.ofNat b).toUInt32 <<< 16 ||| (UInt16.ofNat 32).toUInt32 <<< 11 =
      (UInt16.ofNat (2 * (b / 2) + 1)).toUInt32 <<< 16 ||| (UInt16.ofNat 0).toUInt32 <<< 11 := by
    have hleft := @field_toNat b 16 (by decide) (by simp; omega) (by omega)
    have hright := @field_toNat (2 * (b / 2) + 1) 16 (by decide) (by simp; omega) (by omega)
    have h32 : ((UInt16.ofNat 32).toUInt32 <<< 11).toNat = 1 * 2 ^ 16 := rfl
    have hzero : ((UInt16.ofNat 0).toUInt32 <<< 11).toNat = 0 := rfl
    have h16 : UInt32.toNat 16 = 16 := rfl
    rw [← UInt32.toNat_inj, UInt32.toNat_or, UInt32.toNat_or, hleft, hright, h32, hzero, h16,
      Nat.or_zero, ← Nat.shiftLeft_eq, ← Nat.shiftLeft_eq, ← Nat.shiftLeft_eq,
      ← Nat.shiftLeft_or_distrib, hodd]
  rw [cfgTarget, cfgTarget, UInt32.or_assoc (0x80000000 : UInt32), hbits,
    ← UInt32.or_assoc (0x80000000 : UInt32)]

end Target

/-- What the loops may ask for. -/
structure PciAddress.Probed (a : PciAddress) : Prop where
  bus : a.bus < zkaBusCount
  device : a.device < zkaDeviceCount
  function : a.function < zkaFunctionCount

/-- The function that answers a probe. -/
def PciAddress.answering (a : PciAddress) : PciAddress :=
  if a.device < pciDeviceCount then a else ⟨2 * (a.bus / 2) + 1, 0, a.function⟩

theorem PciAddress.Probed.answering_legal {a : PciAddress} (h : a.Probed) :
    a.answering.bus < zkaBusCount ∧ a.answering.device < pciDeviceCount ∧
      a.answering.function < zkaFunctionCount := by
  have hbus := h.bus
  unfold zkaBusCount at hbus
  rw [PciAddress.answering]
  by_cases hlegal : a.device < pciDeviceCount
  · rw [if_pos hlegal]
    exact ⟨h.bus, hlegal, h.function⟩
  · rw [if_neg hlegal]
    refine ⟨?_, Nat.zero_lt_succ _, h.function⟩
    dsimp only [zkaBusCount]
    omega

/-- A probe reaches the ports like one of the function that answers. -/
theorem PciAddress.Probed.target_answering {a : PciAddress} (h : a.Probed) (reg : UInt32) :
    cfgTarget reg a.toDevice.fBus a.toDevice.fDevice a.toDevice.fFunction =
      cfgTarget reg (UInt16.ofNat a.answering.bus) (UInt16.ofNat a.answering.device)
        (UInt16.ofNat a.answering.function) := by
  rw [PciAddress.answering]
  by_cases hlegal : a.device < pciDeviceCount
  · rw [if_pos hlegal]
    rfl
  · have hlt := h.device
    have hover : a.device = 32 := by
      unfold zkaDeviceCount at hlt
      unfold pciDeviceCount at hlegal
      omega
    rw [if_neg hlegal, PciAddress.toDevice, hover]
    exact cfgTarget_spill h.bus

theorem PciAddress.Probed.own_toDevice {a : PciAddress} (h : a.Probed) :
    a.toDevice.own = a.answering := by
  obtain ⟨hb, hd, hf⟩ := h.answering_legal
  rw [PciDevice.own, PciDevice.target, h.target_answering]
  exact selected_cfgTarget (by decide) hb hd hf

/-! ### The class of a function -/

section Class

variable {s : PciBus} {type : PciDeviceKind} {a : PciAddress}

theorem PciDeviceKind.toUInt8_ne (type : PciDeviceKind) : type.toUInt8 ≠ 0xFF := by
  cases type
  all_goals decide

/-- The last byte of a dword is its highest one. -/
theorem u32_high {m : Store} {x : Nat} : (m.get Layout.u32 x >>> 24).toUInt8 = m (x + 3) := by
  have hbytes := (Store.get_u32_iff (s := m) (a := x) (v := m.get Layout.u32 x)).mp rfl
  have hthree := hbytes 3
  have hpow : 256 ^ (3 : Fin 4).val = 2 ^ 24 := by decide
  have hplace : m (x + 3) = m (x + (3 : Fin 4)) := rfl
  rw [hpow] at hthree
  rw [← UInt8.toNat_inj, UInt32.toNat_toUInt8, UInt32.toNat_shiftRight, hplace, hthree,
    UInt8.toNat_ofNat', ← Nat.shiftRight_eq_div_pow]
  rfl

/-- The class that a function shows. -/
def classAt (s : PciBus) (a : PciAddress) : UInt8 :=
  match s.functions a with
  | none => 0xFF
  | some config => config classRegister

theorem classCode_toDevice (h : a.Probed) :
    (a.toDevice.classCode s).1 = classAt s a.answering := by
  obtain ⟨hb, hd, hf⟩ := h.answering_legal
  have htarget := h.target_answering (0x08 &&& 0xFC)
  have hselected := @selected_cfgTarget (0x08 &&& 0xFC) _ _ _ (by decide) hb hd hf
  have hregister := @register_cfgTarget (0x08 &&& 0xFC) _ _ _ (by decide) hb hd hf
  rw [← htarget] at hselected hregister
  obtain ⟨s', hs'⟩ : ∃ s' : PciBus, s' = { s with
      configAddress := cfgTarget (0x08 &&& 0xFC) a.toDevice.fBus a.toDevice.fDevice
        a.toDevice.fFunction } := ⟨_, rfl⟩
  have hcode : (a.toDevice.classCode s).1 = s'.portByte (configData + 3) := by
    rw [hs']
    exact u32_high
  have hsel : selected s'.configAddress = a.answering := by rw [hs']; exact hselected
  have hreg : register s'.configAddress = 8 := by rw [hs']; exact hregister
  have hfunctions : s'.functions = s.functions := by rw [hs']
  rw [hcode, classAt]
  cases hpresent : s.functions a.answering with
  | none =>
    rw [← hfunctions, ← hsel] at hpresent
    exact portByte_absent hpresent _
  | some config =>
    rw [← hfunctions, ← hsel] at hpresent
    rw [portByte_present hpresent (by omega), hreg, Nat.add_sub_cancel_left]
    rfl

theorem classAt_iff {code : UInt8} (h : code ≠ 0xFF) :
    classAt s a = code ↔ ∃ config, s.functions a = some config ∧ config classRegister = code := by
  rw [classAt]
  cases s.functions a with
  | none => simp [h.symm]
  | some config => simp

end Class

/-! ### What the loops leave -/

/-- The functions in the order of the loops. -/
def probeOrder : List PciAddress :=
  (List.range zkaBusCount).flatMap fun bus =>
    (List.range zkaDeviceCount).flatMap fun device =>
      (List.range zkaFunctionCount).map fun function => ⟨bus, device, function⟩

theorem mem_probeOrder {a : PciAddress} : a ∈ probeOrder ↔ a.Probed := by
  obtain ⟨b, d, f⟩ := a
  simp only [probeOrder, List.mem_flatMap, List.mem_map, List.mem_range, PciAddress.mk.injEq]
  constructor
  · intro h
    obtain ⟨b', hb, d', hd, f', hf, rfl, rfl, rfl⟩ := h
    exact ⟨hb, hd, hf⟩
  · intro h
    exact ⟨b, h.bus, d, h.device, f, h.function, rfl, rfl, rfl⟩

/-- The order of the loops on one bus. -/
def PciAddress.Before (a b : PciAddress) : Prop :=
  a.bus = b.bus → a.device < b.device ∨ a.device = b.device ∧ a.function < b.function

theorem probeOrder_pairwise : probeOrder.Pairwise PciAddress.Before := by
  have hlt := fun n => List.pairwise_lt_range (n := n)
  simp only [probeOrder, List.pairwise_flatMap, List.pairwise_map]
  refine ⟨fun bus _ => ⟨fun device _ => ?_, ?_⟩, ?_⟩
  · apply (hlt _).imp
    intro f g hfg _
    exact Or.inr ⟨rfl, hfg⟩
  · apply (hlt _).imp
    intro d e hde a ha b hb _
    obtain ⟨f, _, rfl⟩ := List.mem_map.mp ha
    obtain ⟨g, _, rfl⟩ := List.mem_map.mp hb
    exact Or.inl hde
  · apply (hlt _).imp
    intro x y hxy a ha b hb hbus
    obtain ⟨d, _, ha⟩ := List.mem_flatMap.mp ha
    obtain ⟨e, _, hb⟩ := List.mem_flatMap.mp hb
    obtain ⟨f, _, rfl⟩ := List.mem_map.mp ha
    obtain ⟨g, _, rfl⟩ := List.mem_map.mp hb
    exact absurd hbus hxy.ne

namespace PciIterator

variable {s : PciBus} {type : PciDeviceKind}

/-- The probe finds the class. -/
def hits (s : PciBus) (type : PciDeviceKind) (a : PciAddress) : Bool :=
  decide (classAt s a.answering = type.toUInt8)

theorem construct_eq (type : PciDeviceKind) (s : PciBus) :
    construct type s = probeOrder.foldl (probe type) (start s) := by
  simp only [construct, probeOrder, List.foldl_flatMap, List.foldl_map]

/-- After some probes the functions are what they were, and the devices that were found are in the
table. -/
theorem probes_run (l : List PciAddress) (hl : ∀ a ∈ l, a.Probed) :
    (l.foldl (probe type) (start s)).pci.functions = s.functions ∧
      (l.foldl (probe type) (start s)).fDevices =
        fillTable PciAddress.bus (hits s type) PciAddress.toDevice (fun _ => none) l ∧
      (l.foldl (probe type) (start s)).probes = l := by
  induction l using List.reverseRecOn with
  | nil => exact ⟨rfl, rfl, rfl⟩
  | append_singleton l a ih =>
    have ha : a.Probed := hl a (by simp)
    obtain ⟨hfunctions, hdevices, hprobes⟩ := ih fun b hb => hl b (List.mem_append_left [a] hb)
    rw [List.foldl_append, List.foldl_cons, List.foldl_nil]
    generalize l.foldl (probe type) (start s) = it at hfunctions hdevices hprobes ⊢
    have hclass : (a.toDevice.classCode it.pci).1 = classAt s a.answering := by
      rw [classCode_toDevice ha, classAt, classAt, hfunctions]
    refine ⟨hfunctions, ?_, ?_⟩
    · rw [fillTable_concat, ← hdevices]
      simp only [probe, hits, hclass, decide_eq_true_eq]
    · rw [probe, hprobes]

/-- The table that the constructor leaves. -/
theorem construct_fDevices (type : PciDeviceKind) (s : PciBus) :
    (construct type s).fDevices =
      fillTable PciAddress.bus (hits s type) PciAddress.toDevice (fun _ => none) probeOrder := by
  rw [construct_eq]
  exact (probes_run probeOrder fun a ha => mem_probeOrder.mp ha).2.1

theorem construct_probes (type : PciDeviceKind) (s : PciBus) :
    (construct type s).probes = probeOrder := by
  rw [construct_eq]
  exact (probes_run probeOrder fun a ha => mem_probeOrder.mp ha).2.2

theorem hits_iff {a : PciAddress} (h : a.Probed) :
    hits s type a = true ↔ PciMatch s type a.answering := by
  obtain ⟨hb, hd, hf⟩ := h.answering_legal
  rw [hits, decide_eq_true_iff, classAt_iff type.toUInt8_ne]
  constructor
  · intro hclass
    exact ⟨hb, hd, hf, hclass⟩
  · intro hmatch
    exact hmatch.hasClass

/-- A bus on which something is found has the last probe of it that finds something. -/
theorem construct_found {i : Nat}
    (h : ∃ a : PciAddress, a.Probed ∧ PciMatch s type a.answering ∧ a.bus = i) :
    ∃ a : PciAddress, a.Probed ∧ PciMatch s type a.answering ∧ a.bus = i ∧
      (construct type s).fDevices i = some a.toDevice ∧ ∀ b : PciAddress,
        b.Probed → PciMatch s type b.answering → b.bus = i → b = a ∨ b.Before a := by
  obtain ⟨c, hc, hmatch, hbus⟩ := h
  obtain ⟨a, ha, hhit, hkey, hvalue, hlast⟩ := @fillTable_last _ _ _ _ PciAddress.bus (hits s type)
    PciAddress.toDevice (fun _ => none) probeOrder _ probeOrder_pairwise i
    ⟨c, mem_probeOrder.mpr hc, (hits_iff hc).mpr hmatch, hbus⟩
  have ha' := mem_probeOrder.mp ha
  refine ⟨a, ha', (hits_iff ha').mp hhit, hkey, ?_, ?_⟩
  · rw [construct_fDevices]
    exact hvalue
  · intro b hb hbmatch hbbus
    exact hlast b (mem_probeOrder.mpr hb) ((hits_iff hb).mpr hbmatch) hbbus

/-- What stands in the table was found there. -/
theorem construct_some {i : Nat} {dev : PciDevice}
    (h : (construct type s).fDevices i = some dev) :
    ∃ a : PciAddress, a.Probed ∧ PciMatch s type a.answering ∧ a.bus = i ∧ dev = a.toDevice := by
  by_cases hfound : ∃ a : PciAddress, a.Probed ∧ PciMatch s type a.answering ∧ a.bus = i
  · obtain ⟨a, ha, hmatch, hbus, hvalue, _⟩ := construct_found hfound
    rw [hvalue] at h
    exact ⟨a, ha, hmatch, hbus, (Option.some.inj h).symm⟩
  · have hnone : (construct type s).fDevices i = none := by
      rw [construct_fDevices]
      apply fillTable_of_none
      intro a ha hhit hbus
      have ha' := mem_probeOrder.mp ha
      exact hfound ⟨a, ha', (hits_iff ha').mp hhit, hbus⟩
    rw [hnone] at h
    cases h

end PciIterator

/-! ### What is collected -/

/-- No bus has two functions of the class, and the first device of an odd bus has none. -/
structure OnePerBus (s : PciBus) (type : PciDeviceKind) : Prop where
  even : ∀ a, PciMatch s type a → a.device = 0 → a.bus % 2 = 0
  single : ∀ a b, PciMatch s type a → PciMatch s type b → a.bus = b.bus → a = b

section Collect

open PciIterator

variable {s : PciBus} {type : PciDeviceKind}

theorem PciMatch.probed {a : PciAddress} (h : PciMatch s type a) : a.Probed :=
  ⟨h.bus, lt_trans h.device (by decide), h.function⟩

theorem PciMatch.answering_eq {a : PciAddress} (h : PciMatch s type a) : a.answering = a :=
  if_pos h.device

/-- The probe of the device one too far on a bus, which the first device of an odd bus answers. -/
private theorem spill {b f : Nat} (hb : b < zkaBusCount) (hf : f < zkaFunctionCount) :
    (⟨b, 32, f⟩ : PciAddress).Probed ∧
      (⟨b, 32, f⟩ : PciAddress).answering = ⟨2 * (b / 2) + 1, 0, f⟩ :=
  ⟨⟨hb, Nat.lt_succ_self 32, hf⟩, if_neg (lt_irrefl 32)⟩

/-- On a bus where such a probe finds something, the last one that does is kept. -/
private theorem spill_kept {b f : Nat} (hb : b < zkaBusCount)
    (hmatch : PciMatch s type ⟨2 * (b / 2) + 1, 0, f⟩) :
    ∃ g, PciMatch s type ⟨2 * (b / 2) + 1, 0, g⟩ ∧
      (construct type s).fDevices b = some (PciAddress.toDevice ⟨b, 32, g⟩) ∧
      ∀ g', PciMatch s type ⟨2 * (b / 2) + 1, 0, g'⟩ → g' ≤ g := by
  have hprobe : ∀ g, PciMatch s type ⟨2 * (b / 2) + 1, 0, g⟩ →
      (⟨b, 32, g⟩ : PciAddress).Probed ∧ PciMatch s type (⟨b, 32, g⟩ : PciAddress).answering := by
    intro g hg
    obtain ⟨hprobed, hanswer⟩ := spill hb hg.function
    rw [hanswer]
    exact ⟨hprobed, hg⟩
  obtain ⟨a, ha, hamatch, hbus, hvalue, hlast⟩ :=
    construct_found ⟨_, (hprobe f hmatch).1, (hprobe f hmatch).2, rfl⟩
  have hle : ∀ g, PciMatch s type ⟨2 * (b / 2) + 1, 0, g⟩ → a.device = 32 ∧ g ≤ a.function := by
    intro g hg
    have hdevice : a.device < 33 := ha.device
    rcases hlast _ (hprobe g hg).1 (hprobe g hg).2 rfl with heq | hbefore
    · rw [← heq]
      exact ⟨rfl, le_rfl⟩
    · rcases hbefore hbus.symm with hlt | ⟨heq, hlt⟩
      · dsimp only at hlt
        omega
      · exact ⟨heq.symm, hlt.le⟩
  have hfields : a = ⟨b, 32, a.function⟩ := by
    cases a
    rw [PciAddress.mk.injEq]
    exact ⟨hbus, (hle f hmatch).1, rfl⟩
  refine ⟨a.function, ?_, ?_, fun g hg => (hle g hg).2⟩
  · rw [hfields, (spill hb ha.function).2] at hamatch
    exact hamatch
  · rw [hvalue, ← hfields]

/-- What the first device of an odd bus has is found on two buses. -/
private theorem even_of_collects (h : Collects s type) {a : PciAddress}
    (hmatch : PciMatch s type a) (hdevice : a.device = 0) : a.bus % 2 = 0 := by
  by_contra hodd
  have hbus := hmatch.bus
  have hhere : 2 * (a.bus / 2) + 1 = a.bus := by omega
  have hbelow : 2 * ((a.bus - 1) / 2) + 1 = a.bus := by omega
  have haddress : a = ⟨a.bus, 0, a.function⟩ := by rw [← hdevice]
  have hfirst : PciMatch s type ⟨2 * (a.bus / 2) + 1, 0, a.function⟩ := by
    rwa [hhere, ← haddress]
  have hsecond : PciMatch s type ⟨2 * ((a.bus - 1) / 2) + 1, 0, a.function⟩ := by
    rwa [hbelow, ← haddress]
  obtain ⟨f, hf, hkept, hmost⟩ := spill_kept hbus hfirst
  obtain ⟨g, hg, hkept', hmost'⟩ := spill_kept (by omega : a.bus - 1 < zkaBusCount) hsecond
  rw [hhere] at hf hmost
  rw [hbelow] at hg hmost'
  obtain rfl : f = g := le_antisymm (hmost' f hf) (hmost g hg)
  have hown : ∀ b, b < zkaBusCount → 2 * (b / 2) + 1 = a.bus →
      (PciAddress.toDevice ⟨b, 32, f⟩).own = ⟨a.bus, 0, f⟩ := by
    intro b hb heq
    obtain ⟨hprobed, hanswer⟩ := spill hb hf.function
    rw [hprobed.own_toDevice, hanswer, heq]
  have hsame := (h _ hf).unique ⟨hbus, _, hkept, hown _ hbus hhere⟩
    ⟨by omega, _, hkept', hown _ (by omega) hbelow⟩
  omega

/-- Without such a function every entry of the table is one of its own bus. -/
private theorem entry_eq (heven : ∀ a, PciMatch s type a → a.device = 0 → a.bus % 2 = 0) {i : Nat}
    {a : PciAddress} (h : ∃ dev, (construct type s).fDevices i = some dev ∧ dev.own = a) :
    a.bus = i ∧ (construct type s).fDevices i = some a.toDevice := by
  obtain ⟨dev, hdev, hown⟩ := h
  obtain ⟨x, hx, hmatch, hbus, rfl⟩ := construct_some hdev
  rw [hx.own_toDevice] at hown
  have hlegal : x.device < pciDeviceCount := by
    by_contra hover
    have hanswer : x.answering = ⟨2 * (x.bus / 2) + 1, 0, x.function⟩ := if_neg hover
    rw [hanswer] at hmatch
    have hmod := heven _ hmatch rfl
    dsimp only at hmod
    omega
  have hself : x.answering = x := if_pos hlegal
  rw [hself] at hown
  rw [← hown]
  exact ⟨hbus, hdev⟩

private theorem collects_core : Collects s type ↔ OnePerBus s type := by
  constructor
  · intro h
    have heven : ∀ a, PciMatch s type a → a.device = 0 → a.bus % 2 = 0 :=
      fun a hmatch hdevice => even_of_collects h hmatch hdevice
    refine ⟨heven, ?_⟩
    intro a b ha hb hbus
    obtain ⟨i, ⟨_, hi⟩, _⟩ := h a ha
    obtain ⟨j, ⟨_, hj⟩, _⟩ := h b hb
    obtain ⟨rfl, hadev⟩ := entry_eq heven hi
    obtain ⟨rfl, hbdev⟩ := entry_eq heven hj
    rw [← hbus, hadev] at hbdev
    have hown := congrArg PciDevice.own (Option.some.inj hbdev)
    rwa [ha.probed.own_toDevice, hb.probed.own_toDevice, ha.answering_eq, hb.answering_eq] at hown
  · intro h a ha
    obtain ⟨x, hx, hmatch, hbus, hvalue, _⟩ :=
      construct_found ⟨a, ha.probed, ha.answering_eq.symm ▸ ha, rfl⟩
    obtain ⟨hxbus, hxdev⟩ := entry_eq h.even ⟨_, hvalue, hx.own_toDevice⟩
    have hsame : x.answering = a := h.single _ _ hmatch ha hxbus
    refine ⟨a.bus, ⟨ha.bus, _, hvalue, hx.own_toDevice.trans hsame⟩, ?_⟩
    intro i hi
    exact (entry_eq h.even hi.2).1.symm

end Collect

/-- A bus is always asked for a device that it cannot have; apart from this, the functions of a
class are collected exactly if no bus has two of them and the first device of no odd bus has one. -/
theorem pciIterator_iff (s : PciBus) (type : PciDeviceKind) :
    ¬ Enumerates s type ∧ (Collects s type ↔ OnePerBus s type) := by
  refine ⟨?_, collects_core⟩
  intro h
  have hprobe : (⟨0, 32, 0⟩ : PciAddress) ∈ (PciIterator.construct type s).probes := by
    rw [PciIterator.construct_probes, mem_probeOrder]
    exact ⟨by decide, by decide, by decide⟩
  exact lt_irrefl 32 (h.2 _ hprobe).1

/-- Two mass storage controllers on the first bus. -/
def twoControllers : PciBus :=
  ⟨fun a => if a = ⟨0, 1, 0⟩ ∨ a = ⟨0, 2, 0⟩ then some fun _ => 1 else none, 0⟩

/-- One of the two is lost. -/
theorem pciIterator_two : ¬ Collects twoControllers .massStorageController ∧
    ¬ Enumerates twoControllers .massStorageController := by
  have hnot : ¬ Collects twoControllers .massStorageController := by
    intro h
    have hfirst : PciMatch twoControllers .massStorageController ⟨0, 1, 0⟩ :=
      ⟨by decide, by decide, by decide, fun _ => 1, rfl, rfl⟩
    have hsecond : PciMatch twoControllers .massStorageController ⟨0, 2, 0⟩ :=
      ⟨by decide, by decide, by decide, fun _ => 1, rfl, rfl⟩
    exact absurd ((collects_core.mp h).single _ _ hfirst hsecond rfl) (by decide)
  exact ⟨hnot, fun h => hnot h.1⟩

end Zka.HALKit
