import Zka.Framework.Store

/-!
# PCI configuration space

The functions on the buses, the address and data ports in front of their configuration
registers, and the accesses of a `PCI::Device`.  A read takes its place in the data port from
the register it is asked for, a write from a field of the device.
-/

namespace Zka.HALKit

/-! ## The buses -/

/-- Where a function is found. -/
structure PciAddress where
  bus : Nat
  device : Nat
  function : Nat
  deriving DecidableEq, Repr

/-- The functions that are present, with their configuration registers, and what was written last
to the address port. -/
structure PciBus where
  functions : PciAddress → Option Store
  configAddress : UInt32

/-- `PciConfigKind::ConfigData`, the first of four ports. -/
def configData : Nat := 0xCFC

/-- The function that a value of the address port names. -/
def selected (target : UInt32) : PciAddress where
  bus := (target >>> 16 &&& 0xFF).toNat
  device := (target >>> 11 &&& 0x1F).toNat
  function := (target >>> 8 &&& 0x07).toNat

/-- The first of the four registers that a value of the address port names. -/
def register (target : UInt32) : Nat := (target &&& 0xFC).toNat

namespace PciBus

/-- What a port shows.  A function that is not there has ones everywhere, and so do the ports
behind the data port. -/
def portByte (s : PciBus) : Store := fun port =>
  match s.functions (selected s.configAddress) with
  | none => 0xFF
  | some config =>
    if configData ≤ port ∧ port < configData + 4 then
      config (register s.configAddress + (port - configData))
    else 0xFF

/-- The registers behind the data port take what is written to it. -/
def outBytes {n : Nat} (s : PciBus) (port : Nat) (b : Bytes n) : PciBus :=
  match s.functions (selected s.configAddress) with
  | none => s
  | some config =>
    { s with
      functions := Function.update s.functions (selected s.configAddress) (some fun r =>
        if register s.configAddress ≤ r ∧ r < register s.configAddress + 4 then
          s.portByte.write port b (configData + (r - register s.configAddress))
        else config r) }

def rtIn8 (s : PciBus) (port : Nat) : UInt8 := s.portByte.get Layout.u8 port

def rtIn16 (s : PciBus) (port : Nat) : UInt16 := s.portByte.get Layout.u16 port

def rtIn32 (s : PciBus) (port : Nat) : UInt32 := s.portByte.get Layout.u32 port

def rtOut8 (s : PciBus) (port : Nat) (value : UInt8) : PciBus :=
  s.outBytes port (Layout.u8 value)

def rtOut16 (s : PciBus) (port : Nat) (value : UInt16) : PciBus :=
  s.outBytes port (Layout.u16 value)

def rtOut32 (s : PciBus) (port : Nat) (value : UInt32) : PciBus :=
  s.outBytes port (Layout.u32 value)

end PciBus

/-! ## The device -/

def cfgTarget (register : UInt32) (bus dev fun' : UInt16) : UInt32 :=
  (0x80000000 : UInt32) ||| (bus.toUInt32 <<< 16) ||| (dev.toUInt32 <<< 11) |||
    (fun'.toUInt32 <<< 8) ||| register

/-- `ZKA_PCIReadRaw`. -/
def pciReadRaw (s : PciBus) (bar : UInt32) (bus dev fun' : UInt16) : UInt32 × PciBus :=
  let s := { s with configAddress := cfgTarget (bar &&& 0xFC) bus dev fun' }
  (s.rtIn32 configData, s)

/-- `ZKA_PCISetCfgTarget`. -/
def pciSetCfgTarget (s : PciBus) (bar : UInt32) (bus dev fun' : UInt16) : PciBus :=
  { s with configAddress := cfgTarget (bar &&& ~~~3) bus dev fun' }

/-- `PCI::Device`. -/
structure PciDevice where
  fBus : UInt16
  fDevice : UInt16
  fFunction : UInt16
  fBar : UInt32
  deriving DecidableEq, Repr

namespace PciDevice

variable (dev : PciDevice)

/-- The value of the address port for a register of the device. -/
def target (bar : UInt32) : UInt32 := cfgTarget (bar &&& ~~~3) dev.fBus dev.fDevice dev.fFunction

def read (s : PciBus) (bar : UInt32) (sz : UInt64) : UInt32 × PciBus :=
  let s := pciSetCfgTarget s bar dev.fBus dev.fDevice dev.fFunction
  let port := configData + (bar &&& 3).toNat
  if sz = 4 then (s.rtIn32 port, s)
  else if sz = 2 then ((s.rtIn16 port).toUInt32, s)
  else if sz = 1 then ((s.rtIn8 port).toUInt32, s)
  else (0xFFFF, s)

/-- The place in the data port comes from `fBar`. -/
def write (s : PciBus) (bar : UInt32) (data sz : UInt64) : PciBus :=
  let s := pciSetCfgTarget s bar dev.fBus dev.fDevice dev.fFunction
  let port := configData + (dev.fBar &&& 3).toNat
  if sz = 4 then s.rtOut32 port data.toUInt32
  else if sz = 2 then s.rtOut16 port data.toUInt16
  else if sz = 1 then s.rtOut8 port data.toUInt8
  else s

/-- The name `class` is taken. -/
def classCode (s : PciBus) : UInt8 × PciBus :=
  let (raw, s) := pciReadRaw s 0x08 dev.fBus dev.fDevice dev.fFunction
  ((raw >>> 24).toUInt8, s)

/-- The value read becomes a truth value before it is written back. -/
def enableMmio (s : PciBus) (barIn : UInt32) : PciBus :=
  let (value, s) := dev.read s barIn 1
  let enable : Bool := (value ||| (1 : UInt32) <<< 1) != 0
  dev.write s barIn enable.toUInt64 2

def becomeBusMaster (s : PciBus) (barIn : UInt32) : PciBus :=
  let (value, s) := dev.read s barIn 2
  let enable : Bool := (value ||| (1 : UInt32) <<< 2) != 0
  dev.write s barIn enable.toUInt64 2

end PciDevice

/-! ## What the accesses should do -/

/-- The function that the device is. -/
def PciDevice.own (dev : PciDevice) : PciAddress := selected (dev.target 0)

/-- The low byte of the command register, where both bits stand. -/
def commandRegister : Nat := 4

def commandMemory : UInt8 := 0x02

def commandMaster : UInt8 := 0x04

def setCommandBit (bit : UInt8) (config : Store) : Store :=
  Function.update config commandRegister (config commandRegister ||| bit)

/-- The bit of the command register is set, and no register changes besides. -/
structure SetsOnly (bit : UInt8) (own : PciAddress) (before after : PciBus) : Prop where
  command : after.functions own = (before.functions own).map (setCommandBit bit)
  others : ∀ a, a ≠ own → after.functions a = before.functions a

/-- Behind a write to a device that is there, a read of the same size and register returns what
was written. -/
def ReadsBack (dev : PciDevice) (bar : UInt32) (sz : UInt64) : Prop :=
  ∀ (s : PciBus) (data : UInt64), s.functions (selected (dev.target bar)) ≠ none →
    (dev.read (dev.write s bar data sz) bar sz).1.toNat = data.toNat % 256 ^ sz.toNat

/-! ### Ports and registers -/

section Ports

variable {s : PciBus} {n : Nat} {port : Nat} {b : Bytes n} {config : Store}

/-- What stands in the registers behind the data port after a write. -/
def PciBus.written (s : PciBus) (config : Store) (port : Nat) (b : Bytes n) : Store := fun r =>
  if register s.configAddress ≤ r ∧ r < register s.configAddress + 4 then
    s.portByte.write port b (configData + (r - register s.configAddress))
  else config r

theorem portByte_absent (h : s.functions (selected s.configAddress) = none) (x : Nat) :
    s.portByte x = 0xFF := by
  rw [PciBus.portByte, h]

theorem portByte_present (h : s.functions (selected s.configAddress) = some config) {x : Nat}
    (hx : configData ≤ x ∧ x < configData + 4) :
    s.portByte x = config (register s.configAddress + (x - configData)) := by
  rw [PciBus.portByte, h]
  exact if_pos hx

theorem portByte_behind {x : Nat} (hx : configData + 4 ≤ x) : s.portByte x = 0xFF := by
  rw [PciBus.portByte]
  split
  · rfl
  · rw [if_neg]
    omega

theorem outBytes_absent (h : s.functions (selected s.configAddress) = none) :
    s.outBytes port b = s := by
  rw [PciBus.outBytes, h]

theorem outBytes_present (h : s.functions (selected s.configAddress) = some config) :
    s.outBytes port b = { s with
      functions := Function.update s.functions (selected s.configAddress)
        (some (s.written config port b)) } := by
  rw [PciBus.outBytes, h]
  rfl

theorem outBytes_configAddress : (s.outBytes port b).configAddress = s.configAddress := by
  rw [PciBus.outBytes]
  split
  · rfl
  · rfl

/-- A port of the data register that is not written keeps its register. -/
theorem written_outside (h : s.functions (selected s.configAddress) = some config) {r : Nat}
    (hr : register s.configAddress ≤ r → r < register s.configAddress + 4 →
      configData + (r - register s.configAddress) < port ∨
        port + n ≤ configData + (r - register s.configAddress)) :
    s.written config port b r = config r := by
  rw [PciBus.written]
  split
  case isTrue hin =>
    have hplace : register s.configAddress +
        (configData + (r - register s.configAddress) - configData) = r := by omega
    rw [Store.write_outside _ _ (hr hin.1 hin.2), portByte_present h (by omega), hplace]
  case isFalse => rfl

theorem written_inside {i : Fin n} (hport : configData ≤ port) (hi : port + i < configData + 4) :
    s.written config port b (register s.configAddress + (port - configData) + i) = b i := by
  have hplace : configData + (register s.configAddress + (port - configData) + i -
      register s.configAddress) = port + i := by omega
  rw [PciBus.written, if_pos (by omega), hplace]
  exact Store.write_inside _ _ _ i

/-- The data port shows what was written to it. -/
theorem portByte_outBytes (h : s.functions (selected s.configAddress) = some config) {x : Nat}
    (hx : configData ≤ x ∧ x < configData + 4) :
    (s.outBytes port b).portByte x = s.portByte.write port b x := by
  have hafter : (s.outBytes port b).functions
      (selected (s.outBytes port b).configAddress) = some (s.written config port b) := by
    rw [outBytes_configAddress, outBytes_present h]
    exact Function.update_self _ _ _
  have hplace : configData + (register s.configAddress + (x - configData) -
      register s.configAddress) = x := by omega
  rw [portByte_present hafter hx, outBytes_configAddress, PciBus.written, if_pos (by omega),
    hplace]

end Ports

/-! ### Setting a bit of the command register -/

theorem register_mod (target : UInt32) : register target % 4 = 0 := by
  have h : ∀ n : Nat, (n &&& 252) % 2 ^ 2 = 0 := by
    intro n
    rw [Nat.and_mod_two_pow]
    simp
  rw [register, UInt32.toNat_and]
  exact h _

theorem setCommandBit_eq_iff {bit : UInt8} {config : Store} :
    setCommandBit bit config = config ↔
      config commandRegister ||| bit = config commandRegister := by
  rw [setCommandBit, Function.update_eq_self_iff]

section SetBit

variable (dev : PciDevice) (s : PciBus) (barIn : UInt32)

/-- The place that a write of the device takes in the data port. -/
def PciDevice.writePlace : Nat := (dev.fBar &&& 3).toNat

theorem PciDevice.writePlace_lt : dev.writePlace < 4 := by
  have h : (dev.fBar &&& 3).toNat ≤ (3 : UInt32).toNat := by
    rw [UInt32.toNat_and]
    exact Nat.and_le_right
  have h3 : (3 : UInt32).toNat = 3 := rfl
  rw [PciDevice.writePlace]
  omega

/-- The bus with a register of the device in the address port. -/
def PciDevice.aimed : PciBus := { s with configAddress := dev.target barIn }

theorem write_two (data : UInt64) :
    dev.write s barIn data 2 =
      (dev.aimed s barIn).rtOut16 (configData + dev.writePlace) data.toUInt16 := rfl

/-- A value with a bit set is true, whatever was read. -/
private theorem truth_of_bit (value bit : UInt32) (h : bit ≠ 0) : (value ||| bit != 0) = true := by
  rw [bne_iff_ne]
  intro hzero
  exact h (UInt32.or_eq_zero_iff.mp hzero).2

theorem enableMmio_eq : dev.enableMmio s barIn = dev.write s barIn 1 2 := by
  have htruth := truth_of_bit (dev.read s barIn 1).1 ((1 : UInt32) <<< 1) (by decide)
  have hwrite : dev.enableMmio s barIn = dev.write (dev.aimed s barIn) barIn
      ((dev.read s barIn 1).1 ||| (1 : UInt32) <<< 1 != 0).toUInt64 2 := rfl
  rw [hwrite, htruth]
  rfl

theorem becomeBusMaster_eq : dev.becomeBusMaster s barIn = dev.write s barIn 1 2 := by
  have htruth := truth_of_bit (dev.read s barIn 2).1 ((1 : UInt32) <<< 2) (by decide)
  have hwrite : dev.becomeBusMaster s barIn = dev.write (dev.aimed s barIn) barIn
      ((dev.read s barIn 2).1 ||| (1 : UInt32) <<< 2 != 0).toUInt64 2 := rfl
  rw [hwrite, htruth]
  rfl

private theorem or_ne_one {bit : UInt8} (n : Nat) (hbit : bit.toNat.testBit n = true)
    (hone : (1 : UInt8).toNat.testBit n = false) (x : UInt8) : x ||| bit ≠ 1 := by
  intro hx
  rw [← hx, UInt8.toNat_or, Nat.testBit_or, hbit, Bool.or_true] at hone
  cases hone

/-- The word one stands already where the device writes. -/
def PciDevice.HoldsOne : Prop :=
  ∀ config, s.functions (selected (dev.target barIn)) = some config →
    config (register (dev.target barIn) + dev.writePlace) = 1 ∧
      (dev.writePlace < 3 → config (register (dev.target barIn) + dev.writePlace + 1) = 0)

/-- The bit of the command register is set already. -/
def PciDevice.HasBit (bit : UInt8) : Prop :=
  ∀ config, s.functions dev.own = some config →
    config commandRegister ||| bit = config commandRegister

variable {dev s barIn}

private theorem u16_one (i : Fin 2) : Layout.u16 1 i = if i = 0 then 1 else 0 := by
  rw [Layout.u16_apply]
  revert i
  decide

private theorem written_first {config : Store} :
    (dev.aimed s barIn).written config (configData + dev.writePlace) (Layout.u16 1)
      (register (dev.target barIn) + dev.writePlace) = 1 := by
  have hlt := dev.writePlace_lt
  have h := @written_inside (dev.aimed s barIn) 2 (configData + dev.writePlace) (Layout.u16 1)
    config 0 (Nat.le_add_right _ _) (by simpa using hlt)
  rw [Nat.add_sub_cancel_left] at h
  exact h.trans (u16_one 0)

private theorem written_second {config : Store} (hlt : dev.writePlace < 3) :
    (dev.aimed s barIn).written config (configData + dev.writePlace) (Layout.u16 1)
      (register (dev.target barIn) + dev.writePlace + 1) = 0 := by
  have h := @written_inside (dev.aimed s barIn) 2 (configData + dev.writePlace) (Layout.u16 1)
    config 1 (Nat.le_add_right _ _) (by simp; omega)
  rw [Nat.add_sub_cancel_left] at h
  exact h.trans (u16_one 1)

/-- Registers that are neither of the two that are written. -/
private theorem written_rest {config : Store} {r : Nat}
    (h : s.functions (selected (dev.target barIn)) = some config)
    (hfirst : r ≠ register (dev.target barIn) + dev.writePlace)
    (hsecond : dev.writePlace < 3 → r ≠ register (dev.target barIn) + dev.writePlace + 1) :
    (dev.aimed s barIn).written config (configData + dev.writePlace) (Layout.u16 1) r =
      config r := by
  apply written_outside (s := dev.aimed s barIn) h
  intro hle hlt
  change configData + (r - register (dev.target barIn)) < configData + dev.writePlace ∨
    configData + dev.writePlace + 2 ≤ configData + (r - register (dev.target barIn))
  change register (dev.target barIn) ≤ r at hle
  change r < register (dev.target barIn) + 4 at hlt
  omega

/-- One is written where it stands already, or something changes. -/
private theorem written_eq_iff {config : Store}
    (h : s.functions (selected (dev.target barIn)) = some config) :
    (dev.aimed s barIn).written config (configData + dev.writePlace) (Layout.u16 1) = config ↔
      config (register (dev.target barIn) + dev.writePlace) = 1 ∧
        (dev.writePlace < 3 → config (register (dev.target barIn) + dev.writePlace + 1) = 0) := by
  constructor
  · intro heq
    constructor
    · have hone : (dev.aimed s barIn).written config (configData + dev.writePlace) (Layout.u16 1)
          (register (dev.target barIn) + dev.writePlace) = 1 := written_first
      rw [heq] at hone
      exact hone
    · intro hlt
      have hzero : (dev.aimed s barIn).written config (configData + dev.writePlace) (Layout.u16 1)
          (register (dev.target barIn) + dev.writePlace + 1) = 0 := written_second hlt
      rw [heq] at hzero
      exact hzero
  · intro hones
    funext r
    by_cases hfirst : r = register (dev.target barIn) + dev.writePlace
    · rw [hfirst, written_first, hones.1]
    · by_cases hsecond : dev.writePlace < 3 ∧
          r = register (dev.target barIn) + dev.writePlace + 1
      · rw [hsecond.2, written_second hsecond.1, hones.2 hsecond.1]
      · exact written_rest h hfirst fun hlt heq => hsecond ⟨hlt, heq⟩

/-- A write of one sets no bit of the command register but where nothing changes. -/
private theorem written_command {config : Store} {bit : UInt8}
    (hbit : ∀ x : UInt8, x ||| bit ≠ 1)
    (h : s.functions (selected (dev.target barIn)) = some config)
    (hset : (dev.aimed s barIn).written config (configData + dev.writePlace) (Layout.u16 1) =
      setCommandBit bit config) : setCommandBit bit config = config := by
  have hmod := register_mod (dev.target barIn)
  have hfirst : commandRegister ≠ register (dev.target barIn) + dev.writePlace := by
    intro heq
    have hone := congrFun hset commandRegister
    rw [heq, written_first, ← heq, setCommandBit, Function.update_self] at hone
    exact hbit _ hone.symm
  have hrest := written_rest h hfirst fun hlt heq => by
    unfold commandRegister at heq
    omega
  rw [hset, setCommandBit, Function.update_self] at hrest
  exact setCommandBit_eq_iff.mpr hrest

theorem hasBit_iff {bit : UInt8} :
    dev.HasBit s bit ↔ s.functions dev.own = (s.functions dev.own).map (setCommandBit bit) := by
  rw [PciDevice.HasBit]
  cases h : s.functions dev.own with
  | none => simp
  | some config =>
    rw [Option.map_some, Option.some_inj, eq_comm (a := config), setCommandBit_eq_iff]
    simp

theorem write_absent (h : s.functions (selected (dev.target barIn)) = none) :
    (dev.write s barIn 1 2).functions = s.functions := by
  rw [write_two, PciBus.rtOut16, outBytes_absent (s := dev.aimed s barIn) h]
  rfl

theorem write_present {config : Store}
    (h : s.functions (selected (dev.target barIn)) = some config) :
    (dev.write s barIn 1 2).functions =
      Function.update s.functions (selected (dev.target barIn))
        (some ((dev.aimed s barIn).written config (configData + dev.writePlace)
          (Layout.u16 1))) := by
  rw [write_two, PciBus.rtOut16, outBytes_present (s := dev.aimed s barIn) h]
  rfl

theorem write_of_holdsOne (h : dev.HoldsOne s barIn) :
    (dev.write s barIn 1 2).functions = s.functions := by
  cases hsel : s.functions (selected (dev.target barIn)) with
  | none => exact write_absent hsel
  | some config =>
    rw [write_present hsel, (written_eq_iff hsel).mpr (h config hsel), ← hsel]
    exact Function.update_eq_self _ _

/-- What a write leaves that is to set a bit and nothing else. -/
private theorem holdsOne_of_setsOnly {bit : UInt8} (hbit : ∀ x : UInt8, x ||| bit ≠ 1)
    (h : SetsOnly bit dev.own s (dev.write s barIn 1 2)) : dev.HoldsOne s barIn := by
  intro config hsel
  apply (written_eq_iff hsel).mp
  by_cases hown : selected (dev.target barIn) = dev.own
  · have hset := h.command
    rw [write_present hsel, ← hown, Function.update_self, hsel, Option.map_some,
      Option.some_inj] at hset
    exact hset.trans (written_command hbit hsel hset)
  · have hkept := h.others _ hown
    rwa [write_present hsel, Function.update_self, hsel, Option.some_inj] at hkept

/-- Two bytes of value one set the bit and change nothing else exactly if they change nothing at
all and the bit is set. -/
private theorem setsOnly_write_iff {bit : UInt8} (hbit : ∀ x : UInt8, x ||| bit ≠ 1) :
    SetsOnly bit dev.own s (dev.write s barIn 1 2) ↔
      dev.HasBit s bit ∧ dev.HoldsOne s barIn := by
  constructor
  · intro h
    have hones := holdsOne_of_setsOnly hbit h
    have hset := h.command
    rw [write_of_holdsOne hones] at hset
    exact ⟨hasBit_iff.mpr hset, hones⟩
  · intro h
    have hkept := write_of_holdsOne h.2
    constructor
    · rw [hkept]
      exact hasBit_iff.mp h.1
    · intro a _
      rw [hkept]

end SetBit

/-! ### Reading back -/

section ReadBack

variable {dev : PciDevice} {s : PciBus} {bar : UInt32} {sz : UInt64}

/-- The sizes that the ports have. -/
def PortSize (sz : UInt64) : Prop := sz = 1 ∨ sz = 2 ∨ sz = 4

instance (sz : UInt64) : Decidable (PortSize sz) := inferInstanceAs (Decidable (_ ∨ _))

/-- The place that a read takes in the data port. -/
def readPlace (bar : UInt32) : Nat := (bar &&& 3).toNat

private theorem u8_toNat_iff {m : Store} {a v : Nat} (hv : v < 256 ^ 1) :
    (m.get Layout.u8 a).toNat = v ↔ ∀ i < 1, m (a + i) = UInt8.ofNat (v / 256 ^ i) := by
  have hofNat : (UInt8.ofNat v).toNat = v := by
    rw [UInt8.toNat_ofNat']
    exact Nat.mod_eq_of_lt hv
  exact Store.get_toNat_iff Layout.u8_apply (fun _ _ => UInt8.toNat_inj.mp) hofNat

private theorem u16_toNat_iff {m : Store} {a v : Nat} (hv : v < 256 ^ 2) :
    (m.get Layout.u16 a).toNat = v ↔ ∀ i < 2, m (a + i) = UInt8.ofNat (v / 256 ^ i) := by
  have hofNat : (UInt16.ofNat v).toNat = v := by
    rw [UInt16.toNat_ofNat']
    exact Nat.mod_eq_of_lt hv
  exact Store.get_toNat_iff Layout.u16_apply (fun _ _ => UInt16.toNat_inj.mp) hofNat

private theorem u32_toNat_iff {m : Store} {a v : Nat} (hv : v < 256 ^ 4) :
    (m.get Layout.u32 a).toNat = v ↔ ∀ i < 4, m (a + i) = UInt8.ofNat (v / 256 ^ i) := by
  have hofNat : (UInt32.ofNat v).toNat = v := by
    rw [UInt32.toNat_ofNat']
    exact Nat.mod_eq_of_lt hv
  exact Store.get_toNat_iff Layout.u32_apply (fun _ _ => UInt32.toNat_inj.mp) hofNat

/-- What a read returns is the little-endian number that the ports show. -/
theorem read_toNat_iff (hsz : PortSize sz) {v : Nat} (hv : v < 256 ^ sz.toNat) :
    (dev.read s bar sz).1.toNat = v ↔
      ∀ i < sz.toNat, (dev.aimed s bar).portByte (configData + readPlace bar + i) =
        UInt8.ofNat (v / 256 ^ i) := by
  rcases hsz with rfl | rfl | rfl
  · have hread : (dev.read s bar 1).1.toNat =
        ((dev.aimed s bar).portByte.get Layout.u8 (configData + readPlace bar)).toNat :=
      UInt8.toNat_toUInt32 _
    rw [hread]
    exact u8_toNat_iff hv
  · have hread : (dev.read s bar 2).1.toNat =
        ((dev.aimed s bar).portByte.get Layout.u16 (configData + readPlace bar)).toNat :=
      UInt16.toNat_toUInt32 _
    rw [hread]
    exact u16_toNat_iff hv
  · exact u32_toNat_iff hv

/-- The bytes of the value that a write takes. -/
def dataByte (data : UInt64) (i : Nat) : UInt8 := UInt8.ofNat (data.toNat / 256 ^ i)

/-- A number cut off behind a byte still has it. -/
private theorem byte_mod (v : Nat) {n i : Nat} (h : i < n) :
    UInt8.ofNat (v % 256 ^ n / 256 ^ i) = UInt8.ofNat (v / 256 ^ i) := by
  have hsplit : 256 ^ n = 256 ^ i * 256 ^ (n - i) := by
    rw [← pow_add, Nat.add_sub_cancel' h.le]
  have hdvd : 256 ∣ 256 ^ (n - i) := dvd_pow_self 256 (Nat.sub_ne_zero_of_lt h)
  rw [← UInt8.toNat_inj, UInt8.toNat_ofNat', UInt8.toNat_ofNat', hsplit,
    Nat.mod_mul_right_div_self]
  exact Nat.mod_mod_of_dvd _ hdvd

/-- A write puts the bytes of its value into the data port, as many as the size says. -/
theorem write_eq (hsz : PortSize sz) (data : UInt64) :
    dev.write s bar data sz =
      (dev.aimed s bar).outBytes (configData + dev.writePlace)
        (fun i : Fin sz.toNat => dataByte data i) := by
  rcases hsz with rfl | rfl | rfl
  · have hbytes : Layout.u8 data.toUInt8 = fun i : Fin 1 => dataByte data i := by
      funext i
      obtain rfl : i = 0 := Fin.fin_one_eq_zero i
      simp [Layout.u8, dataByte]
    change (dev.aimed s bar).outBytes _ (Layout.u8 data.toUInt8) = _
    rw [hbytes]
    rfl
  · have hbytes : Layout.u16 data.toUInt16 = fun i : Fin 2 => dataByte data i := by
      funext i
      rw [Layout.u16_apply, UInt64.toNat_toUInt16]
      exact byte_mod data.toNat i.isLt
    change (dev.aimed s bar).outBytes _ (Layout.u16 data.toUInt16) = _
    rw [hbytes]
    rfl
  · have hbytes : Layout.u32 data.toUInt32 = fun i : Fin 4 => dataByte data i := by
      funext i
      rw [Layout.u32_apply, UInt64.toNat_toUInt32]
      exact byte_mod data.toNat i.isLt
    change (dev.aimed s bar).outBytes _ (Layout.u32 data.toUInt32) = _
    rw [hbytes]
    rfl

/-- What a later read of the same register sees in the data port. -/
theorem write_portByte (hsz : PortSize sz) (data : UInt64)
    (h : s.functions (selected (dev.target bar)) ≠ none) {x : Nat}
    (hx : configData ≤ x ∧ x < configData + 4) :
    (dev.aimed (dev.write s bar data sz) bar).portByte x =
      if configData + dev.writePlace ≤ x ∧ x < configData + dev.writePlace + sz.toNat then
        dataByte data (x - (configData + dev.writePlace))
      else (dev.aimed s bar).portByte x := by
  obtain ⟨config, hconfig⟩ := Option.ne_none_iff_exists'.mp h
  have haimed : dev.aimed (dev.write s bar data sz) bar = dev.write s bar data sz := by
    rw [write_eq hsz, PciDevice.aimed, PciBus.mk.injEq]
    exact ⟨rfl, (outBytes_configAddress (s := dev.aimed s bar)).symm⟩
  rw [haimed, write_eq hsz, portByte_outBytes (s := dev.aimed s bar) hconfig hx, Store.write]
  split
  · rfl
  · rfl

theorem read_other (h : ¬ PortSize sz) : (dev.read s bar sz).1 = 0xFFFF := by
  obtain ⟨hone, htwo, hfour⟩ : sz ≠ 1 ∧ sz ≠ 2 ∧ sz ≠ 4 := by
    simpa [PortSize, not_or] using h
  simp [PciDevice.read, hone, htwo, hfour]

/-- Every function is there, and its registers are zero. -/
private def zeroBus : PciBus := ⟨fun _ => some fun _ => 0, 0⟩

private theorem readsBack_zero (h : ReadsBack dev bar sz) (hsz : PortSize sz) (data : UInt64)
    {i : Nat} (hi : i < sz.toNat) :
    (dev.aimed (dev.write zeroBus bar data sz) bar).portByte (configData + readPlace bar + i) =
      dataByte data i := by
  have hread := h zeroBus data nofun
  have hlt : data.toNat % 256 ^ sz.toNat < 256 ^ sz.toNat := Nat.mod_lt _ (by positivity)
  rw [read_toNat_iff hsz hlt] at hread
  rw [hread i hi, byte_mod _ hi, dataByte]

/-- The ports behind the data port cannot be written. -/
private theorem place_le_of_readsBack (h : ReadsBack dev bar sz) (hsz : PortSize sz) :
    readPlace bar + sz.toNat ≤ 4 := by
  by_contra hlong
  have hpos : 0 < sz.toNat := by
    rcases hsz with rfl | rfl | rfl
    all_goals decide
  have hbyte := readsBack_zero h hsz 0 (Nat.sub_lt hpos Nat.zero_lt_one)
  rw [portByte_behind (by omega), dataByte] at hbyte
  simp at hbyte

private theorem ones_byte {i : Nat} (h : i < 4) : dataByte 0xFFFFFFFFFFFFFFFF i = 0xFF := by
  interval_cases i
  all_goals rfl

/-- A port that is read and not written keeps its zero. -/
private theorem place_eq_of_readsBack (h : ReadsBack dev bar sz) (hsz : PortSize sz)
    (hle : readPlace bar + sz.toNat ≤ 4) : readPlace bar = dev.writePlace := by
  by_contra hne
  have hpos : 0 < sz.toNat := by
    rcases hsz with rfl | rfl | rfl
    all_goals decide
  obtain ⟨i, hi, hout⟩ : ∃ i < sz.toNat, ¬ (dev.writePlace ≤ readPlace bar + i ∧
      readPlace bar + i < dev.writePlace + sz.toNat) := by
    rcases Nat.lt_or_gt_of_ne hne with hlt | hgt
    · exact ⟨0, hpos, by omega⟩
    · exact ⟨sz.toNat - 1, by omega, by omega⟩
  have hbyte := readsBack_zero h hsz 0xFFFFFFFFFFFFFFFF hi
  have hzero : (dev.aimed zeroBus bar).portByte (configData + readPlace bar + i) = 0 := by
    exact @portByte_present (dev.aimed zeroBus bar) (fun _ => 0) rfl _ (by omega)
  rw [write_portByte hsz _ (Option.some_ne_none _) (by omega), if_neg (by omega), hzero,
    ones_byte (by omega)] at hbyte
  exact absurd hbyte (by decide)

private theorem readsBack_core :
    ReadsBack dev bar sz ↔
      PortSize sz ∧ readPlace bar = dev.writePlace ∧ readPlace bar + sz.toNat ≤ 4 := by
  constructor
  · intro h
    by_cases hsz : PortSize sz
    · have hle := place_le_of_readsBack h hsz
      exact ⟨hsz, place_eq_of_readsBack h hsz hle, hle⟩
    · have hread := h zeroBus 0 nofun
      rw [read_other hsz] at hread
      exact absurd hread (by simp)
  · intro h s data hpresent
    rcases h with ⟨hsz, hplace, hle⟩
    have hlt : data.toNat % 256 ^ sz.toNat < 256 ^ sz.toNat := Nat.mod_lt _ (by positivity)
    rw [read_toNat_iff hsz hlt]
    intro i hi
    have hbyte : configData + readPlace bar + i - (configData + dev.writePlace) = i := by omega
    rw [write_portByte hsz data hpresent (by omega), if_pos (by omega), hbyte, byte_mod _ hi,
      dataByte]

end ReadBack

/-- The two settings of the command register are right exactly where their bit is set already and
the word one stands where they write, and a value is read back exactly if it has a size of the
ports, does not run over the end of the data port, and the place from which it is read is that to
which the device writes. -/
theorem pciDevice_iff (dev : PciDevice) (s : PciBus) (bar : UInt32) (sz : UInt64) :
    (SetsOnly commandMemory dev.own s (dev.enableMmio s bar) ↔
      dev.HasBit s commandMemory ∧ dev.HoldsOne s bar) ∧
    (SetsOnly commandMaster dev.own s (dev.becomeBusMaster s bar) ↔
      dev.HasBit s commandMaster ∧ dev.HoldsOne s bar) ∧
    (ReadsBack dev bar sz ↔
      PortSize sz ∧ readPlace bar = dev.writePlace ∧ readPlace bar + sz.toNat ≤ 4) := by
  rw [enableMmio_eq, becomeBusMaster_eq]
  exact ⟨setsOnly_write_iff (or_ne_one 1 rfl rfl), setsOnly_write_iff (or_ne_one 2 rfl rfl),
    readsBack_core⟩

/-- A function with no bit of its command register set. -/
def zeroFunctions : PciBus := ⟨fun a => if a = ⟨0, 1, 0⟩ then some fun _ => 0 else none, 0⟩

/-- With the command register the memory and the master bit stay clear and its first bit is set. -/
theorem pciDevice_command :
    ¬ SetsOnly commandMemory (PciDevice.own ⟨0, 1, 0, 0⟩) zeroFunctions
        (PciDevice.enableMmio ⟨0, 1, 0, 0⟩ zeroFunctions 4) ∧
      ¬ SetsOnly commandMaster (PciDevice.own ⟨0, 1, 0, 0⟩) zeroFunctions
        (PciDevice.becomeBusMaster ⟨0, 1, 0, 0⟩ zeroFunctions 4) ∧
      ¬ ReadsBack ⟨0, 1, 0, 0⟩ 5 1 := by
  have hnot : ∀ bit : UInt8, bit ≠ 0 → ¬ PciDevice.HasBit ⟨0, 1, 0, 0⟩ zeroFunctions bit := by
    intro bit hbit h
    have hown : PciDevice.own ⟨0, 1, 0, 0⟩ = ⟨0, 1, 0⟩ := by decide
    have hclear := h (fun _ => 0) (by rw [hown]; rfl)
    simp [hbit] at hclear
  refine ⟨?_, ?_, ?_⟩
  · rw [enableMmio_eq, setsOnly_write_iff (or_ne_one 1 rfl rfl)]
    exact fun h => hnot _ (by decide) h.1
  · rw [becomeBusMaster_eq, setsOnly_write_iff (or_ne_one 2 rfl rfl)]
    exact fun h => hnot _ (by decide) h.1
  · rw [readsBack_core]
    decide

end Zka.HALKit
