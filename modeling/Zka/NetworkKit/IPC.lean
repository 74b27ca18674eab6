import Zka.Framework.Layout
import Zka.KernelKit.ProcessCalls

/-!
# Packets between processes

The constructor of a packet and the validator of the kernel.  The constructor
states the size of the whole structure, and the validator wants no more than the
size of its data.
-/

namespace Zka.NetworkKit

open Outcome KernelKit

def kIPCHeaderMagic : UInt32 := 0x4950434

def kIPCLittleEndian : UInt8 := 0

def kIPCBigEndian : UInt8 := 1

def kIPCMixedEndian : UInt8 := 2

def kIPCMsgSize : Nat := 6094

def kErrorIPC : Int32 := 59

inductive Endian where
  | kEndianInvalid
  | kEndianBig
  | kEndianLittle
  | kEndianMixed
  | kEndianCount
  deriving DecidableEq, Repr

def Endian.toUInt8 : Endian → UInt8
  | kEndianInvalid => 0
  | kEndianBig => 1
  | kEndianLittle => 2
  | kEndianMixed => 3
  | kEndianCount => 4

structure IPCAddress where
  userProcessID : UInt64
  userProcessTeam : UInt64
  deriving DecidableEq, Repr

structure IPCMessage where
  ipcHeaderMagic : UInt32
  ipcEndianess : UInt8
  ipcPacketSize : UInt64
  ipcFrom : IPCAddress
  ipcTo : IPCAddress
  ipcCRC32 : UInt32
  ipcMsg : UInt32
  ipcMsgSz : UInt32
  ipcData : Bytes kIPCMsgSize

/-- `sizeof(IPCMessage)`; the structure is packed. -/
def sizeofIPCMessage : UInt64 := 4 + 1 + 8 + 16 + 16 + 4 + 4 + 4 + UInt64.ofNat kIPCMsgSize

def IPCMessage.zero : IPCMessage := ⟨0, 0, 0, ⟨0, 0⟩, ⟨0, 0⟩, 0, 0, 0, fun _ => 0⟩

def IPCMessage.firstByte (pckt : IPCMessage) : UInt8 := pckt.ipcHeaderMagic.toUInt8

/-- `rtl_deduce_endianess` compares the first byte at an address with a value. -/
def rtlDeduceEndianess (pckt : IPCMessage) (value : UInt8) : Endian :=
  if pckt.firstByte = value then .kEndianBig else .kEndianLittle

/-- The endianness marker does not go with the deduced endianness. -/
def markerFails (endian : Endian) (marker : UInt8) : Bool :=
  match endian with
  | .kEndianBig => marker = kIPCLittleEndian
  | .kEndianLittle => marker = kIPCBigEndian
  | .kEndianMixed => marker = kIPCMixedEndian
  | _ => true

/-- The answer, and what is stored into the local error code. -/
def ipcIntSanitizePacket (pckt : IPCMessage) : Bool × Option Int32 :=
  let endian := rtlDeduceEndianess pckt pckt.firstByte
  if markerFails endian pckt.ipcEndianess then (false, some kErrorIPC)
  else if pckt.ipcFrom = pckt.ipcTo ∨ UInt64.ofNat kIPCMsgSize < pckt.ipcPacketSize then
    (false, some kErrorIPC)
  else (decide (1 < pckt.ipcPacketSize ∧ pckt.ipcHeaderMagic = kIPCHeaderMagic), none)

/-- A packet that is not valid crashes the current process. -/
def ipcSanitizePacket (answers : HeapAnswers) (fuel : Nat) (k : Kernel) (current : VoidPtr)
    (pckt : Option IPCMessage) : Outcome CFault (Bool × Kernel) := do
  let valid := match pckt with
    | none => false
    | some pckt => (ipcIntSanitizePacket pckt).1
  if valid then return (true, k)
  else
    let k ← UserProcess.crash answers fuel k current
    return (false, k)

/-- The numbers that the scheduler has for the current process and its team. -/
structure CurrentProcess where
  processId : Int64
  mTeamId : Int64
  deriving DecidableEq, Repr

def IPCMessage.constructed (c : CurrentProcess) : IPCMessage :=
  let pckt := IPCMessage.zero
  let endian := rtlDeduceEndianess pckt pckt.firstByte
  { pckt with
    ipcHeaderMagic := kIPCHeaderMagic
    ipcEndianess := endian.toUInt8
    ipcPacketSize := sizeofIPCMessage
    ipcTo := ⟨0, 0⟩
    ipcFrom := ⟨c.processId.toUInt64, c.mTeamId.toUInt64⟩ }

/-- The argument is a pointer to a pointer to a packet.  It is read before it is tested. -/
def ipcConstructPacket (c : CurrentProcess) (allocated : Bool)
    (pcktIn : Option (Option IPCMessage)) : Outcome CFault (Bool × Option IPCMessage) :=
  match pcktIn with
  | none => .fault .nullDereference
  | some (some pckt) => .done (true, some pckt)
  | some none => if allocated then .done (true, some (.constructed c)) else .done (false, none)

/-! ## Packets that are accepted -/

/-- The kernel answers true and leaves the current process alone. -/
def Accepts (pckt : IPCMessage) : Prop :=
  ∀ answers fuel k current,
    ipcSanitizePacket answers fuel k current (some pckt) = .done (true, k)

/-- The kernel never answers true. -/
def Rejects (pckt : IPCMessage) : Prop :=
  ∀ answers fuel k current k',
    ipcSanitizePacket answers fuel k current (some pckt) ≠ .done (true, k')

/-- The header breaks one of the checks. -/
def IPCMessage.Altered (pckt : IPCMessage) : Prop :=
  pckt.ipcHeaderMagic ≠ kIPCHeaderMagic ∨
    markerFails (rtlDeduceEndianess pckt pckt.firstByte) pckt.ipcEndianess = true ∨
    pckt.ipcPacketSize ≤ 1 ∨ UInt64.ofNat kIPCMsgSize < pckt.ipcPacketSize ∨
    pckt.ipcFrom = pckt.ipcTo

theorem sanitize_valid {pckt : IPCMessage} (h : (ipcIntSanitizePacket pckt).1 = true) :
    Accepts pckt := by
  intro answers fuel k current
  simp [ipcSanitizePacket, h]

theorem sanitize_invalid {pckt : IPCMessage} (h : (ipcIntSanitizePacket pckt).1 = false) :
    Rejects pckt := by
  intro answers fuel k current k' hdone
  simp only [ipcSanitizePacket, h, Bool.false_eq_true, if_false] at hdone
  rw [bind_eq_done] at hdone
  obtain ⟨k₁, _, hdone⟩ := hdone
  cases hdone

theorem intSanitize_iff (pckt : IPCMessage) :
    (ipcIntSanitizePacket pckt).1 = true ↔ ¬ pckt.Altered := by
  simp only [ipcIntSanitizePacket, IPCMessage.Altered]
  by_cases hmarker : markerFails (rtlDeduceEndianess pckt pckt.firstByte) pckt.ipcEndianess = true
  · simp [hmarker]
  · by_cases haddress : pckt.ipcFrom = pckt.ipcTo
    · simp [hmarker, haddress]
    · by_cases hsize : UInt64.ofNat kIPCMsgSize < pckt.ipcPacketSize
      · simp [hmarker, haddress, hsize]
      · simp [hmarker, haddress, hsize, and_comm]

theorem altered_rejected {pckt : IPCMessage} (h : pckt.Altered) : Rejects pckt := by
  apply sanitize_invalid
  rw [← Bool.not_eq_true, intSanitize_iff]
  exact not_not_intro h

/-- A constructed packet states a size of 6151 bytes. -/
theorem constructed_altered (c : CurrentProcess) (dest : IPCAddress) :
    ({ IPCMessage.constructed c with ipcTo := dest }).Altered := by
  have hsize : UInt64.ofNat kIPCMsgSize < sizeofIPCMessage := by decide
  exact Or.inr (Or.inr (Or.inr (Or.inl hsize)))

theorem not_accepts_of_rejects {pckt : IPCMessage} (h : Rejects pckt) : ¬ Accepts pckt := by
  intro haccepts
  exact h UserProcess.sampleAnswers 0 (UserProcess.sampleKernel 0) 0 _
    (haccepts UserProcess.sampleAnswers 0 (UserProcess.sampleKernel 0) 0)

/-- The kernel accepts exactly the packets whose header breaks no check. -/
theorem accepts_iff (pckt : IPCMessage) : Accepts pckt ↔ ¬ pckt.Altered := by
  constructor
  · intro haccepts haltered
    exact not_accepts_of_rejects (altered_rejected haltered) haccepts
  · intro h
    exact sanitize_valid ((intSanitize_iff pckt).mpr h)

/-- What the kernel constructs and then addresses to another process is accepted, and what is
altered is not. -/
def PacketLaw (c : CurrentProcess) (dest : IPCAddress) : Prop :=
  ∃ pckt, ipcConstructPacket c true (some none) = .done (true, some pckt) ∧
    (dest ≠ pckt.ipcFrom → Accepts { pckt with ipcTo := dest }) ∧
    ∀ altered : IPCMessage, altered.Altered → Rejects altered

private theorem packetLaw_core {c : CurrentProcess} {dest : IPCAddress}
    (hdest : dest ≠ (IPCMessage.constructed c).ipcFrom) : ¬ PacketLaw c dest := by
  intro hlaw
  obtain ⟨pckt, hdone, haccepts, _⟩ := hlaw
  cases hdone
  exact (accepts_iff _).mp (haccepts hdest) (constructed_altered c dest)

/-- No packet that the kernel constructs is accepted by the kernel, whatever its addresses. -/
theorem packetLaw_never (c : CurrentProcess) (dest : IPCAddress)
    (hdest : dest ≠ (IPCMessage.constructed c).ipcFrom) : ¬ PacketLaw c dest :=
  packetLaw_core hdest

theorem packetLaw_never_next : ¬ PacketLaw ⟨1, 0⟩ ⟨2, 0⟩ :=
  packetLaw_never ⟨1, 0⟩ ⟨2, 0⟩ (by decide)

/-- A packet from process 1 to process 2 of the same team. -/
theorem packetLaw_fails : (⟨2, 0⟩ : IPCAddress) ≠ (IPCMessage.constructed ⟨1, 0⟩).ipcFrom ∧
    ¬ PacketLaw ⟨1, 0⟩ ⟨2, 0⟩ :=
  ⟨by decide, packetLaw_core (by decide)⟩

end Zka.NetworkKit
