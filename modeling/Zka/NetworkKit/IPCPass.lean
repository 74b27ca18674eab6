import Zka.Framework.Frame
import Zka.NetworkKit.IPC
import Zka.NewKit.Memory

/-!
# Passing the data of a packet

`Pass` copies the data of one packet in memory into another.  The length is a field of the
packet, which the validator does not look at.
-/

namespace Zka.NetworkKit

open Outcome

/-! ## Packets in memory -/

/-- Where `IpcData` stands in the packed structure. -/
def dataOffset : Nat := 57

section Fields

variable (m : Store) (p : Nat)

def addressAt : IPCAddress := ⟨m.get Layout.u64 p, m.get Layout.u64 (p + 8)⟩

def messageAt : IPCMessage where
  ipcHeaderMagic := m.get Layout.u32 p
  ipcEndianess := m (p + 4)
  ipcPacketSize := m.get Layout.u64 (p + 5)
  ipcFrom := addressAt m (p + 13)
  ipcTo := addressAt m (p + 29)
  ipcCRC32 := m.get Layout.u32 (p + 45)
  ipcMsg := m.get Layout.u32 (p + 49)
  ipcMsgSz := m.get Layout.u32 (p + 53)
  ipcData := m.read (p + dataOffset) kIPCMsgSize

end Fields

/-- The bytes of the `IpcData` of a packet. -/
def dataExtent (p : UInt64) : Extent := ⟨p.toNat + dataOffset, kIPCMsgSize⟩

/-! ## `Pass` -/

/-- What is returned, the memory, and the bytes that the copy reads and writes. -/
structure PassReply where
  result : Bool
  memory : Store
  reads : List Extent
  writes : List Extent

/-- The address of `IpcData`. -/
def ipcDataPtr (p : UInt64) : UInt64 := p + UInt64.ofNat dataOffset

def IPCMessage.pass (m : Store) (this target : UInt64) : Outcome CFault PassReply :=
  if target ≠ 0 ∧ (messageAt m target.toNat).ipcFrom = (messageAt m this.toNat).ipcTo then
    let msgSz := (messageAt m this.toNat).ipcMsgSz
    if (messageAt m target.toNat).ipcMsgSz < msgSz then .done ⟨false, m, [], []⟩
    else do
      let (_, memory) ←
        NewKit.rtCopyMemory m (ipcDataPtr this) (ipcDataPtr target) msgSz.toUInt64
      return ⟨true, memory, [⟨(ipcDataPtr this).toNat, msgSz.toNat⟩],
        [⟨(ipcDataPtr target).toNat, msgSz.toNat⟩]⟩
  else .done ⟨false, m, [], []⟩

/-! ## What `Pass` may touch -/

/-- Two packets in the address space that have no byte in common. -/
structure TwoMessages (this target : UInt64) : Prop where
  target_ne : target ≠ 0
  this_fits : this.toNat + sizeofIPCMessage.toNat ≤ 2 ^ 64
  target_fits : target.toNat + sizeofIPCMessage.toNat ≤ 2 ^ 64
  apart : this.toNat + sizeofIPCMessage.toNat ≤ target.toNat ∨
    target.toNat + sizeofIPCMessage.toNat ≤ this.toNat

/-- The copy stays in the data of the two packets, no other field of them changes, and nothing is
copied between other addresses. -/
def PassInBounds (m : Store) (this target : UInt64) : Prop :=
  ∃ r, IPCMessage.pass m this target = .done r ∧
    (∀ e ∈ r.reads, e.Inside (dataExtent this)) ∧
    (∀ e ∈ r.writes, e.Inside (dataExtent target)) ∧
    messageAt r.memory this.toNat = messageAt m this.toNat ∧
    (∃ data, messageAt r.memory target.toNat =
      { messageAt m target.toNat with ipcData := data }) ∧
    ((messageAt m target.toNat).ipcFrom ≠ (messageAt m this.toNat).ipcTo →
      r.memory = m ∧ r.reads = [] ∧ r.writes = [])

/-! ### Fields that are left alone -/

section Congr

variable {s t : Store} {p : Nat}

theorem addressAt_congr (h : ∀ x, p ≤ x → x < p + 16 → s x = t x) :
    addressAt s p = addressAt t p := by
  have hlow : s.get Layout.u64 p = t.get Layout.u64 p :=
    Store.get_congr Layout.u64 fun x hle hlt => h x hle (by omega)
  have hhigh : s.get Layout.u64 (p + 8) = t.get Layout.u64 (p + 8) :=
    Store.get_congr Layout.u64 fun x hle hlt => h x (by omega) (by omega)
  rw [addressAt, addressAt, hlow, hhigh]

/-- Memories with the same bytes in front of the data hold packets with the same header. -/
theorem messageAt_header (h : ∀ x, p ≤ x → x < p + dataOffset → s x = t x) :
    messageAt s p = { messageAt t p with ipcData := s.read (p + dataOffset) kIPCMsgSize } := by
  have hword : ∀ k, k + 4 ≤ dataOffset → s.get Layout.u32 (p + k) = t.get Layout.u32 (p + k) := by
    intro k hk
    exact Store.get_congr Layout.u32 fun x hle hlt => h x (by omega) (by omega)
  have haddress : ∀ k, k + 16 ≤ dataOffset → addressAt s (p + k) = addressAt t (p + k) := by
    intro k hk
    exact addressAt_congr fun x hle hlt => h x (by omega) (by omega)
  have hsize : s.get Layout.u64 (p + 5) = t.get Layout.u64 (p + 5) :=
    Store.get_congr Layout.u64 fun x hle hlt => h x (by omega) (by unfold dataOffset; omega)
  have hmark : s (p + 4) = t (p + 4) := h (p + 4) (by omega) (by unfold dataOffset; omega)
  have hmagic : s.get Layout.u32 p = t.get Layout.u32 p := hword 0 (by decide)
  simp only [messageAt, hmagic, hmark, hsize, hword 45 (by decide), hword 49 (by decide),
    hword 53 (by decide), haddress 13 (by decide), haddress 29 (by decide)]

theorem messageAt_congr (h : ∀ x, p ≤ x → x < p + sizeofIPCMessage.toNat → s x = t x) :
    messageAt s p = messageAt t p := by
  have hsize : sizeofIPCMessage.toNat = dataOffset + kIPCMsgSize := by decide
  have hdata : s.read (p + dataOffset) kIPCMsgSize = t.read (p + dataOffset) kIPCMsgSize := by
    funext i
    exact h _ (by omega) (by omega)
  rw [messageAt_header fun x hle hlt => h x hle (by omega), hdata]
  rfl

end Congr

/-! ### The copy -/

section Pass

variable {m : Store} {this target : UInt64}

theorem ipcDataPtr_toNat {p : UInt64} (h : p.toNat + sizeofIPCMessage.toNat ≤ 2 ^ 64) :
    (ipcDataPtr p).toNat = p.toNat + dataOffset := by
  have hsize : sizeofIPCMessage.toNat = dataOffset + kIPCMsgSize := by decide
  have hoffset : (UInt64.ofNat dataOffset).toNat = dataOffset := by decide
  have hdata : 0 < kIPCMsgSize := by decide
  rw [ipcDataPtr, UInt64.toNat_add, hoffset]
  exact Nat.mod_eq_of_lt (by omega)

/-- A reply without a copy. -/
private theorem inBounds_refused {result : Bool}
    (h : IPCMessage.pass m this target = .done ⟨result, m, [], []⟩) :
    PassInBounds m this target :=
  ⟨_, h, nofun, nofun, rfl, ⟨_, rfl⟩, fun _ => ⟨rfl, rfl, rfl⟩⟩

theorem pass_other (h : (messageAt m target.toNat).ipcFrom ≠ (messageAt m this.toNat).ipcTo) :
    IPCMessage.pass m this target = .done ⟨false, m, [], []⟩ := by
  rw [IPCMessage.pass, if_neg]
  exact fun hboth => h hboth.2

theorem pass_longer
    (h : (messageAt m target.toNat).ipcMsgSz < (messageAt m this.toNat).ipcMsgSz) :
    IPCMessage.pass m this target = .done ⟨false, m, [], []⟩ := by
  rw [IPCMessage.pass]
  split
  · exact if_pos h
  · rfl

/-- The call copies. -/
structure Copies (m : Store) (this target : UInt64) : Prop where
  addressed : (messageAt m target.toNat).ipcFrom = (messageAt m this.toNat).ipcTo
  fits : ¬ (messageAt m target.toNat).ipcMsgSz < (messageAt m this.toNat).ipcMsgSz

theorem pass_copies (htwo : TwoMessages this target) (h : Copies m this target) :
    IPCMessage.pass m this target =
      NewKit.rtCopyMemory m (ipcDataPtr this) (ipcDataPtr target)
          (messageAt m this.toNat).ipcMsgSz.toUInt64 >>= fun r =>
        .done ⟨true, r.2,
          [⟨this.toNat + dataOffset, (messageAt m this.toNat).ipcMsgSz.toNat⟩],
          [⟨target.toNat + dataOffset, (messageAt m this.toNat).ipcMsgSz.toNat⟩]⟩ := by
  rw [IPCMessage.pass, if_pos ⟨htwo.target_ne, h.addressed⟩]
  dsimp only
  rw [if_neg h.fits, ipcDataPtr_toNat htwo.this_fits, ipcDataPtr_toNat htwo.target_fits]
  rfl

/-- Between two packets a length of at most the data is copied, and nothing else changes. -/
theorem copy_done (htwo : TwoMessages this target) {len : UInt64} (hlen : len.toNat ≤ kIPCMsgSize) :
    ∃ r, NewKit.rtCopyMemory m (ipcDataPtr this) (ipcDataPtr target) len = .done r ∧
      ∀ x, x < target.toNat + dataOffset ∨ target.toNat + sizeofIPCMessage.toNat ≤ x →
        r.2 x = m x := by
  have hsize : sizeofIPCMessage.toNat = dataOffset + kIPCMsgSize := by decide
  have hthis := ipcDataPtr_toNat htwo.this_fits
  have htarget := ipcDataPtr_toNat htwo.target_fits
  have hfits := htwo.this_fits
  have htfits := htwo.target_fits
  have hspace : NewKit.InSpace (ipcDataPtr this) len.toNat ∧
      NewKit.InSpace (ipcDataPtr target) len.toNat := by
    unfold NewKit.InSpace
    omega
  rw [NewKit.rtCopyMemory]
  by_cases hnone : len < 1
  · rw [if_pos hnone]
    exact ⟨_, rfl, fun _ _ => rfl⟩
  · rw [if_neg hnone, if_pos hspace]
    refine ⟨_, rfl, ?_⟩
    intro x hx
    apply Store.copyElements_outside
    rw [htarget]
    omega

/-- A copy of at most the data stays in bounds. -/
private theorem inBounds_copies (htwo : TwoMessages this target) (h : Copies m this target)
    (hlen : (messageAt m this.toNat).ipcMsgSz.toNat ≤ kIPCMsgSize) :
    PassInBounds m this target := by
  have hsize : sizeofIPCMessage.toNat = dataOffset + kIPCMsgSize := by decide
  have hapart := htwo.apart
  obtain ⟨r, hcopy, hframe⟩ := @copy_done m this target htwo
    (messageAt m this.toNat).ipcMsgSz.toUInt64 (by rwa [UInt32.toNat_toUInt64])
  have hinside : ∀ p : UInt64, Extent.Inside
      ⟨p.toNat + dataOffset, (messageAt m this.toNat).ipcMsgSz.toNat⟩ (dataExtent p) := by
    intro p
    exact Set.Ico_subset_Ico_right (Nat.add_le_add_left hlen _)
  refine ⟨_, (pass_copies htwo h).trans (by rw [hcopy, done_bind]), ?_, ?_, ?_, ?_, ?_⟩
  · simpa using hinside this
  · simpa using hinside target
  · apply messageAt_congr
    intro x hle hlt
    exact hframe x (by omega)
  · refine ⟨_, messageAt_header ?_⟩
    intro x _ hlt
    exact hframe x (Or.inl hlt)
  · intro hother
    exact absurd h.addressed hother

/-- A copy of more than the data reads behind it. -/
private theorem not_inBounds_long (htwo : TwoMessages this target) (h : Copies m this target)
    (hlen : kIPCMsgSize < (messageAt m this.toNat).ipcMsgSz.toNat) :
    ¬ PassInBounds m this target := by
  intro hin
  obtain ⟨r, hpass, hreads, _⟩ := hin
  rw [pass_copies htwo h, bind_eq_done] at hpass
  obtain ⟨r₁, _, hret⟩ := hpass
  cases hret
  have hinside := hreads _ (List.mem_singleton_self _)
  rw [Extent.inside_iff (by dsimp only; omega)] at hinside
  dsimp only [dataExtent] at hinside
  omega

private theorem passInBounds_core (htwo : TwoMessages this target) :
    PassInBounds m this target ↔
      (messageAt m target.toNat).ipcFrom ≠ (messageAt m this.toNat).ipcTo ∨
        (messageAt m target.toNat).ipcMsgSz < (messageAt m this.toNat).ipcMsgSz ∨
        (messageAt m this.toNat).ipcMsgSz.toNat ≤ kIPCMsgSize := by
  by_cases haddress : (messageAt m target.toNat).ipcFrom = (messageAt m this.toNat).ipcTo
  · by_cases hlonger : (messageAt m target.toNat).ipcMsgSz < (messageAt m this.toNat).ipcMsgSz
    · exact iff_of_true (inBounds_refused (pass_longer hlonger)) (Or.inr (Or.inl hlonger))
    · have hcopies : Copies m this target := ⟨haddress, hlonger⟩
      rcases Nat.lt_or_ge kIPCMsgSize (messageAt m this.toNat).ipcMsgSz.toNat with hlen | hlen
      · apply iff_of_false (not_inBounds_long htwo hcopies hlen)
        simp [haddress, hlonger, hlen]
      · exact iff_of_true (inBounds_copies htwo hcopies hlen) (Or.inr (Or.inr hlen))
  · exact iff_of_true (inBounds_refused (pass_other haddress)) (Or.inl haddress)

/-- `Pass` stays in bounds exactly if the packet is not for the target, or is longer than the
target says it is itself, or states a length of at most its data. -/
theorem passInBounds_iff (m : Store) (htwo : TwoMessages this target) :
    PassInBounds m this target ↔
      (messageAt m target.toNat).ipcFrom ≠ (messageAt m this.toNat).ipcTo ∨
        (messageAt m target.toNat).ipcMsgSz < (messageAt m this.toNat).ipcMsgSz ∨
        (messageAt m this.toNat).ipcMsgSz.toNat ≤ kIPCMsgSize :=
  passInBounds_core htwo

end Pass

/-! ## Two packets -/

/-- A header of a packet of 100 bytes from one process of team 0 to another, with the low bytes of
a length. -/
def packetByte (sender receiver low high : UInt8) (offset : Nat) : UInt8 :=
  ([(0, 0x34), (1, 0x04), (2, 0x95), (3, 0x04), (4, 1), (5, 100), (13, sender), (29, receiver),
    (53, low), (54, high)].lookup offset).getD 0

/-- A packet from process 1 to process 2 at 65536, and one from process 2 to process 1 at 131072,
both with the same length. -/
def packetMemory (low high : UInt8) : Store := fun x =>
  if x < 131072 then packetByte 1 2 low high (x - 65536) else packetByte 2 1 low high (x - 131072)

private theorem packets_apart : TwoMessages 65536 131072 :=
  ⟨by decide, by decide, by decide, Or.inl (by decide)⟩

/-- A copy of 100 bytes. -/
theorem passInBounds_short : PassInBounds (packetMemory 100 0) 65536 131072 := by
  apply (passInBounds_iff _ packets_apart).mpr
  have h : (packetMemory 100 0).get Layout.u32 (65536 + 53) = 100 :=
    Store.get_u32_iff.mpr (by decide)
  right
  right
  change ((packetMemory 100 0).get Layout.u32 (65536 + 53)).toNat ≤ kIPCMsgSize
  rw [h]
  decide

/-- The length 6095, one byte more than the data. -/
private def longMemory : Store := packetMemory 0xCF 0x17

private theorem long_size (p : Nat) (h : p = 65536 ∨ p = 131072) :
    (messageAt longMemory p).ipcMsgSz = 6095 := by
  apply Store.get_u32_iff.mpr
  rcases h with rfl | rfl
  · decide
  · decide

private theorem long_address (p : Nat) (sender receiver : UInt64)
    (h : p = 65536 ∧ sender = 1 ∧ receiver = 2 ∨ p = 131072 ∧ sender = 2 ∧ receiver = 1) :
    (messageAt longMemory p).ipcFrom = ⟨sender, 0⟩ ∧
      (messageAt longMemory p).ipcTo = ⟨receiver, 0⟩ := by
  have hpair : ∀ q : Nat, ∀ v : UInt64, longMemory.get Layout.u64 q = v →
      longMemory.get Layout.u64 (q + 8) = 0 → addressAt longMemory q = ⟨v, 0⟩ := by
    intro q v hv hteam
    rw [addressAt, hv, hteam]
  rcases h with ⟨rfl, rfl, rfl⟩ | ⟨rfl, rfl, rfl⟩
  · exact ⟨hpair _ _ (Store.get_u64_iff.mpr (by decide)) (Store.get_u64_iff.mpr (by decide)),
      hpair _ _ (Store.get_u64_iff.mpr (by decide)) (Store.get_u64_iff.mpr (by decide))⟩
  · exact ⟨hpair _ _ (Store.get_u64_iff.mpr (by decide)) (Store.get_u64_iff.mpr (by decide)),
      hpair _ _ (Store.get_u64_iff.mpr (by decide)) (Store.get_u64_iff.mpr (by decide))⟩

private theorem long_accepted (p : Nat) (h : p = 65536 ∨ p = 131072) :
    Accepts (messageAt longMemory p) := by
  have hmagic : (messageAt longMemory p).ipcHeaderMagic = kIPCHeaderMagic := by
    apply Store.get_u32_iff.mpr
    rcases h with rfl | rfl
    · decide
    · decide
  have hmarker : (messageAt longMemory p).ipcEndianess = 1 := by
    rcases h with rfl | rfl
    · decide
    · decide
  have hpacket : (messageAt longMemory p).ipcPacketSize = 100 := by
    apply Store.get_u64_iff.mpr
    rcases h with rfl | rfl
    · decide
    · decide
  have haddress : (messageAt longMemory p).ipcFrom ≠ (messageAt longMemory p).ipcTo := by
    rcases h with rfl | rfl
    · obtain ⟨hfrom, hto⟩ := long_address 65536 1 2 (by decide)
      rw [hfrom, hto]
      decide
    · obtain ⟨hfrom, hto⟩ := long_address 131072 2 1 (by decide)
      rw [hfrom, hto]
      decide
  have hbig : rtlDeduceEndianess (messageAt longMemory p) (messageAt longMemory p).firstByte =
      .kEndianBig := if_pos rfl
  rw [accepts_iff]
  intro haltered
  rcases haltered with hbad | hbad | hbad | hbad | hbad
  · exact hbad hmagic
  · rw [hbig, hmarker] at hbad
    exact absurd hbad (by decide)
  · rw [hpacket] at hbad
    exact absurd hbad (by decide)
  · rw [hpacket] at hbad
    exact absurd hbad (by decide)
  · exact haddress hbad

/-- Both packets are accepted, and the copy is one byte longer than their data. -/
theorem passInBounds_long :
    Accepts (messageAt (packetMemory 0xCF 0x17) 65536) ∧
      Accepts (messageAt (packetMemory 0xCF 0x17) 131072) ∧
      TwoMessages 65536 131072 ∧ ¬ PassInBounds (packetMemory 0xCF 0x17) 65536 131072 := by
  refine ⟨long_accepted _ (Or.inl rfl), long_accepted _ (Or.inr rfl), packets_apart, ?_⟩
  have hthis : (messageAt longMemory (65536 : UInt64).toNat).ipcMsgSz = 6095 :=
    long_size _ (Or.inl rfl)
  have htarget : (messageAt longMemory (131072 : UInt64).toNat).ipcMsgSz = 6095 :=
    long_size _ (Or.inr rfl)
  have hto : (messageAt longMemory (65536 : UInt64).toNat).ipcTo = ⟨2, 0⟩ :=
    (long_address 65536 1 2 (by decide)).2
  have hfrom : (messageAt longMemory (131072 : UInt64).toNat).ipcFrom = ⟨2, 0⟩ :=
    (long_address 131072 2 1 (by decide)).1
  apply not_inBounds_long packets_apart
  · constructor
    · exact hfrom.trans hto.symm
    · change ¬ (messageAt longMemory (131072 : UInt64).toNat).ipcMsgSz <
        (messageAt longMemory (65536 : UInt64).toNat).ipcMsgSz
      rw [hthis, htarget]
      decide
  · change kIPCMsgSize < (messageAt longMemory (65536 : UInt64).toNat).ipcMsgSz.toNat
    rw [hthis]
    decide

end Zka.NetworkKit
