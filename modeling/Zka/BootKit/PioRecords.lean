import Zka.BootKit.ATATransfer
import Zka.Framework.Simulation

/-!
# Records on a drive that is driven by PIO

A write puts each byte of the buffer into a word of its own, and a read takes each byte of the
buffer out of a word of its own.  What the disk holds is not what was written, but a read in the
place of a write finds it again, as long as the words are no more than the drive was asked for.
-/

namespace Zka.HALKit

/-- The words that the drive moves for a transfer of so many bytes. -/
def pioWords (size : UInt64) : Nat :=
  256 * if ((size + kATASectorSize) / kATASectorSize).toUInt8 = 0 then 256
    else ((size + kATASectorSize) / kATASectorSize).toUInt8.toNat

theorem drvStdTaskFile_pioWords (dev : AtaDevice) (lba : UInt64) (io : UInt16) (master : UInt8)
    (size : UInt64) :
    (drvStdTaskFile dev lba io master kATASectorSize size).wordCount = pioWords size := rfl

/-- One word is enough for each byte of a transfer only if it is half a sector or less, or a whole
one. -/
theorem le_pioWords_iff (size : UInt64) :
    size.toNat ≤ pioWords size ↔ size.toNat ≤ 256 ∨ size.toNat = 512 := by
  have hsector : kATASectorSize.toNat = 512 := rfl
  have hmax : pioWords size ≤ 65536 := by
    have hlt := ((size + kATASectorSize) / kATASectorSize).toUInt8.toNat_lt
    rw [pioWords]
    split <;> omega
  by_cases hsmall : size.toNat ≤ 65536
  · have hcount : ((size + kATASectorSize) / kATASectorSize).toUInt8.toNat =
        size.toNat / 512 + 1 := by
      rw [UInt64.toNat_toUInt8, UInt64.toNat_div, UInt64.toNat_add, hsector]
      omega
    have hzero : ((size + kATASectorSize) / kATASectorSize).toUInt8 ≠ 0 := by
      rw [ne_eq, ← UInt8.toNat_inj, hcount]
      exact Nat.succ_ne_zero _
    rw [pioWords, if_neg hzero, hcount]
    omega
  · omega

/-! ## One transfer -/

private theorem charWord_low (c : UInt8) : Layout.u16 (charWord c) 0 = c := by
  have hlow : ∀ c : UInt8, (charWord c).toUInt8 = c := by decide +kernel
  rw [Layout.u16_apply]
  simpa using hlow c

/-- What the passes of a write have left on the disk. -/
private structure Spread (dev dev' : AtaDevice) (m : Store) (buf : UInt64) (a length n : Nat) :
    Prop where
  transfer : dev'.transfer = .toDisk a n length
  bytes : ∀ i < n, i < length → dev'.disk (a + 2 * i) = m (buf.toNat + i)
  rest : ∀ x, (x < a ∨ a + 2 * n ≤ x) → dev'.disk x = dev.disk x
  floating : dev'.floating = dev.floating

private theorem writeBuf_spread {dev : AtaDevice} {m : Store} {buf : UInt64} {a length : Nat}
    (h : dev.transfer = .toDisk a 0 length) (n : Nat) :
    Spread dev (writeBuf dev m buf n) m buf a length n := by
  induction n with
  | zero => exact ⟨h, fun i hi => absurd hi (Nat.not_lt_zero i), fun _ _ => rfl, rfl⟩
  | succ n ih =>
    have hout : writeBuf dev m buf (n + 1) =
        (writeBuf dev m buf n).rtOut16 (charWord (m (buf.toNat + n))) := rfl
    rw [hout, AtaDevice.rtOut16, ih.transfer]
    dsimp only
    by_cases hn : n < length
    · rw [if_pos hn]
      refine ⟨rfl, fun i hi hlen => ?_, fun x hx => ?_, ih.floating⟩
      · rcases Nat.lt_succ_iff_lt_or_eq.mp hi with hlt | rfl
        · dsimp only
          rw [Store.put_outside _ _ _ (by omega)]
          exact ih.bytes i hlt hlen
        · exact (Store.write_inside _ _ _ 0).trans (charWord_low _)
      · dsimp only
        rw [Store.put_outside _ _ _ (by omega)]
        exact ih.rest x (by omega)
    · rw [if_neg hn]
      refine ⟨rfl, fun i hi hlen => ih.bytes i (by omega) hlen, fun x hx => ?_, ih.floating⟩
      exact ih.rest x (by omega)

section Transfer

variable (dev : AtaDevice) (m : Store) (lba : UInt64) (io : UInt16) (master : UInt8)
  (buf size : UInt64)

private theorem drvStdWrite_spread :
    Spread dev (ATA.drvStdWrite dev m lba io master buf kATASectorSize size) m buf
      (ataAddress lba kATASectorSize) (pioWords size) size.toNat := by
  have hstart : ((drvStdTaskFile dev lba io master kATASectorSize size).rtOut8 .command
      ataCmdWritePio).transfer = .toDisk (ataAddress lba kATASectorSize) 0 (pioWords size) := by
    rw [← drvStdTaskFile_address dev lba io master kATASectorSize size,
      ← drvStdTaskFile_pioWords dev lba io master size]
    rfl
  have h : Spread _ _ m buf _ _ _ := writeBuf_spread hstart size.toNat
  refine ⟨h.transfer, h.bytes, fun x hx => (h.rest x hx).trans ?_, h.floating.trans ?_⟩
  · change (drvStdTaskFile dev lba io master kATASectorSize size).disk x = dev.disk x
    rw [drvStdTaskFile_disk]
  · simp [AtaDevice.rtOut8, AtaDevice.execute, drvStdTaskFile, drvStdSelect, apply_ite]

/-- A write puts the bytes of the buffer at every other place. -/
theorem drvStdWrite_byte {i : Nat} (hi : i < size.toNat) (hwords : i < pioWords size) :
    (ATA.drvStdWrite dev m lba io master buf kATASectorSize size).disk
      (ataAddress lba kATASectorSize + 2 * i) = m (buf.toNat + i) :=
  (drvStdWrite_spread dev m lba io master buf size).bytes i hi hwords

theorem drvStdWrite_outside {x : Nat} (hx : x < ataAddress lba kATASectorSize ∨
    ataAddress lba kATASectorSize + 2 * size.toNat ≤ x) :
    (ATA.drvStdWrite dev m lba io master buf kATASectorSize size).disk x = dev.disk x :=
  (drvStdWrite_spread dev m lba io master buf size).rest x hx

/-- A read takes the bytes of the buffer from every other place, and from the idle port behind the
words that it has asked for. -/
theorem drvStdRead_word {i : Nat} (hi : i < size.toNat) :
    (ATA.drvStdRead dev m lba io master buf kATASectorSize size).2 (buf.toNat + i) =
      if i < pioWords size then dev.disk (ataAddress lba kATASectorSize + 2 * i)
      else dev.floating.toUInt8 := by
  have hstart : ((drvStdTaskFile dev lba io master kATASectorSize size).rtOut8 .command
      ataCmdReadPio).transfer =
        .toHost (drvStdTaskFile dev lba io master kATASectorSize size).diskWord 0
          (pioWords size) := rfl
  have hfloating : ((drvStdTaskFile dev lba io master kATASectorSize size).rtOut8 .command
      ataCmdReadPio).floating = dev.floating := by
    simp [AtaDevice.rtOut8, AtaDevice.execute, drvStdTaskFile, drvStdSelect, apply_ite]
  rw [ATA.drvStdRead, (readBuf_toHost _ m buf _ _ size.toNat hstart).2 i hi, hfloating]
  split
  · rw [AtaDevice.diskWord_low, drvStdTaskFile_disk, drvStdTaskFile_address]
  · rfl

end Transfer

/-- A read finds what a write has left in the same place. -/
def ReadsWritten (size : UInt64) : Prop :=
  ∀ (dev : AtaDevice) (m m' : Store) (lba : UInt64) (io io' : UInt16) (master master' : UInt8)
    (buf buf' : UInt64), ∀ i < size.toNat,
      (ATA.drvStdRead (ATA.drvStdWrite dev m lba io master buf kATASectorSize size) m' lba io'
        master' buf' kATASectorSize size).2 (buf'.toNat + i) = m (buf.toNat + i)

/-- A drive whose port shows zeros, and which holds zeros. -/
def blankDevice : AtaDevice where
  disk := fun _ => 0
  identity := fun _ => 0
  floating := 0
  secCount := 0
  lba0 := 0
  lba1 := 0
  lba2 := 0
  hdDevSel := 0
  transfer := .idle

theorem AtaDevice.rtIn16_disk (dev : AtaDevice) : dev.rtIn16.2.disk = dev.disk := by
  unfold AtaDevice.rtIn16
  split <;> rfl

theorem readIdentity_disk {α : Type} (narrow : UInt16 → α) (dev : AtaDevice)
    (kATAData : Nat → α) (n : Nat) : (readIdentity narrow dev kATAData n).1.disk = dev.disk := by
  induction n with
  | zero => rfl
  | succ n ih =>
    rw [← ih]
    exact (readIdentity narrow dev kATAData n).1.rtIn16_disk

theorem ataInit_disk {α : Type} (narrow : UInt16 → α) (dev : AtaDevice) (bus : UInt16)
    (kATAData : Nat → α) : (ataInit narrow dev bus kATAData).device.disk = dev.disk := by
  have hselect : (drvStdSelect dev bus).disk = dev.disk := by
    unfold drvStdSelect
    split <;> rfl
  simp only [ataInit, readIdentity_disk, AtaDevice.rtOut8, AtaDevice.execute_disk, hselect]

theorem readBuf_outside (dev : AtaDevice) (m : Store) (buf : UInt64) (n : Nat) {x : Nat}
    (hx : x < buf.toNat ∨ buf.toNat + n ≤ x) : (readBuf dev m buf n).2 x = m x := by
  induction n with
  | zero => rfl
  | succ n ih =>
    rw [readBuf]
    change Function.update (readBuf dev m buf n).2 (buf.toNat + n) _ x = m x
    rw [Function.update_of_ne (by omega)]
    exact ih (by omega)

theorem drvStdRead_outside (dev : AtaDevice) (m : Store) (lba : UInt64) (io : UInt16)
    (master : UInt8) (buf size : UInt64) {x : Nat}
    (hx : x < buf.toNat ∨ buf.toNat + size.toNat ≤ x) :
    (ATA.drvStdRead dev m lba io master buf kATASectorSize size).2 x = m x :=
  readBuf_outside _ m buf size.toNat hx

/-! ## Records of a sector -/

/-- The places of records: in the sectors of two of them there is room for all their words. -/
def RecordPlaces (places : Set UInt64) : Prop :=
  places.Pairwise fun a b =>
    ataAddress a kATASectorSize + 1024 ≤ ataAddress b kATASectorSize ∨
      ataAddress b kATASectorSize + 1024 ≤ ataAddress a kATASectorSize

inductive RecordEvent where
  | write (lba : UInt64) (record : Bytes 512)
  | read (lba : UInt64) (record : Bytes 512)

/-- One transfer of a sector, to or from any buffer. -/
inductive PioStep (places : Set UInt64) : AtaDevice → RecordEvent → AtaDevice → Prop
  | write {dev : AtaDevice} {m : Store} {lba buf : UInt64} {io : UInt16} {master : UInt8}
      (h : lba ∈ places) : PioStep places dev (.write lba (m.read buf.toNat 512))
        (ATA.drvStdWrite dev m lba io master buf kATASectorSize 512)
  | read {dev : AtaDevice} {m : Store} {lba buf : UInt64} {io : UInt16} {master : UInt8}
      (h : lba ∈ places) : PioStep places dev
        (.read lba ((ATA.drvStdRead dev m lba io master buf kATASectorSize 512).2.read
          buf.toNat 512))
        (ATA.drvStdRead dev m lba io master buf kATASectorSize 512).1

inductive RecordStep : (UInt64 → Bytes 512) → RecordEvent → (UInt64 → Bytes 512) → Prop
  | write {records : UInt64 → Bytes 512} {lba : UInt64} {record : Bytes 512} :
      RecordStep records (.write lba record) (Function.update records lba record)
  | read {records : UInt64 → Bytes 512} {lba : UInt64} :
      RecordStep records (.read lba (records lba)) records

/-- The record that a transfer finds at a place. -/
def AtaDevice.recordAt (dev : AtaDevice) (lba : UInt64) : Bytes 512 :=
  fun i => dev.disk (ataAddress lba kATASectorSize + 2 * i)

theorem AtaDevice.recordAt_eq {dev dev' : AtaDevice} (h : dev'.disk = dev.disk) (lba : UInt64) :
    dev'.recordAt lba = dev.recordAt lba := by
  unfold AtaDevice.recordAt
  rw [h]

section Record

variable (dev : AtaDevice) (m : Store) (lba : UInt64) (io : UInt16) (master : UInt8) (buf : UInt64)

private theorem sector_words {i : Nat} (hi : i < 512) : i < pioWords 512 :=
  hi.trans_le ((le_pioWords_iff 512).mpr (.inr rfl))

theorem recordAt_write :
    (ATA.drvStdWrite dev m lba io master buf kATASectorSize 512).recordAt lba =
      m.read buf.toNat 512 := by
  funext i
  exact drvStdWrite_byte dev m lba io master buf 512 i.isLt (sector_words i.isLt)

/-- A write leaves the records alone that its words do not reach. -/
theorem recordAt_write_apart {a : UInt64}
    (h : ataAddress a kATASectorSize + 1024 ≤ ataAddress lba kATASectorSize ∨
      ataAddress lba kATASectorSize + 1024 ≤ ataAddress a kATASectorSize) :
    (ATA.drvStdWrite dev m lba io master buf kATASectorSize 512).recordAt a = dev.recordAt a := by
  have hsize : (512 : UInt64).toNat = 512 := rfl
  funext i
  have hi := i.isLt
  refine drvStdWrite_outside dev m lba io master buf 512 ?_
  rw [hsize]
  omega

theorem drvStdRead_record :
    (ATA.drvStdRead dev m lba io master buf kATASectorSize 512).2.read buf.toNat 512 =
      dev.recordAt lba := by
  funext i
  have hword := drvStdRead_word dev m lba io master buf 512 (i := i.val) i.isLt
  rw [if_pos (sector_words i.isLt)] at hword
  exact hword

theorem recordAt_read (a : UInt64) :
    (ATA.drvStdRead dev m lba io master buf kATASectorSize 512).1.recordAt a =
      dev.recordAt a :=
  AtaDevice.recordAt_eq (ATA.drvStdRead_disk dev m buf lba io master kATASectorSize 512) a

/-- The record is all that a read of a sector leaves in memory. -/
theorem drvStdRead_memory :
    (ATA.drvStdRead dev m lba io master buf kATASectorSize 512).2 =
      m.write buf.toNat (dev.recordAt lba) := by
  have hsize : (512 : UInt64).toNat = 512 := rfl
  funext x
  by_cases hx : x < buf.toNat ∨ buf.toNat + 512 ≤ x
  · rw [Store.write_outside _ _ hx]
    exact drvStdRead_outside dev m lba io master buf 512 (by rwa [hsize])
  · obtain ⟨i, rfl⟩ : ∃ i : Fin 512, x = buf.toNat + i.val :=
      ⟨⟨x - buf.toNat, by omega⟩, by dsimp only; omega⟩
    rw [Store.write_inside]
    exact congrFun (drvStdRead_record dev m lba io master buf) i

end Record

/-- A run of transfers of a sector each is a run on records: a read answers what was last written
to its place. -/
theorem records_refine {places : Set UInt64} (hp : RecordPlaces places) {dev dev' : AtaDevice}
    {events : List RecordEvent} (h : Trace (PioStep places) dev events dev') :
    ∃ records, Trace RecordStep dev.recordAt events records ∧
      ∀ a ∈ places, dev'.recordAt a = records a := by
  refine h.simulate RecordStep (fun dev records => ∀ a ∈ places, dev.recordAt a = records a) ?_
    fun _ _ => rfl
  intro dev records e dev' hr hs
  cases hs with
  | @write m lba buf io master h =>
    refine ⟨_, .write, fun a ha => ?_⟩
    rw [Function.update_apply]
    split
    case isTrue heq =>
      rw [heq]
      exact recordAt_write dev m lba io master buf
    case isFalse hne =>
      rw [recordAt_write_apart dev m lba io master buf (hp ha h hne)]
      exact hr a ha
  | @read m lba buf io master h =>
    rw [drvStdRead_record, hr lba h]
    refine ⟨_, .read, fun a ha => ?_⟩
    rw [recordAt_read]
    exact hr a ha

/-- The places of the partition block and of the root catalog. -/
private theorem recordPlaces_boot : RecordPlaces {1024, 2560} := by
  rintro a (rfl | rfl) b (rfl | rfl) h
  · exact absurd rfl h
  · exact .inl (by decide)
  · exact .inr (by decide)
  · exact absurd rfl h

theorem records_refine_boot : ∃ dev' record records,
    Trace (PioStep {1024, 2560}) blankDevice
      [.write 1024 (fun _ => 7), .write 2560 (fun _ => 8), .read 1024 record] dev' ∧
    Trace RecordStep blankDevice.recordAt
      [.write 1024 (fun _ => 7), .write 2560 (fun _ => 8), .read 1024 record] records ∧
    ∀ a ∈ ({1024, 2560} : Set UInt64), dev'.recordAt a = records a := by
  have hpart : (1024 : UInt64) ∈ ({1024, 2560} : Set UInt64) := .inl rfl
  have hcatalog : (2560 : UInt64) ∈ ({1024, 2560} : Set UInt64) := .inr rfl
  have hfirst := @PioStep.write _ blankDevice (fun _ => 7) 1024 0 0 0 hpart
  have hsecond dev := @PioStep.write _ dev (fun _ => 8) 2560 0 0 0 hcatalog
  have hthird dev := @PioStep.read _ dev (fun _ => 0) 1024 0 0 0 hpart
  have hrun := Trace.cons hfirst (.cons (hsecond _) (.cons (hthird _) (.nil _)))
  obtain ⟨records, hrecords, hend⟩ := records_refine recordPlaces_boot hrun
  exact ⟨_, _, records, hrun, hrecords, hend⟩

end Zka.HALKit
