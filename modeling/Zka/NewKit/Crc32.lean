import Zka.Framework.Crc
import Zka.Framework.Outcome
import Zka.Framework.Store

/-!
# Check sequences

`ke_calculate_crc32`.  A character is signed, and so is the index it gives into
the table: a byte from 0x80 on leaves the table.
-/

namespace Zka.NewKit

open Outcome

def kCrcCnt : Nat := 256

def kCrcTbl : Array UInt32 :=
  #[0x00000000, 0xF26B8303, 0xE13B70F7, 0x1350F3F4, 0xC79A971F, 0x35F1141C, 0x26A1E7E8, 0xD4CA64EB,
    0x8AD958CF, 0x78B2DBCC, 0x6BE22838, 0x9989AB3B, 0x4D43CFD0, 0xBF284CD3, 0xAC78BF27, 0x5E133C24,
    0x105EC76F, 0xE235446C, 0xF165B798, 0x030E349B, 0xD7C45070, 0x25AFD373, 0x36FF2087, 0xC494A384,
    0x9A879FA0, 0x68EC1CA3, 0x7BBCEF57, 0x89D76C54, 0x5D1D08BF, 0xAF768BBC, 0xBC267848, 0x4E4DFB4B,
    0x20BD8EDE, 0xD2D60DDD, 0xC186FE29, 0x33ED7D2A, 0xE72719C1, 0x154C9AC2, 0x061C6936, 0xF477EA35,
    0xAA64D611, 0x580F5512, 0x4B5FA6E6, 0xB93425E5, 0x6DFE410E, 0x9F95C20D, 0x8CC531F9, 0x7EAEB2FA,
    0x30E349B1, 0xC288CAB2, 0xD1D83946, 0x23B3BA45, 0xF779DEAE, 0x05125DAD, 0x1642AE59, 0xE4292D5A,
    0xBA3A117E, 0x4851927D, 0x5B016189, 0xA96AE28A, 0x7DA08661, 0x8FCB0562, 0x9C9BF696, 0x6EF07595,
    0x417B1DBC, 0xB3109EBF, 0xA0406D4B, 0x522BEE48, 0x86E18AA3, 0x748A09A0, 0x67DAFA54, 0x95B17957,
    0xCBA24573, 0x39C9C670, 0x2A993584, 0xD8F2B687, 0x0C38D26C, 0xFE53516F, 0xED03A29B, 0x1F682198,
    0x5125DAD3, 0xA34E59D0, 0xB01EAA24, 0x42752927, 0x96BF4DCC, 0x64D4CECF, 0x77843D3B, 0x85EFBE38,
    0xDBFC821C, 0x2997011F, 0x3AC7F2EB, 0xC8AC71E8, 0x1C661503, 0xEE0D9600, 0xFD5D65F4, 0x0F36E6F7,
    0x61C69362, 0x93AD1061, 0x80FDE395, 0x72966096, 0xA65C047D, 0x5437877E, 0x4767748A, 0xB50CF789,
    0xEB1FCBAD, 0x197448AE, 0x0A24BB5A, 0xF84F3859, 0x2C855CB2, 0xDEEEDFB1, 0xCDBE2C45, 0x3FD5AF46,
    0x7198540D, 0x83F3D70E, 0x90A324FA, 0x62C8A7F9, 0xB602C312, 0x44694011, 0x5739B3E5, 0xA55230E6,
    0xFB410CC2, 0x092A8FC1, 0x1A7A7C35, 0xE811FF36, 0x3CDB9BDD, 0xCEB018DE, 0xDDE0EB2A, 0x2F8B6829,
    0x82F63B78, 0x709DB87B, 0x63CD4B8F, 0x91A6C88C, 0x456CAC67, 0xB7072F64, 0xA457DC90, 0x563C5F93,
    0x082F63B7, 0xFA44E0B4, 0xE9141340, 0x1B7F9043, 0xCFB5F4A8, 0x3DDE77AB, 0x2E8E845F, 0xDCE5075C,
    0x92A8FC17, 0x60C37F14, 0x73938CE0, 0x81F80FE3, 0x55326B08, 0xA759E80B, 0xB4091BFF, 0x466298FC,
    0x1871A4D8, 0xEA1A27DB, 0xF94AD42F, 0x0B21572C, 0xDFEB33C7, 0x2D80B0C4, 0x3ED04330, 0xCCBBC033,
    0xA24BB5A6, 0x502036A5, 0x4370C551, 0xB11B4652, 0x65D122B9, 0x97BAA1BA, 0x84EA524E, 0x7681D14D,
    0x2892ED69, 0xDAF96E6A, 0xC9A99D9E, 0x3BC21E9D, 0xEF087A76, 0x1D63F975, 0x0E330A81, 0xFC588982,
    0xB21572C9, 0x407EF1CA, 0x532E023E, 0xA145813D, 0x758FE5D6, 0x87E466D5, 0x94B49521, 0x66DF1622,
    0x38CC2A06, 0xCAA7A905, 0xD9F75AF1, 0x2B9CD9F2, 0xFF56BD19, 0x0D3D3E1A, 0x1E6DCDEE, 0xEC064EED,
    0xC38D26C4, 0x31E6A5C7, 0x22B65633, 0xD0DDD530, 0x0417B1DB, 0xF67C32D8, 0xE52CC12C, 0x1747422F,
    0x49547E0B, 0xBB3FFD08, 0xA86F0EFC, 0x5A048DFF, 0x8ECEE914, 0x7CA56A17, 0x6FF599E3, 0x9D9E1AE0,
    0xD3D3E1AB, 0x21B862A8, 0x32E8915C, 0xC083125F, 0x144976B4, 0xE622F5B7, 0xF5720643, 0x07198540,
    0x590AB964, 0xAB613A67, 0xB831C993, 0x4A5A4A90, 0x9E902E7B, 0x6CFBAD78, 0x7FAB5E8C, 0x8DC0DD8F,
    0xE330A81A, 0x115B2B19, 0x020BD8ED, 0xF0605BEE, 0x24AA3F05, 0xD6C1BC06, 0xC5914FF2, 0x37FACCF1,
    0x69E9F0D5, 0x9B8273D6, 0x88D28022, 0x7AB90321, 0xAE7367CA, 0x5C18E4C9, 0x4F48173D, 0xBD23943E,
    0xF36E6F75, 0x0105EC76, 0x12551F82, 0xE03E9C81, 0x34F4F86A, 0xC69F7B69, 0xD5CF889D, 0x27A40B9E,
    0x79B737BA, 0x8BDCB4B9, 0x988C474D, 0x6AE7C44E, 0xBE2DA0A5, 0x4C4623A6, 0x5F16D052, 0xAD7D5351]

/-- `(UInt8)crc ^ *p`, a signed number. -/
def crcIndex (crc : UInt32) (c : UInt8) : Int32 := crc.toUInt8.toUInt32.toInt32 ^^^ c.toInt8.toInt32

def crcStep (crc : UInt32) (c : UInt8) : Outcome CFault UInt32 :=
  let index := (crcIndex crc c).toInt
  if 0 ≤ index ∧ index < kCrcCnt then .done (kCrcTbl.getD index.toNat 0 ^^^ crc >>> 8)
  else .fault .indexOutOfRange

def crcBytes (m : Store) (p : Nat) (crc : UInt32) : Nat → Outcome CFault UInt32
  | 0 => .done crc
  | len + 1 => do
    let crc ← crcStep crc (m p)
    crcBytes m (p + 1) crc len

def keCalculateCrc32 (m : Store) (p : UInt64) (len : UInt32) : Outcome CFault UInt32 := do
  let crc ← crcBytes m p.toNat 0xFFFFFFFF len.toNat
  return crc ^^^ 0xFFFFFFFF

/-! ## The check of a string -/

/-- The reversed Castagnoli polynomial. -/
def crc32cPoly : BitVec 32 := 0x82F63B78

/-- CRC-32C of a byte string, bit by bit. -/
def crc32c (bytes : List UInt8) : UInt32 :=
  ⟨Crc.check crc32cPoly 0xFFFFFFFF 0xFFFFFFFF (bytes.map UInt8.toBitVec)⟩

/-- The byte string at an address. -/
def bytesFrom (m : Store) (p : Nat) : Nat → List UInt8
  | 0 => []
  | len + 1 => m p :: bytesFrom m (p + 1) len

/-! ## One character -/

theorem kCrcTbl_eq : ∀ i : Fin kCrcCnt, (kCrcTbl.getD i 0).toBitVec =
    (Crc.bitStep crc32cPoly)^[8] (BitVec.ofNat 32 i) := by
  decide +kernel

theorem crcIndex_toBitVec (crc : UInt32) (c : UInt8) : (crcIndex crc c).toBitVec =
    (crc.toBitVec.setWidth 8).setWidth 32 ^^^ c.toBitVec.signExtend 32 := by
  rfl

theorem msb_eq_false {c : UInt8} (h : c < 0x80) : c.toBitVec.msb = false := by
  rw [BitVec.msb_eq_false_iff_two_mul_lt]
  have hlt : c.toBitVec.toNat < 128 := h
  omega

/-- A character below 0x80 gives an index into the table. -/
theorem crcIndex_low (crc : UInt32) {c : UInt8} (h : c < 0x80) :
    (crcIndex crc c).toInt = (crc.toUInt8 ^^^ c).toNat := by
  have hbits : (crcIndex crc c).toBitVec = (crc.toUInt8 ^^^ c).toBitVec.setWidth 32 := by
    rw [crcIndex_toBitVec, BitVec.signExtend_eq_setWidth_of_msb_false (msb_eq_false h)]
    simp
  rw [← Int32.toInt_toBitVec, hbits, BitVec.toInt_setWidth]
  have hlt := (crc.toUInt8 ^^^ c).toNat_lt
  rw [UInt8.toNat_toBitVec]
  exact Int.bmod_eq_of_le (by omega) (by omega)

/-- Any other makes it negative. -/
theorem crcIndex_high (crc : UInt32) {c : UInt8} (h : ¬ c < 0x80) : (crcIndex crc c).toInt < 0 := by
  have hmsb : c.toBitVec.msb = true := by
    rw [BitVec.msb_eq_true_iff_two_mul_ge]
    have hle : ¬ c.toBitVec.toNat < 128 := h
    omega
  have hsign : (crcIndex crc c).toBitVec.msb = true := by
    simp [crcIndex_toBitVec, BitVec.msb_signExtend, BitVec.msb_setWidth, hmsb]
  rw [← Int32.toInt_toBitVec]
  exact BitVec.toInt_neg_of_msb_true hsign

theorem crcStep_low (crc : UInt32) {c : UInt8} (h : c < 0x80) :
    crcStep crc c = .done ⟨Crc.byteStep crc32cPoly crc.toBitVec c.toBitVec⟩ := by
  have hindex := crcIndex_low crc h
  have hlt := (crc.toUInt8 ^^^ c).toNat_lt
  rw [crcStep]
  rw [if_pos (by rw [hindex, kCrcCnt]; omega), hindex, Int.toNat_natCast, done.injEq]
  apply UInt32.eq_of_toBitVec_eq
  have htable := kCrcTbl_eq ⟨_, hlt⟩
  have hlow : BitVec.ofNat 32 (crc.toUInt8 ^^^ c).toNat =
      (crc.toBitVec.setWidth 8 ^^^ c.toBitVec).setWidth 32 := by
    rw [← UInt8.toNat_toBitVec, BitVec.ofNat_toNat]
    rfl
  rw [UInt32.toBitVec_xor, htable, Crc.byteStep_table, hlow]
  rfl

theorem crcStep_high (crc : UInt32) {c : UInt8} (h : ¬ c < 0x80) :
    crcStep crc c = .fault .indexOutOfRange := by
  have hindex := crcIndex_high crc h
  rw [crcStep]
  rw [if_neg (by omega)]

/-! ## Strings -/

section Strings

variable {m m' : Store} {p p' : UInt64} {len : UInt32}

@[simp] theorem length_bytesFrom (m : Store) (p len : Nat) : (bytesFrom m p len).length = len := by
  induction len generalizing p with
  | zero => rfl
  | succ len ih => rw [bytesFrom, List.length_cons, ih]

theorem getElem?_bytesFrom (m : Store) (p len i : Nat) :
    (bytesFrom m p len)[i]? = if i < len then some (m (p + i)) else none := by
  induction len generalizing p i with
  | zero => simp [bytesFrom]
  | succ len ih =>
    cases i with
    | zero => simp [bytesFrom]
    | succ i => simp [bytesFrom, ih, Nat.add_assoc, Nat.add_comm 1 i]

theorem mem_bytesFrom {m : Store} {p len : Nat} {c : UInt8} :
    c ∈ bytesFrom m p len ↔ ∃ i < len, m (p + i) = c := by
  simp [List.mem_iff_getElem?, getElem?_bytesFrom]

theorem bytesFrom_congr {m m' : Store} {p len : Nat} (h : ∀ i < len, m' (p + i) = m (p + i)) :
    bytesFrom m' p len = bytesFrom m p len := by
  apply List.ext_getElem?
  intro i
  rw [getElem?_bytesFrom, getElem?_bytesFrom]
  by_cases hi : i < len
  · rw [if_pos hi, if_pos hi, h i hi]
  · rw [if_neg hi, if_neg hi]

/-- One other byte in a string. -/
theorem burst_update (m : Store) {p len i : Nat} (hi : i < len) {v : UInt8}
    (hv : v ≠ m (p + i)) :
    Crc.Burst 4 (bytesFrom m p len) (bytesFrom (Function.update m (p + i) v) p len) := by
  have hother : ∀ j, j ≠ i → (bytesFrom (Function.update m (p + i) v) p len)[j]? =
      (bytesFrom m p len)[j]? := by
    intro j hj
    have hne : p + j ≠ p + i := by omega
    rw [getElem?_bytesFrom, getElem?_bytesFrom, Function.update_of_ne hne]
  refine ⟨by simp, ?_, i, ?_, ?_⟩
  · intro heq
    have hplace := congrArg (·[i]?) heq
    rw [getElem?_bytesFrom, getElem?_bytesFrom, if_pos hi, if_pos hi, Function.update_self,
      Option.some.injEq] at hplace
    exact hv hplace.symm
  · apply List.ext_getElem?
    intro j
    by_cases hj : j < i
    · rw [List.getElem?_take_of_lt hj, List.getElem?_take_of_lt hj, hother j (by omega)]
    · simp [hj]
  · apply List.ext_getElem?
    intro j
    rw [List.getElem?_drop, List.getElem?_drop, hother _ (by omega)]

theorem crcBytes_low (m : Store) (p : Nat) (crc : UInt32) (len : Nat)
    (h : ∀ c ∈ bytesFrom m p len, c < 0x80) : crcBytes m p crc len =
      .done ⟨((bytesFrom m p len).map UInt8.toBitVec).foldl (Crc.byteStep crc32cPoly)
        crc.toBitVec⟩ := by
  induction len generalizing p crc with
  | zero => rfl
  | succ len ih =>
    rw [bytesFrom, List.forall_mem_cons] at h
    rw [crcBytes, crcStep_low crc h.1, done_bind, ih _ _ h.2]
    rfl

/-- The first character from 0x80 on stops the walk. -/
theorem crcBytes_high (m : Store) (p : Nat) (crc : UInt32) (len : Nat)
    (h : ¬ ∀ c ∈ bytesFrom m p len, c < 0x80) :
    crcBytes m p crc len = .fault .indexOutOfRange := by
  induction len generalizing p crc with
  | zero => exact absurd (fun _ hc => nomatch hc) h
  | succ len ih =>
    rw [bytesFrom, List.forall_mem_cons, not_and] at h
    rw [crcBytes]
    by_cases hlow : m p < 0x80
    · rw [crcStep_low crc hlow, done_bind]
      exact ih _ _ (h hlow)
    · rw [crcStep_high crc hlow, fault_bind]

theorem keCalculateCrc32_low (h : ∀ c ∈ bytesFrom m p.toNat len.toNat, c < 0x80) :
    keCalculateCrc32 m p len = .done (crc32c (bytesFrom m p.toNat len.toNat)) := by
  rw [keCalculateCrc32, crcBytes_low m _ _ _ h]
  rfl

theorem keCalculateCrc32_high (h : ¬ ∀ c ∈ bytesFrom m p.toNat len.toNat, c < 0x80) :
    keCalculateCrc32 m p len = .fault .indexOutOfRange := by
  rw [keCalculateCrc32, crcBytes_high m _ _ _ h]
  rfl

/-- The table gives the bitwise check exactly for characters that are not negative. -/
theorem keCalculateCrc32_eq_crc32c_iff :
    keCalculateCrc32 m p len = .done (crc32c (bytesFrom m p.toNat len.toNat)) ↔
      ∀ c ∈ bytesFrom m p.toNat len.toNat, c < 0x80 := by
  constructor
  · intro heq
    by_contra hhigh
    rw [keCalculateCrc32_high hhigh] at heq
    cases heq
  · exact keCalculateCrc32_low

/-- One character 0x80. -/
theorem keCalculateCrc32_top_bit :
    keCalculateCrc32 (fun _ => 0x80) 0x1000 1 ≠
      .done (crc32c (bytesFrom (fun _ => 0x80) 0x1000 1)) := by
  have hhigh : ¬ ∀ c ∈ bytesFrom (fun _ => 0x80) (0x1000 : UInt64).toNat (1 : UInt32).toNat,
      c < 0x80 := by
    decide +kernel
  rw [keCalculateCrc32_high hhigh]
  exact fun heq => nomatch heq

theorem crc32c_ne_of_burst {xs ys : List UInt8} (h : Crc.Burst 4 xs ys) :
    crc32c xs ≠ crc32c ys := by
  have hbytes := h.map (f := UInt8.toBitVec) fun a b hab => UInt8.eq_of_toBitVec_eq hab
  intro heq
  exact Crc.check_ne_of_burst crc32cPoly (by decide) _ _ (by decide) hbytes
    (congrArg UInt32.toBitVec heq)

/-- A change of at most four characters next to each other is noticed. -/
theorem keCalculateCrc32_burst
    (hlow : ∀ c ∈ bytesFrom m p.toNat len.toNat, c < 0x80)
    (hlow' : ∀ c ∈ bytesFrom m' p'.toNat len.toNat, c < 0x80)
    (h : Crc.Burst 4 (bytesFrom m p.toNat len.toNat) (bytesFrom m' p'.toNat len.toNat)) :
    ∃ crc crc', keCalculateCrc32 m p len = .done crc ∧
      keCalculateCrc32 m' p' len = .done crc' ∧ crc ≠ crc' :=
  ⟨_, _, keCalculateCrc32_low hlow, keCalculateCrc32_low hlow', crc32c_ne_of_burst h⟩

/-- Eight zeros, and the same with a letter in the fourth place. -/
theorem keCalculateCrc32_burst_letter :
    ∃ crc crc', keCalculateCrc32 (fun _ => 0) 0x1000 8 = .done crc ∧
      keCalculateCrc32 (Function.update (fun _ => 0) 0x1003 0x41) 0x1000 8 = .done crc' ∧
      crc ≠ crc' :=
  keCalculateCrc32_burst (by decide +kernel) (by decide +kernel)
    ⟨by decide +kernel, by decide +kernel, 1, by decide +kernel, by decide +kernel⟩

end Strings

end Zka.NewKit
