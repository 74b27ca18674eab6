import Zka.Framework.Words
import Zka.NewKit.KStringCompare

/-!
# Addresses

The operators that compare two addresses, and addresses in dotted notation, of which
`IpCheckVersion4` counts the characters between two dots, and nothing else.
-/

namespace Zka.NetworkKit

open NewKit

/-! ## Comparisons -/

/-- An address of `n` bytes. -/
structure RawAddress (n : Nat) where
  fAddr : Vector UInt8 n
  deriving DecidableEq, Repr

namespace RawAddress

variable {n : Nat} (a b : RawAddress n)

def byteAt (index : Nat) : UInt8 := a.fAddr.getD index 0

def eq : Bool := passes (fun index => b.byteAt index != a.byteAt index) 0 n

def ne : Bool := passes (fun index => b.byteAt index == a.byteAt index) 0 n

theorem ne_negation_iff : (a.ne b = !a.eq b) ↔ n ≠ 0 ∧ AllOrNone a.byteAt b.byteAt n :=
  passes_negation_iff a.byteAt b.byteAt n

end RawAddress

abbrev RawIPAddress := RawAddress 4

def RawIPAddress.eq (a ipv4 : RawIPAddress) : Bool := RawAddress.eq a ipv4

def RawIPAddress.ne (a ipv4 : RawIPAddress) : Bool := RawAddress.ne a ipv4

abbrev RawIPAddress6 := RawAddress 8

def RawIPAddress6.eq (a ipv6 : RawIPAddress6) : Bool := RawAddress.eq a ipv6

def RawIPAddress6.ne (a ipv6 : RawIPAddress6) : Bool := RawAddress.ne a ipv6

/-- `!=` is the negation of `==` for operands of one length that agree at every place or at none,
and for no others. -/
theorem ne_negates_iff (m : Store) (k rhs : KString) (chars : List UInt8)
    (ipv4 other4 : RawIPAddress) (ipv6 other6 : RawIPAddress6) :
    ((k.neString m rhs = !k.eqString m rhs) ↔
      rhs.length = k.length ∧ k.length ≠ 0 ∧ AllOrNone (k.charAt m) (rhs.charAt m) k.length) ∧
    ((k.neChars m chars = !k.eqChars m chars) ↔
      rtStringLen chars = k.length ∧
        AllOrNone (k.charAt m) (fun i => chars.getD i 0) (rtStringLen chars)) ∧
    ((RawIPAddress.ne ipv4 other4 = !RawIPAddress.eq ipv4 other4) ↔
      AllOrNone ipv4.byteAt other4.byteAt 4) ∧
    ((RawIPAddress6.ne ipv6 other6 = !RawIPAddress6.eq ipv6 other6) ↔
      AllOrNone ipv6.byteAt other6.byteAt 8) := by
  refine ⟨k.neString_negation_iff m rhs, k.neChars_negation_iff m chars, ?_, ?_⟩
  · exact (RawAddress.ne_negation_iff ipv4 other4).trans (and_iff_right (by decide))
  · exact (RawAddress.ne_negation_iff ipv6 other6).trans (and_iff_right (by decide))

/-- Addresses that differ in the last byte are neither equal nor different, and strings of
different lengths are not different. -/
theorem ne_not_negation :
    (RawIPAddress.ne ⟨#v[10, 0, 0, 1]⟩ ⟨#v[10, 0, 0, 2]⟩ ≠
      !RawIPAddress.eq ⟨#v[10, 0, 0, 1]⟩ ⟨#v[10, 0, 0, 2]⟩) ∧
    KString.neChars (fun _ => 0) ⟨4096, 2, 0⟩ [97] ≠
      !KString.eqChars (fun _ => 0) ⟨4096, 2, 0⟩ [97] := by
  decide

/-! ## The check -/

def dot : UInt8 := 46

/-- The loop over the characters, with the number of them since the last dot. -/
def ipCheckLoop : List UInt8 → Nat → Bool
  | [], _ => true
  | c :: rest, cnter =>
    if c = dot then ipCheckLoop rest 0
    else if cnter = 3 then false
    else ipCheckLoop rest (cnter + 1)

/-- The characters that the measured length reaches. -/
def measuredText (ip : List UInt8) : List UInt8 :=
  (List.range (rtStringLen ip)).map fun base => ip.getD base 0

def ipCheckVersion4 (ip : List UInt8) : Bool := ipCheckLoop (measuredText ip) 0

/-- A text that is not empty is measured as it is. -/
theorem measuredText_eq {ip : List UInt8} (h : cstr ip ≠ []) : measuredText ip = cstr ip := by
  rw [measuredText, rtStringLen_eq h]
  apply List.ext_getElem
  · simp
  · intro i _ hi
    rw [List.getElem_map, List.getElem_range, cstr_getD hi, List.getD_eq_getElem _ _ hi]

/-! ## The notation -/

def decimalValue (c : UInt8) : Nat := if 48 ≤ c ∧ c ≤ 57 then c.toNat - 48 else 10

/-- One to three digits for a number that is at most 255. -/
def IsOctet (word : List UInt8) : Prop :=
  word.length ≤ 3 ∧ ∃ n ≤ 255, IsNumeral decimalValue 10 word n

/-- Four octets with a dot between each two. -/
def IsAddress4 (text : List UInt8) : Prop :=
  ∃ octets : List (List UInt8), octets.length = 4 ∧ (∀ word ∈ octets, IsOctet word) ∧
    text = [dot].intercalate octets

/-- What stands between the dots. -/
def fields (text : List UInt8) : List (List UInt8) := text.splitOn dot

theorem IsOctet.dot_notMem {word : List UInt8} (h : IsOctet word) : dot ∉ word := by
  intro hmem
  obtain ⟨_, n, _, hnumeral⟩ := h
  exact absurd (hnumeral.digits dot hmem) (by decide)

/-- The fields of an address are its octets. -/
theorem IsAddress4.fields {text : List UInt8} (h : IsAddress4 text) :
    (fields text).length = 4 ∧ ∀ word ∈ fields text, IsOctet word := by
  obtain ⟨octets, hfour, hoctets, rfl⟩ := h
  have hne : octets ≠ [] := List.ne_nil_of_length_pos (by omega)
  have hdots : ∀ word ∈ octets, dot ∉ word := fun word hword => (hoctets word hword).dot_notMem
  rw [NetworkKit.fields, List.splitOn_intercalate dot hdots hne]
  exact ⟨hfour, hoctets⟩

/-! ## What is checked -/

/-- The loop goes on with a field of which `cnter` characters are read. -/
theorem ipCheckLoop_iff {text first : List UInt8} {rest : List (List UInt8)} {cnter : Nat}
    (hcnter : cnter ≤ 3) (h : fields text = first :: rest) :
    ipCheckLoop text cnter = true ↔
      cnter + first.length ≤ 3 ∧ ∀ word ∈ rest, word.length ≤ 3 := by
  induction text generalizing cnter first rest with
  | nil =>
    cases h
    simpa [ipCheckLoop] using hcnter
  | cons c text ih =>
    obtain ⟨next, others, hnext⟩ := List.exists_cons_of_ne_nil (List.splitOn_ne_nil dot text)
    rw [fields, List.splitOn_cons_eq_if_modifyHead, hnext] at h
    rw [ipCheckLoop]
    by_cases hc : c = dot
    · rw [if_pos (by simpa using hc)] at h
      cases h
      rw [if_pos hc, ih (Nat.zero_le 3) hnext, List.forall_mem_cons, List.length_nil]
      simp [hcnter]
    · rw [if_neg (by simpa using hc)] at h
      cases h
      rw [if_neg hc]
      by_cases hthree : cnter = 3
      · rw [if_pos hthree]
        simp [hthree]
      · rw [if_neg hthree, ih (by omega) hnext, List.length_cons]
        apply and_congr_left
        intro _
        omega

theorem ipCheckVersion4_iff (ip : List UInt8) :
    ipCheckVersion4 ip = true ↔ ∀ word ∈ fields (measuredText ip), word.length ≤ 3 := by
  obtain ⟨first, rest, hfields⟩ :=
    List.exists_cons_of_ne_nil (List.splitOn_ne_nil dot (measuredText ip))
  rw [ipCheckVersion4, ipCheckLoop_iff (Nat.zero_le 3) hfields, fields, hfields,
    List.forall_mem_cons, Nat.zero_add]

/-- An address passes. -/
theorem ipCheckVersion4_of_address {ip : List UInt8} (h : IsAddress4 (cstr ip)) :
    ipCheckVersion4 ip = true := by
  have hne : cstr ip ≠ [] := by
    intro hnil
    rw [hnil] at h
    exact absurd h.fields.1 (by decide)
  rw [ipCheckVersion4_iff, measuredText_eq hne]
  exact fun word hword => (h.fields.2 word hword).1

/-- The check tells addresses from other texts exactly where there is an address, or a field of
more than three characters. -/
theorem ipCheckVersion4_right_iff (ip : List UInt8) :
    (ipCheckVersion4 ip = true ↔ IsAddress4 (cstr ip)) ↔
      IsAddress4 (cstr ip) ∨ ∃ word ∈ fields (measuredText ip), 3 < word.length := by
  constructor
  · intro h
    by_cases haddress : IsAddress4 (cstr ip)
    · exact Or.inl haddress
    · have hlong := mt h.mp haddress
      rw [ipCheckVersion4_iff] at hlong
      simp only [not_forall, not_le] at hlong
      obtain ⟨word, hword, hlong⟩ := hlong
      exact Or.inr ⟨word, hword, hlong⟩
  · intro h
    rcases h with haddress | ⟨word, hword, hlong⟩
    · exact iff_of_true (ipCheckVersion4_of_address haddress) haddress
    · have hfalse : ¬ ipCheckVersion4 ip = true := by
        rw [ipCheckVersion4_iff]
        exact fun hall => Nat.not_le.mpr hlong (hall word hword)
      exact iff_of_false hfalse (mt ipCheckVersion4_of_address hfalse)

/-- A single letter passes. -/
theorem ipCheckVersion4_letter :
    ¬ (ipCheckVersion4 [97, 0] = true ↔ IsAddress4 (cstr [97, 0])) := by
  intro h
  have haddress := h.mp (by decide)
  exact absurd haddress.fields.1 (by decide)

end Zka.NetworkKit
