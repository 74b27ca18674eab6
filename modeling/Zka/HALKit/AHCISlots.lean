import Zka.Framework.Outcome

/-!
# The command slots of an AHCI port

How a read finds a free slot and when it issues its command.  The search halves the mask of the
busy slots and takes the halved mask for its own bound, and the wait for the port gives up long
before the number that it is then compared with.
-/

namespace Zka.HALKit.AHCI

open Outcome

def kAhciMaxPoll : Nat := 100000

def kAhciSRBsy : UInt32 := 0x80

def kAhciSRDrq : UInt32 := 0x08

/-! ## The loops -/

/-- One pass of the search, with the slot and what is left of the mask. -/
def slotBody (s : Nat × UInt32) : Outcome CFault ((Nat × UInt32) ⊕ Nat) :=
  let (port, slots) := s
  if port < slots.toNat then
    if slots &&& 1 = 0 then .done (.inr port) else .done (.inl (port + 1, slots >>> 1))
  else .done (.inr port)

/-- The task file of the port shows `BSY` or `DRQ`. -/
def portBusy (tfd : UInt32) : Bool := tfd &&& (kAhciSRBsy ||| kAhciSRDrq) != 0

/-- One pass of the wait; `tfd` has the values that the polls return. -/
def spinBody (tfd : Nat → UInt32) (spin : Nat) : Outcome CFault (Nat ⊕ Nat) :=
  if portBusy (tfd spin) ∧ spin < kAhciMaxPoll then .done (.inl (spin + 1))
  else .done (.inr spin)

/-- The slot, the number of the last poll, and whether a command is issued in the slot. -/
structure IssueReply where
  port : Nat
  spin : Nat
  issued : Bool
  deriving DecidableEq, Repr

/-- `drv_std_read` up to its command, without the tables that it fills. -/
def issueRead (sact ci : UInt32) (tfd : Nat → UInt32) (fuel : Nat) :
    Outcome CFault IssueReply := do
  let port ← whileLoop slotBody fuel (0, sact ||| ci)
  let spin ← whileLoop (spinBody tfd) fuel 0
  if spin = 1000000 then return ⟨port, spin, false⟩
  else return ⟨port, spin, true⟩

/-! ## What an issue should be -/

/-- The slot has no command. -/
def SlotFree (slots : UInt32) (n : Nat) : Prop := n < 32 ∧ slots.toNat.testBit n = false

/-- A free slot is selected if there is one, no command is issued if there is none, and a command is
issued only behind a poll that found the port ready. -/
structure IssueLaw (slots : UInt32) (tfd : Nat → UInt32) (r : IssueReply) : Prop where
  free : (∃ n, SlotFree slots n) → SlotFree slots r.port
  full : (¬ ∃ n, SlotFree slots n) → r.issued = false
  ready : r.issued = true → ∃ j ≤ r.spin, portBusy (tfd j) = false

/-! ### The search -/

section Slots

variable {slots : UInt32}

/-- The search goes on behind a slot. -/
def Passes (slots : UInt32) (n : Nat) : Prop :=
  n < slots.toNat / 2 ^ n ∧ slots.toNat.testBit n = true

private theorem halved_toNat (n : Nat) :
    (UInt32.ofNat (slots.toNat / 2 ^ n)).toNat = slots.toNat / 2 ^ n := by
  have hlt := slots.toNat_lt
  have hle := Nat.div_le_self slots.toNat (2 ^ n)
  rw [UInt32.toNat_ofNat']
  exact Nat.mod_eq_of_lt (by omega)

private theorem halved_low (n : Nat) :
    UInt32.ofNat (slots.toNat / 2 ^ n) &&& 1 = 0 ↔ slots.toNat.testBit n = false := by
  rw [← UInt32.toNat_inj, UInt32.toNat_and, halved_toNat, Nat.testBit_eq_decide_div_mod_eq]
  have hone : UInt32.toNat 1 = 1 := rfl
  have hzero : UInt32.toNat 0 = 0 := rfl
  rw [hone, hzero, Nat.and_one_is_mod]
  simp

private theorem halved_next (n : Nat) :
    UInt32.ofNat (slots.toNat / 2 ^ n) >>> 1 = UInt32.ofNat (slots.toNat / 2 ^ (n + 1)) := by
  have hshift : UInt32.toNat 1 % 32 = 1 := rfl
  rw [← UInt32.toNat_inj, UInt32.toNat_shiftRight, halved_toNat, halved_toNat, hshift,
    Nat.shiftRight_eq_div_pow, Nat.div_div_eq_div_mul, pow_one, ← pow_succ]

/-- The search ends at the first slot that it does not pass. -/
theorem yields_search_iff {port : Nat} :
    Yields (fun fuel => whileLoop slotBody fuel (0, slots)) port ↔
      (∀ n < port, Passes slots n) ∧ ¬ Passes slots port := by
  have hstart : ((0, slots) : Nat × UInt32) = (0, UInt32.ofNat (slots.toNat / 2 ^ 0)) := by
    simp
  rw [hstart, @yields_whileLoop_along_iff CFault (Nat × UInt32) Nat slotBody
    (fun n => (n, UInt32.ofNat (slots.toNat / 2 ^ n))) (Passes slots) (fun n => n)]
  · constructor
    · intro h
      obtain ⟨n, hgo, hstop, rfl⟩ := h
      exact ⟨hgo, hstop⟩
    · intro h
      exact ⟨port, h.1, h.2, rfl⟩
  · intro n h
    have hset : ¬ UInt32.ofNat (slots.toNat / 2 ^ n) &&& 1 = 0 := by
      rw [halved_low, h.2]
      simp
    simp only [slotBody]
    rw [halved_toNat, if_pos h.1, if_neg hset, halved_next]
  · intro n h
    simp only [slotBody]
    rw [halved_toNat]
    by_cases hlt : n < slots.toNat / 2 ^ n
    · have hclear : UInt32.ofNat (slots.toNat / 2 ^ n) &&& 1 = 0 := by
        rw [halved_low]
        exact Bool.eq_false_of_not_eq_true fun hset => h ⟨hlt, hset⟩
      rw [if_pos hlt, if_pos hclear]
    · rw [if_neg hlt]

theorem passes_lt {n : Nat} (h : Passes slots n) : n < 32 := by
  by_contra hge
  have hpow : 2 ^ 32 ≤ 2 ^ n := Nat.pow_le_pow_right (by decide) (by omega)
  have hzero : slots.toNat / 2 ^ n = 0 := Nat.div_eq_of_lt (lt_of_lt_of_le slots.toNat_lt hpow)
  have hlt := h.1
  omega

theorem exists_search : ∃ port, Yields (fun fuel => whileLoop slotBody fuel (0, slots)) port := by
  classical
  have hend : ∃ n, ¬ Passes slots n := ⟨32, fun h => lt_irrefl 32 (passes_lt h)⟩
  refine ⟨Nat.find hend, yields_search_iff.mpr ⟨fun n hn => ?_, Nat.find_spec hend⟩⟩
  exact not_not.mp (Nat.find_min hend hn)

/-- The first free slot. -/
def FirstFree (slots : UInt32) (n : Nat) : Prop :=
  SlotFree slots n ∧ ∀ m < n, slots.toNat.testBit m = true

/-- What is left of the mask before a slot that has a command. -/
private theorem left_of_set {x m : Nat} (h : x.testBit m = true) :
    x / 2 ^ m = 2 * (x / 2 ^ (m + 1)) + 1 := by
  rw [Nat.testBit_eq_decide_div_mod_eq, decide_eq_true_iff] at h
  rw [pow_succ, ← Nat.div_div_eq_div_mul]
  omega

/-- The slots below the first free one are passed exactly if its number is not too large for what
is left of the mask. -/
theorem passes_below_iff {n : Nat} (h : FirstFree slots n) :
    (∀ m < n, Passes slots m) ↔ n ≤ 2 * (slots.toNat / 2 ^ n) + 1 := by
  cases n with
  | zero => simp
  | succ n =>
    have hleft := left_of_set (h.2 n (Nat.lt_succ_self n))
    constructor
    · intro hpass
      have hlast := (hpass n (Nat.lt_succ_self n)).1
      omega
    · intro hle m hm
      have hmono : slots.toNat / 2 ^ n ≤ slots.toNat / 2 ^ m :=
        Nat.div_le_div_left (Nat.pow_le_pow_right (by decide) (by omega)) (by positivity)
      exact ⟨by omega, h.2 m hm⟩

theorem exists_firstFree (h : ∃ n, SlotFree slots n) : ∃ n, FirstFree slots n := by
  classical
  refine ⟨Nat.find h, Nat.find_spec h, ?_⟩
  intro m hm
  have hbelow : m < 32 := lt_trans hm (Nat.find_spec h).1
  have hnot := Nat.find_min h hm
  exact Bool.eq_true_of_not_eq_false fun hclear => hnot ⟨hbelow, hclear⟩

/-- The slot that the search ends at is free exactly if it is the first free one. -/
theorem search_free_iff {n port : Nat} (hfirst : FirstFree slots n)
    (h : Yields (fun fuel => whileLoop slotBody fuel (0, slots)) port) :
    SlotFree slots port ↔ n ≤ 2 * (slots.toNat / 2 ^ n) + 1 := by
  rw [← passes_below_iff hfirst]
  obtain ⟨hgo, hstop⟩ := yields_search_iff.mp h
  have hle : port ≤ n := by
    by_contra hgt
    have hset := (hgo n (by omega)).2
    rw [hfirst.1.2] at hset
    cases hset
  constructor
  · intro hfree
    rcases hle.lt_or_eq with hlt | rfl
    · have hset := hfirst.2 port hlt
      rw [hfree.2] at hset
      cases hset
    · exact hgo
  · intro hpass
    rcases hle.lt_or_eq with hlt | rfl
    · exact absurd (hpass port hlt) hstop
    · exact hfirst.1

end Slots

/-! ### The wait -/

section Wait

variable {tfd : Nat → UInt32}

/-- The wait ends at the first poll that finds the port ready, and at the last one anyway. -/
theorem yields_wait_iff {spin : Nat} :
    Yields (fun fuel => whileLoop (spinBody tfd) fuel 0) spin ↔
      (∀ j < spin, portBusy (tfd j) = true ∧ j < kAhciMaxPoll) ∧
        ¬ (portBusy (tfd spin) = true ∧ spin < kAhciMaxPoll) := by
  rw [@yields_whileLoop_along_iff CFault Nat Nat (spinBody tfd) (fun n => n)
    (fun n => portBusy (tfd n) = true ∧ n < kAhciMaxPoll) (fun n => n)]
  · constructor
    · intro h
      obtain ⟨n, hgo, hstop, rfl⟩ := h
      exact ⟨hgo, hstop⟩
    · intro h
      exact ⟨spin, h.1, h.2, rfl⟩
  · intro n h
    exact if_pos h
  · intro n h
    exact if_neg h

theorem exists_wait (tfd : Nat → UInt32) :
    ∃ spin, Yields (fun fuel => whileLoop (spinBody tfd) fuel 0) spin := by
  classical
  have hend : ∃ n, ¬ (portBusy (tfd n) = true ∧ n < kAhciMaxPoll) :=
    ⟨kAhciMaxPoll, fun h => lt_irrefl _ h.2⟩
  refine ⟨Nat.find hend, yields_wait_iff.mpr ⟨fun n hn => ?_, Nat.find_spec hend⟩⟩
  exact not_not.mp (Nat.find_min hend hn)

theorem wait_le {spin : Nat} (h : Yields (fun fuel => whileLoop (spinBody tfd) fuel 0) spin) :
    spin ≤ kAhciMaxPoll := by
  by_contra hgt
  exact lt_irrefl _ ((yields_wait_iff.mp h).1 kAhciMaxPoll (by omega)).2

/-- A poll of the wait found the port ready exactly if one of the first 100001 would. -/
theorem wait_ready_iff {spin : Nat}
    (h : Yields (fun fuel => whileLoop (spinBody tfd) fuel 0) spin) :
    (∃ j ≤ spin, portBusy (tfd j) = false) ↔ ∃ j ≤ kAhciMaxPoll, portBusy (tfd j) = false := by
  have hle := wait_le h
  constructor
  · intro hready
    obtain ⟨j, hj, hclear⟩ := hready
    exact ⟨j, hj.trans hle, hclear⟩
  · intro hready
    obtain ⟨j, hj, hclear⟩ := hready
    rcases Nat.lt_or_ge spin j with hlt | hge
    · refine ⟨spin, le_rfl, Bool.eq_false_of_not_eq_true fun hbusy => ?_⟩
      exact (yields_wait_iff.mp h).2 ⟨hbusy, by omega⟩
    · exact ⟨j, hge, hclear⟩

end Wait

/-! ### The command -/

section Issue

variable {sact ci : UInt32} {tfd : Nat → UInt32}

theorem issueRead_eq (fuel : Nat) : issueRead sact ci tfd fuel =
    whileLoop slotBody fuel (0, sact ||| ci) >>= fun port =>
      whileLoop (spinBody tfd) fuel 0 >>= fun spin =>
        .done ⟨port, spin, decide (spin ≠ 1000000)⟩ := by
  rw [issueRead]
  congr 1
  funext port
  congr 1
  funext spin
  by_cases hhung : spin = 1000000
  · simp [hhung]
  · simp [hhung]

/-- A command is always issued: the wait never counts as far as the number of a hung port. -/
theorem yields_issue_iff {r : IssueReply} :
    Yields (issueRead sact ci tfd) r ↔
      Yields (fun fuel => whileLoop slotBody fuel (0, sact ||| ci)) r.port ∧
        Yields (fun fuel => whileLoop (spinBody tfd) fuel 0) r.spin ∧ r.issued = true := by
  have hissue : ∀ spin, Yields (fun fuel => whileLoop (spinBody tfd) fuel 0) spin →
      decide (spin ≠ 1000000) = true := by
    intro spin hspin
    have hle := wait_le hspin
    unfold kAhciMaxPoll at hle
    exact decide_eq_true (by omega)
  have hmono : ∀ port, Monotone fun fuel => whileLoop (spinBody tfd) fuel 0 >>= fun spin =>
      (.done ⟨port, spin, decide (spin ≠ 1000000)⟩ : Outcome CFault IssueReply) :=
    fun _ => monotone_map (whileLoop_mono _ _) _
  rw [funext issueRead_eq, yields_bind_iff (whileLoop_mono _ _) hmono]
  simp only [yields_map_iff]
  constructor
  · intro h
    obtain ⟨port, hport, spin, hspin, rfl⟩ := h
    exact ⟨hport, hspin, hissue spin hspin⟩
  · intro h
    obtain ⟨hport, hspin, hissued⟩ := h
    refine ⟨r.port, hport, r.spin, hspin, ?_⟩
    rw [hissue r.spin hspin, ← hissued]

private theorem issueLaw_core :
    (∃ r, Yields (issueRead sact ci tfd) r ∧ IssueLaw (sact ||| ci) tfd r) ↔
      (∃ n, FirstFree (sact ||| ci) n ∧ n ≤ 2 * ((sact ||| ci).toNat / 2 ^ n) + 1) ∧
        ∃ j ≤ kAhciMaxPoll, portBusy (tfd j) = false := by
  constructor
  · intro h
    obtain ⟨r, hy, hlaw⟩ := h
    obtain ⟨hport, hspin, hissued⟩ := yields_issue_iff.mp hy
    have hfree : ∃ n, SlotFree (sact ||| ci) n := by
      by_contra hfull
      have hnot := hlaw.full hfull
      rw [hissued] at hnot
      cases hnot
    obtain ⟨n, hfirst⟩ := exists_firstFree hfree
    exact ⟨⟨n, hfirst, (search_free_iff hfirst hport).mp (hlaw.free hfree)⟩,
      (wait_ready_iff hspin).mp (hlaw.ready hissued)⟩
  · intro h
    obtain ⟨⟨n, hfirst, hle⟩, hready⟩ := h
    obtain ⟨port, hport⟩ := @exists_search (sact ||| ci)
    obtain ⟨spin, hspin⟩ := exists_wait tfd
    refine ⟨⟨port, spin, true⟩, yields_issue_iff.mpr ⟨hport, hspin, rfl⟩, ?_, ?_, ?_⟩
    · intro _
      exact (search_free_iff hfirst hport).mpr hle
    · intro hfull
      exact absurd ⟨n, hfirst.1⟩ hfull
    · intro _
      exact (wait_ready_iff hspin).mpr hready

/-- The slot and the command are right exactly if there is a free slot, the number of the first one
is not too large for what is left of the mask there, and one of the first 100001 polls finds the
port ready. -/
theorem issueLaw_iff (sact ci : UInt32) (tfd : Nat → UInt32) :
    (∃ r, Yields (issueRead sact ci tfd) r ∧ IssueLaw (sact ||| ci) tfd r) ↔
      (∃ n, FirstFree (sact ||| ci) n ∧ n ≤ 2 * ((sact ||| ci).toNat / 2 ^ n) + 1) ∧
        ∃ j ≤ kAhciMaxPoll, portBusy (tfd j) = false :=
  issueLaw_core

/-- With the first two slots busy the second one is selected. -/
theorem issueLaw_two :
    ¬ ∃ r, Yields (issueRead 3 0 fun _ => 0) r ∧ IssueLaw (3 ||| 0) (fun _ => 0) r := by
  have hfirst : FirstFree (3 ||| 0) 2 := by
    refine ⟨⟨by decide, by decide⟩, ?_⟩
    decide
  intro h
  obtain ⟨⟨n, hn, hle⟩, _⟩ := issueLaw_core.mp h
  obtain rfl : n = 2 := by
    rcases Nat.lt_trichotomy n 2 with hlt | heq | hgt
    · have hset := hfirst.2 n hlt
      rw [hn.1.2] at hset
      cases hset
    · exact heq
    · have hset := hn.2 2 hgt
      rw [hfirst.1.2] at hset
      cases hset
  exact absurd hle (by decide)

end Issue

end Zka.HALKit.AHCI
