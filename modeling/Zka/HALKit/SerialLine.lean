import Zka.Framework.Outcome
import Zka.Framework.Simulation
import Zka.NewKit.Text

/-!
# The serial line

`ke_io_write` and `ke_io_read` of the AMD64 kernel in builds with `__DEBUG__`.  Both set the line up
when they are first called.  What the port answers is a stream of bytes, one for each time that it
is read: nothing waits for the line.
-/

namespace Zka.HALKit

open NewKit Outcome

inductive CommStatus where
  | kStateInvalid
  | kStateReady
  | kStateTransmit
  deriving DecidableEq, Repr

inductive SerialFault where
  /-- `ke_stop` with `RUNTIME_CHECK_HANDSHAKE`. -/
  | handshake
  | outOfBuffer
  deriving DecidableEq, Repr

/-- The state of the line, what was put to which port, and what the data port is going to answer. -/
structure Serial where
  kState : CommStatus
  out : List (UInt16 × UInt8)
  input : Stream' UInt8

namespace Serial

def boot (input : Stream' UInt8) : Serial := ⟨.kStateInvalid, [], input⟩

def PORT : UInt16 := 0x3F8

def rtOut8 (s : Serial) (port : UInt16) (byte : UInt8) : Serial :=
  { s with out := s.out ++ [(port, byte)] }

/-- The state after a byte was taken from `PORT`; the byte is the head of the input. -/
def rtIn8 (s : Serial) : Serial := { s with input := s.input.tail }

/-- What is put to the registers before the test. -/
def setup : List (UInt16 × UInt8) :=
  [(PORT + 1, 0x00), (PORT + 3, 0x80), (PORT + 0, 0x03), (PORT + 1, 0x00), (PORT + 3, 0x03),
    (PORT + 2, 0xC7), (PORT + 4, 0x0B), (PORT + 4, 0x1E), (PORT + 0, 0xAE)]

def halSerialInit (s : Serial) : Outcome SerialFault Serial :=
  if s.kState = .kStateReady ∨ s.kState = .kStateTransmit then .done s
  else
    let s := setup.foldl (fun s w => s.rtOut8 w.1 w.2) s
    if s.input.head ≠ 0xAE then .fault .handshake
    else .done ({ s.rtIn8 with kState := .kStateReady }.rtOut8 (PORT + 4) 0x0F)

/-- One pass of the loop of `ke_io_write`. -/
def writeByte (s : Serial) (c : UInt8) : Serial :=
  let s := if c = 13 then s.rtOut8 PORT 13 else s
  s.rtOut8 PORT (if c = 13 then 10 else c)

def keIoWrite (bytes : Option (List UInt8)) (s : Serial) : Outcome SerialFault Serial :=
  halSerialInit s >>= fun s =>
  match bytes with
  | none => .done s
  | some bytes =>
    if s.kState ≠ .kStateReady ∨ bytes.getD 0 0 = 0 then .done s
    else
      let s := { s with kState := .kStateTransmit }
      let len := rtStringLenMax bytes 255
      let s := (List.range len).foldl (fun s index => s.writeByte (bytes.getD index 0)) s
      .done { s with kState := .kStateReady }

/-- A store to the buffer of `ke_io_read`. -/
def store (buffer : List UInt8) (index : Nat) (c : UInt8) : Outcome SerialFault (List UInt8) :=
  if index < buffer.length then .done (buffer.set index c) else .fault .outOfBuffer

structure ReadLoop where
  serial : Serial
  bytes : List UInt8
  index : Nat

/-- One pass of the loop of `ke_io_read`.  Of six different characters a byte differs from one at
least. -/
def readBody (s : ReadLoop) : Outcome SerialFault (ReadLoop ⊕ ReadLoop) :=
  let inp := s.serial.input.head
  let s := { s with serial := s.serial.rtIn8 }
  if inp = 0x0D then .done (.inr s)
  else if (inp < 48 ∨ inp < 65 ∨ inp < 97) ∧
      (inp ≠ 64 ∨ inp ≠ 33 ∨ inp ≠ 63 ∨ inp ≠ 46 ∨ inp ≠ 47 ∨ inp ≠ 58) then .done (.inl s)
  else store s.bytes s.index inp >>= fun bytes => .done (.inl ⟨s.serial, bytes, s.index + 1⟩)

/-- `ke_io_read`: the buffer, and the line. -/
def keIoRead (fuel : Nat) (bytes : Option (List UInt8)) (s : Serial) :
    Outcome SerialFault (Option (List UInt8) × Serial) :=
  halSerialInit s >>= fun s =>
  match bytes with
  | none => .done (none, s)
  | some bytes =>
    if s.kState ≠ .kStateReady then .done (some bytes, s)
    else
      whileLoop readBody fuel ⟨{ s with kState := .kStateTransmit }, bytes, 0⟩ >>= fun t =>
      store t.bytes t.index 0 >>= fun bytes =>
      .done (some bytes, { t.serial with kState := .kStateReady })

end Serial

/-! ## Runs -/

inductive SerialEvent where
  | write (bytes : Option (List UInt8))
  | read (bytes after : Option (List UInt8))

/-- One call that returns. -/
inductive SerialStep : Serial → SerialEvent → Serial → Prop
  | write {s t : Serial} {bytes : Option (List UInt8)} (h : s.keIoWrite bytes = .done t) :
      SerialStep s (.write bytes) t
  | read {s t : Serial} {bytes after : Option (List UInt8)}
      (h : Yields (fun fuel => s.keIoRead fuel bytes) (after, t)) :
      SerialStep s (.read bytes after) t

/-! ## The terminal seen from outside -/

/-- The bytes of a text that are sent.  Only a text of more than 256 bytes is cut. -/
def sentText (bytes : List UInt8) : List UInt8 :=
  if 256 < (cstr bytes).length then (cstr bytes).take 255 else cstr bytes

/-- How a byte is sent. -/
def expand (c : UInt8) : List UInt8 := if c = 13 then [13, 10] else [c]

/-- The bytes of a line that are kept. -/
def typed (line : List UInt8) : List UInt8 := line.filter (97 ≤ ·)

/-- A buffer with a text in it. -/
def filled (buffer text : List UInt8) : List UInt8 :=
  text ++ 0 :: buffer.drop (text.length + 1)

structure Console where
  sent : List UInt8
  input : Stream' UInt8

inductive ConsoleStep : Console → SerialEvent → Console → Prop
  | writeNothing {c : Console} : ConsoleStep c (.write none) c
  | write {c : Console} (bytes : List UInt8) :
      ConsoleStep c (.write (some bytes))
        { c with sent := c.sent ++ (sentText bytes).flatMap expand }
  | readNothing {c : Console} : ConsoleStep c (.read none none) c
  | read {c : Console} {line bytes : List UInt8} {rest : Stream' UInt8} (hline : 13 ∉ line)
      (hinput : c.input = line ++ₛ Stream'.cons 13 rest)
      (hfit : (typed line).length < bytes.length) :
      ConsoleStep c (.read (some bytes) (some (filled bytes (typed line)))) { c with input := rest }

namespace Serial

/-- The line once it was set up. -/
def ready (c : Console) : Serial :=
  ⟨.kStateReady, setup ++ [(PORT + 4, 0x0F)] ++ c.sent.map (PORT, ·), c.input⟩

/-! ## Writing -/

private theorem foldl_rtOut8 (s : Serial) (w : List (UInt16 × UInt8)) :
    w.foldl (fun s w => s.rtOut8 w.1 w.2) s = { s with out := s.out ++ w } := by
  induction w generalizing s with
  | nil => simp
  | cons x xs ih =>
    rw [List.foldl_cons, ih, rtOut8]
    simp

theorem halSerialInit_boot (input : Stream' UInt8) :
    (boot input).halSerialInit =
      if input.head = 0xAE then .done (ready ⟨[], input.tail⟩) else .fault .handshake := by
  have hnew : ¬ ((boot input).kState = .kStateReady ∨ (boot input).kState = .kStateTransmit) := by
    simp [boot]
  simp only [halSerialInit, if_neg hnew, foldl_rtOut8]
  by_cases h : input.head = 0xAE
  · rw [if_pos h, if_neg (show ¬ (boot input).input.head ≠ 0xAE from not_not.mpr h)]
    rfl
  · rw [if_neg h, if_pos (show (boot input).input.head ≠ 0xAE from h)]

theorem halSerialInit_ready (c : Console) : (ready c).halSerialInit = .done (ready c) :=
  if_pos (.inl rfl)

private theorem writeByte_eq (s : Serial) (c : UInt8) :
    s.writeByte c = { s with out := s.out ++ (expand c).map (PORT, ·) } := by
  by_cases h : c = 13
  · simp [writeByte, rtOut8, expand, h]
  · simp [writeByte, rtOut8, expand, h]

private theorem foldl_writeByte (s : Serial) (text : List UInt8) :
    text.foldl writeByte s = { s with out := s.out ++ (text.flatMap expand).map (PORT, ·) } := by
  induction text generalizing s with
  | nil => simp
  | cons c text ih => simp [ih, writeByte_eq]

/-- The loop visits the bytes that are sent. -/
private theorem visited_eq {bytes : List UInt8} (h : cstr bytes ≠ []) :
    (List.range (rtStringLenMax bytes 255)).map (bytes.getD · 0) = sentText bytes := by
  have hlen : rtStringLenMax bytes 255 ≤ (cstr bytes).length := by
    rw [rtStringLenMax, rtStringLen_eq h]
    split <;> omega
  have htake : sentText bytes = (cstr bytes).take (rtStringLenMax bytes 255) := by
    rw [sentText, rtStringLenMax, rtStringLen_eq h]
    split
    · rfl
    · rw [List.take_length]
  rw [htake]
  refine List.ext_getElem (by simpa using hlen) fun i hi _ => ?_
  have hi' : i < (cstr bytes).length := by simp at hi; omega
  rw [List.getElem_map, List.getElem_range, List.getElem_take, cstr_getD hi',
    List.getD_eq_getElem _ _ hi']

theorem keIoWrite_ready (c : Console) (bytes : List UInt8) :
    (ready c).keIoWrite (some bytes) =
      .done (ready { c with sent := c.sent ++ (sentText bytes).flatMap expand }) := by
  rw [keIoWrite, halSerialInit_ready, done_bind]
  dsimp only
  by_cases hempty : cstr bytes = []
  · rw [if_pos (.inr (cstr_eq_nil_iff.mp hempty)), sentText, hempty]
    simp
  · have hready : ¬ ((ready c).kState ≠ .kStateReady ∨ bytes.getD 0 0 = 0) :=
      not_or.mpr ⟨not_not.mpr rfl, mt cstr_eq_nil_iff.mpr hempty⟩
    rw [if_neg hready, ← List.foldl_map, visited_eq hempty, foldl_writeByte]
    simp [ready]

/-! ## Reading -/

private theorem store_eq_done {buffer after : List UInt8} {index : Nat} {c : UInt8} :
    store buffer index c = .done after ↔ index < buffer.length ∧ after = buffer.set index c := by
  rw [store]
  split <;> simp_all [eq_comm]

/-- A byte that is kept. -/
private theorem skipped_iff (inp : UInt8) :
    (inp < 48 ∨ inp < 65 ∨ inp < 97) ∧
      (inp ≠ 64 ∨ inp ≠ 33 ∨ inp ≠ 63 ∨ inp ≠ 46 ∨ inp ≠ 47 ∨ inp ≠ 58) ↔ ¬ 97 ≤ inp := by
  rw [UInt8.not_le]
  constructor
  · intro h
    rcases h.1 with h | h | h
    · exact UInt8.lt_trans h (by decide)
    · exact UInt8.lt_trans h (by decide)
    · exact h
  · intro h
    refine ⟨.inr (.inr h), ?_⟩
    by_cases h64 : inp = 64
    · exact .inr (.inl (h64 ▸ by decide))
    · exact .inl h64

/-- The state of the loop behind a byte that ends nothing. -/
private def skip (s : ReadLoop) : ReadLoop := { s with serial := s.serial.rtIn8 }

private def keep (s : ReadLoop) : ReadLoop :=
  ⟨s.serial.rtIn8, s.bytes.set s.index s.serial.input.head, s.index + 1⟩

private theorem readBody_end {s : ReadLoop} (h : s.serial.input.head = 13) :
    readBody s = .done (.inr (skip s)) := by
  simp only [readBody, if_pos h]
  rfl

private theorem readBody_skip {s : ReadLoop} (h : s.serial.input.head ≠ 13)
    (hc : ¬ 97 ≤ s.serial.input.head) : readBody s = .done (.inl (skip s)) := by
  simp only [readBody, if_neg h, if_pos ((skipped_iff _).mpr hc)]
  rfl

private theorem readBody_keep {s : ReadLoop} (h : s.serial.input.head ≠ 13)
    (hc : 97 ≤ s.serial.input.head) : readBody s =
      if s.index < s.bytes.length then .done (.inl (keep s)) else .fault .outOfBuffer := by
  simp only [readBody, if_neg h, if_neg (mt (skipped_iff _).mp (not_not.mpr hc)), store]
  split <;> rfl

private def stored (bytes : List UInt8) (index : Nat) (text : List UInt8) : List UInt8 :=
  bytes.take index ++ text ++ bytes.drop (index + text.length)

private theorem stored_nil (bytes : List UInt8) (index : Nat) : stored bytes index [] = bytes := by
  simp [stored]

private theorem stored_cons {bytes : List UInt8} {index : Nat} (h : index < bytes.length)
    (c : UInt8) (text : List UInt8) :
    stored (bytes.set index c) (index + 1) text = stored bytes index (c :: text) := by
  have hlen : (bytes.take index).length = index := List.length_take_of_le h.le
  have hset : bytes.set index c = bytes.take index ++ c :: bytes.drop (index + 1) :=
    List.set_eq_take_append_cons_drop.trans (if_pos h)
  have htake : (bytes.set index c).take (index + 1) = bytes.take index ++ [c] := by
    rw [hset, List.take_append, hlen, List.take_of_length_le (by omega)]
    simp
  have hdrop : (bytes.set index c).drop (index + 1 + text.length) =
      bytes.drop (index + (c :: text).length) := by
    rw [List.drop_set_of_lt (by omega), List.length_cons]
    congr 1
    omega
  rw [stored, stored, htake, hdrop]
  simp

private theorem length_stored {bytes text : List UInt8} (h : text.length ≤ bytes.length) :
    (stored bytes 0 text).length = bytes.length := by
  simp [stored]
  omega

private theorem stored_end {bytes text : List UInt8} (h : text.length < bytes.length) :
    (stored bytes 0 text).set text.length 0 = filled bytes text := by
  have hdrop : bytes.drop text.length = bytes[text.length] :: bytes.drop (text.length + 1) :=
    List.drop_eq_getElem_cons h
  simp only [stored, List.take_zero, List.nil_append, Nat.zero_add, hdrop]
  rw [List.set_append_right _ _ le_rfl, Nat.sub_self, List.set_cons_zero, filled]

private theorem typed_cons (c : UInt8) (line : List UInt8) :
    typed (c :: line) = if 97 ≤ c then c :: typed line else typed line := by
  simp [typed, List.filter_cons]

/-- Where the loop leaves: behind the first `13`. -/
private def leave (s : ReadLoop) (line : List UInt8) (rest : Stream' UInt8) : ReadLoop :=
  ⟨{ s.serial with input := rest }, stored s.bytes s.index (typed line),
    s.index + (typed line).length⟩

private theorem leave_keep {s : ReadLoop} (h : s.index < s.bytes.length)
    (hc : 97 ≤ s.serial.input.head) (line : List UInt8) (rest : Stream' UInt8) :
    leave (keep s) line rest = leave s (s.serial.input.head :: line) rest := by
  simp only [leave, keep, rtIn8, typed_cons, if_pos hc, stored_cons h, List.length_cons]
  congr 1
  omega

private theorem leave_skip {s : ReadLoop} (hc : ¬ 97 ≤ s.serial.input.head) (line : List UInt8)
    (rest : Stream' UInt8) :
    leave (skip s) line rest = leave s (s.serial.input.head :: line) rest := by
  simp only [leave, skip, rtIn8, typed_cons, if_neg hc]

private theorem readLoop_yields {line : List UInt8} (hline : 13 ∉ line) {rest : Stream' UInt8}
    {s : ReadLoop} (hinput : s.serial.input = line ++ₛ Stream'.cons 13 rest)
    (hfit : s.index + (typed line).length ≤ s.bytes.length) :
    Yields (fun fuel => whileLoop readBody fuel s) (leave s line rest) := by
  induction line generalizing s with
  | nil =>
    have hhead : s.serial.input.head = 13 := by rw [hinput]; rfl
    refine .intro 1 ((whileLoop_exit (readBody_end hhead) 0).trans ?_)
    have htail : s.serial.input.tail = rest := by rw [hinput]; rfl
    simp [skip, leave, rtIn8, htail, typed, stored_nil]
  | cons c line ih =>
    obtain ⟨hne, hline⟩ := not_or.mp (mt List.mem_cons.mpr hline)
    have hhead : s.serial.input.head = c := by rw [hinput]; rfl
    have htail : s.serial.input.tail = line ++ₛ Stream'.cons 13 rest := by rw [hinput]; rfl
    have hnot : s.serial.input.head ≠ 13 := hhead ▸ Ne.symm hne
    rw [typed_cons] at hfit
    by_cases hc : 97 ≤ c
    · rw [if_pos hc, List.length_cons] at hfit
      have hroom : s.index < s.bytes.length := by omega
      have hbody := readBody_keep hnot (hhead.symm ▸ hc)
      rw [if_pos hroom] at hbody
      have hkeep := ih (s := keep s) hline htail (by
        simp only [keep, List.length_set]
        omega)
      rw [leave_keep hroom (hhead.symm ▸ hc), hhead] at hkeep
      exact (yields_whileLoop_continue_iff hbody).mpr hkeep
    · rw [if_neg hc] at hfit
      have hskip := ih (s := skip s) hline htail hfit
      rw [leave_skip (hhead.symm ▸ hc), hhead] at hskip
      exact (yields_whileLoop_continue_iff (readBody_skip hnot (hhead.symm ▸ hc))).mpr hskip

private theorem readLoop_leaves {fuel : Nat} {s t : ReadLoop} (hs : s.index ≤ s.bytes.length)
    (h : whileLoop readBody fuel s = .done t) :
    ∃ line rest, 13 ∉ line ∧ s.serial.input = line ++ₛ Stream'.cons 13 rest ∧
      s.index + (typed line).length ≤ s.bytes.length ∧ t = leave s line rest := by
  induction fuel generalizing s with
  | zero => cases h
  | succ fuel ih =>
    by_cases hend : s.serial.input.head = 13
    · rw [whileLoop_exit (readBody_end hend)] at h
      refine ⟨[], s.serial.input.tail, List.not_mem_nil, ?_, hs, ?_⟩
      · rw [← hend]
        exact s.serial.input.eta.symm
      · simp [← done.inj h, skip, leave, rtIn8, typed, stored_nil]
    have hcons : ∀ {line rest}, s.serial.input.tail = line ++ₛ Stream'.cons 13 rest →
        s.serial.input = (s.serial.input.head :: line) ++ₛ Stream'.cons 13 rest := by
      intro line rest htail
      rw [Stream'.cons_append_stream, ← htail, Stream'.eta]
    have hmem : ∀ {line}, 13 ∉ line → 13 ∉ s.serial.input.head :: line :=
      fun hline => List.not_mem_cons_of_ne_of_not_mem (Ne.symm hend) hline
    by_cases hc : 97 ≤ s.serial.input.head
    · by_cases hroom : s.index < s.bytes.length
      · rw [whileLoop_continue ((readBody_keep hend hc).trans (if_pos hroom))] at h
        obtain ⟨line, rest, hline, hinput, hfit, rfl⟩ := ih (s := keep s) (by
          rw [keep, List.length_set]
          exact hroom) h
        refine ⟨_, rest, hmem hline, hcons hinput, ?_, leave_keep hroom hc line rest⟩
        simp only [keep, List.length_set] at hfit
        rw [typed_cons, if_pos hc, List.length_cons]
        omega
      · rw [whileLoop_fault ((readBody_keep hend hc).trans (if_neg hroom))] at h
        cases h
    · rw [whileLoop_continue (readBody_skip hend hc)] at h
      obtain ⟨line, rest, hline, hinput, hfit, rfl⟩ := ih (s := skip s) hs h
      refine ⟨_, rest, hmem hline, hcons hinput, ?_, leave_skip hc line rest⟩
      rwa [typed_cons, if_neg hc]

/-- `ke_io_read` returns exactly when a `13` is to come and the bytes that it keeps before it fit
into the buffer with their terminator. -/
theorem keIoRead_ready_iff (c : Console) (bytes : List UInt8) (after : Option (List UInt8))
    (t : Serial) : Yields (fun fuel => (ready c).keIoRead fuel (some bytes)) (after, t) ↔
      ∃ line rest, 13 ∉ line ∧ c.input = line ++ₛ Stream'.cons 13 rest ∧
        (typed line).length < bytes.length ∧ after = some (filled bytes (typed line)) ∧
        t = ready { c with input := rest } := by
  have hloop : Yields (fun fuel => (ready c).keIoRead fuel (some bytes)) (after, t) ↔
      Yields (fun fuel => whileLoop readBody fuel
        ⟨{ ready c with kState := .kStateTransmit }, bytes, 0⟩ >>= fun t =>
          store t.bytes t.index 0 >>= fun bytes =>
          .done (some bytes, { t.serial with kState := .kStateReady })) (after, t) := by
    simp only [keIoRead, halSerialInit_ready, done_bind]
    rfl
  rw [hloop]
  constructor
  · intro h
    obtain ⟨fuel, h⟩ := h
    obtain ⟨u, hu, h⟩ := bind_eq_done.mp h
    obtain ⟨line, rest, hline, hinput, hfit, rfl⟩ := readLoop_leaves (Nat.zero_le _) hu
    obtain ⟨buffer, hstore, h⟩ := bind_eq_done.mp h
    obtain ⟨hroom, rfl⟩ := store_eq_done.mp hstore
    cases h
    simp only [leave, Nat.zero_add] at hroom hfit ⊢
    rw [length_stored hfit] at hroom
    rw [stored_end hroom]
    exact ⟨line, rest, hline, hinput, hroom, rfl, rfl⟩
  · intro h
    obtain ⟨line, rest, hline, hinput, hfit, rfl, rfl⟩ := h
    obtain ⟨fuel, hfuel⟩ := readLoop_yields hline
      (s := ⟨{ ready c with kState := .kStateTransmit }, bytes, 0⟩) hinput
      ((Nat.zero_add _).trans_le hfit.le)
    refine ⟨fuel, bind_eq_done.mpr ⟨_, hfuel, bind_eq_done.mpr ⟨_, ?_, rfl⟩⟩⟩
    rw [store_eq_done]
    simp only [leave, Nat.zero_add]
    rw [length_stored hfit.le, stored_end hfit]
    exact ⟨hfit, rfl⟩

theorem keIoRead_none (c : Console) (fuel : Nat) :
    (ready c).keIoRead fuel none = .done (none, ready c) := by
  rw [keIoRead, halSerialInit_ready, done_bind]

theorem keIoWrite_none (c : Console) : (ready c).keIoWrite none = .done (ready c) := by
  rw [keIoWrite, halSerialInit_ready, done_bind]

/-! ## Runs -/

/-- A line that is up is a console. -/
theorem step_ready_iff {c : Console} {e : SerialEvent} {t : Serial} :
    SerialStep (ready c) e t ↔ ∃ d, ConsoleStep c e d ∧ t = ready d := by
  constructor
  · intro h
    cases h with
    | @write _ bytes h =>
      rcases bytes with _ | bytes
      · exact ⟨c, .writeNothing, (done.inj ((keIoWrite_none c).symm.trans h)).symm⟩
      · obtain rfl := done.inj ((keIoWrite_ready c bytes).symm.trans h)
        exact ⟨_, .write bytes, rfl⟩
    | @read _ bytes after h =>
      rcases bytes with _ | bytes
      · obtain ⟨fuel, h⟩ := h
        cases (keIoRead_none c fuel).symm.trans h
        exact ⟨c, .readNothing, rfl⟩
      · obtain ⟨line, rest, hline, hinput, hfit, rfl, rfl⟩ :=
          (keIoRead_ready_iff c bytes after t).mp h
        exact ⟨_, .read hline hinput hfit, rfl⟩
  · intro h
    obtain ⟨d, h, rfl⟩ := h
    cases h with
    | writeNothing => exact .write (keIoWrite_none c)
    | write bytes => exact .write (keIoWrite_ready c bytes)
    | readNothing => exact .read (.intro 0 (keIoRead_none c 0))
    | read hline hinput hfit =>
      exact .read ((keIoRead_ready_iff c _ _ _).mpr ⟨_, _, hline, hinput, hfit, rfl, rfl⟩)

theorem keIoWrite_boot (input : Stream' UInt8) (bytes : Option (List UInt8)) :
    (boot input).keIoWrite bytes =
      if input.head = 0xAE then (ready ⟨[], input.tail⟩).keIoWrite bytes
      else .fault .handshake := by
  simp only [keIoWrite, halSerialInit_boot, halSerialInit_ready]
  split <;> rfl

theorem keIoRead_boot (input : Stream' UInt8) (fuel : Nat) (bytes : Option (List UInt8)) :
    (boot input).keIoRead fuel bytes =
      if input.head = 0xAE then (ready ⟨[], input.tail⟩).keIoRead fuel bytes
      else .fault .handshake := by
  simp only [keIoRead, halSerialInit_boot, halSerialInit_ready]
  split <;> rfl

/-- The first call sets the line up, and goes on as if it had been up. -/
theorem step_boot_iff {input : Stream' UInt8} {e : SerialEvent} {t : Serial} :
    SerialStep (boot input) e t ↔
      input.head = 0xAE ∧ SerialStep (ready ⟨[], input.tail⟩) e t := by
  by_cases hhead : input.head = 0xAE
  · refine ⟨fun h => ⟨hhead, ?_⟩, fun h => ?_⟩
    · cases h with
      | write h => exact .write (by rwa [keIoWrite_boot, if_pos hhead] at h)
      | read h => exact .read (by simpa only [keIoRead_boot, if_pos hhead] using h)
    · cases h.2 with
      | write h => exact .write (by rwa [keIoWrite_boot, if_pos hhead])
      | read h => exact .read (by simpa only [keIoRead_boot, if_pos hhead] using h)
  · refine ⟨fun h => ?_, fun h => absurd h.1 hhead⟩
    cases h with
    | write h => rw [keIoWrite_boot, if_neg hhead] at h; cases h
    | read h =>
      simp only [keIoRead_boot, if_neg hhead] at h
      obtain ⟨fuel, h⟩ := h
      cases h

theorem trace_ready_iff {c : Console} {events : List SerialEvent} {t : Serial} :
    Trace SerialStep (ready c) events t ↔ ∃ d, Trace ConsoleStep c events d ∧ t = ready d := by
  induction events generalizing c with
  | nil =>
    constructor
    · intro h
      cases h
      exact ⟨c, .nil c, rfl⟩
    · intro h
      obtain ⟨d, h, rfl⟩ := h
      cases h
      exact .nil _
  | cons e events ih =>
    constructor
    · intro h
      cases h with
      | cons hstep hrest =>
        obtain ⟨d, hd, rfl⟩ := step_ready_iff.mp hstep
        obtain ⟨d', hd', rfl⟩ := ih.mp hrest
        exact ⟨d', .cons hd hd', rfl⟩
    · intro h
      obtain ⟨d, h, rfl⟩ := h
      cases h with
      | cons hstep hrest =>
        exact .cons (step_ready_iff.mpr ⟨_, hstep, rfl⟩) (ih.mpr ⟨d, hrest, rfl⟩)

theorem trace_boot {input : Stream' UInt8} {e : SerialEvent} {events : List SerialEvent}
    {t : Serial} (h : Trace SerialStep (boot input) (e :: events) t) :
    input.head = 0xAE ∧ ∃ c, Trace ConsoleStep ⟨[], input.tail⟩ (e :: events) c ∧ t = ready c := by
  cases h with
  | cons hstep hrest =>
    obtain ⟨hhead, hstep⟩ := step_boot_iff.mp hstep
    exact ⟨hhead, trace_ready_iff.mp (.cons hstep hrest)⟩

end Serial

/-- The calls on a line that was not set up yet return exactly when the line echoes the byte of the
test, and each of them then does what the console does: a write sends the text, a read takes what is
to come up to the first `13`. -/
theorem serial_refines {input : Stream' UInt8} {e : SerialEvent} {events : List SerialEvent}
    {s : Serial} : Trace SerialStep (.boot input) (e :: events) s ↔
      input.head = 0xAE ∧ ∃ c, Trace ConsoleStep ⟨[], input.tail⟩ (e :: events) c ∧
        s = .ready c := by
  refine ⟨Serial.trace_boot, fun h => ?_⟩
  obtain ⟨hhead, h⟩ := h
  cases Serial.trace_ready_iff.mpr h with
  | cons hstep hrest => exact .cons (Serial.step_boot_iff.mpr ⟨hhead, hstep⟩) hrest

/-! ## Two lines -/

/-- What was sent behind the setup. -/
def Serial.data (s : Serial) : List UInt8 := (s.out.drop 10).map Prod.snd

def written (events : List SerialEvent) : List UInt8 :=
  events.flatMap fun
    | .write (some bytes) => sentText bytes
    | _ => []

/-- The texts that were read. -/
def answers (events : List SerialEvent) : List (List UInt8) :=
  events.filterMap fun
    | .read _ (some buffer) => some (cstr buffer)
    | _ => none

/-- The lines of a text that end with `13`. -/
def lines (text : List UInt8) : List (List UInt8) := (text.splitOn 13).dropLast

private theorem lines_of_notMem {text : List UInt8} (h : 13 ∉ text) : lines text = [] := by
  rw [lines, List.splitOn_eq_singleton h, List.dropLast_singleton]

private theorem lines_append {line : List UInt8} (h : 13 ∉ line) (text : List UInt8) :
    lines (line ++ 13 :: text) = line :: lines text := by
  rw [lines, List.splitOn_append_cons_self_of_not_mem h,
    List.dropLast_cons_of_ne_nil (List.splitOn_ne_nil 13 text), lines]

private theorem flatMap_expand {text : List UInt8} (h : 13 ∉ text) :
    text.flatMap expand = text := by
  induction text with
  | nil => rfl
  | cons c text ih =>
    obtain ⟨hc, htext⟩ := not_or.mp (mt List.mem_cons.mpr h)
    rw [List.flatMap_cons, ih htext, expand, if_neg (Ne.symm hc), List.singleton_append]

private theorem first_unique {α : Type} {a : α} {line line' : List α} {rest rest' : Stream' α}
    (hline : a ∉ line) (hline' : a ∉ line')
    (h : line ++ₛ Stream'.cons a rest = line' ++ₛ Stream'.cons a rest') :
    line = line' ∧ rest = rest' := by
  induction line generalizing line' with
  | nil =>
    cases line' with
    | nil => exact ⟨rfl, (Stream'.cons_injective2 h).2⟩
    | cons b line' =>
      exact absurd (List.mem_cons.mpr (.inl (Stream'.cons_injective2 h).1)) hline'
  | cons b line ih =>
    cases line' with
    | nil => exact absurd (List.mem_cons.mpr (.inl (Stream'.cons_injective2 h).1.symm)) hline
    | cons c line' =>
      obtain ⟨rfl, htail⟩ := Stream'.cons_injective2 h
      obtain ⟨rfl, hrest⟩ := ih (mt (List.mem_cons_of_mem _) hline)
        (mt (List.mem_cons_of_mem _) hline') htail
      exact ⟨rfl, hrest⟩

private theorem cstr_filled (buffer line : List UInt8) :
    cstr (filled buffer (typed line)) = typed line := by
  refine cstr_append_zero (fun h => ?_) _
  exact absurd (List.mem_filter.mp h).2 (by decide)

private theorem sent_eq {c d : Console} {events : List SerialEvent}
    (h : Trace ConsoleStep c events d) : d.sent = c.sent ++ (written events).flatMap expand := by
  induction h with
  | nil c => exact (List.append_nil _).symm
  | cons hstep _ ih =>
    rw [ih]
    cases hstep <;> simp [written]

/-- The reads answer the lines of what is to come, one each. -/
private theorem answers_eq {c d : Console} {events : List SerialEvent} {skip text : List UInt8}
    {more : Stream' UInt8} (h : Trace ConsoleStep c events d) (hskip : 13 ∉ skip)
    (htyped : typed skip = []) (hinput : c.input = skip ++ₛ (text.flatMap expand ++ₛ more)) :
    answers events <+: (lines text).map typed ∨ (lines text).map typed <+: answers events := by
  induction h generalizing skip text with
  | nil c => exact .inl (List.nil_prefix)
  | @cons c c' d e events hstep _ ih =>
    cases hstep with
    | writeNothing => exact ih hskip htyped hinput
    | write bytes => exact ih hskip htyped hinput
    | readNothing => exact ih hskip htyped hinput
    | @read line bytes rest hline hread hfit =>
      by_cases hmem : 13 ∈ text
      swap
      · rw [lines_of_notMem hmem]
        exact .inr List.nil_prefix
      obtain ⟨first, next, rfl, hfirst⟩ := List.eq_append_cons_of_mem hmem
      have hnot : 13 ∉ skip ++ first := fun h => (List.mem_append.mp h).elim hskip hfirst
      have hsame : line ++ₛ Stream'.cons 13 rest = (skip ++ first) ++ₛ
          Stream'.cons 13 ([10] ++ₛ (next.flatMap expand ++ₛ more)) := by
        rw [← hread, hinput, List.flatMap_append, flatMap_expand hfirst, List.flatMap_cons]
        simp [expand, Stream'.cons_append_stream]
      obtain ⟨rfl, rfl⟩ := first_unique hline hnot hsame
      have hfeed : (13 : UInt8) ∉ [10] := by decide
      have hrest : answers events <+: (lines next).map typed ∨
          (lines next).map typed <+: answers events := ih hfeed (by decide) rfl
      have hanswer : answers (.read (some bytes) (some (filled bytes (typed (skip ++ first)))) ::
          events) = typed first :: answers events := by
        simp only [answers, List.filterMap_cons, cstr_filled]
        rw [typed, List.filter_append, ← typed, ← typed, htyped, List.nil_append]
      rw [hanswer, lines_append hfirst, List.map_cons, List.cons_prefix_cons,
        List.cons_prefix_cons]
      exact hrest.imp (⟨rfl, ·⟩) (⟨rfl, ·⟩)

private theorem data_eq {input : Stream' UInt8} {events : List SerialEvent} {s : Serial}
    (h : Trace SerialStep (.boot input) events s) : s.data = (written events).flatMap expand := by
  rcases events with _ | ⟨e, events⟩
  · cases h
    rfl
  · obtain ⟨_, c, hc, rfl⟩ := Serial.trace_boot h
    have hsent := sent_eq hc
    rw [List.nil_append] at hsent
    change (c.sent.map (Serial.PORT, ·)).map Prod.snd = _
    rw [List.map_map, ← hsent]
    exact List.map_id' _

/-- Where one line sends what another one gets, the reads of the other answer the lines that were
written, in their order and one each; what is below `a` gets lost. -/
theorem lines_received {input input' more : Stream' UInt8} {events events' : List SerialEvent}
    {s s' : Serial} (h : Trace SerialStep (.boot input) events s)
    (h' : Trace SerialStep (.boot input') events' s') (hline : input'.tail = s.data ++ₛ more) :
    answers events' <+: (lines (written events)).map typed ∨
      (lines (written events)).map typed <+: answers events' := by
  rcases events' with _ | ⟨e, events'⟩
  · exact .inl List.nil_prefix
  obtain ⟨_, d, hd, _⟩ := Serial.trace_boot h'
  have hinput : input'.tail = [] ++ₛ ((written events).flatMap expand ++ₛ more) := by
    rw [Stream'.nil_append_stream, ← data_eq h]
    exact hline
  exact answers_eq hd List.not_mem_nil rfl hinput

private theorem first_call {rest : Stream' UInt8} {e : SerialEvent} {c : Console}
    (h : ConsoleStep ⟨[], rest⟩ e c) :
    Trace SerialStep (.boot (Stream'.cons 0xAE rest)) [e] (.ready c) :=
  Trace.singleton_iff.mpr
    (Serial.step_boot_iff.mpr ⟨rfl, Serial.step_ready_iff.mpr ⟨c, h, rfl⟩⟩)

/-- `ab` is sent on a line of its own, and read. -/
theorem lines_received_ab : ∃ s s', Trace SerialStep (.boot (Stream'.cons 0xAE (Stream'.const 0)))
      [.write (some [97, 98, 13])] s ∧
    Trace SerialStep (.boot (Stream'.cons 0xAE (s.data ++ₛ Stream'.const 0)))
      [.read (some [0, 0, 0, 0]) (some [97, 98, 0, 0])] s' ∧
    (answers [.read (some [0, 0, 0, 0]) (some [97, 98, 0, 0])] <+:
        (lines (written [.write (some [97, 98, 13])])).map typed ∨
      (lines (written [.write (some [97, 98, 13])])).map typed <+:
        answers [.read (some [0, 0, 0, 0]) (some [97, 98, 0, 0])]) := by
  have hsend := first_call (.write (c := ⟨[], Stream'.const 0⟩) [97, 98, 13])
  have hread : ConsoleStep ⟨[], [97, 98, 13, 10] ++ₛ Stream'.const 0⟩
      (.read (some [0, 0, 0, 0]) (some (filled [0, 0, 0, 0] (typed [97, 98]))))
      ⟨[], [10] ++ₛ Stream'.const 0⟩ :=
    .read (by decide) rfl (by decide)
  have hget := first_call hread
  exact ⟨_, _, hsend, hget, lines_received hsend hget rfl⟩

end Zka.HALKit
