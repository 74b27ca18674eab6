import Zka.Framework.Outcome
import Zka.NewKit.Text

/-!
# JSON reader

`JsonStreamReader::In` copies the keys and the values of an object, or the first value of an
array, into two buffers of a fixed size.  An index behind the end of a buffer is a fault.
-/

namespace Zka.NewKit

open Outcome

def kMaxJsonPath : Nat := 4096

def objectStart : UInt8 := 123

def objectEnd : UInt8 := 125

def arrayStart : UInt8 := 91

def arrayEnd : UInt8 := 93

def comma : UInt8 := 44

def colon : UInt8 := 58

def isLineEnd (c : UInt8) : Bool := c == 13 || c == 10

/-- A buffer and the number of its bytes that are passed. -/
structure JsonField where
  data : Nat → UInt8
  len : Nat

namespace JsonField

def put (f : JsonField) (c : UInt8) : Outcome CFault JsonField :=
  if f.len < kMaxJsonPath then .done ⟨Function.update f.data f.len c, f.len + 1⟩
  else .fault .indexOutOfRange

def skip (f : JsonField) : JsonField := { f with len := f.len + 1 }

end JsonField

structure JsonScan where
  key : JsonField
  value : JsonField
  probeValue : Bool

/-- One character of the text. -/
def jsonStep (startVal endVal : UInt8) (s : JsonScan) (c : UInt8) : Outcome CFault JsonScan :=
  if isLineEnd c then .done s
  else if s.probeValue then
    if c = endVal ∨ c = comma then .done { s with value := s.value.skip, probeValue := false }
    else s.value.put c >>= fun value => .done { s with value := value }
  else if startVal = arrayStart then .done s
  else if c = colon then s.key.put 0 >>= fun key => .done { s with key := key, probeValue := true }
  else s.key.put c >>= fun key => .done { s with key := key }

def jsonLoop (startVal endVal : UInt8) : List UInt8 → JsonScan → Outcome CFault JsonScan
  | [], s => .done s
  | c :: rest, s => jsonStep startVal endVal s c >>= jsonLoop startVal endVal rest

/-- The contents of the two buffers. -/
structure Json where
  fKey : Nat → UInt8
  fValue : Nat → UInt8

def jsonRead (startVal endVal : UInt8) (probeValue : Bool) (fullArray : List UInt8) :
    Outcome CFault (Option Json) :=
  jsonLoop startVal endVal ((fullArray.take (rtStringLen fullArray)).drop 1)
    ⟨⟨fun _ => 0, 0⟩, ⟨fun _ => 0, 0⟩, probeValue⟩ >>= fun s =>
  s.value.put 0 >>= fun value => .done (some ⟨s.key.data, value.data⟩)

/-- `JsonStreamReader::In`; what is neither an object nor an array is the null value. -/
def jsonIn (fullArray : List UInt8) : Outcome CFault (Option Json) :=
  if fullArray.getD 0 0 = objectStart then jsonRead objectStart objectEnd false fullArray
  else if fullArray.getD 0 0 = arrayStart then jsonRead arrayStart arrayEnd true fullArray
  else .done none

/-! ## What is read -/

/-- What a character adds to the keys and to the values, a zero for each end, and where the text
goes on. -/
def jsonRole (startVal endVal : UInt8) (probeValue : Bool) (c : UInt8) :
    List UInt8 × List UInt8 × Bool :=
  if isLineEnd c then ([], [], probeValue)
  else if probeValue then
    if c = endVal ∨ c = comma then ([], [0], false) else ([], [c], true)
  else if startVal = arrayStart then ([], [], false)
  else if c = colon then ([0], [], true)
  else ([c], [], false)

/-- The bytes of the keys and those of the values. -/
def jsonFields (startVal endVal : UInt8) : Bool → List UInt8 → List UInt8 × List UInt8
  | _, [] => ([], [])
  | probeValue, c :: rest =>
    let role := jsonRole startVal endVal probeValue c
    let fields := jsonFields startVal endVal role.2.2 rest
    (role.1 ++ fields.1, role.2.1 ++ fields.2)

/-- A buffer that begins with the bytes and is clear behind them. -/
def JsonField.of (bytes : List UInt8) : JsonField := ⟨fun i => bytes.getD i 0, bytes.length⟩

namespace JsonField

variable (bytes : List UInt8)

theorem of_append (c : UInt8) :
    of (bytes ++ [c]) = ⟨Function.update (of bytes).data bytes.length c, bytes.length + 1⟩ := by
  have hdata : (fun i => (bytes ++ [c]).getD i 0) =
      Function.update (of bytes).data bytes.length c := by
    funext i
    rcases Nat.lt_trichotomy i bytes.length with hlt | rfl | hgt
    · rw [Function.update_of_ne hlt.ne]
      exact List.getD_append _ _ _ _ hlt
    · simp
    · rw [Function.update_of_ne hgt.ne', of]
      dsimp only
      rw [List.getD_eq_default _ _ hgt.le, List.getD_eq_default _ _ (by simpa using hgt)]
  rw [of, hdata, List.length_append, List.length_singleton]

theorem put_of (c : UInt8) : (of bytes).put c =
    if bytes.length < kMaxJsonPath then .done (of (bytes ++ [c])) else .fault .indexOutOfRange := by
  rw [of_append]
  rfl

theorem put_of_lt {bytes : List UInt8} (h : bytes.length < kMaxJsonPath) (c : UInt8) :
    (of bytes).put c = .done (of (bytes ++ [c])) := by
  rw [put_of, if_pos h]

theorem put_of_eq_done {bytes : List UInt8} {c : UInt8} {f : JsonField}
    (h : (of bytes).put c = .done f) : bytes.length < kMaxJsonPath ∧ f = of (bytes ++ [c]) := by
  rw [put_of] at h
  split at h
  next hlt => exact ⟨hlt, (done.inj h).symm⟩
  next => cases h

/-- The byte that is passed over is clear. -/
theorem skip_of : (of bytes).skip = of (bytes ++ [0]) := by
  have hclear : (of bytes).data bytes.length = 0 := List.getD_eq_default _ _ (Nat.le_refl _)
  rw [of_append, ← hclear, Function.update_eq_self]
  rfl

end JsonField

/-- What a step does with the buffers is told by the role of the character. -/
theorem jsonStep_cases (startVal endVal : UInt8) (key value : JsonField) (probeValue : Bool)
    (c : UInt8) :
    jsonRole startVal endVal probeValue c = ([], [], probeValue) ∧
      jsonStep startVal endVal ⟨key, value, probeValue⟩ c = .done ⟨key, value, probeValue⟩ ∨
    jsonRole startVal endVal probeValue c = ([], [0], false) ∧
      jsonStep startVal endVal ⟨key, value, probeValue⟩ c = .done ⟨key, value.skip, false⟩ ∨
    (∃ b next, jsonRole startVal endVal probeValue c = ([], [b], next) ∧
      jsonStep startVal endVal ⟨key, value, probeValue⟩ c =
        value.put b >>= fun value => .done ⟨key, value, next⟩) ∨
    ∃ b next, jsonRole startVal endVal probeValue c = ([b], [], next) ∧
      jsonStep startVal endVal ⟨key, value, probeValue⟩ c =
        key.put b >>= fun key => .done ⟨key, value, next⟩ := by
  unfold jsonStep jsonRole
  by_cases hline : isLineEnd c = true
  · rw [if_pos hline, if_pos hline]
    exact Or.inl ⟨rfl, rfl⟩
  rw [if_neg hline, if_neg hline]
  cases probeValue with
  | true =>
    by_cases hend : c = endVal ∨ c = comma
    · exact Or.inr (Or.inl ⟨if_pos hend, if_pos hend⟩)
    · exact Or.inr (Or.inr (Or.inl ⟨c, true, if_neg hend, if_neg hend⟩))
  | false =>
    by_cases harray : startVal = arrayStart
    · exact Or.inl ⟨if_pos harray, if_pos harray⟩
    · by_cases hcolon : c = colon
      · exact Or.inr (Or.inr (Or.inr ⟨0, true, (if_neg harray).trans (if_pos hcolon),
          (if_neg harray).trans (if_pos hcolon)⟩))
      · exact Or.inr (Or.inr (Or.inr ⟨c, false, (if_neg harray).trans (if_neg hcolon),
          (if_neg harray).trans (if_neg hcolon)⟩))

section Loop

variable {startVal endVal : UInt8} {probeValue : Bool} {keys values : List UInt8}

/-- One character in buffers with room for what it adds. -/
theorem jsonStep_of {c : UInt8}
    (hk : (keys ++ (jsonRole startVal endVal probeValue c).1).length ≤ kMaxJsonPath)
    (hv : (values ++ (jsonRole startVal endVal probeValue c).2.1).length ≤ kMaxJsonPath) :
    jsonStep startVal endVal ⟨.of keys, .of values, probeValue⟩ c =
      .done ⟨.of (keys ++ (jsonRole startVal endVal probeValue c).1),
        .of (values ++ (jsonRole startVal endVal probeValue c).2.1),
        (jsonRole startVal endVal probeValue c).2.2⟩ := by
  rw [List.length_append] at hk hv
  rcases jsonStep_cases startVal endVal (.of keys) (.of values) probeValue c with
    ⟨hrole, hstep⟩ | ⟨hrole, hstep⟩ | ⟨b, next, hrole, hstep⟩ | ⟨b, next, hrole, hstep⟩
  · rw [hstep, hrole, List.append_nil, List.append_nil]
  · rw [hstep, hrole, JsonField.skip_of, List.append_nil]
  · rw [hrole] at hv ⊢
    rw [hstep, JsonField.put_of_lt hv, List.append_nil]
    rfl
  · rw [hrole] at hk ⊢
    rw [hstep, JsonField.put_of_lt hk, List.append_nil]
    rfl

/-- A character that does not lead out of the buffers. -/
theorem jsonStep_eq_done {c : UInt8} {s : JsonScan} (hkeys : keys.length ≤ kMaxJsonPath)
    (h : jsonStep startVal endVal ⟨.of keys, .of values, probeValue⟩ c = .done s) :
    (keys ++ (jsonRole startVal endVal probeValue c).1).length ≤ kMaxJsonPath ∧
      s = ⟨.of (keys ++ (jsonRole startVal endVal probeValue c).1),
        .of (values ++ (jsonRole startVal endVal probeValue c).2.1),
        (jsonRole startVal endVal probeValue c).2.2⟩ := by
  rcases jsonStep_cases startVal endVal (.of keys) (.of values) probeValue c with
    ⟨hrole, hstep⟩ | ⟨hrole, hstep⟩ | ⟨b, next, hrole, hstep⟩ | ⟨b, next, hrole, hstep⟩
  · rw [hrole, List.append_nil, List.append_nil]
    exact ⟨hkeys, (done.inj (hstep.symm.trans h)).symm⟩
  · rw [hstep, JsonField.skip_of] at h
    rw [hrole, List.append_nil]
    exact ⟨hkeys, (done.inj h).symm⟩
  · rw [hstep] at h
    obtain ⟨f, hput, hret⟩ := bind_eq_done.mp h
    obtain ⟨_, rfl⟩ := JsonField.put_of_eq_done hput
    rw [hrole, List.append_nil]
    exact ⟨hkeys, (done.inj hret).symm⟩
  · rw [hstep] at h
    obtain ⟨f, hput, hret⟩ := bind_eq_done.mp h
    obtain ⟨hlt, rfl⟩ := JsonField.put_of_eq_done hput
    rw [hrole, List.append_nil, List.length_append]
    exact ⟨hlt, (done.inj hret).symm⟩

/-- A text in buffers with room for all of it. -/
theorem jsonLoop_of {text : List UInt8}
    (hk : (keys ++ (jsonFields startVal endVal probeValue text).1).length ≤ kMaxJsonPath)
    (hv : (values ++ (jsonFields startVal endVal probeValue text).2).length ≤ kMaxJsonPath) :
    ∃ last, jsonLoop startVal endVal text ⟨.of keys, .of values, probeValue⟩ =
      .done ⟨.of (keys ++ (jsonFields startVal endVal probeValue text).1),
        .of (values ++ (jsonFields startVal endVal probeValue text).2), last⟩ := by
  induction text generalizing keys values probeValue with
  | nil =>
    rw [jsonFields, List.append_nil, List.append_nil]
    exact ⟨probeValue, rfl⟩
  | cons c rest ih =>
    rw [jsonFields] at hk hv ⊢
    dsimp only at hk hv ⊢
    rw [← List.append_assoc] at hk hv
    have hstep := jsonStep_of ((List.prefix_append _ _).length_le.trans hk)
      ((List.prefix_append _ _).length_le.trans hv)
    rw [jsonLoop, hstep, done_bind, ← List.append_assoc, ← List.append_assoc]
    exact ih hk hv

theorem jsonLoop_eq_done {text : List UInt8} {s : JsonScan} (hkeys : keys.length ≤ kMaxJsonPath)
    (h : jsonLoop startVal endVal text ⟨.of keys, .of values, probeValue⟩ = .done s) :
    (keys ++ (jsonFields startVal endVal probeValue text).1).length ≤ kMaxJsonPath ∧
      s.value = .of (values ++ (jsonFields startVal endVal probeValue text).2) := by
  induction text generalizing keys values probeValue with
  | nil =>
    cases h
    rw [jsonFields, List.append_nil, List.append_nil]
    exact ⟨hkeys, rfl⟩
  | cons c rest ih =>
    rw [jsonLoop, bind_eq_done] at h
    obtain ⟨next, hstep, hloop⟩ := h
    obtain ⟨hroom, rfl⟩ := jsonStep_eq_done hkeys hstep
    rw [jsonFields]
    dsimp only
    rw [← List.append_assoc, ← List.append_assoc]
    exact ih hroom hloop

end Loop

/-! ## Bounds -/

/-- The fields of an object or of an array. -/
def objectFields (text : List UInt8) : List UInt8 × List UInt8 :=
  jsonFields objectStart objectEnd false text.tail

def arrayFields (text : List UInt8) : List UInt8 × List UInt8 :=
  jsonFields arrayStart arrayEnd true text.tail

/-- There is room for the keys and for the values, with a terminator behind the values. -/
def FitsBuffers (fields : List UInt8 × List UInt8) : Prop :=
  fields.1.length ≤ kMaxJsonPath ∧ fields.2.length < kMaxJsonPath

private theorem text_eq {fullArray : List UInt8} {c : UInt8} (hc : c ≠ 0)
    (h : fullArray.getD 0 0 = c) :
    (fullArray.take (rtStringLen fullArray)).drop 1 = (cstr fullArray).tail := by
  have hne : cstr fullArray ≠ [] := by rwa [Ne, cstr_eq_nil_iff, h]
  rw [rtStringLen_eq hne, ← List.prefix_iff_eq_take.mp (cstr_isStart fullArray), List.drop_one]

private theorem jsonRead_of {startVal endVal : UInt8} {probeValue : Bool} {fullArray : List UInt8}
    {text : List UInt8} (htext : (fullArray.take (rtStringLen fullArray)).drop 1 = text)
    (h : FitsBuffers (jsonFields startVal endVal probeValue text)) :
    jsonRead startVal endVal probeValue fullArray =
      .done (some ⟨(JsonField.of (jsonFields startVal endVal probeValue text).1).data,
        (JsonField.of ((jsonFields startVal endVal probeValue text).2 ++ [0])).data⟩) := by
  obtain ⟨last, hloop⟩ := @jsonLoop_of startVal endVal probeValue [] [] text h.1 h.2.le
  rw [jsonRead, htext, show (⟨fun _ => 0, 0⟩ : JsonField) = .of [] from rfl, hloop, done_bind]
  dsimp only [List.nil_append]
  rw [JsonField.put_of_lt h.2]
  rfl

private theorem fits_of_jsonRead {startVal endVal : UInt8} {probeValue : Bool}
    {fullArray : List UInt8} {text : List UInt8} {json : Option Json}
    (htext : (fullArray.take (rtStringLen fullArray)).drop 1 = text)
    (h : jsonRead startVal endVal probeValue fullArray = .done json) :
    FitsBuffers (jsonFields startVal endVal probeValue text) := by
  rw [jsonRead, htext, show (⟨fun _ => 0, 0⟩ : JsonField) = .of [] from rfl] at h
  obtain ⟨s, hloop, hlast⟩ := bind_eq_done.mp h
  obtain ⟨value, hput, _⟩ := bind_eq_done.mp hlast
  obtain ⟨hkeys, hvalue⟩ := jsonLoop_eq_done (Nat.zero_le _) hloop
  rw [hvalue] at hput
  exact ⟨hkeys, (JsonField.put_of_eq_done hput).1⟩

private theorem read_iff {startVal endVal : UInt8} {probeValue : Bool} {fullArray : List UInt8}
    (hstart : startVal ≠ 0) (h : fullArray.getD 0 0 = startVal) :
    (∃ json, jsonRead startVal endVal probeValue fullArray = .done json) ↔
      FitsBuffers (jsonFields startVal endVal probeValue (cstr fullArray).tail) := by
  have htext := text_eq hstart h
  constructor
  · intro hread
    obtain ⟨json, hdone⟩ := hread
    exact fits_of_jsonRead htext hdone
  · exact fun hfits => ⟨_, jsonRead_of htext hfits⟩

/-- No index that is written is out of range, exactly if what is read fits the buffers. -/
theorem jsonIn_returns_iff (fullArray : List UInt8) :
    (∃ json, jsonIn fullArray = .done json) ↔
      (fullArray.getD 0 0 = objectStart → FitsBuffers (objectFields (cstr fullArray))) ∧
      (fullArray.getD 0 0 = arrayStart → FitsBuffers (arrayFields (cstr fullArray))) := by
  unfold jsonIn
  by_cases hobject : fullArray.getD 0 0 = objectStart
  · have harray : fullArray.getD 0 0 ≠ arrayStart := by rw [hobject]; decide
    rw [if_pos hobject, read_iff (by decide) hobject]
    exact ⟨fun h => ⟨fun _ => h, fun h' => absurd h' harray⟩, fun h => h.1 hobject⟩
  · rw [if_neg hobject]
    by_cases harray : fullArray.getD 0 0 = arrayStart
    · rw [if_pos harray, read_iff (by decide) harray]
      exact ⟨fun h => ⟨fun h' => absurd h' hobject, fun _ => h⟩, fun h => h.2 harray⟩
    · rw [if_neg harray]
      exact iff_of_true ⟨none, rfl⟩
        ⟨fun h => absurd h hobject, fun h => absurd h harray⟩

private theorem jsonRole_key {c : UInt8} (hline : isLineEnd c = false) (hcolon : c ≠ colon) :
    jsonRole objectStart objectEnd false c = ([c], [], false) := by
  have hne : objectStart ≠ arrayStart := by decide
  simp [jsonRole, hline, hcolon, hne]

/-- A text without an end of a key is one key. -/
theorem jsonFields_key {text : List UInt8} (hline : ∀ c ∈ text, isLineEnd c = false)
    (hcolon : colon ∉ text) : jsonFields objectStart objectEnd false text = (text, []) := by
  induction text with
  | nil => rfl
  | cons c rest ih =>
    have hc : c ≠ colon := fun h => hcolon (by simp [h])
    rw [jsonFields, jsonRole_key (hline c List.mem_cons_self) hc]
    dsimp only
    rw [ih (fun c hc => hline c (List.mem_cons_of_mem _ hc))
      fun h => hcolon (List.mem_cons_of_mem _ h)]
    rfl

/-- An object that is nothing but one letter, 4097 times. -/
theorem jsonIn_overruns :
    ¬ ∃ json, jsonIn (objectStart :: List.replicate 4097 97) = .done json := by
  intro h
  obtain ⟨json, hdone⟩ := h
  have hcstr : cstr (objectStart :: List.replicate 4097 97) =
      objectStart :: List.replicate 4097 97 := by
    apply cstr_of_notMem
    rw [List.mem_cons, List.mem_replicate]
    simp [objectStart]
  rw [jsonIn, if_pos List.getD_cons_zero] at hdone
  have hfits := fits_of_jsonRead (text_eq (by decide) List.getD_cons_zero) hdone
  rw [hcstr, List.tail_cons, jsonFields_key] at hfits
  · have hlen := hfits.1
    rw [List.length_replicate] at hlen
    exact absurd hlen (by decide)
  · intro c hc
    rw [List.eq_of_mem_replicate hc]
    decide
  · intro hmem
    exact absurd (List.eq_of_mem_replicate hmem) (by decide)

/-! ## Objects -/

/-- A key and a value without terminators and line ends, the key without a colon and the value
without what ends it. -/
structure CleanPair (p : List UInt8 × List UInt8) : Prop where
  key : ∀ c ∈ p.1, c ≠ 0 ∧ isLineEnd c = false ∧ c ≠ colon
  value : ∀ c ∈ p.2, c ≠ 0 ∧ isLineEnd c = false ∧ c ≠ comma ∧ c ≠ objectEnd

def memberText (p : List UInt8 × List UInt8) : List UInt8 := p.1 ++ colon :: p.2

def objectText (pairs : List (List UInt8 × List UInt8)) : List UInt8 :=
  objectStart :: ([comma].intercalate (pairs.map memberText) ++ [objectEnd])

/-- The bytes that a buffer of keys, or of values, is to begin with. -/
def terminated (texts : List (List UInt8)) : List UInt8 := texts.flatMap fun text => text ++ [0]

def Begins (buffer : Nat → UInt8) (bytes : List UInt8) : Prop :=
  ∀ i (h : i < bytes.length), buffer i = bytes[i]

section Fields

variable {startVal endVal : UInt8} {probeValue : Bool} {text : List UInt8}

/-- Line ends are not read at all. -/
theorem jsonFields_filter (startVal endVal : UInt8) (probeValue : Bool) (text : List UInt8) :
    jsonFields startVal endVal probeValue (text.filter fun c => !isLineEnd c) =
      jsonFields startVal endVal probeValue text := by
  induction text generalizing probeValue with
  | nil => rfl
  | cons c rest ih =>
    cases hline : isLineEnd c with
    | true =>
      rw [List.filter_cons_of_neg (by simp [hline]), ih, jsonFields, jsonRole, if_pos hline]
      rfl
    | false =>
      rw [List.filter_cons_of_pos (by simp [hline]), jsonFields, jsonFields, ih]

/-- A character adds one byte at most. -/
theorem jsonFields_length (startVal endVal : UInt8) (probeValue : Bool) (text : List UInt8) :
    (jsonFields startVal endVal probeValue text).1.length +
      (jsonFields startVal endVal probeValue text).2.length ≤ text.length := by
  induction text generalizing probeValue with
  | nil => exact Nat.le_refl _
  | cons c rest ih =>
    have hrole : (jsonRole startVal endVal probeValue c).1.length +
        (jsonRole startVal endVal probeValue c).2.1.length ≤ 1 := by
      unfold jsonRole
      split_ifs <;> simp
    have hrest := ih (jsonRole startVal endVal probeValue c).2.2
    rw [jsonFields]
    simp only [List.length_append, List.length_cons]
    omega

end Fields

private theorem fields_key {key rest : List UInt8}
    (hkey : ∀ c ∈ key, c ≠ 0 ∧ isLineEnd c = false ∧ c ≠ colon) :
    jsonFields objectStart objectEnd false (key ++ colon :: rest) =
      (key ++ 0 :: (jsonFields objectStart objectEnd true rest).1,
        (jsonFields objectStart objectEnd true rest).2) := by
  induction key with
  | nil => rfl
  | cons c key ih =>
    obtain ⟨⟨_, hline, hcolon⟩, htail⟩ := List.forall_mem_cons.mp hkey
    rw [List.cons_append, jsonFields, jsonRole_key hline hcolon, ih htail]
    rfl

private theorem fields_value {value rest : List UInt8} {c : UInt8}
    (hvalue : ∀ c ∈ value, c ≠ 0 ∧ isLineEnd c = false ∧ c ≠ comma ∧ c ≠ objectEnd)
    (hc : c = comma ∨ c = objectEnd) :
    jsonFields objectStart objectEnd true (value ++ c :: rest) =
      ((jsonFields objectStart objectEnd false rest).1,
        value ++ 0 :: (jsonFields objectStart objectEnd false rest).2) := by
  induction value with
  | nil =>
    rcases hc with rfl | rfl <;> rfl
  | cons b value ih =>
    obtain ⟨⟨_, hline, hcomma, hend⟩, htail⟩ := List.forall_mem_cons.mp hvalue
    have hrole : jsonRole objectStart objectEnd true b = ([], [b], true) := by
      simp [jsonRole, hline, hcomma, hend]
    rw [List.cons_append, jsonFields, hrole, ih htail]
    rfl

/-- The members of an object are read one after the other. -/
theorem objectFields_text {pairs : List (List UInt8 × List UInt8)} (hne : pairs ≠ [])
    (hclean : ∀ p ∈ pairs, CleanPair p) :
    objectFields (objectText pairs) =
      (terminated (pairs.map Prod.fst), terminated (pairs.map Prod.snd)) := by
  rw [objectFields, objectText, List.tail_cons]
  induction pairs with
  | nil => exact absurd rfl hne
  | cons p rest ih =>
    obtain ⟨hp, hrest⟩ := List.forall_mem_cons.mp hclean
    cases rest with
    | nil =>
      simp only [List.map_cons, List.map_nil, List.intercalate_singleton, memberText,
        List.append_assoc, List.cons_append]
      rw [fields_key hp.key, fields_value hp.value (Or.inr rfl)]
      simp [jsonFields, terminated]
    | cons q rest =>
      have hrec := ih (List.cons_ne_nil q rest) hrest
      simp only [List.map_cons, List.intercalate_cons_cons, memberText, List.append_assoc,
        List.cons_append, List.nil_append] at hrec ⊢
      rw [fields_key hp.key, fields_value hp.value (Or.inl rfl), hrec]
      simp [terminated]

/-- What stands behind the bytes does not matter. -/
theorem begins_of (bytes rest : List UInt8) : Begins (JsonField.of (bytes ++ rest)).data bytes := by
  intro i hi
  rw [JsonField.of]
  dsimp only
  rw [List.getD_append _ _ _ _ hi, List.getD_eq_getElem _ _ hi]

end Zka.NewKit
