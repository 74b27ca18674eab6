import Zka.KernelKit.FileMgr

/-!
# Symbols of a PEF container

`FindSymbol` has the container at hand but compares with the header in front of a fork that has
the name of the symbol, and its loop over the command headers never goes on to the next one.
-/

namespace Zka.KernelKit.PEFCodeMgr

open NewKit FSKit Outcome

/-! ## The container -/

def kPefNameLen : Nat := 255

def kPefArchAMD64 : UInt32 := 1

def kPefCode : Int32 := 0xC

def kPefData : Int32 := 0xD

def kPefZero : Int32 := 0xE

structure PEFContainer where
  magic : Bytes 5
  linker : UInt32
  version : UInt32
  kind : UInt32
  abi : UInt32
  cpu : UInt32
  subCpu : UInt32
  start : UInt64
  hdrSz : SizeT
  count : SizeT

structure PEFCommandHeader where
  name : Bytes 255
  cpu : UInt32
  subCpu : UInt32
  flags : UInt32
  kind : UInt16
  offset : UInt64
  size : SizeT

/-- `sizeof(PEFContainer)`. -/
def sizeofContainer : Nat := 53

/-- `sizeof(PEFCommandHeader)`. -/
def sizeofCommandHeader : Nat := 285

open Layout in
def containerLayout : Layout PEFContainer 53 :=
  ((bytes 5).append <| u32.append <| u32.append <| u32.append <| u32.append <| u32.append <|
    u32.append <| u64.append <| u64.append u64).cast rfl |>.map
  { toFun c := (c.magic, c.linker, c.version, c.kind, c.abi, c.cpu, c.subCpu, c.start, c.hdrSz,
      c.count)
    invFun := fun (a, b, c, d, e, f, g, h, i, j) => ⟨a, b, c, d, e, f, g, h, i, j⟩
    left_inv _ := rfl
    right_inv _ := rfl }

open Layout in
def headerLayout : Layout PEFCommandHeader 285 :=
  ((bytes 255).append <| u32.append <| u32.append <| u32.append <| u16.append <|
    u64.append u64).cast rfl |>.map
  { toFun h := (h.name, h.cpu, h.subCpu, h.flags, h.kind, h.offset, h.size)
    invFun := fun (a, b, c, d, e, f, g) => ⟨a, b, c, d, e, f, g⟩
    left_inv _ := rfl
    right_inv _ := rfl }

def PEFCommandHeader.nameChars (h : PEFCommandHeader) : List UInt8 := List.ofFn h.name

/-- The container in front of a blob. -/
def pefContainer (blob : Store) : PEFContainer := blob.get containerLayout 0

def commandHeader (blob : Store) (place : Nat) : PEFCommandHeader := blob.get headerLayout place

/-- The place of a command header; the first one starts after the container. -/
def headerPlace (index : Nat) : Nat := sizeofContainer + index * sizeofCommandHeader

def copyBytes (blob : Store) (place size : Nat) : List UInt8 := List.ofFn (blob.read place size)

/-! ## The loader -/

/-- The file is what it returns for the name of a fork; a null pointer is `none`. -/
structure PEFLoader where
  fFile : List UInt8 → Option Store
  fCachedBlob : Option Store
  fFatBinary : Bool
  fBad : Bool

/-- `cContainerKinds` by the kind it stands for: `".code64"`, `".data64"` and `".zero64"`. -/
def containerKind (kind : Int32) : Option (List UInt8) :=
  if kind = kPefCode then some [46, 99, 111, 100, 101, 54, 52]
  else if kind = kPefData then some [46, 100, 97, 116, 97, 54, 52]
  else if kind = kPefZero then some [46, 122, 101, 114, 111, 54, 52]
  else none

/-- A space becomes `cMangleCharacter`, the character `$`. -/
def mangleChar (c : UInt8) : UInt8 := if c = 32 then 36 else c

/-- The loop over the name changes the caller's characters; none of them becomes a terminator, so
the length stays. -/
def mangle (name : List UInt8) : List UInt8 :=
  name.mapIdx fun i c => if i < rtStringLenMax name kPefNameLen then mangleChar c else c

/-- The kind, and the name appended to it. -/
def mangledSymbol (kindName name : List UInt8) : List UInt8 :=
  kindName ++ name.take (rtStringLen name)

section FindSymbol

variable (platform : UInt32) (fFatBinary : Bool) (blob : Option Store) (symbol : List UInt8)
  (kind : Int32)

/-- The loop over `Count` headers; every pass looks at the first header of the fork. -/
def findHeader : Nat → Outcome CFault (Option (List UInt8))
  | 0 => .done none
  | count + 1 =>
    match blob with
    | none => .fault .nullDereference
    | some fork =>
      let containerHeader := commandHeader fork 0
      if equals containerHeader.nameChars symbol = true then
        if containerHeader.kind.toUInt32.toInt32 = kind then
          if containerHeader.cpu ≠ platform ∧ fFatBinary = false then .done none
          else .done (some (copyBytes fork sizeofCommandHeader containerHeader.size.toNat))
        else findHeader count
      else findHeader count

end FindSymbol

/-- The returned copy, and the caller's name as it is left. -/
structure SymbolReply where
  symbol : Option (List UInt8)
  name : Option (List UInt8)

/-- `FindSymbol` with what `ldr_get_platform` is on the platform. -/
def findSymbol (platform : UInt32) (loader : PEFLoader) (name : Option (List UInt8))
    (kind : Int32) : Outcome CFault SymbolReply :=
  match loader.fCachedBlob, name with
  | none, name => .done ⟨none, name⟩
  | some _, none => .done ⟨none, none⟩
  | some cachedBlob, some name =>
    if loader.fBad then .done ⟨none, some name⟩
    else
      let container := pefContainer cachedBlob
      let blob := loader.fFile name
      match containerKind kind with
      | none => .done ⟨none, some name⟩
      | some kindName =>
        let name := mangle name
        findHeader platform loader.fFatBinary blob (mangledSymbol kindName name) kind
          container.count.toNat >>= fun symbol => .done ⟨symbol, some name⟩

/-! ## What a lookup should find -/

/-- The header is the symbol's: the section and the name, the kind and the platform. -/
def IsSymbol (platform : UInt32) (fFatBinary : Bool) (name : List UInt8) (kind : Int32)
    (h : PEFCommandHeader) : Prop :=
  (∃ kindName, containerKind kind = some kindName ∧
      cstr h.nameChars = kindName ++ (cstr name).map mangleChar) ∧
    h.kind.toUInt32.toInt32 = kind ∧ (h.cpu = platform ∨ fFatBinary = true)

/-- The content bytes of a header of the container. -/
def headerContent (cachedBlob : Store) (h : PEFCommandHeader) : List UInt8 :=
  copyBytes cachedBlob h.offset.toNat h.size.toNat

/-- One of the headers of the container is the symbol's, and its content is `content`. -/
def HasSymbol (platform : UInt32) (fFatBinary : Bool) (cachedBlob : Store) (name : List UInt8)
    (kind : Int32) (content : List UInt8) : Prop :=
  ∃ index, index < (pefContainer cachedBlob).count.toNat ∧
    IsSymbol platform fFatBinary name kind (commandHeader cachedBlob (headerPlace index)) ∧
    headerContent cachedBlob (commandHeader cachedBlob (headerPlace index)) = content

/-- The lookup returns, with the content of the symbol or with null if the container has no such
symbol, and leaves the name as it was. -/
def FindsSymbol (platform : UInt32) (fFile : List UInt8 → Option Store) (cachedBlob : Store)
    (fFatBinary : Bool) (name : List UInt8) (kind : Int32) : Prop :=
  ∃ symbol, findSymbol platform ⟨fFile, some cachedBlob, fFatBinary, false⟩ (some name) kind =
      .done ⟨symbol, some name⟩ ∧
    ((∃ content, symbol = some content ∧
        HasSymbol platform fFatBinary cachedBlob name kind content) ∨
      (symbol = none ∧ ∀ content, ¬ HasSymbol platform fFatBinary cachedBlob name kind content))

/-- No space in the part of the name that is mangled. -/
def Unspaced (name : List UInt8) : Prop :=
  ∀ i, i < rtStringLenMax name kPefNameLen → name[i]? ≠ some 32

/-- The fork begins with a header of the symbol exactly if the container has one, and the same
bytes come behind it. -/
def ForkAgrees (platform : UInt32) (fFatBinary : Bool) (cachedBlob fork : Store)
    (name : List UInt8) (kind : Int32) : Prop :=
  (IsSymbol platform fFatBinary name kind (commandHeader fork 0) →
      HasSymbol platform fFatBinary cachedBlob name kind
        (copyBytes fork sizeofCommandHeader (commandHeader fork 0).size.toNat)) ∧
    ((∃ content, HasSymbol platform fFatBinary cachedBlob name kind content) →
      IsSymbol platform fFatBinary name kind (commandHeader fork 0))

/-! ### The name -/

section Names

variable {name kindName : List UInt8} {kind : Int32}

private theorem containerKind_text (h : containerKind kind = some kindName) :
    0 ∉ kindName ∧ kindName ≠ [] := by
  rw [containerKind] at h
  split at h
  · cases h; decide
  · split at h
    · cases h; decide
    · split at h
      · cases h; decide
      · cases h

private theorem mangle_eq_iff : mangle name = name ↔ Unspaced name := by
  have hchar : ∀ c, mangleChar c = c ↔ c ≠ 32 := by
    intro c
    rw [mangleChar]
    split
    · rename_i hc
      subst hc
      decide
    · rename_i hc
      exact iff_of_true rfl hc
  rw [mangle, List.ext_getElem?_iff]
  simp only [List.getElem?_mapIdx]
  constructor
  · intro h i hi hspace
    have hsame := h i
    rw [hspace, Option.map_some, if_pos hi] at hsame
    exact (hchar 32).mp (Option.some.inj hsame) rfl
  · intro h i
    cases hc : name[i]? with
    | none => rfl
    | some c =>
      rw [Option.map_some]
      split
      · rename_i hi
        rw [(hchar c).mpr fun heq => h i hi (heq ▸ hc)]
      · rfl

private theorem nameChars_length (h : PEFCommandHeader) : (cstr h.nameChars).length ≤ 255 := by
  refine (cstr_isStart _).length_le.trans (le_of_eq ?_)
  rw [PEFCommandHeader.nameChars, List.length_ofFn]

/-- A name that fits in a header is changed as a whole. -/
private theorem mangled_text (h : Unspaced name) (hlen : (cstr name).length ≤ 255) :
    (cstr name).map mangleChar = cstr name := by
  have hkeep : ∀ c ∈ cstr name, mangleChar c = c := by
    intro c hc
    obtain ⟨i, hi, rfl⟩ := List.mem_iff_getElem.mp hc
    have hne : cstr name ≠ [] := List.length_pos_iff.mp (Nat.zero_lt_of_lt hi)
    have hbound : i < rtStringLenMax name kPefNameLen := by
      rw [rtStringLenMax, rtStringLen_eq hne, if_neg (by rw [kPefNameLen]; omega)]
      exact hi
    rw [mangleChar, if_neg]
    intro hspace
    refine h i hbound ?_
    obtain ⟨rest, hrest⟩ := cstr_isStart name
    rw [← hrest, List.getElem?_append_left hi, List.getElem?_eq_getElem hi, hspace]
  exact (List.map_congr_left hkeep).trans (List.map_id _)

/-- The comparison of the loop looks for the name that it should, unless the name has spaces. -/
private theorem equals_symbol_iff (hkind : containerKind kind = some kindName)
    (hname : Unspaced name) (h : PEFCommandHeader) :
    equals h.nameChars (mangledSymbol kindName name) = true ↔
      cstr h.nameChars = kindName ++ (cstr name).map mangleChar := by
  obtain ⟨hzero, hne⟩ := containerKind_text hkind
  have htext : cstr (mangledSymbol kindName name) = kindName ++ cstr name := by
    rw [mangledSymbol, cstr_append hzero, cstr_take_rtStringLen]
  rw [equals_comm, equals_cstr_iff (by simp [htext, hne]), htext]
  by_cases hlen : (cstr name).length ≤ 255
  · rw [mangled_text hname hlen]
  · have hshort := nameChars_length h
    constructor
    · intro heq
      rw [heq, List.length_append] at hshort
      omega
    · intro heq
      rw [heq, List.length_append, List.length_map] at hshort
      omega

end Names

/-! ### The loop -/

section FindSymbol

variable {platform : UInt32} {fFatBinary : Bool} {fFile : List UInt8 → Option Store}
  {cachedBlob fork : Store} {symbol name kindName : List UInt8} {kind : Int32} {count : Nat}

/-- A header that the loop does not leave at. -/
private theorem findHeader_passes
    (h : ¬ (equals (commandHeader fork 0).nameChars symbol = true ∧
      (commandHeader fork 0).kind.toUInt32.toInt32 = kind)) :
    findHeader platform fFatBinary (some fork) symbol kind count = .done none := by
  induction count with
  | zero => rfl
  | succ count ih =>
    rw [not_and] at h
    dsimp only [findHeader]
    split
    · rename_i hname
      rw [if_neg (h hname), ih]
    · exact ih

/-- All passes do what the first one does. -/
private theorem findHeader_eq
    [Decidable (IsSymbol platform fFatBinary name kind (commandHeader fork 0))]
    (hkind : containerKind kind = some kindName) (hname : Unspaced name) :
    findHeader platform fFatBinary (some fork) (mangledSymbol kindName name) kind (count + 1) =
      .done (if IsSymbol platform fFatBinary name kind (commandHeader fork 0) then
        some (copyBytes fork sizeofCommandHeader (commandHeader fork 0).size.toNat) else none) := by
  have hsymbol : IsSymbol platform fFatBinary name kind (commandHeader fork 0) ↔
      equals (commandHeader fork 0).nameChars (mangledSymbol kindName name) = true ∧
        (commandHeader fork 0).kind.toUInt32.toInt32 = kind ∧
        ((commandHeader fork 0).cpu = platform ∨ fFatBinary = true) := by
    rw [IsSymbol, hkind, equals_symbol_iff hkind hname]
    simp
  by_cases hloop : equals (commandHeader fork 0).nameChars (mangledSymbol kindName name) = true ∧
      (commandHeader fork 0).kind.toUInt32.toInt32 = kind
  · dsimp only [findHeader]
    rw [if_pos hloop.1, if_pos hloop.2]
    by_cases hcpu : (commandHeader fork 0).cpu = platform ∨ fFatBinary = true
    · rw [if_pos (hsymbol.mpr ⟨hloop.1, hloop.2, hcpu⟩), if_neg]
      intro hbad
      rcases hcpu with heq | heq
      · exact hbad.1 heq
      · rw [heq] at hbad
        exact Bool.noConfusion hbad.2
    · rw [if_neg fun h => hcpu (hsymbol.mp h).2.2, if_pos]
      rw [not_or, Bool.not_eq_true] at hcpu
      exact hcpu
  · rw [findHeader_passes hloop, if_neg]
    intro h
    have hs := hsymbol.mp h
    exact hloop ⟨hs.1, hs.2.1⟩

/-- A kind without a section has no symbols. -/
private theorem not_hasSymbol (hkind : containerKind kind = none) (content : List UInt8) :
    ¬ HasSymbol platform fFatBinary cachedBlob name kind content := by
  intro h
  obtain ⟨_, _, ⟨⟨_, hsome, _⟩, _⟩, _⟩ := h
  rw [hkind] at hsome
  cases hsome

private theorem findSymbol_eq (hkind : containerKind kind = some kindName) :
    findSymbol platform ⟨fFile, some cachedBlob, fFatBinary, false⟩ (some name) kind =
      findHeader platform fFatBinary (fFile name) (mangledSymbol kindName (mangle name)) kind
        (pefContainer cachedBlob).count.toNat >>= fun symbol =>
          .done ⟨symbol, some (mangle name)⟩ := by
  simp only [findSymbol, hkind, Bool.false_eq_true, if_false]

/-- What a correct lookup needs: the name as it is, and a fork that agrees unless there are no
headers at all. -/
private theorem findsSymbol_needs (hkind : containerKind kind = some kindName)
    (h : FindsSymbol platform fFile cachedBlob fFatBinary name kind) :
    Unspaced name ∧ ((pefContainer cachedBlob).count = 0 ∨ ∃ fork, fFile name = some fork ∧
      ForkAgrees platform fFatBinary cachedBlob fork name kind) := by
  classical
  obtain ⟨found, hrun, hout⟩ := h
  rw [findSymbol_eq hkind] at hrun
  obtain ⟨r, hloop, hret⟩ := bind_eq_done.mp hrun
  have hreply := done.inj hret
  have hname : Unspaced name :=
    mangle_eq_iff.mp (Option.some.inj (congrArg SymbolReply.name hreply))
  obtain rfl : r = found := congrArg SymbolReply.symbol hreply
  rw [mangle_eq_iff.mpr hname] at hloop
  refine ⟨hname, or_iff_not_imp_left.mpr fun hcount => ?_⟩
  obtain ⟨count, hsucc⟩ : ∃ count, (pefContainer cachedBlob).count.toNat = count + 1 :=
    Nat.exists_eq_succ_of_ne_zero fun h0 => hcount (UInt64.toNat_inj.mp h0)
  rw [hsucc] at hloop
  cases hfork : fFile name with
  | none =>
    rw [hfork] at hloop
    cases hloop
  | some fork =>
    refine ⟨fork, rfl, ?_⟩
    rw [hfork, findHeader_eq hkind hname] at hloop
    obtain rfl := done.inj hloop
    constructor
    · intro hsymbol
      rw [if_pos hsymbol] at hout
      rcases hout with ⟨content, hcontent, hhas⟩ | ⟨hnull, _⟩
      · rwa [Option.some.inj hcontent]
      · cases hnull
    · intro hhas
      obtain ⟨content, hcontent⟩ := hhas
      by_contra hsymbol
      rw [if_neg hsymbol] at hout
      rcases hout with ⟨_, hsome, _⟩ | ⟨_, hnone⟩
      · cases hsome
      · exact hnone content hcontent

/-- Behind a file stream, which returns null for every fork, only containers without headers are
looked up right. -/
theorem findSymbol_behind_stream {mounted : Option NeFileSystemMgr} {s : FileStream}
    (hfile : ∀ fName fuel r err, s.read fuel mounted fName = .done (r, err) → r = none →
      fFile fName = none)
    (hkind : containerKind kind = some kindName)
    (h : FindsSymbol platform fFile cachedBlob fFatBinary name kind) :
    (pefContainer cachedBlob).count = 0 := by
  rcases (findsSymbol_needs hkind h).2 with hcount | ⟨fork, hfork, _⟩
  · exact hcount
  · rw [hfile name 0 none none (FileStream.read_null mounted s name 0) rfl] at hfork
    cases hfork

end FindSymbol

/-! ### Two symbols -/

def codeHeader (name : List UInt8) : PEFCommandHeader where
  name := charBuffer 255 ([46, 99, 111, 100, 101, 54, 52] ++ name)
  cpu := kPefArchAMD64
  subCpu := 0
  flags := 0
  kind := 0xC
  offset := 0
  size := 4

/-- A container with the code symbols `a` and `b`. -/
def twoSymbols : Store :=
  let blob := Store.put containerLayout (fun _ => 0) 0
    ⟨fun _ => 0, 0, 0, 0, 0, kPefArchAMD64, 0, 0, 53, 2⟩
  let blob := blob.put headerLayout (headerPlace 0) (codeHeader [97])
  blob.put headerLayout (headerPlace 1) (codeHeader [98])

private theorem twoSymbols_count : (pefContainer twoSymbols).count = 2 := by
  rw [pefContainer, twoSymbols, Store.get_put_apart _ _ _ _ (Or.inl (by decide)),
    Store.get_put_apart _ _ _ _ (Or.inl (by decide)), Store.get_put_same]

private theorem twoSymbols_first : commandHeader twoSymbols (headerPlace 0) = codeHeader [97] := by
  rw [commandHeader, twoSymbols, Store.get_put_apart _ _ _ _ (Or.inl (by decide)),
    Store.get_put_same]

private theorem twoSymbols_second : commandHeader twoSymbols (headerPlace 1) = codeHeader [98] := by
  rw [commandHeader, twoSymbols, Store.get_put_same]

private theorem codeHeader_text {name : List UInt8} (h : 0 ∉ name) (hlen : name.length < 248) :
    cstr (codeHeader name).nameChars = [46, 99, 111, 100, 101, 54, 52] ++ name := by
  refine cstr_charBuffer ?_ ?_
  · simp [h]
  · simp only [List.length_append, List.length_cons, List.length_nil]
    omega

end Zka.KernelKit.PEFCodeMgr
