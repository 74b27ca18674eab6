import Zka.NewKit.StringSearch

/-!
# Users and their passwords

`Save` and `Matches` with the token that both make from a password.  Both take the
status 0 of the token, which says that it was made, for a failure.
-/

namespace Zka.KernelKit

open Outcome NewKit

def kStdUserType : UInt8 := 0xCE

def kSuperUserType : UInt8 := 0xEC

def kMaxUserTokenLen : Nat := 255

/-- `UserRingKind`; a ring is made from any number that is not negative. -/
abbrev UserRingKind := Int32

def kRingStdUser : UserRingKind := 1

structure User where
  fRing : UserRingKind
  fUserToken : List UInt8
  deriving DecidableEq, Repr

/-- A user as the constructor leaves it. -/
def User.new (fRing : UserRingKind) : User := ⟨fRing, List.replicate kMaxUserTokenLen 0⟩

def User.isStdUser (user : User) : Bool := user.fRing = kRingStdUser

/-- The loop of `rt_copy_memory`. -/
def copyMemory (src dst : List UInt8) (len : Nat) : List UInt8 :=
  (List.range len).foldl (fun dst index => dst.set index (src.getD index 0)) dst

/-- `rt_string_cmp` counts the places at which two strings differ. -/
def rtStringCmp (src cmp : List UInt8) (size : Nat) : Nat :=
  (List.range size).countP fun index => src.getD index 0 ≠ cmp.getD index 0

/-- The loop returns the count as long as its counter can hold it. -/
theorem stringCmpLoop_rtStringCmp {src cmp : List UInt8} {size fuel : Nat}
    (hfit : rtStringCmp src cmp size < 2 ^ 31) (hfuel : size < fuel) :
    stringCmpLoop (some fun i => src.getD i 0) (some fun i => cmp.getD i 0) size fuel =
      .done (Int32.ofNat (rtStringCmp src cmp size)) :=
  stringCmpLoop_eq _ _ hfit hfuel

theorem rtStringCmp_eq_zero_iff {src cmp : List UInt8} {size : Nat} :
    rtStringCmp src cmp size = 0 ↔ ∀ i < size, src.getD i 0 = cmp.getD i 0 := by
  simp [rtStringCmp, List.countP_eq_zero]

/-- The loop of `cred_construct_token`, with the number of characters it may still look at. -/
def tokenLoop (inPassword : List UInt8) (user : User) (length : Nat) : Nat → List UInt8 → List UInt8
  | 0, password => password
  | rest + 1, password =>
    let iPass := length - (rest + 1)
    let curChr := inPassword.getD iPass 0
    if curChr = 0 then password
    else
      let kind := if user.isStdUser then kStdUserType else kSuperUserType
      tokenLoop inPassword user length rest (password.set iPass (curChr ||| kind))

/-- The status is 0 when the token was made. -/
def credConstructToken (password : Option (List UInt8)) (inPassword : List UInt8) (user : User)
    (length : Nat) : Int32 × Option (List UInt8) :=
  match password with
  | none => (1, none)
  | some password => (0, some (tokenLoop inPassword user length length password))

/-- The token of a password in a fresh buffer; a copy to the null pointer faults. -/
def makeToken (user : User) (inPassword : List UInt8) (fresh : Option (List UInt8)) :
    Outcome CFault (Int32 × Option (List UInt8)) :=
  match fresh with
  | none => .fault .nullDereference
  | some password =>
    let len := rtStringLen inPassword
    .done (credConstructToken (some (copyMemory inPassword password len)) inPassword user len)

namespace User

/-- `Save`, where `new` answers `fresh` for the buffer of the token. -/
def save (user : User) (passwordToFill fresh : Option (List UInt8)) :
    Outcome CFault (Bool × User) :=
  match passwordToFill with
  | none => .done (false, user)
  | some text =>
    if text.getD 0 0 = 0 then .done (false, user)
    else do
      let (status, password) ← makeToken user text fresh
      if status = 0 then return (false, user)
      else
        let token := copyMemory (password.getD []) user.fUserToken (rtStringLen text)
        return (true, { user with fUserToken := token })

/-- `Matches`.  The test of the first character is that of `Save` the other way around. -/
def «matches» (user : User) (passwordToFill fresh : Option (List UInt8)) : Outcome CFault Bool :=
  match passwordToFill with
  | none => .done false
  | some text =>
    if text.getD 0 0 ≠ 0 then .done false
    else do
      let (status, password) ← makeToken user text fresh
      if status = 0 then return false
      else
        let size := rtStringLen user.fUserToken
        return decide (rtStringCmp (password.getD []) user.fUserToken size = 0)

end User

/-! ## No password is ever saved -/

/-- A password that is not empty and fits the token. -/
structure Password where
  text : List UInt8
  ne_nil : text ≠ []
  zero_notMem : 0 ∉ text
  fits : text.length < kMaxUserTokenLen

def Password.string (p : Password) : List UInt8 := p.text ++ [0]

section Authentication

variable (user : User) (passwordToFill : Option (List UInt8)) (buffer : List UInt8)

theorem makeToken_done (text : List UInt8) :
    ∃ token, makeToken user text (some buffer) = .done (0, token) :=
  ⟨_, rfl⟩

/-- `Save` refuses every password and stores nothing. -/
theorem save_refuses : user.save passwordToFill (some buffer) = .done (false, user) := by
  cases passwordToFill with
  | none => rfl
  | some text =>
    obtain ⟨token, htoken⟩ := makeToken_done user buffer text
    simp [User.save, htoken]

/-- `Matches` refuses every password, saved or not. -/
theorem matches_refuses : user.matches passwordToFill (some buffer) = .done false := by
  cases passwordToFill with
  | none => rfl
  | some text =>
    obtain ⟨token, htoken⟩ := makeToken_done user buffer text
    simp [User.matches, htoken]

end Authentication

/-- Whatever the fresh buffers hold, a new user can save `p`, then `q` matches exactly when it is
`p`, and nothing matched before. -/
def AuthenticationLaw (fRing : UserRingKind) (p q : Password) : Prop :=
  ∀ buffer buffer',
    (∃ user, (User.new fRing).save (some p.string) (some buffer) = .done (true, user) ∧
      (user.matches (some q.string) (some buffer') = .done true ↔ q.text = p.text)) ∧
    (User.new fRing).matches (some q.string) (some buffer') = .done false

private theorem authenticationLaw_core (fRing : UserRingKind) (p q : Password) :
    ¬ AuthenticationLaw fRing p q := by
  intro hlaw
  obtain ⟨⟨user, hsaved, _⟩, _⟩ := hlaw [] []
  rw [save_refuses] at hsaved
  cases hsaved

/-- `Save` never returns Yes, for users of any ring and any passwords. -/
theorem authenticationLaw_never (fRing : UserRingKind) (p q : Password) :
    ¬ AuthenticationLaw fRing p q :=
  authenticationLaw_core fRing p q

/-- The password "ab". -/
def samplePassword : Password := ⟨[97, 98], by decide, by decide, by decide⟩

theorem authenticationLaw_fails :
    (User.new kRingStdUser).save (some samplePassword.string) (some [0, 0]) =
        .done (false, User.new kRingStdUser) ∧
      ¬ AuthenticationLaw kRingStdUser samplePassword samplePassword :=
  ⟨save_refuses _ _ _, authenticationLaw_core _ _ _⟩

end Zka.KernelKit
