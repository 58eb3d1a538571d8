import EarlnuxOS.Fs.Vfs
import EarlnuxOS.Lib.Printf
import EarlnuxOS.Lib.Strings
import EarlnuxOS.Types

/-!
# Logging in

`user_login_sequence` of `kernel/user.c`, with the functions that read what is
typed.  The keys are those that `keyboard_getchar` will return; a function that
needs one more waits.
-/

namespace EarlnuxOS
namespace User

open Fs Lib

/-!
# The keyboard
-/

def newline : UInt8 := 0x0A

def carriageReturn : UInt8 := 0x0D

def backspace : UInt8 := 0x08

def delete : UInt8 := 0x7F

/-- `c >= 32`; a `char` has a sign. -/
def printable (c : UInt8) : Bool := 0x20 ≤ c ∧ c < 0x80

/--
The loop that collects keys in a buffer of `max` bytes: what it has collected,
and the keys it leaves.
-/
def readKeys (ends erases : UInt8 -> Bool) (max : Nat) :
    CStr -> CStr -> Option (CStr × CStr)
  | [], buf => if buf.length < sub32 max 1 then none else some (buf, [])
  | c :: keys, buf =>
      if buf.length < sub32 max 1 then
        if ends c then some (buf, keys)
        else if erases c then readKeys ends erases max keys buf.dropLast
        else if printable c then readKeys ends erases max keys (buf ++ [c])
        else readKeys ends erases max keys buf
      else
        some (buf, c :: keys)

theorem readKeys_full {ends erases : UInt8 -> Bool} {max : Nat} {buf : CStr}
    (keys : CStr) (h : sub32 max 1 ≤ buf.length) :
    readKeys ends erases max keys buf = some (buf, keys) := by
  cases keys <;> exact if_neg (Nat.not_lt.mpr h)

def shellReadline (max : Nat) (keys : CStr) : Option (CStr × CStr) :=
  readKeys (fun c => c == newline || c == carriageReturn)
    (fun c => c == backspace || c == delete) max keys []

def getPassword (max : Nat) (keys : CStr) : Option (CStr × CStr) :=
  readKeys (fun c => c == newline) (fun c => c == backspace) max keys []

def readCredentials (keys : CStr) : Option (CStr × CStr × CStr) :=
  match shellReadline 32 keys with
  | none => none
  | some (username, keys) =>
      match getPassword 32 keys with
      | none => none
      | some (password, keys) => some (username, password, keys)

/-!
# Accounts
-/

def passwdPath : CStr := cstr "/etc/passwd"

def oRdonly : UInt32 := 0

def oWronly : UInt32 := 1

def userInit (v : Vfs) : Vfs := (v.vfsMkdir (cstr "/etc") 0o755).2

/-- The account is written to the file; the first part is what each call returns. -/
def createAccount (v : Vfs) (username password : CStr) : List Int × Vfs :=
  let opened := v.vfsOpen passwdPath (oWronly ||| oCreat) 0o644
  let fd := opened.1
  if 0 ≤ fd then
    let name := opened.2.vfsWrite fd username
    let sep := name.2.vfsWrite fd (cstr ":")
    let word := sep.2.vfsWrite fd password
    ([fd, name.1, sep.1, word.1], (word.2.vfsClose fd).2)
  else
    ([fd], opened.2)

/-!
# Checking
-/

/-- The arguments that `ksnprintf` gets; 1 and 2 stand for the addresses of the arrays. -/
def checkArgs (username password : CStr) : VarArgs where
  word := fun i => if i = 0 then 1 else 2
  string := fun address => if address = 1 then username else password

/-- `check` -/
def checkString (username password : CStr) : CStr :=
  terminated
    (ksnprintf (checkArgs username password) 128 (cstr "%s:%s")).text

/-- `strstr(stored_creds, check)` -/
def accepts (creds username password : CStr) : Bool :=
  (strstr creds (checkString username password)).isSome

/--
The loop: the user it lets in, and the keys left.  `creds` is the string that
each attempt is compared with.
-/
def loginLoop (creds : Nat -> CStr) : Nat -> CStr -> Option (CStr × CStr)
  | 0, _ => none
  | steps + 1, keys =>
      match readCredentials keys with
      | none => none
      | some (username, password, keys) =>
          if accepts (creds 0) username password then some (username, keys)
          else loginLoop (fun i => creds (i + 1)) steps keys

/-- The keys left when the loop comes to an attempt, counted from 0. -/
def comesTo (creds : Nat -> CStr) : Nat -> CStr -> Option CStr
  | 0, keys => some keys
  | n + 1, keys =>
      match readCredentials keys with
      | none => none
      | some (username, password, keys) =>
          if accepts (creds 0) username password then none
          else comesTo (fun i => creds (i + 1)) n keys

/-- Who is logged in, the keys left, and the file system. -/
structure Session where
  currentUser : CStr
  keys : CStr
  vfs : Vfs

/--
`user_login_sequence`; `stack i` is the memory from `stored_creds` on when
`strstr` runs for attempt `i`, apart from the bytes that were read.  `check` may
lie there.
-/
def userLoginSequence (v : Vfs) (keys : CStr) (stack : Nat -> CStr) :
    Option Session :=
  let opened := v.vfsOpen passwdPath oRdonly 0
  let fd := opened.1
  if fd < 0 then
    match readCredentials keys with
    | none => none
    | some (username, password, keys) =>
        some
          { currentUser := username.take 32
            keys := keys
            vfs := (createAccount opened.2 username password).2 }
  else
    let read := opened.2.vfsRead fd 127
    let creds := fun i =>
      terminated (read.2.1 ++ (stack i).drop read.2.1.length)
    match loginLoop creds keys.length keys with
    | none => none
    | some (username, keys) =>
        some
          { currentUser := username.take 32
            keys := keys
            vfs := (read.2.2.vfsClose fd).2 }

/-!
# What can be typed
-/

theorem readKeys_spec {ends erases : UInt8 -> Bool} {max : Nat}
    {keys buf s rest : CStr}
    (h : readKeys ends erases max keys buf = some (s, rest))
    (hbuf : buf.length ≤ sub32 max 1) (hnul : 0 ∉ buf) :
    s.length ≤ sub32 max 1 ∧ 0 ∉ s ∧ rest.length ≤ keys.length ∧
      (buf.length < sub32 max 1 -> rest.length < keys.length) := by
  induction keys generalizing buf with
  | nil =>
      unfold readKeys at h
      split at h
      · cases h
      · rename_i hfull
        cases h
        exact ⟨hbuf, hnul, Nat.le_refl _, fun hroom => absurd hroom hfull⟩
  | cons c keys ih =>
      unfold readKeys at h
      split at h
      · rename_i hroom
        rw [List.length_cons]
        have hmore : forall buf' : CStr, buf'.length ≤ sub32 max 1 -> 0 ∉ buf' ->
            readKeys ends erases max keys buf' = some (s, rest) ->
            s.length ≤ sub32 max 1 ∧ 0 ∉ s ∧ rest.length ≤ keys.length + 1 ∧
              (buf.length < sub32 max 1 -> rest.length < keys.length + 1) := by
          intro buf' hbuf' hnul' hread
          rcases ih hread hbuf' hnul' with ⟨hlen, hnone, hrest, _⟩
          exact ⟨hlen, hnone, by omega, fun _ => by omega⟩
        split at h
        · cases h
          exact ⟨hbuf, hnul, Nat.le_succ _, fun _ => Nat.lt_succ_self _⟩
        split at h
        · refine hmore _ ?_ (fun hmem => hnul (List.mem_of_mem_dropLast hmem)) h
          rw [List.length_dropLast]
          omega
        split at h
        · rename_i hprint
          refine hmore _ ?_ ?_ h
          · rw [List.length_append, List.length_singleton]
            omega
          · intro hmem
            rcases List.mem_append.mp hmem with hmem | hmem
            · exact hnul hmem
            · rw [← List.mem_singleton.mp hmem] at hprint
              exact absurd hprint (by decide)
        · exact hmore buf hbuf hnul h
      · rename_i hfull
        cases h
        exact ⟨hbuf, hnul, Nat.le_refl _, fun hroom => absurd hroom hfull⟩

/-- A string that fits into an array of 32 bytes. -/
structure Typed (s : CStr) : Prop where
  length : s.length ≤ 31
  noNul : 0 ∉ s

theorem readCredentials_spec {keys username password rest : CStr}
    (h : readCredentials keys = some (username, password, rest)) :
    Typed username ∧ Typed password ∧ rest.length < keys.length := by
  unfold readCredentials at h
  split at h
  · cases h
  rename_i name left hname
  split at h
  · cases h
  rename_i word left' hword
  cases h
  rcases readKeys_spec hname (Nat.zero_le _) List.not_mem_nil with
    ⟨hlen, hnul, _, hless⟩
  rcases readKeys_spec hword (Nat.zero_le _) List.not_mem_nil with
    ⟨hlen', hnul', hle, _⟩
  have hlt := hless (by decide)
  exact ⟨⟨hlen, hnul⟩, ⟨hlen', hnul'⟩, by omega⟩

/-!
# The loop
-/

theorem loginLoop_length {creds : Nat -> CStr} {steps : Nat}
    {keys username rest : CStr}
    (h : loginLoop creds steps keys = some (username, rest)) :
    rest.length < keys.length := by
  induction steps generalizing creds keys with
  | zero => cases h
  | succ steps ih =>
      unfold loginLoop at h
      split at h
      · cases h
      rename_i name word left hread
      have hlt := (readCredentials_spec hread).right.right
      split at h
      · cases h
        exact hlt
      · exact Nat.lt_trans (ih h) hlt

/-- The loop ends with an attempt that it comes to exactly when it accepts it. -/
theorem loginLoop_attempt {creds : Nat -> CStr} {n steps : Nat}
    {keys keys' username password rest : CStr} (hsteps : keys.length ≤ steps)
    (hcomes : comesTo creds n keys = some keys')
    (h : readCredentials keys' = some (username, password, rest)) :
    (exists name, loginLoop creds steps keys = some (name, rest)) <->
      accepts (creds n) username password = true := by
  induction n generalizing creds steps keys with
  | zero =>
      cases hcomes
      have hlt := (readCredentials_spec h).right.right
      cases steps with
      | zero => omega
      | succ steps =>
          rw [loginLoop, h]
          dsimp only
          constructor
          · intro hloop
            rcases hloop with ⟨name, hloop⟩
            by_contra hreject
            rw [if_neg hreject] at hloop
            exact absurd (loginLoop_length hloop) (Nat.lt_irrefl _)
          · intro haccept
            rw [if_pos haccept]
            exact ⟨username, rfl⟩
  | succ n ih =>
      unfold comesTo at hcomes
      split at hcomes
      · cases hcomes
      rename_i name word left hread
      split at hcomes
      · cases hcomes
      rename_i hreject
      have hlt := (readCredentials_spec hread).right.right
      cases steps with
      | zero => omega
      | succ steps =>
          rw [loginLoop, hread]
          dsimp only
          rw [if_neg hreject]
          exact ih (by omega) hcomes

end User
end EarlnuxOS
