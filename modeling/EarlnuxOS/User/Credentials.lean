import EarlnuxOS.Fs.WholeFiles
import EarlnuxOS.Lib.PrintfAgreement
import EarlnuxOS.User.Login

/-!
# Which credentials are accepted

An account is stored as its name, a colon and its password.  The login looks
for that text of an attempt anywhere in what is stored.
-/

namespace EarlnuxOS
namespace User

open Foundation Fs Lib

/-!
# The text of an attempt
-/

def account (username password : CStr) : CStr :=
  username ++ cstr ":" ++ password

theorem Typed.length_account {username password : CStr}
    (hname : Typed username) (hword : Typed password) :
    (account username password).length ≤ 63 := by
  have hlen := hname.length
  have hlen' := hword.length
  have hcolon : (cstr ":").length = 1 := by decide
  unfold account
  rw [List.length_append, List.length_append, hcolon]
  omega

theorem Typed.account_noNul {username password : CStr}
    (hname : Typed username) (hword : Typed password) :
    0 ∉ account username password := by
  intro hmem
  rcases List.mem_append.mp hmem with hmem | hmem
  · rcases List.mem_append.mp hmem with hmem | hmem
    · exact hname.noNul hmem
    · exact absurd hmem (by decide)
  · exact hword.noNul hmem

theorem checkString_eq {username password : CStr} (hname : Typed username)
    (hword : Typed password) :
    checkString username password = account username password := by
  have hconvs : conversions (cstr "%s:%s").length (cstr "%s:%s") =
      some [convS, convS] := by decide +kernel
  have hloop := loop_take (checkArgs username password) 128 0 [] hconvs
    (by decide)
  have hprinted : (kvprintfLoop (checkArgs username password)
      (cstr "%s:%s").length (cstr "%s:%s") 0 []).1 =
        account username password := by
    have hputs : (kvprintfLoop (checkArgs username password)
        (cstr "%s:%s").length (cstr "%s:%s") 0 []).1 =
          consolePuts (consolePutchar (consolePuts [] username) 0x3A)
            password := rfl
    rw [hputs, consolePuts_eq, consolePuts_eq]
    rfl
  unfold checkString ksnprintf kvsnprintf
  rw [if_neg (by decide)]
  dsimp only
  rw [List.take_nil] at hloop
  rw [hloop, hprinted, List.take_of_length_le (by
    have hlen := hname.length_account hword
    omega), terminated_append (hname.account_noNul hword)]
  exact List.append_nil _

theorem accepts_iff {creds username password : CStr} (hname : Typed username)
    (hword : Typed password) :
    accepts creds username password = true <->
      account username password <:+: creds := by
  unfold accepts
  rw [checkString_eq hname hword]
  exact strstr_isSome

/-!
# The account in the file
-/

theorem plain_passwdPath (v : Vfs) : v.Plain passwdPath :=
  Vfs.plain_of_tails (by decide +kernel)

/-- What the login compares with: the front of the file, and the stack behind it. -/
def storedCreds (username password old stack : CStr) : CStr :=
  let bytes := (account username password ++
    old.drop (account username password).length).take 127
  terminated (bytes ++ stack.drop bytes.length)

theorem storedCreds_front {username password : CStr} (old stack : CStr)
    (hname : Typed username) (hword : Typed password) :
    account username password <+: storedCreds username password old stack := by
  have hlen := hname.length_account hword
  unfold storedCreds
  dsimp only
  rw [List.take_append, List.take_of_length_le (by omega), List.append_assoc,
    terminated_append (hname.account_noNul hword)]
  exact List.prefix_append _ _

theorem createAccount_stored {v : Vfs} (h : Vfs.StoreInv v)
    {username password : CStr} (hname : Typed username)
    (hword : Typed password)
    (hsaved : forall r, r ∈ (createAccount v username password).1 -> 0 ≤ r) :
    Vfs.StoreInv (createAccount v username password).2 ∧
      (createAccount v username password).2.fileAt passwdPath =
        some (account username password ++ ((v.fileAt passwdPath).getD []).drop
          (account username password).length) := by
  have hlen := hname.length
  have hlen' := hword.length
  have hcolon : (cstr ":").length = 1 := by decide
  unfold createAccount at hsaved ⊢
  dsimp only at hsaved ⊢
  split at hsaved
  · rename_i hfd
    rw [if_pos hfd]
    have hopened := Vfs.writing_opened h (plain_passwdPath v) (by decide)
      (by decide) rfl hfd
    rw [List.forall_mem_cons, List.forall_mem_cons, List.forall_mem_cons,
      List.forall_mem_cons] at hsaved
    rcases hsaved with ⟨_, hfirst, hsecond, hthird, _⟩
    have hwritten := ((hopened.write (by
      rw [List.length_nil]
      omega) hfirst).write (by
        rw [List.nil_append, hcolon]
        omega) hsecond).write (by
          rw [List.nil_append, List.length_append, hcolon]
          omega) hthird
    have hclosed := hwritten.close
    rw [overwrite_front] at hclosed
    exact hclosed
  · rename_i hfd
    exact absurd (hsaved _ (List.mem_singleton_self _)) hfd

/-!
# Which attempts the login accepts
-/

theorem loginCreds_eq {w : Vfs} (h : Vfs.StoreInv w) {content : CStr}
    (hcontent : w.fileAt passwdPath = some content)
    (hopen : 0 ≤ (w.vfsOpen passwdPath oRdonly 0).1) :
    ((w.vfsOpen passwdPath oRdonly 0).2.vfsRead
      (w.vfsOpen passwdPath oRdonly 0).1 127).2.1 = content.take 127 := by
  have hlen : (127 : UInt32).toNat < 2 ^ 31 := by decide
  rcases Vfs.read_opened h (by decide) (by decide) (by decide) rfl hopen
    hlen with ⟨content', hcontent', hread⟩
  rw [hcontent, Option.some.injEq] at hcontent'
  rw [hcontent']
  exact hread

/-- The login ends with an attempt when its text stands in what was stored. -/
theorem login_iff {w : Vfs} (h : Vfs.StoreInv w)
    {username password old keys keys' name word rest : CStr}
    {stack : Nat -> CStr} {n : Nat}
    (hcontent : w.fileAt passwdPath = some (account username password ++
      old.drop (account username password).length))
    (hopen : 0 ≤ (w.vfsOpen passwdPath oRdonly 0).1)
    (hcomes : comesTo (fun i => storedCreds username password old (stack i)) n
      keys = some keys')
    (hread : readCredentials keys' = some (name, word, rest)) :
    (exists s, userLoginSequence w keys stack = some s ∧ s.keys = rest) <->
      account name word <:+: storedCreds username password old (stack n) := by
  rcases readCredentials_spec hread with ⟨hname, hword, _⟩
  rw [← accepts_iff hname hword,
    ← loginLoop_attempt (Nat.le_refl keys.length) hcomes hread]
  unfold userLoginSequence
  dsimp only
  have hcreds : (fun i => terminated
      ((account username password ++
          old.drop (account username password).length).take 127 ++
        (stack i).drop ((account username password ++
          old.drop (account username password).length).take 127).length)) =
      fun i => storedCreds username password old (stack i) := rfl
  rw [if_neg (by omega), loginCreds_eq h hcontent hopen, hcreds]
  cases loginLoop (fun i => storedCreds username password old (stack i))
      keys.length keys with
  | none =>
      refine iff_of_false ?_ ?_
      · intro h
        rcases h with ⟨s, hs, _⟩
        cases hs
      · intro h
        rcases h with ⟨name, hname⟩
        cases hname
  | some found =>
      rcases found with ⟨user, left⟩
      constructor
      · intro h
        rcases h with ⟨s, hs, hrest⟩
        cases hs
        exact ⟨user, congrArg some (congrArg (Prod.mk user) hrest)⟩
      · intro h
        rcases h with ⟨user', huser⟩
        cases huser
        exact ⟨_, rfl, rfl⟩

theorem storeInv_reachable {v : Vfs} {fails : Nat -> Bool}
    {target : CStr} {flags : UInt32}
    (h : Reachable Vfs.exec Vfs.AccessSound (Vfs.freshMount fails target flags)
      v) : Vfs.StoreInv v :=
  h.invariant (Vfs.storeInv_freshMount fails target flags)
    (fun _ _ h hsound => h.exec hsound)

theorem userLoginSequence_first {v : Vfs}
    {keys username password rest : CStr} (stack : Nat -> CStr)
    (hfirst : (v.vfsOpen passwdPath oRdonly 0).1 < 0)
    (hread : readCredentials keys = some (username, password, rest)) :
    userLoginSequence v keys stack = some
      { currentUser := username.take 32
        keys := rest
        vfs := (createAccount (v.vfsOpen passwdPath oRdonly 0).2 username
          password).2 } := by
  unfold userLoginSequence
  dsimp only
  rw [if_pos hfirst, hread]

/--
The login accepts other credentials than the account's when their text stands
somewhere in what is stored, and only then.  This is so for every attempt that
the loop comes to, with the memory behind the stored bytes as it is then.
-/
theorem login_accepts {v w : Vfs} {fails fails' : Nat -> Bool}
    {target target' : CStr} {flags flags' : UInt32}
    (hv : Reachable Vfs.exec Vfs.AccessSound
      (Vfs.freshMount fails target flags) v)
    (hw : Reachable Vfs.exec Vfs.AccessSound
      (Vfs.freshMount fails' target' flags') w)
    {keys0 username password rest0 : CStr} {stack0 : Nat -> CStr} {s0 : Session}
    (hfirst : (v.vfsOpen passwdPath oRdonly 0).1 < 0)
    (hread0 : readCredentials keys0 = some (username, password, rest0))
    (hrun0 : userLoginSequence v keys0 stack0 = some s0)
    (hsaved : forall r, r ∈ (createAccount (v.vfsOpen passwdPath oRdonly 0).2
      username password).1 -> 0 ≤ r)
    (hfile : w.fileAt passwdPath = s0.vfs.fileAt passwdPath)
    (hopen : 0 ≤ (w.vfsOpen passwdPath oRdonly 0).1)
    {keys keys' name word rest : CStr} {stack : Nat -> CStr} {n : Nat}
    (hcomes : comesTo (fun i => storedCreds username password
      (((v.vfsOpen passwdPath oRdonly 0).2.fileAt passwdPath).getD [])
      (stack i)) n keys = some keys')
    (hread : readCredentials keys' = some (name, word, rest)) :
    ((exists s, userLoginSequence w keys stack = some s ∧ s.keys = rest) <->
      name = username ∧ word = password) <->
    ((name = username ∧ word = password) ∨
      ¬ account name word <:+: storedCreds username password
        (((v.vfsOpen passwdPath oRdonly 0).2.fileAt passwdPath).getD [])
        (stack n)) := by
  have hinv := storeInv_reachable hv
  have hinv' := storeInv_reachable hw
  have hfirstInv := hinv.exec (o := VfsOp.openFile passwdPath oRdonly 0) trivial
  rcases readCredentials_spec hread0 with ⟨husername, hpassword, _⟩
  rcases createAccount_stored hfirstInv husername hpassword hsaved with
    ⟨_, hstored⟩
  rw [userLoginSequence_first stack0 hfirst hread0] at hrun0
  cases hrun0
  rw [login_iff hinv' (hfile.trans hstored) hopen hcomes hread]
  have hself : name = username ∧ word = password ->
      account name word <:+: storedCreds username password
        (((v.vfsOpen passwdPath oRdonly 0).2.fileAt passwdPath).getD [])
        (stack n) := by
    intro hsame
    rw [hsame.left, hsame.right]
    exact (storedCreds_front _ _ husername hpassword).isInfix
  constructor
  · intro h
    by_cases hsame : name = username ∧ word = password
    · exact Or.inl hsame
    · exact Or.inr (fun hfound => hsame (h.mp hfound))
  · intro h
    rcases h with hsame | hnot
    · exact iff_of_true (hself hsame) hsame
    · exact iff_of_false hnot (fun hsame => hnot (hself hsame))

def installed : Vfs := userInit Vfs.plainMount

/-- The calls up to the end of a first run that creates `admin` with the password `secret`. -/
def adminCalls : List VfsOp :=
  [VfsOp.mkdir (cstr "/etc") 0o755, VfsOp.openFile passwdPath oRdonly 0,
    VfsOp.openFile passwdPath (oWronly ||| oCreat) 0o644,
    VfsOp.write 0 (cstr "admin"), VfsOp.write 0 (cstr ":"),
    VfsOp.write 0 (cstr "secret"), VfsOp.close 0]

def withAdmin : Vfs := run Vfs.exec Vfs.plainMount adminCalls

/-- The second attempt of a call, with other bytes behind the account than the first. -/
theorem login_accepts_withAdmin :
    (exists s, userLoginSequence withAdmin (cstr "guest\nx\nroot\nsecret\n")
        (fun i => List.replicate (128 + i) 0x41) = some s ∧
      s.keys = []) <->
    cstr "root" = cstr "admin" ∧ cstr "secret" = cstr "secret" := by
  have hinstall : Reachable Vfs.exec Vfs.AccessSound Vfs.plainMount installed :=
    ⟨[VfsOp.mkdir (cstr "/etc") 0o755], ⟨trivial, trivial⟩, rfl⟩
  have hadmin : Reachable Vfs.exec Vfs.AccessSound Vfs.plainMount withAdmin :=
    ⟨adminCalls,
      ⟨trivial, trivial, trivial, by decide +kernel, by decide +kernel,
        by decide +kernel, trivial, trivial⟩, rfl⟩
  have hfirst : (installed.vfsOpen passwdPath oRdonly 0).1 < 0 := by
    decide +kernel
  have hread : readCredentials (cstr "admin\nsecret\n") =
      some (cstr "admin", cstr "secret", []) := by decide +kernel
  have hcomes : comesTo (fun i => storedCreds (cstr "admin") (cstr "secret")
      (((installed.vfsOpen passwdPath oRdonly 0).2.fileAt passwdPath).getD [])
      (List.replicate (128 + i) 0x41)) 1
        (cstr "guest\nx\nroot\nsecret\n") = some (cstr "root\nsecret\n") := by
    decide +kernel
  exact (login_accepts hinstall hadmin hfirst hread
    (userLoginSequence_first (fun _ => []) hfirst hread) (by decide +kernel)
    (by decide +kernel) (by decide +kernel) hcomes (by decide +kernel)).mpr
      (Or.inr (by decide +kernel))

theorem login_accepts_part :
    readCredentials (cstr "admin\nsecret\n") =
      some (cstr "admin", cstr "secret", []) ∧
    (userLoginSequence installed (cstr "admin\nsecret\n") fun _ => []).bind
      (fun s => s.vfs.fileAt passwdPath) = some (cstr "admin:secret") ∧
    readCredentials (cstr "min\nsec\n") = some (cstr "min", cstr "sec", []) ∧
    ((userLoginSequence installed (cstr "admin\nsecret\n") fun _ => []).bind
      (fun s => userLoginSequence s.vfs (cstr "min\nsec\n")
        fun _ => List.replicate 128 0)).map Session.currentUser =
          some (cstr "min") ∧
    ¬ (cstr "min" = cstr "admin" ∧ cstr "sec" = cstr "secret") := by
  refine ⟨by decide +kernel, by decide +kernel, by decide +kernel,
    by decide +kernel, by decide⟩

end User
end EarlnuxOS
