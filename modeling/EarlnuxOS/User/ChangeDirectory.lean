import EarlnuxOS.Fs.OpenFlags
import EarlnuxOS.User.ResolvePath

/-!
# Changing the directory

`cmd_cd` of `kernel/kernel.c` opens its path with `O_DIRECTORY` to see whether
it is a directory, and relies on the file system to check that flag.
-/

namespace EarlnuxOS
namespace User

open Foundation Fs Fs.Vfs

/--
`cmd_cd` for `argv[1]`, if there is one: the message, the current working
directory, and the state of the file system.
-/
def cmdCd (v : Vfs) (cwd : CStr) (arg : Option CStr) :
    Option CStr × CStr × Vfs :=
  let target := arg.getD [slash]
  let path := resolvePath cwd target
  let opened := v.vfsOpen path (Fs.oRdonly ||| oDirectory) 0
  if opened.1 < 0 then
    (some (cstr "cd: " ++ target ++ cstr ": No such directory\n"), cwd,
      opened.2)
  else
    (none, path.take pathMax, (opened.2.vfsClose opened.1).2)

def cdPath (cwd : CStr) (arg : Option CStr) : CStr :=
  resolvePath cwd (arg.getD [slash])

def CdOk (v : Vfs) (cwd : CStr) (arg : Option CStr) : Prop :=
  (cmdCd v cwd arg).1 = none -> forall node,
    v.pathNode (cmdCd v cwd arg).2.1 = some node ->
      sIsdir (v.inode node).mode = true

/-- The path leads to a directory or nowhere, or nothing can be opened. -/
def CdSound (v : Vfs) (cwd : CStr) (arg : Option CStr) : Prop :=
  forall node, v.pathNode (cdPath cwd arg) = some node ->
    v.OpenGranted (cdPath cwd arg) -> sIsdir (v.inode node).mode = true

theorem cmdCd_accepted (v : Vfs) (cwd : CStr) (arg : Option CStr) :
    (cmdCd v cwd arg).1 = none <->
      v.OpenGranted (cdPath cwd arg) ∧ v.pathNode (cdPath cwd arg) ≠ none := by
  rw [← vfsOpen_opens_path v (cdPath cwd arg) 0
    (show (Fs.oRdonly ||| oDirectory) &&& oCreat = 0 by decide)]
  unfold cmdCd cdPath
  dsimp only
  split
  · rename_i hneg
    exact iff_of_false (Option.some_ne_none _) (Int.not_le.mpr hneg)
  · rename_i hneg
    exact iff_of_true rfl (Int.not_lt.mp hneg)

theorem cmdCd_cwd {v : Vfs} {cwd : CStr} {arg : Option CStr}
    (h : (cmdCd v cwd arg).1 = none) :
    (cmdCd v cwd arg).2.1 = cdPath cwd arg := by
  unfold cmdCd at h ⊢
  dsimp only at h ⊢
  split at h
  · cases h
  · rename_i hneg
    rw [if_neg hneg]
    unfold cdPath resolvePath
    rw [List.take_take, Nat.min_self]

theorem cdOk_iff (v : Vfs) (cwd : CStr) (arg : Option CStr) :
    CdOk v cwd arg <-> CdSound v cwd arg := by
  constructor
  · intro hok node hnode hgranted
    have haccepted := (cmdCd_accepted v cwd arg).mpr
      ⟨hgranted, by rw [hnode]; exact Option.some_ne_none node⟩
    apply hok haccepted node
    rw [cmdCd_cwd haccepted]
    exact hnode
  · intro hsound haccepted node hnode
    rw [cmdCd_cwd haccepted] at hnode
    exact hsound node hnode ((cmdCd_accepted v cwd arg).mp haccepted).left

/--
An open succeeds as its flags ask, a descriptor for reading never writes, and
`cd` never leaves the directories: each under its condition and no other.
-/
theorem open_flags_iff {v : Vfs} (h : StoreInv v) :
    (forall mnt path flags mode file,
      OpenOk v mnt path flags mode file <-> v.OpenSound mnt path flags) ∧
    (forall path flags mode, flags &&& accMode = Fs.oRdonly ->
      (v.vfsOpen path flags mode).1 ≠ -1 ->
      (WritesNothing (v.vfsOpen path flags mode).2
          (v.vfsOpen path flags mode).1 <->
        Starved (v.vfsOpen path flags mode).2
          (v.vfsOpen path flags mode).1)) ∧
    forall cwd arg, CdOk v cwd arg <-> CdSound v cwd arg := by
  refine ⟨?_, ?_, cdOk_iff v⟩
  · exact openOk_iff h.objects.handedOut
  · intro path flags mode _ hopen
    exact opened_writesNothing_iff h hopen

def oneFile : Vfs :=
  run Vfs.exec plainMount
    [VfsOp.openFile (cstr "/f") (oCreat ||| 1) 0o644, VfsOp.write 0 (cstr "x"),
      VfsOp.close 0]

theorem storeInv_plainMount : StoreInv plainMount :=
  storeInv_freshMount (fun _ => false) (cstr "/") 0

def oneEach : Vfs := oneFile.exec (VfsOp.mkdir (cstr "/d") 0o755)

theorem storeInv_oneEach : StoreInv oneEach := by
  have hmeets : Meets Vfs.exec AccessSound plainMount
      [VfsOp.openFile (cstr "/f") (oCreat ||| 1) 0o644,
        VfsOp.write 0 (cstr "x"), VfsOp.close 0,
        VfsOp.mkdir (cstr "/d") 0o755] :=
    ⟨trivial, by decide +kernel, trivial, trivial, trivial⟩
  exact hmeets.invariant (fun _ _ h hsound => h.exec hsound)
    storeInv_plainMount

/--
The file is opened as the flags ask and can then be written, and only the
directory is entered.
-/
theorem open_flags_iff_oneEach :
    OpenOk oneEach ⟨cstr "/", 1, ramfsType, 0⟩ (cstr "f") Fs.oRdonly 0 12 ∧
      ¬ WritesNothing (oneEach.vfsOpen (cstr "/f") Fs.oRdonly 0).2
        (oneEach.vfsOpen (cstr "/f") Fs.oRdonly 0).1 ∧
      CdOk oneEach (cstr "/") (some (cstr "d")) := by
  rcases open_flags_iff storeInv_oneEach with ⟨hopens, hwrites, hcd⟩
  refine ⟨(hopens _ _ _ _ _).mpr ?_, fun hnothing => ?_, (hcd _ _).mpr ?_⟩
  · have hnode : oneEach.resolve 1 (cstr "f") = some 5 := by decide +kernel
    unfold OpenSound
    rw [hnode]
    exact ⟨fun h => absurd h.left (by decide), fun h => absurd h (by decide),
      fun _ => ⟨by decide, by decide⟩⟩
  · have hopen : (oneEach.vfsOpen (cstr "/f") Fs.oRdonly 0).1 ≠ -1 := by
      decide +kernel
    have hstarved := (hwrites (cstr "/f") Fs.oRdonly 0 (by decide) hopen).mp
      hnothing
    have hempty := (hstarved 12 (by decide +kernel)).left
    exact absurd hempty (by decide +kernel)
  · intro node hnode _
    have hdir : oneEach.pathNode (cdPath (cstr "/") (some (cstr "d"))) =
        some 9 := by decide +kernel
    have heq : some 9 = some node := hdir.symm.trans hnode
    cases heq
    decide +kernel

/-- The file `/f` is opened as a directory, written for reading, and entered. -/
theorem flags_ignored :
    ¬ OpenOk oneFile ⟨cstr "/", 1, ramfsType, 0⟩ (cstr "f")
        (Fs.oRdonly ||| oDirectory) 0 9 ∧
      ((oneFile.exec (VfsOp.openFile (cstr "/f") Fs.oRdonly 0)).exec
        (VfsOp.write 0 (cstr "y")) |>.inode 5).bytes = cstr "y" ∧
      (cmdCd oneFile (cstr "/") (some (cstr "f"))).2.1 = cstr "/f" ∧
      ¬ CdOk oneFile (cstr "/") (some (cstr "f")) := by
  refine ⟨fun hok => ?_, by decide +kernel, by decide +kernel, fun hok => ?_⟩
  · have hmay := hok.succeeds.mp (by decide +kernel)
    rcases hmay.directory (by decide) with ⟨node, hnode, hdir⟩
    have hfile : oneFile.resolve 1 (cstr "f") = some 5 := by decide +kernel
    have heq : some 5 = some node := hfile.symm.trans hnode
    cases heq
    exact absurd hdir (by decide +kernel)
  · exact absurd (hok (by decide +kernel) 5 (by decide +kernel))
      (by decide +kernel)

end User
end EarlnuxOS
