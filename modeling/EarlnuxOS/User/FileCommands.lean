import EarlnuxOS.Fs.Listing
import EarlnuxOS.User.ChangeDirectory
import EarlnuxOS.User.Login

/-!
# The file commands of the shell

`cmd_ls`, `cmd_cat`, `cmd_mkdir`, `cmd_touch`, `cmd_write`, `cmd_rm`, `cmd_cd`
and `cmd_pwd` of `kernel/kernel.c`.  Whatever a command opens it closes again:
no run of commands uses up the descriptors.
-/

namespace EarlnuxOS
namespace User

open Foundation Fs Fs.Vfs Lib

/-!
# The commands
-/

/-- `current_working_directory`, the file system, and all that was printed. -/
structure FileShell where
  cwd : CStr
  vfs : Vfs
  screen : CStr

def kprintf (fmt : CStr) (strings : List CStr) : CStr :=
  (kvprintf (stringArgs strings) fmt).text

namespace FileShell

def print (s : FileShell) (text : CStr) : FileShell :=
  { s with screen := s.screen ++ text }

def setVfs (s : FileShell) (v : Vfs) : FileShell := { s with vfs := v }

/-- `resolve_path(argv[1], path)` -/
def argPath (s : FileShell) (argv : List CStr) : CStr :=
  resolvePath s.cwd (argv.getD 1 [])

/-- `dirent_t entries[32]` -/
def lsEntries : Nat := 32

/-- `entries[i].d_name` -/
def lsName (m : Memory) (entries i : Nat) : CStr :=
  stringAt m (2 ^ 32) (entries + direntSize * i + dNameOffset)

def lsPath (s : FileShell) (argv : List CStr) : CStr :=
  if 2 ≤ argv.length then s.argPath argv else s.cwd

/-- `cmd_ls`, with `entries` somewhere on the stack `m`. -/
def cmdLs (s : FileShell) (m : Memory) (entries : Nat) (argv : List CStr) :
    FileShell :=
  let path := s.lsPath argv
  let opened := s.vfs.vfsOpen path (Fs.oRdonly ||| oDirectory) 0
  let fd := opened.1
  if fd < 0 then
    (s.setVfs opened.2).print (kprintf (cstr "ls: cannot access '%s'\n") [path])
  else
    let listed := opened.2.vfsReaddir m fd entries
      (UInt32.ofNat (lsEntries * direntSize))
    (s.setVfs (listed.2.2.vfsClose fd).2).print
      ((List.range listed.1.toNat).flatMap fun i =>
        kprintf (cstr "  %s\n") [lsName listed.2.1 entries i])

/-- `while ((n = vfs_read(fd, buf, sizeof(buf)-1)) > 0)` -/
def catLoop : Nat -> Vfs -> Int -> CStr -> CStr × Vfs
  | 0, v, _, out => (out, v)
  | steps + 1, v, fd, out =>
      let read := v.vfsRead fd 127
      if 0 < read.1 then
        catLoop steps read.2.2 fd
          (out ++ kprintf (cstr "%s") [terminated (read.2.1 ++ [0])])
      else
        (out, read.2.2)

def catRounds (v : Vfs) (fd : Int) : Nat :=
  match v.fdFile fd with
  | none => 1
  | some file => (v.inode (v.file file).inode).size.toNat + 1

def cmdCat (s : FileShell) (argv : List CStr) : FileShell :=
  if argv.length < 2 then s
  else
    let opened := s.vfs.vfsOpen (s.argPath argv) Fs.oRdonly 0
    let fd := opened.1
    if fd < 0 then
      (s.setVfs opened.2).print
        (kprintf (cstr "cat: %s: No such file\n") [argv.getD 1 []])
    else
      let shown := catLoop (catRounds opened.2 fd) opened.2 fd []
      (s.setVfs (shown.2.vfsClose fd).2).print (shown.1 ++ cstr "\n")

def cmdMkdir (s : FileShell) (argv : List CStr) : FileShell :=
  if argv.length < 2 then s
  else
    let made := s.vfs.vfsMkdir (s.argPath argv) 0o755
    if made.1 < 0 then
      (s.setVfs made.2).print
        (kprintf (cstr "mkdir: cannot create directory '%s'\n") [argv.getD 1 []])
    else s.setVfs made.2

def cmdTouch (s : FileShell) (argv : List CStr) : FileShell :=
  if argv.length < 2 then s
  else
    let opened := s.vfs.vfsOpen (s.argPath argv) (oWronly ||| oCreat) 0o644
    if 0 ≤ opened.1 then s.setVfs (opened.2.vfsClose opened.1).2
    else
      (s.setVfs opened.2).print
        (kprintf (cstr "touch: cannot create '%s'\n") [argv.getD 1 []])

/-- The buffers that `cmd_write` passes to `vfs_write`, for `argv[2]` and the rest. -/
def writeBuffers : List CStr -> List CStr
  | [] => [cstr "\n"]
  | [w] => [w, cstr "\n"]
  | w :: ws => w :: cstr " " :: writeBuffers ws

/-- One `vfs_write` after the other, and what they return. -/
def writeAll (v : Vfs) (fd : Int) : List CStr -> List Int × Vfs
  | [] => ([], v)
  | buf :: bufs =>
      let wrote := v.vfsWrite fd buf
      let rest := writeAll wrote.2 fd bufs
      (wrote.1 :: rest.1, rest.2)

/-- `cmd_write`; the first part is what its calls return. -/
def cmdWrite (s : FileShell) (argv : List CStr) : List Int × FileShell :=
  if argv.length < 3 then
    ([], s.print (kprintf (cstr "Usage: write <file> <text...>\n") []))
  else
    let path := s.argPath argv
    let opened := s.vfs.vfsOpen path (oWronly ||| oCreat ||| oTrunc) 0o644
    let fd := opened.1
    if fd < 0 then
      ([fd], (s.setVfs opened.2).print
        (kprintf (cstr "write: cannot open '%s'\n") [path]))
    else
      let wrote := writeAll opened.2 fd (writeBuffers (argv.drop 2))
      (fd :: wrote.1, s.setVfs (wrote.2.vfsClose fd).2)

def cmdRm (s : FileShell) (argv : List CStr) : FileShell :=
  if argv.length < 2 then s
  else
    let removed := s.vfs.vfsUnlink (s.argPath argv)
    if removed.1 < 0 then
      (s.setVfs removed.2).print
        (kprintf (cstr "rm: cannot remove '%s'\n") [argv.getD 1 []])
    else s.setVfs removed.2

end FileShell

/-- A line of the shell; `ls` gets what is on its stack. -/
inductive FileCommand where
  | ls (m : Memory) (entries : Nat) (argv : List CStr)
  | cat (argv : List CStr)
  | mkdir (argv : List CStr)
  | touch (argv : List CStr)
  | write (argv : List CStr)
  | rm (argv : List CStr)
  | cd (argv : List CStr)
  | pwd

namespace FileShell

def exec (s : FileShell) : FileCommand -> FileShell
  | .ls m entries argv => s.cmdLs m entries argv
  | .cat argv => s.cmdCat argv
  | .mkdir argv => s.cmdMkdir argv
  | .touch argv => s.cmdTouch argv
  | .write argv => (s.cmdWrite argv).2
  | .rm argv => s.cmdRm argv
  | .cd argv =>
      let changed := cmdCd s.vfs s.cwd argv[1]?
      { cwd := changed.2.1
        vfs := changed.2.2
        screen := s.screen ++ changed.1.getD [] }
  | .pwd => s.print (kprintf (cstr "%s\n") [s.cwd])

/-!
# Descriptors
-/

/-- Objects are in order, and the descriptors are as they were. -/
structure Balanced (v v' : Vfs) : Prop where
  objects : ObjInv v'
  fdTable : v'.fdTable = v.fdTable

theorem Balanced.trans {v v' w : Vfs} (h : Balanced v v') (h' : Balanced v' w) :
    Balanced v w :=
  ⟨h'.objects, h'.fdTable.trans h.fdTable⟩

theorem keeps_vfsReaddir (v : Vfs) (m : Memory) (fd : Int) (buf : Nat)
    (len : UInt32) : Keeps v (v.vfsReaddir m fd buf len).2.2 := by
  unfold vfsReaddir
  split
  · exact Keeps.refl v
  split
  · exact Keeps.refl v
  split
  · exact Keeps.refl v
  · exact keeps_setFile v _ rfl

theorem keeps_catLoop (steps : Nat) (v : Vfs) (fd : Int) (out : CStr) :
    Keeps v (catLoop steps v fd out).2 := by
  induction steps generalizing v out with
  | zero => exact Keeps.refl v
  | succ steps ih =>
      unfold catLoop
      dsimp only
      split
      · exact (keeps_read v fd 127).trans (ih _ _)
      · exact keeps_read v fd 127

theorem keeps_writeAll (v : Vfs) (fd : Int) (bufs : List CStr) :
    Keeps v (writeAll v fd bufs).2 := by
  induction bufs generalizing v with
  | nil => exact Keeps.refl v
  | cons buf bufs ih => exact (keeps_write v fd buf).trans (ih _)

theorem balanced_refused {v : Vfs} (hi : ObjInv v) {path : CStr}
    {flags : UInt32} {mode : UInt16} (hneg : (v.vfsOpen path flags mode).1 < 0) :
    Balanced v (v.vfsOpen path flags mode).2 := by
  rcases vfsOpen_reopens hi path flags mode with
    ⟨hfail, _⟩ | ⟨fd, node, hfd, _, _⟩
  · exact ⟨hi.exec (VfsOp.openFile path flags mode),
      (vfsOpen_failed hi.handedOut hfail).fdTable⟩
  · omega

theorem balanced_closed {v w : Vfs} (hi : ObjInv v) {path : CStr}
    {flags : UInt32} {mode : UInt16}
    (hfd : ¬ (v.vfsOpen path flags mode).1 < 0)
    (hkeeps : Keeps (v.vfsOpen path flags mode).2 w) :
    Balanced v (w.vfsClose (v.vfsOpen path flags mode).1).2 := by
  have hw := (hi.exec (VfsOp.openFile path flags mode)).keeps hkeeps
  rcases vfsOpen_reopens hi path flags mode with
    ⟨hfail, _⟩ | ⟨fd, node, hslot, hopen, _⟩
  · omega
  · have htable := hkeeps.fdTable.trans hopen.fdTable
    have hbound := hopen.bound
    have hfile : w.fdFile fd = some v.nextId := by
      unfold fdFile
      rw [if_neg (by omega), htable]
      exact Function.update_self _ _ _
    have hclose := w.vfsClose_cases fd
    rw [hfile] at hclose
    dsimp only at hclose
    rw [hslot]
    refine ⟨hw.exec (VfsOp.close fd), ?_⟩
    rw [hclose]
    show Function.update w.fdTable fd none = v.fdTable
    rw [htable, Function.update_idem, Function.update_eq_self_iff, hopen.slot]

theorem balanced_mkdir {v : Vfs} (hi : ObjInv v) (path : CStr) (mode : UInt16) :
    Balanced v (v.vfsMkdir path mode).2 :=
  ⟨hi.exec (VfsOp.mkdir path mode), (vfsMkdir_creates hi path mode).fdTable⟩

theorem balanced_unlink {v : Vfs} (hi : ObjInv v) (path : CStr) :
    Balanced v (v.vfsUnlink path).2 := by
  refine ⟨hi.exec (VfsOp.unlink path), ?_⟩
  have hcases := vfsUnlink_cases hi path
  cases hvictim : v.unlinkTarget path with
  | none =>
      rw [hvictim] at hcases
      exact hcases.fdTable
  | some found =>
      rw [hvictim] at hcases
      rcases hcases with ⟨w, hkeeps, _, hremoves⟩
      exact hremoves.fdTable.trans hkeeps.fdTable

theorem balanced_exec {s : FileShell} (hi : ObjInv s.vfs) (c : FileCommand) :
    Balanced s.vfs (s.exec c).vfs := by
  have hstay : Balanced s.vfs s.vfs := ⟨hi, rfl⟩
  cases c with
  | ls m entries argv =>
      unfold exec cmdLs
      dsimp only
      split
      · rename_i hneg
        exact balanced_refused hi hneg
      · rename_i hfd
        exact balanced_closed hi hfd (keeps_vfsReaddir _ _ _ _ _)
  | cat argv =>
      unfold exec cmdCat
      dsimp only
      split
      · exact hstay
      split
      · rename_i hneg
        exact balanced_refused hi hneg
      · rename_i hfd
        exact balanced_closed hi hfd (keeps_catLoop _ _ _ _)
  | mkdir argv =>
      unfold exec cmdMkdir
      dsimp only
      split
      · exact hstay
      split
      · exact balanced_mkdir hi _ _
      · exact balanced_mkdir hi _ _
  | touch argv =>
      unfold exec cmdTouch
      dsimp only
      split
      · exact hstay
      split
      · rename_i hfd
        exact balanced_closed hi (Int.not_lt.mpr hfd) (Keeps.refl _)
      · rename_i hneg
        exact balanced_refused hi (Int.not_le.mp hneg)
  | write argv =>
      unfold exec cmdWrite
      dsimp only
      split
      · exact hstay
      split
      · rename_i hneg
        exact balanced_refused hi hneg
      · rename_i hfd
        exact balanced_closed hi hfd (keeps_writeAll _ _ _)
  | rm argv =>
      unfold exec cmdRm
      dsimp only
      split
      · exact hstay
      split
      · exact balanced_unlink hi _
      · exact balanced_unlink hi _
  | cd argv =>
      unfold exec cmdCd
      dsimp only
      split
      · rename_i hneg
        exact balanced_refused hi hneg
      · rename_i hfd
        exact balanced_closed hi hfd (Keeps.refl _)
  | pwd => exact hstay

theorem balanced_run {s : FileShell} (hi : ObjInv s.vfs)
    (commands : List FileCommand) :
    Balanced s.vfs (run exec s commands).vfs := by
  induction commands generalizing s with
  | nil => exact ⟨hi, rfl⟩
  | cons c commands ih =>
      have hstep := balanced_exec hi c
      exact hstep.trans (ih hstep.objects)

/-- No run of commands uses up a descriptor. -/
theorem commands_close_files {s : FileShell} (hi : ObjInv s.vfs)
    (commands : List FileCommand) :
    (run exec s commands).vfs.fdTable = s.vfs.fdTable :=
  (balanced_run hi commands).fdTable

def onPlainMount : FileShell where
  cwd := [slash]
  vfs := plainMount
  screen := []

theorem commands_close_files_plain :
    (run exec onPlainMount
        [.write [cstr "write", cstr "f", cstr "x"], .touch [cstr "touch", cstr "g"],
          .ls (fun _ => 0) 64 [cstr "ls"], .rm [cstr "rm", cstr "f"],
          .cat [cstr "cat", cstr "f"]]).vfs.fdTable = plainMount.fdTable :=
  commands_close_files storeInv_plainMount.objects _

end FileShell

end User
end EarlnuxOS
