import EarlnuxOS.Fs.Ramfs

/-!
# The virtual file system

The calls of `kernel/fs/vfs.c`: they pick a mount for a path, or a file for a
descriptor, and hand over to the file system.
-/

namespace EarlnuxOS
namespace Fs
namespace Vfs

/-!
# Mounts
-/

def vfsRegisterFs (v : Vfs) (type : FsType) : Int × Vfs :=
  (0, { v with fsList := type :: v.fsList })

/-- The loop of `find_mount`. -/
def findBest (path : CStr) (best : Option Mountpoint) (bestLen : Nat) :
    List Mountpoint -> Option Mountpoint × Nat
  | [] => (best, bestLen)
  | m :: rest =>
      if strncmpEq path m.path m.path.length ∧ bestLen < m.path.length then
        findBest path (some m) m.path.length rest
      else
        findBest path best bestLen rest

/-- `find_mount`: the mount and the remainder of the path. -/
def findMount (v : Vfs) (path : CStr) : Option (Mountpoint × CStr) :=
  match findBest path none 0 v.mountList with
  | (none, _) => none
  | (some m, len) =>
      some (m, (path.drop len).dropWhile (fun c => c == slash))

def vfsMount (v : Vfs) (target fstype : CStr) (flags : UInt32) : Int × Vfs :=
  match v.fsList.find? (fun f => f.name == fstype) with
  | none => (-1, v)
  | some fs =>
      if ¬ fs.mount then
        (-1, { v with nullCall := true })
      else
        match v.ramfsMount with
        | (none, v) => (-1, v)
        | (some root, v) =>
            match v.kmalloc with
            | (none, v) => (-1, v)
            | (some _, v) =>
                let mnt : Mountpoint :=
                  { path := target.take (pathMax - 1)
                    root := root
                    fs := fs
                    flags := flags }
                (0, { v with mountList := mnt :: v.mountList })

/-!
# Descriptors
-/

def freeSlot (table : Nat -> Option Nat) (i : Nat) : Nat -> Option Nat
  | 0 => none
  | slots + 1 =>
      if table i = none then some i else freeSlot table (i + 1) slots

/-- `fd_table[fd]`, `none` also for an `fd` out of range. -/
def fdFile (v : Vfs) (fd : Int) : Option Nat :=
  if fd < 0 ∨ fdMax ≤ fd then none else v.fdTable fd.toNat

def vfsOpen (v : Vfs) (path : CStr) (flags : UInt32) (mode : UInt16) :
    Int × Vfs :=
  match v.findMount path with
  | none => (-1, v)
  | some (mnt, remainder) =>
      if ¬ mnt.fs.openFile then
        (-1, v)
      else
        match v.kmalloc with
        | (none, v) => (-1, v)
        | (some file, v) =>
            let v := v.setFile file
              { File.blank with
                flags := flags
                refCount := 1 }
            match freeSlot v.fdTable 0 fdMax with
            | none => (-1, v.kfree file)
            | some fd =>
                let v := v.setFd fd (some file)
                let opened := v.ramfsFsOpen mnt remainder flags mode file
                if opened.1 < 0 then
                  (-1, (opened.2.setFd fd none).kfree file)
                else
                  (fd, opened.2)

def hasOp (v : Vfs) (file : Nat) (op : FileOps -> Bool) : Bool :=
  ((v.file file).ops.map op).getD false

def vfsClose (v : Vfs) (fd : Int) : Int × Vfs :=
  match v.fdFile fd with
  | none => (-1, v)
  | some file =>
      let v :=
        if v.hasOp file FileOps.close then v.ramfsFileClose file else v
      (0, (v.kfree file).setFd fd.toNat none)

def vfsRead (v : Vfs) (fd : Int) (len : UInt32) : Int × CStr × Vfs :=
  match v.fdFile fd with
  | none => (-1, [], v)
  | some file =>
      if v.hasOp file FileOps.read then v.ramfsFileRead file len
      else (-1, [], v)

def vfsWrite (v : Vfs) (fd : Int) (buf : CStr) : Int × Vfs :=
  match v.fdFile fd with
  | none => (-1, v)
  | some file =>
      if v.hasOp file FileOps.write then v.ramfsFileWrite file buf
      else (-1, v)

def seekSet : Int := 0
def seekCur : Int := 1
def seekEnd : Int := 2

def vfsSeek (v : Vfs) (fd : Int) (offset : Int64) (whence : Int) :
    Int64 × Vfs :=
  match v.fdFile fd with
  | none => (-1, v)
  | some file =>
      let f := v.file file
      if whence = seekSet then
        (offset, v.setFile file { f with pos := offset.toUInt64 })
      else if whence = seekCur then
        let pos := f.pos + offset.toUInt64
        (pos.toInt64, v.setFile file { f with pos := pos })
      else if whence = seekEnd then
        (f.pos.toInt64, v)
      else
        (-1, v)

/-!
# Directories
-/

def vfsMkdir (v : Vfs) (path : CStr) (mode : UInt16) : Int × Vfs :=
  match v.findMount path with
  | none => (-1, v)
  | some (mnt, remainder) =>
      if ¬ mnt.fs.mkdir then (-1, v)
      else v.ramfsFsMkdir mnt remainder mode

def vfsUnlink (v : Vfs) (path : CStr) : Int × Vfs :=
  match v.findMount path with
  | none => (-1, v)
  | some (mnt, remainder) =>
      if ¬ mnt.fs.unlink then (-1, v)
      else v.ramfsFsUnlink mnt remainder

end Vfs

/-!
# The file system in use
-/

inductive VfsOp where
  | openFile (path : CStr) (flags : UInt32) (mode : UInt16)
  | close (fd : Int)
  | read (fd : Int) (len : UInt32)
  | write (fd : Int) (buf : CStr)
  | seek (fd : Int) (offset : Int64) (whence : Int)
  | mkdir (path : CStr) (mode : UInt16)
  | unlink (path : CStr)

namespace Vfs

def exec (v : Vfs) : VfsOp -> Vfs
  | VfsOp.openFile path flags mode => (v.vfsOpen path flags mode).2
  | VfsOp.close fd => (v.vfsClose fd).2
  | VfsOp.read fd len => (v.vfsRead fd len).2.2
  | VfsOp.write fd buf => (v.vfsWrite fd buf).2
  | VfsOp.seek fd offset whence => (v.vfsSeek fd offset whence).2
  | VfsOp.mkdir path mode => (v.vfsMkdir path mode).2
  | VfsOp.unlink path => (v.vfsUnlink path).2

/-- The variables at the start; `fails` says which allocations will fail. -/
def zeroed (fails : Nat -> Bool) : Vfs where
  fsList := []
  mountList := []
  fdTable := fun _ => none
  files := fun _ => none
  inodes := fun _ => none
  nextIno := 1
  nextId := 1
  fails := fails
  calls := 0
  freed := []
  outside := false
  nullCall := false

def boot (fails : Nat -> Bool) : Vfs := ((zeroed fails).vfsRegisterFs ramfsType).2

def freshMount (fails : Nat -> Bool) (target : CStr) (flags : UInt32) : Vfs :=
  ((boot fails).vfsMount target ramfsType.name flags).2

end Vfs
end Fs
end EarlnuxOS
