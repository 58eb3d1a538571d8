import EarlnuxOS.Fs.Vfs

/-!
# Calls through operation tables

The calls of `kernel/fs/vfs.c` over any file systems.  An `fs_type_t` or a
`file_ops_t` says which of its pointers are set; what such a pointer leads to
may change everything.  A call through a pointer that is not set ends the
kernel.
-/

namespace EarlnuxOS
namespace Fs
namespace Dispatch

universe u

def oDirectory : UInt32 := 0x10000

/-- `file_ops_t`: which of its pointers are not `NULL`. -/
structure FileOps where
  close : Bool
  read : Bool
  write : Bool
  readdir : Bool
deriving DecidableEq, Repr

structure File where
  inode : Nat
  pos : UInt64
  flags : UInt32
  refCount : UInt32
  ops : Option FileOps
deriving DecidableEq, Repr

def File.blank : File where
  inode := 0
  pos := 0
  flags := 0
  refCount := 0
  ops := none

/-- The static variables of `vfs.c`, the open files, and all other memory. -/
structure Kernel (W : Type u) where
  fsList : List FsType
  mountList : List Mountpoint
  fdTable : Nat -> Option Nat
  files : Nat -> Option File
  memory : W

/-- The allocator, and the functions to which the pointers lead. -/
structure Code (W : Type u) where
  kmalloc : W -> Option Nat × W
  kfree : Nat -> W -> W
  mount : FsType -> Option CStr -> UInt32 -> Kernel W -> Option Nat × Kernel W
  openFile : Mountpoint -> CStr -> UInt32 -> UInt16 -> Nat -> Kernel W ->
    Int × Kernel W
  mkdir : Mountpoint -> CStr -> UInt16 -> Kernel W -> Int × Kernel W
  unlink : Mountpoint -> CStr -> Kernel W -> Int × Kernel W
  close : Nat -> Kernel W -> Kernel W
  read : Nat -> Nat -> UInt32 -> Kernel W -> Int × Kernel W
  write : Nat -> Nat -> UInt32 -> Kernel W -> Int × Kernel W
  readdir : Nat -> Nat -> UInt32 -> Kernel W -> Int × Kernel W

/-- A call through a pointer; nothing is left after one through `NULL`. -/
def through {α : Type u} (pointer : Bool) (outcome : α) : Option α :=
  if pointer then some outcome else none

@[simp] theorem through_true {α : Type u} (outcome : α) :
    through true outcome = some outcome := rfl

variable {W : Type u}

namespace Kernel

def kmalloc (k : Kernel W) (code : Code W) : Option Nat × Kernel W :=
  ((code.kmalloc k.memory).1, { k with memory := (code.kmalloc k.memory).2 })

def kfree (k : Kernel W) (code : Code W) (file : Nat) : Kernel W :=
  { k with memory := code.kfree file k.memory }

def file (k : Kernel W) (id : Nat) : File := (k.files id).getD File.blank

def setFile (k : Kernel W) (id : Nat) (f : File) : Kernel W :=
  { k with files := Function.update k.files id (some f) }

def setFd (k : Kernel W) (fd : Nat) (file : Option Nat) : Kernel W :=
  { k with fdTable := Function.update k.fdTable fd file }

/-- `fd_table[fd]`, `none` also for an `fd` out of range. -/
def fdFile (k : Kernel W) (fd : Int) : Option Nat :=
  if fd < 0 ∨ fdMax ≤ fd then none else k.fdTable fd.toNat

/-- `file->ops && file->ops->op` -/
def hasOp (k : Kernel W) (file : Nat) (op : FileOps -> Bool) : Bool :=
  ((k.file file).ops.map op).getD false

def findMount (k : Kernel W) (path : CStr) : Option (Mountpoint × CStr) :=
  match Vfs.findBest path none 0 k.mountList with
  | (none, _) => none
  | (some m, len) =>
      some (m, (path.drop len).dropWhile (fun c => c == slash))

def findType (k : Kernel W) (fstype : CStr) : Option FsType :=
  k.fsList.find? (fun f => f.name == fstype)

end Kernel

/-!
# The calls

A string or a path may be `NULL`, and a buffer is an address.
-/

namespace Kernel

variable (k : Kernel W) (code : Code W)

/-- `vfs_mount`; whether `fs->mount` is set is not asked. -/
def vfsMount (source target fstype : Option CStr) (flags : UInt32) :
    Option (Int × Kernel W) :=
  match target, fstype with
  | some target, some fstype =>
      match k.findType fstype with
      | none => some (-1, k)
      | some fs =>
          (through fs.mount (code.mount fs source flags k)).map fun mounted =>
            match mounted with
            | (none, k) => (-1, k)
            | (some root, k) =>
                match k.kmalloc code with
                | (none, k) => (-1, k)
                | (some _, k) =>
                    let mnt : Mountpoint :=
                      { path := target.take (pathMax - 1)
                        root := root
                        fs := fs
                        flags := flags }
                    (0, { k with mountList := mnt :: k.mountList })
  | _, _ => some (-1, k)

def vfsOpen (path : Option CStr) (flags : UInt32) (mode : UInt16) :
    Option (Int × Kernel W) :=
  match path.bind k.findMount with
  | none => some (-1, k)
  | some (mnt, remainder) =>
      if ¬ mnt.fs.openFile then
        some (-1, k)
      else
        match k.kmalloc code with
        | (none, k) => some (-1, k)
        | (some file, k) =>
            let k := k.setFile file
              { File.blank with
                flags := flags
                refCount := 1 }
            match Vfs.freeSlot k.fdTable 0 fdMax with
            | none => some (-1, k.kfree code file)
            | some fd =>
                let k := k.setFd fd (some file)
                (through mnt.fs.openFile
                  (code.openFile mnt remainder flags mode file k)).map
                    fun opened =>
                  if opened.1 < 0 then
                    (-1, (opened.2.setFd fd none).kfree code file)
                  else
                    (fd, opened.2)

def vfsClose (fd : Int) : Option (Int × Kernel W) :=
  match k.fdFile fd with
  | none => some (-1, k)
  | some file =>
      let closed :=
        if k.hasOp file FileOps.close then
          through (k.hasOp file FileOps.close) (code.close file k)
        else
          some k
      closed.map fun k => (0, (k.kfree code file).setFd fd.toNat none)

def vfsRead (fd : Int) (buf : Nat) (len : UInt32) : Option (Int × Kernel W) :=
  match k.fdFile fd with
  | none => some (-1, k)
  | some file =>
      if ¬ k.hasOp file FileOps.read then some (-1, k)
      else through (k.hasOp file FileOps.read) (code.read file buf len k)

def vfsWrite (fd : Int) (buf : Nat) (len : UInt32) : Option (Int × Kernel W) :=
  match k.fdFile fd with
  | none => some (-1, k)
  | some file =>
      if ¬ k.hasOp file FileOps.write then some (-1, k)
      else through (k.hasOp file FileOps.write) (code.write file buf len k)

def vfsReaddir (fd : Int) (buf : Nat) (len : UInt32) :
    Option (Int × Kernel W) :=
  match k.fdFile fd with
  | none => some (-1, k)
  | some file =>
      if (k.file file).flags &&& oDirectory = 0 then some (-1, k)
      else if ¬ k.hasOp file FileOps.readdir then some (-1, k)
      else through (k.hasOp file FileOps.readdir) (code.readdir file buf len k)

def vfsMkdir (path : Option CStr) (mode : UInt16) : Option (Int × Kernel W) :=
  match path.bind k.findMount with
  | none => some (-1, k)
  | some (mnt, remainder) =>
      if ¬ mnt.fs.mkdir then some (-1, k)
      else through mnt.fs.mkdir (code.mkdir mnt remainder mode k)

def vfsUnlink (path : Option CStr) : Option (Int × Kernel W) :=
  match path.bind k.findMount with
  | none => some (-1, k)
  | some (mnt, remainder) =>
      if ¬ mnt.fs.unlink then some (-1, k)
      else through mnt.fs.unlink (code.unlink mnt remainder k)

end Kernel

/-!
# Sequences of calls
-/

inductive Call where
  | mount (source target fstype : Option CStr) (flags : UInt32)
  | openFile (path : Option CStr) (flags : UInt32) (mode : UInt16)
  | mkdir (path : Option CStr) (mode : UInt16)
  | unlink (path : Option CStr)
  | read (fd : Int) (buf : Nat) (len : UInt32)
  | write (fd : Int) (buf : Nat) (len : UInt32)
  | readdir (fd : Int) (buf : Nat) (len : UInt32)
  | close (fd : Int)

def perform (code : Code W) (k : Kernel W) : Call -> Option (Int × Kernel W)
  | Call.mount source target fstype flags =>
      k.vfsMount code source target fstype flags
  | Call.openFile path flags mode => k.vfsOpen code path flags mode
  | Call.mkdir path mode => k.vfsMkdir code path mode
  | Call.unlink path => k.vfsUnlink code path
  | Call.read fd buf len => k.vfsRead code fd buf len
  | Call.write fd buf len => k.vfsWrite code fd buf len
  | Call.readdir fd buf len => k.vfsReaddir code fd buf len
  | Call.close fd => k.vfsClose code fd

/-- The state after a call; after a call of `NULL` there is none to speak of. -/
def exec (code : Code W) (k : Kernel W) (c : Call) : Kernel W :=
  ((perform code k c).map Prod.snd).getD k

/-- `procfs_type` and `vibefs_type` name nothing but themselves. -/
def procfsType : FsType where
  name := cstr "procfs"
  mount := false
  openFile := false
  mkdir := false
  unlink := false

def vibefsType : FsType where
  name := cstr "vibefs"
  mount := false
  openFile := false
  mkdir := false
  unlink := false

/-- After `kernel_main` has registered the file systems. -/
def booted (memory : W) : Kernel W where
  fsList := [vibefsType, procfsType, Vfs.ramfsType]
  mountList := []
  fdTable := fun _ => none
  files := fun _ => none
  memory := memory

end Dispatch
end Fs
end EarlnuxOS
