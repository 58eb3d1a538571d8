import Mathlib.Logic.Function.Basic
import EarlnuxOS.Fs.Path

/-!
# Inodes, files and mounts

The objects of the virtual file system and the memory that holds them.  Each
object that the allocator hands out has a number of its own, and `NULL` is 0;
the allocator may refuse any request.  A freed object keeps its contents, and
the list of freed objects tells it from a live one.
-/

namespace EarlnuxOS
namespace Fs

def sIfmt : UInt16 := 0xF000
def sIfreg : UInt16 := 0x8000
def sIfdir : UInt16 := 0x4000
def sIflnk : UInt16 := 0xA000

def sIsdir (mode : UInt16) : Bool := mode &&& sIfmt == sIfdir

def oCreat : UInt32 := 0x40
def oTrunc : UInt32 := 0x200
def oAppend : UInt32 := 0x400

def fdMax : Nat := 1024

/-- A block of `length` bytes from the allocator. -/
structure Buffer where
  length : Nat
  byte : Nat -> UInt8

/-- `memset(p, 0, n)` on a block of `n` bytes. -/
def Buffer.zeroed (n : Nat) : Buffer where
  length := n
  byte := fun _ => 0

/-- `memcpy(nb, data, n)` -/
def Buffer.copy (nb data : Buffer) (n : Nat) : Buffer where
  length := nb.length
  byte := fun i => if i < n then data.byte i else nb.byte i

/-- `memcpy(data + pos, buf, buf.length)` -/
def Buffer.put (data : Buffer) (pos : Nat) (buf : CStr) : Buffer where
  length := data.length
  byte := fun i =>
    if pos ≤ i then (buf[i - pos]?).getD (data.byte i) else data.byte i

/-- `ramfs_dirent_t` -/
structure Dirent where
  name : CStr
  inode : Nat
deriving DecidableEq, Repr

/-- `inode_t`, with the `ramfs_inode_data_t` its `fs_data` points at. -/
structure Inode where
  ino : UInt32
  mode : UInt16
  size : UInt64
  nlinks : UInt32
  refCount : UInt32
  dirty : Bool
  data : Option Buffer
  capacity : UInt64
  entries : List Dirent
  linkTarget : Option CStr

def Inode.blank : Inode where
  ino := 0
  mode := 0
  size := 0
  nlinks := 0
  refCount := 0
  dirty := false
  data := none
  capacity := 0
  entries := []
  linkTarget := none

/-- The file operations that are not `NULL`; those that are set are ramfs's. -/
structure FileOps where
  close : Bool
  read : Bool
  write : Bool
deriving DecidableEq, Repr

structure File where
  inode : Nat
  pos : UInt64
  flags : UInt32
  refCount : UInt32
  ops : Option FileOps
deriving DecidableEq, Repr

def File.blank : File where
  inode := 0
  pos := 0
  flags := 0
  refCount := 0
  ops := none

/-- `fs_type_t`, with its operations in the same way. -/
structure FsType where
  name : CStr
  mount : Bool
  openFile : Bool
  mkdir : Bool
  unlink : Bool
deriving DecidableEq, Repr

structure Mountpoint where
  path : CStr
  root : Nat
  fs : FsType
  flags : UInt32
deriving DecidableEq, Repr

/-- The static variables of `vfs.c` and `ramfs.c`, and the objects in memory. -/
structure Vfs where
  fsList : List FsType
  mountList : List Mountpoint
  fdTable : Nat -> Option Nat
  files : Nat -> Option File
  inodes : Nat -> Option Inode
  nextIno : UInt32
  /-- The number of the next object. -/
  nextId : Nat
  /-- Which calls of `kmalloc` fail, and how many have been made. -/
  fails : Nat -> Bool
  calls : Nat
  freed : List Nat
  /-- An access has left the buffer it was meant for. -/
  outside : Bool
  /-- A function pointer was `NULL` when it was called. -/
  nullCall : Bool

namespace Vfs

def kmalloc (v : Vfs) : Option Nat × Vfs :=
  if v.fails v.calls then
    (none, { v with calls := v.calls + 1 })
  else
    (some v.nextId,
      { v with
        calls := v.calls + 1
        nextId := v.nextId + 1 })

def kfree (v : Vfs) (id : Nat) : Vfs :=
  { v with freed := id :: v.freed }

/-- The object at `id`; what an address without an object reads as is of no matter. -/
def inode (v : Vfs) (id : Nat) : Inode :=
  (v.inodes id).getD Inode.blank

def modifyInode (v : Vfs) (id : Nat) (f : Inode -> Inode) : Vfs :=
  { v with inodes := Function.update v.inodes id ((v.inodes id).map f) }

def setInode (v : Vfs) (id : Nat) (node : Inode) : Vfs :=
  { v with inodes := Function.update v.inodes id (some node) }

def file (v : Vfs) (id : Nat) : File :=
  (v.files id).getD File.blank

def setFile (v : Vfs) (id : Nat) (f : File) : Vfs :=
  { v with files := Function.update v.files id (some f) }

def setFd (v : Vfs) (fd : Nat) (file : Option Nat) : Vfs :=
  { v with fdTable := Function.update v.fdTable fd file }

end Vfs

end Fs
end EarlnuxOS
