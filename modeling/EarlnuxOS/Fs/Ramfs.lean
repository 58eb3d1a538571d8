import EarlnuxOS.Fs.Inode

/-!
# ramfs

The operations of `kernel/fs/ramfs.c`.  Each takes the state before and gives
the state after, with what the C function returns.
-/

namespace EarlnuxOS
namespace Fs
namespace Vfs

/-!
# Directories
-/

def ramfsAllocInode (v : Vfs) (mode : UInt16) : Option Nat × Vfs :=
  match v.kmalloc with
  | (none, v) => (none, v)
  | (some id, v) =>
      let v := v.setInode id Inode.blank
      match v.kmalloc with
      | (none, v) => (none, v.kfree id)
      | (some _, v) =>
          let node :=
            { Inode.blank with
              ino := v.nextIno
              mode := mode
              refCount := 1
              nlinks := 1 }
          (some id, { v.setInode id node with nextIno := v.nextIno + 1 })

def ramfsLookup (v : Vfs) (dir : Nat) (name : CStr) : Option Nat × Vfs :=
  match (v.inode dir).entries.find?
      (fun de => strncmpEq de.name name nameMax) with
  | none => (none, v)
  | some de =>
      (some de.inode, v.modifyInode de.inode
        (fun node => { node with refCount := node.refCount + 1 }))

/-- The loop of `ramfs_get_inode_by_path`. -/
def walk (v : Vfs) (curr : Nat) : List CStr -> Option Nat × Vfs
  | [] => (some curr, v)
  | buf :: rest =>
      if buf = dot then walk v curr rest
      else if buf = dotDot then walk v curr rest
      else if ¬ sIsdir (v.inode curr).mode then (none, v)
      else
        match v.ramfsLookup curr buf with
        | (none, v) => (none, v)
        | (some next, v) => walk v next rest

def ramfsGetInodeByPath (v : Vfs) (root : Nat) (path : CStr) :
    Option Nat × Vfs :=
  if path = [] ∨ path = [slash] then (some root, v)
  else v.walk root (components path.length path)

/-- `ramfs_create`: the new inode, `none` for an error. -/
def ramfsCreate (v : Vfs) (dir : Nat) (name : CStr) (mode : UInt16) :
    Option Nat × Vfs :=
  match v.ramfsAllocInode mode with
  | (none, v) => (none, v)
  | (some id, v) =>
      match v.kmalloc with
      | (none, v) => (none, v.kfree id)
      | (some _, v) =>
          let de : Dirent :=
            { name := name.take nameMax
              inode := id }
          (some id, v.modifyInode dir (fun node =>
            { node with
              entries := de :: node.entries
              nlinks := node.nlinks + 1 }))

def ramfsMkdir (v : Vfs) (dir : Nat) (name : CStr) (mode : UInt16) :
    Int × Vfs :=
  match v.ramfsCreate dir name (sIfdir ||| (mode &&& 0o777)) with
  | (none, v) => (-1, v)
  | (some _, v) => (0, v)

/-- `node->nlinks--` -/
def dropLink (v : Vfs) (id : Nat) : Vfs :=
  v.modifyInode id (fun node => { node with nlinks := node.nlinks - 1 })

def ramfsUnlink (v : Vfs) (dir : Nat) (name : CStr) : Int × Vfs :=
  match (v.inode dir).entries.find?
      (fun de => strncmpEq de.name name nameMax) with
  | none => (-1, v)
  | some victim =>
      let v := v.modifyInode dir (fun node =>
        { node with
          entries := node.entries.eraseP
            (fun de => strncmpEq de.name name nameMax) })
      let v := v.dropLink victim.inode
      let node := v.inode victim.inode
      let v :=
        if node.nlinks = 0 ∧ node.refCount ≤ 1 then v.kfree victim.inode
        else v
      (0, v.dropLink dir)

def ramfsRmdir (v : Vfs) (dir : Nat) (name : CStr) : Int × Vfs :=
  v.ramfsUnlink dir name

def ramfsSymlink (v : Vfs) (dir : Nat) (name target : CStr) : Int × Vfs :=
  match v.ramfsCreate dir name (sIflnk ||| 0o777) with
  | (none, v) => (-1, v)
  | (some id, v) =>
      let len := UInt32.ofNat target.length + 1
      match v.kmalloc with
      | (none, v) => (-1, v)
      | (some _, v) =>
          (0, v.modifyInode id (fun node =>
            { node with
              linkTarget := some target
              size := (len - 1).toUInt64 }))

/-!
# File contents
-/

def touch (v : Vfs) (data : Buffer) (pos n : Nat) : Vfs :=
  { v with
    outside := v.outside || (0 < n && decide (data.length < pos + n)) }

def setData (v : Vfs) (id : Nat) (data : Buffer) (capacity : UInt64) : Vfs :=
  v.modifyInode id (fun node =>
    { node with
      data := some data
      capacity := capacity })

/--
Move the contents to a new block of which `copy` bytes are old; `false` when
there is no memory for it.
-/
def replaceData (v : Vfs) (id : Nat) (newCap : UInt64) (copy : Nat) :
    Bool × Vfs :=
  match v.kmalloc with
  | (none, v) => (false, v)
  | (some _, v) =>
      let nb := Buffer.zeroed newCap.toUInt32.toNat
      match (v.inode id).data with
      | none => (true, v.setData id nb newCap)
      | some data =>
          let v := (v.touch data 0 copy).touch nb 0 copy
          (true, v.setData id (nb.copy data copy) newCap)

def ramfsTruncate (v : Vfs) (id : Nat) (size : UInt64) : Int × Vfs :=
  if size = 0 then
    (0, v.modifyInode id (fun node =>
      { node with
        data := none
        capacity := 0
        size := 0 }))
  else
    let old := (v.inode id).size
    let copy := (if old < size then old else size).toUInt32.toNat
    match v.replaceData id size copy with
    | (false, v) => (-1, v)
    | (true, v) =>
        (0, v.modifyInode id (fun node => { node with size := size }))

def toInt (n : UInt32) : Int := n.toInt32.toInt

/-- `ramfs_file_read`: the result, and the bytes put into the caller's buffer. -/
def ramfsFileRead (v : Vfs) (id : Nat) (count : UInt32) :
    Int × CStr × Vfs :=
  let f := v.file id
  let node := v.inode f.inode
  match node.data with
  | none => (0, [], v)
  | some data =>
      if node.size ≤ f.pos then
        (0, [], v)
      else
        let avail := (node.size - f.pos).toUInt32
        let n := if count < avail then count else avail
        let bytes := (List.range n.toNat).map
          (fun i => data.byte (f.pos.toNat + i))
        let v := v.touch data f.pos.toNat n.toNat
        let pos := f.pos + n.toUInt64
        (toInt n, bytes, v.setFile id { f with pos := pos })

/-- The growth of the buffer in `ramfs_file_write`. -/
def growData (v : Vfs) (id : Nat) (newEnd : UInt64) : Bool × Vfs :=
  let capacity := (v.inode id).capacity
  if capacity < newEnd then
    let newCap := if newEnd < 4096 then 4096 else newEnd * 2
    v.replaceData id newCap capacity.toUInt32.toNat
  else
    (true, v)

def ramfsFileWrite (v : Vfs) (id : Nat) (buf : CStr) : Int × Vfs :=
  let f := v.file id
  let count := UInt32.ofNat buf.length
  let newEnd := f.pos + count.toUInt64
  match v.growData f.inode newEnd with
  | (false, v) => (-1, v)
  | (true, v) =>
      let data := (v.inode f.inode).data.getD (Buffer.zeroed 0)
      let v := v.touch data f.pos.toNat buf.length
      let v := v.setFile id { f with pos := newEnd }
      let v := v.modifyInode f.inode (fun node =>
        { node with
          data := node.data.map (fun data => data.put f.pos.toNat buf)
          size := if node.size < newEnd then newEnd else node.size
          dirty := true })
      (toInt count, v)

def ramfsFileClose (v : Vfs) (_file : Nat) : Vfs := v

/-!
# Path operations
-/

def ramfsFileOps : FileOps where
  close := true
  read := true
  write := true

/-- The inode that `ramfs_fs_open` finds or creates. -/
def findOrCreate (v : Vfs) (mnt : Mountpoint) (path : CStr) (flags : UInt32)
    (mode : UInt16) : Option Nat × Vfs :=
  match v.ramfsGetInodeByPath mnt.root path with
  | (some node, v) => (some node, v)
  | (none, v) =>
      if flags &&& oCreat = 0 then
        (none, v)
      else
        match v.ramfsGetInodeByPath mnt.root (pathDirname path pathMax) with
        | (none, v) => (none, v)
        | (some dir, v) =>
            if ¬ sIsdir (v.inode dir).mode then (none, v)
            else v.ramfsCreate dir (pathBasename path pathMax)
              (sIfreg ||| (mode &&& 0o777))

def ramfsFsOpen (v : Vfs) (mnt : Mountpoint) (path : CStr) (flags : UInt32)
    (mode : UInt16) (file : Nat) : Int × Vfs :=
  match v.findOrCreate mnt path flags mode with
  | (none, v) => (-1, v)
  | (some node, v) =>
      let v := v.setFile file
        { v.file file with
          inode := node
          ops := some ramfsFileOps
          pos := 0 }
      let v :=
        if flags &&& oTrunc = 0 then v else (v.ramfsTruncate node 0).2
      let v :=
        if flags &&& oAppend = 0 then v
        else v.setFile file { v.file file with pos := (v.inode node).size }
      (0, v)

def ramfsFsMkdir (v : Vfs) (mnt : Mountpoint) (path : CStr) (mode : UInt16) :
    Int × Vfs :=
  match v.ramfsGetInodeByPath mnt.root (pathDirname path pathMax) with
  | (none, v) => (-1, v)
  | (some dir, v) =>
      if ¬ sIsdir (v.inode dir).mode then (-1, v)
      else v.ramfsMkdir dir (pathBasename path pathMax) mode

def ramfsFsUnlink (v : Vfs) (mnt : Mountpoint) (path : CStr) : Int × Vfs :=
  match v.ramfsGetInodeByPath mnt.root (pathDirname path pathMax) with
  | (none, v) => (-1, v)
  | (some dir, v) =>
      if ¬ sIsdir (v.inode dir).mode then (-1, v)
      else v.ramfsUnlink dir (pathBasename path pathMax)

def ramfsMount (v : Vfs) : Option Nat × Vfs :=
  v.ramfsAllocInode (sIfdir ||| 0o755)

def ramfsType : FsType where
  name := cstr "ramfs"
  mount := true
  openFile := true
  mkdir := true
  unlink := true

end Vfs
end Fs
end EarlnuxOS
