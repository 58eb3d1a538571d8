import EarlnuxOS.Foundation.ByteRuns
import EarlnuxOS.Foundation.Run
import EarlnuxOS.Fs.Dispatch

/-!
# The calls over ramfs

With the functions of ramfs the calls of `Dispatch` do what those of `Vfs` do.
The listing of directories is left open.
-/

namespace EarlnuxOS
namespace Fs
namespace Dispatch

open Foundation

/-!
# The functions of ramfs
-/

/-- The memory of ramfs, and the buffers of the callers. -/
structure RamMemory where
  vfs : Vfs
  bytes : Memory

def File.plain (f : File) : Fs.File :=
  { inode := f.inode
    pos := f.pos
    flags := f.flags
    refCount := f.refCount
    ops := f.ops.map fun o => ⟨o.close, o.read, o.write⟩ }

def File.ofPlain (f : Fs.File) : File :=
  { inode := f.inode
    pos := f.pos
    flags := f.flags
    refCount := f.refCount
    ops := f.ops.map fun o => ⟨o.close, o.read, o.write, true⟩ }

@[simp] theorem File.plain_ofPlain (f : Fs.File) : (File.ofPlain f).plain = f := by
  cases f with
  | mk inode pos flags refCount ops =>
      cases ops with
      | none => rfl
      | some o => rfl

namespace Kernel

def seen (k : Kernel RamMemory) : Vfs :=
  { k.memory.vfs with
    fsList := k.fsList
    mountList := k.mountList
    fdTable := k.fdTable
    files := fun id => (k.files id).map File.plain }

def left (k : Kernel RamMemory) (v : Vfs) : Kernel RamMemory :=
  { fsList := v.fsList
    mountList := v.mountList
    fdTable := v.fdTable
    files := fun id => (v.files id).map File.ofPlain
    memory := { k.memory with vfs := v } }

end Kernel

/-- ramfs and the allocator; `ramfs_file_readdir` stays open. -/
def ramfsCode
    (readdir : Nat -> Nat -> UInt32 -> Kernel RamMemory ->
      Int × Kernel RamMemory) : Code RamMemory where
  kmalloc := fun m => (m.vfs.kmalloc.1, { m with vfs := m.vfs.kmalloc.2 })
  kfree := fun file m => { m with vfs := m.vfs.kfree file }
  mount := fun _ _ _ k =>
    let mounted := k.seen.ramfsMount
    (mounted.1, k.left mounted.2)
  openFile := fun mnt path flags mode file k =>
    let opened := k.seen.ramfsFsOpen mnt path flags mode file
    (opened.1, k.left opened.2)
  mkdir := fun mnt path mode k =>
    let made := k.seen.ramfsFsMkdir mnt path mode
    (made.1, k.left made.2)
  unlink := fun mnt path k =>
    let unlinked := k.seen.ramfsFsUnlink mnt path
    (unlinked.1, k.left unlinked.2)
  close := fun file k => k.left (k.seen.ramfsFileClose file)
  read := fun file buf len k =>
    let got := k.seen.ramfsFileRead file len
    let k := k.left got.2.2
    (got.1,
      { k with
        memory :=
          { k.memory with bytes := writeBytes k.memory.bytes buf got.2.1 } })
  write := fun file buf len k =>
    let put := k.seen.ramfsFileWrite file (readBytes k.memory.bytes buf len.toNat)
    (put.1, k.left put.2)
  readdir := readdir

namespace Kernel

@[simp] theorem seen_left (k : Kernel RamMemory) (v : Vfs) :
    (k.left v).seen = v := by
  unfold left seen
  simp only [Option.map_map, Function.comp_def, File.plain_ofPlain,
    Option.map_id']

section

variable (readdir : Nat -> Nat -> UInt32 -> Kernel RamMemory ->
  Int × Kernel RamMemory) (k : Kernel RamMemory)

theorem seen_kmalloc :
    ((k.kmalloc (ramfsCode readdir)).1,
      (k.kmalloc (ramfsCode readdir)).2.seen) = k.seen.kmalloc := by
  unfold kmalloc Vfs.kmalloc ramfsCode seen
  unfold Vfs.kmalloc
  dsimp only
  split
  · rfl
  · rfl

theorem seen_setFd (fd : Nat) (file : Option Nat) :
    (k.setFd fd file).seen = k.seen.setFd fd file := rfl

theorem seen_setFile (id : Nat) (f : File) :
    (k.setFile id f).seen = k.seen.setFile id f.plain := by
  have hfiles : (fun i => (Function.update k.files id (some f) i).map
      File.plain) =
        Function.update (fun i => (k.files i).map File.plain) id
          (some f.plain) := by
    funext i
    exact Function.apply_update (fun _ => Option.map File.plain) k.files id
      (some f) i
  unfold setFile Vfs.setFile seen
  dsimp only
  rw [hfiles]

theorem seen_findMount (path : CStr) :
    k.seen.findMount path = k.findMount path := rfl

theorem seen_fdFile (fd : Int) : k.seen.fdFile fd = k.fdFile fd := rfl

theorem seen_ops (file : Nat) :
    (k.seen.file file).ops =
      (k.file file).ops.map fun o => ⟨o.close, o.read, o.write⟩ := by
  unfold Vfs.file Kernel.file seen
  dsimp only
  cases k.files file with
  | none => rfl
  | some f => rfl

theorem seen_hasOp (file : Nat) (op : FileOps -> Bool)
    {plainOp : Fs.FileOps -> Bool}
    (hop : forall o : FileOps, plainOp ⟨o.close, o.read, o.write⟩ = op o) :
    k.seen.hasOp file plainOp = k.hasOp file op := by
  unfold Vfs.hasOp hasOp
  rw [seen_ops]
  cases (k.file file).ops with
  | none => rfl
  | some o => exact hop o

end

/-!
# The calls over ramfs
-/

/-- A call over ramfs returns what the call of `Vfs` returns. -/
def AsVfs (outcome : Option (Int × Kernel RamMemory)) (plain : Int × Vfs) :
    Prop :=
  outcome.map (fun o => (o.1, o.2.seen)) = some plain

section

variable (readdir : Nat -> Nat -> UInt32 -> Kernel RamMemory ->
  Int × Kernel RamMemory) (k : Kernel RamMemory)

theorem vfsMkdir_asVfs (path : CStr) (mode : UInt16) :
    AsVfs (k.vfsMkdir (ramfsCode readdir) (some path) mode)
      (k.seen.vfsMkdir path mode) := by
  unfold vfsMkdir Vfs.vfsMkdir
  rw [Option.bind_some, seen_findMount]
  cases hfind : k.findMount path with
  | none => rfl
  | some found =>
      dsimp only
      cases hop : found.1.fs.mkdir with
      | false => rfl
      | true =>
          exact congrArg some (Prod.ext rfl (seen_left k _))

theorem vfsUnlink_asVfs (path : CStr) :
    AsVfs (k.vfsUnlink (ramfsCode readdir) (some path))
      (k.seen.vfsUnlink path) := by
  unfold vfsUnlink Vfs.vfsUnlink
  rw [Option.bind_some, seen_findMount]
  cases hfind : k.findMount path with
  | none => rfl
  | some found =>
      dsimp only
      cases hop : found.1.fs.unlink with
      | false => rfl
      | true =>
          exact congrArg some (Prod.ext rfl (seen_left k _))

theorem vfsRead_asVfs (fd : Int) (buf : Nat) (len : UInt32) :
    AsVfs (k.vfsRead (ramfsCode readdir) fd buf len)
      ((k.seen.vfsRead fd len).1, (k.seen.vfsRead fd len).2.2) := by
  unfold vfsRead Vfs.vfsRead
  rw [seen_fdFile]
  cases hfile : k.fdFile fd with
  | none => rfl
  | some file =>
      dsimp only
      rw [seen_hasOp k file FileOps.read (fun _ => rfl)]
      cases hop : k.hasOp file FileOps.read with
      | false => rfl
      | true => 
          exact congrArg some (Prod.ext rfl (seen_left k _))

theorem vfsWrite_asVfs (fd : Int) (buf : Nat) (len : UInt32) :
    AsVfs (k.vfsWrite (ramfsCode readdir) fd buf len)
      (k.seen.vfsWrite fd (readBytes k.memory.bytes buf len.toNat)) := by
  unfold vfsWrite Vfs.vfsWrite
  rw [seen_fdFile]
  cases hfile : k.fdFile fd with
  | none => rfl
  | some file =>
      dsimp only
      rw [seen_hasOp k file FileOps.write (fun _ => rfl)]
      cases hop : k.hasOp file FileOps.write with
      | false => rfl
      | true =>
          exact congrArg some (Prod.ext rfl (seen_left k _))

theorem vfsMount_asVfs (source : Option CStr) (target fstype : CStr)
    (flags : UInt32) :
    AsVfs (k.vfsMount (ramfsCode readdir) source (some target) (some fstype)
        flags) (k.seen.vfsMount target fstype flags) ∨
      k.vfsMount (ramfsCode readdir) source (some target) (some fstype)
          flags = none ∧
        (k.seen.vfsMount target fstype flags).2.nullCall = true := by
  have htype : k.seen.fsList.find? (fun f => f.name == fstype) =
      k.findType fstype := rfl
  unfold vfsMount Vfs.vfsMount
  rw [htype]
  dsimp only
  cases hfind : k.findType fstype with
  | none => exact Or.inl rfl
  | some fs =>
      dsimp only
      cases hop : fs.mount with
      | false => exact Or.inr ⟨rfl, rfl⟩
      | true =>
          left
          have hmounted : (ramfsCode readdir).mount fs source flags k =
              (k.seen.ramfsMount.1, k.left k.seen.ramfsMount.2) := rfl
          rw [hmounted, if_neg (not_not.mpr rfl)]
          rcases k.seen.ramfsMount with ⟨root, v⟩
          cases root with
          | none => exact congrArg some (Prod.ext rfl (seen_left k v))
          | some root =>
              have hmalloc := seen_kmalloc readdir (k.left v)
              rw [seen_left] at hmalloc
              dsimp only
              rw [← hmalloc]
              rcases hmnt : (k.left v).kmalloc (ramfsCode readdir) with
                ⟨mnt, k'⟩
              rw [through_true, Option.map_some]
              dsimp only
              rw [hmnt]
              cases mnt with
              | none => rfl
              | some mnt => rfl

theorem vfsOpen_asVfs (path : CStr) (flags : UInt32) (mode : UInt16) :
    AsVfs (k.vfsOpen (ramfsCode readdir) (some path) flags mode)
      (k.seen.vfsOpen path flags mode) := by
  unfold vfsOpen Vfs.vfsOpen
  rw [Option.bind_some, seen_findMount]
  cases hfind : k.findMount path with
  | none => rfl
  | some found =>
      dsimp only
      cases hop : found.1.fs.openFile with
      | false => rfl
      | true =>
          have hmalloc := seen_kmalloc readdir k
          rw [← hmalloc, if_neg (not_not.mpr rfl), if_neg (not_not.mpr rfl)]
          rcases k.kmalloc (ramfsCode readdir) with ⟨file, k⟩
          cases file with
          | none => rfl
          | some file =>
              have hfile : k.seen.setFile file
                  { Fs.File.blank with
                    flags := flags
                    refCount := 1 } =
                    (k.setFile file
                      { File.blank with
                        flags := flags
                        refCount := 1 }).seen :=
                (seen_setFile k file
                  { File.blank with
                    flags := flags
                    refCount := 1 }).symm
              dsimp only at hfile ⊢
              rw [hfile]
              generalize k.setFile file _ = k
              have hslot : Vfs.freeSlot k.seen.fdTable 0 fdMax =
                  Vfs.freeSlot k.fdTable 0 fdMax := rfl
              rw [hslot]
              cases hfree : Vfs.freeSlot k.fdTable 0 fdMax with
              | none => rfl
              | some fd =>
                  dsimp only
                  rw [← seen_setFd]
                  generalize k.setFd fd (some file) = k
                  have hopened : (ramfsCode readdir).openFile found.1 found.2
                      flags mode file k =
                        ((k.seen.ramfsFsOpen found.1 found.2 flags mode
                            file).1,
                          k.left (k.seen.ramfsFsOpen found.1 found.2 flags
                            mode file).2) := rfl
                  rw [hopened, through_true, Option.map_some]
                  rcases k.seen.ramfsFsOpen found.1 found.2 flags mode file with
                    ⟨result, v⟩
                  dsimp only
                  unfold AsVfs
                  rw [Option.map_some]
                  split
                  · exact congrArg (fun v : Vfs =>
                      some ((-1 : Int), (v.setFd fd none).kfree file))
                        (seen_left k v)
                  · exact congrArg (fun v : Vfs => some ((fd : Int), v))
                      (seen_left k v)

theorem vfsClose_asVfs (fd : Int) :
    AsVfs (k.vfsClose (ramfsCode readdir) fd) (k.seen.vfsClose fd) := by
  unfold vfsClose Vfs.vfsClose
  rw [seen_fdFile]
  cases hfile : k.fdFile fd with
  | none => rfl
  | some file =>
      dsimp only
      rw [seen_hasOp k file FileOps.close (fun _ => rfl)]
      cases hop : k.hasOp file FileOps.close with
      | false => rfl
      | true =>
          exact congrArg
            (fun v : Vfs => some ((0 : Int), (v.kfree file).setFd fd.toNat none))
            (seen_left k (k.seen.ramfsFileClose file))

end

end Kernel

/-!
# Runs
-/

/-- The operation of `Vfs` that a call is, with the bytes that it writes. -/
def plainOp (k : Kernel RamMemory) : Call -> Option VfsOp
  | Call.openFile (some path) flags mode => some (VfsOp.openFile path flags mode)
  | Call.mkdir (some path) mode => some (VfsOp.mkdir path mode)
  | Call.unlink (some path) => some (VfsOp.unlink path)
  | Call.read fd _ len => some (VfsOp.read fd len)
  | Call.write fd buf len =>
      some (VfsOp.write fd (readBytes k.memory.bytes buf len.toNat))
  | Call.close fd => some (VfsOp.close fd)
  | _ => none

section

variable (readdir : Nat -> Nat -> UInt32 -> Kernel RamMemory ->
  Int × Kernel RamMemory)

def plainOps : Kernel RamMemory -> List Call -> List VfsOp
  | _, [] => []
  | k, c :: calls =>
      (plainOp k c).toList ++ plainOps (exec (ramfsCode readdir) k c) calls

theorem seen_exec_of_asVfs {k : Kernel RamMemory} {c : Call} {plain : Int × Vfs}
    (h : Kernel.AsVfs (perform (ramfsCode readdir) k c) plain) :
    (exec (ramfsCode readdir) k c).seen = plain.2 := by
  unfold Kernel.AsVfs at h
  rcases Option.map_eq_some_iff.mp h with ⟨outcome, hcall, hplain⟩
  unfold exec
  rw [hcall, ← hplain]
  rfl

theorem seen_exec {k : Kernel RamMemory} {c : Call} {op : VfsOp}
    (h : plainOp k c = some op) :
    (exec (ramfsCode readdir) k c).seen = k.seen.exec op := by
  cases c with
  | mount source target fstype flags => cases h
  | openFile path flags mode =>
      cases path with
      | none => cases h
      | some path =>
          cases h
          exact seen_exec_of_asVfs readdir
            (k.vfsOpen_asVfs readdir path flags mode)
  | mkdir path mode =>
      cases path with
      | none => cases h
      | some path =>
          cases h
          exact seen_exec_of_asVfs readdir (k.vfsMkdir_asVfs readdir path mode)
  | unlink path =>
      cases path with
      | none => cases h
      | some path =>
          cases h
          exact seen_exec_of_asVfs readdir (k.vfsUnlink_asVfs readdir path)
  | read fd buf len =>
      cases h
      exact seen_exec_of_asVfs (c := Call.read fd buf len) readdir
        (k.vfsRead_asVfs readdir fd buf len)
  | write fd buf len =>
      cases h
      exact seen_exec_of_asVfs readdir (k.vfsWrite_asVfs readdir fd buf len)
  | readdir fd buf len => cases h
  | close fd =>
      cases h
      exact seen_exec_of_asVfs readdir (k.vfsClose_asVfs readdir fd)

theorem seen_run {k : Kernel RamMemory} {calls : List Call}
    (h : Meets (exec (ramfsCode readdir))
      (fun k c => (plainOp k c).isSome = true) k calls) :
    (run (exec (ramfsCode readdir)) k calls).seen =
      run Vfs.exec k.seen (plainOps readdir k calls) := by
  induction calls generalizing k with
  | nil => rfl
  | cons c calls ih =>
      rcases Option.isSome_iff_exists.mp h.left with ⟨op, hop⟩
      have hstep := seen_exec readdir hop
      have hops : plainOps readdir k (c :: calls) =
          op :: plainOps readdir (exec (ramfsCode readdir) k c) calls := by
        rw [plainOps, hop]
        rfl
      rw [run_cons, ih h.right, hstep, hops]
      rfl

end

end Dispatch
end Fs
end EarlnuxOS
