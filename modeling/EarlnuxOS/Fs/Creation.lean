import EarlnuxOS.Fs.Vfs

/-!
# Creating inodes

`ramfs_create` asks for memory three times, and each request may be refused.
The equations of this module say what is left behind in each case.
-/

namespace EarlnuxOS
namespace Fs
namespace Vfs

def newInode (v : Vfs) (mode : UInt16) : Inode :=
  { Inode.blank with
    ino := v.nextIno
    mode := mode
    refCount := 1
    nlinks := 1 }

def refused (v : Vfs) : Vfs := { v with calls := v.calls + 1 }

def refusedData (v : Vfs) : Vfs :=
  { v with
    calls := v.calls + 2
    nextId := v.nextId + 1
    inodes := Function.update v.inodes v.nextId (some Inode.blank)
    freed := v.nextId :: v.freed }

def allocated (v : Vfs) (mode : UInt16) : Vfs :=
  { v with
    calls := v.calls + 2
    nextId := v.nextId + 2
    inodes := Function.update v.inodes v.nextId (some (v.newInode mode))
    nextIno := v.nextIno + 1 }

theorem ramfsAllocInode_eq (v : Vfs) (mode : UInt16) :
    v.ramfsAllocInode mode =
      if v.fails v.calls then (none, v.refused)
      else if v.fails (v.calls + 1) then (none, v.refusedData)
      else (some v.nextId, v.allocated mode) := by
  unfold ramfsAllocInode kmalloc
  cases hfirst : v.fails v.calls with
  | true => rfl
  | false =>
      cases hsecond : v.fails (v.calls + 1) with
      | true =>
          simp only [setInode, hsecond, Bool.false_eq_true, if_true, if_false]
          rfl
      | false =>
          simp only [setInode, hsecond, Bool.false_eq_true, if_false,
            Function.update_idem]
          rfl

def refusedEntry (v : Vfs) (mode : UInt16) : Vfs :=
  { v.allocated mode with
    calls := v.calls + 3
    freed := v.nextId :: v.freed }

def created (v : Vfs) (dir : Nat) (name : CStr) (mode : UInt16) : Vfs :=
  { v.allocated mode with
    calls := v.calls + 3
    nextId := v.nextId + 3 }.modifyInode dir (fun node =>
      { node with
        entries := ⟨name.take nameMax, v.nextId⟩ :: node.entries
        nlinks := node.nlinks + 1 })

theorem ramfsCreate_eq (v : Vfs) (dir : Nat) (name : CStr) (mode : UInt16) :
    v.ramfsCreate dir name mode =
      if v.fails v.calls then (none, v.refused)
      else if v.fails (v.calls + 1) then (none, v.refusedData)
      else if v.fails (v.calls + 2) then (none, v.refusedEntry mode)
      else (some v.nextId, v.created dir name mode) := by
  unfold ramfsCreate
  rw [ramfsAllocInode_eq]
  cases hfirst : v.fails v.calls with
  | true => rfl
  | false =>
      cases hsecond : v.fails (v.calls + 1) with
      | true => rfl
      | false =>
          cases hthird : v.fails (v.calls + 2) with
          | true =>
              simp only [kmalloc, allocated, hthird, Bool.false_eq_true,
                if_true, if_false]
              rfl
          | false =>
              simp only [kmalloc, allocated, hthird, Bool.false_eq_true,
                if_false]
              rfl

def withFile (v : Vfs) (flags : UInt32) : Vfs :=
  { v with
    calls := v.calls + 1
    nextId := v.nextId + 1
    files := Function.update v.files v.nextId
      (some { File.blank with
        flags := flags
        refCount := 1 }) }

/-- `vfs_open` calls the file system in this state. -/
def opening (v : Vfs) (flags : UInt32) (fd : Nat) : Vfs :=
  (v.withFile flags).setFd fd (some v.nextId)

theorem vfsOpen_eq (v : Vfs) {path rest : CStr} {mnt : Mountpoint}
    (flags : UInt32) (mode : UInt16)
    (hmount : v.findMount path = some (mnt, rest))
    (hopen : mnt.fs.openFile = true) :
    v.vfsOpen path flags mode =
      if v.fails v.calls then (-1, v.refused)
      else
        match freeSlot v.fdTable 0 fdMax with
        | none => (-1, (v.withFile flags).kfree v.nextId)
        | some fd =>
            let opened :=
              (v.opening flags fd).ramfsFsOpen mnt rest flags mode v.nextId
            if opened.1 < 0 then
              (-1, (opened.2.setFd fd none).kfree v.nextId)
            else
              ((fd : Int), opened.2) := by
  unfold vfsOpen
  rw [hmount]
  dsimp only
  rw [if_neg (by simp [hopen])]
  unfold kmalloc
  cases v.fails v.calls with
  | true => rfl
  | false => rfl

def refusedMount (v : Vfs) : Vfs :=
  { v.allocated (sIfdir ||| 0o755) with calls := v.calls + 3 }

def mounted (v : Vfs) (mnt : Mountpoint) : Vfs :=
  { v.allocated (sIfdir ||| 0o755) with
    calls := v.calls + 3
    nextId := v.nextId + 3
    mountList := mnt :: v.mountList }

theorem vfsMount_found (v : Vfs) {target fstype : CStr} {fs : FsType}
    (flags : UInt32)
    (hfind : v.fsList.find? (fun f => f.name == fstype) = some fs)
    (hmount : fs.mount = true) :
    v.vfsMount target fstype flags =
      if v.fails v.calls then (-1, v.refused)
      else if v.fails (v.calls + 1) then (-1, v.refusedData)
      else if v.fails (v.calls + 2) then (-1, v.refusedMount)
      else
        (0, v.mounted ⟨target.take (pathMax - 1), v.nextId, fs, flags⟩) := by
  unfold vfsMount
  rw [hfind]
  dsimp only
  rw [if_neg (by simp [hmount])]
  unfold ramfsMount
  rw [ramfsAllocInode_eq]
  cases hfirst : v.fails v.calls with
  | true => rfl
  | false =>
      cases hsecond : v.fails (v.calls + 1) with
      | true => rfl
      | false =>
          unfold kmalloc allocated
          cases hthird : v.fails (v.calls + 2) with
          | true =>
              simp only [hthird, Bool.false_eq_true, if_true, if_false]
              rfl
          | false =>
              simp only [hthird, Bool.false_eq_true, if_false]
              rfl

/-- Mounting a ramfs first, and what is left when there is no memory for it. -/
theorem vfsMount_eq (fails : Nat -> Bool) (target : CStr) (flags : UInt32) :
    (boot fails).vfsMount target ramfsType.name flags =
      if fails 0 then (-1, (boot fails).refused)
      else if fails 1 then (-1, (boot fails).refusedData)
      else if fails 2 then
        (-1, { (boot fails).allocated (sIfdir ||| 0o755) with calls := 3 })
      else
        (0, { (boot fails).allocated (sIfdir ||| 0o755) with
          calls := 3
          nextId := 4
          mountList :=
            [⟨target.take (pathMax - 1), 1, ramfsType, flags⟩] }) := by
  have hfind : (boot fails).fsList.find? (fun f => f.name == ramfsType.name) =
      some ramfsType := by
    unfold boot vfsRegisterFs
    dsimp only
    rw [List.find?_cons_of_pos (by simp)]
  exact (boot fails).vfsMount_found flags hfind rfl

theorem freshMount_eq (fails : Nat -> Bool) (target : CStr) (flags : UInt32) :
    freshMount fails target flags =
      if fails 0 then (boot fails).refused
      else if fails 1 then (boot fails).refusedData
      else if fails 2 then
        { (boot fails).allocated (sIfdir ||| 0o755) with calls := 3 }
      else
        { (boot fails).allocated (sIfdir ||| 0o755) with
          calls := 3
          nextId := 4
          mountList := [⟨target.take (pathMax - 1), 1, ramfsType, flags⟩] } := by
  unfold freshMount
  rw [vfsMount_eq, apply_ite Prod.snd, apply_ite Prod.snd, apply_ite Prod.snd]

theorem mountList_freshMount (fails : Nat -> Bool) (target : CStr)
    (flags : UInt32)
    (hmount : ((boot fails).vfsMount target ramfsType.name flags).1 = 0) :
    (freshMount fails target flags).mountList =
      [⟨target.take (pathMax - 1), 1, ramfsType, flags⟩] := by
  unfold freshMount
  rw [vfsMount_eq] at hmount ⊢
  split at hmount
  · cases hmount
  split at hmount
  · cases hmount
  split at hmount
  · cases hmount
  · rename_i hfirst hsecond hthird
    rw [if_neg hfirst, if_neg hsecond, if_neg hthird]

theorem inode_update {v w : Vfs} {id : Nat} {n : Inode}
    (h : w.inodes = Function.update v.inodes id (some n)) (j : Nat) :
    w.inode j = if j = id then n else v.inode j := by
  unfold inode
  rw [h, Function.update_apply]
  split <;> rfl

theorem inode_modifyInode (v : Vfs) (id j : Nat) (f : Inode -> Inode) :
    (v.modifyInode id f).inode j =
      if j = id ∧ (v.inodes id).isSome then f (v.inode id) else v.inode j := by
  unfold inode modifyInode
  dsimp only
  rw [Function.update_apply]
  by_cases hj : j = id
  · rw [if_pos hj, hj]
    cases v.inodes id <;> simp
  · rw [if_neg hj, if_neg (fun h => hj h.left)]

theorem entries_dropLink (v : Vfs) (id j : Nat) :
    ((v.dropLink id).inode j).entries = (v.inode j).entries := by
  unfold dropLink
  rw [inode_modifyInode]
  split
  · rename_i hj
    rw [hj.left]
  · rfl

end Vfs
end Fs
end EarlnuxOS
