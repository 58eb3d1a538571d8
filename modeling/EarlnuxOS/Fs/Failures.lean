import EarlnuxOS.Fs.Descriptors

/-!
# Calls that fail

An operation that reports an error should leave everything a caller can see as
it was.  Memory is asked for up to four times on the way, and each request may
be refused.
-/

namespace EarlnuxOS
namespace Fs

def Inode.visible (node : Inode) :
    List Dirent × UInt16 × UInt64 × Option CStr × Option Buffer :=
  (node.entries, node.mode, node.size, node.linkTarget, node.data)

namespace Vfs

variable {v v' : Vfs}

/-- Every inode that there was, the descriptors and the mounts look the same. -/
structure SameVisible (v v' : Vfs) : Prop where
  inode : forall id, v.inodes id ≠ none ->
    (v'.inodes id).map Inode.visible = (v.inodes id).map Inode.visible
  fdTable : v'.fdTable = v.fdTable
  file : forall fd file, v.fdTable fd = some file ->
    v'.file file = v.file file
  mountList : v'.mountList = v.mountList

/-- Objects have numbers below that of the next one. -/
structure HandedOut (v : Vfs) : Prop where
  inode : forall id, v.inodes id ≠ none -> id < v.nextId
  file : forall fd file, v.fdTable fd = some file -> file < v.nextId

theorem ObjInv.handedOut (hi : ObjInv v) : HandedOut v where
  inode := hi.inode_lt
  file := fun fd file h => (hi.file_lt fd file h).left

namespace SameVisible

theorem refl (v : Vfs) : SameVisible v v where
  inode := fun _ _ => rfl
  fdTable := rfl
  file := fun _ _ _ => rfl
  mountList := rfl

theorem known (h : SameVisible v v') {id : Nat} (hid : v.inodes id ≠ none) :
    v'.inodes id ≠ none := by
  intro hnone
  have hsame := h.inode id hid
  rw [hnone] at hsame
  exact hid (Option.map_eq_none_iff.mp hsame.symm)

theorem trans {w : Vfs} (h : SameVisible v v') (h' : SameVisible v' w) :
    SameVisible v w where
  inode := fun id hid =>
    (h'.inode id (h.known hid)).trans (h.inode id hid)
  fdTable := h'.fdTable.trans h.fdTable
  file := by
    intro fd file hfd
    have hfd' : v'.fdTable fd = some file := by
      rw [h.fdTable]
      exact hfd
    exact (h'.file fd file hfd').trans (h.file fd file hfd)
  mountList := h'.mountList.trans h.mountList

theorem visible_eq (h : SameVisible v v') {id : Nat}
    (hid : v.inodes id ≠ none) :
    (v'.inode id).visible = (v.inode id).visible := by
  have hsame := h.inode id hid
  unfold Vfs.inode
  cases hold : v.inodes id with
  | none => exact absurd hold hid
  | some node =>
      rw [hold] at hsame
      rcases Option.map_eq_some_iff.mp hsame with ⟨node', hnew, heq⟩
      rw [hnew]
      exact heq

theorem of_eq (hinodes : v'.inodes = v.inodes)
    (hfiles : v'.files = v.files) (hfd : v'.fdTable = v.fdTable)
    (hmount : v'.mountList = v.mountList) : SameVisible v v' where
  inode := fun id _ => by rw [hinodes]
  fdTable := hfd
  file := by
    intro fd file _
    unfold Vfs.file
    rw [hfiles]
  mountList := hmount

theorem of_update (h : HandedOut v) {n : Inode}
    (hinodes : v'.inodes = Function.update v.inodes v.nextId (some n))
    (hfiles : v'.files = v.files) (hfd : v'.fdTable = v.fdTable)
    (hmount : v'.mountList = v.mountList) : SameVisible v v' where
  inode := by
    intro id hid
    rw [hinodes, Function.update_of_ne (Nat.ne_of_lt (h.inode id hid))]
  fdTable := hfd
  file := by
    intro fd file _
    unfold Vfs.file
    rw [hfiles]
  mountList := hmount

end SameVisible

/-!
# Resolving and creating
-/

theorem inodes_noRefs (h : v'.noRefs = v.noRefs) (id : Nat) :
    (v'.inodes id).map Inode.noRefs = (v.inodes id).map Inode.noRefs :=
  congrFun (congrArg Vfs.inodes h) id

theorem sameVisible_noRefs (h : v'.noRefs = v.noRefs) : SameVisible v v' where
  inode := by
    intro id _
    have hforget : Inode.visible ∘ Inode.noRefs = Inode.visible := rfl
    rw [← hforget, ← Option.map_map, ← Option.map_map, inodes_noRefs h id]
  fdTable := field_congr Vfs.fdTable (fun _ => rfl) h
  file := fun _ file _ => field_congr (fun v => v.file file) (fun _ => rfl) h
  mountList := field_congr Vfs.mountList (fun _ => rfl) h

theorem HandedOut.noRefs (h : HandedOut v) (hsame : v'.noRefs = v.noRefs) :
    HandedOut v' where
  inode := by
    intro id hid
    have hkeeps := keeps_noRefs hsame
    exact Nat.lt_of_lt_of_le (h.inode id ((hkeeps.known id).mp hid))
      hkeeps.nextId
  file := by
    intro fd file hfd
    have hkeeps := keeps_noRefs hsame
    rw [hkeeps.fdTable] at hfd
    exact Nat.lt_of_lt_of_le (h.file fd file hfd) hkeeps.nextId

theorem ramfsCreate_failed (h : HandedOut v) {dir : Nat} {name : CStr}
    {mode : UInt16} (hfail : (v.ramfsCreate dir name mode).1 = none) :
    SameVisible v (v.ramfsCreate dir name mode).2 := by
  rw [ramfsCreate_eq] at hfail ⊢
  split
  · exact SameVisible.of_eq rfl rfl rfl rfl
  rename_i hfirst
  rw [if_neg hfirst] at hfail
  split
  · exact SameVisible.of_update h rfl rfl rfl rfl
  rename_i hsecond
  rw [if_neg hsecond] at hfail
  split
  · exact SameVisible.of_update h rfl rfl rfl rfl
  · rename_i hthird
    rw [if_neg hthird] at hfail
    cases hfail

theorem findOrCreate_failed (h : HandedOut v) {mnt : Mountpoint}
    {path : CStr} {flags : UInt32} {mode : UInt16}
    (hfail : (v.findOrCreate mnt path flags mode).1 = none) :
    SameVisible v (v.findOrCreate mnt path flags mode).2 := by
  unfold findOrCreate at hfail ⊢
  rcases v.getInode_eq mnt.root path with ⟨w, hw, hsame⟩
  have hvisible := sameVisible_noRefs hsame
  rw [hw] at hfail ⊢
  cases hres : v.resolve mnt.root path with
  | some node =>
      rw [hres] at hfail
      cases hfail
  | none =>
      rw [hres] at hfail
      dsimp only at hfail ⊢
      split
      · exact hvisible
      rename_i hcreat
      rw [if_neg hcreat] at hfail
      rcases w.getInode_eq mnt.root (pathDirname path pathMax) with
        ⟨u, hu, hsame'⟩
      have hvisible' := hvisible.trans (sameVisible_noRefs hsame')
      rw [hu] at hfail ⊢
      cases hdir : w.resolve mnt.root (pathDirname path pathMax) with
      | none => exact hvisible'
      | some dir =>
          rw [hdir] at hfail
          dsimp only at hfail ⊢
          split
          · exact hvisible'
          rename_i hmode
          rw [if_neg hmode] at hfail
          have hout := (h.noRefs hsame).noRefs hsame'
          exact hvisible'.trans (ramfsCreate_failed hout hfail)

theorem ramfsFsOpen_failed (h : HandedOut v) {mnt : Mountpoint}
    {path : CStr} {flags : UInt32} {mode : UInt16} {file : Nat}
    (hfail : (v.ramfsFsOpen mnt path flags mode file).1 < 0) :
    SameVisible v (v.ramfsFsOpen mnt path flags mode file).2 := by
  unfold ramfsFsOpen at hfail ⊢
  cases hfound : v.findOrCreate mnt path flags mode with
  | mk found w =>
      rw [hfound] at hfail
      cases found with
      | none =>
          have hnone : (v.findOrCreate mnt path flags mode).1 = none := by
            rw [hfound]
          have hvisible := findOrCreate_failed h hnone
          rw [hfound] at hvisible
          exact hvisible
      | some node => exact absurd hfail (Int.lt_irrefl 0)

theorem ramfsMkdir_failed (h : HandedOut v) {dir : Nat} {name : CStr}
    {mode : UInt16} (hfail : (v.ramfsMkdir dir name mode).1 = -1) :
    SameVisible v (v.ramfsMkdir dir name mode).2 := by
  unfold ramfsMkdir at hfail ⊢
  split
  · rename_i w hcreate
    have hvisible := ramfsCreate_failed h (congrArg Prod.fst hcreate)
    rw [hcreate] at hvisible
    exact hvisible
  · rename_i hcreate
    rw [hcreate] at hfail
    cases hfail

/-!
# Contents
-/

theorem replaceData_fst (v : Vfs) (id : Nat) (newCap : UInt64) (copy : Nat) :
    (v.replaceData id newCap copy).1 = !v.fails v.calls := by
  unfold replaceData kmalloc
  cases v.fails v.calls with
  | true => rfl
  | false =>
      simp only [Bool.false_eq_true, if_false, Bool.not_false]
      split <;> rfl

theorem replaceData_refused {id : Nat} {newCap : UInt64} {copy : Nat}
    (hfail : v.fails v.calls = true) :
    v.replaceData id newCap copy = (false, v.refused) := by
  unfold replaceData kmalloc
  rw [if_pos hfail]
  rfl

theorem ramfsTruncate_failed {id : Nat} {size : UInt64}
    (hfail : (v.ramfsTruncate id size).1 = -1) :
    SameVisible v (v.ramfsTruncate id size).2 := by
  unfold ramfsTruncate at hfail ⊢
  split
  · rename_i hzero
    rw [if_pos hzero] at hfail
    cases hfail
  rename_i hzero
  rw [if_neg hzero] at hfail
  dsimp only at hfail ⊢
  cases hmem : v.fails v.calls with
  | true =>
      rw [replaceData_refused hmem]
      exact SameVisible.of_eq rfl rfl rfl rfl
  | false =>
      have hgiven := v.replaceData_fst id size
        (if (v.inode id).size < size then (v.inode id).size
          else size).toUInt32.toNat
      rw [hmem] at hgiven
      split at hfail
      · rename_i hfst
        rw [hfst] at hgiven
        cases hgiven
      · cases hfail

/-- There is no memory for the buffer that the write needs. -/
def WriteRefused (v : Vfs) (file : Nat) (buf : CStr) : Prop :=
  (v.inode (v.file file).inode).capacity <
      (v.file file).pos + (UInt32.ofNat buf.length).toUInt64 ∧
    v.fails v.calls = true

theorem ramfsFileWrite_refused {file : Nat} {buf : CStr}
    (h : WriteRefused v file buf) :
    v.ramfsFileWrite file buf = (-1, v.refused) := by
  unfold ramfsFileWrite growData
  dsimp only
  rw [if_pos h.left, replaceData_refused h.right]

theorem growData_given {file : Nat} {buf : CStr}
    (h : ¬ WriteRefused v file buf) :
    (v.growData (v.file file).inode ((v.file file).pos +
      (UInt32.ofNat buf.length).toUInt64)).1 = true := by
  unfold growData
  dsimp only
  split
  · rename_i hless
    rw [replaceData_fst, Bool.not_eq_true']
    by_contra hfail
    exact h ⟨hless, by simpa using hfail⟩
  · rfl

theorem ramfsFileWrite_given {file : Nat} {buf : CStr}
    (h : ¬ WriteRefused v file buf) :
    (v.ramfsFileWrite file buf).1 = toInt (UInt32.ofNat buf.length) ∧
      ((v.ramfsFileWrite file buf).2.file file).pos =
        (v.file file).pos + (UInt32.ofNat buf.length).toUInt64 := by
  have hgrow := growData_given h
  unfold ramfsFileWrite
  dsimp only
  split
  · rename_i hfst
    rw [hfst] at hgrow
    cases hgrow
  · refine ⟨rfl, ?_⟩
    rw [file_modifyInode]
    exact congrArg File.pos ((file_setFile _ file file _).trans (if_pos rfl))

theorem toInt_eq_neg_one {n : UInt32} : toInt n = -1 <-> n = 0xFFFFFFFF := by
  have hlt : n.toNat < 2 ^ 32 := n.toNat_lt
  have hcond : toInt n = if 2 * n.toNat < 2 ^ 32 then (n.toNat : Int)
      else (n.toNat : Int) - (2 ^ 32 : Nat) :=
    BitVec.toInt_eq_toNat_cond n.toBitVec
  rw [hcond, ← UInt32.toNat_inj]
  show _ <-> n.toNat = 0xFFFFFFFF
  split <;> omega

theorem add_max_ne (pos : UInt64) :
    pos + (0xFFFFFFFF : UInt32).toUInt64 ≠ pos := by
  intro h
  have hnat := congrArg UInt64.toNat h
  rw [UInt64.toNat_add] at hnat
  have hlt := pos.toNat_lt
  have hmax : (0xFFFFFFFF : UInt32).toUInt64.toNat = 0xFFFFFFFF := rfl
  omega

/-- A write of `2 ^ 32 - 1` bytes returns `-1` although it is done. -/
theorem ramfsFileWrite_iff {fd file : Nat} {buf : CStr}
    (hfd : v.fdTable fd = some file) :
    ((v.ramfsFileWrite file buf).1 = -1 ->
        SameVisible v (v.ramfsFileWrite file buf).2) <->
      (UInt32.ofNat buf.length = 0xFFFFFFFF -> WriteRefused v file buf) := by
  by_cases hrefused : WriteRefused v file buf
  · rw [ramfsFileWrite_refused hrefused]
    exact iff_of_true (fun _ => SameVisible.of_eq rfl rfl rfl rfl)
      (fun _ => hrefused)
  · have hgiven := ramfsFileWrite_given hrefused
    rw [hgiven.left, toInt_eq_neg_one]
    refine imp_congr_right fun hmax => ?_
    refine iff_of_false ?_ hrefused
    intro hvisible
    have hpos := congrArg File.pos (hvisible.file fd file hfd)
    rw [hgiven.right, hmax] at hpos
    exact add_max_ne _ hpos

/-!
# Symbolic links
-/

theorem hasMemory_of_created {dir id : Nat} {name : CStr} {mode : UInt16}
    (h : (v.ramfsCreate dir name mode).1 = some id) : v.hasMemory 3 = true := by
  rw [ramfsCreate_eq] at h
  rw [hasMemory_three]
  split at h
  · cases h
  rename_i hfirst
  split at h
  · cases h
  rename_i hsecond
  split at h
  · cases h
  rename_i hthird
  exact ⟨Bool.eq_false_of_not_eq_true hfirst,
    Bool.eq_false_of_not_eq_true hsecond, Bool.eq_false_of_not_eq_true hthird⟩

theorem created_visible (h : HandedOut v) {dir : Nat} (name : CStr)
    (mode : UInt16) (hdir : v.inodes dir ≠ none) :
    ¬ SameVisible v (v.created dir name mode) := by
  intro hvisible
  have hadds := v.adds_created name mode hdir (Nat.ne_of_lt (h.inode dir hdir))
  rcases hadds.entry with ⟨name', hentry⟩
  have hsame := congrArg Prod.fst (hvisible.visible_eq hdir)
  exact List.cons_ne_self _ _ (hentry.symm.trans hsame)

/-- The inode has its place in the directory before its target has memory. -/
theorem ramfsSymlink_iff (h : HandedOut v) {dir : Nat} {name target : CStr}
    (hdir : v.inodes dir ≠ none) :
    ((v.ramfsSymlink dir name target).1 = -1 ->
        SameVisible v (v.ramfsSymlink dir name target).2) <->
      (v.hasMemory 3 = true -> v.fails (v.calls + 3) = false) := by
  cases hmemory : v.hasMemory 3 with
  | true =>
      have hcreated := v.created_visible h name (sIflnk ||| 0o777) hdir
      unfold ramfsSymlink
      rw [ramfsCreate_given hmemory]
      have hfails : (v.created dir name (sIflnk ||| 0o777)).fails
          (v.created dir name (sIflnk ||| 0o777)).calls =
          v.fails (v.calls + 3) := rfl
      unfold kmalloc
      cases hfail : v.fails (v.calls + 3) with
      | true =>
          simp only [hfails, hfail, if_true]
          refine iff_of_false ?_ (fun hgiven => by cases hgiven trivial)
          intro hvisible
          exact hcreated ((hvisible trivial).trans
            (SameVisible.of_eq rfl rfl rfl rfl))
      | false =>
          simp only [hfails, hfail, Bool.false_eq_true, if_false]
          exact iff_of_true (fun hzero => by cases hzero) (fun _ => trivial)
  | false =>
      have hnone : (v.ramfsCreate dir name (sIflnk ||| 0o777)).1 = none := by
        cases hcreate : (v.ramfsCreate dir name (sIflnk ||| 0o777)).1 with
        | none => rfl
        | some id =>
            rw [hasMemory_of_created hcreate] at hmemory
            cases hmemory
      have hvisible := ramfsCreate_failed h hnone
      unfold ramfsSymlink
      cases hcreate : v.ramfsCreate dir name (sIflnk ||| 0o777) with
      | mk found w =>
          rw [hcreate] at hnone hvisible
          cases hnone
          exact iff_of_true (fun _ => hvisible) (fun h => by cases h)

/-!
# Descriptors and mounts
-/

theorem HandedOut.opening (h : HandedOut v) {flags : UInt32} {fd : Nat} :
    HandedOut (v.opening flags fd) where
  inode := fun id hid => Nat.lt_succ_of_lt (h.inode id hid)
  file := by
    intro fd' file hfd
    have hupdate : Function.update v.fdTable fd (some v.nextId) fd' =
        some file := hfd
    rw [Function.update_apply] at hupdate
    split at hupdate
    · cases hupdate
      exact Nat.lt_succ_self v.nextId
    · exact Nat.lt_succ_of_lt (h.file fd' file hupdate)

theorem SameVisible.withdraw {w : Vfs} {flags : UInt32} {fd : Nat}
    (h : HandedOut v) (hslot : v.fdTable fd = none)
    (hvisible : SameVisible (v.opening flags fd) w) :
    SameVisible v ((w.setFd fd none).kfree v.nextId) where
  inode := hvisible.inode
  fdTable := by
    show Function.update w.fdTable fd none = v.fdTable
    rw [hvisible.fdTable]
    exact opening_withdrawn hslot flags
  file := by
    intro fd' file hfd
    have hopen : (v.opening flags fd).fdTable fd' = some file := by
      show Function.update v.fdTable fd (some v.nextId) fd' = some file
      rw [Function.update_of_ne]
      · exact hfd
      · intro heq
        rw [heq, hslot] at hfd
        cases hfd
    refine (hvisible.file fd' file hopen).trans ?_
    exact (file_setFile v v.nextId file _).trans
      (if_neg (Nat.ne_of_lt (h.file fd' file hfd)))
  mountList := hvisible.mountList

theorem vfsOpen_failed (h : HandedOut v) {path : CStr} {flags : UInt32}
    {mode : UInt16} (hfail : (v.vfsOpen path flags mode).1 = -1) :
    SameVisible v (v.vfsOpen path flags mode).2 := by
  cases hmount : v.findMount path with
  | none =>
      unfold vfsOpen
      rw [hmount]
      exact SameVisible.refl v
  | some found =>
      rcases found with ⟨mnt, rest⟩
      by_cases hopen : mnt.fs.openFile = true
      · rw [vfsOpen_eq v flags mode hmount hopen] at hfail ⊢
        split
        · exact SameVisible.of_eq rfl rfl rfl rfl
        rename_i hmem
        rw [if_neg hmem] at hfail
        split
        · constructor
          · exact fun _ _ => rfl
          · rfl
          · intro fd file hfd
            exact (file_setFile v v.nextId file _).trans
              (if_neg (Nat.ne_of_lt (h.file fd file hfd)))
          · rfl
        · rename_i fd hfree
          rw [hfree] at hfail
          dsimp only at hfail ⊢
          split
          · rename_i hneg
            exact (ramfsFsOpen_failed h.opening hneg).withdraw h
              (freeSlot_none hfree)
          · rename_i hpos
            rw [if_neg hpos] at hfail
            exact absurd hfail (by omega)
      · unfold vfsOpen
        rw [hmount]
        dsimp only
        rw [if_pos (by simpa using hopen)]
        exact SameVisible.refl v

theorem vfsMount_failed (h : HandedOut v) {target fstype : CStr}
    {flags : UInt32} (hfail : (v.vfsMount target fstype flags).1 = -1) :
    SameVisible v (v.vfsMount target fstype flags).2 := by
  cases hfind : v.fsList.find? (fun f => f.name == fstype) with
  | none =>
      unfold vfsMount
      rw [hfind]
      exact SameVisible.refl v
  | some fs =>
      by_cases hmount : fs.mount = true
      · rw [v.vfsMount_found flags hfind hmount] at hfail ⊢
        split
        · exact SameVisible.of_eq rfl rfl rfl rfl
        rename_i hfirst
        rw [if_neg hfirst] at hfail
        split
        · exact SameVisible.of_update h rfl rfl rfl rfl
        rename_i hsecond
        rw [if_neg hsecond] at hfail
        split
        · exact SameVisible.of_update h
            (n := v.newInode (sIfdir ||| 0o755)) rfl rfl rfl rfl
        · rename_i hthird
          rw [if_neg hthird] at hfail
          cases hfail
      · unfold vfsMount
        rw [hfind]
        dsimp only
        rw [if_pos hmount]
        exact SameVisible.of_eq rfl rfl rfl rfl

end Vfs

/-!
# Failure atomicity
-/

inductive RamfsOp where
  | create (dir : Nat) (name : CStr) (mode : UInt16)
  | mkdir (dir : Nat) (name : CStr) (mode : UInt16)
  | symlink (dir : Nat) (name target : CStr)
  | truncate (node : Nat) (size : UInt64)
  | write (file : Nat) (buf : CStr)
  | openFile (mnt : Mountpoint) (path : CStr) (flags : UInt32)
      (mode : UInt16) (file : Nat)
  | vfsOpen (path : CStr) (flags : UInt32) (mode : UInt16)
  | vfsMount (target fstype : CStr) (flags : UInt32)

namespace Vfs

/-- What the operation returns, and the state after it. -/
def perform (v : Vfs) : RamfsOp -> Int × Vfs
  | RamfsOp.create dir name mode =>
      match v.ramfsCreate dir name mode with
      | (none, v) => (-1, v)
      | (some _, v) => (0, v)
  | RamfsOp.mkdir dir name mode => v.ramfsMkdir dir name mode
  | RamfsOp.symlink dir name target => v.ramfsSymlink dir name target
  | RamfsOp.truncate node size => v.ramfsTruncate node size
  | RamfsOp.write file buf => v.ramfsFileWrite file buf
  | RamfsOp.openFile mnt path flags mode file =>
      v.ramfsFsOpen mnt path flags mode file
  | RamfsOp.vfsOpen path flags mode => v.vfsOpen path flags mode
  | RamfsOp.vfsMount target fstype flags => v.vfsMount target fstype flags

/-- The directory of a new link and the file that is written exist. -/
def Given (v : Vfs) : RamfsOp -> Prop
  | RamfsOp.symlink dir _ _ => v.inodes dir ≠ none
  | RamfsOp.write file _ => exists fd, v.fdTable fd = some file
  | _ => True

/-- An operation that reports an error has changed nothing that can be seen. -/
def FailsCleanly (v : Vfs) (o : RamfsOp) : Prop :=
  (v.perform o).1 = -1 -> SameVisible v (v.perform o).2

/--
The target of a link is not refused its memory when the inode has got all of
its own, and the number of bytes written is no error code.
-/
def CleanSound (v : Vfs) : RamfsOp -> Prop
  | RamfsOp.symlink _ _ _ =>
      v.hasMemory 3 = true -> v.fails (v.calls + 3) = false
  | RamfsOp.write file buf =>
      UInt32.ofNat buf.length = 0xFFFFFFFF -> WriteRefused v file buf
  | _ => True

theorem ramfs_failure_atomic_iff {v : Vfs} (h : HandedOut v) (o : RamfsOp)
    (hgiven : Given v o) : FailsCleanly v o <-> CleanSound v o := by
  cases o with
  | create dir name mode =>
      refine iff_of_true ?_ trivial
      intro hfail
      unfold perform at hfail ⊢
      dsimp only at hfail ⊢
      cases hcreate : v.ramfsCreate dir name mode with
      | mk found w =>
          rw [hcreate] at hfail
          cases found with
          | none =>
              have hvisible := ramfsCreate_failed h (congrArg Prod.fst hcreate)
              rw [hcreate] at hvisible
              exact hvisible
          | some id => cases hfail
  | mkdir dir name mode => exact iff_of_true (ramfsMkdir_failed h) trivial
  | symlink dir name target => exact ramfsSymlink_iff h hgiven
  | truncate node size => exact iff_of_true ramfsTruncate_failed trivial
  | write file buf =>
      rcases hgiven with ⟨fd, hfd⟩
      exact ramfsFileWrite_iff hfd
  | openFile mnt path flags mode file =>
      refine iff_of_true ?_ trivial
      intro hfail
      apply ramfsFsOpen_failed h
      rw [show (v.ramfsFsOpen mnt path flags mode file).1 = -1 from hfail]
      decide
  | vfsOpen path flags mode => exact iff_of_true (vfsOpen_failed h) trivial
  | vfsMount target fstype flags =>
      exact iff_of_true (vfsMount_failed h) trivial

/-- The third request of a symlink, for the entry, is refused. -/
def entryRefused : Vfs := freshMount (fun call => call == 5) (cstr "/") 0

theorem ramfs_failure_atomic_entryRefused :
    (entryRefused.perform
        (RamfsOp.symlink 1 (cstr "l") (cstr "/etc"))).1 = -1 ∧
      SameVisible entryRefused (entryRefused.perform
        (RamfsOp.symlink 1 (cstr "l") (cstr "/etc"))).2 := by
  have hknown : (entryRefused.inodes 1).isSome = true := by decide +kernel
  have hmemory : entryRefused.hasMemory 3 = false := by decide +kernel
  have hfail : (entryRefused.perform
      (RamfsOp.symlink 1 (cstr "l") (cstr "/etc"))).1 = -1 := by decide +kernel
  have hgiven : entryRefused.Given
      (RamfsOp.symlink 1 (cstr "l") (cstr "/etc")) :=
    Option.isSome_iff_ne_none.mp hknown
  have hhanded : HandedOut entryRefused := (objInv_freshMount _ _ _).handedOut
  refine ⟨hfail, (ramfs_failure_atomic_iff hhanded _ hgiven).mpr ?_ hfail⟩
  intro hall
  rw [hmemory] at hall
  cases hall

/-- Memory for the root, its mount and an inode with its entry, but no more. -/
def tightMount : Vfs := freshMount (fun call => call == 6) (cstr "/") 0

theorem symlink_failed_visible :
    (tightMount.ramfsSymlink 1 (cstr "l") (cstr "/etc")).1 = -1 ∧
      (tightMount.inode 1).entries = [] ∧
      ((tightMount.ramfsSymlink 1 (cstr "l") (cstr "/etc")).2.inode
        1).entries = [⟨cstr "l", 4⟩] ∧
      ¬ FailsCleanly tightMount
        (RamfsOp.symlink 1 (cstr "l") (cstr "/etc")) := by
  have hfail : (tightMount.ramfsSymlink 1 (cstr "l") (cstr "/etc")).1 = -1 := by
    decide +kernel
  have hold : (tightMount.inode 1).entries = [] := by decide +kernel
  have hnew : ((tightMount.ramfsSymlink 1 (cstr "l") (cstr "/etc")).2.inode
      1).entries = [⟨cstr "l", 4⟩] := by decide +kernel
  refine ⟨hfail, hold, hnew, ?_⟩
  intro hclean
  have hknown : tightMount.inodes 1 ≠ none := by
    have hsome : (tightMount.inodes 1).isSome = true := by decide +kernel
    exact Option.isSome_iff_ne_none.mp hsome
  have hsame := congrArg Prod.fst ((hclean hfail).visible_eq hknown)
  have hentries := (hnew.symm.trans hsame).trans hold
  cases hentries

end Vfs
end Fs
end EarlnuxOS
