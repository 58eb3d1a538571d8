import EarlnuxOS.Fs.Lifetime
import EarlnuxOS.Fs.Store

/-!
# The descriptor table

`vfs_open` publishes the new file in a slot before the file system is asked and
withdraws it when that fails; `vfs_close` empties the slot.  So a slot that is
in use refers to a file of its own, and that file has not been freed.

As long as nothing is unlinked, the inodes that the files refer to have not
been freed either: no call reaches memory that the allocator may hand out again.
-/

namespace EarlnuxOS
namespace Fs

open Foundation

namespace Vfs

variable {v v' : Vfs}

/-!
# Slots
-/

theorem freeSlot_lowest {table : Nat -> Option Nat} {i slots fd : Nat}
    (h : freeSlot table i slots = some fd) {j : Nat} (hij : i ≤ j)
    (hj : j < fd) : table j ≠ none := by
  induction slots generalizing i with
  | zero => cases h
  | succ slots ih =>
      unfold freeSlot at h
      split at h
      · cases h
        omega
      · rename_i hused
        by_cases heq : j = i
        · rw [heq]
          exact hused
        · exact ih h (by omega)

theorem fdFile_none_iff {fd : Int} :
    v.fdFile fd = none <->
      fd < 0 ∨ fdMax ≤ fd ∨ v.fdTable fd.toNat = none := by
  unfold fdFile
  split
  · rename_i hout
    rcases hout with hout | hout
    · simp [hout]
    · simp [hout]
  · rename_i hin
    rw [not_or] at hin
    simp [hin.left, hin.right]

theorem fdFile_inj {fd fd' : Int} {file file' : Nat}
    (h : v.fdFile fd = some file) (h' : v.fdFile fd' = some file')
    (heq : fd.toNat = fd'.toNat) : fd = fd' := by
  unfold fdFile at h h'
  split at h
  · cases h
  split at h'
  · cases h'
  · omega

theorem vfsOpen_slot {path : CStr} {flags : UInt32} {mode : UInt16} {fd : Nat}
    (h : (v.vfsOpen path flags mode).1 = (fd : Nat)) :
    freeSlot v.fdTable 0 fdMax = some fd := by
  cases hmount : v.findMount path with
  | none =>
      unfold vfsOpen at h
      rw [hmount] at h
      cases h
  | some found =>
      rcases found with ⟨mnt, rest⟩
      by_cases hopen : mnt.fs.openFile = true
      · rw [vfsOpen_eq v flags mode hmount hopen] at h
        split at h
        · cases h
        split at h
        · cases h
        · rename_i fd' hslot
          dsimp only at h
          split at h
          · cases h
          · rw [hslot, Int.ofNat.inj h]
      · unfold vfsOpen at h
        rw [hmount] at h
        dsimp only at h
        rw [if_pos (by simpa using hopen)] at h
        cases h

/-!
# Calls on a descriptor
-/

def onFd : VfsOp -> Option Int
  | VfsOp.close fd => some fd
  | VfsOp.read fd _ => some fd
  | VfsOp.write fd _ => some fd
  | VfsOp.seek fd _ _ => some fd
  | _ => none

theorem file_modifyInode (v : Vfs) (id j : Nat) (f : Inode -> Inode) :
    (v.modifyInode id f).file j = v.file j := rfl

theorem files_replaceData (v : Vfs) (id : Nat) (newCap : UInt64) (copy : Nat) :
    (v.replaceData id newCap copy).2.files = v.files := by
  unfold replaceData kmalloc
  split
  · rename_i h
    split at h <;> cases h
    rfl
  · rename_i h
    split at h <;> cases h
    split <;> rfl

theorem files_growData (v : Vfs) (id : Nat) (newEnd : UInt64) :
    (v.growData id newEnd).2.files = v.files := by
  unfold growData
  dsimp only
  split
  · exact v.files_replaceData id _ _
  · rfl

theorem file_read (v : Vfs) {fd : Int} (len : UInt32) {j : Nat}
    (hj : v.fdFile fd ≠ some j) : (v.vfsRead fd len).2.2.file j = v.file j := by
  unfold vfsRead
  cases hfd : v.fdFile fd with
  | none => rfl
  | some file =>
      have hne : j ≠ file := by
        intro heq
        rw [heq] at hj
        exact hj hfd
      dsimp only
      split
      · unfold ramfsFileRead
        dsimp only
        split
        · rfl
        split
        · rfl
        · exact (file_setFile _ file j _).trans (if_neg hne)
      · rfl

theorem file_write (v : Vfs) {fd : Int} (buf : CStr) {j : Nat}
    (hj : v.fdFile fd ≠ some j) : (v.vfsWrite fd buf).2.file j = v.file j := by
  unfold vfsWrite
  cases hfd : v.fdFile fd with
  | none => rfl
  | some file =>
      have hne : j ≠ file := by
        intro heq
        rw [heq] at hj
        exact hj hfd
      dsimp only
      split
      · unfold ramfsFileWrite
        dsimp only
        have hfiles := v.files_growData (v.file file).inode
          ((v.file file).pos + (UInt32.ofNat buf.length).toUInt64)
        split
        · rename_i hg
          rw [hg] at hfiles
          exact file_congr hfiles j
        · rename_i w hg
          rw [hg] at hfiles
          rw [file_modifyInode]
          exact ((file_setFile _ file j _).trans (if_neg hne)).trans
            (file_congr hfiles j)
      · rfl

theorem file_seek (v : Vfs) {fd : Int} (offset : Int64) (whence : Int)
    {j : Nat} (hj : v.fdFile fd ≠ some j) :
    (v.vfsSeek fd offset whence).2.file j = v.file j := by
  unfold vfsSeek
  cases hfd : v.fdFile fd with
  | none => rfl
  | some file =>
      have hne : j ≠ file := by
        intro heq
        rw [heq] at hj
        exact hj hfd
      dsimp only
      split
      · exact (file_setFile v file j _).trans (if_neg hne)
      split
      · exact (file_setFile v file j _).trans (if_neg hne)
      split
      · rfl
      · rfl

/-- A call on one descriptor leaves the others and their files alone. -/
theorem onFd_apart {o : VfsOp} {fd fd' : Int} {file : Nat}
    (hon : onFd o = some fd) (hne : fd' ≠ fd)
    (hfd : v.fdFile fd' = some file) (halone : v.fdFile fd ≠ some file) :
    (v.exec o).fdFile fd' = some file ∧
      (v.exec o).file file = v.file file := by
  have htable : forall w : Vfs, w.fdTable = v.fdTable ->
      w.fdFile fd' = some file := by
    intro w hw
    unfold fdFile at hfd ⊢
    rw [hw]
    exact hfd
  cases o with
  | openFile path flags mode => cases hon
  | close fd'' =>
      cases hon
      have hcases := v.vfsClose_cases fd
      cases hclosed : v.fdFile fd with
      | none =>
          rw [hclosed] at hcases
          show (v.vfsClose fd).2.fdFile fd' = _ ∧ (v.vfsClose fd).2.file _ = _
          rw [hcases]
          exact ⟨hfd, rfl⟩
      | some closed =>
          rw [hclosed] at hcases
          show (v.vfsClose fd).2.fdFile fd' = _ ∧ (v.vfsClose fd).2.file _ = _
          rw [hcases]
          refine ⟨?_, rfl⟩
          have hslot : fd'.toNat ≠ fd.toNat :=
            fun heq => hne (fdFile_inj hfd hclosed heq)
          unfold fdFile at hfd ⊢
          split at hfd
          · cases hfd
          · rename_i hin
            rw [if_neg hin]
            exact (Function.update_of_ne hslot _ _).trans hfd
  | read fd'' len =>
      cases hon
      exact ⟨htable _ (v.keeps_read fd len).fdTable, v.file_read len halone⟩
  | write fd'' buf =>
      cases hon
      exact ⟨htable _ (v.keeps_write fd buf).fdTable, v.file_write buf halone⟩
  | seek fd'' offset whence =>
      cases hon
      exact ⟨htable _ (v.keeps_seek fd offset whence).fdTable,
        v.file_seek offset whence halone⟩
  | mkdir path mode => cases hon
  | unlink path => cases hon

/-!
# Mounting
-/

/-- A new inode without an entry: the root of a mount, or lost to one. -/
structure Plants (v v' : Vfs) : Prop where
  known : forall id, v'.inodes id ≠ none <->
    v.inodes id ≠ none ∨ id = v.nextId
  entries : forall id, (v'.inode id).entries = (v.inode id).entries
  files : v'.files = v.files
  fdTable : v'.fdTable = v.fdTable
  mountList : v'.mountList = v.mountList ∨
    exists mnt, mnt.root = v.nextId ∧ v'.mountList = mnt :: v.mountList
  freed : v'.freed = v.freed
  nextId : v.nextId < v'.nextId

theorem plants_of_eq (hi : ObjInv v) {n : Inode}
    (hinodes : v'.inodes = Function.update v.inodes v.nextId (some n))
    (hnode : n.entries = []) (hfiles : v'.files = v.files)
    (hfd : v'.fdTable = v.fdTable)
    (hmount : v'.mountList = v.mountList ∨
      exists mnt, mnt.root = v.nextId ∧ v'.mountList = mnt :: v.mountList)
    (hfreed : v'.freed = v.freed) (hnext : v.nextId < v'.nextId) :
    Plants v v' where
  known := known_update hinodes
  entries := by
    intro id
    rw [inode_update hinodes]
    split
    · rename_i hid
      rw [hid, hi.next_entries]
      exact hnode
    · rfl
  files := hfiles
  fdTable := hfd
  mountList := hmount
  freed := hfreed
  nextId := hnext

theorem vfsMount_cases (hi : ObjInv v) (target fstype : CStr)
    (flags : UInt32) :
    Keeps v (v.vfsMount target fstype flags).2 ∨
      Discards v (v.vfsMount target fstype flags).2 ∨
      Plants v (v.vfsMount target fstype flags).2 := by
  cases hfind : v.fsList.find? (fun f => f.name == fstype) with
  | none =>
      unfold vfsMount
      rw [hfind]
      exact Or.inl (Keeps.refl v)
  | some fs =>
      by_cases hmount : fs.mount = true
      · rw [v.vfsMount_found flags hfind hmount]
        split
        · exact Or.inl (Keeps.of_eq rfl (fun _ => rfl) rfl rfl rfl
            (Nat.le_refl v.nextId))
        split
        · exact Or.inr (Or.inl (discards_of_eq (n := Inode.blank) rfl rfl rfl
            rfl rfl rfl (Nat.lt_succ_self v.nextId)))
        split
        · exact Or.inr (Or.inr (plants_of_eq hi
            (n := v.newInode (sIfdir ||| 0o755)) rfl rfl rfl rfl (Or.inl rfl)
            rfl (Nat.lt_add_of_pos_right (by decide))))
        · exact Or.inr (Or.inr (plants_of_eq hi
            (n := v.newInode (sIfdir ||| 0o755)) rfl rfl rfl rfl
            (Or.inr ⟨_, rfl, rfl⟩) rfl (Nat.lt_add_of_pos_right (by decide))))
      · unfold vfsMount
        rw [hfind]
        dsimp only
        rw [if_pos hmount]
        exact Or.inl (Keeps.of_eq rfl (fun _ => rfl) rfl rfl rfl
          (Nat.le_refl v.nextId))

theorem Plants.linked (h : Plants v v') (id : Nat) :
    Linked v' id <-> Linked v id := by
  unfold Linked
  refine exists_congr fun dir => ?_
  rw [h.entries]

theorem ObjInv.plants (hi : ObjInv v) (h : Plants v v') : ObjInv v' := by
  refine hi.grow h.known h.entries h.files h.fdTable ?_ ?_ h.nextId
  · intro mnt hmnt
    rcases h.mountList with hsame | ⟨new, hroot, hlist⟩
    · rw [hsame] at hmnt
      exact Or.inl hmnt
    · rw [hlist] at hmnt
      rcases List.mem_cons.mp hmnt with hmnt | hmnt
      · rw [hmnt]
        exact Or.inr hroot
      · exact Or.inl hmnt
  · intro id hid
    rw [h.freed] at hid
    exact Or.inl hid

/-!
# The invariant
-/

structure TableInv (v : Vfs) : Prop where
  objects : ObjInv v
  alone : forall fd fd' file, v.fdTable fd = some file ->
    v.fdTable fd' = some file -> fd = fd'
  fileAlive : forall fd file, v.fdTable fd = some file -> file ∉ v.freed
  node : forall fd file, v.fdTable fd = some file ->
    Attached v (v.file file).inode
  alive : forall id, Attached v id -> id ∉ v.freed

namespace TableInv

theorem keeps (h : TableInv v) (hk : Keeps v v') : TableInv v' where
  objects := h.objects.keeps hk
  alone := by
    rw [hk.fdTable]
    exact h.alone
  fileAlive := by
    rw [hk.fdTable, hk.freed]
    exact h.fileAlive
  node := by
    intro fd file hfd
    rw [hk.fdTable] at hfd
    rw [hk.fileInode, attached_congr hk.mountList hk.linked]
    exact h.node fd file hfd
  alive := by
    intro id hid
    rw [attached_congr hk.mountList hk.linked] at hid
    rw [hk.freed]
    exact h.alive id hid

theorem grow (h : TableInv v) (hobjects : ObjInv v')
    (hfd : v'.fdTable = v.fdTable)
    (hnode : forall fd file, v.fdTable fd = some file ->
      (v'.file file).inode = (v.file file).inode)
    (hold : forall id, Attached v id -> Attached v' id)
    (hnew : forall id, Attached v' id -> Attached v id ∨ id ∉ v'.freed)
    (hfreed : forall id, id ∈ v'.freed -> id ∈ v.freed ∨ id = v.nextId) :
    TableInv v' where
  objects := hobjects
  alone := by
    rw [hfd]
    exact h.alone
  fileAlive := by
    intro fd file hfile hmem
    rw [hfd] at hfile
    rcases hfreed file hmem with hmem | heq
    · exact h.fileAlive fd file hfile hmem
    · exact Nat.ne_of_lt (h.objects.file_lt fd file hfile).left heq
  node := by
    intro fd file hfile
    rw [hfd] at hfile
    rw [hnode fd file hfile]
    exact hold _ (h.node fd file hfile)
  alive := by
    intro id hid hmem
    rcases hnew id hid with hid | hid
    · rcases hfreed id hmem with hmem | heq
      · exact h.alive id hid hmem
      · have hlt := h.objects.inode_lt id (h.objects.attached_known hid)
        exact Nat.ne_of_lt hlt heq
    · exact hid hmem

theorem discards (h : TableInv v) (hd : Discards v v') : TableInv v' := by
  have hattached := attached_congr hd.mountList (hd.linked h.objects)
  apply h.grow (h.objects.discards hd) hd.fdTable
  · intro fd j _
    unfold file
    rw [hd.files]
  · exact fun id hid => (hattached id).mpr hid
  · exact fun id hid => Or.inl ((hattached id).mp hid)
  · intro id hid
    rw [hd.freed] at hid
    exact (List.mem_cons.mp hid).symm

theorem plants (h : TableInv v) (hp : Plants v v') : TableInv v' := by
  have hroot : forall id, IsRoot v' id -> IsRoot v id ∨ id = v.nextId := by
    intro id hid
    rcases hid with ⟨mnt, hmnt, hid⟩
    rcases hp.mountList with hsame | ⟨new, hnew, hlist⟩
    · rw [hsame] at hmnt
      exact Or.inl ⟨mnt, hmnt, hid⟩
    · rw [hlist] at hmnt
      rcases List.mem_cons.mp hmnt with hmnt | hmnt
      · rw [hmnt] at hid
        exact Or.inr (hid.symm.trans hnew)
      · exact Or.inl ⟨mnt, hmnt, hid⟩
  have hkeep : forall id, IsRoot v id -> IsRoot v' id := by
    intro id hid
    rcases hid with ⟨mnt, hmnt, hid⟩
    refine ⟨mnt, ?_, hid⟩
    rcases hp.mountList with hsame | ⟨_, _, hlist⟩
    · rw [hsame]
      exact hmnt
    · rw [hlist]
      exact List.mem_cons_of_mem _ hmnt
  apply h.grow (h.objects.plants hp) hp.fdTable
  · intro fd j _
    unfold file
    rw [hp.files]
  · intro id hid
    exact hid.imp (hkeep id) (hp.linked id).mpr
  · intro id hid
    rcases hid with hid | hid
    · rcases hroot id hid with hid | heq
      · exact Or.inl (Or.inl hid)
      · right
        rw [hp.freed, heq]
        exact h.objects.next_not_freed
    · exact Or.inl (Or.inr ((hp.linked id).mp hid))
  · intro id hid
    rw [hp.freed] at hid
    exact Or.inl hid

theorem adds (h : TableInv v) {dir : Nat} (hdir : Attached v dir)
    (ha : Adds v v' dir) : TableInv v' := by
  have hlt := h.objects.inode_lt dir (h.objects.attached_known hdir)
  apply h.grow (h.objects.adds ha hlt) ha.fdTable
  · intro fd j _
    unfold file
    rw [ha.files]
  · intro id hid
    exact hid.imp (isRoot_congr ha.mountList id).mpr
      (fun hlinked => (ha.linked h.objects id).mpr (Or.inl hlinked))
  · intro id hid
    rcases hid with hid | hid
    · exact Or.inl (Or.inl ((isRoot_congr ha.mountList id).mp hid))
    · rcases (ha.linked h.objects id).mp hid with hid | heq
      · exact Or.inl (Or.inr hid)
      · right
        rw [ha.freed, heq]
        exact h.objects.next_not_freed
  · intro id hid
    rw [ha.freed] at hid
    exact Or.inl hid

theorem creates (h : TableInv v) (hc : Creates v v') : TableInv v' := by
  rcases hc with ⟨w, hkeeps, hcase⟩
  have hw := h.keeps hkeeps
  rcases hcase with heq | hdiscards | ⟨dir, hdir, hadds⟩
  · rw [heq]
    exact hw
  · exact hw.discards hdiscards
  · exact hw.adds hdir hadds

/-!
# Opening and closing
-/

theorem setFd_none (h : TableInv v) (fd : Nat) :
    TableInv (v.setFd fd none) where
  objects := h.objects.setFd_none fd
  alone := fun i j file hi hj =>
    h.alone i j file (setFd_none_some hi) (setFd_none_some hj)
  fileAlive := fun fd' file hfd => h.fileAlive fd' file (setFd_none_some hfd)
  node := fun fd' file hfd => h.node fd' file (setFd_none_some hfd)
  alive := h.alive

theorem kfree (h : TableInv v) {file : Nat} (hlt : file < v.nextId)
    (hunused : forall fd, v.fdTable fd ≠ some file)
    (hnone : v.inodes file = none) : TableInv (v.kfree file) where
  objects := h.objects.kfree hlt
  alone := h.alone
  fileAlive := by
    intro fd j hfd hmem
    rcases List.mem_cons.mp hmem with hmem | hmem
    · rw [hmem] at hfd
      exact hunused fd hfd
    · exact h.fileAlive fd j hfd hmem
  node := h.node
  alive := by
    intro id hid hmem
    rcases List.mem_cons.mp hmem with hmem | hmem
    · have hknown : v.inodes id ≠ none := h.objects.attached_known hid
      rw [hmem] at hknown
      exact hknown hnone
    · exact h.alive id hid hmem

theorem withFile (h : TableInv v) (flags : UInt32) :
    TableInv (v.withFile flags) := by
  have hfile : forall j, j < v.nextId ->
      (v.withFile flags).file j = v.file j := by
    intro j hj
    exact (file_setFile v v.nextId j _).trans (if_neg (Nat.ne_of_lt hj))
  apply h.grow (h.objects.newFile flags) rfl
  · intro fd j hfd
    rw [hfile j (h.objects.file_lt fd j hfd).left]
  · exact fun _ hid => hid
  · exact fun _ hid => Or.inl hid
  · exact fun _ hid => Or.inl hid

end TableInv

theorem opening_withdrawn {fd : Nat} (hslot : v.fdTable fd = none)
    (flags : UInt32) :
    Function.update (v.opening flags fd).fdTable fd none = v.fdTable := by
  show Function.update (Function.update v.fdTable fd _) fd none = _
  rw [Function.update_idem, Function.update_eq_self_iff, hslot]

theorem Creates.withdraw {flags : UInt32} {fd : Nat}
    (hslot : v.fdTable fd = none) {w : Vfs}
    (h : Creates (v.opening flags fd) w) :
    Creates (v.withFile flags) (w.setFd fd none) := by
  rcases h with ⟨x, hkeeps, hcase⟩
  have htable : Function.update x.fdTable fd none = v.fdTable := by
    rw [hkeeps.fdTable]
    exact opening_withdrawn hslot flags
  refine ⟨x.setFd fd none, ?_, ?_⟩
  · exact ⟨hkeeps.known, hkeeps.entries, hkeeps.mode, hkeeps.nlinks,
      hkeeps.fileInode, htable, hkeeps.mountList, hkeeps.freed, hkeeps.nextId⟩
  · rcases hcase with heq | hd | ⟨dir, hdir, ha⟩
    · left
      rw [heq]
    · right
      left
      refine ⟨hd.known, hd.entries, hd.fresh, hd.files, ?_, hd.mountList,
        hd.freed, hd.nextId⟩
      exact congrArg (Function.update · fd none) hd.fdTable
    · right
      right
      refine ⟨dir, hdir, ha.known, ha.entries, ha.fresh, ha.entry, ha.files,
        ?_, ha.mountList, ha.freed, ha.nextId⟩
      exact congrArg (Function.update · fd none) ha.fdTable

theorem Creates.freed (h : Creates v v') {id : Nat} (hid : id ∈ v'.freed) :
    id ∈ v.freed ∨ v.nextId ≤ id := by
  rcases h with ⟨w, hkeeps, hcase⟩
  rcases hcase with heq | hd | ⟨_, _, ha⟩
  · rw [heq, hkeeps.freed] at hid
    exact Or.inl hid
  · rw [hd.freed, hkeeps.freed] at hid
    rcases List.mem_cons.mp hid with hid | hid
    · rw [hid]
      exact Or.inr hkeeps.nextId
    · exact Or.inl hid
  · rw [ha.freed, hkeeps.freed] at hid
    exact Or.inl hid

namespace TableInv

theorem next_unused (h : TableInv v) (fd : Nat) :
    v.fdTable fd ≠ some v.nextId := by
  intro hfd
  exact Nat.lt_irrefl _ (h.objects.file_lt fd _ hfd).left

/-- The slots while the new file is published: its own, and those of before. -/
theorem slot_cases {flags : UInt32} {fd : Nat} {w : Vfs}
    (hcreates : Creates (v.opening flags fd) w) {fd' file : Nat}
    (hfd' : w.fdTable fd' = some file) :
    (fd' = fd ∧ file = v.nextId) ∨
      (v.fdTable fd' = some file ∧
        (w.setFd fd none).fdTable fd' = some file) := by
  have hkeep := hfd'
  rw [hcreates.fdTable] at hfd'
  have hupdate : Function.update v.fdTable fd (some v.nextId) fd' =
      some file := hfd'
  by_cases heq : fd' = fd
  · rw [heq, Function.update_self] at hupdate
    exact Or.inl ⟨heq, (Option.some.inj hupdate).symm⟩
  · rw [Function.update_of_ne heq] at hupdate
    exact Or.inr ⟨hupdate, (Function.update_of_ne heq _ _).trans hkeep⟩

theorem publish (h : TableInv v) {flags : UInt32} {fd node : Nat} {w : Vfs}
    (hslot : v.fdTable fd = none)
    (hcreates : Creates (v.opening flags fd) w)
    (hattached : Attached w node) : TableInv (w.attach v.nextId node) := by
  have hw := (h.objects.opening flags hslot).creates hcreates
  have hy := (h.withFile flags).creates (hcreates.withdraw hslot)
  have hne : forall fd' file, v.fdTable fd' = some file -> file ≠ v.nextId :=
    fun fd' file hfd' => Nat.ne_of_lt (h.objects.file_lt fd' file hfd').left
  constructor
  · exact hw.attach (hw.attached_known hattached)
  · intro i j file hi hj
    rcases slot_cases hcreates hi with ⟨hi, hfile⟩ | ⟨hi, _⟩
    · rcases slot_cases hcreates hj with ⟨hj, _⟩ | ⟨hj, _⟩
      · rw [hi, hj]
      · exact absurd hfile (hne j file hj)
    · rcases slot_cases hcreates hj with ⟨_, hfile⟩ | ⟨hj, _⟩
      · exact absurd hfile (hne i file hi)
      · exact h.alone i j file hi hj
  · intro fd' file hfd'
    rcases slot_cases hcreates hfd' with ⟨_, hfile⟩ | ⟨_, hfd'⟩
    · intro hmem
      rw [hfile] at hmem
      rcases hcreates.freed hmem with hmem | hle
      · exact h.objects.next_not_freed hmem
      · exact Nat.not_succ_le_self v.nextId hle
    · exact hy.fileAlive fd' file hfd'
  · intro fd' file hfd'
    have hfile : (w.attach v.nextId node).file file =
        if file = v.nextId then
          { w.file v.nextId with
            inode := node
            ops := some ramfsFileOps
            pos := 0 }
        else w.file file := file_setFile w v.nextId file _
    rw [hfile]
    rcases slot_cases hcreates hfd' with ⟨_, hfile⟩ | ⟨hold, hfd'⟩
    · rw [if_pos hfile]
      exact hattached
    · rw [if_neg (hne fd' file hold)]
      exact hy.node fd' file hfd'
  · exact hy.alive

theorem opens (h : TableInv v) {flags : UInt32} (ho : Opens v flags v') :
    TableInv v' := by
  cases ho with
  | refused hk => exact h.keeps hk
  | full heq =>
      rw [heq]
      exact (h.withFile flags).kfree (Nat.lt_succ_self v.nextId) h.next_unused
        h.objects.unknown_next
  | failed fd w hslot hcreates heq =>
      have hw := (h.objects.opening flags hslot).creates hcreates
      have hy := (h.withFile flags).creates (hcreates.withdraw hslot)
      have hpublished : w.fdTable fd = some v.nextId := by
        rw [hcreates.fdTable]
        exact (v.opening_file flags fd).left
      rcases hw.file_lt fd _ hpublished with ⟨hlt, hnone⟩
      rw [heq]
      refine hy.kfree hlt ?_ hnone
      intro fd' hfd'
      have hupdate : Function.update w.fdTable fd none fd' =
          some v.nextId := hfd'
      rw [hcreates.fdTable, opening_withdrawn hslot flags] at hupdate
      exact h.next_unused fd' hupdate
  | opened fd node w hslot hcreates hnode hk =>
      refine TableInv.keeps (h.publish hslot hcreates ?_) hk
      refine hnode.imp_left ?_
      intro hroot
      rcases hroot with ⟨mnt, hmnt, hroot⟩
      refine ⟨mnt, ?_, hroot.symm⟩
      rw [hcreates.mountList]
      exact hmnt

theorem close (h : TableInv v) (fd : Int) : TableInv (v.vfsClose fd).2 := by
  have hcases := v.vfsClose_cases fd
  cases hfd : v.fdFile fd with
  | none =>
      rw [hfd] at hcases
      rw [hcases]
      exact h
  | some file =>
      rw [hfd] at hcases
      rw [hcases]
      have hslot := fdFile_some hfd
      rcases h.objects.file_lt _ file hslot with ⟨hlt, hnone⟩
      refine (h.setFd_none fd.toNat).kfree hlt ?_ hnone
      intro fd' hfd'
      have hupdate : Function.update v.fdTable fd.toNat none fd' =
          some file := hfd'
      rw [Function.update_apply] at hupdate
      split at hupdate
      · cases hupdate
      · rename_i hne
        exact hne (h.alone fd' fd.toNat file hupdate hslot)

end TableInv

/-!
# The discipline
-/

def SameFiles (v v' : Vfs) : Prop :=
  forall fd file, v.fdFile fd = some file -> v'.file file = v.file file

inductive OpenResult (v v' : Vfs) (result : Int) : Prop where
  | failed (hresult : result = -1) (htable : v'.fdTable = v.fdTable)
  | opened (fd file : Nat) (hresult : result = fd) (hbound : fd < fdMax)
      (hfree : v.fdTable fd = none)
      (hlowest : forall j, j < fd -> v.fdTable j ≠ none)
      (htable : v'.fdTable = Function.update v.fdTable fd (some file))
      (hnew : forall j, v.fdTable j ≠ some file)

structure Disciplined (v : Vfs) : Prop where
  /-- Two descriptors have two files. -/
  distinct : forall fd fd' file, v.fdFile fd = some file ->
    v.fdFile fd' = some file -> fd = fd'
  /-- Neither the file nor its inode has been freed. -/
  alive : forall fd file, v.fdFile fd = some file ->
    file ∉ v.freed ∧ (v.file file).inode ∉ v.freed
  apart : forall o fd fd' file, onFd o = some fd -> fd' ≠ fd ->
    v.fdFile fd' = some file ->
      (v.exec o).fdFile fd' = some file ∧ (v.exec o).file file = v.file file
  openResult : forall path flags mode,
    OpenResult v (v.vfsOpen path flags mode).2
        (v.vfsOpen path flags mode).1 ∧
      SameFiles v (v.vfsOpen path flags mode).2
  closed : forall fd : Int,
    fd < 0 ∨ fdMax ≤ fd ∨ v.fdTable fd.toNat = none ->
      v.vfsClose fd = (-1, v) ∧
      (forall len, v.vfsRead fd len = (-1, [], v)) ∧
      (forall buf, v.vfsWrite fd buf = (-1, v)) ∧
      forall offset whence, v.vfsSeek fd offset whence = (-1, v)

theorem openResult_spec (hi : ObjInv v) (path : CStr) (flags : UInt32)
    (mode : UInt16) :
    OpenResult v (v.vfsOpen path flags mode).2
        (v.vfsOpen path flags mode).1 ∧
      SameFiles v (v.vfsOpen path flags mode).2 := by
  have hlt : forall fd file, v.fdFile fd = some file -> file < v.nextId :=
    fun fd file hfd => (hi.file_lt _ file (fdFile_some hfd)).left
  rcases vfsOpen_reopens hi path flags mode with ⟨hfail, hsame⟩ |
    ⟨fd, node, hresult, hopen, _⟩
  · exact ⟨OpenResult.failed hfail hsame.fdTable,
      fun fd file hfd => hsame.file file (hlt fd file hfd)⟩
  · have hslot := vfsOpen_slot hresult
    refine ⟨OpenResult.opened fd v.nextId hresult hopen.bound hopen.slot
      (fun j hj => freeSlot_lowest hslot (Nat.zero_le j) hj) hopen.fdTable ?_,
      fun fd' file hfd => hopen.others file (hlt fd' file hfd)⟩
    intro j hj
    exact Nat.lt_irrefl _ (hi.file_lt j _ hj).left

theorem closed_spec {fd : Int} (h : v.fdFile fd = none) :
    v.vfsClose fd = (-1, v) ∧
      (forall len, v.vfsRead fd len = (-1, [], v)) ∧
      (forall buf, v.vfsWrite fd buf = (-1, v)) ∧
      forall offset whence, v.vfsSeek fd offset whence = (-1, v) := by
  unfold vfsClose vfsRead vfsWrite vfsSeek
  rw [h]
  exact ⟨rfl, fun _ => rfl, fun _ => rfl, fun _ _ => rfl⟩

theorem TableInv.disciplined (h : TableInv v) : Disciplined v := by
  have hdistinct : forall fd fd' file, v.fdFile fd = some file ->
      v.fdFile fd' = some file -> fd = fd' := by
    intro fd fd' file hfd hfd'
    exact fdFile_inj hfd hfd'
      (h.alone _ _ file (fdFile_some hfd) (fdFile_some hfd'))
  constructor
  · exact hdistinct
  · intro fd file hfd
    have hslot := fdFile_some hfd
    exact ⟨h.fileAlive _ file hslot, h.alive _ (h.node _ file hslot)⟩
  · intro o fd fd' file hon hne hfd
    apply onFd_apart hon hne hfd
    intro hsame
    exact hne (hdistinct fd' fd file hfd hsame)
  · exact openResult_spec h.objects
  · intro fd hfd
    exact closed_spec (fdFile_none_iff.mpr hfd)

end Vfs

/-!
# Runs
-/

inductive SysOp where
  | mount (target fstype : CStr) (flags : UInt32)
  | call (o : VfsOp)

namespace Vfs

def sysExec (v : Vfs) : SysOp -> Vfs
  | SysOp.mount target fstype flags => (v.vfsMount target fstype flags).2
  | SysOp.call o => v.exec o

def KeepsEntries (_ : Vfs) : SysOp -> Prop
  | SysOp.call (VfsOp.unlink _) => False
  | _ => True

variable {v : Vfs}

theorem tableInv_boot (fails : Nat -> Bool) : TableInv (boot fails) where
  objects := objInv_boot fails
  alone := fun _ _ _ h => by cases h
  fileAlive := fun _ _ h => by cases h
  node := fun _ _ h => by cases h
  alive := fun _ _ h => by cases h

theorem TableInv.sysExec (h : TableInv v) {o : SysOp}
    (hkeeps : KeepsEntries v o) : TableInv (v.sysExec o) := by
  cases o with
  | mount target fstype flags =>
      rcases vfsMount_cases h.objects target fstype flags with
        hkeep | hdiscard | hplant
      · exact h.keeps hkeep
      · exact h.discards hdiscard
      · exact h.plants hplant
  | call o =>
      cases o with
      | openFile path flags mode =>
          exact h.opens (vfsOpen_opens h.objects path flags mode)
      | close fd => exact h.close fd
      | read fd len => exact h.keeps (v.keeps_read fd len)
      | write fd buf => exact h.keeps (v.keeps_write fd buf)
      | seek fd offset whence => exact h.keeps (v.keeps_seek fd offset whence)
      | mkdir path mode =>
          exact h.creates (vfsMkdir_creates h.objects path mode)
      | unlink path => exact absurd hkeeps id

/-- The table is disciplined in every state, whatever allocations fail. -/
theorem descriptors_disciplined (fails : Nat -> Bool)
    (hreach : Reachable sysExec KeepsEntries (boot fails) v) :
    Disciplined v := by
  have hinv : TableInv v :=
    hreach.invariant (tableInv_boot fails) (fun _ _ h hkeeps => h.sysExec hkeeps)
  exact hinv.disciplined

/-- A file opened twice, and one descriptor closed. -/
def reopened : List SysOp :=
  [SysOp.mount (cstr "/") ramfsType.name 0,
    SysOp.call (VfsOp.openFile (cstr "/a") oCreat 0),
    SysOp.call (VfsOp.openFile (cstr "/a") 0 0), SysOp.call (VfsOp.close 0)]

theorem descriptors_disciplined_reopened :
    Disciplined (run sysExec (boot fun _ => false) reopened) :=
  descriptors_disciplined (fun _ => false)
    ⟨reopened, ⟨trivial, trivial, trivial, trivial, trivial⟩, rfl⟩

end Vfs
end Fs
end EarlnuxOS
