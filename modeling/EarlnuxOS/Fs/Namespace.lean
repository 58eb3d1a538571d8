import EarlnuxOS.Fs.Calls

/-!
# The names in a directory

What the directories of a ramfs contain over a run: names are added by `mkdir`
and by `open` with `O_CREAT`, neither of which looks at the names that are
already there.
-/

namespace EarlnuxOS
namespace Fs

open Foundation

def NameOk (name : CStr) : Prop :=
  name ≠ [] ∧ slash ∉ name ∧ name ≠ dot ∧ name ≠ dotDot

def Inode.names (node : Inode) : List CStr := node.entries.map Dirent.name

namespace Vfs

variable {v v' : Vfs}

def NamesOk (v : Vfs) : Prop :=
  forall id, (v.inode id).names.Nodup ∧
    forall name, name ∈ (v.inode id).names -> NameOk name

/-!
# When a call creates an entry
-/

def hasMemory (v : Vfs) (n : Nat) : Bool :=
  (List.range n).all (fun i => !v.fails (v.calls + i))

/-- The directory that is to hold the last component of a path. -/
def parentDir (v : Vfs) (mnt : Mountpoint) (path : CStr) : Option Nat :=
  (v.resolve mnt.root (pathDirname path pathMax)).filter
    (fun dir => sIsdir (v.inode dir).mode)

/-- The directory and the name with which `vfs_mkdir` calls `ramfs_create`. -/
def mkdirTarget (v : Vfs) (path : CStr) : Option (Nat × CStr) :=
  match v.findMount path with
  | none => none
  | some (mnt, rest) =>
      if mnt.fs.mkdir ∧ v.hasMemory 3 then
        (v.parentDir mnt rest).map (fun dir => (dir, pathBasename rest pathMax))
      else
        none

def openTarget (v : Vfs) (path : CStr) (flags : UInt32) :
    Option (Nat × CStr) :=
  match v.findMount path with
  | none => none
  | some (mnt, rest) =>
      if mnt.fs.openFile ∧ v.hasMemory 4 ∧
          (freeSlot v.fdTable 0 fdMax).isSome ∧ flags &&& oCreat ≠ 0 ∧
          v.resolve mnt.root rest = none then
        (v.parentDir mnt rest).map (fun dir => (dir, pathBasename rest pathMax))
      else
        none

def pathExists (v : Vfs) (path : CStr) : Bool :=
  match v.findMount path with
  | none => false
  | some (mnt, rest) => (v.resolve mnt.root rest).isSome

/-- The entry would have a name of its own that a path can lead to. -/
def EntryFits (v : Vfs) (target : Nat × CStr) : Prop :=
  target.2 ≠ [] ∧ target.2 ≠ dot ∧ target.2 ≠ dotDot ∧
    target.2.take nameMax ∉ (v.inode target.1).names

instance (v : Vfs) (target : Nat × CStr) : Decidable (EntryFits v target) :=
  inferInstanceAs (Decidable (_ ∧ _))

/-- A call that creates an entry gives it a fitting name, and `vfs_mkdir` creates nothing that exists. -/
def NameSound (v : Vfs) : VfsOp -> Prop
  | VfsOp.mkdir path _ => forall target, target ∈ v.mkdirTarget path ->
      EntryFits v target ∧ v.pathExists path = false
  | VfsOp.openFile path flags _ =>
      forall target, target ∈ v.openTarget path flags -> EntryFits v target
  | _ => True

instance (v : Vfs) (o : VfsOp) : Decidable (NameSound v o) :=
  match o with
  | VfsOp.mkdir path _ => inferInstanceAs (Decidable (forall target,
      target ∈ v.mkdirTarget path ->
        EntryFits v target ∧ v.pathExists path = false))
  | VfsOp.openFile path flags _ => inferInstanceAs (Decidable (forall target,
      target ∈ v.openTarget path flags -> EntryFits v target))
  | VfsOp.close _ => isTrue trivial
  | VfsOp.read _ _ => isTrue trivial
  | VfsOp.write _ _ => isTrue trivial
  | VfsOp.seek _ _ _ => isTrue trivial
  | VfsOp.unlink _ => isTrue trivial

/-!
# Creating and unlinking
-/

theorem hasMemory_iff (v : Vfs) (n : Nat) :
    v.hasMemory n = true <->
      forall i, i < n -> v.fails (v.calls + i) = false := by
  unfold hasMemory
  rw [List.all_eq_true]
  simp

theorem hasMemory_three (v : Vfs) :
    v.hasMemory 3 = true <->
      v.fails v.calls = false ∧ v.fails (v.calls + 1) = false ∧
        v.fails (v.calls + 2) = false := by
  rw [hasMemory_iff]
  constructor
  · intro h
    exact ⟨h 0 (by decide), h 1 (by decide), h 2 (by decide)⟩
  · intro h i hi
    have hcases : i = 0 ∨ i = 1 ∨ i = 2 := by omega
    rcases hcases with hi | hi | hi <;> rw [hi]
    · exact h.left
    · exact h.right.left
    · exact h.right.right

theorem ramfsCreate_given {dir : Nat} {name : CStr} {mode : UInt16}
    (h : v.hasMemory 3 = true) :
    v.ramfsCreate dir name mode = (some v.nextId, v.created dir name mode) := by
  rcases (hasMemory_three v).mp h with ⟨hfirst, hsecond, hthird⟩
  rw [ramfsCreate_eq, hfirst, hsecond, hthird]
  rfl

theorem NamesOk.congr (h : NamesOk v)
    (hsame : forall id, (v'.inode id).entries = (v.inode id).entries) :
    NamesOk v' := by
  intro id
  unfold Inode.names
  rw [hsame id]
  exact h id

theorem NamesOk.update {id : Nat} {node : Inode} (h : NamesOk v)
    (hv : v'.inodes = Function.update v.inodes id (some node))
    (hnode : node.entries = []) : NamesOk v' := by
  intro j
  unfold Inode.names
  rw [inode_update hv]
  split
  · rw [hnode]
    exact ⟨List.nodup_nil, fun _ hname => by cases hname⟩
  · exact h j

theorem take_nameMax {name s : CStr} (h : name.take nameMax = s)
    (hs : s.length < nameMax) : name = s := by
  have hlen : min nameMax name.length = s.length := by
    rw [← List.length_take, h]
  rw [← h, List.take_of_length_le (by omega)]

theorem EntryFits.nameOk {dir : Nat} {name : CStr}
    (h : EntryFits v (dir, name)) (hslash : slash ∉ name) :
    NameOk (name.take nameMax) := by
  rcases h with ⟨hne, hdot, hdotDot, _⟩
  refine ⟨?_, ?_, ?_, ?_⟩
  · intro heq
    exact hne (take_nameMax heq (by decide))
  · intro hmem
    exact hslash (List.mem_of_mem_take hmem)
  · intro heq
    exact hdot (take_nameMax heq (by decide))
  · intro heq
    exact hdotDot (take_nameMax heq (by decide))

theorem names_ramfsCreate (h : NamesOk v) {d : Nat} {name : CStr}
    (mode : UInt16) (hslash : slash ∉ name)
    (hfits : v.hasMemory 3 = true -> EntryFits v (d, name)) :
    NamesOk (v.ramfsCreate d name mode).2 := by
  rw [ramfsCreate_eq]
  split
  · exact h
  rename_i hfirst
  split
  · exact h.update rfl rfl
  rename_i hsecond
  split
  · exact h.update rfl rfl
  rename_i hthird
  have hmemory : v.hasMemory 3 = true := (hasMemory_three v).mpr
    ⟨Bool.eq_false_of_not_eq_true hfirst, Bool.eq_false_of_not_eq_true hsecond,
      Bool.eq_false_of_not_eq_true hthird⟩
  have hname := (hfits hmemory).nameOk hslash
  have hfresh := (hfits hmemory).right.right.right
  -- the directory before the entry is added, empty if it is the new inode
  have hold : NamesOk { v.allocated mode with
      calls := v.calls + 3
      nextId := v.nextId + 3 } := h.update rfl rfl
  have hnot : name.take nameMax ∉ (Vfs.inode { v.allocated mode with
      calls := v.calls + 3
      nextId := v.nextId + 3 } d).names := by
    unfold Inode.names at hfresh ⊢
    rw [inode_update (v := v) (n := v.newInode mode) rfl]
    split
    · exact List.not_mem_nil
    · exact hfresh
  intro j
  show ((Vfs.created v d name mode).inode j).names.Nodup ∧ _
  unfold created
  rw [inode_modifyInode]
  split
  · have hdir := hold d
    unfold Inode.names at hdir hnot ⊢
    rw [List.map_cons]
    refine ⟨List.nodup_cons.mpr ⟨hnot, hdir.left⟩, ?_⟩
    intro other hother
    rcases List.mem_cons.mp hother with hother | hother
    · rw [hother]
      exact hname
    · exact hdir.right other hother
  · exact hold j

theorem NamesOk.sublist (h : NamesOk v)
    (hsub : forall id, (v'.inode id).entries.Sublist (v.inode id).entries) :
    NamesOk v' := by
  intro id
  have hnames := (hsub id).map Dirent.name
  exact ⟨(h id).left.sublist hnames,
    fun name hname => (h id).right name (hnames.subset hname)⟩

theorem names_ramfsUnlink (h : NamesOk v) (dir : Nat) (name : CStr) :
    NamesOk (v.ramfsUnlink dir name).2 := by
  unfold ramfsUnlink
  split
  · exact h
  · rename_i victim _
    dsimp only
    generalize hremoved : v.modifyInode dir _ = w
    have hw : NamesOk w := by
      apply h.sublist
      intro id
      rw [← hremoved, inode_modifyInode]
      split
      · rename_i hid
        rw [hid.left]
        exact List.eraseP_sublist
      · exact List.Sublist.refl _
    have hu := hw.congr (entries_dropLink w victim.inode)
    split
    · exact hu.congr (entries_dropLink _ dir)
    · exact hu.congr (entries_dropLink _ dir)

/-!
# The calls
-/

theorem parentDir_congr (h : SameDirs v v') (mnt : Mountpoint)
    (path : CStr) : v'.parentDir mnt path = v.parentDir mnt path := by
  unfold parentDir
  rw [resolve_congr h]
  congr 1
  funext dir
  rw [h.mode]

theorem hasMemory_congr (h : v'.noRefs = v.noRefs) (n : Nat) :
    v'.hasMemory n = v.hasMemory n := by
  exact field_congr (fun v => v.hasMemory n) (fun _ => rfl) h

theorem EntryFits.congr {target : Nat × CStr} (h : EntryFits v target)
    (hsame : forall id, (v'.inode id).entries = (v.inode id).entries) :
    EntryFits v' target := by
  unfold EntryFits Inode.names at h ⊢
  rw [hsame target.1]
  exact h

theorem mem_parentDir {mnt : Mountpoint} {path : CStr} {dir : Nat} :
    dir ∈ v.parentDir mnt path <->
      v.resolve mnt.root (pathDirname path pathMax) = some dir ∧
        sIsdir (v.inode dir).mode = true := by
  unfold parentDir
  rw [Option.mem_def, Option.filter_eq_some_iff]

theorem names_vfsMkdir (h : NamesOk v) (path : CStr) (mode : UInt16)
    (hsound : forall target, target ∈ v.mkdirTarget path ->
      EntryFits v target) : NamesOk (v.vfsMkdir path mode).2 := by
  unfold vfsMkdir
  split
  · exact h
  rename_i mnt rest hmount
  split
  · exact h
  rename_i hmkdir
  unfold ramfsFsMkdir
  rcases v.getInode_eq mnt.root (pathDirname rest pathMax) with ⟨w, hw, hsame⟩
  have hnames := h.congr (entries_congr hsame)
  rw [hw]
  cases hres : v.resolve mnt.root (pathDirname rest pathMax) with
  | none => exact hnames
  | some dir =>
      dsimp only
      split
      · exact hnames
      · rename_i hdir
        have hcreate := names_ramfsCreate (d := dir) hnames
          (sIfdir ||| (mode &&& 0o777)) (slash_not_mem_basename rest pathMax)
          (by
            intro hmemory
            rw [hasMemory_congr hsame] at hmemory
            apply EntryFits.congr (v := v) _ (entries_congr hsame)
            apply hsound
            rw [mode_congr hsame] at hdir
            have hparent : dir ∈ v.parentDir mnt rest :=
              mem_parentDir.mpr ⟨hres, by simpa using hdir⟩
            unfold mkdirTarget
            rw [hmount]
            dsimp only
            rw [if_pos ⟨by simpa using hmkdir, hmemory⟩, hparent]
            rfl)
        unfold ramfsMkdir
        split
        · rename_i hc
          rw [hc] at hcreate
          exact hcreate
        · rename_i hc
          rw [hc] at hcreate
          exact hcreate

theorem names_vfsUnlink (h : NamesOk v) (path : CStr) :
    NamesOk (v.vfsUnlink path).2 := by
  unfold vfsUnlink
  split
  · exact h
  rename_i mnt rest hmount
  split
  · exact h
  unfold ramfsFsUnlink
  rcases v.getInode_eq mnt.root (pathDirname rest pathMax) with ⟨w, hw, hsame⟩
  have hnames := h.congr (entries_congr hsame)
  rw [hw]
  cases v.resolve mnt.root (pathDirname rest pathMax) with
  | none => exact hnames
  | some dir =>
      dsimp only
      split
      · exact hnames
      · exact names_ramfsUnlink hnames dir _

theorem names_findOrCreate (h : NamesOk v) (mnt : Mountpoint) (path : CStr)
    (flags : UInt32) (mode : UInt16)
    (hsound : v.hasMemory 3 = true -> flags &&& oCreat ≠ 0 ->
      v.resolve mnt.root path = none -> forall dir,
      dir ∈ v.parentDir mnt path ->
      EntryFits v (dir, pathBasename path pathMax)) :
    NamesOk (v.findOrCreate mnt path flags mode).2 := by
  unfold findOrCreate
  rcases v.getInode_eq mnt.root path with ⟨w, hw, hsame⟩
  have hnames := h.congr (entries_congr hsame)
  rw [hw]
  cases hres : v.resolve mnt.root path with
  | some node => exact hnames
  | none =>
      dsimp only
      split
      · exact hnames
      rename_i hcreat
      rcases w.getInode_eq mnt.root (pathDirname path pathMax) with
        ⟨u, hu, hsame'⟩
      have hnames' := hnames.congr (entries_congr hsame')
      have htrans := hsame'.trans hsame
      rw [hu]
      cases hres' : w.resolve mnt.root (pathDirname path pathMax) with
      | none => exact hnames'
      | some dir =>
          dsimp only
          split
          · exact hnames'
          · rename_i hdir
            apply names_ramfsCreate hnames' _ (slash_not_mem_basename _ _)
            intro hmemory
            rw [hasMemory_congr htrans] at hmemory
            apply EntryFits.congr (v := v) _ (entries_congr htrans)
            apply hsound hmemory hcreat hres
            rw [mode_congr htrans] at hdir
            rw [resolve_congr (sameDirs_noRefs hsame)] at hres'
            exact mem_parentDir.mpr ⟨hres', by simpa using hdir⟩

theorem names_ramfsFsOpen (h : NamesOk v) (mnt : Mountpoint) (path : CStr)
    (flags : UInt32) (mode : UInt16) (file : Nat)
    (hsound : v.hasMemory 3 = true -> flags &&& oCreat ≠ 0 ->
      v.resolve mnt.root path = none -> forall dir,
      dir ∈ v.parentDir mnt path ->
      EntryFits v (dir, pathBasename path pathMax)) :
    NamesOk (v.ramfsFsOpen mnt path flags mode file).2 := by
  have hfound := names_findOrCreate h mnt path flags mode hsound
  unfold ramfsFsOpen
  split
  · rename_i hf
    rw [hf] at hfound
    exact hfound
  · rename_i node w hf
    rw [hf] at hfound
    dsimp only
    have htrunc : NamesOk
        (if flags &&& oTrunc = 0 then
          w.setFile file
            { w.file file with
              inode := node
              ops := some ramfsFileOps
              pos := 0 }
        else ((w.setFile file
            { w.file file with
              inode := node
              ops := some ramfsFileOps
              pos := 0 }).ramfsTruncate node 0).2) := by
      split
      · exact hfound
      · exact NamesOk.congr (v := w) hfound
          (keeps_truncate (w.setFile file _) node 0).entries
    split
    · exact htrunc
    · exact htrunc

theorem names_vfsOpen (h : NamesOk v) (path : CStr) (flags : UInt32)
    (mode : UInt16)
    (hsound : forall target, target ∈ v.openTarget path flags ->
      EntryFits v target) : NamesOk (v.vfsOpen path flags mode).2 := by
  cases hmount : v.findMount path with
  | none =>
      unfold vfsOpen
      rw [hmount]
      exact h
  | some found =>
      rcases found with ⟨mnt, rest⟩
      by_cases hopen : mnt.fs.openFile = true
      · rw [vfsOpen_eq v flags mode hmount hopen]
        split
        · exact h
        rename_i hfirst
        split
        · exact h
        · rename_i fd hslot
          have hfs := names_ramfsFsOpen (v := v.opening flags fd) h mnt rest
            flags mode v.nextId (by
              intro hmemory hcreat hres dir hdir
              have hsame : SameDirs v (v.opening flags fd) :=
                ⟨fun _ => rfl, fun _ => rfl⟩
              rw [resolve_congr hsame] at hres
              rw [parentDir_congr hsame] at hdir
              apply hsound
              unfold openTarget
              rw [hmount]
              dsimp only
              have hmemory' : v.hasMemory 4 = true := by
                rw [hasMemory_iff] at hmemory ⊢
                intro i hi
                cases i with
                | zero => exact Bool.eq_false_of_not_eq_true hfirst
                | succ i =>
                    have hlater := hmemory i (by omega)
                    rw [Nat.add_comm i, ← Nat.add_assoc]
                    exact hlater
              rw [if_pos ⟨hopen, hmemory', by rw [hslot]; rfl, hcreat, hres⟩]
              exact Option.mem_map_of_mem _ hdir)
          dsimp only
          split
          · exact hfs
          · exact hfs
      · unfold vfsOpen
        rw [hmount]
        dsimp only
        rw [if_pos (by simpa using hopen)]
        exact h

theorem names_vfsClose (h : NamesOk v) (fd : Int) :
    NamesOk (v.vfsClose fd).2 := by
  apply h.congr
  intro id
  unfold vfsClose ramfsFileClose
  split
  · rfl
  · dsimp only
    split <;> rfl

theorem names_exec (h : NamesOk v) (o : VfsOp) (hsound : NameSound v o) :
    NamesOk (v.exec o) := by
  cases o with
  | openFile path flags mode => exact names_vfsOpen h path flags mode hsound
  | close fd => exact names_vfsClose h fd
  | read fd len => exact h.congr (v.keeps_read fd len).entries
  | write fd buf => exact h.congr (v.keeps_write fd buf).entries
  | seek fd offset whence =>
      exact h.congr (v.keeps_seek fd offset whence).entries
  | mkdir path mode =>
      exact names_vfsMkdir h path mode (fun target ht => (hsound target ht).left)
  | unlink path => exact names_vfsUnlink h path

theorem names_freshMount (fails : Nat -> Bool) (target : CStr)
    (flags : UInt32) : NamesOk (freshMount fails target flags) := by
  have hboot : NamesOk (boot fails) := by
    intro id
    exact ⟨List.nodup_nil, fun _ hname => by cases hname⟩
  rw [freshMount_eq]
  split
  · exact hboot
  split
  · exact hboot.update rfl rfl
  split
  · exact hboot.update rfl rfl
  · exact hboot.update rfl rfl

/-!
# A path that exists
-/

/-- Nothing that was there has changed, reference counts apart. -/
def Unchanged (v v' : Vfs) : Prop :=
  v'.mountList = v.mountList ∧ v'.fdTable = v.fdTable ∧ v'.files = v.files ∧
    forall id, v.inodes id ≠ none ->
      (v'.inodes id).map Inode.noRefs = (v.inodes id).map Inode.noRefs

theorem unchanged_noRefs (h : v'.noRefs = v.noRefs) : Unchanged v v' :=
  ⟨field_congr Vfs.mountList (fun _ => rfl) h,
    field_congr Vfs.fdTable (fun _ => rfl) h,
    field_congr Vfs.files (fun _ => rfl) h,
    fun id _ => congrArg (fun v : Vfs => v.inodes id) h⟩

theorem Unchanged.update {w : Vfs} {node : Inode} (hi : ObjInv v)
    (h : Unchanged v v') (hnext : v'.nextId = v.nextId)
    (hinodes : w.inodes = Function.update v'.inodes v'.nextId (some node))
    (hmount : w.mountList = v'.mountList) (hfd : w.fdTable = v'.fdTable)
    (hfiles : w.files = v'.files) : Unchanged v w := by
  rcases h with ⟨hmount', hfd', hfiles', hold⟩
  refine ⟨hmount.trans hmount', hfd.trans hfd', hfiles.trans hfiles', ?_⟩
  intro id hid
  have hlt := hi.inode_lt id hid
  rw [hinodes, Function.update_apply, if_neg (by omega)]
  exact hold id hid

/-- Without memory for all of it, `ramfs_create` leaves everything as it was. -/
theorem unchanged_ramfsCreate (hi : ObjInv v) (h : v'.noRefs = v.noRefs)
    (dir : Nat) (name : CStr) (mode : UInt16)
    (hmemory : v.hasMemory 3 = false) :
    (v'.ramfsCreate dir name mode).1 = none ∧
      Unchanged v (v'.ramfsCreate dir name mode).2 := by
  have hsame := unchanged_noRefs h
  have hnext : v'.nextId = v.nextId :=
    field_congr Vfs.nextId (fun _ => rfl) h
  rw [← hasMemory_congr h] at hmemory
  rw [ramfsCreate_eq]
  split
  · exact ⟨rfl, hsame⟩
  rename_i hfirst
  split
  · exact ⟨rfl, hsame.update hi hnext rfl rfl rfl rfl⟩
  rename_i hsecond
  split
  · exact ⟨rfl, hsame.update hi hnext rfl rfl rfl rfl⟩
  rename_i hthird
  rw [(hasMemory_three v').mpr ⟨Bool.eq_false_of_not_eq_true hfirst,
    Bool.eq_false_of_not_eq_true hsecond,
    Bool.eq_false_of_not_eq_true hthird⟩] at hmemory
  cases hmemory

/-- When it would create nothing that exists, `vfs_mkdir` of an existing path fails. -/
theorem mkdir_existing (hi : ObjInv v) {path : CStr} (mode : UInt16)
    (hsound : NameSound v (VfsOp.mkdir path mode))
    (hexists : v.pathExists path = true) :
    (v.vfsMkdir path mode).1 = -1 ∧ Unchanged v (v.vfsMkdir path mode).2 := by
  have htarget : v.mkdirTarget path = none := by
    cases ht : v.mkdirTarget path with
    | none => rfl
    | some target =>
        have hfresh := (hsound target ht).right
        rw [hexists] at hfresh
        cases hfresh
  unfold mkdirTarget at htarget
  unfold vfsMkdir
  cases hmount : v.findMount path with
  | none => exact ⟨rfl, unchanged_noRefs rfl⟩
  | some found =>
      rcases found with ⟨mnt, rest⟩
      rw [hmount] at htarget
      dsimp only at htarget ⊢
      by_cases hmkdir : mnt.fs.mkdir = true
      · rw [if_neg (by simpa using hmkdir)]
        unfold ramfsFsMkdir
        rcases v.getInode_eq mnt.root (pathDirname rest pathMax) with
          ⟨w, hw, hsame⟩
        rw [hw]
        cases hres : v.resolve mnt.root (pathDirname rest pathMax) with
        | none => exact ⟨rfl, unchanged_noRefs hsame⟩
        | some dir =>
            dsimp only
            split
            · exact ⟨rfl, unchanged_noRefs hsame⟩
            · rename_i hdir
              rw [mode_congr hsame] at hdir
              have hparent : v.parentDir mnt rest = some dir :=
                mem_parentDir.mpr ⟨hres, by simpa using hdir⟩
              have hmemory : v.hasMemory 3 = false := by
                cases hm : v.hasMemory 3 with
                | false => rfl
                | true =>
                    rw [if_pos ⟨hmkdir, hm⟩, hparent] at htarget
                    cases htarget
              have hcreate := unchanged_ramfsCreate hi hsame dir
                (pathBasename rest pathMax) (sIfdir ||| (mode &&& 0o777))
                hmemory
              unfold ramfsMkdir
              split
              · rename_i hc
                rw [hc] at hcreate
                exact ⟨rfl, hcreate.right⟩
              · rename_i hc
                rw [hc] at hcreate
                cases hcreate.left
      · rw [if_pos (by simpa using hmkdir)]
        exact ⟨rfl, unchanged_noRefs rfl⟩

/-!
# Runs
-/

theorem ramfs_names (fails : Nat -> Bool) (target : CStr) (flags : UInt32)
    (hreach : Reachable exec NameSound (freshMount fails target flags) v) :
    NamesOk v ∧ forall path mode, NameSound v (VfsOp.mkdir path mode) ->
      v.pathExists path = true ->
      (v.vfsMkdir path mode).1 = -1 ∧
        Unchanged v (v.vfsMkdir path mode).2 := by
  have hi := (objInv_freshMount fails target flags).reachable hreach
  refine ⟨?_, fun path mode hsound => mkdir_existing hi mode hsound⟩
  exact hreach.invariant (names_freshMount fails target flags)
    (fun _ o h hsound => names_exec h o hsound)

/-- The file system at `/`, with as much memory as it asks for. -/
def plainMount : Vfs := freshMount (fun _ => false) (cstr "/") 0

def plainNames : List VfsOp :=
  [VfsOp.mkdir (cstr "/etc") 0o755,
    VfsOp.openFile (cstr "/etc/hostname") (oCreat ||| 1) 0o644]

theorem ramfs_names_plain : NamesOk (run exec plainMount plainNames) :=
  (ramfs_names (fun _ => false) (cstr "/") 0
    ⟨plainNames, ⟨by decide +kernel, by decide +kernel, trivial⟩, rfl⟩).left

/-- What booting does: `/etc` is created by `kernel_main` and by `user_init`. -/
def mkdirTwice : List VfsOp :=
  [VfsOp.mkdir (cstr "/etc") 0o755, VfsOp.mkdir (cstr "/etc") 0o755]

theorem mkdir_twice_shadows :
    ((plainMount.exec (VfsOp.mkdir (cstr "/etc") 0o755)).vfsMkdir
        (cstr "/etc") 0o755).1 = 0 ∧
      ¬ NamesOk (run exec plainMount mkdirTwice) := by
  refine ⟨by decide +kernel, ?_⟩
  intro hnames
  have hroot : ((run exec plainMount mkdirTwice).inode 1).names =
      [cstr "etc", cstr "etc"] := by decide +kernel
  have hnodup := (hnames 1).left
  rw [hroot] at hnodup
  exact absurd hnodup (by decide)

end Vfs
end Fs
end EarlnuxOS
