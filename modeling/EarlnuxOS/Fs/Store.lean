import EarlnuxOS.Fs.Calls
import EarlnuxOS.Fs.Contents

/-!
# Contents and positions

Which calls leave the contents of all files and the positions of all
descriptors alone, and what opening a file does to them.
-/

namespace EarlnuxOS
namespace Fs

open Foundation

def Inode.store (node : Inode) : Option Buffer × UInt64 × UInt64 :=
  (node.data, node.size, node.capacity)

def Inode.truncated (node : Inode) : Inode :=
  { node with
    data := none
    capacity := 0
    size := 0 }

namespace Vfs

variable {v v' : Vfs}

/-- Nothing that was there has other contents or another position. -/
structure SameStore (v v' : Vfs) : Prop where
  store : forall id, (v'.inode id).store = (v.inode id).store
  known : forall id, v.inodes id ≠ none -> v'.inodes id ≠ none
  file : forall j, j < v.nextId -> v'.file j = v.file j
  fdTable : v'.fdTable = v.fdTable
  outside : v'.outside = v.outside
  nextId : v.nextId ≤ v'.nextId

theorem SameStore.refl (v : Vfs) : SameStore v v :=
  ⟨fun _ => rfl, fun _ h => h, fun _ _ => rfl, rfl, rfl, Nat.le_refl _⟩

theorem SameStore.trans {w : Vfs} (h : SameStore v v')
    (h' : SameStore v' w) : SameStore v w where
  store := fun id => (h'.store id).trans (h.store id)
  known := fun id hid => h'.known id (h.known id hid)
  file := fun j hj =>
    (h'.file j (Nat.lt_of_lt_of_le hj h.nextId)).trans (h.file j hj)
  fdTable := h'.fdTable.trans h.fdTable
  outside := h'.outside.trans h.outside
  nextId := Nat.le_trans h.nextId h'.nextId

theorem SameStore.of_eq (hinodes : v'.inodes = v.inodes)
    (hfiles : v'.files = v.files) (hfd : v'.fdTable = v.fdTable)
    (houtside : v'.outside = v.outside) (hnext : v.nextId ≤ v'.nextId) :
    SameStore v v' where
  store := by
    intro id
    unfold inode
    rw [hinodes]
  known := by
    intro id hid
    rw [hinodes]
    exact hid
  file := by
    intro j _
    unfold Vfs.file
    rw [hfiles]
  fdTable := hfd
  outside := houtside
  nextId := hnext

theorem store_congr {m n : Inode} (h : n.store = m.store) :
    n.bytes = m.bytes ∧ (n.StoreOk <-> m.StoreOk) := by
  cases m
  cases n
  unfold Inode.store at h
  cases h
  exact ⟨rfl, fun h => ⟨h.1, h.2, h.3, h.4⟩, fun h => ⟨h.1, h.2, h.3, h.4⟩⟩

/-!
# Paths and directories
-/

theorem sameStore_noRefs (h : v'.noRefs = v.noRefs) : SameStore v v' where
  store := by
    intro id
    apply field_congr (fun v => (v.inode id).store) _ h
    intro v
    unfold inode noRefs
    dsimp only
    cases v.inodes id <;> rfl
  known := fun id => ((keeps_noRefs h).known id).mpr
  file := by
    intro j _
    exact field_congr (fun v => v.file j) (fun _ => rfl) h
  fdTable := field_congr Vfs.fdTable (fun _ => rfl) h
  outside := field_congr Vfs.outside (fun _ => rfl) h
  nextId := (keeps_noRefs h).nextId

theorem sameStore_modifyInode (v : Vfs) (id : Nat) {f : Inode -> Inode}
    (hf : forall node, (f node).store = node.store) :
    SameStore v (v.modifyInode id f) where
  store := by
    intro j
    rw [inode_modifyInode]
    split
    · rename_i hj
      rw [hj.left]
      exact hf _
    · rfl
  known := by
    intro j hj
    unfold modifyInode
    dsimp only
    rw [Function.update_apply]
    split
    · rename_i heq
      rw [heq] at hj
      simpa using hj
    · exact hj
  file := fun _ _ => rfl
  fdTable := rfl
  outside := rfl
  nextId := Nat.le_refl _

theorem sameStore_update {node : Inode} (hnew : v.inodes v.nextId = none)
    (hinodes : v'.inodes = Function.update v.inodes v.nextId (some node))
    (hnode : node.store = Inode.blank.store) (hfiles : v'.files = v.files)
    (hfd : v'.fdTable = v.fdTable) (houtside : v'.outside = v.outside)
    (hnext : v.nextId ≤ v'.nextId) : SameStore v v' where
  store := by
    intro id
    rw [inode_update hinodes]
    split
    · rename_i hid
      rw [hid, inode_unknown hnew]
      exact hnode
    · rfl
  known := by
    intro id hid
    exact (known_update hinodes id).mpr (Or.inl hid)
  file := by
    intro j _
    unfold file
    rw [hfiles]
  fdTable := hfd
  outside := houtside
  nextId := hnext

theorem sameStore_ramfsCreate (hnew : v.inodes v.nextId = none) (dir : Nat)
    (name : CStr) (mode : UInt16) :
    SameStore v (v.ramfsCreate dir name mode).2 := by
  rw [ramfsCreate_eq]
  split
  · exact SameStore.of_eq rfl rfl rfl rfl (Nat.le_refl _)
  split
  · exact sameStore_update hnew rfl rfl rfl rfl rfl (Nat.le_succ _)
  split
  · have hnext : v.nextId ≤ (v.refusedEntry mode).nextId :=
      Nat.le_add_right v.nextId 2
    exact sameStore_update hnew rfl rfl rfl rfl rfl hnext
  · have hallocated : SameStore v { v.allocated mode with
        calls := v.calls + 3
        nextId := v.nextId + 3 } :=
      sameStore_update hnew rfl rfl rfl rfl rfl (Nat.le_add_right v.nextId 3)
    unfold created
    exact hallocated.trans (sameStore_modifyInode _ dir (fun _ => rfl))

theorem unknown_noRefs (h : v'.noRefs = v.noRefs)
    (hnew : v.inodes v.nextId = none) : v'.inodes v'.nextId = none := by
  rw [field_congr Vfs.nextId (fun _ => rfl) h, (keeps_noRefs h).unknown]
  exact hnew

theorem sameStore_vfsMkdir (hnew : v.inodes v.nextId = none) (path : CStr)
    (mode : UInt16) : SameStore v (v.vfsMkdir path mode).2 := by
  unfold vfsMkdir
  split
  · exact SameStore.refl v
  rename_i mnt rest _
  split
  · exact SameStore.refl v
  unfold ramfsFsMkdir
  rcases v.getInode_eq mnt.root (pathDirname rest pathMax) with ⟨w, hw, hsame⟩
  have hstore := sameStore_noRefs hsame
  rw [hw]
  cases v.resolve mnt.root (pathDirname rest pathMax) with
  | none => exact hstore
  | some dir =>
      dsimp only
      split
      · exact hstore
      · have hcreate := hstore.trans (sameStore_ramfsCreate
          (unknown_noRefs hsame hnew) dir (pathBasename rest pathMax)
          (sIfdir ||| (mode &&& 0o777)))
        unfold ramfsMkdir
        split
        · rename_i hc
          rw [hc] at hcreate
          exact hcreate
        · rename_i hc
          rw [hc] at hcreate
          exact hcreate

theorem sameStore_vfsUnlink (v : Vfs) (path : CStr) :
    SameStore v (v.vfsUnlink path).2 := by
  unfold vfsUnlink
  split
  · exact SameStore.refl v
  rename_i mnt rest _
  split
  · exact SameStore.refl v
  unfold ramfsFsUnlink
  rcases v.getInode_eq mnt.root (pathDirname rest pathMax) with ⟨w, hw, hsame⟩
  have hstore := sameStore_noRefs hsame
  rw [hw]
  cases v.resolve mnt.root (pathDirname rest pathMax) with
  | none => exact hstore
  | some dir =>
      dsimp only
      split
      · exact hstore
      unfold ramfsUnlink
      split
      · exact hstore
      · rename_i victim _
        dsimp only
        have hremoved := hstore.trans ((sameStore_modifyInode w dir
          (f := fun node =>
            { node with
              entries := node.entries.eraseP (fun de =>
                strncmpEq de.name (pathBasename rest pathMax) nameMax) })
          (fun _ => rfl)).trans
            (sameStore_modifyInode _ victim.inode (f := fun node =>
              { node with nlinks := node.nlinks - 1 }) (fun _ => rfl)))
        split
        · have hfreed : forall u : Vfs, SameStore u (u.kfree victim.inode) :=
            fun u => SameStore.of_eq rfl rfl rfl rfl (Nat.le_refl _)
          exact hremoved.trans ((hfreed _).trans
            (sameStore_modifyInode _ dir (fun _ => rfl)))
        · exact hremoved.trans (sameStore_modifyInode _ dir (fun _ => rfl))

/-!
# Opening
-/

theorem sameStore_findOrCreate (hnew : v.inodes v.nextId = none)
    (mnt : Mountpoint) (path : CStr) (flags : UInt32) (mode : UInt16) :
    SameStore v (v.findOrCreate mnt path flags mode).2 := by
  unfold findOrCreate
  rcases v.getInode_eq mnt.root path with ⟨w, hw, hsame⟩
  have hstore := sameStore_noRefs hsame
  rw [hw]
  cases v.resolve mnt.root path with
  | some id => exact hstore
  | none =>
      dsimp only
      split
      · exact hstore
      rcases w.getInode_eq mnt.root (pathDirname path pathMax) with
        ⟨u, hu, hsame'⟩
      have htrans := hsame'.trans hsame
      have hstore' := sameStore_noRefs htrans
      rw [hu]
      cases w.resolve mnt.root (pathDirname path pathMax) with
      | none => exact hstore'
      | some dir =>
          dsimp only
          split
          · exact hstore'
          · exact hstore'.trans (sameStore_ramfsCreate
              (unknown_noRefs htrans hnew) dir _ _)

theorem ramfsCreate_some {dir id : Nat} {name : CStr} {mode : UInt16}
    (h : (v.ramfsCreate dir name mode).1 = some id) : id = v.nextId := by
  rw [ramfsCreate_eq] at h
  split at h
  · cases h
  split at h
  · cases h
  split at h
  · cases h
  · exact (Option.some.inj h).symm

theorem findOrCreate_node (hnew : v.inodes v.nextId = none)
    {mnt : Mountpoint} {path : CStr} {flags : UInt32} {mode : UInt16}
    {node : Nat}
    (hfound : (v.findOrCreate mnt path flags mode).1 = some node) :
    v.resolve mnt.root path = some node ∨
      (v.resolve mnt.root path = none ∧ v.inodes node = none ∧
        flags &&& oCreat ≠ 0) := by
  unfold findOrCreate at hfound
  rcases v.getInode_eq mnt.root path with ⟨w, hw, hsame⟩
  rw [hw] at hfound
  cases hres : v.resolve mnt.root path with
  | some id =>
      rw [hres] at hfound
      exact Or.inl hfound
  | none =>
      rw [hres] at hfound
      dsimp only at hfound
      split at hfound
      · cases hfound
      rename_i hcreat
      rcases w.getInode_eq mnt.root (pathDirname path pathMax) with
        ⟨u, hu, hsame'⟩
      have htrans := hsame'.trans hsame
      rw [hu] at hfound
      cases hdir : w.resolve mnt.root (pathDirname path pathMax) with
      | none =>
          rw [hdir] at hfound
          cases hfound
      | some dir =>
          rw [hdir] at hfound
          dsimp only at hfound
          split at hfound
          · cases hfound
          · have hid := ramfsCreate_some hfound
            rw [field_congr Vfs.nextId (fun _ => rfl) htrans] at hid
            rw [hid]
            exact Or.inr ⟨rfl, hnew, hcreat⟩

/-- The `O_TRUNC` part of `ramfs_fs_open`. -/
def truncating (v : Vfs) (node : Nat) (flags : UInt32) : Vfs :=
  if flags &&& oTrunc = 0 then v else (v.ramfsTruncate node 0).2

theorem inode_truncating {node : Nat} (hnode : v.inodes node ≠ none)
    (flags : UInt32) (j : Nat) :
    (v.truncating node flags).inode j =
      if j = node ∧ flags &&& oTrunc ≠ 0 then (v.inode node).truncated
      else v.inode j := by
  unfold truncating
  split
  · rename_i hflag
    rw [if_neg (fun h => h.right hflag)]
  · rename_i hflag
    show (v.modifyInode node Inode.truncated).inode j = _
    rw [inode_modifyInode]
    have hsome := Option.isSome_iff_ne_none.mpr hnode
    by_cases hj : j = node
    · rw [if_pos ⟨hj, hsome⟩, if_pos ⟨hj, hflag⟩]
    · rw [if_neg (fun h => hj h.left), if_neg (fun h => hj h.left)]

theorem known_truncating (node : Nat) (flags : UInt32) {j : Nat}
    (hj : v.inodes j ≠ none) : (v.truncating node flags).inodes j ≠ none := by
  unfold truncating
  split
  · exact hj
  · exact ((v.keeps_truncate node 0).known j).mpr hj

theorem frame_truncating (v : Vfs) (node : Nat) (flags : UInt32) :
    (v.truncating node flags).files = v.files ∧
      (v.truncating node flags).fdTable = v.fdTable ∧
      (v.truncating node flags).outside = v.outside ∧
      (v.truncating node flags).nextId = v.nextId ∧
      (v.truncating node flags).mountList = v.mountList := by
  unfold truncating
  split
  · exact ⟨rfl, rfl, rfl, rfl, rfl⟩
  · exact ⟨rfl, rfl, rfl, rfl, rfl⟩

/-- A file of `vfs_open` comes to refer to an inode. -/
structure Attaches (v v' : Vfs) (file node : Nat) (flags : UInt32) :
    Prop where
  inode : forall j, v'.inode j =
    if j = node ∧ flags &&& oTrunc ≠ 0 then (v.inode node).truncated
    else v.inode j
  known : forall j, v.inodes j ≠ none -> v'.inodes j ≠ none
  opened : v'.file file =
    { v.file file with
      inode := node
      ops := some ramfsFileOps
      pos := if flags &&& oAppend = 0 then 0 else (v'.inode node).size }
  others : forall j, j ≠ file -> v'.file j = v.file j
  fdTable : v'.fdTable = v.fdTable
  outside : v'.outside = v.outside
  nextId : v'.nextId = v.nextId
  mountList : v'.mountList = v.mountList

theorem file_congr (h : v'.files = v.files) (j : Nat) :
    v'.file j = v.file j := by
  unfold file
  rw [h]

theorem attaches_truncating {file node : Nat} (hnode : v.inodes node ≠ none)
    (flags : UInt32) :
    Attaches v
      (if flags &&& oAppend = 0 then (v.attach file node).truncating node flags
      else ((v.attach file node).truncating node flags).setFile file
        { ((v.attach file node).truncating node flags).file file with
          pos :=
            (((v.attach file node).truncating node flags).inode node).size })
      file node flags := by
  generalize ht : (v.attach file node).truncating node flags = t
  have hinode : forall j, t.inode j =
      if j = node ∧ flags &&& oTrunc ≠ 0 then (v.inode node).truncated
      else v.inode j := by
    intro j
    rw [← ht]
    exact inode_truncating (v := v.attach file node) hnode flags j
  have hknown : forall j, v.inodes j ≠ none -> t.inodes j ≠ none := by
    intro j hj
    rw [← ht]
    exact known_truncating (v := v.attach file node) node flags hj
  rcases (v.attach file node).frame_truncating node flags with
    ⟨hfiles, hfd, houtside, hnext, hmount⟩
  rw [ht] at hfiles hfd houtside hnext hmount
  have hfile : forall j, t.file j = if j = file then
      { v.file file with
        inode := node
        ops := some ramfsFileOps
        pos := 0 }
      else v.file j := by
    intro j
    rw [file_congr hfiles]
    exact file_setFile v file j _
  by_cases happend : flags &&& oAppend = 0
  · rw [if_pos happend]
    refine ⟨hinode, hknown, ?_, ?_, hfd, houtside, hnext, hmount⟩
    · rw [hfile, if_pos rfl, if_pos happend]
    · intro j hj
      rw [hfile, if_neg hj]
  · rw [if_neg happend]
    refine ⟨hinode, hknown, ?_, ?_, hfd, houtside, hnext, hmount⟩
    · rw [file_setFile, if_pos rfl, hfile, if_pos rfl, if_neg happend]
      rfl
    · intro j hj
      rw [file_setFile, if_neg hj, hfile, if_neg hj]

theorem ramfsFsOpen_attaches {w : Vfs} {mnt : Mountpoint} {path : CStr}
    {flags : UInt32} {mode : UInt16} {node : Nat} (file : Nat)
    (hfound : v.findOrCreate mnt path flags mode = (some node, w))
    (hnode : w.inodes node ≠ none) :
    (v.ramfsFsOpen mnt path flags mode file).1 = 0 ∧
      Attaches w (v.ramfsFsOpen mnt path flags mode file).2 file node
        flags := by
  unfold ramfsFsOpen
  rw [hfound]
  exact ⟨rfl, attaches_truncating hnode flags⟩

/-- The inode a path leads to, whatever it is mounted on. -/
def pathNode (v : Vfs) (path : CStr) : Option Nat :=
  match v.findMount path with
  | none => none
  | some (mnt, rest) => v.resolve mnt.root rest

def descNode (v : Vfs) (fd : Int) : Option Nat :=
  (v.fdTable fd.toNat).map (fun file => (v.file file).inode)

structure Reopens (v v' : Vfs) (fd node : Nat) (flags : UInt32) : Prop where
  bound : fd < fdMax
  slot : v.fdTable fd = none
  fdTable : v'.fdTable = Function.update v.fdTable fd (some v.nextId)
  opened : v'.file v.nextId =
    { inode := node
      pos := if flags &&& oAppend = 0 then 0 else (v'.inode node).size
      flags := flags
      refCount := 1
      ops := some ramfsFileOps }
  others : forall j, j < v.nextId -> v'.file j = v.file j
  store : forall j, (v'.inode j).store =
    if j = node ∧ flags &&& oTrunc ≠ 0 then (none, 0, 0)
    else (v.inode j).store
  known : forall j, v.inodes j ≠ none -> v'.inodes j ≠ none
  node_known : v'.inodes node ≠ none
  outside : v'.outside = v.outside

theorem opening_new (v : Vfs) (flags : UInt32) (fd : Nat) :
    (v.opening flags fd).file v.nextId =
      { File.blank with
        flags := flags
        refCount := 1 } :=
  (file_setFile v v.nextId v.nextId _).trans (if_pos rfl)

theorem Reopens.descNode {fd node : Nat} {flags : UInt32}
    (h : Reopens v v' fd node flags) : v'.descNode fd = some node := by
  unfold Vfs.descNode
  rw [h.fdTable, Int.toNat_natCast, Function.update_self, Option.map_some,
    h.opened]

theorem Attaches.sameDirs {file node : Nat} {flags : UInt32}
    (h : Attaches v v' file node flags) : SameDirs v v' := by
  have hinode : forall j, (v'.inode j).entries = (v.inode j).entries ∧
      (v'.inode j).mode = (v.inode j).mode := by
    intro j
    rw [h.inode]
    split
    · rename_i hj
      rw [hj.left]
      exact ⟨rfl, rfl⟩
    · exact ⟨rfl, rfl⟩
  exact ⟨fun j => (hinode j).left, fun j => (hinode j).right⟩

theorem Attaches.reopens {w : Vfs} {fd node : Nat} {flags : UInt32}
    (hbound : fd < fdMax) (hslot : v.fdTable fd = none)
    (hsame : SameStore (v.opening flags fd) w) (hnode : w.inodes node ≠ none)
    (h : Attaches w v' v.nextId node flags) : Reopens v v' fd node flags where
  bound := hbound
  slot := hslot
  fdTable := h.fdTable.trans hsame.fdTable
  opened := by
    rw [h.opened, hsame.file v.nextId (Nat.lt_succ_self v.nextId),
      (v.opening_new flags fd)]
  others := by
    intro j hj
    have hlt : j < (v.opening flags fd).nextId := Nat.lt_succ_of_lt hj
    rw [h.others j (Nat.ne_of_lt hj), hsame.file j hlt]
    exact (file_setFile v v.nextId j _).trans (if_neg (Nat.ne_of_lt hj))
  store := by
    intro j
    rw [h.inode]
    split
    · rfl
    · exact hsame.store j
  known := fun j hj => h.known j (hsame.known j hj)
  node_known := h.known node hnode
  outside := h.outside.trans hsame.outside

theorem sameStore_release {w : Vfs} {fd : Nat} {flags : UInt32}
    (hslot : v.fdTable fd = none)
    (hsame : SameStore (v.opening flags fd) w) :
    SameStore v (w.release fd v.nextId) where
  store := hsame.store
  known := hsame.known
  file := by
    intro j hj
    have hlt : j < (v.opening flags fd).nextId := Nat.lt_succ_of_lt hj
    exact (hsame.file j hlt).trans
      ((file_setFile v v.nextId j _).trans (if_neg (Nat.ne_of_lt hj)))
  fdTable := by
    show Function.update w.fdTable fd none = v.fdTable
    rw [hsame.fdTable]
    show Function.update (Function.update v.fdTable fd _) fd none = _
    rw [Function.update_idem, Function.update_eq_self_iff, hslot]
  outside := hsame.outside
  nextId := Nat.le_trans (Nat.le_succ _) hsame.nextId

theorem vfsOpen_steps (hi : ObjInv v) (path : CStr) (flags : UInt32)
    (mode : UInt16) :
    ((v.vfsOpen path flags mode).1 = -1 ∧
      SameStore v (v.vfsOpen path flags mode).2) ∨
    exists mnt rest fd node w, v.findMount path = some (mnt, rest) ∧
      fd < fdMax ∧ v.fdTable fd = none ∧
      (v.opening flags fd).findOrCreate mnt rest flags mode =
        (some node, w) ∧
      w.inodes node ≠ none ∧
      (v.vfsOpen path flags mode).1 = (fd : Nat) ∧
      Attaches w (v.vfsOpen path flags mode).2 v.nextId node flags := by
  cases hmount : v.findMount path with
  | none =>
      left
      unfold vfsOpen
      rw [hmount]
      exact ⟨rfl, SameStore.refl v⟩
  | some found =>
      rcases found with ⟨mnt, rest⟩
      by_cases hopen : mnt.fs.openFile = true
      · rw [vfsOpen_eq v flags mode hmount hopen]
        split
        · exact Or.inl ⟨rfl, SameStore.of_eq rfl rfl rfl rfl (Nat.le_refl _)⟩
        split
        · left
          refine ⟨rfl, ?_, fun _ h => h, ?_, rfl, rfl, Nat.le_succ _⟩
          · exact fun _ => rfl
          · intro j hj
            exact (file_setFile v v.nextId j _).trans
              (if_neg (Nat.ne_of_lt hj))
        · rename_i fd hslot
          have hbound := freeSlot_lt hslot
          rw [Nat.zero_add] at hbound
          have hslot := freeSlot_none hslot
          have hopening := hi.opening flags hslot
          have hcreates := findOrCreate_creates hopening
            (findMount_mem hmount) rest flags mode
          have hstore := sameStore_findOrCreate hopening.unknown_next mnt rest
            flags mode
          cases hfound : (v.opening flags fd).findOrCreate mnt rest flags
              mode with
          | mk found w =>
              rw [hfound] at hcreates hstore
              cases found with
              | none =>
                  have hfail : (v.opening flags fd).ramfsFsOpen mnt rest flags
                      mode v.nextId = (-1, w) := by
                    unfold ramfsFsOpen
                    rw [hfound]
                  rw [hfail]
                  dsimp only
                  rw [if_pos (by decide)]
                  exact Or.inl ⟨rfl, sameStore_release hslot hstore⟩
              | some node =>
                  have hnode : w.inodes node ≠ none := by
                    apply (hopening.creates hcreates.left).node_known
                    rw [hcreates.left.mountList]
                    exact (hcreates.right node rfl).imp_left
                      (fun heq => ⟨mnt, findMount_mem hmount, heq⟩)
                  have hattach := ramfsFsOpen_attaches v.nextId hfound hnode
                  dsimp only
                  rw [hattach.left, if_neg (by decide)]
                  exact Or.inr ⟨mnt, rest, fd, node, w, rfl, hbound, hslot,
                    hfound, hnode, rfl, hattach.right⟩
      · left
        unfold vfsOpen
        rw [hmount]
        dsimp only
        rw [if_pos (by simpa using hopen)]
        exact ⟨rfl, SameStore.refl v⟩

/-- An open that fails changes no contents; else there is a new descriptor. -/
theorem vfsOpen_reopens (hi : ObjInv v) (path : CStr) (flags : UInt32)
    (mode : UInt16) :
    ((v.vfsOpen path flags mode).1 = -1 ∧
      SameStore v (v.vfsOpen path flags mode).2) ∨
    exists fd node, (v.vfsOpen path flags mode).1 = (fd : Nat) ∧
      Reopens v (v.vfsOpen path flags mode).2 fd node flags ∧
      (v.pathNode path = some node ∨
        v.pathNode path = none ∧ v.inodes node = none ∧
          flags &&& oCreat ≠ 0) := by
  rcases vfsOpen_steps hi path flags mode with
    hfail | ⟨mnt, rest, fd, node, w, hmount, hbound, hslot, hfound, hnode, hfd,
      hattach⟩
  · exact Or.inl hfail
  · right
    have hnew := (hi.opening flags hslot).unknown_next
    have hstore := sameStore_findOrCreate hnew mnt rest flags mode
    rw [hfound] at hstore
    have hdirs : SameDirs v (v.opening flags fd) :=
      ⟨fun _ => rfl, fun _ => rfl⟩
    have hcases := findOrCreate_node hnew (congrArg Prod.fst hfound)
    rw [resolve_congr hdirs] at hcases
    refine ⟨fd, node, hfd, hattach.reopens hbound hslot hstore hnode, ?_⟩
    unfold pathNode
    rw [hmount]
    exact hcases

end Vfs
end Fs
end EarlnuxOS
