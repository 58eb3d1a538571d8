import Mathlib.Data.List.Nodup
import EarlnuxOS.Fs.Frame

/-!
# Inodes, entries and descriptors

The numbering of objects over a run: numbers are given out once, entries and
descriptors refer to inodes that exist, and an entry refers to an inode that is
younger than its directory and has no other entry.
-/

namespace EarlnuxOS
namespace Fs
namespace Vfs

variable {v v' : Vfs}

def Linked (v : Vfs) (id : Nat) : Prop :=
  exists dir de, de ∈ (v.inode dir).entries ∧ de.inode = id

def Opened (v : Vfs) (id : Nat) : Prop :=
  exists fd file, v.fdTable fd = some file ∧ (v.file file).inode = id

structure ObjInv (v : Vfs) : Prop where
  null : v.inodes 0 = none
  next_pos : 0 < v.nextId
  inode_lt : forall id, v.inodes id ≠ none -> id < v.nextId
  freed_lt : forall id, id ∈ v.freed -> id < v.nextId
  file_lt : forall fd file, v.fdTable fd = some file ->
    file < v.nextId ∧ v.inodes file = none
  opened : forall id, Opened v id -> id = 0 ∨ v.inodes id ≠ none
  child : forall dir de, de ∈ (v.inode dir).entries ->
    v.inodes de.inode ≠ none ∧ dir < de.inode
  once : forall dir dir' de de', de ∈ (v.inode dir).entries ->
    de' ∈ (v.inode dir').entries -> de.inode = de'.inode -> dir = dir'
  distinct : forall dir, ((v.inode dir).entries.map Dirent.inode).Nodup
  root : forall mnt, mnt ∈ v.mountList -> v.inodes mnt.root ≠ none

theorem inode_unknown {id : Nat} (h : v.inodes id = none) :
    v.inode id = Inode.blank := by
  unfold inode
  rw [h]
  rfl

theorem known_of_entry {dir : Nat} {de : Dirent}
    (h : de ∈ (v.inode dir).entries) : v.inodes dir ≠ none := by
  intro hnone
  rw [inode_unknown hnone] at h
  cases h

/-!
# Reading and writing
-/

theorem Keeps.linked (h : Keeps v v') (id : Nat) :
    Linked v' id <-> Linked v id := by
  unfold Linked
  refine exists_congr fun dir => ?_
  rw [h.entries dir]

theorem Keeps.opened (h : Keeps v v') (id : Nat) :
    Opened v' id <-> Opened v id := by
  unfold Opened
  rw [h.fdTable]
  refine exists_congr fun fd => exists_congr fun file => ?_
  rw [h.fileInode file]

theorem Keeps.unknown (h : Keeps v v') (id : Nat) :
    v'.inodes id = none <-> v.inodes id = none := by
  have hknown := h.known id
  tauto

theorem ObjInv.keeps (hi : ObjInv v) (h : Keeps v v') : ObjInv v' where
  null := (h.unknown 0).mpr hi.null
  next_pos := Nat.lt_of_lt_of_le hi.next_pos h.nextId
  inode_lt := fun id hid =>
    Nat.lt_of_lt_of_le (hi.inode_lt id ((h.known id).mp hid)) h.nextId
  freed_lt := by
    intro id hid
    rw [h.freed] at hid
    exact Nat.lt_of_lt_of_le (hi.freed_lt id hid) h.nextId
  file_lt := by
    intro fd file hfd
    rw [h.fdTable] at hfd
    have hfile := hi.file_lt fd file hfd
    exact ⟨Nat.lt_of_lt_of_le hfile.left h.nextId,
      (h.unknown file).mpr hfile.right⟩
  opened := by
    intro id hid
    have hopened := hi.opened id ((h.opened id).mp hid)
    exact hopened.imp_right (h.known id).mpr
  child := by
    intro dir de hde
    rw [h.entries] at hde
    have hchild := hi.child dir de hde
    exact ⟨(h.known _).mpr hchild.left, hchild.right⟩
  once := by
    intro dir dir' de de' hde hde' heq
    rw [h.entries] at hde hde'
    exact hi.once dir dir' de de' hde hde' heq
  distinct := by
    intro dir
    rw [h.entries]
    exact hi.distinct dir
  root := by
    intro mnt hmnt
    rw [h.mountList] at hmnt
    exact (h.known _).mpr (hi.root mnt hmnt)

/-!
# Creating
-/

/-- A new inode, and no entry for it: it is freed again. -/
structure Discards (v v' : Vfs) : Prop where
  known : forall id, v'.inodes id ≠ none <->
    v.inodes id ≠ none ∨ id = v.nextId
  entries : forall id, id ≠ v.nextId ->
    (v'.inode id).entries = (v.inode id).entries
  fresh : (v'.inode v.nextId).entries = []
  files : v'.files = v.files
  fdTable : v'.fdTable = v.fdTable
  mountList : v'.mountList = v.mountList
  freed : v'.freed = v.nextId :: v.freed
  nextId : v.nextId < v'.nextId

/-- A new inode, with an entry in a directory. -/
structure Adds (v v' : Vfs) (dir : Nat) : Prop where
  known : forall id, v'.inodes id ≠ none <->
    v.inodes id ≠ none ∨ id = v.nextId
  entries : forall id, id ≠ dir -> id ≠ v.nextId ->
    (v'.inode id).entries = (v.inode id).entries
  fresh : (v'.inode v.nextId).entries = []
  entry : exists name,
    (v'.inode dir).entries = ⟨name, v.nextId⟩ :: (v.inode dir).entries
  files : v'.files = v.files
  fdTable : v'.fdTable = v.fdTable
  mountList : v'.mountList = v.mountList
  freed : v'.freed = v.freed
  nextId : v.nextId < v'.nextId

theorem known_update {w : Vfs} {id : Nat} {node : Inode}
    (h : w.inodes = Function.update v.inodes id (some node)) (j : Nat) :
    w.inodes j ≠ none <-> v.inodes j ≠ none ∨ j = id := by
  rw [h, Function.update_apply]
  split
  · rename_i hj
    simp [hj]
  · rename_i hj
    simp [hj]

theorem known_modifyInode (v : Vfs) (id j : Nat) (f : Inode -> Inode) :
    (v.modifyInode id f).inodes j ≠ none <-> v.inodes j ≠ none := by
  unfold modifyInode
  dsimp only
  rw [Function.update_apply]
  split
  · rename_i hj
    rw [hj]
    simp
  · rfl

theorem discards_of_eq {n : Inode}
    (hinodes : v'.inodes = Function.update v.inodes v.nextId (some n))
    (hnode : n.entries = []) (hfiles : v'.files = v.files)
    (hfd : v'.fdTable = v.fdTable) (hmount : v'.mountList = v.mountList)
    (hfreed : v'.freed = v.nextId :: v.freed)
    (hnext : v.nextId < v'.nextId) : Discards v v' := by
  constructor
  · exact known_update hinodes
  · intro id hid
    rw [inode_update hinodes, if_neg hid]
  · rw [inode_update hinodes, if_pos rfl]
    exact hnode
  · exact hfiles
  · exact hfd
  · exact hmount
  · exact hfreed
  · exact hnext

theorem adds_created (v : Vfs) {dir : Nat} (name : CStr) (mode : UInt16)
    (hdir : v.inodes dir ≠ none) (hne : dir ≠ v.nextId) :
    Adds v (v.created dir name mode) dir := by
  have hinodes : Vfs.inodes { v.allocated mode with
      calls := v.calls + 3
      nextId := v.nextId + 3 } =
      Function.update v.inodes v.nextId (some (v.newInode mode)) := rfl
  have hknown : (Vfs.inodes { v.allocated mode with
      calls := v.calls + 3
      nextId := v.nextId + 3 } dir).isSome := by
    rw [Option.isSome_iff_ne_none, known_update hinodes]
    exact Or.inl hdir
  unfold created
  constructor
  · intro id
    rw [known_modifyInode, known_update hinodes]
  · intro id hid hnew
    rw [inode_modifyInode, if_neg (fun h => hid h.left),
      inode_update hinodes, if_neg hnew]
  · rw [inode_modifyInode, if_neg (fun h => hne h.left.symm),
      inode_update hinodes, if_pos rfl]
    rfl
  · refine ⟨name.take nameMax, ?_⟩
    rw [inode_modifyInode, if_pos ⟨rfl, hknown⟩, inode_update hinodes,
      if_neg hne]
  · rfl
  · rfl
  · rfl
  · rfl
  · exact Nat.lt_add_of_pos_right (by decide)

theorem ramfsCreate_cases (v : Vfs) {dir : Nat} (name : CStr) (mode : UInt16)
    (hdir : v.inodes dir ≠ none) (hne : dir ≠ v.nextId) :
    (v.ramfsCreate dir name mode).1 = none ∧
        (Keeps v (v.ramfsCreate dir name mode).2 ∨
          Discards v (v.ramfsCreate dir name mode).2) ∨
      (v.ramfsCreate dir name mode).1 = some v.nextId ∧
        Adds v (v.ramfsCreate dir name mode).2 dir := by
  rw [ramfsCreate_eq]
  split
  · exact Or.inl ⟨rfl, Or.inl (Keeps.of_eq rfl (fun _ => rfl) rfl rfl rfl
      (Nat.le_refl v.nextId))⟩
  split
  · exact Or.inl ⟨rfl, Or.inr (discards_of_eq (n := Inode.blank) rfl rfl
      rfl rfl rfl rfl (Nat.lt_succ_self v.nextId))⟩
  split
  · exact Or.inl ⟨rfl, Or.inr (discards_of_eq (n := v.newInode mode) rfl
      rfl rfl rfl rfl rfl (Nat.lt_add_of_pos_right (by decide)))⟩
  · exact Or.inr ⟨rfl, v.adds_created name mode hdir hne⟩

theorem ObjInv.unknown_next (hi : ObjInv v) : v.inodes v.nextId = none := by
  by_contra hknown
  exact Nat.lt_irrefl _ (hi.inode_lt _ hknown)

theorem ObjInv.next_entries (hi : ObjInv v) :
    (v.inode v.nextId).entries = [] := by
  rw [inode_unknown hi.unknown_next]
  rfl

theorem Discards.entries_all (h : Discards v v') (hi : ObjInv v) (id : Nat) :
    (v'.inode id).entries = (v.inode id).entries := by
  by_cases hid : id = v.nextId
  · rw [hid, h.fresh, hi.next_entries]
  · exact h.entries id hid

theorem Discards.linked (h : Discards v v') (hi : ObjInv v) (id : Nat) :
    Linked v' id <-> Linked v id := by
  unfold Linked
  refine exists_congr fun dir => ?_
  rw [h.entries_all hi dir]

theorem opened_congr (hfd : v'.fdTable = v.fdTable)
    (hfiles : v'.files = v.files) (id : Nat) :
    Opened v' id <-> Opened v id := by
  unfold Opened file
  rw [hfd, hfiles]

theorem file_lt_next (hi : ObjInv v)
    (hknown : forall id, v'.inodes id ≠ none <->
      v.inodes id ≠ none ∨ id = v.nextId)
    (hfd : v'.fdTable = v.fdTable) (hnext : v.nextId < v'.nextId)
    {fd file : Nat} (h : v'.fdTable fd = some file) :
    file < v'.nextId ∧ v'.inodes file = none := by
  rw [hfd] at h
  have hfile := hi.file_lt fd file h
  refine ⟨Nat.lt_trans hfile.left hnext, ?_⟩
  by_contra hne
  rcases (hknown file).mp hne with hold | hnew
  · exact hold hfile.right
  · rw [hnew] at hfile
    exact Nat.lt_irrefl _ hfile.left

theorem ObjInv.grow (hi : ObjInv v)
    (hknown : forall id, v'.inodes id ≠ none <->
      v.inodes id ≠ none ∨ id = v.nextId)
    (hentries : forall id, (v'.inode id).entries = (v.inode id).entries)
    (hfiles : v'.files = v.files) (hfd : v'.fdTable = v.fdTable)
    (hroot : forall mnt, mnt ∈ v'.mountList ->
      mnt ∈ v.mountList ∨ mnt.root = v.nextId)
    (hfreed : forall id, id ∈ v'.freed -> id ∈ v.freed ∨ id = v.nextId)
    (hnext : v.nextId < v'.nextId) : ObjInv v' where
  null := by
    by_contra hne
    rcases (hknown 0).mp hne with hold | hnew
    · exact hold hi.null
    · have hpos := hi.next_pos
      omega
  next_pos := Nat.lt_trans hi.next_pos hnext
  inode_lt := by
    intro id hid
    rcases (hknown id).mp hid with hold | hnew
    · exact Nat.lt_trans (hi.inode_lt id hold) hnext
    · rw [hnew]
      exact hnext
  freed_lt := by
    intro id hid
    rcases hfreed id hid with hid | hid
    · exact Nat.lt_trans (hi.freed_lt id hid) hnext
    · rw [hid]
      exact hnext
  file_lt := fun _ _ h => file_lt_next hi hknown hfd hnext h
  opened := by
    intro id hid
    rw [opened_congr hfd hfiles] at hid
    exact (hi.opened id hid).imp_right
      (fun hold => (hknown id).mpr (Or.inl hold))
  child := by
    intro dir de hde
    rw [hentries] at hde
    have hchild := hi.child dir de hde
    exact ⟨(hknown _).mpr (Or.inl hchild.left), hchild.right⟩
  once := by
    intro dir dir' de de' hde hde' heq
    rw [hentries] at hde hde'
    exact hi.once dir dir' de de' hde hde' heq
  distinct := by
    intro dir
    rw [hentries]
    exact hi.distinct dir
  root := by
    intro mnt hmnt
    rcases hroot mnt hmnt with hold | hnew
    · exact (hknown _).mpr (Or.inl (hi.root mnt hold))
    · exact (hknown _).mpr (Or.inr hnew)

theorem ObjInv.discards (hi : ObjInv v) (h : Discards v v') : ObjInv v' := by
  refine hi.grow h.known (h.entries_all hi) h.files h.fdTable ?_ ?_ h.nextId
  · intro mnt hmnt
    rw [h.mountList] at hmnt
    exact Or.inl hmnt
  · intro id hid
    rw [h.freed] at hid
    exact (List.mem_cons.mp hid).symm

theorem Adds.mem {dir : Nat} (h : Adds v v' dir) {d : Nat} {de : Dirent}
    (hde : de ∈ (v'.inode d).entries) :
    d = dir ∧ de.inode = v.nextId ∨ de ∈ (v.inode d).entries := by
  by_cases hd : d = dir
  · rcases h.entry with ⟨name, hentry⟩
    rw [hd, hentry] at hde
    rcases List.mem_cons.mp hde with hde | hde
    · rw [hde]
      exact Or.inl ⟨hd, rfl⟩
    · rw [hd]
      exact Or.inr hde
  · by_cases hnew : d = v.nextId
    · rw [hnew, h.fresh] at hde
      cases hde
    · rw [h.entries d hd hnew] at hde
      exact Or.inr hde

theorem Adds.keeps_mem {dir : Nat} (h : Adds v v' dir) (hi : ObjInv v)
    {d : Nat} {de : Dirent} (hde : de ∈ (v.inode d).entries) :
    de ∈ (v'.inode d).entries := by
  rcases h.entry with ⟨name, hentry⟩
  by_cases hd : d = dir
  · rw [hd] at hde
    rw [hd, hentry]
    exact List.mem_cons_of_mem _ hde
  · rw [h.entries d hd]
    · exact hde
    · intro hnew
      rw [hnew, hi.next_entries] at hde
      cases hde

theorem Adds.linked {dir : Nat} (h : Adds v v' dir) (hi : ObjInv v)
    (id : Nat) :
    Linked v' id <-> Linked v id ∨ id = v.nextId := by
  rcases h.entry with ⟨name, hentry⟩
  constructor
  · intro hlinked
    rcases hlinked with ⟨d, de, hde, hid⟩
    rcases h.mem hde with hnew | hold
    · exact Or.inr (hid.symm.trans hnew.right)
    · exact Or.inl ⟨d, de, hold, hid⟩
  · intro hlinked
    rcases hlinked with ⟨d, de, hde, hid⟩ | hid
    · exact ⟨d, de, h.keeps_mem hi hde, hid⟩
    · refine ⟨dir, ⟨name, v.nextId⟩, ?_, hid.symm⟩
      rw [hentry]
      exact List.mem_cons_self

theorem ObjInv.adds (hi : ObjInv v) {dir : Nat} (h : Adds v v' dir)
    (hdir : dir < v.nextId) : ObjInv v' where
  null := by
    by_contra hne
    rcases (h.known 0).mp hne with hold | hnew
    · exact hold hi.null
    · have hpos := hi.next_pos
      omega
  next_pos := Nat.lt_trans hi.next_pos h.nextId
  inode_lt := by
    intro id hid
    rcases (h.known id).mp hid with hold | hnew
    · exact Nat.lt_trans (hi.inode_lt id hold) h.nextId
    · rw [hnew]
      exact h.nextId
  freed_lt := by
    intro id hid
    rw [h.freed] at hid
    exact Nat.lt_trans (hi.freed_lt id hid) h.nextId
  file_lt := fun _ _ hfd => file_lt_next hi h.known h.fdTable h.nextId hfd
  opened := by
    intro id hid
    rw [opened_congr h.fdTable h.files] at hid
    exact (hi.opened id hid).imp_right
      (fun hold => (h.known id).mpr (Or.inl hold))
  child := by
    intro d de hde
    rcases h.mem hde with hnew | hold
    · rw [hnew.left, hnew.right]
      exact ⟨(h.known _).mpr (Or.inr rfl), hdir⟩
    · have hchild := hi.child d de hold
      exact ⟨(h.known _).mpr (Or.inl hchild.left), hchild.right⟩
  once := by
    intro d d' de de' hde hde' heq
    have hfresh : forall c e, e ∈ (v.inode c).entries ->
        e.inode ≠ v.nextId := by
      intro c e he hnext
      have hlt := hi.inode_lt _ (hi.child c e he).left
      omega
    rcases h.mem hde with hnew | hold
    · rcases h.mem hde' with hnew' | hold'
      · exact hnew.left.trans hnew'.left.symm
      · exact absurd (heq.symm.trans hnew.right) (hfresh d' de' hold')
    · rcases h.mem hde' with hnew' | hold'
      · exact absurd (heq.trans hnew'.right) (hfresh d de hold)
      · exact hi.once d d' de de' hold hold' heq
  distinct := by
    intro d
    by_cases hd : d = dir
    · rcases h.entry with ⟨name, hentry⟩
      rw [hd, hentry, List.map_cons, List.nodup_cons]
      refine ⟨?_, hi.distinct dir⟩
      intro hmem
      rcases List.mem_map.mp hmem with ⟨de, hde, hnext⟩
      have hlt := hi.inode_lt _ (hi.child dir de hde).left
      dsimp only at hnext
      omega
    · by_cases hnew : d = v.nextId
      · rw [hnew, h.fresh]
        exact List.nodup_nil
      · rw [h.entries d hd hnew]
        exact hi.distinct d
  root := by
    intro mnt hmnt
    rw [h.mountList] at hmnt
    exact (h.known _).mpr (Or.inl (hi.root mnt hmnt))

/-!
# Unlinking
-/

/-- An entry is gone, and its inode is freed or not. -/
structure Removes (v v' : Vfs) (dir : Nat) (victim : Dirent) : Prop where
  known : forall id, v'.inodes id ≠ none <-> v.inodes id ≠ none
  entries : forall id, id ≠ dir ->
    (v'.inode id).entries = (v.inode id).entries
  split : exists before after,
    (v.inode dir).entries = before ++ victim :: after ∧
      (v'.inode dir).entries = before ++ after
  files : v'.files = v.files
  fdTable : v'.fdTable = v.fdTable
  mountList : v'.mountList = v.mountList
  nextId : v'.nextId = v.nextId
  freed : v'.freed =
    if (v.inode victim.inode).nlinks = 1 ∧
        (v.inode victim.inode).refCount ≤ 1 then
      victim.inode :: v.freed
    else v.freed

theorem find?_eraseP {alpha : Type} {p : alpha -> Bool} {l : List alpha}
    {x : alpha} (h : l.find? p = some x) :
    exists before after, l = before ++ x :: after ∧
      l.eraseP p = before ++ after := by
  induction l with
  | nil => cases h
  | cons y l ih =>
      by_cases hy : p y = true
      · rw [List.find?_cons_of_pos hy] at h
        cases h
        exact ⟨[], l, rfl, List.eraseP_cons_of_pos hy⟩
      · rw [List.find?_cons_of_neg hy] at h
        rcases ih h with ⟨before, after, hl, herase⟩
        refine ⟨y :: before, after, ?_, ?_⟩
        · rw [hl]
          rfl
        · rw [List.eraseP_cons_of_neg hy, herase]
          rfl

theorem sub_one_eq_zero {n : UInt32} : n - 1 = 0 <-> n = 1 := by
  constructor
  · intro h
    have hsum : n - 1 + 1 = 0 + 1 := by rw [h]
    simpa using hsum
  · intro h
    rw [h]
    rfl

theorem ramfsUnlink_cases (hi : ObjInv v) (dir : Nat) (name : CStr) :
    match (v.inode dir).entries.find?
        (fun de => strncmpEq de.name name nameMax) with
    | none => v.ramfsUnlink dir name = (-1, v)
    | some victim => (v.ramfsUnlink dir name).1 = 0 ∧
        Removes v (v.ramfsUnlink dir name).2 dir victim := by
  split
  · rename_i hfind
    unfold ramfsUnlink
    rw [hfind]
  · rename_i victim hfind
    have hmem : victim ∈ (v.inode dir).entries := List.mem_of_find?_eq_some hfind
    have hchild := hi.child dir victim hmem
    have hne : victim.inode ≠ dir := Nat.ne_of_gt hchild.right
    have hdir : (v.inodes dir).isSome :=
      Option.isSome_iff_ne_none.mpr (known_of_entry hmem)
    rcases find?_eraseP hfind with ⟨before, after, hsplit, herase⟩
    unfold ramfsUnlink
    rw [hfind]
    dsimp only
    generalize hfirst : v.modifyInode dir _ = v1
    have hfirstEntries : forall id, (v1.inode id).entries =
        if id = dir then before ++ after else (v.inode id).entries := by
      intro id
      rw [← hfirst, inode_modifyInode]
      by_cases hid : id = dir
      · rw [if_pos ⟨hid, hdir⟩, if_pos hid]
        exact herase
      · rw [if_neg (fun h => hid h.left), if_neg hid]
    have hfirstKnown : forall id, v1.inodes id ≠ none <->
        v.inodes id ≠ none := by
      intro id
      rw [← hfirst, known_modifyInode]
    have hfirstVictim : v1.inode victim.inode = v.inode victim.inode := by
      rw [← hfirst, inode_modifyInode, if_neg (fun h => hne h.left)]
    have hfirstRest : v1.files = v.files ∧ v1.fdTable = v.fdTable ∧
        v1.mountList = v.mountList ∧ v1.nextId = v.nextId ∧
        v1.freed = v.freed := by
      rw [← hfirst]
      exact ⟨rfl, rfl, rfl, rfl, rfl⟩
    have hvictim : (v1.dropLink victim.inode).inode victim.inode =
        { v.inode victim.inode with
          nlinks := (v.inode victim.inode).nlinks - 1 } := by
      unfold dropLink
      rw [inode_modifyInode, if_pos ⟨rfl, Option.isSome_iff_ne_none.mpr
        ((hfirstKnown _).mpr hchild.left)⟩, hfirstVictim]
    generalize hfreed :
      (if ((v1.dropLink victim.inode).inode victim.inode).nlinks = 0 ∧
          ((v1.dropLink victim.inode).inode victim.inode).refCount ≤ 1 then
        (v1.dropLink victim.inode).kfree victim.inode
      else v1.dropLink victim.inode) = v2
    have hkeep : v2.inodes = (v1.dropLink victim.inode).inodes ∧
        v2.files = v1.files ∧ v2.fdTable = v1.fdTable ∧
        v2.mountList = v1.mountList ∧ v2.nextId = v1.nextId := by
      rw [← hfreed]
      split <;> exact ⟨rfl, rfl, rfl, rfl, rfl⟩
    have hentries : forall id, ((v2.dropLink dir).inode id).entries =
        if id = dir then before ++ after else (v.inode id).entries := by
      intro id
      rw [entries_dropLink, ← hfirstEntries id,
        ← entries_dropLink v1 victim.inode id]
      unfold inode
      rw [hkeep.left]
    refine ⟨rfl, ?_⟩
    constructor
    · intro id
      unfold dropLink at hkeep ⊢
      rw [known_modifyInode, hkeep.left, known_modifyInode, hfirstKnown]
    · intro id hid
      exact (hentries id).trans (if_neg hid)
    · exact ⟨before, after, hsplit, (hentries dir).trans (if_pos rfl)⟩
    · exact hkeep.right.left.trans hfirstRest.left
    · exact hkeep.right.right.left.trans hfirstRest.right.left
    · exact hkeep.right.right.right.left.trans hfirstRest.right.right.left
    · exact hkeep.right.right.right.right.trans
        hfirstRest.right.right.right.left
    · show v2.freed = _
      rw [hvictim] at hfreed
      dsimp only at hfreed
      rw [← hfreed]
      by_cases hcond : (v.inode victim.inode).nlinks = 1 ∧
          (v.inode victim.inode).refCount ≤ 1
      · rw [if_pos hcond, if_pos ⟨sub_one_eq_zero.mpr hcond.left, hcond.right⟩]
        show victim.inode :: v1.freed = _
        rw [hfirstRest.right.right.right.right]
      · rw [if_neg hcond, if_neg (fun h =>
          hcond ⟨sub_one_eq_zero.mp h.left, h.right⟩)]
        exact hfirstRest.right.right.right.right

theorem Removes.mem {dir : Nat} {victim : Dirent}
    (h : Removes v v' dir victim) (hi : ObjInv v) {d : Nat} {de : Dirent} :
    de ∈ (v'.inode d).entries <->
      de ∈ (v.inode d).entries ∧ de.inode ≠ victim.inode := by
  rcases h.split with ⟨before, after, hold, hnew⟩
  have hvictim : victim ∈ (v.inode dir).entries := by
    rw [hold]
    simp
  by_cases hd : d = dir
  · have hdistinct := hi.distinct dir
    rw [hold, List.map_append, List.map_cons, List.nodup_append,
      List.nodup_cons] at hdistinct
    rw [hd, hnew, hold, List.mem_append, List.mem_append, List.mem_cons]
    constructor
    · intro hmem
      rcases hmem with hmem | hmem
      · refine ⟨Or.inl hmem, ?_⟩
        exact hdistinct.right.right _ (List.mem_map_of_mem hmem) _
          List.mem_cons_self
      · refine ⟨Or.inr (Or.inr hmem), ?_⟩
        intro heq
        rw [← heq] at hdistinct
        exact hdistinct.right.left.left (List.mem_map_of_mem hmem)
    · intro hmem
      rcases hmem with ⟨hmem | heq | hmem, hne⟩
      · exact Or.inl hmem
      · rw [heq] at hne
        exact absurd rfl hne
      · exact Or.inr hmem
  · rw [h.entries d hd]
    constructor
    · intro hmem
      refine ⟨hmem, ?_⟩
      intro heq
      exact hd (hi.once d dir de victim hmem hvictim heq)
    · exact And.left

theorem Removes.linked {dir : Nat} {victim : Dirent}
    (h : Removes v v' dir victim) (hi : ObjInv v) (id : Nat) :
    Linked v' id <-> Linked v id ∧ id ≠ victim.inode := by
  constructor
  · intro hlinked
    rcases hlinked with ⟨d, de, hde, hid⟩
    have hmem := (h.mem hi).mp hde
    refine ⟨⟨d, de, hmem.left, hid⟩, ?_⟩
    rw [← hid]
    exact hmem.right
  · intro hlinked
    rcases hlinked with ⟨⟨d, de, hde, hid⟩, hne⟩
    refine ⟨d, de, (h.mem hi).mpr ⟨hde, ?_⟩, hid⟩
    rw [hid]
    exact hne

theorem ObjInv.removes (hi : ObjInv v) {dir : Nat} {victim : Dirent}
    (h : Removes v v' dir victim) : ObjInv v' where
  null := by
    by_contra hne
    exact (h.known 0).mp hne hi.null
  next_pos := by
    rw [h.nextId]
    exact hi.next_pos
  inode_lt := by
    intro id hid
    rw [h.nextId]
    exact hi.inode_lt id ((h.known id).mp hid)
  freed_lt := by
    intro id hid
    rw [h.nextId]
    rw [h.freed] at hid
    split at hid
    · rcases List.mem_cons.mp hid with hid | hid
      · rcases h.split with ⟨before, after, hold, _⟩
        have hchild := hi.child dir victim (by rw [hold]; simp)
        rw [hid]
        exact hi.inode_lt _ hchild.left
      · exact hi.freed_lt id hid
    · exact hi.freed_lt id hid
  file_lt := by
    intro fd file hfd
    rw [h.fdTable] at hfd
    have hfile := hi.file_lt fd file hfd
    rw [h.nextId]
    refine ⟨hfile.left, ?_⟩
    by_contra hne
    exact (h.known file).mp hne hfile.right
  opened := by
    intro id hid
    rw [opened_congr h.fdTable h.files] at hid
    exact (hi.opened id hid).imp_right (h.known id).mpr
  child := by
    intro d de hde
    have hchild := hi.child d de ((h.mem hi).mp hde).left
    exact ⟨(h.known _).mpr hchild.left, hchild.right⟩
  once := by
    intro d d' de de' hde hde' heq
    exact hi.once d d' de de' ((h.mem hi).mp hde).left
      ((h.mem hi).mp hde').left heq
  distinct := by
    intro d
    by_cases hd : d = dir
    · rcases h.split with ⟨before, after, hold, hnew⟩
      have hdistinct := hi.distinct dir
      rw [hold] at hdistinct
      rw [hd, hnew]
      refine List.Nodup.sublist (List.Sublist.map _ ?_) hdistinct
      exact List.Sublist.append_left (List.sublist_cons_self victim after)
        before
    · rw [h.entries d hd]
      exact hi.distinct d
  root := by
    intro mnt hmnt
    rw [h.mountList] at hmnt
    exact (h.known _).mpr (hi.root mnt hmnt)

/-!
# Files and descriptors
-/

/-- The inodes are the same; what is freed and what files refer to may differ. -/
theorem ObjInv.sameInodes (hi : ObjInv v) (hinodes : v'.inodes = v.inodes)
    (hmount : v'.mountList = v.mountList) (hnext : v.nextId ≤ v'.nextId)
    (hfreed : forall id, id ∈ v'.freed -> id < v'.nextId)
    (hfile : forall fd file, v'.fdTable fd = some file ->
      file < v'.nextId ∧ v.inodes file = none)
    (hopened : forall id, Opened v' id -> id = 0 ∨ v.inodes id ≠ none) :
    ObjInv v' := by
  have hinode : forall id, v'.inode id = v.inode id := by
    intro id
    unfold inode
    rw [hinodes]
  constructor
  · rw [hinodes]
    exact hi.null
  · exact Nat.lt_of_lt_of_le hi.next_pos hnext
  · intro id hid
    rw [hinodes] at hid
    exact Nat.lt_of_lt_of_le (hi.inode_lt id hid) hnext
  · exact hfreed
  · intro fd file hfd
    rw [hinodes]
    exact hfile fd file hfd
  · intro id hid
    rw [hinodes]
    exact hopened id hid
  · intro dir de hde
    rw [hinode] at hde
    rw [hinodes]
    exact hi.child dir de hde
  · intro dir dir' de de' hde hde'
    rw [hinode] at hde hde'
    exact hi.once dir dir' de de' hde hde'
  · intro dir
    rw [hinode]
    exact hi.distinct dir
  · intro mnt hmnt
    rw [hmount] at hmnt
    rw [hinodes]
    exact hi.root mnt hmnt

/-!
# Where a path can end
-/

def IsRoot (v : Vfs) (id : Nat) : Prop :=
  exists mnt, mnt ∈ v.mountList ∧ mnt.root = id

def Attached (v : Vfs) (id : Nat) : Prop :=
  IsRoot v id ∨ Linked v id

theorem isRoot_congr (h : v'.mountList = v.mountList) (id : Nat) :
    IsRoot v' id <-> IsRoot v id := by
  unfold IsRoot
  rw [h]

theorem attached_congr (hmount : v'.mountList = v.mountList)
    (hlinked : forall id, Linked v' id <-> Linked v id) (id : Nat) :
    Attached v' id <-> Attached v id := by
  unfold Attached
  rw [isRoot_congr hmount, hlinked]

theorem ObjInv.linked_known (hi : ObjInv v) {id : Nat} (h : Linked v id) :
    v.inodes id ≠ none := by
  rcases h with ⟨dir, de, hde, hid⟩
  rw [← hid]
  exact (hi.child dir de hde).left

theorem ObjInv.attached_known (hi : ObjInv v) {id : Nat}
    (h : Attached v id) : v.inodes id ≠ none := by
  rcases h with ⟨mnt, hmnt, hroot⟩ | hlinked
  · rw [← hroot]
    exact hi.root mnt hmnt
  · exact hi.linked_known hlinked

end Vfs
end Fs
end EarlnuxOS
