import EarlnuxOS.Fs.Creation
import EarlnuxOS.Fs.Resolve

/-!
# What reading and writing leave alone

Calls that neither add nor remove an entry or a descriptor: they may change
file contents, positions and reference counts.
-/

namespace EarlnuxOS
namespace Fs
namespace Vfs

variable {v v' : Vfs}

structure Keeps (v v' : Vfs) : Prop where
  known : forall id, v'.inodes id ≠ none <-> v.inodes id ≠ none
  entries : forall id, (v'.inode id).entries = (v.inode id).entries
  mode : forall id, (v'.inode id).mode = (v.inode id).mode
  nlinks : forall id, (v'.inode id).nlinks = (v.inode id).nlinks
  fileInode : forall id, (v'.file id).inode = (v.file id).inode
  fdTable : v'.fdTable = v.fdTable
  mountList : v'.mountList = v.mountList
  freed : v'.freed = v.freed
  nextId : v.nextId ≤ v'.nextId

theorem Keeps.refl (v : Vfs) : Keeps v v :=
  ⟨fun _ => Iff.rfl, fun _ => rfl, fun _ => rfl, fun _ => rfl, fun _ => rfl,
    rfl, rfl, rfl, Nat.le_refl _⟩

theorem Keeps.trans {w : Vfs} (h : Keeps v v') (h' : Keeps v' w) :
    Keeps v w where
  known := fun id => (h'.known id).trans (h.known id)
  entries := fun id => (h'.entries id).trans (h.entries id)
  mode := fun id => (h'.mode id).trans (h.mode id)
  nlinks := fun id => (h'.nlinks id).trans (h.nlinks id)
  fileInode := fun id => (h'.fileInode id).trans (h.fileInode id)
  fdTable := h'.fdTable.trans h.fdTable
  mountList := h'.mountList.trans h.mountList
  freed := h'.freed.trans h.freed
  nextId := Nat.le_trans h.nextId h'.nextId

theorem Keeps.sameDirs (h : Keeps v v') : SameDirs v v' :=
  ⟨h.entries, h.mode⟩

/-- Only the inodes matter here, and the allocator's own variables. -/
theorem Keeps.of_eq (hinodes : v'.inodes = v.inodes)
    (hfiles : forall id, (v'.file id).inode = (v.file id).inode)
    (hfd : v'.fdTable = v.fdTable) (hmount : v'.mountList = v.mountList)
    (hfreed : v'.freed = v.freed) (hnext : v.nextId ≤ v'.nextId) :
    Keeps v v' := by
  have hinode : v'.inode = v.inode := by
    funext id
    unfold inode
    rw [hinodes]
  constructor
  · intro id
    rw [hinodes]
  · intro id
    rw [hinode]
  · intro id
    rw [hinode]
  · intro id
    rw [hinode]
  · exact hfiles
  · exact hfd
  · exact hmount
  · exact hfreed
  · exact hnext

theorem keeps_noRefs (h : v'.noRefs = v.noRefs) : Keeps v v' where
  known := by
    intro id
    have hmap : forall v : Vfs, v.noRefs.inodes id ≠ none <->
        v.inodes id ≠ none := by
      intro v
      unfold noRefs
      simp
    rw [← hmap v', h, hmap]
  entries := entries_congr h
  mode := mode_congr h
  nlinks := by
    intro id
    apply field_congr (fun v => (v.inode id).nlinks) _ h
    intro v
    unfold inode noRefs
    dsimp only
    cases v.inodes id <;> rfl
  fileInode := fun id =>
    field_congr (fun v => (v.file id).inode) (fun _ => rfl) h
  fdTable := field_congr Vfs.fdTable (fun _ => rfl) h
  mountList := field_congr Vfs.mountList (fun _ => rfl) h
  freed := field_congr Vfs.freed (fun _ => rfl) h
  nextId := Nat.le_of_eq (field_congr Vfs.nextId (fun _ => rfl) h).symm

theorem keeps_modifyInode (v : Vfs) (id : Nat) {f : Inode -> Inode}
    (hf : forall node, (f node).entries = node.entries ∧
      (f node).mode = node.mode ∧ (f node).nlinks = node.nlinks) :
    Keeps v (v.modifyInode id f) := by
  have hinode : forall j, ((v.modifyInode id f).inode j).entries =
        (v.inode j).entries ∧
      ((v.modifyInode id f).inode j).mode = (v.inode j).mode ∧
      ((v.modifyInode id f).inode j).nlinks = (v.inode j).nlinks := by
    intro j
    rw [inode_modifyInode]
    split
    · rename_i hj
      rw [hj.left]
      exact hf _
    · exact ⟨rfl, rfl, rfl⟩
  constructor
  · intro j
    unfold modifyInode
    dsimp only
    rw [Function.update_apply]
    split
    · rename_i hj
      rw [hj]
      simp
    · rfl
  · exact fun j => (hinode j).left
  · exact fun j => (hinode j).right.left
  · exact fun j => (hinode j).right.right
  · exact fun _ => rfl
  · rfl
  · rfl
  · rfl
  · exact Nat.le_refl _

theorem keeps_kmalloc (v : Vfs) : Keeps v v.kmalloc.2 := by
  unfold kmalloc
  split
  · exact Keeps.of_eq rfl (fun _ => rfl) rfl rfl rfl (Nat.le_refl _)
  · exact Keeps.of_eq rfl (fun _ => rfl) rfl rfl rfl (Nat.le_succ _)

theorem keeps_touch (v : Vfs) (data : Buffer) (pos n : Nat) :
    Keeps v (v.touch data pos n) :=
  Keeps.of_eq rfl (fun _ => rfl) rfl rfl rfl (Nat.le_refl _)

theorem keeps_setFile (v : Vfs) (id : Nat) {f : File}
    (hf : f.inode = (v.file id).inode) : Keeps v (v.setFile id f) := by
  have hfile : forall j, ((v.setFile id f).file j).inode =
      (v.file j).inode := by
    intro j
    unfold file setFile
    dsimp only
    rw [Function.update_apply]
    split
    · rename_i hj
      rw [hj]
      exact hf
    · rfl
  exact Keeps.of_eq rfl hfile rfl rfl rfl (Nat.le_refl v.nextId)

theorem keeps_setData (v : Vfs) (id : Nat) (data : Buffer)
    (capacity : UInt64) : Keeps v (v.setData id data capacity) :=
  v.keeps_modifyInode id (fun _ => ⟨rfl, rfl, rfl⟩)

theorem keeps_replaceData (v : Vfs) (id : Nat) (newCap : UInt64)
    (copy : Nat) : Keeps v (v.replaceData id newCap copy).2 := by
  have hmalloc := v.keeps_kmalloc
  unfold replaceData
  split
  · rename_i hk
    rw [hk] at hmalloc
    exact hmalloc
  · rename_i hk
    rw [hk] at hmalloc
    dsimp only
    split
    · exact hmalloc.trans (keeps_setData _ id _ _)
    · exact hmalloc.trans ((keeps_touch _ _ 0 copy).trans
        ((keeps_touch _ _ 0 copy).trans (keeps_setData _ id _ _)))

theorem keeps_truncate (v : Vfs) (id : Nat) (size : UInt64) :
    Keeps v (v.ramfsTruncate id size).2 := by
  unfold ramfsTruncate
  split
  · exact v.keeps_modifyInode id (fun _ => ⟨rfl, rfl, rfl⟩)
  · dsimp only
    have hreplace := v.keeps_replaceData id size
      (if (v.inode id).size < size then (v.inode id).size
        else size).toUInt32.toNat
    split
    · rename_i hr
      rw [hr] at hreplace
      exact hreplace
    · rename_i hr
      rw [hr] at hreplace
      exact hreplace.trans
        (keeps_modifyInode _ id (fun _ => ⟨rfl, rfl, rfl⟩))

theorem keeps_growData (v : Vfs) (id : Nat) (newEnd : UInt64) :
    Keeps v (v.growData id newEnd).2 := by
  unfold growData
  dsimp only
  split
  · exact v.keeps_replaceData id _ _
  · exact Keeps.refl v

theorem keeps_read (v : Vfs) (fd : Int) (len : UInt32) :
    Keeps v (v.vfsRead fd len).2.2 := by
  unfold vfsRead ramfsFileRead
  split
  · exact Keeps.refl v
  split
  · dsimp only
    split
    · exact Keeps.refl v
    split
    · exact Keeps.refl v
    · exact (keeps_touch v _ _ _).trans (keeps_setFile _ _ rfl)
  · exact Keeps.refl v

theorem keeps_write (v : Vfs) (fd : Int) (buf : CStr) :
    Keeps v (v.vfsWrite fd buf).2 := by
  unfold vfsWrite
  split
  · exact Keeps.refl v
  split
  · rename_i file _ _
    unfold ramfsFileWrite
    dsimp only
    have hgrow := v.keeps_growData (v.file file).inode
      ((v.file file).pos + (UInt32.ofNat buf.length).toUInt64)
    split
    · rename_i hg
      rw [hg] at hgrow
      exact hgrow
    · rename_i w hg
      rw [hg] at hgrow
      have hput := hgrow.trans ((keeps_touch w
        ((w.inode (v.file file).inode).data.getD (Buffer.zeroed 0))
        (v.file file).pos.toNat buf.length).trans
          (keeps_setFile _ file (f := { v.file file with
            pos := (v.file file).pos +
              (UInt32.ofNat buf.length).toUInt64 })
            (hgrow.fileInode file).symm))
      exact hput.trans (keeps_modifyInode _ _ (fun _ => ⟨rfl, rfl, rfl⟩))
  · exact Keeps.refl v

theorem keeps_seek (v : Vfs) (fd : Int) (offset : Int64) (whence : Int) :
    Keeps v (v.vfsSeek fd offset whence).2 := by
  unfold vfsSeek
  split
  · exact Keeps.refl v
  · dsimp only
    split
    · exact keeps_setFile v _ rfl
    split
    · exact keeps_setFile v _ rfl
    split
    · exact Keeps.refl v
    · exact Keeps.refl v

end Vfs
end Fs
end EarlnuxOS
