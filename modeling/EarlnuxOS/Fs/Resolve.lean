import EarlnuxOS.Fs.Vfs

/-!
# Path resolution

Resolving a path changes nothing but reference counts, and does not look at
them.  States are therefore compared without them.
-/

namespace EarlnuxOS
namespace Fs

def Inode.noRefs (node : Inode) : Inode := { node with refCount := 0 }

namespace Vfs

variable {v v' : Vfs}

def noRefs (v : Vfs) : Vfs :=
  { v with inodes := fun id => (v.inodes id).map Inode.noRefs }

@[simp] theorem entries_noRefs (v : Vfs) (id : Nat) :
    (v.noRefs.inode id).entries = (v.inode id).entries := by
  unfold inode noRefs
  dsimp only
  cases v.inodes id <;> rfl

@[simp] theorem mode_noRefs (v : Vfs) (id : Nat) :
    (v.noRefs.inode id).mode = (v.inode id).mode := by
  unfold inode noRefs
  dsimp only
  cases v.inodes id <;> rfl

/-- What is the same without the counts is the same for states that are. -/
theorem field_congr {alpha : Type} (f : Vfs -> alpha)
    (hf : forall v, f v.noRefs = f v) (h : v'.noRefs = v.noRefs) :
    f v' = f v := by
  rw [← hf v', h, hf]

theorem entries_congr (h : v'.noRefs = v.noRefs) (id : Nat) :
    (v'.inode id).entries = (v.inode id).entries :=
  field_congr (fun v => (v.inode id).entries)
    (fun v => v.entries_noRefs id) h

theorem mode_congr (h : v'.noRefs = v.noRefs) (id : Nat) :
    (v'.inode id).mode = (v.inode id).mode :=
  field_congr (fun v => (v.inode id).mode) (fun v => v.mode_noRefs id) h

/-- The same entries and modes are all that a resolution looks at. -/
structure SameDirs (v v' : Vfs) : Prop where
  entries : forall id, (v'.inode id).entries = (v.inode id).entries
  mode : forall id, (v'.inode id).mode = (v.inode id).mode

theorem SameDirs.symm (h : SameDirs v v') : SameDirs v' v where
  entries := fun id => (h.entries id).symm
  mode := fun id => (h.mode id).symm

theorem SameDirs.trans {w : Vfs} (h : SameDirs v v') (h' : SameDirs v' w) :
    SameDirs v w where
  entries := fun id => (h'.entries id).trans (h.entries id)
  mode := fun id => (h'.mode id).trans (h.mode id)

theorem sameDirs_noRefs (h : v'.noRefs = v.noRefs) : SameDirs v v' where
  entries := entries_congr h
  mode := mode_congr h

theorem noRefs_modifyInode (v : Vfs) (id : Nat) {f : Inode -> Inode}
    (hf : forall node, (f node).noRefs = node.noRefs) :
    (v.modifyInode id f).noRefs = v.noRefs := by
  unfold noRefs modifyInode
  dsimp only
  congr 1
  funext j
  rw [Function.update_apply]
  split
  · rename_i hj
    rw [hj, Option.map_map]
    exact congrArg (fun g => (v.inodes id).map g) (funext hf)
  · rfl

theorem noRefs_ramfsLookup (v : Vfs) (dir : Nat) (name : CStr) :
    (v.ramfsLookup dir name).2.noRefs = v.noRefs := by
  unfold ramfsLookup
  split
  · rfl
  · exact v.noRefs_modifyInode _ (fun _ => rfl)

theorem ramfsLookup_congr (h : SameDirs v v') (dir : Nat) (name : CStr) :
    (v'.ramfsLookup dir name).1 = (v.ramfsLookup dir name).1 := by
  unfold ramfsLookup
  rw [h.entries]
  split <;> rfl

theorem noRefs_walk (v : Vfs) (curr : Nat) (bufs : List CStr) :
    (v.walk curr bufs).2.noRefs = v.noRefs := by
  induction bufs generalizing v curr with
  | nil => rfl
  | cons buf rest ih =>
      unfold walk
      split
      · exact ih v curr
      split
      · exact ih v curr
      split
      · rfl
      · have hlookup := v.noRefs_ramfsLookup curr buf
        cases hl : v.ramfsLookup curr buf with
        | mk next w =>
            rw [hl] at hlookup
            cases next with
            | none => exact hlookup
            | some next => exact (ih w next).trans hlookup

theorem walk_congr (h : SameDirs v v') (curr : Nat) (bufs : List CStr) :
    (v'.walk curr bufs).1 = (v.walk curr bufs).1 := by
  induction bufs generalizing v v' curr with
  | nil => rfl
  | cons buf rest ih =>
      unfold walk
      split
      · exact ih h curr
      split
      · exact ih h curr
      rw [h.mode]
      split
      · rfl
      · have hfst := ramfsLookup_congr h curr buf
        have hsnd :=
          ((sameDirs_noRefs (v.noRefs_ramfsLookup curr buf)).symm.trans
            h).trans (sameDirs_noRefs (v'.noRefs_ramfsLookup curr buf))
        cases hl : v.ramfsLookup curr buf with
        | mk next w =>
            cases hl' : v'.ramfsLookup curr buf with
            | mk next' w' =>
                rw [hl, hl'] at hfst hsnd
                cases hfst
                cases next with
                | none => rfl
                | some next => exact ih hsnd next

def resolve (v : Vfs) (root : Nat) (path : CStr) : Option Nat :=
  (v.ramfsGetInodeByPath root path).1

theorem noRefs_getInode (v : Vfs) (root : Nat) (path : CStr) :
    (v.ramfsGetInodeByPath root path).2.noRefs = v.noRefs := by
  unfold ramfsGetInodeByPath
  split
  · rfl
  · exact v.noRefs_walk root _

theorem resolve_congr (h : SameDirs v v') (root : Nat) (path : CStr) :
    v'.resolve root path = v.resolve root path := by
  unfold resolve ramfsGetInodeByPath
  split
  · rfl
  · exact walk_congr h root _

theorem getInode_eq (v : Vfs) (root : Nat) (path : CStr) :
    exists w, v.ramfsGetInodeByPath root path = (v.resolve root path, w) ∧
      w.noRefs = v.noRefs :=
  ⟨(v.ramfsGetInodeByPath root path).2, rfl, v.noRefs_getInode root path⟩

end Vfs
end Fs
end EarlnuxOS
