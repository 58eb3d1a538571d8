import EarlnuxOS.Fs.Calls

/-!
# What calls ask of the allocator

A call of the file system may ask for memory.  Which requests are granted is
not up to it, and what was asked for stays asked for.
-/

namespace EarlnuxOS
namespace Fs
namespace Vfs

structure Asks (v v' : Vfs) : Prop where
  fails : v'.fails = v.fails
  calls : v.calls ≤ v'.calls

variable {v v' : Vfs}

theorem Asks.trans {w : Vfs} (h : Asks v v') (h' : Asks v' w) : Asks v w where
  fails := h'.fails.trans h.fails
  calls := Nat.le_trans h.calls h'.calls

theorem asks_of_eq (n : Nat) (hfails : v'.fails = v.fails)
    (hcalls : v'.calls = v.calls + n) : Asks v v' where
  fails := hfails
  calls := by omega

theorem asks_noRefs (h : v'.noRefs = v.noRefs) : Asks v v' :=
  asks_of_eq 0 (field_congr Vfs.fails (fun _ => rfl) h)
    (field_congr Vfs.calls (fun _ => rfl) h)

theorem asks_ramfsCreate (v : Vfs) (dir : Nat) (name : CStr) (mode : UInt16) :
    Asks v (v.ramfsCreate dir name mode).2 := by
  rw [ramfsCreate_eq]
  split
  · exact asks_of_eq 1 rfl rfl
  split
  · exact asks_of_eq 2 rfl rfl
  split
  · exact asks_of_eq 3 rfl rfl
  · exact asks_of_eq 3 rfl rfl

theorem asks_ramfsMkdir (v : Vfs) (dir : Nat) (name : CStr) (mode : UInt16) :
    Asks v (v.ramfsMkdir dir name mode).2 := by
  have hcreate := v.asks_ramfsCreate dir name (sIfdir ||| (mode &&& 0o777))
  unfold ramfsMkdir
  split
  · rename_i hc
    rw [hc] at hcreate
    exact hcreate
  · rename_i hc
    rw [hc] at hcreate
    exact hcreate

theorem asks_findOrCreate (v : Vfs) (mnt : Mountpoint) (path : CStr)
    (flags : UInt32) (mode : UInt16) :
    Asks v (v.findOrCreate mnt path flags mode).2 := by
  unfold findOrCreate
  rcases v.getInode_eq mnt.root path with ⟨w, hw, hsame⟩
  have hasks := asks_noRefs hsame
  rw [hw]
  cases v.resolve mnt.root path with
  | some node => exact hasks
  | none =>
      dsimp only
      split
      · exact hasks
      rcases w.getInode_eq mnt.root (pathDirname path pathMax) with
        ⟨u, hu, hsame'⟩
      have hasks' := hasks.trans (asks_noRefs hsame')
      rw [hu]
      cases w.resolve mnt.root (pathDirname path pathMax) with
      | none => exact hasks'
      | some dir =>
          dsimp only
          split
          · exact hasks'
          · exact hasks'.trans (u.asks_ramfsCreate _ _ _)

theorem asks_ramfsFsOpen (v : Vfs) (mnt : Mountpoint) (path : CStr)
    (flags : UInt32) (mode : UInt16) (file : Nat) :
    Asks v (v.ramfsFsOpen mnt path flags mode file).2 := by
  have hfound := v.asks_findOrCreate mnt path flags mode
  unfold ramfsFsOpen
  cases hf : v.findOrCreate mnt path flags mode with
  | mk found w =>
      rw [hf] at hfound
      cases found with
      | none => exact hfound
      | some node =>
          apply hfound.trans
          dsimp only
          split
          · split <;> exact asks_of_eq 0 rfl rfl
          · split <;> exact asks_of_eq 0 rfl rfl

theorem asks_vfsOpen (v : Vfs) (path : CStr) (flags : UInt32) (mode : UInt16) :
    Asks v (v.vfsOpen path flags mode).2 := by
  cases hmount : v.findMount path with
  | none =>
      unfold vfsOpen
      rw [hmount]
      exact asks_of_eq 0 rfl rfl
  | some found =>
      rcases found with ⟨mnt, rest⟩
      by_cases hopen : mnt.fs.openFile = true
      · rw [vfsOpen_eq v flags mode hmount hopen]
        split
        · exact asks_of_eq 1 rfl rfl
        split
        · exact asks_of_eq 1 rfl rfl
        · rename_i fd _
          have hopening : Asks v (v.opening flags fd) := asks_of_eq 1 rfl rfl
          have hasks := hopening.trans ((v.opening flags fd).asks_ramfsFsOpen
            mnt rest flags mode v.nextId)
          dsimp only
          split
          · exact hasks.trans (asks_of_eq 0 rfl rfl)
          · exact hasks
      · unfold vfsOpen
        rw [hmount]
        dsimp only
        rw [if_pos (by simpa using hopen)]
        exact asks_of_eq 0 rfl rfl

theorem asks_vfsClose (v : Vfs) (fd : Int) : Asks v (v.vfsClose fd).2 := by
  have hcases := v.vfsClose_cases fd
  cases hfd : v.fdFile fd with
  | none =>
      rw [hfd] at hcases
      rw [hcases]
      exact asks_of_eq 0 rfl rfl
  | some file =>
      rw [hfd] at hcases
      rw [hcases]
      exact asks_of_eq 0 rfl rfl

theorem asks_vfsRead (v : Vfs) (fd : Int) (len : UInt32) :
    Asks v (v.vfsRead fd len).2.2 := by
  unfold vfsRead
  split
  · exact asks_of_eq 0 rfl rfl
  split
  · unfold ramfsFileRead
    dsimp only
    split
    · exact asks_of_eq 0 rfl rfl
    split <;> exact asks_of_eq 0 rfl rfl
  · exact asks_of_eq 0 rfl rfl

theorem asks_growData (v : Vfs) (id : Nat) (newEnd : UInt64) :
    Asks v (v.growData id newEnd).2 := by
  unfold growData
  dsimp only
  split
  · unfold replaceData kmalloc
    cases v.fails v.calls with
    | true => exact asks_of_eq 1 rfl rfl
    | false =>
        dsimp only
        rw [if_neg Bool.false_ne_true]
        dsimp only
        split <;> exact asks_of_eq 1 rfl rfl
  · exact asks_of_eq 0 rfl rfl

theorem asks_vfsWrite (v : Vfs) (fd : Int) (buf : CStr) :
    Asks v (v.vfsWrite fd buf).2 := by
  unfold vfsWrite
  split
  · exact asks_of_eq 0 rfl rfl
  split
  · rename_i file _ _
    unfold ramfsFileWrite
    have hgrow := v.asks_growData (v.file file).inode
      ((v.file file).pos + (UInt32.ofNat buf.length).toUInt64)
    dsimp only
    split
    · rename_i hg
      rw [hg] at hgrow
      exact hgrow
    · rename_i hg
      rw [hg] at hgrow
      exact hgrow.trans (asks_of_eq 0 rfl rfl)
  · exact asks_of_eq 0 rfl rfl

theorem asks_vfsSeek (v : Vfs) (fd : Int) (offset : Int64) (whence : Int) :
    Asks v (v.vfsSeek fd offset whence).2 := by
  unfold vfsSeek
  split
  · exact asks_of_eq 0 rfl rfl
  · dsimp only
    split
    · exact asks_of_eq 0 rfl rfl
    split
    · exact asks_of_eq 0 rfl rfl
    split <;> exact asks_of_eq 0 rfl rfl

theorem asks_vfsMkdir (v : Vfs) (path : CStr) (mode : UInt16) :
    Asks v (v.vfsMkdir path mode).2 := by
  unfold vfsMkdir
  split
  · exact asks_of_eq 0 rfl rfl
  rename_i mnt rest _
  split
  · exact asks_of_eq 0 rfl rfl
  unfold ramfsFsMkdir
  rcases v.getInode_eq mnt.root (pathDirname rest pathMax) with ⟨w, hw, hsame⟩
  have hasks := asks_noRefs hsame
  rw [hw]
  cases v.resolve mnt.root (pathDirname rest pathMax) with
  | none => exact hasks
  | some dir =>
      dsimp only
      split
      · exact hasks
      · exact hasks.trans (w.asks_ramfsMkdir _ _ _)

theorem asks_vfsUnlink (v : Vfs) (path : CStr) :
    Asks v (v.vfsUnlink path).2 := by
  unfold vfsUnlink
  split
  · exact asks_of_eq 0 rfl rfl
  rename_i mnt rest _
  split
  · exact asks_of_eq 0 rfl rfl
  unfold ramfsFsUnlink
  rcases v.getInode_eq mnt.root (pathDirname rest pathMax) with ⟨w, hw, hsame⟩
  have hasks := asks_noRefs hsame
  rw [hw]
  cases v.resolve mnt.root (pathDirname rest pathMax) with
  | none => exact hasks
  | some dir =>
      dsimp only
      split
      · exact hasks
      unfold ramfsUnlink
      split
      · exact hasks
      · apply hasks.trans
        dsimp only
        split <;> exact asks_of_eq 0 rfl rfl

theorem asks_exec (v : Vfs) (o : VfsOp) : Asks v (v.exec o) := by
  cases o with
  | openFile path flags mode => exact v.asks_vfsOpen path flags mode
  | close fd => exact v.asks_vfsClose fd
  | read fd len => exact v.asks_vfsRead fd len
  | write fd buf => exact v.asks_vfsWrite fd buf
  | seek fd offset whence => exact v.asks_vfsSeek fd offset whence
  | mkdir path mode => exact v.asks_vfsMkdir path mode
  | unlink path => exact v.asks_vfsUnlink path

end Vfs
end Fs
end EarlnuxOS
