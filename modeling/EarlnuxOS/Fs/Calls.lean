import EarlnuxOS.Foundation.Run
import EarlnuxOS.Fs.Objects

/-!
# What a call does

Each call of the virtual file system as a composition of the changes to
objects, and the numbering of objects over a run.
-/

namespace EarlnuxOS
namespace Fs

open Foundation

namespace Vfs

variable {v v' : Vfs}

/-!
# Where a path leads
-/

theorem findBest_mem {path : CStr} {mounts : List Mountpoint}
    {best : Option Mountpoint} {bestLen : Nat} {mnt : Mountpoint}
    (h : (findBest path best bestLen mounts).1 = some mnt) :
    best = some mnt ∨ mnt ∈ mounts := by
  induction mounts generalizing best bestLen with
  | nil => exact Or.inl h
  | cons m rest ih =>
      unfold findBest at h
      split at h
      · rcases ih h with hm | hm
        · cases hm
          exact Or.inr List.mem_cons_self
        · exact Or.inr (List.mem_cons_of_mem m hm)
      · rcases ih h with hm | hm
        · exact Or.inl hm
        · exact Or.inr (List.mem_cons_of_mem m hm)

theorem findMount_mem {path rest : CStr} {mnt : Mountpoint}
    (h : v.findMount path = some (mnt, rest)) : mnt ∈ v.mountList := by
  unfold findMount at h
  split at h
  · cases h
  · rename_i m len hbest
    cases h
    have hfst : (findBest path none 0 v.mountList).1 = some mnt := by
      rw [hbest]
    rcases findBest_mem hfst with hm | hm
    · cases hm
    · exact hm

/-- A walk goes down to younger inodes, and changes none beyond its goal. -/
theorem walk_spec (hi : ObjInv v) {curr id : Nat} {bufs : List CStr}
    (hcurr : v.inodes curr ≠ none) (h : (v.walk curr bufs).1 = some id) :
    v.inodes id ≠ none ∧ (id = curr ∨ Linked v id) ∧ curr ≤ id ∧
      forall j, id < j -> (v.walk curr bufs).2.inode j = v.inode j := by
  induction bufs generalizing v curr with
  | nil =>
      cases h
      exact ⟨hcurr, Or.inl rfl, Nat.le_refl _, fun _ _ => rfl⟩
  | cons buf rest ih =>
      unfold walk at h ⊢
      split at h
      · rename_i hbuf
        rw [if_pos hbuf]
        exact ih hi hcurr h
      rename_i hbuf
      rw [if_neg hbuf]
      split at h
      · rename_i hbuf'
        rw [if_pos hbuf']
        exact ih hi hcurr h
      rename_i hbuf'
      rw [if_neg hbuf']
      split at h
      · cases h
      rename_i hdir
      rw [if_neg hdir]
      unfold ramfsLookup at h ⊢
      cases hfind : (v.inode curr).entries.find?
          (fun de => strncmpEq de.name buf nameMax) with
      | none =>
          rw [hfind] at h
          cases h
      | some de =>
          rw [hfind] at h
          dsimp only at h ⊢
          have hmem : de ∈ (v.inode curr).entries :=
            List.mem_of_find?_eq_some hfind
          have hchild := hi.child curr de hmem
          generalize hw : v.modifyInode de.inode _ = w at h ⊢
          have hkeeps : Keeps v w := by
            rw [← hw]
            exact v.keeps_modifyInode _ (fun _ => ⟨rfl, rfl, rfl⟩)
          have hspec := ih (hi.keeps hkeeps)
            ((hkeeps.known _).mpr hchild.left) h
          refine ⟨(hkeeps.known id).mp hspec.left, Or.inr ?_,
            Nat.le_trans (Nat.le_of_lt hchild.right) hspec.right.right.left,
            ?_⟩
          · rcases hspec.right.left with heq | hlinked
            · exact ⟨curr, de, hmem, heq.symm⟩
            · exact (hkeeps.linked id).mp hlinked
          · intro j hj
            rw [hspec.right.right.right j hj, ← hw, inode_modifyInode,
              if_neg]
            intro heq
            have hle := hspec.right.right.left
            omega

theorem getInode_spec (hi : ObjInv v) {root id : Nat} {path : CStr}
    (hroot : v.inodes root ≠ none) (h : v.resolve root path = some id) :
    v.inodes id ≠ none ∧ (id = root ∨ Linked v id) ∧
      forall j, id < j ->
        (v.ramfsGetInodeByPath root path).2.inode j = v.inode j := by
  unfold resolve ramfsGetInodeByPath at *
  split at h
  · rename_i hpath
    cases h
    rw [if_pos hpath]
    exact ⟨hroot, Or.inl rfl, fun _ _ => rfl⟩
  · rename_i hpath
    rw [if_neg hpath]
    have hspec := walk_spec hi hroot h
    exact ⟨hspec.left, hspec.right.left, hspec.right.right.right⟩

theorem getInode_attached (hi : ObjInv v) {mnt : Mountpoint}
    (hmnt : mnt ∈ v.mountList) {path : CStr} {id : Nat}
    (h : v.resolve mnt.root path = some id) : Attached v id :=
  (getInode_spec hi (hi.root mnt hmnt) h).right.left.imp_left
    (fun heq => ⟨mnt, hmnt, heq.symm⟩)

/-!
# Creating
-/

/-- At most one inode is created, with an entry or without. -/
def Creates (v v' : Vfs) : Prop :=
  exists w, Keeps v w ∧
    (v' = w ∨ Discards w v' ∨
      exists dir, Attached w dir ∧ Adds w v' dir)

theorem Creates.of_keeps (h : Keeps v v') : Creates v v' :=
  ⟨v', h, Or.inl rfl⟩

theorem ObjInv.creates (hi : ObjInv v) (h : Creates v v') : ObjInv v' := by
  rcases h with ⟨w, hkeeps, hcase⟩
  have hw := hi.keeps hkeeps
  rcases hcase with heq | hdiscards | ⟨dir, hdir, hadds⟩
  · rw [heq]
    exact hw
  · exact hw.discards hdiscards
  · exact hw.adds hadds (hw.inode_lt dir (hw.attached_known hdir))

theorem creates_ramfsCreate (hi : ObjInv v) {w : Vfs} (hkeeps : Keeps v w)
    {dir : Nat} (name : CStr) (mode : UInt16) (hdir : Attached v dir) :
    Creates v (w.ramfsCreate dir name mode).2 ∧
      forall node, (w.ramfsCreate dir name mode).1 = some node ->
        Linked (w.ramfsCreate dir name mode).2 node := by
  have hw := hi.keeps hkeeps
  have hdir' := (attached_congr hkeeps.mountList hkeeps.linked dir).mpr hdir
  have hknown := hw.attached_known hdir'
  have hlt := hw.inode_lt dir hknown
  rcases w.ramfsCreate_cases name mode hknown (Nat.ne_of_lt hlt) with
    ⟨hnone, hcase⟩ | ⟨hsome, hadds⟩
  · refine ⟨?_, ?_⟩
    · rcases hcase with hkeeps' | hdiscards
      · exact Creates.of_keeps (hkeeps.trans hkeeps')
      · exact ⟨w, hkeeps, Or.inr (Or.inl hdiscards)⟩
    · intro node hnode
      rw [hnone] at hnode
      cases hnode
  · refine ⟨⟨w, hkeeps, Or.inr (Or.inr ⟨dir, hdir', hadds⟩)⟩, ?_⟩
    intro node hnode
    rw [hsome] at hnode
    cases hnode
    exact (hadds.linked hw _).mpr (Or.inr rfl)

theorem vfsMkdir_creates (hi : ObjInv v) (path : CStr) (mode : UInt16) :
    Creates v (v.vfsMkdir path mode).2 := by
  unfold vfsMkdir
  split
  · exact Creates.of_keeps (Keeps.refl v)
  rename_i mnt rest hmount
  have hmnt := findMount_mem hmount
  split
  · exact Creates.of_keeps (Keeps.refl v)
  unfold ramfsFsMkdir
  rcases v.getInode_eq mnt.root (pathDirname rest pathMax) with ⟨w, hw, hsame⟩
  have hkeeps := keeps_noRefs hsame
  rw [hw]
  cases hres : v.resolve mnt.root (pathDirname rest pathMax) with
  | none => exact Creates.of_keeps hkeeps
  | some dir =>
      dsimp only
      split
      · exact Creates.of_keeps hkeeps
      · have hdir := getInode_attached hi hmnt hres
        have hcreates := creates_ramfsCreate hi hkeeps
          (pathBasename rest pathMax) (sIfdir ||| (mode &&& 0o777)) hdir
        unfold ramfsMkdir
        split
        · rename_i hc
          rw [hc] at hcreates
          exact hcreates.left
        · rename_i hc
          rw [hc] at hcreates
          exact hcreates.left

theorem findOrCreate_creates (hi : ObjInv v) {mnt : Mountpoint}
    (hmnt : mnt ∈ v.mountList) (path : CStr) (flags : UInt32)
    (mode : UInt16) :
    Creates v (v.findOrCreate mnt path flags mode).2 ∧
      forall node, (v.findOrCreate mnt path flags mode).1 = some node ->
        node = mnt.root ∨ Linked (v.findOrCreate mnt path flags mode).2 node := by
  unfold findOrCreate
  rcases v.getInode_eq mnt.root path with ⟨w, hw, hsame⟩
  have hkeeps := keeps_noRefs hsame
  rw [hw]
  cases hres : v.resolve mnt.root path with
  | some node =>
      refine ⟨Creates.of_keeps hkeeps, ?_⟩
      intro node' hnode
      cases hnode
      exact (getInode_spec hi (hi.root mnt hmnt) hres).right.left.imp_right
        (hkeeps.linked node).mpr
  | none =>
      dsimp only
      split
      · refine ⟨Creates.of_keeps hkeeps, ?_⟩
        intro node hnode
        cases hnode
      rcases w.getInode_eq mnt.root (pathDirname path pathMax) with
        ⟨u, hu, hsame'⟩
      have hkeeps' := hkeeps.trans (keeps_noRefs hsame')
      rw [hu]
      cases hres' : w.resolve mnt.root (pathDirname path pathMax) with
      | none =>
          refine ⟨Creates.of_keeps hkeeps', ?_⟩
          intro node hnode
          cases hnode
      | some dir =>
          dsimp only
          split
          · refine ⟨Creates.of_keeps hkeeps', ?_⟩
            intro node hnode
            cases hnode
          · rw [resolve_congr hkeeps.sameDirs] at hres'
            have hdir := getInode_attached hi hmnt hres'
            have hcreates := creates_ramfsCreate hi hkeeps'
              (pathBasename path pathMax) (sIfreg ||| (mode &&& 0o777)) hdir
            exact ⟨hcreates.left,
              fun node hnode => Or.inr (hcreates.right node hnode)⟩

/-!
# Unlinking
-/

/-- The directory and the entry that `vfs_unlink` removes. -/
def unlinkTarget (v : Vfs) (path : CStr) : Option (Nat × Dirent) :=
  match v.findMount path with
  | none => none
  | some (mnt, rest) =>
      if ¬ mnt.fs.unlink then
        none
      else
        match v.resolve mnt.root (pathDirname rest pathMax) with
        | none => none
        | some dir =>
            if ¬ sIsdir (v.inode dir).mode then none
            else ((v.inode dir).entries.find? (fun de =>
              strncmpEq de.name (pathBasename rest pathMax) nameMax)).map
                (fun de => (dir, de))

theorem vfsUnlink_cases (hi : ObjInv v) (path : CStr) :
    match v.unlinkTarget path with
    | none => Keeps v (v.vfsUnlink path).2
    | some (dir, victim) => exists w, Keeps v w ∧
        w.inode victim.inode = v.inode victim.inode ∧
        Removes w (v.vfsUnlink path).2 dir victim := by
  unfold unlinkTarget vfsUnlink
  cases hmount : v.findMount path with
  | none => exact Keeps.refl v
  | some found =>
      rcases found with ⟨mnt, rest⟩
      have hroot := hi.root mnt (findMount_mem hmount)
      dsimp only
      by_cases hunlink : mnt.fs.unlink = true
      · rw [if_neg (by simpa using hunlink), if_neg (by simpa using hunlink)]
        unfold ramfsFsUnlink
        rcases v.getInode_eq mnt.root (pathDirname rest pathMax) with
          ⟨w, hw, hsame⟩
        have hkeeps := keeps_noRefs hsame
        cases hres : v.resolve mnt.root (pathDirname rest pathMax) with
        | none =>
            rw [hw, hres]
            exact hkeeps
        | some dir =>
            have hspec := getInode_spec hi hroot hres
            rw [hw] at hspec
            rw [hw, hres]
            dsimp only
            rw [hkeeps.mode]
            by_cases hdir : sIsdir (v.inode dir).mode = true
            · rw [if_neg (by simpa using hdir), if_neg (by simpa using hdir)]
              have hcases := ramfsUnlink_cases (hi.keeps hkeeps) dir
                (pathBasename rest pathMax)
              rw [hkeeps.entries] at hcases
              cases hfind : (v.inode dir).entries.find? (fun de =>
                  strncmpEq de.name (pathBasename rest pathMax) nameMax) with
              | none =>
                  rw [hfind] at hcases
                  dsimp only at hcases
                  rw [hcases]
                  exact hkeeps
              | some victim =>
                  rw [hfind] at hcases
                  have hchild := hi.child dir victim
                    (List.mem_of_find?_eq_some hfind)
                  exact ⟨w, hkeeps, hspec.right.right _ hchild.right,
                    hcases.right⟩
            · rw [if_pos (by simpa using hdir), if_pos (by simpa using hdir)]
              exact hkeeps
      · rw [if_pos (by simpa using hunlink), if_pos (by simpa using hunlink)]
        exact Keeps.refl v

/-!
# Descriptors
-/

def release (v : Vfs) (fd file : Nat) : Vfs :=
  (v.setFd fd none).kfree file

def attach (v : Vfs) (file node : Nat) : Vfs :=
  v.setFile file
    { v.file file with
      inode := node
      ops := some ramfsFileOps
      pos := 0 }

theorem release_opened {fd file : Nat} (id : Nat) :
    Opened (v.release fd file) id <->
      exists fd' file', fd' ≠ fd ∧ v.fdTable fd' = some file' ∧
        (v.file file').inode = id := by
  have hfd : forall fd' file', (v.release fd file).fdTable fd' = some file' <->
      fd' ≠ fd ∧ v.fdTable fd' = some file' := by
    intro fd' file'
    show Function.update v.fdTable fd none fd' = some file' <-> _
    rw [Function.update_apply]
    by_cases heq : fd' = fd
    · simp [heq]
    · simp [heq]
  unfold Opened
  refine exists_congr fun fd' => exists_congr fun file' => ?_
  rw [hfd, and_assoc]
  rfl

theorem setFd_none_some {fd fd' file : Nat}
    (h : (v.setFd fd none).fdTable fd' = some file) :
    v.fdTable fd' = some file := by
  have hupdate : Function.update v.fdTable fd none fd' = some file := h
  rw [Function.update_apply] at hupdate
  split at hupdate
  · cases hupdate
  · exact hupdate

theorem ObjInv.setFd_none (hi : ObjInv v) (fd : Nat) :
    ObjInv (v.setFd fd none) := by
  refine hi.sameInodes rfl rfl (Nat.le_refl v.nextId) hi.freed_lt ?_ ?_
  · exact fun fd' file hfd => hi.file_lt fd' file (setFd_none_some hfd)
  · intro id hid
    rcases hid with ⟨fd', file, hfd, hinode⟩
    exact hi.opened id ⟨fd', file, setFd_none_some hfd, hinode⟩

theorem ObjInv.kfree (hi : ObjInv v) {file : Nat} (hlt : file < v.nextId) :
    ObjInv (v.kfree file) := by
  refine hi.sameInodes rfl rfl (Nat.le_refl v.nextId) ?_ hi.file_lt hi.opened
  intro id hid
  rcases List.mem_cons.mp hid with hid | hid
  · rw [hid]
    exact hlt
  · exact hi.freed_lt id hid

theorem ObjInv.release (hi : ObjInv v) {fd file : Nat}
    (hfile : file < v.nextId) : ObjInv (v.release fd file) :=
  (hi.setFd_none fd).kfree hfile

theorem file_setFile (v : Vfs) (id j : Nat) (f : File) :
    (v.setFile id f).file j = if j = id then f else v.file j := by
  unfold file setFile
  dsimp only
  rw [Function.update_apply]
  split <;> rfl

theorem attach_opened {file node : Nat} {id : Nat}
    (h : Opened (v.attach file node) id) : id = node ∨ Opened v id := by
  rcases h with ⟨fd, file', hfd, hinode⟩
  unfold attach at hinode
  rw [file_setFile] at hinode
  split at hinode
  · exact Or.inl hinode.symm
  · exact Or.inr ⟨fd, file', hfd, hinode⟩

theorem ObjInv.attach (hi : ObjInv v) {file node : Nat}
    (hnode : v.inodes node ≠ none) : ObjInv (v.attach file node) := by
  refine hi.sameInodes rfl rfl (Nat.le_refl v.nextId) hi.freed_lt hi.file_lt ?_
  intro id hid
  rcases attach_opened hid with hid | hid
  · rw [hid]
    exact Or.inr hnode
  · exact hi.opened id hid

theorem opening_opened (hi : ObjInv v) {flags : UInt32} {fd : Nat}
    (hslot : v.fdTable fd = none) (id : Nat) :
    Opened (v.opening flags fd) id <-> Opened v id ∨ id = 0 := by
  have hfile : forall j, (v.opening flags fd).file j =
      if j = v.nextId then { File.blank with flags := flags, refCount := 1 }
      else v.file j := fun j => file_setFile v v.nextId j _
  have hfd : forall fd', (v.opening flags fd).fdTable fd' =
      if fd' = fd then some v.nextId else v.fdTable fd' := by
    intro fd'
    show Function.update v.fdTable fd (some v.nextId) fd' = _
    rw [Function.update_apply]
  constructor
  · intro hopened
    rcases hopened with ⟨fd', file', hfd', hinode⟩
    rw [hfd] at hfd'
    rw [hfile] at hinode
    split at hfd'
    · cases hfd'
      rw [if_pos rfl] at hinode
      exact Or.inr hinode.symm
    · have hlt := (hi.file_lt fd' file' hfd').left
      rw [if_neg (Nat.ne_of_lt hlt)] at hinode
      exact Or.inl ⟨fd', file', hfd', hinode⟩
  · intro hopened
    rcases hopened with ⟨fd', file', hfd', hinode⟩ | hid
    · have hlt := (hi.file_lt fd' file' hfd').left
      refine ⟨fd', file', ?_, ?_⟩
      · rw [hfd, if_neg]
        · exact hfd'
        · intro heq
          rw [heq, hslot] at hfd'
          cases hfd'
      · rw [hfile, if_neg (Nat.ne_of_lt hlt)]
        exact hinode
    · refine ⟨fd, v.nextId, ?_, ?_⟩
      · rw [hfd, if_pos rfl]
      · rw [hfile, if_pos rfl]
        exact hid.symm

theorem ObjInv.opening (hi : ObjInv v) (flags : UInt32) {fd : Nat}
    (hslot : v.fdTable fd = none) : ObjInv (v.opening flags fd) := by
  refine hi.sameInodes rfl rfl (Nat.le_succ v.nextId) ?_ ?_ ?_
  · exact fun id hid => Nat.lt_succ_of_lt (hi.freed_lt id hid)
  · intro fd' file' hfd
    have hupdate : Function.update v.fdTable fd (some v.nextId) fd' =
        some file' := hfd
    rw [Function.update_apply] at hupdate
    split at hupdate
    · cases hupdate
      exact ⟨Nat.lt_succ_self v.nextId, hi.unknown_next⟩
    · have hfile := hi.file_lt fd' file' hupdate
      exact ⟨Nat.lt_succ_of_lt hfile.left, hfile.right⟩
  · intro id hid
    rcases (opening_opened hi hslot id).mp hid with hid | hid
    · exact hi.opened id hid
    · exact Or.inl hid

theorem freeSlot_none {table : Nat -> Option Nat} {i slots fd : Nat}
    (h : freeSlot table i slots = some fd) : table fd = none := by
  induction slots generalizing i with
  | zero => cases h
  | succ slots ih =>
      unfold freeSlot at h
      split at h
      · cases h
        assumption
      · exact ih h

theorem freeSlot_lt {table : Nat -> Option Nat} {i slots fd : Nat}
    (h : freeSlot table i slots = some fd) : fd < i + slots := by
  induction slots generalizing i with
  | zero => cases h
  | succ slots ih =>
      unfold freeSlot at h
      split at h
      · cases h
        omega
      · have hlt := ih h
        omega

inductive Opens (v : Vfs) (flags : UInt32) (v' : Vfs) : Prop where
  | refused (h : Keeps v v')
  | full (h : v' = (v.withFile flags).kfree v.nextId)
  | failed (fd : Nat) (w : Vfs) (hslot : v.fdTable fd = none)
      (hcreates : Creates (v.opening flags fd) w)
      (h : v' = w.release fd v.nextId)
  | opened (fd node : Nat) (w : Vfs) (hslot : v.fdTable fd = none)
      (hcreates : Creates (v.opening flags fd) w)
      (hnode : (exists mnt, mnt ∈ v.mountList ∧ node = mnt.root) ∨
        Linked w node)
      (h : Keeps (w.attach v.nextId node) v')

theorem ramfsFsOpen_cases (hi : ObjInv v) {mnt : Mountpoint}
    (hmnt : mnt ∈ v.mountList) (path : CStr) (flags : UInt32)
    (mode : UInt16) (file : Nat) :
    exists w, Creates v w ∧
      ((v.ramfsFsOpen mnt path flags mode file) = (-1, w) ∨
        exists node, (node = mnt.root ∨ Linked w node) ∧
          (v.ramfsFsOpen mnt path flags mode file).1 = 0 ∧
          Keeps (w.attach file node)
            (v.ramfsFsOpen mnt path flags mode file).2) := by
  have hcreates := findOrCreate_creates hi hmnt path flags mode
  unfold ramfsFsOpen
  cases hfound : v.findOrCreate mnt path flags mode with
  | mk found w =>
      rw [hfound] at hcreates
      refine ⟨w, hcreates.left, ?_⟩
      cases found with
      | none => exact Or.inl rfl
      | some node =>
          refine Or.inr ⟨node, hcreates.right node rfl, rfl, ?_⟩
          dsimp only
          have htrunc : Keeps (w.attach file node)
              (if flags &&& oTrunc = 0 then w.attach file node
              else ((w.attach file node).ramfsTruncate node 0).2) := by
            split
            · exact Keeps.refl _
            · exact keeps_truncate _ node 0
          split
          · exact htrunc
          · exact htrunc.trans (keeps_setFile _ file rfl)

theorem vfsOpen_opens (hi : ObjInv v) (path : CStr) (flags : UInt32)
    (mode : UInt16) : Opens v flags (v.vfsOpen path flags mode).2 := by
  cases hmount : v.findMount path with
  | none =>
      unfold vfsOpen
      rw [hmount]
      exact Opens.refused (Keeps.refl v)
  | some found =>
      rcases found with ⟨mnt, rest⟩
      have hmnt := findMount_mem hmount
      by_cases hopen : mnt.fs.openFile = true
      · rw [vfsOpen_eq v flags mode hmount hopen]
        split
        · exact Opens.refused (Keeps.of_eq rfl (fun _ => rfl) rfl rfl rfl
            (Nat.le_refl v.nextId))
        split
        · exact Opens.full rfl
        · rename_i fd hfree
          have hslot := freeSlot_none hfree
          rcases ramfsFsOpen_cases (hi.opening flags hslot) hmnt rest flags
            mode v.nextId with
            ⟨w, hcreates, hfail | ⟨node, hnode, hzero, hkeeps⟩⟩
          · rw [hfail]
            dsimp only
            rw [if_pos (by decide)]
            exact Opens.failed fd w hslot hcreates rfl
          · dsimp only
            rw [hzero, if_neg (by decide)]
            exact Opens.opened fd node w hslot hcreates
              (hnode.imp_left (fun heq => ⟨mnt, hmnt, heq⟩)) hkeeps
      · unfold vfsOpen
        rw [hmount]
        dsimp only
        rw [if_pos (by simpa using hopen)]
        exact Opens.refused (Keeps.refl v)

theorem vfsClose_cases (v : Vfs) (fd : Int) :
    match v.fdFile fd with
    | none => (v.vfsClose fd).2 = v
    | some file => (v.vfsClose fd).2 = v.release fd.toNat file := by
  unfold vfsClose ramfsFileClose
  cases v.fdFile fd with
  | none => rfl
  | some file =>
      dsimp only
      split <;> rfl

theorem fdFile_some {fd : Int} {file : Nat} (h : v.fdFile fd = some file) :
    v.fdTable fd.toNat = some file := by
  unfold fdFile at h
  split at h
  · cases h
  · exact h

/-!
# Runs
-/

theorem ObjInv.newFile (hi : ObjInv v) (flags : UInt32) :
    ObjInv (v.withFile flags) := by
  refine hi.sameInodes rfl rfl (Nat.le_succ v.nextId) ?_ ?_ ?_
  · exact fun id hid => Nat.lt_succ_of_lt (hi.freed_lt id hid)
  · intro fd file hfd
    have hfile := hi.file_lt fd file hfd
    exact ⟨Nat.lt_succ_of_lt hfile.left, hfile.right⟩
  · intro id hid
    rcases hid with ⟨fd, file, hfd, hinode⟩
    apply hi.opened id
    refine ⟨fd, file, hfd, ?_⟩
    rw [← hinode]
    have hne := Nat.ne_of_lt (hi.file_lt fd file hfd).left
    exact congrArg File.inode
      ((file_setFile v v.nextId file _).trans (if_neg hne)).symm

theorem ObjInv.withFile (hi : ObjInv v) (flags : UInt32) :
    ObjInv ((v.withFile flags).kfree v.nextId) :=
  (hi.newFile flags).kfree (Nat.lt_succ_self v.nextId)

theorem Creates.nextId (h : Creates v v') : v.nextId ≤ v'.nextId := by
  rcases h with ⟨w, hkeeps, hcase⟩
  apply Nat.le_trans hkeeps.nextId
  rcases hcase with heq | hdiscards | ⟨dir, _, hadds⟩
  · rw [heq]
  · exact Nat.le_of_lt hdiscards.nextId
  · exact Nat.le_of_lt hadds.nextId

theorem Creates.mountList (h : Creates v v') : v'.mountList = v.mountList := by
  rcases h with ⟨w, hkeeps, hcase⟩
  rw [← hkeeps.mountList]
  rcases hcase with heq | hdiscards | ⟨dir, _, hadds⟩
  · rw [heq]
  · exact hdiscards.mountList
  · exact hadds.mountList

theorem ObjInv.node_known (hi : ObjInv v) {node : Nat}
    (hnode : (exists mnt, mnt ∈ v.mountList ∧ node = mnt.root) ∨
      Linked v node) : v.inodes node ≠ none := by
  rcases hnode with ⟨mnt, hmnt, hnode⟩ | ⟨dir, de, hde, hnode⟩
  · rw [hnode]
    exact hi.root mnt hmnt
  · rw [← hnode]
    exact (hi.child dir de hde).left

theorem ObjInv.opens (hi : ObjInv v) {flags : UInt32}
    (h : Opens v flags v') : ObjInv v' := by
  cases h with
  | refused h => exact hi.keeps h
  | full h =>
      rw [h]
      exact hi.withFile flags
  | failed fd w hslot hcreates h =>
      rw [h]
      apply ((hi.opening flags hslot).creates hcreates).release
      exact Nat.lt_of_lt_of_le (Nat.lt_succ_self v.nextId) hcreates.nextId
  | opened fd node w hslot hcreates hnode h =>
      have hw := (hi.opening flags hslot).creates hcreates
      rw [show v.mountList = w.mountList from hcreates.mountList.symm] at hnode
      exact (hw.attach (hw.node_known hnode)).keeps h

theorem ObjInv.exec (hi : ObjInv v) (o : VfsOp) : ObjInv (v.exec o) := by
  cases o with
  | openFile path flags mode => exact hi.opens (vfsOpen_opens hi path flags mode)
  | close fd =>
      have hcases := v.vfsClose_cases fd
      cases hfd : v.fdFile fd with
      | none =>
          rw [hfd] at hcases
          show ObjInv (v.vfsClose fd).2
          rw [hcases]
          exact hi
      | some file =>
          rw [hfd] at hcases
          show ObjInv (v.vfsClose fd).2
          rw [hcases]
          exact hi.release (hi.file_lt _ file (fdFile_some hfd)).left
  | read fd len => exact hi.keeps (v.keeps_read fd len)
  | write fd buf => exact hi.keeps (v.keeps_write fd buf)
  | seek fd offset whence => exact hi.keeps (v.keeps_seek fd offset whence)
  | mkdir path mode => exact hi.creates (vfsMkdir_creates hi path mode)
  | unlink path =>
      have hcases := vfsUnlink_cases hi path
      show ObjInv (v.vfsUnlink path).2
      cases htarget : v.unlinkTarget path with
      | none =>
          rw [htarget] at hcases
          exact hi.keeps hcases
      | some target =>
          rw [htarget] at hcases
          rcases hcases with ⟨w, hkeeps, _, hremoves⟩
          exact (hi.keeps hkeeps).removes hremoves

theorem objInv_boot (fails : Nat -> Bool) : ObjInv (boot fails) where
  null := rfl
  next_pos := Nat.one_pos
  inode_lt := fun _ h => absurd rfl h
  freed_lt := fun _ h => by cases h
  file_lt := fun _ _ h => by cases h
  opened := by
    intro id hid
    rcases hid with ⟨_, _, hfd, _⟩
    cases hfd
  child := fun _ _ h => by cases h
  once := fun _ _ _ _ h => by cases h
  distinct := fun _ => List.nodup_nil
  root := fun _ h => by cases h

theorem objInv_root {w : Vfs} {node : Inode}
    (hinodes : w.inodes = Function.update (fun _ => none) 1 (some node))
    (hnode : node.entries = []) (hnext : 1 < w.nextId)
    (hfreed : forall id, id ∈ w.freed -> id = 1)
    (hfd : w.fdTable = fun _ => none)
    (hmount : forall mnt, mnt ∈ w.mountList -> mnt.root = 1) : ObjInv w := by
  have hentries : forall id, (w.inode id).entries = [] := by
    intro id
    unfold inode
    rw [hinodes, Function.update_apply]
    split
    · exact hnode
    · rfl
  constructor
  · rw [hinodes]
    rfl
  · omega
  · intro id hid
    rw [hinodes, Function.update_apply] at hid
    split at hid
    · omega
    · exact absurd rfl hid
  · intro id hid
    rw [hfreed id hid]
    exact hnext
  · intro fd file hfile
    rw [hfd] at hfile
    cases hfile
  · intro id hid
    rcases hid with ⟨fd, file, hfile, _⟩
    rw [hfd] at hfile
    cases hfile
  · intro dir de hde
    rw [hentries] at hde
    cases hde
  · intro dir dir' de de' hde
    rw [hentries] at hde
    cases hde
  · intro dir
    rw [hentries]
    exact List.nodup_nil
  · intro mnt hmnt
    rw [hmount mnt hmnt, hinodes]
    simp

theorem objInv_freshMount (fails : Nat -> Bool) (target : CStr)
    (flags : UInt32) : ObjInv (freshMount fails target flags) := by
  rw [freshMount_eq]
  split
  · exact (objInv_boot fails).keeps
      (Keeps.of_eq rfl (fun _ => rfl) rfl rfl rfl (Nat.le_refl 1))
  split
  · exact objInv_root rfl rfl (Nat.lt_succ_self 1)
      (fun id hid => List.mem_singleton.mp hid) rfl (fun _ h => by cases h)
  split
  · exact objInv_root rfl rfl (show 1 < 3 by decide) (fun _ h => by cases h) rfl
      (fun _ h => by cases h)
  · refine objInv_root rfl rfl (show 1 < 4 by decide) (fun _ h => by cases h) rfl ?_
    intro mnt hmnt
    rw [List.mem_singleton.mp hmnt]

theorem ObjInv.reachable {cond : Vfs -> VfsOp -> Prop} {start : Vfs}
    (hstart : ObjInv start) (hreach : Reachable Vfs.exec cond start v) :
    ObjInv v :=
  hreach.invariant hstart (fun _ o hi _ => hi.exec o)

end Vfs
end Fs
end EarlnuxOS
