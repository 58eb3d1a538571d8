import EarlnuxOS.Fs.Namespace

/-!
# The lifetime of inodes

An inode should be freed when its last entry has been removed and its last
descriptor closed.  `ramfs_unlink` decides by two counters of which `close`
never lowers any; the conditions of this module say when it decides rightly.
-/

namespace EarlnuxOS
namespace Fs

open Foundation

namespace Vfs

variable {v v' : Vfs}

/-- An inode is freed exactly when neither an entry nor a descriptor is left. -/
def Lifetime (v : Vfs) : Prop :=
  forall id, v.inodes id ≠ none -> ¬ IsRoot v id ->
    (id ∈ v.freed <-> ¬ Linked v id ∧ ¬ Opened v id)

/--
`vfs_unlink` sees from the counters whether a descriptor is left, and
`vfs_close` does not close the last descriptor of an inode without an entry.
-/
def LifetimeSound (v : Vfs) : VfsOp -> Prop
  | VfsOp.unlink path => forall target, target ∈ v.unlinkTarget path ->
      ((v.inode target.2.inode).nlinks = 1 ∧
          (v.inode target.2.inode).refCount ≤ 1 <->
        ¬ Opened v target.2.inode)
  | VfsOp.close fd => forall file, file ∈ v.fdFile fd ->
      IsRoot v (v.file file).inode ∨ Linked v (v.file file).inode ∨
        exists fd' file', fd' ≠ fd.toNat ∧ v.fdTable fd' = some file' ∧
          (v.file file').inode = (v.file file).inode
  | _ => True

/-!
# The changes to objects
-/

theorem Lifetime.keeps (hl : Lifetime v) (h : Keeps v v') : Lifetime v' := by
  intro id hid hroot
  rw [h.known] at hid
  rw [isRoot_congr h.mountList] at hroot
  rw [h.freed, h.linked, h.opened]
  exact hl id hid hroot

theorem ObjInv.next_not_linked (hi : ObjInv v) : ¬ Linked v v.nextId :=
  fun h => hi.linked_known h hi.unknown_next

theorem ObjInv.next_not_opened (hi : ObjInv v) : ¬ Opened v v.nextId := by
  intro h
  have hpos := hi.next_pos
  rcases hi.opened _ h with hzero | hknown
  · omega
  · exact hknown hi.unknown_next

theorem ObjInv.next_not_freed (hi : ObjInv v) : v.nextId ∉ v.freed :=
  fun h => Nat.lt_irrefl _ (hi.freed_lt _ h)

theorem Lifetime.discards (hl : Lifetime v) (hi : ObjInv v)
    (h : Discards v v') : Lifetime v' := by
  intro id hid hroot
  rw [isRoot_congr h.mountList] at hroot
  rw [h.freed, h.linked hi, opened_congr h.fdTable h.files, List.mem_cons]
  by_cases hnew : id = v.nextId
  · rw [hnew]
    exact iff_of_true (Or.inl rfl) ⟨hi.next_not_linked, hi.next_not_opened⟩
  · rw [or_iff_right hnew]
    exact hl id (((h.known id).mp hid).resolve_right hnew) hroot

theorem Lifetime.adds (hl : Lifetime v) (hi : ObjInv v) {dir : Nat}
    (h : Adds v v' dir) : Lifetime v' := by
  intro id hid hroot
  rw [isRoot_congr h.mountList] at hroot
  rw [h.freed, h.linked hi, opened_congr h.fdTable h.files]
  by_cases hnew : id = v.nextId
  · rw [hnew]
    exact iff_of_false hi.next_not_freed (fun h => h.left (Or.inr rfl))
  · rw [or_iff_left hnew]
    exact hl id (((h.known id).mp hid).resolve_right hnew) hroot

theorem Lifetime.creates (hl : Lifetime v) (hi : ObjInv v)
    (h : Creates v v') : Lifetime v' := by
  rcases h with ⟨w, hkeeps, hcase⟩
  have hw := hl.keeps hkeeps
  have hiw := hi.keeps hkeeps
  rcases hcase with heq | hdiscards | ⟨dir, _, hadds⟩
  · rw [heq]
    exact hw
  · exact hw.discards hiw hdiscards
  · exact hw.adds hiw hadds

theorem Lifetime.opening (hl : Lifetime v) (hi : ObjInv v) (flags : UInt32)
    {fd : Nat} (hslot : v.fdTable fd = none) :
    Lifetime (v.opening flags fd) := by
  intro id hid hroot
  have hne : id ≠ 0 := by
    intro hzero
    rw [hzero] at hid
    exact hid hi.null
  rw [opening_opened hi hslot, or_iff_left hne]
  exact hl id hid hroot

/-- A descriptor goes away that is not the last one, or whose inode has an entry. -/
theorem Lifetime.release (hl : Lifetime v) {fd file : Nat}
    (hfile : v.inodes file = none)
    (hlast : forall id, v.inodes id ≠ none -> ¬ IsRoot v id -> Opened v id ->
      Linked v id ∨ Opened (v.release fd file) id) :
    Lifetime (v.release fd file) := by
  intro id hid hroot
  have hne : id ≠ file := by
    intro heq
    rw [heq] at hid
    exact hid hfile
  have hold := hl id hid hroot
  have hfreed : id ∈ (v.release fd file).freed <-> id ∈ v.freed := by
    show id ∈ file :: v.freed <-> _
    rw [List.mem_cons, or_iff_right hne]
  have hfewer : Opened (v.release fd file) id -> Opened v id := by
    intro hopened
    rcases (release_opened id).mp hopened with ⟨fd', file', _, hfd, hinode⟩
    exact ⟨fd', file', hfd, hinode⟩
  have hmore := hlast id hid hroot
  rw [hfreed, hold]
  show _ <-> ¬ Linked v id ∧ _
  tauto

theorem Lifetime.attach (hl : Lifetime v) (hi : ObjInv v)
    {file node : Nat}
    (hzero : (v.file file).inode = 0)
    (hnode : IsRoot v node ∨ Linked v node) : Lifetime (v.attach file node) := by
  intro id hid hroot
  have hold := hl id hid hroot
  have hne : id ≠ 0 := by
    intro heq
    rw [heq] at hid
    exact hid hi.null
  by_cases hnew : id = node
  · rw [hnew] at hroot hold ⊢
    have hlinked := hnode.resolve_left hroot
    exact iff_of_false (fun hfreed => (hold.mp hfreed).left hlinked)
      (fun h => h.left hlinked)
  · have hopened : Opened (v.attach file node) id <-> Opened v id := by
      constructor
      · intro h
        exact (attach_opened h).resolve_left hnew
      · intro h
        rcases h with ⟨fd', file', hfd', hinode⟩
        refine ⟨fd', file', hfd', ?_⟩
        unfold Vfs.attach
        rw [file_setFile, if_neg]
        · exact hinode
        · intro heq
          rw [heq, hzero] at hinode
          exact hne hinode.symm
    rw [hopened]
    exact hold

theorem Lifetime.removes (hl : Lifetime v) (hi : ObjInv v) {dir : Nat}
    {victim : Dirent} (h : Removes v v' dir victim)
    (hsound : (v.inode victim.inode).nlinks = 1 ∧
        (v.inode victim.inode).refCount ≤ 1 <->
      ¬ Opened v victim.inode) : Lifetime v' := by
  intro id hid hroot
  rw [h.known] at hid
  rw [isRoot_congr h.mountList] at hroot
  have hold := hl id hid hroot
  rw [h.linked hi, opened_congr h.fdTable h.files, h.freed]
  by_cases hvictim : id = victim.inode
  · have hlinked : Linked v id := by
      rcases h.split with ⟨before, after, hentries, _⟩
      refine ⟨dir, victim, ?_, hvictim.symm⟩
      rw [hentries]
      simp
    have hnot : id ∉ v.freed := fun hfreed => (hold.mp hfreed).left hlinked
    rw [hvictim] at hnot ⊢
    split
    · rename_i hcond
      exact iff_of_true List.mem_cons_self
        ⟨fun h => h.right rfl, hsound.mp hcond⟩
    · rename_i hcond
      exact iff_of_false hnot (fun h => hcond (hsound.mpr h.right))
  · rw [and_iff_left hvictim]
    split
    · rw [List.mem_cons, or_iff_right hvictim]
      exact hold
    · exact hold

/-!
# The calls
-/

theorem Creates.fileInode (h : Creates v v') (id : Nat) :
    (v'.file id).inode = (v.file id).inode := by
  rcases h with ⟨w, hkeeps, hcase⟩
  rw [← hkeeps.fileInode]
  rcases hcase with heq | hdiscards | ⟨dir, _, hadds⟩
  · rw [heq]
  · unfold file
    rw [hdiscards.files]
  · unfold file
    rw [hadds.files]

theorem Creates.fdTable (h : Creates v v') : v'.fdTable = v.fdTable := by
  rcases h with ⟨w, hkeeps, hcase⟩
  rw [← hkeeps.fdTable]
  rcases hcase with heq | hdiscards | ⟨dir, _, hadds⟩
  · rw [heq]
  · exact hdiscards.fdTable
  · exact hadds.fdTable

theorem Lifetime.full (hl : Lifetime v) (hi : ObjInv v) (flags : UInt32) :
    Lifetime ((v.withFile flags).kfree v.nextId) := by
  intro id hid hroot
  have hold := hl id hid hroot
  have hne : id ≠ v.nextId := by
    intro heq
    rw [heq] at hid
    exact hid hi.unknown_next
  have hopened : Opened ((v.withFile flags).kfree v.nextId) id <->
      Opened v id := by
    refine exists_congr fun fd => exists_congr fun file => ?_
    refine and_congr_right fun hfd => ?_
    have hlt := (hi.file_lt fd file hfd).left
    have hsame : (v.setFile v.nextId
        { File.blank with
          flags := flags
          refCount := 1 }).file file = v.file file :=
      (file_setFile v v.nextId file _).trans (if_neg (Nat.ne_of_lt hlt))
    rw [← hsame]
    rfl
  show id ∈ v.nextId :: v.freed <-> ¬ Linked v id ∧ _
  rw [List.mem_cons, or_iff_right hne, hopened]
  exact hold

theorem opening_file (v : Vfs) (flags : UInt32) (fd : Nat) :
    (v.opening flags fd).fdTable fd = some v.nextId ∧
      ((v.opening flags fd).file v.nextId).inode = 0 := by
  constructor
  · exact Function.update_self fd _ v.fdTable
  · exact congrArg File.inode ((file_setFile v v.nextId v.nextId
      { File.blank with
        flags := flags
        refCount := 1 }).trans (if_pos rfl))

theorem Lifetime.opening_creates (hl : Lifetime v) (hi : ObjInv v)
    {flags : UInt32} {fd : Nat} {w : Vfs} (hslot : v.fdTable fd = none)
    (hcreates : Creates (v.opening flags fd) w) :
    ObjInv w ∧ Lifetime w ∧
      w.fdTable fd = some v.nextId ∧ (w.file v.nextId).inode = 0 := by
  have hopening := hi.opening flags hslot
  rw [hcreates.fdTable, hcreates.fileInode]
  exact ⟨hopening.creates hcreates,
    (hl.opening hi flags hslot).creates hopening hcreates,
    v.opening_file flags fd⟩

theorem Lifetime.opens (hl : Lifetime v) (hi : ObjInv v) {flags : UInt32}
    (h : Opens v flags v') : Lifetime v' := by
  cases h with
  | refused h => exact hl.keeps h
  | full h =>
      rw [h]
      exact hl.full hi flags
  | failed fd w hslot hcreates h =>
      rcases hl.opening_creates hi hslot hcreates with ⟨hw, hlw, hfile⟩
      rw [h]
      apply hlw.release (hw.file_lt fd _ hfile.left).right
      intro id hid _ hopened
      right
      rcases hopened with ⟨fd', file', hfd', hinode⟩
      refine (release_opened id).mpr ⟨fd', file', ?_, hfd', hinode⟩
      intro heq
      rw [heq, hfile.left] at hfd'
      cases hfd'
      rw [hfile.right] at hinode
      rw [← hinode] at hid
      exact hid hw.null
  | opened fd node w hslot hcreates hnode h =>
      rcases hl.opening_creates hi hslot hcreates with ⟨hw, hlw, hfile⟩
      refine Lifetime.keeps (hlw.attach hw hfile.right ?_) h
      apply hnode.imp_left
      intro hroot
      rcases hroot with ⟨mnt, hmnt, hnode⟩
      refine ⟨mnt, ?_, hnode.symm⟩
      rw [hcreates.mountList]
      exact hmnt

theorem Lifetime.close (hl : Lifetime v) (hi : ObjInv v) {fd : Int}
    (hsound : LifetimeSound v (VfsOp.close fd)) :
    Lifetime (v.vfsClose fd).2 := by
  have hcases := v.vfsClose_cases fd
  cases hfd : v.fdFile fd with
  | none =>
      rw [hfd] at hcases
      rw [hcases]
      exact hl
  | some file =>
      rw [hfd] at hcases
      rw [hcases]
      have hslot := fdFile_some hfd
      apply hl.release (hi.file_lt _ file hslot).right
      intro id hid hroot hopened
      rcases hopened with ⟨fd', file', hfd', hinode⟩
      by_cases hsame : fd' = fd.toNat
      · rw [hsame, hslot] at hfd'
        cases hfd'
        have hleft := hsound file hfd
        rw [hinode] at hleft
        rcases hleft with hleft | hleft | hleft
        · exact absurd hleft hroot
        · exact Or.inl hleft
        · exact Or.inr ((release_opened id).mpr hleft)
      · exact Or.inr ((release_opened id).mpr
          ⟨fd', file', hsame, hfd', hinode⟩)

theorem Lifetime.unlink (hl : Lifetime v) (hi : ObjInv v) {path : CStr}
    (hsound : LifetimeSound v (VfsOp.unlink path)) :
    Lifetime (v.vfsUnlink path).2 := by
  have hcases := vfsUnlink_cases hi path
  cases htarget : v.unlinkTarget path with
  | none =>
      rw [htarget] at hcases
      exact hl.keeps hcases
  | some target =>
      rw [htarget] at hcases
      rcases hcases with ⟨w, hkeeps, hvictim, hremoves⟩
      apply (hl.keeps hkeeps).removes (hi.keeps hkeeps) hremoves
      rw [hvictim, hkeeps.opened]
      exact hsound target htarget

theorem Lifetime.exec (hl : Lifetime v) (hi : ObjInv v) {o : VfsOp}
    (hsound : LifetimeSound v o) : Lifetime (v.exec o) := by
  cases o with
  | openFile path flags mode =>
      exact hl.opens hi (vfsOpen_opens hi path flags mode)
  | close fd => exact hl.close hi hsound
  | read fd len => exact hl.keeps (v.keeps_read fd len)
  | write fd buf => exact hl.keeps (v.keeps_write fd buf)
  | seek fd offset whence => exact hl.keeps (v.keeps_seek fd offset whence)
  | mkdir path mode => exact hl.creates hi (vfsMkdir_creates hi path mode)
  | unlink path => exact hl.unlink hi hsound

theorem lifetime_freshMount (fails : Nat -> Bool) (target : CStr)
    (flags : UInt32)
    (hmount : ((boot fails).vfsMount target ramfsType.name flags).1 = 0) :
    Lifetime (freshMount fails target flags) := by
  have hlist := mountList_freshMount fails target flags hmount
  have hroot : forall id, (freshMount fails target flags).inodes id ≠ none ->
      id = 1 := by
    intro id hid
    rw [freshMount_eq] at hid
    by_contra hne
    have hstart : Function.update (boot fails).inodes 1
        (some ((boot fails).newInode (sIfdir ||| 0o755))) id = none := by
      rw [Function.update_of_ne hne]
      rfl
    split at hid
    · exact hid rfl
    split at hid
    · exact hid (Function.update_of_ne hne _ _)
    split at hid
    · exact hid hstart
    · exact hid hstart
  intro id hid hnot
  rw [hroot id hid] at hnot
  refine absurd ⟨⟨target.take (pathMax - 1), 1, ramfsType, flags⟩, ?_, rfl⟩ hnot
  rw [hlist]
  exact List.mem_singleton_self _

/-!
# Runs
-/

theorem ramfs_lifetime (fails : Nat -> Bool) (target : CStr) (flags : UInt32)
    (hmount : ((boot fails).vfsMount target ramfsType.name flags).1 = 0)
    (hreach : Reachable Vfs.exec LifetimeSound
      (freshMount fails target flags) v) : Lifetime v := by
  have hboth : Lifetime v ∧ ObjInv v := by
    apply hreach.invariant
    · exact ⟨lifetime_freshMount fails target flags hmount,
        objInv_freshMount fails target flags⟩
    · intro s o hs hsound
      exact ⟨hs.left.exec hs.right hsound, hs.right.exec o⟩
  exact hboth.left

theorem plainMount_fdTable (fd : Nat) : plainMount.fdTable fd = none := by
  unfold plainMount
  rw [freshMount_eq]
  rfl

def mkdirUnlink : List VfsOp :=
  [VfsOp.mkdir (cstr "/d") 0o755, VfsOp.unlink (cstr "/d")]

theorem ramfs_lifetime_mkdirUnlink :
    Lifetime (run Vfs.exec plainMount mkdirUnlink) := by
  apply ramfs_lifetime (fun _ => false) (cstr "/") 0 (by decide +kernel)
  refine ⟨mkdirUnlink, ⟨trivial, ?_, trivial⟩, rfl⟩
  have hclosed : (plainMount.exec (VfsOp.mkdir (cstr "/d") 0o755)).fdTable =
      plainMount.fdTable :=
    (vfsMkdir_creates (objInv_freshMount _ _ _) _ _).fdTable
  intro target ht
  apply iff_of_true
  · revert target
    decide +kernel
  · intro hopened
    rcases hopened with ⟨fd, file, hfd, _⟩
    have hnone := congrFun hclosed fd
    exact absurd (hfd.symm.trans hnone) (by simp [plainMount_fdTable])

def unlinkOpened : List VfsOp :=
  [VfsOp.openFile (cstr "/a") (oCreat ||| 1) 0o644, VfsOp.unlink (cstr "/a")]

theorem unlink_frees_opened :
    ((run Vfs.exec plainMount unlinkOpened).fdTable 0 = some 4 ∧
        ((run Vfs.exec plainMount unlinkOpened).file 4).inode = 5 ∧
        5 ∈ (run Vfs.exec plainMount unlinkOpened).freed) ∧
      ¬ Lifetime (run Vfs.exec plainMount unlinkOpened) := by
  have hrun : (run Vfs.exec plainMount unlinkOpened).fdTable 0 = some 4 ∧
      ((run Vfs.exec plainMount unlinkOpened).file 4).inode = 5 ∧
      5 ∈ (run Vfs.exec plainMount unlinkOpened).freed := by decide +kernel
  refine ⟨hrun, ?_⟩
  intro hl
  rcases hrun with ⟨hfd, hinode, hfreed⟩
  have hknown : (run Vfs.exec plainMount unlinkOpened).inodes 5 ≠ none := by
    have hsome : ((run Vfs.exec plainMount unlinkOpened).inodes 5).isSome =
        true := by decide +kernel
    intro hnone
    rw [hnone] at hsome
    cases hsome
  have hroot : ¬ IsRoot (run Vfs.exec plainMount unlinkOpened) 5 := by
    intro hroot
    rcases hroot with ⟨mnt, hmnt, hid⟩
    have hroots : ((run Vfs.exec plainMount unlinkOpened).mountList.map
        Mountpoint.root) = [1] := by decide +kernel
    have hmem := List.mem_map_of_mem (f := Mountpoint.root) hmnt
    rw [hroots, hid] at hmem
    exact absurd hmem (by decide)
  exact ((hl 5 hknown hroot).mp hfreed).right ⟨0, 4, hfd, hinode⟩

end Vfs
end Fs
end EarlnuxOS
