import Mathlib.Logic.Relation
import EarlnuxOS.Fs.Descriptors

/-!
# Subtrees

What `vfs_unlink` does to the inodes below the one it removes.  It does not
look whether there are any, and they stay behind where no path leads; the
condition of this module is that there are none.
-/

namespace EarlnuxOS
namespace Fs

open Foundation

namespace Vfs

variable {v v' : Vfs}

def HasEntry (v : Vfs) (dir id : Nat) : Prop :=
  exists de, de ∈ (v.inode dir).entries ∧ de.inode = id

def Reached (v : Vfs) (id : Nat) : Prop :=
  exists root, IsRoot v root ∧ Relation.ReflTransGen (HasEntry v) root id

def RootsApart (v : Vfs) : Prop :=
  forall id, IsRoot v id -> ¬ Linked v id

def AllReached (v : Vfs) : Prop :=
  forall id, Linked v id -> Reached v id

/-!
# Reaching inodes
-/

theorem Reached.child {dir id : Nat} (h : Reached v dir)
    (hentry : HasEntry v dir id) : Reached v id := by
  rcases h with ⟨root, hroot, hpath⟩
  exact ⟨root, hroot, hpath.tail hentry⟩

theorem Reached.last {id : Nat} (h : Reached v id) :
    IsRoot v id ∨ exists dir, Reached v dir ∧ HasEntry v dir id := by
  rcases h with ⟨root, hroot, hpath⟩
  rcases hpath.cases_tail with heq | ⟨dir, hdir, hentry⟩
  · rw [heq]
    exact Or.inl hroot
  · exact Or.inr ⟨dir, ⟨root, hroot, hdir⟩, hentry⟩

theorem Reached.mono {id : Nat} (hmount : v'.mountList = v.mountList)
    (hentry : forall dir id, HasEntry v dir id -> HasEntry v' dir id)
    (h : Reached v id) : Reached v' id := by
  rcases h with ⟨root, hroot, hpath⟩
  exact ⟨root, (isRoot_congr hmount root).mpr hroot,
    Relation.ReflTransGen.mono hentry root id hpath⟩

/-!
# Calls that remove nothing
-/

theorem Adds.hasEntry {dir : Nat} (h : Adds v v' dir) (hi : ObjInv v)
    {d id : Nat} (hentry : HasEntry v d id) : HasEntry v' d id := by
  rcases hentry with ⟨de, hde, hid⟩
  exact ⟨de, h.keeps_mem hi hde, hid⟩

/-- No entry goes away, and inodes stay reached. -/
structure KeepsLinks (v v' : Vfs) : Prop where
  entry : forall dir id, HasEntry v dir id -> HasEntry v' dir id
  apart : RootsApart v -> RootsApart v'
  reached : AllReached v -> AllReached v'

theorem KeepsLinks.trans {w : Vfs} (h : KeepsLinks v v')
    (h' : KeepsLinks v' w) : KeepsLinks v w where
  entry := fun dir id hentry => h'.entry dir id (h.entry dir id hentry)
  apart := fun hv => h'.apart (h.apart hv)
  reached := fun hv => h'.reached (h.reached hv)

theorem KeepsLinks.linked (h : KeepsLinks v v') {id : Nat} (hid : Linked v id) :
    Linked v' id := by
  rcases hid with ⟨dir, hentry⟩
  exact ⟨dir, h.entry dir id hentry⟩

theorem keepsLinks_of_entries (hmount : v'.mountList = v.mountList)
    (hentries : forall id, (v'.inode id).entries = (v.inode id).entries) :
    KeepsLinks v v' := by
  have hentry : forall dir id, HasEntry v' dir id <-> HasEntry v dir id := by
    intro dir id
    unfold HasEntry
    rw [hentries dir]
  have hlinked : forall id, Linked v' id <-> Linked v id :=
    fun id => exists_congr fun dir => hentry dir id
  constructor
  · exact fun dir id => (hentry dir id).mpr
  · intro hapart id hroot hid
    exact hapart id ((isRoot_congr hmount id).mp hroot) ((hlinked id).mp hid)
  · intro hall id hid
    exact (hall id ((hlinked id).mp hid)).mono hmount
      (fun dir id => (hentry dir id).mpr)

theorem Keeps.keepsLinks (h : Keeps v v') : KeepsLinks v v' :=
  keepsLinks_of_entries h.mountList h.entries

theorem Adds.keepsLinks {dir : Nat} (h : Adds v v' dir) (hi : ObjInv v)
    (hdir : Attached v dir) : KeepsLinks v v' where
  entry := fun _ _ => h.hasEntry hi
  apart := by
    intro hapart id hroot hid
    have hroot' := (isRoot_congr h.mountList id).mp hroot
    rcases (h.linked hi id).mp hid with hold | hnew
    · exact hapart id hroot' hold
    · rw [hnew] at hroot'
      exact hi.attached_known (Or.inl hroot') hi.unknown_next
  reached := by
    intro hall id hid
    have hmono : forall id, Reached v id -> Reached v' id :=
      fun id => Reached.mono h.mountList (fun _ _ => h.hasEntry hi)
    rcases (h.linked hi id).mp hid with hold | hnew
    · exact hmono id (hall id hold)
    · have hparent : Reached v dir := by
        rcases hdir with hroot | hlinked
        · exact ⟨dir, hroot, Relation.ReflTransGen.refl⟩
        · exact hall dir hlinked
      rcases h.entry with ⟨name, hentry⟩
      refine (hmono dir hparent).child ⟨⟨name, v.nextId⟩, ?_, hnew.symm⟩
      rw [hentry]
      exact List.mem_cons_self

theorem Creates.keepsLinks (h : Creates v v') (hi : ObjInv v) :
    KeepsLinks v v' := by
  rcases h with ⟨w, hkeeps, hcase⟩
  have hw := hi.keeps hkeeps
  rcases hcase with heq | hdiscards | ⟨dir, hdir, hadds⟩
  · rw [heq]
    exact hkeeps.keepsLinks
  · exact hkeeps.keepsLinks.trans
      (keepsLinks_of_entries hdiscards.mountList (hdiscards.entries_all hw))
  · exact hkeeps.keepsLinks.trans (hadds.keepsLinks hw hdir)

theorem Opens.keepsLinks {flags : UInt32} (h : Opens v flags v')
    (hi : ObjInv v) : KeepsLinks v v' := by
  have hopening : forall fd, KeepsLinks v (v.opening flags fd) :=
    fun _ => keepsLinks_of_entries rfl (fun _ => rfl)
  cases h with
  | refused h => exact h.keepsLinks
  | full h =>
      rw [h]
      exact keepsLinks_of_entries rfl (fun _ => rfl)
  | failed fd w hslot hcreates h =>
      have hw := hcreates.keepsLinks (hi.opening flags hslot)
      rw [h]
      exact ((hopening fd).trans hw).trans
        (keepsLinks_of_entries rfl (fun _ => rfl))
  | opened fd node w hslot hcreates hnode h =>
      have hw := hcreates.keepsLinks (hi.opening flags hslot)
      have hattach : KeepsLinks w (w.attach v.nextId node) :=
        keepsLinks_of_entries rfl (fun _ => rfl)
      exact (((hopening fd).trans hw).trans hattach).trans h.keepsLinks

theorem keepsLinks_close (v : Vfs) (fd : Int) :
    KeepsLinks v (v.vfsClose fd).2 := by
  have hcases := v.vfsClose_cases fd
  cases hfd : v.fdFile fd with
  | none =>
      rw [hfd] at hcases
      rw [hcases]
      exact (Keeps.refl v).keepsLinks
  | some file =>
      rw [hfd] at hcases
      rw [hcases]
      exact keepsLinks_of_entries rfl (fun _ => rfl)

/-!
# Removing an entry
-/

theorem Removes.hasEntry {dir : Nat} {victim : Dirent}
    (h : Removes v v' dir victim) (hi : ObjInv v) {d id : Nat} :
    HasEntry v' d id <-> HasEntry v d id ∧ id ≠ victim.inode := by
  constructor
  · intro hentry
    rcases hentry with ⟨de, hde, hid⟩
    have hmem := (h.mem hi).mp hde
    rw [hid] at hmem
    exact ⟨⟨de, hmem.left, hid⟩, hmem.right⟩
  · intro hentry
    rcases hentry with ⟨⟨de, hde, hid⟩, hne⟩
    refine ⟨de, (h.mem hi).mpr ⟨hde, ?_⟩, hid⟩
    rw [hid]
    exact hne

theorem Removes.apart {dir : Nat} {victim : Dirent}
    (h : Removes v v' dir victim) (hi : ObjInv v) (hapart : RootsApart v) :
    RootsApart v' := by
  intro id hroot hid
  exact hapart id ((isRoot_congr h.mountList id).mp hroot)
    ((h.linked hi id).mp hid).left

theorem Removes.reached {dir : Nat} {victim : Dirent}
    (h : Removes v v' dir victim) (hi : ObjInv v)
    (hempty : (v.inode victim.inode).entries = []) (hall : AllReached v) :
    AllReached v' := by
  intro id hid
  have hold := (h.linked hi id).mp hid
  rcases hall id hold.left with ⟨root, hroot, hpath⟩
  refine ⟨root, (isRoot_congr h.mountList root).mpr hroot, ?_⟩
  have hne := hold.right
  clear hold hid
  induction hpath with
  | refl => exact Relation.ReflTransGen.refl
  | tail hpath hentry ih =>
      -- The path does not lead through the victim, which has no entries.
      refine Relation.ReflTransGen.tail (ih ?_) ((h.hasEntry hi).mpr
        ⟨hentry, hne⟩)
      intro heq
      rcases hentry with ⟨de, hde, _⟩
      rw [heq, hempty] at hde
      cases hde

/-- What has an entry in the removed inode can no longer be reached. -/
theorem Removes.lost {dir id : Nat} {victim : Dirent}
    (h : Removes v v' dir victim) (hi : ObjInv v) (hapart : RootsApart v)
    (hentry : HasEntry v victim.inode id) :
    Linked v' id ∧ ¬ Reached v' id := by
  rcases hentry with ⟨de, hde, hid⟩
  have hne : id ≠ victim.inode := by
    have hlt := (hi.child victim.inode de hde).right
    omega
  have hlinked : Linked v id := ⟨victim.inode, de, hde, hid⟩
  have hlinked' := (h.linked hi id).mpr ⟨hlinked, hne⟩
  have hapart' := h.apart hi hapart
  refine ⟨hlinked', ?_⟩
  intro hreached
  rcases hreached.last with hroot | ⟨d, hd, hentry⟩
  · exact hapart' id hroot hlinked'
  -- The victim is the only directory with an entry for the inode.
  have hdir : d = victim.inode := by
    rcases ((h.hasEntry hi).mp hentry).left with ⟨de', hde', hid'⟩
    exact hi.once d victim.inode de' de hde' hde (hid'.trans hid.symm)
  rw [hdir] at hd
  rcases hd.last with hroot | ⟨d', _, hentry'⟩
  · have hvictim : Linked v victim.inode := by
      rcases h.split with ⟨before, after, hentries, _⟩
      refine ⟨dir, victim, ?_, rfl⟩
      rw [hentries]
      simp
    exact hapart _ ((isRoot_congr h.mountList _).mp hroot) hvictim
  · exact ((h.hasEntry hi).mp hentry').right rfl

/-!
# The calls
-/

/-- The inode whose entry goes away has no entries of its own. -/
def UnlinksEmpty (v : Vfs) : VfsOp -> Prop
  | VfsOp.unlink path => forall target, target ∈ v.unlinkTarget path ->
      (v.inode target.2.inode).entries = []
  | _ => True

def Unlinks (v : Vfs) (id : Nat) : VfsOp -> Prop
  | VfsOp.unlink path =>
      exists target, target ∈ v.unlinkTarget path ∧ target.2.inode = id
  | _ => False

theorem exec_keeps_or_removes (hi : ObjInv v) (o : VfsOp) :
    UnlinksEmpty v o ∧ KeepsLinks v (v.exec o) ∨
      exists w dir victim, Keeps v w ∧ Removes w (v.exec o) dir victim ∧
        (UnlinksEmpty v o <-> (v.inode victim.inode).entries = []) ∧
        forall id, victim.inode = id -> Unlinks v id o := by
  cases o with
  | openFile path flags mode =>
      exact Or.inl ⟨trivial, (vfsOpen_opens hi path flags mode).keepsLinks hi⟩
  | close fd => exact Or.inl ⟨trivial, v.keepsLinks_close fd⟩
  | read fd len => exact Or.inl ⟨trivial, (v.keeps_read fd len).keepsLinks⟩
  | write fd buf => exact Or.inl ⟨trivial, (v.keeps_write fd buf).keepsLinks⟩
  | seek fd offset whence =>
      exact Or.inl ⟨trivial, (v.keeps_seek fd offset whence).keepsLinks⟩
  | mkdir path mode =>
      exact Or.inl ⟨trivial, (vfsMkdir_creates hi path mode).keepsLinks hi⟩
  | unlink path =>
      have hcases := vfsUnlink_cases hi path
      cases htarget : v.unlinkTarget path with
      | none =>
          rw [htarget] at hcases
          refine Or.inl ⟨?_, hcases.keepsLinks⟩
          intro target ht
          rw [htarget] at ht
          cases ht
      | some target =>
          rw [htarget] at hcases
          rcases hcases with ⟨w, hkeeps, _, hremoves⟩
          refine Or.inr ⟨w, target.1, target.2, hkeeps, hremoves, ?_, ?_⟩
          · constructor
            · intro hempty
              exact hempty target htarget
            · intro hempty target' ht
              rw [htarget] at ht
              cases ht
              exact hempty
          · intro id hid
            exact ⟨target, htarget, hid⟩

theorem RootsApart.exec (hapart : RootsApart v) (hi : ObjInv v) (o : VfsOp) :
    RootsApart (v.exec o) := by
  rcases exec_keeps_or_removes hi o with
    ⟨_, hlinks⟩ | ⟨w, dir, victim, hkeeps, hremoves, _⟩
  · exact hlinks.apart hapart
  · exact hremoves.apart (hi.keeps hkeeps) (hkeeps.keepsLinks.apart hapart)

/-- An inode keeps its entry through every call that does not remove it. -/
theorem Linked.exec (hi : ObjInv v) {id : Nat} (h : Linked v id) {o : VfsOp}
    (hnot : ¬ Unlinks v id o) : Linked (v.exec o) id := by
  rcases exec_keeps_or_removes hi o with
    ⟨_, hlinks⟩ | ⟨w, dir, victim, hkeeps, hremoves, _, hunlinks⟩
  · exact hlinks.linked h
  · exact (hremoves.linked (hi.keeps hkeeps) id).mpr
      ⟨hkeeps.keepsLinks.linked h, fun heq => hnot (hunlinks id heq.symm)⟩

theorem AllReached.exec_iff (hall : AllReached v) (hi : ObjInv v)
    (hapart : RootsApart v) (o : VfsOp) :
    UnlinksEmpty v o <-> AllReached (v.exec o) := by
  rcases exec_keeps_or_removes hi o with
    ⟨hempty, hlinks⟩ | ⟨w, dir, victim, hkeeps, hremoves, hiff, _⟩
  · exact iff_of_true hempty (hlinks.reached hall)
  · have hw := hi.keeps hkeeps
    rw [hiff, ← hkeeps.entries]
    constructor
    · intro hempty
      exact hremoves.reached hw hempty (hkeeps.keepsLinks.reached hall)
    · intro hreached
      by_contra hfull
      rcases List.exists_mem_of_ne_nil _ hfull with ⟨de, hde⟩
      have hlost := hremoves.lost hw (hkeeps.keepsLinks.apart hapart)
        ⟨de, hde, rfl⟩
      exact hlost.right (hreached de.inode hlost.left)

/-!
# Runs
-/

/--
An inode that has had an entry in some state of the run, which no later call
removed, is reached at the end.
-/
def NothingLost (start : Vfs) (ops : List VfsOp) : Prop :=
  forall first rest id, ops = first ++ rest ->
    Linked (run exec start first) id ->
    Meets exec (fun v o => ¬ Unlinks v id o) (run exec start first) rest ->
    Reached (run exec start ops) id

theorem objInv_run {start : Vfs} (hi : ObjInv start) (ops : List VfsOp) :
    ObjInv (run exec start ops) :=
  Meets.invariant (fun _ o hs _ => hs.exec o) hi (meets_true exec start ops)

theorem nothingLost_iff {start : Vfs} (hi : ObjInv start)
    (ops : List VfsOp) :
    NothingLost start ops <-> AllReached (run exec start ops) := by
  constructor
  · intro hlost id hid
    exact hlost ops [] id (List.append_nil ops).symm hid trivial
  · intro hall first rest id hops hid hmeets
    apply hall
    have hstep : forall s o, ObjInv s ∧ Linked s id -> ¬ Unlinks s id o ->
        ObjInv (s.exec o) ∧ Linked (s.exec o) id := by
      intro s o hs hnot
      exact ⟨hs.left.exec o, hs.right.exec hs.left hnot⟩
    have hkept := Meets.invariant hstep ⟨objInv_run hi first, hid⟩ hmeets
    rw [hops, run_append]
    exact hkept.right

/-- All is reached along a run exactly when all that is unlinked is empty. -/
theorem meets_iff_allReached {start : Vfs} (hi : ObjInv start)
    (hapart : RootsApart start) (hall : AllReached start)
    (ops : List VfsOp) :
    Meets exec UnlinksEmpty start ops <->
      forall first, first <+: ops -> AllReached (run exec start first) := by
  have hstep : forall s o, ObjInv s ∧ RootsApart s ∧ AllReached s ->
      (UnlinksEmpty s o <-> ObjInv (s.exec o) ∧ RootsApart (s.exec o) ∧
        AllReached (s.exec o)) := by
    intro s o hs
    rcases hs with ⟨hi, hapart, hall⟩
    rw [and_iff_right (hi.exec o), and_iff_right (hapart.exec hi o)]
    exact hall.exec_iff hi hapart o
  rw [meets_iff_always hstep ⟨hi, hapart, hall⟩]
  refine forall_congr' fun first => imp_congr_right fun _ => ?_
  have hkept : ObjInv (run exec start first) ∧
      RootsApart (run exec start first) :=
    Meets.invariant (P := fun s => ObjInv s ∧ RootsApart s)
      (fun _ o hs _ => ⟨hs.left.exec o, hs.right.exec hs.left o⟩)
      ⟨hi, hapart⟩ (meets_true exec start first)
  rw [and_iff_right hkept.left, and_iff_right hkept.right]

/-!
# Refusing to unlink
-/

/--
Where the entry to be removed is for an inode with entries, the call fails and
no directory changes.
-/
def Refuses (v : Vfs) (victim : Option Dirent) (done : Int × Vfs) : Prop :=
  forall de, de ∈ victim -> (v.inode de.inode).entries ≠ [] ->
    done.1 = -1 ∧
      forall id, (done.2.inode id).entries = (v.inode id).entries

/-- The entry of a directory that `ramfs_unlink` removes. -/
def nameEntry (v : Vfs) (dir : Nat) (name : CStr) : Option Dirent :=
  (v.inode dir).entries.find? (fun de => strncmpEq de.name name nameMax)

theorem Removes.refuses_iff {w : Vfs} {dir : Nat} {victim : Dirent}
    {done : Int × Vfs} (hsame : forall id,
      (w.inode id).entries = (v.inode id).entries)
    (h : Removes w done.2 dir victim) :
    Refuses v (some victim) done <->
      (v.inode victim.inode).entries = [] := by
  constructor
  · intro hrefuses
    by_contra hfull
    have hdir := (hrefuses victim rfl hfull).right dir
    rcases h.split with ⟨before, after, hold, hnew⟩
    rw [← hsame, hold, hnew] at hdir
    have hlength := congrArg List.length hdir
    simp at hlength
  · intro hempty de hde hfull
    cases hde
    exact absurd hempty hfull

theorem vfsUnlink_refuses_iff (hi : ObjInv v) (path : CStr) :
    Refuses v ((v.unlinkTarget path).map Prod.snd) (v.vfsUnlink path) <->
      UnlinksEmpty v (VfsOp.unlink path) := by
  have hcases := vfsUnlink_cases hi path
  show _ <-> forall target, target ∈ v.unlinkTarget path ->
    (v.inode target.2.inode).entries = []
  generalize v.unlinkTarget path = found at hcases ⊢
  cases found with
  | none =>
      refine iff_of_true ?_ ?_
      · intro de hde
        cases hde
      · intro target ht
        cases ht
  | some target =>
      rcases hcases with ⟨w, hkeeps, _, hremoves⟩
      refine (hremoves.refuses_iff hkeeps.entries).trans ?_
      constructor
      · intro hempty target' ht
        cases ht
        exact hempty
      · intro hempty
        exact hempty target rfl

theorem ramfsRmdir_refuses_iff (hi : ObjInv v) (dir : Nat) (name : CStr) :
    Refuses v (v.nameEntry dir name) (v.ramfsRmdir dir name) <->
      forall de, de ∈ v.nameEntry dir name ->
        (v.inode de.inode).entries = [] := by
  have hcases := ramfsUnlink_cases hi dir name
  unfold nameEntry ramfsRmdir
  cases hfind : (v.inode dir).entries.find?
      (fun de => strncmpEq de.name name nameMax) with
  | none =>
      refine iff_of_true ?_ ?_
      · intro de hde
        cases hde
      · intro de hde
        cases hde
  | some victim =>
      rw [hfind] at hcases
      refine (hcases.right.refuses_iff (fun _ => rfl)).trans ?_
      constructor
      · intro hempty de hde
        cases hde
        exact hempty
      · intro hempty
        exact hempty victim rfl

/-!
# A mounted ramfs
-/

theorem not_linked_freshMount (fails : Nat -> Bool) (target : CStr)
    (flags : UInt32) (id : Nat) :
    ¬ Linked (freshMount fails target flags) id := by
  intro hid
  rcases hid with ⟨dir, de, hde, _⟩
  have hentries : ((freshMount fails target flags).inode dir).entries =
      [] := by
    rcases vfsMount_cases (objInv_boot fails) target ramfsType.name flags with
      hkeeps | hdiscards | hplants
    · exact hkeeps.entries dir
    · exact hdiscards.entries_all (objInv_boot fails) dir
    · exact hplants.entries dir
  rw [hentries] at hde
  cases hde

/--
No subtree is lost in a run exactly when all that is unlinked is empty, and
neither `vfs_unlink` nor `ramfs_rmdir` refuses anything else.
-/
theorem subtrees_kept_iff (fails : Nat -> Bool) (target : CStr)
    (flags : UInt32) (ops : List VfsOp) :
    (Meets exec UnlinksEmpty (freshMount fails target flags) ops <->
      forall first, first <+: ops ->
        NothingLost (freshMount fails target flags) first) ∧
    (forall path,
      Refuses (run exec (freshMount fails target flags) ops)
          (((run exec (freshMount fails target flags) ops).unlinkTarget
            path).map Prod.snd)
          ((run exec (freshMount fails target flags) ops).vfsUnlink path) <->
        UnlinksEmpty (run exec (freshMount fails target flags) ops)
          (VfsOp.unlink path)) ∧
    forall dir name,
      Refuses (run exec (freshMount fails target flags) ops)
          ((run exec (freshMount fails target flags) ops).nameEntry dir name)
          ((run exec (freshMount fails target flags) ops).ramfsRmdir dir
            name) <->
        forall de,
          de ∈ (run exec (freshMount fails target flags) ops).nameEntry dir
            name ->
          ((run exec (freshMount fails target flags) ops).inode
            de.inode).entries = [] := by
  have hi := objInv_freshMount fails target flags
  have hnone := not_linked_freshMount fails target flags
  generalize freshMount fails target flags = start at hi hnone ⊢
  have hapart : RootsApart start := fun id _ => hnone id
  have hall : AllReached start := fun id hid => absurd hid (hnone id)
  have hend := objInv_run hi ops
  refine ⟨?_, fun path => vfsUnlink_refuses_iff hend path,
    fun dir name => ramfsRmdir_refuses_iff hend dir name⟩
  rw [meets_iff_allReached hi hapart hall]
  exact forall_congr' fun first => imp_congr_right fun _ =>
    (nothingLost_iff hi first).symm

/-- A directory is removed while there is another one in it. -/
def unlinkFull : List VfsOp :=
  [VfsOp.mkdir (cstr "/a") 0o755, VfsOp.mkdir (cstr "/a/b") 0o755,
    VfsOp.unlink (cstr "/a")]

theorem unlink_loses_subtree :
    ((run exec plainMount (unlinkFull.take 2)).vfsUnlink (cstr "/a")).1 = 0 ∧
      ¬ NothingLost plainMount unlinkFull := by
  refine ⟨by decide +kernel, ?_⟩
  intro hlost
  have hreached : Reached (run exec plainMount unlinkFull) 7 := by
    apply hlost (unlinkFull.take 2) (unlinkFull.drop 2) 7 rfl
    · have hentries : ((run exec plainMount (unlinkFull.take 2)).inode
          4).entries = [⟨cstr "b", 7⟩] := by decide +kernel
      refine ⟨4, ⟨cstr "b", 7⟩, ?_, rfl⟩
      rw [hentries]
      exact List.mem_singleton_self _
    · refine ⟨?_, trivial⟩
      intro hunlinks
      rcases hunlinks with ⟨target, htarget, hinode⟩
      have hfound : (run exec plainMount (unlinkFull.take 2)).unlinkTarget
          (cstr "/a") = some (1, ⟨cstr "a", 4⟩) := by decide +kernel
      have hsame := hfound.symm.trans htarget
      cases hsame
      cases hinode
  have hroots : ((run exec plainMount unlinkFull).mountList.map
      Mountpoint.root) = [1] := by decide +kernel
  have hempty : ((run exec plainMount unlinkFull).inode 1).entries = [] := by
    decide +kernel
  rcases hreached with ⟨root, ⟨mnt, hmnt, hroot⟩, hpath⟩
  have hmem := List.mem_map_of_mem (f := Mountpoint.root) hmnt
  rw [hroots, hroot] at hmem
  rw [List.mem_singleton.mp hmem] at hpath
  rcases hpath.cases_head with heq | ⟨id, ⟨de, hde, _⟩, _⟩
  · cases heq
  · rw [hempty] at hde
    cases hde

end Vfs
end Fs
end EarlnuxOS
