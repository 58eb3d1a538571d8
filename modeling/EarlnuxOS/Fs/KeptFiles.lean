import EarlnuxOS.Fs.KeptPaths
import EarlnuxOS.Fs.Listing

/-!
# Files that stay

A file keeps its path and its contents through the calls that are about other
files.  What was written after a truncating open is what reads give back, one
after the other.
-/

namespace EarlnuxOS
namespace Fs
namespace Vfs

open Foundation

variable {v v' : Vfs}

/-- The path leads to the same file, and that holds what it held. -/
structure KeepsFile (v v' : Vfs) (path : CStr) : Prop where
  inv : StoreInv v'
  file : forall id, v.pathNode path = some id ->
    v'.pathNode path = some id ∧ v'.abs.content id = v.abs.content id

namespace KeepsFile

variable {path : CStr}

theorem refl (h : StoreInv v) : KeepsFile v v path :=
  ⟨h, fun _ hid => ⟨hid, rfl⟩⟩

theorem trans {w : Vfs} (h : KeepsFile v v' path) (h' : KeepsFile v' w path) :
    KeepsFile v w path where
  inv := h'.inv
  file := by
    intro id hid
    rcases h.file id hid with ⟨hmid, hcontent⟩
    rcases h'.file id hmid with ⟨hend, hcontent'⟩
    exact ⟨hend, hcontent'.trans hcontent⟩

theorem of_names (hi : ObjInv v) (h : StoreInv v') (hnames : KeepsNames v v')
    (hcontent : v'.abs.content = v.abs.content) : KeepsFile v v' path :=
  ⟨h, fun _ hid => ⟨hnames.pathNode hi hid, by rw [hcontent]⟩⟩

theorem fileAt (h : KeepsFile v v' path) {content : CStr}
    (hold : v.fileAt path = some content) : v'.fileAt path = some content := by
  unfold Vfs.fileAt at hold ⊢
  rcases Option.map_eq_some_iff.mp hold with ⟨id, hid, hcontent⟩
  rcases h.file id hid with ⟨hid', hcontent'⟩
  rw [hid', Option.map_some, hcontent', hcontent]

end KeepsFile

theorem pathNode_known (hi : ObjInv v) {path : CStr} {id : Nat}
    (h : v.pathNode path = some id) : v.inodes id ≠ none := by
  unfold pathNode at h
  cases hmount : v.findMount path with
  | none =>
      rw [hmount] at h
      cases h
  | some found =>
      rw [hmount] at h
      exact (getInode_spec hi (hi.root found.1 (findMount_mem hmount)) h).left

/-!
# Opening and closing
-/

theorem sameDirs_opened (hi : ObjInv v) {path : CStr} {flags : UInt32}
    (hcreat : flags &&& oCreat = 0) {mode : UInt16}
    (hopened : 0 ≤ (v.vfsOpen path flags mode).1) :
    (v.vfsOpen path flags mode).2.mountList = v.mountList ∧
      SameDirs v (v.vfsOpen path flags mode).2 := by
  cases hmount : v.findMount path with
  | none =>
      unfold vfsOpen at hopened
      rw [hmount] at hopened
      exact absurd (show (0 : Int) ≤ -1 from hopened) (by decide)
  | some found =>
      rcases found with ⟨mnt, rest⟩
      rcases vfsOpen_node hi hmount rfl hopened with
        ⟨_, _, _, hmounts, ⟨_, hsame⟩ | ⟨hnone, _⟩⟩
      · exact ⟨hmounts, hsame⟩
      · have hfound := ((vfsOpen_opens_path v path mode hcreat).mp hopened).right
        unfold pathNode at hfound
        rw [hmount] at hfound
        exact absurd hnone hfound

theorem keepsNames_opened (hi : ObjInv v) (path : CStr) {flags : UInt32}
    (hcreat : flags &&& oCreat = 0) (mode : UInt16) :
    KeepsNames v (v.vfsOpen path flags mode).2 := by
  rcases vfsOpen_reopens hi path flags mode with
    ⟨hfail, _⟩ | ⟨fd, node, hfd, hopen, _⟩
  · exact KeepsNames.of_sameVisible (vfsOpen_failed hi.handedOut hfail)
  · have hopened : 0 ≤ (v.vfsOpen path flags mode).1 := by
      rw [hfd]
      exact Int.natCast_nonneg fd
    have hdirs := sameDirs_opened hi hcreat hopened
    exact
      { mountList := hdirs.left
        known := hopen.known
        mode := fun dir _ => hdirs.right.mode dir
        lookup := fun dir name id _ hid =>
          (lookup_congr (hdirs.right.entries dir) name).trans hid }

theorem content_opened (hi : ObjInv v) (path : CStr) {flags : UInt32}
    (htrunc : flags &&& oTrunc = 0) (mode : UInt16) :
    (v.vfsOpen path flags mode).2.abs.content = v.abs.content := by
  rcases vfsOpen_reopens hi path flags mode with
    ⟨_, hsame⟩ | ⟨fd, node, _, hopen, _⟩
  · rw [abs_sameStore hi hsame]
  · rw [(abs_reopens hi hopen).right]
    show Function.update v.abs.content node (v.abs.opened node flags) = _
    unfold RefFs.opened
    rw [if_pos htrunc, Function.update_eq_self]

theorem keepsFile_opened (h : StoreInv v) (path target : CStr) (flags : UInt32)
    (mode : UInt16) (hnames : flags &&& oCreat = 0 ∨ v.Plain target)
    (htrunc : flags &&& oTrunc = 0) :
    KeepsFile v (v.vfsOpen target flags mode).2 path := by
  have hinv := h.exec (o := VfsOp.openFile target flags mode) trivial
  have hcontent := content_opened h.objects target htrunc mode
  rcases hnames with hcreat | hplain
  · exact KeepsFile.of_names h.objects hinv
      (keepsNames_opened h.objects target hcreat mode) hcontent
  · exact KeepsFile.of_names h.objects hinv
      (keepsNames_vfsOpen h.objects hplain flags mode) hcontent

theorem keepsFile_truncated (h : StoreInv v) {path target : CStr}
    (hplain : v.Plain target) (hother : v.pathNode target ≠ v.pathNode path)
    (flags : UInt32) (mode : UInt16) :
    KeepsFile v (v.vfsOpen target flags mode).2 path where
  inv := h.exec (o := VfsOp.openFile target flags mode) trivial
  file := by
    intro id hid
    refine ⟨(keepsNames_vfsOpen h.objects hplain flags mode).pathNode h.objects
      hid, ?_⟩
    rcases vfsOpen_reopens h.objects target flags mode with
      ⟨_, hsame⟩ | ⟨fd, node, _, hopen, hfound⟩
    · rw [abs_sameStore h.objects hsame]
    · have hne : id ≠ node := by
        intro heq
        rcases hfound with hfound | ⟨_, hnew, _⟩
        · exact hother (by rw [hfound, hid, heq])
        · exact pathNode_known h.objects hid (heq ▸ hnew)
      rw [(abs_reopens h.objects hopen).right]
      exact Function.update_of_ne hne _ _

theorem keepsFile_close (h : StoreInv v) (fd : Int) (path : CStr) :
    KeepsFile v (v.vfsClose fd).2 path := by
  have hclose := v.vfsClose_cases fd
  cases hfd : v.fdFile fd with
  | none =>
      rw [hfd] at hclose
      rw [hclose]
      exact KeepsFile.refl h
  | some file =>
      rw [hfd] at hclose
      dsimp only at hclose
      have hinv := h.close fd
      rw [hclose] at hinv ⊢
      refine ⟨hinv, fun id hid => ⟨?_, rfl⟩⟩
      rw [← hid]
      have hdirs : SameDirs v (v.release fd.toNat file) :=
        ⟨fun _ => rfl, fun _ => rfl⟩
      have hmounts : (v.release fd.toNat file).mountList = v.mountList := rfl
      exact pathNode_congr hmounts hdirs path

/-!
# Reading and listing
-/

theorem content_vfsRead (h : StoreInv v) (fd : Int) (len : UInt32) :
    (v.vfsRead fd len).2.2.abs.content = v.abs.content := by
  unfold vfsRead
  split
  · rfl
  rename_i file _
  split
  · rcases ramfsFileRead_cases h file len with ⟨_, hread⟩ | ⟨_, n, _, hread⟩
    · rw [hread]
    · rw [hread]
      rfl
  · rfl

theorem keepsFile_read (h : StoreInv v) (fd : Int) (len : UInt32)
    (path : CStr) : KeepsFile v (v.vfsRead fd len).2.2 path :=
  KeepsFile.of_names h.objects (h.read fd len)
    (KeepsNames.of_keeps (keeps_read v fd len)) (content_vfsRead h fd len)

theorem keepsFile_readdir (h : StoreInv v) {fd : Int} {dir id : Nat}
    (hlisting : Listing v fd dir id 0) (c : ReaddirCall) (path : CStr) :
    KeepsFile v (v.vfsReaddir c.mem fd c.buf c.len).2.2 path := by
  have hlt := (length_page_le v dir 0 c).trans_lt (capacity_lt c)
  have hpos := hlisting.pos
  have hmoved : ((v.file id).pos +
      UInt64.ofNat (v.page dir 0 c).length).toNat < posMax := by
    rw [UInt64.toNat_add, hpos,
      UInt64.toNat_ofNat_of_lt' (hlt.trans (by decide))]
    unfold posMax
    omega
  rw [hlisting.call]
  exact KeepsFile.of_names h.objects (h.setPos id hmoved)
    (KeepsNames.of_keeps (keeps_setFile v id rfl)) rfl

/-!
# Writing elsewhere
-/

/-- A descriptor of an inode, with room for that many bytes behind it. -/
structure Roomy (v : Vfs) (fd : Int) (node room : Nat) : Prop where
  inv : StoreInv v
  desc : exists pos, v.abs.descOf fd = some (node, pos) ∧ pos + room < 2 ^ 31

theorem Roomy.write {fd : Int} {node room : Nat} {buf : CStr}
    (h : Roomy v fd node (buf.length + room)) :
    Roomy (v.vfsWrite fd buf).2 fd node room ∧
      forall id, id ≠ node ->
        (v.vfsWrite fd buf).2.abs.content id = v.abs.content id := by
  rcases h.desc with ⟨pos, hdesc, hroom⟩
  rcases descOf_some hdesc with ⟨file, hfile, _, hpos⟩
  have hpositioned : Positioned v (VfsOp.write fd buf) := by
    refine ⟨by omega, ?_⟩
    intro file' hfile'
    rw [hfile, Option.mem_some] at hfile'
    rw [← hfile', hpos]
    omega
  have hinv := h.inv.exec hpositioned.accessSound
  have hstep := step_write h.inv fd buf hpositioned
  unfold RefFs.Step event at hstep
  dsimp only at hstep
  rw [hdesc] at hstep
  change (_ ∧ _ ∧ (v.vfsWrite fd buf).2.abs = _) ∨
    _ ∧ (v.vfsWrite fd buf).2.abs = _ at hstep
  rcases hstep with ⟨_, _, habs⟩ | ⟨_, habs⟩
  · rw [← habs] at hdesc
    refine ⟨⟨hinv, pos, hdesc, by omega⟩, fun id _ => ?_⟩
    rw [habs]
  · refine ⟨⟨hinv, pos + buf.length, ?_, by omega⟩, fun id hne => ?_⟩
    · rw [habs]
      unfold RefFs.descOf at hdesc ⊢
      split at hdesc
      · cases hdesc
      · rename_i hbound
        rw [if_neg hbound]
        exact Function.update_self _ _ _
    · rw [habs]
      exact Function.update_of_ne hne _ _

theorem roomy_opened (h : StoreInv v) {path : CStr} {flags : UInt32}
    {mode : UInt16} (happend : flags &&& oAppend = 0) {room : Nat}
    (hroom : room < 2 ^ 31) (hopened : 0 ≤ (v.vfsOpen path flags mode).1) :
    exists node, Roomy (v.vfsOpen path flags mode).2
        (v.vfsOpen path flags mode).1 node room ∧
      (v.pathNode path = some node ∨ v.inodes node = none) := by
  rcases vfsOpen_reopens h.objects path flags mode with
    ⟨hfail, _⟩ | ⟨fd, node, hfd, hopen, hfound⟩
  · omega
  · have hbound := hopen.bound
    refine ⟨node, ⟨h.exec (o := VfsOp.openFile path flags mode) trivial, 0, ?_,
      by omega⟩, hfound.imp_right fun hnew => hnew.right.left⟩
    rw [hfd, (abs_reopens h.objects hopen).right]
    unfold RefFs.descOf RefFs.reopen RefFs.setDesc
    rw [if_neg (by omega), if_pos happend]
    exact Function.update_self _ _ _

theorem keepsFile_write {path : CStr} {fd : Int} {node room : Nat} {buf : CStr}
    (h : Roomy v fd node (buf.length + room))
    (hother : v.pathNode path ≠ some node) :
    KeepsFile v (v.vfsWrite fd buf).2 path := by
  have hkeeps := keeps_write v fd buf
  have hnode := pathNode_congr hkeeps.mountList hkeeps.sameDirs path
  refine ⟨h.write.left.inv, fun id hid => ⟨hnode.trans hid, ?_⟩⟩
  exact h.write.right id fun heq => hother (heq ▸ hid)

/-!
# Creating and removing
-/

theorem keepsFile_mkdir (h : StoreInv v) (path : CStr) {target : CStr}
    (hplain : v.Plain target) (mode : UInt16) (hnone : v.pathNode target = none) :
    KeepsFile v (v.vfsMkdir target mode).2 path := by
  have habs := abs_sameStore h.objects
    (sameStore_vfsMkdir h.objects.unknown_next target mode)
  exact KeepsFile.of_names h.objects
    (h.exec (o := VfsOp.mkdir target mode) trivial)
    (keepsNames_vfsMkdir h.objects hplain mode hnone) (by rw [habs])

theorem keepsFile_unlink (h : StoreInv v) {path target : CStr}
    (hoff : forall id dir victim, v.pathNode path = some id ->
      v.unlinkTarget target = some (dir, victim) ->
      ¬ v.Above victim.inode id) :
    KeepsFile v (v.vfsUnlink target).2 path := by
  refine ⟨h.exec (o := VfsOp.unlink target) trivial, fun id hid => ⟨?_, ?_⟩⟩
  · exact pathNode_vfsUnlink h.objects hid
      fun dir victim => hoff id dir victim hid
  · rw [abs_sameStore h.objects (sameStore_vfsUnlink v target)]

/-!
# Writing anew
-/

/-- An open that truncates: nothing is in front of what will be written. -/
theorem writing_truncated (h : StoreInv v) {path : CStr} (hplain : v.Plain path)
    (flags : UInt32) (mode : UInt16) (htrunc : flags &&& oTrunc ≠ 0)
    (happend : flags &&& oAppend = 0)
    (hopened : 0 ≤ (v.vfsOpen path flags mode).1) :
    Writing (v.vfsOpen path flags mode).2 path (v.vfsOpen path flags mode).1
      [] [] := by
  rcases vfsOpen_reopens h.objects path flags mode with
    ⟨hfail, _⟩ | ⟨slot, node, hresult, hopen, _⟩
  · omega
  · have hbound := hopen.bound
    have habs := (abs_reopens h.objects hopen).right
    refine ⟨h.exec (o := VfsOp.openFile path flags mode) trivial, node,
      pathNode_opened h.objects hplain hresult hopen, ?_, ?_⟩
    · rw [hresult, habs]
      unfold RefFs.descOf RefFs.reopen RefFs.setDesc
      rw [if_neg (by omega), if_pos happend]
      exact Function.update_self _ _ _
    · rw [habs]
      unfold RefFs.reopen RefFs.setContent RefFs.setDesc RefFs.opened
      rw [if_neg htrunc]
      exact Function.update_self _ _ _

/-!
# Reading to the end
-/

structure Reading (v : Vfs) (fd : Int) (content : CStr) (pos : Nat) : Prop where
  inv : StoreInv v
  desc : exists id, v.abs.descOf fd = some (id, pos) ∧ v.abs.content id = content

theorem reading_opened (h : StoreInv v) {path content : CStr} {flags : UInt32}
    {mode : UInt16} (htrunc : flags &&& oTrunc = 0)
    (happend : flags &&& oAppend = 0)
    (hopened : 0 ≤ (v.vfsOpen path flags mode).1)
    (hcontent : v.fileAt path = some content) :
    Reading (v.vfsOpen path flags mode).2 (v.vfsOpen path flags mode).1
      content 0 := by
  unfold fileAt at hcontent
  rcases Option.map_eq_some_iff.mp hcontent with ⟨id, hid, hbytes⟩
  rcases vfsOpen_reopens h.objects path flags mode with
    ⟨hfail, _⟩ | ⟨fd, node, hfd, hopen, hfound⟩
  · omega
  · have hnode : node = id := by
      rcases hfound with hfound | ⟨hnone, _⟩
      · rw [hid] at hfound
        exact (Option.some.inj hfound).symm
      · rw [hid] at hnone
        cases hnone
    rcases hopen.front h.objects htrunc happend with ⟨hdesc, hkept⟩
    refine ⟨h.exec (o := VfsOp.openFile path flags mode) trivial, node, ?_, ?_⟩
    · rw [hfd]
      exact hdesc
    · rw [hkept, hnode]
      exact hbytes

theorem Reading.read {fd : Int} {content : CStr} {pos : Nat}
    (h : Reading v fd content pos) {len : UInt32}
    (hlen : pos + len.toNat < 2 ^ 31) :
    (v.vfsRead fd len).2.1 = slice content pos len.toNat ∧
      (v.vfsRead fd len).1 = (slice content pos len.toNat).length ∧
      Reading (v.vfsRead fd len).2.2 fd content
        (pos + (slice content pos len.toNat).length) := by
  rcases h.desc with ⟨id, hdesc, hcontent⟩
  rcases descOf_some hdesc with ⟨file, hfile, _, hpos⟩
  have hstep := step_read h.inv fd len (by
    intro file' hfile'
    rw [hfile, Option.mem_some] at hfile'
    rw [← hfile', hpos]
    exact hlen)
  unfold RefFs.Step event at hstep
  dsimp only at hstep
  rw [hdesc] at hstep
  dsimp only at hstep
  rw [hcontent] at hstep
  rcases hstep with ⟨hbytes, hresult, habs⟩
  rw [hbytes] at hresult habs
  change (v.vfsRead fd len).2.2.abs = _ at habs
  refine ⟨hbytes, hresult, h.inv.read fd len, id, ?_, ?_⟩
  · rw [habs]
    unfold RefFs.descOf at hdesc ⊢
    split at hdesc
    · cases hdesc
    · rename_i hbound
      rw [if_neg hbound]
      exact Function.update_self _ _ _
  · rw [habs]
    exact hcontent

end Vfs
end Fs
end EarlnuxOS
