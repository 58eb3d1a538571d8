import EarlnuxOS.Fs.Accesses
import EarlnuxOS.Fs.Failures
import EarlnuxOS.Fs.Requests

/-!
# The flags of an open

`ramfs_fs_open` looks at `O_CREAT`, `O_TRUNC` and `O_APPEND` only, and
`vfs_write` at none of the flags: `O_EXCL`, `O_DIRECTORY` and the access mode
are stored and forgotten.
-/

namespace EarlnuxOS
namespace Fs

open Foundation

def oRdonly : UInt32 := 0

def oExcl : UInt32 := 0x80

def oDirectory : UInt32 := 0x10000

/-- The bits of the access mode, `O_WRONLY` and `O_RDWR`. -/
def accMode : UInt32 := 3

namespace Vfs

variable {v v' : Vfs}

/-!
# What the flags ask for
-/

def TargetIsDir (v : Vfs) (mnt : Mountpoint) (path : CStr) : Prop :=
  exists node, v.resolve mnt.root path = some node ∧
    sIsdir (v.inode node).mode = true

structure MayOpen (v : Vfs) (mnt : Mountpoint) (path : CStr)
    (flags : UInt32) : Prop where
  found : v.resolve mnt.root path ≠ none ∨
    flags &&& oCreat ≠ 0 ∧ v.parentDir mnt path ≠ none
  exclusive : ¬ (flags &&& oCreat ≠ 0 ∧ flags &&& oExcl ≠ 0 ∧
    v.resolve mnt.root path ≠ none)
  directory : flags &&& oDirectory ≠ 0 -> v.TargetIsDir mnt path
  readOnly : v.TargetIsDir mnt path ->
    flags &&& accMode = oRdonly ∧ flags &&& oTrunc = 0

/-- It does exactly then; where it fails, the tree stays as it was. -/
structure OpenOk (v : Vfs) (mnt : Mountpoint) (path : CStr) (flags : UInt32)
    (mode : UInt16) (file : Nat) : Prop where
  succeeds : (v.ramfsFsOpen mnt path flags mode file).1 = 0 <->
    v.MayOpen mnt path flags
  fails : (v.ramfsFsOpen mnt path flags mode file).1 ≠ 0 ->
    SameVisible v (v.ramfsFsOpen mnt path flags mode file).2

/--
What is there is opened in a way that its type and the flags allow; what is to
be created gets its memory, unless it had to be a directory.
-/
def OpenSound (v : Vfs) (mnt : Mountpoint) (path : CStr) (flags : UInt32) :
    Prop :=
  match v.resolve mnt.root path with
  | some node =>
      ¬ (flags &&& oCreat ≠ 0 ∧ flags &&& oExcl ≠ 0) ∧
        (flags &&& oDirectory ≠ 0 -> sIsdir (v.inode node).mode = true) ∧
        (sIsdir (v.inode node).mode = true ->
          flags &&& accMode = oRdonly ∧ flags &&& oTrunc = 0)
  | none =>
      flags &&& oCreat ≠ 0 -> v.parentDir mnt path ≠ none ->
        (v.hasMemory 3 = true <-> flags &&& oDirectory = 0)

/-!
# When an open succeeds
-/

theorem ramfsCreate_isSome (v : Vfs) (dir : Nat) (name : CStr)
    (mode : UInt16) :
    (v.ramfsCreate dir name mode).1 ≠ none <-> v.hasMemory 3 = true := by
  constructor
  · intro hsome
    rcases Option.ne_none_iff_exists'.mp hsome with ⟨id, hid⟩
    exact hasMemory_of_created hid
  · intro hmemory
    rw [ramfsCreate_given hmemory]
    exact Option.some_ne_none _

theorem findOrCreate_isSome (v : Vfs) (mnt : Mountpoint) (path : CStr)
    (flags : UInt32) (mode : UInt16) :
    (v.findOrCreate mnt path flags mode).1 ≠ none <->
      v.resolve mnt.root path ≠ none ∨
        flags &&& oCreat ≠ 0 ∧ v.parentDir mnt path ≠ none ∧
          v.hasMemory 3 = true := by
  unfold findOrCreate
  rcases v.getInode_eq mnt.root path with ⟨w, hw, hsame⟩
  rw [hw]
  cases hres : v.resolve mnt.root path with
  | some node => simp
  | none =>
      dsimp only
      by_cases hcreat : flags &&& oCreat = 0
      · rw [if_pos hcreat]
        simp [hcreat]
      rw [if_neg hcreat]
      rcases w.getInode_eq mnt.root (pathDirname path pathMax) with
        ⟨u, hu, hsame'⟩
      have htrans := hsame'.trans hsame
      have hparent := parentDir_congr (sameDirs_noRefs hsame) mnt path
      have hmode : forall dir, (u.inode dir).mode = (w.inode dir).mode :=
        fun dir => (sameDirs_noRefs hsame').mode dir
      rw [hu, ← hparent, ← hasMemory_congr htrans]
      unfold parentDir
      cases hdir : w.resolve mnt.root (pathDirname path pathMax) with
      | none => simp
      | some dir =>
          dsimp only
          rw [hmode]
          by_cases hisdir : sIsdir (w.inode dir).mode = true
          · rw [if_neg (not_not.mpr hisdir), ramfsCreate_isSome]
            simp [hcreat, hisdir]
          · rw [if_pos hisdir]
            simp [hisdir]

theorem ramfsFsOpen_zero (v : Vfs) (mnt : Mountpoint) (path : CStr)
    (flags : UInt32) (mode : UInt16) (file : Nat) :
    (v.ramfsFsOpen mnt path flags mode file).1 = 0 <->
      (v.findOrCreate mnt path flags mode).1 ≠ none := by
  unfold ramfsFsOpen
  cases v.findOrCreate mnt path flags mode with
  | mk found w =>
      cases found with
      | none =>
          refine iff_of_false (fun h => ?_) (fun h => h rfl)
          have hneg : (-1 : Int) = 0 := h
          cases hneg
      | some node => exact iff_of_true rfl (Option.some_ne_none _)

theorem ramfsFsOpen_neg {mnt : Mountpoint} {path : CStr} {flags : UInt32}
    {mode : UInt16} {file : Nat}
    (h : (v.ramfsFsOpen mnt path flags mode file).1 ≠ 0) :
    (v.ramfsFsOpen mnt path flags mode file).1 < 0 := by
  unfold ramfsFsOpen at h ⊢
  cases hfound : v.findOrCreate mnt path flags mode with
  | mk found w =>
      rw [hfound] at h
      cases found with
      | none =>
          show (-1 : Int) < 0
          decide
      | some node => exact absurd rfl h

/-- The decision table, for a path that leads somewhere and for one that does not. -/
theorem openSound_iff (v : Vfs) (mnt : Mountpoint) (path : CStr)
    (flags : UInt32) (mode : UInt16) :
    ((v.findOrCreate mnt path flags mode).1 ≠ none <->
      v.MayOpen mnt path flags) <-> v.OpenSound mnt path flags := by
  rw [findOrCreate_isSome]
  unfold OpenSound
  cases hres : v.resolve mnt.root path with
  | some node =>
      have hdir : v.TargetIsDir mnt path <->
          sIsdir (v.inode node).mode = true := by
        unfold TargetIsDir
        simp [hres]
      rw [iff_true_left (Or.inl (Option.some_ne_none node))]
      constructor
      · rintro ⟨_, hexcl, hdirectory, hread⟩
        rw [hres] at hexcl
        rw [hdir] at hdirectory hread
        exact ⟨fun h => hexcl ⟨h.left, h.right, Option.some_ne_none node⟩,
          hdirectory, hread⟩
      · rintro ⟨hexcl, hdirectory, hread⟩
        rw [← hdir] at hdirectory hread
        refine ⟨?_, fun h => hexcl ⟨h.left, h.right.left⟩, hdirectory, hread⟩
        rw [hres]
        exact Or.inl (Option.some_ne_none node)
  | none =>
      have hnot : ¬ v.TargetIsDir mnt path := by
        unfold TargetIsDir
        simp [hres]
      have hmay : v.MayOpen mnt path flags <->
          flags &&& oCreat ≠ 0 ∧ v.parentDir mnt path ≠ none ∧
            flags &&& oDirectory = 0 := by
        constructor
        · rintro ⟨hfound, _, hdirectory, _⟩
          have hnew := hfound.resolve_left (not_not.mpr hres)
          refine ⟨hnew.left, hnew.right, ?_⟩
          by_contra hasked
          exact hnot (hdirectory hasked)
        · rintro ⟨hcreat, hparent, hdirectory⟩
          refine ⟨Or.inr ⟨hcreat, hparent⟩, fun h => h.right.right hres, ?_,
            fun h => absurd h hnot⟩
          exact fun h => absurd hdirectory h
      rw [hmay]
      simp only [ne_eq, not_true_eq_false, false_or]
      tauto

theorem openOk_iff (h : HandedOut v) (mnt : Mountpoint) (path : CStr)
    (flags : UInt32) (mode : UInt16) (file : Nat) :
    OpenOk v mnt path flags mode file <-> v.OpenSound mnt path flags := by
  rw [← openSound_iff v mnt path flags mode]
  constructor
  · intro hok
    rw [← ramfsFsOpen_zero v mnt path flags mode file]
    exact hok.succeeds
  · intro hiff
    refine ⟨(ramfsFsOpen_zero v mnt path flags mode file).trans hiff,
      fun hfail => ?_⟩
    exact ramfsFsOpen_failed h (ramfsFsOpen_neg hfail)

/-!
# Writing through a descriptor
-/

/-- A call that stays in its buffers and does not close the descriptor. -/
def LeavesOpen (fd : Int) (v : Vfs) (o : VfsOp) : Prop :=
  AccessSound v o ∧ o ≠ VfsOp.close fd

/--
Whatever is called while the descriptor is open, a write through it changes the
contents and the size of no file.
-/
def WritesNothing (v : Vfs) (fd : Int) : Prop :=
  forall ops buf, Meets exec (LeavesOpen fd) v (ops ++ [VfsOp.write fd buf]) ->
    forall id, ((run exec v (ops ++ [VfsOp.write fd buf])).inode id).bytes =
      ((run exec v ops).inode id).bytes

/-- The file has no buffer, and memory has run out for good. -/
def Starved (v : Vfs) (fd : Int) : Prop :=
  forall file, file ∈ v.fdFile fd ->
    (v.inode (v.file file).inode).capacity = 0 ∧
      forall i, v.calls ≤ i -> v.fails i = true

theorem exec_write {fd : Int} {file : Nat} (hfd : v.fdFile fd = some file)
    (hops : (v.file file).ops = some ramfsFileOps) (buf : CStr) :
    v.exec (VfsOp.write fd buf) = (v.ramfsFileWrite file buf).2 := by
  show (v.vfsWrite fd buf).2 = _
  unfold vfsWrite hasOp
  rw [hfd]
  dsimp only
  rw [hops]
  rfl

theorem size_replaceData (v : Vfs) (id : Nat) (newCap : UInt64) (copy j : Nat) :
    ((v.replaceData id newCap copy).2.inode j).size = (v.inode j).size := by
  have hset : forall (w : Vfs) (nb : Buffer), w.inodes = v.inodes ->
      ((w.setData id nb newCap).inode j).size = (v.inode j).size := by
    intro w nb hw
    have hinode : forall i, w.inode i = v.inode i := by
      intro i
      unfold inode
      rw [hw]
    unfold setData
    rw [inode_modifyInode]
    split
    · rename_i hj
      rw [hj.left, ← hinode]
    · rw [hinode]
  unfold replaceData kmalloc
  split
  · rename_i hcall
    split at hcall <;> cases hcall
    rfl
  · rename_i hcall
    split at hcall <;> cases hcall
    dsimp only
    split
    · exact hset _ _ rfl
    · exact hset _ _ rfl

/-- A write that gets its memory makes the file as long as it reaches. -/
theorem size_write {file : Nat} {buf : CStr}
    (hnode : v.inodes (v.file file).inode ≠ none)
    (hgiven : ¬ WriteRefused v file buf)
    (hless : (v.inode (v.file file).inode).size <
      (v.file file).pos + (UInt32.ofNat buf.length).toUInt64) :
    ((v.ramfsFileWrite file buf).2.inode (v.file file).inode).size =
      (v.file file).pos + (UInt32.ofNat buf.length).toUInt64 := by
  have hkeeps := keeps_growData v (v.file file).inode
    ((v.file file).pos + (UInt32.ofNat buf.length).toUInt64)
  have hsize : ((v.growData (v.file file).inode ((v.file file).pos +
      (UInt32.ofNat buf.length).toUInt64)).2.inode
        (v.file file).inode).size = (v.inode (v.file file).inode).size := by
    unfold growData
    dsimp only
    split
    · exact size_replaceData v _ _ _ _
    · rfl
  have hgrow := growData_given hgiven
  unfold ramfsFileWrite
  dsimp only
  split
  · rename_i hfst
    rw [hfst] at hgrow
    cases hgrow
  · rename_i w hfst
    rw [hfst] at hkeeps hsize
    generalize hset : Vfs.setFile _ file _ = u
    have hinodes : u.inodes = w.inodes := by
      rw [← hset]
      rfl
    have hsame : (u.inode (v.file file).inode).size =
        (v.inode (v.file file).inode).size := by
      rw [← hsize]
      unfold inode
      rw [hinodes]
    have hsome : (u.inodes (v.file file).inode).isSome := by
      rw [hinodes]
      exact Option.isSome_iff_ne_none.mpr ((hkeeps.known _).mpr hnode)
    rw [inode_modifyInode, if_pos ⟨rfl, hsome⟩]
    dsimp only
    rw [hsame, if_pos hless]

theorem ramfsFileWrite_room {file : Nat} {buf : CStr} {newEnd : UInt64}
    (hend : (v.file file).pos + (UInt32.ofNat buf.length).toUInt64 = newEnd)
    (hroom : ¬ (v.inode (v.file file).inode).capacity < newEnd) :
    (v.ramfsFileWrite file buf).2 =
      ((v.touch ((v.inode (v.file file).inode).data.getD (Buffer.zeroed 0))
          (v.file file).pos.toNat buf.length).setFile file
        { v.file file with pos := newEnd }).modifyInode (v.file file).inode
          (fun node => node.written (v.file file).pos.toNat buf newEnd) := by
  unfold ramfsFileWrite growData
  dsimp only
  rw [hend, if_neg hroom]
  rfl

theorem inode_write_room {file : Nat} {buf : CStr} {newEnd : UInt64}
    (hnode : v.inodes (v.file file).inode ≠ none)
    (hend : (v.file file).pos + (UInt32.ofNat buf.length).toUInt64 = newEnd)
    (hroom : ¬ (v.inode (v.file file).inode).capacity < newEnd) (j : Nat) :
    (v.ramfsFileWrite file buf).2.inode j =
      if j = (v.file file).inode then
        (v.inode j).written (v.file file).pos.toNat buf newEnd
      else v.inode j := by
  rw [ramfsFileWrite_room hend hroom, inode_modifyInode]
  by_cases hj : j = (v.file file).inode
  · rw [if_pos hj, if_pos ⟨hj, Option.isSome_iff_ne_none.mpr hnode⟩, hj]
    rfl
  · rw [if_neg hj, if_neg fun h => hj h.left]
    rfl

/-!
# No memory is left
-/

/-- Nothing is stored by a write of no bytes at the end of the file. -/
theorem written_nil {node : Inode} {pos : UInt64} (hsize : node.size = pos) :
    (node.written pos.toNat [] pos).bytes = node.bytes := by
  have hlen : (node.written pos.toNat [] pos).size = node.size := by
    unfold Inode.written
    dsimp only
    rw [if_neg]
    rw [hsize]
    exact UInt64.lt_irrefl pos
  have hbyte : (node.written pos.toNat [] pos).byte = node.byte := by
    funext i
    unfold Inode.written Inode.byte
    cases node.data with
    | none => rfl
    | some data =>
        show (data.put pos.toNat []).byte i = data.byte i
        unfold Buffer.put
        dsimp only
        split <;> rfl
  unfold Inode.bytes
  rw [hlen, hbyte]

/-- An open file without a buffer, and no memory for one. -/
structure Drained (v : Vfs) (fd : Int) (file id : Nat) : Prop where
  inv : StoreInv v
  slot : v.fdFile fd = some file
  node : (v.file file).inode = id
  capacity : (v.inode id).capacity = 0
  fails : forall i, v.calls ≤ i -> v.fails i = true

variable {fd : Int} {file id : Nat}

theorem fdFile_congr (h : v'.fdTable = v.fdTable) (fd : Int) :
    v'.fdFile fd = v.fdFile fd := by
  unfold fdFile
  rw [h]

namespace Drained

theorem file_lt (h : Drained v fd file id) : file < v.nextId :=
  (h.inv.objects.file_lt _ file (fdFile_some h.slot)).left

theorem next (h : Drained v fd file id) {o : VfsOp} (hsound : AccessSound v o)
    (hslot : (v.exec o).fdFile fd = some file)
    (hnode : ((v.exec o).file file).inode = (v.file file).inode)
    (hcapacity : ((v.exec o).inode id).capacity = 0) :
    Drained (v.exec o) fd file id where
  inv := h.inv.exec hsound
  slot := hslot
  node := hnode.trans h.node
  capacity := hcapacity
  fails := by
    intro i hi
    have hasks := v.asks_exec o
    rw [hasks.fails]
    exact h.fails i (Nat.le_trans hasks.calls hi)

theorem sameStore (h : Drained v fd file id) {o : VfsOp}
    (hsound : AccessSound v o) (hsame : SameStore v (v.exec o)) :
    Drained (v.exec o) fd file id := by
  apply h.next hsound
  · rw [fdFile_congr hsame.fdTable]
    exact h.slot
  · rw [hsame.file file h.file_lt]
  · have hstore := congrArg (fun s => s.2.2) (hsame.store id)
    exact hstore.trans h.capacity

theorem setPos (h : Drained v fd file id) {o : VfsOp} (hsound : AccessSound v o)
    {other : Nat} {pos : UInt64}
    (hexec : v.exec o = v.setFile other { v.file other with pos := pos }) :
    Drained (v.exec o) fd file id := by
  apply h.next hsound
  · rw [hexec]
    exact h.slot
  · rw [hexec, file_setFile]
    split
    · rename_i hsame
      rw [hsame]
    · rfl
  · rw [hexec]
    exact h.capacity

theorem unchanged (h : Drained v fd file id) {o : VfsOp}
    (hexec : v.exec o = v) : Drained (v.exec o) fd file id := by
  rw [hexec]
  exact h

theorem opens (h : Drained v fd file id) (path : CStr) (flags : UInt32)
    (mode : UInt16) :
    Drained (v.exec (VfsOp.openFile path flags mode)) fd file id := by
  rcases vfsOpen_reopens h.inv.objects path flags mode with
    ⟨_, hsame⟩ | ⟨fd', node, _, hopened, _⟩
  · exact h.sameStore trivial hsame
  · apply h.next (o := VfsOp.openFile path flags mode) trivial
    · have hslot := h.slot
      unfold fdFile at hslot ⊢
      split at hslot
      · cases hslot
      · rename_i hbound
        have hother : fd.toNat ≠ fd' := by
          intro heq
          rw [heq, hopened.slot] at hslot
          cases hslot
        rw [if_neg hbound]
        show (v.vfsOpen path flags mode).2.fdTable fd.toNat = some file
        rw [hopened.fdTable, Function.update_of_ne hother]
        exact hslot
    · show ((v.vfsOpen path flags mode).2.file file).inode = _
      rw [hopened.others file h.file_lt]
    · have hstore := congrArg (fun s => s.2.2) (hopened.store id)
      refine Eq.trans hstore ?_
      split
      · rfl
      · exact h.capacity

theorem closes (h : Drained v fd file id) {fd' : Int} (hne : fd' ≠ fd) :
    Drained (v.exec (VfsOp.close fd')) fd file id := by
  have hcases := v.vfsClose_cases fd'
  cases hfd' : v.fdFile fd' with
  | none =>
      rw [hfd'] at hcases
      exact h.unchanged hcases
  | some other =>
      rw [hfd'] at hcases
      have hexec : v.exec (VfsOp.close fd') = v.release fd'.toNat other :=
        hcases
      apply h.next (o := VfsOp.close fd') trivial
      · have hslot := h.slot
        have hother : fd.toNat ≠ fd'.toNat := fun heq =>
          hne (fdFile_inj h.slot hfd' heq).symm
        rw [hexec]
        unfold fdFile at hslot ⊢
        split at hslot
        · cases hslot
        · rename_i hbound
          rw [if_neg hbound]
          show Function.update v.fdTable fd'.toNat none fd.toNat = some file
          rw [Function.update_of_ne hother]
          exact hslot
      · rw [hexec]
        rfl
      · rw [hexec]
        exact h.capacity

theorem reads (h : Drained v fd file id) (fd' : Int) (len : UInt32) :
    Drained (v.exec (VfsOp.read fd' len)) fd file id := by
  cases hfd' : v.fdFile fd' with
  | none =>
      apply h.unchanged
      show (v.vfsRead fd' len).2.2 = v
      unfold vfsRead
      rw [hfd']
  | some other =>
      have hexec : v.exec (VfsOp.read fd' len) =
          (v.ramfsFileRead other len).2.2 := by
        show (v.vfsRead fd' len).2.2 = _
        unfold vfsRead hasOp
        rw [hfd']
        dsimp only
        rw [h.inv.descriptors.ops _ other (fdFile_some hfd')]
        rfl
      rcases ramfsFileRead_cases h.inv other len with
        ⟨_, hread⟩ | ⟨_, n, _, hread⟩
      · apply h.unchanged
        rw [hexec, hread]
      · apply h.setPos (o := VfsOp.read fd' len) trivial
        rw [hexec, hread]

theorem seeks (h : Drained v fd file id) {fd' : Int} {offset : Int64}
    {whence : Int} (hsound : AccessSound v (VfsOp.seek fd' offset whence)) :
    Drained (v.exec (VfsOp.seek fd' offset whence)) fd file id := by
  cases hfd' : v.fdFile fd' with
  | none =>
      apply h.unchanged
      show (v.vfsSeek fd' offset whence).2 = v
      unfold vfsSeek
      rw [hfd']
  | some other =>
      have hexec : (v.vfsSeek fd' offset whence).2 = v ∨
          exists pos, (v.vfsSeek fd' offset whence).2 =
            v.setFile other { v.file other with pos := pos } := by
        unfold vfsSeek
        rw [hfd']
        dsimp only
        split
        · exact Or.inr ⟨_, rfl⟩
        split
        · exact Or.inr ⟨_, rfl⟩
        split
        · exact Or.inl rfl
        · exact Or.inl rfl
      rcases hexec with hexec | ⟨pos, hexec⟩
      · exact h.unchanged hexec
      · exact h.setPos hsound hexec

theorem writes (h : Drained v fd file id) {fd' : Int} {buf : CStr}
    (hsound : AccessSound v (VfsOp.write fd' buf)) :
    Drained (v.exec (VfsOp.write fd' buf)) fd file id := by
  cases hfd' : v.fdFile fd' with
  | none =>
      apply h.unchanged
      show (v.vfsWrite fd' buf).2 = v
      unfold vfsWrite
      rw [hfd']
  | some other =>
      have hslot := fdFile_some hfd'
      have hexec := exec_write hfd' (h.inv.descriptors.ops _ other hslot) buf
      by_cases hroom : (v.inode (v.file other).inode).capacity <
          (v.file other).pos + (UInt32.ofNat buf.length).toUInt64
      · rw [ramfsFileWrite_refused ⟨hroom, h.fails _ (Nat.le_refl _)⟩] at hexec
        apply h.next hsound
        · rw [hexec]
          exact h.slot
        · rw [hexec]
          rfl
        · rw [hexec]
          exact h.capacity
      · have hinode := inode_write_room
          (h.inv.descriptors.known _ other hslot) rfl hroom id
        rw [← hexec] at hinode
        rw [ramfsFileWrite_room rfl hroom] at hexec
        apply h.next hsound
        · rw [hexec]
          exact h.slot
        · rw [hexec, file_modifyInode, file_setFile]
          split
          · rename_i hsame
            rw [hsame]
          · rfl
        · rw [hinode]
          split
          · exact h.capacity
          · exact h.capacity

theorem step (h : Drained v fd file id) {o : VfsOp}
    (hleaves : LeavesOpen fd v o) : Drained (v.exec o) fd file id := by
  rcases hleaves with ⟨hsound, hopen⟩
  cases o with
  | openFile path flags mode => exact h.opens path flags mode
  | close fd' => exact h.closes fun heq => hopen (by rw [heq])
  | read fd' len => exact h.reads fd' len
  | write fd' buf => exact h.writes hsound
  | seek fd' offset whence => exact h.seeks hsound
  | mkdir path mode =>
      exact h.sameStore trivial
        (sameStore_vfsMkdir h.inv.objects.unknown_next path mode)
  | unlink path => exact h.sameStore trivial (sameStore_vfsUnlink v path)

theorem write_keeps (h : Drained v fd file id) {buf : CStr}
    (hlen : buf.length < 2 ^ 32) (j : Nat) :
    ((v.exec (VfsOp.write fd buf)).inode j).bytes = (v.inode j).bytes := by
  have hslot := fdFile_some h.slot
  rw [exec_write h.slot (h.inv.descriptors.ops _ file hslot) buf]
  have hend := toNat_end (h.inv.descriptors.pos _ file hslot) hlen
  by_cases hroom : (v.inode (v.file file).inode).capacity <
      (v.file file).pos + (UInt32.ofNat buf.length).toUInt64
  · rw [ramfsFileWrite_refused ⟨hroom, h.fails _ (Nat.le_refl _)⟩]
    rfl
  · rw [inode_write_room (h.inv.descriptors.known _ file hslot) rfl hroom]
    have hcap : (v.inode (v.file file).inode).capacity.toNat = 0 := by
      rw [h.node, h.capacity]
      rfl
    rw [UInt64.lt_iff_toNat_lt, hend, hcap] at hroom
    have hnil : buf = [] := List.eq_nil_of_length_eq_zero (by omega)
    have hsize : (v.inode (v.file file).inode).size = (v.file file).pos := by
      have hle := (h.inv.stores (v.file file).inode).size_le
      exact UInt64.toNat_inj.mp (by omega)
    subst hnil
    have hstart : (v.file file).pos +
        (UInt32.ofNat ([] : CStr).length).toUInt64 = (v.file file).pos :=
      UInt64.add_zero _
    rw [hstart]
    split
    · rename_i hj
      rw [hj]
      exact written_nil hsize
    · rfl

end Drained

/-!
# A write that is seen
-/

/-- Writes that are refused only count the calls of the allocator. -/
theorem run_refused (hfd : v.fdFile fd = some file)
    (hops : (v.file file).ops = some ramfsFileOps) {buf : CStr}
    (hlen : (v.file file).pos.toNat + buf.length < 2 ^ 31)
    (hmore : (v.inode (v.file file).inode).capacity <
      (v.file file).pos + (UInt32.ofNat buf.length).toUInt64) {n : Nat}
    (hfails : forall k, k < n -> v.fails (v.calls + k) = true) :
    Meets exec (LeavesOpen fd) v (List.replicate n (VfsOp.write fd buf)) ∧
      Foundation.run exec v (List.replicate n (VfsOp.write fd buf)) =
        { v with calls := v.calls + n } := by
  induction n generalizing v with
  | zero => exact ⟨trivial, rfl⟩
  | succ n ih =>
      have hsound : LeavesOpen fd v (VfsOp.write fd buf) := by
        refine ⟨⟨by omega, ?_⟩, fun h => by cases h⟩
        intro other hother _ _
        rw [hfd, Option.mem_some_iff] at hother
        rw [← hother]
        exact hlen
      have hfirst : v.exec (VfsOp.write fd buf) = v.refused := by
        rw [exec_write hfd hops,
          ramfsFileWrite_refused ⟨hmore, hfails 0 (Nat.succ_pos n)⟩]
      have hrest : forall k, k < n -> v.refused.fails (v.refused.calls + k) =
          true := by
        intro k hk
        have hnext := hfails (k + 1) (Nat.succ_lt_succ hk)
        rw [Nat.add_comm k, ← Nat.add_assoc] at hnext
        exact hnext
      rcases ih (v := v.refused) hfd hops hlen hmore hrest with
        ⟨hmeets, hrefused⟩
      rw [List.replicate_succ, run_cons, hfirst, hrefused, meets_cons, hfirst]
      refine ⟨⟨hsound, hmeets⟩, ?_⟩
      unfold refused
      rw [Nat.add_comm n, ← Nat.add_assoc]

theorem byte_write_room (h : StoreInv v) (hfd : v.fdFile fd = some file)
    (hroom : (v.file file).pos.toNat <
      (v.inode (v.file file).inode).capacity.toNat) (c : UInt8) :
    ((v.exec (VfsOp.write fd [c])).inode (v.file file).inode).bytes.getD
      (v.file file).pos.toNat 0 = c := by
  have hslot := fdFile_some hfd
  have hok := h.stores (v.file file).inode
  have hone : ([c] : CStr).length < 2 ^ 32 := by
    rw [List.length_singleton]
    decide
  have hend := toNat_end (h.descriptors.pos fd.toNat file hslot) hone
  rw [List.length_singleton] at hend
  have hfits : ¬ (v.inode (v.file file).inode).capacity <
      (v.file file).pos + (UInt32.ofNat ([c] : CStr).length).toUInt64 := by
    rw [UInt64.lt_iff_toNat_lt, List.length_singleton, hend]
    omega
  have hlen : ((v.file file).pos +
      (UInt32.ofNat ([c] : CStr).length).toUInt64).toNat =
      (v.file file).pos.toNat + ([c] : CStr).length := hend
  have hcap : ((v.file file).pos +
      (UInt32.ofNat ([c] : CStr).length).toUInt64).toNat ≤
      (v.inode (v.file file).inode).capacity.toNat := by
    rw [hlen, List.length_singleton]
    omega
  rw [exec_write hfd (h.descriptors.ops _ _ hslot),
    inode_write_room (h.descriptors.known _ _ hslot) rfl hfits, if_pos rfl,
    Inode.bytes_written hok hlen hcap, getD_overwrite, List.length_singleton,
    if_pos ⟨Nat.le_refl _, Nat.lt_succ_self _⟩, Nat.sub_self]
  rfl

/-- After a seek to the start, a byte other than the one there is stored. -/
theorem buffer_changes (h : StoreInv v) (hfd : v.fdFile fd = some file)
    (hbuffer : (v.inode (v.file file).inode).capacity ≠ 0) :
    ¬ WritesNothing v fd := by
  intro hnothing
  have hne : forall c : UInt8, c + 1 ≠ c := by simp
  have hseek : v.exec (VfsOp.seek fd 0 seekSet) =
      v.setFile file { v.file file with pos := 0 } := by
    show (v.vfsSeek fd 0 seekSet).2 = _
    unfold vfsSeek
    rw [hfd]
    rfl
  have hsound : LeavesOpen fd v (VfsOp.seek fd 0 seekSet) := by
    refine ⟨fun _ _ => ⟨fun _ => by decide, fun hcur => ?_⟩,
      fun h => by cases h⟩
    exact absurd hcur (by decide)
  have hinv := h.exec hsound.left
  rw [hseek] at hinv
  generalize hw : v.setFile file { v.file file with pos := 0 } = w at hinv hseek
  have hfile : w.file file = { v.file file with pos := 0 } := by
    rw [← hw, file_setFile, if_pos rfl]
  have hinode : w.inode (w.file file).inode =
      v.inode (v.file file).inode := by
    rw [hfile, ← hw]
    rfl
  have hslot : w.fdFile fd = some file := by
    rw [← hw]
    exact hfd
  have hcapacity : 0 < (v.inode (v.file file).inode).capacity.toNat :=
    Nat.pos_of_ne_zero fun hzero => hbuffer (UInt64.toNat_inj.mp hzero)
  have hroom : (w.file file).pos.toNat <
      (w.inode (w.file file).inode).capacity.toNat := by
    rw [hinode, hfile]
    exact hcapacity
  generalize hc : (w.inode (w.file file).inode).bytes.getD
    (w.file file).pos.toNat 0 = c
  have hwrite : LeavesOpen fd w (VfsOp.write fd [c + 1]) := by
    refine ⟨⟨by rw [List.length_singleton]; decide, ?_⟩, fun h => by cases h⟩
    intro other hother hmore
    rw [hslot, Option.mem_some_iff] at hother
    rw [← hother, List.length_singleton] at hmore
    omega
  have hsame := hnothing [VfsOp.seek fd 0 seekSet] [c + 1]
    ⟨hsound, by rw [hseek]; exact hwrite, trivial⟩ (w.file file).inode
  have hrun : Foundation.run exec v [VfsOp.seek fd 0 seekSet] = w := hseek
  rw [run_append, hrun, run_cons, run_nil] at hsame
  have hbyte := byte_write_room hinv hslot hroom (c + 1)
  rw [hsame, hc] at hbyte
  exact hne c hbyte.symm

theorem memory_changes (h : StoreInv v) (hfd : v.fdFile fd = some file)
    (hfull : (v.inode (v.file file).inode).capacity = 0)
    (hpos : (v.file file).pos = 0)
    (hgiven : exists n, v.fails (v.calls + n) = false) :
    ¬ WritesNothing v fd := by
  intro hnothing
  have hslot := fdFile_some hfd
  have hops := h.descriptors.ops _ _ hslot
  have hend : (v.file file).pos +
      (UInt32.ofNat ([0] : CStr).length).toUInt64 = 1 := by
    rw [hpos]
    rfl
  have hmore : (v.inode (v.file file).inode).capacity <
      (v.file file).pos + (UInt32.ofNat ([0] : CStr).length).toUInt64 := by
    rw [hend, hfull]
    decide
  have hsize : (v.inode (v.file file).inode).size = 0 := by
    have hle := (h.stores (v.file file).inode).size_le
    rw [hfull] at hle
    exact UInt64.toNat_inj.mp (Nat.le_zero.mp hle)
  have hless : (v.inode (v.file file).inode).size <
      (v.file file).pos + (UInt32.ofNat ([0] : CStr).length).toUInt64 := by
    rw [hend, hsize]
    decide
  -- the first request that is granted
  have hwhen := Nat.find_spec hgiven
  have hbefore : forall k, k < Nat.find hgiven ->
      v.fails (v.calls + k) = true := fun k hk => by
    simpa using Nat.find_min hgiven hk
  have hshort : (v.file file).pos.toNat + ([0] : CStr).length < 2 ^ 31 := by
    rw [hpos]
    decide
  rcases run_refused hfd hops hshort hmore hbefore with ⟨hmeets, hrun⟩
  generalize hw : ({ v with calls := v.calls + Nat.find hgiven } : Vfs) = w
    at hrun
  have hfile : w.file file = v.file file := by
    rw [← hw]
    rfl
  have hinode : w.inode (v.file file).inode = v.inode (v.file file).inode := by
    rw [← hw]
    rfl
  have hnode : w.inodes (w.file file).inode ≠ none := by
    rw [hfile, ← hw]
    exact h.descriptors.known _ _ hslot
  have hwslot : w.fdFile fd = some file := by
    rw [← hw]
    exact hfd
  have hwrite : LeavesOpen fd w (VfsOp.write fd [0]) := by
    refine ⟨⟨by decide, ?_⟩, fun h => by cases h⟩
    intro other hother _ _
    rw [hwslot, Option.mem_some_iff] at hother
    rw [← hother, hfile]
    exact hshort
  have hsame := hnothing
    (List.replicate (Nat.find hgiven) (VfsOp.write fd [0])) [0]
    (meets_append.mpr ⟨hmeets, by rw [hrun]; exact ⟨hwrite, trivial⟩⟩)
    (v.file file).inode
  rw [run_append, hrun, run_cons, run_nil] at hsame
  have hrefused : ¬ WriteRefused w file [0] := by
    rintro ⟨_, hfail⟩
    rw [← hw] at hfail
    rw [hwhen] at hfail
    cases hfail
  have hnew := size_write hnode hrefused (by rw [hfile, hinode]; exact hless)
  rw [exec_write hwslot (by rw [hfile]; exact hops)] at hsame
  have hlen := congrArg List.length hsame
  rw [hfile, hend] at hnew
  rw [Inode.length_bytes, Inode.length_bytes, hnew, hinode, hsize] at hlen
  exact absurd hlen (by decide)

theorem writesNothing_iff (h : StoreInv v) (hfd : v.fdFile fd = some file)
    (hpos : (v.file file).pos.toNat ≤
      (v.inode (v.file file).inode).size.toNat) :
    WritesNothing v fd <-> Starved v fd := by
  have hslot := fdFile_some hfd
  constructor
  · intro hnothing other hother
    rw [hfd, Option.mem_some_iff] at hother
    subst hother
    have hfull : (v.inode (v.file file).inode).capacity = 0 := by
      by_contra hbuffer
      exact buffer_changes h hfd hbuffer hnothing
    refine ⟨hfull, fun i hi => ?_⟩
    by_contra hgiven
    have hle := (h.stores (v.file file).inode).size_le
    rw [hfull] at hle
    have hzero : (v.file file).pos = 0 :=
      UInt64.toNat_inj.mp (Nat.le_zero.mp (Nat.le_trans hpos hle))
    refine memory_changes h hfd hfull hzero ⟨i - v.calls, ?_⟩ hnothing
    rw [Nat.add_sub_cancel' hi]
    simpa using hgiven
  · intro hstarved ops buf hmeets id
    rcases hstarved file (by rw [hfd]; exact rfl) with ⟨hcapacity, hfails⟩
    have hdrained : Drained v fd file (v.file file).inode :=
      ⟨h, hfd, rfl, hcapacity, hfails⟩
    have hrun := hmeets.front.invariant
      (P := fun w => Drained w fd file (v.file file).inode)
      (fun _ _ hw hleaves => hw.step hleaves) hdrained
    have hwrite := (meets_append.mp hmeets).right.left.left
    rw [run_append]
    exact hrun.write_keeps hwrite.left id

theorem opened_writesNothing_iff (h : StoreInv v) {path : CStr}
    {flags : UInt32} {mode : UInt16}
    (hopen : (v.vfsOpen path flags mode).1 ≠ -1) :
    WritesNothing (v.vfsOpen path flags mode).2
        (v.vfsOpen path flags mode).1 <->
      Starved (v.vfsOpen path flags mode).2
        (v.vfsOpen path flags mode).1 := by
  have hinv : StoreInv (v.vfsOpen path flags mode).2 :=
    h.exec (o := VfsOp.openFile path flags mode) trivial
  rcases vfsOpen_reopens h.objects path flags mode with
    hfail | ⟨fd, node, hfd, hopened, _⟩
  · exact absurd hfail.left hopen
  have hbound := hopened.bound
  have hslot : (v.vfsOpen path flags mode).2.fdFile
      (v.vfsOpen path flags mode).1 = some v.nextId := by
    rw [hfd]
    unfold fdFile
    rw [if_neg (by omega), hopened.fdTable, Int.toNat_natCast,
      Function.update_self]
  apply writesNothing_iff hinv hslot
  rw [hopened.opened]
  dsimp only
  split
  · exact Nat.zero_le _
  · exact Nat.le_refl _

/-!
# Opening what is there
-/

/-- The mount has an `open`, and there is memory and a descriptor for a file. -/
def OpenGranted (v : Vfs) (path : CStr) : Prop :=
  match v.findMount path with
  | none => False
  | some (mnt, _) => mnt.fs.openFile = true ∧ v.fails v.calls = false ∧
      freeSlot v.fdTable 0 fdMax ≠ none

theorem vfsOpen_opens_path (v : Vfs) (path : CStr) {flags : UInt32}
    (mode : UInt16) (hcreat : flags &&& oCreat = 0) :
    0 ≤ (v.vfsOpen path flags mode).1 <->
      v.OpenGranted path ∧ v.pathNode path ≠ none := by
  unfold OpenGranted pathNode
  cases hmount : v.findMount path with
  | none =>
      unfold vfsOpen
      rw [hmount]
      simp
  | some found =>
      rcases found with ⟨mnt, rest⟩
      by_cases hop : mnt.fs.openFile = true
      · rw [vfsOpen_eq v flags mode hmount hop]
        cases hfails : v.fails v.calls with
        | true => simp
        | false =>
            cases hslot : freeSlot v.fdTable 0 fdMax with
            | none => simp
            | some fd =>
                have hdirs : SameDirs v (v.opening flags fd) :=
                  ⟨fun _ => rfl, fun _ => rfl⟩
                have hzero := (ramfsFsOpen_zero (v.opening flags fd) mnt rest
                  flags mode v.nextId).trans
                    (findOrCreate_isSome (v.opening flags fd) mnt rest flags mode)
                rw [resolve_congr hdirs, or_iff_left fun h => h.left hcreat]
                  at hzero
                have hgranted : mnt.fs.openFile = true ∧ false = false ∧
                    some fd ≠ none := ⟨hop, rfl, Option.some_ne_none fd⟩
                dsimp only
                rw [and_iff_right hgranted, ← hzero, if_neg Bool.false_ne_true]
                split
                · rename_i hneg
                  refine iff_of_false (fun hle => ?_) fun heq => ?_
                  · have hle : (0 : Int) ≤ -1 := hle
                    cases hle
                  · rw [heq] at hneg
                    cases hneg
                · rename_i hneg
                  refine iff_of_true (Int.natCast_nonneg fd) ?_
                  by_contra hne
                  exact hneg (ramfsFsOpen_neg hne)
      · unfold vfsOpen
        rw [hmount]
        simp [hop]

end Vfs
end Fs
end EarlnuxOS
