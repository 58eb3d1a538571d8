import EarlnuxOS.Fs.Accesses

/-!
# Files as byte arrays

A reference file system in which a file is a sequence of bytes and a descriptor
a file with a position.  Each call on a ramfs is a step of it.
-/

namespace EarlnuxOS
namespace Fs

open Foundation

/-- The contents of each file, and the file and position of each descriptor. -/
@[ext] structure RefFs where
  content : Nat -> CStr
  desc : Nat -> Option (Nat × Nat)

namespace RefFs

def empty : RefFs where
  content := fun _ => []
  desc := fun _ => none

def descOf (r : RefFs) (fd : Int) : Option (Nat × Nat) :=
  if fd < 0 ∨ fdMax ≤ fd then none else r.desc fd.toNat

def setDesc (r : RefFs) (fd : Int) (id pos : Nat) : RefFs :=
  { r with desc := Function.update r.desc fd.toNat (some (id, pos)) }

def setContent (r : RefFs) (id : Nat) (bytes : CStr) : RefFs :=
  { r with content := Function.update r.content id bytes }

def close (r : RefFs) (fd : Int) : RefFs :=
  { r with desc := Function.update r.desc fd.toNat none }

def opened (r : RefFs) (id : Nat) (flags : UInt32) : CStr :=
  if flags &&& oTrunc = 0 then r.content id else []

theorem setDesc_self {r : RefFs} {fd : Int} {id pos : Nat}
    (h : r.desc fd.toNat = some (id, pos)) : r.setDesc fd id pos = r := by
  unfold setDesc
  rw [← h, Function.update_eq_self]

def reopen (r : RefFs) (fd : Int) (id : Nat) (flags : UInt32) : RefFs :=
  (r.setContent id (r.opened id flags)).setDesc fd id
    (if flags &&& oAppend = 0 then 0 else (r.opened id flags).length)

end RefFs

/-- A call, what its path leads to, whether memory is short, and its results. -/
structure Event where
  op : VfsOp
  found : Option Nat
  noMemory : Bool
  result : Int
  bytes : CStr

def RefFs.Step (r : RefFs) (e : Event) (r' : RefFs) : Prop :=
  match e.op with
  | VfsOp.write fd buf =>
      match r.descOf fd with
      | none => e.result = -1 ∧ r' = r
      | some (id, pos) =>
          (e.result = -1 ∧ e.noMemory = true ∧ r' = r) ∨
          (e.result = buf.length ∧
            r' = (r.setContent id (overwrite 0 (r.content id) pos buf)).setDesc
              fd id (pos + buf.length))
  | VfsOp.read fd len =>
      match r.descOf fd with
      | none => e.result = -1 ∧ e.bytes = [] ∧ r' = r
      | some (id, pos) =>
          e.bytes = slice (r.content id) pos len.toNat ∧
          e.result = e.bytes.length ∧
          r' = r.setDesc fd id (pos + e.bytes.length)
  | VfsOp.seek fd offset whence =>
      match r.descOf fd with
      | none => e.result = -1 ∧ r' = r
      | some (id, pos) =>
          if whence = Vfs.seekSet then
            e.result = offset.toInt ∧ r' = r.setDesc fd id offset.toInt.toNat
          else if whence = Vfs.seekCur then
            e.result = pos + offset.toInt ∧
              r' = r.setDesc fd id (pos + offset.toInt).toNat
          else
            r' = r
  | VfsOp.openFile _ flags _ =>
      (e.result = -1 ∧ r' = r) ∨
      exists fd id : Nat, e.result = fd ∧ r.desc fd = none ∧
        (e.found = some id ∨ e.found = none ∧ r.content id = []) ∧
        r' = r.reopen fd id flags
  | VfsOp.close fd =>
      match r.descOf fd with
      | none => e.result = -1 ∧ r' = r
      | some _ => e.result = 0 ∧ r' = r.close fd
  | VfsOp.mkdir _ _ => r' = r
  | VfsOp.unlink _ => r' = r

inductive RefFs.Run : RefFs -> List Event -> RefFs -> Prop where
  | nil (r : RefFs) : Run r [] r
  | cons {r r' r'' : RefFs} {e : Event} {events : List Event}
      (hstep : r.Step e r') (hrun : Run r' events r'') :
      Run r (e :: events) r''

namespace Vfs

variable {v v' : Vfs}

/-- The reference that a state of the file system stands for. -/
def abs (v : Vfs) : RefFs where
  content := fun id => (v.inode id).bytes
  desc := fun fd => (v.fdTable fd).map
    (fun file => ((v.file file).inode, (v.file file).pos.toNat))

def event (v : Vfs) (o : VfsOp) : Event where
  op := o
  found :=
    match o with
    | VfsOp.openFile path _ _ => v.pathNode path
    | _ => none
  noMemory := v.fails v.calls
  result :=
    match o with
    | VfsOp.openFile path flags mode => (v.vfsOpen path flags mode).1
    | VfsOp.close fd => (v.vfsClose fd).1
    | VfsOp.read fd len => (v.vfsRead fd len).1
    | VfsOp.write fd buf => (v.vfsWrite fd buf).1
    | VfsOp.seek fd offset whence => (v.vfsSeek fd offset whence).1.toInt
    | VfsOp.mkdir path mode => (v.vfsMkdir path mode).1
    | VfsOp.unlink path => (v.vfsUnlink path).1
  bytes :=
    match o with
    | VfsOp.read fd len => (v.vfsRead fd len).2.1
    | _ => []

def events (v : Vfs) : List VfsOp -> List Event
  | [] => []
  | o :: ops => v.event o :: (v.exec o).events ops

/--
Positions are not negative and stay below 2 GB where something is read or
written, and nothing is removed while it is open.
-/
def Positioned (v : Vfs) : VfsOp -> Prop
  | VfsOp.write fd buf => buf.length < 2 ^ 32 ∧
      forall file, file ∈ v.fdFile fd ->
        (v.file file).pos.toNat + buf.length < 2 ^ 31
  | VfsOp.read fd len => forall file, file ∈ v.fdFile fd ->
      (v.file file).pos.toNat + len.toNat < 2 ^ 31
  | VfsOp.seek fd offset whence => AccessSound v (VfsOp.seek fd offset whence)
  | VfsOp.unlink path => forall target, target ∈ v.unlinkTarget path ->
      ¬ Opened v target.2.inode
  | _ => True

theorem Positioned.accessSound {o : VfsOp} (h : Positioned v o) :
    AccessSound v o := by
  cases o with
  | write fd buf => exact ⟨h.left, fun file hfile _ _ => h.right file hfile⟩
  | seek fd offset whence => exact h
  | openFile path flags mode => exact trivial
  | close fd => exact trivial
  | read fd len => exact trivial
  | mkdir path mode => exact trivial
  | unlink path => exact trivial

/-!
# Seeing states as references
-/

theorem abs_sameStore (hi : ObjInv v) (h : SameStore v v') :
    v'.abs = v.abs := by
  ext1
  · funext id
    exact (store_congr (h.store id)).left
  · funext fd
    show (v'.fdTable fd).map _ = (v.fdTable fd).map _
    rw [h.fdTable]
    cases hfd : v.fdTable fd with
    | none => rfl
    | some file =>
        rw [Option.map_some, Option.map_some, h.file file (hi.file_lt fd file hfd).left]

theorem desc_move {fd file : Nat} (h : DescOk v)
    (hfd : v.fdTable fd = some file) (htable : v'.fdTable = v.fdTable)
    (hinode : (v'.file file).inode = (v.file file).inode)
    (hothers : forall j, j ≠ file -> v'.file j = v.file j) :
    v'.abs.desc = Function.update v.abs.desc fd
      (some ((v.file file).inode, (v'.file file).pos.toNat)) := by
  funext fd'
  show (v'.fdTable fd').map _ = _
  rw [htable, Function.update_apply]
  split
  · rename_i heq
    rw [heq, hfd, ← hinode]
    rfl
  · rename_i hne
    show _ = (v.fdTable fd').map _
    cases hfd' : v.fdTable fd' with
    | none => rfl
    | some file' =>
        have hne' : file' ≠ file := by
          intro heq
          rw [heq] at hfd'
          exact hne (h.alone fd' fd file hfd' hfd)
        rw [Option.map_some, Option.map_some, hothers file' hne']

theorem abs_setPos {fd : Int} {file : Nat} (h : DescOk v)
    (hfd : v.fdFile fd = some file) {f : File} {pos : Nat}
    (hinode : f.inode = (v.file file).inode) (hpos : f.pos.toNat = pos) :
    (v.setFile file f).abs = v.abs.setDesc fd (v.file file).inode pos := by
  have hfile := file_setFile v file
  ext1
  · rfl
  · have hnew := (hfile file f).trans (if_pos rfl)
    have htable : (v.setFile file f).fdTable = v.fdTable := rfl
    have hmove := desc_move h (fdFile_some hfd) htable
      (by rw [hnew, hinode]) (fun j hj => (hfile j f).trans (if_neg hj))
    rw [hmove, hnew, hpos]
    rfl

theorem descOf_abs (v : Vfs) (fd : Int) :
    v.abs.descOf fd = (v.fdFile fd).map
      (fun file => ((v.file file).inode, (v.file file).pos.toNat)) := by
  unfold RefFs.descOf fdFile
  split <;> rfl

theorem abs_reopens (hi : ObjInv v) {fd node : Nat} {flags : UInt32}
    (h : Reopens v v' fd node flags) :
    v.abs.desc fd = none ∧ v'.abs = v.abs.reopen fd node flags := by
  have hopened : v.abs.opened node flags = (v'.inode node).bytes := by
    have hstore := h.store node
    unfold RefFs.opened
    split
    · rename_i hflag
      rw [if_neg (fun hc => hc.right hflag)] at hstore
      exact (store_congr hstore).left.symm
    · rename_i hflag
      rw [if_pos ⟨rfl, hflag⟩] at hstore
      exact (store_congr (m := Inode.blank) hstore).left.symm
  constructor
  · show (v.fdTable fd).map _ = none
    rw [h.slot]
    rfl
  · ext1
    · funext id
      show (v'.inode id).bytes = Function.update v.abs.content node _ id
      rw [Function.update_apply, hopened]
      split
      · rename_i hid
        rw [hid]
      · rename_i hid
        have hstore := h.store id
        rw [if_neg (fun hc => hid hc.left)] at hstore
        exact (store_congr hstore).left
    · funext fd'
      show (v'.fdTable fd').map _ = Function.update v.abs.desc fd _ fd'
      rw [h.fdTable, Function.update_apply, Function.update_apply]
      split
      · rw [Option.map_some, h.opened, hopened, Inode.length_bytes]
        dsimp only
        split <;> rfl
      · show _ = (v.fdTable fd').map _
        cases hfd : v.fdTable fd' with
        | none => rfl
        | some file =>
            rw [Option.map_some, Option.map_some,
              h.others file (hi.file_lt fd' file hfd).left]

theorem abs_writes (h : DescOk v) {fd : Int} {file : Nat} {buf : CStr}
    (hfd : v.fdFile fd = some file) (hlen : buf.length < 2 ^ 32)
    (hwrites : Writes v v' file buf) :
    v'.abs = (v.abs.setContent (v.file file).inode
      (overwrite 0 (v.inode (v.file file).inode).bytes
        (v.file file).pos.toNat buf)).setDesc fd (v.file file).inode
          ((v.file file).pos.toNat + buf.length) := by
  have hslot := fdFile_some hfd
  have hend := toNat_end (h.pos _ file hslot) hlen
  ext1
  · funext id
    show (v'.inode id).bytes =
      Function.update v.abs.content (v.file file).inode _ id
    rw [Function.update_apply]
    split
    · rename_i hid
      rw [hid]
      exact hwrites.bytes
    · rename_i hid
      rw [hwrites.inode id hid]
      rfl
  · rw [desc_move h hslot hwrites.fdTable (by rw [hwrites.written])
      hwrites.others, hwrites.written, hend]
    rfl

theorem abs_release (v : Vfs) (fd : Int) (file : Nat) :
    (v.release fd.toNat file).abs = v.abs.close fd := by
  ext1
  · rfl
  · funext fd'
    show (Function.update v.fdTable fd.toNat none fd').map _ =
      Function.update v.abs.desc fd.toNat none fd'
    rw [Function.update_apply, Function.update_apply]
    split <;> rfl

/-!
# Each call is a step
-/

theorem hasOp_open (h : DescOk v) {fd : Int} {file : Nat}
    (hfd : v.fdFile fd = some file) (op : FileOps -> Bool)
    (hop : op ramfsFileOps = true) : v.hasOp file op = true := by
  unfold hasOp
  rw [h.ops _ file (fdFile_some hfd)]
  exact hop

theorem toInt_of_lt {n : UInt32} (h : n.toNat < 2 ^ 31) :
    toInt n = n.toNat := by
  have hcond := BitVec.toInt_eq_toNat_cond n.toBitVec
  show n.toBitVec.toInt = _
  rw [hcond]
  show (if 2 * n.toNat < 2 ^ 32 then (n.toNat : Int) else _) = _
  rw [if_pos (by omega)]

theorem step_write (h : StoreInv v) (fd : Int) (buf : CStr)
    (hpos : Positioned v (VfsOp.write fd buf)) :
    v.abs.Step (v.event (VfsOp.write fd buf))
      (v.exec (VfsOp.write fd buf)).abs := by
  unfold RefFs.Step event exec vfsWrite
  dsimp only
  rw [descOf_abs]
  cases hfd : v.fdFile fd with
  | none => exact ⟨rfl, rfl⟩
  | some file =>
      have hsound := hpos.accessSound
      dsimp only [Option.map_some]
      rw [if_pos (hasOp_open h.descriptors hfd FileOps.write rfl)]
      rcases ramfsFileWrite_cases h (fdFile_some hfd) hsound.left
        (hsound.right file hfd) with ⟨hfail, hmemory⟩ | ⟨hresult, hwrites⟩
      · left
        rw [hfail]
        refine ⟨rfl, hmemory, ?_⟩
        exact abs_sameStore h.objects
          (SameStore.of_eq rfl rfl rfl rfl (Nat.le_refl _))
      · right
        have hcount : (UInt32.ofNat buf.length).toNat = buf.length :=
          UInt32.toNat_ofNat_of_lt' hpos.left
        have hlt := hpos.right file hfd
        rw [hresult, toInt_of_lt (by omega), hcount]
        exact ⟨rfl, abs_writes h.descriptors hfd hpos.left hwrites⟩

theorem step_read (h : StoreInv v) (fd : Int) (len : UInt32)
    (hpos : Positioned v (VfsOp.read fd len)) :
    v.abs.Step (v.event (VfsOp.read fd len))
      (v.exec (VfsOp.read fd len)).abs := by
  unfold RefFs.Step event exec vfsRead
  dsimp only
  rw [descOf_abs]
  cases hfd : v.fdFile fd with
  | none => exact ⟨rfl, rfl, rfl⟩
  | some file =>
      have hlt := hpos file hfd
      have hdesc := h.descriptors
      dsimp only [Option.map_some]
      rw [if_pos (hasOp_open hdesc hfd FileOps.read rfl)]
      show _ = slice (v.inode (v.file file).inode).bytes _ _ ∧ _
      rcases ramfsFileRead_cases h file len with
        ⟨hend, hread⟩ | ⟨hin, n, hn, hread⟩
      · rw [hread]
        have hempty : slice (v.inode (v.file file).inode).bytes
            (v.file file).pos.toNat len.toNat = [] := by
          unfold slice
          rw [List.drop_of_length_le (by
            rw [Inode.length_bytes]
            exact hend), List.take_nil]
        refine ⟨hempty.symm, rfl, (RefFs.setDesc_self ?_).symm⟩
        show (v.fdTable fd.toNat).map _ = _
        rw [fdFile_some hfd]
        rfl
      · have hbytes : slice (v.inode (v.file file).inode).bytes
            (v.file file).pos.toNat len.toNat =
              (List.range n.toNat).map (fun i =>
                (v.inode (v.file file).inode).byte
                  ((v.file file).pos.toNat + i)) := by
          rw [slice_min, Inode.length_bytes, ← hn]
          exact Inode.slice_bytes _ _ _ (by omega)
        rw [hread]
        refine ⟨hbytes.symm, ?_, ?_⟩
        · rw [List.length_map, List.length_range]
          exact toInt_of_lt (by omega)
        · rw [List.length_map, List.length_range]
          refine abs_setPos (f := { v.file file with
            pos := (v.file file).pos + n.toUInt64 }) hdesc hfd rfl ?_
          have hpos63 := hdesc.pos _ file (fdFile_some hfd)
          unfold posMax at hpos63
          show ((v.file file).pos + n.toUInt64).toNat = _
          rw [UInt64.toNat_add, UInt32.toNat_toUInt64]
          omega

theorem step_seek (h : StoreInv v) (fd : Int) (offset : Int64) (whence : Int)
    (hpos : Positioned v (VfsOp.seek fd offset whence)) :
    v.abs.Step (v.event (VfsOp.seek fd offset whence))
      (v.exec (VfsOp.seek fd offset whence)).abs := by
  unfold RefFs.Step event exec vfsSeek
  dsimp only
  rw [descOf_abs]
  cases hfd : v.fdFile fd with
  | none => exact ⟨rfl, rfl⟩
  | some file =>
      have hfile := hpos file hfd
      dsimp only [Option.map_some]
      split
      · rename_i hset
        have hnew := toNat_seekSet (hfile.left hset)
        refine ⟨rfl, abs_setPos h.descriptors hfd rfl ?_⟩
        show offset.toUInt64.toNat = _
        omega
      split
      · rename_i hcur
        have hrange := hfile.right hcur
        have hnew := toNat_seekCur hrange.left hrange.right
        refine ⟨?_, abs_setPos h.descriptors hfd rfl ?_⟩
        · rw [toInt_eq, UInt64.toUInt64_toInt64, if_pos hnew.left, hnew.right]
        · show ((v.file file).pos + offset.toUInt64).toNat = _
          omega
      · split <;> rfl

theorem step_close (fd : Int) :
    v.abs.Step (v.event (VfsOp.close fd)) (v.exec (VfsOp.close fd)).abs := by
  have hcases := v.vfsClose_cases fd
  unfold RefFs.Step event
  dsimp only
  rw [descOf_abs]
  cases hfd : v.fdFile fd with
  | none =>
      rw [hfd] at hcases
      dsimp only [Option.map_none]
      refine ⟨?_, congrArg abs hcases⟩
      unfold vfsClose
      rw [hfd]
  | some file =>
      rw [hfd] at hcases
      dsimp only [Option.map_some]
      refine ⟨?_, (congrArg abs hcases).trans (v.abs_release fd file)⟩
      unfold vfsClose
      rw [hfd]

theorem step_open (h : StoreInv v) (path : CStr) (flags : UInt32)
    (mode : UInt16) :
    v.abs.Step (v.event (VfsOp.openFile path flags mode))
      (v.exec (VfsOp.openFile path flags mode)).abs := by
  unfold RefFs.Step event
  dsimp only
  rcases vfsOpen_reopens h.objects path flags mode with
    ⟨hfail, hsame⟩ | ⟨fd, node, hresult, hopen, hfound⟩
  · exact Or.inl ⟨hfail, abs_sameStore h.objects hsame⟩
  · have habs := abs_reopens h.objects hopen
    refine Or.inr ⟨fd, node, hresult, habs.left, ?_, habs.right⟩
    rcases hfound with hfound | ⟨hnone, hnew, _⟩
    · exact Or.inl hfound
    · refine Or.inr ⟨hnone, ?_⟩
      show (v.inode node).bytes = []
      rw [inode_unknown hnew]
      rfl

theorem step_exec (h : StoreInv v) (o : VfsOp) (hpos : Positioned v o) :
    v.abs.Step (v.event o) (v.exec o).abs := by
  cases o with
  | openFile path flags mode => exact step_open h path flags mode
  | close fd => exact step_close fd
  | read fd len => exact step_read h fd len hpos
  | write fd buf => exact step_write h fd buf hpos
  | seek fd offset whence => exact step_seek h fd offset whence hpos
  | mkdir path mode =>
      exact abs_sameStore h.objects
        (sameStore_vfsMkdir h.objects.unknown_next path mode)
  | unlink path =>
      exact abs_sameStore h.objects (sameStore_vfsUnlink v path)

/-!
# Runs
-/

theorem run_refines (h : StoreInv v) {ops : List VfsOp}
    (hmeets : Meets exec Positioned v ops) :
    RefFs.Run v.abs (v.events ops) (run exec v ops).abs := by
  induction ops generalizing v with
  | nil => exact RefFs.Run.nil v.abs
  | cons o ops ih =>
      exact RefFs.Run.cons (step_exec h o hmeets.left)
        (ih (h.exec hmeets.left.accessSound) hmeets.right)

theorem abs_freshMount (fails : Nat -> Bool) (target : CStr)
    (flags : UInt32) : (freshMount fails target flags).abs = RefFs.empty :=
  abs_sameStore (objInv_boot fails)
    (sameStore_freshMount fails target flags)

/-- A ramfs behaves as the reference does. -/
theorem ramfs_refines (fails : Nat -> Bool) (target : CStr) (flags : UInt32)
    (ops : List VfsOp)
    (hmeets : Meets exec Positioned (freshMount fails target flags) ops) :
    RefFs.Run RefFs.empty ((freshMount fails target flags).events ops)
      (run exec (freshMount fails target flags) ops).abs := by
  rw [← abs_freshMount fails target flags]
  exact run_refines (storeInv_freshMount fails target flags) hmeets

theorem ramfs_refines_sparseFile :
    RefFs.Run RefFs.empty (plainMount.events sparseFile)
      (run exec plainMount sparseFile).abs := by
  apply ramfs_refines (fun _ => false) (cstr "/") 0 sparseFile
  refine ⟨trivial, ⟨by decide, ?_⟩, ?_, ⟨by decide, ?_⟩, ?_, ?_, trivial⟩
  · decide +kernel
  · unfold Positioned
    decide +kernel
  · decide +kernel
  · unfold Positioned
    decide +kernel
  · intro file
    revert file
    decide +kernel

end Vfs
end Fs
end EarlnuxOS
