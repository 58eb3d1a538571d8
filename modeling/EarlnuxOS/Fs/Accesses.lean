import EarlnuxOS.Fs.Namespace
import EarlnuxOS.Fs.Store

/-!
# Accesses to file contents

Every access of `ramfs_file_read` and `ramfs_file_write` stays in the buffer as
long as positions are not negative and a buffer that has to grow does not need
more than a 32-bit size can say.
-/

namespace EarlnuxOS
namespace Fs
namespace Vfs

open Foundation

variable {v v' : Vfs}

/-- The positions are signed, and a negative one is a large unsigned number. -/
def posMax : Nat := 2 ^ 63

structure DescOk (v : Vfs) : Prop where
  known : forall fd file, v.fdTable fd = some file ->
    v.inodes (v.file file).inode ≠ none
  ops : forall fd file, v.fdTable fd = some file ->
    (v.file file).ops = some ramfsFileOps
  alone : forall fd fd' file, v.fdTable fd = some file ->
    v.fdTable fd' = some file -> fd = fd'
  pos : forall fd file, v.fdTable fd = some file ->
    (v.file file).pos.toNat < posMax

structure StoreInv (v : Vfs) : Prop where
  objects : ObjInv v
  stores : forall id, (v.inode id).StoreOk
  descriptors : DescOk v
  inside : v.outside = false

/--
A write fits into the buffer, or into one that can still be asked for, or there
is no memory for it; a seek does not ask for a negative position.
-/
def AccessSound (v : Vfs) : VfsOp -> Prop
  | VfsOp.write fd buf => buf.length < 2 ^ 32 ∧
      forall file, file ∈ v.fdFile fd ->
        (v.inode (v.file file).inode).capacity.toNat <
            (v.file file).pos.toNat + buf.length ->
          v.fails v.calls = false ->
          (v.file file).pos.toNat + buf.length < 2 ^ 31
  | VfsOp.seek fd offset whence => forall file, file ∈ v.fdFile fd ->
      (whence = seekSet -> 0 ≤ offset.toInt) ∧
      (whence = seekCur ->
        0 ≤ ((v.file file).pos.toNat : Int) + offset.toInt ∧
          ((v.file file).pos.toNat : Int) + offset.toInt < posMax)
  | _ => True

instance (v : Vfs) (o : VfsOp) : Decidable (AccessSound v o) :=
  match o with
  | VfsOp.write fd buf => inferInstanceAs (Decidable (buf.length < 2 ^ 32 ∧
      forall file, file ∈ v.fdFile fd ->
        (v.inode (v.file file).inode).capacity.toNat <
            (v.file file).pos.toNat + buf.length ->
          v.fails v.calls = false ->
          (v.file file).pos.toNat + buf.length < 2 ^ 31))
  | VfsOp.seek fd offset whence => inferInstanceAs (Decidable (forall file,
      file ∈ v.fdFile fd ->
      (whence = seekSet -> 0 ≤ offset.toInt) ∧
      (whence = seekCur ->
        0 ≤ ((v.file file).pos.toNat : Int) + offset.toInt ∧
          ((v.file file).pos.toNat : Int) + offset.toInt < posMax)))
  | VfsOp.openFile _ _ _ => isTrue trivial
  | VfsOp.close _ => isTrue trivial
  | VfsOp.read _ _ => isTrue trivial
  | VfsOp.mkdir _ _ => isTrue trivial
  | VfsOp.unlink _ => isTrue trivial

/-!
# Descriptors
-/

theorem DescOk.sameStore (h : DescOk v) (hi : ObjInv v)
    (hsame : SameStore v v') : DescOk v' := by
  have hfile : forall fd file, v'.fdTable fd = some file ->
      v.fdTable fd = some file ∧ v'.file file = v.file file := by
    intro fd file hfd
    rw [hsame.fdTable] at hfd
    exact ⟨hfd, hsame.file file (hi.file_lt fd file hfd).left⟩
  constructor
  · intro fd file hfd
    have hold := hfile fd file hfd
    rw [hold.right]
    exact hsame.known _ (h.known fd file hold.left)
  · intro fd file hfd
    have hold := hfile fd file hfd
    rw [hold.right]
    exact h.ops fd file hold.left
  · intro fd fd' file hfd hfd'
    exact h.alone fd fd' file (hfile fd file hfd).left
      (hfile fd' file hfd').left
  · intro fd file hfd
    have hold := hfile fd file hfd
    rw [hold.right]
    exact h.pos fd file hold.left

theorem DescOk.move (h : DescOk v) {file : Nat}
    (hfd : v'.fdTable = v.fdTable)
    (hknown : forall j, v.inodes j ≠ none -> v'.inodes j ≠ none)
    (hothers : forall j, j ≠ file -> v'.file j = v.file j)
    (hinode : (v'.file file).inode = (v.file file).inode)
    (hops : (v'.file file).ops = (v.file file).ops)
    (hpos : (v'.file file).pos.toNat < posMax) : DescOk v' := by
  have hsame : forall j, (v'.file j).inode = (v.file j).inode ∧
      (v'.file j).ops = (v.file j).ops := by
    intro j
    by_cases hj : j = file
    · rw [hj]
      exact ⟨hinode, hops⟩
    · rw [hothers j hj]
      exact ⟨rfl, rfl⟩
  constructor
  · intro fd j hj
    rw [hfd] at hj
    rw [(hsame j).left]
    exact hknown _ (h.known fd j hj)
  · intro fd j hj
    rw [hfd] at hj
    rw [(hsame j).right]
    exact h.ops fd j hj
  · rw [hfd]
    exact h.alone
  · intro fd j hj
    rw [hfd] at hj
    by_cases heq : j = file
    · rw [heq]
      exact hpos
    · rw [hothers j heq]
      exact h.pos fd j hj

theorem DescOk.setPos (h : DescOk v) (file : Nat) {pos : UInt64}
    (hpos : pos.toNat < posMax) :
    DescOk (v.setFile file { v.file file with pos := pos }) := by
  generalize hset : v.setFile file { v.file file with pos := pos } = w
  have hfile : forall j, w.file j =
      if j = file then { v.file file with pos := pos } else v.file j := by
    intro j
    rw [← hset]
    exact file_setFile v file j _
  have hnew := (hfile file).trans (if_pos rfl)
  have hfd : w.fdTable = v.fdTable := by
    rw [← hset]
    rfl
  have hknown : forall j, v.inodes j ≠ none -> w.inodes j ≠ none := by
    intro j hj
    rw [← hset]
    exact hj
  apply h.move hfd hknown (fun j hj => (hfile j).trans (if_neg hj))
  · rw [hnew]
  · rw [hnew]
  · rw [hnew]
    exact hpos

theorem DescOk.release (h : DescOk v) (fd file : Nat) :
    DescOk (v.release fd file) := by
  have hfd : forall fd' file', (v.release fd file).fdTable fd' = some file' ->
      v.fdTable fd' = some file' := by
    intro fd' file' hfd'
    have hfd' : Function.update v.fdTable fd none fd' = some file' := hfd'
    rw [Function.update_apply] at hfd'
    split at hfd'
    · cases hfd'
    · exact hfd'
  exact ⟨fun fd' j hj => h.known fd' j (hfd fd' j hj),
    fun fd' j hj => h.ops fd' j (hfd fd' j hj),
    fun i j k hi hj => h.alone i j k (hfd i k hi) (hfd j k hj),
    fun fd' j hj => h.pos fd' j (hfd fd' j hj)⟩

theorem StoreInv.sameStore (h : StoreInv v) (hi : ObjInv v')
    (hsame : SameStore v v') : StoreInv v' where
  objects := hi
  stores := fun id => (store_congr (hsame.store id)).right.mpr (h.stores id)
  descriptors := h.descriptors.sameStore h.objects hsame
  inside := hsame.outside.trans h.inside

theorem storeOk_truncated {node : Inode}
    (h : node.store = (none, 0, 0)) : node.StoreOk :=
  (store_congr (m := Inode.blank) h).right.mpr Inode.storeOk_blank

theorem StoreInv.reopens (h : StoreInv v) (hi : ObjInv v') {fd node : Nat}
    {flags : UInt32} (hopen : Reopens v v' fd node flags) : StoreInv v' := by
  have hstores : forall id, (v'.inode id).StoreOk := by
    intro id
    have hstore := hopen.store id
    split at hstore
    · exact storeOk_truncated hstore
    · exact (store_congr hstore).right.mpr (h.stores id)
  have hfd : forall fd' file, v'.fdTable fd' = some file ->
      (fd' = fd ∧ file = v.nextId) ∨
        (v.fdTable fd' = some file ∧ file < v.nextId) := by
    intro fd' file hfd'
    rw [hopen.fdTable, Function.update_apply] at hfd'
    split at hfd'
    · rename_i heq
      cases hfd'
      exact Or.inl ⟨heq, rfl⟩
    · exact Or.inr ⟨hfd', (h.objects.file_lt fd' file hfd').left⟩
  refine ⟨hi, hstores, ?_, hopen.outside.trans h.inside⟩
  have hold := h.descriptors
  constructor
  · intro fd' file hfd'
    rcases hfd fd' file hfd' with ⟨_, heq⟩ | ⟨hfile, hlt⟩
    · rw [heq, hopen.opened]
      exact hopen.node_known
    · rw [hopen.others file hlt]
      exact hopen.known _ (hold.known fd' file hfile)
  · intro fd' file hfd'
    rcases hfd fd' file hfd' with ⟨_, heq⟩ | ⟨hfile, hlt⟩
    · rw [heq, hopen.opened]
    · rw [hopen.others file hlt]
      exact hold.ops fd' file hfile
  · intro i j file hfi hfj
    rcases hfd i file hfi with ⟨hi, heq⟩ | ⟨hfile, hlt⟩
    · rcases hfd j file hfj with ⟨hj, _⟩ | ⟨_, hlt⟩
      · rw [hi, hj]
      · omega
    · rcases hfd j file hfj with ⟨_, heq⟩ | ⟨hfile', _⟩
      · omega
      · exact hold.alone i j file hfile hfile'
  · intro fd' file hfd'
    rcases hfd fd' file hfd' with ⟨_, heq⟩ | ⟨hfile, hlt⟩
    · rw [heq, hopen.opened]
      have hok := hstores node
      have hsize := hok.size_le
      have hcap := hok.capacity_lt
      dsimp only
      unfold posMax
      split
      · decide
      · omega
    · rw [hopen.others file hlt]
      exact hold.pos fd' file hfile

/-!
# Writing
-/

structure Writes (v v' : Vfs) (file : Nat) (buf : CStr) : Prop where
  ok : (v'.inode (v.file file).inode).StoreOk
  bytes : (v'.inode (v.file file).inode).bytes =
    overwrite 0 (v.inode (v.file file).inode).bytes
      (v.file file).pos.toNat buf
  inode : forall j, j ≠ (v.file file).inode -> v'.inode j = v.inode j
  known : forall j, v.inodes j ≠ none -> v'.inodes j ≠ none
  written : v'.file file =
    { v.file file with
      pos := (v.file file).pos + (UInt32.ofNat buf.length).toUInt64 }
  others : forall j, j ≠ file -> v'.file j = v.file j
  fdTable : v'.fdTable = v.fdTable
  outside : v'.outside = v.outside

theorem toNat_end {pos : UInt64} {buf : CStr} (hpos : pos.toNat < posMax)
    (hlen : buf.length < 2 ^ 32) :
    (pos + (UInt32.ofNat buf.length).toUInt64).toNat =
      pos.toNat + buf.length := by
  have hcount : (UInt32.ofNat buf.length).toNat = buf.length :=
    UInt32.toNat_ofNat_of_lt' hlen
  unfold posMax at hpos
  rw [UInt64.toNat_add, UInt32.toNat_toUInt64, hcount]
  omega

theorem Grows.writes {w : Vfs} {file : Nat} {buf : CStr} {newEnd : UInt64}
    (h : Grows v w (v.file file).inode newEnd)
    (hnode : v.inodes (v.file file).inode ≠ none)
    (hnewEnd : (v.file file).pos + (UInt32.ofNat buf.length).toUInt64 = newEnd)
    (hend : newEnd.toNat = (v.file file).pos.toNat + buf.length) :
    Writes v
      ((w.setFile file { v.file file with pos := newEnd }).modifyInode
        (v.file file).inode
        (fun node => node.written (v.file file).pos.toNat buf newEnd))
      file buf := by
  generalize hu : w.setFile file { v.file file with pos := newEnd } = u
  have hinodes : u.inodes = w.inodes := by
    rw [← hu]
    rfl
  have hinode : forall j, u.inode j = w.inode j := by
    intro j
    unfold inode
    rw [hinodes]
  have hfile : forall j, u.file j =
      if j = file then { v.file file with pos := newEnd } else w.file j := by
    intro j
    rw [← hu]
    exact file_setFile w file j _
  have hsome : (u.inodes (v.file file).inode).isSome := by
    rw [hinodes]
    exact Option.isSome_iff_ne_none.mpr ((h.known _).mpr hnode)
  have hnew : (u.modifyInode (v.file file).inode (fun node =>
      node.written (v.file file).pos.toNat buf newEnd)).inode
        (v.file file).inode =
      (w.inode (v.file file).inode).written (v.file file).pos.toNat buf
        newEnd := by
    rw [inode_modifyInode, if_pos ⟨rfl, hsome⟩, hinode]
  constructor
  · rw [hnew]
    exact h.ok.written hend h.room
  · rw [hnew, Inode.bytes_written h.ok hend h.room, h.bytes]
  · intro j hj
    rw [inode_modifyInode, if_neg (fun hid => hj hid.left), hinode,
      h.other j hj]
  · intro j hj
    unfold modifyInode
    dsimp only
    rw [hinodes, Function.update_apply]
    have hknown := (h.known j).mpr hj
    split
    · rename_i heq
      rw [heq] at hknown
      simpa using hknown
    · exact hknown
  · rw [hnewEnd]
    exact (hfile file).trans (if_pos rfl)
  · intro j hj
    exact (hfile j).trans ((if_neg hj).trans (file_congr h.files j))
  · show u.fdTable = _
    rw [← hu]
    exact h.fdTable
  · show u.outside = _
    rw [← hu]
    exact h.outside

theorem ramfsFileWrite_cases (h : StoreInv v) {fd file : Nat} {buf : CStr}
    (hfd : v.fdTable fd = some file) (hlen : buf.length < 2 ^ 32)
    (hfits : (v.inode (v.file file).inode).capacity.toNat <
        (v.file file).pos.toNat + buf.length ->
      v.fails v.calls = false ->
      (v.file file).pos.toNat + buf.length < 2 ^ 31) :
    (v.ramfsFileWrite file buf = (-1, v.refused) ∧
      v.fails v.calls = true) ∨
    ((v.ramfsFileWrite file buf).1 = toInt (UInt32.ofNat buf.length) ∧
      Writes v (v.ramfsFileWrite file buf).2 file buf) := by
  have hnode := h.descriptors.known fd file hfd
  have hok := h.stores (v.file file).inode
  have hend := toNat_end (h.descriptors.pos fd file hfd) hlen
  unfold ramfsFileWrite
  dsimp only
  generalize hnewEnd : (v.file file).pos +
    (UInt32.ofNat buf.length).toUInt64 = newEnd at hend
  rw [← hend] at hfits
  rcases growData_cases hok hnode hfits with ⟨hgrow, hfails⟩ | ⟨hgrow, hgrows⟩
  · left
    rw [hgrow]
    exact ⟨rfl, hfails⟩
  · right
    cases hresult : v.growData (v.file file).inode newEnd with
    | mk fine w =>
        rw [hresult] at hgrow hgrows
        cases hgrow
        dsimp only at hgrows ⊢
        refine ⟨rfl, ?_⟩
        have hroom := hgrows.room
        have hlength := hgrows.ok.length
        rw [touch_inside (by omega)]
        exact hgrows.writes hnode hnewEnd hend

theorem StoreInv.writes (h : StoreInv v) (hi : ObjInv v') {fd file : Nat}
    {buf : CStr} (hfd : v.fdTable fd = some file) (hlen : buf.length < 2 ^ 32)
    (hwrites : Writes v v' file buf) : StoreInv v' where
  objects := hi
  stores := by
    intro id
    by_cases hid : id = (v.file file).inode
    · rw [hid]
      exact hwrites.ok
    · rw [hwrites.inode id hid]
      exact h.stores id
  descriptors := by
    have hsize := congrArg List.length hwrites.bytes
    rw [length_overwrite, Inode.length_bytes] at hsize
    have hle := hwrites.ok.size_le
    have hcap := hwrites.ok.capacity_lt
    have hend := toNat_end (h.descriptors.pos fd file hfd) hlen
    apply h.descriptors.move hwrites.fdTable hwrites.known hwrites.others
    · rw [hwrites.written]
    · rw [hwrites.written]
    · rw [hwrites.written, hend]
      unfold posMax
      omega
  inside := hwrites.outside.trans h.inside

/-!
# Reading
-/

theorem ramfsFileRead_cases (h : StoreInv v) (file : Nat) (count : UInt32) :
    ((v.inode (v.file file).inode).size.toNat ≤ (v.file file).pos.toNat ∧
      v.ramfsFileRead file count = (0, [], v)) ∨
    ((v.file file).pos.toNat < (v.inode (v.file file).inode).size.toNat ∧
      exists n : UInt32,
        n.toNat = min count.toNat
          ((v.inode (v.file file).inode).size.toNat -
            (v.file file).pos.toNat) ∧
        v.ramfsFileRead file count =
          (toInt n,
            (List.range n.toNat).map (fun i =>
              (v.inode (v.file file).inode).byte
                ((v.file file).pos.toNat + i)),
            v.setFile file
              { v.file file with
                pos := (v.file file).pos + n.toUInt64 })) := by
  have hok := h.stores (v.file file).inode
  unfold ramfsFileRead
  dsimp only
  generalize v.file file = f at hok ⊢
  generalize v.inode f.inode = node at hok ⊢
  have hlength := hok.length
  have hle := hok.size_le
  have hcap := hok.capacity_lt
  by_cases hend : node.size ≤ f.pos
  · left
    refine ⟨UInt64.le_iff_toNat_le.mp hend, ?_⟩
    cases node.data with
    | none => rfl
    | some data => exact if_pos hend
  · right
    have hlt : f.pos.toNat < node.size.toNat :=
      Nat.lt_of_not_le (mt UInt64.le_iff_toNat_le.mpr hend)
    have hsub := UInt64.toNat_sub_of_le node.size f.pos
      (UInt64.le_iff_toNat_le.mpr (Nat.le_of_lt hlt))
    have havail : (node.size - f.pos).toUInt32.toNat =
        node.size.toNat - f.pos.toNat := by
      rw [Inode.toNat_toUInt32 (by omega), hsub]
    refine ⟨hlt, ?_⟩
    generalize (node.size - f.pos).toUInt32 = avail at havail ⊢
    generalize hn : (if count < avail then count else avail) = n
    have hmin : n.toNat = min count.toNat (node.size.toNat - f.pos.toNat) := by
      rw [← hn, ← havail]
      split
      · rename_i hless
        have hless := UInt32.lt_iff_toNat_lt.mp hless
        omega
      · rename_i hless
        have hless := mt UInt32.lt_iff_toNat_lt.mpr hless
        omega
    refine ⟨n, hmin, ?_⟩
    cases hdata : node.data with
    | none =>
        rw [hdata] at hlength
        have hzero : node.capacity.toNat = 0 := hlength.symm
        omega
    | some data =>
        rw [hdata] at hlength
        have hlength : data.length = node.capacity.toNat := hlength
        dsimp only
        rw [if_neg hend, touch_inside (by omega)]
        unfold Inode.byte
        rw [hdata]
        rfl

theorem StoreInv.setPos (h : StoreInv v) (file : Nat) {pos : UInt64}
    (hpos : pos.toNat < posMax) :
    StoreInv (v.setFile file { v.file file with pos := pos }) where
  objects := h.objects.keeps (keeps_setFile v file rfl)
  stores := h.stores
  descriptors := h.descriptors.setPos file hpos
  inside := h.inside

theorem StoreInv.read (h : StoreInv v) (fd : Int) (len : UInt32) :
    StoreInv (v.vfsRead fd len).2.2 := by
  unfold vfsRead
  split
  · exact h
  rename_i file _
  split
  · rcases ramfsFileRead_cases h file len with ⟨_, hread⟩ | ⟨hlt, n, hn, hread⟩
    · rw [hread]
      exact h
    · rw [hread]
      have hok := h.stores (v.file file).inode
      have hle := hok.size_le
      have hcap := hok.capacity_lt
      apply h.setPos
      unfold posMax
      rw [UInt64.toNat_add, UInt32.toNat_toUInt64, hn]
      omega
  · exact h

theorem StoreInv.write (h : StoreInv v) {fd : Int} {buf : CStr}
    (hsound : AccessSound v (VfsOp.write fd buf)) :
    StoreInv (v.vfsWrite fd buf).2 := by
  have hi := h.objects.keeps (v.keeps_write fd buf)
  unfold vfsWrite at hi ⊢
  cases hfd : v.fdFile fd with
  | none => exact h
  | some file =>
      rw [hfd] at hi
      dsimp only at hi ⊢
      split at hi
      · rename_i hop
        rw [if_pos hop]
        have hslot := fdFile_some hfd
        rcases ramfsFileWrite_cases h hslot hsound.left
          (hsound.right file hfd) with ⟨hfail, _⟩ | ⟨_, hwrites⟩
        · rw [hfail] at hi ⊢
          exact h.sameStore hi
            (SameStore.of_eq rfl rfl rfl rfl (Nat.le_refl _))
        · exact h.writes hi hslot hsound.left hwrites
      · rename_i hop
        rw [if_neg hop]
        exact h

theorem toInt_eq (n : Int64) :
    n.toInt = if n.toUInt64.toNat < posMax then (n.toUInt64.toNat : Int)
      else (n.toUInt64.toNat : Int) - 2 ^ 64 := by
  have hcond := BitVec.toInt_eq_toNat_cond n.toBitVec
  rw [Int64.toNat_toBitVec] at hcond
  show n.toBitVec.toInt = _
  rw [hcond]
  unfold posMax
  split <;> split <;> omega

theorem toNat_seekSet {offset : Int64} (hnonneg : 0 ≤ offset.toInt) :
    offset.toUInt64.toNat < posMax ∧
      (offset.toUInt64.toNat : Int) = offset.toInt := by
  have hlt := offset.toUInt64.toNat_lt
  rw [toInt_eq] at hnonneg ⊢
  unfold posMax at *
  split at hnonneg
  · rename_i hsmall
    rw [if_pos hsmall]
    exact ⟨hsmall, rfl⟩
  · omega

theorem toNat_seekCur {pos : UInt64} {offset : Int64}
    (hnonneg : 0 ≤ (pos.toNat : Int) + offset.toInt)
    (hless : (pos.toNat : Int) + offset.toInt < posMax) :
    (pos + offset.toUInt64).toNat < posMax ∧
      ((pos + offset.toUInt64).toNat : Int) = pos.toNat + offset.toInt := by
  have hlt := offset.toUInt64.toNat_lt
  rw [UInt64.toNat_add]
  rw [toInt_eq] at hnonneg hless ⊢
  unfold posMax at *
  split at hnonneg <;> rename_i hcase
  · rw [if_pos hcase] at hless ⊢
    omega
  · rw [if_neg hcase] at hless ⊢
    omega

theorem StoreInv.seek (h : StoreInv v) {fd : Int} {offset : Int64}
    {whence : Int} (hsound : AccessSound v (VfsOp.seek fd offset whence)) :
    StoreInv (v.vfsSeek fd offset whence).2 := by
  unfold vfsSeek
  split
  · exact h
  rename_i file hfd
  have hfile := hsound file hfd
  dsimp only
  split
  · rename_i hset
    exact h.setPos file (toNat_seekSet (hfile.left hset)).left
  split
  · rename_i hcur
    have hrange := hfile.right hcur
    exact h.setPos file (toNat_seekCur hrange.left hrange.right).left
  · split
    · exact h
    · exact h

theorem StoreInv.close (h : StoreInv v) (fd : Int) :
    StoreInv (v.vfsClose fd).2 := by
  have hi := h.objects.exec (VfsOp.close fd)
  have hcases := v.vfsClose_cases fd
  change ObjInv (v.vfsClose fd).2 at hi
  cases hfd : v.fdFile fd with
  | none =>
      rw [hfd] at hcases
      rw [hcases]
      exact h
  | some file =>
      rw [hfd] at hcases
      rw [hcases] at hi ⊢
      exact ⟨hi, h.stores, h.descriptors.release fd.toNat file, h.inside⟩

theorem StoreInv.exec (h : StoreInv v) {o : VfsOp}
    (hsound : AccessSound v o) : StoreInv (v.exec o) := by
  have hi := h.objects.exec o
  cases o with
  | openFile path flags mode =>
      rcases vfsOpen_reopens h.objects path flags mode with
        ⟨_, hsame⟩ | ⟨fd, node, _, hopen, _⟩
      · exact h.sameStore hi hsame
      · exact h.reopens hi hopen
  | close fd => exact h.close fd
  | read fd len => exact h.read fd len
  | write fd buf => exact h.write hsound
  | seek fd offset whence => exact h.seek hsound
  | mkdir path mode =>
      exact h.sameStore hi
        (sameStore_vfsMkdir h.objects.unknown_next path mode)
  | unlink path => exact h.sameStore hi (sameStore_vfsUnlink v path)

theorem storeInv_boot (fails : Nat -> Bool) : StoreInv (boot fails) where
  objects := objInv_boot fails
  stores := fun _ => Inode.storeOk_blank
  descriptors := by
    have hnone : forall fd file, (boot fails).fdTable fd ≠ some file := by
      intro fd file h
      cases h
    exact ⟨fun fd file h => absurd h (hnone fd file),
      fun fd file h => absurd h (hnone fd file),
      fun fd _ file h => absurd h (hnone fd file),
      fun fd file h => absurd h (hnone fd file)⟩
  inside := rfl

theorem sameStore_freshMount (fails : Nat -> Bool) (target : CStr)
    (flags : UInt32) :
    SameStore (boot fails) (freshMount fails target flags) := by
  have hnew : (boot fails).inodes (boot fails).nextId = none := rfl
  rw [freshMount_eq]
  split
  · exact SameStore.of_eq rfl rfl rfl rfl (Nat.le_refl _)
  split
  · exact sameStore_update hnew rfl rfl rfl rfl rfl (Nat.le_succ _)
  split
  · exact sameStore_update hnew rfl rfl rfl rfl rfl (Nat.le_add_right 1 2)
  · exact sameStore_update hnew rfl rfl rfl rfl rfl
      (show 1 ≤ 4 by decide)

theorem storeInv_freshMount (fails : Nat -> Bool) (target : CStr)
    (flags : UInt32) : StoreInv (freshMount fails target flags) :=
  (storeInv_boot fails).sameStore (objInv_freshMount fails target flags)
    (sameStore_freshMount fails target flags)

/-!
# Runs
-/

theorem seek_negative {fd : Int} {offset : Int64}
    {whence : Int} (hsound : AccessSound v (VfsOp.seek fd offset whence))
    (hneg : (v.vfsSeek fd offset whence).1.toInt < 0) :
    (v.vfsSeek fd offset whence).2 = v := by
  unfold vfsSeek at hneg ⊢
  cases hfd : v.fdFile fd with
  | none => rfl
  | some file =>
      rw [hfd] at hneg
      have hfile := hsound file hfd
      dsimp only at hneg ⊢
      split at hneg
      · rename_i hset
        have hnonneg := hfile.left hset
        dsimp only at hneg
        omega
      split at hneg
      · rename_i hset hcur
        have hrange := hfile.right hcur
        have hpos := toNat_seekCur hrange.left hrange.right
        dsimp only at hneg
        rw [toInt_eq, UInt64.toUInt64_toInt64, if_pos hpos.left] at hneg
        omega
      · rename_i hset hcur
        rw [if_neg hset, if_neg hcur]
        split <;> rfl

/-- Every access stays in its buffer, and a failed seek moves nothing. -/
theorem ramfs_accesses_inside (fails : Nat -> Bool) (target : CStr)
    (flags : UInt32)
    (hreach : Reachable exec AccessSound (freshMount fails target flags) v) :
    v.outside = false ∧ forall fd offset whence,
      AccessSound v (VfsOp.seek fd offset whence) ->
      (v.vfsSeek fd offset whence).1 < 0 ->
      (v.vfsSeek fd offset whence).2 = v := by
  have hinv : StoreInv v :=
    hreach.invariant (storeInv_freshMount fails target flags)
      (fun _ _ h hsound => h.exec hsound)
  refine ⟨hinv.inside, ?_⟩
  intro fd offset whence hsound hneg
  exact seek_negative hsound (Int64.lt_iff_toInt_lt.mp hneg)

/-- A file with a hole: the second write begins beyond the first. -/
def sparseFile : List VfsOp :=
  [VfsOp.openFile (cstr "/a") (oCreat ||| 2) 0o644,
    VfsOp.write 0 (cstr "ab"), VfsOp.seek 0 5000 seekSet,
    VfsOp.write 0 (cstr "c"), VfsOp.seek 0 (-1) seekCur, VfsOp.read 0 10]

theorem ramfs_accesses_sparseFile :
    (run exec plainMount sparseFile).outside = false :=
  (ramfs_accesses_inside (fun _ => false) (cstr "/") 0
    ⟨sparseFile, ⟨trivial, by decide +kernel, by decide +kernel,
      by decide +kernel, by decide +kernel, trivial, trivial⟩, rfl⟩).left

def seekBack : List VfsOp :=
  [VfsOp.openFile (cstr "/a") (oCreat ||| 2) 0o644, VfsOp.seek 0 (-1) seekSet,
    VfsOp.write 0 (cstr "x")]

theorem negative_seek_leaves_buffer :
    (run exec plainMount seekBack).outside = true ∧
      ((run exec plainMount (seekBack.take 1)).vfsSeek 0 (-1) seekSet).1 < 0 ∧
      ((run exec plainMount (seekBack.take 1)).file 4).pos = 0 ∧
      ((run exec plainMount (seekBack.take 2)).file 4).pos ≠ 0 := by
  decide +kernel

end Vfs
end Fs
end EarlnuxOS
