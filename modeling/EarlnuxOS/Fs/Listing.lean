import EarlnuxOS.Foundation.Pages
import EarlnuxOS.Fs.OpenFlags
import EarlnuxOS.Fs.Refinement
import EarlnuxOS.Lib.StringCopy
import EarlnuxOS.Lib.Strings

/-!
# Listing a directory

`vfs_readdir` and `ramfs_file_readdir`: a directory is listed in pages, each
of as many records as the caller's buffer holds.  The names are copied by
`strncpy` into records that nothing clears first.
-/

namespace EarlnuxOS
namespace Fs

open Foundation Lib

/-- `sizeof(dirent_t)`, and where `d_name` begins in it. -/
def direntSize : Nat := 268

def dNameOffset : Nat := 11

namespace Vfs

/-- `strncpy(dbuf[n].d_name, de->name, NAME_MAX); dbuf[n].d_ino = de->inode->ino` -/
def putDirent (v : Vfs) (m : Memory) (a : Nat) (de : Dirent) : Memory :=
  let m := (strncpyFrom m (a + dNameOffset) de.name nameMax).1
  store32 m a (v.inode de.inode).ino.toNat

/-- The second loop of `ramfs_file_readdir`, with `n` records stored. -/
def readdirLoop (v : Vfs) (m : Memory) (buf count n : Nat) :
    List Dirent -> Nat × Memory
  | [] => (n, m)
  | de :: rest =>
      if n < count then
        readdirLoop v (v.putDirent m (buf + direntSize * n) de) buf count
          (n + 1) rest
      else
        (n, m)

/-- `ramfs_file_readdir`; the first loop drops what is before `file->pos`. -/
def ramfsFileReaddir (v : Vfs) (m : Memory) (id buf : Nat)
    (bufSize : UInt32) : Int × Memory × Vfs :=
  let f := v.file id
  let entries := (v.inode f.inode).entries.drop f.pos.toNat
  let count := bufSize.toNat / direntSize
  let listed := v.readdirLoop m buf count 0 entries
  (toInt (UInt32.ofNat listed.1), listed.2,
    v.setFile id { f with pos := f.pos + UInt64.ofNat listed.1 })

/-- `vfs_readdir`; the one table of file operations, ramfs's, has `readdir`. -/
def vfsReaddir (v : Vfs) (m : Memory) (fd : Int) (buf : Nat) (len : UInt32) :
    Int × Memory × Vfs :=
  match v.fdFile fd with
  | none => (-1, m, v)
  | some file =>
      if (v.file file).flags &&& oDirectory = 0 then (-1, m, v)
      else if (v.file file).ops = none then (-1, m, v)
      else v.ramfsFileReaddir m file buf len

end Vfs

/-- A call: what is in memory before it, and the buffer. -/
structure ReaddirCall where
  mem : Memory
  buf : Nat
  len : UInt32

def ReaddirCall.capacity (c : ReaddirCall) : Nat := c.len.toNat / direntSize

/-- The string in a `d_name`, `none` where no NUL ends it. -/
def nameAt (m : Memory) (a : Nat) : Option CStr :=
  let field := readBytes m a (nameMax + 1)
  if 0 ∈ field then some (terminated field) else none

def recordAt (m : Memory) (a : Nat) : Nat × Option CStr :=
  (load32 m a, nameAt m (a + dNameOffset))

def recordsAt (m : Memory) (buf n : Nat) : List (Nat × Option CStr) :=
  (List.range n).map fun j => recordAt m (buf + direntSize * j)

namespace Vfs

def afterReaddir (fd : Int) (v : Vfs) (c : ReaddirCall) : Vfs :=
  (v.vfsReaddir c.mem fd c.buf c.len).2.2

def gathered (v : Vfs) (fd : Int) :
    List ReaddirCall -> List (Nat × Option CStr)
  | [] => []
  | c :: calls =>
      let listed := v.vfsReaddir c.mem fd c.buf c.len
      recordsAt listed.2.1 c.buf listed.1.toNat ++
        gathered (v.afterReaddir fd c) fd calls

def shown (v : Vfs) (de : Dirent) : Nat × Option CStr :=
  ((v.inode de.inode).ino.toNat, some de.name)

/-- The descriptor lists the directory, from the entry at `pos` on. -/
structure Listing (v : Vfs) (fd : Int) (dir id pos : Nat) : Prop where
  file : v.fdFile fd = some id
  inode : (v.file id).inode = dir
  flags : (v.file id).flags &&& oDirectory ≠ 0
  ops : (v.file id).ops ≠ none
  pos : (v.file id).pos.toNat = pos

/--
The records are the entries in their order, each once, and a call returns 0
exactly when all of them have been returned.
-/
structure ListsAll (v : Vfs) (fd : Int) (dir : Nat)
    (calls : List ReaddirCall) : Prop where
  contents : v.gathered fd calls <+: (v.inode dir).entries.map v.shown
  ends : forall before c after, calls = before ++ c :: after ->
    (((run (afterReaddir fd) v before).vfsReaddir c.mem fd c.buf c.len).1 = 0 <->
      (v.gathered fd before).length = (v.inode dir).entries.length)

/-- The name is shorter than the limit, or a NUL stands behind the copy. -/
def Terminates (c : ReaddirCall) (j : Nat) (de : Dirent) : Prop :=
  de.name.length < nameMax ∨
    c.mem (c.buf + direntSize * j + dNameOffset + nameMax) = 0

/-- The same for each entry, in the record it comes to. -/
def AllTerminate : List Dirent -> List ReaddirCall -> Prop
  | _, [] => True
  | entries, c :: calls =>
      (forall j de, (entries.take c.capacity)[j]? = some de ->
        Terminates c j de) ∧
      AllTerminate (entries.drop c.capacity) calls

structure EntriesFit (entries : List Dirent) : Prop where
  short : forall de, de ∈ entries -> de.name.length ≤ nameMax
  noNul : forall de, de ∈ entries -> 0 ∉ de.name
  length_lt : entries.length < 2 ^ 32

/-!
# One record
-/

variable {v v' : Vfs} {m m' : Memory} {a : Nat}

/-- The copy into a record, with the padding that follows it. -/
def nameBytes (name : CStr) : List UInt8 :=
  if nameMax ≤ name.length then name.take nameMax
  else name ++ List.replicate (nameMax - name.length + 1) 0

theorem strncpy_name (m : Memory) (a : Nat) (name : CStr) :
    (strncpyFrom m a name nameMax).1 = writeBytes m a (nameBytes name) := by
  unfold nameBytes
  split
  · rename_i hfull
    rw [strncpyFrom_full hfull]
  · rename_i hshort
    rw [strncpyFrom_short (Nat.lt_of_not_le hshort)]

theorem length_nameBytes_le (name : CStr) :
    (nameBytes name).length ≤ nameMax + 1 := by
  unfold nameBytes
  split
  · exact (List.length_take_le _ _).trans (Nat.le_succ _)
  · rw [List.length_append, List.length_replicate]
    omega

theorem putDirent_outside (v : Vfs) (m : Memory) (de : Dirent) {x : Nat}
    (hx : x < a ∨ a + direntSize ≤ x) : v.putDirent m a de x = m x := by
  have hlen := length_nameBytes_le de.name
  unfold direntSize at hx
  unfold nameMax at hlen
  unfold putDirent
  rw [store32_apply_of_not_mem _ _ (by omega), strncpy_name,
    writeBytes_apply_outside]
  unfold dNameOffset
  omega

theorem nameAt_congr
    (h : forall i, i < nameMax + 1 -> m' (a + i) = m (a + i)) :
    nameAt m' a = nameAt m a := by
  unfold nameAt
  rw [readBytes_congr h]

theorem recordAt_congr
    (h : forall x, a ≤ x -> x < a + direntSize -> m' x = m x) :
    recordAt m' a = recordAt m a := by
  unfold direntSize at h
  unfold recordAt
  rw [load32_congr fun i hi => h (a + i) (by omega) (by omega),
    nameAt_congr fun i hi => h (a + dNameOffset + i) (by omega) ?_]
  unfold dNameOffset
  unfold nameMax at hi
  omega

theorem readBytes_name (v : Vfs) (m : Memory) (a : Nat) (de : Dirent) :
    readBytes (v.putDirent m a de) (a + dNameOffset) (nameMax + 1) =
      if nameMax ≤ de.name.length then
        de.name.take nameMax ++ [m (a + dNameOffset + nameMax)]
      else nameBytes de.name := by
  have hstore : readBytes (v.putDirent m a de) (a + dNameOffset)
      (nameMax + 1) =
      readBytes (writeBytes m (a + dNameOffset) (nameBytes de.name))
        (a + dNameOffset) (nameMax + 1) := by
    apply readBytes_congr
    intro i _
    unfold putDirent
    rw [strncpy_name, store32_apply_of_not_mem]
    unfold dNameOffset
    omega
  rw [hstore]
  split
  · rename_i hfull
    have hlen : (de.name.take nameMax).length = nameMax :=
      List.length_take_of_le hfull
    have hname : nameBytes de.name = de.name.take nameMax := if_pos hfull
    have hself := readBytes_writeBytes_self m (a + dNameOffset)
      (de.name.take nameMax)
    rw [hlen] at hself
    rw [hname, readBytes_add, hself]
    congr 1
    show [writeBytes m (a + dNameOffset) (de.name.take nameMax)
      (a + dNameOffset + nameMax)] = _
    rw [writeBytes_apply_outside]
    rw [hlen]
    exact Or.inr (Nat.le_refl _)
  · rename_i hshort
    have hname : nameBytes de.name =
        de.name ++ List.replicate (nameMax - de.name.length + 1) 0 :=
      if_neg hshort
    have hlen : (nameBytes de.name).length = nameMax + 1 := by
      rw [hname, List.length_append, List.length_replicate]
      omega
    have hself := readBytes_writeBytes_self m (a + dNameOffset)
      (nameBytes de.name)
    rwa [hlen] at hself

theorem nameAt_putDirent {de : Dirent} (hlen : de.name.length ≤ nameMax)
    (hnul : 0 ∉ de.name) :
    nameAt (v.putDirent m a de) (a + dNameOffset) =
      if de.name.length < nameMax ∨ m (a + dNameOffset + nameMax) = 0 then
        some de.name
      else none := by
  have hterm : forall rest, terminated (de.name ++ 0 :: rest) = de.name := by
    intro rest
    rw [terminated_append hnul]
    exact List.append_nil _
  unfold nameAt
  dsimp only
  rw [readBytes_name]
  by_cases hfull : nameMax ≤ de.name.length
  · rw [if_pos hfull, List.take_of_length_le hlen]
    by_cases hzero : m (a + dNameOffset + nameMax) = 0
    · rw [hzero, if_pos (List.mem_append_right _ List.mem_cons_self),
        if_pos (Or.inr rfl), hterm]
    · rw [if_neg, if_neg]
      · rintro (hlt | heq)
        · exact Nat.not_lt_of_le hfull hlt
        · exact hzero heq
      · intro hmem
        rcases List.mem_append.mp hmem with hmem | hmem
        · exact hnul hmem
        · exact hzero (List.mem_singleton.mp hmem).symm
  · have hname : nameBytes de.name =
        de.name ++ 0 :: List.replicate (nameMax - de.name.length) 0 :=
      if_neg hfull
    rw [if_neg hfull, if_pos (Or.inl (Nat.lt_of_not_le hfull)), hname, hterm,
      if_pos (List.mem_append_right _ List.mem_cons_self)]

theorem recordAt_putDirent {de : Dirent} (hlen : de.name.length ≤ nameMax)
    (hnul : 0 ∉ de.name) :
    recordAt (v.putDirent m a de) a =
      ((v.inode de.inode).ino.toNat,
        if de.name.length < nameMax ∨ m (a + dNameOffset + nameMax) = 0 then
          some de.name
        else none) := by
  have hino : load32 (v.putDirent m a de) a = (v.inode de.inode).ino.toNat :=
    load32_store32_self _ _ (UInt32.toNat_lt _)
  unfold recordAt
  rw [hino, nameAt_putDirent hlen hnul]

/-!
# One page
-/

/-- The loop stores a record for each entry until the buffer is full. -/
theorem readdirLoop_fst (v : Vfs) (m : Memory) (buf count n : Nat)
    (entries : List Dirent) :
    (v.readdirLoop m buf count n entries).1 =
      n + (entries.take (count - n)).length := by
  induction entries generalizing m n with
  | nil => simp [readdirLoop]
  | cons de rest ih =>
      unfold readdirLoop
      split
      · rename_i hn
        have hleft : count - n = (count - (n + 1)) + 1 := by omega
        rw [ih, hleft, List.take_succ_cons, List.length_cons]
        omega
      · rename_i hn
        rw [Nat.sub_eq_zero_of_le (Nat.le_of_not_lt hn)]
        rfl

theorem readdirLoop_outside (v : Vfs) (m : Memory) (buf count n : Nat)
    (entries : List Dirent) {x : Nat}
    (hx : x < buf + direntSize * n ∨ buf + direntSize * count ≤ x) :
    (v.readdirLoop m buf count n entries).2 x = m x := by
  induction entries generalizing m n with
  | nil => rfl
  | cons de rest ih =>
      unfold direntSize at hx ih
      unfold readdirLoop
      split
      · rename_i hn
        unfold direntSize
        rw [ih _ _ (by omega), putDirent_outside]
        unfold direntSize
        omega
      · rfl

/-- Each record is as it was when it was stored, over what was there before. -/
theorem recordAt_readdirLoop (v : Vfs) (m : Memory) (buf count n : Nat)
    (entries : List Dirent) {j : Nat} {de : Dirent}
    (hde : (entries.take (count - n))[j]? = some de)
    (hlen : de.name.length ≤ nameMax) (hnul : 0 ∉ de.name) :
    recordAt (v.readdirLoop m buf count n entries).2
        (buf + direntSize * (n + j)) =
      ((v.inode de.inode).ino.toNat,
        if de.name.length < nameMax ∨
            m (buf + direntSize * (n + j) + dNameOffset + nameMax) = 0 then
          some de.name
        else none) := by
  induction entries generalizing m n j with
  | nil => simp at hde
  | cons d rest ih =>
      unfold readdirLoop
      by_cases hn : n < count
      · have hleft : count - n = (count - (n + 1)) + 1 := by omega
        rw [hleft, List.take_succ_cons] at hde
        rw [if_pos hn]
        cases j with
        | zero =>
            cases Option.some.inj hde
            rw [Nat.add_zero, ← recordAt_putDirent hlen hnul]
            apply recordAt_congr
            intro x _ hx
            apply readdirLoop_outside
            unfold direntSize at hx ⊢
            omega
        | succ j =>
            have hnext : n + (j + 1) = n + 1 + j := by omega
            rw [List.getElem?_cons_succ] at hde
            rw [hnext, ih _ _ hde, putDirent_outside]
            right
            unfold direntSize dNameOffset
            omega
      · rw [Nat.sub_eq_zero_of_le (Nat.le_of_not_lt hn)] at hde
        cases hde

def page (v : Vfs) (dir pos : Nat) (c : ReaddirCall) : List Dirent :=
  ((v.inode dir).entries.drop pos).take c.capacity

theorem length_page_le (v : Vfs) (dir pos : Nat) (c : ReaddirCall) :
    (v.page dir pos c).length ≤ c.capacity := List.length_take_le _ _

theorem capacity_lt (c : ReaddirCall) : c.capacity < 2 ^ 31 := by
  have hlen := c.len.toNat_lt
  unfold ReaddirCall.capacity direntSize
  omega

variable {fd : Int} {dir id pos : Nat}

theorem Listing.call (h : Listing v fd dir id pos) (c : ReaddirCall) :
    v.vfsReaddir c.mem fd c.buf c.len =
      (((v.page dir pos c).length : Int),
        (v.readdirLoop c.mem c.buf c.capacity 0
          ((v.inode dir).entries.drop pos)).2,
        v.setFile id
          { v.file id with
            pos := (v.file id).pos + UInt64.ofNat (v.page dir pos c).length }) := by
  have hlt := (length_page_le v dir pos c).trans_lt (capacity_lt c)
  have hn := readdirLoop_fst v c.mem c.buf c.capacity 0
    ((v.inode dir).entries.drop pos)
  rw [Nat.zero_add, Nat.sub_zero] at hn
  have hint : toInt (UInt32.ofNat (v.page dir pos c).length) =
      (v.page dir pos c).length := by
    have hnat : (UInt32.ofNat (v.page dir pos c).length).toNat =
        (v.page dir pos c).length :=
      UInt32.toNat_ofNat_of_lt' (hlt.trans (by decide))
    rw [toInt_of_lt (by rw [hnat]; exact hlt), hnat]
  unfold vfsReaddir
  rw [h.file]
  dsimp only
  rw [if_neg h.flags, if_neg h.ops]
  unfold ramfsFileReaddir
  dsimp only
  rw [h.inode, h.pos]
  unfold ReaddirCall.capacity at hn
  rw [hn]
  exact congrArg (fun n => (n, _)) hint

theorem Listing.next (h : Listing v fd dir id pos) (c : ReaddirCall)
    (hlt : pos + (v.page dir pos c).length < 2 ^ 64) :
    Listing (v.afterReaddir fd c) fd dir id
      (pos + (v.page dir pos c).length) := by
  have hfile : (v.afterReaddir fd c).file id =
      { v.file id with
        pos := (v.file id).pos + UInt64.ofNat (v.page dir pos c).length } := by
    unfold afterReaddir
    rw [h.call, file_setFile, if_pos rfl]
  have hfd : (v.afterReaddir fd c).fdFile fd = v.fdFile fd := by
    unfold afterReaddir
    rw [h.call]
    rfl
  refine ⟨hfd.trans h.file, ?_, ?_, ?_, ?_⟩
  · rw [hfile]
    exact h.inode
  · rw [hfile]
    exact h.flags
  · rw [hfile]
    exact h.ops
  · rw [hfile]
    dsimp only
    rw [UInt64.toNat_add, h.pos,
      UInt64.toNat_ofNat_of_lt' (show _ < 2 ^ 64 by omega),
      Nat.mod_eq_of_lt hlt]

theorem Listing.inode_next (h : Listing v fd dir id pos) (c : ReaddirCall) :
    (v.afterReaddir fd c).inode = v.inode := by
  unfold afterReaddir
  rw [h.call]
  rfl

def listedAs (v : Vfs) (c : ReaddirCall) (j : Nat) (de : Dirent) :
    Nat × Option CStr :=
  ((v.inode de.inode).ino.toNat,
    if de.name.length < nameMax ∨
        c.mem (c.buf + direntSize * j + dNameOffset + nameMax) = 0 then
      some de.name
    else none)

theorem listedAs_eq_shown {c : ReaddirCall} {j : Nat} {de : Dirent} :
    v.listedAs c j de = v.shown de <-> Terminates c j de := by
  unfold listedAs shown Terminates
  rw [Prod.mk.injEq, eq_self, true_and]
  split
  · rename_i h
    exact iff_of_true rfl h
  · rename_i h
    exact iff_of_false (fun heq => by cases heq) h

theorem Listing.records (h : Listing v fd dir id pos)
    (hfit : EntriesFit (v.inode dir).entries) (c : ReaddirCall) :
    recordsAt (v.vfsReaddir c.mem fd c.buf c.len).2.1 c.buf
        (v.vfsReaddir c.mem fd c.buf c.len).1.toNat =
      (v.page dir pos c).mapIdx (v.listedAs c) := by
  rw [h.call]
  dsimp only
  rw [Int.toNat_natCast]
  unfold recordsAt
  apply List.ext_getElem?
  intro j
  rw [List.getElem?_map, List.getElem?_mapIdx]
  cases hde : (v.page dir pos c)[j]? with
  | none =>
      rw [List.getElem?_eq_none (by simpa using hde)]
      rfl
  | some de =>
      have hj := (List.getElem?_eq_some_iff.mp hde).choose
      have hmem : de ∈ (v.inode dir).entries :=
        List.mem_of_mem_drop (List.mem_of_mem_take (List.mem_of_getElem? hde))
      have hrecord := recordAt_readdirLoop v c.mem c.buf c.capacity 0
        ((v.inode dir).entries.drop pos) hde (hfit.short de hmem)
        (hfit.noNul de hmem)
      rw [Nat.zero_add] at hrecord
      rw [List.getElem?_range hj, Option.map_some, Option.map_some, hrecord]
      rfl

/-!
# Page after page
-/

theorem shown_congr (h : v'.inode = v.inode) : v'.shown = v.shown := by
  unfold shown
  rw [h]

theorem gathered_cons (v : Vfs) (fd : Int) (c : ReaddirCall)
    (calls : List ReaddirCall) :
    v.gathered fd (c :: calls) =
      recordsAt (v.vfsReaddir c.mem fd c.buf c.len).2.1 c.buf
        (v.vfsReaddir c.mem fd c.buf c.len).1.toNat ++
      (v.afterReaddir fd c).gathered fd calls := rfl

theorem drop_page (l : List Dirent) (pos k : Nat) :
    l.drop (pos + ((l.drop pos).take k).length) = (l.drop pos).drop k := by
  rw [← List.drop_drop]
  rcases Nat.le_total k (l.drop pos).length with h | h
  · rw [List.length_take_of_le h]
  · rw [List.take_of_length_le h, List.drop_length, List.drop_eq_nil_of_le h]

theorem page_bound (hfit : EntriesFit (v.inode dir).entries)
    (hpos : pos ≤ (v.inode dir).entries.length) (c : ReaddirCall) :
    pos + (v.page dir pos c).length ≤ (v.inode dir).entries.length ∧
      pos + (v.page dir pos c).length < 2 ^ 64 := by
  have hlt := hfit.length_lt
  have hle : (v.page dir pos c).length ≤
      (v.inode dir).entries.length - pos := by
    unfold page
    rw [List.length_take, List.length_drop]
    exact Nat.min_le_right _ _
  omega

theorem gathered_prefix_iff (h : Listing v fd dir id pos)
    (hfit : EntriesFit (v.inode dir).entries)
    (hpos : pos ≤ (v.inode dir).entries.length) (calls : List ReaddirCall) :
    v.gathered fd calls <+: ((v.inode dir).entries.drop pos).map v.shown <->
      AllTerminate ((v.inode dir).entries.drop pos) calls := by
  induction calls generalizing v pos with
  | nil => exact iff_of_true (List.nil_prefix) trivial
  | cons c calls ih =>
      have hbound := page_bound hfit hpos c
      have hinode := h.inode_next c
      have hrest := ih (h.next c hbound.right) (hinode ▸ hfit)
        (hinode ▸ hbound.left)
      rw [hinode, shown_congr hinode] at hrest
      unfold page at hrest
      rw [drop_page] at hrest
      have hlen : ((v.page dir pos c).mapIdx (v.listedAs c)).length =
          (((v.inode dir).entries.drop pos).map v.shown |>.take
            c.capacity).length := by
        rw [List.length_mapIdx, ← List.map_take, List.length_map]
        rfl
      unfold AllTerminate
      rw [gathered_cons, h.records hfit, ← hrest, append_prefix_iff hlen,
        ← List.map_take, ← List.map_drop]
      refine and_congr_left fun _ => mapIdx_eq_map_iff.trans ?_
      exact forall_congr' fun j => forall_congr' fun de =>
        imp_congr_right fun _ => listedAs_eq_shown

theorem Listing.after (h : Listing v fd dir id pos)
    (hfit : EntriesFit (v.inode dir).entries)
    (hpos : pos ≤ (v.inode dir).entries.length) (calls : List ReaddirCall) :
    Listing (run (afterReaddir fd) v calls) fd dir id
        (pos + (v.gathered fd calls).length) ∧
      (run (afterReaddir fd) v calls).inode = v.inode ∧
      (v.gathered fd calls).length =
        (pages ((v.inode dir).entries.drop pos)
          (calls.map ReaddirCall.capacity)).flatten.length := by
  induction calls generalizing v pos with
  | nil => exact ⟨h, rfl, rfl⟩
  | cons c calls ih =>
      have hbound := page_bound hfit hpos c
      have hinode := h.inode_next c
      have hrest := ih (h.next c hbound.right) (hinode ▸ hfit)
        (hinode ▸ hbound.left)
      have hlen : (v.gathered fd (c :: calls)).length =
          (v.page dir pos c).length +
            ((v.afterReaddir fd c).gathered fd calls).length := by
        rw [gathered_cons, h.records hfit, List.length_append, List.length_mapIdx]
      rw [run_cons, hlen, ← Nat.add_assoc]
      refine ⟨hrest.left, hrest.right.left.trans hinode, ?_⟩
      rw [hrest.right.right, hinode]
      unfold page
      rw [drop_page, List.map_cons, pages_cons, List.flatten_cons,
        List.length_append]

/-- `vfs_open` gives such a descriptor, at the front unless it appends. -/
theorem listing_vfsOpen (hi : ObjInv v) {path : CStr} {flags : UInt32}
    {mode : UInt16} (hdir : flags &&& oDirectory ≠ 0)
    (happend : flags &&& oAppend = 0)
    (hopen : (v.vfsOpen path flags mode).1 ≠ -1) :
    exists fd dir, (v.vfsOpen path flags mode).1 = fd ∧
      Listing (v.vfsOpen path flags mode).2 fd dir v.nextId 0 := by
  rcases vfsOpen_reopens hi path flags mode with
    hfail | ⟨fd, dir, hfd, hopened, _⟩
  · exact absurd hfail.left hopen
  · refine ⟨fd, dir, hfd, ?_, ?_, ?_, ?_, ?_⟩
    · unfold fdFile
      have hbound := hopened.bound
      rw [if_neg (by omega), hopened.fdTable, Int.toNat_natCast,
        Function.update_self]
    · rw [hopened.opened]
    · rw [hopened.opened]
      exact hdir
    · rw [hopened.opened]
      exact Option.some_ne_none _
    · rw [hopened.opened, if_pos happend]
      rfl

/-- For every way of cutting the listing into pages. -/
theorem listing_iff (h : Listing v fd dir id 0)
    (hfit : EntriesFit (v.inode dir).entries) (calls : List ReaddirCall)
    (hcap : forall c, c ∈ calls -> 0 < c.capacity) :
    ListsAll v fd dir calls <-> AllTerminate (v.inode dir).entries calls := by
  have hfront := gathered_prefix_iff h hfit (Nat.zero_le _) calls
  rw [List.drop_zero] at hfront
  refine ⟨fun hall => hfront.mp hall.contents,
    fun hall => ⟨hfront.mpr hall, ?_⟩⟩
  intro before c after hcalls
  have hc : 0 < c.capacity := hcap c (by rw [hcalls]; simp)
  rcases h.after hfit (Nat.zero_le _) before with ⟨hthere, hinode, hlen⟩
  rw [List.drop_zero] at hlen
  have hpage : (run (afterReaddir fd) v before).page dir
      (0 + (v.gathered fd before).length) c =
      ((v.inode dir).entries.drop
        (before.map ReaddirCall.capacity).sum).take c.capacity := by
    have hdrop := drop_page (v.inode dir).entries 0
      (before.map ReaddirCall.capacity).sum
    rw [List.drop_zero] at hdrop
    unfold page
    rw [hinode, hlen, pages_flatten, hdrop]
  rw [hthere.call, hpage, hlen, ← page_eq_nil_iff hc,
    ← List.length_eq_zero_iff]
  exact Int.natCast_eq_zero

def longestName : CStr := List.replicate nameMax 0x61

/-- A root that has a directory of this name, and a descriptor that lists it. -/
def longList : Vfs :=
  run exec plainMount
    [VfsOp.mkdir (slash :: longestName) 0o755,
      VfsOp.openFile (cstr "/") oDirectory 0]

theorem entries_longList : (longList.inode 1).entries = [⟨longestName, 4⟩] := by
  decide +kernel

theorem listing_longList : Listing longList 0 1 7 0 :=
  ⟨by decide +kernel, by decide +kernel, by decide +kernel,
    by decide +kernel, by decide +kernel⟩

theorem entriesFit_longList : EntriesFit (longList.inode 1).entries := by
  rw [entries_longList]
  refine ⟨?_, ?_, by decide⟩ <;> intro de hde <;>
    rw [List.mem_singleton.mp hde]
  · exact Nat.le_of_eq List.length_replicate
  · intro hzero
    exact absurd (List.eq_of_mem_replicate hzero) (by decide)

/-- Two calls, for one record each. -/
theorem listing_iff_longList :
    ListsAll longList 0 1
        [⟨fun _ => 0, 0, 268⟩, ⟨fun _ => 0xFF, 0, 268⟩] <->
      AllTerminate (longList.inode 1).entries
        [⟨fun _ => 0, 0, 268⟩, ⟨fun _ => 0xFF, 0, 268⟩] :=
  listing_iff listing_longList entriesFit_longList _ (by decide)

/-- In a buffer of bytes that are not 0 the longest name has no end. -/
theorem longestName_unterminated :
    (longList.vfsReaddir (fun _ => 0xFF) 0 0 268).1 = 1 ∧
      longList.gathered 0 [⟨fun _ => 0xFF, 0, 268⟩] = [(2, none)] ∧
      ¬ ListsAll longList 0 1 [⟨fun _ => 0xFF, 0, 268⟩] := by
  refine ⟨by decide +kernel, by decide +kernel, fun hall => ?_⟩
  have hterm := (gathered_prefix_iff listing_longList entriesFit_longList
    (Nat.zero_le _) _).mp hall.contents
  rw [entries_longList] at hterm
  rcases hterm.left 0 ⟨longestName, 4⟩ rfl with hshort | hzero
  · exact absurd hshort (Nat.not_lt_of_le (Nat.le_of_eq List.length_replicate.symm))
  · exact absurd hzero (by decide)

end Vfs
end Fs
end EarlnuxOS
