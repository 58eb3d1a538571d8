import EarlnuxOS.Foundation.Sparse
import EarlnuxOS.Fs.Frame

/-!
# File contents

The bytes of a file are the first `size` bytes of its buffer.  The buffer holds
as many bytes as the capacity says, and those beyond the size are zero, so that
they read as zero when a write beyond the end makes them part of the file.
-/

namespace EarlnuxOS
namespace Fs

open Foundation

namespace Inode

variable {node : Inode}

def byte (node : Inode) (i : Nat) : UInt8 :=
  (node.data.getD (Buffer.zeroed 0)).byte i

def bytes (node : Inode) : CStr :=
  (List.range node.size.toNat).map node.byte

structure StoreOk (node : Inode) : Prop where
  size_le : node.size.toNat ≤ node.capacity.toNat
  capacity_lt : node.capacity.toNat < 2 ^ 32
  length : (node.data.getD (Buffer.zeroed 0)).length = node.capacity.toNat
  tail : forall i, node.size.toNat ≤ i -> i < node.capacity.toNat ->
    node.byte i = 0

theorem storeOk_blank : Inode.blank.StoreOk where
  size_le := Nat.le_refl 0
  capacity_lt := by decide
  length := rfl
  tail := fun _ _ h => absurd h (Nat.not_lt_zero _)

@[simp] theorem length_bytes (node : Inode) :
    node.bytes.length = node.size.toNat := by
  unfold bytes
  rw [List.length_map, List.length_range]

theorem getD_bytes (node : Inode) (i : Nat) :
    node.bytes.getD i 0 = if i < node.size.toNat then node.byte i else 0 := by
  unfold bytes
  rw [List.getD_eq_getElem?_getD, List.getElem?_map]
  by_cases hi : i < node.size.toNat
  · rw [List.getElem?_range hi, if_pos hi]
    rfl
  · rw [List.getElem?_eq_none (by simpa using hi), if_neg hi]
    rfl

theorem slice_bytes (node : Inode) (pos n : Nat)
    (h : pos + n ≤ node.size.toNat) :
    slice node.bytes pos n =
      (List.range n).map (fun i => node.byte (pos + i)) := by
  unfold slice bytes
  apply List.ext_getElem
  · simp
    omega
  · intro i hi hi'
    simp

/-!
# Writing
-/

/-- The inode after the `memcpy` of `ramfs_file_write` and what follows it. -/
def written (node : Inode) (pos : Nat) (buf : CStr) (newEnd : UInt64) :
    Inode :=
  { node with
    data := node.data.map (fun data => data.put pos buf)
    size := if node.size < newEnd then newEnd else node.size
    dirty := true }

theorem size_written (node : Inode) (pos : Nat) (buf : CStr)
    (newEnd : UInt64) :
    (node.written pos buf newEnd).size.toNat =
      max node.size.toNat newEnd.toNat := by
  unfold written
  dsimp only
  split
  · rename_i h
    have hlt := UInt64.lt_iff_toNat_lt.mp h
    omega
  · rename_i h
    have hge := mt UInt64.lt_iff_toNat_lt.mpr h
    omega

theorem byte_written (hok : node.StoreOk) {pos : Nat} {buf : CStr}
    {newEnd : UInt64} (hend : newEnd.toNat = pos + buf.length)
    (hroom : newEnd.toNat ≤ node.capacity.toNat) (i : Nat) :
    (node.written pos buf newEnd).byte i =
      if pos ≤ i ∧ i < pos + buf.length then buf.getD (i - pos) 0
      else node.byte i := by
  have hlength := hok.length
  unfold written byte
  dsimp only
  cases hdata : node.data with
  | none =>
      rw [hdata] at hlength
      have hzero : node.capacity.toNat = 0 := hlength.symm
      rw [if_neg (by omega)]
      rfl
  | some data =>
      show (data.put pos buf).byte i = _
      unfold Buffer.put
      dsimp only
      by_cases hpos : pos ≤ i
      · rw [if_pos hpos]
        by_cases hi : i < pos + buf.length
        · rw [if_pos ⟨hpos, hi⟩, List.getD_eq_getElem?_getD,
            List.getElem?_eq_getElem (by omega)]
          rfl
        · rw [if_neg (fun h => hi h.right), List.getElem?_eq_none (by omega)]
          rfl
      · rw [if_neg hpos, if_neg (fun h => hpos h.left)]
        rfl

theorem StoreOk.written (hok : node.StoreOk) {pos : Nat} {buf : CStr}
    {newEnd : UInt64} (hend : newEnd.toNat = pos + buf.length)
    (hroom : newEnd.toNat ≤ node.capacity.toNat) :
    (node.written pos buf newEnd).StoreOk where
  size_le := by
    have hle := hok.size_le
    rw [size_written]
    show max _ _ ≤ node.capacity.toNat
    omega
  capacity_lt := hok.capacity_lt
  length := by
    have hlength := hok.length
    unfold Inode.written
    dsimp only
    rw [← hlength]
    cases node.data <;> rfl
  tail := by
    intro i hi hcap
    rw [size_written] at hi
    rw [byte_written hok hend hroom, if_neg (by omega)]
    exact hok.tail i (by omega) hcap

/-- A write overwrites the contents; a gap before it is filled with zeros. -/
theorem bytes_written (hok : node.StoreOk) {pos : Nat} {buf : CStr}
    {newEnd : UInt64} (hend : newEnd.toNat = pos + buf.length)
    (hroom : newEnd.toNat ≤ node.capacity.toNat) :
    (node.written pos buf newEnd).bytes = overwrite 0 node.bytes pos buf := by
  have hlen : (node.written pos buf newEnd).bytes.length =
      (overwrite 0 node.bytes pos buf).length := by
    rw [length_bytes, length_overwrite, length_bytes, size_written, hend]
  apply ext_getD 0 hlen
  intro i hi
  rw [length_bytes, size_written] at hi
  rw [getD_overwrite, getD_bytes, size_written, if_pos hi,
    byte_written hok hend hroom]
  split
  · rfl
  · rw [getD_bytes]
    split
    · rfl
    · exact hok.tail i (by omega) (by omega)

/-!
# Growing
-/

def grown (node : Inode) (newCap : UInt64) : Inode :=
  { node with
    data := some (match node.data with
      | none => Buffer.zeroed newCap.toUInt32.toNat
      | some data =>
          (Buffer.zeroed newCap.toUInt32.toNat).copy data
            node.capacity.toUInt32.toNat)
    capacity := newCap }

theorem toNat_toUInt32 {n : UInt64} (h : n.toNat < 2 ^ 32) :
    n.toUInt32.toNat = n.toNat := by
  rw [UInt64.toNat_toUInt32, Nat.mod_eq_of_lt h]

theorem byte_grown (hok : node.StoreOk) (newCap : UInt64) (i : Nat) :
    (node.grown newCap).byte i =
      if i < node.capacity.toNat then node.byte i else 0 := by
  have hlength := hok.length
  have hcap := toNat_toUInt32 hok.capacity_lt
  unfold grown byte
  dsimp only
  cases hdata : node.data with
  | none =>
      rw [hdata] at hlength
      have hzero : node.capacity.toNat = 0 := hlength.symm
      rw [if_neg (by omega)]
      rfl
  | some data =>
      show (Buffer.copy _ data _).byte i = _
      unfold Buffer.copy
      dsimp only
      rw [hcap]
      rfl

theorem StoreOk.grown (hok : node.StoreOk) {newCap : UInt64}
    (hmore : node.capacity.toNat ≤ newCap.toNat)
    (hlt : newCap.toNat < 2 ^ 32) : (node.grown newCap).StoreOk where
  size_le := Nat.le_trans hok.size_le hmore
  capacity_lt := hlt
  length := by
    unfold Inode.grown
    cases node.data <;> exact toNat_toUInt32 hlt
  tail := by
    intro i hi _
    rw [byte_grown hok]
    split
    · rename_i hold
      exact hok.tail i hi hold
    · rfl

theorem bytes_grown (hok : node.StoreOk) (newCap : UInt64) :
    (node.grown newCap).bytes = node.bytes := by
  unfold bytes
  apply List.map_congr_left
  intro i hi
  have hsize : i < node.size.toNat := List.mem_range.mp hi
  have hle := hok.size_le
  rw [byte_grown hok, if_pos (by omega)]

end Inode

namespace Vfs

variable {v v' : Vfs}

theorem touch_inside {data : Buffer} {pos n : Nat}
    (h : pos + n ≤ data.length) : v.touch data pos n = v := by
  have hin : decide (data.length < pos + n) = false := by
    rw [decide_eq_false_iff_not]
    omega
  unfold touch
  rw [hin, Bool.and_false, Bool.or_false]

/-- Making room for a write, with all that stays the same. -/
structure Grows (v v' : Vfs) (id : Nat) (newEnd : UInt64) : Prop where
  other : forall j, j ≠ id -> v'.inode j = v.inode j
  known : forall j, v'.inodes j ≠ none <-> v.inodes j ≠ none
  files : v'.files = v.files
  fdTable : v'.fdTable = v.fdTable
  outside : v'.outside = v.outside
  ok : (v'.inode id).StoreOk
  bytes : (v'.inode id).bytes = (v.inode id).bytes
  room : newEnd.toNat ≤ (v'.inode id).capacity.toNat

theorem grows_modify {w : Vfs} {id : Nat} {newCap newEnd : UInt64}
    (h : v' = w.modifyInode id (fun node => node.grown newCap))
    (hinodes : w.inodes = v.inodes) (hfiles : w.files = v.files)
    (hfd : w.fdTable = v.fdTable) (houtside : w.outside = v.outside)
    (hok : (v.inode id).StoreOk) (hknown : v.inodes id ≠ none)
    (hmore : (v.inode id).capacity.toNat ≤ newCap.toNat)
    (hlt : newCap.toNat < 2 ^ 32) (hend : newEnd.toNat ≤ newCap.toNat) :
    Grows v v' id newEnd := by
  have hinode : forall j, w.inode j = v.inode j := by
    intro j
    unfold inode
    rw [hinodes]
  have hsome : (w.inodes id).isSome := by
    rw [hinodes]
    exact Option.isSome_iff_ne_none.mpr hknown
  have hnew : v'.inode id = (v.inode id).grown newCap := by
    rw [h, inode_modifyInode, if_pos ⟨rfl, hsome⟩, hinode]
  constructor
  · intro j hj
    rw [h, inode_modifyInode, if_neg (fun hid => hj hid.left), hinode]
  · intro j
    rw [h]
    unfold modifyInode
    dsimp only
    rw [Function.update_apply, ← hinodes]
    split
    · rename_i hj
      rw [hj]
      simp
    · rfl
  · rw [h]
    exact hfiles
  · rw [h]
    exact hfd
  · rw [h]
    exact houtside
  · rw [hnew]
    exact hok.grown hmore hlt
  · rw [hnew]
    exact Inode.bytes_grown hok newCap
  · rw [hnew]
    exact hend

theorem modifyInode_congr {id : Nat} {f g : Inode -> Inode}
    (h : f (v.inode id) = g (v.inode id)) :
    v.modifyInode id f = v.modifyInode id g := by
  unfold modifyInode
  congr 2
  unfold inode at h
  cases hid : v.inodes id with
  | none => rfl
  | some node =>
      rw [hid] at h
      exact congrArg some h

theorem replaceData_grown {id : Nat} {newCap : UInt64}
    (hok : (v.inode id).StoreOk)
    (hmore : (v.inode id).capacity.toNat ≤ newCap.toNat)
    (hlt : newCap.toNat < 2 ^ 32) (hfails : v.fails v.calls = false) :
    v.replaceData id newCap (v.inode id).capacity.toUInt32.toNat =
      (true, modifyInode
        { v with
          calls := v.calls + 1
          nextId := v.nextId + 1 } id (fun node => node.grown newCap)) := by
  have hold := Inode.toNat_toUInt32 hok.capacity_lt
  have hnew := Inode.toNat_toUInt32 hlt
  have hlength := hok.length
  unfold replaceData kmalloc
  rw [hfails, if_neg Bool.false_ne_true]
  dsimp only
  generalize hw : ({ v with
    calls := v.calls + 1
    nextId := v.nextId + 1 } : Vfs) = w
  have hinode : w.inode id = v.inode id := by
    rw [← hw]
    rfl
  cases hdata : (v.inode id).data with
  | none =>
      rw [hinode, hdata]
      refine congrArg (Prod.mk true) (modifyInode_congr ?_)
      unfold Inode.grown
      rw [hinode, hdata]
  | some data =>
      rw [hdata] at hlength
      have hlength : data.length = (v.inode id).capacity.toNat := hlength
      rw [hinode, hdata]
      dsimp only
      have hfrom : w.touch data 0 (v.inode id).capacity.toUInt32.toNat = w :=
        touch_inside (by omega)
      have hto : w.touch (Buffer.zeroed newCap.toUInt32.toNat) 0
          (v.inode id).capacity.toUInt32.toNat = w := by
        apply touch_inside
        show 0 + _ ≤ newCap.toUInt32.toNat
        omega
      rw [hfrom, hto]
      refine congrArg (Prod.mk true) (modifyInode_congr ?_)
      unfold Inode.grown
      rw [hinode, hdata]

theorem toNat_newCap {newEnd : UInt64} (h : newEnd.toNat < 2 ^ 31) :
    (if newEnd < 4096 then 4096 else newEnd * 2 : UInt64).toNat =
      if newEnd.toNat < 4096 then 4096 else newEnd.toNat * 2 := by
  have hiff : newEnd < 4096 <-> newEnd.toNat < 4096 :=
    UInt64.lt_iff_toNat_lt
  by_cases hsmall : newEnd < 4096
  · rw [if_pos hsmall, if_pos (hiff.mp hsmall)]
    rfl
  · rw [if_neg hsmall, if_neg (mt hiff.mpr hsmall), UInt64.toNat_mul]
    show newEnd.toNat * 2 % 2 ^ 64 = _
    omega

theorem growData_cases {id : Nat} {newEnd : UInt64}
    (hok : (v.inode id).StoreOk) (hknown : v.inodes id ≠ none)
    (hfits : (v.inode id).capacity.toNat < newEnd.toNat ->
      v.fails v.calls = false -> newEnd.toNat < 2 ^ 31) :
    (v.growData id newEnd =
        (false, { v with calls := v.calls + 1 }) ∧
      v.fails v.calls = true) ∨
    ((v.growData id newEnd).1 = true ∧
      Grows v (v.growData id newEnd).2 id newEnd) := by
  unfold growData
  dsimp only
  split
  · rename_i hmore
    have hmore := UInt64.lt_iff_toNat_lt.mp hmore
    cases hfails : v.fails v.calls with
    | true =>
        left
        refine ⟨?_, rfl⟩
        unfold replaceData kmalloc
        rw [hfails]
        rfl
    | false =>
        right
        have hlt := hfits hmore hfails
        have hcap := toNat_newCap hlt
        have hle : newEnd.toNat ≤
            (if newEnd < 4096 then 4096 else newEnd * 2 : UInt64).toNat := by
          rw [hcap]
          split <;> omega
        have hlt' :
            (if newEnd < 4096 then 4096 else newEnd * 2 : UInt64).toNat <
              2 ^ 32 := by
          rw [hcap]
          split <;> omega
        have hold := Nat.le_of_lt (Nat.lt_of_lt_of_le hmore hle)
        rw [replaceData_grown hok hold hlt' hfails]
        refine ⟨rfl, ?_⟩
        exact grows_modify rfl rfl rfl rfl rfl hok hknown hold hlt' hle
  · rename_i hroom
    have hroom := mt UInt64.lt_iff_toNat_lt.mpr hroom
    right
    refine ⟨rfl, ?_⟩
    exact ⟨fun _ _ => rfl, fun _ => Iff.rfl, rfl, rfl, rfl, hok, rfl,
      Nat.le_of_not_lt hroom⟩

end Vfs
end Fs
end EarlnuxOS
