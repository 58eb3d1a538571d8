import EarlnuxOS.Fs.Failures
import EarlnuxOS.Fs.Refinement

/-!
# Appending

`ramfs_fs_open` takes the end of the file for the position of a descriptor with
`O_APPEND`, once; `ramfs_file_write` goes on from the descriptor's own position.
With several of them a write begins where the file has ended before.
-/

namespace EarlnuxOS
namespace Fs
namespace Vfs

open Foundation

variable {v v' : Vfs}

/-- The descriptor was opened on the file with `O_APPEND`. -/
def AppendsTo (node : Nat) (v : Vfs) (fd : Int) : Prop :=
  exists file, v.fdFile fd = some file ∧ (v.file file).inode = node ∧
    (v.file file).flags &&& oAppend ≠ 0

/--
The file is only appended to: files are opened without `O_TRUNC` and closed at
any time, and written through such descriptors, up to 2 GB.
-/
def OnlyAppends (node : Nat) (v : Vfs) : VfsOp -> Prop
  | VfsOp.openFile _ flags _ => flags &&& oTrunc = 0
  | VfsOp.close _ => True
  | VfsOp.write fd buf => AppendsTo node v fd ∧
      forall file, file ∈ v.fdFile fd ->
        (v.file file).pos.toNat + buf.length < 2 ^ 31
  | _ => False

def appended (v : Vfs) : VfsOp -> CStr
  | VfsOp.write fd buf => if (v.vfsWrite fd buf).1 = -1 then [] else buf
  | _ => []

def content (node : Nat) (v : Vfs) : CStr := (v.inode node).bytes

/-- At all times the file is what it was, and what has been appended behind it. -/
def AppendsKept (node : Nat) (v : Vfs) (ops : List VfsOp) : Prop :=
  forall first, first <+: ops ->
    content node (run exec v first) =
      content node v ++ logged exec appended v first

/-- A write that gets its memory begins at the end of the file, or has no bytes. -/
def AtEnd (v : Vfs) : VfsOp -> Prop
  | VfsOp.write fd buf => forall file, file ∈ v.fdFile fd ->
      ¬ WriteRefused v file buf ->
        (v.file file).pos.toNat =
            (v.inode (v.file file).inode).size.toNat ∨
          buf = [] ∧ (v.file file).pos.toNat ≤
            (v.inode (v.file file).inode).size.toNat
  | _ => True

/-!
# One call
-/

theorem OnlyAppends.accessSound {node : Nat} {o : VfsOp}
    (h : OnlyAppends node v o) : AccessSound v o := by
  cases o with
  | openFile _ _ _ => exact trivial
  | close _ => exact trivial
  | write fd buf =>
      rcases h.left with ⟨file, hfd, _⟩
      have hlt := h.right file hfd
      refine ⟨by omega, fun other hother _ _ => h.right other hother⟩
  | read _ _ => exact absurd h id
  | seek _ _ _ => exact absurd h id
  | mkdir _ _ => exact absurd h id
  | unlink _ => exact absurd h id

theorem content_open (h : StoreInv v) (node : Nat) (path : CStr)
    {flags : UInt32} (mode : UInt16) (htrunc : flags &&& oTrunc = 0) :
    content node (v.vfsOpen path flags mode).2 = content node v := by
  unfold content
  rcases vfsOpen_reopens h.objects path flags mode with
    ⟨_, hsame⟩ | ⟨fd, id, _, hopen, _⟩
  · exact (store_congr (hsame.store node)).left
  · have hstore := hopen.store node
    rw [if_neg fun hid => hid.right htrunc] at hstore
    exact (store_congr hstore).left

theorem content_close (v : Vfs) (node : Nat) (fd : Int) :
    content node (v.vfsClose fd).2 = content node v := by
  have hclose := v.vfsClose_cases fd
  cases hfd : v.fdFile fd with
  | none =>
      rw [hfd] at hclose
      rw [hclose]
  | some file =>
      rw [hfd] at hclose
      rw [hclose]
      rfl

/-- A write is refused and changes nothing, or overwrites from its position. -/
theorem content_write (h : StoreInv v) {node : Nat} {fd : Int} {buf : CStr}
    (hvalid : OnlyAppends node v (VfsOp.write fd buf)) :
    exists file, v.fdFile fd = some file ∧ (v.file file).inode = node ∧
      (WriteRefused v file buf ∧ (v.vfsWrite fd buf).1 = -1 ∧
          content node (v.vfsWrite fd buf).2 = content node v ∨
        ¬ WriteRefused v file buf ∧ (v.vfsWrite fd buf).1 ≠ -1 ∧
          content node (v.vfsWrite fd buf).2 =
            overwrite 0 (content node v) (v.file file).pos.toNat buf) := by
  have hsound := hvalid.accessSound
  rcases hvalid.left with ⟨file, hfd, hnode, _⟩
  have hlen := hvalid.right file hfd
  have hcall : v.vfsWrite fd buf = v.ramfsFileWrite file buf := by
    unfold vfsWrite
    rw [hfd]
    exact if_pos (hasOp_open h.descriptors hfd FileOps.write rfl)
  refine ⟨file, hfd, hnode, ?_⟩
  rw [hcall]
  by_cases hrefused : WriteRefused v file buf
  · rw [ramfsFileWrite_refused hrefused]
    exact Or.inl ⟨hrefused, rfl, rfl⟩
  have hcount : (UInt32.ofNat buf.length).toNat = buf.length :=
    UInt32.toNat_ofNat_of_lt' hsound.left
  have hret := (ramfsFileWrite_given hrefused).left
  rw [toInt_of_lt (by rw [hcount]; omega), hcount] at hret
  have hne : (v.ramfsFileWrite file buf).1 ≠ -1 := by
    rw [hret]
    omega
  rcases ramfsFileWrite_cases h (fdFile_some hfd) hsound.left
    (hsound.right file hfd) with ⟨hfail, _⟩ | ⟨_, hwrites⟩
  · rw [hfail] at hne
    exact absurd rfl hne
  · have hbytes := hwrites.bytes
    rw [hnode] at hbytes
    exact Or.inr ⟨hrefused, hne, hbytes⟩

theorem content_step_iff (h : StoreInv v) {node : Nat} {o : VfsOp}
    (hvalid : OnlyAppends node v o) :
    content node (v.exec o) = content node v ++ appended v o <->
      AtEnd v o := by
  cases o with
  | openFile path flags mode =>
      refine iff_of_true ?_ trivial
      exact (content_open h node path mode hvalid).trans
        (List.append_nil _).symm
  | close fd =>
      refine iff_of_true ?_ trivial
      exact (content_close v node fd).trans (List.append_nil _).symm
  | write fd buf =>
      rcases content_write h hvalid with
        ⟨file, hfd, hnode, ⟨hrefused, hret, hsame⟩ | ⟨hgiven, hret, hbytes⟩⟩
      · refine iff_of_true ?_ fun other hother hne => absurd hrefused ?_
        · unfold appended
          dsimp only
          rw [if_pos hret, List.append_nil]
          exact hsame
        · rw [hfd, Option.mem_some_iff] at hother
          exact hother ▸ hne
      · have hsize : (content node v).length =
            (v.inode (v.file file).inode).size.toNat := by
          unfold content
          rw [hnode, Inode.length_bytes]
        unfold appended exec AtEnd
        dsimp only
        rw [if_neg hret, hbytes, overwrite_eq_append_iff, hsize, hfd]
        simp [hgiven]
  | read _ _ => exact absurd hvalid id
  | seek _ _ _ => exact absurd hvalid id
  | mkdir _ _ => exact absurd hvalid id
  | unlink _ => exact absurd hvalid id

/-!
# Runs
-/

/-- For any number of descriptors, opened and written in any order. -/
theorem appends_kept_iff (h : StoreInv v) (node : Nat) (ops : List VfsOp)
    (hvalid : Meets exec (OnlyAppends node) v ops) :
    AppendsKept node v ops <-> Meets exec AtEnd v ops := by
  unfold AppendsKept
  rw [← meets_append_iff]
  exact Meets.congr_of (P := StoreInv) (fun s o hs ho => content_step_iff hs ho)
    (fun s o hs ho => hs.exec ho.accessSound) h hvalid

def emptyFile : Vfs :=
  run exec plainMount
    [VfsOp.openFile (cstr "/log") (oCreat ||| 1) 0o644, VfsOp.close 0]

theorem storeInv_emptyFile : StoreInv emptyFile := by
  have hmount := storeInv_freshMount (fun _ => false) (cstr "/") 0
  have hopened := hmount.exec
    (o := VfsOp.openFile (cstr "/log") (oCreat ||| 1) 0o644) trivial
  exact hopened.exec (o := VfsOp.close 0) trivial

def twoAppends : List VfsOp :=
  [VfsOp.openFile (cstr "/log") (oAppend ||| 1) 0,
    VfsOp.openFile (cstr "/log") (oAppend ||| 1) 0,
    VfsOp.write 0 (cstr "a"), VfsOp.write 1 (cstr "b")]

theorem twoAppends_valid : Meets exec (OnlyAppends 5) emptyFile twoAppends := by
  have hflags : (oAppend ||| 1) &&& oTrunc = 0 := by decide
  refine ⟨hflags, hflags, ⟨⟨8, ?_⟩, ?_⟩, ⟨⟨9, ?_⟩, ?_⟩, trivial⟩ <;>
    decide +kernel

theorem appends_kept_iff_twoAppends :
    AppendsKept 5 emptyFile twoAppends <->
      Meets exec AtEnd emptyFile twoAppends :=
  appends_kept_iff storeInv_emptyFile 5 twoAppends twoAppends_valid

/-- The second one overwrites what the first has written. -/
theorem append_overwritten :
    Meets exec (OnlyAppends 5) emptyFile twoAppends ∧
      content 5 (run exec emptyFile twoAppends) = cstr "b" ∧
      ¬ AppendsKept 5 emptyFile twoAppends := by
  refine ⟨twoAppends_valid, by decide +kernel, fun hkept => ?_⟩
  exact absurd (hkept twoAppends List.prefix_rfl) (by decide +kernel)

end Vfs
end Fs
end EarlnuxOS
