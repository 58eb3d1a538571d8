import EarlnuxOS.Fs.Refinement
import EarlnuxOS.Fs.Splitting

/-!
# Whole files

What a path's file holds, from the open that creates it over the writes that
follow one another to the read that gets it back.
-/

namespace EarlnuxOS
namespace Fs
namespace Vfs

open Foundation

variable {v v' : Vfs}

def fileAt (v : Vfs) (path : CStr) : Option CStr :=
  (v.pathNode path).map v.abs.content

/-- A path below a mount that lookup and creation take apart in the same way. -/
def PlainRest (rest : CStr) : Prop :=
  rest.length < pathMax ∧ (rest = [] ∨ NamesLast rest ∧ Fits rest)

instance (path : CStr) : Decidable (NamesLast path) :=
  inferInstanceAs (Decidable (_ ∧ _ ∧ _))

instance (rest : CStr) : Decidable (PlainRest rest) :=
  inferInstanceAs (Decidable (_ ∧ _))

/-- What `vfs_find_mount` leaves of the path is plain. -/
def Plain (v : Vfs) (path : CStr) : Prop :=
  forall found, found ∈ v.findMount path -> PlainRest found.2

instance (v : Vfs) (path : CStr) : Decidable (v.Plain path) :=
  match hmount : v.findMount path with
  | none => isTrue (by simp [Plain, hmount])
  | some found =>
      decidable_of_iff (PlainRest found.2) (by simp [Plain, hmount])

theorem Plain.rest {path rest : CStr} {mnt : Mountpoint} (h : v.Plain path)
    (hmount : v.findMount path = some (mnt, rest)) : PlainRest rest :=
  h (mnt, rest) hmount

theorem plain_of_tails {path : CStr}
    (h : forall rest, rest ∈ path.tails -> PlainRest rest) : v.Plain path := by
  intro found hmount
  apply h
  rw [List.mem_tails]
  unfold findMount at hmount
  split at hmount
  · cases hmount
  · cases hmount
    exact (List.dropWhile_suffix _).trans (List.drop_suffix _ _)

theorem pathNode_congr (hmounts : v'.mountList = v.mountList)
    (hdirs : SameDirs v v') (path : CStr) :
    v'.pathNode path = v.pathNode path := by
  unfold pathNode
  rw [findMount_congr hmounts]
  cases v.findMount path with
  | none => rfl
  | some found => exact resolve_congr hdirs found.1.root found.2

/-!
# Writing
-/

/-- A file behind whose first bytes, the text, the next write goes. -/
structure Writing (v : Vfs) (path : CStr) (fd : Int) (old text : CStr) :
    Prop where
  inv : StoreInv v
  node : exists id, v.pathNode path = some id ∧
    v.abs.descOf fd = some (id, text.length) ∧
    v.abs.content id = overwrite 0 old 0 text

theorem pathNode_opened (hi : ObjInv v) {path : CStr} (hplain : v.Plain path)
    {flags : UInt32} {mode : UInt16} {fd node : Nat}
    (hresult : (v.vfsOpen path flags mode).1 = fd)
    (hopen : Reopens v (v.vfsOpen path flags mode).2 fd node flags) :
    (v.vfsOpen path flags mode).2.pathNode path = some node := by
  cases hmount : v.findMount path with
  | none =>
      unfold vfsOpen at hresult
      rw [hmount] at hresult
      cases hresult
  | some found =>
      rcases found with ⟨mnt, rest⟩
      have hi' := hi.exec (VfsOp.openFile path flags mode)
      have hroot := hi.root mnt (findMount_mem hmount)
      rcases hplain.rest hmount with ⟨hlen, hrest⟩
      rcases vfsOpen_node hi hmount hresult (Int.natCast_nonneg fd) with
        ⟨node', hdesc, _, hmounts, hcases⟩
      have hnode : node' = node := by
        rw [hopen.descNode] at hdesc
        exact (Option.some.inj hdesc).symm
      rw [hnode] at hcases
      unfold pathNode
      rw [findMount_congr hmounts, hmount]
      dsimp only
      rcases hcases with ⟨hres, hsame⟩ | ⟨hres, hcreates⟩
      · rw [resolve_congr hsame]
        exact hres
      · rcases hrest with hnil | ⟨hlast, hfits⟩
        · rw [hnil] at hres
          cases hres
        · exact (hcreates.resolve hi hi' hroot hlen hlast).mpr hfits

/-- An open that neither truncates nor appends starts at the front. -/
theorem Reopens.front (hi : ObjInv v) {fd node : Nat} {flags : UInt32}
    (h : Reopens v v' fd node flags) (htrunc : flags &&& oTrunc = 0)
    (happend : flags &&& oAppend = 0) :
    v'.abs.descOf fd = some (node, 0) ∧
      v'.abs.content node = v.abs.content node := by
  have hbound := h.bound
  rw [(abs_reopens hi h).right]
  constructor
  · unfold RefFs.descOf RefFs.reopen RefFs.setDesc
    rw [if_neg (by omega), if_pos happend]
    exact Function.update_self _ _ _
  · unfold RefFs.reopen RefFs.setContent RefFs.opened
    rw [if_pos htrunc]
    exact Function.update_self _ _ _

theorem writing_opened (h : StoreInv v) {path : CStr} (hplain : v.Plain path)
    {flags : UInt32} {mode : UInt16} {fd : Int}
    (htrunc : flags &&& oTrunc = 0) (happend : flags &&& oAppend = 0)
    (hfd : (v.vfsOpen path flags mode).1 = fd) (hnonneg : 0 ≤ fd) :
    Writing (v.vfsOpen path flags mode).2 path fd ((v.fileAt path).getD [])
      [] := by
  rcases vfsOpen_reopens h.objects path flags mode with
    ⟨hfail, _⟩ | ⟨slot, node, hresult, hopen, hfound⟩
  · omega
  · have hnode := pathNode_opened h.objects hplain hresult hopen
    have hfront := hopen.front h.objects htrunc happend
    have hold : v.abs.content node = (v.fileAt path).getD [] := by
      unfold fileAt
      rcases hfound with hfound | ⟨hnone, hnew, _⟩
      · rw [hfound]
        rfl
      · rw [hnone]
        show (v.inode node).bytes = []
        rw [inode_unknown hnew]
        rfl
    have hslot : fd = slot := hfd.symm.trans hresult
    rw [hslot]
    refine ⟨h.exec (o := VfsOp.openFile path flags mode) trivial, node, hnode,
      hfront.left, ?_⟩
    rw [hfront.right, overwrite_nil]
    exact hold

theorem descOf_some {fd : Int} {id pos : Nat}
    (h : v.abs.descOf fd = some (id, pos)) :
    exists file, v.fdFile fd = some file ∧ (v.file file).inode = id ∧
      (v.file file).pos.toNat = pos := by
  rw [descOf_abs] at h
  rcases Option.map_eq_some_iff.mp h with ⟨file, hfile, hpair⟩
  exact ⟨file, hfile, congrArg Prod.fst hpair, congrArg Prod.snd hpair⟩

theorem Writing.write {path : CStr} {fd : Int} {old text buf : CStr}
    (h : Writing v path fd old text) (hlen : text.length + buf.length < 2 ^ 31)
    (hresult : 0 ≤ (v.vfsWrite fd buf).1) :
    Writing (v.vfsWrite fd buf).2 path fd old (text ++ buf) := by
  rcases h.node with ⟨id, hnode, hdesc, hcontent⟩
  have hkeeps := keeps_write v fd buf
  have hpos : Positioned v (VfsOp.write fd buf) := by
    refine ⟨by omega, ?_⟩
    intro file hfile
    rcases descOf_some hdesc with ⟨file', hfile', _, hpos'⟩
    rw [hfile', Option.mem_some] at hfile
    rw [← hfile, hpos']
    exact hlen
  have hstep := step_write h.inv fd buf hpos
  unfold RefFs.Step event at hstep
  dsimp only at hstep
  rw [hdesc] at hstep
  rcases hstep with ⟨hfail, _⟩ | ⟨_, habs⟩
  · omega
  · change (v.vfsWrite fd buf).2.abs = _ at habs
    refine ⟨h.inv.exec hpos.accessSound, id, ?_, ?_, ?_⟩
    · rw [pathNode_congr hkeeps.mountList hkeeps.sameDirs]
      exact hnode
    · rw [habs, List.length_append]
      unfold RefFs.descOf at hdesc ⊢
      split at hdesc
      · cases hdesc
      · rename_i hbound
        rw [if_neg hbound]
        exact Function.update_self _ _ _
    · have hnew := overwrite_append (0 : UInt8) old text buf 0
      rw [habs, ← hnew, ← hcontent, Nat.zero_add]
      exact Function.update_self _ _ _

theorem Writing.close {path : CStr} {fd : Int} {old text : CStr}
    (h : Writing v path fd old text) :
    StoreInv (v.vfsClose fd).2 ∧
      (v.vfsClose fd).2.fileAt path = some (overwrite 0 old 0 text) := by
  rcases h.node with ⟨id, hnode, hdesc, hcontent⟩
  rcases descOf_some hdesc with ⟨file, hfile, _, _⟩
  have hclose := v.vfsClose_cases fd
  rw [hfile] at hclose
  dsimp only at hclose
  have hmounts : (v.vfsClose fd).2.mountList = v.mountList := by
    rw [hclose]
    rfl
  have hdirs : SameDirs v (v.vfsClose fd).2 := by
    rw [hclose]
    exact ⟨fun _ => rfl, fun _ => rfl⟩
  refine ⟨h.inv.exec (o := VfsOp.close fd) trivial, ?_⟩
  unfold fileAt
  rw [pathNode_congr hmounts hdirs, hnode, Option.map_some, hclose,
    abs_release, ← hcontent]
  rfl

/-!
# Reading
-/

theorem read_opened (h : StoreInv v) {path : CStr} {flags : UInt32}
    {mode : UInt16} {fd : Int} {len : UInt32} (htrunc : flags &&& oTrunc = 0)
    (happend : flags &&& oAppend = 0) (hcreat : flags &&& oCreat = 0)
    (hfd : (v.vfsOpen path flags mode).1 = fd) (hnonneg : 0 ≤ fd)
    (hlen : len.toNat < 2 ^ 31) :
    exists content, v.fileAt path = some content ∧
      ((v.vfsOpen path flags mode).2.vfsRead fd len).2.1 =
        content.take len.toNat := by
  rcases vfsOpen_reopens h.objects path flags mode with
    ⟨hfail, _⟩ | ⟨slot, node, hresult, hopen, hfound⟩
  · omega
  · have hinv := h.exec (o := VfsOp.openFile path flags mode) trivial
    have hslot : fd = slot := hfd.symm.trans hresult
    rcases hopen.front h.objects htrunc happend with ⟨hdesc, hcontent⟩
    rw [← hslot] at hdesc
    refine ⟨v.abs.content node, ?_, ?_⟩
    · unfold fileAt
      rcases hfound with hfound | ⟨_, _, hneeds⟩
      · rw [hfound]
        rfl
      · exact absurd hcreat hneeds
    · have hstep := step_read hinv fd len (by
        intro file hfile
        rcases descOf_some hdesc with ⟨file', hfile', _, hpos⟩
        change file ∈ (v.vfsOpen path flags mode).2.fdFile fd at hfile
        rw [hfile', Option.mem_some] at hfile
        rw [← hfile]
        change ((v.vfsOpen path flags mode).2.file file').pos.toNat + _ < _
        omega)
      unfold RefFs.Step event at hstep
      dsimp only at hstep
      have hdesc' : (v.exec (VfsOp.openFile path flags mode)).abs.descOf fd =
          some (node, 0) := hdesc
      rw [hdesc'] at hstep
      rw [← hcontent]
      exact hstep.left

end Vfs
end Fs
end EarlnuxOS
