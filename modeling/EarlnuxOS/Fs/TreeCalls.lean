import EarlnuxOS.Fs.Requests
import EarlnuxOS.Fs.TreeStates

/-!
# The calls on a tree

What each call of the virtual file system does to the tree of a mounted ramfs
while there is memory.
-/

namespace EarlnuxOS
namespace Fs
namespace Vfs

open Foundation NamedPaths

variable {v v' : Vfs} {root : Nat} {t : FileTree}

/-!
# Looking
-/

theorem Shows.keeps (h : Shows v root t) (hkeeps : Keeps v v')
    (hfails : v'.fails = v.fails) (hcontent : v'.abs.content = v.abs.content) :
    Shows v' root t :=
  h.still (h.objects.keeps hkeeps)
    (Still.of_dirs hkeeps.sameDirs hkeeps.mountList hfails hcontent)

theorem Shows.noRefs (h : Shows v root t) (hsame : v'.noRefs = v.noRefs) :
    Shows v' root t := by
  refine h.keeps (keeps_noRefs hsame) (asks_noRefs hsame).fails ?_
  rw [abs_sameStore h.objects (sameStore_noRefs hsame)]

theorem Shows.open_failed (h : Shows v root t) {path : CStr} {flags : UInt32}
    {mode : UInt16} (hfail : (v.vfsOpen path flags mode).1 = -1) :
    Shows (v.vfsOpen path flags mode).2 root t := by
  refine h.still (h.objects.exec (VfsOp.openFile path flags mode))
    (Still.of_visible (vfsOpen_failed h.objects.handedOut hfail)
      (v.asks_vfsOpen path flags mode).fails ?_)
  rcases vfsOpen_reopens h.objects path flags mode with
    ⟨_, hsame⟩ | ⟨fd, node, hfd, _⟩
  · rw [abs_sameStore h.objects hsame]
  · omega

theorem Shows.opened (h : Shows v root t) (path : CStr) {flags : UInt32}
    (hcreat : flags &&& oCreat = 0) (htrunc : flags &&& oTrunc = 0)
    (mode : UInt16) : Shows (v.vfsOpen path flags mode).2 root t := by
  have hi' := h.objects.exec (VfsOp.openFile path flags mode)
  have hfails := (v.asks_vfsOpen path flags mode).fails
  have hcontent := content_opened h.objects path htrunc mode
  rcases vfsOpen_reopens h.objects path flags mode with
    ⟨hfail, _⟩ | ⟨fd, node, hfd, _, _⟩
  · exact h.open_failed hfail
  · have hopened : 0 ≤ (v.vfsOpen path flags mode).1 := by
      rw [hfd]
      exact Int.natCast_nonneg fd
    rcases sameDirs_opened h.objects hcreat hopened with ⟨hmounts, hdirs⟩
    exact h.still hi' (Still.of_dirs hdirs hmounts hfails hcontent)

theorem Shows.close (h : Shows v root t) (fd : Int) :
    Shows (v.vfsClose fd).2 root t := by
  have hi' := h.objects.exec (VfsOp.close fd)
  have hfails := (v.asks_vfsClose fd).fails
  have hcases := v.vfsClose_cases fd
  change ObjInv (v.vfsClose fd).2 at hi'
  cases hfd : v.fdFile fd with
  | none =>
      rw [hfd] at hcases
      rw [hcases]
      exact h
  | some file =>
      rw [hfd] at hcases
      rw [hcases] at hi' hfails ⊢
      exact h.still hi' (Still.of_dirs ⟨fun _ => rfl, fun _ => rfl⟩ rfl hfails rfl)

/-!
# Entries
-/

theorem sIsdir_new (kind mode : UInt16) :
    sIsdir (kind ||| (mode &&& 0o777)) = sIsdir kind := by
  have hbits : (0o777 : UInt16).toBitVec &&& sIfmt.toBitVec = 0#16 := by decide
  have hfmt : (kind ||| (mode &&& 0o777)) &&& sIfmt = kind &&& sIfmt := by
    apply UInt16.toBitVec_inj.mp
    rw [UInt16.toBitVec_and, UInt16.toBitVec_or, UInt16.toBitVec_and,
      BitVec.and_or_distrib_right, BitVec.and_assoc, hbits, BitVec.and_zero,
      BitVec.or_zero, UInt16.toBitVec_and]
  unfold sIsdir
  rw [hfmt]

theorem Shows.ramfsCreate (h : Shows v root t) {p : List Name} {n : Name}
    {dir : Nat} (hp : v.treeWalk root p = some dir)
    (hdir : sIsdir (v.inode dir).mode = true)
    (hnone : t.node (p ++ [n]) = none) (mode : UInt16) :
    exists id t', (v.ramfsCreate dir n.text mode).1 = some id ∧
      t.make p n (sIsdir mode) = some t' ∧
      Shows (v.ramfsCreate dir n.text mode).2 root t' ∧
      (v.ramfsCreate dir n.text mode).2.treeWalk root (p ++ [n]) = some id := by
  have hi := h.objects
  have hknown := h.known hp
  have hlt := hi.inode_lt dir hknown
  have hmemory : v.hasMemory 3 = true :=
    (hasMemory_iff v 3).mpr fun i _ => h.memory _
  have hid : (v.ramfsCreate dir n.text mode).1 = some v.nextId := by
    rw [ramfsCreate_given hmemory]
  have hinserts := ramfsCreate_inserts hi hknown hid
  have hcontent := congrArg RefFs.content (abs_sameStore hi
    (sameStore_ramfsCreate hi.unknown_next dir n.text mode))
  rcases v.ramfsCreate_cases n.text mode hknown (Nat.ne_of_lt hlt) with
    ⟨hfail, _⟩ | ⟨_, hadds⟩
  · rw [hfail] at hid
    cases hid
  · rcases h.make (hi.adds hadds hlt) hadds.mountList
      (v.asks_ramfsCreate dir n.text mode).fails hcontent hinserts hp hdir hnone with
      ⟨t', hmake, hshows⟩
    refine ⟨v.nextId, t', hid, hmake, hshows, ?_⟩
    have hfree := (h.nameStep_eq_none hp).mpr hnone
    have hwalk := (hinserts.extends hknown hdir).walk (branching hi) hp hfree
      (fun q hq => h.known hq hinserts.fresh) (p ++ [n])
    rw [if_pos rfl] at hwalk
    exact hwalk

theorem Shows.mkdir (h : Shows v root t) {path : CStr} {p : List Name}
    {n : Name} (hends : Ends path p n) (hnone : t.node (p ++ [n]) = none)
    (mode : UInt16) :
    match t.make p n true with
    | none => (v.vfsMkdir path mode).1 = -1 ∧
        Shows (v.vfsMkdir path mode).2 root t
    | some t' => (v.vfsMkdir path mode).1 = 0 ∧
        Shows (v.vfsMkdir path mode).2 root t' := by
  rcases findMount_mounted h.mounted hends.absolute with ⟨flags, hmount⟩
  rcases v.getInode_eq root (pathDirname (behindRoot path) pathMax) with
    ⟨w, hw, hsame⟩
  have hshows := h.noRefs hsame
  have hdirs := sameDirs_noRefs hsame
  have hmake := FileTree.make_eq_none hnone true
  have hop : ¬ ¬ ramfsType.mkdir = true := not_not.mpr rfl
  unfold vfsMkdir
  rw [hmount]
  dsimp only
  rw [if_neg hop]
  unfold ramfsFsMkdir
  dsimp only
  rw [hw, hends.dirname]
  cases hp : v.treeWalk root p with
  | none =>
      rw [hmake.mpr (h.isDirAt_none hp)]
      exact ⟨rfl, hshows⟩
  | some dir =>
      have hp' := (treeWalk_congr hdirs root p).trans hp
      have hisdir := hshows.isDirAt hp'
      dsimp only
      by_cases hdir : sIsdir (w.inode dir).mode = true
      · rw [if_neg (not_not.mpr hdir), hends.basename]
        rcases hshows.ramfsCreate hp' hdir hnone (sIfdir ||| (mode &&& 0o777))
          with ⟨id, t', hid, hgrown, hnew, _⟩
        have hkind : sIsdir (sIfdir ||| (mode &&& 0o777)) = true :=
          (sIsdir_new sIfdir mode).trans rfl
        rw [hkind] at hgrown
        rw [hgrown]
        unfold ramfsMkdir
        cases hc : w.ramfsCreate dir n.text (sIfdir ||| (mode &&& 0o777)) with
        | mk created u =>
            rw [hc] at hid hnew
            cases hid
            exact ⟨rfl, hnew⟩
      · rw [if_pos hdir]
        rw [Bool.not_eq_true] at hdir
        rw [hmake.mpr (hisdir.trans hdir)]
        exact ⟨rfl, hshows⟩

/-!
# Opening for a writer
-/

/-- The path can be found, or has a last name to be created. -/
def Reaches (t : FileTree) (path : CStr) (q : List Name) : Prop :=
  path.head? = some slash ∧ spelled path = some q ∧
    (t.node q = none -> exists p n, q = p ++ [n] ∧ Ends path p n)

theorem Shows.findOrCreate (h : Shows v root t) {path : CStr} {q : List Name}
    (hq : Reaches t path q) {mnt : Mountpoint} (hmnt : mnt.root = root)
    {flags : UInt32} (hcreat : flags &&& oCreat ≠ 0) (mode : UInt16) :
    match t.touch q with
    | none => (v.findOrCreate mnt (behindRoot path) flags mode).1 = none
    | some t' => exists node w,
        v.findOrCreate mnt (behindRoot path) flags mode = (some node, w) ∧
        Shows w root t' ∧ w.treeWalk root q = some node := by
  rcases hq with ⟨_, hspelled, hlast⟩
  have hresolve := v.resolve_spelled root
    ((spelled_behindRoot path).trans hspelled)
  rcases v.getInode_eq root (behindRoot path) with ⟨w, hw, hsame⟩
  have hshows := h.noRefs hsame
  have hdirs := sameDirs_noRefs hsame
  unfold Vfs.findOrCreate FileTree.touch
  rw [hmnt, hw, hresolve]
  cases hwalk : v.treeWalk root q with
  | some node =>
      have hnode : t.node q ≠ none := by
        rw [ne_eq, ← h.treeWalk_eq_none, hwalk]
        exact Option.some_ne_none node
      rw [if_neg hnode]
      exact ⟨node, w, rfl, hshows, (treeWalk_congr hdirs root q).trans hwalk⟩
  | none =>
      have hnone := h.treeWalk_eq_none.mp hwalk
      rcases hlast hnone with ⟨p, n, heq, hends⟩
      rw [if_pos hnone, heq, FileTree.atLast_concat]
      rw [heq] at hnone
      have hmake := FileTree.make_eq_none hnone false
      rcases w.getInode_eq root (pathDirname (behindRoot path) pathMax) with
        ⟨u, hu, hsame'⟩
      have hshows' := hshows.noRefs hsame'
      have hdirs' := hdirs.trans (sameDirs_noRefs hsame')
      dsimp only
      rw [if_neg hcreat, hu, hends.dirname, treeWalk_congr hdirs]
      cases hp : v.treeWalk root p with
      | none => rw [hmake.mpr (h.isDirAt_none hp)]
      | some dir =>
          have hp' := (treeWalk_congr hdirs' root p).trans hp
          have hisdir := hshows'.isDirAt hp'
          dsimp only
          by_cases hdir : sIsdir (u.inode dir).mode = true
          · rw [if_neg (not_not.mpr hdir), hends.basename]
            rcases hshows'.ramfsCreate hp' hdir hnone
              (sIfreg ||| (mode &&& 0o777)) with ⟨id, t', hid, hgrown, hnew, hat⟩
            have hkind : sIsdir (sIfreg ||| (mode &&& 0o777)) = false :=
              (sIsdir_new sIfreg mode).trans rfl
            rw [hkind] at hgrown
            rw [hgrown]
            exact ⟨id, _, Prod.ext hid rfl, hnew, hat⟩
          · rw [if_pos hdir]
            rw [Bool.not_eq_true] at hdir
            rw [hmake.mpr (hisdir.trans hdir)]

/-- The file of an open comes to refer to the inode, which may be truncated. -/
theorem Shows.attaches (h : Shows v root t) (hi' : ObjInv v') {file node : Nat}
    {flags : UInt32} (hattach : Attaches v v' file node flags)
    (hfails : v'.fails = v.fails) {q : List Name}
    (hq : v.treeWalk root q = some node) :
    Shows v' root (if flags &&& oTrunc = 0 then t else t.fill q []) := by
  split
  · rename_i hkeep
    refine h.still hi' (Still.of_dirs hattach.sameDirs hattach.mountList hfails ?_)
    funext j
    show (v'.inode j).bytes = (v.inode j).bytes
    rw [hattach.inode, if_neg fun hor => hor.right hkeep]
  · rename_i htrunc
    refine h.fill hi' hattach.sameDirs hattach.mountList hfails hq ?_
    funext j
    show (v'.inode j).bytes = _
    rw [hattach.inode, Function.update_apply]
    by_cases hj : j = node
    · rw [if_pos ⟨hj, htrunc⟩, if_pos hj]
      rfl
    · rw [if_neg fun hor => hj hor.left, if_neg hj]
      rfl

theorem Shows.opens (h : Shows v root t) {path : CStr} {q : List Name}
    (hq : Reaches t path q) {slot : Nat}
    (hslot : freeSlot v.fdTable 0 fdMax = some slot) {flags : UInt32}
    (hcreat : flags &&& oCreat ≠ 0) (happend : flags &&& oAppend = 0)
    (mode : UInt16) :
    match t.touch q with
    | none => (v.vfsOpen path flags mode).1 = -1 ∧
        Shows (v.vfsOpen path flags mode).2 root t
    | some t' => (v.vfsOpen path flags mode).1 = slot ∧
        Shows (v.vfsOpen path flags mode).2 root
          (if flags &&& oTrunc = 0 then t' else t'.fill q []) ∧
        exists node, (v.vfsOpen path flags mode).2.treeWalk root q = some node ∧
          (v.vfsOpen path flags mode).2.abs.descOf slot = some (node, 0) := by
  rcases findMount_mounted h.mounted hq.left with ⟨mflags, hmount⟩
  have hfree := freeSlot_none hslot
  have hopening := h.objects.opening flags hfree
  have hshows : Shows (v.opening flags slot) root t :=
    h.still hopening (Still.of_dirs ⟨fun _ => rfl, fun _ => rfl⟩ rfl rfl rfl)
  have hroot : (⟨[slash], root, ramfsType, mflags⟩ : Mountpoint).root = root := rfl
  have hfound := hshows.findOrCreate hq hroot hcreat mode
  have hvalue := vfsOpen_eq v flags mode hmount rfl
  rw [h.memory, if_neg Bool.false_ne_true, hslot] at hvalue
  dsimp only at hvalue
  cases htouch : t.touch q with
  | none =>
      rw [htouch] at hfound
      have hneg : (v.vfsOpen path flags mode).1 = -1 := by
        have hopen := mt (ramfsFsOpen_zero (v.opening flags slot) _ _ flags mode
          v.nextId).mp (not_not.mpr hfound)
        rw [hvalue, if_pos (ramfsFsOpen_neg hopen)]
      exact ⟨hneg, h.open_failed hneg⟩
  | some t' =>
      rw [htouch] at hfound
      rcases hfound with ⟨node, w, hresult, hw, hwalk⟩
      have hattach := ramfsFsOpen_attaches v.nextId hresult (hw.known hwalk)
      have hcreates := (findOrCreate_creates hopening (findMount_mem hmount)
        (behindRoot path) flags mode).left
      rw [hresult] at hcreates
      rw [hattach.left, if_neg (by decide)] at hvalue
      have hi' := h.objects.exec (VfsOp.openFile path flags mode)
      have hfails := (v.asks_vfsOpen path flags mode).fails.trans
        ((funext hshows.memory).trans (funext hw.memory).symm)
      change ObjInv (v.vfsOpen path flags mode).2 at hi'
      rw [hvalue] at hi' hfails ⊢
      have hdirs := hattach.right.sameDirs
      refine ⟨rfl, hw.attaches hi' hattach.right hfails hwalk, node,
        (treeWalk_congr hdirs root q).trans hwalk, ?_⟩
      have hbound := freeSlot_lt hslot
      generalize ((v.opening flags slot).ramfsFsOpen _ _ flags mode
        v.nextId).2 = u at hattach ⊢
      have htable : u.fdTable slot = some v.nextId := by
        rw [hattach.right.fdTable, hcreates.fdTable]
        exact Function.update_self _ _ _
      rw [descOf_abs]
      unfold fdFile
      rw [if_neg (by omega), Int.toNat_natCast, htable, Option.map_some,
        hattach.right.opened, if_pos happend]
      rfl

/-!
# Removing
-/

theorem vfsUnlink_ends (h : Shows v root t) {path : CStr} {p : List Name}
    {n : Name} (hends : Ends path p n) :
    exists w, w.noRefs = v.noRefs ∧
      v.vfsUnlink path =
        match v.treeWalk root p with
        | none => (-1, w)
        | some dir =>
            if sIsdir (w.inode dir).mode then w.ramfsUnlink dir n.text
            else (-1, w) := by
  rcases findMount_mounted h.mounted hends.absolute with ⟨flags, hmount⟩
  rcases v.getInode_eq root (pathDirname (behindRoot path) pathMax) with
    ⟨w, hw, hsame⟩
  have hop : ¬ ¬ ramfsType.unlink = true := not_not.mpr rfl
  refine ⟨w, hsame, ?_⟩
  unfold vfsUnlink
  rw [hmount]
  dsimp only
  rw [if_neg hop]
  unfold ramfsFsUnlink
  dsimp only
  rw [hw, hends.dirname, hends.basename]
  cases v.treeWalk root p with
  | none => rfl
  | some dir =>
      dsimp only
      by_cases hdir : sIsdir (w.inode dir).mode = true
      · rw [if_pos hdir, if_neg (not_not.mpr hdir)]
      · rw [if_neg hdir, if_pos hdir]

/-- An entry goes with all that is below it, or there is none of that name. -/
theorem Shows.unlink (h : Shows v root t) {path : CStr} {p : List Name}
    {n : Name} (hends : Ends path p n) :
    match t.remove p n with
    | none => (v.vfsUnlink path).1 = -1 ∧ Shows (v.vfsUnlink path).2 root t
    | some t' => (v.vfsUnlink path).1 = 0 ∧
        Shows (v.vfsUnlink path).2 root t' := by
  rcases vfsUnlink_ends h hends with ⟨w, hsame, heq⟩
  have hw := h.noRefs hsame
  have hfails := (v.asks_vfsUnlink path).fails.trans
    (asks_noRefs hsame).fails.symm
  have hmode : forall j, ((v.vfsUnlink path).2.inode j).mode =
      (w.inode j).mode := by
    intro j
    rw [mode_vfsUnlink, mode_congr hsame]
  have hcontent : (v.vfsUnlink path).2.abs.content = w.abs.content := by
    rw [abs_sameStore h.objects (sameStore_vfsUnlink v path),
      abs_sameStore h.objects (sameStore_noRefs hsame)]
  have hwalk := treeWalk_congr (sameDirs_noRefs hsame) root p
  have hstays : t.node (p ++ [n]) = none ->
      (-1, w) = v.vfsUnlink path ->
      match t.remove p n with
      | none => (v.vfsUnlink path).1 = -1 ∧ Shows (v.vfsUnlink path).2 root t
      | some t' => (v.vfsUnlink path).1 = 0 ∧
          Shows (v.vfsUnlink path).2 root t' := by
    intro hnone hresult
    unfold FileTree.remove
    rw [if_pos hnone, ← hresult]
    exact ⟨rfl, hw⟩
  cases hp : v.treeWalk root p with
  | none =>
      rw [hp] at heq
      exact hstays (t.node_below (h.treeWalk_eq_none.mp hp) n) heq.symm
  | some dir =>
      rw [hp] at heq hwalk
      dsimp only at heq
      by_cases hdir : sIsdir (w.inode dir).mode = true
      · rw [if_pos hdir] at heq
        have hstep := hw.nameStep_eq_none hwalk (n := n)
        have hcases := ramfsUnlink_cases hw.objects dir n.text
        unfold nameStep at hstep
        rw [if_pos hdir, lookup_eq] at hstep
        cases hfind : (w.inode dir).entries.find?
            (fun de => strncmpEq de.name n.text nameMax) with
        | none =>
            rw [hfind] at hcases hstep
            exact hstays (hstep.mp rfl) (hcases.symm.trans heq.symm)
        | some victim =>
            rw [hfind] at hcases hstep
            have hsome : t.node (p ++ [n]) ≠ none := by
              rw [ne_eq, ← hstep]
              exact Option.some_ne_none _
            have hnamed := hw.named p dir hwalk victim
              (List.mem_of_find?_eq_some hfind)
            have hcmp := cmp_name ⟨victim.name, hnamed⟩ n
            rw [List.find?_some hfind] at hcmp
            have hvictim := congrArg Name.text (of_decide_eq_true hcmp.symm)
            rw [heq] at hfails hmode hcontent ⊢
            rcases hw.remove (hw.objects.removes hcases.right) hfails hmode
              hcontent hcases.right hwalk hvictim hsome with ⟨t', hremove, hshows⟩
            rw [hremove]
            exact ⟨hcases.left, hshows⟩
      · rw [if_neg hdir] at heq
        have hstep := hw.nameStep_eq_none hwalk (n := n)
        unfold nameStep at hstep
        rw [if_neg hdir] at hstep
        exact hstays (hstep.mp rfl) heq.symm

/-!
# Writing
-/

/-- A descriptor behind the text that is all its file holds. -/
structure Fills (v : Vfs) (root : Nat) (t : FileTree) (q : List Name)
    (fd : Int) (text : CStr) : Prop where
  inv : StoreInv v
  shows : Shows v root (t.fill q text)
  desc : exists id, v.treeWalk root q = some id ∧
    v.abs.descOf fd = some (id, text.length) ∧ v.abs.content id = text

theorem Shows.fills (hinv : StoreInv v) {q : List Name} {fd : Int} {node : Nat}
    (h : Shows v root (t.fill q [])) (hwalk : v.treeWalk root q = some node)
    (hdesc : v.abs.descOf fd = some (node, 0)) : Fills v root t q fd [] := by
  refine ⟨hinv, h, node, hwalk, hdesc, ?_⟩
  have hnode := h.node_eq q
  rw [hwalk, FileTree.fill_self] at hnode
  rcases Option.map_eq_some_iff.mp hnode with ⟨d, _, heq⟩
  exact (congrArg TreeNode.content heq).symm

theorem Fills.write {q : List Name} {fd : Int} {text buf : CStr}
    (h : Fills v root t q fd text)
    (hlen : text.length + buf.length < 2 ^ 31) :
    Fills (v.vfsWrite fd buf).2 root t q fd (text ++ buf) := by
  rcases h.desc with ⟨id, hwalk, hdesc, hcontent⟩
  rcases descOf_some hdesc with ⟨file, hfile, _, hpos⟩
  have hkeeps := keeps_write v fd buf
  have hpositioned : Positioned v (VfsOp.write fd buf) := by
    refine ⟨by omega, fun file' hfile' => ?_⟩
    rw [hfile, Option.mem_some] at hfile'
    rw [← hfile', hpos]
    exact hlen
  have hstep := step_write h.inv fd buf hpositioned
  unfold RefFs.Step event at hstep
  dsimp only at hstep
  rw [hdesc] at hstep
  rcases hstep with ⟨_, hmemory, _⟩ | ⟨_, habs⟩
  · rw [h.shows.memory] at hmemory
    cases hmemory
  · change (v.vfsWrite fd buf).2.abs = _ at habs
    have hbehind : overwrite (0 : UInt8) (v.abs.content id) text.length buf =
        text ++ buf := by
      rw [hcontent, overwrite_eq_append_iff]
      exact Or.inl rfl
    rw [hbehind] at habs
    have hnew := congrArg RefFs.content habs
    have hshows := h.shows.fill (h.shows.objects.keeps hkeeps) hkeeps.sameDirs
      hkeeps.mountList (v.asks_vfsWrite fd buf).fails hwalk hnew
    rw [FileTree.fill_fill] at hshows
    refine ⟨h.inv.exec hpositioned.accessSound, hshows, id,
      (treeWalk_congr hkeeps.sameDirs root q).trans hwalk, ?_, ?_⟩
    · rw [habs, List.length_append]
      unfold RefFs.descOf at hdesc ⊢
      split at hdesc
      · cases hdesc
      · rename_i hbound
        rw [if_neg hbound]
        exact Function.update_self _ _ _
    · rw [hnew]
      exact Function.update_self _ _ _

end Vfs
end Fs
end EarlnuxOS
