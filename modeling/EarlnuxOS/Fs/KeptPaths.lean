import EarlnuxOS.Fs.Failures
import EarlnuxOS.Fs.Subtrees
import EarlnuxOS.Fs.WholeFiles

/-!
# Paths that stay

A call that creates what its path did not lead to gives the directory a name
that it did not have.  Every path that led somewhere before leads there still.
-/

namespace EarlnuxOS
namespace Fs
namespace Vfs

open Foundation

variable {v v' : Vfs}

/-- What is found in a directory is found there again. -/
structure KeepsNames (v v' : Vfs) : Prop where
  mountList : v'.mountList = v.mountList
  known : forall dir, v.inodes dir ≠ none -> v'.inodes dir ≠ none
  mode : forall dir, v.inodes dir ≠ none ->
    (v'.inode dir).mode = (v.inode dir).mode
  lookup : forall dir name id, v.inodes dir ≠ none ->
    v.lookup dir name = some id -> v'.lookup dir name = some id

namespace KeepsNames

theorem refl (v : Vfs) : KeepsNames v v :=
  ⟨rfl, fun _ h => h, fun _ _ => rfl, fun _ _ _ _ h => h⟩

theorem trans {w : Vfs} (h : KeepsNames v v') (h' : KeepsNames v' w) :
    KeepsNames v w where
  mountList := h'.mountList.trans h.mountList
  known := fun dir hdir => h'.known dir (h.known dir hdir)
  mode := fun dir hdir => (h'.mode dir (h.known dir hdir)).trans (h.mode dir hdir)
  lookup := fun dir name id hdir hid =>
    h'.lookup dir name id (h.known dir hdir) (h.lookup dir name id hdir hid)

theorem of_keeps (h : Keeps v v') : KeepsNames v v' where
  mountList := h.mountList
  known := fun dir hdir => (h.known dir).mpr hdir
  mode := fun dir _ => h.mode dir
  lookup := by
    intro dir name id _ hid
    rw [lookup_congr (h.entries dir)]
    exact hid

theorem of_sameVisible (h : SameVisible v v') : KeepsNames v v' where
  mountList := h.mountList
  known := fun _ hdir => h.known hdir
  mode := by
    intro dir hdir
    have hsame := h.visible_eq hdir
    unfold Inode.visible at hsame
    injection hsame with _ hsame
    injection hsame with hmode _
  lookup := by
    intro dir name id hdir hid
    have hsame := h.visible_eq hdir
    unfold Inode.visible at hsame
    injection hsame with hentries _
    rw [lookup_congr hentries]
    exact hid

theorem walkTo (h : KeepsNames v v') (hi : ObjInv v) {curr id : Nat}
    {bufs : List CStr} (hcurr : v.inodes curr ≠ none)
    (hwalk : v.walkTo curr bufs = some id) : v'.walkTo curr bufs = some id := by
  induction bufs generalizing curr with
  | nil => exact hwalk
  | cons buf bufs ih =>
      rw [walkTo_cons] at hwalk ⊢
      rw [h.mode curr hcurr]
      split at hwalk
      · rename_i hdots
        rw [if_pos hdots]
        exact ih hcurr hwalk
      rename_i hdots
      rw [if_neg hdots]
      split at hwalk
      · rename_i hdir
        rw [if_pos hdir]
        rcases Option.bind_eq_some_iff.mp hwalk with ⟨next, hnext, hrest⟩
        rcases lookup_mem hnext with ⟨de, hde, hinode⟩
        have hchild := (hi.child curr de hde).left
        rw [hinode] at hchild
        rw [h.lookup curr buf next hcurr hnext, Option.bind_some]
        exact ih hchild hrest
      · cases hwalk

theorem pathNode (h : KeepsNames v v') (hi : ObjInv v) {path : CStr} {id : Nat}
    (hid : v.pathNode path = some id) : v'.pathNode path = some id := by
  unfold Vfs.pathNode at hid ⊢
  rw [findMount_congr h.mountList]
  cases hmount : v.findMount path with
  | none =>
      rw [hmount] at hid
      cases hid
  | some found =>
      rcases found with ⟨mnt, rest⟩
      rw [hmount] at hid
      dsimp only at hid ⊢
      rw [resolve_eq_walkTo] at hid ⊢
      exact h.walkTo hi (hi.root mnt (findMount_mem hmount)) hid

end KeepsNames

/-!
# Creating
-/

/-- A path that leads nowhere has a last component that is not in its directory. -/
theorem lookup_new (hi : ObjInv v) {root dir : Nat} {path : CStr}
    (hlen : path.length < pathMax) (hlast : NamesLast path) (hfits : Fits path)
    (hnone : v.resolve root path = none)
    (hdir : v.resolve root (pathDirname path pathMax) = some dir)
    (hmode : sIsdir (v.inode dir).mode = true) :
    v.lookup dir (lastComponent path) = none := by
  rw [resolve_last v root hlen, hdir, Option.bind_some, walkTo_last v hlast,
    if_pos hmode] at hnone
  cases hfound : v.lookup dir (lastComponent path) with
  | none => rfl
  | some next =>
      rw [hfound, Option.bind_some, (walkTo_rest hi next).mpr hfits] at hnone
      cases hnone

theorem Inserts.keeps_lookup {dir id : Nat} {name : CStr} {mode : UInt16}
    (h : Inserts v v' dir id name mode) (hnew : v.lookup dir name = none)
    {d j : Nat} {n : CStr} (hd : v.inodes d ≠ none)
    (hj : v.lookup d n = some j) : v'.lookup d n = some j := by
  have hid : d ≠ id := fun heq => hd (heq ▸ h.fresh)
  rcases eq_or_ne d dir with heq | hne
  · rw [heq] at hj ⊢
    have hother : strncmpEq (name.take nameMax) n nameMax = false := by
      cases hcmp : strncmpEq (name.take nameMax) n nameMax with
      | false => rfl
      | true =>
          unfold strncmpEq at hcmp
          rw [List.take_take, Nat.min_self] at hcmp
          have htake : name.take nameMax = n.take nameMax := eq_of_beq hcmp
          rw [← lookup_take, htake, lookup_take, hj] at hnew
          cases hnew
    have hfind : (v'.inode dir).entries.find?
        (fun de => strncmpEq de.name n nameMax) =
          (v.inode dir).entries.find?
            (fun de => strncmpEq de.name n nameMax) := by
      rw [h.entry, List.find?_cons, hother]
    unfold Vfs.lookup ramfsLookup at hj ⊢
    rw [hfind]
    cases hentry : (v.inode dir).entries.find?
        (fun de => strncmpEq de.name n nameMax) with
    | none =>
        rw [hentry] at hj
        cases hj
    | some de =>
        rw [hentry] at hj
        exact hj
  · rw [lookup_congr (h.entries d hne hid)]
    exact hj

theorem CreatesAt.keepsNames {root id : Nat} {path : CStr}
    (h : CreatesAt v v' root path id) (hi : ObjInv v)
    (hmounts : v'.mountList = v.mountList)
    (hknown : forall j, v.inodes j ≠ none -> v'.inodes j ≠ none)
    (hlen : path.length < pathMax) (hlast : NamesLast path) (hfits : Fits path)
    (hnone : v.resolve root path = none) : KeepsNames v v' := by
  rcases h with ⟨dir, mode, hdir, hmode, _, hinserts⟩
  rw [pathBasename_eq hlen] at hinserts
  have hnew := lookup_new hi hlen hlast hfits hnone hdir hmode
  exact
    { mountList := hmounts
      known := hknown
      mode := fun d hd => hinserts.mode_eq d fun heq => hd (heq ▸ hinserts.fresh)
      lookup := fun d n j hd hj => hinserts.keeps_lookup hnew hd hj }

theorem keepsNames_vfsOpen (hi : ObjInv v) {path : CStr} (hplain : v.Plain path)
    (flags : UInt32) (mode : UInt16) :
    KeepsNames v (v.vfsOpen path flags mode).2 := by
  rcases vfsOpen_reopens hi path flags mode with
    ⟨hfail, _⟩ | ⟨fd, node, hfd, hopen, _⟩
  · exact KeepsNames.of_sameVisible (vfsOpen_failed hi.handedOut hfail)
  · cases hmount : v.findMount path with
    | none =>
        unfold vfsOpen at hfd
        rw [hmount] at hfd
        cases hfd
    | some found =>
        rcases found with ⟨mnt, rest⟩
        rcases hplain.rest hmount with ⟨hlen, hrest⟩
        rcases vfsOpen_node hi hmount hfd (Int.natCast_nonneg fd) with
          ⟨node', _, _, hmounts, hcases⟩
        rcases hcases with ⟨_, hsame⟩ | ⟨hnone, hcreates⟩
        · exact
            { mountList := hmounts
              known := hopen.known
              mode := fun dir _ => hsame.mode dir
              lookup := fun dir name id _ hid =>
                (lookup_congr (hsame.entries dir) name).trans hid }
        · rcases hrest with hnil | ⟨hlast, hfits⟩
          · rw [hnil] at hnone
            cases hnone
          · exact hcreates.keepsNames hi hmounts hopen.known hlen hlast hfits
              hnone

theorem Creates.known (h : Creates v v') {id : Nat} (hid : v.inodes id ≠ none) :
    v'.inodes id ≠ none := by
  rcases h with ⟨w, hkeeps, hcases⟩
  have hw := (hkeeps.known id).mpr hid
  rcases hcases with heq | hdiscards | ⟨dir, _, hadds⟩
  · rw [heq]
    exact hw
  · exact (hdiscards.known id).mpr (Or.inl hw)
  · exact (hadds.known id).mpr (Or.inl hw)

theorem vfsMkdir_failed (hi : ObjInv v) {path : CStr} {mode : UInt16}
    (hfail : (v.vfsMkdir path mode).1 ≠ 0) :
    SameVisible v (v.vfsMkdir path mode).2 := by
  unfold vfsMkdir at hfail ⊢
  cases hmount : v.findMount path with
  | none => exact SameVisible.refl v
  | some found =>
      rcases found with ⟨mnt, rest⟩
      rw [hmount] at hfail
      dsimp only at hfail ⊢
      split
      · exact SameVisible.refl v
      rename_i hop
      rw [if_neg hop] at hfail
      unfold ramfsFsMkdir at hfail ⊢
      rcases v.getInode_eq mnt.root (pathDirname rest pathMax) with
        ⟨w, hw, hsame⟩
      have hvisible := sameVisible_noRefs hsame
      rw [hw] at hfail ⊢
      cases hdir : v.resolve mnt.root (pathDirname rest pathMax) with
      | none => exact hvisible
      | some dir =>
          rw [hdir] at hfail
          dsimp only at hfail ⊢
          split
          · exact hvisible
          rename_i hmode
          rw [if_neg hmode] at hfail
          apply hvisible.trans
          apply ramfsMkdir_failed (hi.handedOut.noRefs hsame)
          unfold ramfsMkdir at hfail ⊢
          split
          · rfl
          · rename_i hcreate
            rw [hcreate] at hfail
            exact absurd rfl hfail

theorem keepsNames_vfsMkdir (hi : ObjInv v) {path : CStr} (hplain : v.Plain path)
    (mode : UInt16) (hnone : v.pathNode path = none) :
    KeepsNames v (v.vfsMkdir path mode).2 := by
  by_cases hzero : (v.vfsMkdir path mode).1 = 0
  · have hcreates := vfsMkdir_creates hi path mode
    cases hmount : v.findMount path with
    | none =>
        unfold vfsMkdir at hzero
        rw [hmount] at hzero
        cases hzero
    | some found =>
        rcases found with ⟨mnt, rest⟩
        unfold Vfs.pathNode at hnone
        rw [hmount] at hnone
        rcases hplain.rest hmount with ⟨hlen, hrest⟩
        rcases vfsMkdir_createsAt hi hmount hzero with ⟨id, hat⟩
        rcases hrest with hnil | ⟨hlast, hfits⟩
        · rw [hnil] at hnone
          cases hnone
        · exact hat.keepsNames hi hcreates.mountList (fun _ => hcreates.known)
            hlen hlast hfits hnone
  · exact KeepsNames.of_sameVisible (vfsMkdir_failed hi hzero)

/-!
# Removing
-/

theorem find?_without {alpha : Type} {p : alpha -> Bool}
    {before after : List alpha} {x y : alpha}
    (h : (before ++ x :: after).find? p = some y) (hne : x ≠ y) :
    (before ++ after).find? p = some y := by
  rw [List.find?_append] at h ⊢
  cases hfront : before.find? p with
  | some z =>
      rw [hfront] at h
      exact h
  | none =>
      rw [hfront, Option.none_or, List.find?_cons] at h
      rw [Option.none_or]
      split at h
      · exact absurd (Option.some.inj h) hne
      · exact h

theorem mode_modifyInode (v : Vfs) (id j : Nat) {f : Inode -> Inode}
    (hf : forall node, (f node).mode = node.mode) :
    ((v.modifyInode id f).inode j).mode = (v.inode j).mode := by
  rw [inode_modifyInode]
  split
  · rename_i hj
    rw [hj.left]
    exact hf _
  · rfl

theorem mode_dropLink (v : Vfs) (id j : Nat) :
    ((v.dropLink id).inode j).mode = (v.inode j).mode :=
  mode_modifyInode v id j fun _ => rfl

theorem mode_vfsUnlink (v : Vfs) (path : CStr) (j : Nat) :
    ((v.vfsUnlink path).2.inode j).mode = (v.inode j).mode := by
  unfold vfsUnlink
  split
  · rfl
  rename_i mnt rest _
  split
  · rfl
  unfold ramfsFsUnlink
  rcases v.getInode_eq mnt.root (pathDirname rest pathMax) with ⟨w, hw, hsame⟩
  have hmode := mode_congr hsame j
  rw [hw]
  cases v.resolve mnt.root (pathDirname rest pathMax) with
  | none => exact hmode
  | some dir =>
      dsimp only
      split
      · exact hmode
      unfold ramfsUnlink
      split
      · exact hmode
      refine (mode_dropLink _ dir j).trans ?_
      refine Eq.trans ?_ hmode
      split
      · exact (mode_dropLink _ _ j).trans (mode_modifyInode w _ _ fun _ => rfl)
      · exact (mode_dropLink _ _ j).trans (mode_modifyInode w _ _ fun _ => rfl)

/-- Directory entries lead from the one inode to the other. -/
def Above (v : Vfs) (id below : Nat) : Prop :=
  Relation.ReflTransGen (HasEntry v) id below

theorem above_of_walkTo {curr id : Nat} {bufs : List CStr}
    (h : v.walkTo curr bufs = some id) : v.Above curr id := by
  induction bufs generalizing curr with
  | nil =>
      cases h
      exact Relation.ReflTransGen.refl
  | cons buf bufs ih =>
      rw [walkTo_cons] at h
      split at h
      · exact ih h
      split at h
      · rcases Option.bind_eq_some_iff.mp h with ⟨next, hnext, hrest⟩
        exact Relation.ReflTransGen.head (lookup_mem hnext) (ih hrest)
      · cases h

/-- The way to an inode does not lead through one that is not above it. -/
theorem Removes.walkTo {dir : Nat} {victim : Dirent}
    (h : Removes v v' dir victim)
    (hmode : forall j, (v'.inode j).mode = (v.inode j).mode) {curr id : Nat}
    {bufs : List CStr} (habove : ¬ v.Above victim.inode id)
    (hwalk : v.walkTo curr bufs = some id) : v'.walkTo curr bufs = some id := by
  induction bufs generalizing curr with
  | nil => exact hwalk
  | cons buf bufs ih =>
      rw [walkTo_cons] at hwalk ⊢
      rw [hmode]
      split at hwalk
      · rename_i hdots
        rw [if_pos hdots]
        exact ih hwalk
      rename_i hdots
      rw [if_neg hdots]
      split at hwalk
      · rename_i hisdir
        rw [if_pos hisdir]
        rcases Option.bind_eq_some_iff.mp hwalk with ⟨next, hnext, hrest⟩
        have hlookup : v'.lookup curr buf = some next := by
          rcases eq_or_ne curr dir with heq | hne
          · rcases h.split with ⟨before, after, hold, hnew⟩
            rw [heq] at hnext ⊢
            unfold Vfs.lookup ramfsLookup at hnext ⊢
            rw [hold] at hnext
            rw [hnew]
            split at hnext
            · cases hnext
            · rename_i de hfind
              have hde : de.inode = next := Option.some.inj hnext
              have hother : victim ≠ de := by
                intro hsame
                apply habove
                rw [hsame, hde]
                exact above_of_walkTo hrest
              rw [find?_without hfind hother]
              exact hnext
          · rw [lookup_congr (h.entries curr hne)]
            exact hnext
        rw [hlookup, Option.bind_some]
        exact ih hrest
      · cases hwalk

/-- A path stays when neither its inode nor one above it is removed. -/
theorem pathNode_vfsUnlink (hi : ObjInv v) {path target : CStr} {id : Nat}
    (hid : v.pathNode path = some id)
    (hoff : forall dir victim, v.unlinkTarget target = some (dir, victim) ->
      ¬ v.Above victim.inode id) :
    (v.vfsUnlink target).2.pathNode path = some id := by
  have hcases := vfsUnlink_cases hi target
  cases hvictim : v.unlinkTarget target with
  | none =>
      rw [hvictim] at hcases
      exact (KeepsNames.of_keeps hcases).pathNode hi hid
  | some found =>
      rcases found with ⟨dir, victim⟩
      rw [hvictim] at hcases
      rcases hcases with ⟨w, hkeeps, _, hremoves⟩
      have habove : ¬ w.Above victim.inode id := by
        have hentry : HasEntry w = HasEntry v := by
          funext d j
          unfold HasEntry
          rw [hkeeps.entries]
        unfold Above
        rw [hentry]
        exact hoff dir victim hvictim
      have hmode : forall j, ((v.vfsUnlink target).2.inode j).mode =
          (w.inode j).mode := by
        intro j
        rw [mode_vfsUnlink, hkeeps.mode]
      have hw := (KeepsNames.of_keeps hkeeps).pathNode hi hid
      unfold pathNode at hw ⊢
      rw [findMount_congr hremoves.mountList]
      cases hmount : w.findMount path with
      | none =>
          rw [hmount] at hw
          cases hw
      | some found =>
          rw [hmount] at hw
          dsimp only at hw ⊢
          rw [resolve_eq_walkTo] at hw ⊢
          exact hremoves.walkTo hmode habove hw

end Vfs
end Fs
end EarlnuxOS
