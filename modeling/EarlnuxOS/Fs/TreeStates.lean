import EarlnuxOS.Fs.TreeView

/-!
# States that show a tree

A mounted ramfs with the tree that its paths show.  A call keeps the tree, or
makes the same change to it as the tree's own operation.
-/

namespace EarlnuxOS
namespace Fs
namespace Vfs

open Foundation NamedPaths

variable {v v' : Vfs} {root : Nat} {t : FileTree}

/-- There is memory, and the paths show the tree. -/
structure Shows (v : Vfs) (root : Nat) (t : FileTree) : Prop where
  objects : ObjInv v
  mounted : Mounted v root
  memory : forall i, v.fails i = false
  named : forall p d, v.treeWalk root p = some d -> Named v d
  node : t.node = v.tree root

namespace Shows

theorem root_known (h : Shows v root t) : v.inodes root ≠ none := by
  rcases h.mounted with ⟨flags, hmounts⟩
  have hmem : (⟨[slash], root, ramfsType, flags⟩ : Mountpoint) ∈
      v.mountList := by
    rw [hmounts]
    exact List.mem_singleton_self _
  exact h.objects.root _ hmem

theorem known (h : Shows v root t) {p : List Name} {d : Nat}
    (hd : v.treeWalk root p = some d) : v.inodes d ≠ none :=
  treeWalk_known h.objects h.root_known hd

theorem node_eq (h : Shows v root t) (p : List Name) :
    t.node p = (v.treeWalk root p).map v.treeNode := by
  rw [h.node]
  rfl

theorem treeWalk_eq_none (h : Shows v root t) {p : List Name} :
    v.treeWalk root p = none <-> t.node p = none := by
  rw [h.node_eq, Option.map_eq_none_iff]

theorem isDirAt (h : Shows v root t) {p : List Name} {d : Nat}
    (hd : v.treeWalk root p = some d) :
    t.isDirAt p = sIsdir (v.inode d).mode := by
  unfold FileTree.isDirAt
  rw [h.node_eq, hd]
  rfl

theorem isDirAt_none (h : Shows v root t) {p : List Name}
    (hp : v.treeWalk root p = none) : t.isDirAt p = false := by
  unfold FileTree.isDirAt
  rw [h.treeWalk_eq_none.mp hp]
  rfl

theorem nameStep_eq_none (h : Shows v root t) {p : List Name} {n : Name}
    {d : Nat} (hd : v.treeWalk root p = some d) :
    v.nameStep d n = none <-> t.node (p ++ [n]) = none := by
  rw [← h.treeWalk_eq_none]
  unfold treeWalk at hd ⊢
  rw [walk_concat, hd, Option.bind_some]

end Shows

/-!
# Calls that show the same
-/

/-- Nothing changes that can be seen of the inodes there were. -/
structure Still (v v' : Vfs) : Prop where
  mountList : v'.mountList = v.mountList
  fails : v'.fails = v.fails
  mode : forall d, v.inodes d ≠ none -> (v'.inode d).mode = (v.inode d).mode
  entries : forall d, v.inodes d ≠ none ->
    (v'.inode d).entries = (v.inode d).entries
  content : v'.abs.content = v.abs.content

theorem Still.of_dirs (h : SameDirs v v') (hmounts : v'.mountList = v.mountList)
    (hfails : v'.fails = v.fails) (hcontent : v'.abs.content = v.abs.content) :
    Still v v' :=
  ⟨hmounts, hfails, fun d _ => h.mode d, fun d _ => h.entries d, hcontent⟩

theorem Still.of_visible (h : SameVisible v v') (hfails : v'.fails = v.fails)
    (hcontent : v'.abs.content = v.abs.content) : Still v v' := by
  have hsame : forall d, v.inodes d ≠ none ->
      (v'.inode d).mode = (v.inode d).mode ∧
        (v'.inode d).entries = (v.inode d).entries := by
    intro d hd
    have heq := h.visible_eq hd
    unfold Inode.visible at heq
    injection heq with hentries heq
    injection heq with hmode _
    exact ⟨hmode, hentries⟩
  exact ⟨h.mountList, hfails, fun d hd => (hsame d hd).left,
    fun d hd => (hsame d hd).right, hcontent⟩

theorem Shows.still (h : Shows v root t) (hi' : ObjInv v')
    (hs : Still v v') : Shows v' root t where
  objects := hi'
  mounted := by
    rcases h.mounted with ⟨flags, hmounts⟩
    exact ⟨flags, hs.mountList.trans hmounts⟩
  memory := by
    rw [hs.fails]
    exact h.memory
  named := by
    intro p d hd
    have hstep : forall q c, v.treeWalk root q = some c -> forall n,
        v'.nameStep c n = v.nameStep c n := fun q c hc =>
      nameStep_congr (hs.mode c (h.known hc)) (hs.entries c (h.known hc))
    unfold treeWalk at hd
    rw [walk_congr_reached hstep] at hd
    unfold Named
    rw [hs.entries d (h.known hd)]
    exact h.named p d hd
  node := by
    rw [h.node]
    symm
    refine view_congr (fun p d hd => ?_) fun p d hd => ?_
    · exact nameStep_congr (hs.mode d (h.known hd)) (hs.entries d (h.known hd))
    · exact treeNode_congr (hs.mode d (h.known hd)) (hs.entries d (h.known hd))
        (congrFun hs.content d)

/-!
# Changes
-/

theorem Shows.fill (h : Shows v root t) (hi' : ObjInv v')
    (hdirs : SameDirs v v') (hmounts : v'.mountList = v.mountList)
    (hfails : v'.fails = v.fails) {p : List Name} {d : Nat} {content : CStr}
    (hd : v.treeWalk root p = some d)
    (hcontent : v'.abs.content = Function.update v.abs.content d content) :
    Shows v' root (t.fill p content) where
  objects := hi'
  mounted := by
    rcases h.mounted with ⟨flags, hmount⟩
    exact ⟨flags, hmounts.trans hmount⟩
  memory := by
    rw [hfails]
    exact h.memory
  named := by
    intro q c hc
    have hstep : forall e, v'.nameStep e = v.nameStep e := fun e =>
      funext (nameStep_congr (hdirs.mode e) (hdirs.entries e))
    unfold treeWalk at hc
    rw [funext hstep] at hc
    unfold Named
    rw [hdirs.entries]
    exact h.named q c hc
  node := by
    have hstep : v'.nameStep = v.nameStep := funext fun e =>
      funext (nameStep_congr (hdirs.mode e) (hdirs.entries e))
    have hold : v'.treeNode d = (v.treeNode d).fill content := by
      unfold treeNode TreeNode.fill Inode.names
      rw [hdirs.mode, hdirs.entries, hcontent, Function.update_self]
    unfold Vfs.tree
    rw [hstep, (branching h.objects).view_relabel hd hold]
    · show relabel t.node p _ = _
      rw [h.node]
      rfl
    · intro q c _ hne
      refine treeNode_congr (hdirs.mode c) (hdirs.entries c) ?_
      rw [hcontent, Function.update_of_ne hne]

theorem Shows.make (h : Shows v root t) (hi' : ObjInv v')
    (hmounts : v'.mountList = v.mountList) (hfails : v'.fails = v.fails)
    (hcontent : v'.abs.content = v.abs.content) {p : List Name} {n : Name}
    {dir id : Nat} {mode : UInt16} (hinserts : Inserts v v' dir id n.text mode)
    (hp : v.treeWalk root p = some dir)
    (hdir : sIsdir (v.inode dir).mode = true)
    (hnone : t.node (p ++ [n]) = none) :
    exists t', t.make p n (sIsdir mode) = some t' ∧ Shows v' root t' := by
  have hisdir := (h.isDirAt hp).trans hdir
  have hfree := (h.nameStep_eq_none hp).mpr hnone
  have hi := h.objects
  cases hmake : t.make p n (sIsdir mode) with
  | none =>
      rw [FileTree.make_eq_none hnone, hisdir] at hmake
      cases hmake
  | some t' =>
      have hreached : forall q, v.treeWalk root q ≠ some id :=
        fun q hq => h.known hq hinserts.fresh
      refine ⟨t', rfl, hi', ?_, ?_, ?_, ?_⟩
      · rcases h.mounted with ⟨flags, hmount⟩
        exact ⟨flags, hmounts.trans hmount⟩
      · rw [hfails]
        exact h.memory
      · intro q c hc
        unfold treeWalk at hc
        rw [(hinserts.extends (h.known hp) hdir).walk (branching hi) hp hfree
          hreached] at hc
        unfold Named
        split at hc
        · cases hc
          rw [hinserts.new_entries]
          exact fun de hde => by cases hde
        · by_cases hcd : c = dir
          · rw [hcd, hinserts.entry]
            intro de hde
            rcases List.mem_cons.mp hde with heq | hde
            · rw [heq, take_name]
              exact n.ok
            · exact h.named p dir hp de hde
          · rw [hinserts.entries c hcd fun heq => hreached q (heq ▸ hc)]
            exact h.named q c hc
      · rw [FileTree.make_node hmake,
          hinserts.tree hi h.root_known hp hdir hfree hcontent, ← h.node]
        rfl

theorem Shows.remove (h : Shows v root t) (hi' : ObjInv v')
    (hfails : v'.fails = v.fails)
    (hmode : forall j, (v'.inode j).mode = (v.inode j).mode)
    (hcontent : v'.abs.content = v.abs.content) {p : List Name} {n : Name}
    {dir : Nat} {victim : Dirent} (hremoves : Removes v v' dir victim)
    (hp : v.treeWalk root p = some dir) (hname : victim.name = n.text)
    (hsome : t.node (p ++ [n]) ≠ none) :
    exists t', t.remove p n = some t' ∧ Shows v' root t' := by
  have hi := h.objects
  have hnode : t.node p = some (v.treeNode dir) := by
    rw [h.node_eq, hp]
    rfl
  cases hremove : t.remove p n with
  | none =>
      unfold FileTree.remove at hremove
      rw [if_neg hsome] at hremove
      cases hremove
  | some t' =>
      have hnodup := t.once p _ hnode
      have hnamed := h.named p dir hp
      have hdistinct : (v.inode dir).names.Nodup := by
        rw [names_listing hnamed]
        exact hnodup.map fun n m heq => Name.ext heq
      refine ⟨t', rfl, hi', ?_, ?_, ?_, ?_⟩
      · rcases h.mounted with ⟨flags, hmount⟩
        exact ⟨flags, hremoves.mountList.trans hmount⟩
      · rw [hfails]
        exact h.memory
      · intro q c hc
        unfold treeWalk at hc
        rw [(hremoves.cuts hmode hnamed hdistinct hname).walk (branching hi)
          hp] at hc
        split at hc
        · cases hc
        · exact fun de hde => h.named q c hc de ((hremoves.mem hi).mp hde).left
      · rw [FileTree.remove_node hremove,
          hremoves.tree hi hmode hcontent hnamed hnodup hname hp, ← h.node]
        rfl

end Vfs
end Fs
end EarlnuxOS
