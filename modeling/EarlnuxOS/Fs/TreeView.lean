import EarlnuxOS.Fs.FileTree
import EarlnuxOS.Fs.KeptFiles

/-!
# The tree of a ramfs

What can be seen of a ramfs along its paths, and what a new entry and one that
is removed do to all of them.
-/

namespace EarlnuxOS
namespace Fs
namespace Vfs

open Foundation NamedPaths

variable {v v' : Vfs} {root : Nat}

def nameStep (v : Vfs) (dir : Nat) (n : Name) : Option Nat :=
  if sIsdir (v.inode dir).mode then v.lookup dir n.text else none

def treeNode (v : Vfs) (id : Nat) : TreeNode where
  isDir := sIsdir (v.inode id).mode
  content := v.abs.content id
  listing := (v.inode id).names.filterMap Name.of

def tree (v : Vfs) (root : Nat) : List Name -> Option TreeNode :=
  view v.nameStep v.treeNode root

def treeWalk (v : Vfs) (root : Nat) (p : List Name) : Option Nat :=
  NamedPaths.walk v.nameStep root p

/-!
# Names and entries
-/

theorem take_name (n : Name) : n.text.take nameMax = n.text :=
  List.take_of_length_le (Nat.le_of_lt n.ok.right.left)

theorem nameStep_some {d c : Nat} {n : Name} (h : v.nameStep d n = some c) :
    sIsdir (v.inode d).mode = true ∧ exists de, de ∈ (v.inode d).entries ∧
      de.inode = c ∧ de.name.take nameMax = n.text := by
  unfold nameStep at h
  split at h
  · rename_i hdir
    refine ⟨hdir, ?_⟩
    unfold lookup ramfsLookup at h
    split at h
    · cases h
    · rename_i de hfind
      refine ⟨de, List.mem_of_find?_eq_some hfind, Option.some.inj h, ?_⟩
      have hcmp := List.find?_some hfind
      unfold strncmpEq at hcmp
      rw [take_name] at hcmp
      exact eq_of_beq hcmp
  · cases h

/-- Entries lead to younger inodes, and each inode has one at most. -/
theorem branching (hi : ObjInv v) : Branching v.nameStep where
  grows := by
    intro d n c h
    rcases (nameStep_some h).right with ⟨de, hde, hinode, _⟩
    rw [← hinode]
    exact (hi.child d de hde).right
  unique := by
    intro d d' n n' c h h'
    rcases (nameStep_some h).right with ⟨de, hde, hinode, hname⟩
    rcases (nameStep_some h').right with ⟨de', hde', hinode', hname'⟩
    have hsame := hinode.trans hinode'.symm
    have hdir := hi.once d d' de de' hde hde' hsame
    rw [← hdir] at hde'
    have hentry : de = de' :=
      List.inj_on_of_nodup_map (hi.distinct d) hde hde' hsame
    exact ⟨hdir, Name.ext (by rw [← hname, ← hname', hentry])⟩

theorem treeWalk_known (hi : ObjInv v) (hroot : v.inodes root ≠ none)
    {p : List Name} {id : Nat} (h : v.treeWalk root p = some id) :
    v.inodes id ≠ none := by
  induction p using List.reverseRecOn generalizing id with
  | nil =>
      cases h
      exact hroot
  | append_singleton p n _ =>
      unfold treeWalk at h
      rw [walk_concat] at h
      rcases Option.bind_eq_some_iff.mp h with ⟨d, _, hstep⟩
      rcases (nameStep_some hstep).right with ⟨de, hde, hinode, _⟩
      rw [← hinode]
      exact (hi.child d de hde).left

/-!
# Paths
-/

theorem isDots_iff {c : CStr} : isDots c = true <-> c = dot ∨ c = dotDot := by
  unfold isDots
  rw [Bool.or_eq_true, beq_iff_eq, beq_iff_eq]

theorem walkTo_names (v : Vfs) {bufs : List CStr} {p : List Name}
    (h : (bufs.filter fun c => !isDots c) = p.map Name.text) (curr : Nat) :
    v.walkTo curr bufs = v.treeWalk curr p := by
  induction bufs generalizing curr p with
  | nil =>
      cases p with
      | nil => rfl
      | cons n p => cases h
  | cons buf bufs ih =>
      rw [walkTo_cons]
      by_cases hdots : isDots buf = true
      · rw [List.filter_cons_of_neg (by rw [hdots]; decide)] at h
        rw [if_pos (isDots_iff.mp hdots)]
        exact ih h curr
      · rw [if_neg fun hor => hdots (isDots_iff.mpr hor)]
        rw [List.filter_cons_of_pos (by simpa using hdots)] at h
        cases p with
        | nil => cases h
        | cons n p =>
            rcases List.cons.inj h with ⟨hbuf, hrest⟩
            unfold treeWalk nameStep
            rw [walk_cons, hbuf]
            split
            · congr 1
              funext next
              exact ih hrest next
            · rfl

theorem comps_dropSlashes (path : CStr) :
    comps (path.dropWhile fun c => c == slash) = comps path := by
  induction path with
  | nil => rfl
  | cons c path ih =>
      by_cases hc : c = slash
      · rw [List.dropWhile_cons_of_pos (by simpa using hc), ih, hc, comps_slash]
      · rw [List.dropWhile_cons_of_neg (by simpa using hc)]

def Mounted (v : Vfs) (root : Nat) : Prop :=
  exists flags, v.mountList = [⟨[slash], root, ramfsType, flags⟩]

def behindRoot (path : CStr) : CStr := path.dropWhile fun c => c == slash

theorem findMount_mounted (h : Mounted v root) {path : CStr}
    (habs : path.head? = some slash) :
    exists flags, v.findMount path =
      some (⟨[slash], root, ramfsType, flags⟩, behindRoot path) := by
  rcases h with ⟨flags, hmounts⟩
  cases path with
  | nil => cases habs
  | cons c path =>
      cases habs
      refine ⟨flags, ?_⟩
      unfold findMount behindRoot
      rw [hmounts]
      rfl

theorem resolve_spelled (v : Vfs) (root : Nat) {path : CStr} {p : List Name}
    (hp : spelled path = some p) : v.resolve root path = v.treeWalk root p := by
  rw [resolve_eq_walkTo]
  exact v.walkTo_names (spelled_iff.mp hp) root

theorem spelled_behindRoot (path : CStr) :
    spelled (behindRoot path) = spelled path := by
  unfold spelled behindRoot
  rw [comps_dropSlashes]

theorem pathNode_spelled (h : Mounted v root) {path : CStr} {p : List Name}
    (habs : path.head? = some slash) (hp : spelled path = some p) :
    v.pathNode path = v.treeWalk root p := by
  rcases findMount_mounted h habs with ⟨flags, hmount⟩
  unfold pathNode
  rw [hmount]
  exact v.resolve_spelled root ((spelled_behindRoot path).trans hp)

/-!
# The last name
-/

theorem lastComponent_slash (path : CStr) :
    lastComponent (slash :: path) = lastComponent path := by
  unfold lastComponent
  rw [strrchr]
  cases strrchr path slash with
  | none => rfl
  | some i => rfl

theorem lastComponent_behindRoot (path : CStr) :
    lastComponent (behindRoot path) = lastComponent path := by
  unfold behindRoot
  induction path with
  | nil => rfl
  | cons c path ih =>
      by_cases hc : c = slash
      · rw [List.dropWhile_cons_of_pos (by simpa using hc), ih, hc,
          lastComponent_slash]
      · rw [List.dropWhile_cons_of_neg (by simpa using hc)]

theorem comps_last {path : CStr} (hlen : path.length < pathMax) :
    exists front, comps path = front ++ comps (lastComponent path) ∧
      forall (v : Vfs) root, v.resolve root (pathDirname path pathMax) =
        v.walkTo root front := by
  unfold pathDirname lastComponent
  cases hlast : strrchr path slash with
  | none => exact ⟨[], rfl, fun _ _ => rfl⟩
  | some i =>
      rcases strrchr_split hlast with ⟨hlt, hsplit⟩
      refine ⟨comps (path.take i), ?_, fun v root => ?_⟩
      · rw [← comps_append, ← hsplit]
      · cases i with
        | zero => rfl
        | succ i =>
            have htake : (path.take (i + 1)).take (pathMax - 1) =
                path.take (i + 1) := by
              apply List.take_of_length_le
              unfold pathMax at *
              rw [List.length_take]
              omega
            show v.resolve root ((path.take (i + 1)).take (pathMax - 1)) = _
            rw [htake, resolve_eq_walkTo]

/-- Creation looks for the directory where the names before the last one lead. -/
theorem spelled_last {path : CStr} {q : List Name}
    (hlen : path.length < pathMax) (hlast : NamesLast path)
    (hq : spelled path = some q) :
    exists p n, q = p ++ [n] ∧ n.text = lastComponent path ∧
      forall (v : Vfs) root, v.resolve root (pathDirname path pathMax) =
        v.treeWalk root p := by
  rcases comps_last hlen with ⟨front, hcomps, hdir⟩
  rcases hlast with ⟨hne, hdot, hdotDot⟩
  have hname := comps_name (slash_not_mem_last path) hne
  have hq := spelled_iff.mp hq
  have hnot : ¬ isDots ((lastComponent path).take nameMax) = true :=
    fun h => piece_ne hdot hdotDot (isDots_iff.mp h)
  rw [hcomps, hname, List.filter_append,
    List.filter_cons_of_pos (by simpa using hnot)] at hq
  rcases List.map_eq_append_iff.mp hq.symm with ⟨p, rest, hsplit, hp, hrest⟩
  rcases List.map_eq_cons_iff.mp hrest with ⟨n, more, hcons, hn, hmore⟩
  have htext : n.text = lastComponent path :=
    (take_nameMax hn.symm n.ok.right.left).symm
  have hshort : (lastComponent path).drop nameMax = [] := by
    rw [← htext]
    exact List.drop_of_length_le (Nat.le_of_lt n.ok.right.left)
  rw [hshort] at hmore
  refine ⟨p, n, ?_, htext, fun v root => ?_⟩
  · rw [hsplit, hcons, List.map_eq_nil_iff.mp hmore]
  · rw [hdir, v.walkTo_names hp.symm root]

/-- What creation and removal make of a path: a directory and a name in it. -/
structure Ends (path : CStr) (p : List Name) (n : Name) : Prop where
  absolute : path.head? = some slash
  spelled : spelled path = some (p ++ [n])
  basename : pathBasename (behindRoot path) pathMax = n.text
  dirname : forall (v : Vfs) root,
    v.resolve root (pathDirname (behindRoot path) pathMax) = v.treeWalk root p

theorem exists_ends {path : CStr} {q : List Name}
    (habs : path.head? = some slash) (hlen : path.length < pathMax)
    (hlast : NamesLast path) (hq : spelled path = some q) :
    exists p n, q = p ++ [n] ∧ Ends path p n := by
  have hrest : (behindRoot path).length < pathMax :=
    Nat.lt_of_le_of_lt (List.dropWhile_suffix _).length_le hlen
  have hnames : NamesLast (behindRoot path) := by
    unfold NamesLast
    rw [lastComponent_behindRoot]
    exact hlast
  have hspelled := (spelled_behindRoot path).trans hq
  rcases spelled_last hrest hnames hspelled with ⟨p, n, heq, htext, hdir⟩
  exact ⟨p, n, heq, habs, heq ▸ hq, (pathBasename_eq hrest).trans htext.symm,
    hdir⟩

/-!
# A new entry
-/

theorem lookup_eq (v : Vfs) (dir : Nat) (name : CStr) :
    v.lookup dir name = ((v.inode dir).entries.find?
      (fun de => strncmpEq de.name name nameMax)).map Dirent.inode := by
  unfold lookup ramfsLookup
  cases (v.inode dir).entries.find?
      (fun de => strncmpEq de.name name nameMax) with
  | none => rfl
  | some de => rfl

theorem nameStep_congr {d : Nat} (hmode : (v'.inode d).mode = (v.inode d).mode)
    (hentries : (v'.inode d).entries = (v.inode d).entries) (n : Name) :
    v'.nameStep d n = v.nameStep d n := by
  unfold nameStep
  rw [hmode, lookup_congr hentries]

theorem treeWalk_congr (h : SameDirs v v') (root : Nat) (p : List Name) :
    v'.treeWalk root p = v.treeWalk root p :=
  walk_congr_reached
    (fun _ d _ => nameStep_congr (h.mode d) (h.entries d)) p

theorem treeNode_congr {d : Nat} (hmode : (v'.inode d).mode = (v.inode d).mode)
    (hentries : (v'.inode d).entries = (v.inode d).entries)
    (hcontent : v'.abs.content d = v.abs.content d) :
    v'.treeNode d = v.treeNode d := by
  unfold treeNode Inode.names
  rw [hmode, hentries, hcontent]

theorem cmp_name (n m : Name) :
    strncmpEq n.text m.text nameMax = decide (n = m) := by
  unfold strncmpEq
  rw [take_name, take_name]
  by_cases h : n = m
  · rw [h, beq_self_eq_true, decide_eq_true rfl]
  · rw [decide_eq_false h, beq_eq_false_iff_ne]
    exact fun heq => h (Name.ext heq)

theorem Inserts.extends {dir id : Nat} {n : Name} {mode : UInt16}
    (h : Inserts v v' dir id n.text mode) (hknown : v.inodes dir ≠ none)
    (hdir : sIsdir (v.inode dir).mode = true) :
    Extends v.nameStep v'.nameStep dir n id where
  at_dir := by
    intro m
    have hne : dir ≠ id := fun heq => hknown (heq ▸ h.fresh)
    unfold nameStep
    rw [h.mode_eq dir hne, if_pos hdir, if_pos hdir, lookup_eq, h.entry,
      List.find?_cons, take_name, cmp_name]
    by_cases hm : m = n
    · rw [if_pos hm, hm, decide_eq_true rfl]
      rfl
    · rw [if_neg hm, decide_eq_false (Ne.symm hm), lookup_eq]
  fresh := by
    intro m
    unfold nameStep
    rw [lookup_eq, h.new_entries]
    split <;> rfl
  elsewhere := fun d m hd hid =>
    nameStep_congr (h.mode_eq d hid) (h.entries d hd hid) m

theorem name_of_text (n : Name) : Name.of n.text = some n :=
  Name.of_eq_some.mpr rfl

theorem Inserts.tree {dir id : Nat} {n : Name} {mode : UInt16}
    {p : List Name} (h : Inserts v v' dir id n.text mode) (hi : ObjInv v)
    (hroot : v.inodes root ≠ none) (hp : v.treeWalk root p = some dir)
    (hdir : sIsdir (v.inode dir).mode = true) (hfree : v.nameStep dir n = none)
    (hcontent : v'.abs.content = v.abs.content) :
    v'.tree root = Function.update (relabel (v.tree root) p (TreeNode.enter n))
      (p ++ [n]) (some (TreeNode.empty (sIsdir mode))) := by
  have hknown := treeWalk_known hi hroot hp
  have hreached : forall q d, v.treeWalk root q = some d -> d ≠ id := by
    intro q d hd heq
    exact treeWalk_known hi hroot hd (heq ▸ h.fresh)
  have hold : v'.treeNode dir = (v.treeNode dir).enter n := by
    unfold treeNode TreeNode.enter Inode.names
    rw [h.entry, h.mode_eq dir (hreached p dir hp), hcontent, List.map_cons,
      List.filterMap_cons, take_name, name_of_text]
  have hnew : v'.treeNode id = TreeNode.empty (sIsdir mode) := by
    unfold treeNode TreeNode.empty Inode.names
    have hblank : v.abs.content id = [] := by
      show (v.inode id).bytes = []
      rw [inode_unknown h.fresh]
      rfl
    rw [h.new_entries, h.new_mode, hcontent, hblank]
    rfl
  unfold Vfs.tree
  rw [← hnew]
  refine (h.extends hknown hdir).view (branching hi) hp hfree
    (fun q hq => hreached q id hq rfl) hold ?_
  intro q d hd hne
  have hid := hreached q d hd
  exact treeNode_congr (h.mode_eq d hid) (h.entries d hne hid) (by rw [hcontent])

/-!
# An entry that goes
-/

/-- All names of a directory are ones that a path can spell. -/
def Named (v : Vfs) (d : Nat) : Prop :=
  forall de, de ∈ (v.inode d).entries -> IsName de.name

theorem names_listing {d : Nat} (h : Named v d) :
    (v.inode d).names = (v.treeNode d).listing.map Name.text := by
  unfold Named at h
  unfold treeNode Inode.names
  generalize (v.inode d).entries = entries at h ⊢
  dsimp only
  induction entries with
  | nil => rfl
  | cons de entries ih =>
      have hde : Name.of de.name = some ⟨de.name, h de List.mem_cons_self⟩ :=
        Name.of_eq_some.mpr rfl
      have hrest := ih fun de' hde' => h de' (List.mem_cons_of_mem de hde')
      rw [List.map_cons, List.filterMap_cons, hde, List.map_cons, ← hrest]

theorem nodup_beside {before after : List Dirent} {victim de : Dirent}
    (h : ((before ++ victim :: after).map Dirent.name).Nodup)
    (hde : de ∈ before ∨ de ∈ after) : de.name ≠ victim.name := by
  rw [List.map_append, List.map_cons, List.nodup_append, List.nodup_cons] at h
  rcases h with ⟨_, ⟨hafter, _⟩, hbefore⟩
  rcases hde with hde | hde
  · exact hbefore _ (List.mem_map_of_mem hde) _ List.mem_cons_self
  · intro heq
    exact hafter (heq ▸ List.mem_map_of_mem hde)

theorem find?_beside {entries : List Dirent} (n : Name)
    (hnamed : forall de, de ∈ entries -> IsName de.name)
    (hother : forall de, de ∈ entries -> de.name ≠ n.text) :
    entries.find? (fun de => strncmpEq de.name n.text nameMax) = none := by
  rw [List.find?_eq_none]
  intro de hde hcmp
  have heq := cmp_name ⟨de.name, hnamed de hde⟩ n
  rw [hcmp] at heq
  exact hother de hde (congrArg Name.text (of_decide_eq_true heq.symm))

theorem Removes.cuts {dir : Nat} {victim : Dirent} {n : Name}
    (h : Removes v v' dir victim)
    (hmode : forall j, (v'.inode j).mode = (v.inode j).mode)
    (hnamed : Named v dir) (hnodup : (v.inode dir).names.Nodup)
    (hname : victim.name = n.text) :
    Cuts v.nameStep v'.nameStep dir n where
  at_dir := by
    intro m
    rcases h.split with ⟨before, after, hold, hnew⟩
    unfold Named at hnamed
    unfold Inode.names at hnodup
    rw [hold] at hnamed hnodup
    unfold nameStep
    rw [hmode, lookup_eq, lookup_eq, hold, hnew, List.find?_append,
      List.find?_append, List.find?_cons, hname, cmp_name]
    by_cases hm : m = n
    · have hbefore := find?_beside n
        (fun de (hde : de ∈ before) => hnamed de (List.mem_append_left _ hde))
        (fun de hde => hname ▸ nodup_beside hnodup (Or.inl hde))
      have hafter := find?_beside n
        (fun de (hde : de ∈ after) => hnamed de
          (List.mem_append_right _ (List.mem_cons_of_mem _ hde)))
        (fun de hde => hname ▸ nodup_beside hnodup (Or.inr hde))
      rw [if_pos hm, hm, hbefore, hafter]
      exact ite_self none
    · rw [if_neg hm, decide_eq_false (Ne.symm hm)]
  elsewhere := fun d m hd => nameStep_congr (hmode d) (h.entries d hd) m

theorem Removes.tree {dir : Nat} {victim : Dirent} {n : Name} {p : List Name}
    (h : Removes v v' dir victim) (hi : ObjInv v)
    (hmode : forall j, (v'.inode j).mode = (v.inode j).mode)
    (hcontent : v'.abs.content = v.abs.content) (hnamed : Named v dir)
    (hnodup : (v.treeNode dir).listing.Nodup) (hname : victim.name = n.text)
    (hp : v.treeWalk root p = some dir) :
    v'.tree root = prune (relabel (v.tree root) p (TreeNode.leave n))
      (p ++ [n]) := by
  have hnames := names_listing hnamed
  have hdistinct : (v.inode dir).names.Nodup := by
    rw [hnames]
    exact hnodup.map fun n m heq => Name.ext heq
  have hleft : v'.treeNode dir = (v.treeNode dir).leave n := by
    rcases h.split with ⟨before, after, hold, hnew⟩
    have hvictim : Name.of victim.name = some n := Name.of_eq_some.mpr hname
    unfold treeNode Inode.names at hnodup
    unfold treeNode TreeNode.leave Inode.names
    rw [hold, List.map_append, List.map_cons, List.filterMap_append,
      List.filterMap_cons, hvictim] at hnodup
    rw [hmode, hcontent, hold, hnew, List.map_append, List.map_append,
      List.map_cons, List.filterMap_append, List.filterMap_append,
      List.filterMap_cons, hvictim]
    have hnot : n ∉ (before.map Dirent.name).filterMap Name.of := by
      intro hmem
      exact (List.nodup_append.mp hnodup).right.right n hmem n
        List.mem_cons_self rfl
    dsimp only
    rw [List.erase_append_right _ hnot, List.erase_cons_head]
  exact (h.cuts hmode hnamed hdistinct hname).view (branching hi) hp hleft
    fun q d _ hne => treeNode_congr (hmode d) (h.entries d hne)
      (by rw [hcontent])

end Vfs
end Fs
end EarlnuxOS
