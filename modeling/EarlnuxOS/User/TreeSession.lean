import EarlnuxOS.Foundation.Simulation
import EarlnuxOS.User.TreeShell

/-!
# Sessions on a tree

One file command after the other does to the mounted files what the tree's own
shell does to the tree, and prints the same.
-/

namespace EarlnuxOS
namespace User

open Foundation Fs Fs.Vfs Lib

/-- The same directory and the same screen, and the paths show the tree. -/
structure Agrees (s : FileShell) (a : TreeShell) : Prop where
  cwd : s.cwd = a.cwd
  screen : s.screen = a.screen
  shows : exists root, Shows s.vfs root a.tree

/-- Both are in order, and there is a descriptor left to open a file with. -/
structure Shown (s : FileShell) (a : TreeShell) : Prop where
  agrees : Agrees s a
  inv : StoreInv s.vfs
  slot : freeSlot s.vfs.fdTable 0 fdMax ≠ none
  orderly : TreeShell.Orderly a

/-!
# What a path leads to
-/

section Paths

variable {v : Vfs} {root : Nat} {t : FileTree}

/-- Lookup finds what the tree has, and all its entries have names. -/
theorem shows_found (h : Shows v root t) {path : CStr} {q : List Name}
    (habs : path.head? = some slash) (hq : spelled path = some q) :
    match t.node q with
    | none => v.pathNode path = none
    | some d => exists id, v.pathNode path = some id ∧ v.treeNode id = d ∧
        Named v id := by
  have hnode := h.node_eq q
  rw [pathNode_spelled h.mounted habs hq]
  cases hwalk : v.treeWalk root q with
  | none =>
      rw [hwalk] at hnode
      rw [hnode]
      rfl
  | some id =>
      rw [hwalk] at hnode
      rw [hnode]
      exact ⟨id, rfl, rfl, h.named q id hwalk⟩

theorem entriesFit_named {id : Nat} (h : Named v id)
    (hlen : (v.treeNode id).listing.length < 2 ^ 32) :
    EntriesFit (v.inode id).entries where
  short := fun de hde => Nat.le_of_lt (h de hde).right.left
  noNul := fun de hde => (h de hde).right.right
  length_lt := by
    have hnames := congrArg List.length (names_listing h)
    unfold Inode.names at hnames
    rw [List.length_map, List.length_map] at hnames
    rw [hnames]
    exact hlen

theorem lsLines_named {id : Nat} (h : Named v id) (k : Nat) :
    (((v.inode id).entries.take k).map Dirent.name).flatMap FileShell.lsLine =
      ((v.treeNode id).listing.take k).flatMap fun n =>
        FileShell.lsLine n.text := by
  have hnames := names_listing h
  unfold Inode.names at hnames
  rw [List.map_take, hnames, ← List.map_take, List.flatMap_map]

theorem shows_readdir (h : Shows v root t) (m : Memory) (fd : Int) (buf : Nat)
    (len : UInt32) : Shows (v.vfsReaddir m fd buf len).2.2 root t := by
  refine h.keeps (FileShell.keeps_vfsReaddir v m fd buf len) ?_ ?_
  · unfold vfsReaddir
    split
    · rfl
    split
    · rfl
    split <;> rfl
  · unfold vfsReaddir
    split
    · rfl
    split
    · rfl
    split <;> rfl

theorem shows_catLoop (hinv : StoreInv v) (h : Shows v root t) (steps : Nat)
    (fd : Int) (out : CStr) :
    Shows (FileShell.catLoop steps v fd out).2 root t := by
  induction steps generalizing v out with
  | zero => exact h
  | succ steps ih =>
      have hread := h.keeps (keeps_read v fd 127) (v.asks_vfsRead fd 127).fails
        (content_vfsRead hinv fd 127)
      unfold FileShell.catLoop
      dsimp only
      split
      · exact ih (hinv.read fd 127) hread _
      · exact hread

theorem fills_writeAll {q : List Name} {fd : Int} {text : CStr}
    {bufs : List CStr} (h : Fills v root t q fd text)
    (hlen : text.length + bufs.flatten.length < 2 ^ 31) :
    Fills (FileShell.writeAll v fd bufs).2 root t q fd
      (text ++ bufs.flatten) := by
  induction bufs generalizing v text with
  | nil =>
      rw [List.flatten_nil, List.append_nil]
      exact h
  | cons buf bufs ih =>
      rw [List.flatten_cons, List.length_append] at hlen
      have hfirst : Fills (v.vfsWrite fd buf).2 root t q fd (text ++ buf) :=
        h.write (by omega)
      have hrest := ih hfirst (by rw [List.length_append]; omega)
      rw [List.flatten_cons, ← List.append_assoc]
      exact hrest

end Paths

variable {s : FileShell} {a : TreeShell}

theorem TreeShell.reaches {path : CStr} {q : List Name}
    (habs : path.head? = some slash) (hq : spelled path = some q)
    (hends : a.find path = none -> TreeShell.EndsInName path) :
    Reaches a.tree path q := by
  refine ⟨habs, hq, fun hnone => ?_⟩
  rw [← a.find_spelled hq] at hnone
  exact exists_ends habs (hends hnone).left (hends hnone).right hq

theorem Agrees.become (h : Agrees s a) {root : Nat} {result : Int × Vfs}
    {tree : Option FileTree}
    (hcall : match tree with
      | none => result.1 = -1 ∧ Shows result.2 root a.tree
      | some t => result.1 = 0 ∧ Shows result.2 root t) (message : CStr) :
    Agrees
      (if result.1 < 0 then (s.setVfs result.2).print message
        else s.setVfs result.2)
      (a.become tree message) := by
  cases tree with
  | none =>
      rcases hcall with ⟨hneg, hshows⟩
      rw [if_pos (by omega)]
      exact ⟨h.cwd, congrArg (· ++ message) h.screen, root, hshows⟩
  | some t =>
      rcases hcall with ⟨hzero, hshows⟩
      rw [if_neg (by omega)]
      exact ⟨h.cwd, h.screen, root, hshows⟩

namespace Shown

theorem argPath (h : Shown s a) (argv : List CStr) :
    s.argPath argv = a.argPath argv := by
  unfold FileShell.argPath TreeShell.argPath
  rw [h.agrees.cwd]

theorem lsPath (h : Shown s a) (argv : List CStr) :
    s.lsPath argv = a.lsPath argv := by
  unfold FileShell.lsPath TreeShell.lsPath
  rw [h.argPath, h.agrees.cwd]

theorem argPath_head (h : Shown s a) (argv : List CStr) :
    (a.argPath argv).head? = some slash :=
  TreeShell.resolvePath_head _ h.orderly.absolute

theorem lsPath_head (h : Shown s a) (argv : List CStr) :
    (a.lsPath argv).head? = some slash := by
  unfold TreeShell.lsPath
  split
  · exact h.argPath_head argv
  · exact h.orderly.absolute

theorem granted (h : Shown s a) {path : CStr}
    (habs : path.head? = some slash) : s.vfs.OpenGranted path := by
  rcases h.agrees.shows with ⟨root, hshows⟩
  rcases findMount_mounted hshows.mounted habs with ⟨flags, hmount⟩
  unfold OpenGranted
  rw [hmount]
  exact ⟨rfl, hshows.memory _, h.slot⟩

theorem opens_iff (h : Shown s a) {path : CStr}
    (habs : path.head? = some slash) (hspelled : spelled path ≠ none)
    {flags : UInt32} (hcreat : flags &&& oCreat = 0) (mode : UInt16) :
    0 ≤ (s.vfs.vfsOpen path flags mode).1 <-> a.find path ≠ none := by
  rcases Option.ne_none_iff_exists'.mp hspelled with ⟨q, hq⟩
  rcases h.agrees.shows with ⟨root, hshows⟩
  have hfound := shows_found hshows habs hq
  rw [vfsOpen_opens_path s.vfs path mode hcreat,
    and_iff_right (h.granted habs), a.find_spelled hq]
  cases hnode : a.tree.node q with
  | none =>
      rw [hnode] at hfound
      rw [hfound]
      exact iff_of_false (fun hne => hne rfl) fun hne => hne rfl
  | some d =>
      rw [hnode] at hfound
      rcases hfound with ⟨id, hid, _⟩
      rw [hid]
      exact iff_of_true (Option.some_ne_none id) (Option.some_ne_none d)

/-!
# The commands
-/

theorem ls (h : Shown s a) {m : Memory} {entries : Nat} {argv : List CStr}
    (hclear : a.Clear (.ls m entries argv)) :
    Agrees (s.exec (.ls m entries argv)) (a.exec (.ls m entries argv)) := by
  rcases hclear with ⟨hspelled, hlen⟩
  have hcreat : (Fs.oRdonly ||| oDirectory) &&& oCreat = 0 := by decide
  have habs := h.lsPath_head argv
  have hopens := h.opens_iff habs hspelled hcreat 0
  rcases Option.ne_none_iff_exists'.mp hspelled with ⟨q, hq⟩
  rcases h.agrees.shows with ⟨root, hshows⟩
  have hfound := shows_found hshows habs hq
  have hopened := hshows.opened (a.lsPath argv) hcreat (by decide) 0
  unfold FileShell.exec FileShell.cmdLs TreeShell.exec
  dsimp only
  rw [h.lsPath]
  rw [← a.find_spelled hq] at hfound
  cases hnode : a.find (a.lsPath argv) with
  | none =>
      have hneg := mt hopens.mp (not_not.mpr hnode)
      rw [if_pos (Int.not_le.mp hneg)]
      exact ⟨h.agrees.cwd, congrArg (· ++ _) h.agrees.screen, root, hopened⟩
  | some d =>
      rw [hnode] at hfound
      rcases hfound with ⟨id, hid, hd, hnamed⟩
      have hnonneg := hopens.mpr (by rw [hnode]; exact Option.some_ne_none d)
      have hfit := entriesFit_named hnamed (by rw [hd]; exact hlen d hnode)
      have hlines := FileShell.lsLines_opened h.inv.objects hnonneg hid hfit
        (fun de hde => (hnamed de hde).right.left) m entries
      dsimp only at hlines
      rw [if_neg (Int.not_lt.mpr hnonneg), hlines, lsLines_named hnamed, hd]
      exact ⟨h.agrees.cwd, congrArg (· ++ _) h.agrees.screen, root,
        (shows_readdir hopened _ _ _ _).close _⟩

theorem cat (h : Shown s a) {argv : List CStr} (hclear : a.Clear (.cat argv)) :
    Agrees (s.exec (.cat argv)) (a.exec (.cat argv)) := by
  unfold TreeShell.exec
  dsimp only
  split
  · rename_i hargc
    unfold FileShell.exec FileShell.cmdCat
    dsimp only
    rw [if_pos hargc]
    exact h.agrees
  rename_i hargc
  have hspelled := hclear (Nat.not_lt.mp hargc)
  have hcreat : Fs.oRdonly &&& oCreat = 0 := by decide
  have habs := h.argPath_head argv
  have hopens := h.opens_iff habs hspelled hcreat 0
  rcases Option.ne_none_iff_exists'.mp hspelled with ⟨q, hq⟩
  rcases h.agrees.shows with ⟨root, hshows⟩
  have hfound := shows_found hshows habs hq
  have hopened := hshows.opened (a.argPath argv) hcreat (by decide) 0
  rw [← a.find_spelled hq] at hfound
  cases hnode : a.find (a.argPath argv) with
  | none =>
      have hneg := mt hopens.mp (not_not.mpr hnode)
      unfold FileShell.exec FileShell.cmdCat
      dsimp only
      rw [h.argPath, if_neg hargc, if_pos (Int.not_le.mp hneg)]
      exact ⟨h.agrees.cwd, congrArg (· ++ _) h.agrees.screen, root, hopened⟩
  | some d =>
      rw [hnode] at hfound
      rcases hfound with ⟨id, hid, hd, _⟩
      have hnonneg := hopens.mpr (by rw [hnode]; exact Option.some_ne_none d)
      rw [a.find_spelled hq] at hnode
      rcases h.orderly.readable q d hnode with ⟨hnul, hlen⟩
      have hfile : s.vfs.fileAt (s.argPath argv) = some d.content := by
        unfold Vfs.fileAt
        rw [h.argPath, hid, ← hd]
        rfl
      have hscreen := FileShell.cmdCat_shows ⟨h.inv, hfile⟩
        (Nat.not_lt.mp hargc) (h.argPath argv ▸ h.granted habs) hnul hlen
      have hopen := FileShell.storeInv_opened h.inv (a.argPath argv) Fs.oRdonly 0
      unfold FileShell.exec FileShell.cmdCat at *
      dsimp only at hscreen ⊢
      rw [h.argPath, if_neg hargc, if_neg (Int.not_lt.mpr hnonneg)] at hscreen ⊢
      rw [List.append_assoc, h.agrees.screen] at hscreen
      exact ⟨h.agrees.cwd, hscreen, root,
        (shows_catLoop hopen hopened _ _ _).close _⟩

theorem mkdir (h : Shown s a) {argv : List CStr}
    (hclear : a.Clear (.mkdir argv)) :
    Agrees (s.exec (.mkdir argv)) (a.exec (.mkdir argv)) := by
  unfold FileShell.exec FileShell.cmdMkdir TreeShell.exec
  dsimp only
  rw [h.argPath]
  split
  · exact h.agrees
  rename_i hargc
  rcases hclear (Nat.not_lt.mp hargc) with ⟨hspelled, ⟨hlen, hlast⟩, hnone⟩
  rcases Option.ne_none_iff_exists'.mp hspelled with ⟨q, hq⟩
  rcases exists_ends (h.argPath_head argv) hlen hlast hq with ⟨p, n, heq, hends⟩
  rw [a.find_spelled hq, heq] at hnone
  rcases h.agrees.shows with ⟨root, hshows⟩
  have hmade : a.made (a.argPath argv) = a.tree.make p n true := by
    unfold TreeShell.made
    rw [hq, Option.bind_some, heq, FileTree.atLast_concat]
  rw [hmade]
  exact h.agrees.become (hshows.mkdir hends hnone 0o755) _

theorem rm (h : Shown s a) {argv : List CStr} (hclear : a.Clear (.rm argv)) :
    Agrees (s.exec (.rm argv)) (a.exec (.rm argv)) := by
  unfold FileShell.exec FileShell.cmdRm TreeShell.exec
  dsimp only
  rw [h.argPath]
  split
  · exact h.agrees
  rename_i hargc
  rcases hclear (Nat.not_lt.mp hargc) with ⟨hspelled, hlen, hlast⟩
  rcases Option.ne_none_iff_exists'.mp hspelled with ⟨q, hq⟩
  rcases exists_ends (h.argPath_head argv) hlen hlast hq with ⟨p, n, heq, hends⟩
  rcases h.agrees.shows with ⟨root, hshows⟩
  have hremoved : a.removed (a.argPath argv) = a.tree.remove p n := by
    unfold TreeShell.removed
    rw [hq, Option.bind_some, heq, FileTree.atLast_concat]
  rw [hremoved]
  exact h.agrees.become (hshows.unlink hends) _

theorem touch (h : Shown s a) {argv : List CStr}
    (hclear : a.Clear (.touch argv)) :
    Agrees (s.exec (.touch argv)) (a.exec (.touch argv)) := by
  unfold FileShell.exec FileShell.cmdTouch TreeShell.exec
  dsimp only
  rw [h.argPath]
  split
  · exact h.agrees
  rename_i hargc
  rcases hclear (Nat.not_lt.mp hargc) with ⟨hspelled, hends⟩
  rcases Option.ne_none_iff_exists'.mp hspelled with ⟨q, hq⟩
  rcases Option.ne_none_iff_exists'.mp h.slot with ⟨slot, hslot⟩
  rcases h.agrees.shows with ⟨root, hshows⟩
  have htrunc : (oWronly ||| oCreat) &&& oTrunc = 0 := by decide
  have hcall := hshows.opens (TreeShell.reaches (h.argPath_head argv) hq hends) hslot
    (show (oWronly ||| oCreat) &&& oCreat ≠ 0 by decide) (by decide) 0o644
  unfold TreeShell.touched
  rw [hq, Option.bind_some]
  cases htouch : a.tree.touch q with
  | none =>
      rw [htouch] at hcall
      rcases hcall with ⟨hneg, hnew⟩
      rw [if_neg (by omega)]
      exact ⟨h.agrees.cwd, congrArg (· ++ _) h.agrees.screen, root, hnew⟩
  | some t =>
      rw [htouch] at hcall
      rcases hcall with ⟨hfd, hnew, _⟩
      rw [if_pos htrunc] at hnew
      rw [if_pos (by omega)]
      exact ⟨h.agrees.cwd, h.agrees.screen, root, hnew.close _⟩

theorem write (h : Shown s a) {argv : List CStr} (hargv : FromLine argv)
    (hclear : a.Clear (.write argv)) :
    Agrees (s.exec (.write argv)) (a.exec (.write argv)) := by
  unfold FileShell.exec FileShell.cmdWrite TreeShell.exec
  dsimp only
  rw [h.argPath]
  split
  · exact ⟨h.agrees.cwd, congrArg (· ++ _) h.agrees.screen, h.agrees.shows⟩
  rename_i hargc
  rcases hclear (Nat.not_lt.mp hargc) with ⟨hspelled, hends⟩
  rcases Option.ne_none_iff_exists'.mp hspelled with ⟨q, hq⟩
  rcases Option.ne_none_iff_exists'.mp h.slot with ⟨slot, hslot⟩
  rcases h.agrees.shows with ⟨root, hshows⟩
  have htrunc : ¬ (oWronly ||| oCreat ||| oTrunc) &&& oTrunc = 0 := by decide
  have hcall := hshows.opens (TreeShell.reaches (h.argPath_head argv) hq hends) hslot
    (show (oWronly ||| oCreat ||| oTrunc) &&& oCreat ≠ 0 by decide) (by decide)
    0o644
  unfold TreeShell.written
  rw [hq, Option.bind_some]
  cases htouch : a.tree.touch q with
  | none =>
      rw [htouch] at hcall
      rcases hcall with ⟨hneg, hnew⟩
      rw [if_pos (by omega)]
      exact ⟨h.agrees.cwd, congrArg (· ++ _) h.agrees.screen, root, hnew⟩
  | some t =>
      rw [htouch] at hcall
      rcases hcall with ⟨hfd, hnew, node, hwalk, hdesc⟩
      rw [if_neg htrunc] at hnew
      rw [if_neg (by omega)]
      have hopened := FileShell.storeInv_opened h.inv (a.argPath argv)
        (oWronly ||| oCreat ||| oTrunc) 0o644
      have hbound := length_writeBuffers_lt hargv
      have hroom : ([] : CStr).length +
          (FileShell.writeBuffers (argv.drop 2)).flatten.length < 2 ^ 31 := by
        rw [List.length_nil]
        omega
      rw [← hfd] at hdesc
      have hwritten := fills_writeAll (hnew.fills hopened hwalk hdesc) hroom
      rw [List.nil_append, flatten_writeBuffers
        (FileShell.drop_two_ne_nil (Nat.not_lt.mp hargc))] at hwritten
      exact ⟨h.agrees.cwd, h.agrees.screen, root, hwritten.shows.close _⟩

theorem cd (h : Shown s a) {argv : List CStr} (hclear : a.Clear (.cd argv)) :
    Agrees (s.exec (.cd argv)) (a.exec (.cd argv)) := by
  have hcreat : (Fs.oRdonly ||| oDirectory) &&& oCreat = 0 := by decide
  have habs := TreeShell.resolvePath_head (argv[1]?.getD [slash])
    h.orderly.absolute
  have hopens := h.opens_iff habs hclear hcreat 0
  rcases h.agrees.shows with ⟨root, hshows⟩
  have hopened := hshows.opened (cdPath a.cwd argv[1]?) hcreat (by decide) 0
  unfold FileShell.exec cmdCd TreeShell.exec
  dsimp only
  rw [h.agrees.cwd]
  cases hnode : a.find (cdPath a.cwd argv[1]?) with
  | none =>
      have hneg := mt hopens.mp (not_not.mpr hnode)
      rw [if_pos (Int.not_le.mp hneg)]
      exact ⟨rfl, congrArg (· ++ _) h.agrees.screen, root, hopened⟩
  | some d =>
      have hnonneg := hopens.mpr (by
        change a.find (cdPath a.cwd argv[1]?) ≠ none
        rw [hnode]
        exact Option.some_ne_none d)
      rw [if_neg (Int.not_lt.mpr hnonneg)]
      refine ⟨?_, ?_, root, hopened.close _⟩
      · show (resolvePath a.cwd _).take pathMax = cdPath a.cwd argv[1]?
        unfold cdPath resolvePath
        rw [List.take_take, Nat.min_self]
      · exact (List.append_nil _).trans h.agrees.screen

theorem pwd (h : Shown s a) : Agrees (s.exec .pwd) (a.exec .pwd) := by
  unfold FileShell.exec TreeShell.exec
  rw [h.agrees.cwd]
  exact ⟨h.agrees.cwd, congrArg (· ++ _) h.agrees.screen, h.agrees.shows⟩

theorem exec (h : Shown s a) {c : FileCommand} (hfair : a.Fair c) :
    Shown (s.exec c) (a.exec c) where
  agrees := by
    cases c with
    | ls m entries argv => exact h.ls hfair.right
    | cat argv => exact h.cat hfair.right
    | mkdir argv => exact h.mkdir hfair.right
    | touch argv => exact h.touch hfair.right
    | write argv => exact h.write hfair.left hfair.right
    | rm argv => exact h.rm hfair.right
    | cd argv => exact h.cd hfair.right
    | pwd => exact h.pwd
  inv := FileShell.storeInv_exec h.inv hfair.left
  slot := by
    rw [(FileShell.balanced_exec h.inv.objects c).fdTable]
    exact h.slot
  orderly := h.orderly.exec hfair.left

end Shown

/-!
# From the first command on
-/

theorem nameStep_plainMount (n : Name) : plainMount.nameStep 1 n = none := by
  have hentries : (plainMount.inode 1).entries = [] := by decide +kernel
  unfold nameStep
  rw [lookup_eq, hentries]
  split <;> rfl

theorem treeNode_plainMount : plainMount.treeNode 1 = TreeNode.empty true := by
  have hdir : sIsdir (plainMount.inode 1).mode = true := by decide +kernel
  have hempty : (plainMount.inode 1).bytes = [] := by decide +kernel
  have hnames : (plainMount.inode 1).names = [] := by decide +kernel
  unfold treeNode
  rw [hdir, hnames]
  show TreeNode.mk true (plainMount.inode 1).bytes [] = _
  rw [hempty]
  rfl

theorem shows_plainMount : Shows plainMount 1 FileTree.bare where
  objects := storeInv_plainMount.objects
  mounted := ⟨0, rfl⟩
  memory := fun _ => rfl
  named := by
    intro p d hd
    cases p with
    | nil =>
        cases hd
        have hentries : (plainMount.inode 1).entries = [] := by decide +kernel
        unfold Named
        rw [hentries]
        exact List.forall_mem_nil _
    | cons n p =>
        unfold treeWalk at hd
        rw [NamedPaths.walk_cons, nameStep_plainMount] at hd
        cases hd
  node := by
    funext p
    unfold Vfs.tree NamedPaths.view
    cases p with
    | nil =>
        show _ = some (plainMount.treeNode 1)
        rw [treeNode_plainMount]
        rfl
    | cons n p =>
        rw [NamedPaths.walk_cons, nameStep_plainMount]
        rfl

/-- A tree with nothing in it, seen from its root. -/
def TreeShell.start : TreeShell where
  cwd := [slash]
  tree := FileTree.bare
  screen := []

theorem shown_plainMount : Shown FileShell.onPlainMount TreeShell.start where
  agrees := ⟨rfl, rfl, 1, shows_plainMount⟩
  inv := storeInv_plainMount
  slot := by decide +kernel
  orderly := ⟨rfl, FileTree.contents_bare TreeShell.readable_nil⟩

/--
The paths show the tree after every run of commands, and all that was printed
is what the commands print on the tree.
-/
theorem commands_on_tree {s : FileShell} {a : TreeShell} (h : Shown s a)
    {commands : List FileCommand}
    (hfair : Meets TreeShell.exec TreeShell.Fair a commands) :
    Shown (run FileShell.exec s commands) (run TreeShell.exec a commands) :=
  meets_related (fun _ _ _ hc hs => hs.exec hc) h hfair

def rearranging : List FileCommand :=
  [.mkdir [cstr "mkdir", cstr "d"],
    .write [cstr "write", cstr "d/f", cstr "a", cstr "b"],
    .cd [cstr "cd", cstr "d"], .ls (fun _ => 0xFF) 64 [cstr "ls"],
    .cat [cstr "cat", cstr "f"], .rm [cstr "rm", cstr "/d"],
    .cat [cstr "cat", cstr "f"]]

theorem commands_on_tree_rearranging :
    (run FileShell.exec FileShell.onPlainMount rearranging).screen =
      cstr "  f\na b\n\ncat: f: No such file\n" := by
  have hscreen : (run TreeShell.exec TreeShell.start rearranging).screen =
      cstr "  f\na b\n\ncat: f: No such file\n" := by decide +kernel
  have hfair : Meets TreeShell.exec TreeShell.Fair TreeShell.start
      rearranging := by decide +kernel
  exact (commands_on_tree shown_plainMount hfair).agrees.screen.trans hscreen

/-!
# From the keys on
-/

namespace TreeShell

def turn (s : TreeShell) (t : Turn) : TreeShell :=
  match fileCommand t with
  | none => s
  | some c => s.exec c

/-- The command that the line spells, if it is one, has clear paths. -/
def ClearTurn (s : TreeShell) (t : Turn) : Prop :=
  forall c, c ∈ fileCommand t -> s.Clear c

instance (s : TreeShell) (t : Turn) : Decidable (s.ClearTurn t) :=
  inferInstanceAs (Decidable (forall c, c ∈ _ -> s.Clear c))

end TreeShell

theorem Shown.turn {s : FileShell} {a : TreeShell} (h : Shown s a) {t : Turn}
    (ht : t.record.FromTyping) (hclear : a.ClearTurn t) :
    Shown (s.turn t) (a.turn t) := by
  unfold FileShell.turn TreeShell.turn
  cases hc : fileCommand t with
  | none => exact h
  | some c => exact h.exec ⟨ht.typable hc, hclear c hc⟩

def Turn.plain (command : Command) (name arg : CStr) : Turn where
  record :=
    { line := name ++ cstr " " ++ arg
      argc := 2
      argvReads := [0, 1]
      action := Action.execute command [some name, some arg] }
  stack := fun _ => 0xFF
  entries := 64
  stray := none

deriving instance DecidableEq for Record

end User
end EarlnuxOS
