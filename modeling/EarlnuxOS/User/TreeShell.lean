import EarlnuxOS.Fs.TreeCalls
import EarlnuxOS.User.TypedSessions

/-!
# The shell on a tree

What the file commands are for: each looks at a tree of files or changes it in
one place.  As long as there is memory, and paths spell names, what the shell
prints is what it would print on the tree.
-/

namespace EarlnuxOS
namespace User

open Foundation Fs Fs.Vfs Lib

/-!
# The tree's own shell
-/

/-- The current directory, the files, and all that was printed. -/
structure TreeShell where
  cwd : CStr
  tree : FileTree
  screen : CStr

namespace TreeShell

def print (s : TreeShell) (text : CStr) : TreeShell :=
  { s with screen := s.screen ++ text }

def argPath (s : TreeShell) (argv : List CStr) : CStr :=
  resolvePath s.cwd (argv.getD 1 [])

def lsPath (s : TreeShell) (argv : List CStr) : CStr :=
  if 2 ≤ argv.length then s.argPath argv else s.cwd

def find (s : TreeShell) (path : CStr) : Option TreeNode :=
  (spelled path).bind s.tree.node

def become (s : TreeShell) (tree : Option FileTree) (message : CStr) :
    TreeShell :=
  match tree with
  | none => s.print message
  | some t => { s with tree := t }

def made (s : TreeShell) (path : CStr) : Option FileTree :=
  (spelled path).bind fun q =>
    FileTree.atLast q fun p n => s.tree.make p n true

def removed (s : TreeShell) (path : CStr) : Option FileTree :=
  (spelled path).bind fun q => FileTree.atLast q s.tree.remove

def touched (s : TreeShell) (path : CStr) : Option FileTree :=
  (spelled path).bind s.tree.touch

def written (s : TreeShell) (path line : CStr) : Option FileTree :=
  (spelled path).bind fun q =>
    (s.tree.touch q).map fun t => t.fill q line

/-- A file is entered and listed like a directory. -/
def exec (s : TreeShell) : FileCommand -> TreeShell
  | .ls _ _ argv =>
      let path := s.lsPath argv
      match s.find path with
      | none => s.print (kprintf (cstr "ls: cannot access '%s'\n") [path])
      | some d => s.print
          ((d.listing.take FileShell.lsEntries).flatMap fun n =>
            FileShell.lsLine n.text)
  | .cat argv =>
      if argv.length < 2 then s
      else
        match s.find (s.argPath argv) with
        | none =>
            s.print (kprintf (cstr "cat: %s: No such file\n") [argv.getD 1 []])
        | some d => s.print (d.content ++ cstr "\n")
  | .mkdir argv =>
      if argv.length < 2 then s
      else s.become (s.made (s.argPath argv))
        (kprintf (cstr "mkdir: cannot create directory '%s'\n")
          [argv.getD 1 []])
  | .touch argv =>
      if argv.length < 2 then s
      else s.become (s.touched (s.argPath argv))
        (kprintf (cstr "touch: cannot create '%s'\n") [argv.getD 1 []])
  | .write argv =>
      if argv.length < 3 then
        s.print (kprintf (cstr "Usage: write <file> <text...>\n") [])
      else s.become (s.written (s.argPath argv) (lineOf (argv.drop 2)))
        (kprintf (cstr "write: cannot open '%s'\n") [s.argPath argv])
  | .rm argv =>
      if argv.length < 2 then s
      else s.become (s.removed (s.argPath argv))
        (kprintf (cstr "rm: cannot remove '%s'\n") [argv.getD 1 []])
  | .cd argv =>
      let path := cdPath s.cwd argv[1]?
      match s.find path with
      | none => s.print (cstr "cd: " ++ argv[1]?.getD [slash] ++
          cstr ": No such directory\n")
      | some _ => { s with cwd := path }
  | .pwd => s.print (kprintf (cstr "%s\n") [s.cwd])

/-!
# Commands that the tree speaks for
-/

def EndsInName (path : CStr) : Prop :=
  path.length < pathMax ∧ NamesLast path

instance (path : CStr) : Decidable (EndsInName path) :=
  inferInstanceAs (Decidable (_ ∧ _))

/--
Paths spell names, what is created or removed is the last one, and nothing is
at the path of a `mkdir`.
-/
def Clear (s : TreeShell) : FileCommand -> Prop
  | .ls _ _ argv => spelled (s.lsPath argv) ≠ none ∧
      forall d, d ∈ s.find (s.lsPath argv) -> d.listing.length < 2 ^ 32
  | .cat argv => 2 ≤ argv.length -> spelled (s.argPath argv) ≠ none
  | .mkdir argv => 2 ≤ argv.length ->
      spelled (s.argPath argv) ≠ none ∧ EndsInName (s.argPath argv) ∧
        s.find (s.argPath argv) = none
  | .touch argv => 2 ≤ argv.length ->
      spelled (s.argPath argv) ≠ none ∧
        (s.find (s.argPath argv) = none -> EndsInName (s.argPath argv))
  | .write argv => 3 ≤ argv.length ->
      spelled (s.argPath argv) ≠ none ∧
        (s.find (s.argPath argv) = none -> EndsInName (s.argPath argv))
  | .rm argv => 2 ≤ argv.length ->
      spelled (s.argPath argv) ≠ none ∧ EndsInName (s.argPath argv)
  | .cd argv => spelled (cdPath s.cwd argv[1]?) ≠ none
  | .pwd => True

instance (s : TreeShell) (c : FileCommand) : Decidable (s.Clear c) :=
  match c with
  | .ls _ _ _ => inferInstanceAs (Decidable (_ ∧ _))
  | .cat _ => inferInstanceAs (Decidable (_ -> _))
  | .mkdir _ => inferInstanceAs (Decidable (_ -> _))
  | .touch _ => inferInstanceAs (Decidable (_ -> _))
  | .write _ => inferInstanceAs (Decidable (_ -> _))
  | .rm _ => inferInstanceAs (Decidable (_ -> _))
  | .cd _ => inferInstanceAs (Decidable (_ ≠ _))
  | .pwd => inferInstanceAs (Decidable True)

def Fair (s : TreeShell) (c : FileCommand) : Prop :=
  c.Typable ∧ s.Clear c

instance (s : TreeShell) (c : FileCommand) : Decidable (s.Fair c) :=
  inferInstanceAs (Decidable (_ ∧ _))

theorem find_spelled (s : TreeShell) {path : CStr} {q : List Name}
    (hq : spelled path = some q) : s.find path = s.tree.node q := by
  unfold find
  rw [hq, Option.bind_some]

/-!
# What stays in order
-/

/-- `cmd_cat` shows all of the string, and its count does not overflow. -/
def Readable (content : CStr) : Prop :=
  0 ∉ content ∧ content.length + 127 < 2 ^ 31

theorem readable_nil : Readable [] :=
  ⟨List.not_mem_nil, by decide⟩

theorem readable_lineOf {argv : List CStr} (hargv : FromLine argv)
    (hthree : 3 ≤ argv.length) : Readable (lineOf (argv.drop 2)) := by
  rw [← flatten_writeBuffers (FileShell.drop_two_ne_nil hthree)]
  exact ⟨noNul_writeBuffers hargv, length_writeBuffers_lt hargv⟩

theorem head_take {path : CStr} {k : Nat} (hk : k ≠ 0)
    (h : path.head? = some slash) : (path.take k).head? = some slash := by
  rw [List.head?_take, if_neg hk]
  exact h

theorem joinPath_head {cwd : CStr} (inp : CStr)
    (h : cwd.head? = some slash) : (joinPath cwd inp).head? = some slash := by
  unfold joinPath
  split
  · rename_i hinp
    exact head_take (by decide) hinp
  split
  · rw [formatPath_root]
    exact head_take (by decide) rfl
  · rw [formatPath_under]
    refine head_take (by decide) ?_
    rw [List.head?_append, h]
    rfl

/-- Whatever is typed, the path that is looked for begins at the root. -/
theorem resolvePath_head {cwd : CStr} (inp : CStr)
    (h : cwd.head? = some slash) :
    (resolvePath cwd inp).head? = some slash := by
  have hjoin := joinPath_head inp h
  refine head_take (by decide) ?_
  unfold normalizeDots
  split
  · exact hjoin
  unfold cutBefore
  split
  · dsimp only
    split
    · rfl
    · rename_i hi
      exact head_take hi hjoin
  · rfl

/-- The current directory is absolute, and files hold what can be shown. -/
structure Orderly (s : TreeShell) : Prop where
  absolute : s.cwd.head? = some slash
  readable : FileTree.Contents Readable s.tree

theorem Orderly.become {s : TreeShell} (h : Orderly s)
    {tree : Option FileTree}
    (htree : forall t, tree = some t -> FileTree.Contents Readable t)
    (message : CStr) : Orderly (s.become tree message) := by
  unfold TreeShell.become
  split
  · exact ⟨h.absolute, h.readable⟩
  · exact ⟨h.absolute, htree _ rfl⟩

theorem Orderly.exec {s : TreeShell} (h : Orderly s) {c : FileCommand}
    (hc : c.Typable) : Orderly (s.exec c) := by
  have hprint : forall text, Orderly (s.print text) :=
    fun _ => ⟨h.absolute, h.readable⟩
  cases c with
  | ls m entries argv =>
      unfold TreeShell.exec
      dsimp only
      split
      · exact hprint _
      · exact hprint _
  | cat argv =>
      unfold TreeShell.exec
      dsimp only
      split
      · exact h
      split
      · exact hprint _
      · exact hprint _
  | mkdir argv =>
      unfold TreeShell.exec
      dsimp only
      split
      · exact h
      · refine h.become (fun t ht => ?_) _
        rcases Option.bind_eq_some_iff.mp ht with ⟨q, _, hlast⟩
        rcases FileTree.atLast_eq_some hlast with ⟨p, n, hmake⟩
        exact h.readable.make readable_nil hmake
  | touch argv =>
      unfold TreeShell.exec
      dsimp only
      split
      · exact h
      · refine h.become (fun t ht => ?_) _
        rcases Option.bind_eq_some_iff.mp ht with ⟨q, _, htouch⟩
        exact h.readable.touch readable_nil htouch
  | write argv =>
      unfold TreeShell.exec
      dsimp only
      split
      · exact hprint _
      · rename_i hthree
        refine h.become (fun t ht => ?_) _
        rcases Option.bind_eq_some_iff.mp ht with ⟨q, _, hwritten⟩
        rcases Option.map_eq_some_iff.mp hwritten with ⟨t', htouch, heq⟩
        rw [← heq]
        exact (h.readable.touch readable_nil htouch).fill q
          (readable_lineOf hc (Nat.not_lt.mp hthree))
  | rm argv =>
      unfold TreeShell.exec
      dsimp only
      split
      · exact h
      · refine h.become (fun t ht => ?_) _
        rcases Option.bind_eq_some_iff.mp ht with ⟨q, _, hlast⟩
        rcases FileTree.atLast_eq_some hlast with ⟨p, n, hremove⟩
        exact h.readable.remove hremove
  | cd argv =>
      unfold TreeShell.exec
      dsimp only
      split
      · exact hprint _
      · exact ⟨resolvePath_head _ h.absolute, h.readable⟩
  | pwd => exact hprint _

end TreeShell

end User
end EarlnuxOS
