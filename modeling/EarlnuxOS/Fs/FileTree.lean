import EarlnuxOS.Foundation.NamedPaths
import EarlnuxOS.Fs.Splitting

/-!
# Trees of files

What a file system of directories and files is for: a tree in which a path of
names leads to one node at most, and a directory lists what is in it.
-/

namespace EarlnuxOS
namespace Fs

open Foundation

/-!
# Names
-/

instance (name : CStr) : Decidable (NameOk name) :=
  inferInstanceAs (Decidable (_ ∧ _))

/-- A path can lead to the name, and an entry holds it with its NUL. -/
def IsName (s : CStr) : Prop := NameOk s ∧ s.length < nameMax ∧ 0 ∉ s

instance (s : CStr) : Decidable (IsName s) :=
  inferInstanceAs (Decidable (_ ∧ _))

@[ext] structure Name where
  text : CStr
  ok : IsName text
deriving DecidableEq

def Name.of (s : CStr) : Option Name :=
  if h : IsName s then some ⟨s, h⟩ else none

theorem Name.of_eq_some {s : CStr} {n : Name} :
    Name.of s = some n <-> s = n.text := by
  unfold Name.of
  constructor
  · intro h
    split at h
    · cases h
      rfl
    · cases h
  · intro h
    rw [h, dif_pos n.ok]

theorem mapM_of_eq_some {l : List CStr} {p : List Name} :
    l.mapM Name.of = some p <-> l = p.map Name.text := by
  induction l generalizing p with
  | nil =>
      cases p with
      | nil => simp
      | cons n p => simp
  | cons s l ih =>
      rw [List.mapM_cons]
      constructor
      · intro h
        rcases Option.bind_eq_some_iff.mp h with ⟨n, hn, hrest⟩
        rcases Option.bind_eq_some_iff.mp hrest with ⟨q, hq, heq⟩
        cases heq
        rw [List.map_cons, ← Name.of_eq_some.mp hn, ← ih.mp hq]
      · intro h
        cases p with
        | nil => cases h
        | cons n p =>
            rcases List.cons.inj h with ⟨hs, hl⟩
            rw [Name.of_eq_some.mpr hs, ih.mpr hl]
            rfl

def isDots (c : CStr) : Bool := c == dot || c == dotDot

def spelled (path : CStr) : Option (List Name) :=
  ((comps path).filter fun c => !isDots c).mapM Name.of

theorem spelled_iff {path : CStr} {p : List Name} :
    spelled path = some p <->
      ((comps path).filter fun c => !isDots c) = p.map Name.text :=
  mapM_of_eq_some

/-!
# Trees
-/

/-- A file or a directory; the kernel writes to both. -/
structure TreeNode where
  isDir : Bool
  content : CStr
  listing : List Name

namespace TreeNode

def empty (isDir : Bool) : TreeNode where
  isDir := isDir
  content := []
  listing := []

def enter (n : Name) (d : TreeNode) : TreeNode :=
  { d with listing := n :: d.listing }

def leave (n : Name) (d : TreeNode) : TreeNode :=
  { d with listing := d.listing.erase n }

def fill (content : CStr) (d : TreeNode) : TreeNode :=
  { d with content := content }

end TreeNode

/-- A path leads somewhere exactly if the directory before it lists its name. -/
@[ext] structure FileTree where
  node : List Name -> Option TreeNode
  rooted : exists d, node [] = some d ∧ d.isDir = true
  listed : forall p n, node (p ++ [n]) ≠ none <->
    exists d, node p = some d ∧ d.isDir = true ∧ n ∈ d.listing
  once : forall p d, node p = some d -> d.listing.Nodup

namespace FileTree

def bare : FileTree where
  node := fun p => if p = [] then some (TreeNode.empty true) else none
  rooted := ⟨TreeNode.empty true, rfl, rfl⟩
  listed := by
    intro p n
    rw [if_neg (by simp)]
    refine iff_of_false (fun h => h rfl) ?_
    rintro ⟨d, hd, _, hn⟩
    split at hd
    · cases hd
      cases hn
    · cases hd
  once := by
    intro p d hd
    split at hd
    · cases hd
      exact List.nodup_nil
    · cases hd

theorem relabel_ne_none {t : List Name -> Option TreeNode} {p q : List Name}
    {f : TreeNode -> TreeNode} :
    NamedPaths.relabel t p f q ≠ none <-> t q ≠ none := by
  unfold NamedPaths.relabel
  split
  · rw [ne_eq, ne_eq, Option.map_eq_none_iff]
  · rfl

theorem concat_ne_self (p : List Name) (n : Name) : p ++ [n] ≠ p := by
  intro h
  have hlen := congrArg List.length h
  rw [List.length_append, List.length_singleton] at hlen
  omega

theorem node_below (t : FileTree) {p : List Name} (h : t.node p = none)
    (n : Name) : t.node (p ++ [n]) = none := by
  by_contra hne
  rcases (t.listed p n).mp hne with ⟨d, hd, _⟩
  rw [h] at hd
  cases hd

def isDirAt (t : FileTree) (p : List Name) : Bool :=
  (t.node p).any TreeNode.isDir

theorem isDirAt_iff {t : FileTree} {p : List Name} :
    t.isDirAt p = true <-> exists d, t.node p = some d ∧ d.isDir = true :=
  Option.any_eq_true TreeNode.isDir (t.node p)

def grown (t : FileTree) (p : List Name) (n : Name) (isDir : Bool) :
    List Name -> Option TreeNode :=
  Function.update (NamedPaths.relabel t.node p (TreeNode.enter n)) (p ++ [n])
    (some (TreeNode.empty isDir))

theorem grown_at (t : FileTree) (p : List Name) (n : Name) (isDir : Bool)
    (q : List Name) :
    t.grown p n isDir q =
      if q = p ++ [n] then some (TreeNode.empty isDir)
      else if q = p then (t.node q).map (TreeNode.enter n)
      else t.node q := by
  unfold grown
  rw [Function.update_apply]
  rfl

theorem grown_listed (t : FileTree) {p : List Name} {n : Name} (isDir : Bool)
    (hdir : t.isDirAt p = true) (hnone : t.node (p ++ [n]) = none)
    (q : List Name) (m : Name) :
    t.grown p n isDir (q ++ [m]) ≠ none <->
      exists d, t.grown p n isDir q = some d ∧ d.isDir = true ∧
        m ∈ d.listing := by
  rcases isDirAt_iff.mp hdir with ⟨d, hd, hisdir⟩
  have hnames := t.listed q m
  by_cases hnew : q = p ++ [n]
  · rw [grown_at t p n isDir q, if_pos hnew]
    refine iff_of_false (fun h => ?_) ?_
    · have hlong : q ++ [m] ≠ p := by
        intro heq
        have hlen := congrArg List.length heq
        rw [hnew, List.length_append, List.length_append,
          List.length_singleton] at hlen
        omega
      rw [grown_at, if_neg (hnew ▸ concat_ne_self _ m), if_neg hlong] at h
      rw [← hnew] at hnone
      exact h (t.node_below hnone m)
    · rintro ⟨e, he, _, hm⟩
      cases he
      cases hm
  by_cases hq : q = p
  · rw [grown_at t p n isDir q, if_neg hnew, if_pos hq, hq, grown_at,
      if_neg (concat_ne_self p m)]
    rw [hq, hd] at hnames
    rw [hd, Option.map_some]
    by_cases hm : m = n
    · rw [if_pos (by rw [hm])]
      refine iff_of_true (Option.some_ne_none _) ⟨_, rfl, hisdir, ?_⟩
      rw [hm]
      exact List.mem_cons_self
    · rw [if_neg (by simpa using hm), hnames]
      constructor
      · rintro ⟨e, he, hedir, hmem⟩
        cases he
        exact ⟨_, rfl, hedir, List.mem_cons_of_mem n hmem⟩
      · rintro ⟨e, he, hedir, hmem⟩
        cases he
        exact ⟨d, rfl, hedir, (List.mem_cons.mp hmem).resolve_left hm⟩
  · rw [grown_at t p n isDir q, if_neg hnew, if_neg hq, ← hnames]
    have hne : q ++ [m] ≠ p ++ [n] := by
      intro heq
      exact hq (List.append_singleton_inj.mp heq).left
    unfold grown
    rw [Function.update_of_ne hne]
    exact relabel_ne_none

def make (t : FileTree) (p : List Name) (n : Name) (isDir : Bool) :
    Option FileTree :=
  if h : t.isDirAt p = true ∧ t.node (p ++ [n]) = none then
    some
      { node := t.grown p n isDir
        rooted := by
          rcases t.rooted with ⟨d, hd, hdir⟩
          have hne : [] ≠ p ++ [n] := by simp
          rw [grown_at, if_neg hne, hd]
          split
          · exact ⟨_, rfl, hdir⟩
          · exact ⟨d, rfl, hdir⟩
        listed := t.grown_listed isDir h.left h.right
        once := by
          intro q d hd
          rw [grown_at] at hd
          split at hd
          · cases hd
            exact List.nodup_nil
          split at hd
          · rename_i hq
            rcases Option.map_eq_some_iff.mp hd with ⟨e, he, heq⟩
            rw [← heq]
            refine List.nodup_cons.mpr ⟨fun hmem => ?_, t.once q e he⟩
            rcases isDirAt_iff.mp h.left with ⟨e', he', hdir⟩
            rw [hq, he'] at he
            have heq : e' = e := Option.some.inj he
            exact (t.listed p n).mpr ⟨e', he', hdir, heq ▸ hmem⟩ h.right
          · exact t.once q d hd }
  else none

theorem make_eq_none {t : FileTree} {p : List Name} {n : Name}
    (hnone : t.node (p ++ [n]) = none) (isDir : Bool) :
    t.make p n isDir = none <-> t.isDirAt p = false := by
  unfold make
  split
  · rename_i h
    rw [h.left]
    exact iff_of_false (Option.some_ne_none _) Bool.noConfusion
  · rename_i h
    refine iff_of_true rfl ?_
    rw [← Bool.not_eq_true]
    exact fun hdir => h ⟨hdir, hnone⟩

theorem make_node {t t' : FileTree} {p : List Name} {n : Name} {isDir : Bool}
    (h : t.make p n isDir = some t') : t'.node = t.grown p n isDir := by
  unfold make at h
  split at h
  · cases h
    rfl
  · cases h

def pruned (t : FileTree) (p : List Name) (n : Name) :
    List Name -> Option TreeNode :=
  NamedPaths.prune (NamedPaths.relabel t.node p (TreeNode.leave n)) (p ++ [n])

theorem pruned_at (t : FileTree) (p : List Name) (n : Name) (q : List Name) :
    t.pruned p n q =
      if p ++ [n] <+: q then none
      else if q = p then (t.node q).map (TreeNode.leave n)
      else t.node q := rfl

theorem pruned_listed (t : FileTree) (p : List Name) (n : Name)
    (q : List Name) (m : Name) :
    t.pruned p n (q ++ [m]) ≠ none <->
      exists d, t.pruned p n q = some d ∧ d.isDir = true ∧ m ∈ d.listing := by
  have hnames := t.listed q m
  have hfront : p ++ [n] <+: q ++ [m] <->
      (p = q ∧ n = m) ∨ p ++ [n] <+: q := by
    rw [List.prefix_concat_iff, List.append_singleton_inj]
  by_cases hgone : p ++ [n] <+: q
  · rw [pruned_at, pruned_at, if_pos hgone, if_pos (hfront.mpr (Or.inr hgone))]
    refine iff_of_false (fun h => h rfl) ?_
    rintro ⟨d, hd, _⟩
    cases hd
  rw [or_iff_left hgone] at hfront
  by_cases hq : q = p
  · rw [pruned_at, pruned_at t p n q, if_neg hgone, if_pos hq]
    by_cases hm : n = m
    · rw [if_pos (hfront.mpr ⟨hq.symm, hm⟩)]
      refine iff_of_false (fun h => h rfl) ?_
      rintro ⟨d, hd, _, hmem⟩
      rcases Option.map_eq_some_iff.mp hd with ⟨e, he, heq⟩
      rw [← heq, ← hm] at hmem
      exact (t.once q e he).not_mem_erase hmem
    · rw [if_neg fun h => hm (hfront.mp h).right,
        if_neg (hq ▸ concat_ne_self p m), hnames]
      constructor
      · rintro ⟨d, hd, hdir, hmem⟩
        rw [hd]
        exact ⟨_, rfl, hdir, (List.mem_erase_of_ne (Ne.symm hm)).mpr hmem⟩
      · rintro ⟨d, hd, hdir, hmem⟩
        rcases Option.map_eq_some_iff.mp hd with ⟨e, he, heq⟩
        rw [← heq] at hdir hmem
        exact ⟨e, he, hdir, List.mem_of_mem_erase hmem⟩
  · have hout : ¬ p ++ [n] <+: q ++ [m] :=
      fun h => hq (hfront.mp h).left.symm
    rw [pruned_at, pruned_at t p n q, if_neg hgone, if_neg hq, if_neg hout,
      ← hnames]
    exact relabel_ne_none

def remove (t : FileTree) (p : List Name) (n : Name) : Option FileTree :=
  if t.node (p ++ [n]) = none then none
  else
    some
      { node := t.pruned p n
        rooted := by
          rcases t.rooted with ⟨d, hd, hdir⟩
          have hne : ¬ p ++ [n] <+: [] := by simp
          rw [pruned_at, if_neg hne, hd]
          split
          · exact ⟨_, rfl, hdir⟩
          · exact ⟨d, rfl, hdir⟩
        listed := t.pruned_listed p n
        once := by
          intro q d hd
          rw [pruned_at] at hd
          split at hd
          · cases hd
          split at hd
          · rcases Option.map_eq_some_iff.mp hd with ⟨e, he, heq⟩
            rw [← heq]
            exact (t.once q e he).erase n
          · exact t.once q d hd }

theorem remove_node {t t' : FileTree} {p : List Name} {n : Name}
    (h : t.remove p n = some t') : t'.node = t.pruned p n := by
  unfold remove at h
  split at h
  · cases h
  · cases h
    rfl

def fill (t : FileTree) (p : List Name) (content : CStr) : FileTree where
  node := NamedPaths.relabel t.node p (TreeNode.fill content)
  rooted := by
    rcases t.rooted with ⟨d, hd, hdir⟩
    unfold NamedPaths.relabel
    rw [hd]
    split
    · exact ⟨_, rfl, hdir⟩
    · exact ⟨d, rfl, hdir⟩
  listed := by
    intro q m
    rw [relabel_ne_none, t.listed q m]
    unfold NamedPaths.relabel
    split
    · constructor
      · rintro ⟨d, hd, hlisted⟩
        rw [hd]
        exact ⟨_, rfl, hlisted⟩
      · rintro ⟨d, hd, hlisted⟩
        rcases Option.map_eq_some_iff.mp hd with ⟨e, he, heq⟩
        rw [← heq] at hlisted
        exact ⟨e, he, hlisted⟩
    · rfl
  once := by
    intro q d hd
    unfold NamedPaths.relabel at hd
    split at hd
    · rcases Option.map_eq_some_iff.mp hd with ⟨e, he, heq⟩
      rw [← heq]
      exact t.once q e he
    · exact t.once q d hd

theorem fill_fill (t : FileTree) (p : List Name) (first second : CStr) :
    (t.fill p first).fill p second = t.fill p second := by
  ext1
  funext q
  show NamedPaths.relabel (NamedPaths.relabel t.node p _) p _ q = _
  unfold fill NamedPaths.relabel
  dsimp only
  split
  · rw [Option.map_map]
    rfl
  · rfl

/-- A directory and a name in it, for a path that has a last name. -/
def atLast (q : List Name) (f : List Name -> Name -> Option FileTree) :
    Option FileTree :=
  match q.getLast? with
  | none => none
  | some n => f q.dropLast n

theorem atLast_concat (p : List Name) (n : Name)
    (f : List Name -> Name -> Option FileTree) : atLast (p ++ [n]) f = f p n := by
  unfold atLast
  rw [List.getLast?_concat, List.dropLast_concat]

def touch (t : FileTree) (q : List Name) : Option FileTree :=
  if t.node q = none then atLast q fun p n => t.make p n false else some t

theorem fill_self (t : FileTree) (p : List Name) (content : CStr) :
    (t.fill p content).node p = (t.node p).map (TreeNode.fill content) :=
  if_pos rfl

/-!
# What the files hold
-/

def Contents (P : CStr -> Prop) (t : FileTree) : Prop :=
  forall p d, t.node p = some d -> P d.content

variable {P : CStr -> Prop} {t t' : FileTree}

theorem contents_bare (h : P []) : Contents P bare := by
  intro p d hd
  unfold bare at hd
  dsimp only at hd
  split at hd
  · cases hd
    exact h
  · cases hd

theorem Contents.make (h : Contents P t) (hempty : P []) {p : List Name}
    {n : Name} {isDir : Bool} (hmake : t.make p n isDir = some t') :
    Contents P t' := by
  intro q d hd
  rw [make_node hmake, grown_at] at hd
  split at hd
  · cases hd
    exact hempty
  split at hd
  · rcases Option.map_eq_some_iff.mp hd with ⟨e, he, heq⟩
    rw [← heq]
    exact h q e he
  · exact h q d hd

theorem Contents.remove (h : Contents P t) {p : List Name} {n : Name}
    (hremove : t.remove p n = some t') : Contents P t' := by
  intro q d hd
  rw [remove_node hremove, pruned_at] at hd
  split at hd
  · cases hd
  split at hd
  · rcases Option.map_eq_some_iff.mp hd with ⟨e, he, heq⟩
    rw [← heq]
    exact h q e he
  · exact h q d hd

theorem Contents.fill (h : Contents P t) (p : List Name) {content : CStr}
    (hcontent : P content) : Contents P (t.fill p content) := by
  intro q d hd
  unfold FileTree.fill NamedPaths.relabel at hd
  dsimp only at hd
  split at hd
  · rcases Option.map_eq_some_iff.mp hd with ⟨e, _, heq⟩
    rw [← heq]
    exact hcontent
  · exact h q d hd

theorem atLast_eq_some {q : List Name}
    {f : List Name -> Name -> Option FileTree} (h : atLast q f = some t) :
    exists p n, f p n = some t := by
  unfold atLast at h
  split at h
  · cases h
  · exact ⟨_, _, h⟩

theorem Contents.touch (h : Contents P t) (hempty : P []) {q : List Name}
    (htouch : t.touch q = some t') : Contents P t' := by
  unfold FileTree.touch at htouch
  split at htouch
  · rcases atLast_eq_some htouch with ⟨p, n, hmake⟩
    exact h.make hempty hmake
  · cases htouch
    exact h

end FileTree
end Fs
end EarlnuxOS
