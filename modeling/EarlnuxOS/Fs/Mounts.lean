import EarlnuxOS.Fs.Vfs
import Mathlib.Data.List.Infix

/-!
# The mount of a path

The loop of `find_mount` picks the first of the longest mount paths with which
the path begins, byte by byte.  Where that one ends with a component of the
path, it is the mount of the nearest directory above.
-/

namespace EarlnuxOS
namespace Fs

/-!
# The first of the largest
-/

section

universe u

variable {α : Type u} {P Q : α -> Prop} {size : α -> Nat} {l : List α} {m : α}

/--
A member with the property, larger than those before it and as large as those
behind it.
-/
def FirstLargest (P : α -> Prop) (size : α -> Nat) (l : List α) (m : α) :
    Prop :=
  P m ∧ exists before after, l = before ++ m :: after ∧
    (forall x, x ∈ before -> P x -> size x < size m) ∧
      forall x, x ∈ after -> P x -> size x ≤ size m

theorem FirstLargest.head (hm : P m)
    (h : forall x, x ∈ l -> P x -> size x ≤ size m) :
    FirstLargest P size (m :: l) m :=
  ⟨hm, [], l, rfl, List.forall_mem_nil _, h⟩

theorem FirstLargest.cons {a : α} (h : FirstLargest P size l m)
    (ha : P a -> size a < size m) : FirstLargest P size (a :: l) m := by
  rcases h with ⟨hm, before, after, hl, hbefore, hafter⟩
  exact ⟨hm, a :: before, after, by rw [hl]; rfl,
    List.forall_mem_cons.mpr ⟨ha, hbefore⟩, hafter⟩

theorem FirstLargest.mem (h : FirstLargest P size l m) : m ∈ l := by
  rcases h with ⟨_, before, after, hl, _, _⟩
  rw [hl]
  exact List.mem_append_right before List.mem_cons_self

theorem FirstLargest.le (h : FirstLargest P size l m) {x : α} (hx : x ∈ l)
    (hpx : P x) : size x ≤ size m := by
  rcases h with ⟨_, before, after, hl, hbefore, hafter⟩
  rw [hl, List.mem_append, List.mem_cons] at hx
  rcases hx with hx | hx | hx
  · exact Nat.le_of_lt (hbefore x hx hpx)
  · rw [hx]
  · exact hafter x hx hpx

theorem FirstLargest.mono (h : FirstLargest P size l m)
    (hQP : forall x, Q x -> P x) (hm : Q m) : FirstLargest Q size l m := by
  rcases h with ⟨_, before, after, hl, hbefore, hafter⟩
  exact ⟨hm, before, after, hl, fun x hx hq => hbefore x hx (hQP x hq),
    fun x hx hq => hafter x hx (hQP x hq)⟩

end

/-!
# What find_mount finds
-/

theorem strncmpEq_length_iff {a b : CStr} :
    strncmpEq a b b.length = true <-> b <+: a := by
  unfold strncmpEq
  rw [List.take_length, beq_iff_eq, List.prefix_iff_eq_take]
  exact eq_comm

/-- The mount path is the path or goes on with `/` in it. -/
def Covers (mount path : CStr) : Prop :=
  path = mount ∨ mount ++ [slash] <+: path ∨ mount = [slash]

theorem Covers.isPrefix {mount t : CStr} (h : Covers mount (slash :: t)) :
    mount <+: slash :: t := by
  rcases h with hsame | hmore | hroot
  · rw [← hsame]
  · exact (List.prefix_append mount [slash]).trans hmore
  · rw [hroot]
    exact ⟨t, rfl⟩

namespace Vfs

def SelectsMount (mounts : List Mountpoint) (path : CStr) :
    Option (Mountpoint × CStr) -> Prop
  | none => forall m, m ∈ mounts -> ¬ Covers m.path path
  | some (m, remainder) =>
      FirstLargest (fun m => Covers m.path path) (fun m => m.path.length)
        mounts m ∧
      remainder = (path.drop m.path.length).dropWhile (fun c => c == slash)

/--
The longest of the mount paths with which the path begins ends with a component
of it, and an empty one is not the only one.
-/
structure EndsWithComponent (mounts : List Mountpoint) (path : CStr) : Prop where
  longest : forall m, m ∈ mounts -> m.path ≠ [] -> m.path <+: path ->
    (forall x, x ∈ mounts -> x.path <+: path ->
      x.path.length ≤ m.path.length) -> Covers m.path path
  empty : forall m, m ∈ mounts -> m.path = [] ->
    exists x, x ∈ mounts ∧ x.path ≠ [] ∧ x.path <+: path

theorem findBest_spec (path : CStr) (mounts : List Mountpoint)
    (best : Option Mountpoint) (bestLen : Nat) :
    (findBest path best bestLen mounts = (best, bestLen) ∧
      forall x, x ∈ mounts -> x.path <+: path -> x.path.length ≤ bestLen) ∨
    exists m, findBest path best bestLen mounts = (some m, m.path.length) ∧
      bestLen < m.path.length ∧
      FirstLargest (fun m => m.path <+: path) (fun m => m.path.length)
        mounts m := by
  induction mounts generalizing best bestLen with
  | nil => exact Or.inl ⟨rfl, List.forall_mem_nil _⟩
  | cons a mounts ih =>
      unfold findBest
      simp only [strncmpEq_length_iff]
      split
      · rename_i htake
        rcases ih (some a) a.path.length with ⟨hfind, hle⟩ | hlater
        · exact Or.inr ⟨a, hfind, htake.right,
            FirstLargest.head htake.left hle⟩
        · rcases hlater with ⟨m, hfind, hlt, hm⟩
          exact Or.inr ⟨m, hfind, Nat.lt_trans htake.right hlt,
            hm.cons fun _ => hlt⟩
      · rename_i hskip
        have hshort : a.path <+: path -> a.path.length ≤ bestLen :=
          fun hpre => Nat.not_lt.mp fun hlt => hskip ⟨hpre, hlt⟩
        rcases ih best bestLen with ⟨hfind, hle⟩ | hlater
        · exact Or.inl ⟨hfind, List.forall_mem_cons.mpr ⟨hshort, hle⟩⟩
        · rcases hlater with ⟨m, hfind, hlt, hm⟩
          exact Or.inr ⟨m, hfind, hlt,
            hm.cons fun hpre => Nat.lt_of_le_of_lt (hshort hpre) hlt⟩

/-- Nothing is found: only empty paths stand in front of the path. -/
theorem selects_none_iff {mounts : List Mountpoint} {t : CStr}
    (hle : forall x, x ∈ mounts -> x.path <+: slash :: t ->
      x.path.length ≤ 0) :
    SelectsMount mounts (slash :: t) none <->
      EndsWithComponent mounts (slash :: t) := by
  have hnil : forall x, x ∈ mounts -> x.path <+: slash :: t -> x.path = [] :=
    fun x hx hpre => List.length_eq_zero_iff.mp (Nat.le_zero.mp (hle x hx hpre))
  constructor
  · intro hnone
    refine ⟨fun m hm hne hpre => absurd (hnil m hm hpre) hne, ?_⟩
    intro m hm hempty
    have hcovers : Covers m.path (slash :: t) := by
      rw [hempty]
      exact Or.inr (Or.inl ⟨t, rfl⟩)
    exact absurd hcovers (hnone m hm)
  · intro hends m hm hcovers
    have hempty := hnil m hm hcovers.isPrefix
    rcases hends.empty m hm hempty with ⟨x, hx, hne, hpre⟩
    exact hne (hnil x hx hpre)

theorem selects_some_iff {mounts : List Mountpoint} {t : CStr} {m : Mountpoint}
    (hpos : 0 < m.path.length)
    (hm : FirstLargest (fun m => m.path <+: slash :: t)
      (fun m => m.path.length) mounts m) :
    SelectsMount mounts (slash :: t)
      (some (m, ((slash :: t).drop m.path.length).dropWhile
        fun c => c == slash)) <->
      EndsWithComponent mounts (slash :: t) := by
  constructor
  · rintro ⟨hsel, _⟩
    refine ⟨?_, fun _ _ _ =>
      ⟨m, hm.mem, List.ne_nil_of_length_pos hpos, hm.left⟩⟩
    intro x hx _ hpre hlongest
    have hlen : x.path.length = m.path.length :=
      Nat.le_antisymm (hm.le hx hpre) (hlongest m hm.mem hm.left)
    have hsame : x.path = m.path :=
      (List.prefix_of_prefix_length_le hpre hm.left
        (Nat.le_of_eq hlen)).eq_of_length hlen
    rw [hsame]
    exact hsel.left
  · intro hends
    have hcovers : Covers m.path (slash :: t) :=
      hends.longest m hm.mem (List.ne_nil_of_length_pos hpos) hm.left
        fun x hx hpre => hm.le hx hpre
    exact ⟨hm.mono (fun x hx => hx.isPrefix) hcovers, rfl⟩

theorem selects_findMount (v : Vfs) (t : CStr) :
    SelectsMount v.mountList (slash :: t) (v.findMount (slash :: t)) <->
      EndsWithComponent v.mountList (slash :: t) := by
  unfold findMount
  rcases findBest_spec (slash :: t) v.mountList none 0 with
    ⟨hfind, hle⟩ | ⟨m, hfind, hpos, hm⟩
  · rw [hfind]
    exact selects_none_iff hle
  · rw [hfind]
    exact selects_some_iff hpos hm

/-!
# Where the calls go
-/

structure Refused (v : Vfs) (path : CStr) : Prop where
  openFile : forall flags mode, v.vfsOpen path flags mode = (-1, v)
  mkdir : forall mode, v.vfsMkdir path mode = (-1, v)
  unlink : v.vfsUnlink path = (-1, v)

/-- What succeeds is what the mount's file system does with the remainder. -/
structure Routed (v : Vfs) (path : CStr) (m : Mountpoint) (remainder : CStr) :
    Prop where
  openFile : forall flags mode, 0 ≤ (v.vfsOpen path flags mode).1 ->
    exists (w : Vfs) (file : Nat), w.inodes = v.inodes ∧
      (v.vfsOpen path flags mode).2 =
        (w.ramfsFsOpen m remainder flags mode file).2
  mkdir : forall mode, (v.vfsMkdir path mode).1 = 0 ->
    v.vfsMkdir path mode = v.ramfsFsMkdir m remainder mode
  unlink : (v.vfsUnlink path).1 = 0 ->
    v.vfsUnlink path = v.ramfsFsUnlink m remainder

/-- The calls go to the nearest mount above the path, if there is one. -/
def RoutesAbove (v : Vfs) (path : CStr) : Prop :=
  (SelectsMount v.mountList path none ∧ Refused v path) ∨
    exists m remainder, SelectsMount v.mountList path (some (m, remainder)) ∧
      Routed v path m remainder

theorem inodes_kmalloc (v : Vfs) : v.kmalloc.2.inodes = v.inodes := by
  unfold kmalloc
  split
  · rfl
  · rfl

theorem refused_of_none {v : Vfs} {path : CStr} (h : v.findMount path = none) :
    Refused v path := by
  constructor
  · intro flags mode
    unfold vfsOpen
    rw [h]
  · intro mode
    unfold vfsMkdir
    rw [h]
  · unfold vfsUnlink
    rw [h]

theorem routed_of_some {v : Vfs} {path remainder : CStr} {m : Mountpoint}
    (h : v.findMount path = some (m, remainder)) : Routed v path m remainder := by
  constructor
  · intro flags mode hopened
    have hinodes := v.inodes_kmalloc
    unfold vfsOpen at hopened ⊢
    rw [h] at hopened ⊢
    dsimp only at hopened ⊢
    split at hopened
    · cases hopened
    rename_i hop
    rw [if_neg hop]
    generalize v.kmalloc = allocated at hinodes hopened ⊢
    rcases allocated with ⟨alloc, w⟩
    cases alloc with
    | none => cases hopened
    | some file =>
        dsimp only at hopened ⊢
        split at hopened
        · cases hopened
        split at hopened
        · cases hopened
        rename_i hfound
        rw [if_neg hfound]
        refine ⟨_, file, ?_, rfl⟩
        exact hinodes
  · intro mode hzero
    unfold vfsMkdir at hzero ⊢
    rw [h] at hzero ⊢
    dsimp only at hzero ⊢
    split at hzero
    · cases hzero
    rename_i hop
    exact if_neg hop
  · intro hzero
    unfold vfsUnlink at hzero ⊢
    rw [h] at hzero ⊢
    dsimp only at hzero ⊢
    split at hzero
    · cases hzero
    rename_i hop
    exact if_neg hop

theorem SelectsMount.routesAbove {v : Vfs} {path : CStr}
    (h : SelectsMount v.mountList path (v.findMount path)) :
    RoutesAbove v path := by
  cases hmount : v.findMount path with
  | none =>
      rw [hmount] at h
      exact Or.inl ⟨h, refused_of_none hmount⟩
  | some found =>
      rcases found with ⟨m, remainder⟩
      rw [hmount] at h
      exact Or.inr ⟨m, remainder, h, routed_of_some hmount⟩

/--
`find_mount` selects the mount of the nearest directory above an absolute path
exactly when the longest match ends with a component, and `vfs_open`,
`vfs_mkdir` and `vfs_unlink` then go there.
-/
theorem findMount_selects_iff (v : Vfs) (t : CStr) :
    (SelectsMount v.mountList (slash :: t) (v.findMount (slash :: t)) <->
      EndsWithComponent v.mountList (slash :: t)) ∧
    (EndsWithComponent v.mountList (slash :: t) ->
      RoutesAbove v (slash :: t)) :=
  ⟨selects_findMount v t, fun h => ((selects_findMount v t).mpr h).routesAbove⟩

/-- A path that goes on inside a component of the mount path. -/
theorem mount_in_component :
    ¬ forall (v : Vfs) (t : CStr),
      SelectsMount v.mountList (slash :: t) (v.findMount (slash :: t)) := by
  intro hall
  have hsel := hall (freshMount (fun _ => false) (cstr "/mnt") 0)
    (cstr "mntx/f")
  have hmount : (freshMount (fun _ => false) (cstr "/mnt") 0).findMount
      (slash :: cstr "mntx/f") =
        some (⟨cstr "/mnt", 1, ramfsType, 0⟩, cstr "x/f") := by
    decide
  rw [hmount] at hsel
  have hcovers : Covers (cstr "/mnt") (slash :: cstr "mntx/f") :=
    hsel.left.left
  unfold Covers at hcovers
  revert hcovers
  decide

end Vfs
end Fs
end EarlnuxOS
