import Mathlib.Data.List.TakeWhile
import EarlnuxOS.Fs.Namespace
import EarlnuxOS.Fs.Store

/-!
# Splitting paths

Creation splits a path at its last slash, lookup takes one component after the
other.  The two agree as long as the last component fits into a directory
entry; a longer one is cut off by the one and taken in pieces by the other.
-/

namespace EarlnuxOS
namespace Fs

def piece (p : CStr) : CStr := (p.takeWhile (fun c => c != slash)).take nameMax

def comps (path : CStr) : List CStr := components path.length path

theorem piece_cons {c : UInt8} (p : CStr) (hc : c ≠ slash) :
    piece (c :: p) =
      c :: (p.takeWhile (fun c => c != slash)).take (nameMax - 1) := by
  unfold piece
  rw [List.takeWhile_cons_of_pos (by simpa using hc)]
  rfl

theorem length_piece (p : CStr) : (piece p).length ≤ p.length :=
  Nat.le_trans (List.length_take_le' _ _)
    (List.takeWhile_sublist _).length_le

/-- After the slashes comes the end, or a character of the component. -/
theorem dropWhile_slash (path : CStr) :
    path.dropWhile (fun c => c == slash) = [] ∨
      exists c p, path.dropWhile (fun c => c == slash) = c :: p ∧
        c ≠ slash := by
  have hhead := List.head?_dropWhile_not (fun c => c == slash) path
  cases hp : path.dropWhile (fun c => c == slash) with
  | nil => exact Or.inl rfl
  | cons c p =>
      rw [hp] at hhead
      exact Or.inr ⟨c, p, rfl, by simpa using hhead⟩

theorem components_succ (steps : Nat) (path : CStr) :
    (path.dropWhile (fun c => c == slash) = [] ∧
      components (steps + 1) path = []) ∨
    exists c p, path.dropWhile (fun c => c == slash) = c :: p ∧ c ≠ slash ∧
      components (steps + 1) path = piece (c :: p) ::
        components steps ((c :: p).drop (piece (c :: p)).length) := by
  rcases dropWhile_slash path with hp | ⟨c, p, hp, hc⟩
  · left
    refine ⟨hp, ?_⟩
    unfold components
    dsimp only
    rw [hp, if_pos rfl]
  · right
    refine ⟨c, p, hp, hc, ?_⟩
    rw [components]
    dsimp only
    rw [hp, if_neg (List.cons_ne_nil c p)]
    rfl

theorem length_drop_piece {c : UInt8} (p : CStr) (hc : c ≠ slash) :
    ((c :: p).drop (piece (c :: p)).length).length ≤ p.length := by
  rw [List.length_drop, piece_cons p hc, List.length_cons, List.length_cons]
  omega

theorem components_more {steps : Nat} {path : CStr}
    (h : path.length ≤ steps) :
    components (steps + 1) path = components steps path := by
  induction steps generalizing path with
  | zero =>
      rw [List.length_eq_zero_iff.mp (Nat.le_zero.mp h)]
      rfl
  | succ steps ih =>
      rcases components_succ (steps + 1) path with
        ⟨hp, hmore⟩ | ⟨c, p, hp, hc, hmore⟩
      · rcases components_succ steps path with ⟨_, hless⟩ | ⟨c, p, hp', _, _⟩
        · rw [hmore, hless]
        · rw [hp] at hp'
          cases hp'
      · rcases components_succ steps path with ⟨hp', _⟩ | ⟨c', p', hp', _, hless⟩
        · rw [hp] at hp'
          cases hp'
        · rw [hp] at hp'
          cases hp'
          have hdrop := (List.dropWhile_sublist (fun c => c == slash)
            (l := path)).length_le
          rw [hp, List.length_cons] at hdrop
          have hrest := length_drop_piece p hc
          rw [hmore, hless, ih (by omega)]

theorem components_steps {steps : Nat} {path : CStr}
    (h : path.length ≤ steps) : components steps path = comps path := by
  induction steps with
  | zero =>
      unfold comps
      rw [Nat.le_zero.mp h]
  | succ steps ih =>
      by_cases hle : path.length ≤ steps
      · rw [components_more hle, ih hle]
      · unfold comps
        rw [Nat.le_antisymm h (Nat.lt_of_not_le hle)]

@[simp] theorem comps_nil : comps [] = [] := rfl

theorem comps_slash (path : CStr) : comps (slash :: path) = comps path := by
  have hdrop : (slash :: path).dropWhile (fun c => c == slash) =
      path.dropWhile (fun c => c == slash) :=
    List.dropWhile_cons_of_pos (by decide)
  have hmore : comps path = components (path.length + 1) path :=
    (components_steps (Nat.le_succ _)).symm
  rw [hmore]
  unfold comps
  rw [List.length_cons, components, components, hdrop]

theorem comps_cons {c : UInt8} (p : CStr) (hc : c ≠ slash) :
    comps (c :: p) = piece (c :: p) ::
      comps ((c :: p).drop (piece (c :: p)).length) := by
  have hdrop : (c :: p).dropWhile (fun c => c == slash) = c :: p :=
    List.dropWhile_cons_of_neg (by simpa using hc)
  have hsteps := components_succ p.length (c :: p)
  unfold comps at *
  rw [List.length_cons]
  rcases hsteps with ⟨hnil, _⟩ | ⟨c', p', hcons, _, hcomps⟩
  · rw [hdrop] at hnil
    cases hnil
  · rw [hdrop] at hcons
    cases hcons
    rw [hcomps]
    congr 1
    exact components_steps (length_drop_piece p hc)

theorem piece_append (pre rest : CStr) :
    piece (pre ++ slash :: rest) = piece pre := by
  unfold piece
  congr 1
  induction pre with
  | nil => rfl
  | cons c pre ih =>
      rw [List.cons_append, List.takeWhile_cons, List.takeWhile_cons, ih]

/-- What stands before a slash and what stands behind it is split on its own. -/
theorem comps_append (pre rest : CStr) :
    comps (pre ++ slash :: rest) = comps pre ++ comps rest := by
  induction hlen : pre.length using Nat.strong_induction_on
    generalizing pre with
  | _ n ih =>
      cases pre with
      | nil => exact comps_slash rest
      | cons c pre =>
          rw [List.length_cons] at hlen
          by_cases hc : c = slash
          · rw [hc, List.cons_append, comps_slash, comps_slash]
            exact ih pre.length (by omega) pre rfl
          · have hpiece := piece_append (c :: pre) rest
            have hrest := length_drop_piece pre hc
            rw [List.cons_append] at hpiece ⊢
            rw [comps_cons _ hc, comps_cons _ hc, hpiece, ← List.cons_append,
              List.drop_append_of_le_length (length_piece (c :: pre)),
              ih _ (by omega) _ rfl]
            rfl

def lastComponent (path : CStr) : CStr :=
  match strrchr path slash with
  | none => path
  | some i => path.drop (i + 1)

/--
The last component is one that a directory entry can hold, or all that is cut
off from it is a component that lookup skips.
-/
def Fits (path : CStr) : Prop :=
  (lastComponent path).drop nameMax = [] ∨
    (lastComponent path).drop nameMax = dot ∨
      (lastComponent path).drop nameMax = dotDot

instance (path : CStr) : Decidable (Fits path) :=
  inferInstanceAs (Decidable (_ ∨ _ ∨ _))

def NamesLast (path : CStr) : Prop :=
  lastComponent path ≠ [] ∧ lastComponent path ≠ dot ∧
    lastComponent path ≠ dotDot

theorem strrchr_split {s : CStr} {c : UInt8} {i : Nat}
    (h : strrchr s c = some i) :
    i < s.length ∧ s = s.take i ++ c :: s.drop (i + 1) := by
  induction s generalizing i with
  | nil => cases h
  | cons x s ih =>
      unfold strrchr at h
      cases hrest : strrchr s c with
      | some j =>
          rw [hrest] at h
          cases h
          rcases ih hrest with ⟨hlt, hsplit⟩
          refine ⟨Nat.succ_lt_succ hlt, ?_⟩
          rw [List.take_succ_cons, List.drop_succ_cons, List.cons_append,
            ← hsplit]
      | none =>
          rw [hrest] at h
          dsimp only at h
          split at h
          · rename_i heq
            cases h
            rw [heq]
            exact ⟨Nat.zero_lt_succ _, rfl⟩
          · cases h

theorem pathBasename_eq {path : CStr} (hlen : path.length < pathMax) :
    pathBasename path pathMax = lastComponent path := by
  unfold pathBasename lastComponent
  unfold pathMax at *
  cases strrchr path slash with
  | none => exact List.take_of_length_le (by omega)
  | some i =>
      apply List.take_of_length_le
      rw [List.length_drop]
      omega

theorem slash_not_mem_last (path : CStr) : slash ∉ lastComponent path := by
  unfold lastComponent
  split
  · rename_i hnone
    exact strrchr_none hnone
  · rename_i hsome
    exact strrchr_some hsome

theorem comps_name {name : CStr} (hslash : slash ∉ name) (hne : name ≠ []) :
    comps name = name.take nameMax :: comps (name.drop nameMax) := by
  cases name with
  | nil => exact absurd rfl hne
  | cons c name =>
      have hc : c ≠ slash := fun h => hslash (h ▸ List.mem_cons_self)
      have hall : (c :: name).takeWhile (fun c => c != slash) = c :: name := by
        rw [List.takeWhile_eq_self_iff]
        intro x hx
        have hx : x ≠ slash := fun h => hslash (h ▸ hx)
        simpa using hx
      have hpiece : piece (c :: name) = (c :: name).take nameMax := by
        unfold piece
        rw [hall]
      rw [comps_cons name hc, hpiece]
      congr 2
      rw [List.length_take]
      by_cases hlong : nameMax ≤ (c :: name).length
      · rw [Nat.min_eq_left hlong]
      · rw [Nat.min_eq_right (by omega), List.drop_length,
          List.drop_of_length_le (by omega)]

namespace Vfs

open Foundation

variable {v v' : Vfs}

/-- The inode that walking along some components leads to. -/
def walkTo (v : Vfs) (curr : Nat) (bufs : List CStr) : Option Nat :=
  (v.walk curr bufs).1

def lookup (v : Vfs) (dir : Nat) (name : CStr) : Option Nat :=
  (v.ramfsLookup dir name).1

theorem walkTo_cons (v : Vfs) (curr : Nat) (buf : CStr) (rest : List CStr) :
    v.walkTo curr (buf :: rest) =
      if buf = dot ∨ buf = dotDot then v.walkTo curr rest
      else if sIsdir (v.inode curr).mode then
        (v.lookup curr buf).bind (fun next => v.walkTo next rest)
      else none := by
  unfold walkTo
  rw [walk]
  by_cases hdot : buf = dot
  · rw [if_pos hdot, if_pos (Or.inl hdot)]
  by_cases hdotDot : buf = dotDot
  · rw [if_neg hdot, if_pos hdotDot, if_pos (Or.inr hdotDot)]
  rw [if_neg hdot, if_neg hdotDot, if_neg (not_or.mpr ⟨hdot, hdotDot⟩)]
  by_cases hdir : sIsdir (v.inode curr).mode = true
  · have hsame := sameDirs_noRefs (v.noRefs_ramfsLookup curr buf)
    rw [if_neg (not_not.mpr hdir), if_pos hdir]
    unfold lookup
    cases hl : v.ramfsLookup curr buf with
    | mk next w =>
        rw [hl] at hsame
        cases next with
        | none => rfl
        | some next => exact walk_congr hsame next rest
  · rw [if_pos hdir, if_neg hdir]

theorem walkTo_append (v : Vfs) (curr : Nat) (bufs rest : List CStr) :
    v.walkTo curr (bufs ++ rest) =
      (v.walkTo curr bufs).bind (fun next => v.walkTo next rest) := by
  induction bufs generalizing curr with
  | nil => rfl
  | cons buf bufs ih =>
      rw [List.cons_append, walkTo_cons, walkTo_cons]
      split
      · exact ih curr
      split
      · cases v.lookup curr buf with
        | none => rfl
        | some next => exact ih next
      · rfl

theorem resolve_eq_walkTo (v : Vfs) (root : Nat) (path : CStr) :
    v.resolve root path = v.walkTo root (comps path) := by
  unfold resolve ramfsGetInodeByPath
  split
  · rename_i h
    rcases h with h | h
    · rw [h]
      rfl
    · rw [h, comps_slash]
      rfl
  · rfl

/-- Creation's way to an inode: the directory, then the name. -/
def resolveSplit (v : Vfs) (root : Nat) (path : CStr) : Option Nat :=
  match v.resolve root (pathDirname path pathMax) with
  | none => none
  | some dir =>
      if sIsdir (v.inode dir).mode then v.lookup dir (pathBasename path pathMax)
      else none

/-- The walk to the directory, and the pieces of the last component. -/
theorem resolve_last (v : Vfs) (root : Nat) {path : CStr}
    (hlen : path.length < pathMax) :
    v.resolve root path =
      (v.resolve root (pathDirname path pathMax)).bind
        (fun dir => v.walkTo dir (comps (lastComponent path))) := by
  unfold pathDirname lastComponent
  cases hlast : strrchr path slash with
  | none =>
      have hroot : v.resolve root dot = some root := rfl
      dsimp only
      rw [hroot, resolve_eq_walkTo]
      rfl
  | some i =>
      rcases strrchr_split hlast with ⟨hlt, hsplit⟩
      have htake : (path.take i).take (pathMax - 1) = path.take i := by
        apply List.take_of_length_le
        unfold pathMax at *
        rw [List.length_take]
        omega
      have hwhole : v.resolve root path =
          (v.walkTo root (comps (path.take i))).bind
            (fun dir => v.walkTo dir (comps (path.drop (i + 1)))) := by
        rw [resolve_eq_walkTo, ← walkTo_append, ← comps_append, ← hsplit]
      rw [hwhole]
      cases i with
      | zero => rfl
      | succ i =>
          show _ = (v.resolve root ((path.take (i + 1)).take
            (pathMax - 1))).bind _
          rw [htake, resolve_eq_walkTo]

/-!
# When the two ways agree
-/

theorem lookup_take (v : Vfs) (dir : Nat) (name : CStr) :
    v.lookup dir (name.take nameMax) = v.lookup dir name := by
  have hcmp : forall de : Dirent,
      strncmpEq de.name (name.take nameMax) nameMax =
        strncmpEq de.name name nameMax := by
    intro de
    unfold strncmpEq
    rw [List.take_take, Nat.min_self]
  unfold lookup ramfsLookup
  simp only [hcmp]

theorem lookup_mem {dir id : Nat} {name : CStr}
    (h : v.lookup dir name = some id) :
    exists de, de ∈ (v.inode dir).entries ∧ de.inode = id := by
  unfold lookup ramfsLookup at h
  split at h
  · cases h
  · rename_i de hfind
    cases h
    exact ⟨de, List.mem_of_find?_eq_some hfind, rfl⟩

theorem walkTo_le (hi : ObjInv v) {curr id : Nat} {bufs : List CStr}
    (h : v.walkTo curr bufs = some id) : curr ≤ id := by
  induction bufs generalizing curr with
  | nil =>
      cases h
      exact Nat.le_refl _
  | cons buf bufs ih =>
      rw [walkTo_cons] at h
      split at h
      · exact ih h
      split at h
      · rcases Option.bind_eq_some_iff.mp h with ⟨next, hnext, hrest⟩
        rcases lookup_mem hnext with ⟨de, hde, hid⟩
        have hlt := (hi.child curr de hde).right
        have hle := ih hrest
        omega
      · cases h

theorem piece_ne {name : CStr} (hdot : name ≠ dot) (hdotDot : name ≠ dotDot) :
    ¬ (name.take nameMax = dot ∨ name.take nameMax = dotDot) := by
  intro h
  rcases h with h | h
  · exact hdot (take_nameMax h (by decide))
  · exact hdotDot (take_nameMax h (by decide))

/-- What is left of a last component is skipped, or leads on or nowhere. -/
theorem walkTo_rest (hi : ObjInv v) {path : CStr} (id : Nat) :
    v.walkTo id (comps ((lastComponent path).drop nameMax)) = some id <->
      Fits path := by
  have hslash : slash ∉ (lastComponent path).drop nameMax :=
    fun h => slash_not_mem_last path (List.mem_of_mem_drop h)
  unfold Fits
  generalize (lastComponent path).drop nameMax = rest at hslash
  constructor
  · intro h
    by_contra hfits
    rw [not_or, not_or] at hfits
    rw [comps_name hslash hfits.left, walkTo_cons,
      if_neg (piece_ne hfits.right.left hfits.right.right)] at h
    split at h
    · rcases Option.bind_eq_some_iff.mp h with ⟨next, hnext, hrest⟩
      rcases lookup_mem hnext with ⟨de, hde, hid⟩
      have hlt := (hi.child id de hde).right
      have hle := walkTo_le hi hrest
      omega
    · cases h
  · intro h
    rcases h with h | h | h
    · rw [h]
      rfl
    · rw [h]
      rfl
    · rw [h]
      rfl

theorem walkTo_last (v : Vfs) {dir : Nat} {path : CStr}
    (hlast : NamesLast path) :
    v.walkTo dir (comps (lastComponent path)) =
      if sIsdir (v.inode dir).mode then
        (v.lookup dir (lastComponent path)).bind (fun next =>
          v.walkTo next (comps ((lastComponent path).drop nameMax)))
      else none := by
  rcases hlast with ⟨hne, hdot, hdotDot⟩
  rw [comps_name (slash_not_mem_last path) hne, walkTo_cons,
    if_neg (piece_ne hdot hdotDot), lookup_take]

theorem resolve_agrees_iff (hi : ObjInv v) (root : Nat) {path : CStr}
    (hlen : path.length < pathMax) (hlast : NamesLast path) :
    v.resolve root path = v.resolveSplit root path <->
      Fits path ∨ v.resolveSplit root path = none := by
  rw [resolve_last v root hlen]
  unfold resolveSplit
  rw [pathBasename_eq hlen]
  cases v.resolve root (pathDirname path pathMax) with
  | none => exact iff_of_true rfl (Or.inr rfl)
  | some dir =>
      dsimp only [Option.bind_some]
      rw [walkTo_last v hlast]
      split
      · cases v.lookup dir (lastComponent path) with
        | none => exact iff_of_true rfl (Or.inr rfl)
        | some next =>
            rw [or_iff_left (Option.some_ne_none next)]
            exact walkTo_rest hi next
      · exact iff_of_true rfl (Or.inr rfl)

/-!
# After creating
-/

/-- A directory gets an entry for a new inode. -/
structure Inserts (v v' : Vfs) (dir id : Nat) (name : CStr) (mode : UInt16) :
    Prop where
  fresh : v.inodes id = none
  new_known : v'.inodes id ≠ none
  entries : forall j, j ≠ dir -> j ≠ id ->
    (v'.inode j).entries = (v.inode j).entries
  mode_eq : forall j, j ≠ id -> (v'.inode j).mode = (v.inode j).mode
  entry : (v'.inode dir).entries =
    ⟨name.take nameMax, id⟩ :: (v.inode dir).entries
  new_entries : (v'.inode id).entries = []
  new_mode : (v'.inode id).mode = mode

theorem ramfsCreate_inserts (hi : ObjInv v) {dir id : Nat} {name : CStr}
    {mode : UInt16} (hdir : v.inodes dir ≠ none)
    (hcreate : (v.ramfsCreate dir name mode).1 = some id) :
    Inserts v (v.ramfsCreate dir name mode).2 dir id name mode := by
  have hnew := hi.unknown_next
  have hne : dir ≠ v.nextId := fun h => hdir (h ▸ hnew)
  rw [ramfsCreate_eq] at hcreate ⊢
  split at hcreate
  · cases hcreate
  rename_i hfirst
  split at hcreate
  · cases hcreate
  rename_i hsecond
  split at hcreate
  · cases hcreate
  rename_i hthird
  cases hcreate
  rw [if_neg hfirst, if_neg hsecond, if_neg hthird]
  unfold created
  generalize hu : ({ v.allocated mode with
    calls := v.calls + 3
    nextId := v.nextId + 3 } : Vfs) = u
  have hinodes : u.inodes =
      Function.update v.inodes v.nextId (some (v.newInode mode)) := by
    rw [← hu]
    rfl
  have hinode := inode_update hinodes
  have hknown : (u.inodes dir).isSome := by
    rw [hinodes, Function.update_of_ne hne]
    exact Option.isSome_iff_ne_none.mpr hdir
  have hmodify := fun j => inode_modifyInode u dir j (fun node =>
    { node with
      entries := ⟨name.take nameMax, v.nextId⟩ :: node.entries
      nlinks := node.nlinks + 1 })
  constructor
  · exact hnew
  · unfold modifyInode
    dsimp only
    rw [Function.update_of_ne hne.symm, hinodes, Function.update_self]
    exact Option.some_ne_none _
  · intro j hj hid
    rw [hmodify, if_neg (fun h => hj h.left), hinode, if_neg hid]
  · intro j hid
    rw [hmodify]
    split
    · rename_i hj
      rw [hj.left, hinode, if_neg hne]
    · rw [hinode, if_neg hid]
  · rw [hmodify, if_pos ⟨rfl, hknown⟩, hinode, if_neg hne]
  · rw [hmodify, if_neg (fun h => hne h.left.symm), hinode, if_pos rfl]
    rfl
  · rw [hmodify, if_neg (fun h => hne h.left.symm), hinode, if_pos rfl]
    rfl

theorem Inserts.of_sameDirs {w : Vfs} {dir id : Nat} {name : CStr}
    {mode : UInt16} (h : Inserts v v' dir id name mode)
    (hsame : SameDirs v' w) (hknown : w.inodes id ≠ none) :
    Inserts v w dir id name mode where
  fresh := h.fresh
  new_known := hknown
  entries := fun j hj hid => (hsame.entries j).trans (h.entries j hj hid)
  mode_eq := fun j hid => (hsame.mode j).trans (h.mode_eq j hid)
  entry := (hsame.entries dir).trans h.entry
  new_entries := (hsame.entries id).trans h.new_entries
  new_mode := (hsame.mode id).trans h.new_mode

theorem lookup_congr {dir : Nat}
    (h : (v'.inode dir).entries = (v.inode dir).entries) (name : CStr) :
    v'.lookup dir name = v.lookup dir name := by
  unfold lookup ramfsLookup
  rw [h]
  split <;> rfl

/-- The way to a directory does not lead through it, so its new entry is not met. -/
theorem Inserts.walkTo {dir id : Nat} {name : CStr} {mode : UInt16}
    (h : Inserts v v' dir id name mode) (hi : ObjInv v) {curr : Nat}
    {bufs : List CStr} (hcurr : v.inodes curr ≠ none)
    (hwalk : v.walkTo curr bufs = some dir) :
    v'.walkTo curr bufs = some dir := by
  induction bufs generalizing curr with
  | nil => exact hwalk
  | cons buf bufs ih =>
      rw [walkTo_cons] at hwalk ⊢
      split at hwalk
      · rename_i hdots
        rw [if_pos hdots]
        exact ih hcurr hwalk
      rename_i hdots
      rw [if_neg hdots]
      have hid : curr ≠ id := fun heq => hcurr (heq ▸ h.fresh)
      rw [h.mode_eq curr hid]
      split at hwalk
      · rename_i hdir
        rw [if_pos hdir]
        rcases Option.bind_eq_some_iff.mp hwalk with ⟨next, hnext, hrest⟩
        rcases lookup_mem hnext with ⟨de, hde, hinode⟩
        have hchild := hi.child curr de hde
        rw [hinode] at hchild
        have hle := walkTo_le hi hrest
        rw [lookup_congr (h.entries curr (by omega) hid), hnext]
        exact ih hchild.left hrest
      · cases hwalk

theorem Inserts.lookup {dir id : Nat} {name : CStr} {mode : UInt16}
    (h : Inserts v v' dir id name mode) : v'.lookup dir name = some id := by
  have hhead : strncmpEq (name.take nameMax) name nameMax = true := by
    unfold strncmpEq
    rw [List.take_take, Nat.min_self]
    exact beq_self_eq_true _
  unfold Vfs.lookup ramfsLookup
  rw [h.entry, List.find?_cons, hhead]

theorem Inserts.resolve {dir id root : Nat} {path : CStr} {mode : UInt16}
    (h : Inserts v v' dir id (lastComponent path) mode) (hi : ObjInv v)
    (hi' : ObjInv v') (hroot : v.inodes root ≠ none)
    (hlen : path.length < pathMax) (hlast : NamesLast path)
    (hdir : v.resolve root (pathDirname path pathMax) = some dir)
    (hmode : sIsdir (v.inode dir).mode = true) (hknown : v.inodes dir ≠ none) :
    v'.resolve root path = some id <-> Fits path := by
  have hne : dir ≠ id := fun heq => hknown (heq ▸ h.fresh)
  have hway : v'.resolve root (pathDirname path pathMax) = some dir := by
    rw [resolve_eq_walkTo] at hdir ⊢
    exact h.walkTo hi hroot hdir
  rw [resolve_last v' root hlen, hway, Option.bind_some, walkTo_last v' hlast,
    h.mode_eq dir hne, if_pos hmode, h.lookup, Option.bind_some]
  exact walkTo_rest hi' id

theorem Inserts.of_noRefs {w : Vfs} {dir id : Nat} {name : CStr}
    {mode : UInt16} (hsame : w.noRefs = v.noRefs)
    (h : Inserts w v' dir id name mode) : Inserts v v' dir id name mode where
  fresh := ((keeps_noRefs hsame).unknown id).mp h.fresh
  new_known := h.new_known
  entries := fun j hj hid => (h.entries j hj hid).trans (entries_congr hsame j)
  mode_eq := fun j hid => (h.mode_eq j hid).trans (mode_congr hsame j)
  entry := by
    rw [h.entry, entries_congr hsame]
  new_entries := h.new_entries
  new_mode := h.new_mode

/-- A call has created an inode in the directory that a path names. -/
def CreatesAt (v v' : Vfs) (root : Nat) (path : CStr) (id : Nat) : Prop :=
  exists dir mode, v.resolve root (pathDirname path pathMax) = some dir ∧
    sIsdir (v.inode dir).mode = true ∧ v.inodes dir ≠ none ∧
    Inserts v v' dir id (pathBasename path pathMax) mode

theorem CreatesAt.resolve {root id : Nat} {path : CStr}
    (h : CreatesAt v v' root path id) (hi : ObjInv v) (hi' : ObjInv v')
    (hroot : v.inodes root ≠ none) (hlen : path.length < pathMax)
    (hlast : NamesLast path) :
    v'.resolve root path = some id <-> Fits path := by
  rcases h with ⟨dir, mode, hdir, hmode, hknown, hinserts⟩
  rw [pathBasename_eq hlen] at hinserts
  exact hinserts.resolve hi hi' hroot hlen hlast hdir hmode hknown

theorem ramfsCreate_createsAt (hi : ObjInv v) {w : Vfs}
    (hsame : w.noRefs = v.noRefs) {root dir id : Nat} {path : CStr}
    {mode : UInt16} (hroot : v.inodes root ≠ none)
    (hdir : v.resolve root (pathDirname path pathMax) = some dir)
    (hmode : sIsdir (v.inode dir).mode = true)
    (hcreate : (w.ramfsCreate dir (pathBasename path pathMax) mode).1 =
      some id) :
    CreatesAt v (w.ramfsCreate dir (pathBasename path pathMax) mode).2 root
      path id := by
  have hkeeps := keeps_noRefs hsame
  have hknown := (getInode_spec hi hroot hdir).left
  have hinserts := ramfsCreate_inserts (hi.keeps hkeeps)
    ((hkeeps.known dir).mpr hknown) hcreate
  exact ⟨dir, mode, hdir, hmode, hknown, hinserts.of_noRefs hsame⟩

theorem vfsMkdir_createsAt (hi : ObjInv v) {path rest : CStr}
    {mnt : Mountpoint} {mode : UInt16}
    (hmount : v.findMount path = some (mnt, rest))
    (hzero : (v.vfsMkdir path mode).1 = 0) :
    exists id, CreatesAt v (v.vfsMkdir path mode).2 mnt.root rest id := by
  have hroot := hi.root mnt (findMount_mem hmount)
  unfold vfsMkdir at hzero ⊢
  rw [hmount] at hzero ⊢
  dsimp only at hzero ⊢
  split at hzero
  · cases hzero
  rename_i hmkdir
  rw [if_neg hmkdir]
  unfold ramfsFsMkdir at hzero ⊢
  rcases v.getInode_eq mnt.root (pathDirname rest pathMax) with ⟨w, hw, hsame⟩
  rw [hw] at hzero ⊢
  cases hres : v.resolve mnt.root (pathDirname rest pathMax) with
  | none =>
      rw [hres] at hzero
      cases hzero
  | some dir =>
      rw [hres] at hzero
      dsimp only at hzero ⊢
      split at hzero
      · cases hzero
      rename_i hmode
      rw [if_neg hmode]
      rw [not_not, mode_congr hsame] at hmode
      unfold ramfsMkdir at hzero ⊢
      cases hc : w.ramfsCreate dir (pathBasename rest pathMax)
          (sIfdir ||| (mode &&& 0o777)) with
      | mk created w' =>
          rw [hc] at hzero
          cases created with
          | none => cases hzero
          | some id =>
              have hcreates := ramfsCreate_createsAt hi hsame hroot hres hmode
                (congrArg Prod.fst hc)
              rw [hc] at hcreates
              exact ⟨id, hcreates⟩

theorem findOrCreate_createsAt (hi : ObjInv v) {mnt : Mountpoint}
    (hroot : v.inodes mnt.root ≠ none) {path : CStr} {flags : UInt32}
    {mode : UInt16} {node : Nat}
    (hfound : (v.findOrCreate mnt path flags mode).1 = some node) :
    (v.resolve mnt.root path = some node ∧
      SameDirs v (v.findOrCreate mnt path flags mode).2) ∨
    (v.resolve mnt.root path = none ∧
      CreatesAt v (v.findOrCreate mnt path flags mode).2 mnt.root path
        node) := by
  unfold findOrCreate at hfound ⊢
  rcases v.getInode_eq mnt.root path with ⟨w, hw, hsame⟩
  rw [hw] at hfound ⊢
  cases hres : v.resolve mnt.root path with
  | some id =>
      rw [hres] at hfound
      cases hfound
      exact Or.inl ⟨rfl, sameDirs_noRefs hsame⟩
  | none =>
      right
      refine ⟨rfl, ?_⟩
      rw [hres] at hfound
      dsimp only at hfound ⊢
      split at hfound
      · cases hfound
      rename_i hcreat
      rw [if_neg hcreat]
      rcases w.getInode_eq mnt.root (pathDirname path pathMax) with
        ⟨u, hu, hsame'⟩
      have htrans := hsame'.trans hsame
      have hway := resolve_congr (sameDirs_noRefs hsame) mnt.root
        (pathDirname path pathMax)
      rw [hu, hway] at hfound
      rw [hu, hway]
      cases hdir : v.resolve mnt.root (pathDirname path pathMax) with
      | none =>
          rw [hdir] at hfound
          cases hfound
      | some dir =>
          rw [hdir] at hfound
          dsimp only at hfound ⊢
          split at hfound
          · cases hfound
          rename_i hmode
          rw [if_neg hmode]
          rw [not_not, mode_congr htrans] at hmode
          exact ramfsCreate_createsAt hi htrans hroot hdir hmode hfound

theorem CreatesAt.of_sameDirs {w : Vfs} {root id : Nat} {path : CStr}
    (h : CreatesAt v v' root path id) (hsame : SameDirs v' w)
    (hknown : w.inodes id ≠ none) : CreatesAt v w root path id := by
  rcases h with ⟨dir, mode, hdir, hmode, hdirKnown, hinserts⟩
  exact ⟨dir, mode, hdir, hmode, hdirKnown,
    hinserts.of_sameDirs hsame hknown⟩

theorem CreatesAt.congr {w : Vfs} {root id : Nat} {path : CStr}
    (h : CreatesAt w v' root path id) (hinodes : w.inodes = v.inodes) :
    CreatesAt v v' root path id := by
  rcases h with ⟨dir, mode, hdir, hmode, hknown, hinserts⟩
  have hinode : forall j, w.inode j = v.inode j := by
    intro j
    unfold inode
    rw [hinodes]
  have hsame : SameDirs v w :=
    ⟨fun j => by rw [hinode], fun j => by rw [hinode]⟩
  rw [resolve_congr hsame] at hdir
  rw [hinode] at hmode
  rw [hinodes] at hknown
  refine ⟨dir, mode, hdir, hmode, hknown, ?_⟩
  constructor
  · rw [← hinodes]
    exact hinserts.fresh
  · exact hinserts.new_known
  · intro j hj hid
    rw [← hinode]
    exact hinserts.entries j hj hid
  · intro j hid
    rw [← hinode]
    exact hinserts.mode_eq j hid
  · rw [← hinode]
    exact hinserts.entry
  · exact hinserts.new_entries
  · exact hinserts.new_mode

theorem findMount_congr (h : v'.mountList = v.mountList) (path : CStr) :
    v'.findMount path = v.findMount path := by
  unfold findMount
  rw [h]

theorem vfsOpen_node (hi : ObjInv v) {path rest : CStr} {mnt : Mountpoint}
    {flags : UInt32} {mode : UInt16} {fd : Int}
    (hmount : v.findMount path = some (mnt, rest))
    (hfd : (v.vfsOpen path flags mode).1 = fd) (hnonneg : 0 ≤ fd) :
    exists node, (v.vfsOpen path flags mode).2.descNode fd = some node ∧
      (v.vfsOpen path flags mode).2.inodes node ≠ none ∧
      (v.vfsOpen path flags mode).2.mountList = v.mountList ∧
      ((v.resolve mnt.root rest = some node ∧
          SameDirs v (v.vfsOpen path flags mode).2) ∨
        (v.resolve mnt.root rest = none ∧
          CreatesAt v (v.vfsOpen path flags mode).2 mnt.root rest node)) := by
  rcases vfsOpen_steps hi path flags mode with ⟨hfail, _⟩ |
    ⟨mnt', rest', slot, node, w, hmount', hbound, hslot, hfound, hnode, hslotFd,
      hattach⟩
  · omega
  · rw [hmount] at hmount'
    cases hmount'
    have hopening := hi.opening flags hslot
    have hroot := hopening.root mnt (findMount_mem hmount)
    have hstore := sameStore_findOrCreate hopening.unknown_next mnt rest flags
      mode
    have hcreates := (findOrCreate_creates hopening (findMount_mem hmount)
      rest flags mode).left
    have hcases := findOrCreate_createsAt hopening hroot
      (congrArg Prod.fst hfound)
    rw [hfound] at hstore hcreates hcases
    have hreopens := hattach.reopens hbound hslot hstore hnode
    have hknown := hattach.known node hnode
    have hdirs : SameDirs v (v.opening flags slot) :=
      ⟨fun _ => rfl, fun _ => rfl⟩
    rw [resolve_congr hdirs] at hcases
    rw [← hfd, hslotFd]
    refine ⟨node, hreopens.descNode, hknown,
      hattach.mountList.trans hcreates.mountList, ?_⟩
    rcases hcases with ⟨hres, hsame⟩ | ⟨hres, hcreated⟩
    · exact Or.inl ⟨hres, hdirs.trans (hsame.trans hattach.sameDirs)⟩
    · right
      have hcreated := hcreated.of_sameDirs hattach.sameDirs hknown
      have hinodes : (v.opening flags slot).inodes = v.inodes := rfl
      exact ⟨hres, hcreated.congr hinodes⟩

/-!
# Every tree
-/

/-- Of the ways a path can go, only an over-long last component splits two. -/
theorem path_splitting (fails : Nat -> Bool) (target : CStr) (flags : UInt32)
    (hreach : Reachable exec (fun _ _ => True)
      (freshMount fails target flags) v)
    {path rest : CStr} {mnt : Mountpoint}
    (hmount : v.findMount path = some (mnt, rest))
    (hlen : rest.length < pathMax) (hlast : NamesLast rest) :
    (v.resolve mnt.root rest = v.resolveSplit mnt.root rest <->
      Fits rest ∨ v.resolveSplit mnt.root rest = none) ∧
    (forall mode, (v.vfsMkdir path mode).1 = 0 ->
      exists id, v.inodes id = none ∧
        (v.vfsMkdir path mode).2.inodes id ≠ none ∧
        ((v.vfsMkdir path mode).2.pathNode path = some id <-> Fits rest)) ∧
    forall flags mode fd, (v.vfsOpen path flags mode).1 = fd -> 0 ≤ fd ->
      exists node, (v.vfsOpen path flags mode).2.descNode fd = some node ∧
        ((v.vfsOpen path flags mode).2.pathNode path = some node <->
          v.pathNode path ≠ none ∨ Fits rest) ∧
        forall flags' mode' fd',
          ((v.vfsOpen path flags mode).2.vfsOpen path flags' mode').1 = fd' ->
          0 ≤ fd' ->
          (((v.vfsOpen path flags mode).2.vfsOpen path flags'
              mode').2.descNode fd' = some node <->
            v.pathNode path ≠ none ∨ Fits rest) := by
  have hi : ObjInv v := (objInv_freshMount fails target flags).reachable hreach
  have hroot := hi.root mnt (findMount_mem hmount)
  refine ⟨resolve_agrees_iff hi mnt.root hlen hlast, ?_, ?_⟩
  · intro mode hzero
    have hi' := hi.exec (VfsOp.mkdir path mode)
    have hmounts := (vfsMkdir_creates hi path mode).mountList
    rcases vfsMkdir_createsAt hi hmount hzero with ⟨id, hcreates⟩
    have hfound := hcreates.resolve hi hi' hroot hlen hlast
    rcases hcreates with ⟨dir, mode', _, _, _, hinserts⟩
    refine ⟨id, hinserts.fresh, hinserts.new_known, ?_⟩
    unfold pathNode
    rw [findMount_congr hmounts, hmount]
    exact hfound
  · intro flags mode fd hfd hnonneg
    have hi' := hi.exec (VfsOp.openFile path flags mode)
    rcases vfsOpen_node hi hmount hfd hnonneg with
      ⟨node, hdesc, hknown, hmounts, hcases⟩
    change ObjInv (v.vfsOpen path flags mode).2 at hi'
    generalize (v.vfsOpen path flags mode).2 = w at *
    have hmount' : w.findMount path = some (mnt, rest) := by
      rw [findMount_congr hmounts, hmount]
    have hold : v.pathNode path = v.resolve mnt.root rest := by
      unfold pathNode
      rw [hmount]
    have hnew : w.pathNode path = w.resolve mnt.root rest := by
      unfold pathNode
      rw [hmount']
    have hfound : w.resolve mnt.root rest = some node <->
        v.resolve mnt.root rest ≠ none ∨ Fits rest := by
      rcases hcases with ⟨hres, hsame⟩ | ⟨hres, hcreates⟩
      · rw [resolve_congr hsame, hres]
        exact iff_of_true rfl (Or.inl (Option.some_ne_none node))
      · rw [hres, or_iff_right (fun h => h rfl)]
        exact hcreates.resolve hi hi' hroot hlen hlast
    rw [hold, hnew]
    refine ⟨node, hdesc, hfound, ?_⟩
    intro flags' mode' fd' hfd' hnonneg'
    rcases vfsOpen_node hi' hmount' hfd' hnonneg' with
      ⟨node', hdesc', _, _, hcases'⟩
    rw [hdesc', ← hfound, Option.some.injEq]
    rcases hcases' with ⟨hres', _⟩ | ⟨hres', dir, _, _, _, _, hinserts⟩
    · rw [hres', Option.some.injEq]
    · rw [hres']
      refine iff_of_false ?_ (fun h => by cases h)
      intro heq
      rw [heq] at hinserts
      exact hknown hinserts.fresh

/-- A directory is made, and a file is opened in it. -/
def nestedFile : Vfs :=
  run exec plainMount
    [VfsOp.mkdir (cstr "/a") 0o755, VfsOp.openFile (cstr "/a/f") oCreat 0o644]

theorem nestedFile_reach :
    Reachable exec (fun _ _ => True) plainMount nestedFile :=
  ⟨_, meets_true _ _ _, rfl⟩

/-- The file is found both ways, and what is made beside it as well. -/
theorem path_splitting_nestedFile :
    (nestedFile.resolve 1 (cstr "a/f") =
        nestedFile.resolveSplit 1 (cstr "a/f") ∧
      nestedFile.resolve 1 (cstr "a/f") ≠ none) ∧
    (exists id, (nestedFile.vfsMkdir (cstr "/a/g") 0o755).2.pathNode
      (cstr "/a/g") = some id ∧ nestedFile.inodes id = none) ∧
    exists node, (nestedFile.vfsOpen (cstr "/a/f") oCreat 0o644).2.pathNode
      (cstr "/a/f") = some node := by
  have hfile : nestedFile.findMount (cstr "/a/f") =
      some (⟨cstr "/", 1, ramfsType, 0⟩, cstr "a/f") := by decide +kernel
  have hdir : nestedFile.findMount (cstr "/a/g") =
      some (⟨cstr "/", 1, ramfsType, 0⟩, cstr "a/g") := by decide +kernel
  have hmkdir : (nestedFile.vfsMkdir (cstr "/a/g") 0o755).1 = 0 := by
    decide +kernel
  have hopen : 0 ≤ (nestedFile.vfsOpen (cstr "/a/f") oCreat 0o644).1 := by
    decide +kernel
  have hsplits := path_splitting _ _ _ nestedFile_reach hfile (by decide)
    ⟨by decide, by decide, by decide⟩
  have hmakes := path_splitting _ _ _ nestedFile_reach hdir (by decide)
    ⟨by decide, by decide, by decide⟩
  refine ⟨⟨hsplits.left.mpr (Or.inl (by decide)), by decide +kernel⟩, ?_, ?_⟩
  · rcases hmakes.right.left 0o755 hmkdir with ⟨id, hnew, _, hfound⟩
    exact ⟨id, hfound.mpr (by decide), hnew⟩
  · rcases hsplits.right.right oCreat 0o644 _ rfl hopen with
      ⟨node, _, hfound, _⟩
    exact ⟨node, hfound.mpr (Or.inr (by decide))⟩

def longName : CStr := List.replicate 256 0x61

theorem long_name_not_found :
    ((plainMount.vfsMkdir (slash :: longName) 0o755).1 = 0 ∧
      (plainMount.vfsMkdir (slash :: longName) 0o755).2.resolve 1 longName =
        none ∧
      (plainMount.vfsMkdir (slash :: longName) 0o755).2.resolveSplit 1
        longName = some 4) ∧
    NamesLast longName ∧ ¬ Fits longName := by
  refine ⟨by decide +kernel, ?_, by decide +kernel⟩
  exact ⟨by decide +kernel, by decide +kernel, by decide +kernel⟩

end Vfs
end Fs
end EarlnuxOS
