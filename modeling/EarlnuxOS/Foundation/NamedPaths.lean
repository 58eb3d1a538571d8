import Mathlib.Data.List.Infix
import Mathlib.Order.Basic

/-!
# Paths of names

Walking from a root along names, in a graph in which a step never leads back
and no node is reached by two steps.  What a new node and a removed one do to
all the paths.
-/

namespace EarlnuxOS
namespace Foundation
namespace NamedPaths

universe u v w

variable {place : Type u} {name : Type v}

def walk (step : place -> name -> Option place) (root : place)
    (names : List name) : Option place :=
  names.foldlM step root

section

variable (step : place -> name -> Option place) (root : place)

@[simp] theorem walk_nil : walk step root [] = some root := rfl

theorem walk_cons (n : name) (p : List name) :
    walk step root (n :: p) =
      (step root n).bind fun d => walk step d p := by
  unfold walk
  rw [List.foldlM_cons]
  rfl

theorem walk_concat (p : List name) (n : name) :
    walk step root (p ++ [n]) =
      (walk step root p).bind fun d => step d n := by
  unfold walk
  rw [List.foldlM_append]
  cases p.foldlM step root with
  | none => rfl
  | some d =>
      show (step d n >>= fun c => some c) = step d n
      cases step d n with
      | none => rfl
      | some c => rfl

end

variable {step step' : place -> name -> Option place} {root : place}

theorem walk_congr_reached
    (hstep : forall p d, walk step root p = some d ->
      forall n, step' d n = step d n) (p : List name) :
    walk step' root p = walk step root p := by
  induction p using List.reverseRecOn with
  | nil => rfl
  | append_singleton p n ih =>
      rw [walk_concat, walk_concat, ih]
      cases hd : walk step root p with
      | none => rfl
      | some d => exact hstep p d hd n

variable {alpha : Type w} {see see' : place -> alpha}

def view (step : place -> name -> Option place) (see : place -> alpha)
    (root : place) (q : List name) : Option alpha :=
  (walk step root q).map see

theorem view_congr (hstep : forall p d, walk step root p = some d ->
      forall n, step' d n = step d n)
    (hsee : forall p d, walk step root p = some d -> see' d = see d) :
    view step' see' root = view step see root := by
  funext q
  unfold view
  rw [walk_congr_reached hstep]
  cases hd : walk step root q with
  | none => rfl
  | some d => exact congrArg some (hsee q d hd)

/-!
# One path to each place
-/

/-- Steps lead upwards, and two different ones to different places. -/
structure Branching [Preorder place] (step : place -> name -> Option place) :
    Prop where
  grows : forall d n c, step d n = some c -> d < c
  unique : forall d d' n n' c, step d n = some c -> step d' n' = some c ->
    d = d' ∧ n = n'

theorem Branching.le_walk [Preorder place] (h : Branching step)
    {p : List name} {d : place} (hp : walk step root p = some d) : root ≤ d := by
  induction p using List.reverseRecOn generalizing d with
  | nil =>
      cases hp
      exact le_refl root
  | append_singleton p n ih =>
      rw [walk_concat] at hp
      rcases Option.bind_eq_some_iff.mp hp with ⟨c, hc, hstep⟩
      exact le_trans (ih hc) (le_of_lt (h.grows c n d hstep))

theorem Branching.lt_walk [Preorder place] (h : Branching step)
    {p : List name} {n : name} {d : place}
    (hp : walk step root (p ++ [n]) = some d) : root < d := by
  rw [walk_concat] at hp
  rcases Option.bind_eq_some_iff.mp hp with ⟨c, hc, hstep⟩
  exact lt_of_le_of_lt (h.le_walk hc) (h.grows c n d hstep)

theorem Branching.walk_injective [Preorder place] (h : Branching step)
    {p q : List name} {d : place} (hp : walk step root p = some d)
    (hq : walk step root q = some d) : p = q := by
  induction p using List.reverseRecOn generalizing q d with
  | nil =>
      cases hp
      induction q using List.reverseRecOn with
      | nil => rfl
      | append_singleton q n _ => exact absurd (h.lt_walk hq) (lt_irrefl _)
  | append_singleton p n ih =>
      induction q using List.reverseRecOn with
      | nil =>
          cases hq
          exact absurd (h.lt_walk hp) (lt_irrefl _)
      | append_singleton q m _ =>
          rw [walk_concat] at hp hq
          rcases Option.bind_eq_some_iff.mp hp with ⟨c, hc, hstep⟩
          rcases Option.bind_eq_some_iff.mp hq with ⟨c', hc', hstep'⟩
          rcases h.unique c c' n m d hstep hstep' with ⟨hsame, hname⟩
          rw [← hsame] at hc'
          rw [ih hc hc', hname]

/-!
# A new place, and one that is gone
-/

variable [DecidableEq name]

structure Extends (step step' : place -> name -> Option place)
    (dir : place) (m : name) (new : place) : Prop where
  at_dir : forall n, step' dir n = if n = m then some new else step dir n
  fresh : forall n, step' new n = none
  elsewhere : forall d n, d ≠ dir -> d ≠ new -> step' d n = step d n

theorem Extends.walk [Preorder place] {dir new : place} {m : name}
    (h : Extends step step' dir m new) (hbranch : Branching step)
    {p : List name} (hp : walk step root p = some dir)
    (hm : step dir m = none)
    (hnew : forall q, NamedPaths.walk step root q ≠ some new)
    (q : List name) :
    NamedPaths.walk step' root q =
      if q = p ++ [m] then some new else NamedPaths.walk step root q := by
  induction q using List.reverseRecOn with
  | nil =>
      rw [if_neg (fun heq => by cases p <;> cases heq)]
      rfl
  | append_singleton q n ih =>
      rw [walk_concat, walk_concat, ih]
      simp only [List.append_singleton_inj]
      by_cases hq : q = p ++ [m]
      · have hne : ¬ (q = p ∧ n = m) := by
          intro hboth
          have hlen := congrArg List.length (hq.symm.trans hboth.left)
          rw [List.length_append, List.length_singleton] at hlen
          omega
        rw [if_pos hq, if_neg hne, hq, walk_concat, hp, Option.bind_some,
          Option.bind_some, h.fresh, hm]
        rfl
      · rw [if_neg hq]
        cases hd : NamedPaths.walk step root q with
        | none =>
            rw [if_neg]
            · rfl
            · rintro ⟨heq, _⟩
              rw [heq, hp] at hd
              cases hd
        | some d =>
            rw [Option.bind_some, Option.bind_some]
            by_cases hdir : d = dir
            · rw [hdir] at hd
              have hqp := hbranch.walk_injective hd hp
              rw [hdir, h.at_dir]
              simp [hqp]
            · have hqp : ¬ (q = p ∧ n = m) := by
                rintro ⟨heq, _⟩
                rw [heq, hp] at hd
                exact hdir (Option.some.inj hd).symm
              have hdnew : d ≠ new := fun heq => hnew q (heq ▸ hd)
              rw [if_neg hqp, h.elsewhere d n hdir hdnew]

structure Cuts (step step' : place -> name -> Option place) (dir : place)
    (m : name) : Prop where
  at_dir : forall n, step' dir n = if n = m then none else step dir n
  elsewhere : forall d n, d ≠ dir -> step' d n = step d n

theorem Cuts.walk [Preorder place] {dir : place} {m : name}
    (h : Cuts step step' dir m) (hbranch : Branching step) {p : List name}
    (hp : walk step root p = some dir) (q : List name) :
    NamedPaths.walk step' root q =
      if p ++ [m] <+: q then none else NamedPaths.walk step root q := by
  induction q using List.reverseRecOn with
  | nil =>
      rw [if_neg]
      · rfl
      · intro hprefix
        have hlen := hprefix.length_le
        rw [List.length_append, List.length_singleton] at hlen
        exact absurd hlen (Nat.not_succ_le_zero _)
  | append_singleton q n ih =>
      rw [walk_concat, walk_concat, ih]
      simp only [List.prefix_concat_iff]
      by_cases hq : p ++ [m] <+: q
      · rw [if_pos hq, if_pos (Or.inr hq)]
        rfl
      · rw [if_neg hq]
        simp only [hq, or_false, List.append_singleton_inj]
        cases hd : NamedPaths.walk step root q with
        | none => exact (ite_self _).symm
        | some d =>
            rw [Option.bind_some, Option.bind_some]
            by_cases hdir : d = dir
            · rw [hdir] at hd
              have hqp := hbranch.walk_injective hd hp
              rw [hdir, h.at_dir]
              simp [hqp, eq_comm]
            · have hqp : ¬ (p = q ∧ m = n) := by
                rintro ⟨heq, _⟩
                rw [← heq, hp] at hd
                exact hdir (Option.some.inj hd).symm
              rw [if_neg hqp, h.elsewhere d n hdir]

/-!
# What paths show
-/

variable {p : List name} {dir new : place} {m : name} {f : alpha -> alpha}

def relabel (t : List name -> Option alpha) (p : List name)
    (f : alpha -> alpha) (q : List name) : Option alpha :=
  if q = p then (t q).map f else t q

def prune (t : List name -> Option alpha) (p : List name) (q : List name) :
    Option alpha :=
  if p <+: q then none else t q

theorem Branching.view_relabel [Preorder place] (h : Branching step)
    (hp : walk step root p = some dir) (hdir : see' dir = f (see dir))
    (hother : forall q d, walk step root q = some d -> d ≠ dir ->
      see' d = see d) :
    view step see' root = relabel (view step see root) p f := by
  funext q
  show (walk step root q).map see' =
    if q = p then ((walk step root q).map see).map f
    else (walk step root q).map see
  by_cases hq : q = p
  · rw [if_pos hq, hq, hp, Option.map_some, Option.map_some, Option.map_some,
      hdir]
  · rw [if_neg hq]
    cases hd : walk step root q with
    | none => rfl
    | some d =>
        have hne : d ≠ dir := by
          intro heq
          rw [heq] at hd
          exact hq (h.walk_injective hd hp)
        exact congrArg some (hother q d hd hne)

theorem Extends.view [Preorder place] (h : Extends step step' dir m new)
    (hbranch : Branching step) (hp : NamedPaths.walk step root p = some dir)
    (hm : step dir m = none)
    (hnew : forall q, NamedPaths.walk step root q ≠ some new)
    (hdir : see' dir = f (see dir))
    (hother : forall q d, NamedPaths.walk step root q = some d -> d ≠ dir ->
      see' d = see d) :
    NamedPaths.view step' see' root =
      Function.update (relabel (NamedPaths.view step see root) p f) (p ++ [m])
        (some (see' new)) := by
  rw [← hbranch.view_relabel hp hdir hother]
  funext q
  show (NamedPaths.walk step' root q).map see' = _
  rw [h.walk hbranch hp hm hnew, Function.update_apply]
  split <;> rfl

theorem Cuts.view [Preorder place] (h : Cuts step step' dir m)
    (hbranch : Branching step) (hp : NamedPaths.walk step root p = some dir)
    (hdir : see' dir = f (see dir))
    (hother : forall q d, NamedPaths.walk step root q = some d -> d ≠ dir ->
      see' d = see d) :
    NamedPaths.view step' see' root =
      prune (relabel (NamedPaths.view step see root) p f) (p ++ [m]) := by
  rw [← hbranch.view_relabel hp hdir hother]
  funext q
  show (NamedPaths.walk step' root q).map see' = _
  rw [h.walk hbranch hp]
  unfold prune
  split <;> rfl

end NamedPaths
end Foundation
end EarlnuxOS
