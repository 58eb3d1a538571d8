import Mathlib.Data.List.Induction

/-!
# Held keys and a flag for a group of them

A keyboard reports strokes.  A key is held when it has been pressed and not
released since.  A driver that keeps one flag for a group of keys remembers
only the last stroke of the group; the flag says that some key of the group is
held, except after the release of one of two that were held together.
-/

namespace EarlnuxOS
namespace Foundation

universe u

inductive Stroke (alpha : Type u) where
  | press (k : alpha)
  | release (k : alpha)

variable {alpha : Type u}

namespace Stroke

def key : Stroke alpha -> alpha
  | press k => k
  | release k => k

def Held (k : alpha) (history : List (Stroke alpha)) : Prop :=
  exists before after, history = before ++ press k :: after ∧
    release k ∉ after

def AnyHeld (group : alpha -> Prop) (history : List (Stroke alpha)) : Prop :=
  exists k, group k ∧ Held k history

def LastOf (group : alpha -> Prop) (s : Stroke alpha)
    (before history : List (Stroke alpha)) : Prop :=
  group s.key ∧ exists after, history = before ++ s :: after ∧
    forall s', s' ∈ after -> ¬ group s'.key

def LastPressed (group : alpha -> Prop) (history : List (Stroke alpha)) : Prop :=
  exists k before, LastOf group (press k) before history

/-- The last stroke of the group releases one key while another is held. -/
def ReleasedBeside (group : alpha -> Prop) (history : List (Stroke alpha)) :
    Prop :=
  exists k before, LastOf group (release k) before history ∧
    exists other, group other ∧ other ≠ k ∧ Held other before

/-!
# One more stroke
-/

variable {group : alpha -> Prop} {history before : List (Stroke alpha)}

theorem held_append {k : alpha} {s : Stroke alpha} :
    Held k (history ++ [s]) <-> s = press k ∨ Held k history ∧ s ≠ release k := by
  constructor
  · rintro ⟨before, after, h, hfree⟩
    rcases List.eq_nil_or_concat after with rfl | ⟨after, last, rfl⟩
    · exact Or.inl (List.append_inj_right' h rfl |> List.head_eq_of_cons_eq)
    · rw [List.concat_eq_append, ← List.cons_append, ← List.append_assoc] at h
      have hhist := List.append_inj_left' h rfl
      have hlast := List.head_eq_of_cons_eq (List.append_inj_right' h rfl)
      rw [List.concat_eq_append, List.mem_append, not_or] at hfree
      refine Or.inr ⟨⟨before, after, hhist, hfree.left⟩, fun heq => ?_⟩
      exact hfree.right (List.mem_singleton.mpr (heq.symm.trans hlast))
  · rintro (rfl | ⟨⟨before, after, rfl, hfree⟩, hne⟩)
    · exact ⟨history, [], rfl, List.not_mem_nil⟩
    · refine ⟨before, after ++ [s], by simp, ?_⟩
      rw [List.mem_append, not_or]
      exact ⟨hfree, fun hmem => hne (List.mem_singleton.mp hmem).symm⟩

theorem held_append_other {k : alpha} {s : Stroke alpha} (hne : s.key ≠ k) :
    Held k (history ++ [s]) <-> Held k history := by
  rw [held_append]
  constructor
  · rintro (rfl | h)
    · exact absurd rfl hne
    · exact h.left
  · intro h
    refine Or.inr ⟨h, ?_⟩
    rintro rfl
    exact hne rfl

theorem held_append_others {k : alpha} {after : List (Stroke alpha)}
    (hne : forall s, s ∈ after -> s.key ≠ k) :
    Held k (history ++ after) <-> Held k history := by
  induction after generalizing history with
  | nil => rw [List.append_nil]
  | cons s after ih =>
      rw [← List.singleton_append, ← List.append_assoc,
        ih fun s' hs' => hne s' (List.mem_cons_of_mem s hs')]
      exact held_append_other (hne s List.mem_cons_self)

theorem exists_lastOf (group : alpha -> Prop) (history : List (Stroke alpha)) :
    (forall s, s ∈ history -> ¬ group s.key) ∨
      exists s before, LastOf group s before history := by
  induction history using List.reverseRecOn with
  | nil => exact Or.inl fun s hs => absurd hs List.not_mem_nil
  | append_singleton history s ih =>
      by_cases hs : group s.key
      · exact Or.inr ⟨s, history, hs, [], rfl, fun _ h =>
          absurd h List.not_mem_nil⟩
      · rcases ih with hnone | ⟨last, before, hlast, after, rfl, hafter⟩
        · refine Or.inl fun s' hs' => ?_
          rcases List.mem_append.mp hs' with h | h
          · exact hnone s' h
          · rw [List.mem_singleton.mp h]
            exact hs
        · refine Or.inr ⟨last, before, hlast, after ++ [s], by simp, ?_⟩
          intro s' hs'
          rcases List.mem_append.mp hs' with h | h
          · exact hafter s' h
          · rw [List.mem_singleton.mp h]
            exact hs

theorem LastOf.append {s s' : Stroke alpha}
    (h : LastOf group s before history) (hs' : ¬ group s'.key) :
    LastOf group s before (history ++ [s']) := by
  rcases h with ⟨hs, after, rfl, hafter⟩
  refine ⟨hs, after ++ [s'], by simp, fun x hx => ?_⟩
  rcases List.mem_append.mp hx with hx | hx
  · exact hafter x hx
  · rw [List.mem_singleton.mp hx]
    exact hs'

theorem lastOf_append_self {s : Stroke alpha} (hs : group s.key) :
    LastOf group s history (history ++ [s]) :=
  ⟨hs, [], rfl, fun _ h => absurd h List.not_mem_nil⟩

theorem lastPressed_append {s : Stroke alpha} :
    LastPressed group (history ++ [s]) <->
      (exists k, s = press k ∧ group k) ∨
        LastPressed group history ∧ ¬ group s.key := by
  constructor
  · rintro ⟨k, before, hk, after, h, hafter⟩
    rcases List.eq_nil_or_concat after with rfl | ⟨after, last, rfl⟩
    · exact Or.inl ⟨k, List.head_eq_of_cons_eq (List.append_inj_right' h rfl), hk⟩
    · rw [List.concat_eq_append] at h hafter
      rw [← List.cons_append, ← List.append_assoc] at h
      have hhist := List.append_inj_left' h rfl
      have hlast := List.head_eq_of_cons_eq (List.append_inj_right' h rfl)
      refine Or.inr ⟨⟨k, before, hk, after, hhist, fun s' hs' => ?_⟩, ?_⟩
      · exact hafter s' (List.mem_append_left _ hs')
      · rw [hlast]
        exact hafter last (List.mem_append_right _ List.mem_cons_self)
  · rintro (⟨k, rfl, hk⟩ | ⟨⟨k, before, h⟩, hs⟩)
    · exact ⟨k, history, lastOf_append_self hk⟩
    · exact ⟨k, before, h.append hs⟩

theorem not_lastPressed_nil : ¬ LastPressed group [] := by
  rintro ⟨k, before, _, after, h, _⟩
  cases before <;> cases h

/-!
# When the flag is right
-/

/-- A key of the group is held after its last stroke or not at all. -/
theorem LastOf.held_iff {s : Stroke alpha} {k : alpha}
    (h : LastOf group s before history) (hk : group k) :
    Held k history <-> s = press k ∨ Held k before ∧ s ≠ release k := by
  rcases h with ⟨_, after, rfl, hafter⟩
  rw [← List.singleton_append, ← List.append_assoc, held_append_others,
    held_append]
  intro s' hs' heq
  exact hafter s' hs' (heq ▸ hk)

theorem LastPressed.anyHeld (h : LastPressed group history) :
    AnyHeld group history := by
  rcases h with ⟨k, before, h⟩
  exact ⟨k, h.left, (h.held_iff h.left).mpr (Or.inl rfl)⟩

theorem ReleasedBeside.anyHeld (h : ReleasedBeside group history) :
    AnyHeld group history := by
  rcases h with ⟨k, before, h, other, hother, hne, hheld⟩
  refine ⟨other, hother, (h.held_iff hother).mpr (Or.inr ⟨hheld, ?_⟩)⟩
  intro heq
  injection heq with heq
  exact hne heq.symm

theorem LastOf.unique {s s' : Stroke alpha} {before' : List (Stroke alpha)}
    (h : LastOf group s before history)
    (h' : LastOf group s' before' history) : s = s' := by
  rcases h with ⟨hs, after, heq, hafter⟩
  rcases h' with ⟨hs', after', heq', hafter'⟩
  rw [heq] at heq'
  rcases List.append_eq_append_iff.mp heq' with
    ⟨mid, _, hmid⟩ | ⟨mid, _, hmid⟩
  · cases mid with
    | nil => exact List.head_eq_of_cons_eq hmid
    | cons x mid =>
        have hmem : s' ∈ after := by
          rw [List.tail_eq_of_cons_eq hmid]
          exact List.mem_append_right _ List.mem_cons_self
        exact absurd hs' (hafter s' hmem)
  · cases mid with
    | nil => exact (List.head_eq_of_cons_eq hmid).symm
    | cons x mid =>
        have hmem : s ∈ after' := by
          rw [List.tail_eq_of_cons_eq hmid]
          exact List.mem_append_right _ List.mem_cons_self
        exact absurd hs (hafter' s hmem)

/-- One flag for several keys fails after such a release, and only then. -/
theorem lastPressed_iff_anyHeld :
    (LastPressed group history <-> AnyHeld group history) <->
      ¬ ReleasedBeside group history := by
  constructor
  · intro hflag hbeside
    rcases hflag.mpr hbeside.anyHeld with ⟨k, before, hpress⟩
    rcases hbeside with ⟨k', before', hrelease, _⟩
    cases hpress.unique hrelease
  · intro hnot
    refine ⟨LastPressed.anyHeld, ?_⟩
    rintro ⟨k, hk, hheld⟩
    rcases exists_lastOf group history with hnone | ⟨s, before, hlast⟩
    · rcases hheld with ⟨before, after, rfl, _⟩
      exact absurd hk (hnone _ (List.mem_append_right _ List.mem_cons_self))
    · cases s with
      | press k' => exact ⟨k', before, hlast⟩
      | release k' =>
          rcases (hlast.held_iff hk).mp hheld with heq | ⟨hbefore, hne⟩
          · cases heq
          · refine absurd ⟨k', before, hlast, k, hk, ?_, hbefore⟩ hnot
            rintro rfl
            exact hne rfl

end Stroke
end Foundation
end EarlnuxOS
