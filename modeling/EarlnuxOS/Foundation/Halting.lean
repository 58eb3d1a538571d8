import Mathlib.Data.List.Basic

/-!
# Machines that halt

A step leads to the next state, or to none when the machine is done.  A measure
that falls with each step makes a machine halt without leaving an invariant; a
machine that keeps another invariant until something bad happens does not halt
before.
-/

namespace EarlnuxOS
namespace Foundation

universe u

variable {state : Type u} {step : state -> Option state}

/-- The machine halts; the list has the states it visits, the last one apart. -/
inductive Halts (step : state -> Option state) :
    state -> List state -> state -> Prop where
  | done {s : state} : step s = none -> Halts step s [] s
  | next {s s' last : state} {trace : List state} :
      step s = some s' -> Halts step s' trace last ->
      Halts step s (s :: trace) last

theorem halts_of_measure {P : state -> Prop} (size : state -> Nat)
    (hstep : forall s, P s -> step s = none ∨
      exists s', step s = some s' ∧ P s' ∧ size s' < size s)
    {s : state} (hs : P s) :
    exists trace last, Halts step s trace last ∧
      (forall x, x ∈ trace -> P x) ∧ P last := by
  generalize hn : size s = n
  induction n using Nat.strongRecOn generalizing s with
  | ind n ih =>
      rcases hstep s hs with hdone | ⟨s', hnext, hs', hless⟩
      · exact ⟨[], s, Halts.done hdone, List.forall_mem_nil _, hs⟩
      · rcases ih (size s') (hn ▸ hless) hs' rfl with ⟨trace, last, hhalts, htrace, hlast⟩
        exact ⟨s :: trace, last, Halts.next hnext hhalts,
          List.forall_mem_cons.mpr ⟨hs, htrace⟩, hlast⟩

theorem Halts.meets {P bad : state -> Prop}
    (hstep : forall s, P s -> exists s', step s = some s' ∧ (P s' ∨ bad s'))
    {s last : state} {trace : List state} (hhalts : Halts step s trace last)
    (hs : P s) : bad last ∨ exists x, x ∈ trace ∧ bad x := by
  induction hhalts with
  | done hdone =>
      rcases hstep _ hs with ⟨s', hnext, _⟩
      rw [hdone] at hnext
      cases hnext
  | next hnext hrest ih =>
      rcases hstep _ hs with ⟨s', hnext', hs'⟩
      cases Option.some.inj (hnext.symm.trans hnext')
      rcases hs' with hs' | hbad
      · rcases ih hs' with hlast | ⟨x, hx, hbad⟩
        · exact Or.inl hlast
        · exact Or.inr ⟨x, List.mem_cons_of_mem _ hx, hbad⟩
      · cases hrest with
        | done _ => exact Or.inl hbad
        | next _ _ => exact Or.inr ⟨_, List.mem_cons_of_mem _ List.mem_cons_self, hbad⟩

/-- The machine halts, and each state it leaves is as it is to be. -/
def HaltsWithin (step : state -> Option state) (good : state -> Prop)
    (s last : state) : Prop :=
  exists trace, Halts step s trace last ∧ forall x, x ∈ trace -> good x

theorem HaltsWithin.stop {good : state -> Prop} {s : state}
    (hdone : step s = none) : HaltsWithin step good s s :=
  ⟨[], Halts.done hdone, List.forall_mem_nil _⟩

theorem HaltsWithin.next {good : state -> Prop} {s s' last : state}
    (hstep : step s = some s') (hgood : good s)
    (h : HaltsWithin step good s' last) : HaltsWithin step good s last := by
  rcases h with ⟨trace, hhalts, htrace⟩
  exact ⟨s :: trace, Halts.next hstep hhalts,
    List.forall_mem_cons.mpr ⟨hgood, htrace⟩⟩

theorem Halts.unique {s last last' : state} {trace trace' : List state}
    (h : Halts step s trace last) (h' : Halts step s trace' last') :
    trace = trace' ∧ last = last' := by
  induction h generalizing trace' with
  | done hdone =>
      cases h' with
      | done _ => exact ⟨rfl, rfl⟩
      | next hnext _ =>
          rw [hdone] at hnext
          cases hnext
  | next hnext _ ih =>
      cases h' with
      | done hdone =>
          rw [hdone] at hnext
          cases hnext
      | next hnext' hrest' =>
          cases Option.some.inj (hnext.symm.trans hnext')
          rcases ih hrest' with ⟨htrace, hlast⟩
          exact ⟨congrArg (List.cons _) htrace, hlast⟩

def HaltsAt (step : state -> Option state) (s last : state) : Prop :=
  exists trace, Halts step s trace last

theorem HaltsAt.stop {s : state} (hdone : step s = none) : HaltsAt step s s :=
  ⟨[], Halts.done hdone⟩

theorem HaltsAt.next {s s' last : state} (hstep : step s = some s')
    (h : HaltsAt step s' last) : HaltsAt step s last := by
  rcases h with ⟨trace, hhalts⟩
  exact ⟨s :: trace, Halts.next hstep hhalts⟩

theorem HaltsAt.unique {s last last' : state} (h : HaltsAt step s last)
    (h' : HaltsAt step s last') : last = last' := by
  rcases h with ⟨trace, hhalts⟩
  rcases h' with ⟨trace', hhalts'⟩
  exact (hhalts.unique hhalts').right

theorem Halts.step_last {s last : state} {trace : List state}
    (h : Halts step s trace last) : step last = none := by
  induction h with
  | done hdone => exact hdone
  | next _ _ ih => exact ih

end Foundation
end EarlnuxOS
