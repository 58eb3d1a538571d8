import Mathlib.Data.List.Perm.Basic
import Mathlib.Data.List.Nodup
import Mathlib.Data.List.Pairwise

/-!
# Shares of a stock

Several holders have a list of things each.  Where all the lists together hold
nothing twice, a thing tells its holder, and a change of one holder's list is a
change of the whole.
-/

namespace EarlnuxOS
namespace Foundation

universe u v

variable {holder : Type u} {thing : Type v} {l : List holder}
  {share share' : holder -> List thing} {a b : holder} {x : thing}

theorem holder_unique (hnodup : (l.flatMap share).Nodup) (ha : a ∈ l)
    (hb : b ∈ l) (hxa : x ∈ share a) (hxb : x ∈ share b) : a = b := by
  by_contra hne
  rcases List.nodup_flatMap.mp hnodup with ⟨_, hpairs⟩
  have hsymm : Std.Symm (Function.onFun List.Disjoint share) :=
    ⟨fun _ _ h => List.disjoint_symm h⟩
  exact hpairs.forall ha hb hne hxa hxb

theorem share_nodup (hnodup : (l.flatMap share).Nodup) (ha : a ∈ l) :
    (share a).Nodup :=
  (List.nodup_flatMap.mp hnodup).left a ha

theorem holders_nodup (hnodup : (l.flatMap share).Nodup)
    (hsome : forall a, a ∈ l -> exists x, x ∈ share a) : l.Nodup := by
  rcases List.nodup_flatMap.mp hnodup with ⟨_, hpairs⟩
  apply hpairs.imp_of_mem
  intro a b ha _ hdisjoint heq
  rcases hsome a ha with ⟨x, hx⟩
  exact hdisjoint hx (heq ▸ hx)

theorem perm_gain (extra : List thing) (hnodup : l.Nodup) (ha : a ∈ l)
    (hothers : forall b, b ∈ l -> b ≠ a -> share' b = share b)
    (hone : (share' a).Perm (extra ++ share a)) :
    (l.flatMap share').Perm (extra ++ l.flatMap share) := by
  induction l with
  | nil => exact absurd ha List.not_mem_nil
  | cons c l ih =>
      rcases List.nodup_cons.mp hnodup with ⟨hc, hrest⟩
      rw [List.flatMap_cons, List.flatMap_cons]
      by_cases hac : c = a
      · have hsame : l.flatMap share' = l.flatMap share := by
          apply List.flatMap_congr
          intro b hb
          apply hothers b (List.mem_cons_of_mem c hb)
          intro heq
          rw [hac, ← heq] at hc
          exact hc hb
        rw [hsame, hac, ← List.append_assoc]
        exact hone.append_right _
      · have hmem : a ∈ l := (List.mem_cons.mp ha).resolve_left (Ne.symm hac)
        have hothers' : forall b, b ∈ l -> b ≠ a -> share' b = share b :=
          fun b hb => hothers b (List.mem_cons_of_mem c hb)
        rw [hothers c List.mem_cons_self hac]
        refine ((ih hrest hmem hothers').append_left _).trans ?_
        rw [← List.append_assoc, ← List.append_assoc]
        exact List.perm_append_comm.append_right _

theorem perm_leave [DecidableEq holder] (ha : a ∈ l) :
    (l.flatMap share).Perm (share a ++ (l.erase a).flatMap share) :=
  (List.perm_cons_erase ha).flatMap_right share

end Foundation
end EarlnuxOS
