import Mathlib.Data.List.Basic

/-!
# Trails

A trail is a list of names in which one name, `up`, leads out of the place that
was entered last.  A trail read by itself climbs some levels and then enters
some names; where it leads from any place follows from these two.
-/

namespace EarlnuxOS
namespace Foundation

universe u

/-- The levels that a trail climbs, and the names that it enters then. -/
structure Course (α : Type u) where
  climbs : Nat
  enters : List α
deriving DecidableEq, Repr

def Course.lead {α : Type u} (a : Course α) (place : List α) : List α :=
  place.take (place.length - a.climbs) ++ a.enters

/-!
# What a course does
-/

theorem Course.lead_eq_self_iff {α : Type u} {a : Course α} {place : List α} :
    a.lead place = place <->
      a.enters = place.drop (place.length - a.climbs) := by
  unfold Course.lead
  conv => lhs; rhs; rw [← List.take_append_drop (place.length - a.climbs) place]
  exact List.append_right_inj _

/-- A course that ends one level higher enters all but the last of them. -/
theorem Course.lead_eq_dropLast_iff {α : Type u} {a : Course α}
    {place : List α} (hplace : place ≠ []) :
    a.lead place = place.dropLast <->
      1 ≤ a.climbs ∧
        a.enters = place.dropLast.drop (place.length - a.climbs) := by
  have hpos : 0 < place.length := List.length_pos_of_ne_nil hplace
  unfold Course.lead
  cases hclimbs : a.climbs with
  | zero =>
      refine iff_of_false ?_ ?_
      · intro h
        have hlen := congrArg List.length h
        rw [Nat.sub_zero, List.take_length, List.length_append,
          List.length_dropLast] at hlen
        omega
      · intro h
        exact Nat.not_succ_le_zero 0 h.left
  | succ n =>
      have htake : place.take (place.length - (n + 1)) =
          place.dropLast.take (place.length - (n + 1)) := by
        rw [List.dropLast_eq_take, List.take_take, Nat.min_eq_left (by omega)]
      rw [htake, and_iff_right (Nat.le_add_left 1 n)]
      conv =>
        lhs
        rhs
        rw [← List.take_append_drop (place.length - (n + 1)) place.dropLast]
      exact List.append_right_inj _

/-!
# The course of a trail
-/

variable {α : Type u} [DecidableEq α] {up : α}

/-- Where one name leads.  There is nothing above the root. -/
def enter (up : α) (place : List α) (c : α) : List α :=
  if c = up then place.dropLast else place ++ [c]

def follow (up : α) (place trail : List α) : List α :=
  trail.foldl (enter up) place

def Course.next (up : α) (a : Course α) (c : α) : Course α :=
  if c = up then
    if a.enters = [] then ⟨a.climbs + 1, []⟩
    else ⟨a.climbs, a.enters.dropLast⟩
  else ⟨a.climbs, a.enters ++ [c]⟩

def course (up : α) (trail : List α) : Course α :=
  trail.foldl (Course.next up) ⟨0, []⟩

@[simp] theorem follow_nil (up : α) (place : List α) :
    follow up place [] = place := rfl

theorem follow_append (up : α) (place first second : List α) :
    follow up place (first ++ second) =
      follow up (follow up place first) second :=
  List.foldl_append

theorem follow_of_not_mem {place trail : List α} (h : up ∉ trail) :
    follow up place trail = place ++ trail := by
  induction trail generalizing place with
  | nil => exact (List.append_nil place).symm
  | cons c trail ih =>
      rw [List.mem_cons, not_or] at h
      have hstep : enter up place c = place ++ [c] := if_neg (Ne.symm h.left)
      calc follow up place (c :: trail)
          = follow up (place ++ [c]) trail := by rw [← hstep]; rfl
        _ = place ++ [c] ++ trail := ih h.right
        _ = place ++ c :: trail := by rw [List.append_assoc]; rfl

theorem Course.lead_next (a : Course α) (place : List α) (c : α) :
    (a.next up c).lead place = enter up (a.lead place) c := by
  unfold Course.next Course.lead enter
  split
  · split
    · rename_i hnone
      rw [hnone, List.append_nil, List.append_nil, Nat.sub_add_eq]
      have hlen : (place.take (place.length - a.climbs)).length - 1 =
          place.length - a.climbs - 1 := by
        rw [List.length_take_of_le (Nat.sub_le _ _)]
      rw [List.dropLast_eq_take, hlen, List.take_take,
        Nat.min_eq_left (Nat.sub_le _ _)]
    · rename_i hsome
      exact (List.dropLast_append_of_ne_nil hsome).symm
  · exact (List.append_assoc _ _ _).symm

theorem follow_eq_lead (place trail : List α) :
    follow up place trail = (course up trail).lead place := by
  have hrun : forall a : Course α,
      (trail.foldl (Course.next up) a).lead place =
        trail.foldl (enter up) (a.lead place) := by
    induction trail with
    | nil =>
        intro a
        rfl
    | cons c trail ih =>
        intro a
        rw [List.foldl_cons, ih, Course.lead_next, List.foldl_cons]
  have hstart : (Course.mk 0 [] : Course α).lead place = place := by
    unfold Course.lead
    rw [Nat.sub_zero, List.take_length, List.append_nil]
  unfold follow course
  rw [hrun, hstart]

end Foundation
end EarlnuxOS
