import Mathlib.Data.List.GetD

/-!
# Sparse sequences

A sequence that grows when something is put beyond its end; what lies between
the old end and the new part is filled up.
-/

namespace EarlnuxOS
namespace Foundation

universe u

variable {alpha : Type u}

/-- Put `ys` at a position of `xs`, with `fill` between the end of `xs` and it. -/
def overwrite (fill : alpha) (xs : List alpha) (pos : Nat)
    (ys : List alpha) : List alpha :=
  (xs ++ List.replicate (pos - xs.length) fill).take pos ++ ys ++
    xs.drop (pos + ys.length)

/-- At most `n` elements from a position on. -/
def slice (xs : List alpha) (pos n : Nat) : List alpha :=
  (xs.drop pos).take n

theorem slice_min (xs : List alpha) (pos n : Nat) :
    slice xs pos n = slice xs pos (min n (xs.length - pos)) := by
  unfold slice
  rw [List.take_eq_take_min, List.length_drop]

theorem length_padded (fill : alpha) (xs : List alpha) (pos : Nat) :
    ((xs ++ List.replicate (pos - xs.length) fill).take pos).length = pos := by
  rw [List.length_take, List.length_append, List.length_replicate]
  omega

theorem length_overwrite (fill : alpha) (xs : List alpha) (pos : Nat)
    (ys : List alpha) :
    (overwrite fill xs pos ys).length = max xs.length (pos + ys.length) := by
  unfold overwrite
  rw [List.length_append, List.length_append, length_padded,
    List.length_drop]
  omega

theorem getD_overwrite (fill : alpha) (xs : List alpha) (pos : Nat)
    (ys : List alpha) (i : Nat) :
    (overwrite fill xs pos ys).getD i fill =
      if pos ≤ i ∧ i < pos + ys.length then ys.getD (i - pos) fill
      else xs.getD i fill := by
  unfold overwrite
  rw [List.append_assoc]
  simp only [List.getD_eq_getElem?_getD]
  by_cases hbefore : i < pos
  · rw [List.getElem?_append_left (by rw [length_padded]; exact hbefore),
      List.getElem?_take_of_lt hbefore, if_neg (by omega)]
    by_cases hold : i < xs.length
    · rw [List.getElem?_append_left hold]
    · rw [List.getElem?_append_right (by omega), List.getElem?_replicate,
        if_pos (by omega), List.getElem?_eq_none (by omega)]
      rfl
  · rw [List.getElem?_append_right (by rw [length_padded]; omega),
      length_padded]
    by_cases hnew : i < pos + ys.length
    · rw [List.getElem?_append_left (by omega), if_pos ⟨by omega, hnew⟩]
    · rw [List.getElem?_append_right (by omega), List.getElem?_drop,
        if_neg (fun h => hnew h.right)]
      congr 2
      omega

theorem ext_getD (fill : alpha) {xs ys : List alpha}
    (hlen : xs.length = ys.length)
    (hget : forall i, i < xs.length -> xs.getD i fill = ys.getD i fill) :
    xs = ys := by
  apply List.ext_getElem hlen
  intro i hi hi'
  have h := hget i hi
  rw [List.getD_eq_getElem _ _ hi, List.getD_eq_getElem _ _ hi'] at h
  exact h

theorem overwrite_nil (fill : alpha) (xs : List alpha) :
    overwrite fill xs 0 [] = xs := rfl

theorem overwrite_append (fill : alpha) (xs ys zs : List alpha) (pos : Nat) :
    overwrite fill (overwrite fill xs pos ys) (pos + ys.length) zs =
      overwrite fill xs pos (ys ++ zs) := by
  apply ext_getD fill
  · rw [length_overwrite, length_overwrite, length_overwrite,
      List.length_append]
    omega
  · intro i _
    rw [getD_overwrite, getD_overwrite, getD_overwrite, List.length_append]
    by_cases hbehind : pos + ys.length ≤ i ∧ i < pos + ys.length + zs.length
    · rw [if_pos hbehind, if_pos (by omega),
        List.getD_append_right _ _ _ _ (by omega)]
      congr 1
      omega
    · rw [if_neg hbehind]
      by_cases hin : pos ≤ i ∧ i < pos + ys.length
      · rw [if_pos hin, if_pos (by omega), List.getD_append _ _ _ _ (by omega)]
      · rw [if_neg hin, if_neg (by omega)]

theorem overwrite_front (fill : alpha) (xs ys : List alpha) :
    overwrite fill xs 0 ys = ys ++ xs.drop ys.length := by
  unfold overwrite
  rw [List.take_zero, List.nil_append, Nat.zero_add]

theorem overwrite_eq_append_iff (fill : alpha) (xs ys : List alpha)
    (pos : Nat) :
    overwrite fill xs pos ys = xs ++ ys <->
      pos = xs.length ∨ ys = [] ∧ pos ≤ xs.length := by
  constructor
  · intro h
    have hlen := congrArg List.length h
    rw [length_overwrite, List.length_append] at hlen
    cases ys with
    | nil =>
        rw [List.length_nil] at hlen
        exact Or.inr ⟨rfl, by omega⟩
    | cons y ys =>
        rw [List.length_cons] at hlen
        exact Or.inl (by omega)
  · rintro (rfl | ⟨rfl, hle⟩)
    · unfold overwrite
      rw [Nat.sub_self, List.replicate_zero, List.append_nil,
        List.take_length, List.drop_eq_nil_of_le (Nat.le_add_right _ _),
        List.append_nil]
    · unfold overwrite
      rw [Nat.sub_eq_zero_of_le hle, List.replicate_zero, List.append_nil,
        List.append_nil, List.length_nil, Nat.add_zero, List.take_append_drop]

end Foundation
end EarlnuxOS
