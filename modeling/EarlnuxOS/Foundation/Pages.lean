import Mathlib.Algebra.GroupWithZero.Nat
import Mathlib.Data.List.Basic

/-!
# Pages of a list

A list that is read page by page, each page with a capacity of its own and
beginning where the one before has ended.
-/

namespace EarlnuxOS
namespace Foundation

universe u v

variable {α : Type u} {β : Type v}

def pages : List α -> List Nat -> List (List α)
  | _, [] => []
  | l, k :: ks => l.take k :: pages (l.drop k) ks

@[simp] theorem pages_nil (l : List α) : pages l [] = [] := rfl

@[simp] theorem pages_cons (l : List α) (k : Nat) (ks : List Nat) :
    pages l (k :: ks) = l.take k :: pages (l.drop k) ks := rfl

/-- Whatever the pages are, they are the front of the list together. -/
theorem pages_flatten (l : List α) (ks : List Nat) :
    (pages l ks).flatten = l.take ks.sum := by
  induction ks generalizing l with
  | nil => rfl
  | cons k ks ih =>
      rw [pages_cons, List.flatten_cons, ih, List.sum_cons, List.take_add]

/-- The next page is empty exactly when the pages so far are the whole list. -/
theorem page_eq_nil_iff {k : Nat} (hk : 0 < k) (l : List α) (ks : List Nat) :
    (l.drop ks.sum).take k = [] <->
      (pages l ks).flatten.length = l.length := by
  rw [pages_flatten, List.length_take, List.take_eq_nil_iff,
    List.drop_eq_nil_iff]
  omega

/-- Pages stand in a list exactly when the first does and the rest behind it. -/
theorem append_prefix_iff {page rest l : List α} {k : Nat}
    (hlen : page.length = (l.take k).length) :
    page ++ rest <+: l <-> page = l.take k ∧ rest <+: l.drop k := by
  constructor
  · rintro ⟨t, ht⟩
    rw [List.append_assoc] at ht
    have hsplit := List.append_inj
      (ht.trans (List.take_append_drop k l).symm) hlen
    exact ⟨hsplit.left, t, hsplit.right⟩
  · rintro ⟨rfl, t, ht⟩
    refine ⟨t, ?_⟩
    rw [List.append_assoc, ht, List.take_append_drop]

theorem mapIdx_eq_map_iff {f : Nat -> α -> β} {g : α -> β} {l : List α} :
    l.mapIdx f = l.map g <->
      forall j a, l[j]? = some a -> f j a = g a := by
  rw [List.mapIdx_eq_iff]
  constructor
  · intro h j a ha
    have hj := h j
    rw [List.getElem?_map, ha, Option.map_some, Option.map_some] at hj
    exact (Option.some.inj hj).symm
  · intro h j
    rw [List.getElem?_map]
    cases ha : l[j]? with
    | none => rfl
    | some a => exact congrArg some (h j a ha).symm

end Foundation
end EarlnuxOS
