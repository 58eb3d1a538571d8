import Mathlib.Data.List.Pairwise
import EarlnuxOS.Mm.Heap.Headers

/-!
# The layout of the heap

The blocks of a well-formed heap follow one another without gaps from
`heap_start` to `heap_brk`.  Splitting and joining replace neighbours in this
sequence by others that take up the same space.
-/

namespace EarlnuxOS
namespace Mm

open Foundation

/-- The blocks lie one behind the other from `a` to `e`. -/
def Layout : Nat -> List (Nat × Tag) -> Nat -> Prop
  | a, [], e => a = e
  | a, b :: bs, e => b.1 = a ∧ Layout (a + blockHdrSize + b.2.size) bs e

theorem layout_append {xs ys : List (Nat × Tag)} {a e : Nat} :
    Layout a (xs ++ ys) e <->
      exists m, Layout a xs m ∧ Layout m ys e := by
  induction xs generalizing a with
  | nil =>
      constructor
      · intro h
        exact ⟨a, rfl, h⟩
      · intro h
        rcases h with ⟨m, hm, h⟩
        rw [show a = m from hm]
        exact h
  | cons b xs ih =>
      constructor
      · intro h
        rcases ih.mp h.right with ⟨m, hm, hys⟩
        exact ⟨m, ⟨h.left, hm⟩, hys⟩
      · intro h
        rcases h with ⟨m, hm, hys⟩
        exact ⟨hm.left, ih.mpr ⟨m, hm.right, hys⟩⟩

namespace Layout

variable {bs : List (Nat × Tag)} {a e : Nat}

theorem le (h : Layout a bs e) : a ≤ e := by
  induction bs generalizing a with
  | nil => exact Nat.le_of_eq h
  | cons b bs ih =>
      have hle := ih h.right
      unfold blockHdrSize at hle
      omega

theorem bounds (h : Layout a bs e) {b : Nat × Tag} (hb : b ∈ bs) :
    a ≤ b.1 ∧ b.1 + blockHdrSize + b.2.size ≤ e := by
  induction bs generalizing a with
  | nil => cases hb
  | cons c bs ih =>
      rcases List.mem_cons.mp hb with hb | hb
      · rw [hb, h.left]
        exact ⟨Nat.le_refl a, h.right.le⟩
      · have hbounds := ih h.right hb
        omega

theorem pairwise (h : Layout a bs e) :
    bs.Pairwise fun b c => b.1 + blockHdrSize + b.2.size ≤ c.1 := by
  induction bs generalizing a with
  | nil => exact List.Pairwise.nil
  | cons b bs ih =>
      rw [List.pairwise_cons]
      refine ⟨?_, ih h.right⟩
      intro c hc
      have hbounds := h.right.bounds hc
      rw [h.left]
      exact hbounds.left

/-- Two blocks are one and the same, or one ends before the other begins. -/
theorem eq_or_apart (h : Layout a bs e) {b c : Nat × Tag} (hb : b ∈ bs)
    (hc : c ∈ bs) :
    b = c ∨ b.1 + blockHdrSize + b.2.size ≤ c.1 ∨
      c.1 + blockHdrSize + c.2.size ≤ b.1 := by
  by_cases hbc : b = c
  · exact Or.inl hbc
  · have hsymm : Std.Symm fun b c : Nat × Tag =>
        b.1 + blockHdrSize + b.2.size ≤ c.1 ∨
          c.1 + blockHdrSize + c.2.size ≤ b.1 :=
      ⟨fun _ _ h => h.symm⟩
    have hpair : bs.Pairwise fun b c : Nat × Tag =>
        b.1 + blockHdrSize + b.2.size ≤ c.1 ∨
          c.1 + blockHdrSize + c.2.size ≤ b.1 := h.pairwise.imp Or.inl
    exact Or.inr (hpair.forall hb hc hbc)

theorem eq_of_addr (h : Layout a bs e) {b c : Nat × Tag} (hb : b ∈ bs)
    (hc : c ∈ bs) (haddr : b.1 = c.1) : b = c := by
  rcases h.eq_or_apart hb hc with heq | hapart
  · exact heq
  · unfold blockHdrSize at hapart
    omega

theorem apart_of_ne (h : Layout a bs e) {b c : Nat} {t u : Tag}
    (hb : (b, t) ∈ bs) (hc : (c, u) ∈ bs) (hne : b ≠ c) :
    b + blockHdrSize + t.size ≤ c ∨ c + blockHdrSize + u.size ≤ b := by
  rcases h.eq_or_apart hb hc with heq | hapart
  · exact absurd (congrArg Prod.fst heq) hne
  · exact hapart

theorem payload_apart (h : Layout a bs e) {b c : Nat} {t u : Tag}
    (hb : (b, t) ∈ bs) (hc : (c, u) ∈ bs) :
    c ≤ b ∨ b + blockHdrSize + t.size ≤ c := by
  rcases h.eq_or_apart hb hc with heq | hafter | hbefore
  · exact Or.inl (Nat.le_of_eq (congrArg Prod.fst heq).symm)
  · exact Or.inr hafter
  · rw [Nat.add_assoc] at hbefore
    exact Or.inl (Nat.le_trans (Nat.le_add_right _ _) hbefore)

/-- The block that ends where another begins comes directly before it. -/
theorem split_before {before after : List (Nat × Tag)} {b c : Nat × Tag}
    (h : Layout a (before ++ c :: after) e) (hb : b ∈ before ++ c :: after)
    (hend : b.1 + blockHdrSize + b.2.size = c.1) :
    exists front, before = front ++ [b] := by
  rcases List.eq_nil_or_concat before with hnil | ⟨front, d, hbefore⟩
  · rw [hnil, List.nil_append] at h hb
    have hbounds := h.bounds hb
    have hc := h.left
    unfold blockHdrSize at hend
    omega
  · refine ⟨front, ?_⟩
    have hd : d ∈ before ++ c :: after := by
      rw [hbefore]
      simp
    rw [List.concat_eq_append] at hbefore
    rw [hbefore, List.append_assoc, layout_append] at h
    rcases h with ⟨m, hfront, htail⟩
    have hdend : d.1 + blockHdrSize + d.2.size = c.1 := by
      rw [htail.right.left, htail.left]
    have hfull : Layout a (before ++ c :: after) e := by
      rw [hbefore, List.append_assoc, layout_append]
      exact ⟨m, hfront, htail⟩
    rcases hfull.eq_or_apart hb hd with heq | hapart | hapart
    · rw [heq]
      exact hbefore
    · unfold blockHdrSize at *
      omega
    · unfold blockHdrSize at *
      omega

end Layout

def Lists (H : Nat -> Option Tag) (bs : List (Nat × Tag)) : Prop :=
  forall a t, H a = some t <-> (a, t) ∈ bs

namespace Lists

variable {H : Nat -> Option Tag} {before after : List (Nat × Tag)}

theorem known {bs : List (Nat × Tag)} (h : Lists H bs) {a : Nat} :
    H a ≠ none <-> exists t, (a, t) ∈ bs := by
  rw [Option.ne_none_iff_exists']
  exact exists_congr fun t => h a t

theorem replace {a : Nat} {t : Tag}
    (h : Lists H (before ++ (a, t) :: after))
    (hfresh : forall c u, (c, u) ∈ before ∨ (c, u) ∈ after -> c ≠ a)
    (o : Option Tag) :
    Lists (Function.update H a o)
      (before ++ (o.toList.map fun u => (a, u)) ++ after) := by
  intro c u
  have hold := h c u
  rw [Function.update_apply]
  simp only [List.mem_append, List.mem_cons, List.mem_map, Option.mem_toList,
    Prod.mk.injEq] at hold ⊢
  by_cases hca : c = a
  · rw [if_pos hca]
    constructor
    · intro ho
      exact Or.inl (Or.inr ⟨u, ho, hca.symm, rfl⟩)
    · intro hmem
      rcases hmem with (hmem | ⟨v, hv, _, hvu⟩) | hmem
      · exact absurd hca (hfresh c u (Or.inl hmem))
      · rw [← hvu]
        exact hv
      · exact absurd hca (hfresh c u (Or.inr hmem))
  · rw [if_neg hca, hold]
    constructor
    · intro hmem
      rcases hmem with hmem | ⟨hac, _⟩ | hmem
      · exact Or.inl (Or.inl hmem)
      · exact absurd hac hca
      · exact Or.inr hmem
    · intro hmem
      rcases hmem with (hmem | ⟨v, _, hac, _⟩) | hmem
      · exact Or.inl hmem
      · exact absurd hac.symm hca
      · exact Or.inr (Or.inr hmem)

theorem insert {a : Nat} (h : Lists H (before ++ after)) (ha : H a = none)
    (t : Tag) :
    Lists (Function.update H a (some t)) (before ++ (a, t) :: after) := by
  intro c u
  have hold := h c u
  rw [Function.update_apply]
  simp only [List.mem_append, List.mem_cons, Prod.mk.injEq] at hold ⊢
  by_cases hca : c = a
  · rw [hca, ha] at hold
    rw [if_pos hca, Option.some.injEq, hca]
    constructor
    · intro htu
      exact Or.inr (Or.inl ⟨rfl, htu.symm⟩)
    · intro hmem
      rcases hmem with hmem | ⟨_, hut⟩ | hmem
      · exact absurd (hold.mpr (Or.inl hmem)) (by simp)
      · exact hut.symm
      · exact absurd (hold.mpr (Or.inr hmem)) (by simp)
  · rw [if_neg hca, hold]
    constructor
    · intro hmem
      rcases hmem with hmem | hmem
      · exact Or.inl hmem
      · exact Or.inr (Or.inr hmem)
    · intro hmem
      rcases hmem with hmem | ⟨hac, _⟩ | hmem
      · exact Or.inl hmem
      · exact absurd hac hca
      · exact Or.inr hmem

end Lists

end Mm
end EarlnuxOS
