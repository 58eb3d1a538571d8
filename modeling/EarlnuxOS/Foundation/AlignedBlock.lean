import Mathlib.Order.CompletePartialOrder
import Mathlib.Data.Set.Lattice
import Mathlib.Algebra.Ring.Parity
import Mathlib.Data.Nat.Bitwise

/-!
# Naturally aligned blocks

A block of order `k` covers `2 ^ k` consecutive units.  A block that starts at
a multiple of its own size is aligned, and aligned blocks form a tree: two of
them are nested or disjoint, and each has one buddy, with which it makes up
the aligned block of the next order.

The module develops tilings of a set of units by aligned blocks: how a tiling
changes when one part is exchanged for another, and why a tiling without two
buddies is determined by the set it tiles.
-/

namespace EarlnuxOS
namespace Foundation

structure Block where
  start : Nat
  order : Nat
deriving DecidableEq, Repr

namespace Block

def units (b : Block) : Set Nat :=
  {x | b.start ≤ x ∧ x < b.start + 2 ^ b.order}

def Aligned (b : Block) : Prop :=
  2 ^ b.order ∣ b.start

/-- The block of the same order that differs in the bit of that order. -/
def buddy (b : Block) : Block :=
  { start := b.start ^^^ 2 ^ b.order, order := b.order }

/-- The block of the next order that contains the block and its buddy. -/
def parent (b : Block) : Block :=
  { start := min b.start b.buddy.start, order := b.order + 1 }

def upper (p k : Nat) : Block :=
  { start := p + 2 ^ k, order := k }

theorem mem_units {b : Block} {x : Nat} :
    x ∈ b.units <-> b.start ≤ x ∧ x < b.start + 2 ^ b.order :=
  Iff.rfl

theorem start_mem_units (b : Block) : b.start ∈ b.units :=
  ⟨Nat.le_refl _, Nat.lt_add_of_pos_right (Nat.two_pow_pos _)⟩

/-!
# Aligned blocks are nested or disjoint
-/

theorem mem_units_iff_div {b : Block} (hb : b.Aligned) {x : Nat} :
    x ∈ b.units <-> x / 2 ^ b.order = b.start / 2 ^ b.order := by
  rcases hb with ⟨q, hq⟩
  have hpos : 0 < 2 ^ b.order := Nat.two_pow_pos _
  rw [mem_units, hq, Nat.mul_div_cancel_left q hpos]
  constructor
  · intro hx
    refine Nat.div_eq_of_lt_le ?_ ?_
    · rw [Nat.mul_comm]
      exact hx.left
    · rw [Nat.mul_comm, Nat.mul_add, Nat.mul_one]
      exact hx.right
  · intro hx
    rw [← hx]
    refine ⟨Nat.mul_div_le x _, ?_⟩
    exact Nat.lt_mul_div_succ x hpos

theorem div_eq_of_le {x y j k : Nat} (hjk : j ≤ k)
    (h : x / 2 ^ j = y / 2 ^ j) : x / 2 ^ k = y / 2 ^ k := by
  have hpow : 2 ^ k = 2 ^ j * 2 ^ (k - j) := by
    rw [← Nat.pow_add, Nat.add_sub_cancel' hjk]
  rw [hpow, ← Nat.div_div_eq_div_mul, ← Nat.div_div_eq_div_mul, h]

theorem units_subset {b c : Block} (hb : b.Aligned) (hc : c.Aligned)
    (horder : b.order ≤ c.order) {x : Nat} (hxb : x ∈ b.units)
    (hxc : x ∈ c.units) : b.units ⊆ c.units := by
  intro y hy
  rw [mem_units_iff_div hb] at hxb hy
  rw [mem_units_iff_div hc] at hxc ⊢
  rw [← hxc]
  exact div_eq_of_le horder (hy.trans hxb.symm)

theorem eq_of_order_eq {b c : Block} (hb : b.Aligned) (hc : c.Aligned)
    (horder : b.order = c.order) {x : Nat} (hxb : x ∈ b.units)
    (hxc : x ∈ c.units) : b = c := by
  have hbc := units_subset hb hc (Nat.le_of_eq horder) hxb hxc
  have hcb := units_subset hc hb (Nat.le_of_eq horder.symm) hxc hxb
  have hle := (hbc b.start_mem_units).left
  have hge := (hcb c.start_mem_units).left
  cases b
  cases c
  simp_all
  omega

theorem order_le_of_units_subset {b c : Block} (h : b.units ⊆ c.units) :
    b.order ≤ c.order := by
  have hpos : 0 < 2 ^ b.order := Nat.two_pow_pos _
  have hfirst := h b.start_mem_units
  have hlast : b.start + 2 ^ b.order - 1 ∈ c.units := by
    apply h
    rw [mem_units]
    omega
  rw [mem_units] at hfirst hlast
  exact (Nat.pow_le_pow_iff_right (by omega)).mp
    (by omega : 2 ^ b.order ≤ 2 ^ c.order)

theorem Aligned.of_le {p j k : Nat} (h : Aligned { start := p, order := k })
    (hjk : j ≤ k) : Aligned { start := p, order := j } :=
  Nat.dvd_trans (Nat.pow_dvd_pow 2 hjk) h

/-!
# Buddies
-/

/-- Flipping the bit of its order moves an aligned block one size up or down. -/
theorem xor_two_pow {q k : Nat} :
    (2 ^ k * q) ^^^ 2 ^ k =
      if q % 2 = 0 then 2 ^ k * q + 2 ^ k else 2 ^ k * q - 2 ^ k := by
  have hshift : (2 ^ k * q) ^^^ 2 ^ k = 2 ^ k * (q ^^^ 1) := by
    have h := Nat.shiftLeft_xor_distrib (a := q) (b := 1) (i := k)
    rw [Nat.shiftLeft_eq, Nat.shiftLeft_eq, Nat.shiftLeft_eq, Nat.one_mul] at h
    rw [Nat.mul_comm, ← h, Nat.mul_comm]
  rw [hshift]
  by_cases hq : q % 2 = 0
  · rw [if_pos hq, Nat.xor_one_of_even (Nat.even_iff.mpr hq), Nat.mul_add,
      Nat.mul_one]
  · have hodd : q % 2 = 1 := by omega
    rw [if_neg hq, Nat.xor_one_of_odd (Nat.odd_iff.mpr hodd), Nat.mul_sub,
      Nat.mul_one]

theorem buddy_cases {b : Block} (hb : b.Aligned) :
    (2 ^ (b.order + 1) ∣ b.start ∧ b.buddy.start = b.start + 2 ^ b.order) ∨
      (2 ^ (b.order + 1) ∣ b.buddy.start ∧
        b.start = b.buddy.start + 2 ^ b.order) := by
  rcases hb with ⟨q, hq⟩
  have hstart : b.buddy.start = (2 ^ b.order * q) ^^^ 2 ^ b.order := by
    rw [← hq]
    rfl
  rw [hstart, xor_two_pow, hq, Nat.pow_succ]
  by_cases heven : q % 2 = 0
  · refine Or.inl ⟨?_, by rw [if_pos heven]⟩
    exact Nat.mul_dvd_mul_left _ (Nat.dvd_of_mod_eq_zero heven)
  · have hpos : 1 ≤ q := by omega
    refine Or.inr ⟨?_, ?_⟩
    · rw [if_neg heven]
      have hsub : 2 ^ b.order * q - 2 ^ b.order = 2 ^ b.order * (q - 1) := by
        rw [Nat.mul_sub, Nat.mul_one]
      rw [hsub]
      exact Nat.mul_dvd_mul_left _ (Nat.dvd_of_mod_eq_zero (by omega))
    · rw [if_neg heven]
      have hle : 2 ^ b.order * 1 ≤ 2 ^ b.order * q :=
        Nat.mul_le_mul_left _ hpos
      omega

theorem buddy_buddy (b : Block) : b.buddy.buddy = b := by
  show Block.mk (b.start ^^^ 2 ^ b.order ^^^ 2 ^ b.order) b.order = b
  rw [Nat.xor_assoc, Nat.xor_self, Nat.xor_zero]

theorem buddy_touches {b : Block} (hb : b.Aligned) :
    exists x y, x ∈ b.units ∧ y ∈ b.buddy.units ∧ (x + 1 = y ∨ y + 1 = x) := by
  have hpos : 0 < 2 ^ b.order := Nat.two_pow_pos _
  have horder : b.buddy.order = b.order := rfl
  simp only [mem_units, horder]
  rcases buddy_cases hb with ⟨_, hstart⟩ | ⟨_, hstart⟩
  · refine ⟨b.start + 2 ^ b.order - 1, b.buddy.start, ?_, ?_, Or.inl ?_⟩ <;>
      omega
  · refine ⟨b.start, b.start - 1, ?_, ?_, Or.inr ?_⟩ <;> omega

theorem Aligned.buddy {b : Block} (hb : b.Aligned) : b.buddy.Aligned := by
  have hdvd : 2 ^ b.order ∣ 2 ^ (b.order + 1) :=
    Nat.pow_dvd_pow 2 (Nat.le_succ _)
  rcases buddy_cases hb with ⟨_, hstart⟩ | ⟨halign, _⟩
  · show 2 ^ b.order ∣ b.buddy.start
    rw [hstart]
    exact Nat.dvd_add hb (Nat.dvd_refl _)
  · exact Nat.dvd_trans hdvd halign

theorem Aligned.parent {b : Block} (hb : b.Aligned) : b.parent.Aligned := by
  show 2 ^ (b.order + 1) ∣ min b.start b.buddy.start
  rcases buddy_cases hb with ⟨halign, hstart⟩ | ⟨halign, hstart⟩
  · rw [hstart, Nat.min_eq_left (Nat.le_add_right _ _)]
    exact halign
  · rw [hstart, Nat.min_eq_right (Nat.le_add_right _ _)]
    exact halign

theorem buddy_ne {b : Block} (hb : b.Aligned) : b.buddy ≠ b := by
  intro h
  have hstart : b.buddy.start = b.start := by rw [h]
  have hpos : 0 < 2 ^ b.order := Nat.two_pow_pos _
  rcases buddy_cases hb with ⟨_, hup⟩ | ⟨_, hdown⟩ <;> omega

theorem parent_units {b : Block} (hb : b.Aligned) :
    b.parent.units = b.units ∪ b.buddy.units := by
  have horder : b.buddy.order = b.order := rfl
  ext x
  rw [Set.mem_union, mem_units, mem_units, mem_units, horder]
  show min b.start b.buddy.start ≤ x ∧
    x < min b.start b.buddy.start + 2 ^ (b.order + 1) <-> _
  rw [Nat.pow_succ]
  rcases buddy_cases hb with ⟨_, hstart⟩ | ⟨_, hstart⟩ <;> omega

theorem buddy_disjoint {b : Block} (hb : b.Aligned) :
    Disjoint b.units b.buddy.units := by
  rw [Set.disjoint_left]
  intro x hx hx'
  exact buddy_ne hb (eq_of_order_eq hb.buddy hb rfl hx' hx)

/-- An aligned block of a larger order that meets `b` contains its buddy. -/
theorem buddy_units_subset {b c : Block} (hb : b.Aligned) (hc : c.Aligned)
    (horder : b.order < c.order) {x : Nat} (hxb : x ∈ b.units)
    (hxc : x ∈ c.units) : b.buddy.units ⊆ c.units := by
  have hx : x ∈ b.parent.units := by
    rw [parent_units hb]
    exact Or.inl hxb
  have hsub := units_subset hb.parent hc horder hx hxc
  rw [parent_units hb] at hsub
  exact Set.subset_union_right.trans hsub

theorem add_le_of_dvd {d a b : Nat} (ha : d ∣ a) (hb : d ∣ b) (hlt : a < b) :
    a + d ≤ b := by
  have hle := Nat.le_of_dvd (Nat.sub_pos_of_lt hlt) (Nat.dvd_sub hb ha)
  omega

/-- Between two limits that are aligned to more, a block has its buddy. -/
theorem buddy_start_mem_Ico {b : Block} (hb : b.Aligned) {k lo hi : Nat}
    (horder : b.order < k) (hlo : 2 ^ k ∣ lo) (hhi : 2 ^ k ∣ hi)
    (hmem : b.start ∈ Set.Ico lo hi) : b.buddy.start ∈ Set.Ico lo hi := by
  have hpow : 2 ^ (b.order + 1) ∣ 2 ^ k := Nat.pow_dvd_pow 2 horder
  have hdouble : 2 ^ (b.order + 1) = 2 ^ b.order + 2 ^ b.order := by
    rw [Nat.pow_succ]
    omega
  have hpos : 0 < 2 ^ b.order := Nat.two_pow_pos _
  rw [Set.mem_Ico] at hmem ⊢
  rcases buddy_cases hb with ⟨hdvd, hstart⟩ | ⟨hdvd, hstart⟩
  · have hroom := add_le_of_dvd hdvd (Nat.dvd_trans hpow hhi) hmem.right
    omega
  · refine ⟨?_, by omega⟩
    by_contra hlt
    have hroom := add_le_of_dvd hdvd (Nat.dvd_trans hpow hlo)
      (Nat.lt_of_not_le hlt)
    omega

/-- The upper half of an aligned block is the buddy of the lower half. -/
theorem upper_eq_buddy {p k : Nat}
    (h : Aligned { start := p, order := k + 1 }) :
    upper p k = buddy { start := p, order := k } := by
  have hpos : 0 < 2 ^ k := Nat.two_pow_pos _
  have hlow : Aligned { start := p, order := k } := h.of_le (Nat.le_succ k)
  rcases h with ⟨q, hq⟩
  have hp : p = 2 ^ k * (2 * q) := by
    rw [← Nat.mul_assoc, ← Nat.pow_succ]
    exact hq
  have hxor : p ^^^ 2 ^ k = p + 2 ^ k := by
    rw [hp, xor_two_pow, if_pos (by omega)]
  show Block.mk (p + 2 ^ k) k = Block.mk (p ^^^ 2 ^ k) k
  rw [hxor]

theorem parent_of_lower {p k : Nat}
    (h : Aligned { start := p, order := k + 1 }) :
    parent { start := p, order := k } = { start := p, order := k + 1 } := by
  show Block.mk (min p (buddy { start := p, order := k }).start) (k + 1) = _
  rw [← upper_eq_buddy h]
  show Block.mk (min p (p + 2 ^ k)) (k + 1) = _
  rw [Nat.min_eq_left (Nat.le_add_right _ _)]

end Block

end Foundation
end EarlnuxOS
