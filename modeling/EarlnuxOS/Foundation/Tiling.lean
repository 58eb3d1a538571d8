import Mathlib.Data.Nat.Find
import EarlnuxOS.Foundation.AlignedBlock

/-!
# Tilings by aligned blocks

A set of aligned blocks tiles a set of units when its blocks are disjoint and
together cover exactly that set.  An allocator that splits and merges blocks
exchanges one part of a tiling for another; a tiling in which no two blocks
are buddies is the coarsest one, and is determined by what it covers.
-/

namespace EarlnuxOS
namespace Foundation

open Block

structure Tiles (B : Set Block) (P : Set Nat) : Prop where
  aligned : forall b, b ∈ B -> b.Aligned
  disjoint : forall b c, b ∈ B -> c ∈ B ->
    forall x, x ∈ b.units -> x ∈ c.units -> b = c
  cover : forall x, x ∈ P <-> exists b, b ∈ B ∧ x ∈ b.units

namespace Tiles

theorem empty : Tiles ∅ ∅ where
  aligned := by
    intro b hb
    cases hb
  disjoint := by
    intro b c hb
    cases hb
  cover := by
    intro x
    simp

theorem singleton {b : Block} (hb : b.Aligned) : Tiles {b} b.units where
  aligned := by
    intro c hc
    rw [Set.mem_singleton_iff.mp hc]
    exact hb
  disjoint := by
    intro c d hc hd _ _ _
    rw [Set.mem_singleton_iff.mp hc, Set.mem_singleton_iff.mp hd]
  cover := by
    intro x
    simp

theorem units_subset {B : Set Block} {P : Set Nat} (h : Tiles B P)
    {b : Block} (hb : b ∈ B) : b.units ⊆ P := by
  intro x hx
  exact (h.cover x).mpr ⟨b, hb, hx⟩

theorem union {B C : Set Block} {P Q : Set Nat} (hB : Tiles B P)
    (hC : Tiles C Q) (hapart : Disjoint P Q) : Tiles (B ∪ C) (P ∪ Q) where
  aligned := by
    intro b hb
    rcases hb with hb | hb
    · exact hB.aligned b hb
    · exact hC.aligned b hb
  disjoint := by
    intro b c hb hc x hxb hxc
    rw [Set.disjoint_left] at hapart
    rcases hb with hb | hb <;> rcases hc with hc | hc
    · exact hB.disjoint b c hb hc x hxb hxc
    · exact absurd (hC.units_subset hc hxc) (hapart (hB.units_subset hb hxb))
    · exact absurd (hC.units_subset hb hxb) (hapart (hB.units_subset hc hxc))
    · exact hC.disjoint b c hb hc x hxb hxc
  cover := by
    intro x
    rw [Set.mem_union, hB.cover x, hC.cover x]
    constructor
    · rintro (⟨b, hb, hx⟩ | ⟨b, hb, hx⟩)
      · exact ⟨b, Or.inl hb, hx⟩
      · exact ⟨b, Or.inr hb, hx⟩
    · rintro ⟨b, hb | hb, hx⟩
      · exact Or.inl ⟨b, hb, hx⟩
      · exact Or.inr ⟨b, hb, hx⟩

theorem subset {B C : Set Block} {P : Set Nat} (h : Tiles B P) (hC : C ⊆ B) :
    Tiles C {x | exists b, b ∈ C ∧ x ∈ b.units} where
  aligned := fun b hb => h.aligned b (hC hb)
  disjoint := fun b c hb hc => h.disjoint b c (hC hb) (hC hc)
  cover := fun _ => Iff.rfl

theorem diff {B C : Set Block} {P Q : Set Nat} (hB : Tiles B P)
    (hC : Tiles C Q) (hsub : C ⊆ B) : Tiles (B \ C) (P \ Q) where
  aligned := fun b hb => hB.aligned b hb.left
  disjoint := fun b c hb hc => hB.disjoint b c hb.left hc.left
  cover := by
    intro x
    constructor
    · rintro ⟨hxP, hxQ⟩
      rcases (hB.cover x).mp hxP with ⟨b, hb, hx⟩
      refine ⟨b, ⟨hb, ?_⟩, hx⟩
      intro hbC
      exact hxQ (hC.units_subset hbC hx)
    · rintro ⟨b, ⟨hb, hbC⟩, hx⟩
      refine ⟨hB.units_subset hb hx, ?_⟩
      intro hxQ
      rcases (hC.cover x).mp hxQ with ⟨c, hc, hxc⟩
      have hbc := hB.disjoint b c hb (hsub hc) x hx hxc
      rw [hbc] at hbC
      exact hbC hc

/-- One part of a tiling may be exchanged for another tiling of the same units. -/
theorem exchange {B C C' : Set Block} {P Q : Set Nat} (hB : Tiles B P)
    (hC : Tiles C Q) (hC' : Tiles C' Q) (hsub : C ⊆ B) :
    Tiles ((B \ C) ∪ C') P := by
  have hQ : Q ⊆ P := by
    intro x hx
    rcases (hC.cover x).mp hx with ⟨c, hc, hxc⟩
    exact hB.units_subset (hsub hc) hxc
  have h := (hB.diff hC hsub).union hC' Set.disjoint_sdiff_left
  rwa [Set.sdiff_union_of_subset hQ] at h

/-- An aligned block is tiled by the two blocks of the next order down. -/
theorem pair {b : Block} (hb : b.Aligned) :
    Tiles {b, b.buddy} b.parent.units := by
  have h := (singleton hb).union (singleton hb.buddy) (buddy_disjoint hb)
  rwa [← parent_units hb] at h

/--
A block of the tiling that holds the first unit of an aligned block `c` of the
same or a larger order starts there too.
-/
theorem start_eq {B : Set Block} {P : Set Nat} (h : Tiles B P) {b c : Block}
    (hb : b ∈ B) (hc : c.Aligned) (horder : b.order ≤ c.order)
    (hstart : c.start ∈ b.units) : b.start = c.start := by
  have halign := h.aligned b hb
  rw [mem_units_iff_div halign] at hstart
  have hdvd : 2 ^ b.order ∣ c.start :=
    Nat.dvd_trans (Nat.pow_dvd_pow 2 horder) hc
  rw [← Nat.div_mul_cancel hdvd, hstart, Nat.div_mul_cancel halign]

/-- Only the block itself or a smaller one can start inside an aligned block. -/
theorem eq_of_start {B : Set Block} {P : Set Nat} (h : Tiles B P)
    {b c : Block} (hb : b ∈ B) (hc : c ∈ B) (hstart : b.start = c.start) :
    b = c := by
  refine h.disjoint b c hb hc b.start b.start_mem_units ?_
  rw [hstart]
  exact c.start_mem_units

end Tiles

/-!
# Tilings without buddies
-/

/-- No block below the largest order has its buddy in the set. -/
def NoBuddies (maxOrder : Nat) (B : Set Block) : Prop :=
  forall b, b ∈ B -> b.order < maxOrder -> b.buddy ∉ B

/--
Where the units of an aligned block are all covered and no two covering blocks
are buddies, one block covers them all.
-/
theorem exists_covering_block {maxOrder : Nat} {B : Set Block} {P : Set Nat}
    (hB : Tiles B P) (hno : NoBuddies maxOrder B) {c : Block}
    (hc : c.Aligned) (horder : c.order ≤ maxOrder) (hsub : c.units ⊆ P) :
    exists b, b ∈ B ∧ c.units ⊆ b.units := by
  by_contra hnone
  -- Every block that meets `c` is strictly smaller, hence inside `c`.
  have hsmall : forall b, b ∈ B -> forall x, x ∈ b.units -> x ∈ c.units ->
      b.order < c.order := by
    intro b hb x hxb hxc
    by_contra hge
    exact hnone ⟨b, hb,
      Block.units_subset hc (hB.aligned b hb) (by omega) hxc hxb⟩
  let Inside : Nat -> Prop := fun k =>
    exists b, b ∈ B ∧ b.order = k ∧ exists x, x ∈ b.units ∧ x ∈ c.units
  have hsome : exists k, Inside k := by
    rcases (hB.cover c.start).mp (hsub c.start_mem_units) with ⟨b, hb, hx⟩
    exact ⟨b.order, b, hb, rfl, c.start, hx, c.start_mem_units⟩
  classical
  rcases Nat.find_spec hsome with ⟨b, hb, hbk, x, hxb, hxc⟩
  have hbalign := hB.aligned b hb
  have hbc := hsmall b hb x hxb hxc
  have hbuddySub := buddy_units_subset hbalign hc hbc hxb hxc
  have hstartc := hbuddySub b.buddy.start_mem_units
  rcases (hB.cover b.buddy.start).mp (hsub hstartc) with ⟨d, hd, hxd⟩
  have hdalign := hB.aligned d hd
  have hdmin : b.order ≤ d.order := by
    rw [hbk]
    exact Nat.find_min' hsome ⟨d, hd, rfl, b.buddy.start, hxd, hstartc⟩
  -- A larger block over the buddy would cover `b` as well.
  have hdmax : d.order ≤ b.order := by
    by_contra hlt
    have hparent : b.buddy.start ∈ b.parent.units := by
      rw [parent_units hbalign]
      exact Or.inr b.buddy.start_mem_units
    have hsubd := Block.units_subset hbalign.parent hdalign
      (by show b.order + 1 ≤ d.order; omega) hparent hxd
    have hbd : b = d := by
      refine hB.disjoint b d hb hd b.start b.start_mem_units ?_
      apply hsubd
      rw [parent_units hbalign]
      exact Or.inl b.start_mem_units
    rw [hbd] at hlt
    omega
  have hdb : d = b.buddy :=
    eq_of_order_eq hdalign hbalign.buddy (Nat.le_antisymm hdmax hdmin) hxd
      b.buddy.start_mem_units
  rw [hdb] at hd
  exact hno b hb (by omega) hd

theorem tiling_unique {maxOrder : Nat} {B C : Set Block} {P : Set Nat}
    (hB : Tiles B P) (hC : Tiles C P)
    (hBno : NoBuddies maxOrder B) (hCno : NoBuddies maxOrder C)
    (hBmax : forall b, b ∈ B -> b.order ≤ maxOrder)
    (hCmax : forall c, c ∈ C -> c.order ≤ maxOrder) : B = C := by
  have hsubset : forall {D E : Set Block}, Tiles D P -> Tiles E P ->
      NoBuddies maxOrder D -> NoBuddies maxOrder E ->
      (forall b, b ∈ D -> b.order ≤ maxOrder) ->
      (forall b, b ∈ E -> b.order ≤ maxOrder) -> D ⊆ E := by
    intro D E hD hE hDno hEno hDmax hEmax b hb
    rcases exists_covering_block hE hEno (hD.aligned b hb) (hDmax b hb)
      (hD.units_subset hb) with ⟨c, hc, hbc⟩
    rcases exists_covering_block hD hDno (hE.aligned c hc) (hEmax c hc)
      (hE.units_subset hc) with ⟨d, hd, hcd⟩
    have hbd : b = d :=
      hD.disjoint b d hb hd b.start b.start_mem_units
        (hcd (hbc b.start_mem_units))
    rw [← hbd] at hcd
    have horder : b.order = c.order :=
      Nat.le_antisymm (order_le_of_units_subset hbc)
        (order_le_of_units_subset hcd)
    rw [eq_of_order_eq (hD.aligned b hb) (hE.aligned c hc) horder
      b.start_mem_units (hbc b.start_mem_units)]
    exact hc
  exact Set.Subset.antisymm (hsubset hB hC hBno hCno hBmax hCmax)
    (hsubset hC hB hCno hBno hCmax hBmax)

end Foundation
end EarlnuxOS
