import Mathlib.Order.CompletePartialOrder
import EarlnuxOS.Mm.Pmm.ZoneInvariant
import Mathlib.Order.Interval.Set.Basic

/-!
# Filling a zone

`buddy_free_range` cuts a range greedily: at each page it takes the largest
aligned block that still fits.  The cut tiles the range and leaves no two
buddies, and the function puts exactly its blocks on the free lists.
-/

namespace EarlnuxOS
namespace Mm

open Foundation

theorem low_bits_zero_iff (pfn order : Nat) :
    pfn &&& ((1 <<< order) - 1) = 0 <-> 2 ^ order ∣ pfn := by
  rw [Nat.one_shiftLeft, Nat.and_two_pow_sub_one_eq_mod]
  exact Nat.dvd_iff_mod_eq_zero.symm

theorem rangeOrder_le (pfn endPfn order : Nat) :
    rangeOrder pfn endPfn order ≤ order := by
  induction order with
  | zero => exact Nat.le_refl 0
  | succ order ih =>
      unfold rangeOrder
      split
      · exact Nat.le_refl _
      · exact Nat.le_succ_of_le ih

theorem rangeOrder_dvd (pfn endPfn order : Nat) :
    2 ^ rangeOrder pfn endPfn order ∣ pfn := by
  induction order with
  | zero => exact Nat.one_dvd pfn
  | succ order ih =>
      unfold rangeOrder
      split
      · rename_i hcond
        exact (low_bits_zero_iff pfn (order + 1)).mp hcond.left
      · exact ih

theorem rangeOrder_fits {pfn endPfn : Nat} (h : pfn < endPfn) (order : Nat) :
    pfn + 2 ^ rangeOrder pfn endPfn order ≤ endPfn := by
  induction order with
  | zero => exact h
  | succ order ih =>
      unfold rangeOrder
      split
      · rename_i hcond
        rw [Nat.one_shiftLeft] at hcond
        exact hcond.right
      · exact ih

theorem le_rangeOrder {pfn endPfn j order : Nat} (hj : j ≤ order)
    (hdvd : 2 ^ j ∣ pfn) (hfits : pfn + 2 ^ j ≤ endPfn) :
    j ≤ rangeOrder pfn endPfn order := by
  induction order with
  | zero => exact hj
  | succ order ih =>
      unfold rangeOrder
      split
      · exact hj
      · rename_i hcond
        apply ih
        have hne : j ≠ order + 1 := by
          intro heq
          apply hcond
          rw [low_bits_zero_iff, Nat.one_shiftLeft, ← heq]
          exact ⟨hdvd, hfits⟩
        omega

/-- The blocks `buddy_free_range` cuts a range into. -/
def rangeBlocks (pfn endPfn : Nat) : List Block :=
  if pfn < endPfn then
    let order := rangeOrder pfn endPfn pmmMaxOrder
    { start := pfn, order := order } ::
      rangeBlocks (pfn + (1 <<< order)) endPfn
  else
    []
termination_by endPfn - pfn
decreasing_by
  have hpos := one_shiftLeft_pos (rangeOrder pfn endPfn pmmMaxOrder)
  omega

theorem rangeBlocks_of_lt {pfn endPfn : Nat} (h : pfn < endPfn) :
    rangeBlocks pfn endPfn =
      { start := pfn, order := rangeOrder pfn endPfn pmmMaxOrder } ::
        rangeBlocks (pfn + 2 ^ rangeOrder pfn endPfn pmmMaxOrder) endPfn := by
  rw [rangeBlocks, if_pos h]
  simp only [Nat.one_shiftLeft]

theorem rangeBlocks_of_le {pfn endPfn : Nat} (h : endPfn ≤ pfn) :
    rangeBlocks pfn endPfn = [] := by
  rw [rangeBlocks, if_neg (Nat.not_lt_of_le h)]

theorem buddyFreeRange_of_lt (z : Zoned) {pfn endPfn : Nat}
    (h : pfn < endPfn) :
    buddyFreeRange z pfn endPfn =
      buddyFreeRange
        (z.pushFree pfn (rangeOrder pfn endPfn pmmMaxOrder))
        (pfn + 2 ^ rangeOrder pfn endPfn pmmMaxOrder) endPfn := by
  rw [buddyFreeRange, if_pos h]
  simp only [Nat.one_shiftLeft]

theorem buddyFreeRange_of_le (z : Zoned) {pfn endPfn : Nat}
    (h : endPfn ≤ pfn) : buddyFreeRange z pfn endPfn = z := by
  rw [buddyFreeRange, if_neg (Nat.not_lt_of_le h)]

theorem range_induction (endPfn : Nat) {motive : Nat -> Prop}
    (done : forall pfn, endPfn ≤ pfn -> motive pfn)
    (step : forall pfn, pfn < endPfn ->
      motive (pfn + 2 ^ rangeOrder pfn endPfn pmmMaxOrder) -> motive pfn)
    (pfn : Nat) : motive pfn := by
  by_cases h : pfn < endPfn
  · exact step pfn h (range_induction endPfn done step _)
  · exact done pfn (Nat.le_of_not_lt h)
termination_by endPfn - pfn
decreasing_by
  have hpos := Nat.two_pow_pos (rangeOrder pfn endPfn pmmMaxOrder)
  omega

theorem buddyFreeRange_endPfn (z : Zoned) (pfn endPfn : Nat) :
    (buddyFreeRange z pfn endPfn).zone.endPfn = z.zone.endPfn := by
  induction pfn using range_induction endPfn generalizing z with
  | done pfn h => rw [buddyFreeRange_of_le z h]
  | step pfn h ih => rw [buddyFreeRange_of_lt z h, ih, Zoned.pushFree_endPfn]

theorem mem_rangeBlocks {endPfn : Nat} {b : Block} (pfn : Nat)
    (hb : b ∈ rangeBlocks pfn endPfn) :
    pfn ≤ b.start ∧ b.start < endPfn ∧
      b.order = rangeOrder b.start endPfn pmmMaxOrder := by
  induction pfn using range_induction endPfn with
  | done pfn h =>
      rw [rangeBlocks_of_le h] at hb
      cases hb
  | step pfn h ih =>
      rw [rangeBlocks_of_lt h] at hb
      cases hb with
      | head => exact ⟨Nat.le_refl _, h, rfl⟩
      | tail _ hb =>
          rcases ih hb with ⟨hle, hlt, horder⟩
          exact ⟨Nat.le_trans (Nat.le_add_right _ _) hle, hlt, horder⟩

theorem rangeBlock_aligned {pfn endPfn : Nat} {b : Block}
    (hb : b ∈ rangeBlocks pfn endPfn) : b.Aligned := by
  unfold Block.Aligned
  rw [(mem_rangeBlocks pfn hb).right.right]
  exact rangeOrder_dvd _ _ _

theorem rangeBlock_order_le {pfn endPfn : Nat} {b : Block}
    (hb : b ∈ rangeBlocks pfn endPfn) : b.order ≤ pmmMaxOrder := by
  rw [(mem_rangeBlocks pfn hb).right.right]
  exact rangeOrder_le _ _ _

theorem rangeBlock_fits {pfn endPfn : Nat} {b : Block}
    (hb : b ∈ rangeBlocks pfn endPfn) :
    b.start + 2 ^ b.order ≤ endPfn := by
  rcases mem_rangeBlocks pfn hb with ⟨_, hlt, horder⟩
  rw [horder]
  exact rangeOrder_fits hlt _

theorem rangeBlock_units_subset {pfn endPfn : Nat} {b : Block}
    (hb : b ∈ rangeBlocks pfn endPfn) : b.units ⊆ Set.Ico pfn endPfn := by
  intro x hx
  have hfits := rangeBlock_fits hb
  have hle := (mem_rangeBlocks pfn hb).left
  exact ⟨Nat.le_trans hle hx.left, Nat.lt_of_lt_of_le hx.right hfits⟩

/-- The greedy cut leaves no two buddies: it would have taken them as one. -/
theorem rangeBlocks_noBuddies (pfn endPfn : Nat) :
    NoBuddies pmmMaxOrder {b | b ∈ rangeBlocks pfn endPfn} := by
  have hlower : forall b : Block, b ∈ rangeBlocks pfn endPfn ->
      b.buddy ∈ rangeBlocks pfn endPfn -> b.order < pmmMaxOrder ->
      2 ^ (b.order + 1) ∣ b.start ->
      b.buddy.start = b.start + 2 ^ b.order -> False := by
    intro b hb hbuddy hlt hdvd hstart
    have hfits := rangeBlock_fits hbuddy
    have hroom : b.start + 2 ^ (b.order + 1) ≤ endPfn := by
      have horder : b.buddy.order = b.order := rfl
      rw [hstart, horder] at hfits
      rw [Nat.pow_succ]
      omega
    have hmax := le_rangeOrder (Nat.succ_le_of_lt hlt) hdvd hroom
    rw [← (mem_rangeBlocks pfn hb).right.right] at hmax
    omega
  intro b hb hlt hbuddy
  have halign := rangeBlock_aligned hb
  rcases Block.buddy_cases halign with ⟨hdvd, hstart⟩ | ⟨hdvd, hstart⟩
  · exact hlower b hb hbuddy hlt hdvd hstart
  · have hback : b.buddy.buddy = b := by
      show Block.mk ((b.start ^^^ 2 ^ b.order) ^^^ 2 ^ b.order) b.order = b
      rw [Nat.xor_assoc, Nat.xor_self, Nat.xor_zero]
    apply hlower b.buddy hbuddy _ hlt hdvd
    · rw [hback]
      exact hstart
    · rw [hback]
      exact hb

theorem buddyFreeRange_isFree {z : Zoned} {endPfn x : Nat} (pfn : Nat)
    (hx : x ∉ Set.Ico pfn endPfn) :
    ((buddyFreeRange z pfn endPfn).page x).isFree = (z.page x).isFree := by
  induction pfn using range_induction endPfn generalizing z with
  | done pfn h => rw [buddyFreeRange_of_le z h]
  | step pfn h ih =>
      have hne : x ≠ pfn := by
        intro heq
        exact hx ⟨Nat.le_of_eq heq.symm, heq ▸ h⟩
      rw [buddyFreeRange_of_lt z h, ih, Zoned.pushFree_isFree, if_neg hne]
      intro hmem
      exact hx ⟨Nat.le_trans (Nat.le_add_right _ _) hmem.left, hmem.right⟩

namespace ZoneInv

variable {totalPageFrames : Nat} {owned : Set Nat}
  {lists : Nat -> List Nat} {out : Set Block} {z : Zoned}

/-- Adding a range of new pages puts exactly its greedy cut on the lists. -/
theorem freeRange {endPfn : Nat} (pfn : Nat)
    (h : ZoneInv totalPageFrames owned lists out z)
    (hnew : Disjoint owned (Set.Ico pfn endPfn))
    (hvalid : forall x, x ∈ Set.Ico pfn endPfn ->
      x < totalPageFrames ∧ x < pageArraySize) :
    exists lists', ZoneInv totalPageFrames (owned ∪ Set.Ico pfn endPfn) lists'
        out (buddyFreeRange z pfn endPfn) ∧
      onLists lists' = onLists lists ∪ {b | b ∈ rangeBlocks pfn endPfn} := by
  induction pfn using range_induction endPfn
    generalizing z owned lists with
  | done pfn hle =>
      refine ⟨lists, ?_, ?_⟩
      · rw [Set.Ico_eq_empty_of_le hle, Set.union_empty,
          buddyFreeRange_of_le z hle]
        exact h
      · rw [rangeBlocks_of_le hle]
        simp
  | step pfn hlt ih =>
      let b : Block :=
        { start := pfn, order := rangeOrder pfn endPfn pmmMaxOrder }
      have hmem : b ∈ rangeBlocks pfn endPfn := by
        rw [rangeBlocks_of_lt hlt]
        exact List.mem_cons_self
      have hsub := rangeBlock_units_subset hmem
      have hadopt := h.adopt (rangeBlock_aligned hmem)
        (rangeBlock_order_le hmem) (hnew.mono_right hsub)
        (fun x hx => hvalid x (hsub hx))
      have hbout : b ∉ out := by
        intro hb
        exact Set.disjoint_left.mp hnew
          (h.tiles.units_subset (Or.inr hb) b.start_mem_units)
          (hsub b.start_mem_units)
      have hpush := hadopt.push (Set.mem_insert b out)
      rw [Set.insert_sdiff_self_of_notMem hbout] at hpush
      have hrest : Set.Ico pfn endPfn =
          b.units ∪ Set.Ico (pfn + 2 ^ b.order) endPfn := by
        have hfits : pfn + 2 ^ b.order ≤ endPfn := rangeBlock_fits hmem
        have hpos : 0 < 2 ^ b.order := Nat.two_pow_pos _
        ext x
        simp only [Set.mem_Ico, Set.mem_union, Block.mem_units]
        show pfn ≤ x ∧ x < endPfn <->
          (pfn ≤ x ∧ x < pfn + 2 ^ b.order) ∨
            (pfn + 2 ^ b.order ≤ x ∧ x < endPfn)
        omega
      have hnext : Disjoint (owned ∪ b.units)
          (Set.Ico (pfn + 2 ^ b.order) endPfn) := by
        rw [Set.disjoint_union_left]
        constructor
        · apply hnew.mono_right
          rw [hrest]
          exact Set.subset_union_right
        · rw [Set.disjoint_left]
          intro x hx hx'
          exact Nat.lt_irrefl x (Nat.lt_of_lt_of_le hx.right hx'.left)
      rcases ih hpush hnext (fun x hx => hvalid x (by
        rw [hrest]
        exact Or.inr hx)) with ⟨lists', hinv, hlists⟩
      refine ⟨lists', ?_, ?_⟩
      · rw [buddyFreeRange_of_lt z hlt, hrest, ← Set.union_assoc]
        exact hinv
      · rw [hlists, onLists_push lists b (rangeBlock_order_le hmem),
          rangeBlocks_of_lt hlt]
        ext c
        simp only [Set.mem_union, Set.mem_insert_iff, Set.mem_ofPred_eq,
          List.mem_cons]
        tauto

end ZoneInv

end Mm
end EarlnuxOS
