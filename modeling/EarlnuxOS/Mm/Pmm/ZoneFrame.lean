import EarlnuxOS.Mm.Pmm.FreeSpec
import EarlnuxOS.Mm.Pmm.ZoneFilling

/-!
# What the buddy functions leave alone

A function that works on one zone changes no descriptor of a page that the
zone does not own, and none of them changes the limits of a zone.
-/

namespace EarlnuxOS
namespace Mm

open Foundation

/-!
# Limits
-/

def Zoned.limits (z : Zoned) : Nat × Nat :=
  (z.zone.basePfn, z.zone.endPfn)

namespace Zoned

@[simp] theorem limits_modify (z : Zoned) (pfn : Nat) (f : Page -> Page) :
    (z.modify pfn f).limits = z.limits := rfl

@[simp] theorem limits_touch (z : Zoned) (pfn : Nat) :
    (z.touch pfn).limits = z.limits := rfl

@[simp] theorem limits_setFreeList (z : Zoned) (order : Nat)
    (head : Option Nat) : (z.setFreeList order head).limits = z.limits := rfl

@[simp] theorem limits_countUp (z : Zoned) (order : Nat) :
    (z.countUp order).limits = z.limits := rfl

@[simp] theorem limits_countDown (z : Zoned) (order : Nat) :
    (z.countDown order).limits = z.limits := rfl

@[simp] theorem limits_setPrev (z : Zoned) (p back : Option Nat) :
    (z.setPrev p back).limits = z.limits := by
  cases p <;> rfl

@[simp] theorem limits_pushFree (z : Zoned) (pfn order : Nat) :
    (z.pushFree pfn order).limits = z.limits := by
  unfold pushFree
  simp only [limits_countUp, limits_setFreeList, limits_setPrev, limits_modify]

@[simp] theorem limits_popFree (z : Zoned) (pfn order : Nat) :
    (z.popFree pfn order).limits = z.limits := by
  unfold popFree
  simp only [limits_countDown, limits_setPrev, limits_setFreeList,
    limits_touch]

@[simp] theorem limits_unlinkFree (z : Zoned) (pfn order : Nat) :
    (z.unlinkFree pfn order).limits = z.limits := by
  unfold unlinkFree
  cases hprev : (z.page pfn).prev with
  | none =>
      simp only [hprev, limits_countDown, limits_setPrev, limits_setFreeList]
  | some q => simp only [hprev, limits_countDown, limits_setPrev, limits_modify]

end Zoned

theorem buddyFreeRange_limits (z : Zoned) (pfn endPfn : Nat) :
    (buddyFreeRange z pfn endPfn).limits = z.limits := by
  induction pfn using range_induction endPfn generalizing z with
  | done pfn hle => rw [buddyFreeRange_of_le z hle]
  | step pfn hlt ih => rw [buddyFreeRange_of_lt z hlt, ih, Zoned.limits_pushFree]

theorem splitDown_limits (totalPageFrames p order : Nat) (z : Zoned)
    (found : Nat) :
    (splitDown totalPageFrames p order z found).limits = z.limits := by
  induction found generalizing z with
  | zero => rfl
  | succ found ih =>
      unfold splitDown
      split
      · simp only
        rw [ih]
        split
        · exact Zoned.limits_pushFree z _ _
        · rfl
      · rfl

theorem buddyAlloc_limits (totalPageFrames : Nat) (z : Zoned) (order : Nat) :
    (buddyAlloc totalPageFrames z order).2.limits = z.limits := by
  unfold buddyAlloc
  simp only
  split
  · rfl
  · split
    · rfl
    · unfold handOut
      rw [Zoned.limits_modify, splitDown_limits, Zoned.limits_popFree]

theorem mergeUp_limits (totalPageFrames : Nat) (z : Zoned) (pfn order : Nat) :
    (mergeUp totalPageFrames z pfn order).2.2.limits = z.limits := by
  induction hsteps : pmmMaxOrder - order generalizing z pfn order with
  | zero => rw [mergeUp, if_neg (by omega)]
  | succ n ih =>
      rw [mergeUp, if_pos (by omega)]
      by_cases hvalid : buddyPfn pfn order < totalPageFrames
      · simp only [if_pos hvalid]
        split
        · exact Zoned.limits_touch z _
        · rw [ih _ _ _ (by omega), Zoned.limits_modify,
            Zoned.limits_unlinkFree, Zoned.limits_touch]
      · simp only [if_neg hvalid]

theorem buddyFree_limits (totalPageFrames : Nat) (z : Zoned)
    (phys order : Nat) :
    (buddyFree totalPageFrames z phys order).limits = z.limits := by
  unfold buddyFree
  simp only
  split
  · rw [Zoned.limits_pushFree, mergeUp_limits, Zoned.limits_modify]
  · rfl

/-!
# Pages of other zones
-/

namespace ZoneInv

variable {totalPageFrames : Nat} {region owned : Set Nat}
  {lists : Nat -> List Nat} {out : Set Block} {z : Zoned} {x : Nat}

theorem modify_page (h : ZoneInv totalPageFrames owned lists out z)
    {b : Block} (hb : b ∈ out) (f : Page -> Page) (hx : x ∉ owned) :
    (z.modify b.start f).page x = z.page x := by
  rw [Zoned.page_modify, if_neg]
  intro heq
  rw [heq] at hx
  exact hx (h.tiles.units_subset (Or.inr hb) b.start_mem_units)

theorem push_page (h : ZoneInv totalPageFrames owned lists out z)
    {b : Block} (hb : b ∈ out) (hx : x ∉ owned) :
    (z.pushFree b.start b.order).page x = z.page x :=
  h.headsIn.push_page
    (h.tiles.units_subset (Or.inr hb) b.start_mem_units) (h.outOrder b hb) hx

theorem next_owned (h : ZoneInv totalPageFrames owned lists out z)
    {k p : Nat} (hk : k ≤ pmmMaxOrder) (hp : p ∈ lists k)
    (hnext : z.next p = some x) : x ∈ owned :=
  h.mem_owned_of_listed hk ((h.linked k hk).next_mem hp hnext)

theorem prev_owned (h : ZoneInv totalPageFrames owned lists out z)
    {k p : Nat} (hk : k ≤ pmmMaxOrder) (hp : p ∈ lists k)
    (hprev : z.prev p = some x) : x ∈ owned :=
  h.mem_owned_of_listed hk ((h.linked k hk).prev_mem hp hprev)

theorem pop_page (h : ZoneInv totalPageFrames owned lists out z)
    {k p : Nat} (hk : k ≤ pmmMaxOrder)
    (hhead : z.zone.freeList k = some p) (hx : x ∉ owned) :
    (z.popFree p k).page x = z.page x := by
  rw [Zoned.popFree_page, if_neg]
  intro hnext
  exact hx (h.next_owned hk (h.pop hk hhead).left.right hnext)

theorem unlink_page (h : ZoneInv totalPageFrames owned lists out z)
    {b : Block} (hb : b ∈ onLists lists) (hx : x ∉ owned) :
    (z.unlinkFree b.start b.order).page x = z.page x := by
  have hnext : z.next b.start ≠ some x :=
    fun hsome => hx (h.next_owned hb.left hb.right hsome)
  have hprev : z.prev b.start ≠ some x :=
    fun hsome => hx (h.prev_owned hb.left hb.right hsome)
  rw [Zoned.unlinkFree_page z _ _ x (h.prev_ne_self hb.left hb.right),
    if_neg hprev, if_neg hnext]
  rfl

theorem split_page {p order : Nat} (found : Nat) (hle : order ≤ found)
    (h : ZoneInv totalPageFrames owned lists
      (insert { start := p, order := found } out) z)
    (hout : ({ start := p, order := found } : Block) ∉ out)
    (hx : x ∉ owned) :
    (splitDown totalPageFrames p order z found).page x = z.page x := by
  induction found generalizing z lists with
  | zero => rfl
  | succ found ih =>
      by_cases heq : order = found + 1
      · rw [heq, splitDown_of_le totalPageFrames p z (Nat.le_refl _)]
      · rcases h.splitOnce hout with ⟨hinv, hlow, hvalid⟩
        have hpfn : p + 2 ^ found ∈ owned :=
          hinv.mem_owned_of_listed
            (Nat.le_of_succ_le (h.outOrder _ (Set.mem_insert _ _))) (by
              rw [Function.update_self]
              exact List.mem_cons_self)
        have horder : found ≤ pmmMaxOrder :=
          Nat.le_of_succ_le (h.outOrder _ (Set.mem_insert _ _))
        rw [splitDown, if_pos (by omega), Nat.one_shiftLeft]
        simp only [if_pos hvalid]
        rw [ih (by omega) hinv hlow, h.headsIn.push_page hpfn horder hx]

theorem alloc_page (h : ZoneInv totalPageFrames owned lists out z)
    (order : Nat) (hx : x ∉ owned) :
    (buddyAlloc totalPageFrames z order).2.page x = z.page x := by
  rcases foundOrder_spec z.zone order with ⟨hle, _, hfound⟩
  unfold buddyAlloc
  by_cases hmax : pmmMaxOrder < foundOrder z.zone order
  · rw [if_pos hmax]
  · have hfoundMax : foundOrder z.zone order ≤ pmmMaxOrder := by omega
    cases hhead : z.zone.freeList (foundOrder z.zone order) with
    | none => exact absurd hhead (hfound hfoundMax)
    | some p =>
        simp only [if_neg hmax, hhead]
        rcases h.pop hfoundMax hhead with ⟨hlisted, hpop⟩
        have hpopped :
            ({ start := p, order := foundOrder z.zone order } : Block) ∉
              out := Set.disjoint_left.mp h.apart hlisted
        have hp := h.tiles.units_subset (Or.inl hlisted)
          (Block.start_mem_units _)
        have hne : x ≠ p := by
          intro heq
          rw [heq] at hx
          exact hx hp
        unfold handOut
        rw [Zoned.page_modify, if_neg hne, hpop.split_page _ hle hpopped hx,
          h.pop_page hfoundMax hhead hx]

theorem absorb_page {b : Block}
    (h : ZoneInv totalPageFrames owned lists (insert b out) z)
    (hbuddy : b.buddy ∈ onLists lists) (hx : x ∉ owned) :
    (absorb z b).page x = z.page x := by
  have htouch := h.touch b.buddy.start
  unfold absorb
  exact ((htouch.unlink hbuddy).modify_page (Set.mem_insert b.buddy _) _
    hx).trans (htouch.unlink_page hbuddy hx)

theorem merge_page {lists : Nat -> List Nat} {z : Zoned} {b : Block}
    (h : ZoneInv totalPageFrames owned lists (insert b out) z)
    (hout : b ∉ out) (hclosed : BuddyClosed region owned)
    (hquiet : QuietIn region owned out z) (hx : x ∉ owned) :
    (mergeUp totalPageFrames z b.start b.order).2.2.page x = z.page x := by
  have hregion := h.buddy_region hclosed
  by_cases hgo : b.order < pmmMaxOrder ∧ b.buddy ∈ onLists lists
  · rcases hgo with ⟨hlt, hbuddy⟩
    rcases h.mergeOnce hout hlt hbuddy with ⟨hinv, hparent⟩
    have hvalid := h.listed_valid hbuddy
    have hmark := (h.buddy_listed_iff hquiet (hregion hlt)).mp hbuddy
    rw [mergeUp_of_buddy hlt hvalid hmark,
      hinv.merge_page hparent hclosed (h.absorb_quiet hbuddy hquiet) hx,
      h.absorb_page hbuddy hx]
  · rcases mergeUp_of_no_buddy (z := z) (b := b) (by
        intro hlt hmark
        exact hgo ⟨hlt,
          (h.buddy_listed_iff hquiet (hregion hlt)).mpr hmark⟩) with
      ⟨z', hmerge, hz' | hz'⟩
    · rw [hmerge, hz']
    · rw [hmerge, hz', Zoned.page_touch]
termination_by pmmMaxOrder - b.order
decreasing_by
  show pmmMaxOrder - (b.order + 1) < pmmMaxOrder - b.order
  omega

theorem free_page (h : ZoneInv totalPageFrames owned lists out z) {b : Block}
    (hb : b ∈ out) (hclosed : BuddyClosed region owned)
    (hquiet : QuietIn region owned out z) (hx : x ∉ owned) :
    (buddyFree totalPageFrames z (pfnToPhys b.start) b.order).page x =
      z.page x := by
  rcases h.valid _ (h.tiles.units_subset (Or.inr hb) b.start_mem_units) with
    ⟨hvalid, hsize⟩
  rcases h.dropped hb hquiet with ⟨hmodified, hquietMod⟩
  have hfresh : b ∉ out \ {b} := fun hmem => hmem.right rfl
  rcases hmodified.merge hfresh hclosed hquietMod with
    ⟨lists', m, hstart, horder, hmerged⟩
  unfold buddyFree
  rw [physToPfn_pfnToPhys hsize]
  simp only [if_pos hvalid, hstart, horder]
  rw [hmerged.inv.push_page (Set.mem_insert m _) hx,
    hmodified.merge_page hfresh hclosed hquietMod hx, h.modify_page hb _ hx]

end ZoneInv

end Mm
end EarlnuxOS
