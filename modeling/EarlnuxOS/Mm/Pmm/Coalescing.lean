import EarlnuxOS.Mm.Pmm.Conservation

/-!
# Coalescing is complete

Merging stops only where no buddy is free, so no two free blocks are ever
buddies.  A tiling without buddies is the coarsest tiling of what it covers,
which makes the free lists a function of the set of free pages.
-/

namespace EarlnuxOS
namespace Mm

open Foundation

def freeBlocks (z : Zoned) : Set Block :=
  {b | b.order ≤ pmmMaxOrder ∧
    Reaches z.next (z.zone.freeList b.order) b.start}

def freeUnits (z : Zoned) : Set Nat :=
  {x | exists b, b ∈ freeBlocks z ∧ x ∈ b.units}

/-- No page of one range is equal to, or next to, a page of another. -/
def Apart (ranges : List (Nat × Nat)) : Prop :=
  ranges.Pairwise fun r s =>
    forall x y, x ∈ Set.Ico r.1 r.2 -> y ∈ Set.Ico s.1 s.2 ->
      x + 1 < y ∨ y + 1 < x

/-!
# The filled zone
-/

theorem ZoneInv.freeBlocks_eq {totalPageFrames : Nat} {owned : Set Nat}
    {lists : Nat -> List Nat} {out : Set Block} {z : Zoned}
    (h : ZoneInv totalPageFrames owned lists out z) :
    freeBlocks z = onLists lists := by
  ext b
  constructor
  · intro hb
    rcases hb with ⟨hmax, hreach⟩
    exact ⟨hmax, ((h.linked _ hmax).chain.reaches_iff b.start).mp hreach⟩
  · intro hb
    rcases hb with ⟨hmax, hmem⟩
    exact ⟨hmax, ((h.linked _ hmax).chain.reaches_iff b.start).mpr hmem⟩

theorem Apart.noBuddies {ranges : List (Nat × Nat)} (h : Apart ranges) :
    NoBuddies pmmMaxOrder (allRangeBlocks ranges) := by
  intro b hb hlt hbuddy
  rcases hb with ⟨r, hr, hb⟩
  rcases hbuddy with ⟨s, hs, hbuddy⟩
  by_cases heq : r = s
  · rw [← heq] at hbuddy
    exact rangeBlocks_noBuddies r.1 r.2 b hb hlt hbuddy
  · have hsymm : Std.Symm fun r s : Nat × Nat =>
        forall x y, x ∈ Set.Ico r.1 r.2 -> y ∈ Set.Ico s.1 s.2 ->
          x + 1 < y ∨ y + 1 < x :=
      ⟨fun _ _ hrs x y hx hy => (hrs y x hy hx).symm⟩
    rcases Block.buddy_touches (rangeBlock_aligned hb) with
      ⟨x, y, hx, hy, hnext⟩
    have hgap := h.forall hr hs heq x y (rangeBlock_units_subset hb hx)
      (rangeBlock_units_subset hbuddy hy)
    omega

/-!
# One operation
-/

/-- After an allocation the popped block's start is on no free list. -/
theorem Allocated.noBuddies {totalPageFrames : Nat} {owned : Set Nat}
    {lists lists' : Nat -> List Nat} {out : Set Block} {z z' : Zoned}
    {p order found : Nat}
    (h : Allocated totalPageFrames owned lists lists' out z z' p order found)
    (hinv : ZoneInv totalPageFrames owned lists out z)
    (hno : NoBuddies pmmMaxOrder (onLists lists)) :
    NoBuddies pmmMaxOrder (onLists lists') := by
  have hpopped : Block.Aligned { start := p, order := found } :=
    hinv.tiles.aligned _ (Or.inl h.listed)
  have hlow : forall j, ({ start := p, order := j } : Block) ∉
      onLists lists' := by
    intro j hj
    exact h.inv.start_not_listed (Set.mem_insert _ _) hj.left hj.right
  have hright : forall b, b ∈ rightHalves p order found ->
      b.buddy ∉ onLists lists' := by
    intro b hb
    rcases hb with ⟨j, _, hj, heq⟩
    rw [heq, Block.upper_eq_buddy (hpopped.of_le hj), Block.buddy_buddy]
    exact hlow j
  intro b hb hlt hbuddy
  have hb' := hb
  have hbuddy' := hbuddy
  rw [h.onLists_eq] at hb' hbuddy'
  rcases hb' with hb' | hb'
  · rcases hbuddy' with hbuddy' | hbuddy'
    · exact hno b hb'.left hlt hbuddy'.left
    · apply hright b.buddy hbuddy'
      rw [Block.buddy_buddy]
      exact hb
  · exact hright b hb' hbuddy

theorem Freed.noBuddies {totalPageFrames : Nat} {owned : Set Nat}
    {lists lists' : Nat -> List Nat} {out : Set Block} {z z' : Zoned}
    {b m : Block}
    (h : Freed totalPageFrames owned lists lists' out z z' b m)
    (hno : NoBuddies pmmMaxOrder (onLists lists)) :
    NoBuddies pmmMaxOrder (onLists lists') := by
  intro c hc hlt hbuddy
  rcases h.subset hc with hcm | hold
  · rw [hcm] at hlt hbuddy
    exact h.stopped hlt hbuddy
  · rcases h.subset hbuddy with hm | hold'
    · apply h.stopped
      · rw [← hm]
        exact hlt
      · rw [← hm, Block.buddy_buddy]
        exact hc
    · exact hno c hold hlt hold'

/-- The invariant of a zone whose free blocks are never buddies. -/
structure CoalescedInv (totalPageFrames : Nat) (owned : Set Nat)
    (lists : Nat -> List Nat) (s : BuddyState) : Prop extends
    BuddyInv totalPageFrames owned lists s where
  noBuddies : NoBuddies pmmMaxOrder (onLists lists)

theorem CoalescedInv.step {totalPageFrames : Nat} {owned : Set Nat}
    {s : BuddyState}
    (h : exists lists, CoalescedInv totalPageFrames owned lists s)
    (o : BuddyOp) (hvalid : s.Valid o) :
    exists lists, CoalescedInv totalPageFrames owned lists
      (s.exec totalPageFrames o) := by
  rcases h with ⟨lists, h⟩
  cases o with
  | alloc order =>
      rcases h.alloc_step order with ⟨_, hsame, _⟩ |
        ⟨_, _, lists', _, halloc, hinv⟩
      · rw [hsame]
        exact ⟨lists, h⟩
      · exact ⟨lists', hinv, halloc.noBuddies h.zone h.noBuddies⟩
  | free b =>
      rcases h.free_step hvalid with ⟨lists', _, hfreed, hinv⟩
      exact ⟨lists', hinv, hfreed.noBuddies h.noBuddies⟩

theorem Fillable.start_coalesced {totalPageFrames : Nat} {z : Zoned}
    {ranges : List (Nat × Nat)} (hz : Fillable totalPageFrames z ranges)
    (hapart : Apart ranges) :
    exists lists, CoalescedInv totalPageFrames (ownedBy ranges) lists
      (BuddyState.start z ranges) := by
  rcases hz.start_inv with ⟨lists, hinv, hlists⟩
  refine ⟨lists, hinv, ?_⟩
  rw [hlists]
  exact hapart.noBuddies

theorem BuddyReachable.coalesced {totalPageFrames : Nat} {z : Zoned}
    {ranges : List (Nat × Nat)} {s : BuddyState}
    (hreach : BuddyReachable totalPageFrames z ranges s)
    (hz : Fillable totalPageFrames z ranges) (hapart : Apart ranges) :
    exists lists, CoalescedInv totalPageFrames (ownedBy ranges) lists s := by
  apply Reachable.invariant hreach (hz.start_coalesced hapart)
  intro s o h hvalid
  exact CoalescedInv.step h o hvalid

/-!
# What follows in every state
-/

namespace CoalescedInv

variable {totalPageFrames : Nat} {owned : Set Nat}
  {lists : Nat -> List Nat} {s : BuddyState}

theorem tiles_free (h : CoalescedInv totalPageFrames owned lists s) :
    Tiles (onLists lists) (freeUnits s.z) := by
  have htiles := h.zone.tiles.subset (C := onLists lists)
    Set.subset_union_left
  unfold freeUnits
  rw [h.zone.freeBlocks_eq]
  exact htiles

/-- An aligned run of free pages lies in one free block, which is large enough. -/
theorem alloc_ne_zero (h : CoalescedInv totalPageFrames owned lists s)
    {c : Block} (hc : c.Aligned) (hmax : c.order ≤ pmmMaxOrder)
    (hfree : c.units ⊆ freeUnits s.z) :
    (buddyAlloc totalPageFrames s.z c.order).1 ≠ 0 := by
  rcases exists_covering_block h.tiles_free h.noBuddies hc hmax hfree with
    ⟨b, hb, hsub⟩
  have horder := Block.order_le_of_units_subset hsub
  rcases h.alloc_step c.order with ⟨_, _, hempty⟩ | ⟨_, _, _, hne, _⟩
  · have hmem := hb.right
    rw [hempty b.order horder hb.left] at hmem
    cases hmem
  · exact hne

theorem tiles_all (h : CoalescedInv totalPageFrames owned lists s)
    (hlive : s.live = []) : Tiles (onLists lists) owned := by
  have hheld : s.held = ∅ := by
    ext b
    simp [BuddyState.held, hlive]
  have htiles := h.zone.tiles
  rwa [hheld, Set.union_empty] at htiles

end CoalescedInv

/--
No two free blocks are buddies, an aligned run of free pages can be allocated,
and once nothing is held the free lists hold the blocks they started with.
-/
structure Coalesced (totalPageFrames : Nat) (start s : BuddyState) :
    Prop where
  noBuddies : forall b, b ∈ freeBlocks s.z -> b.order < pmmMaxOrder ->
    b.buddy ∉ freeBlocks s.z
  allocates : forall order, order ≤ pmmMaxOrder ->
    (buddyAlloc totalPageFrames s.z order).1 = 0 ->
      ¬ exists c : Block, c.Aligned ∧ c.order = order ∧
        c.units ⊆ freeUnits s.z
  restored : s.live = [] -> freeBlocks s.z = freeBlocks start.z

/-- Every reachable state of a zone filled from separate ranges is coalesced. -/
theorem buddy_coalesces {totalPageFrames : Nat} {z : Zoned}
    {ranges : List (Nat × Nat)} {s : BuddyState}
    (hz : Fillable totalPageFrames z ranges) (hapart : Apart ranges)
    (hreach : BuddyReachable totalPageFrames z ranges s) :
    Coalesced totalPageFrames (BuddyState.start z ranges) s := by
  rcases hz.start_coalesced hapart with ⟨lists0, hstart⟩
  rcases hreach.coalesced hz hapart with ⟨lists, hinv⟩
  constructor
  · rw [hinv.zone.freeBlocks_eq]
    exact hinv.noBuddies
  · intro order hmax hzero hrun
    rcases hrun with ⟨c, hc, horder, hfree⟩
    rw [← horder] at hmax hzero
    exact hinv.alloc_ne_zero hc hmax hfree hzero
  · intro hlive
    rw [hinv.zone.freeBlocks_eq, hstart.zone.freeBlocks_eq]
    exact tiling_unique (hinv.tiles_all hlive) (hstart.tiles_all rfl)
      hinv.noBuddies hstart.noBuddies (fun _ hb => hb.left)
      (fun _ hb => hb.left)

theorem buddy_coalesces_staleZone :
    Coalesced 8 (BuddyState.start staleZone [(1, 4)])
      (run (BuddyState.exec 8) (BuddyState.start staleZone [(1, 4)])
        splitAndMerge) :=
  buddy_coalesces staleZone_fillable (List.pairwise_singleton _ _)
    ⟨splitAndMerge, splitAndMerge_valid, rfl⟩

end Mm
end EarlnuxOS
