import EarlnuxOS.Foundation.Run
import EarlnuxOS.Mm.Pmm.RangeSpec
import EarlnuxOS.Mm.Pmm.AllocSpec
import EarlnuxOS.Mm.Pmm.FreeSpec
import Mathlib.Algebra.Order.BigOperators.Group.Finset
import Mathlib.Order.Interval.Finset.Nat

/-!
# Conservation of pages in a zone

A zone is filled from a list of page ranges, and then serves any sequence of
`buddy_alloc` calls and of `buddy_free` calls for blocks that are handed out.
Every state reached holds exactly the pages of the ranges, each in one block.
-/

namespace EarlnuxOS
namespace Mm

open Foundation

/-!
# Runs of one zone
-/

/-- A zone together with the blocks its callers hold. -/
structure BuddyState where
  z : Zoned
  live : List Block

inductive BuddyOp where
  | alloc (order : Nat)
  | free (b : Block)
deriving DecidableEq

def BuddyState.exec (totalPageFrames : Nat) (s : BuddyState) :
    BuddyOp -> BuddyState
  | BuddyOp.alloc order =>
      let result := buddyAlloc totalPageFrames s.z order
      { z := result.2
        live :=
          if result.1 = 0 then s.live
          else { start := physToPfn result.1, order := order } :: s.live }
  | BuddyOp.free b =>
      { z := buddyFree totalPageFrames s.z (pfnToPhys b.start) b.order
        live := s.live.erase b }

/-- Callers free only what they hold, with its own order. -/
def BuddyState.Valid (s : BuddyState) : BuddyOp -> Prop
  | BuddyOp.alloc _ => True
  | BuddyOp.free b => b ∈ s.live

def BuddyState.held (s : BuddyState) : Set Block := {b | b ∈ s.live}

def ownedBy (ranges : List (Nat × Nat)) : Set Nat :=
  {x | exists r, r ∈ ranges ∧ x ∈ Set.Ico r.1 r.2}

/-- The zone after `buddy_free_range` has run on each range. -/
def fillZone (z : Zoned) (ranges : List (Nat × Nat)) : Zoned :=
  ranges.foldl (fun z r => buddyFreeRange z r.1 r.2) z

def BuddyState.start (z : Zoned) (ranges : List (Nat × Nat)) : BuddyState :=
  { z := fillZone z ranges, live := [] }

/--
A zone that is still empty, and ranges it may be filled from.  Inside the
ranges the descriptors may hold anything.
-/
structure Fillable (totalPageFrames : Nat) (z : Zoned)
    (ranges : List (Nat × Nat)) : Prop where
  noLists : forall k, z.zone.freeList k = none
  noCounts : forall k, z.zone.freeCount k = 0
  noPages : z.zone.freePages = 0
  disjoint : ranges.Pairwise fun r s =>
    Disjoint (Set.Ico r.1 r.2) (Set.Ico s.1 s.2)
  valid : forall x, x ∈ ownedBy ranges ->
    0 < x ∧ x < totalPageFrames ∧ x < pageArraySize
  unmarked : forall x, x ∉ ownedBy ranges -> (z.page x).isFree = false

/-!
# The invariant along a run
-/

structure BuddyInv (totalPageFrames : Nat) (owned : Set Nat)
    (lists : Nat -> List Nat) (s : BuddyState) : Prop where
  zone : ZoneInv totalPageFrames owned lists s.held s.z
  quiet : Quiet owned s.held s.z
  positive : forall x, x ∈ owned -> 0 < x
  nodup : s.live.Nodup

theorem ownedBy_nil : ownedBy [] = ∅ := by
  ext x
  constructor
  · intro h
    rcases h with ⟨r, hr, _⟩
    cases hr
  · intro h
    cases h

theorem ownedBy_append (ranges more : List (Nat × Nat)) :
    ownedBy (ranges ++ more) = ownedBy ranges ∪ ownedBy more := by
  ext x
  constructor
  · intro h
    rcases h with ⟨r, hr, hx⟩
    rcases List.mem_append.mp hr with hr | hr
    · exact Or.inl ⟨r, hr, hx⟩
    · exact Or.inr ⟨r, hr, hx⟩
  · intro h
    rcases h with h | h
    · rcases h with ⟨r, hr, hx⟩
      exact ⟨r, List.mem_append_left _ hr, hx⟩
    · rcases h with ⟨r, hr, hx⟩
      exact ⟨r, List.mem_append_right _ hr, hx⟩

theorem ownedBy_singleton (r : Nat × Nat) :
    ownedBy [r] = Set.Ico r.1 r.2 := by
  ext x
  constructor
  · intro h
    rcases h with ⟨s, hs, hx⟩
    rw [List.mem_singleton.mp hs] at hx
    exact hx
  · intro hx
    exact ⟨r, List.mem_singleton_self r, hx⟩

/-- All the blocks that `buddy_free_range` cuts a list of ranges into. -/
def allRangeBlocks (ranges : List (Nat × Nat)) : Set Block :=
  {b | exists r, r ∈ ranges ∧ b ∈ rangeBlocks r.1 r.2}

theorem ZoneInv.fill {totalPageFrames : Nat} {owned : Set Nat}
    {lists : Nat -> List Nat} {out : Set Block} {z : Zoned}
    {ranges : List (Nat × Nat)}
    (h : ZoneInv totalPageFrames owned lists out z)
    (hdisjoint : ranges.Pairwise fun r s =>
      Disjoint (Set.Ico r.1 r.2) (Set.Ico s.1 s.2))
    (hnew : Disjoint owned (ownedBy ranges))
    (hvalid : forall x, x ∈ ownedBy ranges ->
      x < totalPageFrames ∧ x < pageArraySize) :
    exists lists',
      ZoneInv totalPageFrames (owned ∪ ownedBy ranges) lists' out
        (fillZone z ranges) ∧
      onLists lists' = onLists lists ∪ allRangeBlocks ranges := by
  induction ranges generalizing owned lists z with
  | nil =>
      refine ⟨lists, ?_, ?_⟩
      · rw [ownedBy_nil, Set.union_empty]
        exact h
      · have hnone : allRangeBlocks [] = ∅ := by
          ext b
          simp [allRangeBlocks]
        rw [hnone, Set.union_empty]
  | cons r ranges ih =>
      have hcons : ownedBy (r :: ranges) =
          Set.Ico r.1 r.2 ∪ ownedBy ranges := by
        have happend := ownedBy_append [r] ranges
        rwa [ownedBy_singleton] at happend
      rw [hcons] at hnew hvalid ⊢
      rw [Set.disjoint_union_right] at hnew
      rw [List.pairwise_cons] at hdisjoint
      rcases h.freeRange r.1 hnew.left
        (fun x hx => hvalid x (Or.inl hx)) with ⟨lists1, hinv, hlists⟩
      have hrest : Disjoint (owned ∪ Set.Ico r.1 r.2) (ownedBy ranges) := by
        rw [Set.disjoint_union_left]
        refine ⟨hnew.right, ?_⟩
        rw [Set.disjoint_left]
        intro x hx hmem
        rcases hmem with ⟨s, hs, hxs⟩
        exact Set.disjoint_left.mp (hdisjoint.left s hs) hx hxs
      rcases ih hinv hdisjoint.right hrest
        (fun x hx => hvalid x (Or.inr hx)) with ⟨lists2, hinv2, hlists2⟩
      refine ⟨lists2, ?_, ?_⟩
      · rw [← Set.union_assoc]
        exact hinv2
      · rw [hlists2, hlists, Set.union_assoc]
        congr 1
        ext b
        simp [allRangeBlocks]

theorem fillZone_isFree {z : Zoned} {ranges : List (Nat × Nat)} {x : Nat}
    (hx : x ∉ ownedBy ranges) :
    ((fillZone z ranges).page x).isFree = (z.page x).isFree := by
  induction ranges generalizing z with
  | nil => rfl
  | cons r ranges ih =>
      have hrange : x ∉ Set.Ico r.1 r.2 := by
        intro hmem
        exact hx ⟨r, List.mem_cons_self, hmem⟩
      have hrest : x ∉ ownedBy ranges := by
        intro hmem
        rcases hmem with ⟨s, hs, hxs⟩
        exact hx ⟨s, List.mem_cons_of_mem r hs, hxs⟩
      show ((fillZone (buddyFreeRange z r.1 r.2) ranges).page x).isFree = _
      rw [ih hrest, buddyFreeRange_isFree r.1 hrange]

theorem Fillable.emptyInv {totalPageFrames : Nat} {z : Zoned}
    {ranges : List (Nat × Nat)} (h : Fillable totalPageFrames z ranges) :
    ZoneInv totalPageFrames ∅ (fun _ => []) ∅ z where
  linked := by
    intro k _
    rw [h.noLists k]
    exact DList.nil _ _
  marked := by
    intro k _ p hp
    cases hp
  tiles := by
    have hnone : onLists (fun _ => []) = ∅ := by
      ext b
      simp [onLists]
    rw [hnone, Set.union_empty]
    exact Tiles.empty
  apart := Set.disjoint_empty _
  outOrder := by
    intro b hb
    cases hb
  valid := by
    intro x hx
    cases hx
  counted := fun k _ => h.noCounts k
  totalled := by
    rw [h.noPages]
    simp [freeTotal]

theorem Fillable.start_inv {totalPageFrames : Nat} {z : Zoned}
    {ranges : List (Nat × Nat)} (h : Fillable totalPageFrames z ranges) :
    exists lists,
      BuddyInv totalPageFrames (ownedBy ranges) lists
        (BuddyState.start z ranges) ∧
      onLists lists = allRangeBlocks ranges := by
  rcases h.emptyInv.fill h.disjoint (Set.empty_disjoint _)
    (fun x hx => (h.valid x hx).right) with
    ⟨lists, hinv, hlists⟩
  have hheld : (BuddyState.start z ranges).held = ∅ := by
    ext b
    simp [BuddyState.held, BuddyState.start]
  have hnone : onLists (fun _ => []) = ∅ := by
    ext b
    simp [onLists]
  rw [Set.empty_union] at hinv
  rw [hnone, Set.empty_union] at hlists
  refine ⟨lists, ?_, hlists⟩
  exact {
    zone := by
      rw [hheld]
      exact hinv
    quiet := {
      outside := by
        intro x hx
        show ((fillZone z ranges).page x).isFree = false
        rw [fillZone_isFree hx, h.unmarked x hx]
      handedOut := by
        intro b hb
        cases hb }
    positive := fun x hx => (h.valid x hx).left
    nodup := List.nodup_nil }

/-!
# One operation
-/

theorem held_cons (z : Zoned) (b : Block) (live : List Block) :
    BuddyState.held { z := z, live := b :: live } =
      insert b (BuddyState.held { z := z, live := live }) := by
  ext c
  simp [BuddyState.held]

theorem held_erase (z : Zoned) (b : Block) {live : List Block}
    (hnodup : live.Nodup) :
    BuddyState.held { z := z, live := live.erase b } =
      BuddyState.held { z := z, live := live } \ {b} := by
  ext c
  show c ∈ live.erase b <-> c ∈ live ∧ c ∉ ({b} : Set Block)
  rw [hnodup.mem_erase_iff, Set.mem_singleton_iff]
  exact And.comm

namespace BuddyInv

variable {totalPageFrames : Nat} {owned : Set Nat}
  {lists : Nat -> List Nat} {s : BuddyState}

theorem listed_page (h : BuddyInv totalPageFrames owned lists s) {b : Block}
    (hb : b ∈ onLists lists) :
    physToPfn (pfnToPhys b.start) = b.start ∧ pfnToPhys b.start ≠ 0 := by
  have hown := h.zone.tiles.units_subset (Or.inl hb) b.start_mem_units
  have hsize := (h.zone.valid _ hown).right
  exact ⟨physToPfn_pfnToPhys hsize,
    pfnToPhys_ne_zero (h.positive _ hown) hsize⟩

/-- A call of `buddy_alloc` fails and changes nothing, or hands out a block. -/
theorem alloc_step (h : BuddyInv totalPageFrames owned lists s)
    (order : Nat) :
    ((buddyAlloc totalPageFrames s.z order).1 = 0 ∧
        s.exec totalPageFrames (BuddyOp.alloc order) = s ∧
        forall k, order ≤ k -> k ≤ pmmMaxOrder -> lists k = []) ∨
      exists p found lists',
        (buddyAlloc totalPageFrames s.z order).1 ≠ 0 ∧
        Allocated totalPageFrames owned lists lists' s.held s.z
          (s.exec totalPageFrames (BuddyOp.alloc order)).z p order found ∧
        BuddyInv totalPageFrames owned lists'
          (s.exec totalPageFrames (BuddyOp.alloc order)) := by
  rcases h.zone.alloc order with ⟨hresult, hempty⟩ |
    ⟨p, found, lists', hphys, halloc⟩
  · refine Or.inl ⟨by rw [hresult], ?_, hempty⟩
    unfold BuddyState.exec
    simp only [hresult, if_pos]
  · rcases h.listed_page halloc.listed with ⟨hpfn, hne⟩
    refine Or.inr ⟨p, found, lists', hphys ▸ hne, halloc, ?_⟩
    have hexec : s.exec totalPageFrames (BuddyOp.alloc order) =
        { z := (buddyAlloc totalPageFrames s.z order).2
          live := { start := p, order := order } :: s.live } := by
      unfold BuddyState.exec
      simp only [hphys, if_neg hne]
      rw [hpfn]
    have hheld := held_cons (buddyAlloc totalPageFrames s.z order).2
      { start := p, order := order } s.live
    rw [hexec]
    exact {
      zone := by
        rw [hheld]
        exact halloc.inv
      quiet := {
        outside := by
          intro x hx
          have hframe : x ∉ Block.units { start := p, order := found } := by
            intro hmem
            exact hx (h.zone.tiles.units_subset (Or.inl halloc.listed) hmem)
          exact (halloc.frame x hframe).trans (h.quiet.outside x hx)
        handedOut := by
          intro b hb
          rw [hheld] at hb
          rcases hb with hb | hb
          · rw [hb]
            exact halloc.cleared
          · have hframe : b.start ∉
                Block.units { start := p, order := found } := by
              intro hmem
              have heq := h.zone.tiles.disjoint _ b (Or.inl halloc.listed)
                (Or.inr hb) b.start hmem b.start_mem_units
              have hlisted := halloc.listed
              rw [heq] at hlisted
              exact Set.disjoint_left.mp h.zone.apart hlisted hb
            exact (halloc.frame b.start hframe).trans
              (h.quiet.handedOut b hb) }
      positive := h.positive
      nodup := List.nodup_cons.mpr ⟨halloc.fresh, h.nodup⟩ }

/-- A call of `buddy_free` for a block that is held takes it back. -/
theorem free_step (h : BuddyInv totalPageFrames owned lists s) {b : Block}
    (hb : b ∈ s.live) :
    exists lists' m,
      Freed totalPageFrames owned lists lists' s.held s.z
        (s.exec totalPageFrames (BuddyOp.free b)).z b m ∧
      BuddyInv totalPageFrames owned lists'
        (s.exec totalPageFrames (BuddyOp.free b)) := by
  rcases h.zone.free hb h.quiet with ⟨lists', m, hfreed⟩
  refine ⟨lists', m, hfreed, ?_⟩
  have hheld : (s.exec totalPageFrames (BuddyOp.free b)).held =
      s.held \ {b} := held_erase _ b h.nodup
  have hstill : forall x, x ≠ m.start -> (s.z.page x).isFree = false ->
      ((s.exec totalPageFrames (BuddyOp.free b)).z.page x).isFree = false := by
    intro x hx hclear
    by_contra hfree
    rw [Bool.not_eq_false] at hfree
    have hold := hfreed.frame x hx hfree
    rw [hclear] at hold
    cases hold
  have hm := hfreed.inv.tiles.units_subset (Or.inl hfreed.listed)
    m.start_mem_units
  exact {
    zone := by
      rw [hheld]
      exact hfreed.inv
    quiet := {
      outside := by
        intro x hx
        apply hstill x _ (h.quiet.outside x hx)
        intro heq
        rw [heq] at hx
        exact hx hm
      handedOut := by
        intro c hc
        rw [hheld] at hc
        apply hstill c.start _ (h.quiet.handedOut c hc.left)
        intro heq
        have hcm := hfreed.inv.tiles.eq_of_start (Or.inr hc)
          (Or.inl hfreed.listed) heq
        rw [hcm] at hc
        exact Set.disjoint_left.mp hfreed.inv.apart hfreed.listed hc }
    positive := h.positive
    nodup := h.nodup.erase b }

theorem step (h : exists lists, BuddyInv totalPageFrames owned lists s)
    (o : BuddyOp) (hvalid : s.Valid o) :
    exists lists, BuddyInv totalPageFrames owned lists
      (s.exec totalPageFrames o) := by
  rcases h with ⟨lists, h⟩
  cases o with
  | alloc order =>
      rcases h.alloc_step order with ⟨_, hsame, _⟩ |
        ⟨_, _, lists', _, _, hinv⟩
      · rw [hsame]
        exact ⟨lists, h⟩
      · exact ⟨lists', hinv⟩
  | free b =>
      rcases h.free_step hvalid with ⟨lists', _, _, hinv⟩
      exact ⟨lists', hinv⟩

end BuddyInv

/-- A state that calls on the filled zone have led to. -/
def BuddyReachable (totalPageFrames : Nat) (z : Zoned)
    (ranges : List (Nat × Nat)) (s : BuddyState) : Prop :=
  Reachable (BuddyState.exec totalPageFrames) BuddyState.Valid
    (BuddyState.start z ranges) s

theorem BuddyReachable.inv {totalPageFrames : Nat} {z : Zoned}
    {ranges : List (Nat × Nat)} {s : BuddyState}
    (hreach : BuddyReachable totalPageFrames z ranges s)
    (hz : Fillable totalPageFrames z ranges) :
    exists lists, BuddyInv totalPageFrames (ownedBy ranges) lists s := by
  apply Reachable.invariant hreach
  · rcases hz.start_inv with ⟨lists, hinv, _⟩
    exact ⟨lists, hinv⟩
  · intro s o h hvalid
    exact BuddyInv.step h o hvalid

/-!
# The counters

The counters are 32-bit words.  They are exact because a zone never owns more
pages than `page_array` has descriptors.
-/

/-- The pages of the blocks on the free lists, as a finite set. -/
def listedPages (lists : Nat -> List Nat) : Finset Nat :=
  (Finset.range (pmmMaxOrder + 1)).biUnion fun k =>
    (lists k).toFinset.biUnion fun p => Finset.Ico p (p + 2 ^ k)

theorem ZoneInv.freeTotal_eq_card {totalPageFrames : Nat} {owned : Set Nat}
    {lists : Nat -> List Nat} {out : Set Block} {z : Zoned}
    (h : ZoneInv totalPageFrames owned lists out z) :
    freeTotal lists = (listedPages lists).card := by
  have hlisted : forall k p, k ∈ Finset.range (pmmMaxOrder + 1) ->
      p ∈ (lists k).toFinset ->
        ({ start := p, order := k } : Block) ∈ onLists lists := by
    intro k p hk hp
    exact ⟨Nat.lt_succ_iff.mp (Finset.mem_range.mp hk),
      List.mem_toFinset.mp hp⟩
  have hmeet : forall (b c : Block) (x : Nat), b ∈ onLists lists ->
      c ∈ onLists lists -> x ∈ Finset.Ico b.start (b.start + 2 ^ b.order) ->
        x ∈ Finset.Ico c.start (c.start + 2 ^ c.order) -> b = c := by
    intro b c x hb hc hxb hxc
    exact h.tiles.disjoint b c (Or.inl hb) (Or.inl hc) x
      (Finset.mem_Ico.mp hxb) (Finset.mem_Ico.mp hxc)
  unfold freeTotal listedPages
  rw [Finset.card_biUnion]
  · apply Finset.sum_congr rfl
    intro k hk
    rw [Finset.card_biUnion]
    · rw [Finset.sum_congr rfl (fun p _ => Nat.card_Ico p (p + 2 ^ k))]
      have hnodup :=
        (h.linked k (Nat.lt_succ_iff.mp (Finset.mem_range.mp hk))).nodup
      simp [List.toFinset_card_of_nodup hnodup, Nat.mul_comm]
    · intro p hp q hq hpq
      rw [Function.onFun, Finset.disjoint_left]
      intro x hxp hxq
      have heq := hmeet _ _ x (hlisted k p hk (Finset.mem_coe.mp hp))
        (hlisted k q hk (Finset.mem_coe.mp hq)) hxp hxq
      exact hpq (congrArg Block.start heq)
  · intro j hj k hk hjk
    rw [Finset.mem_coe] at hj hk
    rw [Function.onFun, Finset.disjoint_left]
    intro x hxj hxk
    rcases Finset.mem_biUnion.mp hxj with ⟨p, hp, hxp⟩
    rcases Finset.mem_biUnion.mp hxk with ⟨q, hq, hxq⟩
    have heq := hmeet _ _ x (hlisted j p hj hp) (hlisted k q hk hq) hxp hxq
    exact hjk (congrArg Block.order heq)

theorem ZoneInv.freeTotal_le {totalPageFrames : Nat} {owned : Set Nat}
    {lists : Nat -> List Nat} {out : Set Block} {z : Zoned}
    (h : ZoneInv totalPageFrames owned lists out z) :
    freeTotal lists ≤ pageArraySize := by
  rw [h.freeTotal_eq_card, ← Finset.card_range pageArraySize]
  apply Finset.card_le_card
  intro x hx
  rcases Finset.mem_biUnion.mp hx with ⟨k, hk, hx⟩
  rcases Finset.mem_biUnion.mp hx with ⟨p, hp, hx⟩
  have hb : ({ start := p, order := k } : Block) ∈ onLists lists :=
    ⟨Nat.lt_succ_iff.mp (Finset.mem_range.mp hk), List.mem_toFinset.mp hp⟩
  have hown := h.tiles.units_subset (Or.inl hb) (Finset.mem_Ico.mp hx)
  exact Finset.mem_range.mpr (h.valid x hown).right

theorem ZoneInv.length_le {totalPageFrames : Nat} {owned : Set Nat}
    {lists : Nat -> List Nat} {out : Set Block} {z : Zoned}
    (h : ZoneInv totalPageFrames owned lists out z) {k : Nat}
    (hk : k ≤ pmmMaxOrder) : (lists k).length ≤ pageArraySize := by
  have hmem : k ∈ Finset.range (pmmMaxOrder + 1) :=
    Finset.mem_range.mpr (Nat.lt_succ_of_le hk)
  have hterm : 2 ^ k * (lists k).length ≤ freeTotal lists :=
    Finset.single_le_sum (f := fun k => 2 ^ k * (lists k).length)
      (fun _ _ => Nat.zero_le _) hmem
  have hpos : 1 * (lists k).length ≤ 2 ^ k * (lists k).length :=
    Nat.mul_le_mul_right _ (Nat.two_pow_pos k)
  have htotal := h.freeTotal_le
  omega

/-!
# Conservation
-/

/--
The free lists and the blocks that are handed out hold the owned pages, each
page once, and the counters tell the lengths of the lists.
-/
structure Conserved (owned : Set Nat) (lists : Nat -> List Nat)
    (s : BuddyState) : Prop where
  linked : forall k, k ≤ pmmMaxOrder ->
    DList s.z.next s.z.prev (s.z.zone.freeList k) (lists k)
  ownOrder : forall k, k ≤ pmmMaxOrder -> forall p, p ∈ lists k ->
    (s.z.page p).order = k
  tiles : Tiles (onLists lists ∪ {b | b ∈ s.live}) owned
  apart : forall b, b ∈ s.live -> b ∉ onLists lists
  liveOnce : s.live.Nodup
  freeCount : forall k, k ≤ pmmMaxOrder ->
    (s.z.zone.freeCount k).toNat = (lists k).length
  freePages : s.z.zone.freePages.toNat =
    ∑ k ∈ Finset.range (pmmMaxOrder + 1),
      2 ^ k * (s.z.zone.freeCount k).toNat

/-- Every reachable state of a zone conserves its pages. -/
theorem buddy_conserves_pages {totalPageFrames : Nat} {z : Zoned}
    {ranges : List (Nat × Nat)} {s : BuddyState}
    (hz : Fillable totalPageFrames z ranges)
    (hreach : BuddyReachable totalPageFrames z ranges s) :
    exists lists, Conserved (ownedBy ranges) lists s := by
  rcases hreach.inv hz with ⟨lists, hinv⟩
  have hzone := hinv.zone
  have hcount : forall k, k ≤ pmmMaxOrder ->
      (s.z.zone.freeCount k).toNat = (lists k).length := by
    intro k hk
    have hlength := hzone.length_le hk
    unfold pageArraySize at hlength
    rw [hzone.counted k hk, UInt32.toNat_ofNat']
    exact Nat.mod_eq_of_lt (by omega)
  refine ⟨lists, ?_⟩
  exact {
    linked := hzone.linked
    ownOrder := fun k hk p hp => (hzone.marked k hk p hp).right
    tiles := hzone.tiles
    apart := fun b hb hlisted =>
      Set.disjoint_left.mp hzone.apart hlisted hb
    liveOnce := hinv.nodup
    freeCount := hcount
    freePages := by
      have htotal := hzone.freeTotal_le
      unfold pageArraySize at htotal
      rw [hzone.totalled, UInt32.toNat_ofNat',
        Nat.mod_eq_of_lt (by omega)]
      unfold freeTotal
      apply Finset.sum_congr rfl
      intro k hk
      rw [hcount k (Nat.lt_succ_iff.mp (Finset.mem_range.mp hk))] }

/-- An empty zone whose descriptors all carry a stale free mark in `[1, 4)`. -/
def staleZone : Zoned :=
  { zone :=
      { freeList := fun _ => none
        freeCount := fun _ => 0
        basePfn := 0
        endPfn := 8
        totalPages := 0
        freePages := 0 }
    pages :=
      { page := fun pfn =>
          { flags := if 1 ≤ pfn ∧ pfn < 4 then pageFlagFree else 0
            refCount := 0
            order := 0
            next := none
            prev := none }
        outside := false } }

theorem staleZone_fillable : Fillable 8 staleZone [(1, 4)] where
  noLists := fun _ => rfl
  noCounts := fun _ => rfl
  noPages := rfl
  disjoint := List.pairwise_singleton _ _
  valid := by
    intro x hx
    rw [ownedBy_singleton, Set.mem_Ico] at hx
    unfold pageArraySize
    omega
  unmarked := by
    intro x hx
    rw [ownedBy_singleton, Set.mem_Ico] at hx
    show Page.isFree
      { flags := if 1 ≤ x ∧ x < 4 then pageFlagFree else 0, refCount := 0,
        order := 0, next := none, prev := none } = false
    rw [if_neg hx]
    rfl

/-- The second page comes out of a pair, and goes back to its buddy. -/
def splitAndMerge : List BuddyOp :=
  [BuddyOp.alloc 0, BuddyOp.alloc 0, BuddyOp.free ⟨2, 0⟩]

theorem splitAndMerge_valid :
    Meets (BuddyState.exec 8) BuddyState.Valid
      (BuddyState.start staleZone [(1, 4)]) splitAndMerge := by
  refine ⟨trivial, trivial, ?_, trivial⟩
  show (⟨2, 0⟩ : Block) ∈ BuddyState.live _
  decide +kernel

theorem buddy_conserves_staleZone :
    exists lists, Conserved (ownedBy [(1, 4)]) lists
      (run (BuddyState.exec 8) (BuddyState.start staleZone [(1, 4)])
        splitAndMerge) :=
  buddy_conserves_pages staleZone_fillable
    ⟨splitAndMerge, splitAndMerge_valid, rfl⟩

end Mm
end EarlnuxOS
