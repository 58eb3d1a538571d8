import EarlnuxOS.Foundation.LinkedList
import EarlnuxOS.Foundation.Tiling
import EarlnuxOS.Mm.Pmm.Buddy
import Mathlib.Algebra.BigOperators.Group.Finset.Basic
import Mathlib.Data.Finset.Range

/-!
# The invariant of one buddy zone

The blocks of a zone are on its free lists or out of them (handed out, or held
by the function that is running).  The invariant says that the free lists are
well-formed doubly linked lists, that the descriptor at the start of each free
block carries its mark and its order, and that the free blocks and the blocks
that are out together tile the pages the zone owns.

Nothing is said about the descriptors in the interior of a block: they keep
whatever an earlier life of the page left in them.
-/

namespace EarlnuxOS
namespace Mm

open Foundation

namespace Zoned

def next (z : Zoned) (pfn : Nat) : Option Nat := (z.page pfn).next

def prev (z : Zoned) (pfn : Nat) : Option Nat := (z.page pfn).prev

/-!
# What each edit does to the descriptors
-/

@[simp] theorem page_modify (z : Zoned) (pfn x : Nat) (f : Page -> Page) :
    (z.modify pfn f).page x = if x = pfn then f (z.page pfn) else z.page x := by
  unfold modify page PageArray.modify
  exact Function.update_apply _ _ _ _

@[simp] theorem page_touch (z : Zoned) (pfn x : Nat) :
    (z.touch pfn).page x = z.page x := rfl

@[simp] theorem page_setFreeList (z : Zoned) (order : Nat)
    (head : Option Nat) (x : Nat) :
    (z.setFreeList order head).page x = z.page x := rfl

@[simp] theorem page_countUp (z : Zoned) (order x : Nat) :
    (z.countUp order).page x = z.page x := rfl

@[simp] theorem page_countDown (z : Zoned) (order x : Nat) :
    (z.countDown order).page x = z.page x := rfl

@[simp] theorem page_setPrev (z : Zoned) (p back : Option Nat) (x : Nat) :
    (z.setPrev p back).page x =
      if p = some x then { z.page x with prev := back } else z.page x := by
  cases p with
  | none => rfl
  | some q =>
      unfold setPrev
      rw [page_modify]
      by_cases hx : x = q
      · rw [if_pos hx, hx, if_pos rfl]
      · rw [if_neg hx, if_neg]
        intro hq
        exact hx (Option.some.inj hq).symm

@[simp] theorem zone_modify (z : Zoned) (pfn : Nat) (f : Page -> Page) :
    (z.modify pfn f).zone = z.zone := rfl

@[simp] theorem zone_touch (z : Zoned) (pfn : Nat) :
    (z.touch pfn).zone = z.zone := rfl

@[simp] theorem zone_setPrev (z : Zoned) (p back : Option Nat) :
    (z.setPrev p back).zone = z.zone := by
  cases p <;> rfl

theorem pushFree_page (z : Zoned) (pfn order x : Nat) :
    (z.pushFree pfn order).page x =
      { flags := if x = pfn then pageFlagFree else (z.page x).flags
        refCount := (z.page x).refCount
        order := if x = pfn then order else (z.page x).order
        next := if x = pfn then z.zone.freeList order else z.next x
        prev :=
          if z.zone.freeList order = some x then some pfn
          else if x = pfn then none else z.prev x } := by
  unfold pushFree next prev
  simp only [page_countUp, page_setFreeList, page_setPrev, page_modify]
  by_cases hx : x = pfn
  · subst hx
    by_cases hhead : z.zone.freeList order = some x <;> simp [hhead]
  · by_cases hhead : z.zone.freeList order = some x <;> simp [hhead, hx]

theorem popFree_page (z : Zoned) (pfn order x : Nat) :
    (z.popFree pfn order).page x =
      if z.next pfn = some x then { z.page x with prev := none }
      else z.page x := by
  unfold popFree next
  simp only [page_countDown, page_setPrev, page_setFreeList, page_touch]

/--
Unlinking touches the two neighbours only, as long as the block is not linked
to itself.
-/
theorem unlinkFree_page (z : Zoned) (pfn order x : Nat)
    (hself : z.prev pfn ≠ some pfn) :
    (z.unlinkFree pfn order).page x =
      { flags := (z.page x).flags
        refCount := (z.page x).refCount
        order := (z.page x).order
        next := if z.prev pfn = some x then z.next pfn else z.next x
        prev := if z.next pfn = some x then z.prev pfn else z.prev x } := by
  unfold next prev at *
  unfold unlinkFree
  cases hprev : (z.page pfn).prev with
  | none =>
      simp only [hprev, page_countDown, page_setPrev, page_setFreeList]
      by_cases hx : (z.page pfn).next = some x <;> simp [hx]
  | some q =>
      have hq : pfn ≠ q := by
        intro hq
        rw [hprev, hq] at hself
        exact hself rfl
      simp only [hprev, page_countDown, page_setPrev, page_modify, if_neg hq]
      by_cases hx : (z.page pfn).next = some x
      · by_cases hxq : x = q <;> simp [hx, hxq, eq_comm]
      · by_cases hxq : x = q
        · rw [hxq] at hx
          simp [hx, hxq]
        · simp [hx, hxq, Ne.symm hxq]

theorem pushFree_next (z : Zoned) (pfn order x : Nat) :
    (z.pushFree pfn order).next x =
      if x = pfn then z.zone.freeList order else z.next x := by
  unfold next
  rw [pushFree_page]
  rfl

theorem pushFree_prev (z : Zoned) (pfn order x : Nat) :
    (z.pushFree pfn order).prev x =
      if z.zone.freeList order = some x then some pfn
      else if x = pfn then none else z.prev x := by
  unfold prev
  rw [pushFree_page]
  rfl

theorem pushFree_isFree (z : Zoned) (pfn order x : Nat) :
    ((z.pushFree pfn order).page x).isFree =
      if x = pfn then true else (z.page x).isFree := by
  rw [pushFree_page]
  unfold Page.isFree
  by_cases hx : x = pfn <;> simp [hx, pageFlagFree]

theorem pushFree_order (z : Zoned) (pfn order x : Nat) :
    ((z.pushFree pfn order).page x).order =
      if x = pfn then order else (z.page x).order := by
  rw [pushFree_page]

theorem pushFree_freeList (z : Zoned) (pfn order k : Nat) :
    (z.pushFree pfn order).zone.freeList k =
      if k = order then some pfn else z.zone.freeList k := by
  unfold pushFree countUp setFreeList
  simp only [zone_setPrev, zone_modify]
  exact Function.update_apply _ _ _ _

theorem pushFree_endPfn (z : Zoned) (pfn order : Nat) :
    (z.pushFree pfn order).zone.endPfn = z.zone.endPfn := by
  unfold pushFree countUp setFreeList
  simp only [zone_setPrev, zone_modify]

theorem popFree_freeList (z : Zoned) (pfn order k : Nat) :
    (z.popFree pfn order).zone.freeList k =
      if k = order then z.next pfn else z.zone.freeList k := by
  unfold popFree countDown setFreeList next
  simp only [zone_setPrev, zone_touch, page_touch]
  exact Function.update_apply _ _ _ _

theorem unlinkFree_freeList (z : Zoned) (pfn order k : Nat) :
    (z.unlinkFree pfn order).zone.freeList k =
      if k = order ∧ z.prev pfn = none then z.next pfn
      else z.zone.freeList k := by
  unfold next prev
  unfold unlinkFree
  cases hprev : (z.page pfn).prev with
  | none =>
      simp only [hprev, countDown, zone_setPrev, setFreeList,
        Function.update_apply]
      by_cases hk : k = order <;> simp [hk]
  | some q =>
      simp [hprev, countDown]

theorem pushFree_freeCount (z : Zoned) (pfn order k : Nat) :
    (z.pushFree pfn order).zone.freeCount k =
      if k = order then z.zone.freeCount order + 1
      else z.zone.freeCount k := by
  unfold pushFree countUp setFreeList
  simp only [zone_setPrev, zone_modify]
  exact Function.update_apply _ _ _ _

theorem popFree_freeCount (z : Zoned) (pfn order k : Nat) :
    (z.popFree pfn order).zone.freeCount k =
      if k = order then z.zone.freeCount order - 1
      else z.zone.freeCount k := by
  unfold popFree countDown setFreeList
  simp only [zone_setPrev, zone_touch]
  exact Function.update_apply _ _ _ _

theorem unlinkFree_freeCount (z : Zoned) (pfn order k : Nat) :
    (z.unlinkFree pfn order).zone.freeCount k =
      if k = order then z.zone.freeCount order - 1
      else z.zone.freeCount k := by
  unfold unlinkFree countDown
  cases hprev : (z.page pfn).prev with
  | none =>
      simp only [hprev, zone_setPrev, setFreeList]
      exact Function.update_apply _ _ _ _
  | some q =>
      simp only [hprev, zone_setPrev, zone_modify]
      exact Function.update_apply _ _ _ _

theorem pushFree_freePages (z : Zoned) (pfn order : Nat) :
    (z.pushFree pfn order).zone.freePages =
      z.zone.freePages + UInt32.ofNat (2 ^ order) := by
  unfold pushFree countUp setFreeList
  simp only [zone_setPrev, zone_modify, Nat.one_shiftLeft]

theorem popFree_freePages (z : Zoned) (pfn order : Nat) :
    (z.popFree pfn order).zone.freePages =
      z.zone.freePages - UInt32.ofNat (2 ^ order) := by
  unfold popFree countDown setFreeList
  simp only [zone_setPrev, zone_touch, Nat.one_shiftLeft]

theorem unlinkFree_freePages (z : Zoned) (pfn order : Nat) :
    (z.unlinkFree pfn order).zone.freePages =
      z.zone.freePages - UInt32.ofNat (2 ^ order) := by
  unfold unlinkFree countDown
  cases hprev : (z.page pfn).prev with
  | none =>
      simp only [hprev, zone_setPrev, setFreeList, Nat.one_shiftLeft]
  | some q =>
      simp only [hprev, zone_setPrev, zone_modify, Nat.one_shiftLeft]

/-!
# Leaving a list

A block leaves its list at the head in `buddy_alloc` and anywhere in
`buddy_free`.  Both edits do the same to the state.
-/

/-- From `z` to `z'`, the block at `p` leaves the free list of `order`. -/
structure Unlinked (z z' : Zoned) (p order : Nat) : Prop where
  next_eq : forall y, y ≠ p ->
    z'.next y = if z.prev p = some y then z.next p else z.next y
  prev_eq : forall y, y ≠ p ->
    z'.prev y = if z.next p = some y then z.prev p else z.prev y
  isFree_eq : forall y, (z'.page y).isFree = (z.page y).isFree
  order_eq : forall y, (z'.page y).order = (z.page y).order
  freeList_eq : forall k, z'.zone.freeList k =
    if k = order ∧ z.prev p = none then z.next p else z.zone.freeList k
  freeCount_eq : forall k, z'.zone.freeCount k =
    if k = order then z.zone.freeCount order - 1 else z.zone.freeCount k
  freePages_eq : z'.zone.freePages =
    z.zone.freePages - UInt32.ofNat (2 ^ order)

theorem popFree_unlinked {z : Zoned} {p order : Nat}
    (hprev : z.prev p = none) : Unlinked z (z.popFree p order) p order where
  next_eq := by
    intro y _
    rw [hprev, if_neg (by simp)]
    unfold next
    rw [popFree_page]
    by_cases hy : z.next p = some y <;> simp [hy]
  prev_eq := by
    intro y _
    rw [hprev]
    unfold prev
    rw [popFree_page]
    by_cases hy : z.next p = some y <;> simp [hy]
  isFree_eq := by
    intro y
    rw [popFree_page]
    unfold Page.isFree
    by_cases hy : z.next p = some y <;> simp [hy]
  order_eq := by
    intro y
    rw [popFree_page]
    by_cases hy : z.next p = some y <;> simp [hy]
  freeList_eq := by
    intro k
    rw [popFree_freeList]
    by_cases hk : k = order <;> simp [hk, hprev]
  freeCount_eq := fun k => popFree_freeCount z p order k
  freePages_eq := popFree_freePages z p order

theorem unlinkFree_unlinked {z : Zoned} {p order : Nat}
    (hself : z.prev p ≠ some p) :
    Unlinked z (z.unlinkFree p order) p order where
  next_eq := by
    intro y _
    unfold next
    rw [unlinkFree_page z p order y hself]
    rfl
  prev_eq := by
    intro y _
    unfold prev
    rw [unlinkFree_page z p order y hself]
    rfl
  isFree_eq := by
    intro y
    rw [unlinkFree_page z p order y hself]
    rfl
  order_eq := by
    intro y
    rw [unlinkFree_page z p order y hself]
  freeList_eq := fun k => unlinkFree_freeList z p order k
  freeCount_eq := fun k => unlinkFree_freeCount z p order k
  freePages_eq := unlinkFree_freePages z p order

end Zoned

/-!
# The invariant
-/

def onLists (lists : Nat -> List Nat) : Set Block :=
  {b | b.order ≤ pmmMaxOrder ∧ b.start ∈ lists b.order}

/-- The number of pages in the blocks on the free lists. -/
def freeTotal (lists : Nat -> List Nat) : Nat :=
  ∑ k ∈ Finset.range (pmmMaxOrder + 1), 2 ^ k * (lists k).length

/--
`lists` are the free lists of the zone, `out` are the blocks it owns that are
on none of them.
-/
structure ZoneInv (totalPageFrames : Nat) (owned : Set Nat)
    (lists : Nat -> List Nat) (out : Set Block) (z : Zoned) : Prop where
  linked : forall k, k ≤ pmmMaxOrder ->
    DList z.next z.prev (z.zone.freeList k) (lists k)
  marked : forall k, k ≤ pmmMaxOrder -> forall p, p ∈ lists k ->
    (z.page p).isFree = true ∧ (z.page p).order = k
  tiles : Tiles (onLists lists ∪ out) owned
  apart : Disjoint (onLists lists) out
  outOrder : forall b, b ∈ out -> b.order ≤ pmmMaxOrder
  valid : forall x, x ∈ owned -> x < totalPageFrames ∧ x < pageArraySize
  counted : forall k, k ≤ pmmMaxOrder ->
    z.zone.freeCount k = UInt32.ofNat (lists k).length
  totalled : z.zone.freePages = UInt32.ofNat (freeTotal lists)

theorem freeTotal_update (lists : Nat -> List Nat) {k : Nat}
    (hk : k ≤ pmmMaxOrder) (l : List Nat) :
    freeTotal (Function.update lists k l) + 2 ^ k * (lists k).length =
      freeTotal lists + 2 ^ k * l.length := by
  unfold freeTotal
  have hmem : k ∈ Finset.range (pmmMaxOrder + 1) :=
    Finset.mem_range.mpr (Nat.lt_succ_of_le hk)
  rw [← Finset.add_sum_erase _ _ hmem, ← Finset.add_sum_erase _ _ hmem,
    Function.update_self]
  have hrest :
      ∑ j ∈ (Finset.range (pmmMaxOrder + 1)).erase k,
          2 ^ j * (Function.update lists k l j).length =
        ∑ j ∈ (Finset.range (pmmMaxOrder + 1)).erase k,
          2 ^ j * (lists j).length := by
    apply Finset.sum_congr rfl
    intro j hj
    rw [Function.update_of_ne (Finset.ne_of_mem_erase hj)]
  rw [hrest]
  omega

theorem freeTotal_push (lists : Nat -> List Nat) {k : Nat}
    (hk : k ≤ pmmMaxOrder) (p : Nat) :
    freeTotal (Function.update lists k (p :: lists k)) =
      freeTotal lists + 2 ^ k := by
  have hsum := freeTotal_update lists hk (p :: lists k)
  rw [List.length_cons, Nat.mul_add, Nat.mul_one] at hsum
  omega

theorem freeTotal_erase (lists : Nat -> List Nat) {k p : Nat}
    (hk : k ≤ pmmMaxOrder) (hp : p ∈ lists k) :
    freeTotal lists =
      freeTotal (Function.update lists k ((lists k).erase p)) + 2 ^ k := by
  have hpos := List.length_pos_of_mem hp
  have hlength := List.length_erase_of_mem hp
  have hsum := freeTotal_update lists hk ((lists k).erase p)
  have hmul : 2 ^ k * (lists k).length =
      2 ^ k * ((lists k).erase p).length + 2 ^ k := by
    rw [← Nat.mul_succ, hlength]
    congr 1
    omega
  omega

theorem mem_onLists_update {lists : Nat -> List Nat} {k : Nat}
    {l : List Nat} {b : Block} :
    b ∈ onLists (Function.update lists k l) <->
      b.order ≤ pmmMaxOrder ∧
        if b.order = k then b.start ∈ l else b.start ∈ lists b.order := by
  show b.order ≤ pmmMaxOrder ∧
    b.start ∈ Function.update lists k l b.order <-> _
  rw [Function.update_apply]
  by_cases hk : b.order = k <;> simp [hk]

theorem onLists_push (lists : Nat -> List Nat) (b : Block)
    (hb : b.order ≤ pmmMaxOrder) :
    onLists (Function.update lists b.order (b.start :: lists b.order)) =
      insert b (onLists lists) := by
  ext c
  rw [mem_onLists_update, Set.mem_insert_iff]
  by_cases hk : c.order = b.order
  · rw [if_pos hk, List.mem_cons]
    have heq : c = b <-> c.start = b.start := by
      constructor
      · intro h
        rw [h]
      · intro h
        cases c
        cases b
        simp_all
    rw [heq]
    unfold onLists
    rw [Set.mem_ofPred_eq, hk]
    simp [hb]
  · rw [if_neg hk]
    have hne : c ≠ b := by
      intro h
      rw [h] at hk
      exact hk rfl
    simp [hne, onLists]

namespace ZoneInv

variable {totalPageFrames : Nat} {owned : Set Nat}
  {lists : Nat -> List Nat} {out : Set Block} {z : Zoned}

theorem onLists_erase (h : ZoneInv totalPageFrames owned lists out z)
    {b : Block} (hb : b.order ≤ pmmMaxOrder) :
    onLists (Function.update lists b.order
        ((lists b.order).erase b.start)) =
      onLists lists \ {b} := by
  ext c
  rw [mem_onLists_update, Set.mem_sdiff, Set.mem_singleton_iff]
  by_cases hk : c.order = b.order
  · have heq : c = b <-> c.start = b.start := by
      constructor
      · intro h
        rw [h]
      · intro h
        cases c
        cases b
        simp_all
    rw [if_pos hk, (h.linked b.order hb).nodup.mem_erase_iff, heq]
    unfold onLists
    rw [Set.mem_ofPred_eq, hk]
    constructor
    · intro hc
      exact ⟨⟨hc.left, hc.right.right⟩, hc.right.left⟩
    · intro hc
      exact ⟨hc.left.left, hc.right, hc.left.right⟩
  · rw [if_neg hk]
    have hne : c ≠ b := by
      intro h
      rw [h] at hk
      exact hk rfl
    simp [hne, onLists]

theorem order_unique (h : ZoneInv totalPageFrames owned lists out z)
    {j k p : Nat} (hj : j ≤ pmmMaxOrder) (hk : k ≤ pmmMaxOrder)
    (hpj : p ∈ lists j) (hpk : p ∈ lists k) : j = k := by
  rw [← (h.marked j hj p hpj).right, (h.marked k hk p hpk).right]

theorem mem_owned_of_listed (h : ZoneInv totalPageFrames owned lists out z)
    {k p : Nat} (hk : k ≤ pmmMaxOrder) (hp : p ∈ lists k) : p ∈ owned :=
  h.tiles.units_subset (b := { start := p, order := k })
    (Or.inl ⟨hk, hp⟩) (Block.start_mem_units _)

theorem start_not_listed (h : ZoneInv totalPageFrames owned lists out z)
    {b : Block} (hb : b ∈ out) {k : Nat} (hk : k ≤ pmmMaxOrder) :
    b.start ∉ lists k := by
  intro hmem
  have hfree : ({ start := b.start, order := k } : Block) ∈ onLists lists :=
    ⟨hk, hmem⟩
  have heq := h.tiles.eq_of_start (Or.inl hfree) (Or.inr hb) rfl
  rw [heq] at hfree
  exact Set.disjoint_left.mp h.apart hfree hb

theorem modify (h : ZoneInv totalPageFrames owned lists out z) {b : Block}
    (hb : b ∈ out) (f : Page -> Page) :
    ZoneInv totalPageFrames owned lists out (z.modify b.start f) := by
  have hkeep : forall k, k ≤ pmmMaxOrder -> forall p, p ∈ lists k ->
      (z.modify b.start f).page p = z.page p := by
    intro k hk p hp
    rw [Zoned.page_modify, if_neg]
    intro hpb
    rw [hpb] at hp
    exact h.start_not_listed hb hk hp
  exact {
    linked := by
      intro k hk
      apply (h.linked k hk).congr
      · intro p hp
        unfold Zoned.next
        rw [hkeep k hk p hp]
      · intro p hp
        unfold Zoned.prev
        rw [hkeep k hk p hp]
    marked := by
      intro k hk p hp
      rw [hkeep k hk p hp]
      exact h.marked k hk p hp
    tiles := h.tiles
    apart := h.apart
    outOrder := h.outOrder
    valid := h.valid
    counted := h.counted
    totalled := h.totalled }

theorem touch (h : ZoneInv totalPageFrames owned lists out z) (pfn : Nat) :
    ZoneInv totalPageFrames owned lists out (z.touch pfn) where
  linked := h.linked
  marked := h.marked
  tiles := h.tiles
  apart := h.apart
  outOrder := h.outOrder
  valid := h.valid
  counted := h.counted
  totalled := h.totalled

/-- The blocks that are out may be cut up or joined, page for page. -/
theorem retile (h : ZoneInv totalPageFrames owned lists out z)
    {C C' : Set Block} {Q : Set Nat} (hC : Tiles C Q) (hC' : Tiles C' Q)
    (hsub : C ⊆ out) (horder : forall b, b ∈ C' -> b.order ≤ pmmMaxOrder) :
    ZoneInv totalPageFrames owned lists ((out \ C) ∪ C') z where
  linked := h.linked
  marked := h.marked
  tiles := by
    have hexchange := h.tiles.exchange hC hC' (hsub.trans Set.subset_union_right)
    have hfree : onLists lists \ C = onLists lists :=
      (h.apart.mono_right hsub).sdiff_eq_left
    rwa [Set.union_sdiff_distrib, hfree, Set.union_assoc] at hexchange
  apart := by
    rw [Set.disjoint_left]
    intro b hb hout
    rcases hout with hout | hnew
    · exact Set.disjoint_left.mp h.apart hb hout.left
    · rcases (hC.cover b.start).mp (hC'.units_subset hnew b.start_mem_units)
        with ⟨c, hc, hx⟩
      have hbc := h.tiles.disjoint b c (Or.inl hb) (Or.inr (hsub hc)) b.start
        b.start_mem_units hx
      rw [hbc] at hb
      exact Set.disjoint_left.mp h.apart hb (hsub hc)
  outOrder := by
    intro b hb
    rcases hb with hb | hb
    · exact h.outOrder b hb.left
    · exact horder b hb
  valid := h.valid
  counted := h.counted
  totalled := h.totalled

theorem adopt (h : ZoneInv totalPageFrames owned lists out z) {b : Block}
    (halign : b.Aligned) (horder : b.order ≤ pmmMaxOrder)
    (hnew : Disjoint owned b.units)
    (hvalid : forall x, x ∈ b.units ->
      x < totalPageFrames ∧ x < pageArraySize) :
    ZoneInv totalPageFrames (owned ∪ b.units) lists (insert b out) z where
  linked := h.linked
  marked := h.marked
  tiles := by
    have hunion := h.tiles.union (Tiles.singleton halign) hnew
    rwa [Set.union_assoc, Set.union_singleton] at hunion
  apart := by
    rw [Set.disjoint_left]
    intro c hc hout
    rcases hout with hout | hout
    · have hown := h.tiles.units_subset (Or.inl hc) c.start_mem_units
      rw [hout] at hown
      exact Set.disjoint_left.mp hnew hown b.start_mem_units
    · exact Set.disjoint_left.mp h.apart hc hout
  outOrder := by
    intro c hc
    rcases hc with hc | hc
    · rw [hc]
      exact horder
    · exact h.outOrder c hc
  valid := by
    intro x hx
    rcases hx with hx | hx
    · exact h.valid x hx
    · exact hvalid x hx
  counted := h.counted
  totalled := h.totalled

/-!
# The three list edits
-/

theorem push_linked (h : ZoneInv totalPageFrames owned lists out z) {b : Block}
    (hb : b ∈ out) {k : Nat} (hk : k ≤ pmmMaxOrder) :
    DList (z.pushFree b.start b.order).next (z.pushFree b.start b.order).prev
      ((z.pushFree b.start b.order).zone.freeList k)
      (Function.update lists b.order (b.start :: lists b.order) k) := by
  have horder := h.outOrder b hb
  have hne : forall k, k ≤ pmmMaxOrder -> forall p, p ∈ lists k ->
      p ≠ b.start := by
    intro k hk p hp hpb
    rw [hpb] at hp
    exact h.start_not_listed hb hk hp
  rw [Zoned.pushFree_freeList, Function.update_apply]
  by_cases hkb : k = b.order
  · rw [if_pos hkb, if_pos hkb]
    apply (h.linked b.order horder).push (h.start_not_listed hb horder)
    · rw [Zoned.pushFree_next, if_pos rfl]
    · have hhd : z.zone.freeList b.order ≠ some b.start := by
        intro hsome
        have hlinked := h.linked b.order horder
        rw [hsome] at hlinked
        exact h.start_not_listed hb horder hlinked.head_mem
      rw [Zoned.pushFree_prev, if_neg hhd, if_pos rfl]
    · intro y hy
      rw [Zoned.pushFree_next, if_neg (hne b.order horder y hy)]
    · intro y hy
      rw [Zoned.pushFree_prev, if_neg (hne b.order horder y hy)]
  · rw [if_neg hkb, if_neg hkb]
    apply (h.linked k hk).congr
    · intro y hy
      rw [Zoned.pushFree_next, if_neg (hne k hk y hy)]
    · intro y hy
      rw [Zoned.pushFree_prev, if_neg (hne k hk y hy), if_neg]
      intro hsome
      have hlinked := h.linked b.order horder
      rw [hsome] at hlinked
      exact hkb (h.order_unique hk horder hy hlinked.head_mem)

theorem push (h : ZoneInv totalPageFrames owned lists out z) {b : Block}
    (hb : b ∈ out) :
    ZoneInv totalPageFrames owned
      (Function.update lists b.order (b.start :: lists b.order))
      (out \ {b}) (z.pushFree b.start b.order) := by
  have horder := h.outOrder b hb
  exact {
    linked := fun k hk => h.push_linked hb hk
    marked := by
      intro k hk p hp
      rw [Zoned.pushFree_isFree, Zoned.pushFree_order]
      rw [Function.update_apply] at hp
      by_cases hpb : p = b.start
      · rw [if_pos hpb, if_pos hpb]
        refine ⟨rfl, ?_⟩
        by_contra hkb
        rw [if_neg (Ne.symm hkb), hpb] at hp
        exact h.start_not_listed hb hk hp
      · rw [if_neg hpb, if_neg hpb]
        apply h.marked k hk
        by_cases hkb : k = b.order
        · rw [if_pos hkb] at hp
          rw [hkb]
          exact List.mem_of_ne_of_mem hpb hp
        · rwa [if_neg hkb] at hp
    tiles := by
      rw [onLists_push lists b horder]
      have hset : insert b (onLists lists) ∪ (out \ {b}) =
          onLists lists ∪ out := by
        rw [Set.insert_union, ← Set.union_insert, Set.insert_sdiff_singleton,
          Set.insert_eq_of_mem hb]
      rw [hset]
      exact h.tiles
    apart := by
      rw [onLists_push lists b horder, Set.disjoint_left]
      intro c hc hout
      rcases hc with hc | hc
      · exact hout.right hc
      · exact Set.disjoint_left.mp h.apart hc hout.left
    outOrder := fun c hc => h.outOrder c hc.left
    valid := h.valid
    counted := by
      intro k hk
      rw [Zoned.pushFree_freeCount, Function.update_apply]
      by_cases hkb : k = b.order
      · rw [if_pos hkb, if_pos hkb, h.counted b.order horder,
          List.length_cons, UInt32.ofNat_add]
        rfl
      · rw [if_neg hkb, if_neg hkb]
        exact h.counted k hk
    totalled := by
      rw [Zoned.pushFree_freePages, freeTotal_push lists horder,
        UInt32.ofNat_add, h.totalled] }

theorem take_linked (h : ZoneInv totalPageFrames owned lists out z)
    {z' : Zoned} {b : Block} (hb : b ∈ onLists lists)
    (hu : Zoned.Unlinked z z' b.start b.order) {k : Nat}
    (hk : k ≤ pmmMaxOrder) :
    DList z'.next z'.prev (z'.zone.freeList k)
      (Function.update lists b.order ((lists b.order).erase b.start) k) := by
  have hlinked := h.linked b.order hb.left
  rw [hu.freeList_eq, Function.update_apply]
  by_cases hkb : k = b.order
  · rw [if_pos hkb, hkb]
    apply hlinked.unlink hb.right
    · exact fun y _ hy => hu.next_eq y hy
    · exact fun y _ hy => hu.prev_eq y hy
    · simp
  · have hother : forall y, y ∈ lists k -> y ∉ lists b.order :=
      fun y hy hyb => hkb (h.order_unique hk hb.left hy hyb)
    rw [if_neg hkb, if_neg (fun hand => hkb hand.left)]
    apply (h.linked k hk).congr
    · intro y hy
      have hyb := hother y hy
      rw [hu.next_eq y (fun heq => hyb (heq ▸ hb.right)), if_neg]
      intro hprev
      exact hyb (hlinked.prev_mem hb.right hprev)
    · intro y hy
      have hyb := hother y hy
      rw [hu.prev_eq y (fun heq => hyb (heq ▸ hb.right)), if_neg]
      intro hnext
      exact hyb (hlinked.next_mem hb.right hnext)

theorem take (h : ZoneInv totalPageFrames owned lists out z) {z' : Zoned}
    {b : Block} (hb : b ∈ onLists lists)
    (hu : Zoned.Unlinked z z' b.start b.order) :
    ZoneInv totalPageFrames owned
      (Function.update lists b.order ((lists b.order).erase b.start))
      (insert b out) z' := by
  have hlinks := fun k hk => h.take_linked hb hu (k := k) hk
  rcases hb with ⟨horder, hmem⟩
  exact {
    linked := hlinks
    marked := by
      intro k hk p hp
      rw [hu.isFree_eq, hu.order_eq]
      apply h.marked k hk
      rw [Function.update_apply] at hp
      by_cases hkb : k = b.order
      · rw [if_pos hkb] at hp
        rw [hkb]
        exact List.mem_of_mem_erase hp
      · rwa [if_neg hkb] at hp
    tiles := by
      rw [h.onLists_erase horder]
      have hset : onLists lists \ {b} ∪ insert b out = onLists lists ∪ out := by
        rw [Set.union_insert, ← Set.insert_union, Set.insert_sdiff_singleton,
          Set.insert_eq_of_mem (show b ∈ onLists lists from ⟨horder, hmem⟩)]
      rw [hset]
      exact h.tiles
    apart := by
      rw [h.onLists_erase horder, Set.disjoint_left]
      intro c hc hout
      rcases hout with hout | hout
      · exact hc.right hout
      · exact Set.disjoint_left.mp h.apart hc.left hout
    outOrder := by
      intro c hc
      rcases hc with hc | hc
      · rw [hc]
        exact horder
      · exact h.outOrder c hc
    valid := h.valid
    counted := by
      intro k hk
      rw [hu.freeCount_eq, Function.update_apply]
      by_cases hkb : k = b.order
      · have hpos := List.length_pos_of_mem hmem
        rw [if_pos hkb, if_pos hkb, h.counted b.order horder,
          List.length_erase_of_mem hmem, UInt32.ofNat_sub (by omega)]
        rfl
      · rw [if_neg hkb, if_neg hkb]
        exact h.counted k hk
    totalled := by
      rw [hu.freePages_eq, h.totalled, freeTotal_erase lists horder hmem,
        UInt32.ofNat_add, UInt32.add_sub_cancel] }

theorem prev_ne_self (h : ZoneInv totalPageFrames owned lists out z)
    {k p : Nat} (hk : k ≤ pmmMaxOrder) (hp : p ∈ lists k) :
    z.prev p ≠ some p :=
  (h.linked k hk).prev_ne hp

theorem pop (h : ZoneInv totalPageFrames owned lists out z) {k p : Nat}
    (hk : k ≤ pmmMaxOrder) (hhead : z.zone.freeList k = some p) :
    ({ start := p, order := k } : Block) ∈ onLists lists ∧
      ZoneInv totalPageFrames owned
        (Function.update lists k ((lists k).erase p))
        (insert { start := p, order := k } out) (z.popFree p k) := by
  have hlinked := h.linked k hk
  rw [hhead] at hlinked
  have hmem : ({ start := p, order := k } : Block) ∈ onLists lists :=
    ⟨hk, hlinked.head_mem⟩
  refine ⟨hmem, h.take hmem ?_⟩
  rcases hlinked.mem_of_head with ⟨rest, hrest⟩
  exact Zoned.popFree_unlinked (hlinked.links [] p rest hrest).right

theorem unlink (h : ZoneInv totalPageFrames owned lists out z) {b : Block}
    (hb : b ∈ onLists lists) :
    ZoneInv totalPageFrames owned
      (Function.update lists b.order ((lists b.order).erase b.start))
      (insert b out) (z.unlinkFree b.start b.order) :=
  h.take hb (Zoned.unlinkFree_unlinked (h.prev_ne_self hb.left hb.right))

end ZoneInv

end Mm
end EarlnuxOS
