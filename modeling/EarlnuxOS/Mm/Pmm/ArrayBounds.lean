import EarlnuxOS.Mm.Pmm.KernelImage
import EarlnuxOS.Mm.Pmm.Populate

/-!
# The end of the descriptor array

No function compares a frame number with the length of `page_array`.  The free
lists stay inside it as long as `pmm_init` puts no block behind its end on
them; then only `buddy_alloc` can leave it, by splitting a block that reaches
beyond the end.
-/

namespace EarlnuxOS
namespace Mm

open Foundation

/--
No access has left the array, and every list head and link names a descriptor
in it that is not the first.
-/
structure Inside (z : Zoned) : Prop where
  above : Above 1 pageArraySize z
  prev : forall x p, z.prev x = some p -> p < pageArraySize
  outside : z.pages.outside = false

namespace Inside

variable {z : Zoned}

/-!
# The list edits
-/

theorem modify (h : Inside z) {pfn : Nat} (hpfn : pfn < pageArraySize)
    (f : Page -> Page)
    (hnext : forall p, (f (z.page pfn)).next = some p ->
      1 ≤ p ∧ p < pageArraySize)
    (hprev : forall p, (f (z.page pfn)).prev = some p -> p < pageArraySize)
    (hmark : (f (z.page pfn)).isFree = true -> 1 ≤ pfn) :
    Inside (z.modify pfn f) where
  above := h.above.modify pfn f hnext hmark
  prev := by
    intro x p hp
    unfold Zoned.prev at hp
    rw [Zoned.page_modify] at hp
    split at hp
    · exact hprev p hp
    · exact h.prev x p hp
  outside := by
    show (z.pages.outside || decide (pageArraySize ≤ pfn)) = false
    rw [h.outside, decide_eq_false (Nat.not_le_of_lt hpfn)]
    rfl

theorem touch (h : Inside z) {pfn : Nat} (hpfn : pfn < pageArraySize) :
    Inside (z.touch pfn) where
  above := h.above.touch pfn
  prev := h.prev
  outside := by
    show (z.pages.outside || decide (pageArraySize ≤ pfn)) = false
    rw [h.outside, decide_eq_false (Nat.not_le_of_lt hpfn)]
    rfl

theorem setPrev (h : Inside z) {p back : Option Nat}
    (hp : forall q, p = some q -> q < pageArraySize)
    (hback : forall q, back = some q -> q < pageArraySize) :
    Inside (z.setPrev p back) := by
  cases p with
  | none => exact h
  | some q =>
      exact h.modify (hp q rfl) _ (h.above.links q) hback (h.above.marks q)

theorem setFreeList (h : Inside z) (order : Nat) {head : Option Nat}
    (hhead : forall p, head = some p -> 1 ≤ p ∧ p < pageArraySize) :
    Inside (z.setFreeList order head) :=
  ⟨h.above.setFreeList order head hhead, h.prev, h.outside⟩

theorem countUp (h : Inside z) (order : Nat) : Inside (z.countUp order) :=
  ⟨h.above.countUp order, h.prev, h.outside⟩

theorem countDown (h : Inside z) (order : Nat) : Inside (z.countDown order) :=
  ⟨h.above.countDown order, h.prev, h.outside⟩

theorem push (h : Inside z) {pfn : Nat} (order : Nat) (hpos : 1 ≤ pfn)
    (hpfn : pfn < pageArraySize) : Inside (z.pushFree pfn order) := by
  have hmodify := h.modify hpfn
    (fun p =>
      { p with
          flags := pageFlagFree, order := order
          next := z.zone.freeList order, prev := none })
    (h.above.heads order) (fun p hp => by cases hp) (fun _ => hpos)
  have hpointer : forall q, some pfn = some q -> q < pageArraySize := by
    intro q hq
    cases hq
    exact hpfn
  have hprev := hmodify.setPrev
    (fun q hq => (h.above.heads order q hq).right) hpointer
  refine (hprev.setFreeList order ?_).countUp order
  intro p hp
  cases hp
  exact ⟨hpos, hpfn⟩

theorem pop (h : Inside z) {pfn : Nat} (hpfn : pfn < pageArraySize)
    (order : Nat) : Inside (z.popFree pfn order) := by
  have hlist := (h.touch hpfn).setFreeList order (h.above.links pfn)
  exact (hlist.setPrev (fun q hq => (h.above.links pfn q hq).right)
    (fun q hq => by cases hq)).countDown order

theorem unlink (h : Inside z) (pfn order : Nat) :
    Inside (z.unlinkFree pfn order) := by
  have hneighbours : forall z : Zoned, Inside z ->
      Inside (z.setPrev (z.next pfn) (z.prev pfn)) :=
    fun z hz => hz.setPrev (fun q hq => (hz.above.links pfn q hq).right)
      (fun q hq => hz.prev pfn q hq)
  unfold Zoned.unlinkFree
  cases hprev : (z.page pfn).prev with
  | none =>
      simp only [hprev]
      apply countDown
      exact hneighbours _ (h.setFreeList order (h.above.links pfn))
  | some q =>
      simp only [hprev]
      apply countDown
      exact hneighbours _ (h.modify (h.prev pfn q hprev)
        (fun d => { d with next := z.next pfn }) (h.above.links pfn)
        (h.prev q) (h.above.marks q))

/-!
# The buddy functions
-/

theorem freeRange {endPfn : Nat} (pfn : Nat) (h : Inside z) (hpos : 1 ≤ pfn)
    (hend : endPfn ≤ pageArraySize) :
    Inside (buddyFreeRange z pfn endPfn) := by
  induction pfn using range_induction endPfn generalizing z with
  | done pfn hle =>
      rw [buddyFreeRange_of_le z hle]
      exact h
  | step pfn hlt ih =>
      rw [buddyFreeRange_of_lt z hlt]
      exact ih (h.push _ hpos (Nat.lt_of_lt_of_le hlt hend))
        (Nat.le_add_right_of_le hpos)

theorem handOut (h : Inside z) {p : Nat} (hp : p < pageArraySize)
    (order : Nat) : Inside (handOut z p order) where
  above := h.above.handOut p order
  prev := by
    intro x q hq
    unfold Zoned.prev Mm.handOut at hq
    rw [Zoned.page_modify] at hq
    split at hq
    · exact h.prev p q hq
    · exact h.prev x q hq
  outside := by
    show (z.pages.outside || decide (pageArraySize ≤ p)) = false
    rw [h.outside, decide_eq_false (Nat.not_le_of_lt hp)]
    rfl

theorem merge {totalPageFrames pfn order : Nat} (h : Inside z)
    (hpos : 1 ≤ pfn) (hpfn : pfn < pageArraySize) :
    Inside (mergeUp totalPageFrames z pfn order).2.2 ∧
      1 ≤ (mergeUp totalPageFrames z pfn order).1 ∧
      (mergeUp totalPageFrames z pfn order).1 < pageArraySize := by
  induction hsteps : pmmMaxOrder - order generalizing z pfn order with
  | zero =>
      rw [mergeUp, if_neg (by omega)]
      exact ⟨h, hpos, hpfn⟩
  | succ n ih =>
      have horder : order < pmmMaxOrder := by omega
      rw [mergeUp, if_pos horder]
      by_cases hvalid : buddyPfn pfn order < totalPageFrames
      · simp only [if_pos hvalid]
        -- The length of the array is a multiple of every block's length.
        have hbuddy : buddyPfn pfn order < pageArraySize := by
          unfold buddyPfn
          rw [Nat.one_shiftLeft]
          exact Nat.xor_lt_two_pow (n := 18) hpfn
            (Nat.pow_lt_pow_right (by decide)
              (Nat.lt_trans horder (by decide)))
        have htouch := h.touch hbuddy
        split
        · exact ⟨htouch, hpos, hpfn⟩
        · rename_i hfree
          rw [not_or, Bool.not_eq_false] at hfree
          have hmark := h.above.marks _ hfree.left
          have hunlink := htouch.unlink (buddyPfn pfn order) order
          have hclear := hunlink.modify hbuddy
            (fun d => { d with flags := 0 }) (hunlink.above.links _)
            (hunlink.prev _) (fun _ => hmark)
          apply ih hclear
          · split <;> assumption
          · split <;> assumption
          · omega
      · simp only [if_neg hvalid]
        exact ⟨h, hpos, hpfn⟩

theorem free {totalPageFrames phys : Nat} (h : Inside z) (order : Nat)
    (hpos : 1 ≤ physToPfn phys) (hpfn : physToPfn phys < pageArraySize) :
    Inside (buddyFree totalPageFrames z phys order) := by
  unfold buddyFree
  by_cases hknown : physToPfn phys < totalPageFrames
  · simp only [if_pos hknown]
    have hcount := h.modify hpfn (fun d => { d with refCount := 0 })
      (h.above.links _) (h.prev _) (h.above.marks _)
    rcases hcount.merge hpos hpfn with ⟨hmerged, hstart, hend⟩
    exact hmerged.push _ hstart hend
  · simp only [if_neg hknown]
    exact h

end Inside

/-!
# Splitting
-/

/-- The right halves that `pfn_valid` accepts begin inside the array. -/
def SplitFits (totalPageFrames p order found : Nat) : Prop :=
  forall k, order ≤ k -> k < found -> p + 2 ^ k < totalPageFrames ->
    p + 2 ^ k < pageArraySize

/-- The block that `buddy_alloc` finds can be split. -/
def AllocFits (totalPageFrames : Nat) (z : Zoned) (order : Nat) : Prop :=
  forall p, foundOrder z.zone order ≤ pmmMaxOrder ->
    z.zone.freeList (foundOrder z.zone order) = some p ->
      SplitFits totalPageFrames p order (foundOrder z.zone order)

theorem splitFits_succ {totalPageFrames p order found : Nat}
    (hlt : order < found + 1) :
    SplitFits totalPageFrames p order (found + 1) <->
      (p + 2 ^ found < totalPageFrames -> p + 2 ^ found < pageArraySize) ∧
        SplitFits totalPageFrames p order found := by
  constructor
  · intro h
    refine ⟨h found (Nat.le_of_lt_succ hlt) (Nat.lt_succ_self found), ?_⟩
    exact fun k hk hfound => h k hk (Nat.lt_succ_of_lt hfound)
  · rintro ⟨hlast, hrest⟩ k hk hfound
    rcases Nat.lt_succ_iff_lt_or_eq.mp hfound with hlt' | heq
    · exact hrest k hk hlt'
    · rw [heq]
      exact hlast

theorem outside_splitDown {z : Zoned} (h : z.pages.outside = true)
    (totalPageFrames p order found : Nat) :
    (splitDown totalPageFrames p order z found).pages.outside = true := by
  induction found generalizing z with
  | zero => exact h
  | succ found ih =>
      unfold splitDown
      by_cases hlt : order < found + 1
      · simp only [if_pos hlt]
        apply ih
        split
        · exact outside_push h _ _
        · exact h
      · rw [if_neg hlt]
        exact h

theorem Inside.splitDown {z : Zoned} (h : Inside z) {p : Nat} (hp : 1 ≤ p)
    (totalPageFrames order found : Nat) :
    (SplitFits totalPageFrames p order found ∧
      Inside (splitDown totalPageFrames p order z found)) ∨
    (¬ SplitFits totalPageFrames p order found ∧
      (splitDown totalPageFrames p order z found).pages.outside = true) := by
  induction found generalizing z with
  | zero => exact Or.inl ⟨fun k _ hk => absurd hk (Nat.not_lt_zero k), h⟩
  | succ found ih =>
      unfold Mm.splitDown
      by_cases hlt : order < found + 1
      · simp only [if_pos hlt, Nat.one_shiftLeft]
        rw [splitFits_succ hlt]
        by_cases hvalid : p + 2 ^ found < totalPageFrames
        · rw [if_pos hvalid]
          by_cases hfits : p + 2 ^ found < pageArraySize
          · rcases ih (h.push found (Nat.le_add_right_of_le hp) hfits) with
              ⟨hrest, hinside⟩ | ⟨hrest, houtside⟩
            · exact Or.inl ⟨⟨fun _ => hfits, hrest⟩, hinside⟩
            · exact Or.inr ⟨fun hall => hrest hall.right, houtside⟩
          · refine Or.inr ⟨fun hall => hfits (hall.left hvalid), ?_⟩
            apply outside_splitDown
            rw [pushFree_outside, decide_eq_true (Nat.not_lt.mp hfits)]
            simp
        · rw [if_neg hvalid]
          rcases ih h with ⟨hrest, hinside⟩ | ⟨hrest, houtside⟩
          · exact Or.inl ⟨⟨fun hlt => absurd hlt hvalid, hrest⟩, hinside⟩
          · exact Or.inr ⟨fun hall => hrest hall.right, houtside⟩
      · rw [if_neg hlt]
        refine Or.inl ⟨?_, h⟩
        intro k hk hfound
        omega

def Handed (phys : Nat) : Prop :=
  exists p, 1 ≤ p ∧ p < pageArraySize ∧ phys = p * 4096

theorem Handed.pfn {phys : Nat} (h : Handed phys) :
    1 ≤ physToPfn phys ∧ physToPfn phys < pageArraySize := by
  rcases h with ⟨p, hpos, hp, hphys⟩
  rw [physToPfn_eq, hphys, Nat.mul_div_cancel p (by decide)]
  exact ⟨hpos, hp⟩

theorem Handed.lt {phys : Nat} (h : Handed phys) : phys < 2 ^ 32 := by
  rcases h with ⟨p, _, hp, hphys⟩
  unfold pageArraySize at hp
  omega

theorem Handed.ne_zero {phys : Nat} (h : Handed phys) : phys ≠ 0 := by
  rcases h with ⟨p, hpos, _, hphys⟩
  omega

theorem buddyAlloc_none (totalPageFrames : Nat) (z : Zoned) {order : Nat}
    (h : pmmMaxOrder < foundOrder z.zone order) :
    buddyAlloc totalPageFrames z order = (0, z) :=
  if_pos h

theorem Inside.alloc {z : Zoned} (h : Inside z) (totalPageFrames : Nat)
    {order : Nat} (hfound : foundOrder z.zone order ≤ pmmMaxOrder) :
    Handed (buddyAlloc totalPageFrames z order).1 ∧
      ((AllocFits totalPageFrames z order ∧
        Inside (buddyAlloc totalPageFrames z order).2) ∨
      (¬ AllocFits totalPageFrames z order ∧
        (buddyAlloc totalPageFrames z order).2.pages.outside = true)) := by
  cases hhead : z.zone.freeList (foundOrder z.zone order) with
  | none =>
      exact absurd hhead ((foundOrder_spec z.zone order).right.right hfound)
  | some p =>
      have hp := h.above.heads _ p hhead
      have hsmall : p < 2 ^ 20 := Nat.lt_of_lt_of_le hp.right (by decide)
      have hfits : AllocFits totalPageFrames z order <->
          SplitFits totalPageFrames p order (foundOrder z.zone order) := by
        constructor
        · exact fun hall => hall p hfound hhead
        · intro hsplit q _ hq
          rw [hhead] at hq
          cases hq
          exact hsplit
      unfold buddyAlloc
      simp only [if_neg (Nat.not_lt.mpr hfound), hhead]
      refine ⟨⟨p, hp.left, hp.right, pfnToPhys_eq hsmall⟩, ?_⟩
      rw [hfits]
      rcases (h.pop hp.right (foundOrder z.zone order)).splitDown hp.left
        totalPageFrames order (foundOrder z.zone order) with
        ⟨hsplit, hinside⟩ | ⟨hsplit, houtside⟩
      · exact Or.inl ⟨hsplit, hinside.handOut hp.right order⟩
      · refine Or.inr ⟨hsplit, ?_⟩
        show (_ || decide (pageArraySize ≤ p)) = true
        rw [houtside]
        rfl

/-!
# All three zones
-/

def MemMapEntry.Fits (e : MemMapEntry) : Prop :=
  e.Taken -> selectZone e.start = ZoneId.highmem -> e.pfnEnd ≤ pageArraySize

namespace Pmm

def AllInside (s : Pmm) : Prop :=
  forall id, Inside (s.zoned id)

/-- The zone that answers a request can split the block it finds. -/
def RequestFits (s : Pmm) (order : Nat) : Prop :=
  AllocFits s.totalPageFrames (s.zoned ZoneId.normal) order ∧
    (pmmMaxOrder < foundOrder (s.zones ZoneId.normal) order ->
      AllocFits s.totalPageFrames (s.zoned ZoneId.dma) order)

theorem boot_allInside : boot.initZones.AllInside :=
  fun id => ⟨(boot_allAbove 1 id).mono (Nat.zero_le pageArraySize),
    (fun _ _ hp => by cases hp), rfl⟩

namespace AllInside

variable {s : Pmm}

theorem put (h : s.AllInside) (id : ZoneId) {z : Zoned} (hz : Inside z) :
    (s.put id z).AllInside := by
  intro id'
  refine ⟨⟨?_, hz.above.links, hz.above.marks⟩, hz.prev, hz.outside⟩
  intro k p hp
  unfold Pmm.put zoned at hp
  simp only [Function.update_apply] at hp
  split at hp
  · exact hz.above.heads k p hp
  · exact (h id').above.heads k p hp

theorem freeRange (h : s.AllInside) (id : ZoneId) {pfn endPfn : Nat}
    (hpos : 1 ≤ pfn) (hend : endPfn ≤ pageArraySize) :
    (s.freeRange id pfn endPfn).AllInside :=
  h.put id ((h id).freeRange pfn hpos hend)

theorem freeRanges (h : s.AllInside) {ranges : List (ZoneId × Nat × Nat)}
    (hranges : forall r, r ∈ ranges -> 1 ≤ r.2.1 ∧ r.2.2 ≤ pageArraySize) :
    (s.freeRanges ranges).AllInside := by
  induction ranges generalizing s with
  | nil => exact h
  | cons r ranges ih =>
      rcases List.forall_mem_cons.mp hranges with ⟨hr, hrest⟩
      exact ih (h.freeRange r.1 hr.left hr.right) hrest

theorem modifyPage (h : s.AllInside) {pfn : Nat} (hpfn : pfn < pageArraySize)
    (f : Page -> Page)
    (hnext : forall p, (f (s.pages.page pfn)).next = some p ->
      1 ≤ p ∧ p < pageArraySize)
    (hprev : forall p, (f (s.pages.page pfn)).prev = some p ->
      p < pageArraySize)
    (hmark : (f (s.pages.page pfn)).isFree = true -> 1 ≤ pfn) :
    (s.setPages (s.pages.modify pfn f)).AllInside :=
  fun id => (h id).modify hpfn f hnext hprev hmark

theorem markUsable (h : s.AllInside) {pfn count : Nat} (hpos : 1 ≤ pfn)
    (hend : count = 0 ∨ pfn + count ≤ pageArraySize) :
    (s.setPages (markUsable s.pages pfn count)).AllInside := by
  induction count generalizing s pfn with
  | zero => exact h
  | succ count ih =>
      have hpfn : pfn < pageArraySize := by omega
      have hone := h.modifyPage hpfn
        (fun p =>
          { p with
              flags := pageFlagFree, refCount := 0, next := none
              prev := none })
        (fun p hp => by cases hp) (fun p hp => by cases hp) (fun _ => hpos)
      exact ih hone (Nat.le_succ_of_le hpos) (by omega)

theorem markKernel (h : s.AllInside) {pfn count : Nat}
    (hend : pfn + count ≤ pageArraySize) :
    (s.setPages (markKernel s.pages pfn count)).AllInside := by
  induction count generalizing s pfn with
  | zero => exact h
  | succ count ih =>
      have hdma := h ZoneId.dma
      have hpfn : pfn < pageArraySize := by omega
      have hone := h.modifyPage hpfn
        (fun p =>
          { p with
              flags := pageFlagKernel ||| pageFlagReserved, refCount := 1 })
        (hdma.above.links pfn) (hdma.prev pfn)
        (by
          intro hfree
          change ((pageFlagKernel ||| pageFlagReserved) &&& pageFlagFree != 0) =
            true at hfree
          exact absurd hfree (by decide))
      exact ih hone (by omega)

theorem reserveKernel (h : s.AllInside) : s.reserveKernel.AllInside := by
  have hend : kernelPfnStart + (kernelPfnEnd - kernelPfnStart) ≤
      pageArraySize := by
    decide
  unfold Pmm.reserveKernel
  exact h.markKernel hend

theorem setReady (h : s.AllInside) (ready : Bool) :
    ({ s with ready := ready } : Pmm).AllInside :=
  fun id => h id

theorem marked (h : s.AllInside) (e : MemMapEntry) :
    (s.marked e.start e.stop).AllInside := by
  have hpos : 1 ≤ e.pfnStart := Nat.le_trans (by decide) e.le_pfnStart
  refine markUsable (s := s.extend e.stop e.pfnEnd) h hpos ?_
  show min e.pfnEnd pageArraySize - e.pfnStart = 0 ∨
    e.pfnStart + (min e.pfnEnd pageArraySize - e.pfnStart) ≤ pageArraySize
  omega

theorem addTotal (h : s.AllInside) (id : ZoneId) (pages : Nat) :
    (s.addTotal id pages).AllInside :=
  h.put id (z := { s.zoned id with
      zone :=
        { s.zones id with
            totalPages := (s.zones id).totalPages + UInt32.ofNat pages } })
    ⟨⟨(h id).above.heads, (h id).above.links, (h id).above.marks⟩,
      (h id).prev, (h id).outside⟩

theorem addEntry (h : s.AllInside) (hs : s.Bounded) (e : MemMapEntry) :
    (e.Fits ∧ (s.addEntry e).AllInside) ∨
      (¬ e.Fits ∧ (s.addEntry e).pages.outside = true) := by
  by_cases htaken : e.Taken
  · have hzone := selectZone_eq e.start
    have hstart := e.le_pfnStart
    change _ = if e.pfnStart < 4096 then ZoneId.dma
      else if e.pfnStart < 229376 then ZoneId.normal
      else ZoneId.highmem at hzone
    by_cases hend : 229376 ≤ e.pfnStart ∧ pageArraySize < e.pfnEnd
    · refine Or.inr ⟨?_, addEntry_outside hs htaken hend.left hend.right⟩
      intro hfits
      rw [if_neg (by omega), if_neg (by omega)] at hzone
      exact Nat.not_lt.mpr (hfits htaken hzone) hend.right
    · have hranges : forall r, r ∈ placements e.pfnStart e.pfnEnd ->
          1 ≤ r.2.1 ∧ r.2.2 ≤ pageArraySize := by
        unfold pageArraySize at hend ⊢
        unfold placements
        split
        · simp only [List.forall_mem_cons]
          exact ⟨by omega, by omega, List.forall_mem_nil _⟩
        split
        · simp only [List.forall_mem_cons]
          exact ⟨by omega, by omega, List.forall_mem_nil _⟩
        · rw [List.forall_mem_singleton]
          exact ⟨by dsimp only; omega, by dsimp only; omega⟩
      refine Or.inl ⟨?_, ?_⟩
      · intro _ hhigh
        rw [hhigh] at hzone
        by_contra hlong
        split at hzone
        · cases hzone
        split at hzone
        · cases hzone
        · omega
      · rw [addEntry_eq hs htaken]
        exact ((h.marked e).freeRanges hranges).addTotal _ _
  · rw [addEntry_skipped s htaken]
    exact Or.inl ⟨fun ht => absurd ht htaken, h⟩

theorem addEntries (h : s.AllInside) (hs : s.Bounded)
    (map : List MemMapEntry) :
    ((forall e, e ∈ map -> e.Fits) ∧
      (map.foldl Pmm.addEntry s).AllInside) ∨
    (¬ (forall e, e ∈ map -> e.Fits) ∧
      (map.foldl Pmm.addEntry s).pages.outside = true) := by
  induction map generalizing s with
  | nil => exact Or.inl ⟨List.forall_mem_nil _, h⟩
  | cons e map ih =>
      rw [List.forall_mem_cons, List.foldl_cons]
      rcases h.addEntry hs e with ⟨he, hnext⟩ | ⟨he, houtside⟩
      · rcases ih hnext (hs.addEntry e) with
          ⟨hrest, hinside⟩ | ⟨hrest, houtside⟩
        · exact Or.inl ⟨⟨he, hrest⟩, hinside⟩
        · exact Or.inr ⟨fun hall => hrest hall.right, houtside⟩
      · exact Or.inr ⟨fun hall => he hall.left,
          outside_addEntries (hs.addEntry e) houtside map⟩

theorem allocPages (h : s.AllInside) (hready : s.ready = true)
    (order : Nat) :
    ((s.pmmAllocPages order).1 = 0 ∨ Handed (s.pmmAllocPages order).1) ∧
      ((s.RequestFits order ∧ (s.pmmAllocPages order).2.AllInside) ∨
      (¬ s.RequestFits order ∧
        (s.pmmAllocPages order).2.pages.outside = true)) := by
  have hskip : ¬ s.ready = false := by
    rw [hready]
    decide
  unfold Pmm.pmmAllocPages
  rw [if_neg hskip]
  by_cases hnormal : foundOrder (s.zones ZoneId.normal) order ≤ pmmMaxOrder
  · rcases (h ZoneId.normal).alloc s.totalPageFrames hnormal with
      ⟨hhanded, hresult⟩
    simp only [if_neg hhanded.ne_zero]
    refine ⟨Or.inr hhanded, ?_⟩
    rcases hresult with ⟨hfits, hinside⟩ | ⟨hfits, houtside⟩
    · exact Or.inl ⟨⟨hfits, fun hnone => absurd hnormal
        (Nat.not_le.mpr hnone)⟩, h.put _ hinside⟩
    · exact Or.inr ⟨fun hall => hfits hall.left, houtside⟩
  · have hnone := Nat.not_le.mp hnormal
    have hvacuous : AllocFits s.totalPageFrames (s.zoned ZoneId.normal)
        order := fun p hfound => absurd hfound hnormal
    have hstay : buddyAlloc s.totalPageFrames (s.zoned ZoneId.normal) order =
        (0, s.zoned ZoneId.normal) := buddyAlloc_none _ _ hnone
    simp only [hstay, put_zoned, if_true]
    by_cases hdma : foundOrder (s.zones ZoneId.dma) order ≤ pmmMaxOrder
    · rcases (h ZoneId.dma).alloc s.totalPageFrames hdma with
        ⟨hhanded, hresult⟩
      refine ⟨Or.inr hhanded, ?_⟩
      rcases hresult with ⟨hfits, hinside⟩ | ⟨hfits, houtside⟩
      · exact Or.inl ⟨⟨hvacuous, fun _ => hfits⟩, h.put _ hinside⟩
      · exact Or.inr ⟨fun hall => hfits (hall.right hnone), houtside⟩
    · have hstay' : buddyAlloc s.totalPageFrames (s.zoned ZoneId.dma) order =
          (0, s.zoned ZoneId.dma) := buddyAlloc_none _ _ (Nat.not_le.mp hdma)
      rw [hstay', put_zoned]
      exact ⟨Or.inl rfl, Or.inl ⟨⟨hvacuous, fun _ p hfound =>
        absurd hfound hdma⟩, h⟩⟩

theorem freePages (h : s.AllInside) {phys : UInt32} (order : Nat)
    (hphys : Handed phys.toNat) : (s.pmmFreePages phys order).AllInside := by
  unfold Pmm.pmmFreePages
  split
  · exact h
  · exact h.put _ ((h _).free order hphys.pfn.left hphys.pfn.right)

end AllInside

end Pmm

/-!
# Runs
-/

namespace PmmState

/-- Nothing has left the array, and callers hold blocks that begin in it. -/
structure AllInside (s : PmmState) : Prop where
  pmm : s.pmm.AllInside
  ready : s.pmm.ready = true
  live : forall b, b ∈ s.live -> Handed b.1

def RequestFits (s : PmmState) : PmmOp -> Prop
  | PmmOp.allocPage => s.pmm.RequestFits 0
  | PmmOp.allocPages order => s.pmm.RequestFits order
  | PmmOp.freePage _ => True
  | PmmOp.freePages _ _ => True

theorem start_allInside (map : List MemMapEntry) :
    ((forall e, e ∈ map -> e.Fits) ∧ (start map).AllInside) ∨
      (¬ (forall e, e ∈ map -> e.Fits) ∧
        (start map).pmm.pages.outside = true) := by
  rcases Pmm.boot_allInside.addEntries (Pmm.initZones_bounded _) map with
    ⟨hmap, hinside⟩ | ⟨hmap, houtside⟩
  · have hinit : (Pmm.boot.pmmInit map).AllInside :=
      hinside.reserveKernel.setReady true
    exact Or.inl ⟨hmap, hinit, rfl, List.forall_mem_nil _⟩
  · refine Or.inr ⟨hmap, ?_⟩
    show (Pmm.boot.pmmInit map).pages.outside = true
    rw [pmmInit_outside]
    exact houtside

theorem pmmAllocPages_ready (s : Pmm) (order : Nat) :
    (s.pmmAllocPages order).2.ready = s.ready := by
  unfold Pmm.pmmAllocPages
  split
  · rfl
  · dsimp only
    split <;> rfl

theorem AllInside.receive {s : PmmState} (h : s.AllInside) (order : Nat) :
    (s.pmm.RequestFits order ∧
      (s.receive order (s.pmm.pmmAllocPages order)).AllInside) ∨
    (¬ s.pmm.RequestFits order ∧
      (s.receive order (s.pmm.pmmAllocPages order)).pmm.pages.outside =
        true) := by
  rcases h.pmm.allocPages h.ready order with ⟨hphys, hresult⟩
  rcases hresult with ⟨hfits, hinside⟩ | ⟨hfits, houtside⟩
  · refine Or.inl ⟨hfits, hinside, ?_, ?_⟩
    · exact (pmmAllocPages_ready s.pmm order).trans h.ready
    · intro b hb
      unfold PmmState.receive at hb
      dsimp only at hb
      split at hb
      · exact h.live b hb
      · rename_i hne
        rcases List.mem_cons.mp hb with hb | hb
        · rw [hb]
          exact hphys.resolve_left hne
        · exact h.live b hb
  · exact Or.inr ⟨hfits, houtside⟩

theorem AllInside.release {s : PmmState} (h : s.AllInside)
    {phys order : Nat} (hlive : (phys, order) ∈ s.live) :
    AllInside
      { pmm := s.pmm.pmmFreePages (UInt32.ofNat phys) order
        live := s.live.erase (phys, order) } := by
  have hhanded : Handed phys := h.live _ hlive
  refine ⟨h.pmm.freePages order ?_, ?_, ?_⟩
  · rw [UInt32.toNat_ofNat_of_lt' hhanded.lt]
    exact hhanded
  · show (s.pmm.pmmFreePages _ order).ready = true
    unfold Pmm.pmmFreePages
    split <;> exact h.ready
  · exact fun b hb => h.live b (List.mem_of_mem_erase hb)

theorem AllInside.exec {s : PmmState} (h : s.AllInside) (o : PmmOp)
    (hvalid : s.Valid o) :
    (s.RequestFits o ∧ (s.exec o).AllInside) ∨
      (¬ s.RequestFits o ∧ (s.exec o).pmm.pages.outside = true) := by
  cases o with
  | allocPage => exact h.receive 0
  | allocPages order => exact h.receive order
  | freePage phys => exact Or.inl ⟨trivial, h.release hvalid⟩
  | freePages phys order => exact Or.inl ⟨trivial, h.release hvalid⟩

/--
All accesses of `pmm_init` and of the requests and valid frees behind it are
inside `page_array` exactly when no entry of HIGHMEM ends behind it and no
request splits a block that reaches beyond it.
-/
theorem accesses_inside_iff (map : List MemMapEntry) {ops : List PmmOp}
    (hvalid : Meets PmmState.exec Valid (start map) ops) :
    (forall first, first <+: ops ->
      (run PmmState.exec (start map) first).pmm.pages.outside = false) <->
    (forall e, e ∈ map -> e.Fits) ∧
      Meets PmmState.exec RequestFits (start map) ops := by
  rcases start_allInside map with ⟨hmap, hinside⟩ | ⟨hmap, houtside⟩
  · have hgood : forall s : PmmState, s.AllInside ->
        ¬ s.pmm.pages.outside = true := by
      intro s hs houtside
      have hin : s.pmm.pages.outside = false := (hs.pmm ZoneId.dma).outside
      rw [hin] at houtside
      cases houtside
    rw [and_iff_right hmap, Meets.iff_never hgood
      (fun s o hs hv => hs.exec o hv) hinside hvalid]
    simp only [Bool.not_eq_true]
  · refine iff_of_false ?_ (fun h => hmap h.left)
    intro hall
    have hstart := hall [] (List.nil_prefix)
    rw [run_nil, houtside] at hstart
    cases hstart

/-- With less memory than the array describes, every block can be split. -/
theorem requestFits_of_le {s : Pmm} (h : s.totalPageFrames ≤ pageArraySize)
    (order : Nat) : s.RequestFits order :=
  ⟨fun _ _ _ _ _ _ hlt => Nat.lt_of_lt_of_le hlt h,
    fun _ _ _ _ _ _ _ hlt => Nat.lt_of_lt_of_le hlt h⟩

theorem accesses_inside_twoPageMap :
    (run PmmState.exec (start twoPageMap) splitAndJoin).pmm.pages.outside =
      false := by
  have hmap : forall e, e ∈ twoPageMap -> e.Fits := by
    intro e he _
    rw [List.mem_singleton.mp he]
    decide
  have hfits : Meets PmmState.exec RequestFits (start twoPageMap)
      splitAndJoin := by
    refine ⟨?_, ?_, trivial, trivial, ?_, trivial⟩
    · exact requestFits_of_le (by decide +kernel) 0
    · exact requestFits_of_le (by decide +kernel) 0
    · exact requestFits_of_le (by decide +kernel) 1
  exact (accesses_inside_iff twoPageMap splitAndJoin_valid).mpr ⟨hmap, hfits⟩ _
    List.prefix_rfl

def highMap : List MemMapEntry :=
  [{ base := 0x38000000, length := 0x10000000, type := memtypeUsable }]

theorem highMap_outside :
    ¬ forall (map : List MemMapEntry) (ops : List PmmOp),
      Meets PmmState.exec Valid (start map) ops ->
        (run PmmState.exec (start map) ops).pmm.pages.outside = false := by
  intro hall
  have hstart := hall highMap [] trivial
  rcases start_allInside highMap with ⟨hmap, _⟩ | ⟨_, houtside⟩
  · have hend := hmap _ List.mem_cons_self (by decide) (by decide)
    exact absurd hend (by decide)
  · rw [run_nil, houtside] at hstart
    cases hstart

/-!
# Machines of at most 1 GB
-/

theorem totalPageFrames_exec (s : PmmState) (o : PmmOp) :
    (s.exec o).pmm.totalPageFrames = s.pmm.totalPageFrames := by
  have halloc : forall order, (s.pmm.pmmAllocPages order).2.totalPageFrames =
      s.pmm.totalPageFrames := by
    intro order
    unfold Pmm.pmmAllocPages
    split
    · rfl
    · dsimp only
      split <;> rfl
  have hfree : forall phys order,
      (s.pmm.pmmFreePages phys order).totalPageFrames =
        s.pmm.totalPageFrames := by
    intro phys order
    unfold Pmm.pmmFreePages
    split <;> rfl
  cases o with
  | allocPage => exact halloc 0
  | allocPages order => exact halloc order
  | freePage phys => exact hfree _ 0
  | freePages phys order => exact hfree _ order

theorem totalPageFrames_start {map : List MemMapEntry}
    (hmap : forall e, e ∈ map -> e.Taken -> e.pfnEnd ≤ pageArraySize) :
    (start map).pmm.totalPageFrames ≤ pageArraySize := by
  have hfold : forall s : Pmm, s.totalPageFrames ≤ pageArraySize ->
      (map.foldl Pmm.addEntry s).totalPageFrames ≤ pageArraySize := by
    induction map with
    | nil => exact fun s hs => hs
    | cons e map ih =>
        intro s hs
        rcases List.forall_mem_cons.mp hmap with ⟨he, hrest⟩
        refine ih hrest _ ?_
        by_cases htaken : e.Taken
        · rw [Pmm.addEntry_taken s htaken, Pmm.addPages_totalPageFrames]
          split
          · exact he htaken
          · exact hs
        · rw [Pmm.addEntry_skipped s htaken]
          exact hs
  exact hfold Pmm.boot.initZones (Nat.zero_le _)

theorem requestFits_of_small {s : PmmState}
    (h : s.pmm.totalPageFrames ≤ pageArraySize) (o : PmmOp) :
    s.RequestFits o := by
  have hfits : forall z order, AllocFits s.pmm.totalPageFrames z order :=
    fun z order p _ _ k _ _ hlt => Nat.lt_of_lt_of_le hlt h
  cases o with
  | allocPage => exact ⟨hfits _ 0, fun _ => hfits _ 0⟩
  | allocPages order => exact ⟨hfits _ order, fun _ => hfits _ order⟩
  | freePage phys => exact trivial
  | freePages phys order => exact trivial

/-- Where no memory lies above 1 GB, every run stays inside the array. -/
theorem small_machine_inside {map : List MemMapEntry}
    (hmap : forall e, e ∈ map -> e.Taken -> e.pfnEnd ≤ pageArraySize)
    {ops : List PmmOp} (hmeets : Meets PmmState.exec Valid (start map) ops) :
    (run PmmState.exec (start map) ops).pmm.pages.outside = false := by
  have hinside : (run PmmState.exec (start map) ops).AllInside ∧
      (run PmmState.exec (start map) ops).pmm.totalPageFrames ≤
        pageArraySize := by
    refine hmeets.invariant (P := fun s : PmmState =>
      s.AllInside ∧ s.pmm.totalPageFrames ≤ pageArraySize) ?_ ?_
    · rintro s o ⟨hs, hsmall⟩ hvalid
      rw [totalPageFrames_exec]
      refine ⟨?_, hsmall⟩
      rcases hs.exec o hvalid with ⟨_, hnext⟩ | ⟨hfits, _⟩
      · exact hnext
      · exact absurd (requestFits_of_small hsmall o) hfits
    · refine ⟨?_, totalPageFrames_start hmap⟩
      rcases start_allInside map with ⟨_, hstart⟩ | ⟨hfits, _⟩
      · exact hstart
      · exact absurd (fun e he ht _ => hmap e he ht) hfits
  exact (hinside.left.pmm ZoneId.dma).outside

end PmmState

end Mm
end EarlnuxOS
