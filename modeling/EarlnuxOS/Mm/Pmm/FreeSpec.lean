import EarlnuxOS.Mm.Pmm.ZoneInvariant

/-!
# Freeing

`buddy_free` trusts the mark and the order it finds in the descriptor of the
buddy.  The descriptor may be the stale interior of some other block, but then
that block starts elsewhere: the buddy of an aligned block can only be a whole
free block, the start of a smaller block, or a page outside the zone.
-/

namespace EarlnuxOS
namespace Mm

open Foundation

/-- The state after the running block `b` has taken in its free buddy. -/
def absorb (z : Zoned) (b : Block) : Zoned :=
  ((z.touch b.buddy.start).unlinkFree b.buddy.start b.order).modify
    b.buddy.start fun d => { d with flags := 0 }

theorem buddyPfn_eq (b : Block) : buddyPfn b.start b.order = b.buddy.start := by
  unfold buddyPfn
  rw [Nat.one_shiftLeft]
  rfl

theorem mergeUp_of_buddy {totalPageFrames : Nat} {z : Zoned} {b : Block}
    (hlt : b.order < pmmMaxOrder) (hvalid : b.buddy.start < totalPageFrames)
    (hmark : (z.page b.buddy.start).isFree = true ∧
      (z.page b.buddy.start).order = b.order) :
    mergeUp totalPageFrames z b.start b.order =
      mergeUp totalPageFrames (absorb z b) b.parent.start b.parent.order := by
  have hmin : (if b.buddy.start < b.start then b.buddy.start
      else b.start) = b.parent.start := by
    show _ = min b.start b.buddy.start
    split <;> omega
  rw [mergeUp]
  simp only [if_pos hlt, buddyPfn_eq, if_pos hvalid, Zoned.page_touch,
    hmark.left, hmark.right, hmin]
  rw [if_neg (by simp)]
  rfl

theorem mergeUp_of_no_buddy {totalPageFrames : Nat} {z : Zoned} {b : Block}
    (hnot : b.order < pmmMaxOrder ->
      ¬ ((z.page b.buddy.start).isFree = true ∧
        (z.page b.buddy.start).order = b.order)) :
    exists z', mergeUp totalPageFrames z b.start b.order =
        (b.start, b.order, z') ∧
      (z' = z ∨ z' = z.touch b.buddy.start) := by
  rw [mergeUp]
  by_cases hlt : b.order < pmmMaxOrder
  · by_cases hvalid : b.buddy.start < totalPageFrames
    · have hcond : (z.page b.buddy.start).isFree = false ∨
          (z.page b.buddy.start).order ≠ b.order := by
        by_cases hfree : (z.page b.buddy.start).isFree = true
        · exact Or.inr (fun horder => hnot hlt ⟨hfree, horder⟩)
        · exact Or.inl (by simpa using hfree)
      refine ⟨z.touch b.buddy.start, ?_, Or.inr rfl⟩
      simp only [if_pos hlt, buddyPfn_eq, if_pos hvalid, Zoned.page_touch,
        if_pos hcond]
    · refine ⟨z, ?_, Or.inl rfl⟩
      simp only [if_pos hlt, buddyPfn_eq, if_neg hvalid]
  · exact ⟨z, if_neg hlt, Or.inl rfl⟩

/-- No page outside the zone and no block that is out carries the free mark. -/
structure Quiet (owned : Set Nat) (out : Set Block) (z : Zoned) : Prop where
  outside : forall x, x ∉ owned -> (z.page x).isFree = false
  handedOut : forall b, b ∈ out -> (z.page b.start).isFree = false

/-- The same, but of the pages outside the zone only for those of a region. -/
structure QuietIn (region owned : Set Nat) (out : Set Block) (z : Zoned) :
    Prop where
  outside : forall x, x ∈ region -> x ∉ owned -> (z.page x).isFree = false
  handedOut : forall b, b ∈ out -> (z.page b.start).isFree = false

theorem Quiet.quietIn {owned : Set Nat} {out : Set Block} {z : Zoned}
    (h : Quiet owned out z) : QuietIn Set.univ owned out z where
  outside := fun x _ hx => h.outside x hx
  handedOut := h.handedOut

/-- The merge loop looks for the buddies of owned blocks in the region only. -/
def BuddyClosed (region owned : Set Nat) : Prop :=
  forall b : Block, b.Aligned -> b.order < pmmMaxOrder -> b.start ∈ owned ->
    b.buddy.start ∈ region

/-- The merge loop took in `b` and ended with the block `m`. -/
structure Merged (totalPageFrames : Nat) (owned : Set Nat)
    (lists lists' : Nat -> List Nat) (out : Set Block) (z z' : Zoned)
    (b m : Block) : Prop where
  inv : ZoneInv totalPageFrames owned lists' (insert m out) z'
  fresh : m ∉ out
  subset : onLists lists' ⊆ onLists lists
  contains : b.units ⊆ m.units
  stopped : m.order < pmmMaxOrder -> m.buddy ∉ onLists lists'
  frame : forall x, (z'.page x).isFree = true -> (z.page x).isFree = true

namespace ZoneInv

variable {totalPageFrames : Nat} {region owned : Set Nat}
  {lists : Nat -> List Nat} {out : Set Block} {z : Zoned}

theorem buddy_listed_iff {b : Block}
    (h : ZoneInv totalPageFrames owned lists (insert b out) z)
    (hquiet : QuietIn region owned out z) (hregion : b.buddy.start ∈ region) :
    b.buddy ∈ onLists lists <->
      (z.page b.buddy.start).isFree = true ∧
        (z.page b.buddy.start).order = b.order := by
  have hb : b ∈ insert b out := Set.mem_insert b out
  have halign : b.Aligned := h.tiles.aligned b (Or.inr hb)
  have hmax := h.outOrder b hb
  constructor
  · intro hlisted
    exact h.marked b.order hmax b.buddy.start hlisted.right
  · intro hmark
    have howned : b.buddy.start ∈ owned := by
      by_contra hnot
      rw [hquiet.outside _ hregion hnot] at hmark
      cases hmark.left
    rcases (h.tiles.cover b.buddy.start).mp howned with ⟨c, hc, hx⟩
    have hcalign := h.tiles.aligned c hc
    have hbc : c ≠ b := by
      intro heq
      rw [heq] at hx
      exact Set.disjoint_left.mp (Block.buddy_disjoint halign) hx
        b.buddy.start_mem_units
    have hcorder : c.order ≤ b.buddy.order := by
      by_contra hlt
      have hsub := Block.buddy_units_subset halign.buddy hcalign
        (Nat.lt_of_not_le hlt) b.buddy.start_mem_units hx
      have hback : b.buddy.buddy = b := by
        show Block.mk ((b.start ^^^ 2 ^ b.order) ^^^ 2 ^ b.order) b.order = b
        rw [Nat.xor_assoc, Nat.xor_self, Nat.xor_zero]
      rw [hback] at hsub
      exact hbc (h.tiles.disjoint c b hc (Or.inr hb) b.start
        (hsub b.start_mem_units) b.start_mem_units)
    have hstart := h.tiles.start_eq hc halign.buddy hcorder hx
    rcases hc with hc | hc
    · have hcmark := h.marked c.order hc.left c.start hc.right
      rw [hstart, hmark.right] at hcmark
      have hcb : c = b.buddy := by
        show c = Block.mk b.buddy.start b.order
        rw [← hstart, hcmark.right]
      rw [← hcb]
      exact hc
    · rcases hc with hc | hc
      · exact absurd hc hbc
      · have hclear := hquiet.handedOut c hc
        rw [hstart, hmark.left] at hclear
        cases hclear

theorem mergeOnce {b : Block}
    (h : ZoneInv totalPageFrames owned lists (insert b out) z)
    (hout : b ∉ out) (hlt : b.order < pmmMaxOrder)
    (hbuddy : b.buddy ∈ onLists lists) :
    ZoneInv totalPageFrames owned
        (Function.update lists b.order
          ((lists b.order).erase b.buddy.start))
        (insert b.parent out)
        (absorb z b) ∧
      b.parent ∉ out := by
  have hb : b ∈ insert b out := Set.mem_insert b out
  have halign : b.Aligned := h.tiles.aligned b (Or.inr hb)
  have hunlinked := (h.touch b.buddy.start).unlink hbuddy
  have hmarked := hunlinked.modify (Set.mem_insert b.buddy _)
    fun d => { d with flags := 0 }
  have hjoined := hmarked.retile (Tiles.pair halign)
    (Tiles.singleton halign.parent)
    (by
      intro c hc
      rcases hc with hc | hc
      · rw [hc]
        exact Or.inr hb
      · exact Or.inl hc)
    (by
      intro c hc
      rw [Set.mem_singleton_iff.mp hc]
      exact hlt)
  have hbuddyOut : b.buddy ∉ out := by
    intro hmem
    exact Set.disjoint_left.mp h.apart hbuddy (Or.inr hmem)
  have hset :
      insert b.buddy (insert b out) \ {b, b.buddy} ∪ {b.parent} =
        insert b.parent out := by
    ext c
    simp only [Set.mem_union, Set.mem_sdiff, Set.mem_insert_iff,
      Set.mem_singleton_iff]
    constructor
    · intro hc
      tauto
    · intro hc
      rcases hc with hc | hc
      · exact Or.inr hc
      · refine Or.inl ⟨Or.inr (Or.inr hc), ?_⟩
        intro heq
        rcases heq with heq | heq
        · rw [heq] at hc
          exact hout hc
        · rw [heq] at hc
          exact hbuddyOut hc
  rw [hset] at hjoined
  refine ⟨hjoined, ?_⟩
  intro hparent
  have hunits : b.start ∈ b.parent.units := by
    rw [Block.parent_units halign]
    exact Or.inl b.start_mem_units
  have heq := h.tiles.disjoint b.parent b
    (Or.inr (Set.mem_insert_of_mem b hparent)) (Or.inr hb) b.start hunits
    b.start_mem_units
  have horder : b.parent.order = b.order := by rw [heq]
  exact Nat.succ_ne_self b.order horder

theorem absorb_isFree {b : Block}
    (h : ZoneInv totalPageFrames owned lists (insert b out) z)
    (hbuddy : b.buddy ∈ onLists lists) {x : Nat}
    (hx : ((absorb z b).page x).isFree = true) :
    (z.page x).isFree = true := by
  have hself := h.prev_ne_self hbuddy.left hbuddy.right
  have hunlinked : Zoned.Unlinked (z.touch b.buddy.start)
      ((z.touch b.buddy.start).unlinkFree b.buddy.start b.order)
      b.buddy.start b.order := Zoned.unlinkFree_unlinked hself
  have hflags := hunlinked.isFree_eq
  unfold absorb at hx
  rw [Zoned.page_modify] at hx
  by_cases hxb : x = b.buddy.start
  · rw [if_pos hxb] at hx
    simp [Page.isFree] at hx
  · rw [if_neg hxb, hflags] at hx
    exact hx

theorem absorb_quiet {b : Block}
    (h : ZoneInv totalPageFrames owned lists (insert b out) z)
    (hbuddy : b.buddy ∈ onLists lists) (hquiet : QuietIn region owned out z) :
    QuietIn region owned out (absorb z b) where
  outside := by
    intro x hin hx
    by_contra hfree
    have hold := h.absorb_isFree hbuddy (by simpa using hfree)
    rw [hquiet.outside x hin hx] at hold
    cases hold
  handedOut := by
    intro c hc
    by_contra hfree
    have hold := h.absorb_isFree hbuddy (by simpa using hfree)
    rw [hquiet.handedOut c hc] at hold
    cases hold

theorem buddy_region {lists : Nat -> List Nat} {z : Zoned} {b : Block}
    (h : ZoneInv totalPageFrames owned lists (insert b out) z)
    (hclosed : BuddyClosed region owned) (hlt : b.order < pmmMaxOrder) :
    b.buddy.start ∈ region := by
  have hb := Set.mem_insert b out
  exact hclosed b (h.tiles.aligned b (Or.inr hb)) hlt
    (h.tiles.units_subset (Or.inr hb) b.start_mem_units)

/-- Listed blocks begin at frames that the zone has descriptors for. -/
theorem listed_valid {lists : Nat -> List Nat} {z : Zoned} {b : Block}
    (h : ZoneInv totalPageFrames owned lists out z) (hb : b ∈ onLists lists) :
    b.start < totalPageFrames :=
  (h.valid _ (h.tiles.units_subset (Or.inl hb) b.start_mem_units)).left

theorem merge {lists : Nat -> List Nat} {z : Zoned} {b : Block}
    (h : ZoneInv totalPageFrames owned lists (insert b out) z)
    (hout : b ∉ out) (hclosed : BuddyClosed region owned)
    (hquiet : QuietIn region owned out z) :
    exists lists' m,
      (mergeUp totalPageFrames z b.start b.order).1 = m.start ∧
      (mergeUp totalPageFrames z b.start b.order).2.1 = m.order ∧
      Merged totalPageFrames owned lists lists' out z
        (mergeUp totalPageFrames z b.start b.order).2.2 b m := by
  have hregion := h.buddy_region hclosed
  by_cases hgo : b.order < pmmMaxOrder ∧ b.buddy ∈ onLists lists
  · rcases hgo with ⟨hlt, hbuddy⟩
    rcases h.mergeOnce hout hlt hbuddy with ⟨hinv, hparent⟩
    have hvalid := h.listed_valid hbuddy
    have hquietNext := h.absorb_quiet hbuddy hquiet
    rcases hinv.merge hparent hclosed hquietNext with
      ⟨lists', m, hstart, horder, hmerged⟩
    have hmark := (h.buddy_listed_iff hquiet (hregion hlt)).mp hbuddy
    rw [mergeUp_of_buddy hlt hvalid hmark]
    refine ⟨lists', m, hstart, horder, ?_⟩
    exact {
      inv := hmerged.inv
      fresh := hmerged.fresh
      subset := by
        have herase := h.onLists_erase (b := b.buddy) hbuddy.left
        intro c hc
        have hc' : c ∈ onLists lists \ {b.buddy} :=
          herase ▸ hmerged.subset hc
        exact hc'.left
      contains := by
        have hleft : b.units ⊆ b.parent.units := by
          rw [Block.parent_units
            (h.tiles.aligned b (Or.inr (Set.mem_insert b out)))]
          exact Set.subset_union_left
        exact hleft.trans hmerged.contains
      stopped := hmerged.stopped
      frame := fun x hx => h.absorb_isFree hbuddy (hmerged.frame x hx) }
  · have hnot : b.order < pmmMaxOrder -> b.buddy ∉ onLists lists :=
      fun hlt hbuddy => hgo ⟨hlt, hbuddy⟩
    rcases mergeUp_of_no_buddy (z := z) (b := b) (by
        intro hlt hmark
        exact hnot hlt
          ((h.buddy_listed_iff hquiet (hregion hlt)).mpr hmark)) with
      ⟨z', hmerge, hz'⟩
    rw [hmerge]
    refine ⟨lists, b, rfl, rfl, ?_⟩
    exact {
      inv := by
        rcases hz' with hz' | hz'
        · rw [hz']
          exact h
        · rw [hz']
          exact h.touch _
      fresh := hout
      subset := fun _ hc => hc
      contains := fun _ hx => hx
      stopped := hnot
      frame := by
        intro x hx
        rcases hz' with hz' | hz' <;> rw [hz'] at hx
        · exact hx
        · exact hx }
termination_by pmmMaxOrder - b.order
decreasing_by
  show pmmMaxOrder - (b.order + 1) < pmmMaxOrder - b.order
  omega

end ZoneInv

theorem physToPfn_pfnToPhys {pfn : Nat} (h : pfn < pageArraySize) :
    physToPfn (pfnToPhys pfn) = pfn := by
  unfold physToPfn pfnToPhys pageShift
  unfold pageArraySize at h
  rw [Nat.shiftLeft_eq, Nat.shiftRight_eq_div_pow]
  omega

theorem pfnToPhys_ne_zero {pfn : Nat} (hpos : 0 < pfn)
    (h : pfn < pageArraySize) : pfnToPhys pfn ≠ 0 := by
  unfold pfnToPhys pageShift
  unfold pageArraySize at h
  rw [Nat.shiftLeft_eq]
  omega

/-- The result of a `buddy_free` of the block `b`: it ends up inside `m`. -/
structure Freed (totalPageFrames : Nat) (owned : Set Nat)
    (lists lists' : Nat -> List Nat) (out : Set Block) (z z' : Zoned)
    (b m : Block) : Prop where
  inv : ZoneInv totalPageFrames owned lists' (out \ {b}) z'
  listed : m ∈ onLists lists'
  subset : onLists lists' ⊆ insert m (onLists lists)
  contains : b.units ⊆ m.units
  stopped : m.order < pmmMaxOrder -> m.buddy ∉ onLists lists'
  frame : forall x, x ≠ m.start ->
    (z'.page x).isFree = true -> (z.page x).isFree = true

theorem QuietIn.modify_refCount {region owned : Set Nat} {out : Set Block}
    {z : Zoned} (h : QuietIn region owned out z) (pfn : Nat) (n : UInt32) :
    QuietIn region owned out
      (z.modify pfn fun d => { d with refCount := n }) := by
  have hkeep : forall x,
      ((z.modify pfn fun d => { d with refCount := n }).page x).isFree =
        (z.page x).isFree := by
    intro x
    rw [Zoned.page_modify]
    by_cases hx : x = pfn
    · rw [if_pos hx, hx]
      rfl
    · rw [if_neg hx]
  exact {
    outside := fun x hin hx => (hkeep x).trans (h.outside x hin hx)
    handedOut := fun b hb => (hkeep b.start).trans (h.handedOut b hb) }

/-- The block that is given back, apart from the others, with no references. -/
theorem ZoneInv.dropped {totalPageFrames : Nat} {region owned : Set Nat}
    {lists : Nat -> List Nat} {out : Set Block} {z : Zoned} {b : Block}
    (h : ZoneInv totalPageFrames owned lists out z) (hb : b ∈ out)
    (hquiet : QuietIn region owned out z) :
    ZoneInv totalPageFrames owned lists (insert b (out \ {b}))
        (z.modify b.start fun d => { d with refCount := 0 }) ∧
      QuietIn region owned (out \ {b})
        (z.modify b.start fun d => { d with refCount := 0 }) := by
  have hsplit : insert b (out \ {b}) = out := by
    rw [Set.insert_sdiff_singleton, Set.insert_eq_of_mem hb]
  have hquietOut : QuietIn region owned (out \ {b}) z := {
    outside := hquiet.outside
    handedOut := fun c hc => hquiet.handedOut c hc.left }
  refine ⟨?_, hquietOut.modify_refCount b.start 0⟩
  rw [hsplit]
  exact h.modify hb _

theorem ZoneInv.freeIn {totalPageFrames : Nat} {region owned : Set Nat}
    {lists : Nat -> List Nat} {out : Set Block} {z : Zoned} {b : Block}
    (h : ZoneInv totalPageFrames owned lists out z) (hb : b ∈ out)
    (hclosed : BuddyClosed region owned) (hquiet : QuietIn region owned out z) :
    exists lists' m, Freed totalPageFrames owned lists lists' out z
      (buddyFree totalPageFrames z (pfnToPhys b.start) b.order) b m := by
  rcases h.valid _ (h.tiles.units_subset (Or.inr hb) b.start_mem_units) with
    ⟨hvalid, hsize⟩
  rcases h.dropped hb hquiet with ⟨hmodified, hquietMod⟩
  rcases hmodified.merge (fun hmem => hmem.right rfl) hclosed hquietMod with
    ⟨lists', m, hstart, horder, hmerged⟩
  have hpush := hmerged.inv.push (Set.mem_insert m _)
  rw [Set.insert_sdiff_self_of_notMem hmerged.fresh] at hpush
  have hmax := hmerged.inv.outOrder m (Set.mem_insert m _)
  have hlists := onLists_push lists' m hmax
  refine ⟨Function.update lists' m.order (m.start :: lists' m.order), m, ?_⟩
  unfold buddyFree
  rw [physToPfn_pfnToPhys hsize]
  simp only [if_pos hvalid, hstart, horder]
  exact {
    inv := hpush
    listed := by
      rw [hlists]
      exact Set.mem_insert m _
    subset := by
      rw [hlists]
      exact Set.insert_subset_insert hmerged.subset
    contains := hmerged.contains
    stopped := by
      intro hlt hmem
      rw [hlists] at hmem
      have halign := hmerged.inv.tiles.aligned m
        (Or.inr (Set.mem_insert m _))
      rcases hmem with hmem | hmem
      · exact Block.buddy_ne halign hmem
      · exact hmerged.stopped hlt hmem
    frame := by
      intro x hx hfree
      rw [Zoned.pushFree_isFree, if_neg hx] at hfree
      have hold := hmerged.frame x hfree
      rw [Zoned.page_modify] at hold
      by_cases hxb : x = b.start
      · rw [if_pos hxb] at hold
        rw [hxb]
        exact hold
      · rwa [if_neg hxb] at hold }

theorem ZoneInv.free {totalPageFrames : Nat} {owned : Set Nat}
    {lists : Nat -> List Nat} {out : Set Block} {z : Zoned} {b : Block}
    (h : ZoneInv totalPageFrames owned lists out z) (hb : b ∈ out)
    (hquiet : Quiet owned out z) :
    exists lists' m, Freed totalPageFrames owned lists lists' out z
      (buddyFree totalPageFrames z (pfnToPhys b.start) b.order) b m :=
  h.freeIn hb (fun _ _ _ _ => Set.mem_univ _) hquiet.quietIn

end Mm
end EarlnuxOS
