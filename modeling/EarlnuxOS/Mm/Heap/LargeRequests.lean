import EarlnuxOS.Mm.Heap.NoOverlap

/-!
# Requests of every size

`kmalloc` rounds a request to 16 bytes, `heap_expand` adds a header, rounds to a
page and adds the heap's end, all modulo `2 ^ 32`.  Which requests are still
answered as asked is settled by the free blocks and by where the heap ends.
-/

namespace EarlnuxOS
namespace Mm

open Foundation

/-!
# What is asked of an answer
-/

def IsLive (h : Heap) (a : Nat) : Prop :=
  IsBlock h a ∧ h.magic a = heapMagicUsed

structure SameLive (h h' : Heap) : Prop where
  blocks : forall a, IsLive h' a <-> IsLive h a
  sizes : forall a, IsLive h a -> h'.size a = h.size a
  contents : forall a, IsLive h a -> forall x, a + blockHdrSize ≤ x ->
    x < a + blockHdrSize + h.size a -> h'.mem x = h.mem x

/-- `NULL` with nothing changed, or a block of the size asked for inside the heap. -/
def Answers (h : Heap) (n p : Nat) (h' : Heap) : Prop :=
  p = 0 ∧ SameLive h h' ∨
    p ≠ 0 ∧ n ≤ h'.ksize p ∧ h.startPtr ≤ p ∧ p + n ≤ h.endPtr

/-- `kmalloc` returns, with an answer to the request. -/
def Honours (h : Heap) (n : Nat) : Prop :=
  exists p h', Heap.kmalloc callDepth h n = some (p, h') ∧ Answers h n p h'

/-- A request rounded to 16 bytes, were there no end to the numbers. -/
def rounded (n : Nat) : Nat := (n + 15) / 16 * 16

/-- The pages for a request and its header, were there no end to the numbers. -/
def expansion (n : Nat) : Nat := (rounded n + 32 + 4095) / 4096 * 4096

def HasFree (h : Heap) (n : Nat) : Prop :=
  exists a, IsBlock h a ∧ h.magic a = heapMagicFree ∧ rounded n ≤ h.size a

/--
The requests that are answered as asked: nothing, sizes whose pages do not wrap
round the address space or that a free block has room for, and the sizes
that wrap to no more than a page on the way to a refusal.
-/
def Fits (h : Heap) (n : Nat) : Prop :=
  n = 0 ∨
    (n ≤ 2 ^ 32 - 32 ∧ (HasFree h n ∨ h.brk + expansion n < 2 ^ 32)) ∨
    (2 ^ 32 - 32 < n ∧ n ≤ 2 ^ 32 - 16) ∨
    (2 ^ 32 - 16 < n ∧ h.freeList = 0)

/-!
# Rounding
-/

theorem align_request {n : Nat} (hn : n ≤ 2 ^ 32 - 16) :
    (alignUp (UInt32.ofNat n) heapAlign).toNat = rounded n := by
  rw [toNat_alignUp (k := 4) _ (by decide) (by decide),
    UInt32.toNat_ofNat_of_lt' (by show n < 2 ^ 32; omega),
    Nat.mod_eq_of_lt (by omega)]
  rfl

theorem align_request_wraps {n : Nat} (hlow : 2 ^ 32 - 16 < n)
    (hn : n < 2 ^ 32) :
    (alignUp (UInt32.ofNat n) heapAlign).toNat = 0 := by
  rw [toNat_alignUp (k := 4) _ (by decide) (by decide),
    UInt32.toNat_ofNat_of_lt' hn]
  omega

theorem rounded_bounds (n : Nat) : n ≤ rounded n ∧ rounded n ≤ n + 15 := by
  unfold rounded
  omega

theorem expansion_bounds (n : Nat) :
    rounded n + 32 ≤ expansion n ∧ expansion n ≤ rounded n + 32 + 4095 := by
  unfold expansion
  omega

theorem align_rounded {n : Nat} (hn : n ≤ 2 ^ 32 - 16) :
    (alignUp (UInt32.ofNat (rounded n)) heapAlign).toNat = rounded n := by
  rw [align_request (by unfold rounded; omega)]
  unfold rounded
  omega

theorem align_expansion {n : Nat} (hn : n ≤ 2 ^ 32 - 32) :
    (alignUp (UInt32.ofNat (add32 (rounded n) blockHdrSize)) pageSize).toNat =
      expansion n % 2 ^ 32 := by
  have hsum : add32 (rounded n) blockHdrSize < 2 ^ 32 :=
    Nat.mod_lt _ (by decide)
  rw [toNat_alignUp (k := 12) _ (by decide) (by decide),
    UInt32.toNat_ofNat_of_lt' hsum]
  unfold add32 blockHdrSize expansion
  have hrounded : rounded n ≤ 2 ^ 32 - 32 := by
    unfold rounded
    omega
  omega

namespace Heap

/-!
# The bounds of the heap
-/

def SameBounds (h h' : Heap) : Prop :=
  h'.startPtr = h.startPtr ∧ h'.endPtr = h.endPtr

theorem SameBounds.trans {h h' h'' : Heap} (hfirst : SameBounds h h')
    (hsecond : SameBounds h' h'') : SameBounds h h'' :=
  ⟨hsecond.1.trans hfirst.1, hsecond.2.trans hfirst.2⟩

theorem sameBounds_pushFree (h : Heap) (blk : Nat) :
    SameBounds h (h.pushFree blk) :=
  ⟨(HeapInv.heap_pushFree h blk).1, (HeapInv.heap_pushFree h blk).2.1⟩

theorem sameBounds_freeListRemove (h : Heap) (blk : Nat) :
    SameBounds h (h.freeListRemove blk) :=
  ⟨(HeapInv.heap_freeListRemove h blk).1,
    (HeapInv.heap_freeListRemove h blk).2.1⟩

theorem sameBounds_maybeSplit (h : Heap) (blk size : Nat) :
    SameBounds h (h.maybeSplit blk size) :=
  ⟨(HeapInv.heap_maybeSplit h blk size).1,
    (HeapInv.heap_maybeSplit h blk size).2.1⟩

theorem sameBounds_heapExpand (h : Heap) (size : Nat) :
    SameBounds h (h.heapExpand size).2 := by
  unfold Heap.heapExpand
  dsimp only
  split
  · exact ⟨rfl, rfl⟩
  · have hkeep := HeapInv.heap_pushFree
    exact ⟨(hkeep _ _).1, (hkeep _ _).2.1⟩

theorem sameBounds_takeBlock (h : Heap) (blk size : Nat) :
    SameBounds h (h.takeBlock blk size).2 := by
  have hremove := h.sameBounds_freeListRemove blk
  have hsplit := (h.freeListRemove blk).sameBounds_maybeSplit blk size
  have hboth := hremove.trans hsplit
  unfold takeBlock
  dsimp only
  -- the magic word and the counters are no part of the bounds
  generalize (h.freeListRemove blk).maybeSplit blk size = g at hboth ⊢
  exact hboth

theorem sameBounds_kmalloc {depth : Nat} {h h' : Heap} {n p : Nat}
    (hrun : Heap.kmalloc depth h n = some (p, h')) : SameBounds h h' := by
  induction depth generalizing h n with
  | zero => cases hrun
  | succ depth ih =>
      rw [Heap.kmalloc] at hrun
      split at hrun
      · cases hrun
        exact ⟨rfl, rfl⟩
      · dsimp only at hrun
        split at hrun
        · cases hrun
        · split at hrun
          · have hexpand := h.sameBounds_heapExpand
              (alignUp (UInt32.ofNat n) heapAlign).toNat
            split at hrun
            · cases hrun
              exact hexpand
            · have hrest := ih hrun
              exact ⟨hrest.1.trans hexpand.1, hrest.2.trans hexpand.2⟩
          · cases hrun
            exact h.sameBounds_takeBlock _ _

/-!
# What an expansion leaves alone
-/

theorem mem_set (h : Heap) (field : HdrField) {blk x : Nat} (v : Nat)
    (hx : x < blk ∨ blk + 20 ≤ x) : (h.set field blk v).mem x = h.mem x := by
  have hfield := field.offset_le
  exact store32_apply_of_not_mem h.mem v (by omega)

theorem mem_pushFree (h : Heap) {blk x : Nat} (hx : x < blk ∨ blk + 20 ≤ x)
    (hhead : h.freeList = 0 ∨ x < h.freeList ∨ h.freeList + 20 ≤ x) :
    (h.pushFree blk).mem x = h.mem x := by
  unfold pushFree
  dsimp only
  split
  · exact (mem_set _ _ _ hx).trans (mem_set _ _ _ hx)
  · rename_i hne
    exact (mem_set _ _ _ (hhead.resolve_left hne)).trans
      ((mem_set _ _ _ hx).trans (mem_set _ _ _ hx))

theorem mem_heapExpand (h : Heap) (size : Nat) {x : Nat} (hx : x < h.brk)
    (hhead : h.freeList = 0 ∨ x < h.freeList ∨ h.freeList + 20 ≤ x) :
    (h.heapExpand size).2.mem x = h.mem x := by
  unfold heapExpand
  dsimp only
  split
  · rfl
  · refine (mem_pushFree (((Heap.setMagic { h with brk := _ } h.brk _).setSize
      h.brk _).setPrevPhys h.brk 0) (Or.inl hx) hhead).trans ?_
    exact (mem_set _ _ _ (Or.inl hx)).trans
      ((mem_set _ _ _ (Or.inl hx)).trans (mem_set _ _ _ (Or.inl hx)))

end Heap

/-!
# Live blocks
-/

theorem SameLive.refl (h : Heap) : SameLive h h :=
  ⟨fun _ => Iff.rfl, fun _ _ => rfl, fun _ _ _ _ _ => rfl⟩

theorem SameLive.trans {h h' h'' : Heap} (hfirst : SameLive h h')
    (hsecond : SameLive h' h'') : SameLive h h'' where
  blocks a := (hsecond.blocks a).trans (hfirst.blocks a)
  sizes a ha :=
    (hsecond.sizes a ((hfirst.blocks a).mpr ha)).trans (hfirst.sizes a ha)
  contents := by
    intro a ha x hlow hhigh
    have ha' := (hfirst.blocks a).mpr ha
    rw [← hfirst.contents a ha x hlow hhigh]
    rw [← hfirst.sizes a ha] at hhigh
    exact hsecond.contents a ha' x hlow hhigh

namespace HeapInv

variable {bs bs' : List (Nat × Tag)} {fl fl' : List Nat} {h h' : Heap}

theorem isLive (hi : HeapInv bs fl h) {a : Nat} :
    IsLive h a <-> exists t, (a, t) ∈ bs ∧ t.magic = heapMagicUsed := by
  unfold IsLive
  rw [hi.isBlock]
  constructor
  · rintro ⟨⟨t, ht⟩, hmagic⟩
    exact ⟨t, ht, (hi.read ht).left.symm.trans hmagic⟩
  · rintro ⟨t, ht, hmagic⟩
    exact ⟨⟨t, ht⟩, (hi.read ht).left.trans hmagic⟩

theorem sameLive (hi : HeapInv bs fl h) (hi' : HeapInv bs' fl' h')
    (hsame : SameUsed bs bs')
    (hmem : forall a t, (a, t) ∈ bs -> t.magic = heapMagicUsed -> forall x,
      a + blockHdrSize ≤ x -> x < a + blockHdrSize + t.size ->
        h'.mem x = h.mem x) :
    SameLive h h' where
  blocks a := by
    rw [hi.isLive, hi'.isLive]
    exact exists_congr fun t => and_congr_left fun ht => hsame (a, t) ht
  sizes a ha := by
    rcases hi.isLive.mp ha with ⟨t, ht, hmagic⟩
    rw [(hi.read ht).2.1, (hi'.read ((hsame (a, t) hmagic).mpr ht)).2.1]
  contents a ha := by
    rcases hi.isLive.mp ha with ⟨t, ht, hmagic⟩
    rw [(hi.read ht).2.1]
    exact hmem a t ht hmagic

end HeapInv

namespace HeapOk

variable {bs : List (Nat × Tag)} {fl : List Nat} {h : Heap}

theorem head_free (hok : HeapOk bs fl h) (hne : h.freeList ≠ 0) :
    h.freeList ∈ fl := by
  rcases hok.inv.headers with ⟨H, _, hh⟩
  have hlinks := hh.links
  have hhead : h.head = some h.freeList :=
    toPtr_of_pos (Nat.pos_of_ne_zero hne)
  rw [hhead] at hlinks
  rcases hlinks.mem_of_head with ⟨rest, hfl⟩
  rw [hfl]
  exact List.mem_cons_self

theorem sameLive_expand (hok : HeapOk bs fl h) {size n : Nat}
    (hi : HeapInv (bs ++ [(h.brk, ⟨n, heapMagicFree, 0, true⟩)]) (h.brk :: fl)
      (h.heapExpand size).2) :
    SameLive h (h.heapExpand size).2 := by
  refine hok.inv.sameLive hi (sameUsed_expand bs h.brk n) ?_
  intro a t ht hmagic x hlow hhigh
  have hbounds := hok.inv.bounds ht
  apply Heap.mem_heapExpand _ _ (by omega)
  by_cases hhead : h.freeList = 0
  · exact Or.inl hhead
  · right
    rcases hok.inv.mem_free.mp (hok.head_free hhead) with ⟨u, hu, _⟩
    have hapart := hok.inv.layout.payload_apart ht hu
    unfold blockHdrSize at *
    omega

/-!
# Requests that are refused
-/

theorem brk_lt_expand {h' : Heap} {n : Nat}
    (hi' : HeapInv (bs ++ [(h.brk, ⟨n, heapMagicFree, 0, true⟩)]) (h.brk :: fl)
      h') : h.brk + blockHdrSize ≤ h'.brk := by
  have hbounds := hi'.bounds (a := h.brk) (t := ⟨n, heapMagicFree, 0, true⟩)
    (List.mem_append_right _ List.mem_cons_self)
  omega

/-- Where a request grows the heap by a page each time, it is refused in the end. -/
theorem refused_by_pages (depth : Nat) (hok : HeapOk bs fl h) {n : Nat}
    (hlow : 2 ^ 32 - 32 < n) (hn : n ≤ 2 ^ 32 - 16)
    (hdepth : h.endPtr - h.brk < blockHdrSize * depth) :
    exists h' bs' fl', Heap.kmalloc (depth + 1) h n = some (0, h') ∧
      HeapOk bs' fl' h' ∧ Grown bs h bs' h' ∧ SameLive h h' := by
  induction depth generalizing bs fl h n with
  | zero => exact absurd hdepth (Nat.not_lt_zero _)
  | succ depth ih =>
      have hrounded : rounded n = 2 ^ 32 - 16 := by
        unfold rounded
        omega
      have hsize := align_request hn
      rw [hrounded] at hsize
      have hnone : h.firstFit (2 ^ 32 - 16) Heap.walkSteps h.freeList =
          some 0 := by
        rcases hok.inv.firstFit (2 ^ 32 - 16) with
          ⟨r, hr, ⟨hnull, _⟩ | ⟨hfl, _, _, hfit⟩⟩
        · rw [hr, hnull]
        · rcases hok.inv.mem_free.mp hfl with ⟨t, ht, _⟩
          have hbounds := hok.inv.bounds ht
          have hbrk := hok.inv.brk_lt
          rw [(hok.inv.read ht).2.1] at hfit
          omega
      -- the header wraps the size to 16, which makes a page
      have hpage : h.heapExpand (2 ^ 32 - 16) = h.heapExpand 0 := rfl
      have hrun := Heap.kmalloc_of_none (depth + 1) (by omega : n ≠ 0) hsize
        hnone
      rw [hpage] at hrun
      rcases hok.inv.expand (Nat.zero_le kernelHeapSize) with
        hfull | ⟨m, _, hptr, _, hi⟩
      · refine ⟨h, bs, fl, ?_, hok, Grown.refl bs h, SameLive.refl h⟩
        rw [hrun, hfull]
        exact if_pos rfl
      · have hbrk : h.brk ≠ 0 := by
          have hle := hok.inv.layout.le
          have hstart := hok.inv.start_pos
          omega
        have hend := (h.sameBounds_heapExpand 0).2
        have hgrown := brk_lt_expand hi
        have hlive := hok.sameLive_expand hi
        rcases ih (hok.expand hi) (by decide : 2 ^ 32 - 32 < 2 ^ 32 - 16)
            (Nat.le_refl _) (by
          have hle := hi.brk_le
          rw [hend] at hle ⊢
          unfold blockHdrSize at *
          omega) with ⟨h', bs', fl', hrest, hok', hgrown, hlive'⟩
        refine ⟨h', bs', fl', ?_, hok', Grown.page hi hgrown,
          hlive.trans hlive'⟩
        rw [hrun, if_neg (by rw [hptr]; exact hbrk)]
        exact hrest

/-- With no free block, a request that wraps to nothing adds a page at most. -/
theorem refused_by_wrapping (depth : Nat) (hok : HeapOk bs fl h) {n : Nat}
    (hlow : 2 ^ 32 - 16 < n) (hn : n < 2 ^ 32) (hempty : h.freeList = 0) :
    exists h' bs' fl', Heap.kmalloc (depth + 2) h n = some (0, h') ∧
      HeapOk bs' fl' h' ∧ Grown bs h bs' h' ∧ SameLive h h' := by
  have hsize := align_request_wraps hlow hn
  have hnone : h.firstFit 0 Heap.walkSteps h.freeList = some 0 := by
    rw [hempty]
    rfl
  have hrun := Heap.kmalloc_of_none (depth + 1) (by omega : n ≠ 0) hsize hnone
  rcases hok.inv.expand (Nat.zero_le kernelHeapSize) with
    hfull | ⟨m, _, _, _, hi⟩
  · refine ⟨h, bs, fl, ?_, hok, Grown.refl bs h, SameLive.refl h⟩
    rw [hrun, hfull]
    exact if_pos rfl
  · refine ⟨_, _, _, ?_, hok.expand hi, Grown.page hi (Grown.refl _ _),
      hok.sameLive_expand hi⟩
    rw [hrun, Heap.kmalloc_zero]
    split
    · rfl
    · rfl

theorem small_of_granted (depth : Nat) (hok : HeapOk bs fl h) {n r : Nat}
    {h' : Heap} (hn : n < 2 ^ 32) (hsize : n ≤ 2 ^ 32 - 16 ∨ h.freeList = 0)
    (hrun : Heap.kmalloc (depth + 2) h n = some (r, h')) (hr : r ≠ 0) :
    n ≤ 2 ^ 32 - 16 := by
  rcases hsize with hsmall | hempty
  · exact hsmall
  · by_contra hlarge
    rcases hok.refused_by_wrapping depth (Nat.not_le.mp hlarge) hn hempty with
      ⟨h1, _, _, hrefused, _⟩
    rw [hrun] at hrefused
    exact hr (congrArg Prod.fst (Option.some.inj hrefused))

/-- A request for more than the heap can hold is refused, unless its pages wrap. -/
theorem refused_by_size (depth : Nat) (hok : HeapOk bs fl h)
    (hregion : h.endPtr = h.startPtr + kernelHeapSize) {n : Nat}
    (hlow : kernelHeapSize < n) (hn : n ≤ 2 ^ 32 - 32)
    (hpages : h.brk + expansion n < 2 ^ 32) :
    Heap.kmalloc (depth + 1) h n = some (0, h) := by
  have hle := hok.inv.layout.le
  have hbrk := hok.inv.brk_le
  have hrounded := rounded_bounds n
  have hexpansion := expansion_bounds n
  have hnone : h.firstFit (rounded n) Heap.walkSteps h.freeList = some 0 := by
    rcases hok.inv.firstFit (rounded n) with
      ⟨r, hr, ⟨hnull, _⟩ | ⟨hfl, _, _, hfit⟩⟩
    · rw [hr, hnull]
    · rcases hok.inv.mem_free.mp hfl with ⟨t, ht, _⟩
      have hbounds := hok.inv.bounds ht
      rw [(hok.inv.read ht).2.1] at hfit
      omega
  have hfull : h.heapExpand (rounded n) = (0, h) := by
    unfold Heap.heapExpand
    dsimp only
    rw [align_expansion hn, Nat.mod_eq_of_lt (by omega),
      add32_of_lt hpages, if_pos (by omega)]
  rw [Heap.kmalloc_of_none depth (by omega) (align_request (by omega)) hnone,
    hfull]
  exact if_pos rfl

/-!
# Requests that fit
-/

theorem kmalloc_of_fits (hok : HeapOk bs fl h)
    (hregion : h.endPtr = h.startPtr + kernelHeapSize) {n : Nat}
    (hn : n < 2 ^ 32) (hfits : Fits h n) :
    exists p h' bs' fl', Heap.kmalloc callDepth h n = some (p, h') ∧
      HeapOk bs' fl' h' ∧ Allocated bs bs' n p ∧ (p = 0 -> SameLive h h') := by
  have hdepth : callDepth = callDepth - 2 + 2 := by decide
  rw [hdepth]
  rcases hfits with rfl | ⟨hsmall, hroom⟩ | ⟨hlow, hhigh⟩ | ⟨hlow, hempty⟩
  · exact ⟨0, h, bs, fl, Heap.kmalloc_zero _ h, hok,
      Or.inl ⟨rfl, fun _ _ => Iff.rfl⟩, fun _ => SameLive.refl h⟩
  · by_cases hheap : n ≤ kernelHeapSize
    · by_cases hzero : n = 0
      · rw [hzero]
        exact ⟨0, h, bs, fl, Heap.kmalloc_zero _ h, hok,
          Or.inl ⟨rfl, fun _ _ => Iff.rfl⟩, fun _ => SameLive.refl h⟩
      · rcases hok.kmalloc (callDepth - 2) (Nat.pos_of_ne_zero hzero) hheap with
          ⟨p, h', bs', fl', hrun, hok', halloc, hsame⟩
        refine ⟨p, h', bs', fl', hrun, hok', halloc, fun hp => ?_⟩
        rw [hsame hp]
        exact SameLive.refl h
    · have hpages : h.brk + expansion n < 2 ^ 32 := by
        rcases hroom with ⟨a, hblock, _, hfit⟩ | hpages
        · rcases hok.inv.isBlock.mp hblock with ⟨t, ht⟩
          have hbounds := hok.inv.bounds ht
          have hbrk := hok.inv.brk_le
          have hrounded := rounded_bounds n
          rw [(hok.inv.read ht).2.1] at hfit
          omega
        · exact hpages
      exact ⟨0, h, bs, fl, hok.refused_by_size _ hregion (by omega) hsmall
        hpages, hok, Or.inl ⟨rfl, fun _ _ => Iff.rfl⟩,
        fun _ => SameLive.refl h⟩
  · have hpages : h.endPtr - h.brk < blockHdrSize * (callDepth - 2 + 1) := by
      have hroom := hok.inv.room
      unfold blockHdrSize callDepth
      omega
    rcases hok.refused_by_pages _ hlow hhigh hpages with
      ⟨h', bs', fl', hrun, hok', hgrown, hlive⟩
    exact ⟨0, h', bs', fl', hrun, hok', Or.inl ⟨rfl, hgrown.used⟩,
      fun _ => hlive⟩
  · rcases hok.refused_by_wrapping (callDepth - 2) hlow hn hempty with
      ⟨h', bs', fl', hrun, hok', hgrown, hlive⟩
    exact ⟨0, h', bs', fl', hrun, hok', Or.inl ⟨rfl, hgrown.used⟩,
      fun _ => hlive⟩

theorem honours_of_fits (hok : HeapOk bs fl h)
    (hregion : h.endPtr = h.startPtr + kernelHeapSize) {n : Nat}
    (hn : n < 2 ^ 32) (hfits : Fits h n) : Honours h n := by
  rcases hok.kmalloc_of_fits hregion hn hfits with
    ⟨p, h', bs', fl', hrun, hok', halloc, hlive⟩
  refine ⟨p, h', hrun, ?_⟩
  rcases halloc with ⟨hp, _⟩ | ⟨a, t, hp, ht, hle, _, hused⟩
  · exact Or.inl ⟨hp, hlive hp⟩
  · have hmem : (a, t) ∈ bs' := (hused (a, t) ht).mpr (Or.inr rfl)
    have hbounds := hok'.inv.bounds hmem
    have hbrk := hok'.inv.brk_le
    have hsize := hok'.inv.ksize_used hmem ht
    rcases Heap.sameBounds_kmalloc hrun with ⟨hstart, hend⟩
    rw [hstart] at hbounds
    rw [hend] at hbrk
    unfold blockHdrSize at *
    refine Or.inr ⟨by omega, ?_, by omega, by omega⟩
    rw [hp, hsize]
    exact hle

/-!
# Requests that do not fit
-/

theorem not_honours {n p : Nat} {h' : Heap}
    (hrun : Heap.kmalloc callDepth h n = some (p, h')) (hp : p ≠ 0)
    (hend : h.endPtr < p + n) : ¬ Honours h n := by
  rintro ⟨q, g, hq, hanswers⟩
  rw [hrun] at hq
  cases hq
  rcases hanswers with ⟨hnull, _⟩ | ⟨_, _, _, hinside⟩
  · exact hp hnull
  · omega

/-- A size that wraps to nothing is taken from the first free block. -/
theorem not_honours_of_wrapping (hok : HeapOk bs fl h) {n : Nat}
    (hlow : 2 ^ 32 - 16 < n) (hn : n < 2 ^ 32) (hne : h.freeList ≠ 0) :
    ¬ Honours h n := by
  have hhead := hok.head_free hne
  rcases hok.inv.firstFit 0 with ⟨r, hr, ⟨_, hnone⟩ | ⟨hfl, hpos, _, _⟩⟩
  · exact absurd ⟨hok.magic_free hhead, Nat.zero_le _⟩ (hnone _ hhead)
  · rcases hok.inv.mem_free.mp hfl with ⟨t, ht, _⟩
    have hbounds := hok.inv.bounds ht
    have hbrk := hok.inv.brk_lt
    have hroom := hok.inv.room
    have hptr : (h.takeBlock r 0).1 = r + blockHdrSize :=
      add32_of_lt (by omega)
    have hrun := Heap.kmalloc_of_found (callDepth - 1) (by omega : n ≠ 0)
      (align_request_wraps hlow hn) hr hpos
    unfold blockHdrSize kernelHeapSize at *
    refine not_honours (p := (h.takeBlock r 0).1) hrun ?_ ?_
    · omega
    · omega

/-- Pages that wrap pass the test against the end, and leave a block of any size. -/
theorem expand_wraps (hok : HeapOk bs fl h) {n : Nat} (hn : n ≤ 2 ^ 32 - 32)
    (hpages : 2 ^ 32 ≤ h.brk + expansion n) :
    (h.heapExpand (rounded n)).1 = h.brk ∧
      (h.heapExpand (rounded n)).2.freeList = h.brk ∧
      (h.heapExpand (rounded n)).2.magic h.brk = heapMagicFree ∧
      rounded n ≤ (h.heapExpand (rounded n)).2.size h.brk := by
  have hbrk := hok.inv.brk_lt
  have hend := hok.inv.brk_le
  have hexpansion : rounded n + 32 ≤ expansion n ∧ expansion n ≤ 2 ^ 32 := by
    unfold expansion rounded
    omega
  generalize hE : expansion n % 2 ^ 32 = expand
  have hexpand := align_expansion hn
  rw [hE] at hexpand
  have hfits : ¬ h.endPtr < add32 h.brk expand := by
    unfold add32
    omega
  have hsize : rounded n ≤ sub32 expand blockHdrSize := by
    unfold sub32 blockHdrSize
    omega
  have hsizeLt : sub32 expand blockHdrSize < 2 ^ 32 := Nat.mod_lt _ (by decide)
  have hheads : h.freeList = 0 ∨ h.freeList = h.brk ∨
      HdrApart h.freeList h.brk := by
    by_cases hhead : h.freeList = 0
    · exact Or.inl hhead
    · rcases hok.inv.mem_free.mp (hok.head_free hhead) with ⟨u, hu, _⟩
      have hbounds := hok.inv.bounds hu
      unfold blockHdrSize at hbounds
      exact Or.inr (Or.inr (Or.inl (by omega)))
  have hheadLt : h.freeList < 2 ^ 32 := by
    by_cases hhead : h.freeList = 0
    · omega
    · rcases hok.inv.mem_free.mp (hok.head_free hhead) with ⟨u, hu, _⟩
      have hbounds := hok.inv.bounds hu
      omega
  unfold Heap.heapExpand
  dsimp only
  rw [hexpand, if_neg hfits]
  generalize hg : ((Heap.setMagic { h with brk := add32 h.brk expand } h.brk
    heapMagicFree).setSize h.brk (sub32 expand blockHdrSize)).setPrevPhys h.brk
      0 = g
  have hlist : g.freeList = h.freeList := by
    rw [← hg]
    rfl
  have hmagic : g.magic h.brk = heapMagicFree := by
    rw [← hg]
    exact (Heap.get_set_of_ne _ (by decide) (Or.inl rfl) (by decide)).trans
      ((Heap.get_set_of_ne _ (by decide) (Or.inl rfl) hsizeLt).trans
        ((Heap.get_set_self _ _ (Or.inl rfl) heapMagicFree_lt).trans
          (if_pos rfl)))
  have hblock : g.size h.brk = sub32 expand blockHdrSize := by
    rw [← hg]
    exact (Heap.get_set_of_ne _ (by decide) (Or.inl rfl) (by decide)).trans
      ((Heap.get_set_self _ _ (Or.inl rfl) hsizeLt).trans (if_pos rfl))
  have hpush := fun f => Heap.get_pushFree g f (Or.inl (rfl : h.brk = h.brk))
    (by rw [hlist]; exact hheads) (by omega) (by rw [hlist]; exact hheadLt)
  refine ⟨rfl, rfl, ?_, ?_⟩
  · have hread := hpush HdrField.magic
    simp only [reduceCtorEq, false_and, if_false] at hread
    exact hread.trans hmagic
  · have hread := hpush HdrField.size
    simp only [reduceCtorEq, false_and, if_false] at hread
    exact hsize.trans_eq (hread.trans hblock).symm

/-- Where the pages wrap and no free block is large enough, the answer is too large. -/
theorem not_honours_of_pages (hok : HeapOk bs fl h) {n : Nat} (hpos : n ≠ 0)
    (hn : n ≤ 2 ^ 32 - 32) (hfree : ¬ HasFree h n)
    (hpages : 2 ^ 32 ≤ h.brk + expansion n) : ¬ Honours h n := by
  have hrounded := rounded_bounds n
  have hexpansion := expansion_bounds n
  have hnone : h.firstFit (rounded n) Heap.walkSteps h.freeList = some 0 := by
    rcases hok.inv.firstFit (rounded n) with
      ⟨r, hr, ⟨hnull, _⟩ | ⟨hfl, _, hmagic, hfit⟩⟩
    · rw [hr, hnull]
    · rcases hok.inv.mem_free.mp hfl with ⟨t, ht, _⟩
      exact absurd ⟨r, hok.inv.isBlock.mpr ⟨t, ht⟩, hmagic, hfit⟩ hfree
  rcases hok.expand_wraps hn hpages with ⟨hptr, hhead, hmagic, hfit⟩
  have hbrk := hok.inv.brk_lt
  have hroom := hok.inv.room
  have hne : h.brk ≠ 0 := by
    have hle := hok.inv.layout.le
    have hstart := hok.inv.start_pos
    omega
  have hfound : (h.heapExpand (rounded n)).2.firstFit (rounded n)
      Heap.walkSteps (h.heapExpand (rounded n)).2.freeList = some h.brk :=
    Heap.firstFit_head hhead hne hmagic hfit
  have hretry := Heap.kmalloc_of_found (callDepth - 2)
    (by omega : rounded n ≠ 0) (align_rounded (by omega)) hfound hne
  have hrun := Heap.kmalloc_of_none (callDepth - 1) hpos
    (align_request (by omega)) hnone
  rw [hptr, if_neg hne] at hrun
  have hptr' : add32 h.brk blockHdrSize = h.brk + 32 :=
    add32_of_lt (by unfold blockHdrSize; omega)
  unfold kernelHeapSize at hroom
  refine not_honours (p := add32 h.brk blockHdrSize) (hrun.trans hretry) ?_ ?_
  · omega
  · omega

theorem honours_iff (hok : HeapOk bs fl h)
    (hregion : h.endPtr = h.startPtr + kernelHeapSize) {n : Nat}
    (hn : n < 2 ^ 32) : Honours h n <-> Fits h n := by
  constructor
  · intro h
    by_contra hnot
    unfold Fits at hnot
    rw [not_or, not_or, not_or] at hnot
    rcases hnot with ⟨hpos, hsmall, hmiddle, hlarge⟩
    by_cases hle : n ≤ 2 ^ 32 - 32
    · have hrest : ¬ (HasFree _ n ∨ _) := fun hor => hsmall ⟨hle, hor⟩
      rw [not_or, Nat.not_lt] at hrest
      exact hok.not_honours_of_pages hpos hle hrest.1 hrest.2 h
    · have hlow : 2 ^ 32 - 16 < n := by omega
      exact hok.not_honours_of_wrapping hlow hn
        (fun hempty => hlarge ⟨hlow, hempty⟩) h
  · exact hok.honours_of_fits hregion hn

end HeapOk

/-!
# Runs
-/

namespace Heap

theorem sameBounds_coalesceNext (h : Heap) (blk : Nat) :
    SameBounds h (h.coalesceNext blk) := by
  unfold coalesceNext
  dsimp only
  split
  · have hremove := h.sameBounds_freeListRemove
      (add32 (add32 blk blockHdrSize) (h.size blk))
    generalize h.freeListRemove _ = g at hremove ⊢
    exact hremove
  · exact ⟨rfl, rfl⟩

theorem sameBounds_coalescePrev (h : Heap) (blk : Nat) :
    SameBounds h (h.coalescePrev blk) := by
  unfold coalescePrev
  dsimp only
  split
  · have hremove := h.sameBounds_freeListRemove (h.prevPhys blk)
    generalize h.freeListRemove _ = g at hremove ⊢
    exact SameBounds.trans hremove (sameBounds_pushFree _ _)
  · exact h.sameBounds_pushFree _

theorem sameBounds_kfree (h : Heap) (p : Nat) : SameBounds h (h.kfree p) := by
  unfold kfree
  split
  · exact ⟨rfl, rfl⟩
  · dsimp only
    split
    · exact ⟨rfl, rfl⟩
    · refine SameBounds.trans ?_ (sameBounds_coalescePrev _ _)
      refine SameBounds.trans ?_ (sameBounds_coalesceNext _ _)
      exact ⟨rfl, rfl⟩

end Heap

/-- The operations of a run that keeps the heap sound: requests that fit, and the others as before. -/
def HeapOp.Sound (s : HeapState) : HeapOp -> Prop
  | HeapOp.kmalloc n => n < 2 ^ 32 ∧ Fits s.heap n
  | HeapOp.kfree p =>
      HeapOp.Valid s (HeapOp.kfree p) ∧ HeapOp.BackSound s (HeapOp.kfree p)
  | HeapOp.write a v => HeapOp.Valid s (HeapOp.write a v)

/-- The invariant of such a run, for a heap of the kernel's size. -/
def KernelHeap (s : HeapState) : Prop :=
  (exists bs fl, LiveInv bs fl s) ∧
    s.heap.endPtr = s.heap.startPtr + kernelHeapSize

theorem KernelHeap.exec {s : HeapState} {o : HeapOp} (h : KernelHeap s)
    (hsound : o.Sound s) : KernelHeap (s.exec o) := by
  rcases h with ⟨⟨bs, fl, hl⟩, hregion⟩
  cases o with
  | kmalloc n =>
      rcases hl.ok.kmalloc_of_fits hregion hsound.1 hsound.2 with
        ⟨p, h', bs', fl', hrun, hok', halloc, _⟩
      have hbounds := Heap.sameBounds_kmalloc hrun
      refine ⟨⟨bs', fl', hl.allocated hrun hok' halloc⟩, ?_⟩
      unfold HeapState.exec
      dsimp only
      rw [hrun]
      exact hbounds.2.trans (hregion.trans (by rw [hbounds.1]))
  | kfree p =>
      have hbounds := s.heap.sameBounds_kfree p
      refine ⟨hl.exec_kfree hsound.1 hsound.2, ?_⟩
      exact hbounds.2.trans (hregion.trans (by
        rw [← hbounds.1]
        rfl))
  | write a v => exact ⟨⟨bs, fl, hl.exec_write v hsound⟩, hregion⟩

theorem kernelHeap_start (mem : Memory) :
    KernelHeap (heapStart mem kernelHeapStart kernelHeapSize) := by
  refine ⟨liveInv_heapStart mem heapRegion_kernel, ?_⟩
  have hsum : add32 kernelHeapStart kernelHeapSize =
      kernelHeapStart + kernelHeapSize := by decide
  unfold heapStart Heap.heapInit
  dsimp only
  rw [(Heap.sameBounds_heapExpand _ _).1, (Heap.sameBounds_heapExpand _ _).2]
  exact hsum

theorem kmalloc_honours_iff (mem : Memory) {s : HeapState}
    (hreach : Reachable HeapState.exec (fun s o => o.Sound s)
      (heapStart mem kernelHeapStart kernelHeapSize) s)
    {n : Nat} (hn : n < 2 ^ 32) : Honours s.heap n <-> Fits s.heap n := by
  have hinv : KernelHeap s :=
    hreach.invariant (kernelHeap_start mem) fun _ _ h hsound => h.exec hsound
  rcases hinv with ⟨⟨bs, fl, hl⟩, hregion⟩
  exact hl.ok.honours_iff hregion hn

/-- After two requests and a `kfree`. -/
theorem kmalloc_honours_iff_plainRun :
    Honours (run HeapState.exec kernelHeap plainRun).heap 100 <->
      Fits (run HeapState.exec kernelHeap plainRun).heap 100 := by
  refine kmalloc_honours_iff (fun _ => 0)
    ⟨plainRun, ⟨⟨by decide, ?_⟩, ⟨by decide, ?_⟩, ⟨?_, ?_⟩, trivial⟩, rfl⟩
    (by decide)
  · exact Or.inr (Or.inl ⟨by decide, Or.inr (by decide +kernel)⟩)
  · exact Or.inr (Or.inl ⟨by decide, Or.inr (by decide +kernel)⟩)
  · show kernelHeapStart + 32 ∈ HeapState.live _
    decide +kernel
  · exact Or.inl (by decide +kernel)

/-- `kmalloc(0xFFFFFFFF)` hands out the first free block. -/
theorem kmalloc_wraps :
    ¬ forall s, Reachable HeapState.exec (fun s o => o.Valid s ∧ o.BackSound s)
        kernelHeap s ->
      forall n, n < 2 ^ 32 -> Honours s.heap n := by
  intro hclaim
  rcases (kernelHeap_start fun _ => 0).1 with ⟨bs, fl, hl⟩
  exact hl.ok.not_honours_of_wrapping (by decide : 2 ^ 32 - 16 < 2 ^ 32 - 1)
    (by decide) (by decide)
    (hclaim _ (Reachable.refl _ _ _) (2 ^ 32 - 1) (by decide))

end Mm
end EarlnuxOS
