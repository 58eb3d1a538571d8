import EarlnuxOS.Mm.Heap.LargeRequests

/-!
# Reallocation

`krealloc` allocates, copies and frees.  All that the three write is headers of
blocks and the new payload, and a `prev_phys` that was right before the call
still is, or points at the block that the call has just taken.
-/

namespace EarlnuxOS
namespace Mm

open Foundation

def OffHeaders (bs : List (Nat × Tag)) (x : Nat) : Prop :=
  forall a t, (a, t) ∈ bs -> x < a ∨ a + blockHdrSize ≤ x

theorem OffHeaders.retag {before after after' : List (Nat × Tag)} {x a : Nat}
    {t : Tag} (hx : OffHeaders (before ++ (a, t) :: after) x) (u : Tag)
    (hsub : after' ⊆ after) : OffHeaders (before ++ (a, u) :: after') x := by
  intro c v hc
  rcases List.mem_append.mp hc with hc | hc
  · exact hx c v (List.mem_append_left _ hc)
  · rcases List.mem_cons.mp hc with hc | hc
    · cases hc
      exact hx a t (List.mem_append_right _ List.mem_cons_self)
    · exact hx c v (List.mem_append_right _ (List.mem_cons_of_mem _ (hsub hc)))

theorem OffHeaders.header {bs : List (Nat × Tag)} {x a : Nat} {t : Tag}
    (hx : OffHeaders bs x) (ha : (a, t) ∈ bs) : x < a ∨ a + 20 ≤ x := by
  have hoff := hx a t ha
  unfold blockHdrSize at hoff
  omega

/-!
# What is written
-/

namespace Heap

theorem mem_freeListRemove (h : Heap) {a x : Nat} (hx : x < a ∨ a + 20 ≤ x)
    (hprev : h.prevFree a = 0 ∨ x < h.prevFree a ∨ h.prevFree a + 20 ≤ x)
    (hnext : h.nextFree a = 0 ∨ x < h.nextFree a ∨ h.nextFree a + 20 ≤ x)
    (hself : h.prevFree a = 0 ∨ HdrApart (h.prevFree a) a) :
    (h.freeListRemove a).mem x = h.mem x := by
  unfold freeListRemove
  dsimp only
  rw [mem_set _ _ _ hx, mem_set _ _ _ hx]
  by_cases hnull : h.prevFree a = 0
  · rw [if_pos hnull]
    show (if h.nextFree a = 0 then _ else _ : Heap).mem x = _
    split
    · rfl
    · rename_i hne
      exact mem_set _ _ _ (hnext.resolve_left hne)
  · have hread : (h.setNextFree (h.prevFree a) (h.nextFree a)).nextFree a =
        h.nextFree a := by
      have hapart := hself.resolve_left hnull
      rw [nextFree, get_set_self _ _ (Or.inr hapart) (h.get_lt _ _),
        if_neg hapart.ne]
    have hfirst := h.mem_set HdrField.nextFree (h.nextFree a)
      (hprev.resolve_left hnull)
    rw [if_neg hnull, hread]
    split
    · exact hfirst
    · rename_i hne
      exact (mem_set _ _ _ (hnext.resolve_left hne)).trans hfirst

end Heap

namespace HeapInv

variable {bs before after : List (Nat × Tag)} {fl : List Nat} {h : Heap}
variable {a x : Nat} {t : Tag}

theorem off_free (hi : HeapInv bs fl h) (hx : OffHeaders bs x) {f : Nat}
    (hf : f = 0 ∨ f ∈ fl) : f = 0 ∨ x < f ∨ f + 20 ≤ x := by
  rcases hf with hnull | hmem
  · exact Or.inl hnull
  · rcases hi.mem_free.mp hmem with ⟨u, hu, _⟩
    exact Or.inr (hx.header hu)

theorem prevFree_apart (hi : HeapInv bs fl h) (ha : a ∈ fl) :
    h.prevFree a = 0 ∨ HdrApart (h.prevFree a) a := by
  rcases (hi.links_mem ha).left with hnull | hmem
  · exact Or.inl hnull
  · rcases hi.headers with ⟨H, _, hh⟩
    have hapart := hh.apart _ _ (hh.known_of_mem hmem) (hh.known_of_mem ha)
    refine Or.inr (hapart.resolve_left fun heq => ?_)
    refine absurd ?_ (hh.links.prev_ne ha)
    show toPtr (h.prevFree a) = some a
    rw [heq]
    exact toPtr_of_pos (hh.range a (hh.known_of_mem ha)).left

theorem mem_freeListRemove (hi : HeapInv bs fl h) (ha : a ∈ fl)
    (hx : OffHeaders bs x) : (h.freeListRemove a).mem x = h.mem x := by
  have hlinks := hi.links_mem ha
  rcases hi.mem_free.mp ha with ⟨u, hu, _⟩
  exact h.mem_freeListRemove (hx.header hu) (hi.off_free hx hlinks.left)
    (hi.off_free hx hlinks.right) (hi.prevFree_apart ha)

theorem mem_pushFree (hi : HeapInv bs fl h) (ha : (a, t) ∈ bs)
    (hx : OffHeaders bs x) : (h.pushFree a).mem x = h.mem x :=
  h.mem_pushFree (hx.header ha) (hi.off_free hx hi.head_mem)

theorem mem_maybeSplit (hi : HeapInv (before ++ (a, t) :: after) fl h)
    {size : Nat} (hle : size ≤ t.size)
    (hx : OffHeaders (before ++ (a, t) :: after) x)
    (hout : x < a ∨ a + blockHdrSize + t.size ≤ x) :
    (h.maybeSplit a size).mem x = h.mem x := by
  have hold : (a, t) ∈ before ++ (a, t) :: after := by simp
  have hbounds := hi.bounds hold
  have hbrk := hi.brk_lt
  by_cases hfit : size + minBlockSize ≤ t.size
  · have hread := hi.read hold
    have hsum : add32 size minBlockSize = size + minBlockSize :=
      add32_of_lt (by unfold minBlockSize blockHdrSize at *; omega)
    have hpayload : add32 a blockHdrSize = a + blockHdrSize :=
      add32_of_lt (by unfold blockHdrSize at *; omega)
    have hrest : add32 (a + blockHdrSize) size = a + blockHdrSize + size :=
      add32_of_lt (by omega)
    have hoff : x < a + blockHdrSize + size ∨
        a + blockHdrSize + size + 20 ≤ x := by
      unfold minBlockSize blockHdrSize at *
      omega
    unfold Heap.maybeSplit
    rw [hread.right.left, hsum, if_neg (Nat.not_lt.mpr hfit), hpayload, hrest]
    refine (Heap.mem_set _ _ _ (hx.header hold)).trans ?_
    refine (Heap.mem_pushFree (((h.setMagic (a + blockHdrSize + size)
      heapMagicFree).setSize (a + blockHdrSize + size) _).setPrevPhys
        (a + blockHdrSize + size) a) hoff (hi.off_free hx hi.head_mem)).trans ?_
    exact (Heap.mem_set _ _ _ hoff).trans
      ((Heap.mem_set _ _ _ hoff).trans (Heap.mem_set _ _ _ hoff))
  · rw [hi.maybeSplit_whole hle hfit]

theorem mem_coalesceNext (hi : HeapInv (before ++ (a, t) :: after) fl h)
    (hsettled : forall b, b ∈ after -> Settled b)
    (hx : OffHeaders (before ++ (a, t) :: after) x) :
    (h.coalesceNext a).mem x = h.mem x := by
  unfold Heap.coalesceNext
  dsimp only
  rw [hi.next_addr]
  split
  · rename_i hcond
    rcases hi.next_free_iff.mp hcond with ⟨u, rest, hafter, hfree⟩
    rw [hafter] at hi hsettled hx
    have hlisted : u.listed = true :=
      listed_of_settled (hsettled _ List.mem_cons_self) hfree
    have hfl : a + blockHdrSize + t.size ∈ fl :=
      hi.mem_free.mpr ⟨u, by simp, hlisted⟩
    have hoff := hx.header (a := a) (t := t) (by simp)
    have hremove := hi.mem_freeListRemove hfl hx
    generalize h.freeListRemove _ = g at hremove ⊢
    exact (Heap.mem_set g _ _ hoff).trans hremove
  · rfl

theorem mem_coalescePrev (hi : HeapInv (before ++ (a, t) :: after) fl h)
    (hbefore : forall b, b ∈ before -> Settled b)
    (hback : BackOk h before t.prevPhys)
    (hx : OffHeaders (before ++ (a, t) :: after) x) :
    (h.coalescePrev a).mem x = h.mem x := by
  have hold : (a, t) ∈ before ++ (a, t) :: after := by simp
  have hread := hi.read hold
  unfold Heap.coalescePrev
  rw [hread.right.right]
  by_cases hcond : t.prevPhys ≠ 0 ∧ h.magic t.prevPhys = heapMagicFree
  · rcases hback.adjacent hcond with ⟨front, u, hsplit⟩
    have hp : (t.prevPhys, u) ∈ before := by
      rw [hsplit]
      simp
    have hpin : (t.prevPhys, u) ∈ before ++ (a, t) :: after :=
      List.mem_append_left _ hp
    have hpfree : u.magic = heapMagicFree :=
      (hi.read hpin).left.symm.trans hcond.right
    have hlisted : u.listed = true := listed_of_settled (hbefore _ hp) hpfree
    have hfl := hi.mem_free.mpr ⟨u, hpin, hlisted⟩
    have hremove := hi.mem_freeListRemove hfl hx
    have hhead : (h.freeListRemove t.prevPhys).freeList = 0 ∨
        (h.freeListRemove t.prevPhys).freeList ∈ fl := by
      rw [Heap.freeList_freeListRemove]
      split
      · exact (hi.links_mem hfl).right
      · exact hi.head_mem
    rw [if_pos hcond]
    dsimp only
    generalize h.freeListRemove t.prevPhys = g at hremove hhead ⊢
    have hpush := Heap.mem_pushFree ((g.setSize t.prevPhys
      (add32 (g.size t.prevPhys) (add32 blockHdrSize (g.size a)))).countFree
        blockHdrSize) (hx.header hpin) (hi.off_free hx hhead)
    exact hpush.trans ((Heap.mem_set g _ _ (hx.header hpin)).trans hremove)
  · rw [if_neg hcond]
    exact hi.mem_pushFree hold hx

end HeapInv

namespace HeapOk

variable {bs before after : List (Nat × Tag)} {fl : List Nat} {h : Heap}
variable {a x : Nat} {t : Tag}

/-- The payload of a used block lies in no header and in no other block. -/
theorem payload_off (hok : HeapOk bs fl h) (ha : (a, t) ∈ bs)
    (hlow : a + blockHdrSize ≤ x) (hhigh : x < a + blockHdrSize + t.size) :
    OffHeaders bs x ∧ forall c u, (c, u) ∈ bs -> (c, u) ≠ (a, t) ->
      x < c ∨ c + blockHdrSize + u.size ≤ x := by
  have hothers : forall c u, (c, u) ∈ bs -> (c, u) ≠ (a, t) ->
      x < c ∨ c + blockHdrSize + u.size ≤ x := by
    intro c u hc hne
    rcases hok.inv.layout.eq_or_apart hc ha with heq | hapart | hapart
    · exact absurd heq hne
    · exact Or.inr (Nat.le_trans hapart (Nat.le_trans (Nat.le_add_right _ _) hlow))
    · exact Or.inl (Nat.lt_of_lt_of_le hhigh hapart)
  refine ⟨fun c u hc => ?_, hothers⟩
  by_cases heq : (c, u) = (a, t)
  · cases heq
    exact Or.inr hlow
  · rcases hothers c u hc heq with hless | hmore
    · exact Or.inl hless
    · exact Or.inr (Nat.le_trans (Nat.le_add_right _ _) hmore)

theorem mem_takeBlock (hok : HeapOk (before ++ (a, t) :: after) fl h)
    {size : Nat} (hfree : t.magic = heapMagicFree) (hle : size ≤ t.size)
    (hx : OffHeaders (before ++ (a, t) :: after) x)
    (hout : x < a ∨ a + blockHdrSize + t.size ≤ x) :
    (h.takeBlock a size).2.mem x = h.mem x := by
  have hold : (a, t) ∈ before ++ (a, t) :: after := by simp
  have hlisted := hok.listed_of_free hold hfree
  have hfl := hok.inv.mem_free.mpr ⟨t, hold, hlisted⟩
  have hoff := hx.retag { t with listed := false } (List.Subset.refl after)
  have hsplit := (hok.inv.remove hlisted).mem_maybeSplit hle hoff hout
  have hboth := hsplit.trans (hok.inv.mem_freeListRemove hfl hx)
  unfold Heap.takeBlock
  dsimp only
  generalize (h.freeListRemove a).maybeSplit a size = g at hboth ⊢
  exact (Heap.mem_set g _ _ (hx.header hold)).trans hboth

theorem mem_release (hok : HeapOk (before ++ (a, t) :: after) fl h)
    (hback : BackOk h before (h.prevPhys a)) (stat : HeapStats)
    (hx : OffHeaders (before ++ (a, t) :: after) x) :
    ((Heap.setMagic { h with stat := stat } a heapMagicFree).coalesce a).mem x =
      h.mem x := by
  have hold : (a, t) ∈ before ++ (a, t) :: after := by simp
  have hmarked := HeapInv.setMagic (hok.inv.withStat stat) heapMagicFree_lt
  have hmark : (Heap.setMagic { h with stat := stat } a heapMagicFree).mem x =
      h.mem x := Heap.mem_set _ _ _ (hx.header hold)
  have hnextMem := hmarked.mem_coalesceNext hok.settled_after
    (hx.retag { t with magic := heapMagicFree } (List.Subset.refl after))
  rcases hok.marked stat with
    ⟨n, gone, rest, fl', hafter, _, _, hnext, _⟩
  have hsub : rest ⊆ after := by
    rw [hafter]
    exact List.subset_append_right _ _
  have hprevMem := hnext.mem_coalescePrev hok.settled_before
    (hok.backOk_coalesceNext hback stat) (hx.retag _ hsub)
  exact hprevMem.trans (hnextMem.trans hmark)

theorem mem_kfree (hok : HeapOk (before ++ (a, t) :: after) fl h)
    (hused : t.magic = heapMagicUsed)
    (hback : BackOk h before (h.prevPhys a))
    (hx : OffHeaders (before ++ (a, t) :: after) x) :
    (h.kfree (a + blockHdrSize)).mem x = h.mem x := by
  rw [hok.kfree_eq hused]
  exact hok.mem_release hback _ hx

end HeapOk

/-!
# The copy
-/

namespace Heap

theorem copyBytes_succ (h : Heap) (src dst n : Nat) :
    h.copyBytes src dst (n + 1) =
      { h.copyBytes src dst n with
        mem := storeByte (h.copyBytes src dst n).mem (add32 dst n)
          ((h.copyBytes src dst n).mem (add32 src n)) } := by
  unfold copyBytes
  rw [List.range_succ, List.foldl_append]
  rfl

theorem copyBytes_frame (h : Heap) (src dst n : Nat) :
    h.copyBytes src dst n = { h with mem := (h.copyBytes src dst n).mem } := by
  induction n with
  | zero => rfl
  | succ n ih => rw [copyBytes_succ, ih]

theorem mem_copyBytes (h : Heap) (src : Nat) {dst n x : Nat}
    (hdst : dst + n ≤ 2 ^ 32) (hx : x < dst ∨ dst + n ≤ x) :
    (h.copyBytes src dst n).mem x = h.mem x := by
  induction n with
  | zero => rfl
  | succ n ih =>
      have hlast : add32 dst n = dst + n := add32_of_lt (by omega)
      rw [copyBytes_succ, hlast]
      show storeByte _ _ _ x = _
      unfold storeByte
      rw [if_neg (by omega)]
      exact ih (by omega) (by omega)

theorem copyBytes_apply (h : Heap) {src dst n i : Nat}
    (hsrc : src + n ≤ 2 ^ 32) (hdst : dst + n ≤ 2 ^ 32)
    (hapart : src + n ≤ dst ∨ dst + n ≤ src) (hi : i < n) :
    (h.copyBytes src dst n).mem (dst + i) = h.mem (src + i) := by
  induction n with
  | zero => cases hi
  | succ n ih =>
      have hlast : add32 dst n = dst + n := add32_of_lt (by omega)
      have hread : add32 src n = src + n := add32_of_lt (by omega)
      rw [copyBytes_succ, hlast, hread]
      show storeByte _ _ _ (dst + i) = _
      unfold storeByte
      rcases Nat.lt_succ_iff_lt_or_eq.mp hi with hless | heq
      · rw [if_neg (by omega)]
        exact ih (by omega) (by omega) (by omega) hless
      · rw [if_pos (by rw [heq]), heq]
        exact h.mem_copyBytes src (by omega) (by omega)

end Heap

namespace HeapOk

variable {bs bs' before after : List (Nat × Tag)} {fl fl' : List Nat}
variable {h h' : Heap} {a b x : Nat} {t v : Tag}

/-- A copy into the payload of a used block leaves the heap in order. -/
theorem copyBytes (hok : HeapOk bs fl h) (src : Nat) (hb : (b, v) ∈ bs)
    {n : Nat} (hn : n ≤ v.size) :
    HeapOk bs fl (h.copyBytes src (b + blockHdrSize) n) := by
  have hbounds := hok.inv.bounds hb
  have hbrk := hok.inv.brk_lt
  have hframe := h.copyBytes_frame src (b + blockHdrSize) n
  refine ⟨hok.inv.frame ?_ ?_ ?_ ?_ ?_, hok.settled⟩
  · intro c f hc
    have hf := f.offset_le
    refine load32_congr fun i hi => ?_
    have hapart := hok.inv.layout.payload_apart hb hc
    refine h.mem_copyBytes src (by omega) ?_
    unfold blockHdrSize at *
    omega
  · rw [hframe]
  · rw [hframe]
  · rw [hframe]
  · rw [hframe]

/-!
# The new block
-/

/-- What a granted request does to the blocks and to what they hold. -/
structure Granted (bs : List (Nat × Tag)) (h : Heap) (n : Nat)
    (bs' : List (Nat × Tag)) (b : Nat) (v : Tag) (h' : Heap) : Prop where
  block : (b, v) ∈ bs'
  used : v.magic = heapMagicUsed
  room : n ≤ v.size
  fresh : forall u, (b, u) ∈ bs -> u.magic ≠ heapMagicUsed
  kept : forall c, c ∈ bs -> c ∈ bs' ∨ c.1 = b
  contents : forall c u, (c, u) ∈ bs -> u.magic = heapMagicUsed -> forall x,
    c + blockHdrSize ≤ x -> x < c + blockHdrSize + u.size -> h'.mem x = h.mem x

theorem Grown.kept (hgrown : Grown bs h bs' h') : bs ⊆ bs' := by
  induction hgrown with
  | refl => exact List.Subset.refl _
  | page _ _ ih => exact List.Subset.trans (List.subset_append_left _ _) ih

theorem Grown.contents (hgrown : Grown bs h bs' h') (hok : HeapOk bs fl h)
    (ha : (a, t) ∈ bs) (hlow : a + blockHdrSize ≤ x)
    (hhigh : x < a + blockHdrSize + t.size) : h'.mem x = h.mem x := by
  induction hgrown generalizing fl with
  | refl => rfl
  | @page bs bs' fl' h h' size n hi _ ih =>
      have hpayload := hok.payload_off ha hlow hhigh
      have hbounds := hok.inv.bounds ha
      have hpage : (h.heapExpand size).2.mem x = h.mem x :=
        h.mem_heapExpand size (Nat.lt_of_lt_of_le hhigh hbounds.right)
          (hok.inv.off_free hpayload.left hok.inv.head_mem)
      exact (ih (hok.expand hi) (List.mem_append_left _ ha)).trans hpage

theorem kmalloc_granted (hok : HeapOk bs fl h) {n : Nat} (depth : Nat)
    (hpos : 0 < n) (hn : n ≤ kernelHeapSize) :
    Heap.kmalloc (depth + 2) h n = some (0, h) ∨
      exists bs' fl' b v h',
        Heap.kmalloc (depth + 2) h n = some (b + blockHdrSize, h') ∧
        HeapOk bs' fl' h' ∧ Granted bs h n bs' b v h' := by
  rcases hok.kmalloc_cases depth hpos hn with
    hrefused | ⟨before, b, t, after, fl1, h1, hgrown, hok1, hfree, hfit, hrun⟩
  · exact Or.inl hrefused
  · rcases hok1.takeBlock hfree (by omega) hfit with ⟨hptr, fl', hok'⟩
    have hblock : (b, t) ∈ before ++ (b, t) :: after := by simp
    refine Or.inr ⟨_, fl', b, takenTag b ((n + 15) / 16 * 16) t, _,
      hrun.trans (congrArg some (Prod.ext hptr rfl)), hok', ?_⟩
    have hfresh : forall u, (b, u) ∈ before ++ (b, t) :: after ->
        u.magic ≠ heapMagicUsed := by
      intro u hu hmagic
      rw [hok1.inv.tag_unique hu hblock] at hmagic
      exact magic_ne (hfree.symm.trans hmagic)
    constructor
    · simp
    · rfl
    · exact Nat.le_trans (by omega) (splitRest_le hfit)
    · exact fun u hu => hfresh u (hgrown.kept hu)
    · intro c hc
      rcases HeapInv.mem_replace (List.Subset.refl _) (hgrown.kept hc) with
        heq | hmem
      · rw [heq]
        exact Or.inr rfl
      · simp only [List.mem_append, List.mem_cons] at hmem ⊢
        exact Or.inl (hmem.imp_right fun hc => Or.inr (Or.inr hc))
    · intro c u hc hmagic x hlow hhigh
      have hne : (b, t) ≠ (c, u) := by
        intro heq
        cases heq
        exact magic_ne (hfree.symm.trans hmagic)
      rcases hok1.payload_off (hgrown.kept hc) hlow hhigh with ⟨hoff, hothers⟩
      exact (hok1.mem_takeBlock hfree hfit hoff (hothers b t hblock hne)).trans
        (hgrown.contents hok hc hlow hhigh)

end HeapOk

/-!
# `krealloc`
-/

/-- Each `prev_phys` is `NULL` or points at the block directly in front. -/
def BacksTrue (bs : List (Nat × Tag)) : Prop :=
  forall before a t after, bs = before ++ (a, t) :: after ->
    t.prevPhys = 0 ∨ exists front u, before = front ++ [(t.prevPhys, u)]

/--
What `krealloc` promises of the block at `a`: on `NULL` nothing has changed;
else the result is live and large enough and holds the old bytes, the old block
is gone unless it is the result, and all other allocations are as they were.
-/
structure Reallocated (h : Heap) (a n r : Nat) (h' : Heap) : Prop where
  refused : r = 0 -> h' = h ∧ IsLive h' a
  live : r ≠ 0 -> exists b, r = b + blockHdrSize ∧ IsLive h' b ∧ n ≤ h'.size b
  bytes : r ≠ 0 -> forall i, i < min (h.size a) n ->
    h'.mem (r + i) = h.mem (a + blockHdrSize + i)
  released : r ≠ 0 -> r ≠ a + blockHdrSize -> ¬ IsLive h' a
  others : forall c, IsLive h c -> c ≠ a -> IsLive h' c ∧ h'.size c = h.size c ∧
    forall x, c + blockHdrSize ≤ x -> x < c + blockHdrSize + h.size c ->
      h'.mem x = h.mem x

namespace HeapOk

variable {bs bs' before after : List (Nat × Tag)} {fl fl' : List Nat}
variable {h h' : Heap} {a b n : Nat} {t v : Tag}

theorem krealloc_same (hlive : IsLive h a) (hr : n ≤ h.size a) :
    Reallocated h a n (a + blockHdrSize) h where
  refused _ := ⟨rfl, hlive⟩
  live _ := ⟨a, rfl, hlive, hr⟩
  bytes _ _ _ := rfl
  released _ hne := absurd rfl hne
  others _ hc _ := ⟨hc, rfl, fun _ _ _ => rfl⟩

theorem krealloc_refused (hlive : IsLive h a) : Reallocated h a n 0 h where
  refused _ := ⟨rfl, hlive⟩
  live hne := absurd rfl hne
  bytes hne := absurd rfl hne
  released hne := absurd rfl hne
  others _ hc _ := ⟨hc, rfl, fun _ _ _ => rfl⟩

/--
A `prev_phys` that was right before the request is right after it, or points at
the block that was taken, which is free no longer.
-/
theorem Granted.backOk (hback : BacksTrue bs) (hi : HeapInv bs fl h)
    (hg : Granted bs h n (before ++ (a, t) :: after) b v h')
    (ha : (a, t) ∈ bs) {g : Heap}
    (hig : HeapInv (before ++ (a, t) :: after) fl' g) :
    BackOk g before (g.prevPhys a) := by
  rw [(hig.read (a := a) (t := t) (by simp)).right.right]
  rcases List.append_of_mem ha with ⟨before0, after0, hbs⟩
  rcases hback before0 a t after0 hbs with hnull | ⟨front, u, hbefore⟩
  · exact Or.inl hnull
  · have hlayout := hi.layout
    have hp : (t.prevPhys, u) ∈ bs := by
      rw [hbs, hbefore]
      simp
    have hend : t.prevPhys + blockHdrSize + u.size = a := by
      rw [hbs, hbefore, List.append_assoc, layout_append] at hlayout
      rcases hlayout with ⟨m, _, hm, hnext, _⟩
      dsimp only at hm hnext
      rw [hm, hnext]
    rcases hg.kept _ hp with hkept | htaken
    · rcases hig.layout.split_before hkept hend with ⟨front', hfront⟩
      exact Or.inr (Or.inr ⟨front', u, hfront⟩)
    · have hmagic := (hig.read hg.block).left.trans hg.used
      refine Or.inr (Or.inl fun hfree => ?_)
      rw [show t.prevPhys = b from htaken] at hfree
      exact magic_ne (hfree.symm.trans hmagic)

/-- Freeing the block at `a` keeps every other used block and its bytes. -/
theorem kfree_frees (hok : HeapOk (before ++ (a, t) :: after) fl h)
    (hused : t.magic = heapMagicUsed) (hback : BackOk h before (h.prevPhys a)) :
    exists bs' fl', HeapOk bs' fl' (h.kfree (a + blockHdrSize)) ∧
      ¬ IsLive (h.kfree (a + blockHdrSize)) a ∧
      forall c u, (c, u) ∈ before ++ (a, t) :: after ->
        u.magic = heapMagicUsed -> c ≠ a -> (c, u) ∈ bs' ∧
          forall x, c + blockHdrSize ≤ x -> x < c + blockHdrSize + u.size ->
            (h.kfree (a + blockHdrSize)).mem x = h.mem x := by
  rcases hok.kfree hused hback with ⟨bs', fl', hok', hsame⟩
  refine ⟨bs', fl', hok', ?_, ?_⟩
  · intro hlive
    rcases hok'.inv.isLive.mp hlive with ⟨u, hu, hmagic⟩
    have hmem := (hsame (a, u) hmagic).mp hu
    exact hok.inv.layout.fresh a u (List.mem_append.mp hmem) rfl
  · intro c u hc hmagic hca
    constructor
    · rw [hsame (c, u) hmagic]
      have hneq : (c, u) ≠ (a, t) := fun heq => hca (congrArg Prod.fst heq)
      simpa only [List.mem_append, List.mem_cons, hneq, false_or] using hc
    · intro x hlow hhigh
      exact hok.mem_kfree hused hback (hok.payload_off hc hlow hhigh).left

/-- The request is granted, the bytes are copied, and the old block is freed. -/
theorem krealloc_moved (hok : HeapOk bs fl h) (hback : BacksTrue bs)
    (ha : (a, t) ∈ bs) (hused : t.magic = heapMagicUsed) (hlt : t.size < n)
    (hok' : HeapOk bs' fl' h') (hg : Granted bs h n bs' b v h') :
    Reallocated h a n (b + blockHdrSize)
      ((h'.copyBytes (a + blockHdrSize) (b + blockHdrSize) t.size).kfree
        (a + blockHdrSize)) := by
  have hne : a ≠ b := fun heq => hg.fresh t (heq ▸ ha) hused
  have ha' : (a, t) ∈ bs' := (hg.kept _ ha).resolve_right hne
  have hroom := hg.room
  have hbounds := hok'.inv.bounds ha'
  have hboundsb := hok'.inv.bounds hg.block
  have hbrk := hok'.inv.brk_lt
  have hapart := hok'.inv.layout.apart_of_ne ha' hg.block hne
  have hcopied := hok'.copyBytes (a + blockHdrSize) (n := t.size) hg.block
    (by omega)
  have hcopy : forall i, i < t.size ->
      (h'.copyBytes (a + blockHdrSize) (b + blockHdrSize) t.size).mem
        (b + blockHdrSize + i) = h'.mem (a + blockHdrSize + i) :=
    fun i hi => h'.copyBytes_apply (by omega) (by omega) (by omega) hi
  have hrest : forall x, x < b + blockHdrSize ∨
      b + blockHdrSize + t.size ≤ x ->
      (h'.copyBytes (a + blockHdrSize) (b + blockHdrSize) t.size).mem x =
        h'.mem x :=
    fun x hx => h'.mem_copyBytes _ (by omega) hx
  generalize h'.copyBytes (a + blockHdrSize) (b + blockHdrSize) t.size = g at *
  rcases List.append_of_mem ha' with ⟨before, after, hbs'⟩
  rw [hbs'] at hg hcopied
  rcases hcopied.kfree_frees hused (hg.backOk hback hok.inv ha hcopied.inv) with
    ⟨bs3, fl3, hok3, hfreed, hothers⟩
  rcases hothers b v hg.block hg.used hne.symm with ⟨hnew, hbytes⟩
  constructor
  · intro hnull
    unfold blockHdrSize at hnull
    omega
  · intro _
    refine ⟨b, rfl, hok3.inv.isLive.mpr ⟨v, hnew, hg.used⟩, ?_⟩
    rw [(hok3.inv.read hnew).right.left]
    exact hroom
  · intro _ i hi
    rw [(hok.inv.read ha).right.left] at hi
    have hsize : i < t.size := Nat.lt_of_lt_of_le hi (Nat.min_le_left _ _)
    calc (g.kfree (a + blockHdrSize)).mem (b + blockHdrSize + i)
        = g.mem (b + blockHdrSize + i) :=
          hbytes _ (Nat.le_add_right _ _) (by omega)
      _ = h'.mem (a + blockHdrSize + i) := hcopy i hsize
      _ = h.mem (a + blockHdrSize + i) :=
          hg.contents a t ha hused _ (Nat.le_add_right _ _) (by omega)
  · exact fun _ _ => hfreed
  · intro c hc hca
    rcases hok.inv.isLive.mp hc with ⟨u, hu, hmagic⟩
    have hcb : c ≠ b := fun heq => hg.fresh u (heq ▸ hu) hmagic
    have hu' := (hg.kept _ hu).resolve_right hcb
    rcases hothers c u hu' hmagic hca with ⟨hu3, hsame⟩
    rw [(hok.inv.read hu).right.left]
    refine ⟨hok3.inv.isLive.mpr ⟨u, hu3, hmagic⟩,
      (hok3.inv.read hu3).right.left, ?_⟩
    intro x hlow hhigh
    have hout := hcopied.inv.layout.apart_of_ne hu' hg.block hcb
    calc (g.kfree (a + blockHdrSize)).mem x
        = g.mem x := hsame x hlow hhigh
      _ = h'.mem x := hrest x (by omega)
      _ = h.mem x := hg.contents c u hu hmagic x hlow hhigh

end HeapOk

/--
`krealloc` returns for every live pointer and every size up to the heap's, and
loses no data.
-/
theorem krealloc_keeps {bs : List (Nat × Tag)} {fl : List Nat} {h : Heap}
    (hok : HeapOk bs fl h) (hback : BacksTrue bs) {a n : Nat}
    (hlive : IsLive h a) (hpos : 1 ≤ n) (hn : n ≤ kernelHeapSize) :
    exists r h', h.krealloc callDepth (a + blockHdrSize) n = some (r, h') ∧
      Reallocated h a n r h' := by
  rcases hok.inv.isLive.mp hlive with ⟨t, ha, hused⟩
  have hread := hok.inv.read ha
  have hptr : a + blockHdrSize ≠ 0 := by
    unfold blockHdrSize
    omega
  have hdepth : callDepth = callDepth - 2 + 2 := by decide
  unfold Heap.krealloc
  rw [if_neg hptr, if_neg (by omega), hok.inv.header_of_payload ha]
  dsimp only
  by_cases hfits : n ≤ h.size a
  · rw [if_pos hfits]
    exact ⟨_, _, rfl, HeapOk.krealloc_same hlive hfits⟩
  · rw [if_neg hfits, hdepth]
    rw [hread.right.left] at hfits
    rcases hok.kmalloc_granted (callDepth - 2) hpos hn with
      hrefused | ⟨bs', fl', b, v, h', hrun, hok', hg⟩
    · rw [hrefused]
      exact ⟨0, h, rfl, HeapOk.krealloc_refused hlive⟩
    · have ha' := (hg.kept _ ha).resolve_right fun heq =>
        hg.fresh t (heq ▸ ha) hused
      have hcopied : (if h'.size a < n then h'.size a else n) = t.size := by
        rw [(hok'.inv.read ha').right.left, if_pos (by omega)]
      rw [hrun]
      dsimp only
      rw [if_neg (by unfold blockHdrSize; omega), hcopied]
      exact ⟨_, _, rfl, hok.krealloc_moved hback ha hused (by omega) hok' hg⟩

theorem backsTrue_first {a size : Nat} {t : Tag} (ht : t.prevPhys = 0) :
    BacksTrue ((a, takenTag a size t) :: (splitRest a size t).2) := by
  intro before c u after heq
  cases before with
  | nil =>
      cases heq
      exact Or.inl ht
  | cons d front =>
      rcases List.cons.inj heq with ⟨hfirst, hrest⟩
      unfold splitRest at hrest
      split at hrest
      · rcases List.append_eq_singleton_iff.mp hrest.symm with
          ⟨hfront, hlast⟩ | ⟨_, hnil⟩
        · rcases List.cons.inj hlast with ⟨hc, _⟩
          cases hc
          exact Or.inr ⟨[], takenTag a size t, by rw [hfront, ← hfirst]; rfl⟩
        · cases hnil
      · exact absurd hrest (by simp)

def firstHeap : Heap := (kernelHeap.heap.takeBlock kernelHeapStart 16).2

theorem heapOk_firstHeap :
    exists bs fl, HeapOk bs fl firstHeap ∧ BacksTrue bs ∧
      IsLive firstHeap kernelHeapStart := by
  have hpage : pageSize.toNat ≤ kernelHeapSize := by decide
  have hbare := heapOk_bare (fun _ => 0) heapRegion_kernel
  rcases hbare.inv.expand hpage with hfull | ⟨n, hn, _, _, hi⟩
  · exact absurd (congrArg Prod.fst hfull) (by decide)
  · have hlarge : 16 ≤ n := Nat.le_trans (by decide) hn
    have hfirst : HeapOk ([] ++ (_, ⟨n, heapMagicFree, 0, true⟩) :: []) _ _ :=
      hbare.expand hi
    rcases (hfirst.takeBlock rfl (Nat.dvd_refl 16) hlarge).right with
      ⟨fl, hok'⟩
    rw [List.nil_append, List.append_nil] at hok'
    refine ⟨_, fl, hok', backsTrue_first rfl, ?_⟩
    exact hok'.inv.isLive.mpr ⟨_, List.mem_cons_self, rfl⟩

theorem krealloc_keeps_first :
    exists r h',
      firstHeap.krealloc callDepth (kernelHeapStart + blockHdrSize) 100 =
        some (r, h') ∧ Reallocated firstHeap kernelHeapStart 100 r h' := by
  rcases heapOk_firstHeap with ⟨bs, fl, hok, hback, hlive⟩
  exact krealloc_keeps hok hback hlive (by decide) (by decide)

end Mm
end EarlnuxOS
