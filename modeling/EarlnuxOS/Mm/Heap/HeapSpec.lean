import Mathlib.Order.CompletePartialOrder
import Mathlib.Data.Finset.Card
import Mathlib.Order.Interval.Finset.Nat
import EarlnuxOS.Mm.Heap.HeapInvariant

/-!
# What `kmalloc` and `kfree` do to the blocks

Between calls every block is either free and listed or used and not listed.
`kmalloc` adds one used block and keeps the others; `kfree` takes one away,
provided that the `prev_phys` it follows does not mislead it.
-/

namespace EarlnuxOS
namespace Mm

open Foundation

def Settled (b : Nat × Tag) : Prop :=
  b.2.magic = heapMagicFree ∧ b.2.listed = true ∨
    b.2.magic = heapMagicUsed ∧ b.2.listed = false

theorem magic_ne : heapMagicFree ≠ heapMagicUsed := by decide

theorem listed_of_settled {b : Nat × Tag} (h : Settled b)
    (hfree : b.2.magic = heapMagicFree) : b.2.listed = true := by
  rcases h with hset | hset
  · exact hset.right
  · exact absurd (hfree.symm.trans hset.left) magic_ne

theorem unlisted_of_settled {b : Nat × Tag} (h : Settled b)
    (hused : b.2.magic = heapMagicUsed) : b.2.listed = false := by
  rcases h with hset | hset
  · exact absurd (hset.left.symm.trans hused) magic_ne
  · exact hset.right

structure HeapOk (bs : List (Nat × Tag)) (fl : List Nat) (h : Heap) :
    Prop where
  inv : HeapInv bs fl h
  settled : forall b, b ∈ bs -> Settled b

def SameUsed (bs bs' : List (Nat × Tag)) : Prop :=
  forall b, b.2.magic = heapMagicUsed -> (b ∈ bs' <-> b ∈ bs)

/--
What `prev_phys` may be when `coalesce` reads it: `NULL`, something that is no
free block, or the block directly in front.
-/
def BackOk (h : Heap) (before : List (Nat × Tag)) (back : Nat) : Prop :=
  back = 0 ∨ h.magic back ≠ heapMagicFree ∨
    exists front u, before = front ++ [(back, u)]

theorem BackOk.adjacent {h : Heap} {before : List (Nat × Tag)} {p : Nat}
    (hback : BackOk h before p) (hcond : p ≠ 0 ∧ h.magic p = heapMagicFree) :
    exists front u, before = front ++ [(p, u)] := by
  rcases hback with hnull | hmagic | hadjacent
  · exact absurd hnull hcond.left
  · exact absurd hcond.right hmagic
  · exact hadjacent

/-!
# The first-fit search
-/

namespace Heap

def fitsIn (h : Heap) (size a : Nat) : Bool :=
  decide (h.magic a = heapMagicFree ∧ size ≤ h.size a)

theorem fitsIn_iff {h : Heap} {size a : Nat} :
    h.fitsIn size a = true <-> h.magic a = heapMagicFree ∧ size ≤ h.size a :=
  decide_eq_true_iff

theorem chain_ne_zero {h : Heap} {fl : List Nat} {p : Nat}
    (hchain : Chain h.next (toPtr p) fl) {a : Nat} (ha : a ∈ fl) : a ≠ 0 := by
  induction fl generalizing p with
  | nil => cases ha
  | cons x fl ih =>
      rcases List.mem_cons.mp ha with ha | ha
      · rcases toPtr_eq_some.mp hchain.left with ⟨hpos, hpx⟩
        rw [ha, ← hpx]
        exact hpos
      · exact ih hchain.right ha

/-- The search ends at the first block of the list that is large enough. -/
theorem firstFit_find (h : Heap) (size : Nat) {fl : List Nat} {p : Nat}
    (hchain : Chain h.next (toPtr p) fl) {steps : Nat}
    (hsteps : fl.length < steps) :
    h.firstFit size steps p = some ((fl.find? (h.fitsIn size)).getD 0) := by
  induction fl generalizing p steps with
  | nil =>
      cases steps with
      | zero => cases hsteps
      | succ steps =>
          unfold firstFit
          rw [if_pos (toPtr_eq_none.mp hchain)]
          rfl
  | cons x fl ih =>
      rcases toPtr_eq_some.mp hchain.left with ⟨hpos, hpx⟩
      rw [hpx] at hpos ⊢
      cases steps with
      | zero => cases hsteps
      | succ steps =>
          unfold firstFit
          rw [if_neg hpos]
          by_cases hfit : h.magic x = heapMagicFree ∧ size ≤ h.size x
          · rw [if_pos hfit, List.find?_cons_of_pos (fitsIn_iff.mpr hfit)]
            rfl
          · rw [if_neg hfit,
              List.find?_cons_of_neg (fun hx => hfit (fitsIn_iff.mp hx))]
            exact ih hchain.right (Nat.lt_of_succ_lt_succ hsteps)

theorem firstFit_chain (h : Heap) (size : Nat) {fl : List Nat} {p : Nat}
    (hchain : Chain h.next (toPtr p) fl) {steps : Nat}
    (hsteps : fl.length < steps) :
    exists r, h.firstFit size steps p = some r ∧
      (r = 0 ∧ (forall a, a ∈ fl ->
          ¬ (h.magic a = heapMagicFree ∧ size ≤ h.size a)) ∨
        r ∈ fl ∧ r ≠ 0 ∧ h.magic r = heapMagicFree ∧ size ≤ h.size r) := by
  refine ⟨_, h.firstFit_find size hchain hsteps, ?_⟩
  cases hfind : fl.find? (h.fitsIn size) with
  | none =>
      refine Or.inl ⟨rfl, fun a ha hfit => ?_⟩
      exact List.find?_eq_none.mp hfind a ha (fitsIn_iff.mpr hfit)
  | some r =>
      have hmem := List.mem_of_find?_eq_some hfind
      have hfit := fitsIn_iff.mp (List.find?_some hfind)
      exact Or.inr ⟨hmem, chain_ne_zero hchain hmem, hfit.left, hfit.right⟩

theorem firstFit_head {h : Heap} {size blk : Nat} (hhead : h.freeList = blk)
    (hne : blk ≠ 0) (hmagic : h.magic blk = heapMagicFree)
    (hfit : size ≤ h.size blk) :
    h.firstFit size walkSteps h.freeList = some blk := by
  have hsteps : walkSteps = 2 ^ 32 - 1 + 1 := by decide
  rw [hhead, hsteps, firstFit, if_neg hne, if_pos ⟨hmagic, hfit⟩]

/-!
# The steps of `kmalloc`
-/

theorem kmalloc_zero (depth : Nat) (h : Heap) :
    Heap.kmalloc (depth + 1) h 0 = some (0, h) :=
  if_pos rfl

theorem kmalloc_of_found (depth : Nat) {h : Heap} {n size r : Nat}
    (hn : n ≠ 0) (hsize : (alignUp (UInt32.ofNat n) heapAlign).toNat = size)
    (hr : h.firstFit size walkSteps h.freeList = some r) (hne : r ≠ 0) :
    Heap.kmalloc (depth + 1) h n = some (h.takeBlock r size) := by
  rw [Heap.kmalloc, if_neg hn, hsize]
  dsimp only
  rw [hr]
  exact if_neg hne

theorem kmalloc_of_none (depth : Nat) {h : Heap} {n size : Nat}
    (hn : n ≠ 0) (hsize : (alignUp (UInt32.ofNat n) heapAlign).toNat = size)
    (hr : h.firstFit size walkSteps h.freeList = some 0) :
    Heap.kmalloc (depth + 1) h n =
      if (h.heapExpand size).1 = 0 then some (0, (h.heapExpand size).2)
      else Heap.kmalloc depth (h.heapExpand size).2 size := by
  rw [Heap.kmalloc, if_neg hn, hsize]
  dsimp only
  rw [hr]
  exact if_pos rfl

end Heap

namespace HeapInv

variable {bs before after : List (Nat × Tag)} {fl : List Nat} {h : Heap}
variable {a : Nat} {t : Tag}

theorem free_length (hi : HeapInv bs fl h) : fl.length < Heap.walkSteps := by
  rcases hi.headers with ⟨H, _, hh⟩
  have hsub : fl.toFinset ⊆ Finset.Ico 1 (2 ^ 32) := by
    intro x hx
    rw [List.mem_toFinset] at hx
    have hrange := hh.range x (hh.known_of_mem hx)
    exact Finset.mem_Ico.mpr hrange
  have hcard := Finset.card_le_card hsub
  rw [List.toFinset_card_of_nodup hh.links.nodup, Nat.card_Ico] at hcard
  unfold Heap.walkSteps
  omega

/-- The search ends at the first block of the free list that fits. -/
theorem firstFit_find (hi : HeapInv bs fl h) (size : Nat) :
    h.firstFit size Heap.walkSteps h.freeList =
      some ((fl.find? (h.fitsIn size)).getD 0) := by
  have hlen := hi.free_length
  rcases hi.headers with ⟨H, _, hh⟩
  exact h.firstFit_find size hh.links.chain hlen

/-- The search ends, at a block that fits or at the end of the list. -/
theorem firstFit (hi : HeapInv bs fl h) (size : Nat) :
    exists r, h.firstFit size Heap.walkSteps h.freeList = some r ∧
      (r = 0 ∧ (forall a, a ∈ fl ->
          ¬ (h.magic a = heapMagicFree ∧ size ≤ h.size a)) ∨
        r ∈ fl ∧ r ≠ 0 ∧ h.magic r = heapMagicFree ∧ size ≤ h.size r) := by
  have hlen := hi.free_length
  rcases hi.headers with ⟨H, _, hh⟩
  exact h.firstFit_chain size hh.links.chain hlen

end HeapInv

/-!
# Taking a block
-/

/-- What `maybe_split` leaves of a block, and the block it makes of the rest. -/
def splitRest (a size : Nat) (t : Tag) : Nat × List (Nat × Tag) :=
  if size + minBlockSize ≤ t.size then
    (size, [(a + blockHdrSize + size,
      ⟨t.size - size - blockHdrSize, heapMagicFree, a, true⟩)])
  else (t.size, [])

def takenTag (a size : Nat) (t : Tag) : Tag :=
  ⟨(splitRest a size t).1, heapMagicUsed, t.prevPhys, false⟩

theorem splitRest_le {a size : Nat} {t : Tag} (hle : size ≤ t.size) :
    size ≤ (splitRest a size t).1 := by
  unfold splitRest
  split
  · exact Nat.le_refl size
  · exact hle

theorem splitRest_free {a size : Nat} {t : Tag} {b : Nat × Tag}
    (hb : b ∈ (splitRest a size t).2) :
    b.2.magic = heapMagicFree ∧ b.2.listed = true := by
  unfold splitRest at hb
  split at hb
  · rw [List.mem_singleton.mp hb]
    exact ⟨rfl, rfl⟩
  · cases hb

namespace HeapInv

variable {bs before after : List (Nat × Tag)} {fl : List Nat} {h : Heap}
variable {a : Nat} {t : Tag}

theorem maybeSplit_whole (hi : HeapInv (before ++ (a, t) :: after) fl h)
    {size : Nat} (hle : size ≤ t.size)
    (hfit : ¬ size + minBlockSize ≤ t.size) : h.maybeSplit a size = h := by
  have hold : (a, t) ∈ before ++ (a, t) :: after := by simp
  have hbounds := hi.bounds hold
  have hbrk := hi.brk_lt
  have hsum : add32 size minBlockSize = size + minBlockSize :=
    add32_of_lt (by unfold minBlockSize blockHdrSize; omega)
  unfold Heap.maybeSplit
  rw [(hi.read hold).right.left, hsum, if_pos (Nat.lt_of_not_le hfit)]

theorem maybeSplit (hi : HeapInv (before ++ (a, t) :: after) fl h) {size : Nat}
    (hsize : 16 ∣ size) (hle : size ≤ t.size) :
    exists fl',
      HeapInv (before ++ (a, { t with size := (splitRest a size t).1 }) ::
        ((splitRest a size t).2 ++ after)) fl' (h.maybeSplit a size) := by
  unfold splitRest
  by_cases hfit : size + minBlockSize ≤ t.size
  · rw [if_pos hfit]
    exact ⟨_, hi.split hfit hsize⟩
  · rw [if_neg hfit, hi.maybeSplit_whole hle hfit]
    exact ⟨fl, hi⟩

end HeapInv

namespace HeapOk

variable {bs before after : List (Nat × Tag)} {fl : List Nat} {h : Heap}
variable {a : Nat} {t : Tag}

theorem listed_of_free (hok : HeapOk bs fl h) (ha : (a, t) ∈ bs)
    (hfree : t.magic = heapMagicFree) : t.listed = true :=
  listed_of_settled (hok.settled (a, t) ha) hfree

theorem unlisted_of_used (hok : HeapOk bs fl h) (ha : (a, t) ∈ bs)
    (hused : t.magic = heapMagicUsed) : t.listed = false :=
  unlisted_of_settled (hok.settled (a, t) ha) hused

theorem free_of_listed (hok : HeapOk bs fl h) (ha : (a, t) ∈ bs)
    (hlisted : t.listed = true) : t.magic = heapMagicFree := by
  rcases hok.settled (a, t) ha with hset | hset
  · exact hset.left
  · rw [hset.right] at hlisted
    cases hlisted

theorem magic_free (hok : HeapOk bs fl h) (ha : a ∈ fl) :
    h.magic a = heapMagicFree := by
  rcases hok.inv.mem_free.mp ha with ⟨t, ht, hlisted⟩
  exact (hok.inv.read ht).left.trans (hok.free_of_listed ht hlisted)

theorem takeBlock (hok : HeapOk (before ++ (a, t) :: after) fl h) {size : Nat}
    (hfree : t.magic = heapMagicFree) (hsize : 16 ∣ size)
    (hle : size ≤ t.size) :
    (h.takeBlock a size).1 = a + blockHdrSize ∧
      exists fl', HeapOk
        (before ++ (a, takenTag a size t) :: ((splitRest a size t).2 ++ after))
        fl' (h.takeBlock a size).2 := by
  have hold : (a, t) ∈ before ++ (a, t) :: after := by simp
  have hbounds := hok.inv.bounds hold
  have hbrk := hok.inv.brk_lt
  have hsettled := hok.settled
  rcases (hok.inv.remove (hok.listed_of_free hold hfree)).maybeSplit hsize
      hle with ⟨fl', hsplit⟩
  have hused := hsplit.setMagic heapMagicUsed_lt
  refine ⟨add32_of_lt (by omega), fl', hused.withStat _, ?_⟩
  intro b hb
  simp only [List.mem_append, List.mem_cons] at hb
  rcases hb with hb | hb | hb | hb
  · exact hsettled b (List.mem_append_left _ hb)
  · rw [hb]
    exact Or.inr ⟨rfl, rfl⟩
  · exact Or.inl (splitRest_free hb)
  · exact hsettled b (List.mem_append_right _ (List.mem_cons_of_mem _ hb))

theorem used_takeBlock {size : Nat} (hfree : t.magic = heapMagicFree)
    {b : Nat × Tag} (hb : b.2.magic = heapMagicUsed) :
    b ∈ before ++ (a, takenTag a size t) :: ((splitRest a size t).2 ++ after) <->
      b ∈ before ++ (a, t) :: after ∨ b = (a, takenTag a size t) := by
  have hnot : b ∉ (splitRest a size t).2 := by
    intro hmem
    exact magic_ne ((splitRest_free hmem).left.symm.trans hb)
  have hne : b ≠ (a, t) := by
    intro heq
    rw [heq] at hb
    exact magic_ne (hfree.symm.trans hb)
  simp only [List.mem_append, List.mem_cons, hnot, hne, false_or]
  rw [or_assoc, or_comm (b := b ∈ after)]

/-!
# Allocation
-/

theorem align_heap {n : Nat} (hn : n ≤ kernelHeapSize) :
    (alignUp (UInt32.ofNat n) heapAlign).toNat = (n + 15) / 16 * 16 := by
  unfold kernelHeapSize at hn
  rw [toNat_alignUp (k := 4) _ (by decide) (by decide),
    UInt32.toNat_ofNat_of_lt' (by show n < 2 ^ 32; omega),
    Nat.mod_eq_of_lt (by omega)]
  rfl

/-- The outcome of a call: refused, or one more used block. -/
def Allocated (bs bs' : List (Nat × Tag)) (n p : Nat) : Prop :=
  p = 0 ∧ SameUsed bs bs' ∨
    exists a t, p = a + blockHdrSize ∧ t.magic = heapMagicUsed ∧ n ≤ t.size ∧
      (forall u, (a, u) ∈ bs -> u.magic ≠ heapMagicUsed) ∧
      forall b, b.2.magic = heapMagicUsed ->
        (b ∈ bs' <-> b ∈ bs ∨ b = (a, t))

theorem allocated_takeBlock (hok : HeapOk (before ++ (a, t) :: after) fl h)
    {n size : Nat} (hfree : t.magic = heapMagicFree) (hn : n ≤ size)
    (hle : size ≤ t.size) :
    Allocated (before ++ (a, t) :: after)
      (before ++ (a, takenTag a size t) :: ((splitRest a size t).2 ++ after)) n
      (a + blockHdrSize) := by
  have hold : (a, t) ∈ before ++ (a, t) :: after := by simp
  refine Or.inr ⟨a, takenTag a size t, rfl, rfl,
    Nat.le_trans hn (splitRest_le hle), ?_, fun b hb => used_takeBlock hfree hb⟩
  intro u hu heq
  rw [hok.inv.tag_unique hu hold] at heq
  exact magic_ne (hfree.symm.trans heq)

theorem expand (hok : HeapOk bs fl h) {size n : Nat} {fl' : List Nat}
    (hi : HeapInv (bs ++ [(h.brk, ⟨n, heapMagicFree, 0, true⟩)]) fl'
      (h.heapExpand size).2) :
    HeapOk (bs ++ [(h.brk, ⟨n, heapMagicFree, 0, true⟩)]) fl'
      (h.heapExpand size).2 := by
  refine ⟨hi, ?_⟩
  intro b hb
  rcases List.mem_append.mp hb with hb | hb
  · exact hok.settled b hb
  · rw [List.mem_singleton.mp hb]
    exact Or.inl ⟨rfl, rfl⟩

inductive Grown : List (Nat × Tag) -> Heap -> List (Nat × Tag) -> Heap -> Prop
  | refl (bs : List (Nat × Tag)) (h : Heap) : Grown bs h bs h
  | page {bs bs' : List (Nat × Tag)} {fl : List Nat} {h h' : Heap}
      {size n : Nat} :
      HeapInv (bs ++ [(h.brk, ⟨n, heapMagicFree, 0, true⟩)]) (h.brk :: fl)
        (h.heapExpand size).2 ->
      Grown (bs ++ [(h.brk, ⟨n, heapMagicFree, 0, true⟩)])
        (h.heapExpand size).2 bs' h' ->
      Grown bs h bs' h'

theorem sameUsed_expand (bs : List (Nat × Tag)) (brk n : Nat) :
    SameUsed bs (bs ++ [(brk, ⟨n, heapMagicFree, 0, true⟩)]) := by
  intro b hb
  rw [List.mem_append, List.mem_singleton]
  refine or_iff_left fun heq => ?_
  rw [heq] at hb
  exact magic_ne hb

theorem Grown.used {bs' : List (Nat × Tag)} {h' : Heap}
    (hgrown : Grown bs h bs' h') : SameUsed bs bs' := by
  induction hgrown with
  | refl => exact fun _ _ => Iff.rfl
  | page _ _ ih =>
      exact fun b hb => (ih b hb).trans (sameUsed_expand _ _ _ b hb)

theorem kmalloc_found (hok : HeapOk bs fl h) {n size r : Nat} (depth : Nat)
    (hn : n ≠ 0) (hsize : (alignUp (UInt32.ofNat n) heapAlign).toNat = size)
    (hr : h.firstFit size Heap.walkSteps h.freeList = some r) (hne : r ≠ 0)
    (hfl : r ∈ fl) (hfit : size ≤ h.size r) :
    exists before t after, bs = before ++ (r, t) :: after ∧
      t.magic = heapMagicFree ∧ size ≤ t.size ∧ h.size r = t.size ∧
      Heap.kmalloc (depth + 1) h n = some (h.takeBlock r size) := by
  rcases hok.inv.mem_free.mp hfl with ⟨t, ht, hlisted⟩
  have hread := (hok.inv.read ht).right.left
  rcases List.append_of_mem ht with ⟨before, after, hbs⟩
  rw [hread] at hfit
  exact ⟨before, t, after, hbs, hok.free_of_listed ht hlisted, hfit, hread,
    Heap.kmalloc_of_found depth hn hsize hr hne⟩

/-- `heap_expand` refuses, or the next search ends at the block it has made. -/
theorem expand_found (hi : HeapInv bs fl h) {size : Nat}
    (hpages : h.brk + HeapInv.pagesFor size < 2 ^ 32) :
    h.endPtr < h.brk + HeapInv.pagesFor size ∧ h.heapExpand size = (0, h) ∨
      h.brk + HeapInv.pagesFor size ≤ h.endPtr ∧
        (h.heapExpand size).1 = h.brk ∧ h.brk ≠ 0 ∧
        size ≤ HeapInv.pagesFor size - 32 ∧
        HeapInv (bs ++ [(h.brk,
          ⟨HeapInv.pagesFor size - 32, heapMagicFree, 0, true⟩)]) (h.brk :: fl)
          (h.heapExpand size).2 ∧
        (h.heapExpand size).2.firstFit size Heap.walkSteps
          (h.heapExpand size).2.freeList = some h.brk := by
  rcases hi.expand_pages hpages with hfull | ⟨hunder, hptr, hhead, hi'⟩
  · exact Or.inl hfull
  · have hbrk : h.brk ≠ 0 :=
      Nat.ne_of_gt (Nat.lt_of_lt_of_le hi.start_pos hi.layout.le)
    have hfit : size ≤ HeapInv.pagesFor size - 32 := by
      unfold HeapInv.pagesFor
      omega
    have hread := hi'.read (List.mem_append_right _ List.mem_cons_self)
    -- the new block is the first one on the list
    have hfound := Heap.firstFit_head hhead hbrk hread.left
      (hfit.trans_eq hread.right.left.symm)
    exact Or.inr ⟨hunder, hptr, hbrk, hfit, hi', hfound⟩

/-- The search has ended in vain: `kmalloc` refuses, or takes a new block. -/
theorem kmalloc_expanded (hok : HeapOk bs fl h) {n size : Nat} (depth : Nat)
    (hn : n ≠ 0) (hsize : (alignUp (UInt32.ofNat n) heapAlign).toNat = size)
    (hpos : size ≠ 0)
    (hagain : (alignUp (UInt32.ofNat size) heapAlign).toNat = size)
    (hpages : h.brk + HeapInv.pagesFor size < 2 ^ 32)
    (hr : h.firstFit size Heap.walkSteps h.freeList = some 0) :
    h.endPtr < h.brk + HeapInv.pagesFor size ∧
        Heap.kmalloc (depth + 2) h n = some (0, h) ∨
      h.brk + HeapInv.pagesFor size ≤ h.endPtr ∧
        HeapInv (bs ++ [(h.brk,
          ⟨HeapInv.pagesFor size - 32, heapMagicFree, 0, true⟩)]) (h.brk :: fl)
          (h.heapExpand size).2 ∧
        Heap.kmalloc (depth + 2) h n =
          some ((h.heapExpand size).2.takeBlock h.brk size) := by
  have hrun := Heap.kmalloc_of_none (depth + 1) hn hsize hr
  rcases expand_found hok.inv hpages with
    ⟨hover, hfull⟩ | ⟨hunder, hptr, hbrk, _, hi, hfound⟩
  · rw [hfull, if_pos rfl] at hrun
    exact Or.inl ⟨hover, hrun⟩
  · rw [hptr, if_neg hbrk,
      Heap.kmalloc_of_found depth hpos hagain hfound hbrk] at hrun
    exact Or.inr ⟨hunder, hi, hrun⟩

/--
All that `kmalloc` can do: it refuses and changes nothing, or it takes the
block at which the search ends.
-/
theorem kmalloc_cases (hok : HeapOk bs fl h) {n : Nat} (depth : Nat)
    (hpos : 0 < n) (hn : n ≤ kernelHeapSize) :
    Heap.kmalloc (depth + 2) h n = some (0, h) ∨
      exists before a t after fl' h',
        Grown bs h (before ++ (a, t) :: after) h' ∧
        HeapOk (before ++ (a, t) :: after) fl' h' ∧
        t.magic = heapMagicFree ∧ (n + 15) / 16 * 16 ≤ t.size ∧
        Heap.kmalloc (depth + 2) h n =
          some (h'.takeBlock a ((n + 15) / 16 * 16)) := by
  have hne : n ≠ 0 := Nat.ne_of_gt hpos
  have hsize : (n + 15) / 16 * 16 ≤ kernelHeapSize := by
    unfold kernelHeapSize at *
    omega
  rcases hok.inv.firstFit ((n + 15) / 16 * 16) with
    ⟨r, hr, ⟨hnull, _⟩ | ⟨hfl, hrpos, _, hfit⟩⟩
  · have hagain : ((n + 15) / 16 * 16 + 15) / 16 * 16 = (n + 15) / 16 * 16 := by
      omega
    rw [hnull] at hr
    rcases hok.kmalloc_expanded depth hne (align_heap hn) (by omega)
        ((align_heap hsize).trans hagain) (hok.inv.pages_lt hsize) hr with
      ⟨_, hrefused⟩ | ⟨_, hi, hrun⟩
    · exact Or.inl hrefused
    · refine Or.inr ⟨bs, h.brk, _, [], _, _, Grown.page hi (Grown.refl _ _),
        hok.expand hi, rfl, ?_, hrun⟩
      unfold HeapInv.pagesFor
      dsimp only
      omega
  · rcases hok.kmalloc_found (depth + 1) hne (align_heap hn) hr hrpos hfl hfit
      with ⟨before, t, after, hbs, hfree, hle, _, hrun⟩
    exact Or.inr ⟨before, r, t, after, fl, h, hbs ▸ Grown.refl bs h, hbs ▸ hok,
      hfree, hle, hrun⟩

theorem Allocated.of_sameUsed {bs' bs'' : List (Nat × Tag)} {n p : Nat}
    (hsame : SameUsed bs bs') (halloc : Allocated bs' bs'' n p) :
    Allocated bs bs'' n p := by
  rcases halloc with ⟨hp, hused⟩ | ⟨a, t, hp, ht, hle, hfresh, hused⟩
  · exact Or.inl ⟨hp, fun b hb => (hused b hb).trans (hsame b hb)⟩
  · refine Or.inr ⟨a, t, hp, ht, hle, ?_, ?_⟩
    · intro u hu hmagic
      exact hfresh u ((hsame (a, u) hmagic).mpr hu) hmagic
    · intro b hb
      rw [hused b hb, hsame b hb]

/-- `kmalloc` calls itself at most once, and not at all when it refuses. -/
theorem kmalloc (hok : HeapOk bs fl h) {n : Nat} (depth : Nat)
    (hpos : 0 < n) (hn : n ≤ kernelHeapSize) :
    exists p h' bs' fl', Heap.kmalloc (depth + 2) h n = some (p, h') ∧
      HeapOk bs' fl' h' ∧ Allocated bs bs' n p ∧ (p = 0 -> h' = h) := by
  rcases hok.kmalloc_cases depth hpos hn with
    hrefused | ⟨before, a, t, after, fl', h', hgrown, hok', hfree, hfit, hrun⟩
  · exact ⟨0, h, bs, fl, hrefused, hok, Or.inl ⟨rfl, fun _ _ => Iff.rfl⟩,
      fun _ => rfl⟩
  · rcases hok'.takeBlock hfree (by omega) hfit with ⟨hptr, fl'', hok''⟩
    have halloc := hok'.allocated_takeBlock (n := n) hfree (by omega) hfit
    have hpair : h'.takeBlock a ((n + 15) / 16 * 16) =
        (a + blockHdrSize, (h'.takeBlock a ((n + 15) / 16 * 16)).2) :=
      Prod.ext hptr rfl
    rw [hpair] at hrun
    refine ⟨_, _, _, fl'', hrun, hok'', halloc.of_sameUsed hgrown.used,
      fun hp => ?_⟩
    unfold blockHdrSize at hp
    omega

end HeapOk

/-!
# Joining with the next block
-/

/-- `coalesce` takes in the block behind if it is free, and else none. -/
def TakesNext (gone rest : List (Nat × Tag)) : Prop :=
  gone = [] ∧ (forall b, b ∈ rest.head? -> b.2.magic ≠ heapMagicFree) ∨
    exists b, gone = [b] ∧ b.2.magic = heapMagicFree

theorem TakesNext.free {gone rest : List (Nat × Tag)}
    (h : TakesNext gone rest) {b : Nat × Tag} (hb : b ∈ gone) :
    b.2.magic = heapMagicFree := by
  rcases h with ⟨hnil, _⟩ | ⟨c, hone, hfree⟩
  · rw [hnil] at hb
    cases hb
  · rw [hone] at hb
    rw [List.mem_singleton.mp hb]
    exact hfree

/-- What a block takes in when it is joined with the next one: that one, if it is free. -/
def Joined (t : Tag) (n : Nat) (rest : List (Nat × Tag)) (h h' : Heap) : Prop :=
  (rest = [] ∧ n = t.size ∧ h'.stat = h.stat) ∨
    exists c u, rest = [(c, u)] ∧ u.magic = heapMagicFree ∧
      u.listed = true ∧ n = t.size + blockHdrSize + u.size ∧
      h'.stat = (h.countFree blockHdrSize).stat

namespace HeapInv

variable {before after : List (Nat × Tag)} {fl : List Nat} {h : Heap}
variable {a : Nat} {t : Tag}

theorem next_addr (hi : HeapInv (before ++ (a, t) :: after) fl h) :
    add32 (add32 a blockHdrSize) (h.size a) = a + blockHdrSize + t.size := by
  have hold : (a, t) ∈ before ++ (a, t) :: after := by simp
  have hbounds := hi.bounds hold
  have hbrk := hi.brk_lt
  have hpayload : add32 a blockHdrSize = a + blockHdrSize :=
    add32_of_lt (by unfold blockHdrSize at *; omega)
  rw [hpayload, (hi.read hold).right.left, add32_of_lt (by omega)]

theorem after_addr {b : Nat × Tag}
    (hi : HeapInv (before ++ (a, t) :: b :: after) fl h) :
    b.1 = a + blockHdrSize + t.size := by
  have hl := hi.layout
  rw [layout_append] at hl
  rcases hl with ⟨m, _, haddr, hbaddr, _⟩
  rw [hbaddr, ← haddr]

/-- What `coalesce` asks of the next block, and what it thereby learns. -/
theorem next_free_iff (hi : HeapInv (before ++ (a, t) :: after) fl h) :
    a + blockHdrSize + t.size < h.brk ∧
        h.magic (a + blockHdrSize + t.size) = heapMagicFree <->
      exists u rest, after = (a + blockHdrSize + t.size, u) :: rest ∧
        u.magic = heapMagicFree := by
  constructor
  · rintro ⟨hlt, hmagic⟩
    rcases hi.next_block hlt with ⟨u, rest, hafter⟩
    rw [hafter] at hi
    exact ⟨u, rest, hafter, (hi.read (by simp)).left.symm.trans hmagic⟩
  · rintro ⟨u, rest, hafter, hfree⟩
    rw [hafter] at hi
    have hn : (a + blockHdrSize + t.size, u) ∈
        before ++ (a, t) :: (a + blockHdrSize + t.size, u) :: rest := by simp
    have hbounds := hi.bounds hn
    refine ⟨?_, (hi.read hn).left.trans hfree⟩
    unfold blockHdrSize at *
    omega

/-- The block stays where the next one is not free, and else takes it in. -/
theorem coalesceNext_cases (hi : HeapInv (before ++ (a, t) :: after) fl h)
    (hsettled : forall b, b ∈ after -> Settled b) :
    h.coalesceNext a = h ∧
        (forall b, b ∈ after.head? -> b.2.magic ≠ heapMagicFree) ∨
      exists n u rest fl', after = (n, u) :: rest ∧
        u.magic = heapMagicFree ∧ u.listed = true ∧
        HeapInv
          (before ++ (a, { t with size := t.size + blockHdrSize + u.size }) ::
            rest) fl' (h.coalesceNext a) ∧
        (h.coalesceNext a).stat = (h.countFree blockHdrSize).stat := by
  unfold Heap.coalesceNext
  dsimp only
  rw [hi.next_addr]
  by_cases hcond : a + blockHdrSize + t.size < h.brk ∧
      h.magic (a + blockHdrSize + t.size) = heapMagicFree
  · rw [if_pos hcond]
    rcases hi.next_free_iff.mp hcond with ⟨u, rest, hafter, hfree⟩
    rw [hafter] at hi hsettled
    generalize a + blockHdrSize + t.size = n at *
    have hlisted : u.listed = true :=
      listed_of_settled (hsettled (n, u) List.mem_cons_self) hfree
    rw [List.append_cons] at hi
    have hremove := hi.remove hlisted
    rw [← List.append_cons] at hremove
    have hboundsn := hremove.bounds (a := n)
      (t := { u with listed := false }) (by simp)
    have hreada := hremove.read (a := a) (t := t) (by simp)
    have hreadn := hremove.read (a := n) (t := { u with listed := false })
      (by simp)
    have hboundsa := hremove.bounds (a := a) (t := t) (by simp)
    have hnext := hremove.after_addr
    have hbrk' := hremove.brk_lt
    have habsorb := hremove.absorb rfl
    dsimp only at hboundsn habsorb hreadn hnext
    have hinner : add32 blockHdrSize u.size = blockHdrSize + u.size :=
      add32_of_lt (by omega)
    have hsum : add32 ((h.freeListRemove n).size a)
        (add32 blockHdrSize ((h.freeListRemove n).size n)) =
        t.size + blockHdrSize + u.size := by
      rw [hreada.right.left, hreadn.right.left, hinner, Nat.add_assoc]
      apply add32_of_lt
      omega
    have hstat : (((h.freeListRemove n).setSize a
        (t.size + blockHdrSize + u.size)).countFree blockHdrSize).stat =
        (h.countFree blockHdrSize).stat := by
      have hkeep : ((h.freeListRemove n).setSize a
          (t.size + blockHdrSize + u.size)).stat = h.stat :=
        stat_freeListRemove h n
      unfold Heap.countFree
      rw [hkeep]
    rw [hsum]
    exact Or.inr ⟨n, u, rest, _, hafter, hfree, hlisted, habsorb.countFree _,
      hstat⟩
  · rw [if_neg hcond]
    refine Or.inl ⟨rfl, ?_⟩
    intro b hb hfree
    rcases List.head?_eq_some_iff.mp hb with ⟨rest, hafter⟩
    refine hcond (hi.next_free_iff.mpr ⟨b.2, rest, ?_, hfree⟩)
    rw [hafter] at hi ⊢
    rw [← hi.after_addr]

/-- The block grows by the next one if that is free, and else stays. -/
theorem coalesceNext (hi : HeapInv (before ++ (a, t) :: after) fl h)
    (hsettled : forall b, b ∈ after -> Settled b) :
    exists n gone rest fl', after = gone ++ rest ∧ TakesNext gone rest ∧
      HeapInv (before ++ (a, { t with size := n }) :: rest) fl'
        (h.coalesceNext a) ∧
      Joined t n gone h (h.coalesceNext a) := by
  rcases hi.coalesceNext_cases hsettled with
    ⟨hsame, hnot⟩ | ⟨n, u, rest, fl', hafter, hfree, hlisted, hi', hstat⟩
  · rw [hsame]
    exact ⟨t.size, [], after, fl, rfl, Or.inl ⟨rfl, hnot⟩, hi,
      Or.inl ⟨rfl, rfl, rfl⟩⟩
  · exact ⟨_, [(n, u)], rest, fl', hafter, Or.inr ⟨(n, u), rfl, hfree⟩, hi',
      Or.inr ⟨n, u, rfl, hfree, hlisted, rfl, hstat⟩⟩

/-!
# Joining with the previous block
-/

/-- A freed block that joins no block in front is put on the free list. -/
theorem pushFree (hi : HeapInv (before ++ (a, t) :: after) fl h)
    (hfree : t.magic = heapMagicFree) (hlisted : t.listed = false)
    (hbefore : forall b, b ∈ before -> Settled b)
    (hafter : forall b, b ∈ after -> Settled b) :
    HeapOk (before ++ (a, { t with listed := true }) :: after) (a :: fl)
      (h.pushFree a) := by
  refine ⟨hi.push hlisted, ?_⟩
  intro b hb
  simp only [List.mem_append, List.mem_cons] at hb
  rcases hb with hb | hb | hb
  · exact hbefore b hb
  · rw [hb]
    exact Or.inl ⟨hfree, rfl⟩
  · exact hafter b hb

/-- The block is listed as it is, or the free block in front takes it in. -/
theorem coalescePrev_cases (hi : HeapInv (before ++ (a, t) :: after) fl h)
    (hfree : t.magic = heapMagicFree) (hlisted : t.listed = false)
    (hbefore : forall b, b ∈ before -> Settled b)
    (hafter : forall b, b ∈ after -> Settled b)
    (hback : BackOk h before t.prevPhys) :
    (t.prevPhys = 0 ∨ h.magic t.prevPhys ≠ heapMagicFree) ∧
        HeapOk (before ++ (a, { t with listed := true }) :: after) (a :: fl)
          (h.coalescePrev a) ∨
      exists front u fl', before = front ++ [(t.prevPhys, u)] ∧
        u.magic = heapMagicFree ∧
        HeapOk
          (front ++ (t.prevPhys,
            { u with
              size := u.size + blockHdrSize + t.size
              listed := true }) :: after) fl'
          (h.coalescePrev a) := by
  have hold : (a, t) ∈ before ++ (a, t) :: after := by simp
  have hread := hi.read hold
  unfold Heap.coalescePrev
  rw [hread.right.right]
  by_cases hcond : t.prevPhys ≠ 0 ∧ h.magic t.prevPhys = heapMagicFree
  · rw [if_pos hcond]
    rcases hback.adjacent hcond with ⟨front, u, hsplit⟩
    generalize t.prevPhys = p at *
    rw [hsplit, List.append_assoc, List.singleton_append] at hi
    have hp : (p, u) ∈ front ++ (p, u) :: (a, t) :: after := by simp
    have hpfree : u.magic = heapMagicFree :=
      (hi.read hp).left.symm.trans hcond.right
    have hplisted : u.listed = true :=
      listed_of_settled (hbefore (p, u) (by rw [hsplit]; simp)) hpfree
    have hremove := hi.remove hplisted
    have hreadp := hremove.read (a := p) (t := { u with listed := false })
      (by simp)
    have hreada := hremove.read (a := a) (t := t) (by simp)
    have hbounds := hremove.bounds (a := a) (t := t) (by simp)
    have hbrk := hremove.brk_lt
    have hl := hremove.layout
    rw [layout_append] at hl
    rcases hl with ⟨m, _, hpaddr, haaddr, _⟩
    dsimp only at hpaddr haaddr
    have hinner : add32 blockHdrSize t.size = blockHdrSize + t.size :=
      add32_of_lt (by omega)
    have hsum : add32 ((h.freeListRemove p).size p)
        (add32 blockHdrSize ((h.freeListRemove p).size a)) =
        u.size + blockHdrSize + t.size := by
      rw [hreada.right.left, hreadp.right.left, hinner, Nat.add_assoc]
      apply add32_of_lt
      dsimp only
      omega
    dsimp only
    rw [hsum]
    refine Or.inr ⟨front, u, _, hsplit, hpfree,
      ((hremove.absorb hlisted).countFree _).push rfl, ?_⟩
    intro b hb
    simp only [List.mem_append, List.mem_cons] at hb
    rcases hb with hb | hb | hb
    · apply hbefore
      rw [hsplit]
      exact List.mem_append_left _ hb
    · rw [hb]
      exact Or.inl ⟨hpfree, rfl⟩
    · exact hafter b hb
  · rw [if_neg hcond]
    refine Or.inl ⟨?_, hi.pushFree hfree hlisted hbefore hafter⟩
    by_contra hboth
    rw [not_or, not_not] at hboth
    exact hcond hboth

theorem sameUsed_replace {front middle middle' rest : List (Nat × Tag)}
    (hold : forall b, b ∈ middle -> b.2.magic = heapMagicFree)
    (hnew : forall b, b ∈ middle' -> b.2.magic = heapMagicFree) :
    SameUsed (front ++ (middle ++ rest)) (front ++ (middle' ++ rest)) := by
  intro b hb
  have hnot : b ∉ middle := fun hmem =>
    magic_ne ((hold b hmem).symm.trans hb)
  have hnot' : b ∉ middle' := fun hmem =>
    magic_ne ((hnew b hmem).symm.trans hb)
  simp only [List.mem_append, hnot, hnot', false_or]

theorem coalescePrev (hi : HeapInv (before ++ (a, t) :: after) fl h)
    (hfree : t.magic = heapMagicFree) (hlisted : t.listed = false)
    (hbefore : forall b, b ∈ before -> Settled b)
    (hafter : forall b, b ∈ after -> Settled b)
    (hback : BackOk h before t.prevPhys) :
    exists bs' fl', HeapOk bs' fl' (h.coalescePrev a) ∧
      SameUsed (before ++ after) bs' := by
  rcases hi.coalescePrev_cases hfree hlisted hbefore hafter hback with
    ⟨_, hok⟩ | ⟨front, u, fl', hsplit, hpfree, hok⟩
  · have hsame : SameUsed (before ++ ([] ++ after))
        (before ++ ([(a, { t with listed := true })] ++ after)) :=
      sameUsed_replace (List.forall_mem_nil _)
        (List.forall_mem_singleton.mpr hfree)
    exact ⟨_, _, hok, hsame⟩
  · refine ⟨_, fl', hok, ?_⟩
    rw [hsplit, List.append_assoc]
    exact sameUsed_replace (List.forall_mem_singleton.mpr hpfree)
      (List.forall_mem_singleton.mpr hpfree)

end HeapInv

/-!
# Words that are not magic

A store of an aligned word, or to another field than `magic`, turns no aligned
word into `HEAP_MAGIC_FREE`.
-/

theorem Heap.magic_countFree (h : Heap) (n p : Nat) :
    (h.countFree n).magic p = h.magic p := rfl

theorem Heap.magic_set {h : Heap} {f : HdrField} {a p v : Nat} (ha : 16 ∣ a)
    (hp : 16 ∣ p) (hf : f ≠ HdrField.magic ∨ p ≠ a)
    (hv : f ≠ HdrField.prevFree ∨ 16 ∣ v) (hlt : v < 2 ^ 32)
    (hmagic : h.magic p ≠ heapMagicFree) :
    (h.set f a v).magic p ≠ heapMagicFree := by
  unfold Heap.magic Heap.get Heap.set HdrField.offset at *
  by_cases hword : a + f.offset = p
  · have hprev : f = HdrField.prevFree ∧ p = a + 16 := by
      unfold HdrField.offset at hword
      cases f <;> simp at * <;> omega
    have haligned := hv.resolve_left (fun hne => hne hprev.left)
    rw [hprev.left, hprev.right]
    dsimp only
    rw [Nat.add_zero, load32_store32_self _ _ hlt]
    unfold heapMagicFree
    omega
  · dsimp only at hmagic ⊢
    rw [load32_store32_of_disjoint]
    · exact hmagic
    · unfold HdrField.offset at hword
      cases f <;> simp at * <;> omega

namespace HeapInv

variable {bs before after : List (Nat × Tag)} {fl : List Nat} {h : Heap}
variable {a : Nat} {t : Tag}

theorem free_aligned (hi : HeapInv bs fl h) (ha : a ∈ fl) : 16 ∣ a := by
  rcases hi.mem_free.mp ha with ⟨u, hu, _⟩
  exact hi.aligned hu

theorem head_mem (hi : HeapInv bs fl h) :
    h.freeList = 0 ∨ h.freeList ∈ fl := by
  rcases hi.headers with ⟨H, _, hh⟩
  exact hh.head_known

theorem links_mem (hi : HeapInv bs fl h) (ha : a ∈ fl) :
    (h.prevFree a = 0 ∨ h.prevFree a ∈ fl) ∧
      (h.nextFree a = 0 ∨ h.nextFree a ∈ fl) := by
  rcases hi.headers with ⟨H, _, hh⟩
  constructor
  · by_cases hnull : h.prevFree a = 0
    · exact Or.inl hnull
    · exact Or.inr (hh.links.prev_mem ha
        (toPtr_of_pos (Nat.pos_of_ne_zero hnull)))
  · by_cases hnull : h.nextFree a = 0
    · exact Or.inl hnull
    · exact Or.inr (hh.links.next_mem ha
        (toPtr_of_pos (Nat.pos_of_ne_zero hnull)))

theorem links_aligned (hi : HeapInv bs fl h) (ha : a ∈ fl) :
    16 ∣ h.nextFree a ∧ 16 ∣ h.prevFree a := by
  have hlinks := hi.links_mem ha
  constructor
  · rcases hlinks.right with hnull | hmem
    · rw [hnull]
      exact Nat.dvd_zero 16
    · exact hi.free_aligned hmem
  · rcases hlinks.left with hnull | hmem
    · rw [hnull]
      exact Nat.dvd_zero 16
    · exact hi.free_aligned hmem

theorem magic_freeListRemove (hi : HeapInv bs fl h) (ha : a ∈ fl) {p : Nat}
    (hp : 16 ∣ p) (hmagic : h.magic p ≠ heapMagicFree) :
    (h.freeListRemove a).magic p ≠ heapMagicFree := by
  have haligned := hi.free_aligned ha
  have hlinks := hi.links_aligned ha
  have hzero : (0 : Nat) < 2 ^ 32 := by decide
  -- the first store leaves both links of the block as they are
  have hfirst : exists h1 : Heap,
      h.freeListRemove a =
        ((if h1.nextFree a = 0 then h1
          else h1.setPrevFree (h1.nextFree a) (h1.prevFree a)).setNextFree a
            0).setPrevFree a 0 ∧
      h1.nextFree a = h.nextFree a ∧ h1.prevFree a = h.prevFree a ∧
      h1.magic p ≠ heapMagicFree := by
    by_cases hnull : h.prevFree a = 0
    · refine ⟨{ h with freeList := h.nextFree a }, ?_, rfl, rfl, hmagic⟩
      unfold Heap.freeListRemove
      rw [if_pos hnull]
    · refine ⟨h.setNextFree (h.prevFree a) (h.nextFree a), ?_, ?_, ?_, ?_⟩
      · unfold Heap.freeListRemove
        rw [if_neg hnull]
      · by_cases hself : h.prevFree a = a
        · rw [hself]
          exact load32_store32_self _ _ (h.get_lt _ _)
        · apply load32_store32_of_disjoint
          have hdvd := hlinks.right
          unfold HdrField.offset
          omega
      · apply load32_store32_of_disjoint
        have hdvd := hlinks.right
        unfold HdrField.offset
        dsimp only
        omega
      · exact Heap.magic_set hlinks.right hp (Or.inl (by decide))
          (Or.inl (by decide)) (h.get_lt _ _) hmagic
  rcases hfirst with ⟨h1, hremove, hnext, hprev, hmagic1⟩
  rw [hremove, hnext, hprev]
  apply Heap.magic_set haligned hp (Or.inl (by decide))
    (Or.inr (Nat.dvd_zero 16)) hzero
  apply Heap.magic_set haligned hp (Or.inl (by decide)) (Or.inl (by decide))
    hzero
  split
  · exact hmagic1
  · exact Heap.magic_set hlinks.left hp (Or.inl (by decide))
      (Or.inr hlinks.right) (h.get_lt _ _) hmagic1

theorem magic_coalesceNext (hi : HeapInv (before ++ (a, t) :: after) fl h)
    (hsettled : forall b, b ∈ after -> Settled b) {p : Nat} (hp : 16 ∣ p)
    (hmagic : h.magic p ≠ heapMagicFree) :
    (h.coalesceNext a).magic p ≠ heapMagicFree := by
  unfold Heap.coalesceNext
  dsimp only
  rw [hi.next_addr]
  split
  · rename_i hcond
    rcases hi.next_free_iff.mp hcond with ⟨u, rest, hafter, hfree⟩
    rw [hafter] at hi hsettled
    have hlisted : u.listed = true :=
      listed_of_settled (hsettled _ List.mem_cons_self) hfree
    have hfl : a + blockHdrSize + t.size ∈ fl :=
      hi.mem_free.mpr ⟨u, by simp, hlisted⟩
    have hremove := hi.magic_freeListRemove hfl hp hmagic
    have haligned : 16 ∣ a := hi.aligned (t := t) (by simp)
    rw [Heap.magic_countFree]
    apply Heap.magic_set haligned hp (Or.inl (by decide))
      (Or.inl (by decide)) (Nat.mod_lt _ (by decide)) hremove
  · exact hmagic

end HeapInv

/-!
# Freeing
-/

namespace HeapOk

variable {bs before after : List (Nat × Tag)} {fl : List Nat} {h : Heap}
variable {a : Nat} {t : Tag}

theorem settled_after (hok : HeapOk (before ++ (a, t) :: after) fl h)
    (b : Nat × Tag) (hb : b ∈ after) : Settled b :=
  hok.settled b (List.mem_append_right _ (List.mem_cons_of_mem _ hb))

theorem settled_before (hok : HeapOk (before ++ (a, t) :: after) fl h)
    (b : Nat × Tag) (hb : b ∈ before) : Settled b :=
  hok.settled b (List.mem_append_left _ hb)

/-- Joining with the next block does not bring a stale `prev_phys` to life. -/
theorem backOk_coalesceNext (hok : HeapOk (before ++ (a, t) :: after) fl h)
    (hback : BackOk h before (h.prevPhys a)) (stat : HeapStats) :
    BackOk ((Heap.setMagic { h with stat := stat } a
      heapMagicFree).coalesceNext a) before t.prevPhys := by
  have hold : (a, t) ∈ before ++ (a, t) :: after := by simp
  have hbacks := hok.inv.backs (a, t) hold
  have hmarked := HeapInv.setMagic (hok.inv.withStat stat) heapMagicFree_lt
  rw [(hok.inv.read hold).right.right] at hback
  rcases hback with hback | hback | hback
  · exact Or.inl hback
  · exact Or.inr (Or.inl (hmarked.magic_coalesceNext hok.settled_after
      hbacks.left (Heap.magic_set (hok.inv.aligned hold) hbacks.left
        (Or.inr hbacks.right) (Or.inl (by decide)) heapMagicFree_lt hback)))
  · exact Or.inr (Or.inr hback)

/-- The block is marked as free, and takes in the next one if that is free. -/
theorem marked (hok : HeapOk (before ++ (a, t) :: after) fl h)
    (stat : HeapStats) :
    exists n gone rest fl', after = gone ++ rest ∧ TakesNext gone rest ∧
      (forall b, b ∈ rest -> Settled b) ∧
      HeapInv
        (before ++ (a, { t with size := n, magic := heapMagicFree }) :: rest) fl'
        ((Heap.setMagic { h with stat := stat } a heapMagicFree).coalesceNext
          a) ∧
      Joined { t with magic := heapMagicFree } n gone
        (Heap.setMagic { h with stat := stat } a heapMagicFree)
        ((Heap.setMagic { h with stat := stat } a heapMagicFree).coalesceNext
          a) := by
  have hmarked := HeapInv.setMagic (hok.inv.withStat stat) heapMagicFree_lt
  rcases hmarked.coalesceNext hok.settled_after with
    ⟨n, gone, rest, fl', hafter, htakes, hnext, hjoined⟩
  refine ⟨n, gone, rest, fl', hafter, htakes, ?_, hnext, hjoined⟩
  intro b hb
  apply hok.settled_after
  rw [hafter]
  exact List.mem_append_right _ hb

theorem release (hok : HeapOk (before ++ (a, t) :: after) fl h)
    (hused : t.magic = heapMagicUsed)
    (hback : BackOk h before (h.prevPhys a)) (stat : HeapStats) :
    exists bs' fl',
      HeapOk bs' fl'
        ((Heap.setMagic { h with stat := stat } a heapMagicFree).coalesce a) ∧
      SameUsed (before ++ after) bs' := by
  have hold : (a, t) ∈ before ++ (a, t) :: after := by simp
  have hlisted := hok.unlisted_of_used hold hused
  rcases hok.marked stat with
    ⟨n, gone, rest, fl', hafter, htakes, hrest, hnext, _⟩
  rcases hnext.coalescePrev rfl hlisted hok.settled_before hrest
    (hok.backOk_coalesceNext hback stat) with ⟨bs', fl'', hok', hsame⟩
  refine ⟨bs', fl'', hok', ?_⟩
  intro b hb
  have hnot : b ∉ gone := by
    intro hmem
    exact magic_ne ((htakes.free hmem).symm.trans hb)
  rw [hsame b hb, hafter]
  simp only [List.mem_append, hnot, false_or]

theorem kfree_eq (hok : HeapOk (before ++ (a, t) :: after) fl h)
    (hused : t.magic = heapMagicUsed) :
    h.kfree (a + blockHdrSize) =
      (Heap.setMagic
        { h with stat :=
            { h.stat with
                usedBytes := h.stat.usedBytes - UInt32.ofNat t.size
                freeBytes := h.stat.freeBytes + UInt32.ofNat t.size
                freeCount := h.stat.freeCount + 1 } } a
        heapMagicFree).coalesce a := by
  have hold : (a, t) ∈ before ++ (a, t) :: after := by simp
  have hread := hok.inv.read hold
  unfold Heap.kfree
  dsimp only
  rw [if_neg (by unfold blockHdrSize; omega), hok.inv.header_of_payload hold,
    if_neg (fun hne => hne (hread.left.trans hused)), hread.right.left]

/-- Freeing a used block takes it away and leaves the other used blocks. -/
theorem kfree (hok : HeapOk (before ++ (a, t) :: after) fl h)
    (hused : t.magic = heapMagicUsed)
    (hback : BackOk h before (h.prevPhys a)) :
    exists bs' fl', HeapOk bs' fl' (h.kfree (a + blockHdrSize)) ∧
      SameUsed (before ++ after) bs' := by
  rw [hok.kfree_eq hused]
  exact hok.release hused hback _

end HeapOk

end Mm
end EarlnuxOS
