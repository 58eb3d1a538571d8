import EarlnuxOS.Mm.Heap.Layout

/-!
# The heap invariant

The blocks fill the heap from `heap_start` to `heap_brk`, their headers hold
their tags, and the free list holds the listed ones.  Nothing is said of
`prev_phys` but that it is aligned and does not point at its own block: the
allocator does not keep it up to date.
-/

namespace EarlnuxOS
namespace Mm

open Foundation

structure HeapInv (bs : List (Nat × Tag)) (fl : List Nat) (h : Heap) :
    Prop where
  start_pos : 0 < h.startPtr
  start_aligned : 16 ∣ h.startPtr
  room : h.endPtr + kernelHeapSize + 2 ^ 13 ≤ 2 ^ 32
  brk_le : h.brk ≤ h.endPtr
  layout : Layout h.startPtr bs h.brk
  sizes : forall b, b ∈ bs -> 16 ∣ b.2.size
  backs : forall b, b ∈ bs -> 16 ∣ b.2.prevPhys ∧ b.2.prevPhys ≠ b.1
  headers : exists H, Lists H bs ∧ Headers H fl h

theorem Layout.aligned {bs : List (Nat × Tag)} {a e : Nat}
    (h : Layout a bs e) (ha : 16 ∣ a)
    (hsizes : forall b, b ∈ bs -> 16 ∣ b.2.size) :
    16 ∣ e ∧ forall b, b ∈ bs -> 16 ∣ b.1 := by
  induction bs generalizing a with
  | nil =>
      rw [← show a = e from h]
      refine ⟨ha, ?_⟩
      intro b hb
      cases hb
  | cons c bs ih =>
      have hc := hsizes c List.mem_cons_self
      have hnext : 16 ∣ a + blockHdrSize + c.2.size := by
        unfold blockHdrSize
        omega
      have htail := ih h.right hnext
        (fun b hb => hsizes b (List.mem_cons_of_mem c hb))
      refine ⟨htail.left, ?_⟩
      intro b hb
      rcases List.mem_cons.mp hb with hb | hb
      · rw [hb, h.left]
        exact ha
      · exact htail.right b hb

theorem Layout.fresh {before after : List (Nat × Tag)} {s e a : Nat} {t : Tag}
    (h : Layout s (before ++ (a, t) :: after) e) (c : Nat) (u : Tag)
    (hc : (c, u) ∈ before ∨ (c, u) ∈ after) : c ≠ a := by
  have hpair := h.pairwise
  rw [List.pairwise_append, List.pairwise_cons] at hpair
  unfold blockHdrSize at hpair
  rcases hc with hc | hc
  · have hle := hpair.right.right (c, u) hc (a, t) List.mem_cons_self
    dsimp only at hle
    omega
  · have hle := hpair.right.left.left (c, u) hc
    dsimp only at hle
    omega

theorem Layout.retag {before after : List (Nat × Tag)} {s e a : Nat}
    {t t' : Tag} (h : Layout s (before ++ (a, t) :: after) e)
    (hsize : t'.size = t.size) :
    Layout s (before ++ (a, t') :: after) e := by
  rw [layout_append] at h ⊢
  rcases h with ⟨m, hbefore, haddr, hafter⟩
  refine ⟨m, hbefore, haddr, ?_⟩
  dsimp only at hafter ⊢
  rw [hsize]
  exact hafter

/-- `heap_expand` from the move of the break on, for a block of `n` bytes. -/
def Heap.takeTop (h : Heap) (expand n : Nat) : Heap :=
  let blk := h.brk
  let h := { h with brk := blk + expand }
  let h := ((h.setMagic blk heapMagicFree).setSize blk n).setPrevPhys blk 0
  let h := h.pushFree blk
  let h := { h with stat :=
      { h.stat with heapEnd := UInt32.ofNat h.brk } }
  h.countFree (h.size blk)

namespace HeapInv

variable {bs before after : List (Nat × Tag)} {fl : List Nat} {h : Heap}
variable {a : Nat} {t : Tag}

theorem brk_lt (hi : HeapInv bs fl h) : h.brk < 2 ^ 32 - 2 ^ 28 := by
  have hroom := hi.room
  have hbrk := hi.brk_le
  unfold kernelHeapSize at hroom
  omega

theorem aligned (hi : HeapInv bs fl h) (hb : (a, t) ∈ bs) : 16 ∣ a :=
  (hi.layout.aligned hi.start_aligned hi.sizes).right (a, t) hb

theorem bounds (hi : HeapInv bs fl h) (hb : (a, t) ∈ bs) :
    h.startPtr ≤ a ∧ a + blockHdrSize + t.size ≤ h.brk :=
  hi.layout.bounds hb

theorem read (hi : HeapInv bs fl h) (hb : (a, t) ∈ bs) :
    h.magic a = t.magic ∧ h.size a = t.size ∧ h.prevPhys a = t.prevPhys := by
  rcases hi.headers with ⟨H, hlists, hh⟩
  exact hh.tags a t ((hlists a t).mpr hb)

theorem mem_free (hi : HeapInv bs fl h) :
    a ∈ fl <-> exists t, (a, t) ∈ bs ∧ t.listed = true := by
  rcases hi.headers with ⟨H, hlists, hh⟩
  rw [hh.listed a]
  exact exists_congr fun t => and_congr (hlists a t) Iff.rfl

theorem tag_unique (hi : HeapInv bs fl h) {u : Tag} (ht : (a, t) ∈ bs)
    (hu : (a, u) ∈ bs) : t = u :=
  congrArg Prod.snd (hi.layout.eq_of_addr ht hu rfl)

/-- Only the blocks are to be checked again where the bounds are kept. -/
theorem relist (hi : HeapInv bs fl h) {bs' : List (Nat × Tag)}
    {fl' : List Nat} {h' : Heap}
    (hbounds : h'.startPtr = h.startPtr ∧ h'.endPtr = h.endPtr ∧
      h'.brk = h.brk)
    (hlayout : Layout h.startPtr bs' h.brk)
    (hsizes : forall b, b ∈ bs' -> 16 ∣ b.2.size)
    (hbacks : forall b, b ∈ bs' -> 16 ∣ b.2.prevPhys ∧ b.2.prevPhys ≠ b.1)
    (hheaders : exists H, Lists H bs' ∧ Headers H fl' h') :
    HeapInv bs' fl' h' := by
  rcases hbounds with ⟨hstart, hend, hbrk⟩
  constructor
  · rw [hstart]
    exact hi.start_pos
  · rw [hstart]
    exact hi.start_aligned
  · rw [hend]
    exact hi.room
  · rw [hbrk, hend]
    exact hi.brk_le
  · rw [hstart, hbrk]
    exact hlayout
  · exact hsizes
  · exact hbacks
  · exact hheaders

theorem frame (hi : HeapInv bs fl h) {h' : Heap}
    (hmem : forall b f, b ∈ bs -> h'.get f b.1 = h.get f b.1)
    (hstart : h'.startPtr = h.startPtr) (hend : h'.endPtr = h.endPtr)
    (hbrk : h'.brk = h.brk) (hhead : h'.freeList = h.freeList) :
    HeapInv bs fl h' := by
  rcases hi.headers with ⟨H, hlists, hh⟩
  have hframe : Headers H fl h' := by
    apply hh.frame _ hhead
    intro c f hc
    rcases hlists.known.mp hc with ⟨u, hu⟩
    exact hmem (c, u) f hu
  exact hi.relist ⟨hstart, hend, hbrk⟩ hi.layout hi.sizes hi.backs
    ⟨H, hlists, hframe⟩

theorem withStat (hi : HeapInv bs fl h) (stat : HeapStats) :
    HeapInv bs fl { h with stat := stat } :=
  hi.frame (fun _ _ _ => rfl) rfl rfl rfl rfl

theorem countFree (hi : HeapInv bs fl h) (n : Nat) :
    HeapInv bs fl (h.countFree n) :=
  hi.withStat _

theorem mem_replace {before after after' : List (Nat × Tag)} {b c : Nat × Tag}
    (hsub : after ⊆ after') (h : b ∈ before ++ c :: after) :
    b = c ∨ b ∈ before ++ after' := by
  rcases List.mem_append.mp h with hb | hb
  · exact Or.inr (List.mem_append_left _ hb)
  · rcases List.mem_cons.mp hb with hb | hb
    · exact Or.inl hb
    · exact Or.inr (List.mem_append_right _ (hsub hb))

/-- A change to the header of one block that leaves the blocks in place. -/
theorem retag {t' : Tag} {fl' : List Nat} {h' : Heap}
    (hi : HeapInv (before ++ (a, t) :: after) fl h)
    (hheaders : forall H, H a = some t -> Headers H fl h ->
      Headers (Function.update H a (some t')) fl' h')
    (hsize : t'.size = t.size) (hback : t'.prevPhys = t.prevPhys)
    (hstart : h'.startPtr = h.startPtr) (hend : h'.endPtr = h.endPtr)
    (hbrk : h'.brk = h.brk) :
    HeapInv (before ++ (a, t') :: after) fl' h' := by
  have hold : (a, t) ∈ before ++ (a, t) :: after := by simp
  have hmem : forall b, b ∈ before ++ (a, t') :: after ->
      b = (a, t') ∨ b ∈ before ++ (a, t) :: after :=
    fun b hb => mem_replace (List.subset_cons_self _ _) hb
  rcases hi.headers with ⟨H, hlists, hh⟩
  apply hi.relist ⟨hstart, hend, hbrk⟩ (hi.layout.retag hsize)
  · intro b hb
    rcases hmem b hb with hb | hb
    · rw [hb, show (a, t').2.size = t.size from hsize]
      exact hi.sizes (a, t) hold
    · exact hi.sizes b hb
  · intro b hb
    rcases hmem b hb with hb | hb
    · rw [hb, show (a, t').2.prevPhys = t.prevPhys from hback]
      exact hi.backs (a, t) hold
    · exact hi.backs b hb
  · have hreplace := hlists.replace hi.layout.fresh (some t')
    simp only [Option.toList_some, List.map_cons, List.map_nil,
      List.append_assoc, List.singleton_append] at hreplace
    exact ⟨_, hreplace, hheaders H ((hlists a t).mpr hold) hh⟩

theorem setMagic (hi : HeapInv (before ++ (a, t) :: after) fl h) {v : Nat}
    (hv : v < 2 ^ 32) :
    HeapInv (before ++ (a, { t with magic := v }) :: after) fl
      (h.setMagic a v) :=
  hi.retag (fun _ ht hh => hh.setMagic ht hv) rfl rfl rfl rfl rfl

theorem heap_pushFree (h : Heap) (a : Nat) :
    (h.pushFree a).startPtr = h.startPtr ∧
      (h.pushFree a).endPtr = h.endPtr ∧ (h.pushFree a).brk = h.brk := by
  unfold Heap.pushFree
  dsimp only
  split <;> exact ⟨rfl, rfl, rfl⟩

theorem heap_freeListRemove (h : Heap) (a : Nat) :
    (h.freeListRemove a).startPtr = h.startPtr ∧
      (h.freeListRemove a).endPtr = h.endPtr ∧
      (h.freeListRemove a).brk = h.brk := by
  unfold Heap.freeListRemove
  dsimp only
  split <;> split <;> exact ⟨rfl, rfl, rfl⟩

theorem stat_pushFree (h : Heap) (a : Nat) : (h.pushFree a).stat = h.stat := by
  unfold Heap.pushFree
  dsimp only
  split <;> rfl

theorem stat_freeListRemove (h : Heap) (a : Nat) :
    (h.freeListRemove a).stat = h.stat := by
  unfold Heap.freeListRemove
  dsimp only
  split <;> split <;> rfl

theorem push (hi : HeapInv (before ++ (a, t) :: after) fl h)
    (hlisted : t.listed = false) :
    HeapInv (before ++ (a, { t with listed := true }) :: after) (a :: fl)
      (h.pushFree a) := by
  have hkeep := heap_pushFree h a
  exact hi.retag (fun _ ht hh => hh.push ht hlisted) rfl rfl hkeep.left
    hkeep.right.left hkeep.right.right

theorem remove (hi : HeapInv (before ++ (a, t) :: after) fl h)
    (hlisted : t.listed = true) :
    HeapInv (before ++ (a, { t with listed := false }) :: after) (fl.erase a)
      (h.freeListRemove a) := by
  have hkeep := heap_freeListRemove h a
  exact hi.retag (fun _ ht hh => hh.remove ht hlisted) rfl rfl hkeep.left
    hkeep.right.left hkeep.right.right

end HeapInv

/-!
# Splitting
-/

theorem add32_of_lt {x y : Nat} (h : x + y < 2 ^ 32) : add32 x y = x + y :=
  Nat.mod_eq_of_lt h

theorem sub32_of_le {x y : Nat} (hle : y ≤ x) (hx : x < 2 ^ 32) :
    sub32 x y = x - y := by
  unfold sub32
  rw [show x + 2 ^ 32 - y = (x - y) + 2 ^ 32 by omega, Nat.add_mod_right,
    Nat.mod_eq_of_lt (by omega)]

theorem heapMagicFree_lt : heapMagicFree < 2 ^ 32 := by decide

theorem heapMagicUsed_lt : heapMagicUsed < 2 ^ 32 := by decide

theorem Headers.withStat {H : Nat -> Option Tag} {fl : List Nat} {h : Heap}
    (hh : Headers H fl h) (stat : HeapStats) :
    Headers H fl { h with stat := stat } :=
  hh.frame (fun _ _ _ => rfl) rfl

theorem Headers.withBrk {H : Nat -> Option Tag} {fl : List Nat} {h : Heap}
    (hh : Headers H fl h) (brk : Nat) : Headers H fl { h with brk := brk } :=
  hh.frame (fun _ _ _ => rfl) rfl

theorem Headers.countFree {H : Nat -> Option Tag} {fl : List Nat} {h : Heap}
    (hh : Headers H fl h) (n : Nat) : Headers H fl (h.countFree n) :=
  hh.withStat _

/-- The header that `maybe_split` and `heap_expand` write at a new block. -/
theorem Headers.create {H : Nat -> Option Tag} {fl : List Nat} {h : Heap}
    (hh : Headers H fl h) {x : Nat} (size back : Nat)
    (hx : forall a, H a ≠ none -> HdrApart x a) (hpos : 0 < x)
    (hlt : x < 2 ^ 32) (hsize : size < 2 ^ 32) (hback : back < 2 ^ 32) :
    Headers (Function.update H x (some ⟨size, heapMagicFree, back, true⟩))
      (x :: fl)
      ((((h.setMagic x heapMagicFree).setSize x size).setPrevPhys x
        back).pushFree x) := by
  have hwritten := ((hh.set_other HdrField.magic hx heapMagicFree_lt).set_other
    HdrField.size hx hsize).set_other HdrField.prevPhys hx hback
  have hadopt := hwritten.adopt (t := ⟨size, heapMagicFree, back, false⟩) hx
    hpos hlt
    (by
      rw [Heap.magic, Heap.get_set_of_ne _ (by decide) (Or.inl rfl) hback,
        Heap.get_set_of_ne _ (by decide) (Or.inl rfl) hsize,
        Heap.get_set_self _ _ (Or.inl rfl) heapMagicFree_lt, if_pos rfl])
    (by
      rw [Heap.size, Heap.get_set_of_ne _ (by decide) (Or.inl rfl) hback,
        Heap.get_set_self _ _ (Or.inl rfl) hsize, if_pos rfl])
    (by
      rw [Heap.prevPhys, Heap.get_set_self _ _ (Or.inl rfl) hback, if_pos rfl])
    rfl
  have hpush := hadopt.push (x := x) (Function.update_self x _ H) rfl
  rw [Function.update_idem] at hpush
  exact hpush

theorem Headers.split {H : Nat -> Option Tag} {fl : List Nat} {h : Heap}
    (hh : Headers H fl h) {a size : Nat} {t : Tag} (ht : H a = some t)
    (hr : forall c, H c ≠ none -> HdrApart (a + blockHdrSize + size) c)
    (hfit : size + minBlockSize ≤ t.size)
    (hlt : a + blockHdrSize + t.size < 2 ^ 32) :
    Headers
      (Function.update
        (Function.update H (a + blockHdrSize + size)
          (some ⟨t.size - size - blockHdrSize, heapMagicFree, a, true⟩))
        a (some { t with size := size }))
      ((a + blockHdrSize + size) :: fl) (h.maybeSplit a size) := by
  have hknown : H a ≠ none := by
    rw [ht]
    simp
  have htags := hh.tags a t ht
  unfold minBlockSize blockHdrSize at hfit
  unfold blockHdrSize at *
  have hpayload : add32 a 32 = a + 32 := add32_of_lt (by omega)
  have hremainder : add32 (add32 a 32) size = a + 32 + size := by
    rw [hpayload, add32_of_lt (by omega)]
  have hcreate := hh.create (t.size - size - 32) a hr
    (by omega) (by omega) (by omega) (by omega)
  have hapart : a + 32 + size ≠ a := by omega
  have hsize1 : (h.setMagic (a + 32 + size) heapMagicFree).size a = t.size := by
    rw [Heap.size, Heap.get_set_of_ne _ (by decide) (Or.inr (hr a hknown))
      heapMagicFree_lt]
    exact htags.right.left
  have ht' : Function.update H (a + 32 + size)
      (some ⟨t.size - size - 32, heapMagicFree, a, true⟩) a = some t := by
    rw [Function.update_of_ne hapart.symm]
    exact ht
  have hcount := fun n => (hcreate.countFree n).setSize ht'
    (v := size) (by omega)
  have hinner : sub32 t.size size = t.size - size :=
    sub32_of_le (by omega) (by omega)
  have hrest : sub32 (sub32 t.size size) 32 = t.size - size - 32 := by
    rw [hinner, sub32_of_le (by omega) (by omega)]
  unfold Heap.maybeSplit minBlockSize blockHdrSize
  rw [htags.right.left, if_neg (by rw [add32_of_lt (by omega)]; omega),
    hremainder]
  dsimp only
  rw [hsize1, hrest]
  exact hcount _

namespace HeapInv

variable {bs before after : List (Nat × Tag)} {fl : List Nat} {h : Heap}
variable {a : Nat} {t : Tag}

theorem header_of_payload (hi : HeapInv bs fl h) (ha : (a, t) ∈ bs) :
    sub32 (a + blockHdrSize) blockHdrSize = a := by
  have hbounds := hi.bounds ha
  have hbrk := hi.brk_lt
  rw [sub32_of_le (Nat.le_add_left _ _) (by omega)]
  exact Nat.add_sub_cancel a blockHdrSize

/-- A block whose header lies inside another block or beyond the heap. -/
theorem apart_inside (hi : HeapInv (before ++ (a, t) :: after) fl h)
    {size c : Nat} {u : Tag} (hfit : size + minBlockSize ≤ t.size)
    (hc : (c, u) ∈ before ++ (a, t) :: after) :
    HdrApart (a + blockHdrSize + size) c := by
  have hold : (a, t) ∈ before ++ (a, t) :: after := by simp
  have hapart := hi.layout.payload_apart hold hc
  unfold HdrApart
  unfold minBlockSize at hfit
  unfold blockHdrSize at *
  omega

theorem heap_maybeSplit (h : Heap) (a size : Nat) :
    (h.maybeSplit a size).startPtr = h.startPtr ∧
      (h.maybeSplit a size).endPtr = h.endPtr ∧
      (h.maybeSplit a size).brk = h.brk := by
  unfold Heap.maybeSplit Heap.pushFree
  dsimp only
  split
  · exact ⟨rfl, rfl, rfl⟩
  · split <;> exact ⟨rfl, rfl, rfl⟩

theorem split (hi : HeapInv (before ++ (a, t) :: after) fl h) {size : Nat}
    (hfit : size + minBlockSize ≤ t.size) (hsize : 16 ∣ size) :
    HeapInv
      (before ++ (a, { t with size := size }) ::
        (a + blockHdrSize + size,
          ⟨t.size - size - blockHdrSize, heapMagicFree, a, true⟩) :: after)
      ((a + blockHdrSize + size) :: fl) (h.maybeSplit a size) := by
  have hold : (a, t) ∈ before ++ (a, t) :: after := by simp
  have hbounds := hi.bounds hold
  have hbrk := hi.brk_lt
  have hkeep := heap_maybeSplit h a size
  have haligned := hi.aligned hold
  have htsize : 16 ∣ t.size := hi.sizes (a, t) hold
  have hlayout : Layout h.startPtr
      (before ++ (a, { t with size := size }) ::
        (a + blockHdrSize + size,
          ⟨t.size - size - blockHdrSize, heapMagicFree, a, true⟩) :: after)
      h.brk := by
    have hl := hi.layout
    rw [layout_append] at hl ⊢
    rcases hl with ⟨m, hbefore, haddr, hafter⟩
    dsimp only at haddr
    refine ⟨m, hbefore, haddr, ?_, ?_⟩
    · dsimp only
      rw [haddr]
    · have hend : m + blockHdrSize + t.size =
          m + blockHdrSize + size + blockHdrSize +
            (t.size - size - blockHdrSize) := by
        unfold minBlockSize at hfit
        omega
      dsimp only at hafter ⊢
      rw [← hend]
      exact hafter
  have hmem : forall b,
      b ∈ before ++ (a, { t with size := size }) ::
        (a + blockHdrSize + size,
          ⟨t.size - size - blockHdrSize, heapMagicFree, a, true⟩) :: after ->
      b = (a, { t with size := size }) ∨
        b = (a + blockHdrSize + size,
          ⟨t.size - size - blockHdrSize, heapMagicFree, a, true⟩) ∨
        b ∈ before ++ (a, t) :: after := by
    intro b hb
    exact (mem_replace (List.Subset.refl _) hb).imp_right
      (mem_replace (List.subset_cons_self _ _))
  rcases hi.headers with ⟨H, hlists, hh⟩
  have hnone : H (a + blockHdrSize + size) = none := by
    by_contra hknown
    rcases hlists.known.mp hknown with ⟨u, hu⟩
    exact (hi.apart_inside hfit hu).ne rfl
  apply hi.relist hkeep hlayout
  · intro b hb
    rcases hmem b hb with hb | hb | hb
    · rw [hb]
      exact hsize
    · rw [hb]
      dsimp only
      unfold blockHdrSize
      omega
    · exact hi.sizes b hb
  · intro b hb
    rcases hmem b hb with hb | hb | hb
    · rw [hb]
      exact hi.backs (a, t) hold
    · rw [hb]
      refine ⟨haligned, ?_⟩
      dsimp only
      unfold blockHdrSize
      omega
    · exact hi.backs b hb
  · refine ⟨_, ?_, hh.split ((hlists a t).mpr hold) ?_ hfit ?_⟩
    · have hinsert : Lists _
          ((before ++ [(a, t)]) ++ (a + blockHdrSize + size,
            ⟨t.size - size - blockHdrSize, heapMagicFree, a, true⟩) ::
              after) :=
        Lists.insert (by rw [← List.append_cons]; exact hlists) hnone _
      rw [← List.append_cons] at hinsert
      have hreplace := hinsert.replace hlayout.fresh
        (some { t with size := size })
      simp only [Option.toList_some, List.map_cons, List.map_nil,
        List.append_assoc, List.singleton_append] at hreplace
      exact hreplace
    · intro c hc
      rcases hlists.known.mp hc with ⟨u, hu⟩
      exact hi.apart_inside hfit hu
    · omega

/-!
# Joining
-/

theorem heap_setSize (h : Heap) (a v : Nat) :
    (h.setSize a v).startPtr = h.startPtr ∧
      (h.setSize a v).endPtr = h.endPtr ∧ (h.setSize a v).brk = h.brk :=
  ⟨rfl, rfl, rfl⟩

theorem absorb {n : Nat} {u : Tag}
    (hi : HeapInv (before ++ (a, t) :: (n, u) :: after) fl h)
    (hlisted : u.listed = false) :
    HeapInv
      (before ++ (a, { t with size := t.size + blockHdrSize + u.size }) ::
        after)
      fl (h.setSize a (t.size + blockHdrSize + u.size)) := by
  have ha : (a, t) ∈ before ++ (a, t) :: (n, u) :: after := by simp
  have hn : (n, u) ∈ before ++ (a, t) :: (n, u) :: after := by simp
  have hbrk := hi.brk_lt
  have hbounds := hi.bounds hn
  have hl := hi.layout
  rw [layout_append] at hl
  rcases hl with ⟨m, hbefore, haddr, hnaddr, hafter⟩
  dsimp only at haddr hnaddr hafter
  have hna : n ≠ a := by
    unfold blockHdrSize at hnaddr
    omega
  have hlayout : Layout h.startPtr
      (before ++ (a, { t with size := t.size + blockHdrSize + u.size }) ::
        after) h.brk := by
    rw [layout_append]
    refine ⟨m, hbefore, haddr, ?_⟩
    dsimp only
    rw [← Nat.add_assoc, ← Nat.add_assoc]
    exact hafter
  have hmem : forall b,
      b ∈ before ++ (a, { t with size := t.size + blockHdrSize + u.size }) ::
        after ->
      b = (a, { t with size := t.size + blockHdrSize + u.size }) ∨
        b ∈ before ++ (a, t) :: (n, u) :: after := by
    intro b hb
    apply mem_replace _ hb
    exact List.Subset.trans (List.subset_cons_self _ _)
      (List.subset_cons_self _ _)
  have hsizea : 16 ∣ t.size := hi.sizes (a, t) ha
  have hsizen : 16 ∣ u.size := hi.sizes (n, u) hn
  rcases hi.headers with ⟨H, hlists, hh⟩
  have hHa : H a = some t := (hlists a t).mpr ha
  have hHn : H n = some u := (hlists n u).mpr hn
  apply hi.relist (heap_setSize h a _) hlayout
  · intro b hb
    rcases hmem b hb with hb | hb
    · rw [hb]
      dsimp only
      unfold blockHdrSize
      omega
    · exact hi.sizes b hb
  · intro b hb
    rcases hmem b hb with hb | hb
    · rw [hb]
      exact hi.backs (a, t) ha
    · exact hi.backs b hb
  · refine ⟨Function.update (Function.update H a
      (some { t with size := t.size + blockHdrSize + u.size })) n none,
      ?_, ?_⟩
    · have hreplace := hlists.replace hi.layout.fresh
        (some { t with size := t.size + blockHdrSize + u.size })
      simp only [Option.toList_some, List.map_cons, List.map_nil] at hreplace
      have hfresh : forall c v,
          (c, v) ∈ before ++
            [(a, { t with size := t.size + blockHdrSize + u.size })] ∨
            (c, v) ∈ after -> c ≠ n := by
        intro c v hc
        have hmiddle := hi.layout.retag (rfl : t.size = t.size)
        rw [List.append_cons] at hmiddle
        have hother := hmiddle.fresh c
        rcases hc with hc | hc
        · rcases List.mem_append.mp hc with hc | hc
          · exact hother v (Or.inl (List.mem_append_left _ hc))
          · rw [List.mem_singleton, Prod.mk.injEq] at hc
            rw [hc.left]
            exact hna.symm
        · exact hother v (Or.inr hc)
      have hdrop := hreplace.replace hfresh none
      simp only [Option.toList_none, List.map_nil, List.append_nil,
        List.append_assoc, List.singleton_append] at hdrop
      exact hdrop
    · apply (hh.setSize hHa (by omega)).drop (t := u) _ hlisted
      rw [Function.update_of_ne hna]
      exact hHn

theorem next_block (hi : HeapInv (before ++ (a, t) :: after) fl h)
    (hlt : a + blockHdrSize + t.size < h.brk) :
    exists u rest, after = (a + blockHdrSize + t.size, u) :: rest := by
  have hl := hi.layout
  rw [layout_append] at hl
  rcases hl with ⟨m, _, haddr, hafter⟩
  dsimp only at haddr hafter
  cases after with
  | nil =>
      have hend : m + blockHdrSize + t.size = h.brk := hafter
      omega
  | cons b rest =>
      refine ⟨b.2, rest, ?_⟩
      rw [haddr, ← hafter.left]

/-!
# Expansion
-/

theorem align_page {x : Nat} (hx : x + 2 ^ 12 ≤ 2 ^ 32) :
    (alignUp (UInt32.ofNat x) pageSize).toNat =
      (x + (2 ^ 12 - 1)) / 2 ^ 12 * 2 ^ 12 := by
  rw [toNat_alignUp (k := 12) _ (by decide) (by decide),
    UInt32.toNat_ofNat_of_lt' (by show x < 2 ^ 32; omega),
    Nat.mod_eq_of_lt (by omega)]

theorem takeTop (hi : HeapInv bs fl h) {expand : Nat} (hpages : 16 ∣ expand)
    (hpos : 32 < expand) (htop : h.brk + expand ≤ h.endPtr) :
    HeapInv (bs ++ [(h.brk, ⟨expand - 32, heapMagicFree, 0, true⟩)])
      (h.brk :: fl) (h.takeTop expand (expand - 32)) := by
  have hbrk := hi.brk_le
  have hle := hi.layout.le
  have hstart := hi.start_pos
  have hroom := hi.room
  have haligned := (hi.layout.aligned hi.start_aligned hi.sizes).left
  have hbeyond : forall b, b ∈ bs -> HdrApart h.brk b.1 := by
    intro b hb
    have hbounds := hi.layout.bounds hb
    unfold blockHdrSize at hbounds
    exact Or.inr (by omega)
  rcases hi.headers with ⟨H, hlists, hh⟩
  have hapart : forall c, H c ≠ none -> HdrApart h.brk c := by
    intro c hc
    rcases hlists.known.mp hc with ⟨u, hu⟩
    exact hbeyond (c, u) hu
  have hnone : H h.brk = none := by
    by_contra hknown
    exact (hapart _ hknown).ne rfl
  have hcreate := (hh.withBrk (h.brk + expand)).create (expand - 32) 0 hapart
    (by omega) (by omega) (by omega) (by omega)
  have hmem : forall b,
      b ∈ bs ++ [(h.brk, ⟨expand - 32, heapMagicFree, 0, true⟩)] ->
      b ∈ bs ∨ b = (h.brk, ⟨expand - 32, heapMagicFree, 0, true⟩) := by
    intro b hb
    rcases List.mem_append.mp hb with hb | hb
    · exact Or.inl hb
    · exact Or.inr (List.mem_singleton.mp hb)
  unfold Heap.takeTop
  dsimp only
  generalize hg : ((Heap.setMagic { h with brk := h.brk + expand } h.brk
    heapMagicFree).setSize h.brk (expand - 32)).setPrevPhys h.brk 0 = g
    at hcreate
  have hkeep := heap_pushFree g h.brk
  have hstart' : g.startPtr = h.startPtr := by
    rw [← hg]
    rfl
  have hend : g.endPtr = h.endPtr := by
    rw [← hg]
    rfl
  have htop' : g.brk = h.brk + expand := by
    rw [← hg]
    rfl
  constructor
  · show 0 < (g.pushFree h.brk).startPtr
    rw [hkeep.left, hstart']
    exact hstart
  · show 16 ∣ (g.pushFree h.brk).startPtr
    rw [hkeep.left, hstart']
    exact hi.start_aligned
  · show (g.pushFree h.brk).endPtr + _ + _ ≤ _
    rw [hkeep.right.left, hend]
    exact hi.room
  · show (g.pushFree h.brk).brk ≤ (g.pushFree h.brk).endPtr
    rw [hkeep.right.right, hkeep.right.left, htop', hend]
    exact htop
  · show Layout (g.pushFree h.brk).startPtr _ (g.pushFree h.brk).brk
    rw [hkeep.left, hkeep.right.right, hstart', htop', layout_append]
    refine ⟨h.brk, hi.layout, rfl, ?_⟩
    show h.brk + blockHdrSize + (expand - 32) = h.brk + expand
    unfold blockHdrSize
    omega
  · intro b hb
    rcases hmem b hb with hb | hb
    · exact hi.sizes b hb
    · rw [hb]
      dsimp only
      omega
  · intro b hb
    rcases hmem b hb with hb | hb
    · exact hi.backs b hb
    · rw [hb]
      refine ⟨Nat.dvd_zero 16, ?_⟩
      dsimp only
      omega
  · refine ⟨_, ?_, (hcreate.withStat _).countFree _⟩
    rw [← List.append_nil bs] at hlists
    exact hlists.insert hnone _

/-- The pages that `heap_expand` asks for, were there no end to the numbers. -/
def pagesFor (size : Nat) : Nat := (size + 32 + (2 ^ 12 - 1)) / 2 ^ 12 * 2 ^ 12

theorem expand_pages (hi : HeapInv bs fl h) {size : Nat}
    (hpages : h.brk + pagesFor size < 2 ^ 32) :
    h.endPtr < h.brk + pagesFor size ∧ h.heapExpand size = (0, h) ∨
      h.brk + pagesFor size ≤ h.endPtr ∧ (h.heapExpand size).1 = h.brk ∧
        (h.heapExpand size).2.freeList = h.brk ∧
        HeapInv
          (bs ++ [(h.brk, ⟨pagesFor size - 32, heapMagicFree, 0, true⟩)])
          (h.brk :: fl) (h.heapExpand size).2 := by
  have hfit : size + 32 ≤ pagesFor size := by
    unfold pagesFor
    omega
  have hwhole : 2 ^ 12 ∣ pagesFor size := Nat.dvd_mul_left _ _
  have hstart := hi.start_pos
  have hle := hi.layout.le
  have hsum : add32 size blockHdrSize = size + 32 :=
    add32_of_lt (by unfold blockHdrSize; omega)
  have hexpand : (alignUp (UInt32.ofNat (size + 32)) pageSize).toNat =
      pagesFor size := align_page (by omega)
  have hnew : add32 h.brk (pagesFor size) = h.brk + pagesFor size :=
    add32_of_lt hpages
  have hrest : sub32 (pagesFor size) blockHdrSize = pagesFor size - 32 :=
    sub32_of_le (by unfold blockHdrSize; omega) (by omega)
  unfold Heap.heapExpand
  dsimp only
  rw [hsum, hexpand, hnew, hrest]
  by_cases hfull : h.endPtr < h.brk + pagesFor size
  · rw [if_pos hfull]
    exact Or.inl ⟨hfull, rfl⟩
  · rw [if_neg hfull]
    exact Or.inr ⟨Nat.le_of_not_lt hfull, rfl, rfl,
      hi.takeTop (by omega) (by omega) (Nat.le_of_not_lt hfull)⟩

/-- The pages for a request up to the size of the heap do not wrap. -/
theorem pages_lt (hi : HeapInv bs fl h) {size : Nat}
    (hsize : size ≤ kernelHeapSize) : h.brk + pagesFor size < 2 ^ 32 := by
  have hbrk := hi.brk_le
  have hroom := hi.room
  unfold pagesFor kernelHeapSize at *
  omega

/-- `heap_expand` leaves the heap alone, or adds a free block behind it. -/
theorem expand (hi : HeapInv bs fl h) {size : Nat}
    (hsize : size ≤ kernelHeapSize) :
    h.heapExpand size = (0, h) ∨
      exists n, size ≤ n ∧ (h.heapExpand size).1 = h.brk ∧
        (h.heapExpand size).2.freeList = h.brk ∧
        HeapInv (bs ++ [(h.brk, ⟨n, heapMagicFree, 0, true⟩)]) (h.brk :: fl)
          (h.heapExpand size).2 := by
  rcases hi.expand_pages (hi.pages_lt hsize) with ⟨_, hfull⟩ | ⟨_, hptr, hhead, hi'⟩
  · exact Or.inl hfull
  · refine Or.inr ⟨_, ?_, hptr, hhead, hi'⟩
    unfold pagesFor
    omega

end HeapInv

end Mm
end EarlnuxOS
