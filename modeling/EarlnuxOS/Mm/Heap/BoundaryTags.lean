import EarlnuxOS.Foundation.BackLinks
import EarlnuxOS.Mm.Heap.Counters

/-!
# Boundary tags

With the size of a block and its `prev_phys` the allocator finds the neighbours
of a block on both sides.  `maybe_split` puts a block between two others and
`coalesce` takes blocks out, and neither writes to the header of the block
behind: its `prev_phys` is right afterwards exactly if it was `NULL`, at the
begin of a stretch that `heap_expand` has added.
-/

namespace EarlnuxOS
namespace Mm

open Foundation

/-!
# Where calls of `heap_expand` began
-/

/-- The blocks that a `kmalloc` gets from `heap_expand`. -/
def Heap.expansions : Nat -> Heap -> Nat -> List Nat
  | 0, _, _ => []
  | depth + 1, h, size =>
      if size = 0 then []
      else if h.firstFit (asked size) walkSteps h.freeList = some 0 then
        let expanded := h.heapExpand (asked size)
        if expanded.1 = 0 then []
        else expanded.1 :: expansions depth expanded.2 (asked size)
      else []

def HeapOp.expansions (h : Heap) : HeapOp -> List Nat
  | HeapOp.kmalloc n => h.expansions callDepth n
  | _ => []

/-- The heap, and the addresses at which calls of `heap_expand` began. -/
structure TaggedState where
  state : HeapState
  starts : List Nat

def TaggedState.exec (s : TaggedState) (o : HeapOp) : TaggedState where
  state := s.state.exec o
  starts := o.expansions s.state.heap ++ s.starts

def tagStart (mem : Memory) (virtStart size : Nat) : TaggedState where
  state := heapStart mem virtStart size
  starts :=
    let expanded := (bareHeap mem virtStart size).heapExpand pageSize.toNat
    if expanded.1 = 0 then [] else [expanded.1]

/-- Requests up to the size of the heap, and what clients may do anyhow. -/
def HeapOp.Allowed (s : HeapState) : HeapOp -> Prop
  | HeapOp.kmalloc n => n ≤ kernelHeapSize
  | HeapOp.kfree p => HeapOp.Valid s (HeapOp.kfree p)
  | HeapOp.write a v => HeapOp.Valid s (HeapOp.write a v)

/-!
# Exact tags
-/

def Heap.blockEnd (h : Heap) (a : Nat) : Nat := a + blockHdrSize + h.size a

/--
The blocks cover the heap without gaps, every `prev_phys` is the block in front
or `NULL` at the begin of an expansion, and the free list holds the free blocks.
-/
structure ExactTags (s : TaggedState) : Prop where
  returns : s.state.hung = false
  arrives : OnWalk s.state.heap s.state.heap.brk
  inside : forall a, IsBlock s.state.heap a ->
    s.state.heap.blockEnd a ≤ s.state.heap.brk
  covers : forall x, s.state.heap.startPtr ≤ x -> x < s.state.heap.brk ->
    exists a, IsBlock s.state.heap a ∧
      x ∈ Set.Ico a (s.state.heap.blockEnd a)
  apart : forall a b, IsBlock s.state.heap a -> IsBlock s.state.heap b ->
    a = b ∨ s.state.heap.blockEnd a ≤ b ∨ s.state.heap.blockEnd b ≤ a
  backs : forall a, IsBlock s.state.heap a ->
    IsBlock s.state.heap (s.state.heap.prevPhys a) ∧
        s.state.heap.blockEnd (s.state.heap.prevPhys a) = a ∨
      a ∈ s.starts ∧ s.state.heap.prevPhys a = 0
  links : exists fl,
    DList s.state.heap.next s.state.heap.prev s.state.heap.head fl ∧
      forall a, a ∈ fl <->
        IsBlock s.state.heap a ∧ s.state.heap.magic a = heapMagicFree

/--
No two neighbours are both free, unless a `heap_expand` call began where the
first one ends and the second one begins.
-/
def FreeApart (s : TaggedState) : Prop :=
  forall a, IsBlock s.state.heap a ->
    IsBlock s.state.heap (s.state.heap.blockEnd a) ->
    s.state.heap.blockEnd a ∉ s.starts ->
    ¬ (s.state.heap.magic a = heapMagicFree ∧
      s.state.heap.magic (s.state.heap.blockEnd a) = heapMagicFree)

/-!
# The condition
-/

/-- The block at `x`, if one begins there, has no `prev_phys`. -/
def NoneBehind (h : Heap) (x : Nat) : Prop := x < h.brk -> h.prevPhys x = 0

def JoinsNext (h : Heap) (a : Nat) : Prop :=
  h.blockEnd a < h.brk ∧ h.magic (h.blockEnd a) = heapMagicFree

def JoinsPrev (h : Heap) (a : Nat) : Prop :=
  h.prevPhys a ≠ 0 ∧ h.magic (h.prevPhys a) = heapMagicFree

instance (h : Heap) (x : Nat) : Decidable (NoneBehind h x) :=
  inferInstanceAs (Decidable (_ -> _))

instance (h : Heap) (a : Nat) : Decidable (JoinsNext h a) :=
  inferInstanceAs (Decidable (_ ∧ _))

instance (h : Heap) (a : Nat) : Decidable (JoinsPrev h a) :=
  inferInstanceAs (Decidable (_ ∧ _))

/-- Where the free block ends that the block at `a` becomes part of. -/
def Heap.freedEnd (h : Heap) (a : Nat) : Nat :=
  if JoinsNext h a then h.blockEnd (h.blockEnd a) else h.blockEnd a

/-- The first block of the free list that is large enough for a request. -/
def Heap.firstFitting (h : Heap) (n : Nat) : Option Nat :=
  (h.freeBlocks walkSteps h.freeList).find? (h.fitsIn (asked n))

/--
There is no `prev_phys` behind a block that is split, nor behind one that is
joined with others.
-/
def HeapOp.KeepsTags (h : Heap) : HeapOp -> Prop
  | HeapOp.kmalloc n =>
      n ≠ 0 -> forall r, r ∈ h.firstFitting n ->
        asked n + minBlockSize ≤ h.size r -> NoneBehind h (h.blockEnd r)
  | HeapOp.kfree p =>
      let a := p - blockHdrSize
      JoinsNext h a ∨ JoinsPrev h a -> NoneBehind h (h.freedEnd a)
  | HeapOp.write _ _ => True

/-!
# The tags of the list of blocks
-/

def backLinks (bs : List (Nat × Tag)) : List (Nat × Nat) :=
  bs.map fun b => (b.1, b.2.prevPhys)

def Parted (starts : List Nat) (b c : Nat × Tag) : Prop :=
  c.1 ∉ starts -> ¬ (b.2.magic = heapMagicFree ∧ c.2.magic = heapMagicFree)

@[simp] theorem backLinks_append (xs ys : List (Nat × Tag)) :
    backLinks (xs ++ ys) = backLinks xs ++ backLinks ys :=
  List.map_append

@[simp] theorem backLinks_cons (b : Nat × Tag) (ys : List (Nat × Tag)) :
    backLinks (b :: ys) = (b.1, b.2.prevPhys) :: backLinks ys := rfl

/-- Each block names the one in front, or names none and begins an expansion. -/
theorem backLinks_iff {starts : Nat -> Prop} {bs : List (Nat × Tag)} :
    BackLinked starts 0 (backLinks bs) <->
      forall before a t after, bs = before ++ (a, t) :: after ->
        starts a ∧ t.prevPhys = 0 ∨
          exists front u, before = front ++ [(t.prevPhys, u)] := by
  rw [backLinked_iff]
  constructor
  · rintro h before a t after rfl
    rcases h (backLinks before) (a, t.prevPhys) (backLinks after)
        (backLinks_append _ _) with hstart | ⟨links, b, hbefore, hname⟩
    · exact Or.inl hstart
    · rcases List.map_eq_append_iff.mp hbefore with ⟨front, last, hsplit, _, hb⟩
      rcases List.map_eq_singleton_iff.mp hb with ⟨⟨p, u⟩, rfl, rfl⟩
      dsimp only at hname
      rw [hname]
      exact Or.inr ⟨front, u, hsplit⟩
  · intro h xs c ys hlinks
    rcases List.map_eq_append_iff.mp hlinks with ⟨before, tail, rfl, rfl, htail⟩
    rcases List.map_eq_cons_iff.mp htail with ⟨⟨a, t⟩, after, rfl, rfl, rfl⟩
    rcases h before a t after rfl with hstart | ⟨front, u, hfront⟩
    · exact Or.inl hstart
    · refine Or.inr ⟨backLinks front, (t.prevPhys, u.prevPhys), ?_, rfl⟩
      rw [hfront]
      exact List.map_append

namespace Layout

variable {bs : List (Nat × Tag)} {a e : Nat}

theorem covers (h : Layout a bs e) {x : Nat} (hle : a ≤ x) (hlt : x < e) :
    exists b, b ∈ bs ∧ b.1 ≤ x ∧ x < b.1 + blockHdrSize + b.2.size := by
  induction bs generalizing a with
  | nil =>
      rw [show a = e from h] at hle
      omega
  | cons c bs ih =>
      by_cases hx : x < a + blockHdrSize + c.2.size
      · refine ⟨c, List.mem_cons_self, ?_⟩
        rw [h.left]
        exact ⟨hle, hx⟩
      · rcases ih h.right (Nat.le_of_not_lt hx) with ⟨b, hb, hinside⟩
        exact ⟨b, List.mem_cons_of_mem c hb, hinside⟩

theorem arrives {h : Heap} (hlayout : Layout a bs h.brk)
    (hwalk : OnWalk h a) (hsizes : forall a t, (a, t) ∈ bs -> h.size a = t.size) :
    OnWalk h h.brk := by
  induction bs generalizing a with
  | nil =>
      rw [← show a = h.brk from hlayout]
      exact hwalk
  | cons c bs ih =>
      have hc := hsizes c.1 c.2 List.mem_cons_self
      have hle := hlayout.right.le
      have hlt : a < h.brk := by
        unfold blockHdrSize at hle
        omega
      have hnext := OnWalk.next hwalk hlt
      rw [hlayout.left] at hc
      rw [hc] at hnext
      exact ih hlayout.right hnext
        (fun a t hb => hsizes a t (List.mem_cons_of_mem c hb))

end Layout

namespace HeapInv

variable {bs before after : List (Nat × Tag)} {fl : List Nat} {h : Heap}
variable {a : Nat} {t : Tag}

theorem blockEnd_eq (hi : HeapInv bs fl h) (ha : (a, t) ∈ bs) :
    h.blockEnd a = a + blockHdrSize + t.size := by
  unfold Heap.blockEnd
  rw [(hi.read ha).right.left]

theorem pos (hi : HeapInv bs fl h) (ha : (a, t) ∈ bs) : 0 < a :=
  Nat.lt_of_lt_of_le hi.start_pos (hi.bounds ha).left

/-- The `prev_phys` of the blocks are right if those of the list are. -/
theorem backs_iff (hi : HeapInv bs fl h) (starts : List Nat) :
    (forall a, IsBlock h a ->
      IsBlock h (h.prevPhys a) ∧ h.blockEnd (h.prevPhys a) = a ∨
        a ∈ starts ∧ h.prevPhys a = 0) <->
      BackLinked (· ∈ starts) 0 (backLinks bs) := by
  rw [backLinks_iff]
  constructor
  · rintro hbacks before a t after rfl
    have ha : (a, t) ∈ before ++ (a, t) :: after := by simp
    have hback := hbacks a (hi.isBlock.mpr ⟨t, ha⟩)
    rw [(hi.read ha).right.right] at hback
    rcases hback with ⟨hblock, hend⟩ | hstart
    · rcases hi.isBlock.mp hblock with ⟨u, hu⟩
      rw [hi.blockEnd_eq hu] at hend
      rcases hi.layout.split_before hu hend with ⟨front, hfront⟩
      exact Or.inr ⟨front, u, hfront⟩
    · exact Or.inl hstart
  · intro hlinks a hblock
    rcases hi.isBlock.mp hblock with ⟨t, ha⟩
    rcases List.append_of_mem ha with ⟨before, after, hbs⟩
    rw [(hi.read ha).right.right]
    rcases hlinks before a t after hbs with hstart | ⟨front, u, hfront⟩
    · exact Or.inr hstart
    · rw [hfront, List.append_assoc, List.singleton_append] at hbs
      have hp : (t.prevPhys, u) ∈ bs := by
        rw [hbs]
        simp
      have hnext := (hbs ▸ hi).after_addr
      rw [hi.isBlock, hi.blockEnd_eq hp]
      exact Or.inl ⟨⟨u, hp⟩, hnext.symm⟩

/-- The block behind another has no `prev_phys`, or there is no such block. -/
theorem noneBehind_iff (hi : HeapInv (before ++ (a, t) :: after) fl h) :
    NoneBehind h (h.blockEnd a) <-> HeadFree 0 (backLinks after) := by
  have ha : (a, t) ∈ before ++ (a, t) :: after := by simp
  unfold NoneBehind
  rw [hi.blockEnd_eq ha]
  cases after with
  | nil =>
      have hl := hi.layout
      rw [layout_append] at hl
      rcases hl with ⟨m, _, haddr, hend⟩
      have hlast : a + blockHdrSize + t.size = h.brk := by
        rw [← hend, ← haddr]
      refine iff_of_true (fun hlt => ?_) (fun b hb => by cases hb)
      exact absurd hlt (Nat.not_lt.mpr hlast.ge)
  | cons b rest =>
      have hb : (b.1, b.2) ∈ before ++ (a, t) :: b :: rest := by simp
      have hbounds := hi.bounds hb
      have hlt : b.1 < h.brk := by
        unfold blockHdrSize at hbounds
        omega
      rw [← hi.after_addr, (hi.read hb).right.right, forall_prop_of_true hlt]
      constructor
      · intro hnull c hc
        cases hc
        exact hnull
      · exact fun hfree => hfree (b.1, b.2.prevPhys) rfl

theorem joinsNext_iff (hi : HeapInv (before ++ (a, t) :: after) fl h) :
    JoinsNext h a <->
      exists u rest, after = (a + blockHdrSize + t.size, u) :: rest ∧
        u.magic = heapMagicFree := by
  unfold JoinsNext
  rw [hi.blockEnd_eq (t := t) (by simp)]
  exact hi.next_free_iff

end HeapInv

/-!
# The invariant
-/

structure TagInv (bs : List (Nat × Tag)) (fl : List Nat) (s : TaggedState) :
    Prop where
  live : LiveInv bs fl s.state
  backs : BackLinked (· ∈ s.starts) 0 (backLinks bs)
  parted : bs.IsChain (Parted s.starts)

theorem LiveInv.exactTags_iff {bs : List (Nat × Tag)} {fl : List Nat}
    {s : TaggedState} (hl : LiveInv bs fl s.state) :
    ExactTags s <-> BackLinked (· ∈ s.starts) 0 (backLinks bs) := by
  have hi := hl.ok.inv
  rw [← hi.backs_iff]
  constructor
  · exact ExactTags.backs
  · intro hbacks
    constructor
    · exact hl.returns
    · exact hi.layout.arrives OnWalk.start
        (fun a t hb => (hi.read hb).right.left)
    · intro a hblock
      rcases hi.isBlock.mp hblock with ⟨t, ha⟩
      rw [hi.blockEnd_eq ha]
      exact (hi.bounds ha).right
    · intro x hle hlt
      rcases hi.layout.covers hle hlt with ⟨b, hb, hinside⟩
      refine ⟨b.1, hi.isBlock.mpr ⟨b.2, hb⟩, ?_⟩
      rw [hi.blockEnd_eq hb]
      exact Set.mem_Ico.mpr hinside
    · intro a b ha hb
      rcases hi.isBlock.mp ha with ⟨t, ht⟩
      rcases hi.isBlock.mp hb with ⟨u, hu⟩
      rw [hi.blockEnd_eq ht, hi.blockEnd_eq hu]
      exact (hi.layout.eq_or_apart ht hu).imp_left (congrArg Prod.fst)
    · exact hbacks
    · have hmem := fun a => hi.mem_free (a := a)
      rcases hi.headers with ⟨H, _, hh⟩
      refine ⟨fl, hh.links, fun a => ?_⟩
      constructor
      · intro ha
        rcases (hmem a).mp ha with ⟨t, ht, _⟩
        exact ⟨hi.isBlock.mpr ⟨t, ht⟩, hl.ok.magic_free ha⟩
      · rintro ⟨hblock, hfree⟩
        rcases hi.isBlock.mp hblock with ⟨t, ht⟩
        rw [(hi.read ht).left] at hfree
        exact (hmem a).mpr ⟨t, ht, hl.ok.listed_of_free ht hfree⟩

namespace TagInv

variable {bs : List (Nat × Tag)} {fl : List Nat} {s : TaggedState}

theorem exactTags (htags : TagInv bs fl s) : ExactTags s :=
  htags.live.exactTags_iff.mpr htags.backs

theorem freeApart (htags : TagInv bs fl s) : FreeApart s := by
  have hi := htags.live.ok.inv
  rintro a ha ⟨_, hlt⟩ hstart ⟨hfree, hnext⟩
  rcases hi.isBlock.mp ha with ⟨t, ht⟩
  rcases List.append_of_mem ht with ⟨before, after, hbs⟩
  rw [(hi.read ht).left] at hfree
  rcases (hbs ▸ hi).joinsNext_iff.mp ⟨hlt, hnext⟩ with
    ⟨u, rest, hafter, hfree'⟩
  rw [hi.blockEnd_eq ht] at hstart
  have hparted := List.isChain_iff_forall_rel_of_append_cons_cons.mp
    htags.parted (hafter ▸ hbs)
  exact hparted hstart ⟨hfree, hfree'⟩

end TagInv

/-!
# Taking a block
-/

theorem parted_of_used {starts : List Nat} {b c : Nat × Tag}
    (h : b.2.magic = heapMagicUsed ∨ c.2.magic = heapMagicUsed) :
    Parted starts b c := by
  rintro _ ⟨hb, hc⟩
  rcases h with h | h
  · exact magic_ne (hb.symm.trans h)
  · exact magic_ne (hc.symm.trans h)

theorem Parted.of_free {starts : List Nat} {b b' c : Nat × Tag}
    (h : Parted starts b c) (hb : b.2.magic = heapMagicFree) :
    Parted starts b' c :=
  fun hstart hfree => h hstart ⟨hb, hfree.right⟩

theorem backLinked_taken {starts : Nat -> Prop} {before after : List (Nat × Tag)}
    {a size : Nat} {t : Tag}
    (h : BackLinked starts 0 (backLinks (before ++ (a, t) :: after)))
    (hpos : 0 < a) :
    BackLinked starts 0 (backLinks
        (before ++ (a, takenTag a size t) ::
          ((splitRest a size t).2 ++ after))) <->
      (size + minBlockSize ≤ t.size -> HeadFree 0 (backLinks after)) := by
  unfold takenTag splitRest
  rw [backLinks_append, backLinks_cons] at h
  by_cases hfit : size + minBlockSize ≤ t.size
  · rw [if_pos hfit, forall_prop_of_true hfit, backLinks_append, backLinks_cons,
      List.singleton_append, backLinks_cons]
    exact h.insert_iff (by unfold blockHdrSize; omega) (Nat.ne_of_gt hpos)
  · rw [if_neg hfit, backLinks_append, backLinks_cons]
    exact iff_of_true h (fun hle => absurd hle hfit)

theorem parted_taken {starts : List Nat} {before after : List (Nat × Tag)}
    {a size : Nat} {t : Tag}
    (h : (before ++ (a, t) :: after).IsChain (Parted starts))
    (hfree : t.magic = heapMagicFree) :
    (before ++ (a, takenTag a size t) ::
      ((splitRest a size t).2 ++ after)).IsChain (Parted starts) := by
  rw [isChain_middle] at h ⊢
  refine ⟨⟨h.left.left, fun b _ => parted_of_used (Or.inr rfl)⟩,
    fun c _ => parted_of_used (Or.inl rfl), ?_⟩
  unfold splitRest
  split
  · rw [List.singleton_append, List.isChain_cons]
    exact ⟨fun c hc => (h.right.left c hc).of_free hfree, h.right.right⟩
  · exact h.right.right

theorem parted_append {starts : List Nat} {bs : List (Nat × Tag)}
    (h : bs.IsChain (Parted starts)) (x : Nat) (t : Tag) :
    (bs ++ [(x, t)]).IsChain (Parted (x :: starts)) := by
  rw [isChain_middle]
  refine ⟨⟨h.imp fun b c hbc hc => ?_, fun b _ hx => ?_⟩, ?_,
    List.isChain_nil⟩
  · exact hbc (fun hmem => hc (List.mem_cons_of_mem x hmem))
  · exact absurd List.mem_cons_self hx
  · intro c hc
    cases hc

/-!
# Allocation
-/

namespace Heap

theorem expansions_zero (depth : Nat) (h : Heap) :
    h.expansions (depth + 1) 0 = [] :=
  if_pos rfl

theorem expansions_of_found (depth : Nat) {h : Heap} {n r : Nat}
    (hr : h.firstFit (asked n) walkSteps h.freeList = some r) (hne : r ≠ 0) :
    h.expansions (depth + 1) n = [] := by
  have hfound : h.firstFit (asked n) walkSteps h.freeList ≠ some 0 := by
    rw [hr]
    exact fun heq => hne (Option.some.inj heq)
  unfold expansions
  rw [if_neg hfound, ite_self]

theorem expansions_of_none (depth : Nat) {h : Heap} {n : Nat} (hn : n ≠ 0)
    (hr : h.firstFit (asked n) walkSteps h.freeList = some 0) :
    h.expansions (depth + 1) n =
      if (h.heapExpand (asked n)).1 = 0 then []
      else (h.heapExpand (asked n)).1 ::
        (h.heapExpand (asked n)).2.expansions depth (asked n) := by
  rw [expansions, if_neg hn, if_pos hr]

end Heap

theorem HeapInv.firstFit_fitting {bs : List (Nat × Tag)} {fl : List Nat}
    {h : Heap} (hi : HeapInv bs fl h) (n : Nat) :
    h.firstFit (asked n) Heap.walkSteps h.freeList =
      some ((h.firstFitting n).getD 0) := by
  rw [hi.firstFit_find, ← hi.freeBlocks]
  rfl

theorem TaggedState.starts_kmalloc (s : TaggedState) (n : Nat) :
    (s.exec (HeapOp.kmalloc n)).starts =
      s.state.heap.expansions callDepth n ++ s.starts := rfl

theorem HeapOk.kmalloc_began {bs : List (Nat × Tag)} {fl : List Nat} {h : Heap}
    (hok : HeapOk bs fl h) {n : Nat} (hpos : n ≠ 0) (hn : n ≤ kernelHeapSize)
    (hr : h.firstFit (asked n) Heap.walkSteps h.freeList = some 0) :
    h.expansions callDepth n = [] ∧
        Heap.kmalloc callDepth h n = some (0, h) ∨
      h.expansions callDepth n = [h.brk] ∧ h.brk ≠ 0 ∧
        asked n ≤ HeapInv.pagesFor (asked n) - 32 ∧
        HeapInv (bs ++ [(h.brk,
          ⟨HeapInv.pagesFor (asked n) - 32, heapMagicFree, 0, true⟩)])
          (h.brk :: fl) (h.heapExpand (asked n)).2 ∧
        Heap.kmalloc callDepth h n =
          some ((h.heapExpand (asked n)).2.takeBlock h.brk (asked n)) := by
  have hdepth : callDepth = 2 ^ 32 - 2 + 2 := by decide
  have hasked : asked n = (n + 15) / 16 * 16 := align_heap hn
  have hsize : asked n ≤ kernelHeapSize := by
    unfold kernelHeapSize at *
    omega
  have hagain : asked (asked n) = asked n := by
    rw [show asked (asked n) = (asked n + 15) / 16 * 16 from align_heap hsize]
    omega
  have hnext : asked n ≠ 0 := by omega
  have hround : (alignUp (UInt32.ofNat n) heapAlign).toNat = asked n := rfl
  have hrun := Heap.kmalloc_of_none (2 ^ 32 - 2 + 1) hpos hround hr
  have hbegan := Heap.expansions_of_none (2 ^ 32 - 2 + 1) hpos hr
  rw [show 2 ^ 32 - 2 + 1 + 1 = callDepth from hdepth.symm] at hrun hbegan
  rcases expand_found hok.inv (hok.inv.pages_lt hsize) with
    ⟨_, hfull⟩ | ⟨_, hptr, hbrk, hfit, hi, hfound⟩
  · rw [hfull, if_pos rfl] at hrun hbegan
    exact Or.inl ⟨hbegan, hrun⟩
  · rw [hptr, if_neg hbrk] at hrun hbegan
    rw [Heap.kmalloc_of_found _ hnext hagain hfound hbrk] at hrun
    rw [Heap.expansions_of_found _ (by rw [hagain]; exact hfound) hbrk]
      at hbegan
    exact Or.inr ⟨hbegan, hbrk, hfit, hi, hrun⟩

def Stepped (s : TaggedState) (o : HeapOp) : Prop :=
  exists bs fl, LiveInv bs fl (s.exec o).state ∧
    (BackLinked (· ∈ (s.exec o).starts) 0 (backLinks bs) <->
      o.KeepsTags s.state.heap) ∧
    bs.IsChain (Parted (s.exec o).starts)

namespace LiveInv

variable {bs before after : List (Nat × Tag)} {fl fl' : List Nat}
variable {s : HeapState} {a n size : Nat} {t : Tag} {h' : Heap}

/-- The clients hold one more pointer, to the block that was taken. -/
theorem taken (hl : LiveInv bs fl s)
    (hgrown : HeapOk.Grown bs s.heap (before ++ (a, t) :: after) h')
    (hok' : HeapOk (before ++ (a, t) :: after) fl' h')
    (hfree : t.magic = heapMagicFree) (hsize : 16 ∣ size)
    (hle : size ≤ t.size)
    (hrun : Heap.kmalloc callDepth s.heap n = some (h'.takeBlock a size)) :
    exists fl'', LiveInv
      (before ++ (a, takenTag a size t) :: ((splitRest a size t).2 ++ after))
      fl'' (s.exec (HeapOp.kmalloc n)) := by
  rcases hok'.takeBlock hfree hsize hle with ⟨hptr, fl'', hok''⟩
  have halloc := hok'.allocated_takeBlock hfree (Nat.le_refl size) hle
  have hpair : h'.takeBlock a size =
      (a + blockHdrSize, (h'.takeBlock a size).2) := Prod.ext hptr rfl
  rw [hpair] at hrun
  exact ⟨fl'', hl.allocated hrun hok'' (halloc.of_sameUsed hgrown.used)⟩

end LiveInv

namespace TagInv

variable {bs : List (Nat × Tag)} {fl : List Nat} {s : TaggedState} {n : Nat}

theorem stepped_refused (htags : TagInv bs fl s)
    (hrun : Heap.kmalloc callDepth s.state.heap n = some (0, s.state.heap))
    (hnone : s.state.heap.expansions callDepth n = [])
    (hkeeps : HeapOp.KeepsTags s.state.heap (HeapOp.kmalloc n)) :
    Stepped s (HeapOp.kmalloc n) := by
  have hstarts : (s.exec (HeapOp.kmalloc n)).starts = s.starts := by
    rw [s.starts_kmalloc, hnone, List.nil_append]
  unfold Stepped
  rw [hstarts]
  have hsame : HeapOk.Allocated bs bs n 0 := Or.inl ⟨rfl, fun _ _ => Iff.rfl⟩
  exact ⟨bs, fl, htags.live.allocated hrun htags.live.ok hsame,
    iff_of_true htags.backs hkeeps, htags.parted⟩

/-- The search ends at a block, and a part of it may be left behind it. -/
theorem stepped_found (htags : TagInv bs fl s) (hpos : n ≠ 0)
    (hn : n ≤ kernelHeapSize) {r : Nat}
    (hfirst : s.state.heap.firstFitting n = some r) :
    Stepped s (HeapOp.kmalloc n) := by
  have hok := htags.live.ok
  have hdepth : callDepth = 2 ^ 32 - 1 + 1 := by decide
  have hfl := List.mem_of_find?_eq_some hfirst
  have hfit := Heap.fitsIn_iff.mp (List.find?_some hfirst)
  have hr := hok.inv.firstFit_fitting n
  rw [hfirst, Option.getD_some] at hr
  rw [hok.inv.freeBlocks] at hfl
  have hne : r ≠ 0 := by
    rcases hok.inv.mem_free.mp hfl with ⟨t, ht, _⟩
    exact Nat.ne_of_gt (hok.inv.pos ht)
  rcases hok.kmalloc_found (2 ^ 32 - 1) hpos rfl hr hne hfl hfit.right with
    ⟨before, t, after, rfl, hfree, hle, hread, hrun⟩
  rw [← hdepth] at hrun
  rcases htags.live.taken (HeapOk.Grown.refl _ _) hok hfree
      (asked_dvd (by unfold kernelHeapSize at hn; omega)) hle hrun with
    ⟨fl', hlive⟩
  have hstarts : (s.exec (HeapOp.kmalloc n)).starts = s.starts := by
    rw [s.starts_kmalloc, hdepth, Heap.expansions_of_found _ hr hne,
      List.nil_append]
  refine ⟨_, fl', hlive, ?_, ?_⟩
  · have hrpos := hok.inv.pos (a := r) (t := t) (by simp)
    rw [hstarts, backLinked_taken htags.backs hrpos]
    unfold HeapOp.KeepsTags
    dsimp only
    rw [forall_prop_of_true hpos, hfirst]
    simp only [Option.mem_def, Option.some.injEq, forall_eq']
    rw [hread, hok.inv.noneBehind_iff]
  · rw [hstarts]
    exact parted_taken htags.parted hfree

theorem stepped_expanded (htags : TagInv bs fl s) (hpos : n ≠ 0)
    (hn : n ≤ kernelHeapSize) (hfirst : s.state.heap.firstFitting n = none) :
    Stepped s (HeapOp.kmalloc n) := by
  have hok := htags.live.ok
  have hkeeps : HeapOp.KeepsTags s.state.heap (HeapOp.kmalloc n) := by
    unfold HeapOp.KeepsTags
    dsimp only
    rw [hfirst]
    intro _ r hr
    cases hr
  have hr := hok.inv.firstFit_fitting n
  rw [hfirst, Option.getD_none] at hr
  rcases hok.kmalloc_began hpos hn hr with
    ⟨hnone, hrun⟩ | ⟨hbegan, hbrk, hfit, hi, hrun⟩
  · exact htags.stepped_refused hrun hnone hkeeps
  · rcases htags.live.taken (HeapOk.Grown.page hi (HeapOk.Grown.refl _ _))
        (hok.expand hi) rfl (asked_dvd (by unfold kernelHeapSize at hn; omega))
        hfit hrun with ⟨fl', hlive⟩
    have hstarts : (s.exec (HeapOp.kmalloc n)).starts =
        s.state.heap.brk :: s.starts := by
      rw [s.starts_kmalloc, hbegan]
      rfl
    have hlinks := (htags.backs.mono fun b hb =>
      List.mem_cons_of_mem s.state.heap.brk hb).append List.mem_cons_self
    refine ⟨_, fl', hlive, ?_, ?_⟩
    · rw [hstarts]
      refine iff_of_true ?_ hkeeps
      rw [backLinked_taken _ (Nat.pos_of_ne_zero hbrk)]
      · exact fun _ b hb => by cases hb
      · rw [backLinks_append]
        exact hlinks
    · rw [hstarts]
      exact parted_taken (parted_append htags.parted _ _) rfl

theorem stepped_kmalloc (htags : TagInv bs fl s) (hn : n ≤ kernelHeapSize) :
    Stepped s (HeapOp.kmalloc n) := by
  by_cases hpos : n = 0
  · have hdepth : callDepth = 2 ^ 32 - 1 + 1 := by decide
    refine htags.stepped_refused ?_ ?_ (fun hne => absurd hpos hne)
    · rw [hpos, hdepth, Heap.kmalloc_zero]
    · rw [hpos, hdepth, Heap.expansions_zero]
  · cases hfirst : s.state.heap.firstFitting n with
    | none => exact htags.stepped_expanded hpos hn hfirst
    | some r => exact htags.stepped_found hpos hn hfirst

end TagInv

/-!
# Joining blocks
-/

/-- What lies behind the blocks that are taken in may lie behind a free one. -/
theorem TakesNext.parted {starts : List Nat} {gone rest : List (Nat × Tag)}
    (h : TakesNext gone rest) (hchain : (gone ++ rest).IsChain (Parted starts)) :
    (forall b c, c ∈ rest.head? -> Parted starts b c) ∧
      rest.IsChain (Parted starts) := by
  rcases h with ⟨rfl, hused⟩ | ⟨d, rfl, hfree⟩
  · exact ⟨fun b c hc _ hboth => hused c hc hboth.right, hchain⟩
  · rw [List.singleton_append, List.isChain_cons] at hchain
    exact ⟨fun b c hc => (hchain.left c hc).of_free hfree, hchain.right⟩

theorem backLinked_merge {starts : Nat -> Prop}
    {front gone rest : List (Nat × Tag)} {c : Nat} {v w : Tag}
    (h : BackLinked starts 0 (backLinks (front ++ (c, v) :: (gone ++ rest))))
    (hback : w.prevPhys = v.prevPhys)
    (hgone : forall b, b ∈ gone -> c ≠ b.1 ∧ b.1 ≠ 0) :
    BackLinked starts 0 (backLinks (front ++ (c, w) :: rest)) <->
      (gone ≠ [] -> HeadFree 0 (backLinks rest)) := by
  rw [backLinks_append, backLinks_cons] at h ⊢
  dsimp only at h ⊢
  rw [hback]
  rcases List.eq_nil_or_concat gone with rfl | ⟨mid, y, rfl⟩
  · exact iff_of_true h (fun hne => absurd rfl hne)
  · have hy := hgone y (by simp)
    rw [List.concat_eq_append, ← List.append_cons, backLinks_append,
      backLinks_cons] at h
    rw [forall_prop_of_true (by simp)]
    exact h.remove_iff hy.left hy.right

namespace HeapInv

variable {before after gone rest : List (Nat × Tag)} {fl : List Nat} {h : Heap}
variable {a : Nat} {t : Tag}

theorem addr_ne (hi : HeapInv (before ++ (a, t) :: (gone ++ rest)) fl h)
    (b : Nat × Tag) (hb : b ∈ gone) : a ≠ b.1 ∧ b.1 ≠ 0 := by
  have hmem : b ∈ gone ++ rest := List.mem_append_left _ hb
  have hfresh := hi.layout.fresh b.1 b.2 (Or.inr hmem)
  have hpos := hi.pos (List.mem_append_right _ (List.mem_cons_of_mem _ hmem))
  exact ⟨hfresh.symm, Nat.ne_of_gt hpos⟩

/-- Whether the next block is taken in, and what lies behind then. -/
theorem freed_behind (hi : HeapInv (before ++ (a, t) :: (gone ++ rest)) fl h)
    (htakes : TakesNext gone rest) :
    (JoinsNext h a <-> gone ≠ []) ∧
      (NoneBehind h (h.freedEnd a) <-> HeadFree 0 (backLinks rest)) := by
  unfold Heap.freedEnd
  rcases htakes with ⟨rfl, hused⟩ | ⟨⟨n, u⟩, rfl, hfree⟩
  · have hnot : ¬ JoinsNext h a := by
      rw [hi.joinsNext_iff]
      rintro ⟨u, tail, hrest, hfree⟩
      rw [List.nil_append] at hrest
      rw [hrest] at hused
      exact hused _ rfl hfree
    rw [if_neg hnot]
    exact ⟨iff_of_false hnot (fun hne => hne rfl), hi.noneBehind_iff⟩
  · rw [List.singleton_append] at hi
    have hn := hi.after_addr
    dsimp only at hn
    have hjoins : JoinsNext h a := by
      rw [hi.joinsNext_iff, ← hn]
      exact ⟨u, rest, rfl, hfree⟩
    have hend : h.blockEnd a = n := by
      rw [hi.blockEnd_eq (t := t) (by simp), hn]
    rw [if_pos hjoins, hend]
    rw [List.append_cons] at hi
    exact ⟨iff_of_true hjoins (List.cons_ne_nil _ _), hi.noneBehind_iff⟩

end HeapInv

/-!
# Freeing
-/

namespace HeapOk

variable {before after : List (Nat × Tag)} {fl : List Nat} {h : Heap}
variable {a : Nat} {t : Tag}

/-- Where the previous block is free, the freed one becomes part of it. -/
theorem joinsPrev_iff (hok : HeapOk (before ++ (a, t) :: after) fl h)
    (hback : t.prevPhys = 0 ∨
      exists front u, before = front ++ [(t.prevPhys, u)]) :
    JoinsPrev h a <->
      exists front u, before = front ++ [(t.prevPhys, u)] ∧
        u.magic = heapMagicFree := by
  have hold : (a, t) ∈ before ++ (a, t) :: after := by simp
  unfold JoinsPrev
  rw [(hok.inv.read hold).right.right]
  constructor
  · rintro ⟨hne, hmagic⟩
    rcases hback.resolve_left hne with ⟨front, u, rfl⟩
    have hread := (hok.inv.read (a := t.prevPhys) (t := u) (by simp)).left
    exact ⟨front, u, rfl, hread.symm.trans hmagic⟩
  · rintro ⟨front, u, rfl, hfree⟩
    have hp : (t.prevPhys, u) ∈
        (front ++ [(t.prevPhys, u)]) ++ (a, t) :: after := by simp
    exact ⟨Nat.ne_of_gt (hok.inv.pos hp), (hok.inv.read hp).left.trans hfree⟩

/-- The freed block is listed, or the free block in front takes it in. -/
theorem kfree_cases (hok : HeapOk (before ++ (a, t) :: after) fl h)
    (hused : t.magic = heapMagicUsed)
    (hback : t.prevPhys = 0 ∨
      exists front u, before = front ++ [(t.prevPhys, u)]) :
    exists gone rest w fl', after = gone ++ rest ∧ TakesNext gone rest ∧
      w.magic = heapMagicFree ∧
      (¬ JoinsPrev h a ∧ w.prevPhys = t.prevPhys ∧
          HeapOk (before ++ (a, w) :: rest) fl' (h.kfree (a + blockHdrSize)) ∨
        exists front u, before = front ++ [(t.prevPhys, u)] ∧
          u.magic = heapMagicFree ∧ w.prevPhys = u.prevPhys ∧
          HeapOk (front ++ (t.prevPhys, w) :: rest) fl'
            (h.kfree (a + blockHdrSize))) := by
  have hold : (a, t) ∈ before ++ (a, t) :: after := by simp
  have hlisted := hok.unlisted_of_used hold hused
  have hprev := hok.joinsPrev_iff hback
  have hkfree : exists stat, h.kfree (a + blockHdrSize) =
      (Heap.setMagic { h with stat := stat } a heapMagicFree).coalesce a :=
    ⟨_, hok.kfree_eq hused⟩
  rcases hkfree with ⟨stat, hkfree⟩
  rw [hkfree]
  rcases hok.marked stat with
    ⟨n, gone, rest, fl', hafter, htakes, hrest, hjoined, _⟩
  rcases hjoined.coalescePrev_cases rfl hlisted hok.settled_before hrest
      (hback.imp_right Or.inr) with
    ⟨hnot, hok'⟩ | ⟨front, u, fl'', hfront, hfree, hok'⟩
  · refine ⟨gone, rest, ⟨n, heapMagicFree, t.prevPhys, true⟩, _, hafter, htakes,
      rfl, Or.inl ⟨?_, rfl, hok'⟩⟩
    rw [hprev]
    rintro ⟨front, u, hfront, hfree⟩
    have hp : (t.prevPhys, u) ∈ before := by
      rw [hfront]
      simp
    rcases hnot with hnull | hmagic
    · have hpos := hok.inv.pos (List.mem_append_left _ hp)
      exact Nat.ne_of_gt hpos hnull
    · have hread := (hjoined.read (List.mem_append_left _ hp)).left
      exact hmagic (hread.trans hfree)
  · exact ⟨gone, rest, ⟨u.size + blockHdrSize + n, u.magic, u.prevPhys, true⟩,
      fl'', hafter, htakes, hfree,
      Or.inr ⟨front, u, hfront, hfree, rfl, hok'⟩⟩

end HeapOk

namespace TagInv

variable {before after : List (Nat × Tag)} {fl : List Nat} {s : TaggedState}
variable {a : Nat} {t : Tag}

theorem parted_front (htags : TagInv (before ++ (a, t) :: after) fl s)
    (hnot : ¬ JoinsPrev s.state.heap a) (w : Tag) {b : Nat × Tag}
    (hb : b ∈ before.getLast?) : Parted s.starts b (a, w) := by
  have hback := backLinks_iff.mp htags.backs before a t after rfl
  rw [htags.live.ok.joinsPrev_iff (hback.imp_left And.right)] at hnot
  rintro hstart ⟨hfree, _⟩
  rcases hback.resolve_left (fun h => hstart h.left) with ⟨front, u, hfront⟩
  rw [hfront, List.getLast?_concat] at hb
  cases hb
  exact hnot ⟨front, u, hfront, hfree⟩

theorem stepped_kfree (htags : TagInv (before ++ (a, t) :: after) fl s)
    (hused : t.magic = heapMagicUsed) :
    Stepped s (HeapOp.kfree (a + blockHdrSize)) := by
  have hok := htags.live.ok
  have hi := hok.inv
  have hback := (backLinks_iff.mp htags.backs before a t after rfl).imp_left
    And.right
  have hprev := hok.joinsPrev_iff hback
  have hmiddle := isChain_middle.mp htags.parted
  have hblk : a + blockHdrSize - blockHdrSize = a := Nat.add_sub_cancel _ _
  have hstarts : (s.exec (HeapOp.kfree (a + blockHdrSize))).starts = s.starts :=
    rfl
  unfold Stepped HeapOp.KeepsTags
  dsimp only
  rw [hstarts, hblk]
  rcases hok.kfree_cases hused hback with
    ⟨gone, rest, w, fl', rfl, htakes, hfree, hcase⟩
  have hbehind := hi.freed_behind htakes
  have hrest := htakes.parted hmiddle.right.right
  rw [hbehind.left, hbehind.right]
  rcases hcase with ⟨hnot, hw, hok'⟩ | ⟨front, u, rfl, hu, hw, hok'⟩
  · have hsame : SameUsed (before ++ (gone ++ rest))
        (before ++ ([(a, w)] ++ rest)) :=
      HeapInv.sameUsed_replace (fun b hb => htakes.free hb)
        (List.forall_mem_singleton.mpr hfree)
    refine ⟨_, fl', htags.live.freed hok' hsame, ?_, ?_⟩
    · rw [or_iff_left hnot]
      exact backLinked_merge htags.backs hw hi.addr_ne
    · rw [isChain_middle]
      exact ⟨⟨hmiddle.left.left, fun b hb => htags.parted_front hnot w hb⟩,
        hrest.left (a, w), hrest.right⟩
  · have hjoins : JoinsPrev s.state.heap a := hprev.mpr ⟨front, u, rfl, hu⟩
    have hsame : SameUsed ((front ++ [(t.prevPhys, u)]) ++ (gone ++ rest))
        (front ++ ([(t.prevPhys, w)] ++ rest)) := by
      rw [List.append_assoc, ← List.append_assoc [(t.prevPhys, u)]]
      apply HeapInv.sameUsed_replace
      · exact List.forall_mem_cons.mpr ⟨hu, fun b hb => htakes.free hb⟩
      · exact List.forall_mem_singleton.mpr hfree
    have hfront := hi
    have hbacks := htags.backs
    have hparted := htags.parted
    rw [List.append_assoc, List.singleton_append] at hfront hbacks hparted
    refine ⟨_, fl', htags.live.freed hok' hsame, ?_, ?_⟩
    · have hgone : forall b, b ∈ (a, t) :: gone ->
          t.prevPhys ≠ b.1 ∧ b.1 ≠ 0 := hfront.addr_ne
      refine (backLinked_merge hbacks hw hgone).trans (imp_congr_left ?_)
      exact iff_of_true (List.cons_ne_nil _ _) (Or.inr hjoins)
    · rw [isChain_middle] at hparted ⊢
      refine ⟨⟨hparted.left.left, fun b hb hstart hboth => ?_⟩,
        hrest.left _, hrest.right⟩
      exact hparted.left.right b hb hstart ⟨hboth.left, hu⟩

theorem stepped_write {bs : List (Nat × Tag)} {fl : List Nat} {x : Nat}
    (htags : TagInv bs fl s) (v : UInt8)
    (hvalid : HeapOp.Valid s.state (HeapOp.write x v)) :
    Stepped s (HeapOp.write x v) :=
  ⟨bs, fl, htags.live.exec_write v hvalid, iff_of_true htags.backs trivial,
    htags.parted⟩

theorem stepped {bs : List (Nat × Tag)} {fl : List Nat} (htags : TagInv bs fl s)
    {o : HeapOp} (hallowed : o.Allowed s.state) : Stepped s o := by
  cases o with
  | kmalloc n => exact htags.stepped_kmalloc hallowed
  | kfree p =>
      rcases (htags.live.live p).mp hallowed with ⟨a, t, rfl, ha, hused⟩
      rcases List.append_of_mem ha with ⟨before, after, rfl⟩
      exact htags.stepped_kfree hused
  | write x v => exact htags.stepped_write v hallowed

end TagInv

/-!
# Runs
-/

theorem tagInv_start (mem : Memory) {virtStart size : Nat}
    (hregion : HeapRegion virtStart size) :
    exists bs fl, TagInv bs fl (tagStart mem virtStart size) := by
  rcases heapStart_cases mem hregion with ⟨hfull, hl⟩ | ⟨n, hptr, hl⟩
  · exact ⟨[], [], hl, backLinked_nil _ _, List.isChain_nil⟩
  · have hstarts : (tagStart mem virtStart size).starts = [virtStart] := by
      unfold tagStart
      dsimp only
      rw [hptr, if_neg (Nat.ne_of_gt hregion.not_null)]
    refine ⟨_, _, hl, ?_, List.isChain_singleton _⟩
    rw [hstarts]
    exact (backLinked_nil _ _).append List.mem_cons_self

/-- One operation keeps the tags exact, or makes a `prev_phys` wrong. -/
theorem tagInv_step {s : TaggedState} {o : HeapOp}
    (htags : exists bs fl, TagInv bs fl s) (hallowed : o.Allowed s.state) :
    (o.KeepsTags s.state.heap ∧ exists bs fl, TagInv bs fl (s.exec o)) ∨
      (¬ o.KeepsTags s.state.heap ∧ ¬ ExactTags (s.exec o)) := by
  rcases htags with ⟨bs, fl, htags⟩
  rcases htags.stepped hallowed with ⟨bs', fl', hlive, hiff, hparted⟩
  by_cases hkeeps : o.KeepsTags s.state.heap
  · exact Or.inl ⟨hkeeps, bs', fl', hlive, hiff.mpr hkeeps, hparted⟩
  · refine Or.inr ⟨hkeeps, fun hexact => hkeeps ?_⟩
    exact hiff.mp (hlive.exactTags_iff.mp hexact)

theorem tagInv_reachable (mem : Memory) {virtStart size : Nat}
    (hregion : HeapRegion virtStart size) {s : TaggedState}
    (hreach : Reachable TaggedState.exec
      (fun s o => o.Allowed s.state ∧ o.KeepsTags s.state.heap)
      (tagStart mem virtStart size) s) :
    exists bs fl, TagInv bs fl s := by
  apply hreach.invariant (tagInv_start mem hregion)
  intro s o htags hcond
  rcases tagInv_step htags hcond.left with hgood | hbad
  · exact hgood.right
  · exact absurd hcond.right hbad.left

/--
Nothing but `maybe_split` and `coalesce` makes a `prev_phys` wrong, and each of
them does so whenever a `prev_phys` lies behind the blocks it splits or joins.
-/
theorem boundaryTags_iff (mem : Memory) {virtStart size : Nat}
    (hregion : HeapRegion virtStart size) {ops : List HeapOp}
    (hallowed : Meets TaggedState.exec (fun s o => o.Allowed s.state)
      (tagStart mem virtStart size) ops) :
    Meets TaggedState.exec (fun s o => o.KeepsTags s.state.heap)
        (tagStart mem virtStart size) ops <->
      forall first, first <+: ops ->
        ExactTags (run TaggedState.exec (tagStart mem virtStart size) first) ∧
          forall p, first.getLast? = some (HeapOp.kfree p) ->
            FreeApart
              (run TaggedState.exec (tagStart mem virtStart size) first) := by
  constructor
  · rintro hkeeps first ⟨rest, rfl⟩
    rcases tagInv_reachable mem hregion
        ⟨first, (hallowed.and hkeeps).front, rfl⟩ with ⟨bs, fl, htags⟩
    exact ⟨htags.exactTags, fun p _ => htags.freeApart⟩
  · intro hexact
    have hgood : forall s, (exists bs fl, TagInv bs fl s) -> ¬ ¬ ExactTags s := by
      rintro s ⟨bs, fl, htags⟩ hbad
      exact hbad htags.exactTags
    have hnever := Meets.iff_never hgood (fun s o => tagInv_step)
      (tagInv_start mem hregion) hallowed
    exact hnever.mpr fun first hfirst hbad =>
      hbad (hexact first hfirst).left

def kernelTags : TaggedState :=
  tagStart (fun _ => 0) kernelHeapStart kernelHeapSize

/-- Two blocks are split off the last one, and joined with it in turn. -/
def stackRun : List HeapOp :=
  [HeapOp.kmalloc 16, HeapOp.kmalloc 16, HeapOp.kfree (kernelHeapStart + 80),
    HeapOp.kfree (kernelHeapStart + 32)]

theorem boundaryTags_stackRun :
    ExactTags (run TaggedState.exec kernelTags stackRun) ∧
      FreeApart (run TaggedState.exec kernelTags stackRun) := by
  have hallowed : Meets TaggedState.exec (fun s o => o.Allowed s.state)
      kernelTags stackRun := by
    refine ⟨?_, ?_, ?_, ?_, trivial⟩
    · show 16 ≤ kernelHeapSize
      decide
    · show 16 ≤ kernelHeapSize
      decide
    · show kernelHeapStart + 80 ∈ HeapState.live _
      decide +kernel
    · show kernelHeapStart + 32 ∈ HeapState.live _
      decide +kernel
  have hkeeps : Meets TaggedState.exec (fun s o => o.KeepsTags s.state.heap)
      kernelTags stackRun := by
    refine ⟨fun _ => ?_, fun _ => ?_, fun _ => ?_, fun _ => ?_, trivial⟩
    · decide +kernel
    · decide +kernel
    · decide +kernel
    · decide +kernel
  have hexact := (boundaryTags_iff (fun _ => 0) heapRegion_kernel
    hallowed).mp hkeeps stackRun (List.prefix_refl _)
  exact ⟨hexact.left, hexact.right _ rfl⟩

/--
The first block is freed and split again: the remainder lies in front of the
second block, whose `prev_phys` still is the first one.
-/
def staleRun : List HeapOp :=
  [HeapOp.kmalloc 128, HeapOp.kmalloc 16, HeapOp.kfree (kernelHeapStart + 32),
    HeapOp.kmalloc 16]

theorem boundaryTags_stale :
    Meets TaggedState.exec (fun s o => o.Allowed s.state) kernelTags staleRun ∧
      ¬ ExactTags (run TaggedState.exec kernelTags staleRun) := by
  constructor
  · refine ⟨?_, ?_, ?_, ?_, trivial⟩
    · show 128 ≤ kernelHeapSize
      decide
    · show 16 ≤ kernelHeapSize
      decide
    · show kernelHeapStart + 32 ∈ HeapState.live _
      decide +kernel
    · show 16 ≤ kernelHeapSize
      decide
  · intro hexact
    have hfirst : (run TaggedState.exec kernelTags staleRun).state.heap.blockEnd
        kernelHeapStart = kernelHeapStart + 48 := by decide +kernel
    have hrest : (run TaggedState.exec kernelTags staleRun).state.heap.blockEnd
        (kernelHeapStart + 48) = kernelHeapStart + 160 := by decide +kernel
    have hback : (run TaggedState.exec kernelTags staleRun).state.heap.prevPhys
        (kernelHeapStart + 160) = kernelHeapStart := by decide +kernel
    have hwalk : IsBlock (run TaggedState.exec kernelTags staleRun).state.heap
        (kernelHeapStart + 160) := by
      refine ⟨?_, by decide +kernel⟩
      rw [← hrest, ← hfirst]
      exact OnWalk.next (OnWalk.next OnWalk.start (by decide +kernel))
        (by decide +kernel)
    rcases hexact.backs _ hwalk with ⟨_, hend⟩ | ⟨_, hnull⟩
    · rw [hback, hfirst] at hend
      exact absurd hend (by decide)
    · rw [hback] at hnull
      exact absurd hnull (by decide)

end Mm
end EarlnuxOS
