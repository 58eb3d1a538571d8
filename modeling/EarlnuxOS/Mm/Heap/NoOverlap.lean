import Mathlib.Order.CompletePartialOrder
import Mathlib.Order.Interval.Set.Basic
import EarlnuxOS.Foundation.Run
import EarlnuxOS.Mm.Heap.HeapSpec

/-!
# Heap allocations do not overlap

The heap in use: clients allocate, free what they hold, and write to what they
hold.  As long as no `kfree` follows a `prev_phys` to a free block that is not
the one in front, the payloads of the live allocations stay apart from one
another and from the headers.
-/

namespace EarlnuxOS
namespace Mm

open Foundation

/-!
# Blocks, payloads and clients
-/

/-- The addresses met on the way from `heap_start`, block by block. -/
inductive OnWalk (h : Heap) : Nat -> Prop where
  | start : OnWalk h h.startPtr
  | next {a : Nat} : OnWalk h a -> a < h.brk ->
      OnWalk h (a + blockHdrSize + h.size a)

def IsBlock (h : Heap) (a : Nat) : Prop := OnWalk h a ∧ a < h.brk

def payload (h : Heap) (p : Nat) : Set Nat := Set.Ico p (p + h.ksize p)

def header (a : Nat) : Set Nat := Set.Ico a (a + blockHdrSize)

/-- The heap, and the pointers its clients hold; `hung` when a call did not return. -/
structure HeapState where
  heap : Heap
  live : List Nat
  hung : Bool

inductive HeapOp where
  | kmalloc (n : Nat)
  | kfree (p : Nat)
  | write (a : Nat) (v : UInt8)

/-- No run of the kernel makes this many calls of `kmalloc` to itself. -/
def callDepth : Nat := 2 ^ 32

def HeapState.exec (s : HeapState) : HeapOp -> HeapState
  | HeapOp.kmalloc n =>
      match Heap.kmalloc callDepth s.heap n with
      | none => { s with hung := true }
      | some (p, h) =>
          { s with
            heap := h
            live := if p = 0 then s.live else p :: s.live }
  | HeapOp.kfree p =>
      { s with
        heap := s.heap.kfree p
        live := s.live.erase p }
  | HeapOp.write a v =>
      { s with heap := { s.heap with mem := storeByte s.heap.mem a v } }

def HeapOp.Valid (s : HeapState) : HeapOp -> Prop
  | HeapOp.kmalloc n => 1 ≤ n ∧ n ≤ kernelHeapSize
  | HeapOp.kfree p => p ∈ s.live
  | HeapOp.write a _ => exists p, p ∈ s.live ∧ a ∈ payload s.heap p

/--
A `kfree` finds `prev_phys` to be `NULL`, to point at no free block, or to
point at the block that ends where the freed one begins.
-/
def HeapOp.BackSound (s : HeapState) : HeapOp -> Prop
  | HeapOp.kfree p =>
      let back := s.heap.prevPhys (p - blockHdrSize)
      back = 0 ∨ s.heap.magic back ≠ heapMagicFree ∨
        IsBlock s.heap back ∧
          back + blockHdrSize + s.heap.size back = p - blockHdrSize
  | _ => True

structure NoOverlap (s : HeapState) : Prop where
  returns : s.hung = false
  disjoint : s.live.Pairwise fun p q =>
    Disjoint (payload s.heap p) (payload s.heap q)
  headers : forall p, p ∈ s.live -> forall a, IsBlock s.heap a ->
    Disjoint (payload s.heap p) (header a)
  aligned : forall p, p ∈ s.live -> 16 ∣ p
  inside : forall p, p ∈ s.live ->
    payload s.heap p ⊆ Set.Ico s.heap.startPtr s.heap.brk

/-- Where a heap can be: not at `NULL`, and not up to the top of the address space. -/
structure HeapRegion (virtStart size : Nat) : Prop where
  not_null : 0 < virtStart
  aligned : 16 ∣ virtStart
  room : virtStart + size + kernelHeapSize + 2 ^ 13 ≤ 2 ^ 32

def heapStart (mem : Memory) (virtStart size : Nat) : HeapState where
  heap := Heap.heapInit mem virtStart size
  live := []
  hung := false

/-!
# The invariant of a run
-/

/-- The live pointers are the payloads of the used blocks. -/
structure LiveInv (bs : List (Nat × Tag)) (fl : List Nat) (s : HeapState) :
    Prop where
  ok : HeapOk bs fl s.heap
  returns : s.hung = false
  nodup : s.live.Nodup
  live : forall p, p ∈ s.live <->
    exists a t, p = a + blockHdrSize ∧ (a, t) ∈ bs ∧ t.magic = heapMagicUsed

theorem walk_layout {h : Heap} {bs : List (Nat × Tag)} {s : Nat}
    (hwalk : OnWalk h s) (hlayout : Layout s bs h.brk)
    (hsizes : forall a t, (a, t) ∈ bs -> h.size a = t.size) {a : Nat}
    {t : Tag} (hb : (a, t) ∈ bs) : OnWalk h a := by
  induction bs generalizing s with
  | nil => cases hb
  | cons c bs ih =>
      have hc : h.size s = c.2.size := by
        rw [← hlayout.left]
        exact hsizes c.1 c.2 List.mem_cons_self
      rcases List.mem_cons.mp hb with hb | hb
      · have haddr := hlayout.left
        rw [← hb] at haddr
        rw [show a = s from haddr]
        exact hwalk
      · have hle := hlayout.right.le
        have hlt : s < h.brk := by
          unfold blockHdrSize at hle
          omega
        have hnext := OnWalk.next hwalk hlt
        rw [hc] at hnext
        exact ih hnext hlayout.right
          (fun a t h => hsizes a t (List.mem_cons_of_mem c h)) hb

namespace HeapInv

variable {bs before after : List (Nat × Tag)} {fl : List Nat} {h : Heap}
variable {a : Nat} {t : Tag}

theorem isBlock (hi : HeapInv bs fl h) :
    IsBlock h a <-> exists t, (a, t) ∈ bs := by
  constructor
  · intro hblock
    rcases hblock with ⟨hwalk, hlt⟩
    have hmem : a < h.brk -> exists t, (a, t) ∈ bs := by
      induction hwalk with
      | start =>
          intro hlt
          have hl := hi.layout
          cases hbs : bs with
          | nil =>
              rw [hbs] at hl
              rw [show h.startPtr = h.brk from hl] at hlt
              exact absurd hlt (Nat.lt_irrefl _)
          | cons b rest =>
              rw [hbs] at hl
              refine ⟨b.2, ?_⟩
              rw [← hl.left]
              exact List.mem_cons_self
      | next hwalk hlt' ih =>
          intro hnext
          rename_i c
          rcases ih hlt' hlt' with ⟨u, hu⟩
          rcases List.append_of_mem hu with ⟨before, after, hbs⟩
          have hread := hi.read hu
          rw [hbs] at hi
          rw [hread.right.left] at hnext ⊢
          rcases hi.next_block hnext with ⟨v, rest, hafter⟩
          refine ⟨v, ?_⟩
          rw [hbs, hafter]
          simp
    exact hmem hlt
  · intro hmem
    rcases hmem with ⟨t, ht⟩
    have hbounds := hi.bounds ht
    refine ⟨walk_layout OnWalk.start hi.layout
      (fun a t hb => (hi.read hb).right.left) ht, ?_⟩
    unfold blockHdrSize at hbounds
    omega

theorem ksize_used (hi : HeapInv bs fl h) (hb : (a, t) ∈ bs)
    (hused : t.magic = heapMagicUsed) :
    h.ksize (a + blockHdrSize) = t.size := by
  have hread := hi.read hb
  unfold Heap.ksize
  dsimp only
  rw [hi.header_of_payload hb, if_neg (by unfold blockHdrSize; omega),
    if_neg (fun hne => hne (hread.left.trans hused)), hread.right.left]

theorem payload_used (hi : HeapInv bs fl h) (hb : (a, t) ∈ bs)
    (hused : t.magic = heapMagicUsed) :
    payload h (a + blockHdrSize) =
      Set.Ico (a + blockHdrSize) (a + blockHdrSize + t.size) := by
  unfold payload
  rw [hi.ksize_used hb hused]

end HeapInv

theorem disjoint_Ico {a b c d : Nat} (h : b ≤ c ∨ d ≤ a) :
    Disjoint (Set.Ico a b) (Set.Ico c d) := by
  rw [Set.disjoint_left]
  intro x hx hx'
  rw [Set.mem_Ico] at hx hx'
  omega

namespace LiveInv

variable {bs : List (Nat × Tag)} {fl : List Nat} {s : HeapState}

theorem noOverlap (hl : LiveInv bs fl s) : NoOverlap s := by
  have hi := hl.ok.inv
  constructor
  · exact hl.returns
  · have hne : s.live.Pairwise fun p q => p ≠ q := hl.nodup
    apply hne.imp_of_mem
    intro p q hp hq hpq
    rcases (hl.live p).mp hp with ⟨a, t, hpa, ha, ht⟩
    rcases (hl.live q).mp hq with ⟨b, u, hqb, hb, hu⟩
    rw [hpa, hqb, hi.payload_used ha ht, hi.payload_used hb hu]
    have hne : a ≠ b := fun hab => hpq (by rw [hpa, hqb, hab])
    have hapart := hi.layout.apart_of_ne ha hb hne
    apply disjoint_Ico
    omega
  · intro p hp c hc
    rcases (hl.live p).mp hp with ⟨a, t, hpa, ha, ht⟩
    rcases hi.isBlock.mp hc with ⟨u, hu⟩
    rw [hpa, hi.payload_used ha ht]
    have hapart := hi.layout.payload_apart ha hu
    apply disjoint_Ico
    omega
  · intro p hp
    rcases (hl.live p).mp hp with ⟨a, t, hpa, ha, ht⟩
    have haligned := hi.aligned ha
    unfold blockHdrSize at hpa
    omega
  · intro p hp x hx
    rcases (hl.live p).mp hp with ⟨a, t, hpa, ha, ht⟩
    have hbounds := hi.bounds ha
    rw [hpa, hi.payload_used ha ht, Set.mem_Ico] at hx
    rw [Set.mem_Ico]
    omega

theorem allocated (hl : LiveInv bs fl s) {n m p : Nat} {h' : Heap}
    {bs' : List (Nat × Tag)} {fl' : List Nat}
    (hrun : Heap.kmalloc callDepth s.heap n = some (p, h'))
    (hok' : HeapOk bs' fl' h') (halloc : HeapOk.Allocated bs bs' m p) :
    LiveInv bs' fl' (s.exec (HeapOp.kmalloc n)) := by
  unfold HeapState.exec
  dsimp only
  rw [hrun]
  dsimp only
  rcases halloc with ⟨hp, hsame⟩ | ⟨a, t, hp, ht, _, hfresh, hsame⟩
  · rw [if_pos hp]
    refine ⟨hok', hl.returns, hl.nodup, ?_⟩
    intro q
    rw [hl.live q]
    refine exists_congr fun b => exists_congr fun u => ?_
    constructor
    · intro hmem
      exact ⟨hmem.left, (hsame (b, u) hmem.right.right).mpr hmem.right.left,
        hmem.right.right⟩
    · intro hmem
      exact ⟨hmem.left, (hsame (b, u) hmem.right.right).mp hmem.right.left,
        hmem.right.right⟩
  · have hne : p ≠ 0 := by
      unfold blockHdrSize at hp
      omega
    have hnew : p ∉ s.live := by
      intro hmem
      rcases (hl.live p).mp hmem with ⟨b, u, hpb, hb, hu⟩
      have hab : b = a := by omega
      rw [hab] at hb
      exact hfresh u hb hu
    rw [if_neg hne]
    refine ⟨hok', hl.returns, List.nodup_cons.mpr ⟨hnew, hl.nodup⟩, ?_⟩
    intro q
    rw [List.mem_cons, hl.live q]
    constructor
    · intro hmem
      rcases hmem with hq | ⟨b, u, hqb, hb, hu⟩
      · exact ⟨a, t, hq.trans hp, (hsame (a, t) ht).mpr (Or.inr rfl), ht⟩
      · exact ⟨b, u, hqb, (hsame (b, u) hu).mpr (Or.inl hb), hu⟩
    · intro hmem
      rcases hmem with ⟨b, u, hqb, hb, hu⟩
      rcases (hsame (b, u) hu).mp hb with hb | heq
      · exact Or.inr ⟨b, u, hqb, hb, hu⟩
      · cases heq
        exact Or.inl (hqb.trans hp.symm)

theorem exec_kmalloc (hl : LiveInv bs fl s) {n : Nat} (hpos : 1 ≤ n)
    (hn : n ≤ kernelHeapSize) :
    exists bs' fl', LiveInv bs' fl' (s.exec (HeapOp.kmalloc n)) := by
  rcases hl.ok.kmalloc (callDepth - 2) hpos hn with
    ⟨p, h', bs', fl', hrun, hok', halloc, _⟩
  have hdepth : callDepth - 2 + 2 = callDepth := by decide
  rw [hdepth] at hrun
  exact ⟨bs', fl', hl.allocated hrun hok' halloc⟩

theorem freed {before after : List (Nat × Tag)} {a : Nat} {t : Tag}
    (hl : LiveInv (before ++ (a, t) :: after) fl s) {bs' : List (Nat × Tag)}
    {fl' : List Nat} (hok' : HeapOk bs' fl' (s.heap.kfree (a + blockHdrSize)))
    (hsame : SameUsed (before ++ after) bs') :
    LiveInv bs' fl' (s.exec (HeapOp.kfree (a + blockHdrSize))) := by
  refine ⟨hok', hl.returns, hl.nodup.erase _, ?_⟩
  intro q
  show q ∈ s.live.erase (a + blockHdrSize) <-> _
  rw [hl.nodup.mem_erase_iff, hl.live q]
  constructor
  · rintro ⟨hne, b, u, hqb, hb, hu⟩
    refine ⟨b, u, hqb, (hsame (b, u) hu).mpr ?_, hu⟩
    simp only [List.mem_append, List.mem_cons, Prod.mk.injEq] at hb ⊢
    rcases hb with hb | hb | hb
    · exact Or.inl hb
    · rw [hqb, hb.left] at hne
      exact absurd rfl hne
    · exact Or.inr hb
  · rintro ⟨b, u, hqb, hb, hu⟩
    have hb' := List.mem_append.mp ((hsame (b, u) hu).mp hb)
    have hne := hl.ok.inv.layout.fresh b u hb'
    refine ⟨by omega, b, u, hqb, ?_, hu⟩
    rw [List.mem_append, List.mem_cons]
    exact hb'.imp_right Or.inr

theorem exec_kfree (hl : LiveInv bs fl s) {p : Nat} (hp : p ∈ s.live)
    (hback : HeapOp.BackSound s (HeapOp.kfree p)) :
    exists bs' fl', LiveInv bs' fl' (s.exec (HeapOp.kfree p)) := by
  rcases (hl.live p).mp hp with ⟨a, t, hpa, ha, ht⟩
  have hi := hl.ok.inv
  rcases List.append_of_mem ha with ⟨before, after, hbs⟩
  have hblk : p - blockHdrSize = a := by omega
  unfold HeapOp.BackSound at hback
  dsimp only at hback
  rw [hblk] at hback
  have hback' : BackOk s.heap before (s.heap.prevPhys a) := by
    rcases hback with hback | hback | ⟨hblock, hend⟩
    · exact Or.inl hback
    · exact Or.inr (Or.inl hback)
    · rcases hi.isBlock.mp hblock with ⟨u, hu⟩
      rw [(hi.read hu).right.left] at hend
      have hlayout := hi.layout
      rw [hbs] at hlayout hu
      rcases hlayout.split_before hu hend with ⟨front, hfront⟩
      exact Or.inr (Or.inr ⟨front, u, hfront⟩)
  rw [hbs] at hl
  rcases hl.ok.kfree ht hback' with ⟨bs', fl', hok', hsame⟩
  rw [hpa]
  exact ⟨bs', fl', hl.freed hok' hsame⟩

theorem exec_write (hl : LiveInv bs fl s) {x : Nat} (v : UInt8)
    (hvalid : HeapOp.Valid s (HeapOp.write x v)) :
    LiveInv bs fl (s.exec (HeapOp.write x v)) := by
  have hi := hl.ok.inv
  rcases hvalid with ⟨p, hp, hx⟩
  rcases (hl.live p).mp hp with ⟨a, t, hpa, ha, ht⟩
  rw [hpa, hi.payload_used ha ht, Set.mem_Ico] at hx
  refine ⟨⟨hi.frame ?_ rfl rfl rfl rfl, hl.ok.settled⟩, hl.returns, hl.nodup,
    hl.live⟩
  intro b f hb
  have hf := f.offset_le
  have hapart := hi.layout.payload_apart ha hb
  apply load32_storeByte_of_disjoint
  unfold blockHdrSize at *
  omega

theorem exec {o : HeapOp} (hl : LiveInv bs fl s) (hvalid : o.Valid s)
    (hback : o.BackSound s) : exists bs' fl', LiveInv bs' fl' (s.exec o) := by
  cases o with
  | kmalloc n => exact hl.exec_kmalloc hvalid.left hvalid.right
  | kfree p => exact hl.exec_kfree hvalid hback
  | write x v => exact ⟨bs, fl, hl.exec_write v hvalid⟩

end LiveInv

/-- The heap that `heap_init` expands: no blocks, and counters at zero. -/
def bareHeap (mem : Memory) (virtStart size : Nat) : Heap where
  mem := mem
  startPtr := virtStart
  endPtr := add32 virtStart size
  brk := virtStart
  freeList := 0
  stat :=
    { heapStart := UInt32.ofNat virtStart
      heapEnd := UInt32.ofNat virtStart
      heapSize := UInt32.ofNat size
      usedBytes := 0
      freeBytes := 0
      allocCount := 0
      freeCount := 0
      peakUsage := 0 }

theorem heapInv_bare (mem : Memory) {virtStart size : Nat}
    (hregion : HeapRegion virtStart size) :
    HeapInv [] [] (bareHeap mem virtStart size) := by
  have hroom := hregion.room
  have hend : add32 virtStart size = virtStart + size :=
    add32_of_lt (by unfold kernelHeapSize at hroom; omega)
  unfold bareHeap
  rw [hend]
  constructor
  · exact hregion.not_null
  · exact hregion.aligned
  · exact hroom
  · exact Nat.le_add_right virtStart size
  · exact rfl
  · intro b hb
    cases hb
  · intro b hb
    cases hb
  · refine ⟨fun _ => none, ?_, ?_⟩
    · intro a t
      simp
    · constructor
      · intro a b ha
        exact absurd rfl ha
      · intro a ha
        exact absurd rfl ha
      · intro a t ht
        cases ht
      · exact DList.nil _ _
      · intro a
        simp

theorem heapOk_bare (mem : Memory) {virtStart size : Nat}
    (hregion : HeapRegion virtStart size) :
    HeapOk [] [] (bareHeap mem virtStart size) := by
  refine ⟨heapInv_bare mem hregion, ?_⟩
  intro b hb
  cases hb

theorem heapStart_heap (mem : Memory) (virtStart size : Nat) :
    (heapStart mem virtStart size).heap =
      ((bareHeap mem virtStart size).heapExpand pageSize.toNat).2 := by
  unfold heapStart Heap.heapInit bareHeap
  dsimp only

theorem liveInv_unheld {mem : Memory} {virtStart size : Nat}
    {bs : List (Nat × Tag)} {fl : List Nat}
    (hok : HeapOk bs fl (heapStart mem virtStart size).heap)
    (hfree : forall b, b ∈ bs -> b.2.magic = heapMagicFree) :
    LiveInv bs fl (heapStart mem virtStart size) := by
  refine ⟨hok, rfl, List.nodup_nil, ?_⟩
  intro p
  constructor
  · intro hp
    cases hp
  · rintro ⟨a, t, _, ha, hused⟩
    exact absurd ((hfree (a, t) ha).symm.trans hused) magic_ne

theorem heapStart_cases (mem : Memory) {virtStart size : Nat}
    (hregion : HeapRegion virtStart size) :
    (bareHeap mem virtStart size).heapExpand pageSize.toNat =
          (0, bareHeap mem virtStart size) ∧
        LiveInv [] [] (heapStart mem virtStart size) ∨
      exists n,
        ((bareHeap mem virtStart size).heapExpand pageSize.toNat).1 =
            virtStart ∧
          LiveInv [(virtStart, ⟨n, heapMagicFree, 0, true⟩)] [virtStart]
            (heapStart mem virtStart size) := by
  have hpage : pageSize.toNat ≤ kernelHeapSize := by decide
  have hbare := heapOk_bare mem hregion
  have hheap := heapStart_heap mem virtStart size
  rcases hbare.inv.expand hpage with hfull | ⟨n, _, hptr, _, hi⟩
  · rw [hfull] at hheap
    exact Or.inl ⟨hfull, liveInv_unheld (hheap ▸ hbare) (List.forall_mem_nil _)⟩
  · have hok := hbare.expand hi
    rw [← hheap] at hok
    exact Or.inr ⟨n, hptr,
      liveInv_unheld hok (List.forall_mem_singleton.mpr rfl)⟩

theorem heapStart_grown (mem : Memory) {virtStart size : Nat}
    (hregion : HeapRegion virtStart size) :
    exists bs fl, LiveInv bs fl (heapStart mem virtStart size) ∧
      HeapOk.Grown [] (bareHeap mem virtStart size) bs
        (heapStart mem virtStart size).heap := by
  have hheap := heapStart_heap mem virtStart size
  rcases heapStart_cases mem hregion with ⟨hfull, hl⟩ | ⟨n, _, hl⟩
  · rw [hfull] at hheap
    exact ⟨_, _, hl, hheap ▸ HeapOk.Grown.refl _ _⟩
  · have hi := hl.ok.inv
    rw [hheap] at hi ⊢
    exact ⟨_, _, hl, HeapOk.Grown.page hi (HeapOk.Grown.refl _ _)⟩

theorem liveInv_heapStart (mem : Memory) {virtStart size : Nat}
    (hregion : HeapRegion virtStart size) :
    exists bs fl, LiveInv bs fl (heapStart mem virtStart size) := by
  rcases heapStart_cases mem hregion with ⟨_, hl⟩ | ⟨n, _, hl⟩
  · exact ⟨_, _, hl⟩
  · exact ⟨_, _, hl⟩

/-!
# Runs
-/

theorem heap_noOverlap (mem : Memory) {virtStart size : Nat}
    (hregion : HeapRegion virtStart size) {s : HeapState}
    (hreach : Reachable HeapState.exec
      (fun s o => o.Valid s ∧ o.BackSound s) (heapStart mem virtStart size)
      s) :
    NoOverlap s := by
  have hinv : exists bs fl, LiveInv bs fl s := by
    apply hreach.invariant (liveInv_heapStart mem hregion)
    intro s o hs hcond
    rcases hs with ⟨bs, fl, hl⟩
    exact hl.exec hcond.left hcond.right
  rcases hinv with ⟨bs, fl, hl⟩
  exact hl.noOverlap

/-- The heap of the kernel, over memory that was cleared. -/
def kernelHeap : HeapState :=
  heapStart (fun _ => 0) kernelHeapStart kernelHeapSize

theorem heapRegion_kernel : HeapRegion kernelHeapStart kernelHeapSize where
  not_null := by decide
  aligned := by decide
  room := by decide

/-- Two allocations, the first of which is freed next to the second. -/
def plainRun : List HeapOp :=
  [HeapOp.kmalloc 16, HeapOp.kmalloc 16,
    HeapOp.kfree (kernelHeapStart + 32)]

theorem heap_noOverlap_plainRun :
    NoOverlap (run HeapState.exec kernelHeap plainRun) := by
  refine heap_noOverlap (fun _ => 0) heapRegion_kernel
    ⟨plainRun, ⟨⟨?_, trivial⟩, ⟨?_, trivial⟩, ⟨?_, ?_⟩, trivial⟩, rfl⟩
  · exact ⟨by decide, by decide⟩
  · exact ⟨by decide, by decide⟩
  · show kernelHeapStart + 32 ∈ HeapState.live _
    decide +kernel
  · exact Or.inl (by decide +kernel)

/--
`A`, `B` and `C` lie side by side.  Freeing `A` and `B` joins them, and the
next request takes the place of both; `C` still has `B` as `prev_phys`.
-/
def overlapRun : List HeapOp :=
  [HeapOp.kmalloc 16, HeapOp.kmalloc 16, HeapOp.kmalloc 16,
    HeapOp.kfree (kernelHeapStart + 32), HeapOp.kfree (kernelHeapStart + 80),
    HeapOp.kmalloc 64, HeapOp.kfree (kernelHeapStart + 128),
    HeapOp.kmalloc 16]

theorem heap_overlaps :
    Meets HeapState.exec (fun s o => o.Valid s) kernelHeap overlapRun ∧
      ¬ NoOverlap (run HeapState.exec kernelHeap overlapRun) := by
  constructor
  · refine ⟨?_, ?_, ?_, ?_, ?_, ?_, ?_, ?_, trivial⟩
    · exact ⟨by decide, by decide⟩
    · exact ⟨by decide, by decide⟩
    · exact ⟨by decide, by decide⟩
    · show kernelHeapStart + 32 ∈ HeapState.live _
      decide +kernel
    · show kernelHeapStart + 80 ∈ HeapState.live _
      decide +kernel
    · exact ⟨by decide, by decide⟩
    · show kernelHeapStart + 128 ∈ HeapState.live _
      decide +kernel
    · exact ⟨by decide, by decide⟩
  · intro hsound
    have hlive : (run HeapState.exec kernelHeap overlapRun).live =
        [kernelHeapStart + 80, kernelHeapStart + 32] := by decide +kernel
    have hfirst : (run HeapState.exec kernelHeap overlapRun).heap.ksize
        (kernelHeapStart + 80) = 16 := by decide +kernel
    have hsecond : (run HeapState.exec kernelHeap overlapRun).heap.ksize
        (kernelHeapStart + 32) = 64 := by decide +kernel
    have hdisjoint := hsound.disjoint
    rw [hlive, List.pairwise_cons] at hdisjoint
    have hpair := hdisjoint.left (kernelHeapStart + 32) (by simp)
    unfold payload at hpair
    rw [hfirst, hsecond, Set.disjoint_left] at hpair
    exact hpair (a := kernelHeapStart + 80) (by simp) (by simp)

end Mm
end EarlnuxOS
