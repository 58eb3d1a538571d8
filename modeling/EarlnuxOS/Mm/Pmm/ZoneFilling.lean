import EarlnuxOS.Mm.Pmm.AllocSpec
import EarlnuxOS.Mm.Pmm.InitSpec

/-!
# Filling three zones from one descriptor array

The zones share `page_array`, so freeing a range into one zone must leave the
descriptors of the others alone.  As long as the ranges are disjoint and inside
the array, each zone keeps its invariant.
-/

namespace EarlnuxOS
namespace Mm

open Foundation

/-!
# What freeing a range touches
-/

def HeadsIn (z : Zoned) (S : Set Nat) : Prop :=
  forall k p, k ≤ pmmMaxOrder -> z.zone.freeList k = some p -> p ∈ S

theorem pushFree_outside (z : Zoned) (pfn order : Nat) :
    (z.pushFree pfn order).pages.outside =
      ((z.pages.outside || decide (pageArraySize ≤ pfn)) ||
        match z.zone.freeList order with
        | none => false
        | some q => decide (pageArraySize ≤ q)) := by
  unfold Zoned.pushFree
  cases z.zone.freeList order with
  | none => exact (Bool.or_false _).symm
  | some q => rfl

namespace HeadsIn

variable {z : Zoned} {S : Set Nat} {pfn order : Nat}

theorem push (h : HeadsIn z S) (hpfn : pfn ∈ S) :
    HeadsIn (z.pushFree pfn order) S := by
  intro k p hk hp
  rw [Zoned.pushFree_freeList] at hp
  by_cases hkorder : k = order
  · rw [if_pos hkorder] at hp
    cases hp
    exact hpfn
  · rw [if_neg hkorder] at hp
    exact h k p hk hp

theorem push_page (h : HeadsIn z S) (hpfn : pfn ∈ S)
    (horder : order ≤ pmmMaxOrder) {x : Nat} (hx : x ∉ S) :
    (z.pushFree pfn order).page x = z.page x := by
  have hne : x ≠ pfn := by
    intro heq
    rw [heq] at hx
    exact hx hpfn
  have hhead : z.zone.freeList order ≠ some x := by
    intro heq
    exact hx (h order x horder heq)
  rw [Zoned.pushFree_page]
  simp only [if_neg hne, if_neg hhead]
  rfl

theorem push_outside (h : HeadsIn z S) (hpfn : pfn ∈ S)
    (horder : order ≤ pmmMaxOrder) (hS : forall x, x ∈ S -> x < pageArraySize) :
    (z.pushFree pfn order).pages.outside = z.pages.outside := by
  have hin := hS pfn hpfn
  rw [pushFree_outside, decide_eq_false (Nat.not_le_of_lt hin)]
  cases hhead : z.zone.freeList order with
  | none => simp
  | some q =>
      have hq := hS q (h order q horder hhead)
      simp only [decide_eq_false (Nat.not_le_of_lt hq), Bool.or_false]

theorem freeRange {endPfn : Nat} (pfn : Nat) (h : HeadsIn z S)
    (hrange : Set.Ico pfn endPfn ⊆ S) :
    (forall x, x ∉ S -> (buddyFreeRange z pfn endPfn).page x = z.page x) ∧
      ((forall x, x ∈ S -> x < pageArraySize) ->
        (buddyFreeRange z pfn endPfn).pages.outside = z.pages.outside) := by
  induction pfn using range_induction endPfn generalizing z with
  | done pfn hle =>
      rw [buddyFreeRange_of_le z hle]
      exact ⟨fun _ _ => rfl, fun _ => rfl⟩
  | step pfn hlt ih =>
      have hpfn : pfn ∈ S := hrange ⟨Nat.le_refl pfn, hlt⟩
      have horder := rangeOrder_le pfn endPfn pmmMaxOrder
      have hrest : Set.Ico
          (pfn + 2 ^ rangeOrder pfn endPfn pmmMaxOrder) endPfn ⊆ S := by
        intro x hx
        exact hrange ⟨Nat.le_of_add_right_le hx.left, hx.right⟩
      rcases ih (h.push hpfn) hrest with ⟨hpage, houtside⟩
      rw [buddyFreeRange_of_lt z hlt]
      constructor
      · intro x hx
        rw [hpage x hx, h.push_page hpfn horder hx]
      · intro hS
        rw [houtside hS, h.push_outside hpfn horder hS]

end HeadsIn

namespace ZoneInv

variable {totalPageFrames : Nat} {owned : Set Nat}
  {lists : Nat -> List Nat} {out : Set Block} {z : Zoned}

theorem headsIn (h : ZoneInv totalPageFrames owned lists out z) :
    HeadsIn z owned := by
  intro k p hk hp
  have hlinked := h.linked k hk
  rw [hp] at hlinked
  rcases hlinked.mem_of_head with ⟨rest, hrest⟩
  apply h.mem_owned_of_listed hk
  rw [hrest]
  exact List.mem_cons_self

/-- The invariant reads the free lists, the counters and the owned pages. -/
theorem frame (h : ZoneInv totalPageFrames owned lists out z) {z' : Zoned}
    {known : Nat} (hknown : totalPageFrames ≤ known)
    (hlist : z'.zone.freeList = z.zone.freeList)
    (hcount : z'.zone.freeCount = z.zone.freeCount)
    (hfree : z'.zone.freePages = z.zone.freePages)
    (hpage : forall x, x ∈ owned -> z'.page x = z.page x) :
    ZoneInv known owned lists out z' where
  linked := by
    intro k hk
    rw [hlist]
    apply (h.linked k hk).congr
    · intro x hx
      exact congrArg Page.next (hpage x (h.mem_owned_of_listed hk hx))
    · intro x hx
      exact congrArg Page.prev (hpage x (h.mem_owned_of_listed hk hx))
  marked := by
    intro k hk p hp
    rw [hpage p (h.mem_owned_of_listed hk hp)]
    exact h.marked k hk p hp
  tiles := h.tiles
  apart := h.apart
  outOrder := h.outOrder
  valid := by
    intro x hx
    rcases h.valid x hx with ⟨hlt, hsize⟩
    exact ⟨Nat.lt_of_lt_of_le hlt hknown, hsize⟩
  counted := by
    intro k hk
    rw [hcount]
    exact h.counted k hk
  totalled := by
    rw [hfree]
    exact h.totalled

end ZoneInv

/-!
# The invariant of the three zones
-/

/-- Each zone is well formed and owns pages of its own. -/
structure PmmInv (owned : ZoneId -> Set Nat)
    (lists : ZoneId -> Nat -> List Nat) (s : Pmm) : Prop where
  zone : forall id,
    ZoneInv s.totalPageFrames (owned id) (lists id) ∅ (s.zoned id)
  apart : forall id id', id ≠ id' -> Disjoint (owned id) (owned id')
  inside : s.pages.outside = false
  bounded : s.Bounded

/-- The pages of the ranges that are meant for a zone. -/
def ownedIn (ranges : List (ZoneId × Nat × Nat)) (id : ZoneId) : Set Nat :=
  {x | exists r, r ∈ ranges ∧ r.1 = id ∧ x ∈ Set.Ico r.2.1 r.2.2}

theorem ownedIn_nil (id : ZoneId) : ownedIn [] id = ∅ := by
  ext x
  simp [ownedIn]

theorem ownedIn_cons (r : ZoneId × Nat × Nat)
    (ranges : List (ZoneId × Nat × Nat)) (id : ZoneId) :
    ownedIn (r :: ranges) id =
      (if r.1 = id then Set.Ico r.2.1 r.2.2 else ∅) ∪ ownedIn ranges id := by
  ext x
  unfold ownedIn
  by_cases hid : r.1 = id <;> simp [hid]

/-- A range of pages that no zone owns yet and that may be freed. -/
def Fresh (owned : ZoneId -> Set Nat) (known a b : Nat) : Prop :=
  forall x, x ∈ Set.Ico a b ->
    (forall id, x ∉ owned id) ∧ x < known ∧ x < pageArraySize

namespace PmmInv

variable {owned : ZoneId -> Set Nat} {lists : ZoneId -> Nat -> List Nat}
  {s : Pmm}

theorem freeRange (h : PmmInv owned lists s) (id : ZoneId) {a b : Nat}
    (hfresh : Fresh owned s.totalPageFrames a b) :
    exists lists', PmmInv
      (Function.update owned id (owned id ∪ Set.Ico a b)) lists'
        (s.freeRange id a b) := by
  have hnew : forall id', Disjoint (owned id') (Set.Ico a b) := by
    intro id'
    rw [Set.disjoint_right]
    intro x hx
    exact (hfresh x hx).left id'
  rcases (h.zone id).freeRange a (hnew id) (fun x hx => (hfresh x hx).right)
    with ⟨l, hinv, _⟩
  have hheads : HeadsIn (s.zoned id) (owned id ∪ Set.Ico a b) := by
    intro k p hk hp
    exact Or.inl ((h.zone id).headsIn k p hk hp)
  rcases hheads.freeRange a Set.subset_union_right with ⟨hpage, houtside⟩
  have hsize : forall x, x ∈ owned id ∪ Set.Ico a b -> x < pageArraySize :=
    fun x hx => (hinv.valid x hx).right
  refine ⟨Function.update lists id l, ?_⟩
  exact {
    zone := by
      intro id'
      by_cases hid : id' = id
      · subst hid
        rw [Function.update_self, Function.update_self]
        have hzoned : (s.freeRange id' a b).zoned id' =
            buddyFreeRange (s.zoned id') a b := by
          unfold Pmm.zoned
          rw [Pmm.zones_freeRange, if_pos rfl]
          rfl
        rw [hzoned]
        exact hinv
      · rw [Function.update_of_ne hid, Function.update_of_ne hid]
        have hzone : ((s.freeRange id a b).zoned id').zone =
            (s.zoned id').zone := by
          unfold Pmm.zoned
          rw [Pmm.zones_freeRange, if_neg hid]
        apply (h.zone id').frame (Nat.le_refl _)
        · rw [hzone]
        · rw [hzone]
        · rw [hzone]
        · intro x hx
          apply hpage x
          intro hmem
          rcases hmem with hmem | hmem
          · exact Set.disjoint_left.mp (h.apart id' id hid) hx hmem
          · exact Set.disjoint_left.mp (hnew id') hx hmem
    apart := by
      intro i j hij
      simp only [Function.update_apply]
      split <;> rename_i hi <;> split <;> rename_i hj
      · exact absurd (hi.trans hj.symm) hij
      · rw [Set.disjoint_union_left]
        exact ⟨h.apart id j (Ne.symm hj), (hnew j).symm⟩
      · rw [Set.disjoint_union_right]
        exact ⟨h.apart i id hi, hnew i⟩
      · exact h.apart i j hij
    inside := (houtside hsize).trans h.inside
    bounded := h.bounded.freeRange id a b }

theorem freeRangesIn {ranges : List (ZoneId × Nat × Nat)}
    (h : PmmInv owned lists s)
    (hdisjoint : ranges.Pairwise fun r t =>
      Disjoint (Set.Ico r.2.1 r.2.2) (Set.Ico t.2.1 t.2.2))
    (hfresh : forall r, r ∈ ranges ->
      Fresh owned s.totalPageFrames r.2.1 r.2.2) :
    exists lists', PmmInv (fun id => owned id ∪ ownedIn ranges id) lists'
      (s.freeRanges ranges) := by
  induction ranges generalizing owned lists s with
  | nil =>
      refine ⟨lists, ?_⟩
      simp only [ownedIn_nil, Set.union_empty]
      exact h
  | cons r ranges ih =>
      rw [List.pairwise_cons] at hdisjoint
      rcases h.freeRange r.1 (hfresh r List.mem_cons_self) with ⟨l, hinv⟩
      have hrest : forall t, t ∈ ranges ->
          Fresh (Function.update owned r.1
            (owned r.1 ∪ Set.Ico r.2.1 r.2.2)) s.totalPageFrames t.2.1
              t.2.2 := by
        intro t ht x hx
        rcases hfresh t (List.mem_cons_of_mem r ht) x hx with
          ⟨hnew, hvalid⟩
        refine ⟨?_, hvalid⟩
        intro id hmem
        rw [Function.update_apply] at hmem
        split at hmem
        · rcases hmem with hmem | hmem
          · exact hnew r.1 hmem
          · exact Set.disjoint_left.mp (hdisjoint.left t ht) hmem hx
        · exact hnew id hmem
      rcases ih hinv hdisjoint.right hrest with ⟨lists', hinv'⟩
      have hcover : (fun id => Function.update owned r.1
          (owned r.1 ∪ Set.Ico r.2.1 r.2.2) id ∪ ownedIn ranges id) =
            fun id => owned id ∪ ownedIn (r :: ranges) id := by
        funext id
        rw [ownedIn_cons, Function.update_apply, ← Set.union_assoc]
        by_cases hid : id = r.1
        · rw [if_pos hid, if_pos hid.symm, hid]
        · rw [if_neg hid, if_neg (Ne.symm hid), Set.union_empty]
      rw [hcover] at hinv'
      exact ⟨lists', hinv'⟩

theorem freeRanges {ranges : List (ZoneId × Nat × Nat)}
    (h : PmmInv owned lists s)
    (hdisjoint : ranges.Pairwise fun r t =>
      Disjoint (Set.Ico r.2.1 r.2.2) (Set.Ico t.2.1 t.2.2))
    (hfresh : forall r, r ∈ ranges ->
      Fresh owned s.totalPageFrames r.2.1 r.2.2) :
    exists owned' lists', PmmInv owned' lists' (s.freeRanges ranges) ∧
      forall f, (exists id, f ∈ owned' id) <->
        (exists id, f ∈ owned id) ∨
          exists r, r ∈ ranges ∧ f ∈ Set.Ico r.2.1 r.2.2 := by
  rcases h.freeRangesIn hdisjoint hfresh with ⟨lists', hinv⟩
  refine ⟨_, lists', hinv, ?_⟩
  intro f
  constructor
  · intro hmem
    rcases hmem with ⟨id, hmem | hmem⟩
    · exact Or.inl ⟨id, hmem⟩
    · rcases hmem with ⟨r, hr, _, hf⟩
      exact Or.inr ⟨r, hr, hf⟩
  · intro hmem
    rcases hmem with ⟨id, hmem⟩ | ⟨r, hr, hf⟩
    · exact ⟨id, Or.inl hmem⟩
    · exact ⟨r.1, Or.inr ⟨r, hr, rfl, hf⟩⟩

end PmmInv

/-!
# The loop over the memory map
-/

theorem markUsable_page (a : PageArray) (pfn count : Nat) {x : Nat}
    (hx : x ∉ Set.Ico pfn (pfn + count)) :
    (markUsable a pfn count).page x = a.page x := by
  induction count generalizing a pfn with
  | zero => rfl
  | succ count ih =>
      have hne : x ≠ pfn := by
        intro heq
        rw [heq] at hx
        exact hx ⟨Nat.le_refl _, by omega⟩
      have hrest : x ∉ Set.Ico (pfn + 1) (pfn + 1 + count) := by
        intro hmem
        rw [Set.mem_Ico] at hmem hx
        omega
      unfold markUsable
      rw [ih _ _ hrest]
      exact Function.update_of_ne hne _ _

theorem markUsable_outside (a : PageArray) (pfn count : Nat)
    (h : count = 0 ∨ pfn + count ≤ pageArraySize) :
    (markUsable a pfn count).outside = a.outside := by
  induction count generalizing a pfn with
  | zero => rfl
  | succ count ih =>
      unfold markUsable
      rw [ih _ _ (by omega)]
      show (a.outside || decide (pageArraySize ≤ pfn)) = a.outside
      rw [decide_eq_false (by omega), Bool.or_false]

namespace PmmInv

variable {owned : ZoneId -> Set Nat} {lists : ZoneId -> Nat -> List Nat}
  {s : Pmm}

theorem unfilled {s : Pmm}
    (hlist : forall id, (s.zones id).freeList = fun _ => none)
    (hcount : forall id, (s.zones id).freeCount = fun _ => 0)
    (hfree : forall id, (s.zones id).freePages = 0)
    (hinside : s.pages.outside = false) (hbounded : s.Bounded) :
    PmmInv (fun _ => ∅) (fun _ _ => []) s where
  zone := by
    intro id
    have hnone : onLists (fun _ => []) = ∅ := by
      ext b
      simp [onLists]
    exact {
      linked := by
        intro k _
        show DList _ _ ((s.zones id).freeList k) []
        rw [hlist]
        exact DList.nil _ _
      marked := fun k _ p hp => absurd hp List.not_mem_nil
      tiles := by
        rw [hnone, Set.union_empty]
        exact Tiles.empty
      apart := Set.disjoint_empty _
      outOrder := fun b hb => absurd hb (Set.notMem_empty b)
      valid := fun x hx => absurd hx (Set.notMem_empty x)
      counted := by
        intro k _
        show (s.zones id).freeCount k = _
        rw [hcount]
        rfl
      totalled := by
        show (s.zones id).freePages = _
        rw [hfree]
        simp [freeTotal] }
  apart := fun _ _ _ => Set.disjoint_empty _
  inside := hinside
  bounded := hbounded

theorem boot : PmmInv (fun _ => ∅) (fun _ _ => []) Pmm.boot.initZones :=
  unfilled (fun id => by cases id <;> rfl) (fun id => by cases id <;> rfl)
    (fun id => by cases id <;> rfl) rfl (Pmm.initZones_bounded _)

theorem marked (h : PmmInv owned lists s) (e : MemMapEntry)
    (hnew : forall f, e.pfnStart ≤ f -> f < e.pfnEnd -> f < pageArraySize ->
      forall id, f ∉ owned id) :
    PmmInv owned lists (s.marked e.start e.stop) := by
  have hpage : forall id x, x ∈ owned id ->
      ((s.marked e.start e.stop).zoned id).page x = (s.zoned id).page x := by
    intro id x hx
    apply markUsable_page
    intro hmem
    have hrange : e.pfnStart ≤ x ∧ x < e.pfnEnd ∧ x < pageArraySize := by
      change e.pfnStart ≤ x ∧ x < e.pfnStart +
        (min e.pfnEnd pageArraySize - e.pfnStart) at hmem
      omega
    exact hnew x hrange.left hrange.right.left hrange.right.right id hx
  exact {
    zone := by
      intro id
      refine ZoneInv.frame (h.zone id) ?_ rfl rfl rfl (hpage id)
      show s.totalPageFrames ≤
        if s.totalPageFrames < e.pfnEnd then e.pfnEnd else s.totalPageFrames
      split <;> omega
    apart := h.apart
    inside := by
      refine (markUsable_outside _ _ _ ?_).trans h.inside
      show min e.pfnEnd pageArraySize - e.pfnStart = 0 ∨
        e.pfnStart + (min e.pfnEnd pageArraySize - e.pfnStart) ≤ pageArraySize
      omega
    bounded := h.bounded.marked e.start e.stop }

theorem addTotal (h : PmmInv owned lists s) (id : ZoneId) (pages : Nat) :
    PmmInv owned lists (s.addTotal id pages) where
  zone := by
    intro id'
    have hzone : forall id', ((s.addTotal id pages).zones id').freeList =
          (s.zones id').freeList ∧
        ((s.addTotal id pages).zones id').freeCount =
          (s.zones id').freeCount ∧
        ((s.addTotal id pages).zones id').freePages =
          (s.zones id').freePages := by
      intro id'
      unfold Pmm.addTotal
      simp only [Function.update_apply]
      split
      · rename_i hid
        rw [hid]
        exact ⟨rfl, rfl, rfl⟩
      · exact ⟨rfl, rfl, rfl⟩
    rcases hzone id' with ⟨hlist, hcount, hfree⟩
    exact (h.zone id').frame (Nat.le_refl _) hlist hcount hfree
      (fun _ _ => rfl)
  apart := h.apart
  inside := h.inside
  bounded := h.bounded.addTotal id pages

end PmmInv

/-- The frames of an entry that `pmm_init` hands to some zone. -/
def MemMapEntry.placed (e : MemMapEntry) : Set Nat :=
  {f | e.Taken ∧ exists r, r ∈ Pmm.placements e.pfnStart e.pfnEnd ∧
    f ∈ Set.Ico r.2.1 r.2.2}

/-- The entry starts in DMA, or lies in HIGHMEM and in `page_array`. -/
def MemMapEntry.PlacedOnce (e : MemMapEntry) : Prop :=
  e.pfnStart < 4096 ∨ 229376 ≤ e.pfnStart ∧ e.pfnEnd ≤ pageArraySize

/-- Disjoint frames, as far as `page_array` reaches. -/
def PagesApart (e e' : MemMapEntry) : Prop :=
  forall f, f < pageArraySize -> f ∈ e.pages -> f ∉ e'.pages

theorem MemMapEntry.placed_dma {e : MemMapEntry} (hdma : e.pfnStart < 4096) :
    Pmm.placements e.pfnStart e.pfnEnd =
      [(ZoneId.dma, e.pfnStart, min e.pfnEnd 4096),
        (ZoneId.normal, 4096, min e.pfnEnd 229376)] :=
  if_pos hdma

theorem MemMapEntry.placed_highmem {e : MemMapEntry}
    (hhigh : 229376 ≤ e.pfnStart) :
    Pmm.placements e.pfnStart e.pfnEnd =
      [(ZoneId.highmem, e.pfnStart, e.pfnEnd)] := by
  unfold Pmm.placements
  rw [if_neg (by omega), if_neg (by omega)]

theorem MemMapEntry.PlacedOnce.mem_placements {e : MemMapEntry}
    (h : e.PlacedOnce) {r : ZoneId × Nat × Nat}
    (hr : r ∈ Pmm.placements e.pfnStart e.pfnEnd) {f : Nat}
    (hf : f ∈ Set.Ico r.2.1 r.2.2) :
    e.pfnStart ≤ f ∧ f < e.pfnEnd ∧ f < pageArraySize := by
  unfold pageArraySize
  rcases h with hdma | ⟨hhigh, hsize⟩
  · rw [MemMapEntry.placed_dma hdma] at hr
    rcases List.mem_cons.mp hr with hr | hr
    · rw [hr, Set.mem_Ico] at hf
      simp only at hf
      omega
    · rw [List.mem_singleton.mp hr, Set.mem_Ico] at hf
      simp only at hf
      omega
  · unfold pageArraySize at hsize
    rw [MemMapEntry.placed_highmem hhigh] at hr
    rw [List.mem_singleton.mp hr, Set.mem_Ico] at hf
    simp only at hf
    omega

theorem MemMapEntry.PlacedOnce.disjoint {e : MemMapEntry}
    (h : e.PlacedOnce) :
    (Pmm.placements e.pfnStart e.pfnEnd).Pairwise fun r t =>
      Disjoint (Set.Ico r.2.1 r.2.2) (Set.Ico t.2.1 t.2.2) := by
  rcases h with hdma | ⟨hhigh, _⟩
  · rw [MemMapEntry.placed_dma hdma, List.pairwise_pair, Set.disjoint_left]
    intro f hf hf'
    rw [Set.mem_Ico] at hf hf'
    simp only at hf hf'
    omega
  · rw [MemMapEntry.placed_highmem hhigh]
    exact List.pairwise_singleton _ _

namespace PmmInv

variable {owned : ZoneId -> Set Nat} {lists : ZoneId -> Nat -> List Nat}
  {s : Pmm}

theorem addEntry (h : PmmInv owned lists s) {e : MemMapEntry}
    (honce : e.Taken -> e.PlacedOnce)
    (hnew : forall f, f < pageArraySize -> f ∈ e.pages ->
      forall id, f ∉ owned id) :
    exists owned' lists', PmmInv owned' lists' (s.addEntry e) ∧
      forall f, (exists id, f ∈ owned' id) <->
        (exists id, f ∈ owned id) ∨ f ∈ e.placed := by
  by_cases htaken : e.Taken
  · have hplaced := honce htaken
    have hmarked := h.marked e (fun f hlo hhi hsize =>
      hnew f hsize ⟨htaken, hlo, hhi⟩)
    have hfresh : forall r, r ∈ Pmm.placements e.pfnStart e.pfnEnd ->
        Fresh owned (s.marked e.start e.stop).totalPageFrames r.2.1
          r.2.2 := by
      intro r hr x hx
      rcases hplaced.mem_placements hr hx with ⟨hlo, hhi, hsize⟩
      refine ⟨hnew x hsize ⟨htaken, hlo, hhi⟩, ?_, hsize⟩
      show x < if s.totalPageFrames < e.pfnEnd then e.pfnEnd
        else s.totalPageFrames
      split <;> omega
    rcases hmarked.freeRanges hplaced.disjoint hfresh with
      ⟨owned', lists', hinv, hcover⟩
    refine ⟨owned', lists', ?_, ?_⟩
    · rw [Pmm.addEntry_eq h.bounded htaken]
      exact hinv.addTotal _ _
    · intro f
      rw [hcover f]
      have hiff : (exists r, r ∈ Pmm.placements e.pfnStart e.pfnEnd ∧
          f ∈ Set.Ico r.2.1 r.2.2) <-> f ∈ e.placed :=
        ⟨fun hf => ⟨htaken, hf⟩, fun hf => hf.right⟩
      rw [hiff]
  · rw [Pmm.addEntry_skipped s htaken]
    refine ⟨owned, lists, h, ?_⟩
    intro f
    constructor
    · exact Or.inl
    · intro hf
      rcases hf with hf | hf
      · exact hf
      · exact absurd hf.left htaken

theorem addEntries {map : List MemMapEntry} (h : PmmInv owned lists s)
    (honce : forall e, e ∈ map -> e.Taken -> e.PlacedOnce)
    (hapart : map.Pairwise PagesApart)
    (hnew : forall e, e ∈ map -> forall f, f < pageArraySize ->
      f ∈ e.pages -> forall id, f ∉ owned id) :
    exists owned' lists', PmmInv owned' lists' (map.foldl Pmm.addEntry s) ∧
      forall f, (exists id, f ∈ owned' id) <->
        (exists id, f ∈ owned id) ∨ exists e, e ∈ map ∧ f ∈ e.placed := by
  induction map generalizing owned lists s with
  | nil =>
      refine ⟨owned, lists, h, ?_⟩
      intro f
      simp
  | cons e map ih =>
      rw [List.pairwise_cons] at hapart
      rcases h.addEntry (honce e List.mem_cons_self)
        (hnew e List.mem_cons_self) with ⟨owned1, lists1, hinv, hcover⟩
      have hplaced : forall f, f ∈ e.placed ->
          f ∈ e.pages ∧ f < pageArraySize := by
        intro f hf
        rcases hf with ⟨htaken, r, hr, hf⟩
        rcases (honce e List.mem_cons_self htaken).mem_placements hr hf with
          ⟨hlo, hhi, hsize⟩
        exact ⟨⟨htaken, hlo, hhi⟩, hsize⟩
      have hrest : forall e', e' ∈ map -> forall f, f < pageArraySize ->
          f ∈ e'.pages -> forall id, f ∉ owned1 id := by
        intro e' he' f hsize hf id hmem
        rcases (hcover f).mp ⟨id, hmem⟩ with ⟨id', hmem⟩ | hmem
        · exact hnew e' (List.mem_cons_of_mem e he') f hsize hf id' hmem
        · exact hapart.left e' he' f hsize (hplaced f hmem).left hf
      rcases ih hinv (fun e' he' => honce e' (List.mem_cons_of_mem e he'))
        hapart.right hrest with ⟨owned', lists', hinv', hcover'⟩
      refine ⟨owned', lists', hinv', ?_⟩
      intro f
      rw [hcover' f, hcover f]
      simp only [List.mem_cons, exists_eq_or_imp, or_assoc]

end PmmInv

end Mm
end EarlnuxOS
