import EarlnuxOS.Foundation.Run
import EarlnuxOS.Mm.Pmm.ZoneFrame

/-!
# Zone separation

The three zones share one descriptor array and nothing in `buddy_free` looks at
the limits of a zone.  What keeps a block from growing across them is that they
are multiples of the largest block: the buddy of a block below the largest
order lies on the same side of every limit.

A block goes back to the zone that `select_zone` finds for its address, so the
same alignment makes it the zone the block was taken from.
-/

namespace EarlnuxOS
namespace Mm

open Foundation

/-!
# The pages of a zone
-/

def zoneBase : ZoneId -> Nat
  | ZoneId.dma => 0
  | ZoneId.normal => 4096
  | ZoneId.highmem => 229376

def zonePages (id : ZoneId) : Set Nat :=
  Set.Ico (zoneBase id) (Pmm.zoneEnd id)

theorem zonePages_disjoint {id id' : ZoneId} (h : id ≠ id') :
    Disjoint (zonePages id) (zonePages id') := by
  rw [Set.disjoint_left]
  intro x hx hx'
  unfold zonePages at hx hx'
  rw [Set.mem_Ico] at hx hx'
  cases id <;> cases id' <;> simp only [zoneBase, Pmm.zoneEnd] at hx hx' <;>
    first | exact h rfl | omega

theorem zonePages_lt {id : ZoneId} (hid : id ≠ ZoneId.highmem) {x : Nat}
    (hx : x ∈ zonePages id) : x < pageArraySize := by
  have hlt := hx.right
  unfold pageArraySize
  cases id with
  | dma =>
      simp only [Pmm.zoneEnd] at hlt
      omega
  | normal =>
      simp only [Pmm.zoneEnd] at hlt
      omega
  | highmem => exact absurd rfl hid

/-- HIGHMEM ends at no aligned page, but no block is ever given back to it. -/
theorem zonePages_buddyClosed {id : ZoneId} (hid : id ≠ ZoneId.highmem)
    {owned : Set Nat} (hsub : owned ⊆ zonePages id) :
    BuddyClosed (zonePages id) owned := by
  intro b halign horder hstart
  have hlo : 2 ^ pmmMaxOrder ∣ zoneBase id := by
    cases id <;> decide
  have hhi : 2 ^ pmmMaxOrder ∣ Pmm.zoneEnd id := by
    cases id with
    | dma => decide
    | normal => decide
    | highmem => exact absurd rfl hid
  exact Block.buddy_start_mem_Ico halign horder hlo hhi (hsub hstart)

theorem toNat_pfnToPhys (pfn : Nat) :
    (UInt32.ofNat (pfnToPhys pfn)).toNat = pfnToPhys pfn := by
  have hlt : pfnToPhys pfn < 2 ^ 32 := Nat.mod_lt _ (by decide)
  rw [UInt32.toNat_ofNat']
  exact Nat.mod_eq_of_lt hlt

theorem selectZone_pfnToPhys {id : ZoneId} {pfn : Nat}
    (hpfn : pfn ∈ zonePages id) (hsize : pfn < pageArraySize) :
    selectZone (UInt32.ofNat (pfnToPhys pfn)) = id := by
  unfold zonePages at hpfn
  rw [Set.mem_Ico] at hpfn
  rw [Pmm.selectZone_eq, toNat_pfnToPhys, physToPfn_pfnToPhys hsize]
  cases id <;> simp only [zoneBase, Pmm.zoneEnd] at hpfn
  · rw [if_pos hpfn.right]
  · rw [if_neg (by omega), if_pos hpfn.right]
  · rw [if_neg (by omega), if_neg (by omega)]

/-!
# The invariant of the three zones along a run
-/

/--
Each zone is well formed, owns pages between its limits only, and the blocks in
`out` are the ones that callers hold or that were lost to a failed request.
-/
structure ZonesInv (owned : ZoneId -> Set Nat)
    (lists : ZoneId -> Nat -> List Nat) (out : ZoneId -> Set Block)
    (s : Pmm) : Prop where
  zone : forall id,
    ZoneInv s.totalPageFrames (owned id) (lists id) (out id) (s.zoned id)
  within : forall id, owned id ⊆ zonePages id
  unowned : forall x, x < pageArraySize -> (forall id, x ∉ owned id) ->
    (s.pages.page x).isFree = false
  handedOut : forall id b, b ∈ out id ->
    (s.pages.page b.start).isFree = false
  limits : forall id, (s.zoned id).limits = (zoneBase id, Pmm.zoneEnd id)

theorem Pmm.zoned_put_self (s : Pmm) (id : ZoneId) (z : Zoned) :
    (s.put id z).zoned id = z := by
  unfold Pmm.put Pmm.zoned
  simp only [Function.update_self]

theorem Pmm.zones_put_of_ne (s : Pmm) {id id' : ZoneId} (hid : id' ≠ id)
    (z : Zoned) : (s.put id z).zones id' = s.zones id' :=
  Function.update_of_ne hid _ _

namespace ZonesInv

variable {owned : ZoneId -> Set Nat} {lists : ZoneId -> Nat -> List Nat}
  {out : ZoneId -> Set Block} {s : Pmm}

theorem owned_apart (h : ZonesInv owned lists out s) {id id' : ZoneId}
    (hid : id ≠ id') : Disjoint (owned id) (owned id') :=
  (zonePages_disjoint hid).mono (h.within id) (h.within id')

theorem out_owned (h : ZonesInv owned lists out s) {id : ZoneId} {b : Block}
    (hb : b ∈ out id) : b.units ⊆ owned id :=
  (h.zone id).tiles.units_subset (Or.inr hb)

theorem quietIn (h : ZonesInv owned lists out s) {id : ZoneId}
    (hid : id ≠ ZoneId.highmem) :
    QuietIn (zonePages id) (owned id) (out id) (s.zoned id) where
  outside := by
    intro x hin hx
    apply h.unowned x (zonePages_lt hid hin)
    intro id' hmem
    by_cases hid : id' = id
    · rw [hid] at hmem
      exact hx hmem
    · exact Set.disjoint_left.mp (zonePages_disjoint hid)
        (h.within id' hmem) hin
  handedOut := h.handedOut id

/-- A function that works on one zone keeps the invariant of all three. -/
theorem put (h : ZonesInv owned lists out s) (id : ZoneId)
    {lists' : Nat -> List Nat} {out' : Set Block} {z : Zoned}
    (hzone : ZoneInv s.totalPageFrames (owned id) lists' out' z)
    (hpage : forall x, x ∉ owned id -> z.page x = (s.zoned id).page x)
    (hhanded : forall b, b ∈ out' -> (z.page b.start).isFree = false)
    (hlimits : z.limits = (s.zoned id).limits) :
    ZonesInv owned (Function.update lists id lists')
      (Function.update out id out') (s.put id z) where
  zone := by
    intro id'
    by_cases hid : id' = id
    · rw [hid, Function.update_self, Function.update_self,
        Pmm.zoned_put_self]
      exact hzone
    · rw [Function.update_of_ne hid, Function.update_of_ne hid]
      have hother := s.zones_put_of_ne hid z
      apply (h.zone id').frame (Nat.le_refl _)
      · exact congrArg BuddyZone.freeList hother
      · exact congrArg BuddyZone.freeCount hother
      · exact congrArg BuddyZone.freePages hother
      · intro x hx
        exact hpage x (Set.disjoint_left.mp (h.owned_apart hid) hx)
  within := h.within
  unowned := by
    intro x hsize hx
    have hold := h.unowned x hsize hx
    have hsame : z.pages.page x = s.pages.page x := hpage x (hx id)
    show (z.pages.page x).isFree = false
    rwa [hsame]
  handedOut := by
    intro id' b hb
    by_cases hid : id' = id
    · rw [hid, Function.update_self] at hb
      exact hhanded b hb
    · rw [Function.update_of_ne hid] at hb
      have hout : b.start ∉ owned id :=
        Set.disjoint_left.mp (h.owned_apart hid)
          (h.out_owned hb b.start_mem_units)
      have hsame : z.pages.page b.start = s.pages.page b.start :=
        hpage b.start hout
      show (z.pages.page b.start).isFree = false
      rw [hsame]
      exact h.handedOut id' b hb
  limits := by
    intro id'
    by_cases hid : id' = id
    · rw [hid, Pmm.zoned_put_self, hlimits]
      exact h.limits id
    · rw [← h.limits id']
      unfold Zoned.limits Pmm.zoned
      rw [s.zones_put_of_ne hid]

/-- `buddy_alloc` of one zone finds nothing, or a block of that zone. -/
theorem alloc (h : ZonesInv owned lists out s) (id : ZoneId) (order : Nat) :
    buddyAlloc s.totalPageFrames (s.zoned id) order = (0, s.zoned id) ∨
      exists p lists',
        (buddyAlloc s.totalPageFrames (s.zoned id) order).1 = pfnToPhys p ∧
        ({ start := p, order := order } : Block) ∉ out id ∧
        ZonesInv owned (Function.update lists id lists')
          (Function.update out id
            (insert { start := p, order := order } (out id)))
          (s.put id (buddyAlloc s.totalPageFrames (s.zoned id) order).2) := by
  rcases (h.zone id).alloc order with ⟨hnone, _⟩ |
    ⟨p, found, lists', hphys, halloc⟩
  · exact Or.inl hnone
  · refine Or.inr ⟨p, lists', hphys, halloc.fresh, ?_⟩
    apply h.put id halloc.inv
    · intro x hx
      exact (h.zone id).alloc_page order hx
    · intro b hb
      rcases hb with hb | hb
      · rw [hb]
        exact halloc.cleared
      · have hframe : b.start ∉
            Block.units { start := p, order := found } := by
          intro hmem
          have heq := (h.zone id).tiles.disjoint _ b (Or.inl halloc.listed)
            (Or.inr hb) b.start hmem b.start_mem_units
          have hlisted := halloc.listed
          rw [heq] at hlisted
          exact Set.disjoint_left.mp (h.zone id).apart hlisted hb
        exact (halloc.frame b.start hframe).trans (h.handedOut id b hb)
    · exact buddyAlloc_limits _ _ _

/-- `buddy_free` of a block of one zone puts it into a block of that zone. -/
theorem free (h : ZonesInv owned lists out s) {id : ZoneId}
    (hid : id ≠ ZoneId.highmem) {b : Block} (hb : b ∈ out id) :
    exists lists' m, m ∈ onLists lists' ∧ b.units ⊆ m.units ∧
      ZonesInv owned (Function.update lists id lists')
        (Function.update out id (out id \ {b}))
        (s.put id (buddyFree s.totalPageFrames (s.zoned id)
          (pfnToPhys b.start) b.order)) := by
  have hclosed := zonePages_buddyClosed hid (h.within id)
  rcases (h.zone id).freeIn hb hclosed (h.quietIn hid) with
    ⟨lists', m, hfreed⟩
  refine ⟨lists', m, hfreed.listed, hfreed.contains, ?_⟩
  apply h.put id hfreed.inv
  · intro x hx
    exact (h.zone id).free_page hb hclosed (h.quietIn hid) hx
  · intro c hc
    by_contra hfree
    rw [Bool.not_eq_false] at hfree
    have hne : c.start ≠ m.start := by
      intro heq
      have hcm := hfreed.inv.tiles.eq_of_start (Or.inr hc)
        (Or.inl hfreed.listed) heq
      rw [hcm] at hc
      exact Set.disjoint_left.mp hfreed.inv.apart hfreed.listed hc
    have hold := hfreed.frame c.start hne hfree
    have hclear := h.handedOut id c hc.left
    have hsame : ((s.zoned id).page c.start).isFree = false := hclear
    rw [hsame] at hold
    cases hold
  · exact buddyFree_limits _ _ _ _

end ZonesInv

/-!
# Requests and returns
-/

/-- The zone from whose lists `pmm_alloc_pages` takes a block. -/
def Pmm.sourceZone (s : Pmm) (order : Nat) : ZoneId :=
  if (buddyAlloc s.totalPageFrames (s.zoned ZoneId.normal) order).1 = 0 then
    ZoneId.dma
  else
    ZoneId.normal

theorem Pmm.sourceZone_ne_highmem (s : Pmm) (order : Nat) :
    s.sourceZone order ≠ ZoneId.highmem := by
  unfold sourceZone
  split <;> decide

/-- The end of a block as an address, where the zone has a mapping. -/
theorem block_below_normalLimit {id : ZoneId} (hid : id ≠ ZoneId.highmem)
    {b : Block} (hb : b.units ⊆ zonePages id) :
    pfnToPhys b.start + 2 ^ b.order * 4096 ≤ normalLimit.toNat := by
  have hpos : 0 < 2 ^ b.order := Nat.two_pow_pos _
  have hlast : b.start + 2 ^ b.order - 1 ∈ zonePages id := by
    apply hb
    rw [Block.mem_units]
    omega
  have hend : b.start + 2 ^ b.order ≤ 229376 := by
    unfold zonePages at hlast
    rw [Set.mem_Ico] at hlast
    cases id with
    | dma =>
        simp only [zoneBase, Pmm.zoneEnd] at hlast
        omega
    | normal =>
        simp only [zoneBase, Pmm.zoneEnd] at hlast
        omega
    | highmem => exact absurd rfl hid
  have hlimit : normalLimit.toNat = 229376 * 4096 := rfl
  rw [pfnToPhys_eq (by omega), hlimit, ← Nat.add_mul]
  exact Nat.mul_le_mul_right _ hend

namespace ZonesInv

variable {owned : ZoneId -> Set Nat} {lists : ZoneId -> Nat -> List Nat}
  {out : ZoneId -> Set Block} {s : Pmm}

theorem owned_lt (h : ZonesInv owned lists out s) {id : ZoneId} {x : Nat}
    (hx : x ∈ owned id) : x < pageArraySize :=
  ((h.zone id).valid x hx).right

theorem allocPages_eq (h : ZonesInv owned lists out s)
    (hready : s.ready = true) (order : Nat) :
    s.pmmAllocPages order =
      ((buddyAlloc s.totalPageFrames (s.zoned (s.sourceZone order)) order).1,
        s.put (s.sourceZone order) (buddyAlloc s.totalPageFrames
          (s.zoned (s.sourceZone order)) order).2) := by
  unfold Pmm.pmmAllocPages Pmm.sourceZone
  rw [if_neg (by rw [hready]; decide)]
  by_cases hnormal :
      (buddyAlloc s.totalPageFrames (s.zoned ZoneId.normal) order).1 = 0
  · rcases h.alloc ZoneId.normal order with hnone |
      ⟨p, lists', hphys, _, hinv⟩
    · simp only [hnone, Pmm.put_zoned, if_pos]
    · have hp : p ∈ owned ZoneId.normal :=
        hinv.out_owned (by
          rw [Function.update_self]
          exact Set.mem_insert _ _) (Block.start_mem_units _)
      have hlow : 4096 ≤ p := (h.within ZoneId.normal hp).left
      rw [hphys] at hnormal
      exact absurd hnormal
        (pfnToPhys_ne_zero (Nat.lt_of_lt_of_le (by decide) hlow)
          (h.owned_lt hp))
  · simp only [if_neg hnormal]

theorem allocPages (h : ZonesInv owned lists out s)
    (hready : s.ready = true) (order : Nat) :
    exists lists' out', ZonesInv owned lists' out' (s.pmmAllocPages order).2 ∧
      (forall id, out id ⊆ out' id) ∧
      ((s.pmmAllocPages order).1 ≠ 0 -> exists b : Block,
        b.order = order ∧ (s.pmmAllocPages order).1 = pfnToPhys b.start ∧
        b ∉ out (s.sourceZone order) ∧ b ∈ out' (s.sourceZone order)) := by
  rw [h.allocPages_eq hready]
  rcases h.alloc (s.sourceZone order) order with hnone |
    ⟨p, lists', hphys, hfresh, hinv⟩
  · rw [hnone]
    simp only [Pmm.put_zoned]
    exact ⟨lists, out, h, fun _ _ hb => hb, fun hne => absurd rfl hne⟩
  · refine ⟨_, _, hinv, ?_, ?_⟩
    · intro id b hb
      rw [Function.update_apply]
      split
      · rename_i hid
        rw [hid] at hb
        exact Set.mem_insert_of_mem _ hb
      · exact hb
    · intro _
      refine ⟨{ start := p, order := order }, rfl, hphys, hfresh, ?_⟩
      rw [Function.update_self]
      exact Set.mem_insert _ _

theorem out_selectZone (h : ZonesInv owned lists out s) {id : ZoneId}
    {b : Block} (hb : b ∈ out id) :
    selectZone (UInt32.ofNat (pfnToPhys b.start)) = id := by
  have hown := h.out_owned hb b.start_mem_units
  exact selectZone_pfnToPhys (h.within id hown) (h.owned_lt hown)

theorem freePages_eq (h : ZonesInv owned lists out s)
    (hready : s.ready = true) {id : ZoneId} {b : Block} (hb : b ∈ out id)
    (hne : pfnToPhys b.start ≠ 0) :
    s.pmmFreePages (UInt32.ofNat (pfnToPhys b.start)) b.order =
      s.put id (buddyFree s.totalPageFrames (s.zoned id)
        (pfnToPhys b.start) b.order) := by
  have hphys := toNat_pfnToPhys b.start
  have hnz : UInt32.ofNat (pfnToPhys b.start) ≠ 0 := by
    intro hz
    rw [hz] at hphys
    exact hne hphys.symm
  unfold Pmm.pmmFreePages
  rw [if_neg (by rw [hready]; simp [hnz])]
  simp only [h.out_selectZone hb, hphys]

end ZonesInv

/-!
# Filling the three zones
-/

namespace Pmm

def unfilled (page : Nat -> Page) (totalPageFrames : Nat) : Pmm :=
  { boot.initZones with
      pages := { page := page, outside := false }
      totalPageFrames := totalPageFrames
      ready := true }

theorem freeRanges_ready (s : Pmm) (ranges : List (ZoneId × Nat × Nat)) :
    (s.freeRanges ranges).ready = s.ready := by
  induction ranges generalizing s with
  | nil => rfl
  | cons r ranges ih => exact ih (s.freeRange r.1 r.2.1 r.2.2)

theorem freeRanges_limits (s : Pmm) (ranges : List (ZoneId × Nat × Nat))
    (id : ZoneId) :
    ((s.freeRanges ranges).zoned id).limits = (s.zoned id).limits := by
  induction ranges generalizing s with
  | nil => rfl
  | cons r ranges ih =>
      rw [freeRanges_cons, ih]
      by_cases hid : id = r.1
      · rw [hid]
        unfold freeRange
        rw [zoned_put_self]
        exact buddyFreeRange_limits _ _ _
      · unfold Zoned.limits zoned
        rw [zones_freeRange, if_neg hid]

theorem freeRanges_isFree (s : Pmm) {ranges : List (ZoneId × Nat × Nat)}
    {x : Nat} (hx : forall r, r ∈ ranges -> x ∉ Set.Ico r.2.1 r.2.2) :
    ((s.freeRanges ranges).pages.page x).isFree =
      (s.pages.page x).isFree := by
  induction ranges generalizing s with
  | nil => rfl
  | cons r ranges ih =>
      rw [freeRanges_cons,
        ih _ (fun t ht => hx t (List.mem_cons_of_mem r ht))]
      exact buddyFreeRange_isFree r.2.1 (hx r List.mem_cons_self)

end Pmm

/--
Disjoint ranges, each inside its zone, and nothing marked free outside them.
Inside the ranges the descriptors may hold anything.
-/
structure Placed (page : Nat -> Page) (totalPageFrames : Nat)
    (ranges : List (ZoneId × Nat × Nat)) : Prop where
  disjoint : ranges.Pairwise fun r t =>
    Disjoint (Set.Ico r.2.1 r.2.2) (Set.Ico t.2.1 t.2.2)
  within : forall r, r ∈ ranges -> Set.Ico r.2.1 r.2.2 ⊆ zonePages r.1
  valid : forall r, r ∈ ranges -> forall x, x ∈ Set.Ico r.2.1 r.2.2 ->
    x < totalPageFrames ∧ x < pageArraySize
  unmarked : forall x, x < pageArraySize ->
    (forall r, r ∈ ranges -> x ∉ Set.Ico r.2.1 r.2.2) ->
      (page x).isFree = false

theorem Placed.inv {page : Nat -> Page} {totalPageFrames : Nat}
    {ranges : List (ZoneId × Nat × Nat)}
    (h : Placed page totalPageFrames ranges) :
    exists lists, ZonesInv (ownedIn ranges) lists (fun _ => ∅)
      ((Pmm.unfilled page totalPageFrames).freeRanges ranges) := by
  have hempty : PmmInv (fun _ => ∅) (fun _ _ => [])
      (Pmm.unfilled page totalPageFrames) :=
    PmmInv.unfilled (fun id => by cases id <;> rfl)
      (fun id => by cases id <;> rfl) (fun id => by cases id <;> rfl) rfl
      (fun id => Pmm.initZones_bounded Pmm.boot id)
  have hfresh : forall r, r ∈ ranges -> Fresh (fun _ => ∅)
      (Pmm.unfilled page totalPageFrames).totalPageFrames r.2.1 r.2.2 :=
    fun r hr x hx => ⟨fun _ => Set.notMem_empty x, h.valid r hr x hx⟩
  rcases hempty.freeRangesIn h.disjoint hfresh with ⟨lists, hinv⟩
  simp only [Set.empty_union] at hinv
  refine ⟨lists, ?_⟩
  exact {
    zone := hinv.zone
    within := by
      intro id x hx
      rcases hx with ⟨r, hr, hid, hx⟩
      rw [← hid]
      exact h.within r hr hx
    unowned := by
      intro x hsize hx
      have hout : forall r, r ∈ ranges -> x ∉ Set.Ico r.2.1 r.2.2 :=
        fun r hr hmem => hx r.1 ⟨r, hr, rfl, hmem⟩
      rw [Pmm.freeRanges_isFree _ hout]
      exact h.unmarked x hsize hout
    handedOut := fun _ b hb => absurd hb (Set.notMem_empty b)
    limits := by
      intro id
      rw [Pmm.freeRanges_limits]
      cases id <;> rfl }

/-!
# Runs
-/

/-- A block that a caller holds, with the zone it was taken from. -/
structure Held where
  phys : Nat
  order : Nat
  zone : ZoneId
deriving DecidableEq

def Held.block (b : Held) : Block :=
  { start := physToPfn b.phys, order := b.order }

structure ZonedState where
  pmm : Pmm
  live : List Held

inductive ZonedOp where
  | alloc (order : Nat)
  | free (b : Held)

namespace ZonedState

def exec (s : ZonedState) : ZonedOp -> ZonedState
  | ZonedOp.alloc order =>
      let result := s.pmm.pmmAllocPages order
      { pmm := result.2
        live :=
          if result.1 = 0 then s.live
          else
            { phys := result.1, order := order
              zone := s.pmm.sourceZone order } :: s.live }
  | ZonedOp.free b =>
      { pmm := s.pmm.pmmFreePages (UInt32.ofNat b.phys) b.order
        live := s.live.erase b }

/-- Callers free only what they hold, with its own order. -/
def Valid (s : ZonedState) : ZonedOp -> Prop
  | ZonedOp.alloc _ => True
  | ZonedOp.free b => b ∈ s.live

def start (page : Nat -> Page) (totalPageFrames : Nat)
    (ranges : List (ZoneId × Nat × Nat)) : ZonedState :=
  { pmm := (Pmm.unfilled page totalPageFrames).freeRanges ranges, live := [] }

end ZonedState

/-- What holds along a run, with the lists and the blocks that are out. -/
structure ZonedInv (owned : ZoneId -> Set Nat)
    (lists : ZoneId -> Nat -> List Nat) (out : ZoneId -> Set Block)
    (s : ZonedState) : Prop where
  zones : ZonesInv owned lists out s.pmm
  ready : s.pmm.ready = true
  held : forall b, b ∈ s.live -> b.block ∈ out b.zone
  phys : forall b, b ∈ s.live -> b.phys = pfnToPhys b.block.start
  nonzero : forall b, b ∈ s.live -> b.phys ≠ 0
  mapped : forall b, b ∈ s.live -> b.zone ≠ ZoneId.highmem
  nodup : s.live.Nodup

namespace ZonedInv

variable {owned : ZoneId -> Set Nat} {lists : ZoneId -> Nat -> List Nat}
  {out : ZoneId -> Set Block} {s : ZonedState}

theorem alloc (h : ZonedInv owned lists out s) (order : Nat) :
    exists lists' out',
      ZonedInv owned lists' out' (s.exec (ZonedOp.alloc order)) := by
  rcases h.zones.allocPages h.ready order with
    ⟨lists', out', hinv, hkeep, hnew⟩
  refine ⟨lists', out', ?_⟩
  have hready : (s.exec (ZonedOp.alloc order)).pmm.ready = true := by
    show (s.pmm.pmmAllocPages order).2.ready = true
    rw [h.zones.allocPages_eq h.ready]
    exact h.ready
  by_cases hzero : (s.pmm.pmmAllocPages order).1 = 0
  · have hlive : (s.exec (ZonedOp.alloc order)).live = s.live := if_pos hzero
    refine ⟨hinv, hready, ?_, ?_, ?_, ?_, ?_⟩ <;> rw [hlive]
    · exact fun b hb => hkeep b.zone (h.held b hb)
    · exact h.phys
    · exact h.nonzero
    · exact h.mapped
    · exact h.nodup
  · let new : Held :=
      { phys := (s.pmm.pmmAllocPages order).1, order := order
        zone := s.pmm.sourceZone order }
    have hlive : (s.exec (ZonedOp.alloc order)).live = new :: s.live :=
      if_neg hzero
    rcases hnew hzero with ⟨b, horder, hphys, hfresh, hout⟩
    have hsize := hinv.owned_lt (hinv.out_owned hout b.start_mem_units)
    have hblock : new.block = b := by
      show Block.mk (physToPfn (s.pmm.pmmAllocPages order).1) order = b
      rw [hphys, physToPfn_pfnToPhys hsize, ← horder]
    refine ⟨hinv, hready, ?_, ?_, ?_, ?_, ?_⟩ <;> rw [hlive]
    · refine List.forall_mem_cons.mpr ⟨?_, ?_⟩
      · rw [hblock]
        exact hout
      · exact fun c hc => hkeep c.zone (h.held c hc)
    · refine List.forall_mem_cons.mpr ⟨?_, h.phys⟩
      rw [hblock]
      exact hphys
    · exact List.forall_mem_cons.mpr ⟨hzero, h.nonzero⟩
    · exact List.forall_mem_cons.mpr
        ⟨s.pmm.sourceZone_ne_highmem order, h.mapped⟩
    · refine List.nodup_cons.mpr ⟨?_, h.nodup⟩
      intro hmem
      apply hfresh
      rw [← hblock]
      exact h.held new hmem

theorem free_eq (h : ZonedInv owned lists out s) {b : Held}
    (hb : b ∈ s.live) :
    (s.exec (ZonedOp.free b)).pmm =
      s.pmm.put b.zone (buddyFree s.pmm.totalPageFrames
        (s.pmm.zoned b.zone) (pfnToPhys b.block.start) b.block.order) := by
  have hphys := h.phys b hb
  have hne : pfnToPhys b.block.start ≠ 0 := by
    rw [← hphys]
    exact h.nonzero b hb
  show s.pmm.pmmFreePages (UInt32.ofNat b.phys) b.block.order = _
  rw [← h.zones.freePages_eq h.ready (h.held b hb) hne, ← hphys]

theorem free (h : ZonedInv owned lists out s) {b : Held} (hb : b ∈ s.live) :
    exists lists' out' m, m ∈ onLists (lists' b.zone) ∧
      b.block.units ⊆ m.units ∧
      ZonedInv owned lists' out' (s.exec (ZonedOp.free b)) := by
  rcases h.zones.free (h.mapped b hb) (h.held b hb) with
    ⟨l, m, hlisted, hcontains, hinv⟩
  refine ⟨Function.update lists b.zone l,
    Function.update out b.zone (out b.zone \ {b.block}), m, ?_, hcontains, ?_⟩
  · rw [Function.update_self]
    exact hlisted
  · have hsub : forall c, c ∈ s.live.erase b -> c ∈ s.live :=
      fun c hc => List.mem_of_mem_erase hc
    have heq := h.free_eq hb
    refine ⟨?_, ?_, ?_, fun c hc => h.phys c (hsub c hc),
      fun c hc => h.nonzero c (hsub c hc),
      fun c hc => h.mapped c (hsub c hc), h.nodup.erase b⟩
    · rw [heq]
      exact hinv
    · rw [heq]
      exact h.ready
    · intro c hc
      have hold := h.held c (hsub c hc)
      rw [Function.update_apply]
      split
      · rename_i hzone
        rw [hzone] at hold
        refine ⟨hold, ?_⟩
        intro hsame
        have hblock : c.block = b.block := hsame
        -- Two held blocks with one start have one address.
        have hphys : c.phys = b.phys := by
          rw [h.phys c (hsub c hc), h.phys b hb, hblock]
        have horder : c.order = b.order := congrArg Block.order hblock
        have hcb : c = b := by
          cases c
          cases b
          simp_all
        rw [hcb] at hc
        exact (h.nodup.mem_erase_iff.mp hc).left rfl
      · exact hold

theorem step (h : exists lists out, ZonedInv owned lists out s)
    (o : ZonedOp) (hvalid : s.Valid o) :
    exists lists out, ZonedInv owned lists out (s.exec o) := by
  rcases h with ⟨lists, out, h⟩
  cases o with
  | alloc order => exact h.alloc order
  | free b =>
      rcases h.free hvalid with ⟨lists', out', _, _, _, hinv⟩
      exact ⟨lists', out', hinv⟩

end ZonedInv

/-!
# Separation
-/

/-- `lists` are the free lists, and each block on them lies inside its zone. -/
structure ListedInside (lists : ZoneId -> Nat -> List Nat) (s : Pmm) :
    Prop where
  linked : forall id k, k ≤ pmmMaxOrder ->
    DList (s.zoned id).next (s.zoned id).prev ((s.zones id).freeList k)
      (lists id k)
  inside : forall id b, b ∈ onLists (lists id) ->
    b.units ⊆ Set.Ico (s.zones id).basePfn (s.zones id).endPfn

/-- A block was taken from the zone that its address leads back to. -/
structure FromZone (s s' : Pmm) (phys order : Nat) (id : ZoneId) : Prop where
  others : forall id', id' ≠ id -> s'.zones id' = s.zones id'
  selected : selectZone (UInt32.ofNat phys) = id
  below : phys + 2 ^ order * 4096 ≤ normalLimit.toNat

structure Separated (s : ZonedState) : Prop where
  listed : exists lists, ListedInside lists s.pmm
  returned : forall order, (s.pmm.pmmAllocPages order).1 ≠ 0 ->
    FromZone s.pmm (s.pmm.pmmAllocPages order).2
      (s.pmm.pmmAllocPages order).1 order (s.pmm.sourceZone order)
  putBack : forall b, b ∈ s.live ->
    FromZone s.pmm (s.exec (ZonedOp.free b)).pmm b.phys b.order b.zone ∧
      exists lists m, ListedInside lists (s.exec (ZonedOp.free b)).pmm ∧
        m ∈ onLists (lists b.zone) ∧ b.block.units ⊆ m.units

theorem ZonesInv.listedInside {owned : ZoneId -> Set Nat}
    {lists : ZoneId -> Nat -> List Nat} {out : ZoneId -> Set Block} {s : Pmm}
    (h : ZonesInv owned lists out s) : ListedInside lists s where
  linked := fun id => (h.zone id).linked
  inside := by
    intro id b hb
    have hlimits := h.limits id
    unfold Zoned.limits at hlimits
    have hown := (h.zone id).tiles.units_subset (Or.inl hb)
    show b.units ⊆
      Set.Ico (s.zoned id).zone.basePfn (s.zoned id).zone.endPfn
    rw [(Prod.mk.inj hlimits).left, (Prod.mk.inj hlimits).right]
    exact hown.trans (h.within id)

theorem ZonesInv.out_below {owned : ZoneId -> Set Nat}
    {lists : ZoneId -> Nat -> List Nat} {out : ZoneId -> Set Block} {s : Pmm}
    (h : ZonesInv owned lists out s) {id : ZoneId}
    (hid : id ≠ ZoneId.highmem) {b : Block} (hb : b ∈ out id) :
    pfnToPhys b.start + 2 ^ b.order * 4096 ≤ normalLimit.toNat :=
  block_below_normalLimit hid ((h.out_owned hb).trans (h.within id))

theorem ZonedInv.separated {owned : ZoneId -> Set Nat}
    {lists : ZoneId -> Nat -> List Nat} {out : ZoneId -> Set Block}
    {s : ZonedState} (h : ZonedInv owned lists out s) : Separated s where
  listed := ⟨lists, h.zones.listedInside⟩
  returned := by
    intro order hne
    rcases h.zones.allocPages h.ready order with
      ⟨lists', out', hinv, _, hnew⟩
    rcases hnew hne with ⟨b, horder, hphys, _, hout⟩
    constructor
    · intro id' hid
      rw [h.zones.allocPages_eq h.ready]
      exact s.pmm.zones_put_of_ne hid _
    · rw [hphys]
      exact hinv.out_selectZone hout
    · rw [hphys, ← horder]
      exact hinv.out_below (s.pmm.sourceZone_ne_highmem order) hout
  putBack := by
    intro b hb
    constructor
    · constructor
      · intro id' hid
        rw [h.free_eq hb]
        exact s.pmm.zones_put_of_ne hid _
      · rw [h.phys b hb]
        exact h.zones.out_selectZone (h.held b hb)
      · rw [h.phys b hb]
        exact h.zones.out_below (h.mapped b hb) (h.held b hb)
    · rcases h.free hb with ⟨lists', out', m, hlisted, hcontains, hinv⟩
      exact ⟨lists', m, hinv.zones.listedInside, hlisted, hcontains⟩

/-- In every reachable state the zones keep their blocks apart. -/
theorem zones_separated {page : Nat -> Page} {totalPageFrames : Nat}
    {ranges : List (ZoneId × Nat × Nat)} {s : ZonedState}
    (hplaced : Placed page totalPageFrames ranges)
    (hreach : Reachable ZonedState.exec ZonedState.Valid
      (ZonedState.start page totalPageFrames ranges) s) : Separated s := by
  have hinv : exists lists out, ZonedInv (ownedIn ranges) lists out s := by
    apply hreach.invariant
    · rcases hplaced.inv with ⟨lists, hinv⟩
      refine ⟨lists, fun _ => ∅, ?_⟩
      exact {
        zones := hinv
        ready := Pmm.freeRanges_ready _ _
        held := List.forall_mem_nil _
        phys := List.forall_mem_nil _
        nonzero := List.forall_mem_nil _
        mapped := List.forall_mem_nil _
        nodup := List.nodup_nil }
    · intro s o h hvalid
      exact ZonedInv.step h o hvalid
  rcases hinv with ⟨lists, out, hinv⟩
  exact hinv.separated

/-- Descriptors that all carry a free mark of order 0 below page 4100. -/
def stalePage (pfn : Nat) : Page :=
  { flags := if pfn < 4100 then pageFlagFree else 0
    refCount := 0
    order := 0
    next := none
    prev := none }

theorem stalePage_placed : Placed stalePage 4100
    [(ZoneId.dma, 0, 4096), (ZoneId.normal, 4096, 4100)] where
  disjoint := by
    rw [List.pairwise_pair, Set.disjoint_left]
    intro x hx hx'
    rw [Set.mem_Ico] at hx hx'
    simp only at hx hx'
    omega
  within := by
    intro r hr x hx
    rw [Set.mem_Ico] at hx
    rcases List.mem_cons.mp hr with hr | hr
    · rw [hr] at hx ⊢
      exact hx
    · rw [List.mem_singleton.mp hr] at hx ⊢
      exact ⟨hx.left, Nat.lt_of_lt_of_le hx.right (by decide)⟩
  valid := by
    intro r hr x hx
    rw [Set.mem_Ico] at hx
    unfold pageArraySize
    rcases List.mem_cons.mp hr with hr | hr
    · rw [hr] at hx
      simp only at hx
      omega
    · rw [List.mem_singleton.mp hr] at hx
      simp only at hx
      omega
  unmarked := by
    intro x _ hx
    have hlow := hx (ZoneId.dma, 0, 4096) (by simp)
    have hhigh := hx (ZoneId.normal, 4096, 4100) (by simp)
    rw [Set.mem_Ico] at hlow hhigh
    simp only at hlow hhigh
    unfold stalePage
    rw [if_neg (by omega)]
    rfl

theorem zones_separated_stalePage : Separated
    ((ZonedState.start stalePage 4100
      [(ZoneId.dma, 0, 4096), (ZoneId.normal, 4096, 4100)]).exec
        (ZonedOp.alloc 2)) :=
  zones_separated stalePage_placed ⟨[ZonedOp.alloc 2], ⟨trivial, trivial⟩, rfl⟩

end Mm
end EarlnuxOS
