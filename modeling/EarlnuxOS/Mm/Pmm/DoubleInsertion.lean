import EarlnuxOS.Mm.Pmm.ZoneFilling

/-!
# Freeing a range twice

A range that is freed twice into one zone leaves a free list that never ends:
in the second round the first block of an order is linked to the last one, and
that one is pushed again on top.  No later range can repair the list, because
freeing disjoint pages only adds blocks in front of the cycle.
-/

namespace EarlnuxOS
namespace Mm

open Foundation

/-!
# Which links a range writes
-/

theorem buddyFreeRange_next {z : Zoned} {endPfn x : Nat} (pfn : Nat)
    (hx : x ∉ Set.Ico pfn endPfn) :
    (buddyFreeRange z pfn endPfn).next x = z.next x := by
  induction pfn using range_induction endPfn generalizing z with
  | done pfn h => rw [buddyFreeRange_of_le z h]
  | step pfn h ih =>
      have hne : x ≠ pfn := by
        intro heq
        exact hx ⟨Nat.le_of_eq heq.symm, heq ▸ h⟩
      have hrest : x ∉ Set.Ico
          (pfn + 2 ^ rangeOrder pfn endPfn pmmMaxOrder) endPfn := by
        intro hmem
        exact hx ⟨Nat.le_of_add_right_le hmem.left, hmem.right⟩
      rw [buddyFreeRange_of_lt z h, ih hrest, Zoned.pushFree_next, if_neg hne]

/-- The head of a list is the last block of its order in the range, if any. -/
theorem buddyFreeRange_head (z : Zoned) (pfn endPfn k : Nat) :
    ((forall b, b ∈ rangeBlocks pfn endPfn -> b.order ≠ k) ∧
        (buddyFreeRange z pfn endPfn).zone.freeList k = z.zone.freeList k) ∨
      exists p, (buddyFreeRange z pfn endPfn).zone.freeList k = some p ∧
        ({ start := p, order := k } : Block) ∈ rangeBlocks pfn endPfn := by
  induction pfn using range_induction endPfn generalizing z with
  | done pfn h =>
      rw [buddyFreeRange_of_le z h, rangeBlocks_of_le h]
      exact Or.inl ⟨fun b hb => absurd hb List.not_mem_nil, rfl⟩
  | step pfn h ih =>
      rw [buddyFreeRange_of_lt z h, rangeBlocks_of_lt h]
      rcases ih (z.pushFree pfn (rangeOrder pfn endPfn pmmMaxOrder)) with
        ⟨hnone, hsame⟩ | ⟨p, hhead, hp⟩
      · rw [hsame, Zoned.pushFree_freeList]
        by_cases hk : k = rangeOrder pfn endPfn pmmMaxOrder
        · refine Or.inr ⟨pfn, if_pos hk, ?_⟩
          rw [hk]
          exact List.mem_cons_self
        · refine Or.inl ⟨?_, if_neg hk⟩
          intro b hb
          rcases List.mem_cons.mp hb with hb | hb
          · rw [hb]
            exact Ne.symm hk
          · exact hnone b hb
      · exact Or.inr ⟨p, hhead, List.mem_cons_of_mem _ hp⟩

/-!
# A list that loops
-/

/--
From the head of a list, the links lead through the pages of `C`, and leave
them for `goal` only.
-/
structure LeadsTo (z : Zoned) (k : Nat) (C : Nat -> Prop) (goal : Nat) :
    Prop where
  head : exists p, z.zone.freeList k = some p ∧ (C p ∨ p = goal)
  next : forall x, C x -> exists y, z.next x = some y ∧ (C y ∨ y = goal)

theorem LeadsTo.push {z : Zoned} {k : Nat} {C : Nat -> Prop} {goal : Nat}
    (h : LeadsTo z k C goal) (pfn : Nat) {order : Nat} (horder : k = order) :
    LeadsTo (z.pushFree pfn order) k (fun x => C x ∨ x = pfn) goal where
  head := by
    refine ⟨pfn, ?_, Or.inl (Or.inr rfl)⟩
    rw [Zoned.pushFree_freeList, if_pos horder]
  next := by
    intro x hx
    rw [Zoned.pushFree_next]
    by_cases hpfn : x = pfn
    · rw [if_pos hpfn, ← horder]
      rcases h.head with ⟨p, hhead, hp | hp⟩
      · exact ⟨p, hhead, Or.inl (Or.inl hp)⟩
      · exact ⟨p, hhead, Or.inr hp⟩
    · rw [if_neg hpfn]
      rcases hx with hx | hx
      · rcases h.next x hx with ⟨y, hnext, hy | hy⟩
        · exact ⟨y, hnext, Or.inl (Or.inl hy)⟩
        · exact ⟨y, hnext, Or.inr hy⟩
      · exact absurd hx hpfn

theorem LeadsTo.push_other {z : Zoned} {k : Nat} {C : Nat -> Prop}
    {goal : Nat} (h : LeadsTo z k C goal) {pfn order : Nat}
    (horder : k ≠ order) (hpfn : ¬ C pfn) :
    LeadsTo (z.pushFree pfn order) k C goal where
  head := by
    rw [Zoned.pushFree_freeList, if_neg horder]
    exact h.head
  next := by
    intro x hx
    have hne : x ≠ pfn := by
      intro heq
      rw [heq] at hx
      exact hpfn hx
    rw [Zoned.pushFree_next, if_neg hne]
    exact h.next x hx

/--
Freeing a range adds its blocks of order `k`.  Pages of the range may already
be in `C` when they are such blocks.
-/
theorem LeadsTo.freeRange {z : Zoned} {k : Nat} {C : Nat -> Prop}
    {goal : Nat} (pfn endPfn : Nat) (h : LeadsTo z k C goal)
    (hC : forall y, y ∈ Set.Ico pfn endPfn -> C y ->
      rangeOrder y endPfn pmmMaxOrder = k) :
    exists C', LeadsTo (buddyFreeRange z pfn endPfn) k C' goal ∧
      (forall x, C x -> C' x) ∧
      (forall x, C' x -> C x ∨ x ∈ Set.Ico pfn endPfn ∧
        rangeOrder x endPfn pmmMaxOrder = k) ∧
      forall p, ({ start := p, order := k } : Block) ∈
        rangeBlocks pfn endPfn -> C' p := by
  induction pfn using range_induction endPfn
    generalizing z C with
  | done pfn hle =>
      rw [buddyFreeRange_of_le z hle, rangeBlocks_of_le hle]
      exact ⟨C, h, fun _ hx => hx, fun _ hx => Or.inl hx,
        fun p hp => absurd hp List.not_mem_nil⟩
  | step pfn hlt ih =>
      have hmem : pfn ∈ Set.Ico pfn endPfn := ⟨Nat.le_refl _, hlt⟩
      have hsub : forall x, x ∈ Set.Ico
          (pfn + 2 ^ rangeOrder pfn endPfn pmmMaxOrder) endPfn ->
          x ∈ Set.Ico pfn endPfn := by
        intro x hx
        exact ⟨Nat.le_of_add_right_le hx.left, hx.right⟩
      rw [buddyFreeRange_of_lt z hlt, rangeBlocks_of_lt hlt]
      by_cases hk : k = rangeOrder pfn endPfn pmmMaxOrder
      · rcases ih (h.push pfn hk) (by
          intro y hy hCy
          rcases hCy with hCy | hCy
          · exact hC y (hsub y hy) hCy
          · rw [hCy]
            exact hk.symm) with ⟨C', hleads, hkeep, hnew, hblocks⟩
        refine ⟨C', hleads, fun x hx => hkeep x (Or.inl hx), ?_, ?_⟩
        · intro x hx
          rcases hnew x hx with (hx | hx) | ⟨hx, horder⟩
          · exact Or.inl hx
          · rw [hx]
            exact Or.inr ⟨hmem, hk.symm⟩
          · exact Or.inr ⟨hsub x hx, horder⟩
        · intro p hp
          rcases List.mem_cons.mp hp with hp | hp
          · exact hkeep p (Or.inr (congrArg Block.start hp))
          · exact hblocks p hp
      · have hpfn : ¬ C pfn := fun hCp => hk (hC pfn hmem hCp).symm
        rcases ih (h.push_other hk hpfn)
          (fun y hy hCy => hC y (hsub y hy) hCy) with
          ⟨C', hleads, hkeep, hnew, hblocks⟩
        refine ⟨C', hleads, hkeep, ?_, ?_⟩
        · intro x hx
          rcases hnew x hx with hx | ⟨hx, horder⟩
          · exact Or.inl hx
          · exact Or.inr ⟨hsub x hx, horder⟩
        · intro p hp
          rcases List.mem_cons.mp hp with hp | hp
          · exact absurd (congrArg Block.order hp) hk
          · exact hblocks p hp

/-- The list of order `k` starts in `C` and never leaves it. -/
structure Cyclic (z : Zoned) (k : Nat) (C : Nat -> Prop) : Prop where
  head : exists p, z.zone.freeList k = some p ∧ C p
  trap : Trap z.next C

theorem LeadsTo.cyclic {z : Zoned} {k : Nat} {C : Nat -> Prop} {goal : Nat}
    (h : LeadsTo z k C goal) (hgoal : C goal) : Cyclic z k C where
  head := by
    rcases h.head with ⟨p, hhead, hp | hp⟩
    · exact ⟨p, hhead, hp⟩
    · rw [hp] at hhead
      exact ⟨goal, hhead, hgoal⟩
  trap := by
    intro x hx
    rcases h.next x hx with ⟨y, hnext, hy | hy⟩
    · exact ⟨y, hnext, hy⟩
    · rw [hy] at hnext
      exact ⟨goal, hnext, hgoal⟩

theorem Cyclic.no_chain {z : Zoned} {k : Nat} {C : Nat -> Prop}
    (h : Cyclic z k C) : ¬ exists l, Chain z.next (z.zone.freeList k) l := by
  intro hchain
  rcases hchain with ⟨l, hl⟩
  rcases h.head with ⟨p, hhead, hp⟩
  rw [hhead] at hl
  exact h.trap.no_chain hp l hl

theorem Cyclic.freeRange {z : Zoned} {k : Nat} {C : Nat -> Prop}
    (pfn endPfn : Nat) (h : Cyclic z k C)
    (hC : forall y, y ∈ Set.Ico pfn endPfn -> C y ->
      rangeOrder y endPfn pmmMaxOrder = k) :
    exists C', Cyclic (buddyFreeRange z pfn endPfn) k C' ∧
      forall x, C' x -> C x ∨ x ∈ Set.Ico pfn endPfn ∧
        rangeOrder x endPfn pmmMaxOrder = k := by
  rcases h.head with ⟨goal, hhead, hgoal⟩
  have hleads : LeadsTo z k C goal := by
    refine ⟨⟨goal, hhead, Or.inr rfl⟩, ?_⟩
    intro x hx
    rcases h.trap x hx with ⟨y, hnext, hy⟩
    exact ⟨y, hnext, Or.inl hy⟩
  rcases hleads.freeRange pfn endPfn hC with ⟨C', hleads', hkeep, hnew, _⟩
  exact ⟨C', hleads'.cyclic (hkeep goal hgoal), hnew⟩

theorem buddyFreeRange_twice (z : Zoned) {a b : Nat} (hab : a < b) :
    exists k C, k ≤ pmmMaxOrder ∧
      Cyclic (buddyFreeRange (buddyFreeRange z a b) a b) k C ∧
      forall x, C x -> x ∈ Set.Ico a b := by
  let k := rangeOrder a b pmmMaxOrder
  have hfirst : ({ start := a, order := k } : Block) ∈ rangeBlocks a b := by
    rw [rangeBlocks_of_lt hab]
    exact List.mem_cons_self
  rcases buddyFreeRange_head z a b k with ⟨hnone, _⟩ |
    ⟨goal, hhead, hgoal⟩
  · exact absurd rfl (hnone _ hfirst)
  · have hleads : LeadsTo (buddyFreeRange z a b) k (fun _ => False) goal :=
      ⟨⟨goal, hhead, Or.inr rfl⟩, fun x hx => hx.elim⟩
    rcases hleads.freeRange a b (fun y _ hy => hy.elim) with
      ⟨C, hleads', _, hnew, hblocks⟩
    refine ⟨k, C, rangeOrder_le a b _, hleads'.cyclic (hblocks goal hgoal), ?_⟩
    intro x hx
    rcases hnew x hx with hx | hx
    · exact hx.elim
    · exact hx.left

/-!
# The rest of the memory map
-/

/-- Some free list of NORMAL is cyclic, within the frames of `D`. -/
def NormalCyclic (s : Pmm) (D : Set Nat) : Prop :=
  exists k C, k ≤ pmmMaxOrder ∧ Cyclic (s.zoned ZoneId.normal) k C ∧
    forall x, C x -> x ∈ D

theorem Cyclic.congr {z z' : Zoned} {k : Nat} {C : Nat -> Prop}
    (h : Cyclic z k C) (hhead : z'.zone.freeList k = z.zone.freeList k)
    (hnext : forall x, C x -> z'.next x = z.next x) : Cyclic z' k C where
  head := by
    rw [hhead]
    exact h.head
  trap := by
    intro x hx
    rw [hnext x hx]
    exact h.trap x hx

theorem zoned_freeRange_self (s : Pmm) (id : ZoneId) (a b : Nat) :
    (s.freeRange id a b).zoned id = buddyFreeRange (s.zoned id) a b := by
  unfold Pmm.zoned
  rw [Pmm.zones_freeRange, if_pos rfl]
  rfl

namespace NormalCyclic

variable {s : Pmm} {D : Set Nat}

theorem marked (h : NormalCyclic s D) {e : MemMapEntry}
    (hD : forall f, f ∈ D -> f < pageArraySize -> ¬ (e.pfnStart ≤ f ∧
      f < e.pfnEnd)) : NormalCyclic (s.marked e.start e.stop) D := by
  rcases h with ⟨k, C, hk, hcyclic, hC⟩
  refine ⟨k, C, hk, hcyclic.congr rfl ?_, hC⟩
  intro x hx
  apply congrArg Page.next
  apply markUsable_page
  intro hmem
  change e.pfnStart ≤ x ∧ x < e.pfnStart +
    (min e.pfnEnd pageArraySize - e.pfnStart) at hmem
  exact hD x (hC x hx) (by omega) (by omega)

theorem addTotal (h : NormalCyclic s D) (id : ZoneId) (pages : Nat) :
    NormalCyclic (s.addTotal id pages) D := by
  rcases h with ⟨k, C, hk, hcyclic, hC⟩
  refine ⟨k, C, hk, hcyclic.congr ?_ (fun _ _ => rfl), hC⟩
  exact congrFun (Pmm.addTotal_freeList s id ZoneId.normal pages) k

/-- Freeing a range outside `D` into another zone leaves the cycle in place. -/
theorem freeRange_other (h : NormalCyclic s D) (id : ZoneId)
    (hid : ZoneId.normal ≠ id) {a b : Nat}
    (hD : forall f, f ∈ D -> f ∉ Set.Ico a b) :
    NormalCyclic (s.freeRange id a b) D := by
  rcases h with ⟨k, C, hk, hcyclic, hC⟩
  refine ⟨k, C, hk, hcyclic.congr ?_ ?_, hC⟩
  · unfold Pmm.zoned
    rw [Pmm.zones_freeRange, if_neg hid]
  · intro x hx
    exact buddyFreeRange_next a (hD x (hC x hx))

theorem freeRange (h : NormalCyclic s D) {a b : Nat}
    (hD : forall f, f ∈ D -> f ∉ Set.Ico a b) :
    NormalCyclic (s.freeRange ZoneId.normal a b) (D ∪ Set.Ico a b) := by
  rcases h with ⟨k, C, hk, hcyclic, hC⟩
  rcases hcyclic.freeRange a b
    (fun y hy hCy => absurd hy (hD y (hC y hCy))) with
    ⟨C', hcyclic', hnew⟩
  refine ⟨k, C', hk, ?_, ?_⟩
  · rw [zoned_freeRange_self]
    exact hcyclic'
  · intro x hx
    rcases hnew x hx with hx | ⟨hx, _⟩
    · exact Or.inl (hC x hx)
    · exact Or.inr hx

/-- Freeing such a range into NORMAL twice does not break the cycle either. -/
theorem freeRange_twice (h : NormalCyclic s D) {a b : Nat}
    (hD : forall f, f ∈ D -> f ∉ Set.Ico a b) :
    NormalCyclic
      ((s.freeRange ZoneId.normal a b).freeRange ZoneId.normal a b)
      (D ∪ Set.Ico a b) := by
  rcases h with ⟨k, C, hk, hcyclic, hC⟩
  rcases hcyclic.freeRange a b
    (fun y hy hCy => absurd hy (hD y (hC y hCy))) with ⟨C1, hcyclic1, hnew1⟩
  rcases hcyclic1.freeRange a b (by
    intro y hy hCy
    rcases hnew1 y hCy with hCy | ⟨_, horder⟩
    · exact absurd hy (hD y (hC y hCy))
    · exact horder) with ⟨C2, hcyclic2, hnew2⟩
  refine ⟨k, C2, hk, ?_, ?_⟩
  · rw [zoned_freeRange_self, zoned_freeRange_self]
    exact hcyclic2
  · intro x hx
    rcases hnew2 x hx with hx | ⟨hx, _⟩
    · rcases hnew1 x hx with hx | ⟨hx, _⟩
      · exact Or.inl (hC x hx)
      · exact Or.inr hx
    · exact Or.inr hx

theorem mono (h : NormalCyclic s D) {D' : Set Nat} (hsub : D ⊆ D') :
    NormalCyclic s D' := by
  rcases h with ⟨k, C, hk, hcyclic, hC⟩
  exact ⟨k, C, hk, hcyclic, fun x hx => hsub (hC x hx)⟩

/-- An entry whose frames are outside `D` leaves the cycle in place. -/
theorem addEntry (h : NormalCyclic s D) (hs : s.Bounded) {e : MemMapEntry}
    (hD : forall f, f ∈ D -> f < 229376 ∧ f ∉ e.pages) :
    NormalCyclic (s.addEntry e)
      (D ∪ {f | f ∈ e.pages ∧ f < 229376}) := by
  by_cases htaken : e.Taken
  · have hout : forall f, f ∈ D -> ¬ (e.pfnStart ≤ f ∧ f < e.pfnEnd) :=
      fun f hf hrange => (hD f hf).right ⟨htaken, hrange⟩
    have hmarked := h.marked (e := e) (fun f hf _ => hout f hf)
    rw [Pmm.addEntry_eq hs htaken]
    apply addTotal
    unfold Pmm.placements
    split
    · rename_i hdma
      have hfirst := hmarked.freeRange_other ZoneId.dma (by decide)
        (a := e.pfnStart) (b := min e.pfnEnd 4096) (by
          intro f hf hmem
          rw [Set.mem_Ico] at hmem
          exact hout f hf (by omega))
      have hsecond := hfirst.freeRange (a := 4096)
        (b := min e.pfnEnd 229376) (by
          intro f hf hmem
          rw [Set.mem_Ico] at hmem
          exact hout f hf (by omega))
      apply hsecond.mono
      intro f hf
      rcases hf with hf | hf
      · exact Or.inl hf
      · rw [Set.mem_Ico] at hf
        exact Or.inr ⟨⟨htaken, by omega⟩, by omega⟩
    · split
      · rename_i hlow hnormal
        have htwice := hmarked.freeRange_twice (a := e.pfnStart)
          (b := min e.pfnEnd 229376) (by
            intro f hf hmem
            rw [Set.mem_Ico] at hmem
            exact hout f hf (by omega))
        apply htwice.mono
        intro f hf
        rcases hf with hf | hf
        · exact Or.inl hf
        · rw [Set.mem_Ico] at hf
          exact Or.inr ⟨⟨htaken, by omega⟩, by omega⟩
      · rename_i hlow hhigh
        have hone := hmarked.freeRange_other ZoneId.highmem
          (by decide) (a := e.pfnStart) (b := e.pfnEnd)
          (fun f hf hmem => hout f hf hmem)
        exact hone.mono Set.subset_union_left
  · rw [Pmm.addEntry_skipped s htaken]
    exact h.mono Set.subset_union_left

theorem addEntries (h : NormalCyclic s D) (hs : s.Bounded)
    {map : List MemMapEntry} (hapart : map.Pairwise PagesApart)
    (hD : forall e, e ∈ map -> forall f, f ∈ D -> f < 229376 ∧ f ∉ e.pages) :
    exists D', NormalCyclic (map.foldl Pmm.addEntry s) D' := by
  induction map generalizing s D with
  | nil => exact ⟨D, h⟩
  | cons e map ih =>
      rw [List.pairwise_cons] at hapart
      have hentry := h.addEntry hs (hD e List.mem_cons_self)
      apply ih hentry (hs.addEntry e) hapart.right
      intro e' he' f hf
      rcases hf with hf | ⟨hf, hlt⟩
      · exact hD e' (List.mem_cons_of_mem e he') f hf
      · refine ⟨hlt, hapart.left e' he' f ?_ hf⟩
        unfold pageArraySize
        omega

theorem of_entry (hs : s.Bounded) {e : MemMapEntry} (htaken : e.Taken)
    (hlow : 4096 ≤ e.pfnStart) (hhigh : e.pfnStart < 229376) :
    NormalCyclic (s.addEntry e) {f | f ∈ e.pages ∧ f < 229376} := by
  have hlt := htaken.pfn_lt
  rcases buddyFreeRange_twice
    ((s.marked e.start e.stop).zoned ZoneId.normal)
    (a := e.pfnStart) (b := min e.pfnEnd 229376) (by omega) with
    ⟨k, C, hk, hcyclic, hC⟩
  rw [Pmm.addEntry_eq hs htaken]
  apply addTotal
  unfold Pmm.placements
  rw [if_neg (by omega), if_pos hhigh]
  refine ⟨k, C, hk, ?_, ?_⟩
  · rw [Pmm.freeRanges_cons, Pmm.freeRanges_cons]
    show Cyclic (((_ : Pmm).freeRange ZoneId.normal _ _).zoned _) k C
    rw [zoned_freeRange_self, zoned_freeRange_self]
    exact hcyclic
  · intro x hx
    have hmem := hC x hx
    rw [Set.mem_Ico] at hmem
    exact ⟨⟨htaken, by omega⟩, by omega⟩

end NormalCyclic

end Mm
end EarlnuxOS
