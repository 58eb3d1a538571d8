import EarlnuxOS.Mm.Pmm.ZoneInvariant

/-!
# Allocating

`buddy_alloc` takes a block of the smallest order at hand and gives back the
right halves of the blocks it cuts it into.
-/

namespace EarlnuxOS
namespace Mm

open Foundation

/-- The right halves left over when the block at `p` is cut from `found` down. -/
def rightHalves (p order found : Nat) : Set Block :=
  {b | exists j, order ≤ j ∧ j < found ∧ b = Block.upper p j}

theorem rightHalves_self (p order : Nat) : rightHalves p order order = ∅ := by
  ext b
  constructor
  · intro h
    rcases h with ⟨j, hle, hlt, _⟩
    exact absurd hle (Nat.not_le_of_lt hlt)
  · intro h
    cases h

theorem rightHalves_succ {p order found : Nat} (h : order ≤ found) :
    rightHalves p order (found + 1) =
      insert (Block.upper p found) (rightHalves p order found) := by
  ext b
  constructor
  · intro hb
    rcases hb with ⟨j, hle, hlt, hj⟩
    by_cases hjf : j = found
    · rw [hjf] at hj
      exact Or.inl hj
    · exact Or.inr ⟨j, hle, by omega, hj⟩
  · intro hb
    rcases hb with hb | hb
    · exact ⟨found, h, Nat.lt_succ_self _, hb⟩
    · rcases hb with ⟨j, hle, hlt, hj⟩
      exact ⟨j, hle, Nat.lt_succ_of_lt hlt, hj⟩

theorem foundOrder_spec (zone : BuddyZone) (order : Nat) :
    order ≤ foundOrder zone order ∧
      (forall k, order ≤ k -> k < foundOrder zone order ->
        zone.freeList k = none) ∧
      (foundOrder zone order ≤ pmmMaxOrder ->
        zone.freeList (foundOrder zone order) ≠ none) := by
  rw [foundOrder]
  split
  · rename_i hcond
    rcases foundOrder_spec zone (order + 1) with ⟨hle, hempty, hfound⟩
    refine ⟨Nat.le_of_succ_le hle, ?_, hfound⟩
    intro k hk hlt
    by_cases heq : k = order
    · rw [heq]
      exact hcond.right
    · exact hempty k (by omega) hlt
  · rename_i hcond
    refine ⟨Nat.le_refl _, ?_, ?_⟩
    · intro k hk hlt
      exact absurd hk (Nat.not_le_of_lt hlt)
    · intro hle hnone
      exact hcond ⟨hle, hnone⟩
termination_by pmmMaxOrder + 1 - order

theorem splitDown_of_le (totalPageFrames p : Nat) (z : Zoned)
    {order found : Nat} (h : found ≤ order) :
    splitDown totalPageFrames p order z found = z := by
  cases found with
  | zero => rfl
  | succ found =>
      unfold splitDown
      rw [if_neg (Nat.not_lt_of_le h)]

theorem isFree_handOut (d : Page) :
    Page.isFree
        { d with flags := d.flags &&& ~~~pageFlagFree } = false := by
  unfold Page.isFree
  have hmask : ~~~pageFlagFree &&& pageFlagFree = 0 := by decide
  show (d.flags &&& ~~~pageFlagFree &&& pageFlagFree != 0) = false
  rw [UInt32.and_assoc, hmask, UInt32.and_zero]
  rfl

/-- The result of a `buddy_alloc` that found a block of order `found` at `p`. -/
structure Allocated (totalPageFrames : Nat) (owned : Set Nat)
    (lists lists' : Nat -> List Nat) (out : Set Block) (z z' : Zoned)
    (p order found : Nat) : Prop where
  order_le : order ≤ found
  listed : ({ start := p, order := found } : Block) ∈ onLists lists
  fresh : ({ start := p, order := order } : Block) ∉ out
  inv : ZoneInv totalPageFrames owned lists'
    (insert { start := p, order := order } out) z'
  onLists_eq : onLists lists' =
    onLists lists \ {{ start := p, order := found }} ∪
      rightHalves p order found
  cleared : (z'.page p).isFree = false
  frame : forall x,
    x ∉ Block.units { start := p, order := found } ->
      (z'.page x).isFree = (z.page x).isFree

namespace ZoneInv

variable {totalPageFrames : Nat} {owned : Set Nat}
  {lists : Nat -> List Nat} {out : Set Block} {z : Zoned}

theorem freeList_eq_none_iff
    (h : ZoneInv totalPageFrames owned lists out z) {k : Nat}
    (hk : k ≤ pmmMaxOrder) :
    z.zone.freeList k = none <-> lists k = [] := by
  have hlinked := h.linked k hk
  rw [hlinked.head_eq]
  exact List.head?_eq_none_iff

theorem splitOnce (h : ZoneInv totalPageFrames owned lists
      (insert { start := p, order := k + 1 } out) z)
    (hout : ({ start := p, order := k + 1 } : Block) ∉ out) :
    ZoneInv totalPageFrames owned
        (Function.update lists k ((p + 2 ^ k) :: lists k))
        (insert { start := p, order := k } out)
        (z.pushFree (p + 2 ^ k) k) ∧
      ({ start := p, order := k } : Block) ∉ out ∧
      p + 2 ^ k < totalPageFrames := by
  let c : Block := { start := p, order := k + 1 }
  let low : Block := { start := p, order := k }
  have hc : c ∈ insert c out := Set.mem_insert c out
  have halign : c.Aligned := h.tiles.aligned c (Or.inr hc)
  have hlow : low.Aligned := Block.Aligned.of_le halign (Nat.le_succ k)
  have hupper : Block.upper p k = low.buddy := Block.upper_eq_buddy halign
  have hpair : Tiles {low, Block.upper p k} c.units := by
    have hp := Tiles.pair hlow
    have hparent : low.parent = c := Block.parent_of_lower halign
    rw [hparent, ← hupper] at hp
    exact hp
  have hinside : forall b, b ∈ ({low, Block.upper p k} : Set Block) ->
      b ∉ out := by
    intro b hb hbout
    have hbc := h.tiles.disjoint b c (Or.inr (Set.mem_insert_of_mem c hbout))
      (Or.inr hc) b.start b.start_mem_units
      (hpair.units_subset hb b.start_mem_units)
    have horder : b.order = k := by
      rcases hb with hb | hb <;> rw [hb]
      rfl
    rw [hbc] at horder
    exact Nat.succ_ne_self k horder
  have hmax := h.outOrder c hc
  have hcut := h.retile (Tiles.singleton halign) hpair
    (Set.singleton_subset_iff.mpr hc) (by
      intro b hb
      have hk : k ≤ pmmMaxOrder := Nat.le_of_succ_le hmax
      rcases hb with hb | hb <;> rw [hb] <;> exact hk)
  rw [Set.insert_sdiff_self_of_notMem hout] at hcut
  have hup : Block.upper p k ∈ out ∪ {low, Block.upper p k} :=
    Or.inr (Or.inr rfl)
  have hpush := hcut.push hup
  have hne : low ≠ Block.upper p k := by
    rw [hupper]
    exact (Block.buddy_ne hlow).symm
  have hset : (out ∪ {low, Block.upper p k}) \ {Block.upper p k} =
      insert low out := by
    ext b
    simp only [Set.mem_sdiff, Set.mem_union, Set.mem_insert_iff,
      Set.mem_singleton_iff]
    constructor
    · intro hb
      rcases hb with ⟨hb | hb | hb, hnot⟩
      · exact Or.inr hb
      · exact Or.inl hb
      · exact absurd hb hnot
    · intro hb
      rcases hb with hb | hb
      · rw [hb]
        exact ⟨Or.inr (Or.inl rfl), hne⟩
      · refine ⟨Or.inl hb, ?_⟩
        intro heq
        exact hinside b (Or.inr heq) hb
  rw [hset] at hpush
  refine ⟨hpush, hinside low (Or.inl rfl), ?_⟩
  have howned := hcut.tiles.units_subset (Or.inr hup)
    (Block.upper p k).start_mem_units
  exact (h.valid _ howned).left

theorem split {order : Nat} (found : Nat) (hle : order ≤ found)
    (h : ZoneInv totalPageFrames owned lists
      (insert { start := p, order := found } out) z)
    (hout : ({ start := p, order := found } : Block) ∉ out) :
    exists lists', ZoneInv totalPageFrames owned lists'
        (insert { start := p, order := order } out)
        (splitDown totalPageFrames p order z found) ∧
      ({ start := p, order := order } : Block) ∉ out ∧
      onLists lists' = onLists lists ∪ rightHalves p order found ∧
      forall x, x ∉ Block.units { start := p, order := found } ->
        ((splitDown totalPageFrames p order z found).page x).isFree =
          (z.page x).isFree := by
  induction found generalizing z lists with
  | zero =>
      have hzero : order = 0 := Nat.le_zero.mp hle
      rw [hzero] at *
      refine ⟨lists, h, hout, ?_, fun _ _ => rfl⟩
      rw [rightHalves_self, Set.union_empty]
  | succ found ih =>
      by_cases heq : order = found + 1
      · rw [heq] at *
        rw [splitDown_of_le totalPageFrames p z (Nat.le_refl _)]
        refine ⟨lists, h, hout, ?_, fun _ _ => rfl⟩
        rw [rightHalves_self, Set.union_empty]
      · have hlt : order < found + 1 := by omega
        rcases h.splitOnce hout with ⟨hinv, hlow, hvalid⟩
        rcases ih (by omega) hinv hlow with
          ⟨lists', hinv', hfresh, hlists, hframe⟩
        have hstep : splitDown totalPageFrames p order z (found + 1) =
            splitDown totalPageFrames p order
              (z.pushFree (p + 2 ^ found) found) found := by
          rw [splitDown, if_pos hlt, Nat.one_shiftLeft]
          simp only [if_pos hvalid]
        rw [hstep]
        refine ⟨lists', hinv', hfresh, ?_, ?_⟩
        · have hmax : (Block.upper p found).order ≤ pmmMaxOrder :=
            Nat.le_of_succ_le (h.outOrder _ (Set.mem_insert _ _))
          have honce := onLists_push lists (Block.upper p found) hmax
          rw [hlists, rightHalves_succ (by omega), Set.union_insert,
            ← Set.insert_union]
          exact congrArg (· ∪ rightHalves p order found) honce
        · intro x hx
          have hpow : 2 ^ (found + 1) = 2 ^ found + 2 ^ found := by
            rw [Nat.pow_succ]
            omega
          have hpos : 0 < 2 ^ found := Nat.two_pow_pos _
          rw [Block.mem_units] at hx
          rw [hframe, Zoned.pushFree_isFree, if_neg]
          · intro hxp
            simp only [hpow] at hx
            omega
          · intro hmem
            rw [Block.mem_units] at hmem
            simp only [hpow] at hx
            simp only at hmem
            omega

/-- `buddy_alloc` fails only when every list from `order` on is empty. -/
theorem alloc (h : ZoneInv totalPageFrames owned lists out z)
    (order : Nat) :
    (buddyAlloc totalPageFrames z order = (0, z) ∧
        forall k, order ≤ k -> k ≤ pmmMaxOrder -> lists k = []) ∨
      exists p found lists',
        (buddyAlloc totalPageFrames z order).1 = pfnToPhys p ∧
        Allocated totalPageFrames owned lists lists' out z
          (buddyAlloc totalPageFrames z order).2 p order found := by
  rcases foundOrder_spec z.zone order with ⟨hle, hempty, hfound⟩
  unfold buddyAlloc
  by_cases hmax : pmmMaxOrder < foundOrder z.zone order
  · refine Or.inl ⟨if_pos hmax, ?_⟩
    intro k hk hkmax
    rw [← h.freeList_eq_none_iff hkmax]
    exact hempty k hk (by omega)
  · have hfoundMax : foundOrder z.zone order ≤ pmmMaxOrder := by omega
    cases hhead : z.zone.freeList (foundOrder z.zone order) with
    | none => exact absurd hhead (hfound hfoundMax)
    | some p =>
        rcases h.pop hfoundMax hhead with ⟨hlisted, hpop⟩
        have hpopped :
            ({ start := p, order := foundOrder z.zone order } : Block) ∉
              out := Set.disjoint_left.mp h.apart hlisted
        rcases hpop.split (foundOrder z.zone order) hle hpopped with
          ⟨lists', hinv, hfresh, hlists, hframe⟩
        refine Or.inr ⟨p, foundOrder z.zone order, lists', ?_, ?_⟩
        · simp only [if_neg hmax, hhead]
        · simp only [if_neg hmax, hhead]
          exact {
            order_le := hle
            listed := hlisted
            fresh := hfresh
            inv := hinv.modify (Set.mem_insert _ _) _
            onLists_eq := by
              rw [hlists]
              have herase := h.onLists_erase
                (b := { start := p, order := foundOrder z.zone order })
                hfoundMax
              exact congrArg (· ∪ _) herase
            cleared := by
              unfold handOut
              rw [Zoned.page_modify, if_pos rfl]
              exact isFree_handOut _
            frame := by
              intro x hx
              have hxp : x ≠ p := by
                intro heq
                rw [heq] at hx
                exact hx (Block.start_mem_units _)
              unfold handOut
              rw [Zoned.page_modify, if_neg hxp, hframe x hx]
              have hprev : z.prev p = none := by
                have hlinked := h.linked _ hfoundMax
                rw [hhead] at hlinked
                rcases hlinked.mem_of_head with ⟨rest, hrest⟩
                exact (hlinked.links [] p rest hrest).right
              exact (Zoned.popFree_unlinked hprev).isFree_eq x }

end ZoneInv

end Mm
end EarlnuxOS
