import EarlnuxOS.Mm.Pmm.ZoneSeparation
import EarlnuxOS.Mm.Vmm.Entries
import EarlnuxOS.Mm.Vmm.HighFrames
import EarlnuxOS.Mm.Vmm.Supply

/-!
# The buddy allocator behind the virtual memory manager

`kernel/mm/vmm.c` takes its frames from `kernel/mm/pmm.c`.  The blocks that are
out are a list that grows and shrinks with the calls, and the frames that are
still to come are a sound supply: none of them is in such a block.
-/

namespace EarlnuxOS
namespace Mm

open Foundation

def heldPage (f : UInt32) : Held :=
  { phys := f.toNat, order := 0, zone := selectZone f }

def Held.addresses (b : Held) : Set UInt32 :=
  { f | physToPfn f.toNat ∈ b.block.units }

/-- The zones are in order, and the blocks have been handed out. -/
def Lent (owned : ZoneId -> Set Nat) (live : List Held) (pmm : Pmm) : Prop :=
  exists lists out, ZonedInv owned lists out { pmm := pmm, live := live }

/-- Addresses outside all zones, and those in the blocks that are out. -/
def engaged (owned : ZoneId -> Set Nat) (live : List Held) : Set UInt32 :=
  { f | (forall id, physToPfn f.toNat ∉ owned id) ∨
    exists b, b ∈ live ∧ f ∈ b.addresses }

/-!
# Pages
-/

theorem heldPage_units (f : UInt32) :
    (heldPage f).block.units = {physToPfn f.toNat} := by
  ext x
  rw [Block.mem_units, Set.mem_singleton_iff]
  show physToPfn f.toNat ≤ x ∧ x < physToPfn f.toNat + 2 ^ 0 <->
    x = physToPfn f.toNat
  omega

theorem mem_heldPage (f : UInt32) : f ∈ (heldPage f).addresses := by
  show physToPfn f.toNat ∈ (heldPage f).block.units
  rw [heldPage_units]
  exact rfl

theorem frame_pfnToPhys (pfn : Nat) :
    frame (UInt32.ofNat (pfnToPhys pfn)) = UInt32.ofNat (pfnToPhys pfn) := by
  apply UInt32.toNat_inj.mp
  rw [toNat_frame, toNat_pfnToPhys]
  unfold pfnToPhys pageShift
  rw [Nat.shiftLeft_eq]
  omega

theorem eq_of_page {f g : UInt32} (hf : frame f = f) (hg : frame g = g)
    (heq : physToPfn f.toNat = physToPfn g.toNat) : f = g := by
  have hfn := congrArg UInt32.toNat hf
  have hgn := congrArg UInt32.toNat hg
  rw [toNat_frame] at hfn hgn
  rw [physToPfn_eq, physToPfn_eq] at heq
  apply UInt32.toNat_inj.mp
  omega

/-!
# What a run of calls keeps
-/

theorem engaged_mono {owned : ZoneId -> Set Nat} {live live' : List Held}
    (h : live ⊆ live') : engaged owned live ⊆ engaged owned live' := by
  intro f hf
  rcases hf with hfree | ⟨b, hb, hfb⟩
  · exact Or.inl hfree
  · exact Or.inr ⟨b, h hb, hfb⟩

theorem ZonedInv.perm {owned : ZoneId -> Set Nat}
    {lists : ZoneId -> Nat -> List Nat} {out : ZoneId -> Set Block} {pmm : Pmm}
    {live live' : List Held}
    (h : ZonedInv owned lists out { pmm := pmm, live := live })
    (hperm : live.Perm live') :
    ZonedInv owned lists out { pmm := pmm, live := live' } where
  zones := h.zones
  ready := h.ready
  held := fun b hb => h.held b (hperm.mem_iff.mpr hb)
  phys := fun b hb => h.phys b (hperm.mem_iff.mpr hb)
  nonzero := fun b hb => h.nonzero b (hperm.mem_iff.mpr hb)
  mapped := fun b hb => h.mapped b (hperm.mem_iff.mpr hb)
  nodup := hperm.nodup_iff.mp h.nodup

namespace Lent

variable {owned : ZoneId -> Set Nat} {live live' : List Held} {pmm : Pmm}
  {b c : Held} {f : UInt32}

theorem perm (h : Lent owned live pmm) (hperm : live.Perm live') :
    Lent owned live' pmm := by
  rcases h with ⟨lists, out, hinv⟩
  exact ⟨lists, out, hinv.perm hperm⟩

theorem nodup (h : Lent owned live pmm) : live.Nodup := by
  rcases h with ⟨_, _, hinv⟩
  exact hinv.nodup

theorem canonical (h : Lent owned live pmm) (hb : b ∈ live) :
    (UInt32.ofNat b.phys).toNat = b.phys ∧
      selectZone (UInt32.ofNat b.phys) = b.zone ∧ b.phys ≠ 0 ∧
      frame (UInt32.ofNat b.phys) = UInt32.ofNat b.phys := by
  rcases h with ⟨_, _, hinv⟩
  have hphys := hinv.phys b hb
  refine ⟨?_, ?_, hinv.nonzero b hb, ?_⟩
  · rw [hphys]
    exact toNat_pfnToPhys _
  · rw [hphys]
    exact hinv.zones.out_selectZone (hinv.held b hb)
  · rw [hphys]
    exact frame_pfnToPhys _

theorem eq_heldPage (h : Lent owned live pmm) (hb : b ∈ live)
    (horder : b.order = 0) : heldPage (UInt32.ofNat b.phys) = b := by
  rcases h.canonical hb with ⟨hphys, hzone, _, _⟩
  unfold heldPage
  rw [hphys, hzone, ← horder]

theorem page_ne_zero (h : Lent owned (heldPage f :: live) pmm) : f ≠ 0 := by
  rcases h.canonical List.mem_cons_self with ⟨_, _, hne, _⟩
  intro heq
  rw [heq] at hne
  exact hne rfl

theorem addresses_owned (h : Lent owned live pmm) (hb : b ∈ live)
    (hf : f ∈ b.addresses) : physToPfn f.toNat ∈ owned b.zone := by
  rcases h with ⟨_, _, hinv⟩
  exact hinv.zones.out_owned (hinv.held b hb) hf

theorem eq_of_address (h : Lent owned live pmm) (hb : b ∈ live)
    (hc : c ∈ live) (hfb : f ∈ b.addresses) (hfc : f ∈ c.addresses) :
    b = c := by
  have hb' := h.addresses_owned hb hfb
  have hc' := h.addresses_owned hc hfc
  rcases h with ⟨_, _, hinv⟩
  have hzone : b.zone = c.zone := by
    by_contra hne
    exact Set.disjoint_left.mp (hinv.zones.owned_apart hne) hb' hc'
  have hout := hinv.held c hc
  rw [← hzone] at hout
  have hblock : b.block = c.block :=
    (hinv.zones.zone b.zone).tiles.disjoint _ _ (Or.inr (hinv.held b hb))
      (Or.inr hout) _ hfb hfc
  have hphys : b.phys = c.phys := by
    rw [hinv.phys b hb, hinv.phys c hc, hblock]
  have horder : b.order = c.order := congrArg Block.order hblock
  cases b with
  | mk phys order zone =>
      cases c with
      | mk phys' order' zone' =>
          dsimp only at hphys horder hzone
          rw [hphys, horder, hzone]

theorem not_engaged (h : Lent owned (b :: live) pmm) (hf : f ∈ b.addresses) :
    f ∉ engaged owned live := by
  intro hengaged
  rcases hengaged with hfree | ⟨c, hc, hfc⟩
  · exact hfree b.zone (h.addresses_owned List.mem_cons_self hf)
  · have heq := h.eq_of_address List.mem_cons_self
      (List.mem_cons_of_mem b hc) hf hfc
    exact (List.nodup_cons.mp h.nodup).left (heq ▸ hc)

theorem alloc (h : Lent owned live pmm) (order : Nat) :
    Lent owned
      (if (pmm.pmmAllocPages order).1 = 0 then live
      else
        { phys := (pmm.pmmAllocPages order).1, order := order
          zone := pmm.sourceZone order } :: live)
      (pmm.pmmAllocPages order).2 := by
  rcases h with ⟨_, _, hinv⟩
  exact hinv.alloc order

theorem free (h : Lent owned (b :: live) pmm) :
    Lent owned live (pmm.pmmFreePages (UInt32.ofNat b.phys) b.order) := by
  rcases h with ⟨_, _, hinv⟩
  rcases hinv.free (b := b) List.mem_cons_self with
    ⟨lists, out, _, _, _, hnext⟩
  refine ⟨lists, out, ?_⟩
  have hlive : (b :: live).erase b = live := List.erase_cons_head b live
  rw [← hlive]
  exact hnext

theorem allocPage (h : Lent owned live pmm) :
    ((PageAllocator.pmmAllocPage pmm).1 = 0 ∧
      Lent owned live (PageAllocator.pmmAllocPage pmm).2) ∨
    Lent owned (heldPage (PageAllocator.pmmAllocPage pmm).1 :: live)
      (PageAllocator.pmmAllocPage pmm).2 := by
  have hnext := h.alloc 0
  by_cases hnone : (pmm.pmmAllocPages 0).1 = 0
  · left
    rw [if_pos hnone] at hnext
    exact ⟨congrArg UInt32.ofNat hnone, hnext⟩
  · right
    rw [if_neg hnone] at hnext
    have heq := hnext.eq_heldPage List.mem_cons_self rfl
    rw [← heq] at hnext
    exact hnext

theorem freePage (h : Lent owned (heldPage f :: live) pmm) :
    Lent owned live (PageAllocator.pmmFreePage pmm f) := by
  have hnext := h.free
  have hphys : UInt32.ofNat (heldPage f).phys = f := UInt32.ofNat_toNat
  rw [hphys] at hnext
  exact hnext

theorem freePages {pages : List UInt32}
    (h : Lent owned (pages.map heldPage ++ live) pmm) :
    Lent owned live (pages.foldl PageAllocator.pmmFreePage pmm) := by
  induction pages generalizing pmm with
  | nil => exact h
  | cons f pages ih => exact ih h.freePage

/-!
# A sound supply
-/

theorem drawn_one (pmm : Pmm) : drawn pmm 1 =
    if answer pmm 0 = 0 then [] else [answer pmm 0] := by
  show [answer pmm 0].filter (fun f => f ≠ 0) = _
  rw [List.filter_singleton]
  by_cases hzero : answer pmm 0 = 0
  · rw [if_pos hzero, hzero]
    rfl
  · rw [if_neg hzero, decide_eq_true hzero]
    rfl

theorem after (h : Lent owned live pmm) (n : Nat) :
    Lent owned ((drawn pmm n).map heldPage ++ live) (Mm.after pmm n) := by
  induction n generalizing pmm live with
  | zero => exact h
  | succ n ih =>
      have hdrawn : drawn pmm (n + 1) = drawn pmm 1 ++
          drawn (PageAllocator.pmmAllocPage pmm).2 n := by
        rw [Nat.add_comm, drawn_add]
        rfl
      rw [hdrawn, drawn_one, after_succ]
      rcases h.allocPage with ⟨hnone, hnext⟩ | hnext
      · have hzero : answer pmm 0 = 0 := hnone
        rw [if_pos hzero]
        exact ih hnext
      · have hne : answer pmm 0 ≠ 0 := hnext.page_ne_zero
        rw [if_neg hne]
        exact (ih hnext).perm List.perm_middle

theorem answer_cases (h : Lent owned live pmm) (n : Nat) :
    answer pmm n = 0 ∨ Lent owned
      (heldPage (answer pmm n) :: ((drawn pmm n).map heldPage ++ live))
      (Mm.after pmm (n + 1)) := by
  rcases (h.after n).allocPage with ⟨hnone, _⟩ | hnext
  · exact Or.inl hnone
  · right
    rw [after_add]
    exact hnext

theorem supply (h : Lent owned live pmm) :
    Supply pmm (engaged owned live) where
  aligned := by
    intro n
    rcases h.answer_cases n with hnone | hnext
    · rw [hnone]
      decide
    · have halign := (hnext.canonical List.mem_cons_self).right.right.right
      rw [show (heldPage (answer pmm n)).phys = (answer pmm n).toNat from rfl,
        UInt32.ofNat_toNat] at halign
      exact halign
  unused := by
    intro f hf
    rcases hf with ⟨hne, n, hn⟩
    rcases h.answer_cases n with hnone | hnext
    · exact absurd (hn.symm.trans hnone) hne
    · rw [hn] at hnext
      intro hengaged
      exact hnext.not_engaged (mem_heldPage f)
        (engaged_mono (List.subset_append_right _ _) hengaged)
  distinct := by
    intro m n hlt heq
    rcases h.answer_cases n with hnone | hnext
    · exact hnone
    · by_contra hne
      have hdrawn : answer pmm n ∈ drawn pmm n := by
        unfold drawn
        rw [List.mem_filter]
        constructor
        · exact List.mem_map.mpr ⟨m, List.mem_range.mpr hlt, heq⟩
        · exact decide_eq_true hne
      apply (List.nodup_cons.mp hnext.nodup).left
      exact List.mem_append_left _ (List.mem_map_of_mem hdrawn)

/-!
# Pages beside blocks
-/

section Beside

variable {frames : List UInt32}

theorem frames_nodup (h : Lent owned (frames.map heldPage ++ live) pmm) :
    frames.Nodup :=
  (List.nodup_append.mp h.nodup).left.of_map

theorem frame_eq (h : Lent owned (frames.map heldPage ++ live) pmm)
    (hf : f ∈ frames) : frame f = f ∧ f ≠ 0 := by
  have hmem : heldPage f ∈ frames.map heldPage ++ live :=
    List.mem_append_left _ (List.mem_map_of_mem hf)
  rcases h.canonical hmem with ⟨_, _, hne, halign⟩
  rw [show (heldPage f).phys = f.toNat from rfl, UInt32.ofNat_toNat] at halign
  refine ⟨halign, ?_⟩
  intro heq
  rw [heq] at hne
  exact hne rfl

theorem frame_apart (h : Lent owned (frames.map heldPage ++ live) pmm)
    (hf : f ∈ frames) : f ∉ engaged owned live := by
  intro hengaged
  have hfirst := h.perm (((List.perm_cons_erase hf).map heldPage).append_right
    live)
  exact hfirst.not_engaged (mem_heldPage f)
    (engaged_mono (List.subset_append_right _ _) hengaged)

theorem block_apart (h : Lent owned (live ++ live') pmm) (hb : b ∈ live)
    (hf : f ∈ b.addresses) : f ∉ engaged owned live' := by
  intro hengaged
  have hfirst := h.perm ((List.perm_cons_erase hb).append_right live')
  exact hfirst.not_engaged hf
    (engaged_mono (List.subset_append_right _ _) hengaged)

end Beside

/-- What is out after the zones were filled and some calls were made. -/
theorem of_run {page : Nat -> Page} {totalPageFrames : Nat}
    {ranges : List (ZoneId × Nat × Nat)} {z : ZonedState}
    (hplaced : Placed page totalPageFrames ranges)
    (hreach : Reachable ZonedState.exec ZonedState.Valid
      (ZonedState.start page totalPageFrames ranges) z) :
    Lent (ownedIn ranges) z.live z.pmm := by
  apply hreach.invariant
  · rcases hplaced.inv with ⟨lists, hinv⟩
    refine ⟨lists, fun _ => ∅, ?_⟩
    exact {
      zones := hinv
      ready := Pmm.freeRanges_ready _ _
      held := List.forall_mem_nil _
      phys := List.forall_mem_nil _
      nonzero := List.forall_mem_nil _
      mapped := List.forall_mem_nil _
      nodup := List.nodup_nil }
  · intro s o h hvalid
    exact ZonedInv.step h o hvalid

end Lent

end Mm
end EarlnuxOS
