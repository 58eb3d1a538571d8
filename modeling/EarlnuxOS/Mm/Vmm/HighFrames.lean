import EarlnuxOS.Mm.Vmm.Machine

/-!
# Frames of the normal zone

`pmm_alloc_page` prefers memory from 16 MB on, which is not in the identity
map.
-/

namespace EarlnuxOS
namespace Mm

instance pmmAllocator : PageAllocator Pmm where
  pmmAllocPage := fun s => (UInt32.ofNat s.pmmAllocPage.1, s.pmmAllocPage.2)
  pmmFreePage := fun s phys => s.pmmFreePage phys

/-!
# A block of two pages
-/

theorem buddyAlloc_pair {totalPageFrames p : Nat} {z : Zoned}
    (hzero : z.zone.freeList 0 = none) (hone : z.zone.freeList 1 = some p)
    (hlt : p + 1 < totalPageFrames) :
    (buddyAlloc totalPageFrames z 0).1 = pfnToPhys p ∧
      (buddyAlloc totalPageFrames z 0).2.zone.freeList 0 = some (p + 1) := by
  have hfound : foundOrder z.zone 0 = 1 := by
    rw [foundOrder, if_pos ⟨Nat.zero_le _, hzero⟩, foundOrder, if_neg]
    intro hnone
    rw [hone] at hnone
    cases hnone.right
  have hmax : ¬ pmmMaxOrder < 1 := by decide
  have hright : p + (1 <<< 0) < totalPageFrames := hlt
  unfold buddyAlloc
  dsimp only
  rw [hfound, if_neg hmax, hone]
  refine ⟨rfl, ?_⟩
  show (splitDown totalPageFrames p 0 (z.popFree p 1) 1).zone.freeList 0 = _
  rw [splitDown, if_pos Nat.one_pos]
  simp only [if_pos hright, splitDown]
  show ((z.popFree p 1).pushFree (p + 1 <<< 0) 0).zone.freeList 0 = _
  rw [Zoned.pushFree_freeList, if_pos rfl, Nat.shiftLeft_zero]

/-- The first two pages that the manager hands out, when NORMAL has a pair. -/
theorem Pmm.pmmAllocPage_pair {s : Pmm} {p : Nat} (hready : s.ready = true)
    (hzero : (s.zones ZoneId.normal).freeList 0 = none)
    (hone : (s.zones ZoneId.normal).freeList 1 = some p)
    (hlt : p + 1 < s.totalPageFrames) (hfirst : pfnToPhys p ≠ 0)
    (hsecond : pfnToPhys (p + 1) ≠ 0) :
    answer s 0 = UInt32.ofNat (pfnToPhys p) ∧
      answer s 1 = UInt32.ofNat (pfnToPhys (p + 1)) := by
  rcases @buddyAlloc_pair _ _ (s.zoned ZoneId.normal) hzero hone hlt with
    ⟨hresult, hhead⟩
  have halloc : s.pmmAllocPage = (pfnToPhys p, s.put ZoneId.normal
      (buddyAlloc s.totalPageFrames (s.zoned ZoneId.normal) 0).2) := by
    unfold pmmAllocPage pmmAllocPages
    dsimp only
    rw [hresult, if_neg (by rw [hready]; decide), if_neg hfirst]
  have hnext : (s.pmmAllocPage.2.zones ZoneId.normal).freeList 0 =
      some (p + 1) := by
    rw [halloc]
    dsimp only [put]
    rw [Function.update_self]
    exact hhead
  have hagain : s.pmmAllocPage.2.pmmAllocPage.1 = pfnToPhys (p + 1) := by
    have hresult' := @buddyAlloc_of_head s.pmmAllocPage.2.totalPageFrames
      (s.pmmAllocPage.2.zoned ZoneId.normal) 0 (p + 1) (Nat.zero_le _) hnext
    have hready' : s.pmmAllocPage.2.ready = true := by
      rw [halloc]
      exact hready
    unfold pmmAllocPage at hresult' hready' ⊢
    rw [pmmAllocPages, if_neg (by rw [hready']; decide)]
    dsimp only
    rw [hresult', if_neg hsecond]
  constructor
  · show UInt32.ofNat s.pmmAllocPage.1 = _
    rw [halloc]
  · show UInt32.ofNat s.pmmAllocPage.2.pmmAllocPage.1 = _
    rw [hagain]

/-!
# A machine with a pair of pages from 16 MB on
-/

def highMap : List MemMapEntry :=
  [{ base := 0xFFF000, length := 0x3000, type := memtypeUsable }]

theorem highMap_head (z : Zoned) (k : Nat) :
    (buddyFreeRange z 4096 4098).zone.freeList k =
      if k = 1 then some 4096 else z.zone.freeList k := by
  have horder : rangeOrder 4096 4098 pmmMaxOrder = 1 := by decide
  rw [buddyFreeRange_of_lt z (by decide), horder,
    buddyFreeRange_of_le _ (by decide), Zoned.pushFree_freeList]

theorem highMap_zones :
    ((Pmm.boot.pmmInit highMap).zones ZoneId.normal).freeList 0 = none ∧
      ((Pmm.boot.pmmInit highMap).zones ZoneId.normal).freeList 1 =
        some 4096 ∧
      (Pmm.boot.pmmInit highMap).totalPageFrames = 4098 := by
  have htotal : (Pmm.boot.pmmInit highMap).totalPageFrames =
      (Pmm.boot.initZones.addEntry
        { base := 0xFFF000, length := 0x3000
          type := memtypeUsable }).totalPageFrames := rfl
  rw [htotal, Pmm.pmmInit_zones, highMap, List.foldl_cons, List.foldl_nil]
  generalize he : ({ base := 0xFFF000, length := 0x3000
                     type := memtypeUsable } : MemMapEntry) = e
  have htaken : e.Taken := by
    rw [← he]
    decide
  have hpages : e.pfnStart = 4095 ∧ e.pfnEnd = 4098 := by
    rw [← he]
    decide
  have hplaced : Pmm.placements 4095 4098 =
      [(ZoneId.dma, 4095, 4096), (ZoneId.normal, 4096, 4098)] := by
    decide
  have hlist : forall k, ((Pmm.boot.initZones.addEntry e).zones
      ZoneId.normal).freeList k = if k = 1 then some 4096 else none := by
    intro k
    have hranges : forall s : Pmm,
        s.freeRanges [(ZoneId.dma, 4095, 4096), (ZoneId.normal, 4096, 4098)] =
          (s.freeRange ZoneId.dma 4095 4096).freeRange ZoneId.normal 4096
            4098 := fun _ => rfl
    rw [Pmm.addEntry_eq (Pmm.initZones_bounded _) htaken, hpages.left,
      hpages.right, hplaced, hranges, Pmm.addTotal_freeList,
      Pmm.zones_freeRange, if_pos rfl, highMap_head]
    congr 1
  refine ⟨hlist 0, hlist 1, ?_⟩
  rw [Pmm.addEntry_taken _ htaken, Pmm.addPages_totalPageFrames]
  change (if 0 < e.pfnEnd then e.pfnEnd else 0) = 4098
  rw [hpages.right]
  rfl

def highMachine : Vmm Pmm where
  mem := fun _ _ => 0
  pmm := Pmm.boot.pmmInit highMap
  kernelPgdir := 0x110000
  currentPgdir := 0
  cr3 := 0
  paging := false
  taken := []
  freed := []
  unmapped := false

theorem highMachine_frames :
    answer highMachine.pmm 0 = 0x1000000 ∧
      Vmm.EarlyFrames highMachine.pmm 0x110000 := by
  rcases highMap_zones with ⟨hzero, hone, htotal⟩
  rcases @Pmm.pmmAllocPage_pair (Pmm.boot.pmmInit highMap) 4096 rfl hzero hone
    (by rw [htotal]; decide) (by decide) (by decide) with ⟨hfirst, hsecond⟩
  have hanswers : forall n, n < 2 -> answer highMachine.pmm n = 0x1000000 ∨
      answer highMachine.pmm n = 0x1001000 := by
    intro n hn
    have hcases : n = 0 ∨ n = 1 := by omega
    rcases hcases with hn | hn
    · rw [hn]
      exact Or.inl hfirst
    · rw [hn]
      exact Or.inr hsecond
  refine ⟨hfirst, ?_, ?_, ?_, ?_⟩
  · intro n hn
    rcases hanswers n hn with heq | heq <;> rw [heq] <;> decide
  · intro n hn
    rcases hanswers n hn with heq | heq <;> rw [heq] <;> decide
  · intro n hn
    rcases hanswers n hn with heq | heq <;> rw [heq] <;> decide
  · show answer (Pmm.boot.pmmInit highMap) 0 ≠
      answer (Pmm.boot.pmmInit highMap) 1
    rw [hfirst, hsecond]
    decide

theorem unmapped_of_high {st : Vmm Pmm} {k virt : UInt32}
    {t : Fin 1024 -> UInt32} (h : Vmm.Mapped k t st)
    (hrest : forall i : Fin 1024, 2 ≤ i.val -> st.mem k i = 0)
    (hvirt : (pdeIndex virt).val < 2)
    (hhigh : 2 ≤ (pdeIndex (t (pdeIndex virt))).val)
    (phys flags : UInt32) :
    (st.vmmMapPage k virt phys flags).2.unmapped = true := by
  rcases h.identity.table (pdeIndex virt) (by omega) with
    ⟨hpresent, _, htable⟩
  have hphys : vmmVirtToPhys st.mem k (t (pdeIndex virt)) = 0 := by
    rw [vmmVirtToPhys_eq, entryAt_absent]
    · rfl
    · rw [hrest _ hhigh, present_zero]
  have hne : t (pdeIndex virt) ≠ 0 := by
    intro hzero
    rw [hzero] at hhigh
    exact absurd hhigh (by decide)
  rw [Vmm.vmmMapPage_table phys flags hpresent, htable]
  show ((st.access k).unmapped || (st.paging &&
    vmmVirtToPhys st.mem st.kernelPgdir (t (pdeIndex virt)) !=
      t (pdeIndex virt))) = true
  rw [h.paging, h.dir, hphys, Bool.true_and, Bool.or_eq_true, bne_iff_ne]
  exact Or.inr hne.symm

/-- The tables that `vmm_init` has put at 16 MB are used through addresses. -/
theorem highMachine_unmapped :
    ((Machine.start highMachine).exec
      (DirOp.map 0x110000 0x3000 0x9000 3)).vmm.unmapped = true := by
  have hoff : Vmm.Off 0x110000 highMachine := ⟨rfl, rfl, rfl⟩
  rcases hoff.vmmInit highMachine_frames.right with
    ⟨hmapped, hrest, _⟩
  rw [Machine.exec_map, Machine.start_vmm]
  apply unmapped_of_high hmapped hrest (by decide)
  have hindex : (pdeIndex 0x3000).val = 0 := by decide
  rw [hindex, highMachine_frames.left]
  decide

end Mm
end EarlnuxOS
