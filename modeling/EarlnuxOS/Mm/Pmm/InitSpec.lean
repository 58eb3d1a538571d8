import EarlnuxOS.Mm.Pmm.Init
import EarlnuxOS.Mm.Pmm.RangeSpec

/-!
# What the loop over the memory map does

Which entries `pmm_init` takes, and which ranges it frees into which zone for
the pages of one entry.
-/

namespace EarlnuxOS
namespace Mm

theorem physToPfn_eq (phys : Nat) : physToPfn phys = phys / 4096 :=
  Nat.shiftRight_eq_div_pow phys 12

theorem pfnToPhys_eq {pfn : Nat} (h : pfn < 2 ^ 20) :
    pfnToPhys pfn = pfn * 4096 := by
  unfold pfnToPhys pageShift
  rw [Nat.shiftLeft_eq]
  exact Nat.mod_eq_of_lt (by omega)

/-- The entries that `pmm_init` does not skip. -/
def MemMapEntry.Taken (e : MemMapEntry) : Prop :=
  e.type = memtypeUsable ∧ ¬ e.base + e.length ≤ 0x100000 ∧ ¬ e.stop ≤ e.start

instance (e : MemMapEntry) : Decidable e.Taken :=
  inferInstanceAs (Decidable (_ ∧ _ ∧ _))

theorem Pmm.addEntry_taken (s : Pmm) {e : MemMapEntry} (h : e.Taken) :
    s.addEntry e = s.addPages e.start e.stop := by
  rcases h with ⟨htype, hlow, hempty⟩
  unfold Pmm.addEntry
  rw [if_neg (not_not_intro htype), if_neg hlow, if_neg hempty]

theorem Pmm.addEntry_skipped (s : Pmm) {e : MemMapEntry} (h : ¬ e.Taken) :
    s.addEntry e = s := by
  unfold MemMapEntry.Taken at h
  unfold Pmm.addEntry
  split
  · rfl
  · rename_i htype
    split
    · rfl
    · rename_i hlow
      split
      · rfl
      · rename_i hempty
        exact absurd ⟨not_not.mp htype, hlow, hempty⟩ h

theorem MemMapEntry.start_dvd (e : MemMapEntry) : 4096 ∣ e.start.toNat := by
  unfold MemMapEntry.start
  dsimp only
  split
  · decide
  · rw [toNat_alignUp (k := 12) _ (by decide) rfl]
    exact Nat.dvd_mul_left _ _

theorem MemMapEntry.stop_dvd (e : MemMapEntry) : 4096 ∣ e.stop.toNat := by
  unfold MemMapEntry.stop
  rw [toNat_alignDown (k := 12) _ (by decide) rfl]
  exact Nat.dvd_mul_left _ _

theorem MemMapEntry.le_start (e : MemMapEntry) : 0x100000 ≤ e.start.toNat := by
  unfold MemMapEntry.start
  dsimp only
  split
  · decide
  · rename_i hlow
    rw [UInt32.not_lt, UInt32.le_iff_toNat_le] at hlow
    exact hlow

def MemMapEntry.pfnStart (e : MemMapEntry) : Nat := physToPfn e.start.toNat

def MemMapEntry.pfnEnd (e : MemMapEntry) : Nat := physToPfn e.stop.toNat

/-- The frames that `pmm_init` takes the entry to hold. -/
def MemMapEntry.pages (e : MemMapEntry) : Set Nat :=
  {f | e.Taken ∧ e.pfnStart ≤ f ∧ f < e.pfnEnd}

theorem MemMapEntry.le_pfnStart (e : MemMapEntry) : 256 ≤ e.pfnStart := by
  have hstart := e.le_start
  unfold MemMapEntry.pfnStart
  rw [physToPfn_eq]
  omega

theorem MemMapEntry.Taken.pfn_lt {e : MemMapEntry} (h : e.Taken) :
    e.pfnStart < e.pfnEnd := by
  have hlt := h.right.right
  rw [UInt32.not_le, UInt32.lt_iff_toNat_lt] at hlt
  have hstart := e.start_dvd
  have hstop := e.stop_dvd
  unfold MemMapEntry.pfnStart MemMapEntry.pfnEnd
  rw [physToPfn_eq, physToPfn_eq]
  omega

namespace Pmm

theorem put_zoned (s : Pmm) (id : ZoneId) : s.put id (s.zoned id) = s := by
  unfold put zoned
  rw [Function.update_eq_self]

theorem pmmInit_zones (s : Pmm) (map : List MemMapEntry) :
    (s.pmmInit map).zones = (map.foldl addEntry s.initZones).zones := by
  unfold pmmInit reserveKernel setPages
  dsimp only

theorem freeRange_of_le (s : Pmm) (id : ZoneId) {pfn endPfn : Nat}
    (h : endPfn ≤ pfn) : s.freeRange id pfn endPfn = s := by
  unfold freeRange
  rw [buddyFreeRange_of_le _ h, put_zoned]

theorem addSpanning_eq (s : Pmm) (pfnStart pfnEnd : Nat) :
    s.addSpanning pfnStart pfnEnd =
      if (s.zones ZoneId.dma).endPfn < pfnEnd ∧
          pfnStart < (s.zones ZoneId.normal).endPfn then
        s.freeRange ZoneId.normal (max pfnStart (s.zones ZoneId.dma).endPfn)
          (min pfnEnd (s.zones ZoneId.normal).endPfn)
      else s := by
  have hmax : forall a b : Nat, (if b < a then a else b) = max a b := by
    intro a b
    split <;> omega
  have hmin : forall a b : Nat, (if a < b then a else b) = min a b := by
    intro a b
    split <;> omega
  unfold addSpanning
  simp only [hmax, hmin]
  split
  · split
    · rfl
    · rename_i hempty
      rw [freeRange_of_le _ _ (Nat.le_of_not_lt hempty)]
  · rfl

theorem addSpanning_totalPageFrames (s : Pmm) (pfnStart pfnEnd : Nat) :
    (s.addSpanning pfnStart pfnEnd).totalPageFrames = s.totalPageFrames := by
  rw [addSpanning_eq]
  split <;> rfl

theorem addPages_totalPageFrames (s : Pmm) (start stop : UInt32) :
    (s.addPages start stop).totalPageFrames =
      if s.totalPageFrames < physToPfn stop.toNat then physToPfn stop.toNat
      else s.totalPageFrames := by
  unfold addPages
  exact addSpanning_totalPageFrames _ _ _

/-!
# Zone limits
-/

/-- The limits that `pmm_init` writes into the zone descriptors. -/
def zoneEnd : ZoneId -> Nat
  | ZoneId.dma => 4096
  | ZoneId.normal => 229376
  | ZoneId.highmem => 1048575

def Bounded (s : Pmm) : Prop :=
  forall id, (s.zones id).endPfn = zoneEnd id

theorem initZones_bounded (s : Pmm) : s.initZones.Bounded := by
  intro id
  cases id <;> rfl

theorem zones_freeRange (s : Pmm) (id id' : ZoneId) (pfn endPfn : Nat) :
    (s.freeRange id pfn endPfn).zones id' =
      if id' = id then (buddyFreeRange (s.zoned id) pfn endPfn).zone
      else s.zones id' := by
  unfold freeRange put
  exact Function.update_apply _ _ _ _

theorem Bounded.freeRange {s : Pmm} (h : s.Bounded) (id : ZoneId)
    (pfn endPfn : Nat) : (s.freeRange id pfn endPfn).Bounded := by
  intro id'
  rw [zones_freeRange]
  split
  · rename_i heq
    rw [buddyFreeRange_endPfn, heq]
    exact h id
  · exact h id'

theorem Bounded.addTotal {s : Pmm} (h : s.Bounded) (id : ZoneId)
    (pages : Nat) : (s.addTotal id pages).Bounded := by
  intro id'
  unfold Pmm.addTotal
  simp only [Function.update_apply]
  split
  · rename_i heq
    rw [heq]
    exact h id
  · exact h id'

theorem addTotal_freeList (s : Pmm) (id id' : ZoneId) (pages : Nat) :
    ((s.addTotal id pages).zones id').freeList = (s.zones id').freeList := by
  unfold addTotal
  simp only [Function.update_apply]
  split
  · rename_i heq
    rw [heq]
  · rfl

/-- The state in which the pages of an entry are handed to the zones. -/
def marked (s : Pmm) (start stop : UInt32) : Pmm :=
  (s.extend stop (physToPfn stop.toNat)).setPages
    (markUsable s.pages (physToPfn start.toNat)
      (min (physToPfn stop.toNat) pageArraySize - physToPfn start.toNat))

theorem Bounded.marked {s : Pmm} (h : s.Bounded) (start stop : UInt32) :
    (s.marked start stop).Bounded :=
  fun id => h id

theorem physToPfn_lt (stop : UInt32) : physToPfn stop.toNat ≤ 1048575 := by
  have hlt := stop.toNat_lt
  rw [physToPfn_eq]
  omega

theorem selectZone_eq (start : UInt32) :
    selectZone start =
      if physToPfn start.toNat < 4096 then ZoneId.dma
      else if physToPfn start.toNat < 229376 then ZoneId.normal
      else ZoneId.highmem := by
  have hdma : start < dmaLimit <-> physToPfn start.toNat < 4096 := by
    rw [physToPfn_eq, UInt32.lt_iff_toNat_lt]
    show start.toNat < 16777216 <-> _
    omega
  have hnormal : start < normalLimit <-> physToPfn start.toNat < 229376 := by
    rw [physToPfn_eq, UInt32.lt_iff_toNat_lt]
    show start.toNat < 939524096 <-> _
    omega
  unfold selectZone
  simp only [hdma, hnormal]

/-- The ranges that the pages of an entry are handed to the zones as. -/
def placements (pfnStart pfnEnd : Nat) : List (ZoneId × Nat × Nat) :=
  if pfnStart < 4096 then
    [(ZoneId.dma, pfnStart, min pfnEnd 4096),
      (ZoneId.normal, 4096, min pfnEnd 229376)]
  else if pfnStart < 229376 then
    [(ZoneId.normal, pfnStart, min pfnEnd 229376),
      (ZoneId.normal, pfnStart, min pfnEnd 229376)]
  else
    [(ZoneId.highmem, pfnStart, pfnEnd)]

def freeRanges (s : Pmm) (ranges : List (ZoneId × Nat × Nat)) : Pmm :=
  ranges.foldl (fun s r => s.freeRange r.1 r.2.1 r.2.2) s

theorem freeRanges_cons (s : Pmm) (r : ZoneId × Nat × Nat)
    (ranges : List (ZoneId × Nat × Nat)) :
    s.freeRanges (r :: ranges) =
      (s.freeRange r.1 r.2.1 r.2.2).freeRanges ranges := rfl

theorem addPages_eq {s : Pmm} (h : s.Bounded) {start stop : UInt32}
    (hlt : physToPfn start.toNat < physToPfn stop.toNat) :
    s.addPages start stop =
      ((s.marked start stop).freeRanges
        (placements (physToPfn start.toNat) (physToPfn stop.toNat))).addTotal
          (selectZone start)
          (physToPfn stop.toNat - physToPfn start.toNat) := by
  have hclamp : forall a b : Nat, (if a < b then a else b) = min b a := by
    intro a b
    split <;> omega
  have hmarked := h.marked start stop
  have hbounded := hmarked.freeRange (selectZone start)
    (physToPfn start.toNat)
    (min (physToPfn stop.toNat) (zoneEnd (selectZone start)))
  have hend := physToPfn_lt stop
  have hstep : s.addPages start stop =
      (((s.marked start stop).freeRange (selectZone start)
        (physToPfn start.toNat)
        (min (physToPfn stop.toNat)
          (zoneEnd (selectZone start)))).addSpanning
            (physToPfn start.toNat) (physToPfn stop.toNat)).addTotal
              (selectZone start)
              (physToPfn stop.toNat - physToPfn start.toNat) := by
    rw [← hmarked (selectZone start), ← hclamp]
    rfl
  rw [hstep, addSpanning_eq, hbounded, hbounded]
  congr 1
  unfold placements freeRanges zoneEnd
  rw [selectZone_eq]
  by_cases hdma : physToPfn start.toNat < 4096
  · simp only [if_pos hdma, List.foldl_cons, List.foldl_nil]
    split
    · rw [Nat.max_eq_right (Nat.le_of_lt hdma)]
    · rw [freeRange_of_le _ ZoneId.normal (by omega)]
  · by_cases hnormal : physToPfn start.toNat < 229376
    · simp only [if_neg hdma, if_pos hnormal, List.foldl_cons,
        List.foldl_nil]
      rw [if_pos ⟨by omega, hnormal⟩, Nat.max_eq_left (by omega)]
    · simp only [if_neg hdma, if_neg hnormal, List.foldl_cons,
        List.foldl_nil]
      rw [if_neg (fun hspan => hnormal hspan.right), Nat.min_eq_left hend]

theorem addEntry_eq {s : Pmm} (h : s.Bounded) {e : MemMapEntry}
    (htaken : e.Taken) :
    s.addEntry e =
      ((s.marked e.start e.stop).freeRanges
        (placements e.pfnStart e.pfnEnd)).addTotal (selectZone e.start)
          (e.pfnEnd - e.pfnStart) := by
  rw [addEntry_taken s htaken]
  exact addPages_eq h htaken.pfn_lt

theorem Bounded.freeRanges {s : Pmm} (h : s.Bounded)
    (ranges : List (ZoneId × Nat × Nat)) : (s.freeRanges ranges).Bounded := by
  induction ranges generalizing s with
  | nil => exact h
  | cons r ranges ih => exact ih (h.freeRange r.1 r.2.1 r.2.2)

theorem Bounded.addEntry {s : Pmm} (h : s.Bounded) (e : MemMapEntry) :
    (s.addEntry e).Bounded := by
  by_cases htaken : e.Taken
  · rw [addEntry_eq h htaken]
    exact ((h.marked e.start e.stop).freeRanges _).addTotal _ _
  · rw [addEntry_skipped s htaken]
    exact h

theorem Bounded.addEntries {s : Pmm} (h : s.Bounded)
    (map : List MemMapEntry) : (map.foldl Pmm.addEntry s).Bounded := by
  induction map generalizing s with
  | nil => exact h
  | cons e map ih => exact ih (h.addEntry e)

end Pmm

end Mm
end EarlnuxOS
