import Mathlib.Data.Set.Lattice
import Mathlib.Order.CompletePartialOrder
import EarlnuxOS.Foundation.Run
import EarlnuxOS.Types
import Mathlib.Order.Interval.Set.Basic

/-!
# The bump allocator

`kernel/mm/mm.c` rounds a request up to eight bytes and moves a counter.  Both
the rounding and the limit test are 32-bit sums.  As long as neither wraps, the
results are disjoint and inside the heap; the first request for which one does
wrap is answered with memory that is not there.
-/

namespace EarlnuxOS
namespace Mm

open Foundation

structure BumpHeap where
  start : UInt32
  size : UInt32
  used : UInt32
deriving DecidableEq, Repr

namespace BumpHeap

/-- `kmalloc`; `none` is `NULL`. -/
def kmalloc (h : BumpHeap) (size : UInt32) : Option UInt32 × BumpHeap :=
  let size := (size + 7) &&& ~~~7
  if h.size < h.used + size then
    (none, h)
  else
    (some (h.start + h.used), { h with used := h.used + size })

/-- `kfree` does nothing. -/
def kfree (h : BumpHeap) (_ptr : UInt32) : BumpHeap := h

end BumpHeap

inductive BumpOp where
  | kmalloc (size : UInt32)
  | kfree (ptr : UInt32)
deriving DecidableEq

/-- The heap and the results so far, each with the size asked for. -/
structure BumpState where
  heap : BumpHeap
  results : List (UInt32 × UInt32)

namespace BumpState

def start (heapStart heapSize : UInt32) : BumpState :=
  { heap := { start := heapStart, size := heapSize, used := 0 }, results := [] }

def exec (s : BumpState) : BumpOp -> BumpState
  | BumpOp.kmalloc size =>
      let result := s.heap.kmalloc size
      { heap := result.2
        results :=
          match result.1 with
          | none => s.results
          | some p => (p, size) :: s.results }
  | BumpOp.kfree ptr => { s with heap := s.heap.kfree ptr }

end BumpState

def bumpBytes (r : UInt32 × UInt32) : Set Nat :=
  Set.Ico r.1.toNat (r.1.toNat + r.2.toNat)

/-- The result of a request lies in the heap and overlaps no earlier one. -/
def GoodResult (s : BumpState) (size : UInt32) : Option UInt32 -> Prop
  | none => (s.heap.kmalloc size).2 = s.heap
  | some p =>
      s.heap.start.toNat ≤ p.toNat ∧
        p.toNat + size.toNat ≤ s.heap.start.toNat + s.heap.size.toNat ∧
        forall r, r ∈ s.results -> Disjoint (bumpBytes r) (bumpBytes (p, size))

structure SoundCall (s : BumpState) (o : BumpOp) : Prop where
  result : forall size, o = BumpOp.kmalloc size ->
    GoodResult s size (s.heap.kmalloc size).1
  grows : s.heap.used.toNat ≤ (s.exec o).heap.used.toNat
  bounded : (s.exec o).heap.used.toNat ≤ (s.exec o).heap.size.toNat

/-- Neither the rounding nor the sum with `heap_used` wraps. -/
def NoWrap (s : BumpState) : BumpOp -> Prop
  | BumpOp.kmalloc size =>
      (size.toNat + 7) / 8 * 8 + s.heap.used.toNat < 2 ^ 32
  | BumpOp.kfree _ => True

/-!
# One request
-/

theorem toNat_round (size : UInt32) :
    ((size + 7) &&& ~~~7).toNat = (size.toNat + 7) % 2 ^ 32 / 8 * 8 := by
  have hup := toNat_alignUp size (k := 3) (by decide) (rfl : (8 : UInt32).toNat = 2 ^ 3)
  have hsum : alignUp size 8 = (size + 7) &&& ~~~7 := by
    unfold alignUp
    rw [UInt32.sub_eq_add_neg, UInt32.add_assoc]
    rfl
  rw [← hsum]
  exact hup

/--
The heap is an object of the address space: it does not start at `NULL`, and
the pointer behind its end exists.
-/
structure BumpRegion (heapStart heapSize : UInt32) : Prop where
  nonnull : 0 < heapStart.toNat
  aligned : 8 ∣ heapStart.toNat
  fits : heapStart.toNat + heapSize.toNat < 2 ^ 32

structure BumpInv (heapStart heapSize : UInt32) (s : BumpState) : Prop where
  start : s.heap.start = heapStart
  size : s.heap.size = heapSize
  bounded : s.heap.used.toNat ≤ heapSize.toNat
  aligned : 8 ∣ s.heap.used.toNat
  below : forall r, r ∈ s.results ->
    r.1.toNat + r.2.toNat ≤ heapStart.toNat + s.heap.used.toNat

namespace BumpInv

variable {heapStart heapSize : UInt32} {s : BumpState}

theorem toNat_top (h : BumpInv heapStart heapSize s)
    (hregion : BumpRegion heapStart heapSize) :
    (s.heap.start + s.heap.used).toNat =
      heapStart.toNat + s.heap.used.toNat := by
  have hused := h.bounded
  have hend := hregion.fits
  rw [UInt32.toNat_add, h.start]
  omega

theorem grow (h : BumpInv heapStart heapSize s)
    (hregion : BumpRegion heapStart heapSize) {r size : UInt32} {n : Nat}
    (hsum : (s.heap.used + r).toNat = s.heap.used.toNat + n)
    (hsize : size.toNat ≤ n) (hn : 8 ∣ n)
    (hfits : s.heap.used.toNat + n ≤ heapSize.toNat) :
    BumpInv heapStart heapSize
      { heap := { s.heap with used := s.heap.used + r }
        results := (s.heap.start + s.heap.used, size) :: s.results } where
  start := h.start
  size := h.size
  bounded := by
    show (s.heap.used + r).toNat ≤ heapSize.toNat
    rw [hsum]
    exact hfits
  aligned := by
    show 8 ∣ (s.heap.used + r).toNat
    rw [hsum]
    exact Nat.dvd_add h.aligned hn
  below := by
    show forall q, q ∈ (s.heap.start + s.heap.used, size) :: s.results ->
      q.1.toNat + q.2.toNat ≤ heapStart.toNat + (s.heap.used + r).toNat
    intro q hq
    rw [hsum]
    rcases List.mem_cons.mp hq with hq | hq
    · rw [hq]
      show (s.heap.start + s.heap.used).toNat + size.toNat ≤ _
      rw [h.toNat_top hregion]
      omega
    · have hbelow := h.below q hq
      omega

theorem goodResult_top (h : BumpInv heapStart heapSize s)
    (hregion : BumpRegion heapStart heapSize) {size : UInt32}
    (hfits : s.heap.used.toNat + size.toNat ≤ heapSize.toNat) :
    GoodResult s size (some (s.heap.start + s.heap.used)) := by
  have htop := h.toNat_top hregion
  refine ⟨?_, ?_, ?_⟩
  · rw [htop, h.start]
    exact Nat.le_add_right _ _
  · rw [htop, h.start, h.size]
    omega
  · intro q hq
    have hbelow := h.below q hq
    rw [Set.disjoint_left]
    intro x hx hx'
    have hlt := hx.right
    have hge := hx'.left
    change (s.heap.start + s.heap.used).toNat ≤ x at hge
    rw [htop] at hge
    omega

theorem kmalloc_fits (h : BumpInv heapStart heapSize s)
    (hregion : BumpRegion heapStart heapSize) (size : UInt32)
    (hnowrap : NoWrap s (BumpOp.kmalloc size)) :
    SoundCall s (BumpOp.kmalloc size) ∧
      BumpInv heapStart heapSize (s.exec (BumpOp.kmalloc size)) := by
  let r := (size + 7) &&& ~~~7
  change (size.toNat + 7) / 8 * 8 + s.heap.used.toNat < 2 ^ 32 at hnowrap
  have hround : r.toNat = (size.toNat + 7) / 8 * 8 := by
    rw [toNat_round]
    omega
  have hsum : (s.heap.used + r).toNat =
      s.heap.used.toNat + (size.toNat + 7) / 8 * 8 := by
    rw [UInt32.toNat_add, hround]
    omega
  by_cases hlimit : s.heap.size < s.heap.used + r
  · have hresult : s.heap.kmalloc size = (none, s.heap) := if_pos hlimit
    have hexec : s.exec (BumpOp.kmalloc size) = s := by
      unfold BumpState.exec
      simp only [hresult]
    rw [hexec]
    refine ⟨⟨?_, ?_, ?_⟩, h⟩
    · intro size' hsize
      cases hsize
      rw [hresult]
      exact congrArg Prod.snd hresult
    · rw [hexec]
    · rw [hexec, h.size]
      exact h.bounded
  · have hresult : s.heap.kmalloc size =
        (some (s.heap.start + s.heap.used),
          { s.heap with used := s.heap.used + r }) := if_neg hlimit
    have hexec : s.exec (BumpOp.kmalloc size) =
        { heap := { s.heap with used := s.heap.used + r }
          results := (s.heap.start + s.heap.used, size) :: s.results } := by
      unfold BumpState.exec
      simp only [hresult]
    have hfits : s.heap.used.toNat + (size.toNat + 7) / 8 * 8 ≤
        heapSize.toNat := by
      rw [UInt32.not_lt, UInt32.le_iff_toNat_le, h.size, hsum] at hlimit
      exact hlimit
    have hsize : size.toNat ≤ (size.toNat + 7) / 8 * 8 := by omega
    have hgrown := h.grow hregion hsum hsize (Nat.dvd_mul_left 8 _) hfits
    rw [hexec]
    refine ⟨⟨?_, ?_, ?_⟩, hgrown⟩
    · intro size' hsize'
      cases hsize'
      rw [hresult]
      exact h.goodResult_top hregion (by omega)
    · rw [hexec]
      show s.heap.used.toNat ≤ (s.heap.used + r).toNat
      omega
    · rw [hexec, hgrown.size]
      exact hgrown.bounded

/-- The first sum that wraps lets a request reach beyond the heap. -/
theorem kmalloc_wraps (h : BumpInv heapStart heapSize s)
    (hregion : BumpRegion heapStart heapSize) (size : UInt32)
    (hwrap : ¬ NoWrap s (BumpOp.kmalloc size)) :
    ¬ SoundCall s (BumpOp.kmalloc size) := by
  intro hsound
  let r := (size + 7) &&& ~~~7
  change ¬ (size.toNat + 7) / 8 * 8 + s.heap.used.toNat < 2 ^ 32 at hwrap
  have hlt := size.toNat_lt
  have hused := h.bounded
  have haligned := h.aligned
  have hend := hregion.fits
  have hnonnull := hregion.nonnull
  have hround : r.toNat = (size.toNat + 7) % 2 ^ 32 / 8 * 8 :=
    toNat_round size
  have hsum : (s.heap.used + r).toNat ≤ s.heap.used.toNat := by
    rw [UInt32.toNat_add, hround]
    omega
  have hlimit : ¬ s.heap.size < s.heap.used + r := by
    rw [UInt32.not_lt, UInt32.le_iff_toNat_le, h.size]
    omega
  have hresult : s.heap.kmalloc size =
      (some (s.heap.start + s.heap.used),
        { s.heap with used := s.heap.used + r }) := if_neg hlimit
  have hgood := hsound.result size rfl
  rw [hresult] at hgood
  have hinside := hgood.right.left
  rw [UInt32.toNat_add, h.start, h.size] at hinside
  have hstart := hregion.aligned
  omega

theorem step (h : BumpInv heapStart heapSize s)
    (hregion : BumpRegion heapStart heapSize) (o : BumpOp) :
    (SoundCall s o <-> NoWrap s o) ∧
      (NoWrap s o -> BumpInv heapStart heapSize (s.exec o)) := by
  cases o with
  | kmalloc size =>
      constructor
      · constructor
        · intro hsound
          by_contra hwrap
          exact h.kmalloc_wraps hregion size hwrap hsound
        · intro hnowrap
          exact (h.kmalloc_fits hregion size hnowrap).left
      · intro hnowrap
        exact (h.kmalloc_fits hregion size hnowrap).right
  | kfree ptr =>
      refine ⟨⟨fun _ => trivial, fun _ => ?_⟩, fun _ => h⟩
      refine ⟨?_, Nat.le_refl _, ?_⟩
      · intro size hsize
        cases hsize
      · show s.heap.used.toNat ≤ s.heap.size.toNat
        rw [h.size]
        exact h.bounded

end BumpInv

/-!
# Runs
-/

/--
Every call of a run is sound if and only if no request of the run wraps: up to
the first one that does, all calls are sound, and that one is not.
-/
theorem bump_sound_iff {heapStart heapSize : UInt32}
    (hregion : BumpRegion heapStart heapSize) (ops : List BumpOp) :
    Meets BumpState.exec SoundCall (BumpState.start heapStart heapSize) ops <->
      Meets BumpState.exec NoWrap (BumpState.start heapStart heapSize)
        ops := by
  have hstart : BumpInv heapStart heapSize
      (BumpState.start heapStart heapSize) := by
    refine ⟨rfl, rfl, Nat.zero_le _, Nat.dvd_zero 8, ?_⟩
    intro r hr
    cases hr
  generalize BumpState.start heapStart heapSize = s at hstart ⊢
  induction ops generalizing s with
  | nil => exact Iff.rfl
  | cons o ops ih =>
      rcases hstart.step hregion o with ⟨hiff, hinv⟩
      rw [meets_cons, meets_cons, hiff]
      exact and_congr_right fun hnowrap => ih _ (hinv hnowrap)

theorem staticHeap_region : BumpRegion 0x100000 0x80000 := by
  constructor <;> decide

theorem bump_sound_iff_staticHeap :
    Meets BumpState.exec SoundCall (BumpState.start 0x100000 0x80000)
        [BumpOp.kmalloc 100, BumpOp.kmalloc 0xFFFFFFFF] <->
      Meets BumpState.exec NoWrap (BumpState.start 0x100000 0x80000)
        [BumpOp.kmalloc 100, BumpOp.kmalloc 0xFFFFFFFF] :=
  bump_sound_iff staticHeap_region _

/--
After a request of 100 bytes, one of nearly 4 GB moves the counter back to 0
and the next one is answered with the first block again.
-/
theorem bump_reuses_memory :
    (run BumpState.exec (BumpState.start 0x100000 0x80000)
        [BumpOp.kmalloc 100, BumpOp.kmalloc 0xFFFFFF98,
          BumpOp.kmalloc 100]).results =
        [(0x100000, 100), (0x100068, 0xFFFFFF98), (0x100000, 100)] ∧
      ¬ Meets BumpState.exec SoundCall (BumpState.start 0x100000 0x80000)
        [BumpOp.kmalloc 100, BumpOp.kmalloc 0xFFFFFF98,
          BumpOp.kmalloc 100] := by
  refine ⟨by decide, ?_⟩
  intro hmeets
  have hgood := hmeets.right.right.left.result 100 rfl
  have hdisjoint := hgood.right.right (0x100000, 100) (by decide)
  rw [Set.disjoint_left] at hdisjoint
  exact hdisjoint (a := 0x100000) ⟨by decide, by decide⟩
    ⟨by decide, by decide⟩

end Mm
end EarlnuxOS
