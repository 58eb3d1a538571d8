import EarlnuxOS.Foundation.Run
import EarlnuxOS.Mm.Pmm.InitSpec
import EarlnuxOS.Mm.Pmm.AllocSpec
import EarlnuxOS.Mm.Pmm.FreeSpec

/-!
# The kernel image

`pmm_init` reserves the frames of the kernel image in their descriptors, after
the same frames have been put on the free lists; `buddy_alloc` reads only the
lists.  What keeps the image from being handed out is a memory map in which no
usable entry holds its frames: then no list, link or free mark ever names one.

The invariant asks nothing of the shape of the lists, so it also holds for maps
on which `pmm_init` builds lists that are not well formed.
-/

namespace EarlnuxOS
namespace Mm

open Foundation

/--
Every list head and every link names a known page that is not below `lo`, and
no page below `lo` is marked free.
-/
structure Above (lo totalPageFrames : Nat) (z : Zoned) : Prop where
  heads : forall k p, z.zone.freeList k = some p ->
    lo ≤ p ∧ p < totalPageFrames
  links : forall x p, z.next x = some p -> lo ≤ p ∧ p < totalPageFrames
  marks : forall x, (z.page x).isFree = true -> lo ≤ x

namespace Above

variable {lo totalPageFrames : Nat} {z : Zoned}

/-!
# The list edits
-/

theorem modify (h : Above lo totalPageFrames z) (pfn : Nat)
    (f : Page -> Page)
    (hnext : forall p, (f (z.page pfn)).next = some p ->
      lo ≤ p ∧ p < totalPageFrames)
    (hmark : (f (z.page pfn)).isFree = true -> lo ≤ pfn) :
    Above lo totalPageFrames (z.modify pfn f) where
  heads := h.heads
  links := by
    intro x p hp
    unfold Zoned.next at hp
    rw [Zoned.page_modify] at hp
    by_cases hx : x = pfn
    · rw [if_pos hx] at hp
      exact hnext p hp
    · rw [if_neg hx] at hp
      exact h.links x p hp
  marks := by
    intro x hfree
    rw [Zoned.page_modify] at hfree
    by_cases hx : x = pfn
    · rw [if_pos hx] at hfree
      rw [hx]
      exact hmark hfree
    · rw [if_neg hx] at hfree
      exact h.marks x hfree

theorem touch (h : Above lo totalPageFrames z) (pfn : Nat) :
    Above lo totalPageFrames (z.touch pfn) :=
  ⟨h.heads, h.links, h.marks⟩

theorem setPrev (h : Above lo totalPageFrames z) (p back : Option Nat) :
    Above lo totalPageFrames (z.setPrev p back) := by
  cases p with
  | none => exact h
  | some q => exact h.modify q _ (h.links q) (h.marks q)

theorem setFreeList (h : Above lo totalPageFrames z) (order : Nat)
    (head : Option Nat)
    (hhead : forall p, head = some p -> lo ≤ p ∧ p < totalPageFrames) :
    Above lo totalPageFrames (z.setFreeList order head) where
  heads := by
    intro k p hp
    unfold Zoned.setFreeList at hp
    simp only [Function.update_apply] at hp
    by_cases hk : k = order
    · rw [if_pos hk] at hp
      exact hhead p hp
    · rw [if_neg hk] at hp
      exact h.heads k p hp
  links := h.links
  marks := h.marks

theorem countUp (h : Above lo totalPageFrames z) (order : Nat) :
    Above lo totalPageFrames (z.countUp order) :=
  ⟨h.heads, h.links, h.marks⟩

theorem countDown (h : Above lo totalPageFrames z) (order : Nat) :
    Above lo totalPageFrames (z.countDown order) :=
  ⟨h.heads, h.links, h.marks⟩

theorem push (h : Above lo totalPageFrames z) {pfn : Nat} (order : Nat)
    (hlo : lo ≤ pfn) (hknown : pfn < totalPageFrames) :
    Above lo totalPageFrames (z.pushFree pfn order) := by
  have hmodify := h.modify pfn
    (fun p =>
      { p with
          flags := pageFlagFree, order := order
          next := z.zone.freeList order, prev := none })
    (h.heads order) (fun _ => hlo)
  have hprev := hmodify.setPrev (z.zone.freeList order) (some pfn)
  apply (hprev.setFreeList order (some pfn) _).countUp
  intro p hp
  cases hp
  exact ⟨hlo, hknown⟩

theorem pop (h : Above lo totalPageFrames z) (pfn order : Nat) :
    Above lo totalPageFrames (z.popFree pfn order) := by
  have hlist := (h.touch pfn).setFreeList order (z.next pfn)
    (h.links pfn)
  exact (hlist.setPrev (z.next pfn) none).countDown order

theorem unlink (h : Above lo totalPageFrames z) (pfn order : Nat) :
    Above lo totalPageFrames (z.unlinkFree pfn order) := by
  unfold Zoned.unlinkFree
  cases hprev : (z.page pfn).prev with
  | none =>
      simp only [hprev]
      apply countDown
      apply setPrev
      exact h.setFreeList order _ (h.links pfn)
  | some q =>
      simp only [hprev]
      apply countDown
      apply setPrev
      exact h.modify q (fun d => { d with next := z.next pfn })
        (h.links pfn) (h.marks q)

/-!
# The buddy functions
-/

theorem freeRange {endPfn : Nat} (pfn : Nat)
    (h : Above lo totalPageFrames z) (hlo : lo ≤ pfn)
    (hend : endPfn ≤ totalPageFrames) :
    Above lo totalPageFrames (buddyFreeRange z pfn endPfn) := by
  induction pfn using range_induction endPfn generalizing z with
  | done pfn hle =>
      rw [buddyFreeRange_of_le z hle]
      exact h
  | step pfn hlt ih =>
      rw [buddyFreeRange_of_lt z hlt]
      apply ih (h.push _ hlo (Nat.lt_of_lt_of_le hlt hend))
      exact Nat.le_add_right_of_le hlo

theorem splitDown (h : Above lo totalPageFrames z) {p : Nat} (hp : lo ≤ p)
    (order found : Nat) :
    Above lo totalPageFrames (splitDown totalPageFrames p order z found) := by
  induction found generalizing z with
  | zero => exact h
  | succ found ih =>
      unfold Mm.splitDown
      by_cases hlt : order < found + 1
      · simp only [if_pos hlt]
        apply ih
        by_cases hvalid : p + (1 <<< found) < totalPageFrames
        · rw [if_pos hvalid]
          exact h.push _ (Nat.le_add_right_of_le hp) hvalid
        · rw [if_neg hvalid]
          exact h
      · rw [if_neg hlt]
        exact h

theorem handOut (h : Above lo totalPageFrames z) (p order : Nat) :
    Above lo totalPageFrames (handOut z p order) := by
  apply h.modify p _ (h.links p)
  intro hfree
  have hclear := isFree_handOut (z.page p)
  unfold Page.isFree at hfree hclear
  rw [hclear] at hfree
  cases hfree

theorem alloc (h : Above lo totalPageFrames z) (order : Nat) :
    Above lo totalPageFrames (buddyAlloc totalPageFrames z order).2 ∧
      ((buddyAlloc totalPageFrames z order).1 = 0 ∨
        exists p, lo ≤ p ∧ p < totalPageFrames ∧
          (buddyAlloc totalPageFrames z order).1 = pfnToPhys p) := by
  unfold buddyAlloc
  by_cases hmax : pmmMaxOrder < foundOrder z.zone order
  · simp only [if_pos hmax]
    exact ⟨h, Or.inl trivial⟩
  · cases hhead : z.zone.freeList (foundOrder z.zone order) with
    | none =>
        simp only [if_neg hmax, hhead]
        exact ⟨h, Or.inl trivial⟩
    | some p =>
        simp only [if_neg hmax, hhead]
        rcases h.heads _ p hhead with ⟨hlo, hknown⟩
        constructor
        · exact ((h.pop p _).splitDown hlo order _).handOut p order
        · exact Or.inr ⟨p, hlo, hknown, rfl⟩

theorem merge {pfn order : Nat} (h : Above lo totalPageFrames z)
    (hlo : lo ≤ pfn) (hknown : pfn < totalPageFrames) :
    Above lo totalPageFrames (mergeUp totalPageFrames z pfn order).2.2 ∧
      lo ≤ (mergeUp totalPageFrames z pfn order).1 ∧
      (mergeUp totalPageFrames z pfn order).1 < totalPageFrames := by
  induction hsteps : pmmMaxOrder - order generalizing z pfn order with
  | zero =>
      rw [mergeUp, if_neg (by omega)]
      exact ⟨h, hlo, hknown⟩
  | succ n ih =>
      rw [mergeUp, if_pos (by omega)]
      by_cases hvalid : buddyPfn pfn order < totalPageFrames
      · simp only [if_pos hvalid]
        split
        · exact ⟨h.touch _, hlo, hknown⟩
        · rename_i hbuddy
          rw [not_or, Bool.not_eq_false] at hbuddy
          have hmark := h.marks _ hbuddy.left
          have hunlink := (h.touch (buddyPfn pfn order)).unlink
            (buddyPfn pfn order) order
          have hclear := hunlink.modify (buddyPfn pfn order)
            (fun d => { d with flags := 0 })
            (hunlink.links (buddyPfn pfn order)) (fun _ => hmark)
          apply ih hclear
          · split <;> assumption
          · split <;> assumption
          · omega
      · simp only [if_neg hvalid]
        exact ⟨h, hlo, hknown⟩

theorem free (h : Above lo totalPageFrames z) {phys : Nat} (order : Nat)
    (hlo : lo ≤ physToPfn phys) :
    Above lo totalPageFrames (buddyFree totalPageFrames z phys order) := by
  unfold buddyFree
  by_cases hknown : physToPfn phys < totalPageFrames
  · simp only [if_pos hknown]
    have hcount := h.modify (physToPfn phys)
      (fun d => { d with refCount := 0 }) (h.links _) (h.marks _)
    rcases hcount.merge hlo hknown with
      ⟨hmerged, hstart, hend⟩
    exact hmerged.push _ hstart hend
  · simp only [if_neg hknown]
    exact h

theorem mono (h : Above lo totalPageFrames z) {known : Nat}
    (hle : totalPageFrames ≤ known) : Above lo known z where
  heads := by
    intro k p hp
    rcases h.heads k p hp with ⟨hlo, hlt⟩
    exact ⟨hlo, Nat.lt_of_lt_of_le hlt hle⟩
  links := by
    intro x p hp
    rcases h.links x p hp with ⟨hlo, hlt⟩
    exact ⟨hlo, Nat.lt_of_lt_of_le hlt hle⟩
  marks := h.marks

end Above

/-!
# All three zones
-/

namespace Pmm

def AllAbove (lo : Nat) (s : Pmm) : Prop :=
  forall id, Above lo s.totalPageFrames (s.zoned id)

theorem boot_allAbove (lo : Nat) : boot.initZones.AllAbove lo := by
  intro id
  have hzone : (boot.initZones.zones id).freeList = fun _ => none := by
    cases id <;> rfl
  constructor
  · intro k p hp
    unfold zoned at hp
    rw [hzone] at hp
    cases hp
  · intro x p hp
    cases hp
  · intro x hfree
    change ((0 : UInt32) &&& pageFlagFree != 0) = true at hfree
    exact absurd hfree (by decide)

namespace AllAbove

variable {lo : Nat} {s : Pmm}

theorem put (h : s.AllAbove lo) (id : ZoneId) {z : Zoned}
    (hz : Above lo s.totalPageFrames z) : (s.put id z).AllAbove lo := by
  intro id'
  constructor
  · intro k p hp
    unfold Pmm.put zoned at hp
    simp only [Function.update_apply] at hp
    by_cases hid : id' = id
    · rw [if_pos hid] at hp
      exact hz.heads k p hp
    · rw [if_neg hid] at hp
      exact (h id').heads k p hp
  · exact hz.links
  · exact hz.marks

theorem extend (h : s.AllAbove lo) (stop : UInt32) (pfnEnd : Nat) :
    (s.extend stop pfnEnd).AllAbove lo := by
  intro id
  apply (h id).mono
  show s.totalPageFrames ≤
    if s.totalPageFrames < pfnEnd then pfnEnd else s.totalPageFrames
  split
  · rename_i hlt
    exact Nat.le_of_lt hlt
  · exact Nat.le_refl _

theorem freeRange (h : s.AllAbove lo) (id : ZoneId) {pfn endPfn : Nat}
    (hlo : lo ≤ pfn) (hend : endPfn ≤ s.totalPageFrames) :
    (s.freeRange id pfn endPfn).AllAbove lo :=
  h.put id ((h id).freeRange pfn hlo hend)

theorem modifyPage (h : s.AllAbove lo) (pfn : Nat) (f : Page -> Page)
    (hnext : forall p, (f (s.pages.page pfn)).next = some p ->
      lo ≤ p ∧ p < s.totalPageFrames)
    (hmark : (f (s.pages.page pfn)).isFree = true -> lo ≤ pfn) :
    (s.setPages (s.pages.modify pfn f)).AllAbove lo := by
  intro id
  exact (h id).modify pfn f hnext hmark

theorem markUsable (h : s.AllAbove lo) {pfn : Nat} (hlo : lo ≤ pfn)
    (count : Nat) :
    (s.setPages (markUsable s.pages pfn count)).AllAbove lo := by
  induction count generalizing s pfn with
  | zero => exact h
  | succ count ih =>
      have hone := h.modifyPage pfn
        (fun p =>
          { p with
              flags := pageFlagFree, refCount := 0, next := none
              prev := none })
        (by
          intro p hp
          cases hp)
        (fun _ => hlo)
      exact ih hone (Nat.le_succ_of_le hlo)

theorem markKernel (h : s.AllAbove lo) (pfn count : Nat) :
    (s.setPages (markKernel s.pages pfn count)).AllAbove lo := by
  induction count generalizing s pfn with
  | zero => exact h
  | succ count ih =>
      have hone := h.modifyPage pfn
        (fun p =>
          { p with
              flags := pageFlagKernel ||| pageFlagReserved, refCount := 1 })
        ((h ZoneId.dma).links pfn)
        (by
          intro hfree
          change ((pageFlagKernel ||| pageFlagReserved) &&& pageFlagFree != 0) =
            true at hfree
          exact absurd hfree (by decide))
      exact ih hone (pfn + 1)

theorem reserveKernel (h : s.AllAbove lo) : s.reserveKernel.AllAbove lo := by
  unfold Pmm.reserveKernel
  exact h.markKernel _ _

theorem setReady (h : s.AllAbove lo) (ready : Bool) :
    ({ s with ready := ready } : Pmm).AllAbove lo :=
  fun id => h id

theorem addSpanning (h : s.AllAbove lo) {pfnStart pfnEnd : Nat}
    (hlo : lo ≤ pfnStart) (hend : pfnEnd ≤ s.totalPageFrames) :
    (s.addSpanning pfnStart pfnEnd).AllAbove lo := by
  rw [Pmm.addSpanning_eq]
  split
  · apply h.freeRange
    · exact Nat.le_trans hlo (Nat.le_max_left _ _)
    · exact Nat.le_trans (Nat.min_le_left _ _) hend
  · exact h

theorem addTotal (h : s.AllAbove lo) (id : ZoneId) (pages : Nat) :
    (s.addTotal id pages).AllAbove lo := by
  exact h.put id (z := { s.zoned id with
      zone :=
        { s.zones id with
            totalPages := (s.zones id).totalPages + UInt32.ofNat pages } })
    ⟨(h id).heads, (h id).links, (h id).marks⟩

theorem addPages (h : s.AllAbove lo) {start stop : UInt32}
    (hlo : lo ≤ physToPfn start.toNat) :
    (s.addPages start stop).AllAbove lo := by
  have hend : physToPfn stop.toNat ≤
      (s.extend stop (physToPfn stop.toNat)).totalPageFrames := by
    show physToPfn stop.toNat ≤
      if s.totalPageFrames < physToPfn stop.toNat then physToPfn stop.toNat
      else s.totalPageFrames
    split <;> omega
  have hmarked := (h.extend stop (physToPfn stop.toNat)).markUsable hlo
    (min (physToPfn stop.toNat) pageArraySize - physToPfn start.toNat)
  have hfit : (if (s.zones (selectZone start)).endPfn < physToPfn stop.toNat
      then (s.zones (selectZone start)).endPfn else physToPfn stop.toNat) ≤
      (s.extend stop (physToPfn stop.toNat)).totalPageFrames := by
    refine Nat.le_trans ?_ hend
    split
    · rename_i hlt
      exact Nat.le_of_lt hlt
    · exact Nat.le_refl _
  exact ((hmarked.freeRange (selectZone start) hlo hfit).addSpanning hlo
    hend).addTotal _ _

end AllAbove

end Pmm

/-!
# Runs
-/

/-- The manager and the blocks its callers hold, by address and order. -/
structure PmmState where
  pmm : Pmm
  live : List (Nat × Nat)

inductive PmmOp where
  | allocPage
  | allocPages (order : Nat)
  | freePage (phys : Nat)
  | freePages (phys order : Nat)
deriving DecidableEq

namespace PmmState

def start (map : List MemMapEntry) : PmmState :=
  { pmm := Pmm.boot.pmmInit map, live := [] }

/-- Record the result of a request for a block of the given order. -/
def receive (s : PmmState) (order : Nat) (result : Nat × Pmm) : PmmState :=
  { pmm := result.2
    live := if result.1 = 0 then s.live else (result.1, order) :: s.live }

def exec (s : PmmState) : PmmOp -> PmmState
  | PmmOp.allocPage => s.receive 0 s.pmm.pmmAllocPage
  | PmmOp.allocPages order => s.receive order (s.pmm.pmmAllocPages order)
  | PmmOp.freePage phys =>
      { pmm := s.pmm.pmmFreePage (UInt32.ofNat phys)
        live := s.live.erase (phys, 0) }
  | PmmOp.freePages phys order =>
      { pmm := s.pmm.pmmFreePages (UInt32.ofNat phys) order
        live := s.live.erase (phys, order) }

def Valid (s : PmmState) : PmmOp -> Prop
  | PmmOp.allocPage => True
  | PmmOp.allocPages _ => True
  | PmmOp.freePage phys => (phys, 0) ∈ s.live
  | PmmOp.freePages phys order => (phys, order) ∈ s.live

def ReachableFrom (map : List MemMapEntry) (s : PmmState) : Prop :=
  Reachable exec Valid (start map) s

end PmmState

/-- The block has no byte in common with the kernel image. -/
def AvoidsKernel (phys order : Nat) : Prop :=
  Disjoint (Set.Ico phys (phys + 2 ^ order * 4096))
    (Set.Ico 0x100000 0x200000)

/-- Every entry that is used starts behind the kernel image. -/
def KeepsKernel (map : List MemMapEntry) : Prop :=
  forall e, e ∈ map -> e.Taken -> 0x200000 ≤ e.start.toNat

theorem avoidsKernel_of_le {phys order : Nat} (h : 0x200000 ≤ phys) :
    AvoidsKernel phys order := by
  unfold AvoidsKernel
  rw [Set.disjoint_left]
  intro x hx hkernel
  exact Nat.lt_irrefl x
    (Nat.lt_of_lt_of_le hkernel.right (Nat.le_trans h hx.left))

/-- What `pmm_init` and the page functions keep true. -/
structure Pmm.SparesKernel (s : Pmm) : Prop where
  above : s.AllAbove 512
  known : s.totalPageFrames < 2 ^ 20

namespace Pmm.SparesKernel

variable {s : Pmm}

theorem addEntry (h : s.SparesKernel) {e : MemMapEntry}
    (he : e.Taken -> 0x200000 ≤ e.start.toNat) :
    (s.addEntry e).SparesKernel := by
  by_cases htaken : e.Taken
  · rw [Pmm.addEntry_taken s htaken]
    have hlo : 512 ≤ physToPfn e.start.toNat := by
      have hstart := he htaken
      rw [physToPfn_eq]
      omega
    refine ⟨h.above.addPages hlo, ?_⟩
    have hstop := e.stop.toNat_lt
    have hknown := h.known
    rw [Pmm.addPages_totalPageFrames, physToPfn_eq]
    split <;> omega
  · rw [Pmm.addEntry_skipped s htaken]
    exact h

theorem init {map : List MemMapEntry} (hmap : KeepsKernel map) :
    (Pmm.boot.pmmInit map).SparesKernel := by
  have hfold : forall s : Pmm, s.SparesKernel ->
      (map.foldl Pmm.addEntry s).SparesKernel := by
    induction map with
    | nil =>
        intro s hs
        exact hs
    | cons e map ih =>
        intro s hs
        apply ih (fun e' he' => hmap e' (List.mem_cons_of_mem e he'))
        exact hs.addEntry (hmap e List.mem_cons_self)
  have hentries := hfold Pmm.boot.initZones
    ⟨Pmm.boot_allAbove 512, by decide⟩
  exact ⟨hentries.above.reserveKernel.setReady true, hentries.known⟩

theorem allocPages (h : s.SparesKernel) (order : Nat) :
    (s.pmmAllocPages order).2.SparesKernel ∧
      ((s.pmmAllocPages order).1 = 0 ∨
        0x200000 ≤ (s.pmmAllocPages order).1 ∧
          (s.pmmAllocPages order).1 < 2 ^ 32) := by
  have haddress : forall phys,
      (phys = 0 ∨ exists p, 512 ≤ p ∧ p < s.totalPageFrames ∧
        phys = pfnToPhys p) ->
      phys = 0 ∨ 0x200000 ≤ phys ∧ phys < 2 ^ 32 := by
    intro phys hphys
    rcases hphys with hzero | ⟨p, hlo, hlt, hp⟩
    · exact Or.inl hzero
    · have hknown := h.known
      rw [hp, pfnToPhys_eq (by omega)]
      exact Or.inr (by omega)
  rcases (h.above ZoneId.normal).alloc order with ⟨hnormal, hresult⟩
  have hput := h.above.put ZoneId.normal hnormal
  rcases (hput ZoneId.dma).alloc order with ⟨hdma, hresult'⟩
  have hput' := hput.put ZoneId.dma hdma
  unfold Pmm.pmmAllocPages
  by_cases hready : s.ready = false
  · rw [if_pos hready]
    exact ⟨h, Or.inl rfl⟩
  · rw [if_neg hready]
    dsimp only
    split
    · exact ⟨⟨hput', h.known⟩, haddress _ hresult'⟩
    · exact ⟨⟨hput, h.known⟩, haddress _ hresult⟩

theorem freePages (h : s.SparesKernel) {phys : UInt32} (order : Nat)
    (hphys : 0x200000 ≤ phys.toNat) :
    (s.pmmFreePages phys order).SparesKernel := by
  unfold Pmm.pmmFreePages
  by_cases hskip : s.ready = false ∨ phys = 0
  · rw [if_pos hskip]
    exact h
  · rw [if_neg hskip]
    refine ⟨h.above.put _ ((h.above _).free order ?_), h.known⟩
    rw [physToPfn_eq]
    omega

end Pmm.SparesKernel

/-- The invariant of a run: what callers hold lies behind the kernel image. -/
structure PmmState.SparesKernel (s : PmmState) : Prop where
  pmm : s.pmm.SparesKernel
  live : forall b, b ∈ s.live -> 0x200000 ≤ b.1 ∧ b.1 < 2 ^ 32

theorem PmmState.SparesKernel.receive {s : PmmState} (h : s.SparesKernel)
    (order : Nat) : (s.receive order (s.pmm.pmmAllocPages order)).SparesKernel
    := by
  rcases h.pmm.allocPages order with ⟨hpmm, hresult⟩
  refine ⟨hpmm, ?_⟩
  intro b hb
  unfold PmmState.receive at hb
  dsimp only at hb
  split at hb
  · exact h.live b hb
  · rename_i hne
    rcases List.mem_cons.mp hb with hb | hb
    · rw [hb]
      rcases hresult with hzero | hbound
      · exact absurd hzero hne
      · exact hbound
    · exact h.live b hb

theorem PmmState.SparesKernel.release {s : PmmState} (h : s.SparesKernel)
    {phys order : Nat} (hlive : (phys, order) ∈ s.live) :
    PmmState.SparesKernel
      { pmm := s.pmm.pmmFreePages (UInt32.ofNat phys) order
        live := s.live.erase (phys, order) } := by
  rcases h.live _ hlive with ⟨hlo, hlt⟩
  constructor
  · apply h.pmm.freePages
    rw [UInt32.toNat_ofNat_of_lt' hlt]
    exact hlo
  · intro b hb
    exact h.live b (List.mem_of_mem_erase hb)

theorem PmmState.SparesKernel.step {s : PmmState} (h : s.SparesKernel)
    (o : PmmOp) (hvalid : s.Valid o) : (s.exec o).SparesKernel := by
  cases o with
  | allocPage => exact h.receive 0
  | allocPages order => exact h.receive order
  | freePage phys => exact h.release hvalid
  | freePages phys order => exact h.release hvalid

/--
On a memory map that leaves out the kernel image, no request in any run is
answered with a block that overlaps the image, and nobody holds such a block.
-/
theorem pmm_alloc_avoids_kernel {map : List MemMapEntry} {s : PmmState}
    (hmap : KeepsKernel map) (hreach : PmmState.ReachableFrom map s) :
    (forall order, (s.pmm.pmmAllocPages order).1 ≠ 0 ->
        AvoidsKernel (s.pmm.pmmAllocPages order).1 order) ∧
      forall b, b ∈ s.live -> AvoidsKernel b.1 b.2 := by
  have hspares : s.SparesKernel := by
    apply Reachable.invariant hreach
    · exact ⟨Pmm.SparesKernel.init hmap, fun b hb => absurd hb List.not_mem_nil⟩
    · intro s o h hvalid
      exact h.step o hvalid
  constructor
  · intro order hne
    rcases (hspares.pmm.allocPages order).right with hzero | ⟨hlo, _⟩
    · exact absurd hzero hne
    · exact avoidsKernel_of_le hlo
  · intro b hb
    exact avoidsKernel_of_le (hspares.live b hb).left

def twoPageMap : List MemMapEntry :=
  [{ base := 0x200000, length := 0x2000, type := memtypeUsable }]

/-- The pair of pages is split, comes together again and is handed out whole. -/
def splitAndJoin : List PmmOp :=
  [PmmOp.allocPage, PmmOp.allocPage, PmmOp.freePage 0x200000,
    PmmOp.freePage 0x201000, PmmOp.allocPages 1]

theorem splitAndJoin_valid :
    Meets PmmState.exec PmmState.Valid (PmmState.start twoPageMap)
      splitAndJoin := by
  refine ⟨trivial, trivial, ?_, ?_, trivial, trivial⟩
  · show (0x200000, 0) ∈ PmmState.live _
    decide +kernel
  · show (0x201000, 0) ∈ PmmState.live _
    decide +kernel

theorem pmm_alloc_avoids_kernel_twoPageMap :
    let s := run PmmState.exec (PmmState.start twoPageMap) splitAndJoin
    (forall order, (s.pmm.pmmAllocPages order).1 ≠ 0 ->
        AvoidsKernel (s.pmm.pmmAllocPages order).1 order) ∧
      forall b, b ∈ s.live -> AvoidsKernel b.1 b.2 := by
  have hmap : KeepsKernel twoPageMap := by
    intro e he _
    rw [List.mem_singleton.mp he]
    decide
  exact pmm_alloc_avoids_kernel hmap ⟨splitAndJoin, splitAndJoin_valid, rfl⟩

/-!
# A machine with 16 MB

The only usable entry starts at 1 MB.  Its first free block is the kernel
image, and a request for 1 MB is answered with it.
-/

def smallMachineMap : List MemMapEntry :=
  [{ base := 0x100000, length := 0xF00000, type := memtypeUsable }]

theorem smallMachine_head (z : Zoned) :
    (buddyFreeRange z 256 4096).zone.freeList 8 = some 256 := by
  have hstep : forall (z : Zoned) (pfn order next : Nat), pfn < 4096 ->
      rangeOrder pfn 4096 pmmMaxOrder = order -> pfn + 2 ^ order = next ->
      buddyFreeRange z pfn 4096 =
        buddyFreeRange (z.pushFree pfn order) next 4096 := by
    intro z pfn order next hlt horder hnext
    rw [buddyFreeRange_of_lt z hlt, horder, hnext]
  rw [hstep z 256 8 512 (by decide) (by decide) (by decide),
    hstep _ 512 9 1024 (by decide) (by decide) (by decide),
    hstep _ 1024 10 2048 (by decide) (by decide) (by decide),
    hstep _ 2048 11 4096 (by decide) (by decide) (by decide),
    buddyFreeRange_of_le _ (Nat.le_refl 4096)]
  simp [Zoned.pushFree_freeList]

theorem buddyAlloc_of_empty {totalPageFrames : Nat} {z : Zoned}
    (h : forall k, z.zone.freeList k = none) (order : Nat) :
    (buddyAlloc totalPageFrames z order).1 = 0 := by
  unfold buddyAlloc
  simp only [h]
  split <;> rfl

theorem buddyAlloc_of_head {totalPageFrames : Nat} {z : Zoned} {order p : Nat}
    (hmax : order ≤ pmmMaxOrder) (h : z.zone.freeList order = some p) :
    (buddyAlloc totalPageFrames z order).1 = pfnToPhys p := by
  have hfound : foundOrder z.zone order = order := by
    rw [foundOrder, if_neg]
    intro hnone
    rw [h] at hnone
    cases hnone.right
  unfold buddyAlloc
  rw [hfound, if_neg (Nat.not_lt_of_le hmax), h]

theorem Pmm.pmmAllocPages_of_dma {s : Pmm} {order p : Nat}
    (hready : s.ready = true)
    (hnormal : forall k, (s.zones ZoneId.normal).freeList k = none)
    (hmax : order ≤ pmmMaxOrder)
    (hdma : (s.zones ZoneId.dma).freeList order = some p) :
    (s.pmmAllocPages order).1 = pfnToPhys p := by
  have hskip : (buddyAlloc s.totalPageFrames (s.zoned ZoneId.normal)
      order).1 = 0 := buddyAlloc_of_empty hnormal order
  unfold Pmm.pmmAllocPages
  rw [if_neg (by simp [hready])]
  simp only [if_pos hskip]
  exact buddyAlloc_of_head hmax hdma

theorem smallMachine_zones :
    ((PmmState.start smallMachineMap).pmm.zones ZoneId.dma).freeList 8 =
        some 256 ∧
      forall k, ((PmmState.start smallMachineMap).pmm.zones
        ZoneId.normal).freeList k = none := by
  unfold PmmState.start smallMachineMap
  dsimp only
  rw [Pmm.pmmInit_zones, List.foldl_cons, List.foldl_nil]
  generalize he : ({ base := 0x100000, length := 0xF00000
                     type := memtypeUsable } : MemMapEntry) = e
  have htaken : e.Taken := by
    rw [← he]
    decide
  have hpages : e.pfnStart = 256 ∧ e.pfnEnd = 4096 := by
    rw [← he]
    decide
  rw [Pmm.addEntry_eq (Pmm.initZones_bounded _) htaken, hpages.left,
    hpages.right]
  have hplaced : Pmm.placements 256 4096 =
      [(ZoneId.dma, 256, 4096), (ZoneId.normal, 4096, 4096)] := by
    decide
  have hranges : forall s : Pmm, s.freeRanges (Pmm.placements 256 4096) =
      s.freeRange ZoneId.dma 256 4096 := by
    intro s
    rw [hplaced, Pmm.freeRanges_cons, Pmm.freeRanges_cons]
    exact Pmm.freeRange_of_le _ ZoneId.normal (Nat.le_refl 4096)
  rw [hranges, Pmm.addTotal_freeList, Pmm.addTotal_freeList,
    Pmm.zones_freeRange, Pmm.zones_freeRange, if_pos rfl, if_neg (by decide)]
  constructor
  · exact smallMachine_head _
  · intro k
    rfl

/-- `pmm_alloc_pages(8)` hands out the whole kernel image. -/
theorem smallMachine_allocates_kernel :
    PmmState.ReachableFrom smallMachineMap (PmmState.start smallMachineMap) ∧
      ((PmmState.start smallMachineMap).pmm.pmmAllocPages 8).1 = 0x100000 ∧
      ¬ AvoidsKernel
        ((PmmState.start smallMachineMap).pmm.pmmAllocPages 8).1 8 := by
  have hresult :
      ((PmmState.start smallMachineMap).pmm.pmmAllocPages 8).1 = 0x100000 :=
    Pmm.pmmAllocPages_of_dma rfl smallMachine_zones.right (by decide)
      smallMachine_zones.left
  refine ⟨Reachable.refl _ _ _, hresult, ?_⟩
  intro havoids
  rw [hresult] at havoids
  unfold AvoidsKernel at havoids
  rw [Set.disjoint_left] at havoids
  exact havoids (a := 0x100000) ⟨by decide, by decide⟩ ⟨by decide, by decide⟩

end Mm
end EarlnuxOS
