import EarlnuxOS.Mm.Vmm.Translation

/-!
# Mapping a range

Both loops map pages that follow one another.  The number of pages is computed
from rounded words, so it need not be the number of pages that the range lies on.
-/

namespace EarlnuxOS
namespace Mm

open Foundation

universe u

/-!
# Pages that follow one another
-/

def pageNumber (address : UInt32) : Nat :=
  address.toNat / 4096

/-- How many pages on from an address another one lies, around the top. -/
def pagesAhead (virt w : UInt32) : Nat :=
  (pageNumber w + 2 ^ 20 - pageNumber virt) % 2 ^ 20

def pageAhead (address : UInt32) (i : Nat) : UInt32 :=
  alignDown address pageSize + UInt32.ofNat i * pageSize

def pageCall (virt phys flags : UInt32) (i : Nat) : MapOp :=
  MapOp.map (pageAhead virt i) (pageAhead phys i) flags

def pageCalls (virt phys flags : UInt32) (n : Nat) : List MapOp :=
  (List.range n).map (pageCall virt phys flags)

def placed (virt phys w : UInt32) : UInt32 :=
  pageAhead phys (pagesAhead virt w) ||| (w &&& 0xFFF)

theorem toNat_pageAhead (address : UInt32) (i : Nat) :
    (pageAhead address i).toNat = (pageNumber address + i) % 2 ^ 20 * 4096 := by
  have hsize : pageSize.toNat = 4096 := by decide
  have hdown := toNat_alignDown address (k := 12) (by decide) hsize
  unfold pageAhead pageNumber
  rw [UInt32.toNat_add, UInt32.toNat_mul, hdown, hsize, UInt32.toNat_ofNat']
  omega

theorem pagesAhead_lt (virt w : UInt32) : pagesAhead virt w < 2 ^ 20 :=
  Nat.mod_lt _ (by decide)

theorem frame_pageAhead (address : UInt32) (i : Nat) :
    frame (pageAhead address i) = pageAhead address i := by
  apply UInt32.toNat_inj.mp
  rw [toNat_frame, toNat_pageAhead]
  omega

theorem frame_eq_pageAhead_iff (virt w : UInt32) {i : Nat} (hi : i < 2 ^ 20) :
    frame w = pageAhead virt i <-> pagesAhead virt w = i := by
  have hv := virt.toNat_lt
  have hw := w.toNat_lt
  rw [← UInt32.toNat_inj, toNat_frame, toNat_pageAhead]
  unfold pagesAhead pageNumber
  omega

theorem toNat_page_or {page : UInt32} (hpage : page.toNat % 4096 = 0)
    (w : UInt32) :
    (page ||| (w &&& 0xFFF)).toNat = page.toNat + w.toNat % 4096 := by
  have hlow : (w &&& 0xFFF).toNat = w.toNat % 4096 := by
    rw [UInt32.toNat_and]
    exact Nat.and_two_pow_sub_one_eq_mod w.toNat 12
  have hsplit : page.toNat = 2 ^ 12 * (page.toNat / 4096) := by omega
  rw [UInt32.toNat_or, hlow, hsplit]
  exact (Nat.two_pow_add_eq_or_of_lt (i := 12)
    (Nat.mod_lt w.toNat (by decide)) _).symm

theorem toNat_placed (virt phys w : UInt32) :
    (placed virt phys w).toNat =
      (pageNumber phys + pagesAhead virt w) % 2 ^ 20 * 4096 +
        w.toNat % 4096 := by
  have hpage := toNat_pageAhead phys (pagesAhead virt w)
  unfold placed
  rw [toNat_page_or (by omega), hpage]

theorem foldl_pageCalls (m : PageMap) (virt phys flags w : UInt32) {n : Nat}
    (hn : n ≤ 2 ^ 20) :
    (pageCalls virt phys flags n).foldl (fun m o => m.step (o, 0)) m (frame w) =
      if pagesAhead virt w < n then
        some (pageAhead phys (pagesAhead virt w))
      else m (frame w) := by
  induction n with
  | zero =>
      rw [if_neg (Nat.not_lt_zero _)]
      rfl
  | succ n ih =>
      have hlt : n < 2 ^ 20 := hn
      unfold pageCalls at ih ⊢
      rw [List.range_succ, List.map_append, List.foldl_append]
      have hstep : forall m : PageMap, m.step (pageCall virt phys flags n, 0) =
          Function.update m (frame (pageAhead virt n))
            (some (frame (pageAhead phys n))) := fun _ => rfl
      rw [List.map_singleton, List.foldl_cons, List.foldl_nil, hstep,
        Function.update_apply, frame_pageAhead, frame_pageAhead]
      have hpage := frame_eq_pageAhead_iff virt w hlt
      by_cases heq : pagesAhead virt w = n
      · rw [if_pos (hpage.mpr heq), if_pos (by omega), heq]
      · rw [if_neg (fun h => heq (hpage.mp h)), ih (Nat.le_of_lt hlt)]
        by_cases hless : pagesAhead virt w < n
        · rw [if_pos hless, if_pos (by omega)]
        · rw [if_neg hless, if_neg (by omega)]

namespace Vmm

variable {alpha : Type u} [PageAllocator alpha] {st : Vmm alpha}
  {dir : UInt32}

def Served (dir : UInt32) (st : Vmm alpha) (o : MapOp) : Prop :=
  FreshFor dir st o ∧ mapResult dir st o = 0

theorem Served.fresh {ops : List MapOp}
    (h : Meets (execMap dir) (Served dir) st ops) :
    Meets (execMap dir) (FreshFor dir) st ops := by
  induction ops generalizing st with
  | nil => exact trivial
  | cons o ops ih => exact ⟨h.left.left, ih h.right⟩

theorem Served.trace {ops : List MapOp} (m : PageMap)
    (h : Meets (execMap dir) (Served dir) st ops) :
    (mapTrace dir st ops).foldl PageMap.step m =
      ops.foldl (fun m o => m.step (o, 0)) m := by
  induction ops generalizing st m with
  | nil => rfl
  | cons o ops ih =>
      show (mapTrace dir (execMap dir st o) ops).foldl PageMap.step
        (m.step (o, mapResult dir st o)) = _
      rw [h.left.right, ih _ h.right]
      rfl

omit [PageAllocator alpha] in
theorem exists_translates (mem : Frames) (dir : UInt32) :
    exists m, Translates mem dir m := by
  refine ⟨fun page =>
    (entryAt mem dir (pdeIndex page) (pteIndex page)).map frame, ?_⟩
  intro virt
  rcases (frame_eq_iff virt (frame virt)).mp (frame_frame virt).symm with
    ⟨hpde, hpte⟩
  rw [hpde, hpte]

theorem vmmVirtToPhys_pageCalls (h : TableInv st.mem dir)
    {virt phys flags : UInt32} {n : Nat} (hn : n ≤ 2 ^ 20)
    (hserved : Meets (execMap dir) (Served dir) st
      (pageCalls virt phys flags n)) (w : UInt32) :
    vmmVirtToPhys
        (run (execMap dir) st (pageCalls virt phys flags n)).mem dir w =
      if pagesAhead virt w < n then placed virt phys w
      else vmmVirtToPhys st.mem dir w := by
  rcases exists_translates st.mem dir with ⟨m, hm⟩
  have hrun := translates_run h hm (Served.fresh hserved)
  rw [hrun.vmmVirtToPhys, hm.vmmVirtToPhys, Served.trace m hserved]
  unfold PageMap.translate
  rw [foldl_pageCalls m virt phys flags w hn]
  by_cases hlt : pagesAhead virt w < n
  · rw [if_pos hlt, if_pos hlt]
    rfl
  · rw [if_neg hlt, if_neg hlt]

/-!
# The loops
-/

def rangePages (size : UInt32) : Nat :=
  (alignUp size pageSize / pageSize).toNat

def identityPages (start stop : UInt32) : Nat :=
  ((alignUp stop pageSize).toNat - (alignDown start pageSize).toNat) / 4096

theorem toNat_alignUp_page (x : UInt32) :
    (alignUp x pageSize).toNat = (x.toNat + 4095) % 2 ^ 32 / 4096 * 4096 :=
  toNat_alignUp x (k := 12) (by decide) (by decide)

theorem toNat_alignDown_page (x : UInt32) :
    (alignDown x pageSize).toNat = x.toNat / 4096 * 4096 :=
  toNat_alignDown x (k := 12) (by decide) (by decide)

theorem rangePages_eq (size : UInt32) :
    rangePages size * 4096 = (alignUp size pageSize).toNat := by
  have hsize : pageSize.toNat = 4096 := by decide
  unfold rangePages
  rw [UInt32.toNat_div, hsize, toNat_alignUp_page]
  omega

theorem rangePages_lt (size : UInt32) : rangePages size < 2 ^ 20 := by
  have heq := rangePages_eq size
  have hlt := (alignUp size pageSize).toNat_lt
  omega

theorem identityPages_lt (start stop : UInt32) :
    identityPages start stop < 2 ^ 20 := by
  have hlt := (alignUp stop pageSize).toNat_lt
  unfold identityPages
  omega

theorem vmmMapRange_eq (st : Vmm alpha) (dir virt phys size flags : UInt32) :
    st.vmmMapRange dir virt phys size flags =
      run (execMap dir) st (pageCalls virt phys flags (rangePages size)) := by
  unfold vmmMapRange run pageCalls
  rw [List.foldl_map]
  rfl

omit [PageAllocator alpha] in
theorem kernelPgdir_foldl_store (l : List (Fin 1024)) (st : Vmm alpha)
    (address word : UInt32) :
    (l.foldl (fun st i => st.store address i word) st).kernelPgdir =
      st.kernelPgdir := by
  induction l generalizing st with
  | nil => rfl
  | cons i l ih => exact ih (st.store address i word)

theorem kernelPgdir_vmmMapPage (st : Vmm alpha)
    (dir virt phys flags : UInt32) :
    (st.vmmMapPage dir virt phys flags).2.kernelPgdir = st.kernelPgdir := by
  have htable : (st.access dir).allocPageTable.2.kernelPgdir =
      st.kernelPgdir := by
    unfold allocPageTable
    dsimp only
    split
    · rfl
    · exact kernelPgdir_foldl_store _ _ _ _
  unfold vmmMapPage
  dsimp only
  split
  · split
    · exact htable
    · exact htable
  · rfl

theorem identityLoop_eq (start : UInt32) {stop : UInt32} (flags : UInt32)
    (steps : Nat) {n i : Nat}
    (hstop : n = 0 ∧ stop.toNat ≤ (alignDown start pageSize).toNat ∨
      (alignDown start pageSize).toNat + n * 4096 = stop.toNat)
    (hi : i ≤ n) (hsteps : n ≤ i + steps) (st : Vmm alpha) :
    identityLoop stop flags steps (pageAhead start i) st =
      run (execMap st.kernelPgdir) st
        ((List.range' i (n - i)).map (pageCall start start flags)) := by
  induction steps generalizing i st with
  | zero =>
      have hnone : n - i = 0 := by omega
      rw [hnone]
      rfl
  | succ steps ih =>
      have hdown := toNat_alignDown_page start
      have hstart := start.toNat_lt
      have hlt := stop.toNat_lt
      have hpage := toNat_pageAhead start i
      have hmore : pageAhead start i < stop <-> i < n := by
        rw [UInt32.lt_iff_toNat_lt, hpage]
        unfold pageNumber
        omega
      unfold identityLoop
      by_cases hless : i < n
      · have hnext : pageAhead start i + pageSize = pageAhead start (i + 1) := by
          have hsize : pageSize.toNat = 4096 := by decide
          apply UInt32.toNat_inj.mp
          rw [UInt32.toNat_add, hsize, hpage, toNat_pageAhead]
          unfold pageNumber
          omega
        have hlength : n - i = (n - (i + 1)) + 1 := by omega
        rw [if_pos (hmore.mpr hless), hnext, ih (by omega) (by omega),
          kernelPgdir_vmmMapPage, hlength, List.range'_succ, List.map_cons]
        rfl
      · have hnone : n - i = 0 := by omega
        rw [if_neg (fun h => hless (hmore.mp h)), hnone]
        rfl

/-- With as many steps as there are pages the loop has come to its end. -/
theorem identityLoop_pages (st : Vmm alpha) (start stop flags : UInt32)
    {steps : Nat} (hsteps : 2 ^ 20 ≤ steps) :
    identityLoop (alignUp stop pageSize) flags steps (alignDown start pageSize)
        st =
      run (execMap st.kernelPgdir) st
        (pageCalls start start flags (identityPages start stop)) := by
  have hfew := identityPages_lt start stop
  have hup := toNat_alignUp_page stop
  have hdown := toNat_alignDown_page start
  have hfirst : alignDown start pageSize = pageAhead start 0 := by
    have hlt := start.toNat_lt
    apply UInt32.toNat_inj.mp
    rw [hdown, toNat_pageAhead]
    unfold pageNumber
    omega
  have hpages : identityPages start stop = 0 ∧
      (alignUp stop pageSize).toNat ≤ (alignDown start pageSize).toNat ∨
        (alignDown start pageSize).toNat + identityPages start stop * 4096 =
          (alignUp stop pageSize).toNat := by
    unfold identityPages
    omega
  have hloop := identityLoop_eq start flags steps hpages (Nat.zero_le _)
    (by omega) st
  rw [Nat.sub_zero, ← List.range_eq_range', ← hfirst] at hloop
  exact hloop

/-!
# What the loops map
-/

def InRange (virt phys size : UInt32) (k : Nat) : Prop :=
  k < size.toNat ∧ virt.toNat + k < 2 ^ 32 ∧ phys.toNat + k < 2 ^ 32

/-- Every byte of the range is mapped, and no other page than its own. -/
structure MapsRange (mem mem' : Frames) (dir virt phys size : UInt32) :
    Prop where
  bytes : forall k, InRange virt phys size k ->
    vmmVirtToPhys mem' dir (virt + UInt32.ofNat k) = phys + UInt32.ofNat k
  others : forall w,
    (forall k, InRange virt phys size k ->
      frame (virt + UInt32.ofNat k) ≠ frame w) ->
    vmmVirtToPhys mem' dir w = vmmVirtToPhys mem dir w

/--
The rounded size reaches every byte, and no page that is counted lies beyond the
top; where this fails, the page was mapped there before.
-/
structure RangeFits (mem : Frames) (dir virt phys size : UInt32) : Prop where
  reached : forall k, InRange virt phys size k ->
    virt.toNat % 4096 + k < (alignUp size pageSize).toNat ∨
      vmmVirtToPhys mem dir (virt + UInt32.ofNat k) = phys + UInt32.ofNat k
  below : forall i, i < rangePages size ->
    (pageNumber virt + i < 2 ^ 20 ∧ pageNumber phys + i < 2 ^ 20) ∨
      forall w, frame w = pageAhead virt i ->
        vmmVirtToPhys mem dir w = placed virt phys w

def Intersects (start stop w : UInt32) : Prop :=
  exists b, start ≤ b ∧ b < stop ∧ frame b = frame w

/-- The pages of the interval are mapped to themselves, and no others. -/
structure MapsIdentity (mem mem' : Frames) (dir start stop : UInt32) :
    Prop where
  pages : forall w, Intersects start stop w -> vmmVirtToPhys mem' dir w = w
  others : forall w, ¬ Intersects start stop w ->
    vmmVirtToPhys mem' dir w = vmmVirtToPhys mem dir w

/--
The end can be rounded up, and an empty interval does not lie within a page;
where this fails, the pages were mapped to themselves before.
-/
structure IdentityFits (mem : Frames) (dir start stop : UInt32) : Prop where
  top : stop.toNat ≤ 0xFFFFF000 ∨
    forall w, Intersects start stop w -> vmmVirtToPhys mem dir w = w
  empty : start ≠ stop ∨ start.toNat % 4096 = 0 ∨ 0xFFFFF000 < stop.toNat ∨
    forall w, frame w = frame start -> vmmVirtToPhys mem dir w = w

theorem toNat_add_ofNat {address : UInt32} {k : Nat}
    (h : address.toNat + k < 2 ^ 32) :
    (address + UInt32.ofNat k).toNat = address.toNat + k := by
  rw [UInt32.toNat_add, UInt32.toNat_ofNat']
  omega

theorem InRange.pagesAhead {virt phys size : UInt32} {k : Nat}
    (h : InRange virt phys size k) :
    pagesAhead virt (virt + UInt32.ofNat k) = (virt.toNat % 4096 + k) / 4096 := by
  have hvirt := virt.toNat_lt
  have hbyte := h.right.left
  unfold Mm.pagesAhead pageNumber
  rw [toNat_add_ofNat hbyte]
  omega

theorem InRange.placed {virt phys size : UInt32} {k : Nat}
    (h : InRange virt phys size k)
    (hsame : virt.toNat % 4096 = phys.toNat % 4096) :
    placed virt phys (virt + UInt32.ofNat k) = phys + UInt32.ofNat k := by
  have hbyte := h.right.right
  apply UInt32.toNat_inj.mp
  rw [toNat_placed, h.pagesAhead, toNat_add_ofNat h.right.left,
    toNat_add_ofNat hbyte]
  unfold pageNumber
  omega

/-- Each page that is counted and lies below the top holds a byte. -/
theorem exists_inRange {virt phys size : UInt32} {i : Nat}
    (hi : i < rangePages size)
    (hsame : virt.toNat % 4096 = phys.toNat % 4096)
    (hvirt : pageNumber virt + i < 2 ^ 20)
    (hphys : pageNumber phys + i < 2 ^ 20) :
    exists k, InRange virt phys size k ∧
      (virt.toNat % 4096 + k) / 4096 = i := by
  have hpages := rangePages_eq size
  rw [toNat_alignUp_page] at hpages
  have hsize := size.toNat_lt
  have hlow := virt.toNat_lt
  unfold pageNumber at hvirt hphys
  refine ⟨i * 4096 - virt.toNat % 4096, ⟨?_, ?_, ?_⟩, ?_⟩
  · omega
  · omega
  · omega
  · omega

theorem mapsRange_iff (h : TableInv st.mem dir) {virt phys size flags : UInt32}
    (hsame : virt.toNat % 4096 = phys.toNat % 4096)
    (hserved : Meets (execMap dir) (Served dir) st
      (pageCalls virt phys flags (rangePages size))) :
    MapsRange st.mem (st.vmmMapRange dir virt phys size flags).mem dir virt phys
        size <->
      RangeFits st.mem dir virt phys size := by
  have hfew := rangePages_lt size
  have hup := rangePages_eq size
  have hmapped := vmmVirtToPhys_pageCalls h (Nat.le_of_lt hfew) hserved
  rw [← vmmMapRange_eq] at hmapped
  constructor
  · intro hmaps
    constructor
    · intro k hk
      have hbyte := hmaps.bytes k hk
      rw [hmapped, hk.pagesAhead] at hbyte
      by_cases hless : (virt.toNat % 4096 + k) / 4096 < rangePages size
      · exact Or.inl (by omega)
      · rw [if_neg hless] at hbyte
        exact Or.inr hbyte
    · intro i hi
      by_cases hfits : pageNumber virt + i < 2 ^ 20 ∧ pageNumber phys + i < 2 ^ 20
      · exact Or.inl hfits
      · right
        intro w hw
        have hahead := (frame_eq_pageAhead_iff virt w (by omega)).mp hw
        have hother := hmaps.others w (by
          intro k hk hframe
          rw [hw] at hframe
          have hsamePage := (frame_eq_pageAhead_iff virt _ (by omega)).mp hframe
          rw [hk.pagesAhead] at hsamePage
          have hvirt := hk.right.left
          have hphys := hk.right.right
          unfold pageNumber at hfits
          omega)
        rw [hmapped, hahead, if_pos hi] at hother
        exact hother.symm
  · intro hfits
    constructor
    · intro k hk
      rw [hmapped, hk.pagesAhead]
      by_cases hless : (virt.toNat % 4096 + k) / 4096 < rangePages size
      · rw [if_pos hless, hk.placed hsame]
      · rw [if_neg hless]
        rcases hfits.reached k hk with hreached | hbefore
        · omega
        · exact hbefore
    · intro w hw
      rw [hmapped]
      by_cases hless : pagesAhead virt w < rangePages size
      · rw [if_pos hless]
        have hpage := (frame_eq_pageAhead_iff virt w (pagesAhead_lt virt w)).mpr
          rfl
        rcases hfits.below _ hless with ⟨hvirt, hphys⟩ | hbefore
        · rcases exists_inRange hless hsame hvirt hphys with ⟨k, hk, hsamePage⟩
          rw [← hk.pagesAhead] at hsamePage
          exact absurd (((frame_eq_pageAhead_iff virt _
            (pagesAhead_lt virt w)).mpr hsamePage).trans hpage.symm) (hw k hk)
        · exact (hbefore w hpage).symm
      · rw [if_neg hless]

theorem placed_self (start w : UInt32) : placed start start w = w := by
  have hstart := start.toNat_lt
  have hw := w.toNat_lt
  apply UInt32.toNat_inj.mp
  rw [toNat_placed]
  unfold pagesAhead pageNumber
  omega

theorem intersects_iff {start stop w : UInt32} :
    Intersects start stop w <->
      start < stop ∧ pageNumber start ≤ pageNumber w ∧
        pageNumber w * 4096 < stop.toNat := by
  have hframe := toNat_frame w
  unfold pageNumber
  constructor
  · rintro ⟨b, hlow, hhigh, hb⟩
    rw [← UInt32.toNat_inj, toNat_frame, hframe] at hb
    rw [UInt32.le_iff_toNat_le] at hlow
    rw [UInt32.lt_iff_toNat_lt] at hhigh ⊢
    omega
  · rintro ⟨hless, hlow, hhigh⟩
    by_cases hfirst : start ≤ frame w
    · refine ⟨frame w, hfirst, ?_, frame_frame w⟩
      rw [UInt32.lt_iff_toNat_lt, hframe]
      omega
    · refine ⟨start, UInt32.le_refl start, hless, ?_⟩
      rw [UInt32.le_iff_toNat_le, hframe] at hfirst
      apply UInt32.toNat_inj.mp
      rw [toNat_frame, hframe]
      omega

theorem pagesAhead_lt_identityPages_iff {start stop : UInt32}
    (hle : start ≤ stop) (w : UInt32) :
    pagesAhead start w < identityPages start stop <->
      stop.toNat ≤ 0xFFFFF000 ∧ (Intersects start stop w ∨
        start = stop ∧ start.toNat % 4096 ≠ 0 ∧ frame w = frame start) := by
  have hstart := start.toNat_lt
  have hstop := stop.toNat_lt
  have hw := w.toNat_lt
  rw [UInt32.le_iff_toNat_le] at hle
  rw [intersects_iff, UInt32.lt_iff_toNat_lt, ← UInt32.toNat_inj,
    ← UInt32.toNat_inj, toNat_frame, toNat_frame]
  unfold identityPages pagesAhead pageNumber
  rw [toNat_alignUp_page, toNat_alignDown_page]
  omega

/-- An interval is mapped to itself as asked exactly when it fits. -/
theorem mapsIdentity_iff (h : TableInv st.mem st.kernelPgdir)
    (start stop flags : UInt32) (hle : start ≤ stop)
    (hserved : Meets (execMap st.kernelPgdir) (Served st.kernelPgdir) st
      (pageCalls start start flags (identityPages start stop))) :
    MapsIdentity st.mem (st.vmmIdentityMap start stop flags).mem st.kernelPgdir
        start stop <->
      IdentityFits st.mem st.kernelPgdir start stop := by
  have hmapped := vmmVirtToPhys_pageCalls h
    (Nat.le_of_lt (identityPages_lt start stop)) hserved
  rw [← identityLoop_pages st start stop flags (Nat.le_refl _)] at hmapped
  have hreached := pagesAhead_lt_identityPages_iff hle
  unfold vmmIdentityMap
  constructor
  · intro hmaps
    constructor
    · by_cases htop : stop.toNat ≤ 0xFFFFF000
      · exact Or.inl htop
      · right
        intro w hw
        have hpage := hmaps.pages w hw
        rw [hmapped, if_neg (fun h => htop ((hreached w).mp h).left)] at hpage
        exact hpage
    · by_cases hempty : start = stop ∧ start.toNat % 4096 ≠ 0 ∧
          stop.toNat ≤ 0xFFFFF000
      · rcases hempty with ⟨heq, hinside, htop⟩
        refine Or.inr (Or.inr (Or.inr ?_))
        intro w hw
        have hother := hmaps.others w (by
          rw [intersects_iff, heq]
          exact fun h => UInt32.lt_irrefl stop h.left)
        rw [hmapped, placed_self, if_pos ((hreached w).mpr
          ⟨htop, Or.inr ⟨heq, hinside, hw⟩⟩)] at hother
        exact hother.symm
      · by_cases heq : start = stop
        · by_cases hinside : start.toNat % 4096 = 0
          · exact Or.inr (Or.inl hinside)
          · refine Or.inr (Or.inr (Or.inl ?_))
            have htop : ¬ stop.toNat ≤ 0xFFFFF000 :=
              fun h => hempty ⟨heq, hinside, h⟩
            omega
        · exact Or.inl heq
  · intro hfits
    constructor
    · intro w hw
      rw [hmapped, placed_self]
      rcases hfits.top with htop | hbefore
      · rw [if_pos ((hreached w).mpr ⟨htop, Or.inl hw⟩)]
      · rw [hbefore w hw, ite_self]
    · intro w hw
      rw [hmapped, placed_self]
      by_cases hless : pagesAhead start w < identityPages start stop
      · rw [if_pos hless]
        rcases (hreached w).mp hless with
          ⟨htop, hpage | ⟨heq, hinside, hframe⟩⟩
        · exact absurd hpage hw
        · rcases hfits.empty with hne | halign | habove | hbefore
          · exact absurd heq hne
          · exact absurd halign hinside
          · omega
          · exact (hbefore w hframe).symm
      · rw [if_neg hless]

theorem fresh_cleared : Fresh 0x100000 (cleared [0x5000]) := by
  refine Or.inr ⟨by decide, by decide, ?_⟩
  intro i hi
  have hzero : (cleared [0x5000]).mem 0x100000 i = 0 := rfl
  rw [hzero, present_zero] at hi
  cases hi

/--
Ranges and intervals are mapped exactly when they fit, and the loop over an
interval comes to its end.
-/
theorem ranges_mapped_iff (st : Vmm alpha) :
    (forall (dir virt phys size flags : UInt32), TableInv st.mem dir ->
      virt.toNat % 4096 = phys.toNat % 4096 ->
      Meets (execMap dir) (Served dir) st
        (pageCalls virt phys flags (rangePages size)) ->
      (MapsRange st.mem (st.vmmMapRange dir virt phys size flags).mem dir virt
          phys size <->
        RangeFits st.mem dir virt phys size)) ∧
    (forall (start stop flags : UInt32), TableInv st.mem st.kernelPgdir ->
      start ≤ stop ->
      Meets (execMap st.kernelPgdir) (Served st.kernelPgdir) st
        (pageCalls start start flags (identityPages start stop)) ->
      ((forall steps, 2 ^ 20 ≤ steps ->
          identityLoop (alignUp stop pageSize) flags steps
              (alignDown start pageSize) st =
            st.vmmIdentityMap start stop flags) ∧
        (MapsIdentity st.mem (st.vmmIdentityMap start stop flags).mem
            st.kernelPgdir start stop <->
          IdentityFits st.mem st.kernelPgdir start stop))) := by
  constructor
  · intro dir virt phys size flags h hsame hserved
    exact mapsRange_iff h hsame hserved
  · intro start stop flags h hle hserved
    refine ⟨fun steps hsteps => ?_, mapsIdentity_iff h start stop flags hle hserved⟩
    unfold vmmIdentityMap
    rw [identityLoop_pages st start stop flags hsteps,
      identityLoop_pages st start stop flags (Nat.le_refl _)]

theorem ranges_mapped_iff_first :
    MapsRange (cleared [0x5000]).mem
        ((cleared [0x5000]).vmmMapRange 0x100000 0x400010 0x9010 16 3).mem
        0x100000 0x400010 0x9010 16 ∧
      MapsIdentity (cleared [0x5000]).mem
        ((cleared [0x5000]).vmmIdentityMap 0x8000 0x8010 3).mem 0x100000 0x8000
        0x8010 := by
  have hinv : TableInv (cleared [0x5000]).mem 0x100000 :=
    tableInv_zero (fun _ => rfl)
  have hrange := (ranges_mapped_iff (cleared [0x5000])).left 0x100000 0x400010
    0x9010 16 3 hinv (by decide) ⟨⟨fresh_cleared, by decide +kernel⟩, trivial⟩
  have hidentity := (ranges_mapped_iff (cleared [0x5000])).right 0x8000 0x8010 3
    hinv (by decide) ⟨⟨fresh_cleared, by decide +kernel⟩, trivial⟩
  refine ⟨hrange.mpr ⟨fun k hk => Or.inl ?_, fun i hi => Or.inl ?_⟩,
    hidentity.right.mpr ⟨Or.inl (by decide), Or.inl (by decide)⟩⟩
  · have hless : k < 16 := hk.left
    rw [toNat_alignUp_page]
    show 16 + k < 4096
    omega
  · have hpages : rangePages 16 = 1 := by decide
    rw [hpages] at hi
    show 1024 + i < 2 ^ 20 ∧ 9 + i < 2 ^ 20
    omega

/-- Two bytes on two pages; the last page of memory; nothing at all. -/
theorem ranges_missed :
    (Meets (execMap 0x100000) (Served 0x100000) (cleared [0x5000])
        (pageCalls 0x400FFF 0x400FFF 3 (rangePages 2)) ∧
      ¬ MapsRange (cleared [0x5000]).mem
        ((cleared [0x5000]).vmmMapRange 0x100000 0x400FFF 0x400FFF 2 3).mem
        0x100000 0x400FFF 0x400FFF 2) ∧
    ¬ MapsIdentity (cleared [0x5000]).mem
      ((cleared [0x5000]).vmmIdentityMap 0xFFFFF000 0xFFFFFFFF 3).mem 0x100000
      0xFFFFF000 0xFFFFFFFF ∧
    ¬ MapsIdentity (cleared [0x5000]).mem
      ((cleared [0x5000]).vmmIdentityMap 0x8010 0x8010 3).mem 0x100000
      0x8010 0x8010 := by
  have hinv : TableInv (cleared [0x5000]).mem 0x100000 :=
    tableInv_zero (fun _ => rfl)
  have hserved : Meets (execMap 0x100000) (Served 0x100000) (cleared [0x5000])
      (pageCalls 0x400FFF 0x400FFF 3 (rangePages 2)) :=
    ⟨⟨fresh_cleared, by decide +kernel⟩, trivial⟩
  refine ⟨⟨hserved, ?_⟩, ?_, ?_⟩
  · rw [mapsRange_iff hinv rfl hserved]
    intro hfits
    rcases hfits.reached 1 ⟨by decide, by decide, by decide⟩ with
      hreached | hbefore
    · exact absurd hreached (by decide)
    · exact absurd hbefore (by decide +kernel)
  · have htopIff := mapsIdentity_iff hinv 0xFFFFF000 0xFFFFFFFF 3 (by decide)
      trivial
    intro hmaps
    have hfits := htopIff.mp hmaps
    rcases hfits.top with htop | hbefore
    · exact absurd htop (by decide)
    · exact absurd (hbefore 0xFFFFF000 ⟨0xFFFFF000, by decide, by decide, rfl⟩)
        (by decide +kernel)
  · have hemptyIff := mapsIdentity_iff hinv 0x8010 0x8010 3 (by decide)
      ⟨⟨fresh_cleared, by decide +kernel⟩, trivial⟩
    intro hmaps
    have hfits := hemptyIff.mp hmaps
    rcases hfits.empty with hne | halign | habove | hbefore
    · exact absurd rfl hne
    · exact absurd halign (by decide)
    · exact absurd habove (by decide)
    · exact absurd (hbefore 0x8010 rfl) (by decide +kernel)

end Vmm
end Mm
end EarlnuxOS
