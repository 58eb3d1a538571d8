import EarlnuxOS.Foundation.Run
import EarlnuxOS.Mm.Vmm.Steps

/-!
# Translation as a finite map

Calls that map and unmap pages of one directory are steps of a partial function
from pages to frames.
-/

namespace EarlnuxOS
namespace Mm

open Foundation

universe u

abbrev PageMap := UInt32 -> Option UInt32

def PageMap.empty : PageMap := fun _ => none

def PageMap.translate (m : PageMap) (virt : UInt32) : UInt32 :=
  match m (frame virt) with
  | none => 0
  | some page => page ||| (virt &&& 0xFFF)

inductive MapOp where
  | map (virt phys flags : UInt32)
  | unmap (virt : UInt32)

/-- What a call that has returned does to the map. -/
def PageMap.step (m : PageMap) : MapOp × Int -> PageMap
  | (MapOp.map virt phys _, result) =>
      if result = 0 then Function.update m (frame virt) (some (frame phys))
      else m
  | (MapOp.unmap virt, _) => Function.update m (frame virt) none

namespace Vmm

variable {alpha : Type u} [PageAllocator alpha] {st : Vmm alpha}
  {dir : UInt32}

def execMap (dir : UInt32) (st : Vmm alpha) : MapOp -> Vmm alpha
  | MapOp.map virt phys flags => (st.vmmMapPage dir virt phys flags).2
  | MapOp.unmap virt => st.vmmUnmapPage dir virt

def mapResult (dir : UInt32) (st : Vmm alpha) : MapOp -> Int
  | MapOp.map virt phys flags => (st.vmmMapPage dir virt phys flags).1
  | MapOp.unmap _ => 0

def mapTrace (dir : UInt32) (st : Vmm alpha) : List MapOp -> List (MapOp × Int)
  | [] => []
  | o :: ops => (o, mapResult dir st o) :: mapTrace dir (execMap dir st o) ops

/--
What the allocator returns is 0, or a frame that is neither the directory nor
one of its tables.
-/
def Fresh (dir : UInt32) (st : Vmm alpha) : Prop :=
  let page := (PageAllocator.pmmAllocPage st.pmm).1
  page = 0 ∨ (frame page = page ∧ page ≠ dir ∧
    forall i, present (st.mem dir i) = true ->
      frame (st.mem dir i) ≠ page)

def FreshFor (dir : UInt32) (st : Vmm alpha) : MapOp -> Prop
  | MapOp.map _ _ _ => Fresh dir st
  | MapOp.unmap _ => True

/-!
# Directories and their tables
-/

/-- Each table of a directory is its own, and apart from the directory. -/
structure TableInv (mem : Frames) (dir : UInt32) : Prop where
  small : forall i, present (mem dir i) = true -> huge (mem dir i) = false
  apart : forall i, present (mem dir i) = true -> frame (mem dir i) ≠ dir
  distinct : forall i i', present (mem dir i) = true ->
    present (mem dir i') = true -> frame (mem dir i) = frame (mem dir i') ->
      i = i'

theorem tableInv_zero {mem : Frames} (h : forall i, mem dir i = 0) :
    TableInv mem dir := by
  have hnone : forall i, present (mem dir i) ≠ true := by
    intro i
    rw [h i, present_zero]
    exact Bool.false_ne_true
  exact ⟨fun i hi => absurd hi (hnone i), fun i hi => absurd hi (hnone i),
    fun i _ hi => absurd hi (hnone i)⟩

theorem TableInv.congr {mem mem' : Frames} (h : TableInv mem dir)
    (hdir : forall i, mem' dir i = mem dir i) : TableInv mem' dir := by
  constructor
  · intro i
    rw [hdir]
    exact h.small i
  · intro i
    rw [hdir]
    exact h.apart i
  · intro i i'
    rw [hdir, hdir]
    exact h.distinct i i'

omit [PageAllocator alpha] in
theorem TableInv.entryAt_store (h : TableInv st.mem dir) {i : Fin 1024}
    (j : Fin 1024) (word : UInt32) (hi : present (st.mem dir i) = true) :
    TableInv (st.store (frame (st.mem dir i)) j word).mem dir ∧
      forall i' j', entryAt (st.store (frame (st.mem dir i)) j word).mem dir
          i' j' =
        if i' = i ∧ j' = j then (if ¬ present word then none else some word)
        else entryAt st.mem dir i' j' := by
  have hdir : forall k, (st.store (frame (st.mem dir i)) j word).mem dir k =
      st.mem dir k :=
    fun k => st.mem_store_other j word k (h.apart i hi).symm
  refine ⟨h.congr hdir, ?_⟩
  intro i' j'
  split
  · rename_i hsame
    rw [hsame.left, hsame.right, entryAt_table j (by rw [hdir]; exact hi)
      (by rw [hdir]; exact h.small i hi), hdir, mem_store_self]
  · rename_i hother
    apply entryAt_congr j' (hdir i')
    intro hpresent
    rw [mem_store]
    apply if_neg
    intro hsame
    exact hother ⟨h.distinct i' i hpresent hi hsame.left, hsame.right⟩

omit [PageAllocator alpha] in
theorem TableInv.entryAt_newTable {st' : Vmm alpha} (h : TableInv st.mem dir)
    {i : Fin 1024} {page entry : UInt32} (hi : present (st.mem dir i) = false)
    (hfresh : page ≠ dir ∧ forall i, present (st.mem dir i) = true ->
      frame (st.mem dir i) ≠ page)
    (hmem : forall f k, st'.mem f k = if f = page then 0 else st.mem f k)
    (hentry : frame entry = page ∧ present entry = true ∧
      huge entry = false) :
    TableInv (st'.store dir i entry).mem dir ∧
      (forall i' j', entryAt (st'.store dir i entry).mem dir i' j' =
        entryAt st.mem dir i' j') := by
  rcases hfresh with ⟨hpage, htables⟩
  rcases hentry with ⟨hframe, hpresent, hsmall⟩
  have hself : (st'.store dir i entry).mem dir i = entry :=
    st'.mem_store_self dir i entry
  have hother : forall k, k ≠ i ->
      (st'.store dir i entry).mem dir k = st.mem dir k := by
    intro k hk
    rw [mem_store, if_neg (fun h => hk h.right), hmem, if_neg hpage.symm]
  have htable : forall f k, f ≠ dir -> f ≠ page ->
      (st'.store dir i entry).mem f k = st.mem f k := by
    intro f k hf hne
    rw [mem_store, if_neg (fun h => hf h.left), hmem, if_neg hne]
  refine ⟨⟨?_, ?_, ?_⟩, ?_⟩
  · intro k hk
    by_cases hki : k = i
    · rw [hki, hself]
      exact hsmall
    · rw [hother k hki] at hk ⊢
      exact h.small k hk
  · intro k hk
    by_cases hki : k = i
    · rw [hki, hself, hframe]
      exact hpage
    · rw [hother k hki] at hk ⊢
      exact h.apart k hk
  · intro k k' hk hk' hsame
    by_cases hki : k = i
    · by_cases hki' : k' = i
      · rw [hki, hki']
      · rw [hki, hself, hframe] at hsame
        rw [hother k' hki'] at hk' hsame
        exact absurd hsame.symm (htables k' hk')
    · rw [hother k hki] at hk hsame
      by_cases hki' : k' = i
      · rw [hki', hself, hframe] at hsame
        exact absurd hsame (htables k hk)
      · rw [hother k' hki'] at hk' hsame
        exact h.distinct k k' hk hk' hsame
  · intro i' j'
    by_cases hii : i' = i
    · have hword : (st'.store dir i entry).mem page j' = 0 := by
        rw [mem_store_other st' i entry j' hpage, hmem, if_pos rfl]
      rw [hii, entryAt_absent j' hi, entryAt_table j' (by rw [hself]; exact
        hpresent) (by rw [hself]; exact hsmall), hself, hframe, hword]
      rfl
    · apply entryAt_congr j' (hother i' hii)
      intro hk
      exact htable _ j' (h.apart i' hk) (htables i' hk)

/-!
# Calls
-/

theorem vmmMapPage_cases (h : TableInv st.mem dir) (hfresh : Fresh dir st)
    (virt phys flags : UInt32) :
    ((st.vmmMapPage dir virt phys flags).1 = -1 ∧
      (st.vmmMapPage dir virt phys flags).2.mem = st.mem) ∨
    ((st.vmmMapPage dir virt phys flags).1 = 0 ∧
      TableInv (st.vmmMapPage dir virt phys flags).2.mem dir ∧
      forall i j, entryAt (st.vmmMapPage dir virt phys flags).2.mem dir i j =
        if i = pdeIndex virt ∧ j = pteIndex virt then
          some (mapEntry phys flags)
        else entryAt st.mem dir i j) := by
  cases htable : present (st.mem dir (pdeIndex virt)) with
  | true =>
      right
      have haccess : TableInv (st.access dir).mem dir := h
      have hstore := haccess.entryAt_store (pteIndex virt)
        (mapEntry phys flags) htable
      rw [present_mapEntry] at hstore
      rw [vmmMapPage_table phys flags htable]
      exact ⟨rfl, hstore.left, hstore.right⟩
  | false =>
      by_cases hnone : (st.access dir).allocPageTable.1 = 0
      · rw [vmmMapPage_fail phys flags htable hnone]
        exact Or.inl ⟨rfl, by rw [(allocPageTable_none hnone).right]; rfl⟩
      · right
        rw [vmmMapPage_new phys flags htable hnone]
        refine ⟨rfl, ?_⟩
        have hmem := mem_allocPageTable hnone
        rcases hfresh with hzero | ⟨haligned, hdir, htables⟩
        · rw [allocPageTable_eq] at hnone
          exact absurd hzero hnone
        have hframe : frame (tableEntry (st.access dir).allocPageTable.1 flags) =
            (st.access dir).allocPageTable.1 := by
          rw [frame_tableEntry, allocPageTable_eq]
          exact haligned
        rw [← pmm_access st dir, ← allocPageTable_eq] at hdir htables
        have hnew := h.entryAt_newTable htable ⟨hdir, htables⟩ hmem
          ⟨hframe, present_tableEntry _ _, huge_tableEntry _ _⟩
        have hself := (st.access dir).allocPageTable.2.mem_store_self dir
          (pdeIndex virt) (tableEntry (st.access dir).allocPageTable.1 flags)
        have hstore := hnew.left.entryAt_store (pteIndex virt)
          (mapEntry phys flags) (by rw [hself]; exact present_tableEntry _ _)
        rw [hself, hframe, present_mapEntry] at hstore
        refine ⟨hstore.left, ?_⟩
        intro i j
        rw [hstore.right, hnew.right]
        rfl

omit [PageAllocator alpha] in
theorem vmmUnmapPage_entryAt (h : TableInv st.mem dir) (virt : UInt32) :
    TableInv (st.vmmUnmapPage dir virt).mem dir ∧
      forall i j, entryAt (st.vmmUnmapPage dir virt).mem dir i j =
        if i = pdeIndex virt ∧ j = pteIndex virt then none
        else entryAt st.mem dir i j := by
  cases htable : present (st.mem dir (pdeIndex virt)) with
  | true =>
      rw [vmmUnmapPage_table htable]
      have haccess : TableInv (st.access dir).mem dir := h
      exact haccess.entryAt_store (pteIndex virt) 0 htable
  | false =>
      rw [vmmUnmapPage_none htable]
      refine ⟨h, ?_⟩
      intro i j
      split
      · rename_i hsame
        rw [hsame.left]
        exact entryAt_absent j htable
      · rfl

/-!
# Runs
-/

def Translates (mem : Frames) (dir : UInt32) (m : PageMap) : Prop :=
  forall virt, (entryAt mem dir (pdeIndex virt) (pteIndex virt)).map frame =
    m (frame virt)

omit [PageAllocator alpha] in
theorem Translates.vmmVirtToPhys {mem : Frames} {m : PageMap}
    (h : Translates mem dir m) (virt : UInt32) :
    vmmVirtToPhys mem dir virt = m.translate virt := by
  rw [vmmVirtToPhys_eq]
  unfold PageMap.translate
  rw [← h virt]
  cases entryAt mem dir (pdeIndex virt) (pteIndex virt) with
  | none => rfl
  | some pte => rfl

omit [PageAllocator alpha] in
theorem Translates.update {mem mem' : Frames} {m : PageMap} {virt : UInt32}
    {entry : Option UInt32} (h : Translates mem dir m)
    (hentry : forall i j, entryAt mem' dir i j =
      if i = pdeIndex virt ∧ j = pteIndex virt then entry
      else entryAt mem dir i j) :
    Translates mem' dir
      (Function.update m (frame virt) (entry.map frame)) := by
  intro v
  rw [hentry, Function.update_apply]
  by_cases hsame : frame v = frame virt
  · rw [if_pos ((frame_eq_iff v virt).mp hsame), if_pos hsame]
  · rw [if_neg (fun h => hsame ((frame_eq_iff v virt).mpr h)), if_neg hsame]
    exact h v

theorem translates_exec {m : PageMap} {o : MapOp} (h : TableInv st.mem dir)
    (hm : Translates st.mem dir m) (hfresh : FreshFor dir st o) :
    TableInv (execMap dir st o).mem dir ∧
      Translates (execMap dir st o).mem dir (m.step (o, mapResult dir st o)) := by
  cases o with
  | map virt phys flags =>
      rcases vmmMapPage_cases h hfresh virt phys flags with
        ⟨hresult, hmem⟩ | ⟨hresult, hinv, hentry⟩
      · unfold execMap mapResult PageMap.step
        dsimp only
        rw [hresult, hmem]
        exact ⟨h, hm⟩
      · have hnext := hm.update hentry
        rw [Option.map_some, frame_mapEntry] at hnext
        unfold execMap mapResult PageMap.step
        dsimp only
        rw [hresult, if_pos rfl]
        exact ⟨hinv, hnext⟩
  | unmap virt =>
      rcases vmmUnmapPage_entryAt h virt with ⟨hinv, hentry⟩
      exact ⟨hinv, hm.update hentry⟩

theorem translates_run {m : PageMap} {ops : List MapOp}
    (h : TableInv st.mem dir) (hm : Translates st.mem dir m)
    (hmeets : Meets (execMap dir) (FreshFor dir) st ops) :
    Translates (run (execMap dir) st ops).mem dir
      ((mapTrace dir st ops).foldl PageMap.step m) := by
  induction ops generalizing st m with
  | nil => exact hm
  | cons o ops ih =>
      rcases translates_exec h hm hmeets.left with ⟨hinv, hnext⟩
      exact ih hinv hnext hmeets.right

theorem vmmMapPage_failed {virt phys flags : UInt32}
    (h : (st.vmmMapPage dir virt phys flags).1 = -1) :
    (st.vmmMapPage dir virt phys flags).2.mem = st.mem := by
  cases htable : present (st.mem dir (pdeIndex virt)) with
  | true =>
      rw [vmmMapPage_table phys flags htable] at h
      cases h
  | false =>
      by_cases hnone : (st.access dir).allocPageTable.1 = 0
      · rw [vmmMapPage_fail phys flags htable hnone,
          (allocPageTable_none hnone).right]
        rfl
      · rw [vmmMapPage_new phys flags htable hnone] at h
        cases h

/-- A directory that starts empty translates as the calls on it say. -/
theorem directory_translates (dir : UInt32) {st : Vmm alpha}
    (hzero : forall i, st.mem dir i = 0) {ops : List MapOp}
    (hmeets : Meets (execMap dir) (FreshFor dir) st ops) :
    (forall virt, vmmVirtToPhys (run (execMap dir) st ops).mem dir virt =
      ((mapTrace dir st ops).foldl PageMap.step PageMap.empty).translate
        virt) ∧
    forall virt phys flags,
      ((run (execMap dir) st ops).vmmMapPage dir virt phys flags).1 = -1 ->
      forall v, vmmVirtToPhys
          ((run (execMap dir) st ops).vmmMapPage dir virt phys flags).2.mem
          dir v =
        vmmVirtToPhys (run (execMap dir) st ops).mem dir v := by
  have hempty : Translates st.mem dir PageMap.empty := by
    intro virt
    rw [entryAt_absent _ (by rw [hzero]; rfl)]
    rfl
  constructor
  · exact (translates_run (tableInv_zero hzero) hempty hmeets).vmmVirtToPhys
  · intro virt phys flags hfail v
    rw [vmmMapPage_failed hfail]

/-- A list of the frames to hand out. -/
instance listAllocator : PageAllocator (List UInt32) where
  pmmAllocPage := fun frames => (frames.headD 0, frames.tail)
  pmmFreePage := fun frames phys => phys :: frames

def cleared (frames : List UInt32) : Vmm (List UInt32) where
  mem := fun _ _ => 0
  pmm := frames
  kernelPgdir := 0x100000
  currentPgdir := 0x100000
  cr3 := 0x100000
  paging := false
  taken := []
  freed := []
  unmapped := false

def someCalls : List MapOp :=
  [MapOp.map 0x400000 0x9000 3, MapOp.unmap 0x401000,
    MapOp.map 0x402000 0xA0FF 3, MapOp.map 0x800000 0xB000 3]

theorem directory_translates_someCalls :
    vmmVirtToPhys (run (execMap 0x100000) (cleared [0x5000]) someCalls).mem
      0x100000 0x402123 = 0xA123 := by
  have hmeets : Meets (execMap 0x100000) (FreshFor 0x100000)
      (cleared [0x5000]) someCalls := by
    refine ⟨Or.inr ⟨by decide, by decide, ?_⟩, trivial,
      Or.inl (by decide +kernel), Or.inl (by decide +kernel), trivial⟩
    intro i hi
    exact absurd hi (by rw [show (cleared [0x5000]).mem 0x100000 i = 0 from
      rfl, present_zero]; exact Bool.false_ne_true)
  rw [(directory_translates 0x100000 (fun _ => rfl) hmeets).left 0x402123]
  decide +kernel

end Vmm
end Mm
end EarlnuxOS
