import EarlnuxOS.Mm.Vmm.CloneFaithful

/-!
# Destroying a clone

The walk of `vmm_destroy_dir` frees what a directory owns.  In a clone this is
what the walk of `vmm_clone_dir` has taken.
-/

namespace EarlnuxOS
namespace Mm
namespace Vmm

universe u

variable {alpha : Type u} [PageAllocator alpha] {st st' st'' : Vmm alpha}
  {dir src : UInt32}

/-!
# What is freed
-/

/-- Memory is the same, nothing was taken, and some frames have been freed. -/
structure Frees (frames : List UInt32) (st st' : Vmm alpha) : Prop where
  mem : st'.mem = st.mem
  taken : st'.taken = st.taken
  freed : st'.freed.Perm (frames ++ st.freed)

omit [PageAllocator alpha] in
theorem frees_access (st : Vmm alpha) (address : UInt32) :
    Frees [] st (st.access address) :=
  ⟨rfl, rfl, List.Perm.refl _⟩

theorem frees_pmmFreePage (st : Vmm alpha) (phys : UInt32) :
    Frees [phys] st (st.pmmFreePage phys) :=
  ⟨rfl, rfl, List.Perm.refl _⟩

omit [PageAllocator alpha] in
theorem Frees.trans {frames frames' : List UInt32} (h : Frees frames st st')
    (h' : Frees frames' st' st'') : Frees (frames ++ frames') st st'' where
  mem := h'.mem.trans h.mem
  taken := h'.taken.trans h.taken
  freed := by
    refine h'.freed.trans ((h.freed.append_left frames').trans ?_)
    rw [← List.append_assoc]
    exact List.perm_append_comm.append_right st.freed

omit [PageAllocator alpha] in
theorem frees_foldl {beta : Type} {step : Vmm alpha -> beta -> Vmm alpha}
    {owned : beta -> List UInt32} {l : List beta}
    (hstep : forall st' : Vmm alpha, st'.mem = st.mem -> forall x, x ∈ l ->
      Frees (owned x) st' (step st' x))
    (h : st'.mem = st.mem) : Frees (l.flatMap owned) st' (l.foldl step st') := by
  induction l generalizing st' with
  | nil => exact ⟨rfl, rfl, List.Perm.refl _⟩
  | cons x l ih =>
      have hone := hstep st' h x List.mem_cons_self
      exact hone.trans (ih (fun s hs y hy =>
        hstep s hs y (List.mem_cons_of_mem x hy)) (hone.mem.trans h))

theorem frees_destroyPage (pt : UInt32) (st : Vmm alpha) (j : Fin 1024) :
    Frees (pageAt st.mem pt j).toList st (destroyPage pt st j) := by
  unfold pageAt
  cases hpte : present (st.mem pt j) with
  | true =>
      have hstep : destroyPage pt st j =
          (st.access pt).pmmFreePage (frame (st.mem pt j)) := if_pos hpte
      rw [hstep]
      exact (frees_access st pt).trans (frees_pmmFreePage _ _)
  | false =>
      have hstep : destroyPage pt st j = st.access pt :=
        if_neg (by rw [mem_access, hpte]; exact Bool.false_ne_true)
      rw [hstep]
      exact frees_access st pt

theorem frees_destroyPages (pt : UInt32) (l : List (Fin 1024))
    (st : Vmm alpha) :
    Frees (l.flatMap (fun j => (pageAt st.mem pt j).toList)) st
      (l.foldl (destroyPage pt) st) := by
  apply frees_foldl _ rfl
  intro s hs j _
  rw [← hs]
  exact frees_destroyPage pt s j

theorem mem_destroyTable (dir : UInt32) (st : Vmm alpha) (i : Fin 1024) :
    (destroyTable dir st i).mem = st.mem := by
  unfold destroyTable
  dsimp only
  split
  · rfl
  · rw [mem_pmmFreePage]
    exact (frees_destroyPages _ _ (st.access dir)).mem

theorem frees_destroyTable {i : Fin 1024} (hi : i < pdeIndex kernelBase) :
    Frees (ownedFrames st.mem dir i) st (destroyTable dir st i) := by
  unfold ownedFrames
  by_cases hpde : present (st.mem dir i) = true
  · have hstep : destroyTable dir st i =
        ((List.finRange 1024).foldl (destroyPage (frame (st.mem dir i)))
          (st.access dir)).pmmFreePage (frame (st.mem dir i)) :=
      if_neg (not_not.mpr hpde)
    have hpages := frees_destroyPages (frame (st.mem dir i))
      (List.finRange 1024) (st.access dir)
    have hall := ((frees_access st dir).trans hpages).trans
      (frees_pmmFreePage _ (frame (st.mem dir i)))
    rw [List.nil_append] at hall
    rw [hstep, if_pos ⟨hpde, hi⟩, List.filterMap_eq_flatMap_toList]
    exact ⟨hall.mem, hall.taken, hall.freed.trans
      ((List.perm_append_singleton _ _).append_right st.freed)⟩
  · have hstep : destroyTable dir st i = st.access dir := if_pos hpde
    rw [hstep, if_neg (fun h => hpde h.left)]
    exact frees_access st dir

omit [PageAllocator alpha] in
theorem ownedFrames_userIndices (mem : Frames) (dir : UInt32) :
    userIndices.flatMap (ownedFrames mem dir) =
      (List.finRange 1024).flatMap (ownedFrames mem dir) := by
  unfold userIndices
  induction List.finRange 1024 with
  | nil => rfl
  | cons i l ih =>
      rw [List.filter_cons, List.flatMap_cons, ← ih]
      split
      · rw [List.flatMap_cons]
      · rename_i hi
        rw [decide_eq_true_eq] at hi
        have hnone : ownedFrames mem dir i = [] := if_neg (fun h => hi h.right)
        rw [hnone, List.nil_append]

theorem frees_vmmDestroyDir (st : Vmm alpha) (dir : UInt32) :
    Frees ((List.finRange 1024).flatMap (ownedFrames st.mem dir) ++ [dir]) st
      (st.vmmDestroyDir dir) := by
  have htables : Frees (userIndices.flatMap (ownedFrames st.mem dir)) st
      (userIndices.foldl (destroyTable dir) st) := by
    apply frees_foldl _ rfl
    intro s hs i hi
    rw [← hs]
    exact frees_destroyTable (of_decide_eq_true (List.mem_filter.mp hi).right)
  rw [ownedFrames_userIndices] at htables
  exact htables.trans (frees_pmmFreePage _ dir)

/-!
# What is taken
-/

def Draws (st st' : Vmm alpha) : Prop :=
  st'.freed = st.freed ∧ exists n, st'.pmm = after st.pmm n ∧
    st'.taken = (drawn st.pmm n).reverse ++ st.taken

theorem draws_of_eq (hpmm : st'.pmm = st.pmm) (htaken : st'.taken = st.taken)
    (hfreed : st'.freed = st.freed) : Draws st st' :=
  ⟨hfreed, 0, hpmm, htaken⟩

theorem Draws.trans (h : Draws st st') (h' : Draws st' st'') :
    Draws st st'' := by
  rcases h with ⟨hfreed, n, hpmm, htaken⟩
  rcases h' with ⟨hfreed', n', hpmm', htaken'⟩
  refine ⟨hfreed'.trans hfreed, n + n', ?_, ?_⟩
  · rw [hpmm', hpmm, after_add]
  · rw [htaken', htaken, hpmm, drawn_add, List.reverse_append,
      List.append_assoc]

theorem draws_pmmAllocPage (st : Vmm alpha) : Draws st st.pmmAllocPage.2 := by
  refine ⟨rfl, 1, rfl, ?_⟩
  show (if answer st.pmm 0 = 0 then st.taken else answer st.pmm 0 :: st.taken) =
    ([answer st.pmm 0].filter (fun f => f ≠ 0)).reverse ++ st.taken
  by_cases hzero : answer st.pmm 0 = 0
  · rw [if_pos hzero, hzero]
    rfl
  · rw [if_neg hzero, List.filter_cons, if_pos (decide_eq_true hzero)]
    rfl

theorem draws_foldl {beta : Type} {step : Vmm alpha -> beta -> Vmm alpha}
    (hstep : forall st x, Draws st (step st x)) (l : List beta) :
    Draws st (l.foldl step st) := by
  induction l generalizing st with
  | nil => exact draws_of_eq rfl rfl rfl
  | cons x l ih => exact (hstep st x).trans ih

theorem draws_clonePage (srcPt dstPt : UInt32) (st : Vmm alpha)
    (j : Fin 1024) : Draws st (clonePage srcPt dstPt st j) := by
  have haccess : Draws st (st.access srcPt) := draws_of_eq rfl rfl rfl
  have halloc := haccess.trans (draws_pmmAllocPage (st.access srcPt))
  unfold clonePage
  dsimp only
  split
  · exact draws_of_eq rfl rfl rfl
  split
  · exact halloc
  · exact halloc.trans (draws_of_eq rfl rfl rfl)

theorem draws_cloneTable (dst : UInt32) (st : Vmm alpha) (i : Fin 1024) :
    Draws st (cloneTable src dst st i) := by
  have haccess : Draws st (st.access src) := draws_of_eq rfl rfl rfl
  have halloc := haccess.trans (draws_pmmAllocPage (st.access src))
  unfold cloneTable
  dsimp only
  split
  · exact draws_of_eq rfl rfl rfl
  split
  · exact draws_of_eq rfl rfl rfl
  split
  · exact halloc
  · refine (halloc.trans (draws_foldl (draws_clonePage _ _) _)).trans
      (draws_of_eq (pmm_store _ _ _ _) (taken_store _ _ _ _)
        (freed_store _ _ _ _))

theorem draws_vmmCloneDir (st : Vmm alpha) (src : UInt32) :
    Draws st (st.vmmCloneDir src).2 := by
  have hfirst := draws_pmmAllocPage st
  by_cases hzero : answer st.pmm 0 = 0
  · rw [vmmCloneDir_none hzero]
    exact hfirst
  · rw [vmmCloneDir_loop hzero]
    exact hfirst.trans (draws_foldl (draws_cloneTable _) _)

/-!
# A clone and its end
-/

/-- The frames that were taken more often than they were freed. -/
def allocated (st : Vmm alpha) : Set UInt32 :=
  { f | st.freed.count f < st.taken.count f }

/-- A clone takes its frames and all that it owns, and writes nothing else. -/
theorem clone_owns (hsupply : Supply st.pmm (dirFrames st.mem src))
    (hok : forall m, m < cloneNeeds st.mem src -> answer st.pmm m ≠ 0) :
    (st.vmmCloneDir src).2.taken.Perm
      ((List.finRange 1024).flatMap (ownedFrames (st.vmmCloneDir src).2.mem
        (st.vmmCloneDir src).1) ++ (st.vmmCloneDir src).1 :: st.taken) := by
  have hfirst : answer st.pmm 0 ≠ 0 :=
    hok 0 (Nat.lt_of_lt_of_le Nat.one_pos (Nat.le_add_right _ _))
  have hcopied := (vmmCloneDir_copied hsupply hok (fun _ _ => rfl)).right
  rw [withMem_self] at hcopied
  rw [vmmCloneDir_first]
  exact hcopied

theorem clone_keeps_source (hsupply : Supply st.pmm (dirFrames st.mem src))
    (hfirst : answer st.pmm 0 ≠ 0) {f : UInt32}
    (hf : f ∈ dirFrames st.mem src) :
    (st.vmmCloneDir src).2.mem f = st.mem f := by
  have hsame : forall f, ¬ Given st.pmm f -> st.mem f = st.mem f :=
    fun _ _ => rfl
  have hreads := readsDir_first hsupply hsame
  rw [withMem_self] at hreads
  rw [vmmCloneDir_loop hfirst]
  funext k
  apply hreads.cloneTables_keep (dirApart_first hsupply hfirst) hsupply.next
  · left
    intro heq
    exact hsupply.unused _ (given_first hfirst) (heq ▸ hf)
  · exact fun hg => hsupply.unused f hg.of_next hf

/--
With no frame missing, a clone and its end take and free the same frames, each
of them once, and the source translates as before.
-/
theorem destroy_frees_clone (hsupply : Supply st.pmm (dirFrames st.mem src))
    (hok : forall m, m < cloneNeeds st.mem src -> answer st.pmm m ≠ 0) :
    exists frames : List UInt32, frames.Nodup ∧
      (st.vmmCloneDir src).2.taken = frames ++ st.taken ∧
      (st.vmmCloneDir src).2.freed = st.freed ∧
      ((st.vmmCloneDir src).2.vmmDestroyDir
        (st.vmmCloneDir src).1).taken = frames ++ st.taken ∧
      ((st.vmmCloneDir src).2.vmmDestroyDir
        (st.vmmCloneDir src).1).freed.Perm (frames ++ st.freed) ∧
      allocated ((st.vmmCloneDir src).2.vmmDestroyDir
        (st.vmmCloneDir src).1) = allocated st ∧
      forall virt, vmmVirtToPhys ((st.vmmCloneDir src).2.vmmDestroyDir
        (st.vmmCloneDir src).1).mem src virt =
          vmmVirtToPhys st.mem src virt := by
  have hfirst : answer st.pmm 0 ≠ 0 :=
    hok 0 (Nat.lt_of_lt_of_le Nat.one_pos (Nat.le_add_right _ _))
  have howns := clone_owns hsupply hok
  have hkept : forall f, f ∈ dirFrames st.mem src ->
      (st.vmmCloneDir src).2.mem f = st.mem f :=
    fun f hf => clone_keeps_source hsupply hfirst hf
  have hfrees := frees_vmmDestroyDir (st.vmmCloneDir src).2
    (st.vmmCloneDir src).1
  rcases draws_vmmCloneDir st src with ⟨hfreed, n, _, htaken⟩
  generalize (st.vmmCloneDir src).1 = dir at *
  generalize (st.vmmCloneDir src).2 = c at *
  have hframes : ((List.finRange 1024).flatMap (ownedFrames c.mem dir) ++
      [dir]).Perm (drawn st.pmm n).reverse := by
    rw [htaken, ← List.singleton_append, ← List.append_assoc] at howns
    exact ((List.perm_append_right_iff st.taken).mp howns).symm
  have hall : (c.vmmDestroyDir dir).freed.Perm
      ((drawn st.pmm n).reverse ++ st.freed) := by
    rw [← hfreed]
    exact hfrees.freed.trans (hframes.append_right c.freed)
  refine ⟨(drawn st.pmm n).reverse,
    List.nodup_reverse.mpr (hsupply.nodup_drawn n), htaken, hfreed,
    hfrees.taken.trans htaken, hall, ?_, ?_⟩
  · ext f
    unfold allocated
    rw [Set.mem_ofPred_eq, Set.mem_ofPred_eq, hfrees.taken, htaken,
      hall.count_eq, List.count_append, List.count_append,
      Nat.add_lt_add_iff_left]
  · intro virt
    rw [vmmVirtToPhys_eq, vmmVirtToPhys_eq, hfrees.mem]
    congr 1
    apply entryAt_congr
    · rw [hkept src (Or.inl rfl)]
    · intro hpresent
      rw [hkept _ (Or.inr ⟨_, hpresent, rfl⟩)]

/-- A clone of a directory with a table and a page. -/
theorem destroy_frees_clone_onePage :
    let st := onePage [0x6000, 0x7000, 0x8000]
    let clone := st.vmmCloneDir 0x100000
    let ended := clone.2.vmmDestroyDir clone.1
    exists frames : List UInt32, frames.Nodup ∧
      clone.2.taken = frames ++ st.taken ∧ clone.2.freed = st.freed ∧
      ended.taken = frames ++ st.taken ∧
      ended.freed.Perm (frames ++ st.freed) ∧
      allocated ended = allocated st ∧
      forall virt, vmmVirtToPhys ended.mem 0x100000 virt =
        vmmVirtToPhys st.mem 0x100000 virt := by
  apply destroy_frees_clone onePage_threeFrames
  intro m hm
  exact (onePage_answer hm).left

end Vmm
end Mm
end EarlnuxOS
