import EarlnuxOS.Foundation.Run
import EarlnuxOS.Mm.Pmm.KernelImage
import EarlnuxOS.Mm.Vmm.CloneMapped
import EarlnuxOS.Mm.Vmm.EarlyMap

/-!
# Runs of the virtual memory manager

After `vmm_init`, callers map and unmap pages, clone directories and destroy
clones.  The frames for directories and tables have to lie in the identity map.
-/

namespace EarlnuxOS
namespace Mm

open Foundation

universe u

/-- The manager, and the clones that have not been destroyed. -/
structure Machine (alpha : Type u) where
  vmm : Vmm alpha
  live : List UInt32

inductive DirOp where
  | map (dir virt phys flags : UInt32)
  | unmap (dir virt : UInt32)
  | mapRange (dir virt phys size flags : UInt32)
  | clone (src : UInt32)
  | destroy (dir : UInt32)

namespace Machine

variable {alpha : Type u}

def dirs (m : Machine alpha) : Set UInt32 :=
  insert m.vmm.kernelPgdir { d | d ∈ m.live }

def Spares (m : Machine alpha) (dir virt : UInt32) : Prop :=
  dir = m.vmm.kernelPgdir -> 0x800000 ≤ virt

def rangePages (size : UInt32) : List Nat :=
  List.range (alignUp size pageSize / pageSize).toNat

def rangeAddress (virt : UInt32) (i : Nat) : UInt32 :=
  alignDown virt pageSize + UInt32.ofNat i * pageSize

variable [PageAllocator alpha]

def start (st : Vmm alpha) : Machine alpha where
  vmm := st.vmmInit
  live := []

def exec (m : Machine alpha) : DirOp -> Machine alpha
  | DirOp.map dir virt phys flags =>
      { m with vmm := (m.vmm.vmmMapPage dir virt phys flags).2 }
  | DirOp.unmap dir virt => { m with vmm := m.vmm.vmmUnmapPage dir virt }
  | DirOp.mapRange dir virt phys size flags =>
      { m with vmm := m.vmm.vmmMapRange dir virt phys size flags }
  | DirOp.clone src =>
      let clone := m.vmm.vmmCloneDir src
      { vmm := clone.2
        live := if clone.1 = 0 then m.live else clone.1 :: m.live }
  | DirOp.destroy dir =>
      { vmm := m.vmm.vmmDestroyDir dir
        live := m.live.erase dir }

theorem start_vmm (st : Vmm alpha) : (start st).vmm = st.vmmInit := rfl

theorem exec_map (m : Machine alpha) (dir virt phys flags : UInt32) :
    (m.exec (DirOp.map dir virt phys flags)).vmm =
      (m.vmm.vmmMapPage dir virt phys flags).2 := rfl

/--
A call on a directory in use that leaves the kernel's first 8 MB alone, and for
which the allocator has frames below 8 MB that are not in use: at most one table
for each page to map, and for a clone all its tables, unless there is no frame
for its directory.
-/
def StepOk (m : Machine alpha) : DirOp -> Prop
  | DirOp.map dir virt _ _ =>
      dir ∈ m.dirs ∧ m.Spares dir virt ∧ Vmm.Ready m.dirs 1 m.vmm
  | DirOp.unmap dir virt => dir ∈ m.dirs ∧ m.Spares dir virt
  | DirOp.mapRange dir virt _ size _ =>
      dir ∈ m.dirs ∧
        (forall i, i ∈ rangePages size -> m.Spares dir (rangeAddress virt i)) ∧
        Vmm.Ready m.dirs (rangePages size).length m.vmm
  | DirOp.clone src =>
      src ∈ m.dirs ∧ Supply m.vmm.pmm (Vmm.inUse m.vmm.mem m.dirs) ∧
        (answer m.vmm.pmm 0 ≠ 0 ->
          forall f, f ∈ Vmm.cloneAnswers m.vmm.pmm m.vmm.mem src ->
            f ≠ 0 ∧ Vmm.Low f)
  | DirOp.destroy dir => dir ∈ m.live

/--
The machine before `vmm_init`: paging is off, and the first two frames and the
kernel's directory lie below 8 MB.
-/
structure BootOk (st : Vmm alpha) : Prop where
  off : Vmm.Off st.kernelPgdir st
  kernelLow : Vmm.Low st.kernelPgdir
  frames : Vmm.EarlyFrames st.pmm st.kernelPgdir
  low : forall n, n < 2 -> Vmm.Low (answer st.pmm n)

structure Inv (m : Machine alpha) : Prop where
  sound : exists t, Vmm.Sound m.vmm.kernelPgdir t m.dirs m.vmm
  some : forall d, d ∈ m.live -> d ≠ 0

omit [PageAllocator alpha] in
theorem Inv.of_sound {m : Machine alpha} {k : UInt32}
    {t : Fin 1024 -> UInt32}
    (h : Vmm.Sound k t (insert k { d | d ∈ m.live }) m.vmm)
    (hsome : forall d, d ∈ m.live -> d ≠ 0) : Inv m := by
  refine ⟨⟨t, ?_⟩, hsome⟩
  unfold dirs
  rw [h.mapped.dir]
  exact h

omit [PageAllocator alpha] in
theorem Spares.index {m : Machine alpha} {dir virt : UInt32}
    (h : m.Spares dir virt) (hdir : dir = m.vmm.kernelPgdir) :
    2 ≤ (pdeIndex virt).val := by
  have hle := UInt32.le_iff_toNat_le.mp (h hdir)
  have hbase : (0x800000 : UInt32).toNat = 2 ^ 23 := by decide
  rw [pdeIndex_val]
  omega

/-!
# Calls
-/

theorem Inv.clone {m : Machine alpha} (h : Inv m) {src : UInt32}
    (hok : m.StepOk (DirOp.clone src)) : Inv (m.exec (DirOp.clone src)) := by
  rcases h.sound with ⟨t, hsound⟩
  rcases hok with ⟨hsrc, hsupply, hanswers⟩
  have hlive : (m.exec (DirOp.clone src)).live =
      if answer m.vmm.pmm 0 = 0 then m.live
      else answer m.vmm.pmm 0 :: m.live := by
    show (if (m.vmm.vmmCloneDir src).1 = 0 then m.live
      else (m.vmm.vmmCloneDir src).1 :: m.live) = _
    rw [Vmm.vmmCloneDir_first]
  by_cases hzero : answer m.vmm.pmm 0 = 0
  · rw [if_pos hzero] at hlive
    have hvmm : (m.exec (DirOp.clone src)).vmm = m.vmm.pmmAllocPage.2 := by
      show (m.vmm.vmmCloneDir src).2 = _
      rw [Vmm.vmmCloneDir_none hzero]
    apply Inv.of_sound (k := m.vmm.kernelPgdir) (t := t)
    · rw [hlive, hvmm]
      exact ⟨hsound.mapped.pmmAllocPage, hsound.dirs⟩
    · rw [hlive]
      exact h.some
  · rw [if_neg hzero] at hlive
    have hclone := hsound.vmmCloneDir hsrc hsupply hzero (hanswers hzero)
    apply Inv.of_sound (k := m.vmm.kernelPgdir) (t := t)
    · rw [hlive]
      have hdirs : insert m.vmm.kernelPgdir
          { d | d ∈ answer m.vmm.pmm 0 :: m.live } =
            insert (answer m.vmm.pmm 0) m.dirs := by
        unfold dirs
        rw [Set.insert_comm]
        congr 1
        ext d
        exact List.mem_cons
      rw [hdirs]
      exact hclone
    · rw [hlive]
      intro d hd
      rcases List.mem_cons.mp hd with heq | hd
      · rw [heq]
        exact hzero
      · exact h.some d hd

theorem Inv.step {m : Machine alpha} (h : Inv m) (o : DirOp)
    (hok : m.StepOk o) : Inv (m.exec o) := by
  rcases h.sound with ⟨t, hsound⟩
  cases o with
  | map dir virt phys flags =>
      rcases hok with ⟨hdir, hspares, hready⟩
      exact Inv.of_sound (hsound.vmmMapPage hready hdir hspares.index phys
        flags).left h.some
  | unmap dir virt =>
      rcases hok with ⟨hdir, hspares⟩
      exact Inv.of_sound (hsound.vmmUnmapPage hdir hspares.index) h.some
  | mapRange dir virt phys size flags =>
      rcases hok with ⟨hdir, hspares, hready⟩
      exact Inv.of_sound (hsound.mapPages hready hdir (rangeAddress virt)
        (rangeAddress phys) flags (fun i hi => (hspares i hi).index)) h.some
  | clone src => exact h.clone hok
  | destroy dir =>
      have hdir : dir ∈ m.dirs := Set.mem_insert_of_mem _ hok
      have hdestroy := hsound.vmmDestroyDir hdir
      have hsub : insert m.vmm.kernelPgdir { d | d ∈ m.live.erase dir } ⊆
          m.dirs :=
        Set.insert_subset_insert (fun d hd => List.mem_of_mem_erase hd)
      apply Inv.of_sound (k := m.vmm.kernelPgdir) (t := t)
      · exact ⟨hdestroy.mapped,
          hdestroy.dirs.mono (Set.mem_insert _ _) hsub⟩
      · exact fun d hd => h.some d (List.mem_of_mem_erase hd)

theorem BootOk.tables {st : Vmm alpha} (h : BootOk st) {d : UInt32}
    {i : Fin 1024} (hd : d ∈ insert st.kernelPgdir { d | d ∈ (start st).live }) :
    d = st.kernelPgdir ∧ (present (st.vmmInit.mem d i) = true ->
      i.val < 2 ∧ frame (st.vmmInit.mem d i) = answer st.pmm i.val) := by
  rcases h.off.vmmInit h.frames with ⟨hmapped, hrest, _⟩
  have hdir : d = st.kernelPgdir := by
    rcases Set.mem_insert_iff.mp hd with heq | hd
    · exact heq
    · exact absurd hd List.not_mem_nil
  refine ⟨hdir, ?_⟩
  rw [hdir]
  intro hi
  have hlt : i.val < 2 := by
    by_contra hge
    rw [hrest i (by omega), present_zero] at hi
    cases hi
  exact ⟨hlt, (hmapped.identity.table i (by omega)).right.right⟩

theorem inv_start {st : Vmm alpha} (h : BootOk st) : Inv (start st) := by
  rcases h.off.vmmInit h.frames with ⟨hmapped, _, _⟩
  apply Inv.of_sound (k := st.kernelPgdir)
    (t := fun i => answer st.pmm i.val) _
    (fun d hd => absurd hd List.not_mem_nil)
  rw [start_vmm]
  refine ⟨hmapped, Set.mem_insert _ _, ?_, ?_, ?_, ?_⟩
  · intro d hd
    rw [(h.tables (i := 0) hd).left]
    exact h.kernelLow
  · intro d i hd hi
    rcases (h.tables hd).right hi with ⟨hlt, hframe⟩
    rw [hframe]
    exact h.low _ hlt
  · intro d i hd hi hmem
    rcases (h.tables hd).right hi with ⟨hlt, hframe⟩
    rw [hframe] at hmem
    exact h.frames.apart _ hlt (h.tables (i := 0) hmem).left
  · intro d i hd hi n _ _
    exact ⟨(h.tables (i := 0) hd).left, ((h.tables hd).right hi).left⟩

theorem BootOk.ready {st : Vmm alpha} (h : BootOk st)
    (hsupply : Supply st.pmm {st.kernelPgdir}) {n : Nat}
    (hlow : forall m, m < n -> answer st.pmm (2 + m) ≠ 0 ->
      Vmm.Low (answer st.pmm (2 + m))) :
    Vmm.Ready (start st).dirs n (start st).vmm := by
  rcases h.off.vmmInit h.frames with ⟨hmapped, _, hpmm⟩
  have hdirs : (start st).dirs =
      insert st.kernelPgdir { d | d ∈ (start st).live } := by
    unfold dirs
    rw [start_vmm, hmapped.dir]
  rw [hdirs, start_vmm]
  constructor
  · rw [hpmm]
    have hrest := hsupply.after 2
    refine ⟨hrest.aligned, ?_, hrest.distinct⟩
    intro f hf huse
    rcases huse with ⟨d, hd, heq | ⟨i, hi, heq⟩⟩
    · rw [(h.tables (i := 0) hd).left] at heq
      exact hrest.unused f hf heq
    · rcases (h.tables hd).right hi with ⟨hlt, hframe⟩
      rw [heq, hframe] at hf
      exact hsupply.not_given_after hlt hf
  · intro m hm
    rw [hpmm, answer_after]
    exact hlow m hm

/--
In every run whose steps find their frames below 8 MB, the manager has used only
addresses that the kernel's directory maps to themselves, and a switch to a
clone loads its address.
-/
theorem frames_mapped {st : Vmm alpha} {m : Machine alpha} (hboot : BootOk st)
    (hreach : Reachable exec StepOk (start st) m) :
    m.vmm.paging = true ∧ m.vmm.unmapped = false ∧
      forall d, d ∈ m.live -> (m.vmm.vmmSwitchDir d).cr3 = d ∧ d ≠ 0 := by
  have hinv : Inv m := hreach.invariant (inv_start hboot)
    (fun m o h hok => h.step o hok)
  rcases hinv.sound with ⟨t, hsound⟩
  refine ⟨hsound.mapped.paging, hsound.mapped.quiet, ?_⟩
  intro d hd
  exact ⟨hsound.mapped.identity.vmmVirtToPhys
    (hsound.dirs.low d (Set.mem_insert_of_mem _ hd)), hinv.some d hd⟩

theorem cleared_boot : BootOk (Vmm.cleared [0x5000, 0x6000, 0x7000]) := by
  refine ⟨⟨rfl, rfl, rfl⟩, by decide, ⟨?_, ?_, ?_, by decide⟩, ?_⟩ <;> decide

/-- A table for the page at 8 MB. -/
theorem frames_mapped_oneCall :
    ((start (Vmm.cleared [0x5000, 0x6000, 0x7000])).exec
        (DirOp.map 0x100000 0x800000 0x9000 3)).vmm.paging = true ∧
      ((start (Vmm.cleared [0x5000, 0x6000, 0x7000])).exec
        (DirOp.map 0x100000 0x800000 0x9000 3)).vmm.unmapped = false ∧
      forall d, d ∈ ((start (Vmm.cleared [0x5000, 0x6000, 0x7000])).exec
          (DirOp.map 0x100000 0x800000 0x9000 3)).live ->
        (((start (Vmm.cleared [0x5000, 0x6000, 0x7000])).exec
          (DirOp.map 0x100000 0x800000 0x9000 3)).vmm.vmmSwitchDir d).cr3 = d ∧
          d ≠ 0 := by
  have hsupply : Supply [(0x5000 : UInt32), 0x6000, 0x7000] {0x100000} :=
    Vmm.supply_list (by simp; decide) (by simp) (by decide)
  have hready := cleared_boot.ready (n := 1) hsupply (by decide)
  rcases cleared_boot.off.vmmInit cleared_boot.frames with ⟨hmapped, _, _⟩
  have hdir : (start (Vmm.cleared [0x5000, 0x6000, 0x7000])).vmm.kernelPgdir =
      0x100000 := hmapped.dir
  apply frames_mapped cleared_boot (Reachable.one _)
  refine ⟨?_, fun _ => by decide, hready⟩
  unfold dirs
  rw [hdir]
  exact Set.mem_insert _ _

end Machine

end Mm
end EarlnuxOS
