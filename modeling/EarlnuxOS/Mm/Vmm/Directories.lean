import EarlnuxOS.Mm.Vmm.CloneFaithful
import EarlnuxOS.Mm.Vmm.IdentityMap

/-!
# Directories in use

The kernel's directory and the clones that are alive, with their tables.  All
of these are below 8 MB, and no directory uses a frame of another one for a
table.
-/

namespace EarlnuxOS
namespace Mm
namespace Vmm

universe u

variable {alpha : Type u} {st : Vmm alpha} {mem mem' : Frames}
  {k dir virt : UInt32} {t : Fin 1024 -> UInt32} {dirs dirs' : Set UInt32}

def inUse (mem : Frames) (dirs : Set UInt32) : Set UInt32 :=
  { f | exists d, d ∈ dirs ∧ f ∈ dirFrames mem d }

structure DirsInv (mem : Frames) (k : UInt32) (t : Fin 1024 -> UInt32)
    (dirs : Set UInt32) : Prop where
  kernel : k ∈ dirs
  low : forall d, d ∈ dirs -> Low d
  tableLow : forall d i, d ∈ dirs -> present (mem d i) = true ->
    Low (frame (mem d i))
  tableApart : forall d i, d ∈ dirs -> present (mem d i) = true ->
    frame (mem d i) ∉ dirs
  own : forall d i, d ∈ dirs -> present (mem d i) = true ->
    forall n : Fin 1024, n.val < 2 -> frame (mem d i) = t n ->
      d = k ∧ i.val < 2

/-- The kernel has its identity map, and the directories are in order. -/
structure Sound (k : UInt32) (t : Fin 1024 -> UInt32) (dirs : Set UInt32)
    (st : Vmm alpha) : Prop where
  mapped : Mapped k t st
  dirs : DirsInv st.mem k t dirs

theorem dir_inUse {d : UInt32} (hd : d ∈ dirs) : d ∈ inUse mem dirs :=
  ⟨d, hd, Or.inl rfl⟩

theorem table_inUse {d : UInt32} {i : Fin 1024} (hd : d ∈ dirs)
    (hi : present (mem d i) = true) : frame (mem d i) ∈ inUse mem dirs :=
  ⟨d, hd, Or.inr ⟨i, hi, rfl⟩⟩

theorem inUse_congr (h : forall d, d ∈ dirs -> mem' d = mem d) :
    inUse mem' dirs = inUse mem dirs := by
  ext f
  constructor
  · intro hf
    rcases hf with ⟨d, hd, hf⟩
    refine ⟨d, hd, ?_⟩
    unfold dirFrames at hf ⊢
    rw [h d hd] at hf
    exact hf
  · intro hf
    rcases hf with ⟨d, hd, hf⟩
    refine ⟨d, hd, ?_⟩
    unfold dirFrames at hf ⊢
    rw [h d hd]
    exact hf

theorem DirsInv.congr (h : DirsInv mem k t dirs)
    (hsame : forall d, d ∈ dirs -> mem' d = mem d) :
    DirsInv mem' k t dirs where
  kernel := h.kernel
  low := h.low
  tableLow := by
    intro d i hd
    rw [hsame d hd]
    exact h.tableLow d i hd
  tableApart := by
    intro d i hd
    rw [hsame d hd]
    exact h.tableApart d i hd
  own := by
    intro d i hd
    rw [hsame d hd]
    exact h.own d i hd

theorem DirsInv.mono (h : DirsInv mem k t dirs) (hkernel : k ∈ dirs')
    (hsub : dirs' ⊆ dirs) : DirsInv mem k t dirs' where
  kernel := hkernel
  low := fun d hd => h.low d (hsub hd)
  tableLow := fun d i hd => h.tableLow d i (hsub hd)
  tableApart := fun d i hd hi hmem => h.tableApart d i (hsub hd) hi (hsub hmem)
  own := fun d i hd => h.own d i (hsub hd)

theorem Sound.first_inUse (h : Sound k t dirs st) {n : Fin 1024}
    (hn : n.val < 2) : present (st.mem k n) = true ∧
      frame (st.mem k n) = t n ∧ t n ∈ inUse st.mem dirs := by
  rcases h.mapped.identity.table n (by omega) with ⟨hpresent, _, htable⟩
  refine ⟨hpresent, htable, ?_⟩
  rw [← htable]
  exact table_inUse h.dirs.kernel hpresent

theorem Sound.outside (h : Sound k t dirs st) {f : UInt32}
    (hf : f ∉ inUse st.mem dirs) : Outside k t f := by
  constructor
  · intro heq
    exact hf (heq ▸ dir_inUse h.dirs.kernel)
  · intro n hn heq
    exact hf (heq ▸ (h.first_inUse hn).right.right)

theorem Sound.dir_writable (h : Sound k t dirs st) (hd : dir ∈ dirs)
    {i : Fin 1024} (hi : dir = k -> 2 ≤ i.val) : Writable k t dir i := by
  refine ⟨hi, ?_⟩
  intro n hn heq
  rcases h.first_inUse hn with ⟨hpresent, htable, _⟩
  exact h.dirs.tableApart k n h.dirs.kernel hpresent
    (by rw [htable, ← heq]; exact hd)

theorem Sound.table_outside (h : Sound k t dirs st) (hd : dir ∈ dirs)
    {i : Fin 1024} (hpresent : present (st.mem dir i) = true)
    (hi : dir = k -> 2 ≤ i.val) : Outside k t (frame (st.mem dir i)) := by
  constructor
  · intro heq
    exact h.dirs.tableApart dir i hd hpresent (heq ▸ h.dirs.kernel)
  · intro n hn heq
    rcases h.dirs.own dir i hd hpresent n hn heq with ⟨hk, hlt⟩
    have hle := hi hk
    omega

theorem DirsInv.storeTable (h : DirsInv st.mem k t dirs) (hd : dir ∈ dirs)
    {i : Fin 1024} (hi : present (st.mem dir i) = true) (j : Fin 1024)
    (word : UInt32) {d : UInt32} (hd' : d ∈ dirs) :
    (st.store (frame (st.mem dir i)) j word).mem d = st.mem d := by
  funext n
  apply mem_store_other
  intro heq
  exact h.tableApart dir i hd hi (heq ▸ hd')

theorem Sound.storeTable (h : Sound k t dirs st) (hd : dir ∈ dirs)
    {i : Fin 1024} (hpresent : present (st.mem dir i) = true)
    (hi : dir = k -> 2 ≤ i.val) (j : Fin 1024) (word : UInt32) :
    Sound k t dirs (st.store (frame (st.mem dir i)) j word) where
  mapped := h.mapped.store (h.dirs.tableLow dir i hd hpresent)
    ((h.table_outside hd hpresent hi).writable j) word
  dirs := h.dirs.congr (fun _ => h.dirs.storeTable hd hpresent j word)

theorem Sound.access (h : Sound k t dirs st) (hd : dir ∈ dirs) :
    Sound k t dirs (st.access dir) :=
  ⟨h.mapped.access (h.dirs.low dir hd), h.dirs⟩

theorem Sound.storeEntry (h : Sound k t dirs st) (hd : dir ∈ dirs)
    {i : Fin 1024} (hi : dir = k -> 2 ≤ i.val) {entry : UInt32}
    (hnew : frame entry ∉ inUse st.mem dirs) (hlow : Low (frame entry)) :
    Sound k t dirs (st.store dir i entry) := by
  have hword : forall d i', (st.store dir i entry).mem d i' = entry ∨
      (st.store dir i entry).mem d i' = st.mem d i' := by
    intro d i'
    rw [mem_store]
    split
    · exact Or.inl rfl
    · exact Or.inr rfl
  refine ⟨h.mapped.store (h.dirs.low dir hd) (h.dir_writable hd hi) entry,
    h.dirs.kernel, h.dirs.low, ?_, ?_, ?_⟩
  · intro d i' hd' hpresent
    rcases hword d i' with hsame | hsame
    · rw [hsame]
      exact hlow
    · rw [hsame] at hpresent ⊢
      exact h.dirs.tableLow d i' hd' hpresent
  · intro d i' hd' hpresent
    rcases hword d i' with hsame | hsame
    · rw [hsame]
      exact fun hmem => hnew (dir_inUse hmem)
    · rw [hsame] at hpresent ⊢
      exact h.dirs.tableApart d i' hd' hpresent
  · intro d i' hd' hpresent n hn
    rcases hword d i' with hsame | hsame
    · rw [hsame]
      intro heq
      exact absurd (h.first_inUse hn).right.right (heq ▸ hnew)
    · rw [hsame] at hpresent ⊢
      exact h.dirs.own d i' hd' hpresent n hn

theorem inUse_storeEntry {i : Fin 1024} {entry f : UInt32}
    (hf : f ∈ inUse (st.store dir i entry).mem dirs) :
    f = frame entry ∨ f ∈ inUse st.mem dirs := by
  rcases hf with ⟨d, hd, hf | ⟨i', hpresent, hf⟩⟩
  · rw [hf]
    exact Or.inr (dir_inUse hd)
  · rw [mem_store] at hpresent hf
    split at hpresent
    · rename_i hsame
      rw [if_pos hsame] at hf
      exact Or.inl hf
    · rename_i hother
      rw [if_neg hother] at hf
      rw [hf]
      exact Or.inr (table_inUse hd hpresent)

/-!
# Mapping
-/

theorem Sound.vmmUnmapPage (h : Sound k t dirs st) (hd : dir ∈ dirs)
    (hi : dir = k -> 2 ≤ (pdeIndex virt).val) :
    Sound k t dirs (st.vmmUnmapPage dir virt) := by
  have haccess := h.access hd
  cases htable : present (st.mem dir (pdeIndex virt)) with
  | true =>
      rw [vmmUnmapPage_table htable]
      exact haccess.storeTable hd htable hi _ _
  | false =>
      rw [vmmUnmapPage_none htable]
      exact haccess

variable [PageAllocator alpha]

/--
No frame in use will be handed out, and the next frames, if there are any, are
below 8 MB.
-/
structure Ready (dirs : Set UInt32) (n : Nat) (st : Vmm alpha) : Prop where
  supply : Supply st.pmm (inUse st.mem dirs)
  low : forall m, m < n -> answer st.pmm m ≠ 0 -> Low (answer st.pmm m)

theorem Ready.keep {st' : Vmm alpha} {n n' : Nat} (h : Ready dirs n st)
    (hle : n' ≤ n) (hpmm : st'.pmm = st.pmm)
    (hsame : forall d, d ∈ dirs -> st'.mem d = st.mem d) :
    Ready dirs n' st' where
  supply := by
    rw [hpmm, inUse_congr hsame]
    exact h.supply
  low := by
    intro m hm
    rw [hpmm]
    exact h.low m (by omega)

/-- A new table is one frame more in use, and one frame less to come. -/
theorem Ready.next {st' : Vmm alpha} {n : Nat} (h : Ready dirs (n + 1) st)
    (hpmm : st'.pmm = (PageAllocator.pmmAllocPage st.pmm).2)
    (huse : forall f, f ∈ inUse st'.mem dirs ->
      f = answer st.pmm 0 ∨ f ∈ inUse st.mem dirs) : Ready dirs n st' where
  supply := by
    rw [hpmm]
    apply h.supply.next.mono
    intro f hf
    exact Set.mem_insert_iff.mpr (huse f hf)
  low := by
    intro m hm hne
    rw [hpmm, ← answer_succ] at hne ⊢
    exact h.low (m + 1) (by omega) hne

theorem Sound.vmmMapPage {n : Nat} (h : Sound k t dirs st)
    (hready : Ready dirs (n + 1) st) (hd : dir ∈ dirs)
    (hi : dir = k -> 2 ≤ (pdeIndex virt).val) (phys flags : UInt32) :
    Sound k t dirs (st.vmmMapPage dir virt phys flags).2 ∧
      Ready dirs n (st.vmmMapPage dir virt phys flags).2 := by
  have haccess := h.access hd
  cases htable : present (st.mem dir (pdeIndex virt)) with
  | true =>
      rw [vmmMapPage_table phys flags htable]
      exact ⟨haccess.storeTable hd htable hi _ _,
        hready.keep (Nat.le_succ n) rfl
          (fun _ => haccess.dirs.storeTable hd htable _ _)⟩
  | false =>
      by_cases hnone : (st.access dir).allocPageTable.1 = 0
      · rw [vmmMapPage_fail phys flags htable hnone,
          (allocPageTable_none hnone).right]
        exact ⟨⟨haccess.mapped.pmmAllocPage, haccess.dirs⟩,
          hready.next rfl (fun f hf => Or.inr hf)⟩
      · have hmem : forall f j, (st.access dir).allocPageTable.2.mem f j =
            if f = answer st.pmm 0 then 0 else st.mem f j := by
          intro f j
          rw [mem_allocPageTable hnone, allocPageTable_eq]
          rfl
        have hpmm := @pmm_allocPageTable _ (st.access dir) _
        rw [vmmMapPage_new phys flags htable hnone]
        rw [allocPageTable_eq] at hnone ⊢
        have hnew := hready.supply.unused _ (given_first hnone)
        have hsame : forall d, d ∈ dirs ->
            (st.access dir).allocPageTable.2.mem d = st.mem d := by
          intro d hd'
          funext j
          rw [hmem, if_neg]
          intro heq
          exact hnew (heq ▸ dir_inUse hd')
        have htable : Sound k t dirs (st.access dir).allocPageTable.2 :=
          ⟨haccess.mapped.allocPageTable (fun hne =>
            ⟨hready.low 0 (Nat.succ_pos n) hne, haccess.outside hnew⟩),
            haccess.dirs.congr hsame⟩
        have hframe : frame (tableEntry (answer st.pmm 0) flags) =
            answer st.pmm 0 := by
          rw [frame_tableEntry]
          exact hready.supply.aligned 0
        have hself := (st.access dir).allocPageTable.2.mem_store_self dir
          (pdeIndex virt) (tableEntry (answer st.pmm 0) flags)
        have hpresent : present (((st.access dir).allocPageTable.2.store dir
            (pdeIndex virt) (tableEntry (answer st.pmm 0) flags)).mem dir
              (pdeIndex virt)) = true := by
          rw [hself]
          exact present_tableEntry _ _
        have hentry := htable.storeEntry hd hi
          (by rw [hframe, inUse_congr hsame]; exact hnew)
          (by rw [hframe]; exact hready.low 0 (Nat.succ_pos n) hnone)
        have hpage := hentry.storeTable hd hpresent hi (pteIndex virt)
          (mapEntry phys flags)
        have hdirs : forall d, d ∈ dirs -> _ = _ :=
          fun d => hentry.dirs.storeTable hd hpresent (pteIndex virt)
            (mapEntry phys flags)
        rw [hself, hframe] at hpage hdirs
        refine ⟨hpage, hready.next hpmm ?_⟩
        intro f hf
        have hold := inUse_storeEntry ((inUse_congr hdirs) ▸ hf)
        rw [hframe, inUse_congr hsame] at hold
        exact hold

theorem Sound.mapPages {pages : List Nat} (h : Sound k t dirs st)
    (hready : Ready dirs pages.length st) (hd : dir ∈ dirs)
    (virt phys : Nat -> UInt32) (flags : UInt32)
    (hi : forall i, i ∈ pages -> dir = k -> 2 ≤ (pdeIndex (virt i)).val) :
    Sound k t dirs (pages.foldl (fun st i =>
      (st.vmmMapPage dir (virt i) (phys i) flags).2) st) := by
  induction pages generalizing st with
  | nil => exact h
  | cons i pages ih =>
      rcases h.vmmMapPage hready hd (hi i List.mem_cons_self) (phys i) flags with
        ⟨hnext, hrest⟩
      exact ih hnext hrest (fun i' hi' => hi i' (List.mem_cons_of_mem i hi'))

end Vmm
end Mm
end EarlnuxOS
