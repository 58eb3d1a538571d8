import EarlnuxOS.Mm.Vmm.AddressSpaces

/-!
# Isolation

What keeps address spaces private is that each frame has one owner: one place
in one space, or a block that some caller holds.  The kernel's part of every
directory is shared, and no call on the user's part touches it.
-/

namespace EarlnuxOS
namespace Mm

open Foundation
open Vmm

/--
A directory with tables of its own, in frames that are kept by callers who do
not give them back, or that are in no zone at all.
-/
structure KernelDir (owned : ZoneId -> Set Nat) (kept : List Held)
    (mem : Frames) (k : UInt32) : Prop where
  ok : DirOk mem k
  distinct : forall i i', present (mem k i) = true ->
    present (mem k i') = true -> frame (mem k i) = frame (mem k i') -> i = i'
  keeps : dirFrames mem k ⊆ engaged owned kept

/-- Each frame has one owner, and the kernel's entries are everywhere. -/
structure SpacesInv (owned : ZoneId -> Set Nat) (kept : List Held)
    (k : UInt32) (s : SpaceState) : Prop where
  lent : Lent owned (s.frames.map heldPage ++ (s.pages ++ kept)) s.vm.pmm
  ok : forall d, d ∈ s.spaces -> DirOk s.vm.mem d
  shared : forall d, d ∈ s.spaces -> forall i, pdeIndex kernelBase ≤ i ->
    s.vm.mem d i = s.vm.mem k i
  kernel : KernelDir owned kept s.vm.mem k

variable {owned : ZoneId -> Set Nat} {kept : List Held} {k dir d f : UInt32}
  {mem mem' : Frames} {s : SpaceState}

theorem KernelDir.congr (h : KernelDir owned kept mem k)
    (hrow : mem' k = mem k) : KernelDir owned kept mem' k where
  ok := h.ok.congr (fun i => congrFun hrow i)
  distinct := by
    rw [hrow]
    exact h.distinct
  keeps := by
    unfold dirFrames
    rw [hrow]
    exact h.keeps

theorem KernelDir.dir_engaged (h : KernelDir owned kept mem k) :
    k ∈ engaged owned kept :=
  h.keeps (Or.inl rfl)

namespace SpacesInv

theorem frames_nodup (h : SpacesInv owned kept k s) : s.frames.Nodup :=
  h.lent.frames_nodup

theorem spaces_nodup (h : SpacesInv owned kept k s) : s.spaces.Nodup :=
  holders_nodup h.frames_nodup (fun d _ => ⟨d, dir_mem_spaceFrames⟩)

theorem mem_frames (hd : d ∈ s.spaces) (hf : f ∈ spaceFrames s.vm.mem d) :
    f ∈ s.frames :=
  List.mem_flatMap.mpr ⟨d, hd, hf⟩

theorem space_unique (h : SpacesInv owned kept k s) (hdir : dir ∈ s.spaces)
    (hd : d ∈ s.spaces) (hf : f ∈ spaceFrames s.vm.mem dir)
    (hf' : f ∈ spaceFrames s.vm.mem d) : dir = d :=
  holder_unique h.frames_nodup hdir hd hf hf'

theorem frame_unkept (h : SpacesInv owned kept k s) (hf : f ∈ s.frames) :
    f ∉ engaged owned kept := by
  intro hkept
  exact h.lent.frame_apart hf
    (engaged_mono (List.subset_append_right _ _) hkept)

theorem held_apart (h : SpacesInv owned kept k s)
    (hf : f ∈ SpaceState.heldFrames s.pages) :
    f ∉ s.frames ∧ f ∉ engaged owned kept := by
  rcases hf with ⟨b, hb, hfb⟩
  constructor
  · intro hmem
    exact h.lent.frame_apart hmem
      (Or.inr ⟨b, List.mem_append_left _ hb, hfb.right⟩)
  · have hlent := h.lent.perm List.perm_append_comm
    rw [List.append_assoc] at hlent
    intro hkept
    exact hlent.block_apart hb hfb.right
      (engaged_mono (List.subset_append_left _ _) hkept)

theorem dirFrames_cases (h : SpacesInv owned kept k s) (hd : d ∈ s.spaces)
    (hf : f ∈ dirFrames s.vm.mem d) :
    f ∈ spaceFrames s.vm.mem d ∨
      (f ∈ engaged owned kept ∧ f ≠ k) := by
  rcases hf with heq | ⟨i, hpresent, heq⟩
  · rw [heq]
    exact Or.inl dir_mem_spaceFrames
  · by_cases hi : i < pdeIndex kernelBase
    · rw [heq]
      exact Or.inl (owned_mem_spaceFrames (table_mem_owned ⟨hpresent, hi⟩))
    · right
      rw [h.shared d hd i (not_lt.mp hi)] at hpresent heq
      refine ⟨h.kernel.keeps (Or.inr ⟨i, hpresent, heq⟩), ?_⟩
      rw [heq]
      exact h.kernel.ok.apart i hpresent

theorem unshared (h : SpacesInv owned kept k s) (hd : d ∈ s.spaces) :
    Unshared s.vm.mem d where
  ok := h.ok d hd
  nodup := share_nodup h.frames_nodup hd
  kernel := by
    intro i hi hpresent hmem
    rw [h.shared d hd i hi] at hpresent hmem
    exact h.frame_unkept (mem_frames hd hmem)
      (h.kernel.keeps (Or.inr ⟨i, hpresent, rfl⟩))
  kernelApart := by
    intro i i' hi hi'
    rw [h.shared d hd i hi, h.shared d hd i' hi']
    exact h.kernel.distinct i i'

theorem kernel_apart (h : SpacesInv owned kept k s) (hd : d ∈ s.spaces) :
    k ∉ dirFrames s.vm.mem d := by
  intro hmem
  rcases h.dirFrames_cases hd hmem with hown | ⟨_, hne⟩
  · exact h.frame_unkept (mem_frames hd hown) h.kernel.dir_engaged
  · exact hne rfl

theorem held_not_table (h : SpacesInv owned kept k s) (hd : d ∈ s.spaces)
    (hf : f ∈ SpaceState.heldFrames s.pages) :
    f ∉ dirFrames s.vm.mem d := by
  rcases h.held_apart hf with ⟨hframes, hkept⟩
  intro hmem
  rcases h.dirFrames_cases hd hmem with hown | ⟨hengaged, _⟩
  · exact hframes (mem_frames hd hown)
  · exact hkept hengaged

theorem other_not_table (h : SpacesInv owned kept k s) (hdir : dir ∈ s.spaces)
    (hd : d ∈ s.spaces) (hne : d ≠ dir) (hf : f ∈ spaceFrames s.vm.mem d) :
    f ∉ dirFrames s.vm.mem dir := by
  intro hmem
  rcases h.dirFrames_cases hdir hmem with hown | ⟨hengaged, _⟩
  · exact hne (h.space_unique hd hdir hf hown)
  · exact h.frame_unkept (mem_frames hd hf) hengaged

theorem page_not_table (h : SpacesInv owned kept k s) (hdir : dir ∈ s.spaces)
    (hd : d ∈ s.spaces) (hf : UserPage s.vm.mem dir f) :
    f ∉ dirFrames s.vm.mem d := by
  by_cases hdd : d = dir
  · rw [hdd]
    exact (h.unshared hdir).page_apart hf
  · exact h.other_not_table hd hdir (fun heq => hdd heq.symm)
      (userPage_mem (h.ok dir hdir) hf)

/-!
# Writes
-/

theorem poke (h : SpacesInv owned kept k s) {page : UInt32} (i : Fin 1024)
    (word : UInt32) (hkernel : page ≠ k)
    (htable : forall d, d ∈ s.spaces -> page ∉ dirFrames s.vm.mem d) :
    SpacesInv owned kept k { s with vm := s.vm.poke page i word } := by
  have hsame : forall g, g ≠ page ->
      (s.vm.poke page i word).mem g = s.vm.mem g :=
    fun g hg => Vmm.poke_other _ _ _ hg
  have hrow : forall d, d ∈ s.spaces ->
      (s.vm.poke page i word).mem d = s.vm.mem d :=
    fun d hd => hsame d (fun heq => htable d hd (Or.inl heq.symm))
  have hk : (s.vm.poke page i word).mem k = s.vm.mem k :=
    hsame k hkernel.symm
  have hframes : s.spaces.flatMap (spaceFrames (s.vm.poke page i word).mem) =
      s.frames := by
    apply List.flatMap_congr
    intro d hd
    apply spaceFrames_congr (hrow d hd)
    intro i' hi'
    exact hsame _ (fun heq => htable d hd (Or.inr ⟨i', hi'.left, heq.symm⟩))
  constructor
  · unfold SpaceState.frames
    dsimp only
    rw [hframes]
    exact h.lent
  · intro d hd
    exact (h.ok d hd).congr (fun i' => congrFun (hrow d hd) i')
  · intro d hd i' hi'
    dsimp only
    rw [hrow d hd, hk]
    exact h.shared d hd i' hi'
  · exact h.kernel.congr hk

theorem write (h : SpacesInv owned kept k s) {page : UInt32} (i : Fin 1024)
    (word : UInt32) (hpage : page ∈ SpaceState.heldFrames s.pages) :
    SpacesInv owned kept k (s.exec (SpaceOp.write page i word)) ∧
      s.view.Does (s.exec (SpaceOp.write page i word)).view
        (SpaceOp.write page i word) 0 := by
  have hkernel : page ≠ k := by
    intro heq
    exact (h.held_apart hpage).right (heq ▸ h.kernel.dir_engaged)
  refine ⟨h.poke i word hkernel (fun d hd => h.held_not_table hd hpage), ?_⟩
  refine ⟨s.vm.mem page, heldView_some hpage, ?_⟩
  ext1
  · funext g
    show heldView s.pages (s.vm.poke page i word).mem g = _
    by_cases hg : g = page
    · rw [hg, Spaces.setHeld_held_mem _ _ (Set.mem_singleton page),
        heldView_some hpage, Vmm.poke_self]
    · rw [Spaces.setHeld_held_other _ _ (Set.notMem_singleton_iff.mpr hg)]
      unfold heldView
      rw [Vmm.poke_other _ _ _ hg]
      rfl
  · apply spaceView_congr
    intro d hd
    apply image_congr (h.ok d hd)
    intro g hg
    apply Vmm.poke_other
    intro heq
    exact (h.held_apart hpage).left (mem_frames hd (heq ▸ hg))

theorem store (h : SpacesInv owned kept k s) {virt : UInt32} (i : Fin 1024)
    (word : UInt32) (hdir : dir ∈ s.spaces)
    (huser : pdeIndex virt < pdeIndex kernelBase)
    (hmapped : entryAt s.vm.mem dir (pdeIndex virt) (pteIndex virt) ≠ none) :
    SpacesInv owned kept k (s.exec (SpaceOp.store dir virt i word)) ∧
      s.view.Does (s.exec (SpaceOp.store dir virt i word)).view
        (SpaceOp.store dir virt i word) 0 := by
  rcases image_at s.vm.mem dir huser with
    ⟨_, hnone, _⟩ | ⟨pte, hentry, hat, hpage, hphys⟩
  · exact absurd hnone hmapped
  have hkernel : frame pte ≠ k := by
    intro heq
    exact h.frame_unkept (mem_frames hdir (userPage_mem (h.ok dir hdir) hpage))
      (heq ▸ h.kernel.dir_engaged)
  have htable : forall d, d ∈ s.spaces -> frame pte ∉ dirFrames s.vm.mem d :=
    fun d hd => h.page_not_table hdir hd hpage
  have hsame : forall g, g ≠ frame pte ->
      (s.vm.poke (frame pte) i word).mem g = s.vm.mem g :=
    fun g hg => Vmm.poke_other _ _ _ hg
  unfold SpaceState.exec
  dsimp only
  rw [hphys]
  refine ⟨h.poke i word hkernel htable, ?_⟩
  refine ⟨image s.vm.mem dir, _, spaceView_some hdir, hat, ?_⟩
  ext1
  · apply heldView_congr
    intro g hg
    apply hsame
    intro heq
    exact (h.held_apart hg).left (mem_frames hdir
      (heq ▸ userPage_mem (h.ok dir hdir) hpage))
  · have hshown : image (s.vm.poke (frame pte) i word).mem dir =
        (image s.vm.mem dir).set virt
          ((some pte).map (pageOf (s.vm.poke (frame pte) i word).mem)) := by
      apply image_set huser
      · intro i' j'
        have hold : entryAt (s.vm.poke (frame pte) i word).mem dir i' j' =
            entryAt s.vm.mem dir i' j' := by
          apply entryAt_congr
          · rw [hsame dir (fun heq => htable dir hdir (Or.inl heq.symm))]
          · intro hpresent
            rw [hsame _ (fun heq => htable dir hdir
              (Or.inr ⟨i', hpresent, heq.symm⟩))]
        rw [hold]
        split
        · rename_i hhere
          rw [hhere.left, hhere.right, hentry]
        · rfl
      · intro i' j' pte' hother hi' hentry'
        apply hsame
        intro heq
        exact hother ((h.unshared hdir).entry_unique hi' huser hentry' hentry
          heq)
    show spaceView s.spaces (s.vm.poke (frame pte) i word).mem = _
    rw [spaceView_update hdir, hshown]
    · unfold pageOf
      rw [Option.map_some, Vmm.poke_self]
      rfl
    · intro d hd hne
      apply image_congr (h.ok d hd)
      intro g hg
      apply hsame
      intro heq
      rw [heq] at hg
      exact hne (h.space_unique hd hdir hg
        (userPage_mem (h.ok dir hdir) hpage))

/-!
# Blocks of other callers
-/

theorem alloc (h : SpacesInv owned kept k s) (order : Nat) :
    SpacesInv owned kept k (s.exec (SpaceOp.alloc order)) ∧
      s.view.Does (s.exec (SpaceOp.alloc order)).view (SpaceOp.alloc order)
        (s.result (SpaceOp.alloc order)) := by
  have hlent := h.lent.alloc order
  unfold SpaceState.exec SpaceState.result Spaces.Does
  dsimp only
  by_cases hnone : (s.vm.pmm.pmmAllocPages order).1 = 0
  · rw [if_pos hnone] at hlent
    rw [hnone, if_pos rfl, if_pos (by rfl)]
    exact ⟨⟨hlent, h.ok, h.shared, h.kernel⟩, rfl⟩
  · rw [if_neg hnone] at hlent
    rcases hlent.canonical List.mem_cons_self with ⟨hphys, _, _, _⟩
    dsimp only at hphys
    have hne : UInt32.ofNat (s.vm.pmm.pmmAllocPages order).1 ≠ 0 := by
      intro heq
      rw [heq] at hphys
      exact hnone hphys.symm
    rw [if_neg hnone, if_neg hne, hphys]
    refine ⟨⟨hlent.perm List.perm_middle.symm, h.ok, h.shared, h.kernel⟩, ?_,
      s.vm.mem, ?_⟩
    · intro f hf
      apply heldView_none
      intro hheld
      rcases hheld with ⟨c, hc, hfc⟩
      apply hlent.not_engaged hf.right
      exact Or.inr ⟨c, List.mem_append_right _ (List.mem_append_left _ hc),
        hfc.right⟩
    · ext1
      · exact heldView_cons s.view rfl
      · rfl

/-- The other blocks of callers have none of the frames of a block. -/
theorem erase_apart (h : SpacesInv owned kept k s) {b : Held}
    (hb : b ∈ s.pages) (hf : f ∈ b.frames) :
    f ∉ SpaceState.heldFrames (s.pages.erase b) := by
  have hlent := h.lent.perm List.perm_append_comm
  rw [List.append_assoc] at hlent
  have hfirst := hlent.perm ((List.perm_cons_erase hb).append_right _)
  intro hheld
  rcases hheld with ⟨c, hc, hfc⟩
  exact hfirst.not_engaged hf.right
    (Or.inr ⟨c, List.mem_append_left _ hc, hfc.right⟩)

theorem free (h : SpacesInv owned kept k s) {b : Held} (hb : b ∈ s.pages) :
    SpacesInv owned kept k (s.exec (SpaceOp.free b)) ∧
      s.view.Does (s.exec (SpaceOp.free b)).view (SpaceOp.free b) 0 := by
  have hperm : (s.frames.map heldPage ++ (s.pages ++ kept)).Perm
      (b :: (s.frames.map heldPage ++ (s.pages.erase b ++ kept))) :=
    (((List.perm_cons_erase hb).append_right kept).append_left _).trans
      List.perm_middle
  constructor
  · exact ⟨(h.lent.perm hperm).free, h.ok, h.shared, h.kernel⟩
  · show _ = _
    ext1
    · exact heldView_erase s.view rfl hb (fun f hf => h.erase_apart hb hf)
    · rfl

/-!
# Mapping
-/

theorem heldPage_frames (hf : frame f = f) : (heldPage f).frames = {f} := by
  have hunits := heldPage_units f
  ext g
  rw [Set.mem_singleton_iff]
  constructor
  · intro hg
    have hpage : physToPfn g.toNat ∈ (heldPage f).block.units := hg.right
    rw [hunits] at hpage
    exact eq_of_page hg.left hf hpage
  · intro heq
    rw [heq]
    exact ⟨hf, mem_heldPage f⟩

theorem page_held (h : SpacesInv owned kept k s) {page : UInt32}
    (hpage : heldPage page ∈ s.pages) :
    frame page = page ∧ page ∈ SpaceState.heldFrames s.pages := by
  have hmem : heldPage page ∈ s.frames.map heldPage ++ (s.pages ++ kept) :=
    List.mem_append_right _ (List.mem_append_left _ hpage)
  rcases h.lent.canonical hmem with ⟨_, _, _, halign⟩
  rw [show (heldPage page).phys = page.toNat from rfl,
    UInt32.ofNat_toNat] at halign
  refine ⟨halign, heldPage page, hpage, ?_⟩
  rw [heldPage_frames halign]
  exact Set.mem_singleton page

theorem frame_engaged (hf : f ∈ s.frames) :
    f ∈ engaged owned (s.frames.map heldPage ++ (s.pages ++ kept)) :=
  Or.inr ⟨heldPage f, List.mem_append_left _ (List.mem_map_of_mem hf),
    mem_heldPage f⟩

theorem dirFrames_engaged (h : SpacesInv owned kept k s) (hd : d ∈ s.spaces) :
    dirFrames s.vm.mem d ⊆
      engaged owned (s.frames.map heldPage ++ (s.pages ++ kept)) := by
  intro f hf
  rcases h.dirFrames_cases hd hf with hown | ⟨hkept, _⟩
  · exact frame_engaged (mem_frames hd hown)
  · apply engaged_mono _ hkept
    exact fun b hb => List.mem_append_right _ (List.mem_append_right _ hb)

theorem fresh (h : SpacesInv owned kept k s) (hdir : dir ∈ s.spaces) :
    Vmm.Fresh dir s.vm := by
  have hsupply := h.lent.supply
  by_cases hzero : answer s.vm.pmm 0 = 0
  · exact Or.inl hzero
  · have hnew := hsupply.unused _ (given_first hzero)
    refine Or.inr ⟨hsupply.aligned 0, ?_, ?_⟩
    · intro heq
      exact hnew (h.dirFrames_engaged hdir (Or.inl heq))
    · intro i hpresent heq
      exact hnew (h.dirFrames_engaged hdir (Or.inr ⟨i, hpresent, heq.symm⟩))

theorem mapped (h : SpacesInv owned kept k s) {virt page flags : UInt32}
    {new : List UInt32} {vm : Vmm Pmm} (hdir : dir ∈ s.spaces)
    (huser : pdeIndex virt < pdeIndex kernelBase)
    (hpage : heldPage page ∈ s.pages)
    (hmaps : MapsPage dir virt page flags new s.vm vm)
    (hlent : Lent owned
      (new.map heldPage ++ (s.frames.map heldPage ++ (s.pages ++ kept)))
      vm.pmm) :
    SpacesInv owned kept k
      { s with vm := vm, pages := s.pages.erase (heldPage page) } ∧
      SpaceState.view
          { s with vm := vm, pages := s.pages.erase (heldPage page) } =
        (s.view.setHeld {page} (fun _ => none)).setSpace dir
          (some ((image s.vm.mem dir).set virt
            (some { flags := mapFlags flags, words := s.vm.mem page }))) := by
  rcases h.page_held hpage with ⟨halign, hheld⟩
  have hnew : forall f, f ∈ engaged owned
      (s.frames.map heldPage ++ (s.pages ++ kept)) -> f ∉ new :=
    fun f hf hmem => hlent.frame_apart hmem hf
  have hheldSame : forall f, f ∈ SpaceState.heldFrames s.pages ->
      vm.mem f = s.vm.mem f := by
    intro f hf
    apply hmaps.other _ _ (h.held_not_table hdir hf)
    rcases hf with ⟨b, hb, hfb⟩
    exact hnew f (Or.inr ⟨b,
      List.mem_append_right _ (List.mem_append_left _ hb), hfb.right⟩)
  have hothers : forall d, d ∈ s.spaces -> d ≠ dir ->
      forall f, f ∈ spaceFrames s.vm.mem d -> vm.mem f = s.vm.mem f := by
    intro d hd hne f hf
    apply hmaps.other _ (hnew f (frame_engaged (mem_frames hd hf)))
    exact h.other_not_table hdir hd hne hf
  have hk : vm.mem k = s.vm.mem k := by
    apply hmaps.other _ _ (h.kernel_apart hdir)
    exact hnew k (engaged_mono
      (fun b hb => List.mem_append_right _ (List.mem_append_right _ hb))
      h.kernel.dir_engaged)
  have hrow : forall d, d ∈ s.spaces -> d ≠ dir -> vm.mem d = s.vm.mem d :=
    fun d hd hne => hothers d hd hne d dir_mem_spaceFrames
  have hframes : (s.spaces.flatMap (spaceFrames vm.mem)).Perm
      ((page :: new) ++ s.frames) := by
    apply perm_gain _ h.spaces_nodup hdir _ hmaps.frames
    intro d hd hne
    apply spaceFrames_congr (hrow d hd hne)
    intro i hi
    exact hothers d hd hne _ (owned_mem_spaceFrames (table_mem_owned hi))
  constructor
  · constructor
    · refine hlent.perm ?_
      show List.Perm _ (List.map heldPage
        (s.spaces.flatMap (spaceFrames vm.mem)) ++ _)
      refine List.Perm.trans ?_ ((hframes.map heldPage).symm.append_right _)
      rw [List.map_append, List.map_cons, ← List.append_assoc]
      exact (((List.perm_cons_erase hpage).append_right kept).append_left
        _).trans List.perm_middle
    · intro d hd
      by_cases hdd : d = dir
      · rw [hdd]
        exact hmaps.ok
      · exact (h.ok d hd).congr (fun i => congrFun (hrow d hd hdd) i)
    · intro d hd i hi
      show vm.mem d i = vm.mem k i
      rw [hk]
      by_cases hdd : d = dir
      · rw [hdd, hmaps.kernel i hi]
        exact h.shared dir hdir i hi
      · rw [hrow d hd hdd]
        exact h.shared d hd i hi
    · exact h.kernel.congr hk
  · have hshown := image_set huser hmaps.entry (fun i j pte _ hi hentry => by
      have hpte : UserPage s.vm.mem dir (frame pte) := ⟨i, j, pte, hi, hentry, rfl⟩
      exact hmaps.other _ (hnew _ (frame_engaged (mem_frames hdir
        (userPage_mem (h.ok dir hdir) hpte))))
        (h.page_not_table hdir hdir hpte))
    rw [Option.map_some, pageOf_mapEntry _ _ halign, hheldSame page hheld]
      at hshown
    ext1
    · show heldView (s.pages.erase (heldPage page)) vm.mem = _
      rw [heldView_congr, heldView_erase s.view rfl hpage
        (fun f hf => h.erase_apart hpage hf), heldPage_frames halign]
      · rfl
      · intro f hf
        rcases hf with ⟨b, hb, hfb⟩
        exact hheldSame f ⟨b, List.mem_of_mem_erase hb, hfb⟩
    · show spaceView s.spaces vm.mem = _
      rw [spaceView_update hdir (fun d hd hne =>
        image_congr (h.ok d hd) (hothers d hd hne)), hshown]
      rfl

theorem map (h : SpacesInv owned kept k s) {virt page : UInt32}
    (flags : UInt32) (hdir : dir ∈ s.spaces)
    (huser : pdeIndex virt < pdeIndex kernelBase)
    (hpage : heldPage page ∈ s.pages)
    (hempty : entryAt s.vm.mem dir (pdeIndex virt) (pteIndex virt) = none) :
    SpacesInv owned kept k (s.exec (SpaceOp.map dir virt page flags)) ∧
      s.view.Does (s.exec (SpaceOp.map dir virt page flags)).view
        (SpaceOp.map dir virt page flags)
        (s.result (SpaceOp.map dir virt page flags)) := by
  rcases h.page_held hpage with ⟨halign, hheld⟩
  have hfresh := h.fresh hdir
  have hun := h.unshared hdir
  have hdone : forall new, (s.vm.vmmMapPage dir virt page flags).1 = 0 ->
      MapsPage dir virt page flags new s.vm
        (s.vm.vmmMapPage dir virt page flags).2 ->
      Lent owned
        (new.map heldPage ++ (s.frames.map heldPage ++ (s.pages ++ kept)))
        (s.vm.vmmMapPage dir virt page flags).2.pmm ->
      SpacesInv owned kept k (s.exec (SpaceOp.map dir virt page flags)) ∧
        s.view.Does (s.exec (SpaceOp.map dir virt page flags)).view
          (SpaceOp.map dir virt page flags)
          (s.result (SpaceOp.map dir virt page flags)) := by
    intro new hzero hmaps hlent
    rcases h.mapped hdir huser hpage hmaps hlent with ⟨hinv, hview⟩
    unfold SpaceState.exec SpaceState.result Spaces.Does
    dsimp only
    rw [hzero, if_pos rfl, if_pos (by rfl)]
    exact ⟨hinv, _, _, spaceView_some hdir, heldView_some hheld, hview⟩
  cases htable : present (s.vm.mem dir (pdeIndex virt)) with
  | true =>
      have hcall : s.vm.vmmMapPage dir virt page flags = _ :=
        vmmMapPage_table page flags htable
      apply hdone [] (by rw [hcall])
        (maps_table hun ⟨htable, huser⟩ hfresh hempty halign)
      rw [hcall]
      exact h.lent
  | false =>
      have hpmm := pmm_vmmMapPage_new page flags htable
      rcases h.lent.allocPage with ⟨hzero, hlent⟩ | hlent
      · have hfail : (s.vm.access dir).allocPageTable.1 = 0 := by
          rw [allocPageTable_eq]
          exact hzero
        have hcall : s.vm.vmmMapPage dir virt page flags = _ :=
          vmmMapPage_fail page flags htable hfail
        have hmem : (s.vm.vmmMapPage dir virt page flags).2.mem = s.vm.mem := by
          rw [hcall, (allocPageTable_none hfail).right]
          rfl
        have hminus : ¬ ((-1 : Int) = 0) := by decide
        have hminus' : ¬ (UInt32.ofInt (-1) = 0) := by decide
        unfold SpaceState.exec SpaceState.result Spaces.Does
        dsimp only
        rw [hcall] at hmem hpmm ⊢
        rw [if_neg hminus, if_neg hminus']
        refine ⟨⟨?_, ?_, ?_, ?_⟩, ?_⟩
        · unfold SpaceState.frames
          dsimp only
          rw [hmem, hpmm]
          exact hlent
        · intro d hd
          rw [hmem]
          exact h.ok d hd
        · intro d hd
          rw [hmem]
          exact h.shared d hd
        · rw [hmem]
          exact h.kernel
        · unfold SpaceState.view
          dsimp only
          rw [hmem]
      · have hne : answer s.vm.pmm 0 ≠ 0 := hlent.page_ne_zero
        rcases maps_newTable hun htable huser hfresh hne halign with
          ⟨hresult, hmaps⟩
        apply hdone [answer s.vm.pmm 0] hresult hmaps
        rw [hpmm]
        exact hlent

theorem unmap (h : SpacesInv owned kept k s) {virt : UInt32}
    (hdir : dir ∈ s.spaces) (huser : pdeIndex virt < pdeIndex kernelBase) :
    SpacesInv owned kept k (s.exec (SpaceOp.unmap dir virt)) ∧
      s.view.Does (s.exec (SpaceOp.unmap dir virt)).view
        (SpaceOp.unmap dir virt) (s.result (SpaceOp.unmap dir virt)) := by
  have hun := h.unshared hdir
  rcases unmaps_page hun huser with ⟨hpmm, hdirRow, hother, hone⟩
  rcases vmmUnmapPage_entryAt hun.tableInv virt with ⟨_, hentries⟩
  have hok := (h.ok dir hdir).unmap virt
  unfold SpaceState.exec SpaceState.result
  dsimp only
  generalize s.vm.vmmUnmapPage dir virt = vm at *
  have hothers : forall d, d ∈ s.spaces -> d ≠ dir ->
      forall f, f ∈ spaceFrames s.vm.mem d -> vm.mem f = s.vm.mem f :=
    fun d hd hne f hf => hother f (h.other_not_table hdir hd hne hf)
  have hrow : forall d, d ∈ s.spaces -> vm.mem d = s.vm.mem d := by
    intro d hd
    by_cases hdd : d = dir
    · rw [hdd]
      exact funext hdirRow
    · exact hothers d hd hdd d dir_mem_spaceFrames
  have hk : vm.mem k = s.vm.mem k := hother k (h.kernel_apart hdir)
  have hframes : s.frames.Perm
      (((entryAt s.vm.mem dir (pdeIndex virt) (pteIndex virt)).map
        frame).toList ++ s.spaces.flatMap (spaceFrames vm.mem)) := by
    apply perm_gain _ h.spaces_nodup hdir _ hone
    intro d hd hne
    apply Eq.symm
    apply spaceFrames_congr (hrow d hd)
    intro i hi
    exact hothers d hd hne _ (owned_mem_spaceFrames (table_mem_owned hi))
  have hinv : forall pages,
      (((entryAt s.vm.mem dir (pdeIndex virt) (pteIndex virt)).map
        frame).toList.map heldPage ++ s.pages).Perm pages ->
      SpacesInv owned kept k { s with vm := vm, pages := pages } := by
    intro pages hpages
    constructor
    · show Lent owned ((s.spaces.flatMap (spaceFrames vm.mem)).map heldPage ++
        (pages ++ kept)) vm.pmm
      rw [hpmm]
      refine h.lent.perm (((hframes.map heldPage).append_right _).trans ?_)
      rw [List.map_append, List.append_assoc]
      refine (List.perm_append_comm_assoc _ _ _).trans ?_
      rw [← List.append_assoc _ s.pages]
      exact (hpages.append_right kept).append_left _
    · intro d hd
      by_cases hdd : d = dir
      · rw [hdd]
        exact hok
      · exact (h.ok d hd).congr (fun i => congrFun (hrow d hd) i)
    · intro d hd i hi
      show vm.mem d i = vm.mem k i
      rw [hrow d hd, hk]
      exact h.shared d hd i hi
    · exact h.kernel.congr hk
  have hshown := image_set huser hentries (fun i j pte _ hi hentry =>
    hother _ (h.page_not_table hdir hdir ⟨i, j, pte, hi, hentry, rfl⟩))
  have hheld : heldView s.pages vm.mem = heldView s.pages s.vm.mem :=
    heldView_congr (fun f hf => hother f (h.held_not_table hdir hf))
  have hspace := spaceView_update hdir (fun d hd hne =>
    image_congr (h.ok d hd) (hothers d hd hne))
  rw [hshown, Option.map_none] at hspace
  rcases image_at s.vm.mem dir huser with
    ⟨hat, hentry, hphys⟩ | ⟨pte, hentry, hat, hpage, hphys⟩
  · have hzero : frame 0 = 0 := by decide
    rw [hentry] at hinv
    rw [hphys, hzero, if_pos rfl]
    refine ⟨hinv _ (List.Perm.refl _), _, spaceView_some hdir,
      Or.inl ⟨hat, rfl, ?_⟩⟩
    ext1
    · exact hheld
    · show spaceView s.spaces vm.mem = spaceView s.spaces s.vm.mem
      have hset : (image s.vm.mem dir).set virt none = image s.vm.mem dir := by
        funext i j
        unfold Image.set
        split
        · rename_i hhere
          rw [hhere.left, hhere.right]
          exact hat.symm
        · rfl
      have hold : spaceView s.spaces s.vm.mem dir =
          some (image s.vm.mem dir) := spaceView_some hdir
      rw [hspace, hset, ← hold, Function.update_eq_self]
  · have hmem := mem_frames hdir (userPage_mem (h.ok dir hdir) hpage)
    rcases h.lent.frame_eq hmem with ⟨halign, hne⟩
    rw [hentry] at hinv
    rw [hphys, if_neg hne]
    refine ⟨hinv _ (List.Perm.refl _), _, spaceView_some hdir,
      Or.inr ⟨pageOf s.vm.mem pte, hat, hne, ?_, ?_⟩⟩
    · exact heldView_none (fun hheld => (h.held_apart hheld).left hmem)
    · ext1
      · show heldView (heldPage (frame pte) :: s.pages) vm.mem = _
        rw [heldView_cons s.view hheld.symm, heldPage_frames halign]
        have hwords : forall f, f ∈ ({frame pte} : Set UInt32) ->
            some (vm.mem f) = some (pageOf s.vm.mem pte).words := by
          intro f hf
          rw [Set.mem_singleton_iff.mp hf,
            hother _ (h.page_not_table hdir hdir hpage)]
          rfl
        have hsame := congrArg Spaces.held (s.view.setHeld_congr hwords)
        exact hsame
      · exact hspace

/-!
# Clones and their end
-/

theorem clone (h : SpacesInv owned kept k s) {src : UInt32}
    (hsrc : src ∈ s.spaces ∨ src = k)
    (hgood : forall m, m < cloneNeeds s.vm.mem src ->
      answer s.vm.pmm m ≠ 0 ∧
        (src = k -> ¬ UserPage s.vm.mem k (answer s.vm.pmm m))) :
    SpacesInv owned kept k (s.exec (SpaceOp.clone src)) ∧
      s.view.Does (s.exec (SpaceOp.clone src)).view (SpaceOp.clone src)
        (s.result (SpaceOp.clone src)) := by
  have hkept : engaged owned kept ⊆
      engaged owned (s.frames.map heldPage ++ (s.pages ++ kept)) :=
    engaged_mono (fun b hb =>
      List.mem_append_right _ (List.mem_append_right _ hb))
  have hsrcOk : DirOk s.vm.mem src := by
    rcases hsrc with hmem | heq
    · exact h.ok src hmem
    · rw [heq]
      exact h.kernel.ok
  have hsrcFrames : dirFrames s.vm.mem src ⊆
      engaged owned (s.frames.map heldPage ++ (s.pages ++ kept)) := by
    rcases hsrc with hmem | heq
    · exact h.dirFrames_engaged hmem
    · rw [heq]
      exact h.kernel.keeps.trans hkept
  have hsupply := h.lent.supply
  have hpages : forall m, m < cloneNeeds s.vm.mem src ->
      answer s.vm.pmm m ≠ 0 ∧
        ¬ UserPage s.vm.mem src (answer s.vm.pmm m) := by
    intro m hm
    refine ⟨(hgood m hm).left, ?_⟩
    rcases hsrc with hmem | heq
    · intro hpage
      exact hsupply.unused _ ⟨(hgood m hm).left, m, rfl⟩
        (frame_engaged (mem_frames hmem (userPage_mem hsrcOk hpage)))
    · rw [heq]
      exact (hgood m hm).right heq
  have hclones := clones_dir hsrcOk (hsupply.mono hsrcFrames) hpages
  rcases hclones.frames with ⟨n, hpmm, hframes⟩
  have hfirst : answer s.vm.pmm 0 ≠ 0 :=
    (hpages 0 (Nat.lt_of_lt_of_le Nat.one_pos (Nat.le_add_right _ _))).left
  have hnew := hsupply.unused _ (given_first hfirst)
  have hsame : forall f, f ∈ engaged owned
      (s.frames.map heldPage ++ (s.pages ++ kept)) ->
      (s.vm.vmmCloneDir src).2.mem f = s.vm.mem f :=
    fun f hf => hclones.other f (fun hg => hsupply.unused f hg hf)
  have hspace : forall d, d ∈ s.spaces -> forall f,
      f ∈ spaceFrames s.vm.mem d ->
        (s.vm.vmmCloneDir src).2.mem f = s.vm.mem f :=
    fun d hd f hf => hsame f (frame_engaged (mem_frames hd hf))
  have hrow : forall d, d ∈ s.spaces ->
      (s.vm.vmmCloneDir src).2.mem d = s.vm.mem d :=
    fun d hd => hspace d hd d dir_mem_spaceFrames
  have hk : (s.vm.vmmCloneDir src).2.mem k = s.vm.mem k :=
    hsame k (hkept h.kernel.dir_engaged)
  have hold : s.spaces.flatMap (spaceFrames (s.vm.vmmCloneDir src).2.mem) =
      s.frames := by
    apply List.flatMap_congr
    intro d hd
    apply spaceFrames_congr (hrow d hd)
    intro i hi
    exact hspace d hd _ (owned_mem_spaceFrames (table_mem_owned hi))
  have hnotSpace : answer s.vm.pmm 0 ∉ s.spaces :=
    fun hmem => hnew (frame_engaged (mem_frames hmem dir_mem_spaceFrames))
  unfold SpaceState.exec SpaceState.result
  dsimp only
  rw [vmmCloneDir_first]
  constructor
  · constructor
    · show Lent owned ((spaceFrames (s.vm.vmmCloneDir src).2.mem
          (answer s.vm.pmm 0) ++ s.spaces.flatMap (spaceFrames
            (s.vm.vmmCloneDir src).2.mem)).map heldPage ++ _)
        (s.vm.vmmCloneDir src).2.pmm
      rw [hold, hpmm, List.map_append, List.append_assoc]
      exact (h.lent.after n).perm
        ((hframes.map heldPage).symm.append_right _)
    · exact List.forall_mem_cons.mpr ⟨hclones.ok, fun d hd =>
        (h.ok d hd).congr (fun i => congrFun (hrow d hd) i)⟩
    · intro d hd i hi
      show (s.vm.vmmCloneDir src).2.mem d i =
        (s.vm.vmmCloneDir src).2.mem k i
      rw [hk]
      rcases List.mem_cons.mp hd with heq | hmem
      · rw [heq, hclones.kernel i hi]
        rcases hsrc with hmem | heq
        · exact h.shared src hmem i hi
        · rw [heq]
      · rw [hrow d hmem]
        exact h.shared d hmem i hi
    · exact h.kernel.congr hk
  · refine ⟨spaceView_none hnotSpace, ?_, image s.vm.mem src, ?_, ?_⟩
    · apply heldView_none
      intro hheld
      rcases hheld with ⟨b, hb, hfb⟩
      exact hnew (Or.inr ⟨b, List.mem_append_right _
        (List.mem_append_left _ hb), hfb.right⟩)
    · intro shown hshown
      by_cases hmem : src ∈ s.spaces
      · exact Option.some.inj ((spaceView_some hmem).symm.trans hshown)
      · cases (spaceView_none hmem).symm.trans hshown
    · ext1
      · apply heldView_congr
        intro f hf
        rcases hf with ⟨b, hb, hfb⟩
        exact hsame f (Or.inr ⟨b, List.mem_append_right _
          (List.mem_append_left _ hb), hfb.right⟩)
      · show spaceView (answer s.vm.pmm 0 :: s.spaces)
          (s.vm.vmmCloneDir src).2.mem = _
        rw [spaceView_cons, hclones.shows, spaceView_congr (fun d hd =>
          image_congr (h.ok d hd) (hspace d hd))]
        rfl

theorem destroy (h : SpacesInv owned kept k s) (hdir : dir ∈ s.spaces) :
    SpacesInv owned kept k (s.exec (SpaceOp.destroy dir)) ∧
      s.view.Does (s.exec (SpaceOp.destroy dir)).view (SpaceOp.destroy dir)
        0 := by
  rcases destroys_dir s.vm dir with ⟨hmem, pages, hpages, hpmm⟩
  have hframes : s.frames.Perm (pages ++
      (s.spaces.erase dir).flatMap (spaceFrames s.vm.mem)) :=
    (perm_leave hdir).trans (hpages.symm.append_right _)
  have hsub : forall d, d ∈ s.spaces.erase dir -> d ∈ s.spaces :=
    fun d hd => List.mem_of_mem_erase hd
  have hlent : Lent owned (((s.spaces.erase dir).flatMap
      (spaceFrames s.vm.mem)).map heldPage ++ (s.pages ++ kept))
      (pages.foldl PageAllocator.pmmFreePage s.vm.pmm) := by
    apply Lent.freePages
    rw [← List.append_assoc, ← List.map_append]
    exact h.lent.perm ((hframes.map heldPage).append_right _)
  unfold SpaceState.exec Spaces.Does
  dsimp only
  generalize s.vm.vmmDestroyDir dir = vm at *
  rw [← hpmm] at hlent
  constructor
  · constructor
    · unfold SpaceState.frames
      dsimp only
      rw [hmem]
      exact hlent
    · intro d hd
      rw [hmem]
      exact h.ok d (hsub d hd)
    · intro d hd
      rw [hmem]
      exact h.shared d (hsub d hd)
    · rw [hmem]
      exact h.kernel
  · unfold SpaceState.view
    dsimp only
    rw [hmem, spaceView_erase h.spaces_nodup]
    rfl

/-- Each call means what it should and leaves one owner to each frame. -/
theorem step (h : SpacesInv owned kept k s) (o : SpaceOp)
    (hvalid : s.Valid k o) :
    SpacesInv owned kept k (s.exec o) ∧
      s.view.Does (s.exec o).view o (s.result o) := by
  cases o with
  | alloc order => exact h.alloc order
  | free b => exact h.free hvalid
  | write page i word => exact h.write i word hvalid
  | map dir virt page flags =>
      rcases hvalid with ⟨hdir, huser, hpage, hempty⟩
      exact h.map flags hdir huser hpage hempty
  | unmap dir virt => exact h.unmap hvalid.left hvalid.right
  | store dir virt i word =>
      rcases hvalid with ⟨hdir, huser, hmapped⟩
      exact h.store i word hdir huser hmapped
  | clone src => exact h.clone hvalid.left hvalid.right
  | destroy dir => exact h.destroy hvalid

end SpacesInv

theorem SpacesInv.of_reach {page : Nat -> Page} {totalPageFrames : Nat}
    {ranges : List (ZoneId × Nat × Nat)} {z : ZonedState} {vm : Vmm Pmm}
    (hplaced : Placed page totalPageFrames ranges)
    (hz : Reachable ZonedState.exec ZonedState.Valid
      (ZonedState.start page totalPageFrames ranges) z)
    (hpmm : vm.pmm = z.pmm)
    (hkernel : KernelDir (ownedIn ranges) z.live vm.mem k)
    (hreach : Reachable SpaceState.exec (SpaceState.Valid k)
      (SpaceState.start vm) s) :
    SpacesInv (ownedIn ranges) z.live k s := by
  apply hreach.invariant
  · refine ⟨?_, List.forall_mem_nil _, List.forall_mem_nil _, hkernel⟩
    show Lent (ownedIn ranges) z.live vm.pmm
    rw [hpmm]
    exact Lent.of_run hplaced hz
  · intro s o h hvalid
    exact (h.step o hvalid).left

/--
Address spaces are private.  After the zones were filled and whatever is in
`z.live` was allocated for good, in every state that calls can reach, each call
does to what callers and spaces see just what it means, and no frame is used
twice.
-/
theorem spaces_private {page : Nat -> Page} {totalPageFrames : Nat}
    {ranges : List (ZoneId × Nat × Nat)} {z : ZonedState} {vm : Vmm Pmm}
    (hplaced : Placed page totalPageFrames ranges)
    (hz : Reachable ZonedState.exec ZonedState.Valid
      (ZonedState.start page totalPageFrames ranges) z)
    (hpmm : vm.pmm = z.pmm)
    (hkernel : KernelDir (ownedIn ranges) z.live vm.mem k)
    (hreach : Reachable SpaceState.exec (SpaceState.Valid k)
      (SpaceState.start vm) s) :
    s.frames.Nodup ∧
      (forall f, f ∈ s.frames -> f ∉ SpaceState.heldFrames s.pages) ∧
      forall o, s.Valid k o -> s.view.Does (s.exec o).view o (s.result o) := by
  have hinv := SpacesInv.of_reach hplaced hz hpmm hkernel hreach
  exact ⟨hinv.frames_nodup, fun f hf hheld => (hinv.held_apart hheld).left hf,
    fun o hvalid => (hinv.step o hvalid).right⟩

def freshRanges : List (ZoneId × Nat × Nat) :=
  [(ZoneId.dma, 0, 4096), (ZoneId.normal, 4096, 4100)]

/-- The kernel maps one page of the user; it has its frames beyond all zones. -/
def freshManager : Vmm Pmm where
  mem := fun f k =>
    if f = 0x2001000 ∧ k = pteIndex 0x400000 then 0x2002007
    else if f = 0x2000000 ∧ k = pdeIndex 0x400000 then 0x2001007 else 0
  pmm := (ZonedState.start stalePage 4100 freshRanges).pmm
  kernelPgdir := 0x2000000
  currentPgdir := 0x2000000
  cr3 := 0x2000000
  paging := false
  taken := []
  freed := []
  unmapped := false

theorem freshManager_words :
    OnePage freshManager.mem 0x2000000 0x2001007 0x2002007 := by
  have hwords : forall f k, freshManager.mem f k =
      if f = 0x2001000 ∧ k = 0 then 0x2002007
      else if f = 0x2000000 ∧ k = 1 then 0x2001007 else 0 := by
    have hpte : pteIndex 0x400000 = 0 := by decide
    have hpde : pdeIndex 0x400000 = 1 := by decide
    intro f k
    rw [← hpte, ← hpde]
    rfl
  have hne : (0x2001000 : UInt32) ≠ 0x2000000 := by decide
  refine ⟨?_, ?_, by decide, by decide, by decide, by decide⟩
  · intro i
    rw [hwords, if_neg fun h => hne h.left.symm]
    exact if_congr (and_iff_right rfl) rfl rfl
  · intro j
    rw [show frame 0x2001007 = 0x2001000 by decide, hwords]
    apply if_congr (and_iff_right rfl) rfl
    exact if_neg fun h => hne h.left

theorem freshManager_kernel :
    KernelDir (ownedIn freshRanges) [] freshManager.mem 0x2000000 := by
  refine ⟨freshManager_words.dirOk, ?_, ?_⟩
  · intro i i' hi hi' _
    rw [(freshManager_words.table_word hi).left,
      (freshManager_words.table_word hi').left]
  · intro f hf
    have hfar : 4100 ≤ physToPfn f.toNat := by
      rcases freshManager_words.mem_dirFrames hf with heq | heq
      · rw [heq]
        decide
      · rw [heq]
        decide
    left
    intro id hmem
    rcases hmem with ⟨r, hr, _, hx⟩
    have hlast : r.2.2 ≤ 4100 := by
      rcases List.mem_cons.mp hr with heq | hr
      · rw [heq]
        decide
      · rw [List.mem_singleton.mp hr]
    exact absurd (Nat.lt_of_lt_of_le hx.right hlast) (Nat.not_lt.mpr hfar)

/-- Two callers have blocks before the first clone is made. -/
def twoCallers : SpaceState :=
  run SpaceState.exec (SpaceState.start freshManager)
    [SpaceOp.alloc 0, SpaceOp.alloc 1]

theorem twoCallers_reach : Reachable SpaceState.exec
    (SpaceState.Valid 0x2000000) (SpaceState.start freshManager) twoCallers :=
  ⟨[SpaceOp.alloc 0, SpaceOp.alloc 1], ⟨trivial, trivial, trivial⟩, rfl⟩

theorem twoCallers_words :
    OnePage twoCallers.vm.mem 0x2000000 0x2001007 0x2002007 :=
  freshManager_words

theorem twoCallers_frames {m : Nat}
    (hm : m < cloneNeeds twoCallers.vm.mem 0x2000000) :
    answer twoCallers.vm.pmm m ≠ 0 ∧
      ¬ UserPage twoCallers.vm.mem 0x2000000 (answer twoCallers.vm.pmm m) := by
  rw [twoCallers_words.cloneNeeds_eq] at hm
  have hframe : answer twoCallers.vm.pmm m ≠ 0 ∧
      answer twoCallers.vm.pmm m ≠ frame 0x2002007 := by
    match m, hm with
    | 0, _ => decide +kernel
    | 1, _ => decide +kernel
    | 2, _ => decide +kernel
  exact ⟨hframe.left, fun hpage =>
    hframe.right (twoCallers_words.userPage_frame hpage)⟩

def firstClone : SpaceState :=
  twoCallers.exec (SpaceOp.clone 0x2000000)

theorem firstClone_valid :
    twoCallers.Valid 0x2000000 (SpaceOp.clone 0x2000000) :=
  ⟨Or.inr rfl, fun _ hm => ⟨(twoCallers_frames hm).left,
    fun _ => (twoCallers_frames hm).right⟩⟩

theorem firstClone_reach : Reachable SpaceState.exec
    (SpaceState.Valid 0x2000000) (SpaceState.start freshManager) firstClone :=
  ⟨[SpaceOp.alloc 0, SpaceOp.alloc 1, SpaceOp.clone 0x2000000],
    ⟨trivial, trivial, firstClone_valid, trivial⟩, rfl⟩

theorem firstClone_page : exists pte, entryAt firstClone.vm.mem
    (answer twoCallers.vm.pmm 0) 1 0 = some pte := by
  have hinv := SpacesInv.of_reach stalePage_placed (Reachable.refl _ _ _)
    (show freshManager.pmm = _ from rfl) freshManager_kernel twoCallers_reach
  have hsupply := hinv.lent.supply.mono
    (hinv.kernel.keeps.trans (engaged_mono fun b hb => absurd hb List.not_mem_nil))
  have hfaithful := faithful_of_good twoCallers_words.dirOk hsupply
    (fun _ hm => twoCallers_frames hm) (fun _ _ => rfl)
  rw [withMem_self] at hfaithful
  rcases hfaithful.page 1 0 _ (by decide) twoCallers_words.entryAt_page with
    ⟨pte, hentry, _⟩
  exact ⟨pte, hentry⟩

/-- The first clone copies the page, and is then written through. -/
theorem spaces_private_firstClone :
    twoCallers.view.Does firstClone.view (SpaceOp.clone 0x2000000)
        (twoCallers.result (SpaceOp.clone 0x2000000)) ∧
      firstClone.view.Does
        (firstClone.exec (SpaceOp.store (answer twoCallers.vm.pmm 0) 0x400000
          0 7)).view
        (SpaceOp.store (answer twoCallers.vm.pmm 0) 0x400000 0 7)
        (firstClone.result (SpaceOp.store (answer twoCallers.vm.pmm 0)
          0x400000 0 7)) := by
  have hpmm : freshManager.pmm =
      (ZonedState.start stalePage 4100 freshRanges).pmm := rfl
  constructor
  · exact (spaces_private stalePage_placed (Reachable.refl _ _ _) hpmm
      freshManager_kernel twoCallers_reach).right.right _ firstClone_valid
  · apply (spaces_private stalePage_placed (Reachable.refl _ _ _) hpmm
      freshManager_kernel firstClone_reach).right.right
    refine ⟨?_, by decide, ?_⟩
    · show answer twoCallers.vm.pmm 0 ∈
        (twoCallers.vm.vmmCloneDir 0x2000000).1 :: twoCallers.spaces
      rw [vmmCloneDir_first]
      exact List.mem_cons_self
    · rcases firstClone_page with ⟨pte, hentry⟩
      have hindex : pdeIndex 0x400000 = 1 ∧ pteIndex 0x400000 = 0 := by decide
      rw [hindex.left, hindex.right, hentry]
      exact Option.some_ne_none pte

end Mm
end EarlnuxOS
