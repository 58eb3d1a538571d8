import EarlnuxOS.Mm.Vmm.IdentityMap

/-!
# The start of paging

`vmm_init` builds the identity map with the first two frames that it gets.
-/

namespace EarlnuxOS
namespace Mm
namespace Vmm

universe u

variable {alpha : Type u} {st : Vmm alpha} {mem mem' : Frames} {k : UInt32}
  {t : Fin 1024 -> UInt32} {n : Nat}

/-!
# Before paging
-/

/-- Paging is off, so that every address can be used. -/
structure Off (k : UInt32) (st : Vmm alpha) : Prop where
  dir : st.kernelPgdir = k
  paging : st.paging = false
  quiet : st.unmapped = false

theorem Off.access (h : Off k st) (f : UInt32) : Off k (st.access f) where
  dir := h.dir
  paging := h.paging
  quiet := by
    show (st.unmapped || (st.paging &&
      Mm.vmmVirtToPhys st.mem st.kernelPgdir f != f)) = false
    rw [h.quiet, h.paging]
    rfl

theorem Off.store (h : Off k st) (f : UInt32) (i : Fin 1024) (word : UInt32) :
    Off k (st.store f i word) :=
  ⟨h.dir, h.paging, (h.access f).quiet⟩

theorem Off.foldl_store (h : Off k st) {f : UInt32} (l : List (Fin 1024)) :
    Off k (l.foldl (fun st i => st.store f i 0) st) := by
  induction l generalizing st with
  | nil => exact h
  | cons i l ih => exact ih (h.store f i 0)

theorem Off.clear (h : Off k st) (l : List (Fin 1024)) :
    l.foldl (fun st i => st.store st.kernelPgdir i 0) st =
      l.foldl (fun st i => st.store k i 0) st := by
  induction l generalizing st with
  | nil => rfl
  | cons i l ih =>
      have hstore := h.store k i 0
      rw [List.foldl_cons, List.foldl_cons, h.dir]
      exact ih hstore

variable [PageAllocator alpha] {a : alpha}

theorem Off.allocPageTable (h : Off k st) : Off k st.allocPageTable.2 := by
  have halloc : Off k st.pmmAllocPage.2 := ⟨h.dir, h.paging, h.quiet⟩
  have hclear := halloc.foldl_store (f := st.pmmAllocPage.1)
    (List.finRange 1024)
  unfold Vmm.allocPageTable
  dsimp only
  split
  · exact halloc
  · dsimp only
    exact hclear

theorem Off.vmmMapPage (h : Off k st) (dir virt phys flags : UInt32) :
    Off k (st.vmmMapPage dir virt phys flags).2 := by
  have haccess := h.access dir
  have htable := haccess.allocPageTable
  unfold Vmm.vmmMapPage
  dsimp only
  split
  · split
    · exact htable
    · exact (htable.store _ _ _).store _ _ _
  · exact haccess.store _ _ _

/-!
# One page more
-/

omit [PageAllocator alpha] in
/-- A page is mapped, and all the others that count are there already. -/
theorem Identity.write (h : Identity mem k t n) {i j : Fin 1024}
    {word : UInt32} {m : Nat}
    (hdir : present (mem' k i) = true ∧ huge (mem' k i) = false ∧
      frame (mem' k i) = t i)
    (hword : mem' (t i) j = word) (hpresent : present word = true)
    (hframe : frame word = pageAddress i j)
    (htables : forall i', i'.val * 1024 < m ->
      i' = i ∨ (i'.val * 1024 < n ∧ mem' k i' = mem k i'))
    (hpages : forall i' j', i'.val * 1024 + j'.val < m ->
      (i' = i ∧ j' = j) ∨ (i'.val * 1024 + j'.val < n ∧
        mem' (t i') j' = mem (t i') j')) : Identity mem' k t m where
  table := by
    intro i' hi'
    rcases htables i' hi' with hsame | ⟨hlt, hold⟩
    · rw [hsame]
      exact hdir
    · rw [hold]
      exact h.table i' hlt
  page := by
    intro i' j' hij
    rcases hpages i' j' hij with ⟨hi, hj⟩ | ⟨hlt, hold⟩
    · rw [hi, hj, hword]
      exact ⟨hpresent, hframe⟩
    · rw [hold]
      exact h.page i' j' hlt

/--
A number of pages are mapped, in tables that are the first answers of the
allocator.
-/
structure Early (a : alpha) (k : UInt32) (n : Nat) (st : Vmm alpha) :
    Prop where
  off : Off k st
  pmm : st.pmm = after a ((n + 1023) / 1024)
  identity : Identity st.mem k (fun i => answer a i.val) n
  rest : forall i, n ≤ i.val * 1024 -> st.mem k i = 0

structure EarlyFrames (a : alpha) (k : UInt32) : Prop where
  aligned : forall n, n < 2 -> frame (answer a n) = answer a n
  some : forall n, n < 2 -> answer a n ≠ 0
  apart : forall n, n < 2 -> answer a n ≠ k
  distinct : answer a 0 ≠ answer a 1

theorem EarlyFrames.index (h : EarlyFrames a k) {i i' : Nat} (hi : i < 2)
    (hi' : i' < 2) (heq : answer a i = answer a i') : i = i' := by
  have hne := h.distinct
  have hcases : i = i' ∨ (i = 0 ∧ i' = 1) ∨ (i = 1 ∧ i' = 0) := by omega
  rcases hcases with hsame | ⟨hfirst, hsecond⟩ | ⟨hsecond, hfirst⟩
  · exact hsame
  · rw [hfirst, hsecond] at heq
    exact absurd heq hne
  · rw [hfirst, hsecond] at heq
    exact absurd heq.symm hne

theorem mapEntry_self (s flags : UInt32) :
    present (mapEntry s flags) = true ∧
      frame (mapEntry s flags) = pageAddress (pdeIndex s) (pteIndex s) := by
  rw [present_mapEntry, frame_mapEntry, pageAddress_index]
  exact ⟨rfl, rfl⟩

theorem Early.mapOld {m : Nat} {s : UInt32} (h : Early a k n st)
    (hframes : EarlyFrames a k) (flags : UInt32)
    (hpde : (pdeIndex s).val < 2) (hold : (pdeIndex s).val * 1024 < n)
    (hle : n ≤ m) (htables : forall i : Fin 1024, i.val * 1024 < m ->
      i.val * 1024 < n)
    (hpages : forall i j : Fin 1024, i.val * 1024 + j.val < m ->
      (i = pdeIndex s ∧ j = pteIndex s) ∨ i.val * 1024 + j.val < n)
    (hpmm : (n + 1023) / 1024 = (m + 1023) / 1024) (hm : m ≤ 2048) :
    Early a k m (st.vmmMapPage k s s flags).2 := by
  rcases h.identity.table (pdeIndex s) hold with ⟨hpresent, hsmall, htable⟩
  have hne := (hframes.apart _ hpde).symm
  have hoff := h.off.vmmMapPage k s s flags
  rw [vmmMapPage_table s flags hpresent, htable] at hoff ⊢
  have hdir : forall i, ((st.access k).store (answer a (pdeIndex s).val)
      (pteIndex s) (mapEntry s flags)).mem k i = st.mem k i :=
    fun i => mem_store_other _ _ _ _ hne
  refine ⟨hoff, h.pmm.trans (by rw [hpmm]), ?_, ?_⟩
  · apply h.identity.write _ (mem_store_self _ _ _ _) (mapEntry_self s flags).left
      (mapEntry_self s flags).right
    · exact fun i hi => Or.inr ⟨htables i hi, hdir i⟩
    · intro i j hij
      by_cases hsame : i = pdeIndex s ∧ j = pteIndex s
      · exact Or.inl hsame
      · refine Or.inr ⟨(hpages i j hij).resolve_left hsame, ?_⟩
        rw [mem_store]
        apply if_neg
        intro heq
        exact hsame ⟨Fin.ext (hframes.index (by omega) hpde heq.left),
          heq.right⟩
    · rw [hdir]
      exact ⟨hpresent, hsmall, htable⟩
  · intro i hi
    rw [hdir]
    exact h.rest i (by omega)

theorem Early.mapNew {s : UInt32} (h : Early a k n st)
    (hframes : EarlyFrames a k) (flags : UInt32)
    (hpde : (pdeIndex s).val < 2) (hn : n = (pdeIndex s).val * 1024)
    (hpte : (pteIndex s).val = 0) :
    Early a k (n + 1) (st.vmmMapPage k s s flags).2 := by
  have habsent : present (st.mem k (pdeIndex s)) = false := by
    rw [h.rest _ (by omega), present_zero]
  have hanswer : answer st.pmm 0 = answer a (pdeIndex s).val := by
    rw [h.pmm, answer_after]
    congr 1
    omega
  have hsome := hframes.some _ hpde
  have hne := (hframes.apart _ hpde).symm
  have hmem := mem_vmmMapPage_new s flags habsent hanswer hsome
  have hdir : forall i, (st.vmmMapPage k s s flags).2.mem k i =
      if i = pdeIndex s then tableEntry (answer a (pdeIndex s).val) flags
      else st.mem k i := by
    intro i
    rw [hmem, if_neg (fun heq => hne heq.left)]
    by_cases hi : i = pdeIndex s
    · rw [if_pos ⟨rfl, hi⟩, if_pos hi]
    · rw [if_neg (fun heq => hi heq.right), if_neg hi, if_neg hne]
  refine ⟨h.off.vmmMapPage k s s flags, ?_, ?_, ?_⟩
  · have hcount : (n + 1 + 1023) / 1024 = (n + 1023) / 1024 + 1 := by omega
    rw [pmm_vmmMapPage_new s flags habsent, h.pmm, hcount, after_add]
    rfl
  · apply h.identity.write _ ((hmem _ _).trans (if_pos ⟨rfl, rfl⟩))
      (mapEntry_self s flags).left (mapEntry_self s flags).right
    · intro i hi
      by_cases hsame : i = pdeIndex s
      · exact Or.inl hsame
      · have hlt : i.val ≠ (pdeIndex s).val := fun heq => hsame (Fin.ext heq)
        exact Or.inr ⟨by omega, (hdir i).trans (if_neg hsame)⟩
    · intro i j hij
      by_cases hlast : i.val * 1024 + j.val = n
      · have hj := j.isLt
        exact Or.inl ⟨Fin.ext (by omega), Fin.ext (by omega)⟩
      · have hlt : i.val * 1024 + j.val < n := by omega
        have hother : answer a i.val ≠ answer a (pdeIndex s).val := by
          intro heq
          have hi := hframes.index (by omega) hpde heq
          omega
        refine Or.inr ⟨hlt, ?_⟩
        rw [hmem, if_neg (fun heq => hother heq.left),
          if_neg (fun heq => hframes.apart _ (by omega) heq.left),
          if_neg hother]
    · rw [hdir, if_pos rfl, frame_tableEntry, hframes.aligned _ hpde]
      exact ⟨present_tableEntry _ _, huge_tableEntry _ _, rfl⟩
  · intro i hi
    rw [hdir, if_neg (by
      intro heq
      rw [heq] at hi
      omega)]
    exact h.rest i (by omega)

theorem Early.next (h : Early a k n st) (hframes : EarlyFrames a k)
    (hn : n < 2048) {s : UInt32} (hs : s.toNat = n * 4096) (flags : UInt32) :
    Early a k (n + 1) (st.vmmMapPage k s s flags).2 := by
  have hindex : n = (pdeIndex s).val * 1024 + (pteIndex s).val := by
    rw [pdeIndex_val, pteIndex_val, hs]
    omega
  have hpte := (pteIndex s).isLt
  have hpde : (pdeIndex s).val < 2 := by omega
  by_cases hzero : (pteIndex s).val = 0
  · rw [hzero, Nat.add_zero] at hindex
    exact h.mapNew hframes flags hpde hindex hzero
  · apply h.mapOld hframes flags hpde (by omega) (Nat.le_succ n) _ _ _
      (Nat.succ_le_of_lt hn)
    · intro i hi
      omega
    · intro i j hij
      by_cases hlast : i.val * 1024 + j.val = n
      · have hj := j.isLt
        exact Or.inl ⟨Fin.ext (by omega), Fin.ext (by omega)⟩
      · exact Or.inr (by omega)
    · omega

theorem Early.identityLoop (h : Early a k n st) (hframes : EarlyFrames a k)
    (flags : UInt32) {steps : Nat} {s : UInt32} (hs : s.toNat = n * 4096)
    (hn : n ≤ 2048) (hsteps : 2048 ≤ n + steps) :
    Early a k 2048 (identityLoop 0x800000 flags steps s st) := by
  induction steps generalizing st n s with
  | zero =>
      have heq : n = 2048 := by omega
      exact heq ▸ h
  | succ steps ih =>
      have hstop : (0x800000 : UInt32).toNat = 2048 * 4096 := by decide
      have hstep : s < 0x800000 <-> n < 2048 := by
        rw [UInt32.lt_iff_toNat_lt, hs, hstop]
        omega
      rw [Vmm.identityLoop, h.off.dir]
      by_cases hlt : n < 2048
      · rw [if_pos (hstep.mpr hlt)]
        apply ih (h.next hframes hlt hs flags) _ (by omega) (by omega)
        have hsize : pageSize.toNat = 4096 := by decide
        rw [UInt32.toNat_add, hs, hsize]
        omega
      · have heq : n = 2048 := by omega
        rw [if_neg (fun h => hlt (hstep.mp h))]
        exact heq ▸ h

theorem Early.remap (h : Early a k 2048 st) (hframes : EarlyFrames a k)
    {stop : UInt32} (hstop : stop.toNat ≤ 2 ^ 23) (flags : UInt32)
    (steps : Nat) (s : UInt32) :
    Early a k 2048 (Vmm.identityLoop stop flags steps s st) := by
  induction steps generalizing st s with
  | zero => exact h
  | succ steps ih =>
      rw [Vmm.identityLoop, h.off.dir]
      split
      · rename_i hlt
        rw [UInt32.lt_iff_toNat_lt] at hlt
        have hpde : (pdeIndex s).val < 2 := by
          rw [pdeIndex_val]
          omega
        apply ih
        apply h.mapOld hframes flags hpde (by omega) (Nat.le_refl _)
          (fun i hi => hi) (fun i j hij => Or.inr hij) rfl (Nat.le_refl _)
      · exact h

theorem Off.early (h : Off k st) :
    Early st.pmm k 0 ((List.finRange 1024).foldl
      (fun st i => st.store st.kernelPgdir i 0) st) := by
  have hclear := h.foldl_store (f := k) (List.finRange 1024)
  rw [h.clear]
  refine ⟨hclear, pmm_foldl_store (List.finRange 1024), ?_, ?_⟩
  · constructor
    · intro i hi
      omega
    · intro i j hij
      omega
  · intro i _
    rw [mem_foldl_store, if_pos ⟨rfl, List.mem_finRange i⟩]

theorem Early.mapFirst (h : Early a k 0 st) (hframes : EarlyFrames a k)
    (flags : UInt32) :
    Early a k 2048 (st.vmmIdentityMap 0 (8 * 1024 * 1024) flags) := by
  have hstop : alignUp (8 * 1024 * 1024) pageSize = 0x800000 := by decide
  have hstart : alignDown 0 pageSize = 0 := by decide
  unfold vmmIdentityMap
  rw [hstop, hstart]
  exact h.identityLoop hframes flags rfl (Nat.zero_le _) (by decide)

theorem Early.mapAgain (h : Early a k 2048 st) (hframes : EarlyFrames a k)
    (start : UInt32) {stop : UInt32}
    (hstop : (alignUp stop pageSize).toNat ≤ 2 ^ 23) (flags : UInt32) :
    Early a k 2048 (st.vmmIdentityMap start stop flags) := by
  unfold vmmIdentityMap
  exact h.remap hframes hstop flags _ _

theorem vmmInit_eq {last : Vmm alpha}
    (h : (((List.finRange 1024).foldl
        (fun st i => st.store st.kernelPgdir i 0) st).vmmIdentityMap 0
          (8 * 1024 * 1024) (ptePresent ||| pteWrite)).vmmIdentityMap 0xB8000
            0xC0000 (ptePresent ||| pteWrite ||| pteNocache) = last) :
    st.vmmInit = { last.loadCr3 last.kernelPgdir with
      paging := true
      currentPgdir := (last.loadCr3 last.kernelPgdir).kernelPgdir } := by
  unfold Vmm.vmmInit
  dsimp only
  rw [h]

theorem Early.turnOn {last st' : Vmm alpha} (h : Early a k 2048 last)
    (hinit : st' = { last.loadCr3 last.kernelPgdir with
      paging := true
      currentPgdir := (last.loadCr3 last.kernelPgdir).kernelPgdir }) :
    Mapped k (fun i => answer a i.val) st' ∧
      (forall i : Fin 1024, 2 ≤ i.val -> st'.mem k i = 0) ∧
      st'.pmm = after a 2 := by
  rw [hinit]
  exact ⟨⟨h.off.dir, rfl, h.identity, h.off.quiet⟩,
    fun i hi => h.rest i (by omega), h.pmm⟩

/--
`vmm_init` maps the first 8 MB to themselves, and nothing else, and takes two
frames.
-/
theorem Off.vmmInit (h : Off k st) (hframes : EarlyFrames st.pmm k) :
    Mapped k (fun i => answer st.pmm i.val) st.vmmInit ∧
      (forall i : Fin 1024, 2 ≤ i.val -> st.vmmInit.mem k i = 0) ∧
      st.vmmInit.pmm = after st.pmm 2 := by
  have hend : (alignUp 0xC0000 pageSize).toNat ≤ 2 ^ 23 := by decide
  have hlast := (h.early.mapFirst hframes (ptePresent ||| pteWrite)).mapAgain
    hframes 0xB8000 hend (ptePresent ||| pteWrite ||| pteNocache)
  exact hlast.turnOn (vmmInit_eq rfl)

end Vmm
end Mm
end EarlnuxOS
