import EarlnuxOS.Mm.Vmm.Steps
import EarlnuxOS.Mm.Vmm.Supply

/-!
# The identity map

The first 8 MB are mapped to themselves through two tables of the kernel's
directory.  Frames that lie there can be used through their addresses as long
as nobody writes to these tables.
-/

namespace EarlnuxOS
namespace Mm
namespace Vmm

universe u

variable {alpha : Type u} {st : Vmm alpha} {mem mem' : Frames} {k : UInt32}
  {t : Fin 1024 -> UInt32} {n : Nat} {f : UInt32}

def pageAddress (i j : Fin 1024) : UInt32 :=
  UInt32.ofNat ((i.val * 1024 + j.val) * 4096)

/-- The first pages are mapped to themselves through the tables `t`. -/
structure Identity (mem : Frames) (k : UInt32) (t : Fin 1024 -> UInt32)
    (n : Nat) : Prop where
  table : forall i, i.val * 1024 < n -> present (mem k i) = true ∧
    huge (mem k i) = false ∧ frame (mem k i) = t i
  page : forall i j, i.val * 1024 + j.val < n ->
    present (mem (t i) j) = true ∧ frame (mem (t i) j) = pageAddress i j

def Low (f : UInt32) : Prop := frame f = f ∧ f.toNat < 2 ^ 23

instance (f : UInt32) : Decidable (Low f) :=
  inferInstanceAs (Decidable (_ ∧ _))

/-- A frame that is neither the directory nor one of its first two tables. -/
def Outside (k : UInt32) (t : Fin 1024 -> UInt32) (f : UInt32) : Prop :=
  f ≠ k ∧ forall i : Fin 1024, i.val < 2 -> f ≠ t i

def Writable (k : UInt32) (t : Fin 1024 -> UInt32) (f : UInt32)
    (i : Fin 1024) : Prop :=
  (f = k -> 2 ≤ i.val) ∧ forall n : Fin 1024, n.val < 2 -> f ≠ t n

theorem Outside.writable (h : Outside k t f) (i : Fin 1024) :
    Writable k t f i :=
  ⟨fun heq => absurd heq h.left, h.right⟩

theorem pageAddress_index (f : UInt32) :
    pageAddress (pdeIndex f) (pteIndex f) = frame f := by
  have hlt := f.toNat_lt
  apply UInt32.toNat_inj.mp
  unfold pageAddress
  rw [toNat_frame, UInt32.toNat_ofNat', pdeIndex_val, pteIndex_val]
  omega

theorem Low.index_lt (h : Low f) : (pdeIndex f).val < 2 := by
  rw [pdeIndex_val]
  have hlt := h.right
  omega

theorem low_and (h : frame f = f) : f &&& 0xFFF = 0 := by
  rw [← h]
  unfold frame
  rw [UInt32.and_assoc]
  exact UInt32.and_zero

theorem Identity.vmmVirtToPhys (h : Identity mem k t 2048) (hf : Low f) :
    vmmVirtToPhys mem k f = f := by
  have hindex := hf.index_lt
  have hpte := (pteIndex f).isLt
  rcases h.table (pdeIndex f) (by omega) with ⟨hpresent, hsmall, htable⟩
  rcases h.page (pdeIndex f) (pteIndex f) (by omega) with ⟨hpage, hframe⟩
  have hentry : entryAt mem k (pdeIndex f) (pteIndex f) =
      some (mem (t (pdeIndex f)) (pteIndex f)) := by
    rw [entryAt_table _ hpresent hsmall, htable]
    exact if_neg (not_not.mpr hpage)
  rw [vmmVirtToPhys_eq, hentry]
  show frame _ ||| (f &&& 0xFFF) = f
  rw [hframe, pageAddress_index, hf.left, low_and hf.left, UInt32.or_zero]

theorem Identity.congr (h : Identity mem k t 2048)
    (hdir : forall i : Fin 1024, i.val < 2 -> mem' k i = mem k i)
    (htables : forall i : Fin 1024, i.val < 2 -> mem' (t i) = mem (t i)) :
    Identity mem' k t 2048 where
  table := by
    intro i hi
    rw [hdir i (by omega)]
    exact h.table i hi
  page := by
    intro i j hij
    rw [htables i (by omega)]
    exact h.page i j hij

/-!
# Steps
-/

/-- The identity map is there, and was used for each access. -/
structure Mapped (k : UInt32) (t : Fin 1024 -> UInt32) (st : Vmm alpha) :
    Prop where
  dir : st.kernelPgdir = k
  paging : st.paging = true
  identity : Identity st.mem k t 2048
  quiet : st.unmapped = false

theorem Mapped.access (h : Mapped k t st) (hf : Low f) :
    Mapped k t (st.access f) where
  dir := h.dir
  paging := h.paging
  identity := h.identity
  quiet := by
    show (st.unmapped || (st.paging &&
      Mm.vmmVirtToPhys st.mem st.kernelPgdir f != f)) = false
    rw [h.quiet, h.dir, h.identity.vmmVirtToPhys hf, bne_self_eq_false,
      Bool.and_false, Bool.false_or]

theorem Mapped.store (h : Mapped k t st) (hf : Low f) {i : Fin 1024}
    (hw : Writable k t f i) (word : UInt32) :
    Mapped k t (st.store f i word) where
  dir := h.dir
  paging := h.paging
  identity := by
    apply h.identity.congr
    · intro n hn
      rw [mem_store]
      apply if_neg
      intro hsame
      have hi := hw.left hsame.left.symm
      rw [← hsame.right] at hi
      omega
    · intro n hn
      funext j
      exact mem_store_other st i word j (hw.right n hn).symm
  quiet := (h.access hf).quiet

theorem Mapped.copyPage (h : Mapped k t st) (sp : UInt32) {dp : UInt32}
    (hdp : Outside k t dp) : Mapped k t (st.copyPage sp dp) where
  dir := h.dir
  paging := h.paging
  identity := by
    apply h.identity.congr
    · intro i _
      rw [mem_copyPage, if_neg hdp.left.symm]
    · intro i hi
      rw [mem_copyPage, if_neg (hdp.right i hi).symm]
  quiet := h.quiet

theorem mapped_foldl {beta : Type} {step : Vmm alpha -> beta -> Vmm alpha}
    {l : List beta}
    (hstep : forall st, Mapped k t st -> forall x, x ∈ l ->
      Mapped k t (step st x)) (h : Mapped k t st) :
    Mapped k t (l.foldl step st) := by
  induction l generalizing st with
  | nil => exact h
  | cons x l ih =>
      exact ih (fun s hs y hy => hstep s hs y (List.mem_cons_of_mem x hy))
        (hstep st h x List.mem_cons_self)

variable [PageAllocator alpha]

theorem Mapped.pmmAllocPage (h : Mapped k t st) :
    Mapped k t st.pmmAllocPage.2 :=
  ⟨h.dir, h.paging, h.identity, h.quiet⟩

theorem Mapped.pmmFreePage (h : Mapped k t st) (phys : UInt32) :
    Mapped k t (st.pmmFreePage phys) :=
  ⟨h.dir, h.paging, h.identity, h.quiet⟩

theorem Mapped.allocPageTable (h : Mapped k t st)
    (hpage : answer st.pmm 0 ≠ 0 ->
      Low (answer st.pmm 0) ∧ Outside k t (answer st.pmm 0)) :
    Mapped k t st.allocPageTable.2 := by
  unfold Vmm.allocPageTable
  dsimp only
  split
  · exact h.pmmAllocPage
  · rename_i hne
    rcases hpage hne with ⟨hlow, houtside⟩
    dsimp only
    apply mapped_foldl _ h.pmmAllocPage
    intro s hs i _
    exact hs.store hlow (houtside.writable i) 0

end Vmm
end Mm
end EarlnuxOS
