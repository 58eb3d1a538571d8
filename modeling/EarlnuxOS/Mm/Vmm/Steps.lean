import EarlnuxOS.Mm.Vmm.Entries

/-!
# What the elementary steps change

Writes, copies and calls of the allocator, one lemma for each part of the state
that a step touches.
-/

namespace EarlnuxOS
namespace Mm
namespace Vmm

universe u

variable {alpha : Type u} (st : Vmm alpha)

@[simp] theorem mem_access (address : UInt32) :
    (st.access address).mem = st.mem := rfl

@[simp] theorem pmm_access (address : UInt32) :
    (st.access address).pmm = st.pmm := rfl

@[simp] theorem taken_access (address : UInt32) :
    (st.access address).taken = st.taken := rfl

@[simp] theorem freed_access (address : UInt32) :
    (st.access address).freed = st.freed := rfl

@[simp] theorem kernelPgdir_access (address : UInt32) :
    (st.access address).kernelPgdir = st.kernelPgdir := rfl

@[simp] theorem pmm_store (address : UInt32) (i : Fin 1024) (word : UInt32) :
    (st.store address i word).pmm = st.pmm := rfl

@[simp] theorem taken_store (address : UInt32) (i : Fin 1024) (word : UInt32) :
    (st.store address i word).taken = st.taken := rfl

@[simp] theorem freed_store (address : UInt32) (i : Fin 1024) (word : UInt32) :
    (st.store address i word).freed = st.freed := rfl

@[simp] theorem kernelPgdir_store (address : UInt32) (i : Fin 1024)
    (word : UInt32) :
    (st.store address i word).kernelPgdir = st.kernelPgdir := rfl

theorem mem_store (address : UInt32) (i : Fin 1024) (word : UInt32)
    (f : UInt32) (k : Fin 1024) :
    (st.store address i word).mem f k =
      if f = address ∧ k = i then word else st.mem f k := by
  show Function.update st.mem address _ f k = _
  rw [Function.update_apply]
  by_cases hf : f = address
  · rw [if_pos hf, Function.update_apply, hf]
    by_cases hk : k = i
    · rw [if_pos hk, if_pos ⟨rfl, hk⟩]
    · rw [if_neg hk, if_neg (fun h => hk h.right), mem_access]
  · rw [if_neg hf, if_neg (fun h => hf h.left)]

theorem mem_store_self (address : UInt32) (i : Fin 1024) (word : UInt32) :
    (st.store address i word).mem address i = word :=
  (st.mem_store address i word address i).trans (if_pos ⟨rfl, rfl⟩)

theorem mem_store_other {address f : UInt32} (i : Fin 1024) (word : UInt32)
    (k : Fin 1024) (hf : f ≠ address) :
    (st.store address i word).mem f k = st.mem f k :=
  (st.mem_store address i word f k).trans (if_neg (fun h => hf h.left))

theorem mem_copyPage (sp dp f : UInt32) :
    (st.copyPage sp dp).mem f = if f = dp then st.mem sp else st.mem f :=
  Function.update_apply st.mem dp (st.mem sp) f

variable {st}

theorem mem_foldl_store {address : UInt32} {word : Fin 1024 -> UInt32}
    (l : List (Fin 1024)) (f : UInt32) (k : Fin 1024) :
    (l.foldl (fun st i => st.store address i (word i)) st).mem f k =
      if f = address ∧ k ∈ l then word k else st.mem f k := by
  induction l generalizing st with
  | nil => rw [if_neg (fun h => List.not_mem_nil h.right), List.foldl_nil]
  | cons i l ih =>
      rw [List.foldl_cons, ih, mem_store]
      by_cases hf : f = address
      · by_cases hl : k ∈ l
        · rw [if_pos ⟨hf, hl⟩, if_pos ⟨hf, List.mem_cons_of_mem i hl⟩]
        · rw [if_neg (fun h => hl h.right)]
          by_cases hk : k = i
          · rw [if_pos ⟨hf, hk⟩, if_pos ⟨hf, List.mem_cons.mpr (Or.inl hk)⟩,
              hk]
          · rw [if_neg (fun h => hk h.right), if_neg (fun h =>
              (List.mem_cons.mp h.right).elim hk hl)]
      · rw [if_neg (fun h => hf h.left), if_neg (fun h => hf h.left),
          if_neg (fun h => hf h.left)]

theorem pmm_foldl_store {address : UInt32} {word : Fin 1024 -> UInt32}
    (l : List (Fin 1024)) :
    (l.foldl (fun st i => st.store address i (word i)) st).pmm = st.pmm := by
  induction l generalizing st with
  | nil => rfl
  | cons i l ih =>
      rw [List.foldl_cons, ih]
      rfl

variable [PageAllocator alpha]

theorem mem_pmmAllocPage : st.pmmAllocPage.2.mem = st.mem := rfl

theorem mem_pmmFreePage (phys : UInt32) :
    (st.pmmFreePage phys).mem = st.mem := rfl

theorem mem_allocPageTable (h : st.allocPageTable.1 ≠ 0) (f : UInt32)
    (k : Fin 1024) :
    st.allocPageTable.2.mem f k =
      if f = st.allocPageTable.1 then 0 else st.mem f k := by
  unfold allocPageTable at h ⊢
  dsimp only at h ⊢
  split
  · rename_i hzero
    rw [if_pos hzero] at h
    exact absurd hzero h
  · dsimp only
    rw [mem_foldl_store]
    by_cases hf : f = st.pmmAllocPage.1
    · rw [if_pos hf, if_pos ⟨hf, List.mem_finRange k⟩]
    · rw [if_neg hf, if_neg (fun h => hf h.left)]
      rfl

/-- Where there is no frame, there is no table and nothing has changed. -/
theorem allocPageTable_none (h : st.allocPageTable.1 = 0) :
    (PageAllocator.pmmAllocPage st.pmm).1 = 0 ∧
      st.allocPageTable.2 = st.pmmAllocPage.2 := by
  unfold allocPageTable at h ⊢
  dsimp only at h ⊢
  split at h
  · rename_i hzero
    rw [if_pos hzero]
    exact ⟨hzero, rfl⟩
  · exact absurd h ‹_›

theorem allocPageTable_eq :
    st.allocPageTable.1 = (PageAllocator.pmmAllocPage st.pmm).1 := by
  unfold allocPageTable
  dsimp only
  split <;> rfl

theorem pmm_allocPageTable :
    st.allocPageTable.2.pmm = (PageAllocator.pmmAllocPage st.pmm).2 := by
  unfold allocPageTable
  dsimp only
  split
  · rfl
  · dsimp only
    rw [pmm_foldl_store]
    rfl

/-!
# The branches of `vmm_map_page` and `vmm_unmap_page`
-/

section Branches

variable {dir virt : UInt32} (phys flags : UInt32)

theorem vmmMapPage_table (h : present (st.mem dir (pdeIndex virt)) = true) :
    st.vmmMapPage dir virt phys flags =
      (0, (st.access dir).store (frame (st.mem dir (pdeIndex virt)))
        (pteIndex virt) (mapEntry phys flags)) :=
  if_neg (not_not.mpr h)

theorem vmmMapPage_fail (h : present (st.mem dir (pdeIndex virt)) = false)
    (hpage : (st.access dir).allocPageTable.1 = 0) :
    st.vmmMapPage dir virt phys flags =
      (-1, (st.access dir).allocPageTable.2) :=
  (if_pos (by rw [mem_access, h]; exact Bool.false_ne_true)).trans
    (if_pos hpage)

theorem vmmMapPage_new (h : present (st.mem dir (pdeIndex virt)) = false)
    (hpage : (st.access dir).allocPageTable.1 ≠ 0) :
    st.vmmMapPage dir virt phys flags =
      (0, ((st.access dir).allocPageTable.2.store dir (pdeIndex virt)
        (tableEntry (st.access dir).allocPageTable.1 flags)).store
          (st.access dir).allocPageTable.1 (pteIndex virt)
          (mapEntry phys flags)) :=
  (if_pos (by rw [mem_access, h]; exact Bool.false_ne_true)).trans
    (if_neg hpage)

omit [PageAllocator alpha] in
theorem vmmUnmapPage_table (h : present (st.mem dir (pdeIndex virt)) = true) :
    st.vmmUnmapPage dir virt =
      (st.access dir).store (frame (st.mem dir (pdeIndex virt)))
        (pteIndex virt) 0 :=
  if_neg (not_not.mpr h)

omit [PageAllocator alpha] in
theorem vmmUnmapPage_none (h : present (st.mem dir (pdeIndex virt)) = false) :
    st.vmmUnmapPage dir virt = st.access dir :=
  if_pos (by rw [mem_access, h]; exact Bool.false_ne_true)

theorem mem_vmmMapPage_new {page : UInt32}
    (h : present (st.mem dir (pdeIndex virt)) = false)
    (hpage : (PageAllocator.pmmAllocPage st.pmm).1 = page) (hne : page ≠ 0)
    (f : UInt32) (k : Fin 1024) :
    (st.vmmMapPage dir virt phys flags).2.mem f k =
      if f = page ∧ k = pteIndex virt then mapEntry phys flags
      else if f = dir ∧ k = pdeIndex virt then tableEntry page flags
      else if f = page then 0 else st.mem f k := by
  have htable : (st.access dir).allocPageTable.1 = page := by
    rw [allocPageTable_eq]
    exact hpage
  rw [← htable] at hne
  rw [vmmMapPage_new phys flags h hne, mem_store, mem_store,
    mem_allocPageTable hne, htable]
  rfl

theorem mem_vmmMapPage_dir {page : UInt32}
    (h : present (st.mem dir (pdeIndex virt)) = false)
    (hpage : (PageAllocator.pmmAllocPage st.pmm).1 = page) (hne : page ≠ 0)
    (hapart : page ≠ dir) (k : Fin 1024) :
    (st.vmmMapPage dir virt phys flags).2.mem dir k =
      if k = pdeIndex virt then tableEntry page flags else st.mem dir k := by
  rw [mem_vmmMapPage_new phys flags h hpage hne,
    if_neg (fun hk => hapart hk.left.symm), if_neg hapart.symm]
  by_cases hk : k = pdeIndex virt
  · rw [if_pos ⟨rfl, hk⟩, if_pos hk]
  · rw [if_neg (fun h => hk h.right), if_neg hk]

theorem pmm_vmmMapPage_new
    (h : present (st.mem dir (pdeIndex virt)) = false) :
    (st.vmmMapPage dir virt phys flags).2.pmm =
      (PageAllocator.pmmAllocPage st.pmm).2 := by
  have hpmm : (st.access dir).allocPageTable.2.pmm =
      (PageAllocator.pmmAllocPage st.pmm).2 := pmm_allocPageTable
  by_cases hpage : (st.access dir).allocPageTable.1 = 0
  · rw [vmmMapPage_fail phys flags h hpage]
    exact hpmm
  · rw [vmmMapPage_new phys flags h hpage]
    exact hpmm

end Branches

end Vmm
end Mm
end EarlnuxOS
