import EarlnuxOS.Mm.Vmm.Destroying
import EarlnuxOS.Mm.Vmm.Directories

/-!
# Walks through mapped directories

Cloning and destroying use the addresses of directories and of tables.  A clone
takes frames for its pages from anywhere; only those for its directory and its
tables must be below 8 MB.
-/

namespace EarlnuxOS
namespace Mm
namespace Vmm

universe u

variable {alpha : Type u} [PageAllocator alpha] {st : Vmm alpha}
  {mem : Frames} {k src dst srcPt dstPt : UInt32} {a : alpha}
  {t : Fin 1024 -> UInt32} {dirs : Set UInt32}

/-- The answers that become tables when some entries are copied. -/
def tableAnswers (a : alpha) (mem : Frames) (src : UInt32) :
    List (Fin 1024) -> List UInt32
  | [] => []
  | i :: l =>
      if UserTable mem src i then
        answer a 0 :: tableAnswers (after a (tableFrames mem src i)) mem src l
      else tableAnswers (after a (tableFrames mem src i)) mem src l

theorem tableAnswers_first {i : Fin 1024} (l : List (Fin 1024))
    (hi : UserTable mem src i) :
    answer a 0 ∈ tableAnswers a mem src (i :: l) := by
  unfold tableAnswers
  rw [if_pos hi]
  exact List.mem_cons_self

theorem tableAnswers_next {i : Fin 1024} {l : List (Fin 1024)} {f : UInt32}
    (hf : f ∈ tableAnswers (after a (tableFrames mem src i)) mem src l) :
    f ∈ tableAnswers a mem src (i :: l) := by
  rw [tableAnswers]
  split
  · exact List.mem_cons_of_mem _ hf
  · exact hf

theorem given_tableAnswers {l : List (Fin 1024)} {f : UInt32}
    (hf : f ∈ tableAnswers a mem src l) (hne : f ≠ 0) : Given a f := by
  induction l generalizing a with
  | nil => exact absurd hf List.not_mem_nil
  | cons i l ih =>
      rw [tableAnswers] at hf
      split at hf
      · rcases List.mem_cons.mp hf with heq | hmem
        · exact ⟨hne, 0, heq.symm⟩
        · exact (ih hmem).of_after
      · exact (ih hf).of_after

/-!
# Pages
-/

theorem Mapped.clonePage (h : Mapped k t st) (hsrc : Low srcPt)
    (hdst : Low dstPt) (hw : Outside k t dstPt)
    (hgiven : forall f, Given st.pmm f -> Outside k t f) (j : Fin 1024) :
    Mapped k t (clonePage srcPt dstPt st j) := by
  have haccess := h.access hsrc
  cases hpte : present (st.mem srcPt j) with
  | false =>
      rw [clonePage_absent hpte]
      exact haccess.store hdst (hw.writable j) 0
  | true =>
      by_cases hzero : answer st.pmm 0 = 0
      · rw [clonePage_fail hpte hzero]
        exact haccess.pmmAllocPage
      · rw [clonePage_copy hpte hzero]
        have hcopy := haccess.pmmAllocPage.copyPage (frame (st.mem srcPt j))
          (hgiven _ (given_first hzero))
        exact hcopy.store hdst (hw.writable j) _

theorem Mapped.clonePages (h : Mapped k t st) (hsrc : Low srcPt)
    (hdst : Low dstPt) (hw : Outside k t dstPt)
    (hgiven : forall f, Given st.pmm f -> Outside k t f)
    (l : List (Fin 1024)) :
    Mapped k t (l.foldl (Vmm.clonePage srcPt dstPt) st) := by
  induction l generalizing st with
  | nil => exact h
  | cons j l ih =>
      apply ih (h.clonePage hsrc hdst hw hgiven j)
      intro f hf
      rcases draws_clonePage srcPt dstPt st j with ⟨_, n, hpmm, _⟩
      rw [hpmm] at hf
      exact hgiven f hf.of_after

/-!
# Tables
-/

/-- What a copy needs of the directories and of the frames to come. -/
structure CloneReady (k : UInt32) (t : Fin 1024 -> UInt32) (a : alpha)
    (mem : Frames) (src dst : UInt32) (l : List (Fin 1024)) : Prop where
  srcLow : Low src
  dstLow : Low dst
  writable : Outside k t dst
  tables : forall i, present (mem src i) = true -> Low (frame (mem src i))
  given : forall f, Given a f -> Outside k t f
  answers : forall f, f ∈ tableAnswers a mem src l -> f ≠ 0 ∧ Low f

theorem CloneReady.next {i : Fin 1024} {l : List (Fin 1024)}
    (h : CloneReady k t a mem src dst (i :: l)) :
    CloneReady k t (after a (tableFrames mem src i)) mem src dst l where
  srcLow := h.srcLow
  dstLow := h.dstLow
  writable := h.writable
  tables := h.tables
  given := fun f hf => h.given f hf.of_after
  answers := fun f hf => h.answers f (tableAnswers_next hf)

theorem CloneReady.first {i : Fin 1024} {l : List (Fin 1024)}
    (h : CloneReady k t a mem src dst (i :: l)) (hi : UserTable mem src i) :
    answer a 0 ≠ 0 ∧ Low (answer a 0) :=
  h.answers _ (tableAnswers_first l hi)

theorem Mapped.cloneTable {i : Fin 1024} {l : List (Fin 1024)}
    (h : Mapped k t st) (hready : CloneReady k t a mem src dst (i :: l))
    (hreads : ReadsDir a mem src dst st) :
    Mapped k t (cloneTable src dst st i) := by
  have haccess := h.access hready.srcLow
  have hword := hready.writable.writable i
  cases hpde : present (st.mem src i) with
  | false =>
      rw [cloneTable_absent hpde]
      exact haccess.store hready.dstLow hword 0
  | true =>
      by_cases hi : pdeIndex kernelBase ≤ i
      · rw [cloneTable_kernel hpde hi]
        exact haccess.store hready.dstLow hword _
      · have huser : UserTable mem src i :=
          ⟨by rw [← hreads.words]; exact hpde, not_le.mp hi⟩
        rcases hready.first huser with ⟨hne, hlow⟩
        have hpmm : st.pmm = a := hreads.pmm
        rw [cloneTable_copy (hreads.user huser) (by rw [hpmm]; exact hne),
          hpmm]
        have hpages : Mapped k t ((List.finRange 1024).foldl
            (Vmm.clonePage (frame (st.mem src i)) (answer a 0))
            (st.access src).pmmAllocPage.2) := by
          apply haccess.pmmAllocPage.clonePages _ hlow
            (hready.given _ (given_first hne))
          · intro f hf
            rw [hreads.pmm_first] at hf
            exact hready.given f hf.of_next
          · rw [hreads.words]
            exact hready.tables i huser.left
        exact hpages.store hready.dstLow hword _

theorem Mapped.cloneTables {used : Set UInt32} {l : List (Fin 1024)}
    (h : Mapped k t st) (hready : CloneReady k t a mem src dst l)
    (hreads : ReadsDir a mem src dst st) (hapart : DirApart a mem src dst)
    (hsupply : Supply a used) :
    Mapped k t (l.foldl (Vmm.cloneTable src dst) st) := by
  induction l generalizing st a with
  | nil => exact h
  | cons i l ih =>
      have hpmm := (hreads.cloneTable_pmm hapart hsupply i).right
        (fun hi => (hready.first hi).left)
      exact ih (h.cloneTable hready hreads) hready.next
        (hreads.next hapart hsupply i hpmm) (hapart.after _)
        (hsupply.after _)

/-!
# The entries of a clone
-/

def SharedOrNew (mem mem' : Frames) (src dst : UInt32) (i : Fin 1024)
    (tables : List UInt32) : Prop :=
  present (mem' dst i) = true ->
    (pdeIndex kernelBase ≤ i ∧ present (mem src i) = true ∧
      frame (mem' dst i) = frame (mem src i)) ∨
    frame (mem' dst i) ∈ tables

theorem ReadsDir.cloneTable_entry {used : Set UInt32} {i : Fin 1024}
    {l : List (Fin 1024)} (h : ReadsDir a mem src dst st)
    (hsupply : Supply a used)
    (hok : UserTable mem src i -> answer a 0 ≠ 0) :
    SharedOrNew mem (Vmm.cloneTable src dst st i).mem src dst i
      (tableAnswers a mem src (i :: l)) := by
  intro hpresent
  cases hpde : present (st.mem src i) with
  | false =>
      rw [cloneTable_absent hpde, mem_store_self, present_zero] at hpresent
      cases hpresent
  | true =>
      by_cases hi : pdeIndex kernelBase ≤ i
      · left
        rw [cloneTable_kernel hpde hi, mem_store_self, ← h.words]
        exact ⟨hi, hpde, rfl⟩
      · right
        have huser : UserTable mem src i :=
          ⟨by rw [← h.words]; exact hpde, not_le.mp hi⟩
        have hpmm : st.pmm = a := h.pmm
        rw [cloneTable_copy (h.user huser) (by rw [hpmm]; exact hok huser),
          mem_store_self, frame_moveEntry, hpmm, hsupply.aligned]
        exact tableAnswers_first l huser

theorem ReadsDir.cloneTables_entry {used : Set UInt32}
    {l : List (Fin 1024)} (h : ReadsDir a mem src dst st)
    (hapart : DirApart a mem src dst) (hsupply : Supply a used)
    (hl : l.Nodup)
    (hok : forall f, f ∈ tableAnswers a mem src l -> f ≠ 0) {i : Fin 1024}
    (hi : i ∈ l) :
    SharedOrNew mem (l.foldl (Vmm.cloneTable src dst) st).mem src dst i
      (tableAnswers a mem src l) := by
  induction l generalizing st a with
  | nil => exact absurd hi List.not_mem_nil
  | cons i' l ih =>
      rw [List.nodup_cons] at hl
      have hfirst : UserTable mem src i' -> answer a 0 ≠ 0 :=
        fun huser => hok _ (tableAnswers_first l huser)
      have hpmm := (h.cloneTable_pmm hapart hsupply i').right hfirst
      have hnext := h.next hapart hsupply i' hpmm
      rcases List.mem_cons.mp hi with heq | hmem
      · have hone := h.cloneTable_entry hsupply hfirst (l := l)
        rw [heq]
        unfold SharedOrNew at hone ⊢
        rw [List.foldl_cons, hnext.cloneTables_keep (hapart.after _)
          (hsupply.after _) (Or.inr hl.left) (hapart.after _).dstKept]
        exact hone
      · intro hpresent
        rcases ih hnext (hapart.after _) (hsupply.after _) hl.right
          (fun f hf => hok f (tableAnswers_next hf)) hmem hpresent with
          hshared | hnew
        · exact Or.inl hshared
        · exact Or.inr (tableAnswers_next hnew)

/-!
# Clones and their end
-/

def cloneAnswers (a : alpha) (mem : Frames) (src : UInt32) : List UInt32 :=
  answer a 0 :: tableAnswers (PageAllocator.pmmAllocPage a).2 mem src
    (List.finRange 1024)

theorem Sound.cloneReady (h : Sound k t dirs st) (hsrc : src ∈ dirs)
    (hsupply : Supply st.pmm (inUse st.mem dirs))
    (hfirst : answer st.pmm 0 ≠ 0)
    (hok : forall f, f ∈ cloneAnswers st.pmm st.mem src -> f ≠ 0 ∧ Low f) :
    CloneReady k t (PageAllocator.pmmAllocPage st.pmm).2 st.mem src
      (answer st.pmm 0) (List.finRange 1024) where
  srcLow := h.dirs.low src hsrc
  dstLow := (hok _ List.mem_cons_self).right
  writable := h.outside (hsupply.unused _ (given_first hfirst))
  tables := fun i hi => h.dirs.tableLow src i hsrc hi
  given := fun f hf => h.outside (hsupply.unused f hf.of_next)
  answers := fun f hf => hok f (List.mem_cons_of_mem _ hf)

omit [PageAllocator alpha] in
/-- One directory more, whose tables are new or those of the kernel. -/
theorem DirsInv.insert {mem' : Frames} {tables : List UInt32}
    (h : DirsInv mem k t dirs) (hsrc : src ∈ dirs) (hlow : Low dst)
    (hunused : dst ∉ inUse mem dirs)
    (hkept : forall d, d ∈ dirs -> mem' d = mem d)
    (hentry : forall i, SharedOrNew mem mem' src dst i tables)
    (htables : forall f, f ∈ tables ->
      Low f ∧ f ∉ inUse mem dirs ∧ f ≠ dst)
    (hfirst : forall n : Fin 1024, n.val < 2 -> t n ∈ inUse mem dirs) :
    DirsInv mem' k t (insert dst dirs) where
  kernel := Set.mem_insert_of_mem dst h.kernel
  low := by
    intro d hd
    rcases Set.mem_insert_iff.mp hd with heq | hd
    · exact heq ▸ hlow
    · exact h.low d hd
  tableLow := by
    intro d i hd hpresent
    rcases Set.mem_insert_iff.mp hd with heq | hd
    · rw [heq] at hpresent ⊢
      rcases hentry i hpresent with ⟨_, hold, hsame⟩ | hnew
      · rw [hsame]
        exact h.tableLow src i hsrc hold
      · exact (htables _ hnew).left
    · rw [hkept d hd] at hpresent ⊢
      exact h.tableLow d i hd hpresent
  tableApart := by
    have hshared : forall d i, d ∈ dirs -> present (mem d i) = true ->
        frame (mem d i) ∉ Insert.insert dst dirs := by
      intro d i hd hpresent hmem
      rcases Set.mem_insert_iff.mp hmem with heq | hmem
      · exact hunused (heq ▸ table_inUse hd hpresent)
      · exact h.tableApart d i hd hpresent hmem
    intro d i hd hpresent
    rcases Set.mem_insert_iff.mp hd with heq | hd
    · rw [heq] at hpresent ⊢
      rcases hentry i hpresent with ⟨_, hold, hsame⟩ | hnew
      · rw [hsame]
        exact hshared src i hsrc hold
      · rcases htables _ hnew with ⟨_, hfree, hne⟩
        intro hmem
        rcases Set.mem_insert_iff.mp hmem with heq | hmem
        · exact hne heq
        · exact hfree (dir_inUse hmem)
    · rw [hkept d hd] at hpresent ⊢
      exact hshared d i hd hpresent
  own := by
    intro d i hd hpresent n hn htable
    rcases Set.mem_insert_iff.mp hd with heq | hd
    · rw [heq] at hpresent htable
      rcases hentry i hpresent with ⟨hkernel, hold, hsame⟩ | hnew
      · rw [hsame] at htable
        have hi := (h.own src i hsrc hold n hn htable).right
        have hbase := kernelIndex_val
        have hle : (pdeIndex kernelBase).val ≤ i.val := hkernel
        omega
      · exact absurd (hfirst n hn) (htable ▸ (htables _ hnew).right.left)
    · rw [hkept d hd] at hpresent htable
      exact h.own d i hd hpresent n hn htable

theorem Sound.vmmCloneDir (h : Sound k t dirs st) (hsrc : src ∈ dirs)
    (hsupply : Supply st.pmm (inUse st.mem dirs))
    (hfirst : answer st.pmm 0 ≠ 0)
    (hok : forall f, f ∈ cloneAnswers st.pmm st.mem src -> f ≠ 0 ∧ Low f) :
    Sound k t (insert (answer st.pmm 0) dirs) (st.vmmCloneDir src).2 := by
  have hready := h.cloneReady hsrc hsupply hfirst hok
  have hused : Supply st.pmm (dirFrames st.mem src) :=
    hsupply.mono (fun f hf => ⟨src, hsrc, hf⟩)
  have hapart := dirApart_first hused hfirst
  have hsame : forall f, ¬ Given st.pmm f -> st.mem f = st.mem f :=
    fun _ _ => rfl
  have hreads := readsDir_first hused hsame
  rw [withMem_self] at hreads
  have hmapped := h.mapped.pmmAllocPage.cloneTables hready hreads hapart
    hused.next
  have hentry := fun i => hreads.cloneTables_entry hapart hused.next
    (List.nodup_finRange 1024) (fun f hf => (hready.answers f hf).left)
    (List.mem_finRange i)
  have hkept : forall d, d ∈ dirs -> ((List.finRange 1024).foldl
      (Vmm.cloneTable src (answer st.pmm 0)) st.pmmAllocPage.2).mem d =
        st.mem d := by
    intro d hd
    funext j
    apply hreads.cloneTables_keep hapart hused.next
    · left
      intro heq
      exact hsupply.unused _ (given_first hfirst) (heq ▸ dir_inUse hd)
    · exact fun hg => hsupply.unused d hg.of_next (dir_inUse hd)
  rw [vmmCloneDir_loop hfirst]
  refine ⟨hmapped, h.dirs.insert hsrc hready.dstLow
    (hsupply.unused _ (given_first hfirst)) hkept hentry ?_
    (fun n hn => (h.first_inUse hn).right.right)⟩
  intro f hf
  have hgiven := given_tableAnswers hf (hready.answers f hf).left
  refine ⟨(hready.answers f hf).right, hsupply.unused f hgiven.of_next, ?_⟩
  intro heq
  exact hsupply.not_given (heq ▸ hgiven)

theorem Mapped.destroyPages {pt : UInt32} (h : Mapped k t st) (hpt : Low pt)
    (l : List (Fin 1024)) : Mapped k t (l.foldl (destroyPage pt) st) := by
  apply mapped_foldl _ h
  intro s hs j _
  unfold destroyPage
  dsimp only
  split
  · exact (hs.access hpt).pmmFreePage _
  · exact hs.access hpt

theorem Mapped.destroyTables {dir : UInt32} (h : Mapped k t st)
    (hdir : Low dir)
    (htables : forall i, present (st.mem dir i) = true ->
      Low (frame (st.mem dir i))) (l : List (Fin 1024)) :
    Mapped k t (l.foldl (destroyTable dir) st) := by
  induction l generalizing st with
  | nil => exact h
  | cons i l ih =>
      have hmem := mem_destroyTable dir st i
      apply ih
      · have haccess := h.access hdir
        unfold destroyTable
        dsimp only
        split
        · exact haccess
        · rename_i hpresent
          exact (haccess.destroyPages (htables i (not_not.mp hpresent))
            _).pmmFreePage _
      · intro i' hi'
        rw [hmem] at hi' ⊢
        exact htables i' hi'

theorem Sound.vmmDestroyDir {dir : UInt32} (h : Sound k t dirs st)
    (hdir : dir ∈ dirs) : Sound k t dirs (st.vmmDestroyDir dir) := by
  have hfrees := frees_vmmDestroyDir st dir
  constructor
  · exact (h.mapped.destroyTables (h.dirs.low dir hdir)
      (fun i hi => h.dirs.tableLow dir i hdir hi) userIndices).pmmFreePage dir
  · rw [hfrees.mem]
    exact h.dirs

end Vmm
end Mm
end EarlnuxOS
