import EarlnuxOS.Mm.Vmm.Steps
import EarlnuxOS.Mm.Vmm.Supply

/-!
# Copying the pages of one table

The inner loop of `vmm_clone_dir`, for any part of the indices: what it leaves
alone, what it writes when no frame is missing, and what it leaves behind where
the first frame is missing or is a page that someone uses.
-/

namespace EarlnuxOS
namespace Mm
namespace Vmm

universe u

variable {alpha : Type u} [PageAllocator alpha] {st : Vmm alpha}
  {srcPt dstPt : UInt32}

def pagesIn (mem : Frames) (pt : UInt32) (l : List (Fin 1024)) : Nat :=
  l.countP (fun j => present (mem pt j))

/-- The table that is read and the one that is written. -/
structure Apart (a : alpha) (srcPt dstPt : UInt32) : Prop where
  ne : srcPt ≠ dstPt
  src : ¬ Given a srcPt
  dst : ¬ Given a dstPt

theorem Apart.after {a : alpha} (h : Apart a srcPt dstPt) (n : Nat) :
    Apart (after a n) srcPt dstPt :=
  ⟨h.ne, fun hg => h.src hg.of_after, fun hg => h.dst hg.of_after⟩

/-!
# One page
-/

theorem clonePage_absent {j : Fin 1024}
    (h : present (st.mem srcPt j) = false) :
    clonePage srcPt dstPt st j = (st.access srcPt).store dstPt j 0 :=
  if_pos (by rw [mem_access, h]; exact Bool.false_ne_true)

theorem clonePage_fail {j : Fin 1024} (h : present (st.mem srcPt j) = true)
    (hpage : answer st.pmm 0 = 0) :
    clonePage srcPt dstPt st j = (st.access srcPt).pmmAllocPage.2 :=
  (if_neg (not_not.mpr h)).trans (if_pos hpage)

theorem clonePage_copy {j : Fin 1024} (h : present (st.mem srcPt j) = true)
    (hpage : answer st.pmm 0 ≠ 0) :
    clonePage srcPt dstPt st j =
      (((st.access srcPt).pmmAllocPage.2).copyPage
        (frame (st.mem srcPt j)) (answer st.pmm 0)).store dstPt j
          (moveEntry (answer st.pmm 0) (st.mem srcPt j)) :=
  (if_neg (not_not.mpr h)).trans (if_neg hpage)

theorem clonePage_pmm (srcPt dstPt : UInt32) (st : Vmm alpha)
    (j : Fin 1024) :
    (clonePage srcPt dstPt st j).pmm =
      after st.pmm (pagesIn st.mem srcPt [j]) := by
  unfold pagesIn
  cases h : present (st.mem srcPt j) with
  | false =>
      rw [clonePage_absent h, List.countP_cons_of_neg (by rw [h]; decide)]
      rfl
  | true =>
      rw [List.countP_cons_of_pos (by rw [h])]
      by_cases hpage : answer st.pmm 0 = 0
      · rw [clonePage_fail h hpage]
        rfl
      · rw [clonePage_copy h hpage]
        rfl

theorem clonePage_frame {j : Fin 1024} {f : UInt32} {k : Fin 1024}
    (hword : f ≠ dstPt ∨ k ≠ j)
    (hpage : present (st.mem srcPt j) = true -> answer st.pmm 0 = f -> f = 0) :
    (clonePage srcPt dstPt st j).mem f k = st.mem f k := by
  have hno : ¬ (f = dstPt ∧ k = j) :=
    fun h => hword.elim (fun hf => hf h.left) (fun hk => hk h.right)
  cases h : present (st.mem srcPt j) with
  | false =>
      rw [clonePage_absent h, mem_store, if_neg hno]
      rfl
  | true =>
      by_cases hzero : answer st.pmm 0 = 0
      · rw [clonePage_fail h hzero]
        rfl
      · rw [clonePage_copy h hzero, mem_store, if_neg hno, mem_copyPage,
          if_neg (fun heq => hzero (heq.symm.trans (hpage h heq.symm)))]
        rfl

theorem Apart.clonePage_src (h : Apart st.pmm srcPt dstPt)
    (j k : Fin 1024) :
    (clonePage srcPt dstPt st j).mem srcPt k = st.mem srcPt k :=
  clonePage_frame (Or.inl h.ne) (fun _ heq => by
    by_contra hne
    exact h.src ⟨hne, 0, heq⟩)

theorem Apart.next (h : Apart st.pmm srcPt dstPt) (j : Fin 1024) :
    Apart (clonePage srcPt dstPt st j).pmm srcPt dstPt := by
  rw [clonePage_pmm]
  exact h.after _

theorem Apart.pagesIn_next (h : Apart st.pmm srcPt dstPt) (j : Fin 1024)
    (l : List (Fin 1024)) :
    pagesIn (clonePage srcPt dstPt st j).mem srcPt l =
      pagesIn st.mem srcPt l := by
  unfold pagesIn
  congr 1
  funext k
  rw [h.clonePage_src]

theorem pagesIn_cons (mem : Frames) (pt : UInt32) (j : Fin 1024)
    (l : List (Fin 1024)) :
    pagesIn mem pt (j :: l) = pagesIn mem pt [j] + pagesIn mem pt l :=
  @List.countP_append _ _ [j] l

/-!
# Any number of pages
-/

theorem clonePages_pmm (h : Apart st.pmm srcPt dstPt)
    (l : List (Fin 1024)) :
    (l.foldl (clonePage srcPt dstPt) st).pmm =
      after st.pmm (pagesIn st.mem srcPt l) := by
  induction l generalizing st with
  | nil => rfl
  | cons j l ih =>
      rw [List.foldl_cons, ih (h.next j), h.pagesIn_next, clonePage_pmm,
        pagesIn_cons st.mem srcPt j l, after_add]

theorem clonePages_frame (h : Apart st.pmm srcPt dstPt)
    {l : List (Fin 1024)} {f : UInt32} {k : Fin 1024}
    (hword : f ≠ dstPt ∨ k ∉ l)
    (hpages : forall m, m < pagesIn st.mem srcPt l ->
      answer st.pmm m = f -> f = 0) :
    (l.foldl (clonePage srcPt dstPt) st).mem f k = st.mem f k := by
  induction l generalizing st with
  | nil => rfl
  | cons j l ih =>
      rw [pagesIn_cons st.mem srcPt j l] at hpages
      rw [List.foldl_cons, ih (h.next j)]
      · apply clonePage_frame
        · rcases hword with hf | hk
          · exact Or.inl hf
          · exact Or.inr (fun heq => hk (List.mem_cons.mpr (Or.inl heq)))
        · intro hj
          have hone : pagesIn st.mem srcPt [j] = 1 :=
            List.countP_cons_of_pos (by rw [hj])
          exact hpages 0 (by omega)
      · rcases hword with hf | hk
        · exact Or.inl hf
        · exact Or.inr (fun hmem => hk (List.mem_cons_of_mem j hmem))
      · intro m hm
        rw [h.pagesIn_next] at hm
        rw [clonePage_pmm, answer_after]
        exact hpages _ (by omega)

theorem clonePages_keep (h : Apart st.pmm srcPt dstPt)
    {l : List (Fin 1024)} {f : UInt32} {k : Fin 1024}
    (hword : f ≠ dstPt ∨ k ∉ l) (hgiven : ¬ Given st.pmm f) :
    (l.foldl (clonePage srcPt dstPt) st).mem f k = st.mem f k := by
  apply clonePages_frame h hword
  intro m _ heq
  by_contra hne
  exact hgiven ⟨hne, m, heq⟩

/-!
# When no frame is missing
-/

def pageAt (mem : Frames) (pt : UInt32) (j : Fin 1024) : Option UInt32 :=
  if present (mem pt j) then some (frame (mem pt j)) else none

theorem pageAt_congr {mem mem' : Frames} {pt : UInt32} {j : Fin 1024}
    (h : mem' pt j = mem pt j) : pageAt mem' pt j = pageAt mem pt j := by
  unfold pageAt
  rw [h]

theorem pageAt_zero {mem : Frames} {pt : UInt32} {j : Fin 1024}
    (h : mem pt j = 0) : pageAt mem pt j = none := by
  unfold pageAt
  rw [h, present_zero]
  rfl

theorem pageAt_moved {mem : Frames} {pt page pte : UInt32} {j : Fin 1024}
    (h : mem pt j = moveEntry page pte) (hpresent : present pte = true)
    (haligned : frame page = page) : pageAt mem pt j = some page := by
  unfold pageAt
  rw [h, present_moveEntry, hpresent, if_pos rfl, frame_moveEntry, haligned]

structure PagesCopied (srcPt dstPt : UInt32) (l : List (Fin 1024))
    (st st' : Vmm alpha) : Prop where
  absent : forall j, j ∈ l -> present (st.mem srcPt j) = false ->
    st'.mem dstPt j = 0
  copied : forall j, j ∈ l -> present (st.mem srcPt j) = true ->
    exists m, m < pagesIn st.mem srcPt l ∧
      st'.mem dstPt j = moveEntry (answer st.pmm m) (st.mem srcPt j) ∧
      (frame (st.mem srcPt j) ≠ dstPt ->
        (forall m', m' < pagesIn st.mem srcPt l ->
          answer st.pmm m' ≠ frame (st.mem srcPt j)) ->
        st'.mem (answer st.pmm m) = st.mem (frame (st.mem srcPt j)))
  taken : st'.taken.Perm (l.filterMap (pageAt st'.mem dstPt) ++ st.taken)

theorem clonePages_first {used : Set UInt32} (h : Apart st.pmm srcPt dstPt)
    (hsupply : Supply st.pmm used) {j : Fin 1024} {l : List (Fin 1024)}
    (hl : j ∉ l) (hj : present (st.mem srcPt j) = true)
    (hpage : answer st.pmm 0 ≠ 0) :
    (l.foldl (clonePage srcPt dstPt)
        (clonePage srcPt dstPt st j)).mem dstPt j =
          moveEntry (answer st.pmm 0) (st.mem srcPt j) ∧
      (l.foldl (clonePage srcPt dstPt)
        (clonePage srcPt dstPt st j)).mem (answer st.pmm 0) =
          st.mem (frame (st.mem srcPt j)) := by
  have hcopy := @clonePage_copy _ _ _ _ dstPt _ hj hpage
  have hne : answer st.pmm 0 ≠ dstPt := by
    intro heq
    exact h.dst (heq ▸ given_first hpage)
  have hfresh : ¬ Given (clonePage srcPt dstPt st j).pmm
      (answer st.pmm 0) := by
    rw [hcopy]
    exact hsupply.not_given
  constructor
  · rw [clonePages_keep (h.next j) (Or.inr hl) (h.next j).dst, hcopy]
    exact mem_store_self _ _ _ _
  · funext k
    rw [clonePages_keep (h.next j) (Or.inl hne) hfresh, hcopy,
      mem_store_other _ _ _ _ hne, mem_copyPage, if_pos rfl]
    rfl

/-- What was copied after the first page, seen from the state before it. -/
theorem PagesCopied.later (h : Apart st.pmm srcPt dstPt) {j j' : Fin 1024}
    {l : List (Fin 1024)} {st' : Vmm alpha}
    (hrest : PagesCopied srcPt dstPt l (clonePage srcPt dstPt st j) st')
    (hj' : j' ∈ l) (hpresent : present (st.mem srcPt j') = true) :
    exists m, m < pagesIn st.mem srcPt (j :: l) ∧
      st'.mem dstPt j' = moveEntry (answer st.pmm m) (st.mem srcPt j') ∧
      (frame (st.mem srcPt j') ≠ dstPt ->
        (forall m', m' < pagesIn st.mem srcPt (j :: l) ->
          answer st.pmm m' ≠ frame (st.mem srcPt j')) ->
        st'.mem (answer st.pmm m) = st.mem (frame (st.mem srcPt j'))) := by
  have hcount := pagesIn_cons st.mem srcPt j l
  have hsrc := h.clonePage_src j
  have hindex : forall m, answer (clonePage srcPt dstPt st j).pmm m =
      answer st.pmm (pagesIn st.mem srcPt [j] + m) := by
    intro m
    rw [clonePage_pmm, answer_after]
  rcases hrest.copied j' hj' (by rw [hsrc]; exact hpresent) with
    ⟨m, hm, hword, hcontent⟩
  rw [h.pagesIn_next] at hm hcontent
  rw [hindex, hsrc] at hword
  refine ⟨_, by omega, hword, ?_⟩
  intro hne hfree
  rw [hindex, hsrc] at hcontent
  rw [hcontent hne (by
    intro m' hm'
    rw [hindex]
    exact hfree _ (by omega))]
  funext k
  apply clonePage_frame (Or.inl hne)
  intro hj heq
  have hone : pagesIn st.mem srcPt [j] = 1 :=
    List.countP_cons_of_pos (by rw [hj])
  exact absurd heq (hfree 0 (by omega))

theorem clonePages_copied {used : Set UInt32}
    (h : Apart st.pmm srcPt dstPt) (hsupply : Supply st.pmm used)
    {l : List (Fin 1024)} (hl : l.Nodup)
    (hok : forall m, m < pagesIn st.mem srcPt l -> answer st.pmm m ≠ 0) :
    PagesCopied srcPt dstPt l st (l.foldl (clonePage srcPt dstPt) st) := by
  induction l generalizing st with
  | nil =>
      exact ⟨fun j hj => absurd hj List.not_mem_nil,
        fun j hj => absurd hj List.not_mem_nil, List.Perm.refl _⟩
  | cons j l ih =>
      rw [List.nodup_cons] at hl
      have hcount := pagesIn_cons st.mem srcPt j l
      have hsrc := h.clonePage_src j
      have hpmm := clonePage_pmm srcPt dstPt st j
      have hrest := ih (h.next j) (by rw [hpmm]; exact hsupply.after _)
        hl.right (by
          intro m hm
          rw [h.pagesIn_next] at hm
          rw [hpmm, answer_after]
          exact hok _ (by omega))
      have hlater := fun (j' : Fin 1024) (hj' : j' ∈ l) =>
        PagesCopied.later h hrest hj'
      rw [List.foldl_cons]
      have htaken := hrest.taken
      cases hj : present (st.mem srcPt j) with
      | false =>
          have hzero : (l.foldl (clonePage srcPt dstPt)
              (clonePage srcPt dstPt st j)).mem dstPt j = 0 := by
            rw [clonePages_keep (h.next j) (Or.inr hl.left) (h.next j).dst,
              clonePage_absent hj]
            exact mem_store_self _ _ _ _
          refine ⟨?_, ?_, ?_⟩
          · intro j' hj' hpresent
            rcases List.mem_cons.mp hj' with heq | hmem
            · rw [heq]
              exact hzero
            · exact hrest.absent j' hmem (by rw [hsrc]; exact hpresent)
          · intro j' hj' hpresent
            rcases List.mem_cons.mp hj' with heq | hmem
            · rw [heq, hj] at hpresent
              cases hpresent
            · exact hlater j' hmem hpresent
          · have hnone := pageAt_zero hzero
            have hfirst : (clonePage srcPt dstPt st j).taken = st.taken := by
              rw [clonePage_absent hj]
              rfl
            rw [hfirst] at htaken
            rw [List.filterMap_cons_none hnone]
            exact htaken
      | true =>
          have hone : pagesIn st.mem srcPt [j] = 1 :=
            List.countP_cons_of_pos (by rw [hj])
          have hpage := hok 0 (by omega)
          have hcopied := clonePages_first h hsupply hl.left hj hpage
          refine ⟨?_, ?_, ?_⟩
          · intro j' hj' hpresent
            rcases List.mem_cons.mp hj' with heq | hmem
            · rw [heq, hj] at hpresent
              cases hpresent
            · exact hrest.absent j' hmem (by rw [hsrc]; exact hpresent)
          · intro j' hj' hpresent
            rcases List.mem_cons.mp hj' with heq | hmem
            · rw [heq]
              exact ⟨0, by omega, hcopied.left, fun _ _ => hcopied.right⟩
            · exact hlater j' hmem hpresent
          · have hsome := pageAt_moved hcopied.left hj (hsupply.aligned 0)
            have hfirst : (clonePage srcPt dstPt st j).taken =
                answer st.pmm 0 :: st.taken := by
              rw [clonePage_copy hj hpage]
              exact if_neg hpage
            rw [hfirst] at htaken
            rw [List.filterMap_cons_some hsome]
            exact htaken.trans List.perm_middle

/-!
# The first frame that is missing or in use
-/

/-- A state in which the allocator and the words to be read are known. -/
structure Reads (a : alpha) (words : Fin 1024 -> UInt32) (srcPt dstPt : UInt32)
    (st : Vmm alpha) : Prop where
  pmm : st.pmm = a
  words : forall k, st.mem srcPt k = words k
  apart : Apart a srcPt dstPt

theorem Reads.pagesIn {a : alpha} {words : Fin 1024 -> UInt32}
    (h : Reads a words srcPt dstPt st) (l : List (Fin 1024)) :
    pagesIn st.mem srcPt l = l.countP (fun j => present (words j)) := by
  unfold Vmm.pagesIn
  congr 1
  funext k
  rw [h.words]

theorem Reads.next {a : alpha} {words : Fin 1024 -> UInt32}
    (h : Reads a words srcPt dstPt st) (j : Fin 1024) :
    Reads (after a ([j].countP (fun j => present (words j)))) words srcPt dstPt
      (clonePage srcPt dstPt st j) where
  pmm := by
    rw [clonePage_pmm, h.pagesIn, h.pmm]
  words := by
    intro k
    rw [Apart.clonePage_src (by rw [h.pmm]; exact h.apart)]
    exact h.words k
  apart := h.apart.after _

theorem Reads.apart_now {a : alpha} {words : Fin 1024 -> UInt32}
    (h : Reads a words srcPt dstPt st) : Apart st.pmm srcPt dstPt := by
  rw [h.pmm]
  exact h.apart

/--
The entry is left as it was, for want of a frame, or its page is copied over a
page in use.
-/
def PageLost (a : alpha) (words : Fin 1024 -> UInt32) (inUse : UInt32 -> Prop)
    (srcPt dstPt : UInt32) (l : List (Fin 1024)) (j : Fin 1024) : Prop :=
  (forall st, Reads a words srcPt dstPt st ->
    (l.foldl (clonePage srcPt dstPt) st).mem dstPt j = st.mem dstPt j) ∨
  exists m, m < l.countP (fun j => present (words j)) ∧
    answer a m ≠ 0 ∧ inUse (answer a m) ∧
    forall st, Reads a words srcPt dstPt st ->
      (l.foldl (clonePage srcPt dstPt) st).mem dstPt j =
        moveEntry (answer a m) (words j) ∧
      (l.foldl (clonePage srcPt dstPt) st).mem (answer a m) =
        st.mem (frame (words j))

section Lost

variable {a : alpha} {words : Fin 1024 -> UInt32} {inUse : UInt32 -> Prop}
  {used : Set UInt32} {l : List (Fin 1024)} {j : Fin 1024}

theorem pageLost_head (hsupply : Supply a used) (hl : j ∉ l)
    (hpresent : present (words j) = true)
    (hfirst : answer a 0 = 0 ∨ inUse (answer a 0)) :
    PageLost a words inUse srcPt dstPt (j :: l) j := by
  by_cases hzero : answer a 0 = 0
  · left
    intro st hst
    have hnext := hst.apart_now.next j
    rw [List.foldl_cons, clonePages_keep hnext (Or.inr hl) hnext.dst,
      clonePage_fail (by rw [hst.words]; exact hpresent)
        (by rw [hst.pmm]; exact hzero)]
    rfl
  · right
    refine ⟨0, List.countP_pos_iff.mpr ⟨j, List.mem_cons_self, hpresent⟩,
      hzero, hfirst.resolve_left hzero, ?_⟩
    intro st hst
    have hcopied := clonePages_first hst.apart_now (hst.pmm ▸ hsupply) hl
      (by rw [hst.words]; exact hpresent) (by rw [hst.pmm]; exact hzero)
    rw [hst.pmm, hst.words] at hcopied
    exact hcopied

/-- A page that is lost after the first one, which gets a frame of its own. -/
theorem PageLost.cons {j' : Fin 1024}
    (h : PageLost (after a ([j].countP (fun j => present (words j)))) words
      inUse srcPt dstPt l j')
    (hne : j' ≠ j) (hpage : inUse (frame (words j'))) (hdst : ¬ inUse dstPt)
    (hfirst : present (words j) = true -> ¬ inUse (answer a 0)) :
    PageLost a words inUse srcPt dstPt (j :: l) j' := by
  rcases h with hkept | ⟨m, hm, hzero, hused, hcopied⟩
  · left
    intro st hst
    rw [List.foldl_cons, hkept _ (hst.next j)]
    apply clonePage_frame (Or.inr hne)
    intro _ heq
    by_contra hzero
    exact hst.apart_now.dst ⟨hzero, 0, heq⟩
  · have hcount := @List.countP_append _ (fun j => present (words j)) [j] l
    rw [List.singleton_append] at hcount
    rw [answer_after] at hzero hused hcopied
    refine Or.inr ⟨_, by omega, hzero, hused, ?_⟩
    intro st hst
    have hstays : (clonePage srcPt dstPt st j).mem (frame (words j')) =
        st.mem (frame (words j')) := by
      funext k
      have hother : frame (words j') ≠ dstPt := fun heq => hdst (heq ▸ hpage)
      apply clonePage_frame (Or.inl hother)
      intro hpresent heq
      rw [hst.words] at hpresent
      rw [hst.pmm] at heq
      exact absurd (heq ▸ hpage) (hfirst hpresent)
    rcases hcopied _ (hst.next j) with ⟨hword, hcontent⟩
    rw [List.foldl_cons]
    exact ⟨hword, hcontent.trans hstays⟩

/--
Where the first frame is missing, whatever was in the table stays there; where
it is a page in use, that page is overwritten.
-/
theorem clonePages_bad (hsupply : Supply a used) (hdst : ¬ inUse dstPt)
    (hl : l.Nodup)
    (hpages : forall j, j ∈ l -> present (words j) = true ->
      inUse (frame (words j)))
    (hbad : exists m, m < l.countP (fun j => present (words j)) ∧
      (answer a m = 0 ∨ inUse (answer a m))) :
    exists j, j ∈ l ∧ present (words j) = true ∧
      PageLost a words inUse srcPt dstPt l j := by
  induction l generalizing a with
  | nil =>
      rcases hbad with ⟨m, hm, _⟩
      cases hm
  | cons j l ih =>
      rw [List.nodup_cons] at hl
      by_cases hj : present (words j) = true ∧
          (answer a 0 = 0 ∨ inUse (answer a 0))
      · exact ⟨j, List.mem_cons_self, hj.left,
          pageLost_head hsupply hl.left hj.left hj.right⟩
      · have hcount := @List.countP_append _ (fun j => present (words j)) [j] l
        have hone := List.countP_singleton (p := fun j => present (words j))
          (a := j)
        rcases hbad with ⟨m, hm, hmbad⟩
        have hlate : [j].countP (fun j => present (words j)) ≤ m := by
          by_contra hlt
          rw [hone] at hlt
          split at hlt
          · rename_i hpresent
            have hfirst : m = 0 := by omega
            rw [hfirst] at hmbad
            exact hj ⟨hpresent, hmbad⟩
          · omega
        rw [List.singleton_append] at hcount
        rcases ih (hsupply.after _) hl.right
          (fun j' hj' => hpages j' (List.mem_cons_of_mem j hj'))
          ⟨m - [j].countP (fun j => present (words j)), by omega, by
            rw [answer_after, Nat.add_sub_cancel' hlate]
            exact hmbad⟩ with ⟨j', hj', hpresent', hlost⟩
        have hmem := List.mem_cons_of_mem j hj'
        exact ⟨j', hmem, hpresent', hlost.cons (fun heq => hl.left (heq ▸ hj'))
          (hpages j' hmem hpresent') hdst
          (fun hpresent hused => hj ⟨hpresent, Or.inr hused⟩)⟩

end Lost

end Vmm
end Mm
end EarlnuxOS
