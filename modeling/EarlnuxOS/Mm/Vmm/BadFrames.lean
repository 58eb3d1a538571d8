import EarlnuxOS.Mm.Vmm.TableLoop

/-!
# The first bad frame

A frame that is missing, or that is a page of the source, shows in the copy of
a directory: the places are the same whatever the new frames contain.
-/

namespace EarlnuxOS
namespace Mm
namespace Vmm

universe u

variable {alpha : Type u} [PageAllocator alpha] {st : Vmm alpha}
  {mem : Frames} {src dst : UInt32} {a : alpha} {inUse : UInt32 -> Prop}

def tableWord (mem : Frames) (src : UInt32) (i j : Fin 1024) : UInt32 :=
  mem (frame (mem src i)) j

/-- How the first bad frame shows at an entry. -/
inductive Spoilt (a : alpha) (mem : Frames) (src dst : UInt32)
    (inUse : UInt32 -> Prop) (l : List (Fin 1024)) (i : Fin 1024) : Prop where
  | noTable
      (h : forall st, ReadsDir a mem src dst st ->
        (l.foldl (cloneTable src dst) st).mem dst i = st.mem dst i)
  | usedTable (t : UInt32) (hused : inUse t) (hgiven : Given a t)
      (h : forall st, ReadsDir a mem src dst st ->
        (l.foldl (cloneTable src dst) st).mem dst i =
          moveEntry t (mem src i) ∧
        (((l.foldl (cloneTable src dst) st).mem t 0 = st.mem t 0 ∧
            present (tableWord mem src i 0) = true) ∨
          (l.foldl (cloneTable src dst) st).mem t 0 = 0 ∨
          present ((l.foldl (cloneTable src dst) st).mem t 0) = true))
  | noPage (t : UInt32) (hgiven : Given a t) (j : Fin 1024)
      (hj : present (tableWord mem src i j) = true)
      (h : forall st, ReadsDir a mem src dst st ->
        (l.foldl (cloneTable src dst) st).mem dst i =
          moveEntry t (mem src i) ∧
        (l.foldl (cloneTable src dst) st).mem t j = st.mem t j)
  | usedPage (t : UInt32) (hgiven : Given a t) (j : Fin 1024)
      (hj : present (tableWord mem src i j) = true) (page : UInt32)
      (hused : inUse page) (hpage : Given a page)
      (h : forall st, ReadsDir a mem src dst st ->
        (l.foldl (cloneTable src dst) st).mem dst i =
          moveEntry t (mem src i) ∧
        (l.foldl (cloneTable src dst) st).mem t j =
          moveEntry page (tableWord mem src i j) ∧
        (l.foldl (cloneTable src dst) st).mem page =
          st.mem (frame (tableWord mem src i j)))

/-- The steps before the first bad frame change nothing that shows. -/
theorem Spoilt.cons {used : Set UInt32} {i i' : Fin 1024}
    {l : List (Fin 1024)} {n : Nat} (hapart : DirApart a mem src dst)
    (hsupply : Supply a used) (hne : i' ≠ i) (hdst : ¬ inUse dst)
    (hpages : forall j, present (tableWord mem src i' j) = true ->
      inUse (frame (tableWord mem src i' j)))
    (hn : n = tableFrames mem src i)
    (hpmm : forall st, ReadsDir a mem src dst st ->
      (cloneTable src dst st i).pmm = after a n)
    (hgood : forall m, m < n -> ¬ inUse (answer a m))
    (h : Spoilt (after a n) mem src dst inUse l i') :
    Spoilt a mem src dst inUse (i :: l) i' := by
  have hnext : forall st, ReadsDir a mem src dst st ->
      ReadsDir (after a n) mem src dst (cloneTable src dst st i) :=
    fun st hst => hst.next hapart hsupply i (hpmm st hst)
  have hword : forall st, ReadsDir a mem src dst st ->
      (cloneTable src dst st i).mem dst i' = st.mem dst i' :=
    fun st hst => hst.cloneTable_keep hapart hsupply (Or.inr hne)
      hapart.dstKept
  have hlater : forall t, Given (after a n) t ->
      forall st, ReadsDir a mem src dst st ->
        forall k, (cloneTable src dst st i).mem t k = st.mem t k := by
    intro t ht st hst k
    have htdst : t ≠ dst := fun heq => hapart.dstKept (heq ▸ ht.of_after)
    apply hst.cloneTable_frame hapart hsupply (Or.inl htdst)
    intro m hm heq
    rw [← hn] at hm
    exact absurd (heq ▸ ht) (hsupply.not_given_after hm)
  have hold : forall f, inUse f -> forall st, ReadsDir a mem src dst st ->
      (cloneTable src dst st i).mem f = st.mem f := by
    intro f hf st hst
    have hfdst : f ≠ dst := fun heq => hdst (heq ▸ hf)
    funext k
    apply hst.cloneTable_frame hapart hsupply (Or.inl hfdst)
    intro m hm heq
    rw [← hn] at hm
    exact absurd (heq ▸ hf) (hgood m hm)
  cases h with
  | noTable h =>
      apply Spoilt.noTable
      intro st hst
      rw [List.foldl_cons, h _ (hnext st hst)]
      exact hword st hst
  | usedTable t hused hgiven h =>
      apply Spoilt.usedTable t hused hgiven.of_after
      intro st hst
      have hrest := h _ (hnext st hst)
      rw [hlater t hgiven st hst] at hrest
      exact hrest
  | noPage t hgiven j hj h =>
      apply Spoilt.noPage t hgiven.of_after j hj
      intro st hst
      have hrest := h _ (hnext st hst)
      rw [hlater t hgiven st hst] at hrest
      exact hrest
  | usedPage t hgiven j hj page hused hpage h =>
      apply Spoilt.usedPage t hgiven.of_after j hj page hused hpage.of_after
      intro st hst
      have hrest := h _ (hnext st hst)
      rw [hold _ (hpages j hj) st hst] at hrest
      exact hrest

/-!
# At one entry
-/

theorem ReadsDir.rest_keep {used : Set UInt32} (h : ReadsDir a mem src dst st)
    (hapart : DirApart a mem src dst) (hsupply : Supply a used)
    {i : Fin 1024} {l : List (Fin 1024)} {n : Nat}
    (hpmm : (cloneTable src dst st i).pmm = after a n) {f : UInt32}
    {k : Fin 1024} (hword : f ≠ dst ∨ k ∉ l) (hgiven : ¬ Given (after a n) f) :
    ((i :: l).foldl (cloneTable src dst) st).mem f k =
      (cloneTable src dst st i).mem f k := by
  rw [List.foldl_cons]
  exact (h.next hapart hsupply i hpmm).cloneTables_keep (hapart.after n)
    (hsupply.after n) hword hgiven

/-- The copy of a table, in the table's frame and in the directory. -/
theorem ReadsDir.cloneTable_new {used : Set UInt32}
    (h : ReadsDir a mem src dst st) (hapart : DirApart a mem src dst)
    (hsupply : Supply a used) {i : Fin 1024} {l : List (Fin 1024)}
    (hi : UserTable mem src i) (hl : i ∉ l) (htable : answer a 0 ≠ 0) :
    ((i :: l).foldl (cloneTable src dst) st).mem dst i =
        moveEntry (answer a 0) (mem src i) ∧
      forall m, m < tableFrames mem src i -> answer a m ≠ 0 ->
        ((i :: l).foldl (cloneTable src dst) st).mem (answer a m) =
          ((List.finRange 1024).foldl
            (clonePage (frame (mem src i)) (answer a 0))
            (st.access src).pmmAllocPage.2).mem (answer a m) := by
  have hpmm := (h.cloneTable_pmm hapart hsupply i).right (fun _ => htable)
  have hcopy := @cloneTable_copy _ _ _ _ dst _ (h.user hi)
    (by rw [h.pmm]; exact htable)
  rw [h.words, h.pmm] at hcopy
  constructor
  · rw [h.rest_keep hapart hsupply hpmm (Or.inr hl)
      (hapart.after _).dstKept, hcopy]
    exact mem_store_self _ _ _ _
  · intro m hm hne
    have hdst : answer a m ≠ dst :=
      fun heq => hapart.dstKept (heq ▸ ⟨hne, m, rfl⟩)
    funext k
    rw [h.rest_keep hapart hsupply hpmm (Or.inl hdst)
      (hsupply.not_given_after hm), hcopy]
    exact mem_store_other _ _ _ _ hdst

theorem spoilt_table {used : Set UInt32} (hapart : DirApart a mem src dst)
    (hsupply : Supply a used) {i : Fin 1024} {l : List (Fin 1024)}
    (hi : UserTable mem src i) (hl : i ∉ l)
    (hbad : answer a 0 = 0 ∨ inUse (answer a 0)) :
    Spoilt a mem src dst inUse (i :: l) i := by
  by_cases hzero : answer a 0 = 0
  · apply Spoilt.noTable
    intro st hst
    rcases (hst.cloneTable_pmm hapart hsupply i).left with ⟨n, hn⟩
    rw [hst.rest_keep hapart hsupply hn (Or.inr hl)
      (hapart.after n).dstKept, cloneTable_fail (hst.user hi)
        (by rw [hst.pmm]; exact hzero)]
    rfl
  · apply Spoilt.usedTable (answer a 0) (hbad.resolve_left hzero)
      (given_first hzero)
    intro st hst
    rcases hst.cloneTable_new hapart hsupply hi hl hzero with
      ⟨hentry, hframes⟩
    have hword := clonePages_word (hst.apart hapart hsupply hi hzero)
      (List.nodup_finRange 1024) (List.mem_finRange 0)
    have htable : (st.access src).pmmAllocPage.2.mem (frame (mem src i)) 0 =
        tableWord mem src i 0 := hst.tables i 0 hi
    have hpositive : 0 < tableFrames mem src i := by
      unfold tableFrames
      rw [if_pos hi]
      omega
    rw [htable, ← hframes 0 hpositive hzero] at hword
    exact ⟨hentry, hword⟩

theorem spoilt_page {used : Set UInt32} (hapart : DirApart a mem src dst)
    (hsupply : Supply a used) {i : Fin 1024} {l : List (Fin 1024)}
    (hi : UserTable mem src i) (hl : i ∉ l) (hzero : answer a 0 ≠ 0)
    (htable : ¬ inUse (answer a 0))
    (hpages : forall j, present (tableWord mem src i j) = true ->
      inUse (frame (tableWord mem src i j)))
    (hbad : exists m, m < pagesIn mem (frame (mem src i))
      (List.finRange 1024) ∧
        (answer a (m + 1) = 0 ∨ inUse (answer a (m + 1)))) :
    Spoilt a mem src dst inUse (i :: l) i := by
  have hreads : forall st, ReadsDir a mem src dst st ->
      Reads (PageAllocator.pmmAllocPage a).2 (tableWord mem src i)
        (frame (mem src i)) (answer a 0) (st.access src).pmmAllocPage.2 := by
    intro st hst
    refine ⟨hst.pmm_first, fun j => hst.tables i j hi, ?_⟩
    have hinner := hst.apart hapart hsupply hi hzero
    rw [hst.pmm_first] at hinner
    exact hinner
  have hcount : tableFrames mem src i = 1 +
      pagesIn mem (frame (mem src i)) (List.finRange 1024) := if_pos hi
  have hkept : forall st, ReadsDir a mem src dst st -> forall f,
      (st.access src).pmmAllocPage.2.mem f = st.mem f := fun _ _ _ => rfl
  have hlost : exists j, j ∈ List.finRange 1024 ∧
      present (tableWord mem src i j) = true ∧
      PageLost (PageAllocator.pmmAllocPage a).2 (tableWord mem src i) inUse
        (frame (mem src i)) (answer a 0) (List.finRange 1024) j :=
    clonePages_bad hsupply.next htable (List.nodup_finRange 1024)
      (fun j _ => hpages j) hbad
  rcases hlost with ⟨j, _, hj, hmissing | ⟨m, hm, hne, hused, hcopied⟩⟩
  · apply Spoilt.noPage (answer a 0) (given_first hzero) j hj
    intro st hst
    rcases hst.cloneTable_new hapart hsupply hi hl hzero with
      ⟨hentry, hframes⟩
    have hword := hmissing _ (hreads st hst)
    rw [hkept st hst] at hword
    exact ⟨hentry, (congrFun (hframes 0 (by omega) hzero) j).trans hword⟩
  · rw [← answer_succ] at hne hused hcopied
    change m < pagesIn mem (frame (mem src i)) (List.finRange 1024) at hm
    have hlt : m + 1 < tableFrames mem src i := by omega
    apply Spoilt.usedPage (answer a 0) (given_first hzero) j hj
      (answer a (m + 1)) hused ⟨hne, m + 1, rfl⟩
    intro st hst
    rcases hst.cloneTable_new hapart hsupply hi hl hzero with
      ⟨hentry, hframes⟩
    rcases hcopied _ (hreads st hst) with ⟨hword, hcontent⟩
    rw [hkept st hst] at hcontent
    exact ⟨hentry, (congrFun (hframes 0 (by omega) hzero) j).trans hword,
      (hframes (m + 1) hlt hne).trans hcontent⟩

/-!
# At any entry
-/

theorem cloneTables_bad {used : Set UInt32} (hapart : DirApart a mem src dst)
    (hsupply : Supply a used) (hdst : ¬ inUse dst) {l : List (Fin 1024)}
    (hl : l.Nodup)
    (hpages : forall i, i ∈ l -> UserTable mem src i ->
      forall j, present (tableWord mem src i j) = true ->
        inUse (frame (tableWord mem src i j)))
    (hbad : exists m, m < framesNeeded mem src l ∧
      (answer a m = 0 ∨ inUse (answer a m))) :
    exists i, i ∈ l ∧ UserTable mem src i ∧
      Spoilt a mem src dst inUse l i := by
  induction l generalizing a with
  | nil =>
      rcases hbad with ⟨m, hm, _⟩
      cases hm
  | cons i l ih =>
      rw [List.nodup_cons] at hl
      rcases hbad with ⟨m, hm, hmbad⟩
      rw [framesNeeded_cons] at hm
      by_cases hhere : exists m, m < tableFrames mem src i ∧
          (answer a m = 0 ∨ inUse (answer a m))
      · rcases hhere with ⟨m, hm, hmbad⟩
        have hi : UserTable mem src i := by
          by_contra hno
          unfold tableFrames at hm
          rw [if_neg hno] at hm
          cases hm
        refine ⟨i, List.mem_cons_self, hi, ?_⟩
        by_cases hfirst : answer a 0 = 0 ∨ inUse (answer a 0)
        · exact spoilt_table hapart hsupply hi hl.left hfirst
        · rw [not_or] at hfirst
          apply spoilt_page hapart hsupply hi hl.left hfirst.left hfirst.right
            (hpages i List.mem_cons_self hi)
          unfold tableFrames at hm
          rw [if_pos hi] at hm
          cases m with
          | zero => exact absurd hmbad (not_or.mpr hfirst)
          | succ m => exact ⟨m, by omega, hmbad⟩
      · have hgood : forall m, m < tableFrames mem src i ->
            answer a m ≠ 0 ∧ ¬ inUse (answer a m) :=
          fun m hm => not_or.mp (fun hbad => hhere ⟨m, hm, hbad⟩)
        have hlate : tableFrames mem src i ≤ m := by
          by_contra hlt
          exact hhere ⟨m, by omega, hmbad⟩
        have hsplit := Nat.add_sub_cancel' hlate
        rcases ih (hapart.after _) (hsupply.after (tableFrames mem src i))
          hl.right (fun i' hi' => hpages i' (List.mem_cons_of_mem i hi'))
          ⟨m - tableFrames mem src i, by omega, by
            rw [answer_after, hsplit]
            exact hmbad⟩ with ⟨i', hi', huser, hspoilt⟩
        have hne : i' ≠ i := fun heq => hl.left (heq ▸ hi')
        refine ⟨i', List.mem_cons_of_mem i hi', huser, ?_⟩
        apply hspoilt.cons hapart hsupply hne hdst
          (hpages i' (List.mem_cons_of_mem i hi') huser) rfl
        · intro st hst
          apply (hst.cloneTable_pmm hapart hsupply i).right
          intro hi
          apply (hgood 0 _).left
          unfold tableFrames
          rw [if_pos hi]
          omega
        · exact fun m hm => (hgood m hm).right

end Vmm
end Mm
end EarlnuxOS
