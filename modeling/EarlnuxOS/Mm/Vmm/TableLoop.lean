import Mathlib.Algebra.Order.BigOperators.Group.List
import Mathlib.Algebra.Order.Group.Nat
import EarlnuxOS.Mm.Vmm.PageLoop

/-!
# Copying the tables of a directory

The outer loop of `vmm_clone_dir`.  The words of the source are those of a
fixed memory; what else memory holds is open.
-/

namespace EarlnuxOS
namespace Mm
namespace Vmm

universe u

variable {alpha : Type u} [PageAllocator alpha] {st : Vmm alpha}
  {mem : Frames} {src dst : UInt32} {a : alpha}

def UserTable (mem : Frames) (src : UInt32) (i : Fin 1024) : Prop :=
  present (mem src i) = true ∧ i < pdeIndex kernelBase

instance (mem : Frames) (src : UInt32) (i : Fin 1024) :
    Decidable (UserTable mem src i) :=
  inferInstanceAs (Decidable (_ ∧ _))

def tableFrames (mem : Frames) (src : UInt32) (i : Fin 1024) : Nat :=
  if UserTable mem src i then
    1 + pagesIn mem (frame (mem src i)) (List.finRange 1024)
  else 0

def framesNeeded (mem : Frames) (src : UInt32) (l : List (Fin 1024)) : Nat :=
  (l.map (tableFrames mem src)).sum

/-- The source and its tables are apart from the copy and from what comes. -/
structure DirApart (a : alpha) (mem : Frames) (src dst : UInt32) : Prop where
  ne : src ≠ dst
  srcKept : ¬ Given a src
  dstKept : ¬ Given a dst
  table_ne : forall i, UserTable mem src i -> frame (mem src i) ≠ dst
  table : forall i, UserTable mem src i -> ¬ Given a (frame (mem src i))

/-- A state in which the allocator and the words of the source are known. -/
structure ReadsDir (a : alpha) (mem : Frames) (src dst : UInt32)
    (st : Vmm alpha) : Prop where
  pmm : st.pmm = a
  words : forall i, st.mem src i = mem src i
  tables : forall i j, UserTable mem src i ->
    st.mem (frame (mem src i)) j = mem (frame (mem src i)) j

theorem DirApart.after (h : DirApart a mem src dst) (n : Nat) :
    DirApart (after a n) mem src dst where
  ne := h.ne
  srcKept := fun hg => h.srcKept hg.of_after
  dstKept := fun hg => h.dstKept hg.of_after
  table_ne := h.table_ne
  table := fun i hi hg => h.table i hi hg.of_after

/-!
# One entry
-/

theorem cloneTable_absent {i : Fin 1024} (h : present (st.mem src i) = false) :
    cloneTable src dst st i = (st.access src).store dst i 0 :=
  if_pos (by rw [mem_access, h]; exact Bool.false_ne_true)

theorem cloneTable_kernel {i : Fin 1024} (h : present (st.mem src i) = true)
    (hi : pdeIndex kernelBase ≤ i) :
    cloneTable src dst st i = (st.access src).store dst i (st.mem src i) :=
  (if_neg (not_not.mpr h)).trans (if_pos hi)

theorem cloneTable_fail {i : Fin 1024} (h : UserTable st.mem src i)
    (htable : answer st.pmm 0 = 0) :
    cloneTable src dst st i = (st.access src).pmmAllocPage.2 :=
  (if_neg (not_not.mpr h.left)).trans ((if_neg (not_le.mpr h.right)).trans
    (if_pos htable))

theorem cloneTable_copy {i : Fin 1024} (h : UserTable st.mem src i)
    (htable : answer st.pmm 0 ≠ 0) :
    cloneTable src dst st i =
      ((List.finRange 1024).foldl
        (clonePage (frame (st.mem src i)) (answer st.pmm 0))
        (st.access src).pmmAllocPage.2).store dst i
          (moveEntry (answer st.pmm 0) (st.mem src i)) :=
  (if_neg (not_not.mpr h.left)).trans ((if_neg (not_le.mpr h.right)).trans
    (if_neg htable))

theorem ReadsDir.pmm_first (h : ReadsDir a mem src dst st) :
    (st.access src).pmmAllocPage.2.pmm =
      (PageAllocator.pmmAllocPage a).2 := by
  rw [← h.pmm]
  rfl

theorem ReadsDir.apart {used : Set UInt32} (h : ReadsDir a mem src dst st)
    (hapart : DirApart a mem src dst) (hsupply : Supply a used)
    {i : Fin 1024} (hi : UserTable mem src i) (htable : answer a 0 ≠ 0) :
    Apart (st.access src).pmmAllocPage.2.pmm (frame (mem src i))
      (answer a 0) := by
  rw [h.pmm_first]
  refine ⟨?_, fun hg => hapart.table i hi hg.of_next, hsupply.not_given⟩
  intro heq
  exact hapart.table i hi (heq ▸ given_first htable)

omit [PageAllocator alpha] in
theorem ReadsDir.user (h : ReadsDir a mem src dst st) {i : Fin 1024}
    (hi : UserTable mem src i) : UserTable st.mem src i := by
  unfold UserTable
  rw [h.words]
  exact hi

omit [PageAllocator alpha] in
theorem ReadsDir.pagesIn (h : ReadsDir a mem src dst st) {i : Fin 1024}
    (hi : UserTable mem src i) (l : List (Fin 1024)) :
    pagesIn st.mem (frame (mem src i)) l =
      pagesIn mem (frame (mem src i)) l := by
  unfold Vmm.pagesIn
  congr 1
  funext j
  rw [h.tables i j hi]

theorem ReadsDir.cloneTable_pmm {used : Set UInt32}
    (h : ReadsDir a mem src dst st) (hapart : DirApart a mem src dst)
    (hsupply : Supply a used) (i : Fin 1024) :
    (exists n, (cloneTable src dst st i).pmm = after a n) ∧
      ((UserTable mem src i -> answer a 0 ≠ 0) ->
        (cloneTable src dst st i).pmm = after a (tableFrames mem src i)) := by
  unfold tableFrames
  by_cases hi : UserTable mem src i
  · rw [if_pos hi]
    by_cases hzero : answer a 0 = 0
    · constructor
      · refine ⟨1, ?_⟩
        rw [cloneTable_fail (h.user hi) (by rw [h.pmm]; exact hzero), ← h.pmm]
        rfl
      · intro hok
        exact absurd hzero (hok hi)
    · have hinner := clonePages_pmm (h.apart hapart hsupply hi hzero)
        (List.finRange 1024)
      have hpmm : (cloneTable src dst st i).pmm =
          after a (1 + Vmm.pagesIn mem (frame (mem src i))
            (List.finRange 1024)) := by
        rw [cloneTable_copy (h.user hi) (by rw [h.pmm]; exact hzero), h.words,
          h.pmm, pmm_store, hinner, mem_pmmAllocPage, mem_access,
          h.pagesIn hi, h.pmm_first, Nat.add_comm, after_succ]
      exact ⟨⟨_, hpmm⟩, fun _ => hpmm⟩
  · rw [if_neg hi]
    have hpmm : (cloneTable src dst st i).pmm = a := by
      cases hpresent : present (st.mem src i) with
      | false =>
          rw [cloneTable_absent hpresent]
          exact h.pmm
      | true =>
          have hkernel : pdeIndex kernelBase ≤ i := by
            by_contra hlt
            rw [h.words] at hpresent
            exact hi ⟨hpresent, not_le.mp hlt⟩
          rw [cloneTable_kernel hpresent hkernel]
          exact h.pmm
    exact ⟨⟨0, hpmm⟩, fun _ => hpmm⟩

theorem ReadsDir.cloneTable_frame {used : Set UInt32}
    (h : ReadsDir a mem src dst st) (hapart : DirApart a mem src dst)
    (hsupply : Supply a used) {i : Fin 1024} {f : UInt32} {k : Fin 1024}
    (hword : f ≠ dst ∨ k ≠ i)
    (hframes : forall m, m < tableFrames mem src i ->
      answer a m = f -> f = 0) :
    (cloneTable src dst st i).mem f k = st.mem f k := by
  have hno : ¬ (f = dst ∧ k = i) :=
    fun h => hword.elim (fun hf => hf h.left) (fun hk => hk h.right)
  unfold tableFrames at hframes
  by_cases hi : UserTable mem src i
  · rw [if_pos hi] at hframes
    by_cases hzero : answer a 0 = 0
    · rw [cloneTable_fail (h.user hi) (by rw [h.pmm]; exact hzero)]
      rfl
    · rw [cloneTable_copy (h.user hi) (by rw [h.pmm]; exact hzero), mem_store,
        if_neg hno, h.words, h.pmm]
      apply clonePages_frame (h.apart hapart hsupply hi hzero)
      · left
        intro heq
        have hf := hframes 0 (by omega) heq.symm
        exact hzero (heq.symm.trans hf)
      · intro m hm heq
        rw [mem_pmmAllocPage, mem_access, h.pagesIn hi] at hm
        apply hframes (m + 1) (by omega)
        rw [answer_succ, ← h.pmm]
        exact heq
  · cases hpresent : present (st.mem src i) with
    | false =>
        rw [cloneTable_absent hpresent, mem_store, if_neg hno]
        rfl
    | true =>
        have hkernel : pdeIndex kernelBase ≤ i := by
          by_contra hlt
          rw [h.words] at hpresent
          exact hi ⟨hpresent, not_le.mp hlt⟩
        rw [cloneTable_kernel hpresent hkernel, mem_store, if_neg hno]
        rfl

/-- What will not be handed out stays, apart from the word itself. -/
theorem ReadsDir.cloneTable_keep {used : Set UInt32}
    (h : ReadsDir a mem src dst st) (hapart : DirApart a mem src dst)
    (hsupply : Supply a used) {i : Fin 1024} {f : UInt32} {k : Fin 1024}
    (hword : f ≠ dst ∨ k ≠ i) (hgiven : ¬ Given a f) :
    (cloneTable src dst st i).mem f k = st.mem f k := by
  apply h.cloneTable_frame hapart hsupply hword
  intro m _ heq
  by_contra hne
  exact hgiven ⟨hne, m, heq⟩

theorem ReadsDir.next {used : Set UInt32} (h : ReadsDir a mem src dst st)
    (hapart : DirApart a mem src dst) (hsupply : Supply a used)
    (i : Fin 1024) {n : Nat}
    (hpmm : (cloneTable src dst st i).pmm = Mm.after a n) :
    ReadsDir (Mm.after a n) mem src dst (cloneTable src dst st i) where
  pmm := hpmm
  words := by
    intro k
    rw [h.cloneTable_keep hapart hsupply (Or.inl hapart.ne) hapart.srcKept]
    exact h.words k
  tables := by
    intro k j hk
    rw [h.cloneTable_keep hapart hsupply (Or.inl (hapart.table_ne k hk))
      (hapart.table k hk)]
    exact h.tables k j hk

/-!
# Any number of entries
-/

theorem ReadsDir.cloneTables_keep {used : Set UInt32}
    (h : ReadsDir a mem src dst st) (hapart : DirApart a mem src dst)
    (hsupply : Supply a used) {l : List (Fin 1024)} {f : UInt32}
    {k : Fin 1024} (hword : f ≠ dst ∨ k ∉ l) (hgiven : ¬ Given a f) :
    (l.foldl (cloneTable src dst) st).mem f k = st.mem f k := by
  induction l generalizing st a with
  | nil => rfl
  | cons i l ih =>
      rcases (h.cloneTable_pmm hapart hsupply i).left with ⟨n, hn⟩
      rw [List.foldl_cons, ih (h.next hapart hsupply i hn) (hapart.after n)
        (hsupply.after n)]
      · apply h.cloneTable_keep hapart hsupply _ hgiven
        rcases hword with hf | hk
        · exact Or.inl hf
        · exact Or.inr (fun heq => hk (List.mem_cons.mpr (Or.inl heq)))
      · rcases hword with hf | hk
        · exact Or.inl hf
        · exact Or.inr (fun hmem => hk (List.mem_cons_of_mem i hmem))
      · exact fun hg => hgiven hg.of_after

/-!
# When no frame is missing
-/

/--
What has become of one entry, when the frames come from the first `n` answers
and the pages held what they held at the start.
-/
structure TableCopied (a : alpha) (mem start : Frames) (src dst : UInt32)
    (n : Nat) (i : Fin 1024) (mem' : Frames) : Prop where
  absent : present (mem src i) = false -> mem' dst i = 0
  kernel : present (mem src i) = true -> pdeIndex kernelBase ≤ i ->
    mem' dst i = mem src i
  user : UserTable mem src i -> exists t, t < n ∧ answer a t ≠ 0 ∧
    mem' dst i = moveEntry (answer a t) (mem src i) ∧
    (forall j, present (mem (frame (mem src i)) j) = false ->
      mem' (answer a t) j = 0) ∧
    forall j, present (mem (frame (mem src i)) j) = true ->
      exists m, m < n ∧ answer a m ≠ 0 ∧
        mem' (answer a t) j =
          moveEntry (answer a m) (mem (frame (mem src i)) j) ∧
        (frame (mem (frame (mem src i)) j) ≠ dst ->
          (forall m', m' < n ->
            answer a m' ≠ frame (mem (frame (mem src i)) j)) ->
          mem' (answer a m) = start (frame (mem (frame (mem src i)) j)))

theorem TableCopied.keep {start mem' mem'' : Frames} {n : Nat} {i : Fin 1024}
    (h : TableCopied a mem start src dst n i mem')
    (hdst : mem'' dst i = mem' dst i)
    (hframes : forall m, m < n -> answer a m ≠ 0 ->
      mem'' (answer a m) = mem' (answer a m)) :
    TableCopied a mem start src dst n i mem'' where
  absent := fun hi => hdst.trans (h.absent hi)
  kernel := fun hi hk => hdst.trans (h.kernel hi hk)
  user := by
    intro hi
    rcases h.user hi with ⟨t, ht, hne, hentry, habsent, hpages⟩
    refine ⟨t, ht, hne, hdst.trans hentry, ?_, ?_⟩
    · intro j hj
      rw [hframes t ht hne]
      exact habsent j hj
    · intro j hj
      rcases hpages j hj with ⟨m, hm, hmne, hword, hcontent⟩
      refine ⟨m, hm, hmne, ?_, ?_⟩
      · rw [hframes t ht hne]
        exact hword
      · intro hfree hunused
        rw [hframes m hm hmne]
        exact hcontent hfree hunused

theorem TableCopied.shift {start start' mem' : Frames} {c n : Nat}
    {i : Fin 1024}
    (h : TableCopied (Mm.after a c) mem start' src dst n i mem')
    (hstart : forall f, f ≠ dst -> (forall m, m < c -> answer a m ≠ f) ->
      start' f = start f) :
    TableCopied a mem start src dst (c + n) i mem' where
  absent := h.absent
  kernel := h.kernel
  user := by
    intro hi
    rcases h.user hi with ⟨t, ht, hne, hentry, habsent, hpages⟩
    rw [answer_after] at hne hentry habsent hpages
    refine ⟨c + t, by omega, hne, hentry, habsent, ?_⟩
    intro j hj
    rcases hpages j hj with ⟨m, hm, hmne, hword, hcontent⟩
    rw [answer_after] at hmne hword hcontent
    refine ⟨c + m, by omega, hmne, hword, ?_⟩
    intro hfree hunused
    rw [hcontent hfree (by
      intro m' hm'
      rw [answer_after]
      exact hunused _ (by omega))]
    exact hstart _ hfree (fun m' hm' => hunused m' (by omega))

theorem TableCopied.mono {start mem' : Frames} {n n' : Nat} {i : Fin 1024}
    (h : TableCopied a mem start src dst n i mem') (hle : n ≤ n') :
    TableCopied a mem start src dst n' i mem' where
  absent := h.absent
  kernel := h.kernel
  user := by
    intro hi
    rcases h.user hi with ⟨t, ht, hne, hentry, habsent, hpages⟩
    refine ⟨t, by omega, hne, hentry, habsent, ?_⟩
    intro j hj
    rcases hpages j hj with ⟨m, hm, hmne, hword, hcontent⟩
    exact ⟨m, by omega, hmne, hword, fun hfree hunused =>
      hcontent hfree (fun m' hm' => hunused m' (by omega))⟩

/-- The frames that an entry of the user owns: the table and its pages. -/
def ownedFrames (mem : Frames) (dir : UInt32) (i : Fin 1024) : List UInt32 :=
  if UserTable mem dir i then
    frame (mem dir i) ::
      (List.finRange 1024).filterMap (pageAt mem (frame (mem dir i)))
  else []

theorem ownedFrames_congr {mem mem' : Frames} {dir : UInt32} {i : Fin 1024}
    (hdir : mem' dir i = mem dir i)
    (htable : UserTable mem dir i -> forall j,
      mem' (frame (mem dir i)) j = mem (frame (mem dir i)) j) :
    ownedFrames mem' dir i = ownedFrames mem dir i := by
  have huser : UserTable mem' dir i <-> UserTable mem dir i := by
    unfold UserTable
    rw [hdir]
  unfold ownedFrames
  by_cases hi : UserTable mem dir i
  · have hpages : (List.finRange 1024).filterMap
        (pageAt mem' (frame (mem dir i))) =
          (List.finRange 1024).filterMap (pageAt mem (frame (mem dir i))) :=
      List.filterMap_congr (fun j _ => pageAt_congr (htable hi j))
    rw [if_pos hi, if_pos (huser.mpr hi), hdir, hpages]
  · rw [if_neg hi, if_neg (fun h => hi (huser.mp h))]

theorem ReadsDir.cloneTable_word {i : Fin 1024} (h : ReadsDir a mem src dst st)
    (hi : ¬ UserTable mem src i) :
    (cloneTable src dst st i).taken = st.taken ∧
      (cloneTable src dst st i).mem dst i =
        if present (mem src i) then mem src i else 0 := by
  cases hpresent : present (mem src i) with
  | false =>
      rw [cloneTable_absent (by rw [h.words]; exact hpresent)]
      exact ⟨rfl, mem_store_self _ _ _ _⟩
  | true =>
      have hkernel : pdeIndex kernelBase ≤ i := by
        by_contra hlt
        exact hi ⟨hpresent, not_le.mp hlt⟩
      rw [cloneTable_kernel (by rw [h.words]; exact hpresent) hkernel, h.words]
      exact ⟨rfl, mem_store_self _ _ _ _⟩

theorem ReadsDir.cloneTable_shared {i : Fin 1024}
    (h : ReadsDir a mem src dst st) (hi : ¬ UserTable mem src i) (n : Nat) :
    TableCopied a mem st.mem src dst n i (cloneTable src dst st i).mem ∧
      ownedFrames (cloneTable src dst st i).mem dst i = [] ∧
      (cloneTable src dst st i).taken = st.taken := by
  rcases h.cloneTable_word hi with ⟨htaken, hword⟩
  refine ⟨⟨?_, ?_, fun huser => absurd huser hi⟩, ?_, htaken⟩
  · intro habsent
    rw [hword, habsent]
    rfl
  · intro hpresent _
    rw [hword, if_pos hpresent]
  · unfold ownedFrames
    apply if_neg
    intro huser
    unfold UserTable at huser
    rw [hword] at huser
    cases hpresent : present (mem src i) with
    | true => exact hi ⟨hpresent, huser.right⟩
    | false =>
        rw [hpresent, if_neg Bool.false_ne_true, present_zero] at huser
        cases huser.left

theorem ownedFrames_moved {mem mem' : Frames} {dst t : UInt32} {i : Fin 1024}
    (hi : UserTable mem src i) (hentry : mem' dst i = moveEntry t (mem src i))
    (ht : frame t = t) :
    ownedFrames mem' dst i =
      t :: (List.finRange 1024).filterMap (pageAt mem' t) := by
  have huser : UserTable mem' dst i := by
    unfold UserTable
    rw [hentry, present_moveEntry]
    exact hi
  unfold ownedFrames
  rw [if_pos huser, hentry, frame_moveEntry, ht]

theorem ReadsDir.cloneTable_pages {used : Set UInt32}
    (h : ReadsDir a mem src dst st) (hapart : DirApart a mem src dst)
    (hsupply : Supply a used) {i : Fin 1024} (hi : UserTable mem src i)
    (hok : forall m, m < tableFrames mem src i -> answer a m ≠ 0) :
    exists st', cloneTable src dst st i =
        st'.store dst i (moveEntry (answer a 0) (mem src i)) ∧
      PagesCopied (frame (mem src i)) (answer a 0) (List.finRange 1024)
        (st.access src).pmmAllocPage.2 st' := by
  unfold tableFrames at hok
  rw [if_pos hi] at hok
  have hzero := hok 0 (by omega)
  have hinner := h.apart hapart hsupply hi hzero
  have hpages := h.pagesIn hi (List.finRange 1024)
  have hmem : (st.access src).pmmAllocPage.2.mem = st.mem := rfl
  rw [← hmem] at hpages
  have hcopied := clonePages_copied hinner
    (by rw [h.pmm_first]; exact hsupply.next) (List.nodup_finRange 1024) (by
      intro m hm
      rw [h.pmm_first, ← answer_succ]
      exact hok _ (by omega))
  rw [cloneTable_copy (h.user hi) (by rw [h.pmm]; exact hzero), h.words, h.pmm]
  exact ⟨_, rfl, hcopied⟩

theorem PagesCopied.tableCopied {st' : Vmm alpha} {i : Fin 1024}
    (hcopied : PagesCopied (frame (mem src i)) (answer a 0)
      (List.finRange 1024) (st.access src).pmmAllocPage.2 st')
    (h : ReadsDir a mem src dst st) (hapart : DirApart a mem src dst)
    (hi : UserTable mem src i)
    (hok : forall m, m < tableFrames mem src i -> answer a m ≠ 0) :
    TableCopied a mem st.mem src dst (tableFrames mem src i) i
      (st'.store dst i (moveEntry (answer a 0) (mem src i))).mem := by
  unfold tableFrames at hok ⊢
  rw [if_pos hi] at hok ⊢
  have hzero := hok 0 (by omega)
  have hpages := h.pagesIn hi (List.finRange 1024)
  have hmem : (st.access src).pmmAllocPage.2.mem = st.mem := rfl
  rw [← hmem] at hpages
  have hindex : forall m,
      answer (st.access src).pmmAllocPage.2.pmm m = answer a (m + 1) := by
    intro m
    rw [h.pmm_first, answer_succ]
  have hother : forall m, m < 1 + Vmm.pagesIn mem (frame (mem src i))
      (List.finRange 1024) ->
        (st'.store dst i (moveEntry (answer a 0) (mem src i))).mem
          (answer a m) = st'.mem (answer a m) := by
    intro m hm
    funext k
    apply st'.mem_store_other i _ k
    exact fun heq => hapart.dstKept (heq ▸ ⟨hok m hm, m, rfl⟩)
  have htables : forall j, (st.access src).pmmAllocPage.2.mem
      (frame (mem src i)) j = mem (frame (mem src i)) j :=
    fun j => h.tables i j hi
  refine ⟨?_, ?_, ?_⟩
  · intro habsent
    rw [hi.left] at habsent
    cases habsent
  · intro _ hkernel
    exact absurd hi.right (not_lt.mpr hkernel)
  · intro _
    refine ⟨0, by omega, hzero, st'.mem_store_self dst i _, ?_, ?_⟩
    · intro j hj
      rw [hother 0 (by omega)]
      exact hcopied.absent j (List.mem_finRange j) (by rw [htables]; exact hj)
    · intro j hj
      rcases hcopied.copied j (List.mem_finRange j) (by
        rw [htables]
        exact hj) with ⟨m, hm, hword, hcontent⟩
      rw [hindex, htables] at hword
      rw [hindex, htables] at hcontent
      have hlt : m + 1 < 1 + Vmm.pagesIn mem (frame (mem src i))
          (List.finRange 1024) := by omega
      refine ⟨m + 1, hlt, hok _ hlt, ?_, ?_⟩
      · rw [hother 0 (by omega)]
        exact hword
      · intro _ hunused
        rw [hother _ hlt]
        apply hcontent (hunused 0 (by omega)).symm
        intro m' hm'
        rw [hindex]
        exact hunused _ (by omega)

theorem PagesCopied.taken_owned {used : Set UInt32} {st' : Vmm alpha}
    {i : Fin 1024}
    (hcopied : PagesCopied (frame (mem src i)) (answer a 0)
      (List.finRange 1024) (st.access src).pmmAllocPage.2 st')
    (h : ReadsDir a mem src dst st) (hapart : DirApart a mem src dst)
    (hsupply : Supply a used) (hi : UserTable mem src i)
    (hzero : answer a 0 ≠ 0) :
    (st'.store dst i (moveEntry (answer a 0) (mem src i))).taken.Perm
      (ownedFrames (st'.store dst i (moveEntry (answer a 0) (mem src i))).mem
        dst i ++ st.taken) := by
  have hentry := st'.mem_store_self dst i (moveEntry (answer a 0) (mem src i))
  have hne : answer a 0 ≠ dst :=
    fun heq => hapart.dstKept (heq ▸ given_first hzero)
  have hfirst : (st.access src).pmmAllocPage.2.taken =
      answer a 0 :: st.taken := by
    show (if answer st.pmm 0 = 0 then st.taken
      else answer st.pmm 0 :: st.taken) = answer a 0 :: st.taken
    rw [h.pmm, if_neg hzero]
  have hlist : (List.finRange 1024).filterMap (pageAt
      (st'.store dst i (moveEntry (answer a 0) (mem src i))).mem
        (answer a 0)) =
      (List.finRange 1024).filterMap (pageAt st'.mem (answer a 0)) :=
    List.filterMap_congr (fun j _ => pageAt_congr
      (st'.mem_store_other i _ j hne))
  have htaken := hcopied.taken
  rw [hfirst] at htaken
  rw [ownedFrames_moved hi hentry (hsupply.aligned 0), hlist, List.cons_append,
    taken_store]
  exact htaken.trans List.perm_middle

theorem ReadsDir.cloneTable_copied {used : Set UInt32}
    (h : ReadsDir a mem src dst st) (hapart : DirApart a mem src dst)
    (hsupply : Supply a used) {i : Fin 1024}
    (hok : forall m, m < tableFrames mem src i -> answer a m ≠ 0) :
    TableCopied a mem st.mem src dst (tableFrames mem src i) i
        (cloneTable src dst st i).mem ∧
      (cloneTable src dst st i).taken.Perm
        (ownedFrames (cloneTable src dst st i).mem dst i ++ st.taken) := by
  by_cases hi : UserTable mem src i
  · have hpos : 0 < tableFrames mem src i := by
      unfold tableFrames
      rw [if_pos hi]
      omega
    rcases h.cloneTable_pages hapart hsupply hi hok with ⟨st', heq, hcopied⟩
    rw [heq]
    exact ⟨hcopied.tableCopied h hapart hi hok,
      hcopied.taken_owned h hapart hsupply hi (hok 0 hpos)⟩
  · have hshared := h.cloneTable_shared hi (tableFrames mem src i)
    rw [hshared.right.left, hshared.right.right]
    exact ⟨hshared.left, List.Perm.refl _⟩

theorem framesNeeded_cons (mem : Frames) (src : UInt32) (i : Fin 1024)
    (l : List (Fin 1024)) :
    framesNeeded mem src (i :: l) =
      tableFrames mem src i + framesNeeded mem src l := by
  unfold framesNeeded
  rw [List.map_cons, List.sum_cons]

theorem TableCopied.table {start mem' : Frames} {n : Nat} {i : Fin 1024}
    {used : Set UInt32} (h : TableCopied a mem start src dst n i mem')
    (hsupply : Supply a used) (hi : UserTable mem' dst i) :
    exists t, t < n ∧ answer a t ≠ 0 ∧ frame (mem' dst i) = answer a t := by
  have huser : UserTable mem src i := by
    refine ⟨?_, hi.right⟩
    by_contra hpresent
    rw [Bool.not_eq_true] at hpresent
    have hword := hi.left
    rw [h.absent hpresent, present_zero] at hword
    cases hword
  rcases h.user huser with ⟨t, ht, hne, hentry, _⟩
  refine ⟨t, ht, hne, ?_⟩
  rw [hentry, frame_moveEntry, hsupply.aligned]

theorem ReadsDir.cloneTables_copied {used : Set UInt32}
    (h : ReadsDir a mem src dst st) (hapart : DirApart a mem src dst)
    (hsupply : Supply a used) {l : List (Fin 1024)} (hl : l.Nodup)
    (hok : forall m, m < framesNeeded mem src l -> answer a m ≠ 0) :
    (forall i, i ∈ l -> TableCopied a mem st.mem src dst
      (framesNeeded mem src l) i (l.foldl (cloneTable src dst) st).mem) ∧
      (l.foldl (cloneTable src dst) st).taken.Perm
        (l.flatMap (ownedFrames (l.foldl (cloneTable src dst) st).mem dst) ++
          st.taken) := by
  induction l generalizing st a with
  | nil => exact ⟨fun i hi => absurd hi List.not_mem_nil, List.Perm.refl _⟩
  | cons i l ih =>
      rw [List.nodup_cons] at hl
      rw [framesNeeded_cons] at hok ⊢
      have hpmm := (h.cloneTable_pmm hapart hsupply i).right (by
        intro hi
        apply hok 0
        unfold tableFrames
        rw [if_pos hi]
        omega)
      have hone := h.cloneTable_copied hapart hsupply (i := i)
        (fun m hm => hok m (by omega))
      have hframe : forall f, f ≠ dst ->
          (forall m, m < tableFrames mem src i -> answer a m ≠ f) ->
          (cloneTable src dst st i).mem f = st.mem f := by
        intro f hf hunused
        funext k
        apply h.cloneTable_frame hapart hsupply (Or.inl hf)
        intro m hm heq
        exact absurd heq (hunused m hm)
      have hnext := h.next hapart hsupply i hpmm
      have hapart' := hapart.after (tableFrames mem src i)
      have hsupply' := hsupply.after (tableFrames mem src i)
      have hrest := ih hnext hapart' hsupply' hl.right (by
        intro m hm
        rw [answer_after]
        exact hok _ (by omega))
      have hword := hnext.cloneTables_keep hapart' hsupply'
        (Or.inr hl.left) hapart'.dstKept
      have hgiven : forall m, m < tableFrames mem src i -> answer a m ≠ 0 ->
          (l.foldl (cloneTable src dst) (cloneTable src dst st i)).mem
            (answer a m) = (cloneTable src dst st i).mem (answer a m) := by
        intro m hm hne
        have hdst : answer a m ≠ dst :=
          fun heq => hapart.dstKept (heq ▸ ⟨hne, m, rfl⟩)
        funext k
        exact hnext.cloneTables_keep hapart' hsupply' (Or.inl hdst)
          (hsupply.not_given_after hm)
      rw [List.foldl_cons]
      constructor
      · intro i' hi'
        rcases List.mem_cons.mp hi' with heq | hmem
        · rw [heq]
          exact (hone.left.keep hword hgiven).mono (Nat.le_add_right _ _)
        · exact (hrest.left i' hmem).shift hframe
      · have howned : ownedFrames
            (l.foldl (cloneTable src dst) (cloneTable src dst st i)).mem
            dst i = ownedFrames (cloneTable src dst st i).mem dst i := by
          apply ownedFrames_congr hword
          intro hi j
          rcases hone.left.table hsupply hi with ⟨t, ht, hne, htable⟩
          rw [htable, hgiven t ht hne]
        rw [List.flatMap_cons, howned]
        refine hrest.right.trans ?_
        refine ((hone.right.append_left _).trans ?_)
        rw [← List.append_assoc]
        exact List.perm_append_comm.append_right st.taken

/-- Only the directory and the frames for its entries are written. -/
theorem ReadsDir.cloneTables_frame {used : Set UInt32}
    (h : ReadsDir a mem src dst st) (hapart : DirApart a mem src dst)
    (hsupply : Supply a used) {l : List (Fin 1024)} {f : UInt32}
    (hok : forall m, m < framesNeeded mem src l -> answer a m ≠ 0)
    (hf : f ≠ dst)
    (hunused : forall m, m < framesNeeded mem src l -> answer a m ≠ f) :
    (l.foldl (cloneTable src dst) st).mem f = st.mem f := by
  induction l generalizing st a with
  | nil => rfl
  | cons i l ih =>
      rw [framesNeeded_cons] at hok hunused
      have hpmm := (h.cloneTable_pmm hapart hsupply i).right (by
        intro hi
        apply hok 0
        unfold tableFrames
        rw [if_pos hi]
        omega)
      rw [List.foldl_cons, ih (h.next hapart hsupply i hpmm)
        (hapart.after _) (hsupply.after _)]
      · funext k
        apply h.cloneTable_frame hapart hsupply (Or.inl hf)
        intro m hm heq
        exact absurd heq (hunused m (by omega))
      · intro m hm
        rw [answer_after]
        exact hok _ (by omega)
      · intro m hm
        rw [answer_after]
        exact hunused _ (by omega)

theorem ReadsDir.cloneTables_word {used : Set UInt32}
    (h : ReadsDir a mem src dst st) (hapart : DirApart a mem src dst)
    (hsupply : Supply a used) {l : List (Fin 1024)} (hl : l.Nodup)
    {i : Fin 1024} (hi : i ∈ l) (hword : ¬ UserTable mem src i) :
    (l.foldl (cloneTable src dst) st).mem dst i =
      if present (mem src i) then mem src i else 0 := by
  induction l generalizing st a with
  | nil => exact absurd hi List.not_mem_nil
  | cons i' l ih =>
      rw [List.nodup_cons] at hl
      rcases (h.cloneTable_pmm hapart hsupply i').left with ⟨n, hn⟩
      have hnext := h.next hapart hsupply i' hn
      rw [List.foldl_cons]
      rcases List.mem_cons.mp hi with heq | hmem
      · rw [heq] at hword ⊢
        rw [hnext.cloneTables_keep (hapart.after n) (hsupply.after n)
          (Or.inr hl.left) (hapart.after n).dstKept]
        exact (h.cloneTable_word hword).right
      · exact ih hnext (hapart.after n) (hsupply.after n) hl.right hmem

/-!
# The words of a table in any case
-/

theorem clonePages_word {srcPt dstPt : UInt32} (h : Apart st.pmm srcPt dstPt)
    {l : List (Fin 1024)} (hl : l.Nodup) {j : Fin 1024} (hj : j ∈ l) :
    ((l.foldl (clonePage srcPt dstPt) st).mem dstPt j = st.mem dstPt j ∧
      present (st.mem srcPt j) = true) ∨
    (l.foldl (clonePage srcPt dstPt) st).mem dstPt j = 0 ∨
    present ((l.foldl (clonePage srcPt dstPt) st).mem dstPt j) = true := by
  induction l generalizing st with
  | nil => exact absurd hj List.not_mem_nil
  | cons j' l ih =>
      rw [List.nodup_cons] at hl
      rw [List.foldl_cons]
      rcases List.mem_cons.mp hj with heq | hmem
      · rw [heq, clonePages_keep (h.next j') (Or.inr hl.left)
          (h.next j').dst]
        cases hpresent : present (st.mem srcPt j') with
        | false =>
            right
            left
            rw [clonePage_absent hpresent]
            exact mem_store_self _ _ _ _
        | true =>
            by_cases hpage : answer st.pmm 0 = 0
            · left
              rw [clonePage_fail hpresent hpage]
              exact ⟨rfl, rfl⟩
            · right
              right
              rw [clonePage_copy hpresent hpage, mem_store_self,
                present_moveEntry]
              exact hpresent
      · have hne : j ≠ j' := fun heq => hl.left (heq ▸ hmem)
        have hword : (clonePage srcPt dstPt st j').mem dstPt j =
            st.mem dstPt j := by
          apply clonePage_frame (Or.inr hne)
          intro _ heq
          by_contra hzero
          exact h.dst ⟨hzero, 0, heq⟩
        have hrest := ih (h.next j') hl.right hmem
        rw [hword, h.clonePage_src] at hrest
        exact hrest

end Vmm
end Mm
end EarlnuxOS
