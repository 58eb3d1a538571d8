import EarlnuxOS.Mm.Vmm.BadFrames
import EarlnuxOS.Mm.Vmm.Translation

/-!
# Cloning a directory

A clone is faithful, whatever the new frames contained, exactly when no frame
was missing and none of them is a page of the source.
-/

namespace EarlnuxOS
namespace Mm
namespace Vmm

universe u

variable {alpha : Type u} [PageAllocator alpha] {st : Vmm alpha}
  {mem : Frames} {src dst dir : UInt32}

def dirFrames (mem : Frames) (dir : UInt32) : Set UInt32 :=
  { f | f = dir ∨ exists i, present (mem dir i) = true ∧
    f = frame (mem dir i) }

def cloneNeeds (mem : Frames) (src : UInt32) : Nat :=
  1 + framesNeeded mem src (List.finRange 1024)

def UserPage (mem : Frames) (dir f : UInt32) : Prop :=
  exists i j pte, i < pdeIndex kernelBase ∧
    entryAt mem dir i j = some pte ∧ frame pte = f

/--
Each page of the user is there with its flags and bytes, in another frame; the
kernel's entries are the same, and the pages of the source are unchanged.
-/
structure Faithful (mem mem' : Frames) (src dst : UInt32) : Prop where
  page : forall i j pte, i < pdeIndex kernelBase ->
    entryAt mem src i j = some pte ->
    exists pte', entryAt mem' dst i j = some pte' ∧
      pte' &&& 0xFFF = pte &&& 0xFFF ∧ frame pte' ≠ frame pte ∧
      mem' (frame pte') = mem (frame pte) ∧
      mem' (frame pte) = mem (frame pte)
  absent : forall i j, i < pdeIndex kernelBase ->
    entryAt mem src i j = none -> entryAt mem' dst i j = none
  kernel : forall i, pdeIndex kernelBase ≤ i -> mem' dst i = mem src i

/-- `vmm_clone_dir` returns `NULL` or a faithful copy. -/
def AllOrNothing (st : Vmm alpha) (src : UInt32) : Prop :=
  (st.vmmCloneDir src).1 = 0 ∨
    Faithful st.mem (st.vmmCloneDir src).2.mem src (st.vmmCloneDir src).1

def withMem (st : Vmm alpha) (mem : Frames) : Vmm alpha :=
  { st with mem := mem }

omit [PageAllocator alpha] in
theorem pmm_withMem (st : Vmm alpha) (mem : Frames) :
    (st.withMem mem).pmm = st.pmm := rfl

omit [PageAllocator alpha] in
theorem withMem_self (st : Vmm alpha) : st.withMem st.mem = st := rfl

/-!
# Directories that the manager has built
-/

/-- Entries that are not present are 0, and no page has 4 MB. -/
structure DirOk (mem : Frames) (dir : UInt32) : Prop where
  zero : forall i, present (mem dir i) = false -> mem dir i = 0
  small : forall i, present (mem dir i) = true -> huge (mem dir i) = false
  apart : forall i, present (mem dir i) = true -> frame (mem dir i) ≠ dir

/-- What the manager makes out of an empty directory, and clones of it. -/
inductive Built : Vmm alpha -> UInt32 -> Prop where
  | zero {st : Vmm alpha} {dir : UInt32} (hzero : forall i, st.mem dir i = 0) :
      Built st dir
  | map {st : Vmm alpha} {dir : UInt32} (virt phys flags : UInt32)
      (h : Built st dir) (hfresh : Fresh dir st) :
      Built (st.vmmMapPage dir virt phys flags).2 dir
  | unmap {st : Vmm alpha} {dir : UInt32} (virt : UInt32) (h : Built st dir) :
      Built (st.vmmUnmapPage dir virt) dir
  | clone {st : Vmm alpha} {src : UInt32} (h : Built st src)
      (hsupply : Supply st.pmm (dirFrames st.mem src))
      (hok : forall m, m < cloneNeeds st.mem src -> answer st.pmm m ≠ 0) :
      Built (st.vmmCloneDir src).2 (st.vmmCloneDir src).1
  | other {st st' : Vmm alpha} {dir : UInt32} (h : Built st dir)
      (hsame : forall i, st'.mem dir i = st.mem dir i) : Built st' dir

theorem DirOk.congr {mem mem' : Frames} (h : DirOk mem dir)
    (hdir : forall i, mem' dir i = mem dir i) : DirOk mem' dir := by
  constructor
  · intro i
    rw [hdir]
    exact h.zero i
  · intro i
    rw [hdir]
    exact h.small i
  · intro i
    rw [hdir]
    exact h.apart i

theorem DirOk.setEntry {mem mem' : Frames} {i : Fin 1024} (h : DirOk mem dir)
    (hother : forall k, k ≠ i -> mem' dir k = mem dir k)
    (hpresent : present (mem' dir i) = true) (hsmall : huge (mem' dir i) = false)
    (hapart : frame (mem' dir i) ≠ dir) : DirOk mem' dir := by
  constructor
  · intro k hk
    by_cases hki : k = i
    · rw [hki, hpresent] at hk
      cases hk
    · rw [hother k hki] at hk ⊢
      exact h.zero k hk
  · intro k hk
    by_cases hki : k = i
    · rw [hki]
      exact hsmall
    · rw [hother k hki] at hk ⊢
      exact h.small k hk
  · intro k hk
    by_cases hki : k = i
    · rw [hki]
      exact hapart
    · rw [hother k hki] at hk ⊢
      exact h.apart k hk

theorem DirOk.map (h : DirOk st.mem dir) (virt phys flags : UInt32)
    (hfresh : Fresh dir st) :
    DirOk (st.vmmMapPage dir virt phys flags).2.mem dir := by
  cases htable : present (st.mem dir (pdeIndex virt)) with
  | true =>
      rw [vmmMapPage_table phys flags htable]
      apply h.congr
      intro i
      exact mem_store_other _ _ _ _ (h.apart _ htable).symm
  | false =>
      by_cases hnone : (st.access dir).allocPageTable.1 = 0
      · rw [vmmMapPage_fail phys flags htable hnone,
          (allocPageTable_none hnone).right]
        exact h
      · rw [allocPageTable_eq, pmm_access] at hnone
        rcases hfresh with hzero | ⟨haligned, hne, _⟩
        · exact absurd hzero hnone
        have hword := mem_vmmMapPage_dir phys flags htable rfl hnone hne
        have hself := (hword (pdeIndex virt)).trans (if_pos rfl)
        apply h.setEntry (fun k hk => (hword k).trans (if_neg hk))
        · rw [hself]
          exact present_tableEntry _ _
        · rw [hself]
          exact huge_tableEntry _ _
        · rw [hself, frame_tableEntry, haligned]
          exact hne

omit [PageAllocator alpha] in
theorem DirOk.unmap (h : DirOk st.mem dir) (virt : UInt32) :
    DirOk (st.vmmUnmapPage dir virt).mem dir := by
  cases htable : present (st.mem dir (pdeIndex virt)) with
  | true =>
      rw [vmmUnmapPage_table htable]
      apply h.congr
      intro i
      exact mem_store_other _ _ _ _ (h.apart _ htable).symm
  | false =>
      rw [vmmUnmapPage_none htable]
      exact h

/-!
# The start of a clone
-/

theorem vmmCloneDir_none (h : answer st.pmm 0 = 0) :
    st.vmmCloneDir src = st.pmmAllocPage :=
  if_pos h

theorem vmmCloneDir_some (h : answer st.pmm 0 ≠ 0) :
    st.vmmCloneDir src =
      (answer st.pmm 0, (List.finRange 1024).foldl
        (cloneTable src (answer st.pmm 0)) st.pmmAllocPage.2) :=
  if_neg h

theorem vmmCloneDir_withMem (h : answer st.pmm 0 ≠ 0) (mem : Frames) :
    ((st.withMem mem).vmmCloneDir src).2 =
      (List.finRange 1024).foldl (cloneTable src (answer st.pmm 0))
        (st.withMem mem).pmmAllocPage.2 := by
  rw [← pmm_withMem st mem] at h
  rw [vmmCloneDir_some h, pmm_withMem]

theorem vmmCloneDir_loop (h : answer st.pmm 0 ≠ 0) :
    (st.vmmCloneDir src).2 = (List.finRange 1024).foldl
      (cloneTable src (answer st.pmm 0)) st.pmmAllocPage.2 :=
  vmmCloneDir_withMem h st.mem

theorem vmmCloneDir_first (st : Vmm alpha) (src : UInt32) :
    (st.vmmCloneDir src).1 = answer st.pmm 0 := by
  by_cases h : answer st.pmm 0 = 0
  · rw [vmmCloneDir_none h]
    rfl
  · rw [vmmCloneDir_some h]

theorem dirApart_first (hsupply : Supply st.pmm (dirFrames st.mem src))
    (h : answer st.pmm 0 ≠ 0) :
    DirApart (PageAllocator.pmmAllocPage st.pmm).2 st.mem src
      (answer st.pmm 0) := by
  have htable : forall i, UserTable st.mem src i ->
      frame (st.mem src i) ∈ dirFrames st.mem src :=
    fun i hi => Or.inr ⟨i, hi.left, rfl⟩
  have hfirst := given_first h
  constructor
  · intro heq
    exact hsupply.unused _ hfirst (Or.inl heq.symm)
  · exact fun hg => hsupply.unused _ hg.of_next (Or.inl rfl)
  · exact hsupply.not_given
  · intro i hi heq
    exact hsupply.unused _ hfirst (heq ▸ htable i hi)
  · exact fun i hi hg => hsupply.unused _ hg.of_next (htable i hi)

theorem readsDir_first (hsupply : Supply st.pmm (dirFrames st.mem src))
    {mem : Frames} (hmem : forall f, ¬ Given st.pmm f -> mem f = st.mem f) :
    ReadsDir (PageAllocator.pmmAllocPage st.pmm).2 st.mem src
      (answer st.pmm 0) (st.withMem mem).pmmAllocPage.2 where
  pmm := rfl
  words := by
    intro i
    show mem src i = _
    rw [hmem src (fun hg => hsupply.unused _ hg (Or.inl rfl))]
  tables := by
    intro i j hi
    show mem (frame (st.mem src i)) j = _
    rw [hmem _ (fun hg => hsupply.unused _ hg (Or.inr ⟨i, hi.left, rfl⟩))]

theorem vmmCloneDir_copied (hsupply : Supply st.pmm (dirFrames st.mem src))
    (hok : forall m, m < cloneNeeds st.mem src -> answer st.pmm m ≠ 0)
    {mem : Frames} (hmem : forall f, ¬ Given st.pmm f -> mem f = st.mem f) :
    (forall i, TableCopied (PageAllocator.pmmAllocPage st.pmm).2 st.mem mem
        src (answer st.pmm 0) (framesNeeded st.mem src (List.finRange 1024)) i
        ((st.withMem mem).vmmCloneDir src).2.mem) ∧
      ((st.withMem mem).vmmCloneDir src).2.taken.Perm
        ((List.finRange 1024).flatMap
          (ownedFrames ((st.withMem mem).vmmCloneDir src).2.mem
            (answer st.pmm 0)) ++ answer st.pmm 0 :: st.taken) := by
  have hfirst : answer st.pmm 0 ≠ 0 :=
    hok 0 (Nat.lt_of_lt_of_le Nat.one_pos (Nat.le_add_right _ _))
  have hcopied := (readsDir_first hsupply hmem).cloneTables_copied
    (dirApart_first hsupply hfirst) hsupply.next (List.nodup_finRange 1024) (by
      intro m hm
      rw [← answer_succ]
      apply hok
      unfold cloneNeeds
      omega)
  have htaken : (st.withMem mem).pmmAllocPage.2.taken =
      answer st.pmm 0 :: st.taken := if_neg hfirst
  rw [htaken] at hcopied
  rw [vmmCloneDir_withMem hfirst]
  exact ⟨fun i => hcopied.left i (List.mem_finRange i), hcopied.right⟩

theorem DirOk.clone (h : DirOk st.mem src)
    (hsupply : Supply st.pmm (dirFrames st.mem src))
    (hok : forall m, m < cloneNeeds st.mem src -> answer st.pmm m ≠ 0) :
    DirOk (st.vmmCloneDir src).2.mem (st.vmmCloneDir src).1 := by
  have hfirst : answer st.pmm 0 ≠ 0 :=
    hok 0 (Nat.lt_of_lt_of_le Nat.one_pos (Nat.le_add_right _ _))
  have hcopied := (vmmCloneDir_copied hsupply hok (fun _ _ => rfl)).left
  change forall i, TableCopied _ _ _ _ _ _ _ (st.vmmCloneDir src).2.mem
    at hcopied
  rw [vmmCloneDir_first]
  generalize (st.vmmCloneDir src).2.mem = mem' at hcopied
  have hcases : forall i,
      (present (st.mem src i) = false ∧ mem' (answer st.pmm 0) i = 0) ∨
      (present (st.mem src i) = true ∧
        mem' (answer st.pmm 0) i = st.mem src i) ∨
      (present (st.mem src i) = true ∧ exists t, answer st.pmm (t + 1) ≠ 0 ∧
        mem' (answer st.pmm 0) i =
          moveEntry (answer st.pmm (t + 1)) (st.mem src i)) := by
    intro i
    cases hpresent : present (st.mem src i) with
    | false => exact Or.inl ⟨rfl, (hcopied i).absent hpresent⟩
    | true =>
        right
        by_cases hi : i < pdeIndex kernelBase
        · rcases (hcopied i).user ⟨hpresent, hi⟩ with ⟨t, _, hne, hentry, _⟩
          rw [← answer_succ] at hne hentry
          exact Or.inr ⟨rfl, t, hne, hentry⟩
        · exact Or.inl ⟨rfl, (hcopied i).kernel hpresent (not_lt.mp hi)⟩
  constructor
  · intro i hi
    rcases hcases i with ⟨_, hword⟩ | ⟨hpresent, hword⟩ |
      ⟨hpresent, t, _, hword⟩
    · exact hword
    · rw [hword, hpresent] at hi
      cases hi
    · rw [hword, present_moveEntry, hpresent] at hi
      cases hi
  · intro i hi
    rcases hcases i with ⟨_, hword⟩ | ⟨hpresent, hword⟩ |
      ⟨hpresent, t, _, hword⟩
    · rw [hword, present_zero] at hi
      cases hi
    · rw [hword]
      exact h.small i hpresent
    · rw [hword, huge_moveEntry]
      exact h.small i hpresent
  · intro i hi heq
    rcases hcases i with ⟨_, hword⟩ | ⟨hpresent, hword⟩ |
      ⟨hpresent, t, hne, hword⟩
    · rw [hword, present_zero] at hi
      cases hi
    · rw [hword] at heq
      exact hsupply.unused _ (given_first hfirst)
        (Or.inr ⟨i, hpresent, heq.symm⟩)
    · rw [hword, frame_moveEntry, hsupply.aligned] at heq
      exact hne (hsupply.distinct 0 (t + 1) (Nat.succ_pos t) heq.symm)

theorem Built.dirOk (h : Built st dir) : DirOk st.mem dir := by
  induction h with
  | zero hzero =>
      constructor
      · intro i _
        exact hzero i
      · intro i hi
        rw [hzero, present_zero] at hi
        cases hi
      · intro i hi
        rw [hzero, present_zero] at hi
        cases hi
  | map virt phys flags _ hfresh ih => exact ih.map virt phys flags hfresh
  | unmap virt _ ih => exact ih.unmap virt
  | clone _ hsupply hok ih => exact ih.clone hsupply hok
  | other _ hsame ih => exact ih.congr hsame

/-!
# Faithful clones
-/

theorem DirOk.entryAt_some (h : DirOk mem dir) {i j : Fin 1024} {pte : UInt32}
    (hentry : entryAt mem dir i j = some pte) :
    present (mem dir i) = true ∧ tableWord mem dir i j = pte ∧
      present pte = true := by
  cases hpresent : present (mem dir i) with
  | false =>
      rw [entryAt_absent j hpresent] at hentry
      cases hentry
  | true =>
      rw [entryAt_table j hpresent (h.small i hpresent)] at hentry
      split at hentry
      · cases hentry
      · rename_i hword
        cases hentry
        exact ⟨rfl, rfl, not_not.mp hword⟩

theorem DirOk.entryAt_eq (h : DirOk mem dir) {i j : Fin 1024}
    (hpresent : present (mem dir i) = true)
    (hword : present (tableWord mem dir i j) = true) :
    entryAt mem dir i j = some (tableWord mem dir i j) := by
  rw [entryAt_table j hpresent (h.small i hpresent)]
  exact if_neg (not_not.mpr hword)

theorem DirOk.entryAt_none (h : DirOk mem dir) {i j : Fin 1024}
    (hpresent : present (mem dir i) = true)
    (hword : present (tableWord mem dir i j) = false) :
    entryAt mem dir i j = none := by
  rw [entryAt_table j hpresent (h.small i hpresent)]
  apply if_pos
  change ¬ present (tableWord mem dir i j) = true
  rw [hword]
  exact Bool.false_ne_true

/-- The entries of the source do not depend on what the new frames contain. -/
theorem entryAt_withMem (hsupply : Supply st.pmm (dirFrames st.mem src))
    {mem : Frames} (hmem : forall f, ¬ Given st.pmm f -> mem f = st.mem f)
    (i j : Fin 1024) : entryAt mem src i j = entryAt st.mem src i j := by
  apply entryAt_congr
  · rw [hmem src (fun hg => hsupply.unused _ hg (Or.inl rfl))]
  · intro hpresent
    rw [hmem _ (fun hg => hsupply.unused _ hg (Or.inr ⟨i, hpresent, rfl⟩))]

theorem DirOk.entryAt_moved (h : DirOk mem src) {mem' : Frames} {t : UInt32}
    {i : Fin 1024} (j : Fin 1024) (hpresent : present (mem src i) = true)
    (hentry : mem' dst i = moveEntry t (mem src i)) (ht : frame t = t) :
    entryAt mem' dst i j =
      if ¬ present (mem' t j) then none else some (mem' t j) := by
  rw [entryAt_table j (by rw [hentry, present_moveEntry]; exact hpresent)
    (by rw [hentry, huge_moveEntry]; exact h.small i hpresent), hentry,
    frame_moveEntry, ht]

theorem faithful_of_good (h : DirOk st.mem src)
    (hsupply : Supply st.pmm (dirFrames st.mem src))
    (hgood : forall m, m < cloneNeeds st.mem src ->
      answer st.pmm m ≠ 0 ∧ ¬ UserPage st.mem src (answer st.pmm m))
    {mem : Frames} (hmem : forall f, ¬ Given st.pmm f -> mem f = st.mem f) :
    Faithful mem ((st.withMem mem).vmmCloneDir src).2.mem src
      (answer st.pmm 0) := by
  have hneeds : cloneNeeds st.mem src =
      1 + framesNeeded st.mem src (List.finRange 1024) := by
    rw [cloneNeeds]
  have hfirst := hgood 0 (by omega)
  have hcopied := (vmmCloneDir_copied hsupply (fun m hm => (hgood m hm).left)
    hmem).left
  have hunused : forall f, UserPage st.mem src f -> forall m,
      m < framesNeeded st.mem src (List.finRange 1024) ->
      answer (PageAllocator.pmmAllocPage st.pmm).2 m ≠ f := by
    intro f hf m hm heq
    rw [← answer_succ] at heq
    exact (hgood (m + 1) (by omega)).right (heq ▸ hf)
  have hapart : forall f, UserPage st.mem src f -> f ≠ answer st.pmm 0 :=
    fun f hf heq => hfirst.right (heq ▸ hf)
  have hkept : forall f, UserPage st.mem src f ->
      ((st.withMem mem).vmmCloneDir src).2.mem f = mem f := by
    intro f hf
    have hframe := (readsDir_first hsupply hmem).cloneTables_frame
      (dirApart_first hsupply hfirst.left) hsupply.next
      (l := List.finRange 1024) (by
        intro m hm
        rw [← answer_succ]
        exact (hgood (m + 1) (by omega)).left) (hapart f hf) (hunused f hf)
    rw [vmmCloneDir_withMem hfirst.left, hframe]
    rfl
  generalize ((st.withMem mem).vmmCloneDir src).2.mem = mem' at hcopied hkept
  have haligned : forall t,
      frame (answer (PageAllocator.pmmAllocPage st.pmm).2 t) =
        answer (PageAllocator.pmmAllocPage st.pmm).2 t :=
    fun t => hsupply.aligned (t + 1)
  constructor
  · intro i j pte hi hentry
    rw [entryAt_withMem hsupply hmem] at hentry
    rcases h.entryAt_some hentry with ⟨hpresent, hword, hpte⟩
    have hpage : UserPage st.mem src (frame pte) :=
      ⟨i, j, pte, hi, hentry, rfl⟩
    rcases (hcopied i).user ⟨hpresent, hi⟩ with
      ⟨t, _, _, hmoved, _, hpages⟩
    change st.mem (frame (st.mem src i)) j = pte at hword
    rcases hpages j (by rw [hword]; exact hpte) with
      ⟨m, hm, _, hnew, hcontent⟩
    rw [hword] at hnew hcontent
    refine ⟨moveEntry (answer (PageAllocator.pmmAllocPage st.pmm).2 m) pte, ?_,
      moveEntry_low _ _ _ (by decide), ?_, ?_, hkept _ hpage⟩
    · rw [h.entryAt_moved j hpresent hmoved (haligned t), hnew,
        present_moveEntry, hpte]
      rfl
    · rw [frame_moveEntry, haligned]
      exact hunused _ hpage m hm
    · rw [frame_moveEntry, haligned]
      exact hcontent (hapart _ hpage) (hunused _ hpage)
  · intro i j hi hentry
    rw [entryAt_withMem hsupply hmem] at hentry
    cases hpresent : present (st.mem src i) with
    | false =>
        apply entryAt_absent
        rw [(hcopied i).absent hpresent]
        exact present_zero
    | true =>
        have hword : present (tableWord st.mem src i j) = false := by
          by_contra hpte
          rw [Bool.not_eq_false] at hpte
          rw [h.entryAt_eq hpresent hpte] at hentry
          cases hentry
        rcases (hcopied i).user ⟨hpresent, hi⟩ with
          ⟨t, _, _, hmoved, hempty, _⟩
        rw [h.entryAt_moved j hpresent hmoved (haligned t), hempty j hword]
        rfl
  · intro i hi
    rw [hmem src (fun hg => hsupply.unused _ hg (Or.inl rfl))]
    cases hpresent : present (st.mem src i) with
    | false => rw [(hcopied i).absent hpresent, h.zero i hpresent]
    | true => exact (hcopied i).kernel hpresent hi

/-!
# Spoilt clones
-/

def filled (mem : Frames) (f word : UInt32) : Frames :=
  Function.update mem f (fun _ => word)

theorem filled_self (mem : Frames) (f word : UInt32) (k : Fin 1024) :
    filled mem f word f k = word := by
  unfold filled
  rw [Function.update_self]

theorem filled_given {f word : UInt32} (hf : Given st.pmm f) (g : UInt32)
    (hg : ¬ Given st.pmm g) : filled st.mem f word g = st.mem g :=
  Function.update_of_ne (fun heq : g = f => hg (heq ▸ hf)) _ _

theorem not_userPage_first
    (hsupply : Supply st.pmm (dirFrames st.mem src))
    (hfirst : answer st.pmm 0 ≠ 0)
    (hfaithful : forall mem, (forall f, ¬ Given st.pmm f -> mem f = st.mem f) ->
      Faithful mem ((st.withMem mem).vmmCloneDir src).2.mem src
        (answer st.pmm 0)) :
    ¬ UserPage st.mem src (answer st.pmm 0) := by
  intro hpage
  rcases hpage with ⟨i, j, pte, hi, hentry, hframe⟩
  have hmem : forall g, ¬ Given st.pmm g ->
      filled st.mem (answer st.pmm 0) 2 g = st.mem g :=
    filled_given (given_first hfirst)
  rcases (hfaithful _ hmem).page i j pte hi (by
    rw [entryAt_withMem hsupply hmem]
    exact hentry) with ⟨_, _, _, _, _, hkept⟩
  have hkernel : ¬ UserTable st.mem src (pdeIndex kernelBase) :=
    fun huser => absurd huser.right (lt_irrefl _)
  have hword := (readsDir_first hsupply hmem).cloneTables_word
    (dirApart_first hsupply hfirst) hsupply.next (List.nodup_finRange 1024)
    (List.mem_finRange _) hkernel
  rw [vmmCloneDir_withMem hfirst, hframe] at hkept
  have hsame := congrFun hkept (pdeIndex kernelBase)
  rw [hword, filled_self] at hsame
  split at hsame
  · rename_i hpresent
    rw [hsame] at hpresent
    exact absurd hpresent (by decide)
  · exact absurd hsame (by decide)

/-- What the loop makes of the directory when one word fills a new frame. -/
def filledClone (st : Vmm alpha) (src f word : UInt32)
    (l : List (Fin 1024)) : Vmm alpha :=
  l.foldl (cloneTable src (answer st.pmm 0))
    (st.withMem (filled st.mem f word)).pmmAllocPage.2

/-- The loop is faithful whatever word fills a new frame. -/
def FaithfulFilled (st : Vmm alpha) (src : UInt32) (l : List (Fin 1024)) :
    Prop :=
  forall f word, Given st.pmm f ->
    Faithful (filled st.mem f word) (filledClone st src f word l).mem src
      (answer st.pmm 0)

section

variable {l : List (Fin 1024)} {i : Fin 1024}

theorem faithfulFilled (hfirst : answer st.pmm 0 ≠ 0)
    (hfaithful : forall mem, (forall f, ¬ Given st.pmm f -> mem f = st.mem f) ->
      Faithful mem ((st.withMem mem).vmmCloneDir src).2.mem src
        (answer st.pmm 0)) :
    FaithfulFilled st src (List.finRange 1024) := by
  intro f word hf
  have hclone := hfaithful (filled st.mem f word) (filled_given hf)
  rw [vmmCloneDir_withMem hfirst] at hclone
  exact hclone

theorem readsDir_filled (hsupply : Supply st.pmm (dirFrames st.mem src))
    {f : UInt32} (word : UInt32) (hf : Given st.pmm f) :
    ReadsDir (PageAllocator.pmmAllocPage st.pmm).2 st.mem src
      (answer st.pmm 0) (st.withMem (filled st.mem f word)).pmmAllocPage.2 :=
  readsDir_first hsupply (filled_given hf)

theorem FaithfulFilled.copies (hclone : FaithfulFilled st src l)
    (h : DirOk st.mem src) (hsupply : Supply st.pmm (dirFrames st.mem src))
    (hi : UserTable st.mem src i) {f : UInt32} (word : UInt32)
    (hf : Given st.pmm f) {j : Fin 1024}
    (hj : present (tableWord st.mem src i j) = true) :
    exists pte', entryAt (filledClone st src f word l).mem (answer st.pmm 0) i j =
        some pte' ∧ frame pte' ≠ frame (tableWord st.mem src i j) := by
  rcases (hclone f word hf).page i j _ hi.right (by
    rw [entryAt_withMem hsupply (filled_given hf)]
    exact h.entryAt_eq hi.left hj) with ⟨pte', hpte, _, hne, _⟩
  exact ⟨pte', hpte, hne⟩

theorem FaithfulFilled.keeps (hclone : FaithfulFilled st src l)
    (hsupply : Supply st.pmm (dirFrames st.mem src)) {f : UInt32}
    (word : UInt32) (hf : Given st.pmm f) {page : UInt32}
    (hpage : UserPage st.mem src page) :
    (filledClone st src f word l).mem page = filled st.mem f word page := by
  rcases hpage with ⟨i', j', pte, hi', hpte, hframe⟩
  rcases (hclone f word hf).page i' j' pte hi' (by
    rw [entryAt_withMem hsupply (filled_given hf)]
    exact hpte) with ⟨_, _, _, _, _, hkept⟩
  rw [hframe] at hkept
  exact hkept

theorem FaithfulFilled.not_noTable (hclone : FaithfulFilled st src l)
    (h : DirOk st.mem src) (hsupply : Supply st.pmm (dirFrames st.mem src))
    (hfirst : answer st.pmm 0 ≠ 0) (hi : UserTable st.mem src i)
    (hkept : forall word, (filledClone st src (answer st.pmm 0) word l).mem
      (answer st.pmm 0) i = word) : False := by
  have hdir := given_first hfirst
  by_cases hpage : exists j, present (tableWord st.mem src i j) = true
  · rcases hpage with ⟨j, hj⟩
    rcases hclone.copies h hsupply hi 0 hdir hj with ⟨pte', hpte, _⟩
    rw [entryAt_absent j (by rw [hkept 0]; exact present_zero)] at hpte
    cases hpte
  · have hnone : entryAt st.mem src i i = none := by
      apply h.entryAt_none hi.left
      rw [← Bool.not_eq_true]
      exact fun hj => hpage ⟨i, hj⟩
    have hentry := (hclone _ (moveEntry (answer st.pmm 0) 1) hdir).absent i i
      hi.right (by
        rw [entryAt_withMem hsupply (filled_given hdir)]
        exact hnone)
    have hword := hkept (moveEntry (answer st.pmm 0) 1)
    have hpresent : present (moveEntry (answer st.pmm 0) 1) = true :=
      present_moveEntry _ _
    have hhuge : huge (moveEntry (answer st.pmm 0) 1) = false :=
      huge_moveEntry _ _
    have haligned : frame (answer st.pmm 0) = answer st.pmm 0 :=
      hsupply.aligned 0
    rw [entryAt_table i (by rw [hword]; exact hpresent)
      (by rw [hword]; exact hhuge), hword, frame_moveEntry, haligned, hword,
      hpresent] at hentry
    cases hentry

theorem FaithfulFilled.not_spoilt (hclone : FaithfulFilled st src l)
    (h : DirOk st.mem src) (hsupply : Supply st.pmm (dirFrames st.mem src))
    (hfirst : answer st.pmm 0 ≠ 0) (hi : UserTable st.mem src i) :
    ¬ Spoilt (PageAllocator.pmmAllocPage st.pmm).2 st.mem src (answer st.pmm 0)
      (UserPage st.mem src) l i := by
  intro hspoilt
  have hmem : forall {f : UInt32} (word : UInt32),
      (st.withMem (filled st.mem f word)).pmmAllocPage.2.mem =
        filled st.mem f word := fun _ => rfl
  have haligned : forall t, Given st.pmm t -> frame t = t := by
    intro t ht
    rcases ht with ⟨_, n, hn⟩
    rw [← hn]
    exact hsupply.aligned n
  cases hspoilt with
  | noTable hkept =>
      apply hclone.not_noTable h hsupply hfirst hi
      intro word
      have hword := hkept _ (readsDir_filled hsupply word (given_first hfirst))
      rw [hmem, filled_self] at hword
      exact hword
  | usedTable t hused hgiven hcopy =>
      have hgiven := hgiven.of_next
      rcases hcopy _ (readsDir_filled hsupply 2 hgiven) with ⟨hmoved, hword⟩
      have hsame : (filledClone st src t 2 l).mem t 0 = 2 := by
        rw [hclone.keeps hsupply 2 hgiven hused, filled_self]
      unfold filledClone at hsame
      rw [hsame] at hword
      rcases hword with ⟨_, hj⟩ | hzero | hpresent
      · rcases hclone.copies h hsupply hi 2 hgiven hj with ⟨pte', hpte, _⟩
        unfold filledClone at hpte
        rw [h.entryAt_moved 0 hi.left hmoved (haligned t hgiven), hsame] at hpte
        cases hpte
      · exact absurd hzero (by decide)
      · exact absurd hpresent (by decide)
  | noPage t hgiven j hj hcopy =>
      have hgiven := hgiven.of_next
      rcases hcopy _ (readsDir_filled hsupply 0 hgiven) with ⟨hmoved, hword⟩
      rcases hclone.copies h hsupply hi 0 hgiven hj with ⟨pte', hpte, _⟩
      unfold filledClone at hpte
      rw [hmem, filled_self] at hword
      rw [h.entryAt_moved j hi.left hmoved (haligned t hgiven), hword] at hpte
      cases hpte
  | usedPage t hgiven j hj page hused hpage hcopy =>
      have hgiven := hgiven.of_next
      have hpage := hpage.of_next
      by_cases hsame : page = frame (tableWord st.mem src i j)
      · rcases hcopy _ (readsDir_filled hsupply 0 hpage) with
          ⟨hmoved, hword, _⟩
        rcases hclone.copies h hsupply hi 0 hpage hj with ⟨pte', hpte, hne⟩
        unfold filledClone at hpte
        rw [h.entryAt_moved j hi.left hmoved (haligned t hgiven), hword,
          present_moveEntry, hj] at hpte
        cases hpte
        apply hne
        rw [frame_moveEntry, haligned page hpage]
        exact hsame
      · have hcontent := (hcopy _ (readsDir_filled hsupply
          (st.mem (frame (tableWord st.mem src i j)) 0 + 1) hpage)).right.right
        have hkept := hclone.keeps hsupply
          (st.mem (frame (tableWord st.mem src i j)) 0 + 1) hpage hused
        unfold filledClone at hkept
        rw [hcontent, hmem] at hkept
        have hword := congrFun hkept 0
        rw [filled_self] at hword
        unfold filled at hword
        rw [Function.update_of_ne (Ne.symm hsame)] at hword
        exact absurd (UInt32.left_eq_add.mp hword) (by decide)

end

/-!
# When a clone is faithful
-/

theorem good_of_all (h : DirOk st.mem src)
    (hsupply : Supply st.pmm (dirFrames st.mem src))
    (hfirst : answer st.pmm 0 ≠ 0)
    (hall : forall mem, (forall f, ¬ Given st.pmm f -> mem f = st.mem f) ->
      AllOrNothing (st.withMem mem) src) {m : Nat}
    (hm : m < cloneNeeds st.mem src) :
    answer st.pmm m ≠ 0 ∧ ¬ UserPage st.mem src (answer st.pmm m) := by
  have hfaithful : forall mem,
      (forall f, ¬ Given st.pmm f -> mem f = st.mem f) ->
      Faithful mem ((st.withMem mem).vmmCloneDir src).2.mem src
        (answer st.pmm 0) := by
    intro mem hmem
    have hcases := hall mem hmem
    unfold AllOrNothing at hcases
    rw [vmmCloneDir_first, pmm_withMem] at hcases
    exact hcases.resolve_left hfirst
  have hdst := not_userPage_first hsupply hfirst hfaithful
  rw [← not_or]
  intro hbad
  cases m with
  | zero => exact hbad.elim hfirst hdst
  | succ m =>
      unfold cloneNeeds at hm
      rw [answer_succ] at hbad
      rcases cloneTables_bad (dirApart_first hsupply hfirst) hsupply.next
        hdst (List.nodup_finRange 1024) (fun i _ hi j hj =>
          ⟨i, j, _, hi.right, h.entryAt_eq hi.left hj, rfl⟩)
        ⟨m, by omega, hbad⟩ with ⟨i, _, hi, hspoilt⟩
      exact (faithfulFilled hfirst hfaithful).not_spoilt h hsupply hfirst hi
        hspoilt

/--
A clone is all or nothing, whatever its new frames contained, exactly when there
is no frame for the directory, or none is missing and none is mapped already.
-/
theorem clone_all_or_nothing (hbuilt : Built st src)
    (hsupply : Supply st.pmm (dirFrames st.mem src)) :
    (forall mem, (forall f, ¬ Given st.pmm f -> mem f = st.mem f) ->
      AllOrNothing (st.withMem mem) src) <->
    answer st.pmm 0 = 0 ∨
      forall m, m < cloneNeeds st.mem src ->
        answer st.pmm m ≠ 0 ∧ ¬ UserPage st.mem src (answer st.pmm m) := by
  by_cases hfirst : answer st.pmm 0 = 0
  · refine iff_of_true ?_ (Or.inl hfirst)
    intro mem _
    left
    have hnone : answer (st.withMem mem).pmm 0 = 0 := hfirst
    rw [vmmCloneDir_none hnone]
    exact hfirst
  · rw [or_iff_right hfirst]
    constructor
    · intro hall m hm
      exact good_of_all hbuilt.dirOk hsupply hfirst hall hm
    · intro hgood mem hmem
      right
      rw [vmmCloneDir_first, pmm_withMem]
      exact faithful_of_good hbuilt.dirOk hsupply hgood hmem

theorem supply_list {frames : List UInt32} {used : Set UInt32}
    (haligned : forall f, f ∈ frames -> frame f = f)
    (hunused : forall f, f ∈ frames -> f ∉ used) (hnodup : frames.Nodup) :
    Supply frames used := by
  have hanswer : forall (frames : List UInt32) n,
      answer frames n = frames.getD n 0 := by
    intro frames n
    induction n generalizing frames with
    | zero => cases frames <;> rfl
    | succ n ih =>
        rw [answer_succ]
        refine (ih frames.tail).trans ?_
        cases frames with
        | nil => rfl
        | cons f frames => rfl
  have hmem : forall n, frames.getD n 0 ≠ 0 ->
      exists h : n < frames.length, frames.getD n 0 = frames[n] := by
    intro n hne
    by_cases hn : n < frames.length
    · exact ⟨hn, List.getD_eq_getElem _ _ hn⟩
    · exact absurd (List.getD_eq_default _ _ (not_lt.mp hn)) hne
  constructor
  · intro n
    rw [hanswer]
    by_cases hzero : frames.getD n 0 = 0
    · rw [hzero]
      decide
    · rcases hmem n hzero with ⟨hn, hget⟩
      rw [hget]
      exact haligned _ (List.getElem_mem hn)
  · intro f hf
    rcases hf with ⟨hne, n, hn⟩
    rw [hanswer] at hn
    rw [← hn] at hne ⊢
    rcases hmem n hne with ⟨hlt, hget⟩
    rw [hget]
    exact hunused _ (List.getElem_mem hlt)
  · intro m n hlt heq
    rw [hanswer] at heq ⊢
    rw [hanswer] at heq
    by_contra hne
    rcases hmem n hne with ⟨hn, hgetn⟩
    rcases hmem m (heq ▸ hne) with ⟨hm, hgetm⟩
    rw [hgetn, hgetm] at heq
    have hsame := (hnodup.getElem_inj_iff).mp heq
    omega

/-- A directory with one table, and one page in it. -/
structure OnePage (mem : Frames) (dir pde pte : UInt32) : Prop where
  tables : forall i, mem dir i = if i = 1 then pde else 0
  pages : forall j, mem (frame pde) j = if j = 0 then pte else 0
  pdePresent : present pde = true
  pdeSmall : huge pde = false
  ptePresent : present pte = true
  apart : frame pde ≠ dir

namespace OnePage

variable {pde pte f : UInt32} {i j : Fin 1024}

omit [PageAllocator alpha] in
theorem table_word (h : OnePage mem dir pde pte)
    (hi : present (mem dir i) = true) : i = 1 ∧ mem dir i = pde := by
  rw [h.tables] at hi ⊢
  split at hi
  · rename_i hone
    exact ⟨hone, if_pos hone⟩
  · rw [present_zero] at hi
    cases hi

omit [PageAllocator alpha] in
theorem page_word (h : OnePage mem dir pde pte)
    (hi : present (mem dir i) = true)
    (hj : present (tableWord mem dir i j) = true) :
    tableWord mem dir i j = pte := by
  unfold tableWord at hj ⊢
  rw [(h.table_word hi).right, h.pages] at hj ⊢
  split at hj
  · rename_i hzero
    exact if_pos hzero
  · rw [present_zero] at hj
    cases hj

omit [PageAllocator alpha] in
theorem mem_dirFrames (h : OnePage mem dir pde pte)
    (hf : f ∈ dirFrames mem dir) : f = dir ∨ f = frame pde := by
  rcases hf with heq | ⟨i, hi, heq⟩
  · exact Or.inl heq
  · rw [(h.table_word hi).right] at heq
    exact Or.inr heq

omit [PageAllocator alpha] in
theorem dirOk (h : OnePage mem dir pde pte) : DirOk mem dir where
  zero := by
    intro i hi
    rw [h.tables] at hi ⊢
    split at hi
    · rw [h.pdePresent] at hi
      cases hi
    · rename_i hone
      exact if_neg hone
  small := by
    intro i hi
    rw [(h.table_word hi).right]
    exact h.pdeSmall
  apart := by
    intro i hi
    rw [(h.table_word hi).right]
    exact h.apart

omit [PageAllocator alpha] in
theorem entryAt_page (h : OnePage mem dir pde pte) :
    entryAt mem dir 1 0 = some pte := by
  have htable : mem dir 1 = pde := (h.tables 1).trans (if_pos rfl)
  have hword : tableWord mem dir 1 0 = pte := by
    unfold tableWord
    rw [htable, h.pages, if_pos rfl]
  rw [← hword]
  apply h.dirOk.entryAt_eq
  · rw [htable]
    exact h.pdePresent
  · rw [hword]
    exact h.ptePresent

omit [PageAllocator alpha] in
theorem userPage_frame (h : OnePage mem dir pde pte)
    (hf : UserPage mem dir f) : f = frame pte := by
  rcases hf with ⟨i, j, word, _, hentry, hpage⟩
  rcases h.dirOk.entryAt_some hentry with ⟨htable, hword, hpresent⟩
  rw [← hword] at hpresent hpage
  rw [h.page_word htable hpresent] at hpage
  exact hpage.symm

omit [PageAllocator alpha] in
theorem framesNeeded_eq (h : OnePage mem dir pde pte) :
    framesNeeded mem dir (List.finRange 1024) = 2 := by
  have hpages : pagesIn mem (frame pde) (List.finRange 1024) = 1 := by
    have hsame : forall k, present (mem (frame pde) k) = (k == 0) := by
      intro k
      rw [h.pages]
      by_cases hk : k = 0
      · rw [if_pos hk, hk, h.ptePresent]
        rfl
      · rw [if_neg hk, present_zero, beq_false_of_ne hk]
    unfold pagesIn
    rw [funext hsame]
    exact List.count_eq_one_of_mem (List.nodup_finRange 1024)
      (List.mem_finRange 0)
  have hframes : forall i, tableFrames mem dir i = if i = 1 then 2 else 0 := by
    intro i
    have hentry := h.tables i
    unfold tableFrames
    by_cases hi : i = 1
    · rw [if_pos hi] at hentry ⊢
      have huser : UserTable mem dir i := by
        refine ⟨by rw [hentry, h.pdePresent], ?_⟩
        rw [hi]
        decide
      rw [if_pos huser, hentry, hpages]
    · rw [if_neg hi] at hentry ⊢
      apply if_neg
      rw [UserTable, hentry, present_zero]
      exact fun h => Bool.false_ne_true h.left
  unfold framesNeeded
  rw [funext hframes]
  decide +kernel

omit [PageAllocator alpha] in
theorem cloneNeeds_eq (h : OnePage mem dir pde pte) :
    cloneNeeds mem dir = 3 := by
  unfold cloneNeeds
  rw [h.framesNeeded_eq]

end OnePage

def onePage (frames : List UInt32) : Vmm (List UInt32) :=
  ((cleared (0x5000 :: frames)).vmmMapPage 0x100000 0x400000 0x9000 3).2

theorem onePage_start (frames : List UInt32) :
    (onePage frames).pmm = frames ∧ forall f k,
      (onePage frames).mem f k = if f = 0x5000 ∧ k = 0 then 0x9003
        else if f = 0x100000 ∧ k = 1 then 0x5003 else 0 := by
  have hindex : pdeIndex 0x400000 = 1 ∧ pteIndex 0x400000 = 0 := by decide
  have hnone : present ((cleared (0x5000 :: frames)).mem 0x100000
      (pdeIndex 0x400000)) = false := present_zero
  have hword : tableEntry 0x5000 3 = 0x5003 ∧ mapEntry 0x9000 3 = 0x9003 := by
    decide
  have hpage : (PageAllocator.pmmAllocPage
      (cleared (0x5000 :: frames)).pmm).1 = 0x5000 := rfl
  unfold onePage
  constructor
  · rw [pmm_vmmMapPage_new 0x9000 3 hnone]
    rfl
  · intro f k
    rw [mem_vmmMapPage_new 0x9000 3 hnone hpage (by decide), hindex.left,
      hindex.right, hword.left, hword.right]
    congr 2
    exact ite_self 0

theorem onePage_built (frames : List UInt32) :
    Built (onePage frames) 0x100000 := by
  have hfirst : (PageAllocator.pmmAllocPage
      (cleared (0x5000 :: frames)).pmm).1 = 0x5000 := rfl
  apply Built.map 0x400000 0x9000 3 (Built.zero fun _ => rfl)
  right
  rw [hfirst]
  refine ⟨by decide, by decide, ?_⟩
  intro i hi
  exact absurd (present_zero.symm.trans hi) Bool.false_ne_true

theorem onePage_words (frames : List UInt32) :
    OnePage (onePage frames).mem 0x100000 0x5003 0x9003 := by
  have hne : (0x5000 : UInt32) ≠ 0x100000 := by decide
  refine ⟨?_, ?_, by decide, by decide, by decide, by decide⟩
  · intro i
    rw [(onePage_start frames).right, if_neg fun h => hne h.left.symm]
    exact if_congr (and_iff_right rfl) rfl rfl
  · intro j
    rw [show frame 0x5003 = 0x5000 by decide, (onePage_start frames).right]
    apply if_congr (and_iff_right rfl) rfl
    exact if_neg fun h => hne h.left

theorem onePage_supply {frames : List UInt32}
    (haligned : forall f, f ∈ frames -> frame f = f)
    (hfresh : forall f, f ∈ frames -> f ≠ 0x100000 ∧ f ≠ 0x5000)
    (hnodup : frames.Nodup) :
    Supply (onePage frames).pmm (dirFrames (onePage frames).mem 0x100000) := by
  rw [(onePage_start frames).left]
  apply supply_list haligned _ hnodup
  intro f hf hused
  rcases (onePage_words frames).mem_dirFrames hused with heq | heq
  · exact (hfresh f hf).left heq
  · exact (hfresh f hf).right heq

theorem mem_threeFrames {f a b c : UInt32} (hf : f ∈ [a, b, c]) :
    f = a ∨ f = b ∨ f = c := by
  simpa using hf

theorem onePage_threeFrames : Supply (onePage [0x6000, 0x7000, 0x8000]).pmm
    (dirFrames (onePage [0x6000, 0x7000, 0x8000]).mem 0x100000) := by
  apply onePage_supply
  · intro f hf
    rcases mem_threeFrames hf with heq | heq | heq <;> rw [heq] <;> decide
  · intro f hf
    rcases mem_threeFrames hf with heq | heq | heq <;> rw [heq] <;> decide
  · decide

theorem onePage_answer {m : Nat} (hm : m < cloneNeeds
    (onePage [0x6000, 0x7000, 0x8000]).mem 0x100000) :
    answer (onePage [0x6000, 0x7000, 0x8000]).pmm m ≠ 0 ∧
      answer (onePage [0x6000, 0x7000, 0x8000]).pmm m ≠ 0x9000 := by
  rw [(onePage_words _).cloneNeeds_eq] at hm
  rw [(onePage_start _).left]
  match m, hm with
  | 0, _ => decide
  | 1, _ => decide
  | 2, _ => decide

/-- Frames for the directory, the table and the page. -/
theorem clone_all_or_nothing_onePage :
    answer (onePage [0x6000, 0x7000, 0x8000]).pmm 0 = 0x6000 ∧
      forall mem, (forall f, ¬ Given (onePage [0x6000, 0x7000, 0x8000]).pmm f ->
          mem f = (onePage [0x6000, 0x7000, 0x8000]).mem f) ->
        AllOrNothing ((onePage [0x6000, 0x7000, 0x8000]).withMem mem)
          0x100000 := by
  constructor
  · rw [(onePage_start _).left]
    rfl
  refine (clone_all_or_nothing (onePage_built _) onePage_threeFrames).mpr
    (Or.inr ?_)
  intro m hm
  have hframe := onePage_answer hm
  refine ⟨hframe.left, fun hpage => hframe.right ?_⟩
  rw [(onePage_words _).userPage_frame hpage]
  decide

/-- The entry of the table is missing in the clone. -/
theorem onePage_clone : ¬ AllOrNothing (onePage [0x6000]) 0x100000 := by
  have hwords := onePage_words [0x6000]
  have hpmm := (onePage_start [0x6000]).left
  have hsupply : Supply (onePage [0x6000]).pmm
      (dirFrames (onePage [0x6000]).mem 0x100000) :=
    onePage_supply (List.forall_mem_singleton.mpr (by decide))
      (List.forall_mem_singleton.mpr (by decide)) (by decide)
  have hfirst : answer (onePage [0x6000]).pmm 0 = 0x6000 := by
    rw [hpmm]
    rfl
  have hne : answer (onePage [0x6000]).pmm 0 ≠ 0 := by
    rw [hfirst]
    decide
  have hlater : forall t,
      ¬ Given (PageAllocator.pmmAllocPage (onePage [0x6000]).pmm).2 t := by
    intro t ht
    rcases ht with ⟨hne, n, hn⟩
    rw [hpmm] at hn
    exact hne (hn.symm.trans (by induction n with
      | zero => rfl
      | succ n ih => exact ih hn))
  have hbad : exists i, i ∈ List.finRange 1024 ∧
      UserTable (onePage [0x6000]).mem 0x100000 i ∧
      Spoilt (PageAllocator.pmmAllocPage (onePage [0x6000]).pmm).2
        (onePage [0x6000]).mem 0x100000 (answer (onePage [0x6000]).pmm 0)
        (fun f => f = 0x9000) (List.finRange 1024) i := by
    apply cloneTables_bad (dirApart_first hsupply hne) hsupply.next
      (by rw [hfirst]; decide) (List.nodup_finRange 1024)
    · intro i _ hi j hj
      rw [hwords.page_word hi.left hj]
      decide
    · refine ⟨0, ?_, Or.inl (by rw [hpmm]; rfl)⟩
      rw [hwords.framesNeeded_eq]
      exact Nat.two_pos
  rcases hbad with ⟨i, _, hi, hspoilt⟩
  rw [(hwords.table_word hi.left).left] at hspoilt
  cases hspoilt with
  | noTable hkept =>
      have hsame : forall f, ¬ Given (onePage [0x6000]).pmm f ->
          (onePage [0x6000]).mem f = (onePage [0x6000]).mem f :=
        fun _ _ => rfl
      have hword := hkept _ (readsDir_first hsupply hsame)
      rw [← vmmCloneDir_withMem hne, withMem_self, hfirst] at hword
      intro hcases
      rw [AllOrNothing, vmmCloneDir_first] at hcases
      rcases (hcases.resolve_left hne).page 1 0 _ (by decide)
        hwords.entryAt_page with
        ⟨pte', hpte, _⟩
      rw [entryAt_absent] at hpte
      · cases hpte
      · rw [hfirst, hword, mem_pmmAllocPage, (onePage_start [0x6000]).right]
        decide
  | usedTable t _ hgiven _ => exact absurd hgiven (hlater t)
  | noPage t hgiven _ _ _ => exact absurd hgiven (hlater t)
  | usedPage t hgiven _ _ _ _ _ _ => exact absurd hgiven (hlater t)

end Vmm
end Mm
end EarlnuxOS
