import EarlnuxOS.Foundation.Shares
import EarlnuxOS.Mm.Vmm.Destroying

/-!
# What a directory owns and shows

The frames that a directory owns are those that its end gives back.  Its image
is what the user finds at each page: flags and words, not where they are.  One
lemma for each function of `kernel/mm/vmm.c` says how the two change.
-/

namespace EarlnuxOS
namespace Mm
namespace Vmm

open Foundation

universe u

abbrev Words := Fin 1024 -> UInt32

structure SpacePage where
  flags : UInt32
  words : Words

/-- The pages of the user by the indices of their addresses. -/
abbrev Image := Fin 1024 -> Fin 1024 -> Option SpacePage

def Image.at (m : Image) (virt : UInt32) : Option SpacePage :=
  m (pdeIndex virt) (pteIndex virt)

def Image.set (m : Image) (virt : UInt32) (page : Option SpacePage) : Image :=
  fun i j =>
    if i = pdeIndex virt ∧ j = pteIndex virt then page else m i j

def pageOf (mem : Frames) (pte : UInt32) : SpacePage :=
  { flags := pte &&& 0xFFF, words := mem (frame pte) }

def image (mem : Frames) (dir : UInt32) : Image := fun i j =>
  if i < pdeIndex kernelBase then (entryAt mem dir i j).map (pageOf mem)
  else none

/-- The frames of a directory: itself, its tables and its pages. -/
def spaceFrames (mem : Frames) (dir : UInt32) : List UInt32 :=
  dir :: (List.finRange 1024).flatMap (ownedFrames mem dir)

/-- The low bits of the entry that `vmm_map_page` writes. -/
def mapFlags (flags : UInt32) : UInt32 :=
  ptePresent ||| (flags &&& (pteWrite ||| pteUser ||| pteNocache |||
    pteWritethrough ||| pteGlobal))

theorem pageOf_mapEntry (mem : Frames) {page : UInt32} (flags : UInt32)
    (hpage : frame page = page) :
    pageOf mem (mapEntry page flags) =
      { flags := mapFlags flags, words := mem page } := by
  have hflags : mapEntry page flags &&& 0xFFF = mapFlags flags := by
    rw [mapEntry_eq, low_or _ _ _ (by decide)]
    unfold mapFlags
    rw [or_and, UInt32.and_assoc flags]
    congr 2
  unfold pageOf
  rw [frame_mapEntry, hpage, hflags]

/-!
# Frames
-/

section Frames

variable {mem mem' : Frames} {dir : UInt32} {i j : Fin 1024}

theorem dir_mem_spaceFrames : dir ∈ spaceFrames mem dir :=
  List.mem_cons_self

theorem owned_mem_spaceFrames {f : UInt32} (hf : f ∈ ownedFrames mem dir i) :
    f ∈ spaceFrames mem dir :=
  List.mem_cons_of_mem _
    (List.mem_flatMap.mpr ⟨i, List.mem_finRange i, hf⟩)

theorem table_mem_owned (hi : UserTable mem dir i) :
    frame (mem dir i) ∈ ownedFrames mem dir i := by
  unfold ownedFrames
  rw [if_pos hi]
  exact List.mem_cons_self

theorem spaceFrames_congr (hdir : mem' dir = mem dir)
    (htables : forall i, UserTable mem dir i ->
      mem' (frame (mem dir i)) = mem (frame (mem dir i))) :
    spaceFrames mem' dir = spaceFrames mem dir := by
  have howned : forall i, ownedFrames mem' dir i = ownedFrames mem dir i := by
    intro i
    apply ownedFrames_congr (congrFun hdir i)
    intro hi j
    rw [htables i hi]
  unfold spaceFrames
  rw [List.flatMap_congr (fun i _ => howned i)]

theorem pages_gain {pt page : UInt32} {l : List (Fin 1024)} (hl : l.Nodup)
    (hj : j ∈ l) (hothers : forall k, k ≠ j -> mem' pt k = mem pt k)
    (hbefore : present (mem pt j) = false)
    (hafter : present (mem' pt j) = true) (hpage : frame (mem' pt j) = page) :
    (l.filterMap (pageAt mem' pt)).Perm
      (page :: l.filterMap (pageAt mem pt)) := by
  rw [List.filterMap_eq_flatMap_toList, List.filterMap_eq_flatMap_toList]
  apply perm_gain [page] hl hj
  · intro k _ hk
    rw [pageAt_congr (hothers k hk)]
  · unfold pageAt
    rw [hbefore, hafter, hpage]
    exact List.Perm.refl _

theorem owned_gain {page : UInt32} (hi : UserTable mem dir i)
    (hdir : mem' dir i = mem dir i)
    (hothers : forall k, k ≠ j ->
      mem' (frame (mem dir i)) k = mem (frame (mem dir i)) k)
    (hbefore : present (mem (frame (mem dir i)) j) = false)
    (hafter : present (mem' (frame (mem dir i)) j) = true)
    (hpage : frame (mem' (frame (mem dir i)) j) = page) :
    (ownedFrames mem' dir i).Perm ([page] ++ ownedFrames mem dir i) := by
  have hgain := pages_gain (List.nodup_finRange 1024) (List.mem_finRange j)
    hothers hbefore hafter hpage
  have hi' : UserTable mem' dir i := by
    unfold UserTable
    rw [hdir]
    exact hi
  unfold ownedFrames
  rw [if_pos hi, if_pos hi', hdir]
  exact (hgain.cons _).trans (List.Perm.swap _ _ _)

theorem spaceFrames_gain (extra : List UInt32) (i : Fin 1024)
    (hothers : forall k, k ≠ i -> ownedFrames mem' dir k = ownedFrames mem dir k)
    (hone : (ownedFrames mem' dir i).Perm (extra ++ ownedFrames mem dir i)) :
    (spaceFrames mem' dir).Perm (extra ++ spaceFrames mem dir) := by
  have hgain := perm_gain extra (List.nodup_finRange 1024) (List.mem_finRange i)
    (fun k _ hk => hothers k hk) hone
  unfold spaceFrames
  exact (hgain.cons dir).trans List.perm_middle.symm

theorem userPage_listed (h : DirOk mem dir) {f : UInt32}
    (hf : UserPage mem dir f) : exists i, UserTable mem dir i ∧
      f ∈ (List.finRange 1024).filterMap (pageAt mem (frame (mem dir i))) := by
  rcases hf with ⟨i, j, pte, hi, hentry, hframe⟩
  rcases h.entryAt_some hentry with ⟨hpresent, hword, hpte⟩
  change mem (frame (mem dir i)) j = pte at hword
  refine ⟨i, ⟨hpresent, hi⟩, ?_⟩
  rw [List.mem_filterMap]
  refine ⟨j, List.mem_finRange j, ?_⟩
  unfold pageAt
  rw [hword, if_pos hpte, hframe]

theorem page_mem_owned (hi : UserTable mem dir i) {f : UInt32}
    (hf : f ∈ (List.finRange 1024).filterMap
      (pageAt mem (frame (mem dir i)))) : f ∈ ownedFrames mem dir i := by
  unfold ownedFrames
  rw [if_pos hi]
  exact List.mem_cons_of_mem _ hf

theorem userPage_mem (h : DirOk mem dir) {f : UInt32}
    (hf : UserPage mem dir f) : f ∈ spaceFrames mem dir := by
  rcases userPage_listed h hf with ⟨i, hi, hlisted⟩
  exact owned_mem_spaceFrames (page_mem_owned hi hlisted)

theorem DirOk.image_entry (h : DirOk mem dir)
    (hi : i < pdeIndex kernelBase) :
    image mem dir i j =
      if present (mem dir i) ∧ present (mem (frame (mem dir i)) j) then
        some (pageOf mem (mem (frame (mem dir i)) j))
      else none := by
  unfold image
  rw [if_pos hi]
  cases hpresent : present (mem dir i) with
  | false =>
      rw [entryAt_absent j hpresent, if_neg (fun h => by cases h.left)]
      rfl
  | true =>
      rw [entryAt_table j hpresent (h.small i hpresent)]
      cases hpage : present (mem (frame (mem dir i)) j) with
      | false =>
          rw [if_pos Bool.false_ne_true, if_neg (fun h => by cases h.right)]
          rfl
      | true =>
          rw [if_neg (fun h => h rfl), if_pos ⟨rfl, rfl⟩]
          rfl

theorem image_congr (h : DirOk mem dir)
    (hsame : forall f, f ∈ spaceFrames mem dir -> mem' f = mem f) :
    image mem' dir = image mem dir := by
  have hdir : mem' dir = mem dir := hsame dir dir_mem_spaceFrames
  have h' : DirOk mem' dir := h.congr (fun i => congrFun hdir i)
  funext i j
  by_cases hi : i < pdeIndex kernelBase
  · rw [h'.image_entry hi, h.image_entry hi, congrFun hdir i]
    by_cases hpresent : present (mem dir i) = true
    · have htable := hsame _ (owned_mem_spaceFrames
        (table_mem_owned ⟨hpresent, hi⟩))
      rw [htable]
      by_cases hpage : present (mem (frame (mem dir i)) j) = true
      · have hwords := hsame _ (userPage_mem h
          ⟨i, j, _, hi, h.entryAt_eq hpresent hpage, rfl⟩)
        change mem' (frame (mem (frame (mem dir i)) j)) =
          mem (frame (mem (frame (mem dir i)) j)) at hwords
        unfold pageOf
        rw [hwords]
      · rw [if_neg (fun h => hpage h.right), if_neg (fun h => hpage h.right)]
    · rw [if_neg (fun h => hpresent h.left), if_neg (fun h => hpresent h.left)]
  · unfold image
    rw [if_neg hi, if_neg hi]

/--
The frames of a directory are all different, and the tables that it shares are
not among them.
-/
structure Unshared (mem : Frames) (dir : UInt32) : Prop where
  ok : DirOk mem dir
  nodup : (spaceFrames mem dir).Nodup
  kernel : forall i, pdeIndex kernelBase ≤ i -> present (mem dir i) = true ->
    frame (mem dir i) ∉ spaceFrames mem dir
  kernelApart : forall i i', pdeIndex kernelBase ≤ i ->
    pdeIndex kernelBase ≤ i' -> present (mem dir i) = true ->
      present (mem dir i') = true -> frame (mem dir i) = frame (mem dir i') ->
        i = i'

theorem Unshared.owned_nodup (h : Unshared mem dir) :
    ((List.finRange 1024).flatMap (ownedFrames mem dir)).Nodup :=
  (List.nodup_cons.mp h.nodup).right

theorem Unshared.page_apart (h : Unshared mem dir) {f : UInt32}
    (hf : UserPage mem dir f) : f ∉ dirFrames mem dir := by
  rcases userPage_listed h.ok hf with ⟨i, hi, hlisted⟩
  have howned := page_mem_owned hi hlisted
  intro hmem
  rcases hmem with hdir | ⟨i', hpresent, htable⟩
  · have hall := List.mem_flatMap.mpr ⟨i, List.mem_finRange i, howned⟩
    rw [hdir] at hall
    exact (List.nodup_cons.mp h.nodup).left hall
  · by_cases hi' : i' < pdeIndex kernelBase
    · have htable' : f ∈ ownedFrames mem dir i' := by
        rw [htable]
        exact table_mem_owned ⟨hpresent, hi'⟩
      have hsame := holder_unique h.owned_nodup (List.mem_finRange i)
        (List.mem_finRange i') howned htable'
      have hone := share_nodup h.owned_nodup (List.mem_finRange i)
      unfold ownedFrames at hone
      rw [if_pos hi] at hone
      rw [htable, ← hsame] at hlisted
      exact (List.nodup_cons.mp hone).left hlisted
    · apply h.kernel i' (not_lt.mp hi') hpresent
      rw [← htable]
      exact owned_mem_spaceFrames howned

theorem Unshared.tableInv (h : Unshared mem dir) : TableInv mem dir where
  small := h.ok.small
  apart := h.ok.apart
  distinct := by
    intro i i' hpresent hpresent' hsame
    by_cases hi : i < pdeIndex kernelBase
    · have htable := table_mem_owned ⟨hpresent, hi⟩
      by_cases hi' : i' < pdeIndex kernelBase
      · have htable' := table_mem_owned ⟨hpresent', hi'⟩
        rw [← hsame] at htable'
        exact holder_unique h.owned_nodup (List.mem_finRange i)
          (List.mem_finRange i') htable htable'
      · rw [hsame] at htable
        exact absurd (owned_mem_spaceFrames htable)
          (h.kernel i' (not_lt.mp hi') hpresent')
    · by_cases hi' : i' < pdeIndex kernelBase
      · have htable' := table_mem_owned ⟨hpresent', hi'⟩
        rw [← hsame] at htable'
        exact absurd (owned_mem_spaceFrames htable')
          (h.kernel i (not_lt.mp hi) hpresent)
      · exact h.kernelApart i i' (not_lt.mp hi) (not_lt.mp hi') hpresent
          hpresent' hsame

theorem Unshared.entry_unique (h : Unshared mem dir) {i' j' : Fin 1024}
    {pte pte' : UInt32} (hi : i < pdeIndex kernelBase)
    (hi' : i' < pdeIndex kernelBase) (hentry : entryAt mem dir i j = some pte)
    (hentry' : entryAt mem dir i' j' = some pte')
    (hsame : frame pte = frame pte') : i = i' ∧ j = j' := by
  rcases h.ok.entryAt_some hentry with ⟨hpresent, hword, hpte⟩
  rcases h.ok.entryAt_some hentry' with ⟨hpresent', hword', hpte'⟩
  change mem (frame (mem dir i)) j = pte at hword
  change mem (frame (mem dir i')) j' = pte' at hword'
  have hpage : pageAt mem (frame (mem dir i)) j = some (frame pte) := by
    unfold pageAt
    rw [hword, if_pos hpte]
  have hpage' : pageAt mem (frame (mem dir i')) j' = some (frame pte) := by
    unfold pageAt
    rw [hword', if_pos hpte', hsame]
  have hii : i = i' := by
    apply holder_unique h.owned_nodup (List.mem_finRange i)
      (List.mem_finRange i')
    · exact page_mem_owned ⟨hpresent, hi⟩
        (List.mem_filterMap.mpr ⟨j, List.mem_finRange j, hpage⟩)
    · exact page_mem_owned ⟨hpresent', hi'⟩
        (List.mem_filterMap.mpr ⟨j', List.mem_finRange j', hpage'⟩)
  refine ⟨hii, ?_⟩
  have hone := share_nodup h.owned_nodup (List.mem_finRange i)
  unfold ownedFrames at hone
  rw [if_pos ⟨hpresent, hi⟩, List.filterMap_eq_flatMap_toList] at hone
  rw [← hii] at hpage'
  exact holder_unique (List.nodup_cons.mp hone).right (List.mem_finRange j)
    (List.mem_finRange j') (Option.mem_toList.mpr hpage)
    (Option.mem_toList.mpr hpage')

/-- The image when one entry has changed and the other pages have not. -/
theorem image_set {virt : UInt32} {entry : Option UInt32}
    (huser : pdeIndex virt < pdeIndex kernelBase)
    (hentry : forall i j, entryAt mem' dir i j =
      if i = pdeIndex virt ∧ j = pteIndex virt then entry
      else entryAt mem dir i j)
    (hpages : forall i j pte, ¬ (i = pdeIndex virt ∧ j = pteIndex virt) ->
      i < pdeIndex kernelBase -> entryAt mem dir i j = some pte ->
        mem' (frame pte) = mem (frame pte)) :
    image mem' dir =
      (image mem dir).set virt (entry.map (pageOf mem')) := by
  funext i j
  unfold image Image.set
  dsimp only
  rw [hentry]
  by_cases hi : i < pdeIndex kernelBase
  · rw [if_pos hi]
    by_cases hsame : i = pdeIndex virt ∧ j = pteIndex virt
    · rw [if_pos hsame, if_pos hsame]
    · rw [if_neg hsame, if_neg hsame, if_pos hi]
      cases hold : entryAt mem dir i j with
      | none => rfl
      | some pte =>
          have hpage := hpages i j pte hsame hi hold
          rw [Option.map_some, Option.map_some]
          unfold pageOf
          rw [hpage]
  · have hother : ¬ (i = pdeIndex virt ∧ j = pteIndex virt) :=
      fun h => hi (h.left ▸ huser)
    rw [if_neg hi, if_neg hother, if_neg hi]

theorem image_at {virt : UInt32} (mem : Frames) (dir : UInt32)
    (huser : pdeIndex virt < pdeIndex kernelBase) :
    ((image mem dir).at virt = none ∧
      entryAt mem dir (pdeIndex virt) (pteIndex virt) = none ∧
      vmmVirtToPhys mem dir virt = 0) ∨
    exists pte, entryAt mem dir (pdeIndex virt) (pteIndex virt) = some pte ∧
      (image mem dir).at virt = some (pageOf mem pte) ∧
      UserPage mem dir (frame pte) ∧
      frame (vmmVirtToPhys mem dir virt) = frame pte := by
  rw [vmmVirtToPhys_eq]
  unfold Image.at image
  rw [if_pos huser]
  cases hentry : entryAt mem dir (pdeIndex virt) (pteIndex virt) with
  | none => exact Or.inl ⟨rfl, rfl, rfl⟩
  | some pte =>
      refine Or.inr ⟨pte, rfl, rfl, ⟨_, _, pte, huser, hentry, rfl⟩, ?_⟩
      unfold physOf
      exact frame_or pte _ (frame_low virt _ (by decide))

end Frames

/-!
# Mapping and unmapping
-/

section Calls

variable {alpha : Type u} {st st' : Vmm alpha} {dir virt page flags : UInt32}

/-- What mapping a page does, where the directory has got new frames for it. -/
structure MapsPage (dir virt page flags : UInt32) (new : List UInt32)
    (st st' : Vmm alpha) : Prop where
  frames : (spaceFrames st'.mem dir).Perm
    (page :: (new ++ spaceFrames st.mem dir))
  other : forall f, f ∉ new -> f ∉ dirFrames st.mem dir ->
    st'.mem f = st.mem f
  kernel : forall i, pdeIndex kernelBase ≤ i -> st'.mem dir i = st.mem dir i
  ok : DirOk st'.mem dir
  entry : forall i j, entryAt st'.mem dir i j =
    if i = pdeIndex virt ∧ j = pteIndex virt then some (mapEntry page flags)
    else entryAt st.mem dir i j

theorem Unshared.ownedFrames_store (h : Unshared st.mem dir) {i : Fin 1024}
    (hi : UserTable st.mem dir i) (j : Fin 1024) (word : UInt32) :
    (forall k, (st.store (frame (st.mem dir i)) j word).mem dir k =
      st.mem dir k) ∧
    (forall k, k ≠ i ->
      ownedFrames (st.store (frame (st.mem dir i)) j word).mem dir k =
        ownedFrames st.mem dir k) ∧
    (forall k, k ≠ j ->
      (st.store (frame (st.mem dir i)) j word).mem (frame (st.mem dir i)) k =
        st.mem (frame (st.mem dir i)) k) := by
  have hdir : forall k, (st.store (frame (st.mem dir i)) j word).mem dir k =
      st.mem dir k :=
    fun k => mem_store_other _ _ _ _ (h.ok.apart i hi.left).symm
  refine ⟨hdir, ?_, ?_⟩
  · intro k hk
    apply ownedFrames_congr (hdir k)
    intro hk' n
    apply mem_store_other
    intro heq
    exact hk (h.tableInv.distinct k i hk'.left hi.left heq)
  · intro k hk
    rw [mem_store, if_neg (fun hsame => hk hsame.right)]

variable [PageAllocator alpha]

theorem maps_table (h : Unshared st.mem dir)
    (hi : UserTable st.mem dir (pdeIndex virt)) (hfresh : Fresh dir st)
    (hempty : entryAt st.mem dir (pdeIndex virt) (pteIndex virt) = none)
    (hpage : frame page = page) :
    MapsPage dir virt page flags [] st
      (st.vmmMapPage dir virt page flags).2 := by
  have hcall : st.vmmMapPage dir virt page flags = _ :=
    vmmMapPage_table page flags hi.left
  have haccess : Unshared (st.access dir).mem dir := h
  rcases haccess.ownedFrames_store hi (pteIndex virt) (mapEntry page flags) with
    ⟨hdir, hothers, hwords⟩
  have hself := (st.access dir).mem_store_self
    (frame (st.mem dir (pdeIndex virt))) (pteIndex virt) (mapEntry page flags)
  rw [mem_access] at hdir hothers hwords
  have hbefore : present (tableWord st.mem dir (pdeIndex virt)
      (pteIndex virt)) = false := by
    by_contra hpresent
    rw [Bool.not_eq_false] at hpresent
    rw [h.ok.entryAt_eq hi.left hpresent] at hempty
    cases hempty
  constructor
  · rw [hcall]
    apply spaceFrames_gain [page] _ hothers
    apply owned_gain hi (hdir _) hwords hbefore
    · rw [hself]
      exact present_mapEntry _ _
    · rw [hself, frame_mapEntry]
      exact hpage
  · intro f _ hf
    rw [hcall]
    funext k
    apply mem_store_other
    intro heq
    exact hf (Or.inr ⟨_, hi.left, heq⟩)
  · intro i _
    rw [hcall]
    exact hdir i
  · exact h.ok.map virt page flags hfresh
  · rcases vmmMapPage_cases h.tableInv hfresh virt page flags with
      ⟨hresult, _⟩ | ⟨_, _, hentry⟩
    · rw [hcall] at hresult
      cases hresult
    · exact hentry

theorem maps_newTable (h : Unshared st.mem dir)
    (habsent : present (st.mem dir (pdeIndex virt)) = false)
    (huser : pdeIndex virt < pdeIndex kernelBase) (hfresh : Fresh dir st)
    (hne : answer st.pmm 0 ≠ 0) (hpage : frame page = page) :
    (st.vmmMapPage dir virt page flags).1 = 0 ∧
      MapsPage dir virt page flags [answer st.pmm 0] st
        (st.vmmMapPage dir virt page flags).2 := by
  rcases hfresh with hzero | ⟨halign, hdir, htables⟩
  · exact absurd hzero hne
  have hanswer : (PageAllocator.pmmAllocPage st.pmm).1 = answer st.pmm 0 := rfl
  rw [hanswer] at halign hdir htables
  have hmem := mem_vmmMapPage_new page flags habsent hanswer hne
  have hrow := mem_vmmMapPage_dir page flags habsent hanswer hne hdir
  have hresult : (st.vmmMapPage dir virt page flags).1 = 0 := by
    rw [vmmMapPage_new page flags habsent (by rw [allocPageTable_eq]; exact hne)]
  refine ⟨hresult, ?_⟩
  have hself := hrow (pdeIndex virt)
  rw [if_pos rfl] at hself
  have htable : frame ((st.vmmMapPage dir virt page flags).2.mem dir
      (pdeIndex virt)) = answer st.pmm 0 := by
    rw [hself, frame_tableEntry]
    exact halign
  constructor
  · have hempty : ownedFrames st.mem dir (pdeIndex virt) = [] := by
      apply if_neg
      intro hi
      have hpresent := hi.left
      rw [habsent] at hpresent
      cases hpresent
    have hnew : UserTable (st.vmmMapPage dir virt page flags).2.mem dir
        (pdeIndex virt) := by
      unfold UserTable
      rw [hself]
      exact ⟨present_tableEntry _ _, huser⟩
    apply spaceFrames_gain [page, answer st.pmm 0] (pdeIndex virt)
    · intro k hk
      apply ownedFrames_congr
      · rw [hrow, if_neg hk]
      · intro hk' n
        have hpage' := htables k hk'.left
        rw [hmem, if_neg (fun hsame => hpage' hsame.left),
          if_neg (fun hsame => h.ok.apart k hk'.left hsame.left),
          if_neg hpage']
    · have hword := hmem (answer st.pmm 0) (pteIndex virt)
      rw [if_pos ⟨rfl, rfl⟩] at hword
      have hgain : ((List.finRange 1024).filterMap
          (pageAt (st.vmmMapPage dir virt page flags).2.mem
            (answer st.pmm 0))).Perm
          (page :: (List.finRange 1024).filterMap
            (pageAt (fun _ _ => 0) (answer st.pmm 0))) := by
        apply pages_gain (List.nodup_finRange 1024)
          (List.mem_finRange (pteIndex virt)) _ present_zero
          (by rw [hword]; exact present_mapEntry page flags)
          (by rw [hword, frame_mapEntry, hpage])
        intro k hk
        rw [hmem, if_neg (fun hsame => hk hsame.right),
          if_neg (fun hsame => hdir hsame.left), if_pos rfl]
      have hnone : (List.finRange 1024).filterMap
          (pageAt (fun _ _ => 0) (answer st.pmm 0)) = [] :=
        List.filterMap_eq_nil_iff.mpr (fun k _ => pageAt_zero rfl)
      rw [hnone] at hgain
      rw [hempty]
      unfold ownedFrames
      rw [if_pos hnew, htable]
      exact (hgain.cons _).trans (List.Perm.swap _ _ _)
  · intro f hf hother
    rw [List.mem_singleton] at hf
    funext k
    rw [hmem, if_neg (fun hsame => hf hsame.left),
      if_neg (fun hsame => hother (Or.inl hsame.left)), if_neg hf]
  · intro i hi
    have hother : i ≠ pdeIndex virt := by
      intro heq
      rw [heq] at hi
      exact absurd hi (not_le.mpr huser)
    rw [hrow, if_neg hother]
  · exact h.ok.map virt page flags (Or.inr ⟨halign, hdir, htables⟩)
  · rcases vmmMapPage_cases h.tableInv (Or.inr ⟨halign, hdir, htables⟩) virt
      page flags with ⟨hfail, _⟩ | ⟨_, _, hentry⟩
    · rw [hresult] at hfail
      cases hfail
    · exact hentry

omit [PageAllocator alpha] in
theorem unmaps_page (h : Unshared st.mem dir)
    (huser : pdeIndex virt < pdeIndex kernelBase) :
    (st.vmmUnmapPage dir virt).pmm = st.pmm ∧
      (forall i, (st.vmmUnmapPage dir virt).mem dir i = st.mem dir i) ∧
      (forall f, f ∉ dirFrames st.mem dir ->
        (st.vmmUnmapPage dir virt).mem f = st.mem f) ∧
      (spaceFrames st.mem dir).Perm
        (((entryAt st.mem dir (pdeIndex virt) (pteIndex virt)).map
          frame).toList ++ spaceFrames (st.vmmUnmapPage dir virt).mem dir) := by
  cases hpresent : present (st.mem dir (pdeIndex virt)) with
  | false =>
      rw [vmmUnmapPage_none hpresent, entryAt_absent _ hpresent]
      exact ⟨rfl, fun _ => rfl, fun _ _ => rfl, List.Perm.refl _⟩
  | true =>
      have hi : UserTable st.mem dir (pdeIndex virt) := ⟨hpresent, huser⟩
      have haccess : Unshared (st.access dir).mem dir := h
      rcases haccess.ownedFrames_store hi (pteIndex virt) 0 with
        ⟨hdir, hothers, hwords⟩
      have hself := (st.access dir).mem_store_self
        (frame (st.mem dir (pdeIndex virt))) (pteIndex virt) 0
      rw [mem_access] at hdir hothers hwords
      rw [vmmUnmapPage_table hpresent]
      refine ⟨rfl, hdir, ?_, ?_⟩
      · intro f hf
        funext k
        apply mem_store_other
        intro heq
        exact hf (Or.inr ⟨_, hpresent, heq⟩)
      · rw [entryAt_table _ hpresent (h.ok.small _ hpresent)]
        generalize ((st.access dir).store (frame (st.mem dir (pdeIndex virt)))
          (pteIndex virt) 0).mem = mem' at *
        apply spaceFrames_gain _ (pdeIndex virt)
          (fun k hk => (hothers k hk).symm)
        have htable := hdir (pdeIndex virt)
        have hi' : UserTable mem' dir (pdeIndex virt) := by
          unfold UserTable
          rw [htable]
          exact hi
        cases hpage : present (st.mem (frame (st.mem dir (pdeIndex virt)))
            (pteIndex virt)) with
        | true =>
            rw [if_neg (fun hne => hne rfl)]
            rw [← htable] at hwords hself hpage ⊢
            exact owned_gain hi' htable.symm (fun k hk => (hwords k hk).symm)
              (by rw [hself]; exact present_zero) hpage rfl
        | false =>
            rw [if_pos Bool.false_ne_true]
            have hpages : forall j,
                pageAt mem' (frame (st.mem dir (pdeIndex virt))) j =
                  pageAt st.mem (frame (st.mem dir (pdeIndex virt))) j := by
              intro j
              by_cases hj : j = pteIndex virt
              · unfold pageAt
                rw [hj, hself, hpage, present_zero]
                rfl
              · exact pageAt_congr (hwords j hj)
            have howned : ownedFrames mem' dir (pdeIndex virt) =
                ownedFrames st.mem dir (pdeIndex virt) := by
              unfold ownedFrames
              rw [if_pos hi, if_pos hi', htable, List.filterMap_congr (fun j _ => hpages j)]
            rw [howned]
            exact List.Perm.refl _

/-!
# Clones and their end
-/

/-- A clone takes frames for itself alone and shows what its source shows. -/
structure ClonesDir (src : UInt32) (st st' : Vmm alpha) : Prop where
  frames : exists n, st'.pmm = after st.pmm n ∧
    (spaceFrames st'.mem (answer st.pmm 0)).Perm (drawn st.pmm n)
  other : forall f, ¬ Given st.pmm f -> st'.mem f = st.mem f
  shows : image st'.mem (answer st.pmm 0) = image st.mem src
  kernel : forall i, pdeIndex kernelBase ≤ i ->
    st'.mem (answer st.pmm 0) i = st.mem src i
  ok : DirOk st'.mem (answer st.pmm 0)

theorem clones_dir {src : UInt32} (h : DirOk st.mem src)
    (hsupply : Supply st.pmm (dirFrames st.mem src))
    (hgood : forall m, m < cloneNeeds st.mem src ->
      answer st.pmm m ≠ 0 ∧ ¬ UserPage st.mem src (answer st.pmm m)) :
    ClonesDir src st (st.vmmCloneDir src).2 := by
  have hok : forall m, m < cloneNeeds st.mem src -> answer st.pmm m ≠ 0 :=
    fun m hm => (hgood m hm).left
  have hfirst : answer st.pmm 0 ≠ 0 :=
    hok 0 (Nat.lt_of_lt_of_le Nat.one_pos (Nat.le_add_right _ _))
  have hfaithful := faithful_of_good h hsupply hgood (fun _ _ => rfl)
  rw [withMem_self] at hfaithful
  have hok' := h.clone hsupply hok
  have howns := clone_owns hsupply hok
  rw [vmmCloneDir_first] at hok' howns
  constructor
  · rcases draws_vmmCloneDir st src with ⟨_, n, hpmm, htaken⟩
    refine ⟨n, hpmm, ?_⟩
    rw [htaken, ← List.singleton_append, ← List.append_assoc] at howns
    have hperm := ((List.perm_append_right_iff st.taken).mp howns).symm
    exact (List.perm_append_singleton _ _).symm.trans
      (hperm.trans (List.reverse_perm _))
  · intro f hf
    have hreads := readsDir_first hsupply (fun f _ => rfl)
    rw [withMem_self] at hreads
    rw [vmmCloneDir_loop hfirst]
    funext k
    apply hreads.cloneTables_keep (dirApart_first hsupply hfirst) hsupply.next
    · left
      intro heq
      exact hf (heq ▸ given_first hfirst)
    · exact fun hg => hf hg.of_next
  · funext i j
    unfold image
    by_cases hi : i < pdeIndex kernelBase
    · rw [if_pos hi, if_pos hi]
      cases hentry : entryAt st.mem src i j with
      | none =>
          rw [hfaithful.absent i j hi hentry]
          rfl
      | some pte =>
          rcases hfaithful.page i j pte hi hentry with
            ⟨pte', hpte, hflags, _, hwords, _⟩
          rw [hpte, Option.map_some, Option.map_some]
          unfold pageOf
          rw [hflags, hwords]
    · rw [if_neg hi, if_neg hi]
  · exact hfaithful.kernel
  · exact hok'

/-- The frames that a call has freed went to the allocator in that order. -/
def Returns (st st' : Vmm alpha) : Prop :=
  exists pages : List UInt32, st'.freed = pages.reverse ++ st.freed ∧
    st'.pmm = pages.foldl PageAllocator.pmmFreePage st.pmm

theorem Returns.trans {st'' : Vmm alpha} (h : Returns st st')
    (h' : Returns st' st'') : Returns st st'' := by
  rcases h with ⟨pages, hfreed, hpmm⟩
  rcases h' with ⟨pages', hfreed', hpmm'⟩
  refine ⟨pages ++ pages', ?_, ?_⟩
  · rw [hfreed', hfreed, List.reverse_append, List.append_assoc]
  · rw [hpmm', hpmm, List.foldl_append]

theorem returns_access (st : Vmm alpha) (address : UInt32) :
    Returns st (st.access address) :=
  ⟨[], rfl, rfl⟩

theorem returns_pmmFreePage (st : Vmm alpha) (phys : UInt32) :
    Returns st (st.pmmFreePage phys) :=
  ⟨[phys], rfl, rfl⟩

theorem returns_foldl {beta : Type} {step : Vmm alpha -> beta -> Vmm alpha}
    (hstep : forall st x, Returns st (step st x)) (l : List beta) :
    Returns st (l.foldl step st) := by
  induction l generalizing st with
  | nil => exact ⟨[], rfl, rfl⟩
  | cons x l ih => exact (hstep st x).trans ih

theorem returns_destroyPage (pt : UInt32) (st : Vmm alpha) (j : Fin 1024) :
    Returns st (destroyPage pt st j) := by
  have haccess := returns_access st pt
  unfold destroyPage
  dsimp only
  split
  · exact haccess.trans (returns_pmmFreePage _ _)
  · exact haccess

theorem returns_destroyTable (st : Vmm alpha) (i : Fin 1024) :
    Returns st (destroyTable dir st i) := by
  have haccess := returns_access st dir
  unfold destroyTable
  dsimp only
  split
  · exact haccess
  · exact (haccess.trans (returns_foldl (returns_destroyPage _) _)).trans
      (returns_pmmFreePage _ _)

/-- The end of a directory gives each of its frames back, and writes nothing. -/
theorem destroys_dir (st : Vmm alpha) (dir : UInt32) :
    (st.vmmDestroyDir dir).mem = st.mem ∧
      exists pages : List UInt32, pages.Perm (spaceFrames st.mem dir) ∧
        (st.vmmDestroyDir dir).pmm =
          pages.foldl PageAllocator.pmmFreePage st.pmm := by
  have hfrees := frees_vmmDestroyDir st dir
  have hreturns : Returns st (st.vmmDestroyDir dir) :=
    (returns_foldl returns_destroyTable userIndices).trans
      (returns_pmmFreePage _ _)
  rcases hreturns with ⟨pages, hfreed, hpmm⟩
  refine ⟨hfrees.mem, pages, ?_, hpmm⟩
  have hperm := hfrees.freed
  rw [hfreed] at hperm
  exact (List.reverse_perm pages).symm.trans
    (((List.perm_append_right_iff st.freed).mp hperm).trans
      (List.perm_append_singleton _ _))

end Calls

end Vmm
end Mm
end EarlnuxOS
