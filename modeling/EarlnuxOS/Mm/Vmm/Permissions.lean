import EarlnuxOS.Mm.Vmm.Translation

/-!
# Effective permissions

The processor grants an access when both entries of a page allow it.  The entry
of a table allows every write, but user access only if the call that created
the table asked for it.
-/

namespace EarlnuxOS
namespace Mm

open Foundation

universe u

/-- `entry & bit` -/
def allows (bit entry : UInt32) : Bool := entry &&& bit != 0

/-- The access that the walk over directory and table grants. -/
def grants (bit : UInt32) (mem : Frames) (dir virt : UInt32) : Bool :=
  let pde := mem dir (pdeIndex virt)
  let pte := mem (frame pde) (pteIndex virt)
  present pde && present pte && allows bit pde && allows bit pte

abbrev Requests := UInt32 -> Option UInt32

def Requests.empty : Requests := fun _ => none

def Requests.step (r : Requests) : MapOp × Int -> Requests
  | (MapOp.map virt _ flags, result) =>
      if result = 0 then Function.update r (frame virt) (some flags) else r
  | (MapOp.unmap virt, _) => Function.update r (frame virt) none

/-- Each mapped page has the permissions that were asked for. -/
def Permits (mem : Frames) (dir : UInt32) (r : Requests) : Prop :=
  forall virt flags, r (frame virt) = some flags ->
    grants pteUser mem dir virt = allows pteUser flags ∧
      grants pteWrite mem dir virt = allows pteWrite flags

/-!
# The bits of the entries
-/

theorem allows_mapEntry {bit : UInt32} (phys flags : UInt32)
    (hlow : pteAddrMask &&& bit = 0) (hpresent : ptePresent &&& bit = 0)
    (hbit : (pteWrite ||| pteUser ||| pteNocache ||| pteWritethrough |||
      pteGlobal) &&& bit = bit) :
    allows bit (mapEntry phys flags) = allows bit flags := by
  unfold allows
  rw [mapEntry_eq, low_or _ _ _ hlow, or_and, UInt32.and_assoc flags, hpresent,
    hbit, UInt32.zero_or]

theorem user_mapEntry (phys flags : UInt32) :
    allows pteUser (mapEntry phys flags) = allows pteUser flags :=
  allows_mapEntry phys flags (by decide) (by decide) (by decide)

theorem write_mapEntry (phys flags : UInt32) :
    allows pteWrite (mapEntry phys flags) = allows pteWrite flags :=
  allows_mapEntry phys flags (by decide) (by decide) (by decide)

theorem user_tableEntry (pt flags : UInt32) :
    allows pteUser (tableEntry pt flags) = allows pteUser flags := by
  have hrest : (ptePresent ||| pteWrite) &&& pteUser = 0 := by decide
  unfold allows
  rw [tableEntry_eq, low_or _ _ _ (by decide), or_and, hrest,
    UInt32.and_assoc, UInt32.and_self, UInt32.zero_or]

theorem write_tableEntry (pt flags : UInt32) :
    allows pteWrite (tableEntry pt flags) = true := by
  have huser : flags &&& pteUser &&& pteWrite = 0 := by
    rw [UInt32.and_assoc]
    exact UInt32.and_zero
  unfold allows
  rw [tableEntry_eq, low_or _ _ _ (by decide), or_and, huser]
  decide

namespace Vmm

variable {alpha : Type u} [PageAllocator alpha] {st : Vmm alpha}
  {dir : UInt32}

/-!
# What a call does to the directory
-/

theorem vmmMapPage_dir (h : TableInv st.mem dir) (hfresh : Fresh dir st)
    {virt phys flags : UInt32}
    (hresult : (st.vmmMapPage dir virt phys flags).1 = 0) :
    exists page, forall i,
      (st.vmmMapPage dir virt phys flags).2.mem dir i =
        if i = pdeIndex virt ∧ present (st.mem dir i) = false then
          tableEntry page flags
        else st.mem dir i := by
  cases htable : present (st.mem dir (pdeIndex virt)) with
  | true =>
      refine ⟨0, fun i => ?_⟩
      rw [vmmMapPage_table phys flags htable,
        mem_store_other _ _ _ i (h.apart _ htable).symm, if_neg]
      · rfl
      · rintro ⟨rfl, hnone⟩
        rw [htable] at hnone
        cases hnone
  | false =>
      by_cases hnone : (st.access dir).allocPageTable.1 = 0
      · rw [vmmMapPage_fail phys flags htable hnone] at hresult
        cases hresult
      · rw [allocPageTable_eq] at hnone
        rcases hfresh with hzero | ⟨_, hdir, _⟩
        · exact absurd hzero hnone
        refine ⟨(PageAllocator.pmmAllocPage st.pmm).1, fun i => ?_⟩
        rw [mem_vmmMapPage_dir phys flags htable rfl hnone hdir]
        by_cases hi : i = pdeIndex virt
        · rw [if_pos hi, hi, if_pos ⟨rfl, htable⟩]
        · rw [if_neg hi, if_neg (fun hp => hi hp.left)]

omit [PageAllocator alpha] in
theorem vmmUnmapPage_dir (h : TableInv st.mem dir) (virt : UInt32)
    (i : Fin 1024) : (st.vmmUnmapPage dir virt).mem dir i = st.mem dir i := by
  cases htable : present (st.mem dir (pdeIndex virt)) with
  | true =>
      rw [vmmUnmapPage_table htable]
      exact mem_store_other _ _ _ i (h.apart _ htable).symm
  | false => rw [vmmUnmapPage_none htable, mem_access]

/-!
# What the entries record
-/

/-- The tables' entries allow writing, and the pages' entries have their flags. -/
structure Records (mem : Frames) (dir : UInt32) (r : Requests) : Prop where
  tables : TableInv mem dir
  write : forall i, present (mem dir i) = true ->
    allows pteWrite (mem dir i) = true
  pages : forall virt flags, r (frame virt) = some flags -> exists phys,
    entryAt mem dir (pdeIndex virt) (pteIndex virt) =
      some (mapEntry phys flags)

theorem Records.empty {mem : Frames} (h : forall i, mem dir i = 0) :
    Records mem dir Requests.empty where
  tables := tableInv_zero h
  write := by
    intro i hi
    rw [h i, present_zero] at hi
    cases hi
  pages := fun virt flags hr => by cases hr

theorem Records.present_pde {mem : Frames} {r : Requests}
    (h : Records mem dir r) {virt flags : UInt32}
    (hr : r (frame virt) = some flags) :
    present (mem dir (pdeIndex virt)) = true := by
  rcases h.pages virt flags hr with ⟨phys, hentry⟩
  by_contra habsent
  rw [entryAt_absent _ (Bool.eq_false_of_not_eq_true habsent)] at hentry
  cases hentry

theorem Records.grants_eq {mem : Frames} {r : Requests}
    (h : Records mem dir r) {virt flags : UInt32}
    (hr : r (frame virt) = some flags) {bit : UInt32}
    (hbit : forall phys, allows bit (mapEntry phys flags) = allows bit flags) :
    grants bit mem dir virt =
      (allows bit (mem dir (pdeIndex virt)) && allows bit flags) := by
  have hpde := h.present_pde hr
  rcases h.pages virt flags hr with ⟨phys, hentry⟩
  rw [entryAt_table _ hpde (h.tables.small _ hpde)] at hentry
  split at hentry
  · cases hentry
  · rename_i hpte
    rw [not_not] at hpte
    unfold grants
    dsimp only
    rw [hpde, hpte, Option.some.inj hentry, hbit]
    rfl

theorem Records.permits_iff {mem : Frames} {r : Requests}
    (h : Records mem dir r) :
    Permits mem dir r <-> forall virt flags, r (frame virt) = some flags ->
      allows pteUser flags = true ->
        allows pteUser (mem dir (pdeIndex virt)) = true := by
  constructor
  · intro hpermits virt flags hr huser
    have hgrant := (hpermits virt flags hr).left
    rw [h.grants_eq hr (fun phys => user_mapEntry phys flags), huser,
      Bool.and_true] at hgrant
    exact hgrant
  · intro hall virt flags hr
    have hpde := h.present_pde hr
    rw [h.grants_eq hr (fun phys => user_mapEntry phys flags),
      h.grants_eq hr (fun phys => write_mapEntry phys flags),
      h.write _ hpde, Bool.true_and]
    refine ⟨?_, rfl⟩
    cases huser : allows pteUser flags with
    | false => exact Bool.and_false _
    | true => rw [hall virt flags hr huser, Bool.and_true]

/-!
# Calls
-/

/--
A page is mapped for the user in a region whose table allows user access, or in
one that has no table yet.
-/
def MapsAllowed (dir : UInt32) (st : Vmm alpha) : MapOp -> Prop
  | MapOp.map virt _ flags =>
      allows pteUser flags = true ->
        present (st.mem dir (pdeIndex virt)) = true ->
          allows pteUser (st.mem dir (pdeIndex virt)) = true
  | MapOp.unmap _ => True

theorem Records.map {r : Requests} (h : Records st.mem dir r)
    (hfresh : Fresh dir st) {virt phys flags : UInt32}
    (hresult : (st.vmmMapPage dir virt phys flags).1 = 0) :
    Records (st.vmmMapPage dir virt phys flags).2.mem dir
      (Function.update r (frame virt) (some flags)) := by
  rcases vmmMapPage_cases h.tables hfresh virt phys flags with
    ⟨hfail, _⟩ | ⟨_, htables, hentry⟩
  · rw [hresult] at hfail
    cases hfail
  rcases vmmMapPage_dir h.tables hfresh hresult with ⟨page, hdir⟩
  refine ⟨htables, ?_, ?_⟩
  · intro i hi
    rw [hdir] at hi ⊢
    split
    · exact write_tableEntry page flags
    · rename_i hsame
      rw [if_neg hsame] at hi
      exact h.write i hi
  · intro v fl hr
    rw [hentry]
    rw [Function.update_apply] at hr
    by_cases hsame : frame v = frame virt
    · rw [if_pos hsame] at hr
      cases hr
      exact ⟨phys, if_pos ((frame_eq_iff v virt).mp hsame)⟩
    · rw [if_neg hsame] at hr
      rcases h.pages v fl hr with ⟨phys', hold⟩
      exact ⟨phys', (if_neg fun hi =>
        hsame ((frame_eq_iff v virt).mpr hi)).trans hold⟩

omit [PageAllocator alpha] in
theorem Records.unmap {r : Requests} (h : Records st.mem dir r)
    (virt : UInt32) :
    Records (st.vmmUnmapPage dir virt).mem dir
      (Function.update r (frame virt) none) := by
  rcases vmmUnmapPage_entryAt h.tables virt with ⟨htables, hentry⟩
  refine ⟨htables, ?_, ?_⟩
  · intro i hi
    rw [vmmUnmapPage_dir h.tables] at hi ⊢
    exact h.write i hi
  · intro v fl hr
    rw [hentry]
    rw [Function.update_apply] at hr
    by_cases hsame : frame v = frame virt
    · rw [if_pos hsame] at hr
      cases hr
    · rw [if_neg hsame] at hr
      rcases h.pages v fl hr with ⟨phys, hold⟩
      exact ⟨phys, (if_neg fun hi =>
        hsame ((frame_eq_iff v virt).mpr hi)).trans hold⟩

/-- A mapping keeps the others' permissions, and gets its own if it is allowed. -/
theorem Permits.map_iff {r : Requests} (h : Records st.mem dir r)
    (hpermits : Permits st.mem dir r) (hfresh : Fresh dir st)
    {virt phys flags : UInt32}
    (hresult : (st.vmmMapPage dir virt phys flags).1 = 0) :
    MapsAllowed dir st (MapOp.map virt phys flags) <->
      Permits (st.vmmMapPage dir virt phys flags).2.mem dir
        (Function.update r (frame virt) (some flags)) := by
  rw [h.permits_iff] at hpermits
  rw [(h.map hfresh hresult).permits_iff]
  rcases vmmMapPage_dir h.tables hfresh hresult with ⟨page, hdir⟩
  constructor
  · intro hallowed v fl hr huser
    rw [hdir]
    rw [Function.update_apply] at hr
    by_cases hsame : frame v = frame virt
    · rw [if_pos hsame] at hr
      cases hr
      have hindex := ((frame_eq_iff v virt).mp hsame).left
      rw [hindex]
      split
      · rw [user_tableEntry]
        exact huser
      · rename_i hold
        refine hallowed huser ?_
        by_contra habsent
        exact hold ⟨rfl, Bool.eq_false_of_not_eq_true habsent⟩
    · rw [if_neg hsame] at hr
      rw [if_neg]
      · exact hpermits v fl hr huser
      · rintro ⟨_, habsent⟩
        rw [h.present_pde hr] at habsent
        cases habsent
  · intro hall huser hpresent
    have hgrant := hall virt flags (Function.update_self _ _ _) huser
    rw [hdir, if_neg] at hgrant
    · exact hgrant
    · rintro ⟨_, habsent⟩
      rw [hpresent] at habsent
      cases habsent

/-!
# Runs
-/

def requests (dir : UInt32) (st : Vmm alpha) (ops : List MapOp) : Requests :=
  (mapTrace dir st ops).foldl Requests.step Requests.empty

theorem permits_exec {r : Requests} {o : MapOp} (h : Records st.mem dir r)
    (hpermits : Permits st.mem dir r) (hfresh : FreshFor dir st o) :
    Records (execMap dir st o).mem dir (r.step (o, mapResult dir st o)) ∧
      (MapsAllowed dir st o <->
        Permits (execMap dir st o).mem dir
          (r.step (o, mapResult dir st o))) := by
  cases o with
  | map virt phys flags =>
      unfold execMap mapResult Requests.step
      dsimp only
      rcases vmmMapPage_cases h.tables hfresh virt phys flags with
        ⟨hresult, hmem⟩ | ⟨hresult, _, _⟩
      · rw [hresult, if_neg (by decide), hmem]
        refine ⟨h, iff_of_true ?_ hpermits⟩
        intro _ hpresent
        rw [vmmMapPage_table phys flags hpresent] at hresult
        cases hresult
      · rw [hresult, if_pos rfl]
        exact ⟨Records.map h hfresh hresult,
          Permits.map_iff h hpermits hfresh hresult⟩
  | unmap virt =>
      refine ⟨h.unmap virt, iff_of_true trivial ?_⟩
      have hnext := h.unmap virt
      rw [h.permits_iff] at hpermits
      show Permits (st.vmmUnmapPage dir virt).mem dir
        (Function.update r (frame virt) none)
      rw [hnext.permits_iff]
      intro v fl hr huser
      rw [vmmUnmapPage_dir h.tables]
      rw [Function.update_apply] at hr
      split at hr
      · cases hr
      · exact hpermits v fl hr huser

theorem permits_run {r : Requests} {ops : List MapOp}
    (h : Records st.mem dir r) (hpermits : Permits st.mem dir r)
    (hmeets : Meets (execMap dir) (FreshFor dir) st ops) :
    (forall first, first <+: ops ->
      Permits (run (execMap dir) st first).mem dir
        ((mapTrace dir st first).foldl Requests.step r)) <->
      Meets (execMap dir) (MapsAllowed dir) st ops := by
  induction ops generalizing st r with
  | nil =>
      refine iff_of_true ?_ trivial
      intro first hfirst
      rw [List.prefix_nil.mp hfirst]
      exact hpermits
  | cons o ops ih =>
      rcases permits_exec h hpermits hmeets.left with ⟨hnext, hallowed⟩
      rw [meets_cons, hallowed]
      constructor
      · intro hall
        have hone := hall [o] ⟨ops, rfl⟩
        refine ⟨hone, (ih hnext hone hmeets.right).mp ?_⟩
        intro first hfirst
        exact hall (o :: first) (List.cons_prefix_cons.mpr ⟨rfl, hfirst⟩)
      · rintro ⟨hone, hrest⟩ first hfirst
        cases first with
        | nil => exact hpermits
        | cons o' first =>
            rcases List.cons_prefix_cons.mp hfirst with ⟨rfl, htail⟩
            exact (ih hnext hone hmeets.right).mpr hrest first htail

/--
All along a run from an empty directory the pages have the permissions asked
for exactly when no page is mapped for the user into a table of the supervisor.
-/
theorem permissions_iff (dir : UInt32) {st : Vmm alpha}
    (hzero : forall i, st.mem dir i = 0) {ops : List MapOp}
    (hmeets : Meets (execMap dir) (FreshFor dir) st ops) :
    (forall first, first <+: ops ->
      Permits (run (execMap dir) st first).mem dir (requests dir st first)) <->
      Meets (execMap dir) (MapsAllowed dir) st ops := by
  have hempty : Permits st.mem dir Requests.empty :=
    fun virt flags hr => by cases hr
  exact permits_run (Records.empty hzero) hempty hmeets

theorem absent_cleared (frames : List UInt32) (dir : UInt32) (i : Fin 1024) :
    ¬ present ((cleared frames).mem dir i) = true :=
  fun hi => Bool.false_ne_true (present_zero.symm.trans hi)

/-- A page of the user, and one of the supervisor in the same region. -/
def userFirst : List MapOp :=
  [MapOp.map 0x400000 0x9000 7, MapOp.map 0x401000 0xA000 3]

theorem permissions_userFirst :
    Permits (run (execMap 0x100000) (cleared [0x5000]) userFirst).mem 0x100000
      (requests 0x100000 (cleared [0x5000]) userFirst) := by
  have hmeets : Meets (execMap 0x100000) (FreshFor 0x100000)
      (cleared [0x5000]) userFirst :=
    ⟨Or.inr ⟨by decide, by decide, fun i hi => absurd hi (absent_cleared _ _ i)⟩,
      Or.inl (by decide +kernel), trivial⟩
  refine (permissions_iff 0x100000 (fun _ => rfl) hmeets).mpr ?_ userFirst
    List.prefix_rfl
  exact ⟨fun _ hi => absurd hi (absent_cleared _ _ _),
    fun huser => absurd huser (by decide), trivial⟩

def userSecond : List MapOp :=
  [MapOp.map 0x401000 0xA000 3, MapOp.map 0x400000 0x9000 7]

theorem user_in_supervisor_table :
    ¬ forall (dir : UInt32) (st : Vmm (List UInt32)) (ops : List MapOp),
      (forall i, st.mem dir i = 0) ->
      Meets (execMap dir) (FreshFor dir) st ops ->
      Permits (run (execMap dir) st ops).mem dir (requests dir st ops) := by
  intro hall
  have hmeets : Meets (execMap 0x100000) (FreshFor 0x100000)
      (cleared [0x5000]) userSecond :=
    ⟨Or.inr ⟨by decide, by decide, fun i hi => absurd hi (absent_cleared _ _ i)⟩,
      Or.inl (by decide +kernel), trivial⟩
  have hpermits := hall 0x100000 (cleared [0x5000]) userSecond (fun _ => rfl)
    hmeets 0x400000 7 (by decide +kernel)
  exact absurd hpermits.left (by decide +kernel)

end Vmm
end Mm
end EarlnuxOS
