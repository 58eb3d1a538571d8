import EarlnuxOS.Mm.Pmm.Coalescing
import EarlnuxOS.Mm.Pmm.DoubleInsertion

/-!
# What `pmm_init` puts on the free lists

For a map whose entries survive the cut to 32 bits, the zones hold the frames
of the usable entries exactly once if and only if each entry starts below
16 MB and ends by 896 MB, or lies between 896 MB and 1 GB.  An entry that
starts in NORMAL is freed twice, one that reaches from below 16 MB into HIGHMEM
loses the part there, and one above 1 GB has no descriptors.
-/

namespace EarlnuxOS
namespace Mm

open Foundation

/-!
# Memory maps
-/

namespace MemMapEntry

def bytes (e : MemMapEntry) : Set Nat :=
  Set.Ico e.base.toNat (e.base.toNat + e.length.toNat)

/-- The 4 KB of the frame lie wholly inside the usable entry. -/
def Whole (e : MemMapEntry) (f : Nat) : Prop :=
  e.type = memtypeUsable ∧ e.base.toNat ≤ f * 4096 ∧
    (f + 1) * 4096 ≤ e.base.toNat + e.length.toNat

/--
The cut to 32 bits and the rounding leave the entry its own frames, as far as
`page_array` reaches.
-/
def Undistorted (e : MemMapEntry) : Prop :=
  forall f, 256 ≤ f -> f < pageArraySize -> (f ∈ e.pages <-> e.Whole f)

def InOneZone (e : MemMapEntry) : Prop :=
  (e.pfnStart < 4096 ∧ e.pfnEnd ≤ 229376) ∨
    (229376 ≤ e.pfnStart ∧ e.pfnEnd ≤ pageArraySize)

theorem undistorted_of_lt {e : MemMapEntry} (hbase : e.base.toNat ≤ 0xFFFFF000)
    (hend : e.base.toNat + e.length.toNat < 2 ^ 32) : e.Undistorted := by
  have hsum : (e.base + e.length).toNat = e.base.toNat + e.length.toNat := by
    rw [UInt64.toNat_add]
    exact Nat.mod_eq_of_lt (by omega)
  have hup : (alignUp e.base.toUInt32 pageSize).toNat =
      (e.base.toNat + 4095) / 4096 * 4096 := by
    rw [toNat_alignUp (k := 12) _ (by decide) rfl, UInt64.toNat_toUInt32]
    omega
  have hstart : e.pfnStart = max 256 ((e.base.toNat + 4095) / 4096) := by
    unfold pfnStart start
    dsimp only
    rw [physToPfn_eq]
    split
    · rename_i hlow
      rw [UInt32.lt_iff_toNat_lt, hup] at hlow
      change _ < 0x100000 at hlow
      show 0x100000 / 4096 = _
      omega
    · rename_i hlow
      rw [UInt32.lt_iff_toNat_lt, hup] at hlow
      change ¬ _ < 0x100000 at hlow
      rw [hup]
      omega
  have hstop : e.pfnEnd = (e.base.toNat + e.length.toNat) / 4096 := by
    unfold pfnEnd stop
    rw [physToPfn_eq, toNat_alignDown (k := 12) _ (by decide) rfl,
      UInt64.toNat_toUInt32, hsum]
    omega
  intro f hlo _
  constructor
  · intro hf
    rcases hf with ⟨htaken, hge, hlt⟩
    rw [hstart] at hge
    rw [hstop] at hlt
    exact ⟨htaken.left, by omega, by omega⟩
  · intro hf
    rcases hf with ⟨htype, hge, hle⟩
    have hpages : e.pfnStart ≤ f ∧ f < e.pfnEnd := by
      rw [hstart, hstop]
      omega
    refine ⟨⟨htype, ?_, ?_⟩, hpages⟩
    · rw [UInt64.le_iff_toNat_le, hsum]
      show ¬ _ ≤ 0x100000
      omega
    · intro hle
      rw [UInt32.le_iff_toNat_le] at hle
      have hmono : e.pfnEnd ≤ e.pfnStart := by
        unfold pfnEnd pfnStart
        rw [physToPfn_eq, physToPfn_eq]
        exact Nat.div_le_div_right hle
      omega

theorem InOneZone.placedOnce {e : MemMapEntry} (h : e.InOneZone) :
    e.PlacedOnce := by
  rcases h with ⟨hdma, _⟩ | hhigh
  · exact Or.inl hdma
  · exact Or.inr hhigh

end MemMapEntry

/-- No entry wraps 64 bits and the usable entries are pairwise disjoint. -/
structure ValidMap (map : List MemMapEntry) : Prop where
  nowrap : forall e, e ∈ map -> e.base.toNat + e.length.toNat < 2 ^ 64
  disjoint : map.Pairwise fun e e' =>
    e.type = memtypeUsable -> e'.type = memtypeUsable ->
      Disjoint e.bytes e'.bytes

/-- The zones hold exactly the whole frames of the map, each of them once. -/
structure Populated (map : List MemMapEntry) (s : Pmm) : Prop where
  inside : s.pages.outside = false
  covered : forall f, 512 ≤ f -> f < pageArraySize ->
    ((exists id b, b ∈ freeBlocks (s.zoned id) ∧ f ∈ b.units) <->
      exists e, e ∈ map ∧ e.Whole f)
  once : forall f, 512 ≤ f -> f < pageArraySize -> forall id id' b b',
    b ∈ freeBlocks (s.zoned id) -> b' ∈ freeBlocks (s.zoned id') ->
      f ∈ b.units -> f ∈ b'.units -> id = id' ∧ b = b'
  finite : forall id k, k ≤ pmmMaxOrder -> exists l,
    Chain (s.zoned id).next ((s.zoned id).zone.freeList k) l ∧ l.Nodup

theorem pagesApart_of_valid {map : List MemMapEntry} (hmap : ValidMap map)
    (hexact : forall e, e ∈ map -> e.Undistorted) :
    map.Pairwise PagesApart := by
  apply hmap.disjoint.imp_of_mem
  intro e e' he he' hdisjoint f hsize hf hf'
  have hlo : 256 ≤ f := Nat.le_trans e.le_pfnStart hf.right.left
  rcases (hexact e he f hlo hsize).mp hf with ⟨htype, hbase, hend⟩
  rcases (hexact e' he' f hlo hsize).mp hf' with ⟨htype', hbase', hend'⟩
  have hbyte : f * 4096 ∈ e.bytes := ⟨hbase, by omega⟩
  have hbyte' : f * 4096 ∈ e'.bytes := ⟨hbase', by omega⟩
  exact Set.disjoint_left.mp (hdisjoint htype htype') hbyte hbyte'

/-!
# Reserving the kernel image moves no block
-/

theorem markKernel_next (a : PageArray) (pfn count x : Nat) :
    ((markKernel a pfn count).page x).next = (a.page x).next := by
  induction count generalizing a pfn with
  | zero => rfl
  | succ count ih =>
      unfold markKernel
      rw [ih]
      unfold PageArray.modify
      simp only [Function.update_apply]
      split
      · rename_i hx
        rw [hx]
      · rfl

theorem markKernel_outside (a : PageArray) (pfn count : Nat)
    (h : pfn + count ≤ pageArraySize) :
    (markKernel a pfn count).outside = a.outside := by
  induction count generalizing a pfn with
  | zero => rfl
  | succ count ih =>
      unfold markKernel
      rw [ih _ _ (by omega)]
      show (a.outside || decide (pageArraySize ≤ pfn)) = a.outside
      rw [decide_eq_false (by omega), Bool.or_false]

theorem Populated.congr {map : List MemMapEntry} {s s' : Pmm}
    (h : Populated map s) (hzones : s'.zones = s.zones)
    (hnext : forall x, (s'.pages.page x).next = (s.pages.page x).next)
    (houtside : s'.pages.outside = s.pages.outside) : Populated map s' := by
  have hlinks : forall id, (s'.zoned id).next = (s.zoned id).next :=
    fun _ => funext hnext
  have hblocks : forall id, freeBlocks (s'.zoned id) =
      freeBlocks (s.zoned id) := by
    intro id
    unfold freeBlocks
    rw [hlinks]
    unfold Pmm.zoned
    rw [hzones]
  exact {
    inside := houtside.trans h.inside
    covered := by
      intro f hlo hsize
      simp only [hblocks]
      exact h.covered f hlo hsize
    once := by
      intro f hlo hsize id id' b b' hb hb'
      rw [hblocks] at hb hb'
      exact h.once f hlo hsize id id' b b' hb hb'
    finite := by
      intro id k hk
      rw [hlinks]
      unfold Pmm.zoned
      rw [hzones]
      exact h.finite id k hk }

theorem pmmInit_next (s : Pmm) (map : List MemMapEntry) (x : Nat) :
    ((s.pmmInit map).pages.page x).next =
      ((map.foldl Pmm.addEntry s.initZones).pages.page x).next := by
  unfold Pmm.pmmInit Pmm.reserveKernel Pmm.setPages
  dsimp only
  rw [markKernel_next]

theorem pmmInit_outside (s : Pmm) (map : List MemMapEntry) :
    (s.pmmInit map).pages.outside =
      (map.foldl Pmm.addEntry s.initZones).pages.outside := by
  unfold Pmm.pmmInit Pmm.reserveKernel Pmm.setPages
  dsimp only
  rw [markKernel_outside _ _ _ (by decide)]

theorem populated_pmmInit (map : List MemMapEntry) :
    Populated map (Pmm.boot.pmmInit map) <->
      Populated map (map.foldl Pmm.addEntry Pmm.boot.initZones) := by
  have hzones := Pmm.pmmInit_zones Pmm.boot map
  have hnext := pmmInit_next Pmm.boot map
  have houtside := pmmInit_outside Pmm.boot map
  constructor
  · intro h
    exact h.congr hzones.symm (fun x => (hnext x).symm) houtside.symm
  · intro h
    exact h.congr hzones hnext houtside

/-!
# Entries that lie in one zone
-/

theorem MemMapEntry.InOneZone.placed_eq {e : MemMapEntry}
    (h : e.Taken -> e.InOneZone) : e.placed = e.pages := by
  ext f
  constructor
  · intro hf
    rcases hf with ⟨htaken, r, hr, hf⟩
    rcases (h htaken).placedOnce.mem_placements hr hf with ⟨hlo, hhi, _⟩
    exact ⟨htaken, hlo, hhi⟩
  · intro hf
    rcases hf with ⟨htaken, hlo, hhi⟩
    refine ⟨htaken, ?_⟩
    rcases h htaken with ⟨hdma, hend⟩ | ⟨hhigh, _⟩
    · rw [MemMapEntry.placed_dma hdma]
      by_cases hf : f < 4096
      · refine ⟨_, List.mem_cons_self, ?_⟩
        rw [Set.mem_Ico]
        simp only
        omega
      · refine ⟨_, List.mem_cons_of_mem _ (List.mem_singleton_self _), ?_⟩
        rw [Set.mem_Ico]
        simp only
        omega
    · rw [MemMapEntry.placed_highmem hhigh]
      exact ⟨_, List.mem_singleton_self _, hlo, hhi⟩

theorem filled_inv {map : List MemMapEntry}
    (hapart : map.Pairwise PagesApart)
    (honce : forall e, e ∈ map -> e.Taken -> e.PlacedOnce) :
    exists owned lists,
      PmmInv owned lists (map.foldl Pmm.addEntry Pmm.boot.initZones) ∧
      forall f, (exists id, f ∈ owned id) <->
        exists e, e ∈ map ∧ f ∈ e.placed := by
  rcases PmmInv.boot.addEntries honce hapart
    (fun _ _ _ _ _ _ hf => hf.elim) with ⟨owned, lists, hinv, hcover⟩
  refine ⟨owned, lists, hinv, ?_⟩
  intro f
  rw [hcover f]
  simp

theorem PmmInv.mem_free {owned : ZoneId -> Set Nat}
    {lists : ZoneId -> Nat -> List Nat} {s : Pmm}
    (h : PmmInv owned lists s) (id : ZoneId) (f : Nat) :
    (exists b, b ∈ freeBlocks (s.zoned id) ∧ f ∈ b.units) <->
      f ∈ owned id := by
  rw [(h.zone id).freeBlocks_eq, (h.zone id).tiles.cover f, Set.union_empty]

theorem populated_of_inOneZone {map : List MemMapEntry}
    (hapart : map.Pairwise PagesApart)
    (hexact : forall e, e ∈ map -> e.Undistorted)
    (hzone : forall e, e ∈ map -> e.Taken -> e.InOneZone) :
    Populated map (map.foldl Pmm.addEntry Pmm.boot.initZones) := by
  rcases filled_inv hapart
    (fun e he htaken => (hzone e he htaken).placedOnce) with
    ⟨owned, lists, hinv, hcover⟩
  exact {
    inside := hinv.inside
    covered := by
      intro f hlo hsize
      simp only [hinv.mem_free, hcover f]
      constructor
      · intro hf
        rcases hf with ⟨e, he, hf⟩
        rw [MemMapEntry.InOneZone.placed_eq (hzone e he)] at hf
        exact ⟨e, he, (hexact e he f (by omega) hsize).mp hf⟩
      · intro hf
        rcases hf with ⟨e, he, hf⟩
        refine ⟨e, he, ?_⟩
        rw [MemMapEntry.InOneZone.placed_eq (hzone e he)]
        exact (hexact e he f (by omega) hsize).mpr hf
    once := by
      intro f _ _ id id' b b' hb hb' hf hf'
      have hown := (hinv.mem_free id f).mp ⟨b, hb, hf⟩
      have hown' := (hinv.mem_free id' f).mp ⟨b', hb', hf'⟩
      have hid : id = id' := by
        by_contra hne
        exact Set.disjoint_left.mp (hinv.apart id id' hne) hown hown'
      subst hid
      rw [(hinv.zone id).freeBlocks_eq] at hb hb'
      exact ⟨rfl, (hinv.zone id).tiles.disjoint b b' (Or.inl hb)
        (Or.inl hb') f hf hf'⟩
    finite := by
      intro id k hk
      have hlinked := (hinv.zone id).linked k hk
      exact ⟨_, hlinked.chain, hlinked.nodup⟩ }

/-!
# Entries above 1 GB
-/

theorem outside_push {z : Zoned} (h : z.pages.outside = true)
    (pfn order : Nat) : (z.pushFree pfn order).pages.outside = true := by
  rw [pushFree_outside, h]
  rfl

theorem outside_freeRange {z : Zoned} {endPfn : Nat} (pfn : Nat)
    (h : z.pages.outside = true) :
    (buddyFreeRange z pfn endPfn).pages.outside = true := by
  induction pfn using range_induction endPfn generalizing z with
  | done pfn hle =>
      rw [buddyFreeRange_of_le z hle]
      exact h
  | step pfn hlt ih =>
      rw [buddyFreeRange_of_lt z hlt]
      exact ih (outside_push h _ _)

/-- A range that passes the end of `page_array` has a block that starts there. -/
theorem freeRange_outside {z : Zoned} {endPfn : Nat} (pfn : Nat)
    (hlt : pfn < endPfn) (hend : pageArraySize < endPfn) :
    (buddyFreeRange z pfn endPfn).pages.outside = true := by
  induction pfn using range_induction endPfn generalizing z with
  | done pfn hle => omega
  | step pfn hstep ih =>
      rw [buddyFreeRange_of_lt z hstep]
      by_cases hpfn : pageArraySize ≤ pfn
      · apply outside_freeRange
        rw [pushFree_outside, decide_eq_true hpfn]
        simp
      · apply ih
        have hdvd := rangeOrder_dvd pfn endPfn pmmMaxOrder
        have hsize : 2 ^ rangeOrder pfn endPfn pmmMaxOrder ∣
            pageArraySize :=
          Nat.dvd_trans (Nat.pow_dvd_pow 2 (rangeOrder_le _ _ _)) (by decide)
        have hnext := Nat.le_of_dvd (by omega) (Nat.dvd_sub hsize hdvd)
        omega

theorem outside_markUsable {a : PageArray} (h : a.outside = true)
    (pfn count : Nat) : (markUsable a pfn count).outside = true := by
  induction count generalizing a pfn with
  | zero => exact h
  | succ count ih =>
      apply ih
      show (a.outside || decide (pageArraySize ≤ pfn)) = true
      rw [h]
      rfl

theorem outside_freeRanges {s : Pmm} (h : s.pages.outside = true)
    (ranges : List (ZoneId × Nat × Nat)) :
    (s.freeRanges ranges).pages.outside = true := by
  induction ranges generalizing s with
  | nil => exact h
  | cons r ranges ih => exact ih (outside_freeRange r.2.1 h)

theorem outside_addEntries {s : Pmm} (hs : s.Bounded)
    (h : s.pages.outside = true) (map : List MemMapEntry) :
    (map.foldl Pmm.addEntry s).pages.outside = true := by
  induction map generalizing s with
  | nil => exact h
  | cons e map ih =>
      apply ih (hs.addEntry e)
      by_cases htaken : e.Taken
      · rw [Pmm.addEntry_eq hs htaken]
        exact outside_freeRanges (outside_markUsable h _ _) _
      · rw [Pmm.addEntry_skipped s htaken]
        exact h

theorem addEntry_outside {s : Pmm} (hs : s.Bounded) {e : MemMapEntry}
    (htaken : e.Taken) (hhigh : 229376 ≤ e.pfnStart)
    (hend : pageArraySize < e.pfnEnd) :
    (s.addEntry e).pages.outside = true := by
  rw [Pmm.addEntry_eq hs htaken, MemMapEntry.placed_highmem hhigh]
  exact freeRange_outside e.pfnStart htaken.pfn_lt hend

/-!
# The three ways to fail
-/

section Necessary

variable {map : List MemMapEntry}
  (hapart : map.Pairwise PagesApart)
  (hexact : forall e, e ∈ map -> e.Undistorted)
  (hpopulated : Populated map
    (map.foldl Pmm.addEntry Pmm.boot.initZones))

include hpopulated in
theorem end_le_of_populated {e : MemMapEntry} (he : e ∈ map)
    (htaken : e.Taken) (hhigh : 229376 ≤ e.pfnStart) :
    e.pfnEnd ≤ pageArraySize := by
  by_contra hend
  rcases List.append_of_mem he with ⟨before, after, hmap⟩
  have hbounded := (Pmm.initZones_bounded Pmm.boot).addEntries before
  have houtside := outside_addEntries (hbounded.addEntry e)
    (addEntry_outside hbounded htaken hhigh (by omega)) after
  have hinside := hpopulated.inside
  rw [hmap, List.foldl_append, List.foldl_cons, houtside] at hinside
  cases hinside

include hapart hpopulated in
theorem not_normal_of_populated {e : MemMapEntry} (he : e ∈ map)
    (htaken : e.Taken) :
    ¬ (4096 ≤ e.pfnStart ∧ e.pfnStart < 229376) := by
  intro hnormal
  rcases List.append_of_mem he with ⟨before, after, hmap⟩
  have hbounded := (Pmm.initZones_bounded Pmm.boot).addEntries before
  rw [hmap, List.pairwise_append, List.pairwise_cons] at hapart
  rcases hapart with ⟨_, ⟨hlater, hafter⟩, _⟩
  rcases (NormalCyclic.of_entry hbounded htaken hnormal.left
    hnormal.right).addEntries (hbounded.addEntry e) hafter (by
      intro e' he' f hf
      refine ⟨hf.right, hlater e' he' f ?_ hf.left⟩
      have hlt := hf.right
      unfold pageArraySize
      omega) with ⟨D, k, C, hk, hcyclic, _⟩
  rcases hpopulated.finite ZoneId.normal k hk with ⟨l, hl, _⟩
  rw [hmap, List.foldl_append, List.foldl_cons] at hl
  exact hcyclic.no_chain ⟨l, hl⟩

include hapart hexact hpopulated in
theorem inOneZone_of_populated {e : MemMapEntry} (he : e ∈ map)
    (htaken : e.Taken) : e.InOneZone := by
  have honce : forall e, e ∈ map -> e.Taken -> e.PlacedOnce := by
    intro e he htaken
    have hnormal := not_normal_of_populated hapart hpopulated he htaken
    by_cases hdma : e.pfnStart < 4096
    · exact Or.inl hdma
    · have hhigh : 229376 ≤ e.pfnStart := by omega
      exact Or.inr ⟨hhigh, end_le_of_populated hpopulated he htaken hhigh⟩
  rcases honce e he htaken with hdma | hhigh
  · refine Or.inl ⟨hdma, ?_⟩
    by_contra hend
    -- The first frame of HIGHMEM is in the entry, and no zone gets it.
    have hsize : 229376 < pageArraySize := by decide
    have hpage : 229376 ∈ e.pages := ⟨htaken, by omega, by omega⟩
    have hwhole := (hexact e he 229376 (by omega) hsize).mp hpage
    rcases filled_inv hapart honce with ⟨owned, lists, hinv, hcover⟩
    rcases (hpopulated.covered 229376 (by omega) hsize).mpr ⟨e, he, hwhole⟩
      with ⟨id, hfree⟩
    rcases (hcover 229376).mp ⟨id, (hinv.mem_free id 229376).mp hfree⟩ with
      ⟨e', he', htaken', r, hr, hf⟩
    rcases (honce e' he' htaken').mem_placements hr hf with ⟨hlo, hhi, _⟩
    by_cases heq : e = e'
    · rw [← heq, MemMapEntry.placed_dma hdma] at hr
      rcases List.mem_cons.mp hr with hr | hr
      · rw [hr, Set.mem_Ico] at hf
        simp only at hf
        omega
      · rw [List.mem_singleton.mp hr, Set.mem_Ico] at hf
        simp only at hf
        omega
    · have hsymm : Std.Symm PagesApart :=
        ⟨fun _ _ h f hf hmem hmem' => h f hf hmem' hmem⟩
      exact hapart.forall he he' heq 229376 hsize hpage ⟨htaken', hlo, hhi⟩
  · exact Or.inr hhigh

end Necessary

/--
On a map whose entries keep their own frames, `pmm_init` puts every whole frame
into exactly one free block, on lists that end, if and only if every entry it
takes lies in one zone or in the first two.
-/
theorem pmm_init_populates {map : List MemMapEntry} (hmap : ValidMap map)
    (hexact : forall e, e ∈ map -> e.Undistorted) :
    Populated map (Pmm.boot.pmmInit map) <->
      forall e, e ∈ map -> e.Taken -> e.InOneZone := by
  have hapart := pagesApart_of_valid hmap hexact
  rw [populated_pmmInit]
  constructor
  · intro hpopulated e he htaken
    exact inOneZone_of_populated hapart hexact hpopulated he htaken
  · intro hzone
    exact populated_of_inOneZone hapart hexact hzone

def fakeMap : List MemMapEntry :=
  [{ base := 0x00100000, length := 63 * 1024 * 1024, type := memtypeUsable }]

theorem pmm_init_populates_fakeMap :
    Populated fakeMap (Pmm.boot.pmmInit fakeMap) <->
      forall e, e ∈ fakeMap -> e.Taken -> e.InOneZone := by
  apply pmm_init_populates
  · constructor
    · intro e he
      rw [List.mem_singleton.mp he]
      decide
    · exact List.pairwise_singleton _ _
  · intro e he
    rw [List.mem_singleton.mp he]
    exact MemMapEntry.undistorted_of_lt (by decide) (by decide)

/-- Memory from 1 MB to 64 MB with the ISA hole from 15 MB to 16 MB. -/
def isaHoleMap : List MemMapEntry :=
  [{ base := 0x100000, length := 0xE00000, type := memtypeUsable },
    { base := 0x1000000, length := 0x3000000, type := memtypeUsable }]

/-- The entry at 16 MB starts in NORMAL, and is freed into it twice. -/
theorem isaHole_not_populated :
    ValidMap isaHoleMap ∧
      ¬ Populated isaHoleMap (Pmm.boot.pmmInit isaHoleMap) := by
  have hmem : forall {P : MemMapEntry -> Prop},
      P { base := 0x100000, length := 0xE00000, type := memtypeUsable } ->
      P { base := 0x1000000, length := 0x3000000, type := memtypeUsable } ->
      forall e, e ∈ isaHoleMap -> P e := by
    intro P hlow hhigh e he
    rcases List.mem_cons.mp he with he | he
    · rw [he]
      exact hlow
    · rw [List.mem_singleton.mp he]
      exact hhigh
  have hvalid : ValidMap isaHoleMap := by
    constructor
    · exact hmem (by decide) (by decide)
    · unfold isaHoleMap
      rw [List.pairwise_pair]
      intro _ _
      rw [Set.disjoint_left]
      intro x hx hx'
      have hlt : x < 0xF00000 := hx.right
      have hge : 0x1000000 ≤ x := hx'.left
      omega
  have hexact : forall e, e ∈ isaHoleMap -> e.Undistorted :=
    hmem (MemMapEntry.undistorted_of_lt (by decide) (by decide))
      (MemMapEntry.undistorted_of_lt (by decide) (by decide))
  refine ⟨hvalid, ?_⟩
  intro hpopulated
  rw [populated_pmmInit] at hpopulated
  have hentry : ({ base := 0x1000000, length := 0x3000000
                   type := memtypeUsable } : MemMapEntry) ∈ isaHoleMap :=
    List.mem_cons_of_mem _ (List.mem_singleton_self _)
  exact not_normal_of_populated (pagesApart_of_valid hvalid hexact)
    hpopulated hentry (by decide) (by decide)

end Mm
end EarlnuxOS
