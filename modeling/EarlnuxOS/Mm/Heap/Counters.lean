import EarlnuxOS.Mm.Heap.LargeRequests

/-!
# The counters of the heap

What each step of the allocator adds to `used_bytes` and `free_bytes`, beside
what it does to the sizes of the used and of the listed blocks.  The two keep
step but for a split, which counts the rest of a block that is still counted.
-/

namespace EarlnuxOS
namespace Mm

open Foundation

/-!
# Sums of sizes
-/

def sizeWhere (p : Tag -> Bool) (bs : List (Nat × Tag)) : Nat :=
  ((bs.filter fun b => p b.2).map fun b => b.2.size).sum

def Tag.used (t : Tag) : Bool := t.magic == heapMagicUsed

section Sums

variable {p : Tag -> Bool} {bs : List (Nat × Tag)} {a e : Nat}

@[simp] theorem sizeWhere_nil (p : Tag -> Bool) : sizeWhere p [] = 0 := rfl

@[simp] theorem sizeWhere_cons (p : Tag -> Bool) (b : Nat × Tag)
    (bs : List (Nat × Tag)) :
    sizeWhere p (b :: bs) =
      (if p b.2 then b.2.size else 0) + sizeWhere p bs := by
  unfold sizeWhere
  rw [List.filter_cons]
  split
  · rw [List.map_cons, List.sum_cons]
  · rw [Nat.zero_add]

@[simp] theorem sizeWhere_append (p : Tag -> Bool)
    (bs bs' : List (Nat × Tag)) :
    sizeWhere p (bs ++ bs') = sizeWhere p bs + sizeWhere p bs' := by
  unfold sizeWhere
  rw [List.filter_append, List.map_append, List.sum_append]

theorem sizeWhere_le (hlayout : Layout a bs e) : a + sizeWhere p bs ≤ e := by
  induction bs generalizing a with
  | nil => exact Nat.le_of_eq hlayout
  | cons b bs ih =>
      have hrest := ih hlayout.right
      rw [sizeWhere_cons]
      split
      · omega
      · omega

/-- A list of pointers to some of the blocks adds up to their sizes. -/
theorem sum_sizes (hlayout : Layout a bs e) {xs : List Nat} {f : Nat -> Nat}
    (offset : Nat) (hnodup : xs.Nodup)
    (hmem : forall x, x ∈ xs <->
      exists a t, x = a + offset ∧ (a, t) ∈ bs ∧ p t = true)
    (hsize : forall a t, (a, t) ∈ bs -> p t = true -> f (a + offset) = t.size) :
    (xs.map f).sum = sizeWhere p bs := by
  have hpair : ((bs.filter fun b => p b.2).map fun b => b.1 + offset).Nodup := by
    unfold List.Nodup
    rw [List.pairwise_map]
    refine (hlayout.pairwise.filter _).imp fun hle => ?_
    unfold blockHdrSize at hle
    omega
  have hperm : xs.Perm ((bs.filter fun b => p b.2).map fun b => b.1 + offset) := by
    rw [List.perm_ext_iff_of_nodup hnodup hpair]
    intro x
    rw [hmem x, List.mem_map]
    constructor
    · rintro ⟨a, t, hx, ht, hp⟩
      exact ⟨(a, t), List.mem_filter.mpr ⟨ht, hp⟩, hx.symm⟩
    · rintro ⟨⟨a, t⟩, ht, hx⟩
      rcases List.mem_filter.mp ht with ⟨ht, hp⟩
      exact ⟨a, t, hx.symm, ht, hp⟩
  rw [(hperm.map f).sum_eq, List.map_map]
  unfold sizeWhere
  refine congrArg List.sum (List.map_congr_left fun b hb => ?_)
  rcases List.mem_filter.mp hb with ⟨hb, hp⟩
  exact hsize b.1 b.2 hb hp

end Sums

/-!
# What each step adds and takes away
-/

/-- The counters are the sums, but for a drift of `free_bytes`. -/
structure Books (d : UInt32) (bs : List (Nat × Tag)) (stat : HeapStats) :
    Prop where
  used : stat.usedBytes = UInt32.ofNat (sizeWhere Tag.used bs)
  free : stat.freeBytes = UInt32.ofNat (sizeWhere Tag.listed bs) + d

/-- The counters of `new` are those of `old`, with so much more counted as free. -/
structure CountedFree (old new : HeapStats) (bytes : Nat) : Prop where
  used : new.usedBytes = old.usedBytes
  free : new.freeBytes = old.freeBytes + UInt32.ofNat bytes
  peak : new.peakUsage = old.peakUsage

theorem Heap.counted_pushFree {h h' : Heap} (hstat : h'.stat = h.stat)
    (blk bytes : Nat) :
    CountedFree h.stat ((h'.pushFree blk).countFree bytes).stat bytes := by
  have hpush := (HeapInv.stat_pushFree h' blk).trans hstat
  unfold Heap.countFree
  rw [hpush]
  exact ⟨rfl, rfl, rfl⟩

theorem Heap.stat_heapExpand (h : Heap) (size : Nat) :
    (h.heapExpand size).2 = h ∨
      CountedFree h.stat (h.heapExpand size).2.stat
        ((h.heapExpand size).2.size h.brk) := by
  unfold Heap.heapExpand
  dsimp only
  split
  · exact Or.inl rfl
  · right
    constructor
    · show (Heap.pushFree _ h.brk).stat.usedBytes = _
      rw [HeapInv.stat_pushFree]
      rfl
    · show (Heap.pushFree _ h.brk).stat.freeBytes + _ = _
      rw [HeapInv.stat_pushFree]
      rfl
    · show (Heap.pushFree _ h.brk).stat.peakUsage = _
      rw [HeapInv.stat_pushFree]
      rfl

namespace HeapInv

variable {bs before after : List (Nat × Tag)} {fl : List Nat} {h : Heap}
variable {a n size : Nat} {t : Tag} {d : UInt32}

theorem stat_expand
    (hi : HeapInv (bs ++ [(h.brk, ⟨n, heapMagicFree, 0, true⟩)]) (h.brk :: fl)
      (h.heapExpand size).2) :
    CountedFree h.stat (h.heapExpand size).2.stat n := by
  have hblock : (h.brk, ⟨n, heapMagicFree, 0, true⟩) ∈
      bs ++ [(h.brk, (⟨n, heapMagicFree, 0, true⟩ : Tag))] := by simp
  rcases h.stat_heapExpand size with hsame | hstat
  · have hbounds := hi.bounds hblock
    rw [hsame] at hbounds
    unfold blockHdrSize at hbounds
    omega
  · rw [(hi.read hblock).right.left] at hstat
    exact hstat

theorem stat_maybeSplit (hi : HeapInv (before ++ (a, t) :: after) fl h)
    (hsize : 16 ∣ size) (hle : size ≤ t.size) :
    CountedFree h.stat (h.maybeSplit a size).stat
      (sizeWhere Tag.listed (splitRest a size t).2) := by
  have hold : (a, t) ∈ before ++ (a, t) :: after := by simp
  have hbounds := hi.bounds hold
  have hbrk := hi.brk_lt
  unfold splitRest
  by_cases hfit : size + minBlockSize ≤ t.size
  · have hrest := ((hi.split hfit hsize).read (a := a + blockHdrSize + size)
      (t := ⟨t.size - size - blockHdrSize, heapMagicFree, a, true⟩)
      (by simp)).right.left
    have hsum : add32 size minBlockSize = size + minBlockSize :=
      add32_of_lt (by unfold minBlockSize blockHdrSize at *; omega)
    have hpayload : add32 a blockHdrSize = a + blockHdrSize :=
      add32_of_lt (by unfold blockHdrSize at *; omega)
    have hnew : add32 (a + blockHdrSize) size = a + blockHdrSize + size :=
      add32_of_lt (by omega)
    have hapart : HdrApart a (a + blockHdrSize + size) :=
      Or.inl (by unfold blockHdrSize; omega)
    rw [if_pos hfit]
    unfold Heap.maybeSplit at hrest ⊢
    rw [(hi.read hold).right.left, hsum, if_neg (Nat.not_lt.mpr hfit), hpayload,
      hnew] at hrest ⊢
    dsimp only at hrest ⊢
    rw [Heap.size, Heap.get_set_self _ _ (Or.inr hapart) (by omega),
      if_neg hapart.ne] at hrest
    have hone : sizeWhere Tag.listed [(a + blockHdrSize + size,
        (⟨t.size - size - blockHdrSize, heapMagicFree, a, true⟩ : Tag))] =
        t.size - size - blockHdrSize := by simp
    rw [hone, ← hrest]
    show CountedFree h.stat (Heap.countFree (Heap.pushFree _ _) _).stat _
    exact Heap.counted_pushFree (by rfl) _ _
  · rw [if_neg hfit, hi.maybeSplit_whole hle hfit]
    exact ⟨rfl, (UInt32.add_zero _).symm, rfl⟩

end HeapInv

/-- `used_bytes` and `peak_usage` after an allocation of `bytes`. -/
structure CountedUsed (old new : HeapStats) (bytes : Nat) : Prop where
  used : new.usedBytes = old.usedBytes + UInt32.ofNat bytes
  peak : new.peakUsage =
    if old.peakUsage < new.usedBytes then new.usedBytes else old.peakUsage

namespace HeapOk

variable {bs bs' before after : List (Nat × Tag)} {fl : List Nat}
variable {h h' : Heap} {a n size : Nat} {t : Tag} {d : UInt32}

theorem stat_takeBlock (hok : HeapOk (before ++ (a, t) :: after) fl h)
    (hfree : t.magic = heapMagicFree) (hsize : 16 ∣ size)
    (hle : size ≤ t.size) :
    CountedUsed h.stat (h.takeBlock a size).2.stat (splitRest a size t).1 ∧
      (h.takeBlock a size).2.stat.freeBytes =
        h.stat.freeBytes +
          UInt32.ofNat (sizeWhere Tag.listed (splitRest a size t).2) -
          UInt32.ofNat (splitRest a size t).1 := by
  have hold : (a, t) ∈ before ++ (a, t) :: after := by simp
  have hremove := hok.inv.remove (hok.listed_of_free hold hfree)
  have hstat := hremove.stat_maybeSplit hsize hle
  have hrest : splitRest a size { t with listed := false } =
      splitRest a size t := rfl
  rw [HeapInv.stat_freeListRemove, hrest] at hstat
  rcases hremove.maybeSplit hsize hle with ⟨fl', hsplit⟩
  have hmarked := hsplit.setMagic heapMagicUsed_lt
  have hread := (hmarked.read
    (List.mem_append_right _ List.mem_cons_self)).right.left
  rw [hrest] at hread
  unfold Heap.takeBlock
  dsimp only at hread ⊢
  rw [hread]
  have hused : (((h.freeListRemove a).maybeSplit a size).setMagic a
      heapMagicUsed).stat.usedBytes = h.stat.usedBytes := hstat.used
  have hpeak : (((h.freeListRemove a).maybeSplit a size).setMagic a
      heapMagicUsed).stat.peakUsage = h.stat.peakUsage := hstat.peak
  have hfreed : (((h.freeListRemove a).maybeSplit a size).setMagic a
      heapMagicUsed).stat.freeBytes = _ := hstat.free
  rw [hused, hpeak, hfreed]
  exact ⟨⟨rfl, rfl⟩, rfl⟩

end HeapOk

/-!
# The counters and the blocks
-/

theorem Joined.kept {t : Tag} {n : Nat} {rest : List (Nat × Tag)}
    {h h' : Heap} (hjoined : Joined t n rest h h') :
    h'.stat.usedBytes = h.stat.usedBytes ∧
      h'.stat.peakUsage = h.stat.peakUsage := by
  rcases hjoined with ⟨_, _, hstat⟩ | ⟨c, u, _, _, _, _, hstat⟩
  · rw [hstat]
    exact ⟨rfl, rfl⟩
  · rw [hstat]
    exact ⟨rfl, rfl⟩

namespace Books

variable {bs bs' before after : List (Nat × Tag)} {fl : List Nat}
variable {h h' : Heap} {a n size : Nat} {t : Tag} {d : UInt32}

theorem grown (hbooks : Books d bs h.stat) (hgrown : HeapOk.Grown bs h bs' h') :
    Books d bs' h'.stat ∧ h'.stat.usedBytes = h.stat.usedBytes ∧
      h'.stat.peakUsage = h.stat.peakUsage := by
  induction hgrown with
  | refl => exact ⟨hbooks, rfl, rfl⟩
  | @page bs bs' fl h h' size n hi _ ih =>
      have hstat := hi.stat_expand
      have hpage : Books d (bs ++ [(h.brk, ⟨n, heapMagicFree, 0, true⟩)])
          (h.heapExpand size).2.stat := by
        constructor
        · rw [hstat.used, hbooks.used]
          simp [Tag.used, magic_ne]
        · rw [hstat.free, hbooks.free]
          simp only [sizeWhere_append, sizeWhere_cons, sizeWhere_nil, if_true,
            Nat.add_zero, UInt32.ofNat_add]
          grind
      rcases ih hpage with ⟨hnext, hused, hpeak⟩
      exact ⟨hnext, hused.trans hstat.used, hpeak.trans hstat.peak⟩

theorem sum_lt (hi : HeapInv bs fl h) (p : Tag -> Bool) :
    sizeWhere p bs < 2 ^ 32 := by
  have hle := sizeWhere_le (p := p) hi.layout
  have hbrk := hi.brk_lt
  omega

theorem used_toNat (hbooks : Books d bs h.stat) (hi : HeapInv bs fl h) :
    h.stat.usedBytes.toNat = sizeWhere Tag.used bs := by
  rw [hbooks.used]
  exact UInt32.toNat_ofNat_of_lt' (sum_lt hi _)

theorem rest_used (a size : Nat) (t : Tag) :
    sizeWhere Tag.used (splitRest a size t).2 = 0 := by
  unfold splitRest
  split
  · simp [Tag.used, magic_ne]
  · rfl

theorem taken_le (a : Nat) (t : Tag) {size : Nat} (hle : size ≤ t.size) :
    (splitRest a size t).1 ≤ t.size := by
  unfold splitRest
  split
  · exact hle
  · exact Nat.le_refl _

theorem takeBlock (hok : HeapOk (before ++ (a, t) :: after) fl h)
    (hbooks : Books d (before ++ (a, t) :: after) h.stat)
    (hfree : t.magic = heapMagicFree) (hsize : 16 ∣ size)
    (hle : size ≤ t.size) :
    Books (d + UInt32.ofNat (t.size - (splitRest a size t).1))
      (before ++ (a, takenTag a size t) :: ((splitRest a size t).2 ++ after))
      (h.takeBlock a size).2.stat := by
  have hold : (a, t) ∈ before ++ (a, t) :: after := by simp
  have hlisted := hok.listed_of_free hold hfree
  rcases hok.stat_takeBlock hfree hsize hle with ⟨hcount, hcut⟩
  have hnot : t.used = false := by
    unfold Tag.used
    rw [hfree]
    rfl
  have htaken : (takenTag a size t).used = true := rfl
  have hcutSize : (takenTag a size t).size = (splitRest a size t).1 := rfl
  constructor
  · rw [hcount.used, hbooks.used]
    simp only [sizeWhere_append, sizeWhere_cons, rest_used, hnot, htaken,
      hcutSize, if_true, Bool.false_eq_true, if_false, UInt32.ofNat_add]
    grind
  · have hwhole : UInt32.ofNat t.size = UInt32.ofNat (splitRest a size t).1 +
        UInt32.ofNat (t.size - (splitRest a size t).1) := by
      rw [← UInt32.ofNat_add, Nat.add_sub_cancel' (taken_le a t hle)]
    rw [hcut, hbooks.free]
    simp only [sizeWhere_append, sizeWhere_cons, hlisted, takenTag, if_true,
      Bool.false_eq_true, if_false, UInt32.ofNat_add, hwhole]
    grind

/-- What joining takes in is counted: the header turns into payload. -/
theorem joined {rest : List (Nat × Tag)} {g g' : Heap}
    (hjoined : Joined t n rest g g')
    (hused : g.stat.usedBytes =
      UInt32.ofNat (sizeWhere Tag.used (before ++ (rest ++ after))))
    (hfree : g.stat.freeBytes =
      UInt32.ofNat (t.size + sizeWhere Tag.listed (before ++ (rest ++ after))) +
        d) {v : Tag} (hv : v.size = n) (hnot : v.used = false)
    (hlisted : v.listed = true) :
    Books d (before ++ (a, v) :: after) g'.stat := by
  rcases hjoined with ⟨hrest, hn, hstat⟩ | ⟨c, u, hrest, hmagic, hu, hn, hstat⟩
  · rw [hstat]
    rw [hrest, List.nil_append] at hused hfree
    constructor
    · rw [hused]
      simp [hnot]
    · rw [hfree, ← hn, ← hv]
      simp only [sizeWhere_append, sizeWhere_cons, hlisted, if_true,
        UInt32.ofNat_add]
      grind
  · have hunused : u.used = false := by
      unfold Tag.used
      rw [hmagic]
      rfl
    rw [hstat]
    rw [hrest] at hused hfree
    constructor
    · show g.stat.usedBytes = _
      rw [hused]
      simp [hnot, hunused]
    · show g.stat.freeBytes + _ = _
      rw [hfree]
      simp only [sizeWhere_append, sizeWhere_cons, sizeWhere_nil, hlisted, hu,
        hv, hn, if_true, UInt32.ofNat_add]
      grind

theorem kfree (hok : HeapOk (before ++ (a, t) :: after) fl h)
    (hbooks : Books d (before ++ (a, t) :: after) h.stat)
    (hused : t.magic = heapMagicUsed) (hnull : t.prevPhys = 0) :
    exists bs' fl', HeapOk bs' fl' (h.kfree (a + blockHdrSize)) ∧
      SameUsed (before ++ after) bs' ∧
      Books d bs' (h.kfree (a + blockHdrSize)).stat ∧
      (h.kfree (a + blockHdrSize)).stat.usedBytes =
        h.stat.usedBytes - UInt32.ofNat t.size ∧
      (h.kfree (a + blockHdrSize)).stat.peakUsage = h.stat.peakUsage ∧
      forall b, b ∈ bs' -> b.2.prevPhys = 0 ∨ b ∈ before ++ after := by
  have hold : (a, t) ∈ before ++ (a, t) :: after := by simp
  have hlisted := hok.unlisted_of_used hold hused
  rw [hok.kfree_eq hused]
  generalize hstat :
    { h.stat with
      usedBytes := h.stat.usedBytes - UInt32.ofNat t.size
      freeBytes := h.stat.freeBytes + UInt32.ofNat t.size
      freeCount := h.stat.freeCount + 1 } = stat
  rcases hok.marked stat with
    ⟨n, rest, after', fl', hsplit, htakes, hafter', hnext, hjoined⟩
  have hok' := hnext.pushFree rfl hlisted hok.settled_before hafter'
  have hback := (hnext.read
    (List.mem_append_right _ List.mem_cons_self)).right.right
  unfold Heap.coalesce Heap.coalescePrev
  rw [hback, if_neg fun hcond => hcond.left hnull, HeapInv.stat_pushFree]
  have hkept : _ = stat.usedBytes ∧ _ = stat.peakUsage := hjoined.kept
  refine ⟨_, _, hok', ?_, ?_, ?_, ?_, ?_⟩
  · rw [hsplit]
    exact HeapInv.sameUsed_replace (fun b hb => htakes.free hb)
      (List.forall_mem_singleton.mpr rfl)
  · have hcount : t.used = true := by
      unfold Tag.used
      rw [hused]
      rfl
    rw [hsplit] at hbooks
    apply joined hjoined _ _ rfl rfl rfl
    · show stat.usedBytes = _
      rw [← hstat]
      dsimp only
      rw [hbooks.used]
      simp only [sizeWhere_append, sizeWhere_cons, hcount, if_true,
        UInt32.ofNat_add]
      grind
    · show stat.freeBytes = _
      rw [← hstat]
      dsimp only
      rw [hbooks.free]
      simp only [sizeWhere_append, sizeWhere_cons, hlisted, Bool.false_eq_true,
        if_false, UInt32.ofNat_add]
      grind
  · rw [hkept.left, ← hstat]
  · rw [hkept.right, ← hstat]
  · intro b hb
    rcases List.mem_append.mp hb with hb | hb
    · exact Or.inr (List.mem_append_left _ hb)
    · rcases List.mem_cons.mp hb with hb | hb
      · rw [hb]
        exact Or.inl hnull
      · right
        rw [hsplit]
        exact List.mem_append_right _ (List.mem_append_right _ hb)

end Books

/-!
# Every request
-/

/-- The pages for a request do not wrap round the address space. -/
def PagesFit (h : Heap) (n : Nat) : Prop :=
  n ≤ 2 ^ 32 - 32 -> HasFree h n ∨ h.brk + expansion n < 2 ^ 32

def asked (n : Nat) : Nat := (alignUp (UInt32.ofNat n) heapAlign).toNat

/-- The free block at which the search for a request ends, or 0. -/
def Heap.fitting (h : Heap) (n : Nat) : Nat :=
  (h.firstFit (asked n) Heap.walkSteps h.freeList).getD 0

/--
The block that is found for a request, or the one that the heap is expanded
by, is large enough to be split.
-/
def Splits (h : Heap) (n : Nat) : Prop :=
  n ≠ 0 ∧
    (h.fitting n ≠ 0 ∧ asked n + minBlockSize ≤ h.size (h.fitting n) ∨
      h.fitting n = 0 ∧ n ≤ 2 ^ 32 - 32 ∧ h.brk + expansion n ≤ h.endPtr ∧
        asked n + minBlockSize + blockHdrSize ≤ expansion n)

instance (h : Heap) (n : Nat) : Decidable (Splits h n) :=
  inferInstanceAs (Decidable (_ ∧ _))

theorem expansion_eq (n : Nat) : expansion n = HeapInv.pagesFor (rounded n) :=
  rfl

theorem asked_dvd {n : Nat} (hn : n < 2 ^ 32) : 16 ∣ asked n := by
  unfold asked
  by_cases hlarge : n ≤ 2 ^ 32 - 16
  · rw [align_request hlarge]
    exact Nat.dvd_mul_left _ _
  · rw [align_request_wraps (by omega) hn]
    exact Nat.dvd_zero 16

namespace HeapOk

variable {bs : List (Nat × Tag)} {fl : List Nat} {h : Heap} {n : Nat}

/-- What `kmalloc` does with a request: a refusal, or a block of the grown heap. -/
def Outcome (bs : List (Nat × Tag)) (h : Heap) (n : Nat) : Prop :=
  exists bs' fl' h', Grown bs h bs' h' ∧ HeapOk bs' fl' h' ∧
    (¬ Splits h n ∧ Heap.kmalloc callDepth h n = some (0, h') ∨
      exists before a t after, bs' = before ++ (a, t) :: after ∧
        t.magic = heapMagicFree ∧ asked n ≤ t.size ∧
        (Splits h n <-> asked n + minBlockSize ≤ t.size) ∧
        Heap.kmalloc callDepth h n = some (h'.takeBlock a (asked n)))

theorem not_splits (hr : h.firstFit (asked n) Heap.walkSteps h.freeList = some 0)
    (hnot : ¬ (n ≤ 2 ^ 32 - 32 ∧ h.brk + expansion n ≤ h.endPtr ∧
      asked n + minBlockSize + blockHdrSize ≤ expansion n)) : ¬ Splits h n := by
  rintro ⟨_, ⟨hne, _⟩ | ⟨_, hexpand⟩⟩
  · unfold Heap.fitting at hne
    rw [hr] at hne
    exact hne rfl
  · exact hnot hexpand

theorem outcome_found (hok : HeapOk bs fl h) (hpos : n ≠ 0) {r : Nat}
    (hr : h.firstFit (asked n) Heap.walkSteps h.freeList = some r)
    (hne : r ≠ 0) (hfl : r ∈ fl) (hfit : asked n ≤ h.size r) :
    Outcome bs h n := by
  rcases hok.kmalloc_found (callDepth - 1) hpos rfl hr hne hfl hfit with
    ⟨before, t, after, hbs, hfree, hle, hread, hrun⟩
  have hsplits : Splits h n <-> asked n + minBlockSize ≤ t.size := by
    unfold Splits Heap.fitting
    rw [hr, Option.getD_some, hread]
    constructor
    · rintro ⟨_, ⟨_, hlarge⟩ | ⟨hnull, _⟩⟩
      · exact hlarge
      · exact absurd hnull hne
    · exact fun hlarge => ⟨hpos, Or.inl ⟨hne, hlarge⟩⟩
  exact ⟨bs, fl, h, Grown.refl bs h, hok,
    Or.inr ⟨before, r, t, after, hbs, hfree, hle, hsplits, hrun⟩⟩

theorem outcome_expanded (hok : HeapOk bs fl h) (hpos : n ≠ 0)
    (hn : n ≤ 2 ^ 32 - 32) (hpages : h.brk + expansion n < 2 ^ 32)
    (hr : h.firstFit (asked n) Heap.walkSteps h.freeList = some 0) :
    Outcome bs h n := by
  have hasked : asked n = rounded n := align_request (by omega)
  have hrounded : rounded n ≠ 0 := by
    unfold rounded
    omega
  have hnone : h.firstFit (rounded n) Heap.walkSteps h.freeList = some 0 :=
    hasked ▸ hr
  rw [expansion_eq] at hpages
  rcases hok.kmalloc_expanded (callDepth - 2) hpos (align_request (by omega))
      hrounded (align_rounded (by omega)) hpages hnone with
    ⟨hover, hrun⟩ | ⟨hunder, hi, hrun⟩
  · refine ⟨bs, fl, h, Grown.refl bs h, hok, Or.inl ⟨?_, hrun⟩⟩
    refine not_splits hr fun hfits => ?_
    exact absurd hover (Nat.not_lt.mpr hfits.right.left)
  · have hsplits : Splits h n <->
        asked n + minBlockSize ≤ HeapInv.pagesFor (rounded n) - 32 := by
      unfold Splits Heap.fitting
      rw [hasked, hnone, Option.getD_some, expansion_eq]
      unfold minBlockSize blockHdrSize
      omega
    refine ⟨_, _, _, Grown.page hi (Grown.refl _ _), hok.expand hi,
      Or.inr ⟨bs, h.brk, _, [], rfl, rfl, ?_, hsplits, ?_⟩⟩
    · rw [hasked]
      unfold HeapInv.pagesFor
      dsimp only
      omega
    · rw [hasked]
      exact hrun

theorem kmalloc_outcome (hok : HeapOk bs fl h) (hn : n < 2 ^ 32)
    (hpages : PagesFit h n) : Outcome bs h n := by
  have hdepth : callDepth = callDepth - 2 + 2 := by decide
  by_cases hzero : n = 0
  · refine ⟨bs, fl, h, Grown.refl bs h, hok, Or.inl ⟨?_, ?_⟩⟩
    · exact fun hsplits => hsplits.left hzero
    · rw [hzero, hdepth]
      exact Heap.kmalloc_zero _ h
  · rcases hok.inv.firstFit (asked n) with
      ⟨r, hr, ⟨hnull, hnone⟩ | ⟨hfl, hne, _, hfit⟩⟩
    · rw [hnull] at hr
      by_cases hsmall : n ≤ 2 ^ 32 - 32
      · refine hok.outcome_expanded hzero hsmall ?_ hr
        rcases hpages hsmall with ⟨a, hblock, hmagic, hroom⟩ | hfits
        · have hasked : asked n = rounded n := align_request (by omega)
          rcases hok.inv.isBlock.mp hblock with ⟨t, ht⟩
          have hfree := (hok.inv.read ht).left.symm.trans hmagic
          have hfl := hok.inv.mem_free.mpr
            ⟨t, ht, hok.listed_of_free ht hfree⟩
          rw [hasked] at hnone
          exact absurd ⟨hmagic, hroom⟩ (hnone a hfl)
        · exact hfits
      · have hnot : ¬ Splits h n :=
          not_splits hr fun hfits => hsmall hfits.left
        by_cases hmiddle : n ≤ 2 ^ 32 - 16
        · have hend : h.endPtr - h.brk < blockHdrSize * (callDepth - 1) := by
            have hroom := hok.inv.room
            unfold blockHdrSize callDepth
            omega
          rcases hok.refused_by_pages _ (by omega) hmiddle hend with
            ⟨h', bs', fl', hrun, hok', hgrown, _⟩
          exact ⟨bs', fl', h', hgrown, hok', Or.inl ⟨hnot, hrun⟩⟩
        · have hempty : h.freeList = 0 := by
            by_contra hhead
            have hasked : asked n = 0 := align_request_wraps (by omega) hn
            have hhead := hok.head_free hhead
            exact hnone _ hhead ⟨hok.magic_free hhead, by omega⟩
          rcases hok.refused_by_wrapping (callDepth - 2) (by omega) hn
              hempty with ⟨h', bs', fl', hrun, hok', hgrown, _⟩
          exact ⟨bs', fl', h', hgrown, hok', Or.inl ⟨hnot, hrun⟩⟩
    · exact hok.outcome_found hzero hr hne hfl hfit

end HeapOk

/-!
# The free list
-/

def Heap.freeBlocks (h : Heap) : Nat -> Nat -> List Nat
  | 0, _ => []
  | steps + 1, blk =>
      if blk = 0 then [] else blk :: freeBlocks h steps (h.nextFree blk)

theorem Heap.freeBlocks_chain (h : Heap) {fl : List Nat} {p steps : Nat}
    (hchain : Chain h.next (toPtr p) fl) (hsteps : fl.length < steps) :
    h.freeBlocks steps p = fl := by
  induction fl generalizing p steps with
  | nil =>
      have hnull : p = 0 := toPtr_eq_none.mp hchain
      cases steps with
      | zero => cases hsteps
      | succ steps => exact if_pos hnull
  | cons x fl ih =>
      rcases toPtr_eq_some.mp hchain.left with ⟨hpos, rfl⟩
      cases steps with
      | zero => cases hsteps
      | succ steps =>
          rw [Heap.freeBlocks, if_neg hpos,
            ih hchain.right (Nat.lt_of_succ_lt_succ hsteps)]

namespace HeapInv

variable {bs : List (Nat × Tag)} {fl : List Nat} {h : Heap}

theorem freeBlocks (hi : HeapInv bs fl h) :
    h.freeBlocks Heap.walkSteps h.freeList = fl := by
  have hlength := hi.free_length
  rcases hi.headers with ⟨H, _, hh⟩
  exact h.freeBlocks_chain hh.links.chain hlength

theorem free_sum (hi : HeapInv bs fl h) :
    (fl.map h.size).sum = sizeWhere Tag.listed bs := by
  have hmem := fun a => hi.mem_free (a := a)
  have hread := fun a t (ht : (a, t) ∈ bs) => (hi.read ht).right.left
  rcases hi.headers with ⟨H, _, hh⟩
  refine sum_sizes hi.layout 0 hh.links.nodup ?_ (fun a t ht _ => hread a t ht)
  intro x
  rw [hmem x]
  constructor
  · rintro ⟨t, ht, hlisted⟩
    exact ⟨x, t, rfl, ht, hlisted⟩
  · rintro ⟨a, t, rfl, ht, hlisted⟩
    exact ⟨t, ht, hlisted⟩

end HeapInv

theorem LiveInv.live_sum {bs : List (Nat × Tag)} {fl : List Nat}
    {s : HeapState} (hl : LiveInv bs fl s) :
    (s.live.map s.heap.ksize).sum = sizeWhere Tag.used bs := by
  refine sum_sizes hl.ok.inv.layout blockHdrSize hl.nodup ?_ ?_
  · intro x
    rw [hl.live x]
    unfold Tag.used
    simp only [beq_iff_eq]
  · intro a t ht hused
    exact hl.ok.inv.ksize_used ht (beq_iff_eq.mp hused)

end Mm
end EarlnuxOS
