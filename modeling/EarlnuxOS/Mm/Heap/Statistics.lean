import Mathlib.Order.Bounds.Basic
import EarlnuxOS.Mm.Heap.Counters
import EarlnuxOS.Mm.Heap.Krealloc

/-!
# The heap statistics

`used_bytes`, `free_bytes` and `peak_usage` are kept up call by call.  When
`maybe_split` cuts a block in two it counts the rest as free, although the whole
block has never been taken off the count: from then on `free_bytes` is too
large by the bytes that were cut off.  As long as no sum of sizes wraps, nothing
else makes the numbers drift.
-/

namespace EarlnuxOS
namespace Mm

open Foundation

/-!
# The heap in use
-/

/-- The heap and its clients, and the values `used_bytes` has had, latest first. -/
structure HeapLog where
  state : HeapState
  seen : List UInt32

inductive HeapCall where
  | one (o : HeapOp)
  | krealloc (p n : Nat)

def Heap.Asks (h : Heap) (p n : Nat) : Prop :=
  p = 0 ∨ n ≠ 0 ∧ h.size (sub32 p blockHdrSize) < n

instance (h : Heap) (p n : Nat) : Decidable (h.Asks p n) :=
  inferInstanceAs (Decidable (_ ∨ _))

/-- `used_bytes` between the `kmalloc` of a `krealloc` and its `kfree`. -/
def Heap.midway (h : Heap) (p n : Nat) : List UInt32 :=
  if h.Asks p n then
    match Heap.kmalloc callDepth h n with
    | none => []
    | some (_, h) => [h.stat.usedBytes]
  else []

def HeapLog.exec (s : HeapLog) : HeapCall -> HeapLog
  | HeapCall.one o =>
      { state := s.state.exec o
        seen := (s.state.exec o).heap.stat.usedBytes :: s.seen }
  | HeapCall.krealloc p n =>
      match s.state.heap.krealloc callDepth p n with
      | none => { s with state := { s.state with hung := true } }
      | some (r, h) =>
          { state :=
              { s.state with
                heap := h
                live :=
                  if r = p then s.state.live
                  else if r ≠ 0 then r :: s.state.live.erase p
                  else if n = 0 then s.state.live.erase p
                  else s.state.live }
            seen := h.stat.usedBytes :: (s.state.heap.midway p n ++ s.seen) }

/-- The calls clients may make; sizes are 32-bit words. -/
def HeapCall.Valid (s : HeapLog) : HeapCall -> Prop
  | HeapCall.one (HeapOp.kmalloc n) => n < 2 ^ 32
  | HeapCall.one (HeapOp.kfree p) => p = 0 ∨ p ∈ s.state.live
  | HeapCall.one (HeapOp.write a v) =>
      HeapOp.Valid s.state (HeapOp.write a v)
  | HeapCall.krealloc p n => (p = 0 ∨ p ∈ s.state.live) ∧ n < 2 ^ 32

def HeapCall.request (s : HeapLog) : HeapCall -> Option Nat
  | HeapCall.one (HeapOp.kmalloc n) => some n
  | HeapCall.one _ => none
  | HeapCall.krealloc p n => if s.state.heap.Asks p n then some n else none

/--
The sizes of a call do not wrap: neither the pages of a request, nor, when old
bytes are to be copied to the new block, the size itself.
-/
def HeapCall.NoWrap (s : HeapLog) : HeapCall -> Prop
  | HeapCall.one (HeapOp.kmalloc n) => PagesFit s.state.heap n
  | HeapCall.one _ => True
  | HeapCall.krealloc p n =>
      s.state.heap.Asks p n -> PagesFit s.state.heap n ∧
        (n ≤ 2 ^ 32 - 16 ∨ s.state.heap.freeList = 0)

def HeapCall.Splits (s : HeapLog) (c : HeapCall) : Prop :=
  exists n, c.request s = some n ∧ Mm.Splits s.state.heap n

structure StatsTrue (s : HeapLog) : Prop where
  used : s.state.heap.stat.usedBytes.toNat =
    (s.state.live.map s.state.heap.ksize).sum
  free : s.state.heap.stat.freeBytes.toNat =
    ((s.state.heap.freeBlocks Heap.walkSteps s.state.heap.freeList).map
      s.state.heap.size).sum
  peak : IsGreatest {v | v ∈ s.seen} s.state.heap.stat.peakUsage

def logStart (mem : Memory) (virtStart size : Nat) : HeapLog where
  state := heapStart mem virtStart size
  seen := [(heapStart mem virtStart size).heap.stat.usedBytes]

/-!
# The accounts of a run
-/

/-- No block has a `prev_phys`, as is the case until the first split. -/
def NoBacks (bs : List (Nat × Tag)) : Prop :=
  forall b, b ∈ bs -> b.2.prevPhys = 0

theorem HeapOk.Grown.noBacks {bs bs' : List (Nat × Tag)} {h h' : Heap}
    (hgrown : HeapOk.Grown bs h bs' h') (hnull : NoBacks bs) : NoBacks bs' := by
  induction hgrown with
  | refl => exact hnull
  | page _ _ ih =>
      apply ih
      intro b hb
      rcases List.mem_append.mp hb with hb | hb
      · exact hnull b hb
      · rw [List.mem_singleton.mp hb]

theorem peak_cons {seen : List UInt32} {m : UInt32}
    (h : IsGreatest {v | v ∈ seen} m) (u : UInt32) :
    IsGreatest {v | v ∈ u :: seen} (if m < u then u else m) := by
  split
  · rename_i hlt
    refine ⟨List.mem_cons_self, fun v hv => ?_⟩
    rcases List.mem_cons.mp hv with hv | hv
    · rw [hv]
      exact UInt32.le_refl u
    · exact UInt32.le_trans (h.right hv) (UInt32.le_of_lt hlt)
  · rename_i hle
    refine ⟨List.mem_cons_of_mem u h.left, fun v hv => ?_⟩
    rcases List.mem_cons.mp hv with hv | hv
    · rw [hv]
      exact UInt32.not_lt.mp hle
    · exact h.right hv

theorem peak_keep {seen : List UInt32} {m u : UInt32}
    (h : IsGreatest {v | v ∈ seen} m) (hu : u ≤ m) :
    IsGreatest {v | v ∈ u :: seen} m := by
  have hcons := peak_cons h u
  rw [if_neg (UInt32.not_lt.mpr hu)] at hcons
  exact hcons

/-- The invariant of a run; `free_bytes` has drifted by `d`. -/
structure Accounts (d : UInt32) (bs : List (Nat × Tag)) (fl : List Nat)
    (s : HeapLog) : Prop where
  live : LiveInv bs fl s.state
  books : Books d bs s.state.heap.stat
  current : s.state.heap.stat.usedBytes ∈ s.seen
  peak : IsGreatest {v | v ∈ s.seen} s.state.heap.stat.peakUsage

namespace Accounts

variable {bs : List (Nat × Tag)} {fl : List Nat} {s : HeapLog} {d : UInt32}
variable {n p : Nat}

theorem exec_kmalloc {r : Nat} {h' : Heap}
    (hrun : Heap.kmalloc callDepth s.state.heap n = some (r, h')) :
    (s.state.exec (HeapOp.kmalloc n)).heap = h' := by
  unfold HeapState.exec
  dsimp only
  rw [hrun]

/-- A request, which makes `free_bytes` drift exactly when it splits a block. -/
theorem kmalloc (hacc : Accounts d bs fl s) (hnull : NoBacks bs)
    (hn : n < 2 ^ 32) (hpages : PagesFit s.state.heap n) :
    exists e bs' fl' r h', Heap.kmalloc callDepth s.state.heap n = some (r, h') ∧
      Accounts (d + e) bs' fl' (s.exec (HeapCall.one (HeapOp.kmalloc n))) ∧
      (e = 0 <-> ¬ Splits s.state.heap n) ∧ (e = 0 -> NoBacks bs') ∧
      (forall b, b ∈ bs' -> b.2.magic = heapMagicUsed -> b.2.prevPhys = 0) ∧
      HeapOk.Allocated bs bs' (asked n) r := by
  rcases hacc.live.ok.kmalloc_outcome hn hpages with
    ⟨bs1, fl1, h1, hgrown, hok1, hcase⟩
  rcases hacc.books.grown hgrown with ⟨hbooks1, hused1, hpeak1⟩
  have hnull1 := hgrown.noBacks hnull
  rcases hcase with
    ⟨hnot, hrun⟩ | ⟨before, a, t, after, rfl, hfree, hfit, hsplits, hrun⟩
  · have hrefused : HeapOk.Allocated bs bs1 (asked n) 0 :=
      Or.inl ⟨rfl, hgrown.used⟩
    have hheap := exec_kmalloc hrun
    refine ⟨0, bs1, fl1, 0, h1, hrun, ?_, iff_of_true rfl hnot,
      fun _ => hnull1, fun b hb _ => hnull1 b hb, hrefused⟩
    refine ⟨hacc.live.allocated hrun hok1 hrefused, ?_, List.mem_cons_self, ?_⟩
    · show Books (d + 0) bs1 (s.state.exec (HeapOp.kmalloc n)).heap.stat
      rw [hheap, UInt32.add_zero]
      exact hbooks1
    · show IsGreatest {v | v ∈ (s.state.exec _).heap.stat.usedBytes :: s.seen}
        (s.state.exec (HeapOp.kmalloc n)).heap.stat.peakUsage
      rw [hheap, hused1, hpeak1]
      exact peak_keep hacc.peak (hacc.peak.right hacc.current)
  · have hdvd := asked_dvd hn
    rcases hok1.takeBlock hfree hdvd hfit with ⟨hptr, fl', hok'⟩
    have hbooks' := hbooks1.takeBlock hok1 hfree hdvd hfit
    rcases hok1.stat_takeBlock hfree hdvd hfit with ⟨hcount, _⟩
    have halloc := (hok1.allocated_takeBlock hfree (Nat.le_refl (asked n))
      hfit).of_sameUsed hgrown.used
    have hpair : h1.takeBlock a (asked n) =
        (a + blockHdrSize, (h1.takeBlock a (asked n)).2) := Prod.ext hptr rfl
    rw [hpair] at hrun
    have hheap := exec_kmalloc hrun
    have hback : t.prevPhys = 0 := hnull1 (a, t) (by simp)
    have hbounds := hok1.inv.bounds (a := a) (t := t) (by simp)
    have hbrk := hok1.inv.brk_lt
    have hzero : UInt32.ofNat (t.size - (splitRest a (asked n) t).1) = 0 <->
        ¬ Splits s.state.heap n := by
      rw [hsplits, ← UInt32.toNat_inj,
        UInt32.toNat_ofNat_of_lt' (by show _ < 2 ^ 32; omega)]
      unfold splitRest
      split
      · rename_i hlarge
        unfold minBlockSize at *
        exact iff_of_false (by show _ ≠ 0; dsimp only; omega)
          (fun hnot => hnot hlarge)
      · rename_i hsmall
        exact iff_of_true (Nat.sub_self _) hsmall
    refine ⟨UInt32.ofNat (t.size - (splitRest a (asked n) t).1), _, fl', _, _,
      hrun, ?_, hzero, ?_, ?_, halloc⟩
    · refine ⟨hacc.live.allocated hrun hok' halloc, ?_, List.mem_cons_self, ?_⟩
      · show Books _ _ (s.state.exec (HeapOp.kmalloc n)).heap.stat
        rw [hheap]
        exact hbooks'
      · show IsGreatest {v | v ∈ (s.state.exec _).heap.stat.usedBytes :: s.seen}
          (s.state.exec (HeapOp.kmalloc n)).heap.stat.peakUsage
        rw [hheap, hcount.peak, hpeak1]
        exact peak_cons hacc.peak _
    · intro he b hb
      have hwhole : (splitRest a (asked n) t).2 = [] := by
        unfold splitRest
        rw [if_neg fun hlarge => hzero.mp he (hsplits.mpr hlarge)]
      rw [hwhole, List.nil_append] at hb
      rcases HeapInv.mem_replace (List.Subset.refl _) hb with heq | hmem
      · rw [heq]
        exact hback
      · apply hnull1
        simp only [List.mem_append, List.mem_cons] at hmem ⊢
        exact hmem.imp_right Or.inr
    · intro b hb hmagic
      rcases (HeapOk.used_takeBlock hfree hmagic).mp hb with hmem | heq
      · exact hnull1 b hmem
      · rw [heq]
        exact hback

/-- Only the values in the history count, not how often they occur. -/
theorem again (hacc : Accounts d bs fl s) {s' : HeapLog}
    (hstate : s'.state = s.state) (hseen : forall v, v ∈ s'.seen <-> v ∈ s.seen) :
    Accounts d bs fl s' := by
  have hset : {v | v ∈ s'.seen} = {v | v ∈ s.seen} := Set.ext hseen
  constructor
  · rw [hstate]
    exact hacc.live
  · rw [hstate]
    exact hacc.books
  · rw [hseen, hstate]
    exact hacc.current
  · rw [hset, hstate]
    exact hacc.peak

theorem live_pos (hacc : Accounts d bs fl s) : 0 ∉ s.state.live := by
  intro hmem
  rcases (hacc.live.live 0).mp hmem with ⟨a, t, hp, _⟩
  unfold blockHdrSize at hp
  omega

theorem kfree (hacc : Accounts d bs fl s) (hp : p ∈ s.state.live)
    (hused : forall b, b ∈ bs -> b.2.magic = heapMagicUsed ->
      b.2.prevPhys = 0) :
    exists bs' fl', Accounts d bs' fl'
        (s.exec (HeapCall.one (HeapOp.kfree p))) ∧
      (NoBacks bs -> NoBacks bs') := by
  rcases (hacc.live.live p).mp hp with ⟨a, t, rfl, ha, ht⟩
  rcases List.append_of_mem ha with ⟨before, after, rfl⟩
  rcases hacc.books.kfree hacc.live.ok ht (hused (a, t) ha ht) with
    ⟨bs', fl', hok', hsame, hbooks, hless, hpeak, hbacks⟩
  refine ⟨bs', fl', ⟨hacc.live.freed hok' hsame, hbooks, List.mem_cons_self,
    ?_⟩, ?_⟩
  · show IsGreatest {v | v ∈ (s.state.heap.kfree _).stat.usedBytes :: s.seen}
      (s.state.heap.kfree (a + blockHdrSize)).stat.peakUsage
    rw [hpeak, hless]
    refine peak_keep hacc.peak ?_
    have hle : UInt32.ofNat t.size ≤ s.state.heap.stat.usedBytes := by
      have hcount : t.used = true := by
        unfold Tag.used
        rw [ht]
        rfl
      have hbounds := hacc.live.ok.inv.bounds ha
      have hbrk := hacc.live.ok.inv.brk_lt
      rw [UInt32.le_iff_toNat_le, hacc.books.used_toNat hacc.live.ok.inv,
        UInt32.toNat_ofNat_of_lt' (by show _ < 2 ^ 32; omega)]
      simp [hcount]
      omega
    exact UInt32.le_trans (UInt32.sub_le hle) (hacc.peak.right hacc.current)
  · intro hnull b hb
    rcases hbacks b hb with hback | hmem
    · exact hback
    · apply hnull
      simp only [List.mem_append, List.mem_cons] at hmem ⊢
      exact hmem.imp_right Or.inr

theorem true_iff (hacc : Accounts d bs fl s) : StatsTrue s <-> d = 0 := by
  have hi := hacc.live.ok.inv
  have hlt := Books.sum_lt hi Tag.listed
  have hsum : ((s.state.heap.freeBlocks Heap.walkSteps
      s.state.heap.freeList).map s.state.heap.size).sum =
      sizeWhere Tag.listed bs := by
    rw [hi.freeBlocks]
    exact hi.free_sum
  have hnat : (UInt32.ofNat (sizeWhere Tag.listed bs)).toNat =
      sizeWhere Tag.listed bs := UInt32.toNat_ofNat_of_lt' hlt
  constructor
  · intro hstats
    have hfree := hstats.free
    rw [hacc.books.free, hsum] at hfree
    have hsame : UInt32.ofNat (sizeWhere Tag.listed bs) + d =
        UInt32.ofNat (sizeWhere Tag.listed bs) :=
      UInt32.toNat_inj.mp (hfree.trans hnat.symm)
    grind
  · intro hd
    constructor
    · rw [hacc.books.used_toNat hi, hacc.live.live_sum]
    · rw [hacc.books.free, hsum, hd, UInt32.add_zero]
      exact hnat
    · exact hacc.peak

theorem write (hacc : Accounts d bs fl s) {a : Nat} (v : UInt8)
    (hvalid : HeapOp.Valid s.state (HeapOp.write a v)) :
    Accounts d bs fl (s.exec (HeapCall.one (HeapOp.write a v))) where
  live := hacc.live.exec_write v hvalid
  books := hacc.books
  current := List.mem_cons_self
  peak := peak_keep hacc.peak (hacc.peak.right hacc.current)

theorem copyBytes (hacc : Accounts d bs fl s) {b : Nat} {v : Tag}
    (hb : (b, v) ∈ bs) (src : Nat) {k : Nat} (hk : k ≤ v.size) :
    Accounts d bs fl { s with state := { s.state with
      heap := s.state.heap.copyBytes src (b + blockHdrSize) k } } := by
  have hframe := s.state.heap.copyBytes_frame src (b + blockHdrSize) k
  have hstat : (s.state.heap.copyBytes src (b + blockHdrSize) k).stat =
      s.state.heap.stat := by rw [hframe]
  refine ⟨⟨hacc.live.ok.copyBytes src hb hk, hacc.live.returns,
    hacc.live.nodup, hacc.live.live⟩, ?_, ?_, ?_⟩
  · dsimp only
    rw [hstat]
    exact hacc.books
  · dsimp only
    rw [hstat]
    exact hacc.current
  · dsimp only
    rw [hstat]
    exact hacc.peak

theorem exec_krealloc {r : Nat} {h' : Heap}
    (hrun : s.state.heap.krealloc callDepth p n = some (r, h')) :
    s.exec (HeapCall.krealloc p n) =
      { state :=
          { s.state with
            heap := h'
            live :=
              if r = p then s.state.live
              else if r ≠ 0 then r :: s.state.live.erase p
              else if n = 0 then s.state.live.erase p
              else s.state.live }
        seen := h'.stat.usedBytes :: (s.state.heap.midway p n ++ s.seen) } := by
  unfold HeapLog.exec
  dsimp only
  rw [hrun]

theorem midway_asks (hasks : s.state.heap.Asks p n) {r : Nat} {h' : Heap}
    (hrun : Heap.kmalloc callDepth s.state.heap n = some (r, h')) :
    s.state.heap.midway p n = [h'.stat.usedBytes] := by
  unfold Heap.midway
  rw [if_pos hasks, hrun]

theorem exec_one_kmalloc {r : Nat} {h' : Heap}
    (hrun : Heap.kmalloc callDepth s.state.heap n = some (r, h')) :
    s.exec (HeapCall.one (HeapOp.kmalloc n)) =
      { state :=
          { s.state with
            heap := h'
            live := if r = 0 then s.state.live else r :: s.state.live }
        seen := h'.stat.usedBytes :: s.seen } := by
  unfold HeapLog.exec HeapState.exec
  dsimp only
  rw [hrun]

theorem krealloc_as_kmalloc {r : Nat} {h' : Heap} {e : UInt32}
    {bs' : List (Nat × Tag)} {fl' : List Nat}
    (hrun : Heap.kmalloc callDepth s.state.heap n = some (r, h'))
    (hacc : Accounts e bs' fl' (s.exec (HeapCall.one (HeapOp.kmalloc n))))
    (hasks : s.state.heap.Asks p n)
    (hsame : s.state.heap.krealloc callDepth p n = some (r, h'))
    (hlive : (if r = p then s.state.live
      else if r ≠ 0 then r :: s.state.live.erase p
      else if n = 0 then s.state.live.erase p else s.state.live) =
        if r = 0 then s.state.live else r :: s.state.live) :
    Accounts e bs' fl' (s.exec (HeapCall.krealloc p n)) := by
  have hone := exec_one_kmalloc hrun
  have hcall := exec_krealloc hsame
  rw [hlive, midway_asks hasks hrun] at hcall
  rw [hone] at hacc
  rw [hcall]
  refine hacc.again rfl fun v => ?_
  simp

/-- A block that is moved: allocated, copied, and the old one freed. -/
theorem krealloc_moved (hacc : Accounts d bs fl s) {b : Nat} {v : Tag}
    {r : Nat} {h' : Heap} {e : UInt32} {bs' : List (Nat × Tag)}
    {fl' : List Nat}
    (hrun : Heap.kmalloc callDepth s.state.heap n = some (r, h'))
    (hacc' : Accounts e bs' fl' (s.exec (HeapCall.one (HeapOp.kmalloc n))))
    (hasks : s.state.heap.Asks p n) (hp : p ∈ s.state.live) (hne : r ≠ p)
    (hr : r = b + blockHdrSize) (hb : (b, v) ∈ bs')
    (hroom : h'.size (sub32 p blockHdrSize) ≤ v.size)
    (hless : h'.size (sub32 p blockHdrSize) < n)
    (hused : forall b, b ∈ bs' -> b.2.magic = heapMagicUsed ->
      b.2.prevPhys = 0) :
    exists bs'' fl'', Accounts e bs'' fl'' (s.exec (HeapCall.krealloc p n)) ∧
      (NoBacks bs' -> NoBacks bs'') := by
  have hpos : p ≠ 0 := fun hnull => hacc.live_pos (hnull ▸ hp)
  have hrpos : r ≠ 0 := by
    unfold blockHdrSize at hr
    omega
  have hn : n ≠ 0 := by omega
  have hgrow : ¬ n ≤ s.state.heap.size (sub32 p blockHdrSize) := by
    rcases hasks with hnull | ⟨_, hlt⟩
    · exact absurd hnull hpos
    · exact Nat.not_le.mpr hlt
  have hcall : s.state.heap.krealloc callDepth p n = some (r,
      (h'.copyBytes p r (h'.size (sub32 p blockHdrSize))).kfree p) := by
    unfold Heap.krealloc
    rw [if_neg hpos, if_neg hn]
    dsimp only
    rw [if_neg hgrow, hrun]
    dsimp only
    rw [if_neg hrpos, if_pos hless]
  rw [exec_one_kmalloc hrun, if_neg hrpos] at hacc'
  have hcopied := hacc'.copyBytes hb p hroom
  rw [← hr] at hcopied
  rcases hcopied.kfree (List.mem_cons_of_mem r hp) hused with
    ⟨bs'', fl'', hfreed, hnull⟩
  refine ⟨bs'', fl'', hfreed.again ?_ ?_, hnull⟩
  · rw [exec_krealloc hcall, if_neg hne, if_pos hrpos]
    show _ = HeapState.mk _ ((r :: s.state.live).erase p) _
    rw [List.erase_cons_tail (by simpa using hne)]
  · intro w
    rw [exec_krealloc hcall, midway_asks hasks hrun]
    exact Iff.rfl

/-- `krealloc` that does not ask for a block frees its block, or does nothing. -/
theorem krealloc_kept (hacc : Accounts d bs fl s) (hnull : NoBacks bs)
    (hp : p ∈ s.state.live) (hasks : ¬ s.state.heap.Asks p n) :
    exists bs' fl', Accounts d bs' fl' (s.exec (HeapCall.krealloc p n)) ∧
      NoBacks bs' := by
  have hpos : p ≠ 0 := fun hnull => hacc.live_pos (hnull ▸ hp)
  have hmidway : s.state.heap.midway p n = [] := if_neg hasks
  by_cases hn : n = 0
  · have hcall : s.state.heap.krealloc callDepth p n =
        some (0, s.state.heap.kfree p) := by
      unfold Heap.krealloc
      rw [if_neg hpos, if_pos hn]
    rcases hacc.kfree hp fun b hb _ => hnull b hb with
      ⟨bs', fl', hfreed, hnull'⟩
    refine ⟨bs', fl', hfreed.again ?_ ?_, hnull' hnull⟩
    · rw [exec_krealloc hcall, if_neg (Ne.symm hpos),
        if_neg (fun h => h rfl), if_pos hn]
      rfl
    · intro v
      rw [exec_krealloc hcall, hmidway]
      exact Iff.rfl
  · have hfits : n ≤ s.state.heap.size (sub32 p blockHdrSize) := by
      by_contra hgrow
      exact hasks (Or.inr ⟨hn, Nat.not_le.mp hgrow⟩)
    have hcall : s.state.heap.krealloc callDepth p n =
        some (p, s.state.heap) := by
      unfold Heap.krealloc
      rw [if_neg hpos, if_neg hn]
      exact if_pos hfits
    refine ⟨bs, fl, hacc.again ?_ ?_, hnull⟩
    · rw [exec_krealloc hcall, if_pos rfl]
    · intro v
      rw [exec_krealloc hcall, hmidway, List.nil_append, List.mem_cons]
      refine or_iff_right_of_imp fun hv => ?_
      rw [hv]
      exact hacc.current

theorem krealloc (hacc : Accounts 0 bs fl s) (hnull : NoBacks bs)
    (hp : p = 0 ∨ p ∈ s.state.live) (hn : n < 2 ^ 32)
    (hwrap : HeapCall.NoWrap s (HeapCall.krealloc p n)) :
    exists e bs' fl', Accounts e bs' fl' (s.exec (HeapCall.krealloc p n)) ∧
      (e = 0 <-> ¬ HeapCall.Splits s (HeapCall.krealloc p n)) ∧
      (e = 0 -> NoBacks bs') := by
  by_cases hasks : s.state.heap.Asks p n
  · have hsplits : HeapCall.Splits s (HeapCall.krealloc p n) <->
        Splits s.state.heap n := by
      unfold HeapCall.Splits HeapCall.request
      simp [hasks]
    rcases hwrap hasks with ⟨hpages, hsize⟩
    rcases hacc.kmalloc hnull hn hpages with
      ⟨e, bs1, fl1, r, h1, hrun, hacc1, hzero, hnull1, hused1, halloc⟩
    rw [UInt32.zero_add] at hacc1
    rw [hsplits]
    by_cases hpos : p = 0
    · have hlive : (0 : Nat) ∉ s.state.live := hacc.live_pos
      refine ⟨e, bs1, fl1, krealloc_as_kmalloc hrun hacc1 hasks ?_ ?_, hzero,
        hnull1⟩
      · rw [hpos]
        exact (if_pos rfl).trans hrun
      · rw [hpos]
        by_cases hr : r = 0
        · rw [if_pos hr, if_pos hr]
        · rw [if_neg hr, if_neg hr, if_pos hr, List.erase_of_not_mem hlive]
    · have hmem := hp.resolve_left hpos
      have hgrow := hasks.resolve_left hpos
      rcases halloc with ⟨hr, _⟩ | ⟨b, v, hr, hv, hroom, hfresh, hblocks⟩
      · refine ⟨e, bs1, fl1, krealloc_as_kmalloc hrun hacc1 hasks ?_ ?_, hzero,
          hnull1⟩
        · unfold Heap.krealloc
          rw [if_neg hpos, if_neg hgrow.left]
          dsimp only
          rw [if_neg (Nat.not_le.mpr hgrow.right), hrun]
          dsimp only
          rw [if_pos hr, hr]
        · rw [if_neg (fun h => hpos (h.symm.trans hr)), if_neg (fun h => h hr),
            if_neg hgrow.left, if_pos hr]
      · rcases (hacc.live.live p).mp hmem with ⟨a, t, hpa, ha, ht⟩
        have ha1 : (a, t) ∈ bs1 := (hblocks (a, t) ht).mpr (Or.inl ha)
        have hb1 : (b, v) ∈ bs1 := (hblocks (b, v) hv).mpr (Or.inr rfl)
        have hne : r ≠ p := by
          intro heq
          have hab : b = a := by omega
          rw [hab] at hfresh
          exact hfresh t ha ht
        have hblk : sub32 p blockHdrSize = a := by
          rw [hpa]
          exact hacc.live.ok.inv.header_of_payload ha
        have hold : s.state.heap.size a = t.size :=
          (hacc.live.ok.inv.read ha).right.left
        have hnew : h1.size a = t.size := by
          have hi := hacc1.live.ok.inv
          rw [exec_one_kmalloc hrun] at hi
          exact (hi.read ha1).right.left
        have hrpos : r ≠ 0 := by
          unfold blockHdrSize at hr
          omega
        have hsmall := hacc.live.ok.small_of_granted (callDepth - 2) hn hsize
          hrun hrpos
        have hasked : asked n = rounded n := align_request hsmall
        have hrounded := (rounded_bounds n).left
        rw [hblk, hold] at hgrow
        rcases hacc.krealloc_moved hrun hacc1 hasks hmem hne hr hb1
            (by rw [hblk, hnew]; omega) (by rw [hblk, hnew]; exact hgrow.right)
            hused1 with ⟨bs2, fl2, hmoved, hnull2⟩
        exact ⟨e, bs2, fl2, hmoved, hzero, fun he => hnull2 (hnull1 he)⟩
  · have hmem : p ∈ s.state.live := hp.resolve_left fun h => hasks (Or.inl h)
    have hnot : ¬ HeapCall.Splits s (HeapCall.krealloc p n) := by
      unfold HeapCall.Splits HeapCall.request
      simp [hasks]
    rcases hacc.krealloc_kept hnull hmem hasks with ⟨bs', fl', hkept, hnull'⟩
    exact ⟨0, bs', fl', hkept, iff_of_true rfl hnot, fun _ => hnull'⟩

/-- One call makes the statistics wrong exactly when it splits a block. -/
theorem step (hacc : Accounts 0 bs fl s) (hnull : NoBacks bs) {c : HeapCall}
    (hvalid : c.Valid s) (hwrap : c.NoWrap s) :
    exists e bs' fl', Accounts e bs' fl' (s.exec c) ∧
      (e = 0 <-> ¬ c.Splits s) ∧ (e = 0 -> NoBacks bs') := by
  have hno : forall o, HeapCall.request s (HeapCall.one o) = none ->
      ¬ HeapCall.Splits s (HeapCall.one o) := by
    rintro o hnone ⟨n, hsome, _⟩
    rw [hnone] at hsome
    cases hsome
  cases c with
  | one o =>
      cases o with
      | kmalloc n =>
          rcases hacc.kmalloc hnull hvalid hwrap with
            ⟨e, bs', fl', r, h', _, hacc', hzero, hnull', _, _⟩
          rw [UInt32.zero_add] at hacc'
          refine ⟨e, bs', fl', hacc', ?_, hnull'⟩
          rw [hzero]
          unfold HeapCall.Splits HeapCall.request
          simp
      | kfree p =>
          have hrest := iff_of_true (rfl : (0 : UInt32) = 0)
            (hno (HeapOp.kfree p) rfl)
          rcases hvalid with hp | hp
          · have hlive : (0 : Nat) ∉ s.state.live := hacc.live_pos
            have hnothing : s.state.exec (HeapOp.kfree p) = s.state := by
              show HeapState.mk _ (s.state.live.erase p) _ = _
              rw [hp, List.erase_of_not_mem hlive]
              rfl
            refine ⟨0, bs, fl, hacc.again hnothing fun v => ?_, hrest,
              fun _ => hnull⟩
            show v ∈ (s.state.exec (HeapOp.kfree p)).heap.stat.usedBytes ::
              s.seen <-> _
            rw [hnothing, List.mem_cons]
            refine or_iff_right_of_imp fun hv => ?_
            rw [hv]
            exact hacc.current
          · rcases hacc.kfree hp fun b hb _ => hnull b hb with
              ⟨bs', fl', hfreed, hnull'⟩
            exact ⟨0, bs', fl', hfreed, hrest, fun _ => hnull' hnull⟩
      | write a v =>
          exact ⟨0, bs, fl, hacc.write v hvalid,
            iff_of_true rfl (hno (HeapOp.write a v) rfl), fun _ => hnull⟩
  | krealloc p n => exact hacc.krealloc hnull hvalid.left hvalid.right hwrap

end Accounts

theorem accounts_start (mem : Memory) {virtStart size : Nat}
    (hregion : HeapRegion virtStart size) :
    exists bs fl, Accounts 0 bs fl (logStart mem virtStart size) ∧
      NoBacks bs := by
  rcases heapStart_grown mem hregion with ⟨bs, fl, hl, hgrown⟩
  have hbare : Books 0 [] (bareHeap mem virtStart size).stat := ⟨rfl, rfl⟩
  rcases hbare.grown hgrown with ⟨hbooks, hused, hpeak⟩
  refine ⟨bs, fl, ⟨hl, hbooks, ?_, ?_⟩, hgrown.noBacks ?_⟩
  · unfold logStart
    rw [List.mem_singleton]
  · unfold logStart
    dsimp only
    rw [hused, hpeak]
    refine ⟨List.mem_cons_self, fun v hv => ?_⟩
    rw [List.mem_singleton.mp hv]
    exact UInt32.le_refl _
  · intro b hb
    cases hb

/-!
# Runs
-/

/--
In a run of calls whose sizes do not wrap, the statistics are true all along
exactly when no call splits a block.
-/
theorem stats_true_iff (mem : Memory) {virtStart size : Nat}
    (hregion : HeapRegion virtStart size) {calls : List HeapCall}
    (hvalid : Meets HeapLog.exec (fun s c => c.Valid s ∧ c.NoWrap s)
      (logStart mem virtStart size) calls) :
    Meets HeapLog.exec (fun s c => ¬ c.Splits s) (logStart mem virtStart size)
        calls <->
      forall first, first <+: calls ->
        StatsTrue (run HeapLog.exec (logStart mem virtStart size) first) := by
  have hgood : forall s : HeapLog,
      (exists bs fl, Accounts 0 bs fl s ∧ NoBacks bs) -> ¬ ¬ StatsTrue s := by
    rintro s ⟨bs, fl, hacc, _⟩ hbad
    exact hbad (hacc.true_iff.mpr rfl)
  have hstep : forall (s : HeapLog) (c : HeapCall),
      (exists bs fl, Accounts 0 bs fl s ∧ NoBacks bs) ->
      c.Valid s ∧ c.NoWrap s ->
      (¬ c.Splits s ∧ exists bs fl, Accounts 0 bs fl (s.exec c) ∧ NoBacks bs) ∨
        (¬ ¬ c.Splits s ∧ ¬ StatsTrue (s.exec c)) := by
    rintro s c ⟨bs, fl, hacc, hnull⟩ ⟨hvalid, hwrap⟩
    rcases hacc.step hnull hvalid hwrap with
      ⟨e, bs', fl', hacc', hzero, hnull'⟩
    by_cases he : e = 0
    · rw [he] at hacc'
      exact Or.inl ⟨hzero.mp he, bs', fl', hacc', hnull' he⟩
    · refine Or.inr ⟨fun hnot => he (hzero.mpr hnot), fun hstats => ?_⟩
      exact he (hacc'.true_iff.mp hstats)
  rw [Meets.iff_never hgood hstep (accounts_start mem hregion) hvalid]
  exact forall_congr' fun first => imp_congr_right fun _ => Classical.not_not

/-- The kernel's heap, over memory that was cleared. -/
def kernelLog : HeapLog := logStart (fun _ => 0) kernelHeapStart kernelHeapSize

/-- The first block is taken whole, and given back. -/
def wholeRun : List HeapCall :=
  [HeapCall.one (HeapOp.kmalloc 8160),
    HeapCall.krealloc (kernelHeapStart + 32) 0]

theorem stats_true_iff_wholeRun :
    Meets HeapLog.exec (fun s c => ¬ c.Splits s) kernelLog wholeRun <->
      forall first, first <+: wholeRun ->
        StatsTrue (run HeapLog.exec kernelLog first) := by
  refine stats_true_iff (fun _ => 0) heapRegion_kernel
    ⟨⟨?_, ?_⟩, ⟨⟨?_, ?_⟩, ?_⟩, trivial⟩
  · show 8160 < 2 ^ 32
    decide
  · exact fun _ => Or.inr (by decide +kernel)
  · right
    show kernelHeapStart + 32 ∈ HeapState.live _
    decide +kernel
  · decide
  · show Heap.Asks _ _ _ -> _
    exact fun hasks => absurd hasks (by decide +kernel)

/-- The first `kmalloc(16)` splits the block and leaves 8112 bytes free; the count says 16256. -/
theorem stats_drift :
    ¬ forall s, Reachable HeapLog.exec (fun s c => c.Valid s) kernelLog s ->
      StatsTrue s := by
  intro hclaim
  have hvalid : HeapCall.Valid kernelLog (HeapCall.one (HeapOp.kmalloc 16)) := by
    show 16 < 2 ^ 32
    decide
  have hfree := (hclaim _ (Reachable.one hvalid)).free
  have hcount : (kernelLog.exec (HeapCall.one (HeapOp.kmalloc
      16))).state.heap.stat.freeBytes.toNat = 16256 := by decide +kernel
  have hsum : (((kernelLog.exec (HeapCall.one (HeapOp.kmalloc
      16))).state.heap.freeBlocks Heap.walkSteps (kernelLog.exec (HeapCall.one
        (HeapOp.kmalloc 16))).state.heap.freeList).map (kernelLog.exec
          (HeapCall.one (HeapOp.kmalloc 16))).state.heap.size).sum = 8112 := by
    decide +kernel
  rw [hcount, hsum] at hfree
  exact absurd hfree (by decide)

end Mm
end EarlnuxOS
