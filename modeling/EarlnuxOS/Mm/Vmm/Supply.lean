import Mathlib.Data.Set.Insert
import EarlnuxOS.Mm.Vmm.Paging

/-!
# What an allocator hands out

The answers of an allocator that is only asked for frames.  A supply is sound
when no frame comes twice and none comes that is in use.
-/

namespace EarlnuxOS
namespace Mm

universe u

variable {alpha : Type u} [PageAllocator alpha] {a : alpha}

def after (a : alpha) : Nat -> alpha
  | 0 => a
  | n + 1 => after (PageAllocator.pmmAllocPage a).2 n

def answer (a : alpha) (n : Nat) : UInt32 :=
  (PageAllocator.pmmAllocPage (after a n)).1

def Given (a : alpha) (f : UInt32) : Prop :=
  f ≠ 0 ∧ exists n, answer a n = f

theorem answer_succ (a : alpha) (n : Nat) :
    answer a (n + 1) = answer (PageAllocator.pmmAllocPage a).2 n := rfl

theorem after_succ (a : alpha) (n : Nat) :
    after a (n + 1) = after (PageAllocator.pmmAllocPage a).2 n := rfl

theorem after_add (a : alpha) (m n : Nat) :
    after a (m + n) = after (after a m) n := by
  induction m generalizing a with
  | zero => rw [Nat.zero_add, after]
  | succ m ih =>
      rw [Nat.succ_add, after, after]
      exact ih _

theorem answer_after (a : alpha) (m n : Nat) :
    answer (after a m) n = answer a (m + n) := by
  unfold answer
  rw [after_add]

theorem Given.of_after {f : UInt32} {n : Nat} (h : Given (after a n) f) :
    Given a f := by
  rcases h with ⟨hne, m, hm⟩
  exact ⟨hne, n + m, (answer_after a n m).symm.trans hm⟩

theorem Given.of_next {f : UInt32}
    (h : Given (PageAllocator.pmmAllocPage a).2 f) : Given a f :=
  Given.of_after (n := 1) h

/-- Frames come at most once, and none comes from a set. -/
structure Supply (a : alpha) (used : Set UInt32) : Prop where
  aligned : forall n, frame (answer a n) = answer a n
  unused : forall f, Given a f -> f ∉ used
  distinct : forall m n, m < n -> answer a m = answer a n -> answer a n = 0

theorem Supply.mono {used used' : Set UInt32} (h : Supply a used)
    (hsub : used' ⊆ used) : Supply a used' where
  aligned := h.aligned
  unused := fun f hf hmem => h.unused f hf (hsub hmem)
  distinct := h.distinct

theorem Supply.not_given {used : Set UInt32} (h : Supply a used) :
    ¬ Given (PageAllocator.pmmAllocPage a).2 (answer a 0) := by
  intro hgiven
  rcases hgiven with ⟨hne, n, hn⟩
  rw [← answer_succ] at hn
  exact hne (hn.symm.trans (h.distinct 0 (n + 1) (Nat.succ_pos n) hn.symm))

theorem Supply.next {used : Set UInt32} (h : Supply a used) :
    Supply (PageAllocator.pmmAllocPage a).2 (insert (answer a 0) used) where
  aligned := fun n => h.aligned (n + 1)
  unused := by
    intro f hf hmem
    rcases Set.mem_insert_iff.mp hmem with heq | hmem
    · rw [heq] at hf
      exact h.not_given hf
    · exact h.unused f hf.of_next hmem
  distinct := fun m n hlt heq =>
    h.distinct (m + 1) (n + 1) (Nat.succ_lt_succ hlt) heq

theorem Supply.after {used : Set UInt32} (h : Supply a used) (n : Nat) :
    Supply (after a n) used where
  aligned := by
    intro m
    rw [answer_after]
    exact h.aligned _
  unused := fun f hf => h.unused f hf.of_after
  distinct := by
    intro m m' hlt heq
    rw [answer_after, answer_after] at heq
    rw [answer_after]
    exact h.distinct _ _ (by omega) heq

theorem given_first (h : answer a 0 ≠ 0) : Given a (answer a 0) :=
  ⟨h, 0, rfl⟩

theorem Supply.not_given_after {used : Set UInt32} (h : Supply a used)
    {m n : Nat} (hlt : m < n) : ¬ Given (Mm.after a n) (answer a m) := by
  intro hgiven
  rcases hgiven with ⟨hne, k, hk⟩
  rw [answer_after] at hk
  exact hne (hk.symm.trans (h.distinct m (n + k) (by omega) hk.symm))

def drawn (a : alpha) (n : Nat) : List UInt32 :=
  ((List.range n).map (answer a)).filter (fun f => f ≠ 0)

theorem drawn_add (a : alpha) (m n : Nat) :
    drawn a (m + n) = drawn a m ++ drawn (after a m) n := by
  unfold drawn
  rw [List.range_add, List.map_append, List.filter_append, List.map_map]
  congr 2
  apply List.map_congr_left
  intro k _
  exact (answer_after a m k).symm

theorem Supply.nodup_drawn {used : Set UInt32}
    (h : Supply a used) (n : Nat) : (drawn a n).Nodup := by
  unfold drawn
  rw [List.Nodup, List.pairwise_filter, List.pairwise_map]
  apply List.pairwise_lt_range.imp
  intro k m hlt _ hm heq
  exact of_decide_eq_true hm (h.distinct k m hlt heq)

end Mm
end EarlnuxOS
