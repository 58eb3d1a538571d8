import EarlnuxOS.Foundation.Halting
import EarlnuxOS.Foundation.Words
import EarlnuxOS.Lib.Strings

/-!
# Searching in memory

`strstr` as it moves its pointers through memory, one comparison of bytes at a
time.  The pointers stay in the two strings, and the answer is that of the
search in lists.
-/

namespace EarlnuxOS
namespace Lib

open Foundation Fs

/-- Where `strstr` is, with the pointers that are in scope there. -/
inductive Search where
  | start (haystack : Nat)
  | outer (haystack : Nat)
  | inner (haystack h n : Nat)
  | check (haystack n : Nat)
  | done (answer : Option Nat)
deriving DecidableEq

namespace Search

/-- `strstr`, from one comparison to the next. -/
def step (m : Memory) (needle : Nat) : Search -> Option Search
  | start haystack =>
      -- if (!*needle) return (char *)haystack;
      if m needle = 0 then some (done (some haystack))
      else some (outer haystack)
  | outer haystack =>
      -- for ( ; *haystack; haystack++)
      if m haystack = 0 then some (done none)
      else some (inner haystack haystack needle)
  | inner haystack h n =>
      -- while (*h && *n && *h == *n) { h++; n++; }
      if m h ≠ 0 ∧ m n ≠ 0 ∧ m h = m n then
        some (inner haystack (h + 1) (n + 1))
      else some (check haystack n)
  | check haystack n =>
      -- if (!*n) return (char *)haystack;
      if m n = 0 then some (done (some haystack))
      else some (outer (haystack + 1))
  | done _ => none

def haystackReads : Search -> List Nat
  | outer haystack => [haystack]
  | inner _ h _ => [h]
  | _ => []

def needleReads (m : Memory) (needle : Nat) : Search -> List Nat
  | start _ => [needle]
  | inner _ h n => if m h = 0 then [] else [n]
  | check _ n => [n]
  | _ => []

/-- Neither string is read outside its characters and its terminator. -/
structure ReadsInside (m : Memory) (haystack needle : Nat) (hs ns : CStr)
    (s : Search) : Prop where
  haystack_inside : forall x, x ∈ s.haystackReads ->
    haystack ≤ x ∧ x ≤ haystack + hs.length
  needle_inside : forall x, x ∈ s.needleReads m needle ->
    needle ≤ x ∧ x ≤ needle + ns.length

end Search

structure FirstAt (ns hs : CStr) (i : Nat) : Prop where
  here : ns <+: hs.drop i
  least : forall j, ns <+: hs.drop j -> i ≤ j

/-- What is said of a call: how it reads, and what it returns. -/
structure FindsFirst (m : Memory) (haystack needle : Nat) (hs ns : CStr)
    (answer : Option Nat) : Prop where
  returns : HaltsWithin (Search.step m needle)
    (Search.ReadsInside m haystack needle hs ns) (Search.start haystack)
    (Search.done answer)
  null_iff : answer = none <-> ¬ ns <:+: hs
  first : forall p, answer = some p ->
    exists i, p = haystack + i ∧ FirstAt ns hs i

/-!
# The two loops
-/

section

variable {m : Memory} {haystack needle : Nat} {hs ns : CStr}

theorem inner_readsInside {hay h n : Nat} {hrest nrest : CStr}
    (hh : PointsInto m haystack (haystack + hs.length) h hrest)
    (hn : PointsInto m needle (needle + ns.length) n nrest) :
    Search.ReadsInside m haystack needle hs ns (Search.inner hay h n) := by
  constructor
  · exact List.forall_mem_singleton.mpr ⟨hh.lower, hh.le⟩
  · intro x hx
    change x ∈ (if m h = 0 then [] else [n]) at hx
    split at hx
    · cases hx
    · rw [List.mem_singleton.mp hx]
      exact ⟨hn.lower, hn.le⟩

/-- The inner loop leaves `n` at the terminator exactly when all is matched. -/
theorem inner_halts {hay h n : Nat} {hrest nrest : CStr} {last : Search}
    (hh : PointsInto m haystack (haystack + hs.length) h hrest)
    (hn : PointsInto m needle (needle + ns.length) n nrest)
    (hcheck : forall n', needle ≤ n' -> n' ≤ needle + ns.length ->
      (m n' = 0 <-> matchFront hrest nrest = true) ->
      HaltsWithin (Search.step m needle)
        (Search.ReadsInside m haystack needle hs ns) (Search.check hay n') last) :
    HaltsWithin (Search.step m needle)
      (Search.ReadsInside m haystack needle hs ns) (Search.inner hay h n) last := by
  induction hrest generalizing h n nrest with
  | nil =>
      have hnul : m h = 0 := hh.holds
      refine HaltsWithin.next (if_neg fun hc => hc.left hnul)
        (inner_readsInside hh hn) ?_
      apply hcheck n hn.lower hn.le
      cases nrest with
      | nil => exact iff_of_true hn.holds rfl
      | cons b nrest =>
          refine iff_of_false ?_ Bool.false_ne_true
          rw [hn.holds.left]
          exact hn.holds.right.left
  | cons c hrest ih =>
      cases nrest with
      | nil =>
          have hnul : m n = 0 := hn.holds
          refine HaltsWithin.next (if_neg fun hc => hc.right.left hnul)
            (inner_readsInside hh hn) ?_
          exact hcheck n hn.lower hn.le (iff_of_true hnul rfl)
      | cons b nrest =>
          have hc : m h = c := hh.holds.left
          have hb : m n = b := hn.holds.left
          have hbne : m n ≠ 0 := hb.symm ▸ hn.holds.right.left
          by_cases heq : c = b
          · have hcond : m h ≠ 0 ∧ m n ≠ 0 ∧ m h = m n := by
              rw [hc, hb]
              exact ⟨hh.holds.right.left, hn.holds.right.left, heq⟩
            have hmatch : matchFront (c :: hrest) (b :: nrest) =
                matchFront hrest nrest := by
              rw [matchFront, heq, beq_self_eq_true, Bool.true_and]
            rw [hmatch] at hcheck
            refine HaltsWithin.next (if_pos hcond) (inner_readsInside hh hn) ?_
            exact ih hh.next hn.next hcheck
          · have hcond : ¬ (m h ≠ 0 ∧ m n ≠ 0 ∧ m h = m n) := by
              rw [hc, hb]
              exact fun hall => heq hall.right.right
            refine HaltsWithin.next (if_neg hcond) (inner_readsInside hh hn) ?_
            apply hcheck n hn.lower hn.le
            refine iff_of_false hbne ?_
            rw [matchFront, beq_false_of_ne heq]
            exact Bool.false_ne_true

theorem outer_halts {hay : Nat} {hrest : CStr}
    (hneedle : HoldsString m needle ns)
    (hh : PointsInto m haystack (haystack + hs.length) hay hrest) :
    HaltsWithin (Search.step m needle)
      (Search.ReadsInside m haystack needle hs ns) (Search.outer hay)
      (Search.done ((strstrLoop ns hrest).map (hay + ·))) := by
  have hreads : Search.ReadsInside m haystack needle hs ns
      (Search.outer hay) :=
    ⟨List.forall_mem_singleton.mpr ⟨hh.lower, hh.le⟩, List.forall_mem_nil _⟩
  induction hrest generalizing hay with
  | nil =>
      have hnul : m hay = 0 := hh.holds
      exact HaltsWithin.next (if_pos hnul) hreads (HaltsWithin.stop rfl)
  | cons c hrest ih =>
      have hne : ¬ m hay = 0 := hh.holds.left.symm ▸ hh.holds.right.left
      refine HaltsWithin.next (if_neg hne) hreads ?_
      apply inner_halts hh hneedle.pointsInto
      intro n' hlower hupper hmatch
      have hcheck : Search.ReadsInside m haystack needle hs ns
          (Search.check hay n') :=
        ⟨List.forall_mem_nil _, List.forall_mem_singleton.mpr ⟨hlower, hupper⟩⟩
      unfold strstrLoop
      by_cases hnul : m n' = 0
      · rw [if_pos (hmatch.mp hnul)]
        exact HaltsWithin.next (if_pos hnul) hcheck (HaltsWithin.stop rfl)
      · rw [if_neg fun hfront => hnul (hmatch.mpr hfront), Option.map_map]
        refine HaltsWithin.next (if_neg hnul) hcheck ?_
        have hshift : (hay + ·) ∘ (· + 1) = (hay + 1 + ·) := by
          funext i
          exact Nat.add_right_comm hay i 1
        rw [hshift]
        exact ih hh.next ⟨List.forall_mem_singleton.mpr
          ⟨hh.next.lower, hh.next.le⟩, List.forall_mem_nil _⟩

theorem strstr_halts (hhay : HoldsString m haystack hs)
    (hneedle : HoldsString m needle ns) :
    HaltsWithin (Search.step m needle)
      (Search.ReadsInside m haystack needle hs ns) (Search.start haystack)
      (Search.done ((strstr hs ns).map (haystack + ·))) := by
  have hreads : Search.ReadsInside m haystack needle hs ns
      (Search.start haystack) :=
    ⟨List.forall_mem_nil _, List.forall_mem_singleton.mpr
      ⟨Nat.le_refl needle, Nat.le_add_right needle ns.length⟩⟩
  unfold strstr
  cases ns with
  | nil =>
      rw [if_pos rfl]
      have hnul : m needle = 0 := hneedle
      exact HaltsWithin.next (if_pos hnul) hreads (HaltsWithin.stop rfl)
  | cons b ns =>
      have hne : ¬ m needle = 0 := hneedle.left.symm ▸ hneedle.right.left
      rw [if_neg (List.cons_ne_nil b ns)]
      exact HaltsWithin.next (if_neg hne) hreads
        (outer_halts hneedle hhay.pointsInto)

end

/-!
# The first occurrence
-/

theorem firstAt_of_strstr {hs ns : CStr} {i : Nat}
    (h : strstr hs ns = some i) : FirstAt ns hs i := by
  rcases strstr_some h with ⟨⟨front, rest, hhere, hlen⟩, hfirst⟩
  constructor
  · rw [hhere, ← hlen, List.drop_left]
    exact List.prefix_append ns rest
  · intro j hj
    rcases hj with ⟨rest', hrest'⟩
    have hle := hfirst (hs.take j) rest' (by rw [hrest', List.take_append_drop])
    exact hle.trans (List.length_take_le j hs)

/-- `strstr` finds the first occurrence, and reads no further than it must. -/
theorem strstr_first {m : Memory} {haystack needle : Nat} {hs ns : CStr}
    (hhay : HoldsString m haystack hs) (hneedle : HoldsString m needle ns) :
    exists answer, FindsFirst m haystack needle hs ns answer := by
  refine ⟨(strstr hs ns).map (haystack + ·), strstr_halts hhay hneedle, ?_, ?_⟩
  · rw [Option.map_eq_none_iff, ← Option.not_isSome_iff_eq_none,
      strstr_isSome]
  · intro p hp
    rcases Option.map_eq_some_iff.mp hp with ⟨i, hi, hpi⟩
    exact ⟨i, hpi.symm, firstAt_of_strstr hi⟩

/-- A haystack at 64 in which the needle at 96 overlaps itself. -/
def searchMemory : Memory :=
  writeBytes (writeBytes (fun _ => 0) 64 (cstr "aababab")) 96 (cstr "abab")

theorem strstr_first_overlap :
    exists answer, FindsFirst searchMemory 64 96 (cstr "aababab") (cstr "abab")
      answer :=
  strstr_first
    (holdsString_of_holdsAt (by decide) (by unfold HoldsAt; decide +kernel))
    (holdsString_of_holdsAt (by decide) (by unfold HoldsAt; decide +kernel))

end Lib
end EarlnuxOS
