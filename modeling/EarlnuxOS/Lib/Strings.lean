import Mathlib.Data.List.Infix
import EarlnuxOS.Fs.Path

/-!
# Strings

The string functions of `kernel/lib/string.c` that search, and the string that
a piece of memory holds.
-/

namespace EarlnuxOS
namespace Lib

open Fs

def terminated (memory : CStr) : CStr := memory.takeWhile (fun c => c != 0)

/-- The inner loop of `strstr`: whether all of the needle is matched. -/
def matchFront : CStr -> CStr -> Bool
  | _, [] => true
  | [], _ :: _ => false
  | h :: haystack, n :: needle => h == n && matchFront haystack needle

def strstrLoop (needle : CStr) : CStr -> Option Nat
  | [] => none
  | h :: haystack =>
      if matchFront (h :: haystack) needle then some 0
      else (strstrLoop needle haystack).map (· + 1)

/-- `strstr`: where the needle stands. -/
def strstr (haystack needle : CStr) : Option Nat :=
  if needle = [] then some 0 else strstrLoop needle haystack

theorem matchFront_iff {haystack needle : CStr} :
    matchFront haystack needle = true <-> needle <+: haystack := by
  induction needle generalizing haystack with
  | nil =>
      refine iff_of_true ?_ (List.nil_prefix)
      cases haystack <;> rfl
  | cons n needle ih =>
      cases haystack with
      | nil =>
          refine iff_of_false Bool.false_ne_true ?_
          intro h
          have hlen := h.length_le
          simp at hlen
      | cons h haystack =>
          unfold matchFront
          rw [Bool.and_eq_true, beq_iff_eq, ih, List.cons_prefix_cons]
          exact and_congr_left fun _ => eq_comm

theorem strstr_isSome {haystack needle : CStr} :
    (strstr haystack needle).isSome = true <-> needle <:+: haystack := by
  unfold strstr
  split
  · rename_i hnil
    rw [hnil]
    exact iff_of_true rfl List.nil_infix
  · rename_i hne
    induction haystack with
    | nil =>
        refine iff_of_false (fun h => by cases h) ?_
        intro h
        exact hne (List.eq_nil_of_infix_nil h)
    | cons h haystack ih =>
        rw [strstrLoop, List.infix_cons_iff, ← matchFront_iff, ← ih]
        split
        · rename_i hfront
          exact iff_of_true rfl (Or.inl hfront)
        · rename_i hfront
          rw [Option.isSome_map, or_iff_right hfront]

theorem strstr_none {haystack needle : CStr}
    (h : strstr haystack needle = none) : ¬ needle <:+: haystack := by
  rw [← strstr_isSome, h]
  exact Bool.false_ne_true

theorem strstr_some {haystack needle : CStr} {i : Nat}
    (h : strstr haystack needle = some i) :
    (exists front rest, haystack = front ++ (needle ++ rest) ∧
      front.length = i) ∧
    forall front rest, haystack = front ++ (needle ++ rest) ->
      i ≤ front.length := by
  unfold strstr at h
  split at h
  · rename_i hnil
    cases h
    refine ⟨⟨[], haystack, by rw [hnil]; rfl, rfl⟩, ?_⟩
    intro front rest hhere
    exact Nat.zero_le front.length
  · induction haystack generalizing i with
    | nil => cases h
    | cons c haystack ih =>
        rw [strstrLoop] at h
        split at h
        · rename_i hfront
          cases h
          rcases matchFront_iff.mp hfront with ⟨rest, hrest⟩
          exact ⟨⟨[], rest, hrest.symm, rfl⟩, fun front _ _ =>
            Nat.zero_le front.length⟩
        · rename_i hfront
          rcases Option.map_eq_some_iff.mp h with ⟨j, hj, hi⟩
          rcases ih hj with ⟨⟨front, rest, hhere, hlen⟩, hfirst⟩
          subst hi
          refine ⟨⟨c :: front, rest, by rw [hhere]; rfl, by rw [← hlen]; rfl⟩,
            ?_⟩
          intro front' rest' hhere'
          cases front' with
          | nil =>
              refine absurd (matchFront_iff.mpr ?_) hfront
              exact ⟨rest', hhere'.symm⟩
          | cons b front' =>
              rw [List.cons_append] at hhere'
              exact Nat.succ_le_succ
                (hfirst front' rest' (List.cons.inj hhere').right)

theorem terminated_append {s memory : CStr} (hs : 0 ∉ s) :
    terminated (s ++ memory) = s ++ terminated memory := by
  unfold terminated
  apply List.takeWhile_append_of_pos
  intro c hc
  have hne : c ≠ 0 := fun h => hs (h ▸ hc)
  simpa using hne

end Lib
end EarlnuxOS
