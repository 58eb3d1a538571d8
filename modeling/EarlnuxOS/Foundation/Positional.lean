import Mathlib.Data.Nat.Digits.Lemmas

/-!
# Numerals in a base

The digits of a number, the most significant one first, and the number that a
list of digits stands for.
-/

namespace EarlnuxOS
namespace Foundation

def numeral (base n : Nat) : List Nat :=
  if n = 0 then [0] else (Nat.digits base n).reverse

def horner (base : Nat) (ds : List Nat) : Nat :=
  ds.foldl (fun n d => n * base + d) 0

/-- Digits of the base, without a zero in front of others. -/
structure Canonical (base : Nat) (ds : List Nat) : Prop where
  nonempty : ds ≠ []
  lt_base : forall d, d ∈ ds -> d < base
  head : ds.head? = some 0 -> ds = [0]

theorem horner_append_digit (base : Nat) (ds : List Nat) (d : Nat) :
    horner base (ds ++ [d]) = horner base ds * base + d := by
  unfold horner
  rw [List.foldl_append]
  rfl

theorem horner_reverse (base : Nat) (ds : List Nat) :
    horner base ds.reverse = Nat.ofDigits base ds := by
  induction ds with
  | nil => rfl
  | cons d ds ih =>
      rw [List.reverse_cons, horner_append_digit, ih, Nat.ofDigits_cons,
        Nat.add_comm, Nat.mul_comm]

theorem horner_numeral (base n : Nat) : horner base (numeral base n) = n := by
  unfold numeral
  split
  · rename_i hzero
    rw [hzero]
    exact Nat.zero_mul base
  · rw [horner_reverse, Nat.ofDigits_digits]

theorem canonical_numeral {base : Nat} (hbase : 1 < base) (n : Nat) :
    Canonical base (numeral base n) := by
  unfold numeral
  split
  · exact ⟨List.cons_ne_nil 0 [],
      List.forall_mem_singleton.mpr (Nat.zero_lt_of_lt hbase), fun _ => rfl⟩
  · rename_i hne
    have hsome : Nat.digits base n ≠ [] := Nat.digits_ne_nil_iff_ne_zero.mpr hne
    refine ⟨fun hnil => hsome (List.reverse_eq_nil_iff.mp hnil), ?_, ?_⟩
    · intro d hd
      exact Nat.digits_lt_base hbase (List.mem_reverse.mp hd)
    · intro hhead
      rw [List.head?_reverse, List.getLast?_eq_getLast_of_ne_nil hsome] at hhead
      exact absurd (Option.some.inj hhead) (Nat.getLast_digit_ne_zero base hne)

theorem length_numeral_le {base n k : Nat} (hbase : 1 < base) (hk : 0 < k)
    (hn : n < base ^ k) : (numeral base n).length ≤ k := by
  unfold numeral
  split
  · exact hk
  · rw [List.length_reverse]
    exact (Nat.digits_length_le_iff hbase n).mpr hn

end Foundation
end EarlnuxOS
