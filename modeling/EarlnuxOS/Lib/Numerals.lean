import EarlnuxOS.Foundation.Positional
import EarlnuxOS.Lib.Printf

/-!
# Numerals as strings

The numbers that strings of digits stand for.  `uint_to_str` writes the numeral
of its argument.
-/

namespace EarlnuxOS
namespace Lib

open Foundation Fs

structure Numeral (g : CStr) : Prop where
  digits : forall c, c ∈ g -> isDigit c = true
  nonempty : g ≠ []

instance (g : CStr) : Decidable (Numeral g) :=
  decidable_of_iff (g.all isDigit = true ∧ g ≠ [])
    ⟨fun h => ⟨List.all_eq_true.mp h.left, h.right⟩,
      fun h => ⟨List.all_eq_true.mpr h.digits, h.nonempty⟩⟩

def addDigit (v : Nat) (c : UInt8) : Nat := v * 10 + (c.toNat - 0x30)

def decimalValue (g : CStr) : Nat := g.foldl addDigit 0

def isDigitChar (c : UInt8) : Bool := isDigit c || (0x61 ≤ c && c ≤ 0x7A)

def digitValue (c : UInt8) : Nat :=
  if c ≤ 0x39 then c.toNat - 0x30 else c.toNat - 0x61 + 10

/-- The string is how the number is written in the base. -/
structure NumeralOf (base : Nat) (s : CStr) (n : Nat) : Prop where
  chars : forall c, c ∈ s -> isDigitChar c = true
  canonical : Canonical base (s.map digitValue)
  value : horner base (s.map digitValue) = n

/-!
# Digits
-/

theorem digit_decimal {d : Nat} (hd : d < 10) :
    isDigit (digit d) = true ∧ (digit d).toNat - 0x30 = d := by
  have hall : forall d, d < 10 ->
      isDigit (digit d) = true ∧ (digit d).toNat - 0x30 = d := by decide
  exact hall d hd

theorem digit_spec {d : Nat} (hd : d < 36) :
    isDigitChar (digit d) = true ∧ digitValue (digit d) = d := by
  have hall : forall d, d < 36 ->
      isDigitChar (digit d) = true ∧ digitValue (digit d) = d := by decide
  exact hall d hd

theorem numeralOf_numeral {base : Nat} (hbase : 1 < base) (hmax : base ≤ 36)
    (n : Nat) : NumeralOf base ((numeral base n).map digit) n := by
  have hcanonical := canonical_numeral hbase n
  have hvalues : ((numeral base n).map digit).map digitValue =
      numeral base n := by
    have heach : forall d, d ∈ numeral base n -> digitValue (digit d) = d :=
      fun d hd =>
        (digit_spec (Nat.lt_of_lt_of_le (hcanonical.lt_base d hd) hmax)).right
    rw [List.map_map]
    exact (List.map_congr_left heach).trans (List.map_id _)
  constructor
  · intro c hc
    rcases List.mem_map.mp hc with ⟨d, hd, heq⟩
    rw [← heq]
    exact (digit_spec (Nat.lt_of_lt_of_le (hcanonical.lt_base d hd) hmax)).left
  · rw [hvalues]
    exact hcanonical
  · rw [hvalues, horner_numeral]

/-!
# What the loop writes
-/

theorem digitLoop_eq {base slots val : Nat} (hbase : 1 < base)
    (hval : val < base ^ slots) (tmp : CStr) :
    digitLoop base slots val tmp =
      (Nat.digits base val).reverse.map digit ++ tmp := by
  induction slots generalizing val tmp with
  | zero =>
      have hzero : val = 0 := Nat.lt_one_iff.mp hval
      rw [hzero, Nat.digits_zero]
      rfl
  | succ slots ih =>
      unfold digitLoop
      split
      · rename_i hzero
        rw [hzero, Nat.digits_zero]
        rfl
      · rename_i hne
        have hfront : val / base < base ^ slots := by
          rw [Nat.pow_succ] at hval
          exact Nat.div_lt_of_lt_mul (Nat.mul_comm _ _ ▸ hval)
        rw [ih hfront, Nat.digits_eq_cons_digits_div hbase hne,
          List.reverse_cons, List.map_append, List.append_assoc]
        rfl

theorem digits_reverse_of_ne {base n : Nat} (hne : n ≠ 0) :
    (Nat.digits base n).reverse = numeral base n := (if_neg hne).symm

theorem uintToStr_eq {base : Nat} (hbase : 1 < base) (val : UInt32) :
    uintToStr val base = (numeral base val.toNat).map digit := by
  unfold uintToStr
  split
  · rename_i hzero
    rw [hzero]
    rfl
  · rename_i hne
    have hlt : val.toNat < base ^ 32 :=
      Nat.lt_of_lt_of_le val.toNat_lt (Nat.pow_le_pow_left hbase 32)
    rw [digitLoop_eq hbase hlt, List.append_nil, digits_reverse_of_ne]
    exact fun hzero => hne (UInt32.toNat_inj.mp hzero)

theorem uint64ToStr_eq {base val : Nat} (hbase : 1 < base)
    (hval : val < 2 ^ 64) :
    uint64ToStr val base = (numeral base val).map digit := by
  unfold uint64ToStr
  split
  · rename_i hzero
    rw [hzero]
    rfl
  · rename_i hne
    have hlt : val < base ^ 64 :=
      Nat.lt_of_lt_of_le hval (Nat.pow_le_pow_left hbase 64)
    rw [digitLoop_eq hbase hlt, List.append_nil, digits_reverse_of_ne hne]

/-!
# Decimal numerals
-/

theorem numeral_decimal (n : Nat) : Numeral ((numeral 10 n).map digit) := by
  have hcanonical := canonical_numeral (by decide : 1 < 10) n
  constructor
  · intro c hc
    rcases List.mem_map.mp hc with ⟨d, hd, heq⟩
    rw [← heq]
    exact (digit_decimal (hcanonical.lt_base d hd)).left
  · exact fun hnil => hcanonical.nonempty (List.map_eq_nil_iff.mp hnil)

theorem decimalValue_decimal (n : Nat) :
    decimalValue ((numeral 10 n).map digit) = n := by
  have hcanonical := canonical_numeral (by decide : 1 < 10) n
  refine Eq.trans ?_ (horner_numeral 10 n)
  unfold decimalValue horner
  rw [List.foldl_map]
  apply List.foldl_ext
  intro v d hd
  unfold addDigit
  rw [(digit_decimal (hcanonical.lt_base d hd)).right]

theorem ofNat_addDigit {c : UInt8} (v : Nat) :
    Int32.ofNat v * 10 + Int32.ofNat (c.toNat - 0x30) =
      Int32.ofNat (addDigit v c) := by
  unfold addDigit
  rw [Int32.ofNat_add, Int32.ofNat_mul]
  rfl

theorem numeral_uintToStr (val : UInt32) : Numeral (uintToStr val 10) := by
  rw [uintToStr_eq (by decide)]
  exact numeral_decimal val.toNat

theorem decimalValue_uintToStr (val : UInt32) :
    decimalValue (uintToStr val 10) = val.toNat := by
  rw [uintToStr_eq (by decide), decimalValue_decimal]

theorem length_uintToStr {val : UInt32} {k : Nat} (hk : 0 < k)
    (hval : val.toNat < 10 ^ k) : (uintToStr val 10).length ≤ k := by
  rw [uintToStr_eq (by decide), List.length_map]
  exact length_numeral_le (by decide) hk hval

end Lib
end EarlnuxOS
