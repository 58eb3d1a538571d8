import Mathlib.Data.Nat.Bitwise

/-!
# Machine words

The rounding macros of `include/types.h` on 32-bit words, with the number each
of them computes.
-/

namespace EarlnuxOS

def pageSize : UInt32 := 4096

def add32 (a b : Nat) : Nat := (a + b) % 2 ^ 32

def sub32 (a b : Nat) : Nat := (a + 2 ^ 32 - b) % 2 ^ 32

def alignDown (x align : UInt32) : UInt32 :=
  x &&& ~~~(align - 1)

/-- `ALIGN_UP`; the sum wraps. -/
def alignUp (x align : UInt32) : UInt32 :=
  (x + align - 1) &&& ~~~(align - 1)

theorem and_high_bits {x k n : Nat} (hx : x < 2 ^ n) (hk : k ≤ n) :
    x &&& (2 ^ n - 2 ^ k) = x / 2 ^ k * 2 ^ k := by
  have hpos : 0 < 2 ^ k := Nat.two_pow_pos k
  have hle : 2 ^ k ≤ 2 ^ n := Nat.pow_le_pow_right (by decide) hk
  have hmask : 2 ^ n - 2 ^ k = 2 ^ n - ((2 ^ k - 1) + 1) := by omega
  apply Nat.eq_of_testBit_eq
  intro i
  rw [Nat.testBit_and, hmask,
    Nat.testBit_two_pow_sub_succ (x := 2 ^ k - 1) (by omega),
    Nat.testBit_two_pow_sub_one, Nat.testBit_mul_two_pow]
  by_cases hik : i < k
  · simp [hik, Nat.not_le_of_lt hik]
  · have hki : k ≤ i := by omega
    by_cases hin : i < n
    · simp [hik, hki, hin, Nat.testBit_div_two_pow]
    · have hhigh : x.testBit i = false :=
        Nat.testBit_lt_two_pow (Nat.lt_of_lt_of_le hx
          (Nat.pow_le_pow_right (by decide) (by omega)))
      simp [hin, hhigh, hki, Nat.testBit_div_two_pow]

theorem toNat_alignDown (x : UInt32) {align : UInt32} {k : Nat} (hk : k < 32)
    (halign : align.toNat = 2 ^ k) :
    (alignDown x align).toNat = x.toNat / 2 ^ k * 2 ^ k := by
  have hpos : 0 < 2 ^ k := Nat.two_pow_pos k
  have hlt : 2 ^ k < 2 ^ 32 := Nat.pow_lt_pow_right (by decide) hk
  have hone : (align - 1).toNat = 2 ^ k - 1 := by
    rw [UInt32.toNat_sub, halign]
    simp only [UInt32.toNat_one]
    omega
  have hnot : (~~~(align - 1)).toNat = 2 ^ 32 - 2 ^ k := by
    rw [UInt32.toNat_not, hone]
    show 2 ^ 32 - 1 - (2 ^ k - 1) = _
    omega
  unfold alignDown
  rw [UInt32.toNat_and, hnot]
  exact and_high_bits x.toNat_lt (Nat.le_of_lt hk)

theorem toNat_alignUp (x : UInt32) {align : UInt32} {k : Nat} (hk : k < 32)
    (halign : align.toNat = 2 ^ k) :
    (alignUp x align).toNat =
      (x.toNat + (2 ^ k - 1)) % 2 ^ 32 / 2 ^ k * 2 ^ k := by
  have hpos : 0 < 2 ^ k := Nat.two_pow_pos k
  have hsum : (x + align - 1).toNat = (x.toNat + (2 ^ k - 1)) % 2 ^ 32 := by
    rw [UInt32.toNat_sub, UInt32.toNat_add, halign]
    simp only [UInt32.toNat_one]
    omega
  have hdown := toNat_alignDown (x + align - 1) hk halign
  rw [hsum] at hdown
  exact hdown

end EarlnuxOS
