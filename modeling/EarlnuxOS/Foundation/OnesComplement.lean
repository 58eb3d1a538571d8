import Mathlib.Data.UInt
import Mathlib.Algebra.BigOperators.Group.List.Basic

/-!
# One's complement sums

The sum of 16-bit words with the carry added back at the other end, and the
words of a byte string in both byte orders.  Such a sum is known by its residue
modulo 65535 and by whether anything was added, and swapping the bytes of all
words multiplies the residue by 256.
-/

namespace EarlnuxOS
namespace Foundation

/-!
# Sums
-/

def addCarry (x y : Nat) : Nat := (x + y) % 2 ^ 16 + (x + y) / 2 ^ 16

def onesSum (ws : List Nat) : Nat := ws.foldl addCarry 0

theorem addCarry_mod (x y : Nat) : addCarry x y % 65535 = (x + y) % 65535 := by
  unfold addCarry
  omega

theorem addCarry_lt {x y : Nat} (hx : x < 2 ^ 16) (hy : y < 2 ^ 16) :
    addCarry x y < 2 ^ 16 := by
  unfold addCarry
  omega

theorem addCarry_eq_zero {x y : Nat} : addCarry x y = 0 <-> x + y = 0 := by
  unfold addCarry
  omega

theorem foldl_addCarry {ws : List Nat} {s : Nat} (hs : s < 2 ^ 16)
    (hws : forall w, w ∈ ws -> w < 2 ^ 16) :
    ws.foldl addCarry s < 2 ^ 16 ∧
      ws.foldl addCarry s % 65535 = (s + ws.sum) % 65535 ∧
      (ws.foldl addCarry s = 0 <-> s + ws.sum = 0) := by
  induction ws generalizing s with
  | nil => exact ⟨hs, rfl, Iff.rfl⟩
  | cons w ws ih =>
      rw [List.forall_mem_cons] at hws
      have hmod := addCarry_mod s w
      have hzero := addCarry_eq_zero (x := s) (y := w)
      rcases ih (addCarry_lt hs hws.left) hws.right with ⟨hlt, hrest, hnone⟩
      rw [List.foldl_cons, List.sum_cons]
      refine ⟨hlt, by omega, ?_⟩
      rw [hnone]
      omega

/-- The sum is all ones when it is zero modulo 65535 without being nothing. -/
theorem onesSum_eq_iff {ws : List Nat} (hws : forall w, w ∈ ws -> w < 2 ^ 16) :
    onesSum ws = 0xFFFF <-> ws.sum % 65535 = 0 ∧ ws.sum ≠ 0 := by
  rcases foldl_addCarry (by decide : 0 < 2 ^ 16) hws with ⟨hlt, hmod, hzero⟩
  unfold onesSum
  omega

/-!
# Words
-/

/-- The words of a byte string, the high byte first; an odd byte is a high one. -/
def beWords : List UInt8 -> List Nat
  | [] => []
  | [a] => [256 * a.toNat]
  | a :: b :: bs => (256 * a.toNat + b.toNat) :: beWords bs

/-- The words, the low byte first; an odd byte is a low one. -/
def leWords : List UInt8 -> List Nat
  | [] => []
  | [a] => [a.toNat]
  | a :: b :: bs => (a.toNat + 256 * b.toNat) :: leWords bs

theorem beWords_lt (bs : List UInt8) :
    forall w, w ∈ beWords bs -> w < 2 ^ 16 := by
  induction bs using beWords.induct with
  | case1 => exact List.forall_mem_nil _
  | case2 a =>
      have ha := a.toNat_lt
      rw [beWords, List.forall_mem_singleton]
      omega
  | case3 a b bs ih =>
      have ha := a.toNat_lt
      have hb := b.toNat_lt
      rw [beWords, List.forall_mem_cons]
      exact ⟨by omega, ih⟩

theorem sum_beWords_mod (bs : List UInt8) :
    (beWords bs).sum % 65535 = 256 * (leWords bs).sum % 65535 := by
  induction bs using beWords.induct with
  | case1 => rfl
  | case2 a => simp [beWords, leWords]
  | case3 a b bs ih =>
      rw [beWords, leWords, List.sum_cons, List.sum_cons]
      omega

theorem sum_beWords_eq_zero (bs : List UInt8) :
    (beWords bs).sum = 0 <-> (leWords bs).sum = 0 := by
  induction bs using beWords.induct with
  | case1 => exact Iff.rfl
  | case2 a => simp [beWords, leWords]
  | case3 a b bs ih =>
      rw [beWords, leWords, List.sum_cons, List.sum_cons]
      omega

/-- The sum over big-endian words is all ones when the little-endian one is 0 modulo 65535. -/
theorem onesSum_beWords {bs : List UInt8} (hmod : (leWords bs).sum % 65535 = 0)
    (hne : (leWords bs).sum ≠ 0) : onesSum (beWords bs) = 0xFFFF := by
  rw [onesSum_eq_iff (beWords_lt bs)]
  refine ⟨?_, fun hzero => hne ((sum_beWords_eq_zero bs).mp hzero)⟩
  rw [sum_beWords_mod]
  omega

end Foundation
end EarlnuxOS
