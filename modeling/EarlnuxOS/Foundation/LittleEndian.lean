import EarlnuxOS.Foundation.ByteRuns

/-!
# Little-endian numbers

A number as a list of bytes with its low byte first, and the number such a list
stands for.  Lists of one length and the numbers they can hold correspond one to
one.
-/

namespace EarlnuxOS
namespace Foundation

/-- The low `w` bytes of a number, the lowest first. -/
def leBytes : Nat -> Nat -> List UInt8
  | 0, _ => []
  | w + 1, v => UInt8.ofNat v :: leBytes w (v / 256)

def leNum : List UInt8 -> Nat
  | [] => 0
  | b :: bs => b.toNat + 256 * leNum bs

@[simp] theorem leNum_nil : leNum [] = 0 := rfl

@[simp] theorem leNum_cons (b : UInt8) (bs : List UInt8) :
    leNum (b :: bs) = b.toNat + 256 * leNum bs := rfl

@[simp] theorem length_leBytes (w v : Nat) : (leBytes w v).length = w := by
  induction w generalizing v with
  | zero => rfl
  | succ w ih =>
      show (leBytes w (v / 256)).length + 1 = w + 1
      rw [ih]

theorem leNum_lt (bs : List UInt8) : leNum bs < 256 ^ bs.length := by
  induction bs with
  | nil => exact Nat.one_pos
  | cons b bs ih =>
      have hb := b.toNat_lt
      rw [leNum_cons, List.length_cons, Nat.pow_succ]
      omega

theorem leNum_leBytes (w v : Nat) : leNum (leBytes w v) = v % 256 ^ w := by
  induction w generalizing v with
  | zero => exact (Nat.mod_one v).symm
  | succ w ih =>
      have hlow : (UInt8.ofNat v).toNat = v % 256 := UInt8.toNat_ofNat'
      have hpow : 256 ^ (w + 1) = 256 * 256 ^ w := Nat.pow_succ'
      show (UInt8.ofNat v).toNat + 256 * leNum (leBytes w (v / 256)) = _
      rw [ih, hlow, hpow, Nat.mod_mul]

theorem leNum_leBytes_of_lt {w v : Nat} (h : v < 256 ^ w) :
    leNum (leBytes w v) = v := by
  rw [leNum_leBytes, Nat.mod_eq_of_lt h]

theorem leNum_append (as bs : List UInt8) :
    leNum (as ++ bs) = leNum as + 256 ^ as.length * leNum bs := by
  induction as with
  | nil => rw [List.nil_append, leNum_nil, List.length_nil, Nat.pow_zero,
      Nat.one_mul, Nat.zero_add]
  | cons a as ih =>
      rw [List.cons_append, leNum_cons, leNum_cons, ih, List.length_cons,
        Nat.pow_succ', Nat.mul_add, Nat.mul_assoc, Nat.add_assoc]

theorem load32_eq_leNum (m : Memory) (a : Nat) :
    load32 m a = leNum (readBytes m a 4) := by
  unfold load32
  simp only [readBytes_succ, readBytes_zero, leNum_cons, leNum_nil,
    Nat.add_assoc, Nat.reduceAdd]
  omega

theorem leNum_inj {as bs : List UInt8} (hlen : as.length = bs.length)
    (h : leNum as = leNum bs) : as = bs := by
  induction as generalizing bs with
  | nil => exact (List.length_eq_zero_iff.mp hlen.symm).symm
  | cons a as ih =>
      cases bs with
      | nil => cases hlen
      | cons b bs =>
          have ha := a.toNat_lt
          have hb := b.toNat_lt
          rw [leNum_cons, leNum_cons] at h
          have hhead : a = b := UInt8.toNat_inj.mp (by omega)
          have htail : as = bs :=
            ih (Nat.succ_injective hlen) (by omega)
          rw [hhead, htail]

end Foundation
end EarlnuxOS
