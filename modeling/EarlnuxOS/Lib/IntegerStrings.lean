import EarlnuxOS.Foundation.Halting
import EarlnuxOS.Foundation.Words
import EarlnuxOS.Lib.Numerals

/-!
# Integers and strings

`itoa`, `reverse_str` and `atoi` of `kernel/lib/string.c`.  The least `int` is
its own negation, so `itoa` divides it with its sign, and what it writes for the
negative remainders is no digit.
-/

namespace EarlnuxOS
namespace Lib

open Foundation Fs

/-!
# The functions
-/

/-- `(digit < 10) ? ('0' + digit) : ('a' + digit - 10)`, as a `char`. -/
def itoaChar (digit : Int32) : UInt8 :=
  if digit < 10 then (0x30 + digit).toInt8.toUInt8
  else (0x61 + digit - 10).toInt8.toUInt8

/-- Where `itoa` is, with memory and the variables in scope. -/
inductive Itoa where
  | start (mem : Memory) (value : Int32)
  | digits (mem : Memory) (i : Nat) (value : Int32) (sign : Bool)
  | sign (mem : Memory) (i : Nat) (sign : Bool)
  | terminate (mem : Memory) (i : Nat)
  | reverse (mem : Memory) (i j : Nat)
  | done (mem : Memory)

/-- `itoa`, with `reverse_str` where it is called. -/
def Itoa.step (str : Nat) (base : Int32) : Itoa -> Option Itoa
  | start mem value =>
      -- if (value == 0) { str[i++] = '0'; str[i] = '\0'; return str; }
      if value = 0 then
        some (done (storeByte (storeByte mem str 0x30) (str + 1) 0))
      else if value < 0 ∧ base = 10 then some (digits mem 0 (-value) true)
      else some (digits mem 0 value false)
  | digits mem i value negated =>
      -- while (value)
      if value ≠ 0 then
        some (digits (storeByte mem (str + i) (itoaChar (value % base))) (i + 1)
          (value / base) negated)
      else some (sign mem i negated)
  | sign mem i negated =>
      -- if (sign) str[i++] = '-';
      if negated then some (terminate (storeByte mem (str + i) 0x2D) (i + 1))
      else some (terminate mem i)
  | terminate mem i =>
      -- str[i] = '\0'; reverse_str(str, i);
      some (reverse (storeByte mem (str + i) 0) 0 (i - 1))
  | reverse mem i j =>
      -- for (int i = 0, j = len - 1; i < j; i++, j--)
      if i < j then
        let c := mem (str + i)
        let mem := storeByte mem (str + i) (mem (str + j))
        some (reverse (storeByte mem (str + j) c) (i + 1) (j - 1))
      else some (done mem)
  | done _ => none

inductive Atoi where
  | blanks (s : Nat)
  | sign (s : Nat)
  | digits (s : Nat) (sign val : Int32)
  | done (result : Int32)

def Atoi.step (m : Memory) : Atoi -> Option Atoi
  | blanks s =>
      -- while (*s == ' ' || *s == '\t') s++;
      if m s = 0x20 ∨ m s = 0x09 then some (blanks (s + 1)) else some (sign s)
  | sign s =>
      -- if (*s == '-') { sign = -1; s++; } else if (*s == '+') s++;
      if m s = 0x2D then some (digits (s + 1) (-1) 0)
      else if m s = 0x2B then some (digits (s + 1) 1 0)
      else some (digits s 1 0)
  | digits s negated val =>
      -- while (*s >= '0' && *s <= '9')
      if isDigit (m s) then
        some (digits (s + 1) negated
          (val * 10 + Int32.ofNat ((m s).toNat - 0x30)))
      else some (done (negated * val))
  | done _ => none

/-- The call `itoa(value, str, base)` leaves memory as given. -/
def ItoaLeaves (mem : Memory) (value : Int32) (str : Nat) (base : Int32)
    (mem' : Memory) : Prop :=
  HaltsAt (Itoa.step str base) (Itoa.start mem value) (Itoa.done mem')

def AtoiReturns (m : Memory) (s : Nat) (result : Int32) : Prop :=
  HaltsAt (Atoi.step m) (Atoi.blanks s) (Atoi.done result)

/-- What is asked of the two functions for one value and one buffer. -/
structure Inverse (mem : Memory) (str : Nat) (v : Int32) : Prop where
  roundTrip : exists mem', ItoaLeaves mem v str 10 mem' ∧
    AtoiReturns mem' str v
  numeral : 0 ≤ v -> forall base : Int32, 2 ≤ base -> base ≤ 36 ->
    exists mem' s, ItoaLeaves mem v str base mem' ∧
      HoldsString mem' str s ∧ NumeralOf base.toInt.toNat s v.toInt.toNat

/-!
# Writing
-/

/-- The characters of the loop of `itoa`, if it ends within `k` rounds. -/
def digitChars (base : Int32) : Nat -> Int32 -> Option CStr
  | 0, value => if value = 0 then some [] else none
  | k + 1, value =>
      if value = 0 then some []
      else
        (digitChars base k (value / base)).map (itoaChar (value % base) :: ·)

section

variable {mem : Memory} {str : Nat} {base : Int32}

theorem digits_zero_halts {i : Nat} {negated : Bool} {last : Itoa}
    (hsign : HaltsAt (Itoa.step str base) (Itoa.sign mem i negated) last) :
    HaltsAt (Itoa.step str base) (Itoa.digits mem i 0 negated) last :=
  HaltsAt.next rfl hsign

theorem digits_halts {k i : Nat} {value : Int32} {negated : Bool} {cs : CStr}
    {last : Itoa} (hcs : digitChars base k value = some cs)
    (hsign : HaltsAt (Itoa.step str base)
      (Itoa.sign (writeBytes mem (str + i) cs) (i + cs.length) negated) last) :
    HaltsAt (Itoa.step str base) (Itoa.digits mem i value negated) last := by
  induction k generalizing mem i value cs with
  | zero =>
      unfold digitChars at hcs
      split at hcs
      · rename_i hzero
        cases hcs
        rw [writeBytes_nil] at hsign
        rw [hzero]
        exact digits_zero_halts hsign
      · cases hcs
  | succ k ih =>
      unfold digitChars at hcs
      split at hcs
      · rename_i hzero
        cases hcs
        rw [writeBytes_nil] at hsign
        rw [hzero]
        exact digits_zero_halts hsign
      · rename_i hne
        rcases Option.map_eq_some_iff.mp hcs with ⟨rest, hrest, heq⟩
        subst heq
        rw [writeBytes_cons, List.length_cons, Nat.add_comm rest.length,
          ← Nat.add_assoc, Nat.add_assoc str] at hsign
        exact HaltsAt.next (if_pos hne) (ih hrest hsign)

theorem reverse_halts {i j : Nat} :
    HaltsAt (Itoa.step str base) (Itoa.reverse mem i j)
      (Itoa.done (mirror mem (str + i) (str + j))) := by
  generalize hn : j - i = n
  induction n using Nat.strongRecOn generalizing mem i j with
  | ind n ih =>
      by_cases hlt : i < j
      · have hswap := mirror_swap mem (by omega : str + i < str + j)
        have hj : str + (j - 1) = str + j - 1 := by omega
        refine HaltsAt.next (if_pos hlt) ?_
        rw [← hswap, ← hj]
        exact ih (j - 1 - (i + 1)) (by omega) rfl
      · rw [mirror_of_le mem (by omega)]
        exact HaltsAt.next (if_neg hlt) (HaltsAt.stop rfl)

theorem terminate_halts {cs : CStr} (hne : cs ≠ []) :
    HaltsAt (Itoa.step str base)
      (Itoa.terminate (writeBytes mem str cs) cs.length)
      (Itoa.done (writeBytes mem str (cs.reverse ++ [0]))) := by
  have hstored : storeByte (writeBytes mem str cs) (str + cs.length) 0 =
      writeBytes mem str (cs ++ [0]) := by
    rw [writeBytes_append, writeBytes_cons, writeBytes_nil]
  refine HaltsAt.next rfl ?_
  rw [hstored, ← mirror_writeBytes mem str [0] hne]
  exact reverse_halts

def signed (negated : Bool) (cs : CStr) : CStr :=
  if negated then 0x2D :: cs else cs

theorem sign_halts {cs : CStr} (negated : Bool) (hne : cs ≠ []) :
    HaltsAt (Itoa.step str base)
      (Itoa.sign (writeBytes mem str cs) cs.length negated)
      (Itoa.done (writeBytes mem str (signed negated cs.reverse ++ [0]))) := by
  cases negated with
  | true =>
      have hrev : signed true cs.reverse = (cs ++ [0x2D]).reverse := by
        rw [List.reverse_append]
        rfl
      have hstored : storeByte (writeBytes mem str cs) (str + cs.length) 0x2D =
          writeBytes mem str (cs ++ [0x2D]) := by
        rw [writeBytes_append, writeBytes_cons, writeBytes_nil]
      have hlen : cs.length + 1 = (cs ++ [(0x2D : UInt8)]).length := by
        rw [List.length_append, List.length_singleton]
      refine HaltsAt.next rfl ?_
      rw [hrev, hstored, hlen]
      exact terminate_halts (List.append_ne_nil_of_left_ne_nil hne _)
  | false => exact HaltsAt.next rfl (terminate_halts hne)

theorem itoaLeaves_of_digitChars {value : Int32} {k : Nat} {cs : CStr}
    (hne : value ≠ 0) (negated : Bool)
    (hnegated : negated = true <-> value < 0 ∧ base = 10)
    (hcs : digitChars base k (if negated then -value else value) = some cs)
    (hsome : cs ≠ []) :
    ItoaLeaves mem value str base
      (writeBytes mem str (signed negated cs.reverse ++ [0])) := by
  have hdigits : Itoa.step str base (Itoa.start mem value) =
      some (Itoa.digits mem 0 (if negated then -value else value) negated) := by
    refine (if_neg hne).trans ?_
    cases negated with
    | true => exact if_pos (hnegated.mp rfl)
    | false => exact if_neg fun h => Bool.false_ne_true (hnegated.mpr h)
  refine HaltsAt.next hdigits (digits_halts hcs ?_)
  rw [Nat.add_zero, Nat.zero_add]
  exact sign_halts negated hsome

end

/-!
# Reading
-/

/-- The number that the digits in front of a string stand for. -/
def readDigits : Int32 -> CStr -> Int32
  | val, [] => val
  | val, c :: s =>
      if isDigit c then readDigits (val * 10 + Int32.ofNat (c.toNat - 0x30)) s
      else val

theorem atoi_digits_halts {m : Memory} {a : Nat} {s : CStr} (negated : Int32)
    (val : Int32) (h : HoldsString m a s) :
    HaltsAt (Atoi.step m) (Atoi.digits a negated val)
      (Atoi.done (negated * readDigits val s)) := by
  induction s generalizing a val with
  | nil =>
      have hnul : ¬ isDigit (m a) = true := by
        rw [show m a = 0 from h]
        decide
      exact HaltsAt.next (if_neg hnul) (HaltsAt.stop rfl)
  | cons c s ih =>
      unfold readDigits
      by_cases hc : isDigit c = true
      · have hdigit : isDigit (m a) = true := h.left.symm ▸ hc
        rw [if_pos hc, ← h.left]
        exact HaltsAt.next (if_pos hdigit) (ih _ h.right.right)
      · have hstop : ¬ isDigit (m a) = true := h.left.symm ▸ hc
        rw [if_neg hc]
        exact HaltsAt.next (if_neg hstop) (HaltsAt.stop rfl)

theorem readDigits_numeral {x : CStr}
    (hx : forall c, c ∈ x -> isDigit c = true) (v : Nat) :
    readDigits (Int32.ofNat v) x = Int32.ofNat (x.foldl addDigit v) := by
  induction x generalizing v with
  | nil => rfl
  | cons c x ih =>
      rw [List.forall_mem_cons] at hx
      unfold readDigits
      rw [if_pos hx.left, ofNat_addDigit, ih hx.right]
      rfl

theorem atoi_minus {m : Memory} {a : Nat} {s : CStr}
    (h : HoldsString m a (0x2D :: s)) :
    AtoiReturns m a (-1 * readDigits 0 s) := by
  have hminus : m a = 0x2D := h.left
  have hblank : ¬ (m a = 0x20 ∨ m a = 0x09) := by
    rw [hminus]
    decide
  exact HaltsAt.next (if_neg hblank) (HaltsAt.next (if_pos hminus)
    (atoi_digits_halts (-1) 0 h.right.right))

theorem atoi_plain {m : Memory} {a : Nat} {s : CStr} (hs : Numeral s)
    (h : HoldsString m a s) : AtoiReturns m a (1 * readDigits 0 s) := by
  have hdigit : isDigit (m a) = true := by
    cases s with
    | nil => exact absurd rfl hs.nonempty
    | cons c s =>
        rw [show m a = c from h.left]
        exact hs.digits c List.mem_cons_self
  have hne : forall c, isDigit c = false -> m a ≠ c := by
    intro c hc heq
    rw [heq, hc] at hdigit
    cases hdigit
  have hblank : ¬ (m a = 0x20 ∨ m a = 0x09) :=
    not_or.mpr ⟨hne _ (by decide), hne _ (by decide)⟩
  have hsign : Atoi.step m (Atoi.sign a) = some (Atoi.digits a 1 0) :=
    (if_neg (hne _ (by decide))).trans (if_neg (hne _ (by decide)))
  exact HaltsAt.next (if_neg hblank) (HaltsAt.next hsign
    (atoi_digits_halts 1 0 h))

/-!
# Values that are not negative
-/

theorem itoaChar_ofNat {d : Nat} (hd : d < 36) :
    itoaChar (Int32.ofNat d) = digit d := by
  have hall : forall d, d < 36 -> itoaChar (Int32.ofNat d) = digit d := by
    decide +kernel
  exact hall d hd

theorem ofNat_eq_zero_of_lt {n : Nat} (hn : n < 2 ^ 31) :
    Int32.ofNat n = 0 <-> n = 0 := by
  rw [← Int32.toInt_inj, Int32.toInt_ofNat_of_lt hn]
  exact Int.natCast_eq_zero

/-- The loop of `itoa` gives the digits of a number, the last one first. -/
theorem digitChars_ofNat {base k n : Nat} (hbase : 1 < base) (hmax : base ≤ 36)
    (hn : n < 2 ^ 31) (hk : n < base ^ k) :
    digitChars (Int32.ofNat base) k (Int32.ofNat n) =
      some ((Nat.digits base n).map digit) := by
  induction k generalizing n with
  | zero =>
      have hzero : n = 0 := Nat.lt_one_iff.mp hk
      subst hzero
      rw [Nat.digits_zero]
      exact if_pos rfl
  | succ k ih =>
      unfold digitChars
      by_cases hzero : n = 0
      · subst hzero
        rw [Nat.digits_zero]
        exact if_pos rfl
      · have hlt : base < 2 ^ 31 := by omega
        have hdigit : n % base < 36 :=
          Nat.lt_of_lt_of_le (Nat.mod_lt n (by omega)) hmax
        have hfront : n / base < base ^ k := by
          rw [Nat.pow_succ] at hk
          exact Nat.div_lt_of_lt_mul (Nat.mul_comm _ _ ▸ hk)
        rw [if_neg fun h => hzero ((ofNat_eq_zero_of_lt hn).mp h),
          ← Int32.ofNat_div hn hlt, ← Int32.ofNat_mod hn hlt,
          itoaChar_ofNat hdigit,
          ih (Nat.lt_of_le_of_lt (Nat.div_le_self n base) hn) hfront,
          Nat.digits_eq_cons_digits_div hbase hzero]
        rfl

theorem exists_ofNat {v : Int32} (hv : 0 ≤ v) :
    exists n, n < 2 ^ 31 ∧ v = Int32.ofNat n ∧ v.toInt.toNat = n := by
  have hlt := v.toNatClampNeg_lt
  refine ⟨v.toNatClampNeg, hlt, (Int32.ofNat_toNatClampNeg v hv).symm, rfl⟩

theorem itoa_ofNat (mem : Memory) (str : Nat) {base n : Nat}
    (hbase : 1 < base) (hmax : base ≤ 36) (hn : n < 2 ^ 31) :
    ItoaLeaves mem (Int32.ofNat n) str (Int32.ofNat base)
      (writeBytes mem str ((numeral base n).map digit ++ [0])) := by
  by_cases hzero : n = 0
  · subst hzero
    have hone : (numeral base 0).map digit ++ [0] = [0x30, 0] := rfl
    rw [hone, writeBytes_cons, writeBytes_cons, writeBytes_nil]
    exact HaltsAt.next rfl (HaltsAt.stop rfl)
  · have hne : ¬ Int32.ofNat n = 0 := fun h =>
      hzero ((ofNat_eq_zero_of_lt hn).mp h)
    have hnonneg : ¬ Int32.ofNat n < 0 := by
      rw [Int32.lt_iff_toInt_lt, Int32.toInt_ofNat_of_lt hn]
      exact not_lt_of_ge (Int.natCast_nonneg n)
    have hlt : n < base ^ 31 :=
      Nat.lt_of_lt_of_le hn (Nat.pow_le_pow_left hbase 31)
    have hsome : (Nat.digits base n).map digit ≠ [] := fun hnil =>
      Nat.digits_ne_nil_iff_ne_zero.mpr hzero (List.map_eq_nil_iff.mp hnil)
    have hleaves : ItoaLeaves mem (Int32.ofNat n) str (Int32.ofNat base) _ :=
      itoaLeaves_of_digitChars hne false
        (iff_of_false Bool.false_ne_true fun h => hnonneg h.left)
        (digitChars_ofNat hbase hmax hn hlt) hsome
    rw [← List.map_reverse, digits_reverse_of_ne hzero] at hleaves
    exact hleaves

theorem holdsString_numeral (mem : Memory) (str base n : Nat)
    (hbase : 1 < base) (hmax : base ≤ 36) :
    HoldsString (writeBytes mem str ((numeral base n).map digit ++ [0])) str
      ((numeral base n).map digit) := by
  apply holdsString_of_holdsAt
  · intro hzero
    exact absurd ((numeralOf_numeral hbase hmax n).chars 0 hzero) (by decide)
  · exact readBytes_writeBytes_self mem str _

theorem readDigits_decimal (n : Nat) :
    readDigits 0 ((numeral 10 n).map digit) = Int32.ofNat n := by
  have hread := readDigits_numeral (numeral_decimal n).digits 0
  have hvalue := decimalValue_decimal n
  unfold decimalValue at hvalue
  rw [hvalue] at hread
  exact hread

/-!
# The round trip
-/

theorem numeral_of_nonneg (mem : Memory) (str : Nat) {v : Int32} (hv : 0 ≤ v)
    {base : Int32} (hlow : 2 ≤ base) (hhigh : base ≤ 36) :
    exists mem' s, ItoaLeaves mem v str base mem' ∧ HoldsString mem' str s ∧
      NumeralOf base.toInt.toNat s v.toInt.toNat := by
  rcases exists_ofNat hv with ⟨n, hn, hvn, hvalue⟩
  rcases exists_ofNat (Int32.le_trans (by decide) hlow) with ⟨b, _, hbn, hbase⟩
  have htwo : (2 : Int) ≤ base.toInt := Int32.le_iff_toInt_le.mp hlow
  have hmax : base.toInt ≤ (36 : Int) := Int32.le_iff_toInt_le.mp hhigh
  have hb : 1 < b := by omega
  have hb36 : b ≤ 36 := by omega
  rw [hvalue, hbase, hvn, hbn]
  exact ⟨_, _, itoa_ofNat mem str hb hb36 hn,
    holdsString_numeral mem str b n hb hb36, numeralOf_numeral hb hb36 n⟩

theorem roundTrip_of_nonneg (mem : Memory) (str : Nat) {v : Int32}
    (hv : 0 ≤ v) :
    exists mem', ItoaLeaves mem v str 10 mem' ∧ AtoiReturns mem' str v := by
  rcases exists_ofNat hv with ⟨n, hn, hvn, _⟩
  have hreads := atoi_plain (numeral_decimal n)
    (holdsString_numeral mem str 10 n (by decide) (by decide))
  rw [readDigits_decimal, Int32.one_mul] at hreads
  rw [hvn]
  exact ⟨_, itoa_ofNat mem str (by decide) (by decide) hn, hreads⟩

theorem roundTrip_of_neg (mem : Memory) (str : Nat) {v : Int32} (hv : v < 0)
    (hmin : v ≠ Int32.minValue) :
    exists mem', ItoaLeaves mem v str 10 mem' ∧ AtoiReturns mem' str v := by
  have hneg : v.toInt < 0 := Int32.lt_iff_toInt_lt.mp hv
  have hne : v.toInt ≠ -2 ^ 31 := fun h => hmin (Int32.toInt_inj.mp h)
  have hback : (-v).toInt = -v.toInt := by
    have hle := v.le_toInt
    rw [Int32.toInt_neg]
    exact Int.bmod_eq_of_le (by omega) (by omega)
  have hpos : 0 ≤ -v := by
    rw [Int32.le_iff_toInt_le, hback]
    exact Int.le_of_lt (Int.neg_pos_of_neg hneg)
  rcases exists_ofNat hpos with ⟨n, hn, hvn, hvalue⟩
  have hzero : n ≠ 0 := by omega
  have hlt : n < 10 ^ 31 := Nat.lt_trans hn (by decide)
  have hsome : (Nat.digits 10 n).map digit ≠ [] := fun hnil =>
    Nat.digits_ne_nil_iff_ne_zero.mpr hzero (List.map_eq_nil_iff.mp hnil)
  have hchars : digitChars 10 31 (if true then -v else v) =
      some ((Nat.digits 10 n).map digit) := by
    rw [if_pos rfl, hvn]
    exact digitChars_ofNat (by decide) (by decide) hn hlt
  have hleaves : ItoaLeaves mem v str 10 _ :=
    itoaLeaves_of_digitChars (Int32.ne_of_lt hv) true
      (iff_of_true rfl ⟨hv, rfl⟩) hchars hsome
  rw [← List.map_reverse, digits_reverse_of_ne hzero] at hleaves
  refine ⟨_, hleaves, ?_⟩
  have hholds : HoldsString (writeBytes mem str
      (signed true ((numeral 10 n).map digit) ++ [0])) str
      (0x2D :: (numeral 10 n).map digit) := by
    apply holdsString_of_holdsAt
    · rw [List.mem_cons, not_or]
      refine ⟨by decide, fun hnul => ?_⟩
      exact absurd ((numeral_decimal n).digits 0 hnul) (by decide)
    · exact readBytes_writeBytes_self mem str _
  have hreads := atoi_minus hholds
  rw [readDigits_decimal, ← hvn, Int32.neg_mul, Int32.one_mul, Int32.neg_neg] at hreads
  exact hreads

theorem itoa_minValue (mem : Memory) (str : Nat) :
    ItoaLeaves mem Int32.minValue str 10
      (writeBytes mem str (cstr "-./,),(-*,(" ++ [0])) := by
  have hchars : digitChars 10 10 (if true then -Int32.minValue
      else Int32.minValue) = some (cstr "(,*-(,),/.") := by decide +kernel
  exact itoaLeaves_of_digitChars (by decide) true
    (iff_of_true rfl (by decide)) hchars (by decide)

theorem not_inverse_minValue (mem : Memory) (str : Nat) :
    ¬ Inverse mem str Int32.minValue := by
  intro h
  rcases h.roundTrip with ⟨mem', hleaves, hreturns⟩
  cases hleaves.unique (itoa_minValue mem str)
  have hreads := atoi_minus (holdsString_of_holdsAt (by decide)
    (readBytes_writeBytes_self mem str (cstr "-./,),(-*,(" ++ [0])))
  exact absurd (Atoi.done.inj (hreturns.unique hreads)) (by decide +kernel)

/-- The functions are inverse for all values but the least one. -/
theorem inverse_iff (mem : Memory) (str : Nat) (v : Int32) :
    Inverse mem str v <-> v ≠ Int32.minValue := by
  constructor
  · intro h hmin
    rw [hmin] at h
    exact not_inverse_minValue mem str h
  · intro hmin
    constructor
    · by_cases hv : v < 0
      · exact roundTrip_of_neg mem str hv hmin
      · exact roundTrip_of_nonneg mem str (Int32.not_lt.mp hv)
    · intro hv base hlow hhigh
      exact numeral_of_nonneg mem str hv hlow hhigh

theorem minValue_lost : ¬ Inverse (fun _ => 0) 0x9000 Int32.minValue :=
  not_inverse_minValue (fun _ => 0) 0x9000

end Lib
end EarlnuxOS
