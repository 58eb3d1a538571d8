import EarlnuxOS.Foundation.Halting
import EarlnuxOS.Foundation.Words
import EarlnuxOS.Lib.Numerals

/-!
# Writing numbers

`uint_to_str`, `uint64_to_str` and `int_to_str` with their arrays.  The first
loop fills `tmp` with the digits from the last one on, and the second one copies
them to `buf` in reverse.
-/

namespace EarlnuxOS
namespace Lib

open Foundation Fs

/-- `static const char digits[]` -/
def digitTable : CStr := cstr "0123456789abcdef"

/-- Where `uint_to_str` is, with `tmp`, memory and the variables in scope. -/
inductive Conversion where
  | start (tmp mem : Memory) (val : Nat)
  | divide (tmp mem : Memory) (i val : Nat)
  | copy (tmp mem : Memory) (i j : Nat)
  | done (mem : Memory)

namespace Conversion

/-- The body of `uint_to_str` and of `uint64_to_str`, which differ in types only. -/
def step (buf base : Nat) : Conversion -> Option Conversion
  | start tmp mem val =>
      -- if (val == 0) { buf[0] = '0'; buf[1] = '\0'; return; }
      if val = 0 then
        some (done (storeByte (storeByte mem buf 0x30) (buf + 1) 0))
      else some (divide tmp mem 0 val)
  | divide tmp mem i val =>
      -- while (val) { tmp[i++] = digits[val % base]; val /= base; }
      if val = 0 then some (copy tmp mem i 0)
      else
        some (divide (storeByte tmp i (digitTable.getD (val % base) 0)) mem
          (i + 1) (val / base))
  | copy _ mem 0 j =>
      -- buf[j] = '\0';
      some (done (storeByte mem (buf + j) 0))
  | copy tmp mem (i + 1) j =>
      -- while (i--) buf[j++] = tmp[i];
      some (copy tmp (storeByte mem (buf + j) (tmp i)) i (j + 1))
  | done _ => none

def tmpUses : Conversion -> List Nat
  | divide _ _ i val => if val = 0 then [] else [i]
  | copy _ _ (i + 1) _ => [i]
  | _ => []

/-- The places of `digits` that the next step reads. -/
def tableReads (base : Nat) : Conversion -> List Nat
  | divide _ _ _ val => if val = 0 then [] else [val % base]
  | _ => []

def writes (buf : Nat) : Conversion -> List Nat
  | start _ _ val => if val = 0 then [buf, buf + 1] else []
  | copy _ _ _ j => [buf + j]
  | _ => []

/-- `tmp` has `room` places, and `buf` ends before `limit`. -/
structure Inside (buf base room limit : Nat) (s : Conversion) : Prop where
  tmp_inside : forall i, i ∈ s.tmpUses -> i < room
  table_inside : forall d, d ∈ s.tableReads base -> d < digitTable.length
  buf_inside : forall x, x ∈ s.writes buf -> buf ≤ x ∧ x < limit

end Conversion

/-- The run from a state leaves memory as it is to be, within the arrays. -/
def Converts (buf base room limit : Nat) (s : Conversion) (mem : Memory) :
    Prop :=
  HaltsWithin (Conversion.step buf base) (Conversion.Inside buf base room limit)
    s (Conversion.done mem)

/-- `uint_to_str`, with 32 places in `tmp`; the contents of `tmp` do not matter. -/
def UintToStr (mem : Memory) (val : UInt32) (buf base limit : Nat)
    (mem' : Memory) : Prop :=
  forall tmp, Converts buf base 32 limit
    (Conversion.start tmp mem val.toNat) mem'

def Uint64ToStr (mem : Memory) (val : UInt64) (buf base limit : Nat)
    (mem' : Memory) : Prop :=
  forall tmp, Converts buf base 64 limit
    (Conversion.start tmp mem val.toNat) mem'

def IntToStr (mem : Memory) (val : Int32) (buf limit : Nat) (mem' : Memory) :
    Prop :=
  if val < 0 then
    UintToStr (storeByte mem buf 0x2D) (-val).toUInt32 (buf + 1) 10 limit mem'
  else UintToStr mem val.toUInt32 buf 10 limit mem'

/-- Memory has the string at the address, and is otherwise as before. -/
structure WritesString (mem : Memory) (buf : Nat) (s : CStr) (mem' : Memory) :
    Prop where
  holds : HoldsString mem' buf s
  kept : forall x, x < buf ∨ buf + s.length < x -> mem' x = mem x

structure SignedNumeralOf (s : CStr) (v : Int) : Prop where
  minus : v < 0 -> exists t, s = 0x2D :: t ∧ NumeralOf 10 t v.natAbs
  plain : 0 ≤ v -> NumeralOf 10 s v.natAbs

/-- The call leaves the string at `buf`, in 64 bytes with its terminator. -/
def Leaves (mem : Memory) (buf : Nat) (s : CStr) (call : Memory -> Prop) :
    Prop :=
  s.length + 1 ≤ 64 ∧ exists mem', call mem' ∧ WritesString mem buf s mem'

/-- What is said of the three functions, with a buffer of 64 bytes. -/
structure ConvertsExactly : Prop where
  uint : forall (mem : Memory) (val : UInt32) (buf base : Nat),
    base = 10 ∨ base = 16 ->
      Leaves mem buf (uintToStr val base)
          (UintToStr mem val buf base (buf + 64)) ∧
        NumeralOf base (uintToStr val base) val.toNat ∧
        (uintToStr val base).length ≤ 32
  uint64 : forall (mem : Memory) (val : UInt64) (buf base : Nat),
    base = 10 ∨ base = 16 ->
      Leaves mem buf (uint64ToStr val.toNat base)
          (Uint64ToStr mem val buf base (buf + 64)) ∧
        NumeralOf base (uint64ToStr val.toNat base) val.toNat ∧
        (uint64ToStr val.toNat base).length ≤ 64
  int : forall (mem : Memory) (val : Int32) (buf : Nat),
    Leaves mem buf (intToStr val.toUInt32) (IntToStr mem val buf (buf + 64)) ∧
      SignedNumeralOf (intToStr val.toUInt32) val.toInt

/-!
# The two loops
-/

theorem digitTable_getD {d : Nat} (hd : d < 16) :
    digitTable.getD d 0 = digit d := by
  have hall : forall d, d < 16 -> digitTable.getD d 0 = digit d := by decide
  exact hall d hd

section

variable {mem : Memory} {buf base room limit : Nat}

/-- The first loop stores the digits in `tmp`, the last one first. -/
theorem divide_halts {last : Memory} (hbase : 1 < base) (hmax : base ≤ 16)
    {tmp : Memory} {i val slots : Nat} (hroom : i + slots ≤ room)
    (hval : val < base ^ slots)
    (hcopy : Converts buf base room limit
      (Conversion.copy
        (writeBytes tmp i ((Nat.digits base val).map digit)) mem
        (i + (Nat.digits base val).length) 0) last) :
    Converts buf base room limit (Conversion.divide tmp mem i val) last := by
  induction slots generalizing tmp i val with
  | zero =>
      have hzero : val = 0 := Nat.lt_one_iff.mp hval
      subst hzero
      rw [Nat.digits_zero, List.map_nil, writeBytes_nil] at hcopy
      exact HaltsWithin.next rfl ⟨List.forall_mem_nil _, List.forall_mem_nil _,
        List.forall_mem_nil _⟩ hcopy
  | succ slots ih =>
      by_cases hzero : val = 0
      · subst hzero
        rw [Nat.digits_zero, List.map_nil, writeBytes_nil] at hcopy
        exact HaltsWithin.next rfl ⟨List.forall_mem_nil _,
          List.forall_mem_nil _, List.forall_mem_nil _⟩ hcopy
      · have hdigit : val % base < 16 :=
          Nat.lt_of_lt_of_le (Nat.mod_lt val (Nat.zero_lt_of_lt hbase)) hmax
        have hinside : Conversion.Inside buf base room limit
            (Conversion.divide tmp mem i val) := by
          refine ⟨?_, ?_, List.forall_mem_nil _⟩
          · intro k hk
            rw [Conversion.tmpUses, if_neg hzero, List.mem_singleton] at hk
            omega
          · intro d hd
            rw [Conversion.tableReads, if_neg hzero, List.mem_singleton] at hd
            rw [hd]
            exact hdigit
        have hfront : val / base < base ^ slots := by
          rw [Nat.pow_succ] at hval
          exact Nat.div_lt_of_lt_mul (Nat.mul_comm _ _ ▸ hval)
        refine HaltsWithin.next (if_neg hzero) hinside ?_
        rw [Nat.digits_eq_cons_digits_div hbase hzero, List.map_cons,
          writeBytes_cons, ← digitTable_getD hdigit, List.length_cons,
          Nat.add_comm (Nat.digits base (val / base)).length,
          ← Nat.add_assoc] at hcopy
        exact ih (by omega) hfront hcopy

theorem copy_halts {tmp : Memory} {i j : Nat} (hroom : i ≤ room)
    (hlimit : buf + j + i < limit) :
    Converts buf base room limit (Conversion.copy tmp mem i j)
      (writeBytes mem (buf + j) ((readBytes tmp 0 i).reverse ++ [0])) := by
  induction i generalizing mem j with
  | zero =>
      rw [readBytes_zero, List.reverse_nil, List.nil_append, writeBytes_cons,
        writeBytes_nil]
      refine HaltsWithin.next rfl ⟨List.forall_mem_nil _, List.forall_mem_nil _,
        ?_⟩ (HaltsWithin.stop rfl)
      exact List.forall_mem_singleton.mpr ⟨Nat.le_add_right buf j, hlimit⟩
  | succ i ih =>
      have hback : readBytes tmp 0 (i + 1) = readBytes tmp 0 i ++ [tmp i] := by
        rw [readBytes_add, Nat.zero_add, readBytes_succ, readBytes_zero]
      rw [hback, List.reverse_append, List.reverse_singleton, List.append_assoc,
        List.singleton_append, writeBytes_cons]
      refine HaltsWithin.next rfl ⟨?_, List.forall_mem_nil _, ?_⟩ ?_
      · exact List.forall_mem_singleton.mpr hroom
      · exact List.forall_mem_singleton.mpr
          ⟨Nat.le_add_right buf j, by omega⟩
      · exact ih (j := j + 1) (by omega) (by omega)

theorem start_halts (hbase : 1 < base) (hmax : base ≤ 16) {val slots : Nat}
    (tmp : Memory) (hslots : 0 < slots) (hroom : slots ≤ room)
    (hval : val < base ^ slots) (hlimit : buf + slots < limit) :
    Converts buf base room limit (Conversion.start tmp mem val)
      (writeBytes mem buf ((numeral base val).map digit ++ [0])) := by
  by_cases hzero : val = 0
  · subst hzero
    have hone : (numeral base 0).map digit ++ [0] = [0x30, 0] := rfl
    rw [hone, writeBytes_cons, writeBytes_cons, writeBytes_nil]
    refine HaltsWithin.next rfl ⟨List.forall_mem_nil _, List.forall_mem_nil _,
      ?_⟩ (HaltsWithin.stop rfl)
    exact List.forall_mem_cons.mpr ⟨⟨Nat.le_refl buf, by omega⟩,
      List.forall_mem_singleton.mpr ⟨Nat.le_succ buf, by omega⟩⟩
  · have hlen := (Nat.digits_length_le_iff hbase val).mpr hval
    have hback := readBytes_writeBytes_self tmp 0
      ((Nat.digits base val).map digit)
    have hcopy : Converts buf base room limit
        (Conversion.copy (writeBytes tmp 0 ((Nat.digits base val).map digit))
          mem (Nat.digits base val).length 0) _ :=
      copy_halts (hlen.trans hroom) (by omega)
    rw [List.length_map] at hback
    rw [hback, ← List.map_reverse, digits_reverse_of_ne hzero] at hcopy
    refine HaltsWithin.next (if_neg hzero) ⟨List.forall_mem_nil _,
      List.forall_mem_nil _, ?_⟩ ?_
    · intro x hx
      rw [Conversion.writes, if_neg hzero] at hx
      cases hx
    · refine divide_halts hbase hmax (by omega : 0 + slots ≤ room) hval ?_
      rw [Nat.zero_add]
      exact hcopy

end

/-!
# What is left in memory
-/

theorem writesString_writeBytes {s : CStr} (mem : Memory) (buf : Nat)
    (hs : 0 ∉ s) : WritesString mem buf s (writeBytes mem buf (s ++ [0])) := by
  have hlen : (s ++ [(0 : UInt8)]).length = s.length + 1 :=
    List.length_append
  constructor
  · apply holdsString_of_holdsAt hs
    exact readBytes_writeBytes_self mem buf (s ++ [0])
  · intro x hx
    apply writeBytes_apply_outside
    rw [hlen]
    omega

theorem NumeralOf.noNul {base n : Nat} {s : CStr} (h : NumeralOf base s n) :
    0 ∉ s :=
  fun hzero => absurd (h.chars 0 hzero) (by decide)

theorem WritesString.cons {mem mem' : Memory} {buf : Nat} {c : UInt8}
    {s : CStr} (hc : c ≠ 0)
    (h : WritesString (storeByte mem buf c) (buf + 1) s mem') :
    WritesString mem buf (c :: s) mem' := by
  constructor
  · refine ⟨?_, hc, h.holds⟩
    rw [h.kept buf (Or.inl (Nat.lt_succ_self buf))]
    exact if_pos rfl
  · intro x hx
    rw [List.length_cons] at hx
    rw [h.kept x (by omega)]
    exact if_neg (by omega)

theorem numeral_written {base room limit buf val : Nat}
    (hbase : base = 10 ∨ base = 16) (hval : val < 10 ^ 20) (hroom : 20 ≤ room)
    (hlimit : buf + 20 < limit) (mem : Memory) :
    exists mem', WritesString mem buf ((numeral base val).map digit) mem' ∧
      forall tmp, Converts buf base room limit (Conversion.start tmp mem val)
        mem' := by
  have hsmall : 10 ≤ base ∧ base ≤ 16 := by omega
  have hlt : val < base ^ 20 :=
    Nat.lt_of_lt_of_le hval (Nat.pow_le_pow_left hsmall.left 20)
  have hnumeral := numeralOf_numeral (by omega : 1 < base)
    (by omega : base ≤ 36) val
  refine ⟨_, writesString_writeBytes mem buf hnumeral.noNul, fun tmp => ?_⟩
  exact start_halts (by omega) hsmall.right tmp (by decide) hroom hlt hlimit

theorem length_numeral_digits {base val : Nat}
    (hbase : base = 10 ∨ base = 16) (hval : val < 10 ^ 20) :
    ((numeral base val).map digit).length ≤ 20 := by
  have hsmall : 10 ≤ base := by omega
  rw [List.length_map]
  exact length_numeral_le (by omega) (by decide)
    (Nat.lt_of_lt_of_le hval (Nat.pow_le_pow_left hsmall 20))

/-!
# Signed numbers
-/

theorem toInt_cond (v : Int32) : v.toInt =
    if v.toUInt32.toNat < 2 ^ 31 then (v.toUInt32.toNat : Int)
    else v.toUInt32.toNat - 2 ^ 32 := by
  have hcond := BitVec.toInt_eq_toNat_cond v.toBitVec
  have hword : v.toBitVec.toNat = v.toUInt32.toNat := rfl
  change v.toInt = _ at hcond
  rw [hcond, hword]
  split <;> split <;> omega

theorem negative_iff (v : Int32) : negative v.toUInt32 = true <-> v.toInt < 0 := by
  have hcond := toInt_cond v
  have hlt := v.toUInt32.toNat_lt
  unfold negative
  rw [decide_eq_true_eq]
  split at hcond <;> omega

theorem toNat_of_nonneg {v : Int32} (h : 0 ≤ v.toInt) :
    v.toUInt32.toNat = v.toInt.natAbs := by
  have hcond := toInt_cond v
  have hlt := v.toUInt32.toNat_lt
  split at hcond <;> omega

theorem toNat_neg_of_neg {v : Int32} (h : v.toInt < 0) :
    (-v).toUInt32.toNat = v.toInt.natAbs := by
  have hcond := toInt_cond v
  have hlt := v.toUInt32.toNat_lt
  have hsize : UInt32.size = 2 ^ 32 := rfl
  rw [Int32.toUInt32_neg, UInt32.toNat_neg, hsize]
  split at hcond <;> omega

theorem intToStr_of_neg {v : Int32} (h : v.toInt < 0) :
    intToStr v.toUInt32 = 0x2D :: uintToStr (-v).toUInt32 10 := by
  unfold intToStr
  rw [if_pos ((negative_iff v).mpr h), Int32.toUInt32_neg, UInt32.zero_sub]
  rfl

theorem intToStr_of_nonneg {v : Int32} (h : 0 ≤ v.toInt) :
    intToStr v.toUInt32 = uintToStr v.toUInt32 10 := by
  unfold intToStr
  rw [if_neg]
  rw [negative_iff]
  omega

/-- The numerals come out exact, and stay within the arrays. -/
theorem converts_exactly : ConvertsExactly := by
  have hword : forall val : UInt32, val.toNat < 10 ^ 20 := fun val =>
    Nat.lt_trans val.toNat_lt (by decide)
  constructor
  · intro mem val buf base hbase
    have hlen := length_numeral_digits hbase (hword val)
    rw [uintToStr_eq (by omega)]
    rcases numeral_written hbase (hword val) (by decide : 20 ≤ 32)
      (by omega : buf + 20 < buf + 64) mem with ⟨mem', hwritten, hrun⟩
    exact ⟨⟨by omega, mem', hrun, hwritten⟩,
      numeralOf_numeral (by omega) (by omega) _, by omega⟩
  · intro mem val buf base hbase
    have hval : val.toNat < 10 ^ 20 := Nat.lt_trans val.toNat_lt (by decide)
    have hlen := length_numeral_digits hbase hval
    rw [uint64ToStr_eq (by omega) val.toNat_lt]
    rcases numeral_written hbase hval (by decide : 20 ≤ 64)
      (by omega : buf + 20 < buf + 64) mem with ⟨mem', hwritten, hrun⟩
    exact ⟨⟨by omega, mem', hrun, hwritten⟩,
      numeralOf_numeral (by omega) (by omega) _, by omega⟩
  · intro mem val buf
    by_cases hneg : val.toInt < 0
    · have hlen := length_numeral_digits (Or.inl rfl) (hword (-val).toUInt32)
      have hcall : val < 0 := Int32.lt_iff_toInt_lt.mpr hneg
      rw [intToStr_of_neg hneg, uintToStr_eq (by decide)]
      rcases numeral_written (Or.inl rfl) (hword (-val).toUInt32)
        (by decide : 20 ≤ 32) (by omega : buf + 1 + 20 < buf + 64)
        (storeByte mem buf 0x2D) with ⟨mem', hwritten, hrun⟩
      refine ⟨⟨?_, mem', ?_, hwritten.cons (by decide)⟩, ?_, ?_⟩
      · rw [List.length_cons]
        omega
      · unfold IntToStr
        rw [if_pos hcall]
        exact hrun
      · intro _
        refine ⟨_, rfl, ?_⟩
        rw [toNat_neg_of_neg hneg]
        exact numeralOf_numeral (by decide) (by decide) _
      · exact fun hnonneg => absurd hneg (not_lt_of_ge hnonneg)
    · have hnonneg : 0 ≤ val.toInt := Int.not_lt.mp hneg
      have hlen := length_numeral_digits (Or.inl rfl) (hword val.toUInt32)
      have hcall : ¬ val < 0 := fun h => hneg (Int32.lt_iff_toInt_lt.mp h)
      rw [intToStr_of_nonneg hnonneg, uintToStr_eq (by decide)]
      rcases numeral_written (Or.inl rfl) (hword val.toUInt32)
        (by decide : 20 ≤ 32) (by omega : buf + 20 < buf + 64) mem
        with ⟨mem', hwritten, hrun⟩
      refine ⟨⟨by omega, mem', ?_, hwritten⟩, ?_, ?_⟩
      · unfold IntToStr
        rw [if_neg hcall]
        exact hrun
      · exact fun h => absurd h hneg
      · intro _
        rw [toNat_of_nonneg hnonneg]
        exact numeralOf_numeral (by decide) (by decide) _

end Lib
end EarlnuxOS
