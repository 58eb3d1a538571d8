import EarlnuxOS.Lib.Printf

/-!
# The two engines

A buffer receives what the console would show, cut off where the buffer is
full, unless a pointer is to be printed: only one of the two switches knows
that conversion.
-/

namespace EarlnuxOS
namespace Lib

open Fs

/-- The conversion characters of a format string; `none` if a directive is not complete. -/
def conversions : Nat -> CStr -> Option (List UInt8)
  | 0, _ => some []
  | steps + 1, fmt =>
      match fmt with
      | [] => some []
      | c :: fmt =>
          if c ≠ percent then
            conversions steps fmt
          else
            match lengthModifier (skipWidth fmt) with
            | (_, []) => none
            | (_, conv :: fmt) => (conversions steps fmt).map (conv :: ·)

/-- What is stored, and which arguments are used, is as on the console. -/
def EnginesAgree (a : VarArgs) (n : Nat) (fmt : CStr) : Prop :=
  (ksnprintf a n fmt).text = (kvprintf a fmt).text.take (n - 1) ++ [0] ∧
    (ksnprintf a n fmt).args = (kvprintf a fmt).args

/-!
# The length of a directive
-/

theorem length_skipWidth (fmt : CStr) :
    (skipWidth fmt).length ≤ fmt.length := by
  have hdigits : forall s : CStr, (skipDigits s).length ≤ s.length :=
    fun s => (List.dropWhile_sublist isDigit).length_le
  have hminus : (skipMinus fmt).length ≤ fmt.length := by
    unfold skipMinus
    split
    · exact Nat.le_refl _
    · split
      · exact Nat.le_succ _
      · exact Nat.le_refl _
  have hprecision : forall s : CStr, (skipPrecision s).length ≤ s.length := by
    intro s
    unfold skipPrecision
    split
    · exact Nat.le_refl _
    · split
      · exact Nat.le_succ_of_le (hdigits _)
      · exact Nat.le_refl _
  exact Nat.le_trans (hprecision _) (Nat.le_trans (hdigits _) hminus)

theorem length_lengthModifier (fmt : CStr) :
    (lengthModifier fmt).2.length ≤ fmt.length := by
  unfold lengthModifier
  split
  · exact Nat.le_refl _
  · split
    · exact Nat.le_succ _
    · exact Nat.le_refl _

theorem length_directive {fmt fmt' : CStr} {isLong : Bool} {conv : UInt8}
    (h : lengthModifier (skipWidth fmt) = (isLong, conv :: fmt')) :
    fmt'.length < fmt.length := by
  have hlen := length_lengthModifier (skipWidth fmt)
  rw [h, List.length_cons] at hlen
  exact Nat.lt_of_lt_of_le hlen (length_skipWidth fmt)

/-!
# Single characters
-/

theorem sbufPutchar_take (n : Nat) (out : CStr) (c : UInt8) :
    sbufPutchar n (out.take (n - 1)) c =
      (consolePutchar out c).take (n - 1) := by
  unfold sbufPutchar consolePutchar
  rw [List.length_take]
  split
  · rename_i hroom
    rw [List.take_of_length_le (by omega), List.take_of_length_le (by
      rw [List.length_append, List.length_singleton]
      omega)]
  · rename_i hfull
    rw [List.take_append_of_le_length (by omega)]

theorem sbufPuts_take (n : Nat) (out s : CStr) :
    sbufPuts n (out.take (n - 1)) s = (consolePuts out s).take (n - 1) := by
  unfold sbufPuts consolePuts
  induction s generalizing out with
  | nil => rfl
  | cons c s ih =>
      rw [List.foldl_cons, List.foldl_cons, sbufPutchar_take]
      exact ih (consolePutchar out c)

theorem consolePuts_eq (out s : CStr) : consolePuts out s = out ++ s := by
  unfold consolePuts consolePutchar
  induction s generalizing out with
  | nil => exact (List.append_nil out).symm
  | cons c s ih =>
      rw [List.foldl_cons, ih, List.append_assoc]
      rfl

theorem consolePuts_append (out s t : CStr) :
    consolePuts out (s ++ t) = consolePuts (consolePuts out s) t :=
  List.foldl_append

/-!
# Directives
-/

theorem switch_take (a : VarArgs) (n : Nat) {conv : UInt8} (isLong : Bool)
    (args : Nat) (out : CStr) (hp : conv ≠ convP) :
    kvsnprintfSwitch a n conv isLong args (out.take (n - 1)) =
      ((kvprintfSwitch a conv isLong args out).1.take (n - 1),
        (kvprintfSwitch a conv isLong args out).2) := by
  unfold kvsnprintfSwitch kvprintfSwitch
  by_cases hd : conv = convD ∨ conv = convI
  · rw [if_pos hd, if_pos hd]
    unfold intToStr
    dsimp only
    cases negative (a.word args) with
    | true =>
        rw [if_pos rfl, if_pos rfl, consolePuts_append, sbufPutchar_take,
          sbufPuts_take]
        rfl
    | false =>
        rw [if_neg Bool.false_ne_true, if_neg Bool.false_ne_true,
          sbufPuts_take]
  rw [if_neg hd, if_neg hd]
  by_cases hu : conv = convU
  · rw [if_pos hu, if_pos hu]
    cases isLong <;> simp [sbufPuts_take]
  rw [if_neg hu, if_neg hu]
  by_cases hx : conv = convX ∨ conv = convUpperX
  · rw [if_pos hx, if_pos hx]
    cases isLong <;> simp [sbufPuts_take]
  rw [if_neg hx, if_neg hx, if_neg hp]
  by_cases hc : conv = convC
  · rw [if_pos hc, if_pos hc, sbufPutchar_take]
  rw [if_neg hc, if_neg hc]
  by_cases hs : conv = convS
  · rw [if_pos hs, if_pos hs, sbufPuts_take]
  rw [if_neg hs, if_neg hs]
  by_cases hpercent : conv = percent
  · rw [if_pos hpercent, if_pos hpercent, sbufPutchar_take]
  · rw [if_neg hpercent, if_neg hpercent, sbufPutchar_take]

theorem switch_pointer (a : VarArgs) (n : Nat) (isLong : Bool) (args : Nat)
    (out b : CStr) :
    (kvprintfSwitch a convP isLong args out).2 = args + 1 ∧
      (kvsnprintfSwitch a n convP isLong args b).2 = args :=
  ⟨rfl, rfl⟩

/-!
# Format strings
-/

theorem loop_take (a : VarArgs) (n : Nat) {steps : Nat} {fmt : CStr}
    {convs : List UInt8} (args : Nat) (out : CStr)
    (hconvs : conversions steps fmt = some convs) (hp : convP ∉ convs) :
    kvsnprintfLoop a n steps fmt args (out.take (n - 1)) =
      ((kvprintfLoop a steps fmt args out).1.take (n - 1),
        (kvprintfLoop a steps fmt args out).2) := by
  induction steps generalizing fmt convs args out with
  | zero => rfl
  | succ steps ih =>
      unfold kvsnprintfLoop kvprintfLoop
      unfold conversions at hconvs
      cases fmt with
      | nil => rfl
      | cons c fmt =>
          dsimp only at hconvs ⊢
          split
          · rename_i hc
            rw [if_pos hc] at hconvs
            rw [sbufPutchar_take]
            exact ih args (consolePutchar out c) hconvs hp
          rename_i hc
          rw [if_neg hc] at hconvs
          split
          · rfl
          cases hspec : lengthModifier (skipWidth fmt) with
          | mk isLong fmt' =>
              rw [hspec] at hconvs
              cases fmt' with
              | nil => cases hconvs
              | cons conv fmt' =>
                  rcases Option.map_eq_some_iff.mp hconvs with
                    ⟨later, hlater, hcons⟩
                  rw [← hcons] at hp
                  have hconv : conv ≠ convP := by
                    intro heq
                    rw [heq] at hp
                    exact hp List.mem_cons_self
                  dsimp only
                  rw [switch_take a n isLong args out hconv]
                  dsimp only
                  rw [ih _ _ hlater
                    (fun hmem => hp (List.mem_cons_of_mem conv hmem))]

theorem loop_args (a : VarArgs) (n : Nat) {steps : Nat} {fmt : CStr}
    {convs : List UInt8} (args : Nat) (out : CStr)
    (hconvs : conversions steps fmt = some convs)
    (hargs : (kvsnprintfLoop a n steps fmt args (out.take (n - 1))).2 =
      (kvprintfLoop a steps fmt args out).2) : convP ∉ convs := by
  induction steps generalizing fmt convs args out with
  | zero =>
      cases hconvs
      exact List.not_mem_nil
  | succ steps ih =>
      unfold kvsnprintfLoop kvprintfLoop at hargs
      unfold conversions at hconvs
      cases fmt with
      | nil =>
          cases hconvs
          exact List.not_mem_nil
      | cons c fmt =>
          dsimp only at hconvs hargs
          by_cases hc : c ≠ percent
          · rw [if_pos hc] at hconvs hargs
            rw [if_pos hc, sbufPutchar_take] at hargs
            exact ih args (consolePutchar out c) hconvs hargs
          rw [if_neg hc] at hconvs hargs
          rw [if_neg hc] at hargs
          by_cases hend : fmt = []
          · rw [hend] at hconvs
            cases hconvs
          rw [if_neg hend, if_neg hend] at hargs
          cases hspec : lengthModifier (skipWidth fmt) with
          | mk isLong fmt' =>
              rw [hspec] at hconvs hargs
              cases fmt' with
              | nil => cases hconvs
              | cons conv fmt' =>
                  rcases Option.map_eq_some_iff.mp hconvs with
                    ⟨later, hlater, hcons⟩
                  have hconv : conv ≠ convP := by
                    intro heq
                    rw [heq] at hargs
                    have hhead := (List.cons.inj hargs).left
                    rcases switch_pointer a n isLong args out
                      (out.take (n - 1)) with ⟨hprint, hstore⟩
                    rw [hprint, hstore] at hhead
                    omega
                  dsimp only at hargs
                  rw [switch_take a n isLong args out hconv] at hargs
                  have htail := (List.cons.inj hargs).right
                  have hrest := ih _ _ hlater htail
                  rw [← hcons, List.mem_cons, not_or]
                  exact ⟨fun h => hconv h.symm, hrest⟩

/-- The engines agree on exactly the formats that print no pointer. -/
theorem ksnprintf_agrees (a : VarArgs) {n : Nat} {fmt : CStr}
    {convs : List UInt8} (hn : 1 ≤ n)
    (hconvs : conversions fmt.length fmt = some convs) :
    EnginesAgree a n fmt <-> convP ∉ convs := by
  have hpos : n ≠ 0 := by omega
  unfold EnginesAgree ksnprintf kvsnprintf kvprintf
  rw [if_neg hpos]
  dsimp only
  constructor
  · intro h
    exact loop_args a n 0 [] hconvs (by rw [List.take_nil, h.right])
  · intro hp
    have hloop := loop_take a n 0 [] hconvs hp
    rw [List.take_nil] at hloop
    rw [hloop]
    exact ⟨rfl, rfl⟩

/-- A string, a number and a character on the stack. -/
def someArgs : VarArgs where
  word := fun i => [0x2000, 0xFFFFFFF6, 0x41, 7].getD i 0
  string := fun _ => cstr "kernel"

theorem ksnprintf_agrees_someArgs :
    EnginesAgree someArgs 12 (cstr "%s: %-8d%c%lu%%") := by
  have hconvs : conversions (cstr "%s: %-8d%c%lu%%").length
      (cstr "%s: %-8d%c%lu%%") = some [convS, convD, convC, convU, percent] := by
    decide +kernel
  exact (ksnprintf_agrees someArgs (by decide) hconvs).mpr (by decide)

def pointerFormat : CStr := cstr "%p %d"

theorem ksnprintf_skips_pointer :
    (kvprintf someArgs pointerFormat).text = cstr "0x2000 -10" ∧
      (ksnprintf someArgs 64 pointerFormat).text = cstr "? 8192" ++ [0] ∧
      ¬ EnginesAgree someArgs 64 pointerFormat := by
  refine ⟨by decide +kernel, by decide +kernel, ?_⟩
  intro h
  exact absurd h.right (by decide +kernel)

end Lib
end EarlnuxOS
