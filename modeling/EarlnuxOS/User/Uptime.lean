import Mathlib.Data.List.TakeWhile
import EarlnuxOS.Drivers.Pit
import EarlnuxOS.Lib.Numerals
import EarlnuxOS.Lib.PrintfAgreement

/-!
# The uptime

What `cmd_uptime` of `kernel/kernel.c` makes of the tick counter.  The counter
has 32 bits, and the uptime starts anew with it.
-/

namespace EarlnuxOS
namespace User

open Foundation Fs Lib Drivers

/-!
# The command
-/

/-- The arguments of a call that passes one `uint64_t`, the low word first. -/
def longArgs (v : UInt64) : VarArgs where
  word := fun i => if i = 0 then v.toUInt32 else (v >>> 32).toUInt32
  string := fun _ => []

/-- `kprintf(fmt, v)` -/
def kprintfLong (fmt : CStr) (v : UInt64) : CStr :=
  (kvprintf (longArgs v) fmt).text

/-- `cmd_uptime`, for what `timer_get_uptime_ms` returns. -/
def cmdUptime (ms : UInt64) : CStr :=
  let totalSeconds := ms / 1000
  let hours := totalSeconds / 3600
  let minutes := totalSeconds % 3600 / 60
  let seconds := totalSeconds % 60
  kprintfLong (cstr "Uptime: %lu:") hours ++
    (if minutes < 10 then cstr "0" else []) ++
    kprintfLong (cstr "%lu:") minutes ++
    (if seconds < 10 then cstr "0" else []) ++
    kprintfLong (cstr "%lu\n") seconds

/-!
# Clocks
-/

def colon : UInt8 := 0x3A

def decimal (n : Nat) : CStr := (numeral 10 n).map digit

def twoDigits (n : Nat) : CStr :=
  (if n < 10 then cstr "0" else []) ++ decimal n

def clock (seconds : Nat) : CStr :=
  cstr "Uptime: " ++
    (decimal (seconds / 3600) ++ colon ::
      (twoDigits (seconds % 3600 / 60) ++ colon ::
        (twoDigits (seconds % 60) ++ cstr "\n")))

theorem numeral_twoDigits (n : Nat) : Numeral (twoDigits n) := by
  have hn := numeral_decimal n
  unfold twoDigits
  split
  · refine ⟨fun c hc => ?_, List.cons_ne_nil _ _⟩
    rcases List.mem_cons.mp hc with hzero | hc
    · rw [hzero]
      rfl
    · exact hn.digits c hc
  · exact hn

theorem decimalValue_twoDigits (n : Nat) : decimalValue (twoDigits n) = n := by
  have hn := decimalValue_decimal n
  unfold twoDigits
  split
  · exact hn
  · exact hn

theorem numeral_append_inj {d e x y : CStr} {c : UInt8} (hd : Numeral d)
    (he : Numeral e) (hc : isDigit c = false) (h : d ++ c :: x = e ++ c :: y) :
    d = e ∧ x = y := by
  have hfront : forall {g : CStr} (z : CStr), Numeral g ->
      (g ++ c :: z).takeWhile isDigit = g := by
    intro g z hg
    rw [List.takeWhile_append_of_pos hg.digits,
      List.takeWhile_cons_of_neg (by rw [hc]; decide), List.append_nil]
  have hsame : d = e := by
    rw [← hfront x hd, h, hfront y he]
  rw [hsame] at h
  exact ⟨hsame, (List.cons.inj (List.append_cancel_left h)).right⟩

theorem clock_injective : Function.Injective clock := by
  intro s s' h
  have hcolon : isDigit colon = false := rfl
  have hnewline : isDigit 0x0A = false := rfl
  rcases numeral_append_inj (numeral_decimal _) (numeral_decimal _) hcolon
    (List.append_cancel_left h) with ⟨hhours, h⟩
  rcases numeral_append_inj (numeral_twoDigits _) (numeral_twoDigits _) hcolon h
    with ⟨hminutes, h⟩
  rcases numeral_append_inj (numeral_twoDigits _) (numeral_twoDigits _) hnewline
    h with ⟨hseconds, _⟩
  have hhours := congrArg decimalValue hhours
  have hminutes := congrArg decimalValue hminutes
  have hseconds := congrArg decimalValue hseconds
  rw [decimalValue_decimal, decimalValue_decimal] at hhours
  rw [decimalValue_twoDigits, decimalValue_twoDigits] at hminutes hseconds
  omega

theorem long_longArgs (v : UInt64) : (longArgs v).long 0 = v.toNat := by
  have hlt := v.toNat_lt
  show v.toUInt32.toNat + 2 ^ 32 * (v >>> 32).toUInt32.toNat = v.toNat
  rw [UInt64.toNat_toUInt32, UInt64.toNat_toUInt32, UInt64.toNat_shiftRight,
    Nat.shiftRight_eq_div_pow]
  show v.toNat % 2 ^ 32 + 2 ^ 32 * (v.toNat / 2 ^ 32 % 2 ^ 32) = v.toNat
  omega

theorem uint64ToStr_long (v : UInt64) :
    uint64ToStr ((longArgs v).long 0) 10 = decimal v.toNat := by
  rw [long_longArgs, uint64ToStr_eq (by decide) v.toNat_lt]
  rfl

theorem kprintfLong_first (v : UInt64) :
    kprintfLong (cstr "Uptime: %lu:") v =
      cstr "Uptime: " ++ (decimal v.toNat ++ [colon]) := by
  have htext : kprintfLong (cstr "Uptime: %lu:") v =
      consolePutchar (consolePuts (cstr "Uptime: ")
        (uint64ToStr ((longArgs v).long 0) 10)) colon := rfl
  rw [htext, consolePuts_eq, uint64ToStr_long, ← List.append_assoc]
  rfl

theorem kprintfLong_next {fmt : CStr} {c : UInt8} (v : UInt64)
    (h : kprintfLong fmt v =
      consolePutchar (consolePuts [] (uint64ToStr ((longArgs v).long 0) 10)) c) :
    kprintfLong fmt v = decimal v.toNat ++ [c] := by
  rw [h, consolePuts_eq, uint64ToStr_long]
  rfl

theorem zero_before (v : UInt64) :
    (if v < 10 then cstr "0" else []) =
      if v.toNat < 10 then cstr "0" else [] :=
  if_congr UInt64.lt_iff_toNat_lt rfl rfl

theorem cmdUptime_eq (ms : UInt64) : cmdUptime ms = clock (ms.toNat / 1000) := by
  have hhours : (ms / 1000 / 3600).toNat = ms.toNat / 1000 / 3600 := by
    rw [UInt64.toNat_div, UInt64.toNat_div]
    rfl
  have hminutes : (ms / 1000 % 3600 / 60).toNat =
      ms.toNat / 1000 % 3600 / 60 := by
    rw [UInt64.toNat_div, UInt64.toNat_mod, UInt64.toNat_div]
    rfl
  have hseconds : (ms / 1000 % 60).toNat = ms.toNat / 1000 % 60 := by
    rw [UInt64.toNat_mod, UInt64.toNat_div]
    rfl
  have hcolon : forall v, kprintfLong (cstr "%lu:") v =
      decimal v.toNat ++ [colon] := fun v => kprintfLong_next v rfl
  have hnewline : forall v, kprintfLong (cstr "%lu\n") v =
      decimal v.toNat ++ [0x0A] := fun v => kprintfLong_next v rfl
  unfold cmdUptime clock twoDigits
  dsimp only
  rw [kprintfLong_first, hcolon, hnewline, zero_before, zero_before, hhours,
    hminutes, hseconds]
  simp only [List.append_assoc, List.cons_append, List.nil_append]
  rfl

/-!
# How long it is right
-/

/--
After any number of timer interrupts at any frequency, the uptime is the time
that has passed if and only if the counter has not wrapped around.
-/
theorem uptime_shown_iff {frequency : UInt32} (h : frequency ≠ 0) (n : Nat) :
    cmdUptime (Timer.pitIrqHandler^[n]
        (Timer.boot.pitInit frequency)).timerGetUptimeMs =
      clock (n / frequency.toNat) <-> n < 2 ^ 32 := by
  have hpos : 0 < frequency.toNat :=
    Nat.pos_of_ne_zero fun hzero => h (UInt32.toNat_inj.mp hzero)
  have hlt := frequency.toNat_lt
  have hticks : ((0 : UInt32) + UInt32.ofNat n).toNat = n % 2 ^ 32 := by
    rw [UInt32.zero_add, UInt32.toNat_ofNat']
  rw [cmdUptime_eq, Timer.interrupts_eq]
  unfold Timer.boot Timer.pitInit
  rw [Timer.uptime_seconds h, clock_injective.eq_iff]
  dsimp only
  rw [hticks]
  constructor
  · intro heq
    by_contra hge
    have hlater : n % 2 ^ 32 + frequency.toNat ≤ n := by omega
    have hmore := Nat.div_le_div_right (c := frequency.toNat) hlater
    rw [Nat.add_div_right _ hpos, heq] at hmore
    exact Nat.not_succ_le_self _ hmore
  · intro hfits
    rw [Nat.mod_eq_of_lt hfits]

/-- At 1000 Hz it starts anew after seven weeks. -/
theorem uptime_shown_iff_thousand :
    cmdUptime (Timer.pitIrqHandler^[2 ^ 32]
        (Timer.boot.pitInit 1000)).timerGetUptimeMs ≠
      clock (2 ^ 32 / 1000) := by
  intro hshown
  have hthousand : (1000 : UInt32) ≠ 0 := by decide
  exact Nat.lt_irrefl _ ((uptime_shown_iff hthousand (2 ^ 32)).mp hshown)

end User
end EarlnuxOS
