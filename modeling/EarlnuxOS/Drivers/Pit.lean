import Mathlib.Logic.Function.Iterate

/-!
# The timer

The tick counter of `drivers/pit.c`.
-/

namespace EarlnuxOS
namespace Drivers

/-- `timer_ticks` and `timer_hz` -/
structure Timer where
  ticks : UInt32
  hz : UInt32

namespace Timer

def boot : Timer where
  ticks := 0
  hz := 0

def pitInit (t : Timer) (frequency : UInt32) : Timer :=
  { t with hz := frequency }

def pitIrqHandler (t : Timer) : Timer :=
  { t with ticks := t.ticks + 1 }

def timerGetUptimeMs (t : Timer) : UInt64 :=
  if t.hz = 0 then 0 else t.ticks.toUInt64 * 1000 / t.hz.toUInt64

theorem interrupts_eq (t : Timer) (n : Nat) :
    pitIrqHandler^[n] t = { t with ticks := t.ticks + UInt32.ofNat n } := by
  induction n with
  | zero =>
      show t = { t with ticks := t.ticks + 0 }
      rw [UInt32.add_zero]
  | succ n ih =>
      rw [Function.iterate_succ_apply', ih, UInt32.ofNat_add,
        ← UInt32.add_assoc]
      rfl

theorem uptime_seconds {t : Timer} (h : t.hz ≠ 0) :
    t.timerGetUptimeMs.toNat / 1000 = t.ticks.toNat / t.hz.toNat := by
  have hticks := t.ticks.toNat_lt
  have hsmall : t.ticks.toNat * 1000 < 2 ^ 64 := by omega
  have hthousand : (1000 : UInt64).toNat = 1000 := rfl
  unfold timerGetUptimeMs
  rw [if_neg h, UInt64.toNat_div, UInt64.toNat_mul, UInt32.toNat_toUInt64,
    UInt32.toNat_toUInt64, hthousand, Nat.mod_eq_of_lt hsmall,
    Nat.div_div_eq_div_mul, Nat.mul_div_mul_right _ _ (by decide)]

end Timer

end Drivers
end EarlnuxOS
