import Mathlib.Data.UInt

/-!
# Byte-addressed memory

Memory is a function from addresses to bytes, and a 32-bit word is stored with
its low byte first.  A load sees the last store to the same word, and a store
to a word that does not overlap is invisible to it.
-/

namespace EarlnuxOS
namespace Foundation

abbrev Memory := Nat -> UInt8

def storeByte (m : Memory) (a : Nat) (v : UInt8) : Memory :=
  fun x => if x = a then v else m x

def load32 (m : Memory) (a : Nat) : Nat :=
  (m a).toNat + 2 ^ 8 * (m (a + 1)).toNat + 2 ^ 16 * (m (a + 2)).toNat +
    2 ^ 24 * (m (a + 3)).toNat

/-- Store a word; `v` is taken modulo `2 ^ 32`. -/
def store32 (m : Memory) (a v : Nat) : Memory :=
  fun x =>
    if x = a then UInt8.ofNat v
    else if x = a + 1 then UInt8.ofNat (v / 2 ^ 8)
    else if x = a + 2 then UInt8.ofNat (v / 2 ^ 16)
    else if x = a + 3 then UInt8.ofNat (v / 2 ^ 24)
    else m x

theorem load32_lt (m : Memory) (a : Nat) : load32 m a < 2 ^ 32 := by
  have h0 := (m a).toNat_lt
  have h1 := (m (a + 1)).toNat_lt
  have h2 := (m (a + 2)).toNat_lt
  have h3 := (m (a + 3)).toNat_lt
  unfold load32
  omega

theorem load32_congr {m m' : Memory} {a : Nat}
    (h : forall i, i < 4 -> m' (a + i) = m (a + i)) :
    load32 m' a = load32 m a := by
  have h0 : m' a = m a := h 0 (by decide)
  unfold load32
  rw [h0, h 1 (by decide), h 2 (by decide), h 3 (by decide)]

theorem store32_apply_of_not_mem (m : Memory) {a x : Nat} (v : Nat)
    (hx : x < a ∨ a + 4 ≤ x) : store32 m a v x = m x := by
  unfold store32
  rw [if_neg (by omega), if_neg (by omega), if_neg (by omega),
    if_neg (by omega)]

theorem load32_store32_self (m : Memory) (a : Nat) {v : Nat}
    (hv : v < 2 ^ 32) : load32 (store32 m a v) a = v := by
  have h0 : store32 m a v a = UInt8.ofNat v := if_pos rfl
  have h1 : store32 m a v (a + 1) = UInt8.ofNat (v / 2 ^ 8) := by
    unfold store32
    rw [if_neg (by omega), if_pos rfl]
  have h2 : store32 m a v (a + 2) = UInt8.ofNat (v / 2 ^ 16) := by
    unfold store32
    rw [if_neg (by omega), if_neg (by omega), if_pos rfl]
  have h3 : store32 m a v (a + 3) = UInt8.ofNat (v / 2 ^ 24) := by
    unfold store32
    rw [if_neg (by omega), if_neg (by omega), if_neg (by omega), if_pos rfl]
  unfold load32
  rw [h0, h1, h2, h3]
  simp only [UInt8.toNat_ofNat']
  omega

theorem load32_store32_of_disjoint (m : Memory) {a b : Nat} (v : Nat)
    (h : a + 4 ≤ b ∨ b + 4 ≤ a) :
    load32 (store32 m a v) b = load32 m b := by
  apply load32_congr
  intro i hi
  exact store32_apply_of_not_mem m v (by omega)

theorem load32_storeByte_of_disjoint (m : Memory) {a b : Nat} (v : UInt8)
    (h : a < b ∨ b + 4 ≤ a) : load32 (storeByte m a v) b = load32 m b := by
  apply load32_congr
  intro i hi
  unfold storeByte
  rw [if_neg (by omega)]

end Foundation
end EarlnuxOS
