import Mathlib.Data.List.Nodup
import Mathlib.Data.List.Range

/-!
# Ring queues

A queue in an array of `size` slots: the front stands at `tail`, the next free
slot is `head`, and both run round the array.  One slot stays free, so that a
full queue can be told from an empty one.
-/

namespace EarlnuxOS
namespace Foundation

def ringLength (size head tail : Nat) : Nat := (head + size - tail) % size

def ringSlots (size tail len : Nat) : List Nat :=
  (List.range len).map fun i => (tail + i) % size

variable {size head tail : Nat}

/-!
# How many slots are in use
-/

theorem ringLength_of_le (hhead : head < size) (h : tail ≤ head) :
    ringLength size head tail = head - tail := by
  have hsum : head + size - tail = head - tail + size := by omega
  unfold ringLength
  rw [hsum, Nat.add_mod_right, Nat.mod_eq_of_lt (by omega)]

theorem ringLength_of_lt (h : head < tail) (htail : tail < size) :
    ringLength size head tail = head + size - tail :=
  Nat.mod_eq_of_lt (by omega)

theorem ringLength_eq_zero (hhead : head < size) (htail : tail < size) :
    ringLength size head tail = 0 <-> tail = head := by
  rcases Nat.lt_or_ge head tail with h | h
  · rw [ringLength_of_lt h htail]
    omega
  · rw [ringLength_of_le hhead h]
    omega

theorem ring_end (hhead : head < size) (htail : tail < size) :
    (tail + ringLength size head tail) % size = head := by
  rcases Nat.lt_or_ge head tail with h | h
  · have hsum : tail + (head + size - tail) = head + size := by omega
    rw [ringLength_of_lt h htail, hsum, Nat.add_mod_right,
      Nat.mod_eq_of_lt hhead]
  · rw [ringLength_of_le hhead h, Nat.add_sub_cancel' h,
      Nat.mod_eq_of_lt hhead]

theorem ring_next (h : head < size) :
    (head + 1) % size = if head + 1 = size then 0 else head + 1 := by
  split
  · rename_i heq
    rw [heq, Nat.mod_self]
  · exact Nat.mod_eq_of_lt (by omega)

theorem ringLength_push (hhead : head < size) (htail : tail < size)
    (hfree : (head + 1) % size ≠ tail) :
    ringLength size ((head + 1) % size) tail =
      ringLength size head tail + 1 := by
  rw [ring_next hhead] at hfree ⊢
  split at hfree
  · rename_i hwrap
    rw [if_pos hwrap, ringLength_of_lt (by omega) htail,
      ringLength_of_le hhead (by omega)]
    omega
  · rename_i hwrap
    rw [if_neg hwrap]
    rcases Nat.lt_or_ge head tail with h | h
    · rw [ringLength_of_lt (by omega) htail, ringLength_of_lt h htail]
      omega
    · rw [ringLength_of_le (by omega) (by omega), ringLength_of_le hhead h]
      omega

theorem ringLength_full (hhead : head < size) (htail : tail < size)
    (hfull : (head + 1) % size = tail) :
    ringLength size head tail = size - 1 := by
  rw [ring_next hhead] at hfull
  split at hfull
  · rw [ringLength_of_le hhead (by omega)]
    omega
  · rw [ringLength_of_lt (by omega) htail]
    omega

theorem ringLength_pop (hhead : head < size) (htail : tail < size)
    (hsome : tail ≠ head) :
    ringLength size head tail =
      ringLength size head ((tail + 1) % size) + 1 := by
  rw [ring_next htail]
  split
  · rename_i hwrap
    rw [ringLength_of_lt (by omega) htail, ringLength_of_le hhead (by omega)]
    omega
  · rename_i hwrap
    rcases Nat.lt_or_ge head tail with h | h
    · rw [ringLength_of_lt h htail, ringLength_of_lt (by omega) (by omega)]
      omega
    · rw [ringLength_of_le hhead h, ringLength_of_le hhead (by omega)]
      omega

/-!
# Which slots are in use
-/

@[simp] theorem length_ringSlots (size tail len : Nat) :
    (ringSlots size tail len).length = len := by
  simp [ringSlots]

theorem ringSlots_push (size tail len : Nat) :
    ringSlots size tail (len + 1) =
      ringSlots size tail len ++ [(tail + len) % size] := by
  unfold ringSlots
  rw [List.range_succ, List.map_append]
  rfl

theorem ringSlots_pop (htail : tail < size) (len : Nat) :
    ringSlots size tail (len + 1) =
      tail :: ringSlots size ((tail + 1) % size) len := by
  unfold ringSlots
  rw [List.range_succ_eq_map, List.map_cons, List.map_map, Nat.add_zero,
    Nat.mod_eq_of_lt htail]
  congr 1
  apply List.map_congr_left
  intro i _
  show (tail + (i + 1)) % size = ((tail + 1) % size + i) % size
  rw [Nat.mod_add_mod]
  congr 1
  omega

theorem head_not_mem_ringSlots (hhead : head < size) (htail : tail < size) :
    head ∉ ringSlots size tail (ringLength size head tail) := by
  intro hmem
  rcases List.mem_map.mp hmem with ⟨i, hi, hslot⟩
  have hlt : i < ringLength size head tail := List.mem_range.mp hi
  rcases Nat.lt_or_ge head tail with h | h
  · rw [ringLength_of_lt h htail] at hlt
    rcases Nat.lt_or_ge (tail + i) size with hin | hin
    · rw [Nat.mod_eq_of_lt hin] at hslot
      omega
    · rw [Nat.mod_eq_sub_mod hin, Nat.mod_eq_of_lt (by omega)] at hslot
      omega
  · rw [ringLength_of_le hhead h] at hlt
    rw [Nat.mod_eq_of_lt (by omega)] at hslot
    omega

end Foundation
end EarlnuxOS
