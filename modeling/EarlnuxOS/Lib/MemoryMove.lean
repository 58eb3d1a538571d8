import EarlnuxOS.Types
import EarlnuxOS.Foundation.ByteRuns

/-!
# Moving memory

`memmove` of `kernel/lib/string.c`.  A copy that goes up the addresses reads
each byte before it overwrites it unless the destination begins inside the
source; one that goes down does so unless the source begins inside the
destination.
-/

namespace EarlnuxOS
namespace Lib

open Foundation

/-- `while (n--) *d++ = *s++;` -/
def copyForward (m : Memory) (d s : Nat) : Nat -> Memory
  | 0 => m
  | n + 1 => copyForward (storeByte m d (m s)) (add32 d 1) (add32 s 1) n

/-- `while (n--) *--d = *--s;` -/
def copyBackward (m : Memory) (d s : Nat) : Nat -> Memory
  | 0 => m
  | n + 1 =>
      let d := sub32 d 1
      let s := sub32 s 1
      copyBackward (storeByte m d (m s)) d s n

def memmove (m : Memory) (dest src n : Nat) : Memory :=
  if dest < src ∧ src < add32 dest n then
    copyForward m dest src n
  else if src < dest ∧ dest < add32 src n then
    copyBackward m (add32 dest n) (add32 src n) n
  else
    copyForward m dest src n

/-- The copy has the bytes of the source as they were before. -/
structure Moves (m : Memory) (dest src n : Nat) (after : Memory) : Prop where
  moved : forall i, i < n -> after (dest + i) = m (src + i)
  kept : forall x, x < dest ∨ dest + n ≤ x -> after x = m x

/-!
# The two directions
-/

/-- The bytes ahead of an upward copy are still those of the source. -/
theorem copyForward_eq {m : Memory} {d s n : Nat} (hd : d + n ≤ 2 ^ 32)
    (hs : s + n ≤ 2 ^ 32) (hahead : d ≤ s ∨ s + n ≤ d) :
    copyForward m d s n = writeBytes m d (readBytes m s n) := by
  induction n generalizing m d s with
  | zero => exact (writeBytes_nil m d).symm
  | succ n ih =>
      have hsource : readBytes (storeByte m d (m s)) (s + 1) n =
          readBytes m (s + 1) n := by
        apply readBytes_congr
        intro i hi
        exact if_neg (by omega)
      rw [copyForward, readBytes_succ, writeBytes_cons]
      cases n with
      | zero => exact (writeBytes_nil _ _).symm
      | succ n =>
          have hd' : add32 d 1 = d + 1 := by
            unfold add32
            omega
          have hs' : add32 s 1 = s + 1 := by
            unfold add32
            omega
          rw [hd', hs', ih (by omega) (by omega) (by omega), hsource]

theorem writeBytes_snoc (m : Memory) (a : Nat) (bs : List UInt8) (b : UInt8) :
    writeBytes (storeByte m (a + bs.length) b) a bs =
      writeBytes m a (bs ++ [b]) := by
  induction bs generalizing m a with
  | nil =>
      rw [List.nil_append, writeBytes_cons, writeBytes_nil, writeBytes_nil]
      rfl
  | cons c bs ih =>
      have hcomm : storeByte (storeByte m (a + (bs.length + 1)) b) a c =
          storeByte (storeByte m a c) (a + 1 + bs.length) b := by
        funext x
        unfold storeByte
        by_cases hx : x = a
        · rw [if_pos hx, if_neg (by omega), if_pos hx]
        · rw [if_neg hx, if_neg hx, Nat.add_assoc a 1, Nat.add_comm 1]
      rw [List.cons_append, writeBytes_cons, writeBytes_cons, ← ih,
        List.length_cons, hcomm]

/-- The bytes below a downward copy are still those of the source. -/
theorem copyBackward_eq {m : Memory} {d s n : Nat} (hd : d + n ≤ 2 ^ 32)
    (hs : s + n ≤ 2 ^ 32) (hbehind : s ≤ d ∨ d + n ≤ s) :
    copyBackward m (add32 d n) (add32 s n) n =
      writeBytes m d (readBytes m s n) := by
  induction n generalizing m with
  | zero => exact (writeBytes_nil m d).symm
  | succ n ih =>
      have hd' : sub32 (add32 d (n + 1)) 1 = d + n := by
        unfold sub32 add32
        omega
      have hs' : sub32 (add32 s (n + 1)) 1 = s + n := by
        unfold sub32 add32
        omega
      have hdn : d + n = add32 d n := by
        unfold add32
        omega
      have hsn : s + n = add32 s n := by
        unfold add32
        omega
      have hsource : readBytes (storeByte m (d + n) (m (s + n))) s n =
          readBytes m s n := by
        apply readBytes_congr
        intro i hi
        exact if_neg (by omega)
      have hlast : readBytes m s (n + 1) = readBytes m s n ++ [m (s + n)] := by
        rw [readBytes_add]
        rfl
      have hsnoc := writeBytes_snoc m d (readBytes m s n) (m (s + n))
      rw [length_readBytes] at hsnoc
      rw [copyBackward, hd', hs', hlast, ← hsnoc, ← hsource,
        ← ih (by omega) (by omega) (by omega), ← hdn, ← hsn]

theorem moves_writeBytes (m : Memory) (dest src n : Nat) :
    Moves m dest src n (writeBytes m dest (readBytes m src n)) := by
  constructor
  · intro i hi
    have hlen : i < (readBytes m src n).length := by
      rw [length_readBytes]
      exact hi
    rw [writeBytes_apply_add m dest hlen, getElem_readBytes]
  · intro x hx
    apply writeBytes_apply_outside
    rw [length_readBytes]
    exact hx

/-!
# Every overlap
-/

theorem memmove_eq (m : Memory) {dest src n : Nat} (hdest : dest + n ≤ 2 ^ 32)
    (hsrc : src + n ≤ 2 ^ 32) :
    memmove m dest src n = writeBytes m dest (readBytes m src n) := by
  unfold memmove
  split
  · rename_i hbelow
    exact copyForward_eq hdest hsrc (Or.inl (Nat.le_of_lt hbelow.left))
  · split
    · rename_i habove
      exact copyBackward_eq hdest hsrc (Or.inl (Nat.le_of_lt habove.left))
    · rename_i hbelow habove
      apply copyForward_eq hdest hsrc
      -- the sum is the end of the source unless that is the end of memory
      have hend : src < dest -> add32 src n = src + n := by
        intro hlt
        unfold add32
        omega
      by_cases hle : dest ≤ src
      · exact Or.inl hle
      · rw [hend (Nat.lt_of_not_le hle)] at habove
        exact Or.inr (by omega)

theorem memmove_moves (m : Memory) {dest src n : Nat}
    (hdest : dest + n ≤ 2 ^ 32) (hsrc : src + n ≤ 2 ^ 32) :
    Moves m dest src n (memmove m dest src n) := by
  rw [memmove_eq m hdest hsrc]
  exact moves_writeBytes m dest src n

def ramp : Memory := fun x => UInt8.ofNat x

theorem memmove_moves_ramp :
    Moves ramp 0x1003 0x1000 8 (memmove ramp 0x1003 0x1000 8) :=
  memmove_moves ramp (by decide) (by decide)

end Lib
end EarlnuxOS
