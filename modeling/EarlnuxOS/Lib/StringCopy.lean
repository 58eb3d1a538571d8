import EarlnuxOS.Foundation.Words
import EarlnuxOS.Fs.Path

/-!
# Copying strings

`strncpy` of `kernel/lib/string.c`.  The loop that copies and the loop that
pads share `n`: when the terminator ends the first one, it has been stored but
not counted, and the second one goes one byte too far.
-/

namespace EarlnuxOS
namespace Lib

open Foundation Fs

structure Copying where
  mem : Memory
  d : Nat
  n : Nat

/-- `while (n && (*d++ = *src++)) n--;` -/
def copyLoop (m : Memory) (d src : Nat) : Nat -> Copying
  | 0 => ⟨m, d, 0⟩
  | n + 1 =>
      let c := m src
      let m := storeByte m d c
      if c = 0 then ⟨m, d + 1, n + 1⟩ else copyLoop m (d + 1) (src + 1) n

/-- `while (n--) *d++ = '\0';` -/
def padLoop (m : Memory) (d : Nat) : Nat -> Memory × Nat
  | 0 => (m, d)
  | n + 1 => padLoop (storeByte m d 0) (d + 1) n

/-- `strncpy`: memory, and how far `d` has come. -/
def strncpy (m : Memory) (dest src n : Nat) : Memory × Nat :=
  let copied := copyLoop m dest src n
  if copied.n = 0 then (copied.mem, copied.d)
  else padLoop copied.mem copied.d copied.n

/-- The first loop for a string that is kept in another object. -/
def copyFrom (m : Memory) (d : Nat) : CStr -> Nat -> Copying
  | _, 0 => ⟨m, d, 0⟩
  | [], n + 1 => ⟨storeByte m d 0, d + 1, n + 1⟩
  | c :: s, n + 1 => copyFrom (storeByte m d c) (d + 1) s n

/-- `strncpy` from a string that is kept in another object. -/
def strncpyFrom (m : Memory) (dest : Nat) (s : CStr) (n : Nat) :
    Memory × Nat :=
  let copied := copyFrom m dest s n
  if copied.n = 0 then (copied.mem, copied.d)
  else padLoop copied.mem copied.d copied.n

/-- What a call for the `n` bytes at `dest` is to do, and to leave alone. -/
structure WritesExactly (m : Memory) (dest n : Nat) (s : List UInt8)
    (after : Memory × Nat) : Prop where
  copied : forall i c, i < n -> s[i]? = some c -> after.1 (dest + i) = c
  padded : forall i, s.length ≤ i -> i < n -> after.1 (dest + i) = 0
  kept : forall x, x < dest ∨ dest + n ≤ x -> after.1 x = m x
  inside : after.2 ≤ dest + n

/-- The copy does not run into the string it reads. -/
def Ahead (dest src : Nat) (s : List UInt8) : Prop :=
  dest ≤ src ∨ src + s.length < dest

/-!
# The two loops
-/

theorem Ahead.string_kept {m : Memory} {dest src : Nat} {c b : UInt8}
    {s : List UInt8} (h : Ahead dest src (c :: s))
    (hs : HoldsString m (src + 1) s) :
    HoldsString (storeByte m dest b) (src + 1) s := by
  unfold Ahead at h
  rw [List.length_cons] at h
  apply hs.congr
  intro x hx hend
  exact if_neg (by omega)

theorem Ahead.next {dest src : Nat} {c : UInt8} {s : List UInt8}
    (h : Ahead dest src (c :: s)) : Ahead (dest + 1) (src + 1) s := by
  unfold Ahead at h ⊢
  rw [List.length_cons] at h
  omega

theorem copyLoop_eq {m : Memory} {dest src : Nat} {s : List UInt8} (n : Nat)
    (hs : HoldsString m src s) (hahead : Ahead dest src s) :
    copyLoop m dest src n = copyFrom m dest s n := by
  induction n generalizing m dest src s with
  | zero => cases s <;> rfl
  | succ n ih =>
      unfold copyLoop
      dsimp only
      cases s with
      | nil =>
          have hnul : m src = 0 := hs
          rw [hnul, if_pos rfl]
          rfl
      | cons c s =>
          rw [hs.left, if_neg hs.right.left]
          exact ih (hahead.string_kept hs.right.right) hahead.next

theorem copyFrom_full {m : Memory} {dest n : Nat} {s : List UInt8}
    (hn : n ≤ s.length) :
    copyFrom m dest s n = ⟨writeBytes m dest (s.take n), dest + n, 0⟩ := by
  induction n generalizing m dest s with
  | zero =>
      rw [List.take_zero, writeBytes_nil]
      cases s <;> rfl
  | succ n ih =>
      cases s with
      | nil => cases hn
      | cons c s =>
          unfold copyFrom
          rw [ih (Nat.le_of_succ_le_succ hn), List.take_succ_cons,
            writeBytes_cons, Nat.add_assoc, Nat.add_comm 1]

theorem copyFrom_short {m : Memory} {dest n : Nat} {s : List UInt8}
    (hn : s.length < n) :
    copyFrom m dest s n =
      ⟨writeBytes m dest (s ++ [0]), dest + s.length + 1, n - s.length⟩ := by
  induction n generalizing m dest s with
  | zero => cases hn
  | succ n ih =>
      cases s with
      | nil =>
          rw [List.nil_append, writeBytes_cons, writeBytes_nil]
          rfl
      | cons c s =>
          unfold copyFrom
          rw [ih (Nat.lt_of_succ_lt_succ hn), List.cons_append,
            writeBytes_cons, List.length_cons, Nat.add_sub_add_right,
            Nat.add_assoc dest, Nat.add_comm 1]

theorem padLoop_eq (m : Memory) (d n : Nat) :
    padLoop m d n = (writeBytes m d (List.replicate n 0), d + n) := by
  induction n generalizing m d with
  | zero =>
      rw [List.replicate_zero, writeBytes_nil]
      rfl
  | succ n ih =>
      unfold padLoop
      rw [ih, List.replicate_succ, writeBytes_cons, Nat.add_assoc,
        Nat.add_comm 1]

/-!
# What is written
-/

theorem strncpyFrom_full {m : Memory} {dest n : Nat} {s : List UInt8}
    (hn : n ≤ s.length) :
    strncpyFrom m dest s n = (writeBytes m dest (s.take n), dest + n) := by
  unfold strncpyFrom
  rw [copyFrom_full hn]
  exact if_pos rfl

theorem strncpyFrom_short {m : Memory} {dest n : Nat} {s : List UInt8}
    (hn : s.length < n) :
    strncpyFrom m dest s n =
      (writeBytes m dest (s ++ List.replicate (n - s.length + 1) 0),
        dest + n + 1) := by
  have hleft : n - s.length ≠ 0 := by omega
  have hlen : dest + s.length + 1 = dest + (s ++ [(0 : UInt8)]).length := by
    rw [List.length_append, List.length_singleton, Nat.add_assoc]
  have hzeros : s ++ List.replicate (n - s.length + 1) 0 =
      (s ++ [0]) ++ List.replicate (n - s.length) (0 : UInt8) := by
    rw [List.append_assoc, List.replicate_succ]
    rfl
  unfold strncpyFrom
  rw [copyFrom_short hn]
  dsimp only
  rw [if_neg hleft, padLoop_eq, hzeros, writeBytes_append m dest (s ++ [0]),
    ← hlen]
  congr 1
  omega

theorem strncpy_eq {m : Memory} {dest src : Nat} {s : List UInt8} (n : Nat)
    (hs : HoldsString m src s) (hahead : Ahead dest src s) :
    strncpy m dest src n = strncpyFrom m dest s n := by
  unfold strncpy strncpyFrom
  rw [copyLoop_eq n hs hahead]

theorem strncpy_full {m : Memory} {dest src n : Nat} {s : List UInt8}
    (hs : HoldsString m src s) (hahead : Ahead dest src s)
    (hn : n ≤ s.length) :
    strncpy m dest src n = (writeBytes m dest (s.take n), dest + n) := by
  rw [strncpy_eq n hs hahead, strncpyFrom_full hn]

theorem strncpy_short {m : Memory} {dest src n : Nat} {s : List UInt8}
    (hs : HoldsString m src s) (hahead : Ahead dest src s)
    (hn : s.length < n) :
    strncpy m dest src n =
      (writeBytes m dest (s ++ List.replicate (n - s.length + 1) 0),
        dest + n + 1) := by
  rw [strncpy_eq n hs hahead, strncpyFrom_short hn]

/-- `strncpy` keeps to the `n` bytes exactly when the string fills them. -/
theorem strncpy_iff {m : Memory} {dest src n : Nat} {s : List UInt8}
    (hs : HoldsString m src s) (hahead : Ahead dest src s) :
    WritesExactly m dest n s (strncpy m dest src n) <-> n ≤ s.length := by
  constructor
  · intro h
    by_contra hshort
    have hinside := h.inside
    rw [strncpy_short hs hahead (Nat.lt_of_not_le hshort)] at hinside
    dsimp only at hinside
    omega
  · intro hn
    have hlen : (s.take n).length = n := List.length_take_of_le hn
    rw [strncpy_full hs hahead hn]
    constructor
    · intro i c hi hc
      have htake : (s.take n)[i]? = some c := by
        rw [List.getElem?_take_of_lt hi, hc]
      rcases List.getElem?_eq_some_iff.mp htake with ⟨hbound, hget⟩
      exact (writeBytes_apply_add m dest hbound).trans hget
    · intro i hle hi
      omega
    · intro x hx
      apply writeBytes_apply_outside
      rw [hlen]
      exact hx
    · exact Nat.le_refl _

/-- A string that is shorter costs the byte behind the destination. -/
theorem strncpy_overrun {m : Memory} {dest src n : Nat} {s : List UInt8}
    (hs : HoldsString m src s) (hahead : Ahead dest src s)
    (hn : s.length < n) : (strncpy m dest src n).1 (dest + n) = 0 := by
  have hlen : n < (s ++ List.replicate (n - s.length + 1) (0 : UInt8)).length := by
    rw [List.length_append, List.length_replicate]
    omega
  rw [strncpy_short hs hahead hn]
  refine (writeBytes_apply_add m dest hlen).trans ?_
  rw [List.getElem_append_right (Nat.le_of_lt hn), List.getElem_replicate]

/-- A name at 256, and the 32 bytes of `current_user` at 0. -/
def nameMemory (name : List UInt8) : Memory :=
  fun x => if x < 256 then 0x7E else name.getD (x - 256) 0

theorem holdsString_root : HoldsString (nameMemory (cstr "root")) 256 (cstr "root") := by
  refine ⟨rfl, by decide, rfl, by decide, rfl, by decide, rfl, by decide, rfl⟩

theorem strncpy_iff_full :
    WritesExactly (nameMemory (cstr "root")) 0 4 (cstr "root")
      (strncpy (nameMemory (cstr "root")) 0 256 4) :=
  (strncpy_iff holdsString_root (Or.inl (Nat.zero_le 256))).mpr (by decide)

/-- `strncpy(current_user, username, 32)` for a user named `root`. -/
theorem currentUser_overrun :
    nameMemory (cstr "root") 32 = 0x7E ∧
      (strncpy (nameMemory (cstr "root")) 0 256 32).1 32 = 0 ∧
      ¬ WritesExactly (nameMemory (cstr "root")) 0 32 (cstr "root")
        (strncpy (nameMemory (cstr "root")) 0 256 32) := by
  have hcleared :
      (strncpy (nameMemory (cstr "root")) 0 256 32).1 (0 + 32) = 0 :=
    strncpy_overrun holdsString_root (Or.inl (Nat.zero_le 256)) (by decide)
  rw [Nat.zero_add] at hcleared
  refine ⟨rfl, hcleared, ?_⟩
  intro h
  have hkept := h.kept 32 (Or.inr (Nat.le_refl 32))
  rw [hcleared] at hkept
  exact absurd hkept (by decide)

end Lib
end EarlnuxOS
