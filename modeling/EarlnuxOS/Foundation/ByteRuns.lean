import EarlnuxOS.Foundation.ByteMemory

/-!
# Runs of bytes

Reading and writing a run of consecutive bytes of memory at once.  A run reads
back as it was written, and a write is invisible to a run it does not overlap.
-/

namespace EarlnuxOS
namespace Foundation

def readBytes (m : Memory) (a n : Nat) : List UInt8 :=
  (List.range n).map fun i => m (a + i)

/-- Memory after the bytes are copied to address `a`. -/
def writeBytes (m : Memory) (a : Nat) (bs : List UInt8) : Memory :=
  fun x => if x < a then m x else (bs[x - a]?).getD (m x)

/-!
# Reading
-/

@[simp] theorem length_readBytes (m : Memory) (a n : Nat) :
    (readBytes m a n).length = n := by
  simp [readBytes]

@[simp] theorem getElem_readBytes (m : Memory) (a n i : Nat)
    (hi : i < (readBytes m a n).length) : (readBytes m a n)[i] = m (a + i) := by
  simp [readBytes]

@[simp] theorem readBytes_zero (m : Memory) (a : Nat) : readBytes m a 0 = [] :=
  rfl

theorem readBytes_eq_iff {m m' : Memory} {a b n : Nat} :
    readBytes m a n = readBytes m' b n <->
      forall i, i < n -> m (a + i) = m' (b + i) := by
  simp [readBytes]

theorem readBytes_congr {m m' : Memory} {a n : Nat}
    (h : forall i, i < n -> m' (a + i) = m (a + i)) :
    readBytes m' a n = readBytes m a n :=
  readBytes_eq_iff.mpr h

theorem readBytes_add (m : Memory) (a n k : Nat) :
    readBytes m a (n + k) = readBytes m a n ++ readBytes m (a + n) k := by
  unfold readBytes
  rw [List.range_add, List.map_append, List.map_map]
  congr 1
  apply List.map_congr_left
  intro i _
  exact congrArg m (Nat.add_assoc a n i).symm

theorem readBytes_succ (m : Memory) (a n : Nat) :
    readBytes m a (n + 1) = m a :: readBytes m (a + 1) n := by
  rw [Nat.add_comm, readBytes_add]
  rfl

theorem readBytes_slice (m : Memory) (a : Nat) {n i k : Nat}
    (h : i + k ≤ n) :
    readBytes m (a + i) k = ((readBytes m a n).drop i).take k := by
  have hn : n = i + k + (n - (i + k)) := (Nat.add_sub_cancel' h).symm
  rw [hn, readBytes_add, readBytes_add, List.append_assoc,
    List.drop_left' (length_readBytes m a i),
    List.take_left' (length_readBytes m (a + i) k)]

theorem readBytes_dropLast (m : Memory) (a n : Nat) :
    readBytes m a (n - 1) = (readBytes m a n).dropLast := by
  unfold readBytes
  rw [List.dropLast_eq_take, ← List.map_take, List.length_map,
    List.length_range, List.take_range, Nat.min_eq_left (Nat.sub_le _ 1)]

theorem readBytes_storeByte_next (m : Memory) (a n : Nat) (v : UInt8) :
    readBytes (storeByte m (a + n) v) a (n + 1) = readBytes m a n ++ [v] := by
  rw [readBytes_add]
  congr 1
  · apply readBytes_congr
    intro i hi
    exact if_neg (by omega)
  · simp [readBytes, storeByte]

/-!
# Writing
-/

theorem writeBytes_apply_outside (m : Memory) {a x : Nat} {bs : List UInt8}
    (h : x < a ∨ a + bs.length ≤ x) : writeBytes m a bs x = m x := by
  unfold writeBytes
  split
  · rfl
  · rw [List.getElem?_eq_none (by omega), Option.getD_none]

theorem writeBytes_apply_add (m : Memory) (a : Nat) {bs : List UInt8} {i : Nat}
    (hi : i < bs.length) : writeBytes m a bs (a + i) = bs[i] := by
  unfold writeBytes
  rw [if_neg (by omega), Nat.add_sub_cancel_left,
    List.getElem?_eq_getElem hi, Option.getD_some]

theorem readBytes_writeBytes_self (m : Memory) (a : Nat) (bs : List UInt8) :
    readBytes (writeBytes m a bs) a bs.length = bs := by
  apply List.ext_getElem (length_readBytes _ _ _)
  intro i _ hi
  rw [getElem_readBytes, writeBytes_apply_add m a hi]

theorem readBytes_writeBytes_disjoint (m : Memory) {a b n : Nat}
    {bs : List UInt8} (h : a + bs.length ≤ b ∨ b + n ≤ a) :
    readBytes (writeBytes m a bs) b n = readBytes m b n := by
  apply readBytes_congr
  intro i hi
  exact writeBytes_apply_outside m (by omega)

theorem writeBytes_nil (m : Memory) (a : Nat) : writeBytes m a [] = m := by
  funext x
  exact writeBytes_apply_outside m (Nat.lt_or_ge x a)

theorem writeBytes_cons (m : Memory) (a : Nat) (b : UInt8) (bs : List UInt8) :
    writeBytes m a (b :: bs) = writeBytes (storeByte m a b) (a + 1) bs := by
  funext x
  unfold writeBytes storeByte
  rcases Nat.lt_trichotomy x a with hlt | heq | hgt
  · rw [if_pos hlt, if_pos (by omega), if_neg (by omega)]
  · rw [heq, if_neg (Nat.lt_irrefl a), if_pos (Nat.lt_succ_self a),
      Nat.sub_self, if_pos rfl]
    rfl
  · have hindex : x - a = (x - (a + 1)) + 1 := by omega
    rw [if_neg (by omega), if_neg (by omega), if_neg (by omega), hindex,
      List.getElem?_cons_succ]

theorem writeBytes_append (m : Memory) (a : Nat) (as bs : List UInt8) :
    writeBytes m a (as ++ bs) =
      writeBytes (writeBytes m a as) (a + as.length) bs := by
  induction as generalizing m a with
  | nil => rw [List.nil_append, writeBytes_nil, List.length_nil, Nat.add_zero]
  | cons c as ih =>
      rw [List.cons_append, writeBytes_cons, writeBytes_cons, ih,
        List.length_cons, Nat.add_assoc, Nat.add_comm 1]

/-!
# Known runs
-/

/-- The bytes from address `a` on begin with the given ones. -/
def HoldsAt (m : Memory) (a : Nat) (bs : List UInt8) : Prop :=
  readBytes m a bs.length = bs

theorem holdsAt_nil (m : Memory) (a : Nat) : HoldsAt m a [] := rfl

theorem holdsAt_getD (bs : List UInt8) : HoldsAt (fun i => bs.getD i 0) 0 bs := by
  apply List.ext_getElem (length_readBytes _ _ _)
  intro i _ hi
  simp [hi]

theorem HoldsAt.readBytes {m : Memory} {a n : Nat} {bs : List UInt8}
    (h : HoldsAt m a bs) (hn : bs.length = n) :
    Foundation.readBytes m a n = bs := by
  rw [← hn]
  exact h

theorem holdsAt_append {m : Memory} {a : Nat} {as bs : List UInt8} :
    HoldsAt m a (as ++ bs) <->
      HoldsAt m a as ∧ HoldsAt m (a + as.length) bs := by
  unfold HoldsAt
  rw [List.length_append, readBytes_add]
  constructor
  · exact fun h => List.append_inj h (length_readBytes _ _ _)
  · rintro ⟨has, hbs⟩
    rw [has, hbs]

theorem holdsAt_cons {m : Memory} {a : Nat} {b : UInt8} {bs : List UInt8} :
    HoldsAt m a (b :: bs) <-> m a = b ∧ HoldsAt m (a + 1) bs := by
  have happ := @holdsAt_append m a [b] bs
  have hone : HoldsAt m a [b] <-> m a = b := by
    simp [HoldsAt, Foundation.readBytes]
  rw [hone] at happ
  exact happ

theorem HoldsAt.writeBytes_next {m : Memory} {a : Nat} {as : List UInt8}
    (h : HoldsAt m a as) (bs : List UInt8) :
    HoldsAt (writeBytes m (a + as.length) bs) a (as ++ bs) := by
  rw [holdsAt_append]
  constructor
  · exact (readBytes_writeBytes_disjoint m (Or.inr (Nat.le_refl _))).trans h
  · exact readBytes_writeBytes_self m _ bs

/-!
# Turning a run around
-/

/-- Memory with the bytes from `lo` to `hi` in reverse. -/
def mirror (m : Memory) (lo hi : Nat) : Memory :=
  fun x => if lo ≤ x ∧ x ≤ hi then m (lo + hi - x) else m x

theorem mirror_of_le (m : Memory) {lo hi : Nat} (h : hi ≤ lo) :
    mirror m lo hi = m := by
  funext x
  unfold mirror
  split
  · congr 1
    omega
  · rfl

/-- Two bytes change places, and those between them are turned around. -/
theorem mirror_swap (m : Memory) {lo hi : Nat} (h : lo < hi) :
    mirror (storeByte (storeByte m lo (m hi)) hi (m lo)) (lo + 1) (hi - 1) =
      mirror m lo hi := by
  funext x
  unfold mirror storeByte
  by_cases hlo : x = lo
  · subst hlo
    rw [if_neg (by omega), if_neg (by omega), if_pos rfl, if_pos (by omega)]
    congr 1
    omega
  by_cases hhi : x = hi
  · subst hhi
    rw [if_neg (by omega), if_pos rfl, if_pos (by omega)]
    congr 1
    omega
  by_cases hin : lo < x ∧ x < hi
  · rw [if_pos (by omega), if_neg (by omega), if_neg (by omega),
      if_pos (by omega)]
    congr 1
    omega
  · rw [if_neg (by omega), if_neg hhi, if_neg hlo, if_neg (by omega)]

theorem mirror_writeBytes (m : Memory) (a : Nat) {bs : List UInt8}
    (rest : List UInt8) (hne : bs ≠ []) :
    mirror (writeBytes m a (bs ++ rest)) a (a + (bs.length - 1)) =
      writeBytes m a (bs.reverse ++ rest) := by
  have hpos : 0 < bs.length := List.length_pos_of_ne_nil hne
  funext x
  unfold mirror writeBytes
  by_cases hlt : x < a
  · rw [if_neg (by omega), if_pos hlt, if_pos hlt]
  by_cases hin : x ≤ a + (bs.length - 1)
  · have hplace : a + (a + (bs.length - 1)) - x - a =
        bs.length - 1 - (x - a) := by omega
    rw [if_pos (by omega), if_neg (by omega), if_neg hlt, hplace,
      List.getElem?_append_left (by omega),
      List.getElem?_append_left (by rw [List.length_reverse]; omega),
      List.getElem?_reverse (by omega)]
    have hsome : bs.length - 1 - (x - a) < bs.length := by omega
    rw [List.getElem?_eq_getElem hsome]
    rfl
  · rw [if_neg (by omega), if_neg hlt, if_neg hlt,
      List.getElem?_append_right (by omega),
      List.getElem?_append_right (by rw [List.length_reverse]; omega),
      List.length_reverse]

end Foundation
end EarlnuxOS
