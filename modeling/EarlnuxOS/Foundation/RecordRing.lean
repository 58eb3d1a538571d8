import EarlnuxOS.Foundation.ByteRuns

/-!
# Records in a ring

Records of different lengths, one behind the other in a ring of `cap` bytes.  A
record starts inside the ring and lies contiguously from there, past the end of
the ring if need be.  Positions run on without bound; the address of one is its
remainder.
-/

namespace EarlnuxOS
namespace Foundation

universe u

variable {record : Type u} (bytes : record -> List UInt8)
  (size : record -> Nat) (cap : Nat)

/-- The records lie in memory from position `a` on. -/
def Laid (m : Memory) : Nat -> List record -> Prop
  | _, [] => True
  | a, r :: rs => HoldsAt m (a % cap) (bytes r) ∧ Laid m (a + size r) rs

def ringBytes (rs : List record) : Nat := (rs.map size).sum

@[simp] theorem ringBytes_nil : ringBytes size [] = 0 := rfl

@[simp] theorem ringBytes_cons (r : record) (rs : List record) :
    ringBytes size (r :: rs) = size r + ringBytes size rs := by
  unfold ringBytes
  rw [List.map_cons, List.sum_cons]

theorem ringBytes_append (rs rs' : List record) :
    ringBytes size (rs ++ rs') = ringBytes size rs + ringBytes size rs' := by
  unfold ringBytes
  rw [List.map_append, List.sum_append]

variable {bytes size cap}

/-!
# Positions and addresses
-/

theorem laid_congr {m : Memory} {a b : Nat} (h : a % cap = b % cap)
    (rs : List record) :
    Laid bytes size cap m a rs <-> Laid bytes size cap m b rs := by
  induction rs generalizing a b with
  | nil => exact Iff.rfl
  | cons r rs ih =>
      have hnext : (a + size r) % cap = (b + size r) % cap :=
        Nat.ModEq.add_right (size r) h
      unfold Laid
      rw [h, ih hnext]

theorem ring_disjoint {a n len k : Nat} (hcap : 0 < cap) (hle : a + len ≤ n)
    (hturn : n + k ≤ a + cap) (hk : 0 < k) :
    n % cap + k ≤ a % cap ∨ a % cap + len ≤ n % cap := by
  have hi := Nat.mod_lt a hcap
  have hn : n % cap = (a % cap + (n - a)) % cap := by
    rw [Nat.mod_add_mod, Nat.add_sub_cancel' (by omega)]
  rcases Nat.lt_or_ge (a % cap + (n - a)) cap with hlt | hge
  · rw [Nat.mod_eq_of_lt hlt] at hn
    omega
  · have hback : a % cap + (n - a) - cap < cap := by omega
    rw [Nat.mod_eq_sub_mod hge, Nat.mod_eq_of_lt hback] at hn
    omega

/-!
# Appending a record
-/

/-- What is written behind the records, within a turn, leaves them alone. -/
theorem Laid.write {m : Memory} {a n k : Nat} {rs : List record}
    (hlaid : Laid bytes size cap m a rs) (hcap : 0 < cap)
    (hsize : forall r, r ∈ rs -> (bytes r).length ≤ size r)
    (hle : a + ringBytes size rs ≤ n) (hturn : n + k ≤ a + cap) (hk : 0 < k)
    {bs : List UInt8} (hbs : bs.length ≤ k) :
    Laid bytes size cap (writeBytes m (n % cap) bs) a rs := by
  induction rs generalizing a with
  | nil => exact trivial
  | cons r rs ih =>
      rw [List.forall_mem_cons] at hsize
      rw [ringBytes_cons] at hle
      have hr := hsize.left
      rcases hlaid with ⟨hhead, htail⟩
      refine ⟨?_, ih htail hsize.right (by omega) (by omega)⟩
      have happart : n % cap + k ≤ a % cap ∨
          a % cap + (bytes r).length ≤ n % cap :=
        ring_disjoint hcap (by omega) hturn hk
      exact (readBytes_writeBytes_disjoint m (by omega)).trans hhead

theorem laid_append {m : Memory} {a : Nat} {rs rs' : List record} :
    Laid bytes size cap m a (rs ++ rs') <->
      Laid bytes size cap m a rs ∧
        Laid bytes size cap m (a + ringBytes size rs) rs' := by
  induction rs generalizing a with
  | nil => exact (and_iff_right trivial).symm
  | cons r rs ih =>
      rw [List.cons_append, Laid, Laid, ih, ringBytes_cons, Nat.add_assoc,
        and_assoc]

/-- A record stored at the end, where a whole turn has room for it. -/
theorem Laid.snoc {m : Memory} {a : Nat} {rs : List record} {r : record}
    (hlaid : Laid bytes size cap m a rs) (hcap : 0 < cap)
    (hsize : forall q, q ∈ rs ++ [r] -> (bytes q).length ≤ size q)
    (hpos : 0 < size r) (hroom : ringBytes size rs + size r ≤ cap) :
    Laid bytes size cap
      (writeBytes m ((a + ringBytes size rs) % cap) (bytes r)) a
      (rs ++ [r]) := by
  rw [laid_append]
  constructor
  · refine hlaid.write hcap (fun q hq => hsize q (List.mem_append_left _ hq))
      (Nat.le_refl _) (k := size r) (by omega) hpos ?_
    exact hsize r (List.mem_append_right _ List.mem_cons_self)
  · exact ⟨readBytes_writeBytes_self _ _ _, trivial⟩

end Foundation
end EarlnuxOS
