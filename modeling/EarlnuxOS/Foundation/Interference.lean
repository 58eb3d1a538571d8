import Mathlib.Data.Set.Basic
import Mathlib.Logic.Function.Basic

/-!
# Interference

A program loads and stores shared cells, and between any two of its accesses
something else may store to some of them.  A program that never loads the cells
that the other one stores to does what it would do alone.
-/

namespace EarlnuxOS
namespace Foundation

universe u v w x

variable {cell : Type u} {value : Type v} {result : Type w} {other : Type x}

/-! ## Programs -/

/-- The accesses of a program, and what it returns in the end. -/
inductive Prog (cell : Type u) (value : Type v) (result : Type w) where
  | done (r : result)
  | load (c : cell) (next : value -> Prog cell value result)
  | store (c : cell) (v : value) (next : Prog cell value result)

namespace Prog

def andThen :
    Prog cell value result -> (result -> Prog cell value other) ->
      Prog cell value other
  | done r, f => f r
  | load c next, f => load c fun v => (next v).andThen f
  | store c v next, f => store c v (next.andThen f)

def forEach {index : Type x} (body : index -> Prog cell value Unit) :
    List index -> Prog cell value Unit
  | [] => done ()
  | i :: l => (body i).andThen fun _ => forEach body l

/-- The program never loads a cell of the set. -/
inductive Spares (D : Set cell) : Prog cell value result -> Prop where
  | done (r : result) : Spares D (done r)
  | load {c : cell} {next : value -> Prog cell value result} (hc : c ∉ D)
      (hnext : forall v, Spares D (next v)) : Spares D (load c next)
  | store (c : cell) (v : value) {next : Prog cell value result}
      (hnext : Spares D next) : Spares D (store c v next)

section Runs

variable [DecidableEq cell]

/-- The result of the program and the cells after it, when it runs alone. -/
def alone : Prog cell value result -> (cell -> value) ->
    result × (cell -> value)
  | done r, m => (r, m)
  | load c next, m => (next (m c)).alone m
  | store c v next, m => next.alone (Function.update m c v)

/-- The accesses that a program makes when it runs alone. -/
def accesses : Prog cell value result -> (cell -> value) -> Nat
  | done _, _ => 0
  | load c next, m => (next (m c)).accesses m + 1
  | store c v next, m => next.accesses (Function.update m c v) + 1

def access : Prog cell value result -> (cell -> value) ->
    Prog cell value result × (cell -> value)
  | done r, m => (done r, m)
  | load c next, m => (next (m c), m)
  | store c v next, m => (next, Function.update m c v)

/-! ## Runs alone -/

theorem alone_andThen (p : Prog cell value result)
    (f : result -> Prog cell value other) (m : cell -> value) :
    (p.andThen f).alone m = (f (p.alone m).1).alone (p.alone m).2 := by
  induction p generalizing m with
  | done r => rfl
  | load c next ih => exact ih (m c) m
  | store c v next ih => exact ih (Function.update m c v)

theorem alone_forEach {index : Type x} (body : index -> Prog cell value Unit)
    (l : List index) (m : cell -> value) :
    (forEach body l).alone m =
      ((), l.foldl (fun m i => ((body i).alone m).2) m) := by
  induction l generalizing m with
  | nil => rfl
  | cons i l ih =>
      unfold forEach
      rw [alone_andThen, ih]
      rfl

end Runs

/-! ## Programs that spare some cells -/

theorem Spares.andThen {D : Set cell} {p : Prog cell value result}
    {f : result -> Prog cell value other} (hp : p.Spares D)
    (hf : forall r, (f r).Spares D) : (p.andThen f).Spares D := by
  induction hp with
  | done r => exact hf r
  | load hc _ ih => exact Spares.load hc ih
  | store c v _ ih => exact Spares.store c v ih

theorem spares_forEach {index : Type x} {D : Set cell}
    {body : index -> Prog cell value Unit} {l : List index}
    (hbody : forall i, i ∈ l -> (body i).Spares D) :
    (forEach body l).Spares D := by
  induction l with
  | nil => exact Spares.done ()
  | cons i l ih =>
      apply (hbody i List.mem_cons_self).andThen
      intro _
      apply ih
      intro j hj
      exact hbody j (List.mem_cons_of_mem i hj)

end Prog

/-! ## Interference -/

def AgreeOff (D : Set cell) (m m' : cell -> value) : Prop :=
  forall c, c ∉ D -> m' c = m c

theorem AgreeOff.symm {D : Set cell} {m m' : cell -> value}
    (h : AgreeOff D m m') : AgreeOff D m' m :=
  fun c hc => (h c hc).symm

theorem AgreeOff.trans {D : Set cell} {m m' m'' : cell -> value}
    (h : AgreeOff D m m') (h' : AgreeOff D m' m'') : AgreeOff D m m'' :=
  fun c hc => (h' c hc).trans (h c hc)

variable [DecidableEq cell]

theorem AgreeOff.update {D : Set cell} {m m' : cell -> value}
    (h : AgreeOff D m m') (c : cell) (v : value) :
    AgreeOff D (Function.update m c v) (Function.update m' c v) := by
  intro d hd
  rcases eq_or_ne d c with heq | hne
  · rw [heq, Function.update_self, Function.update_self]
  · rw [Function.update_of_ne hne, Function.update_of_ne hne]
    exact h d hd

theorem agreeOff_update {D : Set cell} (m : cell -> value) {c : cell}
    (hc : c ∈ D) (v : value) : AgreeOff D m (Function.update m c v) := by
  intro d hd
  have hne : d ≠ c := by
    intro heq
    exact hd (heq ▸ hc)
  exact Function.update_of_ne hne v m

theorem Prog.Spares.alone_agree {D : Set cell}
    {p : Prog cell value result} (hp : p.Spares D) {m m' : cell -> value}
    (h : AgreeOff D m m') :
    (p.alone m').1 = (p.alone m).1 ∧
      AgreeOff D (p.alone m).2 (p.alone m').2 ∧
        p.accesses m' = p.accesses m := by
  induction hp generalizing m m' with
  | done r => exact ⟨rfl, h, rfl⟩
  | @load c next hc _ ih =>
      have hsame : m' c = m c := h c hc
      rcases ih (m c) h with ⟨hresult, hcells, hcount⟩
      unfold Prog.alone Prog.accesses
      rw [hsame]
      exact ⟨hresult, hcells, congrArg (· + 1) hcount⟩
  | store c v _ ih =>
      rcases ih (h.update c v) with ⟨hresult, hcells, hcount⟩
      exact ⟨hresult, hcells, congrArg (· + 1) hcount⟩

/--
What is left of a program after `n` of its accesses will end as the program does
alone, apart from the cells of the set.
-/
structure Undisturbed (D : Set cell) (p : Prog cell value result)
    (m : cell -> value) (n : Nat) (q : Prog cell value result)
    (m' : cell -> value) : Prop where
  spares : q.Spares D
  result : (q.alone m').1 = (p.alone m).1
  cells : AgreeOff D (p.alone m).2 (q.alone m').2
  left : q.accesses m' = p.accesses m - n

namespace Undisturbed

variable {D : Set cell} {p q : Prog cell value result} {m m' : cell -> value}
  {n : Nat}

theorem start (hp : p.Spares D) (m : cell -> value) :
    Undisturbed D p m 0 p m where
  spares := hp
  result := rfl
  cells := fun _ _ => rfl
  left := rfl

theorem access (h : Undisturbed D p m n q m') :
    Undisturbed D p m (n + 1) (q.access m').1 (q.access m').2 := by
  rcases h with ⟨hspares, hresult, hcells, hleft⟩
  cases hspares with
  | done r =>
      have hzero : 0 = p.accesses m - n := hleft
      have hstill : 0 = p.accesses m - (n + 1) := by omega
      exact ⟨Prog.Spares.done r, hresult, hcells, hstill⟩
  | @load c next _ hnext =>
      have hone : (next (m' c)).accesses m' + 1 = p.accesses m - n := hleft
      have hless : (next (m' c)).accesses m' = p.accesses m - (n + 1) := by
        omega
      exact ⟨hnext (m' c), hresult, hcells, hless⟩
  | @store c v next hnext =>
      have hone : next.accesses (Function.update m' c v) + 1 =
          p.accesses m - n := hleft
      have hless : next.accesses (Function.update m' c v) =
          p.accesses m - (n + 1) := by
        omega
      exact ⟨hnext, hresult, hcells, hless⟩

theorem disturb (h : Undisturbed D p m n q m') {m'' : cell -> value}
    (hagree : AgreeOff D m' m'') : Undisturbed D p m n q m'' := by
  rcases h.spares.alone_agree hagree with ⟨hresult, hcells, hcount⟩
  exact
    { spares := h.spares
      result := hresult.trans h.result
      cells := h.cells.trans hcells
      left := hcount.trans h.left }

theorem finished (h : Undisturbed D p m n q m') (hn : p.accesses m ≤ n) :
    q = Prog.done (p.alone m).1 ∧ AgreeOff D (p.alone m).2 m' := by
  rcases h with ⟨_, hresult, hcells, hleft⟩
  rw [Nat.sub_eq_zero_of_le hn] at hleft
  cases q with
  | done r =>
      have hr : r = (p.alone m).1 := hresult
      rw [hr]
      exact ⟨rfl, hcells⟩
  | load c next => exact absurd hleft (Nat.succ_ne_zero _)
  | store c v next => exact absurd hleft (Nat.succ_ne_zero _)

end Undisturbed

end Foundation
end EarlnuxOS
