/-!
# Runs of a state machine

A machine carries out one operation after the other.  A run is valid when each
operation meets a condition in the state it finds; the induction rule turns a
property that one such operation preserves into one that holds in every state
a valid run reaches.
-/

namespace EarlnuxOS
namespace Foundation

universe u v w

variable {state : Type u} {op : Type v}

def run (exec : state -> op -> state) (s : state) (ops : List op) : state :=
  ops.foldl exec s

/-- Each operation meets the condition in the state before it. -/
def Meets (exec : state -> op -> state) (cond : state -> op -> Prop) :
    state -> List op -> Prop
  | _, [] => True
  | s, o :: ops => cond s o ∧ Meets exec cond (exec s o) ops

instance decidableMeets (exec : state -> op -> state)
    (cond : state -> op -> Prop) [forall s o, Decidable (cond s o)] :
    forall (s : state) (ops : List op), Decidable (Meets exec cond s ops)
  | _, [] => inferInstanceAs (Decidable True)
  | s, o :: ops =>
      have := decidableMeets exec cond (exec s o) ops
      inferInstanceAs (Decidable (cond s o ∧ Meets exec cond (exec s o) ops))

/-- The states that runs under the condition reach. -/
def Reachable (exec : state -> op -> state) (cond : state -> op -> Prop)
    (start s : state) : Prop :=
  exists ops, Meets exec cond start ops ∧ run exec start ops = s

@[simp] theorem run_nil (exec : state -> op -> state) (s : state) :
    run exec s [] = s := rfl

@[simp] theorem run_cons (exec : state -> op -> state) (s : state) (o : op)
    (ops : List op) : run exec s (o :: ops) = run exec (exec s o) ops := rfl

theorem run_append (exec : state -> op -> state) (s : state)
    (first second : List op) :
    run exec s (first ++ second) = run exec (run exec s first) second :=
  List.foldl_append

@[simp] theorem meets_nil (exec : state -> op -> state)
    (cond : state -> op -> Prop) (s : state) : Meets exec cond s [] :=
  trivial

theorem meets_cons {exec : state -> op -> state} {cond : state -> op -> Prop}
    {s : state} {o : op} {ops : List op} :
    Meets exec cond s (o :: ops) <->
      cond s o ∧ Meets exec cond (exec s o) ops :=
  Iff.rfl

theorem meets_true (exec : state -> op -> state) (s : state)
    (ops : List op) : Meets exec (fun _ _ => True) s ops := by
  induction ops generalizing s with
  | nil => exact trivial
  | cons o ops ih => exact ⟨trivial, ih (exec s o)⟩

theorem meets_of_forall (exec : state -> op -> state) (s : state)
    {P : op -> Prop} {ops : List op} (h : forall o, o ∈ ops -> P o) :
    Meets exec (fun _ o => P o) s ops := by
  induction ops generalizing s with
  | nil => exact trivial
  | cons o ops ih =>
      exact ⟨h o List.mem_cons_self,
        ih (exec s o) fun o' ho' => h o' (List.mem_cons_of_mem o ho')⟩

theorem meets_congr {exec : state -> op -> state}
    {cond cond' : state -> op -> Prop}
    (h : forall s o, cond s o <-> cond' s o) (s : state) (ops : List op) :
    Meets exec cond s ops <-> Meets exec cond' s ops := by
  induction ops generalizing s with
  | nil => exact Iff.rfl
  | cons o ops ih => exact and_congr (h s o) (ih (exec s o))

theorem meets_append {exec : state -> op -> state}
    {cond : state -> op -> Prop} {s : state} {first rest : List op} :
    Meets exec cond s (first ++ rest) <->
      Meets exec cond s first ∧ Meets exec cond (run exec s first) rest := by
  induction first generalizing s with
  | nil => exact (and_iff_right trivial).symm
  | cons o first ih =>
      rw [List.cons_append, meets_cons, meets_cons, ih, run_cons, and_assoc]

theorem Meets.front {exec : state -> op -> state}
    {cond : state -> op -> Prop} {s : state} {first rest : List op}
    (h : Meets exec cond s (first ++ rest)) : Meets exec cond s first :=
  (meets_append.mp h).left

theorem Meets.and {exec : state -> op -> state}
    {cond cond' : state -> op -> Prop} {s : state} {ops : List op}
    (h : Meets exec cond s ops) (h' : Meets exec cond' s ops) :
    Meets exec (fun s o => cond s o ∧ cond' s o) s ops := by
  induction ops generalizing s with
  | nil => exact trivial
  | cons o ops ih =>
      exact ⟨⟨h.left, h'.left⟩, ih h.right h'.right⟩

/-- A property of the start that valid operations preserve holds at the end. -/
theorem Meets.invariant {exec : state -> op -> state}
    {cond : state -> op -> Prop} {P : state -> Prop}
    (hstep : forall s o, P s -> cond s o -> P (exec s o))
    {s : state} {ops : List op} (hs : P s) (hmeets : Meets exec cond s ops) :
    P (run exec s ops) := by
  induction ops generalizing s with
  | nil => exact hs
  | cons o ops ih => exact ih (hstep s o hs hmeets.left) hmeets.right

/--
Where an operation either meets the condition and keeps a property, or makes
the state bad, a run is never bad exactly when it is valid.
-/
theorem Meets.iff_never {exec : state -> op -> state}
    {valid cond : state -> op -> Prop} {P bad : state -> Prop}
    (hgood : forall s, P s -> ¬ bad s)
    (hstep : forall s o, P s -> valid s o ->
      (cond s o ∧ P (exec s o)) ∨ (¬ cond s o ∧ bad (exec s o)))
    {s : state} (hs : P s) {ops : List op} (hvalid : Meets exec valid s ops) :
    Meets exec cond s ops <->
      forall first, first <+: ops -> ¬ bad (run exec s first) := by
  induction ops generalizing s with
  | nil =>
      refine iff_of_true trivial ?_
      intro first hfirst
      rw [List.prefix_nil.mp hfirst]
      exact hgood s hs
  | cons o ops ih =>
      rw [meets_cons]
      rcases hstep s o hs hvalid.left with ⟨hcond, hnext⟩ | ⟨hcond, hbad⟩
      · rw [ih hnext hvalid.right]
        constructor
        · rintro ⟨_, hrest⟩ first hfirst
          cases first with
          | nil => exact hgood s hs
          | cons o' first =>
              rcases List.cons_prefix_cons.mp hfirst with ⟨rfl, htail⟩
              exact hrest first htail
        · intro hall
          refine ⟨hcond, fun first hfirst => ?_⟩
          exact hall (o :: first) (List.cons_prefix_cons.mpr ⟨rfl, hfirst⟩)
      · refine iff_of_false (fun h => hcond h.left) ?_
        intro hall
        exact hall [o] ⟨ops, rfl⟩ hbad

/--
Where one operation keeps a property exactly when it meets the condition, the
property holds all along a run exactly when the run is valid.
-/
theorem meets_iff_always {exec : state -> op -> state}
    {cond : state -> op -> Prop} {P : state -> Prop}
    (hstep : forall s o, P s -> (cond s o <-> P (exec s o)))
    {s : state} (hs : P s) (ops : List op) :
    Meets exec cond s ops <->
      forall first, first <+: ops -> P (run exec s first) := by
  have hsplit : forall s o, P s -> True ->
      (cond s o ∧ P (exec s o)) ∨ (¬ cond s o ∧ ¬ P (exec s o)) := by
    intro s o h _
    rw [← hstep s o h, and_self, and_self]
    exact Classical.em _
  have hgood : forall s, P s -> ¬ ¬ P s := fun s h hbad => hbad h
  have hnever := Meets.iff_never hgood hsplit hs (meets_true exec s ops)
  rw [hnever]
  exact forall_congr' fun first => imp_congr_right fun _ => Classical.not_not

/-- In a valid run two conditions agree when they do where operations are valid. -/
theorem Meets.congr_of {exec : state -> op -> state}
    {valid cond cond' : state -> op -> Prop} {P : state -> Prop}
    (hcond : forall s o, P s -> valid s o -> (cond s o <-> cond' s o))
    (hstep : forall s o, P s -> valid s o -> P (exec s o))
    {s : state} (hs : P s) {ops : List op} (hvalid : Meets exec valid s ops) :
    Meets exec cond s ops <-> Meets exec cond' s ops := by
  induction ops generalizing s with
  | nil => exact Iff.rfl
  | cons o ops ih =>
      exact and_congr (hcond s o hs hvalid.left)
        (ih (hstep s o hs hvalid.left) hvalid.right)

section Logged

variable {alpha : Type w}

/-- What the operations of a run have to add, one after the other. -/
def logged (exec : state -> op -> state) (added : state -> op -> List alpha) :
    state -> List op -> List alpha
  | _, [] => []
  | s, o :: ops => added s o ++ logged exec added (exec s o) ops

/-- A list grows by what is to be added all along a run, or at each operation. -/
theorem meets_append_iff {exec : state -> op -> state}
    {added : state -> op -> List alpha} {content : state -> List alpha}
    (s : state) (ops : List op) :
    Meets exec (fun s o => content (exec s o) = content s ++ added s o) s ops <->
      forall first, first <+: ops ->
        content (run exec s first) = content s ++ logged exec added s first := by
  induction ops generalizing s with
  | nil =>
      refine iff_of_true trivial fun first hfirst => ?_
      rw [List.prefix_nil.mp hfirst]
      exact (List.append_nil _).symm
  | cons o ops ih =>
      rw [meets_cons, ih (exec s o)]
      constructor
      · rintro ⟨hone, hrest⟩ first hfirst
        cases first with
        | nil => exact (List.append_nil _).symm
        | cons o' first =>
            rcases List.cons_prefix_cons.mp hfirst with ⟨rfl, htail⟩
            rw [run_cons, hrest first htail, hone, List.append_assoc]
            rfl
      · intro hall
        have hone := hall [o] (List.cons_prefix_cons.mpr ⟨rfl, List.nil_prefix⟩)
        have hlog : logged exec added s [o] = added s o := List.append_nil _
        rw [run_cons, run_nil, hlog] at hone
        refine ⟨hone, fun first hfirst => ?_⟩
        have hmore := hall (o :: first)
          (List.cons_prefix_cons.mpr ⟨rfl, hfirst⟩)
        rw [run_cons] at hmore
        rw [hmore, hone, List.append_assoc]
        rfl

end Logged

theorem Reachable.refl (exec : state -> op -> state)
    (cond : state -> op -> Prop) (s : state) : Reachable exec cond s s :=
  ⟨[], trivial, rfl⟩

theorem Reachable.one {exec : state -> op -> state}
    {cond : state -> op -> Prop} {s : state} {o : op} (h : cond s o) :
    Reachable exec cond s (exec s o) :=
  ⟨[o], ⟨h, trivial⟩, rfl⟩

theorem Reachable.invariant {exec : state -> op -> state}
    {cond : state -> op -> Prop} {P : state -> Prop} {start s : state}
    (hreach : Reachable exec cond start s) (hstart : P start)
    (hstep : forall s o, P s -> cond s o -> P (exec s o)) : P s := by
  rcases hreach with ⟨ops, hmeets, hrun⟩
  rw [← hrun]
  exact hmeets.invariant hstep hstart

end Foundation
end EarlnuxOS
