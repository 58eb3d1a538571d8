import EarlnuxOS.Foundation.Run

/-!
# Simulation

Two machines that carry out the same operations.  A relation that one operation
keeps holds after every run.
-/

namespace EarlnuxOS
namespace Foundation

universe u v w

variable {state : Type u} {spec : Type v} {op : Type w}
  {exec : state -> op -> state} {execSpec : spec -> op -> spec}
  {R : state -> spec -> Prop}

/--
The induction rule for two machines side by side, where the state of the second
one says what is valid.
-/
theorem meets_related {cond : spec -> op -> Prop}
    (hstep : forall s t o, cond t o -> R s t -> R (exec s o) (execSpec t o))
    {s : state} {t : spec} (h : R s t) {ops : List op}
    (hmeets : Meets execSpec cond t ops) :
    R (run exec s ops) (run execSpec t ops) := by
  induction ops generalizing s t with
  | nil => exact h
  | cons o ops ih => exact ih (hstep s t o hmeets.left h) hmeets.right

theorem run_related {valid : op -> Prop}
    (hstep : forall s t o, valid o -> R s t -> R (exec s o) (execSpec t o))
    {s : state} {t : spec} (h : R s t) {ops : List op}
    (hvalid : forall o, o ∈ ops -> valid o) :
    R (run exec s ops) (run execSpec t ops) :=
  meets_related hstep h (meets_of_forall execSpec t hvalid)

end Foundation
end EarlnuxOS
