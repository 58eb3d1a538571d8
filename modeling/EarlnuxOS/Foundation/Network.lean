import Mathlib.Algebra.Order.BigOperators.Group.List
import Mathlib.Algebra.Order.Ring.Nat
import Mathlib.Logic.Function.Basic

/-!
# Parties and messages in flight

A network of parties that only act on the messages they receive.  Messages
arrive in any order, and each may be lost.  Where every message weighs more than
what its delivery sends, only so many deliveries can follow.
-/

namespace EarlnuxOS
namespace Foundation

universe u v w

/--
What a party does with a message: its state before and after, and the messages
that come of it, each with the party it goes to.
-/
structure Network (party : Type u) (state : Type v) (msg : Type w) where
  receive : party -> state -> msg -> state -> List (party × msg) -> Prop

namespace Network

variable {party : Type u} {state : Type v} {msg : Type w}

/-- The states of the parties, and the messages on their way. -/
structure Config (party : Type u) (state : Type v) (msg : Type w) where
  states : party -> state
  flight : List (party × msg)

/-! ## What is in flight -/

section Load

variable {weight : party × msg -> Nat} {c : Config party state msg}

def load (weight : party × msg -> Nat) (c : Config party state msg) : Nat :=
  (c.flight.map weight).sum

theorem load_split {before after : List (party × msg)} {x : party × msg}
    (hflight : c.flight = before ++ x :: after) :
    load weight c =
      (before.map weight).sum + (weight x + (after.map weight).sum) := by
  unfold load
  rw [hflight, List.map_append, List.map_cons, List.sum_append, List.sum_cons]

theorem load_le {n : Nat} (hle : forall x, weight x ≤ n) :
    load weight c ≤ n * c.flight.length := by
  have hsum := List.sum_le_card_nsmul (c.flight.map weight) n (by
    intro k hk
    rcases List.mem_map.mp hk with ⟨x, _, rfl⟩
    exact hle x)
  rw [List.length_map, nsmul_eq_mul, Nat.mul_comm] at hsum
  exact hsum

end Load

/-! ## Runs -/

variable [DecidableEq party] (net : Network party state msg)

/-- One of the messages in flight arrives or is lost. -/
inductive Step : Config party state msg -> Config party state msg -> Prop where
  | deliver {c : Config party state msg} {before after new : List (party × msg)}
      {p : party} {m : msg} {s : state}
      (hflight : c.flight = before ++ (p, m) :: after)
      (hreceive : net.receive p (c.states p) m s new) :
      Step c ⟨Function.update c.states p s, before ++ after ++ new⟩
  | lose {c : Config party state msg} {before after : List (party × msg)}
      {x : party × msg} (hflight : c.flight = before ++ x :: after) :
      Step c ⟨c.states, before ++ after⟩

inductive Steps : Nat -> Config party state msg -> Config party state msg -> Prop where
  | refl (c : Config party state msg) : Steps 0 c c
  | step {n : Nat} {c d e : Config party state msg} :
      net.Step c d -> Steps n d e -> Steps (n + 1) c e

variable {net} {weight : party × msg -> Nat} {c d : Config party state msg}

theorem Step.deliver_head {after new : List (party × msg)} {p : party}
    {m : msg} {s : state} (hflight : c.flight = (p, m) :: after)
    (hreceive : net.receive p (c.states p) m s new) :
    net.Step c ⟨Function.update c.states p s, after ++ new⟩ := by
  have hsplit : c.flight = [] ++ (p, m) :: after := hflight
  exact Step.deliver hsplit hreceive

theorem Step.load_lt (hpos : forall x, 0 < weight x)
    (hreceive : forall p s m s' new, net.receive p s m s' new ->
      (new.map weight).sum < weight (p, m))
    (h : net.Step c d) : load weight d < load weight c := by
  cases h with
  | deliver hflight hreceived =>
      have hnew := hreceive _ _ _ _ _ hreceived
      rw [load_split hflight]
      unfold load
      simp only [List.map_append, List.sum_append]
      omega
  | lose hflight =>
      rename_i before after x
      have hx := hpos x
      rw [load_split hflight]
      unfold load
      simp only [List.map_append, List.sum_append]
      omega

theorem Steps.length_le (hpos : forall x, 0 < weight x)
    (hreceive : forall p s m s' new, net.receive p s m s' new ->
      (new.map weight).sum < weight (p, m))
    {n : Nat} (h : net.Steps n c d) : n + load weight d ≤ load weight c := by
  induction h with
  | refl c => exact Nat.le_of_eq (Nat.zero_add _)
  | step hstep _ ih =>
      have hlt := hstep.load_lt hpos hreceive
      omega

end Network

end Foundation
end EarlnuxOS
