import Mathlib.Data.List.Basic

/-!
# Text cut into lines

The last line of a text is open.  A separator closes it, and so does the
character that makes it as long as lines can be.
-/

namespace EarlnuxOS
namespace Foundation

universe u

/-- Closed lines, and the open one behind them. -/
structure TextLines (α : Type u) where
  closed : List (List α)
  last : List α

namespace TextLines

variable {α : Type u}

def empty : TextLines α := ⟨[], []⟩

def all (l : TextLines α) : List (List α) :=
  l.closed ++ [l.last]

def push (l : TextLines α) (c : α) : TextLines α :=
  { l with last := l.last ++ [c] }

def close (l : TextLines α) : TextLines α :=
  ⟨l.all, []⟩

def add (width : Nat) (sep : α -> Bool) (l : TextLines α) (c : α) :
    TextLines α :=
  if sep c then l.close
  else if width ≤ (l.push c).last.length then (l.push c).close
  else l.push c

def cut (width : Nat) (sep : α -> Bool) (text : List α) : TextLines α :=
  text.foldl (add width sep) empty

def charAt (l : TextLines α) (line col : Nat) : Option α :=
  l.all[line]?.bind fun chars => chars[col]?

@[simp] theorem length_all (l : TextLines α) :
    l.all.length = l.closed.length + 1 := by
  unfold all
  rw [List.length_append, List.length_singleton]

theorem charAt_closed (l : TextLines α) {line : Nat}
    (h : line < l.closed.length) (col : Nat) :
    l.charAt line col = l.closed[line]?.bind fun chars => chars[col]? := by
  unfold charAt all
  rw [List.getElem?_append_left h]

theorem charAt_last (l : TextLines α) (col : Nat) :
    l.charAt l.closed.length col = l.last[col]? := by
  unfold charAt all
  rw [List.getElem?_append_right (Nat.le_refl _), Nat.sub_self]
  rfl

theorem charAt_beyond (l : TextLines α) {line : Nat}
    (h : l.closed.length < line) (col : Nat) : l.charAt line col = none := by
  have hnone : l.all[line]? = none :=
    List.getElem?_eq_none (by rw [length_all]; exact h)
  unfold charAt
  rw [hnone]
  rfl

@[simp] theorem closed_push (l : TextLines α) (c : α) :
    (l.push c).closed = l.closed := rfl

@[simp] theorem last_push (l : TextLines α) (c : α) :
    (l.push c).last = l.last ++ [c] := rfl

@[simp] theorem last_close (l : TextLines α) : l.close.last = [] := rfl

@[simp] theorem length_closed_close (l : TextLines α) :
    l.close.closed.length = l.closed.length + 1 :=
  length_all l

theorem charAt_push (l : TextLines α) (c : α) (line col : Nat) :
    (l.push c).charAt line col =
      if line = l.closed.length ∧ col = l.last.length then some c
      else l.charAt line col := by
  rcases Nat.lt_trichotomy line l.closed.length with hless | heq | hmore
  · rw [if_neg (fun h => Nat.ne_of_lt hless h.left),
      charAt_closed _ hless, charAt_closed (l.push c) hless]
    rfl
  · have hlast := charAt_last (l.push c) col
    rw [closed_push, last_push, List.getElem?_append] at hlast
    rw [heq, hlast, charAt_last]
    rcases Nat.lt_trichotomy col l.last.length with hcol | hcol | hcol
    · rw [if_pos hcol, if_neg (fun h => Nat.ne_of_lt hcol h.right)]
    · have hself : ¬ col < l.last.length := by omega
      rw [if_neg hself, if_pos ⟨rfl, hcol⟩, hcol, Nat.sub_self]
      rfl
    · have hpast : [c].length ≤ col - l.last.length := Nat.sub_pos_of_lt hcol
      rw [if_neg (Nat.lt_asymm hcol), if_neg (fun h => Nat.ne_of_gt hcol h.right),
        List.getElem?_eq_none hpast, List.getElem?_eq_none (Nat.le_of_lt hcol)]
  · rw [if_neg (fun h => Nat.ne_of_gt hmore h.left), charAt_beyond _ hmore,
      charAt_beyond (l.push c) hmore]

theorem charAt_close (l : TextLines α) (line col : Nat) :
    l.close.charAt line col = l.charAt line col := by
  by_cases hless : line < l.close.closed.length
  · rw [charAt_closed _ hless]
    rfl
  · rw [length_closed_close, Nat.not_lt] at hless
    rw [l.charAt_beyond hless]
    rcases Nat.eq_or_lt_of_le hless with heq | hmore
    · have hlast := charAt_last l.close col
      rw [length_closed_close, last_close, heq] at hlast
      exact hlast
    · exact charAt_beyond _ (by rw [length_closed_close]; exact hmore) col

end TextLines

end Foundation
end EarlnuxOS
