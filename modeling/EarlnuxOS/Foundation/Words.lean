import Mathlib.Data.List.TakeWhile
import EarlnuxOS.Foundation.ByteRuns

/-!
# Words of a string, and strings in memory

The words of a list are its longest pieces without a separator, and a run is a
longest piece of one kind at its front.  A string in memory ends with a NUL; a
string is cut there by storing one.
-/

namespace EarlnuxOS
namespace Foundation

universe u

/-!
# Words
-/

section

variable {α : Type u} {sep : α -> Bool}

def words (sep : α -> Bool) (s : List α) : List (List α) :=
  (s.splitOnP sep).filter fun w => !w.isEmpty

@[simp] theorem words_nil (sep : α -> Bool) : words sep [] = [] := rfl

theorem words_cons_sep {c : α} (s : List α) (hc : sep c = true) :
    words sep (c :: s) = words sep s := by
  have hsplit := List.splitOnP_append_cons [] s hc
  rw [List.nil_append] at hsplit
  unfold words
  rw [hsplit, List.splitOnP_nil]
  rfl

theorem words_word {w : List α} (hw : forall c, c ∈ w -> sep c = false)
    (hne : w ≠ []) : words sep w = [w] := by
  cases w with
  | nil => exact absurd rfl hne
  | cons c w =>
      unfold words
      rw [List.splitOnP_eq_singleton hw]
      rfl

theorem words_word_cons {w : List α} {c : α} (s : List α)
    (hw : forall c, c ∈ w -> sep c = false) (hne : w ≠ [])
    (hc : sep c = true) : words sep (w ++ c :: s) = w :: words sep s := by
  cases w with
  | nil => exact absurd rfl hne
  | cons a w =>
      unfold words
      rw [List.splitOnP_append_cons_of_forall_mem hw c hc]
      rfl

theorem words_eq_nil_iff {s : List α} :
    words sep s = [] <-> forall c, c ∈ s -> sep c = true := by
  induction s with
  | nil => simp [words]
  | cons a s ih =>
      cases ha : sep a with
      | true => rw [words_cons_sep s ha, ih, List.forall_mem_cons]; simp [ha]
      | false =>
          refine iff_of_false ?_ ?_
          · unfold words
            rw [List.splitOnP_cons_eq_if_modifyHead, if_neg (by simp [ha])]
            cases hsplit : s.splitOnP sep with
            | nil => exact absurd hsplit (List.splitOnP_ne_nil sep s)
            | cons w ws => simp
          · intro hall
            rw [hall a List.mem_cons_self] at ha
            cases ha

/-- A list that does not begin with a separator begins with a word. -/
theorem words_of_not_sep {c : α} {s : List α} (hc : sep c = false) :
    exists w rest, w ≠ [] ∧ c :: s = w ++ rest ∧
      (forall c, c ∈ w -> sep c = false) ∧
      (forall b t, rest = b :: t -> sep b = true) ∧
      words sep (c :: s) = w :: words sep rest := by
  have hword : forall b, b ∈ [c] -> sep b = false :=
    List.forall_mem_singleton.mpr hc
  induction s generalizing c with
  | nil =>
      refine ⟨[c], [], by simp, rfl, hword, ?_, words_word hword (by simp)⟩
      intro b t h
      cases h
  | cons a s ih =>
      cases ha : sep a with
      | true =>
          refine ⟨[c], a :: s, by simp, rfl, hword, ?_, ?_⟩
          · intro b t h
            cases h
            exact ha
          · rw [words_cons_sep s ha]
            exact words_word_cons s hword (by simp) ha
      | false =>
          rcases ih ha (List.forall_mem_singleton.mpr ha) with ⟨w, rest, hne, hs, hw, hrest, hwords⟩
          have hcw : forall b, b ∈ c :: w -> sep b = false :=
            List.forall_mem_cons.mpr ⟨hc, hw⟩
          refine ⟨c :: w, rest, by simp, by rw [hs]; rfl, hcw, hrest, ?_⟩
          rw [hs]
          cases rest with
          | nil =>
              rw [List.append_nil]
              exact words_word hcw (by simp)
          | cons b rest =>
              have hb := hrest b rest rfl
              rw [words_cons_sep rest hb]
              exact words_word_cons rest hcw (by simp) hb

end

/-!
# Runs

A scan over the characters of one kind stops at the first one of another kind.
-/

section

variable {α : Type u} {p : α -> Bool}

/-- The list does not begin with a character of the kind. -/
def Stops (p : α -> Bool) (rest : List α) : Prop :=
  forall c t, rest = c :: t -> p c = false

theorem stops_nil (p : α -> Bool) : Stops p [] := by
  intro c t h
  cases h

theorem stops_cons {c : α} (t : List α) (hc : p c = false) :
    Stops p (c :: t) := by
  intro b u h
  cases h
  exact hc

theorem dropWhile_run {w rest : List α} (hw : forall c, c ∈ w -> p c = true)
    (hrest : Stops p rest) : (w ++ rest).dropWhile p = rest := by
  rw [List.dropWhile_append_of_pos hw]
  cases rest with
  | nil => rfl
  | cons c rest =>
      rw [List.dropWhile_cons_of_neg]
      simp [hrest c rest rfl]

theorem run_unique {w w' rest rest' : List α}
    (hw : forall c, c ∈ w -> p c = true) (hrest : Stops p rest)
    (hw' : forall c, c ∈ w' -> p c = true) (hrest' : Stops p rest')
    (h : w ++ rest = w' ++ rest') : w = w' ∧ rest = rest' := by
  have hsame : rest = rest' := by
    rw [← dropWhile_run hw hrest, h, dropWhile_run hw' hrest']
  rw [hsame] at h
  exact ⟨List.append_cancel_right h, hsame⟩

theorem exists_run (p : α -> Bool) (s : List α) :
    exists w rest, s = w ++ rest ∧ (forall c, c ∈ w -> p c = true) ∧
      Stops p rest ∧ s.dropWhile p = rest := by
  refine ⟨s.takeWhile p, s.dropWhile p,
    List.takeWhile_append_dropWhile.symm, ?_, ?_, rfl⟩
  · exact fun b hb => List.mem_takeWhile_imp hb
  · intro c t h
    have hhead := List.head?_dropWhile_not p s
    rw [h] at hhead
    simpa using hhead

end

/-!
# Pieces

A string falls into pieces at each separator, empty ones included.
-/

section

variable {α : Type u} {sep : α}

/-- What has no separator belongs to the first piece of what follows. -/
theorem splitOn_append_of_not_mem [BEq α] [LawfulBEq α] {s : List α}
    (t : List α) (hs : sep ∉ s) :
    exists w ws, t.splitOn sep = w :: ws ∧
      (s ++ t).splitOn sep = (s ++ w) :: ws := by
  induction s with
  | nil =>
      cases hsplit : t.splitOn sep with
      | nil => exact absurd hsplit (List.splitOn_ne_nil sep t)
      | cons w ws => exact ⟨w, ws, rfl, hsplit⟩
  | cons c s ih =>
      rw [List.mem_cons, not_or] at hs
      rcases ih hs.right with ⟨w, ws, hsplit, happend⟩
      refine ⟨w, ws, hsplit, ?_⟩
      have hc : ¬ (c == sep) = true := by
        rw [beq_iff_eq]
        exact Ne.symm hs.left
      rw [List.cons_append, List.splitOn_cons_eq_if_modifyHead, if_neg hc,
        happend]
      rfl

theorem splitOn_pieces [BEq α] {s w : List α} {ws : List (List α)}
    (h : s.splitOn sep = w :: ws) :
    w <+: s ∧ forall v, v ∈ ws -> v <:+: s := by
  induction s generalizing w ws with
  | nil =>
      rw [List.splitOn_nil] at h
      cases h
      exact ⟨List.prefix_refl [], fun v hv => absurd hv List.not_mem_nil⟩
  | cons c s ih =>
      cases hsplit : s.splitOn sep with
      | nil => exact absurd hsplit (List.splitOn_ne_nil sep s)
      | cons v vs =>
          rcases ih hsplit with ⟨hfront, hrest⟩
          rw [List.splitOn_cons_eq_if_modifyHead, hsplit] at h
          split at h
          · cases h
            refine ⟨List.nil_prefix, ?_⟩
            intro u hu
            rcases List.mem_cons.mp hu with heq | hu
            · rw [heq]
              exact hfront.isInfix.trans (List.suffix_cons c s).isInfix
            · exact (hrest u hu).trans (List.suffix_cons c s).isInfix
          · cases h
            refine ⟨(List.prefix_cons_inj c).mpr hfront, ?_⟩
            intro u hu
            exact (hrest u hu).trans (List.suffix_cons c s).isInfix

theorem infix_of_mem_splitOn [BEq α] {s w : List α}
    (h : w ∈ s.splitOn sep) :
    w <:+: s := by
  cases hsplit : s.splitOn sep with
  | nil => exact absurd hsplit (List.splitOn_ne_nil sep s)
  | cons v vs =>
      rw [hsplit] at h
      rcases List.mem_cons.mp h with heq | h
      · rw [heq]
        exact (splitOn_pieces hsplit).left.isInfix
      · exact (splitOn_pieces hsplit).right w h

theorem exists_last_piece {s : List α} (h : sep ∈ s) :
    exists front piece, s = front ++ sep :: piece ∧ sep ∉ piece := by
  rcases List.eq_append_cons_of_mem (List.mem_reverse.mpr h) with
    ⟨piece, front, hs, hpiece⟩
  refine ⟨front.reverse, piece.reverse, ?_, ?_⟩
  · rw [← List.reverse_reverse s, hs, List.reverse_append, List.reverse_cons,
      List.append_assoc]
    rfl
  · rw [List.mem_reverse]
    exact hpiece

end

/-!
# Strings in memory
-/

/-- The string stands at an address, with a NUL behind it. -/
def HoldsString (m : Memory) : Nat -> List UInt8 -> Prop
  | a, [] => m a = 0
  | a, c :: s => m a = c ∧ c ≠ 0 ∧ HoldsString m (a + 1) s

theorem HoldsString.append {m : Memory} {a : Nat} {s t : List UInt8}
    (h : HoldsString m a (s ++ t)) : HoldsString m (a + s.length) t := by
  induction s generalizing a with
  | nil => exact h
  | cons c s ih =>
      have hrest := ih h.right.right
      rw [Nat.add_assoc, Nat.add_comm 1] at hrest
      exact hrest

theorem HoldsString.congr {m m' : Memory} {a : Nat} {s : List UInt8}
    (h : HoldsString m a s)
    (hsame : forall x, a ≤ x -> x ≤ a + s.length -> m' x = m x) :
    HoldsString m' a s := by
  induction s generalizing a with
  | nil => exact (hsame a (Nat.le_refl a) (Nat.le_refl a)).trans h
  | cons c s ih =>
      rw [List.length_cons] at hsame
      refine ⟨(hsame a (Nat.le_refl a) (by omega)).trans h.left,
        h.right.left, ih h.right.right ?_⟩
      intro x hax hx
      exact hsame x (by omega) (by omega)

structure PointsInto (m : Memory) (start stop x : Nat) (rest : List UInt8) :
    Prop where
  holds : HoldsString m x rest
  lower : start ≤ x
  upper : x + rest.length = stop

theorem HoldsString.pointsInto {m : Memory} {a : Nat} {s : List UInt8}
    (h : HoldsString m a s) : PointsInto m a (a + s.length) a s :=
  ⟨h, Nat.le_refl a, rfl⟩

theorem PointsInto.le {m : Memory} {start stop x : Nat} {rest : List UInt8}
    (h : PointsInto m start stop x rest) : x ≤ stop :=
  Nat.le.intro h.upper

theorem PointsInto.next {m : Memory} {start stop x : Nat} {c : UInt8}
    {rest : List UInt8} (h : PointsInto m start stop x (c :: rest)) :
    PointsInto m start stop (x + 1) rest := by
  have hupper := h.upper
  rw [List.length_cons] at hupper
  exact ⟨h.holds.right.right, Nat.le_succ_of_le h.lower, by omega⟩

theorem PointsInto.append {m : Memory} {start stop x : Nat} {front rest : List UInt8}
    (h : PointsInto m start stop x (front ++ rest)) :
    PointsInto m start stop (x + front.length) rest := by
  have hupper := h.upper
  rw [List.length_append] at hupper
  exact ⟨h.holds.append, Nat.le_add_right_of_le h.lower, by omega⟩

theorem HoldsString.cut {m : Memory} {a : Nat} {s t : List UInt8}
    (h : HoldsString m a (s ++ t)) :
    HoldsString (storeByte m (a + s.length) 0) a s := by
  induction s generalizing a with
  | nil => exact if_pos rfl
  | cons c s ih =>
      rw [List.length_cons]
      refine ⟨?_, h.right.left, ?_⟩
      · unfold storeByte
        rw [if_neg (by omega)]
        exact h.left
      · have hrest := ih h.right.right
        rw [Nat.add_assoc, Nat.add_comm 1] at hrest
        exact hrest

theorem holdsString_readBytes {m : Memory} {a n : Nat}
    (h : 0 ∉ readBytes m a n) :
    HoldsString (storeByte m (a + n) 0) a (readBytes m a n) := by
  induction n generalizing a with
  | zero => exact if_pos rfl
  | succ n ih =>
      rw [readBytes_succ] at h ⊢
      rw [List.mem_cons, not_or] at h
      refine ⟨if_neg (by omega), Ne.symm h.left, ?_⟩
      have hrest := ih h.right
      rw [Nat.add_assoc, Nat.add_comm 1] at hrest
      exact hrest

theorem holdsString_of_holdsAt {m : Memory} {a : Nat} {s : List UInt8}
    (hs : 0 ∉ s) (h : HoldsAt m a (s ++ [0])) : HoldsString m a s := by
  induction s generalizing a with
  | nil => exact (holdsAt_cons.mp h).left
  | cons c s ih =>
      rw [List.mem_cons, not_or] at hs
      rw [List.cons_append, holdsAt_cons] at h
      exact ⟨h.left, Ne.symm hs.left, ih hs.right h.right⟩

/-- The string at an address, of at most `n` bytes. -/
def stringAt (m : Memory) : Nat -> Nat -> List UInt8
  | 0, _ => []
  | n + 1, a => if m a = 0 then [] else m a :: stringAt m n (a + 1)

theorem HoldsString.stringAt_eq {m : Memory} {a n : Nat} {s : List UInt8}
    (h : HoldsString m a s) (hn : s.length ≤ n) : stringAt m n a = s := by
  induction s generalizing a n with
  | nil =>
      cases n with
      | zero => rfl
      | succ n => exact if_pos h
  | cons c s ih =>
      cases n with
      | zero => exact absurd hn (Nat.not_succ_le_zero s.length)
      | succ n =>
          have hc : ¬ m a = 0 := h.left.symm ▸ h.right.left
          rw [stringAt, if_neg hc, h.left,
            ih h.right.right (Nat.le_of_succ_le_succ hn)]

end Foundation
end EarlnuxOS
